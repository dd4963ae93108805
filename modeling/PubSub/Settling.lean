import PubSub.Descent
import PubSub.Quiescence
import PubSub.Receivers

/- Left to themselves the tasks of all sessions come to rest. What a client called for goes
   through its connection to the handler, which may owe it to every other connection; there
   it goes out to the clients, and nothing a client receives makes it call again. -/
namespace PubSub
open Channels LabelledRun StreamParsing MsgPackCodec
variable {ring : Ring} {T V : Type}

/-! A framed reader and the channel behind it. -/

def FramedRead.src : FramedRead → Bytes
  | .streaming loop => loop.src
  | .finishing src => src
  | .ended => []

def FramedRead.left (f : FramedRead) : Nat :=
  3 * f.src.length +
    match f with
    | .streaming ⟨_, .reading⟩ => 2
    | .streaming _ | .finishing _ => 1
    | .ended => 0

def Inbox.left (s : Inbox T) : Nat :=
  s.task.framed.left + 2 * s.task.holding.toList.length + s.channel.queue.length +
    (!s.channel.senderDropped).toNat

def FramedRead.Consumes (fromRead : Parser UInt8 DecodeError T) (f : FramedRead) : Prop :=
  ∀ x left, decode fromRead f.src = (.ok (some x), left) → left.length < f.src.length

theorem inbox_consumes {fromRead : Parser UInt8 DecodeError T} {serialize : T → Except String Bytes}
    {xs : List T} {stream : Bytes} (law : ReadsBack fromRead serialize)
    (sent : encodeAll serialize xs [] = (.ok (), stream)) {es : List (InboxEvent T)} {s : Inbox T}
    (run : InboxRun fromRead es s) (within : arrivedIn (framings es) <+: stream) :
    s.task.framed.Consumes fromRead := by
  obtain ⟨d, placed⟩ := framed_placed law sent (run_kept run).framed within
  have buffer : s.task.framed.src = d.src ∨ s.task.framed.src = [] := by
    have stage := placed.stage
    cases at_ : s.task.framed with
    | streaming loop =>
      rw [at_] at stage
      exact Or.inl (congrArg ReadLoop.src stage.1)
    | finishing src =>
      rw [at_] at stage
      exact Or.inl stage.1
    | ended => exact Or.inr rfl
  intro x left read
  rcases buffer with same | empty
  · rw [same] at read ⊢
    obtain ⟨rest, done, later, -, -, after, -, -, begun⟩ := placed.reading.halves
    rcases decode_begun law after begun with ⟨waits, -⟩ |
      ⟨y, rest, frame, later, left', -, -, packed, -, split, yields, -⟩
    · rw [waits] at read
      cases read
    · rw [yields] at read
      obtain rfl := (Prod.mk.inj read).2
      have some_byte := List.length_pos_iff.mpr (frame_nonempty law packed)
      rw [split, List.length_append]
      omega
  · rw [empty, decode_unfinished law.nothing] at read
    cases read

theorem decode_kept {fromRead : Parser UInt8 DecodeError T} {src left : Bytes}
    {answer : Except IoError (Option T)} (read : decode fromRead src = (answer, left))
    (none : ∀ x, answer ≠ .ok (some x)) : left = src := by
  rcases decode_cases fromRead src with ⟨x, rest, left', -, same⟩ | ⟨-, same⟩ | ⟨text, rest, -, same⟩
  · exact absurd (Prod.mk.inj (same.symm.trans read)).1.symm (none x)
  · exact (Prod.mk.inj (same.symm.trans read)).2.symm
  · exact (Prod.mk.inj (same.symm.trans read)).2.symm

theorem framedStep_left {fromRead : Parser UInt8 DecodeError T} {f f' : FramedRead}
    {handed arrived : Bytes} {shut : Prop} {e : FramedEvent T} (own : (ReadTaskEvent.framed e).Own)
    (consumes : f.Consumes fromRead) (possible : e.Possible handed arrived shut)
    (step : FramedStep fromRead f e f') :
    f'.left + 2 * e.yielded.toList.length + 1 ≤ f.left + 5 * (arrivedIn [e]).length := by
  cases step with
  | read step =>
    cases step with
    | chunk src bytes =>
      have some_byte := List.length_pos_iff.mpr possible.1
      have arrived : arrivedIn [(FramedEvent.read (.chunk bytes) : FramedEvent T)] = bytes := by
        simp [arrivedIn, fed, FramedEvent.reading, ReadEvent.fed]
      simp only [FramedRead.left, FramedRead.src, FramedEvent.yielded, ReadEvent.yielded, arrived,
        Option.toList_none, List.length_append, List.length_nil]
      omega
    | item read =>
      have fewer := consumes _ _ read
      simp only [FramedRead.src] at fewer
      simp only [FramedRead.left, FramedRead.src, FramedEvent.yielded, ReadEvent.yielded,
        Option.toList_some, List.length_cons, List.length_nil]
      omega
    | idle read =>
      rw [decode_kept read (by simp)]
      simp [FramedRead.left, FramedRead.src, FramedEvent.yielded, ReadEvent.yielded]
    | failed read =>
      rw [decode_kept read (by simp)]
      simp [FramedRead.left, FramedRead.src, FramedEvent.yielded, ReadEvent.yielded]
  | last read =>
    have fewer := consumes _ _ read
    simp only [FramedRead.src] at fewer
    simp only [FramedRead.left, FramedRead.src, FramedEvent.yielded, Option.toList_some,
      List.length_cons, List.length_nil]
    omega
  | socket => exact own.elim
  | endOfFile => exact own.elim
  | _ =>
    simp only [FramedRead.left, FramedRead.src, FramedEvent.yielded, Option.toList_none,
      List.length_nil]
    omega

theorem readTaskStep_left {fromRead : Parser UInt8 DecodeError T} {r r' : ReadTask T}
    {channel after : Mpsc channelBufferSize T} {handed arrived : Bytes} {shut : Prop}
    {e : ReadTaskEvent T} (own : e.Own) (consumes : r.framed.Consumes fromRead)
    (possible : ∀ f ∈ e.framing, f.Possible handed arrived shut)
    (step : ReadTaskStep fromRead r channel e r' after) :
    (Inbox.mk r' after).left + 1 ≤
      (Inbox.mk r channel).left + 5 * (arrivedIn e.framing.toList).length := by
  cases step with
  | framed idle step =>
    have lower := framedStep_left own consumes (possible _ rfl) step
    simp only [Inbox.left, idle, Option.toList_none, List.length_nil]
    show _ ≤ _ + 5 * (arrivedIn [_]).length
    omega
  | sent held running room =>
    simp only [Inbox.left, held, Mpsc.push, Option.toList_none, Option.toList_some,
      List.length_append, List.length_cons, List.length_nil]
    omega
  | dropped held closed =>
    simp only [Inbox.left, held, Option.toList_none, Option.toList_some, List.length_cons,
      List.length_nil]
    omega
  | ended done idle running => simp [Inbox.left, idle, running]

/-! What is under way to a handler. -/

def Format.frameLength (format : Format V) (command : Command V) : Nat :=
  match format.packCommand command with
  | .ok frame => frame.length
  | .error _ => 0

def Client.left (format : Format V) (k : Client V) : Nat :=
  (k.commands.queue.map fun command => 6 * format.frameLength command + 2).sum +
    match k.writer with
    | .sending left => 6 * left.length + 1
    | .receiving | .ended => 0

def Session.inbound (format : Format V) (k : Session V) : Nat :=
  k.client.left format + 5 * (k.client.handed.length - k.atServer.length) + k.serverInbox.left

theorem clientStep_left {format : Format V} {k k' : Client V} {e : ClientEvent V} (own : e.Own)
    (step : ClientStep format k e k') :
    (∃ i, e = .inbox i) ∨ (k'.inbox = k.inbox ∧
      k'.left format + 5 * k'.handed.length + 1 ≤ k.left format + 5 * k.handed.length) := by
  cases step with
  | write at_ queue packed =>
    refine Or.inr ⟨rfl, ?_⟩
    simp only [Client.left, at_, queue, Format.frameLength, packed, List.map_cons, List.sum_cons]
    omega
  | unencodable at_ queue failed =>
    refine Or.inr ⟨rfl, ?_⟩
    simp only [Client.left, Client.stopWriter, at_, queue, List.map_cons, List.sum_cons]
    omega
  | @hand bytes left at_ =>
    have some_byte := List.length_pos_iff.mpr own
    refine Or.inr ⟨rfl, ?_⟩
    simp only [Client.left, at_, List.length_append]
    omega
  | flushed at_ =>
    refine Or.inr ⟨rfl, ?_⟩
    simp only [Client.left, at_]
    omega
  | inbox step => exact Or.inl ⟨_, rfl⟩
  | _ => exact own.elim

/-! What is under way to a client. -/

def WriteLoop.left (s : WriteLoop) : Nat :=
  (s.outRx.queue.map fun bytes => 6 * bytes.length + 4).sum + 6 * s.bufWriter.buffered.length +
    match s.pc with
    | .select => if s.bufWriter.buffered = [] then 0 else 2
    | .written => 3
    | .flushing => 1
    | .ended _ => 0

def Session.outbound (k : Session V) : Nat :=
  k.writeLoop.left + 5 * (k.bufWriter.socket.length - k.atClient.length) + k.client.inbox.left

theorem loopStep_left {config : BufferConfig} {s s' : WriteLoop} {e : LoopEvent}
    (running : e ≠ .leave) (due : e = .tick → s.bufWriter.buffered ≠ [])
    (step : LoopStep config s e s') :
    s'.left + 5 * s'.bufWriter.socket.length + 1 ≤ s.left + 5 * s.bufWriter.socket.length := by
  cases step with
  | receive at_ queue written =>
    obtain ⟨handed, kept, split, rfl⟩ := written
    have bytes_kept := congrArg List.length split
    simp only [List.length_append] at bytes_kept
    simp only [WriteLoop.left, queue, at_, List.map_cons, List.sum_cons, List.length_append]
    omega
  | strategy at_ =>
    have next : s.afterWrite config = .select ∨ s.afterWrite config = .flushing := by
      unfold WriteLoop.afterWrite
      split
      · exact Or.inr rfl
      · split_ifs
        · exact Or.inr rfl
        · exact Or.inl rfl
      · exact Or.inl rfl
    rcases next with next | next
    · simp only [WriteLoop.left, WriteLoop.goto, at_, next]
      split_ifs <;> omega
    · simp only [WriteLoop.left, WriteLoop.goto, at_, next]
      omega
  | flush at_ =>
    simp only [WriteLoop.left, WriteLoop.goto, BufWriter.flush, at_, List.length_append,
      List.length_nil, ↓reduceIte]
    omega
  | tick at_ timer =>
    simp only [WriteLoop.left, WriteLoop.goto, at_, if_neg (due rfl)]
    omega
  | leave => exact absurd rfl running

/-! What a handler has before it. -/

def HandlerPc.commandLeft (pc : HandlerPc V Bytes) : Nat :=
  match pc with
  | .handle _ | .listing _ | .publishing _ _ _ => pc.left
  | _ => 0

noncomputable def Bus.names (bus : Bus ring Bytes) : Finset Str :=
  Classical.epsilon fun names => ∀ name, name ∈ names ↔ bus.containsKey name = true

theorem mem_names {bus : Bus ring Bytes} (named : bus.Named) (name : Str) :
    name ∈ bus.names ↔ bus.containsKey name = true := by
  obtain ⟨names, once, keys⟩ := named
  have some_names : ∃ names : Finset Str, ∀ name, name ∈ names ↔ bus.containsKey name = true :=
    ⟨names.toFinset, fun name => by rw [List.mem_toFinset, keys name]⟩
  exact Classical.epsilon_spec some_names name

def Bus.unread (bus : Bus ring Bytes) (topic : Str) (receiver : Option Cursor) : Nat :=
  receiver.elim 0 fun cursor => (bus.sent topic).length - cursor

noncomputable def ConnectionHandler.unread (bus : Bus ring Bytes) (h : ConnectionHandler V Bytes) :
    Nat :=
  bus.events.length - h.topicEvents + ∑ topic ∈ bus.names, bus.unread topic (h.receiver topic)

noncomputable def ConnectionHandler.left (bus : Bus ring Bytes) (h : ConnectionHandler V Bytes) :
    Nat :=
  4 * h.unread bus + h.pc.left +
    match h.pc with
    | .stopped => 0
    | _ => 1

theorem logStep_forward {A : Type} {capacity : Nat} {s t : Shared capacity A} {op : ChannelOp A}
    (step : Shared.LogStep s op t) (silent : t.channel = s.channel) (d : Nat) :
    t.receivers d = s.receivers d ∨ t.receivers d = none ∨ ∃ next, t.receivers d = some next ∧
      (next = s.channel.sent.length ∨ ∃ cursor, s.receivers d = some cursor ∧ cursor ≤ next) := by
  have place : ∀ i o, Function.update s.receivers i o d = s.receivers d ∨
      d = i ∧ Function.update s.receivers i o d = o := by
    intro i o
    by_cases own : d = i
    · subst own
      exact Or.inr ⟨rfl, Function.update_self _ _ _⟩
    · exact Or.inl (Function.update_of_ne own _ _)
  cases step with
  | send kept =>
    have longer := congrArg (fun channel => channel.sent.length) silent
    simp [Broadcast.send] at longer
  | refuse refused => exact absurd trivial refused
  | @subscribe i free =>
    rcases place i (some s.channel.subscribe) with same | ⟨rfl, here⟩
    · exact Or.inl same
    · exact Or.inr (Or.inr ⟨_, here, Or.inl rfl⟩)
  | @receive i cursor next value open_ received =>
    rcases place i (some next) with same | ⟨rfl, here⟩
    · exact Or.inl same
    · refine Or.inr (Or.inr ⟨_, here, Or.inr ⟨cursor, open_, ?_⟩⟩)
      rw [(Broadcast.recv_item received).2]
      exact Nat.le_succ cursor
  | @lag i cursor next open_ received =>
    rcases place i (some next) with same | ⟨rfl, here⟩
    · exact Or.inl same
    · refine Or.inr (Or.inr ⟨_, here, Or.inr ⟨cursor, open_, ?_⟩⟩)
      obtain ⟨overtaken, rfl⟩ := Broadcast.recv_lagged received
      exact Nat.le_sub_of_add_le (Nat.le_of_lt overtaken)
  | @close i =>
    rcases place i none with same | ⟨rfl, here⟩
    · exact Or.inl same
    · exact Or.inr (Or.inl here)

theorem effect_unread {bus : Bus ring Bytes} {topic : Str} {r r' : Option Cursor}
    (effect : ReceiverEffect bus topic r bus r') : bus.unread topic r' ≤ bus.unread topic r := by
  cases effect with
  | same kept => exact Nat.le_refl _
  | create absent created => exact Nat.le_refl _
  | drop => exact Nat.zero_le _
  | step op found found' stepped =>
    obtain rfl := Option.some.inj (found.symm.trans found')
    have log := sent_of_topic found
    have forward := logStep_forward (stepped (fun _ => r) 0 rfl) rfl 0
    simp only [Function.update_self] at forward
    rcases forward with rfl | rfl | ⟨next, rfl, rfl | ⟨cursor, rfl, forward⟩⟩
    · exact Nat.le_refl _
    · exact Nat.zero_le _
    · simp [Bus.unread, log]
    · exact Nat.sub_le_sub_left forward _

theorem received_forward {A : Type} {capacity : Nat} {channel : Broadcast capacity A}
    {cursor next : Cursor} (received : (∃ value, channel.recv cursor = .item value next) ∨
      channel.recv cursor = .lagged next) : cursor < next ∧ cursor < channel.sent.length := by
  rcases received with ⟨value, item⟩ | lagged
  · rw [(Broadcast.recv_item item).2]
    exact ⟨Nat.lt_succ_self cursor, item_unread item⟩
  · obtain ⟨overtaken, rfl⟩ := Broadcast.recv_lagged lagged
    exact ⟨Nat.lt_sub_of_add_lt overtaken, lagged_unread lagged⟩

section Handler
variable {encode : Message V → Option Bytes} {bus after : Bus ring Bytes}
  {h h' : ConnectionHandler V Bytes} {a : Act V Bytes}

theorem handlerStep_topicEvents (step : HandlerStep encode bus h a after h') :
    h.topicEvents ≤ h'.topicEvents := by
  cases step with
  | readEvent at_ received => exact Nat.le_of_lt (received_forward (Or.inl ⟨_, received⟩)).1
  | eventsLagged at_ received => exact Nat.le_of_lt (received_forward (Or.inr received)).1
  | _ => exact Nat.le_refl _

theorem handlerStep_unread (step : HandlerStep encode bus h a bus h') :
    h'.unread bus ≤ h.unread bus := by
  refine Nat.add_le_add ?_ ?_
  · exact Nat.sub_le_sub_left (handlerStep_topicEvents step) _
  · exact Finset.sum_le_sum fun topic _ => effect_unread (handlerStep_receiver step topic)

theorem event_unread (step : HandlerStep encode bus h a bus h')
    (ahead : h.topicEvents < h'.topicEvents) (unread : h.topicEvents < bus.events.length) :
    h'.unread bus < h.unread bus := by
  refine Nat.add_lt_add_of_lt_of_le ?_ ?_
  · exact Nat.sub_lt_sub_left unread ahead
  · exact Finset.sum_le_sum fun topic _ => effect_unread (handlerStep_receiver step topic)

theorem stream_unread (named : bus.Named) (step : HandlerStep encode bus h a bus h') {name : Str}
    {cursor next : Cursor} {data : TopicData ring Bytes} (before : h.pc.Loose) (loose : h'.pc.Loose)
    (stream : h.topicStreams name = some cursor) (known : bus.topics name = some data)
    (moved : h'.topicStreams name = some next)
    (forward : cursor < next ∧ cursor < data.sender.sent.length) :
    h'.unread bus < h.unread bus := by
  refine Nat.add_lt_add_of_le_of_lt ?_ ?_
  · exact Nat.sub_le_sub_left (handlerStep_topicEvents step) _
  · refine Finset.sum_lt_sum (fun topic _ => effect_unread (handlerStep_receiver step topic)) ?_
    refine ⟨name, (mem_names named name).mpr (by simp [Bus.containsKey, known]), ?_⟩
    rw [receiver_loose before, receiver_loose loose, stream, moved, Bus.unread, Bus.unread,
      sent_of_topic known]
    exact Nat.sub_lt_sub_left forward.2 forward.1

theorem commandLeft_le (pc : HandlerPc V Bytes) : pc.commandLeft ≤ pc.left := by
  cases pc <;> first | exact Nat.le_refl _ | exact Nat.zero_le _

theorem left_lowered (running : h.pc ≠ .stopped)
    (paid : 4 * h'.unread bus + h'.pc.left + 1 ≤ 4 * h.unread bus + h.pc.left) :
    h'.left bus < h.left bus := by
  have after : (match h'.pc with | .stopped => 0 | _ => 1) ≤ 1 := by
    cases h'.pc <;> first | exact Nat.le_refl _ | exact Nat.zero_le _
  have before : (match h.pc with | .stopped => 0 | _ => 1) = 1 := by
    cases at_ : h.pc <;> first | rfl | exact absurd at_ running
  unfold ConnectionHandler.left
  omega

/-- A command that is taken up leaves the queue, and any other step takes the handler further
    with the command in its hands or, at a bus that it leaves as it was, with what it reads. -/
theorem handlerStep_descends (named : bus.Named) (step : HandlerStep encode bus h a after h') :
    h'.adapterReceiver.queue.length < h.adapterReceiver.queue.length ∨
    h'.adapterReceiver.queue = h.adapterReceiver.queue ∧
      (h'.pc.commandLeft < h.pc.commandLeft ∨
        h'.pc.commandLeft = h.pc.commandLeft ∧ after = bus ∧ h'.left bus < h.left bus) := by
  have spent := (handlerStep_left step).2
  have within := commandLeft_le h'.pc
  have taken := step
  cases step with
  | takeCommand at_ queue =>
    rw [queue]
    exact Or.inl (Nat.lt_succ_self _)
  | listed at_ lists =>
    refine Or.inr ⟨rfl, Or.inl ?_⟩
    simp [HandlerPc.commandLeft, HandlerPc.left, ConnectionHandler.goto, at_]
  | disconnect at_ queue closed =>
    have less := handlerStep_unread taken
    refine Or.inr ⟨rfl, Or.inr ⟨by rw [at_]; rfl, rfl, ?_⟩⟩
    simp only [ConnectionHandler.left, ConnectionHandler.stop, at_, HandlerPc.left] at less ⊢
    omega
  | readEvent at_ received =>
    obtain ⟨ahead, unread⟩ := received_forward (Or.inl ⟨_, received⟩)
    have less := event_unread taken ahead unread
    refine Or.inr ⟨rfl, Or.inr ⟨by rw [at_]; rfl, rfl, left_lowered (by rw [at_]; simp) ?_⟩⟩
    simp only [Act.grants] at spent ⊢
    omega
  | eventsLagged at_ received =>
    obtain ⟨ahead, unread⟩ := received_forward (Or.inr received)
    have less := event_unread taken ahead unread
    refine Or.inr ⟨rfl, Or.inr ⟨by rw [at_]; rfl, rfl, left_lowered (by rw [at_]; simp) ?_⟩⟩
    simp only [Act.grants] at spent ⊢
    omega
  | readItem at_ stream topic received =>
    have less := stream_unread named taken (by rw [at_]; trivial) trivial stream topic
      (Function.update_self _ _ _) (received_forward (Or.inl ⟨_, received⟩))
    refine Or.inr ⟨rfl, Or.inr ⟨by rw [at_]; rfl, rfl, left_lowered (by rw [at_]; simp) ?_⟩⟩
    simp only [Act.grants] at spent ⊢
    omega
  | streamLagged at_ stream topic received =>
    have less := stream_unread named taken (by rw [at_]; trivial) trivial stream topic
      (Function.update_self _ _ _) (received_forward (Or.inr received))
    refine Or.inr ⟨rfl, Or.inr ⟨by rw [at_]; rfl, rfl, left_lowered (by rw [at_]; simp) ?_⟩⟩
    simp only [Act.grants] at spent ⊢
    omega
  | skip at_ | join at_ | attach at_ | retained at_ | retainedLost at_ | finish at_
  | forward at_ | forwardFailed at_ =>
    have less := handlerStep_unread taken
    refine Or.inr ⟨rfl, Or.inr ⟨by rw [at_]; rfl, rfl, left_lowered (by rw [at_]; simp) ?_⟩⟩
    simp only [Act.grants] at spent ⊢
    omega
  | _ at_ =>
    have all : h.pc.commandLeft = h.pc.left := by rw [at_]; rfl
    refine Or.inr ⟨rfl, Or.inl (Nat.lt_of_le_of_lt within ?_)⟩
    rw [all]
    exact spent

theorem handlerStep_hungUp (step : HandlerStep encode bus h a after h') :
    h'.adapterReceiver.senderDropped = h.adapterReceiver.senderDropped := by
  cases step <;> rfl

end Handler

/-! A session. -/

section Session
variable {format : Format V} {config : BufferConfig} {bus after : Bus ring Bytes}
  {k k' : Session V}

/-- The steps of a session by the stages of its work: to the handler, on a command, on what the
    handler reads, and to the client. -/
noncomputable def Session.stages (format : Format V) (bus : Bus ring Bytes) :
    List (Session V → Nat) :=
  [Session.inbound format, fun k => k.handler.pc.commandLeft, fun k => k.handler.left bus,
    Session.outbound]

theorem inboxStep_left {fromRead : Parser UInt8 DecodeError T} {s s' : Inbox T}
    {handed arrived : Bytes} {shut : Prop} {i : InboxEvent T}
    (own : (∀ e, i = .task e → e.Own) ∧ i ≠ .closed) (consumes : s.task.framed.Consumes fromRead)
    (possible : ∀ f ∈ i.framing, f.Possible handed arrived shut) (step : InboxStep fromRead s i s') :
    s'.left + 1 ≤ s.left + 5 * (arrivedIn i.framing.toList).length := by
  cases step with
  | task step => exact readTaskStep_left (own.1 _ rfl) consumes possible step
  | taken queue =>
    simp only [Inbox.left, queue, List.length_cons]
    omega
  | closed => exact absurd rfl own.2

theorem arrived_fewer {handed arrived more : Bytes} (within : arrived ++ more <+: handed) :
    (handed.length - (arrived ++ more).length) + more.length = handed.length - arrived.length := by
  have bound := within.length_le
  rw [List.length_append] at bound ⊢
  omega

theorem sessionStep_descends {es : List (SessionEvent V)} {e : SessionEvent V}
    (kept : k.Kept format config es) (commands : k.readTask.framed.Consumes format.readCommand)
    (messages : k.client.inbox.task.framed.Consumes format.readMessage) (named : bus.Named)
    (own : e.Own k) (step : SessionStep format config bus k e after k') :
    Descends ((Session.stages format bus).take 2) k k' ∨
      after = bus ∧ Descends (Session.stages format bus) k k' := by
  have later := sessionStep_kept kept step
  cases step with
  | client step possible =>
    have arrived := arrived_fewer later.downstream
    rcases clientStep_left own step with ⟨i, rfl⟩ | ⟨inbox, lower⟩
    · cases step with
      | @inbox _ inbox step =>
        have whole : (∀ e, i = .task e → e.Own) ∧ i ≠ .closed := by
          constructor
          · rintro e rfl
            exact own
          · rintro rfl
            exact own
        have lower : inbox.left + 1 ≤ k.client.inbox.left +
            5 * (arrivedIn (ClientEvent.inbox i).framing.toList).length :=
          inboxStep_left whole messages possible step
        refine Or.inr ⟨rfl, Or.inr ⟨Nat.le_refl _, Or.inr ⟨Nat.le_refl _, Or.inr ⟨Nat.le_refl _,
          Or.inl ?_⟩⟩⟩⟩
        simp only [Session.outbound] at arrived ⊢
        show k.writeLoop.left + _ + _ < k.writeLoop.left + _ + _
        omega
    · have upstream := later.upstream.length_le
      refine Or.inl (Or.inl ?_)
      have before := kept.upstream.length_le
      simp only [Session.inbound] at upstream ⊢
      show _ + _ + k.serverInbox.left < _ + _ + k.serverInbox.left
      omega
  | readTask step possible =>
    have arrived := arrived_fewer later.upstream
    have lower := readTaskStep_left own commands possible step
    refine Or.inl (Or.inl ?_)
    simp only [Session.inbound, Session.serverInbox] at arrived ⊢
    omega
  | @writeLoop e s step only =>
    have downstream : k.atClient.length ≤ s.bufWriter.socket.length := later.downstream.length_le
    have before := kept.downstream.length_le
    cases step with
    | loop step =>
      have lower : s.left + 5 * s.bufWriter.socket.length + 1 ≤
          k.writeLoop.left + 5 * k.bufWriter.socket.length :=
        loopStep_left (fun same => by subst same; exact own) (fun same => by subst same; exact own)
          step
      refine Or.inr ⟨rfl, Or.inr ⟨Nat.le_refl _, Or.inr ⟨Nat.le_refl _, Or.inr ⟨Nat.le_refl _,
        Or.inl ?_⟩⟩⟩⟩
      show s.left + 5 * (s.bufWriter.socket.length - k.atClient.length) + k.client.inbox.left <
        k.writeLoop.left + 5 * (k.bufWriter.socket.length - k.atClient.length) + k.client.inbox.left
      omega
    | _ => exact own.elim
  | handler step =>
    have hungUp := handlerStep_hungUp step
    rcases handlerStep_descends named step with taken | ⟨queue, command | ⟨same, silent, read⟩⟩
    · refine Or.inl (Or.inl ?_)
      simp only [Session.inbound, Session.serverInbox, Inbox.left, hungUp]
      omega
    · refine Or.inl (Or.inr ⟨?_, Or.inl command⟩)
      simp only [Session.inbound, Session.serverInbox, Inbox.left, hungUp, queue]
      omega
    · refine Or.inr ⟨silent, Or.inr ⟨?_, Or.inr ⟨Nat.le_of_eq same, Or.inl read⟩⟩⟩
      simp only [Session.inbound, Session.serverInbox, Inbox.left, hungUp, queue]
      omega

end Session

/-! The system. -/

/-- What happens in the sessions of itself, but for what is held up: a client that does not call
    `recv`, bytes that stay on their way, a task that is never run. -/
inductive SystemMove (format : Format V) (config : BufferConfig)
    (held : Nat → SessionEvent V → Prop) (s : System ring V) :
    SystemLabel V → System ring V → Prop where
  | session {c : Nat} {k k' : Session V} {e : SessionEvent V} {bus : Bus ring Bytes}
      (found : s.sessions c = some k) (own : e.Own k) (free : ¬ held c e)
      (step : SessionStep format config s.bus k e bus k') :
      SystemMove format config held s (c, .session e) (s.put bus c k')

/-- Nothing moves by itself that is not held up. -/
def System.Rests (format : Format V) (config : BufferConfig) (held : Nat → SessionEvent V → Prop)
    (s : System ring V) : Prop :=
  ∀ l t, ¬ SystemMove format config held s l t

section System
variable {format : Format V} {config : BufferConfig} {held : Nat → SessionEvent V → Prop}
  {s t : System ring V} {l : SystemLabel V} {ls : List (SystemLabel V)}

theorem move_step (move : SystemMove format config held s l t) : SystemStep format config s l t := by
  cases move with
  | session found own free step => exact .session found step

theorem rests_or_moves (s : System ring V) :
    s.Rests format config held ∨ ∃ l t, SystemMove format config held s l t := by
  by_cases moves : ∃ l t, SystemMove format config held s l t
  · exact Or.inr moves
  · exact Or.inl fun l t move => moves ⟨l, t, move⟩

theorem run_counted (run : SystemRun format config ls s) : ∃ n, ∀ c, s.sessions c ≠ none → c < n := by
  refine run_invariant (fun s => ∃ n, ∀ c, s.sessions c ≠ none → c < n)
    ⟨0, fun c here => absurd rfl here⟩ ?_ run
  rintro s ⟨c, e⟩ t ⟨n, counted⟩ step
  refine ⟨max n (c + 1), fun d here => ?_⟩
  by_cases own : d = c
  · omega
  · have still : t.sessions d = s.sessions d := by
      cases step <;> exact Function.update_of_ne own _ _
    rw [still] at here
    have before := counted d here
    omega

noncomputable def System.stages (format : Format V) (n : Nat) : List (System ring V → Nat) :=
  [fun s => whole n (Session.inbound format) s.sessions,
    fun s => whole n (fun k => k.handler.pc.commandLeft) s.sessions,
    fun s => whole n (fun k => k.handler.left s.bus) s.sessions,
    fun s => whole n Session.outbound s.sessions]

theorem run_consumes (run : SystemRun format config ls s) {c : Nat} {k : Session V}
    (found : s.sessions c = some k) : k.readTask.framed.Consumes format.readCommand ∧
      k.client.inbox.task.framed.Consumes format.readMessage := by
  have kept := system_kept run found
  obtain ⟨stream, commands, within⟩ := commands_arrive kept
  have messages := messagesTo_stream run c
  exact ⟨inbox_consumes format.commands commands kept.server within,
    inbox_consumes format.messages messages (client_kept kept.client).inbox (messages_arrive kept)⟩

theorem move_descends {n : Nat} (run : SystemRun format config ls s)
    (counted : ∀ c, s.sessions c ≠ none → c < n) (move : SystemMove format config held s l t) :
    Descends (System.stages format n) s t := by
  have named := run_named (system_refines_from (Run.nil _) run)
  cases move with
  | @session c k k' e bus found own free step =>
    obtain ⟨commands, messages⟩ := run_consumes run found
    have here := counted c (by rw [found]; simp)
    rcases sessionStep_descends (system_kept run found) commands messages named own step with
      early | ⟨rfl, late⟩
    · rcases whole_descends here found early with lower | ⟨within, lower | ⟨-, nothing⟩⟩
      · exact Or.inl lower
      · exact Or.inr ⟨within, Or.inl lower⟩
      · exact nothing.elim
    · exact whole_descends here found late

/-- Whatever the order in which the tasks are run, they come to rest. -/
theorem system_settles (held : Nat → SessionEvent V → Prop) (run : SystemRun format config ls s) :
    EndsWithin (SystemMove format config held) (fun _ => 0) (System.Rests format config held) 0
      s := by
  obtain ⟨n, counted⟩ := run_counted run
  refine endsWithin_of_descent (System.stages format n) (fun s =>
    (∃ ls, SystemRun format config ls s) ∧ ∀ c, s.sessions c ≠ none → c < n) rests_or_moves ?_ ?_
    ⟨⟨ls, run⟩, counted⟩
  · rintro s l t ⟨⟨ls, run⟩, counted⟩ move
    refine ⟨⟨_, Run.snoc run (move_step move)⟩, fun d here => ?_⟩
    cases move with
    | @session c k k' e bus found own free step =>
      by_cases same : d = c
      · subst same
        exact counted d (by rw [found]; simp)
      · have still : (s.put bus c k').sessions d = s.sessions d := Function.update_of_ne same _ _
        exact counted d (by rwa [still] at here)
  · rintro s l t ⟨⟨ls, run⟩, counted⟩ move
    exact move_descends run counted move

end System
end PubSub
