import PubSub.EndToEnd
import PubSub.HandlerProgress

/- When a session comes to rest. Its tasks wait for one another at five queues and two
   sockets; if nothing has broken, and none of them can go on, then nothing is under way:
   what the client called for has been handled, and it has received what was enqueued. -/
namespace PubSub
open Channels LabelledRun Interleaving StreamParsing MsgPackCodec
variable {ring : Ring} {V : Type}

/-! What moves by itself. -/

def ReadTaskEvent.Own {T : Type} : ReadTaskEvent T → Prop
  | .framed .endOfFile | .framed (.failed .socket) => False
  | _ => True

def ClientEvent.Own : ClientEvent V → Prop
  | .write _ | .unencodable _ | .flushed => True
  | .hand bytes => bytes ≠ []
  | .inbox (.task e) => e.Own
  | .inbox (.taken _) => True
  | _ => False

/-- What happens in a session of itself: not the calls of the client, nor what breaks or ends
    it, nor the ticks of a timer that has nothing to flush, of which there is no end. -/
def SessionEvent.Own (k : Session V) : SessionEvent V → Prop
  | .client e => e.Own
  | .readTask e => e.Own
  | .writeLoop (.receive _) | .writeLoop .strategy | .writeLoop .flush => True
  | .writeLoop .tick => k.bufWriter.buffered ≠ []
  | .handler _ => True
  | _ => False

structure Session.Live (k : Session V) : Prop where
  writer : k.client.writer ≠ .ended
  readTask : k.readTask.framed ≠ .ended
  handler : k.handler.pc ≠ .stopped
  writeLoop : ∀ how, k.loopPc ≠ .ended how
  reader : k.client.inbox.task.framed ≠ .ended
  receiver : k.client.inbox.channel.receiverDropped = false

/-- Nothing in the session moves by itself. No step waits for a metric here. -/
def Session.Quiet (format : Format V) (config : BufferConfig) (bus : Bus ring Bytes)
    (k : Session V) : Prop :=
  ∀ e after k', e.Own k → ¬ SessionStep format config bus k e after k'

/-! Where the tasks of a quiet session are. -/

def ReadTask.Waits {T : Type} (r : ReadTask T) : Prop :=
  ∃ src, r = ⟨.streaming ⟨src, .waiting⟩, none⟩

theorem readTask_waits {T : Type} {fromRead : Parser UInt8 DecodeError T} {r : ReadTask T}
    {channel : Mpsc channelBufferSize T} (running : r.framed ≠ .ended)
    (open_ : channel.senderDropped = false) (room : channel.HasRoom)
    (stuck : ∀ e r' channel', e.Own → (∀ bytes, e ≠ .framed (.read (.chunk bytes))) →
      ¬ ReadTaskStep fromRead r channel e r' channel') : r.Waits := by
  obtain ⟨framed, holding⟩ := r
  cases holding with
  | some x => exact absurd (.sent rfl open_ room) (stuck (.sent x) _ _ trivial (by simp))
  | none =>
    cases framed with
    | ended => exact absurd rfl running
    | finishing src =>
      rcases decode_cases fromRead src with ⟨x, rest, left, -, read⟩ | ⟨-, read⟩ | ⟨text, rest, -, read⟩
      · exact absurd (.framed rfl (.last read)) (stuck (.framed (.last x)) _ _ trivial (by simp))
      · by_cases empty : src = []
        · subst empty
          exact absurd (.framed rfl (.finished read)) (stuck (.framed .finished) _ _ trivial (by simp))
        · exact absurd (.framed rfl (.leftover read empty))
            (stuck (.framed (.failed .bytesRemaining)) _ _ trivial (by simp))
      · exact absurd (.framed rfl (.undecodable read))
          (stuck (.framed (.failed (.decoder _))) _ _ trivial (by simp))
    | streaming loop =>
      obtain ⟨src, phase⟩ := loop
      cases phase with
      | waiting => exact ⟨src, rfl⟩
      | closed =>
        exact absurd (.framed rfl .closed) (stuck (.framed .finished) _ _ trivial (by simp))
      | reading =>
        obtain ⟨l, d, step, quiet⟩ := reading_goes_on fromRead src
        refine absurd (.framed rfl (.read step)) (stuck (.framed (.read l)) _ _ trivial ?_)
        rintro bytes same
        obtain rfl : l = .chunk bytes := by simpa using same
        cases quiet

theorem run_healthy {config : BufferConfig} {es : List LoopEvent} {s : WriteLoop}
    (run : WriteRun config es s) (running : ∀ how, s.pc ≠ .ended how) :
    ∀ e ∈ es, e.fails = false := by
  refine run_history (fun es s => (∀ how, s.pc ≠ .ended how) → ∀ e ∈ es, e.fails = false) ?_ ?_ run
    running
  · exact fun _ e member => absurd member List.not_mem_nil
  · intro es s e t _ ih step running other member
    rcases List.mem_append.mp member with old | now
    · refine ih (fun how ended => ?_) other old
      cases step with
      | loop step => cases step <;> simp_all
      | enqueue => exact running how ended
      | dropSenders => exact running how ended
      | writeFailed => exact running _ rfl
      | flushFailed => exact running _ rfl
    · obtain rfl := List.mem_singleton.mp now
      cases step with
      | loop step => cases step <;> rfl
      | enqueue => rfl
      | dropSenders => rfl
      | writeFailed => exact absurd rfl (running .failed)
      | flushFailed => exact absurd rfl (running .failed)

theorem run_receiving {B : Type} {encode : Message V → Option B} {ls : List (Label V B)}
    {s : Broker ring V B} (run : BrokerRun encode ls s) {c : Nat} {h : ConnectionHandler V B}
    (found : s.connections c = some h) :
    h.adapterReceiver.receiverDropped = true → h.pc = .stopped := by
  apply run_connection (fun _ _ h => h.adapterReceiver.receiverDropped = true → h.pc = .stopped)
    _ _ _ _ run found
  · intro ls s before dropped
    cases dropped
  · intro ls s h a h' before here ih step dropped
    rw [(adapterStep_pc step).1]
    apply ih
    cases step <;> exact dropped
  · intro ls s h a bus h' before here ih step dropped
    cases step with
    | disconnect => rfl
    | panicked => rfl
    | forwardFailed => rfl
    | _ at_ => exact absurd ((ih dropped).symm.trans at_) (by simp)
  · intro ls s t h l before here other ih step
    exact ih

theorem possible_own {T : Type} {handed arrived : Bytes} {shut : Prop} {e : ReadTaskEvent T}
    (own : e.Own) (silent : ∀ bytes, e ≠ .framed (.read (.chunk bytes))) :
    ∀ f ∈ e.framing, f.Possible handed arrived shut := by
  rintro f here
  cases e with
  | framed e =>
    obtain rfl := Option.some.inj here
    cases e with
    | read e =>
      cases e with
      | chunk bytes => exact absurd rfl (silent bytes)
      | _ => trivial
    | endOfFile => exact own.elim
    | _ => trivial
  | _ => cases here

theorem readTask_drained {T : Type} {fromRead : Parser UInt8 DecodeError T} {r : ReadTask T}
    {channel : Mpsc channelBufferSize T} {handed arrived : Bytes} {shut : Prop}
    (running : r.framed ≠ .ended) (open_ : channel.senderDropped = false) (room : channel.HasRoom)
    (within : arrived <+: handed)
    (stuck : ∀ e r' channel', e.Own → (∀ f ∈ e.framing, f.Possible handed arrived shut) →
      ¬ ReadTaskStep fromRead r channel e r' channel') : r.Waits ∧ arrived = handed := by
  have waits : r.Waits := readTask_waits running open_ room fun e r' channel' own silent =>
    stuck e r' channel' own (possible_own own silent)
  refine ⟨waits, ?_⟩
  obtain ⟨src, rfl⟩ := waits
  obtain ⟨bytes, more⟩ := within
  by_cases empty : bytes = []
  · rw [empty, List.append_nil] at more
    exact more
  · refine absurd (.framed rfl (.read (.chunk src bytes)))
      (stuck (.framed (.read (.chunk bytes))) _ _ trivial ?_)
    intro f here
    obtain rfl := Option.some.inj here
    exact ⟨empty, more ▸ List.prefix_refl _⟩

section Quiet
variable {format : Format V} {config : BufferConfig} {bus : Bus ring Bytes} {k : Session V}

theorem quiet_writer (quiet : k.Quiet format config bus) (running : k.client.writer ≠ .ended) :
    k.client.writer = .receiving ∧ k.client.commands.queue = [] := by
  have stuck : ∀ e client, e.Own → e.framing = none → ¬ ClientStep format k.client e client := by
    intro e client own silent step
    exact quiet (.client e) bus _ own (.client step (by rw [silent]; intro f here; cases here))
  cases at_ : k.client.writer with
  | ended => exact absurd at_ running
  | sending left =>
    by_cases empty : left = []
    · rw [empty] at at_
      exact absurd (.flushed at_) (stuck .flushed _ trivial rfl)
    · rw [← List.append_nil left] at at_
      exact absurd (.hand at_) (stuck (.hand left) _ empty rfl)
  | receiving =>
    cases queue : k.client.commands.queue with
    | nil => exact ⟨rfl, rfl⟩
    | cons command rest =>
      cases packed : format.packCommand command with
      | ok frame => exact absurd (.write at_ queue packed) (stuck (.write command) _ trivial rfl)
      | error e =>
        exact absurd (.unencodable at_ queue packed) (stuck (.unencodable command) _ trivial rfl)

theorem quiet_writeLoop (quiet : k.Quiet format config bus)
    (running : ∀ how, k.loopPc ≠ .ended how) :
    k.loopPc = .select ∧ k.handler.adapterSender.queue = [] := by
  have stuck : ∀ e s, SessionEvent.Own k (.writeLoop e) →
      ¬ LoopStep config k.writeLoop e s := by
    intro e s own step
    refine quiet (.writeLoop e) bus _ own (.writeLoop (.loop step) ?_)
    cases e <;> simp [LoopEvent.enqueued] at own ⊢ <;> exact own
  cases at_ : k.loopPc with
  | ended how => exact absurd at_ (running how)
  | written => exact absurd (.strategy at_) (stuck .strategy _ trivial)
  | flushing => exact absurd (.flush at_) (stuck .flush _ trivial)
  | select =>
    cases queue : k.handler.adapterSender.queue with
    | nil => exact ⟨rfl, rfl⟩
    | cons bytes rest =>
      exact absurd (.receive at_ queue ⟨[], _, rfl, rfl⟩) (stuck (.receive bytes) _ trivial)

theorem quiet_readTask (quiet : k.Quiet format config bus) (running : k.readTask.framed ≠ .ended)
    (open_ : k.handler.adapterReceiver.senderDropped = false)
    (room : k.handler.adapterReceiver.HasRoom) (upstream : k.atServer <+: k.client.handed) :
    k.readTask.Waits ∧ k.atServer = k.client.handed := by
  apply readTask_drained running open_ room upstream
  intro e r channel own possible step
  exact quiet (.readTask e) bus _ own (.readTask step possible)

theorem quiet_reader (quiet : k.Quiet format config bus)
    (running : k.client.inbox.task.framed ≠ .ended)
    (open_ : k.client.inbox.channel.senderDropped = false)
    (held : k.client.inbox.channel.receiverDropped = false)
    (downstream : k.atClient <+: k.bufWriter.socket) :
    k.client.inbox.channel.queue = [] ∧ k.client.inbox.task.Waits ∧
      k.atClient = k.bufWriter.socket := by
  have stuck : ∀ e inbox, (ClientEvent.inbox e : ClientEvent V).Own →
      (∀ f ∈ e.framing, f.Possible k.bufWriter.socket k.atClient (∃ how, k.loopPc = .ended how)) →
      ¬ InboxStep format.readMessage k.client.inbox e inbox := by
    intro e inbox own possible step
    exact quiet (.client (.inbox e)) bus _ own (.client (.inbox step) possible)
  have taken : k.client.inbox.channel.queue = [] := by
    cases queue : k.client.inbox.channel.queue with
    | nil => rfl
    | cons message rest =>
      exact absurd (.taken queue) (stuck (.taken message) _ trivial (by intro f here; cases here))
  have room : k.client.inbox.channel.HasRoom := ⟨held, by rw [taken]; exact Nat.zero_lt_succ _⟩
  refine ⟨taken, ?_⟩
  apply readTask_drained running open_ room downstream
  intro e r channel own possible step
  exact stuck (.task e) ⟨r, channel⟩ own possible (.task step)

end Quiet

/-! What has happened in a quiet session. -/

section Runs
variable {format : Format V} {config : BufferConfig}

theorem quiet_selecting {ls : List (SystemLabel V)} {s : System ring V}
    (run : SystemRun format config ls s) {c : Nat} {k : Session V}
    (found : s.sessions c = some k) (live : k.Live) (quiet : k.Quiet format config s.bus) :
    (∃ enabled, k.handler.pc = .select enabled) ∧ k.handler.adapterReceiver.queue = [] ∧
      k.handler.Waits s.bus := by
  have here := System.broker_found found
  have waits : k.handler.Waits s.bus := by
    have whole : BrokerRun format.encode _ s.broker := system_refines_from (Run.nil _) run
    by_contra busy
    obtain ⟨a, after, h, step⟩ :=
      busy_able format.encode (run_named whole) (run_begun whole here) busy
    exact quiet (.handler a) after _ trivial (.handler step)
  have said := waits
  unfold ConnectionHandler.Waits at said
  cases at_ : k.handler.pc with
  | stopped => exact absurd at_ live.handler
  | select enabled =>
    rw [at_] at said
    exact ⟨⟨enabled, rfl⟩, said.1, waits⟩
  | forward name number bytes =>
    -- the loop would have taken a message out of a full queue
    rw [at_] at said
    refine absurd ⟨said.2, ?_⟩ said.1
    rw [(quiet_writeLoop quiet live.writeLoop).2]
    exact Nat.zero_lt_succ _
  | _ => simp [at_] at said

theorem quiet_flushed {es : List (SessionEvent V)} {k : Session V} {bus : Bus ring Bytes}
    (kept : k.Kept format config es) (running : ∀ how, k.loopPc ≠ .ended how)
    (quiet : k.Quiet format config bus) : k.bufWriter.buffered = [] := by
  by_cases timer : k.flushInterval = none
  · obtain ⟨at_, queue⟩ := quiet_writeLoop quiet running
    exact (run_intact kept.loop (run_healthy kept.loop running)).unstranded timer at_ queue
  · by_contra some_left
    obtain ⟨period, due⟩ := Option.ne_none_iff_exists'.mp timer
    refine quiet (.writeLoop .tick) bus _ some_left (.writeLoop (.loop (.tick ?_ due)) (by simp [LoopEvent.enqueued]))
    exact (quiet_writeLoop quiet running).1

theorem quiet_handled {ls : List (SystemLabel V)} {s : System ring V}
    (run : SystemRun format config ls s) {c : Nat} {k : Session V}
    (found : s.sessions c = some k) (live : k.Live) (quiet : k.Quiet format config s.bus) :
    handledFrom c ls = calledBy c ls := by
  have kept := system_kept run found
  have here := System.broker_found found
  have client := client_kept kept.client
  obtain ⟨writing, called⟩ := quiet_writer quiet live.writer
  have commands := (quiet_selecting run found live quiet).2.1
  have held : k.handler.adapterReceiver.receiverDropped = false := by
    rw [← Bool.not_eq_true]
    exact fun dropped =>
      live.handler (run_receiving (system_refines_from (Run.nil _) run) here dropped)
  have open_ : k.handler.adapterReceiver.senderDropped = false := by
    rw [← Bool.not_eq_true]
    exact fun dropped => live.readTask ((run_kept kept.server).ended dropped).1
  have room : k.handler.adapterReceiver.HasRoom :=
    ⟨held, by rw [commands]; exact Nat.zero_lt_succ _⟩
  obtain ⟨⟨src, waiting⟩, arrived⟩ := quiet_readTask quiet live.readTask open_ room kept.upstream
  obtain ⟨frames, sent, -, exact_⟩ := client.stream
  have handed : k.client.handed = frames.flatten := by
    have all := exact_ live.writer
    rwa [writing, ClientWriter.left, List.append_nil] at all
  have written : ((sessionEvents c ls).filterMap SessionEvent.ofClient).filterMap
      ClientEvent.written = calledBy c ls := by
    rw [client.running live.writer, calledBy, client.order, called, List.append_nil]
  rw [written] at sent
  refine inbox_settled format.commands ((encodeAll_iff _ _ _ _).mpr ⟨frames, sent, rfl⟩)
    kept.server ?_ waiting held commands
  rw [← kept.commands, arrived, handed]
  rfl

theorem quiet_received {ls : List (SystemLabel V)} {s : System ring V}
    (run : SystemRun format config ls s) {c : Nat} {k : Session V}
    (found : s.sessions c = some k) (live : k.Live) (quiet : k.Quiet format config s.bus) :
    receivedBy c ls = messagesTo format c ls := by
  have kept := system_kept run found
  have client := client_kept kept.client
  have open_ : k.client.inbox.channel.senderDropped = false := by
    rw [← Bool.not_eq_true]
    exact fun dropped => live.reader ((run_kept client.inbox).ended dropped).1
  obtain ⟨taken, ⟨src, waiting⟩, arrived⟩ :=
    quiet_reader quiet live.reader open_ live.receiver kept.downstream
  have handed : k.bufWriter.socket = (outgoingTo c ls).flatten := by
    obtain ⟨content, order⟩ := run_written kept.loop
    have empty : k.writeLoop.outRx.queue = [] := (quiet_writeLoop quiet live.writeLoop).2
    rw [empty, List.append_nil] at order
    rw [outgoingTo, ← kept.outgoing, order, ← content]
    show _ = k.bufWriter.socket ++ k.bufWriter.buffered
    rw [quiet_flushed kept live.writeLoop quiet, List.append_nil]
  refine inbox_settled format.messages (messagesTo_stream run c) client.inbox ?_ waiting
    live.receiver taken
  have all : framings (((sessionEvents c ls).filterMap SessionEvent.ofClient).filterMap
      ClientEvent.inboxed) =
      ((sessionEvents c ls).filterMap SessionEvent.ofClient).filterMap ClientEvent.framing :=
    List.filterMap_filterMap
  rw [all, ← kept.messages, arrived, handed]

/-- When a session that is whole has nothing left to do, every command that the client called
    for has been handled, every message enqueued for it received, and the handler waits. -/
theorem quiet_session_delivered {ls : List (SystemLabel V)} {s : System ring V}
    (run : SystemRun format config ls s) {c : Nat} {k : Session V}
    (found : s.sessions c = some k) (live : k.Live) (quiet : k.Quiet format config s.bus) :
    handledFrom c ls = calledBy c ls ∧ receivedBy c ls = messagesTo format c ls ∧
      (∃ enabled, k.handler.pc = .select enabled) ∧ k.handler.Waits s.bus := by
  obtain ⟨selecting, -, waits⟩ := quiet_selecting run found live quiet
  exact ⟨quiet_handled run found live quiet, quiet_received run found live quiet, selecting, waits⟩

theorem quiet_unsent {ls : List (SystemLabel V)} {s : System ring V}
    (run : SystemRun format config ls s) {c : Nat} {k : Session V}
    (found : s.sessions c = some k) (live : k.Live) (quiet : k.Quiet format config s.bus)
    (topic : Str) : s.broker.unsent format.encode topic c = [] := by
  obtain ⟨⟨enabled, at_⟩, commands, -⟩ := quiet_selecting run found live quiet
  have here := System.broker_found found
  unfold Broker.unsent
  rw [here]
  show k.handler.pc.unsent format.encode topic ++ _ = []
  rw [at_, commands]
  rfl

/-- The log of a topic interleaves what the clients published on it, each in its own order, and
    of a client whose session has come to rest it holds every message, once. -/
theorem quiet_log_complete {ls : List (SystemLabel V)} {s : System ring V}
    (run : SystemRun format config ls s) (topic : Str) :
    ∃ streams : Nat → List (Message V), Interleaves streams (s.log format topic) ∧ ∀ d,
      streams d <+: (calledBy d ls).filterMap (Command.publishedMessage format topic) ∧
      ∀ k, s.sessions d = some k → k.Live → k.Quiet format config s.bus →
        streams d = (calledBy d ls).filterMap (Command.publishedMessage format topic) := by
  obtain ⟨streams, interleaves, balance⟩ := log_interleaves run topic
  refine ⟨streams, interleaves, fun d => ⟨(balance d).1, fun k found live quiet => ?_⟩⟩
  have decoded : decodedFrom d ls = calledBy d ls := by
    apply (decoded_called run d).eq_of_length_le
    rw [← quiet_handled run found live quiet]
    unfold decodedFrom
    rw [(run_kept (system_kept run found).server).order, List.length_append]
    exact Nat.le_add_right _ _
  have all := (balance d).2
  rw [quiet_unsent run found live quiet, List.filterMap_nil, List.append_nil, decoded] at all
  exact all.symm

/-! A session at rest. -/

theorem waiting_stuck {T : Type} {fromRead : Parser UInt8 DecodeError T} {r r' : ReadTask T}
    {channel after : Mpsc channelBufferSize T} {handed : Bytes} {shut : Prop} {e : ReadTaskEvent T}
    (waits : r.Waits) (own : e.Own) (possible : ∀ f ∈ e.framing, f.Possible handed handed shut) :
    ¬ ReadTaskStep fromRead r channel e r' after := by
  obtain ⟨src, rfl⟩ := waits
  intro step
  cases step with
  | framed idle step =>
    cases step with
    | read step =>
      cases step with
      | chunk src bytes =>
        obtain ⟨some_more, more⟩ : bytes ≠ [] ∧ handed ++ bytes <+: handed := possible _ rfl
        have short := more.length_le
        rw [List.length_append] at short
        exact some_more (List.length_eq_zero_iff.mp (by omega))
    | socket => exact own
    | endOfFile => exact own
  | sent held => cases held
  | dropped held => cases held
  | ended done => cases done

theorem rest_quiet {bus : Bus ring Bytes} {k : Session V}
    (writer : k.client.writer = .receiving) (commands : k.client.commands.queue = [])
    (upstream : k.atServer = k.client.handed)
    (readTask : k.readTask.Waits) (handler : k.handler.Waits bus) (writeLoop : k.loopPc = .select)
    (outgoing : k.handler.adapterSender.queue = []) (buffered : k.bufWriter.buffered = [])
    (downstream : k.atClient = k.bufWriter.socket) (reader : k.client.inbox.task.Waits)
    (received : k.client.inbox.channel.queue = []) : k.Quiet format config bus := by
  intro e after k' own step
  cases step with
  | client step possible =>
    cases step with
    | write at_ queue => exact absurd (commands.symm.trans queue) (by simp)
    | unencodable at_ queue => exact absurd (commands.symm.trans queue) (by simp)
    | hand at_ => exact absurd (writer.symm.trans at_) (by simp)
    | flushed at_ => exact absurd (writer.symm.trans at_) (by simp)
    | inbox step =>
      cases step with
      | task step =>
        rw [downstream] at possible
        exact waiting_stuck reader own possible step
      | taken queue => exact absurd (received.symm.trans queue) (by simp)
      | closed => exact own
    | _ => exact own
  | readTask step possible =>
    rw [upstream] at possible
    exact waiting_stuck readTask own possible step
  | writeLoop step =>
    cases step with
    | loop step =>
      cases step with
      | receive at_ queue => exact absurd (outgoing.symm.trans queue) (by simp)
      | strategy at_ => exact absurd (writeLoop.symm.trans at_) (by simp)
      | flush at_ => exact absurd (writeLoop.symm.trans at_) (by simp)
      | tick at_ => exact own buffered
      | leave at_ => exact own
    | _ => exact own
  | handler step => exact waits_stuck handler step

end Runs

theorem echo_waits (ring : Ring) :
    echoSession.handler.Waits ((Bus.new : Bus ring Bytes).withTopic ['a'] echoBytes) :=
  joined_waits (V := UInt8) ring ['a'] echoBytes ['a']

theorem echo_live : echoSession.Live :=
  ⟨by simp [echoSession, echoed, echoing, Client.resting],
    by simp [echoSession, echoed, echoing],
    by simp [echoSession, echoed, echoing, joinedHandler, resting],
    by simp [echoSession, echoed, echoing],
    by simp [echoSession, echoed, echoing, Client.resting, Inbox.start, ReadTask.start,
      FramedRead.start], rfl⟩

theorem echo_quiet (ring : Ring) :
    echoSession.Quiet Wire.format lowLatency ((Bus.new : Bus ring Bytes).withTopic ['a'] echoBytes) :=
  rest_quiet rfl rfl rfl ⟨[], rfl⟩ (echo_waits ring) rfl rfl rfl rfl ⟨[], rfl⟩ rfl

theorem echo_delivered :
    handledFrom 0 (echoSubscribing ++ echoReceiving) = calledBy 0 (echoSubscribing ++ echoReceiving) ∧
    receivedBy 0 (echoSubscribing ++ echoReceiving) =
      messagesTo Wire.format 0 (echoSubscribing ++ echoReceiving) := by
  obtain ⟨handled, received, -⟩ := quiet_session_delivered (echo_run wideRing)
    (System.put_self _ _ _ _) echo_live (echo_quiet wideRing)
  exact ⟨handled, received⟩

theorem echo_logged : ∃ (s : System wideRing UInt8) (streams : Nat → List (Message UInt8)),
    SystemRun Wire.format lowLatency (echoSubscribing ++ echoReceiving) s ∧
    Interleaves streams (s.log Wire.format ['a']) ∧ streams 0 = [echoMessage] := by
  obtain ⟨streams, interleaves, each⟩ := quiet_log_complete (echo_run wideRing) ['a']
  have all := (each 0).2 _ (System.put_self _ _ _ _) echo_live (echo_quiet wideRing)
  have published : (calledBy 0 (echoSubscribing ++ echoReceiving)).filterMap
      (Command.publishedMessage Wire.format ['a']) = [echoMessage] := by rfl
  exact ⟨_, streams, echo_run wideRing, interleaves, all.trans published⟩

end PubSub
