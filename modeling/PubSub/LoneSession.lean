import PubSub.HandlerProgress
import PubSub.Session

/- What a session does when no other interferes: a client writes its commands, they are read
   and handled at the server as fast as they come, and the answers are written and read. -/
namespace PubSub
open Channels LabelledRun StreamParsing MsgPackCodec
variable {ring : Ring} {V : Type} {format : Format V} {config : BufferConfig}

def LoneStep (format : Format V) (config : BufferConfig) (p : Bus ring Bytes × Session V)
    (e : SessionEvent V) (q : Bus ring Bytes × Session V) : Prop :=
  SessionStep format config p.1 p.2 e q.1 q.2

abbrev LoneRun (format : Format V) (config : BufferConfig) (bus : Bus ring Bytes) (k : Session V)
    (es : List (SessionEvent V)) (after : Bus ring Bytes) (k' : Session V) : Prop :=
  Run (LoneStep format config) (bus, k) es (after, k')

/-! The client writes. -/

def writingEvents : List (Command V) → List Bytes → List (SessionEvent V)
  | command :: commands, frame :: frames =>
    [.client (.call command), .client (.write command), .client (.hand frame), .client .flushed] ++
      writingEvents commands frames
  | _, _ => []

def Client.resting (handed : Bytes) (inbox : Inbox (Message V)) : Client V :=
  ⟨Mpsc.new, .receiving, handed, inbox⟩

theorem client_run (bus : Bus ring Bytes) (k : Session V) {e : ClientEvent V} {client : Client V}
    (quiet : e.framing = none) (step : ClientStep format k.client e client) :
    LoneStep format config (bus, k) (.client e) (bus, { k with client := client }) := by
  have taken : SessionStep format config bus k (.client e) bus
      { k with client := client, atClient := k.atClient ++ arrivedIn e.framing.toList } :=
    .client step (by simp [quiet])
  rw [quiet] at taken
  have still : k.atClient ++ arrivedIn ([] : List (FramedEvent (Message V))) = k.atClient :=
    List.append_nil _
  rwa [Option.toList_none, still] at taken

theorem writing_run (bus : Bus ring Bytes) (k : Session V) {commands : List (Command V)}
    {frames : List Bytes} (sent : SentAs format.packCommand commands frames) (handed : Bytes)
    (inbox : Inbox (Message V)) :
    LoneRun format config bus { k with client := .resting handed inbox }
      (writingEvents commands frames) bus
      { k with client := .resting (handed ++ frames.flatten) inbox } := by
  induction sent generalizing handed with
  | nil =>
    rw [List.flatten_nil, List.append_nil]
    exact Run.nil _
  | @cons command frame commands frames packed others ih =>
    have onward := ih (handed ++ frame)
    rw [List.append_assoc, ← List.flatten_cons] at onward
    have room : (Mpsc.new : Mpsc channelBufferSize (Command V)).HasRoom :=
      ⟨rfl, Nat.zero_lt_succ _⟩
    refine run_append ?_ onward
    apply run_cons (client_run bus { k with client := .resting handed inbox } rfl (.call rfl room))
    apply run_cons (client_run _ _ rfl (.write rfl rfl packed))
    apply run_cons (client_run _ _ rfl (.hand (by rw [List.append_nil])))
    exact run_single (client_run _ _ rfl (.flushed rfl))

/-! The server reads and handles. -/

def Session.fed (k : Session V) (h : ConnectionHandler V Bytes) (src : Bytes) : Session V :=
  { k with handler := h, readTask := ⟨.streaming ⟨src, .reading⟩, none⟩ }

def Act.feeding : Act V Bytes → List (SessionEvent V)
  | .deliver command =>
    [.readTask (.framed (.read (.item command))), .readTask (.sent command)]
  | a => [.handler a]

def Act.delivered : Act V Bytes → Option (Command V)
  | .deliver command => some command
  | _ => none

theorem readTask_run (bus : Bus ring Bytes) (k : Session V) {e : ReadTaskEvent (Command V)}
    {r : ReadTask (Command V)} {channel : Mpsc channelBufferSize (Command V)}
    (quiet : arrivedIn e.framing.toList = [])
    (possible : ∀ f ∈ e.framing, f.Possible k.client.handed k.atServer (k.client.writer = .ended))
    (step : ReadTaskStep format.readCommand k.readTask k.handler.adapterReceiver e r channel) :
    LoneStep format config (bus, k) (.readTask e)
      (bus, { k with readTask := r, handler := { k.handler with adapterReceiver := channel } }) := by
  have taken : SessionStep format config bus k (.readTask e) bus _ := .readTask step possible
  rwa [quiet, List.append_nil] at taken

theorem fed_step {bus after : Bus ring Bytes} {h h' : ConnectionHandler V Bytes} {a : Act V Bytes}
    (k : Session V) (step : ConnectionStep format.encode (bus, h) a (after, h'))
    (fed : a.handles = true ∨ ∃ command, a = .deliver command) {frames : List Bytes}
    (sent : SentAs format.packCommand a.delivered.toList frames) (more : Bytes) :
    LoneRun format config bus (k.fed h (frames.flatten ++ more)) a.feeding after (k.fed h' more) := by
  cases step with
  | adapter step =>
    cases step with
    | @deliver command open_ room =>
      rcases sent with _ | ⟨packed, others⟩
      cases others
      have yields := decode_frame (format.commands.whole _ _ packed more)
      rw [List.flatten_singleton]
      refine run_cons (readTask_run bus _ rfl ?_ (.framed rfl (.read (.item yields)))) ?_
      · intro f here
        obtain rfl := Option.some.inj here
        trivial
      · refine run_single (readTask_run bus _ rfl ?_ (.sent rfl open_ room))
        intro f here
        cases here
    | _ => simp [Act.handles] at fed
  | handler step =>
    have quiet : a.delivered = none ∧ a.feeding = [.handler a] := by
      cases step <;> exact ⟨rfl, rfl⟩
    rw [quiet.1] at sent
    cases sent
    rw [quiet.2]
    exact run_single (.handler step)

theorem fed_run {bus after : Bus ring Bytes} {h h' : ConnectionHandler V Bytes}
    {acts : List (Act V Bytes)} (k : Session V) (run : SoloRun format.encode bus h acts after h')
    (fed : ∀ a ∈ acts, a.handles = true ∨ ∃ command, a = .deliver command) {frames : List Bytes}
    (sent : SentAs format.packCommand (acts.filterMap Act.delivered) frames) (more : Bytes) :
    LoneRun format config bus (k.fed h (frames.flatten ++ more)) (acts.flatMap Act.feeding) after
      (k.fed h' more) := by
  induction acts generalizing bus h frames with
  | nil =>
    obtain ⟨rfl, rfl⟩ := Prod.mk.inj (run_none run)
    cases sent
    exact Run.nil _
  | cons a acts ih =>
    obtain ⟨⟨between, h''⟩, first, rest⟩ := run_uncons run
    have now := fed a List.mem_cons_self
    have later : ∀ b ∈ acts, b.handles = true ∨ ∃ command, b = .deliver command :=
      fun b member => fed b (List.mem_cons_of_mem _ member)
    rw [List.flatMap_cons]
    cases delivers : a.delivered with
    | none =>
      rw [List.filterMap_cons_none delivers] at sent
      have here : SentAs format.packCommand a.delivered.toList [] := by
        rw [delivers]
        exact .nil
      exact run_append (fed_step k first now here _) (ih rest later sent)
    | some command =>
      rw [List.filterMap_cons_some delivers] at sent
      cases sent with
      | @cons _ frame _ frames packed others =>
        have here : SentAs format.packCommand a.delivered.toList [frame] := by
          rw [delivers]
          exact .cons packed .nil
        have taken : LoneRun format config _ _ _ _ _ :=
          fed_step k first now here (frames.flatten ++ more)
        rw [List.flatten_singleton, ← List.append_assoc, ← List.flatten_cons] at taken
        exact run_append taken (ih rest later others)

/-! The answer is written and read. -/

theorem writeLoop_run (bus : Bus ring Bytes) (k : Session V) {s t : WriteLoop} {e : LoopEvent}
    (step : LoopStep config s e t) :
    LoneStep format config (bus, k.withWriteLoop s) (.writeLoop e) (bus, k.withWriteLoop t) := by
  refine .writeLoop (k := k.withWriteLoop s) (.loop step) ?_
  cases step <;> simp [LoopEvent.enqueued]

/-- From the queue to the socket; a strategy that waits has its timer come at once. -/
def writtenEvents (config : BufferConfig) (bytes : Bytes) : List LoopEvent :=
  match config.flushStrategy with
  | .periodic _ => [.receive bytes, .strategy, .tick, .flush]
  | _ => [.receive bytes, .strategy, .flush]

theorem written_run (bus : Bus ring Bytes) (k : Session V) (queue : Mpsc channelBufferSize Bytes)
    {bytes : Bytes} (socket : Bytes) (waiting : queue.queue = [bytes]) :
    LoneRun format config bus
      (k.withWriteLoop ⟨queue, ⟨config.size, [], socket⟩,
        WriteLoop.interval config.flushStrategy, .select⟩)
      ((writtenEvents config bytes).map .writeLoop) bus
      (k.withWriteLoop ⟨{ queue with queue := [] }, ⟨config.size, [], socket ++ bytes⟩,
        WriteLoop.interval config.flushStrategy, .select⟩) := by
  have wrote : (⟨config.size, [], socket⟩ : BufWriter).WriteAll bytes
      ⟨config.size, bytes, socket⟩ := ⟨[], bytes, rfl, by rw [List.append_nil]⟩
  let full (pc : LoopPc) : WriteLoop := ⟨{ queue with queue := [] }, ⟨config.size, bytes, socket⟩,
    WriteLoop.interval config.flushStrategy, pc⟩
  have taken : LoopStep config ⟨queue, ⟨config.size, [], socket⟩,
    WriteLoop.interval config.flushStrategy, .select⟩ (.receive bytes) (full .written) :=
      .receive rfl waiting wrote
  have first : LoneStep format config _ _ _ := writeLoop_run bus k taken
  have next : LoopStep config (full .written) .strategy
    ((full .written).goto ((full .written).afterWrite config)) := .strategy rfl
  have last : LoneStep format config (bus, k.withWriteLoop (full .flushing)) _ _ :=
    writeLoop_run bus k (.flush rfl)
  cases strategy : config.flushStrategy with
  | periodic period =>
    have onward : (full .written).afterWrite config = .select := by
      simp only [WriteLoop.afterWrite, strategy]
    have timed : (full .select).flushInterval = some period := by
      simp only [full, strategy, WriteLoop.interval]
    have events : writtenEvents config bytes = [.receive bytes, .strategy, .tick, .flush] := by
      simp only [writtenEvents, strategy]
    rw [onward] at next
    rw [← strategy, events]
    exact run_cons first (run_cons (writeLoop_run bus k next)
      (run_cons (writeLoop_run bus k (t := full .flushing) (.tick rfl timed)) (run_single last)))
  | immediate =>
    have onward : (full .written).afterWrite config = .flushing := by
      simp only [WriteLoop.afterWrite, strategy]
    have events : writtenEvents config bytes = [.receive bytes, .strategy, .flush] := by
      simp only [writtenEvents, strategy]
    rw [onward] at next
    rw [← strategy, events]
    exact run_cons first (run_cons (writeLoop_run bus k next) (run_single last))
  | auto =>
    have onward : (full .written).afterWrite config = .flushing := by
      simp only [WriteLoop.afterWrite, strategy, full, if_true]
    have events : writtenEvents config bytes = [.receive bytes, .strategy, .flush] := by
      simp only [writtenEvents, strategy]
    rw [onward] at next
    rw [← strategy, events]
    exact run_cons first (run_cons (writeLoop_run bus k next) (run_single last))

def Session.reading (k : Session V) (inbox : Inbox (Message V)) (arrived : Bytes) : Session V :=
  { k with client := { k.client with inbox := inbox }, atClient := arrived }

theorem inbox_run (bus : Bus ring Bytes) (k : Session V) {s t : Inbox (Message V)}
    {e : InboxEvent (Message V)} {arrived : Bytes} (quiet : arrivedIn e.framing.toList = [])
    (possible : ∀ f ∈ e.framing, f.Possible k.bufWriter.socket arrived (∃ how, k.loopPc = .ended how))
    (step : InboxStep format.readMessage s e t) :
    LoneStep format config (bus, k.reading s arrived) (.client (.inbox e))
      (bus, k.reading t arrived) := by
  have taken : LoneStep format config (bus, k.reading s arrived) (.client (.inbox e))
      (bus, k.reading t (arrived ++ arrivedIn e.framing.toList)) :=
    .client (k := k.reading s arrived) (.inbox step) possible
  rwa [quiet, List.append_nil] at taken

theorem received_run (bus : Bus ring Bytes) (k : Session V) {bytes : Bytes} (arrived : Bytes)
    {message : Message V} (packed : format.packMessage message = .ok bytes)
    (handed : k.bufWriter.socket = arrived ++ bytes) :
    LoneRun format config bus (k.reading .start arrived)
      [.client (.inbox (.task (.framed (.read (.chunk bytes))))),
        .client (.inbox (.task (.framed (.read (.item message))))),
        .client (.inbox (.task (.sent message))),
        .client (.inbox (.task (.framed (.read .idle)))),
        .client (.inbox (.taken message))] bus (k.reading .start (arrived ++ bytes)) := by
  have yields := decode_frame (format.messages.whole _ _ packed [])
  rw [List.append_nil] at yields
  have starved := decode_unfinished format.messages.nothing
  have came : arrivedIn (InboxEvent.framing (T := Message V)
      (.task (.framed (.read (.chunk bytes))))).toList = bytes := List.append_nil _
  have chunk : LoneStep format config (bus, k.reading .start arrived)
      (.client (.inbox (.task (.framed (.read (.chunk bytes))))))
      (bus, k.reading ⟨⟨.streaming ⟨[] ++ bytes, .reading⟩, none⟩, Mpsc.new⟩
        (arrived ++ arrivedIn (InboxEvent.framing (T := Message V)
          (.task (.framed (.read (.chunk bytes))))).toList)) := by
    refine .client (k := k.reading .start arrived)
      (.inbox (.task (.framed rfl (.read (.chunk [] bytes))))) ?_
    intro f here
    obtain rfl := Option.some.inj here
    exact ⟨frame_nonempty format.messages packed, handed ▸ List.prefix_refl _⟩
  rw [came, List.nil_append] at chunk
  have room : (Mpsc.new : Mpsc channelBufferSize (Message V)).HasRoom := ⟨rfl, Nat.zero_lt_succ _⟩
  have quiet : ∀ e : ReadEvent (Message V), e.fed = none → ∀ f ∈ InboxEvent.framing
      (.task (.framed (.read e))), f.Possible k.bufWriter.socket (arrived ++ bytes)
        (∃ how, k.loopPc = .ended how) := by
    intro e silent f here
    obtain rfl := Option.some.inj here
    cases e with
    | chunk bytes => cases silent
    | _ => trivial
  apply run_cons chunk
  apply run_cons (inbox_run bus k rfl (quiet _ rfl) (.task (.framed rfl (.read (.item yields)))))
  apply run_cons (inbox_run bus k rfl (by intro f here; cases here)
    (.task (.sent rfl rfl room)))
  apply run_cons (inbox_run bus k rfl (quiet _ rfl) (.task (.framed rfl (.read (.idle starved)))))
  exact run_single (inbox_run bus k rfl (by intro f here; cases here) (.taken rfl))

/-! A client that publishes to a new topic, subscribes to it and is given its own message. -/

def echoing (config : BufferConfig) (written : Bytes) (h : ConnectionHandler V Bytes)
    (phase : ReadPhase) (returned : Bytes) : Session V where
  client := .resting written .start
  atServer := written
  readTask := ⟨.streaming ⟨[], phase⟩, none⟩
  handler := h
  bufWriter := ⟨config.size, [], returned⟩
  flushInterval := WriteLoop.interval config.flushStrategy
  loopPc := .select
  atClient := returned

def echoOpening (message : Message V) (pattern : Str) (publish subscribe bytes : Bytes) :
    List (SessionEvent V) :=
  writingEvents [.publish message, .subscribe pattern] [publish, subscribe] ++
    .readTask (.framed (.read (.chunk (publish ++ subscribe)))) ::
      (subscribingActs message bytes pattern).flatMap Act.feeding

def echoClosing (config : BufferConfig) (message : Message V) (bytes : Bytes) :
    List (SessionEvent V) :=
  (joiningActs message.topic bytes).flatMap Act.feeding ++
    .readTask (.framed (.read .idle)) ::
      ((writtenEvents config bytes).map .writeLoop ++
        [.client (.inbox (.task (.framed (.read (.chunk bytes))))),
          .client (.inbox (.task (.framed (.read (.item message))))),
          .client (.inbox (.task (.sent message))),
          .client (.inbox (.task (.framed (.read .idle)))),
          .client (.inbox (.taken message))])

section Echo
variable {message : Message V} {pattern : Str} {publish subscribe bytes : Bytes}

def subscribedHandler (topic : Str) (pattern : Str) : ConnectionHandler V Bytes :=
  ⟨Mpsc.new, Mpsc.new, fun _ => none, 1, GlobTree.new.insert pattern, .visit .subscribe [topic]⟩

theorem new_session (timed : config.flushStrategy ≠ .periodic 0) (bus : Bus ring Bytes) :
    (Session.new config bus : Session V) =
      echoing config [] (ConnectionHandler.new bus) .waiting [] := by
  unfold Session.new WriteLoop.start
  rw [if_neg timed]
  rfl

theorem echo_opening (ring : Ring) (timed : config.flushStrategy ≠ .periodic 0)
    (packed : format.packMessage message = .ok bytes)
    (first : format.packCommand (.publish message) = .ok publish)
    (second : format.packCommand (.subscribe pattern) = .ok subscribe) :
    LoneRun format config (Bus.new : Bus ring Bytes) (Session.new config (Bus.new : Bus ring Bytes))
      (echoOpening message pattern publish subscribe bytes) (Bus.new.withTopic message.topic bytes)
      (echoing config (publish ++ subscribe) (subscribedHandler message.topic pattern) .reading
        []) := by
  rw [new_session timed]
  have sent : SentAs format.packCommand [.publish message, .subscribe pattern] [publish, subscribe] :=
    .cons first (.cons second .nil)
  have flat : ([publish, subscribe] : List Bytes).flatten = publish ++ subscribe := by simp
  have written : LoneRun format config _ _ _ _ _ := writing_run (Bus.new : Bus ring Bytes)
    (echoing config [] (ConnectionHandler.new (Bus.new : Bus ring Bytes)) .waiting []) sent [] .start
  rw [flat, List.nil_append] at written
  have came : arrivedIn (ReadTaskEvent.framing (T := Command V)
      (.framed (.read (.chunk (publish ++ subscribe))))).toList = publish ++ subscribe :=
    List.append_nil _
  have chunk : LoneStep format config ((Bus.new : Bus ring Bytes),
      { echoing config [] (ConnectionHandler.new (Bus.new : Bus ring Bytes)) .waiting [] with
        client := .resting (publish ++ subscribe) .start })
      (.readTask (.framed (.read (.chunk (publish ++ subscribe))))) (Bus.new,
      { (echoing config [] (ConnectionHandler.new (Bus.new : Bus ring Bytes)) .waiting [] :
          Session V) with
        client := .resting (publish ++ subscribe) .start
        readTask := ⟨.streaming ⟨[] ++ (publish ++ subscribe), .reading⟩, none⟩
        atServer := [] ++ arrivedIn (ReadTaskEvent.framing (T := Command V)
          (.framed (.read (.chunk (publish ++ subscribe))))).toList }) := by
    refine .readTask (.framed rfl (.read (.chunk [] _))) ?_
    intro f here
    obtain rfl := Option.some.inj here
    exact ⟨List.append_ne_nil_of_left_ne_nil (frame_nonempty format.commands first) _,
      List.prefix_refl _⟩
  rw [came, List.nil_append] at chunk
  have handled : LoneRun format config _ _ _ _ _ := fed_run
    (echoing config (publish ++ subscribe) (ConnectionHandler.new (Bus.new : Bus ring Bytes))
      .reading [])
    (subscribing_run ring (Format.encode_iff.mpr packed) pattern)
    (by simp [subscribingActs, openingActs, publishNewActs, Act.handles]) sent []
  rw [flat, List.append_nil] at handled
  exact run_append written (run_cons chunk handled)

theorem echo_closing (ring : Ring) (packed : format.packMessage message = .ok bytes)
    (matched : GlobMatch pattern (asBytes message.topic)) (written : Bytes) :
    LoneRun format config ((Bus.new : Bus ring Bytes).withTopic message.topic bytes)
      (echoing config written (subscribedHandler message.topic pattern) .reading [])
      (echoClosing config message bytes) ((Bus.new : Bus ring Bytes).withTopic message.topic bytes)
      (echoing config written { joinedHandler message.topic bytes pattern with
        adapterSender := Mpsc.new } .waiting bytes) := by
  generalize opened : (Bus.new : Bus ring Bytes).withTopic message.topic bytes = bus
  have joining : SoloRun format.encode _ _ _ _ _ := joining_run ring bytes matched
  rw [opened] at joining
  have joined : LoneRun format config _ _ _ _ _ := fed_run
    (echoing config written (subscribedHandler message.topic pattern) .reading []) joining
    (by simp [joiningActs, Act.handles]) .nil []
  have starved := decode_unfinished format.commands.nothing
  have idle : LoneStep format config (bus, _) (.readTask (.framed (.read .idle))) (bus, _) :=
    readTask_run bus (echoing config written (joinedHandler message.topic bytes pattern) .reading []) rfl
      (by intro f here; obtain rfl := Option.some.inj here; trivial)
      (.framed rfl (.read (.idle starved)))
  have answered : LoneRun format config _ _ _ _ _ := written_run bus
    (echoing config written (joinedHandler message.topic bytes pattern) .waiting [])
    (Mpsc.new.push bytes) [] rfl
  have received : LoneRun format config _ _ _ _ _ := received_run bus (echoing config written
    { joinedHandler message.topic bytes pattern with adapterSender := Mpsc.new } .waiting bytes)
    [] packed (List.nil_append _).symm
  exact run_append joined (run_cons idle (run_append answered received))

end Echo
end PubSub
