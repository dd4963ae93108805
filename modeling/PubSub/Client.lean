import PubSub.ReadTask

/- A client: the commands its callers hand in, the task that writes them to the socket, and
   the task that reads what comes back. -/
namespace PubSub
open Channels LabelledRun StreamParsing MsgPackCodec
variable {V : Type}

/-- What the message pack library does with the two types that cross the wire, both of them
    assumed to be read back as they were sent. -/
structure Format (V : Type) where
  readCommand : Parser UInt8 DecodeError (Command V)
  packCommand : Command V → Except String Bytes
  readMessage : Parser UInt8 DecodeError (Message V)
  packMessage : Message V → Except String Bytes
  commands : ReadsBack readCommand packCommand
  messages : ReadsBack readMessage packMessage

def Format.encode (format : Format V) (message : Message V) : Option Bytes :=
  (format.packMessage message).toOption

theorem Format.encode_iff {format : Format V} {message : Message V} {bytes : Bytes} :
    format.encode message = some bytes ↔ format.packMessage message = .ok bytes := by
  unfold Format.encode
  cases format.packMessage message <;> simp [Except.toOption]

def Format.unpack (format : Format V) (bytes : Bytes) : Option (Message V) :=
  match format.readMessage bytes with
  | (.ok message, _) => some message
  | (.error _, _) => none

theorem Format.unpack_packed {format : Format V} {message : Message V} {bytes : Bytes}
    (packed : format.packMessage message = .ok bytes) : format.unpack bytes = some message := by
  have read := format.messages.whole message bytes packed []
  rw [List.append_nil] at read
  unfold Format.unpack
  rw [read]

theorem readsBack_message : ReadsBack Wire.readMessage Wire.packMessage := by
  constructor
  · exact fun message frame sent => Wire.reads_readMessage sent
  · intro message front missing sent cut
    have frame := reads_isFrame (Wire.reads_readMessage sent)
    exact ranOut_unfinished (cut_frame_runs_out Wire.incremental_readMessage frame cut)
  · exact ⟨.invalidMarkerRead "end of file", [], rfl, fun _ => by simp⟩

def Wire.format : Format UInt8 :=
  ⟨readCommand, packCommand, readMessage, packMessage, readsBack_command, readsBack_message⟩

inductive ClientWriter where
  | receiving
  | sending (left : Bytes)
  | ended
  deriving DecidableEq

def ClientWriter.left : ClientWriter → Bytes
  | .sending left => left
  | .receiving | .ended => []

/-- A client and its two tasks. The socket is known by the bytes it was handed. -/
structure Client (V : Type) where
  commands : Mpsc channelBufferSize (Command V)
  writer : ClientWriter
  handed : Bytes
  inbox : Inbox (Message V)

namespace Client

def new : Client V := ⟨Mpsc.new, .receiving, [], .start⟩

def stopWriter (k : Client V) : Client V :=
  { k with commands := { k.commands with receiverDropped := true }, writer := .ended }

end Client

inductive ClientEvent (V : Type) where
  | call (command : Command V)
  | callPanicked (command : Command V)
  | dropSenders
  | write (command : Command V)
  | unencodable (command : Command V)
  | hand (bytes : Bytes)
  | flushed
  | broken
  | finished
  | inbox (e : InboxEvent (Message V))
  | closed
  deriving DecidableEq

inductive ClientStep (format : Format V) (k : Client V) : ClientEvent V → Client V → Prop where
  | call {command : Command V} (open_ : k.commands.senderDropped = false)
      (room : k.commands.HasRoom) :
      ClientStep format k (.call command) { k with commands := k.commands.push command }
  | callPanicked {command : Command V} (open_ : k.commands.senderDropped = false)
      (gone : k.commands.receiverDropped = true) :
      ClientStep format k (.callPanicked command) k
  | dropSenders :
      ClientStep format k .dropSenders
        { k with commands := { k.commands with senderDropped := true } }
  | write {command : Command V} {rest : List (Command V)} {frame : Bytes}
      (at_ : k.writer = .receiving) (queue : k.commands.queue = command :: rest)
      (packed : format.packCommand command = .ok frame) :
      ClientStep format k (.write command)
        { k with commands := { k.commands with queue := rest }, writer := .sending frame }
  | unencodable {command : Command V} {rest : List (Command V)} {e : String}
      (at_ : k.writer = .receiving) (queue : k.commands.queue = command :: rest)
      (failed : format.packCommand command = .error e) :
      ClientStep format k (.unencodable command)
        ({ k with commands := { k.commands with queue := rest } }).stopWriter
  | hand {bytes left : Bytes} (at_ : k.writer = .sending (bytes ++ left)) :
      ClientStep format k (.hand bytes)
        { k with writer := .sending left, handed := k.handed ++ bytes }
  | flushed (at_ : k.writer = .sending []) :
      ClientStep format k .flushed { k with writer := .receiving }
  /-- The socket refuses a write, or the client's runtime is shut down. -/
  | broken (running : k.writer ≠ .ended) : ClientStep format k .broken k.stopWriter
  | finished (at_ : k.writer = .receiving) (queue : k.commands.queue = [])
      (gone : k.commands.senderDropped = true) :
      ClientStep format k .finished k.stopWriter
  | inbox {e : InboxEvent (Message V)} {inbox : Inbox (Message V)}
      (step : InboxStep format.readMessage k.inbox e inbox) :
      ClientStep format k (.inbox e) { k with inbox := inbox }
  | closed (queue : k.inbox.channel.queue = []) (gone : k.inbox.channel.senderDropped = true) :
      ClientStep format k .closed k

namespace ClientEvent

def called : ClientEvent V → Option (Command V)
  | .call command => some command
  | _ => none

def taken : ClientEvent V → Option (Command V)
  | .write command => some command
  | .unencodable command => some command
  | _ => none

def written : ClientEvent V → Option (Command V)
  | .write command => some command
  | _ => none

def inboxed : ClientEvent V → Option (InboxEvent (Message V))
  | .inbox e => some e
  | _ => none

end ClientEvent

abbrev ClientRun (format : Format V) (es : List (ClientEvent V)) (k : Client V) : Prop :=
  Run (ClientStep format) Client.new es k

/-- What the socket was handed begins the frames of the commands, which are the calls up to
    where the writer is. -/
structure Client.Kept (format : Format V) (es : List (ClientEvent V)) (k : Client V) : Prop where
  order : es.filterMap ClientEvent.called = es.filterMap ClientEvent.taken ++ k.commands.queue
  begun : es.filterMap ClientEvent.written <+: es.filterMap ClientEvent.taken
  running : k.writer ≠ .ended → es.filterMap ClientEvent.written = es.filterMap ClientEvent.taken
  stream : ∃ frames, SentAs format.packCommand (es.filterMap ClientEvent.written) frames ∧
    k.handed ++ k.writer.left <+: frames.flatten ∧
    (k.writer ≠ .ended → k.handed ++ k.writer.left = frames.flatten)
  inbox : InboxRun format.readMessage (es.filterMap ClientEvent.inboxed) k.inbox

section Writer
variable {format : Format V}

theorem Client.Kept.quiet {es : List (ClientEvent V)} {k k' : Client V} {e : ClientEvent V}
    (kept : k.Kept format es)
    (still : e.called = none ∧ e.taken = none ∧ e.written = none ∧ e.inboxed = none)
    (queue : k'.commands.queue = k.commands.queue) (inbox : k'.inbox = k.inbox)
    (handed : k'.handed ++ k'.writer.left = k.handed ++ k.writer.left ∨
      k'.writer = .ended ∧ k'.handed = k.handed)
    (running : k'.writer ≠ .ended → k.writer ≠ .ended) : k'.Kept format (es ++ [e]) := by
  obtain ⟨called, taken, written, inboxed⟩ := still
  obtain ⟨frames, sent, begun, exact_⟩ := kept.stream
  constructor
  · rw [filterMap_snoc_none called, filterMap_snoc_none taken, queue]
    exact kept.order
  · rw [filterMap_snoc_none written, filterMap_snoc_none taken]
    exact kept.begun
  · rw [filterMap_snoc_none written, filterMap_snoc_none taken]
    exact fun live => kept.running (running live)
  · rw [filterMap_snoc_none written]
    refine ⟨frames, sent, ?_, ?_⟩
    · rcases handed with same | ⟨ending, same⟩
      · rw [same]
        exact begun
      · rw [ending, same, ClientWriter.left, List.append_nil]
        exact (List.prefix_append _ _).trans begun
    · intro live
      rcases handed with same | ⟨ending, -⟩
      · rw [same]
        exact exact_ (running live)
      · exact absurd ending live
  · rw [filterMap_snoc_none inboxed, inbox]
    exact kept.inbox

theorem clientStep_kept {es : List (ClientEvent V)} {k k' : Client V} {e : ClientEvent V}
    (kept : k.Kept format es) (step : ClientStep format k e k') : k'.Kept format (es ++ [e]) := by
  cases step with
  | @call command open_ room =>
    obtain ⟨order, begun, running, stream, inbox⟩ := kept
    constructor
    · rw [filterMap_snoc_some (f := ClientEvent.called) rfl, filterMap_snoc_none rfl, order]
      exact List.append_assoc _ _ _
    · rw [filterMap_snoc_none rfl, filterMap_snoc_none rfl]
      exact begun
    · rw [filterMap_snoc_none rfl, filterMap_snoc_none rfl]
      exact running
    · rw [filterMap_snoc_none rfl]
      exact stream
    · rw [filterMap_snoc_none rfl]
      exact inbox
  | callPanicked => exact kept.quiet ⟨rfl, rfl, rfl, rfl⟩ rfl rfl (Or.inl rfl) id
  | dropSenders => exact kept.quiet ⟨rfl, rfl, rfl, rfl⟩ rfl rfl (Or.inl rfl) id
  | @write command rest frame at_ queue packed =>
    have running : k.writer ≠ .ended := by rw [at_]; simp
    obtain ⟨frames, sent, -, exact_⟩ := kept.stream
    have all := exact_ running
    rw [at_, ClientWriter.left, List.append_nil] at all
    have written := filterMap_snoc_some (f := ClientEvent.written) (l := .write command) rfl es
    have taken := filterMap_snoc_some (f := ClientEvent.taken) (l := .write command) rfl es
    have same := kept.running running
    constructor
    · rw [filterMap_snoc_none rfl, taken, kept.order, queue]
      simp
    · rw [written, taken]
      exact same ▸ List.prefix_refl _
    · rw [written, taken, same]
      exact fun _ => rfl
    · have more : k.handed ++ frame = (frames ++ [frame]).flatten := by
        rw [List.flatten_append, ← all, List.flatten_singleton]
      rw [written]
      refine ⟨frames ++ [frame], List.rel_append sent (List.Forall₂.cons packed List.Forall₂.nil),
        ?_, fun _ => more⟩
      exact more ▸ List.prefix_refl _
    · rw [filterMap_snoc_none rfl]
      exact kept.inbox
  | @unencodable command rest e at_ queue failed =>
    have running : k.writer ≠ .ended := by rw [at_]; simp
    obtain ⟨frames, sent, begun, -⟩ := kept.stream
    have taken := filterMap_snoc_some (f := ClientEvent.taken) (l := .unencodable command) rfl es
    constructor
    · rw [filterMap_snoc_none rfl, taken, kept.order, queue]
      simp [Client.stopWriter]
    · rw [filterMap_snoc_none rfl, taken]
      exact kept.begun.trans (List.prefix_append _ _)
    · exact fun live => absurd rfl live
    · rw [filterMap_snoc_none rfl]
      refine ⟨frames, sent, ?_, fun live => absurd rfl live⟩
      rw [at_] at begun
      exact begun
    · rw [filterMap_snoc_none rfl]
      exact kept.inbox
  | @hand bytes left at_ =>
    refine kept.quiet ⟨rfl, rfl, rfl, rfl⟩ rfl rfl (Or.inl ?_) (fun _ => by rw [at_]; simp)
    rw [at_]
    exact List.append_assoc _ _ _
  | flushed at_ =>
    refine kept.quiet ⟨rfl, rfl, rfl, rfl⟩ rfl rfl (Or.inl ?_) (fun _ => by rw [at_]; simp)
    rw [at_]
    rfl
  | broken running =>
    exact kept.quiet ⟨rfl, rfl, rfl, rfl⟩ rfl rfl (Or.inr ⟨rfl, rfl⟩) fun live => absurd rfl live
  | finished at_ queue gone =>
    exact kept.quiet ⟨rfl, rfl, rfl, rfl⟩ rfl rfl (Or.inr ⟨rfl, rfl⟩) fun live => absurd rfl live
  | @inbox e inbox step =>
    obtain ⟨order, begun, running, stream, before⟩ := kept
    constructor
    · rw [filterMap_snoc_none rfl, filterMap_snoc_none rfl]
      exact order
    · rw [filterMap_snoc_none rfl, filterMap_snoc_none rfl]
      exact begun
    · rw [filterMap_snoc_none rfl, filterMap_snoc_none rfl]
      exact running
    · rw [filterMap_snoc_none rfl]
      exact stream
    · rw [filterMap_snoc_some (f := ClientEvent.inboxed) rfl]
      exact Run.snoc before step
  | closed => exact kept.quiet ⟨rfl, rfl, rfl, rfl⟩ rfl rfl (Or.inl rfl) id

theorem client_kept {es : List (ClientEvent V)} {k : Client V} (run : ClientRun format es k) :
    k.Kept format es := by
  refine run_history (fun es k => k.Kept format es) ?_ ?_ run
  · exact ⟨rfl, List.prefix_refl _, fun _ => rfl,
      ⟨[], List.Forall₂.nil, List.prefix_refl _, fun _ => rfl⟩, Run.nil _⟩
  · exact fun es k e k' _ kept step => clientStep_kept kept step

theorem client_stream {es : List (ClientEvent V)} {k : Client V} (kept : k.Kept format es) :
    ∃ stream, encodeAll format.packCommand (es.filterMap ClientEvent.written) [] = (.ok (), stream) ∧
      k.handed <+: stream := by
  obtain ⟨frames, sent, begun, -⟩ := kept.stream
  exact ⟨frames.flatten, (encodeAll_iff _ _ _ _).mpr ⟨frames, sent, rfl⟩,
    (List.prefix_append _ _).trans begun⟩

theorem written_called {es : List (ClientEvent V)} {k : Client V} (kept : k.Kept format es) :
    es.filterMap ClientEvent.written <+: es.filterMap ClientEvent.called := by
  rw [kept.order]
  exact kept.begun.trans (List.prefix_append _ _)

end Writer
end PubSub
