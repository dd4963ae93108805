import PubSub.Framing
import PubSub.Handler

/- A task that reads a stream of frames to its end and sends what it decodes over a channel:
   the read loop of a connection, and in the same way the reader of a client. The stream may
   end or break anywhere. -/
namespace PubSub
open Channels LabelledRun StreamParsing MsgPackCodec
variable {T : Type}

/-- What a framed reader answers with: an error of its decoder, bytes that were left when the
    stream ended, or an error of the socket. -/
inductive FrameError where
  | decoder (e : IoError)
  | bytesRemaining
  | socket
  deriving DecidableEq

/-- A framed reader: before the end of its stream, asking its decoder for what is left, or
    with nothing more to answer. -/
inductive FramedRead where
  | streaming (loop : ReadLoop)
  | finishing (src : Bytes)
  | ended
  deriving DecidableEq

inductive FramedEvent (T : Type) where
  | read (e : ReadEvent T)
  | endOfFile
  | last (x : T)
  | failed (e : FrameError)
  | finished
  deriving DecidableEq

def FramedRead.start : FramedRead := .streaming .start

inductive FramedStep (fromRead : Parser UInt8 DecodeError T) :
    FramedRead → FramedEvent T → FramedRead → Prop where
  | read {d d' : ReadLoop} {e : ReadEvent T} (step : ReadStep fromRead d e d') :
      FramedStep fromRead (.streaming d) (.read e) (.streaming d')
  /-- The answer after an error of the decoder is that there is nothing more. -/
  | closed {src : Bytes} : FramedStep fromRead (.streaming ⟨src, .closed⟩) .finished .ended
  | socket {src : Bytes} :
      FramedStep fromRead (.streaming ⟨src, .waiting⟩) (.failed .socket) .ended
  | endOfFile {src : Bytes} :
      FramedStep fromRead (.streaming ⟨src, .waiting⟩) .endOfFile (.finishing src)
  | last {src left : Bytes} {x : T} (read : decode fromRead src = (.ok (some x), left)) :
      FramedStep fromRead (.finishing src) (.last x) (.finishing left)
  | finished {src : Bytes} (read : decode fromRead src = (.ok none, [])) :
      FramedStep fromRead (.finishing src) .finished .ended
  | leftover {src left : Bytes} (read : decode fromRead src = (.ok none, left))
      (some_left : left ≠ []) :
      FramedStep fromRead (.finishing src) (.failed .bytesRemaining) .ended
  | undecodable {src left : Bytes} {e : IoError} (read : decode fromRead src = (.error e, left)) :
      FramedStep fromRead (.finishing src) (.failed (.decoder e)) .ended

namespace FramedEvent

def reading : FramedEvent T → Option (ReadEvent T)
  | .read e => some e
  | _ => none

def yielded : FramedEvent T → Option T
  | .read e => e.yielded
  | .last x => some x
  | _ => none

end FramedEvent

def arrivedIn (es : List (FramedEvent T)) : Bytes := (fed (es.filterMap FramedEvent.reading)).flatten

structure ReadTask (T : Type) where
  framed : FramedRead
  holding : Option T

def ReadTask.start : ReadTask T := ⟨.start, none⟩

inductive ReadTaskEvent (T : Type) where
  | framed (e : FramedEvent T)
  | sent (x : T)
  /-- `send(..).await.ok()` with the receiver gone. -/
  | dropped (x : T)
  | ended
  deriving DecidableEq

/-- The steps of the task at its channel. An error is logged here and ends the task there; it
    has answered for the last time either way. -/
inductive ReadTaskStep (fromRead : Parser UInt8 DecodeError T) (r : ReadTask T)
    (channel : Mpsc channelBufferSize T) :
    ReadTaskEvent T → ReadTask T → Mpsc channelBufferSize T → Prop where
  | framed {e : FramedEvent T} {after : FramedRead} (idle : r.holding = none)
      (step : FramedStep fromRead r.framed e after) :
      ReadTaskStep fromRead r channel (.framed e) ⟨after, e.yielded⟩ channel
  | sent {x : T} (held : r.holding = some x) (running : channel.senderDropped = false)
      (room : channel.HasRoom) :
      ReadTaskStep fromRead r channel (.sent x) ⟨r.framed, none⟩ (channel.push x)
  | dropped {x : T} (held : r.holding = some x) (closed : channel.receiverDropped = true) :
      ReadTaskStep fromRead r channel (.dropped x) ⟨r.framed, none⟩ channel
  | ended (done : r.framed = .ended) (idle : r.holding = none)
      (running : channel.senderDropped = false) :
      ReadTaskStep fromRead r channel .ended r { channel with senderDropped := true }

namespace ReadTaskEvent

def framing : ReadTaskEvent T → Option (FramedEvent T)
  | .framed e => some e
  | _ => none

def put : ReadTaskEvent T → Option T
  | .sent x => some x
  | _ => none

def released : ReadTaskEvent T → Option T
  | .sent x => some x
  | .dropped x => some x
  | _ => none

end ReadTaskEvent

/-! A framed reader before, at and after the end of a stream of frames. -/

/-- The items read so far are those whose frames have arrived whole, and the tail begins the
    frames of the others without reaching the end of the first. -/
def ReadSoFar (serialize : T → Except String Bytes) (xs : List T) (arrived : Bytes) (out : List T)
    (tail : Bytes) : Prop :=
  ∃ rest done later, xs = out ++ rest ∧ SentAs serialize out done ∧ SentAs serialize rest later ∧
    arrived = done.flatten ++ tail ∧ tail <+: later.flatten ∧
    ∀ frame ∈ later.head?, ¬ frame <+: tail

structure Placed (fromRead : Parser UInt8 DecodeError T) (serialize : T → Except String Bytes)
    (xs : List T) (stream : Bytes) (es : List (FramedEvent T)) (f : FramedRead) (d : ReadLoop) :
    Prop where
  reading : Reading fromRead serialize xs stream (es.filterMap FramedEvent.reading) d
  yields : es.filterMap FramedEvent.yielded = yielded (es.filterMap FramedEvent.reading)
  noError : ∀ e, FramedEvent.failed (.decoder e) ∉ es
  stage : match f with
    | .streaming loop => loop = d ∧ FramedEvent.endOfFile ∉ es ∧
        FramedEvent.failed .bytesRemaining ∉ es
    | .finishing src => src = d.src ∧ d.phase = .waiting ∧ FramedEvent.endOfFile ∈ es ∧
        FramedEvent.failed .bytesRemaining ∉ es
    | .ended => d.phase = .waiting ∧
        (FramedEvent.endOfFile ∈ es → (FramedEvent.failed .bytesRemaining ∈ es ↔ d.src ≠ []))

section Law
variable {fromRead : Parser UInt8 DecodeError T} {serialize : T → Except String Bytes}
  {xs : List T} {stream : Bytes}

theorem frame_nonempty (law : ReadsBack fromRead serialize) {x : T} {frame : Bytes}
    (packed : serialize x = .ok frame) : frame ≠ [] := by
  rintro rfl
  have yields := decode_frame (law.whole x [] packed [])
  exact absurd (yields.symm.trans (decode_unfinished law.nothing)) (by simp)

theorem reading_soFar {ls : List (ReadEvent T)} {d : ReadLoop} (law : ReadsBack fromRead serialize)
    (reading : Reading fromRead serialize xs stream ls d) (waiting : d.phase = .waiting) :
    ReadSoFar serialize xs (fed ls).flatten (yielded ls) d.src := by
  obtain ⟨rest, done, later, split, before, after, -, place, begun⟩ := reading.halves
  refine ⟨rest, done, later, split, before, after, place.symm, begun, ?_⟩
  intro frame first whole
  obtain ⟨more, exact_⟩ := whole
  cases after with
  | nil => cases first
  | @cons x frame' rest later sent others =>
    obtain rfl : frame' = frame := Option.some.inj first
    have yields := decode_frame (law.whole x frame' sent more)
    rw [exact_, reading.starved waiting] at yields
    cases yields

theorem Placed.quiet {es : List (FramedEvent T)} {f f' : FramedRead} {d : ReadLoop}
    {e : FramedEvent T} (placed : Placed fromRead serialize xs stream es f d)
    (still : e.reading = none ∧ e.yielded = none) (healthy : ∀ i, e ≠ .failed (.decoder i))
    (stage : match f' with
      | .streaming loop => loop = d ∧ FramedEvent.endOfFile ∉ es ++ [e] ∧
          FramedEvent.failed .bytesRemaining ∉ es ++ [e]
      | .finishing src => src = d.src ∧ d.phase = .waiting ∧ FramedEvent.endOfFile ∈ es ++ [e] ∧
          FramedEvent.failed .bytesRemaining ∉ es ++ [e]
      | .ended => d.phase = .waiting ∧ (FramedEvent.endOfFile ∈ es ++ [e] →
          (FramedEvent.failed .bytesRemaining ∈ es ++ [e] ↔ d.src ≠ []))) :
    Placed fromRead serialize xs stream (es ++ [e]) f' d := by
  refine ⟨?_, ?_, ?_, stage⟩
  · rw [filterMap_snoc_none still.1]
    exact placed.reading
  · rw [filterMap_snoc_none still.1, filterMap_snoc_none still.2]
    exact placed.yields
  · intro i member
    rcases List.mem_append.mp member with old | now
    · exact placed.noError i old
    · exact healthy i (List.mem_singleton.mp now).symm

theorem framedStep_placed {es : List (FramedEvent T)} {f f' : FramedRead} {d : ReadLoop}
    {e : FramedEvent T} (law : ReadsBack fromRead serialize)
    (placed : Placed fromRead serialize xs stream es f d) (step : FramedStep fromRead f e f')
    (within : arrivedIn (es ++ [e]) <+: stream) :
    ∃ d', Placed fromRead serialize xs stream (es ++ [e]) f' d' := by
  have stage := placed.stage
  cases step with
  | @read loop loop' e step =>
    obtain ⟨rfl, open_, clean⟩ := stage
    unfold arrivedIn at within
    rw [filterMap_snoc_some (f := FramedEvent.reading) rfl] at within
    refine ⟨loop', ⟨?_, ?_, ?_, rfl, ?_, ?_⟩⟩
    · rw [filterMap_snoc_some (f := FramedEvent.reading) rfl]
      exact reading_step law placed.reading step within
    · rw [filterMap_snoc_some (f := FramedEvent.reading) rfl, filterMap_snoc, placed.yields,
        yielded_snoc]
      rfl
    · simpa using placed.noError
    · simpa using open_
    · simpa using clean
  | closed =>
    obtain ⟨rfl, -⟩ := stage
    exact absurd rfl placed.reading.opened
  | socket =>
    obtain ⟨rfl, open_, -⟩ := stage
    exact ⟨_, placed.quiet ⟨rfl, rfl⟩ (by simp) ⟨rfl, fun ended => absurd ended (by simpa using open_)⟩⟩
  | endOfFile =>
    obtain ⟨rfl, -, clean⟩ := stage
    exact ⟨_, placed.quiet ⟨rfl, rfl⟩ (by simp) ⟨rfl, rfl, by simp, by simpa using clean⟩⟩
  | last read =>
    obtain ⟨rfl, waiting, -⟩ := stage
    rw [placed.reading.starved waiting] at read
    cases read
  | finished read =>
    obtain ⟨rfl, waiting, -, clean⟩ := stage
    rw [placed.reading.starved waiting] at read
    have empty : d.src = [] := (Prod.mk.inj read).2
    exact ⟨d, placed.quiet ⟨rfl, rfl⟩ (by simp) ⟨waiting, fun _ => by simpa [empty] using clean⟩⟩
  | leftover read some_left =>
    obtain ⟨rfl, waiting, -⟩ := stage
    rw [placed.reading.starved waiting] at read
    have left := (Prod.mk.inj read).2
    rw [← left] at some_left
    exact ⟨d, placed.quiet ⟨rfl, rfl⟩ (by simp) ⟨waiting, fun _ => by simpa using some_left⟩⟩
  | undecodable read =>
    obtain ⟨rfl, waiting, -⟩ := stage
    rw [placed.reading.starved waiting] at read
    cases read

abbrev FramedRun (fromRead : Parser UInt8 DecodeError T) (es : List (FramedEvent T))
    (f : FramedRead) : Prop :=
  Run (FramedStep fromRead) .start es f

theorem framed_placed (law : ReadsBack fromRead serialize)
    (sent : encodeAll serialize xs [] = (.ok (), stream)) {es : List (FramedEvent T)}
    {f : FramedRead} (run : FramedRun fromRead es f) (within : arrivedIn es <+: stream) :
    ∃ d, Placed fromRead serialize xs stream es f d := by
  refine run_history (fun es f => arrivedIn es <+: stream →
    ∃ d, Placed fromRead serialize xs stream es f d) ?_ ?_ run within
  · intro _
    exact ⟨.start, reading_start law sent, rfl, fun e => List.not_mem_nil, rfl, List.not_mem_nil,
      List.not_mem_nil⟩
  · intro es f e f' _ ih step within
    have earlier : arrivedIn es <+: arrivedIn (es ++ [e]) := by
      unfold arrivedIn
      rw [filterMap_snoc, fed, fed, List.filterMap_append, List.flatten_append]
      exact List.prefix_append _ _
    obtain ⟨d, placed⟩ := ih (earlier.trans within)
    exact framedStep_placed law placed step within

end Law

/-! The task and whoever takes from its channel. -/

structure Inbox (T : Type) where
  task : ReadTask T
  channel : Mpsc channelBufferSize T

def Inbox.start : Inbox T := ⟨.start, Mpsc.new⟩

inductive InboxEvent (T : Type) where
  | task (e : ReadTaskEvent T)
  | taken (x : T)
  /-- The receiving end is dropped. -/
  | closed
  deriving DecidableEq

inductive InboxStep (fromRead : Parser UInt8 DecodeError T) (s : Inbox T) :
    InboxEvent T → Inbox T → Prop where
  | task {e : ReadTaskEvent T} {r : ReadTask T} {channel : Mpsc channelBufferSize T}
      (step : ReadTaskStep fromRead s.task s.channel e r channel) :
      InboxStep fromRead s (.task e) ⟨r, channel⟩
  | taken {x : T} {rest : List T} (queue : s.channel.queue = x :: rest) :
      InboxStep fromRead s (.taken x) { s with channel := { s.channel with queue := rest } }
  | closed :
      InboxStep fromRead s .closed { s with channel := { s.channel with receiverDropped := true } }

abbrev InboxRun (fromRead : Parser UInt8 DecodeError T) (es : List (InboxEvent T)) (s : Inbox T) :
    Prop :=
  Run (InboxStep fromRead) Inbox.start es s

namespace InboxEvent

def framing : InboxEvent T → Option (FramedEvent T)
  | .task e => e.framing
  | _ => none

def put : InboxEvent T → Option T
  | .task e => e.put
  | _ => none

def released : InboxEvent T → Option T
  | .task e => e.released
  | _ => none

def received : InboxEvent T → Option T
  | .taken x => some x
  | _ => none

end InboxEvent

def framings (es : List (InboxEvent T)) : List (FramedEvent T) := es.filterMap InboxEvent.framing

structure Inbox.Kept (fromRead : Parser UInt8 DecodeError T) (es : List (InboxEvent T))
    (s : Inbox T) : Prop where
  framed : FramedRun fromRead (framings es) s.task.framed
  yields : (framings es).filterMap FramedEvent.yielded =
    es.filterMap InboxEvent.released ++ s.task.holding.toList
  begun : es.filterMap InboxEvent.put <+: es.filterMap InboxEvent.released
  alive : s.channel.receiverDropped = false →
    es.filterMap InboxEvent.put = es.filterMap InboxEvent.released
  order : es.filterMap InboxEvent.put = es.filterMap InboxEvent.received ++ s.channel.queue
  ended : s.channel.senderDropped = true → s.task.framed = .ended ∧ s.task.holding = none

section Task
variable {fromRead : Parser UInt8 DecodeError T}

theorem framedStep_running {f f' : FramedRead} {e : FramedEvent T}
    (step : FramedStep fromRead f e f') : f ≠ .ended := by
  cases step <;> simp

theorem Inbox.Kept.moved {es : List (InboxEvent T)} {s : Inbox T} {e : InboxEvent T}
    {channel : Mpsc channelBufferSize T} (kept : s.Kept fromRead es)
    (outside : e.framing = none ∧ e.released = none ∧ e.put = none)
    (alive : channel.receiverDropped = false → s.channel.receiverDropped = false)
    (queue : s.channel.queue = e.received.toList ++ channel.queue)
    (sender : channel.senderDropped = s.channel.senderDropped) :
    Inbox.Kept fromRead (es ++ [e]) ⟨s.task, channel⟩ := by
  obtain ⟨framing, released, put⟩ := outside
  have framed : framings (es ++ [e]) = framings es := filterMap_snoc_none framing es
  constructor
  · rw [framed]
    exact kept.framed
  · rw [framed, filterMap_snoc_none released]
    exact kept.yields
  · rw [filterMap_snoc_none put, filterMap_snoc_none released]
    exact kept.begun
  · rw [filterMap_snoc_none put, filterMap_snoc_none released]
    exact fun here => kept.alive (alive here)
  · rw [filterMap_snoc_none put, filterMap_snoc, kept.order, queue, List.append_assoc]
  · rw [sender]
    exact kept.ended

theorem readTaskStep_kept {es : List (InboxEvent T)} {s : Inbox T} {e : ReadTaskEvent T}
    {r : ReadTask T} {channel : Mpsc channelBufferSize T} (kept : s.Kept fromRead es)
    (step : ReadTaskStep fromRead s.task s.channel e r channel) :
    Inbox.Kept fromRead (es ++ [.task e]) ⟨r, channel⟩ := by
  cases step with
  | @framed e after idle step =>
    have framed : framings (es ++ [.task (.framed e)]) = framings es ++ [e] :=
      filterMap_snoc_some (f := InboxEvent.framing) rfl es
    have yields := kept.yields
    rw [idle, Option.toList_none, List.append_nil] at yields
    constructor
    · rw [framed]
      exact Run.snoc kept.framed step
    · rw [framed, filterMap_snoc, filterMap_snoc_none rfl, yields]
    · rw [filterMap_snoc_none rfl, filterMap_snoc_none rfl]
      exact kept.begun
    · rw [filterMap_snoc_none rfl, filterMap_snoc_none rfl]
      exact kept.alive
    · rw [filterMap_snoc_none rfl, filterMap_snoc_none rfl]
      exact kept.order
    · intro ending
      exact absurd (kept.ended ending).1 (framedStep_running step)
  | @sent x held running room =>
    have framed : framings (es ++ [.task (.sent x)]) = framings es := filterMap_snoc_none rfl es
    have put := filterMap_snoc_some (f := InboxEvent.put) (l := .task (.sent x)) rfl es
    have released := filterMap_snoc_some (f := InboxEvent.released) (l := .task (.sent x)) rfl es
    have alive := kept.alive room.1
    constructor
    · rw [framed]
      exact kept.framed
    · rw [framed, released, kept.yields, held]
      simp
    · rw [put, released]
      exact alive ▸ List.prefix_refl _
    · rw [put, released, alive]
      exact fun _ => rfl
    · rw [put, filterMap_snoc_none rfl, kept.order]
      exact List.append_assoc _ _ _
    · intro ending
      rw [(kept.ended ending).2] at held
      cases held
  | @dropped x held closed =>
    have framed : framings (es ++ [.task (.dropped x)]) = framings es := filterMap_snoc_none rfl es
    have released := filterMap_snoc_some (f := InboxEvent.released) (l := .task (.dropped x)) rfl es
    constructor
    · rw [framed]
      exact kept.framed
    · rw [framed, released, kept.yields, held]
      simp
    · rw [filterMap_snoc_none rfl, released]
      exact kept.begun.trans (List.prefix_append _ _)
    · intro open_
      exact absurd (closed.symm.trans open_) (by decide)
    · rw [filterMap_snoc_none rfl, filterMap_snoc_none rfl]
      exact kept.order
    · intro ending
      rw [(kept.ended ending).2] at held
      cases held
  | ended done idle =>
    have framed : framings (es ++ [.task .ended]) = framings es := filterMap_snoc_none rfl es
    constructor
    · rw [framed]
      exact kept.framed
    · rw [framed, filterMap_snoc_none rfl]
      exact kept.yields
    · rw [filterMap_snoc_none rfl, filterMap_snoc_none rfl]
      exact kept.begun
    · rw [filterMap_snoc_none rfl, filterMap_snoc_none rfl]
      exact kept.alive
    · rw [filterMap_snoc_none rfl, filterMap_snoc_none rfl]
      exact kept.order
    · exact fun _ => ⟨done, idle⟩

theorem inboxStep_kept {es : List (InboxEvent T)} {s t : Inbox T} {e : InboxEvent T}
    (kept : s.Kept fromRead es) (step : InboxStep fromRead s e t) :
    t.Kept fromRead (es ++ [e]) := by
  cases step with
  | task step => exact readTaskStep_kept kept step
  | taken queue => exact kept.moved ⟨rfl, rfl, rfl⟩ id queue rfl
  | closed => exact kept.moved ⟨rfl, rfl, rfl⟩ (fun gone => by cases gone) rfl rfl

theorem run_kept {es : List (InboxEvent T)} {s : Inbox T} (run : InboxRun fromRead es s) :
    s.Kept fromRead es := by
  refine run_history (fun es s => s.Kept fromRead es) ?_ ?_ run
  · exact ⟨Run.nil _, rfl, List.nil_prefix, fun _ => rfl, rfl, fun ending => by cases ending⟩
  · exact fun es s e t _ kept step => inboxStep_kept kept step

variable {serialize : T → Except String Bytes} {xs : List T} {stream : Bytes}

theorem placed_released {es : List (InboxEvent T)} {s : Inbox T} {d : ReadLoop}
    (kept : s.Kept fromRead es)
    (placed : Placed fromRead serialize xs stream (framings es) s.task.framed d) :
    es.filterMap InboxEvent.released ++ s.task.holding.toList =
        yielded ((framings es).filterMap FramedEvent.reading) ∧
      es.filterMap InboxEvent.released ++ s.task.holding.toList <+: xs := by
  have decoded : es.filterMap InboxEvent.released ++ s.task.holding.toList =
      yielded ((framings es).filterMap FramedEvent.reading) := by
    rw [← kept.yields, placed.yields]
  obtain ⟨rest, done, later, split, -⟩ := placed.reading.halves
  exact ⟨decoded, rest, by rw [decoded, split]⟩

theorem inbox_begins (law : ReadsBack fromRead serialize)
    (sent : encodeAll serialize xs [] = (.ok (), stream)) {es : List (InboxEvent T)} {s : Inbox T}
    (run : InboxRun fromRead es s) (within : arrivedIn (framings es) <+: stream) :
    es.filterMap InboxEvent.received ++ s.channel.queue <+: xs := by
  have kept := run_kept run
  obtain ⟨d, placed⟩ := framed_placed law sent kept.framed within
  rw [← kept.order]
  exact kept.begun.trans ((List.prefix_append _ _).trans (placed_released kept placed).2)

theorem inbox_ended (law : ReadsBack fromRead serialize)
    (sent : encodeAll serialize xs [] = (.ok (), stream)) {es : List (InboxEvent T)} {s : Inbox T}
    (run : InboxRun fromRead es s) (within : arrivedIn (framings es) <+: stream)
    (open_ : s.channel.receiverDropped = false) (ending : s.channel.senderDropped = true) :
    ∃ tail, ReadSoFar serialize xs (arrivedIn (framings es))
        (es.filterMap InboxEvent.received ++ s.channel.queue) tail ∧
      (FramedEvent.endOfFile ∈ framings es →
        (FramedEvent.failed .bytesRemaining ∈ framings es ↔ tail ≠ [])) := by
  have kept := run_kept run
  obtain ⟨d, placed⟩ := framed_placed law sent kept.framed within
  have decoded := (placed_released kept placed).1
  obtain ⟨done, idle⟩ := kept.ended ending
  have stage := placed.stage
  rw [done] at stage
  rw [idle, Option.toList_none, List.append_nil] at decoded
  rw [← kept.order, kept.alive open_, decoded]
  exact ⟨d.src, reading_soFar law placed.reading stage.1, stage.2⟩

/-- However a stream of frames arrives, breaks off and ends, the task decodes no error, and its
    receiver is given the items in order from the first, none missing until it is gone. A task
    that ended with a receiver has put exactly the items whose frames arrived whole, and at the
    end of the stream it reports whether bytes are left. -/
theorem read_task_delivers (law : ReadsBack fromRead serialize)
    (sent : encodeAll serialize xs [] = (.ok (), stream)) {es : List (InboxEvent T)} {s : Inbox T}
    (run : InboxRun fromRead es s) (within : arrivedIn (framings es) <+: stream) :
    (∀ e, FramedEvent.failed (.decoder e) ∉ framings es ∧
      FramedEvent.read (.failed e) ∉ framings es) ∧
    es.filterMap InboxEvent.received ++ s.channel.queue <+: xs ∧
    (s.channel.receiverDropped = false →
      es.filterMap InboxEvent.received ++ s.channel.queue ++ s.task.holding.toList <+: xs ∧
      (s.channel.senderDropped = true → ∃ tail,
        ReadSoFar serialize xs (arrivedIn (framings es))
          (es.filterMap InboxEvent.received ++ s.channel.queue) tail ∧
        (FramedEvent.endOfFile ∈ framings es →
          (FramedEvent.failed .bytesRemaining ∈ framings es ↔ tail ≠ [])))) := by
  have kept := run_kept run
  obtain ⟨d, placed⟩ := framed_placed law sent kept.framed within
  refine ⟨fun e => ⟨placed.noError e, ?_⟩, inbox_begins law sent run within, fun open_ => ⟨?_, ?_⟩⟩
  · intro member
    exact placed.reading.noError e (List.mem_filterMap.mpr ⟨_, member, rfl⟩)
  · rw [← kept.order, kept.alive open_]
    exact (placed_released kept placed).2
  · exact inbox_ended law sent run within open_

theorem inbox_settled (law : ReadsBack fromRead serialize)
    (sent : encodeAll serialize xs [] = (.ok (), stream)) {es : List (InboxEvent T)} {s : Inbox T}
    (run : InboxRun fromRead es s) (arrived : arrivedIn (framings es) = stream) {src : Bytes}
    (waiting : s.task = ⟨.streaming ⟨src, .waiting⟩, none⟩)
    (open_ : s.channel.receiverDropped = false) (taken : s.channel.queue = []) :
    es.filterMap InboxEvent.received = xs := by
  have kept := run_kept run
  obtain ⟨d, placed⟩ := framed_placed law sent kept.framed (arrived ▸ List.prefix_refl _)
  have stage := placed.stage
  have yields := kept.yields
  have order := kept.order
  rw [waiting] at stage yields
  rw [taken, List.append_nil, kept.alive open_] at order
  obtain ⟨rfl, -⟩ := stage
  rw [placed.yields, (reading_complete law placed.reading arrived rfl).1] at yields
  rw [← order, yields]
  exact (List.append_nil _).symm

end Task

theorem broken_stream_reported : ∃ es, ∃ s : Inbox (Command UInt8),
    InboxRun Wire.readCommand es s ∧ FramedEvent.failed .bytesRemaining ∈ framings es ∧
    s.channel.senderDropped = true ∧
    es.filterMap InboxEvent.received ++ s.channel.queue <+: twoCommands := by
  have sent : encodeAll Wire.packCommand twoCommands [] = (.ok (), threeChunks.flatten) := by decide
  let frame : Bytes := [0x81, 0xA9, 83, 117, 98, 115, 99, 114, 105, 98, 101, 0x91, 0xA1, 97]
  have first : Wire.packCommand (.subscribe ['a']) = .ok frame := by decide
  have second : Wire.packCommand (.publish ⟨['a'], 7⟩) =
      .ok ([0x81] ++ [0xA7, 80, 117, 98, 108, 105, 115, 104, 0x91, 0x92, 0xA1, 97, 7]) := by decide
  have yields := decode_frame (readsBack_command.whole _ _ first [0x81])
  have waits := decode_unfinished (readsBack_command.cut _ _ _ second (List.cons_ne_nil _ _))
  have read : InboxRun Wire.readCommand [.task (.framed (.read (.chunk (frame ++ [0x81]))))] _ :=
    run_single (.task (.framed rfl (.read (.chunk _ _))))
  have decoded := Run.snoc read (.task (.framed rfl (.read (.item yields))))
  have put := Run.snoc decoded (.task (.sent rfl rfl ⟨rfl, by decide⟩))
  have starved := Run.snoc put (.task (.framed rfl (.read (.idle waits))))
  have broken := Run.snoc (Run.snoc starved (.task (.framed rfl .endOfFile)))
    (.task (.framed rfl (.leftover waits (List.cons_ne_nil _ _))))
  have run := Run.snoc broken (.task (.ended rfl rfl rfl))
  exact ⟨_, _, run, by decide, rfl, (read_task_delivers readsBack_command sent run (by decide)).2.1⟩

end PubSub
