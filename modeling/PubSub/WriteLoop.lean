import PubSub.Codec
import PubSub.Handler

/- The task that writes to a client's socket: it takes messages from the connection's
   outgoing queue into a buffer, which the flush strategy decides when to hand over. -/
namespace PubSub
open Channels LabelledRun

inductive FlushStrategy where
  | immediate
  | periodic (intervalMs : Nat)
  | auto
  deriving DecidableEq, Repr

inductive PerformanceMode where
  | lowLatency
  | balanced
  | highThroughput
  deriving DecidableEq, Repr

structure BufferConfig where
  size : Nat
  flushStrategy : FlushStrategy
  deriving DecidableEq, Repr

def PerformanceMode.toConfig : PerformanceMode → BufferConfig
  | .lowLatency => ⟨4 * 1024, .immediate⟩
  | .balanced => ⟨32 * 1024, .periodic 10⟩
  | .highThroughput => ⟨128 * 1024, .auto⟩

/-- An ordered buffer in front of a socket, which is known by the bytes it was handed. -/
structure BufWriter where
  capacity : Nat
  buffered : Bytes
  socket : Bytes

namespace BufWriter

def withCapacity (size : Nat) : BufWriter := ⟨size, [], []⟩

/-- The bytes are appended and any part of the content, from its front, is handed over. -/
def WriteAll (w : BufWriter) (bytes : Bytes) (after : BufWriter) : Prop :=
  ∃ handed kept, w.buffered ++ bytes = handed ++ kept ∧
    after = { w with buffered := kept, socket := w.socket ++ handed }

def flush (w : BufWriter) : BufWriter :=
  { w with buffered := [], socket := w.socket ++ w.buffered }

def content (w : BufWriter) : Bytes := w.socket ++ w.buffered

theorem writeAll_content {w after : BufWriter} {bytes : Bytes} (written : w.WriteAll bytes after) :
    after.content = w.content ++ bytes := by
  obtain ⟨handed, kept, split, rfl⟩ := written
  rw [content, content, List.append_assoc, List.append_assoc, split]

theorem flush_content (w : BufWriter) : w.flush.content = w.content := by
  simp [content, flush]

end BufWriter

inductive LoopEnd where
  | drained
  | failed
  | panicked
  deriving DecidableEq, Repr

inductive LoopPc where
  | select
  | written
  | flushing
  | ended (how : LoopEnd)
  deriving DecidableEq, Repr

structure WriteLoop where
  outRx : Mpsc channelBufferSize Bytes
  bufWriter : BufWriter
  flushInterval : Option Nat
  pc : LoopPc

namespace WriteLoop

def goto (s : WriteLoop) (pc : LoopPc) : WriteLoop := { s with pc := pc }

def stop (s : WriteLoop) (how : LoopEnd) : WriteLoop :=
  { s with outRx := { s.outRx with receiverDropped := true }, pc := .ended how }

def interval : FlushStrategy → Option Nat
  | .periodic intervalMs => some intervalMs
  | _ => none

/-- An interval of no length panics when it is made. -/
def start (config : BufferConfig) : WriteLoop :=
  let s : WriteLoop := ⟨Mpsc.new, .withCapacity config.size, interval config.flushStrategy, .select⟩
  if config.flushStrategy = .periodic 0 then s.stop .panicked else s

def afterWrite (config : BufferConfig) (s : WriteLoop) : LoopPc :=
  match config.flushStrategy with
  | .immediate => .flushing
  | .auto => if s.outRx.queue = [] then .flushing else .select
  | .periodic _ => .select

end WriteLoop

inductive LoopEvent where
  | enqueue (bytes : Bytes)
  | dropSenders
  | receive (bytes : Bytes)
  | strategy
  | flush
  | tick
  | leave
  | writeFailed (bytes : Bytes)
  | flushFailed
  deriving DecidableEq

inductive LoopStep (config : BufferConfig) (s : WriteLoop) : LoopEvent → WriteLoop → Prop where
  | receive {bytes : Bytes} {rest : List Bytes} {after : BufWriter} (at_ : s.pc = .select)
      (queue : s.outRx.queue = bytes :: rest) (written : s.bufWriter.WriteAll bytes after) :
      LoopStep config s (.receive bytes)
        { s with outRx := { s.outRx with queue := rest }, bufWriter := after, pc := .written }
  | strategy (at_ : s.pc = .written) :
      LoopStep config s .strategy (s.goto (s.afterWrite config))
  | flush (at_ : s.pc = .flushing) :
      LoopStep config s .flush ({ s with bufWriter := s.bufWriter.flush }.goto .select)
  | tick {period : Nat} (at_ : s.pc = .select) (timer : s.flushInterval = some period) :
      LoopStep config s .tick (s.goto .flushing)
  /-- `else`: no message will come any more, and there is no interval to wait for. -/
  | leave (at_ : s.pc = .select) (queue : s.outRx.queue = [])
      (closed : s.outRx.senderDropped = true) (timer : s.flushInterval = none) :
      LoopStep config s .leave (s.stop .drained)

inductive WriteStep (config : BufferConfig) (s : WriteLoop) : LoopEvent → WriteLoop → Prop where
  | loop {e : LoopEvent} {t : WriteLoop} (step : LoopStep config s e t) : WriteStep config s e t
  | enqueue {bytes : Bytes} (open_ : s.outRx.senderDropped = false) (room : s.outRx.HasRoom) :
      WriteStep config s (.enqueue bytes) { s with outRx := s.outRx.push bytes }
  | dropSenders :
      WriteStep config s .dropSenders { s with outRx := { s.outRx with senderDropped := true } }
  | writeFailed {bytes : Bytes} {rest : List Bytes} {after : BufWriter} (at_ : s.pc = .select)
      (queue : s.outRx.queue = bytes :: rest) (written : s.bufWriter.WriteAll bytes after) :
      WriteStep config s (.writeFailed bytes)
        ({ s with outRx := { s.outRx with queue := rest }, bufWriter := after }.stop .failed)
  | flushFailed {after : BufWriter} (at_ : s.pc = .flushing)
      (written : s.bufWriter.WriteAll [] after) :
      WriteStep config s .flushFailed ({ s with bufWriter := after }.stop .failed)

abbrev WriteRun (config : BufferConfig) (es : List LoopEvent) (s : WriteLoop) : Prop :=
  Run (WriteStep config) (WriteLoop.start config) es s

namespace LoopEvent

def fails : LoopEvent → Bool
  | .writeFailed _ | .flushFailed => true
  | _ => false

def enqueued : LoopEvent → Option Bytes
  | .enqueue bytes => some bytes
  | _ => none

def received : LoopEvent → Option Bytes
  | .receive bytes => some bytes
  | _ => none

end LoopEvent

/-- Without a timer nothing stays buffered when there is nothing to wake the loop up. -/
def NothingStranded (s : WriteLoop) : Prop :=
  s.flushInterval = none → s.pc = .select → s.outRx.queue = [] → s.bufWriter.buffered = []

def Finished (s : WriteLoop) : Prop :=
  s.pc = .ended .drained → s.outRx.queue = [] ∧ s.bufWriter.buffered = [] ∧
    s.outRx.receiverDropped = true

/-- What holds in a run up to the first failure. -/
structure Intact (config : BufferConfig) (es : List LoopEvent) (s : WriteLoop) : Prop where
  timer : s.flushInterval = WriteLoop.interval config.flushStrategy
  written : s.bufWriter.content = (es.filterMap LoopEvent.received).flatten
  order : es.filterMap LoopEvent.enqueued = es.filterMap LoopEvent.received ++ s.outRx.queue
  unstranded : NothingStranded s
  finished : Finished s

theorem start_intact (config : BufferConfig) : Intact config [] (WriteLoop.start config) := by
  unfold WriteLoop.start
  split_ifs
  · exact ⟨rfl, rfl, rfl, (fun _ selecting => by cases selecting),
      (fun ended => by cases ended)⟩
  · exact ⟨rfl, rfl, rfl, (fun _ _ _ => rfl), (fun ended => by cases ended)⟩

theorem intact_quiet {config : BufferConfig} {es : List LoopEvent} {s t : WriteLoop}
    {e : LoopEvent} (intact : Intact config es s)
    (quiet : e.received = none ∧ e.enqueued = none) (timer : t.flushInterval = s.flushInterval)
    (content : t.bufWriter.content = s.bufWriter.content)
    (queue : t.outRx.queue = s.outRx.queue) (unstranded : NothingStranded t)
    (finished : Finished t) : Intact config (es ++ [e]) t := by
  refine ⟨timer.trans intact.timer, ?_, ?_, unstranded, finished⟩
  · rw [filterMap_snoc_none quiet.1, content, intact.written]
  · rw [filterMap_snoc_none quiet.1, filterMap_snoc_none quiet.2, queue, intact.order]

theorem loopStep_intact {config : BufferConfig} {es : List LoopEvent} {s t : WriteLoop}
    {e : LoopEvent} (intact : Intact config es s) (step : LoopStep config s e t) :
    Intact config (es ++ [e]) t := by
  cases step with
  | @receive bytes rest after at_ queue wrote =>
    refine ⟨intact.timer, ?_, ?_, (fun _ selecting => by cases selecting),
      (fun ended => by cases ended)⟩
    · rw [filterMap_snoc_some (f := LoopEvent.received) rfl, List.flatten_append,
        ← intact.written]
      simpa using BufWriter.writeAll_content wrote
    · rw [filterMap_snoc_none rfl, filterMap_snoc_some (f := LoopEvent.received) rfl,
        intact.order, queue]
      simp
  | strategy at_ =>
    refine intact_quiet intact ⟨rfl, rfl⟩ rfl rfl rfl ?_ ?_
    · intro untimed selecting empty
      -- back in `select!` at once only with a timer, or under `Auto` with a message waiting
      simp only [WriteLoop.goto, WriteLoop.afterWrite] at untimed selecting empty
      rw [intact.timer] at untimed
      cases strategy : config.flushStrategy with
      | immediate => simp [strategy] at selecting
      | auto => simp [strategy, empty] at selecting
      | periodic intervalMs => simp [strategy, WriteLoop.interval] at untimed
    · intro ended
      simp only [WriteLoop.goto, WriteLoop.afterWrite] at ended
      split at ended
      · cases ended
      · split_ifs at ended
      · cases ended
  | flush at_ =>
    exact intact_quiet intact ⟨rfl, rfl⟩ rfl (BufWriter.flush_content _) rfl (fun _ _ _ => rfl)
      (fun ended => by cases ended)
  | tick at_ timer =>
    exact intact_quiet intact ⟨rfl, rfl⟩ rfl rfl rfl (fun _ selecting => by cases selecting)
      (fun ended => by cases ended)
  | leave at_ queue closed untimed =>
    exact intact_quiet intact ⟨rfl, rfl⟩ rfl rfl rfl (fun _ selecting => by cases selecting)
      (fun _ => ⟨queue, intact.unstranded untimed at_ queue, rfl⟩)

theorem writeStep_intact {config : BufferConfig} {es : List LoopEvent} {s t : WriteLoop}
    {e : LoopEvent} (intact : Intact config es s) (healthy : e.fails = false)
    (step : WriteStep config s e t) : Intact config (es ++ [e]) t := by
  cases step with
  | loop step => exact loopStep_intact intact step
  | @enqueue bytes open_ room =>
    refine ⟨intact.timer, ?_, ?_, ?_, ?_⟩
    · rw [filterMap_snoc_none rfl, intact.written]
    · rw [filterMap_snoc_some (f := LoopEvent.enqueued) rfl, filterMap_snoc_none rfl,
        intact.order]
      simp [Mpsc.push]
    · intro _ _ empty
      simp [Mpsc.push] at empty
    · intro ended
      have dropped := (intact.finished ended).2.2
      rw [room.1] at dropped
      cases dropped
  | dropSenders =>
    exact intact_quiet intact ⟨rfl, rfl⟩ rfl rfl rfl intact.unstranded intact.finished
  | writeFailed => cases healthy
  | flushFailed => cases healthy

theorem run_intact {config : BufferConfig} {es : List LoopEvent} {s : WriteLoop}
    (run : WriteRun config es s) (healthy : ∀ e ∈ es, e.fails = false) : Intact config es s := by
  refine run_history (fun es s => (∀ e ∈ es, e.fails = false) → Intact config es s)
    (fun _ => start_intact config) ?_ run healthy
  intro es s e t _ ih step healthy
  have before := ih fun e member => healthy e (List.mem_append_left _ member)
  exact writeStep_intact before (healthy e (by simp)) step

/-- While no write fails nothing is lost or left behind, whatever the order of events. -/
theorem write_loop_keeps_all {config : BufferConfig} {es : List LoopEvent} {s : WriteLoop}
    (run : WriteRun config es s) (healthy : ∀ e ∈ es, e.fails = false) :
    s.bufWriter.socket ++ s.bufWriter.buffered = (es.filterMap LoopEvent.received).flatten ∧
      es.filterMap LoopEvent.enqueued = es.filterMap LoopEvent.received ++ s.outRx.queue ∧
      (config.flushStrategy = .immediate ∨ config.flushStrategy = .auto →
        s.pc = .select → s.outRx.queue = [] → s.bufWriter.buffered = []) ∧
      (s.pc = .ended .drained →
        s.bufWriter.socket = (es.filterMap LoopEvent.enqueued).flatten) := by
  obtain ⟨timer, written, order, unstranded, finished⟩ := run_intact run healthy
  refine ⟨written, order, ?_, ?_⟩
  · intro strategy
    apply unstranded
    rw [timer]
    rcases strategy with strategy | strategy <;> rw [strategy] <;> rfl
  · intro ended
    obtain ⟨empty, handed, -⟩ := finished ended
    rw [order, empty, List.append_nil, ← written, BufWriter.content, handed, List.append_nil]

theorem closed_loop_drains :
    ∃ es s, WriteRun PerformanceMode.highThroughput.toConfig es s ∧ s.pc = .ended .drained ∧
      s.bufWriter.socket = (es.filterMap LoopEvent.enqueued).flatten := by
  have enqueued := Run.snoc (Run.nil (WriteLoop.start PerformanceMode.highThroughput.toConfig))
    (@WriteStep.enqueue PerformanceMode.highThroughput.toConfig _ [1, 2] rfl ⟨rfl, by decide⟩)
  have received := Run.snoc enqueued (.loop (.receive rfl rfl ⟨[], _, rfl, rfl⟩))
  have flushed := Run.snoc (Run.snoc received (.loop (.strategy rfl))) (.loop (.flush rfl))
  have run := Run.snoc (Run.snoc flushed .dropSenders) (.loop (.leave rfl rfl rfl rfl))
  exact ⟨_, _, run, rfl, (write_loop_keeps_all run (by decide)).2.2.2 rfl⟩

/-! The loop and the connection whose queue it empties. -/

def Listening (s : WriteLoop) : Prop :=
  (∀ how, s.pc ≠ .ended how) → s.outRx.receiverDropped = false

theorem writeStep_listening {config : BufferConfig} {s t : WriteLoop} {e : LoopEvent}
    (listening : Listening s) (step : WriteStep config s e t) : Listening t := by
  intro running
  cases step with
  | loop step =>
    cases step with
    | leave => exact absurd rfl (running .drained)
    | receive at_ => exact listening fun how ended => by rw [at_] at ended; cases ended
    | strategy at_ => exact listening fun how ended => by rw [at_] at ended; cases ended
    | flush at_ => exact listening fun how ended => by rw [at_] at ended; cases ended
    | tick at_ => exact listening fun how ended => by rw [at_] at ended; cases ended
  | enqueue open_ room => exact room.1
  | dropSenders => exact listening running
  | writeFailed => exact absurd rfl (running .failed)
  | flushFailed => exact absurd rfl (running .failed)

theorem run_listening {config : BufferConfig} {es : List LoopEvent} {s : WriteLoop}
    (run : WriteRun config es s) : Listening s := by
  refine run_invariant Listening ?_ (fun _ _ _ h step => writeStep_listening h step) run
  unfold WriteLoop.start
  split_ifs
  · exact fun running => absurd rfl (running .panicked)
  · exact fun _ => rfl

def LoopEvent.dequeued : LoopEvent → Option Bytes
  | .receive bytes => some bytes
  | .writeFailed bytes => some bytes
  | _ => none

theorem writeStep_written {config : BufferConfig} {es : List LoopEvent} {s t : WriteLoop}
    {e : LoopEvent} (step : WriteStep config s e t)
    (written : s.bufWriter.content = (es.filterMap LoopEvent.dequeued).flatten)
    (order : es.filterMap LoopEvent.enqueued = es.filterMap LoopEvent.dequeued ++ s.outRx.queue) :
    t.bufWriter.content = ((es ++ [e]).filterMap LoopEvent.dequeued).flatten ∧
      (es ++ [e]).filterMap LoopEvent.enqueued =
        (es ++ [e]).filterMap LoopEvent.dequeued ++ t.outRx.queue := by
  have taken : ∀ {bytes rest after}, e.dequeued = some bytes → e.enqueued = none →
      s.outRx.queue = bytes :: rest → s.bufWriter.WriteAll bytes after →
      after.content = ((es ++ [e]).filterMap LoopEvent.dequeued).flatten ∧
        (es ++ [e]).filterMap LoopEvent.enqueued =
          (es ++ [e]).filterMap LoopEvent.dequeued ++ rest := by
    intro bytes rest after out kept queue wrote
    rw [filterMap_snoc_some out, filterMap_snoc_none kept, order, queue,
      BufWriter.writeAll_content wrote, written]
    simp
  have quiet : ∀ {w : BufWriter}, e.dequeued = none → e.enqueued = none →
      w.content = s.bufWriter.content →
      w.content = ((es ++ [e]).filterMap LoopEvent.dequeued).flatten ∧
        (es ++ [e]).filterMap LoopEvent.enqueued =
          (es ++ [e]).filterMap LoopEvent.dequeued ++ s.outRx.queue := by
    intro w out kept same
    rw [filterMap_snoc_none out, filterMap_snoc_none kept, same]
    exact ⟨written, order⟩
  cases step with
  | loop step =>
    cases step with
    | receive at_ queue wrote => exact taken rfl rfl queue wrote
    | strategy => exact quiet rfl rfl rfl
    | flush => exact quiet rfl rfl (BufWriter.flush_content _)
    | tick => exact quiet rfl rfl rfl
    | leave => exact quiet rfl rfl rfl
  | enqueue open_ room =>
    rw [filterMap_snoc_none rfl, filterMap_snoc_some (f := LoopEvent.enqueued) rfl, order]
    exact ⟨written, List.append_assoc _ _ _⟩
  | dropSenders => exact quiet rfl rfl rfl
  | writeFailed at_ queue wrote => exact taken rfl rfl queue wrote
  | flushFailed at_ wrote =>
    exact quiet rfl rfl ((BufWriter.writeAll_content wrote).trans (List.append_nil _))

theorem run_written {config : BufferConfig} {es : List LoopEvent} {s : WriteLoop}
    (run : WriteRun config es s) :
    s.bufWriter.content = (es.filterMap LoopEvent.dequeued).flatten ∧
      es.filterMap LoopEvent.enqueued = es.filterMap LoopEvent.dequeued ++ s.outRx.queue := by
  refine run_history (fun es s => s.bufWriter.content = (es.filterMap LoopEvent.dequeued).flatten ∧
    es.filterMap LoopEvent.enqueued = es.filterMap LoopEvent.dequeued ++ s.outRx.queue) ?_ ?_ run
  · exact ⟨(start_intact config).written, (start_intact config).order⟩
  · exact fun es s e t _ before step => writeStep_written step before.1 before.2

def LoopEvent.acts {V : Type} : LoopEvent → List (Act V Bytes)
  | .receive bytes => [.dequeue bytes]
  | .writeFailed bytes => [.dequeue bytes, .writerStopped]
  | .leave | .flushFailed => [.writerStopped]
  | _ => []

theorem writeStep_adapter {V : Type} {config : BufferConfig} {es : List LoopEvent}
    {s t : WriteLoop} {e : LoopEvent} (run : WriteRun config es s) (step : WriteStep config s e t)
    (own : e.enqueued = none ∧ e ≠ .dropSenders) {h : ConnectionHandler V Bytes}
    (shared : h.adapterSender = s.outRx) :
    Run AdapterStep h e.acts { h with adapterSender := t.outRx } := by
  have listening := run_listening run
  obtain ⟨adapterSender, adapterReceiver, topicStreams, topicEvents, subscriptions, pc⟩ := h
  obtain rfl : adapterSender = s.outRx := shared
  have open_ : ∀ at_, s.pc = at_ → (∀ how, at_ ≠ .ended how) → s.outRx.receiverDropped = false := by
    rintro at_ rfl running
    exact listening running
  cases step with
  | loop step =>
    cases step with
    | @receive bytes rest after at_ queue wrote =>
      exact run_single (.dequeue (open_ _ at_ nofun) queue)
    | leave at_ queue closed timer => exact run_single .writerStopped
    | strategy at_ => exact Run.nil _
    | flush at_ => exact Run.nil _
    | tick at_ timer => exact Run.nil _
  | enqueue => cases own.1
  | dropSenders => exact absurd rfl own.2
  | @writeFailed bytes rest after at_ queue wrote =>
    have taken := AdapterStep.dequeue (h := ⟨s.outRx, adapterReceiver, topicStreams, topicEvents,
      subscriptions, pc⟩) (open_ _ at_ nofun) queue
    exact run_cons taken (run_single .writerStopped)
  | flushFailed at_ wrote => exact run_single .writerStopped

end PubSub
