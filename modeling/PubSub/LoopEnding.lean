import PubSub.WriteLoop

/- When the write loop ends once its senders are gone: the `else` branch needs every other
   branch off, and a timer is never off. -/
namespace PubSub
open Channels LabelledRun

def LoopEvent.turns : LoopEvent → Nat
  | .receive _ | .tick | .leave => 1
  | _ => 0

namespace WriteLoop

def Broken (s : WriteLoop) : Prop := s.pc = .ended .drained ∨ s.pc = .ended .failed

/-- Whatever the task does, it executes `break` within `n` more turns. -/
def BreaksWithin (config : BufferConfig) (n : Nat) (s : WriteLoop) : Prop :=
  EndsWithin (LoopStep config) LoopEvent.turns Broken n s

/-- From every state without senders the loop ends, after its queue and some more turns. -/
def EndsWithConnection (config : BufferConfig) : Prop :=
  ∃ ticks, ∀ es s, WriteRun config es s → s.outRx.senderDropped = true →
    BreaksWithin config (s.outRx.queue.length + ticks) s

def rank (s : WriteLoop) : Nat :=
  3 * s.outRx.queue.length +
    match s.pc with
    | .select => 1
    | .flushing => 2
    | .written => 3
    | .ended _ => 0

def budget (s : WriteLoop) : Nat :=
  s.outRx.queue.length +
    match s.pc with
    | .ended _ => 0
    | _ => 1

structure Closing (s : WriteLoop) : Prop where
  closed : s.outRx.senderDropped = true
  untimed : s.flushInterval = none
  sound : s.pc ≠ .ended .panicked

theorem closing_able {config : BufferConfig} {s : WriteLoop} (closing : Closing s) :
    Broken s ∨ ∃ e t, LoopStep config s e t := by
  obtain ⟨closed, untimed, sound⟩ := closing
  cases at_ : s.pc with
  | select =>
    apply Or.inr
    cases queue : s.outRx.queue with
    | nil => exact ⟨_, _, .leave at_ queue closed untimed⟩
    | cons bytes rest =>
      exact ⟨_, _, .receive at_ queue ⟨[], s.bufWriter.buffered ++ bytes, rfl, rfl⟩⟩
  | written => exact Or.inr ⟨_, _, .strategy at_⟩
  | flushing => exact Or.inr ⟨_, _, .flush at_⟩
  | ended how =>
    cases how with
    | drained => exact Or.inl (Or.inl at_)
    | failed => exact Or.inl (Or.inr at_)
    | panicked => exact absurd at_ sound

theorem afterWrite_cases (config : BufferConfig) (s : WriteLoop) :
    s.afterWrite config = .flushing ∨ s.afterWrite config = .select := by
  unfold afterWrite
  split
  · exact Or.inl rfl
  · split_ifs
    · exact Or.inl rfl
    · exact Or.inr rfl
  · exact Or.inr rfl

theorem closing_step {config : BufferConfig} {s t : WriteLoop} {e : LoopEvent}
    (closing : Closing s) (step : LoopStep config s e t) :
    Closing t ∧ t.rank < s.rank ∧ e.turns + t.budget ≤ s.budget := by
  obtain ⟨closed, untimed, sound⟩ := closing
  cases step with
  | receive at_ queue written =>
    refine ⟨⟨closed, untimed, by simp⟩, ?_, ?_⟩
    · simp only [rank, queue, at_, List.length_cons]
      omega
    · simp only [budget, queue, at_, List.length_cons, LoopEvent.turns]
      omega
  | strategy at_ =>
    have next := afterWrite_cases config s
    refine ⟨⟨closed, untimed, ?_⟩, ?_, ?_⟩
    · rcases next with next | next <;> simp [goto, next]
    · rcases next with next | next <;> simp only [rank, goto, next, at_] <;> omega
    · rcases next with next | next <;>
        simp only [budget, goto, next, at_, LoopEvent.turns] <;> omega
  | flush at_ =>
    refine ⟨⟨closed, untimed, by simp [goto]⟩, ?_, ?_⟩
    · simp only [rank, goto, at_]
      omega
    · simp only [budget, goto, at_, LoopEvent.turns]
      omega
  | tick at_ timer =>
    rw [untimed] at timer
    cases timer
  | leave at_ queue closed timer =>
    refine ⟨⟨closed, untimed, by simp [stop]⟩, ?_, ?_⟩
    · simp [rank, stop, at_]
    · simp only [budget, stop, at_, LoopEvent.turns]
      omega

theorem closing_breaks (config : BufferConfig) {s : WriteLoop} (closing : Closing s) :
    BreaksWithin config s.budget s :=
  endsWithin_of_rank Closing rank budget (fun _ closing => closing_able closing)
    (fun _ _ _ closing step => (closing_step closing step).1)
    (fun _ _ _ closing step => (closing_step closing step).2.1)
    (fun _ _ _ closing step => (closing_step closing step).2.2) closing

structure Ticking (s : WriteLoop) : Prop where
  timed : s.flushInterval ≠ none
  running : ∀ how, s.pc ≠ .ended how

theorem ticking_stays {config : BufferConfig} {s : WriteLoop} (ticking : Ticking s) :
    ∃ e t, LoopStep config s e t ∧ Ticking t := by
  obtain ⟨timed, running⟩ := ticking
  cases at_ : s.pc with
  | select =>
    obtain ⟨period, timer⟩ := Option.ne_none_iff_exists'.mp timed
    exact ⟨_, _, .tick at_ timer, timed, by simp [goto]⟩
  | written =>
    refine ⟨_, _, .strategy at_, timed, ?_⟩
    rcases afterWrite_cases config s with next | next <;> simp [goto, next]
  | flushing => exact ⟨_, _, .flush at_, timed, by simp [goto]⟩
  | ended how => exact absurd at_ (running how)

theorem ticking_never_breaks (config : BufferConfig) (n : Nat) {s : WriteLoop}
    (ticking : Ticking s) : ¬ BreaksWithin config n s := by
  refine not_endsWithin_of_trap Ticking ?_ (fun _ ticking => ticking_stays ticking) ticking
  rintro s ⟨timed, running⟩ (drained | failed)
  · exact running _ drained
  · exact running _ failed

end WriteLoop

structure Steady (config : BufferConfig) (s : WriteLoop) : Prop where
  timer : s.flushInterval = WriteLoop.interval config.flushStrategy
  sound : config.flushStrategy ≠ .periodic 0 → s.pc ≠ .ended .panicked

theorem run_steady {config : BufferConfig} {es : List LoopEvent} {s : WriteLoop}
    (run : WriteRun config es s) : Steady config s := by
  refine run_invariant (Steady config) ?_ ?_ run
  · unfold WriteLoop.start
    split_ifs with immediate
    · exact ⟨rfl, fun positive => absurd immediate positive⟩
    · exact ⟨rfl, fun _ => nofun⟩
  · rintro s e t ⟨timer, sound⟩ step
    cases step with
    | loop step =>
      cases step with
      | strategy at_ =>
        refine ⟨timer, fun _ => ?_⟩
        rcases s.afterWrite_cases config with next | next <;> simp [WriteLoop.goto, next]
      | _ => exact ⟨timer, fun _ => by simp [WriteLoop.goto, WriteLoop.stop]⟩
    | enqueue => exact ⟨timer, sound⟩
    | dropSenders => exact ⟨timer, sound⟩
    | _ => exact ⟨timer, fun _ => by simp [WriteLoop.stop]⟩

theorem interval_none_iff (strategy : FlushStrategy) :
    WriteLoop.interval strategy = none ↔ ∀ intervalMs, strategy ≠ .periodic intervalMs := by
  cases strategy <;> simp [WriteLoop.interval]

/-- The loop ends with its connection exactly when no timer drives it, and with one it has to
    end at no moment before it is broken by an error. -/
theorem ends_with_connection_iff {config : BufferConfig}
    (positive : config.flushStrategy ≠ .periodic 0) :
    (WriteLoop.EndsWithConnection config ↔
      ∀ intervalMs, config.flushStrategy ≠ .periodic intervalMs) ∧
    ∀ intervalMs, config.flushStrategy = .periodic intervalMs →
      ∀ es s, WriteRun config es s → ¬ s.Broken → ∀ n, ¬ s.BreaksWithin config n := by
  have never : ∀ intervalMs, config.flushStrategy = .periodic intervalMs →
      ∀ es s, WriteRun config es s → ¬ s.Broken → ∀ n, ¬ s.BreaksWithin config n := by
    intro intervalMs periodic es s run running n
    obtain ⟨timer, sound⟩ := run_steady run
    refine WriteLoop.ticking_never_breaks config n ⟨?_, ?_⟩
    · rw [timer, periodic]
      nofun
    · rintro (_ | _ | _) ended
      · exact running (Or.inl ended)
      · exact running (Or.inr ended)
      · exact sound positive ended
  refine ⟨⟨?_, ?_⟩, never⟩
  · rintro ⟨ticks, ends⟩ intervalMs periodic
    have run : WriteRun config [.dropSenders] _ := run_single .dropSenders
    refine never intervalMs periodic _ _ run ?_ _ (ends _ _ run rfl)
    have at_ : (WriteLoop.start config).pc = .select := by simp [WriteLoop.start, positive]
    rintro (ended | ended) <;> exact absurd (at_.symm.trans ended) nofun
  · intro untimed
    refine ⟨1, fun es s run closed => ?_⟩
    obtain ⟨timer, sound⟩ := run_steady run
    rw [← interval_none_iff, ← timer] at untimed
    apply endsWithin_mono (WriteLoop.closing_breaks config ⟨closed, untimed, sound positive⟩)
    unfold WriteLoop.budget
    split <;> omega

theorem lowLatency_ends : WriteLoop.EndsWithConnection PerformanceMode.lowLatency.toConfig :=
  (ends_with_connection_iff (by decide)).1.mpr fun _ => nofun

/-- The default mode keeps ticking. -/
theorem balanced_never_ends :
    ¬ ∀ config : BufferConfig, config.flushStrategy ≠ .periodic 0 →
      WriteLoop.EndsWithConnection config := by
  intro law
  obtain ⟨ticks, ends⟩ := law PerformanceMode.balanced.toConfig (by decide)
  have run : WriteRun PerformanceMode.balanced.toConfig [.dropSenders] _ :=
    run_single .dropSenders
  refine WriteLoop.ticking_never_breaks _ _ ⟨?_, ?_⟩ (ends _ _ run rfl)
  · exact nofun
  · exact fun how => nofun

end PubSub
