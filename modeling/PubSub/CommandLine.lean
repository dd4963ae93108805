import PubSub.EndToEnd

/- What the arguments of the `server` command are to the clients: the configuration of the
   buffers they select, and those under which no client is ever answered. That a buffer of the
   size asked for can be had is taken for granted. A build with overflow checks panics where
   the size is no `usize`; one without them, as a release build is, wraps. -/
namespace PubSub
open Channels LabelledRun
variable {ring : Ring} {V : Type} {format : Format V}

namespace BufferConfig

def lowLatency : BufferConfig := PerformanceMode.lowLatency.toConfig

def balanced : BufferConfig := PerformanceMode.balanced.toConfig

def highThroughput : BufferConfig := PerformanceMode.highThroughput.toConfig

def custom (size : Nat) (flushStrategy : FlushStrategy) : BufferConfig := ⟨size, flushStrategy⟩

def default : BufferConfig := balanced

end BufferConfig

structure ServerArgs where
  mode : Option Str
  /-- In kilobytes. -/
  bufferSize : Option Nat
  flushStrategy : Option Str
  /-- In milliseconds, 10 where it is not given. -/
  flushInterval : Nat

/-- `to_lowercase`; no letter outside of ASCII becomes one of a word that is looked for. -/
def toLowercase (s : Str) : Str := s.map Char.toLower

def ServerArgs.strategy (args : ServerArgs) : FlushStrategy :=
  match args.flushStrategy with
  | some word =>
    if toLowercase word = "immediate".toList then .immediate
    else if toLowercase word = "auto".toList then .auto
    else if toLowercase word = "periodic".toList then .periodic args.flushInterval
    else .auto
  | none => .auto

/-- `buffer_size.map(|kb| kb * 1024)` -/
def ServerArgs.size (overflowChecks : Bool) (args : ServerArgs) : Option Nat :=
  match args.bufferSize with
  | some kb =>
    if overflowChecks ∧ 2 ^ 64 ≤ kb * 1024 then none else some (kb * 1024 % 2 ^ 64)
  | none => some (32 * 1024)

def ServerArgs.bufferConfig (overflowChecks : Bool) (args : ServerArgs) : Option BufferConfig :=
  match args.mode with
  | some word =>
    if toLowercase word ∈ ["low-latency".toList, "lowlatency".toList] then some .lowLatency
    else if toLowercase word = "balanced".toList then some .balanced
    else if toLowercase word ∈ ["high-throughput".toList, "highthroughput".toList] then
      some .highThroughput
    else some .balanced
  | none =>
    if args.bufferSize.isSome || args.flushStrategy.isSome then do
      let size ← args.size overflowChecks
      return .custom size args.strategy
    else some .default

def ServerArgs.Mute (args : ServerArgs) : Prop :=
  args.mode = none ∧ args.flushInterval = 0 ∧
    ∃ word ∈ args.flushStrategy, toLowercase word = "periodic".toList

theorem strategy_mute_iff (args : ServerArgs) :
    args.strategy = .periodic 0 ↔ args.flushInterval = 0 ∧
      ∃ word ∈ args.flushStrategy, toLowercase word = "periodic".toList := by
  unfold ServerArgs.strategy
  cases args.flushStrategy with
  | none => simp
  | some word =>
    have one : (∃ w ∈ some word, toLowercase w = "periodic".toList) ↔
        toLowercase word = "periodic".toList := by simp
    rw [one]
    simp only
    split_ifs with immediate auto periodic
    · simp [immediate]
    · simp [auto]
    · simp [periodic]
    · simpa using fun _ => periodic

theorem mode_timed (args : ServerArgs) {overflowChecks : Bool} {config : BufferConfig} {word : Str}
    (given : args.mode = some word) (chosen : args.bufferConfig overflowChecks = some config) :
    config.flushStrategy ≠ .periodic 0 := by
  unfold ServerArgs.bufferConfig at chosen
  rw [given] at chosen
  simp only at chosen
  split_ifs at chosen <;> cases chosen <;> decide

theorem mute_iff {args : ServerArgs} {overflowChecks : Bool} {config : BufferConfig}
    (chosen : args.bufferConfig overflowChecks = some config) :
    config.flushStrategy = .periodic 0 ↔ args.Mute := by
  unfold ServerArgs.Mute
  cases given : args.mode with
  | some word => simp [mode_timed args given chosen]
  | none =>
    rw [← strategy_mute_iff]
    unfold ServerArgs.bufferConfig at chosen
    rw [given] at chosen
    simp only at chosen
    split_ifs at chosen with custom
    · cases sized : args.size overflowChecks with
      | none => simp [sized] at chosen
      | some size =>
        simp only [sized, Option.bind_eq_bind, Option.bind_some, pure, Option.some.injEq] at chosen
        simp [← chosen, BufferConfig.custom]
    · cases chosen
      have unnamed : args.flushStrategy = none := by
        cases here : args.flushStrategy <;> simp_all
      have auto : args.strategy = .auto := by
        unfold ServerArgs.strategy
        rw [unnamed]
      rw [auto]
      decide

/-! The tasks that write to the clients. -/

theorem mute_enqueues {config : BufferConfig} (mute : config.flushStrategy = .periodic 0)
    {es : List LoopEvent} {s : WriteLoop} (run : WriteRun config es s) :
    es.filterMap LoopEvent.enqueued = [] := by
  have gone : s.outRx.receiverDropped = true ∧ (∃ how, s.pc = .ended how) ∧
      es.filterMap LoopEvent.enqueued = [] := by
    refine run_history (fun es s => s.outRx.receiverDropped = true ∧ (∃ how, s.pc = .ended how) ∧
      es.filterMap LoopEvent.enqueued = []) ?_ ?_ run
    · unfold WriteLoop.start
      rw [if_pos mute]
      exact ⟨rfl, ⟨_, rfl⟩, rfl⟩
    · rintro es s e t - ⟨dropped, ⟨how, ended⟩, nothing⟩ step
      cases step with
      | loop step => cases step <;> simp_all
      | enqueue open_ room =>
        rw [room.1] at dropped
        cases dropped
      | dropSenders => exact ⟨dropped, ⟨how, ended⟩, by simp [nothing, LoopEvent.enqueued]⟩
      | writeFailed at_ => simp_all
      | flushFailed at_ => simp_all
  exact gone.2.2

theorem mute_outgoing {config : BufferConfig} (mute : config.flushStrategy = .periodic 0)
    {ls : List (SystemLabel V)} {s : System ring V} (run : SystemRun format config ls s) (c : Nat) :
    outgoingTo c ls = [] := by
  unfold outgoingTo
  rcases system_session run c with ⟨-, nothing⟩ | ⟨k, found, -⟩
  · rw [nothing]
    rfl
  · have kept := system_kept run found
    rw [← kept.outgoing]
    exact mute_enqueues mute kept.loop

structure Sendable (format : Format V) (message : Message V) (pattern : Str)
    (publish subscribe bytes : Bytes) : Prop where
  packed : format.packMessage message = .ok bytes
  published : format.packCommand (.publish message) = .ok publish
  subscribed : format.packCommand (.subscribe pattern) = .ok subscribe
  matched : GlobMatch pattern (asBytes message.topic)

theorem timed_answers {config : BufferConfig} (ring : Ring)
    (timed : config.flushStrategy ≠ .periodic 0) {message : Message V} {pattern : Str}
    {publish subscribe bytes : Bytes}
    (sendable : Sendable format message pattern publish subscribe bytes) :
    ∃ (ls : List (SystemLabel V)) (s : System ring V), SystemRun format config ls s ∧
      receivedBy 0 ls = [message] := by
  have opening := alone_opening ring timed sendable.packed sendable.published sendable.subscribed
  have closing : Run (SystemStep format config) _ _ _ :=
    alone_closing ring sendable.packed sendable.matched (publish ++ subscribe)
  refine ⟨_, _, run_append opening closing, ?_⟩
  unfold aloneClosing echoClosing writtenEvents
  cases config.flushStrategy <;> rfl

/-- The arguments under which no client is ever answered are those that ask for a periodic flush
    every 0 milliseconds without naming a mode: every task that writes to a client panics when it
    makes its interval, and the server goes on without. -/
theorem never_answered_iff {args : ServerArgs} {overflowChecks : Bool} {config : BufferConfig}
    (chosen : args.bufferConfig overflowChecks = some config) {message : Message V} {pattern : Str}
    {publish subscribe bytes : Bytes}
    (sendable : Sendable format message pattern publish subscribe bytes) :
    (∀ (ls : List (SystemLabel V)) (s : System ring V),
      SystemRun format config ls s → ∀ c, receivedBy c ls = []) ↔ args.Mute := by
  rw [← mute_iff chosen]
  constructor
  · intro silent
    by_contra timed
    obtain ⟨ls, s, run, answered⟩ := timed_answers ring timed sendable
    rw [silent ls s run 0] at answered
    cases answered
  · intro mute ls s run c
    have nothing : messagesTo format c ls = [] := by
      unfold messagesTo
      rw [mute_outgoing mute run]
      rfl
    exact List.prefix_nil.mp (nothing ▸ received_sent run c)

def zeroInterval : ServerArgs := ⟨none, none, some "Periodic".toList, 0⟩

theorem zero_interval_mute :
    zeroInterval.bufferConfig false = some ⟨32 * 1024, .periodic 0⟩ ∧
    ∀ (ls : List (SystemLabel UInt8)) (s : System wideRing UInt8),
      SystemRun Wire.format ⟨32 * 1024, .periodic 0⟩ ls s → ∀ c, receivedBy c ls = [] := by
  have chosen : zeroInterval.bufferConfig false = some ⟨32 * 1024, .periodic 0⟩ := by decide
  exact ⟨chosen, (never_answered_iff chosen
    ⟨echo_packed, echo_publishes, echo_subscribes, echo_matches⟩).mpr
      ⟨rfl, rfl, "Periodic".toList, rfl, by decide⟩⟩

end PubSub
