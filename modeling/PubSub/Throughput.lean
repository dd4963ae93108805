import PubSub.ConnectionCount

/- A throughput: mutators report units, the task adds them up, and the timer logs the sum
   and starts again at nothing. No unit is lost between two logs and none is logged twice. -/
namespace PubSub.Metrics
open Channels LabelledRun
variable {M V : Type}

/-- A metric as the rest of the server sees it: its task and the channel to it. -/
structure Gauge (M V : Type) where
  channel : Mpsc channelBufferSize M
  task : Task V

namespace Gauge

def new (metric : Metric M V) : Gauge M V := ⟨Mpsc.new, .listening metric.new⟩

def report (g : Gauge M V) (message : M) : Gauge M V :=
  { g with channel := g.channel.push message }

end Gauge

inductive GaugeAct (M V : Type) where
  | reported (message : M)
  | task (act : TaskAct M V)

inductive GaugeStep (metric : Metric M V) (g : Gauge M V) : GaugeAct M V → Gauge M V → Prop where
  | reported {message : M} (room : g.channel.HasRoom) :
      GaugeStep metric g (.reported message) (g.report message)
  | task {act : TaskAct M V} {channel : Mpsc channelBufferSize M} {after : Task V}
      (step : TaskStep metric g.channel g.task act channel after) :
      GaugeStep metric g (.task act) ⟨channel, after⟩

abbrev GaugeRun (metric : Metric M V) (acts : List (GaugeAct M V)) (g : Gauge M V) : Prop :=
  Run (GaugeStep metric) (Gauge.new metric) acts g

def GaugeAct.report : GaugeAct M V → Option M
  | .reported message => some message
  | _ => none

def GaugeAct.logs : GaugeAct M V → Option V
  | .task (.logged value) => some value
  | _ => none

def reports (acts : List (GaugeAct M V)) : List M := acts.filterMap GaugeAct.report

def logs (acts : List (GaugeAct M V)) : List V := acts.filterMap GaugeAct.logs

theorem run_listening {metric : Metric M V} {acts : List (GaugeAct M V)} {g : Gauge M V}
    (run : GaugeRun metric acts g) (living : ∀ why, g.task ≠ .panicked why) :
    g.channel.receiverDropped = false := by
  refine run_invariant (fun g : Gauge M V => (∀ why, g.task ≠ .panicked why) →
    g.channel.receiverDropped = false) (fun _ => rfl) ?_ run living
  rintro ⟨channel, task⟩ act t open_ step living
  cases step with
  | reported room => exact open_ living
  | task step =>
    cases step with
    | panicked queue failed => exact absurd rfl (living _)
    | closed queue gone => exact absurd rfl (living _)
    | _ => exact open_ (by simp)

theorem run_within {metric : Metric M V} {acts : List (GaugeAct M V)} {g : Gauge M V}
    (run : GaugeRun metric acts g) : g.channel.queue.length ≤ channelBufferSize := by
  refine run_invariant (fun g : Gauge M V => g.channel.queue.length ≤ channelBufferSize)
    (Nat.zero_le _) ?_ run
  intro g act t within step
  cases step with
  | @reported message room =>
    have one : (g.channel.queue ++ [message]).length = g.channel.queue.length + 1 := by simp
    exact one.trans_le room.2
  | task step =>
    obtain ⟨-, ⟨message, -, queue⟩ | ⟨-, queue⟩⟩ := taskStep_queue step
    · rw [queue, List.length_cons] at within
      exact Nat.le_of_succ_le within
    · exact queue ▸ within

def Gauge.ServeStep (metric : Metric M V) (g : Gauge M V) (act : TaskAct M V) (t : Gauge M V) :
    Prop :=
  TaskStep metric g.channel g.task act t.channel t.task

theorem listening_room {metric : Metric M V} {channel : Mpsc channelBufferSize M} {value : V}
    (open_ : channel.receiverDropped = false)
    (within : channel.queue.length ≤ channelBufferSize)
    (living : ∀ acts t, Run (Gauge.ServeStep metric) ⟨channel, .listening value⟩ acts t →
      acts.length ≤ 1 → ∀ why, t.task ≠ .panicked why) :
    ∃ acts t, acts.length ≤ 1 ∧
      Run (Gauge.ServeStep metric) ⟨channel, .listening value⟩ acts t ∧ t.channel.HasRoom := by
  by_cases room : channel.HasRoom
  · exact ⟨[], _, Nat.zero_le 1, Run.nil _, room⟩
  · cases queue : channel.queue with
    | nil => exact absurd ⟨open_, queue ▸ (by decide : (0 : Nat) < channelBufferSize)⟩ room
    | cons message rest =>
      cases updated : metric.listen value message with
      | error why =>
        have failed : Gauge.ServeStep metric ⟨channel, .listening value⟩ (.received message)
            ⟨{ channel with queue := rest, receiverDropped := true }, .panicked why⟩ :=
          .panicked queue updated
        exact absurd rfl (living _ _ (run_single failed) (Nat.le_refl 1) why)
      | ok after =>
        have taken : Gauge.ServeStep metric ⟨channel, .listening value⟩ (.received message)
            ⟨{ channel with queue := rest }, .listening after⟩ := .received queue updated
        rw [queue, List.length_cons] at within
        exact ⟨[.received message], _, Nat.le_refl 1, run_single taken, open_, within⟩

/-- The task makes room for the next report with at most two steps of its own, wherever the
    timer has interrupted it. -/
theorem gauge_room {metric : Metric M V} {g : Gauge M V}
    (open_ : g.channel.receiverDropped = false)
    (within : g.channel.queue.length ≤ channelBufferSize)
    (living : ∀ acts t, Run (Gauge.ServeStep metric) g acts t → acts.length ≤ 2 →
      ∀ why, t.task ≠ .panicked why) :
    ∃ acts t, acts.length ≤ 2 ∧ Run (Gauge.ServeStep metric) g acts t ∧ t.channel.HasRoom := by
  obtain ⟨channel, task⟩ := g
  cases task with
  | panicked why => exact absurd rfl (living [] _ (Run.nil _) (Nat.zero_le 2) why)
  | listening value =>
    obtain ⟨acts, t, few, run, room⟩ := listening_room open_ within
      fun acts t run few => living acts t run (few.trans (Nat.le_succ 1))
    exact ⟨acts, t, few.trans (Nat.le_succ 1), run, room⟩
  | logging value =>
    have logs : Gauge.ServeStep metric ⟨channel, .logging value⟩ (.logged value)
        ⟨channel, .listening (metric.logMetric value)⟩ := .logged
    obtain ⟨acts, t, few, run, room⟩ := listening_room open_ within
      fun acts t run few => living (.logged value :: acts) t (run_cons logs run)
        (Nat.succ_le_succ few)
    exact ⟨.logged value :: acts, t, Nat.succ_le_succ few, run_cons logs run, room⟩

def ThroughputMutator.increment : UInt64 := 1

namespace Throughput

def increment (value by_ : UInt64) : Except MetricPanic UInt64 :=
  if value.toNat + by_.toNat < 2 ^ 64 then .ok (value + by_) else .error .addOverflow

def reset (_value : UInt64) : UInt64 := 0

def metric : Metric UInt64 UInt64 where
  new := 0
  listen := increment
  logMetric := reset

end Throughput

theorem increment_added {value after : UInt64}
    (updated : Throughput.increment value ThroughputMutator.increment = .ok after) :
    after.toNat = value.toNat + 1 :=
  listen_added updated

theorem increment_failed {value : UInt64} {why : MetricPanic}
    (failed : Throughput.increment value ThroughputMutator.increment = .error why) :
    why = .addOverflow ∧ value.toNat + 1 = 2 ^ 64 :=
  listen_add_failed failed

/-! The books of a throughput. -/

def logged (acts : List (GaugeAct M UInt64)) : Nat := ((logs acts).map UInt64.toNat).sum

@[simp] theorem reports_snoc (acts : List (GaugeAct M V)) (act : GaugeAct M V) :
    reports (acts ++ [act]) = reports acts ++ act.report.toList :=
  filterMap_snoc GaugeAct.report acts act

@[simp] theorem logs_snoc (acts : List (GaugeAct M V)) (act : GaugeAct M V) :
    logs (acts ++ [act]) = logs acts ++ act.logs.toList :=
  filterMap_snoc GaugeAct.logs acts act

theorem logged_snoc (acts : List (GaugeAct M UInt64)) (act : GaugeAct M UInt64) :
    logged (acts ++ [act]) = logged acts + (act.logs.map UInt64.toNat).getD 0 := by
  unfold logged
  rw [logs_snoc]
  cases act.logs <;> simp

/-- A task that lives holds what was reported and neither logged nor waits in the channel;
    one that does not was given more than its value can hold. -/
def Task.Books (total : Nat) : Task UInt64 → Prop
  | .listening value => value.toNat = total
  | .logging value => value.toNat = total
  | .panicked why => why = .addOverflow ∧ 2 ^ 64 ≤ total

structure Booked (acts : List (GaugeAct UInt64 UInt64)) (g : Gauge UInt64 UInt64) : Prop where
  open_ : g.channel.senderDropped = false
  units : ∀ message ∈ g.channel.queue, message = ThroughputMutator.increment
  books : ∃ total, g.task.Books total ∧
    logged acts + total + g.channel.queue.length = (reports acts).length

theorem start_booked : Booked [] (Gauge.new Throughput.metric) :=
  ⟨rfl, nofun, 0, rfl, rfl⟩

theorem reported_booked {acts : List (GaugeAct UInt64 UInt64)} {g : Gauge UInt64 UInt64}
    (booked : Booked acts g) :
    Booked (acts ++ [.reported ThroughputMutator.increment])
      (g.report ThroughputMutator.increment) := by
  obtain ⟨open_, units, total, books, sum⟩ := booked
  refine ⟨open_, ?_, total, books, ?_⟩
  · intro message member
    rcases List.mem_append.mp member with earlier | last
    · exact units message earlier
    · exact List.mem_singleton.mp last
  · rw [logged_snoc, reports_snoc]
    simp only [Gauge.report, Mpsc.push, GaugeAct.logs, GaugeAct.report, Option.map_none,
      Option.getD_none, Option.toList_some, List.length_append, List.length_singleton]
    omega

theorem received_unit {acts : List (GaugeAct UInt64 UInt64)}
    {before : Mpsc channelBufferSize UInt64} {value message : UInt64} {rest : List UInt64}
    (booked : Booked acts ⟨before, .listening value⟩) (queue : before.queue = message :: rest) :
    message = ThroughputMutator.increment ∧
      logged acts + (value.toNat + 1) + rest.length = (reports acts).length := by
  obtain ⟨-, units, total, books, sum⟩ := booked
  change value.toNat = total at books
  change logged acts + total + before.queue.length = (reports acts).length at sum
  rw [queue, List.length_cons] at sum
  exact ⟨units message (queue ▸ List.mem_cons_self), by omega⟩

theorem task_booked {acts : List (GaugeAct UInt64 UInt64)} {g : Gauge UInt64 UInt64}
    {act : TaskAct UInt64 UInt64} {channel : Mpsc channelBufferSize UInt64} {after : Task UInt64}
    (booked : Booked acts g) (step : TaskStep Throughput.metric g.channel g.task act channel after) :
    Booked (acts ++ [.task act]) ⟨channel, after⟩ := by
  obtain ⟨before, task⟩ := g
  have ⟨open_, units, total, books, sum⟩ := booked
  cases step with
  | @received value after message rest queue updated =>
    obtain ⟨rfl, moved⟩ := received_unit booked queue
    have more := increment_added updated
    refine ⟨open_, fun m member => units m ?_, after.toNat, rfl, ?_⟩
    · exact queue ▸ List.mem_cons_of_mem _ member
    · simpa [logged_snoc, GaugeAct.logs, GaugeAct.report, more] using moved
  | @panicked value message rest why queue failed =>
    obtain ⟨rfl, moved⟩ := received_unit booked queue
    obtain ⟨rfl, full⟩ := increment_failed failed
    refine ⟨open_, fun m member => units m ?_, value.toNat + 1, ?_, ?_⟩
    · exact queue ▸ List.mem_cons_of_mem _ member
    · exact ⟨rfl, Nat.le_of_eq full.symm⟩
    · simpa [logged_snoc, GaugeAct.logs, GaugeAct.report] using moved
  | closed queue gone =>
    change before.senderDropped = false at open_
    rw [open_] at gone
    cases gone
  | tick =>
    refine ⟨open_, units, total, books, ?_⟩
    simpa [logged_snoc, GaugeAct.logs, GaugeAct.report] using sum
  | @logged value =>
    -- what was on the books of the value is on those of the log
    change value.toNat = total at books
    refine ⟨open_, units, 0, rfl, ?_⟩
    simpa [logged_snoc, GaugeAct.logs, GaugeAct.report, books] using sum

theorem run_booked {acts : List (GaugeAct UInt64 UInt64)} {g : Gauge UInt64 UInt64}
    (run : GaugeRun Throughput.metric acts g)
    (units : ∀ message ∈ reports acts, message = ThroughputMutator.increment) : Booked acts g := by
  induction run with
  | nil => exact start_booked
  | @snoc m t acts act before last ih =>
    rw [reports_snoc] at units
    have booked := ih fun message member => units message (List.mem_append_left _ member)
    cases last with
    | @reported message room =>
      obtain rfl := units message (List.mem_append_right _ List.mem_cons_self)
      exact reported_booked booked
    | task step => exact task_booked booked step

theorem booked_alive {acts : List (GaugeAct UInt64 UInt64)} {g : Gauge UInt64 UInt64}
    (booked : Booked acts g) (few : (reports acts).length < 2 ^ 64) (why : MetricPanic) :
    g.task ≠ .panicked why := by
  intro at_
  obtain ⟨total, books, sum⟩ := booked.books
  rw [at_] at books
  have full : 2 ^ 64 ≤ total := books.2
  omega

theorem booked_sum {acts : List (GaugeAct UInt64 UInt64)} {g : Gauge UInt64 UInt64}
    (booked : Booked acts g) (living : ∀ why, g.task ≠ .panicked why) :
    ∃ value, g.task.value = some value ∧
      logged acts + value.toNat + g.channel.queue.length = (reports acts).length := by
  obtain ⟨total, books, sum⟩ := booked.books
  cases at_ : g.task with
  | panicked why => exact absurd at_ (living why)
  | listening value =>
    rw [at_] at books
    exact ⟨value, rfl, books ▸ sum⟩
  | logging value =>
    rw [at_] at books
    exact ⟨value, rfl, books ▸ sum⟩

end PubSub.Metrics
