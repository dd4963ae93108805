import PubSub.BrokerCalls
import PubSub.Throughput

/- The server with its metrics. The `run` of a connection reports to three tasks and waits
   for each report to be taken into its channel: when it begins and ends, between a command
   and its handling, and in front of every message it forwards. -/
namespace PubSub
open Channels LabelledRun Metrics
variable {ring : Ring} {V B : Type} {encode : Message V → Option B}

inductive Leaving where
  | disconnected
  | forwardFailed
  deriving DecidableEq

/-- What `run` awaits outside of its handler; one that panicked had been added or not. -/
inductive Awaits where
  | add
  | nothing
  | commandCounted
  | messageCounted
  | subtract (why : Leaving)
  | returned (why : Leaving)
  | panicked (added : Bool)
  deriving DecidableEq

structure Running (V B : Type) where
  handler : ConnectionHandler V B
  awaits : Awaits

structure Server (ring : Ring) (V B : Type) where
  bus : Bus ring B
  connections : List (Running V B)
  commandThroughput : Gauge UInt64 UInt64
  connectionCount : Gauge Int64 UInt64
  messagesSent : Gauge UInt64 UInt64

namespace Server

def new : Server ring V B where
  bus := Bus.new
  connections := []
  commandThroughput := Gauge.new Throughput.metric
  connectionCount := Gauge.new Count.metric
  messagesSent := Gauge.new Throughput.metric

def put (s : Server ring V B) (c : Nat) (k : Running V B) : Server ring V B :=
  { s with connections := s.connections.set c k }

end Server

def Leaving.act : Leaving → Act V B
  | .disconnected => .disconnect
  | .forwardFailed => .forwardFailed

def Act.leaving : Act V B → Option Leaving
  | .disconnect => some .disconnected
  | .forwardFailed => some .forwardFailed
  | _ => none

def Act.reports : Act V B → Awaits
  | .takeCommand _ => .commandCounted
  | .readItem _ => .messageCounted
  | .panicked => .panicked true
  | _ => .nothing

inductive ServerAct (V B : Type) where
  | accept (c : Nat)
  | added (c : Nat)
  | connection (c : Nat) (act : Act V B)
  | commandCounted (c : Nat)
  | messageCounted (c : Nat)
  | left (c : Nat) (why : Leaving)
  | subtracted (c : Nat) (why : Leaving)
  | metricGone (c : Nat)
  | commandTask (act : TaskAct UInt64 UInt64)
  | connectionTask (act : TaskAct Int64 UInt64)
  | messageTask (act : TaskAct UInt64 UInt64)

/-- The metric that a connection awaits is gone, and `expect` panics. -/
def Server.Gone (s : Server ring V B) : Awaits → Prop
  | .add | .subtract _ => s.connectionCount.channel.receiverDropped = true
  | .commandCounted => s.commandThroughput.channel.receiverDropped = true
  | .messageCounted => s.messagesSent.channel.receiverDropped = true
  | _ => False

/-- Of several connections that wait for a place in a channel any may have the next one here; the
    channel itself serves them in the order in which they came. -/
inductive ServerStep (encode : Message V → Option B) (s : Server ring V B) :
    ServerAct V B → Server ring V B → Prop where
  | accept : ServerStep encode s (.accept s.connections.length)
      { s with connections := s.connections ++ [⟨ConnectionHandler.new s.bus, .add⟩] }
  | added {c : Nat} {k : Running V B} {message : Int64} (found : s.connections[c]? = some k)
      (at_ : k.awaits = .add) (reported : CountMutator.add 1 = .ok message)
      (room : s.connectionCount.channel.HasRoom) :
      ServerStep encode s (.added c)
        { s.put c { k with awaits := .nothing } with
          connectionCount := s.connectionCount.report message }
  | adapter {c : Nat} {k : Running V B} {a : Act V B} {after : ConnectionHandler V B}
      (found : s.connections[c]? = some k) (step : AdapterStep k.handler a after) :
      ServerStep encode s (.connection c a) (s.put c { k with handler := after })
  | handler {c : Nat} {k : Running V B} {a : Act V B} {bus : Bus ring B}
      {after : ConnectionHandler V B} (found : s.connections[c]? = some k)
      (at_ : k.awaits = .nothing) (stays : a.leaving = none)
      (step : HandlerStep encode s.bus k.handler a bus after) :
      ServerStep encode s (.connection c a) { s.put c ⟨after, a.reports⟩ with bus := bus }
  | commandCounted {c : Nat} {k : Running V B} (found : s.connections[c]? = some k)
      (at_ : k.awaits = .commandCounted) (room : s.commandThroughput.channel.HasRoom) :
      ServerStep encode s (.commandCounted c)
        { s.put c { k with awaits := .nothing } with
          commandThroughput := s.commandThroughput.report ThroughputMutator.increment }
  | messageCounted {c : Nat} {k : Running V B} (found : s.connections[c]? = some k)
      (at_ : k.awaits = .messageCounted) (room : s.messagesSent.channel.HasRoom) :
      ServerStep encode s (.messageCounted c)
        { s.put c { k with awaits := .nothing } with
          messagesSent := s.messagesSent.report ThroughputMutator.increment }
  /-- The handler is not dropped before the count is reported. -/
  | left {c : Nat} {k : Running V B} {a : Act V B} {why : Leaving} {bus : Bus ring B}
      {after : ConnectionHandler V B} (found : s.connections[c]? = some k)
      (at_ : k.awaits = .nothing) (leaves : a.leaving = some why)
      (step : HandlerStep encode s.bus k.handler a bus after) :
      ServerStep encode s (.left c why) (s.put c { k with awaits := .subtract why })
  | subtracted {c : Nat} {k : Running V B} {why : Leaving} {message : Int64}
      (found : s.connections[c]? = some k) (at_ : k.awaits = .subtract why)
      (reported : CountMutator.subtract 1 = .ok message)
      (room : s.connectionCount.channel.HasRoom) :
      ServerStep encode s (.subtracted c why)
        { s.put c ⟨k.handler.stop, .returned why⟩ with
          connectionCount := s.connectionCount.report message }
  | metricGone {c : Nat} {k : Running V B} (found : s.connections[c]? = some k)
      (gone : s.Gone k.awaits) :
      ServerStep encode s (.metricGone c)
        (s.put c ⟨k.handler.stop, .panicked (k.awaits != .add)⟩)
  | commandTask {act : TaskAct UInt64 UInt64} {channel : Mpsc channelBufferSize UInt64}
      {after : Metrics.Task UInt64}
      (step : TaskStep Throughput.metric s.commandThroughput.channel s.commandThroughput.task act
        channel after) :
      ServerStep encode s (.commandTask act) { s with commandThroughput := ⟨channel, after⟩ }
  | connectionTask {act : TaskAct Int64 UInt64} {channel : Mpsc channelBufferSize Int64}
      {after : Metrics.Task UInt64}
      (step : TaskStep Count.metric s.connectionCount.channel s.connectionCount.task act channel
        after) :
      ServerStep encode s (.connectionTask act) { s with connectionCount := ⟨channel, after⟩ }
  | messageTask {act : TaskAct UInt64 UInt64} {channel : Mpsc channelBufferSize UInt64}
      {after : Metrics.Task UInt64}
      (step : TaskStep Throughput.metric s.messagesSent.channel s.messagesSent.task act channel
        after) :
      ServerStep encode s (.messageTask act) { s with messagesSent := ⟨channel, after⟩ }

abbrev ServerRun (encode : Message V → Option B) (acts : List (ServerAct V B))
    (s : Server ring V B) : Prop :=
  Run (ServerStep encode) Server.new acts s

/-! What a metric's task sees of a run. -/

def ServerAct.commandGauge : ServerAct V B → Option (GaugeAct UInt64 UInt64)
  | .commandCounted _ => some (.reported ThroughputMutator.increment)
  | .commandTask act => some (.task act)
  | _ => none

def ServerAct.messageGauge : ServerAct V B → Option (GaugeAct UInt64 UInt64)
  | .messageCounted _ => some (.reported ThroughputMutator.increment)
  | .messageTask act => some (.task act)
  | _ => none

theorem command_gauge_run {acts : List (ServerAct V B)} {s : Server ring V B}
    (run : ServerRun encode acts s) :
    GaugeRun Throughput.metric (acts.filterMap ServerAct.commandGauge) s.commandThroughput := by
  refine run_filterMap Server.commandThroughput ServerAct.commandGauge ?_ run
  intro acts s act t _ step
  cases step with
  | commandCounted found at_ room => exact run_single (.reported room)
  | commandTask step => exact run_single (.task step)
  | _ => exact Run.nil _

theorem message_gauge_run {acts : List (ServerAct V B)} {s : Server ring V B}
    (run : ServerRun encode acts s) :
    GaugeRun Throughput.metric (acts.filterMap ServerAct.messageGauge) s.messagesSent := by
  refine run_filterMap Server.messagesSent ServerAct.messageGauge ?_ run
  intro acts s act t _ step
  cases step with
  | messageCounted found at_ room => exact run_single (.reported room)
  | messageTask step => exact run_single (.task step)
  | _ => exact Run.nil _

/-! The connections and their count. -/

def Awaits.runPc : Awaits → RunPc
  | .add => .starting
  | .nothing | .commandCounted | .messageCounted => .looping
  | .subtract _ => .ending
  | .returned _ => .ended
  | .panicked added => .panicked added

def Server.count (s : Server ring V B) : Metrics.State :=
  ⟨s.connectionCount.channel, s.connectionCount.task, s.connections.map fun k => k.awaits.runPc⟩

def ServerAct.count : ServerAct V B → Option Metrics.Label
  | .accept _ => some .spawn
  | .added c => some (.connection c (.sent 1))
  | .connection c .panicked => some (.connection c .panicked)
  | .left c _ => some (.connection c .leave)
  | .subtracted c _ => some (.connection c (.sent (-1)))
  | .metricGone c => some (.connection c .panicked)
  | .connectionTask act => some (.task act)
  | _ => none

theorem set_found {A : Type} {l : List A} {c : Nat} {a : A} (found : l[c]? = some a) :
    l.set c a = l := by
  obtain ⟨bound, rfl⟩ := List.getElem?_eq_some_iff.mp found
  exact List.set_getElem_self bound

theorem count_put (s : Server ring V B) (c : Nat) (k : Running V B) :
    (s.put c k).count =
      { s.count with connections := s.count.connections.set c k.awaits.runPc } :=
  congrArg (Metrics.State.mk _ _) List.map_set

theorem count_found {s : Server ring V B} {c : Nat} {k : Running V B}
    (found : s.connections[c]? = some k) :
    s.count.connections[c]? = some k.awaits.runPc := by
  simp [Server.count, found]

theorem count_still {s : Server ring V B} {c : Nat} {k : Running V B} (k' : Running V B)
    (found : s.connections[c]? = some k) (same : k'.awaits.runPc = k.awaits.runPc) :
    (s.put c k').count = s.count := by
  rw [count_put, same, set_found (count_found found)]

theorem count_moved {s : Server ring V B} {c : Nat} {k : Running V B} (k' : Running V B)
    {act : RunAct} {channel : Mpsc channelBufferSize Int64}
    (found : s.connections[c]? = some k)
    (step : RunStep s.connectionCount.channel k.awaits.runPc act channel k'.awaits.runPc) :
    Metrics.Step s.count (.connection c act)
      ⟨channel, s.connectionCount.task, (s.put c k').count.connections⟩ := by
  rw [count_put]
  exact .connection (count_found found) step

theorem serverStep_count {s t : Server ring V B} {act : ServerAct V B}
    (step : ServerStep encode s act t) : Run Metrics.Step s.count act.count.toList t.count := by
  cases step with
  | accept =>
    have spawned : Metrics.Step s.count .spawn _ := .spawn
    apply run_single
    simpa [Server.count, Awaits.runPc] using spawned
  | @added c k message found at_ reported room =>
    obtain rfl : 1 = message := Except.ok.inj (add_reports.symm.trans reported)
    exact run_single (count_moved { k with awaits := .nothing } found
      (at_ ▸ .add reported room))
  | @adapter c k a after found step =>
    have quiet : (ServerAct.connection c a).count = none := by cases step <;> rfl
    rw [quiet, count_still { k with handler := after } found rfl]
    exact Run.nil _
  | @handler c k a bus after found at_ stays step =>
    by_cases panics : a = .panicked
    · subst panics
      exact run_single (count_moved ⟨after, .panicked true⟩ found (at_ ▸ .loopPanicked))
    · have quiet : (ServerAct.connection c a).count = none ∧ a.reports.runPc = .looping := by
        cases a with
        | panicked => exact absurd rfl panics
        | _ => exact ⟨rfl, rfl⟩
      have same : a.reports.runPc = k.awaits.runPc := by
        rw [quiet.2, at_]
        rfl
      have still := count_still ⟨after, a.reports⟩ found same
      rw [quiet.1]
      exact still ▸ Run.nil _
  | @commandCounted c k found at_ room =>
    have still := count_still { k with awaits := .nothing } found (at_ ▸ rfl)
    exact still ▸ Run.nil _
  | @messageCounted c k found at_ room =>
    have still := count_still { k with awaits := .nothing } found (at_ ▸ rfl)
    exact still ▸ Run.nil _
  | @left c k a why bus after found at_ leaves step =>
    exact run_single (count_moved { k with awaits := .subtract why } found (at_ ▸ .leave))
  | @subtracted c k why message found at_ reported room =>
    obtain rfl : -1 = message := Except.ok.inj (subtract_reports.symm.trans reported)
    exact run_single (count_moved ⟨k.handler.stop, .returned why⟩ found
      (at_ ▸ .subtract reported room))
  | @metricGone c k found gone =>
    refine run_single (count_moved ⟨k.handler.stop, .panicked (k.awaits != .add)⟩ found ?_)
    cases at_ : k.awaits <;> rw [at_] at gone
    case add => exact .addFailed gone
    case commandCounted => exact .loopPanicked
    case messageCounted => exact .loopPanicked
    case subtract why => exact .subtractFailed gone
    all_goals cases gone
  | connectionTask step => exact run_single (.task step)
  | commandTask step => exact Run.nil _
  | messageTask step => exact Run.nil _

theorem server_count_run {acts : List (ServerAct V B)} {s : Server ring V B}
    (run : ServerRun encode acts s) : CountRun (acts.filterMap ServerAct.count) s.count :=
  run_filterMap Server.count ServerAct.count (fun _ _ _ _ _ step => serverStep_count step) run

def ServerAct.connectionGauge : ServerAct V B → Option (GaugeAct Int64 UInt64)
  | .added _ => some (.reported 1)
  | .subtracted _ _ => some (.reported (-1))
  | .connectionTask act => some (.task act)
  | _ => none

theorem connection_gauge_run {acts : List (ServerAct V B)} {s : Server ring V B}
    (run : ServerRun encode acts s) :
    GaugeRun Count.metric (acts.filterMap ServerAct.connectionGauge) s.connectionCount := by
  refine run_filterMap Server.connectionCount ServerAct.connectionGauge ?_ run
  intro acts s act t _ step
  cases step with
  | added found at_ reported room =>
    obtain rfl := Except.ok.inj (add_reports.symm.trans reported)
    exact run_single (.reported room)
  | subtracted found at_ reported room =>
    obtain rfl := Except.ok.inj (subtract_reports.symm.trans reported)
    exact run_single (.reported room)
  | connectionTask step => exact run_single (.task step)
  | _ => exact Run.nil _

/-! The metrics outlive every run that is short of 2 ^ 64 steps. -/

theorem command_booked {acts : List (ServerAct V B)} {s : Server ring V B}
    (run : ServerRun encode acts s) :
    Booked (acts.filterMap ServerAct.commandGauge) s.commandThroughput := by
  refine run_booked (command_gauge_run run) ?_
  intro message member
  obtain ⟨gauged, member, reported⟩ := List.mem_filterMap.mp member
  obtain ⟨act, -, seen⟩ := List.mem_filterMap.mp member
  cases act with
  | commandCounted c =>
    cases seen
    exact (Option.some.inj reported).symm
  | commandTask act =>
    cases seen
    cases reported
  | _ => cases seen

theorem message_booked {acts : List (ServerAct V B)} {s : Server ring V B}
    (run : ServerRun encode acts s) :
    Booked (acts.filterMap ServerAct.messageGauge) s.messagesSent := by
  refine run_booked (message_gauge_run run) ?_
  intro message member
  obtain ⟨gauged, member, reported⟩ := List.mem_filterMap.mp member
  obtain ⟨act, -, seen⟩ := List.mem_filterMap.mp member
  cases act with
  | messageCounted c =>
    cases seen
    exact (Option.some.inj reported).symm
  | messageTask act =>
    cases seen
    cases reported
  | _ => cases seen

structure Server.Alive (s : Server ring V B) : Prop where
  commands : ∀ why, s.commandThroughput.task ≠ .panicked why
  connections : ∀ why, s.connectionCount.task ≠ .panicked why
  messages : ∀ why, s.messagesSent.task ≠ .panicked why

theorem short_run_alive {acts : List (ServerAct V B)} {s : Server ring V B}
    (run : ServerRun encode acts s) (short : acts.length < 2 ^ 64) : s.Alive := by
  refine ⟨booked_alive (command_booked run) ?_, ?_, booked_alive (message_booked run) ?_⟩
  · have few := List.length_filterMap_le ServerAct.commandGauge acts
    exact Nat.lt_of_le_of_lt ((List.length_filterMap_le _ _).trans few) short
  · intro why at_
    have counts := run_counts (server_count_run run)
    rw [show s.count.task = .panicked why from at_] at counts
    have full := counts.2
    have added := (received (acts.filterMap ServerAct.count)).count_le_length (a := 1)
    have heard : (received (acts.filterMap ServerAct.count)).length ≤ acts.length :=
      (List.length_filterMap_le _ _).trans (List.length_filterMap_le _ _)
    omega
  · have few := List.length_filterMap_le ServerAct.messageGauge acts
    exact Nat.lt_of_le_of_lt ((List.length_filterMap_le _ _).trans few) short

theorem alive_present {acts : List (ServerAct V B)} {s : Server ring V B}
    (run : ServerRun encode acts s) (alive : s.Alive) (a : Awaits) : ¬ s.Gone a := by
  have commands := run_listening (command_gauge_run run) alive.commands
  have connections := run_listening (connection_gauge_run run) alive.connections
  have messages := run_listening (message_gauge_run run) alive.messages
  cases a <;> simp [Server.Gone, commands, connections, messages]

end PubSub
