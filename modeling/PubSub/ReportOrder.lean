import Mathlib.Data.List.Forall2
import PubSub.Metering

/- Nobody waits for a metric for long. A channel gives its places to those that wait in the
   order in which they asked for one; whatever that order was, the reports can come in it. -/
namespace PubSub
open Channels LabelledRun Metrics
variable {ring : Ring} {V B : Type} {encode : Message V → Option B}

def Awaits.report (c : Nat) : Awaits → Option (ServerAct V B)
  | .add => some (.added c)
  | .commandCounted => some (.commandCounted c)
  | .messageCounted => some (.messageCounted c)
  | .subtract why => some (.subtracted c why)
  | _ => none

def Server.Owes (s : Server ring V B) (c : Nat) (report : ServerAct V B) : Prop :=
  ∃ k, s.connections[c]? = some k ∧ k.awaits.report c = some report

def ServerAct.serves : ServerAct V B → ServerAct V B → Bool
  | .commandCounted _, .commandTask _ => true
  | .messageCounted _, .messageTask _ => true
  | .added _, .connectionTask _ => true
  | .subtracted _ _, .connectionTask _ => true
  | _, _ => false

/-- A history of these reports, each behind at most two steps of the task that it goes to. -/
inductive InTurn : List (ServerAct V B) → List (ServerAct V B) → Prop where
  | nil : InTurn [] []
  | cons {report : ServerAct V B} {reports served acts : List (ServerAct V B)}
      (few : served.length ≤ 2) (serve : ∀ act ∈ served, report.serves act = true)
      (rest : InTurn reports acts) : InTurn (report :: reports) (served ++ report :: acts)

section OneMetric
variable {M T : Type} {metric : Metric M T} {act : TaskAct M T → ServerAct V B}

theorem task_served (place : Gauge M T → Server ring V B)
    (moves : ∀ g a g', Gauge.ServeStep metric g a g' →
      ServerStep encode (place g) (act a) (place g'))
    {served : List (TaskAct M T)} {g g' : Gauge M T} (run : Run (Gauge.ServeStep metric) g served g') :
    Run (ServerStep encode) (place g) (served.map act) (place g') :=
  run_map place act (fun _ => True) (fun _ _ _ _ _ => trivial) (fun g a g' _ => moves g a g')
    trivial run

theorem place_made (place : Gauge M T → Server ring V B)
    (moves : ∀ g a g', Gauge.ServeStep metric g a g' →
      ServerStep encode (place g) (act a) (place g'))
    (living : ∀ g, (place g).Alive → ∀ why, g.task ≠ .panicked why)
    {acts : List (ServerAct V B)} {g : Gauge M T} (run : ServerRun encode acts (place g))
    (short : acts.length + 2 < 2 ^ 64) {seen : List (GaugeAct M T)}
    (gauged : GaugeRun metric seen g) :
    ∃ (served : List (TaskAct M T)) (g' : Gauge M T), served.length ≤ 2 ∧ g'.channel.HasRoom ∧
      Run (ServerStep encode) (place g) (served.map act) (place g') := by
  have alive := short_run_alive run (by omega)
  have lasting : ∀ served g', Run (Gauge.ServeStep metric) g served g' → served.length ≤ 2 →
      ∀ why, g'.task ≠ .panicked why := by
    intro served g' ran few
    refine living g' (short_run_alive (run_append run (task_served place moves ran)) ?_)
    rw [List.length_append, List.length_map]
    omega
  obtain ⟨served, g', few, ran, room⟩ :=
    gauge_room (run_listening gauged (living g alive)) (run_within gauged) lasting
  exact ⟨served, g', few, room, task_served place moves ran⟩

end OneMetric

theorem command_room {acts : List (ServerAct V B)} {s : Server ring V B}
    (run : ServerRun encode acts s) (short : acts.length + 2 < 2 ^ 64) :
    ∃ (served : List (TaskAct UInt64 UInt64)) (g : _), served.length ≤ 2 ∧ g.channel.HasRoom ∧
      Run (ServerStep encode) s (served.map .commandTask) { s with commandThroughput := g } :=
  place_made (fun g => { s with commandThroughput := g }) (fun _ _ _ step => .commandTask step)
    (fun _ alive => alive.commands) run short (command_gauge_run run)

theorem connection_room {acts : List (ServerAct V B)} {s : Server ring V B}
    (run : ServerRun encode acts s) (short : acts.length + 2 < 2 ^ 64) :
    ∃ (served : List (TaskAct Int64 UInt64)) (g : _), served.length ≤ 2 ∧ g.channel.HasRoom ∧
      Run (ServerStep encode) s (served.map .connectionTask) { s with connectionCount := g } :=
  place_made (fun g => { s with connectionCount := g }) (fun _ _ _ step => .connectionTask step)
    (fun _ alive => alive.connections) run short (connection_gauge_run run)

theorem message_room {acts : List (ServerAct V B)} {s : Server ring V B}
    (run : ServerRun encode acts s) (short : acts.length + 2 < 2 ^ 64) :
    ∃ (served : List (TaskAct UInt64 UInt64)) (g : _), served.length ≤ 2 ∧ g.channel.HasRoom ∧
      Run (ServerStep encode) s (served.map .messageTask) { s with messagesSent := g } :=
  place_made (fun g => { s with messagesSent := g }) (fun _ _ _ step => .messageTask step)
    (fun _ alive => alive.messages) run short (message_gauge_run run)

theorem owed_reported {acts : List (ServerAct V B)} {s : Server ring V B}
    (run : ServerRun encode acts s) (short : acts.length + 2 < 2 ^ 64) {c : Nat}
    {report : ServerAct V B} (owed : s.Owes c report) :
    ∃ served t, served.length ≤ 2 ∧ (∀ act ∈ served, report.serves act = true) ∧
      Run (ServerStep encode) s (served ++ [report]) t ∧
      ∀ d, d ≠ c → t.connections[d]? = s.connections[d]? := by
  obtain ⟨k, found, awaited⟩ := owed
  have others : ∀ k' d, d ≠ c → (s.connections.set c k')[d]? = s.connections[d]? :=
    fun k' d other => List.getElem?_set_ne (Ne.symm other)
  cases at_ : k.awaits <;> rw [at_] at awaited <;> cases awaited
  case add =>
    obtain ⟨served, g, few, room, ran⟩ := connection_room run short
    exact ⟨_, _, (List.length_map _).trans_le few, by simp [ServerAct.serves],
      Run.snoc ran (.added found at_ add_reports room), others _⟩
  case commandCounted =>
    obtain ⟨served, g, few, room, ran⟩ := command_room run short
    exact ⟨_, _, (List.length_map _).trans_le few, by simp [ServerAct.serves],
      Run.snoc ran (.commandCounted found at_ room), others _⟩
  case messageCounted =>
    obtain ⟨served, g, few, room, ran⟩ := message_room run short
    exact ⟨_, _, (List.length_map _).trans_le few, by simp [ServerAct.serves],
      Run.snoc ran (.messageCounted found at_ room), others _⟩
  case subtract why =>
    obtain ⟨served, g, few, room, ran⟩ := connection_room run short
    exact ⟨_, _, (List.length_map _).trans_le few, by simp [ServerAct.serves],
      Run.snoc ran (.subtracted found at_ subtract_reports room), others _⟩

/-- Connections that wait for metrics, in whatever order they asked, can report in just that
    order, each behind at most two steps of the task it waits for. -/
theorem metric_waits_end {acts : List (ServerAct V B)} {s : Server ring V B}
    (run : ServerRun encode acts s) {waiting : List Nat} {reports : List (ServerAct V B)}
    (distinct : waiting.Nodup) (owed : List.Forall₂ s.Owes waiting reports)
    (short : acts.length + 3 * waiting.length < 2 ^ 64) :
    ∃ more t, InTurn reports more ∧ Run (ServerStep encode) s more t := by
  induction waiting generalizing acts s reports with
  | nil =>
    cases owed
    exact ⟨[], s, .nil, Run.nil s⟩
  | cons c waiting ih =>
    obtain ⟨report, reports, first, others, rfl⟩ := List.forall₂_cons_left_iff.mp owed
    rw [List.length_cons] at short
    obtain ⟨ahead, distinct⟩ := List.nodup_cons.mp distinct
    obtain ⟨served, t, few, serve, ran, still⟩ := owed_reported run (by omega) first
    have owed : List.Forall₂ t.Owes waiting reports := by
      refine List.Forall₂.imp ?_ ((List.forall₂_and_left _ _).mpr ⟨fun d member => member, others⟩)
      rintro d report ⟨behind, k, found, awaited⟩
      have other : d ≠ c := fun same => ahead (same ▸ behind)
      exact ⟨k, (still d other).trans found, awaited⟩
    have shorter : (acts ++ (served ++ [report])).length + 3 * waiting.length < 2 ^ 64 := by
      simp only [List.length_append, List.length_singleton]
      omega
    obtain ⟨more, u, inTurn, onward⟩ := ih (run_append run ran) distinct owed shorter
    refine ⟨served ++ report :: more, u, .cons few serve inTurn, ?_⟩
    have whole := run_append ran onward
    rwa [List.append_assoc, List.singleton_append] at whole

/-! More connections than the channel of their count has room for. -/

def crowd (n : Nat) : List (ServerAct V B) :=
  (List.range n).flatMap fun c => [.accept c, .added c]

def crowded (n : Nat) : Server ring V B :=
  { (Server.new : Server ring V B) with
    connections := List.replicate n ⟨ConnectionHandler.new (Bus.new : Bus ring B), .nothing⟩
    connectionCount := ⟨⟨List.replicate n 1, false, false⟩, .listening Count.metric.new⟩ }

def arrived (s : Server ring V B) : Server ring V B :=
  { s with connections := s.connections ++ [⟨ConnectionHandler.new s.bus, .add⟩] }

theorem accept_arrived {s : Server ring V B} {n : Nat} (count : s.connections.length = n) :
    ServerStep encode s (.accept n) (arrived s) := by
  subst count
  exact .accept

theorem arrived_found {s : Server ring V B} {n : Nat} (count : s.connections.length = n) :
    (arrived s).connections[n]? = some ⟨ConnectionHandler.new s.bus, .add⟩ := by
  subst count
  exact List.getElem?_concat_length

theorem crowd_count (n : Nat) : (crowded n : Server ring V B).connections.length = n :=
  List.length_replicate

theorem set_last {A : Type} {l : List A} {n : Nat} (count : l.length = n) (a b : A) :
    (l ++ [a]).set n b = l ++ [b] := by
  subst count
  rw [List.set_append_right _ _ (Nat.le_refl _), Nat.sub_self]
  rfl

theorem crowded_succ (n : Nat) : (crowded (n + 1) : Server ring V B) =
    { (arrived (crowded n)).put n ⟨ConnectionHandler.new (Bus.new : Bus ring B), .nothing⟩ with
      connectionCount :=
        (arrived (crowded n : Server ring V B)).connectionCount.report 1 } := by
  unfold Server.put arrived
  rw [set_last (crowd_count n)]
  simp [crowded, Gauge.report, Mpsc.push, List.replicate_succ', Server.new]

theorem crowd_run {n : Nat} (room : n ≤ channelBufferSize) :
    ServerRun encode (crowd n) (crowded n : Server ring V B) := by
  induction n with
  | zero => exact Run.nil _
  | succ n ih =>
    have accepted := Run.snoc (ih (Nat.le_of_succ_le room)) (accept_arrived (crowd_count n))
    have place : (arrived (crowded n : Server ring V B)).connectionCount.channel.HasRoom :=
      ⟨rfl, (List.length_replicate).trans_lt room⟩
    have added := Run.snoc accepted
      (.added (arrived_found (crowd_count n)) rfl add_reports place)
    have history : crowd (n + 1) = crowd (V := V) (B := B) n ++ [.accept n] ++ [.added n] := by
      simp [crowd, List.range_succ]
    rw [history, crowded_succ]
    exact added

theorem crowd_length (n : Nat) : (crowd n : List (ServerAct V B)).length = 2 * n := by
  unfold crowd
  rw [List.length_flatMap]
  simp [Nat.mul_comm]

/-- Two connections have come when the channel is full; the later one asked for its place first. -/
theorem crowd_waits_end : ∃ s : Server wideRing UInt8 (List UInt8),
    ServerRun packShort (crowd channelBufferSize ++ [.accept channelBufferSize] ++
      [.accept (channelBufferSize + 1)]) s ∧
    ¬s.connectionCount.channel.HasRoom ∧
    ∃ more t, InTurn [.added (channelBufferSize + 1), .added channelBufferSize] more ∧
      Run (ServerStep packShort) s more t := by
  let full : Server wideRing UInt8 (List UInt8) := crowded channelBufferSize
  have first : full.connections.length = channelBufferSize := crowd_count _
  have second : (arrived full).connections.length = channelBufferSize + 1 :=
    List.length_append.trans (congrArg (· + 1) first)
  have run : ServerRun packShort _ (arrived (arrived full)) :=
    Run.snoc (Run.snoc (crowd_run (Nat.le_refl _)) (accept_arrived first)) (accept_arrived second)
  refine ⟨_, run, ?_, ?_⟩
  · rintro ⟨-, room⟩
    exact absurd room (Nat.not_lt.mpr (Nat.le_of_eq List.length_replicate.symm))
  · have early : (arrived (arrived full)).connections[channelBufferSize]? = _ :=
      (List.getElem?_append_left (second ▸ Nat.lt_succ_self _)).trans (arrived_found first)
    have owed : List.Forall₂ (arrived (arrived full)).Owes
        [channelBufferSize + 1, channelBufferSize] [.added _, .added _] :=
      .cons ⟨_, arrived_found second, rfl⟩ (.cons ⟨_, early, rfl⟩ .nil)
    refine metric_waits_end run (by simp) owed ?_
    rw [List.length_append, List.length_append, crowd_length]
    decide

end PubSub
