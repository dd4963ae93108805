import PubSub.Server
import PubSub.Delivery

/- The metrics do not change what the server does: but for the reports every run of it is one
   of the broker by itself. -/
namespace PubSub
open Channels LabelledRun Metrics
variable {ring : Ring} {V B : Type} {encode : Message V → Option B}

theorem put_found_or {s : Server ring V B} {c d : Nat} {k k' : Running V B}
    (found : (s.put c k).connections[d]? = some k') :
    k' = k ∨ s.connections[d]? = some k' := by
  simp only [Server.put, List.getElem?_set] at found
  split at found
  · split at found
    · exact Or.inl (Option.some.inj found).symm
    · cases found
  · exact Or.inr found

/-! Where a handler is while its `run` awaits something else. -/

def HandlerPc.forwarding : HandlerPc V B → Bool
  | .forward _ _ _ => true
  | _ => false

def Leaving.Holds (h : ConnectionHandler V B) : Leaving → Prop
  | .disconnected => (∃ enabled, h.pc = .select enabled) ∧ h.adapterReceiver.queue = [] ∧
      h.adapterReceiver.senderDropped = true
  | .forwardFailed => (∃ name number bytes, h.pc = .forward name number bytes) ∧
      h.adapterSender.receiverDropped = true

def Awaits.Placed (h : ConnectionHandler V B) : Awaits → Prop
  | .add => h.pc = .select true
  | .messageCounted => h.pc.forwarding = true
  | .commandCounted => ∃ command, h.pc = .handle command
  | .subtract why => why.Holds h
  | .returned _ => h.pc = .stopped
  | _ => True

theorem adapterStep_holds {h h' : ConnectionHandler V B} {a : Act V B} {why : Leaving}
    (step : AdapterStep h a h') (holds : why.Holds h) : why.Holds h' := by
  cases why with
  | disconnected =>
    obtain ⟨at_, empty, closed⟩ := holds
    cases step with
    | deliver open_ room =>
      rw [closed] at open_
      cases open_
    | hangUp => exact ⟨at_, empty, rfl⟩
    | _ => exact ⟨at_, empty, closed⟩
  | forwardFailed =>
    obtain ⟨at_, closed⟩ := holds
    cases step with
    | writerStopped => exact ⟨at_, rfl⟩
    | _ => exact ⟨at_, closed⟩

theorem adapterStep_placed {h h' : ConnectionHandler V B} {a : Act V B} {awaits : Awaits}
    (step : AdapterStep h a h') (placed : awaits.Placed h) : awaits.Placed h' := by
  have still := (adapterStep_pc step).1
  cases awaits with
  | subtract why => exact adapterStep_holds step placed
  | nothing | panicked => trivial
  | _ =>
    unfold Awaits.Placed at placed ⊢
    rwa [still]

theorem handlerStep_placed {bus after : Bus ring B} {h h' : ConnectionHandler V B} {a : Act V B}
    (step : HandlerStep encode bus h a after h') : a.reports.Placed h' := by
  cases step with
  | takeCommand at_ queue => exact ⟨_, rfl⟩
  | readItem at_ stream topic received => rfl
  | _ => trivial

theorem handlerStep_holds {bus after : Bus ring B} {h h' : ConnectionHandler V B} {a : Act V B}
    {why : Leaving} (step : HandlerStep encode bus h a after h') (leaves : a.leaving = some why) :
    why.Holds h := by
  cases step with
  | disconnect at_ queue closed =>
    cases leaves
    exact ⟨⟨_, at_⟩, queue, closed⟩
  | forwardFailed at_ closed =>
    cases leaves
    exact ⟨⟨_, _, _, at_⟩, closed⟩
  | _ => cases leaves

theorem holds_leaves {bus : Bus ring B} {h : ConnectionHandler V B} {why : Leaving}
    (holds : why.Holds h) : HandlerStep encode bus h why.act bus h.stop := by
  cases why with
  | disconnected =>
    obtain ⟨⟨enabled, at_⟩, queue, closed⟩ := holds
    exact .disconnect at_ queue closed
  | forwardFailed =>
    obtain ⟨⟨name, number, bytes, at_⟩, closed⟩ := holds
    exact .forwardFailed at_ closed

def Server.Placed (s : Server ring V B) : Prop :=
  ∀ (c : Nat) (k : Running V B), s.connections[c]? = some k → k.awaits.Placed k.handler

theorem put_placed {s : Server ring V B} (placed : s.Placed) (c : Nat) (k : Running V B)
    (here : k.awaits.Placed k.handler) : (s.put c k).Placed := by
  intro d k' found
  rcases put_found_or found with rfl | before
  · exact here
  · exact placed d k' before

theorem serverStep_placed {s t : Server ring V B} {act : ServerAct V B} (placed : s.Placed)
    (step : ServerStep encode s act t) : t.Placed := by
  cases step with
  | accept =>
    intro d k found
    rcases List.mem_append.mp (List.mem_of_getElem? found) with before | new
    · obtain ⟨e, here⟩ := List.getElem?_of_mem before
      exact placed e k here
    · rw [List.mem_singleton.mp new]
      rfl
  | @adapter c k a after found step =>
    exact put_placed placed c ⟨after, k.awaits⟩ (adapterStep_placed step (placed c k found))
  | @handler c k a bus after found at_ stays step =>
    exact put_placed placed c ⟨after, a.reports⟩ (handlerStep_placed step)
  | @left c k a why bus after found at_ leaves step =>
    exact put_placed placed c ⟨k.handler, .subtract why⟩ (handlerStep_holds step leaves)
  | @added c k | @commandCounted c k | @messageCounted c k =>
    exact put_placed placed c ⟨k.handler, .nothing⟩ trivial
  | @subtracted c k why => exact put_placed placed c ⟨k.handler.stop, .returned why⟩ rfl
  | @metricGone c k =>
    exact put_placed placed c ⟨k.handler.stop, .panicked (k.awaits != .add)⟩ trivial
  | _ => exact placed

theorem run_placed {acts : List (ServerAct V B)} {s : Server ring V B}
    (run : ServerRun encode acts s) : s.Placed :=
  run_invariant Server.Placed (fun _ _ found => by cases found)
    (fun _ _ _ placed step => serverStep_placed placed step) run

/-! The broker without its metrics. -/

def Server.broker (s : Server ring V B) : Broker ring V B :=
  ⟨s.bus, fun c => s.connections[c]?.map Running.handler⟩

def ServerAct.broker : ServerAct V B → Option (Label V B)
  | .accept c => some (c, .connect)
  | .connection c a => some (c, a)
  | .subtracted c why => some (c, why.act)
  | _ => none

theorem broker_found {s : Server ring V B} {c : Nat} {k : Running V B}
    (found : s.connections[c]? = some k) : s.broker.connections c = some k.handler := by
  simp [Server.broker, found]

theorem broker_set {s t : Server ring V B} {c : Nat} {k k' : Running V B}
    (found : s.connections[c]? = some k) (moved : t.connections = s.connections.set c k') :
    t.broker = s.broker.put t.bus c k'.handler := by
  have bound := (List.getElem?_eq_some_iff.mp found).1
  unfold Server.broker Broker.put
  congr 1
  funext d
  rw [moved]
  by_cases same : d = c
  · subst same
    simp [bound]
  · simp [Function.update_of_ne same, List.getElem?_set_ne (Ne.symm same)]

theorem broker_still {s t : Server ring V B} {c : Nat} {k k' : Running V B}
    (found : s.connections[c]? = some k) (moved : t.connections = s.connections.set c k')
    (bus : t.bus = s.bus) (same : k'.handler = k.handler) :
    Run (BrokerStep encode) s.broker [] t.broker := by
  rw [broker_set found moved, bus, same]
  have still : s.broker.put s.broker.bus c k.handler = s.broker := put_found (broker_found found)
  exact still.symm ▸ Run.nil _

theorem broker_moved {s t : Server ring V B} {c : Nat} {k k' : Running V B} {l : Label V B}
    (found : s.connections[c]? = some k) (moved : t.connections = s.connections.set c k')
    (step : BrokerStep encode s.broker l (s.broker.put t.bus c k'.handler)) :
    Run (BrokerStep encode) s.broker [l] t.broker := by
  rw [broker_set found moved]
  exact run_single step

theorem broker_accept {s t : Server ring V B} {k : Running V B}
    (moved : t.connections = s.connections ++ [k]) :
    t.broker = s.broker.put t.bus s.connections.length k.handler := by
  unfold Server.broker Broker.put
  congr 1
  funext d
  rw [moved]
  rcases Nat.lt_trichotomy d s.connections.length with before | rfl | behind
  · rw [List.getElem?_append_left before, Function.update_of_ne (Nat.ne_of_lt before)]
  · simp
  · rw [Function.update_of_ne (Nat.ne_of_gt behind), List.getElem?_append_right behind.le,
      List.getElem?_eq_none (by simp; omega)]
    exact (congrArg (Option.map Running.handler) (List.getElem?_eq_none behind.le)).symm

theorem broker_accepted {s t : Server ring V B} (bus : t.bus = s.bus)
    (moved : t.connections = s.connections ++ [⟨ConnectionHandler.new s.bus, .add⟩]) :
    Run (BrokerStep encode) s.broker [(s.connections.length, .connect)] t.broker := by
  have fresh : s.broker.connections s.connections.length = none := by simp [Server.broker]
  have connected : BrokerStep encode s.broker _ _ := .connect fresh
  rw [broker_accept moved, bus]
  exact run_single connected

theorem serverStep_broker {s t : Server ring V B} {act : ServerAct V B} (placed : s.Placed)
    (present : ∀ a, ¬ s.Gone a) (step : ServerStep encode s act t) :
    Run (BrokerStep encode) s.broker act.broker.toList t.broker := by
  cases step with
  | accept => exact broker_accepted rfl rfl
  | adapter found step => exact broker_moved found rfl (.adapter (broker_found found) step)
  | handler found at_ stays step =>
    exact broker_moved found rfl (.handler (broker_found found) step)
  | @subtracted c k why message found at_ reported room =>
    have holds := placed c k found
    rw [at_] at holds
    exact broker_moved found rfl (.handler (broker_found found) (holds_leaves holds))
  | metricGone found gone => exact absurd gone (present _)
  | added found | commandCounted found | messageCounted found | left found =>
    exact broker_still found rfl rfl rfl
  | _ => exact Run.nil _

/-! The server is asked for a topic, and the timer of the commands comes. -/

def taking : List (ServerAct UInt8 (List UInt8)) :=
  [.accept 0, .added 0, .connection 0 (.deliver (.subscribe ['a'])),
    .connection 0 (.takeCommand (.subscribe ['a']))]

def logging : List (ServerAct UInt8 (List UInt8)) :=
  [.commandCounted 0, .commandTask (.received 1), .commandTask .tick, .commandTask (.logged 1)]

def takingHandler : ConnectionHandler UInt8 (List UInt8) :=
  (ConnectionHandler.new (Bus.new : Bus wideRing (List UInt8))).goto (.handle (.subscribe ['a']))

def takingServer (awaits : Awaits) (commands : Gauge UInt64 UInt64) :
    Server wideRing UInt8 (List UInt8) :=
  { (Server.new : Server wideRing UInt8 (List UInt8)) with
    connections := [⟨takingHandler, awaits⟩]
    commandThroughput := commands
    connectionCount := (Gauge.new Count.metric).report 1 }

theorem taking_run :
    ServerRun packShort taking (takingServer .commandCounted (Gauge.new Throughput.metric)) := by
  have began : ServerRun packShort [] (Server.new : Server wideRing UInt8 (List UInt8)) :=
    Run.nil _
  have added := Run.snoc (Run.snoc began .accept) (.added (c := 0) rfl rfl add_reports (by decide))
  let fresh : ConnectionHandler UInt8 (List UInt8) :=
    ConnectionHandler.new (Bus.new : Bus wideRing (List UInt8))
  have delivers : AdapterStep fresh (.deliver (.subscribe ['a'])) _ := .deliver rfl (by decide)
  have delivered := Run.snoc added (.adapter (c := 0) rfl delivers)
  exact Run.snoc delivered (.handler rfl rfl rfl (.takeCommand rfl rfl))

theorem logging_run : ServerRun packShort (taking ++ logging)
    (takingServer .nothing (Gauge.new Throughput.metric)) := by
  have counted := Run.snoc taking_run (.commandCounted (c := 0) rfl rfl (by decide))
  have received := Run.snoc counted (.commandTask (.received rfl (by rfl)))
  exact Run.snoc (Run.snoc received (.commandTask .tick)) (.commandTask .logged)

/-- In a run of fewer than 2 ^ 64 steps no task of a metric fails, no connection ends because of
    one, and what the connections do is what they do in a run of the broker by itself. -/
theorem server_refines_broker {acts : List (ServerAct V B)} {s : Server ring V B}
    (run : ServerRun encode acts s) (short : acts.length < 2 ^ 64) :
    BrokerRun encode (acts.filterMap ServerAct.broker) s.broker ∧
      CountRun (acts.filterMap ServerAct.count) s.count ∧ s.Alive ∧
      ∀ c, .metricGone c ∉ acts := by
  have counted := server_count_run run
  induction run with
  | nil => exact ⟨Run.nil _, Run.nil _, @short_run_alive _ _ _ encode [] _ (Run.nil _) short, by simp⟩
  | @snoc s t acts act before last ih =>
    have earlier : acts.length < 2 ^ 64 := by
      rw [List.length_append] at short
      omega
    obtain ⟨ran, -, alive, none⟩ := ih earlier (server_count_run before)
    have present := alive_present before alive
    refine ⟨?_, counted, short_run_alive (Run.snoc before last) short, ?_⟩
    · rw [List.filterMap_append]
      have taken := serverStep_broker (run_placed before) present last
      cases said : act.broker with
      | none => simpa [said] using run_append ran taken
      | some l => simpa [said] using run_append ran taken
    · intro c member
      rcases List.mem_append.mp member with old | now
      · exact none c old
      · rw [← List.mem_singleton.mp now] at last
        cases last with
        | metricGone found gone => exact present _ gone

theorem logging_refines : ∃ s : Server wideRing UInt8 (List UInt8),
    ServerRun packShort (taking ++ logging) s ∧
    BrokerRun packShort [(0, .connect), (0, .deliver (.subscribe ['a'])),
      (0, .takeCommand (.subscribe ['a']))] s.broker ∧
    CountRun [.spawn, .connection 0 (.sent 1)] s.count ∧ s.Alive ∧
    ∀ c, .metricGone c ∉ taking ++ logging :=
  ⟨_, logging_run, server_refines_broker logging_run (by decide)⟩

end PubSub
