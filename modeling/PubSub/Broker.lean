import PubSub.Handler
import PubSub.LabelledRun

/- The broker: one bus and any number of connections, stepping in any order. A label
   names the connection and what it did. -/
namespace PubSub
open Channels LabelledRun
variable {ring : Ring} {V B : Type}

structure Broker (ring : Ring) (V B : Type) where
  bus : Bus ring B
  connections : Nat → Option (ConnectionHandler V B)

def Broker.new : Broker ring V B := ⟨Bus.new, fun _ => none⟩

abbrev Label (V B : Type) := Nat × Act V B

def Broker.put (s : Broker ring V B) (bus : Bus ring B) (c : Nat)
    (h : ConnectionHandler V B) : Broker ring V B :=
  ⟨bus, Function.update s.connections c (some h)⟩

inductive BrokerStep (encode : Message V → Option B) (s : Broker ring V B) :
    Label V B → Broker ring V B → Prop where
  | connect {c : Nat} (fresh : s.connections c = none) :
      BrokerStep encode s (c, .connect) (s.put s.bus c (ConnectionHandler.new s.bus))
  | adapter {c : Nat} {h after : ConnectionHandler V B} {a : Act V B}
      (found : s.connections c = some h) (step : AdapterStep h a after) :
      BrokerStep encode s (c, a) (s.put s.bus c after)
  | handler {c : Nat} {h after : ConnectionHandler V B} {bus : Bus ring B} {a : Act V B}
      (found : s.connections c = some h) (step : HandlerStep encode s.bus h a bus after) :
      BrokerStep encode s (c, a) (s.put bus c after)

abbrev BrokerRun (encode : Message V → Option B) (ls : List (Label V B))
    (s : Broker ring V B) : Prop :=
  Run (BrokerStep encode) Broker.new ls s

variable {encode : Message V → Option B}

@[simp] theorem Broker.put_bus (s : Broker ring V B) (bus : Bus ring B) (c : Nat)
    (h : ConnectionHandler V B) : (s.put bus c h).bus = bus := rfl

@[simp] theorem Broker.put_self (s : Broker ring V B) (bus : Bus ring B) (c : Nat)
    (h : ConnectionHandler V B) : (s.put bus c h).connections c = some h :=
  Function.update_self _ _ _

theorem Broker.put_ne (s : Broker ring V B) (bus : Bus ring B) {c d : Nat}
    (h : ConnectionHandler V B) (differ : d ≠ c) :
    (s.put bus c h).connections d = s.connections d :=
  Function.update_of_ne differ _ _

theorem put_put (s : Broker ring V B) (bus after : Bus ring B) (c : Nat)
    (h h' : ConnectionHandler V B) : (s.put bus c h).put after c h' = s.put after c h' := by
  simp [Broker.put]

theorem put_found {s : Broker ring V B} {c : Nat} {h : ConnectionHandler V B}
    (found : s.connections c = some h) : s.put s.bus c h = s := by
  unfold Broker.put
  rw [← found, Function.update_eq_self]

theorem adapterStep_pc {h h' : ConnectionHandler V B} {a : Act V B} (step : AdapterStep h a h') :
    h'.pc = h.pc ∧ h'.topicEvents = h.topicEvents ∧ h'.topicStreams = h.topicStreams ∧
      h'.subscriptions = h.subscriptions := by
  cases step <;> exact ⟨rfl, rfl, rfl, rfl⟩

theorem brokerStep_others {s t : Broker ring V B} {l : Label V B} (step : BrokerStep encode s l t)
    {c : Nat} (other : c ≠ l.1) : t.connections c = s.connections c := by
  cases step with
  | connect fresh => exact s.put_ne _ _ other
  | adapter found step => exact s.put_ne _ _ other
  | handler found step => exact s.put_ne _ _ other

theorem brokerStep_connection {s t : Broker ring V B} {l : Label V B}
    (step : BrokerStep encode s l t) {c : Nat} {h : ConnectionHandler V B}
    (found : s.connections c = some h) :
    (l.1 ≠ c ∧ t.connections c = some h) ∨
    (∃ a h', l = (c, a) ∧ AdapterStep h a h' ∧ t = s.put s.bus c h') ∨
    ∃ a h' bus, l = (c, a) ∧ HandlerStep encode s.bus h a bus h' ∧ t = s.put bus c h' := by
  by_cases own : l.1 = c
  · subst own
    cases step with
    | connect fresh =>
      rw [found] at fresh
      cases fresh
    | @adapter d k k' a here step =>
      obtain rfl := Option.some.inj (found.symm.trans here)
      exact Or.inr (Or.inl ⟨a, k', rfl, step, rfl⟩)
    | @handler d k k' bus a here step =>
      obtain rfl := Option.some.inj (found.symm.trans here)
      exact Or.inr (Or.inr ⟨a, k', bus, rfl, step, rfl⟩)
  · exact Or.inl ⟨own, (brokerStep_others step (Ne.symm own)).trans found⟩

/-! What one step does to the bus. -/

theorem handlerStep_bus {bus after : Bus ring B} {h h' : ConnectionHandler V B} {a : Act V B}
    (step : HandlerStep encode bus h a after h') :
    after = bus ∨ ∃ name bytes pc next, a = .sending name ∧ h.pc = .publishing name bytes pc ∧
      h' = h.goto (.publishing name bytes next) ∧ bus.Effect name bytes pc after next := by
  cases step with
  | @sending name bytes pc at_ running =>
    exact Or.inr ⟨name, bytes, pc, _, rfl, at_, rfl, bus.sendStep_effect name bytes pc⟩
  | _ => exact Or.inl rfl

theorem brokerStep_bus {s t : Broker ring V B} {l : Label V B} (step : BrokerStep encode s l t) :
    t.bus = s.bus ∨ ∃ h name bytes pc next, s.connections l.1 = some h ∧ l.2 = .sending name ∧
      h.pc = .publishing name bytes pc ∧
      t = s.put t.bus l.1 (h.goto (.publishing name bytes next)) ∧
      s.bus.Effect name bytes pc t.bus next := by
  cases step with
  | connect fresh => exact Or.inl rfl
  | adapter found step => exact Or.inl rfl
  | @handler c h after bus a found step =>
    rcases handlerStep_bus step with same | ⟨name, bytes, pc, next, label, at_, rfl, effect⟩
    · exact Or.inl same
    · exact Or.inr ⟨h, name, bytes, pc, next, found, label, at_, rfl, effect⟩

theorem brokerStep_sent {s t : Broker ring V B} {l : Label V B} (step : BrokerStep encode s l t)
    (topic : Str) :
    t.bus.sent topic = s.bus.sent topic ∨
      ∃ h message, s.connections l.1 = some h ∧ l.2 = .sending topic ∧
        h.pc = .publishing topic message .store ∧
        t.bus.sent topic = s.bus.sent topic ++ [message] := by
  rcases brokerStep_bus step with same | ⟨h, name, bytes, pc, next, found, label, at_, _, effect⟩
  · exact Or.inl (by rw [same])
  · rcases Bus.effect_sent effect topic with same | ⟨rfl, rfl, appended⟩
    · exact Or.inl same
    · exact Or.inr ⟨h, bytes, found, label, at_, appended⟩

theorem brokerStep_containsKey {s t : Broker ring V B} {l : Label V B}
    (step : BrokerStep encode s l t) {topic : Str} (present : s.bus.containsKey topic = true) :
    t.bus.containsKey topic = true := by
  rcases brokerStep_bus step with same | ⟨h, name, bytes, pc, next, _, _, _, _, effect⟩
  · rw [same]
    exact present
  · exact Bus.effect_containsKey effect present

theorem brokerStep_retains {s t : Broker ring V B} {l : Label V B}
    (step : BrokerStep encode s l t) (retains : s.bus.Retains) : t.bus.Retains := by
  rcases brokerStep_bus step with same | ⟨h, name, bytes, pc, next, _, _, _, _, effect⟩
  · rw [same]
    exact retains
  · exact Bus.effect_retains effect retains

theorem run_retains {ls : List (Label V B)} {s : Broker ring V B} (run : BrokerRun encode ls s) :
    s.bus.Retains :=
  run_invariant (fun s => s.bus.Retains) Bus.new_retains
    (fun _ _ _ retains step => brokerStep_retains step retains) run

/-- The induction rule for facts about the history and the handler of one connection. It
    begins when the connection does, and steps of the other connections may change the
    bus under it but nothing else. -/
theorem run_connection {c : Nat}
    (holds : List (Label V B) → Bus ring B → ConnectionHandler V B → Prop)
    (connect : ∀ ls s, BrokerRun encode ls s →
      holds (ls ++ [(c, .connect)]) s.bus (ConnectionHandler.new s.bus))
    (adapter : ∀ ls s h a h', BrokerRun encode ls s → s.connections c = some h →
      holds ls s.bus h → AdapterStep h a h' → holds (ls ++ [(c, a)]) s.bus h')
    (handler : ∀ ls s h a bus h', BrokerRun encode ls s → s.connections c = some h →
      holds ls s.bus h → HandlerStep encode s.bus h a bus h' → holds (ls ++ [(c, a)]) bus h')
    (others : ∀ ls s t h l, BrokerRun encode ls s → s.connections c = some h → l.1 ≠ c →
      holds ls s.bus h → BrokerStep encode s l t → holds (ls ++ [l]) t.bus h)
    {ls : List (Label V B)} {s : Broker ring V B} (run : BrokerRun encode ls s)
    {h : ConnectionHandler V B} (found : s.connections c = some h) : holds ls s.bus h := by
  refine run_history (fun ls s => ∀ h, s.connections c = some h → holds ls s.bus h) ?_ ?_ run
    h found
  · intro h found
    cases found
  · intro ls s l t before ih step h found
    by_cases other : l.1 = c
    · cases step with
      | connect fresh =>
        subst other
        rw [Broker.put_self] at found
        obtain rfl := Option.some.inj found
        exact connect ls s before
      | adapter here step =>
        subst other
        rw [Broker.put_self] at found
        obtain rfl := Option.some.inj found
        exact adapter ls s _ _ _ before here (ih _ here) step
      | handler here step =>
        subst other
        rw [Broker.put_self] at found
        obtain rfl := Option.some.inj found
        exact handler ls s _ _ _ _ before here (ih _ here) step
    · have same : s.connections c = some h := by
        rwa [brokerStep_others step (Ne.symm other)] at found
      exact others ls s t h l before same other (ih h same) step

end PubSub
