import PubSub.Broker
import PubSub.TopicCreation

/- The sends of the broker are calls on its bus, with one connection a caller: what holds
   of concurrent calls holds of every run of the broker. -/
namespace PubSub
open Channels LabelledRun
variable {ring : Ring} {V B : Type} {encode : Message V → Option B}

def HandlerPc.busCall : HandlerPc V B → Option (BusCall B)
  | .publishing name bytes pc => some (.send name bytes pc)
  | _ => none

def Broker.calls (s : Broker ring V B) : CallState ring B :=
  ⟨s.bus, fun d => (s.connections d).bind fun h => h.pc.busCall⟩

theorem calls_put (s : Broker ring V B) (bus : Bus ring B) (d : Nat) (h : ConnectionHandler V B) :
    (s.put bus d h).calls = ⟨bus, Function.update s.calls.calls d h.pc.busCall⟩ :=
  congrArg (CallState.mk bus)
    (Function.comp_update (fun o : Option (ConnectionHandler V B) => o.bind fun h => h.pc.busCall)
      s.connections d (some h))

theorem calls_found {s : Broker ring V B} {d : Nat} {h : ConnectionHandler V B}
    (found : s.connections d = some h) : s.calls.calls d = h.pc.busCall := by
  simp [Broker.calls, found]

theorem calls_still {s : Broker ring V B} {d : Nat} {h h' : ConnectionHandler V B}
    (found : s.connections d = some h) (same : h'.pc.busCall = h.pc.busCall) :
    (s.put s.bus d h').calls = s.calls := by
  rw [calls_put, same, ← calls_found found, Function.update_eq_self]
  rfl

theorem advance_sending (bus : Bus ring B) (name : Str) (bytes : B) {pc : SendPc}
    (running : ∀ result, pc ≠ .done result) :
    (BusCall.send name bytes pc).advance bus = ((bus.sendStep name bytes pc).1,
      some (.send name bytes (bus.sendStep name bytes pc).2)) := by
  cases pc with
  | done result => exact absurd rfl (running result)
  | _ => rfl

theorem brokerStep_calls {s t : Broker ring V B} {l : Label V B} (step : BrokerStep encode s l t) :
    t.calls = s.calls ∨ ∃ m, CallStep s.calls m t.calls := by
  cases step with
  | @connect d fresh =>
    apply Or.inl
    have idle : s.calls.calls d = none := by simp [Broker.calls, fresh]
    rw [calls_put]
    change (⟨s.bus, Function.update s.calls.calls d none⟩ : CallState ring B) = s.calls
    rw [← idle, Function.update_eq_self]
    rfl
  | adapter found step => exact Or.inl (calls_still found (by rw [(adapterStep_pc step).1]))
  | @handler d h h' bus a found step =>
    have here := calls_found found
    cases step with
    | @startPublish message bytes at_ encoded =>
      refine Or.inr ⟨⟨d, message.topic, .accessed⟩, ?_⟩
      rw [at_] at here
      rw [calls_put]
      exact @CallStep.call _ _ _ d (.send message.topic bytes .start) here rfl
    | @sending name bytes pc at_ running =>
      rw [at_] at here
      have advanced := CallStep.advance here
      rw [advance_sending _ _ _ running] at advanced
      rw [calls_put]
      exact Or.inr ⟨_, advanced⟩
    | @published name bytes result at_ =>
      rw [at_] at here
      rw [calls_put]
      exact Or.inr ⟨_, CallStep.advance here⟩
    | _ => exact Or.inl (calls_still found (by
        simp_all [HandlerPc.busCall, ConnectionHandler.goto, ConnectionHandler.stop]))

theorem brokerRun_calls {ls : List (Label V B)} {s : Broker ring V B}
    (run : BrokerRun encode ls s) : ∃ ms, Run CallStep CallState.start ms s.calls := by
  induction run with
  | nil => exact ⟨[], Run.nil _⟩
  | snoc before last ih =>
    obtain ⟨ms, ran⟩ := ih
    rcases brokerStep_calls last with same | ⟨m, step⟩
    · exact ⟨ms, same ▸ ran⟩
    · exact ⟨_, Run.snoc ran step⟩

/-- A topic that no send is about to announce has been announced. -/
theorem settled_topic_announced {ls : List (Label V B)} {s : Broker ring V B}
    (run : BrokerRun encode ls s) {name : Str} (settled : s.calls.Settled name)
    (present : s.bus.containsKey name = true) : TopicEvent.created name ∈ s.bus.events := by
  obtain ⟨ms, ran⟩ := brokerRun_calls run
  have announced := perm_of_paid (insertions_paid rfl rfl event_pays ran name)
    (owing_event_settled settled)
  obtain ⟨events, fresh⟩ := recorded ran name
  have split := insertions_split name ms
  have once : (s.calls.bus.containsKey name).toNat = 1 := by rw [Broker.calls, present]; rfl
  unfold announcements at events
  exact List.count_pos_iff.mp (show 0 < createdEvents name s.calls by omega)

end PubSub
