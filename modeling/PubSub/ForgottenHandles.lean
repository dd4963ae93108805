import PubSub.BrokerCalls
import PubSub.ChannelIdentity

/- Without the handles this is the bus of the broker: there a topic stands for its channel,
   and a position on the topic for a receiver. -/
namespace PubSub
namespace Handles
open Channels LabelledRun

variable {ring : Ring} {B : Type}

namespace Bus

def forget (bus : Bus ring B) : PubSub.Bus ring B :=
  ⟨fun name => (bus.topics name).map fun data =>
    ⟨bus.channels.channel data.sender, data.lastMessage⟩, bus.topicEventsTx⟩

theorem forget_topics {bus : Bus ring B} {name : Str} {data : TopicData B}
    (found : bus.topics name = some data) : bus.forget.topics name =
      some ⟨bus.channels.channel data.sender, data.lastMessage⟩ := by
  simp [forget, found]

theorem forget_vacant {bus : Bus ring B} {name : Str} (vacant : bus.topics name = none) :
    bus.forget.topics name = none := by
  simp [forget, vacant]

theorem forget_containsKey (bus : Bus ring B) (name : Str) :
    bus.forget.containsKey name = bus.containsKey name := by
  simp [forget, containsKey, PubSub.Bus.containsKey]

theorem forget_subscribe (bus : Bus ring B) (name : Str) :
    bus.forget.subscribeToTopic name = (bus.subscribeToTopic name).map fun r => r.2 := by
  simp only [forget, PubSub.Bus.subscribeToTopic, subscribeToTopic, Option.map_map]
  rfl

theorem forget_insert (bus : Bus ring B) (name : Str) :
    (bus.insertTopic name).1.forget = bus.forget.insertTopic name := by
  have known := bus.forget_containsKey name
  cases entry : bus.topics name with
  | some data =>
    have present : bus.forget.containsKey name = true := by
      rw [known]
      exact containsKey_iff.mpr ⟨data, entry⟩
    rw [insertTopic_found entry, PubSub.Bus.insertTopic, if_pos present]
  | none =>
    have absent : ¬ bus.forget.containsKey name = true := by simp [known, containsKey, entry]
    rw [insertTopic_vacant entry, PubSub.Bus.insertTopic, if_neg absent]
    simp only [forget, ChannelHeap.channel_create, PubSub.Bus.mk.injEq, and_true]
    funext topic
    by_cases here : topic = name
    · subst here
      rw [Function.update_self, Function.update_self, Option.map_some,
        ChannelHeap.channel_create_new]
      rfl
    · rw [Function.update_of_ne here, Function.update_of_ne here]

theorem forget_store {ls : List (Label B)} {bus : Bus ring B} (attached : Attached ls bus)
    (name : Str) (message : B) :
    ((bus.storeAndBroadcast name message).1, (bus.storeAndBroadcast name message).2.forget) =
      bus.forget.storeAndBroadcast name message := by
  cases entry : bus.topics name with
  | none => rw [storeAndBroadcast, entry, PubSub.Bus.storeAndBroadcast, forget_vacant entry]
  | some data =>
    rw [storeAndBroadcast_found entry, PubSub.Bus.storeAndBroadcast, forget_topics entry]
    simp only [forget, Prod.mk.injEq, PubSub.Bus.mk.injEq, true_and, and_true]
    funext topic
    by_cases here : topic = name
    · subst here
      rw [Function.update_self, Function.update_self, Option.map_some,
        ChannelHeap.channel_send_self (attached.made topic data entry)]
      rfl
    · rw [Function.update_of_ne here, Function.update_of_ne here]
      cases other : bus.topics topic with
      | none => rfl
      | some data' =>
        have differ : data'.sender ≠ data.sender := fun same =>
          here (attached.apart topic name data' data other entry same)
        rw [Option.map_some, Option.map_some, ChannelHeap.channel_send_ne _ differ]

theorem forget_createStep (bus : Bus ring B) (name : Str) (pc : CreatePc) :
    bus.forget.createStep name pc =
      ((bus.createStep name pc).2.1.forget, (bus.createStep name pc).2.2) := by
  cases pc with
  | start => rw [createStep, PubSub.Bus.createStep, forget_containsKey]
  | insert => rw [createStep, PubSub.Bus.createStep, forget_containsKey, forget_insert]
  | announce inserted => rfl
  | done created => rfl

theorem forget_sendStep {ls : List (Label B)} {bus : Bus ring B} (attached : Attached ls bus)
    (name : Str) (message : B) (pc : SendPc) :
    bus.forget.sendStep name message pc =
      ((bus.sendStep name message pc).2.1.forget, (bus.sendStep name message pc).2.2) := by
  cases pc with
  | start => rw [sendStep, PubSub.Bus.sendStep, forget_containsKey]
  | creating pc =>
    have created := congrArg (fun r => (r.1, SendPc.creating r.2)) (forget_createStep bus name pc)
    cases pc with
    | done result => rfl
    | _ => exact created
  | store => rw [sendStep, PubSub.Bus.sendStep, ← forget_store attached name message]
  | done result => rfl

end Bus

def Call.forget : Call B → Option (BusCall B)
  | .createTopic name pc => some (.createTopic name pc)
  | .send name message pc => some (.send name message pc)
  | .subscribeToTopic _ => none

def State.forget (s : State ring B) : CallState ring B :=
  ⟨s.bus.forget, fun i => (s.calls i).bind Call.forget⟩

theorem forget_advance {ls : List (Label B)} {bus : Bus ring B} (attached : Attached ls bus)
    {call : Call B} {coarse : BusCall B} (same : call.forget = some coarse) :
    coarse.advance bus.forget =
      ((call.advance bus).2.1.forget, (call.advance bus).2.2.bind Call.forget) := by
  cases call with
  | createTopic name pc =>
    obtain rfl := Option.some.inj same
    have created := congrArg (fun r => (r.1, some (BusCall.createTopic (B := B) name r.2)))
      (bus.forget_createStep name pc)
    cases pc with
    | done result => rfl
    | _ => exact created
  | send name message pc =>
    obtain rfl := Option.some.inj same
    have sent := congrArg (fun r => (r.1, some (BusCall.send name message r.2)))
      (Bus.forget_sendStep attached name message pc)
    cases pc with
    | done result => rfl
    | _ => exact sent
  | subscribeToTopic name => cases same

theorem forget_update (s : State ring B) (bus : Bus ring B) (i : Nat) (call : Option (Call B)) :
    (⟨bus, Function.update s.calls i call⟩ : State ring B).forget =
      ⟨bus.forget, Function.update s.forget.calls i (call.bind Call.forget)⟩ :=
  congrArg (CallState.mk bus.forget)
    (Function.comp_update (fun call => Option.bind call Call.forget) s.calls i call)

theorem forget_calls (s : State ring B) (i : Nat) :
    s.forget.calls i = (s.calls i).bind Call.forget := rfl

theorem step_forget {ls : List (Label B)} {s t : State ring B} {l : Label B} (sound : Sound ls s)
    (step : Step s l t) : t.forget = s.forget ∨ ∃ m, CallStep s.forget m t.forget := by
  cases step with
  | @call i call idle starts =>
    have free : s.forget.calls i = none := by
      rw [forget_calls, idle]
      rfl
    rw [forget_update]
    cases call with
    | createTopic name pc =>
      exact Or.inr ⟨_, @CallStep.call _ _ _ i (.createTopic name pc) free starts⟩
    | send name message pc =>
      exact Or.inr ⟨_, @CallStep.call _ _ _ i (.send name message pc) free starts⟩
    | subscribeToTopic name =>
      apply Or.inl
      change (⟨s.bus.forget, Function.update s.forget.calls i none⟩ : CallState ring B) = s.forget
      rw [← free, Function.update_eq_self]
      rfl
  | @advance i call active =>
    have here : s.forget.calls i = call.forget := by
      rw [forget_calls, active]
      rfl
    rw [forget_update]
    cases running : call.forget with
    | some coarse =>
      rw [running] at here
      have advanced := CallStep.advance here
      have moved : coarse.advance s.forget.bus = _ := forget_advance sound.attached running
      rw [moved] at advanced
      exact Or.inr ⟨_, advanced⟩
    | none =>
      rw [running] at here
      apply Or.inl
      cases call with
      | subscribeToTopic name =>
        change (⟨s.bus.forget, Function.update s.forget.calls i none⟩ : CallState ring B) = s.forget
        rw [← here, Function.update_eq_self]
        rfl
      | _ => cases running

theorem step_forget_subscribed {s t : State ring B} {l : Label B}
    {receiver : Option (ChannelId × Cursor × Option B)} (step : Step s l t)
    (given : l.event = .subscribed receiver) :
    s.forget.bus.subscribeToTopic l.name = receiver.map fun r => r.2 := by
  cases step with
  | call idle starts => cases given
  | @advance i call active =>
    cases call with
    | subscribeToTopic name =>
      cases given
      exact s.bus.forget_subscribe name
    | createTopic name pc => cases pc <;> cases given
    | send name message pc =>
      cases pc with
      | creating pc => cases pc <;> cases given
      | store =>
        cases entry : s.bus.topics name with
        | none => simp [Call.advance, Bus.sendStep, Bus.storeEvent, entry] at given
        | some data => simp [Call.advance, Bus.sendStep, Bus.storeEvent, entry] at given
      | _ => cases given

/-- What holds of concurrent calls on the bus holds with the channels behind handles. -/
theorem run_forget {ls : List (Label B)} {s : State ring B} (run : Run Step State.start ls s) :
    ∃ ms, Run CallStep CallState.start ms s.forget := by
  induction run with
  | nil => exact ⟨[], Run.nil _⟩
  | snoc before last ih =>
    obtain ⟨ms, ran⟩ := ih
    rcases step_forget (run_sound before) last with same | ⟨m, step⟩
    · exact ⟨ms, same ▸ ran⟩
    · exact ⟨_, Run.snoc ran step⟩

end Handles
end PubSub
