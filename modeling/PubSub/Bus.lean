import Mathlib.Logic.Function.Basic
import PubSub.Channels
import PubSub.Interface

/- The bus that all connections share. Every access to the topic map and every
   broadcast is one atomic step, and other threads may run between any two of them:
   a call is a program counter that takes one such step at a time. -/
namespace PubSub
open Channels

/-- The length of a broadcast ring: at least what the channel was made for. -/
structure Ring where
  size : Nat
  holds : channelBufferSize ≤ size

theorem Ring.positive (ring : Ring) : 0 < ring.size :=
  Nat.lt_of_lt_of_le (by simp [channelBufferSize]) ring.holds

inductive TopicEvent where
  | created (name : Str)
  deriving DecidableEq

variable {ring : Ring} {B : Type}

structure TopicData (ring : Ring) (B : Type) where
  sender : Broadcast ring.size B
  lastMessage : Option B

namespace TopicData

def new : TopicData ring B := ⟨Broadcast.new, none⟩

def setLastMessage (data : TopicData ring B) (message : B) : TopicData ring B :=
  { data with lastMessage := some message }

def getLastMessage (data : TopicData ring B) : Option B := data.lastMessage

end TopicData

structure Bus (ring : Ring) (B : Type) where
  topics : Str → Option (TopicData ring B)
  topicEventsTx : Broadcast ring.size TopicEvent

namespace Bus

def new : Bus ring B := ⟨fun _ => none, Broadcast.new⟩

def subscribeToTopicEvents (bus : Bus ring B) : Cursor := bus.topicEventsTx.subscribe

def containsKey (bus : Bus ring B) (name : Str) : Bool := (bus.topics name).isSome

def insertTopic (bus : Bus ring B) (name : Str) : Bus ring B :=
  if bus.containsKey name then bus
  else { bus with topics := Function.update bus.topics name (some TopicData.new) }

def announceTopic (bus : Bus ring B) (name : Str) : Bus ring B :=
  { bus with topicEventsTx := bus.topicEventsTx.send (.created name) }

/-- The critical section of `send`, under the lock of the map entry. -/
def storeAndBroadcast (bus : Bus ring B) (name : Str) (message : B) :
    Except String Unit × Bus ring B :=
  match bus.topics name with
  | none => (.error "Topic not found", bus)
  | some data =>
    let data := data.setLastMessage message
    let data := { data with sender := data.sender.send message }
    (.ok (), { bus with topics := Function.update bus.topics name (some data) })

/-- The receiver and the last message are read under one lock of the map entry. -/
def subscribeToTopic (bus : Bus ring B) (name : Str) : Option (Cursor × Option B) :=
  (bus.topics name).map fun data => (data.sender.subscribe, data.getLastMessage)

/-- What an iteration over the map may collect that began when it held `before`. -/
structure Lists (bus : Bus ring B) (before : Str → Bool) (names : List Str) : Prop where
  once : names.Nodup
  complete : ∀ name, before name = true → name ∈ names
  present : ∀ name ∈ names, bus.containsKey name = true

end Bus

/-- Where a call of `create_topic` is. `inserted` tells whether the entry was new to this
    call; the code does not look at it. -/
inductive CreatePc where
  | start
  | insert
  | announce (inserted : Bool)
  | done (created : Bool)
  deriving DecidableEq

inductive SendPc where
  | start
  | creating (pc : CreatePc)
  | store
  | done (result : Except String Unit)

namespace Bus

def createStep (bus : Bus ring B) (name : Str) : CreatePc → Bus ring B × CreatePc
  | .start => (bus, if bus.containsKey name then .done false else .insert)
  | .insert => (bus.insertTopic name, .announce (!bus.containsKey name))
  | .announce _ => (bus.announceTopic name, .done true)
  | .done created => (bus, .done created)

def sendStep (bus : Bus ring B) (name : Str) (message : B) : SendPc → Bus ring B × SendPc
  | .start => (bus, if bus.containsKey name then .store else .creating .start)
  | .creating (.done _) => (bus, .store)
  | .creating pc =>
    let (bus, pc) := bus.createStep name pc
    (bus, .creating pc)
  | .store =>
    let (result, bus) := bus.storeAndBroadcast name message
    (bus, .done result)
  | .done result => (bus, .done result)

def sent (bus : Bus ring B) (name : Str) : List B :=
  match bus.topics name with
  | none => []
  | some data => data.sender.sent

def events (bus : Bus ring B) : List TopicEvent := bus.topicEventsTx.sent

def Retains (bus : Bus ring B) : Prop :=
  ∀ name data, bus.topics name = some data → data.lastMessage = data.sender.sent.getLast?

theorem new_retains : (new : Bus ring B).Retains := by
  intro name data found
  cases found

inductive Effect (bus : Bus ring B) (name : Str) (message : B) :
    SendPc → Bus ring B → SendPc → Prop where
  | look (pc next : SendPc) (waits : ∀ i, pc ≠ .creating (.announce i))
      (still : ∀ i, next ≠ .creating (.announce i)) : Effect bus name message pc bus next
  | insert : Effect bus name message (.creating .insert) (bus.insertTopic name)
      (.creating (.announce (!bus.containsKey name)))
  | announce (inserted : Bool) : Effect bus name message (.creating (.announce inserted))
      (bus.announceTopic name) (.creating (.done true))
  | store : Effect bus name message .store (bus.storeAndBroadcast name message).2
      (.done (bus.storeAndBroadcast name message).1)

theorem sendStep_effect (bus : Bus ring B) (name : Str) (message : B) (pc : SendPc) :
    Effect bus name message pc (bus.sendStep name message pc).1
      (bus.sendStep name message pc).2 := by
  cases pc with
  | start =>
    apply Effect.look
    · simp
    · intro i
      simp only [sendStep]
      split <;> simp
  | creating pc =>
    cases pc with
    | start =>
      apply Effect.look
      · simp
      · intro i
        simp only [sendStep, createStep]
        split <;> simp
    | insert => exact Effect.insert
    | announce inserted => exact Effect.announce inserted
    | done created => exact Effect.look _ _ (by simp) (by simp [sendStep])
  | store => exact Effect.store
  | done result => exact Effect.look _ _ (by simp) (by simp [sendStep])

/-! What the accesses to the map change. -/

theorem insertTopic_topics_self (bus : Bus ring B) (name : Str) :
    (bus.insertTopic name).topics name = some ((bus.topics name).getD TopicData.new) := by
  unfold insertTopic containsKey
  cases found : bus.topics name <;> simp [found]

theorem insertTopic_topics_ne (bus : Bus ring B) {name other : Str} (differ : other ≠ name) :
    (bus.insertTopic name).topics other = bus.topics other := by
  unfold insertTopic
  split
  · rfl
  · exact Function.update_of_ne differ _ _

theorem insertTopic_events (bus : Bus ring B) (name : Str) :
    (bus.insertTopic name).topicEventsTx = bus.topicEventsTx := by
  unfold insertTopic
  split <;> rfl

theorem storeAndBroadcast_topics_self {bus : Bus ring B} {name : Str}
    {data : TopicData ring B} (found : bus.topics name = some data) (message : B) :
    (bus.storeAndBroadcast name message).2.topics name =
      some ⟨data.sender.send message, some message⟩ := by
  simp [storeAndBroadcast, found, TopicData.setLastMessage]

theorem storeAndBroadcast_missing {bus : Bus ring B} {name : Str}
    (missing : bus.topics name = none) (message : B) :
    (bus.storeAndBroadcast name message).2 = bus := by
  simp [storeAndBroadcast, missing]

theorem storeAndBroadcast_topics_ne (bus : Bus ring B) {name other : Str}
    (differ : other ≠ name) (message : B) :
    (bus.storeAndBroadcast name message).2.topics other = bus.topics other := by
  unfold storeAndBroadcast
  split
  · rfl
  · exact Function.update_of_ne differ _ _

theorem storeAndBroadcast_events (bus : Bus ring B) (name : Str) (message : B) :
    (bus.storeAndBroadcast name message).2.topicEventsTx = bus.topicEventsTx := by
  unfold storeAndBroadcast
  split <;> rfl

theorem storeAndBroadcast_containsKey (bus : Bus ring B) (name : Str) (message : B)
    (other : Str) :
    (bus.storeAndBroadcast name message).2.containsKey other = bus.containsKey other := by
  unfold containsKey
  by_cases same : other = name
  · subst same
    cases found : bus.topics other with
    | none => rw [storeAndBroadcast_missing found, found]
    | some data =>
      rw [storeAndBroadcast_topics_self found]
      rfl
  · rw [storeAndBroadcast_topics_ne bus same]

theorem insertTopic_containsKey (bus : Bus ring B) (name other : Str) :
    (bus.insertTopic name).containsKey other = (bus.containsKey other || other = name) := by
  unfold containsKey
  by_cases same : other = name
  · subst same
    rw [insertTopic_topics_self]
    simp
  · rw [insertTopic_topics_ne bus same]
    simp [same]

theorem effect_retains {bus after : Bus ring B} {name : Str} {message : B} {pc next : SendPc}
    (effect : Effect bus name message pc after next) (retains : bus.Retains) :
    after.Retains := by
  intro other data found
  cases effect with
  | look pc next waits still => exact retains other data found
  | announce inserted => exact retains other data found
  | insert =>
    by_cases same : other = name
    · subst same
      rw [insertTopic_topics_self] at found
      obtain rfl := Option.some.inj found
      cases before : bus.topics other with
      | none => rfl
      | some data => exact retains other data before
    · rw [insertTopic_topics_ne bus same] at found
      exact retains other data found
  | store =>
    by_cases same : other = name
    · subst same
      cases before : bus.topics other with
      | none =>
        rw [storeAndBroadcast_missing before] at found
        exact retains other data found
      | some old =>
        rw [storeAndBroadcast_topics_self before] at found
        obtain rfl := Option.some.inj found
        simp [Broadcast.send]
    · rw [storeAndBroadcast_topics_ne bus same] at found
      exact retains other data found

theorem effect_sent {bus after : Bus ring B} {name : Str} {message : B} {pc next : SendPc}
    (effect : Effect bus name message pc after next) (other : Str) :
    after.sent other = bus.sent other ∨
      (pc = .store ∧ other = name ∧ after.sent other = bus.sent other ++ [message]) := by
  cases effect with
  | look pc next waits still => exact Or.inl rfl
  | announce inserted => exact Or.inl rfl
  | insert =>
    apply Or.inl
    by_cases same : other = name
    · subst same
      unfold sent
      rw [insertTopic_topics_self]
      cases bus.topics other <;> rfl
    · unfold sent
      rw [insertTopic_topics_ne bus same]
  | store =>
    by_cases same : other = name
    · subst same
      cases before : bus.topics other with
      | none => exact Or.inl (by rw [storeAndBroadcast_missing before])
      | some data =>
        refine Or.inr ⟨rfl, rfl, ?_⟩
        unfold sent
        rw [storeAndBroadcast_topics_self before, before]
        rfl
    · apply Or.inl
      unfold sent
      rw [storeAndBroadcast_topics_ne bus same]

theorem effect_containsKey {bus after : Bus ring B} {name : Str} {message : B}
    {pc next : SendPc} (effect : Effect bus name message pc after next) {other : Str}
    (present : bus.containsKey other = true) : after.containsKey other = true := by
  cases effect with
  | look pc next waits still => exact present
  | announce inserted => exact present
  | insert => rw [insertTopic_containsKey, present, Bool.true_or]
  | store => rw [storeAndBroadcast_containsKey, present]

end Bus
end PubSub
