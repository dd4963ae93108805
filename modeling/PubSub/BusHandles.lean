import PubSub.Bus
import PubSub.ChannelHeap

/- The bus once more, with the channels of the topics behind handles, as the source has
   them: an entry that was replaced would have another channel than the receivers that
   were given out before. Nothing here replaces one. -/
namespace PubSub
namespace Handles
open Channels

variable {ring : Ring} {B : Type}

structure TopicData (B : Type) where
  sender : ChannelId
  lastMessage : Option B

structure Bus (ring : Ring) (B : Type) where
  channels : ChannelHeap ring.size B
  topics : Str → Option (TopicData B)
  topicEventsTx : Broadcast ring.size TopicEvent

inductive Event (B : Type) where
  | accessed
  | entered (sender : ChannelId)
  | stored (sender : ChannelId) (message : B)
  | missed
  | subscribed (receiver : Option (ChannelId × Cursor × Option B))
  | returned (result : Except String Unit)

namespace Event

def channel : Event B → Option ChannelId
  | .entered sender => some sender
  | .stored sender _ => some sender
  | .subscribed receiver => receiver.map fun r => r.1
  | _ => none

def message : Event B → Option B
  | .stored _ message => some message
  | _ => none

end Event

namespace Bus

def new : Bus ring B := ⟨ChannelHeap.empty, fun _ => none, Broadcast.new⟩

def containsKey (bus : Bus ring B) (name : Str) : Bool := (bus.topics name).isSome

/-- `entry(name).or_insert_with(TopicData::new)`, with the sender of the entry it returns. A
    channel is made only where the entry is vacant. -/
def insertTopic (bus : Bus ring B) (name : Str) : Bus ring B × ChannelId :=
  match bus.topics name with
  | some data => (bus, data.sender)
  | none =>
    let (channels, sender) := bus.channels.create
    ({ bus with
       channels := channels
       topics := Function.update bus.topics name (some ⟨sender, none⟩) }, sender)

def announceTopic (bus : Bus ring B) (name : Str) : Bus ring B :=
  { bus with topicEventsTx := bus.topicEventsTx.send (.created name) }

def storeAndBroadcast (bus : Bus ring B) (name : Str) (message : B) :
    Except String Unit × Bus ring B :=
  match bus.topics name with
  | none => (.error "Topic not found", bus)
  | some data =>
    (.ok (), { bus with
      channels := bus.channels.send data.sender message
      topics := Function.update bus.topics name (some { data with lastMessage := some message }) })

def storeEvent (bus : Bus ring B) (name : Str) (message : B) : Event B :=
  match bus.topics name with
  | none => .missed
  | some data => .stored data.sender message

def subscribeToTopic (bus : Bus ring B) (name : Str) : Option (ChannelId × Cursor × Option B) :=
  (bus.topics name).map fun data =>
    (data.sender, (bus.channels.channel data.sender).subscribe, data.lastMessage)

def createStep (bus : Bus ring B) (name : Str) : CreatePc → Event B × Bus ring B × CreatePc
  | .start => (.accessed, bus, if bus.containsKey name then .done false else .insert)
  | .insert => (.entered (bus.insertTopic name).2, (bus.insertTopic name).1,
      .announce (!bus.containsKey name))
  | .announce _ => (.accessed, bus.announceTopic name, .done true)
  | .done created => (.accessed, bus, .done created)

def sendStep (bus : Bus ring B) (name : Str) (message : B) :
    SendPc → Event B × Bus ring B × SendPc
  | .start => (.accessed, bus, if bus.containsKey name then .store else .creating .start)
  | .creating (.done _) => (.accessed, bus, .store)
  | .creating pc =>
    let (event, bus, pc) := bus.createStep name pc
    (event, bus, .creating pc)
  | .store =>
    let (result, after) := bus.storeAndBroadcast name message
    (bus.storeEvent name message, after, .done result)
  | .done result => (.accessed, bus, .done result)

end Bus

inductive Call (B : Type) where
  | createTopic (name : Str) (pc : CreatePc)
  | send (name : Str) (message : B) (pc : SendPc)
  | subscribeToTopic (name : Str)

namespace Call

def name : Call B → Str
  | .createTopic name _ => name
  | .send name _ _ => name
  | .subscribeToTopic name => name

def Starts : Call B → Prop
  | .createTopic _ pc => pc = .start
  | .send _ _ pc => pc = .start
  | .subscribeToTopic _ => True

def advance (bus : Bus ring B) : Call B → Event B × Bus ring B × Option (Call B)
  | .createTopic _ (.done _) => (.accessed, bus, none)
  | .createTopic name pc =>
    let (event, bus, pc) := bus.createStep name pc
    (event, bus, some (.createTopic name pc))
  | .send _ _ (.done result) => (.returned result, bus, none)
  | .send name message pc =>
    let (event, bus, pc) := bus.sendStep name message pc
    (event, bus, some (.send name message pc))
  | .subscribeToTopic name => (.subscribed (bus.subscribeToTopic name), bus, none)

end Call

structure State (ring : Ring) (B : Type) where
  bus : Bus ring B
  calls : Nat → Option (Call B)

structure Label (B : Type) where
  caller : Nat
  name : Str
  event : Event B

inductive Step : State ring B → Label B → State ring B → Prop where
  | call {s : State ring B} {i : Nat} {call : Call B} (idle : s.calls i = none)
      (starts : call.Starts) :
      Step s ⟨i, call.name, .accessed⟩ ⟨s.bus, Function.update s.calls i (some call)⟩
  | advance {s : State ring B} {i : Nat} {call : Call B} (active : s.calls i = some call) :
      Step s ⟨i, call.name, (call.advance s.bus).1⟩
        ⟨(call.advance s.bus).2.1, Function.update s.calls i (call.advance s.bus).2.2⟩

def State.start : State ring B := ⟨Bus.new, fun _ => none⟩

def stored (name : Str) (ls : List (Label B)) : List B :=
  ls.filterMap fun l => if l.name = name then l.event.message else none

/-! What one step does. -/

inductive Effect (bus : Bus ring B) (name : Str) : Event B → Bus ring B → Prop where
  | look {event : Event B} {after : Bus ring B} (quiet : event.channel = none)
      (silent : event.message = none) (topics : after.topics = bus.topics)
      (channels : after.channels = bus.channels) : Effect bus name event after
  | enter : Effect bus name (.entered (bus.insertTopic name).2) (bus.insertTopic name).1
  | store {data : TopicData B} (message : B) (found : bus.topics name = some data) :
      Effect bus name (.stored data.sender message) (bus.storeAndBroadcast name message).2
  | subscribe {data : TopicData B} (found : bus.topics name = some data) :
      Effect bus name (.subscribed (bus.subscribeToTopic name)) bus

/-- What must hold of the map for a call to be where it is. -/
def Call.Ready (bus : Bus ring B) : Call B → Prop
  | .send name _ .store => bus.containsKey name = true
  | .send name _ (.creating (.announce _)) => bus.containsKey name = true
  | .send name _ (.creating (.done _)) => bus.containsKey name = true
  | .send _ _ (.done result) => result = .ok ()
  | _ => True

theorem update_entry {K V : Type} [DecidableEq K] {f : K → Option V} {a b : K} {v : Option V}
    {w : V} (found : Function.update f a v b = some w) :
    (b = a ∧ v = some w) ∨ (b ≠ a ∧ f b = some w) := by
  by_cases same : b = a
  · subst same
    rw [Function.update_self] at found
    exact Or.inl ⟨rfl, found⟩
  · rw [Function.update_of_ne same] at found
    exact Or.inr ⟨same, found⟩

namespace Bus

theorem containsKey_iff {bus : Bus ring B} {name : Str} :
    bus.containsKey name = true ↔ ∃ data, bus.topics name = some data :=
  Option.isSome_iff_exists

theorem insertTopic_found {bus : Bus ring B} {name : Str} {data : TopicData B}
    (found : bus.topics name = some data) : bus.insertTopic name = (bus, data.sender) := by
  rw [insertTopic, found]

theorem insertTopic_vacant {bus : Bus ring B} {name : Str} (vacant : bus.topics name = none) :
    bus.insertTopic name =
      (⟨bus.channels.create.1,
        Function.update bus.topics name (some ⟨bus.channels.create.2, none⟩),
        bus.topicEventsTx⟩, bus.channels.create.2) := by
  rw [insertTopic, vacant]

theorem insertTopic_entry {bus : Bus ring B} {name topic : Str} {data : TopicData B}
    (vacant : bus.topics name = none) (found : (bus.insertTopic name).1.topics topic = some data) :
    (topic = name ∧ data = ⟨bus.channels.create.2, none⟩) ∨
      (topic ≠ name ∧ bus.topics topic = some data) := by
  rw [insertTopic_vacant vacant] at found
  rcases update_entry found with ⟨here, now⟩ | old
  · exact Or.inl ⟨here, (Option.some.inj now).symm⟩
  · exact Or.inr old

theorem storeAndBroadcast_found {bus : Bus ring B} {name : Str} {data : TopicData B}
    (found : bus.topics name = some data) (message : B) :
    bus.storeAndBroadcast name message =
      (.ok (), ⟨bus.channels.send data.sender message,
        Function.update bus.topics name (some ⟨data.sender, some message⟩),
        bus.topicEventsTx⟩) := by
  rw [storeAndBroadcast, found]

theorem storeAndBroadcast_entry {bus : Bus ring B} {name topic : Str} {data later : TopicData B}
    {message : B} (entry : bus.topics name = some data)
    (found : (bus.storeAndBroadcast name message).2.topics topic = some later) :
    (topic = name ∧ later = ⟨data.sender, some message⟩) ∨
      (topic ≠ name ∧ bus.topics topic = some later) := by
  rw [storeAndBroadcast_found entry] at found
  rcases update_entry found with ⟨here, now⟩ | old
  · exact Or.inl ⟨here, (Option.some.inj now).symm⟩
  · exact Or.inr old

theorem storeEvent_found {bus : Bus ring B} {name : Str} {data : TopicData B}
    (found : bus.topics name = some data) (message : B) :
    bus.storeEvent name message = .stored data.sender message := by
  rw [storeEvent, found]

end Bus

theorem effect_keeps {bus after : Bus ring B} {name : Str} {event : Event B}
    (effect : Effect bus name event after) {topic : Str} {data : TopicData B}
    (found : bus.topics topic = some data) :
    ∃ later, after.topics topic = some later ∧ later.sender = data.sender := by
  cases effect with
  | look quiet silent topics channels =>
    rw [topics]
    exact ⟨data, found, rfl⟩
  | enter =>
    cases entry : bus.topics name with
    | some old =>
      rw [Bus.insertTopic_found entry]
      exact ⟨data, found, rfl⟩
    | none =>
      have other : topic ≠ name := by
        intro same
        rw [same, entry] at found
        cases found
      rw [Bus.insertTopic_vacant entry]
      exact ⟨data, (Function.update_of_ne other _ _).trans found, rfl⟩
  | @store old message entry =>
    rw [Bus.storeAndBroadcast_found entry]
    by_cases same : topic = name
    · subst same
      obtain rfl := Option.some.inj (entry.symm.trans found)
      exact ⟨_, Function.update_self _ _ _, rfl⟩
    · exact ⟨data, (Function.update_of_ne same _ _).trans found, rfl⟩
  | subscribe entry => exact ⟨data, found, rfl⟩

theorem effect_containsKey {bus after : Bus ring B} {name : Str} {event : Event B}
    (effect : Effect bus name event after) {topic : Str} (present : bus.containsKey topic = true) :
    after.containsKey topic = true := by
  obtain ⟨data, found⟩ := Bus.containsKey_iff.mp present
  obtain ⟨later, kept, -⟩ := effect_keeps effect found
  exact Bus.containsKey_iff.mpr ⟨later, kept⟩

theorem effect_channel {bus after : Bus ring B} {name : Str} {event : Event B} {id : ChannelId}
    (effect : Effect bus name event after) (worked : event.channel = some id) :
    ∃ data, after.topics name = some data ∧ data.sender = id := by
  cases effect with
  | look quiet silent topics channels =>
    rw [quiet] at worked
    cases worked
  | enter =>
    obtain rfl := Option.some.inj worked
    cases entry : bus.topics name with
    | some old =>
      rw [Bus.insertTopic_found entry]
      exact ⟨old, entry, rfl⟩
    | none =>
      rw [Bus.insertTopic_vacant entry]
      exact ⟨_, Function.update_self _ _ _, rfl⟩
  | store message entry =>
    obtain rfl := Option.some.inj worked
    rw [Bus.storeAndBroadcast_found entry]
    exact ⟨_, Function.update_self _ _ _, rfl⟩
  | @subscribe data entry =>
    refine ⟨data, entry, ?_⟩
    simpa [Event.channel, Bus.subscribeToTopic, entry] using worked

theorem ready_mono {bus after : Bus ring B} {call : Call B} (ready : call.Ready bus)
    (kept : ∀ topic, bus.containsKey topic = true → after.containsKey topic = true) :
    call.Ready after := by
  cases call with
  | createTopic name pc => trivial
  | subscribeToTopic name => trivial
  | send name message pc =>
    cases pc with
    | start => trivial
    | store => exact kept name ready
    | done result => exact ready
    | creating pc =>
      cases pc with
      | start => trivial
      | insert => trivial
      | announce inserted => exact kept name ready
      | done created => exact kept name ready

namespace Call

theorem advance_effect {bus : Bus ring B} {call : Call B} (ready : call.Ready bus) :
    Effect bus call.name (call.advance bus).1 (call.advance bus).2.1 := by
  cases call with
  | createTopic name pc =>
    cases pc with
    | insert => exact .enter
    | _ => exact .look rfl rfl rfl rfl
  | send name message pc =>
    cases pc with
    | start => exact .look rfl rfl rfl rfl
    | creating pc =>
      cases pc with
      | insert => exact .enter
      | _ => exact .look rfl rfl rfl rfl
    | store =>
      obtain ⟨data, found⟩ := Bus.containsKey_iff.mp ready
      have store := Effect.store message found
      rw [← Bus.storeEvent_found found message] at store
      exact store
    | done result => exact .look rfl rfl rfl rfl
  | subscribeToTopic name =>
    cases entry : bus.topics name with
    | some data => exact .subscribe entry
    | none =>
      refine .look ?_ rfl rfl rfl
      simp [advance, Bus.subscribeToTopic, entry, Event.channel]

theorem advance_ready {bus : Bus ring B} {call next : Call B} (ready : call.Ready bus)
    (goesOn : (call.advance bus).2.2 = some next) : next.Ready (call.advance bus).2.1 := by
  cases call with
  | createTopic name pc =>
    cases pc with
    | done created => cases goesOn
    | _ =>
      obtain rfl := Option.some.inj goesOn
      trivial
  | send name message pc =>
    cases pc with
    | start =>
      obtain rfl := Option.some.inj goesOn
      change (send name message
        (if bus.containsKey name then .store else .creating .start)).Ready bus
      cases present : bus.containsKey name with
      | true => exact present
      | false => trivial
    | creating pc =>
      obtain rfl := Option.some.inj goesOn
      cases pc with
      | start =>
        change (send name message
          (.creating (if bus.containsKey name then .done false else .insert))).Ready bus
        cases present : bus.containsKey name with
        | true => exact present
        | false => trivial
      | insert =>
        have entered : Effect bus name (.entered (bus.insertTopic name).2 : Event B) _ := .enter
        obtain ⟨data, found, -⟩ := effect_channel entered rfl
        exact Bus.containsKey_iff.mpr ⟨data, found⟩
      | announce inserted => exact ready
      | done created => exact ready
    | store =>
      obtain rfl := Option.some.inj goesOn
      obtain ⟨data, found⟩ := Bus.containsKey_iff.mp ready
      exact congrArg Prod.fst (Bus.storeAndBroadcast_found found message)
    | done result => cases goesOn
  | subscribeToTopic name => cases goesOn

theorem advance_succeeds {bus : Bus ring B} {call : Call B} (ready : call.Ready bus) :
    (call.advance bus).1 ≠ .missed ∧
      ∀ result, (call.advance bus).1 = .returned result → result = .ok () := by
  cases call with
  | createTopic name pc => cases pc <;> exact ⟨nofun, nofun⟩
  | send name message pc =>
    cases pc with
    | start => exact ⟨nofun, nofun⟩
    | creating pc => cases pc <;> exact ⟨nofun, nofun⟩
    | store =>
      obtain ⟨data, found⟩ := Bus.containsKey_iff.mp ready
      have event : ((send name message .store).advance bus).1 = .stored data.sender message :=
        Bus.storeEvent_found found message
      rw [event]
      exact ⟨nofun, nofun⟩
    | done result =>
      refine ⟨nofun, ?_⟩
      intro result' same
      cases same
      exact ready
  | subscribeToTopic name => exact ⟨nofun, nofun⟩

end Call

end Handles
end PubSub
