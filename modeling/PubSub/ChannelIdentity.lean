import PubSub.BusHandles
import PubSub.LabelledRun

/- What holds of the channels of the topics over whole runs of concurrent calls. -/
namespace PubSub
namespace Handles
open Channels LabelledRun

variable {ring : Ring} {B : Type}

structure Attached (ls : List (Label B)) (bus : Bus ring B) : Prop where
  made : ∀ name data, bus.topics name = some data → bus.channels.Made data.sender
  apart : ∀ name other data data', bus.topics name = some data → bus.topics other = some data' →
    data.sender = data'.sender → name = other
  sent : ∀ name data, bus.topics name = some data →
    (bus.channels.channel data.sender).sent = stored name ls ∧
      data.lastMessage = (stored name ls).getLast?
  worked : ∀ l ∈ ls, ∀ id, l.event.channel = some id →
    ∃ data, bus.topics l.name = some data ∧ data.sender = id

theorem stored_snoc (name : Str) (ls : List (Label B)) (l : Label B) :
    stored name (ls ++ [l]) =
      stored name ls ++ (if l.name = name then l.event.message else none).toList :=
  filterMap_snoc _ ls l

theorem stored_append (name : Str) (ls ms : List (Label B)) :
    stored name (ls ++ ms) = stored name ls ++ stored name ms :=
  List.filterMap_append

theorem message_channel {event : Event B} {message : B} (now : event.message = some message) :
    ∃ id, event.channel = some id := by
  cases event with
  | stored sender message => exact ⟨sender, rfl⟩
  | _ => cases now

theorem Attached.stored_vacant {ls : List (Label B)} {bus : Bus ring B} (attached : Attached ls bus)
    {name : Str} (vacant : bus.topics name = none) : stored name ls = [] := by
  unfold stored
  rw [List.filterMap_eq_nil_iff]
  intro l member
  split
  · rename_i same
    cases now : l.event.message with
    | none => rfl
    | some message =>
      obtain ⟨id, worked⟩ := message_channel now
      obtain ⟨data, found, -⟩ := attached.worked l member id worked
      rw [same, vacant] at found
      cases found
  · rfl

theorem stored_silent {name : Str} {ls : List (Label B)} {l : Label B}
    (silent : l.event.message = none) : stored name (ls ++ [l]) = stored name ls := by
  rw [stored_snoc, silent, ite_self, Option.toList_none, List.append_nil]

theorem worked_step {ls : List (Label B)} {bus after : Bus ring B} {l : Label B}
    (attached : Attached ls bus) (effect : Effect bus l.name l.event after) :
    ∀ m ∈ ls ++ [l], ∀ id, m.event.channel = some id →
      ∃ data, after.topics m.name = some data ∧ data.sender = id := by
  intro m member id worked
  rcases List.mem_append.mp member with old | now
  · obtain ⟨data, found, same⟩ := attached.worked m old id worked
    obtain ⟨later, kept, still⟩ := effect_keeps effect found
    exact ⟨later, kept, still.trans same⟩
  · rw [List.mem_singleton.mp now] at worked ⊢
    exact effect_channel effect worked

theorem attached_quiet {ls : List (Label B)} {bus after : Bus ring B} {l : Label B}
    (attached : Attached ls bus) (effect : Effect bus l.name l.event after)
    (silent : l.event.message = none) (topics : after.topics = bus.topics)
    (channels : after.channels = bus.channels) : Attached (ls ++ [l]) after := by
  refine ⟨?_, ?_, ?_, worked_step attached effect⟩
  · rw [topics, channels]
    exact attached.made
  · rw [topics]
    exact attached.apart
  · intro name data found
    rw [topics] at found
    rw [channels, stored_silent silent]
    exact attached.sent name data found

theorem attached_enter {ls : List (Label B)} {bus : Bus ring B} {l : Label B}
    (attached : Attached ls bus) (event : l.event = .entered (bus.insertTopic l.name).2) :
    Attached (ls ++ [l]) (bus.insertTopic l.name).1 := by
  have silent : l.event.message = none := by rw [event]; rfl
  have effect : Effect bus l.name l.event (bus.insertTopic l.name).1 := by
    rw [event]
    exact .enter
  cases entry : bus.topics l.name with
  | some data =>
    have same : (bus.insertTopic l.name).1 = bus := by rw [Bus.insertTopic_found entry]
    exact attached_quiet attached effect silent (by rw [same]) (by rw [same])
  | none =>
    have channels : (bus.insertTopic l.name).1.channels = bus.channels.create.1 := by
      rw [Bus.insertTopic_vacant entry]
    refine ⟨?_, ?_, ?_, worked_step attached effect⟩
    · intro name data found
      rw [channels]
      rcases Bus.insertTopic_entry entry found with ⟨rfl, rfl⟩ | ⟨-, old⟩
      · exact bus.channels.create_made
      · exact ChannelHeap.made_create (attached.made name data old)
    · intro name other data data' found found' same
      rcases Bus.insertTopic_entry entry found with ⟨rfl, rfl⟩ | ⟨-, old⟩
      · rcases Bus.insertTopic_entry entry found' with ⟨rfl, -⟩ | ⟨-, old'⟩
        · rfl
        · exact absurd same.symm (ChannelHeap.create_fresh (attached.made other data' old'))
      · rcases Bus.insertTopic_entry entry found' with ⟨rfl, rfl⟩ | ⟨-, old'⟩
        · exact absurd same (ChannelHeap.create_fresh (attached.made name data old))
        · exact attached.apart name other data data' old old' same
    · intro name data found
      rw [channels, ChannelHeap.channel_create, stored_silent silent]
      rcases Bus.insertTopic_entry entry found with ⟨rfl, rfl⟩ | ⟨-, old⟩
      · rw [attached.stored_vacant entry, ChannelHeap.channel_create_new]
        exact ⟨rfl, rfl⟩
      · exact attached.sent name data old

theorem attached_store {ls : List (Label B)} {bus : Bus ring B} {l : Label B} {data : TopicData B}
    {message : B} (attached : Attached ls bus) (entry : bus.topics l.name = some data)
    (event : l.event = .stored data.sender message) :
    Attached (ls ++ [l]) (bus.storeAndBroadcast l.name message).2 := by
  have effect : Effect bus l.name l.event (bus.storeAndBroadcast l.name message).2 := by
    rw [event]
    exact .store message entry
  have channels : (bus.storeAndBroadcast l.name message).2.channels =
      bus.channels.send data.sender message := by
    rw [Bus.storeAndBroadcast_found entry]
  have now : l.event.message = some message := by
    rw [event]
    rfl
  -- the entries are the old ones up to the last message
  have sender : ∀ name later, (bus.storeAndBroadcast l.name message).2.topics name = some later →
      ∃ old, bus.topics name = some old ∧ old.sender = later.sender := by
    intro name later found
    rcases Bus.storeAndBroadcast_entry entry found with ⟨rfl, rfl⟩ | ⟨-, old⟩
    · exact ⟨data, entry, rfl⟩
    · exact ⟨later, old, rfl⟩
  refine ⟨?_, ?_, ?_, worked_step attached effect⟩
  · intro name later found
    obtain ⟨old, before, same⟩ := sender name later found
    rw [channels, ← same]
    exact (ChannelHeap.made_send _ _ _ _).mpr (attached.made name old before)
  · intro name other later later' found found' same
    obtain ⟨old, before, eq⟩ := sender name later found
    obtain ⟨old', before', eq'⟩ := sender other later' found'
    exact attached.apart name other old old' before before' (by rw [eq, eq', same])
  · intro name later found
    rw [channels, stored_snoc, now]
    rcases Bus.storeAndBroadcast_entry entry found with ⟨rfl, rfl⟩ | ⟨other, old⟩
    · rw [if_pos rfl, ChannelHeap.channel_send_self (attached.made l.name data entry)]
      simp [Broadcast.send, (attached.sent l.name data entry).1]
    · have differ : later.sender ≠ data.sender := fun same =>
        other (attached.apart name l.name later data old entry same)
      rw [if_neg (Ne.symm other), Option.toList_none, List.append_nil,
        ChannelHeap.channel_send_ne _ differ]
      exact attached.sent name later old

theorem step_attached {ls : List (Label B)} {bus after : Bus ring B} {l : Label B}
    (attached : Attached ls bus) (effect : Effect bus l.name l.event after) :
    Attached (ls ++ [l]) after := by
  generalize event : l.event = now at effect
  cases effect with
  | look quiet silent topics channels =>
    subst event
    exact attached_quiet attached (.look quiet silent topics channels) silent topics channels
  | enter => exact attached_enter attached event
  | store message entry => exact attached_store attached entry event
  | subscribe entry =>
    refine attached_quiet attached ?_ ?_ rfl rfl
    · rw [event]
      exact .subscribe entry
    · rw [event]
      rfl

structure Sound (ls : List (Label B)) (s : State ring B) : Prop where
  attached : Attached ls s.bus
  ready : ∀ i call, s.calls i = some call → call.Ready s.bus
  succeeded : ∀ l ∈ ls, l.event ≠ .missed ∧
    ∀ result, l.event = .returned result → result = .ok ()

theorem starts_ready {call : Call B} (starts : call.Starts) (bus : Bus ring B) :
    call.Ready bus := by
  cases call with
  | send name message pc =>
    obtain rfl : pc = .start := starts
    trivial
  | _ => trivial

theorem step_sound {ls : List (Label B)} {s t : State ring B} {l : Label B} (sound : Sound ls s)
    (step : Step s l t) : Sound (ls ++ [l]) t := by
  obtain ⟨attached, ready, succeeded⟩ := sound
  cases step with
  | @call i call idle starts =>
    refine ⟨step_attached attached (.look rfl rfl rfl rfl), ?_, ?_⟩
    · intro j other active
      rcases update_entry active with ⟨-, now⟩ | ⟨-, old⟩
      · exact Option.some.inj now ▸ starts_ready starts _
      · exact ready j other old
    · intro m member
      rcases List.mem_append.mp member with old | now
      · exact succeeded m old
      · rw [List.mem_singleton.mp now]
        exact ⟨nofun, nofun⟩
  | @advance i call active =>
    have here := ready i call active
    have effect := call.advance_effect here
    refine ⟨step_attached attached effect, ?_, ?_⟩
    · intro j other active'
      rcases update_entry active' with ⟨-, now⟩ | ⟨-, old⟩
      · exact call.advance_ready here now
      · exact ready_mono (ready j other old) fun topic => effect_containsKey effect
    · intro m member
      rcases List.mem_append.mp member with old | now
      · exact succeeded m old
      · rw [List.mem_singleton.mp now]
        exact call.advance_succeeds here

theorem start_sound : Sound [] (State.start : State ring B) := by
  refine ⟨⟨?_, ?_, ?_, nofun⟩, ?_, nofun⟩
  · intro name data found
    cases found
  · intro name other data data' found
    cases found
  · intro name data found
    cases found
  · intro i call active
    cases active

theorem run_sound {ls : List (Label B)} {s : State ring B} (run : Run Step State.start ls s) :
    Sound ls s :=
  run_history Sound start_sound (fun _ _ _ _ _ sound step => step_sound sound step) run

theorem run_keeps {ls ms : List (Label B)} {s t : State ring B} (before : Run Step State.start ls s)
    (run : Run Step s ms t) {name : Str} {data : TopicData B}
    (found : s.bus.topics name = some data) :
    ∃ later, t.bus.topics name = some later ∧ later.sender = data.sender := by
  induction run with
  | nil => exact ⟨data, found, rfl⟩
  | @snoc m t ms l between last ih =>
    obtain ⟨later, here, same⟩ := ih
    have sound := run_sound (run_append before between)
    cases last with
    | call idle starts => exact ⟨later, here, same⟩
    | @advance i call active =>
      obtain ⟨latest, kept, still⟩ :=
        effect_keeps (call.advance_effect (sound.ready i call active)) here
      exact ⟨latest, kept, still.trans same⟩

theorem step_subscribed {ls : List (Label B)} {s t : State ring B} {l : Label B} {id : ChannelId}
    {cursor : Cursor} {last : Option B} (sound : Sound ls s) (step : Step s l t)
    (given : l.event = .subscribed (some (id, cursor, last))) :
    cursor = (stored l.name ls).length ∧ last = (stored l.name ls).getLast? := by
  cases step with
  | call idle starts => cases given
  | @advance i call active =>
    have effect := call.advance_effect (sound.ready i call active)
    generalize (call.advance s.bus).1 = event at effect given
    generalize (call.advance s.bus).2.1 = after at effect
    cases effect with
    | look quiet silent topics channels =>
      have heard : event.channel = some id := by
        rw [show event = .subscribed (some (id, cursor, last)) from given]
        rfl
      rw [quiet] at heard
      cases heard
    | enter => cases given
    | store message entry => cases given
    | subscribe entry =>
      have answer : s.bus.subscribeToTopic call.name = some (id, cursor, last) :=
        Event.subscribed.inj given
      obtain ⟨data, found, same⟩ := Option.map_eq_some_iff.mp answer
      obtain ⟨sent, retained⟩ := sound.attached.sent call.name data found
      simp only [Prod.mk.injEq] at same
      obtain ⟨-, rfl, rfl⟩ := same
      exact ⟨congrArg List.length sent, retained⟩

/-- In every run an entry keeps the channel it was made with: whatever inserts, sends and
    subscriptions of a topic do, before and after, they do at this channel. A receiver hears
    all that is stored after it was given out, no send fails, and what is retained was stored
    last. -/
theorem channel_never_replaced {ls ms : List (Label B)} {s t : State ring B}
    (before : Run Step State.start ls s) (run : Run Step s ms t) :
    (∀ name data, s.bus.topics name = some data →
      ∃ later, t.bus.topics name = some later ∧ later.sender = data.sender) ∧
    (∀ l ∈ ls ++ ms, ∀ id, l.event.channel = some id →
      ∃ data, t.bus.topics l.name = some data ∧ data.sender = id) ∧
    (∀ first l rest id cursor last, ls ++ ms = first ++ l :: rest →
      l.event = .subscribed (some (id, cursor, last)) →
      (t.bus.channels.channel id).sent.drop cursor = stored l.name rest ∧
        last = (stored l.name first).getLast?) ∧
    (∀ l ∈ ls ++ ms, l.event ≠ .missed ∧
      ∀ result, l.event = .returned result → result = .ok ()) ∧
    ∀ name, (t.bus.topics name).bind TopicData.lastMessage = (stored name (ls ++ ms)).getLast? := by
  have whole := run_append before run
  obtain ⟨attached, ready, succeeded⟩ := run_sound whole
  refine ⟨fun name data found => run_keeps before run found, attached.worked, ?_, succeeded, ?_⟩
  · intro first l rest id cursor last split given
    rw [split] at whole
    obtain ⟨m, opening, tail⟩ := run_split whole
    obtain ⟨n, step, -⟩ := run_uncons tail
    obtain ⟨rfl, retained⟩ := step_subscribed (run_sound opening) step given
    have worked : l.event.channel = some id := by
      rw [given]
      rfl
    obtain ⟨data, found, rfl⟩ := attached.worked l (by rw [split]; simp) id worked
    have silent : l.event.message = none := by
      rw [given]
      rfl
    refine ⟨?_, retained⟩
    rw [(attached.sent l.name data found).1, split, List.append_cons, stored_append,
      stored_silent silent, List.drop_left]
  · intro name
    cases entry : t.bus.topics name with
    | none =>
      rw [attached.stored_vacant entry]
      rfl
    | some data => exact (attached.sent name data entry).2

/-- Two callers both miss the topic; the second inserts it after a receiver was given out. -/
theorem raced_channel_kept :
    ∃ (ls ms : List (Label Nat)) (s t : State ⟨channelBufferSize, le_rfl⟩ Nat),
      Run Step State.start ls s ∧ Run Step s ms t ∧ ms ≠ [] ∧ s.bus.containsKey ['a'] = true ∧
      ∀ name data, s.bus.topics name = some data →
        ∃ later, t.bus.topics name = some later ∧ later.sender = data.sender := by
  have called := Run.snoc (Run.snoc (Run.nil (@State.start ⟨channelBufferSize, le_rfl⟩ Nat))
    (@Step.call _ _ _ 0 (.createTopic ['a'] .start) rfl rfl))
    (@Step.call _ _ _ 1 (.createTopic ['a'] .start) rfl rfl)
  have looked := Run.snoc (Run.snoc called (@Step.advance _ _ _ 0 _ rfl))
    (@Step.advance _ _ _ 1 _ rfl)
  have inserted := Run.snoc looked (@Step.advance _ _ _ 0 _ rfl)
  have given := Run.snoc
    (Run.snoc inserted (@Step.call _ _ _ 2 (.subscribeToTopic ['a']) rfl trivial))
    (@Step.advance _ _ _ 2 _ rfl)
  have kept := channel_never_replaced given <|
    Run.snoc (Run.nil _) (@Step.advance _ _ _ 1 (.createTopic ['a'] .insert) rfl)
  exact ⟨_, _, _, _, given, Run.snoc (Run.nil _) (.advance rfl), List.cons_ne_nil _ _, rfl, kept.1⟩

end Handles
end PubSub
