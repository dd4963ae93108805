import PubSub.Discovery
import PubSub.Solicited

/- When a client is up to date. Four things can keep the last message of a topic from a
   connection that has nothing left to read: its queue was full when it joined, its event
   receiver was overtaken, an `Unsubscribe` made the empty pattern held, or the topic was
   used before it was announced. Without them every connection converges. -/
namespace PubSub
open Channels LabelledRun
variable {ring : Ring} {V B : Type} {encode : Message V → Option B}

def Act.TriesToSend : Act V B → Prop
  | .retained _ _ _ => True
  | .retainedLost _ => True
  | _ => False

def Act.Polls : Act V B → Prop
  | .readEvent _ => True
  | .eventsLagged _ _ => True
  | _ => False

def Announces (h : ConnectionHandler V B) (topic : Str) : Prop :=
  ∃ bytes inserted, h.pc = .publishing topic bytes (.creating (.announce inserted))

/-- A step that does not cut the connection off from a topic it matches. -/
structure Smooth (c : Nat) (s : Broker ring V B) (l : Label V B) : Prop where
  /-- The outgoing queue has room for a retained message. -/
  room : ∀ h, s.connections c = some h → l.1 = c → l.2.TriesToSend → h.adapterSender.HasRoom
  /-- No overwritten event announces a topic that is matched but not streamed. -/
  heard : ∀ h, s.connections c = some h → l.1 = c → l.2.Polls → ∀ topic i, h.topicEvents ≤ i →
    i + ring.size < s.bus.events.length → s.bus.events[i]? = some (.created topic) →
    h.subscriptions.check topic = true → h.topicStreams topic ≠ none
  /-- No removal makes the empty pattern held while the empty topic is not streamed. -/
  hidden : ∀ h pattern removed, s.connections c = some h → l = (c, .unsubscribe pattern removed) →
    h.subscriptions.Exposes pattern → s.bus.containsKey [] = true → h.topicStreams [] ≠ none
  /-- No message is stored on a matched topic that is neither streamed nor announced, unless the
      connection itself is about to announce it. -/
  announced : ∀ d g name bytes, s.connections d = some g → g.pc = .publishing name bytes .store →
    l = (d, .sending name) → Pending s name → ∀ h, s.connections c = some h →
    h.subscriptions.check name = true → h.topicStreams name ≠ none ∨ Announces h name

abbrev SmoothRun (encode : Message V → Option B) (c : Nat) (ls : List (Label V B))
    (s : Broker ring V B) : Prop :=
  Run (fun s l t => BrokerStep encode s l t ∧ Smooth c s l) Broker.new ls s

structure CaughtUp (bus : Bus ring B) (h : ConnectionHandler V B) : Prop where
  waiting : ∃ enabled, h.pc = .select enabled
  commands : h.adapterReceiver.queue = []
  events : bus.topicEventsTx.recv h.topicEvents = .empty
  items : ∀ name cursor data, h.topicStreams name = some cursor →
    bus.topics name = some data → data.sender.recv cursor = .empty

/-- The topic is covered, or it is announced by the connection itself, or is still empty. -/
def Kept (s : Broker ring V B) (h : ConnectionHandler V B) (topic : Str) : Prop :=
  Covered s.bus h topic ∨ Announces h topic ∨ (Pending s topic ∧ s.bus.sent topic = [])

def KeepsUp (s : Broker ring V B) (c : Nat) : Prop :=
  ∀ h, s.connections c = some h → ∀ topic, s.bus.containsKey topic = true →
    h.subscriptions.check topic = true → Kept s h topic

theorem covered_smooth {s t : Broker ring V B} {l : Label V B} (step : BrokerStep encode s l t)
    {c : Nat} (smooth : Smooth c s l) {h h' : ConnectionHandler V B}
    (found : s.connections c = some h) (found' : t.connections c = some h') {topic : Str}
    (present : s.bus.containsKey topic = true) (matched : h.subscriptions.check topic = true)
    (still : h'.subscriptions.check topic = true) (covered : Covered s.bus h topic) :
    Covered t.bus h' topic := by
  rcases covered_step step found found' present matched still covered with kept | ⟨own, first, next,
    i, lagged, low, high, event⟩
  · exact kept
  · subst own
    cases step with
    | connect fresh => exact absurd (fresh.symm.trans found) (by simp)
    | adapter here step =>
      cases lagged
      cases step
    | handler here step =>
      obtain rfl := Option.some.inj (found.symm.trans here)
      rw [Broker.put_self] at found'
      obtain rfl := Option.some.inj found'
      cases lagged
      cases step with
      | eventsLagged at_ received =>
        obtain ⟨overtaken, rfl⟩ := Broadcast.recv_lagged received
        exact Or.inl (smooth.heard h found rfl trivial topic i low (Nat.add_lt_of_lt_sub high)
          event matched)

theorem newly_matched {s : Broker ring V B} {bus : Bus ring B} {c : Nat}
    {h h' : ConnectionHandler V B} {a : Act V B} (reachable : h.subscriptions.Reachable)
    (smooth : Smooth c s (c, a)) (found : s.connections c = some h)
    (step : HandlerStep encode s.bus h a bus h') {topic : Str}
    (present : s.bus.containsKey topic = true) (unmatched : h.subscriptions.check topic = false)
    (matched : h'.subscriptions.check topic = true) : Covered bus h' topic := by
  cases step with
  | subscribe at_ => exact Or.inr (Or.inl present)
  | @unsubscribe pattern result tree at_ removed =>
    have wf := GlobTree.reachable_wellFormed reachable
    have kept := removeUnmatched_kept (h := { h with subscriptions := tree }) matched
    rcases GlobTree.remove_check wf (GlobTree.step_wellFormed wf (.remove removed)) removed matched
      with before | ⟨rfl, exposed⟩
    · rw [before] at unmatched
      cases unmatched
    · have streaming := smooth.hidden h pattern _ found rfl exposed present
      exact Or.inl fun gone => streaming (kept.symm.trans gone)
  | _ => exact absurd (matched.symm.trans unmatched) (by simp)

theorem announces_step {s t : Broker ring V B} {l : Label V B} (reachable : s.Reachable encode)
    (step : BrokerStep encode s l t) {c : Nat} {h h' : ConnectionHandler V B}
    (found : s.connections c = some h) (found' : t.connections c = some h') {topic : Str}
    (announces : Announces h topic) : Kept t h' topic := by
  obtain ⟨bytes, inserted, at_⟩ := announces
  rcases announcing_step reachable step found at_ with ⟨g, there, same⟩ | told
  · obtain rfl := Option.some.inj (there.symm.trans found')
    exact Or.inr (Or.inl ⟨bytes, inserted, same.trans at_⟩)
  · exact Or.inl (Or.inr (Or.inr (told c h h' found found')))

theorem keepsUp_matched {s t : Broker ring V B} {l : Label V B} (reachable : s.Reachable encode)
    (step : BrokerStep encode s l t) {c : Nat} (smooth : Smooth c s l)
    {h h' : ConnectionHandler V B} (found : s.connections c = some h)
    (found' : t.connections c = some h') {topic : Str} (present : s.bus.containsKey topic = true)
    (matched : h.subscriptions.check topic = true)
    (still : h'.subscriptions.check topic = true) (kept : Kept s h topic) : Kept t h' topic := by
  rcases kept with covered | announces | ⟨pending, empty⟩
  · exact Or.inl (covered_smooth step smooth found found' present matched still covered)
  · exact announces_step reachable step found found' announces
  · rcases pending_step reachable step pending with waiting | told
    · rcases brokerStep_sent step topic with same | ⟨g, message, here, label, at_, _⟩
      · exact Or.inr (Or.inr ⟨waiting, same.trans empty⟩)
      · rcases smooth.announced l.1 g topic message here at_ (Prod.ext rfl label) pending h found
          matched with streaming | announces
        · exact Or.inl (covered_smooth step smooth found found' present matched still
            (Or.inl streaming))
        · exact announces_step reachable step found found' announces
    · exact Or.inl (Or.inr (Or.inr (told c h h' found found')))

theorem keepsUp_step {s t : Broker ring V B} {l : Label V B} {ls : List (Label V B)}
    (run : BrokerRun encode ls s) (step : BrokerStep encode s l t) {c : Nat}
    (smooth : Smooth c s l) (keeps : KeepsUp s c) : KeepsUp t c := by
  intro h' found' topic present still
  cases before : s.bus.containsKey topic with
  | false => exact Or.inr (Or.inr (created_pending step before present))
  | true =>
    have matchedBefore : ∀ h, s.connections c = some h → h.subscriptions.check topic = true →
        Kept t h' topic := by
      intro h found matched
      exact keepsUp_matched ⟨ls, run⟩ step smooth found found' before matched still
        (keeps h found topic before matched)
    by_cases own : c = l.1
    · subst own
      cases step with
      | connect fresh =>
        rw [Broker.put_self] at found'
        obtain rfl := Option.some.inj found'
        exact absurd (still.symm.trans (GlobTree.new_check topic)) (by simp)
      | @adapter c h after a here step =>
        rw [Broker.put_self] at found'
        obtain rfl := Option.some.inj found'
        exact matchedBefore h here (by rw [← (adapterStep_pc step).2.2.2]; exact still)
      | @handler c h after bus a here step =>
        rw [Broker.put_self] at found'
        obtain rfl := Option.some.inj found'
        cases matched : h.subscriptions.check topic with
        | true => exact matchedBefore h here matched
        | false =>
          obtain ⟨calls, tree, _⟩ := (run_traced run here).tree
          exact Or.inl (newly_matched ⟨calls, tree⟩ smooth here step before matched still)
    · rw [brokerStep_others step own] at found'
      exact matchedBefore h' found' still

theorem smoothRun_run {c : Nat} {ls : List (Label V B)} {s : Broker ring V B}
    (run : SmoothRun encode c ls s) : BrokerRun encode ls s :=
  run_mono (fun _ _ _ taken => taken.1) run

theorem smoothRun_keepsUp {c : Nat} {ls : List (Label V B)} {s : Broker ring V B}
    (run : SmoothRun encode c ls s) : KeepsUp s c := by
  refine run_history (fun _ s => KeepsUp s c) ?_ ?_ run
  · intro h found
    cases found
  · intro ls s l t before keeps taken
    exact keepsUp_step (smoothRun_run before) taken.1 taken.2 keeps

theorem smoothRun_nothing_lost {c : Nat} {ls : List (Label V B)} {s : Broker ring V B}
    (run : SmoothRun encode c ls s) (name : Str) : (c, Act.retainedLost name) ∉ ls := by
  refine run_history (fun ls _ => (c, Act.retainedLost name) ∉ ls) ?_ ?_ run
  · exact List.not_mem_nil
  · rintro ls s l t before kept ⟨step, smooth⟩ mem
    rcases List.mem_append.mp mem with old | new
    · exact kept old
    · obtain rfl := List.mem_singleton.mp new
      cases step with
      | adapter here step => cases step
      | handler here step =>
        cases step with
        | retainedLost at_ full => exact full (smooth.room _ here rfl trivial)

section Current
variable {c : Nat} {ls : List (Label V B)}
  {s : Broker ring V B} {h : ConnectionHandler V B} {topic : Str}

theorem caughtUp_streams (run : SmoothRun encode c ls s) (found : s.connections c = some h)
    (caughtUp : CaughtUp s.bus h) (matched : h.subscriptions.check topic = true)
    (present : s.bus.containsKey topic = true) (nonempty : s.bus.sent topic ≠ []) :
    h.topicStreams topic ≠ none := by
  obtain ⟨enabled, at_⟩ := caughtUp.waiting
  rcases smoothRun_keepsUp run h found topic present matched with
    (streaming | due | ⟨i, ahead, event⟩) | ⟨_, _, sending⟩ | ⟨_, empty⟩
  · exact streaming
  · rw [at_] at due
    exact due.elim
  · have ended := Broadcast.recv_empty caughtUp.events
    have inside := (List.getElem?_eq_some_iff.mp event).1
    exact absurd (Nat.lt_of_lt_of_le inside ended) (Nat.not_lt.mpr ahead)
  · rw [at_] at sending
    cases sending
  · exact absurd empty nonempty

theorem drained_last (run : SmoothRun encode c ls s) (drained : s.Drained c topic) {m : B}
    (last : (s.bus.sent topic).getLast? = some m) :
    (enqueuedOn c topic ls).getLast? = some ((s.bus.sent topic).length, m) := by
  have plain := smoothRun_run run
  have kept : ∀ mk ∈ ls.map (mark c topic), mk ≠ .lost := by
    intro mk member lost
    obtain ⟨⟨d, a⟩, here, rfl⟩ := List.mem_map.mp member
    obtain ⟨rfl, rfl⟩ := mark_lost lost
    exact smoothRun_nothing_lost run topic here
  have current := Subscription.run_current (s := Broker.new.view c topic) trivial rfl
    (run_view ⟨[], Run.nil _⟩ plain c topic) kept
  rw [← enqueuedOn_eq, Broker.view, drained_phase ⟨ls, plain⟩ drained] at current
  exact Subscription.current_last current last

end Current

/-- In a smooth run a connection that has caught up has been sent the last message of every
    topic it matches, and nothing of that topic after it. -/
theorem caught_up_is_current {c : Nat} {ls : List (Label V B)} {s : Broker ring V B}
    (run : SmoothRun encode c ls s) {h : ConnectionHandler V B}
    (found : s.connections c = some h) (caughtUp : CaughtUp s.bus h) {topic : Str}
    {data : TopicData ring B} {m : B} (known : s.bus.topics topic = some data)
    (matched : h.subscriptions.check topic = true) (retained : data.lastMessage = some m) :
    (enqueuedOn c topic ls).getLast? = some ((s.bus.sent topic).length, m) := by
  have last : (s.bus.sent topic).getLast? = some m := by
    rw [sent_of_topic known, ← run_retains (smoothRun_run run) topic data known, retained]
  have nonempty : s.bus.sent topic ≠ [] := by
    intro empty
    simp [empty] at last
  have present : s.bus.containsKey topic = true := by simp [Bus.containsKey, known]
  have streaming := caughtUp_streams run found caughtUp matched present nonempty
  obtain ⟨cursor, stream⟩ := Option.ne_none_iff_exists'.mp streaming
  obtain ⟨enabled, at_⟩ := caughtUp.waiting
  exact drained_last run ⟨h, enabled, cursor, data, found, at_, stream, known,
    caughtUp.items topic cursor data stream known⟩ last

/-! A connection that is alone with the broker runs smoothly while its queue has room. -/

def Lone (c : Nat) (s : Broker ring V B) : Prop := ∀ d g, s.connections d = some g → d = c

def Act.Risky : Act V B → Prop
  | .retainedLost _ => True
  | .eventsLagged _ _ => True
  | .unsubscribe _ _ => True
  | _ => False

theorem lone_step {s t : Broker ring V B} {l : Label V B} (alone : Lone l.1 s)
    (step : BrokerStep encode s l t) : Lone l.1 t := by
  intro d g found
  by_cases own : d = l.1
  · exact own
  · rw [brokerStep_others step own] at found
    exact alone d g found

theorem lone_smooth {s t : Broker ring V B} {l : Label V B} (alone : Lone l.1 s)
    (step : BrokerStep encode s l t) (calm : ¬ l.2.Risky) : Smooth l.1 s l := by
  constructor
  · intro h found _ tries
    cases step with
    | connect fresh => exact tries.elim
    | adapter here step => cases step <;> exact tries.elim
    | handler here step =>
      obtain rfl := Option.some.inj (found.symm.trans here)
      cases step with
      | retained at_ room => exact room
      | retainedLost at_ full => exact absurd trivial calm
      | _ => exact tries.elim
  · intro h found _ polls topic i ahead overwritten
    cases step with
    | connect fresh => exact polls.elim
    | adapter here step => cases step <;> exact polls.elim
    | handler here step =>
      obtain rfl := Option.some.inj (found.symm.trans here)
      cases step with
      | readEvent at_ received =>
        have passed := Nat.lt_of_lt_of_le overwritten (Broadcast.recv_item_onTime received)
        exact absurd passed (Nat.not_lt.mpr (Nat.add_le_add_right ahead _))
      | eventsLagged at_ received => exact absurd trivial calm
      | _ => exact polls.elim
  · intro h pattern removed found same
    rw [same] at calm
    exact absurd trivial calm
  · rintro d g name bytes found at_ same ⟨e, k, later, there, waiting⟩
    obtain rfl := alone d g found
    obtain rfl := alone e k there
    obtain rfl := Option.some.inj (found.symm.trans there)
    exact absurd (at_.symm.trans waiting) (by simp)

theorem lone_run_smooth {acts : List (Act V B)} {s : Broker ring V B}
    (run : BrokerRun encode (acts.map (Prod.mk 0)) s) (calm : ∀ a ∈ acts, ¬ a.Risky) :
    SmoothRun encode 0 (acts.map (Prod.mk 0)) s := by
  refine (run_restrict (Lone 0) ?_ ?_ run).2
  · intro d g found
    cases found
  · intro s l t alone mem step
    obtain ⟨a, here, rfl⟩ := List.mem_map.mp mem
    exact ⟨lone_step (l := (0, a)) alone step, step,
      lone_smooth (l := (0, a)) alone step (calm a here)⟩

def streaming (topic : Str) : Str → Option Cursor := Function.update (fun _ => none) topic (some 1)

theorem resting_caughtUp {bus : Bus ring B} {topic : Str} {first : B}
    (known : bus.topics topic = some ⟨⟨[first]⟩, some first⟩) {events : Cursor}
    (ended : bus.events.length ≤ events) (out : Mpsc channelBufferSize B) (tree : GlobTree) :
    CaughtUp bus (resting out (streaming topic) events tree : ConnectionHandler V B) := by
  constructor
  · exact ⟨true, rfl⟩
  · rfl
  · exact Broadcast.recv_of_end ended
  · intro name cursor data stream found
    by_cases same : name = topic
    · subst same
      obtain rfl := Option.some.inj (known.symm.trans found)
      obtain rfl : 1 = cursor := by simpa [resting, streaming] using stream
      exact Broadcast.recv_of_end (Nat.le_refl 1)
    · simp [resting, streaming, Function.update_of_ne same] at stream

def subscriberActs : List (Act UInt8 (List UInt8)) :=
  .connect :: (subscribingActs firstMessage firstBytes ['a', 'b'] ++
    joiningActs ['a', 'b'] firstBytes)

theorem new_subscriber_is_current : ∃ s : Broker wideRing UInt8 (List UInt8),
    SmoothRun packShort 0 (subscriberActs.map (Prod.mk 0)) s ∧
    (enqueuedOn 0 ['a', 'b'] (subscriberActs.map (Prod.mk 0))).getLast? =
      some ((s.bus.sent ['a', 'b']).length, firstBytes) := by
  have plain : BrokerRun packShort (subscriberActs.map (Prod.mk 0)) _ :=
    lone_run (run_append (subscribing_run wideRing firstMessage_packed ['a', 'b'])
      (joining_run wideRing firstBytes ab_matches))
  have run := lone_run_smooth plain (by
    simp [subscriberActs, subscribingActs, openingActs, publishNewActs, joiningActs, Act.Risky])
  have known : ((Bus.new : Bus wideRing (List UInt8)).withTopic ['a', 'b'] firstBytes).topics
      ['a', 'b'] = some ⟨⟨[firstBytes]⟩, some firstBytes⟩ := Bus.withTopic_topics_self _ rfl _
  have ended : ((Bus.new : Bus wideRing (List UInt8)).withTopic ['a', 'b']
      firstBytes).events.length ≤ 1 := by
    rw [Bus.events, Bus.withTopic_events]
    exact Nat.le_refl 1
  exact ⟨_, run, caught_up_is_current run (Broker.put_self _ _ _ _)
    (resting_caughtUp known ended (Mpsc.new.push firstBytes) (GlobTree.new.insert ['a', 'b'])) known
    ((GlobTree.first_insert_check _ _).mpr ab_matches) rfl⟩

/-! A slow reader whose queue is full joins a topic and never gets its retained message. -/

def otherMessage : Message UInt8 := ⟨['c', 'd'], 7⟩
def otherBytes : List UInt8 := [0x92, 0xA2, 99, 100, 7]

theorem otherMessage_packed : packShort otherMessage = some otherBytes := by decide

def twoTopics : Bus wideRing (List UInt8) :=
  (Bus.new.withTopic ['a', 'b'] firstBytes).withTopic ['c', 'd'] otherBytes

theorem twoTopics_ab : twoTopics.topics ['a', 'b'] = some ⟨⟨[firstBytes]⟩, some firstBytes⟩ := by
  rw [twoTopics, Bus.withTopic_topics_ne _ (by decide)]
  exact Bus.withTopic_topics_self _ rfl _

theorem twoTopics_cd : twoTopics.topics ['c', 'd'] = some ⟨⟨[otherBytes]⟩, some otherBytes⟩ := by
  apply Bus.withTopic_topics_self
  exact Bus.withTopic_topics_ne _ (by decide) _

theorem twoTopics_events :
    twoTopics.topicEventsTx.sent = [.created ['a', 'b'], .created ['c', 'd']] := by
  rw [twoTopics, Bus.withTopic_events, Bus.withTopic_events]
  rfl

theorem twoTopics_lists : twoTopics.Lists twoTopics.containsKey [['a', 'b'], ['c', 'd']] := by
  have known : ∀ name, twoTopics.containsKey name = true ↔
      name = ['c', 'd'] ∨ name = ['a', 'b'] := by
    intro name
    rw [twoTopics, Bus.withTopic_containsKey, Bus.withTopic_containsKey]
    simp [Bus.containsKey, Bus.new]
  constructor
  · decide
  · intro name present
    simpa using ((known name).mp present).symm
  · intro name mem
    have either : name = ['a', 'b'] ∨ name = ['c', 'd'] := by simpa using mem
    exact (known name).mpr either.symm

theorem cd_matches : GlobMatch ['c', 'd'] (asBytes ['c', 'd']) :=
  .literal ⟨by decide, by decide⟩ rfl (.literal ⟨by decide, by decide⟩ rfl .done)

theorem ab_differs : (GlobTree.new.insert ['a', 'b']).check ['c', 'd'] = false := by
  rw [Bool.eq_false_iff, ne_eq, GlobTree.first_insert_check]
  intro matched
  have bytes : asBytes ['c', 'd'] = [99, 100] := by decide
  rw [bytes, globMatch_cons_cons] at matched
  exact absurd matched.1 (by decide)

theorem cd_differs : (GlobTree.new.insert ['c', 'd']).check ['a', 'b'] = false := by
  rw [Bool.eq_false_iff, ne_eq, GlobTree.first_insert_check]
  intro matched
  have bytes : asBytes ['a', 'b'] = [97, 98] := by decide
  rw [bytes, globMatch_cons_cons] at matched
  exact absurd matched.1 (by decide)

def unreadQueue (k : Nat) : Mpsc channelBufferSize (List UInt8) :=
  ⟨List.replicate k firstBytes, false, false⟩

theorem unreadQueue_room (k : Nat) : (unreadQueue k).HasRoom ↔ k < channelBufferSize := by
  simp [unreadQueue, Mpsc.HasRoom]

theorem unreadQueue_push (k : Nat) : (unreadQueue k).push firstBytes = unreadQueue (k + 1) := by
  rw [unreadQueue, Mpsc.push, unreadQueue, List.replicate_succ']

def resubscribeActs : List (Act UInt8 (List UInt8)) :=
  [.deliver (.subscribe ['a', 'b']), .takeCommand (.subscribe ['a', 'b']),
    .subscribe ['a', 'b'], .listed [['a', 'b'], ['c', 'd']], .join ['a', 'b'],
    .retained ['a', 'b'] 1 firstBytes, .skip ['c', 'd'], .finish .subscribe,
    .deliver (.unsubscribe ['a', 'b']), .takeCommand (.unsubscribe ['a', 'b']),
    .unsubscribe ['a', 'b'] fun name =>
      (streaming ['a', 'b'] name).isSome && !GlobTree.new.check name]

def fillingActs : Nat → List (Act UInt8 (List UInt8))
  | 0 => []
  | k + 1 => fillingActs k ++ resubscribeActs

theorem resubscribe_run {k : Nat} (room : k < channelBufferSize) :
    SoloRun packShort twoTopics (resting (unreadQueue k) (fun _ => none) 2 GlobTree.new)
      resubscribeActs twoTopics
      (resting (unreadQueue (k + 1)) (fun _ => none) 2 GlobTree.new) := by
  have accepted := (GlobTree.first_insert_check ['a', 'b'] ['a', 'b']).mpr ab_matches
  have found : twoTopics.subscribeToTopic ['a', 'b'] = some (1, some firstBytes) := by
    rw [Bus.subscribeToTopic, twoTopics_ab]
    rfl
  have cleared : (fun name => if (streaming ['a', 'b'] name).isSome && !GlobTree.new.check name
      then none else streaming ['a', 'b'] name) = fun _ => none := by
    funext name
    rw [GlobTree.new_check]
    cases streaming ['a', 'b'] name <;> rfl
  have removed : (GlobTree.new.insert ['a', 'b']).remove ['a', 'b'] =
      .ok (.ok (), GlobTree.new) := rfl
  have opened : SoloRun packShort _ _ _ _ _ := subscribe_run twoTopics (unreadQueue k)
    (fun _ => none) 2 GlobTree.new ['a', 'b'] twoTopics_lists
  have joined : SoloRun packShort _ _ _ _ _ := retained_run twoTopics (unreadQueue k)
    (fun _ => none) 2 _ .subscribe [['c', 'd']] accepted rfl found ((unreadQueue_room k).mpr room)
  have skipped : SoloRun packShort _ _ _ _ _ := skip_run twoTopics (unreadQueue (k + 1))
    (streaming ['a', 'b']) 2 _ .subscribe [] (Or.inl ab_differs)
  have finished : SoloRun packShort _ _ _ _ _ := finish_run twoTopics (unreadQueue (k + 1))
    (streaming ['a', 'b']) 2 (GlobTree.new.insert ['a', 'b']) .subscribe
  have left : SoloRun packShort _ _ _ _ _ := unsubscribe_run twoTopics (unreadQueue (k + 1))
    (streaming ['a', 'b']) 2 _ _ removed
  rw [cleared] at left
  rw [unreadQueue_push] at joined
  exact run_append (run_append (run_append (run_append opened joined) skipped) finished) left

theorem filling_run {k : Nat} (room : k ≤ channelBufferSize) :
    SoloRun packShort twoTopics (resting (unreadQueue 0) (fun _ => none) 2 GlobTree.new)
      (fillingActs k) twoTopics (resting (unreadQueue k) (fun _ => none) 2 GlobTree.new) := by
  induction k with
  | zero => exact Run.nil _
  | succ k ih => exact run_append (ih (Nat.le_of_succ_le room)) (resubscribe_run room)

def losingActs : List (Act UInt8 (List UInt8)) :=
  [.deliver (.subscribe ['c', 'd']), .takeCommand (.subscribe ['c', 'd']),
    .subscribe ['c', 'd'], .listed [['a', 'b'], ['c', 'd']], .skip ['a', 'b'],
    .join ['c', 'd'], .retainedLost ['c', 'd'], .finish .subscribe]

theorem losing_run {out : Mpsc channelBufferSize (List UInt8)} (full : ¬ out.HasRoom) :
    SoloRun packShort twoTopics (resting out (fun _ => none) 2 GlobTree.new) losingActs twoTopics
      (resting out (streaming ['c', 'd']) 2 (GlobTree.new.insert ['c', 'd'])) := by
  have accepted := (GlobTree.first_insert_check ['c', 'd'] ['c', 'd']).mpr cd_matches
  have found : twoTopics.subscribeToTopic ['c', 'd'] = some (1, some otherBytes) := by
    rw [Bus.subscribeToTopic, twoTopics_cd]
    rfl
  have opened : SoloRun packShort _ _ _ _ _ := subscribe_run twoTopics out (fun _ => none) 2
    GlobTree.new ['c', 'd'] twoTopics_lists
  have skipped : SoloRun packShort _ _ _ _ _ := skip_run twoTopics out (fun _ => none) 2 _
    .subscribe [['c', 'd']] (Or.inl cd_differs)
  have joined : SoloRun packShort _ _ _ _ _ := retainedLost_run twoTopics out (fun _ => none) 2 _
    .subscribe [] accepted rfl found full
  have finished : SoloRun packShort _ _ _ _ _ := finish_run twoTopics out (streaming ['c', 'd']) 2
    (GlobTree.new.insert ['c', 'd']) .subscribe
  exact run_append (run_append (run_append opened skipped) joined) finished

def twoTopicsActs : List (Act UInt8 (List UInt8)) :=
  publishNewActs firstMessage firstBytes ++ publishNewActs otherMessage otherBytes ++
    [.readEvent ['a', 'b'], .skip ['a', 'b'], .finish .created] ++
    [.readEvent ['c', 'd'], .skip ['c', 'd'], .finish .created]

theorem twoTopics_run :
    SoloRun packShort Bus.new (ConnectionHandler.new (Bus.new : Bus wideRing (List UInt8)))
      twoTopicsActs twoTopics (resting (unreadQueue 0) (fun _ => none) 2 GlobTree.new) := by
  have onTime : ∀ k : Nat, twoTopics.topicEventsTx.sent.length ≤ k + wideRing.size := by
    intro k
    rw [twoTopics_events]
    exact Nat.le_add_left_of_le (by decide)
  have first : SoloRun packShort _ _ _ _ _ := publish_new_run (Bus.new : Bus wideRing _)
    Mpsc.new (fun _ => none) 0 GlobTree.new firstMessage_packed rfl
  have absent : ((Bus.new : Bus wideRing _).withTopic ['a', 'b'] firstBytes).containsKey
      ['c', 'd'] = false := by
    rw [Bus.containsKey, Bus.withTopic_topics_ne _ (by decide)]
    rfl
  have second : SoloRun packShort _ _ _ _ _ := publish_new_run _ Mpsc.new (fun _ => none) 0
    GlobTree.new otherMessage_packed absent
  have told : SoloRun packShort _ _ _ _ _ := event_run twoTopics Mpsc.new (fun _ => none) 0
    GlobTree.new (Broadcast.recv_of_get (onTime 0) (by rw [twoTopics_events]; rfl))
    (GlobTree.new_check _)
  have toldToo : SoloRun packShort _ _ _ _ _ := event_run twoTopics Mpsc.new (fun _ => none) 1
    GlobTree.new (Broadcast.recv_of_get (onTime 1) (by rw [twoTopics_events]; rfl))
    (GlobTree.new_check _)
  exact run_append (run_append (run_append first second) told) toldToo

def failingLabels (k : Nat) : List (Label UInt8 (List UInt8)) :=
  (0, .connect) :: (twoTopicsActs ++ fillingActs k ++ losingActs).map (Prod.mk 0)

theorem enqueuedOn_solo (c : Nat) (topic : Str) (acts : List (Act V B)) :
    enqueuedOn c topic (acts.map (Prod.mk c)) = acts.filterMap (Act.enqueued topic) := by
  simp [enqueuedOn, List.filterMap_map]

theorem failing_enqueues_nothing (k : Nat) : enqueuedOn 0 ['c', 'd'] (failingLabels k) = [] := by
  have filling : (fillingActs k).filterMap (Act.enqueued ['c', 'd']) = [] := by
    induction k with
    | zero => rfl
    | succ k ih =>
      rw [fillingActs, List.filterMap_append, ih]
      rfl
  have whole : failingLabels k =
      (.connect :: (twoTopicsActs ++ fillingActs k ++ losingActs)).map (Prod.mk 0) := rfl
  rw [whole, enqueuedOn_solo, List.filterMap_cons, List.filterMap_append, List.filterMap_append,
    filling]
  rfl

/-- A client that is caught up, with a retained message it was never sent. -/
theorem full_queue_loses_retained :
    ¬ ∀ (c : Nat) (ls : List (Label UInt8 (List UInt8))) (s : Broker wideRing UInt8 (List UInt8))
      (h : ConnectionHandler UInt8 (List UInt8)) (topic : Str)
      (data : TopicData wideRing (List UInt8)) (m : List UInt8),
      BrokerRun packShort ls s → s.connections c = some h → CaughtUp s.bus h →
      s.bus.topics topic = some data → h.subscriptions.check topic = true →
      data.lastMessage = some m →
      (enqueuedOn c topic ls).getLast? = some ((s.bus.sent topic).length, m) := by
  intro law
  have full : ¬ (unreadQueue channelBufferSize).HasRoom := by simp [unreadQueue_room]
  have run := lone_run (run_append (run_append twoTopics_run (filling_run (Nat.le_refl _)))
    (losing_run full))
  have ended : twoTopics.events.length ≤ 2 := by
    rw [Bus.events, twoTopics_events]
    exact Nat.le_refl 2
  have caughtUp := resting_caughtUp (V := UInt8) twoTopics_cd ended (unreadQueue channelBufferSize)
    (GlobTree.new.insert ['c', 'd'])
  have last := law 0 _ _ _ ['c', 'd'] _ otherBytes run (Broker.put_self _ _ _ _) caughtUp
    twoTopics_cd ((GlobTree.first_insert_check _ _).mpr cd_matches) rfl
  have nothing := failing_enqueues_nothing channelBufferSize
  unfold failingLabels at nothing
  rw [nothing] at last
  cases last

end PubSub
