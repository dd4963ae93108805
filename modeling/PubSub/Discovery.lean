import PubSub.Delivery

/- How a connection learns of topics: by the scan of a `Subscribe` or by a `Created` event.
   Whatever the order of the steps, a topic it matches is either streamed, about to be
   looked at, or still to be announced to it. -/
namespace PubSub
open Channels LabelledRun
variable {ring : Ring} {V B : Type} {encode : Message V → Option B}

def HandlerPc.Due (topic : Str) : HandlerPc V B → Prop
  | .listing before => before topic = true
  | .visit _ names => topic ∈ names
  | .joined _ names name _ _ => name = topic ∨ topic ∈ names
  | _ => False

def Unread (bus : Bus ring B) (cursor : Cursor) (topic : Str) : Prop :=
  ∃ i, cursor ≤ i ∧ bus.events[i]? = some (.created topic)

def Covered (bus : Bus ring B) (h : ConnectionHandler V B) (topic : Str) : Prop :=
  h.topicStreams topic ≠ none ∨ h.pc.Due topic ∨ Unread bus h.topicEvents topic

/-- The send that inserted the topic has not broadcast its `Created` event yet. -/
def Pending (s : Broker ring V B) (topic : Str) : Prop :=
  ∃ d h bytes, s.connections d = some h ∧
    h.pc = .publishing topic bytes (.creating (.announce true))

def Drops (bus : Bus ring B) (topic : Str) (a : Act V B) : Prop :=
  ∃ first next i, a = .eventsLagged first next ∧ first ≤ i ∧ i < next ∧
    bus.events[i]? = some (.created topic)

/-! The events only grow, and no receiver is ahead of them. -/

theorem effect_events {bus after : Bus ring B} {name : Str} {message : B} {pc next : SendPc}
    (effect : bus.Effect name message pc after next) :
    after.events = bus.events ∨ after.events = bus.events ++ [.created name] := by
  cases effect with
  | look pc next waits still => exact Or.inl rfl
  | insert => exact Or.inl (by rw [Bus.events, Bus.insertTopic_events, Bus.events])
  | announce inserted => exact Or.inr rfl
  | store => exact Or.inl (by rw [Bus.events, Bus.storeAndBroadcast_events, Bus.events])

theorem brokerStep_events {s t : Broker ring V B} {l : Label V B}
    (step : BrokerStep encode s l t) : s.bus.events <+: t.bus.events := by
  rcases brokerStep_bus step with same | ⟨h, name, bytes, pc, next, _, _, _, _, effect⟩
  · rw [same]
  · rcases effect_events effect with same | grown
    · rw [same]
    · rw [grown]
      exact List.prefix_append _ _

theorem Unread.grow {bus after : Bus ring B} {cursor : Cursor} {topic : Str}
    (unread : Unread bus cursor topic) (grown : bus.events <+: after.events) :
    Unread after cursor topic := by
  obtain ⟨i, ahead, event⟩ := unread
  exact ⟨i, ahead, Subscription.entry_kept grown event⟩

theorem handlerStep_events_bound {bus after : Bus ring B} {h h' : ConnectionHandler V B}
    {a : Act V B} (step : HandlerStep encode bus h a after h')
    (bound : h.topicEvents ≤ bus.events.length) : h'.topicEvents ≤ bus.events.length := by
  cases step with
  | readEvent at_ received =>
    obtain ⟨event, rfl⟩ := Broadcast.recv_item received
    exact (List.getElem?_eq_some_iff.mp event).1
  | eventsLagged at_ received =>
    obtain ⟨overtaken, rfl⟩ := Broadcast.recv_lagged received
    exact Nat.sub_le _ _
  | _ => exact bound

theorem run_events_bound {ls : List (Label V B)} {s : Broker ring V B}
    (run : BrokerRun encode ls s) {c : Nat} {h : ConnectionHandler V B}
    (found : s.connections c = some h) : h.topicEvents ≤ s.bus.events.length := by
  apply run_connection (fun _ bus h => h.topicEvents ≤ bus.events.length) _ _ _ _ run found
  · intro ls s before
    exact Nat.le_refl _
  · intro ls s h a h' before here bound step
    cases step <;> exact bound
  · intro ls s h a bus h' before here bound step
    exact Nat.le_trans (handlerStep_events_bound step bound)
      (brokerStep_events (.handler here step)).length_le
  · intro ls s t h l before here other bound step
    exact Nat.le_trans bound (brokerStep_events step).length_le

/-! A handler's own steps keep a topic covered while its tree matches it. -/

theorem Covered.step {bus after : Bus ring B} {h h' : ConnectionHandler V B} {topic : Str}
    (covered : Covered bus h topic)
    (streams : h.topicStreams topic ≠ none → h'.topicStreams topic ≠ none)
    (due : h.pc.Due topic → h'.topicStreams topic ≠ none ∨ h'.pc.Due topic)
    (unread : Unread bus h.topicEvents topic → Covered after h' topic) :
    Covered after h' topic := by
  rcases covered with streaming | looking | told
  · exact Or.inl (streams streaming)
  · exact (due looking).imp_right Or.inl
  · exact unread told

theorem insertStream_streams {h : ConnectionHandler V B} {name topic : Str} {receiver : Cursor}
    (streaming : name = topic ∨ h.topicStreams topic ≠ none) :
    (h.insertStream name receiver).topicStreams topic ≠ none := by
  by_cases same : topic = name
  · rw [same, h.insertStream_self]
    simp
  · rw [h.insertStream_ne same]
    exact streaming.resolve_left (Ne.symm same)

theorem Covered.attach {bus after : Bus ring B} {h h' : ConnectionHandler V B} {topic name : Str}
    {cause : Cause} {names : List Str} {receiver : Cursor} {lastMessage : Option B}
    (covered : Covered bus h topic)
    (at_ : h.pc = .joined cause names name receiver lastMessage)
    (streams : h'.topicStreams = (h.insertStream name receiver).topicStreams)
    (onward : h'.pc = .visit cause names)
    (unread : Unread bus h.topicEvents topic → Covered after h' topic) :
    Covered after h' topic := by
  apply covered.step
  · intro streaming
    rw [streams]
    exact insertStream_streams (Or.inr streaming)
  · intro due
    rw [at_] at due
    rw [streams, onward]
    exact due.imp_left fun same => insertStream_streams (Or.inl same)
  · exact unread

theorem removeUnmatched_kept {h : ConnectionHandler V B} {topic : Str}
    (matched : h.subscriptions.check topic = true) :
    h.removeUnmatched.topicStreams topic = h.topicStreams topic := by
  simp [ConnectionHandler.removeUnmatched, ConnectionHandler.unmatched, matched]

theorem handlerStep_covered {bus after : Bus ring B} {h h' : ConnectionHandler V B} {a : Act V B}
    {topic : Str} (covered : Covered bus h topic) (present : bus.containsKey topic = true)
    (matched : h.subscriptions.check topic = true)
    (still : h'.subscriptions.check topic = true)
    (step : HandlerStep encode bus h a after h') : Covered after h' topic ∨ Drops bus topic a := by
  have grown : bus.events <+: after.events := by
    rcases handlerStep_bus step with same | ⟨_, _, _, _, _, _, _, effect⟩
    · rw [same]
    · rcases effect_events effect with same | grown
      · rw [same]
      · rw [grown]
        exact List.prefix_append _ _
  have told : h'.topicEvents = h.topicEvents → Unread bus h.topicEvents topic →
      Covered after h' topic := by
    intro same unread
    exact Or.inr (Or.inr (same ▸ unread.grow grown))
  cases step with
  | takeCommand at_ queue =>
    exact Or.inl (covered.step id (by simp [HandlerPc.Due, at_]) (told rfl))
  | disconnect at_ queue closed =>
    exact Or.inl (covered.step id (by simp [HandlerPc.Due, at_]) (told rfl))
  | subscribe at_ => exact Or.inl (covered.step id (by simp [HandlerPc.Due, at_]) (told rfl))
  | listed at_ lists =>
    refine Or.inl (covered.step id ?_ (told rfl))
    intro due
    rw [at_] at due
    exact Or.inr (lists.complete topic due)
  | @unsubscribe pattern result tree at_ removed =>
    have kept := removeUnmatched_kept (h := { h with subscriptions := tree }) still
    refine Or.inl (covered.step ?_ (by simp [HandlerPc.Due, at_]) (told rfl))
    exact fun streaming gone => streaming (kept.symm.trans gone)
  | panicked at_ failed =>
    exact Or.inl (covered.step id (by simp [HandlerPc.Due, at_]) (told rfl))
  | @skip cause name names at_ why =>
    refine Or.inl (covered.step id ?_ (told rfl))
    intro due
    rw [at_] at due
    rcases List.mem_cons.mp due with rfl | later
    · rcases why with unmatched | streaming | missing
      · simp [matched] at unmatched
      · exact Or.inl (Option.isSome_iff_ne_none.mp streaming)
      · simp [Bus.subscribeToTopic, Bus.containsKey] at missing present
        simp [missing] at present
    · exact Or.inr later
  | @join cause name names receiver lastMessage at_ matches_ unsubscribed found =>
    refine Or.inl (covered.step id ?_ (told rfl))
    intro due
    rw [at_] at due
    exact Or.inr ((List.mem_cons.mp due).imp_left Eq.symm)
  | attach at_ => exact Or.inl (covered.attach at_ rfl rfl (told rfl))
  | retained at_ room => exact Or.inl (covered.attach at_ rfl rfl (told rfl))
  | retainedLost at_ full => exact Or.inl (covered.attach at_ rfl rfl (told rfl))
  | finish at_ => exact Or.inl (covered.step id (by simp [HandlerPc.Due, at_]) (told rfl))
  | startPublish at_ encoded =>
    exact Or.inl (covered.step id (by simp [HandlerPc.Due, at_]) (told rfl))
  | publishFailed at_ failed =>
    exact Or.inl (covered.step id (by simp [HandlerPc.Due, at_]) (told rfl))
  | sending at_ running =>
    exact Or.inl (covered.step id (by simp [HandlerPc.Due, at_]) (told rfl))
  | published at_ => exact Or.inl (covered.step id (by simp [HandlerPc.Due, at_]) (told rfl))
  | @readEvent name next at_ received =>
    obtain ⟨event, rfl⟩ := Broadcast.recv_item received
    refine Or.inl (covered.step id (by simp [HandlerPc.Due, at_]) ?_)
    rintro ⟨i, ahead, found⟩
    rcases Nat.eq_or_lt_of_le ahead with rfl | later
    · obtain rfl : topic = name := by simpa [Bus.events, event] using found.symm
      exact Or.inr (Or.inl List.mem_cons_self)
    · exact Or.inr (Or.inr ⟨i, later, found⟩)
  | @eventsLagged next at_ received =>
    rcases covered with streaming | due | ⟨i, ahead, found⟩
    · exact Or.inl (Or.inl streaming)
    · simp [HandlerPc.Due, at_] at due
    · by_cases passed : i < next
      · exact Or.inr ⟨h.topicEvents, next, i, rfl, ahead, passed, found⟩
      · exact Or.inl (Or.inr (Or.inr ⟨i, Nat.le_of_not_lt passed, found⟩))
  | readItem at_ stream known received =>
    exact Or.inl (covered.step (fun streaming => insertStream_streams (Or.inr streaming))
      (by simp [HandlerPc.Due, at_]) (told rfl))
  | streamLagged at_ stream known received =>
    exact Or.inl (covered.step (fun streaming => insertStream_streams (Or.inr streaming))
      (by simp [HandlerPc.Due, at_]) (told rfl))
  | forward at_ room => exact Or.inl (covered.step id (by simp [HandlerPc.Due, at_]) (told rfl))
  | forwardFailed at_ closed =>
    exact Or.inl (covered.step id (by simp [HandlerPc.Due, at_]) (told rfl))

/-! A topic enters the map with its announcement outstanding. -/

theorem effect_creates {bus after : Bus ring B} {name topic : Str} {message : B}
    {pc next : SendPc} (effect : bus.Effect name message pc after next)
    (absent : bus.containsKey topic = false) (present : after.containsKey topic = true) :
    topic = name ∧ next = .creating (.announce true) ∧ after.sent topic = [] := by
  unfold Bus.containsKey at absent present
  have missing : bus.topics topic = none := by simpa using absent
  cases effect with
  | look pc next waits still => simp [missing] at present
  | announce inserted => simp [Bus.announceTopic, missing] at present
  | insert =>
    by_cases same : topic = name
    · subst same
      refine ⟨rfl, by simp [Bus.containsKey, missing], ?_⟩
      rw [Bus.sent, Bus.insertTopic_topics_self, missing]
      rfl
    · simp [Bus.insertTopic_topics_ne bus same, missing] at present
  | store =>
    by_cases same : topic = name
    · subst same
      simp [Bus.storeAndBroadcast_missing missing, missing] at present
    · simp [Bus.storeAndBroadcast_topics_ne bus same, missing] at present

theorem created_pending {s t : Broker ring V B} {l : Label V B} (step : BrokerStep encode s l t)
    {topic : Str} (absent : s.bus.containsKey topic = false)
    (present : t.bus.containsKey topic = true) : Pending t topic ∧ t.bus.sent topic = [] := by
  rcases brokerStep_bus step with same | ⟨h, name, bytes, pc, next, _, _, _, after, effect⟩
  · rw [same, absent] at present
    cases present
  · obtain ⟨rfl, rfl, nothing⟩ := effect_creates effect absent present
    refine ⟨⟨l.1, h.goto (.publishing topic bytes (.creating (.announce true))), bytes, ?_, rfl⟩,
      nothing⟩
    rw [after, Broker.put_self]

theorem handlerStep_sending {bus after : Bus ring B} {h h' : ConnectionHandler V B} {a : Act V B}
    {name : Str} {bytes : B} {pc : CreatePc} (at_ : h.pc = .publishing name bytes (.creating pc))
    (step : HandlerStep encode bus h a after h') :
    after = (bus.sendStep name bytes (.creating pc)).1 ∧ h'.topicEvents = h.topicEvents := by
  cases step with
  | sending here running =>
    obtain ⟨rfl, rfl, rfl⟩ := HandlerPc.publishing.inj (here.symm.trans at_)
    exact ⟨rfl, rfl⟩
  | _ => simp_all

/-- An outstanding announcement stays so until it is made, and then every connection has
    it ahead. -/
theorem announcing_step {s t : Broker ring V B} {l : Label V B} (reachable : s.Reachable encode)
    (step : BrokerStep encode s l t) {d : Nat} {g : ConnectionHandler V B} {topic : Str} {bytes : B}
    {inserted : Bool} (found : s.connections d = some g)
    (at_ : g.pc = .publishing topic bytes (.creating (.announce inserted))) :
    (∃ g', t.connections d = some g' ∧ g'.pc = g.pc) ∨
      ∀ c h h', s.connections c = some h → t.connections c = some h' →
        Unread t.bus h'.topicEvents topic := by
  obtain ⟨ls, run⟩ := reachable
  by_cases same : d = l.1
  · subst same
    cases step with
    | connect fresh => exact absurd (fresh.symm.trans found) (by simp)
    | @adapter c g' after a here step =>
      obtain rfl := Option.some.inj (found.symm.trans here)
      exact Or.inl ⟨after, s.put_self _ _ _, (adapterStep_pc step).1⟩
    | @handler c g' after bus a here step =>
      obtain rfl := Option.some.inj (found.symm.trans here)
      obtain ⟨rfl, kept⟩ := handlerStep_sending at_ step
      refine Or.inr fun e h h' before now => ⟨s.bus.events.length, ?_, ?_⟩
      · have bound := run_events_bound run before
        by_cases own : e = c
        · subst own
          rw [Broker.put_self] at now
          obtain rfl := Option.some.inj now
          obtain rfl := Option.some.inj (before.symm.trans found)
          rwa [kept]
        · rw [Broker.put_ne _ _ _ own] at now
          obtain rfl := Option.some.inj (before.symm.trans now)
          exact bound
      · simp [Bus.sendStep, Bus.createStep, Bus.announceTopic, Bus.events, Broadcast.send]
  · exact Or.inl ⟨g, (brokerStep_others step same).trans found, rfl⟩

theorem pending_step {s t : Broker ring V B} {l : Label V B} (reachable : s.Reachable encode)
    (step : BrokerStep encode s l t) {topic : Str} (pending : Pending s topic) :
    Pending t topic ∨ ∀ c h h', s.connections c = some h → t.connections c = some h' →
      Unread t.bus h'.topicEvents topic := by
  obtain ⟨d, g, bytes, found, at_⟩ := pending
  rcases announcing_step reachable step found at_ with ⟨g', there, same⟩ | told
  · exact Or.inl ⟨d, g', bytes, there, same.trans at_⟩
  · exact Or.inr told

theorem covered_step {s t : Broker ring V B} {l : Label V B} (step : BrokerStep encode s l t)
    {c : Nat} {h h' : ConnectionHandler V B} (found : s.connections c = some h)
    (found' : t.connections c = some h') {topic : Str} (present : s.bus.containsKey topic = true)
    (matched : h.subscriptions.check topic = true)
    (still : h'.subscriptions.check topic = true) (covered : Covered s.bus h topic) :
    Covered t.bus h' topic ∨ (l.1 = c ∧ Drops s.bus topic l.2) := by
  by_cases own : c = l.1
  · subst own
    cases step with
    | connect fresh => exact absurd (fresh.symm.trans found) (by simp)
    | adapter here step =>
      obtain rfl := Option.some.inj (found.symm.trans here)
      rw [Broker.put_self] at found'
      obtain rfl := Option.some.inj found'
      obtain ⟨pc, events, streams, _⟩ := adapterStep_pc step
      apply Or.inl
      unfold Covered
      rw [pc, events, streams]
      exact covered
    | handler here step =>
      obtain rfl := Option.some.inj (found.symm.trans here)
      rw [Broker.put_self] at found'
      obtain rfl := Option.some.inj found'
      exact (handlerStep_covered covered present matched still step).imp_right (And.intro rfl)
  · rw [brokerStep_others step own] at found'
    obtain rfl := Option.some.inj (found.symm.trans found')
    refine Or.inl (covered.step id Or.inr fun unread => ?_)
    exact Or.inr (Or.inr (unread.grow (brokerStep_events step)))

theorem brokerStep_covered {s t : Broker ring V B} {l : Label V B}
    (reachable : s.Reachable encode) (step : BrokerStep encode s l t) {c : Nat}
    {h h' : ConnectionHandler V B} (found : s.connections c = some h)
    (found' : t.connections c = some h') {topic : Str} (present : s.bus.containsKey topic = true)
    (matched : h.subscriptions.check topic = true)
    (still : h'.subscriptions.check topic = true)
    (covered : Covered s.bus h topic ∨ Pending s topic) :
    (Covered t.bus h' topic ∨ Pending t topic) ∨ (l.1 = c ∧ Drops s.bus topic l.2) := by
  rcases covered with covered | pending
  · exact (covered_step step found found' present matched still covered).imp_left Or.inl
  · rcases pending_step reachable step pending with waiting | told
    · exact Or.inl (Or.inr waiting)
    · exact Or.inl (Or.inl (Or.inr (Or.inr (told c h h' found found'))))

/-! The scan of a `Subscribe` covers every topic that is in the map when it ends. -/

def HandlerPc.Scanning : HandlerPc V B → Prop
  | .listing _ => True
  | .visit cause _ => cause = .subscribe
  | .joined cause _ _ _ _ => cause = .subscribe
  | _ => False

theorem handlerStep_scanning {bus after : Bus ring B} {h h' : ConnectionHandler V B} {a : Act V B}
    (step : HandlerStep encode bus h a after h') (scanning : h'.pc.Scanning) :
    h'.pc = .listing bus.containsKey ∨
      (h.pc.Scanning ∧ h'.subscriptions = h.subscriptions ∧ ∀ topic, ¬ Drops bus topic a) := by
  have noDrop : (∀ first next, a ≠ .eventsLagged first next) → ∀ topic, ¬ Drops bus topic a := by
    rintro other topic ⟨first, next, i, same, _⟩
    exact other first next same
  cases step with
  | subscribe at_ => exact Or.inl rfl
  | listed at_ lists => exact Or.inr ⟨by rw [at_]; trivial, rfl, noDrop (by simp)⟩
  | skip at_ why => exact Or.inr ⟨by rw [at_]; exact scanning, rfl, noDrop (by simp)⟩
  | join at_ matched unsubscribed found =>
    exact Or.inr ⟨by rw [at_]; exact scanning, rfl, noDrop (by simp)⟩
  | attach at_ => exact Or.inr ⟨by rw [at_]; exact scanning, rfl, noDrop (by simp)⟩
  | retained at_ room => exact Or.inr ⟨by rw [at_]; exact scanning, rfl, noDrop (by simp)⟩
  | retainedLost at_ full => exact Or.inr ⟨by rw [at_]; exact scanning, rfl, noDrop (by simp)⟩
  | readEvent at_ received => cases scanning
  | _ => exact scanning.elim

def ScanCovers (s : Broker ring V B) (c : Nat) : Prop :=
  ∀ h, s.connections c = some h → h.pc.Scanning → ∀ topic, s.bus.containsKey topic = true →
    h.subscriptions.check topic = true → Covered s.bus h topic ∨ Pending s topic

theorem scanCovers_step {s t : Broker ring V B} {l : Label V B} (reachable : s.Reachable encode)
    (step : BrokerStep encode s l t) {c : Nat} (covers : ScanCovers s c) : ScanCovers t c := by
  intro h' found' scanning topic present matched
  cases before : s.bus.containsKey topic with
  | false => exact Or.inr (created_pending step before present).1
  | true =>
    -- where the handler was already scanning it had the topic covered
    have continues : ∀ h, s.connections c = some h → h.pc.Scanning →
        h'.subscriptions = h.subscriptions → ¬ (l.1 = c ∧ Drops s.bus topic l.2) →
        Covered t.bus h' topic ∨ Pending t topic := by
      intro h found scanned same keeps
      have accepted : h.subscriptions.check topic = true := by rwa [← same]
      exact (brokerStep_covered reachable step found found' before accepted matched
        (covers h found scanned topic before accepted)).resolve_right keeps
    by_cases own : c = l.1
    · subst own
      cases step with
      | connect fresh =>
        rw [Broker.put_self] at found'
        obtain rfl := Option.some.inj found'
        exact scanning.elim
      | @adapter c h after a here step =>
        rw [Broker.put_self] at found'
        obtain rfl := Option.some.inj found'
        obtain ⟨pc, _, _, tree⟩ := adapterStep_pc step
        rw [pc] at scanning
        refine continues h here scanning tree ?_
        rintro ⟨_, first, next, i, same, _⟩
        obtain rfl : a = .eventsLagged first next := same
        cases step
      | @handler c h after bus a here step =>
        rw [Broker.put_self] at found'
        obtain rfl := Option.some.inj found'
        rcases handlerStep_scanning step scanning with begins | ⟨scanned, tree, keeps⟩
        · refine Or.inl (Or.inr (Or.inl ?_))
          rw [begins]
          exact before
        · exact continues h here scanned tree fun dropped => keeps topic dropped.2
    · have found : s.connections c = some h' := by rwa [brokerStep_others step own] at found'
      exact continues h' found scanning rfl fun dropped => own dropped.1.symm

theorem run_scanCovers {ls : List (Label V B)} {s : Broker ring V B} (run : BrokerRun encode ls s)
    (c : Nat) : ScanCovers s c := by
  refine run_history (fun _ s => ScanCovers s c) ?_ ?_ run
  · intro h found
    cases found
  · intro ls s l t before covers step
    exact scanCovers_step ⟨ls, before⟩ step covers

/-! From the end of a scan, or from its creation, a topic that stays matched is never lost. -/

def Broker.Matches (s : Broker ring V B) (c : Nat) (topic : Str) : Prop :=
  ∃ h, s.connections c = some h ∧ h.subscriptions.check topic = true

/-- The connection has just finished a `Subscribe` with the topic in the map, or the topic
    has just been inserted into it. -/
inductive Begins (encode : Message V → Option B) (c : Nat) (topic : Str) :
    Broker ring V B → Prop where
  | subscribed {ls : List (Label V B)} {s t : Broker ring V B} (run : BrokerRun encode ls s)
      (step : BrokerStep encode s (c, .finish .subscribe) t)
      (present : t.bus.containsKey topic = true) : Begins encode c topic t
  | created {ls : List (Label V B)} {s t : Broker ring V B} {l : Label V B}
      (run : BrokerRun encode ls s) (step : BrokerStep encode s l t)
      (absent : s.bus.containsKey topic = false) (present : t.bus.containsKey topic = true) :
      Begins encode c topic t

theorem begins_covered {s : Broker ring V B} {c : Nat} {topic : Str}
    (begins : Begins encode c topic s) {h : ConnectionHandler V B}
    (found : s.connections c = some h) (matched : h.subscriptions.check topic = true) :
    s.Reachable encode ∧ s.bus.containsKey topic = true ∧
      (Covered s.bus h topic ∨ Pending s topic) := by
  cases begins with
  | created run step absent present =>
    exact ⟨⟨_, Run.snoc run step⟩, present, Or.inr (created_pending step absent present).1⟩
  | @subscribed ls before _ run step present =>
    refine ⟨⟨_, Run.snoc run step⟩, present, ?_⟩
    have covers := run_scanCovers run c
    have reachable : before.Reachable encode := ⟨ls, run⟩
    have whole := step
    cases step with
    | adapter here step => cases step
    | @handler c g after bus a here step =>
      cases step with
      | finish at_ =>
        rw [Broker.put_self] at found
        obtain rfl := Option.some.inj found
        have scanned := covers g here (by rw [at_]; rfl) topic present matched
        refine (brokerStep_covered reachable whole here (before.put_self _ _ _) present matched
          matched scanned).resolve_right ?_
        rintro ⟨_, first, next, i, same, _⟩
        cases same

abbrev MatchedRun (encode : Message V → Option B) (c : Nat) (topic : Str) :
    Broker ring V B → List (Label V B) → Broker ring V B → Prop :=
  Run fun s l t => BrokerStep encode s l t ∧ t.Matches c topic

def Dropped (ls : List (Label V B)) (s : Broker ring V B) (c : Nat) (topic : Str) : Prop :=
  ∃ first next i, (c, Act.eventsLagged first next) ∈ ls ∧ first ≤ i ∧ i < next ∧
    s.bus.events[i]? = some (.created topic)

theorem dropped_step {ls : List (Label V B)} {s t : Broker ring V B} {l : Label V B} {c : Nat}
    {topic : Str} (step : BrokerStep encode s l t)
    (dropped : Dropped ls s c topic ∨ (l.1 = c ∧ Drops s.bus topic l.2)) :
    Dropped (ls ++ [l]) t c topic := by
  have grown := brokerStep_events step
  rcases dropped with ⟨first, next, i, mem, low, high, event⟩ | ⟨rfl, first, next, i, same, low,
    high, event⟩
  · exact ⟨first, next, i, List.mem_append_left _ mem, low, high,
      Subscription.entry_kept grown event⟩
  · refine ⟨first, next, i, ?_, low, high, Subscription.entry_kept grown event⟩
    rw [← same]
    exact List.mem_append_right _ (List.mem_singleton.mpr rfl)

theorem matchedRun_covered {s t : Broker ring V B} {ls : List (Label V B)} {c : Nat} {topic : Str}
    (begins : Begins encode c topic s) (matched : s.Matches c topic)
    (run : MatchedRun encode c topic s ls t) :
    t.Reachable encode ∧ t.bus.containsKey topic = true ∧ ∃ h, t.connections c = some h ∧
      h.subscriptions.check topic = true ∧
      ((Covered t.bus h topic ∨ Pending t topic) ∨ Dropped ls t c topic) := by
  refine run_history (fun ls t => t.Reachable encode ∧ t.bus.containsKey topic = true ∧
    ∃ h, t.connections c = some h ∧ h.subscriptions.check topic = true ∧
      ((Covered t.bus h topic ∨ Pending t topic) ∨ Dropped ls t c topic)) ?_ ?_ run
  · obtain ⟨h, found, accepted⟩ := matched
    obtain ⟨reachable, present, covered⟩ := begins_covered begins found accepted
    exact ⟨reachable, present, h, found, accepted, Or.inl covered⟩
  · rintro ls s l t before ⟨reachable, present, h, found, accepted, state⟩ ⟨step, still⟩
    obtain ⟨h', found', accepted'⟩ := still
    obtain ⟨front, opening⟩ := reachable
    refine ⟨⟨_, Run.snoc opening step⟩, brokerStep_containsKey step present, h', found',
      accepted', ?_⟩
    rcases state with covered | dropped
    · exact (brokerStep_covered ⟨front, opening⟩ step found found' present accepted accepted'
        covered).imp_right fun drops => dropped_step step (Or.inr drops)
    · exact Or.inr (dropped_step step (Or.inl dropped))

/-- A topic that has been matched since a scan ended, or since it was created, is streamed
    whenever the handler is between two of its turns, unless the news of it is still to
    come or was lost to lag. -/
theorem no_topic_missed {s t : Broker ring V B} {ls : List (Label V B)} {c : Nat} {topic : Str}
    (begins : Begins encode c topic s) (matched : s.Matches c topic)
    (run : MatchedRun encode c topic s ls t) {h : ConnectionHandler V B} {enabled : Bool}
    (found : t.connections c = some h) (at_ : h.pc = .select enabled) :
    h.topicStreams topic ≠ none ∨ Unread t.bus h.topicEvents topic ∨ Pending t topic ∨
      Dropped ls t c topic := by
  obtain ⟨_, _, g, here, _, state⟩ := matchedRun_covered begins matched run
  obtain rfl := Option.some.inj (found.symm.trans here)
  rcases state with ((streaming | due | unread) | pending) | dropped
  · exact Or.inl streaming
  · rw [at_] at due
    exact due.elim
  · exact Or.inr (Or.inl unread)
  · exact Or.inr (Or.inr (Or.inl pending))
  · exact Or.inr (Or.inr (Or.inr dropped))

def Act.ChangesTree : Act V B → Prop
  | .subscribe _ => True
  | .unsubscribe _ _ => True
  | _ => False

theorem brokerStep_tree {s t : Broker ring V B} {l : Label V B} (step : BrokerStep encode s l t)
    (keeps : ¬ l.2.ChangesTree) {c : Nat} {h : ConnectionHandler V B}
    (found : s.connections c = some h) :
    ∃ h', t.connections c = some h' ∧ h'.subscriptions = h.subscriptions := by
  by_cases own : c = l.1
  · subst own
    cases step with
    | connect fresh => exact absurd (fresh.symm.trans found) (by simp)
    | adapter here step =>
      obtain rfl := Option.some.inj (found.symm.trans here)
      exact ⟨_, s.put_self _ _ _, (adapterStep_pc step).2.2.2⟩
    | handler here step =>
      obtain rfl := Option.some.inj (found.symm.trans here)
      refine ⟨_, s.put_self _ _ _, ?_⟩
      cases step with
      | subscribe at_ => exact absurd trivial keeps
      | unsubscribe at_ removed => exact absurd trivial keeps
      | _ => rfl
  · exact ⟨h, (brokerStep_others step own).trans found, rfl⟩

theorem subscribed_topic_streamed : ∃ s t : Broker wideRing UInt8 (List UInt8),
    Begins packShort 0 ['a', 'b'] s ∧
    MatchedRun packShort 0 ['a', 'b'] s ((laterActs laterMessage laterBytes).map (Prod.mk 0)) t ∧
    ∃ h, t.connections 0 = some h ∧
      (h.topicStreams ['a', 'b'] ≠ none ∨ Unread t.bus h.topicEvents ['a', 'b'] ∨
        Pending t ['a', 'b'] ∨
        Dropped ((laterActs laterMessage laterBytes).map (Prod.mk 0)) t 0 ['a', 'b']) := by
  have joining : SoloRun packShort _ _ ([.join ['a', 'b'], .retained ['a', 'b'] 1 firstBytes] ++
      [.finish .subscribe]) _ _ := joining_run wideRing firstBytes ab_matches
  obtain ⟨p, joined, finished⟩ := run_split joining
  have before := lone_run
    (run_append (subscribing_run wideRing firstMessage_packed ['a', 'b']) joined)
  have finish := solo_step Broker.new 0 (run_one finished)
  have stretch := solo_run (Broker.new.put_self _ 0 _)
    (later_run wideRing firstBytes ['a', 'b'] laterMessage_packed)
  have present : ((Bus.new : Bus wideRing (List UInt8)).withTopic ['a', 'b']
      firstBytes).containsKey ['a', 'b'] = true :=
    (Bus.withTopic_containsKey _ _ _ _).mpr (Or.inl rfl)
  have begins := Begins.subscribed before finish present
  have accepted := (GlobTree.first_insert_check ['a', 'b'] ['a', 'b']).mpr ab_matches
  have matched : Run (fun s l t => BrokerStep packShort s l t ∧ t.Matches 0 ['a', 'b']) _ _ _ :=
    (run_restrict (fun s => ∃ h, s.connections 0 = some h ∧
      h.subscriptions = GlobTree.new.insert ['a', 'b']) ⟨_, Broker.put_self _ _ _ _, rfl⟩ ?_
      stretch).2
  · refine ⟨_, _, begins, matched, _, Broker.put_self _ _ _ _, ?_⟩
    exact no_topic_missed begins ⟨_, Broker.put_self _ _ _ _, accepted⟩ matched
      (Broker.put_self _ _ _ _) rfl
  · rintro s l t ⟨h, found, tree⟩ mem step
    have keeps : ¬ l.2.ChangesTree := by
      revert l
      simp [laterActs, publishActs, Act.ChangesTree]
    obtain ⟨h', found', same⟩ := brokerStep_tree step keeps found
    have still : h'.subscriptions = GlobTree.new.insert ['a', 'b'] := same.trans tree
    exact ⟨⟨h', found', still⟩, step, h', found', by rw [still]; exact accepted⟩

end PubSub
