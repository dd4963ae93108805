import PubSub.Delivery

/- When the handler of a connection waits, and how much it does when it does not. No other
   connection can stop it on its way through a command or an event, and what it does is
   paid for by what it has been given. -/
namespace PubSub
open Channels LabelledRun
variable {ring : Ring} {V B : Type} {encode : Message V → Option B}

def Bus.Named (bus : Bus ring B) : Prop :=
  ∃ names : List Str, names.Nodup ∧ ∀ name, bus.containsKey name = true ↔ name ∈ names

theorem new_named : (Bus.new : Bus ring B).Named :=
  ⟨[], List.nodup_nil, fun name => by simp [Bus.new, Bus.containsKey]⟩

theorem effect_named {bus after : Bus ring B} {name : Str} {message : B} {pc next : SendPc}
    (effect : bus.Effect name message pc after next) (named : bus.Named) : after.Named := by
  obtain ⟨names, once, keys⟩ := named
  cases effect with
  | look pc next waits still => exact ⟨names, once, keys⟩
  | announce inserted => exact ⟨names, once, keys⟩
  | insert =>
    by_cases present : name ∈ names
    · refine ⟨names, once, fun other => ?_⟩
      rw [Bus.insertTopic_containsKey, Bool.or_eq_true, keys other, decide_eq_true_eq]
      constructor
      · rintro (held | rfl)
        · exact held
        · exact present
      · exact Or.inl
    · refine ⟨name :: names, List.nodup_cons.mpr ⟨present, once⟩, fun other => ?_⟩
      rw [Bus.insertTopic_containsKey, Bool.or_eq_true, keys other, decide_eq_true_eq,
        List.mem_cons, or_comm]
  | store =>
    refine ⟨names, once, fun other => ?_⟩
    rw [Bus.storeAndBroadcast_containsKey]
    exact keys other

theorem run_named {ls : List (Label V B)} {s : Broker ring V B} (run : BrokerRun encode ls s) :
    s.bus.Named := by
  refine run_invariant (fun s => s.bus.Named) new_named (fun s l t named step => ?_) run
  rcases brokerStep_bus step with same | ⟨h, name, bytes, pc, next, _, _, _, _, effect⟩
  · rw [same]
    exact named
  · exact effect_named effect named

def HandlerPc.Begun (bus : Bus ring B) (pc : HandlerPc V B) : Prop :=
  ∀ before, pc = .listing before → ∀ name, before name = true → bus.containsKey name = true

theorem run_begun {ls : List (Label V B)} {s : Broker ring V B} (run : BrokerRun encode ls s)
    {c : Nat} {h : ConnectionHandler V B} (found : s.connections c = some h) :
    h.pc.Begun s.bus := by
  apply run_connection (fun _ bus h => h.pc.Begun bus) _ _ _ _ run found
  · intro ls s before
    exact nofun
  · intro ls s h a h' before here ih step
    rw [(adapterStep_pc step).1]
    exact ih
  · intro ls s h a bus h' before here ih step begun at_ name held
    cases step with
    | subscribe =>
      cases at_
      exact held
    | _ => simp [ConnectionHandler.goto, ConnectionHandler.stop] at at_
  · intro ls s t h l before here other ih step begun at_ name held
    exact brokerStep_containsKey step (ih begun at_ name held)

theorem lists_exist {bus : Bus ring B} (named : bus.Named) {before : Str → Bool}
    (begun : ∀ name, before name = true → bus.containsKey name = true) :
    ∃ names, bus.Lists before names := by
  obtain ⟨names, once, keys⟩ := named
  exact ⟨names, once, fun name held => (keys name).mp (begun name held),
    fun name member => (keys name).mpr member⟩

/-- Nothing to do: an empty `select!`, or no room for the message in hand while the task
    that writes to the client is alive. -/
def ConnectionHandler.Waits (bus : Bus ring B) (h : ConnectionHandler V B) : Prop :=
  match h.pc with
  | .stopped => True
  | .select enabled =>
    h.adapterReceiver.queue = [] ∧ h.adapterReceiver.senderDropped = false ∧
      (enabled = true → bus.events.length ≤ h.topicEvents) ∧
      ∀ name cursor data, h.topicStreams name = some cursor → bus.topics name = some data →
        data.sender.sent.length ≤ cursor
  | .forward _ _ _ => ¬ h.adapterSender.HasRoom ∧ h.adapterSender.receiverDropped = false
  | _ => False

theorem unread_received {A : Type} {capacity : Nat} {channel : Broadcast capacity A}
    {cursor : Cursor} (unread : cursor < channel.sent.length) :
    (∃ value next, channel.recv cursor = .item value next) ∨
      ∃ next, channel.recv cursor = .lagged next := by
  cases received : channel.recv cursor with
  | empty => exact absurd (Broadcast.recv_empty received) (Nat.not_le.mpr unread)
  | item value next => exact Or.inl ⟨value, next, rfl⟩
  | lagged next => exact Or.inr ⟨next, rfl⟩

theorem select_able (encode : Message V → Option B) {bus : Bus ring B} {h : ConnectionHandler V B} {enabled : Bool}
    (at_ : h.pc = .select enabled) (busy : ¬ h.Waits bus) :
    ∃ a after h', HandlerStep encode bus h a after h' := by
  cases queue : h.adapterReceiver.queue with
  | cons command rest => exact ⟨_, _, _, .takeCommand at_ queue⟩
  | nil =>
    cases closed : h.adapterReceiver.senderDropped with
    | true => exact ⟨_, _, _, .disconnect at_ queue closed⟩
    | false =>
      by_cases event : enabled = true ∧ h.topicEvents < bus.events.length
      · obtain ⟨rfl, unread⟩ := event
        rcases unread_received unread with ⟨⟨name⟩, next, received⟩ | ⟨next, received⟩
        · exact ⟨_, _, _, .readEvent at_ received⟩
        · exact ⟨_, _, _, .eventsLagged at_ received⟩
      · by_cases item : ∃ name cursor data, h.topicStreams name = some cursor ∧
            bus.topics name = some data ∧ cursor < data.sender.sent.length
        · obtain ⟨name, cursor, data, stream, topic, unread⟩ := item
          rcases unread_received unread with ⟨bytes, next, received⟩ | ⟨next, received⟩
          · exact ⟨_, _, _, .readItem at_ stream topic received⟩
          · exact ⟨_, _, _, .streamLagged at_ stream topic received⟩
        · apply absurd _ busy
          unfold ConnectionHandler.Waits
          rw [at_]
          refine ⟨queue, closed, fun on => ?_, fun name cursor data stream topic => ?_⟩
          · exact Nat.le_of_not_lt fun unread => event ⟨on, unread⟩
          · exact Nat.le_of_not_lt fun unread => item ⟨name, cursor, data, stream, topic, unread⟩

theorem busy_able (encode : Message V → Option B) {bus : Bus ring B} {h : ConnectionHandler V B} (named : bus.Named)
    (begun : h.pc.Begun bus) (busy : ¬ h.Waits bus) :
    ∃ a after h', HandlerStep encode bus h a after h' := by
  cases at_ : h.pc with
  | select enabled => exact select_able encode at_ busy
  | stopped =>
    apply absurd _ busy
    simp only [ConnectionHandler.Waits, at_]
  | handle command =>
    cases command with
    | publish message =>
      cases encoded : encode message with
      | none => exact ⟨_, _, _, .publishFailed at_ encoded⟩
      | some bytes => exact ⟨_, _, _, .startPublish at_ encoded⟩
    | subscribe pattern => exact ⟨_, _, _, .subscribe at_⟩
    | unsubscribe pattern =>
      cases removed : h.subscriptions.remove pattern with
      | error panic => exact ⟨_, _, _, .panicked at_ removed⟩
      | ok answer => exact ⟨_, _, _, .unsubscribe at_ removed⟩
  | listing before =>
    obtain ⟨names, lists⟩ := lists_exist named (begun before at_)
    exact ⟨_, _, _, .listed at_ lists⟩
  | visit cause names =>
    cases names with
    | nil => exact ⟨_, _, _, .finish at_⟩
    | cons name names =>
      cases matched : h.subscriptions.check name with
      | false => exact ⟨_, _, _, .skip at_ (Or.inl matched)⟩
      | true =>
        cases stream : h.topicStreams name with
        | some cursor => exact ⟨_, _, _, .skip at_ (Or.inr (Or.inl (by simp [stream])))⟩
        | none =>
          cases found : bus.subscribeToTopic name with
          | none => exact ⟨_, _, _, .skip at_ (Or.inr (Or.inr found))⟩
          | some answer => exact ⟨_, _, _, .join at_ matched stream found⟩
  | joined cause names name receiver lastMessage =>
    cases lastMessage with
    | none => exact ⟨_, _, _, .attach at_⟩
    | some bytes =>
      by_cases room : h.adapterSender.HasRoom
      · exact ⟨_, _, _, .retained at_ room⟩
      · exact ⟨_, _, _, .retainedLost at_ room⟩
  | publishing name bytes pc =>
    cases pc with
    | done result => exact ⟨_, _, _, .published at_⟩
    | _ => exact ⟨_, _, _, .sending at_ (by simp)⟩
  | forward name number bytes =>
    by_cases room : h.adapterSender.HasRoom
    · exact ⟨_, _, _, .forward at_ room⟩
    · cases closed : h.adapterSender.receiverDropped with
      | true => exact ⟨_, _, _, .forwardFailed at_ closed⟩
      | false =>
        apply absurd _ busy
        simp only [ConnectionHandler.Waits, at_]
        exact ⟨room, closed⟩

theorem item_unread {A : Type} {capacity : Nat} {channel : Broadcast capacity A}
    {cursor next : Cursor} {value : A} (received : channel.recv cursor = .item value next) :
    cursor < channel.sent.length :=
  (List.getElem?_eq_some_iff.mp (Broadcast.recv_item received).1).1

theorem lagged_unread {A : Type} {capacity : Nat} {channel : Broadcast capacity A}
    {cursor next : Cursor} (received : channel.recv cursor = .lagged next) :
    cursor < channel.sent.length :=
  Nat.lt_of_le_of_lt (Nat.le_add_right _ _) (Broadcast.recv_lagged received).1

theorem waits_stuck {bus after : Bus ring B} {h h' : ConnectionHandler V B} {a : Act V B}
    (waits : h.Waits bus) : ¬ HandlerStep encode bus h a after h' := by
  intro step
  unfold ConnectionHandler.Waits at waits
  cases step with
  | takeCommand at_ queue => simp [at_, queue] at waits
  | disconnect at_ queue closed => simp [at_, closed] at waits
  | readEvent at_ received =>
    rw [at_] at waits
    exact absurd (waits.2.2.1 rfl) (Nat.not_le.mpr (item_unread received))
  | eventsLagged at_ received =>
    rw [at_] at waits
    exact absurd (waits.2.2.1 rfl) (Nat.not_le.mpr (lagged_unread received))
  | readItem at_ stream topic received =>
    rw [at_] at waits
    exact absurd (waits.2.2.2 _ _ _ stream topic) (Nat.not_le.mpr (item_unread received))
  | streamLagged at_ stream topic received =>
    rw [at_] at waits
    exact absurd (waits.2.2.2 _ _ _ stream topic) (Nat.not_le.mpr (lagged_unread received))
  | forward at_ room =>
    rw [at_] at waits
    exact waits.1 room
  | forwardFailed at_ closed => simp [at_, closed] at waits
  | _ => simp_all

/-- A handler has nothing to do exactly where it should have nothing to do: whatever other
    connections are in the middle of, it is stuck neither inside a command nor inside an event. -/
theorem handler_waits_iff {ls : List (Label V B)} {s : Broker ring V B}
    (run : BrokerRun encode ls s) {c : Nat} {h : ConnectionHandler V B}
    (found : s.connections c = some h) :
    (∀ a after h', ¬ HandlerStep encode s.bus h a after h') ↔ h.Waits s.bus := by
  constructor
  · intro stuck
    by_contra busy
    obtain ⟨a, after, h', step⟩ := busy_able encode (run_named run) (run_begun run found) busy
    exact stuck a after h' step
  · exact fun waits a after h' => waits_stuck waits

theorem joined_waits (ring : Ring) (topic : Str) (first : B) (pattern : Str) :
    (joinedHandler topic first pattern : ConnectionHandler V B).Waits
      ((Bus.new : Bus ring B).withTopic topic first) := by
  have events : ((Bus.new : Bus ring B).withTopic topic first).events.length ≤ 1 := by
    rw [Bus.events, Bus.withTopic_events]
    exact Nat.le_refl 1
  refine ⟨rfl, rfl, fun _ => events, ?_⟩
  intro name cursor data stream known
  by_cases same : name = topic
  · subst same
    rw [Bus.withTopic_topics_self _ rfl] at known
    obtain rfl := Option.some.inj known
    obtain rfl : 1 = cursor := by simpa [joinedHandler, resting] using stream
    exact Nat.le_refl 1
  · simp [joinedHandler, resting, Function.update_of_ne same] at stream

theorem joined_connection_waits : ∃ s h, BrokerRun packShort ((0, .connect) ::
      (subscribingActs firstMessage firstBytes ['a', 'b'] ++
        joiningActs ['a', 'b'] firstBytes).map (Prod.mk 0))
      (s : Broker wideRing UInt8 (List UInt8)) ∧ s.connections 0 = some h ∧
      h.topicStreams ['a', 'b'] = some 1 ∧ ∀ a after h', ¬ HandlerStep packShort s.bus h a after h' := by
  have run := lone_run (run_append (subscribing_run wideRing firstMessage_packed ['a', 'b'])
    (joining_run wideRing firstBytes ab_matches))
  have found := (Broker.new : Broker wideRing UInt8 (List UInt8)).put_self
    (Bus.new.withTopic ['a', 'b'] firstBytes) 0 (joinedHandler ['a', 'b'] firstBytes ['a', 'b'])
  exact ⟨_, _, run, found, rfl, (handler_waits_iff run found).mpr (joined_waits wideRing _ _ _)⟩

/-! What a handler does is paid for. -/

def Act.handles : Act V B → Bool
  | .connect | .deliver _ | .hangUp | .dequeue _ | .writerStopped => false
  | _ => true

def Act.grants : Act V B → Nat
  | .takeCommand (.publish _) => 9
  | .takeCommand (.subscribe _) => 4
  | .takeCommand (.unsubscribe _) => 2
  | .listed names => 2 * names.length
  | .readEvent _ => 4
  | .readItem _ => 2
  | .disconnect | .eventsLagged _ _ | .streamLagged _ => 1
  | _ => 0

def CreatePc.left : CreatePc → Nat
  | .start => 5
  | .insert => 4
  | .announce _ => 3
  | .done _ => 2

def SendPc.left : SendPc → Nat
  | .start => 6
  | .creating pc => pc.left
  | .store => 1
  | .done _ => 0

def HandlerPc.left : HandlerPc V B → Nat
  | .handle (.publish _) => 8
  | .handle (.subscribe _) => 3
  | .handle (.unsubscribe _) => 1
  | .listing _ => 2
  | .visit _ names => 2 * names.length + 1
  | .joined _ names _ _ _ => 2 * names.length + 2
  | .publishing _ _ pc => pc.left + 1
  | .forward _ _ _ => 1
  | .select _ | .stopped => 0

def handlerSteps (c : Nat) (ls : List (Label V B)) : Nat :=
  ls.countP fun l => l.1 = c ∧ l.2.handles

def granted (c : Nat) (ls : List (Label V B)) : Nat :=
  (ls.map fun l => if l.1 = c then l.2.grants else 0).sum

theorem sendStep_left (bus : Bus ring B) (name : Str) (bytes : B) {pc : SendPc}
    (running : ∀ result, pc ≠ .done result) :
    (bus.sendStep name bytes pc).2.left < pc.left := by
  cases pc with
  | start =>
    cases present : bus.containsKey name <;>
      simp [Bus.sendStep, present, SendPc.left, CreatePc.left]
  | creating pc =>
    cases pc with
    | start =>
      cases present : bus.containsKey name <;>
        simp [Bus.sendStep, Bus.createStep, present, SendPc.left, CreatePc.left]
    | insert => exact Nat.lt_succ_self _
    | announce inserted => exact Nat.lt_succ_self _
    | done created => exact Nat.lt_succ_self _
  | store => exact Nat.lt_succ_self _
  | done result => exact absurd rfl (running result)

theorem handlerStep_left {bus after : Bus ring B} {h h' : ConnectionHandler V B} {a : Act V B}
    (step : HandlerStep encode bus h a after h') :
    a.handles = true ∧ h'.pc.left + 1 ≤ h.pc.left + a.grants := by
  cases step with
  | @takeCommand command rest enabled at_ queue =>
    refine ⟨rfl, ?_⟩
    rw [at_]
    cases command <;> simp [HandlerPc.left, Act.grants]
  | listed at_ lists =>
    refine ⟨rfl, ?_⟩
    simp only [ConnectionHandler.goto, HandlerPc.left, Act.grants, at_]
    omega
  | @sending name bytes pc at_ running =>
    refine ⟨rfl, ?_⟩
    have fewer := sendStep_left bus name bytes running
    simp only [ConnectionHandler.goto, HandlerPc.left, Act.grants, at_]
    omega
  | startPublish at_ encoded =>
    refine ⟨rfl, ?_⟩
    simp [ConnectionHandler.goto, HandlerPc.left, SendPc.left, Act.grants, at_]
  | _ =>
    refine ⟨rfl, ?_⟩
    simp_all [ConnectionHandler.goto, ConnectionHandler.stop, HandlerPc.left, Act.grants,
      SendPc.left] <;> omega

theorem adapterStep_handles {h h' : ConnectionHandler V B} {a : Act V B}
    (step : AdapterStep h a h') : a.handles = false ∧ a.grants = 0 := by
  cases step <;> exact ⟨rfl, rfl⟩

theorem handlerSteps_snoc (c : Nat) (ls : List (Label V B)) (l : Label V B) :
    handlerSteps c (ls ++ [l]) =
      handlerSteps c ls + if l.1 = c ∧ l.2.handles then 1 else 0 := by
  simp [handlerSteps, List.countP_append, List.countP_singleton]

theorem granted_snoc (c : Nat) (ls : List (Label V B)) (l : Label V B) :
    granted c (ls ++ [l]) = granted c ls + if l.1 = c then l.2.grants else 0 := by
  simp [granted]

/-- Over any piece of any run a handler takes at most the steps it had left and those it was
    granted: nine for a `Publish`, four for a `Subscribe` and two for every topic it lists,
    two for an `Unsubscribe`, four for an event, two for a message. -/
theorem handler_work_bounded {s t : Broker ring V B} {ls : List (Label V B)}
    (run : Run (BrokerStep encode) s ls t) {c : Nat} {h : ConnectionHandler V B}
    (found : s.connections c = some h) :
    ∃ h', t.connections c = some h' ∧
      handlerSteps c ls + h'.pc.left ≤ h.pc.left + granted c ls := by
  refine run_history (fun ls t => ∃ h', t.connections c = some h' ∧
    handlerSteps c ls + h'.pc.left ≤ h.pc.left + granted c ls) ?_ ?_ run
  · exact ⟨h, found, by simp [handlerSteps, granted]⟩
  · rintro ls s l t - ⟨k, here, paid⟩ step
    rw [handlerSteps_snoc, granted_snoc]
    rcases brokerStep_connection step here with ⟨other, still⟩ | ⟨a, k', rfl, moved, rfl⟩ |
      ⟨a, k', bus, rfl, moved, rfl⟩
    · exact ⟨k, still, by simpa [other] using paid⟩
    · obtain ⟨quiet, free⟩ := adapterStep_handles moved
      refine ⟨k', Broker.put_self _ _ _ _, ?_⟩
      rw [(adapterStep_pc moved).1]
      simpa [quiet, free] using paid
    · obtain ⟨own, spent⟩ := handlerStep_left moved
      refine ⟨k', Broker.put_self _ _ _ _, ?_⟩
      simp only [own, and_self, ↓reduceIte]
      omega

theorem first_publish_takes_nine : ∃ s t : Broker wideRing UInt8 (List UInt8),
    Run (BrokerStep packShort) s ((publishNewActs firstMessage firstBytes).map (Prod.mk 0)) t ∧
    handlerSteps 0 ((publishNewActs firstMessage firstBytes).map (Prod.mk 0)) = 9 ∧
    ∃ h', t.connections 0 = some h' ∧ 9 + h'.pc.left ≤ 9 := by
  have found := (Broker.new : Broker wideRing UInt8 (List UInt8)).put_self Bus.new 0
    (ConnectionHandler.new (Bus.new : Bus wideRing (List UInt8)))
  have run := solo_run found (publish_new_run (Bus.new : Bus wideRing (List UInt8)) Mpsc.new
    (fun _ => none) 0 GlobTree.new firstMessage_packed rfl)
  exact ⟨_, _, run, rfl, handler_work_bounded run found⟩

end PubSub
