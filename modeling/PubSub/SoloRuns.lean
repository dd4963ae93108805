import PubSub.Broker
import PubSub.TreeMatch

/- What a connection does with a command when nobody interferes: the steps of one
   connection alone, as runs of the broker. -/
namespace PubSub
open Channels LabelledRun
variable {ring : Ring} {V B : Type} {encode : Message V → Option B}

inductive ConnectionStep (encode : Message V → Option B) :
    Bus ring B × ConnectionHandler V B → Act V B → Bus ring B × ConnectionHandler V B → Prop where
  | adapter {bus : Bus ring B} {h h' : ConnectionHandler V B} {a : Act V B}
      (step : AdapterStep h a h') : ConnectionStep encode (bus, h) a (bus, h')
  | handler {bus after : Bus ring B} {h h' : ConnectionHandler V B} {a : Act V B}
      (step : HandlerStep encode bus h a after h') : ConnectionStep encode (bus, h) a (after, h')

abbrev SoloRun (encode : Message V → Option B) (bus : Bus ring B) (h : ConnectionHandler V B)
    (acts : List (Act V B)) (after : Bus ring B) (h' : ConnectionHandler V B) : Prop :=
  Run (ConnectionStep encode) (bus, h) acts (after, h')

theorem solo_step (s : Broker ring V B) (c : Nat) {p q : Bus ring B × ConnectionHandler V B}
    {a : Act V B} (step : ConnectionStep encode p a q) :
    BrokerStep encode (s.put p.1 c p.2) (c, a) (s.put q.1 c q.2) := by
  cases step with
  | @adapter bus h h' _ step =>
    rw [← put_put s bus bus c h h']
    exact .adapter (s.put_self bus c h) step
  | @handler bus after h h' _ step =>
    rw [← put_put s bus after c h h']
    exact .handler (s.put_self bus c h) step

theorem solo_run {s : Broker ring V B} {c : Nat} {h h' : ConnectionHandler V B}
    (found : s.connections c = some h) {acts : List (Act V B)} {after : Bus ring B}
    (run : SoloRun encode s.bus h acts after h') :
    Run (BrokerStep encode) s (acts.map (Prod.mk c)) (s.put after c h') := by
  have lifted := run_map (fun p => s.put p.1 c p.2) (Prod.mk c) (fun _ => True)
    (fun _ _ _ _ _ => trivial) (fun _ _ _ _ step => solo_step s c step) trivial run
  rwa [put_found found] at lifted

/-- Alone at a connection that has just come up. -/
theorem lone_run {acts : List (Act V B)} {after : Bus ring B} {h : ConnectionHandler V B}
    (run : SoloRun encode Bus.new (ConnectionHandler.new (Bus.new : Bus ring B)) acts after h) :
    BrokerRun encode ((0, .connect) :: acts.map (Prod.mk 0)) (Broker.new.put after 0 h) := by
  have connected : BrokerStep encode (Broker.new : Broker ring V B) (0, .connect)
      (Broker.new.put Bus.new 0 (ConnectionHandler.new (Bus.new : Bus ring B))) := .connect rfl
  apply run_cons connected
  have alone := solo_run (Broker.new.put_self _ 0 _) run
  rwa [put_put] at alone

def resting (out : Mpsc channelBufferSize B) (streams : Str → Option Cursor) (events : Cursor)
    (tree : GlobTree) : ConnectionHandler V B :=
  ⟨out, Mpsc.new, streams, events, tree, .select true⟩

variable (bus : Bus ring B) (out : Mpsc channelBufferSize B) (streams : Str → Option Cursor)
  (events : Cursor) (tree : GlobTree)

theorem take_run (command : Command V) :
    SoloRun encode bus (resting out streams events tree)
      [.deliver command, .takeCommand command] bus
      ⟨out, Mpsc.new, streams, events, tree, .handle command⟩ :=
  run_cons (.adapter (.deliver rfl ⟨rfl, Nat.zero_lt_succ _⟩)) <|
  run_single (.handler (.takeCommand rfl rfl))

def publishActs (message : Message V) (bytes : B) : List (Act V B) :=
  [.deliver (.publish message), .takeCommand (.publish message),
    .startPublish message.topic bytes, .sending message.topic, .sending message.topic, .published]

def publishNewActs (message : Message V) (bytes : B) : List (Act V B) :=
  [.deliver (.publish message), .takeCommand (.publish message),
    .startPublish message.topic bytes, .sending message.topic, .sending message.topic,
    .sending message.topic, .sending message.topic, .sending message.topic,
    .sending message.topic, .published]

theorem sending_run (h : ConnectionHandler V B) (name : Str) (bytes : B) {pc : SendPc}
    (next : SendPc) (after : Bus ring B) (running : ∀ result, pc ≠ .done result)
    (moves : bus.sendStep name bytes pc = (after, next)) :
    ConnectionStep encode (bus, h.goto (.publishing name bytes pc)) (.sending name)
      (after, h.goto (.publishing name bytes next)) := by
  have step : HandlerStep encode bus (h.goto (.publishing name bytes pc)) (.sending name)
      (bus.sendStep name bytes pc).1 (h.goto (.publishing name bytes (bus.sendStep name bytes pc).2)) :=
    .sending rfl running
  rw [moves] at step
  exact .handler step

theorem publish_run {message : Message V} {bytes : B} (encoded : encode message = some bytes)
    (present : bus.containsKey message.topic = true) :
    SoloRun encode bus (resting out streams events tree) (publishActs message bytes)
      (bus.storeAndBroadcast message.topic bytes).2 (resting out streams events tree) := by
  have look : bus.sendStep message.topic bytes .start = (bus, .store) := by
    simp [Bus.sendStep, present]
  apply run_append (take_run bus out streams events tree (.publish message))
  apply run_cons (.handler (.startPublish rfl encoded))
  apply run_cons (sending_run bus (resting out streams events tree) _ _ _ _ (by simp) look)
  apply run_cons (sending_run bus (resting out streams events tree) _ _ _ _ (by simp) rfl)
  exact run_single (.handler (.published rfl))

def Bus.withTopic (name : Str) (message : B) : Bus ring B :=
  (((bus.insertTopic name).announceTopic name).storeAndBroadcast name message).2

theorem publish_new_run {message : Message V} {bytes : B} (encoded : encode message = some bytes)
    (absent : bus.containsKey message.topic = false) :
    SoloRun encode bus (resting out streams events tree) (publishNewActs message bytes)
      (bus.withTopic message.topic bytes) (resting out streams events tree) := by
  have look : bus.sendStep message.topic bytes .start = (bus, .creating .start) := by
    simp [Bus.sendStep, absent]
  have again : bus.sendStep message.topic bytes (.creating .start) = (bus, .creating .insert) := by
    simp [Bus.sendStep, Bus.createStep, absent]
  have inserted : bus.sendStep message.topic bytes (.creating .insert) =
      (bus.insertTopic message.topic, .creating (.announce true)) := by
    simp [Bus.sendStep, Bus.createStep, absent]
  apply run_append (take_run bus out streams events tree (.publish message))
  apply run_cons (.handler (.startPublish rfl encoded))
  apply run_cons (sending_run bus (resting out streams events tree) _ _ _ _ (by simp) look)
  apply run_cons (sending_run bus (resting out streams events tree) _ _ _ _ (by simp) again)
  apply run_cons (sending_run bus (resting out streams events tree) _ _ _ _ (by simp) inserted)
  apply run_cons (sending_run _ (resting out streams events tree) _ _ (.creating (.done true)) _
    (by simp) rfl)
  apply run_cons (sending_run _ (resting out streams events tree) _ _ .store _ (by simp) rfl)
  apply run_cons (sending_run _ (resting out streams events tree) _ _ _ _ (by simp) rfl)
  exact run_single (.handler (.published rfl))

theorem Bus.withTopic_topics_self {name : Str} (absent : bus.topics name = none) (message : B) :
    (bus.withTopic name message).topics name = some ⟨⟨[message]⟩, some message⟩ := by
  have inserted : ((bus.insertTopic name).announceTopic name).topics name = some TopicData.new := by
    rw [Bus.announceTopic, Bus.insertTopic_topics_self, absent, Option.getD_none]
  exact Bus.storeAndBroadcast_topics_self inserted message

theorem Bus.withTopic_topics_ne {name other : Str} (differ : other ≠ name) (message : B) :
    (bus.withTopic name message).topics other = bus.topics other := by
  unfold Bus.withTopic
  rw [Bus.storeAndBroadcast_topics_ne _ differ]
  exact bus.insertTopic_topics_ne differ

theorem Bus.withTopic_containsKey (name : Str) (message : B) (other : Str) :
    (bus.withTopic name message).containsKey other = true ↔
      other = name ∨ bus.containsKey other = true := by
  have announced : ((bus.insertTopic name).announceTopic name).containsKey other =
      (bus.insertTopic name).containsKey other := rfl
  rw [withTopic, storeAndBroadcast_containsKey, announced, insertTopic_containsKey]
  simp [or_comm]

theorem Bus.withTopic_events (name : Str) (message : B) :
    (bus.withTopic name message).topicEventsTx = bus.topicEventsTx.send (.created name) := by
  unfold Bus.withTopic
  rw [Bus.storeAndBroadcast_events, Bus.announceTopic, Bus.insertTopic_events]

theorem subscribe_run (pattern : Str) {names : List Str} (lists : bus.Lists bus.containsKey names) :
    SoloRun encode bus (resting out streams events tree)
      [.deliver (.subscribe pattern), .takeCommand (.subscribe pattern), .subscribe pattern,
        .listed names] bus
      ⟨out, Mpsc.new, streams, events, tree.insert pattern, .visit .subscribe names⟩ := by
  apply run_append (take_run bus out streams events tree (.subscribe pattern))
  apply run_cons (.handler (.subscribe rfl))
  exact run_single (.handler (.listed rfl lists))

theorem unsubscribe_run (pattern : Str) {result : Except String Unit} {smaller : GlobTree}
    (removed : tree.remove pattern = .ok (result, smaller)) :
    SoloRun encode bus (resting out streams events tree)
      [.deliver (.unsubscribe pattern), .takeCommand (.unsubscribe pattern),
        .unsubscribe pattern
          fun name => (streams name).isSome && !smaller.check name] bus
      (resting out (fun name => if (streams name).isSome && !smaller.check name then none
        else streams name) events smaller) := by
  apply run_append (take_run bus out streams events tree (.unsubscribe pattern))
  exact run_single (.handler (.unsubscribe rfl removed))

variable (cause : Cause) (names : List Str)

theorem retained_run {name : Str} {number : Nat} {bytes : B} (matched : tree.check name = true)
    (unsubscribed : streams name = none)
    (found : bus.subscribeToTopic name = some (number, some bytes)) (room : out.HasRoom) :
    SoloRun encode bus ⟨out, Mpsc.new, streams, events, tree, .visit cause (name :: names)⟩
      [.join name, .retained name number bytes] bus
      ⟨out.push bytes, Mpsc.new, Function.update streams name (some number), events, tree,
        .visit cause names⟩ := by
  apply run_cons (.handler (.join rfl matched unsubscribed found))
  exact run_single (.handler (.retained rfl room))

theorem retainedLost_run {name : Str} {number : Nat} {bytes : B} (matched : tree.check name = true)
    (unsubscribed : streams name = none)
    (found : bus.subscribeToTopic name = some (number, some bytes)) (full : ¬ out.HasRoom) :
    SoloRun encode bus ⟨out, Mpsc.new, streams, events, tree, .visit cause (name :: names)⟩
      [.join name, .retainedLost name] bus
      ⟨out, Mpsc.new, Function.update streams name (some number), events, tree,
        .visit cause names⟩ := by
  apply run_cons (.handler (.join rfl matched unsubscribed found))
  exact run_single (.handler (.retainedLost rfl full))

theorem skip_run {name : Str} (why : tree.check name = false ∨ (streams name).isSome) :
    SoloRun encode bus ⟨out, Mpsc.new, streams, events, tree, .visit cause (name :: names)⟩
      [.skip name] bus ⟨out, Mpsc.new, streams, events, tree, .visit cause names⟩ :=
  run_single (.handler (.skip rfl (why.imp_right Or.inl)))

theorem finish_run :
    SoloRun encode bus ⟨out, Mpsc.new, streams, events, tree, .visit cause []⟩
      [.finish cause] bus (resting out streams events tree) :=
  run_single (.handler (.finish rfl))

theorem event_run {name : Str} {next : Cursor}
    (received : bus.topicEventsTx.recv events = .item (.created name) next)
    (unmatched : tree.check name = false) :
    SoloRun encode bus (resting out streams events tree)
      [.readEvent name, .skip name, .finish .created] bus (resting out streams next tree) := by
  apply run_cons (.handler (.readEvent rfl received))
  apply run_append (skip_run bus out streams next tree .created [] (Or.inl unmatched))
  exact finish_run bus out streams next tree .created

theorem item_run {name : Str} {cursor next : Cursor} {data : TopicData ring B} {bytes : B}
    (stream : streams name = some cursor) (topic : bus.topics name = some data)
    (received : data.sender.recv cursor = .item bytes next) (room : out.HasRoom) :
    SoloRun encode bus (resting out streams events tree)
      [.readItem name, .forward name next bytes] bus
      (resting (out.push bytes) (Function.update streams name (some next)) events tree) := by
  apply run_cons (.handler (.readItem rfl stream topic received))
  exact run_single (.handler (.forward rfl room))

/-! A client that publishes to a new topic, subscribes to it and publishes again. -/

def openingActs (message : Message V) (bytes : B) : List (Act V B) :=
  publishNewActs message bytes ++
    [.readEvent message.topic, .skip message.topic, .finish .created]

theorem opening_run {message : Message V} {bytes : B} (encoded : encode message = some bytes) :
    SoloRun encode (Bus.new : Bus ring B) (resting Mpsc.new (fun _ => none) 0 GlobTree.new)
      (openingActs message bytes) (Bus.new.withTopic message.topic bytes)
      (resting Mpsc.new (fun _ => none) 1 GlobTree.new) := by
  have received : ((Bus.new : Bus ring B).withTopic message.topic bytes).topicEventsTx.recv 0 =
      .item (.created message.topic) 1 := by
    rw [Bus.withTopic_events]
    exact Broadcast.recv_of_get ((Nat.zero_add ring.size).symm ▸ ring.positive) rfl
  apply run_append (publish_new_run Bus.new Mpsc.new (fun _ => none) 0 GlobTree.new encoded rfl)
  exact event_run _ Mpsc.new (fun _ => none) 0 GlobTree.new received (GlobTree.new_check _)

def subscribingActs (message : Message V) (bytes : B) (pattern : Str) : List (Act V B) :=
  openingActs message bytes ++ [.deliver (.subscribe pattern), .takeCommand (.subscribe pattern),
    .subscribe pattern, .listed [message.topic]]

theorem subscribing_run (ring : Ring) {message : Message V} {bytes : B}
    (encoded : encode message = some bytes) (pattern : Str) :
    SoloRun encode (Bus.new : Bus ring B) (resting Mpsc.new (fun _ => none) 0 GlobTree.new)
      (subscribingActs message bytes pattern) (Bus.new.withTopic message.topic bytes)
      ⟨Mpsc.new, Mpsc.new, fun _ => none, 1, GlobTree.new.insert pattern,
        .visit .subscribe [message.topic]⟩ := by
  apply run_append (opening_run encoded)
  apply subscribe_run
  constructor
  · simp
  · intro name present
    rw [Bus.withTopic_containsKey] at present
    simpa [Bus.containsKey, Bus.new] using present
  · intro name mem
    rw [Bus.withTopic_containsKey]
    exact Or.inl (List.mem_singleton.mp mem)

def laterActs (later : Message V) (bytes : B) : List (Act V B) :=
  publishActs later bytes ++ [.readItem later.topic, .forward later.topic 2 bytes]

def receivingActs (later : Message V) (first second : B) : List (Act V B) :=
  [.retained later.topic 1 first, .finish .subscribe] ++ laterActs later second

def joinedHandler (topic : Str) (first : B) (pattern : Str) : ConnectionHandler V B :=
  resting (Mpsc.new.push first) (Function.update (fun _ => none) topic (some 1)) 1
    (GlobTree.new.insert pattern)

def joiningActs (topic : Str) (bytes : B) : List (Act V B) :=
  [.join topic, .retained topic 1 bytes, .finish .subscribe]

theorem joining_run (ring : Ring) {topic : Str} (first : B) {pattern : Str}
    (matched : GlobMatch pattern (asBytes topic)) :
    SoloRun encode ((Bus.new : Bus ring B).withTopic topic first)
      ⟨Mpsc.new, Mpsc.new, fun _ => none, 1, GlobTree.new.insert pattern,
        .visit .subscribe [topic]⟩
      (joiningActs topic first) ((Bus.new : Bus ring B).withTopic topic first)
      (joinedHandler topic first pattern) := by
  generalize opened : (Bus.new : Bus ring B).withTopic topic first = bus
  have known : bus.topics topic = some ⟨⟨[first]⟩, some first⟩ := by
    rw [← opened, Bus.withTopic_topics_self _ rfl]
  have found : bus.subscribeToTopic topic = some (1, some first) := by
    simp [Bus.subscribeToTopic, known, Broadcast.subscribe, TopicData.getLastMessage]
  have accepted := (GlobTree.first_insert_check pattern topic).mpr matched
  have joined : SoloRun encode _ _ _ _ _ := retained_run bus Mpsc.new (fun _ => none) 1
    (GlobTree.new.insert pattern) .subscribe [] accepted rfl found ⟨rfl, Nat.zero_lt_succ _⟩
  exact run_append joined (finish_run bus _ _ 1 _ .subscribe)

theorem later_run (ring : Ring) {later : Message V} (first : B) {second : B} (pattern : Str)
    (encoded : encode later = some second) :
    SoloRun encode ((Bus.new : Bus ring B).withTopic later.topic first)
      (joinedHandler later.topic first pattern) (laterActs later second)
      (((Bus.new : Bus ring B).withTopic later.topic first).storeAndBroadcast later.topic second).2
      (resting ((Mpsc.new.push first).push second)
        (Function.update (Function.update (fun _ => none) later.topic (some 1)) later.topic (some 2))
        1 (GlobTree.new.insert pattern)) := by
  generalize opened : (Bus.new : Bus ring B).withTopic later.topic first = bus
  have known : bus.topics later.topic = some ⟨⟨[first]⟩, some first⟩ := by
    rw [← opened, Bus.withTopic_topics_self _ rfl]
  have stored : (bus.storeAndBroadcast later.topic second).2.topics later.topic =
      some ⟨⟨[first, second]⟩, some second⟩ := Bus.storeAndBroadcast_topics_self known second
  have unread : (⟨[first, second]⟩ : Broadcast ring.size B).recv 1 = .item second 2 :=
    Broadcast.recv_of_get (Nat.add_le_add_left ring.positive 1) rfl
  have present : bus.containsKey later.topic = true := by simp [Bus.containsKey, known]
  have room : (Mpsc.push (Mpsc.new : Mpsc channelBufferSize B) first).HasRoom :=
    ⟨rfl, by simp [Mpsc.push, Mpsc.new, channelBufferSize]⟩
  apply run_append (publish_run bus _ _ 1 _ encoded present)
  exact item_run _ (Mpsc.new.push first) _ 1 (GlobTree.new.insert pattern)
    (Function.update_self later.topic (some 1) fun _ => none) stored unread room

theorem receiving_run (ring : Ring) {message later : Message V} (first : B) {second : B}
    {pattern : Str} (encoded : encode later = some second)
    (sameTopic : later.topic = message.topic)
    (matched : GlobMatch pattern (asBytes message.topic)) :
    SoloRun encode ((Bus.new : Bus ring B).withTopic message.topic first)
      ⟨Mpsc.new, Mpsc.new, fun _ => none, 1, GlobTree.new.insert pattern,
        .visit .subscribe [message.topic]⟩
      (.join message.topic :: receivingActs later first second)
      ((Bus.new.withTopic message.topic first).storeAndBroadcast message.topic second).2
      (resting ((Mpsc.new.push first).push second)
        (Function.update (Function.update (fun _ => none) message.topic (some 1))
          message.topic (some 2)) 1 (GlobTree.new.insert pattern)) := by
  have joined : SoloRun encode _ _ _ _ _ := joining_run ring first matched
  rw [← sameTopic] at joined ⊢
  exact run_append joined (later_run ring first pattern encoded)

end PubSub
