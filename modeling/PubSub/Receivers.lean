import PubSub.Broker
import PubSub.Refusal

/- The receivers of a topic, over all connections. Its channel is modelled as one that keeps
   every message, and stands for one that refuses a message when there is no receiver. -/
namespace PubSub
open Channels LabelledRun
variable {ring : Ring} {V B : Type} {encode : Message V → Option B}

def ConnectionHandler.receiver (h : ConnectionHandler V B) (topic : Str) : Option Cursor :=
  match h.pc with
  | .stopped => none
  | .joined _ _ name cursor _ => if name = topic then some cursor else h.topicStreams topic
  | _ => h.topicStreams topic

def Broker.receivers (s : Broker ring V B) (topic : Str) (d : Nat) : Option Cursor :=
  (s.connections d).bind fun h => h.receiver topic

inductive ReceiverEffect (bus : Bus ring B) (topic : Str) :
    Option Cursor → Bus ring B → Option Cursor → Prop where
  | same {r : Option Cursor} {after : Bus ring B}
      (kept : (after.topics topic).map TopicData.sender =
        (bus.topics topic).map TopicData.sender) : ReceiverEffect bus topic r after r
  | create {r : Option Cursor} {after : Bus ring B} (absent : bus.topics topic = none)
      (created : after.topics topic = some TopicData.new) : ReceiverEffect bus topic r after r
  | drop {r : Option Cursor} : ReceiverEffect bus topic r bus none
  | step {r r' : Option Cursor} {after : Bus ring B} {data data' : TopicData ring B}
      (op : Nat → ChannelOp B) (found : bus.topics topic = some data)
      (found' : after.topics topic = some data')
      (stepped : ∀ receivers d, receivers d = r → Shared.LogStep ⟨data.sender, receivers⟩ (op d)
        ⟨data'.sender, Function.update receivers d r'⟩) : ReceiverEffect bus topic r after r'

def HandlerPc.Loose : HandlerPc V B → Prop
  | .stopped | .joined _ _ _ _ _ => False
  | _ => True

theorem receiver_loose {h : ConnectionHandler V B} (loose : h.pc.Loose) (topic : Str) :
    h.receiver topic = h.topicStreams topic := by
  unfold ConnectionHandler.receiver
  generalize h.pc = pc at loose
  cases pc with
  | stopped => exact loose.elim
  | joined => exact loose.elim
  | _ => rfl

theorem receiver_kept {h k : ConnectionHandler V B} (before : h.pc.Loose) (after : k.pc.Loose)
    (streams : k.topicStreams = h.topicStreams) (topic : Str) :
    k.receiver topic = h.receiver topic := by
  rw [receiver_loose before, receiver_loose after, streams]

theorem receiver_moved {h k : ConnectionHandler V B} {name : Str} {cursor next : Cursor}
    (before : h.pc.Loose) (after : k.pc.Loose) (stream : h.topicStreams name = some cursor)
    (streams : k.topicStreams = Function.update h.topicStreams name (some next)) {topic : Str}
    (bus : Bus ring B) {data : TopicData ring B} (known : bus.topics name = some data)
    (op : Nat → ChannelOp B)
    (moves : ∀ receivers d, receivers d = some cursor → Shared.LogStep ⟨data.sender, receivers⟩
      (op d) ⟨data.sender, Function.update receivers d (some next)⟩) :
    ReceiverEffect bus topic (h.receiver topic) bus (k.receiver topic) := by
  rw [receiver_loose before, receiver_loose after, streams]
  by_cases here : topic = name
  · subst here
    rw [stream, Function.update_self]
    exact .step op known known moves
  · rw [Function.update_of_ne here]
    exact .same rfl

theorem sending_effect (bus : Bus ring B) (topic name : Str) (bytes : B) (pc : SendPc)
    (r : Option Cursor) :
    ReceiverEffect bus topic r (bus.sendStep name bytes pc).1 r := by
  have effect := bus.sendStep_effect name bytes pc
  generalize (bus.sendStep name bytes pc).1 = after at effect
  generalize (bus.sendStep name bytes pc).2 = next at effect
  cases effect with
  | look pc next waits still => exact .same rfl
  | announce inserted => exact .same rfl
  | insert =>
    by_cases here : topic = name
    · subst here
      have inserted := bus.insertTopic_topics_self topic
      cases before : bus.topics topic with
      | none => exact .create before (by rw [inserted, before]; rfl)
      | some data => exact .same (by rw [inserted, before]; rfl)
    · exact .same (by rw [bus.insertTopic_topics_ne here])
  | store =>
    by_cases here : topic = name
    · subst here
      cases before : bus.topics topic with
      | none => exact .same (by rw [Bus.storeAndBroadcast_missing before])
      | some data =>
        refine .step (fun _ => .send bytes) before (Bus.storeAndBroadcast_topics_self before bytes) ?_
        rintro receivers d rfl
        rw [Function.update_eq_self]
        exact .send trivial
    · exact .same (by rw [bus.storeAndBroadcast_topics_ne here])

theorem receiver_attached {h k : ConnectionHandler V B} {cause : Cause} {names : List Str}
    {name : Str} {cursor : Cursor} {lastMessage : Option B}
    (at_ : h.pc = .joined cause names name cursor lastMessage)
    (streams : k.topicStreams = Function.update h.topicStreams name (some cursor))
    (at' : k.pc = .visit cause names) (topic : Str) : k.receiver topic = h.receiver topic := by
  rw [ConnectionHandler.receiver, ConnectionHandler.receiver, at_, at', streams]
  by_cases here : name = topic
  · subst here
    simp
  · simp [here, Function.update_of_ne (Ne.symm here)]

theorem handlerStep_receiver {bus after : Bus ring B} {h h' : ConnectionHandler V B} {a : Act V B}
    (step : HandlerStep encode bus h a after h') (topic : Str) :
    ReceiverEffect bus topic (h.receiver topic) after (h'.receiver topic) := by
  have still : h'.receiver topic = h.receiver topic → after = bus →
      ReceiverEffect bus topic (h.receiver topic) after (h'.receiver topic) := by
    rintro receiver rfl
    rw [receiver]
    exact .same rfl
  have loose (before : h.pc.Loose) (after' : h'.pc.Loose) (streams : h'.topicStreams =
      h.topicStreams) : after = bus →
      ReceiverEffect bus topic (h.receiver topic) after (h'.receiver topic) :=
    still (receiver_kept before after' streams topic)
  cases step with
  | disconnect => exact .drop
  | panicked => exact .drop
  | forwardFailed => exact .drop
  | @unsubscribe pattern result tree at_ removed =>
    by_cases unmatched : ({ h with subscriptions := tree }).unmatched topic
    · have gone : ((({ h with subscriptions := tree }).removeUnmatched).goto
          (.select true)).receiver topic = none := by
        simp [ConnectionHandler.receiver, ConnectionHandler.goto,
          ConnectionHandler.removeUnmatched, unmatched]
      rw [gone]
      exact .drop
    · have before : h.receiver topic = h.topicStreams topic := by
        rw [ConnectionHandler.receiver, at_]
      exact still ((if_neg unmatched).trans before.symm) rfl
  | @join cause name names cursor lastMessage at_ matched unsubscribed found =>
    by_cases here : name = topic
    · subst here
      obtain ⟨data, known, answer⟩ := Option.map_eq_some_iff.mp found
      have free : h.receiver name = none := by
        rw [ConnectionHandler.receiver, at_]
        exact unsubscribed
      have receiver : (h.goto (.joined cause names name cursor lastMessage)).receiver name =
          some data.sender.subscribe := by
        cases answer
        simp [ConnectionHandler.receiver, ConnectionHandler.goto]
      rw [free, receiver]
      exact .step (fun d => .subscribe d) known known fun _ _ none => .subscribe none
    · apply still _ rfl
      simp [ConnectionHandler.receiver, ConnectionHandler.goto, at_, here]
  | readItem at_ stream known received =>
    have before : h.pc.Loose := by rw [at_]; trivial
    exact receiver_moved before (by trivial) stream rfl bus known (fun d => .receive d _)
      fun _ _ open_ => .receive open_ received
  | streamLagged at_ stream known received =>
    have before : h.pc.Loose := by rw [at_]; trivial
    exact receiver_moved before (by trivial) stream rfl bus known (fun d => .lag d)
      fun _ _ open_ => .lag open_ received
  | @sending name bytes pc at_ running =>
    have before : h.pc.Loose := by rw [at_]; trivial
    have kept : (h.goto (.publishing name bytes (bus.sendStep name bytes pc).2)).receiver topic =
        h.receiver topic := by
      refine receiver_kept before ?_ ?_ topic
      · trivial
      · rfl
    rw [kept]
    exact sending_effect bus topic name bytes pc _
  | attach at_ => exact still (receiver_attached at_ rfl rfl topic) rfl
  | retained at_ => exact still (receiver_attached at_ rfl rfl topic) rfl
  | retainedLost at_ => exact still (receiver_attached at_ rfl rfl topic) rfl
  | takeCommand at_ => exact loose (by rw [at_]; trivial) trivial rfl rfl
  | subscribe at_ => exact loose (by rw [at_]; trivial) trivial rfl rfl
  | listed at_ => exact loose (by rw [at_]; trivial) trivial rfl rfl
  | skip at_ => exact loose (by rw [at_]; trivial) trivial rfl rfl
  | finish at_ => exact loose (by rw [at_]; trivial) trivial rfl rfl
  | startPublish at_ => exact loose (by rw [at_]; trivial) trivial rfl rfl
  | publishFailed at_ => exact loose (by rw [at_]; trivial) trivial rfl rfl
  | published at_ => exact loose (by rw [at_]; trivial) trivial rfl rfl
  | readEvent at_ => exact loose (by rw [at_]; trivial) trivial rfl rfl
  | eventsLagged at_ => exact loose (by rw [at_]; trivial) trivial rfl rfl
  | forward at_ => exact loose (by rw [at_]; trivial) trivial rfl rfl

theorem adapterStep_receiver {h h' : ConnectionHandler V B} {a : Act V B} (step : AdapterStep h a h')
    (topic : Str) : h'.receiver topic = h.receiver topic := by
  cases step <;> rfl

theorem receivers_put (s : Broker ring V B) (bus : Bus ring B) (d : Nat) (h : ConnectionHandler V B)
    (topic : Str) :
    (s.put bus d h).receivers topic =
      Function.update (s.receivers topic) d (h.receiver topic) :=
  Function.comp_update (fun o : Option (ConnectionHandler V B) => o.bind fun h => h.receiver topic)
    s.connections d (some h)

/-- The channel of a topic was made when the topic was, and went from there by the steps of a
    channel that keeps every message. -/
def ChannelReached (s : Broker ring V B) (topic : Str) : Prop :=
  match s.bus.topics topic with
  | none => ∀ d, s.receivers topic d = none
  | some data => ∃ ops, Run Shared.LogStep Shared.new ops ⟨data.sender, s.receivers topic⟩

theorem reached_absent {s : Broker ring V B} {topic : Str} (absent : s.bus.topics topic = none) :
    ChannelReached s topic ↔ ∀ d, s.receivers topic d = none := by
  rw [ChannelReached, absent]

theorem reached_found {s : Broker ring V B} {topic : Str} {data : TopicData ring B}
    (found : s.bus.topics topic = some data) : ChannelReached s topic ↔
      ∃ ops, Run Shared.LogStep Shared.new ops ⟨data.sender, s.receivers topic⟩ := by
  rw [ChannelReached, found]

theorem effect_reached {s t : Broker ring V B} {topic : Str} {d : Nat} {r' : Option Cursor}
    (effect : ReceiverEffect s.bus topic (s.receivers topic d) t.bus r')
    (receivers : t.receivers topic = Function.update (s.receivers topic) d r')
    (reached : ChannelReached s topic) : ChannelReached t topic := by
  generalize before : s.receivers topic d = r at effect
  generalize moved : t.bus = after at effect
  cases effect with
  | same kept =>
    rw [← before, Function.update_eq_self] at receivers
    cases found : s.bus.topics topic with
    | none =>
      rw [found, Option.map_none, Option.map_eq_none_iff] at kept
      rw [reached_absent (moved ▸ kept), receivers]
      exact (reached_absent found).mp reached
    | some data =>
      rw [found, Option.map_some, Option.map_eq_some_iff] at kept
      obtain ⟨data', found', sender⟩ := kept
      rw [reached_found (moved ▸ found'), receivers, sender]
      exact (reached_found found).mp reached
  | create absent created =>
    rw [← before, Function.update_eq_self] at receivers
    rw [reached_found (moved ▸ created), receivers, funext ((reached_absent absent).mp reached)]
    exact ⟨[], Run.nil _⟩
  | drop =>
    cases found : s.bus.topics topic with
    | none =>
      have nobody := (reached_absent found).mp reached
      rw [reached_absent (moved ▸ found), receivers]
      intro e
      by_cases same : e = d
      · rw [same, Function.update_self]
      · rw [Function.update_of_ne same, nobody e]
    | some data =>
      obtain ⟨ops, run⟩ := (reached_found found).mp reached
      rw [reached_found (moved ▸ found), receivers]
      exact ⟨_, Run.snoc run .close⟩
  | step op found found' stepped =>
    obtain ⟨ops, run⟩ := (reached_found found).mp reached
    rw [reached_found (moved ▸ found'), receivers]
    exact ⟨_, Run.snoc run (stepped _ d before)⟩

theorem receivers_found {s : Broker ring V B} {d : Nat} {h : ConnectionHandler V B}
    (found : s.connections d = some h) (topic : Str) : s.receivers topic d = h.receiver topic := by
  rw [Broker.receivers, found]
  rfl

theorem brokerStep_reached {s t : Broker ring V B} {l : Label V B} {topic : Str}
    (reached : ChannelReached s topic) (step : BrokerStep encode s l t) :
    ChannelReached t topic := by
  cases step with
  | @connect d fresh =>
    refine effect_reached (d := d) ?_ (receivers_put _ _ _ _ _) reached
    rw [Broker.receivers, fresh]
    exact .same rfl
  | @adapter d h h' a found step =>
    refine effect_reached (d := d) ?_ (receivers_put _ _ _ _ _) reached
    rw [receivers_found found, adapterStep_receiver step]
    exact .same rfl
  | @handler d h h' bus a found step =>
    refine effect_reached (d := d) ?_ (receivers_put _ _ _ _ _) reached
    rw [receivers_found found]
    exact handlerStep_receiver step topic

/-- In every run the channel of every topic is one that the channel in use could not be told
    from by any receiver of the topic, whichever messages it refused. -/
theorem channel_in_use {ls : List (Label V B)} {s : Broker ring V B} (run : BrokerRun encode ls s)
    {topic : Str} {data : TopicData ring B} (found : s.bus.topics topic = some data) :
    ∃ ops refused used, Run Shared.LogStep Shared.new ops ⟨data.sender, s.receivers topic⟩ ∧
      Run Shared.HeardStep Shared.new ops used ∧
      Shared.Alike refused ⟨data.sender, s.receivers topic⟩ used := by
  have reached := run_invariant (fun s => ChannelReached s topic)
    ((reached_absent rfl).mpr fun _ => rfl)
    (fun _ _ _ reached step => brokerStep_reached reached step) run
  obtain ⟨ops, log⟩ := (reached_found found).mp reached
  obtain ⟨refused, used, ran, alike⟩ := Shared.alike_run log
  exact ⟨ops, refused, used, log, ran, alike⟩

end PubSub
