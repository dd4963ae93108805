import PubSub.Broker
import PubSub.Subscription

/- Seen from one connection and one topic the broker is a subscriber of the topic's
   messages: every step of the broker is one step of it. -/
namespace PubSub
open Channels LabelledRun
variable {ring : Ring} {V B : Type} {encode : Message V → Option B}

namespace ConnectionHandler

def streamPhase (h : ConnectionHandler V B) (topic : Str) : Subscription.Phase B :=
  match h.topicStreams topic with
  | none => .absent
  | some cursor => .live cursor

def phase (h : ConnectionHandler V B) (topic : Str) : Subscription.Phase B :=
  match h.pc with
  | .stopped => .stopped
  | .joined _ _ name receiver lastMessage =>
    if name = topic then .joined receiver lastMessage else h.streamPhase topic
  | .forward name number bytes =>
    if name = topic then .taken number bytes else h.streamPhase topic
  | _ => h.streamPhase topic

def Forwarding (h : ConnectionHandler V B) : Prop :=
  ∀ name number bytes, h.pc = .forward name number bytes → h.topicStreams name = some number

theorem insertStream_self (h : ConnectionHandler V B) (name : Str) (receiver : Cursor) :
    (h.insertStream name receiver).topicStreams name = some receiver :=
  Function.update_self _ _ _

theorem insertStream_ne (h : ConnectionHandler V B) {name other : Str} (differ : other ≠ name)
    (receiver : Cursor) :
    (h.insertStream name receiver).topicStreams other = h.topicStreams other :=
  Function.update_of_ne differ _ _

end ConnectionHandler

/-- What a step of a connection means to the subscriber of a topic. -/
def Act.mark (topic : Str) : Act V B → Subscription.Mark B
  | .join name => if name = topic then .join else .quiet
  | .retained name number bytes => if name = topic then .deliver number bytes else .quiet
  | .retainedLost name => if name = topic then .lost else .quiet
  | .streamLagged name => if name = topic then .lagged else .quiet
  | .forward name number bytes => if name = topic then .deliver number bytes else .quiet
  | .unsubscribe _ removed => if removed topic then .leave else .quiet
  | _ => .quiet

def mark (c : Nat) (topic : Str) (l : Label V B) : Subscription.Mark B :=
  if l.1 = c then l.2.mark topic else .quiet

namespace Broker

def phase (s : Broker ring V B) (c : Nat) (topic : Str) : Subscription.Phase B :=
  match s.connections c with
  | none => .absent
  | some h => h.phase topic

def view (s : Broker ring V B) (c : Nat) (topic : Str) : Subscription.Log B :=
  ⟨s.bus.sent topic, s.phase c topic⟩

end Broker

def enqueuedOn (c : Nat) (topic : Str) (ls : List (Label V B)) : List (Nat × B) :=
  ls.filterMap fun l => if l.1 = c then l.2.enqueued topic else none

theorem mark_delivered (c : Nat) (topic : Str) (l : Label V B) :
    (mark c topic l).delivered = if l.1 = c then l.2.enqueued topic else none := by
  obtain ⟨d, a⟩ := l
  unfold mark
  split
  · cases a <;> simp only [Act.mark, Act.enqueued] <;> (try split) <;> rfl
  · rfl

theorem enqueuedOn_eq (c : Nat) (topic : Str) (ls : List (Label V B)) :
    enqueuedOn c topic ls = Subscription.delivered (ls.map (mark c topic)) := by
  simp only [enqueuedOn, Subscription.delivered, List.filterMap_map, Function.comp_def,
    mark_delivered]

theorem forwarding_step {bus after : Bus ring B} {h h' : ConnectionHandler V B} {a : Act V B}
    (step : HandlerStep encode bus h a after h') : h'.Forwarding := by
  intro name number bytes at_
  cases step with
  | @readItem name' cursor next data bytes' enabled here stream topic received =>
    obtain ⟨rfl, rfl, rfl⟩ : name' = name ∧ next = number ∧ bytes' = bytes := by
      simpa [ConnectionHandler.goto] using at_
    exact h.insertStream_self name' next
  | _ => simp [ConnectionHandler.goto, ConnectionHandler.stop] at at_

theorem run_forwarding {ls : List (Label V B)} {s : Broker ring V B}
    (run : BrokerRun encode ls s) {c : Nat} {h : ConnectionHandler V B}
    (found : s.connections c = some h) : h.Forwarding := by
  apply run_connection (fun _ _ h => h.Forwarding) _ _ _ _ run found
  · intro ls s before name number bytes at_
    cases at_
  · intro ls s h a h' before here ih step
    cases step <;> exact ih
  · intro ls s h a bus h' before here ih step
    exact forwarding_step step
  · intro ls s t h l before here other ih step
    exact ih

theorem view_quiet {s t : Broker ring V B} {l : Label V B} (step : BrokerStep encode s l t)
    (topic : Str) (φ : Subscription.Phase B) :
    Subscription.Step ⟨s.bus.sent topic, φ⟩ .quiet ⟨t.bus.sent topic, φ⟩ := by
  rcases brokerStep_sent step topic with same | ⟨_, message, _, _, _, appended⟩
  · rw [same]
    exact .same _
  · rw [appended]
    exact .append _ _ _

theorem adapterStep_phase {h h' : ConnectionHandler V B} {a : Act V B} (step : AdapterStep h a h')
    (topic : Str) : h'.phase topic = h.phase topic ∧ a.mark topic = .quiet := by
  cases step <;> exact ⟨rfl, rfl⟩

def HandlerPc.Holds (topic : Str) : HandlerPc V B → Prop
  | .stopped => True
  | .joined _ _ name _ _ => name = topic
  | .forward name _ _ => name = topic
  | _ => False

theorem phase_free {h : ConnectionHandler V B} {topic : Str} (free : ¬ h.pc.Holds topic) :
    h.phase topic = h.streamPhase topic := by
  unfold ConnectionHandler.phase
  unfold HandlerPc.Holds at free
  split <;> simp_all

theorem phase_joined {h : ConnectionHandler V B} {cause : Cause} {names : List Str} {name : Str}
    {receiver : Cursor} {lastMessage : Option B}
    (at_ : h.pc = .joined cause names name receiver lastMessage) :
    h.phase name = .joined receiver lastMessage := by
  simp [ConnectionHandler.phase, at_]

theorem phase_forward {h : ConnectionHandler V B} {name : Str} {number : Nat} {bytes : B}
    (at_ : h.pc = .forward name number bytes) : h.phase name = .taken number bytes := by
  simp [ConnectionHandler.phase, at_]

theorem phase_live {h : ConnectionHandler V B} {topic : Str} {cursor : Cursor}
    (free : ¬ h.pc.Holds topic) (stream : h.topicStreams topic = some cursor) :
    h.phase topic = .live cursor := by
  rw [phase_free free, ConnectionHandler.streamPhase, stream]

theorem phase_goto_live {h : ConnectionHandler V B} {pc : HandlerPc V B} {topic : Str}
    {cursor : Cursor} (free : ¬ pc.Holds topic) (stream : h.topicStreams topic = some cursor) :
    (h.goto pc).phase topic = .live cursor :=
  phase_live free stream

theorem phase_absent {h : ConnectionHandler V B} {topic : Str} (free : ¬ h.pc.Holds topic)
    (unsubscribed : h.topicStreams topic = none) : h.phase topic = .absent := by
  rw [phase_free free, ConnectionHandler.streamPhase, unsubscribed]

theorem view_same {h h' : ConnectionHandler V B} {topic : Str} (log : List B)
    (before : ¬ h.pc.Holds topic) (after : ¬ h'.pc.Holds topic)
    (streams : h'.topicStreams topic = h.topicStreams topic) :
    Subscription.Step ⟨log, h.phase topic⟩ .quiet ⟨log, h'.phase topic⟩ := by
  have same : h'.phase topic = h.phase topic := by
    rw [phase_free before, phase_free after]
    unfold ConnectionHandler.streamPhase
    rw [streams]
  rw [same]
  exact .same _

theorem view_insert {h h' : ConnectionHandler V B} {cause : Cause} {names : List Str} {name : Str}
    {receiver : Cursor} {lastMessage : Option B} {m : Subscription.Mark B} (log : List B)
    (at_ : h.pc = .joined cause names name receiver lastMessage)
    (next : h'.pc = .visit cause names)
    (streams : h'.topicStreams = Function.update h.topicStreams name (some receiver))
    (inserted : Subscription.Step ⟨log, .joined receiver lastMessage⟩ m ⟨log, .live receiver⟩)
    (topic : Str) :
    Subscription.Step ⟨log, h.phase topic⟩ (if name = topic then m else .quiet)
      ⟨log, h'.phase topic⟩ := by
  by_cases here : name = topic
  · subst here
    rw [phase_joined at_, phase_live (by simp [HandlerPc.Holds, next])
      (by rw [streams, Function.update_self]), if_pos rfl]
    exact inserted
  · rw [if_neg here]
    apply view_same
    · simpa [HandlerPc.Holds, at_] using here
    · simp [HandlerPc.Holds, next]
    · rw [streams, Function.update_of_ne (Ne.symm here)]

theorem sent_of_topic {bus : Bus ring B} {name : Str} {data : TopicData ring B}
    (found : bus.topics name = some data) : bus.sent name = data.sender.sent := by
  simp [Bus.sent, found]

theorem subscribeToTopic_spec {bus : Bus ring B} (retains : bus.Retains) {name : Str}
    {receiver : Cursor} {lastMessage : Option B}
    (found : bus.subscribeToTopic name = some (receiver, lastMessage)) :
    receiver = (bus.sent name).length ∧ lastMessage = (bus.sent name).getLast? := by
  unfold Bus.subscribeToTopic at found
  rw [Option.map_eq_some_iff] at found
  obtain ⟨data, topic, same⟩ := found
  rw [Prod.mk.injEq] at same
  rw [sent_of_topic topic, ← same.1, ← same.2]
  exact ⟨rfl, retains name data topic⟩

theorem view_unsubscribe {h h' : ConnectionHandler V B} (log : List B) {topic : Str}
    {gone : Bool} (before : ¬ h.pc.Holds topic) (after : ¬ h'.pc.Holds topic)
    (streaming : gone = true → (h.topicStreams topic).isSome)
    (streams : h'.topicStreams topic = if gone then none else h.topicStreams topic) :
    Subscription.Step ⟨log, h.phase topic⟩ (if gone then .leave else .quiet)
      ⟨log, h'.phase topic⟩ := by
  cases gone with
  | false => exact view_same log before after streams
  | true =>
    obtain ⟨cursor, stream⟩ := Option.isSome_iff_exists.mp (streaming rfl)
    rw [phase_live before stream, phase_absent after streams]
    exact .leave _ _

theorem handlerStep_view {bus after : Bus ring B} {h h' : ConnectionHandler V B} {a : Act V B}
    (retains : bus.Retains) (holding : h.Forwarding) (topic : Str)
    (step : HandlerStep encode bus h a after h') (same : after = bus) :
    Subscription.Step ⟨bus.sent topic, h.phase topic⟩ (a.mark topic)
      ⟨bus.sent topic, h'.phase topic⟩ := by
  cases step with
  | takeCommand at_ queue => exact view_same _ (by simp [HandlerPc.Holds, at_]) id rfl
  | disconnect at_ queue closed => exact .stop _ _
  | subscribe at_ => exact view_same _ (by simp [HandlerPc.Holds, at_]) id rfl
  | listed at_ lists => exact view_same _ (by simp [HandlerPc.Holds, at_]) id rfl
  | unsubscribe at_ removed =>
    apply view_unsubscribe
    · simp [HandlerPc.Holds, at_]
    · exact id
    · intro gone
      exact (Bool.and_eq_true_iff.mp gone).1
    · rfl
  | panicked at_ failed => exact .stop _ _
  | skip at_ why => exact view_same _ (by simp [HandlerPc.Holds, at_]) id rfl
  | @join cause name names receiver lastMessage at_ matched unsubscribed found =>
    obtain ⟨rfl, rfl⟩ := subscribeToTopic_spec retains found
    have free : ¬ h.pc.Holds topic := by simp [HandlerPc.Holds, at_]
    by_cases here : name = topic
    · subst here
      rw [phase_absent free unsubscribed, phase_joined rfl, Act.mark, if_pos rfl]
      exact .join _
    · rw [Act.mark, if_neg here]
      exact view_same _ free here rfl
  | attach at_ => simpa [Act.mark] using view_insert _ at_ rfl rfl (.attach _ _) topic
  | retained at_ room => exact view_insert _ at_ rfl rfl (.retained _ _ _) topic
  | retainedLost at_ full => exact view_insert _ at_ rfl rfl (.lost _ _ _) topic
  | finish at_ => exact view_same _ (by simp [HandlerPc.Holds, at_]) id rfl
  | startPublish at_ encoded => exact view_same _ (by simp [HandlerPc.Holds, at_]) id rfl
  | publishFailed at_ failed => exact view_same _ (by simp [HandlerPc.Holds, at_]) id rfl
  | sending at_ running => exact view_same _ (by simp [HandlerPc.Holds, at_]) id rfl
  | published at_ => exact view_same _ (by simp [HandlerPc.Holds, at_]) id rfl
  | readEvent at_ received => exact view_same _ (by simp [HandlerPc.Holds, at_]) id rfl
  | eventsLagged at_ received => exact view_same _ (by simp [HandlerPc.Holds, at_]) id rfl
  | @readItem name cursor next data bytes enabled at_ stream found received =>
    have free : ¬ h.pc.Holds topic := by simp [HandlerPc.Holds, at_]
    by_cases here : name = topic
    · subst here
      obtain ⟨item, rfl⟩ := Broadcast.recv_item received
      rw [phase_live free stream, phase_forward rfl]
      exact .read (by rw [sent_of_topic found]; exact item)
    · exact view_same _ free here (h.insertStream_ne (Ne.symm here) next)
  | @streamLagged name cursor next data enabled at_ stream found received =>
    have free : ¬ h.pc.Holds topic := by simp [HandlerPc.Holds, at_]
    by_cases here : name = topic
    · subst here
      obtain ⟨overtaken, rfl⟩ := Broadcast.recv_lagged received
      have nonempty : 0 < data.sender.sent.length := Nat.zero_lt_of_lt overtaken
      rw [phase_live free stream, phase_goto_live id (h.insertStream_self name _), Act.mark, if_pos rfl,
        sent_of_topic found]
      exact .lag (Nat.le_sub_of_add_le (Nat.le_of_lt overtaken))
        (Nat.sub_lt nonempty ring.positive)
    · rw [Act.mark, if_neg here]
      exact view_same _ free id (h.insertStream_ne (Ne.symm here) next)
  | @forward name number bytes at_ room =>
    by_cases here : name = topic
    · subst here
      have stream : (h.enqueue bytes).topicStreams name = some number :=
        holding name number bytes at_
      rw [phase_forward at_, phase_goto_live id stream, Act.mark, if_pos rfl]
      exact .forward _ _ _
    · rw [Act.mark, if_neg here]
      exact view_same _ (by simpa [HandlerPc.Holds, at_] using here) id rfl
  | forwardFailed at_ closed => exact .stop _ _

def Broker.Reachable (encode : Message V → Option B) (s : Broker ring V B) : Prop :=
  ∃ ls, BrokerRun encode ls s

/-- Every step of the broker is a step of the subscriber of each topic at each connection. -/
theorem brokerStep_view {s t : Broker ring V B} {l : Label V B} (reachable : s.Reachable encode)
    (step : BrokerStep encode s l t) (c : Nat) (topic : Str) :
    Subscription.Step (s.view c topic) (mark c topic l) (t.view c topic) := by
  obtain ⟨ls, run⟩ := reachable
  by_cases here : l.1 = c
  · subst here
    cases step with
    | @connect c fresh =>
      have absent : (ConnectionHandler.new s.bus : ConnectionHandler V B).phase topic = .absent := rfl
      simp only [Broker.view, Broker.phase, fresh, Broker.put_self, Broker.put_bus, absent, mark,
        ↓reduceIte, Act.mark]
      exact .same _
    | @adapter c h h' a found step =>
      obtain ⟨phase, quiet⟩ := adapterStep_phase step topic
      simp only [Broker.view, Broker.phase, found, Broker.put_self, Broker.put_bus, phase, mark,
        quiet, ↓reduceIte]
      exact .same _
    | @handler c h h' bus a found step =>
      rcases handlerStep_bus step with same | ⟨name, bytes, pc, next, rfl, at_, rfl, _⟩
      · have stepped := handlerStep_view (run_retains run) (run_forwarding run found) topic step same
        simp only [Broker.view, Broker.phase, found, Broker.put_self, Broker.put_bus, mark,
          ↓reduceIte, same]
        exact stepped
      · have moved := view_quiet (.handler found step) topic (h.phase topic)
        simp only [Broker.view, Broker.phase, found, Broker.put_self, Broker.put_bus, mark,
          ↓reduceIte, Act.mark]
        have phase : (h.goto (.publishing name bytes next)).phase topic = h.phase topic := by
          rw [phase_free id, phase_free (by simp [HandlerPc.Holds, at_])]
          rfl
        rw [phase]
        exact moved
  · have phase : t.phase c topic = s.phase c topic := by
      unfold Broker.phase
      cases step with
      | connect fresh => rw [Broker.put_ne _ _ _ (Ne.symm here)]
      | adapter found step => rw [Broker.put_ne _ _ _ (Ne.symm here)]
      | handler found step => rw [Broker.put_ne _ _ _ (Ne.symm here)]
    simp only [Broker.view, mark, here, ↓reduceIte, phase]
    exact view_quiet step topic _

theorem run_view {s t : Broker ring V B} {ls : List (Label V B)} (reachable : s.Reachable encode)
    (run : Run (BrokerStep encode) s ls t) (c : Nat) (topic : Str) :
    Run Subscription.Step (s.view c topic) (ls.map (mark c topic)) (t.view c topic) := by
  apply run_map (fun s => s.view c topic) (mark c topic) (Broker.Reachable encode)
    _ _ reachable run
  · intro s l t ⟨ls, before⟩ step
    exact ⟨ls ++ [l], Run.snoc before step⟩
  · intro s l t reachable step
    exact brokerStep_view reachable step c topic

end PubSub
