import PubSub.DeliveryView
import PubSub.SoloRuns

/- What reaches a client of one topic: the retained message and the live ones join
   without a gap, and nothing is ever delivered twice or out of order. -/
namespace PubSub
open Channels LabelledRun
variable {ring : Ring} {V B : Type} {encode : Message V → Option B}

def Broker.Drained (s : Broker ring V B) (c : Nat) (topic : Str) : Prop :=
  ∃ h enabled cursor data, s.connections c = some h ∧ h.pc = .select enabled ∧
    h.topicStreams topic = some cursor ∧ s.bus.topics topic = some data ∧
    data.sender.recv cursor = .empty

theorem view_consistent {s : Broker ring V B} (reachable : s.Reachable encode) (c : Nat)
    (topic : Str) : Subscription.Consistent (s.view c topic) := by
  obtain ⟨ls, run⟩ := reachable
  exact Subscription.run_consistent (s := Broker.new.view c topic) trivial
    (run_view ⟨[], Run.nil _⟩ run c topic)

theorem drained_phase {s : Broker ring V B} (reachable : s.Reachable encode) {c : Nat}
    {topic : Str} (drained : s.Drained c topic) :
    s.phase c topic = .live (s.bus.sent topic).length := by
  obtain ⟨h, enabled, cursor, data, found, at_, stream, known, nothing⟩ := drained
  have live : s.phase c topic = .live cursor := by
    unfold Broker.phase
    simp only [found]
    exact phase_live (by simp [HandlerPc.Holds, at_]) stream
  have bound : cursor ≤ (s.bus.sent topic).length := by
    have good := view_consistent reachable c topic
    rw [Broker.view, live] at good
    exact good
  have ended := Broadcast.recv_empty nothing
  rw [← sent_of_topic known] at ended
  rw [live, Nat.le_antisymm bound ended]

theorem mark_leaves {c d : Nat} {topic : Str} {a : Act V B} (left : mark c topic (d, a) = .leave) :
    d = c ∧ a.Removes topic := by
  unfold mark at left
  split at left
  · refine ⟨‹_›, ?_⟩
    cases a <;> simp only [Act.mark] at left <;> (try split at left) <;>
      simp_all [Act.Removes]
  · cases left

theorem mark_lagged {c d : Nat} {topic : Str} {a : Act V B}
    (lagged : mark c topic (d, a) = .lagged) : d = c ∧ a = .streamLagged topic := by
  unfold mark at lagged
  split at lagged
  · refine ⟨‹_›, ?_⟩
    cases a <;> simp only [Act.mark] at lagged <;> (try split at lagged) <;> simp_all
  · cases lagged

theorem mark_lost {c d : Nat} {topic : Str} {a : Act V B} (lost : mark c topic (d, a) = .lost) :
    d = c ∧ a = .retainedLost topic := by
  unfold mark at lost
  split at lost
  · refine ⟨‹_›, ?_⟩
    cases a <;> simp only [Act.mark] at lost <;> (try split at lost) <;> simp_all
  · cases lost

theorem mark_smooth {c : Nat} {topic : Str} {ls : List (Label V B)}
    (kept : ∀ a, (c, a) ∈ ls → ¬ a.Removes topic)
    (onTime : (c, Act.streamLagged topic) ∉ ls) (room : (c, Act.retainedLost topic) ∉ ls) :
    ∀ m ∈ ls.map (mark c topic), m ≠ .leave ∧ m ≠ .lagged ∧ m ≠ .lost := by
  intro m mem
  obtain ⟨⟨d, a⟩, here, rfl⟩ := List.mem_map.mp mem
  refine ⟨?_, ?_, ?_⟩
  · intro left
    obtain ⟨rfl, removes⟩ := mark_leaves left
    exact kept a here removes
  · intro lagged
    obtain ⟨rfl, rfl⟩ := mark_lagged lagged
    exact onTime here
  · intro lost
    obtain ⟨rfl, rfl⟩ := mark_lost lost
    exact room here

/-- A connection that joins a topic after `n` messages is sent message `n` and all later
    ones, as long as its stream is kept, on time, and the retained message found room. -/
theorem retained_joins_live {before stay : List (Label V B)} {s joined t : Broker ring V B}
    {c : Nat} {topic : Str} (reached : BrokerRun encode before s)
    (join : BrokerStep encode s (c, .join topic) joined)
    (run : Run (BrokerStep encode) joined stay t)
    (kept : ∀ a, (c, a) ∈ stay → ¬ a.Removes topic)
    (onTime : (c, Act.streamLagged topic) ∉ stay) (room : (c, Act.retainedLost topic) ∉ stay) :
    enqueuedOn c topic stay <+:
        (Subscription.numbered (t.bus.sent topic)).drop ((s.bus.sent topic).length - 1) ∧
      (t.Drained c topic → enqueuedOn c topic stay =
        (Subscription.numbered (t.bus.sent topic)).drop ((s.bus.sent topic).length - 1)) := by
  have viewed : Subscription.Step (s.view c topic) .join (joined.view c topic) := by
    simpa [mark, Act.mark] using brokerStep_view ⟨before, reached⟩ join c topic
  have reachable : joined.Reachable encode := ⟨_, Run.snoc reached join⟩
  have start : joined.view c topic = ⟨s.bus.sent topic,
      .joined (s.bus.sent topic).length (s.bus.sent topic).getLast?⟩ :=
    Subscription.step_join viewed
  have abstract := run_view reachable run c topic
  rw [start] at abstract
  have exact := Subscription.stay_exact abstract (mark_smooth kept onTime room)
  rw [← enqueuedOn_eq] at exact
  refine ⟨Subscription.exact_begins exact, ?_⟩
  intro drained
  apply Subscription.exact_full
  rwa [Broker.view, drained_phase ⟨_, run_append (Run.snoc reached join) run⟩ drained] at exact

/-- MessagePack for a message with a short topic and a small number. -/
def packShort (message : Message UInt8) : Option (List UInt8) :=
  let topic := asBytes message.topic
  if topic.length < 32 ∧ message.value < 128 then
    some (0x92 :: UInt8.ofNat (0xA0 + topic.length) :: (topic ++ [message.value]))
  else none

def wideRing : Ring := ⟨131072, by decide⟩

def firstMessage : Message UInt8 := ⟨['a', 'b'], 1⟩
def firstBytes : List UInt8 := [0x92, 0xA2, 97, 98, 1]
def laterMessage : Message UInt8 := ⟨['a', 'b'], 2⟩
def laterBytes : List UInt8 := [0x92, 0xA2, 97, 98, 2]

theorem firstMessage_packed : packShort firstMessage = some firstBytes := by decide
theorem laterMessage_packed : packShort laterMessage = some laterBytes := by decide

theorem ab_matches : GlobMatch ['a', 'b'] (asBytes firstMessage.topic) :=
  .literal ⟨by decide, by decide⟩ rfl (.literal ⟨by decide, by decide⟩ rfl .done)

theorem retained_joins_live_twice : ∃ s joined t : Broker wideRing UInt8 (List UInt8),
    BrokerRun packShort ((0, .connect) ::
      (subscribingActs firstMessage firstBytes ['a', 'b']).map (Prod.mk 0)) s ∧
    BrokerStep packShort s (0, .join ['a', 'b']) joined ∧
    Run (BrokerStep packShort) joined
      ((receivingActs laterMessage firstBytes laterBytes).map (Prod.mk 0)) t ∧
    enqueuedOn 0 ['a', 'b'] ((receivingActs laterMessage firstBytes laterBytes).map (Prod.mk 0)) <+:
      (Subscription.numbered (t.bus.sent ['a', 'b'])).drop ((s.bus.sent ['a', 'b']).length - 1) := by
  have before := lone_run (subscribing_run wideRing firstMessage_packed ['a', 'b'])
  have after : SoloRun packShort _ _ ([.join ['a', 'b']] ++ _) _ _ :=
    receiving_run wideRing firstBytes laterMessage_packed rfl ab_matches
  obtain ⟨p, join, stay⟩ := run_split after
  have joined := solo_step Broker.new 0 (run_one join)
  have stayed := solo_run (Broker.new.put_self p.1 0 p.2) stay
  refine ⟨_, _, _, before, joined, stayed, ?_⟩
  refine (retained_joins_live before joined stayed ?_ ?_ ?_).1
  · simp [laterActs, publishActs, Act.Removes]
  · simp [laterActs, publishActs]
  · simp [laterActs, publishActs]

/-- In the order of publication the deliveries of one topic to one client never step back,
    and while the stream is kept each is later than the one before. -/
theorem deliveries_in_order {ls : List (Label V B)} {s : Broker ring V B}
    (run : BrokerRun encode ls s) (c : Nat) (topic : Str) :
    (∀ number bytes, (number, bytes) ∈ enqueuedOn c topic ls →
        0 < number ∧ (s.bus.sent topic)[number - 1]? = some bytes) ∧
      ((enqueuedOn c topic ls).map Prod.fst).Pairwise (· ≤ ·) ∧
      ∀ first between last, ls = first ++ between ++ last →
        (∀ a, (c, a) ∈ between → ¬ a.Removes topic) →
        ((enqueuedOn c topic between).map Prod.fst).Pairwise (· < ·) := by
  have start : Subscription.Consistent ((Broker.new : Broker ring V B).view c topic) := trivial
  have abstract := run_view ⟨[], Run.nil _⟩ run c topic
  refine ⟨?_, ?_, ?_⟩
  · intro number bytes mem
    rw [enqueuedOn_eq] at mem
    exact Subscription.delivered_entries start abstract mem
  · rw [enqueuedOn_eq]
    exact (Subscription.numbers_monotone start abstract).1
  · rintro first between last rfl kept
    obtain ⟨m, front, _⟩ := run_split run
    obtain ⟨k, opening, stay⟩ := run_split front
    rw [enqueuedOn_eq]
    refine (Subscription.numbers_strict (run_view ⟨first, opening⟩ stay c topic) ?_).1
    intro mk mem left
    obtain ⟨⟨d, a⟩, here, rfl⟩ := List.mem_map.mp mem
    obtain ⟨rfl, removes⟩ := mark_leaves left
    exact kept a here removes

theorem two_deliveries_in_order : ∃ s : Broker wideRing UInt8 (List UInt8),
    BrokerRun packShort ((0, .connect) ::
      (subscribingActs firstMessage firstBytes ['a', 'b'] ++ .join ['a', 'b'] ::
        receivingActs laterMessage firstBytes laterBytes).map (Prod.mk 0)) s ∧
    ((enqueuedOn 0 ['a', 'b'] ((0, .connect) ::
      (subscribingActs firstMessage firstBytes ['a', 'b'] ++ .join ['a', 'b'] ::
        receivingActs laterMessage firstBytes laterBytes).map (Prod.mk 0))).map
          Prod.fst).Pairwise (· ≤ ·) := by
  have run := lone_run (run_append (subscribing_run wideRing firstMessage_packed ['a', 'b'])
    (receiving_run wideRing firstBytes laterMessage_packed rfl ab_matches))
  exact ⟨_, run, (deliveries_in_order run 0 ['a', 'b']).2.1⟩

end PubSub
