import PubSub.Delivery

/- What a client is sent after its receiver for a topic was overtaken: it goes on with the
   oldest message the ring still holds, and not with the most recent one. -/

/- The subscriber of a log, after it was moved. -/
namespace Subscription
variable {B : Type}

def Awaits (k : Nat) (s : Log B) : Prop :=
  match s.phase with
  | .live n => n = k
  | .taken n entry => n = k + 1 ∧ s.entries[k]? = some entry
  | .stopped => True
  | _ => False

def Misses (k : Nat) (s : Log B) : Prop :=
  k ≤ s.entries.length ∧
    match s.phase with
    | .joined n _ => k ≤ n
    | .live n => n + 1 ≠ k
    | .taken n _ => n ≠ k
    | .absent => True
    | .stopped => True

def Withholds (s : Log B) (m : Mark B) : Prop :=
  ∀ n entry, s.phase = .taken n entry → m.delivered = none

theorem awaits_step {s t : Log B} {m : Mark B} {k : Nat} (awaits : Awaits k s)
    (step : Step s m t) (withheld : Withholds s m) (stays : m ≠ .leave) (onTime : m ≠ .lagged) :
    Awaits k t := by
  cases step with
  | same => exact awaits
  | append log φ entry =>
    cases φ with
    | taken n e => exact ⟨awaits.1, entry_kept (List.prefix_append _ _) awaits.2⟩
    | _ => exact awaits
  | join log => exact awaits.elim
  | attach log n => exact awaits.elim
  | retained log n entry => exact awaits.elim
  | lost log n entry => exact awaits.elim
  | read found =>
    obtain rfl : _ = k := awaits
    exact ⟨rfl, found⟩
  | forward log n entry => cases withheld n entry rfl
  | lag ahead left => exact absurd rfl onTime
  | leave log n => exact absurd rfl stays
  | stop log φ => trivial

theorem misses_step {s t : Log B} {m : Mark B} {k : Nat} (misses : Misses k s)
    (step : Step s m t) (withheld : Withholds s m) (onTime : m ≠ .lagged) : Misses k t := by
  obtain ⟨sent, past⟩ := misses
  have still : k ≤ t.entries.length := Nat.le_trans sent (step_grows step).length_le
  refine ⟨still, ?_⟩
  cases step with
  | same => exact past
  | append log φ entry => exact past
  | join log => exact sent
  | attach log n => exact Nat.ne_of_gt (Nat.lt_succ_of_le past)
  | retained log n entry => exact Nat.ne_of_gt (Nat.lt_succ_of_le past)
  | lost log n entry => exact Nat.ne_of_gt (Nat.lt_succ_of_le past)
  | read found => exact past
  | forward log n entry => cases withheld n entry rfl
  | lag ahead left => exact absurd rfl onTime
  | leave log n => trivial
  | stop log φ => trivial

end Subscription

namespace PubSub
open Channels LabelledRun
variable {ring : Ring} {V B : Type} {encode : Message V → Option B}

def Forwards (c : Nat) (topic : Str) (l : Label V B) : Prop :=
  ∃ number bytes, l = (c, .forward topic number bytes)

/-- After the history `first`, which leads to `s`, the receiver of `c` for the topic reports
    that it was overtaken; then come the steps `between` and the next message of the topic
    that the handler forwards. -/
structure Resumption (encode : Message V → Option B) (c : Nat) (topic : Str)
    (first : List (Label V B)) (s : Broker ring V B) (between : List (Label V B)) (number : Nat)
    (bytes : B) : Prop where
  reached : BrokerRun encode first s
  resumed : ∃ lagged t after, BrokerStep encode s (c, .streamLagged topic) lagged ∧
    Run (BrokerStep encode) lagged between t ∧
    BrokerStep encode t (c, .forward topic number bytes) after
  next : ∀ l ∈ between, ¬ Forwards c topic l

/-- In this history whatever was forwarded first after a lag was the message that had been
    sent last when the lag was reported. -/
def ResumesAtPresent (ring : Ring) (encode : Message V → Option B) (c : Nat) (topic : Str)
    (ls : List (Label V B)) : Prop :=
  ∀ (first : List (Label V B)) (s : Broker ring V B) (between : List (Label V B)) (number : Nat)
    (bytes : B), Resumption encode c topic first s between number bytes →
    first ++ (c, .streamLagged topic) :: (between ++ [(c, .forward topic number bytes)]) <+: ls →
    number = (s.bus.sent topic).length

def Resumes (c : Nat) (topic : Str) (ls : List (Label V B)) : Prop :=
  ∃ first between number bytes, first ++ (c, .streamLagged topic) ::
    (between ++ [(c, .forward topic number bytes)]) <+: ls

theorem lagged_phase {s t : Broker ring V B} {c : Nat} {topic : Str}
    (step : BrokerStep encode s (c, .streamLagged topic) t) :
    ring.size < (s.bus.sent topic).length ∧
      t.view c topic = ⟨s.bus.sent topic, .live ((s.bus.sent topic).length - ring.size)⟩ := by
  cases step with
  | adapter found step => cases step
  | @handler _ h _ _ _ found step =>
    cases step with
    | @streamLagged _ cursor next data enabled at_ stream known received =>
      obtain ⟨overtaken, rfl⟩ := Broadcast.recv_lagged received
      rw [sent_of_topic known]
      refine ⟨Nat.lt_of_le_of_lt (Nat.le_add_left _ _) overtaken, ?_⟩
      simp only [Broker.view, Broker.phase, Broker.put_self, Broker.put_bus, sent_of_topic known]
      rw [phase_goto_live id (h.insertStream_self topic _)]

theorem forward_phase {s t : Broker ring V B} {c : Nat} {topic : Str} {number : Nat} {bytes : B}
    (step : BrokerStep encode s (c, .forward topic number bytes) t) :
    s.phase c topic = .taken number bytes := by
  cases step with
  | adapter found step => cases step
  | handler found step =>
    cases step with
    | forward at_ room =>
      rw [Broker.phase, found]
      exact phase_forward at_

theorem retained_phase {s t : Broker ring V B} {c : Nat} {topic : Str} {number : Nat} {bytes : B}
    (step : BrokerStep encode s (c, .retained topic number bytes) t) :
    s.phase c topic = .joined number (some bytes) := by
  cases step with
  | adapter found step => cases step
  | handler found step =>
    cases step with
    | retained at_ room =>
      rw [Broker.phase, found]
      exact phase_joined at_

theorem step_withholds {s t : Broker ring V B} {l : Label V B} {c : Nat} {topic : Str}
    (step : BrokerStep encode s l t) (silent : ¬ Forwards c topic l) :
    Subscription.Withholds (s.view c topic) (mark c topic l) := by
  intro n entry taken
  obtain ⟨d, a⟩ := l
  rw [mark_delivered]
  by_cases here : d = c
  · subst here
    rw [if_pos rfl]
    cases a with
    | retained name number bytes =>
      by_cases same : name = topic
      · subst same
        have joined := retained_phase step
        rw [Broker.view, joined] at taken
        cases taken
      · exact if_neg same
    | forward name number bytes =>
      by_cases same : name = topic
      · subst same
        exact absurd ⟨number, bytes, rfl⟩ silent
      · exact if_neg same
    | _ => rfl
  · exact if_neg here

theorem mark_onTime {c : Nat} {topic : Str} {l : Label V B}
    (onTime : l ≠ (c, .streamLagged topic)) : mark c topic l ≠ .lagged := by
  intro lagged
  obtain ⟨rfl, same⟩ := mark_lagged (d := l.1) (a := l.2) lagged
  exact onTime (Prod.ext rfl same)

theorem mark_stays {c : Nat} {topic : Str} {l : Label V B}
    (stays : ∀ a, l = (c, a) → ¬ a.Removes topic) : mark c topic l ≠ .leave := by
  intro left
  obtain ⟨rfl, removes⟩ := mark_leaves (d := l.1) (a := l.2) left
  exact stays l.2 rfl removes

theorem between_keeps {lagged t : Broker ring V B} {between : List (Label V B)} {c : Nat}
    {topic : Str} (holds : Subscription.Log B → Prop) (reachable : lagged.Reachable encode)
    (run : Run (BrokerStep encode) lagged between t) (next : ∀ l ∈ between, ¬ Forwards c topic l)
    (kept : ∀ l ∈ between, ∀ a b, holds a → Subscription.Step a (mark c topic l) b →
      Subscription.Withholds a (mark c topic l) → holds b)
    (start : holds (lagged.view c topic)) : holds (t.view c topic) := by
  have preserved : ∀ (a : Broker ring V B) l (b : Broker ring V B),
      (a.Reachable encode ∧ holds (a.view c topic)) → l ∈ between → BrokerStep encode a l b →
      (b.Reachable encode ∧ holds (b.view c topic)) ∧ BrokerStep encode a l b := by
    intro a l b here member step
    obtain ⟨⟨ls, ran⟩, good⟩ := here
    have viewed := brokerStep_view ⟨ls, ran⟩ step c topic
    have withheld := step_withholds step (next l member)
    exact ⟨⟨⟨_, Run.snoc ran step⟩, kept l member _ _ good viewed withheld⟩, step⟩
  exact (run_restrict _ ⟨reachable, start⟩ preserved run).1.2

section Resumption
variable {c : Nat} {topic : Str} {first between : List (Label V B)} {s : Broker ring V B}
  {number : Nat} {bytes : B}

theorem resumes_at_oldest (episode : Resumption encode c topic first s between number bytes)
    (onTime : (c, Act.streamLagged topic) ∉ between)
    (stays : ∀ a, (c, a) ∈ between → ¬ a.Removes topic) :
    number + ring.size = (s.bus.sent topic).length + 1 ∧
      (s.bus.sent topic)[number - 1]? = some bytes := by
  obtain ⟨reached, ⟨lagged, t, after, lag, run, forward⟩, next⟩ := episode
  obtain ⟨overtaken, start⟩ := lagged_phase lag
  generalize oldest : (s.bus.sent topic).length - ring.size = k at start
  have awaits := between_keeps
    (fun a => s.bus.sent topic <+: a.entries ∧ Subscription.Awaits k a)
    ⟨_, Run.snoc reached lag⟩ run next
    (fun l member a b here step withheld =>
      ⟨here.1.trans (Subscription.step_grows step), Subscription.awaits_step here.2 step withheld
        (mark_stays fun a same => stays a (same ▸ member))
        (mark_onTime fun same => onTime (same ▸ member))⟩)
    (by rw [start]; exact ⟨List.prefix_refl _, rfl⟩)
  obtain ⟨grown, there⟩ := awaits
  rw [Broker.view, forward_phase forward] at there
  obtain ⟨rfl, found⟩ := there
  have positive := ring.positive
  obtain ⟨entry, here⟩ : ∃ entry, (s.bus.sent topic)[k]? = some entry :=
    ⟨_, List.getElem?_eq_getElem (by omega)⟩
  have same := (Subscription.entry_kept grown here).symm.trans found
  refine ⟨by omega, ?_⟩
  rw [Nat.add_sub_cancel, here, same]

theorem resumes_elsewhere (episode : Resumption encode c topic first s between number bytes)
    (onTime : (c, Act.streamLagged topic) ∉ between) : number ≠ (s.bus.sent topic).length := by
  obtain ⟨reached, ⟨lagged, t, after, lag, run, forward⟩, next⟩ := episode
  obtain ⟨overtaken, start⟩ := lagged_phase lag
  have more : 1 < ring.size := Nat.lt_of_lt_of_le (by decide) ring.holds
  have misses := between_keeps (Subscription.Misses (s.bus.sent topic).length)
    ⟨_, Run.snoc reached lag⟩ run next
    (fun l member a b misses step withheld => Subscription.misses_step misses step withheld
      (mark_onTime fun same => onTime (same ▸ member)))
    (by rw [start]; exact ⟨Nat.le_refl _, by simp only; omega⟩)
  have there := misses.2
  rw [Broker.view, forward_phase forward] at there
  exact there

end Resumption

theorem resumes_episode {ls : List (Label V B)} {s : Broker ring V B} (run : BrokerRun encode ls s)
    {c : Nat} {topic : Str} (resumes : Resumes c topic ls) :
    ∃ first between number bytes, ∃ m : Broker ring V B,
      Resumption encode c topic first m between number bytes ∧
      (c, Act.streamLagged topic) ∉ between ∧
      first ++ (c, .streamLagged topic) ::
        (between ++ [(c, .forward topic number bytes)]) <+: ls := by
  obtain ⟨first, between, number, bytes, rest, whole⟩ := resumes
  obtain ⟨first, _, between, _, rest, split, rfl, ⟨number, bytes, rfl⟩, free⟩ :=
    nearest_pair (p := (· = (c, .streamLagged topic))) (q := Forwards c topic)
      first [] between rest rfl nofun ⟨number, bytes, rfl⟩
  have same : ls = first ++ ((c, .streamLagged topic) ::
      (between ++ ((c, .forward topic number bytes) :: rest))) := by
    rw [← split, ← whole]
    simp
  subst same
  obtain ⟨m, reached, tail⟩ := run_split run
  obtain ⟨lagged, lag, tail⟩ := run_uncons tail
  obtain ⟨t, middle, tail⟩ := run_split tail
  obtain ⟨after, forward, -⟩ := run_uncons tail
  refine ⟨first, between, number, bytes, m, ⟨reached, ?_, ?_⟩, ?_, ?_⟩
  · exact ⟨lagged, t, after, lag, middle, forward⟩
  · intro l member
    exact (free l member).2
  · intro member
    exact (free _ member).1 rfl
  · exact ⟨rest, by simp⟩

/-- A history meets the guarantee exactly when nothing was forwarded after a lag in it: a
    receiver that goes on is always behind, and unless it is overtaken again or given up it
    is behind by all that the ring holds. -/
theorem resumes_at_present_iff {ls : List (Label V B)} {s : Broker ring V B}
    (run : BrokerRun encode ls s) (c : Nat) (topic : Str) :
    (ResumesAtPresent ring encode c topic ls ↔ ¬ Resumes c topic ls) ∧
      ∀ (first : List (Label V B)) (m : Broker ring V B) (between : List (Label V B)) (number : Nat)
        (bytes : B), Resumption encode c topic first m between number bytes →
        (c, Act.streamLagged topic) ∉ between → (∀ a, (c, a) ∈ between → ¬ a.Removes topic) →
        number + ring.size = (m.bus.sent topic).length + 1 ∧
          (m.bus.sent topic)[number - 1]? = some bytes := by
  refine ⟨⟨?_, ?_⟩, ?_⟩
  · intro present resumes
    obtain ⟨first, between, number, bytes, m, episode, onTime, within⟩ :=
      resumes_episode run resumes
    exact resumes_elsewhere episode onTime (present first m between number bytes episode within)
  · intro nothing first m between number bytes episode within
    exact absurd ⟨first, between, number, bytes, within⟩ nothing
  · intro first m between number bytes episode onTime stays
    exact resumes_at_oldest episode onTime stays

/-! A client that publishes more than the ring holds before it reads from its own topic. -/

def crowdedBus (ring : Ring) : Nat → Bus ring (List UInt8)
  | 0 => Bus.new.withTopic ['a', 'b'] firstBytes
  | n + 1 => ((crowdedBus ring n).storeAndBroadcast ['a', 'b'] firstBytes).2

theorem crowdedBus_topic (ring : Ring) (n : Nat) : (crowdedBus ring n).topics ['a', 'b'] =
    some ⟨⟨List.replicate (n + 1) firstBytes⟩, some firstBytes⟩ := by
  induction n with
  | zero => exact Bus.withTopic_topics_self _ rfl _
  | succ n ih =>
    rw [crowdedBus, Bus.storeAndBroadcast_topics_self ih,
      List.replicate_succ' (n := n + 1)]
    rfl

def crowdingActs : Nat → List (Act UInt8 (List UInt8))
  | 0 => []
  | n + 1 => crowdingActs n ++ publishActs firstMessage firstBytes

theorem crowding_run (ring : Ring) (n : Nat) :
    SoloRun packShort (crowdedBus ring 0) (joinedHandler ['a', 'b'] firstBytes ['a', 'b'])
      (crowdingActs n) (crowdedBus ring n) (joinedHandler ['a', 'b'] firstBytes ['a', 'b']) := by
  induction n with
  | zero => exact Run.nil _
  | succ n ih =>
    have present : (crowdedBus ring n).containsKey ['a', 'b'] = true := by
      rw [Bus.containsKey, crowdedBus_topic]
      rfl
    exact run_append ih (publish_run _ _ _ _ _ firstMessage_packed present)

def overtakingBus (ring : Ring) : Bus ring (List UInt8) :=
  ((crowdedBus ring ring.size).storeAndBroadcast ['a', 'b'] laterBytes).2

def overtakingActs (ring : Ring) : List (Act UInt8 (List UInt8)) :=
  subscribingActs firstMessage firstBytes ['a', 'b'] ++ joiningActs ['a', 'b'] firstBytes ++
    crowdingActs ring.size ++ publishActs laterMessage laterBytes

theorem overtakingBus_topic (ring : Ring) : (overtakingBus ring).topics ['a', 'b'] =
    some ⟨⟨List.replicate (ring.size + 1) firstBytes ++ [laterBytes]⟩, some laterBytes⟩ :=
  Bus.storeAndBroadcast_topics_self (crowdedBus_topic ring ring.size) laterBytes

theorem overtaking_run (ring : Ring) :
    SoloRun packShort (Bus.new : Bus ring (List UInt8))
      (ConnectionHandler.new (Bus.new : Bus ring _)) (overtakingActs ring) (overtakingBus ring)
      (joinedHandler ['a', 'b'] firstBytes ['a', 'b']) := by
  have present : (crowdedBus ring ring.size).containsKey ['a', 'b'] = true := by
    rw [Bus.containsKey, crowdedBus_topic]
    rfl
  have opened : SoloRun packShort _ _ _ _ _ := subscribing_run ring firstMessage_packed ['a', 'b']
  have joined : SoloRun packShort _ _ _ _ _ := joining_run ring firstBytes ab_matches
  have crowded := crowding_run ring ring.size
  have last : SoloRun packShort _ (joinedHandler ['a', 'b'] firstBytes ['a', 'b']) _ _ _ :=
    publish_run _ _ _ _ _ laterMessage_packed present
  exact run_append (run_append (run_append opened joined) crowded) last

theorem overtaking_received (ring : Ring) {data : TopicData ring (List UInt8)}
    (known : (overtakingBus ring).topics ['a', 'b'] = some data) :
    data.sender.sent.length = ring.size + 2 ∧ data.sender.recv 1 = .lagged 2 ∧
      data.sender.recv 2 = .item firstBytes 3 := by
  rw [overtakingBus_topic] at known
  obtain rfl := Option.some.inj known
  generalize sent : List.replicate (ring.size + 1) firstBytes ++ [laterBytes] = values
  have length : values.length = ring.size + 2 := by simp [← sent]
  have second : values[2]? = some firstBytes := by
    have room : 2 < ring.size + 1 := by
      have := ring.holds
      simp only [channelBufferSize] at this
      omega
    rw [← sent, List.getElem?_append_left (by simpa using room), List.getElem?_replicate,
      if_pos room]
  refine ⟨length, ?_, Broadcast.recv_of_get (by simp only [length]; omega) second⟩
  have overtaken : 1 + ring.size < ring.size + 2 := by omega
  rw [Broadcast.recv, length, if_pos overtaken, Nat.add_sub_cancel_left]

theorem overtaken_episode (ring : Ring) : ∃ s final : Broker ring UInt8 (List UInt8),
    Resumption packShort 0 ['a', 'b'] ((0, .connect) :: (overtakingActs ring).map (Prod.mk 0)) s
      [(0, .readItem ['a', 'b'])] 3 firstBytes ∧
    (s.bus.sent ['a', 'b']).length = ring.size + 2 ∧
    BrokerRun packShort (((0, .connect) :: (overtakingActs ring).map (Prod.mk 0)) ++
      (0, .streamLagged ['a', 'b']) ::
        ([(0, .readItem ['a', 'b'])] ++ [(0, .forward ['a', 'b'] 3 firstBytes)])) final := by
  have known := overtakingBus_topic ring
  obtain ⟨length, lagged, item⟩ := overtaking_received ring known
  have reached := lone_run (overtaking_run ring)
  let joined : ConnectionHandler UInt8 (List UInt8) :=
    joinedHandler ['a', 'b'] firstBytes ['a', 'b']
  let moved := (joined.insertStream ['a', 'b'] 2).goto (.select true)
  let reading := (moved.insertStream ['a', 'b'] 3).goto (.forward ['a', 'b'] 3 firstBytes)
  have room : joined.adapterSender.HasRoom :=
    ⟨rfl, by simp [joined, joinedHandler, resting, Mpsc.push, Mpsc.new, channelBufferSize]⟩
  have stream : joined.topicStreams ['a', 'b'] = some 1 := by simp [joined, joinedHandler, resting]
  have lag : ConnectionStep packShort (overtakingBus ring, joined) (.streamLagged ['a', 'b'])
      (overtakingBus ring, moved) :=
    .handler (.streamLagged rfl stream known lagged)
  have read : ConnectionStep packShort (overtakingBus ring, moved) (.readItem ['a', 'b'])
      (overtakingBus ring, reading) :=
    .handler (.readItem rfl (joined.insertStream_self _ _) known item)
  have forward : ConnectionStep packShort (overtakingBus ring, reading)
      (.forward ['a', 'b'] 3 firstBytes)
      (overtakingBus ring, (reading.enqueue firstBytes).goto (.select true)) :=
    .handler (.forward rfl room)
  have lag := solo_step Broker.new 0 lag
  have read := solo_step Broker.new 0 read
  have forward := solo_step Broker.new 0 forward
  have whole := run_append reached (run_cons lag (run_cons read (run_single forward)))
  refine ⟨_, _, ⟨reached, ⟨_, _, _, lag, run_single read, forward⟩, ?_⟩, ?_, whole⟩
  · intro l member
    rw [List.mem_singleton.mp member]
    rintro ⟨number, bytes, same⟩
    cases same
  · rw [Broker.put_bus, sent_of_topic known]
    exact length

theorem overtaken_client_is_behind : ∃ (ls : List (Label UInt8 (List UInt8)))
    (s : Broker wideRing UInt8 (List UInt8)), BrokerRun packShort ls s ∧
    ¬ ResumesAtPresent wideRing packShort 0 ['a', 'b'] ls := by
  obtain ⟨s, final, episode, length, run⟩ := overtaken_episode wideRing
  refine ⟨_, final, run, fun present => ?_⟩
  exact (resumes_at_present_iff run 0 ['a', 'b']).1.mp present
    ⟨_, _, _, _, List.prefix_refl _⟩

/-- The guarantee fails for it. -/
theorem overtaken_client_resumes_in_the_past :
    ¬ ∀ (c : Nat) (topic : Str) (ls : List (Label UInt8 (List UInt8)))
      (s : Broker wideRing UInt8 (List UInt8)), BrokerRun packShort ls s →
      ResumesAtPresent wideRing packShort c topic ls := by
  intro law
  obtain ⟨s, final, episode, length, run⟩ := overtaken_episode wideRing
  have number := law 0 ['a', 'b'] _ final run _ s _ 3 firstBytes episode (List.prefix_refl _)
  rw [length] at number
  cases number

end PubSub
