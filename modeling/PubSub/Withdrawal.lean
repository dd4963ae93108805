import PubSub.Solicited

/- What an `Unsubscribe` takes back. A handler streams only topics that its tree matched at
   some moment since it last handled an `Unsubscribe`, so a topic that the remaining patterns
   do not match is silent until the client subscribes again. -/
namespace PubSub
open Channels LabelledRun
variable {ring : Ring} {V B : Type} {encode : Message V → Option B}

def ConnectionHandler.Engaged (h : ConnectionHandler V B) (topic : Str) : Prop :=
  h.topicStreams topic ≠ none ∨ h.pc.InHand topic

def Unsubscribes (c : Nat) (l : Label V B) : Prop :=
  ∃ pattern removed, l = (c, .unsubscribe pattern removed)

def Subscribes (c : Nat) (l : Label V B) : Prop := ∃ pattern, l = (c, .subscribe pattern)

/-- There is a moment in the history at which the tree of the connection matched the topic,
    and no `Unsubscribe` was handled since. -/
def WantedSince (encode : Message V → Option B) (ls : List (Label V B)) (s : Broker ring V B)
    (c : Nat) (topic : Str) : Prop :=
  ∃ before since m h, ls = before ++ since ∧ BrokerRun encode before m ∧
    Run (BrokerStep encode) m since s ∧ m.connections c = some h ∧
    h.subscriptions.check topic = true ∧ ∀ l ∈ since, ¬ Unsubscribes c l

theorem WantedSince.later {ls : List (Label V B)} {s t : Broker ring V B} {c : Nat} {topic : Str}
    {l : Label V B} (wanted : WantedSince encode ls s c topic) (step : BrokerStep encode s l t)
    (kept : ¬ Unsubscribes c l) : WantedSince encode (ls ++ [l]) t c topic := by
  obtain ⟨before, since, m, h, rfl, reached, run, found, matched, none⟩ := wanted
  refine ⟨before, since ++ [l], m, h, List.append_assoc _ _ _, reached, Run.snoc run step, found,
    matched, ?_⟩
  intro k member
  rcases List.mem_append.mp member with old | now
  · exact none k old
  · rw [List.mem_singleton.mp now]
    exact kept

theorem engaged_inserted {h h' : ConnectionHandler V B} {name topic : Str} {receiver : Cursor}
    (streams : h'.topicStreams = Function.update h.topicStreams name (some receiver))
    (engaged : h'.Engaged topic) (held : h'.pc.InHand topic → topic = name) :
    topic = name ∨ h.topicStreams topic ≠ none := by
  rcases engaged with streaming | here
  · by_cases same : topic = name
    · exact Or.inl same
    · rw [streams, Function.update_of_ne same] at streaming
      exact Or.inr streaming
  · exact Or.inl (held here)

theorem handlerStep_engaged {bus after : Bus ring B} {h h' : ConnectionHandler V B} {a : Act V B}
    {topic : Str} (engaged : h'.Engaged topic) (step : HandlerStep encode bus h a after h') :
    (h.Engaged topic ∧ ∀ pattern removed, a ≠ .unsubscribe pattern removed) ∨
      h'.subscriptions.check topic = true := by
  cases step with
  | @unsubscribe pattern result tree at_ removed =>
    rcases engaged with streaming | held
    · -- what is left of the streams has been checked against the new tree
      apply Or.inr
      by_contra unmatched
      apply streaming
      simp only [ConnectionHandler.goto, ConnectionHandler.removeUnmatched,
        Bool.not_eq_true] at unmatched ⊢
      cases stream : h.topicStreams topic <;> simp [ConnectionHandler.unmatched, stream, unmatched]
    · exact held.elim
  | @join cause name names receiver lastMessage at_ matched unsubscribed found =>
    rcases engaged with streaming | held
    · exact Or.inl ⟨Or.inl streaming, by simp⟩
    · obtain rfl : name = topic := held
      exact Or.inr matched
  | @attach cause name names receiver at_ =>
    refine Or.inl ⟨?_, by simp⟩
    rcases engaged_inserted rfl engaged False.elim with rfl | streaming
    · exact Or.inr (by rw [at_]; rfl)
    · exact Or.inl streaming
  | @retained cause name names receiver bytes at_ room =>
    refine Or.inl ⟨?_, by simp⟩
    rcases engaged_inserted rfl engaged False.elim with rfl | streaming
    · exact Or.inr (by rw [at_]; rfl)
    · exact Or.inl streaming
  | @retainedLost cause name names receiver bytes at_ full =>
    refine Or.inl ⟨?_, by simp⟩
    rcases engaged_inserted rfl engaged False.elim with rfl | streaming
    · exact Or.inr (by rw [at_]; rfl)
    · exact Or.inl streaming
  | @readItem name cursor next data bytes enabled at_ stream known received =>
    refine Or.inl ⟨Or.inl ?_, by simp⟩
    rcases engaged_inserted rfl engaged fun same => Eq.symm same with rfl | streaming
    · simp [stream]
    · exact streaming
  | @streamLagged name cursor next data enabled at_ stream known received =>
    refine Or.inl ⟨Or.inl ?_, by simp⟩
    rcases engaged_inserted rfl engaged False.elim with rfl | streaming
    · simp [stream]
    · exact streaming
  | _ =>
    refine Or.inl ⟨?_, by simp⟩
    rcases engaged with streaming | held
    · exact Or.inl streaming
    · exact held.elim

theorem run_wanted {ls : List (Label V B)} {s : Broker ring V B} (run : BrokerRun encode ls s)
    {c : Nat} {h : ConnectionHandler V B} (found : s.connections c = some h) {topic : Str}
    (engaged : h.Engaged topic) : WantedSince encode ls s c topic := by
  refine run_history (fun ls s => ∀ h, s.connections c = some h → h.Engaged topic →
    WantedSince encode ls s c topic) ?_ ?_ run h found engaged
  · intro h found
    cases found
  · intro ls s l t before ih step h' found engaged
    by_cases own : l.1 = c
    · cases step with
      | connect fresh =>
        subst own
        rw [Broker.put_self] at found
        obtain rfl := Option.some.inj found
        rcases engaged with streaming | held
        · exact absurd rfl streaming
        · exact held.elim
      | adapter here step =>
        subst own
        rw [Broker.put_self] at found
        obtain rfl := Option.some.inj found
        obtain ⟨pc, -, streams, -⟩ := adapterStep_pc step
        have before : _ := ih _ here (by
          unfold ConnectionHandler.Engaged at engaged ⊢
          rwa [pc, streams] at engaged)
        refine before.later (.adapter here step) ?_
        rintro ⟨pattern, removed, same⟩
        cases same
        cases step
      | @handler _ h _ bus a here step =>
        subst own
        rw [Broker.put_self] at found
        obtain rfl := Option.some.inj found
        rcases handlerStep_engaged engaged step with ⟨already, kept⟩ | matched
        · refine (ih h here already).later (.handler here step) ?_
          rintro ⟨pattern, removed, same⟩
          exact kept pattern removed (congrArg Prod.snd same)
        · exact ⟨_, [], _, _, (List.append_nil _).symm, Run.snoc before (.handler here step),
            Run.nil _, Broker.put_self _ _ _ _, matched, fun _ none => absurd none List.not_mem_nil⟩
    · rw [brokerStep_others step (Ne.symm own)] at found
      refine (ih h' found engaged).later step ?_
      rintro ⟨pattern, removed, rfl⟩
      exact own rfl

/-- What a connection sends its client belongs to a topic that its tree matched at some
    moment after the last `Unsubscribe` it handled. -/
theorem deliveries_still_wanted {ls : List (Label V B)} {s t : Broker ring V B} {c : Nat}
    {a : Act V B} (run : BrokerRun encode ls s) (step : BrokerStep encode s (c, a) t) {topic : Str}
    {number : Nat} {bytes : B} (enqueues : a.enqueued topic = some (number, bytes)) :
    WantedSince encode ls s c topic := by
  cases step with
  | connect fresh => cases enqueues
  | adapter found step => cases step <;> cases enqueues
  | handler found step =>
    apply run_wanted run found
    cases step with
    | @retained cause name names receiver bytes at_ room =>
      by_cases same : name = topic
      · exact Or.inr (by rw [at_]; exact same)
      · simp [Act.enqueued, same] at enqueues
    | @forward name number bytes at_ room =>
      by_cases same : name = topic
      · exact Or.inr (by rw [at_]; exact same)
      · simp [Act.enqueued, same] at enqueues
    | _ => cases enqueues

theorem retained_still_wanted : ∃ ls, ∃ s t : Broker wideRing UInt8 (List UInt8),
    BrokerRun packShort ls s ∧ BrokerStep packShort s (0, .retained ['a', 'b'] 1 firstBytes) t ∧
      WantedSince packShort ls s 0 ['a', 'b'] := by
  have whole := lone_run (run_append (subscribing_run wideRing firstMessage_packed ['a', 'b'])
    (receiving_run wideRing firstBytes laterMessage_packed rfl ab_matches))
  have pieces : BrokerRun packShort (((0, .connect) :: (subscribingActs firstMessage firstBytes
      ['a', 'b'] ++ [Act.join ['a', 'b']]).map (Prod.mk 0)) ++
      (0, .retained ['a', 'b'] 1 firstBytes) ::
        (receivingActs laterMessage firstBytes laterBytes).tail.map (Prod.mk 0)) _ := whole
  obtain ⟨s, reached, rest⟩ := run_split pieces
  obtain ⟨t, taken, -⟩ := run_uncons rest
  exact ⟨_, s, t, reached, taken, deliveries_still_wanted reached taken rfl⟩

/-! From an `Unsubscribe` on. -/

structure ConnectionHandler.Silent (h : ConnectionHandler V B) (topic : Str) : Prop where
  free : ¬ h.Engaged topic
  unmatched : h.subscriptions.check topic = false

theorem silent_enqueues {bus after : Bus ring B} {h h' : ConnectionHandler V B} {a : Act V B}
    {topic : Str} (silent : h.Silent topic) (step : HandlerStep encode bus h a after h') :
    a.enqueued topic = none := by
  cases step with
  | @retained cause name names receiver bytes at_ room =>
    refine if_neg fun same => silent.free (Or.inr ?_)
    rw [at_]
    exact same
  | @forward name number bytes at_ room =>
    refine if_neg fun same => silent.free (Or.inr ?_)
    rw [at_]
    exact same
  | _ => rfl

theorem handlerStep_silent {bus after : Bus ring B} {h h' : ConnectionHandler V B} {a : Act V B}
    {topic : Str} (named : topic ≠ []) (reachable : h.subscriptions.Reachable)
    (silent : h.Silent topic) (step : HandlerStep encode bus h a after h')
    (kept : ∀ pattern, a ≠ .subscribe pattern) : h'.Silent topic := by
  have unmatched : h'.subscriptions.check topic = false := by
    cases step with
    | subscribe at_ => exact absurd rfl (kept _)
    | unsubscribe at_ removed =>
      have wf := GlobTree.reachable_wellFormed reachable
      rw [Bool.eq_false_iff]
      intro now
      rcases GlobTree.remove_check wf (GlobTree.step_wellFormed wf (.remove removed)) removed now with
        before | ⟨empty, -⟩
      · rw [silent.unmatched] at before
        cases before
      · exact named empty
    | _ => exact silent.unmatched
  refine ⟨fun engaged => ?_, unmatched⟩
  rcases handlerStep_engaged engaged step with ⟨before, -⟩ | matched
  · exact silent.free before
  · rw [unmatched] at matched
    cases matched

theorem tree_reachable {ls : List (Label V B)} {s : Broker ring V B}
    (run : BrokerRun encode ls s) {c : Nat} {h : ConnectionHandler V B}
    (found : s.connections c = some h) : h.subscriptions.Reachable := by
  obtain ⟨calls, built, -⟩ := (run_traced run found).tree
  exact ⟨calls, built⟩

theorem unsubscribe_silences {s t : Broker ring V B} {c : Nat} {pattern topic : Str}
    {removed : Str → Bool} {h : ConnectionHandler V B}
    (step : BrokerStep encode s (c, .unsubscribe pattern removed) t)
    (found : t.connections c = some h) (unmatched : h.subscriptions.check topic = false) :
    h.Silent topic := by
  refine ⟨fun engaged => ?_, unmatched⟩
  cases step with
  | adapter here step => cases step
  | handler here step =>
    rw [Broker.put_self] at found
    obtain rfl := Option.some.inj found
    rcases handlerStep_engaged engaged step with ⟨-, kept⟩ | matched
    · exact kept _ _ rfl
    · rw [unmatched] at matched
      cases matched

theorem enqueuedOn_snoc (c : Nat) (topic : Str) (ls : List (Label V B)) (l : Label V B) :
    enqueuedOn c topic (ls ++ [l]) = enqueuedOn c topic ls ++
      (if l.1 = c then l.2.enqueued topic else none).toList :=
  filterMap_snoc _ ls l

theorem brokerStep_silent {s t : Broker ring V B} {l : Label V B} {c : Nat} {topic : Str}
    {h : ConnectionHandler V B} (named : topic ≠ []) (reachable : h.subscriptions.Reachable)
    (here : s.connections c = some h) (silent : h.Silent topic) (step : BrokerStep encode s l t)
    (kept : ¬ Subscribes c l) : (if l.1 = c then l.2.enqueued topic else none) = none ∧
      ∃ h', t.connections c = some h' ∧ h'.Silent topic := by
  rcases brokerStep_connection step here with ⟨other, still⟩ | ⟨a, h', rfl, moved, rfl⟩ |
    ⟨a, h', bus, rfl, moved, rfl⟩
  · exact ⟨if_neg other, h, still, silent⟩
  · obtain ⟨pc, -, streams, tree⟩ := adapterStep_pc moved
    refine ⟨by cases moved <;> exact if_pos rfl, h', Broker.put_self _ _ _ _, ?_, ?_⟩
    · unfold ConnectionHandler.Engaged
      rw [pc, streams]
      exact silent.free
    · rw [tree]
      exact silent.unmatched
  · refine ⟨(if_pos rfl).trans (silent_enqueues silent moved), h', Broker.put_self _ _ _ _, ?_⟩
    refine handlerStep_silent named reachable silent moved fun pattern same => ?_
    exact kept ⟨pattern, by rw [← same]⟩

/-- After an `Unsubscribe` that leaves no pattern matching a topic, and as long as the
    connection handles no `Subscribe`, nothing of the topic is sent to its client: not what
    is in the ring, not what is published, not upon a `Created` event. -/
theorem unsubscribed_topic_silent {first later : List (Label V B)} {s t u : Broker ring V B}
    {c : Nat} {pattern topic : Str} {removed : Str → Bool} {h : ConnectionHandler V B}
    (reached : BrokerRun encode first s)
    (step : BrokerStep encode s (c, .unsubscribe pattern removed) t)
    (found : t.connections c = some h) (unmatched : h.subscriptions.check topic = false)
    (named : topic ≠ []) (run : Run (BrokerStep encode) t later u)
    (kept : ∀ l ∈ later, ¬ Subscribes c l) : enqueuedOn c topic later = [] := by
  suffices quiet : enqueuedOn c topic later = [] ∧
      ∃ h, u.connections c = some h ∧ h.Silent topic from quiet.1
  refine run_history (fun later u => (∀ l ∈ later, ¬ Subscribes c l) →
    enqueuedOn c topic later = [] ∧ ∃ h, u.connections c = some h ∧ h.Silent topic) ?_ ?_ run kept
  · exact fun _ => ⟨rfl, h, found, unsubscribe_silences step found unmatched⟩
  · intro later m l n sofar ih taken kept
    obtain ⟨nothing, h, here, silent⟩ := ih fun l member => kept l (List.mem_append_left _ member)
    have whole := run_append (Run.snoc reached step) sofar
    obtain ⟨quiet, after⟩ := brokerStep_silent named (tree_reachable whole here) here silent taken
      (kept l (by simp))
    rw [enqueuedOn_snoc, nothing, quiet]
    exact ⟨rfl, after⟩

theorem next_message_silent : ∃ ls removed, ∃ s t u : Broker wideRing UInt8 (List UInt8),
    BrokerRun packShort ls s ∧
    BrokerStep packShort s (0, .unsubscribe ['a', 'b'] removed) t ∧
    Run (BrokerStep packShort) t ((publishActs laterMessage laterBytes).map (Prod.mk 0)) u ∧
    u.bus.sent ['a', 'b'] = [firstBytes, laterBytes] ∧
    enqueuedOn 0 ['a', 'b'] ((publishActs laterMessage laterBytes).map (Prod.mk 0)) = [] := by
  have before := lone_run (run_append (subscribing_run wideRing firstMessage_packed ['a', 'b'])
    (run_append (joining_run wideRing firstBytes ab_matches)
      (take_run _ (Mpsc.new.push firstBytes) _ 1 _ (.unsubscribe ['a', 'b']))))
  generalize opened :
    (Bus.new : Bus wideRing (List UInt8)).withTopic firstMessage.topic firstBytes = bus at before
  have known : bus.topics ['a', 'b'] = some ⟨⟨[firstBytes]⟩, some firstBytes⟩ := by
    rw [← opened]
    exact Bus.withTopic_topics_self _ rfl firstBytes
  have stored := Bus.storeAndBroadcast_topics_self known laterBytes
  have present : bus.containsKey laterMessage.topic = true := by
    simp [Bus.containsKey, laterMessage, known]
  have removed : (GlobTree.new.insert ['a', 'b']).remove ['a', 'b'] = .ok (.ok (), GlobTree.new) :=
    rfl
  obtain ⟨gone, streams, handled⟩ : ∃ gone streams, HandlerStep packShort bus
      (⟨Mpsc.new.push firstBytes, Mpsc.new, Function.update (fun _ => none) firstMessage.topic (some 1),
        1, GlobTree.new.insert ['a', 'b'], .handle (.unsubscribe ['a', 'b'])⟩)
      (.unsubscribe ['a', 'b'] gone) bus
      (resting (Mpsc.new.push firstBytes) streams 1 GlobTree.new) :=
    ⟨_, _, .unsubscribe rfl removed⟩
  have step := solo_step (Broker.new : Broker wideRing UInt8 (List UInt8)) 0 (.handler handled)
  have later := solo_run (Broker.new.put_self bus 0 _)
    (publish_run bus (Mpsc.new.push firstBytes) streams 1 GlobTree.new laterMessage_packed present)
  refine ⟨_, _, _, _, _, before, step, later, ?_, ?_⟩
  · simp [Bus.sent, laterMessage, stored, Broadcast.send]
  · refine unsubscribed_topic_silent before step (Broker.new.put_self bus 0 _) (GlobTree.new_check _)
      (List.cons_ne_nil _ _) later ?_
    simp [publishActs, Subscribes]

end PubSub
