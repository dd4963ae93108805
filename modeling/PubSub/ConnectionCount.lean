import PubSub.Metrics

/- The count of connections is exact. Every connection sends its `subtract` after its
   `add`, so in no prefix of what was sent do the subtractions outnumber the additions, and
   what the task has received is such a prefix wherever the timer interrupted it. -/
namespace PubSub.Metrics
open Channels LabelledRun

/-! What one message does to the value. -/

theorem add_reports : CountMutator.add 1 = .ok 1 := rfl

theorem subtract_reports : CountMutator.subtract 1 = .ok (-1) := by decide

theorem listen_added {value after : UInt64} (updated : Count.listen value 1 = .ok after) :
    after.toNat = value.toNat + 1 := by
  change Count.add value 1 = .ok after at updated
  unfold Count.add at updated
  split at updated
  · rename_i fits
    cases updated
    rw [UInt64.toNat_add]
    exact Nat.mod_eq_of_lt fits
  · cases updated

theorem listen_add_failed {value : UInt64} {why : MetricPanic}
    (failed : Count.listen value 1 = .error why) :
    why = .addOverflow ∧ value.toNat + 1 = 2 ^ 64 := by
  change Count.add value 1 = .error why at failed
  unfold Count.add at failed
  split at failed
  · cases failed
  · rename_i full
    cases failed
    have one : (1 : UInt64).toNat = 1 := rfl
    have bound := value.toNat_lt
    exact ⟨rfl, by omega⟩

theorem listen_subtract (value : UInt64) :
    Count.listen value (-1) = Count.subtract value 1 := rfl

theorem listen_subtracted {value : UInt64} (positive : 0 < value.toNat) :
    ∃ after, Count.listen value (-1) = .ok after ∧ after.toNat + 1 = value.toNat := by
  have held : (1 : UInt64) ≤ value := UInt64.le_iff_toNat_le.mpr positive
  refine ⟨value - 1, ?_, ?_⟩
  · rw [listen_subtract, Count.subtract, if_pos held]
  · rw [UInt64.toNat_sub_of_le _ _ held]
    exact Nat.sub_add_cancel positive

/-! What one step sends and receives. -/

@[simp] theorem sent_snoc (ls : List Label) (l : Label) :
    sent (ls ++ [l]) = sent ls ++ l.sent.toList :=
  filterMap_snoc Label.sent ls l

@[simp] theorem received_snoc (ls : List Label) (l : Label) :
    received (ls ++ [l]) = received ls ++ l.received.toList :=
  filterMap_snoc Label.received ls l

inductive Reports (pc after : RunPc) : Option Int64 → Prop where
  | quiet (same : after.counted = pc.counted) : Reports pc after none
  | added (new : pc = .starting) (counts : after.counted = true) : Reports pc after (some 1)
  | subtracted (counted : pc.counted = true) (gone : after.counted = false) :
      Reports pc after (some (-1))

theorem runStep_reports {channel channel' : Mpsc channelBufferSize Int64} {pc after : RunPc}
    {act : RunAct} (step : RunStep channel pc act channel' after) (c : Nat) :
    Reports pc after (Label.connection c act).sent ∧ after ≠ .starting ∧
      channel'.queue = channel.queue ++ (Label.connection c act).sent.toList ∧
      channel'.senderDropped = channel.senderDropped := by
  cases step with
  | add reported room =>
    rw [add_reports] at reported
    cases reported
    exact ⟨.added rfl rfl, nofun, rfl, rfl⟩
  | subtract reported room =>
    rw [subtract_reports] at reported
    cases reported
    exact ⟨.subtracted rfl rfl, nofun, rfl, rfl⟩
  | _ => exact ⟨.quiet rfl, nofun, (List.append_nil _).symm, rfl⟩

theorem taskStep_queue {M V : Type} {metric : Metric M V}
    {channel channel' : Mpsc channelBufferSize M} {task after : Task V} {act : TaskAct M V}
    (step : TaskStep metric channel task act channel' after) :
    channel'.senderDropped = channel.senderDropped ∧
      ((∃ message, act = .received message ∧ channel.queue = message :: channel'.queue) ∨
        (∀ message, act ≠ .received message) ∧ channel'.queue = channel.queue) := by
  cases step with
  | received queue updated => exact ⟨rfl, Or.inl ⟨_, rfl, queue⟩⟩
  | panicked queue failed => exact ⟨rfl, Or.inl ⟨_, rfl, queue⟩⟩
  | _ => exact ⟨rfl, Or.inr ⟨nofun, rfl⟩⟩

theorem received_none {act : TaskAct Int64 UInt64} (other : ∀ message, act ≠ .received message) :
    (Label.task act).received = none := by
  cases act with
  | received message => exact absurd rfl (other message)
  | _ => rfl

/-! The channel loses nothing and repeats nothing, whatever the timer does. -/

structure Delivered (ls : List Label) (s : State) : Prop where
  messages : sent ls = received ls ++ s.channel.queue
  open_ : s.channel.senderDropped = false

theorem step_delivered {ls : List Label} {s t : State} {l : Label} (delivered : Delivered ls s)
    (step : Step s l t) : Delivered (ls ++ [l]) t := by
  obtain ⟨messages, open_⟩ := delivered
  cases step with
  | spawn => exact ⟨by simpa [Label.sent, Label.received] using messages, open_⟩
  | @connection c pc after act channel found step =>
    obtain ⟨-, -, queue, senders⟩ := runStep_reports step c
    refine ⟨?_, senders.trans open_⟩
    rw [sent_snoc, received_snoc, messages, queue]
    simp [Label.received]
  | task step =>
    obtain ⟨senders, ⟨message, rfl, queue⟩ | ⟨other, queue⟩⟩ := taskStep_queue step
    · refine ⟨?_, senders.trans open_⟩
      rw [sent_snoc, received_snoc, messages, queue]
      simp [Label.sent, Label.received]
    · refine ⟨?_, senders.trans open_⟩
      rw [sent_snoc, received_snoc, messages, queue, received_none other]
      simp [Label.sent]

theorem run_delivered {ls : List Label} {s : State} (run : CountRun ls s) : Delivered ls s :=
  run_history Delivered ⟨rfl, rfl⟩ (fun _ _ _ _ _ ih step => step_delivered ih step) run

/-! Every addition is a connection, and every connection that is not counted any more has
    taken itself away. -/

theorem countP_set_found {A : Type} (p : A → Bool) {l : List A} {i : Nat} {old : A} (new : A)
    (found : l[i]? = some old) :
    (l.set i new).countP p + (p old).toNat = l.countP p + (p new).toNat := by
  induction l generalizing i with
  | nil => cases found
  | cons a l ih =>
    cases i with
    | zero =>
      obtain rfl := Option.some.inj found
      rw [List.set_cons_zero, List.countP_cons, List.countP_cons]
      cases p a <;> cases p new <;> simp
    | succ i =>
      have tail := ih found
      rw [List.set_cons_succ, List.countP_cons, List.countP_cons]
      omega

structure Balanced (messages : List Int64) (connections : List RunPc) : Prop where
  counted : messages.count (-1) + connections.countP RunPc.counted = messages.count 1
  members : messages.count 1 + connections.countP (· == .starting) ≤ connections.length
  units : ∀ message ∈ messages, message = 1 ∨ message = -1

theorem count_added (messages : List Int64) :
    (messages ++ [1]).count (-1) = messages.count (-1) ∧
      (messages ++ [1]).count 1 = messages.count 1 + 1 :=
  ⟨List.count_append, List.count_append⟩

theorem count_subtracted (messages : List Int64) :
    (messages ++ [-1]).count (-1) = messages.count (-1) + 1 ∧
      (messages ++ [-1]).count 1 = messages.count 1 :=
  ⟨List.count_append, List.count_append⟩

theorem reports_unit {pc after : RunPc} {message : Int64}
    (reports : Reports pc after (some message)) : message = 1 ∨ message = -1 := by
  cases reports with
  | added new counts => exact Or.inl rfl
  | subtracted counted gone => exact Or.inr rfl

theorem reports_balanced {messages : List Int64} {connections : List RunPc} {c : Nat}
    {pc after : RunPc} {message : Option Int64} (balanced : Balanced messages connections)
    (found : connections[c]? = some pc) (reports : Reports pc after message)
    (entered : after ≠ .starting) :
    Balanced (messages ++ message.toList) (connections.set c after) := by
  have members := balanced.members
  have counted := balanced.counted
  have now := countP_set_found RunPc.counted after found
  have waiting := countP_set_found (· == RunPc.starting) after found
  have units : ∀ m ∈ messages ++ message.toList, m = 1 ∨ m = -1 := by
    intro m member
    rcases List.mem_append.mp member with earlier | last
    · exact balanced.units m earlier
    · rw [Option.mem_toList.mp last] at reports
      exact reports_unit reports
  rw [beq_false_of_ne entered, Bool.toNat_false, Nat.add_zero] at waiting
  have size : (connections.set c after).length = connections.length := List.length_set
  cases reports with
  | quiet same =>
    rw [same] at now
    rw [Option.toList_none, List.append_nil] at units ⊢
    exact ⟨by omega, by omega, units⟩
  | added new counts =>
    obtain ⟨minus, plus⟩ := count_added messages
    subst new
    have uncounted : RunPc.counted .starting = false := rfl
    rw [counts, uncounted, Bool.toNat_true, Bool.toNat_false] at now
    rw [beq_self_eq_true, Bool.toNat_true] at waiting
    rw [Option.toList_some] at units ⊢
    exact ⟨by omega, by omega, units⟩
  | subtracted counts gone =>
    obtain ⟨minus, plus⟩ := count_subtracted messages
    rw [counts, gone, Bool.toNat_true, Bool.toNat_false] at now
    rw [Option.toList_some] at units ⊢
    exact ⟨by omega, by omega, units⟩

theorem step_balanced {ls : List Label} {s t : State} {l : Label}
    (balanced : Balanced (sent ls) s.connections) (step : Step s l t) :
    Balanced (sent (ls ++ [l])) t.connections := by
  rw [sent_snoc]
  cases step with
  | spawn =>
    obtain ⟨counted, members, units⟩ := balanced
    refine ⟨?_, ?_, ?_⟩
    · simpa [Label.sent, RunPc.counted] using counted
    · simp [Label.sent]
      omega
    · simpa [Label.sent] using units
  | @connection c pc after act channel found step =>
    obtain ⟨reports, entered, -, -⟩ := runStep_reports step c
    exact reports_balanced balanced found reports entered
  | task step => simpa [Label.sent] using balanced

theorem run_balanced {ls : List Label} {s : State} (run : CountRun ls s) :
    Balanced (sent ls) s.connections :=
  run_history (fun ls s => Balanced (sent ls) s.connections) ⟨rfl, by decide, nofun⟩
    (fun _ _ _ _ _ ih step => step_balanced ih step) run

/-- The messages of any prefix were all that had been sent at some earlier moment. -/
theorem prefix_never_negative {ls : List Label} {s : State} (run : CountRun ls s) :
    ∀ messages, messages <+: sent ls → messages.count (-1) ≤ messages.count 1 := by
  induction run with
  | nil =>
    intro messages part
    rw [List.prefix_nil.mp part]
    exact Nat.le_refl 0
  | @snoc m t ls l before last ih =>
    intro messages part
    have balanced := run_balanced (Run.snoc before last)
    rw [sent_snoc] at part balanced
    cases said : l.sent with
    | none =>
      rw [said, Option.toList_none, List.append_nil] at part
      exact ih messages part
    | some message =>
      rw [said, Option.toList_some] at part balanced
      rcases List.prefix_concat_iff.mp part with rfl | earlier
      · exact Nat.le.intro balanced.counted
      · exact ih messages earlier

/-! The value is the sum of what was received. -/

def Exact (messages : List Int64) (value : UInt64) : Prop :=
  value.toNat + messages.count (-1) = messages.count 1

def Counts (messages : List Int64) : Task UInt64 → Prop
  | .listening value => Exact messages value
  | .logging value => Exact messages value
  | .panicked why => why = .addOverflow ∧ 2 ^ 64 + messages.count (-1) = messages.count 1

theorem exact_received {messages : List Int64} {value after : UInt64} {message : Int64}
    (exactly : Exact messages value) (unit : message = 1 ∨ message = -1)
    (covered : (messages ++ [message]).count (-1) ≤ (messages ++ [message]).count 1)
    (updated : Count.listen value message = .ok after) : Exact (messages ++ [message]) after := by
  unfold Exact at exactly ⊢
  rcases unit with rfl | rfl
  · obtain ⟨minus, plus⟩ := count_added messages
    have more := listen_added updated
    omega
  · obtain ⟨minus, plus⟩ := count_subtracted messages
    have positive : 0 < value.toNat := by omega
    obtain ⟨less, same, lower⟩ := listen_subtracted positive
    obtain rfl := Except.ok.inj (same.symm.trans updated)
    omega

theorem exact_failed {messages : List Int64} {value : UInt64} {message : Int64} {why : MetricPanic}
    (exactly : Exact messages value) (unit : message = 1 ∨ message = -1)
    (covered : (messages ++ [message]).count (-1) ≤ (messages ++ [message]).count 1)
    (failed : Count.listen value message = .error why) :
    Counts (messages ++ [message]) (.panicked why) := by
  unfold Exact at exactly
  rcases unit with rfl | rfl
  · obtain ⟨minus, plus⟩ := count_added messages
    obtain ⟨rfl, full⟩ := listen_add_failed failed
    exact ⟨rfl, by omega⟩
  · obtain ⟨minus, plus⟩ := count_subtracted messages
    have positive : 0 < value.toNat := by omega
    obtain ⟨less, same, -⟩ := listen_subtracted positive
    rw [same] at failed
    cases failed

theorem taskStep_counts {messages : List Int64} {channel channel' : Mpsc channelBufferSize Int64}
    {task after : Task UInt64} {act : TaskAct Int64 UInt64} (counts : Counts messages task)
    (open_ : channel.senderDropped = false)
    (unit : ∀ message, act = .received message → message = 1 ∨ message = -1)
    (covered : ∀ message, act = .received message →
      (messages ++ [message]).count (-1) ≤ (messages ++ [message]).count 1)
    (step : TaskStep Count.metric channel task act channel' after) :
    Counts (messages ++ (Label.task act).received.toList) after := by
  cases step with
  | received queue updated => exact exact_received counts (unit _ rfl) (covered _ rfl) updated
  | panicked queue failed => exact exact_failed counts (unit _ rfl) (covered _ rfl) failed
  | closed queue gone =>
    rw [open_] at gone
    cases gone
  | tick =>
    change Counts (messages ++ []) _
    rw [List.append_nil]
    exact counts
  | logged =>
    change Counts (messages ++ []) _
    rw [List.append_nil]
    exact counts

theorem run_counts {ls : List Label} {s : State} (run : CountRun ls s) :
    Counts (received ls) s.task := by
  induction run with
  | nil => rfl
  | @snoc m t ls l before last ih =>
    have delivered := run_delivered (Run.snoc before last)
    have balanced := run_balanced (Run.snoc before last)
    have part : received (ls ++ [l]) <+: sent (ls ++ [l]) := ⟨_, delivered.messages.symm⟩
    have covered := prefix_never_negative (Run.snoc before last) _ part
    rw [received_snoc] at part covered ⊢
    cases last with
    | task step =>
      refine taskStep_counts ih (run_delivered before).open_ ?_ ?_ step
      · rintro message rfl
        exact balanced.units message (part.subset (by simp [Label.received]))
      · rintro message rfl
        exact covered
    | _ => simpa [Label.received] using ih

theorem overflow_needs_connections {ls : List Label} {s : State} (run : CountRun ls s)
    (full : 2 ^ 64 ≤ (received ls).count 1) : 2 ^ 64 ≤ s.connections.length := by
  have members := (run_balanced run).members
  have part : received ls <+: sent ls := ⟨_, (run_delivered run).messages.symm⟩
  have fewer := part.sublist.count_le 1
  omega

/-- The task subtracts from nothing in no run, and its value is exact wherever it has one.
    It can only fail to add the connection after 2 ^ 64 - 1 others. -/
theorem connection_count_exact {ls : List Label} {s : State} (run : CountRun ls s) :
    (∀ message ∈ received ls, message = 1 ∨ message = -1) ∧
    (∀ why, s.task = .panicked why → why = .addOverflow ∧ 2 ^ 64 ≤ s.connections.length) ∧
    ∀ value, s.task.value = some value →
      value.toNat + (received ls).count (-1) = (received ls).count 1 ∧
      (s.channel.queue = [] → value.toNat = s.connections.countP RunPc.counted) := by
  have messages := (run_delivered run).messages
  have balanced := run_balanced run
  have counts := run_counts run
  refine ⟨?_, ?_, ?_⟩
  · intro message member
    apply balanced.units
    rw [messages]
    exact List.mem_append_left _ member
  · intro why panicked
    rw [panicked] at counts
    obtain ⟨overflow, full⟩ := counts
    exact ⟨overflow, overflow_needs_connections run (Nat.le.intro full)⟩
  · intro value here
    have exactly : Exact (received ls) value := by
      cases at_ : s.task with
      | panicked why => rw [at_] at here; cases here
      | listening held =>
        rw [at_] at here counts
        cases here
        exact counts
      | logging held =>
        rw [at_] at here counts
        cases here
        exact counts
    refine ⟨exactly, fun drained => ?_⟩
    have counted := balanced.counted
    rw [messages, drained, List.append_nil] at counted
    unfold Exact at exactly
    omega

def counting (queue : List Int64) (task : Task UInt64) (connections : List RunPc) : State :=
  ⟨⟨queue, false, false⟩, task, connections⟩

theorem two_connections_counted : ∃ (ls : List Label) (s : State), CountRun ls s ∧
    s.connections = [.ended, .looping] ∧ s.channel.queue = [] ∧ s.task.value = some 1 ∧
    (1 : UInt64).toNat + (received ls).count (-1) = (received ls).count 1 ∧
    (1 : UInt64).toNat = s.connections.countP RunPc.counted := by
  have begun : CountRun [] (counting [] (.listening 0) []) := Run.nil _
  have spawned : CountRun _ (counting [] (.listening 0) [.starting, .starting]) :=
    Run.snoc (Run.snoc begun .spawn) .spawn
  have added : CountRun _ (counting [1, 1] (.listening 0) [.looping, .looping]) :=
    Run.snoc (Run.snoc spawned (.connection (c := 0) rfl (.add add_reports (by decide))))
      (.connection (c := 1) rfl (.add add_reports (by decide)))
  have ticked : CountRun _ (counting [1] (.logging 1) [.looping, .looping]) :=
    Run.snoc (Run.snoc added (.task (.received rfl (by rfl)))) (.task .tick)
  have ended : CountRun _ (counting [1, -1] (.logging 1) [.ended, .looping]) :=
    Run.snoc (Run.snoc ticked (.connection (c := 0) rfl .leave))
      (.connection (c := 0) rfl (.subtract subtract_reports (by decide)))
  have drained : CountRun _ (counting [] (.listening 1) [.ended, .looping]) :=
    Run.snoc (Run.snoc (Run.snoc ended (.task .logged)) (.task (.received rfl (by rfl))))
      (.task (.received rfl (by rfl)))
  obtain ⟨-, -, counted⟩ := connection_count_exact drained
  obtain ⟨exactly, whenDrained⟩ := counted 1 rfl
  exact ⟨_, _, drained, rfl, rfl, rfl, exactly, whenDrained rfl⟩

end PubSub.Metrics
