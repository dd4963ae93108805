import PubSub.Metering

/- What the metrics say of a run of the server, at any moment of it. -/
namespace PubSub
open Channels LabelledRun Metrics
variable {ring : Ring} {V B : Type} {encode : Message V → Option B}

/-! What is counted. -/

def ServerAct.takes : ServerAct V B → Bool
  | .connection _ (.takeCommand _) => true
  | _ => false

def ServerAct.forwards : ServerAct V B → Bool
  | .connection _ (.forward _ _ _) => true
  | _ => false

def Running.unreported (k : Running V B) : Bool := k.awaits = .commandCounted

/-- It has reported a message that it has not forwarded yet, or could not. -/
def Running.owing (k : Running V B) : Bool :=
  match k.awaits with
  | .nothing => k.handler.pc.forwarding
  | .subtract .forwardFailed | .returned .forwardFailed => true
  | _ => false

def ServerAct.commands (act : ServerAct V B) : Nat :=
  (act.commandGauge.bind GaugeAct.report).toList.length

def ServerAct.messages (act : ServerAct V B) : Nat :=
  (act.messageGauge.bind GaugeAct.report).toList.length

def commandsReported (acts : List (ServerAct V B)) : Nat :=
  (reports (acts.filterMap ServerAct.commandGauge)).length

def messagesReported (acts : List (ServerAct V B)) : Nat :=
  (reports (acts.filterMap ServerAct.messageGauge)).length

theorem reported_snoc {g : ServerAct V B → Option (GaugeAct UInt64 UInt64)}
    (acts : List (ServerAct V B)) (act : ServerAct V B) :
    (reports ((acts ++ [act]).filterMap g)).length =
      (reports (acts.filterMap g)).length + ((g act).bind GaugeAct.report).toList.length := by
  rw [filterMap_snoc]
  cases g act with
  | none => simp
  | some gauged => simp

structure Tallied (acts : List (ServerAct V B)) (s : Server ring V B) : Prop where
  commands : commandsReported acts + s.connections.countP Running.unreported =
    acts.countP ServerAct.takes
  messages : messagesReported acts = acts.countP ServerAct.forwards +
    s.connections.countP Running.owing

theorem countP_snoc {A : Type} (p : A → Bool) (l : List A) (a : A) :
    (l ++ [a]).countP p = l.countP p + (p a).toNat := by
  rw [List.countP_append, List.countP_singleton]
  cases p a <;> rfl

theorem put_tallied {acts : List (ServerAct V B)} {s t : Server ring V B} {act : ServerAct V B}
    {c : Nat} {k : Running V B} (k' : Running V B) (tallied : Tallied acts s)
    (found : s.connections[c]? = some k) (moved : t.connections = s.connections.set c k')
    (commands : act.commands + k'.unreported.toNat = k.unreported.toNat + act.takes.toNat)
    (messages : act.messages + k.owing.toNat = act.forwards.toNat + k'.owing.toNat) :
    Tallied (acts ++ [act]) t := by
  have waiting := countP_set_found Running.unreported k' found
  have owed := countP_set_found Running.owing k' found
  have before := tallied.commands
  have sent := tallied.messages
  constructor
  · rw [countP_snoc, moved]
    have more : commandsReported (acts ++ [act]) = commandsReported acts + act.commands :=
      reported_snoc acts act
    omega
  · rw [countP_snoc, moved]
    have more : messagesReported (acts ++ [act]) = messagesReported acts + act.messages :=
      reported_snoc acts act
    omega

theorem still_tallied {acts : List (ServerAct V B)} {s t : Server ring V B} {act : ServerAct V B}
    (tallied : Tallied acts s)
    (waiting : t.connections.countP Running.unreported = s.connections.countP Running.unreported)
    (owed : t.connections.countP Running.owing = s.connections.countP Running.owing)
    (quiet : act.commands = 0 ∧ act.takes = false ∧ act.messages = 0 ∧ act.forwards = false) :
    Tallied (acts ++ [act]) t := by
  obtain ⟨uncounted, untaken, unsent, unforwarded⟩ := quiet
  have more : commandsReported (acts ++ [act]) = commandsReported acts + act.commands :=
    reported_snoc acts act
  have moreSent : messagesReported (acts ++ [act]) = messagesReported acts + act.messages :=
    reported_snoc acts act
  constructor
  · rw [countP_snoc, waiting, more, uncounted, untaken]
    exact tallied.commands
  · rw [countP_snoc, owed, moreSent, unsent, unforwarded]
    exact tallied.messages

theorem handlerStep_owing {bus after : Bus ring B} {h h' : ConnectionHandler V B} {a : Act V B}
    (step : HandlerStep encode bus h a after h') (stays : a.leaving = none) (c : Nat) :
    h.pc.forwarding = (ServerAct.connection c a).forwards ∧
      (Running.mk h' a.reports).owing = false ∧
      (Running.mk h' a.reports).unreported = (ServerAct.connection c a).takes := by
  cases step with
  | disconnect | forwardFailed => cases stays
  | takeCommand at_ | readEvent at_ | eventsLagged at_ | readItem at_ | streamLagged at_
  | subscribe at_ | listed at_ | unsubscribe at_ | panicked at_ | skip at_ | join at_ | attach at_
  | retained at_ | retainedLost at_ | finish at_ | startPublish at_ | publishFailed at_
  | sending at_ | published at_ | forward at_ => rw [at_]; exact ⟨rfl, rfl, rfl⟩

theorem adapterStep_owing {h h' : ConnectionHandler V B} {a : Act V B} (step : AdapterStep h a h')
    (awaits : Awaits) (c : Nat) :
    (Running.mk h' awaits).owing = (Running.mk h awaits).owing ∧
      (ServerAct.connection c a).forwards = false ∧ (ServerAct.connection c a).takes = false := by
  constructor
  · unfold Running.owing
    rw [(adapterStep_pc step).1]
  · cases step <;> exact ⟨rfl, rfl⟩

theorem holds_owing {h : ConnectionHandler V B} {why : Leaving} (holds : why.Holds h) :
    (Running.mk h .nothing).owing = (Running.mk h (.subtract why)).owing := by
  cases why with
  | disconnected =>
    obtain ⟨⟨enabled, at_⟩, -⟩ := holds
    unfold Running.owing
    rw [at_]
    rfl
  | forwardFailed =>
    obtain ⟨⟨name, number, bytes, at_⟩, -⟩ := holds
    unfold Running.owing
    rw [at_]
    rfl

theorem serverStep_tallied {acts : List (ServerAct V B)} {s t : Server ring V B}
    {act : ServerAct V B} (tallied : Tallied acts s) (placed : s.Placed)
    (present : ∀ a, ¬ s.Gone a) (step : ServerStep encode s act t) :
    Tallied (acts ++ [act]) t := by
  cases step with
  | accept =>
    refine still_tallied tallied ?_ ?_ ⟨rfl, rfl, rfl, rfl⟩
    · exact (countP_snoc _ _ _).trans (Nat.add_zero _)
    · exact (countP_snoc _ _ _).trans (Nat.add_zero _)
  | @adapter c k a after found step =>
    obtain ⟨same, unforwarded, untaken⟩ := adapterStep_owing step k.awaits c
    refine put_tallied ⟨after, k.awaits⟩ tallied found rfl ?_ ?_
    · rw [untaken]
      exact Nat.add_comm _ _
    · rw [unforwarded, same]
      rfl
  | @handler c k a bus after found at_ stays step =>
    obtain ⟨h, awaits⟩ := k
    obtain rfl : awaits = .nothing := at_
    obtain ⟨forwarded, paid, taken⟩ := handlerStep_owing step stays c
    refine put_tallied ⟨after, a.reports⟩ tallied found rfl ?_ ?_
    · rw [taken]
      rfl
    · rw [paid, ← forwarded]
      exact Nat.add_comm _ _
  | @added c k message found at_ =>
    obtain ⟨h, awaits⟩ := k
    obtain rfl : awaits = .add := at_
    have here : h.pc = .select true := placed c _ found
    refine put_tallied ⟨h, .nothing⟩ tallied found rfl rfl ?_
    rw [show (Running.mk h .nothing).owing = h.pc.forwarding from rfl, here]
    rfl
  | @commandCounted c k found at_ =>
    obtain ⟨h, awaits⟩ := k
    obtain rfl : awaits = .commandCounted := at_
    obtain ⟨command, here⟩ : ∃ command, h.pc = .handle command := placed c _ found
    refine put_tallied ⟨h, .nothing⟩ tallied found rfl rfl ?_
    rw [show (Running.mk h .nothing).owing = h.pc.forwarding from rfl, here]
    rfl
  | @messageCounted c k found at_ =>
    obtain ⟨h, awaits⟩ := k
    obtain rfl : awaits = .messageCounted := at_
    have here : h.pc.forwarding = true := placed c _ found
    refine put_tallied ⟨h, .nothing⟩ tallied found rfl rfl ?_
    rw [show (Running.mk h .nothing).owing = h.pc.forwarding from rfl, here]
    rfl
  | @left c k a why bus after found at_ leaves step =>
    obtain ⟨h, awaits⟩ := k
    obtain rfl : awaits = .nothing := at_
    refine put_tallied ⟨h, .subtract why⟩ tallied found rfl rfl ?_
    rw [holds_owing (handlerStep_holds step leaves)]
    rfl
  | @subtracted c k why message found at_ =>
    obtain ⟨h, awaits⟩ := k
    obtain rfl : awaits = .subtract why := at_
    refine put_tallied ⟨h.stop, .returned why⟩ tallied found rfl rfl ?_
    cases why <;> rfl
  | metricGone found gone => exact absurd gone (present _)
  | @commandTask act => exact still_tallied tallied rfl rfl ⟨by cases act <;> rfl, rfl, rfl, rfl⟩
  | connectionTask => exact still_tallied tallied rfl rfl ⟨rfl, rfl, rfl, rfl⟩
  | @messageTask act => exact still_tallied tallied rfl rfl ⟨rfl, rfl, by cases act <;> rfl, rfl⟩

theorem short_run_tallied {acts : List (ServerAct V B)} {s : Server ring V B}
    (run : ServerRun encode acts s) (short : acts.length < 2 ^ 64) : Tallied acts s := by
  refine run_history (fun acts s => acts.length < 2 ^ 64 → Tallied acts s) (fun _ => ⟨rfl, rfl⟩) ?_
    run short
  intro acts s act t before ih step short
  have earlier : acts.length < 2 ^ 64 := by
    rw [List.length_append] at short
    omega
  exact serverStep_tallied (ih earlier) (run_placed before)
    (alive_present before (short_run_alive before earlier)) step

/-- The commands that were logged, that the metric holds and that wait in its channel are the
    commands taken, but for those whose connection is about to report them. The messages are
    those forwarded and those reported that could not be, or are not yet; what is sent of a topic
    when it is subscribed to is not among them. -/
theorem throughputs_exact {acts : List (ServerAct V B)} {s : Server ring V B}
    (run : ServerRun encode acts s) (short : acts.length < 2 ^ 64) :
    (∃ value, s.commandThroughput.task.value = some value ∧
      logged (acts.filterMap ServerAct.commandGauge) + value.toNat +
        s.commandThroughput.channel.queue.length + s.connections.countP Running.unreported =
          acts.countP ServerAct.takes) ∧
    ∃ value, s.messagesSent.task.value = some value ∧
      logged (acts.filterMap ServerAct.messageGauge) + value.toNat +
        s.messagesSent.channel.queue.length =
          acts.countP ServerAct.forwards + s.connections.countP Running.owing := by
  have alive := short_run_alive run short
  have tallied := short_run_tallied run short
  obtain ⟨commands, held, booked⟩ := booked_sum (command_booked run) alive.commands
  obtain ⟨messages, heldSent, bookedSent⟩ := booked_sum (message_booked run) alive.messages
  refine ⟨⟨commands, held, ?_⟩, messages, heldSent, ?_⟩
  · rw [booked]
    exact tallied.commands
  · rw [bookedSent]
    exact tallied.messages

theorem logging_exact : ∃ s : Server wideRing UInt8 (List UInt8),
    ServerRun packShort (taking ++ logging) s ∧ (∃ value, s.commandThroughput.task.value = some value ∧
      1 + value.toNat + s.commandThroughput.channel.queue.length +
        s.connections.countP Running.unreported = 1) ∧
    ∃ value, s.messagesSent.task.value = some value ∧
      0 + value.toNat + s.messagesSent.channel.queue.length =
        0 + s.connections.countP Running.owing :=
  ⟨_, logging_run, throughputs_exact logging_run (by decide)⟩

end PubSub
