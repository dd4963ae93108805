import PubSub.Convergence
import PubSub.Quiescence

/- What a client whose session has come to rest has received of a topic: the last message,
   if nothing cut it off on the way, and from the moment it joined all of them. -/
namespace PubSub
open Channels LabelledRun MsgPackCodec
variable {ring : Ring} {V : Type} {format : Format V} {config : BufferConfig}

/-! The log of a topic and the bytes that are stored. -/

theorem log_length {ls : List (SystemLabel V)} {s : System ring V}
    (run : SystemRun format config ls s) (topic : Str) :
    (s.log format topic).length = (s.bus.sent topic).length := by
  have same := congrArg List.length (log_total run topic)
  simpa using same

theorem log_drop {ls : List (SystemLabel V)} {s : System ring V}
    (run : SystemRun format config ls s) (topic : Str) (n : Nat) :
    ((Subscription.numbered (s.bus.sent topic)).drop n).filterMap (fun entry =>
      format.unpack entry.2) = (s.log format topic).drop n := by
  have values : (Subscription.numbered (s.bus.sent topic)).map Prod.snd = s.bus.sent topic := by
    simp [Subscription.numbered, Function.comp_def]
  have read : ((Subscription.numbered (s.bus.sent topic)).drop n).filterMap (fun entry =>
      format.unpack entry.2) = ((s.bus.sent topic).drop n).filterMap format.unpack := by
    rw [← values, ← List.map_drop, List.filterMap_map, values]
    rfl
  rw [read]
  apply (Option.some_injective _).list_map
  rw [filterMap_total fun bytes kept => stored_unpacks run topic bytes (List.mem_of_mem_drop kept),
    List.map_drop, List.map_drop, log_total run topic]

theorem log_last {ls : List (SystemLabel V)} {s : System ring V}
    (run : SystemRun format config ls s) (topic : Str) :
    (s.log format topic).getLast? = (s.bus.sent topic).getLast?.bind format.unpack := by
  rw [List.getLast?_eq_getElem?, List.getLast?_eq_getElem?, log_length run, log_getElem run]

theorem quiet_receivedOn {ls : List (SystemLabel V)} {s : System ring V}
    (run : SystemRun format config ls s) {c : Nat} {k : Session V}
    (found : s.sessions c = some k) (live : k.Live) (quiet : k.Quiet format config s.bus)
    (topic : Str) : receivedOn c topic ls =
      (enqueuedOn c topic (brokerLabels config ls)).filterMap fun entry => format.unpack entry.2 := by
  rw [receivedOn, quiet_received run found live quiet, messagesTo_topic run]

theorem filterMap_getLast {A B : Type} {f : A → Option B} {l : List A} {a : A} {b : B}
    (last : l.getLast? = some a) (read : f a = some b) : (l.filterMap f).getLast? = some b := by
  obtain ⟨front, rfl⟩ := List.getLast?_eq_some_iff.mp last
  rw [List.filterMap_append, List.filterMap_cons_some read]
  exact List.getLast?_concat

theorem waits_caughtUp {bus : Bus ring Bytes} {h : ConnectionHandler V Bytes}
    (at_ : h.pc = .select true) (waits : h.Waits bus) : CaughtUp bus h := by
  unfold ConnectionHandler.Waits at waits
  rw [at_] at waits
  obtain ⟨commands, -, events, items⟩ := waits
  exact ⟨⟨true, at_⟩, commands, Broadcast.recv_of_end (events rfl), fun name cursor data stream known =>
    Broadcast.recv_of_end (items name cursor data stream known)⟩

/-- What the client of a session at rest received last on a topic that its connection matches
    is the last message of the topic, if no step on the way cut the connection off. -/
theorem quiet_client_current {ls : List (SystemLabel V)} {s : System ring V}
    (run : SystemRun format config ls s) {c : Nat} {k : Session V}
    (smooth : SmoothRun format.encode c (brokerLabels config ls) s.broker)
    (found : s.sessions c = some k) (live : k.Live) (quiet : k.Quiet format config s.bus)
    (listening : k.handler.pc ≠ .select false) {topic : Str}
    (matched : k.handler.subscriptions.check topic = true) :
    (receivedOn c topic ls).getLast? = (s.log format topic).getLast? := by
  have whole : BrokerRun format.encode _ s.broker := system_refines_from (Run.nil _) run
  have here := System.broker_found found
  obtain ⟨⟨enabled, at_⟩, -, waits⟩ := quiet_selecting run found live quiet
  obtain rfl : enabled = true := by
    cases enabled with
    | true => rfl
    | false => exact absurd at_ listening
  rw [quiet_receivedOn run found live quiet, log_last run]
  cases last : (s.bus.sent topic).getLast? with
  | none =>
    have empty : s.broker.bus.sent topic = [] := List.getLast?_eq_none_iff.mp last
    have nothing : enqueuedOn c topic (brokerLabels config ls) = [] := by
      apply List.eq_nil_iff_forall_not_mem.mpr
      rintro ⟨number, bytes⟩ member
      have there := (enqueued_stored whole member).2
      rw [empty] at there
      cases there
    rw [nothing]
    rfl
  | some bytes =>
    obtain ⟨message, unpacked⟩ := Option.isSome_iff_exists.mp
      (stored_unpacks run topic bytes (List.mem_of_getLast? last))
    cases known : s.bus.topics topic with
    | none => simp [Bus.sent, known] at last
    | some data =>
      have caughtUp := waits_caughtUp at_ waits
      have streaming := caughtUp_streams smooth here caughtUp matched
        (by simp [Bus.containsKey, System.broker, known]) (fun none => by
          have empty : s.bus.sent topic = [] := none
          simp [empty] at last)
      obtain ⟨cursor, stream⟩ := Option.ne_none_iff_exists'.mp streaming
      have drained : s.broker.Drained c topic :=
        ⟨_, true, cursor, data, here, at_, stream, known,
          caughtUp.items topic cursor data stream known⟩
      rw [filterMap_getLast (drained_last smooth drained last) (b := message) unpacked]
      exact unpacked.symm

/-! From the moment a client joins. -/

section Stay
variable {B : Type} {encode : Message V → Option B} {before stay : List (Label V B)}
  {s joined t : Broker ring V B} {c : Nat} {topic : Str}

theorem stay_window (reached : BrokerRun encode before s)
    (join : BrokerStep encode s (c, .join topic) joined) (run : Run (BrokerStep encode) joined stay t)
    (kept : ∀ a, (c, a) ∈ stay → ¬ a.Removes topic)
    (onTime : (c, Act.streamLagged topic) ∉ stay) (room : (c, Act.retainedLost topic) ∉ stay) :
    Subscription.Exact (s.bus.sent topic).length (enqueuedOn c topic stay) (t.view c topic) := by
  have viewed : Subscription.Step (s.view c topic) .join (joined.view c topic) := by
    simpa [mark, Act.mark] using brokerStep_view ⟨before, reached⟩ join c topic
  have abstract := run_view ⟨_, Run.snoc reached join⟩ run c topic
  have start : joined.view c topic = ⟨s.bus.sent topic,
      .joined (s.bus.sent topic).length (s.bus.sent topic).getLast?⟩ := Subscription.step_join viewed
  rw [start] at abstract
  rw [enqueuedOn_eq]
  exact Subscription.stay_exact abstract (mark_smooth kept onTime room)

theorem joined_known (join : BrokerStep encode s (c, .join topic) joined) :
    joined.bus.containsKey topic = true := by
  cases join with
  | adapter found step => cases step
  | handler found step =>
    cases step with
    | join at_ matched unsubscribed known =>
      unfold Bus.subscribeToTopic at known
      show s.bus.containsKey topic = true
      unfold Bus.containsKey
      cases here : s.bus.topics topic with
      | none => simp [here] at known
      | some data => rfl

end Stay

/-- A client that joins a topic, whose stream is kept from then on and on time, and whose
    retained message found room, has received when its session comes to rest, after what it
    was sent of the topic before, the message that was the last when it joined and every one
    since then, of whatever client, in the order of the log. -/
theorem subscriber_receives_all {first later : List (SystemLabel V)} {s joined t : System ring V}
    {c : Nat} {topic : Str} {k : Session V} (reached : SystemRun format config first s)
    (join : SystemStep format config s (c, .session (.handler (.join topic))) joined)
    (run : Run (SystemStep format config) joined later t)
    (kept : ∀ a, .handler a ∈ sessionEvents c later → ¬ a.Removes topic)
    (onTime : .handler (.streamLagged topic) ∉ sessionEvents c later)
    (room : .handler (.retainedLost topic) ∉ sessionEvents c later)
    (found : t.sessions c = some k) (live : k.Live) (quiet : k.Quiet format config t.bus) :
    receivedOn c topic (first ++ (c, .session (.handler (.join topic))) :: later) =
      (messagesTo format c first).filter (fun message => message.topic = topic) ++
        (t.log format topic).drop ((s.log format topic).length - 1) := by
  have whole : SystemRun format config (first ++ (c, .session (.handler (.join topic))) :: later) t :=
    run_append reached (run_cons join run)
  -- what the broker knows of the stay
  have before : BrokerRun format.encode _ s.broker := system_refines_from (Run.nil _) reached
  have opened : BrokerStep format.encode s.broker (c, .join topic) joined.broker :=
    run_one (system_refines_from reached (run_single join))
  have stay := system_refines_from (Run.snoc reached join) run
  have removes : ∀ a, (c, a) ∈ brokerLabels config later → ¬ a.Removes topic := by
    intro a member gone
    refine kept a (handler_event member ?_) gone
    cases a <;> first | rfl | exact gone.elim
  have punctual : (c, Act.streamLagged topic) ∉ brokerLabels config later :=
    fun member => onTime (handler_event member rfl)
  have roomy : (c, Act.retainedLost topic) ∉ brokerLabels config later :=
    fun member => room (handler_event member rfl)
  have window := stay_window before opened stay removes punctual roomy
  have drained : t.broker.Drained c topic := by
    have here := System.broker_found found
    obtain ⟨⟨enabled, at_⟩, -, waits⟩ := quiet_selecting whole found live quiet
    cases stream : k.handler.topicStreams topic with
    | none =>
      have absent : t.broker.phase c topic = .absent := by
        unfold Broker.phase
        simp only [here]
        exact phase_absent (by simp [HandlerPc.Holds, at_]) stream
      unfold Subscription.Exact Broker.view at window
      simp only [absent] at window
    | some cursor =>
      have present : t.broker.bus.containsKey topic = true :=
        run_invariant (fun s => s.bus.containsKey topic = true) (joined_known opened)
          (fun _ _ _ held step => brokerStep_containsKey step held) stay
      obtain ⟨data, known⟩ := Option.isSome_iff_exists.mp present
      unfold ConnectionHandler.Waits at waits
      rw [at_] at waits
      exact ⟨_, enabled, cursor, data, here, at_, stream, known,
        Broadcast.recv_of_end (waits.2.2.2 topic cursor data stream known)⟩
  have all : enqueuedOn c topic (brokerLabels config later) =
      (Subscription.numbered (t.bus.sent topic)).drop ((s.bus.sent topic).length - 1) := by
    apply Subscription.exact_full
    rwa [Broker.view, drained_phase ⟨_, run_append (Run.snoc before opened) stay⟩ drained] at window
  have split : enqueuedOn c topic (brokerLabels config (first ++
      (c, .session (.handler (.join topic))) :: later)) =
      enqueuedOn c topic (brokerLabels config first) ++
        enqueuedOn c topic (brokerLabels config later) := by
    simp [brokerLabels, enqueuedOn, SystemLabel.labels, SystemEvent.acts, SessionEvent.acts,
      Act.handles, Act.enqueued]
  rw [quiet_receivedOn whole found live quiet, split, all, List.filterMap_append,
    ← messagesTo_topic reached, log_length reached]
  exact congrArg _ (log_drop whole topic _)

def Act.steady {B : Type} : Act V B → Bool
  | .retainedLost _ | .eventsLagged _ _ | .streamLagged _ | .unsubscribe _ _ => false
  | _ => true

def SessionEvent.steady : SessionEvent V → Bool
  | .handler a => a.steady
  | _ => true

def echoActs : List (Act UInt8 Bytes) :=
  (brokerLabels lowLatency (echoSubscribing ++ echoReceiving)).map Prod.snd

theorem echo_smooth {s : Broker wideRing UInt8 Bytes}
    (run : BrokerRun Wire.format.encode (brokerLabels lowLatency (echoSubscribing ++ echoReceiving)) s) :
    SmoothRun Wire.format.encode 0 (brokerLabels lowLatency (echoSubscribing ++ echoReceiving)) s := by
  have alone : brokerLabels lowLatency (echoSubscribing ++ echoReceiving) =
      echoActs.map (Prod.mk 0) := rfl
  rw [alone] at run ⊢
  apply lone_run_smooth run
  have calm : echoActs.all Act.steady = true := rfl
  intro a member risky
  have here := List.all_eq_true.mp calm a member
  cases a <;> first | exact risky | cases here

theorem echo_current : ∃ s : System wideRing UInt8,
    SystemRun Wire.format lowLatency (echoSubscribing ++ echoReceiving) s ∧
    (receivedOn 0 ['a'] (echoSubscribing ++ echoReceiving)).getLast? =
      (s.log Wire.format ['a']).getLast? := by
  have matched : echoSession.handler.subscriptions.check ['a'] = true :=
    (GlobTree.first_insert_check _ _).mpr (.literal ⟨by decide, by decide⟩ rfl .done)
  exact ⟨_, echo_run wideRing, quiet_client_current (echo_run wideRing)
    (echo_smooth (system_refines_from (Run.nil _) (echo_run wideRing))) (System.put_self _ _ _ _) echo_live
    (echo_quiet wideRing) (by simp [echoSession, echoed, echoing, joinedHandler, resting]) matched⟩

theorem echo_receives_all : ∃ s t : System wideRing UInt8,
    SystemRun Wire.format lowLatency echoSubscribing s ∧
    receivedOn 0 ['a'] (echoSubscribing ++ echoReceiving) =
      (messagesTo Wire.format 0 echoSubscribing).filter (fun message => message.topic = ['a']) ++
        (t.log Wire.format ['a']).drop ((s.log Wire.format ['a']).length - 1) := by
  have opening : echoReceiving = (0, .session (.handler (.join ['a']))) :: echoReceiving.tail := rfl
  have receiving : Run (SystemStep Wire.format lowLatency) _ echoReceiving _ :=
    echo_returning wideRing
  rw [opening] at receiving
  obtain ⟨joined, join, later⟩ := run_uncons receiving
  have acts : (sessionEvents 0 echoReceiving.tail).all SessionEvent.steady = true := rfl
  have calm := List.all_eq_true.mp acts
  refine ⟨_, _, echo_subscribing wideRing (by decide), subscriber_receives_all (echo_subscribing wideRing (by decide)) join
    later ?_ ?_ ?_ (System.put_self _ _ _ _) echo_live (echo_quiet wideRing)⟩
  · intro a member removes
    have here := calm _ member
    cases a <;> first | exact removes | cases here
  · exact fun member => by cases calm _ member
  · exact fun member => by cases calm _ member

end PubSub
