import PubSub.Publishing
import PubSub.Solicited
import PubSub.System

/- What one client's calls are to another: from `publish` at the one, through two streams of
   bytes and five tasks, to `recv` at the other. -/
namespace PubSub
open Channels LabelledRun Interleaving MsgPackCodec
variable {ring : Ring} {V : Type} {format : Format V} {config : BufferConfig}

/-! What the parties of a session have done. -/

def calledBy (c : Nat) (ls : List (SystemLabel V)) : List (Command V) :=
  ((sessionEvents c ls).filterMap SessionEvent.ofClient).filterMap ClientEvent.called

def receivedBy (c : Nat) (ls : List (SystemLabel V)) : List (Message V) :=
  (((sessionEvents c ls).filterMap SessionEvent.ofClient).filterMap
    ClientEvent.inboxed).filterMap InboxEvent.received

def decodedFrom (c : Nat) (ls : List (SystemLabel V)) : List (Command V) :=
  ((sessionEvents c ls).filterMap SessionEvent.inboxed).filterMap InboxEvent.put

def handledFrom (c : Nat) (ls : List (SystemLabel V)) : List (Command V) :=
  ((sessionEvents c ls).filterMap SessionEvent.inboxed).filterMap InboxEvent.received

def outgoingTo (c : Nat) (ls : List (SystemLabel V)) : List Bytes :=
  (sessionEvents c ls).filterMap SessionEvent.outgoing

def Command.publishedMessage (format : Format V) (topic : Str) : Command V → Option (Message V)
  | .publish message =>
    if message.topic = topic ∧ (format.encode message).isSome then some message else none
  | _ => none

def System.log (format : Format V) (s : System ring V) (topic : Str) : List (Message V) :=
  (s.bus.sent topic).filterMap format.unpack

/-! From a client to its handler. -/

theorem commands_arrive {es : List (SessionEvent V)} {k : Session V}
    (kept : k.Kept format config es) : ∃ stream,
      encodeAll format.packCommand ((es.filterMap SessionEvent.ofClient).filterMap
        ClientEvent.written) [] = (.ok (), stream) ∧
      arrivedIn (framings (es.filterMap SessionEvent.inboxed)) <+: stream := by
  obtain ⟨stream, sent, handed⟩ := client_stream (client_kept kept.client)
  refine ⟨stream, sent, ?_⟩
  rw [← kept.commands]
  exact kept.upstream.trans handed

theorem decoded_called {ls : List (SystemLabel V)} {s : System ring V}
    (run : SystemRun format config ls s) (c : Nat) : decodedFrom c ls <+: calledBy c ls := by
  rcases system_session run c with ⟨-, nothing⟩ | ⟨k, found, -⟩
  · unfold decodedFrom
    rw [nothing]
    exact List.nil_prefix
  · have kept := system_kept run found
    obtain ⟨stream, sent, within⟩ := commands_arrive kept
    have delivered := inbox_begins format.commands sent kept.server within
    rw [← (run_kept kept.server).order] at delivered
    exact delivered.trans (written_called (client_kept kept.client))

theorem handled_called {ls : List (SystemLabel V)} {s : System ring V}
    (run : SystemRun format config ls s) (c : Nat) : handledFrom c ls <+: calledBy c ls := by
  refine List.IsPrefix.trans ?_ (decoded_called run c)
  rcases system_session run c with ⟨-, nothing⟩ | ⟨k, found, -⟩
  · unfold handledFrom
    rw [nothing]
    exact List.nil_prefix
  · unfold decodedFrom
    rw [(run_kept (system_kept run found).server).order]
    exact List.prefix_append _ _

/-! The broker's history of a connection and the events of its session. -/

/-- What a function that passes over the first steps of a connection reads off the history of
    the broker, it reads off the events of the session. -/
theorem brokerLabels_filterMap {M : Type} {f : Act V Bytes → Option M} (connect : f .connect = none)
    (stopped : f .writerStopped = none) (c : Nat) (ls : List (SystemLabel V)) :
    (brokerLabels config ls).filterMap (fun l => if l.1 = c then f l.2 else none) =
      (sessionEvents c ls).flatMap fun e => e.acts.filterMap f := by
  induction ls with
  | nil => rfl
  | cons l ls ih =>
    obtain ⟨d, e⟩ := l
    have first : (SystemLabel.labels config (d, e)).filterMap
        (fun l => if l.1 = c then f l.2 else none) =
        (SystemLabel.event c (d, e)).toList.flatMap fun e => e.acts.filterMap f := by
      unfold SystemLabel.labels SystemLabel.event
      rw [List.filterMap_map]
      by_cases own : d = c
      · cases e with
        | connect =>
          unfold SystemEvent.acts
          split_ifs <;> simp [own, connect, stopped]
        | session e => simp [own, SystemEvent.acts]
      · cases e <;> simp [own]
    have more : sessionEvents c ((d, e) :: ls) =
        (SystemLabel.event c (d, e)).toList ++ sessionEvents c ls := by
      unfold sessionEvents
      rw [List.filterMap_cons]
      cases SystemLabel.event c (d, e) <;> rfl
    rw [brokerLabels, List.flatMap_cons, List.filterMap_append, ← brokerLabels, ih, first, more,
      List.flatMap_append]

theorem published_decoded (c : Nat) (topic : Str) (ls : List (SystemLabel V)) :
    publishedBy format.encode c topic (brokerLabels config ls) =
      (decodedFrom c ls).filterMap (Command.publishedOn format.encode topic) := by
  unfold publishedBy decodedFrom
  rw [brokerLabels_filterMap rfl rfl, List.filterMap_filterMap, List.filterMap_filterMap,
    List.filterMap_eq_flatMap_toList]
  apply List.flatMap_congr
  intro e _
  cases e with
  | client e => rfl
  | readTask e =>
    cases e with
    | sent command =>
      show [Act.deliver command].filterMap _ = _
      rw [List.filterMap_cons]
      cases here : command.publishedOn format.encode topic <;>
        simp [SessionEvent.inboxed, InboxEvent.put, ReadTaskEvent.put, Act.publishedOn, here]
    | _ => rfl
  | writeLoop e => cases e <;> rfl
  | handler a => cases a <;> rfl

theorem stored_called {ls : List (SystemLabel V)} {s : System ring V}
    (run : SystemRun format config ls s) {topic : Str} {bytes : Bytes}
    (stored : bytes ∈ s.bus.sent topic) :
    ∃ d message, .publish message ∈ calledBy d ls ∧ message.topic = topic ∧
      format.packMessage message = .ok bytes := by
  obtain ⟨streams, interleaves, balance⟩ := run_balanced (system_refines_from (Run.nil _) run) topic
  obtain ⟨d, member⟩ := interleaves_mem interleaves stored
  have published : bytes ∈ publishedBy format.encode d topic (brokerLabels config ls) := by
    rw [balance d]
    exact List.mem_append_left _ member
  rw [published_decoded] at published
  obtain ⟨command, decoded, publishes⟩ := List.mem_filterMap.mp published
  cases command with
  | publish message =>
    simp only [Command.publishedOn] at publishes
    split_ifs at publishes with same
    exact ⟨d, message, (decoded_called run d).subset decoded, same, Format.encode_iff.mp publishes⟩
  | _ => cases publishes

def SessionEvent.enqueued (topic : Str) : SessionEvent V → Option (Nat × Bytes)
  | .handler a => a.enqueued topic
  | _ => none

theorem enqueued_stored {B : Type} {encode : Message V → Option B} {ls : List (Label V B)}
    {s : Broker ring V B} (run : BrokerRun encode ls s) {c : Nat} {topic : Str} {number : Nat}
    {bytes : B} (member : (number, bytes) ∈ enqueuedOn c topic ls) :
    0 < number ∧ (s.bus.sent topic)[number - 1]? = some bytes := by
  have abstract := run_view ⟨[], Run.nil _⟩ run c topic
  have start : Subscription.Consistent ((Broker.new : Broker ring V B).view c topic) := trivial
  rw [enqueuedOn_eq] at member
  exact Subscription.delivered_entries start abstract member

theorem enqueued_ordered {B : Type} {encode : Message V → Option B} {ls : List (Label V B)}
    {s : Broker ring V B} (run : BrokerRun encode ls s) (c : Nat) (topic : Str) :
    ((enqueuedOn c topic ls).map Prod.fst).Pairwise (· ≤ ·) ∧
      ((∀ a, (c, a) ∈ ls → ¬ a.Removes topic) →
        ((enqueuedOn c topic ls).map Prod.fst).Pairwise (· < ·)) := by
  have abstract := run_view ⟨[], Run.nil _⟩ run c topic
  have start : Subscription.Consistent ((Broker.new : Broker ring V B).view c topic) := trivial
  rw [enqueuedOn_eq]
  refine ⟨(Subscription.numbers_monotone start abstract).1, fun kept => ?_⟩
  refine (Subscription.numbers_strict abstract fun mk member left => ?_).1
  obtain ⟨⟨d, a⟩, here, rfl⟩ := List.mem_map.mp member
  obtain ⟨rfl, removes⟩ := mark_leaves left
  exact kept a here removes

theorem enqueued_events (c : Nat) (topic : Str) (ls : List (SystemLabel V)) :
    enqueuedOn c topic (brokerLabels config ls) =
      (sessionEvents c ls).filterMap (SessionEvent.enqueued topic) := by
  unfold enqueuedOn
  rw [brokerLabels_filterMap rfl rfl, List.filterMap_eq_flatMap_toList]
  apply List.flatMap_congr
  intro e _
  cases e with
  | client e => rfl
  | readTask e => cases e <;> rfl
  | writeLoop e => cases e <;> rfl
  | handler a =>
    cases a with
    | retained name number bytes =>
      simp only [SessionEvent.acts, Act.handles, SessionEvent.enqueued, Act.enqueued, ↓reduceIte]
      split_ifs with same <;> simp [Act.enqueued, same]
    | forward name number bytes =>
      simp only [SessionEvent.acts, Act.handles, SessionEvent.enqueued, Act.enqueued, ↓reduceIte]
      split_ifs with same <;> simp [Act.enqueued, same]
    | _ => rfl

/-! From a handler to its client. -/

theorem enqueued_of_outgoing {e : SessionEvent V} {bytes : Bytes} (out : e.outgoing = some bytes) :
    ∃ name number, e.enqueued name = some (number, bytes) ∧
      ∀ topic, topic ≠ name → e.enqueued topic = none := by
  cases e with
  | handler a =>
    cases a with
    | retained name number bytes' =>
      obtain rfl : bytes' = bytes := by simpa [SessionEvent.outgoing, Act.enqueues] using out
      exact ⟨name, number, if_pos rfl, fun topic other => if_neg (Ne.symm other)⟩
    | forward name number bytes' =>
      obtain rfl : bytes' = bytes := by simpa [SessionEvent.outgoing, Act.enqueues] using out
      exact ⟨name, number, if_pos rfl, fun topic other => if_neg (Ne.symm other)⟩
    | _ => cases out
  | _ => cases out

theorem outgoing_called {ls : List (SystemLabel V)} {s : System ring V}
    (run : SystemRun format config ls s) {c : Nat} {e : SessionEvent V}
    (member : e ∈ sessionEvents c ls) {topic : Str} {number : Nat} {bytes : Bytes}
    (enqueued : e.enqueued topic = some (number, bytes)) :
    ∃ d message, .publish message ∈ calledBy d ls ∧ message.topic = topic ∧
      format.packMessage message = .ok bytes := by
  have known : (number, bytes) ∈ enqueuedOn c topic (brokerLabels config ls) := by
    rw [enqueued_events]
    exact List.mem_filterMap.mpr ⟨e, member, enqueued⟩
  have stored := enqueued_stored (system_refines_from (Run.nil _) run) known
  exact stored_called run (List.mem_of_getElem? stored.2)

theorem sentAs_unpacked {frames : List Bytes}
    (packed : ∀ bytes ∈ frames, ∃ message, format.packMessage message = .ok bytes) :
    SentAs format.packMessage (frames.filterMap format.unpack) frames := by
  induction frames with
  | nil => exact List.Forall₂.nil
  | cons bytes frames ih =>
    obtain ⟨message, here⟩ := packed bytes List.mem_cons_self
    rw [List.filterMap_cons_some (Format.unpack_packed here)]
    exact List.Forall₂.cons here (ih fun other member => packed other (List.mem_cons_of_mem _ member))

theorem messages_arrive {es : List (SessionEvent V)} {k : Session V}
    (kept : k.Kept format config es) :
    arrivedIn (framings ((es.filterMap SessionEvent.ofClient).filterMap ClientEvent.inboxed)) <+:
      (es.filterMap SessionEvent.outgoing).flatten := by
  obtain ⟨content, order⟩ := run_written kept.loop
  have handed : k.bufWriter.socket <+: (es.filterMap SessionEvent.outgoing).flatten := by
    rw [← kept.outgoing, order, List.flatten_append, ← content]
    exact (List.prefix_append _ _).trans (List.prefix_append _ _)
  have arrived : framings ((es.filterMap SessionEvent.ofClient).filterMap ClientEvent.inboxed) =
      (es.filterMap SessionEvent.ofClient).filterMap ClientEvent.framing :=
    List.filterMap_filterMap
  rw [arrived, ← kept.messages]
  exact kept.downstream.trans handed

def messagesTo (format : Format V) (c : Nat) (ls : List (SystemLabel V)) : List (Message V) :=
  (outgoingTo c ls).filterMap format.unpack

theorem messagesTo_sent {ls : List (SystemLabel V)} {s : System ring V}
    (run : SystemRun format config ls s) (c : Nat) :
    SentAs format.packMessage (messagesTo format c ls) (outgoingTo c ls) := by
  apply sentAs_unpacked
  intro bytes member
  obtain ⟨e, here, out⟩ := List.mem_filterMap.mp member
  obtain ⟨name, number, enqueued, -⟩ := enqueued_of_outgoing out
  obtain ⟨d, message, -, -, packed⟩ := outgoing_called run here enqueued
  exact ⟨message, packed⟩

theorem messagesTo_stream {ls : List (SystemLabel V)} {s : System ring V}
    (run : SystemRun format config ls s) (c : Nat) :
    encodeAll format.packMessage (messagesTo format c ls) [] =
      (.ok (), (outgoingTo c ls).flatten) :=
  (encodeAll_iff _ _ _ _).mpr ⟨_, messagesTo_sent run c, rfl⟩

theorem messagesTo_topic {ls : List (SystemLabel V)} {s : System ring V}
    (run : SystemRun format config ls s) (c : Nat) (topic : Str) :
    (messagesTo format c ls).filter (fun message => message.topic = topic) =
      (enqueuedOn c topic (brokerLabels config ls)).filterMap fun entry => format.unpack entry.2 := by
  rw [enqueued_events]
  unfold messagesTo outgoingTo
  rw [List.filterMap_filterMap, List.filterMap_filterMap, List.filter_filterMap]
  apply List.filterMap_congr
  intro e member
  cases out : e.outgoing with
  | none =>
    have nothing : e.enqueued topic = none := by
      cases e with
      | handler a => cases a <;> first | rfl | cases out
      | _ => rfl
    rw [nothing]
    rfl
  | some bytes =>
    obtain ⟨name, number, enqueued, others⟩ := enqueued_of_outgoing out
    obtain ⟨d, message, -, rfl, packed⟩ := outgoing_called run member enqueued
    have unpacked := Format.unpack_packed packed
    by_cases same : topic = message.topic
    · subst same
      rw [enqueued]
      simp [unpacked]
    · rw [others topic same]
      simp [unpacked, Ne.symm same]

theorem received_sent {ls : List (SystemLabel V)} {s : System ring V}
    (run : SystemRun format config ls s) (c : Nat) :
    receivedBy c ls <+: messagesTo format c ls := by
  rcases system_session run c with ⟨-, nothing⟩ | ⟨k, found, -⟩
  · unfold receivedBy
    rw [nothing]
    exact List.nil_prefix
  · have kept := system_kept run found
    have delivered := inbox_begins format.messages (messagesTo_stream run c)
      (client_kept kept.client).inbox (messages_arrive kept)
    exact (List.prefix_append _ _).trans delivered

/-! What a client has received. -/

theorem mem_brokerLabels {ls : List (SystemLabel V)} {c : Nat} {a : Act V Bytes}
    (member : (c, a) ∈ brokerLabels config ls) :
    (∃ e ∈ sessionEvents c ls, a ∈ e.acts) ∨ a = .connect ∨ a = .writerStopped := by
  obtain ⟨⟨d, e⟩, here, label⟩ := List.mem_flatMap.mp member
  obtain ⟨a', acts, same⟩ := List.mem_map.mp label
  obtain ⟨rfl, rfl⟩ := Prod.mk.inj same
  cases e with
  | connect =>
    unfold SystemEvent.acts at acts
    refine Or.inr ?_
    split_ifs at acts
    · simpa using acts
    · exact Or.inl (List.mem_singleton.mp acts)
  | session e => exact Or.inl ⟨e, List.mem_filterMap.mpr ⟨_, here, if_pos rfl⟩, acts⟩

theorem delivered_decoded {ls : List (SystemLabel V)} {c : Nat} {command : Command V}
    (member : (c, Act.deliver command) ∈ brokerLabels config ls) : command ∈ decodedFrom c ls := by
  rcases mem_brokerLabels member with ⟨e, here, acts⟩ | other | other
  · refine List.mem_filterMap.mpr ⟨.task (.sent command), ?_, rfl⟩
    refine List.mem_filterMap.mpr ⟨e, here, ?_⟩
    cases e with
    | client e => cases acts
    | readTask e =>
      cases e with
      | sent other =>
        obtain rfl : command = other := by simpa [SessionEvent.acts] using acts
        rfl
      | _ => simp [SessionEvent.acts] at acts
    | writeLoop e => cases e <;> simp [SessionEvent.acts, LoopEvent.acts] at acts
    | handler a => cases a <;> simp [SessionEvent.acts, Act.handles] at acts
  · cases other
  · cases other

theorem handler_event {ls : List (SystemLabel V)} {c : Nat} {a : Act V Bytes}
    (member : (c, a) ∈ brokerLabels config ls) (handles : a.handles = true) :
    .handler a ∈ sessionEvents c ls := by
  rcases mem_brokerLabels member with ⟨e, here, acts⟩ | rfl | rfl
  · cases e with
    | client e => cases acts
    | readTask e =>
      cases e <;> simp [SessionEvent.acts] at acts <;> subst acts <;> cases handles
    | writeLoop e =>
      cases e <;> simp [SessionEvent.acts, LoopEvent.acts] at acts
      all_goals rcases acts with rfl | rfl <;> cases handles
    | handler b =>
      simp only [SessionEvent.acts] at acts
      split_ifs at acts
      · obtain rfl := List.mem_singleton.mp acts
        exact here
      · cases acts
  · cases handles
  · cases handles

theorem event_handler {ls : List (SystemLabel V)} {c : Nat} {a : Act V Bytes}
    (event : .handler a ∈ sessionEvents c ls) (handles : a.handles = true) :
    (c, a) ∈ brokerLabels config ls := by
  obtain ⟨⟨d, e⟩, here, own⟩ := List.mem_filterMap.mp event
  refine List.mem_flatMap.mpr ⟨(d, e), here, ?_⟩
  unfold SystemLabel.event at own
  cases e with
  | connect => cases own
  | session e =>
    simp only at own
    split_ifs at own with same
    obtain rfl := Option.some.inj own
    refine List.mem_map.mpr ⟨a, ?_, by rw [same]⟩
    show a ∈ if a.handles then [a] else []
    rw [if_pos handles]
    exact List.mem_singleton.mpr rfl

theorem run_handling {B : Type} {encode : Message V → Option B} {ls : List (Label V B)}
    {s : Broker ring V B} (run : BrokerRun encode ls s) {c : Nat} {h : ConnectionHandler V B}
    (found : s.connections c = some h) :
    ∀ command, h.pc = .handle command → (c, Act.takeCommand command) ∈ ls := by
  apply run_connection (fun ls _ h => ∀ command, h.pc = .handle command →
    (c, Act.takeCommand command) ∈ ls) _ _ _ _ run found
  · intro ls s before command at_
    cases at_
  · intro ls s h a h' before here ih step command at_
    rw [(adapterStep_pc step).1] at at_
    exact List.mem_append_left _ (ih command at_)
  · intro ls s h a bus h' before here ih step command at_
    cases step with
    | takeCommand here queue =>
      obtain rfl := HandlerPc.handle.inj at_
      simp
    | _ => simp [ConnectionHandler.goto, ConnectionHandler.stop] at at_
  · intro ls s t h l before here other ih step command at_
    exact List.mem_append_left _ (ih command at_)

theorem unsubscribe_taken {B : Type} {encode : Message V → Option B} {ls : List (Label V B)}
    {s : Broker ring V B} (run : BrokerRun encode ls s) {c : Nat} {pattern : Str}
    {removed : Str → Bool} (member : (c, Act.unsubscribe pattern removed) ∈ ls) :
    (c, Act.takeCommand (.unsubscribe pattern)) ∈ ls := by
  obtain ⟨before, after, rfl⟩ := List.append_of_mem member
  obtain ⟨m, reached, rest⟩ := run_split run
  obtain ⟨n, taken, -⟩ := run_uncons rest
  cases taken with
  | adapter found step => cases step
  | handler found step =>
    cases step with
    | unsubscribe at_ removed =>
      exact List.mem_append_left _ (run_handling reached found _ at_)

theorem removal_called {ls : List (SystemLabel V)} {s : System ring V}
    (run : SystemRun format config ls s) {c : Nat} {topic : Str} {a : Act V Bytes}
    (member : (c, a) ∈ brokerLabels config ls) (removes : a.Removes topic) :
    ∃ pattern, .unsubscribe pattern ∈ calledBy c ls := by
  cases a with
  | unsubscribe pattern removed =>
    have taken := unsubscribe_taken (system_refines_from (Run.nil _) run) member
    have event := handler_event taken rfl
    have handled : .unsubscribe pattern ∈ handledFrom c ls :=
      List.mem_filterMap.mpr ⟨_, List.mem_filterMap.mpr ⟨_, event, rfl⟩, rfl⟩
    exact ⟨pattern, (handled_called run c).subset handled⟩
  | _ => exact removes.elim

def receivedOn (c : Nat) (topic : Str) (ls : List (SystemLabel V)) : List (Message V) :=
  (receivedBy c ls).filter fun message => message.topic = topic

theorem filterMap_sublist_map {A B : Type} {f : A → Option B} {g : A → B}
    (keeps : ∀ a b, f a = some b → b = g a) (l : List A) : (l.filterMap f).Sublist (l.map g) := by
  induction l with
  | nil => exact List.Sublist.refl _
  | cons a l ih =>
    cases here : f a with
    | none =>
      rw [List.filterMap_cons_none here]
      exact ih.cons _
    | some b =>
      rw [List.filterMap_cons_some here, keeps a b here]
      exact ih.cons_cons _

theorem filterMap_total {A B : Type} {f : A → Option B} {l : List A}
    (total : ∀ a ∈ l, (f a).isSome) : (l.filterMap f).map some = l.map f := by
  induction l with
  | nil => rfl
  | cons a l ih =>
    obtain ⟨b, here⟩ := Option.isSome_iff_exists.mp (total a List.mem_cons_self)
    rw [List.filterMap_cons_some here, List.map_cons, List.map_cons, here,
      ih fun other member => total other (List.mem_cons_of_mem _ member)]

theorem stored_unpacks {ls : List (SystemLabel V)} {s : System ring V}
    (run : SystemRun format config ls s) (topic : Str) :
    ∀ bytes ∈ s.bus.sent topic, (format.unpack bytes).isSome := by
  intro bytes stored
  obtain ⟨d, message, -, -, packed⟩ := stored_called run stored
  rw [Format.unpack_packed packed]
  rfl

theorem log_total {ls : List (SystemLabel V)} {s : System ring V}
    (run : SystemRun format config ls s) (topic : Str) :
    (s.log format topic).map some = (s.bus.sent topic).map format.unpack :=
  filterMap_total (stored_unpacks run topic)

theorem log_getElem {ls : List (SystemLabel V)} {s : System ring V}
    (run : SystemRun format config ls s) (topic : Str) (i : Nat) :
    (s.log format topic)[i]? = (s.bus.sent topic)[i]?.bind format.unpack := by
  have same := congrArg (fun l => l[i]?) (log_total run topic)
  simp only [List.getElem?_map] at same
  generalize (s.log format topic)[i]? = logged at same ⊢
  generalize (s.bus.sent topic)[i]? = stored at same ⊢
  cases logged <;> cases stored <;> simp_all

theorem published_read (c : Nat) (topic : Str) (ls : List (SystemLabel V)) :
    (publishedBy format.encode c topic (brokerLabels config ls)).filterMap format.unpack =
      (decodedFrom c ls).filterMap (Command.publishedMessage format topic) := by
  rw [published_decoded, List.filterMap_filterMap]
  apply List.filterMap_congr
  intro command _
  cases command with
  | publish message =>
    simp only [Command.publishedOn, Command.publishedMessage]
    by_cases same : message.topic = topic
    · cases encoded : format.encode message with
      | none => simp [same]
      | some bytes => simp [same, Format.unpack_packed (Format.encode_iff.mp encoded)]
    · simp [same]
  | _ => rfl

/-- Each client's part of the log of a topic begins what it called for, and is what the server
    has decoded of that but for what is still to be stored. -/
theorem log_interleaves {ls : List (SystemLabel V)} {s : System ring V}
    (run : SystemRun format config ls s) (topic : Str) :
    ∃ streams : Nat → List (Message V), Interleaves streams (s.log format topic) ∧
      ∀ d, streams d <+: (calledBy d ls).filterMap (Command.publishedMessage format topic) ∧
        (decodedFrom d ls).filterMap (Command.publishedMessage format topic) =
          streams d ++ (s.broker.unsent format.encode topic d).filterMap format.unpack := by
  obtain ⟨streams, interleaves, balance⟩ := run_balanced (system_refines_from (Run.nil _) run) topic
  refine ⟨_, interleaves_filterMap interleaves format.unpack, fun d => ?_⟩
  have read : (publishedBy format.encode d topic (brokerLabels config ls)).filterMap format.unpack =
      _ := published_read d topic ls
  rw [balance d, List.filterMap_append] at read
  have begun := (decoded_called run d).filterMap (Command.publishedMessage format topic)
  rw [← read] at begun
  exact ⟨(List.prefix_append _ _).trans begun, read.symm⟩

/-- The messages of a topic that a client receives stand in the log of the topic, in which
    every client's own are in the order in which it published them; they never step back
    there, and none comes twice to a client that never unsubscribes. -/
theorem received_in_order {ls : List (SystemLabel V)} {s : System ring V}
    (run : SystemRun format config ls s) (c : Nat) (topic : Str) :
    (∃ streams : Nat → List (Message V), Interleaves streams (s.log format topic) ∧
      ∀ d, streams d <+: (calledBy d ls).filterMap (Command.publishedMessage format topic)) ∧
    ∃ numbered : List (Nat × Message V), numbered.map Prod.snd = receivedOn c topic ls ∧
      (∀ entry ∈ numbered, 0 < entry.1 ∧ (s.log format topic)[entry.1 - 1]? = some entry.2) ∧
      (numbered.map Prod.fst).Pairwise (· ≤ ·) ∧
      ((∀ pattern, .unsubscribe pattern ∉ calledBy c ls) →
        (numbered.map Prod.fst).Pairwise (· < ·)) := by
  refine ⟨?_, ?_⟩
  · obtain ⟨streams, interleaves, begun⟩ := log_interleaves run topic
    exact ⟨streams, interleaves, fun d => (begun d).1⟩
  have whole : BrokerRun format.encode _ s.broker := system_refines_from (Run.nil _) run
  obtain ⟨monotone, once⟩ := enqueued_ordered whole c topic
  have stored := @enqueued_stored _ _ _ _ _ _ whole c topic
  generalize enqueued : enqueuedOn c topic (brokerLabels config ls) = entries at stored monotone once
  -- the entries that are received, read as messages
  let numbered := (entries.filterMap fun entry => (format.unpack entry.2).map (Prod.mk entry.1)).take
    (receivedOn c topic ls).length
  have numbers : (numbered.map Prod.fst).Sublist (entries.map Prod.fst) := by
    rw [List.map_take, List.map_filterMap]
    refine (List.take_sublist _ _).trans (filterMap_sublist_map ?_ entries)
    rintro ⟨number, bytes⟩ number' same
    cases unpacked : format.unpack bytes <;> simp_all
  have messages : (entries.filterMap fun entry => (format.unpack entry.2).map (Prod.mk entry.1)).map
      Prod.snd = entries.filterMap fun entry => format.unpack entry.2 := by
    rw [List.map_filterMap]
    simp [Function.comp_def]
  refine ⟨numbered, ?_, ?_, monotone.sublist numbers, ?_⟩
  · rw [List.map_take, messages, ← enqueued, ← messagesTo_topic run]
    exact (List.prefix_iff_eq_take.mp ((received_sent run c).filter _)).symm
  · intro entry member
    obtain ⟨⟨number, bytes⟩, here, read⟩ := List.mem_filterMap.mp (List.mem_of_mem_take member)
    obtain ⟨message, unpacked, rfl⟩ := Option.map_eq_some_iff.mp read
    obtain ⟨positive, found⟩ := stored here
    refine ⟨positive, ?_⟩
    rw [log_getElem run]
    exact (congrArg (Option.bind · format.unpack) found).trans unpacked
  · intro never
    refine (once fun a member removes => ?_).sublist numbers
    obtain ⟨pattern, called⟩ := removal_called run member removes
    exact never pattern called

theorem echo_in_order : ∃ s : System wideRing UInt8,
    SystemRun Wire.format lowLatency (echoSubscribing ++ echoReceiving) s ∧
    ∃ numbered : List (Nat × Message UInt8), numbered.map Prod.snd = [echoMessage] ∧
      ∀ entry ∈ numbered, (s.log Wire.format ['a'])[entry.1 - 1]? = some entry.2 := by
  obtain ⟨-, numbered, same, stored, -⟩ := received_in_order (echo_run wideRing) 0 ['a']
  have received : receivedOn 0 ['a'] (echoSubscribing ++ echoReceiving) = [echoMessage] := by rfl
  exact ⟨_, echo_run wideRing, numbered, same.trans received, fun entry member => (stored entry member).2⟩

theorem enqueued_asked {B : Type} {encode : Message V → Option B} {ls : List (Label V B)}
    {s t : Broker ring V B} (reached : BrokerRun encode ls s) {c : Nat} {a : Act V B}
    (step : BrokerStep encode s (c, a) t) {topic : Str} {number : Nat} {bytes : B}
    (enqueues : a.enqueued topic = some (number, bytes)) :
    ∃ pattern, (c, Act.deliver (.subscribe pattern)) ∈ ls ∧ GlobMatch pattern (asBytes topic) := by
  cases step with
  | connect fresh => cases enqueues
  | adapter found step => cases step <;> cases enqueues
  | handler found step =>
    have traced := run_traced reached found
    have mine : ∀ {name : Str} {m : Nat} {b : B},
        (if name = topic then some (m, b) else none) = some (number, bytes) → name = topic := by
      intro name m b same
      by_contra other
      rw [if_neg other] at same
      cases same
    cases step with
    | retained at_ room => exact traced.inHand topic (by rw [at_]; exact mine enqueues)
    | forward at_ room => exact traced.inHand topic (by rw [at_]; exact mine enqueues)
    | _ => cases enqueues

/-- Whatever a client receives, some client has published, and it has itself subscribed to a
    pattern that the topic matches. -/
theorem received_called_for {ls : List (SystemLabel V)} {s : System ring V}
    (run : SystemRun format config ls s) {c : Nat} {message : Message V}
    (received : message ∈ receivedBy c ls) :
    (∃ d, .publish message ∈ calledBy d ls) ∧
      ∃ pattern, .subscribe pattern ∈ calledBy c ls ∧ GlobMatch pattern (asBytes message.topic) := by
  obtain ⟨bytes, out, unpacked⟩ := List.mem_filterMap.mp ((received_sent run c).subset received)
  obtain ⟨e, here, outgoing⟩ := List.mem_filterMap.mp out
  obtain ⟨name, number, enqueued, -⟩ := enqueued_of_outgoing outgoing
  obtain ⟨d, message', called, rfl, packed⟩ := outgoing_called run here enqueued
  obtain rfl : message' = message :=
    Option.some.inj ((Format.unpack_packed packed).symm.trans unpacked)
  refine ⟨⟨d, called⟩, ?_⟩
  cases e with
  | handler a =>
    have member : (c, a) ∈ brokerLabels config ls := by
      apply event_handler here
      cases a <;> first | rfl | cases outgoing
    obtain ⟨before, after, split⟩ := List.append_of_mem member
    have whole : BrokerRun format.encode _ s.broker := system_refines_from (Run.nil _) run
    rw [split] at whole
    obtain ⟨m, reached, rest⟩ := run_split whole
    obtain ⟨n, taken, -⟩ := run_uncons rest
    obtain ⟨pattern, sent, matched⟩ := enqueued_asked reached taken enqueued
    have delivered : (c, Act.deliver (.subscribe pattern)) ∈ brokerLabels config ls := by
      rw [split]
      exact List.mem_append_left _ sent
    exact ⟨pattern, (decoded_called run c).subset (delivered_decoded delivered), matched⟩
  | _ => cases enqueued

theorem echo_called_for :
    (∃ d, .publish echoMessage ∈ calledBy d (echoSubscribing ++ echoReceiving)) ∧
    ∃ pattern, .subscribe pattern ∈ calledBy 0 (echoSubscribing ++ echoReceiving) ∧
      GlobMatch pattern (asBytes echoMessage.topic) := by
  have received : receivedBy 0 (echoSubscribing ++ echoReceiving) = [echoMessage] := by rfl
  exact received_called_for (echo_run wideRing) (received ▸ List.mem_singleton.mpr rfl)

end PubSub
