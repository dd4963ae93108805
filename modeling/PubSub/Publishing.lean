import PubSub.Delivery
import PubSub.Interleaving

/- What becomes of the messages that clients publish: the log of a topic is an interleaving
   of what the connections published on it, each in its own order and each message once.
   What is missing from the log is still in the connection's queue or in its handler. -/
namespace PubSub
open Channels LabelledRun Interleaving
variable {ring : Ring} {V B : Type} {encode : Message V → Option B}

def Command.publishedOn (encode : Message V → Option B) (topic : Str) : Command V → Option B
  | .publish message => if message.topic = topic then encode message else none
  | _ => none

def Act.publishedOn (encode : Message V → Option B) (topic : Str) : Act V B → Option B
  | .deliver command => command.publishedOn encode topic
  | _ => none

def publishedBy (encode : Message V → Option B) (c : Nat) (topic : Str)
    (ls : List (Label V B)) : List B :=
  ls.filterMap fun l => if l.1 = c then l.2.publishedOn encode topic else none

def HandlerPc.unsent (encode : Message V → Option B) (topic : Str) : HandlerPc V B → List B
  | .handle command => (command.publishedOn encode topic).toList
  | .publishing _ _ (.done _) => []
  | .publishing name bytes _ => if name = topic then [bytes] else []
  | _ => []

def ConnectionHandler.unsent (encode : Message V → Option B) (topic : Str)
    (h : ConnectionHandler V B) : List B :=
  h.pc.unsent encode topic ++
    h.adapterReceiver.queue.filterMap (Command.publishedOn encode topic)

def Broker.unsent (encode : Message V → Option B) (topic : Str) (s : Broker ring V B)
    (c : Nat) : List B :=
  (s.connections c).elim [] (ConnectionHandler.unsent encode topic)

def HandlerPc.Ready (bus : Bus ring B) : HandlerPc V B → Prop
  | .publishing name _ .store => bus.containsKey name = true
  | .publishing name _ (.creating (.announce _)) => bus.containsKey name = true
  | .publishing name _ (.creating (.done _)) => bus.containsKey name = true
  | _ => True

theorem ready_grows {bus after : Bus ring B} {pc : HandlerPc V B} (ready : pc.Ready bus)
    (grown : ∀ name, bus.containsKey name = true → after.containsKey name = true) :
    pc.Ready after := by
  unfold HandlerPc.Ready at ready ⊢
  split <;> first | exact grown _ ready | trivial

theorem sendStep_ready (bus : Bus ring B) (name : Str) (bytes : B) (pc : SendPc)
    (ready : (HandlerPc.publishing name bytes pc : HandlerPc V B).Ready bus) :
    (HandlerPc.publishing name bytes (bus.sendStep name bytes pc).2 : HandlerPc V B).Ready
      (bus.sendStep name bytes pc).1 := by
  cases pc with
  | start =>
    cases present : bus.containsKey name <;> simp [Bus.sendStep, HandlerPc.Ready, present]
  | creating pc =>
    cases pc with
    | start =>
      cases present : bus.containsKey name <;>
        simp [Bus.sendStep, Bus.createStep, HandlerPc.Ready, present]
    | insert =>
      simp [Bus.sendStep, Bus.createStep, HandlerPc.Ready, Bus.insertTopic_containsKey]
    | announce inserted => exact ready
    | done created => exact ready
  | store => trivial
  | done result => trivial

theorem handlerStep_ready {bus after : Bus ring B} {h h' : ConnectionHandler V B} {a : Act V B}
    (ready : h.pc.Ready bus) (step : HandlerStep encode bus h a after h') :
    h'.pc.Ready after := by
  cases step with
  | @sending name bytes pc at_ running =>
    rw [at_] at ready
    exact sendStep_ready bus name bytes pc ready
  | _ => trivial

theorem run_ready {ls : List (Label V B)} {s : Broker ring V B} (run : BrokerRun encode ls s)
    {c : Nat} {h : ConnectionHandler V B} (found : s.connections c = some h) :
    h.pc.Ready s.bus := by
  apply run_connection (fun _ bus h => h.pc.Ready bus) _ _ _ _ run found
  · intro ls s before
    trivial
  · intro ls s h a h' before here ih step
    rw [(adapterStep_pc step).1]
    exact ih
  · intro ls s h a bus h' before here ih step
    exact handlerStep_ready ih step
  · intro ls s t h l before here other ih step
    exact ready_grows ih fun name present => brokerStep_containsKey step present

/-! What one step does to the messages on their way. -/

theorem adapterStep_unsent {h h' : ConnectionHandler V B} {a : Act V B} (step : AdapterStep h a h')
    (topic : Str) :
    h'.unsent encode topic = h.unsent encode topic ++ (a.publishedOn encode topic).toList := by
  cases step with
  | @deliver command open_ room =>
    simp only [ConnectionHandler.unsent, Mpsc.push, List.append_assoc]
    rw [filterMap_snoc]
    rfl
  | _ => exact (List.append_nil _).symm

theorem sendStep_unsent (encode : Message V → Option B) {bus : Bus ring B} {name : Str} {bytes : B} {pc : SendPc}
    (running : ∀ result, pc ≠ .done result)
    (ready : (HandlerPc.publishing name bytes pc : HandlerPc V B).Ready bus) (topic : Str) :
    ((HandlerPc.publishing name bytes (bus.sendStep name bytes pc).2 : HandlerPc V B).unsent
        encode topic = (HandlerPc.publishing name bytes pc : HandlerPc V B).unsent encode topic ∧
      (bus.sendStep name bytes pc).1.sent topic = bus.sent topic) ∨
    (name = topic ∧ (HandlerPc.publishing name bytes pc : HandlerPc V B).unsent encode topic =
        bytes :: (HandlerPc.publishing name bytes (bus.sendStep name bytes pc).2 :
          HandlerPc V B).unsent encode topic ∧
      (bus.sendStep name bytes pc).1.sent topic = bus.sent topic ++ [bytes]) := by
  have effect := Bus.effect_sent (bus.sendStep_effect name bytes pc) topic
  cases pc with
  | done result => exact absurd rfl (running result)
  | start =>
    refine Or.inl ⟨?_, rfl⟩
    cases present : bus.containsKey name <;> simp [Bus.sendStep, HandlerPc.unsent, present]
  | creating pc =>
    rcases effect with same | ⟨now, -, -⟩
    · refine Or.inl ⟨?_, same⟩
      cases pc <;> rfl
    · cases now
  | store =>
    obtain ⟨data, found⟩ := Option.isSome_iff_exists.mp (show (bus.topics name).isSome from ready)
    by_cases same : name = topic
    · subst same
      refine Or.inr ⟨rfl, ?_, ?_⟩
      · simp [HandlerPc.unsent, Bus.sendStep]
      · simp only [Bus.sendStep, Bus.sent, Bus.storeAndBroadcast_topics_self found, found]
        rfl
    · refine Or.inl ⟨?_, ?_⟩
      · simp [HandlerPc.unsent, Bus.sendStep, same]
      · simp only [Bus.sendStep, Bus.sent, Bus.storeAndBroadcast_topics_ne bus (Ne.symm same)]

theorem handlerStep_unsent {bus after : Bus ring B} {h h' : ConnectionHandler V B} {a : Act V B}
    (ready : h.pc.Ready bus) (step : HandlerStep encode bus h a after h') (topic : Str) :
    (h'.unsent encode topic = h.unsent encode topic ∧ after.sent topic = bus.sent topic) ∨
      ∃ bytes, h.unsent encode topic = bytes :: h'.unsent encode topic ∧
        after.sent topic = bus.sent topic ++ [bytes] := by
  cases step with
  | @sending name bytes pc at_ running =>
    rw [at_] at ready
    rcases sendStep_unsent encode running ready topic with ⟨same, quiet⟩ | ⟨rfl, first, appended⟩
    · refine Or.inl ⟨?_, quiet⟩
      simp only [ConnectionHandler.unsent, ConnectionHandler.goto, at_, same]
    · refine Or.inr ⟨bytes, ?_, appended⟩
      simp only [ConnectionHandler.unsent, ConnectionHandler.goto, at_, first, List.cons_append]
  | takeCommand at_ queue =>
    refine Or.inl ⟨?_, rfl⟩
    simp [ConnectionHandler.unsent, HandlerPc.unsent, at_, queue, List.filterMap_cons]
    split <;> simp_all
  | startPublish at_ encoded =>
    refine Or.inl ⟨?_, rfl⟩
    simp only [ConnectionHandler.unsent, ConnectionHandler.goto, HandlerPc.unsent, at_,
      Command.publishedOn, encoded]
    split <;> rfl
  | publishFailed at_ failed =>
    refine Or.inl ⟨?_, rfl⟩
    simp [ConnectionHandler.unsent, ConnectionHandler.goto, HandlerPc.unsent, at_,
      Command.publishedOn, failed]
  | _ =>
    refine Or.inl ⟨?_, rfl⟩
    simp_all [ConnectionHandler.unsent, ConnectionHandler.goto, ConnectionHandler.stop,
      ConnectionHandler.insertStream, ConnectionHandler.enqueue,
      ConnectionHandler.removeUnmatched, HandlerPc.unsent, Command.publishedOn]

theorem handlerStep_publishedOn {bus after : Bus ring B} {h h' : ConnectionHandler V B}
    {a : Act V B} (step : HandlerStep encode bus h a after h') (topic : Str) :
    a.publishedOn encode topic = none := by
  cases step <;> rfl

theorem unsent_found {s : Broker ring V B} {c : Nat} {h : ConnectionHandler V B}
    (found : s.connections c = some h) (topic : Str) :
    s.unsent encode topic c = h.unsent encode topic := by
  simp [Broker.unsent, found]

theorem unsent_self (s : Broker ring V B) (bus : Bus ring B) (c : Nat) (h : ConnectionHandler V B)
    (topic : Str) : (s.put bus c h).unsent encode topic c = h.unsent encode topic :=
  unsent_found (s.put_self bus c h) topic

theorem unsent_others {s t : Broker ring V B} {l : Label V B} (step : BrokerStep encode s l t)
    {c : Nat} (other : c ≠ l.1) (topic : Str) : t.unsent encode topic c = s.unsent encode topic c := by
  unfold Broker.unsent
  rw [brokerStep_others step other]

theorem brokerStep_unsent {ls : List (Label V B)} {s t : Broker ring V B} {l : Label V B}
    (run : BrokerRun encode ls s) (step : BrokerStep encode s l t) (topic : Str) :
    (t.bus.sent topic = s.bus.sent topic ∧ t.unsent encode topic l.1 =
      s.unsent encode topic l.1 ++ (l.2.publishedOn encode topic).toList) ∨
    ∃ bytes, t.bus.sent topic = s.bus.sent topic ++ [bytes] ∧
      l.2.publishedOn encode topic = none ∧
      s.unsent encode topic l.1 = bytes :: t.unsent encode topic l.1 := by
  cases step with
  | connect fresh =>
    refine Or.inl ⟨rfl, ?_⟩
    rw [unsent_self]
    simp [Broker.unsent, fresh, Act.publishedOn, ConnectionHandler.unsent, ConnectionHandler.new,
      HandlerPc.unsent, Mpsc.new]
  | adapter found step =>
    refine Or.inl ⟨rfl, ?_⟩
    rw [unsent_self, unsent_found found, adapterStep_unsent step topic]
  | handler found step =>
    rw [unsent_self, unsent_found found, handlerStep_publishedOn step topic]
    rcases handlerStep_unsent (run_ready run found) step topic with ⟨same, quiet⟩ | stored
    · exact Or.inl ⟨quiet, by rw [same, Option.toList_none, List.append_nil]⟩
    · obtain ⟨bytes, first, appended⟩ := stored
      exact Or.inr ⟨bytes, appended, rfl, first⟩

theorem publishedBy_snoc (c : Nat) (topic : Str) (ls : List (Label V B)) (l : Label V B) :
    publishedBy encode c topic (ls ++ [l]) = publishedBy encode c topic ls ++
      (if l.1 = c then l.2.publishedOn encode topic else none).toList :=
  filterMap_snoc _ ls l

/-- The log of a topic interleaves what the connections published on it, but for what is still
    to be stored. -/
def Balanced (encode : Message V → Option B) (topic : Str) (ls : List (Label V B))
    (s : Broker ring V B) : Prop :=
  ∃ streams : Nat → List B, Interleaves streams (s.bus.sent topic) ∧
    ∀ c, publishedBy encode c topic ls = streams c ++ s.unsent encode topic c

theorem brokerStep_balanced {ls : List (Label V B)} {s t : Broker ring V B} {l : Label V B}
    {topic : Str} (before : BrokerRun encode ls s) (balanced : Balanced encode topic ls s)
    (step : BrokerStep encode s l t) : Balanced encode topic (ls ++ [l]) t := by
  obtain ⟨streams, interleaves, balance⟩ := balanced
  rcases brokerStep_unsent before step topic with ⟨same, queued⟩ | ⟨bytes, stored, silent, first⟩
  · refine ⟨streams, by rw [same]; exact interleaves, fun c => ?_⟩
    rw [publishedBy_snoc, balance c]
    by_cases own : l.1 = c
    · subst own
      rw [if_pos rfl, queued, List.append_assoc]
    · rw [if_neg own, unsent_others step (Ne.symm own), Option.toList_none, List.append_nil]
  · refine ⟨Function.update streams l.1 (streams l.1 ++ [bytes]), ?_, fun c => ?_⟩
    · rw [stored]
      exact interleaves_snoc interleaves (Function.update_self _ _ _)
        fun j other => Function.update_of_ne other _ _
    · rw [publishedBy_snoc, balance c]
      by_cases own : l.1 = c
      · subst own
        rw [if_pos rfl, silent, first, Function.update_self]
        simp
      · rw [if_neg own, unsent_others step (Ne.symm own), Function.update_of_ne (Ne.symm own),
          Option.toList_none, List.append_nil]

theorem run_balanced {ls : List (Label V B)} {s : Broker ring V B} (run : BrokerRun encode ls s)
    (topic : Str) : Balanced encode topic ls s := by
  refine run_history (Balanced encode topic) ?_ ?_ run
  · exact ⟨fun _ => [], interleaves_nil, fun c => rfl⟩
  · exact fun ls s l t before balanced step => brokerStep_balanced before balanced step

/-- Every message published is in the log of its topic once, in the order in which its own
    client published it, unless it is still on its way; and the log holds nothing else. -/
theorem published_interleaved {ls : List (Label V B)} {s : Broker ring V B}
    (run : BrokerRun encode ls s) (topic : Str) :
    ∃ streams : Nat → List B, Interleaves streams (s.bus.sent topic) ∧
      ∀ c, publishedBy encode c topic ls = streams c ++ s.unsent encode topic c :=
  run_balanced run topic

theorem two_publishers_interleaved : ∃ s : Broker wideRing UInt8 (List UInt8),
    BrokerRun packShort ((0, .connect) :: (publishNewActs firstMessage firstBytes).map (Prod.mk 0) ++
      (1, .connect) :: (publishActs laterMessage laterBytes).map (Prod.mk 1)) s ∧
    ∃ streams : Nat → List (List UInt8), Interleaves streams (s.bus.sent ['a', 'b']) ∧
      [firstBytes] = streams 0 ∧ [laterBytes] = streams 1 := by
  have first := lone_run (publish_new_run (Bus.new : Bus wideRing _) Mpsc.new (fun _ => none) 0
    GlobTree.new firstMessage_packed rfl)
  generalize opened : (Bus.new : Bus wideRing (List UInt8)).withTopic firstMessage.topic firstBytes = bus
    at first
  have present : bus.containsKey laterMessage.topic = true := by
    rw [← opened]
    exact (Bus.withTopic_containsKey _ _ _ _).mpr (Or.inl rfl)
  let alone : Broker wideRing UInt8 (List UInt8) :=
    Broker.new.put bus 0 (resting Mpsc.new (fun _ => none) 0 GlobTree.new)
  have connected : BrokerStep packShort alone (1, .connect) _ := .connect rfl
  have second := solo_run (alone.put_self bus 1 (ConnectionHandler.new bus))
    (publish_run bus Mpsc.new (fun _ => none) bus.subscribeToTopicEvents GlobTree.new
      laterMessage_packed present)
  have run : BrokerRun packShort _ _ := run_append first (run_cons connected second)
  obtain ⟨streams, interleaves, balance⟩ := published_interleaved run ['a', 'b']
  exact ⟨_, run, streams, interleaves, (balance 0).trans (List.append_nil _),
    (balance 1).trans (List.append_nil _)⟩

end PubSub
