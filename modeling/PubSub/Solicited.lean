import PubSub.Delivery
import PubSub.TreeMatch

/- Where deliveries come from: every pattern a connection holds was sent by its own
   client, and a stream exists only for topics that one of these patterns matches. -/
namespace PubSub
open Channels LabelledRun
variable {ring : Ring} {V B : Type} {encode : Message V → Option B}

def Sent (ls : List (Label V B)) (c : Nat) (pattern : Str) : Prop :=
  (c, Act.deliver (.subscribe pattern)) ∈ ls

def Solicited (ls : List (Label V B)) (c : Nat) (topic : Str) : Prop :=
  ∃ pattern, Sent ls c pattern ∧ GlobMatch pattern (asBytes topic)

def HandlerPc.InHand (topic : Str) : HandlerPc V B → Prop
  | .joined _ _ name _ _ => name = topic
  | .forward name _ _ => name = topic
  | _ => False

/-- Everything a handler holds goes back to what its client has sent. -/
structure Traced (ls : List (Label V B)) (c : Nat) (h : ConnectionHandler V B) : Prop where
  inbox : ∀ pattern, .subscribe pattern ∈ h.adapterReceiver.queue → Sent ls c pattern
  command : ∀ pattern, h.pc = .handle (.subscribe pattern) → Sent ls c pattern
  tree : ∃ calls, TreeRun calls h.subscriptions ∧
    ∀ pattern, TreeCall.insert pattern ∈ calls → Sent ls c pattern
  streams : ∀ topic, h.topicStreams topic ≠ none → Solicited ls c topic
  inHand : ∀ topic, h.pc.InHand topic → Solicited ls c topic

namespace Traced
variable {ls : List (Label V B)} {c : Nat} {h : ConnectionHandler V B}

theorem later (traced : Traced ls c h) (l : Label V B) : Traced (ls ++ [l]) c h := by
  have kept : ∀ pattern, Sent ls c pattern → Sent (ls ++ [l]) c pattern := by
    intro pattern sent
    exact List.mem_append_left _ sent
  have still : ∀ topic, Solicited ls c topic → Solicited (ls ++ [l]) c topic := by
    rintro topic ⟨pattern, sent, matched⟩
    exact ⟨pattern, kept pattern sent, matched⟩
  obtain ⟨calls, run, inserted⟩ := traced.tree
  constructor
  · exact fun pattern mem => kept pattern (traced.inbox pattern mem)
  · exact fun pattern at_ => kept pattern (traced.command pattern at_)
  · exact ⟨calls, run, fun pattern mem => kept pattern (inserted pattern mem)⟩
  · exact fun topic some => still topic (traced.streams topic some)
  · exact fun topic held => still topic (traced.inHand topic held)

theorem goto (traced : Traced ls c h) {pc : HandlerPc V B}
    (command : ∀ pattern, pc ≠ .handle (.subscribe pattern))
    (free : ∀ topic, ¬ pc.InHand topic) : Traced ls c (h.goto pc) :=
  ⟨traced.inbox, fun pattern at_ => absurd at_ (command pattern), traced.tree, traced.streams,
    fun topic held => absurd held (free topic)⟩

theorem insertStream (traced : Traced ls c h) {name : Str} (allowed : Solicited ls c name)
    (receiver : Cursor) : Traced ls c (h.insertStream name receiver) := by
  refine ⟨traced.inbox, traced.command, traced.tree, ?_, traced.inHand⟩
  intro topic streaming
  by_cases same : topic = name
  · rwa [same]
  · rw [h.insertStream_ne same] at streaming
    exact traced.streams topic streaming

theorem enqueue (traced : Traced ls c h) (bytes : B) : Traced ls c (h.enqueue bytes) :=
  ⟨traced.inbox, traced.command, traced.tree, traced.streams, traced.inHand⟩

theorem stop (traced : Traced ls c h) : Traced ls c h.stop :=
  ⟨traced.inbox, nofun, traced.tree, traced.streams,
    nofun⟩

theorem matched (traced : Traced ls c h) {topic : Str}
    (accepted : h.subscriptions.check topic = true) : Solicited ls c topic := by
  obtain ⟨calls, run, inserted⟩ := traced.tree
  have wf := GlobTree.reachable_wellFormed ⟨calls, run⟩
  obtain ⟨pattern, held, matched⟩ := (GlobTree.check_iff wf topic).mp accepted
  exact ⟨pattern, inserted pattern (GlobTree.held_was_inserted run held), matched⟩

theorem inserted (traced : Traced ls c h) {pattern : Str} (sent : Sent ls c pattern)
    (pc : HandlerPc V B) (command : ∀ pattern, pc ≠ .handle (.subscribe pattern))
    (free : ∀ topic, ¬ pc.InHand topic) :
    Traced ls c { h with subscriptions := h.subscriptions.insert pattern, pc := pc } := by
  refine ⟨traced.inbox, fun pattern at_ => absurd at_ (command pattern), ?_, traced.streams,
    fun topic held => absurd held (free topic)⟩
  obtain ⟨calls, run, inserted⟩ := traced.tree
  refine ⟨calls ++ [.insert pattern], Run.snoc run (.insert _ _), ?_⟩
  intro other mem
  rcases List.mem_append.mp mem with old | new
  · exact inserted other old
  · obtain rfl : other = pattern := by simpa using new
    exact sent

theorem removed (traced : Traced ls c h) {pattern : Str} {result : Except String Unit}
    {tree : GlobTree} (done : h.subscriptions.remove pattern = .ok (result, tree)) :
    Traced ls c (({ h with subscriptions := tree }).removeUnmatched.goto (.select true)) := by
  refine ⟨traced.inbox, nofun, ?_, ?_, nofun⟩
  · obtain ⟨calls, run, inserted⟩ := traced.tree
    refine ⟨calls ++ [.remove pattern], Run.snoc run (.remove done), ?_⟩
    intro other mem
    exact inserted other (by simpa using mem)
  · intro topic streaming
    apply traced.streams topic
    intro missing
    simp [ConnectionHandler.goto, ConnectionHandler.removeUnmatched, missing] at streaming

end Traced

theorem handlerStep_traced {ls : List (Label V B)} {c : Nat} {bus after : Bus ring B}
    {h h' : ConnectionHandler V B} {a : Act V B} (traced : Traced ls c h)
    (step : HandlerStep encode bus h a after h') : Traced ls c h' := by
  cases step with
  | @takeCommand command rest enabled at_ queue =>
    have taken : ∀ pattern, .subscribe pattern ∈ command :: rest → Sent ls c pattern := by
      rw [← queue]
      exact traced.inbox
    refine ⟨?_, ?_, traced.tree, traced.streams, nofun⟩
    · exact fun pattern mem => taken pattern (List.mem_cons_of_mem _ mem)
    · intro pattern same
      obtain rfl := HandlerPc.handle.inj same
      exact taken pattern List.mem_cons_self
  | disconnect at_ queue closed => exact traced.stop
  | subscribe at_ => exact traced.inserted (traced.command _ at_) _ (by simp) (fun _ => id)
  | listed at_ lists => exact traced.goto (by simp) (fun _ => id)
  | unsubscribe at_ removed => exact traced.removed removed
  | panicked at_ failed => exact traced.stop
  | skip at_ why => exact traced.goto (by simp) (fun _ => id)
  | @join cause name names receiver lastMessage at_ matched unsubscribed found =>
    refine ⟨traced.inbox, nofun, traced.tree, traced.streams, ?_⟩
    rintro topic rfl
    exact traced.matched matched
  | attach at_ =>
    have allowed := traced.inHand _ (by rw [at_]; rfl)
    exact (traced.insertStream allowed _).goto (by simp) (fun _ => id)
  | retained at_ room =>
    have allowed := traced.inHand _ (by rw [at_]; rfl)
    exact ((traced.insertStream allowed _).enqueue _).goto (by simp) (fun _ => id)
  | retainedLost at_ full =>
    have allowed := traced.inHand _ (by rw [at_]; rfl)
    exact (traced.insertStream allowed _).goto (by simp) (fun _ => id)
  | finish at_ => exact traced.goto (by simp) (fun _ => id)
  | startPublish at_ encoded => exact traced.goto (by simp) (fun _ => id)
  | publishFailed at_ failed => exact traced.goto (by simp) (fun _ => id)
  | sending at_ running => exact traced.goto (by simp) (fun _ => id)
  | published at_ => exact traced.goto (by simp) (fun _ => id)
  | @readEvent name next at_ received =>
    exact ⟨traced.inbox, nofun, traced.tree, traced.streams,
      nofun⟩
  | eventsLagged at_ received =>
    exact ⟨traced.inbox, nofun, traced.tree, traced.streams,
      nofun⟩
  | @readItem name cursor next data bytes enabled at_ stream topic received =>
    have allowed := traced.streams name (by simp [stream])
    refine ⟨traced.inbox, nofun, traced.tree,
      (traced.insertStream allowed next).streams, ?_⟩
    rintro topic rfl
    exact allowed
  | @streamLagged name cursor next data enabled at_ stream topic received =>
    have allowed := traced.streams name (by simp [stream])
    exact (traced.insertStream allowed next).goto (by simp) (fun _ => id)
  | forward at_ room => exact (traced.enqueue _).goto (by simp) (fun _ => id)
  | forwardFailed at_ closed => exact traced.stop

theorem adapterStep_traced {ls : List (Label V B)} {c : Nat} {h h' : ConnectionHandler V B}
    {a : Act V B} (traced : Traced ls c h) (step : AdapterStep h a h') :
    Traced (ls ++ [(c, a)]) c h' := by
  have later := traced.later (c, a)
  cases step with
  | @deliver command open_ room =>
    refine ⟨?_, later.command, later.tree, later.streams, later.inHand⟩
    intro pattern mem
    rcases List.mem_append.mp mem with old | new
    · exact later.inbox pattern old
    · obtain rfl := List.mem_singleton.mp new
      exact List.mem_append_right _ (List.mem_singleton.mpr rfl)
  | hangUp => exact ⟨later.inbox, later.command, later.tree, later.streams, later.inHand⟩
  | dequeue open_ queue =>
    exact ⟨later.inbox, later.command, later.tree, later.streams, later.inHand⟩
  | writerStopped => exact ⟨later.inbox, later.command, later.tree, later.streams, later.inHand⟩

theorem run_traced {ls : List (Label V B)} {s : Broker ring V B} (run : BrokerRun encode ls s)
    {c : Nat} {h : ConnectionHandler V B} (found : s.connections c = some h) : Traced ls c h := by
  apply run_connection (fun ls _ h => Traced ls c h) _ _ _ _ run found
  · intro ls s before
    refine ⟨?_, ?_, ⟨[], Run.nil _, ?_⟩, ?_, ?_⟩
    · intro pattern mem
      cases mem
    · intro pattern at_
      cases at_
    · intro pattern mem
      cases mem
    · intro topic streaming
      exact absurd rfl streaming
    · intro topic held
      exact held.elim
  · intro ls s h a h' before here traced step
    exact adapterStep_traced traced step
  · intro ls s h a bus h' before here traced step
    exact handlerStep_traced (traced.later _) step
  · intro ls s t h l before here other traced step
    exact traced.later l

/-- Whatever a connection enqueues belongs to a topic that a pattern matches which its own
    client had sent before. -/
theorem deliveries_solicited {before after : List (Label V B)} {s : Broker ring V B} {c : Nat}
    {a : Act V B} (run : BrokerRun encode (before ++ (c, a) :: after) s) {topic : Str}
    {number : Nat} {bytes : B} (enqueues : a.enqueued topic = some (number, bytes)) :
    ∃ pattern, (c, Act.deliver (.subscribe pattern)) ∈ before ∧
      GlobMatch pattern (asBytes topic) := by
  obtain ⟨m, reached, rest⟩ := run_split run
  obtain ⟨n, taken, _⟩ := run_split (show Run _ m ([(c, a)] ++ after) s from rest)
  cases run_one taken with
  | connect fresh => cases enqueues
  | adapter found step => cases step <;> cases enqueues
  | @handler c h h' bus a found step =>
    have traced := run_traced reached found
    cases step with
    | @retained cause name names receiver bytes at_ room =>
      by_cases same : name = topic
      · exact traced.inHand topic (by rw [at_]; exact same)
      · simp [Act.enqueued, same] at enqueues
    | @forward name number bytes at_ room =>
      by_cases same : name = topic
      · exact traced.inHand topic (by rw [at_]; exact same)
      · simp [Act.enqueued, same] at enqueues
    | _ => cases enqueues

theorem retained_solicited : ∃ pattern,
    ((0, Act.deliver (.subscribe pattern)) : Label UInt8 (List UInt8)) ∈ (0, .connect) ::
      (subscribingActs firstMessage firstBytes ['a', 'b'] ++ [Act.join ['a', 'b']]).map (Prod.mk 0) ∧
    GlobMatch pattern (asBytes ['a', 'b']) := by
  have run := lone_run (run_append (subscribing_run wideRing firstMessage_packed ['a', 'b'])
    (receiving_run wideRing firstBytes laterMessage_packed rfl ab_matches))
  have whole : BrokerRun packShort (((0, .connect) :: (subscribingActs firstMessage firstBytes
      ['a', 'b'] ++ [Act.join ['a', 'b']]).map (Prod.mk 0)) ++
      (0, .retained ['a', 'b'] 1 firstBytes) ::
        (receivingActs laterMessage firstBytes laterBytes).tail.map (Prod.mk 0)) _ := run
  exact deliveries_solicited whole rfl

end PubSub
