import PubSub.Delivery

/- A run of the broker seen without the subscriptions of the others: their `Subscribe` and
   `Unsubscribe` commands go, with every step these cause, and what is left is a run that
   the chosen connection cannot tell from the first. -/
namespace PubSub
open Channels LabelledRun
variable {ring : Ring} {V B : Type} {encode : Message V → Option B}

def Command.publishes : Command V → Bool
  | .publish _ => true
  | _ => false

namespace Act

def scanning (before : Bool) : Act V B → Bool
  | .subscribe _ => true
  | .finish .subscribe => false
  | _ => before

/-- What is left of a step when its connection never subscribes. A topic that would have been
    joined upon its `Created` event is passed over. -/
def quiet (scanning : Bool) : Act V B → Option (Act V B)
  | .deliver command => if command.publishes then some (.deliver command) else none
  | .takeCommand command => if command.publishes then some (.takeCommand command) else none
  | .skip name => if scanning then none else some (.skip name)
  | .join name => if scanning then none else some (.skip name)
  | .finish .created => some (.finish .created)
  | .dequeue _ | .subscribe _ | .unsubscribe _ _ | .panicked | .listed _ | .attach _
  | .retained _ _ _ | .retainedLost _ | .finish .subscribe | .readItem _ | .streamLagged _
  | .forward _ _ _ | .forwardFailed => none
  | a => some a

def unmatched : Act V B → Act V B
  | .join name => .skip name
  | a => a

def publishes : Act V B → Bool
  | .deliver command | .takeCommand command => command.publishes
  | .startPublish _ _ | .publishFailed | .sending _ | .published => true
  | _ => false

def subscribes : Act V B → Bool
  | .deliver command | .takeCommand command => !command.publishes
  | .subscribe _ | .unsubscribe _ _ => true
  | _ => false

def eventsLag : Act V B → Bool
  | .eventsLagged _ _ => true
  | _ => false

def enqueues : Act V B → Option (Str × B)
  | .retained name _ bytes => some (name, bytes)
  | .forward name _ bytes => some (name, bytes)
  | _ => none

end Act

def scanAfter (scan : Nat → Bool) (l : Label V B) : Nat → Bool :=
  Function.update scan l.1 (l.2.scanning (scan l.1))

def quietLabel (c : Nat) (scan : Nat → Bool) (l : Label V B) : Option (Label V B) :=
  if l.1 = c then some l else (l.2.quiet (scan l.1)).map (Prod.mk l.1)

def withoutOthers (c : Nat) (ls : List (Label V B)) : List (Label V B) :=
  transduce (quietLabel c) scanAfter (fun _ => false) ls

def unmatchedLabel (c : Nat) (l : Label V B) : Label V B :=
  if l.1 = c then l else (l.1, l.2.unmatched)

def enqueuedTo (c : Nat) (ls : List (Label V B)) : List (Str × B) :=
  (ls.filter fun l => l.1 = c).filterMap fun l => l.2.enqueues

/-! A connection and the same one without its subscriptions. -/

def quietReceiver (receiver : Mpsc channelBufferSize (Command V)) :
    Mpsc channelBufferSize (Command V) :=
  { receiver with queue := receiver.queue.filter Command.publishes }

def HandlerPc.quiet : HandlerPc V B → HandlerPc V B
  | .handle (.publish message) => .handle (.publish message)
  | .handle _ | .listing _ | .visit .subscribe _ | .joined .subscribe _ _ _ _
  | .forward _ _ _ => .select true
  | .joined .created names _ _ _ => .visit .created names
  | pc => pc

def HandlerPc.scans : HandlerPc V B → Bool
  | .listing _ | .visit .subscribe _ | .joined .subscribe _ _ _ _ => true
  | _ => false

inductive Quiet (scan : Bool) (h k : ConnectionHandler V B) : Prop where
  | live (receiver : k.adapterReceiver = quietReceiver h.adapterReceiver)
      (events : k.topicEvents = h.topicEvents) (nothing : k.subscriptions = GlobTree.new)
      (silent : k.topicStreams = fun _ => none) (pc : k.pc = h.pc.quiet)
      (scans : scan = h.pc.scans) (enabled : h.pc ≠ .select false)
  | gone (silent : k.topicStreams = fun _ => none) (stopped : h.pc = .stopped)
      (closed : h.adapterReceiver.receiverDropped = true)

inductive QuietConnection (scan : Bool) :
    Option (ConnectionHandler V B) → Option (ConnectionHandler V B) → Prop where
  | absent (idle : scan = false) : QuietConnection scan none none
  | present {h k : ConnectionHandler V B} (quiet : Quiet scan h k) :
      QuietConnection scan (some h) (some k)

/-- The simulation: one bus, one connection `c`, and the others without subscriptions. -/
structure Undisturbed (c : Nat) (scan : Nat → Bool) (s t : Broker ring V B) : Prop where
  bus : t.bus = s.bus
  own : t.connections c = s.connections c
  others : ∀ d, d ≠ c → QuietConnection (scan d) (s.connections d) (t.connections d)

theorem quietReceiver_push (receiver : Mpsc channelBufferSize (Command V)) (command : Command V) :
    quietReceiver (receiver.push command) =
      if command.publishes then (quietReceiver receiver).push command
      else quietReceiver receiver := by
  cases publishes : command.publishes <;>
    simp [quietReceiver, Mpsc.push, List.filter_append, publishes]

theorem quietReceiver_hasRoom {receiver : Mpsc channelBufferSize (Command V)}
    (room : receiver.HasRoom) : (quietReceiver receiver).HasRoom :=
  ⟨room.1, Nat.lt_of_le_of_lt (List.length_filter_le _ _) room.2⟩

theorem quiet_adapter {scan : Bool} {h h' k : ConnectionHandler V B} {a : Act V B}
    (quiet : Quiet scan h k) (step : AdapterStep h a h') :
    ∃ k', Follows AdapterStep k (a.quiet scan) k' ∧ Quiet (a.scanning scan) h' k' := by
  cases quiet with
  | live receiver events nothing silent pc scans enabled =>
    cases step with
    | @deliver command open_ room =>
      have pushed := quietReceiver_push h.adapterReceiver command
      cases publishes : command.publishes with
      | true =>
        simp only [Act.quiet, publishes, if_true] at pushed ⊢
        rw [← receiver] at pushed
        refine ⟨_, .deliver ?_ ?_, .live pushed.symm events nothing silent pc scans enabled⟩
        · rw [receiver]
          exact open_
        · rw [receiver]
          exact quietReceiver_hasRoom room
      | false =>
        simp only [Act.quiet, publishes, Bool.false_eq_true, if_false] at pushed ⊢
        exact ⟨k, rfl, .live (receiver.trans pushed.symm) events nothing silent pc scans enabled⟩
    | hangUp =>
      refine ⟨_, .hangUp, .live ?_ events nothing silent pc scans enabled⟩
      rw [receiver]
      rfl
    | dequeue open_ queue => exact ⟨k, rfl, .live receiver events nothing silent pc scans enabled⟩
    | writerStopped => exact ⟨_, .writerStopped, .live receiver events nothing silent pc scans enabled⟩
  | gone silent stopped closed =>
    cases step with
    | deliver open_ room =>
      rw [room.1] at closed
      cases closed
    | hangUp => exact ⟨_, .hangUp, .gone silent stopped closed⟩
    | dequeue open_ queue => exact ⟨k, rfl, .gone silent stopped closed⟩
    | writerStopped => exact ⟨_, .writerStopped, .gone silent stopped closed⟩

theorem handlerStep_running {bus after : Bus ring B} {h h' : ConnectionHandler V B} {a : Act V B}
    (step : HandlerStep encode bus h a after h') : h.pc ≠ .stopped := by
  intro stopped
  cases step <;> simp_all only [reduceCtorEq]

theorem goto_enabled (h : ConnectionHandler V B) :
    (h.goto (.select true)).pc ≠ .select false := by
  simp [ConnectionHandler.goto]

theorem quiet_handle {command : Command V} (publishes : command.publishes = true) :
    (HandlerPc.handle command : HandlerPc V B).quiet = .handle command := by
  cases command with
  | publish message => rfl
  | _ => cases publishes

theorem quiet_handle_other {command : Command V} (other : command.publishes = false) :
    (HandlerPc.handle command : HandlerPc V B).quiet = .select true := by
  cases command with
  | publish message => cases other
  | _ => rfl

theorem quiet_takeCommand {scan : Bool} {bus : Bus ring B} {h k : ConnectionHandler V B}
    {command : Command V} {rest : List (Command V)}
    (receiver : k.adapterReceiver = quietReceiver h.adapterReceiver)
    (events : k.topicEvents = h.topicEvents) (nothing : k.subscriptions = GlobTree.new)
    (silent : k.topicStreams = fun _ => none) (pc : k.pc = .select true) (scans : scan = false)
    (queue : h.adapterReceiver.queue = command :: rest) :
    ∃ k', Follows (fun k a k' => HandlerStep encode bus k a bus k') k
      (Act.quiet scan (.takeCommand command)) k' ∧
      Quiet scan { h with
        adapterReceiver := { h.adapterReceiver with queue := rest }, pc := .handle command } k' := by
  cases publishes : command.publishes with
  | true =>
    have head : k.adapterReceiver.queue = command :: rest.filter Command.publishes := by
      rw [receiver]
      simp [quietReceiver, queue, publishes]
    simp only [Act.quiet, publishes, if_true]
    refine ⟨_, .takeCommand pc head, .live ?_ events nothing silent (quiet_handle publishes).symm scans
      nofun⟩
    rw [receiver]
    rfl
  | false =>
    have same : k.adapterReceiver = quietReceiver { h.adapterReceiver with queue := rest } := by
      rw [receiver]
      simp [quietReceiver, queue, publishes]
    simp only [Act.quiet, publishes, Bool.false_eq_true, if_false]
    exact ⟨k, rfl, .live same events nothing silent (pc.trans (quiet_handle_other publishes).symm) scans
      nofun⟩

theorem quiet_joined (cause : Cause) (names : List Str) (name : Str) (cursor : Cursor)
    (lastMessage : Option B) :
    (HandlerPc.joined cause names name cursor lastMessage : HandlerPc V B).quiet =
      (HandlerPc.visit cause names).quiet := by
  cases cause <;> rfl

theorem scans_joined (cause : Cause) (names : List Str) (name : Str) (cursor : Cursor)
    (lastMessage : Option B) :
    (HandlerPc.joined cause names name cursor lastMessage : HandlerPc V B).scans =
      (HandlerPc.visit cause names : HandlerPc V B).scans := by
  cases cause <;> rfl

theorem quiet_passed {scan : Bool} {bus : Bus ring B} {h k : ConnectionHandler V B}
    {cause : Cause} {name : Str} {names : List Str} {next : HandlerPc V B} (quiet : Quiet scan h k)
    (at_ : h.pc = .visit cause (name :: names))
    (goes : next.quiet = (HandlerPc.visit cause names).quiet)
    (scanning : next.scans = (HandlerPc.visit cause names : HandlerPc V B).scans)
    (enabled : next ≠ .select false) :
    ∃ k', Follows (fun k a k' => HandlerStep encode bus k a bus k') k
      (Act.quiet scan (.skip name)) k' ∧ Quiet scan (h.goto next) k' := by
  cases quiet with
  | gone silent stopped closed =>
    rw [at_] at stopped
    cases stopped
  | live receiver events nothing silent pc scans =>
    rw [at_] at pc scans
    cases cause with
    | subscribe =>
      subst scans
      exact ⟨k, rfl, .live receiver events nothing silent (pc.trans goes.symm) scanning.symm enabled⟩
    | created =>
      subst scans
      have passed : k.subscriptions.check name = false := by rw [nothing, GlobTree.new_check]
      exact ⟨_, .skip pc (Or.inl passed),
        .live receiver events nothing silent goes.symm scanning.symm enabled⟩

theorem quiet_handler {scan : Bool} {bus after : Bus ring B} {h h' k : ConnectionHandler V B}
    {a : Act V B} (quiet : Quiet scan h k) (onTime : a.eventsLag = false)
    (step : HandlerStep encode bus h a after h') :
    ∃ k', Follows (fun k a k' => HandlerStep encode bus k a after k') k (a.quiet scan) k' ∧
      (a.quiet scan = none → after = bus) ∧ Quiet (a.scanning scan) h' k' := by
  have related := quiet
  cases quiet with
  | gone silent stopped closed => exact absurd stopped (handlerStep_running step)
  | live receiver events nothing silent pc scans enabled =>
    cases step with
    | @takeCommand command rest b at_ queue =>
      rw [at_] at pc scans enabled
      obtain rfl : b = true := by simpa using enabled
      obtain ⟨k', follows, quiet⟩ := quiet_takeCommand receiver events nothing silent pc scans queue
      exact ⟨k', follows, fun _ => rfl, quiet⟩
    | disconnect at_ queue closed =>
      rw [at_] at pc
      have empty : k.adapterReceiver.queue = [] := by
        rw [receiver, quietReceiver, queue]
        rfl
      have done : k.adapterReceiver.senderDropped = true := by
        rw [receiver]
        exact closed
      exact ⟨_, .disconnect pc empty done, fun _ => rfl, .gone silent rfl rfl⟩
    | subscribe at_ =>
      rw [at_] at pc
      exact ⟨k, rfl, fun _ => rfl, .live receiver events nothing silent pc rfl nofun⟩
    | listed at_ lists =>
      rw [at_] at pc scans
      exact ⟨k, rfl, fun _ => rfl, .live receiver events nothing silent pc scans nofun⟩
    | unsubscribe at_ removed =>
      rw [at_] at pc scans
      exact ⟨k, rfl, fun _ => rfl, .live receiver events nothing silent pc scans (goto_enabled _)⟩
    | panicked at_ failed => exact ⟨k, rfl, fun _ => rfl, .gone silent rfl rfl⟩
    | @skip cause name names at_ why =>
      obtain ⟨k', follows, quiet⟩ := quiet_passed related at_ rfl rfl nofun
      exact ⟨k', follows, fun _ => rfl, quiet⟩
    | @join cause name names cursor lastMessage at_ matched unsubscribed found =>
      obtain ⟨k', follows, quiet⟩ := quiet_passed related at_
        (quiet_joined cause names name cursor lastMessage)
        (scans_joined cause names name cursor lastMessage) nofun
      exact ⟨k', follows, fun _ => rfl, quiet⟩
    | attach at_ =>
      rw [at_, quiet_joined] at pc
      rw [at_, scans_joined] at scans
      exact ⟨k, rfl, fun _ => rfl, .live receiver events nothing silent pc scans nofun⟩
    | retained at_ room =>
      rw [at_, quiet_joined] at pc
      rw [at_, scans_joined] at scans
      exact ⟨k, rfl, fun _ => rfl, .live receiver events nothing silent pc scans nofun⟩
    | retainedLost at_ full =>
      rw [at_, quiet_joined] at pc
      rw [at_, scans_joined] at scans
      exact ⟨k, rfl, fun _ => rfl, .live receiver events nothing silent pc scans nofun⟩
    | @finish cause at_ =>
      rw [at_] at pc scans
      cases cause with
      | subscribe =>
        exact ⟨k, rfl, fun _ => rfl, .live receiver events nothing silent pc rfl (goto_enabled _)⟩
      | created =>
        exact ⟨_, .finish pc, fun _ => rfl, .live receiver events nothing silent rfl scans (goto_enabled _)⟩
    | startPublish at_ encoded =>
      rw [at_] at pc scans
      exact ⟨_, .startPublish pc encoded, fun _ => rfl,
        .live receiver events nothing silent rfl scans nofun⟩
    | publishFailed at_ failed =>
      rw [at_] at pc scans
      exact ⟨_, .publishFailed pc failed, fun _ => rfl, .live receiver events nothing silent rfl scans (goto_enabled _)⟩
    | sending at_ running =>
      rw [at_] at pc scans
      exact ⟨_, .sending pc running, nofun, .live receiver events nothing silent rfl scans nofun⟩
    | published at_ =>
      rw [at_] at pc scans
      exact ⟨_, .published pc, fun _ => rfl, .live receiver events nothing silent rfl scans (goto_enabled _)⟩
    | readEvent at_ received =>
      rw [at_] at pc scans
      rw [← events] at received
      exact ⟨_, .readEvent pc received, fun _ => rfl, .live receiver rfl nothing silent rfl scans nofun⟩
    | eventsLagged at_ received => cases onTime
    | @readItem name cursor next data bytes b at_ stream topic received =>
      rw [at_] at pc scans enabled
      obtain rfl : b = true := by simpa using enabled
      exact ⟨k, rfl, fun _ => rfl, .live receiver events nothing silent pc scans nofun⟩
    | @streamLagged name cursor next data b at_ stream topic received =>
      rw [at_] at pc scans enabled
      obtain rfl : b = true := by simpa using enabled
      exact ⟨k, rfl, fun _ => rfl, .live receiver events nothing silent pc scans (goto_enabled _)⟩
    | forward at_ room =>
      rw [at_] at pc scans
      exact ⟨k, rfl, fun _ => rfl, .live receiver events nothing silent pc scans (goto_enabled _)⟩
    | forwardFailed at_ closed => exact ⟨k, rfl, fun _ => rfl, .gone silent rfl rfl⟩

/-! The two brokers side by side. -/

theorem undisturbed_own {c : Nat} {scan : Nat → Bool} {s t : Broker ring V B}
    (related : Undisturbed c scan s t) (a : Act V B) (bus : Bus ring B)
    (h : ConnectionHandler V B) :
    Undisturbed c (scanAfter scan (c, a)) (s.put bus c h) (t.put bus c h) := by
  refine ⟨rfl, by rw [Broker.put_self, Broker.put_self], fun d other => ?_⟩
  rw [Broker.put_ne _ _ _ other, Broker.put_ne _ _ _ other, scanAfter,
    Function.update_of_ne other]
  exact related.others d other

theorem undisturbed_other {c d : Nat} {scan : Nat → Bool} {s t : Broker ring V B}
    (related : Undisturbed c scan s t) (differ : d ≠ c) (a : Act V B) (bus : Bus ring B)
    {h k : ConnectionHandler V B} (quiet : Quiet (a.scanning (scan d)) h k) :
    Undisturbed c (scanAfter scan (d, a)) (s.put bus d h) (t.put bus d k) := by
  refine ⟨rfl, ?_, fun e other => ?_⟩
  · rw [Broker.put_ne _ _ _ (Ne.symm differ), Broker.put_ne _ _ _ (Ne.symm differ), related.own]
  · by_cases same : e = d
    · subst same
      rw [Broker.put_self, Broker.put_self, scanAfter, Function.update_self]
      exact .present quiet
    · rw [Broker.put_ne _ _ _ same, Broker.put_ne _ _ _ same, scanAfter,
        Function.update_of_ne same]
      exact related.others e other

theorem follows_put {t : Broker ring V B} {d : Nat} {bus : Bus ring B}
    {k k' : ConnectionHandler V B} {o : Option (Act V B)}
    {stepped : ConnectionHandler V B → Act V B → ConnectionHandler V B → Prop}
    (found : t.connections d = some k)
    (lifted : ∀ a, stepped k a k' → BrokerStep encode t (d, a) (t.put bus d k'))
    (still : o = none → bus = t.bus) (follows : Follows stepped k o k') :
    Follows (BrokerStep encode) t (o.map (Prod.mk d)) (t.put bus d k') := by
  cases o with
  | none =>
    obtain rfl : k' = k := follows
    rw [still rfl]
    exact put_found found
  | some a => exact lifted a follows

theorem quietLabel_own (c : Nat) (scan : Nat → Bool) (a : Act V B) :
    quietLabel c scan (c, a) = some (c, a) := if_pos rfl

theorem quietLabel_other {c d : Nat} (differ : d ≠ c) (scan : Nat → Bool) (a : Act V B) :
    quietLabel c scan (d, a) = (a.quiet (scan d)).map (Prod.mk d) := if_neg differ

theorem quietConnection_found {scan : Bool} {h : ConnectionHandler V B}
    {o : Option (ConnectionHandler V B)} (quiet : QuietConnection scan (some h) o) :
    ∃ k, o = some k ∧ Quiet scan h k := by
  cases quiet with
  | present quiet => exact ⟨_, rfl, quiet⟩

theorem undisturbed_step {c : Nat} {scan : Nat → Bool} {s t s' : Broker ring V B}
    {l : Label V B} (related : Undisturbed c scan s t) (onTime : l.1 ≠ c → l.2.eventsLag = false)
    (step : BrokerStep encode s l s') :
    ∃ t', Follows (BrokerStep encode) t (quietLabel c scan l) t' ∧
      Undisturbed c (scanAfter scan l) s' t' := by
  cases step with
  | @connect d fresh =>
    by_cases own : d = c
    · subst own
      rw [quietLabel_own, ← related.bus]
      exact ⟨_, .connect (related.own.trans fresh), undisturbed_own related _ _ _⟩
    · have absent := related.others d own
      rw [fresh] at absent
      rw [quietLabel_other own]
      generalize gone : t.connections d = o at absent
      cases absent with
      | absent idle =>
        rw [← related.bus]
        refine ⟨_, .connect gone, undisturbed_other related own _ _ ?_⟩
        exact .live rfl rfl rfl rfl rfl idle (by simp [ConnectionHandler.new])
  | @adapter d h h' a found step =>
    by_cases own : d = c
    · subst own
      rw [quietLabel_own, ← related.bus]
      exact ⟨_, .adapter (related.own.trans found) step, undisturbed_own related _ _ _⟩
    · have there := related.others d own
      rw [found] at there
      obtain ⟨k, found', quiet⟩ := quietConnection_found there
      obtain ⟨k', follows, after⟩ := quiet_adapter quiet step
      rw [quietLabel_other own, ← related.bus]
      exact ⟨_, follows_put found' (fun _ => .adapter found') (fun _ => rfl) follows,
        undisturbed_other related own _ _ after⟩
  | @handler d h h' bus a found step =>
    by_cases own : d = c
    · subst own
      rw [← related.bus] at step
      rw [quietLabel_own]
      exact ⟨_, .handler (related.own.trans found) step, undisturbed_own related _ _ _⟩
    · have there := related.others d own
      rw [found] at there
      obtain ⟨k, found', quiet⟩ := quietConnection_found there
      rw [← related.bus] at step
      obtain ⟨k', follows, still, after⟩ := quiet_handler quiet (onTime own) step
      rw [quietLabel_other own]
      exact ⟨_, follows_put found' (fun _ => .handler found') still follows,
        undisturbed_other related own _ _ after⟩

theorem start_undisturbed (c : Nat) :
    Undisturbed c (fun _ => false) (Broker.new : Broker ring V B) Broker.new :=
  ⟨rfl, rfl, fun _ _ => .absent rfl⟩

theorem run_undisturbed {ls : List (Label V B)} {s : Broker ring V B} (run : BrokerRun encode ls s)
    (c : Nat) (onTime : ∀ l ∈ ls, l.1 ≠ c → l.2.eventsLag = false) :
    ∃ t, BrokerRun encode (withoutOthers c ls) t ∧
      Undisturbed c (ls.foldl scanAfter fun _ => false) s t :=
  run_transduce (Undisturbed c) (fun l : Label V B => l.1 ≠ c → l.2.eventsLag = false)
    (fun _ _ _ _ _ related timely step => undisturbed_step related timely step)
    (start_undisturbed c) run onTime

theorem undisturbed_silent {c : Nat} {scan : Nat → Bool} {s t : Broker ring V B}
    (related : Undisturbed c scan s t) {d : Nat} (differ : d ≠ c) {k : ConnectionHandler V B}
    (found : t.connections d = some k) : k.topicStreams = fun _ => none := by
  have there := related.others d differ
  rw [found] at there
  generalize s.connections d = o at there
  cases there with
  | present quiet =>
    cases quiet with
    | live _ _ _ silent _ _ _ => exact silent
    | gone silent _ _ => exact silent

/-! What is deleted and what is kept. -/

theorem quiet_publishes (scan : Bool) (a : Act V B) :
    (a.quiet scan).toList.filter Act.publishes = [a].filter Act.publishes := by
  cases a with
  | deliver command => cases publishes : command.publishes <;> simp [Act.quiet, Act.publishes, publishes]
  | takeCommand command =>
    cases publishes : command.publishes <;> simp [Act.quiet, Act.publishes, publishes]
  | skip name => cases scan <;> rfl
  | join name => cases scan <;> rfl
  | finish cause => cases cause <;> rfl
  | _ => rfl

theorem quiet_some {scan : Bool} {a b : Act V B} (left : a.quiet scan = some b) :
    b = a.unmatched ∧ b.subscribes = false := by
  cases a with
  | deliver command =>
    cases publishes : command.publishes <;> simp [Act.quiet, publishes] at left
    simp [← left, Act.unmatched, Act.subscribes, publishes]
  | takeCommand command =>
    cases publishes : command.publishes <;> simp [Act.quiet, publishes] at left
    simp [← left, Act.unmatched, Act.subscribes, publishes]
  | skip name => cases scan <;> cases left; exact ⟨rfl, rfl⟩
  | join name => cases scan <;> cases left; exact ⟨rfl, rfl⟩
  | finish cause => cases cause <;> cases left; exact ⟨rfl, rfl⟩
  | _ => cases left <;> exact ⟨rfl, rfl⟩

theorem withoutOthers_own (c : Nat) (ls : List (Label V B)) :
    (withoutOthers c ls).filter (fun l => l.1 = c) = ls.filter fun l => l.1 = c := by
  apply transduce_filter
  rintro scan ⟨d, a⟩
  by_cases own : d = c
  · rw [own, quietLabel_own]
    rfl
  · rw [quietLabel_other own]
    cases a.quiet (scan d) <;> simp [own]

theorem filter_labels (d : Nat) (keep : Act V B → Bool) (o : Option (Act V B)) :
    (o.map (Prod.mk d)).toList.filter (fun l => keep l.2) = (o.toList.filter keep).map (Prod.mk d) := by
  cases o with
  | none => rfl
  | some a => cases kept : keep a <;> simp [kept]

theorem withoutOthers_publishes (c : Nat) (ls : List (Label V B)) :
    (withoutOthers c ls).filter (fun l => l.2.publishes) = ls.filter fun l => l.2.publishes := by
  apply transduce_filter
  rintro scan ⟨d, a⟩
  by_cases own : d = c
  · rw [own, quietLabel_own]
    rfl
  · have kept := quiet_publishes (scan d) a
    rw [quietLabel_other own]
    rw [filter_labels, kept]
    exact (filter_labels d Act.publishes (some a)).symm

theorem withoutOthers_subscribes (c : Nat) (ls : List (Label V B)) :
    ∀ l ∈ withoutOthers c ls, l.1 ≠ c → l.2.subscribes = false := by
  apply transduce_forall
  rintro scan ⟨d, a⟩ m left other
  by_cases own : d = c
  · subst own
    rw [quietLabel_own] at left
    cases left
    exact absurd rfl other
  · rw [quietLabel_other own] at left
    obtain ⟨b, here, rfl⟩ := Option.map_eq_some_iff.mp left
    exact (quiet_some here).2

theorem withoutOthers_sublist (c : Nat) (ls : List (Label V B)) :
    (withoutOthers c ls).Sublist (ls.map (unmatchedLabel c)) := by
  apply transduce_sublist
  rintro scan ⟨d, a⟩ m left
  by_cases own : d = c
  · subst own
    rw [quietLabel_own] at left
    cases left
    exact (if_pos rfl).symm
  · rw [quietLabel_other own] at left
    obtain ⟨b, here, rfl⟩ := Option.map_eq_some_iff.mp left
    rw [(quiet_some here).1]
    exact (if_neg own).symm

/-- Deleting the subscriptions of the others leaves a run with the same bus and the same
    connection `c`, in which nobody else ever has a receiver on any topic. -/
theorem others_do_not_interfere {ls : List (Label V B)} {s : Broker ring V B}
    (run : BrokerRun encode ls s) (c : Nat)
    (onTime : ∀ l ∈ ls, l.1 ≠ c → l.2.eventsLag = false) :
    ((withoutOthers c ls).Sublist (ls.map (unmatchedLabel c)) ∧
      (withoutOthers c ls).filter (fun l => l.1 = c) = ls.filter (fun l => l.1 = c) ∧
      (withoutOthers c ls).filter (fun l => l.2.publishes) = ls.filter (fun l => l.2.publishes) ∧
      ∀ l ∈ withoutOthers c ls, l.1 ≠ c → l.2.subscribes = false) ∧
    ∃ t, BrokerRun encode (withoutOthers c ls) t ∧
      t.bus = s.bus ∧ t.connections c = s.connections c ∧
      enqueuedTo c (withoutOthers c ls) = enqueuedTo c ls ∧ t.bus.Retains ∧
      ∀ d k, d ≠ c → t.connections d = some k → k.topicStreams = fun _ => none := by
  refine ⟨⟨withoutOthers_sublist c ls, withoutOthers_own c ls, withoutOthers_publishes c ls,
    withoutOthers_subscribes c ls⟩, ?_⟩
  obtain ⟨t, ran, related⟩ := run_undisturbed run c onTime
  refine ⟨t, ran, related.bus, related.own, ?_, run_retains ran, ?_⟩
  · rw [enqueuedTo, withoutOthers_own, enqueuedTo]
  · intro d k differ found
    exact undisturbed_silent related differ found

theorem late_client_undisturbed :
    ∃ (ls : List (Label UInt8 (List UInt8))) (t : Broker wideRing UInt8 (List UInt8)),
      BrokerRun packShort (withoutOthers 1 ls) t ∧
      enqueuedTo 1 (withoutOthers 1 ls) = [(['a', 'b'], laterBytes)] ∧
      ∀ k, t.connections 0 = some k → k.topicStreams = fun _ => none := by
  let bus : Bus wideRing (List UInt8) :=
    ((Bus.new.withTopic ['a', 'b'] firstBytes).storeAndBroadcast ['a', 'b'] laterBytes).2
  have first := lone_run (run_append (subscribing_run wideRing firstMessage_packed ['a', 'b'])
    (receiving_run wideRing firstBytes laterMessage_packed rfl ab_matches))
  have known : bus.topics ['a', 'b'] = some ⟨⟨[firstBytes, laterBytes]⟩, some laterBytes⟩ :=
    Bus.storeAndBroadcast_topics_self (Bus.withTopic_topics_self _ rfl _) laterBytes
  have lists : bus.Lists bus.containsKey [['a', 'b']] := by
    have keys : ∀ name, bus.containsKey name = true ↔ name = ['a', 'b'] := by
      intro name
      rw [Bus.storeAndBroadcast_containsKey, Bus.withTopic_containsKey]
      simp [Bus.containsKey, Bus.new]
    exact ⟨by simp, fun name => by simp [keys], fun name => by simp [keys]⟩
  have found : bus.subscribeToTopic ['a', 'b'] = some (2, some laterBytes) := by
    simp [Bus.subscribeToTopic, known, Broadcast.subscribe, TopicData.getLastMessage]
  have matched := (GlobTree.first_insert_check ['a', 'b'] ['a', 'b']).mpr ab_matches
  have second : SoloRun packShort bus (ConnectionHandler.new bus) _ _ _ :=
    run_append (subscribe_run bus Mpsc.new (fun _ => none) _ GlobTree.new ['a', 'b'] lists) <|
    run_append (retained_run bus Mpsc.new (fun _ => none) _ _ .subscribe [] matched rfl found
      ⟨rfl, Nat.zero_lt_succ _⟩) (finish_run bus _ _ _ _ .subscribe)
  have both := run_append (Run.snoc first (.connect (c := 1) rfl))
    (solo_run (Broker.put_self _ _ _ _) second)
  obtain ⟨-, t, run, -, -, same, -, silent⟩ := others_do_not_interfere both 1 (by decide)
  exact ⟨_, t, run, same.trans rfl, fun k => silent 0 k (by decide)⟩

end PubSub
