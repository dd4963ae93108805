import Mathlib.Data.List.Induction
import Mathlib.Data.List.Perm.Basic
import PubSub.Bus
import PubSub.LabelledRun

/- Any number of calls on one bus at once, one access to the map or one broadcast at a
   time: how often a topic comes to be created. -/
namespace PubSub
open LabelledRun Channels

variable {ring : Ring} {B : Type}

inductive BusCall (B : Type) where
  | createTopic (name : Str) (pc : CreatePc)
  | send (name : Str) (message : B) (pc : SendPc)

inductive CallEvent where
  | accessed
  | inserted (fresh : Bool)
  | announced
  | created (answer : Bool)
  deriving DecidableEq

namespace CallEvent

def inserts : CallEvent → Bool
  | .inserted _ => true
  | _ => false

def returnsTrue : CallEvent → Bool
  | .created true => true
  | _ => false

end CallEvent

namespace CreatePc

def owesEvent : CreatePc → Bool
  | .announce _ => true
  | _ => false

def owesReturn : CreatePc → Bool
  | .announce _ => true
  | .done answer => answer
  | _ => false

end CreatePc

def creationEvent (bus : Bus ring B) (name : Str) : Option CreatePc → CallEvent
  | some .insert => .inserted (!bus.containsKey name)
  | some (.announce _) => .announced
  | some (.done answer) => .created answer
  | _ => .accessed

namespace BusCall

def name : BusCall B → Str
  | .createTopic name _ => name
  | .send name _ _ => name

def Starts : BusCall B → Prop
  | .createTopic _ pc => pc = .start
  | .send _ _ pc => pc = .start

def creating : BusCall B → Option CreatePc
  | .createTopic _ pc => some pc
  | .send _ _ (.creating pc) => some pc
  | .send _ _ _ => none

def advance (bus : Bus ring B) : BusCall B → Bus ring B × Option (BusCall B)
  | .createTopic _ (.done _) => (bus, none)
  | .createTopic name pc =>
    let (bus, pc) := bus.createStep name pc
    (bus, some (.createTopic name pc))
  | .send _ _ (.done _) => (bus, none)
  | .send name message pc =>
    let (bus, pc) := bus.sendStep name message pc
    (bus, some (.send name message pc))

def event (bus : Bus ring B) (call : BusCall B) : CallEvent :=
  creationEvent bus call.name call.creating

def owes (owed : CreatePc → Bool) (call : BusCall B) : Bool := call.creating.elim false owed

end BusCall

structure CallState (ring : Ring) (B : Type) where
  bus : Bus ring B
  calls : Nat → Option (BusCall B)

structure CallLabel where
  caller : Nat
  name : Str
  event : CallEvent
  deriving DecidableEq

inductive CallStep : CallState ring B → CallLabel → CallState ring B → Prop where
  | call {s : CallState ring B} {i : Nat} {call : BusCall B} (idle : s.calls i = none)
      (starts : call.Starts) :
      CallStep s ⟨i, call.name, .accessed⟩ ⟨s.bus, Function.update s.calls i (some call)⟩
  | advance {s : CallState ring B} {i : Nat} {call : BusCall B} (active : s.calls i = some call) :
      CallStep s ⟨i, call.name, call.event s.bus⟩
        ⟨(call.advance s.bus).1, Function.update s.calls i (call.advance s.bus).2⟩

namespace CallState

def start : CallState ring B := ⟨Bus.new, fun _ => none⟩

def owing (owed : CreatePc → Bool) (name : Str) (s : CallState ring B) (i : Nat) : Nat :=
  match s.calls i with
  | some call => if call.name = name then (call.owes owed).toNat else 0
  | none => 0

/-- Every call that inserted the topic has returned from `create_topic`. -/
def Settled (s : CallState ring B) (name : Str) : Prop :=
  ∀ i call, s.calls i = some call → call.name = name → call.owes CreatePc.owesReturn = false

end CallState

def callersOf (kind : CallEvent → Bool) (name : Str) (ls : List CallLabel) : List Nat :=
  (ls.filter fun l => l.name = name ∧ kind l.event = true).map CallLabel.caller

def insertions (name : Str) (ls : List CallLabel) : List Nat :=
  callersOf CallEvent.inserts name ls

def freshInsertions (name : Str) (ls : List CallLabel) : List Nat :=
  callersOf (· = .inserted true) name ls

def announcements (name : Str) (ls : List CallLabel) : List Nat :=
  callersOf (· = .announced) name ls

def trueReturns (name : Str) (ls : List CallLabel) : List Nat :=
  callersOf CallEvent.returnsTrue name ls

def createdEvents (name : Str) (s : CallState ring B) : Nat :=
  s.bus.events.count (.created name)

/-- No insertion of the topic found it in the map already. -/
def AlwaysFresh (name : Str) (ls : List CallLabel) : Prop :=
  ∀ l ∈ ls, l.name = name → l.event ≠ .inserted false

def CreatedOnce (name : Str) (ls : List CallLabel) (s : CallState ring B) : Prop :=
  (trueReturns name ls).length = 1 ∧ createdEvents name s = 1

theorem callersOf_snoc (kind : CallEvent → Bool) (name : Str) (ls : List CallLabel)
    (l : CallLabel) : callersOf kind name (ls ++ [l]) =
      callersOf kind name ls ++ if l.name = name ∧ kind l.event = true then [l.caller] else [] := by
  by_cases seen : l.name = name ∧ kind l.event = true <;>
    simp [callersOf, List.filter_append, seen]

theorem count_callersOf_snoc (kind : CallEvent → Bool) (name : Str) (ls : List CallLabel)
    (l : CallLabel) (i : Nat) : (callersOf kind name (ls ++ [l])).count i =
      (callersOf kind name ls).count i +
        if l.name = name ∧ l.caller = i then (kind l.event).toNat else 0 := by
  rw [callersOf_snoc, List.count_append]
  by_cases same : l.name = name <;> by_cases caller : l.caller = i <;>
    cases kind l.event <;> simp [same, caller]

theorem length_callersOf_snoc (kind : CallEvent → Bool) (name : Str) (ls : List CallLabel)
    (l : CallLabel) : (callersOf kind name (ls ++ [l])).length =
      (callersOf kind name ls).length + if l.name = name then (kind l.event).toNat else 0 := by
  rw [callersOf_snoc, List.length_append]
  by_cases same : l.name = name <;> cases kind l.event <;> simp [same]

/-! What one step of a call does. -/

inductive Progress (bus : Bus ring B) (name : Str) :
    Option CreatePc → Bus ring B → Option CreatePc → Prop where
  | look {pc next : Option CreatePc} {after : Bus ring B} (early : pc = none ∨ pc = some .start)
      (later : next = none ∨ next = some .start ∨ next = some .insert ∨ next = some (.done false))
      (keys : ∀ other, after.containsKey other = bus.containsKey other)
      (events : after.events = bus.events) : Progress bus name pc after next
  | insert : Progress bus name (some .insert) (bus.insertTopic name)
      (some (.announce (!bus.containsKey name)))
  | announce (inserted : Bool) : Progress bus name (some (.announce inserted))
      (bus.announceTopic name) (some (.done true))
  | answer (answer : Bool) : Progress bus name (some (.done answer)) bus none

namespace BusCall

theorem advance_progress (bus : Bus ring B) (call : BusCall B) :
    Progress bus call.name call.creating (call.advance bus).1
      ((call.advance bus).2.bind creating) := by
  cases call with
  | createTopic name pc =>
    cases pc with
    | start =>
      refine .look (Or.inr rfl) ?_ (fun _ => rfl) rfl
      cases present : bus.containsKey name <;>
        simp [advance, Bus.createStep, present, creating]
    | insert => exact .insert
    | announce inserted => exact .announce inserted
    | done answer => exact .answer answer
  | send name message pc =>
    cases pc with
    | start =>
      refine .look (Or.inl rfl) ?_ (fun _ => rfl) rfl
      cases present : bus.containsKey name <;>
        simp [advance, Bus.sendStep, present, creating]
    | creating pc =>
      cases pc with
      | start =>
        refine .look (Or.inr rfl) ?_ (fun _ => rfl) rfl
        cases present : bus.containsKey name <;>
          simp [advance, Bus.sendStep, Bus.createStep, present, creating]
      | insert => exact .insert
      | announce inserted => exact .announce inserted
      | done answer => exact .answer answer
    | store =>
      exact .look (Or.inl rfl) (Or.inl rfl)
        (bus.storeAndBroadcast_containsKey name message)
        (congrArg Broadcast.sent (bus.storeAndBroadcast_events name message))
    | done result => exact .look (Or.inl rfl) (Or.inl rfl) (fun _ => rfl) rfl

theorem advance_name {bus : Bus ring B} {call next : BusCall B}
    (goesOn : (call.advance bus).2 = some next) : next.name = call.name := by
  cases call with
  | createTopic name pc =>
    cases pc with
    | done answer => simp [advance] at goesOn
    | _ =>
      simp only [advance, Option.some.injEq] at goesOn
      rw [← goesOn]
      rfl
  | send name message pc =>
    cases pc with
    | done result => simp [advance] at goesOn
    | _ =>
      simp only [advance, Option.some.injEq] at goesOn
      rw [← goesOn]
      rfl

end BusCall

/-- What an insertion takes on, one kind of step pays. -/
def Pays (owed : CreatePc → Bool) (paid : CallEvent → Bool) : Prop :=
  ∀ (bus : Bus ring B) (name : Str) (pc : Option CreatePc) (after : Bus ring B)
    (next : Option CreatePc), Progress bus name pc after next →
      (creationEvent bus name pc).inserts.toNat + (pc.elim false owed).toNat =
        (paid (creationEvent bus name pc)).toNat + (next.elim false owed).toNat

theorem event_pays : @Pays ring B CreatePc.owesEvent (· = .announced) := by
  intro bus name pc after next progress
  cases progress with
  | look early later keys events =>
    rcases early with rfl | rfl <;> rcases later with rfl | rfl | rfl | rfl <;> rfl
  | insert => rfl
  | announce inserted => rfl
  | answer answer => rfl

theorem return_pays : @Pays ring B CreatePc.owesReturn CallEvent.returnsTrue := by
  intro bus name pc after next progress
  cases progress with
  | look early later keys events =>
    rcases early with rfl | rfl <;> rcases later with rfl | rfl | rfl | rfl <;> rfl
  | insert => rfl
  | announce inserted => rfl
  | answer answer => cases answer <;> rfl

/-! What a run adds up to. -/

theorem starts_owes {call : BusCall B} (starts : call.Starts) (owed : CreatePc → Bool)
    (nothing : owed .start = false) : call.owes owed = false := by
  cases call with
  | createTopic name pc =>
    obtain rfl : pc = .start := starts
    exact nothing
  | send name message pc =>
    obtain rfl : pc = .start := starts
    rfl

theorem owing_advanced {s : CallState ring B} {i : Nat} {call : BusCall B} (owed : CreatePc → Bool)
    (name : Str) (bus : Bus ring B) :
    CallState.owing owed name ⟨bus, Function.update s.calls i (call.advance s.bus).2⟩ i =
      if call.name = name then
        (((call.advance s.bus).2.bind BusCall.creating).elim false owed).toNat else 0 := by
  simp only [CallState.owing, Function.update_self]
  cases goesOn : (call.advance s.bus).2 with
  | none => simp
  | some next =>
    rw [← BusCall.advance_name goesOn]
    rfl

theorem insertions_paid {owed : CreatePc → Bool} {paid : CallEvent → Bool}
    (nothing : owed .start = false) (quiet : paid .accessed = false)
    (pays : @Pays ring B owed paid)
    {ls : List CallLabel} {s : CallState ring B} (run : Run CallStep CallState.start ls s)
    (name : Str) (i : Nat) :
    (insertions name ls).count i =
      (callersOf paid name ls).count i + s.owing owed name i := by
  induction run with
  | nil => rfl
  | @snoc m t ls l before last ih =>
    unfold insertions at ih ⊢
    rw [count_callersOf_snoc, count_callersOf_snoc]
    cases last with
    | @call j call idle starts =>
      have owes := starts_owes starts owed nothing
      by_cases same : i = j
      · subst same
        simp only [CallState.owing, idle] at ih
        simp only [CallState.owing, Function.update_self, owes, quiet, CallEvent.inserts]
        simp only [Bool.toNat_false, ite_self]
        omega
      · simp only [CallState.owing, Function.update_of_ne same, quiet, CallEvent.inserts] at ih ⊢
        simp only [Bool.toNat_false, ite_self]
        omega
    | @advance j call active =>
      by_cases same : i = j
      · subst same
        rw [owing_advanced]
        by_cases here : call.name = name
        · have step := pays _ _ _ _ _ (BusCall.advance_progress m.bus call)
          simp only [CallState.owing, active, if_pos here] at ih
          simp only [here, and_true, if_true]
          simp only [BusCall.owes, BusCall.event, here] at ih step ⊢
          omega
        · simp only [CallState.owing, active, if_neg here] at ih
          simp only [here, false_and, if_false]
          exact ih
      · have other : ¬ (call.name = name ∧ j = i) := fun both => same both.2.symm
        simp only [CallState.owing, Function.update_of_ne same, other, if_false] at ih ⊢
        exact ih

theorem progress_records {bus after : Bus ring B} {name : Str} {pc next : Option CreatePc}
    (progress : Progress bus name pc after next) (topic : Str) :
    after.events.count (.created topic) = bus.events.count (.created topic) +
        (if name = topic then (decide (creationEvent bus name pc = .announced)).toNat else 0) ∧
      (after.containsKey topic).toNat = (bus.containsKey topic).toNat +
        (if name = topic then
          (decide (creationEvent bus name pc = .inserted true)).toNat else 0) := by
  cases progress with
  | look early later keys events =>
    rw [keys, events]
    rcases early with rfl | rfl <;> simp [creationEvent]
  | insert =>
    constructor
    · have same : (bus.insertTopic name).events = bus.events :=
        congrArg Broadcast.sent (bus.insertTopic_events name)
      simp [same, creationEvent]
    · rw [Bus.insertTopic_containsKey]
      by_cases same : name = topic
      · subst same
        cases present : bus.containsKey name <;> simp [creationEvent, present]
      · simp [same, Ne.symm same]
  | announce inserted =>
    constructor
    · have sent : (bus.announceTopic name).events = bus.events ++ [.created name] := rfl
      by_cases same : name = topic
      · subst same
        simp [sent, creationEvent]
      · simp [sent, same]
    · have same : (bus.announceTopic name).containsKey topic = bus.containsKey topic := rfl
      simp [same, creationEvent]
  | answer answer => simp [creationEvent]

structure Recorded (name : Str) (ls : List CallLabel) (s : CallState ring B) : Prop where
  events : createdEvents name s = (announcements name ls).length
  fresh : (freshInsertions name ls).length = (s.bus.containsKey name).toNat

theorem recorded {ls : List CallLabel} {s : CallState ring B}
    (run : Run CallStep CallState.start ls s) (name : Str) : Recorded name ls s := by
  refine run_history (Recorded name) ⟨rfl, rfl⟩ ?_ run
  rintro ls s l t - ⟨events, fresh⟩ step
  unfold createdEvents announcements at events
  unfold freshInsertions at fresh
  cases step with
  | @call i call idle starts =>
    constructor
    · simpa [createdEvents, announcements, length_callersOf_snoc] using events
    · simpa [freshInsertions, length_callersOf_snoc] using fresh
  | @advance i call active =>
    obtain ⟨eventsNow, keysNow⟩ := progress_records (call.advance_progress s.bus) name
    constructor
    · rw [createdEvents, announcements, length_callersOf_snoc, eventsNow, events]
      rfl
    · rw [freshInsertions, length_callersOf_snoc, keysNow, fresh]
      rfl

theorem owing_settled {s : CallState ring B} {name : Str} (settled : s.Settled name) (i : Nat) :
    s.owing CreatePc.owesReturn name i = 0 := by
  unfold CallState.owing
  cases active : s.calls i with
  | none => rfl
  | some call =>
    by_cases same : call.name = name
    · simp [same, settled i call active same]
    · simp [same]

theorem owing_event_settled {s : CallState ring B} {name : Str} (settled : s.Settled name)
    (i : Nat) : s.owing CreatePc.owesEvent name i = 0 := by
  unfold CallState.owing
  cases active : s.calls i with
  | none => rfl
  | some call =>
    by_cases same : call.name = name
    · have answered := settled i call active same
      have nothing : call.owes CreatePc.owesEvent = false := by
        unfold BusCall.owes at answered ⊢
        cases running : call.creating with
        | none => rfl
        | some pc =>
          rw [running] at answered
          cases pc with
          | announce inserted => cases answered
          | _ => rfl
      simp [same, nothing]
    · simp [same]

theorem perm_of_paid {owed : CreatePc → Bool} {paid : CallEvent → Bool} {name : Str}
    {ls : List CallLabel} {s : CallState ring B}
    (balance : ∀ i, (insertions name ls).count i =
      (callersOf paid name ls).count i + s.owing owed name i)
    (settled : ∀ i, s.owing owed name i = 0) :
    (insertions name ls).length = (callersOf paid name ls).length := by
  apply List.Perm.length_eq
  rw [List.perm_iff_count]
  intro i
  rw [balance i, settled i, Nat.add_zero]

theorem length_le_of_paid {owed : CreatePc → Bool} {paid : CallEvent → Bool} {name : Str}
    {ls : List CallLabel} {s : CallState ring B}
    (balance : ∀ i, (insertions name ls).count i =
      (callersOf paid name ls).count i + s.owing owed name i) :
    (callersOf paid name ls).length ≤ (insertions name ls).length := by
  apply List.Subperm.length_le
  rw [List.subperm_ext_iff]
  intro i _
  have := balance i
  omega

theorem insertions_split (name : Str) (ls : List CallLabel) :
    (insertions name ls).length =
      (freshInsertions name ls).length + (callersOf (· = .inserted false) name ls).length := by
  induction ls using List.reverseRecOn with
  | nil => rfl
  | append_singleton ls l ih =>
    unfold insertions freshInsertions at ih ⊢
    simp only [length_callersOf_snoc]
    by_cases same : l.name = name
    · simp only [if_pos same]
      cases l.event with
      | inserted fresh =>
        cases fresh <;> simp [CallEvent.inserts, ih] <;> omega
      | _ => simp [CallEvent.inserts, ih]
    · simp only [if_neg same]
      omega

theorem alwaysFresh_iff (name : Str) (ls : List CallLabel) :
    AlwaysFresh name ls ↔ (insertions name ls).length = (freshInsertions name ls).length := by
  have none : AlwaysFresh name ls ↔ (callersOf (· = .inserted false) name ls).length = 0 := by
    simp [AlwaysFresh, callersOf]
  have split := insertions_split name ls
  rw [none]
  omega

/-- A topic comes to be once exactly in those runs in which no call inserts it after another
    has: and then it is at no moment announced or answered for twice. -/
theorem created_once_iff {ls : List CallLabel} {s : CallState ring B}
    (run : Run CallStep CallState.start ls s) (name : Str) :
    (AlwaysFresh name ls → (trueReturns name ls).length ≤ 1 ∧ createdEvents name s ≤ 1) ∧
      (s.Settled name → s.bus.containsKey name = true →
        (CreatedOnce name ls s ↔ AlwaysFresh name ls)) := by
  have returns := insertions_paid rfl rfl return_pays run name
  have announced := insertions_paid rfl rfl event_pays run name
  obtain ⟨events, fresh⟩ := recorded run name
  have split := insertions_split name ls
  constructor
  · intro always
    have equal := (alwaysFresh_iff name ls).mp always
    have one : (s.bus.containsKey name).toNat ≤ 1 := Bool.toNat_le _
    have few := length_le_of_paid returns
    have few' := length_le_of_paid announced
    unfold trueReturns
    unfold announcements at events
    omega
  · intro settled present
    have all := perm_of_paid returns (owing_settled settled)
    have all' := perm_of_paid announced (owing_event_settled settled)
    rw [present] at fresh
    unfold CreatedOnce trueReturns
    unfold announcements at events
    rw [alwaysFresh_iff, events, fresh, ← all, ← all']
    simp only [Bool.toNat_true] at fresh ⊢
    omega

theorem later_caller_finds :
    ∃ ls s, Run CallStep (@CallState.start ⟨channelBufferSize, le_rfl⟩ Unit) ls s ∧
      CreatedOnce ['a'] ls s := by
  have called := Run.snoc (Run.snoc (Run.nil (@CallState.start ⟨channelBufferSize, le_rfl⟩ Unit))
    (@CallStep.call _ _ _ 0 (.createTopic ['a'] .start) rfl rfl))
    (@CallStep.call _ _ _ 1 (.createTopic ['a'] .start) rfl rfl)
  have inserted := Run.snoc (Run.snoc called (@CallStep.advance _ _ _ 0 _ rfl))
    (@CallStep.advance _ _ _ 0 _ rfl)
  have looked := Run.snoc (Run.snoc inserted (@CallStep.advance _ _ _ 1 _ rfl))
    (@CallStep.advance _ _ _ 0 _ rfl)
  have run := Run.snoc (Run.snoc looked (@CallStep.advance _ _ _ 1 _ rfl))
    (@CallStep.advance _ _ _ 0 _ rfl)
  refine ⟨_, _, run, ((created_once_iff run ['a']).2 ?_ rfl).mpr ?_⟩
  · intro i call active
    by_cases first : i = 0
    · subst first
      cases active
    · by_cases second : i = 1
      · subst second
        cases active
      · simp [Function.update_of_ne first, Function.update_of_ne second, CallState.start] at active
  · unfold AlwaysFresh
    decide

/-- Two calls that both miss the topic before either inserts it both create it. -/
theorem two_callers_create_twice :
    ¬ ∀ (ls : List CallLabel) (s : CallState ⟨channelBufferSize, le_rfl⟩ Unit),
      Run CallStep CallState.start ls s → ∀ name, s.Settled name →
        s.bus.containsKey name = true → CreatedOnce name ls s := by
  intro law
  have called := Run.snoc (Run.snoc (Run.nil (@CallState.start ⟨channelBufferSize, le_rfl⟩ Unit))
    (@CallStep.call _ _ _ 0 (.createTopic ['a'] .start) rfl rfl))
    (@CallStep.call _ _ _ 1 (.createTopic ['a'] .start) rfl rfl)
  have looked := Run.snoc (Run.snoc called (@CallStep.advance _ _ _ 0 _ rfl))
    (@CallStep.advance _ _ _ 1 _ rfl)
  have inserted := Run.snoc (Run.snoc looked (@CallStep.advance _ _ _ 0 _ rfl))
    (@CallStep.advance _ _ _ 1 _ rfl)
  have announced := Run.snoc (Run.snoc inserted (@CallStep.advance _ _ _ 0 _ rfl))
    (@CallStep.advance _ _ _ 1 _ rfl)
  have run := Run.snoc (Run.snoc announced (@CallStep.advance _ _ _ 0 _ rfl))
    (@CallStep.advance _ _ _ 1 _ rfl)
  have once := law _ _ run ['a'] ?_ rfl
  · revert once
    unfold CreatedOnce
    decide
  · intro i call active
    by_cases first : i = 0
    · subst first
      cases active
    · by_cases second : i = 1
      · subst second
        cases active
      · simp only [Function.update_of_ne first, Function.update_of_ne second] at active
        cases active

end PubSub
