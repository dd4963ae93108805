import Mathlib.Logic.Function.Basic
import PubSub.Channels
import PubSub.LabelledRun

/- A broadcast channel together with its receivers. The channel that keeps every value is
   an abstraction: the one in use refuses a value that is sent when there is no receiver.
   No receiver can tell them apart. -/
namespace Channels
open LabelledRun
variable {A : Type} {capacity : Nat}

structure Shared (capacity : Nat) (A : Type) where
  channel : Broadcast capacity A
  receivers : Nat → Option Cursor

inductive ChannelOp (A : Type) where
  | send (value : A)
  | subscribe (i : Nat)
  | receive (i : Nat) (value : A)
  | lag (i : Nat)
  | close (i : Nat)

namespace Shared

def new : Shared capacity A := ⟨Broadcast.new, fun _ => none⟩

def Heard (s : Shared capacity A) : Prop := ∃ i cursor, s.receivers i = some cursor

inductive Step (keeps : Shared capacity A → Prop) (s : Shared capacity A) :
    ChannelOp A → Shared capacity A → Prop where
  | send {value : A} (kept : keeps s) :
      Step keeps s (.send value) { s with channel := s.channel.send value }
  | refuse {value : A} (refused : ¬ keeps s) : Step keeps s (.send value) s
  | subscribe {i : Nat} (free : s.receivers i = none) :
      Step keeps s (.subscribe i)
        { s with receivers := Function.update s.receivers i (some s.channel.subscribe) }
  | receive {i : Nat} {cursor next : Cursor} {value : A} (open_ : s.receivers i = some cursor)
      (received : s.channel.recv cursor = .item value next) :
      Step keeps s (.receive i value)
        { s with receivers := Function.update s.receivers i (some next) }
  | lag {i : Nat} {cursor next : Cursor} (open_ : s.receivers i = some cursor)
      (received : s.channel.recv cursor = .lagged next) :
      Step keeps s (.lag i) { s with receivers := Function.update s.receivers i (some next) }
  | close {i : Nat} :
      Step keeps s (.close i) { s with receivers := Function.update s.receivers i none }

abbrev LogStep : Shared capacity A → ChannelOp A → Shared capacity A → Prop :=
  Step fun _ => True

/-- The channel that refuses what nobody would hear. -/
abbrev HeardStep : Shared capacity A → ChannelOp A → Shared capacity A → Prop :=
  Step Heard

/-- The same to every receiver, up to the values that were refused before it came. -/
structure Alike (refused : Nat) (s t : Shared capacity A) : Prop where
  length : s.channel.sent.length = t.channel.sent.length + refused
  receivers : ∀ i, s.receivers i = (t.receivers i).map (· + refused)
  reached : ∀ i cursor, t.receivers i = some cursor → cursor ≤ t.channel.sent.length
  unread : ∀ i cursor, t.receivers i = some cursor →
    s.channel.sent.drop (cursor + refused) = t.channel.sent.drop cursor

theorem new_alike : Alike 0 (new : Shared capacity A) new :=
  ⟨rfl, fun _ => rfl, fun _ _ => nofun, fun _ _ => nofun⟩

theorem alike_open {refused : Nat} {s t : Shared capacity A} (alike : Alike refused s t) {i : Nat}
    {cursor : Cursor} (open_ : s.receivers i = some cursor) :
    ∃ cursor', t.receivers i = some cursor' ∧ cursor = cursor' + refused := by
  rw [alike.receivers i] at open_
  obtain ⟨cursor', here, same⟩ := Option.map_eq_some_iff.mp open_
  exact ⟨cursor', here, same.symm⟩

theorem alike_free {refused : Nat} {s t : Shared capacity A} (alike : Alike refused s t) {i : Nat}
    (free : s.receivers i = none) : t.receivers i = none := by
  rw [alike.receivers i] at free
  exact Option.map_eq_none_iff.mp free

theorem alike_update {refused : Nat} {s t : Shared capacity A} (alike : Alike refused s t) (i : Nat)
    {next : Cursor} (reached : next ≤ t.channel.sent.length)
    (unread : s.channel.sent.drop (next + refused) = t.channel.sent.drop next) :
    Alike refused { s with receivers := Function.update s.receivers i (some (next + refused)) }
      { t with receivers := Function.update t.receivers i (some next) } := by
  refine ⟨alike.length, ?_, ?_, ?_⟩
  · intro j
    by_cases same : j = i
    · subst same
      simp
    · simp only [Function.update_of_ne same]
      exact alike.receivers j
  · intro j cursor here
    by_cases same : j = i
    · subst same
      simp only [Function.update_self, Option.some.injEq] at here
      exact here ▸ reached
    · simp only [Function.update_of_ne same] at here
      exact alike.reached j cursor here
  · intro j cursor here
    by_cases same : j = i
    · subst same
      simp only [Function.update_self, Option.some.injEq] at here
      exact here ▸ unread
    · simp only [Function.update_of_ne same] at here
      exact alike.unread j cursor here

theorem alike_send {refused : Nat} {s t : Shared capacity A} (alike : Alike refused s t)
    (value : A) : Alike refused { s with channel := s.channel.send value }
      { t with channel := t.channel.send value } := by
  refine ⟨?_, alike.receivers, ?_, ?_⟩
  · have := alike.length
    simp only [Broadcast.send, List.length_append, List.length_singleton]
    omega
  · intro i cursor here
    simp only [Broadcast.send, List.length_append, List.length_singleton]
    exact Nat.le_add_right_of_le (alike.reached i cursor here)
  · intro i cursor here
    have reached := alike.reached i cursor here
    have reached' : cursor + refused ≤ s.channel.sent.length :=
      alike.length ▸ Nat.add_le_add_right reached refused
    simp only [Broadcast.send]
    rw [List.drop_append_of_le_length reached', List.drop_append_of_le_length reached,
      alike.unread i cursor here]

theorem alike_refuse {refused : Nat} {s t : Shared capacity A} (alike : Alike refused s t)
    (value : A) (unheard : ¬ t.Heard) :
    Alike (refused + 1) { s with channel := s.channel.send value } t := by
  have nobody : ∀ i, t.receivers i = none := by
    intro i
    cases here : t.receivers i with
    | none => rfl
    | some cursor => exact absurd ⟨i, cursor, here⟩ unheard
  refine ⟨?_, ?_, ?_, ?_⟩
  · have := alike.length
    simp only [Broadcast.send, List.length_append, List.length_singleton]
    omega
  · intro i
    simp only [alike.receivers i, nobody i, Option.map_none]
  · intro i cursor here
    rw [nobody i] at here
    cases here
  · intro i cursor here
    rw [nobody i] at here
    cases here

theorem alike_close {refused : Nat} {s t : Shared capacity A} (alike : Alike refused s t) (i : Nat) :
    Alike refused { s with receivers := Function.update s.receivers i none }
      { t with receivers := Function.update t.receivers i none } := by
  have kept : ∀ {j cursor}, Function.update t.receivers i none j = some cursor →
      t.receivers j = some cursor := by
    intro j cursor here
    by_cases same : j = i
    · subst same
      simp at here
    · rwa [Function.update_of_ne same] at here
  refine ⟨alike.length, ?_, fun j cursor here => alike.reached j cursor (kept here),
    fun j cursor here => alike.unread j cursor (kept here)⟩
  intro j
  by_cases same : j = i
  · subst same
    simp
  · simp only [Function.update_of_ne same]
    exact alike.receivers j

theorem alike_get {refused : Nat} {s t : Shared capacity A} (alike : Alike refused s t) {i : Nat}
    {cursor : Cursor} (open_ : t.receivers i = some cursor) (k : Nat) :
    s.channel.sent[cursor + refused + k]? = t.channel.sent[cursor + k]? := by
  rw [← List.getElem?_drop, ← List.getElem?_drop, alike.unread i cursor open_]

theorem alike_drop {refused : Nat} {s t : Shared capacity A} (alike : Alike refused s t) {i : Nat}
    {cursor : Cursor} (open_ : t.receivers i = some cursor) (k : Nat) :
    s.channel.sent.drop (cursor + k + refused) = t.channel.sent.drop (cursor + k) := by
  have shift : cursor + k + refused = cursor + refused + k := Nat.add_right_comm cursor k refused
  have later : ∀ (l : List A) (n : Nat), l.drop (n + k) = (l.drop n).drop k :=
    fun _ _ => List.drop_drop.symm
  rw [shift, later, later, alike.unread i cursor open_]

theorem alike_step {refused : Nat} {s s' t : Shared capacity A} {op : ChannelOp A}
    (alike : Alike refused s t) (step : LogStep s op s') :
    ∃ refused' t', HeardStep t op t' ∧ Alike refused' s' t' := by
  cases step with
  | @send value kept =>
    by_cases heard : t.Heard
    · exact ⟨_, _, .send heard, alike_send alike value⟩
    · exact ⟨_, _, .refuse heard, alike_refuse alike value heard⟩
  | refuse refused => exact absurd trivial refused
  | @subscribe i free =>
    refine ⟨refused, _, .subscribe (alike_free alike free), ?_⟩
    have moved := alike_update alike i (Nat.le_refl t.channel.sent.length) (by
      rw [← alike.length, List.drop_length, List.drop_length])
    rwa [← alike.length] at moved
  | @receive i cursor next value open_ received =>
    obtain ⟨cursor', here, rfl⟩ := alike_open alike open_
    obtain ⟨found, rfl⟩ := Broadcast.recv_item received
    have onTime := Broadcast.recv_item_onTime received
    have found' : t.channel.sent[cursor']? = some value := (alike_get alike here 0).symm.trans found
    have onTime' : t.channel.sent.length ≤ cursor' + capacity := by
      rw [alike.length, Nat.add_right_comm] at onTime
      exact Nat.le_of_add_le_add_right onTime
    refine ⟨refused, _, .receive here (Broadcast.recv_of_get onTime' found'), ?_⟩
    have moved := alike_update alike i
      (show cursor' + 1 ≤ _ from (List.getElem?_eq_some_iff.mp found').1) (alike_drop alike here 1)
    rwa [Nat.add_right_comm cursor' 1 refused] at moved
  | @lag i cursor next open_ received =>
    obtain ⟨cursor', here, rfl⟩ := alike_open alike open_
    obtain ⟨overtaken, rfl⟩ := Broadcast.recv_lagged received
    have overtaken' : cursor' + capacity < t.channel.sent.length := by
      rw [alike.length, Nat.add_right_comm] at overtaken
      exact Nat.lt_of_add_lt_add_right overtaken
    obtain ⟨k, size⟩ := Nat.exists_eq_add_of_le (Nat.le_of_lt overtaken')
    have oldest : t.channel.sent.length - capacity = cursor' + k := by
      rw [size, Nat.add_right_comm, Nat.add_sub_cancel]
    have oldest' : s.channel.sent.length - capacity = cursor' + k + refused := by
      rw [alike.length, size, Nat.add_right_comm cursor', Nat.add_right_comm (cursor' + k),
        Nat.add_sub_cancel]
    refine ⟨refused, _, .lag here (by rw [Broadcast.recv, if_pos overtaken']), ?_⟩
    have moved := alike_update alike i (Nat.sub_le _ capacity)
      (oldest ▸ alike_drop alike here k)
    rw [oldest] at moved ⊢
    rwa [oldest']
  | @close i => exact ⟨_, _, .close, alike_close alike i⟩

theorem alike_run {ops : List (ChannelOp A)} {s : Shared capacity A} (run : Run LogStep new ops s) :
    ∃ refused t, Run HeardStep new ops t ∧ Alike refused s t := by
  induction run with
  | nil => exact ⟨0, new, Run.nil _, new_alike⟩
  | snoc before last ih =>
    obtain ⟨refused, t, ran, alike⟩ := ih
    obtain ⟨refused', t', step, after⟩ := alike_step alike last
    exact ⟨refused', t', Run.snoc ran step, after⟩

end Shared
end Channels
