import Mathlib.Data.List.Basic

/- Two kinds of message channel. A broadcast channel keeps the last values it was
   sent in a ring; every receiver has its own cursor and is told when it was overtaken.
   An mpsc channel is a bounded queue with a sending and a receiving end. -/
namespace Channels
variable {A : Type} {capacity : Nat}

/-- A broadcast channel by the values sent over it, of which the ring holds the last
    `capacity`. -/
structure Broadcast (capacity : Nat) (A : Type) where
  sent : List A

abbrev Cursor := Nat

inductive Received (A : Type) where
  | empty
  | item (value : A) (cursor : Cursor)
  | lagged (cursor : Cursor)

namespace Broadcast

def new : Broadcast capacity A := ⟨[]⟩

def send (channel : Broadcast capacity A) (value : A) : Broadcast capacity A :=
  ⟨channel.sent ++ [value]⟩

def subscribe (channel : Broadcast capacity A) : Cursor := channel.sent.length

/-- An overtaken receiver is moved to the oldest value the ring still holds. -/
def recv (channel : Broadcast capacity A) (cursor : Cursor) : Received A :=
  if cursor + capacity < channel.sent.length then
    .lagged (channel.sent.length - capacity)
  else match channel.sent[cursor]? with
    | some value => .item value (cursor + 1)
    | none => .empty

theorem recv_item {channel : Broadcast capacity A} {cursor next : Cursor} {value : A}
    (received : channel.recv cursor = .item value next) :
    channel.sent[cursor]? = some value ∧ next = cursor + 1 := by
  unfold recv at received
  split at received
  · cases received
  · split at received
    · rename_i found
      cases received
      exact ⟨found, rfl⟩
    · cases received

theorem recv_of_get {channel : Broadcast capacity A} {cursor : Cursor} {value : A}
    (onTime : channel.sent.length ≤ cursor + capacity)
    (found : channel.sent[cursor]? = some value) :
    channel.recv cursor = .item value (cursor + 1) := by
  unfold recv
  rw [if_neg (Nat.not_lt.mpr onTime), found]

theorem recv_item_onTime {channel : Broadcast capacity A} {cursor next : Cursor} {value : A}
    (received : channel.recv cursor = .item value next) :
    channel.sent.length ≤ cursor + capacity := by
  unfold recv at received
  split at received
  · cases received
  · rename_i onTime
    exact Nat.le_of_not_lt onTime

theorem recv_of_end {channel : Broadcast capacity A} {cursor : Cursor}
    (ended : channel.sent.length ≤ cursor) : channel.recv cursor = .empty := by
  unfold recv
  rw [if_neg (Nat.not_lt.mpr (Nat.le_add_right_of_le ended)), List.getElem?_eq_none ended]

theorem recv_lagged {channel : Broadcast capacity A} {cursor next : Cursor}
    (received : channel.recv cursor = .lagged next) :
    cursor + capacity < channel.sent.length ∧ next = channel.sent.length - capacity := by
  unfold recv at received
  split at received
  · rename_i overtaken
    cases received
    exact ⟨overtaken, rfl⟩
  · split at received <;> cases received

theorem recv_empty {channel : Broadcast capacity A} {cursor : Cursor}
    (received : channel.recv cursor = .empty) : channel.sent.length ≤ cursor := by
  unfold recv at received
  split at received
  · cases received
  · split at received
    · cases received
    · rename_i nothing
      exact List.getElem?_eq_none_iff.mp nothing

end Broadcast

structure Mpsc (capacity : Nat) (A : Type) where
  queue : List A
  senderDropped : Bool
  receiverDropped : Bool

namespace Mpsc

def new : Mpsc capacity A := ⟨[], false, false⟩

/-- A value can be sent now: somebody can still receive it and there is room. -/
def HasRoom (channel : Mpsc capacity A) : Prop :=
  channel.receiverDropped = false ∧ channel.queue.length < capacity

instance (channel : Mpsc capacity A) : Decidable channel.HasRoom :=
  inferInstanceAs (Decidable (_ ∧ _))

def push (channel : Mpsc capacity A) (value : A) : Mpsc capacity A :=
  { channel with queue := channel.queue ++ [value] }

end Mpsc
end Channels
