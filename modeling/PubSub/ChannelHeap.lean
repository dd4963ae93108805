import PubSub.Channels

/- Broadcast channels behind handles. A sender and its receivers hold the same handle, and
   a channel that is made later has another one. -/
namespace Channels
variable {A : Type} {capacity : Nat}

abbrev ChannelId := Nat

/-- The channels made so far; a handle is a position. -/
structure ChannelHeap (capacity : Nat) (A : Type) where
  channels : List (Broadcast capacity A)

namespace ChannelHeap

def empty : ChannelHeap capacity A := ⟨[]⟩

def Made (heap : ChannelHeap capacity A) (id : ChannelId) : Prop := id < heap.channels.length

def channel (heap : ChannelHeap capacity A) (id : ChannelId) : Broadcast capacity A :=
  heap.channels[id]?.getD Broadcast.new

def create (heap : ChannelHeap capacity A) : ChannelHeap capacity A × ChannelId :=
  (⟨heap.channels ++ [Broadcast.new]⟩, heap.channels.length)

def send (heap : ChannelHeap capacity A) (id : ChannelId) (value : A) : ChannelHeap capacity A :=
  ⟨heap.channels.modify id fun channel => channel.send value⟩

theorem create_made (heap : ChannelHeap capacity A) : heap.create.1.Made heap.create.2 := by
  simp [create, Made]

theorem create_fresh {heap : ChannelHeap capacity A} {id : ChannelId} (made : heap.Made id) :
    id ≠ heap.create.2 :=
  Nat.ne_of_lt made

theorem made_create {heap : ChannelHeap capacity A} {id : ChannelId} (made : heap.Made id) :
    heap.create.1.Made id := by
  rw [Made, create, List.length_append]
  exact Nat.lt_add_right 1 made

theorem made_send (heap : ChannelHeap capacity A) (target : ChannelId) (value : A)
    (id : ChannelId) : (heap.send target value).Made id ↔ heap.Made id := by
  simp [Made, send]

theorem channel_create (heap : ChannelHeap capacity A) (id : ChannelId) :
    heap.create.1.channel id = heap.channel id := by
  unfold channel create
  rcases Nat.lt_trichotomy id heap.channels.length with old | rfl | beyond
  · rw [List.getElem?_append_left old]
  · simp
  · rw [List.getElem?_append_right (Nat.le_of_lt beyond),
      List.getElem?_eq_none (Nat.le_of_lt beyond), List.getElem?_eq_none (by simp; omega)]

theorem channel_create_new (heap : ChannelHeap capacity A) :
    heap.channel heap.create.2 = Broadcast.new := by
  simp [channel, create]

theorem channel_send_self {heap : ChannelHeap capacity A} {id : ChannelId} (made : heap.Made id)
    (value : A) : (heap.send id value).channel id = (heap.channel id).send value := by
  simp [channel, send, List.getElem?_eq_getElem made]

theorem channel_send_ne (heap : ChannelHeap capacity A) {id target : ChannelId}
    (differ : id ≠ target) (value : A) :
    (heap.send target value).channel id = heap.channel id := by
  simp [channel, send, Ne.symm differ]

end ChannelHeap
end Channels
