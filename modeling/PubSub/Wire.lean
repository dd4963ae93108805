import PubSub.Codec
import PubSub.Interface

/- The short forms of the message pack encoding of a command: maps and arrays of at most
   fifteen entries, strings of at most thirty-one bytes, values that are small numbers.
   An enum is a map from its variant, a struct the array of its fields. -/
namespace PubSub
open StreamParsing

namespace Wire
variable {A : Type}

def readByte : Parser UInt8 DecodeError UInt8 := next (.invalidMarkerRead "end of file")

def readCount (low width : Nat) : Parser UInt8 DecodeError Nat :=
  andThen readByte fun marker =>
    if low ≤ marker.toNat ∧ marker.toNat < low + width then succeed (marker.toNat - low)
    else fail (.other "invalid type")

def readMapLen : Parser UInt8 DecodeError Nat := readCount 0x80 16
def readArrayLen : Parser UInt8 DecodeError Nat := readCount 0x90 16

def readStrBytes : Parser UInt8 DecodeError Bytes :=
  andThen (readCount 0xA0 32) (take (.invalidDataRead "end of file"))

def decodeUtf8 (bytes : Bytes) : Option Str := bytes.toByteArray.utf8Decode?.map Array.toList

def readStr : Parser UInt8 DecodeError Str :=
  andThen readStrBytes fun bytes =>
    match decodeUtf8 bytes with
    | some s => succeed s
    | none => fail (.other "invalid utf-8")

def readValue : Parser UInt8 DecodeError UInt8 :=
  andThen readByte fun marker =>
    if marker.toNat < 128 then succeed marker else fail (.other "invalid type")

def element (n k : Nat) (field : Parser UInt8 DecodeError A) : Parser UInt8 DecodeError A :=
  if k < n then field else fail (.other "invalid length")

def finish (n k : Nat) (x : A) : Parser UInt8 DecodeError A :=
  if n = k then succeed x else fail (.lengthMismatch n)

def readMessage : Parser UInt8 DecodeError (Message UInt8) :=
  andThen readArrayLen fun n =>
  andThen (element n 0 readStr) fun topic =>
  andThen (element n 1 readValue) fun value => finish n 2 ⟨topic, value⟩

def readBody (field : Parser UInt8 DecodeError A) : Parser UInt8 DecodeError A :=
  andThen readArrayLen fun n => andThen (element n 0 field) fun x => finish n 1 x

def publishName : Str := ['P', 'u', 'b', 'l', 'i', 's', 'h']
def subscribeName : Str := ['S', 'u', 'b', 's', 'c', 'r', 'i', 'b', 'e']
def unsubscribeName : Str := ['U', 'n', 's', 'u', 'b', 's', 'c', 'r', 'i', 'b', 'e']

def readVariant (name : Bytes) : Parser UInt8 DecodeError (Command UInt8) :=
  if name = asBytes publishName then andThen (readBody readMessage) fun m => succeed (.publish m)
  else if name = asBytes subscribeName then andThen (readBody readStr) fun p => succeed (.subscribe p)
  else if name = asBytes unsubscribeName then
    andThen (readBody readStr) fun p => succeed (.unsubscribe p)
  else fail (.other "unknown variant")

def readCommand : Parser UInt8 DecodeError (Command UInt8) :=
  andThen readMapLen fun n =>
    if n = 1 then andThen readStrBytes readVariant else fail (.lengthMismatch n)

def packCount (low n : Nat) : UInt8 := UInt8.ofNat (low + n)

def packStr (s : Str) : Except String Bytes :=
  if (asBytes s).length < 32 then .ok (packCount 0xA0 (asBytes s).length :: asBytes s)
  else .error "long string"

def packMessage (message : Message UInt8) : Except String Bytes :=
  match packStr message.topic with
  | .ok topic =>
    if message.value.toNat < 128 then .ok (packCount 0x90 2 :: (topic ++ [message.value]))
    else .error "large value"
  | .error e => .error e

def packVariant (name : Str) (body : Except String Bytes) : Except String Bytes :=
  match packStr name, body with
  | .ok name, .ok body => .ok (packCount 0x80 1 :: (name ++ packCount 0x90 1 :: body))
  | .error e, _ => .error e
  | _, .error e => .error e

def packCommand : Command UInt8 → Except String Bytes
  | .publish message => packVariant publishName (packMessage message)
  | .subscribe pattern => packVariant subscribeName (packStr pattern)
  | .unsubscribe pattern => packVariant unsubscribeName (packStr pattern)

section Reader

theorem incremental_readByte : Incremental OutOfBytes readByte := incremental_next trivial

theorem incremental_readCount (low width : Nat) : Incremental OutOfBytes (readCount low width) := by
  apply incremental_andThen incremental_readByte
  intro marker
  exact incremental_ite _ (incremental_succeed _ _) (incremental_fail _ _)

theorem incremental_readStrBytes : Incremental OutOfBytes readStrBytes := by
  apply incremental_andThen (incremental_readCount _ _)
  exact incremental_take trivial

theorem incremental_readStr : Incremental OutOfBytes readStr := by
  apply incremental_andThen incremental_readStrBytes
  intro bytes
  split
  · exact incremental_succeed _ _
  · exact incremental_fail _ _

theorem incremental_readValue : Incremental OutOfBytes readValue := by
  apply incremental_andThen incremental_readByte
  intro marker
  exact incremental_ite _ (incremental_succeed _ _) (incremental_fail _ _)

theorem incremental_element (n k : Nat) {field : Parser UInt8 DecodeError A}
    (inner : Incremental OutOfBytes field) : Incremental OutOfBytes (element n k field) :=
  incremental_ite _ inner (incremental_fail _ _)

theorem incremental_finish (n k : Nat) (x : A) : Incremental OutOfBytes (finish n k x) :=
  incremental_ite _ (incremental_succeed _ _) (incremental_fail _ _)

theorem incremental_readMessage : Incremental OutOfBytes readMessage := by
  apply incremental_andThen (incremental_readCount _ _)
  intro n
  apply incremental_andThen (incremental_element _ _ incremental_readStr)
  intro topic
  apply incremental_andThen (incremental_element _ _ incremental_readValue)
  intro value
  exact incremental_finish _ _ _

theorem incremental_readBody {field : Parser UInt8 DecodeError A}
    (inner : Incremental OutOfBytes field) : Incremental OutOfBytes (readBody field) := by
  apply incremental_andThen (incremental_readCount _ _)
  intro n
  apply incremental_andThen (incremental_element _ _ inner)
  intro x
  exact incremental_finish _ _ _

theorem incremental_readVariant (name : Bytes) : Incremental OutOfBytes (readVariant name) := by
  unfold readVariant
  apply incremental_ite
  · exact incremental_andThen (incremental_readBody incremental_readMessage)
      fun m => incremental_succeed _ _
  · apply incremental_ite
    · exact incremental_andThen (incremental_readBody incremental_readStr)
        fun p => incremental_succeed _ _
    · apply incremental_ite
      · exact incremental_andThen (incremental_readBody incremental_readStr)
          fun p => incremental_succeed _ _
      · exact incremental_fail _ _

theorem incremental_readCommand : Incremental OutOfBytes readCommand := by
  apply incremental_andThen (incremental_readCount _ _)
  intro n
  apply incremental_ite
  · exact incremental_andThen incremental_readStrBytes incremental_readVariant
  · exact incremental_fail _ _

end Reader

section RoundTrip

theorem decodeUtf8_asBytes (s : Str) : decodeUtf8 (asBytes s) = some s := by
  have back : (asBytes s).toByteArray.utf8Decode? = some s.toArray := List.utf8Decode?_utf8Encode
  unfold decodeUtf8
  rw [back]
  simp

theorem reads_readCount {low width n : Nat} (small : n < width) (byte : low + width ≤ UInt8.size) :
    Reads (readCount low width) [packCount low n] n := by
  have value : (packCount low n).toNat = low + n := UInt8.toNat_ofNat_of_lt (by omega)
  apply reads_last (reads_next _ _)
  rw [value, if_pos ⟨by omega, by omega⟩, Nat.add_sub_cancel_left]

theorem reads_readStrBytes {s : Str} {packed : Bytes} (sent : packStr s = .ok packed) :
    Reads readStrBytes packed (asBytes s) := by
  unfold packStr at sent
  split at sent
  · rename_i short
    obtain rfl := Except.ok.inj sent
    exact reads_cons (reads_readCount short (by decide)) (reads_take _ _)
  · cases sent

theorem reads_readStr {s : Str} {packed : Bytes} (sent : packStr s = .ok packed) :
    Reads readStr packed s := by
  apply reads_last (reads_readStrBytes sent)
  rw [decodeUtf8_asBytes]

theorem reads_readValue {value : UInt8} (small : value.toNat < 128) :
    Reads readValue [value] value := by
  apply reads_last (reads_next _ _)
  rw [if_pos small]

theorem reads_readMessage {message : Message UInt8} {packed : Bytes}
    (sent : packMessage message = .ok packed) : Reads readMessage packed message := by
  unfold packMessage at sent
  split at sent
  · rename_i topic onTopic
    split at sent
    · rename_i small
      obtain rfl := Except.ok.inj sent
      apply reads_cons (reads_readCount (by decide) (by decide))
      apply reads_andThen (reads_readStr onTopic)
      exact reads_last (reads_readValue small) rfl
    · cases sent
  · cases sent

theorem reads_readBody {field : Parser UInt8 DecodeError A} {body : Bytes} {x : A}
    (inner : Reads field body x) : Reads (readBody field) (packCount 0x90 1 :: body) x := by
  apply reads_cons (reads_readCount (by decide) (by decide))
  exact reads_last inner rfl

theorem reads_variant {name : Str} {body : Except String Bytes} {packed : Bytes}
    {command : Command UInt8} (sent : packVariant name body = .ok packed)
    (inner : ∀ bytes, body = .ok bytes →
      Reads (readVariant (asBytes name)) (packCount 0x90 1 :: bytes) command) :
    Reads readCommand packed command := by
  unfold packVariant at sent
  split at sent
  · rename_i key bytes onName
    obtain rfl := Except.ok.inj sent
    apply reads_cons (reads_readCount (by decide) (by decide))
    exact reads_andThen (reads_readStrBytes onName) (inner bytes rfl)
  · cases sent
  · cases sent

theorem reads_readCommand {command : Command UInt8} {packed : Bytes}
    (sent : packCommand command = .ok packed) : Reads readCommand packed command := by
  cases command with
  | publish message =>
    apply reads_variant sent
    intro bytes body
    unfold readVariant
    rw [if_pos rfl]
    exact reads_last (reads_readBody (reads_readMessage body)) rfl
  | subscribe pattern =>
    apply reads_variant sent
    intro bytes body
    unfold readVariant
    rw [if_neg (by decide), if_pos rfl]
    exact reads_last (reads_readBody (reads_readStr body)) rfl
  | unsubscribe pattern =>
    apply reads_variant sent
    intro bytes body
    unfold readVariant
    rw [if_neg (by decide), if_neg (by decide), if_pos rfl]
    exact reads_last (reads_readBody (reads_readStr body)) rfl

end RoundTrip
end Wire
end PubSub
