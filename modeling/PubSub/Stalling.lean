import PubSub.Framing

/- When asking for more bytes can help. What begins a command is worth waiting for, and some
   of what does not is refused; but the decoder waits as well behind a wrong count, where no
   byte to come can help. -/
namespace PubSub
open LabelledRun StreamParsing MsgPackCodec
variable {T V : Type}

def Hopeful (fromRead : Parser UInt8 DecodeError T) (b : Bytes) : Prop :=
  ∃ more x, (decode fromRead (b ++ more)).1 = .ok (some x)

theorem decode_some_iff (fromRead : Parser UInt8 DecodeError T) (b : Bytes) :
    (∃ x, (decode fromRead b).1 = .ok (some x)) ↔ ∃ x rest, fromRead b = (.ok x, rest) := by
  rcases decode_cases fromRead b with ⟨x, rest, left, read, answer⟩ |
    ⟨⟨e, rest, read, -⟩, answer⟩ | ⟨text, rest, read, answer⟩
  · rw [answer, read]
    exact ⟨fun _ => ⟨x, rest, rfl⟩, fun _ => ⟨x, rfl⟩⟩
  · rw [answer, read]
    simp
  · rw [answer, read]
    simp

theorem decode_none_iff (fromRead : Parser UInt8 DecodeError T) (b : Bytes) :
    (decode fromRead b).1 = .ok none ↔ Unfinished fromRead b := by
  rcases decode_cases fromRead b with ⟨x, rest, left, read, answer⟩ | ⟨unfinished, answer⟩ |
    ⟨text, rest, read, answer⟩
  · rw [answer]
    constructor
    · nofun
    · rintro ⟨e, rest, failed, -⟩
      rw [read] at failed
      cases failed
  · rw [answer]
    exact ⟨fun _ => unfinished, fun _ => rfl⟩
  · rw [answer]
    constructor
    · nofun
    · rintro ⟨e, rest, failed, kind⟩
      rw [read] at failed
      cases failed
      exact absurd rfl (kind text)

/-- Where the decoder waits, it waits for something exactly when the bytes begin a frame. -/
theorem waiting_hopeful_iff {fromRead : Parser UInt8 DecodeError T}
    (reader : Incremental OutOfBytes fromRead) {b : Bytes}
    (waits : (decode fromRead b).1 = .ok none) :
    Hopeful fromRead b ↔ ∃ frame, IsFrame fromRead frame ∧ b <+: frame := by
  obtain ⟨e, rest, failed, -⟩ := (decode_none_iff fromRead b).mp waits
  rw [← more_helps_iff reader failed]
  unfold Hopeful
  simp only [decode_some_iff]

/-! A buffer that is unfinished whatever comes. -/

section Endless
variable {fromRead : Parser UInt8 DecodeError T} {b : Bytes}
  (endless : ∀ more, Unfinished fromRead (b ++ more))
include endless

theorem endless_waits (more : Bytes) : decode fromRead (b ++ more) = (.ok none, b ++ more) :=
  decode_unfinished (endless more)

theorem endless_hopeless (more : Bytes) (x : T) :
    (decode fromRead (b ++ more)).1 ≠ .ok (some x) := by
  rw [endless_waits endless more]
  nofun

theorem endless_stalls {phase : ReadPhase} (opened : phase ≠ .closed) {ls : List (ReadEvent T)}
    {d : ReadLoop} (run : ReadRun fromRead ⟨b, phase⟩ ls d) :
    yielded ls = [] ∧ (∀ e, ReadEvent.failed e ∉ ls) ∧ d.phase ≠ .closed ∧
      d.src = b ++ (fed ls).flatten := by
  refine run_history (fun ls d => yielded ls = [] ∧ (∀ e, ReadEvent.failed e ∉ ls) ∧
    d.phase ≠ .closed ∧ d.src = b ++ (fed ls).flatten) ?_ ?_ run
  · exact ⟨rfl, fun e => List.not_mem_nil, opened, (List.append_nil b).symm⟩
  · rintro ls d l d' - ⟨quiet, calm, -, rest⟩ step
    have waits : decode fromRead d.src = (.ok none, d.src) := by
      rw [rest]
      exact endless_waits endless _
    cases step with
    | chunk src bytes =>
      refine ⟨by simp [yielded_snoc, quiet, ReadEvent.yielded], by simpa using calm, by simp, ?_⟩
      simp only at rest
      rw [rest, fed_snoc]
      simp [ReadEvent.fed]
    | item read =>
      rw [waits] at read
      cases read
    | idle read =>
      rw [waits] at read
      obtain ⟨-, rfl⟩ := Prod.mk.inj read
      refine ⟨by simp [yielded_snoc, quiet, ReadEvent.yielded], by simpa using calm, by simp, ?_⟩
      simp only at rest ⊢
      rw [rest, fed_snoc]
      simp [ReadEvent.fed]
    | failed read =>
      rw [waits] at read
      cases read

end Endless

/-! Which bytes are which. -/

/-- The bytes begin the encoding of an item, or begin with one. -/
def Begun (serialize : T → Except String Bytes) (b : Bytes) : Prop :=
  ∃ x frame, serialize x = .ok frame ∧ (b <+: frame ∨ frame <+: b)

/-- The marker is a value by itself: a small number, nil or a boolean. -/
def OneByteValue (marker : UInt8) : Prop :=
  marker < 0x80 ∨ marker ∈ ([0xC0, 0xC2, 0xC3] : Bytes) ∨ 0xE0 ≤ marker

def mapHeader (n : Nat) : UInt8 := UInt8.ofNat (0x80 + n)

/-- What the library answers to the first byte of an enum, however it goes on: a variant is a
    map of one entry, and no value of one byte is a variant with fields. -/
structure ChecksFirst (fromRead : Parser UInt8 DecodeError T) : Prop where
  counted : ∀ n rest, n < 16 → n ≠ 1 →
    ∃ left, fromRead (mapHeader n :: rest) = (.error (.lengthMismatch n), left)
  typed : ∀ marker rest, OneByteValue marker →
    ∃ text left, fromRead (marker :: rest) = (.error (.other text), left)

theorem begun_hopeful {fromRead : Parser UInt8 DecodeError T} {serialize : T → Except String Bytes}
    (law : ReadsBack fromRead serialize) {b : Bytes} (begun : Begun serialize b) :
    Hopeful fromRead b := by
  obtain ⟨x, frame, sent, ⟨missing, rfl⟩ | ⟨behind, rfl⟩⟩ := begun
  · have whole := law.whole x _ sent []
    rw [List.append_nil] at whole
    exact ⟨missing, (decode_some_iff _ _).mpr ⟨x, [], whole⟩⟩
  · have whole := law.whole x _ sent (behind ++ [])
    rw [← List.append_assoc] at whole
    exact ⟨[], (decode_some_iff _ _).mpr ⟨x, _, whole⟩⟩

section First
variable {fromRead : Parser UInt8 DecodeError T} (first : ChecksFirst fromRead)
include first

theorem oneByte_refused {marker : UInt8} (value : OneByteValue marker) (rest : Bytes) :
    ∃ e, (decode fromRead (marker :: rest)).1 = .error e := by
  obtain ⟨text, left, failed⟩ := first.typed marker rest value
  rw [decode_other failed]
  exact ⟨_, rfl⟩

theorem miscounted_endless {n : Nat} (small : n < 16) (wrong : n ≠ 1) (rest more : Bytes) :
    Unfinished fromRead ((mapHeader n :: rest) ++ more) := by
  obtain ⟨left, failed⟩ := first.counted n (rest ++ more) small wrong
  exact ⟨_, left, failed, nofun⟩

end First

theorem oneByte_no_map {marker : UInt8} (value : OneByteValue marker) :
    ¬(0x80 ≤ marker.toNat ∧ marker.toNat < 0x80 + 16) := by
  rintro ⟨low, high⟩
  rcases value with below | among | above
  · exact absurd (UInt8.lt_iff_toNat_lt.mp below) (Nat.not_lt.mpr low)
  · simp only [List.mem_cons, List.not_mem_nil, or_false] at among
    rcases among with rfl | rfl | rfl <;> exact absurd high (by decide)
  · have far : 0xE0 ≤ marker.toNat := UInt8.le_iff_toNat_le.mp above
    omega

theorem checksFirst_readCommand : ChecksFirst Wire.readCommand := by
  constructor
  · intro n rest small wrong
    have entries : Reads Wire.readMapLen [mapHeader n] n := Wire.reads_readCount small (by decide)
    have opened : Wire.readCommand ([mapHeader n] ++ rest) = _ := andThen_ok (entries rest)
    rw [List.singleton_append, if_neg wrong] at opened
    exact ⟨rest, opened⟩
  · intro marker rest value
    have marked : Wire.readByte (marker :: rest) = (.ok marker, rest) := reads_next _ marker rest
    have refused : Wire.readMapLen (marker :: rest) = (.error (.other "invalid type"), rest) := by
      unfold Wire.readMapLen Wire.readCount
      rw [andThen_ok marked, if_neg (oneByte_no_map value)]
      rfl
    exact ⟨_, rest, andThen_error refused⟩

theorem shortName_hopeless : ¬Hopeful Wire.readCommand [0x81, 0xA3] := by
  rintro ⟨more, some⟩
  obtain ⟨x, rest, read⟩ := (decode_some_iff _ _).mp some
  have entries : Reads Wire.readMapLen [Wire.packCount 0x80 1] 1 :=
    Wire.reads_readCount (by decide) (by decide)
  have letters : Reads (Wire.readCount 0xA0 32) [Wire.packCount 0xA0 3] 3 :=
    Wire.reads_readCount (by decide) (by decide)
  rw [show Wire.packCount 0x80 1 = 0x81 by decide] at entries
  rw [show Wire.packCount 0xA0 3 = 0xA3 by decide] at letters
  have opened : Wire.readCommand ([0x81, 0xA3] ++ more) =
      andThen Wire.readStrBytes Wire.readVariant ([0xA3] ++ more) := andThen_ok (entries _)
  have named : Wire.readStrBytes ([0xA3] ++ more) =
      take (DecodeError.invalidDataRead "end of file") 3 more := andThen_ok (letters more)
  rw [opened] at read
  unfold take at named
  split at named
  · rename_i enough
    have length : (more.take 3).length = 3 := List.length_take_of_le enough
    have other : ∀ word : Bytes, word.length ≠ 3 → more.take 3 ≠ word := by
      rintro word long rfl
      exact long length
    rw [andThen_ok named, Wire.readVariant, if_neg (other _ (by decide)),
      if_neg (other _ (by decide)), if_neg (other _ (by decide))] at read
    cases read
  · rw [andThen_error named] at read
    cases read

end PubSub
