import Mathlib.Data.List.Forall2
import PubSub.LabelledRun
import PubSub.StreamParsing

/- The codec of a connection and the loop that drives its decoder. The message pack reader
   and serializer are parameters; the decoder copies the stream, so only its count of bytes
   read moves the buffer. -/
namespace PubSub
open LabelledRun StreamParsing

abbrev Bytes := List UInt8

/-- What the reader fails with, as far as the codec looks. -/
inductive DecodeError where
  | lengthMismatch (count : Nat)
  | invalidMarkerRead (cause : String)
  | invalidDataRead (cause : String)
  | other (text : String)
  deriving DecidableEq

def OutOfBytes : DecodeError → Prop
  | .invalidMarkerRead _ | .invalidDataRead _ => True
  | _ => False

inductive ErrorKind where
  | invalidData
  deriving DecidableEq

structure IoError where
  kind : ErrorKind
  text : String
  deriving DecidableEq

namespace MsgPackCodec
variable {T : Type}

def decode (fromRead : Parser UInt8 DecodeError T) (src : Bytes) :
    Except IoError (Option T) × Bytes :=
  let startLen := src.length
  let (command, buf) := fromRead src
  let bytesRead := startLen - buf.length
  match command with
  | .ok c => (.ok (some c), src.drop bytesRead)
  | .error e =>
    -- Not able to parse a value from the data currently in the stream
    match e with
    | .lengthMismatch _ | .invalidMarkerRead _ | .invalidDataRead _ => (.ok none, src)
    | .other text => (.error ⟨.invalidData, text⟩, src)

def encode (serialize : T → Except String Bytes) (item : T) (dst : Bytes) :
    Except IoError Unit × Bytes :=
  match serialize item with
  | .ok buf => (.ok (), dst ++ buf)
  | .error e => (.error ⟨.invalidData, e⟩, dst)

def encodeAll (serialize : T → Except String Bytes) : List T → Bytes → Except IoError Unit × Bytes
  | [], dst => (.ok (), dst)
  | item :: items, dst =>
    match encode serialize item dst with
    | (.ok (), dst) => encodeAll serialize items dst
    | (.error e, dst) => (.error e, dst)

/-- The reader answers as if more bytes were all that is missing. -/
def Unfinished (fromRead : Parser UInt8 DecodeError T) (src : Bytes) : Prop :=
  ∃ e rest, fromRead src = (.error e, rest) ∧ ∀ text, e ≠ .other text

theorem ranOut_unfinished {fromRead : Parser UInt8 DecodeError T} {src : Bytes}
    (out : RanOut OutOfBytes fromRead src) : Unfinished fromRead src := by
  obtain ⟨e, rest, read, kind⟩ := out
  refine ⟨e, rest, read, ?_⟩
  rintro text rfl
  exact kind

theorem decode_frame {fromRead : Parser UInt8 DecodeError T} {frame rest : Bytes} {x : T}
    (read : fromRead (frame ++ rest) = (.ok x, rest)) :
    decode fromRead (frame ++ rest) = (.ok (some x), rest) := by
  unfold decode
  simp [read]

theorem decode_unfinished {fromRead : Parser UInt8 DecodeError T} {src : Bytes}
    (unfinished : Unfinished fromRead src) : decode fromRead src = (.ok none, src) := by
  obtain ⟨e, rest, read, kind⟩ := unfinished
  unfold decode
  rw [read]
  cases e with
  | other text => exact absurd rfl (kind text)
  | _ => rfl

theorem decode_other {fromRead : Parser UInt8 DecodeError T} {src rest : Bytes} {text : String}
    (read : fromRead src = (.error (.other text), rest)) :
    decode fromRead src = (.error ⟨.invalidData, text⟩, src) := by
  unfold decode
  rw [read]

theorem decode_cases (fromRead : Parser UInt8 DecodeError T) (src : Bytes) :
    (∃ x rest left, fromRead src = (.ok x, rest) ∧ decode fromRead src = (.ok (some x), left)) ∨
    (Unfinished fromRead src ∧ decode fromRead src = (.ok none, src)) ∨
    ∃ text rest, fromRead src = (.error (.other text), rest) ∧
      decode fromRead src = (.error ⟨.invalidData, text⟩, src) := by
  rcases read : fromRead src with ⟨e | x, rest⟩
  · by_cases kind : ∃ text, e = .other text
    · obtain ⟨text, rfl⟩ := kind
      exact Or.inr (Or.inr ⟨text, rest, rfl, decode_other read⟩)
    · have unfinished : Unfinished fromRead src := ⟨e, rest, read, fun text same => kind ⟨text, same⟩⟩
      exact Or.inr (Or.inl ⟨unfinished, decode_unfinished unfinished⟩)
  · refine Or.inl ⟨x, rest, src.drop (src.length - rest.length), rfl, ?_⟩
    unfold decode
    rw [read]

abbrev SentAs (serialize : T → Except String Bytes) (xs : List T) (frames : List Bytes) : Prop :=
  List.Forall₂ (fun x frame => serialize x = .ok frame) xs frames

theorem encodeAll_iff (serialize : T → Except String Bytes) (xs : List T) (dst out : Bytes) :
    encodeAll serialize xs dst = (.ok (), out) ↔
      ∃ frames, SentAs serialize xs frames ∧ out = dst ++ frames.flatten := by
  induction xs generalizing dst with
  | nil =>
    unfold encodeAll
    constructor
    · intro done
      exact ⟨[], List.Forall₂.nil, by simpa using (Prod.mk.inj done).2.symm⟩
    · rintro ⟨_, ⟨⟩, rfl⟩
      simp
  | cons x xs ih =>
    unfold encodeAll encode
    cases sent : serialize x with
    | error e =>
      simp only [Prod.mk.injEq, reduceCtorEq, false_and, false_iff]
      rintro ⟨frames, each, -⟩
      cases each with
      | cons first others =>
        rw [sent] at first
        cases first
    | ok buf =>
      simp only [ih]
      constructor
      · rintro ⟨frames, each, rfl⟩
        exact ⟨buf :: frames, List.Forall₂.cons sent each, by simp⟩
      · rintro ⟨_, each, rfl⟩
        cases each with
        | @cons _ frame _ frames first others =>
          rw [sent] at first
          obtain rfl := Except.ok.inj first
          exact ⟨frames, others, by simp⟩

end MsgPackCodec

section ReadLoop
variable {T : Type}
open MsgPackCodec

inductive ReadPhase where
  | waiting | reading | closed
  deriving DecidableEq

structure ReadLoop where
  src : Bytes
  phase : ReadPhase
  deriving DecidableEq

inductive ReadEvent (T : Type) where
  | chunk (bytes : Bytes)
  | item (x : T)
  | idle
  | failed (e : IoError)
  deriving DecidableEq

def ReadLoop.start : ReadLoop := ⟨[], .waiting⟩

inductive ReadStep (fromRead : Parser UInt8 DecodeError T) : ReadLoop → ReadEvent T → ReadLoop → Prop where
  | chunk (src bytes : Bytes) :
      ReadStep fromRead ⟨src, .waiting⟩ (.chunk bytes) ⟨src ++ bytes, .reading⟩
  | item {src left : Bytes} {x : T} (read : decode fromRead src = (.ok (some x), left)) :
      ReadStep fromRead ⟨src, .reading⟩ (.item x) ⟨left, .reading⟩
  | idle {src left : Bytes} (read : decode fromRead src = (.ok none, left)) :
      ReadStep fromRead ⟨src, .reading⟩ .idle ⟨left, .waiting⟩
  -- The stream ends after an error, and with it the loop
  | failed {src left : Bytes} {e : IoError} (read : decode fromRead src = (.error e, left)) :
      ReadStep fromRead ⟨src, .reading⟩ (.failed e) ⟨left, .closed⟩

abbrev ReadRun (fromRead : Parser UInt8 DecodeError T) := Run (ReadStep fromRead)

def ReadEvent.fed : ReadEvent T → Option Bytes
  | .chunk bytes => some bytes
  | _ => none

def ReadEvent.yielded : ReadEvent T → Option T
  | .item x => some x
  | _ => none

def fed (ls : List (ReadEvent T)) : List Bytes := ls.filterMap ReadEvent.fed

def yielded (ls : List (ReadEvent T)) : List T := ls.filterMap ReadEvent.yielded

theorem fed_snoc (ls : List (ReadEvent T)) (l : ReadEvent T) :
    fed (ls ++ [l]) = fed ls ++ l.fed.toList :=
  filterMap_snoc ReadEvent.fed ls l

theorem yielded_snoc (ls : List (ReadEvent T)) (l : ReadEvent T) :
    yielded (ls ++ [l]) = yielded ls ++ l.yielded.toList :=
  filterMap_snoc ReadEvent.yielded ls l

theorem reading_goes_on (fromRead : Parser UInt8 DecodeError T) (src : Bytes) :
    ∃ l d, ReadStep fromRead ⟨src, .reading⟩ l d ∧ l.fed = none := by
  rcases decode_cases fromRead src with ⟨x, rest, left, -, read⟩ | ⟨-, read⟩ | ⟨text, rest, -, read⟩
  · exact ⟨_, _, ReadStep.item read, rfl⟩
  · exact ⟨_, _, ReadStep.idle read, rfl⟩
  · exact ⟨_, _, ReadStep.failed read, rfl⟩

end ReadLoop
end PubSub
