import Mathlib.Data.List.Basic

/- Parsers that read from the front of a stream whose end may not have arrived yet.
   A failure either ran out of input or is final; what a success leaves is not looked at. -/
namespace StreamParsing
variable {S E A B : Type}

abbrev Parser (S E A : Type) := List S → Except E A × List S

/-- The parser takes exactly `frame`, for `a`, whatever comes after it. -/
def Reads (p : Parser S E A) (frame : List S) (a : A) : Prop :=
  ∀ more, p (frame ++ more) = (.ok a, more)

structure Incremental (ranOut : E → Prop) (p : Parser S E A) : Prop where
  consumes : ∀ b a rest, p b = (.ok a, rest) → ∃ frame, b = frame ++ rest ∧ Reads p frame a
  decided : ∀ b e rest, p b = (.error e, rest) → ¬ranOut e →
    ∀ more, ∃ left, p (b ++ more) = (.error e, left)

def IsFrame (p : Parser S E A) (frame : List S) : Prop := ∃ a, p frame = (.ok a, [])

/-- The parser gave up for want of input. -/
def RanOut (ranOut : E → Prop) (p : Parser S E A) (b : List S) : Prop :=
  ∃ e rest, p b = (.error e, rest) ∧ ranOut e

def succeed (a : A) : Parser S E A := fun b => (.ok a, b)

def fail (e : E) : Parser S E A := fun b => (.error e, b)

def andThen (p : Parser S E A) (f : A → Parser S E B) : Parser S E B := fun b =>
  match p b with
  | (.ok a, rest) => f a rest
  | (.error e, rest) => (.error e, rest)

def next (short : E) : Parser S E S
  | [] => (.error short, [])
  | s :: rest => (.ok s, rest)

def take (short : E) (n : Nat) : Parser S E (List S) := fun b =>
  if n ≤ b.length then (.ok (b.take n), b.drop n) else (.error short, [])

theorem incremental_succeed (ranOut : E → Prop) (a : A) :
    Incremental ranOut (succeed a : Parser S E A) := by
  constructor
  · intro b x rest read
    obtain ⟨same, rfl⟩ := Prod.mk.inj read
    obtain rfl := Except.ok.inj same
    exact ⟨[], rfl, fun more => rfl⟩
  · intro b e rest read
    cases read

theorem incremental_fail (ranOut : E → Prop) (e : E) :
    Incremental ranOut (fail e : Parser S E A) := by
  constructor
  · intro b x rest read
    cases read
  · intro b e' rest read final more
    obtain ⟨same, -⟩ := Prod.mk.inj read
    cases same
    exact ⟨b ++ more, rfl⟩

theorem incremental_ite {ranOut : E → Prop} {p q : Parser S E A} (c : Prop) [Decidable c]
    (first : Incremental ranOut p) (second : Incremental ranOut q) :
    Incremental ranOut (if c then p else q) := by
  split
  · exact first
  · exact second

theorem reads_next (short : E) (s : S) : Reads (next short) [s] s := by
  intro more
  rfl

theorem incremental_next {ranOut : E → Prop} {short : E} (out : ranOut short) :
    Incremental ranOut (next short : Parser S E S) := by
  constructor
  · intro b s rest read
    cases b with
    | nil => cases read
    | cons head tail =>
      obtain ⟨same, rfl⟩ := Prod.mk.inj read
      obtain rfl := Except.ok.inj same
      exact ⟨[head], rfl, reads_next short head⟩
  · intro b e rest read final
    cases b with
    | nil =>
      obtain ⟨same, -⟩ := Prod.mk.inj read
      cases same
      exact absurd out final
    | cons head tail => cases read

theorem reads_take (short : E) (front : List S) : Reads (take short front.length) front front := by
  intro more
  unfold take
  rw [if_pos (by simp), List.take_left, List.drop_left]

theorem incremental_take {ranOut : E → Prop} {short : E} (out : ranOut short) (n : Nat) :
    Incremental ranOut (take short n : Parser S E (List S)) := by
  constructor
  · intro b front rest read
    unfold take at read
    split at read
    · rename_i enough
      obtain ⟨same, rfl⟩ := Prod.mk.inj read
      obtain rfl := Except.ok.inj same
      have full : (b.take n).length = n := List.length_take_of_le enough
      have read := reads_take short (b.take n)
      rw [full] at read
      exact ⟨b.take n, (List.take_append_drop n b).symm, read⟩
    · cases read
  · intro b e rest read final
    unfold take at read
    split at read
    · cases read
    · obtain ⟨same, -⟩ := Prod.mk.inj read
      cases same
      exact absurd out final

theorem andThen_ok {p : Parser S E A} {f : A → Parser S E B} {b rest : List S} {a : A}
    (first : p b = (.ok a, rest)) : andThen p f b = f a rest := by
  unfold andThen
  rw [first]

theorem andThen_error {p : Parser S E A} {f : A → Parser S E B} {b rest : List S} {e : E}
    (first : p b = (.error e, rest)) : andThen p f b = (.error e, rest) := by
  unfold andThen
  rw [first]

theorem reads_andThen {p : Parser S E A} {f : A → Parser S E B} {front back : List S} {a : A} {x : B}
    (first : Reads p front a) (second : Reads (f a) back x) :
    Reads (andThen p f) (front ++ back) x := by
  intro more
  rw [List.append_assoc, andThen_ok (first (back ++ more))]
  exact second more

theorem reads_cons {p : Parser S E A} {f : A → Parser S E B} {s : S} {back : List S} {a : A} {x : B}
    (first : Reads p [s] a) (second : Reads (f a) back x) : Reads (andThen p f) (s :: back) x :=
  reads_andThen first second

theorem reads_last {p : Parser S E A} {f : A → Parser S E B} {front : List S} {a : A} {x : B}
    (first : Reads p front a) (second : f a = succeed x) : Reads (andThen p f) front x := by
  intro more
  rw [andThen_ok (first more), second]
  rfl

theorem incremental_andThen {ranOut : E → Prop} {p : Parser S E A} {f : A → Parser S E B}
    (first : Incremental ranOut p) (second : ∀ a, Incremental ranOut (f a)) :
    Incremental ranOut (andThen p f) := by
  constructor
  · intro b x rest read
    rcases onFirst : p b with ⟨_ | a, middle⟩
    · rw [andThen_error onFirst] at read
      cases read
    · rw [andThen_ok onFirst] at read
      obtain ⟨front, rfl, again⟩ := first.consumes _ _ _ onFirst
      obtain ⟨back, rfl, onward⟩ := (second a).consumes _ _ _ read
      exact ⟨front ++ back, (List.append_assoc _ _ _).symm, reads_andThen again onward⟩
  · intro b e rest read final more
    rcases onFirst : p b with ⟨e' | a, middle⟩
    · rw [andThen_error onFirst] at read
      obtain ⟨same, rfl⟩ := Prod.mk.inj read
      obtain rfl := Except.error.inj same
      obtain ⟨left, still⟩ := first.decided _ _ _ onFirst final more
      exact ⟨left, andThen_error still⟩
    · rw [andThen_ok onFirst] at read
      obtain ⟨front, rfl, again⟩ := first.consumes _ _ _ onFirst
      obtain ⟨left, still⟩ := (second a).decided _ _ _ read final more
      refine ⟨left, ?_⟩
      rw [List.append_assoc, andThen_ok (again (middle ++ more))]
      exact still

theorem reads_isFrame {p : Parser S E A} {frame : List S} {a : A} (reads : Reads p frame a) :
    IsFrame p frame := by
  have alone := reads []
  rw [List.append_nil] at alone
  exact ⟨a, alone⟩

section Frames
variable {ranOut : E → Prop} {p : Parser S E A} (reader : Incremental ranOut p)
include reader

theorem cut_frame_runs_out {front missing : List S} (frame : IsFrame p (front ++ missing))
    (cut : missing ≠ []) : RanOut ranOut p front := by
  obtain ⟨a, whole⟩ := frame
  rcases onFront : p front with ⟨e | x, rest⟩
  · by_cases out : ranOut e
    · exact ⟨e, rest, onFront, out⟩
    · obtain ⟨left, still⟩ := reader.decided _ _ _ onFront out missing
      rw [whole] at still
      cases still
  · obtain ⟨read, rfl, again⟩ := reader.consumes _ _ _ onFront
    have full := again (rest ++ missing)
    rw [← List.append_assoc, whole] at full
    have nothing := (Prod.mk.inj full).2
    exact absurd (List.append_eq_nil_iff.mp nothing.symm).2 cut

/-- More input helps a parser that failed exactly when what it has begins a frame. -/
theorem more_helps_iff {b left : List S} {e : E} (failed : p b = (.error e, left)) :
    (∃ more a rest, p (b ++ more) = (.ok a, rest)) ↔ ∃ frame, IsFrame p frame ∧ b <+: frame := by
  constructor
  · rintro ⟨more, a, rest, read⟩
    obtain ⟨frame, whole, again⟩ := reader.consumes _ _ _ read
    refine ⟨frame, reads_isFrame again, ?_⟩
    rcases List.prefix_or_prefix_of_prefix (List.prefix_append b more)
      (whole ▸ List.prefix_append frame rest) with inside | ⟨tail, rfl⟩
    · exact inside
    · rw [again tail] at failed
      cases failed
  · rintro ⟨frame, ⟨a, read⟩, tail, rfl⟩
    exact ⟨tail, a, [], read⟩

end Frames
end StreamParsing
