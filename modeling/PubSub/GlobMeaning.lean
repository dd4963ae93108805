import PubSub.TreeMatch

/- Two readings of a pattern by characters, and where the matcher over bytes keeps to
   them: as a regular expression, and, without `*`, position by position. -/
namespace PubSub

def IsAscii (s : Str) : Prop := ∀ c ∈ s, c.toNat < 128

instance (s : Str) : Decidable (IsAscii s) :=
  List.decidableBAll (fun c : Char => c.toNat < 128) s

def castBytes (s : Str) : Str := (asBytes s).map byteChar

/-- `*` as `.*`, `?` as `.`, and every other character literal. -/
inductive RegexMatch : Str → Str → Prop where
  | done : RegexMatch [] []
  | literal {c : Char} {p s : Str}
      (plain : c ≠ multiCharacterWildcard ∧ c ≠ singleCharacterWildcard)
      (rest : RegexMatch p s) : RegexMatch (c :: p) (c :: s)
  | dot {d : Char} {p s : Str} (rest : RegexMatch p s) :
      RegexMatch (singleCharacterWildcard :: p) (d :: s)
  | star {p taken s : Str} (rest : RegexMatch p s) :
      RegexMatch (multiCharacterWildcard :: p) (taken ++ s)

def CharMatch (p s : Str) : Prop :=
  List.Forall₂ (fun c d => c = singleCharacterWildcard ∨ c = d) p s

/-- Each `*` with a `?` before it, so that it takes at least one character. -/
def atLeastOne (p : Str) : Str :=
  p.flatMap fun c => if c = multiCharacterWildcard then
    [singleCharacterWildcard, multiCharacterWildcard] else [c]

theorem single_ne_multi : singleCharacterWildcard ≠ multiCharacterWildcard := by decide

/-! The regular expressions. -/

theorem regexMatch_nil {s : Str} : RegexMatch [] s ↔ s = [] := by
  constructor
  · intro h
    cases h
    rfl
  · rintro rfl
    exact .done

theorem regexMatch_cons {c : Char} {p s : Str} : RegexMatch (c :: p) s ↔
    (c = singleCharacterWildcard ∧ ∃ d rest, s = d :: rest ∧ RegexMatch p rest) ∨
    (c = multiCharacterWildcard ∧ ∃ taken rest, s = taken ++ rest ∧ RegexMatch p rest) ∨
    ((c ≠ multiCharacterWildcard ∧ c ≠ singleCharacterWildcard) ∧
      ∃ rest, s = c :: rest ∧ RegexMatch p rest) := by
  constructor
  · intro h
    cases h with
    | literal plain rest => exact Or.inr (Or.inr ⟨plain, _, rfl, rest⟩)
    | dot rest => exact Or.inl ⟨rfl, _, _, rfl, rest⟩
    | star rest => exact Or.inr (Or.inl ⟨rfl, _, _, rfl, rest⟩)
  · intro h
    rcases h with ⟨rfl, d, rest, rfl, matched⟩ | ⟨rfl, taken, rest, rfl, matched⟩ |
      ⟨plain, rest, rfl, matched⟩
    · exact .dot matched
    · exact .star matched
    · exact .literal plain matched

theorem regexMatch_dot {p s : Str} : RegexMatch (singleCharacterWildcard :: p) s ↔
    ∃ d rest, s = d :: rest ∧ RegexMatch p rest := by
  simp [regexMatch_cons, single_ne_multi]

theorem regexMatch_star {p s : Str} : RegexMatch (multiCharacterWildcard :: p) s ↔
    ∃ taken rest, s = taken ++ rest ∧ RegexMatch p rest := by
  simp [regexMatch_cons, Ne.symm single_ne_multi]

theorem regexMatch_literal {c : Char} {p s : Str}
    (plain : c ≠ multiCharacterWildcard ∧ c ≠ singleCharacterWildcard) :
    RegexMatch (c :: p) s ↔ ∃ rest, s = c :: rest ∧ RegexMatch p rest := by
  simp [regexMatch_cons, plain.1, plain.2]

theorem atLeastOne_star (p : Str) : atLeastOne (multiCharacterWildcard :: p) =
    singleCharacterWildcard :: multiCharacterWildcard :: atLeastOne p := by
  simp [atLeastOne]

theorem atLeastOne_other {c : Char} (other : c ≠ multiCharacterWildcard) (p : Str) :
    atLeastOne (c :: p) = c :: atLeastOne p := by
  simp [atLeastOne, other]

theorem atLeastOne_plain {p : Str} (plain : multiCharacterWildcard ∉ p) : atLeastOne p = p := by
  induction p with
  | nil => rfl
  | cons c p ih =>
    rw [List.mem_cons, not_or] at plain
    rw [atLeastOne_other (Ne.symm plain.1), ih plain.2]

theorem globMatch_iff {p : Str} {b : List UInt8} :
    GlobMatch p b ↔ RegexMatch (atLeastOne p) (b.map byteChar) := by
  constructor
  · intro h
    induction h with
    | done => exact .done
    | @literal c p b s plain same rest ih =>
      rw [atLeastOne_other plain.1, List.map_cons, same]
      exact .literal (by rwa [← same]) ih
    | single rest ih =>
      rw [atLeastOne_other single_ne_multi]
      exact .dot ih
    | @multi p taken s some rest ih =>
      cases taken with
      | nil => contradiction
      | cons first more =>
        rw [atLeastOne_star, List.cons_append, List.map_cons, List.map_append]
        exact .dot (.star ih)
  · intro h
    induction p generalizing b with
    | nil =>
      have empty := regexMatch_nil.mp h
      rw [List.map_eq_nil_iff.mp empty]
      exact .done
    | cons c p ih =>
      by_cases multi : c = multiCharacterWildcard
      · rw [multi, atLeastOne_star] at h
        obtain ⟨d, after, split, h⟩ := regexMatch_dot.mp h
        obtain ⟨taken, rest, split', matched⟩ := regexMatch_star.mp h
        obtain ⟨first, more, rfl, -, rfl⟩ := List.map_eq_cons_iff.mp split
        obtain ⟨held, left, rfl, -, rfl⟩ := List.map_eq_append_iff.mp split'
        rw [multi]
        exact @GlobMatch.multi p (first :: held) left (by simp) (ih matched)
      · rw [atLeastOne_other multi] at h
        by_cases single : c = singleCharacterWildcard
        · rw [single] at h ⊢
          obtain ⟨d, rest, split, matched⟩ := regexMatch_dot.mp h
          obtain ⟨first, more, rfl, -, rfl⟩ := List.map_eq_cons_iff.mp split
          exact .single (ih matched)
        · obtain ⟨rest, split, matched⟩ := (regexMatch_literal ⟨multi, single⟩).mp h
          obtain ⟨first, more, rfl, same, rfl⟩ := List.map_eq_cons_iff.mp split
          exact .literal ⟨multi, single⟩ same.symm (ih matched)

theorem regexMatch_of_atLeastOne {p s : Str} (h : RegexMatch (atLeastOne p) s) :
    RegexMatch p s := by
  induction p generalizing s with
  | nil => exact h
  | cons c p ih =>
    by_cases multi : c = multiCharacterWildcard
    · rw [multi, atLeastOne_star] at h
      obtain ⟨d, after, rfl, starred⟩ := regexMatch_dot.mp h
      obtain ⟨taken, rest, rfl, matched⟩ := regexMatch_star.mp starred
      rw [multi]
      exact @RegexMatch.star p (d :: taken) rest (ih matched)
    · rw [atLeastOne_other multi] at h
      by_cases single : c = singleCharacterWildcard
      · rw [single] at h ⊢
        obtain ⟨d, rest, rfl, matched⟩ := regexMatch_dot.mp h
        exact .dot (ih matched)
      · obtain ⟨rest, rfl, matched⟩ := (regexMatch_literal ⟨multi, single⟩).mp h
        exact .literal ⟨multi, single⟩ (ih matched)

theorem regexMatch_ascii {p s : Str} (h : RegexMatch p s) (ascii : IsAscii s) {c : Char}
    (held : c ∈ p) : c.toNat < 128 := by
  induction h with
  | done => simp at held
  | @literal t p s plain rest ih =>
    rcases List.mem_cons.mp held with rfl | later
    · exact ascii c List.mem_cons_self
    · exact ih (fun d member => ascii d (List.mem_cons_of_mem _ member)) later
  | dot rest ih =>
    rcases List.mem_cons.mp held with rfl | later
    · decide
    · exact ih (fun d member => ascii d (List.mem_cons_of_mem _ member)) later
  | star rest ih =>
    rcases List.mem_cons.mp held with rfl | later
    · decide
    · exact ih (fun d member => ascii d (List.mem_append_right _ member)) later

def withoutStars (p : Str) : Str := p.filter (· ≠ multiCharacterWildcard)

theorem withoutStars_star (p : Str) :
    withoutStars (multiCharacterWildcard :: p) = withoutStars p := by
  simp [withoutStars]

theorem withoutStars_other {c : Char} (other : c ≠ multiCharacterWildcard) (p : Str) :
    withoutStars (c :: p) = c :: withoutStars p := by
  simp [withoutStars, other]

theorem regexMatch_withoutStars (p : Str) : RegexMatch p (withoutStars p) := by
  induction p with
  | nil => exact .done
  | cons c p ih =>
    by_cases multi : c = multiCharacterWildcard
    · rw [multi, withoutStars_star]
      exact @RegexMatch.star p [] _ ih
    · rw [withoutStars_other multi]
      by_cases single : c = singleCharacterWildcard
      · rw [single]
        exact .dot ih
      · exact .literal ⟨multi, single⟩ ih

theorem regexMatch_length {p s : Str} (h : RegexMatch p s) :
    (withoutStars p).length ≤ s.length := by
  induction h with
  | done => simp [withoutStars]
  | literal plain rest ih =>
    rw [withoutStars_other plain.1, List.length_cons, List.length_cons]
    omega
  | dot rest ih =>
    rw [withoutStars_other single_ne_multi, List.length_cons, List.length_cons]
    omega
  | star rest ih =>
    rw [withoutStars_star, List.length_append]
    omega

theorem atLeastOne_length (p : Str) : (withoutStars (atLeastOne p)).length = p.length := by
  induction p with
  | nil => rfl
  | cons c p ih =>
    by_cases multi : c = multiCharacterWildcard
    · rw [multi, atLeastOne_star, withoutStars_other single_ne_multi, withoutStars_star,
        List.length_cons, List.length_cons, ih]
    · rw [atLeastOne_other multi, withoutStars_other multi, List.length_cons, List.length_cons,
        ih]

theorem withoutStars_missed {p : Str} (starred : multiCharacterWildcard ∈ p) :
    ¬ RegexMatch (atLeastOne p) (withoutStars p) := by
  intro matched
  have taken := regexMatch_length matched
  rw [atLeastOne_length] at taken
  have shorter : (withoutStars p).length < p.length :=
    List.length_filter_lt_length_iff_exists.mpr ⟨_, starred, by simp⟩
  omega

theorem regexMatch_iff_charMatch {p : Str} (plain : multiCharacterWildcard ∉ p) (s : Str) :
    RegexMatch p s ↔ CharMatch p s := by
  induction p generalizing s with
  | nil => rw [regexMatch_nil, CharMatch, List.forall₂_nil_left_iff]
  | cons c p ih =>
    rw [List.mem_cons, not_or] at plain
    rw [CharMatch, List.forall₂_cons_left_iff]
    by_cases single : c = singleCharacterWildcard
    · rw [single, regexMatch_dot]
      constructor
      · rintro ⟨d, rest, rfl, matched⟩
        exact ⟨d, rest, Or.inl rfl, (ih plain.2 rest).mp matched, rfl⟩
      · rintro ⟨d, rest, -, matched, rfl⟩
        exact ⟨d, rest, rfl, (ih plain.2 rest).mpr matched⟩
    · rw [regexMatch_literal ⟨Ne.symm plain.1, single⟩]
      constructor
      · rintro ⟨rest, rfl, matched⟩
        exact ⟨c, rest, Or.inr rfl, (ih plain.2 rest).mp matched, rfl⟩
      · rintro ⟨d, rest, wild | rfl, matched, rfl⟩
        · exact absurd wild single
        · exact ⟨rest, rfl, (ih plain.2 rest).mpr matched⟩

def IsLiteral (p : Str) : Prop :=
  ∀ c ∈ p, c ≠ multiCharacterWildcard ∧ c ≠ singleCharacterWildcard

instance (p : Str) : Decidable (IsLiteral p) :=
  List.decidableBAll (fun c => c ≠ multiCharacterWildcard ∧ c ≠ singleCharacterWildcard) p

theorem regexMatch_behind {u q s : Str} (plain : IsLiteral u) (matched : RegexMatch q s) :
    RegexMatch (u ++ q) (u ++ s) := by
  induction u with
  | nil => exact matched
  | cons c u ih =>
    refine .literal (plain c List.mem_cons_self) (ih fun d member => ?_)
    exact plain d (List.mem_cons_of_mem _ member)

theorem regexMatch_self {u : Str} (plain : IsLiteral u) : RegexMatch u u := by
  have whole := regexMatch_behind plain .done
  rwa [List.append_nil] at whole

theorem atLeastOne_behind {u : Str} (plain : IsLiteral u) (q : Str) :
    atLeastOne (u ++ q) = u ++ atLeastOne q := by
  have same : atLeastOne u = u := atLeastOne_plain fun starred => (plain _ starred).1 rfl
  rw [atLeastOne, List.flatMap_append]
  exact congrArg (· ++ atLeastOne q) same

theorem atLeastOne_between {u v : Str} (plainU : IsLiteral u) (plainV : IsLiteral v) (w : Str) :
    RegexMatch (atLeastOne (u ++ multiCharacterWildcard :: v)) (u ++ w ++ v) ↔ w ≠ [] := by
  constructor
  · rintro matched rfl
    have taken := regexMatch_length matched
    rw [atLeastOne_length] at taken
    simp only [List.length_append, List.length_cons, List.length_nil] at taken
    omega
  · intro some
    cases w with
    | nil => contradiction
    | cons d w =>
      have same : atLeastOne v = v := atLeastOne_plain fun starred => (plainV _ starred).1 rfl
      rw [atLeastOne_behind plainU, atLeastOne_star, same, List.append_assoc]
      exact regexMatch_behind plainU (.dot (.star (regexMatch_self plainV)))

/-! The positions. -/

theorem charMatch_length {p s : Str} (matched : CharMatch p s) : p.length = s.length :=
  List.Forall₂.length_eq matched

theorem charMatch_wild (s : Str) :
    CharMatch (List.replicate s.length singleCharacterWildcard) s := by
  induction s with
  | nil => exact .nil
  | cons d s ih => exact .cons (Or.inl rfl) ih

theorem charMatch_fill (p : Str) (d : Char) :
    CharMatch p (p.map fun c => if c = singleCharacterWildcard then d else c) := by
  induction p with
  | nil => exact .nil
  | cons c p ih =>
    refine .cons ?_ ih
    by_cases single : c = singleCharacterWildcard
    · exact Or.inl single
    · exact Or.inr (if_neg single).symm

theorem charMatch_literal {p : Str} (plain : singleCharacterWildcard ∉ p) {s : Str} :
    CharMatch p s ↔ p = s := by
  constructor
  · intro matched
    induction matched with
    | nil => rfl
    | cons here rest ih =>
      rw [List.mem_cons, not_or] at plain
      rcases here with wild | rfl
      · exact absurd wild.symm plain.1
      · rw [ih plain.2]
  · rintro rfl
    exact List.forall₂_same.mpr fun c _ => Or.inr rfl

/-! The bytes of a string and its characters. -/

theorem castBytes_cons (c : Char) (s : Str) :
    castBytes (c :: s) = (String.utf8EncodeChar c).map byteChar ++ castBytes s := by
  simp [castBytes, asBytes]

theorem utf8Size_ascii {c : Char} : c.utf8Size = 1 ↔ c.toNat < 128 := by
  rw [Char.utf8Size_eq_one_iff]
  have value : c.val ≤ 127 ↔ c.val.toNat ≤ 127 := UInt32.le_iff_toNat_le
  rw [value]
  change c.toNat ≤ 127 ↔ _
  omega

theorem castBytes_ascii {s : Str} (ascii : IsAscii s) : castBytes s = s := by
  induction s with
  | nil => rfl
  | cons c s ih =>
    have small := ascii c List.mem_cons_self
    have encoded : String.utf8EncodeChar c = [c.val.toUInt8] :=
      String.utf8EncodeChar_eq_singleton (utf8Size_ascii.mpr small)
    have cast : byteChar c.val.toUInt8 = c := by
      have value : c.val.toUInt8.toNat = c.toNat := by
        rw [UInt32.toNat_toUInt8]
        change c.toNat % 256 = c.toNat
        omega
      rw [byteChar, value, Char.ofNat_toNat]
    rw [castBytes_cons, encoded, List.map_singleton, cast,
      ih fun d member => ascii d (List.mem_cons_of_mem _ member)]
    rfl

theorem castBytes_length (s : Str) : s.length ≤ (castBytes s).length := by
  induction s with
  | nil => simp
  | cons c s ih =>
    have size := Char.utf8Size_pos c
    rw [castBytes_cons, List.length_append, List.length_map, String.length_utf8EncodeChar,
      List.length_cons]
    omega

theorem castBytes_longer {s : Str} (outside : ¬ IsAscii s) : s.length < (castBytes s).length := by
  induction s with
  | nil => exact absurd (by simp [IsAscii]) outside
  | cons c s ih =>
    have size := Char.utf8Size_pos c
    have tail := castBytes_length s
    rw [castBytes_cons, List.length_append, List.length_map, String.length_utf8EncodeChar,
      List.length_cons]
    by_cases small : c.toNat < 128
    · have rest : ¬ IsAscii s := by
        intro ascii
        apply outside
        intro d member
        rcases List.mem_cons.mp member with rfl | later
        · exact small
        · exact ascii d later
      have := ih rest
      omega
    · have more : c.utf8Size ≠ 1 := fun one => small (utf8Size_ascii.mp one)
      omega

theorem ascii_of_both {p s : Str} (matched : CharMatch p s) (cast : CharMatch p (castBytes s)) :
    IsAscii s := by
  by_contra outside
  have longer := castBytes_longer outside
  have lengths := charMatch_length matched
  have castLengths := charMatch_length cast
  omega

theorem byteChar_injective : Function.Injective byteChar := by
  intro a b same
  have value : ∀ x : UInt8, (byteChar x).toNat = x.toNat := by
    intro x
    have small : x.toNat < 256 := x.toNat_lt
    have valid : x.toNat.isValidChar := Or.inl (by omega)
    rw [byteChar, Char.ofNat, dif_pos valid]
    rfl
  have codes := congrArg Char.toNat same
  rw [value, value] at codes
  exact UInt8.toNat_inj.mp codes

theorem castBytes_injective : Function.Injective castBytes := by
  intro s r same
  have bytes : asBytes s = asBytes r := byteChar_injective.list_map same
  have decoded : ∀ u : Str, (asBytes u).toByteArray.utf8Decode? = some u.toArray :=
    fun _ => List.utf8Decode?_utf8Encode
  have back := decoded s
  rw [bytes, decoded r] at back
  exact (List.toArray_inj (Option.some.inj back)).symm

namespace GlobTree

theorem first_insert_regex (p s : Str) :
    (new.insert p).check s = true ↔ RegexMatch (atLeastOne p) (castBytes s) := by
  rw [first_insert_check, globMatch_iff, castBytes]

theorem first_insert_ascii {p s : Str} (ascii : IsAscii s) :
    (new.insert p).check s = true ↔ RegexMatch (atLeastOne p) s := by
  rw [first_insert_regex, castBytes_ascii ascii]

theorem first_insert_plain {p : Str} (plain : multiCharacterWildcard ∉ p) (s : Str) :
    (new.insert p).check s = true ↔ CharMatch p (castBytes s) := by
  rw [first_insert_regex, atLeastOne_plain plain, regexMatch_iff_charMatch plain]

/-! Against the regular expression. -/

theorem regex_for_string {p s : Str} (ascii : IsAscii s) :
    ((new.insert p).check s = true ↔ RegexMatch p s) ↔
      (RegexMatch p s → RegexMatch (atLeastOne p) s) := by
  rw [first_insert_ascii ascii]
  exact ⟨fun same => same.mpr, fun taken => ⟨regexMatch_of_atLeastOne, taken⟩⟩

theorem regex_for_pattern (p : Str) :
    (∀ s, IsAscii s → ((new.insert p).check s = true ↔ RegexMatch p s)) ↔
      (multiCharacterWildcard ∉ p ∨ ¬ IsAscii p) := by
  constructor
  · intro law
    by_cases starred : multiCharacterWildcard ∈ p
    · refine Or.inr fun ascii => withoutStars_missed starred ?_
      have shorter : IsAscii (withoutStars p) :=
        fun c member => ascii c (List.mem_filter.mp member).1
      exact (first_insert_ascii shorter).mp ((law _ shorter).mpr (regexMatch_withoutStars p))
    · exact Or.inl starred
  · intro harmless s ascii
    rw [first_insert_ascii ascii]
    rcases harmless with plain | outside
    · rw [atLeastOne_plain plain]
    · have missed : ¬ RegexMatch p s :=
        fun matched => outside fun c member => regexMatch_ascii matched ascii member
      exact ⟨regexMatch_of_atLeastOne, fun matched => absurd matched missed⟩

/-- The exact failures of the regular expression: a match in which some star takes nothing. -/
theorem star_as_regex_iff (p s : Str) (ascii : IsAscii s) :
    (((new.insert p).check s = true ↔ RegexMatch p s) ↔
        (RegexMatch p s → RegexMatch (atLeastOne p) s)) ∧
      ((∀ r, IsAscii r → ((new.insert p).check r = true ↔ RegexMatch p r)) ↔
        (multiCharacterWildcard ∉ p ∨ ¬ IsAscii p)) ∧
      ∀ u v w, IsLiteral u → IsLiteral v → p = u ++ multiCharacterWildcard :: v →
        s = u ++ w ++ v → ((new.insert p).check s = true ↔ w ≠ []) := by
  refine ⟨regex_for_string ascii, regex_for_pattern p, ?_⟩
  rintro u v w plainU plainV rfl rfl
  rw [first_insert_ascii ascii]
  exact atLeastOne_between plainU plainV w

theorem star_takes_one : (new.insert ['f', 'o', '*']).check ['f', 'o', 'l'] = true :=
  ((star_as_regex_iff _ _ (by decide)).2.2 ['f', 'o'] [] ['l'] (by decide) (by decide) rfl
    rfl).mpr (by decide)

/-- The pattern `foo*` does not match `foo`. -/
theorem star_takes_nothing_missed :
    ¬ ∀ p s : Str, IsAscii s → ((new.insert p).check s = true ↔ RegexMatch p s) := by
  intro law
  have matched : RegexMatch ['f', 'o', 'o', '*'] ['f', 'o', 'o'] :=
    regexMatch_withoutStars ['f', 'o', 'o', '*']
  have ascii : IsAscii ['f', 'o', 'o'] := by decide
  have taken := (first_insert_ascii ascii).mp ((law _ _ ascii).mpr matched)
  exact withoutStars_missed (by decide) taken

/-! Against the comparison by characters. -/

theorem characters_of_pair {p : Str} (plain : multiCharacterWildcard ∉ p) (s : Str) :
    ((new.insert p).check s = true ↔ CharMatch p s) ↔
      (IsAscii s ∨ (¬ CharMatch p s ∧ ¬ CharMatch p (castBytes s))) := by
  rw [first_insert_plain plain]
  constructor
  · intro same
    by_cases matched : CharMatch p s
    · exact Or.inl (ascii_of_both matched (same.mpr matched))
    · exact Or.inr ⟨matched, fun cast => matched (same.mp cast)⟩
  · intro harmless
    rcases harmless with ascii | ⟨missed, castMissed⟩
    · rw [castBytes_ascii ascii]
    · exact ⟨fun cast => absurd cast castMissed, fun matched => absurd matched missed⟩

theorem characters_of_string (s : Str) :
    (∀ p, multiCharacterWildcard ∉ p → ((new.insert p).check s = true ↔ CharMatch p s)) ↔
      IsAscii s := by
  constructor
  · intro law
    have plain : multiCharacterWildcard ∉ List.replicate s.length singleCharacterWildcard :=
      fun starred => single_ne_multi (List.eq_of_mem_replicate starred).symm
    have matched := charMatch_wild s
    exact ascii_of_both matched ((first_insert_plain plain s).mp ((law _ plain).mpr matched))
  · intro ascii p plain
    rw [first_insert_plain plain, castBytes_ascii ascii]

theorem characters_of_pattern {p : Str} (plain : multiCharacterWildcard ∉ p) :
    (∀ s, (new.insert p).check s = true ↔ CharMatch p s) ↔
      (IsAscii p ∧ singleCharacterWildcard ∉ p) := by
  constructor
  · intro law
    have settled : ∀ s, CharMatch p s → IsAscii s := fun s matched =>
      ascii_of_both matched ((first_insert_plain plain s).mp ((law s).mpr matched))
    refine ⟨settled p (List.forall₂_same.mpr fun c _ => Or.inr rfl), fun wild => ?_⟩
    have filled := settled _ (charMatch_fill p 'é')
    have outside := filled 'é' (List.mem_map.mpr ⟨_, wild, if_pos rfl⟩)
    revert outside
    decide
  · intro ⟨ascii, single⟩ s
    rw [first_insert_plain plain, charMatch_literal single, charMatch_literal single]
    constructor
    · intro cast
      rw [← castBytes_ascii ascii] at cast
      exact castBytes_injective cast
    · intro same
      rw [← same, castBytes_ascii ascii]

/-- The exact failures of the comparison by characters: all outside ASCII. -/
theorem compared_by_characters_iff (p s : Str) (plain : multiCharacterWildcard ∉ p) :
    (((new.insert p).check s = true ↔ CharMatch p s) ↔
        (IsAscii s ∨ (¬ CharMatch p s ∧ ¬ CharMatch p (castBytes s)))) ∧
      ((∀ r, (new.insert p).check r = true ↔ CharMatch p r) ↔
        (IsAscii p ∧ singleCharacterWildcard ∉ p)) ∧
      ((∀ q, multiCharacterWildcard ∉ q → ((new.insert q).check s = true ↔ CharMatch q s)) ↔
        IsAscii s) :=
  ⟨characters_of_pair plain s, characters_of_pattern plain, characters_of_string s⟩

theorem ascii_name_compared :
    (new.insert ['a', '?']).check ['a', 'b'] = true ↔ CharMatch ['a', '?'] ['a', 'b'] :=
  (compared_by_characters_iff _ _ (by decide)).1.mpr (Or.inl (by decide))

/-- The topic `é` is not matched by the pattern spelled like it. -/
theorem accented_name_missed :
    ¬ ∀ p s : Str, multiCharacterWildcard ∉ p →
      ((new.insert p).check s = true ↔ CharMatch p s) := by
  intro law
  have matched : CharMatch ['é'] ['é'] := .cons (Or.inr rfl) .nil
  have plain : multiCharacterWildcard ∉ ['é'] := by decide
  have cast := (first_insert_plain plain _).mp ((law _ _ plain).mpr matched)
  have lengths := charMatch_length cast
  revert lengths
  decide

end GlobTree
end PubSub
