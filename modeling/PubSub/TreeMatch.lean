import PubSub.TreeRuns

/- What the tree matcher decides: some held pattern matches the bytes. The pattern
   semantics is the reference one, one rule for each kind of pattern character. -/
namespace PubSub

/-- A literal takes one byte with its code point, `?` one byte, `*` one or more. -/
inductive GlobMatch : Str → List UInt8 → Prop where
  | done : GlobMatch [] []
  | literal {c : Char} {p : Str} {b : UInt8} {s : List UInt8}
      (plain : c ≠ multiCharacterWildcard ∧ c ≠ singleCharacterWildcard)
      (same : c = byteChar b) (rest : GlobMatch p s) : GlobMatch (c :: p) (b :: s)
  | single {p : Str} {b : UInt8} {s : List UInt8} (rest : GlobMatch p s) :
      GlobMatch (singleCharacterWildcard :: p) (b :: s)
  | multi {p : Str} {taken s : List UInt8} (some : taken ≠ []) (rest : GlobMatch p s) :
      GlobMatch (multiCharacterWildcard :: p) (taken ++ s)

theorem globMatch_nil_left {s : List UInt8} : GlobMatch [] s ↔ s = [] := by
  constructor
  · intro h
    cases h
    rfl
  · rintro rfl
    exact .done

theorem globMatch_nil_right {p : Str} : GlobMatch p [] ↔ p = [] := by
  constructor
  · intro h
    generalize empty : ([] : List UInt8) = s at h
    cases h with
    | done => rfl
    | literal => simp at empty
    | single => simp at empty
    | multi some rest =>
      obtain ⟨none, _⟩ := List.append_eq_nil_iff.mp empty.symm
      exact absurd none some
  · rintro rfl
    exact .done

theorem globMatch_cons_cons {t : Char} {p : Str} {b : UInt8} {s : List UInt8} :
    GlobMatch (t :: p) (b :: s) ↔
      (t = byteChar b ∨ t = multiCharacterWildcard ∨ t = singleCharacterWildcard) ∧
        (GlobMatch p s ∨ (t = multiCharacterWildcard ∧ GlobMatch (t :: p) s)) := by
  constructor
  · intro h
    generalize eq : b :: s = whole at h
    cases h with
    | literal plain same rest =>
      obtain ⟨rfl, rfl⟩ := List.cons.inj eq
      exact ⟨Or.inl same, Or.inl rest⟩
    | single rest =>
      obtain ⟨rfl, rfl⟩ := List.cons.inj eq
      exact ⟨Or.inr (Or.inr rfl), Or.inl rest⟩
    | @multi _ taken after some rest =>
      refine ⟨Or.inr (Or.inl rfl), ?_⟩
      cases taken with
      | nil => contradiction
      | cons first more =>
        obtain ⟨rfl, rfl⟩ := List.cons.inj eq
        cases more with
        | nil => exact Or.inl rest
        | cons second more => exact Or.inr ⟨rfl, .multi (by simp) rest⟩
  · rintro ⟨accepted, rest⟩
    by_cases multi : t = multiCharacterWildcard
    · subst multi
      rcases rest with rest | ⟨_, rest⟩
      · exact @GlobMatch.multi p [b] s (by simp) rest
      · generalize eq : multiCharacterWildcard :: p = pattern at rest
        cases rest with
        | done => simp at eq
        | literal plain =>
          obtain ⟨rfl, rfl⟩ := List.cons.inj eq
          exact absurd rfl plain.1
        | single =>
          simp [multiCharacterWildcard, singleCharacterWildcard] at eq
        | @multi _ taken after some rest =>
          obtain ⟨-, rfl⟩ := List.cons.inj eq
          exact @GlobMatch.multi p (b :: taken) after (by simp) rest
    · have rest : GlobMatch p s := by
        rcases rest with rest | ⟨again, _⟩
        · exact rest
        · exact absurd again multi
      by_cases single : t = singleCharacterWildcard
      · rw [single]
        exact .single rest
      · rcases accepted with same | same | same
        · exact .literal ⟨multi, single⟩ same rest
        · exact absurd same multi
        · exact absurd same single

namespace Node

def childMatches (n : Node) (c : Char) (s : List UInt8) (pos : Nat) : Bool :=
  match OrderedMap.find c n.children with
  | some child => child.matchStringWorker s pos
  | none => false

theorem handedOver (n : Node) (c : Char) (s : List UInt8) (pos : Nat) :
    (match _found : OrderedMap.find c n.children with
      | some child => child.matchStringWorker s pos
      | none => false) = n.childMatches c s pos := by
  unfold childMatches
  split <;> rename_i found <;> rw [found]

theorem matchStringWorker_eq (n : Node) (s : List UInt8) (pos : Nat) :
    n.matchStringWorker s pos = (n.accepts s pos &&
      match s[n.nextPos pos]? with
      | some b =>
        n.childMatches (byteChar b) s (n.nextPos pos) ||
        n.childMatches singleCharacterWildcard s (n.nextPos pos) ||
        (decide (n.token = some multiCharacterWildcard) &&
          n.matchStringWorker s (n.nextPos pos)) ||
        n.childMatches multiCharacterWildcard s (n.nextPos pos)
      | none => n.isTerminal) := by
  rw [matchStringWorker]
  cases entered : n.accepts s pos with
  | false => rfl
  | true =>
    simp only [Bool.not_true, Bool.false_eq_true, ↓reduceIte, Bool.true_and]
    split
    · rename_i b inside
      rw [inside]
      refine congrArg₂ or (congrArg₂ or (congrArg₂ or (handedOver ..) (handedOver ..)) ?_)
        (handedOver ..)
      by_cases active : n.token = some multiCharacterWildcard <;> simp [active]
    · rename_i outside
      rw [outside]

theorem descend_iff {n : Node} {s : List UInt8} {pos : Nat} {b : UInt8} {rest : List UInt8}
    (left : s.drop pos = b :: rest)
    (settled : ∀ c child, OrderedMap.find c n.children = some child →
      (child.matchStringWorker s pos = true ↔
        ∃ q, child.containsPattern q = true ∧ GlobMatch (c :: q) (s.drop pos))) :
    (n.childMatches (byteChar b) s pos = true ∨
      n.childMatches singleCharacterWildcard s pos = true ∨
      n.childMatches multiCharacterWildcard s pos = true) ↔
        ∃ q, n.containsPattern q = true ∧ GlobMatch q (s.drop pos) := by
  have child : ∀ c, n.childMatches c s pos = true ↔
      ∃ q, n.containsPattern (c :: q) = true ∧ GlobMatch (c :: q) (s.drop pos) := by
    intro c
    cases found : OrderedMap.find c n.children with
    | none => simp [childMatches, containsPattern, found]
    | some child => simp only [childMatches, containsPattern, found, settled c child found]
  constructor
  · rintro (h | h | h) <;> obtain ⟨q, held, matched⟩ := (child _).mp h <;>
      exact ⟨_, held, matched⟩
  · rintro ⟨q, held, matched⟩
    cases q with
    | nil =>
      rw [left] at matched
      exact absurd (globMatch_nil_left.mp matched) (by simp)
    | cons c q =>
      have accepted := matched
      rw [left, globMatch_cons_cons] at accepted
      have found := (child c).mpr ⟨q, held, matched⟩
      rcases accepted.1 with rfl | rfl | rfl
      · exact Or.inl found
      · exact Or.inr (Or.inr found)
      · exact Or.inr (Or.inl found)

theorem terminal_iff (n : Node) :
    n.isTerminal = true ↔ ∃ q, n.containsPattern q = true ∧ GlobMatch q [] := by
  simp only [globMatch_nil_right, exists_eq_right, containsPattern]

theorem accepts_iff {n : Node} {t : Char} (token : n.token = some t) (s : List UInt8)
    (pos : Nat) : n.accepts s pos = true ↔ ∃ b, s[pos]? = some b ∧
      (t = byteChar b ∨ t = multiCharacterWildcard ∨ t = singleCharacterWildcard) := by
  cases inside : s[pos]? with
  | none => simp [accepts, token, inside]
  | some b => simp [accepts, token, inside]

theorem matchStringWorker_iff {n : Node} {t : Char} (wf : n.WellFormed) (token : n.token = some t)
    (s : List UInt8) (pos : Nat) :
    n.matchStringWorker s pos = true ↔
      ∃ q, n.containsPattern q = true ∧ GlobMatch (t :: q) (s.drop pos) := by
  induction size : s.length - pos using Nat.strongRecOn generalizing n t pos with
  | ind size ih =>
    have next : n.nextPos pos = pos + 1 := by simp [nextPos, token]
    rw [matchStringWorker_eq, Bool.and_eq_true, accepts_iff token, next]
    cases here : s[pos]? with
    | none =>
      have ended : s.drop pos = [] :=
        List.drop_eq_nil_of_le (List.getElem?_eq_none_iff.mp here)
      simp [ended, globMatch_nil_right]
    | some b =>
      obtain ⟨inside, value⟩ := List.getElem?_eq_some_iff.mp here
      have taken : s.drop pos = b :: s.drop (pos + 1) := by
        rw [List.drop_eq_getElem_cons inside, value]
      simp only [taken, globMatch_cons_cons, Option.some.injEq, exists_eq_left']
      cases following : s[pos + 1]? with
      | none =>
        have ended : s.drop (pos + 1) = [] :=
          List.drop_eq_nil_of_le (List.getElem?_eq_none_iff.mp following)
        have last : ¬ GlobMatch (t :: []) [] := by simp [globMatch_nil_right]
        simp only [ended, terminal_iff]
        constructor
        · rintro ⟨accepted, q, held, matched⟩
          exact ⟨q, held, accepted, Or.inl matched⟩
        · rintro ⟨q, held, accepted, matched | ⟨_, matched⟩⟩
          · exact ⟨accepted, q, held, matched⟩
          · simp [globMatch_nil_right] at matched
      | some b' =>
        obtain ⟨inside', value'⟩ := List.getElem?_eq_some_iff.mp following
        have taken' : s.drop (pos + 1) = b' :: s.drop (pos + 1 + 1) := by
          rw [List.drop_eq_getElem_cons inside', value']
        have below := descend_iff taken' fun c child found =>
          ih (s.length - (pos + 1)) (by omega) (wf.child found) (wf.tokens found) (pos + 1) rfl
        have again := ih (s.length - (pos + 1)) (by omega) wf token (pos + 1) rfl
        simp only [Bool.or_eq_true, Bool.and_eq_true, decide_eq_true_eq, token,
          Option.some.injEq, again]
        constructor
        · rintro ⟨accepted, ((h | h) | ⟨multi, q, held, matched⟩) | h⟩
          · obtain ⟨q, held, matched⟩ := below.mp (Or.inl h)
            exact ⟨q, held, accepted, Or.inl matched⟩
          · obtain ⟨q, held, matched⟩ := below.mp (Or.inr (Or.inl h))
            exact ⟨q, held, accepted, Or.inl matched⟩
          · exact ⟨q, held, accepted, Or.inr ⟨multi, matched⟩⟩
          · obtain ⟨q, held, matched⟩ := below.mp (Or.inr (Or.inr h))
            exact ⟨q, held, accepted, Or.inl matched⟩
        · rintro ⟨q, held, accepted, matched | ⟨multi, matched⟩⟩
          · refine ⟨accepted, ?_⟩
            rcases below.mpr ⟨q, held, matched⟩ with h | h | h
            · exact Or.inl (Or.inl (Or.inl h))
            · exact Or.inl (Or.inl (Or.inr h))
            · exact Or.inr h
          · exact ⟨accepted, Or.inl (Or.inr ⟨multi, q, held, matched⟩)⟩

end Node

namespace GlobTree

/-- The matcher answers for the tree what the reference semantics answers for the
    patterns it holds. -/
theorem check_iff {t : GlobTree} (wf : t.WellFormed) (s : Str) :
    t.check s = true ↔ ∃ p, t.contains p = true ∧ GlobMatch p (asBytes s) := by
  have next : t.root.nextPos 0 = 0 := by simp [Node.nextPos, wf.root]
  have entered : t.root.accepts (asBytes s) 0 = true := by simp [Node.accepts, wf.root]
  simp only [check, Node.matchString, contains]
  rw [Node.matchStringWorker_eq, entered, Bool.true_and, next]
  cases bytes : asBytes s with
  | nil =>
    rw [List.getElem?_nil]
    exact t.root.terminal_iff
  | cons b rest =>
    have below := Node.descend_iff (n := t.root) (List.drop_zero (l := b :: rest))
      fun c child found =>
        Node.matchStringWorker_iff (wf.nodes.child found) (wf.nodes.tokens found) _ 0
    rw [List.drop_zero] at below
    rw [← below]
    simp only [List.getElem?_cons_zero, wf.root, Bool.or_eq_true, Bool.and_eq_true,
      decide_eq_true_eq, reduceCtorEq, false_and, or_false, or_assoc]

theorem new_check (s : Str) : new.check s = false := by
  rw [Bool.eq_false_iff, ne_eq, check_iff new_wellFormed]
  simp [new_holds_nothing]

theorem first_insert_check (p s : Str) :
    (new.insert p).check s = true ↔ GlobMatch p (asBytes s) := by
  rw [check_iff (insert_wellFormed new_wellFormed p)]
  simp only [first_insert_contains, exists_eq_left]

theorem asBytes_nil {s : Str} (empty : asBytes s = []) : s = [] := by
  cases s with
  | nil => rfl
  | cons c s =>
    have encoded := (List.append_eq_nil_iff.mp (show String.utf8EncodeChar c ++ asBytes s = []
      from empty)).1
    have size := congrArg List.length encoded
    rw [String.length_utf8EncodeChar, List.length_nil] at size
    exact absurd size (Nat.ne_of_gt (Char.utf8Size_pos c))

theorem remove_check {t u : GlobTree} (wf : t.WellFormed) (wfU : u.WellFormed) {p : Str}
    {r : Except String Unit} (done : t.remove p = .ok (r, u)) {s : Str}
    (now : u.check s = true) : t.check s = true ∨ (s = [] ∧ t.Exposes p) := by
  obtain ⟨q, held, matched⟩ := (check_iff wfU s).mp now
  rcases remove_contains wf done held with before | ⟨rfl, exposed⟩
  · exact Or.inl ((check_iff wf s).mpr ⟨q, before, matched⟩)
  · exact Or.inr ⟨asBytes_nil (globMatch_nil_left.mp matched), exposed⟩

theorem check_congr {t u : GlobTree} (wfT : t.WellFormed) (wfU : u.WellFormed)
    (same : ∀ p, t.contains p = u.contains p) (s : Str) : t.check s = u.check s := by
  rw [Bool.eq_iff_iff, check_iff wfT, check_iff wfU]
  simp only [same]

end GlobTree
end PubSub
