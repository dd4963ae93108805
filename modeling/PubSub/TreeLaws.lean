import PubSub.TreeList

/- The laws one expects of insert and remove, with the exact condition on the counts
   under which the code meets each. The last node of a pattern is counted twice by
   insert and once by remove, and the second count is charged to the node above it. -/
namespace PubSub
namespace GlobTree

/-! Inserting a pattern. -/

/-- The counts before the insert leave room for it: the new pattern rises above the
    nodes below it, and a held prefix of it stays above the nodes below. -/
def InsertExact (t : GlobTree) (p q : Str) : Prop :=
  (q = p → t.root.childCountAt q ≤ t.root.countAt q + if q = [] then 0 else 1) ∧
    (q ≠ p → q <+: p → ¬ (t.root.childCountAt q < t.root.countAt q ∧
      t.root.countAt q ≤
        t.root.childCountAt q + (if q = [] then 1 else 0) + Node.aboveEnd p q))

instance (t : GlobTree) (p q : Str) : Decidable (t.InsertExact p q) :=
  inferInstanceAs (Decidable (_ ∧ _))

theorem insert_adds_only_iff {t : GlobTree} (reachable : t.Reachable) (p q : Str) :
    ((t.insert p).contains q = true ↔ q = p ∨ t.contains q = true) ↔ t.InsertExact p q := by
  rw [contains_insert (reachable_wellFormed reachable), contains_iff]
  by_cases same : q = p
  · subst same
    simp only [InsertExact, Node.leaves_self, Node.aboveEnd_self, Node.ends_self, true_or,
      forall_const, ne_eq, not_true_eq_false, false_implies, and_true, iff_true]
    by_cases empty : q = []
    · simp only [empty, Node.passes_nil, ↓reduceIte]
      omega
    · simp only [empty, Node.passes_self empty, ↓reduceIte]
      omega
  · by_cases onPath : q <+: p
    · simp only [InsertExact, same, onPath, Node.ends_other same, ne_eq, not_false_eq_true,
        forall_const, false_implies, true_and, false_or]
      by_cases empty : q = []
      · subst empty
        rw [Node.passes_nil, Node.leaves_nil (Ne.symm same)]
        simp only [↓reduceIte]
        omega
      · rw [Node.passes_eq_leaves empty same]
        simp only [empty, ↓reduceIte]
        omega
    · simp [InsertExact, same, onPath, Node.passes, Node.leaves, Node.aboveEnd, Node.ends]

theorem longer_insert_keeps :
    (((new.insert ['a', 'b']).insert ['b', '*']).insert ['a', 'b', 'c']).contains ['a', 'b'] = true ↔
      ['a', 'b'] = ['a', 'b', 'c'] ∨
        ((new.insert ['a', 'b']).insert ['b', '*']).contains ['a', 'b'] = true :=
  (insert_adds_only_iff ⟨_, .snoc (.snoc (.nil _) (.insert _ _)) (.insert _ _)⟩ _ _).mpr (by decide)

/-- The pattern `a` disappears when the second of its extensions by one character arrives. -/
theorem second_extension_hides_pattern :
    ¬ ∀ (t : GlobTree), t.Reachable → ∀ p q : Str,
      ((t.insert p).contains q = true ↔ q = p ∨ t.contains q = true) := by
  intro law
  have reachable : ((new.insert ['a']).insert ['a', 'b']).Reachable :=
    ⟨_, .snoc (.snoc (.nil _) (.insert _ _)) (.insert _ _)⟩
  have hidden := law _ reachable ['a', 'c'] ['a']
  revert hidden
  decide

/-! Removing what was inserted. -/

/-- Insert then remove succeeds and no query can tell the difference. -/
def RemoveUndoesInsert (t : GlobTree) (p : Str) : Prop :=
  ∃ u, (t.insert p).remove p = .ok (.ok (), u) ∧ (∀ q, u.contains q = t.contains q) ∧
    (∀ s, u.check s = t.check s) ∧ u.list = t.list

/-- The empty pattern must be held already. Another one must bring at least two new
    nodes, or the counts at its last node and at the one above must not be at the edge. -/
def UndoExact (t : GlobTree) (p : Str) : Prop :=
  (p = [] → t.root.childCountAt [] < t.root.countAt []) ∧
    (p ≠ [] → (p.dropLast ≠ [] ∧ t.root.countAt p.dropLast = 0) ∨
      (t.root.childCountAt p ≤ t.root.countAt p + 1 ∧
        t.root.childCountAt p ≠ t.root.countAt p ∧
        t.root.childCountAt p.dropLast + 1 ≠ t.root.countAt p.dropLast))

instance (t : GlobTree) (p : Str) : Decidable (t.UndoExact p) :=
  inferInstanceAs (Decidable (_ ∧ _))

theorem prefix_of_dropLast {w p : Str} (within : w <+: p) (proper : w ≠ p) :
    w <+: p.dropLast := by
  obtain ⟨rest, rfl⟩ := within
  have more : rest ≠ [] := by
    rintro rfl
    simp at proper
  rw [List.dropLast_append_of_ne_nil more]
  exact List.prefix_append _ _

theorem aboveEnd_eq (p q : Str) :
    Node.aboveEnd p q = if p ≠ [] ∧ q = p.dropLast then 1 else 0 := by
  have same : (q <+: p ∧ p.length = q.length + 1) ↔ (p ≠ [] ∧ q = p.dropLast) := by
    constructor
    · rintro ⟨within, size⟩
      have proper : q ≠ p := by
        rintro rfl
        omega
      have nonempty : p ≠ [] := by
        rintro rfl
        simp at size
      refine ⟨nonempty, (prefix_of_dropLast within proper).eq_of_length ?_⟩
      simp [size]
    · rintro ⟨nonempty, rfl⟩
      have positive := List.length_pos_iff.mpr nonempty
      exact ⟨List.dropLast_prefix p, by simp; omega⟩
  simp only [Node.aboveEnd, same]

theorem discards_inserted {t : GlobTree} (wf : t.WellFormed) {p q : Str} :
    (t.insert p).root.Discards p q ↔
      ∃ w, w ≠ [] ∧ w ≠ p ∧ w <+: p ∧ w <+: q ∧ t.root.countAt w = 0 := by
  have count : ∀ w, w ≠ [] → w <+: p →
      ((t.insert p).root.countAt w = 1 ↔ w ≠ p ∧ t.root.countAt w = 0) := by
    intro w nonempty onPath
    simp only [insert, Node.countAt_insert wf.nodes, Node.passes, Node.ends, nonempty, onPath,
      ne_eq, not_false_eq_true, and_self, ↓reduceIte]
    by_cases last : w = p <;> simp [last]
  constructor
  · rintro ⟨w, nonempty, onPath, inside, once⟩
    obtain ⟨proper, absent⟩ := (count w nonempty onPath).mp once
    exact ⟨w, nonempty, proper, onPath, inside, absent⟩
  · rintro ⟨w, nonempty, proper, onPath, inside, absent⟩
    exact ⟨w, nonempty, onPath, inside, (count w nonempty onPath).mpr ⟨proper, absent⟩⟩

theorem undone_counts {t u : GlobTree} (wf : t.WellFormed) {p q : Str}
    (removed : Node.Removed (t.insert p).root p u.root)
    (survives : ¬ (t.insert p).root.Discards p q) :
    u.root.countAt q = t.root.countAt q + Node.ends p q ∧
      u.root.childCountAt q = t.root.childCountAt q + Node.aboveEnd p q := by
  have count := removed.count q survives
  have childCount := removed.childCount q survives
  simp only [insert, Node.countAt_insert wf.nodes] at count
  simp only [insert, Node.childCountAt_insert wf.nodes] at childCount
  exact ⟨by omega, by omega⟩

theorem undone_contains {t u : GlobTree} (wf : t.WellFormed) {p q : Str}
    (removed : Node.Removed (t.insert p).root p u.root)
    (survives : ¬ (t.insert p).root.Discards p q) :
    u.contains q = t.contains q ↔
      (t.root.childCountAt q + Node.aboveEnd p q < t.root.countAt q + Node.ends p q ↔
        t.root.childCountAt q < t.root.countAt q) := by
  obtain ⟨count, childCount⟩ := undone_counts wf removed survives
  rw [Bool.eq_iff_iff, contains_iff, contains_iff, count, childCount]

theorem discarded_unheld {t u : GlobTree} (wf : t.WellFormed) {p q : Str}
    (removed : Node.Removed (t.insert p).root p u.root)
    (discarded : (t.insert p).root.Discards p q) : u.contains q = t.contains q := by
  obtain ⟨w, nonempty, _, _, inside, absent⟩ := (discards_inserted wf).mp discarded
  have before := Node.countAt_zero_extends wf.nodes nonempty absent inside
  have after := removed.discarded q discarded
  rw [Bool.eq_iff_iff, contains_iff, contains_iff]
  omega

theorem undone_empty_iff {t u : GlobTree} (wf : t.WellFormed)
    (held : (t.insert []).contains [] = true)
    (removed : Node.Removed (t.insert []).root [] u.root) :
    (∀ q, u.contains q = t.contains q) ↔ t.UndoExact [] := by
  have room := (contains_insert wf [] []).mp held
  have survives : ∀ q, ¬ (t.insert []).root.Discards [] q := by
    rintro q ⟨w, nonempty, onPath, _⟩
    exact nonempty (List.prefix_nil.mp onPath)
  rw [Node.leaves_self, Node.aboveEnd_self, Node.passes_nil, Node.ends_self] at room
  simp only [UndoExact, ne_eq, not_true_eq_false, false_implies, and_true, forall_const]
  constructor
  · intro same
    have here := (undone_contains wf removed (survives [])).mp (same [])
    rw [Node.aboveEnd_self, Node.ends_self] at here
    omega
  · intro already q
    rw [undone_contains wf removed (survives q)]
    by_cases root : q = []
    · subst root
      rw [Node.aboveEnd_self, Node.ends_self]
      omega
    · simp [Node.aboveEnd, Node.ends, root]

theorem dropLast_ne {p : Str} (nonempty : p ≠ []) : p.dropLast ≠ p := by
  intro same
  have size := congrArg List.length same
  have positive := List.length_pos_iff.mpr nonempty
  simp only [List.length_dropLast] at size
  omega

theorem undone_exact {t u : GlobTree} (wf : t.WellFormed) {p : Str} (nonempty : p ≠ [])
    (held : (t.insert p).contains p = true)
    (removed : Node.Removed (t.insert p).root p u.root)
    (same : ∀ q, u.contains q = t.contains q) : t.UndoExact p := by
  have room := (contains_insert wf p p).mp held
  rw [Node.leaves_self, Node.aboveEnd_self, Node.passes_self nonempty, Node.ends_self] at room
  refine ⟨fun empty => absurd empty nonempty, fun _ => ?_⟩
  by_cases cut : (t.insert p).root.Discards p p
  · obtain ⟨w, below, short, onPath, _, absent⟩ := (discards_inserted wf).mp cut
    have inside := prefix_of_dropLast onPath short
    refine Or.inl ⟨?_, (Node.countAt_zero_extends wf.nodes below absent inside).1⟩
    intro none
    rw [none] at inside
    exact below (List.prefix_nil.mp inside)
  · have cutAbove : ¬ (t.insert p).root.Discards p p.dropLast := by
      rintro ⟨w, below, onPath, inside, once⟩
      exact cut ⟨w, below, onPath, inside.trans (List.dropLast_prefix p), once⟩
    have atAbove : Node.aboveEnd p p.dropLast = 1 := by simp [aboveEnd_eq, nonempty]
    have last := (undone_contains wf removed cut).mp (same p)
    have parent := (undone_contains wf removed cutAbove).mp (same p.dropLast)
    rw [Node.aboveEnd_self, Node.ends_self] at last
    rw [atAbove, Node.ends_other (dropLast_ne nonempty)] at parent
    exact Or.inr ⟨by omega, by omega, by omega⟩

theorem exact_undone {t u : GlobTree} (wf : t.WellFormed) {p : Str} (nonempty : p ≠ [])
    (removed : Node.Removed (t.insert p).root p u.root) (exact : t.UndoExact p) (q : Str) :
    u.contains q = t.contains q := by
  have above : p.dropLast <+: p := List.dropLast_prefix p
  by_cases cut : (t.insert p).root.Discards p q
  · exact discarded_unheld wf removed cut
  rw [undone_contains wf removed cut]
  rcases exact.2 nonempty with ⟨deeper, absent⟩ | ⟨_, last, parent⟩
  · have inside : ∀ r, p.dropLast <+: r → (t.insert p).root.Discards p r := fun r below =>
      (discards_inserted wf).mpr ⟨_, deeper, dropLast_ne nonempty, above, below, absent⟩
    have notLast : q ≠ p := by
      rintro rfl
      exact cut (inside q above)
    have notAbove : q ≠ p.dropLast := by
      rintro rfl
      exact cut (inside _ (List.prefix_refl _))
    simp [aboveEnd_eq, Node.ends, notLast, notAbove]
  · by_cases here : q = p
    · subst here
      rw [Node.aboveEnd_self, Node.ends_self]
      omega
    · by_cases up : q = p.dropLast
      · have atAbove : Node.aboveEnd p p.dropLast = 1 := by simp [aboveEnd_eq, nonempty]
        subst up
        rw [atAbove, Node.ends_other here]
        omega
      · simp [aboveEnd_eq, Node.ends, here, up]

theorem undone_iff {t u : GlobTree} (wf : t.WellFormed) {p : Str}
    (held : (t.insert p).contains p = true)
    (removed : Node.Removed (t.insert p).root p u.root) :
    (∀ q, u.contains q = t.contains q) ↔ t.UndoExact p := by
  by_cases empty : p = []
  · subst empty
    exact undone_empty_iff wf held removed
  · exact ⟨undone_exact wf empty held removed, exact_undone wf empty removed⟩

theorem remove_undoes_insert_iff {t : GlobTree} (reachable : t.Reachable) (p : Str) :
    t.RemoveUndoesInsert p ↔ t.UndoExact p := by
  have wf := reachable_wellFormed reachable
  have wf' := insert_wellFormed wf p
  cases held : (t.insert p).contains p with
  | true =>
    obtain ⟨u, run, removed⟩ := remove_held wf' held
    have wfU : u.WellFormed := ⟨removed.token.trans wf'.root, removed.wellFormed⟩
    rw [← undone_iff wf held removed]
    constructor
    · rintro ⟨v, ran, same, _⟩
      rw [run] at ran
      simp only [Except.ok.injEq, Prod.mk.injEq, true_and] at ran
      subst ran
      exact same
    · intro same
      exact ⟨u, run, same, check_congr wfU wf same, list_congr wfU wf same⟩
  | false =>
    have full := (contains_insert wf p p).not.mp (by simp [held])
    rw [Node.leaves_self, Node.aboveEnd_self, Node.ends_self] at full
    constructor
    · rintro ⟨v, ran, _⟩
      rw [remove_missing held] at ran
      simp at ran
    · rintro ⟨root, below⟩
      by_cases empty : p = []
      · have := root empty
        subst empty
        rw [Node.passes_nil] at full
        omega
      · rw [Node.passes_self empty] at full
        rcases below empty with ⟨nonempty, absent⟩ | ⟨room, _⟩
        · have gone := Node.countAt_zero_extends wf.nodes nonempty absent (List.dropLast_prefix p)
          omega
        · omega

theorem branching_pattern_round_trip :
    ((new.insert ['a', 'b', 'c']).insert ['b']).RemoveUndoesInsert ['a', 'b', 'x', 'y'] :=
  (remove_undoes_insert_iff ⟨_, .snoc (.snoc (.nil _) (.insert _ _)) (.insert _ _)⟩ _).mpr
    (by decide)

/-- The pattern `a` is still held after it was inserted once and removed once. -/
theorem single_character_survives_remove :
    ¬ ∀ (t : GlobTree), t.Reachable → ∀ p : Str, t.RemoveUndoesInsert p := by
  intro law
  obtain ⟨u, run, same, _⟩ := law new ⟨[], .nil _⟩ ['a']
  have left : (new.insert ['a']).remove ['a'] =
      .ok (.ok (), ⟨⟨none, [('a', ⟨some 'a', [], 1⟩)], 0⟩⟩) := rfl
  rw [left] at run
  simp only [Except.ok.injEq, Prod.mk.injEq, true_and] at run
  subst run
  have still := same ['a']
  revert still
  decide

/-! Removing a held pattern. -/

/-- No held pattern lies at or below a node of the removed path that is counted once,
    and the root's count is not exactly that of its children. -/
def RemoveExact (t : GlobTree) (p q : Str) : Prop :=
  (q = [] → t.root.childCountAt [] ≠ t.root.countAt []) ∧
    ¬ (t.root.childCountAt q < t.root.countAt q ∧ t.root.Discards p q)

instance (t : GlobTree) (p q : Str) : Decidable (t.RemoveExact p q) :=
  inferInstanceAs (Decidable (_ ∧ _))

theorem remove_keeps_other_iff {t : GlobTree} (reachable : t.Reachable) {p q : Str}
    (held : t.contains p = true) (other : q ≠ p) :
    ∃ u, t.remove p = .ok (.ok (), u) ∧
      (u.contains q = t.contains q ↔ t.RemoveExact p q) := by
  have wf := reachable_wellFormed reachable
  obtain ⟨u, run, removed⟩ := remove_held wf held
  refine ⟨u, run, ?_⟩
  rw [Bool.eq_iff_iff, contains_iff, contains_iff]
  by_cases cut : t.root.Discards p q
  · have gone := removed.discarded q cut
    have deeper : q ≠ [] := by
      rintro rfl
      exact Node.discards_nil _ _ cut
    simp only [RemoveExact, deeper, cut, false_implies, and_true, true_and]
    omega
  · have count := removed.count q cut
    have childCount := removed.childCount q cut
    simp only [RemoveExact, cut, and_false, not_false_eq_true, and_true]
    by_cases root : q = []
    · subst root
      rw [Node.passes_nil] at count
      rw [Node.leaves_nil (Ne.symm other)] at childCount
      simp only [forall_const]
      omega
    · have balanced := Node.passes_eq_leaves root other
      simp only [root, false_implies, iff_true]
      omega

theorem remove_keeps_prefix :
    ∃ u, ((new.insert ['a']).insert ['a', 'b', 'c']).remove ['a', 'b', 'c'] =
        .ok (.ok (), u) ∧
      u.contains ['a'] = ((new.insert ['a']).insert ['a', 'b', 'c']).contains ['a'] := by
  have reachable : ((new.insert ['a']).insert ['a', 'b', 'c']).Reachable :=
    ⟨_, .snoc (.snoc (.nil _) (.insert _ _)) (.insert _ _)⟩
  obtain ⟨u, run, exact⟩ := remove_keeps_other_iff reachable (p := ['a', 'b', 'c']) (q := ['a'])
    (by decide) (by decide)
  exact ⟨u, run, exact.mpr (by decide)⟩

/-- The pattern `ab` outlives its removal; removing it again cuts off `ac` as well. -/
theorem second_remove_drops_sibling :
    ¬ ∀ (t : GlobTree), t.Reachable → ∀ p q : Str, t.contains p = true → q ≠ p →
      ∃ u, t.remove p = .ok (.ok (), u) ∧ u.contains q = t.contains q := by
  intro law
  have reachable : GlobTree.Reachable ⟨⟨none, [('a', ⟨some 'a',
      [('b', ⟨some 'b', [], 1⟩), ('c', ⟨some 'c', [], 2⟩)], 1⟩)], 0⟩⟩ :=
    ⟨[.insert ['a', 'b'], .insert ['a', 'c'], .remove ['a', 'b']],
      .snoc (.snoc (.snoc (.nil _) (.insert _ _)) (.insert _ _)) (.remove (r := .ok ()) rfl)⟩
  obtain ⟨u, run, kept⟩ := law _ reachable ['a', 'b'] ['a', 'c'] (by decide) (by decide)
  have left : GlobTree.remove ⟨⟨none, [('a', ⟨some 'a',
      [('b', ⟨some 'b', [], 1⟩), ('c', ⟨some 'c', [], 2⟩)], 1⟩)], 0⟩⟩ ['a', 'b'] =
      .ok (.ok (), new) := rfl
  rw [left] at run
  simp only [Except.ok.injEq, Prod.mk.injEq, true_and] at run
  subst run
  revert kept
  decide

end GlobTree
end PubSub
