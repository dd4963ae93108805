import PubSub.TreePaths

/- Facts that hold of every tree reached by inserts and removes: the shape is kept,
   remove never panics, and no path becomes a pattern without having been inserted. -/
namespace PubSub
open LabelledRun

namespace GlobTree

structure WellFormed (t : GlobTree) : Prop where
  root : t.root.token = none
  nodes : t.root.WellFormed

theorem contains_iff (t : GlobTree) (q : Str) :
    t.contains q = true ↔ t.root.childCountAt q < t.root.countAt q :=
  t.root.containsPattern_iff q

theorem new_wellFormed : new.WellFormed := ⟨rfl, Node.wellFormed_new _ _⟩

theorem new_countAt (q : Str) : new.root.countAt q = 0 := by
  cases q <;> simp [new, Node.countAt, Node.nodeAt, OrderedMap.find]

theorem new_childCountAt (q : Str) : new.root.childCountAt q = 0 := by
  cases q <;> simp [new, Node.childCountAt, Node.nodeAt, OrderedMap.find, Node.childCount,
    OrderedMap.total]

theorem new_holds_nothing (q : Str) : new.contains q = false := by
  have empty := new_countAt q
  have bound := (contains_iff new q).mp
  cases held : new.contains q
  · rfl
  · have := bound held
    omega

theorem contains_insert {t : GlobTree} (wf : t.WellFormed) (p q : Str) :
    (t.insert p).contains q = true ↔
      t.root.childCountAt q + Node.leaves p q + Node.aboveEnd p q <
        t.root.countAt q + Node.passes p q + Node.ends p q := by
  rw [contains_iff]
  simp only [insert, Node.countAt_insert wf.nodes, Node.childCountAt_insert wf.nodes]

theorem insert_wellFormed {t : GlobTree} (wf : t.WellFormed) (p : Str) :
    (t.insert p).WellFormed :=
  ⟨(t.root.insertPattern_token p).trans wf.root, Node.wellFormed_insert wf.nodes p⟩

theorem first_insert_contains (p q : Str) : (new.insert p).contains q = true ↔ q = p := by
  rw [contains_insert new_wellFormed, new_countAt, new_childCountAt]
  by_cases same : q = p
  · subst same
    simp [Node.leaves_self, Node.aboveEnd_self, Node.ends_self]
  · have onPath : Node.passes p q ≤ Node.leaves p q := Node.passes_le_leaves same
    have notEnd := Node.ends_other same
    simp only [same, iff_false]
    omega

theorem remove_held {t : GlobTree} (wf : t.WellFormed) {p : Str} (held : t.contains p = true) :
    ∃ u, t.remove p = .ok (.ok (), u) ∧ Node.Removed t.root p u.root := by
  have bound := (contains_iff t p).mp held
  obtain ⟨m, run, removed⟩ := Node.removePattern_spec wf.nodes (p := p) (Or.inl (by omega))
  refine ⟨⟨m⟩, ?_, removed⟩
  simp only [remove, held, Bool.not_true, Bool.false_eq_true, ↓reduceIte, run, bind, Except.bind]

/-- Taking the pattern out lifts the root above its children: the empty pattern, which was
    not held, is held afterwards. -/
def Exposes (t : GlobTree) (p : Str) : Prop :=
  t.contains p = true ∧ p ≠ [] ∧ t.root.childCount = t.root.count

instance (t : GlobTree) (p : Str) : Decidable (t.Exposes p) :=
  inferInstanceAs (Decidable (_ ∧ _ ∧ _))

theorem remove_missing {t : GlobTree} {p : Str} (missing : t.contains p = false) :
    t.remove p = .ok (.error "Not found", t) := by
  simp [remove, missing]

theorem remove_cases {t u : GlobTree} (wf : t.WellFormed) {p : Str} {r : Except String Unit}
    (done : t.remove p = .ok (r, u)) :
    (t.contains p = true ∧ r = .ok () ∧ Node.Removed t.root p u.root) ∨
      (t.contains p = false ∧ r = .error "Not found" ∧ u = t) := by
  cases held : t.contains p with
  | true =>
    obtain ⟨v, run, removed⟩ := remove_held wf held
    rw [run] at done
    simp only [Except.ok.injEq, Prod.mk.injEq] at done
    obtain ⟨rfl, rfl⟩ := done
    exact Or.inl ⟨rfl, rfl, removed⟩
  | false =>
    rw [remove_missing held] at done
    simp only [Except.ok.injEq, Prod.mk.injEq] at done
    obtain ⟨rfl, rfl⟩ := done
    exact Or.inr ⟨rfl, rfl, rfl⟩

theorem remove_contains {t u : GlobTree} (wf : t.WellFormed) {p : Str} {r : Except String Unit}
    (done : t.remove p = .ok (r, u)) {q : Str} (now : u.contains q = true) :
    t.contains q = true ∨ (q = [] ∧ t.Exposes p) := by
  rcases remove_cases wf done with ⟨held, _, removed⟩ | ⟨_, _, rfl⟩
  · rw [contains_iff] at now ⊢
    by_cases cut : t.root.Discards p q
    · have gone := removed.discarded q cut
      omega
    · have count := removed.count q cut
      have childCount := removed.childCount q cut
      by_cases same : q = p
      · subst same
        rw [Node.leaves_self] at childCount
        omega
      · by_cases root : q = []
        · subst root
          rw [Node.passes_nil] at count
          rw [Node.leaves_nil (Ne.symm same)] at childCount
          by_cases full : t.root.childCountAt [] < t.root.countAt []
          · exact Or.inl full
          · refine Or.inr ⟨rfl, held, Ne.symm same, ?_⟩
            rw [← Node.countAt_nil, ← Node.childCountAt_nil]
            omega
        · have balanced := Node.passes_eq_leaves root same
          omega
  · exact Or.inl now

theorem step_wellFormed {t u : GlobTree} {call : TreeCall} (wf : t.WellFormed)
    (step : TreeStep t call u) : u.WellFormed := by
  cases step with
  | insert p => exact insert_wellFormed wf p
  | remove done =>
    rcases remove_cases wf done with ⟨_, _, removed⟩ | ⟨_, _, rfl⟩
    · exact ⟨removed.token.trans wf.root, removed.wellFormed⟩
    · exact wf

theorem reachable_wellFormed {t : GlobTree} (reachable : t.Reachable) : t.WellFormed := by
  obtain ⟨calls, run⟩ := reachable
  exact run_invariant WellFormed new_wellFormed (fun _ _ _ wf step => step_wellFormed wf step) run

theorem calls_run (calls : List TreeCall) : ∃ t, TreeRun calls t := by
  induction calls using List.reverseRecOn with
  | nil => exact ⟨new, Run.nil _⟩
  | append_singleton calls call ih =>
    obtain ⟨t, run⟩ := ih
    cases call with
    | insert p => exact ⟨t.insert p, Run.snoc run (.insert t p)⟩
    | remove p =>
      cases held : t.contains p with
      | true =>
        obtain ⟨u, done, -⟩ := remove_held (reachable_wellFormed ⟨calls, run⟩) held
        exact ⟨u, Run.snoc run (.remove done)⟩
      | false => exact ⟨t, Run.snoc run (.remove (remove_missing held))⟩

/-- A path that is no pattern is counted at most as often as the nodes below it; the
    root, which only the empty pattern counts, is not counted at all. -/
def PassedThrough (t : GlobTree) (q : Str) : Prop :=
  t.root.countAt q ≤ t.root.childCountAt q ∧ (q = [] → t.root.countAt q = 0)

theorem passedThrough_not_held {t : GlobTree} {q : Str} (through : t.PassedThrough q) :
    t.contains q = false := by
  have bound := (contains_iff t q).mp
  have := through.1
  cases held : t.contains q
  · rfl
  · have := bound held
    omega

theorem passedThrough_insert {t : GlobTree} (wf : t.WellFormed) {p q : Str} (other : p ≠ q)
    (through : t.PassedThrough q) : (t.insert p).PassedThrough q := by
  have count := Node.countAt_insert wf.nodes p q
  have childCount := Node.childCountAt_insert wf.nodes p q
  have notEnd : Node.ends p q = 0 := by simp [Node.ends, Ne.symm other]
  have onPath : Node.passes p q ≤ Node.leaves p q := Node.passes_le_leaves (Ne.symm other)
  obtain ⟨bound, root⟩ := through
  refine ⟨?_, ?_⟩
  · simp only [insert, count, childCount]
    omega
  · rintro rfl
    simp [insert, count, root, notEnd, Node.passes]

theorem passedThrough_removed {t u : GlobTree} {p q : Str} (removed : Node.Removed t.root p u.root)
    (through : t.PassedThrough q) : u.PassedThrough q := by
  by_cases discarded : t.root.Discards p q
  · obtain ⟨count, childCount⟩ := removed.discarded q discarded
    exact ⟨by omega, fun _ => count⟩
  · have count := removed.count q discarded
    have childCount := removed.childCount q discarded
    obtain ⟨bound, root⟩ := through
    refine ⟨?_, ?_⟩
    · by_cases empty : q = []
      · have := root empty
        omega
      · have : Node.leaves p q ≤ Node.passes p q := by
          simp only [Node.passes, Node.leaves]
          split <;> split <;> simp_all
        omega
    · intro empty
      have := root empty
      omega

theorem passedThrough_step {t u : GlobTree} {call : TreeCall} {q : Str} (wf : t.WellFormed)
    (step : TreeStep t call u) (other : call ≠ .insert q) (through : t.PassedThrough q) :
    u.PassedThrough q := by
  cases step with
  | insert p => exact passedThrough_insert wf (fun same => other (by rw [same])) through
  | remove done =>
    rcases remove_cases wf done with ⟨_, _, removed⟩ | ⟨_, _, rfl⟩
    · exact passedThrough_removed removed through
    · exact through

theorem passedThrough_run {t : GlobTree} {calls : List TreeCall} {q : Str}
    (run : TreeRun calls t) (never : TreeCall.insert q ∉ calls) : t.PassedThrough q := by
  refine run_history (fun calls t => TreeCall.insert q ∉ calls → t.PassedThrough q)
    ?_ ?_ run never
  · intro _
    exact ⟨by simp [new_countAt], fun _ => new_countAt q⟩
  · intro calls t call u before ih step never
    simp only [List.mem_append, List.mem_singleton, not_or] at never
    exact passedThrough_step (reachable_wellFormed ⟨calls, before⟩) step
      (fun same => never.2 same.symm) (ih never.1)

theorem held_was_inserted {t : GlobTree} {calls : List TreeCall} {q : Str}
    (run : TreeRun calls t) (held : t.contains q = true) : TreeCall.insert q ∈ calls := by
  by_contra never
  simp [passedThrough_not_held (passedThrough_run run never)] at held

end GlobTree
end PubSub
