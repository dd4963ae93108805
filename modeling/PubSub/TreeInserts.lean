import PubSub.TreeMatch
import PubSub.TreeOrder

/- What a tree holds that was only ever inserted into. Every insert adds to the counts along
   a path what its own pattern adds, so that what is held can be read off the patterns. -/
namespace PubSub
namespace GlobTree

def added (quantity : Str → Str → Nat) (ps : List Str) (q : Str) : Nat :=
  (ps.map fun p => quantity p q).sum

def extensions (ps : List Str) (q : Str) : Nat :=
  ps.countP fun p => q <+: p ∧ p.length = q.length + 1

/-- Twice the inserts of a pattern are more than those of the patterns one character longer;
    the empty pattern needs more inserts than all others take, and the single characters again. -/
def Outweighs (ps : List Str) (q : Str) : Prop :=
  if q = [] then (ps.countP fun p => p ≠ []) + extensions ps [] < ps.count []
  else extensions ps q < 2 * ps.count q

instance (ps : List Str) (q : Str) : Decidable (Outweighs ps q) :=
  inferInstanceAs (Decidable (if q = [] then _ else _))

theorem added_cons (quantity : Str → Str → Nat) (p : Str) (ps : List Str) (q : Str) :
    added quantity (p :: ps) q = quantity p q + added quantity ps q := by
  simp [added]

theorem insertAll_wellFormed {t : GlobTree} (wf : t.WellFormed) (ps : List Str) :
    (t.insertAll ps).WellFormed := by
  induction ps generalizing t with
  | nil => exact wf
  | cons p ps ih => exact ih (insert_wellFormed wf p)

theorem insertAll_countAt {t : GlobTree} (wf : t.WellFormed) (ps : List Str) (q : Str) :
    (t.insertAll ps).root.countAt q =
      t.root.countAt q + added Node.passes ps q + added Node.ends ps q := by
  induction ps generalizing t with
  | nil => simp [insertAll, added]
  | cons p ps ih =>
    have first := Node.countAt_insert wf.nodes p q
    have others := ih (insert_wellFormed wf p)
    simp only [insertAll, insert, List.foldl_cons, added_cons] at first others ⊢
    omega

theorem insertAll_childCountAt {t : GlobTree} (wf : t.WellFormed) (ps : List Str) (q : Str) :
    (t.insertAll ps).root.childCountAt q =
      t.root.childCountAt q + added Node.leaves ps q + added Node.aboveEnd ps q := by
  induction ps generalizing t with
  | nil => simp [insertAll, added]
  | cons p ps ih =>
    have first := Node.childCountAt_insert wf.nodes p q
    have others := ih (insert_wellFormed wf p)
    simp only [insertAll, insert, List.foldl_cons, added_cons] at first others ⊢
    omega

/-! The four quantities of a list of patterns. -/

theorem added_ends (ps : List Str) (q : Str) : added Node.ends ps q = ps.count q := by
  induction ps with
  | nil => rfl
  | cons p ps ih =>
    rw [added_cons, ih, List.count_cons]
    by_cases same : p = q
    · subst same
      simp [Node.ends_self, Nat.add_comm]
    · simp [Node.ends_other (Ne.symm same), same]

theorem added_aboveEnd (ps : List Str) (q : Str) : added Node.aboveEnd ps q = extensions ps q := by
  induction ps with
  | nil => rfl
  | cons p ps ih =>
    rw [added_cons, ih, extensions, extensions, List.countP_cons]
    by_cases above : q <+: p ∧ p.length = q.length + 1 <;>
      simp [Node.aboveEnd, above, Nat.add_comm]

theorem added_passes (ps : List Str) {q : Str} (deeper : q ≠ []) :
    added Node.passes ps q = added Node.leaves ps q + ps.count q := by
  induction ps with
  | nil => rfl
  | cons p ps ih =>
    rw [added_cons, added_cons, ih, List.count_cons]
    by_cases same : p = q
    · subst same
      simp [Node.passes_self deeper, Node.leaves_self]
      omega
    · rw [Node.passes_eq_leaves deeper (Ne.symm same)]
      simp [same]
      omega

theorem added_passes_root (ps : List Str) : added Node.passes ps [] = 0 := by
  induction ps with
  | nil => rfl
  | cons p ps ih => rw [added_cons, ih, Node.passes_nil]

theorem added_leaves_root (ps : List Str) :
    added Node.leaves ps [] = ps.countP fun p => p ≠ [] := by
  induction ps with
  | nil => rfl
  | cons p ps ih =>
    rw [added_cons, ih, List.countP_cons]
    by_cases empty : p = []
    · subst empty
      simp [Node.leaves_self]
    · simp [Node.leaves_nil empty, empty, Nat.add_comm]

/-- A client that only subscribes holds a pattern exactly when its subscriptions to it
    outweigh those to longer ones, and is matched accordingly. -/
theorem inserted_held_iff (ps : List Str) :
    (∀ q, (new.insertAll ps).contains q = true ↔ Outweighs ps q) ∧
      ∀ s, (new.insertAll ps).check s = true ↔
        ∃ q, Outweighs ps q ∧ GlobMatch q (asBytes s) := by
  have held : ∀ q, (new.insertAll ps).contains q = true ↔ Outweighs ps q := by
    intro q
    have counted := insertAll_countAt new_wellFormed ps q
    have below := insertAll_childCountAt new_wellFormed ps q
    rw [new_countAt, added_ends] at counted
    rw [new_childCountAt, added_aboveEnd] at below
    rw [contains_iff]
    unfold Outweighs
    by_cases root : q = []
    · subst root
      rw [added_passes_root] at counted
      rw [added_leaves_root] at below
      rw [if_pos rfl]
      omega
    · rw [added_passes ps root] at counted
      rw [if_neg root]
      omega
  refine ⟨held, fun s => ?_⟩
  rw [check_iff (insertAll_wellFormed new_wellFormed ps)]
  simp only [held]

example : ¬ Outweighs [['a'], ['a', 'b'], ['a', 'c']] ['a'] ∧
    Outweighs [['a'], ['a', 'b'], ['a', 'c'], ['a']] ['a'] := by decide

end GlobTree
end PubSub
