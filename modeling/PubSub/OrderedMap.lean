import Mathlib.Algebra.BigOperators.Group.List.Basic
import Mathlib.Algebra.GroupWithZero.Nat
import Mathlib.Algebra.Order.Group.Nat
import Mathlib.Data.List.Sort
import Mathlib.Order.Basic

/- An ordered map kept as the ascending list of its entries. The key order is the
   iteration order, so two maps with the same content are the same list. -/
namespace OrderedMap
variable {K V : Type} [LinearOrder K]

def find (k : K) : List (K × V) → Option V
  | [] => none
  | (k', v) :: rest => if k = k' then some v else find k rest

def set (k : K) (v : V) : List (K × V) → List (K × V)
  | [] => [(k, v)]
  | (k', v') :: rest =>
    if k < k' then (k, v) :: (k', v') :: rest
    else if k = k' then (k, v) :: rest
    else (k', v') :: set k v rest

def erase (k : K) : List (K × V) → List (K × V)
  | [] => []
  | (k', v') :: rest => if k = k' then rest else (k', v') :: erase k rest

def Sorted (m : List (K × V)) : Prop := m.Pairwise fun a b => a.1 < b.1

def total (f : V → Nat) (m : List (K × V)) : Nat := (m.map fun e => f e.2).sum

theorem find_below {k : K} {m : List (K × V)} (below : ∀ e ∈ m, k < e.1) : find k m = none := by
  induction m with
  | nil => rfl
  | cons e m ih =>
    obtain ⟨k', v'⟩ := e
    have head : k < k' := below (k', v') (by simp)
    simp only [find, head.ne, ↓reduceIte]
    exact ih fun e he => below e (by simp [he])

theorem mem_of_find {k : K} {v : V} {m : List (K × V)} (found : find k m = some v) :
    (k, v) ∈ m := by
  induction m with
  | nil => simp [find] at found
  | cons e m ih =>
    obtain ⟨k', v'⟩ := e
    simp only [find] at found
    split at found
    · rename_i same
      subst same
      simp_all
    · exact List.mem_cons_of_mem _ (ih found)

theorem find_of_mem {k : K} {v : V} {m : List (K × V)} (sorted : Sorted m)
    (mem : (k, v) ∈ m) : find k m = some v := by
  induction m with
  | nil => simp at mem
  | cons e m ih =>
    obtain ⟨k', v'⟩ := e
    obtain ⟨above, tail⟩ := List.pairwise_cons.mp sorted
    rcases List.mem_cons.mp mem with same | mem
    · simp only [Prod.mk.injEq] at same
      simp [find, same.1, same.2]
    · have apart : k' < k := above (k, v) mem
      simp only [find, apart.ne', ↓reduceIte]
      exact ih tail mem

/-- Maps that answer every lookup alike are the same list. -/
theorem ext_of_find {m l : List (K × V)} (sortedM : Sorted m) (sortedL : Sorted l)
    (same : ∀ k, find k m = find k l) : m = l := by
  have mem : ∀ e, e ∈ m ↔ e ∈ l := by
    intro e
    constructor
    · intro stored
      have found := find_of_mem sortedM stored
      rw [same] at found
      exact mem_of_find found
    · intro stored
      have found := find_of_mem sortedL stored
      rw [← same] at found
      exact mem_of_find found
  have : Std.Irrefl fun a b : K × V => a.1 < b.1 := ⟨fun a => lt_irrefl a.1⟩
  have : Std.Antisymm fun a b : K × V => a.1 < b.1 :=
    ⟨fun a b less more => absurd (less.trans more) (lt_irrefl a.1)⟩
  exact sortedM.eq_of_mem_iff sortedL mem

theorem find_set_self (k : K) (v : V) (m : List (K × V)) : find k (set k v m) = some v := by
  induction m with
  | nil => simp [set, find]
  | cons e m ih =>
    obtain ⟨k', v'⟩ := e
    simp only [set]
    split
    · simp [find]
    · split
      · simp [find]
      · rename_i differ
        simp [find, differ, ih]

theorem find_set_ne {k j : K} (differ : j ≠ k) (v : V) (m : List (K × V)) :
    find j (set k v m) = find j m := by
  induction m with
  | nil => simp [set, find, differ]
  | cons e m ih =>
    obtain ⟨k', v'⟩ := e
    simp only [set]
    split
    · simp [find, differ]
    · split
      · rename_i same
        subst same
        simp [find, differ]
      · simp [find, ih]

theorem set_set (k : K) (v w : V) (m : List (K × V)) : set k v (set k w m) = set k v m := by
  induction m with
  | nil => simp [set]
  | cons e m ih =>
    obtain ⟨k', v'⟩ := e
    rcases lt_trichotomy k k' with less | same | more
    · simp [set, less]
    · subst same
      simp [set]
    · simp [set, more.not_gt, more.ne', ih]

theorem mem_set {k : K} {v : V} {m : List (K × V)} {e : K × V} (mem : e ∈ set k v m) :
    e = (k, v) ∨ e ∈ m := by
  induction m with
  | nil => simpa [set] using mem
  | cons d m ih =>
    obtain ⟨k', v'⟩ := d
    simp only [set] at mem
    split at mem
    · simpa using mem
    · split at mem
      · rcases List.mem_cons.mp mem with h | h
        · exact Or.inl h
        · exact Or.inr (List.mem_cons_of_mem _ h)
      · rcases List.mem_cons.mp mem with h | h
        · exact Or.inr (by simp [h])
        · exact (ih h).imp id (List.mem_cons_of_mem _)

theorem sorted_set {m : List (K × V)} (sorted : Sorted m) (k : K) (v : V) :
    Sorted (set k v m) := by
  induction m with
  | nil => simp [set, Sorted]
  | cons e m ih =>
    obtain ⟨k', v'⟩ := e
    obtain ⟨above, tail⟩ := List.pairwise_cons.mp sorted
    simp only [set]
    split
    · rename_i less
      refine List.pairwise_cons.mpr ⟨?_, sorted⟩
      intro d hd
      rcases List.mem_cons.mp hd with same | mem
      · simpa [same] using less
      · exact less.trans (above d mem)
    · split
      · rename_i same
        subst same
        exact List.pairwise_cons.mpr ⟨above, tail⟩
      · rename_i notless differ
        refine List.pairwise_cons.mpr ⟨?_, ih tail⟩
        intro d hd
        rcases mem_set hd with same | mem
        · subst same
          exact lt_of_le_of_ne (not_lt.mp notless) (Ne.symm differ)
        · exact above d mem

theorem erase_subset (k : K) (m : List (K × V)) : erase k m ⊆ m := by
  induction m with
  | nil => simp [erase]
  | cons e m ih =>
    obtain ⟨k', v'⟩ := e
    simp only [erase]
    split
    · exact List.subset_cons_self _ _
    · exact List.cons_subset_cons _ ih

theorem sorted_erase {m : List (K × V)} (sorted : Sorted m) (k : K) : Sorted (erase k m) := by
  induction m with
  | nil => simp [erase, Sorted]
  | cons e m ih =>
    obtain ⟨k', v'⟩ := e
    obtain ⟨above, tail⟩ := List.pairwise_cons.mp sorted
    simp only [erase]
    split
    · exact tail
    · exact List.pairwise_cons.mpr ⟨fun d hd => above d (erase_subset k m hd), ih tail⟩

theorem find_erase_self {m : List (K × V)} (sorted : Sorted m) (k : K) :
    find k (erase k m) = none := by
  induction m with
  | nil => rfl
  | cons e m ih =>
    obtain ⟨k', v'⟩ := e
    obtain ⟨above, tail⟩ := List.pairwise_cons.mp sorted
    simp only [erase]
    split
    · rename_i same
      subst same
      exact find_below above
    · rename_i differ
      simp [find, differ, ih tail]

theorem find_erase_ne {k j : K} (differ : j ≠ k) (m : List (K × V)) :
    find j (erase k m) = find j m := by
  induction m with
  | nil => rfl
  | cons e m ih =>
    obtain ⟨k', v'⟩ := e
    simp only [erase]
    split
    · rename_i same
      subst same
      simp [find, differ]
    · simp [find, ih]

theorem total_set_new (f : V → Nat) {k : K} {m : List (K × V)} (absent : find k m = none)
    (v : V) : total f (set k v m) = total f m + f v := by
  induction m with
  | nil => simp [set, total]
  | cons e m ih =>
    obtain ⟨k', v'⟩ := e
    simp only [find] at absent
    split at absent
    · simp at absent
    · rename_i differ
      have rest := ih absent
      simp only [total] at rest
      simp only [set, differ, ↓reduceIte]
      split <;> simp only [total, List.map_cons, List.sum_cons, rest] <;> omega

theorem total_set_old (f : V → Nat) {k : K} {old : V} {m : List (K × V)} (sorted : Sorted m)
    (found : find k m = some old) (v : V) :
    total f (set k v m) + f old = total f m + f v := by
  induction m with
  | nil => simp [find] at found
  | cons e m ih =>
    obtain ⟨k', v'⟩ := e
    obtain ⟨above, tail⟩ := List.pairwise_cons.mp sorted
    have notless : ¬ k < k' := by
      intro less
      rw [find_below (m := (k', v') :: m)] at found
      · simp at found
      · intro d hd
        rcases List.mem_cons.mp hd with same | mem
        · simpa [same] using less
        · exact less.trans (above d mem)
    simp only [find] at found
    simp only [set, notless, ↓reduceIte]
    split at found
    · rename_i same
      simp only [Option.some.injEq] at found
      subst same; subst found
      simp only [total, ↓reduceIte, List.map_cons, List.sum_cons]
      omega
    · rename_i differ
      have rest := ih tail found
      simp only [total] at rest
      simp only [total, differ, ↓reduceIte, List.map_cons, List.sum_cons]
      omega

theorem total_erase (f : V → Nat) {k : K} {old : V} {m : List (K × V)}
    (found : find k m = some old) : total f (erase k m) + f old = total f m := by
  induction m with
  | nil => simp [find] at found
  | cons e m ih =>
    obtain ⟨k', v'⟩ := e
    simp only [find] at found
    simp only [erase]
    split at found
    · rename_i same
      simp only [Option.some.injEq] at found
      subst same; subst found
      simp only [total, ↓reduceIte, List.map_cons, List.sum_cons]
      omega
    · rename_i differ
      have rest := ih found
      simp only [total] at rest
      simp only [total, differ, ↓reduceIte, List.map_cons, List.sum_cons]
      omega

end OrderedMap
