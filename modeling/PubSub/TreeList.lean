import Mathlib.Data.List.Lex
import Mathlib.Data.List.Sort
import PubSub.TreeMatch

/- The listing of a tree: every held pattern once, in lexicographic order. -/
namespace PubSub
namespace Node

def suffixes : Node → List Str
  | ⟨token, children, count⟩ =>
    (if isTerminal ⟨token, children, count⟩ then [[]] else []) ++ childSuffixes children
where
  childSuffixes : List (Char × Node) → List Str
    | [] => []
    | (_, child) :: rest =>
      child.suffixes.map (child.token.toList ++ ·) ++ childSuffixes rest

theorem childSuffixes_eq (children : List (Char × Node)) :
    suffixes.childSuffixes children =
      children.flatMap fun e => e.2.suffixes.map (e.2.token.toList ++ ·) := by
  induction children with
  | nil => rfl
  | cons e rest ih => simp [suffixes.childSuffixes, ih]

theorem suffixes_eq (n : Node) : n.suffixes = (if n.isTerminal then [[]] else []) ++
    n.children.flatMap fun e => e.2.suffixes.map (e.2.token.toList ++ ·) := by
  obtain ⟨token, children, count⟩ := n
  rw [suffixes, childSuffixes_eq]

mutual
/-- The buffer comes back as it was; the strings grow by what is below, under it. -/
theorem listStringsWorker_eq (n : Node) (strings : List Str) (buffer : Str) :
    n.listStringsWorker strings buffer =
      (strings ++ n.suffixes.map (buffer ++ n.token.toList ++ ·), buffer) := by
  obtain ⟨token, children, count⟩ := n
  rw [listStringsWorker.eq_def, suffixes]
  simp only [childLoop_eq children]
  cases token with
  | none => by_cases ends : isTerminal ⟨none, children, count⟩ <;> simp [ends]
  | some t => by_cases ends : isTerminal ⟨some t, children, count⟩ <;> simp [ends]

theorem childLoop_eq (children : List (Char × Node)) (strings : List Str) (buffer : Str) :
    listStringsWorker.childLoop children strings buffer =
      (strings ++ (suffixes.childSuffixes children).map (buffer ++ ·), buffer) := by
  cases children with
  | nil => simp [listStringsWorker.childLoop, suffixes.childSuffixes]
  | cons e rest =>
    obtain ⟨c, child⟩ := e
    rw [listStringsWorker.childLoop, suffixes.childSuffixes, listStringsWorker_eq child]
    simp only [childLoop_eq rest]
    simp
end

theorem listStrings_root {n : Node} (root : n.token = none) : n.listStrings = n.suffixes := by
  rw [listStrings, listStringsWorker_eq]
  simp [root]

theorem mem_suffixes {n : Node} (wf : n.WellFormed) (q : Str) :
    q ∈ n.suffixes ↔ n.containsPattern q = true := by
  induction q generalizing n with
  | nil =>
    rw [suffixes_eq, List.mem_append]
    constructor
    · rintro (ends | inside)
      · simp only [containsPattern]
        split at ends <;> simp_all
      · obtain ⟨⟨c, child⟩, stored, found⟩ := List.mem_flatMap.mp inside
        obtain ⟨w, _, eq⟩ := List.mem_map.mp found
        simp [wf.tokens (OrderedMap.find_of_mem wf.sorted stored)] at eq
    · intro ends
      exact Or.inl (by simp only [containsPattern] at ends; simp [ends])
  | cons c q ih =>
    rw [suffixes_eq, List.mem_append]
    constructor
    · rintro (ends | inside)
      · split at ends <;> simp at ends
      · obtain ⟨⟨d, child⟩, stored, listed⟩ := List.mem_flatMap.mp inside
        have found := OrderedMap.find_of_mem wf.sorted stored
        obtain ⟨w, below, eq⟩ := List.mem_map.mp listed
        simp only [wf.tokens found, Option.toList_some, List.cons_append, List.nil_append,
          List.cons.injEq] at eq
        obtain ⟨rfl, rfl⟩ := eq
        simp only [containsPattern, found]
        exact (ih (wf.child found)).mp below
    · intro held
      cases found : OrderedMap.find c n.children with
      | none => simp [containsPattern, found] at held
      | some child =>
        simp only [containsPattern, found] at held
        refine Or.inr (List.mem_flatMap.mpr ⟨(c, child), OrderedMap.mem_of_find found, ?_⟩)
        exact List.mem_map.mpr ⟨q, (ih (wf.child found)).mpr held, by simp [wf.tokens found]⟩

theorem suffixes_ascending {n : Node} (wf : n.WellFormed) : n.suffixes.Pairwise (· < ·) := by
  induction wf with
  | @mk n sorted tokens counted below ih =>
    have token : ∀ e ∈ n.children, e.2.token = some e.1 := fun e stored =>
      tokens e.1 e.2 (OrderedMap.find_of_mem sorted stored)
    rw [suffixes_eq, List.pairwise_append]
    refine ⟨by split <;> simp, List.pairwise_flatMap.mpr ⟨?_, ?_⟩, ?_⟩
    · intro e stored
      have child := ih e.1 e.2 (OrderedMap.find_of_mem sorted stored)
      refine List.pairwise_map.mpr (child.imp fun less => ?_)
      simpa [token e stored] using less
    · refine sorted.imp_of_mem fun {a b} storedA storedB less => ?_
      intro x hx y hy
      obtain ⟨v, _, rfl⟩ := List.mem_map.mp hx
      obtain ⟨w, _, rfl⟩ := List.mem_map.mp hy
      simp only [token a storedA, token b storedB, Option.toList_some, List.cons_append,
        List.nil_append]
      exact List.cons_lt_cons_iff.mpr (Or.inl less)
    · intro x ends y inside
      obtain ⟨e, stored, listed⟩ := List.mem_flatMap.mp inside
      obtain ⟨w, _, rfl⟩ := List.mem_map.mp listed
      have empty : x = [] := by split at ends <;> simp_all
      simp [empty, token e stored]

end Node

namespace GlobTree

theorem mem_list {t : GlobTree} (wf : t.WellFormed) (p : Str) :
    p ∈ t.list ↔ t.contains p = true := by
  rw [list, Node.listStrings_root wf.root, Node.mem_suffixes wf.nodes, contains]

theorem list_ascending {t : GlobTree} (wf : t.WellFormed) : t.list.Pairwise (· < ·) := by
  rw [list, Node.listStrings_root wf.root]
  exact Node.suffixes_ascending wf.nodes

theorem list_congr {t u : GlobTree} (wfT : t.WellFormed) (wfU : u.WellFormed)
    (same : ∀ p, t.contains p = u.contains p) : t.list = u.list := by
  refine List.Subset.antisymm_of_sortedLT ?_ ?_ (list_ascending wfT).sortedLT
    (list_ascending wfU).sortedLT
  · intro p listed
    rw [mem_list wfT, same] at listed
    exact (mem_list wfU p).mpr listed
  · intro p listed
    rw [mem_list wfU, ← same] at listed
    exact (mem_list wfT p).mpr listed

/-! What a reachable tree answers, in terms of its listing. -/

theorem pairwise_codePoints {ps : List Str} (ascending : ps.Pairwise (· < ·)) :
    ps.Pairwise (List.Lex fun a b => a.toNat < b.toNat) := by
  apply ascending.imp
  intro a b less
  exact less

theorem list_enumerates {t : GlobTree} (reachable : t.Reachable) :
    t.list.Nodup ∧ t.list.Pairwise (List.Lex fun a b => a.toNat < b.toNat) ∧
      ∀ p, p ∈ t.list ↔ t.contains p = true := by
  have wf := reachable_wellFormed reachable
  have ascending := list_ascending wf
  refine ⟨?_, pairwise_codePoints ascending, mem_list wf⟩
  apply ascending.imp
  intro a b less
  exact ne_of_lt less

theorem list_enumerates_two :
    ((new.insert ['b']).insert ['a', 'b']).list.Nodup ∧
      ((new.insert ['b']).insert ['a', 'b']).list.Pairwise
        (List.Lex fun a b => a.toNat < b.toNat) ∧
      ∀ p, p ∈ ((new.insert ['b']).insert ['a', 'b']).list ↔
        ((new.insert ['b']).insert ['a', 'b']).contains p = true :=
  list_enumerates ⟨_, .snoc (.snoc (.nil _) (.insert _ _)) (.insert _ _)⟩

theorem check_iff_listed {t : GlobTree} (reachable : t.Reachable) (s : Str) :
    t.check s = true ↔ ∃ p ∈ t.list, GlobMatch p (asBytes s) := by
  have wf := reachable_wellFormed reachable
  rw [check_iff wf]
  simp only [mem_list wf]

theorem check_listed_wildcards :
    (new.insert ['*', 'b', '?']).check ['a', 'b', 'b', 'c'] = true ↔
      ∃ p ∈ (new.insert ['*', 'b', '?']).list, GlobMatch p (asBytes ['a', 'b', 'b', 'c']) :=
  check_iff_listed ⟨_, .snoc (.nil _) (.insert _ _)⟩ _

/-- Every sequence of calls runs, and nothing is held or listed afterwards that it did not
    insert. -/
theorem no_phantom_pattern (calls : List TreeCall) :
    (∃ t, TreeRun calls t) ∧ ∀ t, TreeRun calls t → ∀ p,
      (t.contains p = true ↔ p ∈ t.list) ∧ (t.contains p = true → TreeCall.insert p ∈ calls) := by
  refine ⟨calls_run calls, ?_⟩
  intro t run p
  have wf := reachable_wellFormed ⟨calls, run⟩
  exact ⟨(mem_list wf p).symm, held_was_inserted run⟩

theorem removed_pattern_inserted_before :
    TreeCall.insert ['b'] ∈ [TreeCall.insert ['a', 'b'], .insert ['b'], .remove ['a', 'b']] :=
  ((no_phantom_pattern _).2 _ (.snoc (.snoc (.snoc (.nil _) (.insert _ _)) (.insert _ _))
    (.remove (r := .ok ()) rfl)) ['b']).2 (by decide)

end GlobTree
end PubSub
