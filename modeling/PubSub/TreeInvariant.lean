import PubSub.TreeList

/- The representation of the patterns in the tree over whole runs: every node stored is
   counted and is there for a pattern, and the counts fit the source's u64. -/
namespace PubSub
open LabelledRun

namespace Node

inductive Stored (n : Node) : Str → Node → Prop where
  | root : Stored n [] n
  | child {path : Str} {m child : Node} {c : Char} (above : Stored n path m)
      (entry : (c, child) ∈ m.children) : Stored n (path ++ [c]) child

theorem nodeAt_append (n : Node) (path rest : Str) :
    n.nodeAt (path ++ rest) = (n.nodeAt path).bind fun m => m.nodeAt rest := by
  induction path generalizing n with
  | nil => rfl
  | cons c path ih =>
    simp only [List.cons_append, nodeAt]
    cases OrderedMap.find c n.children with
    | none => rfl
    | some child => exact ih child

theorem stored_nodeAt {n m : Node} {path : Str} (wf : n.WellFormed) (stored : n.Stored path m) :
    n.nodeAt path = some m ∧ m.WellFormed := by
  induction stored with
  | root => exact ⟨rfl, wf⟩
  | child above entry ih =>
    obtain ⟨walk, good⟩ := ih
    have found := OrderedMap.find_of_mem good.sorted entry
    refine ⟨?_, good.child found⟩
    rw [nodeAt_append, walk]
    simp [nodeAt, found]

theorem containsPattern_below {n m : Node} {path : Str} (walk : n.nodeAt path = some m)
    (rest : Str) : n.containsPattern (path ++ rest) = m.containsPattern rest := by
  rw [Bool.eq_iff_iff, containsPattern_iff, containsPattern_iff]
  simp [countAt, childCountAt, nodeAt_append, walk]

theorem counted_holds {n : Node} (wf : n.WellFormed) (counted : 1 ≤ n.count) :
    ∃ rest, n.containsPattern rest = true := by
  induction wf with
  | @mk n sorted tokens positive below ih =>
    cases ends : n.isTerminal with
    | true => exact ⟨[], ends⟩
    | false =>
      have full : n.count ≤ n.childCount := by simpa [isTerminal] using ends
      cases children : n.children with
      | nil =>
        rw [childCount, children] at full
        simp only [OrderedMap.total, List.map_nil, List.sum_nil] at full
        omega
      | cons e others =>
        have found : OrderedMap.find e.1 n.children = some e.2 :=
          OrderedMap.find_of_mem sorted (by rw [children]; exact List.mem_cons_self)
        obtain ⟨rest, held⟩ := ih e.1 e.2 found (positive e.1 e.2 found)
        refine ⟨e.1 :: rest, ?_⟩
        rw [containsPattern, found]
        exact held

theorem passes_ends_le (p q : Str) : passes p q + ends p q ≤ 2 := by
  unfold passes ends
  split <;> split <;> omega

theorem leaves_aboveEnd_le (p q : Str) : leaves p q + aboveEnd p q ≤ 2 := by
  unfold leaves aboveEnd
  split <;> split <;> omega

end Node

namespace GlobTree

/-- What the code relies on in a tree without ever checking it. -/
structure Represented (t : GlobTree) : Prop where
  keyed : ∀ path n c child, t.root.Stored path n → (c, child) ∈ n.children → child.token = some c
  counted : ∀ path n, t.root.Stored path n → path ≠ [] → 1 ≤ n.count
  alive : ∀ path n, t.root.Stored path n → path ≠ [] → ∃ p ∈ t.list, path <+: p

def Within (bound : Nat) (t : GlobTree) : Prop :=
  ∀ path n, t.root.Stored path n → n.count ≤ bound ∧ n.childCount ≤ bound

theorem wellFormed_counted {t : GlobTree} (wf : t.WellFormed) {path : Str} {n : Node}
    (stored : t.root.Stored path n) (below : path ≠ []) : 1 ≤ n.count := by
  cases stored with
  | root => exact absurd rfl below
  | child above entry =>
    obtain ⟨_, good⟩ := Node.stored_nodeAt wf.nodes above
    exact good.counted (OrderedMap.find_of_mem good.sorted entry)

theorem wellFormed_represented {t : GlobTree} (wf : t.WellFormed) : t.Represented where
  keyed := by
    intro path n c child stored entry
    obtain ⟨_, good⟩ := Node.stored_nodeAt wf.nodes stored
    exact good.tokens (OrderedMap.find_of_mem good.sorted entry)
  counted := fun path n stored below => wellFormed_counted wf stored below
  alive := by
    intro path n stored below
    obtain ⟨walk, good⟩ := Node.stored_nodeAt wf.nodes stored
    obtain ⟨rest, held⟩ := Node.counted_holds good (wellFormed_counted wf stored below)
    refine ⟨path ++ rest, (mem_list wf _).mpr ?_, List.prefix_append path rest⟩
    rw [contains, Node.containsPattern_below walk]
    exact held

theorem remove_returns {t : GlobTree} (wf : t.WellFormed) (p : Str) :
    ∃ r u, t.remove p = .ok (r, u) := by
  cases held : t.contains p with
  | true =>
    obtain ⟨u, done, -⟩ := remove_held wf held
    exact ⟨_, u, done⟩
  | false => exact ⟨_, t, remove_missing held⟩

/-! The counts, path by path. -/

def Bounded (bound : Nat) (t : GlobTree) : Prop :=
  ∀ q, t.root.countAt q ≤ bound ∧ t.root.childCountAt q ≤ bound

theorem bounded_within {bound : Nat} {t : GlobTree} (wf : t.WellFormed)
    (bounded : t.Bounded bound) : t.Within bound := by
  intro path n stored
  obtain ⟨walk, -⟩ := Node.stored_nodeAt wf.nodes stored
  have here := bounded path
  simpa [Node.countAt, Node.childCountAt, walk] using here

theorem step_bounded {t u : GlobTree} {call : TreeCall} {bound : Nat} (wf : t.WellFormed)
    (bounded : t.Bounded bound) (step : TreeStep t call u) : u.Bounded (bound + 2) := by
  intro q
  obtain ⟨count, childCount⟩ := bounded q
  cases step with
  | insert p =>
    have counts := Node.countAt_insert wf.nodes p q
    have childCounts := Node.childCountAt_insert wf.nodes p q
    have few := Node.passes_ends_le p q
    have few' := Node.leaves_aboveEnd_le p q
    simp only [insert]
    omega
  | @remove _ p _ done =>
    rcases remove_cases wf done with ⟨_, _, removed⟩ | ⟨_, _, rfl⟩
    · by_cases cut : t.root.Discards p q
      · have gone := removed.discarded q cut
        omega
      · have counts := removed.count q cut
        have childCounts := removed.childCount q cut
        omega
    · omega

theorem run_bounded {t : GlobTree} {calls : List TreeCall} (run : TreeRun calls t) :
    t.Bounded (2 * calls.length) := by
  refine run_history (fun calls t => t.Bounded (2 * calls.length)) ?_ ?_ run
  · intro q
    simp [new_countAt, new_childCountAt]
  · intro calls t call u before ih step
    rw [List.length_append]
    exact step_bounded (reachable_wellFormed ⟨calls, before⟩) ih step

/-- Every sequence of calls runs to its end. The tree it leaves is represented as the code
    expects, no u64 in it has overflowed, and remove can be called with any pattern. -/
theorem representation_kept (calls : List TreeCall) (few : calls.length < 2 ^ 62) :
    (∃ t, TreeRun calls t) ∧ ∀ t, TreeRun calls t →
      t.Represented ∧ t.Within (2 ^ 64 - 1) ∧ ∀ p panic, t.remove p ≠ .error panic := by
  refine ⟨calls_run calls, ?_⟩
  intro t run
  have wf := reachable_wellFormed ⟨calls, run⟩
  refine ⟨wellFormed_represented wf, ?_, ?_⟩
  · intro path n stored
    have within := bounded_within wf (run_bounded run) path n stored
    omega
  · intro p panic failed
    obtain ⟨r, u, done⟩ := remove_returns wf p
    rw [done] at failed
    cases failed

theorem representation_kept_prefix :
    ∃ t, TreeRun [.insert ['a'], .insert ['a', 'b'], .remove ['a', 'b']] t ∧ t.Represented := by
  obtain ⟨⟨t, run⟩, kept⟩ := representation_kept
    [.insert ['a'], .insert ['a', 'b'], .remove ['a', 'b']] (by decide)
  exact ⟨t, run, (kept t run).1⟩

end GlobTree
end PubSub
