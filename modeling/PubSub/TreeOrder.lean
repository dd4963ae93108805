import PubSub.TreeRuns

/- The order of insertions does not matter: a tree is determined by the counts along its
   paths, and every insert adds to them what its own pattern adds. -/
namespace PubSub
namespace Node

theorem ext_counts {n m : Node} (wfN : n.WellFormed) (wfM : m.WellFormed)
    (token : n.token = m.token) (same : ∀ q, n.countAt q = m.countAt q) : n = m := by
  induction wfN generalizing m with
  | @mk n sorted tokens counted below ih =>
    have children : n.children = m.children := by
      apply OrderedMap.ext_of_find sorted wfM.sorted
      intro c
      cases inN : OrderedMap.find c n.children with
      | none =>
        cases inM : OrderedMap.find c m.children with
        | none => rfl
        | some child =>
          have here := same [c]
          have positive := wfM.counted inM
          rw [countAt_absent inN, countAt_child inM, countAt_nil] at here
          omega
      | some child =>
        cases inM : OrderedMap.find c m.children with
        | none =>
          have here := same [c]
          have positive := counted c child inN
          rw [countAt_child inN, countAt_absent inM, countAt_nil] at here
          omega
        | some other =>
          have tokensSame : child.token = other.token := by
            rw [tokens c child inN, wfM.tokens inM]
          have deeper : ∀ q, child.countAt q = other.countAt q := by
            intro q
            have here := same (c :: q)
            rwa [countAt_child inN, countAt_child inM] at here
          rw [ih c child inN (wfM.child inM) tokensSame deeper]
    have count : n.count = m.count := same []
    cases n
    cases m
    simp_all

end Node

namespace GlobTree

theorem ext_counts {t u : GlobTree} (wfT : t.WellFormed) (wfU : u.WellFormed)
    (same : ∀ q, t.root.countAt q = u.root.countAt q) : t = u := by
  have roots := Node.ext_counts wfT.nodes wfU.nodes (by rw [wfT.root, wfU.root]) same
  cases t
  cases u
  simp_all

theorem insert_insert {t : GlobTree} (wf : t.WellFormed) (p q : Str) :
    (t.insert p).insert q = (t.insert q).insert p := by
  have wfP := insert_wellFormed wf p
  have wfQ := insert_wellFormed wf q
  apply ext_counts (insert_wellFormed wfP q) (insert_wellFormed wfQ p)
  intro r
  have first := Node.countAt_insert wfP.nodes q r
  have second := Node.countAt_insert wfQ.nodes p r
  simp only [insert, Node.countAt_insert wf.nodes] at first second ⊢
  omega

def insertAll (t : GlobTree) (patterns : List Str) : GlobTree := patterns.foldl insert t

theorem insertAll_perm {t : GlobTree} (wf : t.WellFormed) {ps qs : List Str} (perm : ps.Perm qs) :
    t.insertAll ps = t.insertAll qs := by
  induction perm generalizing t with
  | nil => rfl
  | cons p perm ih => exact ih (insert_wellFormed wf p)
  | swap p q ps =>
    change ((t.insert q).insert p).insertAll ps = ((t.insert p).insert q).insertAll ps
    rw [insert_insert wf]
  | trans first second ihFirst ihSecond => exact (ihFirst wf).trans (ihSecond wf)

/-- Inserts into any reachable tree commute, whatever their order and number. -/
theorem insertion_order_irrelevant :
    (∀ ps qs : List Str, ps.Perm qs → new.insertAll ps = new.insertAll qs) ∧
      ∀ t : GlobTree, t.Reachable → (∀ p q, (t.insert p).insert q = (t.insert q).insert p) ∧
        ∀ ps qs : List Str, ps.Perm qs → t.insertAll ps = t.insertAll qs := by
  refine ⟨fun ps qs perm => insertAll_perm new_wellFormed perm, ?_⟩
  intro t reachable
  have wf := reachable_wellFormed reachable
  exact ⟨insert_insert wf, fun ps qs perm => insertAll_perm wf perm⟩

theorem two_insertion_orders :
    new.insertAll [['a'], ['a', 'b'], ['a']] = new.insertAll [['a', 'b'], ['a'], ['a']] :=
  insertion_order_irrelevant.1 _ _ (by decide)

end GlobTree
end PubSub
