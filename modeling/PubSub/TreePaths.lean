import Mathlib.Data.List.Infix
import Mathlib.Tactic.Tauto
import PubSub.GlobTree

/- What insert and remove do to the counts along every path. All later facts about
   the tree are arithmetic over these counts. -/
namespace PubSub
namespace Node

/-- Children in key order, each under its own token and with a positive count. -/
inductive WellFormed : Node → Prop where
  | mk {n : Node} (sorted : OrderedMap.Sorted n.children)
      (tokens : ∀ c child, OrderedMap.find c n.children = some child → child.token = some c)
      (counted : ∀ c child, OrderedMap.find c n.children = some child → 1 ≤ child.count)
      (below : ∀ c child, OrderedMap.find c n.children = some child → child.WellFormed) :
      n.WellFormed

theorem WellFormed.sorted {n : Node} : n.WellFormed → OrderedMap.Sorted n.children
  | .mk sorted _ _ _ => sorted

theorem WellFormed.tokens {n : Node} : n.WellFormed → ∀ {c child},
    OrderedMap.find c n.children = some child → child.token = some c
  | .mk _ tokens _ _, c, child => tokens c child

theorem WellFormed.counted {n : Node} : n.WellFormed → ∀ {c child},
    OrderedMap.find c n.children = some child → 1 ≤ child.count
  | .mk _ _ counted _, c, child => counted c child

theorem WellFormed.child {n : Node} : n.WellFormed → ∀ {c child},
    OrderedMap.find c n.children = some child → child.WellFormed
  | .mk _ _ _ below, c, child => below c child

def nodeAt (n : Node) : Str → Option Node
  | [] => some n
  | c :: cs =>
    match OrderedMap.find c n.children with
    | none => none
    | some child => child.nodeAt cs

def countAt (n : Node) (q : Str) : Nat := ((n.nodeAt q).map count).getD 0

def childCountAt (n : Node) (q : Str) : Nat := ((n.nodeAt q).map childCount).getD 0

theorem countAt_nil (n : Node) : n.countAt [] = n.count := rfl

theorem childCountAt_nil (n : Node) : n.childCountAt [] = n.childCount := rfl

theorem countAt_absent {n : Node} {c : Char} (absent : OrderedMap.find c n.children = none)
    (q : Str) : n.countAt (c :: q) = 0 := by
  simp [countAt, nodeAt, absent]

theorem childCountAt_absent {n : Node} {c : Char}
    (absent : OrderedMap.find c n.children = none) (q : Str) : n.childCountAt (c :: q) = 0 := by
  simp [childCountAt, nodeAt, absent]

theorem countAt_child {n child : Node} {c : Char}
    (found : OrderedMap.find c n.children = some child) (q : Str) :
    n.countAt (c :: q) = child.countAt q := by
  simp [countAt, nodeAt, found]

theorem childCountAt_child {n child : Node} {c : Char}
    (found : OrderedMap.find c n.children = some child) (q : Str) :
    n.childCountAt (c :: q) = child.childCountAt q := by
  simp [childCountAt, nodeAt, found]

theorem containsPattern_iff (n : Node) (q : Str) :
    n.containsPattern q = true ↔ n.childCountAt q < n.countAt q := by
  induction q generalizing n with
  | nil => simp [containsPattern, isTerminal, countAt_nil, childCountAt_nil]
  | cons c q ih =>
    cases found : OrderedMap.find c n.children with
    | none => simp [containsPattern, found, countAt_absent found]
    | some child =>
      simp [containsPattern, found, countAt_child found, childCountAt_child found, ih]

theorem countAt_zero_extends {n : Node} (wf : n.WellFormed) {q r : Str} (nonempty : q ≠ [])
    (zero : n.countAt q = 0) (below : q <+: r) : n.countAt r = 0 ∧ n.childCountAt r = 0 := by
  induction q generalizing n r with
  | nil => contradiction
  | cons c q ih =>
    obtain ⟨rest, rfl⟩ := below
    cases found : OrderedMap.find c n.children with
    | none => exact ⟨countAt_absent found _, childCountAt_absent found _⟩
    | some child =>
      rw [countAt_child found] at zero
      have positive := wf.counted found
      have deeper : q ≠ [] := by
        rintro rfl
        rw [countAt_nil] at zero
        omega
      rw [List.cons_append, countAt_child found, childCountAt_child found]
      exact ih (wf.child found) deeper zero (List.prefix_append q rest)

/-! Insert. -/

def childOrNew (n : Node) (c : Char) : Node :=
  match OrderedMap.find c n.children with
  | some child => child.incrementCount
  | none => new (some c)

theorem insertPattern_cons (n : Node) (c : Char) (p : Str) :
    n.insertPattern (c :: p) =
      { n with children :=
          OrderedMap.set c ((n.childOrNew c).insertPattern p) n.children } := by
  cases found : OrderedMap.find c n.children with
  | some child => simp [insertPattern, found, updateChild, childOrNew]
  | none =>
    simp [insertPattern, found, updateChild, insertChild, new, childOrNew,
      OrderedMap.find_set_self, OrderedMap.set_set]

theorem incrementCount_nodeAt (n : Node) {q : Str} (deeper : q ≠ []) :
    n.incrementCount.nodeAt q = n.nodeAt q := by
  cases q with
  | nil => contradiction
  | cons c q => rfl

theorem countAt_childOrNew (n : Node) (c : Char) (q : Str) :
    (n.childOrNew c).countAt q = n.countAt (c :: q) + if q = [] then 1 else 0 := by
  cases found : OrderedMap.find c n.children with
  | some child =>
    rw [countAt_child found]
    by_cases here : q = []
    · subst here
      simp [childOrNew, found, countAt_nil, incrementCount]
    · simp [childOrNew, found, here, countAt, incrementCount_nodeAt]
  | none =>
    rw [countAt_absent found]
    cases q with
    | nil => simp [childOrNew, found, countAt_nil, new]
    | cons d q => simp [childOrNew, found, countAt, nodeAt, new, OrderedMap.find]

theorem childCountAt_childOrNew (n : Node) (c : Char) (q : Str) :
    (n.childOrNew c).childCountAt q = n.childCountAt (c :: q) := by
  cases found : OrderedMap.find c n.children with
  | some child =>
    rw [childCountAt_child found]
    by_cases here : q = []
    · subst here
      simp [childOrNew, found, childCountAt_nil, incrementCount, childCount]
    · simp [childOrNew, found, here, childCountAt, incrementCount_nodeAt]
  | none =>
    rw [childCountAt_absent found]
    cases q with
    | nil => simp [childOrNew, found, childCountAt_nil, childCount, new, OrderedMap.total]
    | cons d q => simp [childOrNew, found, childCountAt, nodeAt, new, OrderedMap.find]

theorem childOrNew_token {n : Node} (wf : n.WellFormed) (c : Char) :
    (n.childOrNew c).token = some c := by
  cases found : OrderedMap.find c n.children with
  | some child => simp [childOrNew, found, incrementCount, wf.tokens found]
  | none => simp [childOrNew, found, new]

theorem wellFormed_new (token : Option Char) (count : Nat) : WellFormed ⟨token, [], count⟩ := by
  refine .mk (by simp [OrderedMap.Sorted]) ?_ ?_ ?_ <;> simp [OrderedMap.find]

theorem wellFormed_of_children {n m : Node} (wf : n.WellFormed)
    (same : m.children = n.children) : m.WellFormed := by
  cases wf with
  | mk sorted tokens counted below =>
    exact .mk (same ▸ sorted) (same ▸ tokens) (same ▸ counted) (same ▸ below)

theorem wellFormed_childOrNew {n : Node} (wf : n.WellFormed) (c : Char) :
    (n.childOrNew c).WellFormed := by
  cases found : OrderedMap.find c n.children with
  | some child =>
    simp only [childOrNew, found]
    exact wellFormed_of_children (wf.child found) rfl
  | none =>
    simp only [childOrNew, found]
    exact wellFormed_new _ _

theorem wellFormed_set {n child : Node} {c : Char} (wf : n.WellFormed)
    (token : child.token = some c) (counted : 1 ≤ child.count) (good : child.WellFormed) :
    WellFormed { n with children := OrderedMap.set c child n.children } := by
  have stored : ∀ d m, OrderedMap.find d (OrderedMap.set c child n.children) = some m →
      (d = c ∧ m = child) ∨ OrderedMap.find d n.children = some m := by
    intro d m found
    by_cases same : d = c
    · subst same
      rw [OrderedMap.find_set_self] at found
      exact Or.inl ⟨rfl, (Option.some.inj found).symm⟩
    · rw [OrderedMap.find_set_ne same] at found
      exact Or.inr found
  refine .mk (OrderedMap.sorted_set wf.sorted c child) ?_ ?_ ?_
  · intro d m found
    rcases stored d m found with ⟨rfl, rfl⟩ | old
    · exact token
    · exact wf.tokens old
  · intro d m found
    rcases stored d m found with ⟨rfl, rfl⟩ | old
    · exact counted
    · exact wf.counted old
  · intro d m found
    rcases stored d m found with ⟨rfl, rfl⟩ | old
    · exact good
    · exact wf.child old

theorem insertPattern_token (n : Node) (p : Str) : (n.insertPattern p).token = n.token := by
  cases p with
  | nil => rfl
  | cons c p => rw [insertPattern_cons]

def passes (p q : Str) : Nat := if q ≠ [] ∧ q <+: p then 1 else 0

def leaves (p q : Str) : Nat := if q <+: p ∧ q ≠ p then 1 else 0

def aboveEnd (p q : Str) : Nat := if q <+: p ∧ p.length = q.length + 1 then 1 else 0

def ends (p q : Str) : Nat := if q = p then 1 else 0

theorem passes_nil (p : Str) : passes p [] = 0 := by simp [passes]

theorem passes_self {p : Str} (nonempty : p ≠ []) : passes p p = 1 := by
  simp [passes, nonempty]

theorem leaves_self (p : Str) : leaves p p = 0 := by simp [leaves]

theorem leaves_nil {p : Str} (nonempty : p ≠ []) : leaves p [] = 1 := by
  simp [leaves, Ne.symm nonempty]

theorem aboveEnd_self (p : Str) : aboveEnd p p = 0 := by simp [aboveEnd]

theorem ends_self (p : Str) : ends p p = 1 := by simp [ends]

theorem ends_other {p q : Str} (other : q ≠ p) : ends p q = 0 := by simp [ends, other]

theorem passes_eq_leaves {p q : Str} (deeper : q ≠ []) (other : q ≠ p) :
    passes p q = leaves p q := by simp [passes, leaves, deeper, other]

theorem passes_le_leaves {p q : Str} (other : q ≠ p) : passes p q ≤ leaves p q := by
  by_cases empty : q = []
  · simp [passes, empty]
  · exact Nat.le_of_eq (passes_eq_leaves empty other)

theorem passes_cons (c : Char) (p q : Str) :
    passes (c :: p) (c :: q) = passes p q + if q = [] then 1 else 0 := by
  by_cases here : q = [] <;> simp [passes, here]

theorem passes_apart {c d : Char} (differ : d ≠ c) (p q : Str) :
    passes (c :: p) (d :: q) = 0 := by simp [passes, differ]

theorem countAt_insert {n : Node} (wf : n.WellFormed) (p q : Str) :
    (n.insertPattern p).countAt q = n.countAt q + passes p q + ends p q := by
  induction p generalizing n q with
  | nil =>
    cases q with
    | nil => simp [insertPattern, countAt_nil, incrementCount, passes, ends]
    | cons d q => simp [insertPattern, countAt, incrementCount_nodeAt, passes, ends]
  | cons c p ih =>
    rw [insertPattern_cons]
    cases q with
    | nil => simp [countAt_nil, passes, ends]
    | cons d q =>
      by_cases same : d = c
      · subst same
        rw [countAt_child (OrderedMap.find_set_self _ _ _), ih (wellFormed_childOrNew wf d),
          countAt_childOrNew, passes_cons]
        simp only [ends, List.cons.injEq, true_and]
        omega
      · have unchanged := OrderedMap.find_set_ne same ((n.childOrNew c).insertPattern p) n.children
        simp [countAt, nodeAt, unchanged, passes_apart same, ends, same]

theorem childCountAt_insert {n : Node} (wf : n.WellFormed) (p q : Str) :
    (n.insertPattern p).childCountAt q = n.childCountAt q + leaves p q + aboveEnd p q := by
  induction p generalizing n q with
  | nil =>
    cases q with
    | nil => simp [insertPattern, childCountAt_nil, incrementCount, childCount, leaves, aboveEnd]
    | cons d q =>
      simp [insertPattern, childCountAt, incrementCount_nodeAt, leaves, aboveEnd]
  | cons c p ih =>
    rw [insertPattern_cons]
    cases q with
    | nil =>
      -- the child's count grows by one, and by one more where the pattern ends
      have grown : ((n.childOrNew c).insertPattern p).count =
          n.countAt [c] + 1 + ends p [] := by
        have here := countAt_insert (wellFormed_childOrNew wf c) p []
        rw [countAt_nil, countAt_childOrNew] at here
        simpa [passes] using here
      have last : ends p [] = aboveEnd (c :: p) [] := by
        cases p <;> simp [ends, aboveEnd]
      have left : leaves (c :: p) [] = 1 := by simp [leaves]
      simp only [childCountAt_nil, childCount]
      cases found : OrderedMap.find c n.children with
      | some child =>
        have moved := OrderedMap.total_set_old count wf.sorted found
          ((n.childOrNew c).insertPattern p)
        rw [countAt_child found, countAt_nil] at grown
        omega
      | none =>
        have added := OrderedMap.total_set_new count found ((n.childOrNew c).insertPattern p)
        rw [countAt_absent found] at grown
        omega
    | cons d q =>
      by_cases same : d = c
      · subst same
        rw [childCountAt_child (OrderedMap.find_set_self _ _ _),
          ih (wellFormed_childOrNew wf d), childCountAt_childOrNew]
        simp [leaves, aboveEnd]
      · have unchanged := OrderedMap.find_set_ne same ((n.childOrNew c).insertPattern p) n.children
        simp [childCountAt, nodeAt, unchanged, leaves, aboveEnd, same]

theorem wellFormed_insert {n : Node} (wf : n.WellFormed) (p : Str) :
    (n.insertPattern p).WellFormed := by
  induction p generalizing n with
  | nil => exact wellFormed_of_children wf rfl
  | cons c p ih =>
    rw [insertPattern_cons]
    refine wellFormed_set wf ?_ ?_ (ih (wellFormed_childOrNew wf c))
    · rw [insertPattern_token]
      exact childOrNew_token wf c
    · have here := countAt_insert (wellFormed_childOrNew wf c) p []
      rw [countAt_nil, countAt_childOrNew] at here
      simp only [↓reduceIte] at here
      omega

/-! Remove. -/

/-- Remove cuts off the subtree of the first node on the path that is counted once;
    these are the paths inside it. -/
def Discards (n : Node) (p q : Str) : Prop :=
  ∃ u, u ≠ [] ∧ u <+: p ∧ u <+: q ∧ n.countAt u = 1

instance (n : Node) (p q : Str) : Decidable (n.Discards p q) :=
  decidable_of_iff (∃ u ∈ p.inits, u ≠ [] ∧ u <+: q ∧ n.countAt u = 1) <| by
    simp only [List.mem_inits, Discards]
    exact exists_congr fun u => by tauto

theorem discards_nil (n : Node) (p : Str) : ¬ n.Discards p [] := by
  rintro ⟨u, nonempty, _, inside, _⟩
  exact nonempty (List.prefix_nil.mp inside)

theorem discards_apart (n : Node) {c d : Char} (differ : d ≠ c) (p q : Str) :
    ¬ n.Discards (c :: p) (d :: q) := by
  rintro ⟨u, nonempty, onPath, inside, _⟩
  cases u with
  | nil => contradiction
  | cons e u =>
    have first := (List.cons_prefix_cons.mp onPath).1
    have second := (List.cons_prefix_cons.mp inside).1
    exact differ (second.symm.trans first)

theorem discards_child {n child kept : Node} {c : Char}
    (found : OrderedMap.find c n.children = some child) (shared : child.count ≠ 1)
    (same : kept.children = child.children) (p q : Str) :
    n.Discards (c :: p) (c :: q) ↔ kept.Discards p q := by
  have deeper : ∀ u, u ≠ [] → n.countAt (c :: u) = kept.countAt u := by
    intro u nonempty
    rw [countAt_child found]
    cases u with
    | nil => contradiction
    | cons d u => simp [countAt, nodeAt, same]
  constructor
  · rintro ⟨u, nonempty, onPath, inside, once⟩
    cases u with
    | nil => contradiction
    | cons d u =>
      obtain ⟨rfl, inner⟩ := List.cons_prefix_cons.mp onPath
      have inside := (List.cons_prefix_cons.mp inside).2
      have below : u ≠ [] := by
        rintro rfl
        rw [countAt_child found] at once
        exact shared once
      exact ⟨u, below, inner, inside, by rw [← deeper u below, once]⟩
  · rintro ⟨u, nonempty, onPath, inside, once⟩
    exact ⟨c :: u, by simp, List.cons_prefix_cons.mpr ⟨rfl, onPath⟩,
      List.cons_prefix_cons.mpr ⟨rfl, inside⟩, by rw [deeper u nonempty, once]⟩

structure Removed (n : Node) (p : Str) (m : Node) : Prop where
  wellFormed : m.WellFormed
  token : m.token = n.token
  discarded : ∀ q, n.Discards p q → m.countAt q = 0 ∧ m.childCountAt q = 0
  count : ∀ q, ¬ n.Discards p q → m.countAt q + passes p q = n.countAt q
  childCount : ∀ q, ¬ n.Discards p q → m.childCountAt q + leaves p q = n.childCountAt q

theorem removed_cut {n child : Node} {c : Char} (wf : n.WellFormed)
    (found : OrderedMap.find c n.children = some child) (once : child.count = 1) (p : Str) :
    Removed n (c :: p) { n with children := OrderedMap.erase c n.children } := by
  have gone := OrderedMap.find_erase_self wf.sorted c
  have inside : ∀ q, n.Discards (c :: p) (c :: q) := fun q =>
    ⟨[c], by simp, by simp, by simp, by rw [countAt_child found, countAt_nil, once]⟩
  have kept : ∀ d m, OrderedMap.find d (OrderedMap.erase c n.children) = some m →
      OrderedMap.find d n.children = some m := by
    intro d m stored
    by_cases same : d = c
    · subst same
      simp [gone] at stored
    · rwa [OrderedMap.find_erase_ne same] at stored
  refine ⟨.mk (OrderedMap.sorted_erase wf.sorted c) ?_ ?_ ?_, rfl, ?_, ?_, ?_⟩
  · intro d m stored
    exact wf.tokens (kept d m stored)
  · intro d m stored
    exact wf.counted (kept d m stored)
  · intro d m stored
    exact wf.child (kept d m stored)
  · intro q discarded
    cases q with
    | nil => exact absurd discarded (discards_nil n _)
    | cons d q =>
      by_cases same : d = c
      · subst same
        exact ⟨countAt_absent gone q, childCountAt_absent gone q⟩
      · exact absurd discarded (discards_apart n same p q)
  · intro q survives
    cases q with
    | nil => simp [countAt_nil, passes]
    | cons d q =>
      by_cases same : d = c
      · subst same
        exact absurd (inside q) survives
      · simp [countAt, nodeAt, OrderedMap.find_erase_ne same, passes_apart same]
  · intro q survives
    cases q with
    | nil =>
      have total := OrderedMap.total_erase Node.count found
      simp only [childCountAt_nil, Node.childCount, leaves, List.nil_prefix, ne_eq,
        List.nil_eq, reduceCtorEq, not_false_eq_true, and_self, ↓reduceIte]
      omega
    | cons d q =>
      by_cases same : d = c
      · subst same
        exact absurd (inside q) survives
      · simp [childCountAt, nodeAt, OrderedMap.find_erase_ne same, leaves, same]

theorem countAt_decremented {child kept : Node} (positive : 1 ≤ child.count)
    (decremented : kept = { child with count := child.count - 1 }) (q : Str) :
    kept.countAt q + (if q = [] then 1 else 0) = child.countAt q := by
  subst decremented
  cases q with
  | nil =>
    simp only [countAt_nil, ↓reduceIte]
    omega
  | cons d q => simp [countAt, nodeAt]

theorem childCountAt_decremented {child kept : Node}
    (decremented : kept = { child with count := child.count - 1 }) (q : Str) :
    kept.childCountAt q = child.childCountAt q := by
  subst decremented
  cases q with
  | nil => simp [childCountAt_nil, Node.childCount]
  | cons d q => simp [childCountAt, nodeAt]

theorem removed_step {n child kept rest : Node} {c : Char} {p : Str} (wf : n.WellFormed)
    (found : OrderedMap.find c n.children = some child) (shared : child.count ≠ 1)
    (decremented : kept = { child with count := child.count - 1 })
    (ih : Removed kept p rest) :
    Removed n (c :: p) { n with children := OrderedMap.set c rest n.children } := by
  have positive := wf.counted found
  have sameChildren : kept.children = child.children := by rw [decremented]
  have keptCount := countAt_decremented positive decremented
  have keptChildCount := childCountAt_decremented decremented
  have left : rest.count + 1 = child.count := by
    have here := ih.count [] (discards_nil kept p)
    rw [countAt_nil, countAt_nil, decremented] at here
    simp only [passes, ne_eq, not_true_eq_false, false_and, ↓reduceIte] at here
    omega
  have stored := OrderedMap.find_set_self c rest n.children
  have wide := discards_child found shared sameChildren p
  refine ⟨wellFormed_set wf ?_ (by omega) ih.wellFormed, rfl, ?_, ?_, ?_⟩
  · rw [ih.token, decremented, ← wf.tokens found]
  · intro q discarded
    cases q with
    | nil => exact absurd discarded (discards_nil n _)
    | cons d q =>
      by_cases same : d = c
      · subst same
        rw [countAt_child stored, childCountAt_child stored]
        exact ih.discarded q ((wide q).mp discarded)
      · exact absurd discarded (discards_apart n same p q)
  · intro q survives
    cases q with
    | nil => simp [countAt_nil, passes]
    | cons d q =>
      by_cases same : d = c
      · subst same
        have below := ih.count q fun discarded => survives ((wide q).mpr discarded)
        have here := keptCount q
        rw [countAt_child stored, countAt_child found, passes_cons]
        omega
      · simp [countAt, nodeAt, OrderedMap.find_set_ne same, passes_apart same]
  · intro q survives
    cases q with
    | nil =>
      have total := OrderedMap.total_set_old Node.count wf.sorted found rest
      simp only [childCountAt_nil, Node.childCount, leaves, List.nil_prefix, ne_eq,
        List.nil_eq, reduceCtorEq, not_false_eq_true, and_self, ↓reduceIte]
      omega
    | cons d q =>
      by_cases same : d = c
      · subst same
        have below := ih.childCount q fun discarded => survives ((wide q).mpr discarded)
        rw [childCountAt_child stored, childCountAt_child found, ← keptChildCount q, ← below]
        simp [leaves]
      · simp [childCountAt, nodeAt, OrderedMap.find_set_ne same, leaves, same]

theorem removePattern_spec {n : Node} (wf : n.WellFormed) {p : Str}
    (present : n.countAt p ≠ 0 ∨ p = []) :
    ∃ m, n.removePattern p = .ok m ∧ Removed n p m := by
  induction p generalizing n with
  | nil =>
    refine ⟨n, rfl, wf, rfl, ?_, ?_, ?_⟩
    · rintro q ⟨u, nonempty, onPath, _⟩
      exact absurd (List.prefix_nil.mp onPath) nonempty
    · intro q _
      simp [passes]
    · intro q _
      simp [leaves]
  | cons c p ih =>
    have present : n.countAt (c :: p) ≠ 0 := present.resolve_right (by simp)
    cases found : OrderedMap.find c n.children with
    | none => exact absurd (countAt_absent found p) present
    | some child =>
      rw [countAt_child found] at present
      by_cases once : child.count = 1
      · refine ⟨_, ?_, removed_cut wf found once p⟩
        simp [removePattern, found, once]
      · have nonzero : child.count ≠ 0 := Nat.one_le_iff_ne_zero.mp (wf.counted found)
        have deeper : countAt { child with count := child.count - 1 } p ≠ 0 ∨ p = [] := by
          cases p with
          | nil => exact Or.inr rfl
          | cons d p => exact Or.inl present
        obtain ⟨rest, run, removed⟩ :=
          ih (wellFormed_of_children (m := { child with count := child.count - 1 })
            (wf.child found) rfl) deeper
        refine ⟨_, ?_, removed_step wf found once rfl removed⟩
        simp only [removePattern, found, once, ↓reduceIte, decrementCount, nonzero, bind,
          Except.bind, run]

end Node
end PubSub
