import Mathlib.Data.List.Infix
import PubSub.LabelledRun

/- A subscriber that joins an append-only log late. It is given the last entry of the
   log when it joins, then reads on from there; it may be moved ahead when it is too
   slow, and it may leave and join again. Entries are numbered from one. -/
namespace Subscription
open LabelledRun
variable {B : Type}

/-- Where the subscriber is: the number of entries it is past, and the entry it has in
    hand but not yet delivered. -/
inductive Phase (B : Type) where
  | absent
  | joined (past : Nat) (last : Option B)
  | live (past : Nat)
  | taken (past : Nat) (entry : B)
  | stopped

structure Log (B : Type) where
  entries : List B
  phase : Phase B

inductive Mark (B : Type) where
  | quiet
  | join
  | deliver (number : Nat) (entry : B)
  | lost
  | lagged
  | leave

inductive Step : Log B → Mark B → Log B → Prop where
  | same (s : Log B) : Step s .quiet s
  | append (log : List B) (φ : Phase B) (entry : B) :
      Step ⟨log, φ⟩ .quiet ⟨log ++ [entry], φ⟩
  | join (log : List B) : Step ⟨log, .absent⟩ .join ⟨log, .joined log.length log.getLast?⟩
  | attach (log : List B) (n : Nat) : Step ⟨log, .joined n none⟩ .quiet ⟨log, .live n⟩
  | retained (log : List B) (n : Nat) (entry : B) :
      Step ⟨log, .joined n (some entry)⟩ (.deliver n entry) ⟨log, .live n⟩
  | lost (log : List B) (n : Nat) (entry : B) :
      Step ⟨log, .joined n (some entry)⟩ .lost ⟨log, .live n⟩
  | read {log : List B} {n : Nat} {entry : B} (found : log[n]? = some entry) :
      Step ⟨log, .live n⟩ .quiet ⟨log, .taken (n + 1) entry⟩
  | forward (log : List B) (n : Nat) (entry : B) :
      Step ⟨log, .taken n entry⟩ (.deliver n entry) ⟨log, .live n⟩
  | lag {log : List B} {n k : Nat} (ahead : n ≤ k) (left : k < log.length) :
      Step ⟨log, .live n⟩ .lagged ⟨log, .live k⟩
  | leave (log : List B) (n : Nat) : Step ⟨log, .live n⟩ .leave ⟨log, .absent⟩
  | stop (log : List B) (φ : Phase B) : Step ⟨log, φ⟩ .quiet ⟨log, .stopped⟩

def Mark.delivered : Mark B → Option (Nat × B)
  | .deliver number entry => some (number, entry)
  | _ => none

def delivered (marks : List (Mark B)) : List (Nat × B) := marks.filterMap Mark.delivered

def numbered (log : List B) : List (Nat × B) := (log.zipIdx 1).map Prod.swap

theorem delivered_snoc (marks : List (Mark B)) (m : Mark B) :
    delivered (marks ++ [m]) = delivered marks ++ m.delivered.toList :=
  filterMap_snoc Mark.delivered marks m

theorem numbered_length (log : List B) : (numbered log).length = log.length := by
  simp [numbered]

theorem numbered_append (log : List B) (entry : B) :
    numbered (log ++ [entry]) = numbered log ++ [(log.length + 1, entry)] := by
  simp [numbered, List.zipIdx_append, Nat.add_comm]

theorem numbered_get {log : List B} {n : Nat} {entry : B} (found : log[n]? = some entry) :
    (numbered log)[n]? = some (n + 1, entry) := by
  simp [numbered, found, Nat.add_comm]

def Consistent (s : Log B) : Prop :=
  match s.phase with
  | .joined n last => n ≤ s.entries.length ∧ last = (s.entries.take n).getLast?
  | .live n => n ≤ s.entries.length
  | .taken n entry => 0 < n ∧ s.entries[n - 1]? = some entry
  | .absent => True
  | .stopped => True

theorem consistent_append {log : List B} {φ : Phase B} (good : Consistent ⟨log, φ⟩)
    (entry : B) : Consistent ⟨log ++ [entry], φ⟩ := by
  cases φ with
  | absent => trivial
  | stopped => trivial
  | joined n last =>
    obtain ⟨bound, same⟩ := good
    refine ⟨?_, ?_⟩
    · rw [List.length_append]
      exact Nat.le_add_right_of_le bound
    · rw [List.take_append_of_le_length bound]
      exact same
  | live n =>
    simp only [Consistent, List.length_append] at good ⊢
    omega
  | taken n e =>
    obtain ⟨positive, found⟩ := good
    have bound := (List.getElem?_eq_some_iff.mp found).1
    exact ⟨positive, by simpa [List.getElem?_append_left bound] using found⟩

theorem step_consistent {s t : Log B} {m : Mark B} (good : Consistent s) (step : Step s m t) :
    Consistent t := by
  cases step with
  | same => exact good
  | append log φ entry => exact consistent_append good entry
  | join log => exact ⟨Nat.le_refl _, by rw [List.take_length]⟩
  | attach log n => exact good.1
  | retained log n entry => exact good.1
  | lost log n entry => exact good.1
  | read found => exact ⟨Nat.succ_pos _, by simpa using found⟩
  | forward log n entry =>
    obtain ⟨positive, found⟩ := good
    have bound := (List.getElem?_eq_some_iff.mp found).1
    simp only [Consistent] at bound ⊢
    omega
  | lag ahead left => exact Nat.le_of_lt left
  | leave log n => trivial
  | stop log φ => trivial

theorem run_consistent {s t : Log B} {marks : List (Mark B)} (good : Consistent s)
    (run : Run Step s marks t) : Consistent t :=
  run_invariant Consistent good (fun _ _ _ h step => step_consistent h step) run

theorem step_join {s t : Log B} (step : Step s .join t) :
    t = ⟨s.entries, .joined s.entries.length s.entries.getLast?⟩ := by
  cases step with
  | join log => rfl

theorem step_grows {s t : Log B} {m : Mark B} (step : Step s m t) :
    s.entries <+: t.entries := by
  cases step with
  | append log φ entry => exact List.prefix_append _ _
  | _ => exact List.prefix_refl _

theorem step_delivers {s t : Log B} {m : Mark B} (good : Consistent s) (step : Step s m t)
    {k : Nat} {e : B} (now : m.delivered = some (k, e)) :
    0 < k ∧ s.entries[k - 1]? = some e := by
  cases step with
  | retained log n entry =>
    obtain ⟨bound, last⟩ := good
    obtain ⟨rfl, rfl⟩ : n = k ∧ entry = e := by simpa [Mark.delivered] using now
    rw [List.getLast?_eq_getElem?, List.length_take, Nat.min_eq_left bound] at last
    have positive : 0 < n := by
      apply Nat.pos_of_ne_zero
      rintro rfl
      simp at last
    rw [List.getElem?_take_of_lt (by omega)] at last
    exact ⟨positive, last.symm⟩
  | forward log n entry =>
    obtain ⟨rfl, rfl⟩ : n = k ∧ entry = e := by simpa [Mark.delivered] using now
    exact good
  | _ => cases now

theorem entry_kept {log longer : List B} {n : Nat} {e : B} (grown : log <+: longer)
    (found : log[n]? = some e) : longer[n]? = some e := by
  obtain ⟨rest, same⟩ := grown
  rw [← same, List.getElem?_append_left (List.getElem?_eq_some_iff.mp found).1]
  exact found

theorem delivered_entries {s t : Log B} {marks : List (Mark B)} (good : Consistent s)
    (run : Run Step s marks t) {k : Nat} {e : B} (mem : (k, e) ∈ delivered marks) :
    0 < k ∧ t.entries[k - 1]? = some e := by
  refine run_history
    (fun marks t => (k, e) ∈ delivered marks → 0 < k ∧ t.entries[k - 1]? = some e) ?_ ?_ run mem
  · intro mem
    cases mem
  · intro marks s m t before ih step mem
    rw [delivered_snoc, List.mem_append, Option.mem_toList] at mem
    rcases mem with old | now
    · exact ⟨(ih old).1, entry_kept (step_grows step) (ih old).2⟩
    · obtain ⟨positive, found⟩ := step_delivers (run_consistent good before) step now
      exact ⟨positive, entry_kept (step_grows step) found⟩

/-! Deliveries never go backwards. -/

def Behind (numbers : List Nat) (s : Log B) : Prop :=
  ∀ k ∈ numbers, k ≤ s.entries.length ∧
    match s.phase with
    | .joined n _ => k ≤ n
    | .live n => k ≤ n
    | .taken n _ => k ≤ n
    | .absent => True
    | .stopped => True

def numbers (marks : List (Mark B)) : List Nat := (delivered marks).map Prod.fst

theorem numbers_snoc (marks : List (Mark B)) (m : Mark B) :
    numbers (marks ++ [m]) = numbers marks ++ (m.delivered.map Prod.fst).toList := by
  rw [numbers, delivered_snoc, List.map_append]
  cases m <;> rfl

theorem behind_step {s t : Log B} {m : Mark B} {seen : List Nat} (good : Consistent s)
    (step : Step s m t) (behind : Behind seen s) :
    Behind (seen ++ (m.delivered.map Prod.fst).toList) t := by
  intro k mem
  rw [List.mem_append] at mem
  cases step with
  | same => exact behind k (by simpa [Mark.delivered] using mem)
  | append log φ entry =>
    obtain ⟨bound, rest⟩ := behind k (by simpa [Mark.delivered] using mem)
    exact ⟨by simp only [List.length_append]; simp only at bound; omega, rest⟩
  | join log =>
    obtain ⟨bound, _⟩ := behind k (by simpa [Mark.delivered] using mem)
    exact ⟨bound, bound⟩
  | attach log n => exact behind k (by simpa [Mark.delivered] using mem)
  | lost log n entry => exact behind k (by simpa [Mark.delivered] using mem)
  | read found =>
    obtain ⟨bound, rest⟩ := behind k (by simpa [Mark.delivered] using mem)
    exact ⟨bound, Nat.le_succ_of_le rest⟩
  | lag ahead left =>
    obtain ⟨bound, rest⟩ := behind k (by simpa [Mark.delivered] using mem)
    exact ⟨bound, Nat.le_trans rest ahead⟩
  | leave log n =>
    obtain ⟨bound, _⟩ := behind k (by simpa [Mark.delivered] using mem)
    exact ⟨bound, trivial⟩
  | stop log φ =>
    obtain ⟨bound, _⟩ := behind k (by simpa [Mark.delivered] using mem)
    exact ⟨bound, trivial⟩
  | retained log n entry =>
    rcases mem with mem | mem
    · exact behind k mem
    · have same : k = n := by simpa [Mark.delivered] using mem
      subst same
      exact ⟨good.1, Nat.le_refl _⟩
  | forward log n entry =>
    rcases mem with mem | mem
    · exact behind k mem
    · have same : k = n := by simpa [Mark.delivered] using mem
      subst same
      obtain ⟨positive, found⟩ := good
      have bound := (List.getElem?_eq_some_iff.mp found).1
      exact ⟨by simp only at bound ⊢; omega, Nat.le_refl _⟩

theorem behind_delivers {s t : Log B} {m : Mark B} {seen : List Nat} (step : Step s m t)
    (behind : Behind seen s) {j k : Nat} (mem : j ∈ seen)
    (now : k ∈ (m.delivered.map Prod.fst).toList) : j ≤ k := by
  cases step with
  | retained log n entry =>
    have same : k = n := by simpa [Mark.delivered] using now
    exact same ▸ (behind j mem).2
  | forward log n entry =>
    have same : k = n := by simpa [Mark.delivered] using now
    exact same ▸ (behind j mem).2
  | _ => simp [Mark.delivered] at now

theorem numbers_monotone {s t : Log B} {marks : List (Mark B)} (good : Consistent s)
    (run : Run Step s marks t) : (numbers marks).Pairwise (· ≤ ·) ∧ Behind (numbers marks) t := by
  refine run_history
    (fun marks t => (numbers marks).Pairwise (· ≤ ·) ∧ Behind (numbers marks) t) ?_ ?_ run
  · exact ⟨List.Pairwise.nil, fun k mem => by simp [numbers, delivered] at mem⟩
  · intro marks s m t before ih step
    rw [numbers_snoc]
    refine ⟨List.pairwise_append.mpr ⟨ih.1, ?_, ?_⟩, ?_⟩
    · cases m.delivered <;> simp
    · intro j hj k hk
      exact behind_delivers step ih.2 hj hk
    · exact behind_step (run_consistent good before) step ih.2

/-! Between two departures nothing is delivered twice. -/

def Below (numbers : List Nat) (s : Log B) : Prop :=
  numbers = [] ∨
    match s.phase with
    | .live n => ∀ k ∈ numbers, k ≤ n
    | .taken n _ => ∀ k ∈ numbers, k < n
    | .stopped => True
    | .joined _ _ => False
    | .absent => False

theorem below_step {s t : Log B} {m : Mark B} {seen : List Nat} (step : Step s m t)
    (stays : m ≠ .leave) (below : Below seen s) :
    Below (seen ++ (m.delivered.map Prod.fst).toList) t := by
  cases step with
  | same => simpa [Mark.delivered] using below
  | append log φ entry => simpa [Mark.delivered, Below] using below
  | join log => simpa [Mark.delivered, Below] using below
  | attach log n =>
    have empty : seen = [] := by simpa [Below] using below
    exact Or.inl (by simp [empty, Mark.delivered])
  | lost log n entry =>
    have empty : seen = [] := by simpa [Below] using below
    exact Or.inl (by simp [empty, Mark.delivered])
  | retained log n entry =>
    have empty : seen = [] := by simpa [Below] using below
    exact Or.inr (by simp [empty, Mark.delivered])
  | read found =>
    rcases below with empty | bound
    · exact Or.inl (by simp [empty, Mark.delivered])
    · refine Or.inr fun k mem => Nat.lt_succ_of_le (bound k ?_)
      simpa [Mark.delivered] using mem
  | forward log n entry =>
    refine Or.inr fun k mem => ?_
    rcases List.mem_append.mp mem with mem | mem
    · rcases below with empty | bound
      · simp [empty] at mem
      · exact Nat.le_of_lt (bound k mem)
    · have same : k = n := by simpa [Mark.delivered] using mem
      exact Nat.le_of_eq same
  | lag ahead left =>
    rcases below with empty | bound
    · exact Or.inl (by simp [empty, Mark.delivered])
    · refine Or.inr fun k mem => Nat.le_trans (bound k ?_) ahead
      simpa [Mark.delivered] using mem
  | leave log n => contradiction
  | stop log φ => exact Or.inr trivial

theorem below_delivers {s t : Log B} {m : Mark B} {seen : List Nat} (step : Step s m t)
    (below : Below seen s) {j k : Nat} (mem : j ∈ seen)
    (now : k ∈ (m.delivered.map Prod.fst).toList) : j < k := by
  cases step with
  | retained log n entry =>
    have empty : seen = [] := by simpa [Below] using below
    simp [empty] at mem
  | forward log n entry =>
    have same : k = n := by simpa [Mark.delivered] using now
    rcases below with empty | bound
    · simp [empty] at mem
    · exact same ▸ bound j mem
  | _ => simp [Mark.delivered] at now

theorem numbers_strict {s t : Log B} {marks : List (Mark B)} (run : Run Step s marks t)
    (stays : ∀ m ∈ marks, m ≠ .leave) :
    (numbers marks).Pairwise (· < ·) ∧ Below (numbers marks) t := by
  refine run_history (fun marks t => (∀ m ∈ marks, m ≠ .leave) →
    (numbers marks).Pairwise (· < ·) ∧ Below (numbers marks) t) ?_ ?_ run stays
  · intro _
    exact ⟨List.Pairwise.nil, Or.inl rfl⟩
  · intro marks s m t before ih step stays
    obtain ⟨strict, below⟩ := ih fun n mem => stays n (List.mem_append_left _ mem)
    rw [numbers_snoc]
    refine ⟨List.pairwise_append.mpr ⟨strict, ?_, ?_⟩, ?_⟩
    · cases m.delivered <;> simp
    · intro j hj k hk
      exact below_delivers step below hj hk
    · exact below_step step (stays m (by simp)) below

/-! Without lag and loss the retained entry and the live ones join exactly. -/

/-- The numbered entries from number `n` on (from the first, if `n` is zero) up to `k`. -/
def window (log : List B) (n k : Nat) : List (Nat × B) := ((numbered log).take k).drop (n - 1)

theorem window_begins (log : List B) (n k : Nat) :
    window log n k <+: (numbered log).drop (n - 1) :=
  List.IsPrefix.drop (List.take_prefix k (numbered log)) (n - 1)

theorem window_full (log : List B) (n : Nat) :
    window log n log.length = (numbered log).drop (n - 1) := by
  rw [window, ← numbered_length log, List.take_length]

theorem window_append {log : List B} {k : Nat} (bound : k ≤ log.length) (n : Nat) (entry : B) :
    window (log ++ [entry]) n k = window log n k := by
  rw [window, numbered_append, List.take_append_of_le_length (by rwa [numbered_length]), window]

theorem window_succ {log : List B} {n k : Nat} {entry : B} (ahead : n ≤ k)
    (found : log[k]? = some entry) :
    window log n (k + 1) = window log n k ++ [(k + 1, entry)] := by
  have bound := (List.getElem?_eq_some_iff.mp found).1
  unfold window
  rw [List.take_add_one, numbered_get found, Option.toList_some, List.drop_append_of_le_length]
  rw [List.length_take, numbered_length]
  omega

theorem window_joined {log : List B} {n : Nat} (bound : n ≤ log.length) :
    window log n n = ((log.take n).getLast?.map fun entry => (n, entry)).toList := by
  cases n with
  | zero => simp [window]
  | succ n =>
    have found : log[n]? = some log[n] := List.getElem?_eq_getElem bound
    have size : ((numbered log).take n).length = n := by
      rw [List.length_take, numbered_length]
      omega
    unfold window
    rw [List.take_add_one, numbered_get found, List.take_add_one, found]
    simp only [Nat.add_sub_cancel, Option.toList_some, List.getLast?_concat, Option.map_some]
    rw [List.drop_append_of_le_length (Nat.le_of_eq size.symm),
      List.drop_eq_nil_of_le (Nat.le_of_eq size), List.nil_append]

def Exact (n : Nat) (out : List (Nat × B)) (s : Log B) : Prop :=
  match s.phase with
  | .joined k _ => k = n ∧ out = []
  | .live k => n ≤ k ∧ out = window s.entries n k
  | .taken k entry => n < k ∧ out ++ [(k, entry)] = window s.entries n k
  | .stopped => out <+: (numbered s.entries).drop (n - 1)
  | .absent => False

theorem exact_begins {n : Nat} {out : List (Nat × B)} {s : Log B} (exact : Exact n out s) :
    out <+: (numbered s.entries).drop (n - 1) := by
  unfold Exact at exact
  split at exact
  · rw [exact.2]
    exact List.nil_prefix
  · rw [exact.2]
    exact window_begins _ _ _
  · rename_i k entry _
    refine List.IsPrefix.trans ?_ (window_begins s.entries n k)
    rw [← exact.2]
    exact List.prefix_append _ _
  · exact exact
  · contradiction

theorem exact_full {n : Nat} {out : List (Nat × B)} {log : List B}
    (exact : Exact n out ⟨log, .live log.length⟩) : out = (numbered log).drop (n - 1) := by
  obtain ⟨_, same⟩ := exact
  rw [same, window_full]

theorem exact_step {s t : Log B} {m : Mark B} {n : Nat} {out : List (Nat × B)}
    (good : Consistent s) (step : Step s m t)
    (smooth : m ≠ .leave ∧ m ≠ .lagged ∧ m ≠ .lost) (exact : Exact n out s) :
    Exact n (out ++ m.delivered.toList) t := by
  cases step with
  | same => simpa [Mark.delivered] using exact
  | append log φ entry =>
    simp only [Mark.delivered, Option.toList_none, List.append_nil]
    cases φ with
    | absent => exact exact
    | joined k last => exact exact
    | live k =>
      obtain ⟨ahead, same⟩ := exact
      exact ⟨ahead, by rw [window_append good]; exact same⟩
    | taken k e =>
      obtain ⟨ahead, same⟩ := exact
      have bound := (List.getElem?_eq_some_iff.mp good.2).1
      refine ⟨ahead, ?_⟩
      rw [window_append (by simp only at bound; omega)]
      exact same
    | stopped =>
      refine List.IsPrefix.trans (show out <+: _ from exact) ?_
      rw [numbered_append]
      exact List.IsPrefix.drop (List.prefix_append _ _) _
  | join log => exact absurd exact (by simp [Exact])
  | attach log k =>
    obtain ⟨rfl, rfl⟩ := exact
    refine ⟨Nat.le_refl _, ?_⟩
    rw [window_joined good.1, ← good.2]
    rfl
  | retained log k entry =>
    obtain ⟨rfl, rfl⟩ := exact
    refine ⟨Nat.le_refl _, ?_⟩
    rw [window_joined good.1, ← good.2]
    rfl
  | lost log k entry => simp at smooth
  | read found =>
    obtain ⟨ahead, rfl⟩ := exact
    refine ⟨Nat.lt_succ_of_le ahead, ?_⟩
    rw [window_succ ahead found]
    simp [Mark.delivered]
  | forward log k entry =>
    obtain ⟨ahead, same⟩ := exact
    exact ⟨Nat.le_of_lt ahead, same⟩
  | lag ahead left => simp at smooth
  | leave log k => simp at smooth
  | stop log φ =>
    have before := exact_begins exact
    simpa [Exact, Mark.delivered] using before

/-- From the join on, as long as nothing is lost, what is delivered is exactly the run
    of entries that starts with the retained one. -/
theorem stay_exact {log : List B} {t : Log B} {marks : List (Mark B)}
    (run : Run Step ⟨log, .joined log.length log.getLast?⟩ marks t)
    (smooth : ∀ m ∈ marks, m ≠ .leave ∧ m ≠ .lagged ∧ m ≠ .lost) :
    Exact log.length (delivered marks) t := by
  have start : Consistent (⟨log, .joined log.length log.getLast?⟩ : Log B) :=
    ⟨Nat.le_refl _, by rw [List.take_length]⟩
  refine run_history (fun marks t => (∀ m ∈ marks, m ≠ .leave ∧ m ≠ .lagged ∧ m ≠ .lost) →
    Exact log.length (delivered marks) t) ?_ ?_ run smooth
  · intro _
    exact ⟨rfl, rfl⟩
  · intro marks s m t before ih step smooth
    rw [delivered_snoc]
    exact exact_step (run_consistent start before) step (smooth m (by simp))
      (ih fun k mem => smooth k (List.mem_append_left _ mem))

/-! Without loss a subscriber that has read everything was given the last entry last. -/

def Current (out : List (Nat × B)) (s : Log B) : Prop :=
  match s.phase with
  | .live k => k < s.entries.length ∨ k = 0 ∨
      ∃ entry, s.entries[k - 1]? = some entry ∧ out.getLast? = some (k, entry)
  | _ => True

theorem current_step {s t : Log B} {m : Mark B} {out : List (Nat × B)} (good : Consistent s)
    (step : Step s m t) (kept : m ≠ .lost) (current : Current out s) :
    Current (out ++ m.delivered.toList) t := by
  cases step with
  | same => simpa [Mark.delivered] using current
  | append log φ entry =>
    cases φ with
    | live k =>
      refine Or.inl ?_
      simp only [Consistent] at good
      simp only [List.length_append, List.length_singleton]
      omega
    | _ => trivial
  | join log => trivial
  | attach log k =>
    obtain ⟨bound, none⟩ := good
    have empty := List.getLast?_eq_none_iff.mp none.symm
    rcases List.take_eq_nil_iff.mp empty with zero | nil
    · exact Or.inr (Or.inl zero)
    · subst nil
      exact Or.inr (Or.inl (Nat.le_zero.mp bound))
  | retained log k entry =>
    obtain ⟨_, found⟩ := step_delivers good (.retained log k entry) rfl
    exact Or.inr (Or.inr ⟨entry, found, by simp [Mark.delivered]⟩)
  | lost log k entry => contradiction
  | read found => trivial
  | forward log k entry =>
    exact Or.inr (Or.inr ⟨entry, good.2, by simp [Mark.delivered]⟩)
  | lag ahead left => exact Or.inl left
  | leave log k => trivial
  | stop log φ => trivial

theorem run_current {s t : Log B} {marks : List (Mark B)} (good : Consistent s)
    (start : s.phase = .absent) (run : Run Step s marks t) (kept : ∀ m ∈ marks, m ≠ .lost) :
    Current (delivered marks) t := by
  refine run_history (fun marks t => (∀ m ∈ marks, m ≠ .lost) → Current (delivered marks) t)
    ?_ ?_ run kept
  · intro _
    simp [Current, start]
  · intro marks s m t before ih step kept
    rw [delivered_snoc]
    exact current_step (run_consistent good before) step (kept m (by simp))
      (ih fun k mem => kept k (List.mem_append_left _ mem))

theorem current_last {out : List (Nat × B)} {log : List B} {entry : B}
    (current : Current out ⟨log, .live log.length⟩) (last : log.getLast? = some entry) :
    out.getLast? = some (log.length, entry) := by
  rw [List.getLast?_eq_getElem?] at last
  rcases current with ahead | zero | ⟨e, found, delivered⟩
  · exact absurd ahead (Nat.lt_irrefl _)
  · have bound := (List.getElem?_eq_some_iff.mp last).1
    omega
  · obtain rfl := Option.some.inj (found.symm.trans last)
    exact delivered

end Subscription
