import PubSub.LabelledRun
import Mathlib.Algebra.Order.BigOperators.Group.Finset

/- Ranks in the order of their importance. A step may raise the ranks behind the one that it
   lowers, so work may be handed on from stage to stage and become more on the way; it must
   not flow back. Where parties have ranks each, the sums over all of them are ranks. -/
namespace LabelledRun
variable {S L A : Type}

/-- From the first rank on none is raised up to one that is lowered. -/
def Descends : List (S → Nat) → S → S → Prop
  | [], _, _ => False
  | rank :: ranks, s, t => rank t < rank s ∨ rank t ≤ rank s ∧ Descends ranks s t

theorem descends_wf (ranks : List (S → Nat)) : WellFounded fun t s => Descends ranks s t := by
  induction ranks with
  | nil => exact ⟨fun s => ⟨s, fun t descends => descends.elim⟩⟩
  | cons rank ranks ih =>
    have pairs := (Prod.lex Nat.lt_wfRel ⟨_, ih⟩).wf
    refine Subrelation.wf (fun {t s} descends => ?_) (InvImage.wf (fun s => (rank s, s)) pairs)
    rcases descends with lower | ⟨within, later⟩
    · exact Prod.Lex.left _ _ lower
    · rcases Nat.lt_or_eq_of_le within with lower | same
      · exact Prod.Lex.left _ _ lower
      · show Prod.Lex _ _ (rank t, t) (rank s, s)
        rw [same]
        exact Prod.Lex.right _ later

/-- A system whose steps descend, and that goes on until it is at an end, gets there whatever
    it does. -/
theorem endsWithin_of_descent {step : S → L → S → Prop} {final : S → Prop}
    (ranks : List (S → Nat)) (holds : S → Prop) (able : ∀ s, final s ∨ ∃ l t, step s l t)
    (preserved : ∀ s l t, holds s → step s l t → holds t)
    (descends : ∀ s l t, holds s → step s l t → Descends ranks s t) {s : S} (base : holds s) :
    EndsWithin step (fun _ => 0) final 0 s := by
  induction s using (descends_wf ranks).induction with
  | h s ih =>
    rcases able s with done | moves
    · exact .ended done
    · refine .next moves (fun _ _ _ => Nat.le_refl 0) fun l t taken => ?_
      exact ih t (descends s l t base taken) (preserved s l t base taken)

/-! The ranks of several parties. -/

def whole (n : Nat) (rank : A → Nat) (parties : Nat → Option A) : Nat :=
  ∑ c ∈ Finset.range n, (parties c).elim 0 rank

section Parties
variable {n c : Nat} {rank : A → Nat} {parties : Nat → Option A} {a b : A}

theorem whole_le (found : parties c = some a) (within : rank b ≤ rank a) :
    whole n rank (Function.update parties c (some b)) ≤ whole n rank parties := by
  apply Finset.sum_le_sum
  intro d _
  by_cases own : d = c
  · subst own
    rw [Function.update_self, found]
    exact within
  · rw [Function.update_of_ne own]

theorem whole_lt (counted : c < n) (found : parties c = some a) (lower : rank b < rank a) :
    whole n rank (Function.update parties c (some b)) < whole n rank parties := by
  apply Finset.sum_lt_sum
  · intro d _
    by_cases own : d = c
    · subst own
      rw [Function.update_self, found]
      exact Nat.le_of_lt lower
    · rw [Function.update_of_ne own]
  · refine ⟨c, Finset.mem_range.mpr counted, ?_⟩
    rw [Function.update_self, found]
    exact lower

theorem whole_descends (counted : c < n) (found : parties c = some a) {ranks : List (A → Nat)}
    (descends : Descends ranks a b) :
    Descends (ranks.map (whole n)) parties (Function.update parties c (some b)) := by
  induction ranks with
  | nil => exact descends.elim
  | cons rank ranks ih =>
    rcases descends with lower | ⟨within, later⟩
    · exact Or.inl (whole_lt counted found lower)
    · exact Or.inr ⟨whole_le found within, ih later⟩

end Parties
end LabelledRun
