import Mathlib.Data.List.Basic

/- Finite runs of a labelled transition system. The labels are kept in the order
   in which the steps were taken, so a run carries its own history. -/
namespace LabelledRun
variable {S L : Type}

inductive Run (step : S → L → S → Prop) : S → List L → S → Prop where
  | nil (s : S) : Run step s [] s
  | snoc {s m t : S} {ls : List L} {l : L} (run : Run step s ls m) (last : step m l t) :
      Run step s (ls ++ [l]) t

/-- The induction rule for facts about a history and the state it leads to. -/
theorem run_history {step : S → L → S → Prop} {start : S} (holds : List L → S → Prop)
    (base : holds [] start)
    (preserved : ∀ ls s l t, Run step start ls s → holds ls s → step s l t → holds (ls ++ [l]) t)
    {ls : List L} {s : S} (run : Run step start ls s) : holds ls s := by
  induction run with
  | nil => exact base
  | snoc before last ih => exact preserved _ _ _ _ before ih last

theorem run_invariant {step : S → L → S → Prop} {start : S} (holds : S → Prop)
    (base : holds start) (preserved : ∀ s l t, holds s → step s l t → holds t)
    {ls : List L} {s : S} (run : Run step start ls s) : holds s :=
  run_history (fun _ s => holds s) base (fun _ _ _ _ _ h last => preserved _ _ _ h last) run

theorem run_append {step : S → L → S → Prop} {s m t : S} {ls ms : List L}
    (first : Run step s ls m) (second : Run step m ms t) : Run step s (ls ++ ms) t := by
  induction second with
  | nil => simpa using first
  | snoc before last ih =>
    rw [← List.append_assoc]
    exact Run.snoc ih last

theorem run_single {step : S → L → S → Prop} {s t : S} {l : L} (taken : step s l t) :
    Run step s [l] t :=
  Run.snoc (Run.nil s) taken

theorem run_cons {step : S → L → S → Prop} {s m t : S} {l : L} {ls : List L}
    (taken : step s l m) (rest : Run step m ls t) : Run step s (l :: ls) t :=
  run_append (run_single taken) rest

theorem run_mono {step weaker : S → L → S → Prop} {s t : S} {ls : List L}
    (implied : ∀ a l b, step a l b → weaker a l b) (run : Run step s ls t) :
    Run weaker s ls t := by
  induction run with
  | nil => exact Run.nil _
  | snoc before last ih => exact Run.snoc ih (implied _ _ _ last)

theorem run_restrict {step strong : S → L → S → Prop} (holds : S → Prop) {s t : S} {ls : List L}
    (base : holds s)
    (kept : ∀ a l b, holds a → l ∈ ls → step a l b → holds b ∧ strong a l b)
    (run : Run step s ls t) : holds t ∧ Run strong s ls t := by
  induction run with
  | nil => exact ⟨base, Run.nil _⟩
  | snoc before last ih =>
    obtain ⟨here, restricted⟩ := ih fun a l b h mem => kept a l b h (List.mem_append_left _ mem)
    obtain ⟨there, met⟩ := kept _ _ _ here (by simp) last
    exact ⟨there, Run.snoc restricted met⟩

/-- A step by step simulation, under an invariant, maps runs to runs. -/
theorem run_map {T M : Type} {step : S → L → S → Prop} {abstract : T → M → T → Prop}
    (f : S → T) (g : L → M) (holds : S → Prop)
    (preserved : ∀ s l t, holds s → step s l t → holds t)
    (simulated : ∀ s l t, holds s → step s l t → abstract (f s) (g l) (f t))
    {s t : S} {ls : List L} (base : holds s) (run : Run step s ls t) :
    Run abstract (f s) (ls.map g) (f t) := by
  induction run with
  | nil => exact Run.nil _
  | snoc before last ih =>
    rw [List.map_append]
    exact Run.snoc ih (simulated _ _ _ (run_invariant holds base preserved before) last)

theorem run_flatMap {T M : Type} {step : S → L → S → Prop} {abstract : T → M → T → Prop}
    (f : S → T) (g : L → List M) {start s : S} {ls : List L}
    (simulated : ∀ ls s l t, Run step start ls s → step s l t → Run abstract (f s) (g l) (f t))
    (run : Run step start ls s) : Run abstract (f start) (ls.flatMap g) (f s) := by
  refine run_history (fun ls s => Run abstract (f start) (ls.flatMap g) (f s)) (Run.nil _) ?_ run
  intro ls s l t before ih last
  rw [List.flatMap_append, List.flatMap_singleton]
  exact run_append ih (simulated ls s l t before last)

theorem run_filterMap {T M : Type} {step : S → L → S → Prop} {abstract : T → M → T → Prop}
    (f : S → T) (g : L → Option M) {start s : S} {ls : List L}
    (simulated : ∀ ls s l t, Run step start ls s → step s l t →
      Run abstract (f s) (g l).toList (f t))
    (run : Run step start ls s) : Run abstract (f start) (ls.filterMap g) (f s) := by
  rw [List.filterMap_eq_flatMap_toList]
  exact run_flatMap f (fun l => (g l).toList) simulated run

theorem run_split {step : S → L → S → Prop} {s t : S} {ls ms : List L}
    (run : Run step s (ls ++ ms) t) : ∃ m, Run step s ls m ∧ Run step m ms t := by
  generalize whole : ls ++ ms = history at run
  induction run generalizing ms with
  | nil =>
    obtain ⟨rfl, rfl⟩ := List.append_eq_nil_iff.mp whole
    exact ⟨s, Run.nil s, Run.nil s⟩
  | @snoc m t history l before last ih =>
    rcases List.eq_nil_or_concat ms with rfl | ⟨front, final, rfl⟩
    · rw [List.append_nil] at whole
      rw [whole]
      exact ⟨t, Run.snoc before last, Run.nil t⟩
    · rw [List.concat_eq_append, ← List.append_assoc] at whole
      obtain ⟨rfl, same⟩ := List.append_inj' whole rfl
      obtain ⟨n, first, second⟩ := ih rfl
      rw [List.concat_eq_append, same]
      exact ⟨n, first, Run.snoc second last⟩

theorem run_none {step : S → L → S → Prop} {s t : S} (run : Run step s [] t) : s = t := by
  generalize whole : ([] : List L) = history at run
  cases run with
  | nil => rfl
  | snoc before taken => simp at whole

theorem run_one {step : S → L → S → Prop} {s t : S} {l : L} (run : Run step s [l] t) :
    step s l t := by
  generalize whole : [l] = history at run
  cases run with
  | nil => cases whole
  | snoc before taken =>
    obtain ⟨rfl, same⟩ := List.append_inj' ((List.nil_append [l]).trans whole) rfl
    obtain rfl := List.singleton_inj.mp same
    obtain rfl := run_none before
    exact taken

theorem run_uncons {step : S → L → S → Prop} {s t : S} {l : L} {ls : List L}
    (run : Run step s (l :: ls) t) : ∃ m, step s l m ∧ Run step m ls t := by
  have pieces : Run step s ([l] ++ ls) t := run
  obtain ⟨m, first, rest⟩ := run_split pieces
  exact ⟨m, run_one first, rest⟩

/-- Where a label of one kind comes before one of another, there are two such labels with
    none of either kind between them; `clean` has none to begin with. -/
theorem nearest_pair {p q : L → Prop} (first clean between rest : List L) {a b : L}
    (opens : p a) (free : ∀ l ∈ clean, ¬ p l ∧ ¬ q l) (closes : q b) :
    ∃ first' a' between' b' rest', first ++ a :: (clean ++ between ++ b :: rest) =
      first' ++ a' :: (between' ++ b' :: rest') ∧ p a' ∧ q b' ∧ ∀ l ∈ between', ¬ p l ∧ ¬ q l := by
  induction between generalizing first clean a with
  | nil => exact ⟨first, a, clean, b, rest, by simp, opens, closes, free⟩
  | cons l between ih =>
    by_cases ends : q l
    · exact ⟨first, a, clean, l, between ++ b :: rest, by simp, opens, ends, free⟩
    · by_cases again : p l
      · obtain ⟨first', a', between', b', rest', same, found⟩ :=
          ih (first ++ a :: clean) [] again nofun
        exact ⟨first', a', between', b', rest', by simpa using same, found⟩
      · have free' : ∀ m ∈ clean ++ [l], ¬ p m ∧ ¬ q m := by
          intro m member
          rcases List.mem_append.mp member with old | now
          · exact free m old
          · rw [List.mem_singleton.mp now]
            exact ⟨again, ends⟩
        obtain ⟨first', a', between', b', rest', same, found⟩ := ih first (clean ++ [l]) opens free'
        exact ⟨first', a', between', b', rest', by simpa using same, found⟩

/-! What is read off a history, label by label. -/

theorem filterMap_snoc {M : Type} (f : L → Option M) (ls : List L) (l : L) :
    (ls ++ [l]).filterMap f = ls.filterMap f ++ (f l).toList := by
  rw [List.filterMap_append]
  cases here : f l <;> simp [here]

theorem filterMap_snoc_some {M : Type} {f : L → Option M} {l : L} {m : M} (here : f l = some m)
    (ls : List L) : (ls ++ [l]).filterMap f = ls.filterMap f ++ [m] := by
  rw [filterMap_snoc, here, Option.toList_some]

theorem filterMap_snoc_none {M : Type} {f : L → Option M} {l : L} (here : f l = none)
    (ls : List L) : (ls ++ [l]).filterMap f = ls.filterMap f := by
  rw [filterMap_snoc, here, Option.toList_none, List.append_nil]

/-! Simulations that rewrite or drop labels on the way. -/

section Transducer
variable {Q M T : Type}

def transduce (emit : Q → L → Option M) (move : Q → L → Q) : Q → List L → List M
  | _, [] => []
  | q, l :: ls => (emit q l).toList ++ transduce emit move (move q l) ls

def Follows (abstract : T → M → T → Prop) (t : T) : Option M → T → Prop
  | none, t' => t' = t
  | some m, t' => abstract t m t'

variable {emit : Q → L → Option M} {move : Q → L → Q}

theorem transduce_snoc (q : Q) (ls : List L) (l : L) :
    transduce emit move q (ls ++ [l]) =
      transduce emit move q ls ++ (emit (ls.foldl move q) l).toList := by
  induction ls generalizing q with
  | nil => simp [transduce]
  | cons first ls ih => simp [transduce, ih]

theorem run_follows {abstract : T → M → T → Prop} {start t t' : T} {ms : List M} {m : Option M}
    (run : Run abstract start ms t) (follows : Follows abstract t m t') :
    Run abstract start (ms ++ m.toList) t' := by
  cases m with
  | none =>
    obtain rfl : t' = t := follows
    simpa using run
  | some m => exact Run.snoc run follows

/-- A simulation carries a run to a run of what the transducer makes of its labels. -/
theorem run_transduce {step : S → L → S → Prop} {abstract : T → M → T → Prop}
    (related : Q → S → T → Prop) (allowed : L → Prop)
    (simulated : ∀ q s l s' t, related q s t → allowed l → step s l s' →
      ∃ t', Follows abstract t (emit q l) t' ∧ related (move q l) s' t')
    {q : Q} {s s' : S} {t : T} {ls : List L} (base : related q s t) (run : Run step s ls s')
    (within : ∀ l ∈ ls, allowed l) :
    ∃ t', Run abstract t (transduce emit move q ls) t' ∧ related (ls.foldl move q) s' t' := by
  induction run with
  | nil => exact ⟨t, Run.nil t, base⟩
  | @snoc m n ls l before last ih =>
    obtain ⟨u, ran, here⟩ := ih fun l member => within l (List.mem_append_left _ member)
    obtain ⟨t', follows, there⟩ := simulated _ _ _ _ _ here (within l (by simp)) last
    refine ⟨t', ?_, ?_⟩
    · rw [transduce_snoc]
      exact run_follows ran follows
    · rw [List.foldl_append]
      exact there

theorem transduce_filter {emit : Q → L → Option L} {keep : L → Bool}
    (kept : ∀ q l, (emit q l).toList.filter keep = [l].filter keep) (q : Q) (ls : List L) :
    (transduce emit move q ls).filter keep = ls.filter keep := by
  induction ls generalizing q with
  | nil => rfl
  | cons l ls ih => rw [transduce, List.filter_append, ih, kept, ← List.filter_append]; rfl

theorem transduce_forall {holds : M → Prop} (emitted : ∀ q l m, emit q l = some m → holds m)
    (q : Q) (ls : List L) : ∀ m ∈ transduce emit move q ls, holds m := by
  induction ls generalizing q with
  | nil => nofun
  | cons l ls ih =>
    intro m member
    rcases List.mem_append.mp member with now | later
    · exact emitted q l m (Option.mem_toList.mp now)
    · exact ih _ m later

theorem transduce_sublist {rename : L → M}
    (renamed : ∀ q l m, emit q l = some m → m = rename l) (q : Q) (ls : List L) :
    (transduce emit move q ls).Sublist (ls.map rename) := by
  induction ls generalizing q with
  | nil => exact List.Sublist.refl _
  | cons l ls ih =>
    rw [transduce, List.map_cons]
    cases now : emit q l with
    | none => exact (ih _).cons _
    | some m =>
      rw [renamed q l m now]
      exact (ih _).cons_cons _

end Transducer

/-! Termination of what a system does on its own. -/

/-- Whichever steps are taken, an end is reached, at a cost of at most `n`. -/
inductive EndsWithin (step : S → L → S → Prop) (cost : L → Nat) (final : S → Prop) :
    Nat → S → Prop where
  | ended {n : Nat} {s : S} (done : final s) : EndsWithin step cost final n s
  | next {n : Nat} {s : S} (able : ∃ l t, step s l t) (fits : ∀ l t, step s l t → cost l ≤ n)
      (rest : ∀ l t, step s l t → EndsWithin step cost final (n - cost l) t) :
      EndsWithin step cost final n s

theorem endsWithin_mono {step : S → L → S → Prop} {cost : L → Nat} {final : S → Prop} {n m : Nat}
    {s : S} (ends : EndsWithin step cost final n s) (more : n ≤ m) :
    EndsWithin step cost final m s := by
  induction ends generalizing m with
  | ended done => exact .ended done
  | next able fits _ ih =>
    refine .next able (fun l t taken => Nat.le_trans (fits l t taken) more) fun l t taken => ?_
    exact ih l t taken (Nat.sub_le_sub_right more _)

theorem endsWithin_of_rank {step : S → L → S → Prop} {cost : L → Nat} {final : S → Prop}
    (holds : S → Prop) (rank budget : S → Nat)
    (able : ∀ s, holds s → final s ∨ ∃ l t, step s l t)
    (preserved : ∀ s l t, holds s → step s l t → holds t)
    (descends : ∀ s l t, holds s → step s l t → rank t < rank s)
    (paid : ∀ s l t, holds s → step s l t → cost l + budget t ≤ budget s)
    {s : S} (base : holds s) : EndsWithin step cost final (budget s) s := by
  induction size : rank s using Nat.strongRecOn generalizing s with
  | ind size ih =>
    rcases able s base with done | moves
    · exact .ended done
    · refine .next moves (fun l t taken => ?_) fun l t taken => ?_
      · have := paid s l t base taken
        omega
      · have lower := descends s l t base taken
        have spent := paid s l t base taken
        exact endsWithin_mono (ih (rank t) (size ▸ lower) (preserved s l t base taken) rfl)
          (by omega)

theorem not_endsWithin_of_trap {step : S → L → S → Prop} {cost : L → Nat} {final : S → Prop}
    (trapped : S → Prop) (running : ∀ s, trapped s → ¬ final s)
    (stays : ∀ s, trapped s → ∃ l t, step s l t ∧ trapped t) {n : Nat} {s : S}
    (base : trapped s) : ¬ EndsWithin step cost final n s := by
  intro ends
  induction ends with
  | ended done => exact running _ base done
  | next able fits rest ih =>
    obtain ⟨l, t, taken, still⟩ := stays _ base
    exact ih l t taken still

end LabelledRun
