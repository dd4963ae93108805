import Mathlib.Data.List.Basic

/- A log that many sources append to. The log is an interleaving of one stream for each
   source when its entries can be told apart by source so that each source's own entries, in
   the order of the log, are its stream. -/
namespace Interleaving
variable {S A : Type} [DecidableEq S]

def ofSource (i : S) (tagged : List (S × A)) : List A :=
  tagged.filterMap fun entry => if entry.1 = i then some entry.2 else none

def Interleaves (streams : S → List A) (log : List A) : Prop :=
  ∃ tagged : List (S × A), tagged.map Prod.snd = log ∧ ∀ i, ofSource i tagged = streams i

theorem ofSource_snoc (i j : S) (tagged : List (S × A)) (a : A) :
    ofSource i (tagged ++ [(j, a)]) = ofSource i tagged ++ if j = i then [a] else [] := by
  unfold ofSource
  rw [List.filterMap_append]
  by_cases same : j = i <;> simp [same]

theorem interleaves_nil : Interleaves (fun _ : S => ([] : List A)) [] :=
  ⟨[], rfl, fun _ => rfl⟩

theorem interleaves_snoc {streams after : S → List A} {log : List A} {i : S} {a : A}
    (before : Interleaves streams log) (own : after i = streams i ++ [a])
    (others : ∀ j, j ≠ i → after j = streams j) : Interleaves after (log ++ [a]) := by
  obtain ⟨tagged, rfl, sources⟩ := before
  refine ⟨tagged ++ [(i, a)], by simp, fun j => ?_⟩
  rw [ofSource_snoc, sources]
  by_cases same : j = i
  · subst same
    rw [if_pos rfl, own]
  · rw [if_neg (Ne.symm same), List.append_nil, others j same]

theorem interleaves_filterMap {B : Type} {streams : S → List A} {log : List A}
    (interleaves : Interleaves streams log) (f : A → Option B) :
    Interleaves (fun i => (streams i).filterMap f) (log.filterMap f) := by
  obtain ⟨tagged, rfl, sources⟩ := interleaves
  refine ⟨tagged.filterMap fun entry => (f entry.2).map (Prod.mk entry.1), ?_, fun i => ?_⟩
  · rw [List.map_filterMap, List.filterMap_map]
    apply List.filterMap_congr
    intro entry _
    simp [Function.comp_def]
  · show _ = (streams i).filterMap f
    rw [← sources i]
    unfold ofSource
    rw [List.filterMap_filterMap, List.filterMap_filterMap]
    apply List.filterMap_congr
    intro entry _
    by_cases same : entry.1 = i <;> cases here : f entry.2 <;> simp [same, here]

theorem interleaves_mem {streams : S → List A} {log : List A}
    (interleaves : Interleaves streams log) {a : A} (member : a ∈ log) : ∃ i, a ∈ streams i := by
  obtain ⟨tagged, rfl, sources⟩ := interleaves
  obtain ⟨entry, here, rfl⟩ := List.mem_map.mp member
  refine ⟨entry.1, ?_⟩
  rw [← sources entry.1]
  exact List.mem_filterMap.mpr ⟨entry, here, if_pos rfl⟩

end Interleaving
