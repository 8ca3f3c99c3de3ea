import Mathlib.Data.List.Destutter
import Mathlib.Data.List.Sort

/-!
# Stable sorting and runs of equal keys

* `pairwise_of_tie` — a stable sort keeps the order of what it does not tell apart
* `pairwise_destutter` — one item is left of each run of equal keys, the first
-/

namespace StableSort

variable {α κ : Type}

/-! ## Ties -/

section Ties

variable {r R : α → α → Prop} [DecidableRel r]

/-- Two items of a list stand in one order or in the other. -/
theorem pair_sublist_or {l : List α} {a b : α} (ha : a ∈ l) (hb : b ∈ l) (hne : a ≠ b) :
    [a, b].Sublist l ∨ [b, a].Sublist l := by
  induction l with
  | nil => cases ha
  | cons c l ih =>
    rcases List.mem_cons.mp ha with hac | hal
    · have hbl := (List.mem_cons.mp hb).resolve_left fun hbc => hne (hac.trans hbc.symm)
      rw [hac]
      exact .inl ((List.singleton_sublist.mpr hbl).cons_cons c)
    rcases List.mem_cons.mp hb with hbc | hbl
    · rw [hbc]
      exact .inr ((List.singleton_sublist.mpr hal).cons_cons c)
    · exact (ih hal hbl).imp (·.cons c) (·.cons c)

/-- In a list without repetitions only one of the two orders is there. -/
theorem not_pair_sublist {l : List α} (hnodup : l.Nodup) {a b : α} (h : [a, b].Sublist l) :
    ¬ [b, a].Sublist l := by
  induction l with
  | nil => exact absurd h (by simp)
  | cons c l ih =>
    have hc := (List.nodup_cons.mp hnodup).1
    intro hback
    cases h with
    | cons _ h =>
      cases hback with
      | cons _ hback => exact ih (List.nodup_cons.mp hnodup).2 h hback
      | cons_cons _ hback => exact hc (h.subset (by simp))
    | cons_cons _ h =>
      cases hback with
      | cons _ hback => exact hc (hback.subset (by simp))
      | cons_cons _ hback => exact hc (h.subset (by simp))

/-- What a stable sort does not tell apart stays in the order it had. -/
theorem pairwise_of_tie [Std.Total r] [IsTrans α r] {l : List α} (hl : l.Pairwise R)
    (hnodup : l.Nodup) : (l.insertionSort r).Pairwise fun a b => r a b ∧ (r b a → R a b) := by
  have hperm := List.perm_insertionSort r l
  have hsorted := hperm.nodup_iff.mpr hnodup
  rw [List.pairwise_iff_forall_sublist] at hl ⊢
  intro a b hab
  have hle := List.pairwise_iff_forall_sublist.mp (List.pairwise_insertionSort r l) hab
  refine ⟨hle, fun htie => ?_⟩
  have hne : a ≠ b := by
    have hpair := hab.nodup hsorted
    simpa using hpair
  have ha : a ∈ l := hperm.subset (hab.subset (by simp))
  have hb : b ∈ l := hperm.subset (hab.subset (by simp))
  rcases pair_sublist_or ha hb hne with hkept | hturned
  · exact hl hkept
  · exact absurd (List.pair_sublist_insertionSort htie hturned) (not_pair_sublist hsorted hab)

end Ties

/-! ## Runs -/

section Runs

variable {key : α → κ} [DecidableRel fun a b : α => key b ≠ key a]

/-- Of a sorted list the first item of each run is left. -/
theorem pairwise_destutter [LinearOrder κ] {l : List α}
    (hl : l.Pairwise fun a b => key a ≤ key b) :
    (l.destutter fun a b => key b ≠ key a).Pairwise fun a b => key a < key b := by
  have hle := hl.sublist (List.destutter_sublist (fun a b => key b ≠ key a) l)
  have hne := List.isChain_destutter (fun a b => key b ≠ key a) l
  have hlt : (l.destutter fun a b => key b ≠ key a).IsChain fun a b => key a < key b := by
    refine List.isChain_iff_getElem.mpr fun i hi => ?_
    exact lt_of_le_of_ne (List.pairwise_iff_getElem.mp hle i (i + 1) _ hi i.lt_succ_self)
      (hne.getElem i hi).symm
  have : Trans (fun a b => key a < key b) (fun a b => key a < key b) fun a b => key a < key b :=
    ⟨lt_trans⟩
  exact hlt.pairwise

theorem exists_key_destutter' (l : List α) (first : α) {item : α}
    (hitem : item = first ∨ item ∈ l) :
    ∃ kept ∈ l.destutter' (fun a b => key b ≠ key a) first, key kept = key item := by
  induction l generalizing first item with
  | nil =>
    obtain rfl := hitem.resolve_right (List.not_mem_nil)
    exact ⟨item, List.mem_singleton_self item, rfl⟩
  | cons second l ih =>
    rw [List.destutter'_cons]
    split
    · rcases hitem with rfl | hitem
      · exact ⟨item, List.mem_cons_self, rfl⟩
      · obtain ⟨kept, hkept, hkey⟩ := ih second (List.mem_cons.mp hitem)
        exact ⟨kept, List.mem_cons_of_mem _ hkept, hkey⟩
    · next hsame =>
      rcases hitem with hfirst | hitem
      · exact ih first (.inl hfirst)
      rcases List.mem_cons.mp hitem with rfl | hitem
      · obtain ⟨kept, hkept, hkey⟩ := ih first (.inl rfl)
        exact ⟨kept, hkept, hkey.trans (not_not.mp hsame).symm⟩
      · exact ih first (.inr hitem)

/-- No key is lost. -/
theorem exists_key_destutter {l : List α} {item : α} (hitem : item ∈ l) :
    ∃ kept ∈ l.destutter (fun a b => key b ≠ key a), key kept = key item := by
  cases l with
  | nil => cases hitem
  | cons first l => exact exists_key_destutter' l first (List.mem_cons.mp hitem)

end Runs

end StableSort
