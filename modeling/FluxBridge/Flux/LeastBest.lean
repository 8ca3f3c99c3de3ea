import Mathlib.Order.Lattice
import Mathlib.Data.List.Basic

/-!
# Scans that keep their best

A scan over candidates in increasing order holds the best it has met, and replaces it only by
something strictly better. It ends on the least of the best.

* `foldl_keepBetter` — what such a scan ends on
-/

namespace FluxBridge

variable {α β : Type*} [LinearOrder α] [LinearOrder β] {score : α → β}

/-- One step of the scan: only something strictly better replaces the best so far. -/
def keepBetter (score : α → β) (best : α × β) (candidate : α) : α × β :=
  if best.2 < score candidate then (candidate, score candidate) else best

/-- The least of the candidates with the best score. -/
structure LeastBest (score : α → β) (candidates : List α) (winner : α) : Prop where
  mem : winner ∈ candidates
  best : ∀ c ∈ candidates, score c ≤ score winner
  least : ∀ c ∈ candidates, score c = score winner → winner ≤ c

namespace LeastBest

/-- There is one at most. -/
theorem unique {candidates : List α} {v w : α} (hv : LeastBest score candidates v)
    (hw : LeastBest score candidates w) : v = w := by
  have hscore : score v = score w := le_antisymm (hw.best v hv.mem) (hv.best w hw.mem)
  exact le_antisymm (hv.least w hw.mem hscore.symm) (hw.least v hv.mem hscore)

/-- A worse candidate in front changes nothing. -/
theorem cons {candidates : List α} {c w : α} (hw : LeastBest score candidates w)
    (hc : score c < score w) : LeastBest score (c :: candidates) w := by
  constructor
  · exact List.mem_cons_of_mem c hw.mem
  · intro d hd
    rcases List.mem_cons.mp hd with rfl | hd
    · exact hc.le
    · exact hw.best d hd
  · intro d hd heq
    rcases List.mem_cons.mp hd with rfl | hd
    · exact absurd heq hc.ne
    · exact hw.least d hd heq

end LeastBest

/--
What a scan in increasing order ends on: on what it started with, when nothing beats that, and
else on the least of the best candidates.
-/
theorem foldl_keepBetter {candidates : List α} (hsorted : candidates.Pairwise (· < ·))
    (best : α × β) :
    (candidates.foldl (keepBetter score) best = best ∧ ∀ c ∈ candidates, score c ≤ best.2) ∨
      ∃ winner, candidates.foldl (keepBetter score) best = (winner, score winner) ∧
        best.2 < score winner ∧ LeastBest score candidates winner := by
  -- on the candidates that are left, for whatever the scan holds
  induction candidates generalizing best with
  | nil => exact .inl ⟨rfl, nofun⟩
  | cons c candidates ih =>
    obtain ⟨hfirst, hrest⟩ := List.pairwise_cons.mp hsorted
    rw [List.foldl_cons]
    by_cases hbeats : best.2 < score c
    · have hstep : keepBetter score best c = (c, score c) := if_pos hbeats
      rw [hstep]
      rcases ih hrest (c, score c) with ⟨hend, hless⟩ | ⟨w, hend, hmore, hw⟩
      · refine .inr ⟨c, hend, hbeats, List.mem_cons_self, ?_, ?_⟩
        · intro d hd
          rcases List.mem_cons.mp hd with rfl | hd
          · exact le_rfl
          · exact hless d hd
        · intro d hd _
          rcases List.mem_cons.mp hd with rfl | hd
          · exact le_rfl
          · exact (hfirst d hd).le
      · exact .inr ⟨w, hend, hbeats.trans hmore, hw.cons hmore⟩
    · have hstep : keepBetter score best c = best := if_neg hbeats
      rw [hstep]
      rcases ih hrest best with ⟨hend, hless⟩ | ⟨w, hend, hmore, hw⟩
      · refine .inl ⟨hend, ?_⟩
        intro d hd
        rcases List.mem_cons.mp hd with rfl | hd
        · exact not_lt.mp hbeats
        · exact hless d hd
      · exact .inr ⟨w, hend, hmore, hw.cons ((not_lt.mp hbeats).trans_lt hmore)⟩

end FluxBridge
