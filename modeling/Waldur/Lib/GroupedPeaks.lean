import Mathlib
import Waldur.Lib.Grouping

/-!
# Lib.GroupedPeaks — the greatest value of each key, added up

A dictionary that keeps the greatest value seen of each key, from 0 on, holds for each key that occurs the greatest of
its values (`lookup_raiseAll`), and its values add up to the sum of these over the keys (`total_raiseAll`).  Two lists
whose values bound each other have one greatest value (`best_eq_best`).
-/

namespace Grouping

variable {κ : Type} [DecidableEq κ] {pairs pairs' : List (κ × ℚ)} {d : Dict κ ℚ} {k : κ} {v : ℚ}

/-- `peaks[key] = max(peaks.get(key, 0), value)`. -/
def raise (peaks : Dict κ ℚ) (pair : κ × ℚ) : Dict κ ℚ := peaks.insert pair.1 (max ((peaks.lookup pair.1).getD 0) pair.2)

def raiseAll (pairs : List (κ × ℚ)) : Dict κ ℚ := pairs.foldl raise ∅

theorem lookup_raise_self (pair : κ × ℚ) :
    (raise d pair).lookup pair.1 = some (max ((d.lookup pair.1).getD 0) pair.2) := AList.lookup_insert d

theorem lookup_raise_ne {pair : κ × ℚ} (h : pair.1 ≠ k) : (raise d pair).lookup k = d.lookup k :=
  AList.lookup_insert_ne h.symm

/-- `sum(peaks.values())`. -/
def Dict.total (d : Dict κ ℚ) : ℚ := (d.entries.map (·.2)).sum

/-- The greatest value of a key, and 0 for a key without a greater one. -/
def best (pairs : List (κ × ℚ)) (k : κ) : ℚ := ((pairs.filter fun pair => pair.1 = k).map (·.2)).foldr max 0

theorem total_eq_sum (d : Dict κ ℚ) : d.total = ∑ k ∈ d.keys.toFinset, (d.lookup k).getD 0 := by
  rw [List.sum_toFinset _ d.keys_nodup]
  unfold Dict.total AList.keys List.keys
  rw [List.map_map]
  refine congrArg List.sum (List.map_congr_left fun entry hentry => ?_)
  rw [Function.comp_apply, AList.mem_lookup_iff.mpr hentry, Option.getD_some]

theorem best_nonneg : 0 ≤ best pairs k := by
  unfold best
  induction (pairs.filter fun pair => pair.1 = k).map (·.2) with
  | nil => exact le_refl _
  | cons a l ih => exact le_max_of_le_right ih

theorem best_le_iff {b : ℚ} : best pairs k ≤ b ↔ 0 ≤ b ∧ ∀ v, (k, v) ∈ pairs → v ≤ b := by
  have hfold : ∀ l : List ℚ, l.foldr max 0 ≤ b ↔ 0 ≤ b ∧ ∀ v ∈ l, v ≤ b := by
    intro l
    induction l with
    | nil => exact (and_iff_left fun _ hv => absurd hv List.not_mem_nil).symm
    | cons a l ih =>
      rw [List.foldr_cons, max_le_iff, ih, List.forall_mem_cons]
      exact ⟨fun ⟨ha, h0, hl⟩ => ⟨h0, ha, hl⟩, fun ⟨h0, ha, hl⟩ => ⟨ha, h0, hl⟩⟩
  unfold best
  rw [hfold]
  refine and_congr_right fun _ => ⟨fun h v hv => h v ?_, fun h v hv => ?_⟩
  · exact List.mem_map.mpr ⟨(k, v), List.mem_filter.mpr ⟨hv, decide_eq_true rfl⟩, rfl⟩
  · obtain ⟨⟨k', v'⟩, hpair, rfl⟩ := List.mem_map.mp hv
    obtain ⟨hmem, hk⟩ := List.mem_filter.mp hpair
    have hk' : k' = k := of_decide_eq_true hk
    exact h v' (hk' ▸ hmem)

theorem le_best (h : (k, v) ∈ pairs) : v ≤ best pairs k := (best_le_iff.mp (le_refl _)).2 v h

/-- Two lists whose values bound each other have one greatest value. -/
theorem best_eq_best (h : ∀ v, (k, v) ∈ pairs → ∃ v', v ≤ v' ∧ (k, v') ∈ pairs')
    (h' : ∀ v, (k, v) ∈ pairs' → ∃ v', v ≤ v' ∧ (k, v') ∈ pairs) : best pairs k = best pairs' k := by
  refine le_antisymm (best_le_iff.mpr ⟨best_nonneg, fun v hv => ?_⟩) (best_le_iff.mpr ⟨best_nonneg, fun v hv => ?_⟩)
  · obtain ⟨v', hle, hv'⟩ := h v hv
    exact hle.trans (le_best hv')
  · obtain ⟨v', hle, hv'⟩ := h' v hv
    exact hle.trans (le_best hv')

theorem best_append_singleton (pair : κ × ℚ) : best (pairs ++ [pair]) k =
    if pair.1 = k then max (best pairs k) pair.2 else best pairs k := by
  split
  · next hk =>
    refine le_antisymm (best_le_iff.mpr ⟨le_max_of_le_left best_nonneg, fun v hv => ?_⟩) (max_le ?_ ?_)
    · rcases List.mem_append.mp hv with hv | hv
      · exact le_max_of_le_left (le_best hv)
      · rw [List.mem_singleton] at hv
        exact le_max_of_le_right (congrArg Prod.snd hv).le
    · exact best_le_iff.mpr ⟨best_nonneg, fun v hv => le_best (List.mem_append_left _ hv)⟩
    · refine le_best (List.mem_append_right _ ?_)
      rw [← hk]
      exact List.mem_cons_self
  · next hk =>
    unfold best
    rw [List.filter_append, List.filter_cons_of_neg (by rw [decide_eq_true_eq]; exact hk), List.filter_nil,
      List.append_nil]

theorem lookup_raiseAll : (raiseAll pairs).lookup k = if k ∈ pairs.map Prod.fst then some (best pairs k) else none := by
  unfold raiseAll
  induction pairs using List.reverseRecOn with
  | nil => exact AList.lookup_empty k
  | append_singleton pairs pair ih =>
    rw [List.foldl_append, List.foldl_cons, List.foldl_nil, best_append_singleton, List.map_append]
    by_cases hk : pair.1 = k
    · obtain rfl := hk
      have hmem : pair.1 ∈ pairs.map Prod.fst ++ [pair].map Prod.fst := List.mem_append_right _ List.mem_cons_self
      rw [lookup_raise_self, ih, if_pos hmem, if_pos rfl]
      split
      · rfl
      · next hnot =>
        have hzero : best pairs pair.1 = 0 := le_antisymm (best_le_iff.mpr ⟨le_refl _, fun v hv =>
          absurd (List.mem_map.mpr ⟨_, hv, rfl⟩) hnot⟩) best_nonneg
        rw [hzero, Option.getD_none]
    · rw [lookup_raise_ne hk, ih, if_neg hk]
      refine if_congr ?_ rfl rfl
      rw [List.mem_append, List.map_singleton, List.mem_singleton]
      exact (or_iff_left (Ne.symm hk)).symm

theorem keys_raiseAll : (raiseAll pairs).keys.toFinset = (pairs.map Prod.fst).toFinset := by
  ext k
  rw [List.mem_toFinset, List.mem_toFinset, ← AList.mem_keys, ← AList.lookup_isSome, lookup_raiseAll]
  split
  · next h => exact iff_of_true rfl h
  · next h => exact iff_of_false Bool.false_ne_true h

/-- **The greatest values, added up over the keys.** -/
theorem total_raiseAll : (raiseAll pairs).total = ∑ k ∈ (pairs.map Prod.fst).toFinset, best pairs k := by
  rw [total_eq_sum, keys_raiseAll]
  refine Finset.sum_congr rfl fun k hk => ?_
  rw [lookup_raiseAll, if_pos (List.mem_toFinset.mp hk), Option.getD_some]

end Grouping
