import Mathlib.Algebra.BigOperators.Ring.Finset
import StelloKitchens.Shared.Allocation

/-!
# Exact and fair allocation

Over whole paise that doubles can hold, the parts of a total are whole paise that sum to it and each
is less than one paisa from its exact share; the equal shares of lines sum to the lines, and no check
pays more than one paisa more than another. Halves of a paisa and sizes beyond what a double can
count break this.

## Main definitions

* `shareOf` — the exact share of a weight, or an equal one when all weights are zero.

## Main results

* `allocated_fairly` — the parts of a total and the equal shares of lines.
* `not_allocated_fairly` — weights below a paisa, and a total whose shares cannot be counted.
-/

namespace StelloKitchens

/-- The exact share of a total that a weight gets: in proportion, or alike when all are zero. -/
def shareOf (t : ℕ) (ns : List ℕ) (w : ℕ) : ℚ :=
  if ns.sum = 0 then t / ns.length else t / ns.sum * w

/-- Parts that are less than one from shares that are not negative are not negative. -/
theorem nonneg_of_near {part : ℤ} {share : ℚ} (hnear : |part - share| < 1) (hshare : 0 ≤ share) :
    0 ≤ part := by
  have h := (abs_lt.mp hnear).1
  have hlt : (-1 : ℚ) < part := by linarith
  have : -1 < part := by exact_mod_cast hlt
  omega

theorem shareOf_nonneg (t : ℕ) (ns : List ℕ) (w : ℕ) : 0 ≤ shareOf t ns w := by
  unfold shareOf
  split <;> positivity

theorem evenParts_near {t n i : ℕ} (hi : i < n) :
    ∃ hlt : i < (evenParts t n).length, |((evenParts t n)[i] : ℚ) - t / n| < 1 := by
  have hlt : i < (evenParts t n).length := by simpa using hi
  refine ⟨hlt, ?_⟩
  have hnq : (0 : ℚ) < n := by exact_mod_cast (by omega : 0 < n)
  have hdiv := Nat.div_add_mod t n
  have hmod := Nat.mod_lt t (by omega : 0 < n)
  have hq : (t / n : ℚ) = (t / n : ℕ) + (t % n : ℕ) / n := by
    have : (t : ℚ) = n * (t / n : ℕ) + (t % n : ℕ) := by exact_mod_cast hdiv.symm
    rw [this]
    field_simp
  have hget : ((evenParts t n)[i] : ℚ) = ((t / n : ℕ) : ℚ) + if i < t % n then 1 else 0 := by
    have hpart : (evenParts t n)[i] = (t : ℤ) / n + if (i : ℤ) < t % n then 1 else 0 := by
      simp only [evenParts, List.getElem_map, List.getElem_range]
    rw [hpart]
    norm_cast
  have hone : ((t % n : ℕ) : ℚ) / n < 1 := (div_lt_one hnq).mpr (by exact_mod_cast hmod)
  have hnonneg : (0 : ℚ) ≤ ((t % n : ℕ) : ℚ) / n := by positivity
  rw [hget, hq, abs_lt]
  by_cases hraised : i < t % n
  · have hpos : (0 : ℚ) < ((t % n : ℕ) : ℚ) / n :=
      div_pos (by exact_mod_cast (by omega : 0 < t % n)) hnq
    rw [if_pos hraised]
    constructor <;> linarith
  · rw [if_neg hraised]
    constructor <;> linarith

/-- The parts of a total over weights, both in whole paise. -/
theorem parts_near {total : Binary64} {weights : List Binary64} {t : ℕ} {ns : List ℕ}
    (ht : total.val = (t : ℤ)) (hw : Whole weights (ns.map Nat.cast)) (hne : ns ≠ [])
    (hbound : (ns.length + 1) * (t + 1) ≤ 2 ^ 51) (hsum : ns.sum ≤ 2 ^ 53) :
    (∃ parts : List ℤ, Whole (allocatePaise total weights) parts ∧ parts.sum = t ∧
      ∃ hlength : parts.length = ns.length, ∀ i (hi : i < ns.length),
        |(parts[i] : ℚ) - shareOf t ns ns[i]| < 1) ∧
      ∃ r : ℕ, r ≤ ns.length ∧ (leftOver total weights).val = r := by
  have hpositive : positiveSum (ns.map Nat.cast) = (ns.sum : ℕ) := by
    rw [positiveSum_of_nonneg (by simp)]
    exact (Nat.cast_list_sum ns).symm
  have hbound' : (((ns.map Nat.cast : List ℤ).length : ℤ) + 1) * (|(t : ℤ)| + 1) ≤ 2 ^ 51 := by
    rw [List.length_map, Nat.abs_cast]
    exact_mod_cast hbound
  by_cases hzero : ns.sum = 0
  · obtain ⟨hparts, hrest⟩ := allocatePaise_of_nonpos ht hbound' hw (by simpa using hne)
      (by rw [hpositive, hzero]; simp)
    rw [List.length_map] at hparts hrest
    refine ⟨⟨_, hparts, sum_evenParts _ (List.length_pos_iff.mpr hne), length_evenParts _ _,
      fun i hi => ?_⟩, hrest⟩
    rw [shareOf, if_pos hzero]
    exact (evenParts_near hi).2
  · obtain ⟨parts, hparts, hpsum, ⟨hlength, hnear⟩, hrest⟩ := allocatePaise_of_pos ht hbound' hw
      (by rw [hpositive]; exact_mod_cast hsum)
      (by rw [hpositive]; exact_mod_cast Nat.pos_of_ne_zero hzero)
    rw [List.length_map] at hrest
    refine ⟨⟨parts, hparts, hpsum, by simpa using hlength, fun i hi => ?_⟩, hrest⟩
    have h := hnear i (by simpa using hi)
    rw [List.getElem_map, hpositive, max_eq_right (Int.natCast_nonneg _)] at h
    rw [shareOf, if_neg hzero]
    rwa [Int.cast_natCast, Int.cast_natCast, Int.cast_natCast] at h

/-- A column of shares, check by check. -/
theorem map_getD_range {col : List ℤ} {n : ℕ} (h : col.length = n) :
    ((List.range n).map fun c => col.getD c 0) = col := by
  refine List.ext_getElem (by simp [h]) fun i hi hi' => ?_
  rw [List.getElem_map, List.getElem_range, List.getD_eq_getElem?_getD, List.getElem?_eq_getElem hi',
    Option.getD_some]

theorem natCast_le_of_near {p n t : ℕ} {ns : List ℕ}
    (hnear : |((p : ℤ) : ℚ) - shareOf t ns n| < 1) (hle : t ≤ ns.sum) : p ≤ n := by
  have hshare : shareOf t ns n ≤ n := by
    unfold shareOf
    split
    · rename_i hzero
      obtain rfl : t = 0 := by omega
      simp
    · rename_i hzero
      have hpos : (0 : ℤ) < ns.sum := by exact_mod_cast Nat.pos_of_ne_zero hzero
      have h := @share_le t ns.sum n hpos (by exact_mod_cast hle) (Int.natCast_nonneg n)
      rwa [Int.cast_natCast, Int.cast_natCast, Int.cast_natCast] at h
  have h := (abs_lt.mp hnear).2
  rw [Int.cast_natCast] at h
  have hlt : (p : ℚ) < n + 1 := by linarith
  have : p < n + 1 := by exact_mod_cast hlt
  omega

/-- The parts of a total in whole paise over weights in whole paise sum to it, are less than one paisa
from the exact shares, and within their weights if the weights cover the total; the loop gives at most
one paisa to each. The equal shares of lines sum to the lines, and what the checks have differs by at
most one paisa. -/
theorem allocated_fairly {total : Binary64} {weights : List Binary64} {t : ℕ} {ns : List ℕ}
    (ht : total.val = (t : ℤ)) (hw : Whole weights (ns.map Nat.cast)) (hne : ns ≠ [])
    (hbound : (ns.length + 1) * (t + 1) ≤ 2 ^ 51) (hsum : ns.sum ≤ 2 ^ 53)
    {lines : List Binary64} {ms : List ℤ} {n : ℕ} (hlines : Whole lines ms) (hn : 0 < n)
    (hms : ∀ m ∈ ms, |m| + n ≤ 2 ^ 53) :
    (∃ parts : List ℕ, Whole (allocatePaise total weights) (parts.map Nat.cast) ∧ parts.sum = t ∧
      (∃ hlength : parts.length = ns.length, ∀ i (hi : i < ns.length),
        |(parts[i] : ℚ) - shareOf t ns ns[i]| < 1 ∧ (t ≤ ns.sum → parts[i] ≤ ns[i])) ∧
      ∃ r : ℕ, r ≤ ns.length ∧ (leftOver total weights).val = r) ∧
    ∃ shares : List (List ℤ), List.Forall₂ Whole (splitLinesEqually lines n) shares ∧
      shares.length = n ∧
      (∀ i (hi : i < ms.length), (shares.map fun s => s.getD i 0).sum = ms[i]) ∧
      ∀ s ∈ shares, ∀ s' ∈ shares, |s.sum - s'.sum| ≤ 1 := by
  refine ⟨?_, ?_⟩
  · obtain ⟨⟨parts, hparts, hpsum, hlength, hnear⟩, hrest⟩ := parts_near ht hw hne hbound hsum
    have hnonneg : ∀ p ∈ parts, 0 ≤ p := by
      intro p hp
      obtain ⟨i, hi, rfl⟩ := List.mem_iff_getElem.mp hp
      exact nonneg_of_near (hnear i (hlength ▸ hi)) (shareOf_nonneg t ns _)
    have hback : (parts.map Int.toNat).map Nat.cast = parts := by
      rw [List.map_map]
      exact (List.map_congr_left fun p hp => Int.toNat_of_nonneg (hnonneg p hp)).trans
        (List.map_id parts)
    refine ⟨parts.map Int.toNat, ?_, ?_, ⟨by simpa using hlength, fun i hi => ?_⟩, hrest⟩
    · rw [hback]
      exact hparts
    · have h := Nat.cast_list_sum (R := ℤ) (parts.map Int.toNat)
      rw [hback, hpsum] at h
      exact_mod_cast h
    · have hi' : i < parts.length := hlength ▸ hi
      have hcast : ((parts[i].toNat : ℕ) : ℤ) = parts[i] :=
        Int.toNat_of_nonneg (hnonneg _ (List.getElem_mem hi'))
      have h := hnear i hi
      rw [← hcast] at h
      rw [List.getElem_map]
      refine ⟨?_, natCast_le_of_near h⟩
      rwa [Int.cast_natCast] at h
  · refine ⟨_, splitLinesEqually_spec hn hlines hms, by simp, fun i hi => ?_, fun s hs s' hs' => ?_⟩
    · have hcols := sum_sharesOfLines hn ms 0
      have hi' : i < (sharesOfLines n 0 ms).length := hcols.length_eq ▸ hi
      obtain ⟨hlen, hcol⟩ := (List.forall₂_iff_get.mp hcols).2 i hi' hi
      rw [List.map_map]
      refine Eq.trans (congrArg List.sum ?_) hcol
      refine Eq.trans (List.map_congr_left fun c _ => ?_) (map_getD_range hlen)
      rw [Function.comp_apply, List.getD_eq_getElem?_getD, List.getElem?_map,
        List.getElem?_eq_getElem hi']
      rfl
    · obtain ⟨c, hc, rfl⟩ := List.mem_map.mp hs
      obtain ⟨c', hc', rfl⟩ := List.mem_map.mp hs'
      rw [List.mem_range] at hc hc'
      have hle := sum_getD_sharesOfLines_le hc hc' ms
      have hle' := sum_getD_sharesOfLines_le hc' hc ms
      rw [abs_le]
      omega

/-- A rupee over two weights, and two lines over three checks. -/
theorem allocated_fairly_rupee :
    (∃ parts : List ℕ, Whole (allocatePaise 100 [1, 2]) (parts.map Nat.cast) ∧ parts.sum = 100) ∧
    ∃ shares : List (List ℤ), List.Forall₂ Whole (splitLinesEqually [100, 5] 3) shares ∧
      shares.length = 3 ∧ ∀ s ∈ shares, ∀ s' ∈ shares, |s.sum - s'.sum| ≤ 1 := by
  have hval (n : ℕ) [n.AtLeastTwo] (hn : n ≤ 2 ^ 53) :
      (OfNat.ofNat n : Binary64).val = ((n : ℤ) : ℚ) := Binary64.val_ofNat_of_le hn
  have hone : (1 : Binary64).val = ((1 : ℕ) : ℤ) := Binary64.val_ofNat_of_le (n := 1) (by norm_num)
  obtain ⟨⟨parts, hparts, hsum, -, -⟩, shares, hshares, hlength, -, hfair⟩ :=
    @allocated_fairly 100 [1, 2] 100 [1, 2] (hval 100 (by norm_num))
      (.cons hone (.cons (hval 2 (by norm_num)) .nil)) (by decide) (by decide) (by decide) [100, 5]
      [100, 5] 3 (.cons (hval 100 (by norm_num)) (.cons (hval 5 (by norm_num)) .nil)) (by decide)
      (by decide)
  exact ⟨⟨parts, hparts, hsum⟩, shares, hshares, hlength, hfair⟩

/-- Of two weights of half a paisa one gets the whole paisa that they cover together, the shares of
half a paisa sum to a whole one, and the parts of a total of `2⁶⁰` do not sum to it. -/
theorem not_allocated_fairly :
    (allocatePaise 1 [.ofRat (1 / 2), .ofRat (1 / 2)] = [1, 0] ∧
      ¬(1 : Binary64) ≤ .ofRat (1 / 2)) ∧
    splitLinesEqually [.ofRat (1 / 2)] 2 = [[1], [0]] ∧
    ((allocatePaise (.ofRat (2 ^ 60)) [1, 1, 1]).map (·.val)).sum ≠ 2 ^ 60 := by
  refine ⟨⟨?_, ?_⟩, ?_, ?_⟩
  · decide +kernel
  · decide +kernel
  · decide +kernel
  · decide +kernel

end StelloKitchens
