import Mathlib.Algebra.BigOperators.Ring.List
import Mathlib.Data.Int.CardIntervalMod
import StelloKitchens.Lib.Apportion
import StelloKitchens.Lib.RoundingError
import StelloKitchens.Shared.Billing
import StelloKitchens.Shared.Cents

/-!
# What the allocators give

The two allocators of the billing module compute in doubles. Over whole paise their parts are whole
paise again and sum to what was divided, as long as the number of parts times the total stays below
`2⁵¹`: the exact parts then sum to the total up to less than one paisa, and the order of what their
floors cut off tells which of them lie well above their floors, and which well below the next paisa.

## Main definitions

* `Whole xs ns` — the doubles are these whole numbers.
* `exactShare` — what a weight gets of a total, exactly.
* `leftOver` — what the floors leave for the loop over the positions.
* `sharesOfLines` — the shares of the lines, the leftover paise in turn.

## Main results

* `allocatePaise_of_pos`, `allocatePaise_of_nonpos` — the parts sum to the total and are less than one
  paisa from the exact shares.
* `splitLinesEqually_spec`, `sum_sharesOfLines` — the shares of a line sum to the line.
* `sum_getD_sharesOfLines_le` — the checks have the same of all lines, up to one paisa.
-/

namespace StelloKitchens

open Apportion

/-- The doubles are these whole numbers. -/
abbrev Whole (xs : List Binary64) (ns : List ℤ) : Prop :=
  List.Forall₂ (fun (x : Binary64) (n : ℤ) => x.val = n) xs ns

/-! ### Raising doubles -/

theorem Whole.modify {xs : List Binary64} {ns : List ℤ} (h : Whole xs ns) {B : ℤ}
    (hB : ∀ n ∈ ns, |n| ≤ B) (hsmall : B + 1 ≤ 2 ^ 53) (i : ℕ) :
    Whole (xs.modify i (· + 1)) (ns.modify i (· + 1)) := by
  induction h generalizing i with
  | nil => simp
  | @cons x n xs ns hx h ih =>
    cases i with
    | zero =>
      refine .cons ?_ h
      have hone : (1 : Binary64).val = ((1 : ℤ) : ℚ) := by
        simpa using Binary64.val_ofNat_of_le (n := 1) (by norm_num)
      refine Binary64.val_add_intCast hx hone ?_
      have hn := hB n List.mem_cons_self
      rw [abs_le] at hn ⊢
      omega
    | succ i => exact .cons hx (ih (fun m hm => hB m (List.mem_cons_of_mem _ hm)) i)

theorem abs_le_of_mem_modify {ns : List ℤ} {B : ℤ} (hB : ∀ n ∈ ns, |n| ≤ B) (i : ℕ) :
    ∀ n ∈ ns.modify i (· + 1), |n| ≤ B + 1 := by
  intro n hn
  obtain ⟨j, hj, rfl⟩ := List.mem_iff_getElem.mp hn
  rw [List.getElem_modify]
  have h := hB _ (List.getElem_mem (by simpa using hj))
  rw [abs_le] at h
  split <;> rw [abs_le] <;> omega

theorem Whole.foldl_modify {is : List ℕ} {parts : List Binary64} {ns : List ℤ}
    (h : Whole parts ns) {B : ℤ} (hB : ∀ n ∈ ns, |n| ≤ B) (hsmall : B + is.length ≤ 2 ^ 53) :
    Whole (is.foldl (fun ps i => ps.modify i (· + 1)) parts) (raise is ns) := by
  induction is generalizing parts ns B with
  | nil => exact h
  | cons i is ih =>
    rw [List.length_cons] at hsmall
    push_cast at hsmall
    exact ih (h.modify hB (by omega) i) (abs_le_of_mem_modify hB i) (by omega)

/-- The loop raises the entries at the next positions of the order. -/
theorem giveRest_eq {order : List ℕ} {rest k : ℕ} (hk : k + rest ≤ order.length)
    (parts : List Binary64) : giveRest order rest k parts =
      ((order.drop k).take rest).foldl (fun ps i => ps.modify i (· + 1)) parts := by
  induction rest generalizing k parts with
  | zero => simp [giveRest]
  | succ rest ih =>
    have hlt : k < order.length := by omega
    rw [giveRest, List.drop_eq_getElem_cons hlt, List.take_succ_cons, List.foldl_cons,
      List.getD_eq_getElem?_getD, List.getElem?_eq_getElem hlt, Option.getD_some]
    rcases Nat.lt_or_ge (k + 1) order.length with hlast | hlast
    · rw [Nat.mod_eq_of_lt hlast]
      exact ih (by omega) _
    · -- the order has been gone through once, and nothing is left to give
      obtain rfl : rest = 0 := by omega
      simp [giveRest]

/-! ### Rounding the exact parts -/

instance : Std.Total GetsFirst where
  total a b := by
    unfold GetsFirst
    rcases lt_trichotomy a.2 b.2 with h | h | h
    · exact .inr (.inl h)
    · exact (Nat.le_total a.1 b.1).imp (fun hle => .inr ⟨h, hle⟩) fun hle => .inr ⟨h.symm, hle⟩
    · exact .inl (.inl h)

instance : IsTrans (ℕ × Binary64) GetsFirst where
  trans a b c := by
    unfold GetsFirst
    rintro (hab | ⟨hab, hab'⟩) (hbc | ⟨hbc, hbc'⟩)
    · exact .inl (hbc.trans hab)
    · exact .inl (hbc ▸ hab)
    · exact .inl (hab ▸ hbc)
    · exact .inr ⟨hab.trans hbc, hab'.trans hbc'⟩

theorem val_floor {x : Binary64} (hx : |⌊x.val⌋| ≤ 2 ^ 53) : x.floor.val = ⌊x.val⌋ :=
  Binary64.val_ofRat_intCast hx

/-- What the floor cuts off, up to one rounding. -/
theorem abs_cut_sub_fract_le {x : Binary64} (hx : |⌊x.val⌋| ≤ 2 ^ 53) :
    |(x - x.floor).val - Int.fract x.val| ≤ Binary64.unitRoundoff := by
  have hround := Binary64.abs_round_sub_le (Int.fract x.val)
  have hlt := Int.fract_lt_one x.val
  rw [abs_of_nonneg (Int.fract_nonneg x.val)] at hround
  rw [Binary64.val_sub, val_floor hx, Int.self_sub_floor]
  exact hround.trans (mul_le_of_le_one_right Binary64.unitRoundoff_pos.le hlt.le)

/-- The positions in the order in which they get a paisa. -/
def paisaOrder (exact : List Binary64) : List ℕ :=
  ((exact.mapIdx fun i x => (i, x - x.floor)).insertionSort GetsFirst).map (·.1)

theorem paisaOrder_perm (exact : List Binary64) :
    (paisaOrder exact).Perm (List.range exact.length) := by
  have hperm := (List.perm_insertionSort GetsFirst
    (exact.mapIdx fun i x => (i, x - x.floor))).map (·.1)
  refine hperm.trans (List.Perm.of_eq ?_)
  exact List.ext_getElem (by simp) fun i hi hi' => by simp

section Order

variable {exact : List Binary64} {t : ℤ} {δ : ℚ}

theorem pairwise_sorted (pairs : List (ℕ × Binary64)) :
    (pairs.insertionSort GetsFirst).Pairwise fun a b => b.2.val ≤ a.2.val :=
  (List.pairwise_insertionSort GetsFirst pairs).imp fun hab =>
    hab.elim (fun h => (Binary64.lt_def.mp h).le) fun h => h.1 ▸ le_rfl

theorem countP_sorted (exact : List Binary64) (p : Binary64 → Bool) :
    (((exact.mapIdx fun i x => (i, x - x.floor)).insertionSort GetsFirst).countP fun a => p a.2) =
      exact.countP fun x => p (x - x.floor) := by
  have hcuts : (exact.mapIdx fun i x => (i, x - x.floor)).map (·.2) =
      exact.map fun x => x - x.floor := List.ext_getElem (by simp) fun i hi hi' => by simp
  have h := congrArg (List.countP p) hcuts
  rw [List.countP_map, List.countP_map] at h
  rw [(List.perm_insertionSort GetsFirst _).countP_eq]
  exact h

/-- The parts that get a paisa are cut by more than the error of the exact parts. -/
theorem fract_of_mem_take (hδ : 0 ≤ δ) (hsize : ∀ x ∈ exact, |⌊x.val⌋| ≤ 2 ^ 53)
    (hsum : |(exact.map (·.val)).sum - t| + exact.length * (δ + 2 * Binary64.unitRoundoff) < 1)
    {i : ℕ} (hlt : i < exact.length)
    (hi : i ∈ (paisaOrder exact).take (rest exact (·.val) t).toNat) :
    δ < Int.fract exact[i].val := by
  have hupos := Binary64.unitRoundoff_pos
  have hcount : rest exact (·.val) t ≤
      (((exact.mapIdx fun i x => (i, x - x.floor)).insertionSort GetsFirst).countP fun a =>
        δ + Binary64.unitRoundoff < a.2.val : ℕ) := by
    rw [countP_sorted exact fun d => δ + Binary64.unitRoundoff < d.val]
    refine rest_le_countP (u := Binary64.unitRoundoff) (by linarith) (fun x hx => ?_) (by
      rw [add_assoc, ← two_mul]
      exact hsum)
    have := (abs_le.mp (abs_cut_sub_fract_le (hsize x hx))).1
    linarith
  rw [paisaOrder, ← List.map_take, List.mem_map] at hi
  obtain ⟨p, hp, rfl⟩ := hi
  have hcut := @lt_of_mem_take _ (fun a : ℕ × Binary64 => a.2.val)
    (δ + Binary64.unitRoundoff) _ (pairwise_sorted _) (rest exact (·.val) t).toNat (by omega) p hp
  have hmem := (List.mem_insertionSort GetsFirst).mp (List.mem_of_mem_take hp)
  obtain ⟨j, hj, rfl⟩ := List.mem_mapIdx.mp hmem
  have := (abs_le.mp (abs_cut_sub_fract_le (hsize _ (List.getElem_mem hj)))).2
  dsimp only at hcut ⊢
  linarith

/-- The parts that get none are not cut by nearly one. -/
theorem fract_of_notMem_take (hδ : 0 ≤ δ) (hsize : ∀ x ∈ exact, |⌊x.val⌋| ≤ 2 ^ 53)
    (hsum : |(exact.map (·.val)).sum - t| + exact.length * (δ + 2 * Binary64.unitRoundoff) < 1)
    {i : ℕ} (hlt : i < exact.length)
    (hi : i ∉ (paisaOrder exact).take (rest exact (·.val) t).toNat) :
    Int.fract exact[i].val < 1 - δ := by
  have hupos := Binary64.unitRoundoff_pos
  have hcount : ((((exact.mapIdx fun i x => (i, x - x.floor)).insertionSort GetsFirst).countP
      fun a => 1 - δ - Binary64.unitRoundoff ≤ a.2.val : ℕ) : ℤ) ≤ rest exact (·.val) t := by
    rw [countP_sorted exact fun d => 1 - δ - Binary64.unitRoundoff ≤ d.val]
    refine countP_le_rest (u := Binary64.unitRoundoff) (by linarith) (fun x hx => ?_) (by
      rw [show 1 - (1 - δ - Binary64.unitRoundoff) + Binary64.unitRoundoff =
        δ + 2 * Binary64.unitRoundoff by ring]
      exact hsum)
    have := (abs_le.mp (abs_cut_sub_fract_le (hsize x hx))).2
    linarith
  have hmem : i ∈ paisaOrder exact :=
    (paisaOrder_perm exact).mem_iff.mpr (List.mem_range.mpr hlt)
  rw [← List.take_append_drop (rest exact (·.val) t).toNat (paisaOrder exact)] at hmem
  have hdrop := (List.mem_append.mp hmem).resolve_left hi
  rw [paisaOrder, ← List.map_drop, List.mem_map] at hdrop
  obtain ⟨p, hp, rfl⟩ := hdrop
  have hcut := @lt_of_mem_drop _ (fun a : ℕ × Binary64 => a.2.val)
    (1 - δ - Binary64.unitRoundoff) _ (pairwise_sorted _) (rest exact (·.val) t).toNat (by omega) p hp
  have hpair := (List.mem_insertionSort GetsFirst).mp (List.mem_of_mem_drop hp)
  obtain ⟨j, hj, rfl⟩ := List.mem_mapIdx.mp hpair
  have := (abs_le.mp (abs_cut_sub_fract_le (hsize _ (List.getElem_mem hj)))).1
  dsimp only at hcut ⊢
  linarith

end Order

section Floors

variable {exact : List Binary64} {total : Binary64} {t B : ℤ}

theorem le_of_mul_succ_le (hne : exact ≠ []) (hB : exact.length * (B + 1) ≤ 2 ^ 53)
    (hsize : ∀ x ∈ exact, |⌊x.val⌋| ≤ B) : 0 ≤ B ∧ B + exact.length ≤ 2 ^ 53 := by
  have hpos : (1 : ℤ) ≤ exact.length := by
    exact_mod_cast List.length_pos_iff.mpr hne
  have hB0 : 0 ≤ B := by
    obtain ⟨x, hx⟩ := List.exists_mem_of_ne_nil _ hne
    exact (abs_nonneg _).trans (hsize x hx)
  exact ⟨hB0, by nlinarith⟩

/-- What the floors leave of the total is a whole number, computed without error. -/
theorem val_rest (ht : total.val = t) (hne : exact ≠ [])
    (hB : exact.length * (B + 1) ≤ 2 ^ 53) (hsize : ∀ x ∈ exact, |⌊x.val⌋| ≤ B)
    (hsum : |(exact.map (·.val)).sum - t| < 1) :
    (total - (exact.map Binary64.floor).foldl (· + ·) 0).val =
      ((rest exact (·.val) t : ℤ) : ℚ) := by
  obtain ⟨hB0, hle⟩ := le_of_mul_succ_le hne hB hsize
  have hnonneg := rest_nonneg hsum
  have hlength := rest_le_length hsum
  have habs : ((exact.map fun x => |⌊x.val⌋|).sum : ℤ) ≤ exact.length * B := by
    have h := List.sum_le_card_nsmul (exact.map fun x => |⌊x.val⌋|) B fun y hy => by
      obtain ⟨x, hx, rfl⟩ := List.mem_map.mp hy
      exact hsize x hx
    rwa [List.length_map, nsmul_eq_mul] at h
  have hfold : ((exact.map Binary64.floor).foldl (· + ·) 0).val =
      (((exact.map fun x => ⌊x.val⌋).sum : ℤ) : ℚ) := by
    rw [List.foldl_map]
    refine Binary64.val_foldl_add_intCast (fun x : Binary64 => x.floor) _ exact
      (fun x hx => val_floor ((hsize x hx).trans (by omega))) (habs.trans ?_)
    nlinarith
  refine Binary64.val_sub_intCast ht hfold ?_
  change |rest exact (·.val) t| ≤ 2 ^ 53
  rw [abs_of_nonneg hnonneg]
  omega

/-- The floors are raised at the first positions of the order, as many as the floors leave of
the total. -/
theorem whole_roundParts (ht : total.val = t) (hne : exact ≠ [])
    (hB : exact.length * (B + 1) ≤ 2 ^ 53) (hsize : ∀ x ∈ exact, |⌊x.val⌋| ≤ B)
    (hsum : |(exact.map (·.val)).sum - t| < 1) :
    Whole (roundParts total exact) (raise ((paisaOrder exact).take (rest exact (·.val) t).toNat)
      (exact.map fun x => ⌊x.val⌋)) := by
  obtain ⟨hB0, hle⟩ := le_of_mul_succ_le hne hB hsize
  have hfloors : Whole (exact.map (·.floor)) (exact.map fun x => ⌊x.val⌋) := by
    rw [Whole, List.forall₂_map_left_iff, List.forall₂_map_right_iff, List.forall₂_same]
    exact fun x hx => val_floor ((hsize x hx).trans (by omega))
  have hlength := rest_le_length hsum
  have hlen' : (paisaOrder exact).length = exact.length := by
    rw [(paisaOrder_perm exact).length_eq, List.length_range]
  unfold roundParts
  dsimp only
  rw [val_rest ht hne hB hsize hsum, Int.ceil_intCast]
  change Whole (giveRest (paisaOrder exact) _ 0 _) _
  rw [giveRest_eq (by omega), List.drop_zero]
  refine hfloors.foldl_modify (B := B) ?_ ?_
  · intro n hn
    obtain ⟨x, hx, rfl⟩ := List.mem_map.mp hn
    exact hsize x hx
  · have := List.length_take_le' (rest exact (·.val) t).toNat (paisaOrder exact)
    omega

end Floors

/-! ### Exact parts -/

theorem abs_sum_sub_le {α : Type*} {es : List α} {f g ε : α → ℚ}
    (h : ∀ e ∈ es, |f e - g e| ≤ ε e) : |(es.map f).sum - (es.map g).sum| ≤ (es.map ε).sum := by
  induction es with
  | nil => simp
  | cons e es ih =>
    have he := h e List.mem_cons_self
    have ih := ih fun e he => h e (List.mem_cons_of_mem _ he)
    rw [List.map_cons, List.map_cons, List.map_cons, List.sum_cons, List.sum_cons, List.sum_cons]
    have hsplit : f e + (es.map f).sum - (g e + (es.map g).sum) =
        (f e - g e) + ((es.map f).sum - (es.map g).sum) := by ring
    rw [hsplit]
    linarith [abs_add_le (f e - g e) ((es.map f).sum - (es.map g).sum)]

theorem sum_map_mul_cast {α : Type*} (es : List α) (n : α → ℤ) (c : ℚ) :
    (es.map fun e => c * n e).sum = c * ((es.map n).sum : ℤ) := by
  induction es with
  | nil => simp
  | cons e es ih =>
    rw [List.map_cons, List.map_cons, List.sum_cons, List.sum_cons, ih]
    push_cast
    ring

section Parts

variable {total wSum : Binary64} {t : ℤ} {w : List Binary64}

/-- Weights that are whole numbers, not negative and not all zero, and their sum. -/
structure Weights (w : List Binary64) (wSum : Binary64) : Prop where
  whole : ∀ x ∈ w, x.val = ⌊x.val⌋
  nonneg : ∀ x ∈ w, 0 ≤ ⌊x.val⌋
  val_sum : wSum.val = ((w.map fun x => ⌊x.val⌋).sum : ℤ)
  sum_pos : 0 < (w.map fun x => ⌊x.val⌋).sum

/-- What a weight gets of a total, exactly. -/
def exactShare (t : ℤ) (w : List Binary64) (x : Binary64) : ℚ :=
  t / ((w.map fun x => ⌊x.val⌋).sum : ℤ) * ⌊x.val⌋

/-- The shares sum to the total. -/
theorem Weights.sum_exactShare (h : Weights w wSum) (t : ℤ) : (w.map (exactShare t w)).sum = t := by
  have hpos : (0 : ℚ) < ((w.map fun x => ⌊x.val⌋).sum : ℤ) := by exact_mod_cast h.sum_pos
  have hmul := sum_map_mul_cast w (fun x => ⌊x.val⌋) (t / ((w.map fun x => ⌊x.val⌋).sum : ℤ))
  rwa [div_mul_cancel₀ _ hpos.ne'] at hmul

theorem Weights.exactShare_nonneg (h : Weights w wSum) (ht : 0 ≤ t) {x : Binary64} (hx : x ∈ w) :
    0 ≤ exactShare t w x := by
  have hpos : (0 : ℚ) < ((w.map fun x => ⌊x.val⌋).sum : ℤ) := by exact_mod_cast h.sum_pos
  have h0 : (0 : ℚ) ≤ ⌊x.val⌋ := by exact_mod_cast h.nonneg x hx
  have htq : (0 : ℚ) ≤ t := by exact_mod_cast ht
  exact mul_nonneg (div_nonneg htq hpos.le) h0

theorem Weights.abs_exactShare (h : Weights w wSum) {x : Binary64} (hx : x ∈ w) :
    |exactShare t w x| = exactShare |t| w x := by
  have hpos : (0 : ℚ) < ((w.map fun x => ⌊x.val⌋).sum : ℤ) := by exact_mod_cast h.sum_pos
  have h0 : (0 : ℚ) ≤ ⌊x.val⌋ := by exact_mod_cast h.nonneg x hx
  rw [exactShare, exactShare, abs_mul, abs_div, abs_of_pos hpos, abs_of_nonneg h0, Int.cast_abs]

theorem Weights.abs_exactShare_le (h : Weights w wSum) {x : Binary64} (hx : x ∈ w) :
    |exactShare t w x| ≤ |t| := by
  rw [h.abs_exactShare hx]
  have hsum := h.sum_exactShare |t|
  rw [← hsum]
  refine List.single_le_sum (fun y hy => ?_) _ (List.mem_map.mpr ⟨x, hx, rfl⟩)
  obtain ⟨z, hz, rfl⟩ := List.mem_map.mp hy
  exact h.exactShare_nonneg (abs_nonneg t) hz

/-- The parts before they are rounded, each near its exact value. -/
theorem Weights.near (h : Weights w wSum) (ht : total.val = t) :
    ∀ x ∈ w, |(total * x / wSum).val - exactShare t w x| ≤
      Binary64.growth 2 * exactShare |t| w x := by
  intro x hx
  have happrox := (((Binary64.approx_self total).mul x).div wSum).error
  have hpos : (0 : ℚ) < ((w.map fun x => ⌊x.val⌋).sum : ℤ) := by exact_mod_cast h.sum_pos
  have h0 : (0 : ℚ) ≤ ⌊x.val⌋ := by exact_mod_cast h.nonneg x hx
  rw [ht, h.whole x hx, h.val_sum, abs_of_nonneg h0, abs_of_pos hpos] at happrox
  rw [exactShare, exactShare, Int.cast_abs, div_mul_eq_mul_div, div_mul_eq_mul_div]
  exact happrox

/-- The parts before they are rounded sum to the total, nearly. -/
theorem Weights.abs_sum_sub_le (h : Weights w wSum) (ht : total.val = t) :
    |((w.map fun x => total * x / wSum).map (·.val)).sum - t| ≤
      Binary64.growth 2 * |(t : ℚ)| := by
  have hsum := StelloKitchens.abs_sum_sub_le (h.near ht)
  rw [h.sum_exactShare t, List.sum_map_mul_left, h.sum_exactShare |t|, Int.cast_abs] at hsum
  rw [List.map_map]
  exact hsum

theorem growth_two_mul_le {n : ℕ} (hbound : (n + 1) * (|t| + 1) ≤ 2 ^ 51) :
    Binary64.growth 2 * |(t : ℚ)| + n * (Binary64.growth 2 * |(t : ℚ)| +
      2 * Binary64.unitRoundoff) < 1 := by
  have hb : ((n : ℚ) + 1) * (|(t : ℚ)| + 1) ≤ 2 ^ 51 := by exact_mod_cast hbound
  have hg : Binary64.growth 2 ≤ 3 * (1 / 2 ^ 53) := by
    norm_num [Binary64.growth, Binary64.unitRoundoff]
  have hu : Binary64.unitRoundoff = 1 / 2 ^ 53 := by norm_num [Binary64.unitRoundoff]
  have hn : (0 : ℚ) ≤ n := Nat.cast_nonneg n
  have ht := abs_nonneg (t : ℚ)
  have hle : Binary64.growth 2 * |(t : ℚ)| ≤ 3 * (1 / 2 ^ 53) * |(t : ℚ)| :=
    mul_le_mul_of_nonneg_right hg ht
  rw [hu]
  have hmul := mul_le_mul_of_nonneg_left hle hn
  nlinarith

/-- The rounded parts are whole paise that sum to the total, each less than one paisa from its exact
share. -/
theorem Weights.whole_roundParts (h : Weights w wSum) (ht : total.val = t)
    (hbound : (w.length + 1) * (|t| + 1) ≤ 2 ^ 51) :
    ∃ parts : List ℤ, Whole (roundParts total (w.map fun x => total * x / wSum)) parts ∧
      parts.sum = t ∧ (∃ hlength : parts.length = w.length, ∀ i (hi : i < w.length),
        |parts[i] - exactShare t w w[i]| < 1) ∧
      ∃ r : ℕ, r ≤ w.length ∧
        (total - ((w.map fun x => total * x / wSum).map Binary64.floor).foldl (· + ·) 0).val = r := by
  have hne : w ≠ [] := by
    rintro rfl
    exact absurd h.sum_pos (lt_irrefl 0)
  have hn : 0 < w.length := List.length_pos_iff.mpr hne
  have hg := Binary64.growth_nonneg 2
  have htq := abs_nonneg (t : ℚ)
  have hg0 : 0 ≤ Binary64.growth 2 * |(t : ℚ)| := mul_nonneg hg htq
  have hgrowth := growth_two_mul_le hbound
  have hnear : ∀ x ∈ w, |(total * x / wSum).val - exactShare t w x| ≤
      Binary64.growth 2 * |(t : ℚ)| := fun x hx => by
    refine (h.near ht x hx).trans (mul_le_mul_of_nonneg_left ?_ hg)
    rw [← h.abs_exactShare hx]
    exact (h.abs_exactShare_le hx).trans_eq (Int.cast_abs)
  have hsmall : Binary64.growth 2 * |(t : ℚ)| < 1 := by
    have := mul_nonneg (Nat.cast_nonneg w.length : (0 : ℚ) ≤ _)
      (add_nonneg hg0 (mul_nonneg zero_le_two Binary64.unitRoundoff_pos.le))
    linarith
  have hsum := h.abs_sum_sub_le ht
  set exact := w.map fun x => total * x / wSum with hexact
  have hlen : exact.length = w.length := by simp [hexact]
  have hexactne : exact ≠ [] := by simpa [hexact] using hne
  have hsize : ∀ x ∈ exact, |⌊x.val⌋| ≤ |t| + 1 := by
    intro y hy
    obtain ⟨x, hx, rfl⟩ := List.mem_map.mp hy
    have hclose := abs_le.mp (hnear x hx)
    have hshare := abs_le.mp (h.abs_exactShare_le (t := t) hx)
    have hlo : -(|t| + 1) ≤ ⌊(total * x / wSum).val⌋ := by
      rw [Int.le_floor]
      push_cast at hshare ⊢
      linarith
    have hhi : ⌊(total * x / wSum).val⌋ < |t| + 1 := by
      rw [Int.floor_lt]
      push_cast at hshare ⊢
      linarith
    exact abs_le.mpr ⟨hlo, hhi.le⟩
  have hB : (exact.length : ℤ) * (|t| + 1 + 1) ≤ 2 ^ 53 := by
    rw [hlen]
    have hn' : (1 : ℤ) ≤ w.length := by exact_mod_cast hn
    nlinarith [abs_nonneg t]
  have hsum' : |(exact.map (·.val)).sum - t| < 1 := hsum.trans_lt hsmall
  have hcuts : |(exact.map (·.val)).sum - t| +
      exact.length * (Binary64.growth 2 * |(t : ℚ)| + 2 * Binary64.unitRoundoff) < 1 := by
    rw [hlen]
    linarith
  obtain ⟨hB0, hfits⟩ := le_of_mul_succ_le hexactne hB hsize
  have hsize' : ∀ x ∈ exact, |⌊x.val⌋| ≤ 2 ^ 53 := fun x hx => (hsize x hx).trans (by omega)
  have hwhole := StelloKitchens.whole_roundParts ht hexactne hB hsize hsum'
  have hnonneg := rest_nonneg hsum'
  have hlength := rest_le_length hsum'
  set is := (paisaOrder exact).take (rest exact (·.val) t).toNat with his
  have hperm := paisaOrder_perm exact
  have hnodup : is.Nodup := (hperm.nodup_iff.mpr List.nodup_range).sublist (List.take_sublist _ _)
  have hlt : ∀ i ∈ is, i < (exact.map fun x => ⌊x.val⌋).length := by
    intro i hi
    rw [List.length_map]
    exact List.mem_range.mp (hperm.mem_iff.mp (List.mem_of_mem_take hi))
  have hislen : is.length = (rest exact (·.val) t).toNat := by
    rw [his, List.length_take, hperm.length_eq, List.length_range]
    omega
  have hfloors : rest exact (·.val) t = t - (exact.map fun x => ⌊x.val⌋).sum := rfl
  refine ⟨_, hwhole, ?_, ⟨by simp [hlen], fun i hi => ?_⟩, (rest exact (·.val) t).toNat, by omega, ?_⟩
  · rw [sum_raise hlt, hislen]
    omega
  · have hi' : i < exact.length := hlen ▸ hi
    have hget : exact[i] = total * w[i] / wSum := by simp [hexact]
    have hclose := abs_le.mp (hnear w[i] (List.getElem_mem hi))
    rw [getElem_raise hnodup (by simpa using hi'), List.getElem_map, hget]
    have hfract := Int.floor_add_fract (total * w[i] / wSum).val
    by_cases hmem : i ∈ is
    · -- raised, and cut by more than the error
      have hcut := fract_of_mem_take hg0 hsize' hcuts hi' hmem
      have hfract1 := Int.fract_lt_one (total * w[i] / wSum).val
      rw [hget] at hcut
      rw [if_pos hmem, abs_lt]
      push_cast
      constructor <;> linarith
    · -- not raised, and cut by less than what the error leaves of one
      have hcut := fract_of_notMem_take hg0 hsize' hcuts hi' hmem
      have hfract0 := Int.fract_nonneg (total * w[i] / wSum).val
      rw [hget] at hcut
      rw [if_neg hmem, abs_lt]
      push_cast
      constructor <;> linarith
  · rw [val_rest ht hexactne hB hsize hsum']
    exact_mod_cast (Int.toNat_of_nonneg hnonneg).symm

end Parts

/-! ### Dividing a total -/

/-- The whole numbers of a list, each as often as it is there. -/
theorem Whole.eq_map {xs : List Binary64} {ns : List ℤ} (h : Whole xs ns) :
    ns = xs.map fun x => ⌊x.val⌋ := by
  induction h with
  | nil => rfl
  | cons hx _ ih => rw [List.map_cons, hx, Int.floor_intCast, ← ih]

theorem Whole.val_eq {xs : List Binary64} {ns : List ℤ} (h : Whole xs ns) :
    ∀ x ∈ xs, x.val = ⌊x.val⌋ := by
  induction h with
  | nil => simp
  | cons hx _ ih =>
    intro y hy
    rcases List.mem_cons.mp hy with rfl | hy
    · rw [hx, Int.floor_intCast]
    · exact ih y hy

/-- The sum of the weights that count. -/
def positiveSum (xs : List ℤ) : ℤ := (xs.map (max 0)).sum

variable {weights : List Binary64} {xs : List ℤ} {total : Binary64} {t : ℤ}

theorem floor_max_zero {x : Binary64} (hx : x.val = ⌊x.val⌋) :
    (max 0 x).val = (max 0 ⌊x.val⌋ : ℤ) := by
  rw [val_max, Binary64.val_zero, Int.cast_max, Int.cast_zero, ← hx]

theorem val_sum_effective (hw : Whole weights xs) (hsum : positiveSum xs ≤ 2 ^ 53) :
    (weights.foldl (fun s w => s + max 0 w) 0).val = (positiveSum xs : ℚ) := by
  have hmap : xs.map (max 0) = weights.map fun x => max 0 ⌊x.val⌋ := by
    rw [hw.eq_map, List.map_map]
    rfl
  rw [positiveSum, hmap] at hsum ⊢
  refine Binary64.val_foldl_add_intCast _ _ _ (fun x hx => floor_max_zero (hw.val_eq x hx))
    (le_of_eq_of_le ?_ hsum)
  exact congrArg List.sum (List.map_congr_left fun x _ => abs_of_nonneg (le_max_left _ _))

/-- What the loop over the positions starts from. -/
def leftOver (total : Binary64) (weights : List Binary64) : Binary64 :=
  let (w, wSum) := effectiveWeights weights
  total - ((w.map fun x => total * x / wSum).map Binary64.floor).foldl (· + ·) 0

/-- With a positive weight, the parts sum to the total and are less than one paisa from the shares of
the positive weights. -/
theorem allocatePaise_of_pos (ht : total.val = t) (hbound : (xs.length + 1) * (|t| + 1) ≤ 2 ^ 51)
    (hw : Whole weights xs) (hxs : positiveSum xs ≤ 2 ^ 53) (hpos : 0 < positiveSum xs) :
    ∃ parts : List ℤ, Whole (allocatePaise total weights) parts ∧ parts.sum = t ∧
      (∃ hlength : parts.length = xs.length, ∀ i (hi : i < xs.length),
        |(parts[i] : ℚ) - t / positiveSum xs * (max 0 xs[i] : ℤ)| < 1) ∧
      ∃ r : ℕ, r ≤ xs.length ∧ (leftOver total weights).val = r := by
  have hne : weights ≠ [] := by
    rintro rfl
    cases hw
    simp [positiveSum] at hpos
  have hsum := val_sum_effective hw hxs
  set wSum := weights.foldl (fun s w => s + max 0 w) 0 with hwSum
  have hsumpos : 0 < wSum := by
    rw [Binary64.lt_def, Binary64.val_zero, hsum]
    exact_mod_cast hpos
  have hfloor : ∀ x ∈ weights, ⌊(max 0 x).val⌋ = max 0 ⌊x.val⌋ := fun x hx => by
    rw [floor_max_zero (hw.val_eq x hx), Int.floor_intCast]
  have hsame : (weights.map (max 0)).map (fun x => ⌊x.val⌋) = xs.map (max 0) := by
    rw [hw.eq_map, List.map_map, List.map_map]
    exact List.map_congr_left hfloor
  have hweights : Weights (weights.map (max 0)) wSum := by
    refine ⟨fun y hy => ?_, fun y hy => ?_, ?_, ?_⟩
    · obtain ⟨x, hx, rfl⟩ := List.mem_map.mp hy
      rw [floor_max_zero (hw.val_eq x hx), Int.floor_intCast]
    · obtain ⟨x, hx, rfl⟩ := List.mem_map.mp hy
      rw [hfloor x hx]
      exact le_max_left _ _
    · rw [hsame, hsum]
      rfl
    · rw [hsame]
      exact hpos
  have hlenw := hw.length_eq
  have hlen : (weights.map (max 0)).length = xs.length := by simpa using hlenw
  have heffective : effectiveWeights weights = (weights.map (max 0), wSum) := by
    rw [effectiveWeights]
    exact if_pos hsumpos
  obtain ⟨parts, hparts, hpsum, ⟨hplen, hnear⟩, r, hr, hrest⟩ :=
    hweights.whole_roundParts ht (by rw [hlen]; exact hbound)
  refine ⟨parts, ?_, hpsum, ⟨hplen.trans hlen, fun i hi => ?_⟩, r, hr.trans_eq hlen, ?_⟩
  · rw [allocatePaise, if_neg hne, heffective]
    exact hparts
  · have h := hnear i (hlen ▸ hi)
    have hget : weights[i].val = xs[i] := (List.forall₂_iff_get.mp hw).2 i (hlenw ▸ hi) hi
    have hval : ⌊((weights.map (max 0))[i]).val⌋ = max 0 xs[i] := by
      rw [List.getElem_map, val_max, Binary64.val_zero, hget]
      exact_mod_cast Int.floor_intCast (max 0 xs[i])
    rw [exactShare, hsame, hval] at h
    exact h
  · rw [leftOver, heffective]
    exact hrest

theorem share_le {t W x : ℤ} (hW : 0 < W) (htle : t ≤ W) (hx : 0 ≤ x) : (t / W * x : ℚ) ≤ x := by
  have hposq : (0 : ℚ) < W := by exact_mod_cast hW
  have hone : (t : ℚ) / W ≤ 1 := (div_le_one hposq).mpr (by exact_mod_cast htle)
  exact mul_le_of_le_one_left (by exact_mod_cast hx) hone

/-- A total divided evenly, the leftover paise to the first parts. -/
def evenParts (t : ℤ) (n : ℕ) : List ℤ :=
  (List.range n).map fun i : ℕ => t / n + if (i : ℤ) < t % n then 1 else 0

theorem paisaOrder_replicate (n : ℕ) (e : Binary64) :
    paisaOrder (List.replicate n e) = List.range n := by
  have hsorted : ((List.replicate n e).mapIdx fun i x => (i, x - x.floor)).Pairwise GetsFirst := by
    rw [List.pairwise_iff_getElem]
    intro i j hi hj hij
    right
    simpa using hij.le
  rw [paisaOrder, hsorted.insertionSort_eq]
  exact List.ext_getElem (by simp) fun i hi hi' => by simp

/-- The quotient of a total by a number of parts is floored as if it were exact. -/
theorem floor_part {e : Binary64} {n : ℕ} (hn : 0 < n) (hbound : |t| < 2 ^ 53)
    (hval : e.val = Binary64.round (t / n)) : ⌊e.val⌋ = t / n := by
  have hnq : (0 : ℚ) < n := by exact_mod_cast hn
  have hdiv : (t / n : ℤ) * n + t % n = t := Int.ediv_mul_add_emod t n
  have hmod := Int.emod_nonneg t (by omega : (n : ℤ) ≠ 0)
  have hmodlt := Int.emod_lt_of_pos t (by omega : (0 : ℤ) < n)
  have hq : (t / n : ℚ) = (t / n : ℤ) + (t % n : ℤ) / n := by
    have : (t : ℚ) = (t / n : ℤ) * n + (t % n : ℤ) := by exact_mod_cast hdiv.symm
    rw [this]
    field_simp
  by_cases hzero : t % n = 0
  · have habs : |t / (n : ℤ)| ≤ 2 ^ 53 := by
      have := abs_lt.mp hbound
      rw [abs_le]
      constructor <;> nlinarith
    rw [hval, hq, hzero, Int.cast_zero, zero_div, add_zero, Binary64.round_intCast _ habs,
      Int.floor_intCast]
  · -- the remainder keeps the quotient farther from the whole numbers than the rounding moves it
    have hround := Binary64.abs_round_sub_le (t / n : ℚ)
    have hsmall : Binary64.unitRoundoff * |(t / n : ℚ)| < 1 / n := by
      have hb : |(t : ℚ)| < 2 ^ 53 := by exact_mod_cast hbound
      rw [abs_div, abs_of_pos hnq, ← mul_div_assoc]
      refine div_lt_div_of_pos_right ?_ hnq
      rw [Binary64.unitRoundoff]
      norm_num at hb ⊢
      linarith
    have hlo : (1 / n : ℚ) ≤ (t % n : ℤ) / n := by
      refine div_le_div_of_nonneg_right ?_ hnq.le
      exact_mod_cast (by omega : 1 ≤ t % (n : ℤ))
    have hhi : ((t % n : ℤ) / n : ℚ) ≤ 1 - 1 / n := by
      rw [one_sub_div hnq.ne']
      refine div_le_div_of_nonneg_right ?_ hnq.le
      have h : t % (n : ℤ) ≤ (n : ℤ) - 1 := by omega
      exact_mod_cast h
    have h := abs_lt.mp (hround.trans_lt hsmall)
    rw [hval, Int.floor_eq_iff]
    rw [hq] at h ⊢
    constructor <;> linarith

/-- Without a positive weight, a total is divided evenly. -/
theorem allocatePaise_of_nonpos (ht : total.val = t)
    (hbound : (xs.length + 1) * (|t| + 1) ≤ 2 ^ 51) (hw : Whole weights xs) (hne : xs ≠ [])
    (hpos : ¬0 < positiveSum xs) :
    Whole (allocatePaise total weights) (evenParts t xs.length) ∧
      ∃ r : ℕ, r ≤ xs.length ∧ (leftOver total weights).val = r := by
  have hne' : weights ≠ [] := by
    rintro rfl
    cases hw
    exact hne rfl
  have hlenw := hw.length_eq
  set n := xs.length with hn
  have hn0 : 0 < n := List.length_pos_iff.mpr hne
  have htlt : |t| < 2 ^ 53 := by nlinarith [abs_nonneg t]
  have hnle : (n : ℤ) ≤ 2 ^ 53 := by nlinarith [abs_nonneg t]
  have hsum : ¬0 < weights.foldl (fun s w => s + max 0 w) 0 := by
    rw [Binary64.lt_def, Binary64.val_zero, val_sum_effective hw (by omega)]
    exact_mod_cast hpos
  have hone : (1 : Binary64).val = 1 := by
    simpa using Binary64.val_ofNat_of_le (n := 1) (by norm_num)
  have hnval : (Binary64.ofRat (n : ℚ)).val = n := by
    have := Binary64.val_ofRat_intCast (m := n) (by rw [Nat.abs_cast]; exact hnle)
    exact_mod_cast this
  have hmapone : (List.replicate n (1 : Binary64)).map (fun x => ⌊x.val⌋) = List.replicate n 1 := by
    rw [List.map_replicate, hone, Int.floor_one]
  have hweights : Weights (List.replicate n 1) (.ofRat (n : ℚ)) := by
    refine ⟨fun x hx => ?_, fun x hx => ?_, ?_, ?_⟩
    · rw [List.eq_of_mem_replicate hx, hone, Int.floor_one, Int.cast_one]
    · rw [List.eq_of_mem_replicate hx, hone, Int.floor_one]
      exact zero_le_one
    · rw [hmapone, List.sum_replicate, hnval]
      simp
    · rw [hmapone, List.sum_replicate]
      simpa using hn0
  have heffective : effectiveWeights weights = (List.replicate n 1, .ofRat (n : ℚ)) := by
    rw [effectiveWeights, if_neg hsum, List.map_const', hlenw]
  set e := total * 1 / Binary64.ofRat (n : ℚ) with he
  have hexact : (List.replicate n (1 : Binary64)).map (fun x => total * x / .ofRat (n : ℚ)) =
      List.replicate n e := List.map_replicate
  have heval : e.val = Binary64.round (t / n) := by
    have htotal : (total * 1).val = t := by
      have := total.representable
      rw [Binary64.val_mul, hone, mul_one, this, ht]
    rw [he, Binary64.val_div, htotal, hnval]
  have hfloor : ⌊e.val⌋ = t / n := floor_part hn0 htlt heval
  have hdivle : |t / (n : ℤ)| ≤ |t| + 1 := by
    have hmul := Int.mul_ediv_add_emod t n
    have hmod := Int.emod_nonneg t (by omega : (n : ℤ) ≠ 0)
    have hmodlt := Int.emod_lt_of_pos t (by omega : (0 : ℤ) < n)
    have hlo := neg_abs_le t
    have hhi := le_abs_self t
    rw [abs_le]
    constructor <;> nlinarith
  have hfloors : (List.replicate n e).map (fun x => ⌊x.val⌋) = List.replicate n (t / n : ℤ) := by
    rw [List.map_replicate, hfloor]
  have hnear : |((List.replicate n e).map (·.val)).sum - t| < 1 := by
    have hsmall := growth_two_mul_le hbound
    have hnear := hweights.abs_sum_sub_le ht
    rw [hexact] at hnear
    have hg := Binary64.growth_nonneg 2
    have := mul_nonneg (Nat.cast_nonneg n : (0 : ℚ) ≤ _)
      (add_nonneg (mul_nonneg hg (abs_nonneg (t : ℚ)))
        (mul_nonneg zero_le_two Binary64.unitRoundoff_pos.le))
    linarith
  have hwhole := @whole_roundParts (List.replicate n e) total t (|t| + 1) ht
    (by simpa using hn0.ne') (by rw [List.length_replicate]; nlinarith [abs_nonneg t])
    (fun x hx => by rw [List.eq_of_mem_replicate hx, hfloor]; exact hdivle) hnear
  have hrest : rest (List.replicate n e) (·.val) t = t % n := by
    rw [rest, hfloors, List.sum_replicate, nsmul_eq_mul]
    have := Int.mul_ediv_add_emod t n
    omega
  have hmod := Int.emod_nonneg t (by omega : (n : ℤ) ≠ 0)
  have hmodlt := Int.emod_lt_of_pos t (by omega : (0 : ℤ) < n)
  rw [paisaOrder_replicate, hrest, hfloors] at hwhole
  have heven : raise ((List.range n).take (t % n).toNat) (List.replicate n (t / n : ℤ)) =
      evenParts t n := by
    refine List.ext_getElem (by simp [evenParts]) fun i hi hi' => ?_
    rw [getElem_raise (List.nodup_range.sublist (List.take_sublist _ _)) (by simpa using hi)]
    have hin : i < n := by simpa using hi
    have hiff : i ∈ (List.range n).take (t % n).toNat ↔ (i : ℤ) < t % n := by
      rw [List.take_range, List.mem_range]
      omega
    simp only [List.getElem_replicate, evenParts, List.getElem_map, List.getElem_range, hiff]
  obtain ⟨-, -, -, -, r, hr, hleft⟩ :=
    hweights.whole_roundParts ht (by rw [List.length_replicate]; exact hbound)
  rw [heven] at hwhole
  refine ⟨?_, r, by simpa using hr, ?_⟩
  · rw [allocatePaise, if_neg hne', heffective]
    dsimp only
    rw [hexact]
    exact hwhole
  · rw [leftOver, heffective]
    exact hleft

@[simp] theorem length_evenParts (t : ℤ) (n : ℕ) : (evenParts t n).length = n := by simp [evenParts]

/-- Parts divided evenly sum to the total. -/
theorem sum_evenParts (t : ℤ) {n : ℕ} (hn : 0 < n) : (evenParts t n).sum = t := by
  have hmod := Int.emod_nonneg t (by omega : (n : ℤ) ≠ 0)
  have hmodlt := Int.emod_lt_of_pos t (by omega : (0 : ℤ) < n)
  have hcount : ∀ m : ℕ, ((List.range m).map fun i : ℕ => if (i : ℤ) < t % n then (1 : ℤ) else 0).sum =
      min (m : ℤ) (t % n) := by
    intro m
    induction m with
    | zero => simp [hmod]
    | succ m ih =>
      rw [List.range_succ, List.map_append, List.sum_append, ih]
      simp only [List.map_cons, List.map_nil, List.sum_cons, List.sum_nil, add_zero]
      split <;> push_cast <;> omega
  have hsplit : (evenParts t n).sum = n * (t / n) +
      ((List.range n).map fun i : ℕ => if (i : ℤ) < t % n then (1 : ℤ) else 0).sum := by
    rw [evenParts, List.sum_map_add]
    simp
  rw [hsplit, hcount, min_eq_right (by omega)]
  exact Int.mul_ediv_add_emod t n

theorem positiveSum_of_nonneg {xs : List ℤ} (h : ∀ x ∈ xs, 0 ≤ x) : positiveSum xs = xs.sum := by
  rw [positiveSum]
  congr 1
  nth_rewrite 2 [← List.map_id xs]
  exact List.map_congr_left fun x hx => max_eq_right (h x hx)

/-! ### Equal shares -/

/-- The checks whose turn it is to get the paise left over, from check `offset` on. -/
def turns (n offset r : ℕ) : List ℕ := (List.range r).map fun k => (offset + k) % n

/-- The shares of a line. -/
def lineShares (n offset : ℕ) (m : ℤ) : List ℤ :=
  raise (turns n offset (m % n).toNat) (List.replicate n (m / n))

/-- The shares of the lines, line by line. -/
def sharesOfLines (n : ℕ) : ℕ → List ℤ → List (List ℤ)
  | _, [] => []
  | offset, m :: ms =>
    lineShares n offset m :: sharesOfLines n ((offset + (m % n).toNat) % n) ms

theorem mem_turns_lt {n offset r : ℕ} (hn : 0 < n) : ∀ i ∈ turns n offset r, i < n := by
  intro i hi
  obtain ⟨k, -, rfl⟩ := List.mem_map.mp hi
  exact Nat.mod_lt _ hn

@[simp] theorem length_lineShares (n offset : ℕ) (m : ℤ) : (lineShares n offset m).length = n := by
  simp [lineShares]

theorem sum_lineShares {n : ℕ} (hn : 0 < n) (offset : ℕ) (m : ℤ) :
    (lineShares n offset m).sum = m := by
  have hmul := Int.mul_ediv_add_emod m n
  have hmod := Int.emod_nonneg m (by omega : (n : ℤ) ≠ 0)
  rw [lineShares, sum_raise (by simpa using mem_turns_lt hn), List.sum_replicate, turns,
    List.length_map, List.length_range, nsmul_eq_mul]
  omega

/-- The shares of one line are whole paise. -/
theorem whole_splitLine {p : Binary64} {m : ℤ} {n : ℕ} (hp : p.val = m) (hbound : |m| + n ≤ 2 ^ 53)
    (hn : 0 < n) (offset : ℕ) :
    Whole (splitLine n offset p).1 (lineShares n offset m) ∧
      (splitLine n offset p).2 = (offset + (m % n).toNat) % n := by
  have hlo := neg_abs_le m
  have hhi := le_abs_self m
  have hnval : (Binary64.ofRat (n : ℚ)).val = ((n : ℤ) : ℚ) := by
    have := Binary64.val_ofRat_intCast (m := n) (by rw [Nat.abs_cast]; omega)
    exact_mod_cast this
  have hquot : (p / .ofRat (n : ℚ)).val = Binary64.round (m / n) := by
    rw [Binary64.val_div, hp, hnval]
    rfl
  have hfloor := floor_part hn (by omega) hquot
  have hmul := Int.mul_ediv_add_emod m n
  have hmod := Int.emod_nonneg m (by omega : (n : ℤ) ≠ 0)
  have hmodlt := Int.emod_lt_of_pos m (by omega : (0 : ℤ) < n)
  have hdivle : |m / (n : ℤ)| ≤ |m| + 1 := by
    rw [abs_le]
    constructor <;> nlinarith
  have hbase : (p / .ofRat (n : ℚ)).floor.val = ((m / n : ℤ) : ℚ) := by
    rw [val_floor (by rw [hfloor]; omega), hfloor]
  have hprod : ((p / .ofRat (n : ℚ)).floor * .ofRat (n : ℚ)).val = ((m / n * n : ℤ) : ℚ) := by
    rw [Binary64.val_mul, hbase, hnval, ← Int.cast_mul, Binary64.round_intCast]
    rw [abs_le, mul_comm]
    omega
  have hrem : (p - (p / .ofRat (n : ℚ)).floor * .ofRat (n : ℚ)).val = ((m % n : ℤ) : ℚ) := by
    have h := Binary64.val_sub_intCast hp hprod (by
      rw [abs_le, mul_comm]
      omega)
    rw [h, mul_comm (m / (n : ℤ))]
    congr 1
    omega
  have hcol : splitLine n offset p =
      ((turns n offset (m % n).toNat).foldl (fun ps i => ps.modify i (· + 1))
        (List.replicate n (p / .ofRat (n : ℚ)).floor), (offset + (m % n).toNat) % n) := by
    rw [splitLine, hrem, Int.ceil_intCast, turns, List.foldl_map]
  rw [hcol]
  refine ⟨Whole.foldl_modify (B := |m| + 1) ?_ (fun x hx => ?_) ?_, rfl⟩
  · exact List.forall₂_iff_get.mpr ⟨by simp, fun i hi hi' => by simpa using hbase⟩
  · rw [List.eq_of_mem_replicate hx]
    exact hdivle
  · rw [turns, List.length_map, List.length_range]
    omega

/-- The shares of every line are whole paise. -/
theorem whole_splitColumns {n : ℕ} (hn : 0 < n) {lines : List Binary64} {ms : List ℤ}
    (h : Whole lines ms) (hbound : ∀ m ∈ ms, |m| + n ≤ 2 ^ 53) (offset : ℕ) :
    List.Forall₂ Whole (splitColumns n offset lines) (sharesOfLines n offset ms) := by
  induction h generalizing offset with
  | nil => exact .nil
  | @cons p m lines ms hp _ ih =>
    obtain ⟨hcol, hoffset⟩ := whole_splitLine hp (hbound m List.mem_cons_self) hn offset
    have hrest := ih (fun m hm => hbound m (List.mem_cons_of_mem _ hm)) (splitLine n offset p).2
    rw [sharesOfLines, ← hoffset]
    exact .cons hcol hrest

/-- The shares of every line sum to the line. -/
theorem sum_sharesOfLines {n : ℕ} (hn : 0 < n) (ms : List ℤ) (offset : ℕ) :
    List.Forall₂ (fun col m => col.length = n ∧ col.sum = m) (sharesOfLines n offset ms) ms := by
  induction ms generalizing offset with
  | nil => exact .nil
  | cons m ms ih => exact .cons ⟨length_lineShares n offset m, sum_lineShares hn offset m⟩ (ih _)

/-- Every check's share of every line is a whole number of paise. -/
theorem splitLinesEqually_spec {n : ℕ} (hn : 0 < n) {lines : List Binary64} {ms : List ℤ}
    (h : Whole lines ms) (hbound : ∀ m ∈ ms, |m| + n ≤ 2 ^ 53) :
    List.Forall₂ Whole (splitLinesEqually lines n)
      ((List.range n).map fun c => (sharesOfLines n 0 ms).map fun col => col.getD c 0) := by
  have hcols := whole_splitColumns hn h hbound 0
  unfold splitLinesEqually
  dsimp only
  rw [List.forall₂_map_left_iff, List.forall₂_map_right_iff, List.forall₂_same]
  intro c _
  rw [Whole, List.forall₂_map_left_iff, List.forall₂_map_right_iff]
  refine hcols.imp fun col ns hcol => ?_
  rw [List.getD_eq_getElem?_getD, List.getD_eq_getElem?_getD]
  by_cases hc : c < ns.length
  · have hc' : c < col.length := hcol.length_eq ▸ hc
    rw [List.getElem?_eq_getElem hc, List.getElem?_eq_getElem hc']
    exact (List.forall₂_iff_get.mp hcol).2 c hc' hc
  · have hc' : ¬c < col.length := hcol.length_eq ▸ hc
    rw [List.getElem?_eq_none (not_lt.mp hc), List.getElem?_eq_none (not_lt.mp hc')]
    simp

/-! ### Turns -/

/-- How often it has been a check's turn, once that many paise are given. -/
def turnsOf (n c given : ℕ) : ℕ := given.count (· ≡ c [MOD n])

/-- It is everyone's turn equally often, up to once. -/
theorem turnsOf_le {n c c' : ℕ} (hn : 0 < n) (given : ℕ) : turnsOf n c given ≤ turnsOf n c' given + 1 := by
  rw [turnsOf, turnsOf, Nat.count_modEq_card _ hn, Nat.count_modEq_card _ hn]
  split <;> split <;> omega

theorem turnsOf_add {n c : ℕ} (hc : c < n) (given r : ℕ) :
    turnsOf n c (given + r) = turnsOf n c given + (turns n (given % n) r).count c := by
  rw [turnsOf, turnsOf, Nat.count_add, turns]
  congr 1
  induction r with
  | zero => rfl
  | succ r ih =>
    rw [Nat.count_succ, ih, List.range_succ, List.map_append, List.count_append, List.map_singleton,
      Nat.mod_add_mod, List.count_singleton]
    simp only [Nat.ModEq, Nat.mod_eq_of_lt hc, beq_iff_eq]

/-- The paise left over of some lines. -/
def leftOvers (n : ℕ) (ms : List ℤ) : ℕ := (ms.map fun m : ℤ => (m % n).toNat).sum

/-- What a check has of some lines: the floors, and a paisa for each time that it was its turn. -/
theorem sum_getD_sharesOfLines {n c : ℕ} (hc : c < n) (ms : List ℤ) (given : ℕ) :
    ((sharesOfLines n (given % n) ms).map fun col => col.getD c 0).sum + turnsOf n c given =
      (ms.map (· / (n : ℤ))).sum + turnsOf n c (given + leftOvers n ms) := by
  induction ms generalizing given with
  | nil => simp [sharesOfLines, leftOvers]
  | cons m ms ih =>
    have hline : (lineShares n (given % n) m).getD c 0 =
        m / n + (turns n (given % n) (m % n).toNat).count c := by
      rw [List.getD_eq_getElem?_getD, List.getElem?_eq_getElem (by simpa using hc), Option.getD_some]
      refine (getElem_raise_count (by simpa using hc) (by simpa using hc)).trans ?_
      rw [List.getElem_replicate]
    have hih := ih (given + (m % n).toNat)
    have hadd := turnsOf_add hc given (m % n).toNat
    rw [sharesOfLines, Nat.mod_add_mod, List.map_cons, List.sum_cons, List.map_cons, List.sum_cons,
      leftOvers, List.map_cons, List.sum_cons, ← leftOvers, ← Nat.add_assoc, hline]
    omega

/-- The checks have the same of all lines, up to one paisa. -/
theorem sum_getD_sharesOfLines_le {n c c' : ℕ} (hc : c < n) (hc' : c' < n) (ms : List ℤ) :
    ((sharesOfLines n 0 ms).map fun col => col.getD c 0).sum ≤
      ((sharesOfLines n 0 ms).map fun col => col.getD c' 0).sum + 1 := by
  have h := sum_getD_sharesOfLines hc ms 0
  have h' := sum_getD_sharesOfLines hc' ms 0
  have hturns := @turnsOf_le n c c' (by omega) (0 + leftOvers n ms)
  have hzero : turnsOf n c 0 = 0 := Nat.count_zero _
  have hzero' : turnsOf n c' 0 = 0 := Nat.count_zero _
  rw [Nat.zero_mod] at h h'
  omega

end StelloKitchens
