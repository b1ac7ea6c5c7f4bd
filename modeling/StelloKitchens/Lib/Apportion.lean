import Mathlib.Algebra.Order.Floor.Ring
import Mathlib.Algebra.BigOperators.Group.List.Basic
import Mathlib.Algebra.Order.BigOperators.Group.List
import Mathlib.Data.Rat.Floor
import Mathlib.Tactic.Linarith
import Mathlib.Tactic.Ring

/-!
# Apportioning a total by largest remainders

A total is apportioned by giving everyone the floor of a quota and the rest, one each, to those
whose quotas have the largest fractional parts. The quotas need not be exact: what is used of
them is that they are within some error of the exact ones, so that their sum is close to the
total.

## Main definitions

* `Apportion.raise` — raise the entries at some positions by one.

## Main results

* `Apportion.rest_nonneg`, `Apportion.rest_le_length` — the floors leave a rest for at most all.
* `Apportion.rest_le_countP` — the rest goes to quotas with a sizeable fractional part only.
* `Apportion.countP_le_rest` — quotas with a fractional part near one get a part of the rest.
* `Apportion.lt_of_mem_take`, `Apportion.lt_of_mem_drop` — the first entries of a list sorted by that
  part have it, and the last ones do not.
-/

namespace Apportion

/-! ### Raising entries -/

/-- Raise the entries at some positions by one, one position after another. -/
def raise (is : List ℕ) (xs : List ℤ) : List ℤ := is.foldl (fun xs i => xs.modify i (· + 1)) xs

@[simp] theorem raise_nil (xs : List ℤ) : raise [] xs = xs := rfl

@[simp] theorem raise_cons (i : ℕ) (is : List ℕ) (xs : List ℤ) :
    raise (i :: is) xs = raise is (xs.modify i (· + 1)) := rfl

@[simp] theorem length_raise (is : List ℕ) (xs : List ℤ) : (raise is xs).length = xs.length := by
  induction is generalizing xs with
  | nil => rfl
  | cons i is ih => rw [raise_cons, ih, List.length_modify]

theorem sum_modify {xs : List ℤ} {i : ℕ} (h : i < xs.length) :
    (xs.modify i (· + 1)).sum = xs.sum + 1 := by
  induction xs generalizing i with
  | nil => simp at h
  | cons x xs ih =>
    cases i with
    | zero =>
      simp only [List.modify_zero_cons, List.sum_cons]
      ring
    | succ i =>
      rw [List.modify_succ_cons, List.sum_cons, List.sum_cons, ih (by simpa using h)]
      ring

/-- Every position raised adds one to the sum. -/
theorem sum_raise {is : List ℕ} {xs : List ℤ} (h : ∀ i ∈ is, i < xs.length) :
    (raise is xs).sum = xs.sum + is.length := by
  induction is generalizing xs with
  | nil => simp
  | cons i is ih =>
    rw [raise_cons, ih fun j hj => by simpa using h j (List.mem_cons_of_mem _ hj),
      sum_modify (h i List.mem_cons_self), List.length_cons]
    push_cast
    ring

/-- An entry is raised as often as its position is given. -/
theorem getElem_raise_count {is : List ℕ} {xs : List ℤ} {j : ℕ} (hj : j < xs.length)
    (hj' : j < (raise is xs).length) : (raise is xs)[j] = xs[j] + is.count j := by
  induction is generalizing xs with
  | nil => simp
  | cons i is ih =>
    have hstep := @ih (xs.modify i (· + 1)) (by simpa using hj) hj'
    refine hstep.trans ?_
    rw [List.getElem_modify, List.count_cons]
    by_cases hij : i = j
    · simp only [hij, if_true, beq_self_eq_true]
      push_cast
      ring
    · simp [hij]

/-- An entry is raised when its position is among the ones given, no two of them the same. -/
theorem getElem_raise {is : List ℕ} (his : is.Nodup) {xs : List ℤ} {j : ℕ}
    (hj : j < xs.length) (hj' : j < (raise is xs).length) :
    (raise is xs)[j] = xs[j] + if j ∈ is then 1 else 0 := by
  rw [getElem_raise_count hj, his.count]
  split <;> rfl

/-! ### The rest -/

section Rest

variable {α : Type*} (es : List α) (quota : α → ℚ) (t : ℤ)

/-- What is left of a total after the floors of the quotas. -/
def rest : ℤ := t - (es.map fun a => ⌊quota a⌋).sum

theorem sum_quota_eq :
    (es.map quota).sum =
      ((es.map fun a => ⌊quota a⌋).sum : ℤ) + (es.map fun a => Int.fract (quota a)).sum := by
  induction es with
  | nil => simp
  | cons a es ih =>
    rw [List.map_cons, List.sum_cons, ih, List.map_cons, List.map_cons, List.sum_cons,
      List.sum_cons]
    push_cast
    linarith [Int.floor_add_fract (quota a)]

theorem rest_eq : (rest es quota t : ℚ) =
    (t - (es.map quota).sum) + (es.map fun a => Int.fract (quota a)).sum := by
  rw [rest, sum_quota_eq]
  push_cast
  ring

variable {es quota t}

theorem rest_nonneg (h : |(es.map quota).sum - t| < 1) : 0 ≤ rest es quota t := by
  have hfract : 0 ≤ (es.map fun a => Int.fract (quota a)).sum := by
    refine List.sum_nonneg fun x hx => ?_
    obtain ⟨a, -, rfl⟩ := List.mem_map.mp hx
    exact Int.fract_nonneg _
  have heq := rest_eq es quota t
  have hlt : (-1 : ℚ) < rest es quota t := by
    have := (abs_lt.mp h).2
    linarith
  have : -1 < rest es quota t := by exact_mod_cast hlt
  omega

/-- Everyone whose quota's fractional part is not sizeable gets less than a part of the rest. -/
theorem rest_le_countP {key : α → ℚ} {δ u : ℚ} (hu : 0 ≤ δ + u)
    (hkey : ∀ a ∈ es, Int.fract (quota a) ≤ key a + u)
    (h : |(es.map quota).sum - t| + es.length * (δ + u) < 1) :
    rest es quota t ≤ es.countP fun a => δ < key a := by
  have hfract : (es.map fun a => Int.fract (quota a)).sum ≤
      (es.countP fun a => δ < key a : ℕ) + es.length * (δ + u) := by
    clear h
    induction es with
    | nil => simp
    | cons a es ih =>
      have ih := ih fun b hb => hkey b (List.mem_cons_of_mem _ hb)
      have ha := hkey a List.mem_cons_self
      have hlt := Int.fract_lt_one (quota a)
      rw [List.map_cons, List.sum_cons, List.countP_cons, List.length_cons]
      by_cases hδ : δ < key a
      · simp only [hδ, decide_true, if_true]
        push_cast
        linarith
      · simp only [hδ, decide_false, Bool.false_eq_true, if_false]
        push_cast
        linarith
  have heq := rest_eq es quota t
  have hlt : (rest es quota t : ℚ) < (es.countP fun a => δ < key a : ℕ) + 1 := by
    have := neg_abs_le ((es.map quota).sum - t)
    linarith
  have : rest es quota t < (es.countP fun a => δ < key a : ℕ) + 1 := by exact_mod_cast hlt
  omega

/-- Everyone whose quota's fractional part is near one gets a part of the rest. -/
theorem countP_le_rest {key : α → ℚ} {κ u : ℚ} (hu : 0 ≤ 1 - κ + u)
    (hkey : ∀ a ∈ es, key a - u ≤ Int.fract (quota a))
    (h : |(es.map quota).sum - t| + es.length * (1 - κ + u) < 1) :
    (es.countP fun a => κ ≤ key a : ℕ) ≤ rest es quota t := by
  have hfract : (es.countP fun a => κ ≤ key a : ℕ) - es.length * (1 - κ + u) ≤
      (es.map fun a => Int.fract (quota a)).sum := by
    clear h
    induction es with
    | nil => simp
    | cons a es ih =>
      have ih := ih fun b hb => hkey b (List.mem_cons_of_mem _ hb)
      have ha := hkey a List.mem_cons_self
      have hnonneg := Int.fract_nonneg (quota a)
      rw [List.map_cons, List.sum_cons, List.countP_cons, List.length_cons]
      by_cases hκ : κ ≤ key a
      · simp only [hκ, decide_true, if_true]
        push_cast
        linarith
      · simp only [hκ, decide_false, Bool.false_eq_true, if_false]
        push_cast
        linarith
  have heq := rest_eq es quota t
  have hlt : ((es.countP fun a => κ ≤ key a : ℕ) : ℚ) - 1 < rest es quota t := by
    have := le_abs_self ((es.map quota).sum - t)
    linarith
  have : ((es.countP fun a => κ ≤ key a : ℕ) : ℤ) - 1 < rest es quota t := by exact_mod_cast hlt
  omega

theorem rest_le_length (h : |(es.map quota).sum - t| < 1) : rest es quota t ≤ es.length := by
  have hle : (es.map fun a => Int.fract (quota a)).sum ≤ es.length := by
    have := List.sum_le_card_nsmul (es.map fun a => Int.fract (quota a)) 1 fun x hx => by
      obtain ⟨a, -, rfl⟩ := List.mem_map.mp hx
      exact (Int.fract_lt_one _).le
    simpa using this
  have heq := rest_eq es quota t
  have hlt : (rest es quota t : ℚ) < es.length + 1 := by
    have := (abs_lt.mp h).1
    linarith
  have : rest es quota t < es.length + 1 := by exact_mod_cast hlt
  omega

end Rest

/-- When a list is sorted downwards, as many of its first entries as exceed a bound exceed it. -/
theorem lt_of_mem_take {α : Type*} {key : α → ℚ} {δ : ℚ} {l : List α}
    (hsorted : l.Pairwise fun a b => key b ≤ key a) {r : ℕ}
    (hr : r ≤ l.countP fun a => δ < key a) : ∀ a ∈ l.take r, δ < key a := by
  induction l generalizing r with
  | nil => simp
  | cons b l ih =>
    obtain ⟨hb, hsorted⟩ := List.pairwise_cons.mp hsorted
    cases r with
    | zero => simp
    | succ r =>
      have hbδ : δ < key b := by
        by_contra hnot
        have hzero : (b :: l).countP (fun a => δ < key a) = 0 := by
          rw [List.countP_eq_zero]
          intro a ha
          rcases List.mem_cons.mp ha with rfl | ha
          · simpa using hnot
          · simpa using (hb a ha).trans (not_lt.mp hnot)
        omega
      have hr' : r ≤ l.countP fun a => δ < key a := by
        rw [List.countP_cons] at hr
        simp only [hbδ, decide_true, if_true] at hr
        omega
      intro a ha
      rw [List.take_succ_cons] at ha
      rcases List.mem_cons.mp ha with rfl | ha
      · exact hbδ
      · exact ih hsorted hr' a ha

/-- When a list is sorted downwards, what comes after all that reach a bound does not reach it. -/
theorem lt_of_mem_drop {α : Type*} {key : α → ℚ} {κ : ℚ} {l : List α}
    (hsorted : l.Pairwise fun a b => key b ≤ key a) {r : ℕ}
    (hr : (l.countP fun a => κ ≤ key a) ≤ r) : ∀ a ∈ l.drop r, key a < κ := by
  induction l generalizing r with
  | nil => simp
  | cons b l ih =>
    obtain ⟨hb, hsorted⟩ := List.pairwise_cons.mp hsorted
    by_cases hκ : κ ≤ key b
    · rw [List.countP_cons, if_pos (by simpa using hκ)] at hr
      obtain ⟨r, rfl⟩ := Nat.exists_eq_add_of_lt (show 0 < r by omega)
      rw [Nat.zero_add, List.drop_succ_cons]
      exact ih hsorted (by omega)
    · intro a ha
      rcases List.mem_cons.mp (List.mem_of_mem_drop ha) with rfl | ha
      · exact not_le.mp hκ
      · exact (hb a ha).trans_lt (not_le.mp hκ)

end Apportion
