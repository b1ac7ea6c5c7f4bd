import Mathlib.Algebra.Order.BigOperators.Group.List
import StelloKitchens.Finance.ProfitAndLoss
import StelloKitchens.Lib.RoundingError
import StelloKitchens.Shared.Cents

/-!
# The figures of adjoining ranges

The figures of a range of days are the sums of those of its two parts, wherever it is cut. What is
summed up in paise adds up to the paisa; what is rounded once for each range is a paisa off at most.

## Main definitions

* `PnlReads.Moderate` — the sums are far from where doubles skip paise.
* `PnlFigures.Additive` — the figures of a range against those of its parts.
* `PnlFigures.Balanced` — the net profit is what the other figures leave.

## Main results

* `profit_and_loss_additive` — the figures of a range are those of its parts added up.
-/

namespace StelloKitchens.Finance

open SaasBilling

/-! ### Months -/

theorem yearOfDay_mono {d d' : ℤ} (h : d ≤ d') : yearOfDay d ≤ yearOfDay d' := by
  have hle := (yearOfDay_spec d).1
  have hlt := (yearOfDay_spec d').2
  exact Int.lt_add_one_iff.mp (strictMono_dayFromYear.lt_iff_lt.mp ((hle.trans h).trans_lt hlt))

theorem monthOfDay_mono {leap : Bool} {d d' : ℤ} (h : d ≤ d') :
    monthOfDay leap d ≤ monthOfDay leap d' := by
  have hsub : ((List.range 12).filter fun month => daysBefore leap month ≤ d).Sublist
      ((List.range 12).filter fun month => daysBefore leap month ≤ d') :=
    List.monotone_filter_right _ fun month hmonth =>
      decide_eq_true ((of_decide_eq_true hmonth).trans h)
  exact Nat.sub_le_sub_right hsub.length_le 1

/-- Later days are in later months, or in the same one. -/
theorem index_monthOf_mono {d d' : ℤ} (h : d ≤ d') : (monthOf d).index ≤ (monthOf d').index := by
  have hin : (civilOfDay d).month < 12 := (civilOfDay_spec d).1
  show (civilOfDay d).year * 12 + (civilOfDay d).month ≤
    (civilOfDay d').year * 12 + (civilOfDay d').month
  rcases (yearOfDay_mono h).lt_or_eq with hyear | hyear
  · have hlater : (civilOfDay d).year < (civilOfDay d').year := hyear
    omega
  · have hsame : (civilOfDay d).year = (civilOfDay d').year := hyear
    have hmonth : (civilOfDay d).month ≤ (civilOfDay d').month := by
      show monthOfDay (isLeapYear (yearOfDay d)) _ ≤ monthOfDay (isLeapYear (yearOfDay d')) _
      rw [hyear]
      exact monthOfDay_mono (Int.sub_le_sub_right h _)
    omega

namespace Month

variable (m : Month)

theorem days_bounds : 0 < m.days ∧ m.days ≤ 31 := by
  have hall : ∀ leap : Bool, ∀ month < 12, 0 < daysBefore leap (month + 1) - daysBefore leap month ∧
      daysBefore leap (month + 1) - daysBefore leap month ≤ 31 := by
    decide
  exact hall _ _ m.inYear

theorem last_eq : m.last = m.first + m.days - 1 := by
  unfold last first dayOfCivil
  ring

theorem monthOf_eq {d : ℤ} (hfirst : m.first ≤ d) (hlast : d ≤ m.last) : monthOf d = m := by
  have hday : d = dayOfCivil m.year m.month (d - m.first) := by
    unfold first dayOfCivil
    ring
  rw [last_eq] at hlast
  have hdate : d - m.first < daysInMonth m.year m.month := by
    have hdays : daysInMonth m.year m.month = m.days := rfl
    omega
  have hcivil := civilOfDay_dayOfCivil m.inYear (sub_nonneg.mpr hfirst) hdate
  rw [← hday] at hcivil
  unfold monthOf
  simp only [hcivil]

/-- A month with days in the range is one of those that are read. -/
theorem index_le_of_overlap {first last : ℤ} (hrange : first ≤ last)
    (h : 0 < m.overlap first last) :
    (monthOf first).index ≤ m.index ∧ m.index ≤ (monthOf last).index := by
  have hdays := m.days_bounds.1
  have hlast := m.last_eq
  unfold overlap at h
  have hmonth : monthOf (max first m.first) = m := m.monthOf_eq (le_max_right _ _) (by omega)
  rw [← hmonth]
  exact ⟨index_monthOf_mono (le_max_left _ _), index_monthOf_mono (by omega)⟩

/-- The days of a range are those of its parts. -/
theorem overlap_split {first cut last : ℤ} (hfirst : first ≤ cut) (hlast : cut < last) :
    max 0 (m.overlap first last) = max 0 (m.overlap first cut) + max 0 (m.overlap (cut + 1) last) := by
  have hdays := m.days_bounds.1
  have hmonth := m.last_eq
  unfold overlap
  omega

theorem overlap_le (first last : ℤ) : m.overlap first last ≤ m.days := by
  have hlast := m.last_eq
  unfold overlap
  omega

end Month

/-! ### Sums over the rows of a range -/

section Rows

variable {α M : Type} {p p₁ p₂ : α → Bool} {l whole a b : List α}

/-- The rows of a range are those of one of its parts or of the other. -/
def Split (p p₁ p₂ : α → Bool) : Prop :=
  ∀ x, p x = (p₁ x || p₂ x) ∧ (p₁ x = true → p₂ x = false)

theorem Split.sum_filter [AddCommMonoid M] (h : Split p p₁ p₂) (q : α → Bool) (f : α → M) :
    (((l.filter p).filter q).map f).sum =
      (((l.filter p₁).filter q).map f).sum + (((l.filter p₂).filter q).map f).sum := by
  simp only [List.filter_filter]
  induction l with
  | nil => simp
  | cons x l ih =>
    obtain ⟨hx, hnot⟩ := h x
    cases h₁ : p₁ x with
    | true =>
      have h₂ := hnot h₁
      cases hq : q x <;> simp [hx, h₁, h₂, hq, ih, add_assoc]
    | false =>
      cases h₂ : p₂ x with
      | true => cases hq : q x <;> simp [hx, h₁, h₂, hq, ih, add_left_comm]
      | false => simp [hx, h₁, h₂, ih]

/-- Sums over what is read, in whatever order. -/
theorem Split.sum_reads_filter [AddCommMonoid M] (h : Split p p₁ p₂) (hwhole : whole.Perm (l.filter p))
    (ha : a.Perm (l.filter p₁)) (hb : b.Perm (l.filter p₂)) (q : α → Bool) (f : α → M) :
    ((whole.filter q).map f).sum = ((a.filter q).map f).sum + ((b.filter q).map f).sum := by
  rw [((hwhole.filter q).map f).sum_eq, ((ha.filter q).map f).sum_eq, ((hb.filter q).map f).sum_eq]
  exact h.sum_filter q f

theorem Split.sum_reads [AddCommMonoid M] (h : Split p p₁ p₂) (hwhole : whole.Perm (l.filter p))
    (ha : a.Perm (l.filter p₁)) (hb : b.Perm (l.filter p₂)) (f : α → M) :
    (whole.map f).sum = (a.map f).sum + (b.map f).sum := by
  simpa only [List.filter_true] using h.sum_reads_filter hwhole ha hb (fun _ => true) f

theorem subperm_reads (h : ∀ x, p₁ x = true → p x = true) (hwhole : whole.Perm (l.filter p))
    (ha : a.Perm (l.filter p₁)) : a.Subperm whole :=
  ha.subperm.trans ((List.monotone_filter_right l h).subperm.trans hwhole.symm.subperm)

theorem sum_le_of_subperm [AddCommMonoid M] [PartialOrder M] [IsOrderedAddMonoid M] {f : α → M}
    (hf : ∀ x, 0 ≤ f x) (h : a.Subperm whole) : (a.map f).sum ≤ (whole.map f).sum := by
  obtain ⟨l', hperm, hsub⟩ := h
  rw [← (hperm.map f).sum_eq]
  refine (hsub.map f).sum_le_sum fun y hy => ?_
  obtain ⟨x, -, rfl⟩ := List.mem_map.mp hy
  exact hf x

end Rows

/-! ### Amounts of whole paise -/

/-- The figure is a number of paise, small enough to be shown to the paisa. -/
def Shows (x : Binary64) (k : ℤ) : Prop := x = .ofRat (k / 10 ^ 2) ∧ |k| ≤ 2 ^ 50

theorem Shows.shortest {x : Binary64} {k : ℤ} (h : Shows x k) : x.shortest = k / 10 ^ 2 := by
  rw [h.1, Binary64.shortest_ofRat (by norm_num) h.2]

theorem shows_fromPaise {x : Binary64} {k : ℤ} (hx : x.val = k) (hk : |k| ≤ 2 ^ 50) :
    Shows (fromPaise x) k :=
  ⟨fromPaise_eq_ofRat hx, hk⟩

theorem val_toPaise_sumOf {l : List ℤ} (h : |l.sum| ≤ 2 ^ 50) : (toPaise (sumOf l)).val = l.sum :=
  val_toPaise_ofRat h

/-! ### Sums of doubles -/

theorem growth_le {m : ℕ} (hm : m ≤ 2 ^ 52) :
    Binary64.growth m ≤ 2 * m * Binary64.unitRoundoff := by
  have hu := Binary64.unitRoundoff_pos
  induction m with
  | zero => simp [Binary64.growth]
  | succ m ih =>
    have hprev := ih ((Nat.le_succ m).trans hm)
    have hmq : (m : ℚ) ≤ 2 ^ 52 := by exact_mod_cast (Nat.le_succ m).trans hm
    have hsmall : 2 * m * Binary64.unitRoundoff ≤ 1 := by
      unfold Binary64.unitRoundoff
      linarith
    have hstep := mul_le_mul_of_nonneg_right hprev hu.le
    have hextra := mul_le_mul_of_nonneg_right hsmall hu.le
    rw [Binary64.growth_succ]
    push_cast
    linarith

/-- A figure that is rounded once shows a sum to within half a paisa and what the additions lose. -/
structure Rounded (x : Binary64) (k : ℤ) (exact : ℚ) : Prop where
  val_toPaise : (toPaise (r2 x)).val = k
  size_le : |k| ≤ 2 ^ 47
  near : |k - exact * 100| ≤ 5 / 8

/-- The additions of few enough doubles lose little. -/
theorem rounded_of_approx {m : ℕ} {w a : ℚ} {x : Binary64} (h : Binary64.Approx m w x a)
    (hsize : (m + 1) * (w * 100 + 1) ≤ 2 ^ 49)
    (hsmall : w * 100 + 1 ≤ 2 ^ 47) : ∃ k : ℤ, Rounded x k a := by
  have hw : 0 ≤ w := h.weight_nonneg
  have hm0 : (0 : ℚ) ≤ m := Nat.cast_nonneg m
  have hmw : 0 ≤ m * (w * 100) := by positivity
  have hmul := h.mul 100
  rw [val_hundred, abs_of_pos (by norm_num : (0 : ℚ) < 100)] at hmul
  have hm : m + 1 ≤ 2 ^ 52 := by
    have hmq : ((m + 1 : ℕ) : ℚ) ≤ (2 ^ 52 : ℕ) := by
      push_cast
      linarith
    exact_mod_cast hmq
  have herror : |(x * 100).val - a * 100| ≤ 1 / 8 := by
    have hgrowth := mul_le_mul_of_nonneg_right (growth_le hm) (by positivity : 0 ≤ w * 100)
    refine hmul.error.trans (hgrowth.trans ?_)
    unfold Binary64.unitRoundoff
    push_cast
    linarith
  have hval := abs_le.mp herror
  have hasize := abs_le.mp hmul.size
  set k : ℤ := ⌊(x * 100).val + 1 / 2⌋ with hk
  have hle := Int.floor_le ((x * 100).val + 1 / 2)
  have hlt := Int.lt_floor_add_one ((x * 100).val + 1 / 2)
  rw [← hk] at hle hlt
  have hbound : |k| ≤ 2 ^ 47 := by
    have hup : (k : ℚ) ≤ (2 ^ 47 : ℤ) := by
      push_cast
      linarith
    have hlo : ((-2 ^ 47 : ℤ) : ℚ) ≤ k := by
      push_cast
      linarith
    exact abs_le.mpr ⟨by exact_mod_cast hlo, by exact_mod_cast hup⟩
  have hround : (x * 100).nearestInt.val = k :=
    Binary64.val_ofRat_intCast (hbound.trans (by norm_num))
  have hr2 : r2 x = fromPaise (x * 100).nearestInt := by rw [fromPaise_of_int hround, r2]
  refine ⟨k, ?_, hbound, abs_le.mpr ⟨by linarith, by linarith⟩⟩
  rw [hr2, toPaise_fromPaise hround (hbound.trans (by norm_num)), hround]

/-- Where the sums add up, what is shown of them is off by one at most. -/
theorem Rounded.add_up {x y z : Binary64} {k i j : ℤ} {a b c : ℚ} (hk : Rounded x k a)
    (hi : Rounded y i b) (hj : Rounded z j c) (hsum : a = b + c) : |k - (i + j)| ≤ 1 := by
  have hk' := abs_le.mp hk.near
  have hi' := abs_le.mp hi.near
  have hj' := abs_le.mp hj.near
  have hlt : |((k - (i + j) : ℤ) : ℚ)| < (2 : ℤ) := by
    rw [abs_lt]
    push_cast
    constructor <;> linarith
  have hint : |k - (i + j)| < 2 := by exact_mod_cast hlt
  exact Int.lt_add_one_iff.mp hint

/-! ### Expenses -/

/-- What an expense costs, in paise. -/
def ExpenseRow.paise (e : ExpenseRow) : ℤ :=
  if e.itcEligible then e.taxableAmount.scaled
  else e.taxableAmount.scaled + e.cgst.scaled + e.sgst.scaled + e.igst.scaled

theorem ExpenseRow.val_toPaise_cost (e : ExpenseRow) : (toPaise e.cost).val = e.paise := by
  have hcolumn (d : Decimal 12 2) : (toPaise d.toNumber).val = d.scaled :=
    val_toPaise_of_column (by norm_num) d
  have hlt (d : Decimal 12 2) : |d.scaled| < 10 ^ 12 := d.bound
  unfold cost paise
  split
  · exact hcolumn _
  · obtain ⟨h₁, h₁'⟩ := abs_lt.mp (hlt e.taxableAmount)
    obtain ⟨h₂, h₂'⟩ := abs_lt.mp (hlt e.cgst)
    obtain ⟨h₃, h₃'⟩ := abs_lt.mp (hlt e.sgst)
    obtain ⟨h₄, h₄'⟩ := abs_lt.mp (hlt e.igst)
    have htwo := Binary64.val_add_intCast (hcolumn e.taxableAmount) (hcolumn e.cgst)
      (abs_le.mpr ⟨by omega, by omega⟩)
    have hthree := Binary64.val_add_intCast htwo (hcolumn e.sgst) (abs_le.mpr ⟨by omega, by omega⟩)
    have hfour := Binary64.val_add_intCast hthree (hcolumn e.igst) (abs_le.mpr ⟨by omega, by omega⟩)
    rw [toPaise_fromPaise hfour (abs_le.mpr ⟨by omega, by omega⟩), hfour]

/-- The paise spent in a category. -/
def spent (expenses : List ExpenseRow) (category : String) : ℤ :=
  ((expenses.filter fun e => e.category = category).map (·.paise)).sum

theorem abs_sum_le {α : Type} (l : List α) (f : α → ℤ) :
    |(l.map f).sum| ≤ (l.map fun x => |f x|).sum := by
  induction l with
  | nil => simp
  | cons x l ih =>
    rw [List.map_cons, List.map_cons, List.sum_cons, List.sum_cons]
    exact (abs_add_le _ _).trans (Int.add_le_add_left ih _)

section Expenses

variable {expenses : List ExpenseRow}

/-- The expenses as they are handed to `buildPnl`. -/
def listed (expenses : List ExpenseRow) : List CategoryExpense :=
  expenses.map fun e => ⟨e.category, e.cost⟩

theorem sum_abs_filter_le (category : String) :
    ((expenses.filter fun e => e.category = category).map fun e => |e.paise|).sum ≤
      (expenses.map fun e => |e.paise|).sum := by
  exact sum_le_of_subperm (fun e => abs_nonneg _) List.filter_sublist.subperm

theorem val_byCat (hsize : (expenses.map fun e => |e.paise|).sum ≤ 2 ^ 47) (category : String) :
    ((Grouping.value (byCat (listed expenses)) category).getD 0).val = spent expenses category := by
  rw [byCat, Grouping.getD_value_group, listed, List.filter_map, List.foldl_map]
  exact Binary64.val_foldl_add_intCast (fun e : ExpenseRow => toPaise e.cost) ExpenseRow.paise _
    (fun e _ => e.val_toPaise_cost) ((sum_abs_filter_le category).trans (hsize.trans (by norm_num)))

theorem find?_sorted (hsize : (expenses.map fun e => |e.paise|).sum ≤ 2 ^ 47) (category : String)
    {sorted : List CategoryExpense}
    (hsorted : sorted.Perm ((byCat (listed expenses)).rows.map fun g => ⟨g.1, fromPaise g.2⟩)) :
    Shows (((sorted.find? fun e => e.category = category).map (·.amount)).getD 0)
      (spent expenses category) := by
  have hval := val_byCat hsize category
  have hbound : |spent expenses category| ≤ 2 ^ 50 :=
    (abs_sum_le _ _).trans ((sum_abs_filter_le category).trans (hsize.trans (by norm_num)))
  have hmem {e : CategoryExpense} (he : e ∈ sorted) :
      ∃ g ∈ byCat (listed expenses), e = ⟨g.1, fromPaise g.2⟩ := by
    obtain ⟨g, hg, rfl⟩ := List.mem_map.mp (hsorted.mem_iff.mp he)
    exact ⟨g, hg, rfl⟩
  cases hfind : sorted.find? fun e => e.category = category with
  | some e =>
    obtain ⟨g, hg, rfl⟩ := hmem (List.mem_of_find?_eq_some hfind)
    have hkey : g.1 = category := by simpa using List.find?_some hfind
    have hvalue : Grouping.value (byCat (listed expenses)) category = some g.2 := by
      rw [← hkey]
      exact congrArg (Option.map Prod.snd) (KeyedTable.find?_of_mem hg)
    rw [hvalue] at hval
    exact shows_fromPaise hval hbound
  | none =>
    have hvalue : Grouping.value (byCat (listed expenses)) category = none := by
      refine Option.map_eq_none_iff.mpr (KeyedTable.find?_eq_none.mpr fun g hg hkey => ?_)
      have hin : (⟨g.1, fromPaise g.2⟩ : CategoryExpense) ∈ sorted :=
        hsorted.mem_iff.mpr (List.mem_map.mpr ⟨g, hg, rfl⟩)
      exact List.find?_eq_none.mp hfind _ hin (by simpa using hkey)
    rw [hvalue] at hval
    refine ⟨?_, hbound⟩
    have hzero : spent expenses category = 0 := by
      have hcast : (0 : ℚ) = spent expenses category := by simpa using hval
      exact_mod_cast hcast.symm
    rw [hzero]
    apply Binary64.ext
    simp [Binary64.val_ofRat]

/-- All that was spent, in paise. -/
theorem val_total (hsize : (expenses.map fun e => |e.paise|).sum ≤ 2 ^ 47) :
    ((byCat (listed expenses)).rows.foldl (fun s g => s + g.2) (0 : Binary64)).val =
      ((expenses.map (·.paise)).sum : ℤ) := by
  have hgroups {N : Type} [AddCommMonoid N] (f : ExpenseRow → N) :
      ((byCat (listed expenses)).rows.map fun g =>
        ((expenses.filter fun e => e.category = g.1).map f).sum).sum = (expenses.map f).sum := by
    have hsame : byCat (listed expenses) =
        Grouping.group ExpenseRow.category 0 (fun paise e => paise + toPaise e.cost) expenses := by
      rw [byCat, Grouping.group, listed, List.foldl_map]
      rfl
    rw [hsame]
    exact Grouping.sum_groups f expenses
  have hvalues : ∀ g ∈ (byCat (listed expenses)).rows, g.2.val = spent expenses g.1 := by
    intro g hg
    have hvalue : Grouping.value (byCat (listed expenses)) g.1 = some g.2 :=
      congrArg (Option.map Prod.snd) (KeyedTable.find?_of_mem hg)
    have hval := val_byCat hsize g.1
    rwa [hvalue] at hval
  have hle : ((byCat (listed expenses)).rows.map fun g => |spent expenses g.1|).sum ≤
      (expenses.map fun e => |e.paise|).sum := by
    rw [← hgroups fun e => |e.paise|]
    exact List.sum_le_sum fun g _ => abs_sum_le _ _
  rw [Binary64.val_foldl_add_intCast (fun g : String × Binary64 => g.2) (fun g => spent expenses g.1) _
    hvalues (hle.trans (hsize.trans (by norm_num)))]
  exact congrArg Int.cast (hgroups ExpenseRow.paise)

end Expenses

/-! ### What is rounded once -/

/-- The part of a payroll that falls in the range. -/
def PayrollRun.part (x : PayrollRun) (first last : ℤ) : ℚ :=
  x.cost.val * max 0 (x.month.overlap first last) / x.month.days

/-- The sums are far from where doubles skip paise. -/
structure PnlReads.Moderate (r : PnlReads) : Prop where
  sales : (r.sales.map fun o =>
    |o.subtotal.scaled| + |o.discountAmount.scaled| + |o.taxAmount.scaled|).sum ≤ 2 ^ 47
  refunds : (r.refunds.length + 4) * ((r.refunds.map fun x => |x.net.val|).sum * 100 + 1) ≤ 2 ^ 49
  movements :
    (r.movements.length + 4) * ((r.movements.map fun x => |x.cost.val|).sum * 100 + 1) ≤ 2 ^ 49
  expenses : (r.expenses.map fun e => |e.paise|).sum ≤ 2 ^ 47
  payroll : (r.runs.length + 4) * ((r.runs.map fun x => |x.cost.val|).sum * 100 + 1) ≤ 2 ^ 49

/-- Fewer rows of less weight are within the limit as well. -/
theorem limit_mono {m n : ℕ} {v w : ℚ} (hmn : m ≤ n) (hv : 0 ≤ v) (hvw : v ≤ w)
    (h : (n + 4) * (w * 100 + 1) ≤ (2 : ℚ) ^ 49) : (m + 4) * (v * 100 + 1) ≤ (2 : ℚ) ^ 49 := by
  have hcast : (m : ℚ) ≤ n := by exact_mod_cast hmn
  exact le_trans (mul_le_mul (by linarith) (by linarith) (by linarith) (by positivity)) h

theorem sum_map_nonneg {α : Type} {l : List α} {f : α → ℚ} (hf : ∀ x, 0 ≤ f x) : 0 ≤ (l.map f).sum :=
  List.sum_nonneg fun y hy => by
    obtain ⟨x, -, rfl⟩ := List.mem_map.mp hy
    exact hf x

/-- A sum over some of the rows that are within the limit. -/
theorem rounded_rows {α : Type} {f : α → Binary64} {exact weight : α → ℚ} {l l' : List α}
    (hsub : l'.Sublist l) (happrox : ∀ x ∈ l', Binary64.Approx 2 |exact x| (f x) (exact x))
    (hle : ∀ x, |exact x| ≤ weight x)
    (hlimit : (l.length + 4) * ((l.map weight).sum * 100 + 1) ≤ (2 : ℚ) ^ 49) :
    ∃ k : ℤ, Rounded (l'.foldl (fun s x => s + f x) 0) k (l'.map exact).sum := by
  have hweight : ∀ x, 0 ≤ weight x := fun x => (abs_nonneg _).trans (hle x)
  have hsum : (l'.map fun x => |exact x|).sum ≤ (l.map weight).sum :=
    (List.sum_le_sum fun x _ => hle x).trans (sum_le_of_subperm hweight hsub.subperm)
  have hnonneg : 0 ≤ (l'.map fun x => |exact x|).sum := sum_map_nonneg fun x => abs_nonneg _
  have hlimit' := limit_mono hsub.length_le hnonneg hsum hlimit
  have hlength : 0 ≤ l'.length * ((l'.map fun x => |exact x|).sum * 100 + 1) := by positivity
  refine rounded_of_approx (Binary64.approx_foldl_add f exact l' happrox) (le_trans ?_ hlimit')
    (by linarith)
  exact mul_le_mul_of_nonneg_right (by push_cast; linarith) (by linarith)

namespace PnlReads

variable {r : PnlReads}

theorem rounded_refunds (h : r.Moderate) :
    ∃ k : ℤ, Rounded r.refundsNet k (r.refunds.map fun x => x.net.val).sum :=
  rounded_rows (List.Sublist.refl _) (fun x _ => (Binary64.approx_self x.net).mono (by omega))
    (fun _ => le_rfl) h.refunds

theorem costs_eq : r.costs =
    ((r.movements.filter (·.type = .consumption)).foldl (fun s x => s + x.cost) 0,
      (r.movements.filter (·.type ≠ .consumption)).foldl (fun s x => s + x.cost) 0) := by
  have hfrom : ∀ (l : List MovementRow) (s : Binary64 × Binary64), l.foldl (fun s m =>
      if m.type = .consumption then (s.1 + m.cost, s.2) else (s.1, s.2 + m.cost)) s =
      ((l.filter (·.type = .consumption)).foldl (fun s x => s + x.cost) s.1,
        (l.filter (·.type ≠ .consumption)).foldl (fun s x => s + x.cost) s.2) := by
    intro l
    induction l with
    | nil => exact fun s => rfl
    | cons m l ih =>
      intro s
      rw [List.foldl_cons, ih]
      by_cases hm : m.type = .consumption <;> simp [hm]
  exact hfrom r.movements (0, 0)

theorem rounded_cogs (h : r.Moderate) : ∃ k : ℤ, Rounded r.costs.1 k
    ((r.movements.filter (·.type = .consumption)).map fun x => x.cost.val).sum := by
  rw [costs_eq]
  exact rounded_rows List.filter_sublist (fun x _ => (Binary64.approx_self x.cost).mono (by omega))
    (fun _ => le_rfl) h.movements

theorem rounded_wastage (h : r.Moderate) : ∃ k : ℤ, Rounded r.costs.2 k
    ((r.movements.filter (·.type ≠ .consumption)).map fun x => x.cost.val).sum := by
  rw [costs_eq]
  exact rounded_rows List.filter_sublist (fun x _ => (Binary64.approx_self x.cost).mono (by omega))
    (fun _ => le_rfl) h.movements

variable {first last : ℤ}

theorem payroll_eq : r.payroll first last =
    (r.runs.filter fun x => 0 < x.month.overlap first last).foldl
      (fun sum x => sum + x.share first last) 0 := by
  have hfrom : ∀ (l : List PayrollRun) (s : Binary64),
      l.foldl (fun sum x => if x.month.overlap first last ≤ 0 then sum else sum + x.share first last) s =
        (l.filter fun x => 0 < x.month.overlap first last).foldl
          (fun sum x => sum + x.share first last) s := by
    intro l
    induction l with
    | nil => exact fun s => rfl
    | cons x l ih =>
      intro s
      rw [List.foldl_cons, ih]
      by_cases hx : 0 < x.month.overlap first last
      · simp [hx, not_le.mpr hx]
      · simp [hx, not_lt.mp hx]
  exact hfrom r.runs 0

theorem sum_part : ((r.runs.filter fun x => 0 < x.month.overlap first last).map
    fun x => x.part first last).sum = (r.runs.map fun x => x.part first last).sum := by
  induction r.runs with
  | nil => rfl
  | cons x l ih =>
    by_cases hx : 0 < x.month.overlap first last
    · simp [hx, ih]
    · have hzero : x.part first last = 0 := by
        rw [PayrollRun.part, max_eq_left (not_lt.mp hx)]
        simp
      simp [hx, ih, hzero]

theorem rounded_payroll (h : r.Moderate) : ∃ k : ℤ, Rounded (r.payroll first last) k
    (r.runs.map fun x => x.part first last).sum := by
  rw [payroll_eq, ← sum_part]
  refine rounded_rows List.filter_sublist (fun x hx => ?_) (fun x => ?_) h.payroll
  · obtain ⟨hdays, hle⟩ := x.month.days_bounds
    have hmost := x.month.overlap_le first last
    have hpos : 0 < x.month.overlap first last := of_decide_eq_true (List.mem_filter.mp hx).2
    have hoverlap : (Binary64.ofRat (x.month.overlap first last)).val = x.month.overlap first last :=
      Binary64.val_ofRat_intCast (abs_le.mpr ⟨by omega, by omega⟩)
    have hmonth : (Binary64.ofRat x.month.days).val = x.month.days :=
      Binary64.val_ofRat_intCast (abs_le.mpr ⟨by omega, by omega⟩)
    have hshare := ((Binary64.approx_self x.cost).mul (.ofRat (x.month.overlap first last))).div
      (.ofRat x.month.days)
    rw [hoverlap, hmonth, ← abs_mul, ← abs_div] at hshare
    rw [PayrollRun.part, max_eq_right hpos.le]
    exact hshare
  · obtain ⟨hdays, -⟩ := x.month.days_bounds
    have hdaysq : (0 : ℚ) < x.month.days := by exact_mod_cast hdays
    have hmost : ((max 0 (x.month.overlap first last) : ℤ) : ℚ) ≤ x.month.days := by
      exact_mod_cast max_le hdays.le (x.month.overlap_le first last)
    have hleast : (0 : ℚ) ≤ ((max 0 (x.month.overlap first last) : ℤ) : ℚ) := by
      exact_mod_cast le_max_left _ _
    rw [PayrollRun.part, abs_div, abs_mul, abs_of_pos hdaysq, div_le_iff₀ hdaysq]
    refine mul_le_mul_of_nonneg_left ?_ (abs_nonneg _)
    rw [abs_of_nonneg (by exact_mod_cast hleast)]
    exact_mod_cast hmost

/-- The figures in paise: `R`, `C`, `W` and `Y` are what is rounded once. -/
structure Shown (r : PnlReads) (f : PnlFigures) (R C W Y : ℤ) : Prop where
  grossSales : Shows f.grossSales (r.sales.map (·.subtotal.scaled)).sum
  discounts : Shows f.discounts (r.sales.map (·.discountAmount.scaled)).sum
  taxCollected : Shows f.taxCollected (r.sales.map (·.taxAmount.scaled)).sum
  expense (category : String) : Shows (f.expense category) (spent r.expenses category)
  totalExpenses : Shows f.totalExpenses (r.expenses.map (·.paise)).sum
  refunds : Shows f.refunds R
  cogs : Shows f.cogs C
  wastage : Shows f.wastage W
  payroll : Shows f.payroll Y
  netSales : Shows f.netSales
    ((r.sales.map (·.subtotal.scaled)).sum - (r.sales.map (·.discountAmount.scaled)).sum - R)
  netProfit : Shows f.netProfit
    ((r.sales.map (·.subtotal.scaled)).sum - (r.sales.map (·.discountAmount.scaled)).sum - R - C - W -
      (r.expenses.map (·.paise)).sum - Y)

theorem sums_le (h : r.Moderate) :
    |(r.sales.map (·.subtotal.scaled)).sum| + |(r.sales.map (·.discountAmount.scaled)).sum| +
      |(r.sales.map (·.taxAmount.scaled)).sum| ≤ 2 ^ 47 := by
  have hsales := h.sales
  rw [List.sum_map_add, List.sum_map_add] at hsales
  have h₁ := abs_sum_le r.sales (·.subtotal.scaled)
  have h₂ := abs_sum_le r.sales (·.discountAmount.scaled)
  have h₃ := abs_sum_le r.sales (·.taxAmount.scaled)
  linarith

theorem figures_shown (h : r.Moderate) {R C W Y : ℤ} {a b c d : ℚ} (hR : Rounded r.refundsNet R a)
    (hC : Rounded r.costs.1 C b) (hW : Rounded r.costs.2 W c)
    (hY : Rounded (r.payroll first last) Y d) : Shown r (r.figures first last) R C W Y := by
  have hsums := sums_le h
  have htotal : |(r.expenses.map (·.paise)).sum| ≤ 2 ^ 47 := (abs_sum_le _ _).trans h.expenses
  set G := (r.sales.map (·.subtotal.scaled)).sum
  set D := (r.sales.map (·.discountAmount.scaled)).sum
  set T := (r.sales.map (·.taxAmount.scaled)).sum
  set E := (r.expenses.map (·.paise)).sum
  obtain ⟨hR₁, hR₂⟩ := abs_le.mp hR.size_le
  obtain ⟨hC₁, hC₂⟩ := abs_le.mp hC.size_le
  obtain ⟨hW₁, hW₂⟩ := abs_le.mp hW.size_le
  obtain ⟨hY₁, hY₂⟩ := abs_le.mp hY.size_le
  obtain ⟨hE₁, hE₂⟩ := abs_le.mp htotal
  have hG50 : |G| ≤ 2 ^ 50 := by linarith [abs_nonneg D, abs_nonneg T]
  have hD50 : |D| ≤ 2 ^ 50 := by linarith [abs_nonneg G, abs_nonneg T]
  have hT50 : |T| ≤ 2 ^ 50 := by linarith [abs_nonneg D, abs_nonneg G]
  have hGD : |G - D| ≤ 2 ^ 47 := by linarith [abs_sub G D, abs_nonneg T]
  obtain ⟨hGD₁, hGD₂⟩ := abs_le.mp hGD
  have hgross := val_toPaise_sumOf hG50
  have hdiscounts := val_toPaise_sumOf hD50
  have hE := val_total h.expenses
  -- each difference is of whole paise, far below what a double holds
  have hdiscounted := Binary64.val_sub_intCast hgross hdiscounts (abs_le.mpr ⟨by omega, by omega⟩)
  have hnet := Binary64.val_sub_intCast hdiscounted hR.val_toPaise (abs_le.mpr ⟨by omega, by omega⟩)
  have hused := Binary64.val_sub_intCast hnet hC.val_toPaise (abs_le.mpr ⟨by omega, by omega⟩)
  have hlost := Binary64.val_sub_intCast hused hW.val_toPaise (abs_le.mpr ⟨by omega, by omega⟩)
  have hspent := Binary64.val_sub_intCast hlost hE (abs_le.mpr ⟨by omega, by omega⟩)
  have hprofit := Binary64.val_sub_intCast hspent hY.val_toPaise (abs_le.mpr ⟨by omega, by omega⟩)
  constructor
  case grossSales => exact shows_fromPaise hgross hG50
  case discounts => exact shows_fromPaise hdiscounts hD50
  case taxCollected => exact shows_fromPaise (val_toPaise_sumOf hT50) hT50
  case expense => exact fun category => find?_sorted h.expenses category (List.mergeSort_perm _ _)
  case totalExpenses => exact shows_fromPaise hE (htotal.trans (by norm_num))
  case refunds => exact shows_fromPaise hR.val_toPaise (hR.size_le.trans (by norm_num))
  case cogs => exact shows_fromPaise hC.val_toPaise (hC.size_le.trans (by norm_num))
  case wastage => exact shows_fromPaise hW.val_toPaise (hW.size_le.trans (by norm_num))
  case payroll => exact shows_fromPaise hY.val_toPaise (hY.size_le.trans (by norm_num))
  case netSales => exact shows_fromPaise hnet (abs_le.mpr ⟨by omega, by omega⟩)
  case netProfit => exact shows_fromPaise hprofit (abs_le.mpr ⟨by omega, by omega⟩)

end PnlReads

/-! ### The parts of a range -/

theorem istRange_split {first cut last : ℤ} (hfirst : first ≤ cut) (hlast : cut < last) (t : Time) :
    istRange first last t = (istRange first cut t || istRange (cut + 1) last t) ∧
      (istRange first cut t = true → istRange (cut + 1) last t = false) := by
  have h₁ : istAt first ≤ istAt (cut + 1) :=
    Int.sub_le_sub_right (mul_le_mul_of_nonneg_right (by omega) (by decide)) _
  have h₂ : istAt (cut + 1) ≤ istAt (last + 1) :=
    Int.sub_le_sub_right (mul_le_mul_of_nonneg_right (by omega) (by decide)) _
  unfold istRange
  rw [← Bool.decide_or, decide_eq_decide, decide_eq_true_eq, decide_eq_false_iff_not]
  refine ⟨⟨fun ⟨hle, hlt⟩ => ?_, ?_⟩, fun ⟨hle, hlt⟩ hin => ?_⟩
  · rcases lt_or_ge t (istAt (cut + 1)) with h | h
    · exact .inl ⟨hle, h⟩
    · exact .inr ⟨h, hlt⟩
  · rintro (⟨hle, hlt⟩ | ⟨hle, hlt⟩)
    · exact ⟨hle, lt_of_lt_of_le hlt h₂⟩
    · exact ⟨le_trans h₁ hle, hlt⟩
  · exact absurd hin.1 (not_le.mpr hlt)

section Parts

variable {first cut last : ℤ}

/-- The rows of some kind that fall in the range. -/
theorem split_and {α : Type} {kind : α → Bool} {createdAt : α → Time} (hfirst : first ≤ cut)
    (hlast : cut < last) :
    Split (fun x => kind x && istRange first last (createdAt x))
      (fun x => kind x && istRange first cut (createdAt x))
      (fun x => kind x && istRange (cut + 1) last (createdAt x)) := by
  intro x
  obtain ⟨hsplit, hnot⟩ := istRange_split hfirst hlast (createdAt x)
  dsimp only
  rw [hsplit, Bool.and_or_distrib_left]
  refine ⟨rfl, fun h => ?_⟩
  rw [hnot (Bool.and_eq_true_iff.mp h).2, Bool.and_false]

theorem Split.imp {α : Type} {p p₁ p₂ : α → Bool} (h : Split p p₁ p₂) (x : α) :
    (p₁ x = true → p x = true) ∧ (p₂ x = true → p x = true) := by
  rw [(h x).1]
  exact ⟨fun h₁ => by rw [h₁, Bool.true_or], fun h₂ => by rw [h₂, Bool.or_true]⟩

theorem ExpenseRow.split (hfirst : first ≤ cut) (hlast : cut < last) :
    Split (ExpenseRow.counts first last) (ExpenseRow.counts first cut)
      (ExpenseRow.counts (cut + 1) last) := by
  intro e
  unfold counts
  cases e.voided with
  | true => exact ⟨rfl, fun h => rfl⟩
  | false =>
    rw [Bool.not_false, Bool.true_and, Bool.true_and, Bool.true_and, ← Bool.decide_or,
      decide_eq_decide, decide_eq_true_eq, decide_eq_false_iff_not]
    constructor <;> omega

/-- The months of a part are among those of the range. -/
theorem PayrollRun.counts_imp {first' last' : ℤ} (hfirst : first ≤ first') (hlast : last' ≤ last)
    (x : PayrollRun) (h : x.counts first' last' = true) : x.counts first last = true := by
  unfold counts at h ⊢
  rw [Bool.and_eq_true, decide_eq_true_eq] at h ⊢
  exact ⟨h.1, (index_monthOf_mono hfirst).trans h.2.1, h.2.2.trans (index_monthOf_mono hlast)⟩

/-- A month that is not read has no day in the range. -/
theorem sum_part_reads {runs : List PayrollRun} (hrange : first ≤ last) :
    ((runs.filter (·.counts first last)).map fun x => x.part first last).sum =
      ((runs.filter (·.finalised)).map fun x => x.part first last).sum := by
  induction runs with
  | nil => rfl
  | cons x runs ih =>
    cases hfinal : x.finalised with
    | false =>
      have hnot : x.counts first last = false := by rw [PayrollRun.counts, hfinal, Bool.false_and]
      simp [hfinal, hnot, ih]
    | true =>
      cases hcounts : x.counts first last with
      | true => simp [hfinal, hcounts, ih]
      | false =>
        have hnone : x.month.overlap first last ≤ 0 := by
          by_contra hsome
          have hmonths := x.month.index_le_of_overlap hrange (not_le.mp hsome)
          rw [PayrollRun.counts, hfinal, Bool.true_and] at hcounts
          exact of_decide_eq_false hcounts hmonths
        have hzero : x.part first last = 0 := by
          rw [PayrollRun.part, max_eq_left hnone]
          simp
        simp [hfinal, hcounts, ih, hzero]

theorem PayrollRun.part_split (hfirst : first ≤ cut) (hlast : cut < last) (x : PayrollRun) :
    x.part first last = x.part first cut + x.part (cut + 1) last := by
  unfold part
  rw [x.month.overlap_split hfirst hlast]
  push_cast
  ring

variable {db : FinanceDb} {whole part : PnlReads}

/-- What is read for a part is read for the range. -/
theorem PnlReads.Moderate.of_part {first' last' : ℤ} (h : whole.Moderate)
    (hwhole : db.Reads first last whole) (hpart : db.Reads first' last' part)
    (hsales : ∀ x, SaleRow.counts first' last' x = true → SaleRow.counts first last x = true)
    (hrefunds : ∀ x, RefundRow.counts first' last' x = true → RefundRow.counts first last x = true)
    (hmovements : ∀ x, MovementRow.counts first' last' x = true →
      MovementRow.counts first last x = true)
    (hexpenses : ∀ x, ExpenseRow.counts first' last' x = true → ExpenseRow.counts first last x = true)
    (hruns : ∀ x, PayrollRun.counts first' last' x = true → PayrollRun.counts first last x = true) :
    part.Moderate := by
  have hsub₁ := subperm_reads hsales hwhole.sales hpart.sales
  have hsub₂ := subperm_reads hrefunds hwhole.refunds hpart.refunds
  have hsub₃ := subperm_reads hmovements hwhole.movements hpart.movements
  have hsub₄ := subperm_reads hexpenses hwhole.expenses hpart.expenses
  have hsub₅ := subperm_reads hruns hwhole.runs hpart.runs
  exact {
    sales := (sum_le_of_subperm (fun o => by positivity) hsub₁).trans h.sales
    refunds := limit_mono hsub₂.length_le (sum_map_nonneg fun _ => abs_nonneg _)
      (sum_le_of_subperm (fun _ => abs_nonneg _) hsub₂) h.refunds
    movements := limit_mono hsub₃.length_le (sum_map_nonneg fun _ => abs_nonneg _)
      (sum_le_of_subperm (fun _ => abs_nonneg _) hsub₃) h.movements
    expenses := (sum_le_of_subperm (fun _ => abs_nonneg _) hsub₄).trans h.expenses
    payroll := limit_mono hsub₅.length_le (sum_map_nonneg fun _ => abs_nonneg _)
      (sum_le_of_subperm (fun _ => abs_nonneg _) hsub₅) h.payroll }

/-- The payroll of a range, whatever months are read for it. -/
theorem sum_runs (hreads : db.Reads first last whole) (hrange : first ≤ last) :
    (whole.runs.map fun x => x.part first last).sum =
      ((db.runs.filter (·.finalised)).map fun x => x.part first last).sum := by
  rw [(hreads.runs.map fun x => x.part first last).sum_eq, sum_part_reads hrange]

end Parts

/-! ### What is shown of a range and its parts -/

/-- The figures of a range against those of its two parts, as they are shown. -/
structure PnlFigures.Additive (whole a b : PnlFigures) : Prop where
  grossSales : whole.grossSales.shortest = a.grossSales.shortest + b.grossSales.shortest
  discounts : whole.discounts.shortest = a.discounts.shortest + b.discounts.shortest
  taxCollected : whole.taxCollected.shortest = a.taxCollected.shortest + b.taxCollected.shortest
  expense (category : String) : (whole.expense category).shortest =
    (a.expense category).shortest + (b.expense category).shortest
  refunds : |whole.refunds.shortest - (a.refunds.shortest + b.refunds.shortest)| ≤ 1 / 100
  cogs : |whole.cogs.shortest - (a.cogs.shortest + b.cogs.shortest)| ≤ 1 / 100
  wastage : |whole.wastage.shortest - (a.wastage.shortest + b.wastage.shortest)| ≤ 1 / 100
  payroll : |whole.payroll.shortest - (a.payroll.shortest + b.payroll.shortest)| ≤ 1 / 100

/-- The net profit is what the other figures leave of the net sales. -/
def PnlFigures.Balanced (f : PnlFigures) : Prop :=
  f.netProfit.shortest = f.netSales.shortest - f.cogs.shortest - f.wastage.shortest -
    f.totalExpenses.shortest - f.payroll.shortest

theorem PnlReads.Shown.balanced {r : PnlReads} {f : PnlFigures} {R C W Y : ℤ}
    (h : r.Shown f R C W Y) : f.Balanced := by
  rw [PnlFigures.Balanced, h.netProfit.shortest, h.netSales.shortest, h.cogs.shortest,
    h.wastage.shortest, h.totalExpenses.shortest, h.payroll.shortest]
  push_cast
  ring

theorem Shows.add {x y z : Binary64} {k i j : ℤ} (hx : Shows x k) (hy : Shows y i) (hz : Shows z j)
    (h : k = i + j) : x.shortest = y.shortest + z.shortest := by
  rw [hx.shortest, hy.shortest, hz.shortest, h]
  push_cast
  ring

theorem Shows.near {x y z : Binary64} {k i j : ℤ} (hx : Shows x k) (hy : Shows y i) (hz : Shows z j)
    (h : |k - (i + j)| ≤ 1) : |x.shortest - (y.shortest + z.shortest)| ≤ 1 / 100 := by
  have hq : |((k - (i + j) : ℤ) : ℚ)| ≤ 1 := by exact_mod_cast h
  have hsplit : (k : ℚ) / 10 ^ 2 - (i / 10 ^ 2 + j / 10 ^ 2) = ((k - (i + j) : ℤ) : ℚ) / 100 := by
    push_cast
    ring
  rw [hx.shortest, hy.shortest, hz.shortest, hsplit, abs_div, abs_of_pos (by norm_num : (0 : ℚ) < 100)]
  linarith

/-- The figures of a range of days are those of its parts added up, wherever it is cut. -/
theorem profit_and_loss_additive {db : FinanceDb} {first last : ℤ} {whole : PnlReads}
    (hwhole : db.Reads first last whole) (h : whole.Moderate) :
    (whole.figures first last).Balanced ∧
      ∀ cut, first ≤ cut → cut < last → ∀ a b, db.Reads first cut a → db.Reads (cut + 1) last b →
        (whole.figures first last).Additive (a.figures first cut) (b.figures (cut + 1) last) := by
  obtain ⟨R, hR⟩ := PnlReads.rounded_refunds h
  obtain ⟨C, hC⟩ := PnlReads.rounded_cogs h
  obtain ⟨W, hW⟩ := PnlReads.rounded_wastage h
  obtain ⟨Y, hY⟩ := @PnlReads.rounded_payroll whole first last h
  have hshown := PnlReads.figures_shown h hR hC hW hY
  refine ⟨hshown.balanced, fun cut hfirst hlast a b ha hb => ?_⟩
  have hsales : Split (SaleRow.counts first last) (SaleRow.counts first cut)
    (SaleRow.counts (cut + 1) last) := split_and hfirst hlast
  have hrefunds : Split (RefundRow.counts first last) (RefundRow.counts first cut)
    (RefundRow.counts (cut + 1) last) := split_and hfirst hlast
  have hmovements : Split (MovementRow.counts first last) (MovementRow.counts first cut)
    (MovementRow.counts (cut + 1) last) := split_and hfirst hlast
  have hexpenses := ExpenseRow.split hfirst hlast
  have hma := h.of_part hwhole ha (fun x => (hsales.imp x).1) (fun x => (hrefunds.imp x).1)
    (fun x => (hmovements.imp x).1) (fun x => (hexpenses.imp x).1)
    (PayrollRun.counts_imp le_rfl hlast.le)
  have hmb := h.of_part hwhole hb (fun x => (hsales.imp x).2) (fun x => (hrefunds.imp x).2)
    (fun x => (hmovements.imp x).2) (fun x => (hexpenses.imp x).2)
    (PayrollRun.counts_imp (by omega) le_rfl)
  obtain ⟨Ra, hRa⟩ := PnlReads.rounded_refunds hma
  obtain ⟨Ca, hCa⟩ := PnlReads.rounded_cogs hma
  obtain ⟨Wa, hWa⟩ := PnlReads.rounded_wastage hma
  obtain ⟨Ya, hYa⟩ := @PnlReads.rounded_payroll a first cut hma
  obtain ⟨Rb, hRb⟩ := PnlReads.rounded_refunds hmb
  obtain ⟨Cb, hCb⟩ := PnlReads.rounded_cogs hmb
  obtain ⟨Wb, hWb⟩ := PnlReads.rounded_wastage hmb
  obtain ⟨Yb, hYb⟩ := @PnlReads.rounded_payroll b (cut + 1) last hmb
  have hsa := PnlReads.figures_shown hma hRa hCa hWa hYa
  have hsb := PnlReads.figures_shown hmb hRb hCb hWb hYb
  have hpayroll : (whole.runs.map fun x => x.part first last).sum =
      (a.runs.map fun x => x.part first cut).sum +
        (b.runs.map fun x => x.part (cut + 1) last).sum := by
    rw [sum_runs hwhole (by omega), sum_runs ha hfirst, sum_runs hb (by omega), ← List.sum_map_add]
    exact congrArg List.sum (List.map_congr_left fun x _ => x.part_split hfirst hlast)
  exact {
    grossSales := hshown.grossSales.add hsa.grossSales hsb.grossSales
      (hsales.sum_reads hwhole.sales ha.sales hb.sales _)
    discounts := hshown.discounts.add hsa.discounts hsb.discounts
      (hsales.sum_reads hwhole.sales ha.sales hb.sales _)
    taxCollected := hshown.taxCollected.add hsa.taxCollected hsb.taxCollected
      (hsales.sum_reads hwhole.sales ha.sales hb.sales _)
    expense := fun category => (hshown.expense category).add (hsa.expense category)
      (hsb.expense category)
      (hexpenses.sum_reads_filter hwhole.expenses ha.expenses hb.expenses _ _)
    refunds := hshown.refunds.near hsa.refunds hsb.refunds (hR.add_up hRa hRb
      (hrefunds.sum_reads hwhole.refunds ha.refunds hb.refunds _))
    cogs := hshown.cogs.near hsa.cogs hsb.cogs (hC.add_up hCa hCb
      (hmovements.sum_reads_filter hwhole.movements ha.movements hb.movements _ _))
    wastage := hshown.wastage.near hsa.wastage hsb.wastage (hW.add_up hWa hWb
      (hmovements.sum_reads_filter hwhole.movements ha.movements hb.movements _ _))
    payroll := hshown.payroll.near hsa.payroll hsb.payroll (hY.add_up hYa hYb hpayroll) }

/-- The decimal with these digits. -/
def digits {p s : ℕ} (scaled : ℤ) : Decimal p s := (Decimal.ofScaled scaled).getD 0

theorem september : 8 < 12 := by decide

theorem october : 9 < 12 := by decide

/-- A few rows of the last day of September and the first of October. -/
def sampleBooks : FinanceDb where
  orders := [⟨istAt 19996, true, digits 52550, digits 2500, digits 2502⟩,
    ⟨istAt 19997, true, digits 31000, 0, digits 1550⟩]
  refunds := [⟨istAt 19996, false, digits 10000, some ⟨digits 52552, digits 2502⟩⟩,
    ⟨istAt 19997, false, digits 5000, some ⟨digits 32550, digits 1550⟩⟩]
  movements := [⟨istAt 19996, .consumption, digits (-1250), some (digits 833333), 0⟩,
    ⟨istAt 19997, .wastage, digits (-333), none, digits 453333⟩]
  expenses := [⟨19996, false, "Rent", digits 100000, digits 9000, digits 9000, 0, true⟩,
    ⟨19997, false, "Rent", digits 50000, 0, 0, 0, false⟩]
  runs := [⟨⟨2024, 8, september⟩, true, [digits 1500000, digits 1733333]⟩,
    ⟨⟨2024, 9, october⟩, true, [digits 1600000]⟩]

theorem profit_and_loss_additive_sampleBooks :
    (sampleBooks.read 19996 19997).Moderate ∧
      ((sampleBooks.read 19996 19997).figures 19996 19997).Additive
        ((sampleBooks.read 19996 19996).figures 19996 19996)
        ((sampleBooks.read 19997 19997).figures 19997 19997) := by
  have hmoderate : (sampleBooks.read 19996 19997).Moderate :=
    ⟨by decide +kernel, by decide +kernel, by decide +kernel, by decide +kernel, by decide +kernel⟩
  exact ⟨hmoderate, (profit_and_loss_additive (sampleBooks.reads_read _ _) hmoderate).2 19996
    (by decide) (by decide) _ _ (sampleBooks.reads_read _ _) (sampleBooks.reads_read _ _)⟩

/-- A consumption worth a hundred thousand crore, and one worth a rupee on the next day. -/
def hugeBooks : FinanceDb where
  orders := []
  refunds := []
  movements := [
    ⟨istAt 19996, .consumption, digits (-999999999999), some (digits 999999999999), 0⟩,
    ⟨istAt 19997, .consumption, digits (-1000), some (digits 10000), 0⟩]
  expenses := []
  runs := []

/-- The rupee is lost in the sum of the two days. -/
theorem not_profit_and_loss_additive :
    ¬∀ (db : FinanceDb) (first last : ℤ) (whole : PnlReads), db.Reads first last whole →
      (whole.figures first last).Balanced ∧
        ∀ cut, first ≤ cut → cut < last → ∀ a b, db.Reads first cut a → db.Reads (cut + 1) last b →
          (whole.figures first last).Additive (a.figures first cut) (b.figures (cut + 1) last) := by
  intro h
  have hcogs := ((h hugeBooks 19996 19997 _ (hugeBooks.reads_read _ _)).2 19996 (by decide)
    (by decide) _ _ (hugeBooks.reads_read _ _) (hugeBooks.reads_read _ _)).cogs
  have hlost : ¬|((hugeBooks.read 19996 19997).figures 19996 19997).cogs.shortest -
      (((hugeBooks.read 19996 19996).figures 19996 19996).cogs.shortest +
        ((hugeBooks.read 19997 19997).figures 19997 19997).cogs.shortest)| ≤ 1 / 100 := by
    decide +kernel
  exact hlost hcogs

end StelloKitchens.Finance
