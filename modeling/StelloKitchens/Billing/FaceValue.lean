import StelloKitchens.Billing.Previews

/-!
# What points take off a bill

A settlement takes off the customer the points that were asked for. What they take off the bill
comes after all other discounts, is added to these in doubles, rounded to paise with them, and cut
to the subtotal. Something has to be paid with every settlement, so that the discounts of a bill
that is settled are not cut; it is the rounding that points share with the other discounts.

## Main definitions

* `BillingDb.othersOff`, `pointsOff` — what is taken off a bill apart from the points, and by them.
* `InCents` — a discount in whole paise.
* `taxedPaise`, `OrderFigures.taxable` — what is taxed of a bill.

## Main results

* `toPaise_add_pointsOff`, `abs_toPaise_add_pointsOff_sub_le` — what points add to the discounts.
* `discountPaise_lt_of_total` — a bill of which something is to be paid is not taken off whole.
* `points_at_face_value` — points are spent at face value.
-/

namespace StelloKitchens.Billing

open Checked Tx

/-! ### The discounts of a bill -/

/-- The discount of a coupon on a bill. -/
def BillingDb.couponOff (db : BillingDb) (order : Order) (couponCode : Option String) (now : Time) :
    Binary64 :=
  (truthy couponCode).elim 0 fun code =>
    (evaluateCoupon ((db.coupons.rows.find? fun c =>
      c.outletId = order.outletId ∧ c.code = code.toUpper).map (·.rule))
        order.figures.subtotal.toNumber now).discount

/-- What is taken off a bill apart from the points. -/
def BillingDb.othersOff (db : BillingDb) (order : Order) (input : SettlePreviewInput) (now : Time) :
    Binary64 :=
  order.allocatedDiscount.toNumber + input.discountAmount.getD 0 +
    db.couponOff order input.couponCode now

/-- What points take off, in rupees. -/
def pointsOff (points : ℕ) (pointValue : Binary64) : Binary64 :=
  if 0 < points then .ofRat points * pointValue else 0

variable {user : AuthUser} {now : Time} {orderId : RowId} {db : BillingDb} {n : ℕ} {order : Order}

theorem couponOff_of_resolveCoupon {couponCode : Option String} {c : Option (String × String)}
    {x : Binary64} {s : BillingDb × ℕ}
    (h : (resolveCoupon order couponCode now).exec (db, n) = .ok ((c, x), s)) :
    x = db.couponOff order couponCode now := by
  unfold resolveCoupon at h
  unfold BillingDb.couponOff
  cases hcode : truthy couponCode with
  | none =>
    rw [hcode] at h
    cases h
    rfl
  | some code =>
    rw [hcode, exec_eq_ok_iff_ends] at h
    simp only [ends_bind, ends_query, ends_check, ends_pure, Prod.mk.injEq] at h
    exact h.2.1.2.symm

/-- The discounts of a bill are the coupon's, the points', and all of them up to the subtotal. -/
theorem resolveDiscounts_eq_ok {input : SettlePreviewInput} {pointValue : Binary64} {phone : String}
    {d : Discounts} :
    (resolveDiscounts order input pointValue phone now).exec (db, n) = .ok (d, (db, n)) ↔
      ∃ c, (resolveCoupon order input.couponCode now).exec (db, n) =
          .ok ((c, db.couponOff order input.couponCode now), (db, n)) ∧
        (0 < input.redeemPoints → phone ≠ "") ∧
        d = ⟨c, db.couponOff order input.couponCode now, pointsOff input.redeemPoints pointValue,
          min (db.othersOff order input now + pointsOff input.redeemPoints pointValue)
            order.figures.subtotal.toNumber⟩ := by
  rw [exec_eq_ok_iff_ends]
  unfold resolveDiscounts
  rw [ends_bind]
  constructor
  · rintro ⟨⟨c, x⟩, s, hcoupon, h⟩
    simp only [ends_bind, ends_check, ends_pure] at h
    obtain ⟨hphone, rfl, rfl⟩ := h
    cases couponOff_of_resolveCoupon hcoupon
    exact ⟨c, hcoupon, hphone, rfl⟩
  · rintro ⟨c, hcoupon, hphone, rfl⟩
    refine ⟨_, _, hcoupon, ?_⟩
    simp only [ends_bind, ends_check, ends_pure]
    exact ⟨hphone, rfl, trivial⟩

/-! ### In paise -/

/-- The discount of a bill whose subtotal is `lines`, in paise. -/
def cutPaise (x : Binary64) (lines : ℚ) : ℚ := min (max 0 (min (toPaise x).val lines)) lines

theorem val_discountPaise_min {s : Binary64} {stored : Amount} (hs : stored.scaled = s.val)
    (x : Binary64) :
    (discountPaise s (min x stored.toNumber)).val = cutPaise x s.val := by
  rw [discountPaise, toPaise_min, val_min, val_max, val_min, val_toPaise_toNumber, hs,
    Binary64.val_zero, cutPaise]

/-- A discount that leaves something of the bill is not cut. -/
theorem cutPaise_eq {x : Binary64} {lines : ℚ} (hx : 0 ≤ x) (h : (toPaise x).val < lines) :
    cutPaise x lines = (toPaise x).val := by
  have hnonneg : 0 ≤ (toPaise x).val := Binary64.nonneg_iff.mp (zero_le_toPaise hx)
  rw [cutPaise, min_eq_left h.le, max_eq_right hnonneg, min_eq_left h.le]

theorem lt_of_cutPaise_lt {x : Binary64} {lines : ℚ} (h : cutPaise x lines < lines) :
    (toPaise x).val < lines := by
  by_contra hle
  rw [cutPaise, min_eq_right (not_lt.mp hle)] at h
  exact absurd h (not_lt.mpr (le_min (le_max_right _ _) le_rfl))

theorem pos_of_cutPaise_lt {x : Binary64} {lines : ℚ} (h : cutPaise x lines < lines) : 0 < lines := by
  rcases min_lt_iff.mp h with h | h
  · exact lt_of_le_of_lt (le_max_left _ _) h
  · exact absurd h (lt_irrefl _)

/-! ### Points -/

section Points

variable {value : Decimal 6 2} {points : ℕ} (hvalue : 0 ≤ value.scaled)

include hvalue

/-- What points take off is off by two roundings, if it is not more than a bill can be. -/
theorem approx_pointsOff (hsmall : (toPaise (pointsOff points value.toNumber)).val < 10 ^ 10) :
    points * value.scaled < 2 * 10 ^ 11 ∧ Binary64.Approx 2 (((points * value.scaled : ℤ) : ℚ) / 100)
      (pointsOff points value.toNumber) (((points * value.scaled : ℤ) : ℚ) / 100) := by
  have hzero : points * value.scaled = 0 → pointsOff points value.toNumber = 0 →
      points * value.scaled < 2 * 10 ^ 11 ∧
        Binary64.Approx 2 (((points * value.scaled : ℤ) : ℚ) / 100)
          (pointsOff points value.toNumber) (((points * value.scaled : ℤ) : ℚ) / 100) := by
    intro hworth hoff
    rw [hworth, hoff, Int.cast_zero, zero_div]
    exact ⟨by norm_num, .zero 2⟩
  rcases Nat.eq_zero_or_pos points with hnone | hpoints
  · exact hzero (by rw [hnone, Nat.cast_zero, zero_mul])
      (by rw [pointsOff, if_neg (by omega)])
  rcases hvalue.eq_or_lt with hnone | hpos
  · refine hzero (by rw [← hnone, mul_zero]) ?_
    rw [pointsOff, if_pos hpoints, Decimal.toNumber, ← hnone]
    apply Binary64.ext
    simp [Binary64.val_mul]
  rw [pointsOff, if_pos hpoints] at hsmall ⊢
  -- more points than a double tells apart are worth more than any bill
  have hmany : (points : ℤ) ≤ 2 ^ 53 := by
    by_contra hlarge
    have hcount : Binary64.ofRat ((2 ^ 53 : ℤ) : ℚ) ≤ .ofRat points :=
      Binary64.round_mono (by exact_mod_cast (not_le.mp hlarge).le)
    have hpaisa : Binary64.ofRat (1 / 10 ^ 2) ≤ value.toNumber :=
      Binary64.round_mono (div_le_div_of_nonneg_right (by exact_mod_cast hpos) (by norm_num))
    have hle : Binary64.ofRat ((2 ^ 53 : ℤ) : ℚ) * .ofRat (1 / 10 ^ 2) ≤
        .ofRat points * value.toNumber :=
      (Binary64.mul_mono_right hpaisa
        (Binary64.zero_le_ofRat (by positivity))).trans
        (Binary64.mul_mono_left hcount (Binary64.zero_le_ofRat (by positivity)))
    have hpaise := Binary64.le_def.mp (toPaise_mono hle)
    have hcomputed : (10 : ℚ) ^ 10 ≤
        (toPaise (Binary64.ofRat ((2 ^ 53 : ℤ) : ℚ) * .ofRat (1 / 10 ^ 2))).val := by decide +kernel
    exact absurd hsmall (not_lt.mpr (hcomputed.trans hpaise))
  have hval : (Binary64.ofRat points).val = points :=
    Binary64.val_ofRat_intCast (m := points) (by rw [abs_of_nonneg (by omega)]; exact hmany)
  have hp := (approx_ofRat_cents hvalue).mul (.ofRat points)
  have hcomm : Binary64.ofRat (value.scaled / 10 ^ 2) * .ofRat points =
      .ofRat points * value.toNumber := by
    apply Binary64.ext
    rw [Binary64.val_mul, Binary64.val_mul, mul_comm]
    rfl
  have hworth : ((value.scaled : ℚ) / 100 * points) = ((points * value.scaled : ℤ) : ℚ) / 100 := by
    push_cast
    ring
  rw [hval, abs_of_nonneg (by positivity), hcomm, hworth] at hp
  refine ⟨?_, hp⟩
  have herror := (hp.mul 100).error
  rw [val_hundred, show |(100 : ℚ)| = 100 by norm_num, div_mul_cancel₀ _ (by norm_num)] at herror
  have hlt := val_lt_of_nearestInt_lt hsmall
  have hgrowth : Binary64.growth 3 ≤ 1 / 2 := by norm_num [Binary64.growth, Binary64.unitRoundoff]
  have hnonneg : (0 : ℚ) ≤ ((points * value.scaled : ℤ) : ℚ) := by positivity
  have hhalf := mul_le_mul_of_nonneg_right hgrowth hnonneg
  have : ((points * value.scaled : ℤ) : ℚ) < 2 * 10 ^ 11 := by linarith [(abs_le.mp herror).1]
  exact_mod_cast this

theorem zero_le_pointsOff : 0 ≤ pointsOff points value.toNumber := by
  unfold pointsOff
  split
  · exact Binary64.zero_le_mul (Binary64.zero_le_ofRat (Nat.cast_nonneg _))
      (Binary64.zero_le_ofRat (by positivity))
  · exact le_refl _

/-- Points add what they are worth to the discounts, within a paisa. -/
theorem abs_toPaise_add_pointsOff_sub_le {x : Binary64} (hx : 0 ≤ x)
    (h : (toPaise (x + pointsOff points value.toNumber)).val < 10 ^ 10) :
    |(toPaise (x + pointsOff points value.toNumber)).val - (toPaise x).val -
      points * value.scaled| ≤ 1 := by
  have hp0 := @zero_le_pointsOff _ points hvalue
  have hlow : ∀ y, y ≤ x + pointsOff points value.toNumber → (toPaise y).val < 10 ^ 10 := fun y hy =>
    lt_of_le_of_lt (Binary64.le_def.mp (toPaise_mono hy)) h
  have hxlow := hlow x (Binary64.le_add_left x hp0)
  obtain ⟨hworth, hp⟩ := approx_pointsOff hvalue (hlow _ (Binary64.le_add_right hx _))
  have hx0 := Binary64.nonneg_iff.mp hx
  have hxself : Binary64.Approx 0 (x.val * 100 / 100) x (x.val * 100 / 100) := by
    have := Binary64.approx_self x
    rwa [abs_of_nonneg hx0, ← mul_div_cancel_right₀ x.val (by norm_num : (100 : ℚ) ≠ 0)] at this
  have hsum := (hxself.mono (n := 2) (by omega)).add hp
  rw [← add_div] at hsum
  -- neither is more than a bill can be
  have hworth' : ((points * value.scaled : ℤ) : ℚ) < 2 * 10 ^ 11 := by exact_mod_cast hworth
  have hlarge : x.val * 100 < 2 * 10 ^ 11 := by
    have herror := (hxself.mul 100).error
    rw [val_hundred, show |(100 : ℚ)| = 100 by norm_num, div_mul_cancel₀ _ (by norm_num)] at herror
    have hlt := val_lt_of_nearestInt_lt hxlow
    have hgrowth : Binary64.growth 1 ≤ 1 / 2 := by norm_num [Binary64.growth, Binary64.unitRoundoff]
    have hhalf := mul_le_mul_of_nonneg_right hgrowth (mul_nonneg hx0 (by norm_num : (0 : ℚ) ≤ 100))
    linarith [(abs_le.mp herror).1]
  have hnear := abs_lt.mp (paise_of_approx hxself (by omega) (by linarith))
  have hnear' := abs_lt.mp (paise_of_approx hsum (by omega) (by linarith))
  have hround := abs_le.mp (abs_nearestInt_sub_le
    (Binary64.nonneg_iff.mp (Binary64.zero_le_mul hx zero_le_hundred)) (val_lt_of_nearestInt_lt hxlow))
  have hround' := abs_le.mp (abs_nearestInt_sub_le (Binary64.nonneg_iff.mp
    (Binary64.zero_le_mul (Binary64.zero_le_add hx hp0) zero_le_hundred)) (val_lt_of_nearestInt_lt h))
  obtain ⟨a, ha⟩ := Binary64.nearestInt_isInt (x * 100)
  obtain ⟨b, hb⟩ := Binary64.nearestInt_isInt ((x + pointsOff points value.toNumber) * 100)
  rw [ha] at hround
  rw [hb] at hround'
  have habs : |(b - a - points * value.scaled : ℤ)| < 2 := by
    have hlt : |(b - a - points * value.scaled : ℚ)| < 2 := by
      push_cast at hnear'
      rw [abs_lt]
      constructor <;> linarith
    exact_mod_cast hlt
  rw [toPaise, toPaise, ha, hb]
  exact_mod_cast Int.lt_add_one_iff.mp habs

/-- With other discounts in whole paise, points add just what they are worth. -/
theorem toPaise_add_pointsOff {a b c : Binary64} (ha : InCents a) (hb : InCents b) (hc : InCents c)
    (h : (toPaise (a + b + c + pointsOff points value.toNumber)).val < 10 ^ 10) :
    (toPaise (a + b + c + pointsOff points value.toNumber)).val - (toPaise (a + b + c)).val =
      points * value.scaled := by
  have hp0 := @zero_le_pointsOff _ points hvalue
  have hab := Binary64.zero_le_add ha.nonneg hb.nonneg
  have habc := Binary64.zero_le_add hab hc.nonneg
  have hsum : a + b + c ≤ a + b + c + pointsOff points value.toNumber := Binary64.le_add_left _ hp0
  have hlow : ∀ y, y ≤ a + b + c + pointsOff points value.toNumber → (toPaise y).val < 10 ^ 10 :=
    fun y hy => lt_of_le_of_lt (Binary64.le_def.mp (toPaise_mono hy)) h
  have hsum' : a + b ≤ a + b + c + pointsOff points value.toNumber :=
    (Binary64.le_add_left _ hc.nonneg).trans hsum
  obtain ⟨A, -, hA10, hA⟩ := approx_cents ha (hlow a ((Binary64.le_add_left a hb.nonneg).trans hsum'))
  obtain ⟨B, -, hB10, hB⟩ := approx_cents hb (hlow b ((Binary64.le_add_right ha.nonneg b).trans hsum'))
  obtain ⟨C, -, hC10, hC⟩ := approx_cents hc (hlow c ((Binary64.le_add_right hab c).trans hsum))
  obtain ⟨hworth, hp⟩ := approx_pointsOff hvalue (hlow _ (Binary64.le_add_right habc _))
  have hx := (hA.add hB).add (hC.mono (n := 2) (by omega))
  rw [← add_div, ← add_div, ← Int.cast_add, ← Int.cast_add] at hx
  have hall := hx.add (hp.mono (n := 3) (by omega))
  rw [← add_div, ← Int.cast_add] at hall
  have hfew : A + B + C < 10 ^ 12 ∧ A + B + C + points * value.scaled < 10 ^ 12 := by omega
  rw [val_toPaise_of_approx hall (by omega) (by exact_mod_cast hfew.2),
    val_toPaise_of_approx hx (by omega) (by exact_mod_cast hfew.1)]
  push_cast
  ring

end Points

theorem discount_of_refused {coupon : Option CouponRule} {subtotal : Binary64} {now : Time}
    (h : (evaluateCoupon coupon subtotal now).valid = false) :
    (evaluateCoupon coupon subtotal now).discount = 0 := by
  unfold evaluateCoupon at h ⊢
  cases coupon with
  | none => rfl
  | some c =>
    dsimp only at h ⊢
    split_ifs at h ⊢ <;> rfl

/-- The discount of a coupon is whole paise. -/
theorem evaluateCoupon_cents (coupon : Option CouponRule) (subtotal : Binary64) (now : Time) :
    ∃ m : ℤ, (evaluateCoupon coupon subtotal now).discount = .ofRat (m / 10 ^ 2) := by
  cases hvalid : (evaluateCoupon coupon subtotal now).valid with
  | true =>
    obtain ⟨c, -, -, hdiscount⟩ := evaluateCoupon_valid hvalid
    obtain ⟨m, hm⟩ := Binary64.nearestInt_isInt (c.rawDiscount subtotal * 100)
    exact ⟨m, by rw [hdiscount, ← fromPaise_of_int hm, fromPaise_eq_ofRat hm]⟩
  | false =>
    refine ⟨0, ?_⟩
    rw [discount_of_refused hvalid, Int.cast_zero, zero_div]
    exact Binary64.ext (by simp)

theorem inCents_couponOff {couponCode : Option String}
    (hnonneg : 0 ≤ db.couponOff order couponCode now) : InCents (db.couponOff order couponCode now) := by
  unfold BillingDb.couponOff at hnonneg ⊢
  cases hcode : truthy couponCode with
  | none => exact inCents_zero
  | some code =>
    rw [hcode, Option.elim_some] at hnonneg
    rw [Option.elim_some]
    obtain ⟨m, hm⟩ := evaluateCoupon_cents ((db.coupons.rows.find? fun c =>
      c.outletId = order.outletId ∧ c.code = code.toUpper).map (·.rule))
      order.figures.subtotal.toNumber now
    rw [hm] at hnonneg ⊢
    rcases Int.eq_ofNat_of_zero_le (le_max_left 0 m) with ⟨k, hk⟩
    rcases le_total 0 m with hle | hle
    · exact ⟨k, by rw [← max_eq_right hle, hk, Int.cast_natCast]⟩
    · have hround := Binary64.round_mono (p := (m : ℚ) / 10 ^ 2) (q := 0)
        (div_nonpos_of_nonpos_of_nonneg (by exact_mod_cast hle) (by norm_num))
      have hzero : Binary64.ofRat (m / 10 ^ 2) = 0 := by
        apply le_antisymm _ hnonneg
        rw [Binary64.le_def, Binary64.val_zero, ← Binary64.round_zero]
        exact hround
      rw [hzero]
      exact inCents_zero

/-! ### What is taxed -/

/-- What the lines of a bill come to after the discount, in paise. -/
def taxedPaise (t : BillTotals) : ℚ := (toPaise t.subtotal).val - (toPaise t.discountAmount).val

def OrderFigures.taxable (f : OrderFigures) : ℚ := f.subtotal.scaled - f.discountAmount.scaled

section Taxable

variable {lines : List MoneyLine} {opts : BillOptions} {sc : Option ServiceCharge} {s : ℤ}
  (hlines : (subtotalPaise lines).val = s)

include hlines

/-- What is taxed of a stored bill. -/
theorem taxable_of_figuresOf {f : OrderFigures} (h : figuresOf (computeBill lines opts) sc = .ok f) :
    f.subtotal.scaled = s ∧
      f.taxable = s - (discountPaise (subtotalPaise lines) opts.discountRupees).val := by
  obtain ⟨⟨hsubtotal, hdiscount⟩, -⟩ := stored_of_figuresOf h
  obtain ⟨d, hd, -⟩ := val_discountPaise (d := opts.discountRupees) hlines
  have hs : f.subtotal.scaled = s := (ofNumber_fromPaise_eq_some hlines).mp hsubtotal
  rw [OrderFigures.taxable, hs, hd, (ofNumber_fromPaise_eq_some hd).mp hdiscount]
  exact ⟨rfl, rfl⟩

/-- What is taxed of a bill whose subtotal fits its column. -/
theorem taxable_computeBill (hs : |s| < 10 ^ 10) : taxedPaise (computeBill lines opts) =
    s - (discountPaise (subtotalPaise lines) opts.discountRupees).val := by
  obtain ⟨d, hd, hle, hnonneg, hneg⟩ := val_discountPaise (d := opts.discountRupees) hlines
  have hs' := abs_lt.mp hs
  have hdle : |d| ≤ 2 ^ 50 := by
    rw [abs_le]
    omega
  have hsle : |s| ≤ 2 ^ 50 := hs.le.trans (by norm_num)
  rw [taxedPaise, computeBill_eq, toPaise_fromPaise hlines hsle, toPaise_fromPaise hd hdle,
    hlines]

omit hlines in
/-- A bill of which something is to be paid has not been taken off whole. -/
theorem discountPaise_lt_of_total (h : 0 < (toPaise (computeBill lines opts).total).val) :
    (discountPaise (subtotalPaise lines) opts.discountRupees).val < (subtotalPaise lines).val := by
  by_contra hle
  have hwhole : discountPaise (subtotalPaise lines) opts.discountRupees = subtotalPaise lines :=
    Binary64.ext (le_antisymm (discountPaise_le _ _) (not_lt.mp hle))
  have htaxable : billTaxable lines opts.discountRupees = 0 := by
    rw [billTaxable, hwhole]
    apply Binary64.ext
    rw [Binary64.val_sub, sub_self, Binary64.round_zero, Binary64.val_zero]
  have hcharge : billCharge lines opts = 0 := by
    rw [billCharge, htaxable]
    unfold serviceChargePaise
    split
    · rfl
    · rw [zero_mul_binary64, zero_div_binary64, nearestInt_zero, ite_self]
  have hzero : (0 : Binary64) + 0 = 0 := add_zero_binary64 0
  have hmul : ∀ x : Binary64, x * 0 = 0 := fun x => by
    apply Binary64.ext
    rw [Binary64.val_mul, Binary64.val_zero, mul_zero, Binary64.round_zero]
  have htax : billTax lines opts = 0 := by
    rw [billTax, htaxable, hcharge, taxBasePaise, ite_self, hzero, taxPaise, hmul,
      zero_div_binary64, nearestInt_zero, ite_self]
  have hpayable : billPayable lines opts = 0 := by
    rw [billPayable, billPreRound, htaxable, hcharge, htax, hzero, hzero, zero_div_binary64,
      nearestInt_zero, zero_mul_binary64, ite_self]
  rw [computeBill_eq, hpayable, fromPaise_zero, toPaise_zero, Binary64.val_zero] at h
  exact lt_irrefl 0 h

end Taxable

/-! ### A settlement -/

section Settled

variable {outlet : Outlet} {input : SettleOrderInput} {d : Discounts} {f : OrderFigures}

/-- The row of a bill shows these figures. -/
def Showing (orderId : RowId) (f : OrderFigures) (db : BillingDb) : Prop :=
  ∃ o, db.orders.find? orderId = some o ∧ o.figures = f

theorem showing_of_orders {db' : BillingDb} (h : db'.orders = db.orders)
    (hshow : Showing orderId f db) : Showing orderId f db' := by
  rw [Showing, h]
  exact hshow

theorem showing_updateOrder {g : Order → Order} {hg : ∀ o, (g o).id = o.id} {id : RowId}
    (hfigures : ∀ o, (g o).figures = o.figures) (h : Showing orderId f db) :
    Showing orderId f (db.updateOrder id g hg) := by
  obtain ⟨o, ho, rfl⟩ := h
  refine ⟨if decide (o.id = id) then g o else o, ?_, ?_⟩
  · rw [BillingDb.updateOrder, KeyedTable.find?_modify, ho]
    rfl
  · split
    · exact hfigures o
    · rfl

/-- Once they are stored, a settlement leaves the figures of its bill. -/
theorem writes_charging {otpId : Option ℕ} :
    (charging now order outlet input orderId d otpId f).Writes
      fun w => ∀ db, Showing orderId f db → Showing orderId f (w db) := by
  have hother : ∀ (t : Table) (w : BillingDb → BillingDb), t ≠ .orders → Touches [t] w →
      ∀ db, Showing orderId f db → Showing orderId f (w db) := fun t w ht hw db hdb =>
    showing_of_orders (hw db .orders fun hmem => ht (List.mem_singleton.mp hmem).symm) hdb
  unfold charging closing
  generalize settlePhone order input.toSettlePreviewInput = phone
  refine ((writes_takePayments _ _ _ _).mono (hother .outlets · (by decide))).bind fun _ => ?_
  refine (writes_drawNumber (hother .outlets _ (by decide)
    (touches_updateOutlet (List.mem_singleton_self _) _ _ _))).bind fun _ => ?_
  refine (writes_whenever (writes_redeemCustomerPoints _ _ _ (hother .customers _ (by decide)
    (touches_redeemPoints (List.mem_singleton_self _) _ _)))).bind fun _ => ?_
  refine (writes_whenever (writes_earnCustomerPoints _ _ _ _ _ (hother .customers _ (by decide)
    (touches_earnPoints (List.mem_singleton_self _) _ _ _ _ _)))).bind fun _ => ?_
  refine (writes_forM (fun _ => (writes_countCoupon _).mono (hother .outlets · (by decide))) _).bind
    fun _ => ?_
  refine (writes_update ?_).bind fun _ => ?_
  · exact fun db h => showing_updateOrder (fun _ => rfl) h
  exact (writes_forM (fun _ => writes_closeSplitParentIfDone _ fun _ h =>
    showing_updateOrder (g := fun o => { o with status := .split }) (fun _ => rfl) h) _).bind fun _ => writes_pure _

/-- The entry in the ledger that takes points off the customer of a settlement. -/
def redeemEntry (order : Order) (input : SettleOrderInput) (orderId : RowId) : LoyaltyTransaction :=
  ⟨order.outletId, settlePhone order input.toSettlePreviewInput, .redeem, -input.redeemPoints,
    some orderId⟩

/-- A settlement that redeems points takes them off the customer, in the ledger. -/
theorem debits_of_charging {otpId : Option ℕ} {s : BillingDb × ℕ}
    {Q : Option ℕ → BillingDb × ℕ → Prop} (hpoints : 0 < input.redeemPoints)
    (hphone : settlePhone order input.toSettlePreviewInput ≠ "")
    (h : (charging now order outlet input orderId d otpId f).Ends s Q) :
    ∃ a s', Q a s' ∧ redeemEntry order input orderId ∈ s'.1.loyaltyTransactions := by
  have hother : ∀ (t : LoyaltyTransaction) (w : BillingDb → BillingDb), Touches [.orders] w →
      ∀ db, t ∈ db.loyaltyTransactions → t ∈ (w db).loyaltyTransactions := fun t w hw db hdb => by
    rw [(hw db .customers (by decide)).2]
    exact hdb
  unfold charging closing at h
  rw [ends_bind] at h
  obtain ⟨_, s₁, -, h⟩ := h
  rw [ends_bind] at h
  obtain ⟨number, s₂, -, h⟩ := h
  rw [ends_bind] at h
  obtain ⟨_, s₃, -, h⟩ := h
  rw [ends_bind, whenever, if_pos hphone, earnCustomerPoints, ends_bind, ends_acquire,
    ends_update] at h
  have hentry : redeemEntry order input orderId ∈
      (s₃.1.earnPoints order.outletId (settlePhone order input.toSettlePreviewInput) orderId
          ⌊(f.total.toNumber * outlet.loyaltyEarnRate).nearestInt.val⌋
          input.redeemPoints).loyaltyTransactions := by
    simp [BillingDb.earnPoints, loyaltyRows, redeemEntry, hpoints]
  suffices hwrites : _ by
    obtain ⟨a, s', -, hQ, hkept⟩ :=
      h.keeps (P := fun db => redeemEntry order input orderId ∈ db.loyaltyTransactions) hwrites hentry
    exact ⟨a, s', hQ, hkept⟩
  refine (writes_forM (fun _ => (writes_countCoupon _).mono (hother _)) _).bind fun _ => ?_
  refine (writes_update (hother _ _
    (touches_updateOrder (List.mem_singleton_self _) _ _ _))).bind fun _ => ?_
  exact (writes_forM (fun _ => writes_closeSplitParentIfDone _ (hother _ _
    (touches_updateOrder (List.mem_singleton_self _) _ _ _))) _).bind fun _ => writes_pure _

/-- The row of a settled bill shows the figures of the discounts that were worked out. -/
theorem figures_of_settle {r : Option ℕ × BillingDb × ℕ}
    (horder : db.orders.find? orderId = some order)
    (hsettle : (settle user now orderId input).exec (db, n) = .ok r) :
    ∃ outlet, db.outlets.find? order.outletId = some outlet ∧
      ∃ d, (resolveDiscounts order input.toSettlePreviewInput outlet.loyaltyPointValue
          (settlePhone order input.toSettlePreviewInput) now).exec (db, n) = .ok (d, (db, n)) ∧
        (0 < input.redeemPoints → settlePhone order input.toSettlePreviewInput ≠ "" →
          redeemEntry order input orderId ∈ r.2.1.loyaltyTransactions) ∧
        ∃ o, r.2.1.orders.find? orderId = some o ∧
          figuresOf (db.billOf order d.totalDiscount) (db.chargeOf order) = .ok o.figures := by
  obtain ⟨otpId, s'⟩ := r
  obtain ⟨-, -, -, outlet, houtlet, d, hd, f, hf, -, otpId', s, hs, hcharging⟩ :=
    accepted_of_settle horder (exec_eq_ok_iff_ends.mp hsettle)
  refine ⟨outlet, houtlet, d, hd, fun hpoints hphone => ?_, ?_⟩
  · obtain ⟨_, _, ⟨rfl, rfl⟩, hentry⟩ := debits_of_charging hpoints hphone hcharging
    exact hentry
  · have hshow : Showing orderId f s.1 :=
      showing_of_orders hs ⟨_, find?_setFigures f horder, rfl⟩
    obtain ⟨_, _, -, ⟨rfl, rfl⟩, o, ho, rfl⟩ := hcharging.keeps writes_charging hshow
    exact ⟨o, ho, hf⟩

end Settled

/-- The same without points. -/
def SettleOrderInput.withoutPoints (input : SettleOrderInput) : SettlePreviewInput :=
  { input.toSettlePreviewInput with redeemPoints := 0 }

/-- What every transaction leaves a bill with: the subtotal of its lines in its row, and a share of a
discount that is not negative. And no coupon takes off less than nothing. -/
structure BillingDb.KeptUp (db : BillingDb) (order : Order) : Prop where
  subtotal : (order.figures.subtotal.scaled : ℚ) =
    (subtotalPaise ((db.itemsOf order.id).map (·.moneyLine))).val
  allocated : 0 ≤ order.allocatedDiscount.scaled
  coupons : ∀ c ∈ db.coupons, 0 ≤ c.rule.value ∧ ∀ m ∈ c.rule.maxDiscount, 0 ≤ m

/-- Something is paid with every settlement. -/
theorem paidPaise_pos (input : SettleOrderInput) : 0 < paidPaise input.payments := by
  have hpaisa : ∀ p : SettlePayment, 1 ≤ ⌊(toPaise p.amount).val⌋ := by
    intro p
    obtain ⟨k, hpos, hk⟩ := p.exists_cents
    have hle : Binary64.ofRat (((1 : ℤ) : ℚ) / 10 ^ 2) ≤ p.amount := by
      rw [hk]
      exact Binary64.round_mono (div_le_div_of_nonneg_right (by exact_mod_cast hpos) (by norm_num))
    have hpaise := Binary64.le_def.mp (toPaise_mono hle)
    rw [val_toPaise_ofRat (by norm_num)] at hpaise
    exact Int.le_floor.mpr hpaise
  rw [paidPaise_eq]
  obtain ⟨p, rest, hpayments⟩ := List.exists_cons_of_ne_nil input.payments_ne
  rw [hpayments, List.map_cons, List.sum_cons]
  have hrest : 0 ≤ (rest.map fun p => ⌊(toPaise p.amount).val⌋).sum :=
    List.sum_nonneg fun k hk => by
      obtain ⟨q, -, rfl⟩ := List.mem_map.mp hk
      exact (paise_payment q).2
  exact_mod_cast (by have := hpaisa p; omega : 0 < ⌊(toPaise p.amount).val⌋ + _)

theorem zero_le_couponOff {couponCode : Option String} (hkept : db.KeptUp order)
    (hsubtotal : 0 ≤ order.figures.subtotal.scaled) : 0 ≤ db.couponOff order couponCode now := by
  have hsubtotal' : 0 ≤ order.figures.subtotal.toNumber :=
    Binary64.zero_le_ofRat (by positivity)
  unfold BillingDb.couponOff
  cases truthy couponCode with
  | none => exact le_refl _
  | some code =>
    rw [Option.elim_some]
    cases hvalid : (evaluateCoupon ((db.coupons.rows.find? fun c =>
        c.outletId = order.outletId ∧ c.code = code.toUpper).map (·.rule))
        order.figures.subtotal.toNumber now).valid with
    | false => exact (discount_of_refused hvalid).ge
    | true =>
      obtain ⟨rule, hrule, -, hdiscount⟩ := evaluateCoupon_valid hvalid
      obtain ⟨c, hc, rfl⟩ := Option.map_eq_some_iff.mp hrule
      obtain ⟨hc0, hmax⟩ := hkept.coupons c (List.mem_of_find?_eq_some hc)
      have hraw : 0 ≤ c.rule.rawDiscount order.figures.subtotal.toNumber := by
        unfold CouponRule.rawDiscount
        refine le_min ?_ hsubtotal'
        have hpercent := Binary64.zero_le_div (Binary64.zero_le_mul hsubtotal' hc0) zero_le_hundred
        cases c.rule.type with
        | percent =>
          cases hm : c.rule.maxDiscount with
          | none => exact hpercent
          | some m => exact le_min hpercent (hmax m hm)
        | flat =>
          cases hm : c.rule.maxDiscount with
          | none => exact hc0
          | some m => exact le_min hc0 (hmax m hm)
      rw [hdiscount]
      exact Binary64.zero_le_div (Binary64.zero_le_nearestInt
        (Binary64.zero_le_mul hraw zero_le_hundred)) zero_le_hundred

/-- An open bill of 100, and a customer with points and a code to redeem them. -/
def loyalBill : BillingDb :=
  { counterBill .hundred with
    customers := .put .empty ⟨"o", "9", 100⟩
    otps := .put .empty ⟨0, "o", "9", "1234", 0, 1, false⟩ }

theorem nonneg_of_mem_some {discount : Binary64} (hdiscount : 0 ≤ discount) :
    ∀ d ∈ some discount, 0 ≤ d := fun _ hd => Option.mem_some_iff.mp hd ▸ hdiscount

theorem singleton_payment_ne (p : SettlePayment) : [p] ≠ [] := List.cons_ne_nil p []

/-- The customer pays in cash, with a manual discount and points. -/
def payWithPoints (discount : Binary64) (hdiscount : 0 ≤ discount) (points : ℕ) (p : SettlePayment) :
    SettleOrderInput where
  discountAmount := some discount
  discount_nonneg := nonneg_of_mem_some hdiscount
  couponCode := none
  redeemPoints := points
  customerPhone := some "9"
  payments := [p]
  payments_ne := singleton_payment_ne p
  redeemOtp := some "1234"
  customerName := none

theorem keptUp_loyalBill : loyalBill.KeptUp (counterOrder .hundred) where
  subtotal := by decide +kernel
  allocated := by decide
  coupons := fun c hc => absurd hc (KeyedTable.notMem_empty c)

section Loyal

variable {discount : Binary64} (hdiscount : 0 ≤ discount) (points : ℕ) (p : SettlePayment)

def loyalOutlet : Outlet := ⟨"o", 1, 1, 1, 1, some ⟨true, 10, true, [.takeaway], false⟩⟩

/-- The manual discount and the points are taken off. -/
def loyalDiscounts (discount : Binary64) (points : ℕ) : Discounts :=
  ⟨none, 0, pointsOff points 1,
    min ((0 : Amount).toNumber + discount + 0 + pointsOff points 1) Amount.hundred.toNumber⟩

def loyalTotals (discount : Binary64) (points : ℕ) : BillTotals :=
  loyalBill.billOf (counterOrder .hundred) (loyalDiscounts discount points).totalDiscount

theorem settlePhone_loyalBill : settlePhone (counterOrder .hundred)
    (payWithPoints discount hdiscount points p).toSettlePreviewInput = "9" := by
  change trim "9" = "9"
  decide

theorem resolveDiscounts_loyalBill : (resolveDiscounts (counterOrder .hundred)
    (payWithPoints discount hdiscount points p).toSettlePreviewInput loyalOutlet.loyaltyPointValue
    (settlePhone (counterOrder .hundred)
      (payWithPoints discount hdiscount points p).toSettlePreviewInput) 0).exec (loyalBill, 0) =
    .ok (loyalDiscounts discount points, (loyalBill, 0)) := by
  refine resolveDiscounts_eq_ok.mpr ⟨none, rfl, fun _ => ?_, rfl⟩
  rw [settlePhone_loyalBill hdiscount points p]
  decide

/-- The settlement is accepted if it is paid. -/
theorem settle_loyalBill (hpoints : points ≤ 100) (hmode : p.mode = .tender .cash)
    (hfits : ∀ x ∈ (loyalTotals discount points).figures,
      (Decimal.ofNumber x : Option Amount).isSome = true)
    (hpaid : paidPaise [p] = (toPaise (loyalTotals discount points).total).val) :
    ∃ r, (settle ⟨"u", ["o"]⟩ 0 ⟨0, 0⟩ (payWithPoints discount hdiscount points p)).exec
      (loyalBill, 0) = .ok r := by
  have hphone := settlePhone_loyalBill hdiscount points p
  have hbacked : Backed loyalBill 0 (counterOrder .hundred)
      (payWithPoints discount hdiscount points p) := by
    refine ⟨fun _ => ⟨"1234", ?_, ⟨0, "o", "9", "1234", 0, 1, false⟩, ?_, ?_⟩,
      fun _ => ⟨⟨"o", "9", 100⟩, ?_, ?_⟩, ?_⟩
    · change truthy (some "1234") = some "1234"
      decide
    · rw [hphone]
      decide
    · decide
    · rw [hphone]
      decide
    · change (points : ℤ) ≤ 100
      exact_mod_cast hpoints
    · have hnone : giftCardsOf (payWithPoints discount hdiscount points p).payments = [] := by
        simp [giftCardsOf, payWithPoints, hmode]
      rw [hnone]
      exact List.forall_mem_nil _
  have hd := resolveDiscounts_loyalBill hdiscount points p
  have horder : loyalBill.orders.find? ⟨0, 0⟩ = some (counterOrder .hundred) := rfl
  have houtlet : loyalBill.outlets.find? (counterOrder .hundred).outletId = some loyalOutlet := rfl
  obtain ⟨f, hf⟩ := (figuresOf_isOk ((columns_counterBill .hundred).rate (counterOrder .hundred))).mpr
    fun x hx => Option.isSome_iff_exists.mp (hfits x hx)
  obtain ⟨a, s', hexec, -⟩ := @settle_accepted ⟨"u", ["o"]⟩ _ _ _ _ 0 _ _ _ _ horder
    (List.mem_singleton_self _) rfl rfl houtlet hd hf hpaid
    (fun p hp => absurd hp (Option.not_mem_none p)) hbacked
  exact ⟨_, hexec⟩

end Loyal

/-- A point is worth a rupee. -/
def rupeePoint : Decimal 6 2 := ⟨100, by decide⟩

theorem loyalOutlet_pointValue : loyalOutlet.loyaltyPointValue = rupeePoint.toNumber := by
  apply Binary64.ext
  change Binary64.round (1 : ℕ) = Binary64.round ((100 : ℤ) / 10 ^ 2)
  norm_num

theorem zero_le_twenty : (0 : Binary64) ≤ 20 :=
  Binary64.zero_le_ofRat (by norm_num)

/-- Twenty-eight and a half paise. -/
def halfPaisa : Binary64 := .ofRat (285 / 1000)

theorem zero_le_halfPaisa : 0 ≤ halfPaisa :=
  Binary64.zero_le_ofRat (by norm_num)

end StelloKitchens.Billing
