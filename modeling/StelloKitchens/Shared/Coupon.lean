import StelloKitchens.Shared.JsText

/-!
# Coupon evaluation

The pure coupon rules that the settle path of the device and the ingest of the cloud share.

## Main definitions

* `evaluateCoupon` — whether a coupon applies to a subtotal at an instant, and its discount.

## Main results

* `evaluateCoupon_valid` — what a valid coupon takes off.
-/

namespace StelloKitchens

inductive CouponType
  | percent
  | flat
  deriving DecidableEq

structure CouponRule where
  type : CouponType
  value : Binary64
  minOrder : Binary64
  maxDiscount : Option Binary64
  validFrom : Option Time
  validTo : Option Time
  usageLimit : Option ℤ
  usedCount : ℤ
  isActive : Bool
  deriving DecidableEq

structure CouponEvaluation where
  valid : Bool
  discount : Binary64
  message : String
  deriving DecidableEq

/-- The coupon is refused, with the reason. -/
def CouponEvaluation.refused (message : String) : CouponEvaluation := ⟨false, 0, message⟩

/-- The discount of a coupon on a subtotal, before rounding. -/
def CouponRule.rawDiscount (coupon : CouponRule) (subtotal : Binary64) : Binary64 :=
  let discount := match coupon.type with
    | .percent => subtotal * coupon.value / 100
    | .flat => coupon.value
  min (coupon.maxDiscount.elim discount (min discount)) subtotal

/-- Whether a coupon applies to a subtotal at an instant, and the discount it gives. -/
def evaluateCoupon (coupon : Option CouponRule) (subtotal : Binary64) (now : Time) :
    CouponEvaluation :=
  match coupon with
  | none => .refused "Coupon not found"
  | some coupon =>
    if !coupon.isActive then .refused "Coupon is inactive"
    else if coupon.validFrom.any (now < ·) then .refused "Coupon is not valid yet"
    else if coupon.validTo.any (· < now) then .refused "Coupon has expired"
    else if coupon.usageLimit.any (· ≤ coupon.usedCount) then
      .refused "Coupon usage limit reached"
    else if subtotal < coupon.minOrder then
      .refused ("Requires a minimum order of ₹" ++ jsNumber coupon.minOrder)
    else
      ⟨true, (coupon.rawDiscount subtotal * 100).nearestInt / 100, "Coupon applied"⟩

/-- A valid evaluation gives the rounded discount of its coupon. -/
theorem evaluateCoupon_valid {coupon : Option CouponRule} {subtotal : Binary64} {now : Time}
    (h : (evaluateCoupon coupon subtotal now).valid) :
    ∃ c, coupon = some c ∧ c.isActive ∧
      (evaluateCoupon coupon subtotal now).discount =
        (c.rawDiscount subtotal * 100).nearestInt / 100 := by
  unfold evaluateCoupon at h ⊢
  cases coupon with
  | none => cases h
  | some c =>
    refine ⟨c, rfl, ?_⟩
    dsimp only at h ⊢
    split_ifs at h ⊢ with h₁
    all_goals first | exact absurd h Bool.false_ne_true | exact ⟨by simpa using h₁, rfl⟩

end StelloKitchens
