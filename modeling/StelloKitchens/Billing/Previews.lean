import Mathlib.Algebra.BigOperators.Ring.Finset
import StelloKitchens.Billing.Touches
import StelloKitchens.Lib.RoundingError
import StelloKitchens.Lib.Sequential
import StelloKitchens.Shared.BillFigures
import StelloKitchens.Shared.Cents

/-!
# A preview tells what a settlement charges

A preview works out the discounts and the figures of an open bill and writes nothing; a settlement
works them out anew, stores them, and takes the payments. If nothing changes in between, both find
the same lines, rules and discounts, so that the settlement charges what the preview told. Only the
columns of the bill's row can come between: a preview does not store its figures.

## Main definitions

* `BillingDb.Columns` — what the database holds every row to.
* `Backed` — the code, the points and the gift cards of a settlement are good.
* `paidPaise`, `FitsColumns`, `OrderFigures.Shows` — payments, columns, and figures stored in them.

## Main results

* `preview_tells` — a settlement is accepted if and only if its preview is, and is paid.
-/

namespace StelloKitchens.Billing

open Checked Tx

/-! ### What is paid -/

/-- What payments come to, in paise. -/
def paidPaise (payments : List SettlePayment) : ℚ :=
  (payments.map fun p => (toPaise p.amount).val).sum

theorem paise_payment (p : SettlePayment) :
    (toPaise p.amount).val = ⌊(toPaise p.amount).val⌋ ∧ 0 ≤ ⌊(toPaise p.amount).val⌋ := by
  obtain ⟨m, hm0, hm⟩ := wholePaise_toPaise p.positive.le
  rw [hm, Int.floor_intCast]
  exact ⟨rfl, hm0⟩

theorem paidPaise_eq (payments : List SettlePayment) :
    paidPaise payments = ((payments.map fun p => ⌊(toPaise p.amount).val⌋).sum : ℤ) := by
  rw [paidPaise, Int.cast_list_sum, List.map_map]
  exact congrArg List.sum (List.map_congr_left fun p _ => (paise_payment p).1)

/-- The largest number of paise that surely survives the way through rupees. -/
def manyPaise : Binary64 := .ofRat (2 ^ 50 : ℤ)

theorem val_manyPaise : manyPaise.val = ((2 ^ 50 : ℤ) : ℚ) :=
  Binary64.val_ofRat_intCast (by norm_num)

theorem toPaise_fromPaise_manyPaise : toPaise (fromPaise manyPaise) = manyPaise :=
  toPaise_fromPaise val_manyPaise (by norm_num)

/-- Payments are added up in doubles, and match a total if they come to it. -/
theorem paid_eq_iff (payments : List SettlePayment) {x : Binary64} {m : ℤ} (hx : x.val = m)
    (hm : m < 2 ^ 50) :
    toPaise (fromPaise (payments.foldl (fun s p => s + toPaise p.amount) 0)) = x ↔
      paidPaise payments = x.val := by
  have hnonneg : ∀ p ∈ payments, 0 ≤ ⌊(toPaise p.amount).val⌋ := fun p _ => (paise_payment p).2
  have hsum0 : 0 ≤ (payments.map fun p => ⌊(toPaise p.amount).val⌋).sum :=
    List.sum_nonneg fun k hk => by
      obtain ⟨p, hp, rfl⟩ := List.mem_map.mp hk
      exact hnonneg p hp
  rw [paidPaise_eq, hx]
  set total := payments.foldl (fun s p => s + toPaise p.amount) 0 with htotal
  set sum := (payments.map fun p => ⌊(toPaise p.amount).val⌋).sum with hsum
  by_cases hsmall : sum ≤ 2 ^ 50
  · have habs : (payments.map fun p => |⌊(toPaise p.amount).val⌋|).sum = sum :=
      congrArg List.sum (List.map_congr_left fun p hp => abs_of_nonneg (hnonneg p hp))
    have hval : total.val = sum :=
      Binary64.val_foldl_add_intCast (fun p : SettlePayment => toPaise p.amount)
        (fun p => ⌊(toPaise p.amount).val⌋) payments (fun p _ => (paise_payment p).1) (by omega)
    rw [toPaise_fromPaise hval (by rw [abs_of_nonneg hsum0]; exact hsmall)]
    constructor
    · intro h
      rw [← hval, h, hx]
    · intro h
      apply Binary64.ext
      rw [hval, h, hx]
  · have hlarge := Binary64.min_le_val_foldl_add (fun p : SettlePayment => toPaise p.amount)
      (fun p => ⌊(toPaise p.amount).val⌋) payments fun p _ => paise_payment p
    have hmany : manyPaise ≤ total := by
      rw [Binary64.le_def, val_manyPaise]
      refine le_trans ?_ hlarge
      exact_mod_cast le_min (not_le.mp hsmall).le (by norm_num)
    have hpaid : manyPaise ≤ toPaise (fromPaise total) := by
      rw [← toPaise_fromPaise_manyPaise]
      exact toPaise_mono (fromPaise_mono hmany)
    constructor
    · intro h
      rw [h, Binary64.le_def, val_manyPaise, hx] at hpaid
      have : (2 ^ 50 : ℤ) ≤ m := by exact_mod_cast hpaid
      omega
    · intro h
      have : sum = m := by exact_mod_cast h
      omega

theorem SettlePayment.exists_cents (p : SettlePayment) :
    ∃ k : ℤ, 0 < k ∧ p.amount = .ofRat (k / 10 ^ 2) := by
  obtain ⟨k, hk⟩ := p.cents
  have hcents : (k / 100 : ℚ) = k / 10 ^ 2 := by norm_num
  rw [hcents] at hk
  refine ⟨k, ?_, hk⟩
  by_contra hle
  have hround := Binary64.round_mono (p := (k : ℚ) / 10 ^ 2) (q := 0)
    (div_nonpos_of_nonpos_of_nonneg (by exact_mod_cast not_lt.mp hle) (by norm_num))
  have hamount := Binary64.lt_def.mp p.positive
  rw [hk, Binary64.val_ofRat, Binary64.val_zero] at hamount
  rw [Binary64.round_zero] at hround
  exact absurd hamount (not_lt.mpr hround)

/-- A payment of no more than a column holds is stored. -/
theorem store_payment (p : SettlePayment) (h : (toPaise p.amount).val < 10 ^ 10) :
    ∃ a : Amount, store p.amount = .ok a := by
  obtain ⟨k, hpos, hk⟩ := p.exists_cents
  rw [val_toPaise_cents hk hpos.le h] at h
  refine ⟨⟨k, ?_⟩, orThrow_eq_ok.mpr ?_⟩
  · rw [abs_of_pos hpos]
    exact_mod_cast h
  · rw [hk, ofNumber_ofRat_column (by norm_num), Decimal.ofScaled_eq_some]

/-! ### Columns -/

/-- What the columns and the keys of the schema hold rows to: a percentage is stored with two
decimals, and a check refers to a bill. -/
structure BillingDb.Columns (db : BillingDb) : Prop where
  percents : ∀ outlet ∈ db.outlets, ∀ rules ∈ outlet.billingSettings,
    ∃ r : Rate, rules.serviceChargePercent = r.toNumber
  parents : ∀ o ∈ db.orders, ∀ p ∈ o.parentOrderId, ∃ parent ∈ db.orders, parent.id = p

/-- The figures of a bill fit the columns of its row. -/
def FitsColumns (t : BillTotals) : Prop :=
  ∀ x ∈ t.figures, ∃ a : Amount, Decimal.ofNumber x = some a

/-- The figures of a row are those of a bill. -/
structure OrderFigures.Shows (f : OrderFigures) (t : BillTotals) : Prop where
  subtotal : f.subtotal.toNumber = t.subtotal
  discountAmount : f.discountAmount.toNumber = t.discountAmount
  serviceChargeAmount : f.serviceChargeAmount.toNumber = t.serviceChargeAmount
  taxAmount : f.taxAmount.toNumber = t.taxAmount
  roundOff : f.roundOff.toNumber = t.roundOff
  total : f.total.toNumber = t.total

/-- A whole number of paise that is stored is what was given. -/
theorem toNumber_of_stored {p : Binary64} {m : ℤ} (hp : p.val = m) {a : Amount}
    (h : Decimal.ofNumber (fromPaise p) = some a) : a.toNumber = fromPaise p := by
  have hscaled : a.scaled = m := (ofNumber_fromPaise_eq_some hp).mp h
  rw [toNumber_eq_fromPaise (by norm_num), hscaled, ← hp, Binary64.ofRat_val]

section Figures

variable {lines : List MoneyLine} {opts : BillOptions} {sc : Option ServiceCharge}
  (hlines : ∀ l ∈ lines, ∃ m : ℤ, l.lineTotalPaise.val = m)

include hlines

omit hlines in
/-- The columns hold the figures. -/
theorem stored_of_figuresOf {t : BillTotals} {f : OrderFigures} (h : figuresOf t sc = .ok f) :
    (Decimal.ofNumber t.subtotal = some f.subtotal ∧
      Decimal.ofNumber t.discountAmount = some f.discountAmount) ∧
    (Decimal.ofNumber t.serviceChargeAmount = some f.serviceChargeAmount ∧
      Decimal.ofNumber t.taxAmount = some f.taxAmount) ∧
    Decimal.ofNumber t.roundOff = some f.roundOff ∧ Decimal.ofNumber t.total = some f.total := by
  unfold figuresOf at h
  obtain ⟨_, h₁, h⟩ := bind_eq_ok.mp h
  obtain ⟨_, h₂, h⟩ := bind_eq_ok.mp h
  obtain ⟨_, h₃, h⟩ := bind_eq_ok.mp h
  obtain ⟨_, -, h⟩ := bind_eq_ok.mp h
  obtain ⟨_, h₄, h⟩ := bind_eq_ok.mp h
  obtain ⟨_, h₅, h⟩ := bind_eq_ok.mp h
  obtain ⟨_, h₆, h⟩ := bind_eq_ok.mp h
  cases pure_eq_ok.mp h
  exact ⟨⟨orThrow_eq_ok.mp h₁, orThrow_eq_ok.mp h₂⟩, ⟨orThrow_eq_ok.mp h₃, orThrow_eq_ok.mp h₄⟩,
    orThrow_eq_ok.mp h₅, orThrow_eq_ok.mp h₆⟩

theorem shows_of_figuresOf {f : OrderFigures} (h : figuresOf (computeBill lines opts) sc = .ok f) :
    f.Shows (computeBill lines opts) := by
  obtain ⟨⟨h₁, h₂⟩, ⟨h₃, h₄⟩, h₅, h₆⟩ := stored_of_figuresOf h
  have hshow : ∀ x ∈ (computeBill lines opts).figures, ∀ a : Amount,
      Decimal.ofNumber x = some a → a.toNumber = x := by
    intro x hx a ha
    obtain ⟨p, m, rfl, hp⟩ := whole_figures opts hlines x hx
    exact toNumber_of_stored hp ha
  simp only [BillTotals.figures, List.forall_mem_cons, List.not_mem_nil, false_imp_iff,
    implies_true, and_true] at hshow
  obtain ⟨g₁, g₂, g₃, g₄, g₅, g₆⟩ := hshow
  exact ⟨g₁ _ h₁, g₂ _ h₂, g₃ _ h₃, g₄ _ h₄, g₅ _ h₅, g₆ _ h₆⟩

omit hlines in
/-- The figures are stored if they fit, and the rate of the service charge does. -/
theorem figuresOf_isOk {t : BillTotals}
    (hsc : ∃ r : Rate, Decimal.ofNumber (sc.elim 0 (·.percent)) = some r) :
    (∃ f, figuresOf t sc = .ok f) ↔ FitsColumns t := by
  simp only [FitsColumns, BillTotals.figures, List.forall_mem_cons, List.not_mem_nil,
    false_imp_iff, implies_true, and_true]
  constructor
  · rintro ⟨f, h⟩
    obtain ⟨⟨h₁, h₂⟩, ⟨h₃, h₄⟩, h₅, h₆⟩ := stored_of_figuresOf h
    exact ⟨⟨_, h₁⟩, ⟨_, h₂⟩, ⟨_, h₃⟩, ⟨_, h₄⟩, ⟨_, h₅⟩, _, h₆⟩
  · rintro ⟨⟨a₁, h₁⟩, ⟨a₂, h₂⟩, ⟨a₃, h₃⟩, ⟨a₄, h₄⟩, ⟨a₅, h₅⟩, a₆, h₆⟩
    obtain ⟨r, hr⟩ := hsc
    have hok : ∀ {p s : ℕ} {x : Binary64} {a : Decimal p s}, Decimal.ofNumber x = some a →
        (store x : Except BillingError (Decimal p s)) = .ok a := fun hx => orThrow_eq_ok.mpr hx
    refine ⟨⟨a₁, a₂, a₃, r, sc.any (·.taxable), a₄, a₅, a₆⟩, ?_⟩
    rw [figuresOf, hok h₁, ok_bind, hok h₂, ok_bind, hok h₃, ok_bind, hok hr, ok_bind, hok h₄,
      ok_bind, hok h₅, ok_bind, hok h₆, ok_bind]
    rfl

end Figures

/-! ### The bill -/

def BillingDb.rulesOf (db : BillingDb) (outletId : String) : BillingRules :=
  ((db.outlets.find? outletId).bind (·.billingSettings)).getD defaultBillingRules

def BillingDb.chargeOf (db : BillingDb) (order : Order) : Option ServiceCharge :=
  serviceChargeFor (db.rulesOf order.outletId) order

/-- The bill of an order as it stands, with this discount. -/
def BillingDb.billOf (db : BillingDb) (order : Order) (discount : Binary64) : BillTotals :=
  computeBill ((db.itemsOf order.id).map (·.moneyLine))
    ⟨discount, db.chargeOf order, (db.rulesOf order.outletId).roundOffEnabled⟩

theorem whole_moneyLines (items : List OrderItem) :
    ∀ l ∈ items.map OrderItem.moneyLine, ∃ m : ℤ, l.lineTotalPaise.val = m := by
  intro l hl
  obtain ⟨i, -, rfl⟩ := List.mem_map.mp hl
  exact ⟨_, val_toPaise_toNumber i.lineTotal⟩

/-- The rate of an outlet's service charge is stored. -/
theorem BillingDb.Columns.rate {db : BillingDb} (h : db.Columns) (order : Order) :
    ∃ r : Rate, Decimal.ofNumber ((db.chargeOf order).elim 0 (·.percent)) = some r := by
  have hzero : ∃ r : Rate, Decimal.ofNumber (0 : Binary64) = some r := by
    refine ⟨0, ?_⟩
    have h := Decimal.ofNumber_toNumber (p := 5) (s := 2) (by norm_num) (by norm_num) 0
    rwa [show (0 : Rate).toNumber = 0 by
      apply Binary64.ext
      simp [Decimal.toNumber]] at h
  unfold BillingDb.chargeOf serviceChargeFor
  split
  · exact hzero
  · split
    · unfold BillingDb.rulesOf
      cases hsettings : (db.outlets.find? order.outletId).bind (·.billingSettings) with
      | none => exact hzero
      | some rules =>
        obtain ⟨outlet, houtlet, hrules⟩ := Option.bind_eq_some_iff.mp hsettings
        obtain ⟨r, hr⟩ := h.percents outlet (KeyedTable.find?_eq_some.mp houtlet).1 rules hrules
        refine ⟨r, ?_⟩
        rw [Option.getD_some, Option.elim_some, hr]
        exact Decimal.ofNumber_toNumber (by norm_num) (by norm_num) r
    · exact hzero

/-! ### Reading -/

section Reading

variable {s : BillingDb × ℕ} {user : AuthUser} {orderId : RowId}

theorem ends_assertOutlet {outletId : String} {Q : Unit → BillingDb × ℕ → Prop} :
    (liftM (assertOutlet user outletId) : BillingTx Unit).Ends s Q ↔
      outletId ∈ user.outletIds ∧ Q () s := by
  rw [ends_liftM]
  exact ⟨fun ⟨_, hu, hQ⟩ => ⟨ensure_eq_ok.mp hu, hQ⟩, fun ⟨hc, hQ⟩ => ⟨(), ensure_eq_ok.mpr hc, hQ⟩⟩

theorem ends_lockOpenOrder {Q : Order → BillingDb × ℕ → Prop} :
    (lockOpenOrder user orderId).Ends s Q ↔ ∃ o, s.1.orders.find? orderId = some o ∧
      o.outletId ∈ user.outletIds ∧ o.status = .opened ∧ Q o s := by
  simp only [lockOpenOrder, ends_bind, ends_acquire, ends_query, ends_require, ends_assertOutlet,
    ends_check, ends_pure]

theorem ends_requireOrder {Q : Order → BillingDb × ℕ → Prop} :
    (requireOrder user orderId).Ends s Q ↔ ∃ o, s.1.orders.find? orderId = some o ∧
      o.outletId ∈ user.outletIds ∧ Q o s := by
  simp only [requireOrder, ends_bind, ends_query, ends_require, ends_assertOutlet, ends_pure]

theorem reads_resolveDiscounts (order : Order) (input : SettlePreviewInput) (pointValue : Binary64)
    (phone : String) (now : Time) :
    (resolveDiscounts order input pointValue phone now).Does fun w _ => w = id := by
  have hcoupon : (resolveCoupon order input.couponCode now).Does fun w _ => w = id := by
    unfold resolveCoupon
    cases truthy input.couponCode with
    | none => exact rfl
    | some code =>
      simp only [does_bind, does_query, does_check, does_pure]
      exact fun _ _ => rfl
  simp only [resolveDiscounts, does_bind]
  refine hcoupon.mono fun w _ hw => ?_
  subst hw
  simp only [does_check, does_pure]
  exact fun _ => rfl

theorem ends_billFor {discount : Binary64}
    {Q : BillTotals × Option ServiceCharge → BillingDb × ℕ → Prop} :
    (billFor orderId discount false).Ends s Q ↔ ∃ o, s.1.orders.find? orderId = some o ∧
      Q (s.1.billOf o discount, s.1.chargeOf o) s := by
  simp only [billFor, loadBillingRules, ends_bind, ends_query, ends_require, ends_pure]
  refine exists_congr fun o => and_congr_right fun ho => ?_
  have hid : o.id = orderId := (KeyedTable.find?_eq_some.mp ho).2
  rw [BillingDb.billOf, hid]
  rfl

theorem ends_recomputeTotals {discount : Binary64} {Q : OrderFigures → BillingDb × ℕ → Prop} :
    (recomputeTotals orderId (some discount) false).Ends s Q ↔
      ∃ o, s.1.orders.find? orderId = some o ∧
        ∃ f, figuresOf (s.1.billOf o discount) (s.1.chargeOf o) = .ok f ∧
          Q f (s.1.setFigures orderId f, s.2) := by
  simp only [recomputeTotals, ends_bind, ends_query, ends_require, ends_billFor, ends_liftM,
    ends_update, ends_pure, Option.getD_some]
  constructor
  · rintro ⟨o, ho, o', ho', h⟩
    exact ⟨o', ho', h⟩
  · rintro ⟨o, ho, h⟩
    exact ⟨o, ho, o, ho, h⟩

/-- What a preview takes to end well. -/
theorem ends_preview {now : Time} {input : SettlePreviewInput}
    {Q : BillTotals × Discounts → BillingDb × ℕ → Prop} :
    (preview user now orderId input).Ends s Q ↔ ∃ o, s.1.orders.find? orderId = some o ∧
      o.outletId ∈ user.outletIds ∧ o.status = .opened ∧ o.splitCount = none ∧
      ∃ outlet, s.1.outlets.find? o.outletId = some outlet ∧
        ∃ d, (resolveDiscounts o input outlet.loyaltyPointValue (settlePhone o input) now).exec s =
            .ok (d, s) ∧ Q (s.1.billOf o d.totalDiscount, d) s := by
  simp only [preview, ends_bind, ends_requireOrder, ends_check, ends_query, ends_require,
    ends_of_reads (reads_resolveDiscounts _ _ _ _ _), ends_billFor, ends_pure]
  refine exists_congr fun o => and_congr_right fun ho => and_congr_right fun _ =>
    and_congr_right fun _ => and_congr_right fun _ => exists_congr fun outlet =>
    and_congr_right fun _ => exists_congr fun d => and_congr_right fun _ => ?_
  constructor
  · rintro ⟨o', ho', h⟩
    rw [ho] at ho'
    cases ho'
    exact h
  · exact fun h => ⟨o, ho, h⟩

theorem preview_eq_ok {db : BillingDb} {n : ℕ} {now : Time} {input : SettlePreviewInput}
    {order : Order} {totals : BillTotals} {d : Discounts}
    (horder : db.orders.find? orderId = some order) :
    (preview user now orderId input).exec (db, n) = .ok ((totals, d), (db, n)) ↔
      order.outletId ∈ user.outletIds ∧ order.status = .opened ∧ order.splitCount = none ∧
        ∃ outlet, db.outlets.find? order.outletId = some outlet ∧
          (resolveDiscounts order input outlet.loyaltyPointValue (settlePhone order input) now).exec
            (db, n) = .ok (d, (db, n)) ∧ totals = db.billOf order d.totalDiscount := by
  rw [exec_eq_ok_iff_ends, ends_preview]
  constructor
  · rintro ⟨o, ho, huser, hopen, hsplit, outlet, houtlet, d, hd, heq, -⟩
    cases horder.symm.trans ho
    cases heq
    exact ⟨huser, hopen, hsplit, outlet, houtlet, hd, rfl⟩
  · rintro ⟨huser, hopen, hsplit, outlet, houtlet, hd, rfl⟩
    exact ⟨order, horder, huser, hopen, hsplit, outlet, houtlet, d, hd, rfl, rfl⟩

end Reading

/-! ### Codes, points and gift cards -/

/-- The gift cards of payments, with what each is to pay. -/
def giftCardsOf (payments : List SettlePayment) : List (String × Binary64) :=
  (payments.filter fun p => p.mode = .giftCard).map fun p =>
    (normaliseGiftCode (p.giftCardCode.getD ""), toPaise p.amount)

/-- What a gift card is to pay together, in paise. -/
def owedBy (payments : List SettlePayment) (code : String) : Binary64 :=
  ((giftCardsOf payments).filter fun c => c.1 = code).foldl (fun s c => s + c.2) 0

/-- A gift card is good for an amount. -/
def GoodCard (db : BillingDb) (now : Time) (code : String) (amount : Binary64) : Prop :=
  ∃ card, db.giftCards.find? code = some card ∧ card.active = true ∧
    card.expiresAt.all (now < ·) = true ∧ amount ≤ toPaise card.balance.toNumber

/-- The code, the points and the gift cards of a settlement are good. -/
structure Backed (db : BillingDb) (now : Time) (order : Order) (input : SettleOrderInput) : Prop where
  otp : 0 < input.redeemPoints → ∃ code, truthy input.redeemOtp = some code ∧
    ∃ otp, latestOtp db order.outletId (settlePhone order input.toSettlePreviewInput) now = some otp ∧
      otp.code = trim code
  points : 0 < input.redeemPoints →
    ∃ c, db.customers.find? (order.outletId, settlePhone order input.toSettlePreviewInput) = some c ∧
      (input.redeemPoints : ℤ) ≤ c.loyaltyPoints
  cards : ∀ c ∈ giftCardsOf input.payments, GoodCard db now c.1 (owedBy input.payments c.1)

theorem wholePaise_owedBy (payments : List SettlePayment) (code : String) :
    WholePaise (owedBy payments code) := by
  refine wholePaise_foldl (fun c : String × Binary64 => c.2) _ fun c hc => ?_
  obtain ⟨p, -, rfl⟩ := List.mem_map.mp (List.mem_filter.mp hc).1
  exact wholePaise_toPaise p.positive.le

section Writing

variable {s : BillingDb × ℕ} {now : Time} {Q : Unit → BillingDb × ℕ → Prop}

theorem ends_redeemGiftCard {code : String} {amount : Binary64} (hamount : WholePaise amount)
    (hgood : GoodCard s.1 now code amount)
    (h : ∀ cards : KeyedTable GiftCard.code,
      (∀ code' ≠ code, cards.find? code' = s.1.giftCards.find? code') →
        Q () ({ s.1 with giftCards := cards }, s.2)) :
    (redeemGiftCard now code amount).Ends s Q := by
  obtain ⟨card, hcard, hactive, hexpires, hbalance⟩ := hgood
  have hpaise : WholePaise (toPaise card.balance.toNumber) := by
    refine ⟨card.balance.scaled, ?_, val_toPaise_toNumber _⟩
    have hle := Binary64.nonneg_iff.mp (hamount.nonneg.trans hbalance)
    rw [val_toPaise_toNumber] at hle
    exact_mod_cast hle
  -- what is left is no more than what was there
  have hafter : ∃ after : Amount,
      (store (fromPaise (toPaise card.balance.toNumber - amount)) : Except BillingError Amount) =
        .ok after := by
    obtain ⟨k, hk0, hk⟩ := hpaise.sub hamount hbalance
    have hle : toPaise card.balance.toNumber - amount ≤ toPaise card.balance.toNumber := by
      have hround := Binary64.round_mono
        (sub_le_self (toPaise card.balance.toNumber).val (Binary64.nonneg_iff.mp hamount.nonneg))
      rwa [(toPaise card.balance.toNumber).representable] at hround
    have hle' := Binary64.le_def.mp hle
    rw [hk, val_toPaise_toNumber] at hle'
    have hkle : k ≤ card.balance.scaled := by exact_mod_cast hle'
    have hbound := abs_lt.mp card.balance.bound
    refine ⟨⟨k, ?_⟩, orThrow_eq_ok.mpr ((ofNumber_fromPaise_eq_some hk).mpr rfl)⟩
    rw [abs_of_nonneg hk0]
    omega
  obtain ⟨after, hafter⟩ := hafter
  simp only [redeemGiftCard, ends_bind, ends_acquire, ends_query, ends_require, ends_check,
    ends_liftM, ends_update]
  refine ⟨card, hcard, hactive, hexpires, hbalance, after, hafter, h _ fun code' hne => ?_⟩
  refine KeyedTable.find?_modify_of_not _ fun c _ hc => ?_
  exact decide_eq_false fun hcode => hne (hc.symm.trans hcode)

/-- Gift cards pay one after the other, none twice. -/
theorem ends_redeemCards {amount : String → Binary64} (hamount : ∀ code, WholePaise (amount code))
    {codes : List String} (hnodup : codes.Nodup) (hgood : ∀ code ∈ codes, GoodCard s.1 now code (amount code))
    (h : ∀ cards, Q () ({ s.1 with giftCards := cards }, s.2)) :
    (codes.foldlM (fun _ code => redeemGiftCard now code (amount code)) ()).Ends s Q := by
  induction codes generalizing s with
  | nil => exact (ends_pure ()).mpr (h s.1.giftCards)
  | cons code codes ih =>
    obtain ⟨hnotin, hnodup⟩ := List.nodup_cons.mp hnodup
    rw [List.foldlM_cons, ends_bind]
    refine ends_redeemGiftCard (hamount code) (hgood code List.mem_cons_self) fun cards hcards => ?_
    refine ih hnodup (fun code' hcode' => ?_) fun cards' => h cards'
    obtain ⟨card, hcard, hrest⟩ := hgood code' (List.mem_cons_of_mem _ hcode')
    refine ⟨card, ?_, hrest⟩
    rw [← hcard]
    exact hcards code' fun heq => hnotin (heq ▸ hcode')

theorem ends_takePayments {orderId : RowId} {total : Binary64} {payments : List SettlePayment}
    (hpaid : toPaise (fromPaise (payments.foldl (fun s p => s + toPaise p.amount) 0)) = toPaise total)
    (hcards : ∀ c ∈ giftCardsOf payments, GoodCard s.1 now c.1 (owedBy payments c.1))
    (hstore : ∀ p ∈ payments, ∃ a : Amount, store p.amount = .ok a)
    (h : ∀ cards rows, Q () ({ s.1 with giftCards := cards, payments := rows }, s.2)) :
    (takePayments now orderId total payments).Ends s Q := by
  simp only [takePayments, ends_bind, ends_check]
  refine ⟨hpaid, ends_redeemCards (wholePaise_owedBy payments) ?_ (fun code hcode => ?_)
    fun cards => ends_mapM_reads (fun p hp => ?_) fun rows => (ends_update _).mpr (h cards _)⟩
  · exact ((List.perm_insertionSort _ _).nodup_iff).mpr (List.nodup_dedup _)
  · have hmem := List.mem_dedup.mp ((List.perm_insertionSort _ _).mem_iff.mp hcode)
    obtain ⟨c, hc, rfl⟩ := List.mem_map.mp hmem
    exact hcards c hc
  · obtain ⟨a, ha⟩ := hstore p hp
    refine ⟨⟨orderId, p.mode, a⟩, ?_⟩
    rw [exec_bind, ha]
    rfl

theorem ends_consumeOtp {outletId phone : String} {input : SettleOrderInput} {orderId : RowId}
    {Q : Option ℕ → BillingDb × ℕ → Prop}
    (hotp : 0 < input.redeemPoints → ∃ code, truthy input.redeemOtp = some code ∧
      ∃ otp, latestOtp s.1 outletId phone now = some otp ∧ otp.code = trim code)
    (h : ∀ otpId otps uses, Q otpId ({ s.1 with otps := otps, otpUses := uses }, s.2)) :
    (consumeOtp outletId phone input now orderId).Ends s Q := by
  unfold consumeOtp
  split
  · obtain ⟨code, hcode, otp, hlatest, hsame⟩ := hotp ‹_›
    simp only [verifyAndConsume, ends_map, ends_bind, ends_require, ends_query, ends_check,
      ends_acquire, ends_update, ends_pure]
    exact ⟨code, hcode, otp, hlatest, hsame, h _ _ _⟩
  · exact (ends_pure _).mpr (h none s.1.otps s.1.otpUses)

theorem ends_nextBillNumber {outletId : String} {outlet : Outlet} {Q : ℕ → BillingDb × ℕ → Prop}
    (houtlet : s.1.outlets.find? outletId = some outlet)
    (h : ∀ number outlets, Q number ({ s.1 with outlets := outlets }, s.2)) :
    (nextBillNumber outletId).Ends s Q := by
  simp only [nextBillNumber, drawNumber, ends_bind, ends_acquire, ends_query, ends_require,
    ends_update, ends_pure]
  exact ⟨outlet, houtlet, h _ _⟩

theorem ends_redeemCustomerPoints {outletId phone : String} {points : ℕ} {c : Customer}
    (hc : s.1.customers.find? (outletId, phone) = some c) (hpoints : (points : ℤ) ≤ c.loyaltyPoints)
    (h : ∀ customers, Q () ({ s.1 with customers := customers }, s.2)) :
    (redeemCustomerPoints outletId phone points).Ends s Q := by
  simp only [redeemCustomerPoints, ends_bind, ends_check]
  refine ends_updateWhere ?_ ⟨rfl, h _⟩
  rw [hc, Option.any_some, decide_eq_true_eq]
  exact hpoints

/-- The parent of a check is there; it is closed only while it is open. -/
theorem ends_closeSplitParentIfDone {parentId : RowId} {parent : Order}
    (hparent : s.1.orders.find? parentId = some parent) (hstay : Q () s)
    (hclose : parent.status = .opened → Q () (s.1.updateOrder parentId
      (fun o => { o with status := .split }) fun _ => rfl, s.2)) :
    (closeSplitParentIfDone parentId).Ends s Q := by
  simp only [closeSplitParentIfDone, ends_bind, ends_acquire, ends_query]
  split
  · exact (ends_pure ()).mpr hstay
  · simp only [ends_bind, ends_query, ends_require]
    refine ⟨parent, hparent, ?_⟩
    split
    · exact (ends_pure ()).mpr hstay
    · exact (ends_update _).mpr (hclose (not_not.mp ‹_›))

end Writing

/-! ### Settling -/

section Settling

variable {user : AuthUser} {now : Time} {orderId : RowId} {input : SettleOrderInput}

theorem find?_updateOrder_of_ne {db : BillingDb} {id k : RowId} {f : Order → Order}
    {hf : ∀ o, (f o).id = o.id} (h : k ≠ id) :
    (db.updateOrder id f hf).orders.find? k = db.orders.find? k :=
  KeyedTable.find?_modify_of_not hf fun _ _ hr => decide_eq_false fun hid => h (hr.symm.trans hid)

/-- The end of a settlement, once the points that it redeems are taken. -/
def closing (order : Order) (input : SettleOrderInput) (orderId : RowId) (number : ℕ)
    (phone : String) (discounts : Discounts) (points : ℤ) (otpId : Option ℕ) :
    BillingTx (Option ℕ) := do
  whenever (phone ≠ "")
    (earnCustomerPoints order.outletId phone orderId points input.redeemPoints)
  discounts.coupon.forM fun coupon => countCoupon coupon.1
  update fun db => db.closeBill orderId ("B-" ++ toString number)
    (input.customerName.or order.customerName) phone (discounts.coupon.map (·.2))
  order.parentOrderId.forM closeSplitParentIfDone
  return otpId

/-- A settlement once the figures of its bill are stored. -/
def charging (now : Time) (order : Order) (outlet : Outlet) (input : SettleOrderInput)
    (orderId : RowId) (discounts : Discounts) (otpId : Option ℕ) (figures : OrderFigures) :
    BillingTx (Option ℕ) := do
  let phone := settlePhone order input.toSettlePreviewInput
  takePayments now orderId figures.total.toNumber input.payments
  let number ← nextBillNumber order.outletId
  whenever (0 < input.redeemPoints)
    (redeemCustomerPoints order.outletId phone input.redeemPoints)
  closing order input orderId number phone discounts
    ⌊(figures.total.toNumber * outlet.loyaltyEarnRate).nearestInt.val⌋ otpId

theorem find?_setFigures {db : BillingDb} {order : Order} (f : OrderFigures)
    (horder : db.orders.find? orderId = some order) :
    (db.setFigures orderId f).orders.find? orderId = some { order with figures := f } := by
  rw [BillingDb.setFigures, BillingDb.updateOrder, KeyedTable.find?_modify, horder, Option.map_some,
    decide_eq_true (KeyedTable.find?_eq_some.mp horder).2, if_pos rfl]

/-- After the payments nothing fails: the bill is closed, with its figures. -/
theorem ends_closing {s : BillingDb × ℕ} {order o : Order} {number : ℕ} {phone : String}
    {discounts : Discounts} {points : ℤ} {otpId : Option ℕ} (ho : s.1.orders.find? orderId = some o)
    (hparents : ∀ p, order.parentOrderId = some p → ∃ parent, s.1.orders.find? p = some parent) :
    (closing order input orderId number phone discounts points otpId).Ends s fun _ s' =>
      ∃ o', s'.1.orders.find? orderId = some o' ∧ o'.status = .settled ∧ o'.figures = o.figures := by
  unfold closing
  -- neither the customer nor the coupon has to do with the bills
  suffices hclose : ∀ t : BillingDb × ℕ, t.1.orders = s.1.orders →
      (do
        update fun db => db.closeBill orderId ("B-" ++ toString number)
          (input.customerName.or order.customerName) phone (discounts.coupon.map (·.2))
        order.parentOrderId.forM closeSplitParentIfDone
        return otpId : BillingTx (Option ℕ)).Ends t fun _ s' =>
          ∃ o', s'.1.orders.find? orderId = some o' ∧ o'.status = .settled ∧
            o'.figures = o.figures by
    have hcoupon : ∀ t : BillingDb × ℕ, t.1.orders = s.1.orders →
        (discounts.coupon.forM fun coupon => countCoupon coupon.1 : BillingTx Unit).Ends t
          fun _ t' => t'.1.orders = s.1.orders := by
      intro t ht
      refine ends_forM (fun c _ => ?_) fun _ => ht
      simp only [countCoupon, ends_bind, ends_acquire, ends_update]
      exact ht
    rw [ends_bind]
    refine ends_whenever (fun _ => ?_) fun _ => ?_
    · rw [earnCustomerPoints, ends_bind, ends_acquire, ends_update]
      exact (ends_bind _ _).mpr
        ((hcoupon (s.1.earnPoints _ _ _ _ _, s.2) rfl).mono fun _ t ht => hclose t ht)
    · exact (ends_bind _ _).mpr ((hcoupon s rfl).mono fun _ t ht => hclose t ht)
  intro t ht
  rw [ends_bind, ends_update, ends_bind]
  have hfind : ∀ k, (t.1.closeBill orderId ("B-" ++ toString number)
      (input.customerName.or order.customerName) phone (discounts.coupon.map (·.2))).orders.find? k =
      (s.1.orders.find? k).map _ := fun k => by
    rw [BillingDb.closeBill, BillingDb.updateOrder, KeyedTable.find?_modify, ht]
  have hclosed := hfind orderId
  rw [ho, Option.map_some, decide_eq_true (KeyedTable.find?_eq_some.mp ho).2, if_pos rfl] at hclosed
  refine ends_forM (fun p hp => ?_) fun _ => (ends_pure _).mpr ⟨_, hclosed, rfl, rfl⟩
  obtain ⟨parent, hparent⟩ := hparents p hp
  have hparent' := hfind p
  rw [hparent, Option.map_some] at hparent'
  refine ends_closeSplitParentIfDone hparent' ((ends_pure _).mpr ⟨_, hclosed, rfl, rfl⟩) fun hopened => ?_
  -- a check that is its own parent is closed by now
  have hne : parent.id ≠ orderId := by
    intro heq
    rw [decide_eq_true heq, if_pos rfl] at hopened
    cases hopened
  rw [ends_pure]
  refine ⟨_, (find?_updateOrder_of_ne fun heq => hne ?_).trans hclosed, rfl, rfl⟩
  rw [heq, (KeyedTable.find?_eq_some.mp hparent).2]

variable {db : BillingDb} {n : ℕ} {order : Order}

/-- What a preview of the same request has found, and payments that come to its total, are accepted. -/
theorem settle_accepted {outlet : Outlet} {d : Discounts} {f : OrderFigures}
    (horder : db.orders.find? orderId = some order) (huser : order.outletId ∈ user.outletIds)
    (hopen : order.status = .opened) (hsplit : order.splitCount = none)
    (houtlet : db.outlets.find? order.outletId = some outlet)
    (hd : (resolveDiscounts order input.toSettlePreviewInput outlet.loyaltyPointValue
      (settlePhone order input.toSettlePreviewInput) now).exec (db, n) = .ok (d, (db, n)))
    (hf : figuresOf (db.billOf order d.totalDiscount) (db.chargeOf order) = .ok f)
    (hpaid : paidPaise input.payments = (toPaise (db.billOf order d.totalDiscount).total).val)
    (hparents : ∀ p, order.parentOrderId = some p → ∃ parent, db.orders.find? p = some parent)
    (hbacked : Backed db now order input) :
    (settle user now orderId input).Ends (db, n) fun _ s' =>
      ∃ o, s'.1.orders.find? orderId = some o ∧ o.status = .settled ∧ o.figures = f := by
  have htotal : f.total.toNumber = (db.billOf order d.totalDiscount).total :=
    (shows_of_figuresOf (whole_moneyLines _) hf).total
  have hscaled : (toPaise f.total.toNumber).val = f.total.scaled := val_toPaise_toNumber _
  rw [← htotal] at hpaid
  have hbound := abs_lt.mp f.total.bound
  -- the payments match, and none of them is more than the total
  have hmatch := (paid_eq_iff input.payments hscaled (by omega)).mpr hpaid
  have hstore : ∀ p ∈ input.payments, ∃ a : Amount, store p.amount = .ok a := by
    intro p hp
    refine store_payment p (lt_of_le_of_lt ?_ (b := (f.total.scaled : ℚ)) (by exact_mod_cast hbound.2))
    rw [← hscaled, ← hpaid]
    refine List.single_le_sum (fun x hx => ?_) _ (List.mem_map_of_mem hp)
    obtain ⟨q, -, rfl⟩ := List.mem_map.mp hx
    exact Binary64.nonneg_iff.mp (wholePaise_toPaise q.positive.le).nonneg
  unfold settle
  rw [ends_bind, ends_lockOpenOrder]
  refine ⟨order, horder, huser, hopen, ?_⟩
  rw [ends_bind, ends_check]
  refine ⟨hsplit, ?_⟩
  rw [ends_bind, ends_query, ends_bind, ends_require]
  refine ⟨outlet, houtlet, ?_⟩
  rw [ends_bind, ends_of_reads (reads_resolveDiscounts _ _ _ _ _)]
  refine ⟨d, hd, ?_⟩
  rw [ends_bind]
  refine ends_consumeOtp hbacked.otp fun otpId otps uses => ?_
  rw [ends_bind, ends_recomputeTotals]
  refine ⟨order, horder, f, hf, ?_⟩
  change (charging now order outlet input orderId d otpId f).Ends _ _
  rw [charging, ends_bind]
  refine ends_takePayments hmatch hbacked.cards hstore fun cards rows => ?_
  rw [ends_bind]
  refine ends_nextBillNumber houtlet fun number outlets => ?_
  -- what is left writes the customer, the coupon and the bills
  have hset := find?_setFigures f horder
  have hset_parents : ∀ p, order.parentOrderId = some p →
      ∃ parent, (db.setFigures orderId f).orders.find? p = some parent := by
    intro p hp
    obtain ⟨parent, hparent⟩ := hparents p hp
    rw [BillingDb.setFigures, BillingDb.updateOrder, KeyedTable.find?_modify, hparent]
    exact ⟨_, rfl⟩
  have hclosing : ∀ {t : BillingDb × ℕ} (points : ℤ),
      t.1.orders = (db.setFigures orderId f).orders →
      (closing order input orderId number (settlePhone order input.toSettlePreviewInput) d points
        otpId).Ends t fun _ s' =>
          ∃ o, s'.1.orders.find? orderId = some o ∧ o.status = .settled ∧ o.figures = f :=
    fun _ ht => ends_closing (ht ▸ hset) (ht ▸ hset_parents)
  rw [ends_bind]
  refine ends_whenever (fun hpoints => ?_) fun _ => hclosing _ rfl
  obtain ⟨c, hc, hle⟩ := hbacked.points hpoints
  exact ends_redeemCustomerPoints hc hle fun customers => hclosing _ rfl

theorem writes_of_consumeOtp {outletId phone : String} {s : BillingDb × ℕ}
    {Q : Option ℕ → BillingDb × ℕ → Prop} (h : (consumeOtp outletId phone input now orderId).Ends s Q) :
    ∃ otpId otps uses, Q otpId ({ s.1 with otps := otps, otpUses := uses }, s.2) := by
  unfold consumeOtp at h
  split at h
  · simp only [verifyAndConsume, ends_map, ends_bind, ends_require, ends_query, ends_check,
      ends_acquire, ends_update, ends_pure] at h
    obtain ⟨code, -, otp, -, -, h⟩ := h
    exact ⟨_, _, _, h⟩
  · exact ⟨_, _, _, (ends_pure _).mp h⟩

/-- A settlement that is accepted has found what a preview finds, figures that fit the bill's
row, and payments that come to the total. -/
theorem accepted_of_settle {Q : Option ℕ → BillingDb × ℕ → Prop}
    (horder : db.orders.find? orderId = some order)
    (h : (settle user now orderId input).Ends (db, n) Q) :
    order.outletId ∈ user.outletIds ∧ order.status = .opened ∧ order.splitCount = none ∧
      ∃ outlet, db.outlets.find? order.outletId = some outlet ∧
        ∃ d, (resolveDiscounts order input.toSettlePreviewInput outlet.loyaltyPointValue
            (settlePhone order input.toSettlePreviewInput) now).exec (db, n) = .ok (d, (db, n)) ∧
          ∃ f, figuresOf (db.billOf order d.totalDiscount) (db.chargeOf order) = .ok f ∧
            paidPaise input.payments = (toPaise (db.billOf order d.totalDiscount).total).val ∧
            ∃ otpId s, s.1.orders = (db.setFigures orderId f).orders ∧
              (charging now order outlet input orderId d otpId f).Ends s Q := by
  unfold settle at h
  rw [ends_bind, ends_lockOpenOrder] at h
  obtain ⟨order', horder', huser, hopen, h⟩ := h
  cases horder.symm.trans horder'
  rw [ends_bind, ends_check] at h
  obtain ⟨hsplit, h⟩ := h
  rw [ends_bind, ends_query, ends_bind, ends_require] at h
  obtain ⟨outlet, houtlet, h⟩ := h
  rw [ends_bind, ends_of_reads (reads_resolveDiscounts _ _ _ _ _)] at h
  obtain ⟨d, hd, h⟩ := h
  rw [ends_bind] at h
  obtain ⟨otpId, otps, uses, h⟩ := writes_of_consumeOtp h
  rw [ends_bind, ends_recomputeTotals] at h
  obtain ⟨order', horder', f, hf, h⟩ := h
  cases horder.symm.trans horder'
  refine ⟨huser, hopen, hsplit, outlet, houtlet, d, hd, f, hf, ?_, otpId, _, rfl, h⟩
  rw [ends_bind, takePayments, ends_bind, ends_check] at h
  have htotal : f.total.toNumber = (db.billOf order d.totalDiscount).total :=
    (shows_of_figuresOf (whole_moneyLines _) hf).total
  have hscaled : (toPaise f.total.toNumber).val = f.total.scaled := val_toPaise_toNumber _
  have hbound := abs_lt.mp f.total.bound
  rw [← htotal]
  exact (paid_eq_iff input.payments hscaled (by omega)).mp h.1

end Settling

/-- The open bill of one line. -/
def counterOrder (price : Amount) : Order :=
  { newOrder ⟨0, 0⟩ "o" .takeaway none none none with
    figures := { OrderFigures.zero with subtotal := price, total := price } }

/-- An outlet with a service charge of a tenth, and an open bill of one line. -/
def counterBill (price : Amount) : BillingDb where
  outlets := .put .empty ⟨"o", 1, 1, 1, 1, some ⟨true, 10, true, [.takeaway], false⟩⟩
  tables := .empty
  orders := .put .empty (counterOrder price)
  items := .put .empty ⟨⟨0, 1⟩, ⟨0, 0⟩, "dosa", .one, price, price, 0,
    none, none, false, none, none, ⟨"Dosa", none, none, none, none, .pending, none, none, []⟩⟩
  kots := .empty
  payments := []
  coupons := .empty
  customers := .empty
  otps := .empty
  giftCards := .empty
  unsplits := []
  comboChoices := []
  loyaltyTransactions := []
  otpUses := []
  edgeInvoices := []

/-- The bill is paid in cash. -/
def payCounter (p : SettlePayment) : SettleOrderInput where
  discountAmount := none
  discount_nonneg := noDiscount_nonneg
  couponCode := none
  redeemPoints := 0
  customerPhone := none
  payments := [p]
  payments_ne := List.cons_ne_nil p []
  redeemOtp := none
  customerName := none

theorem columns_counterBill (price : Amount) : (counterBill price).Columns where
  percents := by
    intro outlet houtlet rules hrules
    obtain rfl := List.mem_singleton.mp houtlet
    cases hrules
    refine ⟨⟨1000, by decide⟩, ?_⟩
    apply Binary64.ext
    change Binary64.round (10 : ℕ) = Binary64.round ((1000 : ℤ) / 10 ^ 2)
    norm_num
  parents := by
    intro o ho p hp
    obtain rfl := List.mem_singleton.mp ho
    cases hp

theorem backed_counterBill (price : Amount) {p : SettlePayment} (hmode : p.mode = .tender .cash) :
    Backed (counterBill price) 0 (counterOrder price) (payCounter p) where
  otp := fun h => absurd h (lt_irrefl 0)
  points := fun h => absurd h (lt_irrefl 0)
  cards := by
    have hnone : giftCardsOf (payCounter p).payments = [] := by
      simp [giftCardsOf, payCounter, hmode]
    rw [hnone]
    exact List.forall_mem_nil _

/-- Nothing is taken off. -/
def noDiscounts (price : Amount) : Discounts where
  coupon := none
  couponDiscount := 0
  redeemDiscount := 0
  totalDiscount := min ((0 : Amount).toNumber + 0 + 0 + 0) price.toNumber

theorem resolveDiscounts_payCounter (price : Amount) (p : SettlePayment) (phone : String) :
    (resolveDiscounts (counterOrder price) (payCounter p).toSettlePreviewInput 1 phone 0).exec
      (counterBill price, 0) = .ok (noDiscounts price, (counterBill price, 0)) := by
  have hcoupon : resolveCoupon (counterOrder price) none 0 = pure (none, 0) := rfl
  unfold resolveDiscounts payCounter
  simp only [hcoupon, pure_bind, lt_irrefl, if_false, Option.getD_none]
  rfl

theorem preview_counterBill (price : Amount) (p : SettlePayment) :
    (preview ⟨"u", ["o"]⟩ 0 ⟨0, 0⟩ (payCounter p).toSettlePreviewInput).exec (counterBill price, 0) =
      .ok (((counterBill price).billOf (counterOrder price) (noDiscounts price).totalDiscount,
        noDiscounts price), (counterBill price, 0)) :=
  (preview_eq_ok rfl).mpr ⟨List.mem_singleton_self _, rfl, rfl, _, rfl,
    resolveDiscounts_payCounter price p _, rfl⟩

/-- Ninety-nine million rupees. -/
def largeBill : Amount := ⟨9900000000, by decide⟩

end StelloKitchens.Billing
