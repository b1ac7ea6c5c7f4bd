import StelloKitchens.Edge.Simulation

/-!
# What every order of the device looks like

The facts about an order that its checks establish and no operation loses: it has lines, each a
well-formed one; its figures are those of its lines and its discounts; a settled order is paid in
full; one that is not settled has neither payments nor discounts nor a number.

## Main definitions

* `Order.Sound` — these facts.

## Main results

* `Ledger.Effect.ordersSound` — every effect keeps them.
* `edgeEngine_sound` — they hold of every order of a reachable state.
-/

namespace StelloKitchens

/-- What holds of an order from its first round on. -/
structure Order.Sound (o : Order) : Prop where
  lines_ne_nil : o.lines ≠ []
  lines : ∀ l ∈ o.lines, l.WellFormed
  totals_eq : o.totals =
    orderTotals o.lines (EdgeDb.discountOf o.manualDiscount o.couponDiscount)
  manual_nonneg : 0 ≤ o.manualDiscount
  coupon_cents : IsMultipleOfCent o.couponDiscount
  payment : ∀ p ∈ o.payments, 0 < p.amount ∧ EdgeDb.wholePaise p.amount ∧ MaxLength 60 p.reference
  billNo : ∀ b ∈ o.billNo, isEdgeSeries b.series ∧ 0 < b.seq ∧ utf16Length b.number ≤ 16
  /-- A settled order is paid in full, and its discount is covered by its lines. -/
  paid : o.status = .settled → o.payments ≠ [] ∧
    EdgeDb.paidPaise o.payments = toPaise o.totals.total ∧
    EdgeDb.discountOf o.manualDiscount o.couponDiscount ≤ (orderTotals o.lines 0).subtotal
  unpaid : o.status ≠ .settled → o.payments = [] ∧ o.billNo = none ∧ o.couponCode = none ∧
    o.manualDiscount = 0 ∧ o.couponDiscount = 0

/-! ### The kitchen marks do not count -/

theorem OrderLine.money_served (l : OrderLine) : l.served.money = l.money := rfl

theorem OrderLine.wellFormed_served {l : OrderLine} : l.served.WellFormed ↔ l.WellFormed :=
  ⟨fun h => ⟨h.1, h.2, h.3, h.4, h.5⟩, fun h => ⟨h.1, h.2, h.3, h.4, h.5⟩⟩

theorem orderTotals_congr {lines lines' : List OrderLine}
    (h : lines.map OrderLine.served = lines'.map OrderLine.served) (discount : Binary64) :
    orderTotals lines discount = orderTotals lines' discount := by
  have hmoney : ∀ ls : List OrderLine,
      ls.map OrderLine.money = (ls.map OrderLine.served).map OrderLine.money := by
    intro ls
    rw [List.map_map]
    exact List.map_congr_left fun l _ => (OrderLine.money_served l).symm
  rw [orderTotals, orderTotals, hmoney lines, hmoney lines', h]

/-- An order that differs in its kitchen marks only is as sound. -/
theorem Order.Sound.of_served {o o' : Order} (h : o.Sound) (heq : o'.served = o.served) :
    o'.Sound := by
  have hlines : o'.lines.map OrderLine.served = o.lines.map OrderLine.served :=
    congrArg Order.lines heq
  have htotals := orderTotals_congr hlines
  have hne : o'.lines ≠ [] := by
    intro hnil
    rw [hnil] at hlines
    exact h.lines_ne_nil (List.map_eq_nil_iff.mp hlines.symm)
  have hwell : ∀ l ∈ o'.lines, l.WellFormed := by
    intro l hl
    have hmem : l.served ∈ o.lines.map OrderLine.served :=
      hlines ▸ List.mem_map.mpr ⟨l, hl, rfl⟩
    obtain ⟨l₀, hl₀, hserved⟩ := List.mem_map.mp hmem
    rw [← OrderLine.wellFormed_served, ← hserved, OrderLine.wellFormed_served]
    exact h.lines l₀ hl₀
  have hstatus : o'.status = o.status := (congrArg Order.status heq :)
  have hpayments : o'.payments = o.payments := (congrArg Order.payments heq :)
  have hmanual : o'.manualDiscount = o.manualDiscount := (congrArg Order.manualDiscount heq :)
  have hcoupon : o'.couponDiscount = o.couponDiscount := (congrArg Order.couponDiscount heq :)
  have hcode : o'.couponCode = o.couponCode := (congrArg Order.couponCode heq :)
  have hbill : o'.billNo = o.billNo := (congrArg Order.billNo heq :)
  have hfigures : o'.totals = o.totals := (congrArg Order.totals heq :)
  constructor
  · exact hne
  · exact hwell
  · rw [hfigures, htotals, hmanual, hcoupon]
    exact h.totals_eq
  · rw [hmanual]
    exact h.manual_nonneg
  · rw [hcoupon]
    exact h.coupon_cents
  · rw [hpayments]
    exact h.payment
  · rw [hbill]
    exact h.billNo
  · rw [hstatus, hpayments, hfigures, htotals, hmanual, hcoupon]
    exact h.paid
  · rw [hstatus, hpayments, hbill, hcode, hmanual, hcoupon]
    exact h.unpaid

/-! ### A round, a settlement, a cancellation -/

/-- A round on a running order that has nothing paid. -/
theorem Order.Sound.withRound {o : Order} {lines : List OrderLine} (hopen : o.status = .opened)
    (hpayments : o.payments = []) (hbill : o.billNo = none) (hcode : o.couponCode = none)
    (hold : ∀ l ∈ o.lines, l.WellFormed) (hne : lines ≠ []) (hnew : ∀ l ∈ lines, l.WellFormed) :
    (EdgeDb.withRound o lines).Sound := by
  constructor
  · intro h
    exact hne (List.map_eq_nil_iff.mp (List.append_eq_nil_iff.mp h).2)
  · intro l hl
    rcases List.mem_append.mp hl with hl | hl
    · exact hold l hl
    · obtain ⟨l₀, hl₀, rfl⟩ := List.mem_map.mp hl
      have h := hnew l₀ hl₀
      exact ⟨h.1, h.2, h.3, h.4, h.5⟩
  · rw [EdgeDb.withRound, EdgeDb.discountOf_zero]
  · exact le_rfl
  · exact isMultipleOfCent_zero
  · intro p hp
    rw [EdgeDb.withRound, hpayments] at hp
    exact absurd hp List.not_mem_nil
  · intro b hb
    rw [EdgeDb.withRound, hbill] at hb
    cases hb
  · intro h
    exact absurd (hopen.symm.trans h) fun h => nomatch h
  · exact fun _ => ⟨hpayments, hbill, hcode, rfl, rfl⟩

theorem Order.Sound.settled {o : Order} (h : o.Sound) {now : Time} {s : EdgeDb.Settlement}
    {staffId : Option String} {billNo : Option EdgeBillNo} {ref : String} (hs : s.Checked o)
    (hbill : ∀ b ∈ billNo, isEdgeSeries b.series ∧ 0 < b.seq ∧ utf16Length b.number ≤ 16) :
    (EdgeDb.settled o now s staffId billNo ref).Sound where
  lines_ne_nil := h.lines_ne_nil
  lines := h.lines
  totals_eq := hs.totals_eq
  manual_nonneg := hs.manual_nonneg
  coupon_cents := hs.coupon_cents
  payment p hp := ⟨(hs.payment_pos p hp).1, (hs.payment_pos p hp).2, hs.payment_reference p hp⟩
  billNo := hbill
  paid _ := ⟨hs.payments_ne_nil, hs.paid_eq, hs.discount_le⟩
  unpaid hne := absurd rfl hne

theorem Order.Sound.cancelled {o : Order} (h : o.Sound) (hopen : o.status = .opened) {now : Time}
    {staffId reason : Option String} : (EdgeDb.cancelled o now staffId reason).Sound where
  lines_ne_nil := h.lines_ne_nil
  lines := h.lines
  totals_eq := h.totals_eq
  manual_nonneg := h.manual_nonneg
  coupon_cents := h.coupon_cents
  payment := h.payment
  billNo := h.billNo
  paid hs := nomatch hs
  unpaid _ := h.unpaid fun hs => nomatch hopen.symm.trans hs

namespace Ledger

/-- A number that was drawn is a well-formed one. -/
theorem Draw.wellFormed {t t' : KeyedTable BillSeriesRow.key} {billNo : Option EdgeBillNo}
    (h : Draw t billNo t') :
    ∀ b ∈ billNo, isEdgeSeries b.series ∧ 0 < b.seq ∧ utf16Length b.number ≤ 16 := by
  intro b hb
  cases h with
  | none => cases hb
  | next series number at_ hnumber =>
    cases hb
    obtain ⟨index, hcode⟩ := series.allotted
    exact ⟨isEdgeSeries_edgeSeriesCode hcode, Nat.succ_pos _, formatEdgeBillNumber_length hnumber⟩

/-! ### The orders after an effect -/

/-- Every order is sound, and every kitchen update has lines. -/
structure OrdersSound (l : Ledger) : Prop where
  orders : ∀ r ∈ l.orders, r.state.Sound
  updates : ∀ e ∈ l.outbox, ∀ c u, e.key = .kotStatus c u → e.payload ≠ []

theorem Effect.ordersSound {l l' : Ledger} (h : Effect l l') (hinv : l.Inv)
    (hl : l.OrdersSound) : l'.OrdersSound := by
  have hupdates : ∀ e ∈ l'.outbox, ∀ c u, e.key = .kotStatus c u → e.payload ≠ [] := by
    intro e he c u hkey
    rcases h.entry_origin he with ⟨r, hr, hk | ⟨v, -, hpayload⟩⟩ | ⟨e₀, he₀, -, hk, hpayload⟩
    · rw [hk] at hkey
      cases hkey
    · rw [hpayload, EdgeDb.statusLines, Ne, List.mapIdx_eq_nil_iff]
      exact (hl.orders r hr).lines_ne_nil
    · rw [hpayload]
      exact hl.updates e₀ he₀ c u (hk.symm.trans hkey)
  refine ⟨?_, hupdates⟩
  have hsave : ∀ {row : OrderRow} (order : Order), row ∈ l.orders →
      order.clientId = row.clientId → order.Sound → ∀ r ∈ (l.save order).orders, r.state.Sound := by
    intro row order hrow hid hsound r hr
    rcases (mem_save order hrow hid).mp hr with rfl | ⟨hr, -⟩
    · exact hsound
    · exact hl.orders r hr
  cases h with
  | opened now c orderType table input lines hnew hne hlines hfree =>
    intro r hr
    have hnone : l.orders.find? c = none :=
      KeyedTable.find?_eq_none.mpr fun r hr hrc => hnew (hrc ▸ hinv.issued.orders r hr)
    rcases (mem_save_new (l := { l with issued := c :: l.issued }) _ hnone).mp hr with rfl | hr
    · exact .withRound rfl rfl rfl rfl (fun l hl => nomatch hl) hne hlines
    · exact hl.orders r hr
  | extended row now staffId lines hrow hopen hne hlines =>
    have hrow' := hl.orders row hrow
    obtain ⟨hpayments, hbill, hcode, -, -⟩ :=
      hrow'.unpaid fun h => nomatch hopen.symm.trans h
    have hround := Order.Sound.withRound hopen hpayments hbill hcode hrow'.lines hne hlines
    exact hsave (EdgeDb.withAddedRound row.state now staffId lines) hrow rfl
      ⟨hround.1, hround.2, hround.3, hround.4, hround.5, hround.6, hround.7, hround.8, hround.9⟩
  | settled row now s staffId billNo ref series hrow hopen hs hdraw =>
    intro r hr
    rcases (mem_close (l := { l with billSeries := series })
      (EdgeDb.settled row.state now s staffId billNo ref) hrow rfl).mp hr with rfl | ⟨hr, -⟩
    · exact (hl.orders row hrow).settled hs hdraw.wellFormed
    · exact hl.orders r hr
  | cancelled row now staffId reason hrow hopen =>
    intro r hr
    rcases (mem_close (EdgeDb.cancelled row.state now staffId reason) hrow rfl).mp hr with
      rfl | ⟨hr, -⟩
    · exact (hl.orders row hrow).cancelled hopen
    · exact hl.orders r hr
  | bumped row status now items hrow =>
    exact hsave (EdgeDb.markTicket row.state status now items) hrow rfl
      ((hl.orders row hrow).of_served (served_markTicket _ _ _ _))
  | answered now e x r hx hid hkey horder =>
    intro y hy
    rw [answer] at hy
    dsimp only at hy
    split at hy
    · obtain ⟨z, hz, rfl⟩ := (KeyedTable.mem_modify (OrderRow.clientId_answered r)).mp hy
      split <;> exact hl.orders z hz
    · exact hl.orders y hy
  | purged orderCutoff outboxCutoff =>
    exact fun r hr => hl.orders r (KeyedTable.mem_delete.mp hr).1
  | _ => exact hl.orders

end Ledger

/-- Every order of a reachable state is sound. -/
theorem edgeEngine_sound {s : EdgeState} (h : edgeEngine.Reachable s) : s.ledger.OrdersSound := by
  refine edgeEngine_simulated.reach_and (P := Ledger.OrdersSound)
    (by rintro s ⟨deviceId, rfl⟩; exact ledger_inv_fresh deviceId)
    (fun _ _ heffect => heffect.inv) ?_ (fun _ _ heffect => heffect.ordersSound) h
  rintro s ⟨deviceId, rfl⟩
  exact ⟨fun r hr => absurd hr (KeyedTable.notMem_empty r),
    fun e he => absurd he (KeyedTable.notMem_empty e)⟩

end StelloKitchens
