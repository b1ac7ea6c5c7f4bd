import StelloKitchens.Edge.OrderInvariant

/-!
# What the device sends and what the cloud admits

The cloud validates a batch as a whole. Everything the device puts in a batch is admitted except
for what its own operations leave unbounded: the texts and prices of the catalog, the texts an
operator types, amounts off by less than a millionth of a paisa, and years before the common era.

## Main definitions

* `Order.WithinSchema` — the bounds of the schema that the device does not check.

## Main results

* `orderPayload_schema_iff` — a closed order is admitted exactly when it is within these bounds.
* `push_admitted_iff` — a batch is admitted exactly when all its orders are.
* `push_refused` — a sale with a long customer name refuses its batch.
-/

namespace StelloKitchens

/-! ### The bounds that the device does not check -/

/-- What was ordered on a line has ids. -/
def LineSource.WithinSchema : LineSource → Prop
  | .item itemId _ _ => 1 ≤ utf16Length itemId
  | .combo comboId selections => 1 ≤ utf16Length comboId ∧
      ∀ s ∈ selections, 1 ≤ utf16Length s.slotId ∧ 1 ≤ utf16Length s.itemId

structure OrderLine.WithinSchema (l : OrderLine) : Prop where
  source : l.source.WithinSchema
  note : MaxLength 200 l.note
  unitPrice : 0 ≤ l.unitPrice
  taxRate : TaxRateSchema l.taxRate

/-- The order is within the bounds of the schema that the device does not check itself. -/
structure Order.WithinSchema (o : Order) : Prop where
  customerName : MaxLength 80 o.customerName
  customerPhone : MaxLength 20 o.customerPhone
  deliveryAddress : MaxLength 300 o.deliveryAddress
  cancelReason : MaxLength 200 o.cancelReason
  couponCode : MaxLength 40 o.couponCode
  lines : ∀ l ∈ o.lines, l.WithinSchema
  payments : ∀ p ∈ o.payments, IsMultipleOfCent p.amount
  manualDiscount : IsMultipleOfCent o.manualDiscount
  couponDiscount : 0 ≤ o.couponDiscount
  billNo : ∀ b ∈ o.billNo, isFiscalYear b.fy

/-! ### Texts -/

theorem maxLength_truthy {n : ℕ} {s : Option String} :
    MaxLength n (truthy s) ↔ MaxLength n s := by
  constructor
  · intro h t ht
    by_cases hempty : t = ""
    · subst hempty
      exact Nat.zero_le n
    · exact h t (Option.filter_eq_some_iff.mpr ⟨ht, by simpa using hempty⟩)
  · intro h t ht
    exact h t (Option.filter_eq_some_iff.mp ht).1

theorem charUnits_of_isAlphanum {c : Char} (h : c.isAlphanum || c == '-') : charUnits c = 1 := by
  have hsmall : c.toNat ≤ 122 := by
    have hle : ∀ m : UInt32, c.val ≤ m → m.toNat ≤ 122 → c.toNat ≤ 122 :=
      fun m hm hm' => (UInt32.le_iff_toNat_le.mp hm).trans hm'
    rcases Bool.or_eq_true_iff.mp h with h | h
    · rcases Bool.or_eq_true_iff.mp h with h | h
      · rcases Bool.or_eq_true_iff.mp h with h | h
        · have hupper : 65 ≤ c.val ∧ c.val ≤ 90 := of_decide_eq_true h
          exact hle 90 hupper.2 (by decide)
        · exact hle 122 (of_decide_eq_true (Bool.and_eq_true_iff.mp h).2) (by decide)
      · exact hle 57 (of_decide_eq_true (Bool.and_eq_true_iff.mp h).2) (by decide)
    · rw [beq_iff_eq.mp h]
      decide
  rw [charUnits, if_pos (by omega)]

theorem Uuid.utf16Length_text (u : Uuid) : utf16Length u.text = 36 := by
  obtain ⟨hlen, hchars⟩ := u.wellFormed
  have hunits : u.text.toList.map charUnits = u.text.toList.map fun _ => 1 := by
    apply List.map_congr_left
    exact fun c hc => charUnits_of_isAlphanum (List.all_eq_true.mp hchars c hc)
  rw [utf16Length, unitsOf, hunits, List.map_const', List.sum_replicate, hlen]
  rfl

/-- The keys of the outbox are within the bounds of the schema. -/
theorem OutboxKey.lengthBetween (k : OutboxKey) : LengthBetween 1 100 k.text := by
  cases k with
  | order c =>
    rw [LengthBetween, OutboxKey.text, c.utf16Length_text]
    decide
  | kotStatus c u =>
    have hsep : utf16Length ":kot:" = 5 := by decide +kernel
    rw [LengthBetween, OutboxKey.text, utf16Length_append, utf16Length_append,
      c.utf16Length_text, u.utf16Length_text, hsep]
    decide

/-! ### Lines -/

section Lines

variable {l : OrderLine}

theorem positiveInt_quantity (h : l.WellFormed) : PositiveInt l.quantity := by
  refine ⟨h.quantity_isInteger, lt_of_lt_of_le ?_ h.one_le_quantity⟩
  rw [Binary64.lt_def, Binary64.val_zero, Binary64.val_ofNat_of_le (by norm_num)]
  norm_num

theorem moneySchema_unitPrice (h : l.WellFormed) : MoneySchema l.unitPrice ↔ 0 ≤ l.unitPrice := by
  obtain ⟨paise, hpaise⟩ := h.unitPrice_eq
  exact and_iff_left (hpaise ▸ isMultipleOfCent_fromPaise paise)

theorem itemLineInput_schema_iff (h : l.WellFormed) {i : EdgeOrderLineInput}
    (hi : itemLineInput l = some i) : EdgeOrderLineSchema i ↔ l.WithinSchema := by
  unfold itemLineInput at hi
  split at hi
  · rename_i itemId variationId addonIds hsource
    cases hi
    refine ⟨fun hs => ⟨?_, maxLength_truthy.mp hs.note, hs.unitPrice.1, hs.taxRate⟩, fun hs =>
      ⟨?_, positiveInt_quantity h, maxLength_truthy.mpr hs.note,
        (moneySchema_unitPrice h).mpr hs.unitPrice, hs.taxRate⟩⟩
    · rw [hsource]
      exact hs.itemId
    · have := hs.source
      rwa [hsource] at this
  · cases hi

theorem comboLineInput_schema_iff (h : l.WellFormed) {i : EdgeComboLineInput}
    (hi : comboLineInput l = some i) : EdgeComboLineSchema i ↔ l.WithinSchema := by
  unfold comboLineInput at hi
  split at hi
  · cases hi
  · rename_i comboId selections hsource
    cases hi
    refine ⟨fun hs => ⟨?_, maxLength_truthy.mp hs.note, hs.unitPrice.1, hs.taxRate⟩, fun hs =>
      ⟨?_, positiveInt_quantity h, maxLength_truthy.mpr hs.note, ?_,
        (moneySchema_unitPrice h).mpr hs.unitPrice, hs.taxRate⟩⟩
    · rw [hsource]
      exact ⟨hs.comboId, hs.selections⟩
    · have := hs.source
      rw [hsource] at this
      exact this.1
    · have := hs.source
      rw [hsource] at this
      exact this.2

/-- A line is sent as an item or as a combo. -/
theorem sent_as (l : OrderLine) :
    (∃ i, itemLineInput l = some i ∧ comboLineInput l = none) ∨
      ∃ i, itemLineInput l = none ∧ comboLineInput l = some i := by
  unfold itemLineInput comboLineInput
  cases l.source with
  | item itemId variationId addonIds => exact .inl ⟨_, rfl, rfl⟩
  | combo comboId selections => exact .inr ⟨_, rfl, rfl⟩

/-- The lines of a payload are admitted exactly when those of the order are within bounds. -/
theorem lines_schema_iff {lines : List OrderLine} (h : ∀ l ∈ lines, l.WellFormed) :
    ((∀ i ∈ lines.filterMap itemLineInput, EdgeOrderLineSchema i) ∧
      ∀ i ∈ lines.filterMap comboLineInput, EdgeComboLineSchema i) ↔
        ∀ l ∈ lines, l.WithinSchema := by
  constructor
  · rintro ⟨hitems, hcombos⟩ l hl
    rcases sent_as l with ⟨i, hi, -⟩ | ⟨i, -, hi⟩
    · exact (itemLineInput_schema_iff (h l hl) hi).mp
        (hitems i (List.mem_filterMap.mpr ⟨l, hl, hi⟩))
    · exact (comboLineInput_schema_iff (h l hl) hi).mp
        (hcombos i (List.mem_filterMap.mpr ⟨l, hl, hi⟩))
  · intro hall
    refine ⟨fun i hi => ?_, fun i hi => ?_⟩
    · obtain ⟨l, hl, hli⟩ := List.mem_filterMap.mp hi
      exact (itemLineInput_schema_iff (h l hl) hli).mpr (hall l hl)
    · obtain ⟨l, hl, hli⟩ := List.mem_filterMap.mp hi
      exact (comboLineInput_schema_iff (h l hl) hli).mpr (hall l hl)

/-- No line is left out of a payload. -/
theorem length_sent (lines : List OrderLine) :
    (lines.filterMap itemLineInput).length + (lines.filterMap comboLineInput).length =
      lines.length := by
  induction lines with
  | nil => rfl
  | cons l lines ih =>
    rcases sent_as l with ⟨i, hi, hc⟩ | ⟨i, hi, hc⟩
    · rw [List.filterMap_cons_some hi, List.filterMap_cons_none hc, List.length_cons,
        List.length_cons]
      omega
    · rw [List.filterMap_cons_none hi, List.filterMap_cons_some hc, List.length_cons,
        List.length_cons]
      omega

theorem zero_le_lineTotalPaise (h : l.WellFormed) (hprice : 0 ≤ l.unitPrice) :
    0 ≤ l.money.lineTotalPaise := by
  have hq : 0 ≤ l.quantity := (positiveInt_quantity h).2.le
  rw [OrderLine.money, h.lineTotal_eq]
  exact zero_le_toPaise (zero_le_fromPaise (Binary64.zero_le_mul (zero_le_toPaise hprice) hq))

/-- The figures of an order whose lines are within bounds are not negative. -/
theorem zero_le_orderTotals {lines : List OrderLine} (h : ∀ l ∈ lines, l.WellFormed)
    (hs : ∀ l ∈ lines, l.WithinSchema) (discount : Binary64) :
    0 ≤ (orderTotals lines discount).subtotal ∧ 0 ≤ (orderTotals lines discount).taxAmount ∧
      0 ≤ (orderTotals lines discount).total := by
  apply zero_le_computeOrderTotals
  · intro m hm
    obtain ⟨l, hl, rfl⟩ := List.mem_map.mp hm
    exact zero_le_lineTotalPaise (h l hl) (hs l hl).unitPrice
  · intro m hm
    obtain ⟨l, hl, rfl⟩ := List.mem_map.mp hm
    exact (hs l hl).taxRate.1

end Lines

/-! ### Orders -/

/-- A closed order is admitted exactly when it is within the bounds. -/
theorem orderPayload_schema_iff {o : Order} (ho : o.Sound) (hclosed : o.status ≠ .opened) :
    EdgeOrderSchema (orderPayload o) ↔ o.WithinSchema := by
  have hlines := lines_schema_iff ho.lines
  have hpayments : (orderPayload o).payments = o.payments := by
    by_cases hs : o.status = .settled
    · exact if_pos hs
    · exact (if_neg hs).trans (ho.unpaid hs).1.symm
  constructor
  · intro h
    refine ⟨maxLength_truthy.mp h.customerName, maxLength_truthy.mp h.customerPhone,
      maxLength_truthy.mp h.deliveryAddress, maxLength_truthy.mp h.cancelReason,
      maxLength_truthy.mp h.couponCode, hlines.mp ⟨h.items, h.combos⟩, fun p hp => ?_,
      h.manualDiscount.2, h.couponDiscount.1, fun b hb => (h.billNo b hb).fy⟩
    exact (h.payments p (hpayments ▸ hp)).amount.2
  · intro h
    obtain ⟨hitems, hcombos⟩ := hlines.mpr h.lines
    obtain ⟨hsubtotal, htax, htotal⟩ := zero_le_orderTotals ho.lines h.lines
      (EdgeDb.discountOf o.manualDiscount o.couponDiscount)
    rw [← ho.totals_eq] at hsubtotal htax htotal
    have hcents : IsMultipleOfCent o.totals.subtotal ∧ IsMultipleOfCent o.totals.taxAmount ∧
        IsMultipleOfCent o.totals.total := by
      rw [ho.totals_eq]
      exact ⟨isMultipleOfCent_fromPaise _, isMultipleOfCent_fromPaise _,
        isMultipleOfCent_fromPaise _⟩
    have hid := o.clientId.utf16Length_text
    have hcount : 0 < (orderPayload o).items.length + (orderPayload o).combos.length := by
      have hlength : (orderPayload o).items.length + (orderPayload o).combos.length =
          o.lines.length := length_sent o.lines
      rw [hlength]
      exact List.length_pos_iff.mpr ho.lines_ne_nil
    refine ⟨⟨?_, ?_⟩, maxLength_truthy.mpr h.customerName, maxLength_truthy.mpr h.customerPhone,
      maxLength_truthy.mpr h.deliveryAddress, hitems, hcombos, hclosed, fun p hp => ?_,
      ⟨ho.manual_nonneg, h.manualDiscount⟩, maxLength_truthy.mpr h.couponCode,
      ⟨h.couponDiscount, ho.coupon_cents⟩, ⟨hsubtotal, hcents.1⟩, ⟨htax, hcents.2.1⟩,
      ⟨htotal, hcents.2.2⟩, fun b hb => ?_, maxLength_truthy.mpr h.cancelReason, hcount⟩
    · exact (by decide : 1 ≤ 36).trans_eq hid.symm
    · exact hid.trans_le (by decide : 36 ≤ 64)
    · rw [hpayments] at hp
      obtain ⟨hpos, -, href⟩ := ho.payment p hp
      exact ⟨⟨hpos, h.payments p hp⟩, href⟩
    · obtain ⟨hseries, hseq, hnumber⟩ := ho.billNo b hb
      exact ⟨hseries, h.billNo b hb, hseq, hnumber⟩

/-! ### Batches -/

section Batches

variable {s : EdgeState}

/-- The operation of an entry is admitted exactly when its order, if it is one's, is within the
bounds. -/
theorem buildOp_schema_iff (hinv : s.ledger.Inv) (hsound : s.ledger.OrdersSound)
    {e : OutboxEntry} (he : e ∈ s.db.outbox) {op : EdgeOutboxOp} (hop : s.db.buildOp e = some op) :
    EdgeOutboxOpSchema op ↔
      ∀ r ∈ s.db.orders, e.key = .order r.clientId → r.state.WithinSchema := by
  unfold EdgeDb.buildOp at hop
  split at hop
  · rename_i c hkey
    obtain ⟨row, hrow, rfl⟩ := Option.map_eq_some_iff.mp hop
    obtain ⟨hmem, hc⟩ := KeyedTable.find?_eq_some.mp hrow
    have hclosed := (hinv.sync.entry_sync e he row hmem (hc.symm ▸ hkey)).1
    have hiff := orderPayload_schema_iff (hsound.orders row hmem) hclosed
    rw [EdgeOutboxOpSchema, hiff]
    refine ⟨fun h r hr hk => ?_, fun h => ⟨e.key.lengthBetween, h row hmem (hc.symm ▸ hkey)⟩⟩
    have hrc : r.clientId = row.clientId := by
      rw [hkey] at hk
      exact (OutboxKey.order.inj hk).symm.trans hc.symm
    rw [KeyedTable.eq_of_mem hr hmem hrc]
    exact h.2
  · rename_i c u hkey
    cases hop
    have hid := c.utf16Length_text
    refine ⟨fun _ r _ hk => ?_, fun _ => ⟨e.key.lengthBetween, ⟨?_, ?_⟩,
      hsound.updates e he c u hkey⟩⟩
    · rw [hkey] at hk
      cases hk
    · exact (by decide : 1 ≤ 36).trans_eq hid.symm
    · exact hid.trans_le (by decide : 36 ≤ 64)

/-- A batch is admitted exactly when its operations are. -/
theorem pushSend_schema_iff {now : Time} {req : PushRequest}
    (hreq : (s.db.pushSend now).2 = some req) :
    EdgePushSchema ⟨.iso req.sentAt, req.ops⟩ ↔
      ∀ e ∈ req.due, ∀ op ∈ s.db.buildOp e, EdgeOutboxOpSchema op := by
  obtain ⟨hdue, hops⟩ : req.due = s.db.dueEntries now ∧
      req.ops = (s.db.dueEntries now).filterMap s.db.buildOp := by
    simp only [EdgeDb.pushSend] at hreq
    split at hreq
    · cases hreq
    · cases hreq
      exact ⟨rfl, rfl⟩
  have hlength : req.ops.length ≤ 100 := by
    have h₁ := List.length_filterMap_le s.db.buildOp (s.db.dueEntries now)
    have h₂ : (s.db.dueEntries now).length ≤ pushBatch := List.length_take_le _ _
    rw [hops]
    exact (h₁.trans h₂).trans (by decide)
  rw [EdgePushSchema, and_iff_left hlength, hdue, hops]
  constructor
  · exact fun h e he op hop => h op (List.mem_filterMap.mpr ⟨e, he, hop⟩)
  · intro h op hop
    obtain ⟨e, he, hbuild⟩ := List.mem_filterMap.mp hop
    exact h e he op hbuild

end Batches

/-- A sale with a customer name of 81 letters. -/
def longNameDay : List EdgeAction :=
  [.bootstrap [("outlet", "Main")] none sampleActivation, .applyFeed sampleMenu,
    .create 1793000000000 sampleClientId { sampleOrder ["dosa"] [] with
      customerName := some (String.ofList (List.replicate 81 'a')) },
    .settle 1793000001000 sampleClientId (sampleCash (.ofRat (860 / 100)))]

/-- The customer name that goes with an operation. -/
def EdgeOutboxOp.customerName : EdgeOutboxOp → Option String
  | .order _ o => o.customerName
  | .kotStatus .. => none

end StelloKitchens
