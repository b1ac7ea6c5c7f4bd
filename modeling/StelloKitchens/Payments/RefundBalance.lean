import StelloKitchens.Payments.RefundTerms

/-!
# The balance of refunds

Every request keeps the terms of refunds, whatever the provider answers and whenever it does. So,
as long as no refund request revives a refund that has failed, what is refunded of a bill stays
within what was paid for it; and as long as none writes over a final status, final statuses stay.

Nothing in a refund request looks at what the refund has become while the provider was asked. A
webhook that overtakes the answer can therefore be written over.

## Main results

* `refund_kept` — every request keeps the terms.
* `refunds_covered` — refunds stay within what was paid, over all interleavings.
* `final_stays` — final statuses stay, over all interleavings.
-/

namespace StelloKitchens.Payments

open Checked Tx Method Discipline Process

/-! ### The check of the balance -/

/-- A refund that passes the check is covered. -/
theorem covered_of_check {total amount : Amount} {R P : ℤ} {x : Binary64} (hR : 0 ≤ R)
    (hP : 0 ≤ P) (hRT : R ≤ total.scaled) (hcents : IsMultipleOfCent x) (hstore : store x = .ok amount)
    (hcheck : toPaise (.ofRat (R / 10 ^ 2)) + toPaise x ≤
      min (toPaise (N total)) (toPaise (.ofRat (P / 10 ^ 2)))) :
    R + amount.scaled ≤ min total.scaled P := by
  obtain ⟨k, hk⟩ := hcents
  have hk : x = .ofRat (k / 10 ^ 2) := by
    rw [hk]
    norm_num
  have hamount : amount.scaled = k := by
    have h := orThrow_eq_ok.mp hstore
    rw [hk, ofNumber_ofRat_column (by norm_num), Decimal.ofScaled_eq_some] at h
    exact h
  have htotal := abs_lt.mp total.bound
  have hbound := abs_lt.mp amount.bound
  have hRval : (toPaise (.ofRat (R / 10 ^ 2))).val = R :=
    val_toPaise_ofRat (abs_le.mpr (by omega))
  have hxval : (toPaise x).val = k := by
    rw [hk]
    exact val_toPaise_ofRat (abs_le.mpr (by omega))
  have hsum := Binary64.val_add_intCast hRval hxval (abs_le.mpr (by omega))
  obtain ⟨hT, hPle⟩ := le_min_iff.mp hcheck
  rw [Binary64.le_def, hsum] at hT hPle
  rw [val_toPaise_toNumber] at hT
  have hT : R + k ≤ total.scaled := by exact_mod_cast hT
  rw [hamount]
  refine le_min hT ?_
  by_cases hsmall : P ≤ 2 ^ 50
  · rw [val_toPaise_ofRat (abs_le.mpr (by omega))] at hPle
    exact_mod_cast hPle
  · -- more is paid than a bill can amount to
    omega

section Requests

variable {final : List RefundStatus} {L : Hold LockKey → Prop} {K : PaymentsDb → Prop}

/-- What the check reads as reserved is all that is reserved of a bill. -/
theorem reservedRefunds_amounts {s : PaymentsDb} {n : ℕ} (hs : RefundsSound s n) {o : Order}
    (ho : o ∈ s.orders) :
    ((s.reservedRefunds o).map (·.amount.scaled)).sum = s.reserved o.id := by
  rw [reserved_eq, PaymentsDb.reservedRefunds]
  congr 2
  refine List.filter_congr fun r hr => ?_
  by_cases hid : r.orderId = o.id
  · obtain ⟨o', ho', hid', htenant, houtlet, -⟩ := hs.home r hr
    obtain rfl := KeyedTable.eq_of_mem ho' ho (hid'.trans hid)
    simp [htenant, houtlet, hid]
  · simp [hid]

/-- After the check, the refund is within what is left of the bill, and stays so. -/
theorem wp_checkRefundable {o : Order} {input : RefundInput}
    (hK : (refundTerms final).Stable L K) (hlock : L (.lock (.order o.id)))
    (hsettled : o.status = .settled) (ho : ∀ s, K s → o ∈ s.orders)
    {post : (Hold LockKey → Prop) → (PaymentsDb → Prop) → (PaymentsDb → PaymentsDb) → Unit → Prop}
    (hpost : ∀ K' R P, (refundTerms final).Stable L K' →
      (∀ s, K' s → o ∈ s.orders ∧ s.reserved o.id ≤ R ∧ s.paid o.id = P) →
      (∀ amount : Amount, store input.amount = .ok amount →
        R + amount.scaled ≤ min o.total.scaled P) → post L K' id ()) :
    (refundTerms final).wp (checkRefundable o input) L K id post := by
  unfold checkRefundable
  simp only [Discipline.wp_bind]
  refine wp_query hK fun s n hs hKs => ?_
  have hreserved : (refundTerms final).Stable L fun s' =>
      o ∈ s'.orders ∧ s'.reserved o.id ≤ s.reserved o.id := by
    rintro L' t m t' m' - - hother hstep ⟨hmem, hle⟩
    exact ⟨RefundsStep.orders hstep o hmem (.inr hsettled),
      (RefundsStep.reserved hstep o hmem (hother _ hlock)).trans hle⟩
  refine ⟨_, hreserved, ⟨ho s hKs, le_rfl⟩, wp_query (hK.and hreserved) fun t m ht hKt => ?_⟩
  have hpaid : (refundTerms final).Stable L fun t' => o ∈ t'.orders ∧ t'.paid o.id = t.paid o.id := by
    rintro L' u m u' m' - - hother hstep ⟨hmem, heq⟩
    exact ⟨RefundsStep.orders hstep o hmem (.inr hsettled),
      (RefundsStep.paid hstep o hmem hsettled).trans heq⟩
  refine ⟨_, hpaid, ⟨hKt.2.1, rfl⟩, wp_check fun hcheck => ?_⟩
  refine hpost _ (s.reserved o.id) (t.paid o.id) ((hK.and hreserved).and hpaid)
    (fun u hu => ⟨hu.2.1, hu.1.2.2, hu.2.2⟩) fun amount hstore => ?_
  refine covered_of_check (reserved_nonneg (fun r hr => (hs.refunds r hr).2) _)
    (paid_nonneg (fun p hp => (ht.payments p hp).1) _)
    ((hs.covered o (ho s hKs)).trans (min_le_left _ _)) input.cents hstore ?_
  simpa only [sumAmounts, List.map_map, Function.comp_def, id_eq,
    reservedRefunds_amounts hs (ho s hKs), PaymentsDb.paid] using hcheck

/-- A request reserves no more than what is left of the bill. -/
theorem keeps_reserveRefund (gateway : Gateway) (user : AuthUser) (now : Time) (outletId : String)
    (orderId : ℕ) (input : RefundInput) (code : String) (note : Reserved → Note) :
    (atomically note (reserveRefund gateway user now outletId orderId input code) :
      PaymentMethod Reserved).Keeps (refundTerms final).toDiscipline (refundTerms final).admits := by
  refine keeps_atomically fun L K _ hK => ?_
  unfold reserveRefund
  simp only [Discipline.wp_bind, wp_acquire]
  refine wp_query (hK.add _) fun s n hs _ => ?_
  have hrow : (refundTerms final).Stable (Discipline.add L (.lock (.order orderId))) fun s' =>
      ∀ o, (s.orders.find? orderId).filter (fun o => o.tenantId = user.tenantId ∧
        o.outletId = outletId) = some o → o ∈ s'.orders := by
    rintro L' t m t' m' - - hother hstep h o ho
    have hid := (KeyedTable.find?_eq_some.mp (Option.filter_eq_some_iff.mp ho).1).2
    exact RefundsStep.orders hstep o (h o ho) (.inl (hid ▸ hother _ (.inl rfl)))
  refine ⟨_, hrow, fun o ho => (KeyedTable.find?_eq_some.mp (Option.filter_eq_some_iff.mp ho).1).1,
    wp_require fun o ho => wp_check fun hsettled => ?_⟩
  obtain ⟨hfind, hmine⟩ := Option.filter_eq_some_iff.mp ho
  obtain ⟨-, rfl⟩ := KeyedTable.find?_eq_some.mp hfind
  have hK₁ := (hK.add (.lock (.order o.id))).and hrow
  refine wp_query_any hK₁ fun existing => ?_
  cases existing with
  | some existing =>
    simp only [Discipline.wp_bind]
    exact wp_check fun _ => ⟨_, (about_refunds final).commitsTo touches_id
      (fun _ _ => List.not_mem_nil) _⟩
  | none =>
    simp only [Discipline.wp_bind, Discipline.wp_update]
    refine wp_checkRefundable hK₁ (.inl rfl) hsettled (fun s hs => hs.2 o ho)
      fun K' R P hK' hknown hcovered => ?_
    refine wp_of_txTouches (T := []) (writes_refundSource _ _) hK' fun L' w source hL hw => ?_
    refine wp_ofExcept fun amount hstore => wp_drawUnused (hK'.anti hL) fun id _ => ?_
    refine wp_of_txTouches (T := [.cards, .movements]) (writes_payRefund (by simp) (by simp) _ _ _ _)
      ‹_› fun L'' w' sessionId hL' hw' => ⟨fun _ => True, ?_⟩
    obtain ⟨htenant, houtlet⟩ := of_decide_eq_true hmine
    have hstore : store input.amount = .ok amount := hstore
    refine commitsTo_congr (commitsTo_putRefund
      (r := reservation gateway user now outletId o.id input code source amount id)
      (hL' _ (.inr (hL _ (.inl rfl)))) (hL' _ (.inl rfl)) hsettled
      (fun s hs => ⟨(hknown s hs.1).1, hs.2, (hknown s hs.1).2⟩)
      ⟨rfl, htenant.symm, houtlet.symm⟩ (Decimal.scaled_nonneg_of_ofNumber
        (Binary64.nonneg_iff.mp input.positive.le) (orThrow_eq_ok.mp hstore))
      (hcovered amount hstore) _) fun s => ⟨?_, ?_⟩
    · exact Table.Same.trans (hw.same s .orders (by simp)) (hw'.same _ .orders (by simp))
    · have hsame : (w s).refunds = s.refunds := hw.same s .refunds (by simp)
      refine Table.Same.trans ?_ (hw'.same _ .refunds (by simp))
      exact congrArg (KeyedTable.put · _) hsame

/-- The completion of a refund is admitted where it does not write over a final status. -/
theorem keeps_completeRefund (hfailed : .failed ∈ final) (id : ℕ) (gatewayRef : Option String)
    (status : RefundStatus) :
    (completeRefund id gatewayRef status).Keeps (refundTerms final).toDiscipline
      (refundTerms final).admits := by
  refine keeps_atomically fun L K _ hK => ?_
  simp only [Discipline.wp_bind, wp_acquire, wp_update]
  refine wp_query_any (hK.add _) fun row => wp_require fun r _ => ⟨fun _ => True, ?_⟩
  have hsame : ∀ r : Refund, SameRefund r (r.complete gatewayRef status) :=
    fun r => ⟨rfl, rfl, rfl, rfl, rfl⟩
  exact commitsTo_updateRefund hfailed (.inl rfl) hsame fun s _ hgood => hgood

/-! ### Payments taken -/

/-- A settlement writes its payments and closes its bill in one commit. -/
theorem keeps_settleOrder (user : AuthUser) (now : Time) (orderId : ℕ) (input : SettlementInput) :
    (settleOrder user now orderId input).Keeps (refundTerms final).toDiscipline
      (refundTerms final).admits := by
  refine (keeps_atomically fun L K _ hK => ?_).bind fun _ => keeps_pure _
  unfold settlePayments
  simp only [Discipline.wp_bind, wp_acquire]
  refine wp_query (hK.add _) fun s n hs _ => ?_
  have hrow : (refundTerms final).Stable (Discipline.add L (.lock (.order orderId))) fun s' =>
      ∀ o, (s.orders.find? orderId).filter (fun o => o.tenantId = user.tenantId) = some o →
        o ∈ s'.orders := by
    rintro L' t m t' m' - - hother hstep h o ho
    have hid := (KeyedTable.find?_eq_some.mp (Option.filter_eq_some_iff.mp ho).1).2
    exact RefundsStep.orders hstep o (h o ho) (.inl (hid ▸ hother _ (.inl rfl)))
  refine ⟨_, hrow, fun o ho => (KeyedTable.find?_eq_some.mp (Option.filter_eq_some_iff.mp ho).1).1,
    wp_require fun o ho => wp_check fun _ => wp_check fun hopen => wp_check fun _ => ?_⟩
  obtain ⟨-, rfl⟩ := KeyedTable.find?_eq_some.mp (Option.filter_eq_some_iff.mp ho).1
  have hK₁ := (hK.add (.lock (.order o.id))).and hrow
  refine wp_of_txTouches (T := [.cards]) (writes_redeemGiftCardsTx (by simp) _ _ _ _ _) hK₁
    fun L' w _ hL hw => ?_
  unfold recordSettlement createPayments
  simp only [Discipline.wp_bind, wp_update]
  refine wp_ofExcept fun rows hrows => ?_
  have hrows : paymentRows o.id (input.payments.map fun p => (p.mode, p.amount)) = .ok rows := hrows
  refine wp_of_txTouches (T := [.movements]) (writes_recordSaleCash (by simp) _ _ _ _) (hK₁.anti hL)
    fun L'' w' _ hL' hw' => ⟨fun _ => True, ?_⟩
  have hpos : ∀ p ∈ input.payments.map fun p => (p.mode, p.amount), 0 < p.2 := by
    intro p hp
    obtain ⟨p, -, rfl⟩ := List.mem_map.mp hp
    exact p.positive
  refine commitsTo_congr (commitsTo_settle (f := (·.settle input)) (hL' _ (hL _ (.inl rfl))) hopen
    (fun s hs => hs.2 o ho) (paidBy_paymentRows hpos hrows) (fun _ => rfl) (fun _ => input.nonneg) _)
    fun s => ?_
  have horders := hw.same s .orders (by simp)
  have horders' := hw'.same { w s with payments := (w s).payments ++ rows } .orders (by simp)
  refine ⟨⟨?_, ?_⟩, (hw.same s .refunds (by simp)).trans (hw'.same _ .refunds (by simp))⟩
  · exact congrArg (fun t => t.modify (fun x => x.id = o.id) (·.settle input) fun _ => rfl)
      (horders'.1.trans horders.1)
  · exact horders'.2.trans (congrArg (· ++ rows) horders.2)

/-- A sale from a device comes in with its payments in one commit. -/
theorem keeps_ingestSale (tenantId outletId : String) (sale : DeviceSale)
    (note : Option ℕ → Note) :
    (atomically note (ingestSale tenantId outletId sale) : PaymentMethod (Option ℕ)).Keeps
      (refundTerms final).toDiscipline (refundTerms final).admits := by
  refine keeps_atomically fun L K _ hK => ?_
  unfold ingestSale createPayments
  simp only [Discipline.wp_bind]
  refine wp_drawUnused hK fun id hK₁ => ?_
  simp only [wp_update]
  refine wp_ofExcept fun rows hrows => ?_
  have hrows : paymentRows id (sale.payments.map fun p => (.tender p.mode, p.amount)) = .ok rows :=
    hrows
  have hpos : ∀ p ∈ sale.payments.map fun p => (Billing.SettleMode.tender p.mode, p.amount),
      0 < p.2 := by
    intro p hp
    obtain ⟨p, -, rfl⟩ := List.mem_map.mp hp
    exact p.positive
  have hcash : ∀ cash : Binary64, TxTouches [.movements]
      (if 0 < cash then recordCash outletId .sale (fromPaise cash) none (some sale.billNumber)
        (some id) else return none : PaymentTx (Option ℕ)) := by
    intro cash
    split
    · exact writes_recordCash (by simp) _ _ _ _ _ _
    · exact Tx.writes_pure _
  refine wp_of_txTouches (T := [.movements]) (hcash _) hK₁ fun L' w _ hL hw =>
    ⟨fun _ => True, commitsTo_congr (commitsTo_ingest (o := sale.toOrder tenantId outletId id)
      (hL _ (.inl rfl)) (fun s hs => hs.2) sale.nonneg (paidBy_paymentRows hpos hrows) _)
      fun s => ⟨hw.same _ .orders (by simp), hw.same _ .refunds (by simp)⟩⟩

end Requests

/-! ### All requests -/

section Final

variable {final : List RefundStatus}

/-- The other writers of a refund do not write over a status that is final. -/
theorem refundParts (hfailed : .failed ∈ final) (hpending : .pending ∉ final)
    (hunknown : .unknown ∉ final) :
    GatewayParts (refundTerms final).toDiscipline (refundTerms final).admits where
  captures now id paymentId source := keeps_of_txTouches (about_refunds final)
    (writes_captureCollection (List.mem_cons_self (l := [Table.events])) (by simp) now id paymentId)
    (by simp) _
  leaves id status := keeps_of_txTouches (about_refunds final)
    (writes_leaveCreated (List.mem_singleton_self Table.collections) id status) (by simp) _
  settles now id ref status source := keeps_updateRefundWhere hfailed
    (f := (·.reconcile now ref status)) (fun r => ⟨rfl, rfl, rfl, rfl, rfl⟩)
    (fun r hwaiting hfinal => by
      have hstatus : r.status = .pending ∨ r.status = .unknown := of_decide_eq_true hwaiting
      rcases hstatus with h | h <;> rw [h] at hfinal <;> contradiction)
    fun db => by cases source <;> exact ⟨⟨rfl, rfl⟩, rfl⟩
  claims now stale id := keeps_updateRefundWhere hfailed
    (f := fun r => { r with reconciledAt := some now }) (fun r => ⟨rfl, rfl, rfl, rfl, rfl⟩)
    (fun _ _ _ => rfl) fun db => ⟨⟨rfl, rfl⟩, rfl⟩
  marks id := keeps_updateRefundWhere hfailed (f := fun r => { r with status := .unknown })
    (fun r => ⟨rfl, rfl, rfl, rfl, rfl⟩)
    (fun r hwaiting hfinal => by
      have hstatus : r.status = .pending := of_decide_eq_true hwaiting
      rw [hstatus] at hfinal
      contradiction)
    fun db => ⟨⟨rfl, rfl⟩, rfl⟩
  records eventId event := keeps_of_txTouches (about_refunds final)
    (writes_recordEvent (List.mem_singleton_self Table.events) eventId event) (by simp) _
  finishes now eventId outcome changed := keeps_of_txTouches (about_refunds final)
    (writes_finishEvent (List.mem_singleton_self Table.events) now eventId outcome changed)
    (by simp) _

/-- Every request keeps the terms of refunds. -/
theorem refund_kept (hfailed : .failed ∈ final) (hpending : .pending ∉ final)
    (hunknown : .unknown ∉ final) (gateway : Gateway) (r : PaymentRequest) :
    (refundTerms final).Kept (r.run gateway).run := by
  have hsaid : ∀ a s, (refundTerms final).said a s := fun _ _ => trivial
  have hparts := refundParts hfailed hpending hunknown
  cases r with
  | settle => exact Terms.kept_of_keeps (keeps_quiet (keeps_settleOrder _ _ _ _)) hsaid
  | ingest => exact Terms.kept_of_keeps (keeps_quiet (keeps_ingestSale _ _ _ _)) hsaid
  | refund =>
    exact Terms.kept_of_keeps (keeps_quiet (keeps_refund (keeps_reserveRefund _ _ _ _ _ _ _ _)
      (keeps_completeRefund hfailed))) hsaid
  | webhook => exact Terms.kept_of_keeps ((hparts.webhook _ _).bind fun _ => keeps_pure _) hsaid
  | recoveryTick => exact Terms.kept_of_keeps (keeps_quiet (hparts.recoveryTick _ _)) hsaid
  | reconcileRefund =>
    exact Terms.kept_of_keeps (keeps_quiet (hparts.reconcileRefundNow _ _ _ _ _)) hsaid
  | _ => exact kept_of_touches (about_refunds final) hsaid (by simp [PaymentRequest.tables])

end Final

theorem NoPayments.refundsSound {db : PaymentsDb} {n : ℕ} (h : NoPayments db n) :
    RefundsSound db n := by
  have hnone : ∀ r, r ∉ db.refunds := by
    rw [h.refunds]
    exact KeyedTable.notMem_empty
  refine ⟨fun o ho => ⟨h.drawn o ho, h.totals o ho⟩, fun p hp => ⟨h.payments p hp, h.known p hp⟩,
    fun r hr => absurd hr (hnone r), fun r hr => absurd hr (hnone r), fun o ho => ?_⟩
  rw [reserved_eq_zero fun r hr => absurd hr (hnone r)]
  exact le_min (h.totals o ho) (paid_nonneg h.payments o.id)

/-- As long as no refund request writes a new status to a refund that has failed, the refunds of a
bill that have not failed are within the smaller of its total and what was paid for it, in every
state of every interleaving. -/
theorem refunds_covered (gateway : Gateway) {w : PaymentsWorld}
    (h : (payments gateway).Reach (World.Admits (refundTerms [.failed]).admits) w) :
    ∀ o ∈ w.db.orders, ((w.db.refunds.rows.filter fun r =>
        r.orderId = o.id ∧ r.status ≠ .failed).map (·.amount.scaled)).sum ≤
      min o.total.scaled ((w.db.paymentsOf o.id).map (·.amount.scaled)).sum := by
  intro o ho
  rw [← reserved_eq]
  exact (Terms.holds_of_reach (refund_kept (by simp) (by simp) (by simp) gateway)
    (fun _ _ => NoPayments.refundsSound) h).inv.covered o ho

/-! ### A refund that is revived -/

theorem isMultipleOfCent_hundred : IsMultipleOfCent 100 := ⟨10000, by decide +kernel⟩

/-- A refund of a hundred rupees, through the gateway. -/
def hundredBack : RefundInput :=
  ⟨100, hundred_pos, isMultipleOfCent_hundred, .tender .upi, none, none⟩

theorem hundred_bound : |(10000 : ℤ)| < 10 ^ 10 := by decide

theorem hundred_nonneg : (0 : ℤ) ≤ 10000 := by decide

/-- A payment of a hundred rupees, through the gateway. -/
def hundredPaid : SettlementInput :=
  ⟨⟨10000, hundred_bound⟩, hundred_nonneg, "B1", none, none,
    [⟨.tender .upi, 100, hundred_pos, isMultipleOfCent_hundred, none, by decide⟩]⟩

/-- The bill is settled with a payment that was captured before, and a refund of all of it asks
the provider. -/
def refundRun : List (WorldAction PaymentRequest ProviderReply) :=
  let user : AuthUser := ⟨"u", "t", ["o"]⟩
  captureRun ++ answerRun ++ [.start 2 (.settle user 0 0 hundredPaid)] ++ WorldAction.steps 2 20 ++
    [.start 3 (.refund user 0 "o" 0 hundredBack "")] ++ WorldAction.steps 3 20

/-- The provider has made the refund. -/
def processedRun : List (WorldAction PaymentRequest ProviderReply) :=
  [.reply 3 (.refund ⟨"rfnd_1", "processed"⟩)] ++ WorldAction.steps 3 10

/-- A webhook reports that the refund has failed. -/
def failedRun : List (WorldAction PaymentRequest ProviderReply) :=
  let entity : RzpEntity := ⟨some "rfnd_1", none, none, some 3, none, none⟩
  let body : RzpWebhook := ⟨some "refund.failed", some entity, none, none, none⟩
  [.start 4 (.webhook 0 ⟨true, some body, some "evt_2"⟩)] ++ WorldAction.steps 4 20

/-- The balance is reserved again by a second refund. -/
def secondRun : List (WorldAction PaymentRequest ProviderReply) :=
  [.start 5 (.refund ⟨"u", "t", ["o"]⟩ 0 "o" 0 hundredBack "")] ++ WorldAction.steps 5 20

/-- The call of the first refund times out. -/
def timeoutRun : List (WorldAction PaymentRequest ProviderReply) :=
  [.reply 3 (.failed true)] ++ WorldAction.steps 3 5

/-- The refunds of a bill can exceed what was paid for it: one that has failed is revived by the
request that made it, after its balance was reserved again. -/
theorem not_refunds_covered :
    ¬∀ (gateway : Gateway) (w : PaymentsWorld), (payments gateway).Reachable w →
      ∀ o ∈ w.db.orders, ((w.db.refunds.rows.filter fun r =>
          r.orderId = o.id ∧ r.status ≠ .failed).map (·.amount.scaled)).sum ≤
        min o.total.scaled ((w.db.paymentsOf o.id).map (·.amount.scaled)).sum := by
  intro h
  have hreach := Machine.reachable_run (refundRun ++ failedRun ++ secondRun ++ timeoutRun)
    (@reach_atRest ⟨true, false⟩ _ _ _ noPayments_openBill)
  have hcovered := h _ _ hreach
  revert hcovered
  decide +kernel

theorem refunds_covered_processedRun :
    let w := (payments ⟨true, false⟩).run (.atRest openBill 1) (refundRun ++ processedRun)
    w.db.refunds.rows.map (·.status) = [.processed] ∧
      ∀ o ∈ w.db.orders, ((w.db.refunds.rows.filter fun r =>
          r.orderId = o.id ∧ r.status ≠ .failed).map (·.amount.scaled)).sum ≤
        min o.total.scaled ((w.db.paymentsOf o.id).map (·.amount.scaled)).sum := by
  intro w
  have hrun : (payments ⟨true, false⟩).GoodRun (World.Admits (refundTerms [.failed]).admits)
      (.atRest openBill 1) (refundRun ++ processedRun) ∧
        w.db.refunds.rows.map (·.status) = [.processed] := by
    decide +kernel
  exact ⟨hrun.2, refunds_covered ⟨true, false⟩ (Machine.reach_run (refundRun ++ processedRun)
    (reach_atRest noPayments_openBill) hrun.1)⟩

/-! ### Final statuses -/

/-- Refunds that are over stay as they are. -/
def KeepsFinal (s s' : PaymentsDb) : Prop :=
  ∀ r ∈ s.refunds, r.status = .processed ∨ r.status = .failed →
    ∃ r' ∈ s'.refunds, r'.id = r.id ∧ r'.status = r.status

/-- As long as no refund request writes a new status to a refund that is processed or has failed,
these statuses stay, from every state of every interleaving on. -/
theorem final_stays (gateway : Gateway) {w : PaymentsWorld}
    (h : (payments gateway).Reach (World.Admits (refundTerms [.processed, .failed]).admits) w)
    (as : List (WorldAction PaymentRequest ProviderReply))
    (hgood : (payments gateway).GoodRun
      (World.Admits (refundTerms [.processed, .failed]).admits) w as) :
    KeepsFinal w.db ((payments gateway).run w as).db := by
  refine Terms.relation_of_run (refund_kept (by simp) (by simp) (by simp) gateway)
    (fun _ _ => NoPayments.refundsSound) (fun s r hr _ => ⟨r, hr, rfl, rfl⟩) ?_ ?_ h hgood
  · intro s s' s'' hs hs' r hr hstatus
    obtain ⟨r', hr', hid, hsame⟩ := hs r hr hstatus
    obtain ⟨r'', hr'', hid', hsame'⟩ := hs' r' hr' (hsame ▸ hstatus)
    exact ⟨r'', hr'', hid'.trans hid, hsame'.trans hsame⟩
  · exact fun L s n s' _ hstep r hr hstatus => RefundsStep.final hstep r hr (by simpa using hstatus)

theorem KeepsFinal.mem_status {s s' : PaymentsDb} (h : KeepsFinal s s') {id : ℕ}
    (hfailed : (id, .failed) ∈ s.refunds.rows.map fun r => (r.id, r.status)) :
    (id, .failed) ∈ s'.refunds.rows.map fun r => (r.id, r.status) := by
  obtain ⟨r, hr, heq⟩ := List.mem_map.mp hfailed
  obtain ⟨rfl, hstatus⟩ := Prod.mk.inj heq
  obtain ⟨r', hr', hid, hsame⟩ := h r hr (.inr hstatus)
  exact List.mem_map.mpr ⟨r', hr', Prod.ext hid (hsame.trans hstatus)⟩

/-- A final status does not always stay: the request that made the refund writes over it. -/
theorem not_final_stays :
    ¬∀ (gateway : Gateway) (w : PaymentsWorld), (payments gateway).Reachable w →
      ∀ as, KeepsFinal w.db ((payments gateway).run w as).db := by
  intro h
  have hreach := Machine.reachable_run (refundRun ++ failedRun)
    (@reach_atRest ⟨true, false⟩ _ _ _ noPayments_openBill)
  have hfailed := (h _ _ hreach timeoutRun).mem_status
    (show (3, _) ∈ _ by decide +kernel)
  revert hfailed
  decide +kernel

theorem final_stays_processedRun :
    let w := (payments ⟨true, false⟩).run (.atRest openBill 1) (refundRun ++ processedRun)
    w.db.refunds.rows.map (·.status) = [.processed] ∧
      KeepsFinal w.db ((payments ⟨true, false⟩).run w failedRun).db := by
  intro w
  have hrun : ((payments ⟨true, false⟩).GoodRun (World.Admits (refundTerms [.processed, .failed]).admits)
      (.atRest openBill 1) (refundRun ++ processedRun) ∧
        (payments ⟨true, false⟩).GoodRun (World.Admits (refundTerms [.processed, .failed]).admits)
          w failedRun) ∧
        w.db.refunds.rows.map (·.status) = [.processed] := by
    decide +kernel
  exact ⟨hrun.2, final_stays ⟨true, false⟩ (Machine.reach_run (refundRun ++ processedRun)
    (reach_atRest noPayments_openBill) hrun.1.1) failedRun hrun.1.2⟩

end StelloKitchens.Payments
