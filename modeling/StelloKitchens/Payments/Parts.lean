import StelloKitchens.Payments.Touches

/-!
# Methods and their transactions

The methods around the payment gateway are made of a few transactions, with calls to the provider
between them. If these transactions keep a discipline, so do the methods, whatever the provider
answers.

## Main definitions

* `GatewayParts` — the transactions around the gateway keep a discipline.

## Main results

* `GatewayParts.webhook`, `GatewayParts.recoveryTick` — then so do the methods.
-/

namespace StelloKitchens.Payments

open Method

variable {D : Discipline PaymentsDb LockKey} {admits : Note → (Hold LockKey → Prop) → PaymentsDb → Prop}
  {ts₀ ts : List Table} {α β : Type}

/-- A transaction on other tables keeps a discipline. -/
theorem keeps_of_txTouches (hD : About D ts₀) {t : PaymentTx α} (ht : TxTouches ts t)
    (hts : ∀ t ∈ ts₀, t ∉ ts) (note : α → Note) :
    (atomically note t : PaymentMethod α).Keeps D admits :=
  keeps_of_writes touches_id (fun _ _ => Touches.comp)
    (fun _ hw L s n hs => hD hw hts L s n hs) ht

theorem keeps_quiet {x : PaymentMethod α} (h : x.Keeps D admits) : (quiet x).Keeps D admits :=
  h.bind fun _ => keeps_pure _

/-! ### Calls to the provider -/

theorem keeps_gatewayRefund (amount : Binary64) (orderRef : String) (reason : Option String)
    (key : ℕ) (paymentId : Option String) :
    (gatewayRefund amount orderRef reason key paymentId).Keeps D admits :=
  (keeps_ask _).bind fun reply => by
    cases reply <;> first | exact keeps_pure _ | exact keeps_throw _

theorem keeps_gatewayCreateCollect (request : CollectRequest) :
    (gatewayCreateCollect request).Keeps D admits :=
  (keeps_ask _).bind fun reply => by
    cases reply <;> first | exact keeps_pure _ | exact keeps_throw _

theorem keeps_gatewayFindRefund (paymentId : String) (key : ℕ) :
    (gatewayFindRefund paymentId key).Keeps D admits :=
  (keeps_ask _).bind fun reply => by
    cases reply <;> first | exact keeps_pure _ | exact keeps_throw _

theorem keeps_gatewayFetchStatus (kind : CollectKind) (providerRef : String) :
    (gatewayFetchStatus kind providerRef).Keeps D admits :=
  (keeps_ask _).bind fun reply => by
    cases reply <;> first | exact keeps_pure _ | exact keeps_throw _

theorem keeps_gatewayCancel (kind : CollectKind) (providerRef : String) :
    (gatewayCancel kind providerRef).Keeps D admits :=
  (keeps_ask _).bind fun _ => keeps_pure _

theorem keeps_resubmitRefund (r : Refund) (paymentId : Option String) :
    (resubmitRefund r paymentId).Keeps D admits := by
  refine (keeps_gatewayFindRefund _ _).bind fun found => ?_
  cases found with
  | some res => exact keeps_pure _
  | none => exact (keeps_look _).bind fun _ => keeps_gatewayRefund _ _ _ _ _

/-! ### Refund requests -/

theorem keeps_submitRefund
    (hcomplete : ∀ id ref status, (completeRefund id ref status).Keeps D admits)
    (input : RefundInput) (reserved : Reserved) : (submitRefund input reserved).Keeps D admits := by
  unfold submitRefund
  split
  · exact keeps_tryCatch ((keeps_look _).bind fun _ => (keeps_gatewayRefund _ _ _ _ _).bind fun _ =>
      hcomplete _ _ _) fun _ => hcomplete _ _ _
  · exact keeps_pure _

theorem keeps_refund {gateway : Gateway} {user : AuthUser} {now : Time} {outletId : String}
    {orderId : ℕ} {input : RefundInput} {code : String}
    (hreserve : (atomically (fun r : Reserved => movementNote r.sessionId)
      (reserveRefund gateway user now outletId orderId input code) :
        PaymentMethod Reserved).Keeps D admits)
    (hcomplete : ∀ id ref status, (completeRefund id ref status).Keeps D admits) :
    (refund gateway user now outletId orderId input code).Keeps D admits :=
  (keeps_guardOr _ _).bind fun _ => (keeps_guardOr _ _).bind fun _ => hreserve.bind fun _ =>
    (keeps_submitRefund hcomplete _ _).bind fun _ => keeps_pure _

/-! ### The methods around the gateway -/

/-- The transactions around the gateway keep a discipline. -/
structure GatewayParts (D : Discipline PaymentsDb LockKey)
    (admits : Note → (Hold LockKey → Prop) → PaymentsDb → Prop) : Prop where
  captures : ∀ now id paymentId source,
    (autocommit (captureCollection now id paymentId source)).Keeps D admits
  leaves : ∀ id status, (autocommit (leaveCreated id status)).Keeps D admits
  settles : ∀ now id ref status source,
    (autocommit (settleRefund now id ref status source)).Keeps D admits
  claims : ∀ now stale id, (autocommit (claimRefund now stale id)).Keeps D admits
  marks : ∀ id, (autocommit (markUncertain id)).Keeps D admits
  records : ∀ eventId event,
    (atomically (fun new => if new then .plain else .redelivery eventId)
      (recordEvent eventId event) : PaymentMethod Bool).Keeps D admits
  finishes : ∀ now eventId outcome changed,
    (autocommit (finishEvent now eventId outcome changed)).Keeps D admits

namespace GatewayParts

variable (h : GatewayParts D admits)

include h

theorem markPaid (now : Time) (id : ℕ) (paymentId : String) (amountPaise : Binary64)
    (source : CaptureSource) : (markPaid now id paymentId amountPaise source).Keeps D admits := by
  refine (keeps_look _).bind fun found => ?_
  cases found with
  | none => exact keeps_pure _
  | some g =>
    dsimp only
    split
    · exact keeps_pure _
    · split
      · exact keeps_pure _
      · exact (h.captures _ _ _ _).bind fun _ => keeps_pure _

theorem refreshCollect (now : Time) (g : GatewayPayment) :
    (refreshCollect now g).Keeps D admits := by
  unfold Payments.refreshCollect
  split
  · exact keeps_pure _
  · refine (keeps_gatewayFetchStatus _ _).bind fun st => ?_
    split
    · exact (h.markPaid _ _ _ _ _).bind fun _ => keeps_pure _
    · dsimp only
      split
      · split
        · exact (keeps_gatewayCancel _ _).bind fun _ => h.leaves _ _
        · exact h.leaves _ _
      · exact keeps_pure _

omit h in
theorem requireCollect (user : AuthUser) (outletId : String) (id : ℕ) :
    (requireCollect user outletId id).Keeps D admits :=
  (keeps_guardOr _ _).bind fun _ => (keeps_look _).bind fun _ => keeps_getOr _ _

omit h in
theorem currentCollect (id : ℕ) : (currentCollect id).Keeps D admits :=
  (keeps_look _).bind fun _ => keeps_getOr _ _

theorem getCollect (user : AuthUser) (now : Time) (outletId : String) (id : ℕ) :
    (getCollect user now outletId id).Keeps D admits := by
  refine (requireCollect _ _ _).bind fun g => ?_
  split
  · exact (keeps_tryCatch (h.refreshCollect _ _) fun _ => keeps_pure _).bind fun _ =>
      currentCollect _
  · exact keeps_pure _

theorem cancelCollect (user : AuthUser) (outletId : String) (id : ℕ) :
    (cancelCollect user outletId id).Keeps D admits := by
  refine (requireCollect _ _ _).bind fun g => (h.leaves _ _).bind fun _ => ?_
  split
  · exact (keeps_gatewayCancel _ _).bind fun _ => currentCollect _
  · exact currentCollect _

theorem simulatePaid (gateway : Gateway) (user : AuthUser) (now : Time) (outletId : String)
    (id : ℕ) : (simulatePaid gateway user now outletId id).Keeps D admits :=
  (keeps_guardOr _ _).bind fun _ => (keeps_guardOr _ _).bind fun _ =>
    (requireCollect _ _ _).bind fun _ => (keeps_guardOr _ _).bind fun _ =>
    (h.markPaid _ _ _ _ _).bind fun _ => currentCollect _

theorem applyEvent (now : Time) (eventId : String) (body : RzpWebhook) :
    (applyEvent now eventId body).Keeps D admits := by
  unfold Payments.applyEvent
  dsimp only
  split
  · split
    · exact keeps_pure _
    · split
      · exact keeps_pure _
      · refine (keeps_look _).bind fun found => ?_
        cases found with
        | none => exact keeps_pure _
        | some g => exact (h.markPaid _ _ _ _ _).bind fun _ => keeps_pure _
  · split
    · split
      · exact keeps_pure _
      · refine (keeps_look _).bind fun found => ?_
        cases found with
        | none => exact keeps_pure _
        | some r =>
          exact (h.settles _ _ _ _ _).bind fun _ => keeps_pure _
    · exact keeps_pure _

theorem webhook (now : Time) (d : RzpDelivery) :
    (handleRazorpayWebhook now d).Keeps D admits := by
  refine (keeps_guardOr _ _).bind fun _ => (keeps_getOr _ _).bind fun body =>
    (h.records _ _).bind fun new => ?_
  dsimp only
  split
  · exact (h.applyEvent _ _ _).bind fun r => (h.finishes _ _ _ _).bind fun _ => keeps_pure _
  · exact keeps_pure _

theorem reconcileRefund (gateway : Gateway) (now : Time) (refundId : ℕ) :
    (reconcileRefund gateway now refundId).Keeps D admits := by
  refine (keeps_look _).bind fun found => ?_
  cases found with
  | none => exact keeps_pure _
  | some r =>
    refine (keeps_look _).bind fun captured => ?_
    dsimp only
    split
    · exact keeps_pure _
    · refine keeps_tryCatch ((keeps_resubmitRefund _ _).bind fun res =>
        (h.settles _ _ _ _ _).bind fun _ => keeps_pure _) fun e => ?_
      split
      · exact (h.marks _).bind fun _ => keeps_pure _
      · exact keeps_pure _

theorem recoverRefund (gateway : Gateway) (now stale : Time) (refundId : ℕ) :
    (recoverRefund gateway now stale refundId).Keeps D admits := by
  refine (h.claims _ _ _).bind fun claimed => ?_
  split
  · exact (h.reconcileRefund _ _ _).bind fun _ => keeps_pure _
  · exact keeps_pure _

theorem recoveryTick (gateway : Gateway) (now : Time) :
    (recoveryTick gateway now).Keeps D admits :=
  (keeps_look _).bind fun _ => (keeps_forM (fun _ => h.recoverRefund _ _ _ _) _).bind fun _ =>
    (keeps_look _).bind fun _ => keeps_forM (fun _ =>
      (keeps_tryCatch (h.refreshCollect _ _) fun _ => keeps_pure _).bind fun _ => keeps_pure _) _

theorem reconcileRefundNow (gateway : Gateway) (user : AuthUser) (now : Time) (outletId : String)
    (refundId : ℕ) : (reconcileRefundNow gateway user now outletId refundId).Keeps D admits :=
  (keeps_guardOr _ _).bind fun _ => (keeps_look _).bind fun _ => (keeps_getOr _ _).bind fun _ =>
    (h.reconcileRefund _ _ _).bind fun _ => (keeps_look _).bind fun _ =>
    (keeps_getOr _ _).bind fun _ => keeps_pure _

end GatewayParts

end StelloKitchens.Payments
