import StelloKitchens.Payments.Parts

/-!
# Captured collections

A collection that is captured stays captured, with its payment at the provider, its bill and its
amount, as long as no request that was asked to make a collection writes that it failed to one
that has been captured since. All other writes to a collection first look, under its lock, at
what it has become. None of the requests on collections writes a payment of a bill.

## Main definitions

* `KeepsCaptures` — captured collections stay captured.
* `captureTerms` — the terms of the collections.

## Main results

* `capture_kept` — every request keeps the terms.
* `captured_stays` — captured collections over all interleavings.
-/

namespace StelloKitchens.Payments

open Checked Tx Method Discipline Process

/-- A collection is still captured as it was. -/
structure SameCapture (g g' : GatewayPayment) : Prop where
  id : g'.id = g.id
  status : g'.status = g.status
  paymentId : g'.paymentId = g.paymentId
  paidAt : g'.paidAt = g.paidAt
  orderId : g'.orderId = g.orderId
  amount : g'.amount = g.amount

/-- Captured collections stay captured as they are. -/
def KeepsCaptures (s s' : PaymentsDb) : Prop :=
  ∀ g ∈ s.gatewayPayments, g.status = .paid → ∃ g' ∈ s'.gatewayPayments, SameCapture g g'

theorem SameCapture.refl (g : GatewayPayment) : SameCapture g g := ⟨rfl, rfl, rfl, rfl, rfl, rfl⟩

theorem SameCapture.trans {g g' g'' : GatewayPayment} (h : SameCapture g g')
    (h' : SameCapture g' g'') : SameCapture g g'' :=
  ⟨h'.id.trans h.id, h'.status.trans h.status, h'.paymentId.trans h.paymentId,
    h'.paidAt.trans h.paidAt, h'.orderId.trans h.orderId, h'.amount.trans h.amount⟩

theorem KeepsCaptures.refl (s : PaymentsDb) : KeepsCaptures s s :=
  fun g hg _ => ⟨g, hg, .refl g⟩

theorem KeepsCaptures.trans {s s' s'' : PaymentsDb} (h : KeepsCaptures s s')
    (h' : KeepsCaptures s' s'') : KeepsCaptures s s'' := by
  intro g hg hpaid
  obtain ⟨g', hg', hsame⟩ := h g hg hpaid
  obtain ⟨g'', hg'', hsame'⟩ := h' g' hg' (hsame.status.trans hpaid)
  exact ⟨g'', hg'', hsame.trans hsame'⟩

/-- What the commit of who holds these does to the collections. -/
structure CollectionsStep (L : Hold LockKey → Prop) (s s' : PaymentsDb) : Prop where
  kept : ∀ g ∈ s.gatewayPayments, ¬L (.lock (.collection g.id)) → g ∈ s'.gatewayPayments
  origin : ∀ g' ∈ s'.gatewayPayments,
    L (.number g'.id) ∨ ∃ g ∈ s.gatewayPayments, g.id = g'.id
  captures : KeepsCaptures s s'

/-- The terms of the collections: no request writes that it failed to a collection that is
captured. -/
def captureTerms : Terms PaymentsDb LockKey Note (Except PaymentError (Option String)) where
  inv db n := ∀ g ∈ db.gatewayPayments, g.id < n
  step := CollectionsStep
  inv_mono hle h g hg := (h g hg).trans_le hle
  admits note _ db := match note with
    | .collectFailed id => ∀ g ∈ db.gatewayPayments, g.id = id → g.status ≠ .paid
    | _ => True
  said _ _ := True
  said_step _ _ _ h := h

instance (note : Note) (held : List (Hold LockKey)) (db : PaymentsDb) :
    Decidable (captureTerms.admits note (· ∈ held) db) :=
  match note with
  | .collectFailed id => inferInstanceAs
      (Decidable (∀ g ∈ db.gatewayPayments.rows, g.id = id → g.status ≠ .paid))
  | .plain | .completion _ _ | .redelivery _ | .drawerOpened _ | .movement _ => .isTrue trivial

theorem about_collections : About captureTerms.toDiscipline [.collections] := by
  intro ts f hf hts L s n hs
  have hrows : (f s).gatewayPayments = s.gatewayPayments := hf.same s .collections (hts _ (by simp))
  refine ⟨fun g hg => hs g (hrows ▸ hg), fun g hg _ => hrows ▸ hg,
    fun g hg => .inr ⟨g, hrows ▸ hg, rfl⟩, fun g hg _ => ⟨g, hrows ▸ hg, .refl g⟩⟩

/-! ### Writes to a collection -/

section Writes

variable {L : Hold LockKey → Prop} {K : PaymentsDb → Prop}

/-- The row of a collection that is locked is written; if it is captured, it stays as it is. -/
theorem commitsTo_updateCollection {id : ℕ} (hlock : L (.lock (.collection id)))
    {f : GatewayPayment → GatewayPayment} (hf : ∀ g, (f g).id = g.id) {note : Note}
    {w : PaymentsDb → PaymentsDb}
    (hw : ∀ db, (w db).gatewayPayments = (db.updateCollection id f hf).gatewayPayments)
    (h : ∀ s, K s → captureTerms.admits note L s → ∀ g ∈ s.gatewayPayments, g.id = id →
      g.status = .paid → SameCapture g (f g)) :
    CommitsTo captureTerms.toDiscipline captureTerms.admits note L K w fun _ => True := by
  refine ⟨stable_true, fun s n hs _ hK hgood => ⟨fun g hg => ?_, ⟨fun g hg hfree => ?_,
    fun g hg => ?_, fun g hg hpaid => ?_⟩, trivial⟩⟩
  · rw [hw] at hg
    obtain ⟨g₀, hg₀, rfl⟩ := (KeyedTable.mem_modify hf).mp hg
    split
    · rw [hf]
      exact hs g₀ hg₀
    · exact hs g₀ hg₀
  · rw [hw]
    refine (KeyedTable.mem_modify hf).mpr ⟨g, hg, (if_neg ?_).symm⟩
    rintro hid
    exact hfree (of_decide_eq_true hid ▸ hlock)
  · rw [hw] at hg
    obtain ⟨g₀, hg₀, rfl⟩ := (KeyedTable.mem_modify hf).mp hg
    refine .inr ⟨g₀, hg₀, ?_⟩
    split
    · rw [hf]
    · rfl
  · refine ⟨if g.id = id then f g else g, ?_, ?_⟩
    · rw [hw]
      exact (KeyedTable.mem_modify hf).mpr ⟨g, hg, by simp⟩
    · split
      · exact h s hK hgood g hg ‹_› hpaid
      · exact .refl g

/-- A condition on the row of a collection that is locked stays true. -/
theorem stable_collection {id : ℕ} (hlock : L (.lock (.collection id)))
    (p : GatewayPayment → Bool) :
    captureTerms.Stable L fun s => (s.gatewayPayments.find? id).any p = true := by
  rintro L' s n s' n' - - hother hstep hp
  cases hfind : s.gatewayPayments.find? id with
  | none => simp [hfind] at hp
  | some g =>
    obtain ⟨hg, rfl⟩ := KeyedTable.find?_eq_some.mp hfind
    rw [KeyedTable.find?_of_mem (hstep.kept g hg (hother _ hlock)), ← hfind]
    exact hp

/-- A conditional update of a collection whose condition excludes captured ones. -/
theorem keeps_updateWhere {id : ℕ} {p : GatewayPayment → Bool} (hp : ∀ g, g.status = .paid → p g = false)
    {f : GatewayPayment → GatewayPayment} (hf : ∀ g, (f g).id = g.id)
    {w : PaymentsDb → PaymentsDb}
    (hw : ∀ db, (w db).gatewayPayments = (db.updateCollection id f hf).gatewayPayments) :
    (autocommit (updateWhere (.collection id)
      (fun db : PaymentsDb => (db.gatewayPayments.find? id).any p) w)).Keeps
      captureTerms.toDiscipline captureTerms.admits := by
  refine keeps_atomically fun L K _ hK => wp_updateWhere hK (fun L' _ => ?_)
    fun s n hs hKs hcond => ?_
  · exact ⟨_, about_collections.commitsTo touches_id (fun _ _ => List.not_mem_nil) _⟩
  · refine ⟨_, stable_collection (.inl rfl) p, hcond, fun _ => True, ?_⟩
    refine commitsTo_updateCollection (w := w) (.inl rfl) hf hw fun s hKs _ g hg hid hpaid => ?_
    have hany : p g = true := by
      have h := hKs.2
      rwa [← hid, KeyedTable.find?_of_mem hg] at h
    rw [hp g hpaid] at hany
    cases hany

end Writes

/-! ### The requests -/

theorem captureParts : GatewayParts captureTerms.toDiscipline captureTerms.admits where
  captures now id paymentId source := keeps_updateWhere (f := (·.capture now paymentId))
    (fun g hpaid => by simp [hpaid]) (fun _ => rfl) fun db => by cases source <;> rfl
  leaves id status := keeps_updateWhere (f := fun g => { g with status := status })
    (fun g hpaid => by simp [hpaid]) (fun _ => rfl) fun _ => rfl
  settles now id ref status source := keeps_of_txTouches about_collections
    (writes_settleRefund (List.mem_cons_self (l := [Table.events])) (by simp) now id ref status)
    (by simp) _
  claims now stale id := keeps_of_txTouches about_collections
    (writes_claimRefund (List.mem_singleton_self Table.refunds) now stale id) (by simp) _
  marks id := keeps_of_txTouches about_collections
    (writes_markUncertain (List.mem_singleton_self Table.refunds) id) (by simp) _
  records eventId event := keeps_of_txTouches about_collections
    (writes_recordEvent (List.mem_singleton_self Table.events) eventId event) (by simp) _
  finishes now eventId outcome changed := keeps_of_txTouches about_collections
    (writes_finishEvent (List.mem_singleton_self Table.events) now eventId outcome changed)
    (by simp) _

theorem keeps_createIntent (user : AuthUser) (now : Time) (outletId : String) (orderId : ℕ)
    (input : GatewayCollectInput) (amount : Binary64) :
    (autocommit (createIntent user now outletId orderId input amount)).Keeps
      captureTerms.toDiscipline captureTerms.admits := by
  refine keeps_atomically fun L K _ hK => ?_
  unfold createIntent
  simp only [Discipline.wp_bind]
  refine wp_ofExcept fun stored _ => wp_draw hK fun s n hs _ => ?_
  have hstable : captureTerms.Stable (Discipline.add L (.number n))
      fun s => ∀ g ∈ s.gatewayPayments, g.id ≠ n := by
    rintro L' s m s' m' - - hother hstep hfresh g hg rfl
    rcases hstep.origin g hg with hL' | ⟨g₀, hg₀, hid⟩
    · exact hother _ (.inl rfl) hL'
    · exact hfresh g₀ hg₀ hid
  refine ⟨_, hstable, fun g hg => (hs g hg).ne, fun _ => True, stable_true,
    fun s m hs hdrawn hK _ => ⟨fun g hg => ?_, ⟨fun g hg _ => ?_, fun g hg => ?_,
      fun g hg _ => ⟨g, ?_, .refl g⟩⟩, trivial⟩⟩
  · rcases KeyedTable.mem_put.mp hg with rfl | ⟨hg, -⟩
    · exact hdrawn n (.inl rfl)
    · exact hs g hg
  · exact KeyedTable.mem_put.mpr (.inr ⟨hg, hK.2 g hg⟩)
  · rcases KeyedTable.mem_put.mp hg with rfl | ⟨hg, -⟩
    · exact .inl (.inl rfl)
    · exact .inr ⟨g, hg, rfl⟩
  · exact KeyedTable.mem_put.mpr (.inr ⟨hg, hK.2 g hg⟩)

theorem keeps_saveCollect (id : ℕ) (res : CollectResult) :
    (autocommit (saveCollect id res)).Keeps captureTerms.toDiscipline captureTerms.admits := by
  refine keeps_atomically fun L K _ hK => ?_
  unfold saveCollect
  simp only [Discipline.wp_bind, wp_acquire, wp_update]
  refine wp_query_any (hK.add _) fun row => wp_require fun g _ => ⟨fun _ => True, ?_⟩
  exact commitsTo_updateCollection (.inl rfl) _ (fun _ => rfl)
    fun s _ _ g _ _ _ => ⟨rfl, rfl, rfl, rfl, rfl, rfl⟩

/-- The failure of a collect request is admitted where the collection is not captured. -/
theorem keeps_failCollect (id : ℕ) :
    (failCollect id).Keeps captureTerms.toDiscipline captureTerms.admits :=
  keeps_atomically fun L K _ _ => ⟨fun _ => True, commitsTo_updateCollection (.inl rfl) _
    (fun _ => rfl) fun s _ hgood g hg hid hpaid => absurd hpaid (hgood g hg hid)⟩

theorem keeps_createCollect (user : AuthUser) (now : Time) (payee : Payee) (outletId : String)
    (orderId : ℕ) (input : GatewayCollectInput) :
    (createCollect user now payee outletId orderId input).Keeps captureTerms.toDiscipline
      captureTerms.admits :=
  (keeps_guardOr _ _).bind fun _ => (keeps_look _).bind fun _ => (keeps_getOr _ _).bind fun _ =>
    (keeps_guardOr _ _).bind fun _ => (keeps_guardOr _ _).bind fun _ => (keeps_guardOr _ _).bind
    fun _ => (keeps_createIntent _ _ _ _ _ _).bind fun _ => keeps_tryCatch
      ((keeps_gatewayCreateCollect _).bind fun _ => keeps_saveCollect _ _)
      fun _ => (keeps_failCollect _).bind fun _ => keeps_throw _

/-- Every request keeps the terms of the collections. -/
theorem capture_kept (gateway : Gateway) (r : PaymentRequest) :
    captureTerms.Kept (r.run gateway).run := by
  have hsaid : ∀ a s, captureTerms.said a s := fun _ _ => trivial
  cases r with
  | createCollect => exact Terms.kept_of_keeps (keeps_quiet (keeps_createCollect _ _ _ _ _ _)) hsaid
  | getCollect => exact Terms.kept_of_keeps (keeps_quiet (captureParts.getCollect _ _ _ _)) hsaid
  | cancelCollect => exact Terms.kept_of_keeps (keeps_quiet (captureParts.cancelCollect _ _ _)) hsaid
  | simulatePaid =>
    exact Terms.kept_of_keeps (keeps_quiet (captureParts.simulatePaid _ _ _ _ _)) hsaid
  | webhook =>
    exact Terms.kept_of_keeps ((captureParts.webhook _ _).bind fun _ => keeps_pure _) hsaid
  | recoveryTick => exact Terms.kept_of_keeps (keeps_quiet (captureParts.recoveryTick _ _)) hsaid
  | _ => exact kept_of_touches about_collections hsaid (by simp [PaymentRequest.tables])

/-- In every run in which no collect request writes that it failed to a captured collection, what
is captured stays captured as it is; and no request on collections writes a payment of a bill. -/
theorem captured_stays (gateway : Gateway) {w : PaymentsWorld}
    (h : (payments gateway).Reach (World.Admits captureTerms.admits) w)
    (as : List (WorldAction PaymentRequest ProviderReply))
    (hgood : (payments gateway).GoodRun (World.Admits captureTerms.admits) w as) :
    KeepsCaptures w.db ((payments gateway).run w as).db ∧
      ∀ r : PaymentRequest, .collections ∈ r.tables →
        (r.run gateway).Writes fun f => ∀ db, (f db).payments = db.payments := by
  refine ⟨?_, fun r hr => ?_⟩
  · exact Terms.relation_of_run (capture_kept gateway)
      (fun s n hs g hg => absurd (hs.gatewayPayments ▸ hg) (KeyedTable.notMem_empty g))
      KeepsCaptures.refl (fun _ _ _ => KeepsCaptures.trans) (fun _ _ _ _ _ hstep => hstep.captures)
      h hgood
  · refine (r.touches gateway).mono fun f hf db => (hf.same db .orders ?_).2
    cases r <;> simp_all [PaymentRequest.tables]

/-! ### A collection that fails after it was captured -/

/-- The call of the collect request times out. -/
def failureRun : List (WorldAction PaymentRequest ProviderReply) :=
  [.reply 0 (.failed true)] ++ WorldAction.steps 0 3

theorem KeepsCaptures.mem_status {s s' : PaymentsDb} (h : KeepsCaptures s s')
    (hpaid : .paid ∈ s.gatewayPayments.rows.map (·.status)) :
    .paid ∈ s'.gatewayPayments.rows.map (·.status) := by
  obtain ⟨g, hg, hstatus⟩ := List.mem_map.mp hpaid
  obtain ⟨g', hg', hsame⟩ := h g hg hstatus
  exact List.mem_map.mpr ⟨g', hg', hsame.status.trans hstatus⟩

/-- A captured collection does not always stay captured: the collect request that made it may
still write that it failed. -/
theorem not_captured_stays :
    ¬∀ (gateway : Gateway) (w : PaymentsWorld), (payments gateway).Reachable w →
      ∀ as, KeepsCaptures w.db ((payments gateway).run w as).db := by
  intro h
  have hstart : (payments ⟨true, false⟩).Reachable (.atRest openBill 1) :=
    reach_atRest noPayments_openBill
  have hreach := Machine.reachable_run captureRun hstart
  have hpaid := (h _ _ hreach failureRun).mem_status (by decide +kernel)
  revert hpaid
  decide +kernel

theorem captured_stays_answerRun :
    let w := (payments ⟨true, false⟩).run (.atRest openBill 1) captureRun
    (w.db.gatewayPayments.rows.map (·.status)) = [.paid] ∧
      KeepsCaptures w.db ((payments ⟨true, false⟩).run w answerRun).db ∧
      ∀ r : PaymentRequest, .collections ∈ r.tables →
        (r.run ⟨true, false⟩).Writes fun f => ∀ db, (f db).payments = db.payments := by
  have hreach : (payments ⟨true, false⟩).Reach (World.Admits captureTerms.admits)
      ((payments ⟨true, false⟩).run (.atRest openBill 1) captureRun) :=
    Machine.reach_run captureRun (reach_atRest noPayments_openBill) (by decide +kernel)
  exact ⟨by decide +kernel, captured_stays ⟨true, false⟩ hreach answerRun (by decide +kernel)⟩

end StelloKitchens.Payments
