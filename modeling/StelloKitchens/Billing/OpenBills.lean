import StelloKitchens.Billing.Dividing
import StelloKitchens.Billing.Moving

/-!
# Open bills, split bills and coupons over all interleavings

Every request on bills keeps the discipline, so that it holds in all states that requests lead to whose
statements interleave. What the discipline says of one state and of one commit is said here of the bills
themselves.

## Main definitions

* `SplitKept` — what later states keep of bills that are closed or split.

## Main results

* `BillingRequest.safe` — the transaction of every request keeps the discipline.
* `one_open_bill` — open bills on a table.
* `split_closes` — split bills and their checks.
* `split_kept` — closed bills and the lines of split bills, along every run.
* `coupon_counted` — the counter of a coupon.
-/

namespace StelloKitchens.Billing

open Checked Tx Process Discipline

/-! ### Requests -/

/-- A transaction whose answer is not looked at. -/
theorem safe_map {α β : Type} {t : BillingTx α} (g : α → β) (h : billingDiscipline.Safe t) :
    billingDiscipline.Safe (g <$> t) := by
  unfold Safe at h ⊢
  rw [wp_map]
  exact h

theorem BillingRequest.safe (r : BillingRequest) : billingDiscipline.Safe r.run := by
  cases r with
  | create user menu input => exact create_safe user menu input
  | addItems user menu orderId round => exact addItems_safe user menu orderId round
  | ingestAggregatorOrder menu input => exact safe_map _ (ingestAggregatorOrder_safe menu input)
  | ingestScanOrder menu input => exact safe_map _ (ingestScanOrder_safe menu input)
  | applySyncedOrder menu outletId deviceId order =>
    exact applySyncedOrder_safe menu outletId deviceId order
  | setServiceCharge user orderId waive => exact setServiceCharge_safe user orderId waive
  | merge user targetId input => exact merge_safe user targetId input
  | transfer user orderId input => exact transfer_safe user orderId input
  | split user orderId input => exact split_safe user orderId input
  | unsplit user orderId => exact unsplit_safe user orderId
  | settle user now orderId input => exact safe_map _ (settle_safe user now orderId input)
  | cancel user orderId => exact cancel_safe user orderId

/-- The discipline holds in every state of every interleaving. -/
theorem billingServer_holds {w : World BillingDb LockKey Unit Empty Empty (Except BillingError Unit)}
    (h : billingServer.Reachable w) : Sound w.db w.next :=
  inv_of_serve (D := billingDiscipline) BillingRequest.safe (fun _ n hinit => NoBills.sound hinit n) h

/-! ### A table, its split bill and a coupon -/

/-- A café with one table and a coupon of 10, before the first bill. -/
def cafe : BillingDb where
  outlets := .put .empty ⟨"o", 1, 1, 1, 1, none⟩
  tables := .put .empty ⟨"t", "o", "Table 1"⟩
  orders := .empty
  items := .empty
  kots := .empty
  payments := []
  coupons := .put .empty ⟨"c", "o", "TEN", ⟨.flat, 10, 0, none, none, none, none, 0, true⟩⟩
  customers := .empty
  otps := .empty
  giftCards := .empty
  unsplits := []
  comboChoices := []
  loyaltyTransactions := []
  otpUses := []
  edgeInvoices := []

theorem noBills_cafe : NoBills cafe := by
  have hcoupon : ∀ c ∈ cafe.coupons,
      c = ⟨"c", "o", "TEN", ⟨.flat, 10, 0, none, none, none, none, 0, true⟩⟩ := by
    intro c hc
    obtain rfl | ⟨hc, -⟩ := KeyedTable.mem_put.mp hc
    · rfl
    · exact absurd hc (KeyedTable.notMem_empty c)
  refine ⟨rfl, rfl, rfl, rfl, rfl, fun c hc d hd _ _ => ?_, fun c hc => ?_⟩
  · rw [hcoupon c hc, hcoupon d hd]
  · rw [hcoupon c hc]

def waiter : AuthUser := ⟨"u", ["o"]⟩

/-- Two dosas of 100 at the table. -/
def openTable : BillingRequest :=
  .create waiter ⟨[⟨"dosa", "o", "Dosa", .hundred, 0, true, none, none, [], [], none⟩], [], [], [], 0⟩
    { outletId := "o"
      orderType := .dineIn
      tableId := some "t"
      customerName := none
      customerPhone := none
      round := ⟨[⟨"dosa", none, [], 2, Nat.two_pos, none, none, none⟩], [], by simp⟩ }

theorem twoChecks : 2 ≤ 2 ∧ 2 ≤ 20 := by decide

def splitTable : BillingRequest := .split waiter ⟨0, 0⟩ ⟨.equal 2 twoChecks, none, noDiscount_nonneg⟩

/-- A bill is settled in cash. -/
def payCash (id : RowId) (couponCode : Option String) (amount : Binary64) (h : 0 < amount)
    (hcents : IsMultipleOfCent amount) : BillingRequest :=
  .settle waiter 0 id
    { discountAmount := none
      discount_nonneg := noDiscount_nonneg
      couponCode := couponCode
      redeemPoints := 0
      customerPhone := none
      payments := [⟨.tender .cash, amount, h, hcents, none, cash_hasCode⟩]
      payments_ne := by simp
      redeemOtp := none
      customerName := none }

theorem hundred_pos : (0 : Binary64) < 100 := by decide +kernel

theorem hundred_cents : IsMultipleOfCent 100 := ⟨10000, by decide +kernel⟩

theorem ninety_pos : (0 : Binary64) < 90 := by decide +kernel

theorem ninety_cents : IsMultipleOfCent 90 := ⟨9000, by decide +kernel⟩

/-- Two waiters open a bill at the table side by side. -/
def tableRun : List (WorldAction BillingRequest Empty) :=
  .start 0 openTable :: .start 1 openTable :: WorldAction.steps 0 2 ++ WorldAction.steps 1 3 ++
    WorldAction.steps 0 20 ++ WorldAction.steps 1 20

/-- The bill is split in two, and one check is paid. -/
def splitRun : List (WorldAction BillingRequest Empty) :=
  tableRun ++ .start 2 splitTable :: WorldAction.steps 2 60 ++
    .start 3 (payCash ⟨1, 0⟩ none 100 hundred_pos hundred_cents) :: WorldAction.steps 3 60

/-- The other check is paid, with the coupon. -/
def payRest : List (WorldAction BillingRequest Empty) :=
  .start 4 (payCash ⟨1, 1⟩ (some "TEN") 90 ninety_pos ninety_cents) :: WorldAction.steps 4 60

/-! ### Open bills on tables -/

/-- In every state that requests lead to, side by side: on a table stands at most one open bill, and
what stands on a table is a bill of its outlet and no check. -/
theorem one_open_bill {w : World BillingDb LockKey Unit Empty Empty (Except BillingError Unit)}
    (h : billingServer.Reachable w) :
    (∀ o ∈ w.db.orders, ∀ o' ∈ w.db.orders, o.status = .opened → o'.status = .opened →
      ∀ t, o.tableId = some t → o'.tableId = some t → o = o') ∧
    ∀ o ∈ w.db.orders, ∀ t, o.tableId = some t →
      o.parentOrderId = none ∧ ∃ T ∈ w.db.tables, T.id = t ∧ T.outletId = o.outletId := by
  have hsound := billingServer_holds h
  constructor
  · intro o ho o' ho' hopen hopen' t ht ht'
    have hframe : o.frame = o'.frame := hsound.frames.tables o.frame ((mem_frames _).mpr ⟨o, ho, rfl⟩)
      o'.frame ((mem_frames _).mpr ⟨o', ho', rfl⟩) hopen hopen' (by simp [Order.frame, ht])
      (ht.trans ht'.symm)
    exact KeyedTable.eq_of_mem ho ho' (congrArg Frame.id hframe)
  · intro o ho t ht
    have hF : o.frame ∈ w.db.frames := (mem_frames _).mpr ⟨o, ho, rfl⟩
    refine ⟨?_, (hsound.placed _ hF).2 t ht⟩
    by_contra hne
    obtain ⟨p, hp⟩ := Option.ne_none_iff_exists'.mp hne
    have hnone := (hsound.frames.check o.frame hF p hp).1
    rw [show o.frame.tableId = some t from ht] at hnone
    cases hnone

/-- One of the two has opened the bill. -/
theorem one_open_bill_tableRun :
    let w := billingServer.run (.atRest cafe 0) tableRun
    (w.db.orders.rows.map fun o => (o.id, o.tableId)) = [(⟨0, 0⟩, some "t")] ∧
      (∀ o ∈ w.db.orders, ∀ o' ∈ w.db.orders, o.status = .opened → o'.status = .opened →
        ∀ t, o.tableId = some t → o'.tableId = some t → o = o') ∧
      ∀ o ∈ w.db.orders, ∀ t, o.tableId = some t →
        o.parentOrderId = none ∧ ∃ T ∈ w.db.tables, T.id = t ∧ T.outletId = o.outletId :=
  ⟨by decide +kernel, one_open_bill (Machine.reachable_run tableRun (.init ⟨noBills_cafe, rfl, rfl⟩))⟩

/-! ### Split bills -/

/-- In every state that requests lead to, side by side: a bill is closed as split just when it is split
and all its checks are settled; a split bill is no check, and open until then; and a check is of a bill
that is split, and open or settled. -/
theorem split_closes {w : World BillingDb LockKey Unit Empty Empty (Except BillingError Unit)}
    (h : billingServer.Reachable w) : ∀ o ∈ w.db.orders,
      (o.status = .split ↔ o.splitCount ≠ none ∧
        ∀ c ∈ w.db.orders, c.parentOrderId = some o.id → c.status = .settled) ∧
      (o.splitCount ≠ none → o.parentOrderId = none ∧ (o.status = .opened ∨ o.status = .split)) ∧
      ∀ p, o.parentOrderId = some p → (o.status = .opened ∨ o.status = .settled) ∧
        ∃ P ∈ w.db.orders, P.id = p ∧ P.splitCount ≠ none := by
  have hframes := (billingServer_holds h).frames
  intro o ho
  have hF : o.frame ∈ w.db.frames := (mem_frames _).mpr ⟨o, ho, rfl⟩
  refine ⟨⟨fun hst => ?_, fun ⟨hsplit, hall⟩ => ?_⟩, fun hsplit => ?_, fun p hp => ?_⟩
  · have hsplit := hframes.counted o.frame hF hst
    refine ⟨hsplit, fun c hc hp => ?_⟩
    rcases (hframes.parent o.frame hF hsplit).2 with ⟨hopen, -⟩ | ⟨-, hall⟩
    · rw [show o.frame.status = .split from hst] at hopen
      cases hopen
    · exact hall c.frame ((mem_frames _).mpr ⟨c, hc, rfl⟩) hp
  · rcases (hframes.parent o.frame hF hsplit).2 with ⟨-, C, hC, hp, hopen⟩ | ⟨hst, -⟩
    · obtain ⟨c, hc, rfl⟩ := (mem_frames _).mp hC
      rw [show c.frame.status = .settled from hall c hc hp] at hopen
      cases hopen
    · exact hst
  · obtain ⟨hnone, hst⟩ := hframes.parent o.frame hF hsplit
    exact ⟨hnone, hst.imp And.left And.left⟩
  · obtain ⟨-, -, hst, P, hP, hid, hsplit⟩ := hframes.check o.frame hF p hp
    obtain ⟨q, hq, rfl⟩ := (mem_frames _).mp hP
    exact ⟨hst, q, hq, hid, hsplit⟩

/-- One check is settled, so that the bill is still open. -/
theorem split_closes_splitRun :
    let w := billingServer.run (.atRest cafe 0) splitRun
    (w.db.orders.rows.map fun o => (o.id, o.status)) =
        [(⟨0, 0⟩, .opened), (⟨1, 0⟩, .settled), (⟨1, 1⟩, .opened)] ∧
      ∀ o ∈ w.db.orders,
        (o.status = .split ↔ o.splitCount ≠ none ∧
          ∀ c ∈ w.db.orders, c.parentOrderId = some o.id → c.status = .settled) ∧
        (o.splitCount ≠ none → o.parentOrderId = none ∧ (o.status = .opened ∨ o.status = .split)) ∧
        ∀ p, o.parentOrderId = some p → (o.status = .opened ∨ o.status = .settled) ∧
          ∃ P ∈ w.db.orders, P.id = p ∧ P.splitCount ≠ none :=
  ⟨by decide +kernel, split_closes (Machine.reachable_run splitRun (.init ⟨noBills_cafe, rfl, rfl⟩))⟩

/-- A split bill stays one, until its split is undone. -/
theorem BillMove.split_stays {L : Locks} {fs fs' : List Frame} {e : BillEvent}
    (hmove : BillMove L fs e fs') (hinv : FramesInv fs) (huniq : Unique fs) {P : Frame} (hP : P ∈ fs)
    (hsplit : P.splitCount ≠ none) :
    (∃ P' ∈ fs', P'.id = P.id ∧ P'.splitCount = P.splitCount) ∨ ∃ ids, e = .unsplit ⟨P.id, ids⟩ := by
  -- an edit that leaves the number of checks alone
  have hedit : ∀ {gs : List Frame} {p : Frame → Prop} [DecidablePred p] {f : Frame → Frame},
      (∀ G : Frame, (f G).id = G.id ∧ (f G).splitCount = G.splitCount) →
      (∃ P' ∈ gs, P'.id = P.id ∧ P'.splitCount = P.splitCount) →
      ∃ P' ∈ edit p f gs, P'.id = P.id ∧ P'.splitCount = P.splitCount := by
    rintro gs p _ f hf ⟨G, hG, hid, hcount⟩
    by_cases hp : p G
    · exact ⟨f G, mem_edit_of_pos hG hp, (hf G).1.trans hid, (hf G).2.trans hcount⟩
    · exact ⟨G, mem_edit_of_mem hG hp, hid, hcount⟩
  have hself : ∃ P' ∈ fs, P'.id = P.id ∧ P'.splitCount = P.splitCount := ⟨P, hP, rfl, rfl⟩
  cases hmove with
  | stay => exact .inl hself
  | add => exact .inl ⟨P, List.mem_append_left _ hP, rfl, rfl⟩
  | close | settle | retable => exact .inl (hedit (fun _ => by exact ⟨rfl, rfl⟩) hself)
  | settleCheck => exact .inl (hedit (fun _ => ⟨rfl, rfl⟩) (hedit (fun _ => ⟨rfl, rfl⟩) hself))
  | split Q checks k hQ hlock hopen hplain =>
    refine .inl ⟨P, mem_edit_of_mem (List.mem_append_left _ hP) fun hid => ?_, rfl, rfl⟩
    exact hsplit (huniq P hP Q hQ hid ▸ hplain.1)
  | unsplit Q ids hQ hlock hopen hQsplit hids =>
    by_cases hid : P.id = Q.id
    · exact .inr ⟨ids, by rw [hid]⟩
    · refine .inl ⟨P, mem_edit_of_mem (List.mem_filter.mpr ⟨hP, ?_⟩) hid, rfl, rfl⟩
      have hout : P.id ∉ ids := fun hmem => by
        have hparent := (hids P hP).mp hmem
        rw [(hinv.parent P hP hsplit).1] at hparent
        cases hparent
      simp [hout]

/-- What later states keep of bills that are closed or split. -/
structure SplitKept (s s' : BillingDb) : Prop where
  /-- A closed bill stays where it stands. -/
  closed : ∀ F ∈ s.frames, F.status ≠ .opened → F ∈ s'.frames
  log : s.unsplits <+: s'.unsplits
  /-- A split bill keeps its lines as long as the split is not undone. -/
  parent : ∀ P ∈ s.frames, P.splitCount ≠ none →
    s.unsplits.countP (·.parentId = P.id) < s'.unsplits.countP (·.parentId = P.id) ∨
    (∃ P' ∈ s'.frames, P'.id = P.id ∧ P'.splitCount = P.splitCount) ∧
      ∀ i : OrderItem, i.orderId = P.id → (i ∈ s'.items ↔ i ∈ s.items)
  /-- A check keeps its lines as long as it is there. -/
  check : ∀ C ∈ s.frames, C.parentOrderId ≠ none →
    (∃ u ∈ s'.unsplits, C.id ∈ u.removedChecks) ∨ (∃ C' ∈ s'.frames, C.Same C') ∧
      ∀ i : OrderItem, i.orderId = C.id → (i ∈ s'.items ↔ i ∈ s.items)

theorem SplitKept.refl (s : BillingDb) : SplitKept s s where
  closed _ hF _ := hF
  log := List.prefix_rfl
  parent P hP _ := .inr ⟨⟨P, hP, rfl, rfl⟩, fun _ _ => Iff.rfl⟩
  check C hC _ := .inr ⟨⟨C, hC, rfl, rfl, rfl⟩, fun _ _ => Iff.rfl⟩

theorem SplitKept.trans {s s' s'' : BillingDb} (h : SplitKept s s') (h' : SplitKept s' s'') :
    SplitKept s s'' := by
  have hcount : ∀ {a b : BillingDb} (P : RowId), a.unsplits <+: b.unsplits →
      a.unsplits.countP (·.parentId = P) ≤ b.unsplits.countP (·.parentId = P) :=
    fun P hprefix => hprefix.sublist.countP_le
  refine ⟨fun F hF hst => h'.closed F (h.closed F hF hst) hst, h.log.trans h'.log, fun P hP hsplit => ?_,
    fun C hC hparent => ?_⟩
  · rcases h.parent P hP hsplit with hlt | ⟨⟨P', hP', hid, hcount'⟩, hlines⟩
    · exact .inl (hlt.trans_le (hcount P.id h'.log))
    · rcases h'.parent P' hP' (hcount' ▸ hsplit) with hlt | ⟨⟨P'', hP'', hid', hcount''⟩, hlines'⟩
      · exact .inl ((hcount P.id h.log).trans_lt (hid ▸ hlt))
      · refine .inr ⟨⟨P'', hP'', hid'.trans hid, hcount''.trans hcount'⟩, fun i hi => ?_⟩
        exact (hlines' i (hi.trans hid.symm)).trans (hlines i hi)
  · rcases h.check C hC hparent with ⟨u, hu, hmem⟩ | ⟨⟨C', hC', hsame⟩, hlines⟩
    · exact .inl ⟨u, h'.log.subset hu, hmem⟩
    · rcases h'.check C' hC' (hsame.2.2 ▸ hparent) with ⟨u, hu, hmem⟩ | ⟨⟨C'', hC'', hsame'⟩, hlines'⟩
      · exact .inl ⟨u, hu, hsame.1 ▸ hmem⟩
      · refine .inr ⟨⟨C'', hC'', hsame.trans hsame'⟩, fun i hi => ?_⟩
        exact (hlines' i (hi.trans hsame.1)).trans (hlines i hi)

theorem Commit.splitKept {L : Locks} {e : BillEvent} {s s' : BillingDb} {n : ℕ}
    (hc : Commit L e s s') (hs : Sound s n) : SplitKept s s' := by
  -- the lines of a bill that is split or a check change only if it goes
  have hlines : ∀ F ∈ s.frames, ¬F.Plain → (∃ F' ∈ s'.frames, F'.id = F.id) →
      ∀ i : OrderItem, i.orderId = F.id → (i ∈ s'.items ↔ i ∈ s.items) := by
    rintro F hF hnot ⟨F', hF', hid⟩
    rcases hc.items F hF (.inr hnot) with hsame | hgone
    · exact hsame
    · exact absurd hid (hgone F' hF')
  refine ⟨fun F hF hst => (hc.frameStep hs).closed F hF hst, ⟨_, hc.log.symm⟩, fun P hP hsplit => ?_,
    fun C hC hparent => ?_⟩
  · rcases hc.move.split_stays hs.frames s.unique_frames hP hsplit with
      ⟨P', hP', hid, hcount⟩ | ⟨ids, rfl⟩
    · exact .inr ⟨⟨P', hP', hid, hcount⟩, hlines P hP (fun h => hsplit h.1) ⟨P', hP', hid⟩⟩
    · refine .inl ?_
      rw [hc.log, List.countP_append]
      simp [BillEvent.entries]
  · rcases hc.move.stays hC with ⟨C', hC', hsame⟩ | ⟨u, rfl, hmem⟩
    · exact .inr ⟨⟨C', hC', hsame⟩, hlines C hC (fun h => hparent h.2) ⟨C', hC', hsame.1.symm⟩⟩
    · exact .inl ⟨u, by rw [hc.log]; simp [BillEvent.entries], hmem⟩

/-- In every state that requests lead to, side by side, the counter of a coupon is the number of settled
bills of its outlet that carry its code. -/
theorem coupon_counted {w : World BillingDb LockKey Unit Empty Empty (Except BillingError Unit)}
    (h : billingServer.Reachable w) : ∀ c ∈ w.db.coupons,
      c.rule.usedCount = (w.db.orders.rows.countP fun o =>
        o.status = .settled ∧ o.outletId = c.outletId ∧ o.couponCode = some c.code) := by
  intro c hc
  rw [(billingServer_holds h).used c hc, uses, BillingDb.frames, List.countP_map]
  rfl

/-- The coupon was used once. -/
theorem coupon_counted_payRest :
    let w := billingServer.run (.atRest cafe 0) (splitRun ++ payRest)
    (w.db.coupons.rows.map fun c => c.rule.usedCount) = [1] ∧ ∀ c ∈ w.db.coupons,
      c.rule.usedCount = (w.db.orders.rows.countP fun o =>
        o.status = .settled ∧ o.outletId = c.outletId ∧ o.couponCode = some c.code) :=
  ⟨by decide +kernel,
    coupon_counted (Machine.reachable_run (splitRun ++ payRest) (.init ⟨noBills_cafe, rfl, rfl⟩))⟩

end StelloKitchens.Billing
