import StelloKitchens.Edge.ClosedOrders

/-!
# The invoice series of the device

The numbers on the settled bills of a series and fiscal year, kept or purged, are the numbers
from 1 to the last one drawn, each once; and a number is drawn only by the transaction that
settles an order and queues it.

## Main definitions

* `Order.numberIn`, `Ledger.numbers` — the numbers of a series that stand on settled bills.

## Main results

* `Ledger.Effect.seriesOk` — every effect keeps the series gapless.
* `invoiceSeries_gapless` — the series of every reachable state, and when it advances.
-/

namespace StelloKitchens

open Checked

/-- The number of a bill if it is in this series and fiscal year. -/
def EdgeBillNo.numberIn (key : String × String) (b : EdgeBillNo) : Option ℕ :=
  if (b.series, b.fy) = key then some b.seq else none

/-- The number a settled bill has in a series and fiscal year. -/
def Order.numberIn (key : String × String) (o : Order) : Option ℕ :=
  if o.status = .settled then o.billNo.bind (EdgeBillNo.numberIn key) else none

namespace Ledger

/-- The orders of the device, those it has and those it purged. -/
def bills (l : Ledger) : List Order := l.orders.rows.map (·.state) ++ l.purged

/-- The numbers of a series and fiscal year that stand on settled bills. -/
def numbers (l : Ledger) (key : String × String) : List ℕ :=
  l.bills.filterMap (Order.numberIn key)

/-- The numbers on the bills of every series are the ones drawn, each once. -/
def SeriesOk (l : Ledger) : Prop :=
  ∀ key, (l.numbers key).Perm (List.range' 1 (lastSeq l.billSeries key))

/-! ### The bills after a write -/

section Writes

variable {l : Ledger} {row : OrderRow} (order : Order)

theorem bills_markQueued (c : Uuid) : (l.markQueued c).bills = l.bills := by
  have hrows : (l.markQueued c).orders.rows.map (·.state) = l.orders.rows.map (·.state) := by
    rw [markQueued, KeyedTable.modify, List.map_map]
    apply List.map_congr_left
    intro r _
    simp only [Function.comp_apply]
    split <;> rfl
  rw [bills, hrows]
  rfl

theorem bills_answer (now : Time) (e : OutboxEntry) (r : EdgeOpResult) :
    (l.answer now e r).bills = l.bills := by
  have hrows : (l.answer now e r).orders.rows.map (·.state) = l.orders.rows.map (·.state) := by
    rw [answer]
    dsimp only
    split
    · rw [KeyedTable.modify, List.map_map]
      apply List.map_congr_left
      intro x _
      simp only [Function.comp_apply]
      split <;> rfl
    · rfl
  rw [bills, hrows]
  rfl

/-- The bills besides the one of an order. -/
def otherBills (l : Ledger) (c : Uuid) : List Order :=
  (l.orders.others c).map (·.state) ++ l.purged

theorem perm_bills (hrow : row ∈ l.orders) :
    l.bills.Perm (row.state :: l.otherBills row.clientId) :=
  ((KeyedTable.perm_cons_others hrow).map OrderRow.state).append_right l.purged

theorem perm_bills_save (hrow : row ∈ l.orders) (hid : order.clientId = row.clientId) :
    (l.save order).bills.Perm (order :: l.otherBills row.clientId) := by
  have hperm := @KeyedTable.perm_upsert _ _ _ _ l.orders _ _ (@OrderRow.clientId_withState order)
  have hfind : l.orders.find? (OrderRow.fresh order).clientId = some row :=
    KeyedTable.find?_eq_some.mpr ⟨hrow, hid.symm⟩
  have hkey : (OrderRow.fresh order).clientId = row.clientId := hid
  rw [hfind, hkey] at hperm
  exact (hperm.map OrderRow.state).append_right l.purged

theorem perm_bills_save_new (hnew : l.orders.find? order.clientId = none) :
    (l.save order).bills.Perm (order :: l.bills) := by
  have hperm := @KeyedTable.perm_upsert _ _ _ _ l.orders _ _ (@OrderRow.clientId_withState order)
  have hfind : l.orders.find? (OrderRow.fresh order).clientId = none := hnew
  rw [hfind, KeyedTable.others_of_none hfind] at hperm
  exact (hperm.map OrderRow.state).append_right l.purged

/-- A save that leaves the number of the order leaves the numbers. -/
theorem perm_numbers_save (hrow : row ∈ l.orders) (hid : order.clientId = row.clientId)
    {key : String × String} (hnumber : order.numberIn key = row.state.numberIn key) :
    ((l.save order).numbers key).Perm (l.numbers key) := by
  have hold := (perm_bills hrow).filterMap (Order.numberIn key)
  have hnew := (perm_bills_save order hrow hid).filterMap (Order.numberIn key)
  rw [List.filterMap_cons] at hold hnew
  rw [hnumber] at hnew
  exact hnew.trans hold.symm

/-- Closing a running order adds its number, if it has one, to the numbers. -/
theorem perm_numbers_close (hrow : row ∈ l.orders) (hid : order.clientId = row.clientId)
    (hopen : row.state.status = .opened) {now : Time} (key : String × String) :
    ((l.close now order).numbers key).Perm ((order.numberIn key).toList ++ l.numbers key) := by
  have hbills : (l.close now order).bills = (l.save order).bills :=
    bills_markQueued (l := (l.save order).insertOutbox now (.order order.clientId) [])
      order.clientId
  have hold := (perm_bills hrow).filterMap (Order.numberIn key)
  have hnew := (perm_bills_save order hrow hid).filterMap (Order.numberIn key)
  have hnone : row.state.numberIn key = none := by
    rw [Order.numberIn, if_neg (by rw [hopen]; exact fun h => nomatch h)]
  rw [List.filterMap_cons, hnone] at hold
  rw [numbers, hbills]
  refine hnew.trans ?_
  cases hnumber : order.numberIn key with
  | none =>
    rw [List.filterMap_cons, hnumber]
    exact hold.symm
  | some n =>
    rw [List.filterMap_cons, hnumber]
    exact hold.symm.cons n

end Writes

/-! ### The series after an effect -/

/-- A number drawn is one past the last of its series. -/
theorem Draw.perm {t t' : KeyedTable BillSeriesRow.key} {billNo : Option EdgeBillNo}
    (h : Draw t billNo t') {key : String × String} {ns : List ℕ}
    (hns : ns.Perm (List.range' 1 (lastSeq t key))) :
    ((billNo.bind (EdgeBillNo.numberIn key)).toList ++ ns).Perm
      (List.range' 1 (lastSeq t' key)) := by
  cases h with
  | none => exact hns
  | next series number at_ hnumber =>
    rw [Option.bind_some, EdgeBillNo.numberIn]
    by_cases hkey : (series.code, fiscalYearCode at_) = key
    · subst hkey
      rw [if_pos rfl, lastSeq_advanceSeries_self, List.range'_concat]
      rw [Option.toList_some, List.singleton_append, Nat.one_mul, Nat.add_comm 1]
      exact (List.Perm.cons _ hns).trans (List.perm_append_singleton _ _).symm
    · rw [if_neg hkey, lastSeq_advanceSeries_of_ne (Ne.symm hkey)]
      exact hns

theorem Effect.seriesOk {l l' : Ledger} (h : Effect l l') (hinv : l.Inv) (hl : l.SeriesOk) :
    l'.SeriesOk := by
  intro key
  cases h with
  | drew u hnew => exact hl key
  | opened now c orderType table input lines hnew hne hlines hfree =>
    have hnone : l.orders.find? c = none :=
      KeyedTable.find?_eq_none.mpr fun r hr hrc => hnew (hrc ▸ hinv.issued.orders r hr)
    exact ((perm_bills_save_new (l := { l with issued := c :: l.issued })
      (EdgeDb.withRound (EdgeDb.newOrder now c orderType table input) lines) hnone).filterMap
        (Order.numberIn key)).trans (hl key)
  | extended row now staffId lines hrow hopen hne hlines =>
    exact (perm_numbers_save (EdgeDb.withAddedRound row.state now staffId lines) hrow rfl rfl).trans
      (hl key)
  | settled row now s staffId billNo ref series hrow hopen hs hdraw =>
    exact (perm_numbers_close (l := { l with billSeries := series })
      (EdgeDb.settled row.state now s staffId billNo ref) hrow rfl hopen key).trans
        (hdraw.perm (hl key))
  | cancelled row now staffId reason hrow hopen =>
    exact (perm_numbers_close (EdgeDb.cancelled row.state now staffId reason) hrow rfl hopen
      key).trans (hl key)
  | bumped row status now items hrow =>
    exact (perm_numbers_save (EdgeDb.markTicket row.state status now items) hrow rfl rfl).trans
      (hl key)
  | updateQueued row now u e hrow he hkey hsent => exact hl key
  | postponed e attempts at_ r => exact hl key
  | answered now e x r hx hid hkey horder =>
    rw [numbers, bills_answer]
    exact hl key
  | purged orderCutoff outboxCutoff =>
    -- what the orders lose the purged ones gain
    refine List.Perm.trans (List.Perm.filterMap _ ?_) (hl key)
    have hsplit := List.filter_append_perm (OrderRow.purgeable orderCutoff) l.orders.rows
    have hstates := (List.perm_append_comm.trans hsplit).map OrderRow.state
    rw [List.map_append] at hstates
    refine List.Perm.trans ?_ (hstates.append_right l.purged)
    rw [List.append_assoc]
    exact List.perm_append_comm.append_left _

end Ledger

/-! ### When a series advances -/

section Advance

variable {s : EdgeState}

theorem billSeries_applyReply {db : EdgeDb} {now : Time} {random : ℕ → Binary64}
    {req : PushRequest} {reply : PushReply} :
    (db.applyReply now random req reply).billSeries = db.billSeries := by
  refine EdgeDb.applyReply_induction (fun d => d.billSeries = db.billSeries) ?_ ?_
  · unfold EdgeDb.recordSkew
    split <;> rfl
  · intro d i r e _ _ _ hd
    refine Eq.trans ?_ hd
    unfold EdgeDb.applyResult
    split
    · rfl
    · dsimp only
      split <;> rfl

/-- Nothing but a settlement touches the series. -/
theorem billSeries_step (a : EdgeAction) (h : (s.step a).db.billSeries ≠ s.db.billSeries) :
    ∃ now c input, a = .settle now c input := by
  cases a with
  | settle now c input => exact ⟨now, c, input, rfl⟩
  | create now c input =>
    refine absurd ?_ h
    simp only [EdgeState.step, EdgeState.drawing]
    split
    · rename_i db hdb
      obtain ⟨⟨order, db'⟩, hok, rfl⟩ := map_eq_ok.mp hdb
      obtain ⟨-, -, -, kots, -, -, -, -, rfl⟩ := EdgeDb.createOrder_spec hok
      split <;> rfl
    · rfl
  | addItems now c input =>
    refine absurd ?_ h
    simp only [EdgeState.step, EdgeState.commit]
    split
    · rename_i order db hdb
      obtain ⟨row, lines, kots, -, -, -, -, -, rfl⟩ := EdgeDb.addItems_spec hdb
      rfl
    · rfl
  | cancel now c staffId reason =>
    refine absurd ?_ h
    simp only [EdgeState.step, EdgeState.commit]
    split
    · rename_i order db hdb
      obtain ⟨row, -, -, -, rfl⟩ := EdgeDb.cancelOrder_spec hdb
      exact EdgeDb.billSeries_enqueue
    · rfl
  | advance now u kotId toStatus =>
    refine absurd ?_ h
    simp only [EdgeState.step, EdgeState.drawing]
    split
    · rename_i db hdb
      split
      · rfl
      · obtain ⟨kots, status, items, ⟨-, rfl⟩ | ⟨row, -, rfl⟩⟩ := EdgeDb.advanceTicket_spec hdb
        · rfl
        · unfold EdgeDb.saveBump
          dsimp only
          split
          · exact EdgeDb.billSeries_enqueue
          · rfl
    · rfl
  | pushSend now =>
    refine absurd ?_ h
    simp only [EdgeState.step, EdgeState.send]
    split <;> rfl
  | pushReply now random reply =>
    refine absurd ?_ h
    simp only [EdgeState.step, EdgeState.receive]
    split
    · rfl
    · exact billSeries_applyReply
  | bootstrap outlets outletId act =>
    refine absurd ?_ h
    simp only [EdgeState.step]
    split
    · rename_i db hdb
      simp only [EdgeDb.bootstrap, bind_eq_ok, pure_eq_ok] at hdb
      obtain ⟨target, -, rfl⟩ := hdb
      rfl
    · rfl
  | _ => exact absurd rfl h

/-- A settlement that draws a number puts it on the order it settles and queues the order. -/
theorem settle_draws (hinv : s.ledger.Inv) {now : Time} {c : Uuid} {input : EdgeDb.SettleInput}
    (h : (s.step (.settle now c input)).db.billSeries ≠ s.db.billSeries) :
    ∃ row row' b e, s.db.get c = some row ∧ row.status = .opened ∧
      (s.step (.settle now c input)).db.get c = some row' ∧ row'.status = .settled ∧
      row'.state.billNo = some b ∧ b.seq = lastSeq s.db.billSeries (b.series, b.fy) + 1 ∧
      (s.step (.settle now c input)).db.billSeries =
        advanceSeries s.db.billSeries (b.series, b.fy) b.seq ∧
      s.db.outbox.find? (.order c) = none ∧
      (s.step (.settle now c input)).db.outbox.find? (.order c) = some e ∧
      e.status = .pending := by
  simp only [EdgeState.step, EdgeState.commit] at h ⊢
  split at h
  swap
  · exact absurd rfl h
  rename_i order db hdb
  obtain ⟨row, set, billNo, db₁, hrow, hopen, hset, hdraw, rfl, rfl⟩ := EdgeDb.settleOrder_spec hdb
  obtain ⟨hmem, hc⟩ := KeyedTable.find?_eq_some.mp hrow
  have hfind := hinv.sync.find?_of_opened hmem hopen
  rcases EdgeDb.drawBillNo_spec hdraw with
    ⟨rfl, rfl⟩ | ⟨series, fy, number, -, rfl, hnumber, rfl, rfl⟩
  · exact absurd EdgeDb.billSeries_enqueue h
  subst hc
  set b : EdgeBillNo := ⟨series.code, fiscalYearCode (s.db.trueNow now),
    lastSeq s.db.billSeries (series.code, fiscalYearCode (s.db.trueNow now)) + 1, number⟩
  set order := EdgeDb.settled row.state now set input.staffId (some b) number
  set db₁ : EdgeDb := { s.db with billSeries := advanceSeries s.db.billSeries (b.series, b.fy) b.seq }
  have hsaved : (db₁.save order).get row.clientId = some (row.withState order) := by
    have hself := @EdgeDb.get_save_self db₁ order
    have hget : db₁.get order.clientId = some row := hrow
    rw [hget] at hself
    exact hself
  refine ⟨row, (row.withState order).queued, b, _, hrow, hopen, ?_, rfl, rfl, rfl,
    EdgeDb.billSeries_enqueue, hfind, EdgeDb.find?_enqueue_self hfind, rfl⟩
  exact EdgeDb.get_enqueue_order.trans (congrArg (Option.map OrderRow.queued) hsaved)

end Advance

/-- In every reachable state the numbers of a series and year on the settled bills, kept or
purged, are those from 1 to the last one drawn, each once; and a series advances only by the
settlement that puts the next number on the order it closes and queues. -/
theorem invoiceSeries_gapless {s : EdgeState} (hs : edgeEngine.Reachable s) :
    (∀ key, (s.ledger.numbers key).Perm (List.range' 1 (lastSeq s.db.billSeries key))) ∧
    ∀ a, (edgeEngine.step s a).db.billSeries ≠ s.db.billSeries →
      ∃ now c input row row' b e, a = .settle now c input ∧ s.db.get c = some row ∧
        row.status = .opened ∧ (edgeEngine.step s a).db.get c = some row' ∧
        row'.status = .settled ∧ row'.state.billNo = some b ∧
        b.seq = lastSeq s.db.billSeries (b.series, b.fy) + 1 ∧
        (edgeEngine.step s a).db.billSeries =
          advanceSeries s.db.billSeries (b.series, b.fy) b.seq ∧
        s.db.outbox.find? (.order c) = none ∧
        (edgeEngine.step s a).db.outbox.find? (.order c) = some e ∧ e.status = .pending := by
  have hfresh : ∀ t : EdgeState, edgeEngine.init t → t.ledger.Inv := by
    rintro t ⟨deviceId, rfl⟩
    exact ledger_inv_fresh deviceId
  refine ⟨?_, fun a ha => ?_⟩
  · refine edgeEngine_simulated.reach_and (P := Ledger.SeriesOk) hfresh
      (fun _ _ heffect => heffect.inv) ?_ (fun _ _ heffect => heffect.seriesOk) hs
    rintro t ⟨deviceId, rfl⟩ key
    exact List.Perm.nil
  · obtain ⟨now, c, input, rfl⟩ := billSeries_step a ha
    obtain ⟨row, row', b, e, h⟩ := settle_draws (edgeEngine_inv hs) ha
    exact ⟨now, c, input, row, row', b, e, rfl, h⟩

theorem invoiceSeries_gapless_sampleDay :
    [1].Perm (List.range' 1 (lastSeq
      (edgeEngine.run (.fresh "D-0") sampleDay).db.billSeries ("E01", "2627"))) := by
  have h := (invoiceSeries_gapless
    (edgeEngine.reachable_run sampleDay (.init ⟨"D-0", rfl⟩))).1 ("E01", "2627")
  have hnumbers : (edgeEngine.run (.fresh "D-0") sampleDay).ledger.numbers ("E01", "2627") =
      [1] := by decide +kernel
  rwa [hnumbers] at h

end StelloKitchens
