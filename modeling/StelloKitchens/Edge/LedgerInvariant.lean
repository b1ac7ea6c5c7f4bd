import StelloKitchens.Edge.Ledger

/-!
# The invariant of the ledger

What ties the tables of a device together in every reachable state: outbox ids grow, random ids
are never reused, the sync mark of a closed order follows the status of its outbox entry, and a
table has at most one running order.

## Main definitions

* `Ledger.Inv` — the invariant.

## Main results

* `Ledger.Effect.row_origin` — every row is new or follows a row of before.
* `Ledger.Effect.inv` — every effect keeps the invariant.
-/

namespace StelloKitchens

namespace Ledger

/-! ### Rows after a write -/

section Writes

variable {l : Ledger} (order : Order) {row : OrderRow}

theorem mem_save (hrow : row ∈ l.orders) (hid : order.clientId = row.clientId) {r : OrderRow} :
    r ∈ (l.save order).orders ↔
      r = row.withState order ∨ (r ∈ l.orders ∧ r.clientId ≠ row.clientId) := by
  have hfind : l.orders.find? (OrderRow.fresh order).clientId = some row :=
    KeyedTable.find?_eq_some.mpr ⟨hrow, hid.symm⟩
  rw [save, KeyedTable.mem_upsert, hfind]
  exact or_congr_right (and_congr_right fun _ => by rw [← hid]; rfl)

theorem mem_save_new (hnew : l.orders.find? order.clientId = none) {r : OrderRow} :
    r ∈ (l.save order).orders ↔ r = .fresh order ∨ r ∈ l.orders := by
  have hfind : l.orders.find? (OrderRow.fresh order).clientId = none := hnew
  rw [save, KeyedTable.mem_upsert, hfind]
  refine or_congr Iff.rfl ⟨And.left, fun hr => ⟨hr, KeyedTable.find?_eq_none.mp hfind r hr⟩⟩

/-- The row of an order that was just closed. -/
def closedRow (row : OrderRow) (order : Order) : OrderRow :=
  (row.withState order).queued

theorem mem_close (hrow : row ∈ l.orders) (hid : order.clientId = row.clientId) {now : Time}
    {r : OrderRow} :
    r ∈ (l.close now order).orders ↔
      r = closedRow row order ∨ (r ∈ l.orders ∧ r.clientId ≠ row.clientId) := by
  rw [close, markQueued, KeyedTable.mem_modify OrderRow.clientId_queued]
  have hmem : ∀ r, r ∈ ((l.save order).insertOutbox now (.order order.clientId) []).orders ↔
      r = row.withState order ∨ (r ∈ l.orders ∧ r.clientId ≠ row.clientId) :=
    fun r => mem_save order hrow hid
  constructor
  · rintro ⟨x, hx, rfl⟩
    rcases (hmem x).mp hx with rfl | ⟨hx, hne⟩
    · exact .inl (if_pos (decide_eq_true rfl))
    · right
      rw [if_neg (by simpa [hid] using hne)]
      exact ⟨hx, hne⟩
  · rintro (rfl | ⟨hr, hne⟩)
    · exact ⟨row.withState order, (hmem _).mpr (.inl rfl), (if_pos (decide_eq_true rfl)).symm⟩
    · exact ⟨r, (hmem r).mpr (.inr ⟨hr, hne⟩), by rw [if_neg (by simpa [hid] using hne)]⟩

/-- The entry that is queued under a new key. -/
def newEntry (l : Ledger) (now : Time) (key : OutboxKey) (payload : List KotStatusLine) :
    OutboxEntry :=
  ⟨l.outboxSeq + 1, key, payload, .pending, 0, now, none, now, none⟩

theorem mem_insertOutbox {now : Time} {key : OutboxKey} {payload : List KotStatusLine}
    {e : OutboxEntry} :
    e ∈ (l.insertOutbox now key payload).outbox ↔
      (l.outbox.find? key = none ∧ e = l.newEntry now key payload) ∨ e ∈ l.outbox := by
  rw [insertOutbox, KeyedTable.mem_upsert]
  cases hfind : l.outbox.find? key with
  | none =>
    have hne := KeyedTable.find?_eq_none.mp hfind
    constructor
    · rintro (rfl | ⟨he, -⟩)
      · exact .inl ⟨rfl, rfl⟩
      · exact .inr he
    · rintro (⟨-, rfl⟩ | he)
      · exact .inl rfl
      · exact .inr ⟨he, hne e he⟩
  | some old =>
    obtain ⟨hold, hkey⟩ := KeyedTable.find?_eq_some.mp hfind
    constructor
    · rintro (rfl | ⟨he, -⟩)
      · exact .inr hold
      · exact .inr he
    · rintro (⟨h, -⟩ | he)
      · cases h
      · by_cases hek : e.key = key
        · exact .inl (KeyedTable.eq_of_mem he hold (hek.trans hkey.symm))
        · exact .inr ⟨he, hek⟩

end Writes

/-! ### Where a row comes from -/

end Ledger

/-- A line without its kitchen marks. -/
def OrderLine.served (l : OrderLine) : OrderLine := { l with prepStatus := .pending, preppedAt := none }

/-- An order without its kitchen marks: what is never changed once it is closed. -/
def Order.served (o : Order) : Order := { o with lines := o.lines.map OrderLine.served }

theorem map_served_markLine (status : PrepStatus) (now : Time) (lines : List OrderLine)
    (item : KotItem) :
    (EdgeDb.markLine status now lines item).map OrderLine.served =
      lines.map OrderLine.served := by
  apply List.ext_getElem?
  intro i
  rw [EdgeDb.markLine, List.getElem?_map, List.getElem?_map, List.getElem?_modify]
  cases lines[i]? with
  | none => rfl
  | some l =>
    simp only [Option.map_some]
    split <;> rfl

theorem served_markTicket (order : Order) (status : PrepStatus) (now : Time)
    (items : List KotItem) : (EdgeDb.markTicket order status now items).served = order.served := by
  have hlines : ∀ lines : List OrderLine,
      (items.foldl (EdgeDb.markLine status now) lines).map OrderLine.served =
        lines.map OrderLine.served := by
    induction items with
    | nil => exact fun _ => rfl
    | cons item items ih =>
      intro lines
      rw [List.foldl_cons, ih, map_served_markLine]
  rw [Order.served, Order.served, EdgeDb.markTicket, hlines]

/-- A later row of the same order: a closed order keeps all but its kitchen and sync marks. -/
structure OrderRow.Follows (r r' : OrderRow) : Prop where
  clientId_eq : r'.clientId = r.clientId
  tableId_eq : r'.tableId = none ∨ r'.tableId = r.tableId
  closed : r.status ≠ .opened → r'.state.served = r.state.served

theorem OrderRow.Follows.of_state {r r' : OrderRow} (h : r'.state = r.state) : r.Follows r' :=
  ⟨by rw [OrderRow.clientId, h, OrderRow.clientId],
    .inr (by rw [OrderRow.tableId, h, OrderRow.tableId]), fun _ => by rw [h]⟩

theorem OrderRow.Follows.refl (r : OrderRow) : r.Follows r := .of_state rfl

namespace Ledger

/-- A row that an effect leaves is a new running order or follows a row of before. -/
theorem Effect.row_origin {l l' : Ledger} (h : Effect l l') {r' : OrderRow}
    (hr' : r' ∈ l'.orders) (horders : ∀ r ∈ l.orders, r.clientId ∈ l.issued) :
    (r'.clientId ∉ l.issued ∧ r'.clientId ∈ l'.issued ∧ r'.status = .opened ∧
      r'.syncState = .localOnly ∧
      ∀ id, r'.tableId = some id → ∀ r ∈ l.orders, r.tableId ≠ some id) ∨
    ∃ r ∈ l.orders, r.Follows r' := by
  have hsave : ∀ {row : OrderRow} (order : Order), row ∈ l.orders → order.clientId = row.clientId →
      row.Follows (row.withState order) → r' ∈ (l.save order).orders →
      ∃ r ∈ l.orders, r.Follows r' := by
    intro row order hrow hid hfollows hr'
    rcases (mem_save order hrow hid).mp hr' with rfl | ⟨hr', -⟩
    · exact ⟨row, hrow, hfollows⟩
    · exact ⟨r', hr', .refl r'⟩
  cases h with
  | drew u hnew => exact .inr ⟨r', hr', .refl r'⟩
  | opened now c orderType table input lines hnew hne hlines hfree =>
    have hnone : l.orders.find? c = none :=
      KeyedTable.find?_eq_none.mpr fun r hr hrc => hnew (hrc ▸ horders r hr)
    rcases (mem_save_new (l := { l with issued := c :: l.issued }) _ hnone).mp hr' with rfl | hr'
    · exact .inl ⟨hnew, List.mem_cons_self, rfl, rfl, fun id hid => hfree id hid⟩
    · exact .inr ⟨r', hr', .refl r'⟩
  | extended row now staffId lines hrow hopen hne hlines =>
    exact .inr (hsave (EdgeDb.withAddedRound row.state now staffId lines) hrow rfl
      ⟨rfl, .inr rfl, fun h => absurd hopen h⟩ hr')
  | settled row now s staffId billNo ref series hrow hopen hs hdraw =>
    rcases (mem_close (l := { l with billSeries := series })
      (EdgeDb.settled row.state now s staffId billNo ref) hrow rfl).mp hr' with rfl | ⟨hr', -⟩
    · exact .inr ⟨row, hrow, rfl, .inl rfl, fun h => absurd hopen h⟩
    · exact .inr ⟨r', hr', .refl r'⟩
  | cancelled row now staffId reason hrow hopen =>
    rcases (mem_close (EdgeDb.cancelled row.state now staffId reason) hrow rfl).mp hr' with rfl | ⟨hr', -⟩
    · exact .inr ⟨row, hrow, rfl, .inl rfl, fun h => absurd hopen h⟩
    · exact .inr ⟨r', hr', .refl r'⟩
  | bumped row status now items hrow =>
    exact .inr (hsave (EdgeDb.markTicket row.state status now items) hrow rfl
      ⟨rfl, .inr rfl, fun _ => served_markTicket _ _ _ _⟩ hr')
  | updateQueued row now u e hrow he hkey hsent => exact .inr ⟨r', hr', .refl r'⟩
  | postponed e attempts at_ r => exact .inr ⟨r', hr', .refl r'⟩
  | answered now e x r hx hid hkey horder =>
    rw [answer] at hr'
    dsimp only at hr'
    split at hr'
    · obtain ⟨y, hy, rfl⟩ := (KeyedTable.mem_modify (OrderRow.clientId_answered r)).mp hr'
      refine .inr ⟨y, hy, .of_state ?_⟩
      split <;> rfl
    · exact .inr ⟨r', hr', .refl r'⟩
  | purged orderCutoff outboxCutoff =>
    exact .inr ⟨r', (KeyedTable.mem_delete.mp hr').1, .refl r'⟩

/-- The issued ids after an effect are those of before and possibly a fresh one. -/
theorem Effect.issued_subset {l l' : Ledger} (h : Effect l l') {u : Uuid} (hu : u ∈ l.issued) :
    u ∈ l'.issued := by
  cases h with
  | drew v hnew => exact List.mem_cons_of_mem v hu
  | opened now c orderType table input lines hnew hne hlines hfree =>
    exact List.mem_cons_of_mem c hu
  | _ => exact hu

/-- At most one id is drawn by an effect. -/
theorem Effect.issued_unique {l l' : Ledger} (h : Effect l l') {u v : Uuid} (hu : u ∈ l'.issued)
    (hv : v ∈ l'.issued) (hu' : u ∉ l.issued) (hv' : v ∉ l.issued) : u = v := by
  cases h with
  | drew w hnew =>
    rw [(List.mem_cons.mp hu).resolve_right hu', (List.mem_cons.mp hv).resolve_right hv']
  | opened now c orderType table input lines hnew hne hlines hfree =>
    rw [(List.mem_cons.mp hu).resolve_right hu', (List.mem_cons.mp hv).resolve_right hv']
  | _ => exact absurd hu hu'

/-- An entry that an effect leaves is new, for a closed order or a kitchen update, or it comes
from an entry with its id, key and payload. -/
theorem Effect.entry_origin {l l' : Ledger} (h : Effect l l') {e' : OutboxEntry}
    (he' : e' ∈ l'.outbox) :
    (∃ r ∈ l.orders, e'.key = .order r.clientId ∨
      ∃ u, e'.key = .kotStatus r.clientId u ∧ e'.payload = EdgeDb.statusLines r.state.lines) ∨
      ∃ e ∈ l.outbox, e'.id = e.id ∧ e'.key = e.key ∧ e'.payload = e.payload := by
  have hmodify : ∀ {p : OutboxEntry → Bool} {f : OutboxEntry → OutboxEntry}
      (hf : ∀ x, (f x).key = x.key), (∀ x, (f x).id = x.id ∧ (f x).payload = x.payload) →
      e' ∈ l.outbox.modify p f hf →
        ∃ e ∈ l.outbox, e'.id = e.id ∧ e'.key = e.key ∧ e'.payload = e.payload := by
    intro p f hf hid he'
    obtain ⟨x, hx, rfl⟩ := (KeyedTable.mem_modify hf).mp he'
    refine ⟨x, hx, ?_⟩
    split
    · exact ⟨(hid x).1, hf x, (hid x).2⟩
    · exact ⟨rfl, rfl, rfl⟩
  cases h with
  | settled row now s staffId billNo ref series hrow hopen hs hdraw =>
    rcases mem_insertOutbox.mp he' with ⟨-, rfl⟩ | he'
    · exact .inl ⟨row, hrow, .inl rfl⟩
    · exact .inr ⟨e', he', rfl, rfl, rfl⟩
  | cancelled row now staffId reason hrow hopen =>
    rcases mem_insertOutbox.mp he' with ⟨-, rfl⟩ | he'
    · exact .inl ⟨row, hrow, .inl rfl⟩
    · exact .inr ⟨e', he', rfl, rfl, rfl⟩
  | updateQueued row now u e hrow he hkey hsent =>
    rcases mem_insertOutbox.mp he' with ⟨-, rfl⟩ | he'
    · exact .inl ⟨row, hrow, .inr ⟨u, rfl, rfl⟩⟩
    · exact .inr ⟨e', he', rfl, rfl, rfl⟩
  | postponed e attempts at_ r =>
    exact .inr (hmodify (OutboxEntry.key_postponed attempts at_ r) (fun _ => ⟨rfl, rfl⟩) he')
  | answered now e x r hx hid hkey horder =>
    exact .inr (hmodify (OutboxEntry.key_closed now r) (fun _ => ⟨rfl, rfl⟩) he')
  | purged orderCutoff outboxCutoff =>
    exact .inr ⟨e', (KeyedTable.mem_delete.mp he').1, rfl, rfl, rfl⟩
  | _ => exact .inr ⟨e', he', rfl, rfl, rfl⟩

/-! ### The ids of the outbox -/

/-- Outbox rows are in the order of their ids, none past the last one given out. -/
structure IdsOk (l : Ledger) : Prop where
  increasing : (l.outbox.rows.map (·.id)).Pairwise (· < ·)
  le_outboxSeq : ∀ e ∈ l.outbox, e.id ≤ l.outboxSeq

theorem IdsOk.eq_of_id {l : Ledger} (h : l.IdsOk) {x y : OutboxEntry} (hx : x ∈ l.outbox)
    (hy : y ∈ l.outbox) (hid : x.id = y.id) : x = y :=
  List.inj_on_of_nodup_map (h.increasing.imp fun hlt => hlt.ne) hx hy hid

theorem IdsOk.insertOutbox {l : Ledger} (h : l.IdsOk) {now : Time} {key : OutboxKey}
    {payload : List KotStatusLine} : (l.insertOutbox now key payload).IdsOk := by
  cases hfind : l.outbox.find? key with
  | some old =>
    have hrows : (l.insertOutbox now key payload).outbox.rows = l.outbox.rows := by
      rw [Ledger.insertOutbox, KeyedTable.rows_upsert_of_some _ hfind]
      simp
    refine ⟨by rw [hrows]; exact h.increasing, fun e he => ?_⟩
    rw [KeyedTable.mem_def, hrows] at he
    have := h.le_outboxSeq e he
    simpa [Ledger.insertOutbox, hfind] using this
  | none =>
    have hrows : (l.insertOutbox now key payload).outbox.rows =
        l.outbox.rows ++ [l.newEntry now key payload] := by
      rw [Ledger.insertOutbox, KeyedTable.rows_upsert_of_none _ hfind]
      rfl
    have hseq : (l.insertOutbox now key payload).outboxSeq = l.outboxSeq + 1 := by
      simp [Ledger.insertOutbox, hfind]
    constructor
    · rw [hrows, List.map_append, List.pairwise_append]
      refine ⟨h.increasing, List.pairwise_singleton _ _, ?_⟩
      intro a ha b hb
      obtain ⟨e, he, rfl⟩ := List.mem_map.mp ha
      rw [List.map_singleton, List.mem_singleton] at hb
      subst hb
      exact Nat.lt_succ_of_le (h.le_outboxSeq e he)
    · intro e he
      rw [hseq]
      rcases mem_insertOutbox.mp he with ⟨-, rfl⟩ | he
      · exact le_refl _
      · exact (h.le_outboxSeq e he).trans (Nat.le_succ _)

theorem IdsOk.modify {l : Ledger} (h : l.IdsOk) {p : OutboxEntry → Bool}
    {f : OutboxEntry → OutboxEntry} (hf : ∀ x, (f x).key = x.key) (hid : ∀ x, (f x).id = x.id) :
    ({ l with outbox := l.outbox.modify p f hf } : Ledger).IdsOk := by
  have hids : ((l.outbox.modify p f hf).rows.map (·.id)) = l.outbox.rows.map (·.id) := by
    rw [KeyedTable.modify, List.map_map]
    apply List.map_congr_left
    intro x _
    simp only [Function.comp_apply]
    split
    · exact hid x
    · rfl
  refine ⟨by rw [hids]; exact h.increasing, fun e he => ?_⟩
  obtain ⟨x, hx, rfl⟩ := (KeyedTable.mem_modify hf).mp he
  have := h.le_outboxSeq x hx
  split
  · rw [hid]
    exact this
  · exact this

theorem Effect.idsOk {l l' : Ledger} (h : Effect l l') (hl : l.IdsOk) : l'.IdsOk := by
  cases h with
  | settled row now s staffId billNo ref series hrow hopen hs hdraw =>
    have hsave : IdsOk ({ l with billSeries := series }.save
      (EdgeDb.settled row.state now s staffId billNo ref)) := ⟨hl.1, hl.2⟩
    exact ⟨hsave.insertOutbox.1, hsave.insertOutbox.2⟩
  | cancelled row now staffId reason hrow hopen =>
    have hsave : IdsOk (l.save (EdgeDb.cancelled row.state now staffId reason)) := ⟨hl.1, hl.2⟩
    exact ⟨hsave.insertOutbox.1, hsave.insertOutbox.2⟩
  | updateQueued row now u e hrow he hkey hsent => exact hl.insertOutbox
  | postponed e attempts at_ r => exact hl.modify _ fun _ => rfl
  | answered now e x r hx hid hkey horder =>
    have := hl.modify (p := fun x => x.id = e.id) (OutboxEntry.key_closed now r) fun _ => rfl
    exact ⟨this.1, this.2⟩
  | purged orderCutoff outboxCutoff =>
    exact ⟨hl.1.sublist (List.filter_sublist.map _),
      fun e he => hl.2 e (KeyedTable.mem_delete.mp he).1⟩
  | _ => exact ⟨hl.1, hl.2⟩

/-! ### Ids are never reused -/

/-- Every id in use was drawn, and a purged order does not come back. -/
structure IssuedOk (l : Ledger) : Prop where
  orders : ∀ r ∈ l.orders, r.clientId ∈ l.issued
  entries : ∀ e ∈ l.outbox, e.key.clientId ∈ l.issued
  purged : ∀ o ∈ l.purged, o.clientId ∈ l.issued ∧ l.orders.find? o.clientId = none

theorem Effect.issuedOk {l l' : Ledger} (h : Effect l l') (hl : l.IssuedOk) : l'.IssuedOk := by
  have horders : ∀ r' ∈ l'.orders, r'.clientId ∈ l'.issued := by
    intro r' hr'
    rcases h.row_origin hr' hl.orders with ⟨-, hin, -⟩ | ⟨r, hr, hfollows⟩
    · exact hin
    · rw [hfollows.clientId_eq]
      exact h.issued_subset (hl.orders r hr)
  refine ⟨horders, ?_, ?_⟩
  · intro e' he'
    rcases h.entry_origin he' with ⟨r, hr, hnew⟩ | ⟨e, he, -, hkey, -⟩
    · have hc : e'.key.clientId = r.clientId := by
        rcases hnew with hkey | ⟨u, hkey, -⟩ <;> rw [hkey] <;> rfl
      rw [hc]
      exact h.issued_subset (hl.orders r hr)
    · rw [hkey]
      exact h.issued_subset (hl.entries e he)
  · intro o ho
    -- an order that is not among the rows of before is new, and its id is not one that was drawn
    have hgone : ∀ o : Order, o.clientId ∈ l.issued → l.orders.find? o.clientId = none →
        l'.orders.find? o.clientId = none := by
      intro o hissued hnone
      refine KeyedTable.find?_eq_none.mpr fun r' hr' hc => ?_
      rcases h.row_origin hr' hl.orders with ⟨hnew, -⟩ | ⟨r, hr, hfollows⟩
      · exact hnew (hc ▸ hissued)
      · exact KeyedTable.find?_eq_none.mp hnone r hr (hfollows.clientId_eq.symm.trans hc)
    have hold : o ∈ l.purged → o.clientId ∈ l'.issued ∧ l'.orders.find? o.clientId = none :=
      fun ho => ⟨h.issued_subset (hl.purged o ho).1, hgone o (hl.purged o ho).1 (hl.purged o ho).2⟩
    cases h with
    | purged orderCutoff outboxCutoff =>
      rcases List.mem_append.mp ho with ho | ho
      · exact hold ho
      · obtain ⟨r, hr, rfl⟩ := List.mem_map.mp ho
        obtain ⟨hr, hp⟩ := List.mem_filter.mp hr
        refine ⟨hl.orders r hr, KeyedTable.find?_eq_none.mpr fun x hx hc => ?_⟩
        obtain ⟨hx, hpx⟩ := KeyedTable.mem_delete.mp hx
        rw [KeyedTable.eq_of_mem hx hr hc, hp] at hpx
        cases hpx
    | _ => exact hold ho

/-! ### Outbox and sync marks -/

end Ledger

/-- The sync mark of an order whose outbox entry has this status. -/
def SyncState.ofOutbox : OutboxStatus → SyncState
  | .pending => .queued
  | .done => .synced
  | .conflict => .conflict
  | .rejected => .rejected

theorem SyncState.ofOutbox_ofResult (s : EdgeOpStatus) :
    SyncState.ofOutbox (.ofResult s) = .ofResult s := by cases s <;> rfl

namespace Ledger

/-- The entry of an order and the sync mark of its row agree. -/
structure SyncOk (l : Ledger) : Prop where
  /-- Only closed orders have an entry, and their mark follows its status. -/
  entry_sync : ∀ e ∈ l.outbox, ∀ r ∈ l.orders, e.key = .order r.clientId →
    r.status ≠ .opened ∧ r.syncState = .ofOutbox e.status
  /-- An order without an entry is running, or the cloud has accepted it. -/
  unsent : ∀ r ∈ l.orders, (∀ e ∈ l.outbox, e.key ≠ .order r.clientId) →
    (r.status = .opened ∧ r.syncState = .localOnly) ∨
      (r.status ≠ .opened ∧ (r.syncState = .synced ∨ r.syncState = .conflict))
  /-- An entry that is not accepted still has its order. -/
  waiting : ∀ e ∈ l.outbox, ∀ c, e.key = .order c → e.Kept → ∃ r ∈ l.orders, r.clientId = c

/-- A running order has no entry. -/
theorem SyncOk.find?_of_opened {l : Ledger} (hl : l.SyncOk) {row : OrderRow}
    (hrow : row ∈ l.orders) (hopen : row.state.status = .opened) :
    l.outbox.find? (.order row.clientId) = none :=
  KeyedTable.find?_eq_none.mpr fun e he hkey => (hl.entry_sync e he row hrow hkey).1 hopen

/-- Saving an order anew without changing whether it runs. -/
theorem SyncOk.save {l : Ledger} (hl : l.SyncOk) {row : OrderRow} {order : Order}
    (hrow : row ∈ l.orders) (hid : order.clientId = row.clientId)
    (hstatus : order.status = row.status) : (l.save order).SyncOk := by
  refine ⟨fun e he r hr hkey => ?_, fun r hr hnone => ?_, fun e he c hkey hkept => ?_⟩
  · rcases (mem_save order hrow hid).mp hr with rfl | ⟨hr, -⟩
    · have hc : (row.withState order).clientId = row.clientId := hid
      rw [hc] at hkey
      have := hl.entry_sync e he row hrow hkey
      exact ⟨fun h => this.1 (hstatus.symm.trans h), this.2⟩
    · exact hl.entry_sync e he r hr hkey
  · rcases (mem_save order hrow hid).mp hr with rfl | ⟨hr, -⟩
    · have hc : (row.withState order).clientId = row.clientId := hid
      rw [hc] at hnone
      have hs : (row.withState order).status = row.status := hstatus
      rw [hs]
      exact hl.unsent row hrow hnone
    · exact hl.unsent r hr hnone
  · obtain ⟨r, hr, hc⟩ := hl.waiting e he c hkey hkept
    by_cases hrc : r.clientId = row.clientId
    · exact ⟨row.withState order, (mem_save order hrow hid).mpr (.inl rfl),
        hid.trans (hrc.symm.trans hc)⟩
    · exact ⟨r, (mem_save order hrow hid).mpr (.inr ⟨hr, hrc⟩), hc⟩

/-- Queueing a kitchen update concerns no order's entry. -/
theorem SyncOk.insertUpdate {l : Ledger} (hl : l.SyncOk) {now : Time} {c u : Uuid}
    {payload : List KotStatusLine} : (l.insertOutbox now (.kotStatus c u) payload).SyncOk := by
  have hold : ∀ {e : OutboxEntry} {c' : Uuid},
      e ∈ (l.insertOutbox now (.kotStatus c u) payload).outbox → e.key = .order c' →
      e ∈ l.outbox := by
    intro e c' he hkey
    rcases mem_insertOutbox.mp he with ⟨-, rfl⟩ | he
    · cases hkey
    · exact he
  exact ⟨fun e he r hr hkey => hl.entry_sync e (hold he hkey) r hr hkey,
    fun r hr hnone => hl.unsent r hr fun e he => hnone e (mem_insertOutbox.mpr (.inr he)),
    fun e he c' hkey hkept => hl.waiting e (hold he hkey) c' hkey hkept⟩

/-- Closing a running order queues its only entry. -/
theorem SyncOk.close {l : Ledger} (hl : l.SyncOk) {row : OrderRow} {order : Order} {now : Time}
    (hrow : row ∈ l.orders) (hid : order.clientId = row.clientId)
    (hopen : row.state.status = .opened) (hclosed : order.status ≠ .opened) :
    (l.close now order).SyncOk := by
  have hfind : l.outbox.find? (.order order.clientId) = none := by
    rw [hid]
    exact hl.find?_of_opened hrow hopen
  have houtbox : ∀ e, e ∈ (l.close now order).outbox ↔
      e = l.newEntry now (.order order.clientId) [] ∨ e ∈ l.outbox := by
    intro e
    have h : e ∈ ((l.save order).insertOutbox now (.order order.clientId) []).outbox ↔ _ :=
      mem_insertOutbox
    refine h.trans (or_congr_left ⟨And.right, fun he => ⟨hfind, he⟩⟩)
  have hrows : ∀ r, r ∈ (l.close now order).orders ↔
      r = closedRow row order ∨ (r ∈ l.orders ∧ r.clientId ≠ row.clientId) :=
    fun _ => mem_close order hrow hid
  refine ⟨fun e he r hr hkey => ?_, fun r hr hnone => ?_, fun e he c hkey hkept => ?_⟩
  · rcases (houtbox e).mp he with rfl | he
    · rcases (hrows r).mp hr with rfl | ⟨hr, hne⟩
      · exact ⟨hclosed, rfl⟩
      · have hkey : order.clientId = r.clientId := OutboxKey.order.inj hkey
        exact absurd (hkey.symm.trans hid) hne
    · rcases (hrows r).mp hr with rfl | ⟨hr, hne⟩
      · have hc : (closedRow row order).clientId = row.clientId := hid
        rw [hc] at hkey
        exact absurd hopen (hl.entry_sync e he row hrow hkey).1
      · exact hl.entry_sync e he r hr hkey
  · rcases (hrows r).mp hr with rfl | ⟨hr, hne⟩
    · exact absurd rfl (hnone _ ((houtbox _).mpr (.inl rfl)))
    · exact hl.unsent r hr fun e he => hnone e ((houtbox e).mpr (.inr he))
  · rcases (houtbox e).mp he with rfl | he
    · exact ⟨_, (hrows _).mpr (.inl rfl), OutboxKey.order.inj hkey⟩
    · obtain ⟨r, hr, hc⟩ := hl.waiting e he c hkey hkept
      by_cases hrc : r.clientId = row.clientId
      · exact ⟨_, (hrows _).mpr (.inl rfl), hid.trans (hrc.symm.trans hc)⟩
      · exact ⟨r, (hrows r).mpr (.inr ⟨hr, hrc⟩), hc⟩

/-- An answer gives the entry and the order of its key the same mark. -/
theorem SyncOk.answer {l : Ledger} (hl : l.SyncOk) (hids : l.IdsOk) {now : Time}
    {e x : OutboxEntry} {r : EdgeOpResult} (hx : x ∈ l.outbox) (hid : x.id = e.id)
    (hkey : x.key = e.key) (horder : ∀ c, e.key = .order c → ∃ row ∈ l.orders, row.clientId = c) :
    (l.answer now e r).SyncOk := by
  -- the row under the id of the entry is the one that was sent
  have hentry : ∀ y, y ∈ (l.answer now e r).outbox ↔
      y = x.closed now r ∨ (y ∈ l.outbox ∧ y.key ≠ e.key) := by
    intro y
    rw [Ledger.answer, KeyedTable.mem_modify (OutboxEntry.key_closed now r)]
    constructor
    · rintro ⟨z, hz, rfl⟩
      by_cases hzid : z.id = e.id
      · rw [if_pos (decide_eq_true hzid), hids.eq_of_id hz hx (hzid.trans hid.symm)]
        exact .inl rfl
      · rw [if_neg (by simpa using hzid)]
        refine .inr ⟨hz, fun hzk => hzid ?_⟩
        rw [KeyedTable.eq_of_mem hz hx (hzk.trans hkey.symm), hid]
    · rintro (rfl | ⟨hy, hne⟩)
      · exact ⟨x, hx, (if_pos (decide_eq_true hid)).symm⟩
      · refine ⟨y, hy, (if_neg ?_).symm⟩
        intro hyid
        have hyx := hids.eq_of_id hy hx ((of_decide_eq_true hyid).trans hid.symm)
        exact hne (hyx ▸ hkey)
  have hrow : ∀ y, y ∈ (l.answer now e r).orders ↔ ∃ z ∈ l.orders,
      y = if e.key = .order z.clientId then z.answered r else z := by
    intro y
    rw [Ledger.answer]
    dsimp only
    split
    · rename_i c hc
      rw [KeyedTable.mem_modify (OrderRow.clientId_answered r)]
      refine exists_congr fun z => and_congr_right fun _ => ?_
      have : (e.key = .order z.clientId) ↔ z.clientId = c := by
        rw [hc]
        exact ⟨fun h => (OutboxKey.order.inj h).symm, fun h => by rw [h]⟩
      simp only [this, decide_eq_true_eq]
    · rename_i c u hc
      have : ∀ z : OrderRow, e.key ≠ .order z.clientId := fun z h => by rw [hc] at h; cases h
      simp [this]
  have hclient : ∀ z : OrderRow,
      (if e.key = .order z.clientId then z.answered r else z).clientId = z.clientId := by
    intro z
    split <;> rfl
  have hstatus : ∀ z : OrderRow,
      (if e.key = .order z.clientId then z.answered r else z).status = z.status := by
    intro z
    split <;> rfl
  refine ⟨fun y hy row hr hyk => ?_, fun row hr hnone => ?_, fun y hy c hyk hkept => ?_⟩
  · obtain ⟨z, hz, rfl⟩ := (hrow row).mp hr
    rw [hclient] at hyk
    rw [hstatus]
    rcases (hentry y).mp hy with rfl | ⟨hy, hne⟩
    · have hxk : x.key = .order z.clientId := hyk
      rw [if_pos (hkey.symm.trans hxk)]
      exact ⟨(hl.entry_sync x hx z hz hxk).1, (SyncState.ofOutbox_ofResult r.status).symm⟩
    · rw [if_neg fun h => hne (hyk.trans h.symm)]
      exact hl.entry_sync y hy z hz hyk
  · obtain ⟨z, hz, rfl⟩ := (hrow row).mp hr
    rw [hclient] at hnone
    rw [hstatus]
    have hzk : e.key ≠ .order z.clientId := by
      intro h
      exact hnone _ ((hentry _).mpr (.inl rfl)) (hkey.trans h)
    rw [if_neg hzk]
    refine hl.unsent z hz fun y hy hyk => ?_
    exact hnone y ((hentry y).mpr (.inr ⟨hy, fun h => hzk (h.symm.trans hyk)⟩)) hyk
  · rcases (hentry y).mp hy with rfl | ⟨hy, hne⟩
    · obtain ⟨z, hz, hc⟩ := horder c (hkey.symm.trans hyk)
      exact ⟨_, (hrow _).mpr ⟨z, hz, rfl⟩, (hclient z).trans hc⟩
    · obtain ⟨z, hz, hc⟩ := hl.waiting y hy c hyk hkept
      exact ⟨_, (hrow _).mpr ⟨z, hz, rfl⟩, (hclient z).trans hc⟩

/-- A purge takes nothing that is not accepted. -/
theorem SyncOk.purge {l : Ledger} (hl : l.SyncOk) {orderCutoff outboxCutoff : Time}
    {purged : List Order} :
    ({ l with orders := l.orders.delete (OrderRow.purgeable orderCutoff)
              outbox := l.outbox.delete (OutboxEntry.purgeable outboxCutoff)
              purged := purged } : Ledger).SyncOk := by
  refine ⟨fun e he r hr hkey => ?_, fun r hr hnone => ?_, fun e he c hkey hkept => ?_⟩
  · exact hl.entry_sync e (KeyedTable.mem_delete.mp he).1 r (KeyedTable.mem_delete.mp hr).1 hkey
  · have hr := (KeyedTable.mem_delete.mp hr).1
    by_cases hall : ∀ e ∈ l.outbox, e.key ≠ .order r.clientId
    · exact hl.unsent r hr hall
    · push Not at hall
      obtain ⟨e, he, hkey⟩ := hall
      obtain ⟨hclosed, hsync⟩ := hl.entry_sync e he r hr hkey
      refine .inr ⟨hclosed, ?_⟩
      have hpurged : e.purgeable outboxCutoff = true := by
        by_contra hkeep
        exact hnone e (KeyedTable.mem_delete.mpr ⟨he, by simpa using hkeep⟩) hkey
      rw [OutboxEntry.purgeable, decide_eq_true_eq] at hpurged
      rcases hpurged.1 with hs | hs
      · exact .inl (by rw [hsync, hs]; rfl)
      · exact .inr (by rw [hsync, hs]; rfl)
  · have he := (KeyedTable.mem_delete.mp he).1
    obtain ⟨r, hr, hc⟩ := hl.waiting e he c hkey hkept
    refine ⟨r, KeyedTable.mem_delete.mpr ⟨hr, ?_⟩, hc⟩
    have hsync := (hl.entry_sync e he r hr (hkey.trans (by rw [hc]))).2
    rcases hkept with hs | hs <;> rw [hs] at hsync <;>
      simp [OrderRow.purgeable, hsync, SyncState.ofOutbox]

theorem Effect.syncOk {l l' : Ledger} (h : Effect l l') (hl : l.SyncOk) (hids : l.IdsOk)
    (hissued : l.IssuedOk) : l'.SyncOk := by
  cases h with
  | drew u hnew => exact ⟨hl.1, hl.2, hl.3⟩
  | opened now c orderType table input lines hnew hne hlines hfree =>
    have hnone : l.orders.find? c = none :=
      KeyedTable.find?_eq_none.mpr fun r hr hrc => hnew (hrc ▸ hissued.orders r hr)
    have hrows := fun r => mem_save_new (l := { l with issued := c :: l.issued })
      (EdgeDb.withRound (EdgeDb.newOrder now c orderType table input) lines) hnone (r := r)
    refine ⟨fun e he r hr hkey => ?_, fun r hr hno => ?_, fun e he c' hkey hkept => ?_⟩
    · rcases (hrows r).mp hr with rfl | hr
      · have := hissued.entries e he
        rw [hkey] at this
        exact absurd this hnew
      · exact hl.entry_sync e he r hr hkey
    · rcases (hrows r).mp hr with rfl | hr
      · exact .inl ⟨rfl, rfl⟩
      · exact hl.unsent r hr hno
    · obtain ⟨r, hr, hc⟩ := hl.waiting e he c' hkey hkept
      exact ⟨r, (hrows r).mpr (.inr hr), hc⟩
  | extended row now staffId lines hrow hopen hne hlines => exact hl.save hrow rfl rfl
  | settled row now s staffId billNo ref series hrow hopen hs hdraw =>
    have hl' : SyncOk { l with billSeries := series } := ⟨hl.1, hl.2, hl.3⟩
    exact hl'.close hrow rfl hopen (by intro h; cases h)
  | cancelled row now staffId reason hrow hopen =>
    exact hl.close hrow rfl hopen (by intro h; cases h)
  | bumped row status now items hrow => exact hl.save hrow rfl rfl
  | updateQueued row now u e hrow he hkey hsent => exact hl.insertUpdate
  | postponed e attempts at_ r =>
    have hmem : ∀ {y}, y ∈ l.outbox.modify (fun x => x.id = e.id) (.postponed attempts at_ r)
        (OutboxEntry.key_postponed attempts at_ r) →
        ∃ x ∈ l.outbox, y.key = x.key ∧ y.status = x.status := by
      intro y hy
      obtain ⟨x, hx, rfl⟩ := (KeyedTable.mem_modify (OutboxEntry.key_postponed attempts at_ r)).mp hy
      refine ⟨x, hx, ?_⟩
      split <;> exact ⟨rfl, rfl⟩
    refine ⟨fun y hy row hr hkey => ?_, fun row hr hnone => hl.unsent row hr fun x hx hkey => ?_,
      fun y hy c hkey hkept => ?_⟩
    · obtain ⟨x, hx, hk, hs⟩ := hmem hy
      rw [hs]
      exact hl.entry_sync x hx row hr (hk.symm.trans hkey)
    · refine hnone _ ((KeyedTable.mem_modify (OutboxEntry.key_postponed attempts at_ r)).mpr
        ⟨x, hx, rfl⟩) ?_
      split <;> exact hkey
    · obtain ⟨x, hx, hk, hs⟩ := hmem hy
      exact hl.waiting x hx c (hk.symm.trans hkey) (by rwa [OutboxEntry.Kept, hs] at hkept)
  | answered now e x r hx hid hkey horder => exact hl.answer hids hx hid hkey horder
  | purged orderCutoff outboxCutoff => exact hl.purge

/-! ### Tables -/

/-- A table has at most one running order. -/
def TablesOk (l : Ledger) : Prop :=
  ∀ r₁ ∈ l.orders, ∀ r₂ ∈ l.orders, ∀ id, r₁.tableId = some id → r₂.tableId = some id → r₁ = r₂

theorem Effect.tablesOk {l l' : Ledger} (h : Effect l l') (hl : l.TablesOk)
    (hissued : l.IssuedOk) : l'.TablesOk := by
  have hfollow : ∀ {r r' : OrderRow} {id : String}, r.Follows r' → r'.tableId = some id →
      r.tableId = some id := by
    intro r r' id hf hid
    rcases hf.tableId_eq with h | h
    · rw [h] at hid
      cases hid
    · exact h ▸ hid
  intro r₁ hr₁ r₂ hr₂ id hid₁ hid₂
  rcases h.row_origin hr₁ hissued.orders with ⟨hnew₁, hin₁, -, -, hfree₁⟩ | ⟨s₁, hs₁, hf₁⟩ <;>
    rcases h.row_origin hr₂ hissued.orders with ⟨hnew₂, hin₂, -, -, hfree₂⟩ | ⟨s₂, hs₂, hf₂⟩
  · exact KeyedTable.eq_of_mem hr₁ hr₂ (h.issued_unique hin₁ hin₂ hnew₁ hnew₂)
  · exact absurd (hfollow hf₂ hid₂) (hfree₁ id hid₁ s₂ hs₂)
  · exact absurd (hfollow hf₁ hid₁) (hfree₂ id hid₂ s₁ hs₁)
  · have hs := hl s₁ hs₁ s₂ hs₂ id (hfollow hf₁ hid₁) (hfollow hf₂ hid₂)
    exact KeyedTable.eq_of_mem hr₁ hr₂ (hf₁.clientId_eq.trans (hs ▸ hf₂.clientId_eq.symm))

/-! ### The invariant -/

/-- What holds of the ledger in every reachable state. -/
structure Inv (l : Ledger) : Prop where
  ids : l.IdsOk
  issued : l.IssuedOk
  sync : l.SyncOk
  tables : l.TablesOk

/-- Every effect keeps the invariant. -/
theorem Effect.inv {l l' : Ledger} (h : Effect l l') (hl : l.Inv) : l'.Inv :=
  ⟨h.idsOk hl.ids, h.issuedOk hl.issued, h.syncOk hl.sync hl.ids hl.issued,
    h.tablesOk hl.tables hl.issued⟩

end Ledger

end StelloKitchens
