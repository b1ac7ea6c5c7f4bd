import StelloKitchens.Edge.Engine

/-!
# The ledger of the device

The part of a device that its guarantees are about: the orders, the outbox and the invoice
series, with the random ids drawn and the orders purged. Whatever the device does is, on this
ledger, one of a few effects, and every guarantee is proved once for each effect.

## Main definitions

* `Ledger`, `EdgeState.ledger` — the view.
* `Ledger.Effect` — what can happen to it, with all that was checked before.
-/

namespace StelloKitchens

/-- The orders, the outbox, the invoice series, and what the machine remembers. -/
structure Ledger where
  orders : KeyedTable OrderRow.clientId
  outbox : KeyedTable OutboxEntry.key
  outboxSeq : ℕ
  billSeries : KeyedTable BillSeriesRow.key
  issued : List Uuid
  purged : List Order

def EdgeState.ledger (s : EdgeState) : Ledger :=
  ⟨s.db.orders, s.db.outbox, s.db.outboxSeq, s.db.billSeries, s.issued, s.purged⟩

namespace Ledger

/-! ### The writes -/

def save (l : Ledger) (order : Order) : Ledger :=
  { l with
    orders := l.orders.upsert (.fresh order) (·.withState order) OrderRow.clientId_withState }

def insertOutbox (l : Ledger) (now : Time) (key : OutboxKey) (payload : List KotStatusLine) :
    Ledger :=
  { l with
    outbox := l.outbox.upsert
      ⟨l.outboxSeq + 1, key, payload, .pending, 0, now, none, now, none⟩ id fun _ h => h
    outboxSeq := if (l.outbox.find? key).isSome then l.outboxSeq else l.outboxSeq + 1 }

/-- Mark an order as queued. -/
def markQueued (l : Ledger) (c : Uuid) : Ledger :=
  { l with
    orders := l.orders.modify (fun r => r.clientId = c) OrderRow.queued OrderRow.clientId_queued }

/-- Close an order: save it, queue it and mark it as queued. -/
def close (l : Ledger) (now : Time) (order : Order) : Ledger :=
  ((l.save order).insertOutbox now (.order order.clientId) []).markQueued order.clientId

/-- Apply the final answer to an entry and, if it is an order's, to the order. -/
def answer (l : Ledger) (now : Time) (e : OutboxEntry) (r : EdgeOpResult) : Ledger :=
  { l with
    outbox := l.outbox.modify (fun x => x.id = e.id) (OutboxEntry.closed now r)
      (OutboxEntry.key_closed _ _)
    orders := match e.key with
      | .order c => l.orders.modify (fun x => x.clientId = c) (OrderRow.answered r)
        (OrderRow.clientId_answered _)
      | .kotStatus _ _ => l.orders }

/-- The invoice number drawn for a bill, and the series after it. -/
inductive Draw (t : KeyedTable BillSeriesRow.key) :
    Option EdgeBillNo → KeyedTable BillSeriesRow.key → Prop
  | none : Draw t none t
  | next (series : SeriesCode) (number : String) (at_ : Time)
      (hnumber : formatEdgeBillNumber series.code (fiscalYearCode at_)
        (lastSeq t (series.code, fiscalYearCode at_) + 1) = .ok number) :
      Draw t
        (some ⟨series.code, fiscalYearCode at_,
          lastSeq t (series.code, fiscalYearCode at_) + 1, number⟩)
        (advanceSeries t (series.code, fiscalYearCode at_)
          (lastSeq t (series.code, fiscalYearCode at_) + 1))

/-! ### The effects -/

/-- What can happen to the ledger. -/
inductive Effect (l : Ledger) : Ledger → Prop
  /-- A random id is drawn. -/
  | drew (u : Uuid) (hnew : u ∉ l.issued) : Effect l { l with issued := u :: l.issued }
  /-- An order is opened under a fresh id, on a table no running order holds. -/
  | opened (now : Time) (c : Uuid) (orderType : OrderType) (table : Option EdgeTableData)
      (input : EdgeDb.CreateInput) (lines : List OrderLine) (hnew : c ∉ l.issued)
      (hne : lines ≠ []) (hlines : ∀ line ∈ lines, line.WellFormed)
      (hfree : ∀ id ∈ (OrderRow.fresh
        (EdgeDb.newOrder now c orderType table input)).tableId, ∀ r ∈ l.orders,
          r.tableId ≠ some id) :
      Effect l ({ l with issued := c :: l.issued }.save
        (EdgeDb.withRound (EdgeDb.newOrder now c orderType table input) lines))
  /-- A round is added to a running order. -/
  | extended (row : OrderRow) (now : Time) (staffId : Option String) (lines : List OrderLine)
      (hrow : row ∈ l.orders) (hopen : row.state.status = .opened) (hne : lines ≠ [])
      (hlines : ∀ line ∈ lines, line.WellFormed) :
      Effect l (l.save (EdgeDb.withAddedRound row.state now staffId lines))
  /-- A running order is settled under the number drawn for it. -/
  | settled (row : OrderRow) (now : Time) (s : EdgeDb.Settlement) (staffId : Option String)
      (billNo : Option EdgeBillNo) (ref : String) (series : KeyedTable BillSeriesRow.key)
      (hrow : row ∈ l.orders) (hopen : row.state.status = .opened) (hs : s.Checked row.state)
      (hdraw : Draw l.billSeries billNo series) :
      Effect l ({ l with billSeries := series }.close now
        (EdgeDb.settled row.state now s staffId billNo ref))
  /-- A running order is cancelled. -/
  | cancelled (row : OrderRow) (now : Time) (staffId reason : Option String)
      (hrow : row ∈ l.orders) (hopen : row.state.status = .opened) :
      Effect l (l.close now (EdgeDb.cancelled row.state now staffId reason))
  /-- The lines of a kitchen ticket are marked. -/
  | bumped (row : OrderRow) (status : PrepStatus) (now : Time) (items : List KotItem)
      (hrow : row ∈ l.orders) :
      Effect l (l.save (EdgeDb.markTicket row.state status now items))
  /-- A kitchen update is queued for an order the cloud has answered for. -/
  | updateQueued (row : OrderRow) (now : Time) (u : Uuid) (e : OutboxEntry)
      (hrow : row ∈ l.orders) (he : e ∈ l.outbox) (hkey : e.key = .order row.clientId)
      (hsent : e.status = .done ∨ e.status = .conflict) :
      Effect l (l.insertOutbox now (.kotStatus row.clientId u)
        (EdgeDb.statusLines row.state.lines))
  /-- An entry is put off. -/
  | postponed (e : OutboxEntry) (attempts : ℕ) (at_ : Time) (r : EdgeOpResult) :
      Effect l { l with
        outbox := l.outbox.modify (fun x => x.id = e.id) (.postponed attempts at_ r)
          (OutboxEntry.key_postponed _ _ _) }
  /-- An entry is answered for good. -/
  | answered (now : Time) (e x : OutboxEntry) (r : EdgeOpResult) (hx : x ∈ l.outbox)
      (hid : x.id = e.id) (hkey : x.key = e.key)
      (horder : ∀ c, e.key = .order c → ∃ row ∈ l.orders, row.clientId = c) :
      Effect l (l.answer now e r)
  /-- Retention drops old accepted orders and answered entries. -/
  | purged (orderCutoff outboxCutoff : Time) :
      Effect l { l with
        orders := l.orders.delete (OrderRow.purgeable orderCutoff)
        outbox := l.outbox.delete (OutboxEntry.purgeable outboxCutoff)
        purged := l.purged ++ (l.orders.rows.filter (OrderRow.purgeable orderCutoff)).map
          (·.state) }

end Ledger

/-- The cloud has not answered this entry for good, or has rejected it. -/
def OutboxEntry.Kept (x : OutboxEntry) : Prop := x.status = .pending ∨ x.status = .rejected

end StelloKitchens
