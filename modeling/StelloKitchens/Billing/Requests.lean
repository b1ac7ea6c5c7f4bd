import StelloKitchens.Billing.OrderOps
import StelloKitchens.Billing.Settle
import StelloKitchens.Lib.Process

/-!
# The requests on bills

Everything that opens, changes or closes a bill, as one type of requests with the transaction of
each. The requests run side by side with their statements interleaved.

## Main definitions

* `BillingRequest`, `BillingRequest.run` — the requests and their transactions.
* `billingServer` — all requests side by side.
-/

namespace StelloKitchens.Billing

/-- A request, with the catalog and the time it meets. -/
inductive BillingRequest
  | create (user : AuthUser) (menu : Menu) (input : CreateOrderInput)
  | addItems (user : AuthUser) (menu : Menu) (orderId : RowId) (round : RoundInput)
  | ingestAggregatorOrder (menu : Menu) (input : AggregatorInput)
  | ingestScanOrder (menu : Menu) (input : ScanInput)
  | applySyncedOrder (menu : Menu) (outletId deviceId : String) (order : SyncedOrderInput)
  | setServiceCharge (user : AuthUser) (orderId : RowId) (waive : Bool)
  | merge (user : AuthUser) (targetId : RowId) (input : MergeInput)
  | transfer (user : AuthUser) (orderId : RowId) (input : TransferInput)
  | split (user : AuthUser) (orderId : RowId) (input : SplitInput)
  | unsplit (user : AuthUser) (orderId : RowId)
  | settle (user : AuthUser) (now : Time) (orderId : RowId) (input : SettleOrderInput)
  | cancel (user : AuthUser) (orderId : RowId)

/-- The transaction of a request. -/
def BillingRequest.run : BillingRequest → BillingTx Unit
  | create user menu input => Billing.create user menu input
  | addItems user menu orderId round => Billing.addItems user menu orderId round
  | ingestAggregatorOrder menu input =>
    (fun _ => ()) <$> Billing.ingestAggregatorOrder menu input
  | ingestScanOrder menu input => (fun _ => ()) <$> Billing.ingestScanOrder menu input
  | applySyncedOrder menu outletId deviceId order =>
    Billing.applySyncedOrder menu outletId deviceId order
  | setServiceCharge user orderId waive => Billing.setServiceCharge user orderId waive
  | merge user targetId input => Billing.merge user targetId input
  | transfer user orderId input => Billing.transfer user orderId input
  | split user orderId input => Billing.split user orderId input
  | unsplit user orderId => Billing.unsplit user orderId
  | settle user now orderId input => (fun _ => ()) <$> Billing.settle user now orderId input
  | cancel user orderId => Billing.cancel user orderId

/-- Before the first bill: outlets, tables, menus, coupons and customers are set up, and no coupon
has been used. -/
structure NoBills (db : BillingDb) : Prop where
  orders : db.orders = .empty
  items : db.items = .empty
  kots : db.kots = .empty
  unsplits : db.unsplits = []
  comboChoices : db.comboChoices = []
  /-- The code of a coupon is unique in its outlet. -/
  codes : ∀ c ∈ db.coupons, ∀ d ∈ db.coupons, c.outletId = d.outletId → c.code = d.code → c = d
  unused : ∀ c ∈ db.coupons, c.rule.usedCount = 0

/-- The requests side by side: their statements interleave, under the row locks they take. -/
def billingServer :
    Machine (World BillingDb LockKey Unit Empty Empty (Except BillingError Unit))
      (WorldAction BillingRequest Empty) :=
  serve (fun r => .transaction (fun _ => ()) r.run) fun db _ => NoBills db

end StelloKitchens.Billing
