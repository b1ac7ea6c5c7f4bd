import StelloKitchens.Lib.KeyedTable
import StelloKitchens.Lib.Transaction
import StelloKitchens.Shared.Amount
import StelloKitchens.Shared.Billing
import StelloKitchens.Shared.Coupon
import StelloKitchens.Shared.EdgeProtocol

/-!
# The billing tables of the cloud

The rows that the order and billing services of the API read and write: bills with their lines
and kitchen tickets, the outlet with its counters and rules, coupons, customers with their points
and one-time codes, and gift cards. The rows are those of one tenant, to which every statement is
restricted.

A row that a transaction inserts is named after the transaction: the number it drew, and the
place of the row among those it inserts.

## Main definitions

* `BillingDb` — the tables.
* `Order`, `OrderItem`, `Kot` — bills, their lines, their kitchen tickets.
* `LockKey`, `BillingError`, `BillingTx` — what transactions lock and fail with.

## Main results

* `BillingDb.mem_itemsOf` — the lines of a bill.
-/

namespace StelloKitchens.Billing

/-! ### Columns -/

/-- The id of an inserted row. -/
structure RowId where
  /-- The number that the inserting transaction drew. -/
  stamp : ℕ
  index : ℕ
  deriving DecidableEq

/-- The order of the ids. -/
def RowId.le (a b : RowId) : Bool := a.stamp < b.stamp || (a.stamp == b.stamp && a.index ≤ b.index)

/-- An integer column of 32 bits. -/
structure Int4 where
  value : ℤ
  bound : -2 ^ 31 ≤ value ∧ value < 2 ^ 31
  deriving DecidableEq

/-- Store an integer, if it fits. -/
def Int4.ofInt (n : ℤ) : Option Int4 :=
  if h : -2 ^ 31 ≤ n ∧ n < 2 ^ 31 then some ⟨n, h⟩ else none

/-- One portion. -/
def Int4.one : Int4 := ⟨1, by decide⟩

/-- A quantity as a double. -/
def Int4.toNumber (q : Int4) : Binary64 := .ofRat q.value

inductive BillStatus
  | opened
  | settled
  | cancelled
  | merged
  | split
  deriving DecidableEq

/-- How a bill is paid: as on a device, or with a gift card. -/
inductive SettleMode
  | tender (mode : PaymentMode)
  | giftCard
  deriving DecidableEq

/-! ### Rows -/

/-- The figures that the bill row keeps. -/
structure OrderFigures where
  subtotal : Amount
  discountAmount : Amount
  serviceChargeAmount : Amount
  serviceChargeRate : Rate
  serviceChargeTaxable : Bool
  taxAmount : Amount
  roundOff : Amount
  total : Amount
  deriving DecidableEq

/-- The figures of a bill that has none yet. -/
def OrderFigures.zero : OrderFigures := ⟨0, 0, 0, 0, false, 0, 0, 0⟩

structure Order where
  id : RowId
  outletId : String
  orderType : OrderType
  status : BillStatus
  tableId : Option String
  customerName : Option String
  customerPhone : Option String
  couponCode : Option String
  /-- The device and its name for the order, for one that was synced. -/
  syncKey : Option (String × String)
  billNumber : Option String
  figures : OrderFigures
  serviceChargeWaived : Bool
  /-- A split check's share of its parent's discount. -/
  allocatedDiscount : Amount
  /-- The bill that a split check is of. -/
  parentOrderId : Option RowId
  splitIndex : Option ℕ
  /-- Set on a bill that is split. -/
  splitCount : Option ℕ
  mergedIntoOrderId : Option RowId
  deriving DecidableEq

structure OrderItemAddon where
  addonId : String
  name : String
  price : Amount
  deriving DecidableEq

/-- What of a line is only copied along. -/
structure LineDetails where
  itemName : String
  variationId : Option String
  variationName : Option String
  note : Option String
  stationId : Option String
  prepStatus : PrepStatus
  preppedAt : Option Time
  comboId : Option String
  addons : List OrderItemAddon
  deriving DecidableEq

structure OrderItem where
  id : RowId
  orderId : RowId
  itemId : String
  quantity : Int4
  unitPrice : Amount
  lineTotal : Amount
  taxRate : Rate
  kotId : Option RowId
  /-- The combo instance the line is the parent or a component of. -/
  comboGroupId : Option RowId
  isComboComponent : Bool
  /-- The parent bill's line that a split check's line bills. -/
  splitFromItemId : Option RowId
  splitParts : Option ℕ
  details : LineDetails
  deriving DecidableEq

structure Kot where
  id : RowId
  outletId : String
  orderId : RowId
  kotNumber : ℕ
  deriving DecidableEq

structure OrderPayment where
  orderId : RowId
  mode : SettleMode
  amount : Amount
  deriving DecidableEq

/-- The outlet's rules for bills. -/
structure BillingRules where
  serviceChargeEnabled : Bool
  serviceChargePercent : Binary64
  serviceChargeTaxable : Bool
  serviceChargeOrderTypes : List OrderType
  roundOffEnabled : Bool
  deriving DecidableEq

def defaultBillingRules : BillingRules := ⟨false, 0, true, [.dineIn], false⟩

structure Outlet where
  id : String
  nextBillNumber : ℕ
  nextKotNumber : ℕ
  loyaltyEarnRate : Binary64
  loyaltyPointValue : Binary64
  /-- The row of its billing settings, if there is one. -/
  billingSettings : Option BillingRules
  deriving DecidableEq

structure DiningTable where
  id : String
  outletId : String
  name : String
  deriving DecidableEq

structure Coupon where
  id : String
  outletId : String
  code : String
  rule : CouponRule
  deriving DecidableEq

structure Customer where
  outletId : String
  phone : String
  loyaltyPoints : ℤ
  deriving DecidableEq

def Customer.key (c : Customer) : String × String := (c.outletId, c.phone)

inductive LoyaltyType
  | earn
  | redeem
  | topup
  | adjust
  deriving DecidableEq

/-- An entry in the ledger of a customer's points. -/
structure LoyaltyTransaction where
  outletId : String
  phone : String
  type : LoyaltyType
  points : ℤ
  orderId : Option RowId
  deriving DecidableEq

def LoyaltyTransaction.customer (t : LoyaltyTransaction) : String × String := (t.outletId, t.phone)

structure LoyaltyOtp where
  id : ℕ
  outletId : String
  phone : String
  code : String
  createdAt : Time
  expiresAt : Time
  consumed : Bool
  deriving DecidableEq

structure GiftCard where
  code : String
  balance : Amount
  active : Bool
  /-- The first instant after the last day it is good for. -/
  expiresAt : Option Time
  deriving DecidableEq

/-- The entry of the audit log for a split that was undone: the bill and the checks removed. -/
structure Unsplit where
  parentId : RowId
  removedChecks : List RowId
  deriving DecidableEq

/-- What was chosen for a combo instance when it was punched. -/
structure ComboChoice where
  comboGroupId : RowId
  itemIds : List String
  deriving DecidableEq

/-- The use of a one-time code by a settlement. -/
structure OtpUse where
  otpId : ℕ
  orderId : RowId
  usedAt : Time
  deriving DecidableEq

/-- An invoice number of a device that is taken. -/
structure EdgeInvoice where
  outletId : String
  edgeDeviceId : String
  fiscalYear : String
  seq : ℕ
  billNumber : String
  deriving DecidableEq

structure BillingDb where
  outlets : KeyedTable Outlet.id
  tables : KeyedTable DiningTable.id
  orders : KeyedTable Order.id
  items : KeyedTable OrderItem.id
  kots : KeyedTable Kot.id
  payments : List OrderPayment
  coupons : KeyedTable Coupon.id
  customers : KeyedTable Customer.key
  otps : KeyedTable LoyaltyOtp.id
  giftCards : KeyedTable GiftCard.code
  unsplits : List Unsplit
  /-- The combo instances as they were punched, which no statement reads. -/
  comboChoices : List ComboChoice
  loyaltyTransactions : List LoyaltyTransaction
  /-- The codes as they were used, which no statement reads. -/
  otpUses : List OtpUse
  edgeInvoices : List EdgeInvoice
  deriving DecidableEq

/-! ### Locks and failures -/

/-- What transactions lock. -/
inductive LockKey
  | table (id : String)
  | order (id : RowId)
  | outlet (id : String)
  | coupon (id : String)
  | customer (outletId phone : String)
  | giftCard (code : String)
  | otp (id : ℕ)
  /-- The unique number of a device's invoice in its outlet. -/
  | invoice (outletId billNumber : String)
  /-- The unique key of a synchronised order. -/
  | syncKey (deviceId clientId : String)
  deriving DecidableEq

inductive BillingError
  | badRequest (message : String)
  | notFound (message : String)
  | forbidden (message : String)
  /-- A row that has to be there is not, or a value does not fit its column. -/
  | database
  /-- A unique key is taken. -/
  | p2002
  /-- The figures of a device's sale do not add up, or it names what the outlet never had. -/
  | rejectOp (message : String)
  deriving DecidableEq

/-- The transactions over the billing tables. -/
abbrev BillingTx (α : Type) := Tx BillingDb LockKey BillingError α

structure AuthUser where
  id : String
  outletIds : List String
  deriving DecidableEq

namespace BillingDb

/-! ### Statements -/

/-- The lines of a bill. -/
def itemsOf (db : BillingDb) (orderId : RowId) : List OrderItem :=
  db.items.rows.filter fun i => i.orderId = orderId

/-- The open bill on a table of an outlet. -/
def findOpen (db : BillingDb) (outletId tableId : String) : Option Order :=
  db.orders.rows.find? fun o => o.outletId = outletId ∧ o.tableId = some tableId ∧ o.status = .opened

/-- The checks of a bill. -/
def checksOf (db : BillingDb) (parentId : RowId) : List Order :=
  db.orders.rows.filter fun o => o.parentOrderId = some parentId

/-- Update the bill with an id. -/
def updateOrder (db : BillingDb) (id : RowId) (f : Order → Order) (hf : ∀ o, (f o).id = o.id) :
    BillingDb :=
  { db with orders := db.orders.modify (fun o => o.id = id) f hf }

/-- Insert a bill. -/
def insertOrder (db : BillingDb) (o : Order) : BillingDb := { db with orders := db.orders.put o }

/-- Insert lines, or replace those that are there. -/
def putItems (db : BillingDb) (rows : List OrderItem) : BillingDb :=
  { db with items := rows.foldl .put db.items }

/-- Update the outlet with an id. -/
def updateOutlet (db : BillingDb) (id : String) (f : Outlet → Outlet)
    (hf : ∀ o, (f o).id = o.id) : BillingDb :=
  { db with outlets := db.outlets.modify (fun o => o.id = id) f hf }

variable {db : BillingDb}

theorem mem_checksOf {parentId : RowId} {o : Order} :
    o ∈ db.checksOf parentId ↔ o ∈ db.orders ∧ o.parentOrderId = some parentId := by
  simp [checksOf, KeyedTable.mem_def]

theorem findOpen_eq_some {outletId tableId : String} {o : Order}
    (h : db.findOpen outletId tableId = some o) :
    o ∈ db.orders ∧ o.outletId = outletId ∧ o.tableId = some tableId ∧ o.status = .opened :=
  ⟨List.mem_of_find?_eq_some h, by simpa using List.find?_some h⟩

theorem findOpen_eq_none {outletId tableId : String} : db.findOpen outletId tableId = none ↔
    ∀ o ∈ db.orders, ¬(o.outletId = outletId ∧ o.tableId = some tableId ∧ o.status = .opened) := by
  simp [findOpen, KeyedTable.mem_def]

end BillingDb

end StelloKitchens.Billing
