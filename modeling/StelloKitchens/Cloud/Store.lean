import StelloKitchens.Lib.KeyedTable
import StelloKitchens.Shared.EdgeFeed
import StelloKitchens.Shared.EdgeProtocol

/-!
# The cloud's database

The tables of the cloud that the ingest of offline sales reads and writes. Orders are told apart
by their device and client id, which is the unique key of their table; only orders that came from
a device are here, as the others have no such key. The rows of an order have ids of their own
within it.

A `Decimal` column is its number, rounded to its scale by every write. Row ids are numbers; the
text form of an order's id is what the cloud answers.

## Main definitions

* `CloudDb` — the tables.
* `EdgeDeviceContext` — the device a request was authenticated as.
-/

namespace StelloKitchens

/-- A number of a `Decimal` column with this many digits after the point, halves going away from
zero. -/
def numeric (scale : ℕ) (q : ℚ) : ℚ :=
  let n : ℚ := ⌊|q| * 10 ^ scale + 1 / 2⌋ / 10 ^ scale
  if q < 0 then -n else n

/-- The decimal that a number is written as. -/
def jsDecimal (x : Binary64) : ℚ :=
  if x.val = 0 then 0
  else
    let (digits, n) := shortestDecimal (Binary64.ofRat |x.val|)
    let q : ℚ := digits * 10 ^ (n - (toString digits).length)
    if x.val < 0 then -q else q

/-- The text of a row id. -/
def rowIdText (id : ℕ) : String := "c" ++ toString id

/-- The authenticated device of a request. -/
structure EdgeDeviceContext where
  edgeDeviceId : String
  tenantId : String
  outletId : String
  terminalId : String
  seriesCode : String
  deriving DecidableEq

namespace Cloud

/-! ### Sales -/

structure Order where
  id : ℕ
  tenantId : String
  outletId : String
  orderType : OrderType
  status : OrderStatus
  tableId : Option String
  customerName : Option String
  customerPhone : Option String
  couponCode : Option String
  deviceId : String
  clientId : String
  offlineRef : Option String
  billNumber : Option String
  subtotal : Binary64
  discountAmount : Binary64
  taxAmount : Binary64
  total : Binary64
  createdById : Option String
  createdAt : Time
  deriving DecidableEq

/-- The unique key of an order that came from a device. -/
def Order.saleKey (o : Order) : String × String := (o.deviceId, o.clientId)

structure OrderItemAddon where
  addonId : String
  name : String
  price : Binary64
  deriving DecidableEq

/-- A line of an order. Its id is its order's with its number in the order the lines were
written. -/
structure OrderItem where
  orderId : ℕ
  lineNo : ℕ
  itemId : String
  itemName : String
  variationId : Option String
  variationName : Option String
  quantity : Binary64
  unitPrice : Binary64
  lineTotal : Binary64
  taxRate : Binary64
  note : Option String
  /-- The number of the line's ticket among those of its order. -/
  kot : Option ℕ
  stationId : Option String
  comboId : Option String
  /-- The combo of the order that the line belongs to. -/
  comboGroupId : Option (ℕ × ℕ)
  isComboComponent : Bool
  prepStatus : PrepStatus
  preppedAt : Option Time
  addons : List OrderItemAddon
  deriving DecidableEq

def OrderItem.id (i : OrderItem) : ℕ × ℕ := (i.orderId, i.lineNo)

inductive KotStatus
  | pending
  | ready
  | served
  deriving DecidableEq

/-- A kitchen ticket. Its id is its order's with its number among the tickets of the order. -/
structure Kot where
  orderId : ℕ
  no : ℕ
  tenantId : String
  outletId : String
  kotNumber : ℕ
  status : KotStatus
  createdAt : Time
  deriving DecidableEq

def Kot.id (k : Kot) : ℕ × ℕ := (k.orderId, k.no)

structure OrderPayment where
  orderId : ℕ
  mode : PaymentMode
  amount : Binary64
  createdAt : Time
  deriving DecidableEq

structure CashSession where
  id : String
  tenantId : String
  outletId : String
  isOpen : Bool
  deriving DecidableEq

structure CashMovement where
  sessionId : String
  amount : Binary64
  orderId : ℕ
  note : Option String
  deriving DecidableEq

structure EdgeInvoiceSeq where
  tenantId : String
  outletId : String
  edgeDeviceId : String
  seriesCode : String
  fiscalYear : String
  seq : ℕ
  billNumber : String
  orderId : ℕ
  deriving DecidableEq

structure EdgeSyncConflict where
  tenantId : String
  outletId : String
  edgeDeviceId : String
  clientId : String
  orderId : Option ℕ
  billNumber : Option String
  kind : EdgeConflictKind
  message : String
  deriving DecidableEq

/-! ### Stock -/

structure RawMaterial where
  id : String
  tenantId : String
  outletId : String
  stockQty : ℚ
  deriving DecidableEq

/-- The stock that a kitchen ticket consumed of one material. -/
structure StockMovement where
  tenantId : String
  outletId : String
  rawMaterialId : String
  quantity : ℚ
  refId : ℕ × ℕ
  deriving DecidableEq

/-! ### The catalog and the outlet -/

/-- The material a recipe takes for one unit. -/
structure RecipeIngredient where
  rawMaterialId : String
  quantity : Binary64
  deriving DecidableEq

/-- An item with its variations, the add-ons of all its groups, its station and its recipe. -/
structure Item where
  id : String
  tenantId : String
  outletId : String
  name : String
  price : Binary64
  taxRate : Binary64
  variations : List EdgePriced
  addons : List EdgePriced
  stationId : Option String
  recipe : List RecipeIngredient
  deriving DecidableEq

structure ComboSlotOption where
  itemId : String
  priceDelta : Binary64
  isDefault : Bool
  deriving DecidableEq

structure ComboSlot where
  id : String
  options : List ComboSlotOption
  deriving DecidableEq

/-- A combo with its slots in their order. -/
structure Combo where
  id : String
  tenantId : String
  outletId : String
  name : String
  price : Binary64
  slots : List ComboSlot
  deriving DecidableEq

structure Coupon where
  outletId : String
  tenantId : String
  code : String
  rule : CouponRule
  deriving DecidableEq

def Coupon.key (c : Coupon) : String × String := (c.outletId, c.code)

structure Outlet where
  id : String
  nextBillNumber : ℕ
  nextKotNumber : ℕ
  deriving DecidableEq

structure User where
  id : String
  tenantId : String
  outletIds : List String
  deriving DecidableEq

structure DiningTable where
  id : String
  tenantId : String
  outletId : String
  deriving DecidableEq

/-- An activation of a terminal: each has a series of its own. -/
structure EdgeDevice where
  id : String
  tenantId : String
  outletId : String
  terminalId : String
  seriesCode : String
  deriving DecidableEq

end Cloud

open Cloud in
structure CloudDb where
  orders : KeyedTable Order.saleKey
  orderItems : List OrderItem
  kots : List Kot
  payments : List OrderPayment
  cashSessions : List CashSession
  cashMovements : List CashMovement
  rawMaterials : KeyedTable RawMaterial.id
  stockMovements : List StockMovement
  coupons : KeyedTable Coupon.key
  invoiceSeqs : List EdgeInvoiceSeq
  conflicts : List EdgeSyncConflict
  outlets : KeyedTable Outlet.id
  edgeDevices : List EdgeDevice
  users : List User
  tables : List DiningTable
  items : List Item
  combos : List Combo
  deriving DecidableEq

namespace CloudDb

/-- The stored order of a terminal under a client id, as a device of its outlet sees it. -/
def findOrder (db : CloudDb) (device : EdgeDeviceContext) (clientId : String) :
    Option Cloud.Order :=
  (db.orders.find? (device.terminalId, clientId)).filter fun o =>
    o.tenantId = device.tenantId ∧ o.outletId = device.outletId

/-- An item of the catalog of a device's outlet. -/
def findItem (db : CloudDb) (device : EdgeDeviceContext) (id : String) : Option Cloud.Item :=
  db.items.find? fun i => i.id = id ∧ i.tenantId = device.tenantId ∧ i.outletId = device.outletId

/-- A combo of the catalog of a device's outlet. -/
def findCombo (db : CloudDb) (device : EdgeDeviceContext) (id : String) : Option Cloud.Combo :=
  db.combos.find? fun c => c.id = id ∧ c.tenantId = device.tenantId ∧ c.outletId = device.outletId

/-- An id that no order has, nor any row of one. -/
def freshId (db : CloudDb) : ℕ :=
  (db.orders.rows.map (·.id) ++ db.orderItems.map (·.orderId) ++ db.kots.map (·.orderId)).foldr
    max 0 + 1

end CloudDb

end StelloKitchens
