import StelloKitchens.Shared.BillNumber
import StelloKitchens.Shared.Money

/-!
# The outbox ingest protocol

What a device pushes and what the cloud answers: the outbox operations, the schema the cloud
validates a whole batch with, and the result of each operation.

A timestamp travels as text; `Stamp` is that text as `Date.parse` reads it.

## Main definitions

* `EdgeOrderInput`, `EdgeOutboxOp`, `EdgePushInput` — the pushed batch.
* `EdgeOrderSchema`, `EdgeOutboxOpSchema`, `EdgePushSchema` — what the cloud admits.
* `EdgeOpResult` — the answer to one operation.

## Main results

* `isMultipleOfCent_fromPaise` — an amount converted from paise passes the two-decimals check.
-/

namespace StelloKitchens

/-! ### Enumerations -/

inductive OrderType
  | dineIn
  | takeaway
  | delivery
  deriving DecidableEq

/-- The order type an operator's text names. -/
def OrderType.parse : String → Option OrderType
  | "DINE_IN" => some .dineIn
  | "TAKEAWAY" => some .takeaway
  | "DELIVERY" => some .delivery
  | _ => none

inductive PaymentMode
  | cash
  | card
  | upi
  | wallet
  | other
  deriving DecidableEq

/-- The payment mode an operator's text names. -/
def PaymentMode.parse : String → Option PaymentMode
  | "CASH" => some .cash
  | "CARD" => some .card
  | "UPI" => some .upi
  | "WALLET" => some .wallet
  | "OTHER" => some .other
  | _ => none

inductive PrepStatus
  | pending
  | preparing
  | ready
  deriving DecidableEq

/-- The kitchen status a screen's text names. -/
def PrepStatus.parse : String → Option PrepStatus
  | "PENDING" => some .pending
  | "PREPARING" => some .preparing
  | "READY" => some .ready
  | _ => none

inductive OrderStatus
  | opened
  | settled
  | cancelled
  deriving DecidableEq

inductive LineKind
  | item
  | combo
  deriving DecidableEq

/-! ### Timestamps -/

/-- A timestamp text, as `Date.parse` reads it. -/
inductive Stamp
  | iso (t : Time)
  | unparsable (text : String)
  deriving DecidableEq

/-- `Date.parse`. -/
def Stamp.parse : Stamp → Option Time
  | .iso t => some t
  | .unparsable _ => none

/-! ### Orders on the wire -/

structure ComboSelection where
  slotId : String
  itemId : String
  deriving DecidableEq

structure EdgeOrderLineInput where
  itemId : String
  variationId : Option String
  addonIds : List String
  quantity : Binary64
  note : Option String
  /-- The unit price the device billed, addons included. -/
  unitPrice : Binary64
  taxRate : Binary64
  prepStatus : PrepStatus
  preppedAt : Option Stamp
  deriving DecidableEq

structure EdgeComboLineInput where
  comboId : String
  quantity : Binary64
  note : Option String
  selections : List ComboSelection
  unitPrice : Binary64
  taxRate : Binary64
  prepStatus : PrepStatus
  preppedAt : Option Stamp
  deriving DecidableEq

structure EdgeBillNo where
  series : String
  fy : String
  seq : ℕ
  number : String
  deriving DecidableEq

structure EdgePayment where
  mode : PaymentMode
  amount : Binary64
  reference : Option String
  deriving DecidableEq

structure EdgeOrderInput where
  clientId : String
  orderType : OrderType
  tableId : Option String
  customerName : Option String
  customerPhone : Option String
  deliveryAddress : Option String
  items : List EdgeOrderLineInput
  combos : List EdgeComboLineInput
  status : OrderStatus
  payments : List EdgePayment
  manualDiscount : Binary64
  couponCode : Option String
  couponDiscount : Binary64
  /-- Totals as printed on the device's invoice. -/
  subtotal : Binary64
  taxAmount : Binary64
  total : Binary64
  billNo : Option EdgeBillNo
  createdAt : Stamp
  closedAt : Stamp
  createdByStaffId : Option String
  closedByStaffId : Option String
  cancelReason : Option String
  deriving DecidableEq

/-- The status of one line in a kitchen update, addressed by its index among its kind. -/
structure KotStatusLine where
  lineIndex : ℕ
  kind : LineKind
  prepStatus : PrepStatus
  preppedAt : Option Stamp
  deriving DecidableEq

inductive EdgeOutboxOp
  | order (key : String) (order : EdgeOrderInput)
  | kotStatus (key clientId : String) (lines : List KotStatusLine)
  deriving DecidableEq

structure EdgePushInput where
  deviceTime : Stamp
  ops : List EdgeOutboxOp
  deriving DecidableEq

/-! ### The schema -/

/-- `multipleOf(0.01)`: the number nearest to a whole number of hundredths. Amounts printed with
an exponent, from 1e21 on or below 1e-6, are outside. -/
def IsMultipleOfCent (v : Binary64) : Prop := ∃ n : ℤ, v = Binary64.ofRat (n / 100)

/-- A number of rupees and paise that is not negative. -/
def MoneySchema (v : Binary64) : Prop := 0 ≤ v ∧ IsMultipleOfCent v

/-- `z.string().max(n)` on a field that may be absent. -/
def MaxLength (n : ℕ) (s : Option String) : Prop := ∀ t ∈ s, utf16Length t ≤ n

/-- `z.string().min(m).max(n)`. -/
def LengthBetween (m n : ℕ) (s : String) : Prop := m ≤ utf16Length s ∧ utf16Length s ≤ n

/-- `z.number().int().positive()`. -/
def PositiveInt (v : Binary64) : Prop := v.IsInteger ∧ 0 < v

/-- The bounds on the tax rate of a line. -/
def TaxRateSchema (v : Binary64) : Prop := 0 ≤ v ∧ v ≤ 28

structure EdgeOrderLineSchema (l : EdgeOrderLineInput) : Prop where
  itemId : 1 ≤ utf16Length l.itemId
  quantity : PositiveInt l.quantity
  note : MaxLength 200 l.note
  unitPrice : MoneySchema l.unitPrice
  taxRate : TaxRateSchema l.taxRate

structure EdgeComboLineSchema (l : EdgeComboLineInput) : Prop where
  comboId : 1 ≤ utf16Length l.comboId
  quantity : PositiveInt l.quantity
  note : MaxLength 200 l.note
  selections : ∀ s ∈ l.selections, 1 ≤ utf16Length s.slotId ∧ 1 ≤ utf16Length s.itemId
  unitPrice : MoneySchema l.unitPrice
  taxRate : TaxRateSchema l.taxRate

structure EdgeBillNoSchema (b : EdgeBillNo) : Prop where
  series : isEdgeSeries b.series
  fy : isFiscalYear b.fy
  seq : 0 < b.seq
  number : utf16Length b.number ≤ 16

structure EdgePaymentSchema (p : EdgePayment) : Prop where
  amount : 0 < p.amount ∧ IsMultipleOfCent p.amount
  reference : MaxLength 60 p.reference

structure EdgeOrderSchema (o : EdgeOrderInput) : Prop where
  clientId : LengthBetween 1 64 o.clientId
  customerName : MaxLength 80 o.customerName
  customerPhone : MaxLength 20 o.customerPhone
  deliveryAddress : MaxLength 300 o.deliveryAddress
  items : ∀ l ∈ o.items, EdgeOrderLineSchema l
  combos : ∀ l ∈ o.combos, EdgeComboLineSchema l
  status : o.status ≠ .opened
  payments : ∀ p ∈ o.payments, EdgePaymentSchema p
  manualDiscount : MoneySchema o.manualDiscount
  couponCode : MaxLength 40 o.couponCode
  couponDiscount : MoneySchema o.couponDiscount
  subtotal : MoneySchema o.subtotal
  taxAmount : MoneySchema o.taxAmount
  total : MoneySchema o.total
  billNo : ∀ b ∈ o.billNo, EdgeBillNoSchema b
  cancelReason : MaxLength 200 o.cancelReason
  lines : 0 < o.items.length + o.combos.length

/-- What the schema asks of one operation. -/
def EdgeOutboxOpSchema : EdgeOutboxOp → Prop
  | .order key order => LengthBetween 1 100 key ∧ EdgeOrderSchema order
  | .kotStatus key clientId lines =>
    LengthBetween 1 100 key ∧ LengthBetween 1 64 clientId ∧ lines ≠ []

/-- The schema validates the batch as a whole: one bad operation refuses all of it. -/
def EdgePushSchema (input : EdgePushInput) : Prop :=
  (∀ op ∈ input.ops, EdgeOutboxOpSchema op) ∧ input.ops.length ≤ 100

/-! ### Answers -/

inductive EdgeConflictKind
  | couponLimitExceeded
  | couponInvalid
  | couponDiscountMismatch
  | priceDrift
  | billNumberDuplicate
  | billSeriesMismatch
  | staffUnknown
  | tableUnknown
  | clockSkew
  | rejected
  deriving DecidableEq

inductive EdgeOpStatus
  | applied
  | duplicate
  | conflict
  | rejected
  | retry
  deriving DecidableEq

structure EdgeConflict where
  kind : EdgeConflictKind
  message : String
  deriving DecidableEq

structure EdgeOpResult where
  key : String
  status : EdgeOpStatus
  serverId : Option String
  billNumber : Option String
  conflicts : List EdgeConflict
  message : Option String
  deriving DecidableEq

/-! ### Amounts converted from paise -/

theorem isMultipleOfCent_fromPaise (p : Binary64) : IsMultipleOfCent (fromPaise p) := by
  obtain ⟨n, hn⟩ := Binary64.nearestInt_isInt p
  refine ⟨n, Binary64.ext ?_⟩
  rw [fromPaise, Binary64.val_div, hn, val_hundred, Binary64.val_ofRat]

theorem isMultipleOfCent_zero : IsMultipleOfCent 0 := fromPaise_zero ▸ isMultipleOfCent_fromPaise 0

end StelloKitchens
