import StelloKitchens.Billing.Orders
import StelloKitchens.Lib.KeyedTable

/-!
# The printed bill

What is printed of a bill: its lines and figures as they are stored, and the tax divided over the
rates of the lines. The tax of a rate is its share of the taxable value; what the roundings of the
shares leave of the stored tax goes to the largest of them.

## Main definitions

* `billTaxLines` — the tax lines of a bill.
* `OrderForPrint`, `BillDto`, `billFor` — an order with its rows, and what is printed of it.
-/

namespace StelloKitchens.Printing

open Billing (OrderItem OrderPayment SettleMode)

/-! ### Tax lines -/

inductive TaxLabel
  | cgst
  | sgst
  | igst
  deriving DecidableEq

structure BillTaxLineDto where
  label : TaxLabel
  ratePercent : Binary64
  amount : Binary64
  deriving DecidableEq

structure TaxedLine where
  lineTotal : Binary64
  taxRatePercent : Binary64
  deriving DecidableEq

/-- What `billTaxLines` divides. -/
structure TaxLineParams where
  lines : List TaxedLine
  subtotal : Binary64
  discountAmount : Binary64
  taxAmount : Binary64
  interState : Bool

/-- The tax before the discount, rate by rate. -/
abbrev RateGroups := KeyedTable (Prod.fst : Binary64 × Binary64 → Binary64)

/-- The tax of a rate so far. -/
def RateGroups.raw (groups : RateGroups) (rate : Binary64) : Binary64 :=
  ((groups.find? rate).map (·.2)).getD 0

def addToGroup (groups : RateGroups) (l : TaxedLine) : RateGroups :=
  if l.taxRatePercent = 0 then groups
  else groups.put (l.taxRatePercent,
    groups.raw l.taxRatePercent + toPaise l.lineTotal * l.taxRatePercent / 100)

def rateGroups (lines : List TaxedLine) : RateGroups := lines.foldl addToGroup .empty

namespace TaxLineParams

variable (params : TaxLineParams)

def subtotalPaise : Binary64 := toPaise params.subtotal

def taxablePaise : Binary64 := params.subtotalPaise - toPaise params.discountAmount

def taxPaise : Binary64 := toPaise params.taxAmount

/-- The rates of the lines, in order. -/
def rates : List Binary64 := ((rateGroups params.lines).rows.map (·.1)).insertionSort (· ≤ ·)

/-- A rate's own share of the tax. -/
def share (rate : Binary64) : Binary64 :=
  ((rateGroups params.lines).raw rate * params.taxablePaise / params.subtotalPaise).nearestInt

/-- The first rate that has the largest share. -/
def biggest : Binary64 :=
  params.rates.foldl (fun best r => if params.share best < params.share r then r else best)
    (params.rates.headD 0)

/-- What the shares leave of the tax. -/
def residue : Binary64 := params.taxPaise - (params.rates.map params.share).foldl (· + ·) 0

/-- What is printed of a rate, before it is halved. -/
def printed (rate : Binary64) : Binary64 :=
  if rate = params.biggest then params.share rate + params.residue else params.share rate

end TaxLineParams

/-- The lines of a rate. -/
def rateLines (interState : Bool) (rate paise : Binary64) : List BillTaxLineDto :=
  if paise ≤ 0 then []
  else if interState then [⟨.igst, rate, fromPaise paise⟩]
  else
    let half := (paise / 2).floor
    [⟨.cgst, rate / 2, fromPaise half⟩, ⟨.sgst, rate / 2, fromPaise (paise - half)⟩]

/-- The tax of a bill as it is printed. -/
def billTaxLines (params : TaxLineParams) : List BillTaxLineDto :=
  if params.rates = [] ∨ params.taxPaise ≤ 0 ∨ params.subtotalPaise ≤ 0 then []
  else params.rates.flatMap fun rate => rateLines params.interState rate (params.printed rate)

/-! ### The document -/

/-- An order with the rows that are printed with it. -/
structure OrderForPrint extends Billing.Order where
  items : List OrderItem
  payments : List OrderPayment
  tableName : Option String

/-- What is printed of the outlet. -/
structure OutletForPrint where
  name : String
  address : Option String
  gstin : Option String
  placeOfSupply : Option String

structure BillItemDto where
  name : String
  variationName : Option String
  addons : List String
  quantity : ℤ
  unitPrice : Binary64
  lineTotal : Binary64
  isComboComponent : Bool
  deriving DecidableEq

structure BillDto where
  outletName : String
  address : Option String
  gstin : Option String
  billNumber : Option String
  provisional : Bool
  orderType : OrderType
  tableName : Option String
  customerName : Option String
  customerPhone : Option String
  items : List BillItemDto
  subtotal : Binary64
  discounts : List (String × Binary64)
  serviceCharge : Option Binary64
  taxableValue : Binary64
  taxLines : List BillTaxLineDto
  taxTotal : Binary64
  roundOff : Option Binary64
  total : Binary64
  payments : List (SettleMode × Binary64)
  reprint : Bool
  deriving DecidableEq

/-- The state of a GST number. -/
def stateOf (gstin : Option String) : Option String :=
  gstin.bind fun g => if 2 ≤ g.length then some (String.ofList (g.toList.take 2)) else none

/-- The buyer and the seller are in different states. -/
def interState (outlet : OutletForPrint) (buyerGstin : Option String) : Bool :=
  match stateOf buyerGstin, outlet.placeOfSupply.or (stateOf outlet.gstin) with
  | some buyer, some seller => seller ≠ "" ∧ buyer ≠ seller
  | _, _ => false

/-- The lines in the order they were punched, each combo followed by its components. -/
def billItems (items : List OrderItem) : List BillItemDto :=
  (items.filter fun i => !i.isComboComponent).flatMap fun i =>
    ⟨i.details.itemName, i.details.variationName, i.details.addons.map (·.name), i.quantity.value,
      i.unitPrice.toNumber, i.lineTotal.toNumber, false⟩ ::
    match i.comboGroupId with
    | none => []
    | some group =>
      (items.filter fun x => x.isComboComponent ∧ x.comboGroupId = some group).map fun c =>
        ⟨c.details.itemName, c.details.variationName, [], c.quantity.value, 0, 0, true⟩

/-- What `billTaxLines` gets of an order. -/
def OrderForPrint.taxParams (order : OrderForPrint) (interState : Bool) : TaxLineParams where
  lines := order.items.map fun i => ⟨i.lineTotal.toNumber, i.taxRate.toNumber⟩
  subtotal := order.figures.subtotal.toNumber
  discountAmount := order.figures.discountAmount.toNumber
  taxAmount := order.figures.taxAmount.toNumber
  interState := interState

/-- The printed bill of an order. -/
def billFor (order : OrderForPrint) (outlet : OutletForPrint) (buyerGstin : Option String)
    (reprint : Bool) : BillDto :=
  let provisional : Bool := order.status ≠ .settled
  let subtotal := order.figures.subtotal.toNumber
  let discount := order.figures.discountAmount.toNumber
  let serviceCharge : Binary64 :=
    if order.serviceChargeWaived then 0 else order.figures.serviceChargeAmount.toNumber
  let roundOff := order.figures.roundOff.toNumber
  { outletName := outlet.name
    address := outlet.address
    gstin := outlet.gstin
    billNumber := if provisional then none else order.billNumber
    provisional
    orderType := order.orderType
    tableName := order.tableName
    customerName := order.customerName
    customerPhone := order.customerPhone
    items := billItems order.items
    subtotal
    discounts :=
      if 0 < discount then
        [((truthy order.couponCode).elim "Discount" fun code => "Discount (" ++ code ++ ")", discount)]
      else []
    serviceCharge := if 0 < serviceCharge then some serviceCharge else none
    taxableValue := fromPaise (toPaise subtotal - toPaise discount +
      if order.figures.serviceChargeTaxable then toPaise serviceCharge else 0)
    taxLines := billTaxLines (order.taxParams (interState outlet buyerGstin))
    taxTotal := order.figures.taxAmount.toNumber
    roundOff := if roundOff ≠ 0 then some roundOff else none
    total := order.figures.total.toNumber
    payments := order.payments.map fun p => (p.mode, p.amount.toNumber)
    reprint }

end StelloKitchens.Printing
