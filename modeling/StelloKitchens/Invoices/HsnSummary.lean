import StelloKitchens.Billing.Store
import StelloKitchens.Lib.Checked
import StelloKitchens.Lib.Grouping

/-!
# Tax invoices

The invoice of a settled order: its taxable value, the tax split by the states of the seller and the
buyer, and a summary of the lines by HSN code and rate. Each row of the summary takes its share of
the taxable value, is taxed at its rate, and splits its tax by itself. Generating an IRN records the
buyer, and casts the split and the rows for it.

## Main definitions

* `taxableOf`, `splitTax` — the figures of an invoice.
* `buildHsnSummary` — the rows by code and rate.
* `detail`, `generateIrn` — an invoice, and what is recorded with an IRN.
* `InvoiceFigures.Reconciles` — the rows add up to the invoice.
-/

namespace StelloKitchens.Invoices

open Checked

/-! ### Figures -/

/-- Round to two decimals. -/
def r2 (n : Binary64) : Binary64 := (n * 100).nearestInt / 100

/-- Taxable value of a bill: food after discount, plus a taxable service charge. -/
def taxableOf (o : Billing.OrderFigures) : Binary64 :=
  r2 (o.subtotal.toNumber - o.discountAmount.toNumber +
    if o.serviceChargeTaxable then o.serviceChargeAmount.toNumber else 0)

/-- The state of a GST number. -/
def stateOf (gstin : Option String) : Option String :=
  gstin.bind fun g => if 2 ≤ g.length then some (String.ofList (g.toList.take 2)) else none

structure TaxSplit where
  cgst : Binary64
  sgst : Binary64
  igst : Binary64
  interState : Bool
  deriving DecidableEq

/-- The buyer is in another state than the seller. -/
def isInterState (sellerState buyerGstin : Option String) : Bool :=
  match stateOf buyerGstin, truthy sellerState with
  | some buyer, some seller => buyer ≠ seller
  | _, _ => false

/-- Split a tax amount into two halves, or none where the buyer is in another state. -/
def splitTax (taxAmount : Binary64) (sellerState buyerGstin : Option String) : TaxSplit :=
  let interState := isInterState sellerState buyerGstin
  if interState then ⟨0, 0, r2 taxAmount, interState⟩
  else
    let taxPaise := toPaise taxAmount
    let cgstPaise := (taxPaise / 2).floor
    ⟨fromPaise cgstPaise, fromPaise (taxPaise - cgstPaise), 0, interState⟩

/-! ### The summary by HSN code -/

structure MenuItem where
  id : String
  hsnCode : Option String
  deriving DecidableEq

/-- The code of an item, or the one for restaurant service. -/
def hsnByItem (menu : List MenuItem) (itemId : String) : String :=
  ((menu.find? fun i => i.id = itemId).bind (·.hsnCode)).getD "996331"

structure HsnSummaryRow where
  hsn : String
  rate : Binary64
  taxable : Binary64
  cgst : Binary64
  sgst : Binary64
  igst : Binary64
  deriving DecidableEq

/-- The lines' paise by code and rate. -/
def hsnGroups (menu : List MenuItem) (items : List Billing.OrderItem) :
    Grouping.Groups (String × Binary64) Binary64 :=
  Grouping.group (fun i => (hsnByItem menu i.itemId, i.taxRate.toNumber)) 0
    (fun s i => s + toPaise i.lineTotal.toNumber) items

/-- A group's share of the taxable value. -/
def groupTaxablePaise (subtotalPaise taxablePaise groupPaise : Binary64) : Binary64 :=
  if 0 < subtotalPaise then (groupPaise * taxablePaise / subtotalPaise).nearestInt else 0

def groupTaxPaise (taxablePaise rate : Binary64) : Binary64 := (taxablePaise * rate / 100).nearestInt

/-- The row of a group: all its tax, or half of it twice. -/
def hsnRow (hsn : String) (rate taxablePaise taxPaise : Binary64) (interState : Bool) :
    HsnSummaryRow :=
  if interState then ⟨hsn, rate, fromPaise taxablePaise, 0, 0, fromPaise taxPaise⟩
  else
    let halfPaise := (taxPaise / 2).nearestInt
    ⟨hsn, rate, fromPaise taxablePaise, fromPaise halfPaise, fromPaise halfPaise, 0⟩

/-- Group order lines by code and rate and allocate the order's taxable value and tax across them. -/
def buildHsnSummary (menu : List MenuItem) (order : Billing.OrderFigures)
    (items : List Billing.OrderItem) (interState : Bool) : List HsnSummaryRow :=
  let subtotalPaise := toPaise order.subtotal.toNumber
  let taxablePaise := toPaise (taxableOf order)
  (hsnGroups menu items).rows.map fun g =>
    let groupTaxable := groupTaxablePaise subtotalPaise taxablePaise g.2
    hsnRow g.1.1 g.1.2 groupTaxable (groupTaxPaise groupTaxable g.1.2) interState

/-! ### Invoices -/

structure InvoiceOutlet where
  gstin : Option String
  placeOfSupply : Option String
  deriving DecidableEq

inductive InvoiceStatus
  | pending
  | generated
  | cancelled
  deriving DecidableEq

/-- The invoice row of an order, if one is stored. -/
structure StoredInvoice where
  buyerGstin : Option String
  irn : Option String
  status : InvoiceStatus
  deriving DecidableEq

/-- The figures of an invoice and its rows. -/
structure InvoiceFigures where
  taxableValue : Binary64
  cgst : Binary64
  sgst : Binary64
  igst : Binary64
  hsnSummary : List HsnSummaryRow
  deriving DecidableEq

structure InvoiceDto extends InvoiceFigures where
  invoiceNumber : String
  sellerGstin : Option String
  buyerGstin : Option String
  placeOfSupply : Option String
  irn : Option String
  status : InvoiceStatus
  deriving DecidableEq

/-- The invoice of a settled order. -/
def detail (outlet : InvoiceOutlet) (menu : List MenuItem) (order : Billing.Order)
    (items : List Billing.OrderItem) (stored : Option StoredInvoice) : Except String InvoiceDto := do
  ensure (order.status = .settled) "Only settled orders have invoices"
  let billNumber ← orThrow (truthy order.billNumber)
    "Settled order is missing its authoritative bill number"
  let buyerGstin := stored.bind (·.buyerGstin)
  let split := splitTax order.figures.taxAmount.toNumber
    (outlet.placeOfSupply.or (stateOf outlet.gstin)) buyerGstin
  return {
    taxableValue := taxableOf order.figures
    cgst := split.cgst
    sgst := split.sgst
    igst := split.igst
    hsnSummary := buildHsnSummary menu order.figures items split.interState
    invoiceNumber := billNumber
    sellerGstin := outlet.gstin
    buyerGstin
    placeOfSupply := outlet.placeOfSupply
    irn := stored.bind (·.irn)
    status := (stored.map (·.status)).getD .pending }

/-- A row cast for the buyer that is recorded. -/
def recastRow (interState : Bool) (row : HsnSummaryRow) : HsnSummaryRow :=
  let rowTax := r2 (row.cgst + row.sgst + row.igst)
  if interState then { row with cgst := 0, sgst := 0, igst := rowTax }
  else { row with cgst := r2 (rowTax / 2), sgst := r2 (rowTax / 2), igst := 0 }

/-- What is recorded of an invoice when its IRN is generated. -/
def generateIrn (detail : InvoiceDto) (buyerGstin : Option String) : Except String InvoiceFigures := do
  let hasIrn := (truthy detail.irn).isSome
  ensure (¬(hasIrn ∧ detail.status ≠ .cancelled)) "An IRN already exists for this invoice"
  ensure (hasIrn = false)
    "This invoice number's IRN was cancelled; the IRP does not allow re-using it"
  let _ ← orThrow (truthy detail.sellerGstin) "Outlet has no GSTIN configured"
  let taxTotal := r2 (detail.cgst + detail.sgst + detail.igst)
  let split := splitTax taxTotal (detail.placeOfSupply.or (stateOf detail.sellerGstin))
    (buyerGstin.or detail.buyerGstin)
  return {
    taxableValue := detail.taxableValue
    cgst := split.cgst
    sgst := split.sgst
    igst := split.igst
    hsnSummary := detail.hsnSummary.map (recastRow split.interState) }

/-- What a figure of the rows comes to, in paise. -/
def sumPaise (f : HsnSummaryRow → Binary64) (rows : List HsnSummaryRow) : ℚ :=
  (rows.map fun row => (toPaise (f row)).val).sum

/-- The rows add up to the invoice, to the paisa. -/
structure InvoiceFigures.Reconciles (inv : InvoiceFigures) : Prop where
  taxable : sumPaise (·.taxable) inv.hsnSummary = (toPaise inv.taxableValue).val
  cgst : sumPaise (·.cgst) inv.hsnSummary = (toPaise inv.cgst).val
  sgst : sumPaise (·.sgst) inv.hsnSummary = (toPaise inv.sgst).val
  igst : sumPaise (·.igst) inv.hsnSummary = (toPaise inv.igst).val

end StelloKitchens.Invoices
