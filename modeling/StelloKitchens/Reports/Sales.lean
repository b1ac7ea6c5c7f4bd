import StelloKitchens.Billing.Store
import StelloKitchens.Lib.Grouping

/-!
# Sales quantities in the reports

Four reports count what was sold: the sales report, the demand history that purchases are planned
from, the menu engineering report and the sales of the staff. Each goes over the lines of orders,
with conditions and a rule for the quantity of its own.

## Main definitions

* `lineQty`, `itemSales` — the sales report.
* `itemHistories` — the demand history.
* `menuSales` — the menu engineering report.
* `salesPerformance` — the sales of the staff.
-/

namespace StelloKitchens.Reports

open Billing (BillStatus RowId)

/-- What the reports read of an order's line. -/
structure SalesLine where
  itemId : String
  itemName : String
  quantity : ℕ
  lineTotal : Amount
  comboId : Option String
  isComboComponent : Bool
  splitParts : Option ℕ
  deriving DecidableEq

/-- What the reports read of an order; `day` is the local day it was made on. -/
structure SalesOrder where
  id : RowId
  status : BillStatus
  day : String
  createdById : Option String
  subtotal : Amount
  discountAmount : Amount
  items : List SalesLine
  deriving DecidableEq

/-- The lines of the orders that were settled. -/
def settledLines (orders : List SalesOrder) : List SalesLine :=
  (orders.filter fun o => o.status = .settled).flatMap (·.items)

/-! ### The sales report -/

/-- Item quantity a line contributes: an equal-split check line is a 1/N share. -/
def lineQty (i : SalesLine) : ℚ := i.quantity / ((i.splitParts.filter (· ≠ 0)).getD 1 : ℕ)

/-- Quantity and revenue of each item name. -/
def itemSales (orders : List SalesOrder) : Grouping.Groups String (ℚ × Binary64) :=
  Grouping.group (·.itemName) (0, 0)
    (fun row it => (row.1 + lineQty it, row.2 + it.lineTotal.toNumber)) (settledLines orders)

/-! ### Demand history -/

structure ItemHistory where
  itemId : String
  history : List ℕ
  deriving DecidableEq

/-- The parent of a combo; its components count instead. -/
def SalesLine.isComboParent (i : SalesLine) : Bool := (truthy i.comboId).isSome && !i.isComboComponent

/-- The lines of an order that count towards demand, with the position of its day. -/
def SalesOrder.demandLines (keys : List String) (o : SalesOrder) : List (ℕ × SalesLine) :=
  match keys.idxOf? o.day with
  | none => []
  | some i => (o.items.filter fun line => !line.isComboParent).map fun line => (i, line)

/-- What counts towards demand: the lines of orders that are not cancelled, each with its day. -/
def demandLines (orders : List SalesOrder) (keys : List String) : List (ℕ × SalesLine) :=
  (orders.filter fun o => o.status ≠ .cancelled).flatMap (·.demandLines keys)

/-- Daily units sold per menu item. Combo parents are skipped; their components count. -/
def itemHistories (orders : List SalesOrder) (items keys : List String) : List ItemHistory :=
  let byItem := Grouping.group (fun line : ℕ × SalesLine => line.2.itemId)
    (List.replicate keys.length 0) (fun h line => h.modify line.1 (· + line.2.quantity))
    (demandLines orders keys)
  items.filterMap fun it => (Grouping.value byItem it).map fun history => ⟨it, history⟩

/-! ### Menu engineering -/

/-- Quantity and revenue of each menu item; the parts of combos have no price of their own. -/
def menuSales (orders : List SalesOrder) (items : List String) :
    Grouping.Groups String (ℕ × Binary64) :=
  Grouping.group (·.itemId) (0, 0)
    (fun s l => (s.1 + l.quantity, s.2 + l.lineTotal.toNumber))
    ((settledLines orders).filter fun l => l.itemId ∈ items ∧ !l.isComboComponent)

/-- The quantity of an item that the report classifies it by. -/
def menuQty (sales : Grouping.Groups String (ℕ × Binary64)) (itemId : String) : ℕ :=
  ((Grouping.value sales itemId).map (·.1)).getD 0

/-! ### Sales of the staff -/

/-- What a user took: items, orders, and their value in paise. -/
abbrev Taken := ℕ × (ℕ × Binary64)

/-- The items of an order, without the parts of combos. -/
def SalesOrder.itemCount (o : SalesOrder) : ℕ :=
  ((o.items.filter fun i => !i.isComboComponent).map (·.quantity)).sum

/-- What each user took of the orders that were settled. -/
def salesPerformance (orders : List SalesOrder) : Grouping.Groups String Taken :=
  Grouping.group (fun o : SalesOrder => (truthy o.createdById).getD "") (0, (0, 0))
    (fun a o => (a.1 + o.itemCount,
      (a.2.1 + 1, a.2.2 + (toPaise o.subtotal.toNumber - toPaise o.discountAmount.toNumber))))
    (orders.filter fun o => o.status = .settled ∧ (truthy o.createdById).isSome)

/-- The items that a user took. -/
def itemsTaken (acc : Grouping.Groups String Taken) (userId : String) : ℕ :=
  ((Grouping.value acc userId).map (·.1)).getD 0

end StelloKitchens.Reports
