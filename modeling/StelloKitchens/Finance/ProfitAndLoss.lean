import StelloKitchens.Inventory.Stock
import StelloKitchens.SaasBilling.Calendar
import StelloKitchens.Lib.Grouping
import StelloKitchens.Shared.Amount

/-!
# Profit and loss

The figures of an outlet's profit and loss over a range of business days: what was sold, refunded,
consumed, wasted, spent and paid to the staff. Days are counted, and a business day is one of Indian
time. The rows of a range are read in any order.

## Main definitions

* `FinanceDb` — the rows that the figures are drawn from.
* `FinanceDb.Reads` — the rows that are read for a range of days.
* `PnlReads.figures` — the figures.
-/

namespace StelloKitchens.Finance

open SaasBilling (civilOfDay dayOfCivil daysInMonth)

/-! ### Days and months -/

def dayMs : ℤ := 86400000

/-- The instant at which a business day begins. -/
def istAt (day : ℤ) : Time := day * dayMs - istOffsetMs

/-- The instant falls on one of the business days of the range. -/
def istRange (first last : ℤ) (t : Time) : Bool := istAt first ≤ t ∧ t < istAt (last + 1)

structure Month where
  year : ℤ
  /-- Counted from 0. -/
  month : ℕ
  inYear : month < 12
  deriving DecidableEq

namespace Month

variable (m : Month)

/-- The months in their order. -/
def index : ℤ := m.year * 12 + m.month

def days : ℤ := daysInMonth m.year m.month

def first : ℤ := dayOfCivil m.year m.month 0

def last : ℤ := dayOfCivil m.year m.month (m.days - 1)

/-- How many days of the month fall in the range, not positive where none does. -/
def overlap (first last : ℤ) : ℤ := min last m.last - max first m.first + 1

end Month

/-- The month that a day falls in. -/
def monthOf (day : ℤ) : Month :=
  ⟨(civilOfDay day).year, (civilOfDay day).month, (SaasBilling.civilOfDay_spec day).1⟩

/-! ### Rows -/

structure SaleRow where
  createdAt : Time
  settled : Bool
  subtotal : Amount
  discountAmount : Amount
  taxAmount : Amount
  deriving DecidableEq

/-- What a refund reads of the order it belongs to. -/
structure RefundedOrder where
  total : Amount
  taxAmount : Amount
  deriving DecidableEq

structure RefundRow where
  createdAt : Time
  failed : Bool
  amount : Amount
  order : Option RefundedOrder
  deriving DecidableEq

/-- A movement with the average cost of its material. -/
structure MovementRow where
  createdAt : Time
  type : Inventory.MovementType
  quantity : Decimal 12 3
  unitCost : Option (Decimal 12 4)
  costPerUnit : Decimal 12 4
  deriving DecidableEq

structure ExpenseRow where
  day : ℤ
  voided : Bool
  category : String
  taxableAmount : Decimal 12 2
  cgst : Decimal 12 2
  sgst : Decimal 12 2
  igst : Decimal 12 2
  itcEligible : Bool
  deriving DecidableEq

/-- A payroll with the employer's cost of each payslip. -/
structure PayrollRun where
  month : Month
  finalised : Bool
  payslips : List (Decimal 12 2)
  deriving DecidableEq

/-- The rows of one outlet. -/
structure FinanceDb where
  orders : List SaleRow
  refunds : List RefundRow
  movements : List MovementRow
  expenses : List ExpenseRow
  runs : List PayrollRun
  deriving DecidableEq

/-- The rows that the figures of a range are made of. -/
structure PnlReads where
  sales : List SaleRow
  refunds : List RefundRow
  movements : List MovementRow
  expenses : List ExpenseRow
  runs : List PayrollRun
  deriving DecidableEq

/-! ### Reading a range -/

def SaleRow.counts (first last : ℤ) (o : SaleRow) : Bool :=
  o.settled && istRange first last o.createdAt

def RefundRow.counts (first last : ℤ) (r : RefundRow) : Bool :=
  !r.failed && istRange first last r.createdAt

def MovementRow.counts (first last : ℤ) (m : MovementRow) : Bool :=
  decide (m.type = .consumption ∨ m.type = .wastage) && istRange first last m.createdAt

def ExpenseRow.counts (first last : ℤ) (e : ExpenseRow) : Bool :=
  !e.voided && decide (first ≤ e.day ∧ e.day ≤ last)

/-- The month is compared as text, which for months is their order. -/
def PayrollRun.counts (first last : ℤ) (r : PayrollRun) : Bool :=
  r.finalised && decide
    ((monthOf first).index ≤ r.month.index ∧ r.month.index ≤ (monthOf last).index)

/-- The rows read for the days from the first to the last. -/
structure FinanceDb.Reads (db : FinanceDb) (first last : ℤ) (r : PnlReads) : Prop where
  sales : r.sales.Perm (db.orders.filter (·.counts first last))
  refunds : r.refunds.Perm (db.refunds.filter (·.counts first last))
  movements : r.movements.Perm (db.movements.filter (·.counts first last))
  expenses : r.expenses.Perm (db.expenses.filter (·.counts first last))
  runs : r.runs.Perm (db.runs.filter (·.counts first last))

/-- The rows in the order of the tables. -/
def FinanceDb.read (db : FinanceDb) (first last : ℤ) : PnlReads where
  sales := db.orders.filter (·.counts first last)
  refunds := db.refunds.filter (·.counts first last)
  movements := db.movements.filter (·.counts first last)
  expenses := db.expenses.filter (·.counts first last)
  runs := db.runs.filter (·.counts first last)

theorem FinanceDb.reads_read (db : FinanceDb) (first last : ℤ) :
    db.Reads first last (db.read first last) :=
  ⟨List.Perm.refl _, List.Perm.refl _, List.Perm.refl _, List.Perm.refl _, List.Perm.refl _⟩

/-! ### Figures -/

def r2 (n : Binary64) : Binary64 := (n * 100).nearestInt / 100

/-- The double of a sum that the database took over a column of paise. -/
def sumOf (paise : List ℤ) : Binary64 := .ofRat (paise.sum / 10 ^ 2)

/-- A refund without the tax it gives back. -/
def RefundRow.net (r : RefundRow) : Binary64 :=
  match r.order with
  | none => r.amount.toNumber
  | some o =>
    if 0 < o.total.toNumber then
      r.amount.toNumber * (1 - o.taxAmount.toNumber / o.total.toNumber)
    else r.amount.toNumber

def MovementRow.cost (m : MovementRow) : Binary64 :=
  max m.quantity.toNumber (-m.quantity.toNumber) * (m.unitCost.getD m.costPerUnit).toNumber

/-- What an expense costs: claimable tax is no cost. -/
def ExpenseRow.cost (e : ExpenseRow) : Binary64 :=
  if e.itcEligible then e.taxableAmount.toNumber
  else fromPaise (toPaise e.taxableAmount.toNumber + toPaise e.cgst.toNumber +
    toPaise e.sgst.toNumber + toPaise e.igst.toNumber)

def PayrollRun.cost (r : PayrollRun) : Binary64 :=
  r.payslips.foldl (fun sum p => sum + p.toNumber) 0

/-- The cost of the days that a month shares with the range. -/
def PayrollRun.share (r : PayrollRun) (first last : ℤ) : Binary64 :=
  r.cost * .ofRat (r.month.overlap first last) / .ofRat r.month.days

structure CategoryExpense where
  category : String
  amount : Binary64
  deriving DecidableEq

structure PnlFigures where
  grossSales : Binary64
  discounts : Binary64
  refunds : Binary64
  netSales : Binary64
  taxCollected : Binary64
  cogs : Binary64
  wastage : Binary64
  grossProfit : Binary64
  expenses : List CategoryExpense
  totalExpenses : Binary64
  payroll : Binary64
  netProfit : Binary64
  orders : ℕ
  deriving DecidableEq

/-- What a category costs, nothing where it is not listed. -/
def PnlFigures.expense (f : PnlFigures) (category : String) : Binary64 :=
  ((f.expenses.find? fun e => e.category = category).map (·.amount)).getD 0

structure RawFigures where
  grossSales : Binary64
  discounts : Binary64
  refunds : Binary64
  taxCollected : Binary64
  cogs : Binary64
  wastage : Binary64
  expenses : List CategoryExpense
  payroll : Binary64
  orders : ℕ

/-- The paise of each category. -/
def byCat (expenses : List CategoryExpense) : Grouping.Groups String Binary64 :=
  Grouping.group CategoryExpense.category 0 (fun paise e => paise + toPaise e.amount) expenses

def buildPnl (raw : RawFigures) : PnlFigures :=
  let netSales := toPaise raw.grossSales - toPaise raw.discounts - toPaise raw.refunds
  let grossProfit := netSales - toPaise raw.cogs - toPaise raw.wastage
  let byCat := byCat raw.expenses
  let expenses := (byCat.rows.map fun g => ⟨g.1, fromPaise g.2⟩).mergeSort
    fun a b : CategoryExpense => b.amount ≤ a.amount
  let totalExpenses := byCat.rows.foldl (fun s g => s + g.2) 0
  let netProfit := grossProfit - totalExpenses - toPaise raw.payroll
  { grossSales := fromPaise (toPaise raw.grossSales)
    discounts := fromPaise (toPaise raw.discounts)
    refunds := fromPaise (toPaise raw.refunds)
    netSales := fromPaise netSales
    taxCollected := fromPaise (toPaise raw.taxCollected)
    cogs := fromPaise (toPaise raw.cogs)
    wastage := fromPaise (toPaise raw.wastage)
    grossProfit := fromPaise grossProfit
    expenses := expenses
    totalExpenses := fromPaise totalExpenses
    payroll := fromPaise (toPaise raw.payroll)
    netProfit := fromPaise netProfit
    orders := raw.orders }

namespace PnlReads

variable (r : PnlReads)

def refundsNet : Binary64 := r.refunds.foldl (fun sum x => sum + x.net) 0

/-- The costs of what was consumed and of what was wasted. -/
def costs : Binary64 × Binary64 :=
  r.movements.foldl (fun s m =>
    if m.type = .consumption then (s.1 + m.cost, s.2) else (s.1, s.2 + m.cost)) (0, 0)

/-- A month's payroll spread evenly over its days. -/
def payroll (first last : ℤ) : Binary64 :=
  r.runs.foldl (fun sum x =>
    if x.month.overlap first last ≤ 0 then sum else sum + x.share first last) 0

def raw (first last : ℤ) : RawFigures where
  grossSales := sumOf (r.sales.map (·.subtotal.scaled))
  discounts := sumOf (r.sales.map (·.discountAmount.scaled))
  refunds := r2 r.refundsNet
  taxCollected := sumOf (r.sales.map (·.taxAmount.scaled))
  cogs := r2 r.costs.1
  wastage := r2 r.costs.2
  expenses := r.expenses.map fun e => ⟨e.category, e.cost⟩
  payroll := r2 (r.payroll first last)
  orders := r.sales.length

/-- The figures of the range that the rows were read for. -/
def figures (first last : ℤ) : PnlFigures := buildPnl (r.raw first last)

end PnlReads

end StelloKitchens.Finance
