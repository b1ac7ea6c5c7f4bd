import StelloKitchens.Payments.Store

/-!
# The cash drawer

An outlet opens a drawer with a float, cash goes in and out of it, and it is closed with the cash
that was counted. What the drawer should hold, and by how much the count is off, is worked out
from the movements whenever a session is shown.

Sales, cash refunds, gift cards sold for cash, manual movements and voided expenses go into the
drawer that a statement finds open. Only expenses and salary advances that are paid from the
drawer lock it first.

## Main definitions

* `CashSession.toDto` — the figures of a drawer.
* `openDrawer`, `closeDrawer`, `addMovement`, `report` — the drawer's own requests.
* `recordCash` — a movement into the open drawer, as other transactions make it.
* `lockOpenDrawer`, `createExpense`, `voidExpense`, `giveAdvance` — money paid from the drawer.
-/

namespace StelloKitchens.Payments

open Checked Tx Process Method

/-! ### Figures -/

/-- What is shown of a drawer, in rupees. -/
structure CashSessionDto where
  id : ℕ
  status : DrawerStatus
  openingFloat : Binary64
  openedAt : Time
  closedAt : Option Time
  countedCash : Option Binary64
  cashSales : Binary64
  payIns : Binary64
  payOuts : Binary64
  expenses : Binary64
  refunds : Binary64
  expectedCash : Binary64
  variance : Option Binary64
  deriving DecidableEq

/-- Rupees to two decimals. -/
def round2 (n : Binary64) : Binary64 := (n * 100).nearestInt / 100

/-- The movements of one type, each taken as it adds to the drawer or as it takes from it. -/
def sumOf (type : MovementType) (sign : Binary64 → Binary64) (movements : List CashMovement) :
    Binary64 :=
  (movements.filter fun m => m.type = type).foldl (fun s m => s + sign (N m.amount)) 0

/-- The figures of a drawer, from its movements. -/
def CashSession.toDto (s : CashSession) (movements : List CashMovement) : CashSessionDto :=
  let cashSales := sumOf .sale (·) movements
  let payIns := sumOf .payIn (·) movements
  let payOuts := sumOf .payOut (- ·) movements
  let expenses := sumOf .expense (- ·) movements
  let refunds := sumOf .refund (- ·) movements
  let opening := N s.openingFloat
  let expected := opening + cashSales + payIns - payOuts - expenses - refunds
  let counted := s.countedCash.map fun c => N c
  { id := s.id
    status := s.status
    openingFloat := round2 opening
    openedAt := s.openedAt
    closedAt := s.closedAt
    countedCash := counted.map round2
    cashSales := round2 cashSales
    payIns := round2 payIns
    payOuts := round2 payOuts
    expenses := round2 expenses
    refunds := round2 refunds
    expectedCash := round2 expected
    variance := counted.map fun c => round2 (c - expected) }

/-- The expenses of a drawer by category, the largest first. -/
def expensesByCategory (movements : List CashMovement) : List (String × Binary64) :=
  let expenses := movements.filter fun m => m.type = .expense
  let category (m : CashMovement) := m.category.getD "General"
  let sums := (expenses.map category).dedup.map fun c =>
    (c, round2 ((expenses.filter fun m => category m = c).foldl
      (fun s m => s + max (N m.amount) (-N m.amount)) 0))
  sums.insertionSort fun a b => b.2 ≤ a.2

structure CashSessionReportDto where
  session : CashSessionDto
  movements : List CashMovement
  expensesByCategory : List (String × Binary64)

/-- The report of a drawer, its movements newest first. -/
def report (user : AuthUser) (outletId : String) (sessionId : ℕ) :
    PaymentMethod CashSessionReportDto := do
  assertOutlet user outletId
  let found ← look fun db => (db.cashSessions.find? sessionId).map fun s =>
    (s, (db.movementsOf sessionId).reverse)
  let (session, movements) ← getOr (found.filter fun p =>
    p.1.outletId = outletId ∧ p.1.tenantId = user.tenantId) (.notFound "Session not found")
  return ⟨session.toDto movements, movements, expensesByCategory movements⟩

/-! ### Opening and closing -/

def openDrawer (user : AuthUser) (now : Time) (outletId : String) (openingFloat : Binary64) :
    PaymentMethod ℕ := do
  assertOutlet user outletId
  let opened ← look fun db => db.findOpenDrawer outletId
  guardOr (opened = none) (.badRequest "A cash drawer is already open for this outlet")
  atomically (fun _ => .drawerOpened outletId) do
    let float ← store openingFloat
    let id ← draw
    update fun db => { db with
      cashSessions := db.cashSessions.put
        ⟨id, user.tenantId, outletId, user.id, float, now, none, none, .opened⟩ }
    return id

/-- Close the drawer that is found open, whatever it has become since. -/
def closeDrawer (user : AuthUser) (now : Time) (outletId : String) (countedCash : Binary64) :
    PaymentMethod CashSessionReportDto := do
  assertOutlet user outletId
  let opened ← look fun db => db.findOpenDrawer outletId
  let session ← getOr opened (.badRequest "No open drawer to close")
  atomically (fun _ => .plain) do
    acquire (.session session.id)
    let counted ← store countedCash
    update fun db => { db with
      cashSessions := db.cashSessions.modify (fun s => s.id = session.id)
        (fun s => { s with status := .closed, closedAt := some now, countedCash := some counted })
        fun _ => rfl }
  report user outletId session.id

/-! ### Movements into the drawer that is found open -/

/-- The note of a transaction that may have made a movement. -/
def movementNote : Option ℕ → Note
  | some sessionId => .movement sessionId
  | none => .plain

/-- Insert a movement; its drawer. -/
def createMovement (sessionId : ℕ) (type : MovementType) (amount : Binary64)
    (category note : Option String) (orderId : Option ℕ) : PaymentTx ℕ := do
  let amount ← store amount
  let id ← draw
  update fun db => db.insertMovement ⟨id, sessionId, type, amount, category, note, orderId⟩
  return id

/-- Record cash in the drawer of the outlet, if a statement finds one open. -/
def recordCash (outletId : String) (type : MovementType) (amount : Binary64)
    (category note : Option String) (orderId : Option ℕ) : PaymentTx (Option ℕ) := do
  match ← query fun db : PaymentsDb => db.findOpenDrawer outletId with
  | none => return none
  | some session => do
    let _ ← createMovement session.id type amount category note orderId
    return some session.id

inductive ManualMovement
  | payIn
  | payOut
  | expense
  deriving DecidableEq

def ManualMovement.type : ManualMovement → MovementType
  | payIn => .payIn
  | payOut => .payOut
  | expense => .expense

structure CashMovementInput where
  type : ManualMovement
  amount : Binary64
  positive : 0 < amount
  category : Option String
  note : Option String

/-- A manual movement; an expense also goes into the expense book. -/
def addMovement (user : AuthUser) (outletId : String) (input : CashMovementInput) :
    PaymentMethod Unit := do
  assertOutlet user outletId
  let opened ← look fun db => db.findOpenDrawer outletId
  let session ← getOr opened (.badRequest "Open a cash drawer before recording cash movements")
  let signed := if input.type = .payIn then input.amount else -input.amount
  atomically (fun _ => .movement session.id) do
    let category := if input.type = .expense then some (input.category.getD "General") else none
    let movementId ← createMovement session.id input.type.type signed category input.note none
    whenever (input.type = .expense) do
      let total ← store input.amount
      let id ← draw
      update fun db => { db with
        expenses := db.expenses.put
          ⟨id, user.tenantId, outletId, total, some movementId, false⟩ }

/-! ### Money paid from the drawer -/

/-- Lock the open drawers of an outlet, and take the first that is open still. -/
def lockOpenDrawer (tenantId outletId : String) : PaymentTx (Option CashSession) := do
  let matching (s : CashSession) : Bool :=
    s.tenantId = tenantId ∧ s.outletId = outletId ∧ s.status = .opened
  let ids ← query fun db : PaymentsDb => (db.cashSessions.rows.filter matching).map (·.id)
  acquireAll (ids.map .session)
  query fun db => db.cashSessions.rows.find? fun s => s.id ∈ ids ∧ matching s

inductive ExpensePaidFrom
  | cashDrawer
  | elsewhere
  deriving DecidableEq

structure ExpenseInput where
  category : String
  taxableAmount : Binary64
  cgst : Binary64
  sgst : Binary64
  igst : Binary64
  paidFrom : ExpensePaidFrom
  note : Option String

def createExpense (user : AuthUser) (outletId : String) (input : ExpenseInput) :
    PaymentMethod ℕ := do
  assertOutlet user outletId
  let totalPaise := toPaise input.taxableAmount + toPaise input.cgst + toPaise input.sgst +
    toPaise input.igst
  let total := fromPaise totalPaise
  atomically (fun _ => .plain) do
    let cashMovementId ← (do
      if input.paidFrom = .cashDrawer then
        let drawer ← lockOpenDrawer user.tenantId outletId
        let session ← require drawer
          (.badRequest "Open the cash drawer to pay an expense from it")
        return some (← createMovement session.id .expense (-total) input.category input.note none)
      else return none : PaymentTx (Option ℕ))
    let stored ← store total
    let id ← draw
    update fun db => { db with
      expenses := db.expenses.put ⟨id, user.tenantId, outletId, stored, cashMovementId, false⟩ }
    return id

/-- Void an expense, and put its cash back if the drawer it came from is found open. -/
def voidExpense (user : AuthUser) (outletId : String) (id : ℕ) (reason : String) :
    PaymentMethod Unit := do
  assertOutlet user outletId
  let _ ← atomically movementNote do
    acquire (.expense id)
    let row ← query fun db : PaymentsDb => (db.expenses.find? id).filter fun e =>
      e.tenantId = user.tenantId ∧ e.outletId = outletId
    let expense ← require row (.notFound "Expense not found")
    check (expense.voided = false) (.badRequest "Expense is already void")
    let session ← query fun db : PaymentsDb =>
      ((expense.cashMovementId.bind db.cashMovements.find?).bind fun m =>
        db.cashSessions.find? m.sessionId).filter fun s => s.status = .opened
    session.forM fun s => do
      let _ ← createMovement s.id .payIn (N expense.total) (some "EXPENSE_VOID")
        (some ("Void: " ++ reason)) none
    update fun db => { db with
      expenses := db.expenses.modify (fun e => e.id = id) (fun e => { e with voided := true })
        fun _ => rfl }
    return session.map (·.id)

structure SalaryAdvanceInput where
  staffName : String
  amount : Binary64
  monthlyRecovery : Binary64
  paidFrom : ExpensePaidFrom

/-- A salary advance, of which only the cash is kept here. -/
def giveAdvance (user : AuthUser) (outletId : String) (input : SalaryAdvanceInput) :
    PaymentMethod Unit := do
  assertOutlet user outletId
  guardOr (input.monthlyRecovery ≤ input.amount)
    (.badRequest "Monthly recovery cannot exceed the advance")
  atomically (fun _ => .plain) <| whenever (input.paidFrom = .cashDrawer) do
    let drawer ← lockOpenDrawer user.tenantId outletId
    let session ← require drawer (.badRequest "Open the cash drawer to pay an advance from it")
    let _ ← createMovement session.id .payOut (-input.amount) (some "SALARY_ADVANCE")
      (some ("Advance: " ++ input.staffName)) none

end StelloKitchens.Payments
