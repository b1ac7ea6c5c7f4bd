import Mathlib.Data.List.Dedup
import StelloKitchens.Billing.Orders

/-!
# Merging, moving and splitting bills

The transactions on running bills: merging bills, moving a bill or some of its lines to another
table, splitting a bill into checks and undoing that, and removing the service charge. Each locks
the tables it needs, then the bills, both in the order of their ids; the checks of a split come
before their parent.

## Main definitions

* `lockOrders`, `lockTables` — locks in the order of the ids.
* `resolveMoves` — what moves with the lines that were asked for.
* `merge`, `transfer`, `split`, `unsplit`, `setServiceCharge`.
-/

namespace StelloKitchens.Billing

open Checked Tx

/-! ### Locks -/

/-- Lock bills in the order of their ids and read them under the locks. -/
def lockOrders (user : AuthUser) (ids : List RowId) : BillingTx (List Order) := do
  let sorted := ids.dedup.insertionSort fun a b => a.le b
  lockEach sorted
  let rows ← query fun db : BillingDb => db.orders.rows.filter fun o => o.id ∈ sorted
  check (∀ o ∈ rows, o.outletId ∈ user.outletIds) (.forbidden "No access to outlet")
  return rows
where
  lockEach : List RowId → BillingTx Unit
    | [] => return ()
    | id :: ids => do
      acquire (.order id)
      let row ← query fun db : BillingDb => db.orders.find? id
      check (row.isSome) (.notFound "Order not found")
      lockEach ids

/-- One of the bills that were locked. -/
def lockedOrder (rows : List Order) (id : RowId) : Except BillingError Order :=
  orThrow (rows.find? fun o => o.id = id) .database

/-- Lock tables of the outlet in the order of their ids. -/
def lockTables (outletId : String) (tableIds : List (Option String)) : BillingTx Unit :=
  lockEach ((tableIds.filterMap truthy).dedup.insertionSort (· ≤ ·))
where
  lockEach : List String → BillingTx Unit
    | [] => return ()
    | id :: ids => do
      lockTable outletId id
      lockEach ids

def assertMergeable (o : Order) (label : String) : Except BillingError Unit := do
  ensure (o.status = .opened) (.badRequest (label ++ " is not open"))
  assertNotSplit o "move it"

/-! ### Service charge -/

/-- Waive the service charge on a bill, or restore it. -/
def setServiceCharge (user : AuthUser) (orderId : RowId) (waive : Bool) : BillingTx Unit := do
  let order ← lockOpenOrder user orderId
  check (order.splitCount = none)
    (.badRequest "This bill is split — change the service charge on each check")
  update fun db =>
    db.updateOrder orderId (fun o => { o with serviceChargeWaived := waive }) fun _ => rfl
  let _ ← recomputeTotals orderId none false
  return ()

/-! ### Merging -/

/-- The figures of a bill that was merged into another. -/
def OrderFigures.emptied (f : OrderFigures) : OrderFigures :=
  { f with
    subtotal := 0
    discountAmount := 0
    taxAmount := 0
    total := 0
    serviceChargeAmount := 0
    roundOff := 0 }

/-- Move the lines and kitchen tickets of bills to another. -/
def BillingDb.reassign (db : BillingDb) (sourceIds : List RowId) (targetId : RowId) : BillingDb :=
  { db with
    items := db.items.modify (fun i => i.orderId ∈ sourceIds)
      (fun i => { i with orderId := targetId }) fun _ => rfl
    kots := db.kots.modify (fun k => k.orderId ∈ sourceIds)
      (fun k => { k with orderId := targetId }) fun _ => rfl }

/-- Close bills as merged into another. -/
def BillingDb.closeMerged (db : BillingDb) (sourceIds : List RowId) (targetId : RowId) :
    BillingDb :=
  { db with
    orders := db.orders.modify (fun o => o.id ∈ sourceIds)
      (fun o => { o with
        status := .merged
        mergedIntoOrderId := some targetId
        figures := o.figures.emptied }) fun _ => rfl }

/-- Take the customer over from one of the sources, where the target has none. -/
def takeCustomer (sourceIds : List RowId) (target : Order) : BillingTx Unit := do
  let donor ← query fun db : BillingDb => db.orders.rows.find? fun o =>
    o.id ∈ sourceIds ∧ (o.customerPhone ≠ none ∨ o.customerName ≠ none)
  donor.forM fun donor =>
    update fun db => db.updateOrder target.id (fun o => { o with
      customerName := target.customerName.or donor.customerName
      customerPhone := target.customerPhone.or donor.customerPhone }) fun _ => rfl

/-- Move every line and kitchen ticket of the sources to the target, and close the sources. -/
def moveAll (sourceIds : List RowId) (target : Order) : BillingTx Unit := do
  update fun db => db.reassign sourceIds target.id
  whenever (truthy target.customerPhone = none ∨ truthy target.customerName = none)
    (takeCustomer sourceIds target)
  update fun db => db.closeMerged sourceIds target.id

structure MergeInput where
  sourceOrderIds : List RowId
  sources_ne : sourceOrderIds ≠ []

/-- Fold running bills into another. -/
def merge (user : AuthUser) (targetId : RowId) (input : MergeInput) : BillingTx Unit := do
  let sourceIds := input.sourceOrderIds.dedup
  check (targetId ∉ sourceIds) (.badRequest "Cannot merge an order into itself")
  let all := targetId :: sourceIds
  -- read without locks, only to find the tables to lock
  let pre ← query fun db : BillingDb => db.orders.rows.filter fun o => o.id ∈ all
  check (pre.length = all.length) (.notFound "Order not found")
  let first ← require pre.head? .database
  check (∀ o ∈ pre, o.outletId = first.outletId)
    (.badRequest "Orders belong to different outlets")
  assertOutlet user first.outletId
  lockTables first.outletId (pre.map (·.tableId))
  let locked ← lockOrders user all
  let target ← lockedOrder locked targetId
  assertMergeable target "Target order"
  sourceIds.foldlM (fun _ id => do
    let src ← lockedOrder locked id
    check (src.outletId = first.outletId) (.badRequest "Orders belong to different outlets")
    assertMergeable src "Source order") ()
  moveAll sourceIds target
  let _ ← recomputeTotals targetId none false
  return ()

/-! ### Moving -/

/-- A line that was asked for, with the quantity of it. -/
structure LineQty where
  orderItemId : RowId
  quantity : ℕ
  quantity_pos : 0 < quantity

/-- How much of each line moves. -/
abbrev Moves := RowId → Option ℤ

/-- The lines of the components of a combo instance. -/
def componentsOf (lines : List OrderItem) (group : RowId) : List OrderItem :=
  lines.filter fun l => l.isComboComponent ∧ l.comboGroupId = some group

/-- A component moves in proportion to its combo. -/
def moveComponent (line : OrderItem) (quantity : ℕ) (moves : Moves) (comp : OrderItem) :
    Except BillingError Moves := do
  let q := comp.quantity.toNumber * .ofRat quantity / line.quantity.toNumber
  ensure q.IsInteger (.badRequest (line.details.itemName ++ " cannot be divided that way"))
  return Function.update moves comp.id (some ⌊q.val⌋)

/-- What moves with one line that was asked for. -/
def resolveMove (lines : List OrderItem) (moves : Moves) (req : LineQty) :
    Except BillingError Moves := do
  let line ← orThrow (lines.find? fun l => l.id = req.orderItemId)
    (.badRequest "A selected line is not on this bill")
  ensure (line.isComboComponent = false) (.badRequest "Select the combo, not its component")
  ensure (moves line.id = none) (.badRequest "A line was selected twice")
  ensure ((req.quantity : ℤ) ≤ line.quantity.value) (.badRequest ("Only " ++
    toString line.quantity.value ++ " × " ++ line.details.itemName ++ " on this bill"))
  let moves := Function.update moves line.id (some (req.quantity : ℤ))
  match line.comboGroupId with
  | none => return moves
  | some group => (componentsOf lines group).foldlM (moveComponent line req.quantity) moves

/-- Everything that moves with the lines that were asked for: of a combo, its components in
proportion. -/
def resolveMoves (lines : List OrderItem) (requested : List LineQty) : Except BillingError Moves :=
  requested.foldlM (resolveMove lines) fun _ => none

/-- A part of a line as a line of its own on another bill. -/
def copyLine (line : OrderItem) (id orderId : RowId) (quantity : Int4) (lineTotal : Amount) :
    OrderItem :=
  { line with
    id := id
    orderId := orderId
    quantity := quantity
    lineTotal := lineTotal
    splitFromItemId := none
    splitParts := none }

/-- The total of a quantity of a line. -/
def partTotal (line : OrderItem) (quantity : ℤ) : Binary64 :=
  fromPaise (lineTotalPaise line.unitPrice.toNumber (.ofRat quantity))

/-- The rows that moving a quantity of a line writes: the line itself, or what is left of it and
a copy for what moves. -/
def moveLine (line : OrderItem) (quantity : ℤ) (copyId targetOrderId : RowId) :
    Except BillingError (List OrderItem) :=
  if quantity = line.quantity.value then return [{ line with orderId := targetOrderId }]
  else return [
    { line with
      quantity := ← storeInt (line.quantity.value - quantity)
      lineTotal := ← store (partTotal line (line.quantity.value - quantity)) },
    copyLine line copyId targetOrderId (← storeInt quantity) (← store (partTotal line quantity))]

/-- The rows that moving lines writes. -/
def moveLines (moves : Moves) (stamp : ℕ) (targetOrderId : RowId) (lines : List OrderItem) :
    Except BillingError (List OrderItem) := do
  let rows ← lines.zipIdx.mapM fun (line, k) =>
    let quantity := (moves line.id).getD 0
    if quantity = 0 then .ok [] else moveLine line quantity ⟨stamp, k⟩ targetOrderId
  return rows.flatten

/-- The lines that move, in whole or in part. -/
def movedLines (moves : Moves) (lines : List OrderItem) : List OrderItem :=
  lines.filter fun l => (moves l.id).getD 0 ≠ 0

/-- Give kitchen tickets to another bill. -/
def BillingDb.repointKots (db : BillingDb) (ids : List RowId) (targetId : RowId) : BillingDb :=
  { db with
    kots := db.kots.modify (fun k => k.id ∈ ids) (fun k => { k with orderId := targetId })
      fun _ => rfl }

structure TransferInput where
  toTableId : String
  toTableId_ne : toTableId ≠ ""
  /-- The lines to move, at least one; all of them if not given. -/
  lines : Option (List LineQty)
  lines_ne : ∀ ls ∈ lines, ls ≠ []

/-- Move a whole bill to a table, or into the open bill there. -/
def transferBill (source : Order) (toTableId : String) : Option Order → BillingTx Unit
  | some target => do
    -- moving the whole bill onto an occupied table is a merge
    moveAll [source.id] target
    let _ ← recomputeTotals target.id none false
    return ()
  | none => do
    update fun db => db.updateOrder source.id (fun o => { o with
      tableId := some toTableId
      orderType := .dineIn }) fun _ => rfl
    let _ ← recomputeTotals source.id none false
    return ()

/-- The bill that lines are moved to: the open one, or a new one. -/
def transferTarget (source : Order) (toTableId : String) (stamp : ℕ) :
    Option Order → BillingTx RowId
  | some target => return target.id
  | none => do
    let id : RowId := ⟨stamp, 0⟩
    update fun db =>
      db.insertOrder (newOrder id source.outletId .dineIn (some toTableId) none none)
    return id

/-- Move lines, or parts of them, to another bill. -/
def transferLines (source : Order) (toTableId : String) (target : Option Order)
    (lines : List OrderItem) (moves : Moves) : BillingTx Unit := do
  let stamp ← draw
  let targetId ← transferTarget source toTableId stamp target
  let rows ← moveLines moves stamp targetId lines
  update fun db => db.putItems rows
  -- a kitchen ticket whose items all moved follows them; a partly moved one stays
  let touchedKots := ((movedLines moves lines).filterMap (·.kotId)).dedup
  let gone ← query fun db : BillingDb => touchedKots.filter fun kotId =>
    ((db.itemsOf source.id).filter fun i => i.kotId = some kotId).length = 0
  update fun db => db.repointKots gone targetId
  let _ ← recomputeTotals source.id none false
  let _ ← recomputeTotals targetId none false
  return ()

/-- The open bill on the table that a transfer goes to, locked. -/
def transferExisting (user : AuthUser) (outletId toTableId : String) :
    BillingTx (Option Order) := do
  let row ← query fun db : BillingDb => db.tables.find? toTableId
  let targetTable ← require row .database
  let existing ← query fun db : BillingDb => db.findOpen outletId toTableId
  match existing with
  | none => return none
  | some found => do
    let locked ← lockOrders user [found.id]
    let target ← lockedOrder locked found.id
    assertMergeable target (targetTable.name ++ "'s bill")
    return some target

/-- Move a running bill, or some of its lines, to another table. -/
def transfer (user : AuthUser) (orderId : RowId) (input : TransferInput) : BillingTx Unit := do
  let pre ← requireOrder user orderId
  check (pre.tableId ≠ some input.toTableId) (.badRequest "The order is already on that table")
  lockTables pre.outletId [pre.tableId, some input.toTableId]
  let locked ← lockOrders user [orderId]
  let source ← lockedOrder locked orderId
  assertMergeable source "Order"
  check (source.tableId = pre.tableId)
    (.badRequest "The order moved tables meanwhile; refresh and retry")
  let target ← transferExisting user source.outletId input.toTableId
  let lines ← query fun db : BillingDb => db.itemsOf source.id
  match input.lines with
  | none => transferBill source input.toTableId target
  | some requested => do
    let moves ← resolveMoves lines requested
    if ∀ l ∈ lines, (moves l.id).getD 0 = l.quantity.value then
      transferBill source input.toTableId target
    else transferLines source input.toTableId target lines moves

/-! ### Splitting -/

inductive SplitMode
  | equal (parts : ℕ) (bounds : 2 ≤ parts ∧ parts ≤ 20)
  | items (checks : List (List LineQty)) (bounds : 2 ≤ checks.length ∧ checks.length ≤ 20)

structure SplitInput where
  mode : SplitMode
  discountAmount : Option Binary64
  discount_nonneg : ∀ d ∈ discountAmount, 0 ≤ d

/-- A line of a check before it is stored: the line it bills, the quantity, and its total. -/
structure CheckRow where
  line : OrderItem
  quantity : ℤ
  lineTotal : Binary64
  splitParts : Option ℕ

/-- The lines of the checks of an equal split: every check has a share of every line. -/
def equalChecks (lines : List OrderItem) (parts : ℕ) : List (List CheckRow) :=
  let shares := splitLinesEqually (lines.map fun l => toPaise l.lineTotal.toNumber) parts
  shares.map fun share => (lines.zip share).map fun (l, paise) =>
    ⟨l, l.quantity.value, fromPaise paise, some parts⟩

/-- The lines of one check that items are assigned to. -/
def itemCheck (lines : List OrderItem) (requested : List LineQty) :
    Except BillingError (List CheckRow) := do
  let moves ← resolveMoves lines requested
  return lines.filterMap fun l =>
    ((moves l.id).filter (· ≠ 0)).map fun q => ⟨l, q, partTotal l q, none⟩

/-- How much of a line is assigned to the checks. -/
def assigned (checks : List (List CheckRow)) (line : OrderItem) : ℤ :=
  ((checks.flatten.filter fun row => row.line.id = line.id).map (·.quantity)).sum

/-- A line has to be assigned in full. -/
def assertAssigned (checks : List (List CheckRow)) (line : OrderItem) :
    Except BillingError Unit :=
  let got := assigned checks line
  let name := line.details.itemName
  let quantity := line.quantity.value
  ensure (got = quantity) (.badRequest (if quantity < got then
    name ++ ": " ++ toString got ++ " assigned but only " ++ toString quantity ++ " on the bill"
    else name ++ ": assign all " ++ toString quantity ++ " to a check (" ++ toString got ++
      " assigned)"))

/-- The lines of the checks of a split by items. -/
def itemChecks (lines : List OrderItem) (checks : List (List LineQty)) :
    Except BillingError (List (List CheckRow)) := do
  let rows ← checks.mapM (itemCheck lines)
  lines.foldlM (fun _ l => assertAssigned rows l) ()
  return rows

def splitRows (lines : List OrderItem) : SplitMode → Except BillingError (List (List CheckRow))
  | .equal parts _ => return equalChecks lines parts
  | .items checks _ => itemChecks lines checks

/-- The subtotals of the checks, in paise. -/
def checkSubtotals (checks : List (List CheckRow)) : List Binary64 :=
  checks.map fun rows => rows.foldl (fun s r => s + toPaise r.lineTotal) 0

/-- The checks' shares of a discount on the bill, in paise. -/
def splitDiscounts (checks : List (List CheckRow)) (discountAmount : Binary64) : List Binary64 :=
  let subtotals := checkSubtotals checks
  let subtotalPaise := subtotals.foldl (· + ·) 0
  allocatePaise (min (toPaise discountAmount) subtotalPaise) subtotals

/-- The bill of a check, which leaves the table to its parent. -/
def checkOrder (parent : Order) (id : RowId) (c : ℕ) (allocatedDiscount : Amount) : Order :=
  { newOrder id parent.outletId parent.orderType none parent.customerName parent.customerPhone with
    parentOrderId := some parent.id
    splitIndex := some (c + 1)
    allocatedDiscount := allocatedDiscount
    serviceChargeWaived := parent.serviceChargeWaived }

/-- The stored line of a check. -/
def CheckRow.item (row : CheckRow) (id orderId : RowId) : Except BillingError OrderItem :=
  return { copyLine row.line id orderId (← storeInt row.quantity) (← store row.lineTotal) with
    kotId := none
    splitFromItemId := some row.line.id
    splitParts := row.splitParts }

/-- The stored lines of a check. -/
def checkItems (stamp c : ℕ) (rows : List CheckRow) : Except BillingError (List OrderItem) :=
  rows.zipIdx.mapM fun (row, k) => row.item ⟨stamp, Nat.pair c k⟩ ⟨stamp, c⟩

/-- Insert a check with its lines. -/
def createCheck (parent : Order) (stamp c : ℕ) (rows : List CheckRow) (discount : Binary64) :
    BillingTx Unit := do
  let allocated ← store (fromPaise discount)
  let id : RowId := ⟨stamp, c⟩
  update fun db => db.insertOrder (checkOrder parent id c allocated)
  let items ← checkItems stamp c rows
  update fun db => db.putItems items
  let _ ← recomputeTotals id none false
  return ()

/-- Insert checks with their lines, from the `c`-th on. -/
def createChecks (parent : Order) (stamp : ℕ) : ℕ → List (List CheckRow × Binary64) → BillingTx Unit
  | _, [] => return ()
  | c, (rows, discount) :: checks => do
    createCheck parent stamp c rows discount
    createChecks parent stamp (c + 1) checks

/-- Split a running bill into checks. The parent keeps its lines and kitchen tickets; each check
gets copies of its share. -/
def split (user : AuthUser) (orderId : RowId) (input : SplitInput) : BillingTx Unit := do
  let parent ← lockOpenOrder user orderId
  check (parent.splitCount = none) (.badRequest "This bill is already split")
  check (parent.parentOrderId = none) (.badRequest "A split check cannot be split again")
  let lines ← query fun db : BillingDb =>
    (db.itemsOf parent.id).insertionSort fun a b => a.id.le b.id
  check (∃ l ∈ lines, l.isComboComponent = false) (.badRequest "Nothing to split")
  let checks ← splitRows lines input.mode
  let discounts := splitDiscounts checks (input.discountAmount.getD 0)
  let stamp ← draw
  createChecks parent stamp 0 (checks.zip discounts)
  update fun db => db.updateOrder orderId
    (fun o => { o with splitCount := some checks.length }) fun _ => rfl

/-- Delete checks with their lines. -/
def BillingDb.deleteChecks (db : BillingDb) (ids : List RowId) : BillingDb :=
  { db with
    items := db.items.delete fun i => i.orderId ∈ ids
    orders := db.orders.delete fun o => o.id ∈ ids }

/-- Undo a split while no check has settled. -/
def unsplit (user : AuthUser) (orderId : RowId) : BillingTx Unit := do
  let pre ← requireOrder user orderId
  let preChildren ← query fun db : BillingDb => (db.checksOf pre.id).map (·.id)
  -- checks before their parent, the order in which a check's settlement locks
  let _ ← lockOrders user preChildren
  let parent ← lockOpenOrder user orderId
  check (parent.splitCount ≠ none) (.badRequest "This bill is not split")
  let children ← query fun db : BillingDb => db.checksOf parent.id
  check (children.length = preChildren.length)
    (.badRequest "The split changed meanwhile; refresh and retry")
  check (∀ c ∈ children, c.status = .opened)
    (.badRequest "A check has already been settled — the split can no longer be undone")
  let ids := children.map (·.id)
  update fun db => db.deleteChecks ids
  update fun db =>
    db.updateOrder orderId (fun o => { o with splitCount := none }) fun _ => rfl
  let _ ← recomputeTotals orderId none false
  update fun db => { db with unsplits := db.unsplits ++ [⟨orderId, ids⟩] }

end StelloKitchens.Billing
