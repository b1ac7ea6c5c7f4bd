import Mathlib.Data.List.Sort
import StelloKitchens.Shared.Service

/-!
# The roster and its swaps

Managers assign shifts, day by day or by copying a week onto another. A shift is handed over by a
swap: it is requested, for a cover or for a shift of the other person, and decided later, when both
shifts are made anew under their ids with their owners exchanged. No one has two shifts on a day.

## Main definitions

* `RosterShift`, `ShiftSwapRequest`, `RosterDb` — the shifts and the requests.
* `assign`, `copyWeek`, `requestSwap`, `decideSwap` — the methods.
* `rosters` — all of them side by side.
-/

namespace StelloKitchens.Staff

open Tx Method Service

structure StaffUser extends AuthUser where
  permissions : List String
  deriving DecidableEq

def hasPerm (user : StaffUser) (p : String) : Bool := "*" ∈ user.permissions ∨ p ∈ user.permissions

structure StaffMember where
  id : String
  tenantId : String
  outletId : String
  isActive : Bool
  userId : Option String
  deriving DecidableEq

structure ShiftTemplate where
  id : String
  tenantId : String
  outletId : String
  startTime : String
  endTime : String
  breakMinutes : ℕ
  graceMinutes : ℕ
  deriving DecidableEq

/-- The template of a shift, and its times as they were then. -/
structure ShiftTimes where
  templateId : Option String
  startTime : String
  endTime : String
  breakMinutes : ℕ
  graceMinutes : ℕ
  deriving DecidableEq

def ShiftTemplate.times (t : ShiftTemplate) : ShiftTimes :=
  ⟨some t.id, t.startTime, t.endTime, t.breakMinutes, t.graceMinutes⟩

structure RosterShift where
  id : ℕ
  tenantId : String
  outletId : String
  staffId : String
  /-- Days are counted. -/
  date : ℤ
  times : ShiftTimes
  deriving DecidableEq

inductive RequestStatus
  | pending
  | approved
  | rejected
  deriving DecidableEq

structure ShiftSwapRequest where
  id : ℕ
  tenantId : String
  outletId : String
  fromShiftId : ℕ
  toStaffId : String
  /-- Without it the other person covers the shift. -/
  toShiftId : Option ℕ
  status : RequestStatus
  requestedById : String
  /-- Whose shift it was when the swap was requested, and how many had been decided. -/
  owner : String
  since : ℕ
  deriving DecidableEq

/-- A decision: the shifts that it handed over, as they were, and the roster before and after. -/
structure Decision where
  request : ShiftSwapRequest
  shift : Option RosterShift
  other : Option RosterShift
  before : List RosterShift
  after : List RosterShift
  deriving DecidableEq

/-- The shifts that change hands. -/
def Decision.handed (d : Decision) : List ℕ := (d.shift.toList ++ d.other.toList).map (·.id)

structure RosterDb where
  staff : List StaffMember
  templates : List ShiftTemplate
  shifts : KeyedTable RosterShift.id
  swaps : KeyedTable ShiftSwapRequest.id
  /-- The ids that shifts were given. -/
  shiftIds : List ℕ
  decisions : List Decision
  deriving DecidableEq

/-- What transactions lock: a request, or what a person works on a day. -/
inductive LockKey
  | request (id : ℕ)
  | day (staffId : String) (date : ℤ)
  deriving DecidableEq

/-- What commits. -/
inductive Note
  | plain
  | approved (id : ℕ)
  deriving DecidableEq

abbrev RosterTx (α : Type) := ServiceTx RosterDb LockKey α

abbrev RosterMethod := ServiceMethod RosterDb LockKey Note

/-! ### Statements -/

namespace RosterDb

/-- What a person works on a day. -/
def shiftAt (db : RosterDb) (staffId : String) (date : ℤ) : Option RosterShift :=
  db.shifts.rows.find? fun s => s.staffId = staffId ∧ s.date = date

def findShift (db : RosterDb) (tenantId : String) (id : ℕ) : Option RosterShift :=
  (db.shifts.find? id).filter (·.tenantId = tenantId)

/-- Insert a shift under an id that is new. -/
def insertShift (s : RosterShift) (db : RosterDb) : RosterDb :=
  { db with shifts := db.shifts.put s, shiftIds := db.shiftIds ++ [s.id] }

/-- Set the times of the shift of that day, or insert it. -/
def upsertShift (s : RosterShift) (db : RosterDb) : RosterDb :=
  match db.shiftAt s.staffId s.date with
  | some old =>
    { db with
      shifts := db.shifts.modify (·.id = old.id) (fun r => { r with times := s.times }) fun _ => rfl }
  | none => db.insertShift s

/-- Insert a shift unless there is one on that day. -/
def insertNew (s : RosterShift) (db : RosterDb) : RosterDb :=
  match db.shiftAt s.staffId s.date with
  | some _ => db
  | none => db.insertShift s

def deleteShifts (p : RosterShift → Bool) (db : RosterDb) : RosterDb :=
  { db with shifts := db.shifts.delete p }

/-- The shifts made anew with their owners exchanged. -/
def exchange (req : ShiftSwapRequest) (shift : RosterShift) (other : Option RosterShift)
    (db : RosterDb) : KeyedTable RosterShift.id :=
  let kept := db.shifts.delete fun s => s.id = shift.id ∨ other.any (·.id = s.id)
  let covered := kept.put { shift with staffId := req.toStaffId }
  match other with
  | none => covered
  | some o => covered.put { o with staffId := shift.staffId }

/-- The request is decided, and the roster is then this. -/
def decided (req : ShiftSwapRequest) (status : RequestStatus) (shift other : Option RosterShift)
    (shifts : RosterDb → KeyedTable RosterShift.id) (db : RosterDb) : RosterDb :=
  { db with
    shifts := shifts db
    swaps := db.swaps.modify (·.id = req.id) (fun r => { r with status := status }) fun _ => rfl
    decisions := db.decisions ++ [⟨req, shift, other, db.shifts.rows, (shifts db).rows⟩] }

end RosterDb

/-! ### Assigning -/

structure AssignEntry where
  staffId : String
  date : ℤ
  templateId : Option String
  deriving DecidableEq

/-- A list without repetitions, as a `Set` of it is read. -/
def distinct (ids : List String) : List String := ids.reverse.dedup.reverse

def assignEntry (user : StaffUser) (outletId : String) (templates : List ShiftTemplate)
    (e : AssignEntry) : RosterTx Unit := do
  acquire (.day e.staffId e.date)
  match truthy e.templateId with
  | none =>
    update (·.deleteShifts fun s =>
      s.tenantId = user.tenantId ∧ s.staffId = e.staffId ∧ s.date = e.date)
  | some templateId =>
    let t ← require (templates.find? fun t => t.id = templateId) .database
    let id ← draw
    update (·.upsertShift ⟨id, user.tenantId, outletId, e.staffId, e.date, t.times⟩)

def assignTx (user : StaffUser) (outletId : String) (templates : List ShiftTemplate) :
    List AssignEntry → RosterTx Unit
  | [] => pure ()
  | e :: entries => do
    assignEntry user outletId templates e
    assignTx user outletId templates entries

/-- Set or clear shifts, day by day. -/
def assign (user : StaffUser) (outletId : String) (entries : List AssignEntry) :
    RosterMethod Unit := do
  assertOutlet user.toAuthUser outletId
  let staffIds := distinct (entries.map (·.staffId))
  let templateIds := distinct (entries.filterMap fun e => truthy e.templateId)
  let staff ← look fun db : RosterDb => db.staff.filter fun m =>
    m.tenantId = user.tenantId ∧ m.outletId = outletId ∧ m.id ∈ staffIds
  let templates ← look fun db : RosterDb => db.templates.filter fun t =>
    t.tenantId = user.tenantId ∧ t.outletId = outletId ∧ t.id ∈ templateIds
  guardOr (staff.length = staffIds.length) (.badRequest "Unknown staff member for this outlet")
  guardOr (templates.length = templateIds.length)
    (.badRequest "Unknown shift template for this outlet")
  autocommit .plain (assignTx user outletId templates entries)

/-- Insert the copy of a shift, if its day is free. -/
def createCopy (user : StaffUser) (outletId : String) (offset : ℤ) (s : RosterShift) :
    RosterTx Unit := do
  acquire (.day s.staffId (s.date + offset))
  let id ← draw
  update (·.insertNew ⟨id, user.tenantId, outletId, s.staffId, s.date + offset, s.times⟩)

def createMany (user : StaffUser) (outletId : String) (offset : ℤ) :
    List RosterShift → RosterTx Unit
  | [] => pure ()
  | s :: src => do
    createCopy user outletId offset s
    createMany user outletId offset src

/-- A shift of the outlet in the week. -/
def inWeek (user : StaffUser) (outletId : String) (week : ℤ) (s : RosterShift) : Bool :=
  s.tenantId = user.tenantId ∧ s.outletId = outletId ∧ week ≤ s.date ∧ s.date ≤ week + 6

def copyWeekTx (user : StaffUser) (outletId : String) (toWeek offset : ℤ) (src : List RosterShift) :
    RosterTx Unit := do
  let old ← query fun db : RosterDb => db.shifts.rows.filter (inWeek user outletId toWeek)
  acquireAll (old.map fun s => .day s.staffId s.date)
  update (·.deleteShifts fun s => inWeek user outletId toWeek s ∧
    ∃ o ∈ old, o.staffId = s.staffId ∧ o.date = s.date)
  createMany user outletId offset src

/-- Copy a week onto another. -/
def copyWeek (user : StaffUser) (outletId : String) (fromWeek toWeek : ℤ) : RosterMethod Unit := do
  assertOutlet user.toAuthUser outletId
  let src ← look fun db : RosterDb => db.shifts.rows.filter (inWeek user outletId fromWeek)
  autocommit .plain (copyWeekTx user outletId toWeek (toWeek - fromWeek) src)

/-! ### Swaps -/

structure SwapRequestInput where
  fromShiftId : ℕ
  toStaffId : String
  toShiftId : Option ℕ
  deriving DecidableEq

def createSwapTx (user : StaffUser) (outletId : String) (shift : RosterShift) (since : ℕ)
    (input : SwapRequestInput) : RosterTx Unit := do
  let id ← draw
  acquire (.request id)
  update fun db => { db with
    swaps := db.swaps.put ⟨id, user.tenantId, outletId, shift.id, input.toStaffId, input.toShiftId,
      .pending, user.id, shift.staffId, since⟩ }

/-- Those who do not manage the staff ask for themselves. -/
def assertSelfOrManager (user : StaffUser) (staffId : String) : RosterMethod Unit := do
  let own ← look fun db : RosterDb => db.staff.find? fun m =>
    m.id = staffId ∧ m.tenantId = user.tenantId ∧ m.userId = some user.id
  guardOr (hasPerm user "staff.manage" ∨ own.isSome)
    (.forbidden "You can only raise requests for yourself")

/-- Ask someone to take a shift, outright or for one of theirs. -/
def requestSwap (user : StaffUser) (outletId : String) (input : SwapRequestInput) :
    RosterMethod Unit := do
  assertOutlet user.toAuthUser outletId
  let read ← look fun db : RosterDb =>
    ((db.findShift user.tenantId input.fromShiftId).filter (·.outletId = outletId)).map
      fun s => (s, db.decisions.length)
  let (shift, since) ← getOr read (.notFound "Shift not found")
  assertSelfOrManager user shift.staffId
  let toStaff ← look fun db : RosterDb => db.staff.find? fun m => m.id = input.toStaffId ∧
    m.tenantId = user.tenantId ∧ m.outletId = outletId ∧ m.isActive
  guardOr (toStaff.isSome ∧ input.toStaffId ≠ shift.staffId)
    (.badRequest "Pick another active staff member of this outlet")
  let other ← look fun db : RosterDb => input.toShiftId.bind fun id =>
    (db.findShift user.tenantId id).filter fun s =>
      s.outletId = outletId ∧ s.staffId = input.toStaffId
  guardOr (input.toShiftId.isNone ∨ other.isSome)
    (.badRequest "The other shift must belong to the chosen staff member")
  autocommit .plain (createSwapTx user outletId shift since input)

/-- A shift by its id, if it is there, locked. -/
def lockShift (tenantId : String) (id : ℕ) : RosterTx (Option RosterShift) := do
  let found ← query fun db : RosterDb => db.findShift tenantId id
  match found with
  | none => pure none
  | some s => do
    acquire (.day s.staffId s.date)
    query fun db : RosterDb => (db.findShift tenantId id).filter fun r =>
      r.staffId = s.staffId ∧ r.date = s.date

def lockShifts (tenantId : String) : List ℕ → RosterTx (List RosterShift)
  | [] => pure []
  | id :: ids => do
    let s ← lockShift tenantId id
    let rest ← lockShifts tenantId ids
    pure (s.toList ++ rest)

/-- Another shift of the person on that day. -/
def clash (tenantId staffId : String) (date : ℤ) (ignore : List ℕ) : RosterTx (Option RosterShift) :=
  query fun db : RosterDb =>
    (db.shiftAt staffId date).filter fun s => s.tenantId = tenantId ∧ s.id ∉ ignore

/-- Take the day of a person, which is free but for the shifts that change hands. -/
def takeDay (staffId : String) (date : ℤ) (ignore : List ℕ) : RosterTx Unit := do
  acquire (.day staffId date)
  let taken ← query fun db : RosterDb => (db.shiftAt staffId date).filter (·.id ∉ ignore)
  check (taken = none) .p2002

def approve (user : StaffUser) (req : ShiftSwapRequest) : RosterTx Unit := do
  let ids := (req.fromShiftId :: req.toShiftId.toList).insertionSort (· ≤ ·)
  let locked ← lockShifts user.tenantId ids.dedup
  check (locked.length = ids.length) (.badRequest "A shift in this request no longer exists")
  let shift ← require (locked.find? (·.id = req.fromShiftId)) .database
  let other := req.toShiftId.bind fun id => locked.find? (·.id = id)
  check (req.toShiftId.isNone ∨ other.isSome) .database
  check (∀ o ∈ other, o.staffId = req.toStaffId)
    (.badRequest "The other shift has been reassigned")
  let covering ← clash user.tenantId req.toStaffId shift.date ids
  check (covering = none) (.badRequest "The covering staff member already has a shift that day")
  other.forM fun o => do
    let requesting ← clash user.tenantId shift.staffId o.date ids
    check (requesting = none) (.badRequest "The requester already has a shift on the other day")
  takeDay req.toStaffId shift.date ids
  other.forM fun o => takeDay shift.staffId o.date ids
  update (·.decided req .approved (some shift) other (·.exchange req shift other))

def decideSwapTx (user : StaffUser) (outletId : String) (id : ℕ) (approved : Bool) :
    RosterTx Unit := do
  acquire (.request id)
  let row ← query fun db : RosterDb => db.swaps.find? id
  let req ← require (row.filter fun r => r.tenantId = user.tenantId ∧ r.outletId = outletId)
    (.notFound "Swap request not found")
  check (req.status = .pending) (.badRequest "Request was already decided")
  if approved then approve user req
  else update (·.decided req .rejected none none (·.shifts))

/-- Approve a swap, or reject it. -/
def decideSwap (user : StaffUser) (outletId : String) (id : ℕ) (approved : Bool) :
    RosterMethod Unit := do
  assertOutlet user.toAuthUser outletId
  autocommit (if approved then .approved id else .plain) (decideSwapTx user outletId id approved)

/-- The staff and the templates are kept elsewhere. -/
def setStaff (staff : List StaffMember) (templates : List ShiftTemplate) : RosterMethod Unit :=
  autocommit .plain (update fun db => { db with staff := staff, templates := templates })

/-! ### Side by side -/

inductive RosterRequest
  | assign (user : StaffUser) (outletId : String) (entries : List AssignEntry)
  | copyWeek (user : StaffUser) (outletId : String) (fromWeek toWeek : ℤ)
  | requestSwap (user : StaffUser) (outletId : String) (input : SwapRequestInput)
  | decideSwap (user : StaffUser) (outletId : String) (id : ℕ) (approved : Bool)
  | setStaff (staff : List StaffMember) (templates : List ShiftTemplate)

def RosterRequest.run : RosterRequest → RosterMethod Unit
  | .assign user outletId entries => Staff.assign user outletId entries
  | .copyWeek user outletId fromWeek toWeek => Staff.copyWeek user outletId fromWeek toWeek
  | .requestSwap user outletId input => Staff.requestSwap user outletId input
  | .decideSwap user outletId id approved => Staff.decideSwap user outletId id approved
  | .setStaff staff templates => Staff.setStaff staff templates

abbrev RosterWorld := World RosterDb LockKey Note Empty Empty (Except ServiceError Unit)

/-- Nothing has been rostered. -/
structure RosterDb.Blank (db : RosterDb) : Prop where
  shifts : db.shifts = .empty
  swaps : db.swaps = .empty
  shiftIds : db.shiftIds = []
  decisions : db.decisions = []

/-- The methods side by side, before the first shift is assigned. -/
def rosters : Machine RosterWorld (WorldAction RosterRequest Empty) :=
  serve (fun r : RosterRequest => r.run.run) fun db _ => db.Blank

end StelloKitchens.Staff
