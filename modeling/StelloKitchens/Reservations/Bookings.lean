import Mathlib.Data.List.Sort
import StelloKitchens.Shared.Service

/-!
# Reservations of tables

A reservation holds its tables for its time while it is booked, confirmed or seated. To create,
change or reinstate one locks the tables that it is to hold, and looks for others that hold one of
them at the time. To seat a party locks the table it sits down at and looks whether there is a
running order.

## Main definitions

* `Reservation`, `ReservationDb` — the reservations, with the tables and their orders.
* `create`, `update`, `setStatus`, `seat` — the methods.
* `reservations` — all of them side by side.
-/

namespace StelloKitchens.Reservations

open Checked Tx Method Service

/-! ### Times -/

/-- How long a table is held, in minutes. -/
structure Duration where
  minutes : ℕ
  bound : 15 ≤ minutes ∧ minutes ≤ 480
  deriving DecidableEq

def maxDurationMin : ℤ := 480

/-- Two intervals have more in common than an end. -/
def intervalsOverlap (aStart aMinutes bStart bMinutes : ℤ) : Prop :=
  aStart < bStart + bMinutes * 60000 ∧ bStart < aStart + aMinutes * 60000

instance (aStart aMinutes bStart bMinutes : ℤ) :
    Decidable (intervalsOverlap aStart aMinutes bStart bMinutes) :=
  inferInstanceAs (Decidable (_ ∧ _))

/-- The date of a day, counted from 1970: its year, month and day. -/
def dateOf (days : ℤ) : ℤ × ℤ × ℤ :=
  let z := days + 719468
  let era := z / 146097
  let doe := z % 146097
  let yoe := (doe - doe / 1460 + doe / 36524 - doe / 146096) / 365
  let doy := doe - (365 * yoe + yoe / 4 - yoe / 100)
  let mp := (5 * doy + 2) / 153
  let month := if mp < 10 then mp + 3 else mp - 9
  (yoe + era * 400 + (if month ≤ 2 then 1 else 0), month, doy - (153 * mp + 2) / 5 + 1)

/-- `toISOString`, of a time in the years with four digits. -/
def toISOString (t : Time) : String :=
  let (year, month, day) := dateOf (t / 86400000)
  let ms := t % 86400000
  let pad (width : ℕ) (n : ℤ) := padStart width (toString n)
  pad 4 year ++ "-" ++ pad 2 month ++ "-" ++ pad 2 day ++ "T" ++ pad 2 (ms / 3600000) ++ ":" ++
    pad 2 (ms / 60000 % 60) ++ ":" ++ pad 2 (ms / 1000 % 60) ++ "." ++ pad 3 (ms % 1000) ++ "Z"

/-! ### Tables -/

inductive ReservationStatus
  | booked
  | confirmed
  | seated
  | noShow
  | cancelled
  deriving DecidableEq

inductive ReservationSource
  | phone
  | walkIn
  | web
  | aggregator
  | other
  deriving DecidableEq

/-- The statuses that hold a table. -/
def blockingReservationStatuses : List ReservationStatus := [.booked, .confirmed, .seated]

/-- The statuses that a status may be changed to. -/
def reservationTransitions : ReservationStatus → List ReservationStatus
  | .booked => [.confirmed, .seated, .noShow, .cancelled]
  | .confirmed => [.booked, .seated, .noShow, .cancelled]
  | .seated => []
  | .noShow => [.booked]
  | .cancelled => [.booked]

/-- A status in a sentence. -/
def ReservationStatus.text : ReservationStatus → String
  | booked => "booked"
  | confirmed => "confirmed"
  | seated => "seated"
  | noShow => "no_show"
  | cancelled => "cancelled"

/-- A status in a sentence, with a hyphen. -/
def ReservationStatus.hyphenated : ReservationStatus → String
  | noShow => "no-show"
  | status => status.text

structure Reservation where
  id : ℕ
  tenantId : String
  outletId : String
  guestName : String
  phone : String
  partySize : ℕ
  startAt : Time
  duration : Duration
  status : ReservationStatus
  source : ReservationSource
  notes : Option String
  customerId : Option String
  createdById : Option String
  seatedAt : Option Time
  /-- The ids of its tables. -/
  tables : List String
  deriving DecidableEq

namespace Reservation

/-- The reservation holds its tables. -/
def Blocks (r : Reservation) : Prop := r.status ∈ blockingReservationStatuses

instance (r : Reservation) : Decidable r.Blocks := inferInstanceAs (Decidable (_ ∈ _))

/-- The times of two reservations overlap. -/
def Overlaps (r q : Reservation) : Prop :=
  intervalsOverlap r.startAt r.duration.minutes q.startAt q.duration.minutes

instance (r q : Reservation) : Decidable (r.Overlaps q) :=
  inferInstanceAs (Decidable (intervalsOverlap _ _ _ _))

end Reservation

structure DiningTable where
  id : String
  tenantId : String
  outletId : String
  name : String
  deriving DecidableEq

structure Customer where
  id : String
  tenantId : String
  outletId : String
  phone : String
  deriving DecidableEq

/-- An order at a table, and whether it is running. -/
structure TableOrder where
  tenantId : String
  outletId : String
  tableId : String
  running : Bool
  deriving DecidableEq

structure ReservationDb where
  reservations : KeyedTable Reservation.id
  diningTables : KeyedTable DiningTable.id
  customers : List Customer
  orders : List TableOrder
  deriving DecidableEq

/-- What transactions lock. -/
inductive LockKey
  | reservation (id : ℕ)
  | table (id : String)
  deriving DecidableEq

/-- What commits. -/
inductive Note
  | plain
  | seated (id : ℕ) (tableId : String)
  deriving DecidableEq

abbrev ReservationTx (α : Type) := ServiceTx ReservationDb LockKey α

abbrev ReservationMethod := ServiceMethod ReservationDb LockKey Note

/-! ### Statements -/

namespace ReservationDb

def findReservation (db : ReservationDb) (id : ℕ) : Option Reservation := db.reservations.find? id

/-- Update a reservation. -/
def updateReservation (id : ℕ) (f : Reservation → Reservation) (hf : ∀ r, (f r).id = r.id)
    (db : ReservationDb) : ReservationDb :=
  { db with reservations := db.reservations.modify (fun r => r.id = id) f hf }

/-- The reservations that hold one of the tables, and begin in the time in which they can overlap
with the interval. -/
def candidates (db : ReservationDb) (tenantId outletId : String) (ids : List String)
    (startAt : Time) (minutes : ℤ) (excludeId : Option ℕ) : List Reservation :=
  db.reservations.rows.filter fun r => r.tenantId = tenantId ∧ r.outletId = outletId ∧ r.Blocks ∧
    startAt - maxDurationMin * 60000 < r.startAt ∧ r.startAt < startAt + minutes * 60000 ∧
      (∃ t ∈ r.tables, t ∈ ids) ∧ some r.id ≠ excludeId

/-- Those of the candidates that overlap. -/
def clashes (db : ReservationDb) (tenantId outletId : String) (ids : List String)
    (startAt : Time) (minutes : ℤ) (excludeId : Option ℕ) : List Reservation :=
  (db.candidates tenantId outletId ids startAt minutes excludeId).filter fun r =>
    intervalsOverlap startAt minutes r.startAt r.duration.minutes

/-- The tables of an outlet with these ids. -/
def tablesOf (db : ReservationDb) (tenantId outletId : String) (ids : List String) :
    List DiningTable :=
  db.diningTables.rows.filter fun t => t.id ∈ ids ∧ t.tenantId = tenantId ∧ t.outletId = outletId

def customerId (db : ReservationDb) (tenantId outletId phone : String) : Option String :=
  (db.customers.find? fun c => c.tenantId = tenantId ∧ c.outletId = outletId ∧ c.phone = phone).map
    (·.id)

end ReservationDb

def lockReservation (tenantId outletId : String) (id : ℕ) : ReservationTx Reservation := do
  acquire (.reservation id)
  let row ← query fun db => db.findReservation id
  require (row.filter fun r => r.tenantId = tenantId ∧ r.outletId = outletId)
    (.notFound "Reservation not found")

/-- A list without repetitions, as a `Set` of it is read. -/
def unique (ids : List String) : List String := ids.reverse.dedup.reverse

/-- The message about the first reservation that is in the way. -/
def clashMessage (locked : List DiningTable) (clash : Reservation) : String :=
  let name := clash.tables.findSome? fun t => truthy ((locked.find? fun x => x.id = t).map (·.name))
  name.getD "Table" ++ " is already reserved for " ++ clash.guestName ++ " (" ++
    toISOString clash.startAt ++ ")"

/-- Lock the tables, and refuse if one of them is held at the time. -/
def lockAndCheck (tenantId outletId : String) (tableIds : List String) (startAt : Time)
    (minutes : ℤ) (excludeId : Option ℕ) : ReservationTx Unit := do
  let ids := (unique tableIds).insertionSort (· ≤ ·)
  whenever (ids ≠ []) do
    acquireAll (ids.map .table)
    let locked ← query fun db => db.tablesOf tenantId outletId ids
    check (locked.length = ids.length) (.badRequest "Table not found in this outlet")
    let clashes ← query fun db => db.clashes tenantId outletId ids startAt minutes excludeId
    ofExcept (clashes.head?.elim (.ok ()) fun clash =>
      .error (.conflict (clashMessage locked clash)))

/-- Lock a table, and refuse if it has a running order. -/
def assertTableFree (tenantId outletId tableId : String) : ReservationTx Unit := do
  acquire (.table tableId)
  let rows ← query fun db => db.tablesOf tenantId outletId [tableId]
  check (rows ≠ []) (.badRequest "Table not found in this outlet")
  let running ← query fun db => db.orders.any fun o =>
    o.tenantId = tenantId ∧ o.outletId = outletId ∧ o.tableId = tableId ∧ o.running
  check (running = false) (.conflict "That table still has a running order")

/-! ### Methods -/

structure ReservationInput where
  guestName : String
  phone : String
  partySize : ℕ
  startAt : Time
  duration : Duration
  tableIds : List String
  notes : Option String
  source : ReservationSource

def createTx (user : AuthUser) (outletId : String) (input : ReservationInput) :
    ReservationTx Unit := do
  lockAndCheck user.tenantId outletId input.tableIds input.startAt input.duration.minutes none
  let customerId ← query fun db => db.customerId user.tenantId outletId input.phone
  let id ← draw
  acquire (.reservation id)
  update fun db => { db with
    reservations := db.reservations.put ⟨id, user.tenantId, outletId, input.guestName, input.phone,
      input.partySize, input.startAt, input.duration, .booked, input.source, input.notes, customerId,
      some user.id, none, unique input.tableIds⟩ }

def create (user : AuthUser) (outletId : String) (input : ReservationInput) :
    ReservationMethod Unit := do
  assertOutlet user outletId
  autocommit .plain (createTx user outletId input)

structure UpdateReservationInput where
  guestName : Option String
  phone : Option String
  partySize : Option ℕ
  startAt : Option Time
  duration : Option Duration
  tableIds : Option (List String)
  notes : Option String
  source : Option ReservationSource

/-- A reservation with what the input changes. -/
def UpdateReservationInput.apply (input : UpdateReservationInput) (customerId : Option String)
    (r : Reservation) : Reservation :=
  { r with
    guestName := input.guestName.getD r.guestName
    phone := input.phone.getD r.phone
    partySize := input.partySize.getD r.partySize
    startAt := input.startAt.getD r.startAt
    duration := input.duration.getD r.duration
    notes := input.notes <|> r.notes
    source := input.source.getD r.source
    customerId := customerId
    tables := (input.tableIds.map unique).getD r.tables }

def updateTx (user : AuthUser) (outletId : String) (id : ℕ) (input : UpdateReservationInput) :
    ReservationTx Unit := do
  let current ← lockReservation user.tenantId outletId id
  check (current.Blocks ∧ current.status ≠ .seated)
    (.badRequest ("A " ++ current.status.hyphenated ++ " reservation cannot be edited"))
  let tableIds := input.tableIds.getD current.tables
  let startAt := input.startAt.getD current.startAt
  let duration := input.duration.getD current.duration
  lockAndCheck user.tenantId outletId tableIds startAt duration.minutes (some id)
  let phone := input.phone.getD current.phone
  let customerId ← query fun db => db.customerId user.tenantId outletId phone
  update (·.updateReservation id (input.apply customerId) fun _ => rfl)

def update (user : AuthUser) (outletId : String) (id : ℕ) (input : UpdateReservationInput) :
    ReservationMethod Unit := do
  assertOutlet user outletId
  autocommit .plain (updateTx user outletId id input)

def setStatusTx (user : AuthUser) (outletId : String) (id : ℕ) (status : ReservationStatus) :
    ReservationTx Unit := do
  let current ← lockReservation user.tenantId outletId id
  check (status ∈ reservationTransitions current.status)
    (.badRequest ("Cannot move a " ++ current.status.text ++ " reservation to " ++ status.text))
  -- to be reinstated, it claims its tables again
  whenever (status = .booked ∧ ¬current.Blocks)
    (lockAndCheck user.tenantId outletId current.tables current.startAt current.duration.minutes
      (some id))
  Tx.update (·.updateReservation id (fun r => { r with status := status }) fun _ => rfl)

/-- Confirm a reservation, cancel or reinstate it, or note that no one came. -/
def setStatus (user : AuthUser) (outletId : String) (id : ℕ) (status : ReservationStatus) :
    ReservationMethod Unit := do
  assertOutlet user outletId
  guardOr (status ≠ .seated) (.badRequest "Use seat to seat a reservation")
  autocommit .plain (setStatusTx user outletId id status)

/-- The party sits down at a table. -/
def Reservation.seat (tableId : String) (now : Time) (r : Reservation) : Reservation :=
  { r with
    status := .seated
    seatedAt := some now
    tables := if tableId ∈ r.tables then r.tables else r.tables ++ [tableId] }

def seatTx (user : AuthUser) (outletId : String) (id : ℕ) (tableId : Option String) (now : Time) :
    ReservationTx String := do
  let current ← lockReservation user.tenantId outletId id
  check (current.status = .booked ∨ current.status = .confirmed)
    (.badRequest ("A " ++ current.status.text ++ " reservation cannot be seated"))
  let target ← require (truthy (tableId <|> current.tables.head?))
    (.badRequest "Pick a table to seat this party")
  assertTableFree user.tenantId outletId target
  Tx.update (·.updateReservation id (·.seat target now) fun _ => rfl)
  return target

/-- Seat a party, at a table of its reservation or at another one. -/
def seat (user : AuthUser) (outletId : String) (id : ℕ) (tableId : Option String) (now : Time) :
    ReservationMethod Unit := do
  assertOutlet user outletId
  let _ ← atomically (.seated id) (seatTx user outletId id tableId now)
  return ()

/-- Other services change the orders at the tables. -/
def setOrders (orders : List TableOrder) : ReservationMethod Unit :=
  autocommit .plain (Tx.update fun db => { db with orders := orders })

/-! ### Side by side -/

inductive ReservationRequest
  | create (user : AuthUser) (outletId : String) (input : ReservationInput)
  | update (user : AuthUser) (outletId : String) (id : ℕ) (input : UpdateReservationInput)
  | setStatus (user : AuthUser) (outletId : String) (id : ℕ) (status : ReservationStatus)
  | seat (user : AuthUser) (outletId : String) (id : ℕ) (tableId : Option String) (now : Time)
  | setOrders (orders : List TableOrder)

def ReservationRequest.run : ReservationRequest → ReservationMethod Unit
  | .create user outletId input => Reservations.create user outletId input
  | .update user outletId id input => Reservations.update user outletId id input
  | .setStatus user outletId id status => Reservations.setStatus user outletId id status
  | .seat user outletId id tableId now => Reservations.seat user outletId id tableId now
  | .setOrders orders => Reservations.setOrders orders

abbrev ReservationWorld := World ReservationDb LockKey Note Empty Empty (Except ServiceError Unit)

/-- The methods side by side, before the first reservation. -/
def reservations : Machine ReservationWorld (WorldAction ReservationRequest Empty) :=
  serve (fun r : ReservationRequest => r.run.run) fun db _ => db.reservations = .empty

end StelloKitchens.Reservations
