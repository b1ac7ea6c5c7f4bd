import StelloKitchens.Shared.Service

/-!
# Low-stock alerts

A raw material whose stock falls to its reorder level is flagged and an alert is raised for it. A
sweep first clears the flags of the materials that are above their levels again, then reads those
that are low and not flagged, and then flags one after the other; whoever flips a flag tells the
recipients and stores the alert. Each of these is a statement of its own.

## Main definitions

* `RawMaterial`, `LowStockState`, `LowStockAlert`, `LowStockDb` — the tables, with the periods in
  which a material is low.
* `evaluate` — a sweep.
* `lowStock` — sweeps and changes of the materials, side by side.
-/

namespace StelloKitchens.LowStock

open Checked Tx Method
open Service (ServiceError)

/-! ### Rows -/

/-- A raw material, with its quantities in thousandths. -/
structure RawMaterial where
  id : ℕ
  tenantId : ℕ
  outletId : ℕ
  name : String
  unit : String
  stockQty : ℤ
  reorderLevel : ℤ
  deletedAt : Option Time
  /-- How many times it has become low. -/
  period : ℕ
  deriving DecidableEq

/-- At or below the reorder level. -/
def RawMaterial.low (m : RawMaterial) : Bool :=
  m.deletedAt = none ∧ 0 < m.reorderLevel ∧ m.stockQty ≤ m.reorderLevel

structure LowStockState where
  tenantId : ℕ
  outletId : ℕ
  rawMaterialId : ℕ
  isLow : Bool
  lastAlertAt : Option Time
  deriving DecidableEq

structure LowStockAlert where
  tenantId : ℕ
  outletId : ℕ
  rawMaterialId : ℕ
  materialName : String
  stockQty : ℤ
  reorderLevel : ℤ
  unit : String
  notified : ℕ
  /-- The period that gave rise to it. -/
  period : ℕ
  /-- The flip of the flag that it was raised for. -/
  flip : ℕ
  deriving DecidableEq

inductive Channel
  | sms
  | whatsapp
  | email
  deriving DecidableEq

structure LowStockRecipient where
  name : String
  phone : Option String
  email : Option String
  channels : List Channel

structure MessagingConfig where
  lowStockEnabled : Bool
  lowStockRecipients : Option (List LowStockRecipient)

/-- What is handed to the messaging service. -/
structure LowStockMessage where
  tenantId : ℕ
  outletId : ℕ
  channel : Channel
  recipient : String
  body : String
  vars : List String

/-! ### Tables -/

/-- A flag was set, under this number, for a material that was read in this period. -/
structure Flip where
  number : ℕ
  material : ℕ
  period : ℕ
  deriving DecidableEq

structure LowStockDb where
  now : Time
  materials : KeyedTable RawMaterial.id
  states : KeyedTable LowStockState.rawMaterialId
  alerts : List LowStockAlert
  outletName : ℕ → Option String
  config : ℕ → Option MessagingConfig
  flips : List Flip
  /-- The periods of materials in which a sweep has started and completed. -/
  swept : List (ℕ × ℕ)

/-- What a transaction locks. -/
inductive LockKey
  | state (rawMaterialId : ℕ)
  deriving DecidableEq

/-- What a commit is noted as. -/
inductive Note
  | plain
  /-- A material gets these columns. -/
  | material (m : RawMaterial)
  /-- The flags of these materials are cleared. -/
  | rearm (ids : List ℕ)
  /-- A material is flagged, which was read in this period. -/
  | flag (id period : ℕ)
  /-- A sweep is done. -/
  | done
  deriving DecidableEq

abbrev LowStockTx := Tx LowStockDb LockKey ServiceError
/-- The methods; the messaging service says whether it has taken a message. -/
abbrev LowStockMethod := Method LowStockDb LockKey Note LowStockMessage Bool ServiceError

/-! ### Materials -/

/-- A material with other columns; it may become low by that. -/
def RawMaterial.change (m old : RawMaterial) : RawMaterial :=
  { m with
    id := old.id
    tenantId := old.tenantId
    outletId := old.outletId
    period := if m.low ∧ ¬old.low then old.period + 1 else old.period }

theorem RawMaterial.change_id (m old : RawMaterial) : (m.change old).id = old.id := rfl

/-- A material as it is first stored. -/
def RawMaterial.fresh (m : RawMaterial) : RawMaterial := { m with period := if m.low then 1 else 0 }

/-- A movement of stock, another reorder level, a deletion or a new material. -/
def LowStockDb.setMaterial (db : LowStockDb) (m : RawMaterial) : LowStockDb :=
  { db with
    materials := db.materials.upsert m.fresh m.change fun old h => (m.change_id old).trans h }

/-- The material is flagged. -/
def LowStockDb.flagged (db : LowStockDb) (id : ℕ) : Bool :=
  (db.states.find? id).any (·.isLow)

/-- The material is one that the sweep looks at. -/
def inScope (outletId : Option ℕ) (m : RawMaterial) : Bool := outletId.all (· = m.outletId)

/-- The period that a material of the sweep is low in. -/
def LowStockDb.lowPeriod (db : LowStockDb) (outletId : Option ℕ) (id : ℕ) : Option ℕ :=
  ((db.materials.find? id).filter fun m => m.low ∧ inScope outletId m).map (·.period)

/-! ### Sweeps -/

/-- Flagged, and above the level again or deleted. -/
def LowStockDb.replenished (db : LowStockDb) (outletId : Option ℕ) : List ℕ :=
  (db.states.rows.filter fun s => s.isLow ∧ (db.materials.find? s.rawMaterialId).any fun m =>
    (m.reorderLevel < m.stockQty ∨ m.deletedAt ≠ none) ∧ inScope outletId m).map (·.rawMaterialId)

/-- The flags of these materials are cleared. -/
def LowStockDb.rearm (db : LowStockDb) (ids : List ℕ) : LowStockDb :=
  { db with
    states := db.states.modify (fun s => s.rawMaterialId ∈ ids) (fun s => { s with isLow := false })
      fun _ => rfl }

/-- What was above its level when the statement read it; rows that are locked are waited for. -/
def rearmTx (outletId : Option ℕ) : LowStockTx (List ℕ) := do
  let ids ← query (·.replenished outletId)
  acquireAll (ids.map .state)
  update (·.rearm ids)
  return ids

/-- Low and not flagged. -/
def LowStockDb.candidates (db : LowStockDb) (outletId : Option ℕ) : List RawMaterial :=
  db.materials.rows.filter fun m => m.low ∧ ¬db.flagged m.id ∧ inScope outletId m

/-- A state whose flag is set. -/
def LowStockState.set (now : Time) (s : LowStockState) : LowStockState :=
  { s with
    isLow := true
    lastAlertAt := some now }

theorem LowStockState.set_id (now : Time) (s : LowStockState) :
    (s.set now).rawMaterialId = s.rawMaterialId := rfl

/-- The material is flagged, by this number. -/
def LowStockDb.flag (db : LowStockDb) (m : RawMaterial) (now : Time) (number : ℕ) : LowStockDb :=
  { db with
    states := db.states.upsert ⟨m.tenantId, m.outletId, m.id, true, some now⟩
      (LowStockState.set now) fun s h => (s.set_id now).trans h
    flips := db.flips ++ [⟨number, m.id, m.period⟩] }

/-- Flag the material, unless it is flagged; whether the flag was flipped. -/
def flagTx (m : RawMaterial) : LowStockTx (Option ℕ) := do
  let now ← query (·.now)
  acquire (.state m.id)
  let flagged ← query (·.flagged m.id)
  if flagged then return none
  else do
    let number ← draw
    update (·.flag m now number)
    return some number

/-- A quantity in thousandths, as text. -/
def fmt (z : ℤ) : String :=
  let digits := ((padStart 3 (toString (z.natAbs % 1000))).toList.reverse.dropWhile (· = '0')).reverse
  (if z < 0 then "-" else "") ++ toString (z.natAbs / 1000) ++
    if digits = [] then "" else "." ++ String.ofList digits

/-- The messages to the recipients, on each of their channels that has an address. -/
def lowStockMessages (m : RawMaterial) (outletName : Option String) (cfg : Option MessagingConfig) :
    List LowStockMessage :=
  let qty := fmt m.stockQty ++ " " ++ m.unit
  let level := fmt m.reorderLevel ++ " " ++ m.unit
  let outlet := outletName.getD ""
  let body := "Low stock at " ++ outlet ++ ": " ++ m.name ++ " is down to " ++ qty ++
    " (reorder level " ++ level ++ ")."
  let recipients := ((cfg.filter (·.lowStockEnabled)).bind (·.lowStockRecipients)).getD []
  recipients.flatMap fun r => r.channels.filterMap fun channel =>
    (truthy (if channel = .email then r.email else r.phone)).map fun recipient =>
      ⟨m.tenantId, m.outletId, channel, recipient, body, [m.name, qty, level, outlet]⟩

/-- Hand a message to the messaging service, which may fail. -/
def enqueue (message : LowStockMessage) : LowStockMethod Unit := do
  let ok ← ask message
  guardOr (ok = true) .database

/-- Tell the recipients, and store the alert. -/
def raise (m : RawMaterial) (flip : ℕ) : LowStockMethod LowStockAlert := do
  let outletName ← look fun db => db.outletName m.outletId
  let cfg ← look fun db => db.config m.tenantId
  let messages := lowStockMessages m outletName cfg
  let _ ← messages.mapM enqueue
  let alert : LowStockAlert := ⟨m.tenantId, m.outletId, m.id, m.name, m.stockQty, m.reorderLevel,
    m.unit, messages.length, m.period, flip⟩
  atomically (fun _ => .plain) (update fun db => { db with alerts := db.alerts ++ [alert] })
  return alert

/-- Flag a candidate and raise the alert, unless it is flagged by now. -/
def flagCandidate (m : RawMaterial) : LowStockMethod (Option LowStockAlert) := do
  let flipped ← atomically (fun flipped => if flipped.isSome then .flag m.id m.period else .plain)
    (flagTx m)
  match flipped with
  | none => return none
  | some flip => do
    let alert ← raise m flip
    return some alert

/-- A sweep is done, which has seen materials low in these periods when it started. -/
def LowStockDb.complete (db : LowStockDb) (started : ℕ → Option ℕ) : LowStockDb :=
  { db with
    swept := db.swept ++ (db.materials.rows.filter fun m =>
      m.low ∧ started m.id = some m.period).map fun m => (m.id, m.period) }

/-- A sweep over an outlet, or all. -/
def evaluate (outletId : Option ℕ) : LowStockMethod (List LowStockAlert) := do
  let started ← look (·.lowPeriod outletId)
  let _ ← atomically .rearm (rearmTx outletId)
  let low ← look (·.candidates outletId)
  let raised ← low.mapM flagCandidate
  atomically (fun _ => .done) (update (·.complete started))
  return raised.filterMap id

/-! ### Side by side -/

inductive LowStockRequest
  /-- Time passes. -/
  | tick (ms : ℕ)
  /-- Stock moves, or a material is edited. -/
  | setMaterial (m : RawMaterial)
  | evaluate (outletId : Option ℕ)

def LowStockRequest.run : LowStockRequest → LowStockMethod Unit
  | .tick ms => atomically (fun _ => .plain) (update fun db => { db with now := db.now + ms })
  | .setMaterial m => atomically (fun _ => .material m) (update (·.setMaterial m))
  | .evaluate outletId => do
    let _ ← LowStock.evaluate outletId
    return ()

abbrev LowStockWorld := World LowStockDb LockKey Note LowStockMessage Bool (Except ServiceError Unit)

/-- The materials before the first of the requests: nothing that is low is flagged. -/
structure Started (db : LowStockDb) : Prop where
  flagged : ∀ m ∈ db.materials, m.low = true → db.flagged m.id = false
  alerts : db.alerts = []
  flips : db.flips = []
  swept : db.swept = []

/-- Sweeps and changes of the materials, side by side. -/
def lowStock : Machine LowStockWorld (WorldAction LowStockRequest Bool) :=
  serve (fun r : LowStockRequest => r.run.run) fun db _ => Started db

end StelloKitchens.LowStock
