import StelloKitchens.Edge.Push
import StelloKitchens.Lib.Machine

/-!
# The device as a machine

The operator, the kitchen screens, the sync loop and the retention job act on one device, one
transaction at a time, in any order. A push waits for its answer between two transactions; the
answer may be anything, or never come, and the device may restart at any point.

The machine also remembers which random ids were drawn and which orders a purge removed. Neither
is read by the device: a random id is never drawn twice, and that is all `issued` is used for.

## Main definitions

* `EdgeState`, `EdgeAction`, `EdgeState.step` — the device and what can happen to it.
* `edgeEngine` — the machine, started on an empty database.
-/

namespace StelloKitchens

open Checked

/-! ### Activation -/

/-- What the cloud answers to an activation. -/
structure Activation where
  deviceToken : String
  edgeDeviceId : String
  terminalId : String
  seriesCode : SeriesCode

namespace EdgeDb

/-- The outlets of an account, as a refusal lists them. -/
def outletList (outlets : List (String × String)) : String :=
  String.intercalate ", " (outlets.map fun o => o.1 ++ " (" ++ o.2 ++ ")")

/-- The outlet a device is bound to: the one it has, the one asked for, or the only one. -/
def bindTarget (db : EdgeDb) (outlets : List (String × String)) (outletId : Option String) :
    Except EdgeError String := do
  ensure (outlets ≠ []) (.bad "This account has no accessible outlets")
  let only := match outlets with
    | [o] => some o.1
    | _ => none
  let bound := db.settings.outletId
  let target ← orThrow (truthy (bound <|> outletId <|> only))
    (.bad ("This account can access multiple outlets — specify which one to bind this device " ++
      "to. Available: " ++ outletList outlets))
  ensure (∀ b ∈ truthy bound, ∀ o ∈ truthy outletId, o = b)
    (.bad ("Device is already bound to outlet " ++ bound.getD "" ++ "; refusing to rebind to " ++
      outletId.getD "" ++ ". Re-provision (clear device data) to move it."))
  ensure (target ∈ outlets.map (·.1))
    (.bad ("Outlet " ++ target ++ " is not accessible to this account. Available: " ++
      outletList outlets))
  return target

/-- Bind the device to an outlet under a fresh activation. -/
def bootstrap (db : EdgeDb) (outlets : List (String × String)) (outletId : Option String)
    (act : Activation) : Except EdgeError EdgeDb := do
  let target ← db.bindTarget outlets outletId
  return { db with settings := { db.settings with
    outletId := some target
    deviceToken := some act.deviceToken
    edgeDeviceId := some act.edgeDeviceId
    terminalId := some act.terminalId
    deviceId := act.terminalId
    seriesCode := some act.seriesCode } }

/-- One page of the change feed and its cursor, committed together. -/
def applyFeed (db : EdgeDb) (feed : EdgeFeed) : EdgeDb :=
  { db with
    catalog := db.catalog.applyFeed feed
    settings := { db.settings with feedCursor := feed.cursor } }

/-- A member of staff acknowledges a conflict. -/
def acknowledgeConflict (db : EdgeDb) (now : Time) (id : ℕ) (staffId : Option String) : EdgeDb :=
  { db with
    conflicts := db.conflicts.map fun c =>
      if c.id = id ∧ c.acknowledgedAt = none then
        { c with acknowledgedAt := some now, acknowledgedBy := truthy staffId }
      else c }

/-- An empty database on a device that has been given a name. -/
def fresh (deviceId : String) : EdgeDb where
  settings := ⟨deviceId, none, none, none, none, none, 0, 0, 0⟩
  catalog := .empty
  orders := .empty
  outbox := .empty
  outboxSeq := 0
  conflicts := []
  conflictSeq := 0
  billSeries := .empty
  kots := .empty

end EdgeDb

/-! ### The machine -/

structure EdgeState where
  db : EdgeDb
  /-- The request a push is waiting for. -/
  awaiting : Option PushRequest
  /-- The random ids drawn so far. -/
  issued : List Uuid
  /-- The orders that were purged. -/
  purged : List Order

/-- What can happen to a device. -/
inductive EdgeAction
  | create (now : Time) (clientId : Uuid) (input : EdgeDb.CreateInput)
  | addItems (now : Time) (clientId : Uuid) (input : EdgeDb.AddInput)
  | settle (now : Time) (clientId : Uuid) (input : EdgeDb.SettleInput)
  | cancel (now : Time) (clientId : Uuid) (staffId reason : Option String)
  | advance (now : Time) (update : Uuid) (kotId : KotId) (toStatus : String)
  | pushSend (now : Time)
  | pushReply (now : Time) (random : ℕ → Binary64) (reply : PushReply)
  | pushFail
  | purge (now : Time) (orderDays outboxDays : ℤ)
  | applyFeed (feed : EdgeFeed)
  | bootstrap (outlets : List (String × String)) (outletId : Option String) (act : Activation)
  | acknowledge (now : Time) (id : ℕ) (staffId : Option String)
  | restart

namespace EdgeState

/-- The state with another database; a refused operation leaves it as it was. -/
def commit (s : EdgeState) (res : Except EdgeError (Order × EdgeDb)) : EdgeState :=
  match res with
  | .ok (_, db) => { s with db := db }
  | .error _ => s

/-- Run an operation that draws a random id. -/
def drawing (s : EdgeState) (id : Uuid) (res : Except EdgeError EdgeDb) : EdgeState :=
  match res with
  | .ok db => if id ∈ s.issued then s else { s with db := db, issued := id :: s.issued }
  | .error _ => s

/-- The first half of a push round, unless another push is waiting. -/
def send (s : EdgeState) (now : Time) : EdgeState :=
  match s.awaiting with
  | some _ => s
  | none =>
    let (db, req) := s.db.pushSend now
    { s with db := db, awaiting := req }

/-- The second half of a push round. -/
def receive (s : EdgeState) (now : Time) (random : ℕ → Binary64) (reply : PushReply) :
    EdgeState :=
  match s.awaiting with
  | none => s
  | some req => { s with db := s.db.applyReply now random req reply, awaiting := none }

/-- Retention; the orders it removes are remembered. -/
def purge (s : EdgeState) (now : Time) (orderDays outboxDays : ℤ) : EdgeState :=
  { s with
    db := s.db.purge now orderDays outboxDays
    purged := s.purged ++ (s.db.orders.rows.filter
      (OrderRow.purgeable (now - orderDays * dayMs))).map (·.state) }

def step (s : EdgeState) : EdgeAction → EdgeState
  | .create now clientId input => s.drawing clientId (Prod.snd <$> s.db.createOrder now clientId input)
  | .addItems now clientId input => s.commit (s.db.addItems now clientId input)
  | .settle now clientId input => s.commit (s.db.settleOrder now clientId input)
  | .cancel now clientId staffId reason => s.commit (s.db.cancelOrder now clientId staffId reason)
  | .advance now update kotId toStatus => s.drawing update (s.db.advanceTicket now update kotId toStatus)
  | .pushSend now => s.send now
  | .pushReply now random reply => s.receive now random reply
  | .pushFail => { s with awaiting := none }
  | .purge now orderDays outboxDays => s.purge now orderDays outboxDays
  | .applyFeed feed => { s with db := s.db.applyFeed feed }
  | .bootstrap outlets outletId act =>
    match s.db.bootstrap outlets outletId act with
    | .ok db => { s with db := db }
    | .error _ => s
  | .acknowledge now id staffId => { s with db := s.db.acknowledgeConflict now id staffId }
  | .restart => { s with awaiting := none }

/-- A device before its first operation. -/
def fresh (deviceId : String) : EdgeState := ⟨EdgeDb.fresh deviceId, none, [], []⟩

end EdgeState

/-- The device, started on an empty database. -/
def edgeEngine : Machine EdgeState EdgeAction where
  init s := ∃ deviceId, s = .fresh deviceId
  step := EdgeState.step

/-! ### A first day -/

section FirstDay

/-- A menu of two items and a combo. -/
def sampleMenu : EdgeFeed where
  cursor := 3
  changes :=
    [⟨(.item, "dosa"), 1, some (.item ⟨"dosa", "south", "Dosa", none, .ofRat (768 / 100), true,
        true, 12, 0, [], []⟩)⟩,
      ⟨(.item, "cake"), 2, some (.item ⟨"cake", "bakery", "Cake", none, .ofRat (1573 / 100), true,
        true, 18, 1, [], []⟩)⟩,
      ⟨(.combo, "meal"), 3, some (.combo ⟨"meal", "south", "Meal", .ofRat (1664 / 100), true, true,
        5, []⟩)⟩]
  hasMore := false
  reset := false

def sampleActivation : Activation where
  deviceToken := "token"
  edgeDeviceId := "device"
  terminalId := "terminal"
  seriesCode := ⟨"E01", 1, by decide +kernel⟩

/-- A random id that ends in the given digit. -/
def sampleUuid (n : Fin 10) : Uuid where
  text := "00000000-0000-4000-8000-00000000000" ++ toString n.val
  wellFormed := by
    revert n
    decide +kernel

/-- The id of the first order of a day. -/
def sampleClientId : Uuid := sampleUuid 0

/-- A takeaway order of these items and combos, one of each. -/
def sampleOrder (items combos : List String) : EdgeDb.CreateInput where
  orderType := none
  tableId := none
  customerName := none
  customerPhone := none
  deliveryAddress := none
  items := items.map fun id => ⟨id, 1, none, [], none⟩
  combos := combos.map fun id => ⟨id, 1, [], none⟩
  staffId := none
  allowCloudOccupied := false

/-- A settlement in cash. -/
def sampleCash (amount : Binary64) : EdgeDb.SettleInput where
  payments := [⟨"CASH", amount, none⟩]
  discountAmount := none
  couponCode := none
  staffId := none

/-- The device is activated, loads its menu, and sells a dosa. -/
def sampleDay : List EdgeAction :=
  [.bootstrap [("outlet", "Main")] none sampleActivation, .applyFeed sampleMenu,
    .create 1793000000000 (sampleUuid 0) (sampleOrder ["dosa"] []),
    .settle 1793000001000 (sampleUuid 0) (sampleCash (.ofRat (860 / 100)))]

end FirstDay

end StelloKitchens
