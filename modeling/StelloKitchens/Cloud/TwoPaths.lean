import StelloKitchens.Cloud.Deliveries
import StelloKitchens.Cloud.Sync

/-!
# One sale over two paths

An order reaches the cloud through the ingest of the outbox, which stores it under the id of its
terminal, or through the sync endpoint, which stores it under the name the request gave: the id or
the device token. Both rely on the one unique key of the order table, so a sale is stored once as
long as all its deliveries give the terminal the same name.

## Main definitions

* `PathsState`, `PathsAction`, `bothPaths` — the cloud with the transactions of both paths.
* `Created` — an order that was stored, and the sale it is.
* `NamedBy` — deliveries of a sale give its terminal one name.

## Main results

* `created_once` — a sale whose deliveries agree on the name is stored once.
* `created_twice` — under the token and under the id it is stored twice.
-/

namespace StelloKitchens

open Checked CloudDb

/-! ### The machine -/

/-- A transaction that is running, for a sale of this terminal. -/
inductive PathAttempt
  | edge (a : Attempt)
  | sync (terminalId : String) (p : SyncedParams)

/-- An order that was stored: the sale it is, and the name it is stored under. -/
structure Created where
  terminalId : String
  clientId : String
  name : String
  deriving DecidableEq

def Created.sale (c : Created) : String × String := (c.terminalId, c.clientId)

def Created.saleKey (c : Created) : String × String := (c.name, c.clientId)

structure PathsState where
  db : CloudDb
  terminals : List Cloud.Terminal
  running : List PathAttempt
  /-- The orders stored since the start. -/
  created : List Created

inductive PathsAction
  /-- A delivery to the ingest. -/
  | push (device : EdgeDeviceContext) (order : EdgeOrderInput) (skewMs : ℤ)
  /-- A delivery to the sync endpoint. -/
  | syncPush (p : SyncedParams)
  /-- A transaction of the ingest reaches its end. -/
  | finish (n : ℕ) (r : Reads)
  /-- A transaction of the sync endpoint reaches its end. -/
  | syncFinish (n : ℕ) (r : SyncedReads)
  /-- A transaction is rolled back by a failure. -/
  | fail (n : ℕ)

namespace PathsState

/-- Commit or roll back a transaction of the ingest. -/
def commit (s : PathsState) (a : Attempt) (r : Reads) : PathsState :=
  match s.db.insertOrder a.device a.order a.skewMs r with
  | .ok (db, _) => { s with
      db := db
      created := s.created ++ [⟨a.device.terminalId, a.order.clientId, a.device.terminalId⟩] }
  | .error (.rejectOp message) => { s with db := s.db.fileRejected a.device a.order message }
  | .error _ => s

/-- Commit or roll back a transaction of the sync endpoint. -/
def syncCommit (s : PathsState) (terminalId : String) (p : SyncedParams) (r : SyncedReads) :
    PathsState :=
  match s.db.insertSynced p r with
  | .ok (db, .stored _) => { s with
      db := db
      created := s.created ++ [⟨terminalId, p.order.clientId, p.deviceId⟩] }
  | _ => s

def step (s : PathsState) : PathsAction → PathsState
  | .push device order skewMs =>
    if s.db.findOrder device order.clientId = none then
      { s with running := s.running ++ [.edge ⟨device, order, skewMs⟩] }
    else s
  | .syncPush p =>
    match findTerminal s.terminals p.tenantId p.outletId p.deviceId with
    | some t => { s with running := s.running ++ [.sync t.id p] }
    | none => s
  | .finish n r =>
    match s.running[n]? with
    | some (.edge a) => { s.commit a r with running := s.running.eraseIdx n }
    | _ => s
  | .syncFinish n r =>
    match s.running[n]? with
    | some (.sync t p) => { s.syncCommit t p r with running := s.running.eraseIdx n }
    | _ => s
  | .fail n => { s with running := s.running.eraseIdx n }

end PathsState

/-- The cloud with both paths, before any device has delivered an order. -/
def bothPaths : Machine PathsState PathsAction where
  init s := s.running = [] ∧ s.created = [] ∧ s.db.orders.rows = []
  step := PathsState.step

/-! ### One name -/

/-- A delivery names the terminal of its sale by this choice. The ingest names every terminal by
its id. -/
def NamedBy (nameOf : String → String → String) (s : PathsState) : PathsAction → Prop
  | .push device order _ => nameOf device.terminalId order.clientId = device.terminalId
  | .syncPush p => ∀ t ∈ findTerminal s.terminals p.tenantId p.outletId p.deviceId,
      nameOf t.id p.order.clientId = p.deviceId
  | _ => True

/-- The orders of the database are those created, under the chosen names. -/
structure CreatedBy (nameOf : String → String → String) (s : PathsState) : Prop where
  orders : s.db.orders.rows.map (·.saleKey) = s.created.map Created.saleKey
  created : ∀ c ∈ s.created, c.name = nameOf c.terminalId c.clientId
  edge : ∀ a, .edge a ∈ s.running →
    nameOf a.device.terminalId a.order.clientId = a.device.terminalId
  sync : ∀ t p, .sync t p ∈ s.running → nameOf t p.order.clientId = p.deviceId

namespace CreatedBy

variable {nameOf : String → String → String} {s : PathsState}

/-- An order stored under a free name is one more. -/
theorem store (h : CreatedBy nameOf s) {db : CloudDb} {row : Cloud.Order} {c : Created}
    (hfree : s.db.orders.find? row.saleKey = none) (hdb : db.orders = s.db.orders.put row)
    (hkey : row.saleKey = c.saleKey) (hname : c.name = nameOf c.terminalId c.clientId) :
    CreatedBy nameOf { s with db := db, created := s.created ++ [c] } where
  orders := by
    have hrows : (s.db.orders.put row).rows = s.db.orders.rows ++ [row] :=
      KeyedTable.rows_upsert_of_none (fun _ _ => rfl) hfree
    rw [hdb, hrows, List.map_append, List.map_append, h.orders, List.map_singleton, hkey]
    rfl
  created := by
    rw [List.forall_mem_append, List.forall_mem_singleton]
    exact ⟨h.created, hname⟩
  edge := h.edge
  sync := h.sync

theorem commit (h : CreatedBy nameOf s) {a : Attempt} (r : Reads) (ha : .edge a ∈ s.running) :
    CreatedBy nameOf (s.commit a r) := by
  unfold PathsState.commit
  split
  · rename_i db sale hsale
    obtain ⟨rfl, hfree, totals, lines, -, -, rfl⟩ := insertOrder_spec hsale
    exact h.store hfree.1 rfl rfl (h.edge a ha).symm
  · exact ⟨h.orders, h.created, h.edge, h.sync⟩
  · exact h

theorem syncCommit (h : CreatedBy nameOf s) {t : String} {p : SyncedParams} (r : SyncedReads)
    (hp : .sync t p ∈ s.running) : CreatedBy nameOf (s.syncCommit t p r) := by
  unfold PathsState.syncCommit
  split
  · rename_i db row hstored
    rcases insertSynced_spec hstored with ⟨-, id, hprevious⟩ | ⟨row', -, hkey, hfree, hdb⟩
    · cases hprevious
    · exact h.store hfree hdb hkey (h.sync t p hp).symm
  · exact h

theorem running_commit (a : Attempt) (r : Reads) : (s.commit a r).running = s.running := by
  unfold PathsState.commit
  split <;> rfl

theorem running_syncCommit (t : String) (p : SyncedParams) (r : SyncedReads) :
    (s.syncCommit t p r).running = s.running := by
  unfold PathsState.syncCommit
  split <;> rfl

/-- Fewer transactions run. -/
theorem erase (h : CreatedBy nameOf s) (n : ℕ) :
    CreatedBy nameOf { s with running := s.running.eraseIdx n } :=
  ⟨h.orders, h.created, fun a ha => h.edge a (List.mem_of_mem_eraseIdx ha),
    fun t p hp => h.sync t p (List.mem_of_mem_eraseIdx hp)⟩

/-- A delivery under the chosen name begins. -/
theorem begin (h : CreatedBy nameOf s) {a : PathAttempt}
    (hedge : ∀ b, a = .edge b → nameOf b.device.terminalId b.order.clientId = b.device.terminalId)
    (hsync : ∀ t p, a = .sync t p → nameOf t p.order.clientId = p.deviceId) :
    CreatedBy nameOf { s with running := s.running ++ [a] } where
  orders := h.orders
  created := h.created
  edge b hb := (List.mem_append.mp hb).elim (h.edge b) fun hb =>
    hedge b (List.mem_singleton.mp hb).symm
  sync t p hp := (List.mem_append.mp hp).elim (h.sync t p) fun hp =>
    hsync t p (List.mem_singleton.mp hp).symm

theorem step (h : CreatedBy nameOf s) (a : PathsAction) (hnamed : NamedBy nameOf s a) :
    CreatedBy nameOf (s.step a) := by
  cases a with
  | push device order skewMs =>
    unfold PathsState.step
    dsimp only
    split
    · exact h.begin (fun b hb => by cases hb; exact hnamed) (fun t p hp => by cases hp)
    · exact h
  | syncPush p =>
    unfold PathsState.step
    dsimp only
    split
    · rename_i t ht
      refine h.begin (fun b hb => by cases hb) fun t' p' hp => ?_
      cases hp
      exact hnamed t ht
    · exact h
  | finish n r =>
    unfold PathsState.step
    dsimp only
    split
    · rename_i a ha
      have := (h.commit r (List.mem_of_getElem? ha)).erase n
      rwa [running_commit] at this
    · exact h
  | syncFinish n r =>
    unfold PathsState.step
    dsimp only
    split
    · rename_i t p hp
      have := (h.syncCommit r (List.mem_of_getElem? hp)).erase n
      rwa [running_syncCommit] at this
    · exact h
  | fail n => exact h.erase n

end CreatedBy

theorem createdBy {nameOf : String → String → String} {s : PathsState}
    (hs : bothPaths.Reach (NamedBy nameOf) s) : CreatedBy nameOf s := by
  refine Machine.invariant ?_ (fun s a _ h hnamed => h.step a hnamed) hs
  rintro s ⟨hrunning, hcreated, horders⟩
  refine ⟨by rw [horders, hcreated]; rfl, ?_, ?_, ?_⟩
  · rw [hcreated]
    exact List.forall_mem_nil _
  · rw [hrunning]
    exact fun a ha => nomatch ha
  · rw [hrunning]
    exact fun t p hp => nomatch hp

/-- As long as all deliveries of a sale give its terminal the same name, one order is created for
it. -/
theorem created_once {nameOf : String → String → String} {s : PathsState}
    (hs : bothPaths.Reach (NamedBy nameOf) s) :
    s.db.orders.rows.map (·.saleKey) = s.created.map Created.saleKey ∧
      ∀ sale, (s.created.filter fun c => c.sale = sale).length ≤ 1 := by
  have h := createdBy hs
  refine ⟨h.orders, fun sale => ?_⟩
  have hkeys := s.db.orders.nodup_keys
  rw [h.orders] at hkeys
  -- The key an order is stored under follows from its sale.
  have hsale : s.created.map Created.saleKey =
      (s.created.map Created.sale).map fun k => (nameOf k.1 k.2, k.2) := by
    rw [List.map_map]
    apply List.map_congr_left
    intro c hc
    rw [Created.saleKey, h.created c hc]
    rfl
  rw [hsale] at hkeys
  have hnodup := hkeys.of_map
  have hcount := List.nodup_iff_count_le_one.mp hnodup sale
  rw [List.count_eq_countP, List.countP_map, List.countP_eq_length_filter] at hcount
  simpa only [Function.comp_def, beq_eq_decide] using hcount

/-! ### Two names -/

/-- The sale of a dosa as it is pushed to the sync endpoint, by a terminal of this name. -/
def sampleSynced (deviceId : String) : SyncedParams where
  tenantId := "tenant"
  outletId := "south"
  deviceId := deviceId
  order := {
    clientId := (sampleSale "dosa").clientId
    orderType := .takeaway
    tableId := none
    customerName := none
    customerPhone := none
    items := [⟨"dosa", none, [], 1, none, some (.ofRat (768 / 100)), some 12⟩]
    payments := [⟨.cash, .ofRat (860 / 100)⟩]
    status := .settled
    offlineRef := some "E01/2627/000001"
    discountAmount := none
    clientUpdatedAt := .iso 1793000001000 }

/-- What the transaction that stores the dosa reads, as the order with this id. -/
def sampleSyncedReads (orderId : ℕ) : SyncedReads where
  now := 1793000002000
  orderId := orderId
  tableExists := false
  previous := none
  openOrder := false
  billNumber := 1
  punched := .ok {
    rows := [⟨orderId, 0, "dosa", "Dosa", none, none, 1, .ofRat (768 / 100), .ofRat (768 / 100), 12,
      none, some 0, none, none, none, false, .pending, none, []⟩]
    kot := ⟨orderId, 0, "tenant", "south", 1, .pending, 1793000002000⟩
    consumption := [("batter", .ofRat (1 / 4))]
    totals := ⟨.ofRat (768 / 100), 0, .ofRat (92 / 100), .ofRat (860 / 100)⟩ }

def PathsState.sample : PathsState :=
  ⟨sampleCloud, [⟨"terminal", "tenant", "south", "token", true⟩], [], []⟩

/-- The dosa is pushed to the sync endpoint under this name, then to the ingest. -/
def syncThenPush (deviceId : String) : List PathsAction :=
  [.syncPush (sampleSynced deviceId), .syncFinish 0 (sampleSyncedReads 1),
    .push sampleDevice (sampleSale "dosa") 0,
    .finish 0 { sampleCloud.reads sampleDevice (sampleSale "dosa") 1793000003000 with
      orderId := 2 }]

/-- Under the id of the terminal on both paths, the dosa is stored once. -/
theorem created_once_byId :
    let s := bothPaths.run .sample (syncThenPush "terminal")
    s.created.length = 1 ∧
      ∀ sale, (s.created.filter fun c => c.sale = sale).length ≤ 1 := by
  have hfind : findTerminal PathsState.sample.terminals "tenant" "south" "terminal" =
      some ⟨"terminal", "tenant", "south", "token", true⟩ := by decide +kernel
  have hgood : bothPaths.GoodRun (NamedBy fun t _ => t) .sample (syncThenPush "terminal") := by
    refine ⟨fun t ht => ?_, trivial, rfl, trivial, trivial⟩
    rw [← Option.some_inj.mp (hfind.symm.trans ht)]
    rfl
  exact ⟨by decide +kernel,
    (created_once (Machine.reach_run _ (.init ⟨rfl, rfl, rfl⟩) hgood)).2⟩

/-- Under the device token on one path, the dosa is stored a second time on the other, and its
batter taken a second time. -/
theorem created_twice :
    let s := bothPaths.run .sample (syncThenPush "token")
    s.created.map Created.sale =
        [("terminal", (sampleSale "dosa").clientId), ("terminal", (sampleSale "dosa").clientId)] ∧
      s.db.orders.rows.map (·.deviceId) = ["token", "terminal"] ∧
        s.db.rawMaterials.rows.map (·.stockQty) = [19 / 2] := by
  refine ⟨?_, ?_, ?_⟩ <;> decide +kernel

end StelloKitchens
