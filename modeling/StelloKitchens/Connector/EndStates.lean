import StelloKitchens.Connector.Ingest

/-!
# End states of aggregator orders

The status of an aggregator order is written by three: by its ingestion, in the transaction that
inserts it; by the platform, whose reports are written as they come; and by the staff, whose
actions look at the order, ask the connector to tell the platform, and write the status when it has
agreed. An order that is delivered, rejected or cancelled is refused to the staff before the
platform is asked. Neither the platform's reports nor the write after the call look at it again.

## Main definitions

* `updateStatus`, `orderAction`, `ingest` — who writes the status of an order.
* `aggregatorSync` — all of them side by side.
* `endTerms` — the terms of end states.

## Main results

* `status_kept` — every request keeps the terms.
* `end_states_stay` — end states over all interleavings.
-/

namespace StelloKitchens.AggregatorSync

open Checked Tx Process Method Discipline Service
open Connector (AggregatorPlatform AggregatorStatus)

/-! ### Tables -/

/-- The end states of an order. -/
def endStates : List AggregatorStatus := [.delivered, .rejected, .cancelled]

def statusText : AggregatorStatus → String
  | .received => "received"
  | .accepted => "accepted"
  | .preparing => "preparing"
  | .ready => "ready"
  | .pickedUp => "picked_up"
  | .delivered => "delivered"
  | .rejected => "rejected"
  | .cancelled => "cancelled"

structure Outlet where
  id : String
  tenantId : String
  deriving DecidableEq

structure AggregatorOrder where
  id : ℕ
  tenantId : String
  outletId : String
  platform : AggregatorPlatform
  externalOrderId : String
  orderId : Option String
  status : AggregatorStatus
  deriving DecidableEq

def AggregatorOrder.key (r : AggregatorOrder) : AggregatorPlatform × String :=
  (r.platform, r.externalOrderId)

structure SyncDb where
  outlets : KeyedTable Outlet.id
  aggregatorOrders : KeyedTable AggregatorOrder.id
  deriving DecidableEq

inductive LockKey
  | aggregatorOrder (id : ℕ)
  /-- The unique key of an order. -/
  | key (key : AggregatorPlatform × String)
  deriving DecidableEq

/-- What a commit is about: the status that it writes to an order. -/
inductive Note
  | plain
  | status (id : ℕ) (status : AggregatorStatus)
  deriving DecidableEq

/-- What the connector is asked to tell a platform. -/
structure OrderStatusCall where
  platform : AggregatorPlatform
  externalOrderId : String
  status : AggregatorStatus
  prepTimeMins : Option ℕ
  deriving DecidableEq

inductive ConnectorReply
  | ok (simulated : Bool)
  | failed (error : String)

abbrev SyncTx (α : Type) := ServiceTx SyncDb LockKey α

abbrev SyncMethod := Method SyncDb LockKey Note OrderStatusCall ConnectorReply ServiceError

namespace SyncDb

def findOrder (db : SyncDb) (key : AggregatorPlatform × String) : Option AggregatorOrder :=
  db.aggregatorOrders.rows.find? fun r => r.key = key

/-- Update the row with an id. -/
def updateOrder (id : ℕ) (f : AggregatorOrder → AggregatorOrder) (hf : ∀ r, (f r).id = r.id)
    (db : SyncDb) : SyncDb :=
  { db with aggregatorOrders := db.aggregatorOrders.modify (fun r => r.id = id) f hf }

/-- Write the status of an order. -/
def setStatus (id : ℕ) (status : AggregatorStatus) : SyncDb → SyncDb :=
  updateOrder id (fun r => { r with status := status }) fun _ => rfl

end SyncDb

/-! ### Methods -/

/-- An order as it is ingested, with what its bill's part of the transaction comes to, if any of
its items is on the menu. -/
structure IngestInput where
  platform : AggregatorPlatform
  externalOrderId : String
  outletId : String
  bill : Option (Except ServiceError String)

def IngestInput.key (input : IngestInput) : AggregatorPlatform × String :=
  (input.platform, input.externalOrderId)

def ingestTx (tenantId : String) (input : IngestInput) : SyncTx ℕ := do
  -- the key comes first
  acquire (.key input.key)
  let existing ← query fun db => db.findOrder input.key
  check (existing = none) .p2002
  let id ← draw
  acquire (.aggregatorOrder id)
  update fun db => { db with
    aggregatorOrders := db.aggregatorOrders.put ⟨id, tenantId, input.outletId, input.platform,
      input.externalOrderId, none, .received⟩ }
  match input.bill with
  | none => return id
  | some bill => do
    let orderId ← ofExcept bill
    update (·.updateOrder id (fun r => { r with orderId := some orderId, status := .accepted })
      fun _ => rfl)
    return id

/-- Ingest an order; a delivery whose key is taken is answered with the row that is there. -/
def ingest (input : IngestInput) : SyncMethod (Option ℕ) := do
  let row ← look fun db => db.outlets.find? input.outletId
  let outlet ← getOr row (.notFound "Unknown outlet")
  tryCatch (do
      let id ← atomically (fun _ => .plain) (ingestTx outlet.tenantId input)
      return some id) fun
    | .p2002 => do
      let existing ← look fun db => db.findOrder input.key
      return existing.map (·.id)
    | e => throw e

/-- Write the status of an order, in a statement of its own. -/
def writeStatus (id : ℕ) (status : AggregatorStatus) : SyncMethod Unit := do
  let updated ← atomically (fun _ => .status id status) (updateWhere (.aggregatorOrder id)
    (fun db => (db.aggregatorOrders.find? id).isSome) (SyncDb.setStatus id status))
  guardOr (updated = true) .database

/-- The platform reports on an order. -/
def updateStatus (platform : AggregatorPlatform) (externalOrderId : String)
    (status : AggregatorStatus) : SyncMethod ℕ := do
  let row ← look fun db => db.findOrder (platform, externalOrderId)
  let agg ← getOr row (.notFound "Aggregator order not found")
  writeStatus agg.id status
  return agg.id

structure AggregatorOrderActionInput where
  status : AggregatorStatus
  status_ne : status ≠ .received
  prepTimeMins : Option ℕ

/-- A call of the connector, which may fail. -/
def connector (call : OrderStatusCall) : SyncMethod Bool := do
  match ← ask call with
  | .ok simulated => return simulated
  | .failed error => throw (.badRequest error)

/-- Accept, ready, dispatched, reject: the platform is told, and then the order moves. -/
def orderAction (user : AuthUser) (outletId : String) (aggregatorOrderId : ℕ)
    (input : AggregatorOrderActionInput) : SyncMethod Bool := do
  guardOr (outletId ∈ user.outletIds) (.forbidden "No access to outlet")
  let row ← look fun db => (db.aggregatorOrders.find? aggregatorOrderId).filter fun r =>
    r.tenantId = user.tenantId ∧ r.outletId = outletId
  let agg ← getOr row (.notFound "Aggregator order not found")
  guardOr (agg.status ∉ endStates) (.badRequest ("Order is already " ++ statusText agg.status))
  let simulated ← connector ⟨agg.platform, agg.externalOrderId, input.status, input.prepTimeMins⟩
  writeStatus agg.id input.status
  return simulated

/-! ### Side by side -/

inductive SyncRequest
  | ingest (input : IngestInput)
  | updateStatus (platform : AggregatorPlatform) (externalOrderId : String)
      (status : AggregatorStatus)
  | orderAction (user : AuthUser) (outletId : String) (aggregatorOrderId : ℕ)
      (input : AggregatorOrderActionInput)

def SyncRequest.run : SyncRequest → SyncMethod Unit
  | .ingest input => do
    let _ ← AggregatorSync.ingest input
    return ()
  | .updateStatus platform externalOrderId status => do
    let _ ← AggregatorSync.updateStatus platform externalOrderId status
    return ()
  | .orderAction user outletId aggregatorOrderId input => do
    let _ ← AggregatorSync.orderAction user outletId aggregatorOrderId input
    return ()

abbrev SyncWorld := World SyncDb LockKey Note OrderStatusCall ConnectorReply (Except ServiceError Unit)

/-- The methods side by side, before the first order. -/
def aggregatorSync : Machine SyncWorld (WorldAction SyncRequest ConnectorReply) :=
  serve (fun r : SyncRequest => r.run.run) fun db _ => db.aggregatorOrders = .empty

/-! ### Terms -/

/-- Orders in an end state stay in it. -/
def KeepsEnds (s s' : SyncDb) : Prop :=
  ∀ r ∈ s.aggregatorOrders.rows, r.status ∈ endStates →
    ∃ r' ∈ s'.aggregatorOrders.rows, r'.id = r.id ∧ r'.status = r.status

instance (s s' : SyncDb) : Decidable (KeepsEnds s s') :=
  inferInstanceAs (Decidable (∀ r ∈ s.aggregatorOrders.rows, r.status ∈ endStates →
    ∃ r' ∈ s'.aggregatorOrders.rows, r'.id = r.id ∧ r'.status = r.status))

theorem KeepsEnds.refl (s : SyncDb) : KeepsEnds s s := fun r hr _ => ⟨r, hr, rfl, rfl⟩

theorem KeepsEnds.trans {s s' s'' : SyncDb} (h : KeepsEnds s s') (h' : KeepsEnds s' s'') :
    KeepsEnds s s'' := by
  intro r hr hend
  obtain ⟨r', hr', hid, hsame⟩ := h r hr hend
  obtain ⟨r'', hr'', hid', hsame'⟩ := h' r' hr' (hsame ▸ hend)
  exact ⟨r'', hr'', hid'.trans hid, hsame'.trans hsame⟩

/-- What the commit of who holds these does to the tables. -/
structure EndStep (L : Hold LockKey → Prop) (s s' : SyncDb) : Prop where
  orders : TableStep LockKey.aggregatorOrder L s.aggregatorOrders s'.aggregatorOrders
  ends : KeepsEnds s s'

/-- The terms of end states: what is written to an order in an end state is that state. -/
def endTerms : Terms SyncDb LockKey Note (Except ServiceError Unit) where
  inv db n := ∀ r ∈ db.aggregatorOrders, r.id < n
  step := EndStep
  inv_mono hle h r hr := (h r hr).trans_le hle
  admits note _ db := match note with
    | .plain => True
    | .status id status => ∀ r ∈ db.aggregatorOrders.rows, r.id = id →
        r.status ∈ endStates → r.status = status
  said _ _ := True
  said_step _ _ _ h := h

instance (note : Note) (held : List (Hold LockKey)) (db : SyncDb) :
    Decidable (endTerms.admits note (· ∈ held) db) :=
  match note with
  | .plain => .isTrue trivial
  | .status id status => inferInstanceAs (Decidable (∀ r ∈ db.aggregatorOrders.rows, r.id = id →
      r.status ∈ endStates → r.status = status))

theorem regular : endTerms.toDiscipline.Regular where
  refl _ s := ⟨.refl _, .refl s⟩
  trans _ _ _ _ h h' := ⟨h.orders.trans h'.orders, h.ends.trans h'.ends⟩
  mono _ _ _ _ hL h := ⟨h.orders.mono hL, h.ends⟩

theorem order_guards (id : ℕ) :
    endTerms.toDiscipline.Guards (.aggregatorOrder id) fun db => db.aggregatorOrders.find? id :=
  @TableStep.guards _ _ _ _ _ endTerms.toDiscipline SyncDb.aggregatorOrders
    (fun _ _ _ h => h.orders) id

/-- The order is updated that is locked, and left in its status if that is an end state. -/
theorem keeping_updateOrder {L : Hold LockKey → Prop} {s : SyncDb} {n : ℕ} (hs : endTerms.inv s n)
    {id : ℕ} (hlock : L (.lock (.aggregatorOrder id))) {f : AggregatorOrder → AggregatorOrder}
    (hf : ∀ r, (f r).id = r.id)
    (hend : ∀ r ∈ s.aggregatorOrders, r.id = id → r.status ∈ endStates → (f r).status = r.status) :
    endTerms.inv (s.updateOrder id f hf) n ∧ EndStep L s (s.updateOrder id f hf) := by
  have hmem : ∀ x, x ∈ (s.updateOrder id f hf).aggregatorOrders ↔
      ∃ r ∈ s.aggregatorOrders, x = if r.id = id then f r else r := by
    intro x
    refine (KeyedTable.mem_modify hf).trans ?_
    simp only [decide_eq_true_eq]
  have hid : ∀ r : AggregatorOrder, (if r.id = id then f r else r).id = r.id := by
    intro r
    split
    · exact hf r
    · rfl
  refine ⟨fun x hx => ?_, .modify hf fun r _ hr => of_decide_eq_true hr ▸ hlock,
    fun r hr hstatus => ⟨_, (hmem _).mpr ⟨r, hr, rfl⟩, hid r, ?_⟩⟩
  · obtain ⟨r, hr, rfl⟩ := (hmem x).mp hx
    rw [hid]
    exact hs r hr
  · split
    · exact hend r hr ‹_› hstatus
    · rfl

/-- An order is inserted under a number that was drawn. -/
theorem keeping_put {L : Hold LockKey → Prop} {s : SyncDb} {n : ℕ} (hs : endTerms.inv s n)
    {r : AggregatorOrder} (hlock : L (.lock (.aggregatorOrder r.id))) (hnumber : L (.number r.id))
    (hlt : r.id < n) (hnew : s.aggregatorOrders.find? r.id = none) :
    endTerms.inv { s with aggregatorOrders := s.aggregatorOrders.put r } n ∧
      EndStep L s { s with aggregatorOrders := s.aggregatorOrders.put r } := by
  refine ⟨fun x hx => ?_, .put hlock fun _ => hnumber, fun x hx _ => ?_⟩
  · rcases KeyedTable.mem_put.mp hx with rfl | ⟨hx, -⟩
    · exact hlt
    · exact hs x hx
  · exact ⟨x, KeyedTable.mem_put.mpr (.inr ⟨hx, KeyedTable.find?_eq_none.mp hnew x hx⟩), rfl, rfl⟩

/-! ### Every request keeps the terms -/

theorem keeps_ingestTx (tenantId : String) (input : IngestInput) :
    (atomically (fun _ => .plain) (ingestTx tenantId input) : SyncMethod ℕ).Keeps
      endTerms.toDiscipline endTerms.admits := by
  refine keeps_atomically fun L K _ hK => ?_
  unfold ingestTx
  simp only [Discipline.wp_bind, wp_acquire, wp_update]
  refine wp_query_any (hK.add _) fun _ => wp_check fun _ => wp_draw (hK.add _) fun s id hs _ => ?_
  refine ⟨_, @TableStep.stable_absent _ _ _ _ _ _ endTerms.toDiscipline SyncDb.aggregatorOrders
    (fun _ _ _ h => h.orders) _ (.inl rfl), KeyedTable.find?_eq_none.mpr fun r hr => (hs r hr).ne, ?_⟩
  have hput := fun (J : SyncDb → Prop) => show endTerms.Commits
      (add (add (add L (.lock (.key input.key))) (.number id)) (.lock (.aggregatorOrder id)))
      (fun s => J s ∧ s.aggregatorOrders.find? id = none) _ from fun s n hs hdrawn hnew =>
    keeping_put (r := ⟨id, tenantId, input.outletId, input.platform, input.externalOrderId, none,
      .received⟩) hs (.inl rfl) (.inr (.inl rfl)) (hdrawn id (.inr (.inl rfl))) hnew.2
  cases input.bill with
  | none => exact ⟨_, Commits.to (regular.commits_mono (hput K) (fun _ h => h) fun _ h => h.1)⟩
  | some bill =>
    simp only [Discipline.wp_bind, wp_update, Discipline.wp_pure]
    refine wp_ofExcept fun orderId _ => ⟨_, Commits.to (regular.commits_comp
      (regular.commits_mono (hput K) (fun _ h => h) fun _ h => h.1) ?_)⟩
    rintro s n - - ⟨⟨-, hnew⟩, -⟩ hinv
    refine keeping_updateOrder hinv (.inl rfl) _ fun r hr hid hend => ?_
    -- the row is the one that was just inserted
    rcases KeyedTable.mem_put.mp hr with rfl | ⟨-, hne⟩
    · simp [endStates] at hend
    · exact absurd hid hne

theorem keeps_writeStatus (id : ℕ) (status : AggregatorStatus) :
    (writeStatus id status).Keeps endTerms.toDiscipline endTerms.admits := by
  refine (keeps_updateWhere_guarded regular (order_guards id) (c := Option.isSome) (fun _ => rfl)
    fun L s n hlock hs _ hadmits => ?_).bind fun _ => keeps_guardOr _ _
  exact keeping_updateOrder hs hlock _ fun r hr hid hend => (hadmits r hr hid hend).symm

theorem keeps_connector (call : OrderStatusCall) :
    (connector call).Keeps endTerms.toDiscipline endTerms.admits := by
  refine (keeps_ask call).bind fun reply => ?_
  cases reply with
  | ok simulated => exact keeps_pure _
  | failed error => exact keeps_throw _

/-- Every request keeps the terms, whatever the others do. -/
theorem status_kept (r : SyncRequest) : endTerms.Kept r.run.run := by
  refine Terms.kept_of_keeps ?_ fun _ _ => trivial
  cases r with
  | ingest input =>
    refine ((keeps_look _).bind fun _ => (keeps_getOr _ _).bind fun outlet =>
      keeps_tryCatch ((keeps_ingestTx _ _).bind fun _ => keeps_pure _) fun e => ?_).bind
        fun _ => keeps_pure _
    cases e with
    | p2002 => exact (keeps_look _).bind fun _ => keeps_pure _
    | _ => exact keeps_throw _
  | updateStatus platform externalOrderId status =>
    exact ((keeps_look _).bind fun _ => (keeps_getOr _ _).bind fun _ =>
      (keeps_writeStatus _ _).bind fun _ => keeps_pure _).bind fun _ => keeps_pure _
  | orderAction user outletId aggregatorOrderId input =>
    exact ((keeps_guardOr _ _).bind fun _ => (keeps_look _).bind fun _ =>
      (keeps_getOr _ _).bind fun _ => (keeps_guardOr _ _).bind fun _ =>
        (keeps_connector _).bind fun _ => (keeps_writeStatus _ _).bind fun _ => keeps_pure _).bind
          fun _ => keeps_pure _

def oneOutlet : SyncDb := ⟨.put .empty ⟨"o", "t"⟩, .empty⟩

theorem reach_oneOutlet {good : SyncWorld → WorldAction SyncRequest ConnectorReply → Prop} :
    aggregatorSync.Reach good (.atRest oneOutlet 1) :=
  .init ⟨rfl, rfl, rfl⟩

/-- An order is ingested, and the staff reports it ready; the connector is asked. -/
def readyRun : List (WorldAction SyncRequest ConnectorReply) :=
  .start 0 (.ingest ⟨.zomato, "Z1", "o", some (.ok "order")⟩) :: WorldAction.steps 0 12 ++
    .start 1 (.orderAction ⟨"u", "t", ["o"]⟩ "o" 1 ⟨.ready, by decide, none⟩) ::
      WorldAction.steps 1 2

/-- The connector agrees, and the action ends. -/
def agreedRun : List (WorldAction SyncRequest ConnectorReply) :=
  .reply 1 (.ok false) :: WorldAction.steps 1 6

/-- The platform reports on the order. -/
def reportRun (status : AggregatorStatus) : List (WorldAction SyncRequest ConnectorReply) :=
  .start 2 (.updateStatus .zomato "Z1" status) :: WorldAction.steps 2 6

end StelloKitchens.AggregatorSync
