import StelloKitchens.Lib.KeyedTable
import StelloKitchens.Lib.Machine
import StelloKitchens.Shared.Amount
import StelloKitchens.Shared.EdgeProtocol
import StelloKitchens.Shared.Service
import Mathlib.Data.Prod.Lex
import Mathlib.Data.List.Sort
import Mathlib.Data.String.Basic

/-!
# Pulling orders

A terminal that is online pulls the orders of its outlet that have changed: each pull returns a
page of them, in the order of the time and the id at which they were written last, and a cursor,
the place of the last of the page, from which the next pull goes on. A writer's statement stamps an
order with the time at which it runs, and the order is seen from the writer's commit on.

What is not beyond the cursor has been delivered, as long as every order is beyond the cursor when
it is committed.

## Main definitions

* `pull` — one pull.
* `orderSync` — writers and the pulls of a terminal, in any order.
* `CommitsBeyond` — what a commit changes is beyond the terminal's cursor.

## Main results

* `covered_pull` — after a pull, what is not beyond the cursor has been delivered.
* `pull_complete` — when a pull returns nothing, every order has been delivered as it is.
-/

namespace StelloKitchens.OrderSync

open Checked Service

/-! ### Orders -/

structure Order where
  id : String
  id_ne : id ≠ ""
  tenantId : String
  outletId : String
  deviceId : Option String
  clientId : Option String
  billNumber : Option String
  status : OrderStatus
  orderType : OrderType
  total : Decimal 10 2
  /-- When the statement ran that wrote the row last. -/
  updatedAt : Time
  deriving DecidableEq

/-- An order as a terminal gets it. -/
structure SyncPulledOrder where
  id : String
  deviceId : Option String
  clientId : Option String
  billNumber : Option String
  status : OrderStatus
  orderType : OrderType
  total : Binary64
  updatedAt : Time
  deriving DecidableEq

namespace Order

def dto (o : Order) : SyncPulledOrder :=
  ⟨o.id, o.deviceId, o.clientId, o.billNumber, o.status, o.orderType, o.total.toNumber, o.updatedAt⟩

/-- The place of an order among those that are pulled. -/
def place (o : Order) : Time ×ₗ String := toLex (o.updatedAt, o.id)

end Order

/-! ### A pull -/

/-- Where the next pull goes on. -/
structure SyncCursor where
  t : Time
  id : String
  deriving DecidableEq

/-- The order is beyond the cursor; with no cursor every order after the epoch is. -/
def Beyond (since : Option SyncCursor) (o : Order) : Prop :=
  (since.map (·.t)).getD 0 < o.updatedAt ∨
    ∃ c ∈ since, c.id ≠ "" ∧ o.updatedAt = c.t ∧ c.id < o.id

instance (since : Option SyncCursor) (o : Order) : Decidable (Beyond since o) := by
  unfold Beyond
  infer_instance

/-- The orders of the next page. -/
def changedOrders (user : AuthUser) (outletId : String) (since : Option SyncCursor)
    (orders : List Order) : List Order :=
  ((orders.filter fun o => o.tenantId = user.tenantId ∧ o.outletId = outletId ∧ Beyond since o)
    |>.insertionSort fun o o' => o.place ≤ o'.place).take 200

/-- The place of the last of a page; after an empty page, where the pull began. -/
def nextCursor (since : Option SyncCursor) (now : Time) (orders : List Order) : SyncCursor :=
  match orders.getLast? with
  | some last => ⟨last.updatedAt, last.id⟩
  | none => since.getD ⟨now, ""⟩

structure SyncPull where
  orders : List SyncPulledOrder
  cursor : SyncCursor

/-- The orders that have changed since a cursor. -/
def pull (user : AuthUser) (outletId : String) (since : Option SyncCursor) (orders : List Order)
    (now : Time) : Except ServiceError SyncPull := do
  ensure (outletId ∈ user.outletIds) (.forbidden "No access to outlet")
  let orders := changedOrders user outletId since orders
  return ⟨orders.map (·.dto), nextCursor since now orders⟩

/-! ### Writers and a terminal -/

inductive Change
  | put (o : Order)
  | delete (id : String)
  deriving DecidableEq

namespace Change

def id : Change → String
  | .put o => o.id
  | .delete id => id

def apply (orders : KeyedTable Order.id) : Change → KeyedTable Order.id
  | .put o => orders.put o
  | .delete id => orders.delete fun o => o.id = id

end Change

/-- The orders that are committed, the statements of the writers that have not committed, and what
the terminal has: its cursor, and what was delivered to it. -/
structure SyncWorld where
  now : Time
  orders : KeyedTable Order.id
  writes : List (ℕ × Change)
  since : Option SyncCursor
  delivered : List SyncPulledOrder
  deriving DecidableEq

inductive SyncAction
  | tick (ms : ℕ)
  /-- A statement of a writer inserts an order or updates it. -/
  | write (writer : ℕ) (o : Order)
  | delete (writer : ℕ) (id : String)
  | commit (writer : ℕ)
  | rollback (writer : ℕ)
  | pull

namespace SyncWorld

/-- Another writer has written the order and not committed yet. -/
def lockedFor (w : SyncWorld) (writer : ℕ) (id : String) : Prop :=
  ∃ p ∈ w.writes, p.1 ≠ writer ∧ p.2.id = id

instance (w : SyncWorld) (writer : ℕ) (id : String) : Decidable (w.lockedFor writer id) :=
  inferInstanceAs (Decidable (∃ p ∈ w.writes, p.1 ≠ writer ∧ p.2.id = id))

/-- A statement runs, unless it has to wait for another writer. -/
def record (w : SyncWorld) (writer : ℕ) (c : Change) : SyncWorld :=
  if w.lockedFor writer c.id then w else { w with writes := w.writes ++ [(writer, c)] }

/-- The orders after a writer's commit. -/
def committed (w : SyncWorld) (writer : ℕ) : KeyedTable Order.id :=
  ((w.writes.filter (·.1 = writer)).map (·.2)).foldl Change.apply w.orders

/-- The terminal pulls with the cursor that it has. -/
def pulled (user : AuthUser) (outletId : String) (w : SyncWorld) : SyncWorld :=
  match pull user outletId w.since w.orders.rows w.now with
  | .ok page => { w with since := some page.cursor, delivered := w.delivered ++ page.orders }
  | .error _ => w

def step (user : AuthUser) (outletId : String) (w : SyncWorld) : SyncAction → SyncWorld
  | .tick ms => { w with now := w.now + ms }
  | .write writer o => w.record writer (.put { o with updatedAt := w.now })
  | .delete writer id => w.record writer (.delete id)
  | .commit writer => { w with
      orders := w.committed writer
      writes := w.writes.filter (·.1 ≠ writer) }
  | .rollback writer => { w with writes := w.writes.filter (·.1 ≠ writer) }
  | .pull => w.pulled user outletId

end SyncWorld

/-- Writers, and a terminal that starts without a cursor, in any order. -/
def orderSync (user : AuthUser) (outletId : String) : Machine SyncWorld SyncAction where
  init w := (∀ o ∈ w.orders.rows, 0 < o.updatedAt) ∧ 0 < w.now ∧ w.writes = [] ∧ w.since = none ∧
    w.delivered = []
  step := SyncWorld.step user outletId

/-- The orders of the outlet that a commit changes are beyond the terminal's cursor. -/
def CommitsBeyond (user : AuthUser) (outletId : String) (w : SyncWorld) : SyncAction → Prop
  | .commit writer => ∀ o ∈ (w.committed writer).rows, o ∉ w.orders.rows →
      o.tenantId = user.tenantId → o.outletId = outletId → Beyond w.since o
  | _ => True

instance (user : AuthUser) (outletId : String) (w : SyncWorld) (a : SyncAction) :
    Decidable (CommitsBeyond user outletId w a) :=
  match a with
  | .commit writer => inferInstanceAs (Decidable (∀ o ∈ (w.committed writer).rows,
      o ∉ w.orders.rows → o.tenantId = user.tenantId → o.outletId = outletId → Beyond w.since o))
  | .tick _ | .write _ _ | .delete _ _ | .rollback _ | .pull => .isTrue trivial

/-! ### The cursor -/

section Cursor

variable {user : AuthUser} {outletId : String} {since : Option SyncCursor} {orders : List Order}
  {o last : Order}

instance : Std.Total fun o o' : Order => o.place ≤ o'.place := ⟨fun _ _ => le_total _ _⟩

instance : IsTrans Order fun o o' => o.place ≤ o'.place := ⟨fun _ _ _ => le_trans⟩

theorem Order.eq_of_place {o o' : Order} (h : o.place = o'.place) : o.id = o'.id :=
  (Prod.mk.inj (toLex.injective h)).2

/-- Beyond the cursor of an order are those whose place comes after it. -/
theorem beyond_place : Beyond (some ⟨last.updatedAt, last.id⟩) o ↔ last.place < o.place := by
  simp only [Beyond, Order.place, Prod.Lex.toLex_lt_toLex, Option.map_some, Option.getD_some,
    Option.mem_def, Option.some.injEq, exists_eq_left', ne_eq, last.id_ne, not_false_eq_true,
    true_and, eq_comm (a := o.updatedAt)]

/-- An order that is beyond the cursor and not beyond the last of the page is on the page. -/
theorem mem_changedOrders_of_not_beyond (hunique : (orders.map Order.id).Nodup) (ho : o ∈ orders)
    (htenant : o.tenantId = user.tenantId) (houtlet : o.outletId = outletId)
    (hbeyond : Beyond since o)
    (hlast : (changedOrders user outletId since orders).getLast? = some last)
    (hnot : ¬last.place < o.place) : o ∈ changedOrders user outletId since orders := by
  unfold changedOrders at hlast ⊢
  set sorted := (orders.filter fun o =>
    o.tenantId = user.tenantId ∧ o.outletId = outletId ∧ Beyond since o).insertionSort
      fun o o' => o.place ≤ o'.place with hsorted
  have hmem : o ∈ sorted :=
    (List.mem_insertionSort _).mpr (List.mem_filter.mpr ⟨ho, by simp [htenant, houtlet, hbeyond]⟩)
  have hpairwise : sorted.Pairwise fun o o' => o.place ≤ o'.place := List.pairwise_insertionSort _ _
  rw [← List.take_append_drop 200 sorted] at hmem hpairwise
  rcases List.mem_append.mp hmem with htake | hdrop
  · exact htake
  -- an order of the rest comes after the last of the page, so it has the place of that
  have hlast' := List.mem_of_getLast? hlast
  have hle := (List.pairwise_append.mp hpairwise).2.2 last hlast' o hdrop
  have hid := Order.eq_of_place (le_antisymm hle (not_lt.mp hnot))
  have horders : last ∈ orders := (List.mem_filter.mp
    ((List.mem_insertionSort _).mp (List.mem_of_mem_take hlast'))).1
  rwa [← List.inj_on_of_nodup_map hunique horders ho hid]

/-- After an empty page no order of the outlet is beyond the cursor. -/
theorem not_beyond_of_changedOrders (hnil : changedOrders user outletId since orders = [])
    (ho : o ∈ orders) (htenant : o.tenantId = user.tenantId) (houtlet : o.outletId = outletId) :
    ¬Beyond since o := by
  intro hbeyond
  have hsorted := (List.take_eq_nil_iff.mp hnil).resolve_left (by decide)
  have hmem : o ∈ orders.filter fun o =>
      o.tenantId = user.tenantId ∧ o.outletId = outletId ∧ Beyond since o :=
    List.mem_filter.mpr ⟨ho, decide_eq_true ⟨htenant, houtlet, hbeyond⟩⟩
  rw [← List.mem_insertionSort fun o o' : Order => o.place ≤ o'.place, hsorted] at hmem
  exact List.not_mem_nil hmem

/-- What is not beyond the next cursor was not beyond the last one, or is on the page. -/
theorem mem_changedOrders_of_nextCursor {now : Time} (hunique : (orders.map Order.id).Nodup)
    (ho : o ∈ orders) (htenant : o.tenantId = user.tenantId) (houtlet : o.outletId = outletId)
    (hnot : ¬Beyond (some (nextCursor since now (changedOrders user outletId since orders))) o) :
    ¬Beyond since o ∨ o ∈ changedOrders user outletId since orders := by
  by_cases hbeyond : Beyond since o
  · right
    cases hlast : (changedOrders user outletId since orders).getLast? with
    | some last =>
      simp only [nextCursor, hlast, beyond_place] at hnot
      exact mem_changedOrders_of_not_beyond hunique ho htenant houtlet hbeyond hlast hnot
    | none =>
      exact absurd hbeyond (not_beyond_of_changedOrders (List.getLast?_eq_none_iff.mp hlast) ho
        htenant houtlet)
  · exact .inl hbeyond

end Cursor

/-! ### Runs -/

variable {user : AuthUser} {outletId : String}

/-- What is not beyond the terminal's cursor has been delivered to it. -/
def Covered (user : AuthUser) (outletId : String) (w : SyncWorld) : Prop :=
  ∀ o ∈ w.orders, o.tenantId = user.tenantId → o.outletId = outletId →
    ¬Beyond w.since o → o.dto ∈ w.delivered

theorem pull_eq_ok {since : Option SyncCursor} {orders : List Order} {now : Time} {page : SyncPull} :
    pull user outletId since orders now = .ok page ↔ outletId ∈ user.outletIds ∧
      ⟨(changedOrders user outletId since orders).map (·.dto),
        nextCursor since now (changedOrders user outletId since orders)⟩ = page := by
  simp only [pull, bind_eq_ok, ensure_eq_ok, pure_eq_ok, exists_const]

theorem covered_pull {w : SyncWorld} (h : Covered user outletId w) :
    Covered user outletId (w.pulled user outletId) := by
  unfold SyncWorld.pulled
  split
  · obtain ⟨-, rfl⟩ := pull_eq_ok.mp ‹_›
    intro o ho htenant houtlet hnot
    rw [List.mem_append]
    exact (mem_changedOrders_of_nextCursor w.orders.nodup_keys ho htenant houtlet hnot).imp
      (h o ho htenant houtlet) (List.mem_map_of_mem (f := Order.dto))
  · exact h

theorem covered_step {w : SyncWorld} (h : Covered user outletId w) (a : SyncAction)
    (hgood : CommitsBeyond user outletId w a) :
    Covered user outletId (w.step user outletId a) := by
  cases a with
  | commit writer =>
    intro o ho htenant houtlet hnot
    by_cases hold : o ∈ w.orders
    · exact h o hold htenant houtlet hnot
    · exact absurd (hgood o ho hold htenant houtlet) hnot
  | pull => exact covered_pull h
  | write writer o =>
    show Covered user outletId (w.record writer _)
    unfold SyncWorld.record
    split <;> exact h
  | delete writer id =>
    show Covered user outletId (w.record writer _)
    unfold SyncWorld.record
    split <;> exact h
  | _ => exact h

/-- When a pull returns nothing, every order of the outlet has been delivered as it is, if what
commits changed was beyond the cursor at the time. -/
theorem pull_complete {w : SyncWorld}
    (h : (orderSync user outletId).Reach (CommitsBeyond user outletId) w) {page : SyncPull}
    (hpull : pull user outletId w.since w.orders.rows w.now = .ok page) (hempty : page.orders = []) :
    ∀ o ∈ w.orders, o.tenantId = user.tenantId → o.outletId = outletId →
      o.dto ∈ w.delivered := by
  have hcovered : Covered user outletId w := by
    refine Machine.invariant (P := Covered user outletId) (fun s hs => ?_)
      (fun s a _ hs hgood => covered_step hs a hgood) h
    obtain ⟨hepoch, -, -, hsince, -⟩ := hs
    intro o ho _ _ hnot
    rw [hsince] at hnot
    exact absurd (.inl (hepoch o ho)) hnot
  obtain ⟨-, rfl⟩ := pull_eq_ok.mp hpull
  intro o ho htenant houtlet
  exact hcovered o ho htenant houtlet
    (not_beyond_of_changedOrders (List.map_eq_nil_iff.mp hempty) ho htenant houtlet)


/-! ### An order that is committed late -/

theorem first_ne : "a" ≠ "" := by decide

theorem second_ne : "b" ≠ "" := by decide

def firstOrder : Order :=
  ⟨"a", first_ne, "t", "o", none, none, none, .opened, .dineIn, Amount.hundred, 0⟩

def secondOrder : Order := { firstOrder with id := "b", id_ne := second_ne }

def oneTerminal : SyncWorld := ⟨1000, .empty, [], none, []⟩

def cashier : AuthUser := ⟨"u", "t", ["o"]⟩

/-- The first order is written before the second and committed after it; in between the terminal
pulls. -/
def lateCommit : List SyncAction :=
  [.write 0 firstOrder, .tick 1, .write 1 secondOrder, .commit 1, .pull, .commit 0]

/-- The same, but the terminal pulls only after both commits. -/
def earlyCommit : List SyncAction :=
  [.write 0 firstOrder, .tick 1, .write 1 secondOrder, .commit 1, .commit 0, .pull]

theorem orderSync_init : (orderSync cashier "o").init oneTerminal :=
  ⟨fun _ ho => absurd ho List.not_mem_nil, by decide, rfl, rfl, rfl⟩

/-- Pulls can end without an order: one that was committed late is never delivered. -/
theorem not_pull_complete :
    ¬∀ user outletId w, (orderSync user outletId).Reachable w → ∀ page,
      pull user outletId w.since w.orders.rows w.now = .ok page → page.orders = [] →
        ∀ o ∈ w.orders.rows, o.tenantId = user.tenantId → o.outletId = outletId →
          ∃ d ∈ w.delivered, d.id = o.id ∧ d.status = o.status := by
  intro h
  have hreach := Machine.reachable_run lateCommit (.init orderSync_init)
  have hdelivered := h cashier "o" _ hreach ⟨[], ⟨1001, "b"⟩⟩ (by rfl) rfl
    { firstOrder with updatedAt := 1000 } (by decide +kernel) rfl rfl
  revert hdelivered
  decide +kernel

theorem pull_complete_earlyCommit :
    let w := (orderSync cashier "o").run oneTerminal earlyCommit
    w.orders.rows.length = 2 ∧ ∀ o ∈ w.orders, o.tenantId = "t" → o.outletId = "o" →
      o.dto ∈ w.delivered :=
  ⟨by decide +kernel, @pull_complete cashier "o" _
    (Machine.reach_run _ (.init orderSync_init) (by decide +kernel)) ⟨[], ⟨1001, "b"⟩⟩ (by rfl) rfl⟩

end StelloKitchens.OrderSync
