import StelloKitchens.Cloud.StoredSale

/-!
# Delivering a batch again

A batch leaves the cloud as it finds it exactly when every sale in it is stored already and its
kitchen updates say what the lines and the tickets say already. A refused order is stored nowhere:
every delivery of it files one more conflict. An update that comes before its sale is answered
with a retry and applied by the next delivery.

## Main definitions

* `CloudDb.observed` — the database without the times at which lines were ready.
* `CloudDb.Delivered` — every operation of a batch says what is there already.
* `CloudDb.Redeliverable` — the same of the database after the batch, said before it.

## Main results

* `CloudDb.push_unchanged_iff` — when a delivery changes nothing.
* `push_again_iff` — when a second delivery changes nothing.
* `push_again_changes` — a refused order is filed twice.
-/

namespace StelloKitchens

open Checked

namespace CloudDb

open Cloud.OrderItem

/-! ### What is compared and when it stays -/

/-- The database without the times at which lines were ready, which a server that is handed a
time in its future replaces by its own. -/
def observed (db : CloudDb) : CloudDb := { db with orderItems := db.orderItems.map untimed }

/-- The sale of this order is stored, or another outlet has its key and its figures add up. -/
def OrderDelivered (db : CloudDb) (device : EdgeDeviceContext) (order : EdgeOrderInput) : Prop :=
  (db.findOrder device order.clientId).isSome ∨
    ((db.orders.find? (device.terminalId, order.clientId)).isSome ∧
      ∃ totals, checkFigures order = .ok totals)

/-- Every operation of a batch says what is there already. -/
structure Delivered (db : CloudDb) (device : EdgeDeviceContext) (ops : List EdgeOutboxOp) :
    Prop where
  orders : ∀ key order, .order key order ∈ ops → db.OrderDelivered device order
  /-- A line has the status that the last update naming it gives. -/
  lines : ∀ i ∈ db.orderItems, ∀ status ∈ (db.statusesSet device ops i).getLast?,
    i.prepStatus = status
  /-- A ticket of an updated order has the status of its lines. -/
  tickets : ∀ k ∈ db.kots, db.Updated device ops k.orderId →
    k.status = ticketStatusOf db.orderItems k

/-! ### Orders that are delivered, and those that are not -/

section Orders

variable {db : CloudDb} {device : EdgeDeviceContext} {key : String} {order : EdgeOrderInput}
  {skewMs : ℤ} {now : Time}

theorem applyOrder_of_delivered (h : db.OrderDelivered device order) :
    (db.applyOrder device key order skewMs now).1 = db := by
  have hcases := applyOrder_cases db device key order skewMs now
  generalize db.applyOrder device key order skewMs now = res at hcases
  cases hcases with
  | duplicate o ho => rfl
  | taken hfind totals htaken hfigures => rfl
  | stored totals lines hfree hfigures hlines =>
    rcases h with h | ⟨h, -⟩
    · rw [findOrder_eq_none _ hfree] at h
      cases h
    · rw [hfree] at h
      cases h
  | rejected message hfind hrefused hwhy =>
    rcases h with h | ⟨h, totals, hok⟩
    · rw [hfind] at h
      cases h
    · rcases hwhy with ⟨e, he⟩ | hfree
      · rw [hok] at he
        cases he
      · rw [hfree] at h
        cases h

/-- The orders and the conflicts of a database, counted. -/
def size (db : CloudDb) : ℕ := db.orders.rows.length + db.conflicts.length

theorem size_write {sale : Sale} (hfree : db.orders.find? sale.head.row.saleKey = none) :
    db.size < (db.write device sale).size := by
  have horders : (db.write device sale).orders.rows = db.orders.rows ++ [sale.head.row] :=
    KeyedTable.rows_upsert_of_none (fun _ _ => rfl) hfree
  have hconflicts : db.conflicts.length ≤ (db.write device sale).conflicts.length := by
    rw [write, List.length_append]
    exact Nat.le_add_right _ _
  rw [size, size, horders, List.length_append, List.length_singleton]
  omega

theorem size_fileRejected {message : String} :
    db.size < (db.fileRejected device order message).size := by
  simp only [size, fileRejected, List.length_append, List.length_singleton]
  omega

/-- An order that is not delivered is stored or filed. -/
theorem size_applyOrder_lt (h : ¬db.OrderDelivered device order) :
    db.size < (db.applyOrder device key order skewMs now).1.size := by
  have hcases := applyOrder_cases db device key order skewMs now
  generalize db.applyOrder device key order skewMs now = res at hcases
  cases hcases with
  | duplicate o ho => exact absurd (.inl (by rw [ho]; rfl)) h
  | stored totals lines hfree hfigures hlines => exact size_write hfree
  | taken hfind totals htaken hfigures => exact absurd (.inr ⟨htaken, totals, hfigures⟩) h
  | rejected message hfind hrefused hwhy => exact size_fileRejected

theorem size_kitchenOnly {db' : CloudDb} (h : KitchenOnly db db') : db'.size = db.size := by
  rw [h.rest]
  rfl

theorem size_applyOp_le (op : EdgeOutboxOp) :
    db.size ≤ (db.applyOp device skewMs now op).1.size := by
  cases op with
  | order key order =>
    by_cases h : db.OrderDelivered device order
    · exact (congrArg size (applyOrder_of_delivered h)).ge
    · exact (size_applyOrder_lt h).le
  | kotStatus key clientId updates => exact (size_kitchenOnly applyKotStatus_kitchenOnly).ge

end Orders

/-! ### When a delivery changes nothing -/

section Unchanged

variable {db db' : CloudDb} {device : EdgeDeviceContext} {skewMs : ℤ} {now : Time}
  {ops : List EdgeOutboxOp}

theorem orderDelivered_congr (h : KitchenOnly db db') (order : EdgeOrderInput) :
    db'.OrderDelivered device order ↔ db.OrderDelivered device order := by
  rw [h.rest]
  rfl

theorem applyOp_kitchenOnly {op : EdgeOutboxOp}
    (h : ∀ key order, op = .order key order → db.OrderDelivered device order) :
    KitchenOnly db (db.applyOp device skewMs now op).1 := by
  cases op with
  | order key order =>
    change KitchenOnly db (db.applyOrder device key order skewMs now).1
    rw [applyOrder_of_delivered (h key order rfl)]
    exact .refl db
  | kotStatus key clientId updates => exact applyKotStatus_kitchenOnly

/-- With its sales stored, a batch only marks lines and tickets. -/
theorem pushOps_kitchenOnly (h : ∀ key order, .order key order ∈ ops → db.OrderDelivered device order) :
    KitchenOnly db (pushOps device skewMs now db ops).1 := by
  induction ops generalizing db with
  | nil => exact .refl db
  | cons op ops ih =>
    have hop : KitchenOnly db (db.applyOp device skewMs now op).1 :=
      applyOp_kitchenOnly fun key order hop => h key order (hop ▸ List.mem_cons_self)
    rw [pushOps_cons]
    exact hop.trans (ih fun key order hmem =>
      (orderDelivered_congr hop order).mpr (h key order (List.mem_cons_of_mem _ hmem)))

theorem size_pushOps_le (ops : List EdgeOutboxOp) :
    db.size ≤ (pushOps device skewMs now db ops).1.size := by
  induction ops generalizing db with
  | nil => exact le_rfl
  | cons op ops ih =>
    rw [pushOps_cons]
    exact (size_applyOp_le op).trans ih

/-- A batch that leaves the orders and the conflicts alone has no sale to store. -/
theorem orderDelivered_of_size (h : (pushOps device skewMs now db ops).1.size = db.size) :
    ∀ key order, .order key order ∈ ops → db.OrderDelivered device order := by
  induction ops generalizing db with
  | nil => exact fun _ _ hmem => nomatch hmem
  | cons op ops ih =>
    rw [pushOps_cons] at h
    have hle : db.size ≤ (db.applyOp device skewMs now op).1.size := size_applyOp_le op
    have hle' := @size_pushOps_le (db.applyOp device skewMs now op).1 device skewMs now ops
    have hhead : ∀ key order, op = .order key order → db.OrderDelivered device order := by
      rintro key order rfl
      by_contra hnot
      have : db.size < (db.applyOp device skewMs now (.order key order)).1.size :=
        size_applyOrder_lt hnot
      omega
    have hkitchen : KitchenOnly db (db.applyOp device skewMs now op).1 :=
      applyOp_kitchenOnly hhead
    intro key order hmem
    rcases List.mem_cons.mp hmem with hop | hmem
    · exact hhead key order hop.symm
    · exact (orderDelivered_congr hkitchen order).mp (ih (by omega) key order hmem)

theorem eq_of_append_length {α : Type} {l l' new : List α} (h : l = l' ++ new)
    (hlen : l.length = l'.length) : l = l' := by
  have hnew : new = [] := by
    rw [h, List.length_append] at hlen
    exact List.length_eq_zero_iff.mp (by omega)
  rw [h, hnew, List.append_nil]

/-- With its sales stored, a batch sets the last status it names on each line. -/
theorem items_of_kitchenOnly (h : KitchenOnly db (pushOps device skewMs now db ops).1) :
    (pushOps device skewMs now db ops).1.orderItems.map untimed =
      db.orderItems.map fun i => (i.withLast (db.statusesSet device ops i)).untimed := by
  obtain ⟨new, hitems, -⟩ := @pushOps_items device skewMs now db ops
  apply eq_of_append_length hitems
  have hlen := congrArg List.length h.items
  simpa only [List.length_map] using hlen

/-- With its sales stored, a batch brings the tickets of the orders it updates up to date. -/
theorem kots_of_kitchenOnly (h : KitchenOnly db (pushOps device skewMs now db ops).1) :
    (pushOps device skewMs now db ops).1.kots =
      db.kots.map fun k => if db.Updated device ops k.orderId then
        refreshed (pushOps device skewMs now db ops).1.orderItems k else k := by
  obtain ⟨new, hkots, -⟩ := @pushOps_kots device skewMs now db ops
  apply eq_of_append_length hkots
  have hlen := congrArg List.length h.kots
  simpa only [List.length_map] using hlen

theorem withLast_untimed_eq_iff (i : Cloud.OrderItem) (statuses : List PrepStatus) :
    (i.withLast statuses).untimed = i.untimed ↔
      ∀ status ∈ statuses.getLast?, i.prepStatus = status := by
  constructor
  · intro h status hstatus
    have hprep : statuses.getLast?.getD i.prepStatus = i.prepStatus :=
      congrArg Cloud.OrderItem.prepStatus h
    rw [Option.mem_def.mp hstatus] at hprep
    exact hprep.symm
  · intro h
    cases hlast : statuses.getLast? with
    | none => rw [withLast, hlast, Option.getD_none]
    | some status => rw [withLast, hlast, Option.getD_some, ← h status hlast]

theorem ticketStatusOf_untimed {items items' : List Cloud.OrderItem}
    (h : items.map untimed = items'.map untimed) (k : Cloud.Kot) :
    ticketStatusOf items k = ticketStatusOf items' k := by
  have hfilter : ∀ items : List Cloud.OrderItem,
      (items.filter (·.orderId = k.orderId)).map untimed =
        (items.map untimed).filter (·.orderId = k.orderId) := by
    intro items
    rw [List.filter_map]
    rfl
  apply ticketStatusOf_congr
  rw [hfilter, hfilter, h]

/-- A delivery changes nothing exactly when every operation says what is there already. -/
theorem push_unchanged_iff (db : CloudDb) (device : EdgeDeviceContext) (input : EdgePushInput)
    (now : Time) :
    observed (push db device input now).1 = observed db ↔ db.Delivered device input.ops := by
  rw [push]
  generalize clockSkewMs now input.deviceTime = skewMs
  generalize input.ops = ops
  constructor
  · intro h
    have hsize : (pushOps device skewMs now db ops).1.observed.size = db.observed.size :=
      congrArg size h
    have horders := orderDelivered_of_size hsize
    have hkitchen : KitchenOnly db (pushOps device skewMs now db ops).1 :=
      pushOps_kitchenOnly horders
    have hitems : (pushOps device skewMs now db ops).1.orderItems.map untimed =
        db.orderItems.map untimed := congrArg orderItems h
    have hkots : (pushOps device skewMs now db ops).1.observed.kots = db.observed.kots :=
      congrArg kots h
    refine ⟨horders, fun i hi => ?_, fun k hk hupdated => ?_⟩
    · rw [items_of_kitchenOnly hkitchen] at hitems
      exact (withLast_untimed_eq_iff i _).mp (List.map_inj_left.mp hitems i hi)
    · have hkots := (kots_of_kitchenOnly hkitchen).symm.trans hkots
      have hk := List.map_inj_left.mp (hkots.trans (List.map_id _).symm) k hk
      rw [if_pos hupdated] at hk
      rw [← ticketStatusOf_untimed hitems k]
      exact congrArg Cloud.Kot.status hk.symm
  · intro h
    have hkitchen : KitchenOnly db (pushOps device skewMs now db ops).1 :=
      pushOps_kitchenOnly h.orders
    have hitems : (pushOps device skewMs now db ops).1.orderItems.map untimed =
        db.orderItems.map untimed := by
      rw [items_of_kitchenOnly hkitchen]
      exact List.map_congr_left fun i hi => (withLast_untimed_eq_iff i _).mpr (h.lines i hi)
    have hkots : (pushOps device skewMs now db ops).1.kots = db.kots := by
      rw [kots_of_kitchenOnly hkitchen]
      conv_rhs => rw [← List.map_id db.kots]
      apply List.map_congr_left
      intro k hk
      split
      · rename_i hupdated
        rw [refreshed, ticketStatusOf_untimed hitems, ← h.tickets k hk hupdated]
        rfl
      · rfl
    rw [hkitchen.rest, observed, observed, hkots, hitems]

end Unchanged

/-! ### The second delivery, said before the first -/

/-- The first of these operations stores the order, after those. -/
structure StoresFirst (db : CloudDb) (device : EdgeDeviceContext) (pre : List EdgeOutboxOp)
    (order : EdgeOrderInput) : Prop where
  free : db.orders.find? (device.terminalId, order.clientId) = none
  storable : db.Storable device order
  first : ∀ op ∈ pre, ¬op.Stores db device order.clientId

/-- A second delivery of a batch finds what the first one left. -/
structure Redeliverable (db : CloudDb) (device : EdgeDeviceContext) (ops : List EdgeOutboxOp) :
    Prop where
  /-- Every sale is stored already, or by the batch, or has its key taken by another outlet. -/
  orders : ∀ key order, .order key order ∈ ops →
    (db.findOrder device order.clientId).isSome ∨
      ((db.orders.find? (device.terminalId, order.clientId)).isSome ∧
        ∃ totals, checkFigures order = .ok totals) ∨
      (db.orders.find? (device.terminalId, order.clientId) = none ∧
        ∃ op ∈ ops, op.Stores db device order.clientId)
  /-- An update of a line before its sale says what the sale says, unless one after it names the
  line again. -/
  lines : ∀ pre key order post, ops = pre ++ .order key order :: post →
    db.StoresFirst device pre order → ∀ place status, order.lineStatus place = some status →
      statusesNamed order.clientId place post = [] →
        ∀ early ∈ (statusesNamed order.clientId place pre).getLast?, status = early
  /-- An update before its sale, with none after it, finds the ticket as its lines say. -/
  tickets : ∀ pre key order post, ops = pre ++ .order key order :: post →
    db.StoresFirst device pre order → (∃ op ∈ pre, op.Updates order.clientId) →
      (∀ op ∈ post, ¬op.Updates order.clientId) →
        ticketStatus order = db.ticketStatusOfLines device order

section Second

variable {db : CloudDb} {device : EdgeDeviceContext} {skewMs : ℤ} {now : Time}
  {ops : List EdgeOutboxOp}

theorem orderDelivered_pushOps_iff (order : EdgeOrderInput) :
    (pushOps device skewMs now db ops).1.OrderDelivered device order ↔
      (db.findOrder device order.clientId).isSome ∨
        ((db.orders.find? (device.terminalId, order.clientId)).isSome ∧
          ∃ totals, checkFigures order = .ok totals) ∨
        (db.orders.find? (device.terminalId, order.clientId) = none ∧
          ∃ op ∈ ops, op.Stores db device order.clientId) := by
  have hnone := @find?_pushOps_eq_none device skewMs now db ops order.clientId
  have hsome : ∀ o : Option Cloud.Order, o.isSome ↔ ¬o = none :=
    fun o => Option.isSome_iff_ne_none
  rw [OrderDelivered, findOrder_pushOps_isSome, hsome (KeyedTable.find? _ _), hnone,
    hsome (KeyedTable.find? _ _)]
  have hstores : (∃ op ∈ ops, op.Stores db device order.clientId) ↔
      ¬∀ op ∈ ops, ¬op.Stores db device order.clientId := by
    simp only [not_forall, not_not, exists_prop]
  rw [hstores]
  tauto

theorem exists_storedIn_iff {pre : List EdgeOutboxOp} {key : String} {order : EdgeOrderInput} :
    (∃ sale, StoredIn device skewMs now db pre key order sale) ↔
      db.StoresFirst device pre order := by
  have hgrown : Grown db (pushOps device skewMs now db pre).1 := pushOps_grown pre
  constructor
  · rintro ⟨sale, h⟩
    obtain ⟨hfree, hfirst⟩ := (find?_pushOps_eq_none pre order.clientId).mp h.free
    exact ⟨hfree, (hgrown.storable_iff order).mp h.storable, hfirst⟩
  · rintro ⟨hfree, hstorable, hfirst⟩
    exact exists_storedIn key ((find?_pushOps_eq_none pre order.clientId).mpr ⟨hfree, hfirst⟩)
      ((hgrown.storable_iff order).mpr hstorable)

theorem statusesSet_congr (ops : List EdgeOutboxOp) {i j : Cloud.OrderItem} (h : i.id = j.id) :
    db.statusesSet device ops i = db.statusesSet device ops j := by
  apply List.flatMap_congr
  intro op _
  unfold statusesSetBy setBy
  rw [h]

/-- What the later statuses leave agrees with the last of all when the earlier ones say nothing
else. -/
theorem forall_getLast?_append {x : PrepStatus} (early late : List PrepStatus) :
    (∀ s ∈ (early ++ late).getLast?, late.getLast?.getD x = s) ↔
      (late = [] → ∀ s ∈ early.getLast?, x = s) := by
  rcases List.eq_nil_or_concat late with rfl | ⟨late, s, rfl⟩
  · simp
  · simp

theorem statusesNamed_split {clientId key : String} {place : LineKind × ℕ}
    {order : EdgeOrderInput} (pre post : List EdgeOutboxOp) :
    statusesNamed clientId place (pre ++ .order key order :: post) =
      statusesNamed clientId place pre ++ statusesNamed clientId place post := by
  rw [statusesNamed, List.flatMap_append, List.flatMap_cons]
  rfl

theorem updates_split {clientId key : String} {order : EdgeOrderInput}
    (pre post : List EdgeOutboxOp) :
    (∃ op ∈ pre ++ .order key order :: post, op.Updates clientId) ↔
      (∃ op ∈ pre, op.Updates clientId) ∨ ∃ op ∈ post, op.Updates clientId := by
  simp only [List.mem_append, List.mem_cons, or_and_right, exists_or, exists_eq_left]
  exact or_congr_right (or_iff_right id)

/-- The lines of a sale that the batch stores agree with its updates when those before the sale
say what the sale says. -/
theorem lines_of_storedIn {pre post : List EdgeOutboxOp} {key : String} {order : EdgeOrderInput}
    {sale : Sale} (h : StoredIn device skewMs now db pre key order sale)
    (hops : ops = pre ++ .order key order :: post) :
    (∀ i ∈ (pushOps device skewMs now db ops).1.linesOf sale.head.row.id,
      ∀ status ∈ ((pushOps device skewMs now db ops).1.statusesSet device ops i).getLast?,
        i.prepStatus = status) ↔
      ∀ place status, order.lineStatus place = some status →
        statusesNamed order.clientId place post = [] →
          ∀ early ∈ (statusesNamed order.clientId place pre).getLast?, status = early := by
  have hsale := h.hasSale post
  have hlines := h.linesOf post
  rw [← hops] at hsale hlines
  set db₁ := (pushOps device skewMs now db ops).1
  -- Whether a line agrees does not depend on the time it was ready.
  set agrees : Cloud.OrderItem → Prop :=
    fun i => ∀ status ∈ (db₁.statusesSet device ops i).getLast?, i.prepStatus = status
  have hrow : ∀ row ∈ sale.lines.rows,
      (agrees (row.withLast (statusesNamed order.clientId row.place post)).untimed ↔
        (statusesNamed order.clientId row.place post = [] →
          ∀ early ∈ (statusesNamed order.clientId row.place pre).getLast?,
            row.prepStatus = early)) := by
    intro row hrow
    have hset : db₁.statusesSet device ops
        (row.withLast (statusesNamed order.clientId row.place post)).untimed =
          statusesNamed order.clientId row.place pre ++
            statusesNamed order.clientId row.place post := by
      refine ((statusesSet_congr ops rfl).trans (hsale.statusesSet_eq ops hrow)).trans ?_
      rw [hops, statusesNamed_split]
    rw [← forall_getLast?_append, ← hset]
    rfl
  have hall : (∀ i ∈ db₁.linesOf sale.head.row.id, agrees i) ↔
      ∀ row ∈ sale.lines.rows,
        agrees (row.withLast (statusesNamed order.clientId row.place post)).untimed := by
    have huntimed : (∀ i ∈ db₁.linesOf sale.head.row.id, agrees i) ↔
        ∀ i ∈ (db₁.linesOf sale.head.row.id).map untimed, agrees i := by
      rw [List.forall_mem_map]
      rfl
    rw [huntimed, hlines, List.forall_mem_map]
  refine hall.trans ?_
  constructor
  · intro hagrees place status hstatus
    obtain ⟨row, hmem, rfl, rfl⟩ := hsale.shape.exists_place hstatus
    exact (hrow row hmem).mp (hagrees row hmem)
  · intro hplaces row hmem
    exact (hrow row hmem).mpr (hplaces row.place row.prepStatus (hsale.shape.lineStatus_place hmem))

/-- The ticket of a sale that the batch stores agrees with its lines when an update before the
sale finds it so. -/
theorem tickets_of_storedIn {pre post : List EdgeOutboxOp} {key : String}
    {order : EdgeOrderInput} {sale : Sale} (h : StoredIn device skewMs now db pre key order sale)
    (hops : ops = pre ++ .order key order :: post) :
    (∀ k ∈ (pushOps device skewMs now db ops).1.kots, k.orderId = sale.head.row.id →
      (pushOps device skewMs now db ops).1.Updated device ops k.orderId →
        k.status = ticketStatusOf (pushOps device skewMs now db ops).1.orderItems k) ↔
      ((∃ op ∈ pre, op.Updates order.clientId) → (∀ op ∈ post, ¬op.Updates order.clientId) →
        ticketStatus order = db.ticketStatusOfLines device order) := by
  have hsale := h.hasSale post
  have hkots := h.kots post
  have heq := @StoredIn.pushOps_eq _ _ _ _ _ post _ _ _ h
  rw [← hops] at hsale hkots heq
  have hlt : sale.kot.orderId < ((pushOps device skewMs now db pre).1.write device sale).freshId := by
    have hfresh : sale.kot.orderId = _ := congrArg Prod.fst h.isSale.kot.1
    rw [hfresh]
    exact h.isSale.freshId_lt
  have hid : sale.kot.orderId = sale.head.row.id :=
    (congrArg Prod.fst h.isSale.kot.1).trans h.isSale.id.symm
  set db₁ := (pushOps device skewMs now db ops).1
  have hmem : ∀ k, (k ∈ db₁.kots ∧ k.orderId = sale.head.row.id) ↔
      k = if ∃ op ∈ post, op.Updates order.clientId then refreshed db₁.orderItems sale.kot
        else sale.kot := by
    intro k
    rw [← List.mem_singleton (a := k), ← hkots, List.mem_filter, decide_eq_true_eq]
  have hupdated : db₁.Updated device ops sale.head.row.id ↔
      (∃ op ∈ pre, op.Updates order.clientId) ∨ ∃ op ∈ post, op.Updates order.clientId := by
    rw [hsale.updated_iff, hops, updates_split]
  have hstatus : (∀ op ∈ post, ¬op.Updates order.clientId) →
      ticketStatusOf db₁.orderItems sale.kot = db.ticketStatusOfLines device order := by
    intro hnone
    rw [heq, ticketStatusOf_pushOps hlt, ticketStatusOf_write h.isSale]
    · exact (pushOps_grown pre).ticketStatusOfLines_eq order
    · rw [hid, h.isSale.hasSale.updated_iff]
      rintro ⟨op, hop, hupdates⟩
      exact hnone op hop hupdates
  constructor
  · intro htickets hpre hpost
    have hnone : ¬∃ op ∈ post, op.Updates order.clientId := fun ⟨op, hop, h⟩ => hpost op hop h
    obtain ⟨hkot, -⟩ := (hmem sale.kot).mpr (if_neg hnone).symm
    have := htickets sale.kot hkot hid (hid ▸ hupdated.mpr (.inl hpre))
    rwa [h.isSale.kot.2, hstatus hpost] at this
  · intro hagree k hk hkid hkupdated
    have heqk := (hmem k).mp ⟨hk, hkid⟩
    rw [hkid, hupdated] at hkupdated
    by_cases hpost : ∃ op ∈ post, op.Updates order.clientId
    · rw [if_pos hpost] at heqk
      rw [heqk]
      rfl
    · have hnone : ∀ op ∈ post, ¬op.Updates order.clientId := fun op hop h => hpost ⟨op, hop, h⟩
      rw [if_neg hpost] at heqk
      rw [heqk, h.isSale.kot.2, hstatus hnone]
      exact hagree (hkupdated.resolve_right hpost) hnone

theorem id_prepStatus_of_untimed {i j : Cloud.OrderItem} (h : i.untimed = j.untimed) :
    i.id = j.id ∧ i.prepStatus = j.prepStatus :=
  Prod.ext_iff.mp (congrArg (fun x : Cloud.OrderItem => (x.id, x.prepStatus)) h)

/-- A line of before has the last status that the batch sets on it. -/
theorem prepStatus_of_before {i : Cloud.OrderItem}
    (hi : i ∈ (pushOps device skewMs now db ops).1.orderItems) (hold : i.orderId < db.freshId) :
    ∀ status ∈ ((pushOps device skewMs now db ops).1.statusesSet device ops i).getLast?,
      i.prepStatus = status := by
  obtain ⟨new, hitems, hnew⟩ := @pushOps_items device skewMs now db ops
  have hmem := List.mem_map_of_mem (f := untimed) hi
  rw [hitems] at hmem
  rcases List.mem_append.mp hmem with hmem | hmem
  · obtain ⟨j, hj, heq⟩ := List.mem_map.mp hmem
    obtain ⟨hid, hprep⟩ := id_prepStatus_of_untimed heq
    have hprep : (db.statusesSet device ops j).getLast?.getD j.prepStatus = i.prepStatus := hprep
    rw [statusesSet_congr ops (j := j) hid.symm, (pushOps_grown ops).statusesSet_eq ops (lt_freshId_of_item hj)]
    intro status hstatus
    rw [Option.mem_def.mp hstatus] at hprep
    exact hprep.symm
  · obtain ⟨j, hj, heq⟩ := List.mem_map.mp hmem
    have hid : j.orderId = i.orderId := congrArg Prod.fst (id_prepStatus_of_untimed heq).1
    have := hnew j hj
    omega

/-- A ticket of before that the batch updates has the status of its lines. -/
theorem ticket_of_before {k : Cloud.Kot} (hk : k ∈ (pushOps device skewMs now db ops).1.kots)
    (hold : k.orderId < db.freshId)
    (hupdated : (pushOps device skewMs now db ops).1.Updated device ops k.orderId) :
    k.status = ticketStatusOf (pushOps device skewMs now db ops).1.orderItems k := by
  have hupdated := ((pushOps_grown ops).updated_iff ops hold).mp hupdated
  obtain ⟨new, hkots, hnew⟩ := @pushOps_kots device skewMs now db ops
  rw [hkots] at hk
  rcases List.mem_append.mp hk with hk | hk
  · obtain ⟨j, -, rfl⟩ := List.mem_map.mp hk
    split
    · rfl
    · rename_i hnot
      rw [if_neg hnot] at hupdated
      exact absurd hupdated hnot
  · have := hnew k hk
    omega

/-- The database after a batch has what the batch says exactly when the batch says so before. -/
theorem delivered_pushOps_iff :
    (pushOps device skewMs now db ops).1.Delivered device ops ↔ db.Redeliverable device ops := by
  constructor
  · intro h
    refine ⟨fun key order hop => (orderDelivered_pushOps_iff order).mp (h.orders key order hop),
      fun pre key order post hops hfirst => ?_, fun pre key order post hops hfirst => ?_⟩
    · obtain ⟨sale, hstored⟩ := exists_storedIn_iff.mpr hfirst
      exact (lines_of_storedIn hstored hops).mp fun i hi => h.lines i (List.mem_filter.mp hi).1
    · obtain ⟨sale, hstored⟩ := exists_storedIn_iff.mpr hfirst
      exact (tickets_of_storedIn hstored hops).mp fun k hk _ => h.tickets k hk
  · intro h
    refine ⟨fun key order hop => (orderDelivered_pushOps_iff order).mpr (h.orders key order hop),
      fun i hi => ?_, fun k hk => ?_⟩
    · have hmem : i.orderId ∈ (pushOps device skewMs now db ops).1.rowIds :=
        List.mem_append_left _ (List.mem_map_of_mem hi)
      rcases exists_storedIn_of_mem hmem with hold | ⟨pre, key, order, post, sale, hops, hstored, hid⟩
      · exact prepStatus_of_before hi hold
      · have hlines := (lines_of_storedIn hstored hops).mpr
          (h.lines pre key order post hops (exists_storedIn_iff.mp ⟨sale, hstored⟩))
        refine hlines i (List.mem_filter.mpr ⟨hi, decide_eq_true ?_⟩)
        exact hid.trans hstored.isSale.id.symm
    · have hmem : k.orderId ∈ (pushOps device skewMs now db ops).1.rowIds :=
        List.mem_append_right _ (List.mem_map_of_mem hk)
      rcases exists_storedIn_of_mem hmem with hold | ⟨pre, key, order, post, sale, hops, hstored, hid⟩
      · exact ticket_of_before hk hold
      · have htickets := (tickets_of_storedIn hstored hops).mpr
          (h.tickets pre key order post hops (exists_storedIn_iff.mp ⟨sale, hstored⟩))
        exact htickets k hk (hid.trans hstored.isSale.id.symm)

end Second

end CloudDb

/-! ### A second delivery -/

open CloudDb

/-- Delivered again, a batch changes nothing exactly when the first delivery leaves every sale of
it stored and no update of it undone. -/
theorem push_again_iff (db : CloudDb) (device : EdgeDeviceContext) (input : EdgePushInput)
    (now later : Time) :
    observed (push (push db device input now).1 device input later).1 =
        observed (push db device input now).1 ↔
      db.Redeliverable device input.ops := by
  rw [push_unchanged_iff]
  exact delivered_pushOps_iff

/-- The sale of an item that left the catalog is refused, and refused again by the next delivery,
which files a second conflict. -/
theorem push_again_changes :
    (push sampleCloud sampleDevice (sampleBatch "vada") 1793000002000).2.map (·.status) =
        [.rejected] ∧
      observed (push (push sampleCloud sampleDevice (sampleBatch "vada") 1793000002000).1
          sampleDevice (sampleBatch "vada") 1793000007000).1 ≠
        observed (push sampleCloud sampleDevice (sampleBatch "vada") 1793000002000).1 := by
  refine ⟨by decide +kernel, fun h => ?_⟩
  have hcount := congrArg (fun db => db.conflicts.length) h
  revert hcount
  decide +kernel

end StelloKitchens
