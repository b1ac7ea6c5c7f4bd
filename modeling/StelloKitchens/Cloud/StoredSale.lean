import StelloKitchens.Cloud.Batch

/-!
# Sales stored by a batch

Which orders a batch stores, and what its kitchen updates say about the lines of a stored sale, in
the words of the order: an update names a line by its place.

## Main definitions

* `statusesNamed` — the statuses that operations name for a place of an order.
* `HasSale` — an order is stored with these lines.
* `StoredIn` — a batch stores an order at this point.

## Main results

* `HasSale.statusesSetBy_eq`, `HasSale.updatedBy_iff` — updates in the words of the order.
* `find?_pushOps_eq_none`, `findOrder_pushOps_isSome` — which orders are there after a batch.
* `exists_storedIn_of_item`, `exists_storedIn_of_kot` — where new rows come from.
-/

namespace StelloKitchens

open Checked CloudDb Cloud.OrderItem

/-! ### Updates in the words of the order -/

/-- The operation is a kitchen update of this order. -/
def EdgeOutboxOp.Updates (op : EdgeOutboxOp) (clientId : String) : Prop :=
  match op with
  | .order _ _ => False
  | .kotStatus _ c _ => c = clientId

instance (op : EdgeOutboxOp) (clientId : String) : Decidable (op.Updates clientId) :=
  match op with
  | .order _ _ => .isFalse id
  | .kotStatus _ c _ => instDecidableEqString c clientId

/-- The statuses that an operation names for a place of an order. -/
def EdgeOutboxOp.statusesNamed (clientId : String) (place : LineKind × ℕ) :
    EdgeOutboxOp → List PrepStatus
  | .order _ _ => []
  | .kotStatus _ c updates =>
    if c = clientId then
      updates.filterMap fun s => if place = s.place then some s.prepStatus else none
    else []

/-- The statuses that operations name for a place of an order, in order. -/
def statusesNamed (clientId : String) (place : LineKind × ℕ) (ops : List EdgeOutboxOp) :
    List PrepStatus :=
  ops.flatMap (EdgeOutboxOp.statusesNamed clientId place)

/-- The order is stored with these lines, and no other order has its id. -/
structure HasSale (db : CloudDb) (device : EdgeDeviceContext) (order : EdgeOrderInput)
    (components : EdgeComboLineInput → ℕ) (o : Cloud.Order) (rows : List Cloud.OrderItem) :
    Prop where
  found : db.findOrder device order.clientId = some o
  shape : SaleRows order o.id components rows
  lines : (db.linesOf o.id).map frame = rows.map frame
  only : ∀ clientId o', db.findOrder device clientId = some o' → o'.id = o.id →
    clientId = order.clientId

namespace HasSale

variable {db db' : CloudDb} {device : EdgeDeviceContext} {order : EdgeOrderInput}
  {components : EdgeComboLineInput → ℕ} {o : Cloud.Order} {rows : List Cloud.OrderItem}

theorem id_lt (h : HasSale db device order components o rows) : o.id < db.freshId :=
  lt_freshId_of_order
    (KeyedTable.find?_eq_some.mp (Option.filter_eq_some_iff.mp h.found).1).1

theorem grown (h : HasSale db device order components o rows) (hgrown : Grown db db') :
    HasSale db' device order components o rows where
  found := hgrown.findOrder_eq_some h.found
  shape := h.shape
  lines := (hgrown.lines o.id h.id_lt).trans h.lines
  only clientId o' ho' hid := by
    have hlt := h.id_lt
    exact h.only clientId o' ((hgrown.findOrder_new ho').resolve_right (by omega)) hid

/-- What an operation sets on a line is what it names for its place. -/
theorem statusesSetBy_eq (h : HasSale db device order components o rows) (op : EdgeOutboxOp)
    {row : Cloud.OrderItem} (hrow : row ∈ rows) :
    db.statusesSetBy device op row = op.statusesNamed order.clientId row.place := by
  cases op with
  | order key order => rfl
  | kotStatus key clientId updates =>
    unfold statusesSetBy EdgeOutboxOp.statusesNamed
    dsimp only
    by_cases hc : clientId = order.clientId
    · rw [if_pos hc, hc, h.found]
      dsimp only [setBy]
      simp only [updatedIds_congr h.lines, h.shape.mem_updatedIds hrow]
    · rw [if_neg hc]
      cases ho' : db.findOrder device clientId with
      | none => rfl
      | some o' =>
        apply List.filterMap_eq_nil_iff.mpr
        intro s _
        apply if_neg
        intro hmem
        have hid : row.orderId = o'.id := orderId_of_mem_updatedIds hmem
        exact hc (h.only clientId o' ho' (hid.symm.trans (h.shape.orderId_eq hrow)))

theorem statusesSet_eq (h : HasSale db device order components o rows) (ops : List EdgeOutboxOp)
    {row : Cloud.OrderItem} (hrow : row ∈ rows) :
    db.statusesSet device ops row = statusesNamed order.clientId row.place ops :=
  List.flatMap_congr fun op _ => h.statusesSetBy_eq op hrow

theorem updatedBy_iff (h : HasSale db device order components o rows) (op : EdgeOutboxOp) :
    db.UpdatedBy device op o.id ↔ op.Updates order.clientId := by
  cases op with
  | order key order => exact Iff.rfl
  | kotStatus key clientId updates =>
    change (db.findOrder device clientId).map (·.id) = some o.id ↔ clientId = order.clientId
    rw [Option.map_eq_some_iff]
    constructor
    · rintro ⟨o', ho', hid⟩
      exact h.only clientId o' ho' hid
    · rintro rfl
      exact ⟨o, h.found, rfl⟩

theorem updated_iff (h : HasSale db device order components o rows) (ops : List EdgeOutboxOp) :
    db.Updated device ops o.id ↔ ∃ op ∈ ops, op.Updates order.clientId :=
  exists_congr fun op => and_congr_right fun _ => h.updatedBy_iff op

end HasSale

/-- A sale that was just written is stored. -/
theorem SaleOf.hasSale {db : CloudDb} {device : EdgeDeviceContext} {order : EdgeOrderInput}
    {sale : Sale} (hsale : SaleOf db device order sale) :
    HasSale (db.write device sale) device order (db.componentCount device) sale.head.row
      sale.lines.rows where
  found := hsale.findOrder_write
  shape := hsale.id ▸ hsale.rows
  lines := by rw [hsale.id, hsale.linesOf_write]
  only clientId o' ho' hid := congrArg Prod.snd
    (hsale.key_eq_of_id (Option.filter_eq_some_iff.mp ho').1 (hid.trans hsale.id))

/-! ### The orders after a batch -/

section Orders

variable {device : EdgeDeviceContext} {skewMs : ℤ} {now : Time} {db : CloudDb}

/-- An operation is an order of this client id that the cloud can store. -/
def EdgeOutboxOp.Stores (db : CloudDb) (device : EdgeDeviceContext) (clientId : String)
    (op : EdgeOutboxOp) : Prop :=
  match op with
  | .order _ o => o.clientId = clientId ∧ db.Storable device o
  | .kotStatus _ _ _ => False

theorem find?_applyOp_eq_none (op : EdgeOutboxOp) (clientId : String) :
    (db.applyOp device skewMs now op).1.orders.find? (device.terminalId, clientId) = none ↔
      db.orders.find? (device.terminalId, clientId) = none ∧ ¬op.Stores db device clientId := by
  have hcases := @applyOp_cases db device skewMs now op
  generalize (db.applyOp device skewMs now op).1 = db' at hcases
  cases hcases with
  | stored key order sale hfree hstorable hsale =>
    rw [hsale.find?_write, EdgeOutboxOp.Stores]
    by_cases hc : clientId = order.clientId
    · subst hc
      simp [hstorable]
    · rw [if_neg fun h => hc (congrArg Prod.snd h)]
      exact ⟨fun h => ⟨h, fun h' => hc h'.1.symm⟩, And.left⟩
  | kept key order db' hnot hrest =>
    rw [hrest]
    refine ⟨fun h => ⟨h, ?_⟩, And.left⟩
    rintro ⟨rfl, hstorable⟩
    exact hnot h hstorable
  | updated key clientId' updates db' hkitchen hitems hkots =>
    rw [hkitchen.rest]
    exact ⟨fun h => ⟨h, not_false⟩, And.left⟩

theorem Grown.stores_iff {db' : CloudDb} (h : Grown db db') (op : EdgeOutboxOp)
    (clientId : String) : op.Stores db' device clientId ↔ op.Stores db device clientId := by
  cases op with
  | order key order => exact and_congr_right fun _ => h.storable_iff order
  | kotStatus key clientId updates => exact Iff.rfl

/-- A terminal and client id is free after a batch if it was and the batch stores no order under
it. -/
theorem find?_pushOps_eq_none (ops : List EdgeOutboxOp) (clientId : String) :
    (pushOps device skewMs now db ops).1.orders.find? (device.terminalId, clientId) = none ↔
      db.orders.find? (device.terminalId, clientId) = none ∧
        ∀ op ∈ ops, ¬op.Stores db device clientId := by
  induction ops generalizing db with
  | nil => exact ⟨fun h => ⟨h, List.forall_mem_nil _⟩, And.left⟩
  | cons op ops ih =>
    rw [pushOps_cons, ih, find?_applyOp_eq_none, List.forall_mem_cons, and_assoc]
    simp only [(@applyOp_grown db device skewMs now op).stores_iff]

theorem findOrder_pushOps_of_stores {ops : List EdgeOutboxOp} {op : EdgeOutboxOp}
    {clientId : String} (hfree : db.orders.find? (device.terminalId, clientId) = none)
    (hop : op ∈ ops) (hstores : op.Stores db device clientId) :
    ((pushOps device skewMs now db ops).1.findOrder device clientId).isSome := by
  induction ops generalizing db with
  | nil => cases hop
  | cons op' ops ih =>
    have hgrown : Grown db (db.applyOp device skewMs now op').1 := applyOp_grown op'
    rw [pushOps_cons]
    by_cases hstores' : op'.Stores db device clientId
    · have hcases := @applyOp_cases db device skewMs now op'
      generalize (db.applyOp device skewMs now op').1 = db' at hcases
      cases hcases with
      | stored key order sale hfree' hstorable hsale =>
        obtain ⟨rfl, -⟩ := hstores'
        rw [(pushOps_grown ops).findOrder_eq_some hsale.findOrder_write]
        rfl
      | kept key order db' hnot hrest =>
        obtain ⟨rfl, hstorable⟩ := hstores'
        exact absurd hstorable (hnot hfree)
      | updated key clientId updates db' hkitchen hitems hkots => cases hstores'
    · have hop : op ∈ ops := by
        rcases List.mem_cons.mp hop with rfl | hop
        · exact absurd hstores hstores'
        · exact hop
      exact ih ((find?_applyOp_eq_none op' clientId).mpr ⟨hfree, hstores'⟩) hop
        ((hgrown.stores_iff op clientId).mpr hstores)

/-- The device sees an order after a batch if it did before or the batch stored it. -/
theorem findOrder_pushOps_isSome (ops : List EdgeOutboxOp) (clientId : String) :
    ((pushOps device skewMs now db ops).1.findOrder device clientId).isSome ↔
      (db.findOrder device clientId).isSome ∨
        (db.orders.find? (device.terminalId, clientId) = none ∧
          ∃ op ∈ ops, op.Stores db device clientId) := by
  have hgrown : Grown db (pushOps device skewMs now db ops).1 := pushOps_grown ops
  cases hfind : db.orders.find? (device.terminalId, clientId) with
  | some o =>
    rw [findOrder, findOrder, hgrown.find? _ _ hfind, hfind]
    exact ⟨.inl, fun h => h.resolve_right fun h => Option.some_ne_none _ h.1⟩
  | none =>
    rw [findOrder_eq_none clientId hfind]
    constructor
    · intro hsome
      refine .inr ⟨rfl, ?_⟩
      by_contra hnone
      have hfree := (@find?_pushOps_eq_none _ skewMs now _ ops clientId).mpr
        ⟨hfind, fun op hop hstores => hnone ⟨op, hop, hstores⟩⟩
      rw [findOrder_eq_none clientId hfree] at hsome
      cases hsome
    · rintro (h | ⟨-, op, hop, hstores⟩)
      · cases h
      · exact findOrder_pushOps_of_stores hfind hop hstores

end Orders

/-! ### Where new rows come from -/

section Origin

variable {device : EdgeDeviceContext} {skewMs : ℤ} {now : Time} {db : CloudDb}

/-- After these operations, this order is stored as this sale. -/
structure StoredIn (device : EdgeDeviceContext) (skewMs : ℤ) (now : Time) (db : CloudDb)
    (pre : List EdgeOutboxOp) (key : String) (order : EdgeOrderInput) (sale : Sale) : Prop where
  free : (pushOps device skewMs now db pre).1.orders.find? (device.terminalId, order.clientId) = none
  storable : (pushOps device skewMs now db pre).1.Storable device order
  isSale : SaleOf (pushOps device skewMs now db pre).1 device order sale
  after : ((pushOps device skewMs now db pre).1.applyOp device skewMs now (.order key order)).1 =
    (pushOps device skewMs now db pre).1.write device sale

theorem exists_storedIn {pre : List EdgeOutboxOp} {order : EdgeOrderInput} (key : String)
    (hfree : (pushOps device skewMs now db pre).1.orders.find? (device.terminalId, order.clientId) =
      none)
    (hstorable : (pushOps device skewMs now db pre).1.Storable device order) :
    ∃ sale, StoredIn device skewMs now db pre key order sale := by
  have hcases := @applyOp_cases (pushOps device skewMs now db pre).1 device skewMs now (.order key order)
  generalize hdb' : ((pushOps device skewMs now db pre).1.applyOp device skewMs now
    (.order key order)).1 = db' at hcases
  cases hcases with
  | stored key order sale hfree hstorable hsale => exact ⟨sale, hfree, hstorable, hsale, hdb'⟩
  | kept key order db' hnot hrest => exact absurd hstorable (hnot hfree)

/-- What comes after the sale starts from the database it was written to. -/
theorem StoredIn.pushOps_eq {pre post : List EdgeOutboxOp} {key : String} {order : EdgeOrderInput}
    {sale : Sale} (h : StoredIn device skewMs now db pre key order sale) :
    (pushOps device skewMs now db (pre ++ .order key order :: post)).1 =
      (pushOps device skewMs now ((pushOps device skewMs now db pre).1.write device sale) post).1 := by
  rw [pushOps_append, pushOps_cons, h.after]

/-- The ids of orders that lines and tickets have. -/
def CloudDb.rowIds (db : CloudDb) : List ℕ :=
  db.orderItems.map (·.orderId) ++ db.kots.map (·.orderId)

theorem mem_rowIds_applyOp {op : EdgeOutboxOp} {n : ℕ}
    (hn : n ∈ (db.applyOp device skewMs now op).1.rowIds) :
    n ∈ db.rowIds ∨ n = db.freshId ∧ ∃ key order, op = .order key order ∧
      db.orders.find? (device.terminalId, order.clientId) = none ∧ db.Storable device order := by
  have hcases := @applyOp_cases db device skewMs now op
  generalize (db.applyOp device skewMs now op).1 = db' at hcases hn
  cases hcases with
  | stored key order sale hfree hstorable hsale =>
    by_cases hmem : n ∈ db.rowIds
    · exact .inl hmem
    · refine .inr ⟨?_, key, order, rfl, hfree, hstorable⟩
      simp only [rowIds, write, List.map_append, List.mem_append, List.map_cons, List.map_nil,
        List.mem_singleton, not_or] at hn hmem
      rcases hn with (hn | hn) | hn | hn
      · exact absurd hn hmem.1
      · obtain ⟨row, hrow, rfl⟩ := List.mem_map.mp hn
        exact hsale.rows.orderId_eq hrow
      · exact absurd hn hmem.2
      · exact hn.trans (congrArg Prod.fst hsale.kot.1)
  | kept key order db' hnot hrest =>
    rw [hrest] at hn
    exact .inl hn
  | updated key clientId updates db' hkitchen hitems hkots =>
    left
    have hitemIds := congrArg (List.map Cloud.OrderItem.orderId) hkitchen.items
    have hkotIds := congrArg (List.map Cloud.Kot.orderId) hkitchen.kots
    simp only [List.map_map] at hitemIds hkotIds
    change n ∈ db'.orderItems.map (Cloud.OrderItem.orderId ∘ frame) ++
      db'.kots.map (Cloud.Kot.orderId ∘ Cloud.Kot.frame) at hn
    rwa [hitemIds, hkotIds] at hn

/-- A line or a ticket after a batch is of an order of before, or of one that the batch stored. -/
theorem exists_storedIn_of_mem {ops : List EdgeOutboxOp} {n : ℕ}
    (hn : n ∈ (pushOps device skewMs now db ops).1.rowIds) :
    n < db.freshId ∨ ∃ pre key order post sale, ops = pre ++ .order key order :: post ∧
      StoredIn device skewMs now db pre key order sale ∧
      n = (pushOps device skewMs now db pre).1.freshId := by
  induction ops using List.reverseRecOn with
  | nil =>
    left
    rcases List.mem_append.mp hn with hn | hn
    · obtain ⟨i, hi, rfl⟩ := List.mem_map.mp hn
      exact lt_freshId_of_item hi
    · obtain ⟨k, hk, rfl⟩ := List.mem_map.mp hn
      exact lt_freshId_of_kot hk
  | append_singleton ops op ih =>
    rw [pushOps_concat] at hn
    rcases mem_rowIds_applyOp hn with hn | ⟨hfresh, key, order, rfl, hfree, hstorable⟩
    · refine (ih hn).imp id ?_
      rintro ⟨pre, key, order, post, sale, rfl, hstored, hn⟩
      exact ⟨pre, key, order, post ++ [op], sale, by simp, hstored, hn⟩
    · obtain ⟨sale, hstored⟩ := exists_storedIn key hfree hstorable
      exact .inr ⟨ops, key, order, [], sale, rfl, hstored, hfresh⟩

/-! ### The lines and the ticket of a stored sale -/

/-- The status that the stored lines of an order give its ticket: combo lines without components
do not count. -/
def CloudDb.ticketStatusOfLines (db : CloudDb) (device : EdgeDeviceContext)
    (order : EdgeOrderInput) : Cloud.KotStatus :=
  if (∀ line ∈ order.items, line.prepStatus = .ready) ∧
      ∀ line ∈ order.combos, 0 < db.componentCount device line → line.prepStatus = .ready then
    .ready
  else .pending

theorem Grown.ticketStatusOfLines_eq {db' : CloudDb} (h : Grown db db') (order : EdgeOrderInput) :
    db'.ticketStatusOfLines device order = db.ticketStatusOfLines device order := by
  have hcount : db'.componentCount device = db.componentCount device := by
    funext line
    rw [componentCount, componentCount, h.findItem_eq, h.findCombo_eq]
  rw [ticketStatusOfLines, ticketStatusOfLines, hcount]

theorem ticketStatusOf_write {order : EdgeOrderInput} {sale : Sale}
    (hsale : SaleOf db device order sale) :
    ticketStatusOf (db.write device sale).orderItems sale.kot =
      db.ticketStatusOfLines device order := by
  obtain ⟨horderId, hno⟩ := Prod.ext_iff.mp hsale.kot.1
  have horderId : sale.kot.orderId = db.freshId := horderId
  have hno : sale.kot.no = 0 := hno
  have hlines : (∀ i ∈ (db.write device sale).orderItems,
      i.orderId = sale.kot.orderId ∧ i.kot = some sale.kot.no → i.prepStatus = .ready) ↔
        ∀ ρ ∈ sale.lines.rows.map role, ρ.kot = some 0 → ρ.prepStatus = .ready := by
    rw [← hsale.linesOf_write, List.forall_mem_map, horderId, hno]
    simp only [linesOf, List.mem_filter, decide_eq_true_eq, and_imp]
    rfl
  have hroles : (∀ ρ ∈ sale.lines.rows.map role, ρ.kot = some 0 → ρ.prepStatus = .ready) ↔
      (∀ line ∈ order.items, line.prepStatus = .ready) ∧
        ∀ line ∈ order.combos, 0 < db.componentCount device line → line.prepStatus = .ready := by
    have hcombo : ∀ line : EdgeComboLineInput × ℕ,
        (∀ ρ ∈ comboRoles db.freshId (db.componentCount device) line,
          ρ.kot = some 0 → ρ.prepStatus = .ready) ↔
            (0 < db.componentCount device line.1 → line.1.prepStatus = .ready) := by
      intro line
      rw [comboRoles, List.forall_mem_cons]
      constructor
      · rintro ⟨-, h⟩ hpos
        exact h (componentRole _ line) (List.mem_replicate.mpr ⟨hpos.ne', rfl⟩) rfl
      · refine fun h => ⟨fun hkot => (by cases hkot), fun ρ hρ _ => ?_⟩
        obtain ⟨hne, rfl⟩ := List.mem_replicate.mp hρ
        exact h (Nat.pos_of_ne_zero hne)
    have hzip : (∀ line ∈ order.combos.zipIdx,
        0 < db.componentCount device line.1 → line.1.prepStatus = .ready) ↔
          ∀ line ∈ order.combos, 0 < db.componentCount device line → line.prepStatus = .ready := by
      conv_rhs => rw [← List.zipIdx_map_fst 0 order.combos]
      rw [List.forall_mem_map]
    rw [hsale.rows.roles, List.forall_mem_append, List.forall_mem_map, List.forall_mem_flatMap,
      ← hzip]
    simp only [hcombo]
    refine and_congr_left fun _ => forall₂_congr fun line _ => ?_
    exact ⟨fun h => h rfl, fun h _ => h⟩
  rw [ticketStatusOf, ticketStatusOfLines]
  simp only [hlines, hroles]

section StoredIn

variable {pre : List EdgeOutboxOp} {key : String} {order : EdgeOrderInput} {sale : Sale}
  (h : StoredIn device skewMs now db pre key order sale) (post : List EdgeOutboxOp)

include h

/-- The sale is there after the batch. -/
theorem StoredIn.hasSale :
    HasSale (pushOps device skewMs now db (pre ++ .order key order :: post)).1 device order
      ((pushOps device skewMs now db pre).1.componentCount device) sale.head.row
      sale.lines.rows := by
  rw [h.pushOps_eq]
  exact h.isSale.hasSale.grown (pushOps_grown post)

/-- The lines of the sale end with the last status that the operations after it name. -/
theorem StoredIn.linesOf :
    ((pushOps device skewMs now db (pre ++ .order key order :: post)).1.linesOf
        sale.head.row.id).map untimed =
      sale.lines.rows.map fun row =>
        (row.withLast (statusesNamed order.clientId row.place post)).untimed := by
  have hsale := h.isSale
  obtain ⟨new, hitems, hnew⟩ := @pushOps_items device skewMs now
    ((pushOps device skewMs now db pre).1.write device sale) post
  have hnone : (new.map untimed).filter (fun i => i.orderId = sale.head.row.id) = [] := by
    apply List.filter_eq_nil_iff.mpr
    simp only [List.forall_mem_map, decide_eq_true_eq]
    intro i hi
    have hle : _ ≤ i.untimed.orderId := hnew i hi
    rw [hsale.id]
    exact (hsale.freshId_lt.trans_le hle).ne'
  have hfilter : ∀ items : List Cloud.OrderItem,
      (items.filter (·.orderId = sale.head.row.id)).map untimed =
        (items.map untimed).filter (·.orderId = sale.head.row.id) := by
    intro items
    rw [List.filter_map]
    rfl
  rw [h.pushOps_eq, CloudDb.linesOf, hfilter, hitems, List.filter_append, hnone, List.append_nil,
    List.filter_map]
  have hrows := hsale.linesOf_write
  rw [← hsale.id] at hrows
  change ((CloudDb.write _ device sale).linesOf sale.head.row.id).map _ = _
  rw [hrows]
  apply List.map_congr_left
  intro row hrow
  rw [hsale.hasSale.statusesSet_eq post hrow]

/-- The ticket of the sale is brought up to date by the operations after it. -/
theorem StoredIn.kots :
    (pushOps device skewMs now db (pre ++ .order key order :: post)).1.kots.filter
        (·.orderId = sale.head.row.id) =
      [if ∃ op ∈ post, op.Updates order.clientId then
        refreshed (pushOps device skewMs now db (pre ++ .order key order :: post)).1.orderItems
          sale.kot
      else sale.kot] := by
  have hsale := h.isSale
  obtain ⟨new, hkots, hnew⟩ := @pushOps_kots device skewMs now
    ((pushOps device skewMs now db pre).1.write device sale) post
  have hnone : new.filter (fun k => k.orderId = sale.head.row.id) = [] := by
    apply List.filter_eq_nil_iff.mpr
    intro k hk
    rw [decide_eq_true_eq, hsale.id]
    exact (hsale.freshId_lt.trans_le (hnew k hk)).ne'
  have hid : sale.kot.orderId = sale.head.row.id := (congrArg Prod.fst hsale.kot.1).trans hsale.id.symm
  have hold : ((pushOps device skewMs now db pre).1.write device sale).kots.filter
      (fun k => k.orderId = sale.head.row.id) = [sale.kot] := by
    change (_ ++ [sale.kot]).filter _ = _
    rw [List.filter_append, List.filter_eq_nil_iff.mpr, List.nil_append]
    · exact List.filter_cons_of_pos (decide_eq_true hid)
    · intro k hk
      rw [decide_eq_true_eq, hsale.id]
      exact (lt_freshId_of_kot hk).ne
  rw [h.pushOps_eq, hkots, List.filter_append, hnone, List.append_nil, List.filter_map]
  have hcomp : ((fun k : Cloud.Kot => decide (k.orderId = sale.head.row.id)) ∘ fun k =>
      if ((pushOps device skewMs now db pre).1.write device sale).Updated device post k.orderId then
        refreshed (pushOps device skewMs now ((pushOps device skewMs now db pre).1.write device
          sale) post).1.orderItems k
      else k) = fun k => decide (k.orderId = sale.head.row.id) := by
    funext k
    rw [Function.comp_apply]
    split <;> rfl
  rw [hcomp, hold, List.map_singleton, hid]
  simp only [hsale.hasSale.updated_iff post]

end StoredIn

end Origin

end StelloKitchens
