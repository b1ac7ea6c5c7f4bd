import StelloKitchens.Cloud.Orders

/-!
# What a batch makes of the database

Applying a batch adds the rows of the sales it stores and marks lines and tickets. The lines that
were there end with the last status the batch sets on them, and those of a sale it stores with the
last that the operations after it set.

## Main definitions

* `Grown` — one database comes from another by applying operations.
* `SaleOf` — the sale that an order is stored as.

## Main results

* `CloudDb.pushOps_grown` — a batch keeps what is there.
* `CloudDb.pushOps_items`, `CloudDb.pushOps_kots` — the lines and the tickets that were there.
* `CloudDb.exists_stored_of_item` — where the other lines come from.
-/

namespace StelloKitchens

open Checked CloudDb Cloud.OrderItem

/-! ### Databases that come from another -/

/-- The second database has the orders and the lines of the first, and new orders with new ids. -/
structure Grown (db db' : CloudDb) : Prop where
  freshId_le : db.freshId ≤ db'.freshId
  find? : ∀ k o, db.orders.find? k = some o → db'.orders.find? k = some o
  new : ∀ k o, db'.orders.find? k = some o → db.orders.find? k = some o ∨ db.freshId ≤ o.id
  lines : ∀ orderId < db.freshId, (db'.linesOf orderId).map frame = (db.linesOf orderId).map frame
  catalog : db'.items = db.items ∧ db'.combos = db.combos

namespace Grown

variable {db db' db'' : CloudDb} {device : EdgeDeviceContext} {orderId : ℕ}

theorem refl (db : CloudDb) : Grown db db :=
  ⟨le_rfl, fun _ _ h => h, fun _ _ h => .inl h, fun _ _ => rfl, rfl, rfl⟩

theorem of_conflicts {conflicts : List Cloud.EdgeSyncConflict} :
    Grown db { db with conflicts := conflicts } :=
  ⟨le_rfl, fun _ _ h => h, fun _ _ h => .inl h, fun _ _ => rfl, rfl, rfl⟩

theorem trans (h : Grown db db') (h' : Grown db' db'') : Grown db db'' where
  freshId_le := h.freshId_le.trans h'.freshId_le
  find? k o hk := h'.find? k o (h.find? k o hk)
  new k o hk := (h'.new k o hk).elim (h.new k o) fun hle => .inr (h.freshId_le.trans hle)
  lines orderId hid := (h'.lines orderId (hid.trans_le h.freshId_le)).trans (h.lines orderId hid)
  catalog := ⟨h'.catalog.1.trans h.catalog.1, h'.catalog.2.trans h.catalog.2⟩

theorem of_kitchenOnly (h : KitchenOnly db db') : Grown db db' := by
  have horders : db'.orders = db.orders := by rw [h.rest]
  have hfresh : db'.freshId = db.freshId := by
    have hitems : db'.orderItems.map (·.orderId) = db.orderItems.map (·.orderId) := by
      have := congrArg (List.map Cloud.OrderItem.orderId) h.items
      rwa [List.map_map, List.map_map] at this
    have hkots : db'.kots.map (·.orderId) = db.kots.map (·.orderId) := by
      have := congrArg (List.map Cloud.Kot.orderId) h.kots
      rwa [List.map_map, List.map_map] at this
    rw [freshId, freshId, hitems, hkots, horders]
  refine ⟨hfresh.ge, fun k o hk => horders ▸ hk, fun k o hk => .inl (horders ▸ hk),
    fun orderId _ => h.frame_linesOf orderId, ?_⟩
  rw [h.rest]
  exact ⟨rfl, rfl⟩

theorem findItem_eq (h : Grown db db') : db'.findItem device = db.findItem device := by
  funext id
  rw [findItem, h.catalog.1]
  rfl

theorem findCombo_eq (h : Grown db db') : db'.findCombo device = db.findCombo device := by
  funext id
  rw [findCombo, h.catalog.2]
  rfl

theorem storable_iff (h : Grown db db') (order : EdgeOrderInput) :
    db'.Storable device order ↔ db.Storable device order := by
  constructor
  · rintro ⟨hf, hi, hc⟩
    exact ⟨hf, h.findItem_eq ▸ hi, h.findCombo_eq ▸ hc⟩
  · rintro ⟨hf, hi, hc⟩
    exact ⟨hf, h.findItem_eq ▸ hi, h.findCombo_eq ▸ hc⟩

theorem findOrder_eq_some (h : Grown db db') {clientId : String} {o : Cloud.Order}
    (ho : db.findOrder device clientId = some o) : db'.findOrder device clientId = some o := by
  obtain ⟨hfind, howner⟩ := Option.filter_eq_some_iff.mp ho
  exact Option.filter_eq_some_iff.mpr ⟨h.find? _ _ hfind, howner⟩

theorem findOrder_new (h : Grown db db') {clientId : String} {o : Cloud.Order}
    (ho : db'.findOrder device clientId = some o) :
    db.findOrder device clientId = some o ∨ db.freshId ≤ o.id := by
  obtain ⟨hfind, howner⟩ := Option.filter_eq_some_iff.mp ho
  exact (h.new _ _ hfind).imp (fun hfind => Option.filter_eq_some_iff.mpr ⟨hfind, howner⟩) id

/-- An operation sets the same statuses on a line that was there. -/
theorem statusesSetBy_eq (h : Grown db db') (op : EdgeOutboxOp) {i : Cloud.OrderItem}
    (hi : i.orderId < db.freshId) :
    db'.statusesSetBy device op i = db.statusesSetBy device op i := by
  cases op with
  | order key order => rfl
  | kotStatus key clientId updates =>
    unfold statusesSetBy
    dsimp only
    cases ho : db.findOrder device clientId with
    | some o =>
      rw [h.findOrder_eq_some ho]
      dsimp only
      have hid : o.id < db.freshId :=
        lt_freshId_of_order (KeyedTable.find?_eq_some.mp (Option.filter_eq_some_iff.mp ho).1).1
      unfold setBy
      simp only [updatedIds_congr (h.lines o.id hid)]
    | none =>
      cases ho' : db'.findOrder device clientId with
      | none => rfl
      | some o' =>
        have hid : db.freshId ≤ o'.id := (h.findOrder_new ho').resolve_left (by rw [ho]; nofun)
        apply List.filterMap_eq_nil_iff.mpr
        intro s _
        apply if_neg
        intro hmem
        have : i.orderId = o'.id := orderId_of_mem_updatedIds hmem
        omega

theorem updatedBy_iff (h : Grown db db') (op : EdgeOutboxOp) (hid : orderId < db.freshId) :
    db'.UpdatedBy device op orderId ↔ db.UpdatedBy device op orderId := by
  cases op with
  | order key order => exact Iff.rfl
  | kotStatus key clientId updates =>
    unfold UpdatedBy
    simp only [Option.map_eq_some_iff]
    constructor
    · rintro ⟨o, ho, rfl⟩
      refine ⟨o, (h.findOrder_new ho).resolve_right (by omega), rfl⟩
    · rintro ⟨o, ho, rfl⟩
      exact ⟨o, h.findOrder_eq_some ho, rfl⟩

end Grown

/-! ### One operation -/

/-- How many components the combo lines of an order have. -/
def CloudDb.componentCount (db : CloudDb) (device : EdgeDeviceContext)
    (line : EdgeComboLineInput) : ℕ :=
  ((db.findCombo device line.comboId).elim [] fun combo => combo.slots.filterMap fun slot =>
    (truthy (chosenOption line slot).1).bind (db.findItem device)).length

/-- The sale that an order is stored as. -/
structure SaleOf (db : CloudDb) (device : EdgeDeviceContext) (order : EdgeOrderInput)
    (sale : Sale) : Prop where
  key : sale.head.row.saleKey = (device.terminalId, order.clientId)
  id : sale.head.row.id = db.freshId
  owner : sale.head.row.tenantId = device.tenantId ∧ sale.head.row.outletId = device.outletId
  rows : SaleRows order db.freshId (db.componentCount device) sale.lines.rows
  kot : sale.kot.id = (db.freshId, 0) ∧ sale.kot.status = ticketStatus order

/-- What an operation does to the orders, the lines and the tickets. -/
inductive OpApplied (db : CloudDb) (device : EdgeDeviceContext) : EdgeOutboxOp → CloudDb → Prop
  | stored (key : String) (order : EdgeOrderInput) (sale : Sale)
      (hfree : db.orders.find? (device.terminalId, order.clientId) = none)
      (hstorable : db.Storable device order) (hsale : SaleOf db device order sale) :
      OpApplied db device (.order key order) (db.write device sale)
  | kept (key : String) (order : EdgeOrderInput) (db' : CloudDb)
      (hnot : db.orders.find? (device.terminalId, order.clientId) = none →
        ¬db.Storable device order)
      (hrest : db' = { db with conflicts := db'.conflicts }) :
      OpApplied db device (.order key order) db'
  | updated (key clientId : String) (updates : List KotStatusLine) (db' : CloudDb)
      (hkitchen : KitchenOnly db db')
      (hitems : db'.orderItems.map untimed = db.orderItems.map fun i =>
        (i.withLast (db.statusesSetBy device (.kotStatus key clientId updates) i)).untimed)
      (hkots : db'.kots = db.kots.map fun k =>
        if db.UpdatedBy device (.kotStatus key clientId updates) k.orderId then
          refreshed db'.orderItems k
        else k) :
      OpApplied db device (.kotStatus key clientId updates) db'

section Op

variable {db : CloudDb} {device : EdgeDeviceContext} {skewMs : ℤ} {now : Time}

theorem CloudDb.findOrder_eq_none (clientId : String)
    (h : db.orders.find? (device.terminalId, clientId) = none) :
    db.findOrder device clientId = none := by
  rw [findOrder, h]
  rfl

theorem applyOp_cases (op : EdgeOutboxOp) :
    OpApplied db device op (db.applyOp device skewMs now op).1 := by
  cases op with
  | kotStatus key clientId updates =>
    exact .updated key clientId updates _ applyKotStatus_kitchenOnly applyKotStatus_items
      applyKotStatus_kots
  | order key order =>
    change OpApplied db device _ (db.applyOrder device key order skewMs now).1
    have hcases := applyOrder_cases db device key order skewMs now
    generalize db.applyOrder device key order skewMs now = res at hcases
    cases hcases with
    | duplicate o ho =>
      refine .kept key order db (fun hfree => ?_) rfl
      rw [findOrder_eq_none _ hfree] at ho
      cases ho
    | stored totals lines hfree hfigures hlines =>
      exact .stored key order _ hfree (storable_iff.mpr ⟨⟨totals, hfigures⟩, lines, hlines⟩)
        { key := rfl
          id := rfl
          owner := ⟨rfl, rfl⟩
          rows := saleRows_of_saleLines hlines
          kot := ⟨rfl, rfl⟩ }
    | taken hfind totals htaken hfigures =>
      refine .kept key order db (fun hfree => ?_) rfl
      rw [hfree] at htaken
      cases htaken
    | rejected message hfind hrefused hwhy => exact .kept key order _ (fun _ => hrefused) rfl

/-! ### The rows of a stored sale -/

section Write

variable {order : EdgeOrderInput} {sale : Sale} (hsale : SaleOf db device order sale)
  (hfree : db.orders.find? (device.terminalId, order.clientId) = none)

include hsale

theorem SaleOf.find?_write (k : String × String) :
    (db.write device sale).orders.find? k =
      if k = (device.terminalId, order.clientId) then some sale.head.row
      else db.orders.find? k := by
  rw [← hsale.key]
  change (db.orders.put sale.head.row).find? k = _
  split
  · subst k
    exact KeyedTable.find?_put_self
  · exact KeyedTable.find?_put_of_ne ‹_›

/-- The order as its device sees it. -/
theorem SaleOf.findOrder_write :
    (db.write device sale).findOrder device order.clientId = some sale.head.row := by
  rw [findOrder, hsale.find?_write, if_pos rfl]
  exact Option.filter_eq_some_iff.mpr ⟨rfl, decide_eq_true hsale.owner⟩

theorem SaleOf.linesOf_write_of_lt {orderId : ℕ} (hid : orderId < db.freshId) :
    (db.write device sale).linesOf orderId = db.linesOf orderId := by
  change (db.orderItems ++ sale.lines.rows).filter _ = _
  have hnone : sale.lines.rows.filter (fun i => i.orderId = orderId) = [] := by
    apply List.filter_eq_nil_iff.mpr
    intro row hrow
    rw [hsale.rows.orderId_eq hrow, decide_eq_true_eq]
    exact hid.ne'
  rw [List.filter_append, hnone, List.append_nil]
  rfl

/-- The lines of the order are those of the sale. -/
theorem SaleOf.linesOf_write : (db.write device sale).linesOf db.freshId = sale.lines.rows := by
  change (db.orderItems ++ sale.lines.rows).filter _ = _
  rw [List.filter_append, List.filter_eq_nil_iff.mpr, List.filter_eq_self.mpr, List.nil_append]
  · intro row hrow
    rw [hsale.rows.orderId_eq hrow, decide_eq_true_eq]
  · intro i hi
    rw [decide_eq_true_eq]
    exact (lt_freshId_of_item hi).ne

/-- The ids of the sale are in use. -/
theorem SaleOf.freshId_lt : db.freshId < (db.write device sale).freshId := by
  have hmem : sale.head.row ∈ (db.write device sale).orders.rows :=
    (KeyedTable.find?_eq_some.mp ((hsale.find?_write _).trans (if_pos rfl))).1
  have := lt_freshId_of_order hmem
  rwa [hsale.id] at this

/-- The order is the only one with its id. -/
theorem SaleOf.key_eq_of_id {k : String × String} {o : Cloud.Order}
    (ho : (db.write device sale).orders.find? k = some o) (hid : o.id = db.freshId) :
    k = (device.terminalId, order.clientId) := by
  rw [hsale.find?_write] at ho
  split at ho
  · assumption
  · exact absurd hid (lt_freshId_of_order (KeyedTable.find?_eq_some.mp ho).1).ne

include hfree

theorem SaleOf.grown : Grown db (db.write device sale) := by
  have hrows : (db.write device sale).orders.rows = db.orders.rows ++ [sale.head.row] :=
    KeyedTable.rows_upsert_of_none (fun _ _ => rfl) (hsale.key ▸ hfree)
  refine ⟨freshId_le (fun o ho => ?_) (fun i hi => ?_) (fun k hk => ?_), fun k o hk => ?_,
    fun k o hk => ?_, fun orderId hid => ?_, rfl, rfl⟩
  · apply lt_freshId_of_order
    rw [hrows]
    exact List.mem_append_left _ ho
  · exact lt_freshId_of_item (List.mem_append_left _ hi)
  · exact lt_freshId_of_kot (List.mem_append_left _ hk)
  · rw [hsale.find?_write, if_neg]
    · exact hk
    · rintro rfl
      rw [hfree] at hk
      cases hk
  · rw [hsale.find?_write] at hk
    split at hk
    · rw [← Option.some_inj.mp hk, hsale.id]
      exact .inr le_rfl
    · exact .inl hk
  · rw [hsale.linesOf_write_of_lt hid]

end Write

theorem applyOp_grown (op : EdgeOutboxOp) : Grown db (db.applyOp device skewMs now op).1 := by
  have hcases := @applyOp_cases db device skewMs now op
  generalize (db.applyOp device skewMs now op).1 = db' at hcases
  cases hcases with
  | stored key order sale hfree hstorable hsale => exact hsale.grown hfree
  | kept key order db' hnot hrest =>
    rw [hrest]
    exact .of_conflicts
  | updated key clientId updates db' hkitchen hitems hkots => exact .of_kitchenOnly hkitchen

/-! ### The lines and the tickets of before -/

/-- The lines after an operation are those of before, as it set them, and those of a new order. -/
theorem applyOp_items (op : EdgeOutboxOp) :
    ∃ new : List Cloud.OrderItem, (db.applyOp device skewMs now op).1.orderItems.map untimed =
        (db.orderItems.map fun i => (i.withLast (db.statusesSetBy device op i)).untimed) ++
          new.map untimed ∧
      ∀ i ∈ new, i.orderId = db.freshId := by
  have hcases := @applyOp_cases db device skewMs now op
  generalize (db.applyOp device skewMs now op).1 = db' at hcases
  cases hcases with
  | stored key order sale hfree hstorable hsale =>
    refine ⟨sale.lines.rows, ?_, fun i hi => hsale.rows.orderId_eq hi⟩
    exact List.map_append
  | kept key order db' hnot hrest =>
    rw [hrest]
    exact ⟨[], (List.append_nil _).symm, List.forall_mem_nil _⟩
  | updated key clientId updates db' hkitchen hitems hkots =>
    exact ⟨[], by rw [hitems, List.map_nil, List.append_nil], List.forall_mem_nil _⟩

theorem statusesSetBy_eq_nil {op : EdgeOutboxOp} {i : Cloud.OrderItem}
    (h : ¬db.UpdatedBy device op i.orderId) : db.statusesSetBy device op i = [] := by
  cases op with
  | order key order => rfl
  | kotStatus key clientId updates =>
    change (db.findOrder device clientId).map (·.id) ≠ some i.orderId at h
    unfold statusesSetBy
    dsimp only
    cases ho : db.findOrder device clientId with
    | none => rfl
    | some o =>
      apply List.filterMap_eq_nil_iff.mpr
      intro s _
      apply if_neg
      intro hmem
      have hid : i.orderId = o.id := orderId_of_mem_updatedIds hmem
      rw [ho, hid] at h
      exact h rfl

/-- A ticket of before has the same ready lines after an operation that does not update it. -/
theorem ticketStatusOf_applyOp {op : EdgeOutboxOp} {k : Cloud.Kot} (hk : k.orderId < db.freshId)
    (h : ¬db.UpdatedBy device op k.orderId) :
    ticketStatusOf (db.applyOp device skewMs now op).1.orderItems k =
      ticketStatusOf db.orderItems k := by
  have hfilter : ∀ items : List Cloud.OrderItem,
      (items.filter (·.orderId = k.orderId)).map untimed =
        (items.map untimed).filter (·.orderId = k.orderId) := by
    intro items
    rw [List.filter_map]
    rfl
  obtain ⟨new, hitems, hnew⟩ := @applyOp_items db device skewMs now op
  apply ticketStatusOf_congr
  have hnone : (new.map untimed).filter (·.orderId = k.orderId) = [] := by
    apply List.filter_eq_nil_iff.mpr
    simp only [List.forall_mem_map, decide_eq_true_eq]
    intro i hi
    exact (hnew i hi).symm ▸ hk.ne'
  rw [hfilter, hfilter, hitems, List.filter_append, hnone, List.append_nil, List.filter_map,
    List.filter_map]
  apply List.map_congr_left
  intro i hi
  have hid : i.orderId = k.orderId := of_decide_eq_true (List.mem_filter.mp hi).2
  rw [statusesSetBy_eq_nil (hid ▸ h), withLast_nil]

/-- The tickets after an operation are those of before, brought up to date if it updates their
order, and that of a new order. -/
theorem applyOp_kots (op : EdgeOutboxOp) :
    ∃ new, (db.applyOp device skewMs now op).1.kots =
        (db.kots.map fun k => if db.UpdatedBy device op k.orderId then
          refreshed (db.applyOp device skewMs now op).1.orderItems k else k) ++ new ∧
      ∀ k ∈ new, k.orderId = db.freshId := by
  have hcases := @applyOp_cases db device skewMs now op
  generalize (db.applyOp device skewMs now op).1 = db' at hcases
  cases hcases with
  | stored key order sale hfree hstorable hsale =>
    refine ⟨[sale.kot], congrArg (· ++ _) (List.map_id _).symm, fun k hk => ?_⟩
    rw [List.mem_singleton.mp hk]
    exact congrArg Prod.fst hsale.kot.1
  | kept key order db' hnot hrest =>
    rw [hrest]
    exact ⟨[], (congrArg (· ++ []) (List.map_id _)).trans (List.append_nil _) |>.symm, List.forall_mem_nil _⟩
  | updated key clientId updates db' hkitchen hitems hkots =>
    exact ⟨[], by rw [List.append_nil, hkots], List.forall_mem_nil _⟩

end Op

/-! ### A batch -/

section Batch

variable {device : EdgeDeviceContext} {skewMs : ℤ} {now : Time} {db : CloudDb}

theorem pushOps_grown (ops : List EdgeOutboxOp) :
    Grown db (pushOps device skewMs now db ops).1 := by
  induction ops generalizing db with
  | nil => exact .refl db
  | cons op ops ih =>
    rw [pushOps_cons]
    exact (applyOp_grown op).trans ih

theorem Grown.statusesSet_eq {db' : CloudDb} (h : Grown db db') (ops : List EdgeOutboxOp)
    {i : Cloud.OrderItem} (hi : i.orderId < db.freshId) :
    db'.statusesSet device ops i = db.statusesSet device ops i :=
  List.flatMap_congr fun op _ => h.statusesSetBy_eq op hi

theorem Grown.updated_iff {db' : CloudDb} (h : Grown db db') (ops : List EdgeOutboxOp)
    {orderId : ℕ} (hid : orderId < db.freshId) :
    db'.Updated device ops orderId ↔ db.Updated device ops orderId :=
  exists_congr fun op => and_congr_right fun _ => h.updatedBy_iff op hid

/-- The lines after a batch are those of before with the last status it set, and those of new
orders. -/
theorem pushOps_items (ops : List EdgeOutboxOp) :
    ∃ new : List Cloud.OrderItem, (pushOps device skewMs now db ops).1.orderItems.map untimed =
        (db.orderItems.map fun i => (i.withLast (db.statusesSet device ops i)).untimed) ++
          new.map untimed ∧
      ∀ i ∈ new, db.freshId ≤ i.orderId := by
  induction ops generalizing db with
  | nil => exact ⟨[], (List.append_nil _).symm, List.forall_mem_nil _⟩
  | cons op ops ih =>
    set db₁ := (db.applyOp device skewMs now op).1 with hdb₁
    have hgrown : Grown db db₁ := applyOp_grown op
    obtain ⟨new₁, hitems₁, hnew₁⟩ := @applyOp_items db device skewMs now op
    obtain ⟨new, hitems, hnew⟩ := @ih db₁
    -- What the later operations do to a line depends on neither its times nor its status.
    set g : Cloud.OrderItem → Cloud.OrderItem :=
      fun i => (i.withLast (db₁.statusesSet device ops i)).untimed
    have hg : db₁.orderItems.map g = (db₁.orderItems.map untimed).map g := by
      rw [List.map_map]
      rfl
    rw [pushOps_cons, hitems, hg, hitems₁, List.map_append, List.map_map, List.append_assoc]
    refine ⟨new₁.map (g ∘ untimed) ++ new, ?_, fun i hi => ?_⟩
    · rw [List.map_append, List.map_map, List.map_map]
      congr 1
      apply List.map_congr_left
      intro i hi
      have hset : db₁.statusesSet device ops i = db.statusesSet device ops i :=
        hgrown.statusesSet_eq ops (lt_freshId_of_item hi)
      change ((i.withLast _).withLast (db₁.statusesSet device ops i)).untimed = _
      rw [hset, ← withLast_append]
      rfl
    · rcases List.mem_append.mp hi with hi | hi
      · obtain ⟨j, hj, rfl⟩ := List.mem_map.mp hi
        exact (hnew₁ j hj).ge
      · exact hgrown.freshId_le.trans (hnew i hi)

/-- A ticket of before has the same ready lines after a batch that does not update it. -/
theorem ticketStatusOf_pushOps {ops : List EdgeOutboxOp} {k : Cloud.Kot}
    (hk : k.orderId < db.freshId) (h : ¬db.Updated device ops k.orderId) :
    ticketStatusOf (pushOps device skewMs now db ops).1.orderItems k =
      ticketStatusOf db.orderItems k := by
  induction ops generalizing db with
  | nil => rfl
  | cons op ops ih =>
    have hgrown : Grown db (db.applyOp device skewMs now op).1 := applyOp_grown op
    rw [pushOps_cons, ih (hk.trans_le hgrown.freshId_le), ticketStatusOf_applyOp hk]
    · exact fun hop => h ⟨op, List.mem_cons_self, hop⟩
    · rintro ⟨op', hop', hupdated⟩
      exact h ⟨op', List.mem_cons_of_mem _ hop', (hgrown.updatedBy_iff op' hk).mp hupdated⟩

/-- The tickets after a batch are those of before, brought up to date if it updates their order,
and those of new orders. -/
theorem pushOps_kots (ops : List EdgeOutboxOp) :
    ∃ new : List Cloud.Kot, (pushOps device skewMs now db ops).1.kots =
        (db.kots.map fun k => if db.Updated device ops k.orderId then
          refreshed (pushOps device skewMs now db ops).1.orderItems k else k) ++ new ∧
      ∀ k ∈ new, db.freshId ≤ k.orderId := by
  induction ops generalizing db with
  | nil =>
    refine ⟨[], ?_, List.forall_mem_nil _⟩
    have hnot : ∀ k : Cloud.Kot, ¬db.Updated device [] k.orderId := fun k ⟨op, hop, _⟩ => nomatch hop
    simp only [hnot, if_false, List.map_id', List.append_nil]
    rfl
  | cons op ops ih =>
    set db₁ := (db.applyOp device skewMs now op).1 with hdb₁
    have hgrown : Grown db db₁ := applyOp_grown op
    obtain ⟨new₁, hkots₁, hnew₁⟩ := @applyOp_kots db device skewMs now op
    obtain ⟨new, hkots, hnew⟩ := @ih db₁
    set items := (pushOps device skewMs now db₁ ops).1.orderItems with hitems
    set f : Cloud.Kot → Cloud.Kot :=
      fun k => if db₁.Updated device ops k.orderId then refreshed items k else k with hf
    have hid : ∀ k, (f k).orderId = k.orderId := by
      intro k
      rw [hf]
      dsimp only
      split <;> rfl
    rw [pushOps_cons, hkots, hkots₁, List.map_append, List.map_map, List.append_assoc]
    refine ⟨new₁.map f ++ new, ?_, fun k hk => ?_⟩
    · congr 1
      apply List.map_congr_left
      intro k hk
      have hlt := lt_freshId_of_kot hk
      have hlater : db₁.Updated device ops k.orderId ↔ db.Updated device ops k.orderId :=
        hgrown.updated_iff ops hlt
      have hsplit : db.Updated device (op :: ops) k.orderId ↔
          db.UpdatedBy device op k.orderId ∨ db.Updated device ops k.orderId := by
        simp only [Updated, List.mem_cons, exists_eq_or_imp]
      rw [Function.comp_apply]
      by_cases hop : db.UpdatedBy device op k.orderId
      · rw [if_pos hop, if_pos (hsplit.mpr (.inl hop))]
        change (if db₁.Updated device ops k.orderId then refreshed items k
          else refreshed db₁.orderItems k) = refreshed items k
        split
        · rfl
        · -- The last update of the ticket is this operation, and its lines stay as they are.
          rename_i hops
          rw [refreshed, refreshed, hitems,
            ticketStatusOf_pushOps (hlt.trans_le hgrown.freshId_le) hops]
      · rw [if_neg hop, hf]
        simp only [hlater, hsplit, hop, false_or]
        rfl
    · rcases List.mem_append.mp hk with hk | hk
      · obtain ⟨j, hj, rfl⟩ := List.mem_map.mp hk
        rw [hid]
        exact (hnew₁ j hj).ge
      · exact hgrown.freshId_le.trans (hnew k hk)

end Batch

end StelloKitchens
