import StelloKitchens.Cloud.Ingest

/-!
# Kitchen statuses in the cloud

What kitchen updates do to the lines and the tickets of the cloud. Which lines an update addresses
depends on everything of a line but its kitchen marks, so updates address the same lines in any
order, and a line ends with the status of the last update that set it.

## Main definitions

* `Cloud.OrderItem.frame` — a line without its kitchen marks.
* `CloudDb.statusesSet` — the statuses that a batch sets on a line, in order.
* `KitchenOnly` — two databases that differ in kitchen marks only.

## Main results

* `CloudDb.applyKotStatus_items`, `CloudDb.applyKotStatus_kots` — one update.
-/

namespace StelloKitchens

namespace Cloud.OrderItem

/-- The line without its kitchen marks. -/
def frame (i : OrderItem) : OrderItem := { i with prepStatus := .pending, preppedAt := none }

/-- The line without the time it was ready. -/
def untimed (i : OrderItem) : OrderItem := { i with preppedAt := none }

/-- The line with the last of these statuses, if there is one. -/
def withLast (i : OrderItem) (statuses : List PrepStatus) : OrderItem :=
  { i with prepStatus := statuses.getLast?.getD i.prepStatus }

theorem withLast_nil (i : OrderItem) : i.withLast [] = i := rfl

theorem withLast_append (i : OrderItem) (a b : List PrepStatus) :
    i.withLast (a ++ b) = (i.withLast a).withLast b := by
  rw [withLast, withLast, withLast, List.getLast?_append]
  cases b.getLast? <;> rfl

end Cloud.OrderItem

/-- The ticket without its status. -/
def Cloud.Kot.frame (k : Cloud.Kot) : Cloud.Kot := { k with status := .pending }

namespace CloudDb

open Cloud.OrderItem

/-! ### Which lines are addressed -/

section Addressing

variable {ls ls' : List Cloud.OrderItem}

theorem addressed_frame (kind : LineKind) (ls : List Cloud.OrderItem) :
    addressed kind (ls.map frame) = (addressed kind ls).map frame := by
  rw [addressed, addressed, List.filter_map]
  cases kind <;> rfl

theorem groupIds_frame (ls : List Cloud.OrderItem) (t : Cloud.OrderItem) :
    groupIds (ls.map frame) t.frame = groupIds ls t := by
  unfold groupIds
  have hgroup : t.frame.comboGroupId = t.comboGroupId := rfl
  rw [hgroup]
  split
  · rw [List.filter_map, List.map_map]
    rfl
  · rfl

theorem updatedIds_frame (ls : List Cloud.OrderItem) (s : KotStatusLine) :
    updatedIds (ls.map frame) s = updatedIds ls s := by
  rw [updatedIds, updatedIds, addressed_frame, List.getElem?_map]
  cases (addressed s.kind ls)[s.lineIndex]? with
  | none => rfl
  | some t => exact groupIds_frame ls t

/-- Lines that differ in their kitchen marks only are addressed alike. -/
theorem updatedIds_congr (h : ls.map frame = ls'.map frame) (s : KotStatusLine) :
    updatedIds ls s = updatedIds ls' s := by
  rw [← updatedIds_frame, h, updatedIds_frame]

/-- An update sets lines of the order it is about only. -/
theorem orderId_of_mem_updatedIds {db : CloudDb} {orderId : ℕ} {s : KotStatusLine} {id : ℕ × ℕ}
    (h : id ∈ updatedIds (db.linesOf orderId) s) : id.1 = orderId := by
  have hline : ∀ l ∈ db.linesOf orderId, l.id.1 = orderId := by
    intro l hl
    exact of_decide_eq_true (List.mem_filter.mp hl).2
  unfold updatedIds at h
  split at h
  · cases h
  · rename_i target htarget
    have hmem : target ∈ db.linesOf orderId :=
      (List.mem_filter.mp (List.mem_of_getElem? htarget)).1
    unfold groupIds at h
    split at h
    · obtain ⟨l, hl, rfl⟩ := List.mem_map.mp h
      exact hline l (List.mem_filter.mp hl).1
    · rw [List.mem_singleton.mp h]
      exact hline target hmem

end Addressing

/-! ### The statuses that are set -/

/-- The statuses that the lines of an update set on a line, in order. -/
def setBy (lines : List Cloud.OrderItem) (updates : List KotStatusLine) (i : Cloud.OrderItem) :
    List PrepStatus :=
  updates.filterMap fun s => if i.id ∈ updatedIds lines s then some s.prepStatus else none

/-- The statuses that one operation sets on a line. -/
def statusesSetBy (db : CloudDb) (device : EdgeDeviceContext) (op : EdgeOutboxOp)
    (i : Cloud.OrderItem) : List PrepStatus :=
  match op with
  | .order _ _ => []
  | .kotStatus _ clientId updates =>
    match db.findOrder device clientId with
    | none => []
    | some o => setBy (db.linesOf o.id) updates i

/-- The statuses that a batch sets on a line, in order. -/
def statusesSet (db : CloudDb) (device : EdgeDeviceContext) (ops : List EdgeOutboxOp)
    (i : Cloud.OrderItem) : List PrepStatus :=
  ops.flatMap fun op => db.statusesSetBy device op i

/-- The operation is a kitchen update of this stored order. -/
def UpdatedBy (db : CloudDb) (device : EdgeDeviceContext) (op : EdgeOutboxOp) (orderId : ℕ) :
    Prop :=
  match op with
  | .order _ _ => False
  | .kotStatus _ clientId _ => (db.findOrder device clientId).map (·.id) = some orderId

instance (db : CloudDb) (device : EdgeDeviceContext) (op : EdgeOutboxOp) (orderId : ℕ) :
    Decidable (db.UpdatedBy device op orderId) := by
  unfold UpdatedBy
  split <;> infer_instance

/-- The batch has a kitchen update of this stored order. -/
def Updated (db : CloudDb) (device : EdgeDeviceContext) (ops : List EdgeOutboxOp) (orderId : ℕ) :
    Prop :=
  ∃ op ∈ ops, db.UpdatedBy device op orderId

instance (db : CloudDb) (device : EdgeDeviceContext) (ops : List EdgeOutboxOp) (orderId : ℕ) :
    Decidable (db.Updated device ops orderId) := by
  unfold Updated
  infer_instance

theorem foldl_setStatus (now : Time) (lines : List Cloud.OrderItem)
    (updates : List KotStatusLine) (items : List Cloud.OrderItem) :
    (updates.foldl (setStatus now lines) items).map untimed =
      items.map fun i => (i.withLast (setBy lines updates i)).untimed := by
  induction updates generalizing items with
  | nil => rfl
  | cons s updates ih =>
    rw [List.foldl_cons, ih, setStatus, List.map_map]
    apply List.map_congr_left
    intro i _
    by_cases hi : i.id ∈ updatedIds lines s
    · have hset : setBy lines (s :: updates) i = [s.prepStatus] ++ setBy lines updates i := by
        rw [setBy, List.filterMap_cons, if_pos hi]
        rfl
      rw [hset, withLast_append, Function.comp_apply, if_pos hi]
      rfl
    · have hset : setBy lines (s :: updates) i = setBy lines updates i := by
        rw [setBy, List.filterMap_cons, if_neg hi]
        rfl
      rw [hset, Function.comp_apply, if_neg hi]

theorem frame_foldl_setStatus (now : Time) (lines : List Cloud.OrderItem)
    (updates : List KotStatusLine) (items : List Cloud.OrderItem) :
    (updates.foldl (setStatus now lines) items).map frame = items.map frame := by
  have hframe : ∀ ls : List Cloud.OrderItem, ls.map frame = (ls.map untimed).map frame := by
    intro ls
    rw [List.map_map]
    rfl
  rw [hframe, foldl_setStatus, List.map_map]
  rfl

end CloudDb

/-! ### Databases that differ in kitchen marks only -/

/-- The second database is the first with other kitchen marks. -/
structure KitchenOnly (db db' : CloudDb) : Prop where
  items : db'.orderItems.map Cloud.OrderItem.frame = db.orderItems.map Cloud.OrderItem.frame
  kots : db'.kots.map Cloud.Kot.frame = db.kots.map Cloud.Kot.frame
  rest : db' = { db with orderItems := db'.orderItems, kots := db'.kots }

namespace KitchenOnly

open CloudDb

variable {db db' db'' : CloudDb}

theorem refl (db : CloudDb) : KitchenOnly db db := ⟨rfl, rfl, rfl⟩

theorem trans (h : KitchenOnly db db') (h' : KitchenOnly db' db'') : KitchenOnly db db'' := by
  refine ⟨h'.items.trans h.items, h'.kots.trans h.kots, ?_⟩
  rw [h'.rest, h.rest]

theorem frame_linesOf (h : KitchenOnly db db') (orderId : ℕ) :
    (db'.linesOf orderId).map Cloud.OrderItem.frame =
      (db.linesOf orderId).map Cloud.OrderItem.frame := by
  have hcomm : ∀ ls : List Cloud.OrderItem,
      (ls.filter (·.orderId = orderId)).map Cloud.OrderItem.frame =
        (ls.map Cloud.OrderItem.frame).filter (·.orderId = orderId) := by
    intro ls
    rw [List.filter_map]
    rfl
  rw [linesOf, linesOf, hcomm, hcomm, h.items]

end KitchenOnly

/-! ### One update -/

namespace CloudDb

section Update

variable {db : CloudDb} {device : EdgeDeviceContext} {key clientId : String}
  {updates : List KotStatusLine} {now : Time}

theorem applyKotStatus_kitchenOnly :
    KitchenOnly db (db.applyKotStatus device key clientId updates now).1 := by
  unfold applyKotStatus
  split
  · exact .refl db
  · refine ⟨frame_foldl_setStatus _ _ _ _, ?_, rfl⟩
    rw [List.map_map]
    apply List.map_congr_left
    intro k _
    rw [Function.comp_apply, refreshTicket]
    split <;> rfl

theorem applyKotStatus_items :
    (db.applyKotStatus device key clientId updates now).1.orderItems.map Cloud.OrderItem.untimed =
      db.orderItems.map fun i =>
        (i.withLast (db.statusesSetBy device (.kotStatus key clientId updates) i)).untimed := by
  unfold applyKotStatus statusesSetBy
  dsimp only
  cases db.findOrder device clientId with
  | none => rfl
  | some o => exact foldl_setStatus _ _ _ _

/-- The status of a ticket depends on the statuses of the lines of its order. -/
theorem ticketStatusOf_congr {items items' : List Cloud.OrderItem} {k : Cloud.Kot}
    (h : (items.filter (·.orderId = k.orderId)).map Cloud.OrderItem.untimed =
      (items'.filter (·.orderId = k.orderId)).map Cloud.OrderItem.untimed) :
    ticketStatusOf items k = ticketStatusOf items' k := by
  have hiff : ∀ items : List Cloud.OrderItem,
      (∀ i ∈ items, i.orderId = k.orderId ∧ i.kot = some k.no → i.prepStatus = .ready) ↔
        ∀ i ∈ (items.filter (·.orderId = k.orderId)).map Cloud.OrderItem.untimed,
          i.kot = some k.no → i.prepStatus = .ready := by
    intro items
    simp only [List.mem_map, List.mem_filter, decide_eq_true_eq]
    constructor
    · rintro hall _ ⟨i, ⟨hi, horder⟩, rfl⟩ hkot
      exact hall i hi ⟨horder, hkot⟩
    · rintro hall i hi ⟨horder, hkot⟩
      exact hall i.untimed ⟨i, ⟨hi, horder⟩, rfl⟩ hkot
  unfold ticketStatusOf
  simp only [hiff items, hiff items', h]

theorem applyKotStatus_kots :
    (db.applyKotStatus device key clientId updates now).1.kots =
      db.kots.map fun k => if (db.findOrder device clientId).map (·.id) = some k.orderId then
        refreshed (db.applyKotStatus device key clientId updates now).1.orderItems k
      else k := by
  unfold applyKotStatus
  cases db.findOrder device clientId with
  | none => simp
  | some o =>
    apply List.map_congr_left
    intro k _
    rw [refreshTicket]
    by_cases hk : k.orderId = o.id
    · rw [if_pos hk]
      exact (if_pos (congrArg some hk.symm)).symm
    · rw [if_neg hk]
      exact (if_neg fun h => hk (Option.some_inj.mp h).symm).symm

end Update

end CloudDb

end StelloKitchens
