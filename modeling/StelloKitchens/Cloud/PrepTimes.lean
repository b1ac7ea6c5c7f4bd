import StelloKitchens.Cloud.Batch
import StelloKitchens.Lib.Machine

/-!
# Preparation times

The times of a device's sale are corrected by the skew that the push measured, and never later than
the push. The times at which its lines were ready are not corrected, only capped, when the sale is
stored and when a later kitchen update sets them. With a slow device clock a line can therefore be
ready before its order was opened.

## Main definitions

* `DevicePush`, `devicePushes` — the pushes of devices, one after another, as time goes on.
* `TimesInOrder` — lines are ready, and payments are taken, after their order was opened.
* `OpTimely` — no line is ready before the time at which its order was opened by the server.

## Main results

* `prep_times` — the times are in order after pushes that are timely.
* `opTimely_of_fast` — the sales of a device whose clock is not slow are.
* `not_prep_times` — a sale of a slow device.
-/

namespace StelloKitchens

open Checked CloudDb

/-! ### Pushes -/

/-- A push that arrives some time after the one before. -/
structure DevicePush where
  device : EdgeDeviceContext
  input : EdgePushInput
  elapsed : ℕ

/-- Before the first push. -/
structure NoSales (db : CloudDb) : Prop where
  orders : db.orders = .empty
  orderItems : db.orderItems = []
  payments : db.payments = []

/-- Pushes, one after another. -/
def devicePushes : Machine (CloudDb × Time) DevicePush where
  init s := NoSales s.1
  step s p := ((s.1.push p.device p.input (s.2 + p.elapsed)).1, s.2 + p.elapsed)

/-! ### Times in order -/

/-- Every line that is ready was so after its order was opened, and every payment was taken after
that; no time is in the future. -/
structure TimesInOrder (db : CloudDb) (now : Time) : Prop where
  opened : ∀ o ∈ db.orders, o.createdAt ≤ now
  ready : ∀ o ∈ db.orders, ∀ i ∈ db.orderItems, i.orderId = o.id → i.prepStatus = .ready →
    ∃ t, i.preppedAt = some t ∧ o.createdAt ≤ t ∧ t ≤ now
  closed : ∀ o ∈ db.orders, ∀ p ∈ db.payments, p.orderId = o.id →
    o.createdAt ≤ p.createdAt ∧ p.createdAt ≤ now

theorem TimesInOrder.later {db : CloudDb} {now now' : Time} (h : TimesInOrder db now)
    (hle : now ≤ now') : TimesInOrder db now' where
  opened o ho := (h.opened o ho).trans hle
  ready o ho i hi hid hready := by
    obtain ⟨t, ht, hopened, hnow⟩ := h.ready o ho i hi hid hready
    exact ⟨t, ht, hopened, hnow.trans hle⟩
  closed o ho p hp hid := ⟨(h.closed o ho p hp hid).1, (h.closed o ho p hp hid).2.trans hle⟩

/-- The kitchen marks of the lines of an order. -/
def EdgeOrderInput.marks (order : EdgeOrderInput) : List (PrepStatus × Option Stamp) :=
  order.items.map (fun l => (l.prepStatus, l.preppedAt)) ++
    order.combos.map fun l => (l.prepStatus, l.preppedAt)

/-- By the device's own clock, the order was opened before it was closed and before any of its
lines was ready. -/
structure DeviceTimes (order : EdgeOrderInput) (createdAt closedAt : Time) : Prop where
  createdAt_eq : order.createdAt.parse = some createdAt
  closedAt_eq : order.closedAt.parse = some closedAt
  closed : createdAt ≤ closedAt
  prepped : ∀ m ∈ order.marks, ∀ t ∈ m.2.bind Stamp.parse, createdAt ≤ t

/-- The lines that are ready were so, by the device's clock, after the time at which the server has
the order opened. -/
def OpTimely (db : CloudDb) (device : EdgeDeviceContext) (skewMs : ℤ) (now : Time) :
    EdgeOutboxOp → Prop
  | .order _ order => (∃ createdAt closedAt, DeviceTimes order createdAt closedAt) ∧
      ∀ m ∈ order.marks, m.1 = .ready → ∀ t ∈ m.2.bind Stamp.parse,
        corrected now skewMs order.createdAt ≤ t
  | .kotStatus _ clientId lines => ∀ o ∈ db.findOrder device clientId, ∀ s ∈ lines,
      s.prepStatus = .ready → ∀ t ∈ s.preppedAt.bind Stamp.parse, o.createdAt ≤ t

/-- Every operation of a push is timely where it is applied. -/
def Timely (s : CloudDb × Time) (p : DevicePush) : Prop :=
  let now := s.2 + p.elapsed
  let skewMs := clockSkewMs now p.input.deviceTime
  ∀ pre op post, p.input.ops = pre ++ op :: post →
    OpTimely (pushOps p.device skewMs now s.1 pre).1 p.device skewMs now op

/-! ### The lines that a sale stores -/

section Lines

variable {r : Reads} {closedAt : Time}

/-- The line has the mark of one of these lines. -/
def Marked (r : Reads) (closedAt : Time) (marks : List (PrepStatus × Option Stamp))
    (row : Cloud.OrderItem) : Prop :=
  ∃ m ∈ marks, row.prepStatus = m.1 ∧ row.preppedAt = readyAt r closedAt m.1 m.2

theorem marked_componentRow {marks : List (PrepStatus × Option Stamp)} {comboId : String}
    {group : ℕ}
    {line : EdgeComboLineInput} (hline : (line.prepStatus, line.preppedAt) ∈ marks)
    {acc : SaleLines} (hacc : ∀ row ∈ acc.rows, Marked r closedAt marks row)
    (itemId : Option String) :
    ∀ row ∈ (componentRow r closedAt comboId group line acc itemId).rows,
      Marked r closedAt marks row := by
  unfold componentRow
  split
  · exact hacc
  · intro row hrow
    rcases List.mem_append.mp hrow with hrow | hrow
    · exact hacc row hrow
    · rw [List.mem_singleton.mp hrow]
      exact ⟨_, hline, rfl, rfl⟩

/-- Every stored line has the mark of a line of the order. -/
theorem marked_of_saleLines {order : EdgeOrderInput} {lines : SaleLines}
    (h : saleLines r order closedAt = .ok lines) :
    ∀ row ∈ lines.rows, Marked r closedAt order.marks row := by
  unfold saleLines at h
  obtain ⟨acc, hitems, hcombos⟩ := bind_eq_ok.mp h
  let P (acc : SaleLines) := ∀ row ∈ acc.rows, Marked r closedAt order.marks row
  refine foldlM_invariant P (fun acc line acc' hacc hline h => ?_) hcombos
    (foldlM_invariant P (fun acc line acc' hacc hline h => ?_) hitems fun row hrow => nomatch hrow)
  · have hmark : (line.1.prepStatus, line.1.preppedAt) ∈ order.marks :=
      List.mem_append_right _ (List.mem_map_of_mem (List.fst_mem_of_mem_zipIdx hline))
    unfold comboRows at h
    obtain ⟨combo, -, h⟩ := bind_eq_ok.mp h
    rw [← pure_eq_ok.mp h]
    refine List.foldlRecOn _ _ (motive := fun acc : SaleLines => ∀ row ∈ acc.rows,
      Marked r closedAt order.marks row) (fun row hrow => ?_) fun acc hacc c _ =>
        marked_componentRow hmark hacc c.1
    rcases List.mem_append.mp hrow with hrow | hrow
    · exact hacc row hrow
    · rw [List.mem_singleton.mp hrow]
      exact ⟨_, hmark, rfl, rfl⟩
  · unfold itemRow at h
    obtain ⟨item, -, h⟩ := bind_eq_ok.mp h
    rw [← pure_eq_ok.mp h]
    intro row hrow
    rcases List.mem_append.mp hrow with hrow | hrow
    · exact hacc row hrow
    · rw [List.mem_singleton.mp hrow]
      exact ⟨_, List.mem_append_left _ (List.mem_map_of_mem hline), rfl, rfl⟩

end Lines

/-! ### What operations keep -/

/-- The times are in order, and every row is of one order at most. -/
structure Kept (db : CloudDb) (now : Time) : Prop extends TimesInOrder db now where
  paid : ∀ p ∈ db.payments, p.orderId < db.freshId
  unique : ∀ o ∈ db.orders, ∀ o' ∈ db.orders, o.id = o'.id → o = o'

section Op

variable {db : CloudDb} {device : EdgeDeviceContext} {skewMs : ℤ} {now : Time}

theorem corrected_le (t : Stamp) : corrected now skewMs t ≤ now := by
  unfold corrected
  cases t.parse with
  | none => exact le_rfl
  | some t => exact min_le_right _ _

/-- A sale is opened before it is closed. -/
theorem corrected_le_corrected {order : EdgeOrderInput} {createdAt closedAt : Time}
    (h : DeviceTimes order createdAt closedAt) :
    corrected now skewMs order.createdAt ≤ corrected now skewMs order.closedAt := by
  unfold corrected
  rw [h.createdAt_eq, h.closedAt_eq]
  exact min_le_min_right now (by have := h.closed; simp only [Time] at *; omega)

/-- A line that is ready was so after the sale was opened. -/
theorem readyAt_spec {order : EdgeOrderInput} {createdAt closedAt : Time}
    (h : DeviceTimes order createdAt closedAt) {r : Reads} {m : PrepStatus × Option Stamp}
    (hready : m.1 = .ready) (htimely : ∀ t ∈ m.2.bind Stamp.parse,
      corrected r.now skewMs order.createdAt ≤ t) :
    ∃ t, readyAt r (corrected r.now skewMs order.closedAt) m.1 m.2 = some t ∧
      corrected r.now skewMs order.createdAt ≤ t ∧ t ≤ r.now := by
  rw [readyAt, if_pos hready]
  cases hparse : m.2.bind Stamp.parse with
  | none => exact ⟨_, rfl, corrected_le_corrected h, corrected_le _⟩
  | some t =>
    exact ⟨_, rfl, le_min (htimely t hparse) (corrected_le _), min_le_right _ _⟩

/-- A line that an update sets to ready was so after its order was opened. -/
theorem updateReadyAt_spec {s : KotStatusLine} {createdAt : Time} (hready : s.prepStatus = .ready)
    (hopened : createdAt ≤ now) (htimely : ∀ t ∈ s.preppedAt.bind Stamp.parse, createdAt ≤ t) :
    ∃ t, updateReadyAt now s = some t ∧ createdAt ≤ t ∧ t ≤ now := by
  rw [updateReadyAt, if_pos hready]
  cases hparse : s.preppedAt.bind Stamp.parse with
  | none => exact ⟨_, rfl, hopened, le_rfl⟩
  | some t => exact ⟨_, rfl, le_min (htimely t hparse) hopened, min_le_right _ _⟩

/-- Storing a timely sale keeps the times in order. -/
theorem Kept.write {order : EdgeOrderInput} {sale : Sale} (h : Kept db now)
    (hsale : SaleOf db device order sale) {closedAt : Time}
    (hopened : sale.head.row.createdAt ≤ closedAt) (hclosed : closedAt ≤ now)
    (hready : ∀ row ∈ sale.lines.rows, row.prepStatus = .ready →
      ∃ t, row.preppedAt = some t ∧ sale.head.row.createdAt ≤ t ∧ t ≤ now)
    (hpaid : ∀ p ∈ sale.payments, p.orderId = db.freshId ∧ p.createdAt = closedAt) :
    Kept (db.write device sale) now := by
  have hid : ∀ o ∈ (db.write device sale).orders,
      o = sale.head.row ∨ (o ∈ db.orders ∧ o.id < db.freshId) := by
    intro o ho
    rcases KeyedTable.mem_put.mp ho with rfl | ⟨ho, -⟩
    · exact .inl rfl
    · exact .inr ⟨ho, lt_freshId_of_order ho⟩
  refine ⟨⟨fun o ho => ?_, fun o ho i hi horder hstatus => ?_, fun o ho p hp horder => ?_⟩,
    fun p hp => ?_, fun o ho o' ho' heq => ?_⟩
  · rcases hid o ho with rfl | ⟨ho, -⟩
    · exact hopened.trans hclosed
    · exact h.opened o ho
  · rcases List.mem_append.mp hi with hi | hi
    · have hlt := lt_freshId_of_item hi
      rcases hid o ho with rfl | ⟨ho, -⟩
      · rw [hsale.id] at horder
        omega
      · exact h.ready o ho i hi horder hstatus
    · have hrow := hsale.rows.orderId_eq hi
      rcases hid o ho with rfl | ⟨-, hlt⟩
      · exact hready i hi hstatus
      · omega
  · rcases List.mem_append.mp hp with hp | hp
    · have hlt := h.paid p hp
      rcases hid o ho with rfl | ⟨ho, -⟩
      · rw [hsale.id] at horder
        omega
      · exact h.closed o ho p hp horder
    · obtain ⟨hnew, hcreated⟩ := hpaid p hp
      rcases hid o ho with rfl | ⟨-, hlt⟩
      · exact hcreated ▸ ⟨hopened, hclosed⟩
      · omega
  · have hlt := hsale.freshId_lt
    rcases List.mem_append.mp hp with hp | hp
    · exact (h.paid p hp).trans hlt
    · exact (hpaid p hp).1 ▸ hlt
  · have hnew := hsale.id
    rcases hid o ho with rfl | ⟨ho, hlt⟩ <;> rcases hid o' ho' with rfl | ⟨ho', hlt'⟩
    · rfl
    · omega
    · omega
    · exact h.unique o ho o' ho' heq

theorem Kept.applyOrder {key : String} {order : EdgeOrderInput} (h : Kept db now)
    (htimely : OpTimely db device skewMs now (.order key order)) :
    Kept (db.applyOrder device key order skewMs now).1 now := by
  obtain ⟨⟨createdAt, closedAt, hdevice⟩, hmarks⟩ := htimely
  have hcases := applyOrder_cases db device key order skewMs now
  generalize db.applyOrder device key order skewMs now = res at hcases ⊢
  cases hcases with
  | duplicate o ho => exact h
  | taken hfind totals htaken hfigures => exact h
  | rejected message hfind hrefused hwhy => exact ⟨⟨h.opened, h.ready, h.closed⟩, h.paid, h.unique⟩
  | stored totals lines hfree hfigures hlines =>
    refine h.write ⟨rfl, rfl, ⟨rfl, rfl⟩, saleRows_of_saleLines hlines, rfl, rfl⟩
      (corrected_le_corrected hdevice) (corrected_le _) (fun row hrow hready => ?_) fun p hp => ?_
    · obtain ⟨m, hm, hstatus, hprepped⟩ := marked_of_saleLines hlines row hrow
      rw [hprepped]
      exact readyAt_spec hdevice (hstatus ▸ hready) (hmarks m hm (hstatus ▸ hready))
    · change p ∈ (if order.status = .settled then _ else []) at hp
      split at hp
      · obtain ⟨q, -, rfl⟩ := List.mem_map.mp hp
        exact ⟨rfl, rfl⟩
      · cases hp

/-- A timely kitchen update keeps the times in order. -/
theorem Kept.applyKotStatus {key clientId : String} {lines : List KotStatusLine}
    (h : Kept db now) (htimely : OpTimely db device skewMs now (.kotStatus key clientId lines)) :
    Kept (db.applyKotStatus device key clientId lines now).1 now := by
  have hkitchen := @applyKotStatus_kitchenOnly db device key clientId lines now
  have hfresh := (Grown.of_kitchenOnly hkitchen).freshId_le
  unfold CloudDb.applyKotStatus at hfresh ⊢
  cases horder : db.findOrder device clientId with
  | none => exact h
  | some order =>
    rw [horder] at hfresh
    obtain ⟨hfind, -⟩ := Option.filter_eq_some_iff.mp horder
    have hmem : order ∈ db.orders := (KeyedTable.find?_eq_some.mp hfind).1
    refine ⟨⟨h.opened, ?_, h.closed⟩, fun p hp => (h.paid p hp).trans_le hfresh, h.unique⟩
    refine List.foldlRecOn lines _ (motive := fun items : List Cloud.OrderItem =>
      ∀ o ∈ db.orders, ∀ i ∈ items, i.orderId = o.id → i.prepStatus = .ready →
        ∃ t, i.preppedAt = some t ∧ o.createdAt ≤ t ∧ t ≤ now) h.ready fun items ih s hs => ?_
    intro o ho i hi hid hready
    obtain ⟨j, hj, rfl⟩ := List.mem_map.mp hi
    split at hid
    · rename_i hset
      have hline := orderId_of_mem_updatedIds hset
      obtain rfl : order = o := h.unique order hmem o ho (hline.symm.trans hid)
      rw [if_pos hset] at hready ⊢
      exact updateReadyAt_spec hready (h.opened order hmem) (htimely order horder s hs hready)
    · rename_i hset
      rw [if_neg hset] at hready ⊢
      exact ih o ho j hj hid hready

theorem Kept.applyOp {op : EdgeOutboxOp} (h : Kept db now)
    (htimely : OpTimely db device skewMs now op) :
    Kept (db.applyOp device skewMs now op).1 now := by
  cases op with
  | order key order => exact h.applyOrder htimely
  | kotStatus key clientId lines => exact h.applyKotStatus htimely

/-- A timely push keeps the times in order. -/
theorem Kept.pushOps {ops : List EdgeOutboxOp} (h : Kept db now)
    (htimely : ∀ pre op post, ops = pre ++ op :: post →
      OpTimely (pushOps device skewMs now db pre).1 device skewMs now op) :
    Kept (pushOps device skewMs now db ops).1 now := by
  induction ops using List.reverseRecOn with
  | nil => exact h
  | append_singleton ops op ih =>
    rw [pushOps_concat]
    refine (ih fun pre op' post heq => ?_).applyOp (htimely ops op [] rfl)
    exact htimely pre op' (post ++ [op]) (by rw [heq, List.append_assoc, List.cons_append])

/-- By a clock that is not slow, no line is ready before the server has the order opened. -/
theorem opTimely_of_fast {key : String} {order : EdgeOrderInput} {createdAt closedAt : Time}
    (h : DeviceTimes order createdAt closedAt) (hfast : skewMs ≤ 0) :
    OpTimely db device skewMs now (.order key order) := by
  refine ⟨⟨createdAt, closedAt, h⟩, fun m hm _ t ht => ?_⟩
  have hprepped := h.prepped m hm t ht
  rw [corrected, h.createdAt_eq, Option.elim_some]
  refine (min_le_left _ _).trans ?_
  simp only [Time] at *
  omega

end Op

/-! ### Runs -/

theorem kept_of_noSales {db : CloudDb} (h : NoSales db) (now : Time) : Kept db now := by
  have hnone : ∀ o, o ∉ db.orders := fun o ho => by
    rw [h.orders] at ho
    exact KeyedTable.notMem_empty o ho
  refine ⟨⟨fun o ho => absurd ho (hnone o), fun o ho => absurd ho (hnone o),
    fun o ho => absurd ho (hnone o)⟩, fun p hp => ?_, fun o ho => absurd ho (hnone o)⟩
  rw [h.payments] at hp
  cases hp

/-- A sale whose line was ready half a second after the order was opened. -/
def preparedSale : EdgeOrderInput :=
  { sampleSale "dosa" with
    items := [⟨"dosa", none, [], 1, none, .ofRat (768 / 100), 12, .ready,
      some (.iso 1793000000500)⟩] }

theorem deviceTimes_preparedSale : DeviceTimes preparedSale 1793000000000 1793000001000 where
  createdAt_eq := rfl
  closedAt_eq := rfl
  closed := by decide
  prepped m hm t ht := by
    obtain rfl := List.mem_singleton.mp hm
    obtain rfl := Option.some_inj.mp ht
    decide

/-- The push of the sale, after a while. -/
def preparedPush (elapsed : ℕ) : DevicePush where
  device := sampleDevice
  input := ⟨.iso 1793000002000, [.order preparedSale.clientId preparedSale]⟩
  elapsed := elapsed

/-- A kitchen update by which the line is ready another second later. -/
def readyPush : DevicePush where
  device := sampleDevice
  input := ⟨.iso 1793000004000, [.kotStatus "ready" preparedSale.clientId
    [⟨0, .item, .ready, some (.iso 1793000001500)⟩]]⟩
  elapsed := 2000

theorem noSales_sampleCloud : NoSales sampleCloud := ⟨rfl, rfl, rfl⟩

theorem timely_singleton {s : CloudDb × Time} {device : EdgeDeviceContext} {deviceTime : Stamp}
    {op : EdgeOutboxOp} {elapsed : ℕ} (h : OpTimely s.1 device
      (clockSkewMs (s.2 + elapsed) deviceTime) (s.2 + elapsed) op) :
    Timely s ⟨device, ⟨deviceTime, [op]⟩, elapsed⟩ := by
  intro pre op' post heq
  cases pre with
  | nil =>
    obtain ⟨rfl, -⟩ := List.cons.inj heq
    exact h
  | cons _ pre =>
    have hlength := congrArg List.length heq
    simp at hlength

end StelloKitchens
