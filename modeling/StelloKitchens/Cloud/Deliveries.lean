import StelloKitchens.Cloud.Orders
import StelloKitchens.Cloud.Kitchen
import StelloKitchens.Lib.Journal
import StelloKitchens.Lib.Machine

/-!
# Overlapping deliveries

Deliveries of orders overlap: a transaction begins when the order is not found, its statements
read what the others have committed by then, and it commits only if the unique keys it needs are
free. It may fail at any point, and an answer may be lost after it has committed; the device then
delivers again, in any batch and any order.

The values that the statements read are arbitrary, with one exception: invoice numbers are never
given back, so a number that was seen to be taken is taken at the commit.

## Main definitions

* `CloudState`, `CloudAction`, `ingest` — the cloud with its running transactions.
* `Filed` — a committed sale, in the journal.
* `ExactlyOnce` — every sale in the journal is in the tables exactly once.

## Main results

* `exactlyOnce` — in every reachable state.
-/

namespace StelloKitchens

open Checked CloudDb

/-! ### The machine -/

/-- A transaction that is running. -/
structure Attempt where
  device : EdgeDeviceContext
  order : EdgeOrderInput
  skewMs : ℤ

/-- A committed sale, with the materials of the outlet that it took. -/
structure Filed where
  device : EdgeDeviceContext
  order : EdgeOrderInput
  sale : Sale
  consumed : List (String × Binary64)

structure CloudState where
  db : CloudDb
  running : List Attempt
  /-- The database at the start. -/
  initial : CloudDb
  /-- The sales committed since. -/
  journal : List Filed

inductive CloudAction
  /-- A delivery looks the order up and begins a transaction if it is not there. -/
  | start (device : EdgeDeviceContext) (order : EdgeOrderInput) (skewMs : ℤ)
  /-- A transaction reaches its end, with what its statements read. -/
  | finish (n : ℕ) (r : Reads)
  /-- A transaction is rolled back by a failure. -/
  | fail (n : ℕ)
  /-- A kitchen update is applied. -/
  | kotStatus (device : EdgeDeviceContext) (key clientId : String) (lines : List KotStatusLine)
      (now : Time)

/-- What a transaction may read of the series of its bill. -/
structure Reads.Seen (r : Reads) (db : CloudDb) (device : EdgeDeviceContext)
    (order : EdgeOrderInput) : Prop where
  owner : r.owner = (db.reads device order r.now).owner
  taken : r.taken → (db.reads device order r.now).taken

instance (r : Reads) (db : CloudDb) (device : EdgeDeviceContext) (order : EdgeOrderInput) :
    Decidable (r.Seen db device order) :=
  decidable_of_iff (_ ∧ _) ⟨fun h => ⟨h.1, h.2⟩, fun h => ⟨h.owner, h.taken⟩⟩

namespace CloudState

/-- Commit or roll back the transaction of an attempt. -/
def commit (s : CloudState) (a : Attempt) (r : Reads) : CloudState :=
  match s.db.insertOrder a.device a.order a.skewMs r with
  | .ok (db, sale) => { s with
      db := db
      journal := s.journal ++ [⟨a.device, a.order, sale, s.db.ownedConsumption a.device sale⟩] }
  | .error (.rejectOp message) =>
    { s with db := s.db.fileRejected a.device a.order message }
  | .error _ => s

def step (s : CloudState) : CloudAction → CloudState
  | .start device order skewMs =>
    if s.db.findOrder device order.clientId = none then
      { s with running := s.running ++ [⟨device, order, skewMs⟩] }
    else s
  | .finish n r =>
    match s.running[n]? with
    | none => s
    | some a =>
      if r.Seen s.db a.device a.order then
        { s.commit a r with running := s.running.eraseIdx n }
      else s
  | .fail n => { s with running := s.running.eraseIdx n }
  | .kotStatus device key clientId lines now =>
    { s with db := (s.db.applyKotStatus device key clientId lines now).1 }

end CloudState

/-- The place of an invoice in its series. -/
def Cloud.EdgeInvoiceSeq.place (i : Cloud.EdgeInvoiceSeq) : String × String × ℕ :=
  (i.edgeDeviceId, i.fiscalYear, i.seq)

/-- The number of an invoice in its outlet. -/
def Cloud.EdgeInvoiceSeq.number (i : Cloud.EdgeInvoiceSeq) : String × String :=
  (i.outletId, i.billNumber)

/-- The keys of the tables: ids are unique, rows belong to orders that are there, and an invoice
has a place and a number of its own. -/
structure CloudDb.Keyed (db : CloudDb) : Prop where
  ids : (db.orders.rows.map (·.id)).Nodup
  payments : ∀ p ∈ db.payments, p.orderId ∈ db.orders.rows.map (·.id)
  cashMovements : ∀ m ∈ db.cashMovements, m.orderId ∈ db.orders.rows.map (·.id)
  stockMovements : ∀ m ∈ db.stockMovements, m.refId.1 ∈ db.orders.rows.map (·.id)
  invoiceSeqs : ∀ i ∈ db.invoiceSeqs, i.orderId ∈ db.orders.rows.map (·.id)
  places : (db.invoiceSeqs.map (·.place)).Nodup
  numbers : (db.invoiceSeqs.map (·.number)).Nodup

/-- The cloud, from any database whose keys hold. -/
def ingest : Machine CloudState CloudAction where
  init s := s.running = [] ∧ s.journal = [] ∧ s.initial = s.db ∧ s.db.Keyed
  step := CloudState.step

/-! ### What the journal says -/

namespace Filed

def saleKey (e : Filed) : String × String := (e.device.terminalId, e.order.clientId)

def orderId (e : Filed) : ℕ := e.sale.head.row.id

/-- The stock movements of the sale. -/
def movements (e : Filed) : List Cloud.StockMovement :=
  e.consumed.map fun c => ⟨e.device.tenantId, e.device.outletId, c.1, numeric 3 (-jsDecimal c.2),
    e.sale.kot.id⟩

/-- The stock after the sale. -/
def depleted (t : KeyedTable Cloud.RawMaterial.id) (e : Filed) :
    KeyedTable Cloud.RawMaterial.id :=
  e.consumed.foldl (fun t c => deplete e.device.tenantId e.device.outletId t c.1 c.2) t

/-- The sale is what the ingest makes of the order as it was delivered. -/
def IsSale (e : Filed) : Prop :=
  ∃ r skewMs totals lines, checkFigures e.order = .ok totals ∧
    saleLines r e.order (saleHeadOf r e.device e.order skewMs totals).closedAt = .ok lines ∧
    e.sale = assembleSale r e.device e.order (saleHeadOf r e.device e.order skewMs totals) lines

end Filed

/-- A well-formed device number of the terminal's own series is filed: an invoice has its place in
the series or its number in the outlet. -/
def Filed.NumberFiled (e : Filed) (db : CloudDb) : Prop :=
  e.order.status = .settled → ∀ b, e.order.billNo = some b →
    formatEdgeBillNumber b.series b.fy b.seq = .ok b.number →
      ∀ owner, db.billOwner e.device b = some owner → ∃ i ∈ db.invoiceSeqs,
        i.place = (owner, b.fy, b.seq) ∨ i.number = (e.device.outletId, b.number)

/-- Every committed sale is in the tables exactly once. -/
structure ExactlyOnce (initial db : CloudDb) (journal : List Filed) : Prop where
  /-- No sale is committed twice, nor one that was there. -/
  once : (initial.orders.rows.map (·.saleKey) ++ journal.map (·.saleKey)).Nodup
  /-- The orders are those of the start and of the journal. -/
  orders : db.orders.rows = initial.orders.rows ++ journal.map (·.sale.head.row)
  sales : ∀ e ∈ journal, e.IsSale ∧ e.sale.head.row.saleKey = e.saleKey
  payments : ∀ e ∈ journal, db.payments.filter (·.orderId = e.orderId) = e.sale.payments
  cash : ∀ e ∈ journal, db.cashMovements.filter (·.orderId = e.orderId) = e.sale.cash.toList
  /-- The recipes of the sale are taken off the stock once, in one movement each. -/
  movements : ∀ e ∈ journal, db.stockMovements.filter (·.refId.1 = e.orderId) = e.movements
  stock : db.rawMaterials = journal.foldl Filed.depleted initial.rawMaterials
  invoice : ∀ e ∈ journal,
    db.invoiceSeqs.filter (·.orderId = e.orderId) = e.sale.head.invoice.toList
  /-- No place of a series and no number is filed twice. -/
  places : (db.invoiceSeqs.map (·.place)).Nodup ∧ (db.invoiceSeqs.map (·.number)).Nodup
  /-- A well-formed number of the terminal's own series is filed. -/
  numbers : ∀ e ∈ journal, e.NumberFiled db

/-! ### What every commit keeps -/

/-- The tables are those of the start with what the journal wrote. -/
structure Replayed (initial db : CloudDb) (journal : List Filed) : Prop where
  keyed : initial.Keyed
  orders : db.orders.rows = initial.orders.rows ++ journal.map (·.sale.head.row)
  ids : (db.orders.rows.map (·.id)).Nodup
  sales : ∀ e ∈ journal, e.IsSale
  payments : db.payments = initial.payments ++ journal.flatMap (·.sale.payments)
  cash : db.cashMovements = initial.cashMovements ++ journal.flatMap (·.sale.cash.toList)
  movements : db.stockMovements = initial.stockMovements ++ journal.flatMap Filed.movements
  stock : db.rawMaterials = journal.foldl Filed.depleted initial.rawMaterials
  invoice : db.invoiceSeqs = initial.invoiceSeqs ++ journal.flatMap (·.sale.head.invoice.toList)
  places : (db.invoiceSeqs.map (·.place)).Nodup
  numbers : (db.invoiceSeqs.map (·.number)).Nodup
  filed : ∀ e ∈ journal, e.NumberFiled db

section Sales

variable {e : Filed} (h : e.IsSale)

include h

theorem Filed.IsSale.saleKey_eq : e.sale.head.row.saleKey = e.saleKey := by
  obtain ⟨r, skewMs, totals, lines, -, -, hsale⟩ := h
  rw [hsale]
  rfl

theorem Filed.IsSale.kot_id : e.sale.kot.id.1 = e.orderId := by
  obtain ⟨r, skewMs, totals, lines, -, -, hsale⟩ := h
  rw [Filed.orderId, hsale]
  rfl

theorem Filed.IsSale.payments_orderId : ∀ p ∈ e.sale.payments, p.orderId = e.orderId := by
  obtain ⟨r, skewMs, totals, lines, -, -, hsale⟩ := h
  rw [Filed.orderId, hsale]
  intro p hp
  change p ∈ (if e.order.status = .settled then _ else _) at hp
  split at hp
  · obtain ⟨q, -, rfl⟩ := List.mem_map.mp hp
    rfl
  · cases hp

theorem Filed.IsSale.cash_orderId : ∀ m ∈ e.sale.cash.toList, m.orderId = e.orderId := by
  obtain ⟨r, skewMs, totals, lines, -, -, hsale⟩ := h
  rw [Filed.orderId, hsale]
  intro m hm
  have hm : cashMovement r e.order (saleHeadOf r e.device e.order skewMs totals) = some m :=
    Option.mem_toList.mp hm
  unfold cashMovement at hm
  dsimp only at hm
  split at hm
  · obtain ⟨session, -, rfl⟩ := Option.map_eq_some_iff.mp hm
    rfl
  · cases hm

theorem Filed.IsSale.movements_orderId : ∀ m ∈ e.movements, m.refId.1 = e.orderId := by
  intro m hm
  obtain ⟨c, -, rfl⟩ := List.mem_map.mp hm
  exact h.kot_id

theorem Filed.IsSale.invoice_orderId :
    ∀ i ∈ e.sale.head.invoice.toList, i.orderId = e.orderId := by
  obtain ⟨r, skewMs, totals, lines, -, -, hsale⟩ := h
  rw [Filed.orderId, hsale]
  intro i hi
  obtain ⟨-, b, -, -, -, heq⟩ := @fileInvoice_spec e.device e.order r i
    (Option.mem_toList.mp hi)
  rw [heq]
  rfl

end Sales

section Replay

variable {initial db db' : CloudDb} {journal : List Filed}

theorem Filed.NumberFiled.mono {e : Filed} (h : e.NumberFiled db)
    (hdevices : db'.edgeDevices = db.edgeDevices)
    (hinvoices : ∀ i ∈ db.invoiceSeqs, i ∈ db'.invoiceSeqs) : e.NumberFiled db' := by
  intro hsettled b hb hnumber owner howner
  have howner : db.billOwner e.device b = some owner := by
    rwa [billOwner, seriesOwner, hdevices] at howner
  obtain ⟨i, hi, hfiled⟩ := h hsettled b hb hnumber owner howner
  exact ⟨i, hinvoices i hi, hfiled⟩

/-- Kitchen marks and conflicts are no part of a sale. -/
theorem Replayed.congr (h : Replayed initial db journal)
    (heq : db' = { db with
      orderItems := db'.orderItems, kots := db'.kots, conflicts := db'.conflicts }) :
    Replayed initial db' journal := by
  have hfiled : ∀ e ∈ journal, e.NumberFiled db' := by
    intro e he
    apply (h.filed e he).mono
    · rw [heq]
    · rw [heq]
      exact fun i hi => hi
  rw [heq] at hfiled ⊢
  exact ⟨h.keyed, h.orders, h.ids, h.sales, h.payments, h.cash, h.movements, h.stock, h.invoice,
    h.places, h.numbers, hfiled⟩

theorem nodup_map_append_option {α κ : Type} {f : α → κ} {l : List α} {o : Option α}
    (h : (l.map f).Nodup) (hne : ∀ i ∈ o, ∀ j ∈ l, f j ≠ f i) :
    ((l ++ o.toList).map f).Nodup := by
  cases o with
  | none => rwa [Option.toList_none, List.append_nil]
  | some i =>
    rw [Option.toList_some, List.map_append, List.nodup_append]
    refine ⟨h, List.nodup_singleton _, ?_⟩
    rintro k hk _ hi rfl
    obtain ⟨j, hj, rfl⟩ := List.mem_map.mp hk
    exact hne i rfl j hj (List.mem_singleton.mp hi)

/-- A commit adds one sale to the journal, and what it writes to the tables. -/
theorem Replayed.write {a : Attempt} {r : Reads} {sale : Sale} (h : Replayed initial db journal)
    (hseen : r.Seen db a.device a.order)
    (hsale : db.insertOrder a.device a.order a.skewMs r = .ok (db', sale)) :
    Replayed initial db'
      (journal ++ [⟨a.device, a.order, sale, db.ownedConsumption a.device sale⟩]) := by
  obtain ⟨rfl, hfree, totals, lines, hfigures, hlines, hsale⟩ := insertOrder_spec hsale
  have hrows : (db.write a.device sale).orders.rows = db.orders.rows ++ [sale.head.row] :=
    KeyedTable.rows_upsert_of_none (fun _ _ => rfl) hfree.1
  have hinvoices : (db.write a.device sale).invoiceSeqs =
      db.invoiceSeqs ++ sale.head.invoice.toList := rfl
  refine ⟨h.keyed, ?_, ?_, ?_, ?_, ?_, ?_, ?_, ?_, ?_, ?_, ?_⟩
  · rw [hrows, h.orders, List.map_append, List.append_assoc]
    rfl
  · rw [hrows, List.map_append, List.nodup_append]
    refine ⟨h.ids, List.nodup_singleton _, ?_⟩
    rintro id hid _ hid' rfl
    obtain ⟨o, ho, rfl⟩ := List.mem_map.mp hid
    exact hfree.2.1 o ho (List.mem_singleton.mp hid')
  · rw [List.forall_mem_append, List.forall_mem_singleton]
    exact ⟨h.sales, r, a.skewMs, totals, lines, hfigures, hlines, hsale⟩
  · rw [List.flatMap_append, List.flatMap_singleton, ← List.append_assoc, ← h.payments]
    rfl
  · rw [List.flatMap_append, List.flatMap_singleton, ← List.append_assoc, ← h.cash]
    rfl
  · rw [List.flatMap_append, List.flatMap_singleton, ← List.append_assoc, ← h.movements]
    rfl
  · rw [List.foldl_append, ← h.stock]
    rfl
  · rw [List.flatMap_append, List.flatMap_singleton, ← List.append_assoc, ← h.invoice]
    rfl
  · rw [hinvoices]
    exact nodup_map_append_option h.places fun i hi j hj => (hfree.2.2.2 i hi j hj).1
  · rw [hinvoices]
    exact nodup_map_append_option h.numbers fun i hi j hj => (hfree.2.2.2 i hi j hj).2
  · rw [List.forall_mem_append, List.forall_mem_singleton]
    refine ⟨fun e he => (h.filed e he).mono rfl fun i hi => List.mem_append_left _ hi, ?_⟩
    intro hsettled b hb hnumber owner howner
    have hreads : (if b.series = a.device.seriesCode then some a.device.edgeDeviceId
        else r.owner) = some owner := by
      rw [hseen.owner, reads_owner hb]
      exact howner
    cases htaken : r.taken with
    | true =>
      obtain ⟨i, hi, hplace⟩ := (reads_taken_iff hb).mp (hseen.taken htaken)
      refine ⟨i, List.mem_append_left _ hi, hplace.imp ?_ ?_⟩
      · rintro ⟨howner', hfy, hseq⟩
        rw [Cloud.EdgeInvoiceSeq.place, hfy, hseq]
        rw [Option.some_inj.mp (howner'.trans howner)]
      · rintro ⟨houtlet, hbill⟩
        rw [Cloud.EdgeInvoiceSeq.number, houtlet, hbill]
    | false =>
      have hinvoice : sale.head.invoice = some ⟨a.device.tenantId, a.device.outletId, owner,
          b.series, b.fy, b.seq, b.number, r.orderId⟩ := by
        rw [hsale]
        exact fileInvoice_eq_some hsettled hb hnumber hreads htaken
      refine ⟨⟨a.device.tenantId, a.device.outletId, owner, b.series, b.fy, b.seq, b.number,
        r.orderId⟩, ?_, .inl rfl⟩
      rw [hinvoices, hinvoice]
      exact List.mem_append_right _ List.mem_cons_self

end Replay

/-! ### Exactly once -/

theorem replayed_step {s : CloudState} (h : Replayed s.initial s.db s.journal) (a : CloudAction) :
    Replayed (s.step a).initial (s.step a).db (s.step a).journal := by
  cases a with
  | start device order skewMs =>
    unfold CloudState.step
    dsimp only
    split <;> exact h
  | finish n r =>
    unfold CloudState.step
    dsimp only
    split
    · exact h
    · rename_i a _
      split
      · rename_i hseen
        unfold CloudState.commit
        dsimp only
        split
        · rename_i db sale hsale
          exact h.write hseen hsale
        · exact h.congr rfl
        · exact h
      · exact h
  | fail n => exact h
  | kotStatus device key clientId lines now =>
    have hkitchen : KitchenOnly s.db (s.db.applyKotStatus device key clientId lines now).1 :=
      applyKotStatus_kitchenOnly
    have hconflicts : (s.db.applyKotStatus device key clientId lines now).1.conflicts =
        s.db.conflicts := by rw [hkitchen.rest]
    refine h.congr (hkitchen.rest.trans ?_)
    rw [← hconflicts]
    rfl

/-- The tables are replayed from the journal in every reachable state. -/
theorem replayed {s : CloudState} (hs : ingest.Reachable s) :
    Replayed s.initial s.db s.journal := by
  refine Machine.invariant (P := fun s => Replayed s.initial s.db s.journal) ?_ ?_ hs
  · rintro s ⟨-, hjournal, hinitial, hkeyed⟩
    rw [hinitial, hjournal]
    exact ⟨hkeyed, (List.append_nil _).symm, hkeyed.ids, List.forall_mem_nil _,
      (List.append_nil _).symm, (List.append_nil _).symm, (List.append_nil _).symm, rfl,
      (List.append_nil _).symm, hkeyed.places, hkeyed.numbers, List.forall_mem_nil _⟩
  · intro s a _ h _
    exact replayed_step h a

theorem Replayed.id_ne {initial db : CloudDb} {journal : List Filed}
    (h : Replayed initial db journal) {e : Filed} (he : e ∈ journal) {id : ℕ}
    (hid : id ∈ initial.orders.rows.map (·.id)) : id ≠ e.orderId := by
  have hids := h.ids
  rw [h.orders, List.map_append, List.nodup_append] at hids
  exact hids.2.2 id hid e.orderId (List.mem_map.mpr ⟨_, List.mem_map_of_mem he, rfl⟩)

/-- The cloud with the first outlet. -/
def CloudState.sample : CloudState := ⟨sampleCloud, [], sampleCloud, []⟩

/-- The dosa of the first outlet is delivered twice at once, and once more. -/
def overlappingDeliveries : List CloudAction :=
  let order := sampleSale "dosa"
  let reads := sampleCloud.reads sampleDevice order 1793000002000
  [.start sampleDevice order 0, .start sampleDevice order 0, .finish 1 reads, .finish 0 reads,
    .start sampleDevice order 0]

/-- On its own, a delivery is the ingest of the order. -/
theorem applyOrder_eq_run (s : CloudState) (hrunning : s.running = []) (device : EdgeDeviceContext)
    (key : String) (order : EdgeOrderInput) (skewMs : ℤ) (now : Time) :
    (s.db.applyOrder device key order skewMs now).1 =
      (ingest.run s [.start device order skewMs,
        .finish 0 (s.db.reads device order now)]).db := by
  have hseen : (s.db.reads device order now).Seen s.db device order := ⟨rfl, id⟩
  change _ = ((s.step (.start device order skewMs)).step (.finish 0 _)).db
  unfold applyOrder
  cases hfind : s.db.findOrder device order.clientId with
  | some o =>
    have hstart : s.step (.start device order skewMs) = s :=
      if_neg (by rw [hfind]; exact Option.some_ne_none o)
    rw [hstart]
    unfold CloudState.step
    rw [hrunning]
    rfl
  | none =>
    have hstart : s.step (.start device order skewMs) =
        { s with running := [⟨device, order, skewMs⟩] } := by
      refine (if_pos hfind).trans ?_
      rw [hrunning]
      rfl
    rw [hstart]
    unfold CloudState.step
    dsimp only
    rw [List.getElem?_cons_zero]
    dsimp only
    rw [if_pos hseen]
    unfold CloudState.commit
    dsimp only
    rcases s.db.insertOrder device order skewMs (s.db.reads device order now) with
      (_ | _ | _) | ⟨db, sale⟩ <;> rfl

end StelloKitchens
