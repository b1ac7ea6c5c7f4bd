import StelloKitchens.Billing.Touches
import StelloKitchens.Connector.Ingest
import StelloKitchens.Lib.Journal

/-!
# Orders of aggregators are ingested once

The row of an order is inserted under the lock of its key, so that no other row with the key can be
committed before. With the row, the same transaction commits the bill, its kitchen ticket and what
it takes from the stock, if any item was found on the menu; the bill, the ticket and the stock
movements are new, under the number that the transaction drew.

## Main definitions

* `Ingests` — what of the tables the orders of aggregators have to do with.
* `Ingests.Sound`, `Ingests.Step` — what holds of them, and what a commit does to them.

## Main results

* `ingest_keeps` — every method keeps them.
* `ingested_once` — rows, bills, tickets and stock, over all interleavings.
-/

namespace StelloKitchens.Connector

open Checked Tx Process Method Discipline Service
open Billing (BillingDb RowId)

/-! ### What is ingested -/

/-- The rows, the bills that are there, the bills of the tickets, the stock and the journal. -/
@[ext] structure Ingests where
  row : ℕ → Option AggregatorOrder
  order : RowId → Prop
  kot : RowId → Option RowId
  stock : KeyedTable RawMaterial.id
  movements : List StockMovement
  journal : List Ingested

def ConnectorDb.ingests (db : ConnectorDb) : Ingests where
  row := db.aggregatorOrders.find?
  order id := (db.billing.orders.find? id).isSome
  kot id := (db.billing.kots.find? id).map (·.orderId)
  stock := db.rawMaterials
  movements := db.stockMovements
  journal := db.journal

namespace Ingests

variable {v v' v'' : Ingests} {n : ℕ} {L : Hold LockKey → Prop}

def putRow (v : Ingests) (r : AggregatorOrder) : Ingests :=
  { v with row := fun id => if id = r.id then some r else v.row id }

def editRow (v : Ingests) (id : ℕ) (f : AggregatorOrder → AggregatorOrder) : Ingests :=
  { v with row := fun i => if i = id then (v.row i).map f else v.row i }

def openOrder (v : Ingests) (id : RowId) : Ingests :=
  { v with order := fun i => i = id ∨ v.order i }

def punch (v : Ingests) (kotId orderId : RowId) : Ingests :=
  { v with kot := fun i => if i = kotId then some orderId else v.kot i }

/-- Materials are taken from the stock for a ticket. -/
def take (v : Ingests) (kotId : RowId) (consumption : List Consumed) : Ingests :=
  { v with
    stock := consumption.foldl deplete v.stock
    movements := v.movements ++ consumption.map fun c => ⟨c.rawMaterialId, c.moved, kotId⟩ }

def record (v : Ingests) (e : Ingested) : Ingests := { v with journal := v.journal ++ [e] }

/-- What the ingest of an order with items does. -/
def ingest (v : Ingests) (r : AggregatorOrder) (e : Ingested) : Ingests :=
  ((((v.putRow r).openOrder e.orderId).punch e.kotId e.orderId).take e.kotId e.consumption).record e

/-- The row gets its bill when this is opened. -/
theorem editRow_ingest {r : AggregatorOrder} {e : Ingested} {f : AggregatorOrder → AggregatorOrder}
    {id : ℕ} (hid : r.id = id) (hf : (f r).id = id) :
    (v.ingest r e).editRow id f = v.ingest (f r) e := by
  subst hid
  ext1 <;> try rfl
  funext i
  change (if i = r.id then ((if i = r.id then some r else v.row i)).map f
    else if i = r.id then some r else v.row i) = if i = (f r).id then some (f r) else v.row i
  rw [hf]
  split <;> rfl

/-- No row has the key. -/
def Free (v : Ingests) (key : AggregatorPlatform × String) : Prop :=
  ∀ id r, v.row id = some r → r.key ≠ key

/-- What holds of the rows, the bills and the tickets. -/
structure Sound (v : Ingests) (n : ℕ) : Prop where
  ids : ∀ id r, v.row id = some r → r.id = id ∧ id < n
  unique : ∀ id id' r r', v.row id = some r → v.row id' = some r' → r.key = r'.key → id = id'
  matched : ∀ id r, v.row id = some r → (r.orderId = none ↔ r.matched = [])
  /-- A row has the bill that was ingested with it. -/
  linked : ∀ id r orderId, v.row id = some r → r.orderId = some orderId →
    ∃ e ∈ v.journal, e.key = r.key ∧ e.orderId = orderId
  known : ∀ e ∈ v.journal, ∃ id r, v.row id = some r ∧ r.key = e.key ∧ r.orderId = some e.orderId
  stamps : ∀ e ∈ v.journal, e.orderId.stamp < n ∧ e.orderId.index = 0 ∧ e.kotId = ⟨e.orderId.stamp, 1⟩
  apart : v.journal.Pairwise fun e e' => e.orderId.stamp ≠ e'.orderId.stamp
  orders : ∀ id, v.order id ↔ ∃ e ∈ v.journal, e.orderId = id
  kots : ∀ id orderId, v.kot id = some orderId ↔ ∃ e ∈ v.journal, e.kotId = id ∧ e.orderId = orderId
  movements : v.movements = v.journal.flatMap (·.movements)

/-- What the commit of who holds these does to them. -/
structure Step (L : Hold LockKey → Prop) (v v' : Ingests) : Prop where
  origin : ∀ id, v.row id = none → v'.row id ≠ none → L (.number id)
  keys : ∀ key, v.Free key → ¬L (.lock (.key key)) → v'.Free key
  /-- What is ingested is taken from the stock. -/
  grows : ∃ new, v'.journal = v.journal ++ new ∧ (∀ e ∈ new, L (.number e.orderId.stamp)) ∧
    v'.stock = (new.flatMap (·.consumption)).foldl deplete v.stock

theorem Step.refl (v : Ingests) : v.Step L v :=
  ⟨fun _ h h' => absurd h h', fun _ h _ => h, [], (List.append_nil _).symm, by simp, rfl⟩

section Rows

variable {r x : AggregatorOrder} {id : ℕ}

theorem row_putRow (hx : (v.putRow r).row id = some x) : x = r ∧ id = r.id ∨ v.row id = some x := by
  by_cases hid : id = r.id
  · exact .inl ⟨by simpa [Ingests.putRow, hid] using hx.symm, hid⟩
  · exact .inr (by simpa [Ingests.putRow, hid] using hx)

theorem row_putRow_of_none (hnone : v.row r.id = none) (hx : v.row id = some x) :
    (v.putRow r).row id = some x := by
  have hid : id ≠ r.id := by
    rintro rfl
    rw [hnone] at hx
    cases hx
  simpa [Ingests.putRow, hid] using hx

theorem number_putRow (hnumber : L (.number r.id)) (hrow : v.row id = none)
    (hsome : (v.putRow r).row id ≠ none) : L (.number id) := by
  by_cases hid : id = r.id
  · exact hid ▸ hnumber
  · exact absurd (by simpa [Ingests.putRow, hid] using hrow) hsome

theorem free_putRow (hkey : L (.lock (.key r.key))) {key : AggregatorPlatform × String}
    (hfree : v.Free key) (hL : ¬L (.lock (.key key))) : (v.putRow r).Free key := by
  intro id x hx
  rcases row_putRow hx with ⟨rfl, -⟩ | hv
  · rintro rfl
    exact hL hkey
  · exact hfree id x hv

theorem Sound.unique_putRow (h : v.Sound n) (hfree : v.Free r.key) {id' : ℕ} {x' : AggregatorOrder}
    (hx : (v.putRow r).row id = some x) (hx' : (v.putRow r).row id' = some x')
    (hsame : x.key = x'.key) : id = id' := by
  rcases row_putRow hx with ⟨rfl, rfl⟩ | hv <;> rcases row_putRow hx' with ⟨rfl, rfl⟩ | hv'
  · rfl
  · exact absurd hsame.symm (hfree id' x' hv')
  · exact absurd hsame (hfree id x hv)
  · exact h.unique id id' x x' hv hv' hsame

theorem Sound.ids_putRow (h : v.Sound n) (hlt : r.id < n) (hx : (v.putRow r).row id = some x) :
    x.id = id ∧ id < n := by
  rcases row_putRow hx with ⟨rfl, rfl⟩ | hv
  · exact ⟨rfl, hlt⟩
  · exact h.ids id x hv

end Rows

/-- A row whose key is free is inserted under a number that was drawn. -/
theorem Sound.putRow (h : v.Sound n) {r : AggregatorOrder} (hlt : r.id < n) (hnone : v.row r.id = none)
    (hfree : v.Free r.key) (horder : r.orderId = none) (hmatched : r.matched = [])
    (hnumber : L (.number r.id)) (hkey : L (.lock (.key r.key))) :
    (v.putRow r).Sound n ∧ v.Step L (v.putRow r) := by
  refine ⟨{ h with
    ids := fun id x hx => h.ids_putRow hlt hx
    unique := fun id id' x x' hx hx' hsame => h.unique_putRow hfree hx hx' hsame
    matched := fun id x hx => ?_
    linked := fun id x orderId hx hlink => ?_
    known := fun e he => ?_ }, ⟨fun id => number_putRow hnumber, fun key => free_putRow hkey,
      [], (List.append_nil _).symm, by simp, rfl⟩⟩
  · rcases row_putRow hx with ⟨rfl, rfl⟩ | hv
    · simp [horder, hmatched]
    · exact h.matched id x hv
  · rcases row_putRow hx with ⟨rfl, rfl⟩ | hv
    · simp [horder] at hlink
    · exact h.linked id x orderId hv hlink
  · obtain ⟨id, x, hx, hknown⟩ := h.known e he
    exact ⟨id, x, row_putRow_of_none hnone hx, hknown⟩

/-- An order is ingested with its items. -/
theorem Sound.ingest (h : v.Sound n) {r : AggregatorOrder} {e : Ingested} (hlt : r.id < n)
    (hnone : v.row r.id = none) (hfree : v.Free r.key) (horder : r.orderId = some e.orderId)
    (hmatched : r.matched ≠ []) (hkeys : e.key = r.key) (hstamp : e.orderId.stamp < n)
    (hindex : e.orderId.index = 0) (hkot : e.kotId = ⟨e.orderId.stamp, 1⟩)
    (hnew : ∀ e' ∈ v.journal, e'.orderId.stamp ≠ e.orderId.stamp)
    (hnumber : L (.number r.id)) (hstamped : L (.number e.orderId.stamp))
    (hkey : L (.lock (.key r.key))) :
    (v.ingest r e).Sound n ∧ v.Step L (v.ingest r e) := by
  have hjournal : (v.ingest r e).journal = v.journal ++ [e] := rfl
  have hmem : ∀ x, x ∈ (v.ingest r e).journal ↔ x ∈ v.journal ∨ x = e := by
    intro x
    rw [hjournal, List.mem_append, List.mem_singleton]
  refine ⟨⟨fun id x hx => h.ids_putRow hlt hx,
    fun id id' x x' hx hx' hsame => h.unique_putRow hfree hx hx' hsame, fun id x hx => ?_,
    fun id x orderId hx hlink => ?_, fun x hx => ?_, fun x hx => ?_, ?_, fun id => ?_,
    fun id orderId => ?_, ?_⟩, ⟨fun id => number_putRow hnumber, fun key => free_putRow hkey,
      [e], hjournal, by simpa using hstamped, by simp [Ingests.ingest, record, take, punch,
        openOrder, Ingests.putRow]⟩⟩
  · rcases row_putRow hx with ⟨rfl, rfl⟩ | hv
    · simp [horder, hmatched]
    · exact h.matched id x hv
  · rcases row_putRow hx with ⟨rfl, rfl⟩ | hv
    · exact ⟨e, (hmem e).mpr (.inr rfl), hkeys, Option.some.inj (horder.symm.trans hlink)⟩
    · obtain ⟨x', hx', hlinked⟩ := h.linked id x orderId hv hlink
      exact ⟨x', (hmem x').mpr (.inl hx'), hlinked⟩
  · rcases (hmem x).mp hx with hx | rfl
    · obtain ⟨id, r', hr', hknown⟩ := h.known x hx
      exact ⟨id, r', row_putRow_of_none hnone hr', hknown⟩
    · exact ⟨r.id, r, if_pos rfl, hkeys.symm, horder⟩
  · rcases (hmem x).mp hx with hx | rfl
    · exact h.stamps x hx
    · exact ⟨hstamp, hindex, hkot⟩
  · rw [hjournal, List.pairwise_append]
    refine ⟨h.apart, List.pairwise_singleton _ _, fun x hx y hy => ?_⟩
    rw [List.mem_singleton.mp hy]
    exact hnew x hx
  · change id = e.orderId ∨ v.order id ↔ _
    simp only [hmem, h.orders]
    constructor
    · rintro (rfl | ⟨x, hx, rfl⟩)
      · exact ⟨e, .inr rfl, rfl⟩
      · exact ⟨x, .inl hx, rfl⟩
    · rintro ⟨x, hx | rfl, rfl⟩
      · exact .inr ⟨x, hx, rfl⟩
      · exact .inl rfl
  · change (if id = e.kotId then some e.orderId else v.kot id) = some orderId ↔ _
    simp only [hmem]
    by_cases hid : id = e.kotId
    · rw [if_pos hid, Option.some.injEq]
      refine ⟨fun heq => ⟨e, .inr rfl, hid.symm, heq⟩, ?_⟩
      rintro ⟨x, hx | rfl, hxid, rfl⟩
      · -- another ticket has another number
        have hsame : x.kotId = e.kotId := hxid.trans hid
        rw [(h.stamps x hx).2.2, hkot] at hsame
        exact absurd (RowId.mk.inj hsame).1 (hnew x hx)
      · rfl
    · rw [if_neg hid, h.kots]
      constructor
      · rintro ⟨x, hx, hxs⟩
        exact ⟨x, .inl hx, hxs⟩
      · rintro ⟨x, hx | rfl, hxid, hxo⟩
        · exact ⟨x, hx, hxid, hxo⟩
        · exact absurd hxid.symm hid
  · rw [hjournal, List.flatMap_append, List.flatMap_singleton, ← h.movements]
    rfl

/-- The status of a row is changed. -/
theorem Sound.editRow (h : v.Sound n) (id : ℕ) {f : AggregatorOrder → AggregatorOrder}
    (hf : ∀ r, (f r).id = r.id ∧ (f r).key = r.key ∧ (f r).orderId = r.orderId ∧
      (f r).matched = r.matched) :
    (v.editRow id f).Sound n ∧ v.Step L (v.editRow id f) := by
  have hold : ∀ i x, (v.editRow id f).row i = some x → ∃ r, v.row i = some r ∧ x.id = r.id ∧
      x.key = r.key ∧ x.orderId = r.orderId ∧ x.matched = r.matched := by
    intro i x hx
    by_cases hi : i = id
    · obtain ⟨r, hr, rfl⟩ : ∃ r, v.row i = some r ∧ f r = x := by
        simpa [Ingests.editRow, hi] using hx
      exact ⟨r, hr, hf r⟩
    · exact ⟨x, by simpa [Ingests.editRow, hi] using hx, rfl, rfl, rfl, rfl⟩
  have hkeep : ∀ i r, v.row i = some r → ∃ x, (v.editRow id f).row i = some x ∧ x.key = r.key ∧
      x.orderId = r.orderId := by
    intro i r hr
    by_cases hi : i = id
    · exact ⟨f r, by simp [Ingests.editRow, hi ▸ hr, hi], (hf r).2.1, (hf r).2.2.1⟩
    · exact ⟨r, by simpa [Ingests.editRow, hi] using hr, rfl, rfl⟩
  refine ⟨{ h with
    ids := fun i x hx => ?_
    unique := fun i i' x x' hx hx' hkeys => ?_
    matched := fun i x hx => ?_
    linked := fun i x orderId hx hlink => ?_
    known := fun e he => ?_ }, ⟨fun i hrow hsome => ?_, fun key hfree _ i x hx => ?_,
      [], (List.append_nil _).symm, by simp, rfl⟩⟩
  · obtain ⟨r, hr, hid, -⟩ := hold i x hx
    rw [hid]
    exact h.ids i r hr
  · obtain ⟨r, hr, -, hkey, -⟩ := hold i x hx
    obtain ⟨r', hr', -, hkey', -⟩ := hold i' x' hx'
    exact h.unique i i' r r' hr hr' (hkey.symm.trans (hkeys.trans hkey'))
  · obtain ⟨r, hr, -, -, horder, hmatched⟩ := hold i x hx
    rw [horder, hmatched]
    exact h.matched i r hr
  · obtain ⟨r, hr, -, hkey, horder, -⟩ := hold i x hx
    rw [hkey]
    exact h.linked i r orderId hr (horder.symm.trans hlink)
  · obtain ⟨i, r, hr, hkey, horder⟩ := h.known e he
    obtain ⟨x, hx, hkey', horder'⟩ := hkeep i r hr
    exact ⟨i, x, hx, hkey'.trans hkey, horder'.trans horder⟩
  · by_cases hi : i = id
    · exact absurd (by simp [Ingests.editRow, hi ▸ hrow, hi]) hsome
    · exact absurd (by simpa [Ingests.editRow, hi] using hrow) hsome
  · obtain ⟨r, hr, -, hkey, -⟩ := hold i x hx
    rw [hkey]
    exact hfree i r hr

end Ingests

/-- The discipline of ingested orders. -/
def ingestDiscipline : Discipline ConnectorDb LockKey where
  inv db n := db.ingests.Sound n
  step L s s' := s.ingests.Step L s'.ingests
  inv_mono hle h := { h with
    ids := fun id r hr => ⟨(h.ids id r hr).1, (h.ids id r hr).2.trans_le hle⟩
    stamps := fun e he => ⟨(h.stamps e he).1.trans_le hle, (h.stamps e he).2⟩ }

/-- Every commit is admitted, and the answers say nothing. -/
abbrev ingestTerms : Terms ConnectorDb LockKey Unit (Except ServiceError Unit) :=
  ingestDiscipline.terms

theorem step_refl (L : Hold LockKey → Prop) (s : ConnectorDb) : ingestDiscipline.step L s s :=
  Ingests.Step.refl _

/-! ### Writes -/

section Writes

variable {db : ConnectorDb}

theorem ingests_putRow (r : AggregatorOrder) :
    ConnectorDb.ingests { db with aggregatorOrders := db.aggregatorOrders.put r } =
      db.ingests.putRow r := by
  refine congrArg (fun row => { db.ingests with row := row }) (funext fun id => ?_)
  by_cases hid : id = r.id
  · rw [hid, if_pos rfl]
    exact KeyedTable.find?_put_self
  · rw [if_neg hid]
    exact KeyedTable.find?_put_of_ne hid

theorem ingests_updateOrder (id : ℕ) {f : AggregatorOrder → AggregatorOrder}
    (hf : ∀ r, (f r).id = r.id) :
    (db.updateOrder id f hf).ingests = db.ingests.editRow id f := by
  refine congrArg (fun row => { db.ingests with row := row }) (funext fun i => ?_)
  refine (KeyedTable.find?_modify hf i).trans ?_
  cases hfind : db.aggregatorOrders.find? i with
  | none => simp [ConnectorDb.ingests, hfind]
  | some r =>
    obtain ⟨-, rfl⟩ := KeyedTable.find?_eq_some.mp hfind
    by_cases hid : r.id = id
    · simp [ConnectorDb.ingests, hid, hid ▸ hfind]
    · simp [ConnectorDb.ingests, hfind, hid]

/-- A write to the billing tables that opens no bill and inserts no ticket. -/
def Apart (f : BillingDb → BillingDb) : Prop :=
  ∀ b, (∀ id, ((f b).orders.find? id).isSome = (b.orders.find? id).isSome) ∧ (f b).kots = b.kots

theorem Apart.leaves {f : BillingDb → BillingDb} (hf : Apart f) :
    Leaves ConnectorDb.ingests fun db => { db with billing := f db.billing } := by
  intro db
  obtain ⟨horders, hkots⟩ := hf db.billing
  simp only [ConnectorDb.ingests, horders, hkots]

theorem apart_setFigures (orderId : RowId) (figures : Billing.OrderFigures) :
    Apart fun b => b.setFigures orderId figures := by
  refine fun b => ⟨fun id => ?_, rfl⟩
  change ((b.orders.modify _ (fun o => { o with figures := figures }) fun _ => rfl).find? id).isSome =
    _
  rw [KeyedTable.find?_modify, Option.isSome_map]

theorem ingests_openOrder (o : Billing.Order) :
    ConnectorDb.ingests { db with billing := db.billing.insertOrder o } =
      db.ingests.openOrder o.id := by
  refine congrArg (fun order => { db.ingests with order := order }) (funext fun id => propext ?_)
  change ((db.billing.orders.put o).find? id).isSome ↔ id = o.id ∨ (db.billing.orders.find? id).isSome
  by_cases hid : id = o.id
  · simp [hid, KeyedTable.find?_put_self]
  · simp [hid, KeyedTable.find?_put_of_ne hid]

theorem ingests_punch (k : Billing.Kot) :
    ConnectorDb.ingests { db with billing := db.billing.insertKot k } =
      db.ingests.punch k.id k.orderId := by
  refine congrArg (fun kot => { db.ingests with kot := kot }) (funext fun id => ?_)
  change ((db.billing.kots.put k).find? id).map _ = if id = k.id then some k.orderId else _
  by_cases hid : id = k.id
  · rw [hid, KeyedTable.find?_put_self, if_pos rfl]
    rfl
  · rw [KeyedTable.find?_put_of_ne hid, if_neg hid]
    rfl

end Writes

/-! ### Statements -/

section Statements

/-- Where a transaction stands, and what its writes so far do to what is ingested. -/
abbrev IngestRunning := ingestDiscipline.Running ConnectorDb.ingests

variable {α : Type} {L : Hold LockKey → Prop} {K : ConnectorDb → Prop}
  {f : ConnectorDb → ConnectorDb} {g : Ingests → Ingests}

/-- No one else ingests an order under a number that is drawn. -/
theorem stable_unstamped {n : ℕ} (hn : L (.number n)) :
    ingestDiscipline.Stable L fun s => ∀ e ∈ s.ingests.journal, e.orderId.stamp ≠ n := by
  intro L' s m s' m' _ _ hother hstep hnew e he
  obtain ⟨new, hjournal, hnumber, -⟩ := hstep.grows
  rw [hjournal] at he
  rcases List.mem_append.mp he with he | he
  · exact hnew e he
  · rintro rfl
    exact hother _ hn (hnumber e he)

/-- A part of the bill's transaction that opens no bill and inserts no ticket. -/
theorem leaves_part {t : Billing.BillingTx α} (h : t.Writes Apart) :
    (t.onPart ConnectorDb.billing (fun billing db => { db with billing := billing }) LockKey.billing
      billingError : ConnectorTx α).Writes (Leaves ConnectorDb.ingests) :=
  h.onPart _ _ _ _ fun _ => Apart.leaves

/-- What is consumed of the materials is taken from their stock. -/
theorem wp_consumeMaterials (kotId : RowId) (consumption : List (String × Binary64))
    {post : (Hold LockKey → Prop) → (ConnectorDb → Prop) → (ConnectorDb → ConnectorDb) →
      List Consumed → Prop} (hrun : IngestRunning L K f g)
    (hpost : ∀ L' f' consumed, (∀ k, L k → L' k) →
      IngestRunning L' K f' (fun v => (g v).take kotId consumed) → post L' K f' consumed) :
    ingestDiscipline.wp (consumption.mapM (consumeMaterial kotId)) L K f post := by
  induction consumption generalizing L f g post with
  | nil =>
    rw [List.mapM_nil]
    refine hpost L f [] (fun _ => id) ⟨hrun.stable, fun s => ?_⟩
    simp [hrun.effect, Ingests.take]
  | cons c consumption ih =>
    rw [List.mapM_cons]
    simp only [Discipline.wp_bind, consumeMaterial]
    rw [wp_acquire]
    refine wp_query_any (hrun.add _).stable fun row => ?_
    refine wp_require fun material _ => wp_require fun stock _ => wp_require fun moved _ => ?_
    rw [wp_update, wp_update, Discipline.wp_pure]
    refine ih (g := fun v => (g v).take kotId [⟨c.1, c.2, moved⟩]) ?_ fun L' f' consumed hL hrun' => ?_
    · exact ⟨(hrun.add _).stable, fun s =>
        congrArg (Ingests.take · kotId [⟨c.1, c.2, moved⟩]) (hrun.effect s)⟩
    · refine hpost L' f' _ (fun k hk => hL k (.inr hk)) ⟨hrun'.stable, fun s => ?_⟩
      rw [hrun'.effect]
      simp [Ingests.take]

/-- The bill that is opened for an order, under a number that is drawn. -/
structure Opens (key : AggregatorPlatform × String) (L : Hold LockKey → Prop)
    (K : ConnectorDb → Prop) (r : Billing.IngestResult) (e : Ingested) : Prop where
  key : e.key = key
  order : e.orderId = r.orderId
  index : e.orderId.index = 0
  kot : e.kotId = ⟨e.orderId.stamp, 1⟩
  number : L (.number e.orderId.stamp)
  unstamped : ∀ s, K s → ∀ e' ∈ s.ingests.journal, e'.orderId.stamp ≠ e.orderId.stamp

/-- A new bill is opened with its ticket, and what its items take is taken from the stock. -/
theorem wp_ingestAggregatorOrderTx (menu : ConnectorMenu) (input : ConnectorIngestInput)
    (channel : Option Billing.Channel) (matched : List MatchedItem) (hmatched : matched ≠ [])
    {post : (Hold LockKey → Prop) → (ConnectorDb → Prop) → (ConnectorDb → ConnectorDb) →
      Billing.IngestResult → Prop} (hrun : IngestRunning L K f g)
    (hpost : ∀ L' K' f' r e, (∀ k, L k → L' k) → (∀ s, K' s → K s) → Opens input.key L' K' r e →
      IngestRunning L' K' f' (fun v => ((((g v).openOrder e.orderId).punch e.kotId e.orderId).take
        e.kotId e.consumption).record e) → post L' K' f' r) :
    ingestDiscipline.wp (ingestAggregatorOrderTx menu input channel matched hmatched) L K f post := by
  simp only [ingestAggregatorOrderTx, Billing.ingestAggregatorOrder, Billing.punchItems, onPart_bind,
    onPart_draw, onPart_update, onPart_pure, Discipline.wp_bind]
  refine wp_draw hrun.stable fun s n hs _ =>
    ⟨fun s => ∀ e ∈ s.ingests.journal, e.orderId.stamp ≠ n, ?_, fun e he => (hs.stamps e he).1.ne, ?_⟩
  · exact stable_unstamped (.inl rfl)
  rw [wp_update]
  refine wp_leaves (g := fun v => (g v).openOrder ⟨n, 0⟩) (leaves_part (writes_query _)) ?_
    fun L₁ f₁ outlet hL₁ hrun₁ => ?_
  · exact ⟨(hrun.stable.add _).and (stable_unstamped (.inl rfl)), fun s =>
      (ingests_openOrder _).trans (congrArg (Ingests.openOrder · _) (hrun.effect s))⟩
  refine wp_leaves (leaves_part (writes_require _ _)) hrun₁ fun L₂ f₂ _ hL₂ hrun₂ => ?_
  refine wp_leaves (leaves_part (Billing.writes_drawNumber fun _ => ⟨fun _ => rfl, rfl⟩)) hrun₂
    fun L₃ f₃ number hL₃ hrun₃ => ?_
  rw [wp_update]
  refine wp_leaves (g := fun v => ((g v).openOrder ⟨n, 0⟩).punch ⟨n, 1⟩ ⟨n, 0⟩)
    (leaves_part (writes_liftM _)) ?_ fun L₄ f₄ lines hL₄ hrun₄ => ?_
  · exact ⟨hrun₃.stable, fun s =>
      (ingests_punch _).trans (congrArg (Ingests.punch · _ _) (hrun₃.effect s))⟩
  rw [wp_update, wp_update]
  refine wp_leaves (g := fun v => ((g v).openOrder ⟨n, 0⟩).punch ⟨n, 1⟩ ⟨n, 0⟩)
    (leaves_part (Billing.writes_recomputeTotals _ _ _ (apart_setFigures _)))
    ⟨hrun₄.stable, hrun₄.effect⟩ fun L₅ f₅ figures hL₅ hrun₅ => ?_
  refine wp_leaves (leaves_part (writes_query _)) hrun₅ fun L₆ f₆ kots hL₆ hrun₆ => ?_
  rw [Discipline.wp_pure]
  refine wp_consumeMaterials _ _ hrun₆ fun L₇ f₇ consumed hL₇ hrun₇ => ?_
  rw [wp_update, Discipline.wp_pure]
  have hL : ∀ k, add L (.number n) k → L₇ k := fun k hk =>
    hL₇ k (hL₆ k (hL₅ k (hL₄ k (hL₃ k (hL₂ k (hL₁ k hk))))))
  refine hpost L₇ _ _ _ ⟨input.platform, input.externalOrderId, ⟨n, 0⟩, ⟨n, 1⟩, consumed⟩
    (fun k hk => hL k (.inr hk)) (fun s => And.left)
    ⟨rfl, rfl, rfl, rfl, hL _ (.inl rfl), fun s => And.right⟩ ?_
  exact ⟨hrun₇.stable, fun s => congrArg (Ingests.record · _) (hrun₇.effect s)⟩

/-- The key is free as long as it is locked. -/
theorem stable_free {key : AggregatorPlatform × String} (hkey : L (.lock (.key key))) :
    ingestDiscipline.Stable L fun s => s.ingests.Free key :=
  fun _ _ _ _ _ _ _ hother hstep hfree => hstep.keys key hfree (hother _ hkey)

/-- No one else inserts a row under a number that is drawn. -/
theorem stable_absent {n : ℕ} (hn : L (.number n)) :
    ingestDiscipline.Stable L fun s => s.ingests.row n = none := by
  intro L' s m s' m' _ _ hother hstep hnone
  by_contra hsome
  exact hother _ hn (hstep.origin n hnone hsome)

theorem free_of_findOrder {s : ConnectorDb} {key : AggregatorPlatform × String}
    (h : s.findOrder key = none) : s.ingests.Free key := by
  intro id r hr hkey
  have hmem : r ∈ s.aggregatorOrders := (KeyedTable.find?_eq_some.mp hr).1
  simpa [hkey] using List.find?_eq_none.mp h r hmem

end Statements

/-! ### Methods -/

section Methods

variable {admits : Unit → (Hold LockKey → Prop) → ConnectorDb → Prop} {α : Type}

/-- The transaction of an ingest keeps what is ingested. -/
theorem wp_ingestTx (menu : ConnectorMenu) (input : ConnectorIngestInput)
    (channel : Option Billing.Channel) (matched : List MatchedItem) (unmatched : List String)
    {L : Hold LockKey → Prop} {K : ConnectorDb → Prop} (hK : ingestDiscipline.Stable L K) :
    ingestDiscipline.wp (ingestTx menu input channel matched unmatched) L K id fun L K f _ =>
      ingestDiscipline.Commits L K f := by
  simp only [ingestTx, Discipline.wp_bind]
  rw [wp_acquire]
  set L₁ := add L (.lock (.key input.key)) with hL₁
  have hkey : L₁ (.lock (.key input.key)) := .inl rfl
  refine wp_query (hK.add _) fun s n _ _ => ?_
  by_cases hexisting : s.findOrder input.key = none
  swap
  · exact ⟨fun _ => True, stable_true, trivial, wp_check fun h => absurd h hexisting⟩
  refine ⟨_, stable_free hkey, free_of_findOrder hexisting, wp_check fun _ =>
    wp_require fun orderValue _ => ?_⟩
  refine wp_draw ((hK.add _).and (stable_free hkey)) fun s id hs _ =>
    ⟨_, stable_absent (.inl rfl), ?_, ?_⟩
  · cases hrow : s.ingests.row id with
    | none => rfl
    | some r => exact absurd (hs.ids id r hrow).2 (lt_irrefl id)
  rw [wp_acquire, wp_update]
  set L₂ := add (add L₁ (.number id)) (.lock (.aggregatorOrder id)) with hL₂
  set row : AggregatorOrder := ⟨id, input.outletId, input.platform, input.externalOrderId, none,
    .received, input.customerName, input.customerPhoneMasked, orderValue, unmatched, matched⟩ with hrow
  have hrun : IngestRunning L₂ _ _ (·.putRow row) := ⟨((((hK.add _).and (stable_free hkey)).add _).and
    (stable_absent (.inl rfl))).add _, fun _ => ingests_putRow row⟩
  have hnumber : L₂ (.number id) := .inr (.inl rfl)
  have hlock : L₂ (.lock (.key row.key)) := .inr (.inr hkey)
  split
  · simp only [Discipline.wp_bind]
    refine wp_ingestAggregatorOrderTx menu input channel matched ‹_› hrun
      fun L' K' f' r e hL hK' hopens hrun' => ?_
    rw [wp_update, Discipline.wp_pure]
    intro s n hs hdrawn hK's
    have heffect := (@ingests_updateOrder (f' s) id
      (fun x => { x with orderId := some r.orderId, status := .accepted }) fun _ => rfl).trans
        ((congrArg (Ingests.editRow · id _) (hrun'.effect s)).trans (Ingests.editRow_ingest rfl rfl))
    obtain ⟨⟨-, hfree⟩, hnone⟩ := hK' s hK's
    change Ingests.Sound (ConnectorDb.ingests _) n ∧ Ingests.Step L' _ (ConnectorDb.ingests _)
    rw [Function.comp_apply, heffect]
    exact hs.ingest (hdrawn id (hL _ hnumber)) hnone hfree (congrArg some hopens.order.symm) ‹_›
      hopens.key (hdrawn _ hopens.number) hopens.index hopens.kot (hopens.unstamped s hK's)
      (hL _ hnumber) hopens.number (hL _ hlock)
  · rename_i hmatched
    intro s n hs hdrawn hKs
    change Ingests.Sound (ConnectorDb.ingests _) n ∧ Ingests.Step L₂ _ (ConnectorDb.ingests _)
    rw [Function.comp_id, ingests_putRow]
    exact hs.putRow (hdrawn id hnumber) hKs.2 hKs.1.2 rfl (not_not.mp hmatched) hnumber hlock

theorem keeps_ingest (menu : ConnectorMenu) (input : ConnectorIngestInput) :
    (ingest menu input).Keeps ingestDiscipline admits := by
  refine (keeps_look _).bind fun _ => (keeps_getOr _ _).bind fun _ => ?_
  refine keeps_tryCatch (keeps_atomically fun L K _ hK => ?_) fun e => ?_
  · refine Discipline.wp_mono (wp_ingestTx menu input _ _ _ hK) fun L K f _ hcommits => ?_
    exact ⟨_, Commits.to fun s n hs hdrawn hKs => hcommits s n hs hdrawn hKs.1⟩
  · cases e with
    | p2002 => exact (keeps_look _).bind fun _ => keeps_pure _
    | _ => exact keeps_throw _

theorem keeps_updateStatus (platform : AggregatorPlatform) (externalOrderId : String)
    (status : AggregatorStatus) :
    (updateStatus platform externalOrderId status).Keeps ingestDiscipline admits := by
  refine (keeps_look _).bind fun _ => (keeps_getOr _ _).bind fun agg =>
    Keeps.bind (keeps_atomically fun L K _ hK => ?_) fun _ => keeps_guardOr _ _
  refine wp_updateWhere hK (fun L' _ => ⟨_, Commits.to fun s n hs _ _ => ⟨hs, step_refl L' s⟩⟩)
    fun s n _ _ _ => ⟨fun _ => True, stable_true, trivial, _, Commits.to fun s n hs _ _ => ?_⟩
  have hedit := @ingests_updateOrder s agg.id (fun r => { r with status := status }) fun _ => rfl
  change Ingests.Sound (ConnectorDb.ingests _) n ∧ Ingests.Step _ _ (ConnectorDb.ingests _)
  rw [Function.comp_id, hedit]
  exact hs.editRow agg.id fun _ => ⟨rfl, rfl, rfl, rfl⟩

/-- Every method keeps what is ingested. -/
theorem ingest_keeps (r : ConnectorRequest) : r.run.Keeps ingestDiscipline admits := by
  cases r with
  | ingest menu input => exact (keeps_ingest menu input).bind fun _ => keeps_pure _
  | updateStatus platform externalOrderId status =>
    exact keeps_updateStatus platform externalOrderId status

end Methods

/-! ### All interleavings -/

/-- Every order has one row; if any of its items was found on the menu, it has one bill, with one
ticket and the stock movements of the ticket, and there are no others. -/
structure IngestedOnce (db : ConnectorDb) : Prop where
  oneRow : ∀ r ∈ db.aggregatorOrders.rows, ∀ r' ∈ db.aggregatorOrders.rows, r.key = r'.key → r.id = r'.id
  once : db.journal.Pairwise fun e e' => e.key ≠ e'.key ∧ e.orderId ≠ e'.orderId
  matched : ∀ r ∈ db.aggregatorOrders.rows, r.matched ≠ [] → ∃ e ∈ db.journal, e.key = r.key ∧
    r.orderId = some e.orderId ∧ (db.billing.orders.rows.filter (·.id = e.orderId)).length = 1 ∧
      (db.billing.kots.rows.filter (·.orderId = e.orderId)).map (·.id) = [e.kotId] ∧
        db.stockMovements.filter (·.refId = e.kotId) = e.movements
  unmatched : ∀ r ∈ db.aggregatorOrders.rows, r.matched = [] → r.orderId = none
  bills : ∀ o ∈ db.billing.orders.rows, ∃ r ∈ db.aggregatorOrders.rows, r.orderId = some o.id
  tickets : ∀ k ∈ db.billing.kots.rows, ∃ r ∈ db.aggregatorOrders.rows, r.orderId = some k.orderId
  movements : ∀ m ∈ db.stockMovements, ∃ k ∈ db.billing.kots.rows, m.refId = k.id

/-- What was ingested in between was taken from the stock. -/
def Depleted (s s' : ConnectorDb) : Prop :=
  ∃ new, s'.journal = s.journal ++ new ∧
    s'.rawMaterials = (new.flatMap (·.consumption)).foldl deplete s.rawMaterials

theorem Depleted.refl (s : ConnectorDb) : Depleted s s := ⟨[], (List.append_nil _).symm, rfl⟩

theorem Depleted.trans {s s' s'' : ConnectorDb} (h : Depleted s s') (h' : Depleted s' s'') :
    Depleted s s'' := by
  obtain ⟨new, hjournal, hstock⟩ := h
  obtain ⟨new', hjournal', hstock'⟩ := h'
  refine ⟨new ++ new', ?_, ?_⟩
  · rw [hjournal', hjournal, List.append_assoc]
  · rw [hstock', hstock, List.flatMap_append, List.foldl_append]

section Sound

variable {db : ConnectorDb} {n : ℕ} (h : db.ingests.Sound n)

include h

omit h in
theorem row_of_mem {r : AggregatorOrder} (hr : r ∈ db.aggregatorOrders) :
    db.ingests.row r.id = some r := KeyedTable.find?_of_mem hr

omit h in
theorem mem_of_row {id : ℕ} {r : AggregatorOrder} (hr : db.ingests.row id = some r) :
    r ∈ db.aggregatorOrders := (KeyedTable.find?_eq_some.mp hr).1

/-- The entry of the journal that a ticket was punched for. -/
theorem entry_of_kot {k : Billing.Kot} (hk : k ∈ db.billing.kots) :
    ∃ e ∈ db.journal, e.kotId = k.id ∧ e.orderId = k.orderId :=
  (h.kots k.id k.orderId).mp (congrArg (Option.map _) (KeyedTable.find?_of_mem hk))

theorem kot_of_entry {e : Ingested} (he : e ∈ db.journal) :
    ∃ k ∈ db.billing.kots, k.id = e.kotId ∧ k.orderId = e.orderId := by
  obtain ⟨k, hk, horder⟩ := Option.map_eq_some_iff.mp ((h.kots e.kotId e.orderId).mpr ⟨e, he, rfl, rfl⟩)
  obtain ⟨hk, hid⟩ := KeyedTable.find?_eq_some.mp hk
  exact ⟨k, hk, hid, horder⟩

/-- The entries are told apart by their bills. -/
theorem entry_inj {e e' : Ingested} (he : e ∈ db.journal) (he' : e' ∈ db.journal)
    (horder : e.orderId = e'.orderId) : e = e' := by
  have hnodup : (db.journal.map (·.orderId.stamp)).Nodup := List.pairwise_map.mpr h.apart
  exact List.inj_on_of_nodup_map hnodup he he' (congrArg RowId.stamp horder)

/-- The stock movements of an entry's ticket are those that the entry made. -/
theorem filter_movements {e : Ingested} (he : e ∈ db.journal) :
    db.stockMovements.filter (·.refId = e.kotId) = e.movements := by
  have hnodup : (db.journal.map (·.kotId)).Nodup := by
    refine List.pairwise_map.mpr (h.apart.imp_of_mem fun {x y} hx hy hne heq => hne ?_)
    rw [(h.stamps x hx).2.2, (h.stamps y hy).2.2] at heq
    exact (RowId.mk.inj heq).1
  have hmovements : db.stockMovements = db.journal.flatMap (·.movements) := h.movements
  rw [hmovements]
  refine Journal.filter_flatMap hnodup (fun x _ m hm => ?_) he
  obtain ⟨c, -, rfl⟩ := List.mem_map.mp hm
  rfl

theorem ingestedOnce : IngestedOnce db := by
  refine ⟨fun r hr r' hr' hkeys => ?_, ?_, fun r hr hmatched => ?_, fun r hr hmatched => ?_,
    fun o ho => ?_, fun k hk => ?_, fun m hm => ?_⟩
  · exact h.unique r.id r'.id r r' (row_of_mem hr) (row_of_mem hr') hkeys
  · refine h.apart.imp_of_mem fun {x y} hx hy hne => ⟨fun hkeys => ?_, fun horder => ?_⟩
    · -- the row of the key has one bill
      obtain ⟨id, r, hr, hrkey, hrorder⟩ := h.known x hx
      obtain ⟨id', r', hr', hrkey', hrorder'⟩ := h.known y hy
      obtain rfl := h.unique id id' r r' hr hr' (hrkey.trans (hkeys.trans hrkey'.symm))
      obtain rfl := Option.some.inj (hr.symm.trans hr')
      exact hne (congrArg RowId.stamp (Option.some.inj (hrorder.symm.trans hrorder')))
    · exact hne (congrArg RowId.stamp horder)
  · have horder : r.orderId ≠ none := fun hnone => hmatched ((h.matched r.id r (row_of_mem hr)).mp hnone)
    obtain ⟨orderId, horder⟩ := Option.ne_none_iff_exists'.mp horder
    obtain ⟨e, he, hkey, rfl⟩ := h.linked r.id r orderId (row_of_mem hr) horder
    obtain ⟨o, ho⟩ := Option.isSome_iff_exists.mp ((h.orders e.orderId).mpr ⟨e, he, rfl⟩)
    obtain ⟨ho, hoid⟩ := KeyedTable.find?_eq_some.mp ho
    obtain ⟨k, hk, hkid, hkorder⟩ := kot_of_entry h he
    refine ⟨e, he, hkey, horder, ?_, ?_, filter_movements h he⟩
    · rw [KeyedTable.filter_eq_singleton ho (decide_eq_true hoid) fun x _ hx =>
        (of_decide_eq_true hx).trans hoid.symm]
      rfl
    · rw [KeyedTable.filter_eq_singleton hk (decide_eq_true hkorder) fun x hx hxorder => ?_]
      · rw [List.map_singleton, hkid]
      · obtain ⟨e', he', hkot, horder'⟩ := entry_of_kot h hx
        have heq := entry_inj h he' he (horder'.trans (of_decide_eq_true hxorder))
        rw [← hkot, heq, hkid]
  · exact (h.matched r.id r (row_of_mem hr)).mpr hmatched
  · obtain ⟨e, he, hid⟩ := (h.orders o.id).mp (Option.isSome_iff_exists.mpr
      ⟨o, KeyedTable.find?_of_mem ho⟩)
    obtain ⟨i, r, hr, -, horder⟩ := h.known e he
    exact ⟨r, mem_of_row hr, horder.trans (congrArg some hid)⟩
  · obtain ⟨e, he, -, hid⟩ := entry_of_kot h hk
    obtain ⟨i, r, hr, -, horder⟩ := h.known e he
    exact ⟨r, mem_of_row hr, horder.trans (congrArg some hid)⟩
  · have hmovements : db.stockMovements = db.journal.flatMap (·.movements) := h.movements
    rw [hmovements] at hm
    obtain ⟨e, he, hme⟩ := List.mem_flatMap.mp hm
    obtain ⟨c, -, rfl⟩ := List.mem_map.mp hme
    obtain ⟨k, hk, hid, -⟩ := kot_of_entry h he
    exact ⟨k, hk, hid.symm⟩

end Sound

theorem sound_init {db : ConnectorDb} {n : ℕ} (h : db.billing.orders = .empty ∧
    db.billing.kots = .empty ∧ db.aggregatorOrders = .empty ∧ db.stockMovements = [] ∧
      db.journal = []) : db.ingests.Sound n := by
  obtain ⟨horders, hkots, hrows, hmovements, hjournal⟩ := h
  have hrow : ∀ id, db.ingests.row id = none := fun id => by
    simp [ConnectorDb.ingests, hrows]
  have hnone : db.ingests.journal = [] := hjournal
  constructor <;> simp [hrow, hnone]
  · exact fun id => by simp [ConnectorDb.ingests, horders]
  · exact fun id orderId => by simp [ConnectorDb.ingests, hkots]
  · exact hmovements

/-- An outlet with rice in stock, whose dosa is on Zomato's menu. -/
def cloudKitchen : ConnectorDb where
  billing :=
    { outlets := .put .empty ⟨"o", 1, 1, 0, 1, none⟩
      tables := .empty
      orders := .empty
      items := .empty
      kots := .empty
      payments := []
      coupons := .empty
      customers := .empty
      otps := .empty
      giftCards := .empty
      unsplits := []
      comboChoices := []
      loyaltyTransactions := []
      otpUses := []
      edgeInvoices := [] }
  aggregatorOrders := .empty
  rawMaterials := .put .empty ⟨"rice", ⟨10000, by decide⟩⟩
  stockMovements := []
  journal := []

def zomatoMenu : ConnectorMenu where
  menu := ⟨[⟨"dosa", "o", "Dosa", .hundred, 0, true, none, none, [], [], none⟩], [],
    [⟨"z", "o", "Zomato", true⟩], [], 0⟩
  maps := [⟨"z", "zd", "dosa"⟩]
  recipe := [⟨"dosa", "rice", ⟨250, by decide⟩⟩]

/-- A delivery of an order for one item. -/
def delivery (externalItemId : String) : ConnectorRequest :=
  .ingest zomatoMenu ⟨.zomato, "Z1", "o", [⟨externalItemId, 1, Nat.one_pos⟩], by simp, none, none,
    .ofRat 100⟩

end StelloKitchens.Connector
