import StelloKitchens.Cloud.SaleRows

/-!
# What applying an order can do

An order that is applied is a duplicate, is stored, finds its key taken by an order of another
outlet, or is refused and filed. On its own a transaction finds every other key it needs free: its
row id is new, and a taken invoice number was seen before it was filed.

## Main definitions

* `CloudDb.Storable` — the figures of an order add up and the catalog has its lines.

## Main results

* `CloudDb.applyOrder_cases` — the four outcomes, with what was checked for each.
-/

namespace StelloKitchens

open Checked

namespace CloudDb

variable {db : CloudDb} {device : EdgeDeviceContext} {order : EdgeOrderInput} {skewMs : ℤ}
  {now : Time}

/-! ### Ids -/

theorem le_foldr_max {n : ℕ} {ns : List ℕ} (h : n ∈ ns) : n ≤ ns.foldr max 0 := by
  induction ns with
  | nil => cases h
  | cons m ns ih =>
    rcases List.mem_cons.mp h with rfl | h
    · exact le_max_left _ _
    · exact (ih h).trans (le_max_right _ _)

theorem lt_freshId_of_order {o : Cloud.Order} (h : o ∈ db.orders.rows) : o.id < db.freshId :=
  Nat.lt_succ_of_le (le_foldr_max (List.mem_append_left _
    (List.mem_append_left _ (List.mem_map.mpr ⟨o, h, rfl⟩))))

theorem lt_freshId_of_item {i : Cloud.OrderItem} (h : i ∈ db.orderItems) :
    i.orderId < db.freshId :=
  Nat.lt_succ_of_le (le_foldr_max (List.mem_append_left _
    (List.mem_append_right _ (List.mem_map.mpr ⟨i, h, rfl⟩))))

theorem lt_freshId_of_kot {k : Cloud.Kot} (h : k ∈ db.kots) : k.orderId < db.freshId :=
  Nat.lt_succ_of_le (le_foldr_max (List.mem_append_right _ (List.mem_map.mpr ⟨k, h, rfl⟩)))

theorem foldr_max_lt {m : ℕ} {ns : List ℕ} (hm : 0 < m) (h : ∀ n ∈ ns, n < m) :
    ns.foldr max 0 < m := by
  induction ns with
  | nil => exact hm
  | cons n ns ih =>
    exact max_lt (h n List.mem_cons_self) (ih fun k hk => h k (List.mem_cons_of_mem _ hk))

theorem freshId_pos : 0 < db.freshId := Nat.succ_pos _

/-- With ids in use that all were, the next id is not lower. -/
theorem freshId_le {db' : CloudDb} (horders : ∀ o ∈ db.orders.rows, o.id < db'.freshId)
    (hitems : ∀ i ∈ db.orderItems, i.orderId < db'.freshId)
    (hkots : ∀ k ∈ db.kots, k.orderId < db'.freshId) : db.freshId ≤ db'.freshId := by
  apply foldr_max_lt freshId_pos
  simp only [List.mem_append, List.mem_map]
  rintro n ((⟨o, ho, rfl⟩ | ⟨i, hi, rfl⟩) | ⟨k, hk, rfl⟩)
  · exact horders o ho
  · exact hitems i hi
  · exact hkots k hk

/-! ### The invoice of a sale -/

/-- A filed invoice is the number of the order, under the activation that owns its series, and its
place was not taken. -/
theorem fileInvoice_spec {r : Reads} {i : Cloud.EdgeInvoiceSeq}
    (h : (fileInvoice r device order).2.1 = some i) :
    order.status = .settled ∧ ∃ b, order.billNo = some b ∧ r.taken = false ∧
      (if b.series = device.seriesCode then some device.edgeDeviceId else r.owner) =
        some i.edgeDeviceId ∧
      i = ⟨device.tenantId, device.outletId, i.edgeDeviceId, b.series, b.fy, b.seq, b.number,
        r.orderId⟩ := by
  unfold fileInvoice at h
  dsimp only at h
  split at h
  · cases h
  rename_i hsettled
  refine ⟨not_not.mp hsettled, ?_⟩
  split at h
  · cases h
  rename_i b hb
  split at h
  · rename_i owner expected howner hexpected
    split at h
    · cases h
    split at h
    · cases h
    rename_i htaken
    cases h
    exact ⟨b, hb, by simpa using htaken, howner, rfl⟩
  · cases h

/-- A well-formed number of the terminal's own series is filed unless it was seen to be taken. -/
theorem fileInvoice_eq_some {r : Reads} {b : EdgeBillNo} {owner : String}
    (hsettled : order.status = .settled) (hb : order.billNo = some b)
    (hnumber : formatEdgeBillNumber b.series b.fy b.seq = .ok b.number)
    (howner : (if b.series = device.seriesCode then some device.edgeDeviceId else r.owner) =
      some owner) (htaken : r.taken = false) :
    (fileInvoice r device order).2.1 = some ⟨device.tenantId, device.outletId, owner, b.series,
      b.fy, b.seq, b.number, r.orderId⟩ := by
  unfold fileInvoice
  simp only [hsettled, hb, howner, hnumber, htaken, ne_eq, not_true_eq_false, if_false,
    Bool.false_eq_true]

/-! ### The transaction on its own -/

theorem reads_owner {b : EdgeBillNo} (hb : order.billNo = some b) :
    (if b.series = device.seriesCode then some device.edgeDeviceId
      else (db.reads device order now).owner) = db.billOwner device b := by
  have howner : (db.reads device order now).owner = db.seriesOwner device b.series := by
    rw [reads, hb]
    rfl
  rw [howner, billOwner]

/-- A bill is taken when its place in the series or its number is filed. -/
theorem reads_taken_iff {b : EdgeBillNo} (hb : order.billNo = some b) :
    (db.reads device order now).taken = true ↔ ∃ i, i ∈ db.invoiceSeqs ∧
      ((some i.edgeDeviceId = db.billOwner device b ∧ i.fiscalYear = b.fy ∧ i.seq = b.seq) ∨
        (i.outletId = device.outletId ∧ i.billNumber = b.number)) := by
  have htaken : (db.reads device order now).taken = db.invoiceSeqs.any fun i =>
      (some i.edgeDeviceId = db.billOwner device b ∧ i.fiscalYear = b.fy ∧ i.seq = b.seq) ∨
        (i.outletId = device.outletId ∧ i.billNumber = b.number) := by
    rw [reads, hb]
    rfl
  rw [htaken, List.any_eq_true]
  simp only [decide_eq_true_eq]

/-- With its terminal and client id free, a sale finds all its keys free. -/
theorem keysFree_of_find? {totals : OrderTotals} {lines : SaleLines}
    (hfree : db.orders.find? (device.terminalId, order.clientId) = none) :
    db.keysFree (assembleSale (db.reads device order now) device order
      (saleHeadOf (db.reads device order now) device order skewMs totals) lines) := by
  refine ⟨hfree, fun o ho => (lt_freshId_of_order ho).ne, fun k hk hid => ?_, fun i hi j hj => ?_⟩
  · exact (lt_freshId_of_kot hk).ne (congrArg Prod.fst hid)
  · obtain ⟨-, b, hb, htaken, howner, hi⟩ := fileInvoice_spec hi
    rw [reads_owner hb] at howner
    rw [← Bool.not_eq_true, reads_taken_iff hb, not_exists] at htaken
    have hj := fun h => htaken j ⟨hj, h⟩
    rw [howner] at hj
    rw [hi]
    constructor
    · rintro heq
      obtain ⟨h₁, h₂, h₃⟩ : j.edgeDeviceId = i.edgeDeviceId ∧ j.fiscalYear = b.fy ∧ j.seq = b.seq := by
        simpa using heq
      exact hj (.inl ⟨congrArg some h₁, h₂, h₃⟩)
    · rintro heq
      obtain ⟨h₁, h₂⟩ : j.outletId = device.outletId ∧ j.billNumber = b.number := by
        simpa using heq
      exact hj (.inr ⟨h₁, h₂⟩)

theorem saleHead_eq_ok {r : Reads} {head : SaleHead} :
    saleHead r device order skewMs = .ok head ↔
      ∃ totals, checkFigures order = .ok totals ∧ saleHeadOf r device order skewMs totals = head := by
  simp only [saleHead, bind_eq_ok, pure_eq_ok]

/-- The cloud stores the order if its terminal and client id are free: its figures add up and the
catalog has its lines. -/
structure Storable (db : CloudDb) (device : EdgeDeviceContext) (order : EdgeOrderInput) : Prop where
  figures : ∃ totals, checkFigures order = .ok totals
  items : ∀ line ∈ order.items, (db.findItem device line.itemId).isSome
  combos : ∀ line ∈ order.combos, (db.findCombo device line.comboId).isSome

/-- What the transaction of a sale checked when it stored the sale. -/
theorem insertOrder_spec {r : Reads} {db' : CloudDb} {sale : Sale}
    (h : db.insertOrder device order skewMs r = .ok (db', sale)) :
    db' = db.write device sale ∧ db.keysFree sale ∧ ∃ totals lines,
      checkFigures order = .ok totals ∧
      saleLines r order (saleHeadOf r device order skewMs totals).closedAt = .ok lines ∧
      sale = assembleSale r device order (saleHeadOf r device order skewMs totals) lines := by
  unfold insertOrder at h
  obtain ⟨head, hhead, h⟩ := bind_eq_ok.mp h
  obtain ⟨_, -, h⟩ := bind_eq_ok.mp h
  obtain ⟨lines, hlines, h⟩ := bind_eq_ok.mp h
  obtain ⟨_, hfree, h⟩ := bind_eq_ok.mp h
  obtain ⟨rfl, rfl⟩ := Prod.mk.inj (pure_eq_ok.mp h)
  obtain ⟨totals, hfigures, rfl⟩ := saleHead_eq_ok.mp (mapError_eq_ok.mp hhead)
  exact ⟨rfl, ensure_eq_ok.mp hfree, totals, lines, hfigures, mapError_eq_ok.mp hlines, rfl⟩

theorem storable_iff {closedAt : Time} : db.Storable device order ↔
    (∃ totals, checkFigures order = .ok totals) ∧
      ∃ lines, saleLines (db.reads device order now) order closedAt = .ok lines := by
  rw [saleLines_isOk]
  exact ⟨fun h => ⟨h.figures, h.items, h.combos⟩, fun ⟨hf, hi, hc⟩ => ⟨hf, hi, hc⟩⟩

/-- What applying an order can do. -/
inductive Applied (db : CloudDb) (device : EdgeDeviceContext) (key : String)
    (order : EdgeOrderInput) (skewMs : ℤ) (now : Time) : CloudDb × EdgeOpResult → Prop
  /-- The device's outlet has the order. -/
  | duplicate (o : Cloud.Order) (ho : db.findOrder device order.clientId = some o) :
      Applied db device key order skewMs now (db, duplicateResult key o)
  /-- The order is stored. -/
  | stored (totals : OrderTotals) (lines : SaleLines)
      (hfree : db.orders.find? (device.terminalId, order.clientId) = none)
      (hfigures : checkFigures order = .ok totals)
      (hlines : saleLines (db.reads device order now) order
        (saleHeadOf (db.reads device order now) device order skewMs totals).closedAt = .ok lines) :
      Applied db device key order skewMs now
        (db.write device (assembleSale (db.reads device order now) device order
          (saleHeadOf (db.reads device order now) device order skewMs totals) lines),
        storedResult key (assembleSale (db.reads device order now) device order
          (saleHeadOf (db.reads device order now) device order skewMs totals) lines))
  /-- Another outlet has an order under the same key. -/
  | taken (hfind : db.findOrder device order.clientId = none) (totals : OrderTotals)
      (htaken : (db.orders.find? (device.terminalId, order.clientId)).isSome)
      (hfigures : checkFigures order = .ok totals) :
      Applied db device key order skewMs now
        (db, retryResult key "Invoice number collision; will retry")
  /-- The order is refused. -/
  | rejected (message : String) (hfind : db.findOrder device order.clientId = none)
      (hrefused : ¬db.Storable device order)
      (hwhy : (∃ e, checkFigures order = .error e) ∨
        db.orders.find? (device.terminalId, order.clientId) = none) :
      Applied db device key order skewMs now
        (db.fileRejected device order message,
          ⟨key, .rejected, none, order.billNo.map (·.number), [], some message⟩)

/-- Applying an order has one of the four outcomes. -/
theorem applyOrder_cases (db : CloudDb) (device : EdgeDeviceContext) (key : String)
    (order : EdgeOrderInput) (skewMs : ℤ) (now : Time) :
    Applied db device key order skewMs now (db.applyOrder device key order skewMs now) := by
  unfold applyOrder
  cases hfind : db.findOrder device order.clientId with
  | some o => exact .duplicate o hfind
  | none =>
    dsimp only
    unfold insertOrder
    dsimp only
    cases hfigures : checkFigures order with
    | error e =>
      have hhead : saleHead (db.reads device order now) device order skewMs = .error e := by
        rw [saleHead, hfigures]
        rfl
      rw [hhead, mapError_error, error_bind]
      refine .rejected e hfind (fun h => ?_) (.inl ⟨e, hfigures⟩)
      obtain ⟨totals, h⟩ := h.figures
      cases hfigures.symm.trans h
    | ok totals =>
      rw [saleHead_eq_ok.mpr ⟨totals, hfigures, rfl⟩, mapError_ok, ok_bind]
      by_cases hkey : db.orders.find? (device.terminalId, order.clientId) = none
      · rw [ensure_pos (by exact hkey), ok_bind]
        cases hlines : saleLines (db.reads device order now) order (saleHeadOf
            (db.reads device order now) device order skewMs totals).closedAt with
        | error e =>
          rw [mapError_error, error_bind]
          refine .rejected e hfind (fun h => ?_) (.inr hkey)
          obtain ⟨lines, h⟩ := (storable_iff.mp h).2
          cases hlines.symm.trans h
        | ok lines =>
          rw [mapError_ok, ok_bind, ensure_pos (keysFree_of_find? hkey), ok_bind]
          exact .stored totals lines hkey hfigures hlines
      · rw [ensure_neg (by exact hkey), error_bind]
        exact .taken hfind totals (Option.isSome_iff_ne_none.mpr hkey) hfigures

end CloudDb

end StelloKitchens
