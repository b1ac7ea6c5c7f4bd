import StelloKitchens.Inventory.Effects
import StelloKitchens.Lib.DecimalError

/-!
# Stocktakes on moving stock

A count freezes what is expected of its materials, and posting moves the stock by what was counted
more or less. That is right as long as, between the two, the row of a material and the ledger move
together and nobody else posts it. A category may be counted beside another, so a material must not
change from one to the other while it is on an open count.

## Main definitions

* `InventoryDb.Counted` — a material is on an open count.
* `InventoryAction.Undisturbing` — a request leaves open counts as they are.
* `Carried` — the stock of some materials has moved with the ledger.
* `Stocktaken` — what holds of open counts and of those that are posted.

## Main results

* `stock_settled` — stocktakes over all runs.
-/

namespace StelloKitchens.Inventory

open Checked

/-! ### What disturbs a count -/

namespace InventoryDb

variable (s : InventoryDb)

/-- The material is on an open count. -/
def Counted (id : ℕ) : Prop :=
  ∃ c ∈ s.counts.rows, c.isOpen = true ∧ ∃ l ∈ c.lines, l.rawMaterialId = id

instance (id : ℕ) : Decidable (s.Counted id) := inferInstanceAs (Decidable (∃ c ∈ _, _))

/-- What is moved of a material on an open count has at most three decimals. -/
def Exact (id : ℕ) (quantity : Binary64) : Prop := s.Counted id → Decimal.Near 3 quantity

instance (id : ℕ) (quantity : Binary64) : Decidable (s.Exact id quantity) :=
  inferInstanceAs (Decidable (_ → _))

/-- Materials on an open count of a category stay in it. -/
def Categorised (rows : List PlanningRow) : Prop :=
  ∀ r ∈ rows, ∀ c ∈ s.counts.rows, c.isOpen = true → c.scope = .CATEGORY →
    (∃ l ∈ c.lines, l.rawMaterialId = r.rawMaterialId) → r.newCategory.getD c.category = c.category

instance (rows : List PlanningRow) : Decidable (s.Categorised rows) :=
  inferInstanceAs (Decidable (∀ r ∈ rows, _))

/-- If what the batch makes is on an open count, its stock is still what was read. -/
def Current (b : Batch) : Prop :=
  s.Counted b.rawMaterialId → (∀ m ∈ s.materials.rows, m.id = b.rawMaterialId →
    m.stockQty = b.stockQty) ∧ (∀ n ∈ b.needs, n.rawMaterialId ≠ b.rawMaterialId) ∧
    Decimal.Near 3 b.quantity

instance (b : Batch) : Decidable (s.Current b) := inferInstanceAs (Decidable (_ → _))

end InventoryDb

/-- What is left to write leaves open counts as they are. -/
def Unfinished.Undisturbing (s : InventoryDb) : Unfinished → Prop
  | .opening id _ _ => ¬s.Counted id
  | .batch b => s.Current b ∧ ∀ n ∈ b.needs, s.Exact n.rawMaterialId n.need
  | _ => True

instance (s : InventoryDb) : (u : Unfinished) → Decidable (u.Undisturbing s)
  | .opening id _ _ => inferInstanceAs (Decidable (¬s.Counted id))
  | .batch _ => inferInstanceAs (Decidable (_ ∧ _))
  | .order _ | .orderLines _ _ => .isTrue trivial

/-- The request leaves open counts as they are: it moves what is on them by quantities of three
decimals, records no opening balance of it, overwrites no stock that has moved, and takes nothing
from one category to another. -/
def InventoryAction.Undisturbing (s : InventoryDb) : InventoryAction → Prop
  | .receiveStock id input => s.Exact id input.quantity
  | .recordWastage id input => s.Exact id input.quantity
  | .punchItems consumption | .depleteSynced consumption => ∀ c ∈ consumption, s.Exact c.1 c.2
  | .savePlanning rows => s.Categorised rows
  | .resume i => ∀ u ∈ s.unfinished[i]?, u.Undisturbing s
  | _ => True

instance (s : InventoryDb) : (a : InventoryAction) → Decidable (a.Undisturbing s)
  | .receiveStock _ _ | .recordWastage _ _ => inferInstanceAs (Decidable (s.Exact _ _))
  | .punchItems _ | .depleteSynced _ => inferInstanceAs (Decidable (∀ c ∈ _, s.Exact _ _))
  | .savePlanning rows => inferInstanceAs (Decidable (s.Categorised rows))
  | .resume i => inferInstanceAs (Decidable (∀ u ∈ s.unfinished[i]?, u.Undisturbing s))
  | .createMaterial _ | .updateMaterial _ _ | .deleteMaterial _ _ | .dispatch _ | .receiveIndent _
  | .produceBatch _ _ _ _ | .createOrder _ | .updateOrder _ _ | .actOnOrder _ _
  | .receiveOrder _ _ _ | .createCount _ | .enterCounts _ _ | .submitCount _ | .cancelCount _
  | .postCount _ | .abandon _ => .isTrue trivial

/-! ### Stock and ledger -/

/-- What movements move of a material, but for postings. -/
def moved (id : ℕ) (movements : List StockMovement) : ℤ :=
  ((movements.filter fun m => m.rawMaterialId = id ∧ m.isOwn).map (·.quantity.scaled)).sum

theorem moved_append (id : ℕ) (l l' : List StockMovement) :
    moved id (l ++ l') = moved id l + moved id l' := by
  simp [moved]

/-- A movement moves its own material. -/
theorem moved_single {m : StockMovement} (h : m.isOwn = true) :
    moved m.rawMaterialId [m] = m.quantity.scaled := by
  simp [moved, h]

theorem moved_single_of_ne {id : ℕ} {m : StockMovement} (h : m.rawMaterialId ≠ id) :
    moved id [m] = 0 := by
  simp [moved, h]

theorem moved_of_postings {id : ℕ} {l : List StockMovement} (h : ∀ m ∈ l, m.isOwn = false) :
    moved id l = 0 := by
  have hnone : (l.filter fun m => m.rawMaterialId = id ∧ m.isOwn) = [] := by
    refine List.filter_eq_nil_iff.mpr fun m hm => ?_
    simp [h m hm]
  rw [moved, hnone]
  rfl

/-- The stocktakes are as they were, and the stock of some materials has moved with the ledger. -/
structure Carried (P : ℕ → Prop) (s t : InventoryDb) : Prop where
  next : s.next ≤ t.next
  planning : t.planning = s.planning
  counts : t.counts = s.counts
  posted : t.posted = s.posted
  postings : t.postings = s.postings
  stock : ∃ new, t.movements = s.movements ++ new ∧ ∀ id, P id → ∀ m ∈ s.materials, m.id = id →
    ∃ m' ∈ t.materials, m'.id = id ∧ m'.stockQty.scaled = m.stockQty.scaled + moved id new

variable {s t u : InventoryDb} {id : ℕ} {P : ℕ → Prop}

namespace Carried

/-- Materials and ledger are as they were. -/
theorem of_eq (hnext : s.next ≤ t.next) (hplanning : t.planning = s.planning)
    (hcounts : t.counts = s.counts) (hposted : t.posted = s.posted)
    (hpostings : t.postings = s.postings) (hmaterials : t.materials = s.materials)
    (hmovements : t.movements = s.movements) : Carried P s t := by
  refine ⟨hnext, hplanning, hcounts, hposted, hpostings, [], ?_, fun id _ m hm hid => ⟨m, ?_, hid, ?_⟩⟩
  · rw [hmovements, List.append_nil]
  · rw [hmaterials]
    exact hm
  · rw [moved_of_postings fun m hm => absurd hm List.not_mem_nil, add_zero]

theorem refl : Carried P s s := of_eq le_rfl rfl rfl rfl rfl rfl rfl

theorem trans (h : Carried P s t) (h' : Carried P t u) : Carried P s u := by
  obtain ⟨new, hnew, hstock⟩ := h.stock
  obtain ⟨new', hnew', hstock'⟩ := h'.stock
  refine ⟨h.next.trans h'.next, h'.planning.trans h.planning, h'.counts.trans h.counts,
    h'.posted.trans h.posted, h'.postings.trans h.postings, new ++ new', ?_,
    fun id hP m hm hid => ?_⟩
  · rw [hnew', hnew, List.append_assoc]
  · obtain ⟨m₁, hm₁, hid₁, hqty₁⟩ := hstock id hP m hm hid
    obtain ⟨m₂, hm₂, hid₂, hqty₂⟩ := hstock' id hP m₁ hm₁ hid₁
    refine ⟨m₂, hm₂, hid₂, ?_⟩
    rw [hqty₂, hqty₁, moved_append, add_assoc]

/-- A material is written with its stock as the ledger says. -/
theorem set {m n : RawMaterial} {l : List StockMovement} (hm : m ∈ s.materials)
    (hid : n.id = m.id) (hothers : ∀ id ≠ m.id, moved id l = 0)
    (hqty : P m.id → n.stockQty.scaled = m.stockQty.scaled + moved m.id l) :
    Carried P s { s.setMaterial n with movements := s.movements ++ l } := by
  refine ⟨le_rfl, rfl, rfl, rfl, rfl, l, rfl, fun id hP m₀ hm₀ hid₀ => ?_⟩
  subst hid₀
  by_cases h : m₀.id = m.id
  · obtain rfl := KeyedTable.eq_of_mem hm₀ hm h
    exact ⟨n, KeyedTable.mem_put.mpr (.inl rfl), hid, hqty hP⟩
  · refine ⟨m₀, KeyedTable.mem_put.mpr (.inr ⟨hm₀, fun h' => h (h'.trans hid)⟩), rfl, ?_⟩
    rw [hothers _ h, add_zero]

/-- A material is written that has the stock as before. -/
theorem edit {m n : RawMaterial} (hm : m ∈ s.materials) (hid : n.id = m.id)
    (hqty : n.stockQty = m.stockQty) : Carried P s (s.setMaterial n) := by
  have hnone : ∀ id, moved id [] = 0 := fun id =>
    moved_of_postings fun m hm => absurd hm List.not_mem_nil
  have h := set (P := P) (l := []) hm hid (fun id _ => hnone id) fun _ => by
    rw [hqty, hnone, add_zero]
  rwa [List.append_nil] at h

/-- A new material. -/
theorem create {m : RawMaterial} (hfresh : ∀ m₀ ∈ s.materials, m₀.id ≠ m.id) :
    Carried P s (s.setMaterial m) := by
  refine ⟨le_rfl, rfl, rfl, rfl, rfl, [], (List.append_nil _).symm, fun id hP m₀ hm₀ hid₀ => ?_⟩
  refine ⟨m₀, KeyedTable.mem_put.mpr (.inr ⟨hm₀, hfresh m₀ hm₀⟩), hid₀, ?_⟩
  rw [moved_of_postings fun m hm => absurd hm List.not_mem_nil, add_zero]

/-- Stock and ledger move by a quantity that both hold. -/
theorem move {type : MovementType} {quantity : Binary64} {unitCost : Option Binary64}
    {ref : MovementRef} (hown : StockMovement.isOwn ⟨id, type, 0, none, ref⟩ = true)
    (hquantity : P id → ∃ k : ℤ, |quantity.val * 10 ^ 3 - k| ≤ 2 / 5)
    (h : s.move id type quantity unitCost ref = .ok t) : Carried P s t := by
  obtain ⟨m, hm, rfl, stockQty, q, c, hstock, hq, rfl⟩ := move_eq_ok h
  have howned : StockMovement.isOwn ⟨m.id, type, q, c, ref⟩ = true := hown
  refine set (n := { m with stockQty := stockQty }) hm rfl
    (fun id hid => moved_single_of_ne (Ne.symm hid)) fun hP => ?_
  obtain ⟨k, hk⟩ := hquantity hP
  have hmoved := moved_single howned
  rw [hmoved, hstock, Decimal.roundHalfAway_add_of_near _ hk hq, Decimal.scaled_of_near hk hq]

/-- A receipt adds what its movement says. -/
theorem receipt {quantity unitCost : Binary64} {ref : MovementRef} {r : Receipt}
    (hown : StockMovement.isOwn ⟨id, .receipt, 0, none, ref⟩ = true)
    (hquantity : P id → ∃ k : ℤ, |quantity.val * 10 ^ 3 - k| ≤ 2 / 5)
    (h : s.applyReceipt id quantity unitCost ref = .ok (t, r)) : Carried P s t := by
  replace h := bind_eq_ok.mp h
  obtain ⟨m, hrequire, h⟩ := h
  obtain ⟨hm, rfl, -⟩ := requireMaterial_eq_ok hrequire
  obtain ⟨m', hreceive, h⟩ := bind_eq_ok.mp h
  obtain ⟨s₁, hrecord, h⟩ := bind_eq_ok.mp h
  obtain ⟨q, c, hq, rfl⟩ := record_eq_ok hrecord
  cases pure_eq_ok.mp h
  obtain ⟨stockQty, hadd, hrest⟩ := Option.bind_eq_some_iff.mp (orThrow_eq_ok.mp hreceive)
  obtain ⟨costPerUnit, -, hafter⟩ := Option.bind_eq_some_iff.mp hrest
  cases hafter
  have howned : StockMovement.isOwn ⟨m.id, .receipt, q, c, ref⟩ = true := hown
  have hset := set (P := P) (n := { m with
      stockQty := stockQty
      costPerUnit := costPerUnit }) (l := [⟨m.id, .receipt, q, c, ref⟩]) hm rfl
    (fun id hid => moved_single_of_ne (Ne.symm hid)) fun hP => by
      obtain ⟨k, hk⟩ := hquantity hP
      have hmoved := moved_single howned
      have hscaled := Decimal.scaled_of_near hk hq
      rw [hmoved, hscaled]
      exact Decimal.scaled_add_of_near
        (hscaled ▸ q.abs_scaled_lt.le.trans (by norm_num)) hk hadd
  exact ⟨hset.next, hset.planning, hset.counts, hset.posted, hset.postings, hset.stock⟩

end Carried

/-! ### Requests that are no stocktakes -/

/-- What a column holds is near what it holds. -/
theorem near_toNumber (q : Decimal 12 3) : ∃ k : ℤ, |(D q).val * 10 ^ 3 - k| ≤ 2 / 5 :=
  ⟨q.scaled, q.abs_toNumber_sub_le.trans (by norm_num)⟩

theorem near_neg {x : Binary64} (h : ∃ k : ℤ, |x.val * 10 ^ 3 - k| ≤ 2 / 5) :
    ∃ k : ℤ, |(-x).val * 10 ^ 3 - k| ≤ 2 / 5 := by
  obtain ⟨k, hk⟩ := h
  refine ⟨-k, ?_⟩
  rw [Binary64.val_neg, Int.cast_neg, neg_mul, sub_neg_eq_add, neg_add_eq_sub, abs_sub_comm]
  exact hk

theorem InventoryDb.Exact.near {quantity : Binary64} (h : s.Exact id quantity) :
    s.Counted id → ∃ k : ℤ, |quantity.val * 10 ^ 3 - k| ≤ 2 / 5 :=
  fun hcounted => ⟨_, h hcounted⟩

/-- Ids of materials are below the next one. -/
def Fresh (s : InventoryDb) : Prop := ∀ m ∈ s.materials, m.id < s.next

theorem Fresh.set {m : RawMaterial} (h : Fresh s) (hm : m.id < s.next) : Fresh (s.setMaterial m) := by
  intro m' hm'
  rcases KeyedTable.mem_put.mp hm' with rfl | ⟨hm', -⟩
  · exact hm
  · exact h m' hm'

theorem Received.fresh {r : Receipt} (hr : Received s r t) (h : Fresh s) : Fresh t := by
  obtain ⟨hbefore, hreceive, movement, rfl⟩ := hr
  obtain ⟨stockQty, -, hrest⟩ := Option.bind_eq_some_iff.mp hreceive
  obtain ⟨costPerUnit, -, hafter⟩ := Option.bind_eq_some_iff.mp hrest
  rw [← Option.some_inj.mp hafter]
  exact h.set (m := { r.before with
    stockQty := stockQty
    costPerUnit := costPerUnit }) (h r.before hbefore)

theorem Effect.fresh (heffect : Effect s t) (h : Fresh s) : Fresh t := by
  cases heffect with
  | create m later hid =>
    intro m' hm'
    rcases KeyedTable.mem_put.mp hm' with rfl | ⟨hm', -⟩
    · exact hid ▸ Nat.lt_succ_self _
    · exact (h m' hm').trans (Nat.lt_succ_self _)
  | edit m hm name unit =>
    have hset := h.set (m := { m with
      name := name
      unit := unit }) (h m hm)
    exact hset
  | delete m hm => exact h.set (m := { m with deleted := true }) (h m hm)
  | receipt r hr => exact hr.fresh h
  | move m hm stockQty => exact h.set (m := { m with stockQty := stockQty }) (h m hm)
  | batch b hb m hm hid stockQty costPerUnit =>
    have hset := h.set (m := { m with
      stockQty := stockQty
      costPerUnit := costPerUnit }) (h m hm)
    exact hset
  | order lines =>
    have hnext : s.next ≤ s.next + lines.length + 1 := by omega
    exact fun m hm => (h m hm).trans_le hnext
  | orderLines po hpo hlive lines => exact fun m hm => (h m hm).trans_le (Nat.le_add_right _ _)
  | deliver r receipt hr => exact hr.fresh h
  | count next hnext => exact fun m hm => (h m hm).trans_le hnext
  | _ => exact h

theorem fresh_of_effects (h : Effects s t) (hs : Fresh s) : Fresh t :=
  Machine.effects_keep (fun _ _ heffect => heffect.fresh) h hs

/-- A loop each of whose steps carries the stock. -/
theorem carried_of_foldlM {γ : Type} {f : InventoryDb → γ → Result InventoryDb} {l : List γ}
    (hstep : ∀ s, ∀ c ∈ l, ∀ t, f s c = .ok t → Carried P s t) (h : l.foldlM f s = .ok t) :
    Carried P s t :=
  foldlM_invariant (Carried P s) (fun _ c _ hs hc hf => hs.trans (hstep _ c hc _ hf)) h .refl

theorem carried_createMaterial {input : CreateMaterialInput} (hfresh : Fresh s)
    (h : s.createMaterial input = .ok t) : Carried P s t := by
  obtain ⟨stockQty, -, h⟩ := bind_eq_ok.mp h
  obtain ⟨costPerUnit, -, h⟩ := bind_eq_ok.mp h
  cases pure_eq_ok.mp h
  have hset := Carried.create (P := P)
    (m := ⟨s.next, input.name, input.unit, stockQty, costPerUnit, false⟩) fun m hm => (hfresh m hm).ne
  exact ⟨Nat.le_succ _, hset.planning, hset.counts, hset.posted, hset.postings, hset.stock⟩

theorem carried_updateMaterial {input : UpdateMaterialInput} (h : s.updateMaterial id input = .ok t) :
    Carried P s t := by
  obtain ⟨m, hm, h⟩ := bind_eq_ok.mp h
  obtain ⟨hm, -, -⟩ := requireMaterial_eq_ok hm
  cases pure_eq_ok.mp h
  have hset := Carried.edit (P := P) (n := { m with
    name := input.name.getD m.name
    unit := input.unit.getD m.unit }) hm rfl rfl
  exact ⟨hset.next, hset.planning, hset.counts, hset.posted, hset.postings, hset.stock⟩

theorem carried_deleteMaterial {usedBy : ℕ} (h : s.deleteMaterial id usedBy = .ok t) :
    Carried P s t := by
  obtain ⟨m, hm, h⟩ := bind_eq_ok.mp h
  obtain ⟨hm, -, -⟩ := requireMaterial_eq_ok hm
  obtain ⟨_, -, h⟩ := bind_eq_ok.mp h
  cases pure_eq_ok.mp h
  exact .edit hm rfl rfl

theorem carried_recordWastage {input : WastageInput}
    (hquantity : P id → ∃ k : ℤ, |input.quantity.val * 10 ^ 3 - k| ≤ 2 / 5)
    (h : s.recordWastage id input = .ok t) : Carried P s t := by
  obtain ⟨m, -, h⟩ := bind_eq_ok.mp h
  exact .move rfl (fun hP => near_neg (hquantity hP)) h

theorem carried_receiveIndent {items : List IndentItem} (hfresh : Fresh s)
    (h : s.receiveIndent items = .ok t) : Carried P s t := by
  have hkept : Carried P s t ∧ Fresh t := by
    refine foldlM_invariant (fun t => Carried P s t ∧ Fresh t)
      (fun s₁ item s₂ hs _ hmove => ?_) h ⟨.refl, hfresh⟩
    obtain ⟨hcarried, hfresh₁⟩ := hs
    refine ⟨?_, fresh_of_effects ((effects_satelliteMaterial item).tail (effect_move hmove)) hfresh₁⟩
    have hsatellite : Carried P s₁ (s₁.satelliteMaterial item).1 := by
      unfold InventoryDb.satelliteMaterial
      split
      · exact .refl
      · have hset := Carried.create (P := P)
          (m := ⟨s₁.next, item.materialName, item.unit, 0, item.unitCost, false⟩)
          fun m hm => (hfresh₁ m hm).ne
        exact ⟨Nat.le_succ _, hset.planning, hset.counts, hset.posted, hset.postings, hset.stock⟩
    exact (hcarried.trans hsatellite).trans
      (.move rfl (fun _ => near_toNumber item.quantity) hmove)
  exact hkept.1

theorem carried_receiveOrder {overReceiptPct : Binary64} {input : List ReceiveLineInput}
    (h : s.receiveOrder id overReceiptPct input = .ok t) : Carried P s t := by
  obtain ⟨po, -, -, -, receipts, s₁, status, -, hfold, rfl⟩ := receiveOrder_eq_ok h
  have hstart : Carried P s { s with next := s.next + 1 } :=
    .of_eq (Nat.le_succ _) rfl rfl rfl rfl rfl rfl
  have hlines := carried_of_foldlM (P := P) (fun s₁ r _ s₂ hline => ?_) hfold
  · have hall := hstart.trans hlines
    exact ⟨hall.next, hall.planning, hall.counts, hall.posted, hall.postings, hall.stock⟩
  · obtain ⟨⟨s', receipt⟩, hreceipt, hline⟩ := bind_eq_ok.mp hline
    obtain ⟨quantity, -, hline⟩ := bind_eq_ok.mp hline
    obtain ⟨rate, -, hline⟩ := bind_eq_ok.mp hline
    obtain ⟨stockQty, hstored, hline⟩ := bind_eq_ok.mp hline
    obtain ⟨unitCost, -, hline⟩ := bind_eq_ok.mp hline
    obtain ⟨receivedQty, -, hline⟩ := bind_eq_ok.mp hline
    cases pure_eq_ok.mp hline
    have hthousand : (1000 : Binary64).val = 10 ^ 3 := by
      rw [Binary64.val_ofNat_of_le (by norm_num)]
      norm_num
    have hnear := (Decimal.ofNumber_nearest hthousand (orThrow_eq_ok.mp hstored)).1
    have hset := Carried.receipt (P := P) rfl
      (fun _ => ⟨stockQty.scaled, hnear.trans (by norm_num)⟩) hreceipt
    exact ⟨hset.next, hset.planning, hset.counts, hset.posted, hset.postings, hset.stock⟩

theorem carried_storeBatch {b : Batch}
    (hcurrent : P b.rawMaterialId → (∀ m ∈ s.materials.rows, m.id = b.rawMaterialId →
      m.stockQty = b.stockQty) ∧ (∀ n ∈ b.needs, n.rawMaterialId ≠ b.rawMaterialId) ∧
      Decimal.Near 3 b.quantity)
    (hneeds : ∀ n ∈ b.needs, P n.rawMaterialId → Decimal.Near 3 n.need)
    (h : s.storeBatch b = .ok t) : Carried P s t := by
  obtain ⟨s₁, hfold, m, hm, hid, stockQty, q, costPerUnit, c, hnew, -, hq, rfl⟩ := storeBatch_eq_ok h
  have hout := carried_of_foldlM (P := P) (fun s₁ n hn s₂ hmove =>
    .move rfl (fun hP => near_neg ⟨_, hneeds n hn hP⟩) hmove) hfold
  refine hout.trans ?_
  have hset := Carried.set (P := P) (n := { m with
      stockQty := stockQty
      costPerUnit := costPerUnit }) (l := [⟨b.rawMaterialId, .productionIn, q, c, .none⟩]) hm rfl
    (fun id hne => moved_single_of_ne (hid ▸ Ne.symm hne)) fun hP => ?_
  · exact ⟨hset.next, hset.planning, hset.counts, hset.posted, hset.postings, hset.stock⟩
  · rw [hid] at hP
    obtain ⟨hstock, hothers, hquantity⟩ := hcurrent hP
    have hread : m.stockQty = b.stockQty := by
      have hkept : ∀ m ∈ s₁.materials, m.id = b.rawMaterialId → m ∈ s.materials := by
        refine foldlM_invariant (fun s₁ => ∀ m ∈ s₁.materials, m.id = b.rawMaterialId →
          m ∈ s.materials) (fun s₁ n s₂ hs hn hmove m hm hid => ?_) hfold fun m hm _ => hm
        obtain ⟨m₀, hm₀, hid₀, stockQty, q, c, -, -, rfl⟩ := move_eq_ok hmove
        rcases KeyedTable.mem_put.mp hm with rfl | ⟨hm, -⟩
        · exact absurd (hid₀.symm.trans hid) (hothers n hn)
        · exact hs m hm hid
      exact hstock m (hkept m hm hid) hid
    have hmoved : moved m.id [⟨b.rawMaterialId, .productionIn, q, c, .none⟩] = q.scaled := by
      rw [hid]
      exact moved_single rfl
    rw [hmoved, Decimal.scaled_of_near hquantity hq, hread]
    exact Decimal.scaled_add_of_near
      ((Decimal.scaled_of_near hquantity hq) ▸ q.abs_scaled_lt.le.trans (by norm_num)) hquantity hnew

/-! ### Counts and their lines -/

/-- What a line has frozen. -/
def StockCountLine.frozen (l : StockCountLine) : ℕ × Decimal 12 3 × ℕ :=
  (l.rawMaterialId, l.expectedQty, l.since)

/-- The count with other counted quantities, or another status: once posted, it stays so, and none is
opened again. -/
structure StockCount.Follows (c' c : StockCount) : Prop where
  id : c'.id = c.id
  isOpen : c'.isOpen = true → c.isOpen = true
  scope : c'.scope = c.scope
  category : c'.category = c.category
  lines : c'.lines.map (·.frozen) = c.lines.map (·.frozen)
  posted : c.status = .POSTED → c'.status = .POSTED

theorem StockCount.Follows.refl (c : StockCount) : c.Follows c := ⟨rfl, fun h => h, rfl, rfl, rfl, fun h => h⟩

theorem StockCount.Follows.trans {c c' c'' : StockCount} (h : c''.Follows c') (h' : c'.Follows c) :
    c''.Follows c :=
  ⟨h.id.trans h'.id, fun ho => h'.isOpen (h.isOpen ho), h.scope.trans h'.scope,
    h.category.trans h'.category, h.lines.trans h'.lines, fun hp => h.posted (h'.posted hp)⟩

/-- A line has frozen what a line of the other count has. -/
theorem StockCount.Follows.mem_lines {c c' : StockCount} (h : c'.Follows c) {l' : StockCountLine}
    (hl' : l' ∈ c'.lines) : ∃ l ∈ c.lines, l.frozen = l'.frozen := by
  have hmem := List.mem_map_of_mem (f := (·.frozen)) hl'
  rw [h.lines] at hmem
  obtain ⟨l, hl, hfrozen⟩ := List.mem_map.mp hmem
  exact ⟨l, hl, hfrozen⟩

theorem StockCount.Follows.ids {c c' : StockCount} (h : c'.Follows c) :
    c'.lines.map (·.rawMaterialId) = c.lines.map (·.rawMaterialId) := by
  have hids := congrArg (List.map Prod.fst) h.lines
  rwa [List.map_map, List.map_map] at hids

/-- The tables have the same counts, but for statuses and counted quantities; stock may have moved. -/
structure Sheets (s t : InventoryDb) : Prop where
  next : t.next = s.next
  planning : t.planning = s.planning
  posted : t.posted = s.posted
  postings : t.postings = s.postings
  counts : ∀ c' ∈ t.counts, ∃ c ∈ s.counts, c'.Follows c
  kept : ∀ c ∈ s.counts, ∃ c' ∈ t.counts, c'.Follows c

theorem Sheets.refl : Sheets s s :=
  ⟨rfl, rfl, rfl, rfl, fun c hc => ⟨c, hc, .refl c⟩, fun c hc => ⟨c, hc, .refl c⟩⟩

theorem Sheets.trans (h : Sheets s t) (h' : Sheets t u) : Sheets s u := by
  refine ⟨h'.next.trans h.next, h'.planning.trans h.planning, h'.posted.trans h.posted,
    h'.postings.trans h.postings, fun c'' hc'' => ?_, fun c hc => ?_⟩
  · obtain ⟨c', hc', hfollows'⟩ := h'.counts c'' hc''
    obtain ⟨c, hc, hfollows⟩ := h.counts c' hc'
    exact ⟨c, hc, hfollows'.trans hfollows⟩
  · obtain ⟨c', hc', hfollows⟩ := h.kept c hc
    obtain ⟨c'', hc'', hfollows'⟩ := h'.kept c' hc'
    exact ⟨c'', hc'', hfollows'.trans hfollows⟩

theorem sheets_move {type : MovementType} {quantity : Binary64} {unitCost : Option Binary64}
    {ref : MovementRef} (h : s.move id type quantity unitCost ref = .ok t) : Sheets s t := by
  obtain ⟨m, -, -, stockQty, q, c, -, -, rfl⟩ := move_eq_ok h
  exact ⟨rfl, rfl, rfl, rfl, fun c hc => ⟨c, hc, .refl c⟩, fun c hc => ⟨c, hc, .refl c⟩⟩

/-- A count that is posted is not open. -/
theorem not_isOpen_of_posted {c : StockCount} (h : c.status = .POSTED) : c.isOpen ≠ true := by
  rw [StockCount.isOpen, h]
  decide

/-- One count is written. -/
theorem sheets_modify {f : StockCount → StockCount} {hkey : ∀ c, (f c).id = c.id}
    (hf : ∀ c ∈ s.counts, c.id = id → (f c).Follows c) :
    Sheets s { s with counts := s.counts.modify (fun c => c.id = id) f hkey } := by
  have hfollows : ∀ c ∈ s.counts, (if decide (c.id = id) = true then f c else c).Follows c := by
    intro c hc
    split
    · exact hf c hc (of_decide_eq_true ‹_›)
    · exact .refl c
  refine ⟨rfl, rfl, rfl, rfl, fun c' hc' => ?_, fun c hc => ?_⟩
  · obtain ⟨c, hc, rfl⟩ := List.mem_map.mp (KeyedTable.mem_def.mp hc')
    exact ⟨c, hc, hfollows c hc⟩
  · exact ⟨_, KeyedTable.mem_def.mpr (List.mem_map_of_mem hc), hfollows c hc⟩

theorem sheets_setLine {rawMaterialId : ℕ} {counted variance : Option (Decimal 12 3)} :
    Sheets s (s.setLine id rawMaterialId counted variance) := by
  refine sheets_modify fun c _ _ => ⟨rfl, fun h => h, rfl, rfl, ?_, fun h => h⟩
  rw [List.map_map]
  refine List.map_congr_left fun l _ => ?_
  rw [Function.comp_apply]
  split
  · rfl
  · rfl

theorem sheets_setStatus {status : CountStatus} (h : ∀ c ∈ s.counts, c.id = id → c.isOpen = true) :
    Sheets s (s.setStatus id status) := by
  refine sheets_modify fun c hc hid => ⟨rfl, fun _ => h c hc hid, rfl, rfl, rfl, fun hposted => ?_⟩
  exact absurd (h c hc hid) (not_isOpen_of_posted hposted)

/-! ### Open counts -/

/-- The stock of the material is what was expected, and what has moved since. -/
def StockCountLine.Settled (s : InventoryDb) (l : StockCountLine) : Prop :=
  l.since ≤ s.movements.length ∧ ∃ m ∈ s.materials, m.id = l.rawMaterialId ∧
    m.stockQty.scaled = l.expectedQty.scaled + s.movedSince l.since l.rawMaterialId

theorem StockCountLine.Settled.of_frozen {l l' : StockCountLine} (h : l.Settled s)
    (hfrozen : l.frozen = l'.frozen) : l'.Settled s := by
  obtain ⟨hid, hrest⟩ := Prod.mk.inj hfrozen
  obtain ⟨hexpected, hsince⟩ := Prod.mk.inj hrest
  rw [StockCountLine.Settled, ← hid, ← hexpected, ← hsince]
  exact h

/-- What has moved since is what had moved, and the new. -/
theorem movedSince_append {since : ℕ} {new : List StockMovement} (hsince : since ≤ s.movements.length)
    (h : t.movements = s.movements ++ new) :
    t.movedSince since id = s.movedSince since id + moved id new := by
  have happend := moved_append id (s.movements.drop since) new
  rw [← List.drop_append_of_le_length hsince, ← h] at happend
  exact happend

/-- Open counts have no material in common, and their materials have moved with the ledger; counts are
posted once, and settle the stock. -/
structure Stocktaken (s : InventoryDb) : Prop where
  ids : ∀ c ∈ s.counts, c.id < s.next
  apart : ∀ c ∈ s.counts, ∀ c' ∈ s.counts, c.isOpen = true → c'.isOpen = true → c.id ≠ c'.id →
    c.scope = .CATEGORY ∧ c.category ≠ c'.category
  categories : ∀ c ∈ s.counts, c.isOpen = true → c.scope = .CATEGORY → ∀ l ∈ c.lines,
    s.categoryOf l.rawMaterialId = c.category
  nodup : ∀ c ∈ s.counts, (c.lines.map (·.rawMaterialId)).Nodup
  settled : ∀ c ∈ s.counts, c.isOpen = true → ∀ l ∈ c.lines, l.Settled s
  posted : s.posted.Nodup
  closed : ∀ id ∈ s.posted, ∃ c ∈ s.counts, c.id = id ∧ c.status = .POSTED
  postings : ∀ p ∈ s.postings, p.stockQty.scaled = p.countedQty.scaled + p.moved

/-- No material is on two open counts. -/
theorem Stocktaken.counted_once (h : Stocktaken s) {c c' : StockCount} (hc : c ∈ s.counts)
    (hc' : c' ∈ s.counts) (hopen : c.isOpen = true) (hopen' : c'.isOpen = true)
    (hne : c.id ≠ c'.id) : ∀ l ∈ c.lines, ∀ l' ∈ c'.lines, l.rawMaterialId ≠ l'.rawMaterialId := by
  intro l hl l' hl' heq
  obtain ⟨hscope, hcategories⟩ := h.apart c hc c' hc' hopen hopen' hne
  obtain ⟨hscope', -⟩ := h.apart c' hc' c hc hopen' hopen hne.symm
  refine hcategories ?_
  rw [← h.categories c hc hopen hscope l hl, ← h.categories c' hc' hopen' hscope' l' hl', heq]

/-- What moves the counted materials with the ledger disturbs no count. -/
theorem Stocktaken.carried (h : Stocktaken s) (hc : Carried s.Counted s t) : Stocktaken t := by
  have hcategoryOf : t.categoryOf = s.categoryOf := by
    unfold InventoryDb.categoryOf
    rw [hc.planning]
  obtain ⟨new, hnew, hstock⟩ := hc.stock
  refine ⟨?_, ?_, ?_, ?_, ?_, hc.posted ▸ h.posted, ?_, hc.postings ▸ h.postings⟩
  · rw [hc.counts]
    exact fun c hc' => (h.ids c hc').trans_le hc.next
  · rw [hc.counts]
    exact h.apart
  · rw [hc.counts, hcategoryOf]
    exact h.categories
  · rw [hc.counts]
    exact h.nodup
  · rw [hc.counts]
    intro c hcount hopen l hl
    obtain ⟨hsince, m, hm, hid, hqty⟩ := h.settled c hcount hopen l hl
    obtain ⟨m', hm', hid', hqty'⟩ := hstock l.rawMaterialId ⟨c, hcount, hopen, l, hl, rfl⟩ m hm hid
    refine ⟨?_, m', hm', hid', ?_⟩
    · rw [hnew, List.length_append]
      exact hsince.trans (Nat.le_add_right _ _)
    · rw [hqty', hqty, movedSince_append hsince hnew, add_assoc]
  · rw [hc.counts, hc.posted]
    exact h.closed

/-- Statuses and counted quantities disturb no count. -/
theorem Stocktaken.sheets (h : Stocktaken s) (hs : Sheets s t)
    (hsettled : ∀ c ∈ t.counts, c.isOpen = true → ∀ l ∈ c.lines, l.Settled t) : Stocktaken t := by
  have hcategoryOf : t.categoryOf = s.categoryOf := by
    unfold InventoryDb.categoryOf
    rw [hs.planning]
  refine ⟨fun c' hc' => ?_, fun c₁ hc₁ c₂ hc₂ hopen₁ hopen₂ hne => ?_,
    fun c' hc' hopen hscope l' hl' => ?_, fun c' hc' => ?_, hsettled, hs.posted ▸ h.posted,
    fun id hid => ?_, hs.postings ▸ h.postings⟩
  · obtain ⟨c, hc, hfollows⟩ := hs.counts c' hc'
    rw [hfollows.id, hs.next]
    exact h.ids c hc
  · obtain ⟨d₁, hd₁, hf₁⟩ := hs.counts c₁ hc₁
    obtain ⟨d₂, hd₂, hf₂⟩ := hs.counts c₂ hc₂
    rw [hf₁.scope, hf₁.category, hf₂.category]
    exact h.apart d₁ hd₁ d₂ hd₂ (hf₁.isOpen hopen₁) (hf₂.isOpen hopen₂)
      fun heq => hne (hf₁.id.trans (heq.trans hf₂.id.symm))
  · obtain ⟨c, hc, hfollows⟩ := hs.counts c' hc'
    obtain ⟨l, hl, hfrozen⟩ := hfollows.mem_lines hl'
    have hid : l.rawMaterialId = l'.rawMaterialId := congrArg Prod.fst hfrozen
    rw [hcategoryOf, ← hid, hfollows.category]
    exact h.categories c hc (hfollows.isOpen hopen) (hfollows.scope ▸ hscope) l hl
  · obtain ⟨c, hc, hfollows⟩ := hs.counts c' hc'
    rw [hfollows.ids]
    exact h.nodup c hc
  · rw [hs.posted] at hid
    obtain ⟨c, hc, rfl, hposted⟩ := h.closed id hid
    obtain ⟨c', hc', hfollows⟩ := hs.kept c hc
    exact ⟨c', hc', hfollows.id, hfollows.posted hposted⟩

/-- So it is where the stock has not moved at all. -/
theorem Stocktaken.unmoved (h : Stocktaken s) (hs : Sheets s t) (hmaterials : t.materials = s.materials)
    (hmovements : t.movements = s.movements) : Stocktaken t := by
  refine h.sheets hs fun c' hc' hopen l' hl' => ?_
  obtain ⟨c, hc, hfollows⟩ := hs.counts c' hc'
  obtain ⟨l, hl, hfrozen⟩ := hfollows.mem_lines hl'
  have hsettled := (h.settled c hc (hfollows.isOpen hopen) l hl).of_frozen hfrozen
  have hmoved : t.movedSince = s.movedSince := by
    unfold InventoryDb.movedSince
    rw [hmovements]
  rw [StockCountLine.Settled, hmaterials, hmovements, hmoved]
  exact hsettled

/-! ### Stocktakes -/

/-- A row of planning that is kept to the category of the open counts keeps their materials there. -/
theorem categoryOf_planRow {r : PlanningRow} {category : Option String}
    (hid : s.categoryOf id = category)
    (hrow : r.rawMaterialId = id → r.newCategory.getD category = category) :
    (s.planRow r).categoryOf id = category := by
  unfold InventoryDb.categoryOf InventoryDb.planRow
  by_cases h : r.rawMaterialId = id
  · subst h
    rw [KeyedTable.find?_put_self, hid]
    exact hrow rfl
  · have hother : id ≠ MaterialPlanning.rawMaterialId
        ⟨r.rawMaterialId, r.newCategory.getD (s.categoryOf r.rawMaterialId)⟩ := Ne.symm h
    rw [KeyedTable.find?_put_of_ne hother]
    exact hid

theorem Stocktaken.savePlanning (h : Stocktaken s) {rows : List PlanningRow}
    (hrows : s.Categorised rows) (hsave : s.savePlanning rows = .ok t) : Stocktaken t := by
  obtain ⟨_, -, hsave⟩ := bind_eq_ok.mp hsave
  cases pure_eq_ok.mp hsave
  have hkept : (∃ planning, rows.foldl .planRow s = { s with planning := planning }) ∧
      ∀ c ∈ s.counts, c.isOpen = true → c.scope = .CATEGORY → ∀ l ∈ c.lines,
        (rows.foldl .planRow s).categoryOf l.rawMaterialId = c.category := by
    refine List.foldlRecOn rows InventoryDb.planRow (motive := fun t =>
      (∃ planning, t = { s with planning := planning }) ∧
      ∀ c ∈ s.counts, c.isOpen = true → c.scope = .CATEGORY → ∀ l ∈ c.lines,
        t.categoryOf l.rawMaterialId = c.category) ⟨⟨s.planning, rfl⟩, h.categories⟩
      fun t ht r hr => ⟨?_, fun c hc hopen hscope l hl => ?_⟩
    · obtain ⟨⟨planning, rfl⟩, -⟩ := ht
      exact ⟨_, rfl⟩
    · exact categoryOf_planRow (ht.2 c hc hopen hscope l hl)
        fun hid => hrows r hr c hc hopen hscope ⟨l, hl, hid.symm⟩
  obtain ⟨⟨planning, hplanning⟩, hcategories⟩ := hkept
  rw [hplanning] at hcategories ⊢
  exact ⟨h.ids, h.apart, hcategories, h.nodup, h.settled, h.posted, h.closed, h.postings⟩

/-- No open count overlaps one of this category, or of everything. -/
theorem apart_of_clash {category : Option String} (h : s.clash category = none) {c : StockCount}
    (hc : c ∈ s.counts) (hopen : c.isOpen = true) :
    category ≠ none ∧ c.scope = .CATEGORY ∧ c.category ≠ category := by
  have hnone := List.find?_eq_none.mp h c hc
  rw [decide_eq_true_eq, not_and] at hnone
  obtain ⟨hcategory, hrest⟩ := not_or.mp (hnone hopen)
  obtain ⟨hscope, hdiffers⟩ := not_or.mp hrest
  refine ⟨hcategory, ?_, hdiffers⟩
  cases hc : c.scope with
  | FULL => exact absurd hc hscope
  | CATEGORY => rfl

theorem Stocktaken.createCount (h : Stocktaken s) {input : CreateCountInput}
    (hcreate : s.createCount input = .ok t) : Stocktaken t := by
  obtain ⟨_, hpicked, hcreate⟩ := bind_eq_ok.mp hcreate
  replace hpicked := ensure_eq_ok.mp hpicked
  cases hclash : s.clash (InventoryDb.countCategory input) with
  | some c =>
    rw [hclash] at hcreate
    cases hcreate
  | none =>
    rw [hclash] at hcreate
    obtain ⟨_, -, hcreate⟩ := bind_eq_ok.mp hcreate
    cases pure_eq_ok.mp hcreate
    have hfresh : ∀ c ∈ s.counts, c.id ≠ s.next := fun c hc => (h.ids c hc).ne
    have hscope : InventoryDb.countCategory input ≠ none → input.scope = .CATEGORY := by
      intro hcategory
      by_contra hfull
      exact hcategory (if_neg hfull)
    refine ⟨fun c hc => ?_, fun c hc c' hc' hopen hopen' hne => ?_,
      fun c hc hopen hcategory l hl => ?_, fun c hc => ?_, fun c hc hopen l hl => ?_, h.posted,
      fun id hid => ?_, h.postings⟩
    · rcases KeyedTable.mem_put.mp hc with rfl | ⟨hc, -⟩
      · exact Nat.lt_succ_self _
      · exact (h.ids c hc).trans (Nat.lt_succ_self _)
    · rcases KeyedTable.mem_put.mp hc with rfl | ⟨hc, -⟩
      · rcases KeyedTable.mem_put.mp hc' with rfl | ⟨hc', -⟩
        · exact absurd rfl hne
        · obtain ⟨hcategory, -, hdiffers⟩ := apart_of_clash hclash hc' hopen'
          exact ⟨hscope hcategory, hdiffers.symm⟩
      · rcases KeyedTable.mem_put.mp hc' with rfl | ⟨hc', -⟩
        · obtain ⟨-, hcategory, hdiffers⟩ := apart_of_clash hclash hc hopen
          exact ⟨hcategory, hdiffers⟩
        · exact h.apart c hc c' hc' hopen hopen' hne
    · rcases KeyedTable.mem_put.mp hc with rfl | ⟨hc, -⟩
      · obtain ⟨m, hm, rfl⟩ := List.mem_map.mp hl
        exact (of_decide_eq_true (List.mem_filter.mp hm).2).2.resolve_left (hpicked hcategory)
      · exact h.categories c hc hopen hcategory l hl
    · rcases KeyedTable.mem_put.mp hc with rfl | ⟨hc, -⟩
      · rw [List.map_map]
        exact s.materials.nodup_keys.sublist (List.filter_sublist.map _)
      · exact h.nodup c hc
    · rcases KeyedTable.mem_put.mp hc with rfl | ⟨hc, -⟩
      · obtain ⟨m, hm, rfl⟩ := List.mem_map.mp hl
        refine ⟨le_rfl, m, List.mem_of_mem_filter hm, rfl, ?_⟩
        have hnone : s.movedSince s.movements.length m.id = 0 := by
          rw [InventoryDb.movedSince, List.drop_length]
          rfl
        exact (add_zero _).symm.trans (congrArg (m.stockQty.scaled + ·) hnone.symm)
      · exact h.settled c hc hopen l hl
    · obtain ⟨c, hc, hid, hstatus⟩ := h.closed id hid
      exact ⟨c, KeyedTable.mem_put.mpr (.inr ⟨hc, hfresh c hc⟩), hid, hstatus⟩

/-- A count that is still being taken. -/
theorem openCount_eq_ok {c : StockCount} (h : s.openCount id = .ok c) :
    c ∈ s.counts ∧ c.id = id ∧ c.isOpen = true := by
  obtain ⟨c', hc, h⟩ := bind_eq_ok.mp h
  obtain ⟨hc, hid⟩ := KeyedTable.find?_eq_some.mp (orThrow_eq_ok.mp hc)
  obtain ⟨_, hopen, h⟩ := bind_eq_ok.mp h
  cases pure_eq_ok.mp h
  exact ⟨hc, hid, ensure_eq_ok.mp hopen⟩

theorem isOpen_of_openCount {c : StockCount} (h : s.openCount id = .ok c) :
    ∀ c' ∈ s.counts, c'.id = id → c'.isOpen = true := by
  obtain ⟨hc, hid, hopen⟩ := openCount_eq_ok h
  intro c' hc' hid'
  rw [KeyedTable.eq_of_mem hc' hc (hid'.trans hid.symm)]
  exact hopen

theorem Stocktaken.enterCounts (h : Stocktaken s) {entries : List CountEntry}
    (henter : s.enterCounts id entries = .ok t) : Stocktaken t := by
  obtain ⟨c, -, henter⟩ := bind_eq_ok.mp henter
  refine foldlM_invariant Stocktaken (fun s₁ e s₂ hs _ hline => ?_) henter h
  obtain ⟨line, -, hline⟩ := bind_eq_ok.mp hline
  cases hcounted : e.countedQty with
  | none =>
    rw [hcounted] at hline
    cases pure_eq_ok.mp hline
    exact hs.unmoved sheets_setLine rfl rfl
  | some q =>
    rw [hcounted] at hline
    obtain ⟨counted, -, hline⟩ := bind_eq_ok.mp hline
    obtain ⟨variance, -, hline⟩ := bind_eq_ok.mp hline
    cases pure_eq_ok.mp hline
    exact hs.unmoved sheets_setLine rfl rfl

theorem Stocktaken.submitCount (h : Stocktaken s) (hsubmit : s.submitCount id = .ok t) :
    Stocktaken t := by
  obtain ⟨c, hc, hsubmit⟩ := bind_eq_ok.mp hsubmit
  obtain ⟨hc, hid⟩ := KeyedTable.find?_eq_some.mp (orThrow_eq_ok.mp hc)
  obtain ⟨_, hcounting, hsubmit⟩ := bind_eq_ok.mp hsubmit
  obtain ⟨_, -, hsubmit⟩ := bind_eq_ok.mp hsubmit
  cases pure_eq_ok.mp hsubmit
  refine h.unmoved (sheets_setStatus fun c' hc' hid' => ?_) rfl rfl
  rw [KeyedTable.eq_of_mem hc' hc (hid'.trans hid.symm)]
  exact decide_eq_true (.inl (ensure_eq_ok.mp hcounting))

theorem Stocktaken.cancelCount (h : Stocktaken s) (hcancel : s.cancelCount id = .ok t) :
    Stocktaken t := by
  obtain ⟨c, hopen, hcancel⟩ := bind_eq_ok.mp hcancel
  cases pure_eq_ok.mp hcancel
  exact h.unmoved (sheets_setStatus (isOpen_of_openCount hopen)) rfl rfl

/-! ### Posting -/

/-- The variance of a line is stored as what was counted more than was expected. -/
theorem variance_stored {l : StockCountLine} {q v : Decimal 12 3}
    (h : Decimal.ofNumber (l.variance (D q)) = some v) :
    v.scaled = q.scaled - l.expectedQty.scaled ∧
      |(l.variance (D q)).val * 10 ^ 3 - v.scaled| ≤ 1 / 2 ^ 11 := by
  have hthousand : (1000 : Binary64).val = 10 ^ 3 := by
    rw [Binary64.val_ofNat_of_le (by norm_num)]
    norm_num
  obtain ⟨hnear, hstored⟩ := Decimal.ofNumber_nearest hthousand h
  have hdiff := Decimal.abs_toNumber_sub_toNumber_sub_le q l.expectedQty
  refine ⟨?_, hnear⟩
  have hlt : |(v.scaled : ℚ) - (q.scaled - l.expectedQty.scaled)| < 1 :=
    ((abs_sub_le _ _ _).trans (add_le_add hstored hdiff)).trans_lt (by norm_num)
  have hint : |v.scaled - (q.scaled - l.expectedQty.scaled)| < 1 := by exact_mod_cast hlt
  exact sub_eq_zero.mp (Int.abs_lt_one_iff.mp hint)

/-- Lines have been posted: the stock of their materials is what was counted and what has moved since,
and that of the others is as it was. -/
structure Posted (lines : List (StockCountLine × Decimal 12 3)) (s t : InventoryDb) : Prop where
  sheets : Sheets s t
  movements : ∃ new, t.movements = s.movements ++ new ∧ ∀ m ∈ new, m.isOwn = false
  stock : ∀ l ∈ lines, ∃ m ∈ t.materials, m.id = l.1.rawMaterialId ∧
    m.stockQty.scaled = l.2.scaled + s.movedSince l.1.since l.1.rawMaterialId
  others : ∀ m ∈ s.materials, (∀ l ∈ lines, m.id ≠ l.1.rawMaterialId) → m ∈ t.materials

/-- Postings are not counted among what has moved. -/
theorem Posted.movedSince {lines : List (StockCountLine × Decimal 12 3)} (h : Posted lines s t)
    {since : ℕ} (hsince : since ≤ s.movements.length) :
    t.movedSince since id = s.movedSince since id := by
  obtain ⟨new, hnew, hpostings⟩ := h.movements
  rw [movedSince_append hsince hnew, moved_of_postings hpostings, add_zero]

/-- A line of another material is settled as before. -/
theorem Posted.settled {lines : List (StockCountLine × Decimal 12 3)} (h : Posted lines s t)
    {l : StockCountLine} (hl : l.Settled s) (hne : ∀ l' ∈ lines, l.rawMaterialId ≠ l'.1.rawMaterialId) :
    l.Settled t := by
  obtain ⟨hsince, m, hm, hid, hqty⟩ := hl
  obtain ⟨new, hnew, -⟩ := h.movements
  refine ⟨?_, m, h.others m hm fun l' hl' => hid ▸ hne l' hl', hid, ?_⟩
  · rw [hnew, List.length_append]
    exact hsince.trans (Nat.le_add_right _ _)
  · rw [h.movedSince hsince]
    exact hqty

theorem posted_postLine {l : StockCountLine} {q : Decimal 12 3} (hl : l.Settled s)
    (h : s.postLine id l q = .ok t) : Posted [(l, q)] s t := by
  obtain ⟨hsince, m, hm, hid, hqty⟩ := hl
  rcases postLine_eq_ok h with ⟨hzero, rfl⟩ | ⟨hnone, -⟩ | ⟨unitCost, s₁, varianceQty, hmove, rfl⟩
  · have hstored : Decimal.ofNumber (l.variance (D q)) = some (0 : Decimal 12 3) := by
      rw [hzero]
      decide +kernel
    have hcounted : (0 : ℤ) = q.scaled - l.expectedQty.scaled := (variance_stored hstored).1
    refine ⟨sheets_setLine, ⟨[], (List.append_nil _).symm, fun m hm => absurd hm List.not_mem_nil⟩,
      fun l' hl' => ?_, fun m hm _ => hm⟩
    obtain rfl := List.mem_singleton.mp hl'
    refine ⟨m, hm, hid, hqty.trans ?_⟩
    rw [sub_eq_zero.mp hcounted.symm]
  · exact absurd hid (hnone m hm)
  · have hsheets := sheets_move hmove
    obtain ⟨m', hm', hid', stockQty, v, c, hstock, hv, rfl⟩ := move_eq_ok hmove
    obtain rfl := KeyedTable.eq_of_mem hm' hm (hid'.trans hid.symm)
    obtain ⟨hvariance, hnear⟩ := variance_stored hv
    refine ⟨hsheets.trans sheets_setLine, ⟨_, rfl, fun m hm => ?_⟩, fun l' hl' => ?_,
      fun m hm hne => ?_⟩
    · obtain rfl := List.mem_singleton.mp hm
      rfl
    · obtain rfl := List.mem_singleton.mp hl'
      refine ⟨_, KeyedTable.mem_put.mpr (.inl rfl), hid, hstock.trans ?_⟩
      rw [Decimal.roundHalfAway_add_of_near _ (hnear.trans (by norm_num)) hv, hvariance, hqty]
      change _ = q.scaled + s.movedSince l.since l.rawMaterialId
      ring
    · refine KeyedTable.mem_put.mpr (.inr ⟨hm, fun h => ?_⟩)
      exact hne _ (List.mem_singleton_self _) (h.trans hid)

/-- Lines of different materials are posted one after the other. -/
theorem posted_of_foldlM {lines : List (StockCountLine × Decimal 12 3)}
    (hnodup : (lines.map (·.1.rawMaterialId)).Nodup) (hsettled : ∀ l ∈ lines, l.1.Settled s)
    (h : lines.foldlM (fun db l => db.postLine id l.1 l.2) s = .ok t) : Posted lines s t := by
  induction lines generalizing s with
  | nil =>
    cases h
    exact ⟨.refl, ⟨[], (List.append_nil _).symm, fun m hm => absurd hm List.not_mem_nil⟩,
      fun l hl => absurd hl List.not_mem_nil, fun m hm _ => hm⟩
  | cons l lines ih =>
    rw [List.foldlM_cons] at h
    obtain ⟨s₁, hfirst, hrest⟩ := bind_eq_ok.mp h
    rw [List.map_cons, List.nodup_cons] at hnodup
    have hne : ∀ l' ∈ lines, l'.1.rawMaterialId ≠ l.1.rawMaterialId := fun l' hl' heq =>
      hnodup.1 (List.mem_map.mpr ⟨l', hl', heq⟩)
    have hposted := posted_postLine (hsettled l List.mem_cons_self) hfirst
    have hlater := ih hnodup.2 (fun l' hl' => hposted.settled (hsettled l' (List.mem_cons_of_mem _ hl'))
      fun l'' hl'' => List.mem_singleton.mp hl'' ▸ hne l' hl') hrest
    refine ⟨hposted.sheets.trans hlater.sheets, ?_, fun l' hl' => ?_, fun m hm hothers => ?_⟩
    · obtain ⟨new, hnew, hown⟩ := hposted.movements
      obtain ⟨new', hnew', hown'⟩ := hlater.movements
      refine ⟨new ++ new', by rw [hnew', hnew, List.append_assoc], fun m hm => ?_⟩
      rcases List.mem_append.mp hm with hm | hm
      · exact hown m hm
      · exact hown' m hm
    · rcases List.mem_cons.mp hl' with rfl | hl'
      · obtain ⟨m, hm, hid, hqty⟩ := hposted.stock _ (List.mem_singleton_self _)
        exact ⟨m, hlater.others m hm fun l'' hl'' => hid ▸ (hne l'' hl'').symm, hid, hqty⟩
      · obtain ⟨m, hm, hid, hqty⟩ := hlater.stock l' hl'
        refine ⟨m, hm, hid, hqty.trans ?_⟩
        rw [hposted.movedSince (hsettled l' (List.mem_cons_of_mem _ hl')).1]
    · exact hlater.others m (hposted.others m hm fun l' hl' =>
        List.mem_singleton.mp hl' ▸ hothers l List.mem_cons_self)
        fun l' hl' => hothers l' (List.mem_cons_of_mem _ hl')

theorem counted_sublist (lines : List StockCountLine) :
    ((lines.filterMap fun l => l.countedQty.map fun q => (l, q)).map Prod.fst).Sublist lines := by
  induction lines with
  | nil => exact .slnil
  | cons l lines ih =>
    cases hcounted : l.countedQty with
    | none =>
      rw [List.filterMap_cons_none (by rw [hcounted]; rfl)]
      exact ih.cons l
    | some q =>
      rw [List.filterMap_cons_some (by rw [hcounted]; rfl), List.map_cons]
      exact ih.cons_cons l

/-- What was counted are lines of the count, of different materials if its lines are. -/
theorem mem_counted {c : StockCount} {l : StockCountLine × Decimal 12 3} (h : l ∈ c.counted) :
    l.1 ∈ c.lines :=
  (counted_sublist c.lines).mem (List.mem_map_of_mem (List.mem_mergeSort.mp h))

theorem nodup_counted {c : StockCount} (h : (c.lines.map (·.rawMaterialId)).Nodup) :
    (c.counted.map (·.1.rawMaterialId)).Nodup := by
  refine ((List.mergeSort_perm _ _).map _).nodup_iff.mpr ?_
  have hsub := ((counted_sublist c.lines).map (·.rawMaterialId)).nodup h
  rwa [List.map_map] at hsub

theorem sheets_post : Sheets s (s.setStatus id .POSTED) := by
  refine sheets_modify fun c _ _ => ⟨rfl, fun hopen => ?_, rfl, rfl, rfl, fun _ => rfl⟩
  exact absurd hopen (not_isOpen_of_posted rfl)

/-- Posting a count settles the stock of what was counted. -/
theorem Stocktaken.postCount (h : Stocktaken s) (hpost : s.postCount id = .ok t) : Stocktaken t := by
  obtain ⟨c, hcount, hpost⟩ := bind_eq_ok.mp hpost
  obtain ⟨hc, rfl, hopen⟩ := openCount_eq_ok hcount
  obtain ⟨_, -, hpost⟩ := bind_eq_ok.mp hpost
  obtain ⟨s₁, hlines, hpost⟩ := bind_eq_ok.mp hpost
  cases pure_eq_ok.mp hpost
  have hsettled : ∀ l ∈ c.counted, l.1.Settled s := fun l hl => h.settled c hc hopen l.1 (mem_counted hl)
  have hposted := posted_of_foldlM (nodup_counted (h.nodup c hc)) hsettled hlines
  have hsheets : Sheets s (s₁.setStatus c.id .POSTED) := hposted.sheets.trans sheets_post
  have hstocktaken : Stocktaken (s₁.setStatus c.id .POSTED) := by
    refine h.sheets hsheets fun c' hc' hopen' l' hl' => ?_
    have hother : c'.id ≠ c.id := by
      intro hid
      obtain ⟨c₁, hc₁, rfl⟩ := List.mem_map.mp (KeyedTable.mem_def.mp hc')
      by_cases hid₁ : c₁.id = c.id
      · rw [if_pos (decide_eq_true hid₁)] at hopen'
        exact not_isOpen_of_posted rfl hopen'
      · rw [if_neg fun h => hid₁ (of_decide_eq_true h)] at hid
        exact hid₁ hid
    obtain ⟨c₀, hc₀, hfollows⟩ := hsheets.counts c' hc'
    obtain ⟨l, hl, hfrozen⟩ := hfollows.mem_lines hl'
    have hopen₀ := hfollows.isOpen hopen'
    refine ((hposted.settled (h.settled c₀ hc₀ hopen₀ l hl) fun p hp => ?_).of_frozen hfrozen :)
    exact h.counted_once hc₀ hc hopen₀ hopen (hfollows.id ▸ hother) l hl p.1 (mem_counted hp)
  have hnew : c.id ∉ s.posted := by
    intro hid
    obtain ⟨c', hc', hid', hstatus⟩ := h.closed c.id hid
    obtain rfl := KeyedTable.eq_of_mem hc' hc hid'
    exact not_isOpen_of_posted hstatus hopen
  refine ⟨hstocktaken.ids, hstocktaken.apart, hstocktaken.categories, hstocktaken.nodup,
    hstocktaken.settled, ?_, fun id hid => ?_, fun p hp => ?_⟩
  · have hlog : s₁.posted = s.posted := hposted.sheets.posted
    refine hlog.symm ▸ List.Nodup.append h.posted (List.nodup_singleton _) fun x hx hx' => ?_
    exact hnew (List.mem_singleton.mp hx' ▸ hx)
  · rcases List.mem_append.mp hid with hid | hid
    · exact hstocktaken.closed id hid
    · obtain rfl := List.mem_singleton.mp hid
      obtain ⟨c', hc', hfollows⟩ := hposted.sheets.kept c hc
      refine ⟨_, KeyedTable.mem_def.mpr (List.mem_map_of_mem hc'), ?_⟩
      rw [if_pos (decide_eq_true hfollows.id)]
      exact ⟨hfollows.id, rfl⟩
  · rcases List.mem_append.mp hp with hp | hp
    · exact hstocktaken.postings p hp
    · obtain ⟨l, hl, hposting⟩ := List.mem_filterMap.mp hp
      obtain ⟨m, hm, rfl⟩ := Option.map_eq_some_iff.mp hposting
      obtain ⟨hm, hid⟩ := KeyedTable.find?_eq_some.mp hm
      obtain ⟨m', hm', hid', hqty⟩ := hposted.stock l hl
      obtain rfl := KeyedTable.eq_of_mem hm' hm (hid'.trans hid.symm)
      refine hqty.trans ?_
      rw [hposted.movedSince (hsettled l hl).1]

/-! ### All requests -/

theorem near_of_exact {consumption : List (ℕ × Binary64)} (h : ∀ c ∈ consumption, s.Exact c.1 c.2)
    {c : ℕ × Binary64} (hc : c ∈ consumption) :
    s.Counted c.1 → ∃ k : ℤ, |(-c.2).val * 10 ^ 3 - k| ≤ 2 / 5 :=
  fun hcounted => near_neg ((h c hc).near hcounted)

theorem carried_punchItems {consumption : List (ℕ × Binary64)}
    (hexact : ∀ c ∈ consumption, s.Exact c.1 c.2) (h : s.punchItems consumption = .ok t) :
    Carried s.Counted s t :=
  carried_of_foldlM (fun _ _ hc _ hmove => .move rfl (near_of_exact hexact hc) hmove) h

theorem carried_depleteSynced {consumption : List (ℕ × Binary64)}
    (hexact : ∀ c ∈ consumption, s.Exact c.1 c.2) (h : s.depleteSynced consumption = .ok t) :
    Carried s.Counted s t := by
  refine carried_of_foldlM (fun s' c hc t' hstep => ?_) h
  split at hstep
  · exact .move rfl (near_of_exact hexact hc) hstep
  · cases pure_eq_ok.mp hstep
    exact .refl

theorem carried_dispatch {items : List IndentItem} (h : s.dispatch items = .ok t) :
    Carried P s t := by
  refine carried_of_foldlM (fun s' item _ t' hmove => ?_) h
  have hnear := near_neg (near_toNumber item.quantity)
  exact .move rfl (fun _ => hnear) hmove

theorem carried_produceBatch {prepRecipe : List PrepIngredient} {quantity : Binary64}
    (h : s.produceBatch id prepRecipe quantity = .ok t) : Carried P s t := by
  obtain ⟨m, -, h⟩ := bind_eq_ok.mp h
  obtain ⟨_, -, h⟩ := bind_eq_ok.mp h
  obtain ⟨needs, -, h⟩ := bind_eq_ok.mp h
  cases pure_eq_ok.mp h
  exact .of_eq le_rfl rfl rfl rfl rfl rfl rfl

theorem carried_actOnOrder {action : PoAction} (h : s.actOnOrder id action = .ok t) :
    Carried P s t := by
  obtain ⟨po, -, h⟩ := bind_eq_ok.mp h
  obtain ⟨status, -, h⟩ := bind_eq_ok.mp h
  cases pure_eq_ok.mp h
  exact .of_eq le_rfl rfl rfl rfl rfl rfl rfl

/-- What is left to write carries the stock, if it disturbs no count. -/
theorem carried_finish {v : Unfinished} (hv : v.Undisturbing s)
    (h : s.finish v = .ok t) : Carried s.Counted s t := by
  cases v with
  | opening rawMaterialId quantity unitCost =>
    obtain ⟨q, c, -, rfl⟩ := record_eq_ok h
    refine ⟨le_rfl, rfl, rfl, rfl, rfl, _, rfl, fun id hcounted m hm hid => ⟨m, hm, hid, ?_⟩⟩
    have hne : rawMaterialId ≠ id := fun heq => hv (heq ▸ hcounted)
    rw [moved_single_of_ne hne, add_zero]
  | batch b => exact carried_storeBatch hv.1 hv.2 h
  | order lines =>
    cases pure_eq_ok.mp h
    have hnext : s.next ≤ s.next + lines.length + 1 := by omega
    exact .of_eq hnext rfl rfl rfl rfl rfl rfl
  | orderLines id lines =>
    obtain ⟨po, -, h⟩ := bind_eq_ok.mp h
    obtain ⟨_, -, h⟩ := bind_eq_ok.mp h
    cases pure_eq_ok.mp h
    exact .of_eq (Nat.le_add_right _ _) rfl rfl rfl rfl rfl rfl

theorem carried_drop (i : ℕ) : Carried P s (s.drop i) := .of_eq le_rfl rfl rfl rfl rfl rfl rfl

/-- A request that disturbs no open count leaves stocktakes as they are to be. -/
theorem Stocktaken.perform (h : Stocktaken s) {a : InventoryAction} (ha : a.Undisturbing s)
    (hfresh : Fresh s) (hperform : s.perform a = .ok t) : Stocktaken t := by
  cases a with
  | createMaterial input => exact h.carried (carried_createMaterial hfresh hperform)
  | updateMaterial id input => exact h.carried (carried_updateMaterial hperform)
  | deleteMaterial id usedBy => exact h.carried (carried_deleteMaterial hperform)
  | receiveStock id input =>
    obtain ⟨⟨t, r⟩, hreceipt, rfl⟩ := map_eq_ok.mp hperform
    exact h.carried (.receipt rfl ha.near hreceipt)
  | recordWastage id input => exact h.carried (carried_recordWastage ha.near hperform)
  | punchItems consumption => exact h.carried (carried_punchItems ha hperform)
  | depleteSynced consumption => exact h.carried (carried_depleteSynced ha hperform)
  | dispatch items => exact h.carried (carried_dispatch hperform)
  | receiveIndent items => exact h.carried (carried_receiveIndent hfresh hperform)
  | produceBatch id prepRecipe quantity hquantity => exact h.carried (carried_produceBatch hperform)
  | createOrder input | updateOrder id input =>
    obtain ⟨lines, -, hperform⟩ := bind_eq_ok.mp hperform
    cases pure_eq_ok.mp hperform
    exact h.carried (.of_eq le_rfl rfl rfl rfl rfl rfl rfl)
  | actOnOrder id action => exact h.carried (carried_actOnOrder hperform)
  | receiveOrder id overReceiptPct input => exact h.carried (carried_receiveOrder hperform)
  | savePlanning rows => exact h.savePlanning ha hperform
  | createCount input => exact h.createCount hperform
  | enterCounts id entries => exact h.enterCounts hperform
  | submitCount id => exact h.submitCount hperform
  | cancelCount id => exact h.cancelCount hperform
  | postCount id => exact h.postCount hperform
  | resume i =>
    obtain rfl | ⟨v, s₁, hv, hfinish, rfl⟩ := perform_resume_eq_ok hperform
    · exact h
    · exact h.carried ((carried_finish (ha v hv) hfinish).trans (carried_drop i))
  | abandon i =>
    cases pure_eq_ok.mp hperform
    exact h.carried (carried_drop i)

theorem Stocktaken.step (h : Stocktaken s) {a : InventoryAction} (ha : a.Undisturbing s)
    (hfresh : Fresh s) : Stocktaken (s.step a) := by
  unfold InventoryDb.step
  split
  · rename_i hperform
    exact h.perform ha hfresh hperform
  · exact h.carried (carried_drop _)
  · exact h

/-- Whatever is counted, posted, cancelled, moved and put into other categories, in whatever order:
while nothing disturbs an open count, no material is on two of them, each is posted at most once, and
leaves of every material what was counted and what has moved since the freeze. -/
theorem stock_settled (s : InventoryDb)
    (h : inventory.Reach (fun s a => a.Undisturbing s) s) :
    (∀ c ∈ s.counts, ∀ c' ∈ s.counts, c.isOpen = true → c'.isOpen = true → c.id ≠ c'.id →
      ∀ l ∈ c.lines, ∀ l' ∈ c'.lines, l.rawMaterialId ≠ l'.rawMaterialId) ∧
    s.posted.Nodup ∧ ∀ p ∈ s.postings, p.stockQty.scaled = p.countedQty.scaled + p.moved := by
  have hstocktaken : Stocktaken s := by
    refine Machine.invariant (fun s hs => ?_) (fun s a hs ih ha => ?_) h
    · obtain rfl : s = .empty := hs
      have hnone : ∀ c, c ∉ (InventoryDb.empty).counts := KeyedTable.notMem_empty
      exact ⟨fun c hc => absurd hc (hnone c), fun c hc => absurd hc (hnone c),
        fun c hc => absurd hc (hnone c), fun c hc => absurd hc (hnone c),
        fun c hc => absurd hc (hnone c), List.nodup_nil, fun id hid => absurd hid List.not_mem_nil,
        fun p hp => absurd hp List.not_mem_nil⟩
    · have hfresh : Fresh s := inventory_invariant (I := Fresh)
        (fun m hm => absurd hm (KeyedTable.notMem_empty m)) (fun _ _ heffect => heffect.fresh)
        hs.reachable
      exact ih.step ha hfresh
  exact ⟨fun c hc c' hc' hopen hopen' hne => hstocktaken.counted_once hc hc' hopen hopen' hne,
    hstocktaken.posted, hstocktaken.postings⟩

/-! ### Flour is counted -/

theorem nine_nonneg : ∀ q ∈ some (9 : Binary64), 0 ≤ q := by
  intro q hq
  cases hq
  decide +kernel

theorem ten_kilogrammes_nonneg : (0 : Binary64) ≤ 10 := by decide +kernel

def tenOfFlour : CreateMaterialInput :=
  ⟨"Flour", .KG, 10, 10, ten_kilogrammes_nonneg, ten_kilogrammes_nonneg⟩

/-- Nine kilogrammes of flour are counted. -/
def nineOfFlour : CountEntry := ⟨0, some 9, nine_nonneg⟩

/-- Nine of ten kilogrammes are counted, two are sold, and the count is posted. -/
def countRun : List InventoryAction :=
  [.createMaterial tenOfFlour, .resume 0, .createCount ⟨.FULL, none⟩, .enterCounts 1 [nineOfFlour],
    .punchItems [(0, 2)], .postCount 1]

theorem stock_settled_countRun :
    (inventory.run .empty countRun).postings.map (·.stockQty.scaled) = [7000] ∧
    (∀ c ∈ (inventory.run .empty countRun).counts, ∀ c' ∈ (inventory.run .empty countRun).counts,
      c.isOpen = true → c'.isOpen = true → c.id ≠ c'.id →
      ∀ l ∈ c.lines, ∀ l' ∈ c'.lines, l.rawMaterialId ≠ l'.rawMaterialId) ∧
    (inventory.run .empty countRun).posted.Nodup ∧
    ∀ p ∈ (inventory.run .empty countRun).postings,
      p.stockQty.scaled = p.countedQty.scaled + p.moved :=
  ⟨by decide +kernel, stock_settled _
    (Machine.reach_run countRun (.init rfl) (by decide +kernel))⟩

/-- Flour is on a count of its category when it is put into another, which is counted as well. -/
def recategorisedRun : List InventoryAction :=
  [.createMaterial tenOfFlour, .resume 0, .savePlanning [⟨0, some (some "Dry goods")⟩],
    .createCount ⟨.CATEGORY, some "Dry goods"⟩, .savePlanning [⟨0, some (some "Bakery")⟩],
    .createCount ⟨.CATEGORY, some "Bakery"⟩, .enterCounts 1 [nineOfFlour],
    .enterCounts 2 [nineOfFlour], .postCount 1, .postCount 2]

/-- The missing kilogramme is taken off the stock twice. -/
theorem not_stock_settled : ¬∀ s : InventoryDb, inventory.Reachable s →
    (∀ c ∈ s.counts, ∀ c' ∈ s.counts, c.isOpen = true → c'.isOpen = true → c.id ≠ c'.id →
      ∀ l ∈ c.lines, ∀ l' ∈ c'.lines, l.rawMaterialId ≠ l'.rawMaterialId) ∧
    s.posted.Nodup ∧ ∀ p ∈ s.postings, p.stockQty.scaled = p.countedQty.scaled + p.moved := by
  intro h
  have hsettled := (h _ (Machine.reachable_run recategorisedRun (.init rfl))).2.2
  have htwice : ∃ p ∈ (inventory.run .empty recategorisedRun).postings,
      p.stockQty.scaled ≠ p.countedQty.scaled + p.moved := by
    decide +kernel
  obtain ⟨p, hp, hne⟩ := htwice
  exact hne (hsettled p hp)

end StelloKitchens.Inventory
