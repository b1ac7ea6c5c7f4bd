import StelloKitchens.Cloud.Kitchen

/-!
# The lines of a stored sale

A sale is stored as its items, then its combos, each combo a parent line followed by its
components. A kitchen update names a line by its kind and its place in the order, and sets exactly
the stored lines of that place.

## Main definitions

* `Cloud.OrderItem.place` — the line of the order that a stored line belongs to.
* `SaleRows` — the stored lines of an order.

## Main results

* `saleRows_of_saleLines` — what the ingest stores.
* `SaleRows.mem_updatedIds` — an update sets the lines of the place it names.
-/

namespace StelloKitchens

open Checked

/-- The status of a line of an order. -/
def EdgeOrderInput.lineStatus (order : EdgeOrderInput) : LineKind × ℕ → Option PrepStatus
  | (.item, n) => order.items[n]?.map (·.prepStatus)
  | (.combo, n) => order.combos[n]?.map (·.prepStatus)

/-- The line of an order that an update names. -/
def KotStatusLine.place (s : KotStatusLine) : LineKind × ℕ := (s.kind, s.lineIndex)

/-- What the kitchen sees of a stored line. -/
structure KitchenRole where
  kot : Option ℕ
  isCombo : Bool
  isComponent : Bool
  group : Option (ℕ × ℕ)
  prepStatus : PrepStatus

namespace Cloud.OrderItem

/-- The line of the order that a stored line belongs to. -/
def place (i : OrderItem) : LineKind × ℕ :=
  match i.comboGroupId with
  | none => (.item, i.lineNo)
  | some g => (.combo, g.2)

def role (i : OrderItem) : KitchenRole :=
  ⟨i.kot, i.comboId.isSome, i.isComboComponent, i.comboGroupId, i.prepStatus⟩

end Cloud.OrderItem

open CloudDb Cloud.OrderItem

/-! ### The roles of the lines -/

/-- The role of an item line. -/
def itemRole (line : EdgeOrderLineInput) : KitchenRole := ⟨some 0, false, false, none, line.prepStatus⟩

/-- The role of the parent line of a combo. -/
def parentRole (orderId : ℕ) (line : EdgeComboLineInput × ℕ) : KitchenRole :=
  ⟨none, true, false, some (orderId, line.2), line.1.prepStatus⟩

/-- The role of a component line of a combo. -/
def componentRole (orderId : ℕ) (line : EdgeComboLineInput × ℕ) : KitchenRole :=
  ⟨some 0, true, true, some (orderId, line.2), line.1.prepStatus⟩

/-- The items that a combo line is made of. -/
def componentItems (r : Reads) (line : EdgeComboLineInput) : List Cloud.Item :=
  (r.combo line.comboId).elim [] fun combo =>
    combo.slots.filterMap fun slot => (truthy (chosenOption line slot).1).bind r.item

/-- The roles of the lines of a combo with this many components. -/
def comboRoles (orderId : ℕ) (components : EdgeComboLineInput → ℕ)
    (line : EdgeComboLineInput × ℕ) : List KitchenRole :=
  parentRole orderId line :: List.replicate (components line.1) (componentRole orderId line)

/-- The rows are numbered as they come. -/
def Numbered (orderId : ℕ) (rows : List Cloud.OrderItem) : Prop :=
  rows.map Cloud.OrderItem.id = (List.range rows.length).map (Prod.mk orderId)

/-- The stored lines of an order. -/
structure SaleRows (order : EdgeOrderInput) (orderId : ℕ) (components : EdgeComboLineInput → ℕ)
    (rows : List Cloud.OrderItem) : Prop where
  numbered : Numbered orderId rows
  roles : rows.map role =
    order.items.map itemRole ++ order.combos.zipIdx.flatMap (comboRoles orderId components)

/-! ### What the ingest stores -/

/-- More rows, with these roles. -/
structure RowsAdded (orderId : ℕ) (roles : List KitchenRole) (rows rows' : List Cloud.OrderItem) :
    Prop where
  numbered : Numbered orderId rows → Numbered orderId rows'
  roles : rows'.map role = rows.map role ++ roles

namespace RowsAdded

variable {orderId : ℕ} {roles roles' : List KitchenRole} {rows rows' rows'' : List Cloud.OrderItem}

theorem nil : RowsAdded orderId [] rows rows := ⟨id, (List.append_nil _).symm⟩

theorem append (h : RowsAdded orderId roles rows rows')
    (h' : RowsAdded orderId roles' rows' rows'') :
    RowsAdded orderId (roles ++ roles') rows rows'' :=
  ⟨fun hn => h'.numbered (h.numbered hn), by rw [h'.roles, h.roles, List.append_assoc]⟩

theorem single {row : Cloud.OrderItem} {role' : KitchenRole}
    (hid : row.id = (orderId, rows.length)) (hrole : row.role = role') :
    RowsAdded orderId [role'] rows (rows ++ [row]) := by
  refine ⟨fun hn => ?_, by rw [List.map_append, List.map_singleton, hrole]⟩
  rw [Numbered, List.map_append, hn, List.length_append, List.length_singleton, List.range_succ,
    List.map_append, List.map_singleton, List.map_singleton, hid]

/-- A loop of which each round adds rows. -/
theorem foldlM {α : Type} {f : SaleLines → α → Except String SaleLines}
    {added : α → List KitchenRole} {l : List α}
    (hstep : ∀ acc a acc', a ∈ l → f acc a = .ok acc' →
      RowsAdded orderId (added a) acc.rows acc'.rows) {acc acc' : SaleLines}
    (h : l.foldlM f acc = .ok acc') : RowsAdded orderId (l.flatMap added) acc.rows acc'.rows := by
  induction l generalizing acc with
  | nil =>
    cases h
    exact nil
  | cons a l ih =>
    rw [List.foldlM_cons, bind_eq_ok] at h
    obtain ⟨acc₁, h₁, h⟩ := h
    rw [List.flatMap_cons]
    exact (hstep acc a acc₁ List.mem_cons_self h₁).append
      (ih (fun acc a acc' ha => hstep acc a acc' (List.mem_cons_of_mem _ ha)) h)

end RowsAdded

section Ingest

variable {r : Reads} {closedAt : Time} {acc acc' : SaleLines}

theorem rowsAdded_itemRow {line : EdgeOrderLineInput} (h : itemRow r closedAt acc line = .ok acc') :
    RowsAdded r.orderId [itemRole line] acc.rows acc'.rows := by
  unfold itemRow at h
  obtain ⟨item, -, h⟩ := bind_eq_ok.mp h
  rw [← pure_eq_ok.mp h]
  exact .single rfl rfl

theorem rowsAdded_componentRow {comboId : String} {line : EdgeComboLineInput × ℕ}
    {chosen : List (Option String × Binary64)} {acc : SaleLines} :
    RowsAdded r.orderId
      (List.replicate (chosen.filterMap fun c => (truthy c.1).bind r.item).length
        (componentRole r.orderId line)) acc.rows
      (chosen.foldl (fun acc c => componentRow r closedAt comboId line.2 line.1 acc c.1) acc).rows := by
  induction chosen generalizing acc with
  | nil => exact .nil
  | cons c chosen ih =>
    rw [List.filterMap_cons, List.foldl_cons]
    cases hitem : (truthy c.1).bind r.item with
    | none =>
      have hskip : componentRow r closedAt comboId line.2 line.1 acc c.1 = acc := by
        unfold componentRow
        rw [hitem]
      rw [hskip]
      exact ih
    | some item =>
      rw [List.length_cons, List.replicate_succ, ← List.singleton_append]
      refine .append ?_ ih
      unfold componentRow
      rw [hitem]
      exact .single rfl rfl

theorem rowsAdded_comboRows {line : EdgeComboLineInput × ℕ}
    (h : comboRows r closedAt acc line = .ok acc') :
    RowsAdded r.orderId (comboRoles r.orderId (fun l => (componentItems r l).length) line)
      acc.rows acc'.rows := by
  unfold comboRows at h
  obtain ⟨combo, hcombo, h⟩ := bind_eq_ok.mp h
  have hcount : (componentItems r line.1).length =
      ((combo.slots.map (chosenOption line.1)).filterMap fun c =>
        (truthy c.1).bind r.item).length := by
    rw [componentItems, orThrow_eq_ok.mp hcombo, Option.elim_some, List.filterMap_map]
    rfl
  rw [← pure_eq_ok.mp h, comboRoles, hcount, ← List.singleton_append]
  refine .append ?_ (@rowsAdded_componentRow _ _ _ line _ _)
  exact .single rfl rfl

/-- The lines that the ingest stores are those of the order. -/
theorem saleRows_of_saleLines {order : EdgeOrderInput} {lines : SaleLines}
    (h : saleLines r order closedAt = .ok lines) :
    SaleRows order r.orderId (fun l => (componentItems r l).length) lines.rows := by
  unfold saleLines at h
  obtain ⟨acc, hitems, hcombos⟩ := bind_eq_ok.mp h
  have h₁ : RowsAdded r.orderId (order.items.flatMap fun line => [itemRole line]) [] acc.rows :=
    .foldlM (fun _ _ _ _ h => rowsAdded_itemRow h) hitems
  have h₂ := RowsAdded.foldlM (fun _ _ _ _ h => rowsAdded_comboRows h) hcombos
  have h₃ := h₁.append h₂
  refine ⟨h₃.numbered rfl, ?_⟩
  rw [h₃.roles, List.map_nil, List.nil_append, ← List.map_eq_flatMap]

/-- The lines are stored exactly when the catalog has all of them. -/
theorem saleLines_isOk {order : EdgeOrderInput} :
    (∃ lines, saleLines r order closedAt = .ok lines) ↔
      (∀ line ∈ order.items, (r.item line.itemId).isSome) ∧
        ∀ line ∈ order.combos, (r.combo line.comboId).isSome := by
  have hitem : ∀ acc line, (∃ acc', itemRow r closedAt acc line = .ok acc') ↔
      (r.item line.itemId).isSome := by
    intro acc line
    simp only [itemRow, bind_eq_ok, orThrow_eq_ok, pure_eq_ok, Option.isSome_iff_exists]
    exact ⟨fun ⟨_, item, h, _⟩ => ⟨item, h⟩, fun ⟨item, h⟩ => ⟨_, item, h, rfl⟩⟩
  have hcombo : ∀ acc (line : EdgeComboLineInput × ℕ),
      (∃ acc', comboRows r closedAt acc line = .ok acc') ↔ (r.combo line.1.comboId).isSome := by
    intro acc line
    simp only [comboRows, bind_eq_ok, orThrow_eq_ok, pure_eq_ok, Option.isSome_iff_exists]
    exact ⟨fun ⟨_, combo, h, _⟩ => ⟨combo, h⟩, fun ⟨combo, h⟩ => ⟨_, combo, h, rfl⟩⟩
  have hzip : (∀ line ∈ order.combos.zipIdx, (r.combo line.1.comboId).isSome) ↔
      ∀ line ∈ order.combos, (r.combo line.comboId).isSome := by
    conv_rhs => rw [← List.zipIdx_map_fst 0 order.combos]
    rw [List.forall_mem_map]
  rw [← foldlM_isOk hitem order.items ⟨[], 0, []⟩, ← hzip]
  simp only [saleLines, bind_eq_ok]
  constructor
  · rintro ⟨lines, acc, hacc, h⟩
    exact ⟨⟨acc, hacc⟩, (foldlM_isOk hcombo _ acc).mp ⟨lines, h⟩⟩
  · rintro ⟨⟨acc, hacc⟩, h⟩
    obtain ⟨lines, h⟩ := (foldlM_isOk hcombo _ acc).mpr h
    exact ⟨lines, acc, hacc, h⟩

end Ingest

/-! ### Addressing -/

theorem of_items {rows : List Cloud.OrderItem} {items : List EdgeOrderLineInput}
    (h : rows.map role = items.map itemRole) {row : Cloud.OrderItem} (hrow : row ∈ rows) :
    row.comboId.isNone ∧ row.comboGroupId = none := by
  have hrole := List.mem_map_of_mem (f := role) hrow
  rw [h] at hrole
  obtain ⟨line, -, hrole⟩ := List.mem_map.mp hrole
  have hcombo : row.comboId.isSome = false := congrArg KitchenRole.isCombo hrole.symm
  exact ⟨Option.isSome_eq_false_iff.mp hcombo, congrArg KitchenRole.group hrole.symm⟩

theorem of_combos {orderId : ℕ} {components : EdgeComboLineInput → ℕ}
    {rows : List Cloud.OrderItem} {combos : List (EdgeComboLineInput × ℕ)}
    (h : rows.map role = combos.flatMap (comboRoles orderId components)) {row : Cloud.OrderItem}
    (hrow : row ∈ rows) : row.comboId.isSome ∧ ∃ g, row.comboGroupId = some g := by
  have hrole := List.mem_map_of_mem (f := role) hrow
  rw [h, List.mem_flatMap] at hrole
  obtain ⟨line, -, hrole⟩ := hrole
  have hor := (List.mem_cons.mp hrole).imp id List.eq_of_mem_replicate
  have hcombo : row.role.isCombo ∧ row.role.group = some (orderId, line.2) := by
    rcases hor with hrole | hrole <;> rw [hrole] <;> exact ⟨rfl, rfl⟩
  exact ⟨hcombo.1, _, hcombo.2⟩

theorem addressed_item {order : EdgeOrderInput} {orderId : ℕ}
    {components : EdgeComboLineInput → ℕ} {rows items combos : List Cloud.OrderItem}
    (hrows : rows = items ++ combos)
    (hitems : items.map role = order.items.map itemRole)
    (hcombos : combos.map role = order.combos.zipIdx.flatMap (comboRoles orderId components)) :
    addressed .item rows = items := by
  rw [hrows, addressed, List.filter_append, List.filter_eq_self.mpr, List.filter_eq_nil_iff.mpr,
    List.append_nil]
  · intro row hrow hnone
    have hsome := (of_combos hcombos hrow).1
    rw [Option.isNone_iff_eq_none.mp hnone] at hsome
    cases hsome
  · intro row hrow
    exact (of_items hitems hrow).1

namespace SaleRows

variable {order : EdgeOrderInput} {orderId : ℕ} {components : EdgeComboLineInput → ℕ}
  {rows : List Cloud.OrderItem} (h : SaleRows order orderId components rows)

include h

theorem id_getElem? {n : ℕ} {row : Cloud.OrderItem} (hrow : rows[n]? = some row) :
    row.id = (orderId, n) := by
  have hn : n < rows.length := (List.getElem?_eq_some_iff.mp hrow).1
  have hids := congrArg (·[n]?) h.numbered
  rw [List.getElem?_map, List.getElem?_map, hrow, List.getElem?_range hn] at hids
  exact Option.some_inj.mp hids

theorem orderId_eq {row : Cloud.OrderItem} (hrow : row ∈ rows) : row.orderId = orderId := by
  obtain ⟨n, hn⟩ := List.mem_iff_getElem?.mp hrow
  exact congrArg Prod.fst (h.id_getElem? hn)

theorem eq_of_id {row row' : Cloud.OrderItem} (hrow : row ∈ rows) (hrow' : row' ∈ rows)
    (hid : row.id = row'.id) : row = row' := by
  obtain ⟨n, hn⟩ := List.mem_iff_getElem?.mp hrow
  obtain ⟨n', hn'⟩ := List.mem_iff_getElem?.mp hrow'
  rw [h.id_getElem? hn, h.id_getElem? hn'] at hid
  obtain rfl : n = n' := congrArg Prod.snd hid
  exact Option.some_inj.mp (hn.symm.trans hn')

/-- The items come first, then the combos. -/
theorem exists_append : ∃ items combos, rows = items ++ combos ∧
    items.map role = order.items.map itemRole ∧
    combos.map role = order.combos.zipIdx.flatMap (comboRoles orderId components) := by
  obtain ⟨items, combos, hrows, hitems, hcombos⟩ := List.map_eq_append_iff.mp h.roles
  exact ⟨items, combos, hrows, hitems, hcombos⟩

/-- A line is an item of the order, or belongs to one of its combos. -/
theorem role_cases {row : Cloud.OrderItem} (hrow : row ∈ rows) :
    (∃ n : ℕ, ∃ line, order.items[n]? = some line ∧ rows[n]? = some row ∧
        row.role = itemRole line) ∨
      ∃ n : ℕ, ∃ line, order.combos[n]? = some line ∧ (row.role = parentRole orderId (line, n) ∨
        row.role = componentRole orderId (line, n)) := by
  obtain ⟨items, combos, hrows, hitems, hcombos⟩ := h.exists_append
  rw [hrows, List.mem_append] at hrow
  rcases hrow with hrow | hrow
  · left
    obtain ⟨n, hn⟩ := List.mem_iff_getElem?.mp hrow
    have hrole := congrArg (·[n]?) hitems
    simp only [List.getElem?_map, hn, Option.map_some] at hrole
    obtain ⟨line, hline, hrole⟩ := Option.map_eq_some_iff.mp hrole.symm
    refine ⟨n, line, hline, ?_, hrole.symm⟩
    rw [hrows, List.getElem?_append_left (List.getElem?_eq_some_iff.mp hn).1]
    exact hn
  · right
    have hrole := List.mem_map_of_mem (f := role) hrow
    rw [hcombos, List.mem_flatMap] at hrole
    obtain ⟨⟨line, n⟩, hline, hrole⟩ := hrole
    refine ⟨n, line, List.mem_zipIdx_iff_getElem?.mp hline, ?_⟩
    rw [comboRoles, List.mem_cons] at hrole
    exact hrole.imp id List.eq_of_mem_replicate

/-- A line of a place has the status of the order's line there. -/
theorem lineStatus_place {row : Cloud.OrderItem} (hrow : row ∈ rows) :
    order.lineStatus row.place = some row.prepStatus := by
  rcases h.role_cases hrow with ⟨n, line, hline, hn, hrole⟩ | ⟨n, line, hline, hrole⟩
  · have hgroup : row.comboGroupId = none := congrArg KitchenRole.group hrole
    have hno : row.lineNo = n := congrArg Prod.snd (h.id_getElem? hn)
    have hstatus : row.prepStatus = line.prepStatus := congrArg KitchenRole.prepStatus hrole
    rw [place, hgroup, hno, hstatus]
    exact congrArg (Option.map _) hline
  · have hgroup : row.comboGroupId = some (orderId, n) := by
      rcases hrole with hrole | hrole <;> exact congrArg KitchenRole.group hrole
    have hstatus : row.prepStatus = line.prepStatus := by
      rcases hrole with hrole | hrole <;> exact congrArg KitchenRole.prepStatus hrole
    rw [place, hgroup, hstatus]
    exact congrArg (Option.map _) hline

/-- The lines that an item of an update addresses are the items of the order. -/
theorem addressed_item_getElem? {n : ℕ} {row : Cloud.OrderItem} :
    (addressed .item rows)[n]? = some row ↔ row ∈ rows ∧ row.place = (.item, n) := by
  obtain ⟨items, combos, hrows, hitems, hcombos⟩ := h.exists_append
  have hrows_at : ∀ k row, items[k]? = some row → row ∈ rows ∧ row.lineNo = k := by
    intro k row hk
    have hk' : rows[k]? = some row := by
      rw [hrows, List.getElem?_append_left (List.getElem?_eq_some_iff.mp hk).1]
      exact hk
    exact ⟨List.mem_of_getElem? hk', congrArg Prod.snd (h.id_getElem? hk')⟩
  rw [addressed_item hrows hitems hcombos]
  constructor
  · intro hn
    obtain ⟨hmem, hno⟩ := hrows_at n row hn
    refine ⟨hmem, ?_⟩
    rw [place, (of_items hitems (List.mem_of_getElem? hn)).2, hno]
  · rintro ⟨hrow, hplace⟩
    rw [hrows, List.mem_append] at hrow
    rcases hrow with hmem | hmem
    · obtain ⟨k, hk⟩ := List.mem_iff_getElem?.mp hmem
      rw [place, (of_items hitems hmem).2, (hrows_at k row hk).2] at hplace
      obtain rfl : k = n := congrArg Prod.snd hplace
      exact hk
    · obtain ⟨g, hg⟩ := (of_combos hcombos hmem).2
      rw [place, hg] at hplace
      cases hplace

/-- The lines that a combo of an update addresses are the parents. -/
theorem addressed_combo :
    (addressed .combo rows).map role = order.combos.zipIdx.map (parentRole orderId) := by
  have hfilter : (addressed .combo rows).map role =
      (rows.map role).filter fun ρ => ρ.isCombo ∧ ρ.isComponent = false := by
    rw [List.filter_map]
    rfl
  have hitems : (order.items.map itemRole).filter
      (fun ρ => ρ.isCombo ∧ ρ.isComponent = false) = [] := by
    rw [List.filter_eq_nil_iff]
    intro ρ hρ
    obtain ⟨line, -, rfl⟩ := List.mem_map.mp hρ
    simp [itemRole]
  have hcombo : ∀ line, (comboRoles orderId components line).filter
      (fun ρ => ρ.isCombo ∧ ρ.isComponent = false) = [parentRole orderId line] := by
    intro line
    simp [comboRoles, parentRole, componentRole]
  rw [hfilter, h.roles, List.filter_append, hitems, List.nil_append, List.filter_flatMap,
    List.map_eq_flatMap]
  exact congrArg (List.flatMap · _) (funext hcombo)

/-- A line belongs to the combo of its group, if it has one. -/
theorem place_eq_combo {row : Cloud.OrderItem} (hrow : row ∈ rows) (n : ℕ) :
    row.place = (.combo, n) ↔ row.comboGroupId = some (orderId, n) := by
  have hcases : row.comboGroupId = none ∨ ∃ m, row.comboGroupId = some (orderId, m) := by
    rcases h.role_cases hrow with ⟨m, line, -, -, hrole⟩ | ⟨m, line, -, hrole | hrole⟩
    · exact .inl (congrArg KitchenRole.group hrole)
    · exact .inr ⟨m, congrArg KitchenRole.group hrole⟩
    · exact .inr ⟨m, congrArg KitchenRole.group hrole⟩
  rcases hcases with hgroup | ⟨m, hgroup⟩ <;> simp [place, hgroup]

/-- An update sets the lines of the place it names. -/
theorem mem_updatedIds {row : Cloud.OrderItem} (hrow : row ∈ rows) (s : KotStatusLine) :
    row.id ∈ updatedIds rows s ↔ row.place = s.place := by
  obtain ⟨n, kind, status, preppedAt⟩ := s
  unfold updatedIds KotStatusLine.place
  cases kind with
  | item =>
    cases hget : (addressed .item rows)[n]? with
    | none =>
      refine ⟨fun hmem => (nomatch hmem), fun hplace => ?_⟩
      rw [h.addressed_item_getElem?.mpr ⟨hrow, hplace⟩] at hget
      cases hget
    | some target =>
      obtain ⟨htarget, hplace⟩ := h.addressed_item_getElem?.mp hget
      have hgroup : target.comboGroupId = none := by
        cases hg : target.comboGroupId with
        | none => rfl
        | some g =>
          rw [place, hg] at hplace
          cases hplace
      dsimp only
      rw [groupIds, hgroup, List.mem_singleton]
      constructor
      · intro hid
        rw [h.eq_of_id hrow htarget hid, hplace]
      · intro hrowPlace
        have := h.addressed_item_getElem?.mpr ⟨hrow, hrowPlace⟩
        rw [Option.some_inj.mp (this.symm.trans hget)]
  | combo =>
    rw [h.place_eq_combo hrow]
    have hroles := congrArg (fun ρ : List KitchenRole => ρ[n]?) h.addressed_combo
    simp only [List.getElem?_map, List.getElem?_zipIdx] at hroles
    cases hget : (addressed .combo rows)[n]? with
    | none =>
      refine ⟨fun hmem => (nomatch hmem), fun hgroup => ?_⟩
      have hline := h.lineStatus_place hrow
      rw [(h.place_eq_combo hrow n).mpr hgroup] at hline
      obtain ⟨line, hline, -⟩ := Option.map_eq_some_iff.mp hline
      rw [hget, hline] at hroles
      cases hroles
    | some target =>
      have hgroup : target.comboGroupId = some (orderId, n) := by
        rw [hget] at hroles
        obtain ⟨line, hline, hrole⟩ := Option.map_eq_some_iff.mp hroles.symm
        obtain ⟨_, -, rfl⟩ := Option.map_eq_some_iff.mp hline
        have := congrArg KitchenRole.group hrole.symm
        rwa [parentRole, Nat.zero_add] at this
      dsimp only
      rw [groupIds, hgroup, List.mem_map]
      simp only [List.mem_filter, decide_eq_true_eq]
      constructor
      · rintro ⟨row', ⟨hrow', hgroup'⟩, hid⟩
        rwa [h.eq_of_id hrow' hrow hid] at hgroup'
      · exact fun hgroup => ⟨row, ⟨hrow, hgroup⟩, rfl⟩

/-- Every line of the order has a line that belongs to it. -/
theorem exists_place {p : LineKind × ℕ} {status : PrepStatus}
    (hstatus : order.lineStatus p = some status) :
    ∃ row ∈ rows, row.place = p ∧ row.prepStatus = status := by
  rcases p with ⟨_ | _, n⟩
  · obtain ⟨line, hline, hstatus⟩ := Option.map_eq_some_iff.mp hstatus
    obtain ⟨items, combos, hrows, hitems, hcombos⟩ := h.exists_append
    have hrole := congrArg (fun ρ : List KitchenRole => ρ[n]?) hitems
    simp only [List.getElem?_map, hline, Option.map_some] at hrole
    obtain ⟨row, hrow, hrole⟩ := Option.map_eq_some_iff.mp hrole
    rw [← addressed_item hrows hitems hcombos] at hrow
    obtain ⟨hmem, hplace⟩ := h.addressed_item_getElem?.mp hrow
    exact ⟨row, hmem, hplace, (congrArg KitchenRole.prepStatus hrole).trans hstatus⟩
  · obtain ⟨line, hline, hstatus⟩ := Option.map_eq_some_iff.mp hstatus
    have hrole := congrArg (fun ρ : List KitchenRole => ρ[n]?) h.addressed_combo
    simp only [List.getElem?_map, List.getElem?_zipIdx, hline, Option.map_some] at hrole
    obtain ⟨row, hrow, hrole⟩ := Option.map_eq_some_iff.mp hrole
    have hmem : row ∈ rows := (List.mem_filter.mp (List.mem_of_getElem? hrow)).1
    have hgroup : row.comboGroupId = some (orderId, n) := by
      have := congrArg KitchenRole.group hrole
      rwa [parentRole, Nat.zero_add] at this
    exact ⟨row, hmem, (h.place_eq_combo hmem n).mpr hgroup,
      (congrArg KitchenRole.prepStatus hrole).trans hstatus⟩

end SaleRows

end StelloKitchens
