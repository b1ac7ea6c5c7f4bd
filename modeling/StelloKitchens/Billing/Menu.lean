import Mathlib.Data.Nat.Pairing
import StelloKitchens.Lib.Checked
import StelloKitchens.Billing.Store

/-!
# Punching items

What a punch makes of the items and combos that were asked for: every item becomes a line at the
price of its channel with the add-ons on top, every combo a priced parent line and a line without
a price for each chosen component, all of it on one kitchen ticket. The catalog that a punch
reads is an input, so that it may change from one punch to the next.

## Main definitions

* `Menu` — the catalog rows that a punch reads.
* `channelCandidates`, `resolveChannelPrices` — the price of a channel.
* `punchLines` — the lines of a punch.

## Main results

* `punchLines_spec` — what is known of every line punched.
-/

namespace StelloKitchens.Billing

open Checked

/-! ### The catalog -/

structure Variation where
  id : String
  name : String
  price : Amount
  deriving DecidableEq

structure Addon where
  id : String
  name : String
  price : Amount
  deriving DecidableEq

structure AddonGroup where
  name : String
  outletId : String
  minSelect : ℕ
  maxSelect : ℕ
  addons : List Addon
  deriving DecidableEq

structure Item where
  id : String
  outletId : String
  name : String
  price : Amount
  taxRate : Rate
  inStock : Bool
  /-- The sale window, in minutes after midnight. -/
  availableStart : Option ℕ
  availableEnd : Option ℕ
  variations : List Variation
  addonGroups : List AddonGroup
  stationId : Option String
  deriving DecidableEq

structure ComboSlotOption where
  itemId : String
  priceDelta : Amount
  isDefault : Bool
  deriving DecidableEq

/-- A slot of a combo, from which one of its options is chosen. -/
structure ComboSlot where
  id : String
  name : String
  options : List ComboSlotOption
  deriving DecidableEq

/-- A combo with its slots in their order, at least one. -/
structure Combo where
  id : String
  outletId : String
  name : String
  price : Amount
  taxRate : Rate
  inStock : Bool
  slots : List ComboSlot
  slots_ne : slots ≠ []
  deriving DecidableEq

structure Channel where
  id : String
  outletId : String
  name : String
  isActive : Bool
  deriving DecidableEq

structure ItemChannelPrice where
  itemId : String
  channelId : String
  price : Amount
  deriving DecidableEq

/-- The catalog rows that a punch reads, and the time of day in the outlet. -/
structure Menu where
  items : List Item
  combos : List Combo
  channels : List Channel
  channelPrices : List ItemChannelPrice
  /-- Minutes after local midnight. -/
  minutes : ℕ
  deriving DecidableEq

/-! ### Channel prices -/

/-- Where a punch comes from. -/
inductive PriceSource
  | pos (orderType : OrderType)
  | scan (orderType : OrderType)
  | aggregator (channelName : Option String)
  | sync (orderType : OrderType)
  deriving DecidableEq

/-- A name without its case and without all but letters and digits. -/
def norm (s : String) : String :=
  String.ofList ((s.toList.map Char.toLower).filter fun c => c.isLower || c.isDigit)

def orderTypeNames : OrderType → List String
  | .dineIn => ["dinein", "dining", "restaurant"]
  | .takeaway => ["takeaway", "takeout", "parcel", "pickup"]
  | .delivery => ["delivery", "homedelivery"]

def scanNames : List String := ["scanorder", "scanandorder", "qrorder", "qr", "online"]

/-- The channel names a source stands for, the most specific first. -/
def channelCandidates : PriceSource → List String
  | .pos t | .sync t => orderTypeNames t
  | .scan t => scanNames ++ orderTypeNames t
  | .aggregator name => (truthy name).toList.map norm ++ orderTypeNames .delivery

/-- The outlet's active channels of a source, by the first name they match. -/
def rankedChannels (menu : Menu) (outletId : String) (source : PriceSource) : List Channel :=
  let candidates := channelCandidates source
  let rank (c : Channel) := candidates.idxOf (norm c.name)
  (menu.channels.filter fun c => c.outletId = outletId ∧ c.isActive ∧
    rank c < candidates.length).insertionSort fun a b => rank a ≤ rank b

/-- The price of an item in the first channel of a source that has one. -/
def resolveChannelPrice (menu : Menu) (outletId : String) (source : PriceSource)
    (itemId : String) : Option Amount :=
  (rankedChannels menu outletId source).findSome? fun ch =>
    (menu.channelPrices.find? fun p => p.itemId = itemId ∧ p.channelId = ch.id).map (·.price)

/-! ### Sale windows -/

/-- A time of day lies in a window whose bounds may be open and which may wrap midnight. -/
def isWithinWindow (start stop : Option ℕ) (minutes : ℕ) : Bool :=
  if start = none ∧ stop = none then true
  else
    let begins := start.getD 0
    let ends := stop.getD (24 * 60)
    if begins = ends then true
    else if begins < ends then begins ≤ minutes ∧ minutes < ends
    else begins ≤ minutes ∨ minutes < ends

/-! ### Requests -/

structure OrderItemInput where
  itemId : String
  variationId : Option String
  addonIds : List String
  quantity : ℕ
  quantity_pos : 0 < quantity
  note : Option String
  /-- The price and the tax rate on the device, for an order that was synced. -/
  offlineUnitPrice : Option Binary64
  offlineTaxRate : Option Binary64

structure ComboSelection where
  slotId : String
  itemId : String
  deriving DecidableEq

structure ComboOrderInput where
  comboId : String
  quantity : ℕ
  quantity_pos : 0 < quantity
  note : Option String
  selections : List ComboSelection

/-- How a punch is made. -/
structure PunchOptions where
  source : PriceSource
  /-- The items were punched on a device already. -/
  offline : Bool

/-! ### Lines -/

/-- Store a number in a column, or fail. -/
def store {p s : ℕ} (x : Binary64) : Except BillingError (Decimal p s) :=
  orThrow (Decimal.ofNumber x) .database

/-- Store a quantity, or fail. -/
def storeInt (n : ℤ) : Except BillingError Int4 := orThrow (Int4.ofInt n) .database

/-- Where the lines of a punch go: the bill, the outlet, and the rows inserted with it. -/
structure PunchTarget where
  orderId : RowId
  outletId : String
  /-- The number that the transaction drew. -/
  stamp : ℕ

/-- The kitchen ticket of a punch. -/
def PunchTarget.kotId (t : PunchTarget) : RowId := ⟨t.stamp, 1⟩

/-- The id of the `k`-th line of the `n`-th input. -/
def PunchTarget.lineId (t : PunchTarget) (n k : ℕ) : RowId := ⟨t.stamp, 2 + Nat.pair n k⟩

/-- The sale window, which an online punch must be in. -/
def checkWindow (menu : Menu) (offline : Bool) (item : Item) : Except BillingError Unit :=
  ensure (offline ∨ isWithinWindow item.availableStart item.availableEnd menu.minutes)
    (.badRequest (item.name ++ " is not available right now"))

/-- The unit price of an item before add-ons: the device's, or else the channel's, which a
variation carries as a difference to the item. -/
def baseUnitPrice (item : Item) (channelPrice : Option Amount) (offline : Bool)
    (input : OrderItemInput) : Except BillingError (Binary64 × Option String) := do
  let offlinePrice := if offline then input.offlineUnitPrice else none
  let channelDelta : Binary64 :=
    channelPrice.elim 0 fun p => p.toNumber - item.price.toNumber
  match truthy input.variationId with
  | none => return (offlinePrice.getD ((channelPrice.getD item.price).toNumber), none)
  | some variationId =>
    let variation ← orThrow (item.variations.find? fun v => v.id = variationId)
      (.badRequest ("Invalid variation for " ++ item.name))
    return (offlinePrice.getD (max 0 (fromPaise (toPaise variation.price.toNumber +
      toPaise channelDelta))), some variation.name)

/-- The add-ons asked for, within the bounds of every group. -/
def chosenAddons (item : Item) (outletId : String) (addonIds : List String) :
    Except BillingError (List Addon) := do
  ensure addonIds.Nodup (.badRequest "Duplicate addons are not allowed")
  ensure (∀ g ∈ item.addonGroups, g.outletId = outletId)
    (.badRequest "Invalid addon group for this outlet")
  ensure (∀ g ∈ item.addonGroups, g.minSelect ≤ (g.addons.filter (·.id ∈ addonIds)).length ∧
      (g.addons.filter (·.id ∈ addonIds)).length ≤ g.maxSelect)
    (.badRequest "Select the addons each group asks for")
  addonIds.mapM fun id => orThrow ((item.addonGroups.flatMap (·.addons)).find? fun a => a.id = id)
    (.badRequest ("Invalid addon for " ++ item.name))

/-- The line of an item. -/
def punchItem (menu : Menu) (t : PunchTarget) (opts : PunchOptions) (n : ℕ)
    (input : OrderItemInput) : Except BillingError OrderItem := do
  let item ← orThrow (menu.items.find? fun i => i.id = input.itemId ∧ i.outletId = t.outletId)
    (.badRequest ("Item not found: " ++ input.itemId))
  ensure item.inStock (.badRequest (item.name ++ " is out of stock"))
  checkWindow menu opts.offline item
  let (unitPrice, variationName) ← baseUnitPrice item
    (resolveChannelPrice menu t.outletId opts.source item.id) opts.offline input
  let addons ← chosenAddons item t.outletId input.addonIds
  let unitPrice := unitPrice + addons.foldl (fun s a => s + a.price.toNumber) 0
  let offlineTaxRate := if opts.offline then input.offlineTaxRate else none
  return {
    id := t.lineId n 0
    orderId := t.orderId
    itemId := item.id
    quantity := ← storeInt input.quantity
    unitPrice := ← store unitPrice
    lineTotal := ← store (fromPaise (lineTotalPaise unitPrice (.ofRat input.quantity)))
    taxRate := ← offlineTaxRate.elim (.ok item.taxRate) store
    kotId := some t.kotId
    comboGroupId := none
    isComboComponent := false
    splitFromItemId := none
    splitParts := none
    details := ⟨item.name, input.variationId, variationName, input.note, item.stationId, .pending,
      none, none, addons.map fun a => ⟨a.id, a.name, a.price⟩⟩ }

/-- The option of a slot: the one selected, or else the default, or else the first. -/
def chooseOption (combo : Combo) (selections : List ComboSelection) (slot : ComboSlot) :
    Except BillingError ComboSlotOption :=
  match selections.find? fun s => s.slotId = slot.id with
  | some sel => orThrow (slot.options.find? fun o => o.itemId = sel.itemId)
      (.badRequest ("Invalid choice for " ++ slot.name))
  | none => orThrow ((slot.options.find? (·.isDefault)).or slot.options.head?)
      (.badRequest (combo.name ++ ": " ++ slot.name ++ " has no options"))

/-- The line of a combo's component. -/
def comboComponent (menu : Menu) (t : PunchTarget) (opts : PunchOptions) (combo : Combo)
    (group : RowId) (quantity : Int4) (id : RowId) (itemId : String) :
    Except BillingError OrderItem := do
  let item ← orThrow (menu.items.find? fun i => i.id = itemId ∧ i.outletId = t.outletId)
    (.badRequest "A combo component is unavailable")
  ensure item.inStock (.badRequest (item.name ++ " is out of stock"))
  checkWindow menu opts.offline item
  return {
    id := id
    orderId := t.orderId
    itemId := item.id
    quantity := quantity
    unitPrice := 0
    lineTotal := 0
    taxRate := item.taxRate
    kotId := some t.kotId
    comboGroupId := some group
    isComboComponent := true
    splitFromItemId := none
    splitParts := none
    details := ⟨item.name, none, none, none, item.stationId, .pending, none, some combo.id, []⟩ }

/-- The parent line of a combo and the lines of its components, and what was chosen for it. -/
def punchCombo (menu : Menu) (t : PunchTarget) (opts : PunchOptions) (n : ℕ)
    (input : ComboOrderInput) : Except BillingError (List OrderItem × ComboChoice) := do
  let combo ← orThrow (menu.combos.find? fun c => c.id = input.comboId ∧ c.outletId = t.outletId)
    (.badRequest ("Combo not found: " ++ input.comboId))
  ensure combo.inStock (.badRequest (combo.name ++ " is unavailable"))
  let chosen ← combo.slots.mapM (chooseOption combo input.selections)
  let group := t.lineId n 0
  let comboUnit := combo.price.toNumber +
    chosen.foldl (fun s c => s + c.priceDelta.toNumber) 0
  let quantity ← storeInt input.quantity
  let parent : OrderItem := {
    id := t.lineId n 0
    orderId := t.orderId
    itemId := combo.id
    quantity := quantity
    unitPrice := ← store comboUnit
    lineTotal := ← store (fromPaise (lineTotalPaise comboUnit (.ofRat input.quantity)))
    taxRate := combo.taxRate
    kotId := none
    comboGroupId := some group
    isComboComponent := false
    splitFromItemId := none
    splitParts := none
    details := ⟨combo.name, none, none, input.note, none, .pending, none, some combo.id, []⟩ }
  let components ← chosen.zipIdx.mapM fun (c, k) =>
    comboComponent menu t opts combo group quantity (t.lineId n (k + 1)) c.itemId
  return (parent :: components, ⟨group, chosen.map (·.itemId)⟩)

/-- The lines of a punch: those of the items, then those of the combos. -/
def punchLines (menu : Menu) (t : PunchTarget) (opts : PunchOptions)
    (items : List OrderItemInput) (combos : List ComboOrderInput) :
    Except BillingError (List OrderItem × List ComboChoice) := do
  let itemLines ← items.zipIdx.mapM fun (input, n) => punchItem menu t opts n input
  let comboLines ← combos.zipIdx.mapM fun (input, n) =>
    punchCombo menu t opts (items.length + n) input
  return (itemLines ++ (comboLines.map (·.1)).flatten, comboLines.map (·.2))

/-! ### What is known of a line punched -/

/-- What is known of every line of a punch. -/
structure PunchedLine (t : PunchTarget) (l : OrderItem) : Prop where
  orderId : l.orderId = t.orderId
  stamp : l.id.stamp = t.stamp
  quantity_pos : 0 < l.quantity.value
  notSplit : l.splitFromItemId = none
  /-- The kitchen ticket is that of the punch; only the parent of a combo is on none. -/
  kot : l.kotId = some t.kotId ∨ l.kotId = none ∧ l.comboGroupId = some l.id
  component : l.isComboComponent = true → ∃ g : RowId, l.comboGroupId = some g ∧ g.stamp = t.stamp

/-- The lines of a combo instance as they are punched. -/
structure PunchedCombo (t : PunchTarget) (n : ℕ) (parent : OrderItem) (components : List OrderItem)
    (choice : ComboChoice) : Prop where
  parentId : parent.id = t.lineId n 0
  ids : components.map (·.id) = (List.range components.length).map fun k => t.lineId n (k + 1)
  chosen : components.map (·.itemId) = choice.itemIds
  components_ne : components ≠ []
  group : choice.comboGroupId = t.lineId n 0
  parentLine : parent.comboGroupId = some (t.lineId n 0) ∧ parent.isComboComponent = false
  componentLine : ∀ l ∈ components, l.comboGroupId = some (t.lineId n 0) ∧
    l.isComboComponent = true ∧ l.quantity = parent.quantity ∧ l.kotId = some t.kotId

theorem storeInt_eq_ok {n : ℤ} {q : Int4} (h : storeInt n = .ok q) : q.value = n := by
  rw [storeInt, orThrow_eq_ok, Int4.ofInt] at h
  split at h
  · cases h
    rfl
  · cases h

section Punch

variable {menu : Menu} {t : PunchTarget} {opts : PunchOptions}

theorem punchItem_spec {n : ℕ} {input : OrderItemInput} {l : OrderItem}
    (h : punchItem menu t opts n input = .ok l) :
    PunchedLine t l ∧ l.id = t.lineId n 0 ∧ l.comboGroupId = none ∧ l.isComboComponent = false ∧
      l.kotId = some t.kotId := by
  simp only [punchItem, bind_eq_ok, pure_eq_ok] at h
  obtain ⟨item, -, -, -, -, -, base, -, addons, -, q, hq, unit, -, total, -, rate, -, rfl⟩ := h
  refine ⟨⟨rfl, rfl, ?_, rfl, .inl rfl, fun hc => by cases hc⟩, rfl, rfl, rfl, rfl⟩
  rw [storeInt_eq_ok hq]
  exact_mod_cast input.quantity_pos

theorem comboComponent_spec {combo : Combo} {group id : RowId} {quantity : Int4} {itemId : String}
    {l : OrderItem} (h : comboComponent menu t opts combo group quantity id itemId = .ok l) :
    l.orderId = t.orderId ∧ l.id = id ∧ l.itemId = itemId ∧ l.quantity = quantity ∧
      l.comboGroupId = some group ∧ l.isComboComponent = true ∧ l.kotId = some t.kotId ∧
      l.splitFromItemId = none := by
  simp only [comboComponent, bind_eq_ok, orThrow_eq_ok, pure_eq_ok] at h
  obtain ⟨item, hitem, -, -, -, -, rfl⟩ := h
  have hid : item.id = itemId := by
    have := List.find?_some hitem
    simp only [Bool.decide_and, Bool.and_eq_true, decide_eq_true_eq] at this
    exact this.1
  exact ⟨rfl, rfl, hid, rfl, rfl, rfl, rfl, rfl⟩

theorem punchCombo_spec {n : ℕ} {input : ComboOrderInput} {ls : List OrderItem}
    {choice : ComboChoice} (h : punchCombo menu t opts n input = .ok (ls, choice)) :
    (∀ l ∈ ls, PunchedLine t l) ∧
      ∃ parent components, ls = parent :: components ∧ PunchedCombo t n parent components choice := by
  simp only [punchCombo, bind_eq_ok, pure_eq_ok] at h
  obtain ⟨combo, -, -, -, chosen, hchosen, q, hq, unit, -, total, -, components, hcomp, h⟩ := h
  cases h
  have hpos : 0 < q.value := by
    rw [storeInt_eq_ok hq]
    exact_mod_cast input.quantity_pos
  have hall := forall₂_of_mapM hcomp
  have hlen : components.length = chosen.length := by
    rw [length_of_mapM hcomp, List.length_zipIdx]
  have hspec : ∀ k (hk : k < components.length) (hk' : k < chosen.length),
      components[k].orderId = t.orderId ∧ components[k].id = t.lineId n (k + 1) ∧
      components[k].itemId = chosen[k].itemId ∧ components[k].quantity = q ∧
      components[k].comboGroupId = some (t.lineId n 0) ∧ components[k].isComboComponent = true ∧
      components[k].kotId = some t.kotId ∧ components[k].splitFromItemId = none := by
    intro k hk hk'
    have hz : k < chosen.zipIdx.length := by simpa using hk'
    have := (List.forall₂_iff_get.mp hall).2 k hz hk
    simp only [List.get_eq_getElem, List.getElem_zipIdx, Nat.zero_add] at this
    exact comboComponent_spec this
  have hmem : ∀ l ∈ components, l.orderId = t.orderId ∧ l.id.stamp = t.stamp ∧ l.quantity = q ∧
      l.comboGroupId = some (t.lineId n 0) ∧ l.isComboComponent = true ∧ l.kotId = some t.kotId ∧
      l.splitFromItemId = none := by
    intro l hl
    obtain ⟨k, hk, rfl⟩ := List.getElem_of_mem hl
    obtain ⟨ho, hid, -, h⟩ := hspec k hk (hlen ▸ hk)
    exact ⟨ho, hid ▸ rfl, h⟩
  refine ⟨fun l hl => ?_, _, components, rfl, ⟨rfl, ?_, ?_, ?_, rfl, ⟨rfl, rfl⟩, fun l hl => ?_⟩⟩
  · rcases List.mem_cons.mp hl with rfl | hl
    · exact ⟨rfl, rfl, hpos, rfl, .inr ⟨rfl, rfl⟩, fun hc => by cases hc⟩
    · obtain ⟨ho, hstamp, hq', hg, -, hk, hs⟩ := hmem l hl
      exact ⟨ho, hstamp, hq' ▸ hpos, hs, .inl hk, fun _ => ⟨_, hg, rfl⟩⟩
  · refine List.ext_getElem (by simp) fun k hk hk' => ?_
    simp only [List.length_map] at hk
    simpa using (hspec k hk (hlen ▸ hk)).2.1
  · refine List.ext_getElem (by simp [hlen]) fun k hk hk' => ?_
    simp only [List.length_map] at hk
    simpa using (hspec k hk (hlen ▸ hk)).2.2.1
  · rw [← List.length_pos_iff, hlen, length_of_mapM hchosen, List.length_pos_iff]
    exact combo.slots_ne
  · obtain ⟨-, -, hq', hg, hc, hk, -⟩ := hmem l hl
    exact ⟨hg, hc, hq', hk⟩

/-- What is known of every line of a punch. -/
theorem punchLines_spec {items : List OrderItemInput} {combos : List ComboOrderInput}
    {lines : List OrderItem} {choices : List ComboChoice}
    (h : punchLines menu t opts items combos = .ok (lines, choices)) :
    ∀ l ∈ lines, PunchedLine t l := by
  simp only [punchLines, bind_eq_ok, pure_eq_ok] at h
  obtain ⟨itemLines, hitems, comboLines, hcombos, h⟩ := h
  cases h
  intro l hl
  rcases List.mem_append.mp hl with hl | hl
  · obtain ⟨⟨input, n⟩, -, hline⟩ := forall_mem_of_mapM hitems l hl
    exact (punchItem_spec hline).1
  · obtain ⟨ls, hls, hl⟩ := List.mem_flatten.mp hl
    obtain ⟨⟨ls', choice⟩, hmem, rfl⟩ := List.mem_map.mp hls
    obtain ⟨⟨input, n⟩, -, hcombo⟩ := forall_mem_of_mapM hcombos _ hmem
    exact (punchCombo_spec hcombo).1 l hl

end Punch

end StelloKitchens.Billing
