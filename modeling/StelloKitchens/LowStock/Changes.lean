import StelloKitchens.Lib.Changes
import StelloKitchens.LowStock.Sweeps

/-!
# What commits do to the low-stock alerts

Where flags are set only for materials that are low in the period in which they were read, cleared
only for materials that are not low, and clear when a material becomes low, a material that is low
is flagged exactly if it has been in this period.

## Main definitions

* `lowStockAdmits` — where flags are set and cleared, and sweeps done.
* `Change` — what a commit does where it is admitted.
* `Sound` — flags, flips and alerts agree.

## Main results

* `Change.sound` — changes keep them so.
-/

namespace StelloKitchens.LowStock

open Checked Tx Method Discipline

/-! ### Periods -/

namespace LowStockDb

variable (db : LowStockDb)

def isLow (id : ℕ) : Bool := (db.materials.find? id).any (·.low)

/-- The material is low, in this period. -/
def LowIn (id period : ℕ) : Prop :=
  ∃ m ∈ db.materials.rows, m.id = id ∧ m.low = true ∧ m.period = period

instance (id period : ℕ) : Decidable (db.LowIn id period) :=
  inferInstanceAs (Decidable (∃ m ∈ db.materials.rows, _))

/-- The flag of the material was flipped in this period. -/
def Flipped (id period : ℕ) : Prop := ∃ f ∈ db.flips, f.material = id ∧ f.period = period

/-- The period of the material is over. -/
def Past (id period : ℕ) : Prop :=
  ∃ m ∈ db.materials, m.id = id ∧ (period < m.period ∨ period = m.period ∧ m.low = false)

/-- An alert was raised for the period of the material. -/
def Alerted (id period : ℕ) : Prop :=
  ∃ a ∈ db.alerts, a.rawMaterialId = id ∧ a.period = period

instance (id period : ℕ) : Decidable (db.Alerted id period) :=
  inferInstanceAs (Decidable (∃ a ∈ db.alerts, _))

end LowStockDb

/-- Materials become low while they are not flagged; flags are cleared of materials that are not low,
and set for materials that are low in the period in which they were read; and a sweep is done when
all that is flagged and low has its alert. -/
def lowStockAdmits : Note → (Hold LockKey → Prop) → LowStockDb → Prop
  | .plain, _, _ => True
  | .material m, _, s => m.low = true → s.isLow m.id = false → s.flagged m.id = false
  | .rearm ids, _, s => ∀ id ∈ ids, s.flagged id = true → s.isLow id = false
  | .flag id period, _, s => s.LowIn id period
  | .done, _, s => ∀ m ∈ s.materials.rows, m.low = true → s.flagged m.id = true →
    s.Alerted m.id m.period

instance (note : Note) (held : List (Hold LockKey)) (s : LowStockDb) :
    Decidable (lowStockAdmits note (· ∈ held) s) :=
  match note with
  | .plain => .isTrue trivial
  | .material m => inferInstanceAs (Decidable (m.low = true → s.isLow m.id = false → _))
  | .rearm ids => inferInstanceAs (Decidable (∀ id ∈ ids, s.flagged id = true → s.isLow id = false))
  | .flag id period => inferInstanceAs (Decidable (s.LowIn id period))
  | .done => inferInstanceAs (Decidable (∀ m ∈ s.materials.rows, m.low = true →
      s.flagged m.id = true → s.Alerted m.id m.period))

/-! ### What a commit does -/

/-- What a commit with this note does where it is admitted, by who holds these. -/
inductive Change (L : Hold LockKey → Prop) (s : LowStockDb) : Note → LowStockDb → Prop
  | none : Change L s .plain s
  | tick (ms : ℕ) : Change L s .plain { s with now := s.now + ms }
  | material (m : RawMaterial)
      (hclear : m.low = true → s.isLow m.id = false → s.flagged m.id = false) :
      Change L s (.material m) (s.setMaterial m)
  | rearm (ids : List ℕ) (hlocks : ∀ id ∈ ids, L (.lock (.state id)))
      (habove : ∀ id ∈ ids, s.flagged id = true → s.isLow id = false) :
      Change L s (.rearm ids) (s.rearm ids)
  | flag (m : RawMaterial) (now : Time) (number : ℕ) (hlock : L (.lock (.state m.id)))
      (hnumber : L (.number number)) (hunflagged : s.flagged m.id = false)
      (hlow : s.LowIn m.id m.period) : Change L s (.flag m.id m.period) (s.flag m now number)
  | alert (a : LowStockAlert) (hnumber : L (.number a.flip))
      (hflip : ⟨a.flip, a.rawMaterialId, a.period⟩ ∈ s.flips) (hnew : ∀ x ∈ s.alerts, x.flip ≠ a.flip) :
      Change L s .plain { s with alerts := s.alerts ++ [a] }
  | complete (started : ℕ → Option ℕ)
      (hcovered : ∀ id period, started id = some period → s.Flipped id period ∨ s.Past id period)
      (halerted : ∀ m ∈ s.materials, m.low = true → s.flagged m.id = true →
        s.Alerted m.id m.period) : Change L s .done (s.complete started)

/-- Flags, flips and alerts agree. -/
structure Sound (s : LowStockDb) (n : ℕ) : Prop where
  numbers : ∀ f ∈ s.flips, f.number < n
  once : (s.flips.map fun f => (f.material, f.period)).Nodup
  seen : ∀ f ∈ s.flips, ∃ m ∈ s.materials, m.id = f.material ∧ f.period ≤ m.period
  flagged : ∀ m ∈ s.materials, m.low = true → (s.flagged m.id = true ↔ s.Flipped m.id m.period)
  flips : ∀ a ∈ s.alerts, ⟨a.flip, a.rawMaterialId, a.period⟩ ∈ s.flips
  alerts : (s.alerts.map (·.flip)).Nodup
  swept : ∀ x ∈ s.swept, s.Alerted x.1 x.2

variable {L : Hold LockKey → Prop} {s s' : LowStockDb} {note : Note} {n : ℕ} {m : RawMaterial}

/-! ### Rows after a change -/

theorem RawMaterial.low_change (m old : RawMaterial) : (m.change old).low = m.low := rfl

theorem isLow_of_mem (hm : m ∈ s.materials) : s.isLow m.id = m.low := by
  rw [LowStockDb.isLow, KeyedTable.find?_of_mem hm]
  rfl

theorem flagged_rearm {ids : List ℕ} {id : ℕ} :
    (s.rearm ids).flagged id = (s.flagged id && !decide (id ∈ ids)) := by
  rw [LowStockDb.flagged, LowStockDb.rearm, KeyedTable.find?_modify, LowStockDb.flagged]
  cases hfind : s.states.find? id with
  | none => rfl
  | some row =>
    obtain ⟨-, rfl⟩ := KeyedTable.find?_eq_some.mp hfind
    by_cases hid : row.rawMaterialId ∈ ids <;> simp [hid]

theorem find_flag {now : Time} {number : ℕ} : (s.flag m now number).states.find? m.id =
    some ((s.states.find? m.id).elim ⟨m.tenantId, m.outletId, m.id, true, some now⟩
      (LowStockState.set now)) :=
  KeyedTable.find?_upsert_self fun row h => (row.set_id now).trans h

theorem find_flag_of_ne {now : Time} {number id : ℕ} (hid : id ≠ m.id) :
    (s.flag m now number).states.find? id = s.states.find? id := by
  rw [LowStockDb.flag, KeyedTable.find?_upsert_of_ne]
  exact hid

theorem flagged_flag {now : Time} {number id : ℕ} :
    (s.flag m now number).flagged id = (decide (id = m.id) || s.flagged id) := by
  by_cases hid : id = m.id
  · subst hid
    rw [LowStockDb.flagged, find_flag, decide_eq_true rfl, Bool.true_or]
    cases s.states.find? m.id <;> rfl
  · rw [LowStockDb.flagged, find_flag_of_ne hid, decide_eq_false hid, Bool.false_or,
      LowStockDb.flagged]

/-- A material that is stored: what is given, or another that was there. -/
theorem mem_setMaterial {row : RawMaterial} : row ∈ (s.setMaterial m).materials ↔
    row = (s.materials.find? m.id).elim m.fresh m.change ∨ row ∈ s.materials ∧ row.id ≠ m.id := by
  rw [LowStockDb.setMaterial, KeyedTable.mem_upsert]
  rfl

/-- Materials stay, in the same period or a later one, and where they were. -/
theorem Change.keeps_material (h : Change L s note s') (hm : m ∈ s.materials) :
    ∃ m' ∈ s'.materials, m'.id = m.id ∧ m'.outletId = m.outletId ∧
      (m'.period = m.period ∧ (m'.low = true → m.low = true) ∨ m'.period = m.period + 1) := by
  cases h with
  | material row =>
    by_cases hid : m.id = row.id
    · refine ⟨row.change m, mem_setMaterial.mpr (.inl ?_), rfl, rfl, ?_⟩
      · rw [← hid, KeyedTable.find?_of_mem hm]
        rfl
      · by_cases hbecomes : row.low = true ∧ ¬m.low = true
        · exact .inr (if_pos hbecomes)
        · refine .inl ⟨if_neg hbecomes, fun hlow => ?_⟩
          by_contra hwas
          exact hbecomes ⟨hlow, hwas⟩
    · exact ⟨m, mem_setMaterial.mpr (.inr ⟨hm, hid⟩), rfl, rfl, .inl ⟨rfl, id⟩⟩
  | _ => exact ⟨m, hm, rfl, rfl, .inl ⟨rfl, id⟩⟩

/-- Where a material comes from: it is new, or it was there; it is low in the same period, or became
so while it was not flagged. -/
theorem Change.material_cases (h : Change L s note s') (hm : m ∈ s'.materials)
    (hlow : m.low = true) :
    (∃ old ∈ s.materials, old.id = m.id ∧ old.low = true ∧ old.period = m.period) ∨
    s.flagged m.id = false ∧ s'.flips = s.flips ∧ (∀ id, s'.flagged id = s.flagged id) ∧
      ∀ old ∈ s.materials, old.id = m.id → old.period < m.period := by
  cases h with
  | material row hclear =>
    rcases mem_setMaterial.mp hm with rfl | ⟨hm, -⟩
    · cases hfind : s.materials.find? row.id with
      | none =>
        rw [hfind, Option.elim_none] at hlow
        refine .inr ⟨hclear hlow ?_, rfl, fun _ => rfl, fun old hold hid => ?_⟩
        · rw [LowStockDb.isLow, hfind]
          rfl
        · exact absurd hid (KeyedTable.find?_eq_none.mp hfind old hold)
      | some old =>
        obtain ⟨hold, hid⟩ := KeyedTable.find?_eq_some.mp hfind
        rw [hfind, Option.elim_some, RawMaterial.low_change] at hlow
        cases hwas : old.low with
        | true => exact .inl ⟨old, hold, rfl, hwas, by simp [RawMaterial.change, hwas]⟩
        | false =>
          refine .inr ⟨?_, rfl, fun _ => rfl, fun x hx hxid => ?_⟩
          · have hclear := hclear hlow (hid ▸ (isLow_of_mem hold).trans hwas)
            exact hid ▸ hclear
          · rw [KeyedTable.eq_of_mem hx hold hxid]
            simp [RawMaterial.change, hwas, hlow]
    · exact .inl ⟨m, hm, rfl, hlow, rfl⟩
  | _ => exact .inl ⟨m, hm, rfl, hlow, rfl⟩

/-! ### What has been flipped -/

theorem flipped_flag {now : Time} {number id period : ℕ} :
    (s.flag m now number).Flipped id period ↔
      s.Flipped id period ∨ m.id = id ∧ m.period = period := by
  simp only [LowStockDb.Flipped, LowStockDb.flag, List.mem_append, List.mem_singleton, or_and_right,
    exists_or, exists_eq_left]

theorem Change.flipped (h : Change L s note s') {id period : ℕ} (hs : s.Flipped id period) :
    s'.Flipped id period := by
  cases h with
  | flag => exact flipped_flag.mpr (.inl hs)
  | _ => exact hs

theorem Change.alerted (h : Change L s note s') {id period : ℕ} (hs : s.Alerted id period) :
    s'.Alerted id period := by
  cases h with
  | alert =>
    obtain ⟨a, ha, hid⟩ := hs
    exact ⟨a, List.mem_append_left _ ha, hid⟩
  | _ => exact hs

/-- The row of a material that is low in this period. -/
theorem LowStockDb.LowIn.eq {id period : ℕ} (h : s.LowIn id period) (hm : m ∈ s.materials)
    (hid : m.id = id) : m.low = true ∧ m.period = period := by
  obtain ⟨row, hrow, hrowId, hlow, hperiod⟩ := h
  rw [KeyedTable.eq_of_mem hm hrow (hid.trans hrowId.symm)]
  exact ⟨hlow, hperiod⟩

/-- A material is flagged while it is low exactly if it has been in this period. -/
theorem Change.flagged_iff (h : Change L s note s') (hs : Sound s n) (hm : m ∈ s'.materials)
    (hlow : m.low = true) : s'.flagged m.id = true ↔ s'.Flipped m.id m.period := by
  rcases h.material_cases hm hlow with
    ⟨old, hold, hid, hwas, hperiod⟩ | ⟨hclear, hflips, hsame, hlater⟩
  · have hiff := hs.flagged old hold hwas
    rw [hid, hperiod] at hiff
    cases h with
    | rearm ids hlocks habove =>
      rw [flagged_rearm, Bool.and_eq_true, hiff]
      refine and_iff_left_of_imp fun hflipped => ?_
      rw [Bool.not_eq_true', decide_eq_false_iff_not]
      intro hmem
      have hnot := habove m.id hmem (hiff.mpr hflipped)
      rw [← hid, isLow_of_mem hold, hwas] at hnot
      cases hnot
    | flag row now number hlock hnumber hunflagged hrow =>
      rw [flagged_flag, flipped_flag, Bool.or_eq_true, decide_eq_true_iff, hiff, or_comm]
      refine or_congr_right ⟨fun heq => ⟨heq.symm, ?_⟩, fun heq => heq.1.symm⟩
      rw [← hperiod]
      exact (hrow.eq hold (hid.trans heq)).2.symm
    | _ => exact hiff
  · rw [hsame, hclear]
    refine ⟨fun h => (by cases h), ?_⟩
    rintro ⟨f, hf, hid, hperiod⟩
    rw [hflips] at hf
    obtain ⟨old, hold, holdId, hle⟩ := hs.seen f hf
    have hlt := hlater old hold (holdId.trans hid)
    omega

/-- A flag is not flipped twice in a period. -/
theorem Change.once (h : Change L s note s') (hs : Sound s n) :
    (s'.flips.map fun f => (f.material, f.period)).Nodup := by
  cases h with
  | flag m now number _ _ hunflagged hlow =>
    obtain ⟨row, hrow, hid, hislow, hperiod⟩ := hlow
    have hflipped : ¬s.Flipped m.id m.period := by
      rw [← hid, ← hperiod, ← hs.flagged row hrow hislow, hid, hunflagged]
      exact Bool.false_ne_true
    simp only [LowStockDb.flag, List.map_append, List.map_singleton, List.nodup_append]
    refine ⟨hs.once, List.nodup_singleton _, fun x hx y hy heq => hflipped ?_⟩
    obtain ⟨f, hf, rfl⟩ := List.mem_map.mp hx
    rw [List.mem_singleton.mp hy] at heq
    exact ⟨f, hf, congrArg Prod.fst heq, congrArg Prod.snd heq⟩
  | _ => exact hs.once

/-- Flips are of materials that are there. -/
theorem Change.seen (h : Change L s note s') (hs : Sound s n) :
    ∀ f ∈ s'.flips, ∃ m ∈ s'.materials, m.id = f.material ∧ f.period ≤ m.period := by
  have hkept : ∀ f ∈ s.flips, ∃ m ∈ s'.materials, m.id = f.material ∧ f.period ≤ m.period := by
    intro f hf
    obtain ⟨m, hm, hid, hle⟩ := hs.seen f hf
    obtain ⟨m', hm', hid', -, hperiod⟩ := h.keeps_material hm
    exact ⟨m', hm', hid'.trans hid, by omega⟩
  cases h with
  | flag m now number _ _ _ hlow =>
    intro f hf
    rcases List.mem_append.mp hf with hf | hf
    · exact hkept f hf
    · obtain ⟨row, hrow, hid, -, hperiod⟩ := hlow
      rw [List.mem_singleton.mp hf]
      exact ⟨row, hrow, hid, hperiod.ge⟩
  | _ => exact hkept

/-- A sweep that is done has left an alert. -/
theorem Change.swept (h : Change L s note s') (hs : Sound s n) :
    ∀ x ∈ s'.swept, s'.Alerted x.1 x.2 := by
  have hkept : ∀ x ∈ s.swept, s'.Alerted x.1 x.2 := fun x hx => h.alerted (hs.swept x hx)
  cases h with
  | complete started hcovered halerted =>
    intro x hx
    rcases List.mem_append.mp hx with hx | hx
    · exact hkept x hx
    · obtain ⟨m, hm, rfl⟩ := List.mem_map.mp hx
      obtain ⟨hm, hstarted⟩ := List.mem_filter.mp hm
      obtain ⟨hlow, hstarted⟩ := of_decide_eq_true hstarted
      rcases hcovered m.id m.period hstarted with hflipped | ⟨row, hrow, hid, hpast⟩
      · exact halerted m hm hlow ((hs.flagged m hm hlow).mpr hflipped)
      · rw [KeyedTable.eq_of_mem hrow hm hid] at hpast
        rcases hpast with hlt | ⟨-, hnot⟩
        · exact absurd hlt (lt_irrefl _)
        · rw [hlow] at hnot
          cases hnot
  | _ => exact hkept

/-- Changes keep flags, flips and alerts in agreement. -/
theorem Change.sound (h : Change L s note s') (hs : Sound s n)
    (hdrawn : ∀ k, L (.number k) → k < n) : Sound s' n where
  numbers f hf := by
    cases h with
    | flag m now number _ hnumber =>
      rcases List.mem_append.mp hf with hf | hf
      · exact hs.numbers f hf
      · rw [List.mem_singleton.mp hf]
        exact hdrawn _ hnumber
    | _ => exact hs.numbers f hf
  once := h.once hs
  seen := h.seen hs
  flagged _ hm hlow := h.flagged_iff hs hm hlow
  flips a ha := by
    cases h with
    | flag => exact List.mem_append_left _ (hs.flips a ha)
    | alert x _ hflip =>
      rcases List.mem_append.mp ha with ha | ha
      · exact hs.flips a ha
      · rw [List.mem_singleton.mp ha]
        exact hflip
    | _ => exact hs.flips a ha
  alerts := by
    cases h with
    | alert a _ _ hnew =>
      rw [List.map_append, List.map_singleton, List.nodup_append]
      refine ⟨hs.alerts, List.nodup_singleton _, fun x hx y hy => ?_⟩
      obtain ⟨b, hb, rfl⟩ := List.mem_map.mp hx
      rw [List.mem_singleton.mp hy]
      exact hnew b hb
    | _ => exact hs.alerts
  swept := h.swept hs

end StelloKitchens.LowStock
