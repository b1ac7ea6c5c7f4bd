import Mathlib.Data.List.Nodup
import Mathlib.Data.List.Perm.Basic

/-!
# Tables with a primary key

A table is its rows in insertion order, together with the fact that no two rows have the same
key. The operations are those a program uses on a relational table: lookup by key, insertion
that either replaces the row with that key or appends, an update of the rows that satisfy a
condition, and deletion of the rows that satisfy one.

## Main definitions

* `KeyedTable key` — the tables whose rows are told apart by `key`.
* `KeyedTable.find?`, `KeyedTable.upsert`, `KeyedTable.modify`, `KeyedTable.delete`.

## Main results

* `KeyedTable.find?_eq_some` — lookup finds exactly the row with the key.
* `KeyedTable.mem_upsert`, `KeyedTable.mem_modify`, `KeyedTable.mem_delete` — the rows after
  each operation.
* `KeyedTable.perm_cons_others` — a row and the others make up the table.
-/

/-- Rows in insertion order, no two with the same key. -/
structure KeyedTable {ρ κ : Type*} (key : ρ → κ) where
  /-- The rows. -/
  rows : List ρ
  /-- The key is unique. -/
  nodup_keys : (rows.map key).Nodup

namespace KeyedTable

variable {ρ κ : Type*} {key : ρ → κ}

@[ext] theorem ext {s t : KeyedTable key} (h : s.rows = t.rows) : s = t := by
  cases s
  cases t
  simpa using h

instance [DecidableEq ρ] : DecidableEq (KeyedTable key) := fun s t =>
  decidable_of_iff (s.rows = t.rows) ⟨ext, congrArg rows⟩

/-- The table without rows. -/
def empty : KeyedTable key := ⟨[], List.nodup_nil⟩

instance : Inhabited (KeyedTable key) := ⟨empty⟩

instance : Membership ρ (KeyedTable key) := ⟨fun t r => r ∈ t.rows⟩

theorem mem_def {r : ρ} {t : KeyedTable key} : r ∈ t ↔ r ∈ t.rows := Iff.rfl

@[simp] theorem notMem_empty (r : ρ) : r ∉ (empty : KeyedTable key) := List.not_mem_nil

/-- Two rows with the same key are the same row. -/
theorem eq_of_mem {t : KeyedTable key} {r s : ρ} (hr : r ∈ t) (hs : s ∈ t)
    (h : key r = key s) : r = s :=
  List.inj_on_of_nodup_map t.nodup_keys hr hs h

/-- The only row with a property. -/
theorem filter_eq_singleton {t : KeyedTable key} {r : ρ} {p : ρ → Bool} (hr : r ∈ t)
    (hp : p r = true) (h : ∀ s ∈ t, p s = true → key s = key r) : t.rows.filter p = [r] := by
  have hall : ∀ s ∈ t.rows.filter p, s = r := by
    intro s hs
    obtain ⟨hs, hps⟩ := List.mem_filter.mp hs
    exact eq_of_mem hs hr (h s hs hps)
  have hnodup : (t.rows.filter p).Nodup := t.nodup_keys.of_map.filter p
  have hmem : r ∈ t.rows.filter p := List.mem_filter.mpr ⟨hr, hp⟩
  rw [List.eq_replicate_of_mem hall] at hnodup hmem ⊢
  rw [List.nodup_replicate] at hnodup
  have hpos := List.length_pos_of_mem hmem
  rw [List.length_replicate] at hpos
  rw [Nat.le_antisymm hnodup hpos]
  rfl

/-! ### Lookup -/

section Lookup

variable [DecidableEq κ]

/-- The row with a key. -/
def find? (t : KeyedTable key) (k : κ) : Option ρ := t.rows.find? fun r => key r = k

theorem find?_eq_some {t : KeyedTable key} {k : κ} {r : ρ} :
    t.find? k = some r ↔ r ∈ t ∧ key r = k := by
  constructor
  · intro h
    exact ⟨List.mem_of_find?_eq_some h, by simpa using List.find?_some h⟩
  · rintro ⟨hr, hk⟩
    obtain ⟨s, hs⟩ : ∃ s, t.find? k = some s := by
      rw [find?, ← Option.isSome_iff_exists, List.find?_isSome]
      exact ⟨r, hr, by simpa using hk⟩
    have hsk : key s = k := by simpa using List.find?_some hs
    have hmem : s ∈ t := List.mem_of_find?_eq_some hs
    rw [hs, eq_of_mem hmem hr (hsk.trans hk.symm)]

theorem find?_eq_none {t : KeyedTable key} {k : κ} :
    t.find? k = none ↔ ∀ r ∈ t, key r ≠ k := by
  simp [find?, mem_def]

theorem find?_of_mem {t : KeyedTable key} {r : ρ} (h : r ∈ t) : t.find? (key r) = some r :=
  find?_eq_some.mpr ⟨h, rfl⟩

@[simp] theorem find?_empty (k : κ) : (empty : KeyedTable key).find? k = none := rfl

end Lookup

/-! ### Updating and deleting rows -/

/-- Update the rows that satisfy a condition, keeping their keys. -/
def modify (t : KeyedTable key) (p : ρ → Bool) (f : ρ → ρ)
    (hf : ∀ r, key (f r) = key r) :
    KeyedTable key where
  rows := t.rows.map fun r => if p r then f r else r
  nodup_keys := by
    have hkeys : (t.rows.map fun r => if p r then f r else r).map key = t.rows.map key := by
      rw [List.map_map]
      apply List.map_congr_left
      intro r _
      simp only [Function.comp_apply]
      split
      · exact hf r
      · rfl
    rw [hkeys]
    exact t.nodup_keys

/-- Delete the rows that satisfy a condition. -/
def delete (t : KeyedTable key) (p : ρ → Bool) : KeyedTable key where
  rows := t.rows.filter fun r => !p r
  nodup_keys := t.nodup_keys.sublist (List.filter_sublist.map key)

section Modify

variable {t : KeyedTable key} {p : ρ → Bool} {f : ρ → ρ} (hf : ∀ r, key (f r) = key r)

theorem mem_modify {x : ρ} :
    x ∈ t.modify p f hf ↔ ∃ r ∈ t, x = if p r then f r else r := by
  rw [mem_def, modify, List.mem_map]
  exact exists_congr fun r => and_congr_right fun _ => eq_comm

theorem mem_delete {x : ρ} : x ∈ t.delete p ↔ x ∈ t ∧ p x = false := by
  simp [mem_def, delete]

variable [DecidableEq κ]

theorem find?_modify (k : κ) :
    (t.modify p f hf).find? k = (t.find? k).map fun r => if p r then f r else r := by
  cases h : t.find? k with
  | none =>
    rw [Option.map_none, find?_eq_none]
    intro x hx
    obtain ⟨r, hr, rfl⟩ := (mem_modify hf).mp hx
    have := find?_eq_none.mp h r hr
    split
    · rwa [hf]
    · exact this
  | some r =>
    obtain ⟨hr, rfl⟩ := find?_eq_some.mp h
    rw [Option.map_some, find?_eq_some]
    refine ⟨(mem_modify hf).mpr ⟨r, hr, rfl⟩, ?_⟩
    split
    · exact hf r
    · rfl

/-- A row that is not updated. -/
theorem find?_modify_of_not {k : κ} (h : ∀ r ∈ t, key r = k → p r = false) :
    (t.modify p f hf).find? k = t.find? k := by
  rw [find?_modify]
  cases hfind : t.find? k with
  | none => rfl
  | some r =>
    obtain ⟨hr, hk⟩ := find?_eq_some.mp hfind
    rw [Option.map_some, h r hr hk]
    rfl

theorem find?_delete (k : κ) :
    (t.delete p).find? k = (t.find? k).filter fun r => !p r := by
  cases h : t.find? k with
  | none =>
    rw [Option.filter_none, find?_eq_none]
    intro x hx
    exact find?_eq_none.mp h x (mem_delete.mp hx).1
  | some r =>
    obtain ⟨hr, rfl⟩ := find?_eq_some.mp h
    cases hp : p r with
    | false =>
      rw [Option.filter_some_pos (by simp [hp]), find?_eq_some]
      exact ⟨mem_delete.mpr ⟨hr, hp⟩, rfl⟩
    | true =>
      rw [Option.filter_some_neg (by simp [hp]), find?_eq_none]
      intro x hx hk
      obtain ⟨hx, hpx⟩ := mem_delete.mp hx
      rw [eq_of_mem hx hr hk, hp] at hpx
      cases hpx

/-- A row that is not deleted. -/
theorem find?_delete_of_not {k : κ} (h : ∀ r ∈ t, key r = k → p r = false) :
    (t.delete p).find? k = t.find? k := by
  rw [find?_delete]
  cases hfind : t.find? k with
  | none => rfl
  | some r =>
    obtain ⟨hr, hk⟩ := find?_eq_some.mp hfind
    rw [Option.filter_some_pos (by rw [h r hr hk]; rfl)]

end Modify

/-! ### Insert or update -/

section Upsert

variable [DecidableEq κ]

/-- Insert a row, or update the row that has its key. -/
def upsert (t : KeyedTable key) (new : ρ) (set : ρ → ρ)
    (hset : ∀ r, key r = key new → key (set r) = key new) : KeyedTable key :=
  if h : (t.find? (key new)).isSome then
    { rows := t.rows.map fun r => if key r = key new then set r else r
      nodup_keys := by
        have hkeys : (t.rows.map fun r => if key r = key new then set r else r).map key =
            t.rows.map key := by
          rw [List.map_map]
          apply List.map_congr_left
          intro r _
          simp only [Function.comp_apply]
          split
          · rename_i hr
            rw [hset r hr, hr]
          · rfl
        rw [hkeys]
        exact t.nodup_keys }
  else
    { rows := t.rows ++ [new]
      nodup_keys := by
        rw [Option.not_isSome_iff_eq_none, find?_eq_none] at h
        rw [List.map_append, List.nodup_append]
        refine ⟨t.nodup_keys, List.nodup_singleton _, ?_⟩
        intro a ha b hb
        obtain ⟨r, hr, rfl⟩ := List.mem_map.mp ha
        rw [List.map_singleton, List.mem_singleton] at hb
        rw [hb]
        exact h r hr }

/-- Insert a row, replacing the row that has its key. -/
def put (t : KeyedTable key) (new : ρ) : KeyedTable key := t.upsert new (fun _ => new) fun _ _ => rfl

variable {t : KeyedTable key} {new : ρ} {set : ρ → ρ}
  (hset : ∀ r, key r = key new → key (set r) = key new)

theorem rows_upsert_of_some {old : ρ} (h : t.find? (key new) = some old) :
    (t.upsert new set hset).rows = t.rows.map fun r => if key r = key new then set r else r := by
  rw [upsert, dif_pos (by rw [h]; rfl)]

theorem rows_upsert_of_none (h : t.find? (key new) = none) :
    (t.upsert new set hset).rows = t.rows ++ [new] := by
  rw [upsert, dif_neg (by rw [h]; exact Bool.false_ne_true)]

theorem find?_upsert_self :
    (t.upsert new set hset).find? (key new) = some ((t.find? (key new)).elim new set) := by
  cases h : t.find? (key new) with
  | none =>
    rw [Option.elim_none, find?_eq_some, mem_def, rows_upsert_of_none hset h]
    exact ⟨by simp, rfl⟩
  | some old =>
    obtain ⟨hold, hk⟩ := find?_eq_some.mp h
    rw [Option.elim_some, find?_eq_some, mem_def, rows_upsert_of_some hset h]
    exact ⟨List.mem_map.mpr ⟨old, hold, by rw [if_pos hk]⟩, hset old hk⟩

theorem mem_upsert {x : ρ} :
    x ∈ t.upsert new set hset ↔
      x = (t.find? (key new)).elim new set ∨ (x ∈ t ∧ key x ≠ key new) := by
  cases h : t.find? (key new) with
  | none =>
    rw [mem_def, rows_upsert_of_none hset h, List.mem_append, List.mem_singleton, Option.elim_none,
      or_comm]
    refine or_congr Iff.rfl ⟨fun hx => ⟨hx, find?_eq_none.mp h x hx⟩, And.left⟩
  | some old =>
    obtain ⟨hold, hk⟩ := find?_eq_some.mp h
    rw [mem_def, rows_upsert_of_some hset h, List.mem_map, Option.elim_some]
    constructor
    · rintro ⟨r, hr, rfl⟩
      by_cases hrk : key r = key new
      · rw [if_pos hrk, eq_of_mem hr hold (hrk.trans hk.symm)]
        exact .inl rfl
      · rw [if_neg hrk]
        exact .inr ⟨hr, hrk⟩
    · rintro (rfl | ⟨hx, hne⟩)
      · exact ⟨old, hold, by rw [if_pos hk]⟩
      · exact ⟨x, hx, by rw [if_neg hne]⟩

theorem find?_upsert_of_ne {k : κ} (hne : k ≠ key new) :
    (t.upsert new set hset).find? k = t.find? k := by
  have hself : key ((t.find? (key new)).elim new set) = key new := by
    cases h : t.find? (key new) with
    | none => rfl
    | some old => exact hset old (find?_eq_some.mp h).2
  cases h : t.find? k with
  | none =>
    rw [find?_eq_none]
    intro x hx
    rcases (mem_upsert hset).mp hx with rfl | ⟨hx, -⟩
    · rw [hself]
      exact hne.symm
    · exact find?_eq_none.mp h x hx
  | some r =>
    obtain ⟨hr, rfl⟩ := find?_eq_some.mp h
    exact find?_eq_some.mpr ⟨(mem_upsert hset).mpr (.inr ⟨hr, hne⟩), rfl⟩

theorem mem_put {x : ρ} : x ∈ t.put new ↔ x = new ∨ (x ∈ t ∧ key x ≠ key new) := by
  rw [put, mem_upsert fun _ _ => rfl]
  cases t.find? (key new) <;> rfl

/-- A row under a new key comes last. -/
theorem rows_put_of_new (h : ∀ r ∈ t, key r ≠ key new) : (t.put new).rows = t.rows ++ [new] :=
  rows_upsert_of_none _ (find?_eq_none.mpr h)

theorem find?_put_self : (t.put new).find? (key new) = some new := by
  rw [put, find?_upsert_self fun _ _ => rfl]
  cases t.find? (key new) <;> rfl

theorem find?_put_of_ne {k : κ} (hne : k ≠ key new) : (t.put new).find? k = t.find? k :=
  find?_upsert_of_ne (fun _ _ => rfl) hne

end Upsert

/-! ### A row and the others -/

section Others

variable [DecidableEq κ]

/-- The rows with another key. -/
def others (t : KeyedTable key) (k : κ) : List ρ := t.rows.filter fun r => key r ≠ k

/-- A row and the others make up the table. -/
theorem perm_cons_others {t : KeyedTable key} {r : ρ} (h : r ∈ t) :
    t.rows.Perm (r :: t.others (key r)) := by
  have hsame : t.rows.filter (fun s => key s = key r) = [r] := by
    have hnodup : (t.rows.filter fun s => key s = key r).Nodup :=
      (List.Nodup.of_map key t.nodup_keys).filter _
    apply List.perm_singleton.mp
    apply (List.perm_ext_iff_of_nodup hnodup (List.nodup_singleton r)).mpr
    intro s
    simp only [List.mem_filter, decide_eq_true_eq, List.mem_singleton]
    constructor
    · rintro ⟨hs, hk⟩
      exact eq_of_mem hs h hk
    · rintro rfl
      exact ⟨h, rfl⟩
  have hsplit := (List.filter_append_perm (fun s => decide (key s = key r)) t.rows).symm
  rw [hsame] at hsplit
  simpa [others] using hsplit

/-- Without a row of a key, the others are all rows. -/
theorem others_of_none {t : KeyedTable key} {k : κ} (h : t.find? k = none) :
    t.others k = t.rows := by
  rw [others, List.filter_eq_self]
  intro r hr
  simpa using find?_eq_none.mp h r hr

theorem others_upsert {t : KeyedTable key} {new : ρ} {set : ρ → ρ}
    (hset : ∀ r, key r = key new → key (set r) = key new) :
    (t.upsert new set hset).others (key new) = t.others (key new) := by
  cases h : t.find? (key new) with
  | none =>
    rw [others, rows_upsert_of_none hset h, List.filter_append]
    simp [others]
  | some old =>
    rw [others, rows_upsert_of_some hset h, others, List.filter_map]
    generalize t.rows = rows
    induction rows with
    | nil => rfl
    | cons r rows ih =>
      by_cases hr : key r = key new
      · simp only [List.filter_cons, Function.comp_apply, if_pos hr, hset r hr]
        simpa [hr] using ih
      · simp only [List.filter_cons, Function.comp_apply, if_neg hr]
        simpa [hr] using ih

/-- After an insert or update, the table is the new row and the others of before. -/
theorem perm_upsert {t : KeyedTable key} {new : ρ} {set : ρ → ρ}
    (hset : ∀ r, key r = key new → key (set r) = key new) :
    (t.upsert new set hset).rows.Perm
      ((t.find? (key new)).elim new set :: t.others (key new)) := by
  have hfind := find?_upsert_self (t := t) hset
  obtain ⟨hmem, hk⟩ := find?_eq_some.mp hfind
  have h := perm_cons_others hmem
  rwa [hk, others_upsert hset] at h

end Others

/-! ### Several rows -/

section Several

variable [DecidableEq κ] {t : KeyedTable key} {rows : List ρ} {r : ρ} {k : κ}

theorem mem_foldl_put (h : r ∈ rows.foldl .put t) : r ∈ rows ∨ r ∈ t := by
  induction rows generalizing t with
  | nil => exact .inr h
  | cons q rows ih =>
    rcases ih h with h | h
    · exact .inl (List.mem_cons_of_mem _ h)
    · rcases mem_put.mp h with rfl | ⟨h, -⟩
      · exact .inl List.mem_cons_self
      · exact .inr h

theorem find?_foldl_put_of_ne (hne : ∀ q ∈ rows, k ≠ key q) :
    (rows.foldl .put t).find? k = t.find? k := by
  induction rows generalizing t with
  | nil => rfl
  | cons q rows ih =>
    exact (ih fun q hq => hne q (List.mem_cons_of_mem _ hq)).trans
      (find?_put_of_ne (hne q List.mem_cons_self))

theorem mem_foldl_put_of_ne (hr : r ∈ t) (hne : ∀ q ∈ rows, key r ≠ key q) :
    r ∈ rows.foldl .put t := by
  induction rows generalizing t with
  | nil => exact hr
  | cons q rows ih =>
    exact ih (mem_put.mpr (.inr ⟨hr, hne q List.mem_cons_self⟩))
      fun q hq => hne q (List.mem_cons_of_mem _ hq)

theorem exists_foldl_put (h : (∃ r ∈ rows, key r = k) ∨ ∃ r ∈ t, key r = k) :
    ∃ r ∈ rows.foldl .put t, key r = k := by
  induction rows generalizing t with
  | nil => exact h.resolve_left fun ⟨_, hr, _⟩ => absurd hr List.not_mem_nil
  | cons q rows ih =>
    refine ih ?_
    rcases h with ⟨r, hr, hid⟩ | ⟨r, hr, hid⟩
    · rcases List.mem_cons.mp hr with rfl | hr
      · exact .inr ⟨r, mem_put.mpr (.inl rfl), hid⟩
      · exact .inl ⟨r, hr, hid⟩
    · by_cases hq : key r = key q
      · exact .inr ⟨q, mem_put.mpr (.inl rfl), hq.symm.trans hid⟩
      · exact .inr ⟨r, mem_put.mpr (.inr ⟨hr, hq⟩), hid⟩

end Several

end KeyedTable
