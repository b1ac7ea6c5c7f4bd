import Mathlib.Algebra.BigOperators.Group.Finset.Piecewise
import Mathlib.Algebra.BigOperators.Group.List.Basic
import StelloKitchens.Lib.KeyedTable

/-!
# Grouping

A loop that gathers what it goes over by a key: it keeps a value for each key it has met, and updates
the value of a key with each element that has it. The value of a key is what the elements that have
it make of the start value, in their order.

## Main definitions

* `Grouping.group` — the table of the keys and their values.

## Main results

* `Grouping.value_group` — the value of a key.
* `Grouping.sum_groups` — sums over the keys are sums over all.
-/

namespace Grouping

variable {α κ M : Type} [DecidableEq κ]

/-- The values of the keys that were met. -/
abbrev Groups (κ M : Type) := KeyedTable (Prod.fst : κ × M → κ)

/-- The value of a key, if it was met. -/
def value (t : Groups κ M) (k : κ) : Option M := (t.find? k).map (·.2)

/-- One element more. -/
def add (key : α → κ) (start : M) (upd : M → α → M) (t : Groups κ M) (a : α) : Groups κ M :=
  t.put (key a, upd ((value t (key a)).getD start) a)

/-- The elements gathered by their keys. -/
def group (key : α → κ) (start : M) (upd : M → α → M) (l : List α) : Groups κ M :=
  l.foldl (add key start upd) .empty

variable {key : α → κ} {start : M} {upd : M → α → M} {t : Groups κ M}

theorem value_add (a : α) (k : κ) : value (add key start upd t a) k =
    if key a = k then some (upd ((value t k).getD start) a) else value t k := by
  unfold add
  by_cases hk : key a = k
  · subst hk
    have hself : (t.put (key a, upd ((value t (key a)).getD start) a)).find? (key a) = some _ :=
      KeyedTable.find?_put_self
    rw [if_pos rfl]
    exact congrArg (Option.map (·.2)) hself
  · have hother : (t.put (key a, upd ((value t (key a)).getD start) a)).find? k = t.find? k :=
      KeyedTable.find?_put_of_ne (Ne.symm hk)
    rw [if_neg hk]
    exact congrArg (Option.map (·.2)) hother

/-- The value of a key, from the elements that have it. -/
theorem value_group (l : List α) (k : κ) : value (group key start upd l) k =
    if (l.filter fun a => key a = k) = [] then none
      else some ((l.filter fun a => key a = k).foldl upd start) := by
  have hfrom : ∀ (l : List α) (t : Groups κ M), value (l.foldl (add key start upd) t) k =
      if (l.filter fun a => key a = k) = [] then value t k
        else some ((l.filter fun a => key a = k).foldl upd ((value t k).getD start)) := by
    intro l
    induction l with
    | nil => exact fun t => rfl
    | cons a l ih =>
      intro t
      rw [List.foldl_cons, ih, value_add]
      by_cases hk : key a = k
      · by_cases hl : (l.filter fun a => key a = k) = []
        · simp [hk, hl]
        · simp [hk, hl]
      · simp [hk]
  rw [group, hfrom]
  rfl

/-- The value of a key, or the start value. -/
theorem getD_value_group (l : List α) (k : κ) : (value (group key start upd l) k).getD start =
    (l.filter fun a => key a = k).foldl upd start := by
  rw [value_group]
  by_cases hl : (l.filter fun a => key a = k) = []
  · rw [if_pos hl, hl]
    rfl
  · rw [if_neg hl]
    rfl

theorem foldl_fst_add {N B : Type} [AddMonoid N] (f : α → N) (g : B → α → B) (l : List α)
    (s : N × B) : (l.foldl (fun r a => (r.1 + f a, g r.2 a)) s).1 = s.1 + (l.map f).sum := by
  induction l generalizing s with
  | nil => simp
  | cons a l ih => rw [List.foldl_cons, ih, List.map_cons, List.sum_cons, add_assoc]

/-- Where the first component is added up, the first component of a key is the sum over its
elements. -/
theorem fst_value_group {N B : Type} [AddMonoid N] (f : α → N) (g : B → α → B) (start : B)
    (l : List α) (k : κ) :
    ((value (group key ((0 : N), start) (fun r a => (r.1 + f a, g r.2 a)) l) k).map (·.1)).getD 0 =
      ((l.filter fun a => key a = k).map f).sum := by
  refine (Option.getD_map (fun r : N × B => r.1) (0, start) _).trans ?_
  rw [getD_value_group, foldl_fst_add, zero_add]

theorem mem_keys_group (l : List α) {a : α} (ha : a ∈ l) :
    key a ∈ (group key start upd l).rows.map Prod.fst := by
  have hvalue := @value_group _ _ _ _ key start upd l (key a)
  have hmem : a ∈ l.filter fun b => key b = key a := List.mem_filter.mpr ⟨ha, by simp⟩
  rw [if_neg (List.ne_nil_of_mem hmem), value] at hvalue
  obtain ⟨r, hr, -⟩ := Option.map_eq_some_iff.mp hvalue
  obtain ⟨hmem, hkey⟩ := KeyedTable.find?_eq_some.mp hr
  exact List.mem_map.mpr ⟨r, hmem, hkey⟩

/-- Every element has one of the keys: sums over the keys of what has them are sums over all. -/
theorem sum_groups {N : Type} [AddCommMonoid N] (f : α → N) (l : List α) :
    ((group key start upd l).rows.map fun g => ((l.filter fun a => key a = g.1).map f).sum).sum =
      (l.map f).sum := by
  have hkeys := (group key start upd l).nodup_keys
  set ks := (group key start upd l).rows.map Prod.fst with hks
  have hsome : ∀ l' : List α, (∀ a ∈ l', key a ∈ ks) →
      (ks.map fun k => ((l'.filter fun a => key a = k).map f).sum).sum = (l'.map f).sum := by
    intro l'
    induction l' with
    | nil => simp
    | cons a l' ih =>
      intro hmem
      obtain ⟨ha, hrest⟩ := List.forall_mem_cons.mp hmem
      have hsplit : ∀ k, (((a :: l').filter fun a => key a = k).map f).sum =
          (if key a = k then f a else 0) + ((l'.filter fun a => key a = k).map f).sum := by
        intro k
        by_cases hk : key a = k <;> simp [hk]
      have hone : (ks.map fun k => if key a = k then f a else 0).sum = f a := by
        rw [← List.sum_toFinset _ hkeys, Finset.sum_ite_eq, if_pos (List.mem_toFinset.mpr ha)]
      simp only [hsplit]
      rw [List.sum_map_add, hone, ih hrest, List.map_cons, List.sum_cons]
  have hall := hsome l fun a ha => mem_keys_group l ha
  rwa [hks, List.map_map] at hall

end Grouping
