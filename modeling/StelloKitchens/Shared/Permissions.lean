import Mathlib.Data.List.Dedup

/-!
# Permissions

A role grants a list of permission keys; `"*"` grants everything.

## Main definitions

* `hasPermission`, `isOwnerLevel` — what is granted.
* `missingPermissions` — what is asked for beyond what is held.

## Main results

* `missingPermissions_eq_nil` — nothing is missing when everything asked for is granted.
-/

namespace StelloKitchens

/-- A list without repetitions, as a `Set` of it is read. -/
def distinct (keys : List String) : List String := keys.reverse.dedup.reverse

/-- What is held grants a permission; `"*"` grants everything. -/
def hasPermission (held : List String) (perm : String) : Bool :=
  held.contains "*" || held.contains perm

/-- The keys asked for that what is held does not cover; to grant `"*"` one has to hold it. -/
def missingPermissions (held requested : List String) : List String :=
  if held.contains "*" then []
  else (distinct requested).filter fun p => p = "*" ∨ p ∉ held

/-- To hold the wildcard. -/
def isOwnerLevel (permissions : List String) : Bool := permissions.contains "*"

theorem mem_distinct {keys : List String} {p : String} : p ∈ distinct keys ↔ p ∈ keys := by
  simp [distinct]

theorem hasPermission_iff {held : List String} {perm : String} :
    hasPermission held perm = true ↔ "*" ∈ held ∨ perm ∈ held := by
  simp [hasPermission]

/-- Nothing is missing when everything that is asked for is granted. -/
theorem missingPermissions_eq_nil {held requested : List String} :
    missingPermissions held requested = [] ↔ ∀ p ∈ requested, hasPermission held p = true := by
  unfold missingPermissions
  by_cases hall : "*" ∈ held
  · rw [if_pos (List.contains_iff_mem.mpr hall)]
    simp [hasPermission_iff, hall]
  · rw [if_neg (by simpa using hall), List.filter_eq_nil_iff]
    refine ⟨fun h p hp => ?_, fun h p hp => ?_⟩
    · have hheld := h p (mem_distinct.mpr hp)
      rw [decide_eq_true_eq, not_or, not_not] at hheld
      exact hasPermission_iff.mpr (.inr hheld.2)
    · have hheld := (hasPermission_iff.mp (h p (mem_distinct.mp hp))).resolve_left hall
      rw [decide_eq_true_eq, not_or, not_not]
      exact ⟨fun hstar => hall (hstar ▸ hheld), hheld⟩

/-- What covers all that is held covers what that covers. -/
theorem missingPermissions_trans {a b c : List String} (hab : missingPermissions a b = [])
    (hbc : missingPermissions b c = []) : missingPermissions a c = [] := by
  rw [missingPermissions_eq_nil] at hab hbc ⊢
  intro p hp
  rcases hasPermission_iff.mp (hbc p hp) with hstar | hheld
  · have hall := hab "*" hstar
    rw [hasPermission_iff, or_self] at hall
    exact hasPermission_iff.mpr (.inl hall)
  · exact hab p hheld

/-- Nothing is missing of a part of what is covered. -/
theorem missingPermissions_of_subset {held requested part : List String}
    (h : missingPermissions held requested = []) (hpart : part ⊆ requested) :
    missingPermissions held part = [] := by
  rw [missingPermissions_eq_nil] at h ⊢
  exact fun p hp => h p (hpart hp)

theorem missingPermissions_distinct {held keys : List String} :
    missingPermissions held (distinct keys) = [] ↔ missingPermissions held keys = [] := by
  simp only [missingPermissions_eq_nil, mem_distinct]

end StelloKitchens
