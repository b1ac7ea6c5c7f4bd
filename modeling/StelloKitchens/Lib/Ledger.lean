import Mathlib.Algebra.Order.BigOperators.Group.List
import Mathlib.Algebra.Order.Ring.Int

/-!
# Ledgers

A ledger is a list of entries in the order they were made, each with an account and an amount.
An account stands at the sum of its entries; an entry may also note where its account stands
with it.

## Main definitions

* `Ledger.entries`, `Ledger.total` — the entries of an account, and their sum.
* `Ledger.Running` — every entry notes the sum of the entries up to it.

## Main results

* `Ledger.total_append`, `Ledger.Running.snoc` — a ledger with more entries.
-/

namespace Ledger

variable {ε κ : Type*}

section Accounts

variable [DecidableEq κ] (account : ε → κ) (amount : ε → ℤ)

/-- The entries of an account. -/
def entries (l : List ε) (k : κ) : List ε := l.filter fun e => account e = k

/-- What the entries of an account add up to. -/
def total (l : List ε) (k : κ) : ℤ := ((entries account l k).map amount).sum

variable {account amount} {l : List ε} {k : κ}

theorem mem_entries {e : ε} : e ∈ entries account l k ↔ e ∈ l ∧ account e = k := by
  simp [entries]

@[simp] theorem total_nil : total account amount [] k = 0 := rfl

@[simp] theorem entries_append (l' : List ε) :
    entries account (l ++ l') k = entries account l k ++ entries account l' k :=
  List.filter_append _ _

@[simp] theorem total_append (l' : List ε) :
    total account amount (l ++ l') k = total account amount l k + total account amount l' k := by
  simp [total]

@[simp] theorem entries_singleton (e : ε) :
    entries account [e] k = if account e = k then [e] else [] := by
  by_cases h : account e = k <;> simp [entries, h]

theorem entries_of_ne {l' : List ε} (h : ∀ e ∈ l', account e ≠ k) :
    entries account l' k = [] := by
  simpa [entries] using h

end Accounts

/-! ### Running sums -/

variable {amount after : ε → ℤ} {l : List ε}

variable (amount after) in
/-- Every entry notes the sum of the entries up to it. -/
def Running (l : List ε) : Prop :=
  ∀ before e later, l = before ++ e :: later → after e = ((before ++ [e]).map amount).sum

theorem running_nil : Running amount after [] := fun before e later h => by
  cases before <;> cases h

/-- One entry more, that notes the sum with it. -/
theorem Running.snoc (h : Running amount after l) {e : ε}
    (he : after e = (l.map amount).sum + amount e) : Running amount after (l ++ [e]) := by
  intro before x later hl
  rcases List.eq_nil_or_concat later with rfl | ⟨later, y, rfl⟩
  · obtain ⟨rfl, hx⟩ := List.append_inj' hl rfl
    rw [← List.singleton_inj.mp hx, he]
    simp
  · rw [List.concat_eq_append, ← List.cons_append, ← List.append_assoc] at hl
    exact h before x later (List.append_inj' hl rfl).1

end Ledger
