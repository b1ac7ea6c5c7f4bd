import StelloKitchens.SaasBilling.Changes

/-!
# The invoice series has no gaps

An invoice draws its number from the counter of its fiscal year in the transaction that makes it.
The counter's row stays locked until that transaction is over, so that the next number is the next
one for whoever comes after it; if the transaction does not commit, the counter is where it was.

## Main definitions

* `SeriesExact` — the invoices of every year have the numbers up to the counter, each one once.

## Main results

* `seriesNumber_inj` — a number tells its year and its place.
* `series_exact` — the series over all interleavings.
-/

namespace StelloKitchens.SaasBilling

open Checked Discipline

/-! ### Numbers -/

theorem counterKey_inj {fy fy' : String} (h : counterKey fy = counterKey fy') : fy = fy' :=
  (String.append_right_inj _).mp h

/-- What comes after the last separator of a list. -/
theorem append_cons_inj_last {α : Type} {x x' z z' : List α} {a : α} (hz : a ∉ z) (hz' : a ∉ z')
    (h : x ++ a :: z = x' ++ a :: z') : x = x' ∧ z = z' := by
  rw [List.append_eq_append_iff] at h
  rcases h with ⟨c, rfl, hc⟩ | ⟨c, rfl, hc⟩
  · cases c with
    | nil => simpa using hc
    | cons b c =>
      obtain ⟨rfl, rfl⟩ := List.cons_eq_cons.mp hc
      exact absurd (List.mem_append_right _ List.mem_cons_self) hz
  · cases c with
    | nil => simpa [eq_comm] using hc
    | cons b c =>
      obtain ⟨rfl, rfl⟩ := List.cons_eq_cons.mp hc
      exact absurd (List.mem_append_right _ List.mem_cons_self) hz'

/-- A number tells its year and its place. -/
theorem seriesNumber_inj {fy fy' : String} {n n' : ℕ} (h : seriesNumber fy n = seriesNumber fy' n') :
    fy = fy' ∧ n = n' := by
  have hdigit : ∀ m, '/' ∉ (padStart 5 (toString m)).toList := fun m hm =>
    absurd (isDigit_padStart hm) (by decide)
  have hlist : ∀ fy n, (seriesNumber fy n).toList =
      ("STL/".toList ++ fy.toList) ++ '/' :: (padStart 5 (toString n)).toList := by
    intro fy n
    simp only [seriesNumber, String.toList_append, List.append_assoc]
    rfl
  have hsplit := congrArg String.toList h
  rw [hlist, hlist] at hsplit
  obtain ⟨hfy, hn⟩ := append_cons_inj_last (hdigit n) (hdigit n') hsplit
  refine ⟨String.toList_injective (List.append_cancel_left hfy), ?_⟩
  rw [← ofDigitChars_padStart 5 n, hn, ofDigitChars_padStart]

/-! ### The series -/

/-- The invoices of every year have the numbers up to the counter, each one once. -/
structure SeriesExact (db : BillingDb) : Prop where
  numbered : ∀ i ∈ db.invoices, ∃ fy n, i.number = seriesNumber fy n
  exact : ∀ fy n, (∃ i ∈ db.invoices, i.number = seriesNumber fy n) ↔
    1 ≤ n ∧ n ≤ db.counters (counterKey fy)
  once : ∀ i ∈ db.invoices, ∀ j ∈ db.invoices, i.number = j.number → i = j

theorem Unsubscribed.seriesExact {db : BillingDb} {n : ℕ} (h : Unsubscribed db n) :
    SeriesExact db := by
  have hnone : ∀ i, i ∉ db.invoices := h.invoices ▸ KeyedTable.notMem_empty
  refine ⟨fun i hi => absurd hi (hnone i), fun fy k => ⟨?_, fun hk => ?_⟩,
    fun i hi => absurd hi (hnone i)⟩
  · rintro ⟨i, hi, -⟩
    exact absurd hi (hnone i)
  · have := h.counters (counterKey fy)
    omega

/-- Every commit keeps the series. -/
theorem Commit.seriesExact {L : Hold LockKey → Prop} {s s' : BillingDb} {note : Note}
    (h : Commit L s note s') (hs : SeriesExact s) : SeriesExact s' := by
  cases h.invoiced with
  | keep f _ hid hnumber hrows hcounters =>
    have hmem : ∀ {i}, i ∈ s'.invoices ↔ ∃ j ∈ s.invoices, f j = i := by
      intro i
      rw [KeyedTable.mem_def, hrows, List.mem_map]
      rfl
    refine ⟨fun i hi => ?_, fun fy n => ?_, fun i hi j hj heq => ?_⟩
    · obtain ⟨j, hj, rfl⟩ := hmem.mp hi
      rw [hnumber]
      exact hs.numbered j hj
    · rw [hcounters, ← hs.exact fy n]
      constructor
      · rintro ⟨i, hi, heq⟩
        obtain ⟨j, hj, rfl⟩ := hmem.mp hi
        exact ⟨j, hj, (hnumber j).symm.trans heq⟩
      · rintro ⟨j, hj, heq⟩
        exact ⟨f j, hmem.mpr ⟨j, hj, rfl⟩, (hnumber j).trans heq⟩
    · obtain ⟨i₀, hi₀, rfl⟩ := hmem.mp hi
      obtain ⟨j₀, hj₀, rfl⟩ := hmem.mp hj
      rw [hnumber, hnumber] at heq
      rw [hs.once i₀ hi₀ j₀ hj₀ heq]
  | create inv fy _ _ hnew hnext hinvoices hcounters =>
    have hmem : ∀ {i}, i ∈ s'.invoices ↔ i = inv ∨ i ∈ s.invoices := by
      intro i
      rw [hinvoices, KeyedTable.mem_put]
      exact or_congr_right ⟨And.left, fun hi => ⟨hi, hnew i hi⟩⟩
    -- the number is beyond those of its year so far
    have hbeyond : ∀ i ∈ s.invoices, i.number ≠ inv.number := by
      intro i hi heq
      have := ((hs.exact fy _).mp ⟨i, hi, heq.trans hnext⟩).2
      omega
    refine ⟨fun i hi => ?_, fun fy' n => ?_, fun i hi j hj heq => ?_⟩
    · rcases hmem.mp hi with rfl | hi
      · exact ⟨fy, _, hnext⟩
      · exact hs.numbered i hi
    · have hold := hs.exact fy' n
      have hiff : (∃ i ∈ s'.invoices, i.number = seriesNumber fy' n) ↔
          inv.number = seriesNumber fy' n ∨ ∃ i ∈ s.invoices, i.number = seriesNumber fy' n := by
        simp only [hmem, or_and_right, exists_or, exists_eq_left]
      rw [hiff, hold, hcounters]
      beta_reduce
      by_cases hfy : fy' = fy
      · subst hfy
        rw [if_pos rfl]
        constructor
        · rintro (heq | hle)
          · obtain ⟨-, rfl⟩ := seriesNumber_inj (hnext.symm.trans heq)
            omega
          · omega
        · intro hle
          by_cases hn : n = s.counters (counterKey fy') + 1
          · exact .inl (hn ▸ hnext)
          · exact .inr (by omega)
      · rw [if_neg fun heq => hfy (counterKey_inj heq)]
        refine ⟨fun h => h.resolve_left fun heq => hfy ?_, .inr⟩
        exact (seriesNumber_inj (hnext.symm.trans heq)).1.symm
    · rcases hmem.mp hi with rfl | hi <;> rcases hmem.mp hj with rfl | hj
      · rfl
      · exact absurd heq.symm (hbeyond j hj)
      · exact absurd heq (hbeyond i hi)
      · exact hs.once i hi j hj heq

/-- Over all interleavings, the invoices of every fiscal year are numbered from one up to the year's
counter, each number once. -/
theorem series_exact (w : LifecycleWorld) (h : lifecycle.Reachable w) : SeriesExact w.db := by
  have hreach : lifecycle.Reach (World.Admits fun _ _ _ => True) w :=
    h.mono fun w a _ => World.admits_of_forall (fun _ _ _ => trivial) w a
  exact Changes.invariant run_kept (fun _ _ => Unsubscribed.sound)
    (fun _ _ => Unsubscribed.seriesExact) (fun _ _ _ _ _ _ _ hcommit => Commit.seriesExact hcommit)
    hreach

/-- A kitchen that subscribes gets the first number of its year. -/
theorem series_exact_first :
    let w := afterRun (answered 1 subscribeMonthly (.paid (some "pay_1")))
    w.db.invoices.rows.map (·.number) = ["STL/1969-70/00001"] ∧ SeriesExact w.db :=
  ⟨by decide +kernel, series_exact _ (Machine.reachable_run _
    (.init ⟨newKitchen_unsubscribed, rfl, rfl⟩))⟩

end StelloKitchens.SaasBilling
