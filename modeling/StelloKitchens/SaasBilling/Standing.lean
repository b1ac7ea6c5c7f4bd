import StelloKitchens.SaasBilling.Changes

/-!
# Moves of the table

A subscription moves by an event under the lock of its row, from the status it has by then, and the
tenant moves with it. What the event was due for is not looked at again: a cycle moves what it has
listed, and a trial is extended of whoever was on trial or suspended. Where what a subscription was
listed for still stands in its row, and trials alone are extended, every move is one of the table,
and due.

## Main definitions

* `TenantSubscription.StandsIn` — what a subscription was listed for still stands.
* `standingAdmits` — what is moved is as it was listed.
* `Mirrored` — tenants have the status of their subscription.

## Main results

* `lifecycle_standing` — the moves over all interleavings.
-/

namespace StelloKitchens.SaasBilling

open Checked Discipline

/-- What a subscription was listed for still stands in its row. -/
def TenantSubscription.StandsIn (listed row : TenantSubscription) : Prop :=
  match listed.status with
  | .trial => row.trialEndsAt = listed.trialEndsAt
  | .pastDue => row.graceEndsAt = listed.graceEndsAt
  | .active => row.currentPeriodEnd = listed.currentPeriodEnd ∧
      row.cancelAtPeriodEnd = listed.cancelAtPeriodEnd
  | _ => True

instance (listed row : TenantSubscription) : Decidable (listed.StandsIn row) := by
  unfold TenantSubscription.StandsIn
  cases listed.status <;> infer_instance

/-- A cycle moves what stands as it was listed, and a trial is extended of whoever is on trial. -/
def standingAdmits : Note → (Hold LockKey → Prop) → BillingDb → Prop
  | .cycle listed, _, s => ∀ row ∈ s.subscriptions.rows, row.tenantId = listed.tenantId →
      listed.StandsIn row
  | .extendTrial tenantId, _, s => ∀ row ∈ s.subscriptions.rows, row.tenantId = tenantId →
      row.status = .trial
  | _, _, _ => True

instance (note : Note) (held : List (Hold LockKey)) (s : BillingDb) :
    Decidable (standingAdmits note (· ∈ held) s) :=
  match note with
  | .cycle listed => inferInstanceAs (Decidable (∀ row ∈ s.subscriptions.rows,
      row.tenantId = listed.tenantId → listed.StandsIn row))
  | .extendTrial tenantId => inferInstanceAs (Decidable (∀ row ∈ s.subscriptions.rows,
      row.tenantId = tenantId → row.status = .trial))
  | .plain | .invoice _ _ | .paid _ | .failed _ | .redelivery _ => .isTrue trivial

/-- Tenants have the status of their subscription. -/
def Mirrored (db : BillingDb) : Prop :=
  ∀ sub ∈ db.subscriptions, db.tenantStatus sub.tenantId = some (tenantStatusFor sub.status)

/-- A subscription goes from one status to another as the table has it. -/
def TableMove (status status' : SubscriptionStatus) : Prop :=
  status' = status ∨ ∃ event, nextSubscriptionStatus status event = some status'

variable {L : Hold LockKey → Prop} {s s' : BillingDb} {note : Note}

theorem Unsubscribed.mirrored {db : BillingDb} {n : ℕ} (h : Unsubscribed db n) : Mirrored db := by
  intro sub hsub
  rw [h.subscriptions] at hsub
  exact absurd hsub (KeyedTable.notMem_empty sub)

theorem Commit.mirrored (h : Commit L s note s')
    (hone : ∀ a ∈ s.subscriptions, ∀ b ∈ s.subscriptions, a.tenantId = b.tenantId → a = b)
    (hs : Mirrored s) : Mirrored s' := by
  intro sub hsub
  cases h.moves with
  | stay hsubscriptions htenants =>
    rw [htenants]
    exact hs sub (hsubscriptions ▸ hsub)
  | first new _ _ _ _ hmirror hsubscriptions htenants =>
    rw [hsubscriptions, KeyedTable.mem_put] at hsub
    rw [htenants]
    rcases hsub with rfl | ⟨hsub, -⟩
    · exact hmirror
    · exact hs sub hsub
  | rewrite row row' _ _ hrewrite =>
    rcases (hrewrite.mem sub).mp hsub with rfl | ⟨hsub, hne⟩
    · rw [hrewrite.tenantId]
      rcases hrewrite.tenants with htenants | ⟨hstatus, htenants⟩
      · rw [htenants]
        exact if_pos rfl
      · rw [htenants, hstatus]
        exact hs row hrewrite.here
    · have hother : sub.tenantId ≠ row.tenantId := fun heq =>
        hne (congrArg (·.id) (hone sub hsub row hrewrite.here heq))
      rcases hrewrite.tenants with htenants | ⟨-, htenants⟩
      · rw [htenants]
        exact (if_neg hother).trans (hs sub hsub)
      · rw [htenants]
        exact hs sub hsub

/-- What is listed for an event, and stands, is due for it if the table has the move. -/
theorem TenantSubscription.StandsIn.lapsed {listed row : TenantSubscription}
    {event : SubscriptionEvent} {now : Time} {status : SubscriptionStatus} (h : listed.StandsIn row)
    (hlapsed : listed.Lapsed event now) (hnext : nextSubscriptionStatus row.status event = some status) :
    row.Lapsed event now := by
  cases event with
  | trialExpired =>
    obtain ⟨hstatus, hend⟩ := hlapsed
    simp only [TenantSubscription.StandsIn, hstatus] at h
    refine ⟨?_, h ▸ hend⟩
    cases hrow : row.status <;> rw [hrow] at hnext <;> first | rfl | cases hnext
  | graceExpired =>
    obtain ⟨hstatus, hend⟩ := hlapsed
    simp only [TenantSubscription.StandsIn, hstatus] at h
    refine ⟨?_, h ▸ hend⟩
    cases hrow : row.status <;> rw [hrow] at hnext <;> first | rfl | cases hnext
  | periodEnded =>
    obtain ⟨hstatus, hend, hcancel⟩ := hlapsed
    simp only [TenantSubscription.StandsIn, hstatus] at h
    refine ⟨?_, h.1 ▸ hend, h.2.trans hcancel⟩
    cases hrow : row.status <;> rw [hrow] at hnext <;> first | rfl | cases hnext
  | paymentSucceeded => exact hlapsed.elim
  | paymentFailed => exact hlapsed.elim
  | cancel => exact hlapsed.elim
  | adminSuspend => exact hlapsed.elim
  | adminReactivate => exact hlapsed.elim

/-- Why a subscription is rewritten makes it a move of the table, and due if a cycle makes it. -/
theorem Cause.standing {row row' : TenantSubscription} {steps : List CycleStep}
    (h : Cause note row row' steps) (hrow : row ∈ s.subscriptions)
    (hadmitted : standingAdmits note L s) :
    TableMove row.status row'.status ∧
      ∀ step ∈ steps, step.found = some row ∧ row.Lapsed step.event step.now := by
  cases h with
  | edited _ hstatus => exact ⟨.inl hstatus, fun _ h => absurd h List.not_mem_nil⟩
  | event event _ hnext => exact ⟨.inr ⟨event, hnext⟩, fun _ h => absurd h List.not_mem_nil⟩
  | paid _ _ _ hnext => exact ⟨.inr ⟨_, hnext⟩, fun _ h => absurd h List.not_mem_nil⟩
  | cycle listed event now hnote htenant hlapsed hnext =>
    rw [hnote] at hadmitted
    refine ⟨.inr ⟨event, hnext⟩, fun step hstep => ?_⟩
    rw [List.mem_singleton.mp hstep]
    exact ⟨rfl, (hadmitted row hrow htenant.symm).lapsed hlapsed hnext⟩
  | extended hnote hstatus =>
    rw [hnote] at hadmitted
    exact ⟨.inl (hstatus.trans (hadmitted row hrow rfl).symm), fun _ h => absurd h List.not_mem_nil⟩

/-- A commit moves subscriptions as the table has it, and those that a cycle moves are due. -/
theorem Commit.standing (h : Commit L s note s') (hadmitted : standingAdmits note L s) :
    (∀ sub ∈ s.subscriptions, ∃ sub' ∈ s'.subscriptions, sub'.id = sub.id ∧
      TableMove sub.status sub'.status) ∧
      ∃ steps, s'.steps = s.steps ++ steps ∧ ∀ step ∈ steps, ∃ row ∈ s.subscriptions,
        step.found = some row ∧ row.Lapsed step.event step.now := by
  cases h.moves with
  | stay hsubscriptions _ _ hsteps =>
    refine ⟨fun sub hsub => ⟨sub, hsubscriptions ▸ hsub, rfl, .inl rfl⟩, [], ?_, fun _ h => ?_⟩
    · rw [hsteps, List.append_nil]
    · exact absurd h List.not_mem_nil
  | first new _ _ _ hnew _ hsubscriptions _ _ hsteps =>
    refine ⟨fun sub hsub => ⟨sub, ?_, rfl, .inl rfl⟩, [], ?_, fun _ h => ?_⟩
    · rw [hsubscriptions, KeyedTable.mem_put]
      exact .inr ⟨hsub, hnew sub hsub⟩
    · rw [hsteps, List.append_nil]
    · exact absurd h List.not_mem_nil
  | rewrite row row' _ steps hrewrite hcause hsteps =>
    obtain ⟨hmove, hdue⟩ := hcause.standing hrewrite.here hadmitted
    refine ⟨fun sub hsub => ?_, steps, hsteps, fun step hstep => ⟨row, hrewrite.here, hdue step hstep⟩⟩
    by_cases hid : sub.id = row.id
    · obtain rfl := KeyedTable.eq_of_mem hsub hrewrite.here hid
      exact ⟨row', (hrewrite.mem row').mpr (.inl rfl), hrewrite.id, hmove⟩
    · exact ⟨sub, (hrewrite.mem sub).mpr (.inr ⟨hsub, hid⟩), rfl, .inl rfl⟩

/-- Tenants mirror their subscriptions over all interleavings, whatever is admitted. -/
theorem lifecycle_mirrored {admitted : Note → (Hold LockKey → Prop) → BillingDb → Prop}
    {w : LifecycleWorld} (h : lifecycle.Reach (World.Admits admitted) w) : Mirrored w.db :=
  Changes.invariant run_kept (fun _ _ => Unsubscribed.sound) (fun _ _ => Unsubscribed.mirrored)
    (fun _ _ _ _ _ hs _ hcommit => Commit.mirrored hcommit (Sound.tenants hs)) h

/-- In every interleaving in which a cycle moves what stands as it was listed, and a trial is extended
of whoever is on trial, tenants mirror their subscriptions, every change of a status is a move of the
table from the status that it finds, and what a cycle moves is due when it is moved. -/
theorem lifecycle_standing (w : LifecycleWorld)
    (h : lifecycle.Reach (World.Admits standingAdmits) w) :
    Mirrored w.db ∧ ∀ a : WorldAction LifecycleRequest ChargeReply, w.Admits standingAdmits a →
      (∀ sub ∈ w.db.subscriptions, ∃ sub' ∈ (lifecycle.step w a).db.subscriptions,
        sub'.id = sub.id ∧ TableMove sub.status sub'.status) ∧
      ∃ steps, (lifecycle.step w a).db.steps = w.db.steps ++ steps ∧
        ∀ step ∈ steps, ∃ row ∈ w.db.subscriptions, step.found = some row ∧
          row.Lapsed step.event step.now := by
  refine ⟨lifecycle_mirrored h, fun a hgood => ?_⟩
  rcases lifecycle_step h hgood with hsame | ⟨L, note, hadmitted, hcommit⟩
  · rw [hsame]
    refine ⟨fun sub hsub => ⟨sub, hsub, rfl, .inl rfl⟩, [], (List.append_nil _).symm, fun _ h => ?_⟩
    exact absurd h List.not_mem_nil
  · exact hcommit.standing hadmitted

/-! ### A subscription that is resumed too late -/

/-- A kitchen cancels, and its period ends. -/
def cancelledMonth : List (WorldAction LifecycleRequest ChargeReply) :=
  answered 1 subscribeMonthly (.paid (some "pay_1")) ++ alone 2 (.cancel 7 mockCircumstances) ++
    alone 3 (.tick 2764800000)

/-- It is listed by a cycle, and resumed before the cycle comes to it. -/
def resumedLate : List (WorldAction LifecycleRequest ChargeReply) :=
  cancelledMonth ++ .start 4 .runCycle :: WorldAction.steps 4 2 ++ alone 5 subscribeMonthly ++
    WorldAction.steps 4 4

/-- The cycle cancels it all the same. -/
theorem not_lifecycle_standing :
    ¬∀ w, lifecycle.Reachable w → ∀ a : WorldAction LifecycleRequest ChargeReply,
      ∃ steps, (lifecycle.step w a).db.steps = w.db.steps ++ steps ∧
        ∀ step ∈ steps, ∃ row ∈ w.db.subscriptions, step.found = some row ∧
          row.Lapsed step.event step.now := by
  intro h
  have hreach : lifecycle.Reachable (afterRun resumedLate) :=
    Machine.reachable_run resumedLate (.init ⟨newKitchen_unsubscribed, rfl, rfl⟩)
  have hbefore : (afterRun resumedLate).db.steps = [] := by decide +kernel
  have hafter : (lifecycle.step (afterRun resumedLate) (.step 4)).db.steps.map
      (fun step => (step.event, step.found.map (·.cancelAtPeriodEnd))) =
        [(.periodEnded, some false)] := by
    decide +kernel
  obtain ⟨steps, hsteps, hdue⟩ := h _ hreach (.step 4)
  rw [hsteps, hbefore, List.nil_append] at hafter
  obtain ⟨step, hstep, heq⟩ := List.mem_map.mp (hafter ▸ List.mem_singleton_self _)
  simp only [Prod.mk.injEq] at heq
  obtain ⟨hevent, hfound⟩ := heq
  obtain ⟨row, -, hrow, hlapsed⟩ := hdue step hstep
  rw [hevent] at hlapsed
  rw [hrow, Option.map_some, Option.some.injEq] at hfound
  exact absurd (hlapsed.2.2.symm.trans hfound) (by decide)

/-- It is not resumed. -/
def cancelledInTime : List (WorldAction LifecycleRequest ChargeReply) :=
  cancelledMonth ++ .start 4 .runCycle :: WorldAction.steps 4 6

theorem lifecycle_standing_cancelled :
    (lifecycle.step (afterRun cancelledInTime) (.step 4)).db.subscriptions.rows.map (·.status) =
      [.cancelled] ∧ Mirrored (afterRun cancelledInTime).db ∧
      ∃ steps, (lifecycle.step (afterRun cancelledInTime) (.step 4)).db.steps =
        (afterRun cancelledInTime).db.steps ++ steps ∧
        ∀ step ∈ steps, ∃ row ∈ (afterRun cancelledInTime).db.subscriptions,
          step.found = some row ∧ row.Lapsed step.event step.now := by
  have hreach : lifecycle.Reach (World.Admits standingAdmits) (afterRun cancelledInTime) :=
    Machine.reach_run cancelledInTime (.init ⟨newKitchen_unsubscribed, rfl, rfl⟩)
      (by decide +kernel)
  have hstanding := lifecycle_standing (afterRun cancelledInTime) hreach
  exact ⟨by decide +kernel, hstanding.1, (hstanding.2 (.step 4) (by decide +kernel)).2⟩

end StelloKitchens.SaasBilling
