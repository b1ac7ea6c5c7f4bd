import StelloKitchens.Lib.Changes
import StelloKitchens.SaasBilling.Subscriptions

/-!
# What the commits of the billing do

A commit rewrites at most one subscription, whose row it has locked, and the tenant's status with
it; it makes one invoice, under the next number of its series, or writes to one; and it takes the
event of one webhook a step further. What the methods keep over all interleavings is read off these
changes.

## Main definitions

* `Cause`, `Moves` — why a subscription is rewritten, and what happens to the subscriptions.
* `InvoiceCause`, `Invoiced` — the same of the invoices.
* `Told`, `Handled` — what happens to the events of webhooks.
* `Commit`, `Sound` — a commit, and what every commit keeps.

## Main results

* `Commit.sound` — commits keep what they rely on.
-/

namespace StelloKitchens.SaasBilling

open Checked Tx Process Method Discipline Changes

/-! ### Subscriptions -/

/-- What an event of the cycle is due for: a trial, a grace or a last period that is over. -/
def TenantSubscription.Lapsed (sub : TenantSubscription) (event : SubscriptionEvent) (now : Time) :
    Prop :=
  match event with
  | .trialExpired => sub.status = .trial ∧ ∃ e ∈ sub.trialEndsAt, e ≤ now
  | .graceExpired => sub.status = .pastDue ∧ ∃ e ∈ sub.graceEndsAt, e ≤ now
  | .periodEnded => sub.status = .active ∧ (∃ e ∈ sub.currentPeriodEnd, e ≤ now) ∧
      sub.cancelAtPeriodEnd = true
  | _ => False

/-- Why a commit with this note rewrites a subscription, and what a cycle records of it. -/
inductive Cause (note : Note) (row row' : TenantSubscription) : List CycleStep → Prop
  | edited (hnote : note = .plain) (hstatus : row'.status = row.status) : Cause note row row' []
  | event (event : SubscriptionEvent) (hnote : note = .plain ∨ ∃ id, note = .failed id)
      (hnext : nextSubscriptionStatus row.status event = some row'.status) : Cause note row row' []
  | paid (inv : SubscriptionInvoice) (hnote : note = .paid inv) (htenant : row.tenantId = inv.tenantId)
      (hnext : nextSubscriptionStatus row.status .paymentSucceeded = some row'.status)
      (hend : row'.currentPeriodEnd = some inv.periodEnd) : Cause note row row' []
  | cycle (listed : TenantSubscription) (event : SubscriptionEvent) (now : Time)
      (hnote : note = .cycle listed) (htenant : listed.tenantId = row.tenantId)
      (hlapsed : listed.Lapsed event now)
      (hnext : nextSubscriptionStatus row.status event = some row'.status) :
      Cause note row row' [⟨listed, some row, event, now⟩]
  | extended (hnote : note = .extendTrial row.tenantId) (hstatus : row'.status = .trial) :
      Cause note row row' []

/-- The only subscription that a commit rewrites, and the ends that its period is given. -/
structure Rewrite (L : Hold LockKey → Prop) (s s' : BillingDb) (row row' : TenantSubscription)
    (ends : List Time) : Prop where
  here : row ∈ s.subscriptions
  id : row'.id = row.id
  tenantId : row'.tenantId = row.tenantId
  lock : L (.lock (.subscription row.tenantId))
  mem : ∀ r, r ∈ s'.subscriptions ↔ r = row' ∨ r ∈ s.subscriptions ∧ r.id ≠ row.id
  tenants : s'.tenantStatus = (fun id =>
      if id = row.tenantId then some (tenantStatusFor row'.status) else s.tenantStatus id) ∨
    row'.status = row.status ∧ s'.tenantStatus = s.tenantStatus
  periodEnds : s'.periodEnds = s.periodEnds ++ ends.map fun e => (row.tenantId, e)
  currentPeriodEnd : row'.currentPeriodEnd = row.currentPeriodEnd ∨
    ∃ e ∈ ends, row'.currentPeriodEnd = some e

/-- What a commit does to the subscriptions. -/
inductive Moves (L : Hold LockKey → Prop) (s : BillingDb) (note : Note) (s' : BillingDb) : Prop
  | stay (hsubscriptions : s'.subscriptions = s.subscriptions)
      (htenants : s'.tenantStatus = s.tenantStatus) (hends : s'.periodEnds = s.periodEnds)
      (hsteps : s'.steps = s.steps)
  | first (sub : TenantSubscription) (hnumber : L (.number sub.id))
      (hlock : L (.lock (.subscription sub.tenantId)))
      (hnone : ∀ r ∈ s.subscriptions, r.tenantId ≠ sub.tenantId)
      (hnew : ∀ r ∈ s.subscriptions, r.id ≠ sub.id)
      (hmirror : s.tenantStatus sub.tenantId = some (tenantStatusFor sub.status))
      (hsubscriptions : s'.subscriptions = s.subscriptions.put sub)
      (htenants : s'.tenantStatus = s.tenantStatus)
      (hends : s'.periodEnds =
        s.periodEnds ++ sub.currentPeriodEnd.toList.map fun e => (sub.tenantId, e))
      (hsteps : s'.steps = s.steps)
  | rewrite (row row' : TenantSubscription) (ends : List Time) (steps : List CycleStep)
      (h : Rewrite L s s' row row' ends) (hcause : Cause note row row' steps)
      (hsteps : s'.steps = s.steps ++ steps)

/-! ### Invoices -/

/-- What an invoice came to. -/
def SubscriptionInvoice.outcome (inv : SubscriptionInvoice) :
    InvoiceStatus × Option Time × Option String :=
  (inv.status, inv.paidAt, inv.providerRef)

/-- Why a commit with this note writes to the invoices, and what is recorded of it. -/
inductive InvoiceCause (note : Note) (f : SubscriptionInvoice → SubscriptionInvoice) :
    List ChargeEvent → Prop
  | amended (events : List ChargeEvent) (houtcome : ∀ i, (f i).outcome = i.outcome)
      (hkind : ∀ e ∈ events, e.kind = .asked ∨ e.kind = .charged) : InvoiceCause note f events
  | paid (inv : SubscriptionInvoice) (hnote : note = .paid inv)
      (hother : ∀ i, i.id ≠ inv.id → (f i).outcome = i.outcome)
      (hthis : ∀ i, i.id = inv.id → (f i).status = .paid) : InvoiceCause note f [inv.event .paid]
  | failed (inv : SubscriptionInvoice) (hnote : note = .failed inv.id)
      (hother : ∀ i, i.id ≠ inv.id → (f i).outcome = i.outcome)
      (hthis : ∀ i, i.id = inv.id → (f i).status = .failed) :
      InvoiceCause note f [inv.event .failed]

def counterKey (fy : String) : String := "saas-invoice:" ++ fy

/-- The numbers of a fiscal year. -/
def seriesNumber (fy : String) (n : ℕ) : String :=
  "STL/" ++ fy ++ "/" ++ padStart 5 (toString n)

/-- What a commit does to the invoices. -/
inductive Invoiced (L : Hold LockKey → Prop) (s : BillingDb) (note : Note) (s' : BillingDb) : Prop
  | keep (f : SubscriptionInvoice → SubscriptionInvoice) (events : List ChargeEvent)
      (hid : ∀ i, (f i).id = i.id) (hnumber : ∀ i, (f i).number = i.number)
      (hrows : s'.invoices.rows = s.invoices.rows.map f)
      (hcounters : s'.counters = s.counters) (hlog : s'.log = s.log ++ events)
      (hknown : ∀ e ∈ events, e.kind = .paid ∨ e.kind = .failed →
        ∃ i ∈ s.invoices, i.id = e.invoiceId)
      (hcause : InvoiceCause note f events)
  | create (inv : SubscriptionInvoice) (fy : String) (hnumber : L (.number inv.id))
      (hlock : L (.lock (.counter (counterKey fy))))
      (hnew : ∀ i ∈ s.invoices, i.id ≠ inv.id)
      (hnext : inv.number = seriesNumber fy (s.counters (counterKey fy) + 1))
      (hinvoices : s'.invoices = s.invoices.put inv)
      (hcounters : s'.counters = fun k =>
        if k = counterKey fy then s.counters (counterKey fy) + 1 else s.counters k)
      (hlog : s'.log = s.log)

/-! ### Webhooks -/

def BillingDb.HasApplied (db : BillingDb) (eventId : String) : Prop :=
  ∃ effect, .applied eventId effect ∈ db.handled

/-- An effect, as it shows in the rows. -/
def WebhookEffect.Holds (db : BillingDb) : WebhookEffect → Prop
  | .paid invoiceId => ∃ i ∈ db.invoices, i.id = invoiceId ∧ i.status = .paid
  | .failed invoiceId => ∃ i ∈ db.invoices, i.id = invoiceId ∧ i.status = .failed
  | .moved tenantId status =>
    ∃ sub ∈ db.subscriptions, sub.tenantId = tenantId ∧ sub.status = status
  | .nothing => True

/-- What a commit is to have found and done that takes the event of a webhook a step further. -/
inductive Told (L : Hold LockKey → Prop) (s s' : BillingDb) : Handling → Prop
  | recorded (eventId : String) (id : ℕ) (hnumber : L (.number id))
      (hnew : ∀ e ∈ s.events, e.providerEventId ≠ some eventId)
      (hevent : ∃ e ∈ s'.events, e.providerEventId = some eventId) : Told L s s' (.recorded eventId id)
  | applied (eventId : String) (effect : WebhookEffect) (id : ℕ) (hnumber : L (.number id))
      (hrecorded : .recorded eventId id ∈ s.handled) (hnew : ¬s.HasApplied eventId)
      (heffect : effect.Holds s') : Told L s s' (.applied eventId effect)
  | finished (eventId : String) (happlied : s.HasApplied eventId) : Told L s s' (.finished eventId)

/-- What a commit does to the events of webhooks. -/
inductive Handled (L : Hold LockKey → Prop) (s s' : BillingDb) : Prop
  | stay (h : s'.handled = s.handled)
  | tell (entry : Handling) (htold : Told L s s' entry) (h : s'.handled = s.handled ++ [entry])

/-- Events are only added, those of the provider under their lock. -/
def EventsGrow (L : Hold LockKey → Prop) (s s' : BillingDb) : Prop :=
  ∃ new, s'.events = s.events ++ new ∧
    ∀ e ∈ new, ∀ eventId, e.providerEventId = some eventId → L (.lock (.event eventId))

/-! ### Commits -/

/-- What a commit with this note does, by who holds these. -/
structure Commit (L : Hold LockKey → Prop) (s : BillingDb) (note : Note) (s' : BillingDb) : Prop where
  moves : Moves L s note s'
  invoiced : Invoiced L s note s'
  handled : Handled L s s'
  events : EventsGrow L s s'

/-- What commits rely on. -/
structure Sound (s : BillingDb) (n : ℕ) : Prop where
  subscriptions : ∀ sub ∈ s.subscriptions, sub.id < n
  tenants : ∀ a ∈ s.subscriptions, ∀ b ∈ s.subscriptions, a.tenantId = b.tenantId → a = b
  invoices : ∀ i ∈ s.invoices, i.id < n
  recorded : ∀ eventId id, .recorded eventId id ∈ s.handled →
    id < n ∧ ∃ e ∈ s.events, e.providerEventId = some eventId
  recordedOnce : ∀ eventId id id', .recorded eventId id ∈ s.handled →
    .recorded eventId id' ∈ s.handled → id = id'
  appliedRecorded : ∀ eventId, s.HasApplied eventId → ∃ id, .recorded eventId id ∈ s.handled
  finished : ∀ eventId, .finished eventId ∈ s.handled → s.HasApplied eventId

variable {L : Hold LockKey → Prop} {s s' : BillingDb} {note : Note} {n : ℕ}

/-- Every subscription stays, with its tenant. -/
theorem Moves.stays (h : Moves L s note s') {sub : TenantSubscription} (hsub : sub ∈ s.subscriptions) :
    ∃ r ∈ s'.subscriptions, r.id = sub.id ∧ r.tenantId = sub.tenantId := by
  cases h with
  | stay hsubscriptions => exact ⟨sub, hsubscriptions ▸ hsub, rfl, rfl⟩
  | first new _ _ _ hnew _ hsubscriptions =>
    refine ⟨sub, ?_, rfl, rfl⟩
    rw [hsubscriptions, KeyedTable.mem_put]
    exact .inr ⟨hsub, hnew sub hsub⟩
  | rewrite row row' _ _ h =>
    by_cases hid : sub.id = row.id
    · obtain rfl := KeyedTable.eq_of_mem hsub h.here hid
      exact ⟨row', (h.mem row').mpr (.inl rfl), h.id, h.tenantId⟩
    · exact ⟨sub, (h.mem sub).mpr (.inr ⟨hsub, hid⟩), rfl, rfl⟩

/-- A subscription was there before, or its number is held. -/
theorem Moves.origin (h : Moves L s note s') {r : TenantSubscription} (hr : r ∈ s'.subscriptions) :
    (∃ sub ∈ s.subscriptions, r.id = sub.id ∧ r.tenantId = sub.tenantId) ∨
      L (.number r.id) ∧ L (.lock (.subscription r.tenantId)) ∧
        ∀ sub ∈ s.subscriptions, sub.tenantId ≠ r.tenantId := by
  cases h with
  | stay hsubscriptions => exact .inl ⟨r, hsubscriptions ▸ hr, rfl, rfl⟩
  | first new hnumber hlock hnone _ _ hsubscriptions =>
    rw [hsubscriptions, KeyedTable.mem_put] at hr
    rcases hr with rfl | ⟨hr, -⟩
    · exact .inr ⟨hnumber, hlock, hnone⟩
    · exact .inl ⟨r, hr, rfl, rfl⟩
  | rewrite row row' _ _ h =>
    rcases (h.mem r).mp hr with rfl | ⟨hr, -⟩
    · exact .inl ⟨row, h.here, h.id, h.tenantId⟩
    · exact .inl ⟨r, hr, rfl, rfl⟩

/-- A subscription of a tenant that is not locked stays as it is. -/
theorem Moves.unlocked (h : Moves L s note s') {sub : TenantSubscription}
    (hfree : ¬L (.lock (.subscription sub.tenantId))) (hsub : sub ∈ s.subscriptions) :
    sub ∈ s'.subscriptions := by
  cases h with
  | stay hsubscriptions => exact hsubscriptions ▸ hsub
  | first new _ _ _ hnew _ hsubscriptions =>
    rw [hsubscriptions, KeyedTable.mem_put]
    exact .inr ⟨hsub, hnew sub hsub⟩
  | rewrite row row' _ _ h =>
    refine (h.mem sub).mpr (.inr ⟨hsub, fun hid => hfree ?_⟩)
    rw [KeyedTable.eq_of_mem hsub h.here hid]
    exact h.lock

/-- Each tenant has one subscription. -/
theorem Moves.tenants (h : Moves L s note s')
    (hs : ∀ a ∈ s.subscriptions, ∀ b ∈ s.subscriptions, a.tenantId = b.tenantId → a = b) :
    ∀ a ∈ s'.subscriptions, ∀ b ∈ s'.subscriptions, a.tenantId = b.tenantId → a = b := by
  cases h with
  | stay hsubscriptions =>
    rw [hsubscriptions]
    exact hs
  | first new _ _ hnone _ _ hsubscriptions =>
    simp only [hsubscriptions, KeyedTable.mem_put]
    rintro a (rfl | ⟨ha, -⟩) b (rfl | ⟨hb, -⟩) hab
    · rfl
    · exact absurd hab.symm (hnone b hb)
    · exact absurd hab (hnone a ha)
    · exact hs a ha b hb hab
  | rewrite row row' _ _ h =>
    intro a ha b hb hab
    rcases (h.mem a).mp ha with rfl | ⟨ha, hane⟩ <;> rcases (h.mem b).mp hb with rfl | ⟨hb, hbne⟩
    · rfl
    · exact absurd (congrArg (·.id) (hs b hb row h.here (hab.symm.trans h.tenantId))) hbne
    · exact absurd (congrArg (·.id) (hs a ha row h.here (hab.trans h.tenantId))) hane
    · exact hs a ha b hb hab

/-- Every invoice stays. -/
theorem Invoiced.stays (h : Invoiced L s note s') {i : SubscriptionInvoice} (hi : i ∈ s.invoices) :
    ∃ j ∈ s'.invoices, j.id = i.id := by
  cases h with
  | keep f _ hid _ hrows =>
    refine ⟨f i, ?_, hid i⟩
    rw [KeyedTable.mem_def, hrows]
    exact List.mem_map_of_mem hi
  | create inv _ _ _ hnew _ hinvoices =>
    refine ⟨i, ?_, rfl⟩
    rw [hinvoices, KeyedTable.mem_put]
    exact .inr ⟨hi, hnew i hi⟩

theorem Invoiced.origin (h : Invoiced L s note s') {j : SubscriptionInvoice} (hj : j ∈ s'.invoices) :
    (∃ i ∈ s.invoices, j.id = i.id) ∨ L (.number j.id) := by
  cases h with
  | keep f _ hid _ hrows =>
    rw [KeyedTable.mem_def, hrows] at hj
    obtain ⟨i, hi, rfl⟩ := List.mem_map.mp hj
    exact .inl ⟨i, hi, hid i⟩
  | create inv _ hnumber _ _ _ hinvoices =>
    rw [hinvoices, KeyedTable.mem_put] at hj
    rcases hj with rfl | ⟨hj, -⟩
    · exact .inr hnumber
    · exact .inl ⟨j, hj, rfl⟩

theorem EventsGrow.mem (h : EventsGrow L s s') {e : EventRow} (he : e ∈ s.events) :
    e ∈ s'.events := by
  obtain ⟨new, hnew, -⟩ := h
  rw [hnew]
  exact List.mem_append_left _ he

/-- The history of webhooks only grows. -/
theorem Handled.grows (h : Handled L s s') : s.handled ⊆ s'.handled := by
  cases h with
  | stay h => exact h ▸ List.Subset.refl _
  | tell _ _ h => exact h ▸ List.subset_append_left _ _

/-- What is in the history was there, or is told by the commit. -/
theorem Handled.origin (h : Handled L s s') {entry : Handling} (hentry : entry ∈ s'.handled) :
    entry ∈ s.handled ∨ Told L s s' entry := by
  cases h with
  | stay h => exact .inl (h ▸ hentry)
  | tell _ htold h =>
    rw [h, List.mem_append, List.mem_singleton] at hentry
    rcases hentry with hentry | rfl
    · exact .inl hentry
    · exact .inr htold

theorem Handled.hasApplied (h : Handled L s s') {eventId : String} (happlied : s.HasApplied eventId) :
    s'.HasApplied eventId := by
  obtain ⟨effect, heffect⟩ := happlied
  exact ⟨effect, h.grows heffect⟩

/-- Commits keep what they rely on. -/
theorem Commit.sound (h : Commit L s note s') (hs : Sound s n)
    (hdrawn : ∀ k, L (.number k) → k < n) : Sound s' n where
  subscriptions r hr := by
    rcases h.moves.origin hr with ⟨sub, hsub, hid, -⟩ | ⟨hnumber, -⟩
    · exact hid ▸ hs.subscriptions sub hsub
    · exact hdrawn _ hnumber
  tenants := h.moves.tenants hs.tenants
  invoices j hj := by
    rcases h.invoiced.origin hj with ⟨i, hi, hid⟩ | hnumber
    · exact hid ▸ hs.invoices i hi
    · exact hdrawn _ hnumber
  recorded eventId id hin := by
    rcases h.handled.origin hin with hin | htold
    · obtain ⟨hlt, e, he, hid⟩ := hs.recorded eventId id hin
      exact ⟨hlt, e, h.events.mem he, hid⟩
    · cases htold with
      | recorded _ _ hnumber _ hevent => exact ⟨hdrawn _ hnumber, hevent⟩
  recordedOnce eventId id id' hin hin' := by
    cases h.handled with
    | stay hsame => exact hs.recordedOnce eventId id id' (hsame ▸ hin) (hsame ▸ hin')
    | tell entry htold hsame =>
      rw [hsame, List.mem_append, List.mem_singleton] at hin hin'
      -- an event that is recorded now was not before
      have hfresh : ∀ k k', .recorded eventId k ∈ s.handled → entry ≠ .recorded eventId k' := by
        rintro k k' hk rfl
        cases htold with
        | recorded _ _ _ hnew =>
          obtain ⟨-, e, he, hid⟩ := hs.recorded _ _ hk
          exact hnew e he hid
      rcases hin with hin | hin <;> rcases hin' with hin' | hin'
      · exact hs.recordedOnce eventId id id' hin hin'
      · exact absurd hin'.symm (hfresh _ _ hin)
      · exact absurd hin.symm (hfresh _ _ hin')
      · exact (Handling.recorded.inj (hin.trans hin'.symm)).2
  appliedRecorded eventId happlied := by
    obtain ⟨effect, hin⟩ := happlied
    rcases h.handled.origin hin with hin | htold
    · obtain ⟨id, hid⟩ := hs.appliedRecorded eventId ⟨effect, hin⟩
      exact ⟨id, h.handled.grows hid⟩
    · cases htold with
      | applied _ _ id _ hrecorded => exact ⟨id, h.handled.grows hrecorded⟩
  finished eventId hin := by
    rcases h.handled.origin hin with hin | htold
    · exact h.handled.hasApplied (hs.finished eventId hin)
    · cases htold with
      | finished _ happlied => exact h.handled.hasApplied happlied

end StelloKitchens.SaasBilling
