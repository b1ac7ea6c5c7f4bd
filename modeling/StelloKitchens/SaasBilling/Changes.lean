import StelloKitchens.SaasBilling.Commits

/-!
# The billing keeps to its commits

Every method of the billing commits only what its commits are told to do, whatever is admitted. What
a method relies on it has read under the lock of a row, or it is what no commit takes away: that a
subscription or an invoice is there, and that a webhook is applied by whoever has recorded it.

## Main definitions

* `commits` — the commits as the changes of the billing.
* `Owned` — an event as the delivery knows it that has recorded it.

## Main results

* `run_leads` — every request keeps to the commits, and a webhook that is answered is applied.
* `lifecycle_step` — a step of an interleaving is a commit, if it is anything.
-/

namespace StelloKitchens.SaasBilling

open Checked Tx Process Method Discipline Changes

/-- The commits of the billing. -/
def commits : Changes BillingDb LockKey Note where
  inv := Sound
  change := Commit
  inv_mono hle h := { h with
    subscriptions := fun sub hsub => (h.subscriptions sub hsub).trans_le hle
    invoices := fun i hi => (h.invoices i hi).trans_le hle
    recorded := fun eventId id hin =>
      ⟨(h.recorded eventId id hin).1.trans_le hle, (h.recorded eventId id hin).2⟩ }
  inv_change h hs hdrawn := h.sound hs hdrawn

theorem Unsubscribed.sound {db : BillingDb} {n : ℕ} (h : Unsubscribed db n) : Sound db n := by
  have hsub : ∀ r, r ∉ db.subscriptions := h.subscriptions ▸ KeyedTable.notMem_empty
  have hinv : ∀ i, i ∉ db.invoices := h.invoices ▸ KeyedTable.notMem_empty
  have hhandled : ∀ x, x ∉ db.handled := h.handled ▸ fun _ => List.not_mem_nil
  refine ⟨fun r hr => absurd hr (hsub r), fun r hr => absurd hr (hsub r), fun i hi => absurd hi (hinv i),
    fun _ _ hin => absurd hin (hhandled _), fun _ _ _ hin => absurd hin (hhandled _), ?_,
    fun _ hin => absurd hin (hhandled _)⟩
  rintro _ ⟨effect, hin⟩
  exact absurd hin (hhandled _)

/-- The commits where these are admitted. -/
abbrev committing (admitted : Note → (Hold LockKey → Prop) → BillingDb → Prop) :
    Discipline BillingDb LockKey := commits.discipline admitted

/-- A method, with what is known before and after it. -/
abbrev Follows (admitted : Note → (Hold LockKey → Prop) → BillingDb → Prop) {α : Type}
    (J : Assertion BillingDb) (x : BillingMethod α) (Q : α → Assertion BillingDb) : Prop :=
  Changes.Leads commits admitted J x Q

/-- A method of which nothing more is said. -/
abbrev Commits (admitted : Note → (Hold LockKey → Prop) → BillingDb → Prop) {α : Type}
    (x : BillingMethod α) : Prop :=
  Follows admitted (fun _ _ => True) x fun _ _ _ => True

variable {admitted : Note → (Hold LockKey → Prop) → BillingDb → Prop} {L : Hold LockKey → Prop}
  {K : BillingDb → Prop} {s s' : BillingDb} {note : Note} {n : ℕ}

/-! ### What is known -/

/-- A subscription is there. -/
def BillingDb.HasSubscription (db : BillingDb) (sub : TenantSubscription) : Prop :=
  ∃ r ∈ db.subscriptions, r.id = sub.id ∧ r.tenantId = sub.tenantId

theorem lasting_hasSubscription (sub : TenantSubscription) :
    Lasting (committing admitted) fun _ s => s.HasSubscription sub := by
  refine lasting_of_change fun L s n note s' _ hchange h => ?_
  obtain ⟨r, hr, hid, htenant⟩ := h
  obtain ⟨r', hr', hid', htenant'⟩ := (Commit.moves hchange).stays hr
  exact ⟨r', hr', hid'.trans hid, htenant'.trans htenant⟩

def BillingDb.HasInvoice (db : BillingDb) (id : ℕ) : Prop := ∃ i ∈ db.invoices, i.id = id

theorem lasting_hasInvoice (id : ℕ) : Lasting (committing admitted) fun _ s => s.HasInvoice id := by
  refine lasting_of_change fun L s n note s' _ hchange h => ?_
  obtain ⟨i, hi, rfl⟩ := h
  exact (Commit.invoiced hchange).stays hi

theorem lasting_hasApplied (eventId : String) :
    Lasting (committing admitted) fun _ s => s.HasApplied eventId :=
  lasting_of_change fun _ _ _ _ _ _ hchange h => (Commit.handled hchange).hasApplied h

/-- As long as a tenant has no subscription, its status is this. -/
def BillingDb.TenantAs (db : BillingDb) (tenantId : ℕ) (status : TenantStatus) : Prop :=
  (∀ r ∈ db.subscriptions, r.tenantId ≠ tenantId) → db.tenantStatus tenantId = some status

theorem lasting_tenantAs (tenantId : ℕ) (status : TenantStatus) :
    Lasting (committing admitted) fun _ s => s.TenantAs tenantId status := by
  refine lasting_of_change fun L s n note s' _ hchange h hnone => ?_
  have hbefore : ∀ r ∈ s.subscriptions, r.tenantId ≠ tenantId := by
    intro r hr
    obtain ⟨r', hr', -, htenant⟩ := (Commit.moves hchange).stays hr
    exact htenant ▸ hnone r' hr'
  cases Commit.moves hchange with
  | stay _ htenants => exact htenants ▸ h hbefore
  | first _ _ _ _ _ _ _ htenants => exact htenants ▸ h hbefore
  | rewrite row row' _ _ hrewrite =>
    rcases hrewrite.tenants with htenants | ⟨-, htenants⟩
    · rw [htenants]
      exact (if_neg (hbefore row hrewrite.here).symm).trans (h hbefore)
    · exact htenants ▸ h hbefore

/-- A subscription stays as it is while its tenant's is locked. -/
theorem stable_subscription {sub : TenantSubscription}
    (hlock : L (.lock (.subscription sub.tenantId))) :
    (committing admitted).Stable L fun s => sub ∈ s.subscriptions :=
  stable_of_change fun _ _ _ _ _ _ hother hchange h =>
    (Commit.moves hchange).unlocked (hother _ hlock) h

/-- A tenant gets no subscription while it is locked. -/
theorem stable_none {tenantId : ℕ} (hlock : L (.lock (.subscription tenantId))) :
    (committing admitted).Stable L fun s => ∀ r ∈ s.subscriptions, r.tenantId ≠ tenantId := by
  refine stable_of_change fun L' s n note s' _ hother hchange h r hr htenant => ?_
  rcases (Commit.moves hchange).origin hr with ⟨sub, hsub, -, heq⟩ | ⟨-, hheld, -⟩
  · exact h sub hsub (heq ▸ htenant)
  · exact hother _ hlock (htenant ▸ hheld)

/-- No subscription gets a number that others have drawn. -/
theorem stable_subscriptionNumber {id : ℕ} (hid : L (.number id)) :
    (committing admitted).Stable L fun s => ∀ r ∈ s.subscriptions, r.id ≠ id := by
  refine stable_of_change fun L' s n note s' _ hother hchange h r hr heq => ?_
  rcases (Commit.moves hchange).origin hr with ⟨sub, hsub, hsame, -⟩ | ⟨hheld, -⟩
  · exact h sub hsub (hsame ▸ heq)
  · exact hother _ hid (heq ▸ hheld)

theorem stable_invoiceNumber {id : ℕ} (hid : L (.number id)) :
    (committing admitted).Stable L fun s => ∀ i ∈ s.invoices, i.id ≠ id := by
  refine stable_of_change fun L' s n note s' _ hother hchange h i hi heq => ?_
  rcases (Commit.invoiced hchange).origin hi with ⟨j, hj, hsame⟩ | hheld
  · exact h j hj (hsame ▸ heq)
  · exact hother _ hid (heq ▸ hheld)

/-- A series does not go on while it is locked. -/
theorem stable_counter {fy : String} {value : ℕ} (hlock : L (.lock (.counter (counterKey fy)))) :
    (committing admitted).Stable L fun s => s.counters (counterKey fy) + 1 = value := by
  refine stable_of_change fun L' s n note s' _ hother hchange h => ?_
  cases Commit.invoiced hchange with
  | keep _ _ _ _ _ hcounters => exact hcounters ▸ h
  | create _ fy' _ hheld _ _ _ hcounters =>
    have hne : counterKey fy ≠ counterKey fy' := fun heq => hother _ hlock (heq ▸ hheld)
    rw [hcounters]
    exact (congrArg (· + 1) (if_neg hne)).trans h

/-- An event is not recorded while it is locked. -/
theorem stable_unrecorded {eventId : String} (hlock : L (.lock (.event eventId))) :
    (committing admitted).Stable L fun s => ∀ e ∈ s.events, e.providerEventId ≠ some eventId := by
  refine stable_of_change fun L' s n note s' _ hother hchange h e he heq => ?_
  obtain ⟨new, hnew, hheld⟩ := Commit.events hchange
  rw [hnew, List.mem_append] at he
  rcases he with he | he
  · exact h e he heq
  · exact hother _ hlock (hheld e he eventId heq)

/-- An event that is recorded under this number, and applied or not yet. -/
def Owned (eventId : String) (id : ℕ) (applied : Bool) (db : BillingDb) : Prop :=
  .recorded eventId id ∈ db.handled ∧ (db.HasApplied eventId ↔ applied = true)

/-- Whoever has recorded an event knows how far it is. -/
theorem stable_owned {eventId : String} {id : ℕ} {applied : Bool} (hid : L (.number id)) :
    (committing admitted).Stable L (Owned eventId id applied) := by
  refine stable_of_change fun L' s n note s' hs hother hchange h => ?_
  have hhandled := Commit.handled hchange
  refine ⟨hhandled.grows h.1, ?_⟩
  rw [← h.2]
  refine ⟨fun happlied => ?_, hhandled.hasApplied⟩
  obtain ⟨effect, hin⟩ := happlied
  rcases hhandled.origin hin with hin | htold
  · exact ⟨effect, hin⟩
  · cases htold with
    | applied _ _ id' hnumber hrecorded =>
      have hsame : id = id' := Sound.recordedOnce hs eventId id id' h.1 hrecorded
      exact absurd (hsame ▸ hnumber) (hother _ hid)

/-! ### Commits that rewrite no subscription -/

theorem EventsGrow.refl (h : s'.events = s.events) : EventsGrow L s s' :=
  ⟨[], h.trans (List.append_nil _).symm, fun _ he => absurd he List.not_mem_nil⟩

/-- Something is logged. -/
theorem EventsGrow.one {e : EventRow} (h : s'.events = s.events ++ [e])
    (hid : e.providerEventId = none) : EventsGrow L s s' := by
  refine ⟨[e], h, fun e' he' eventId heq => ?_⟩
  rw [List.mem_singleton.mp he', hid] at heq
  cases heq

theorem Invoiced.stay (hinvoices : s'.invoices = s.invoices) (hcounters : s'.counters = s.counters)
    (hlog : s'.log = s.log) : Invoiced L s note s' :=
  .keep (fun i => i) [] (fun _ => rfl) (fun _ => rfl)
    ((congrArg KeyedTable.rows hinvoices).trans (List.map_id _).symm) hcounters
    (hlog.trans (List.append_nil _).symm) (fun _ he => absurd he List.not_mem_nil)
    (.amended [] (fun _ => rfl) fun _ he => absurd he List.not_mem_nil)

/-- What the commits are about, but for what is logged. -/
def BillingDb.matters (db : BillingDb) :=
  (db.subscriptions, db.tenantStatus, db.periodEnds, db.steps, db.invoices, db.counters, db.log,
    db.handled)

/-- Nothing happens that matters, and something may be logged. -/
def Quiet (f : BillingDb → BillingDb) : Prop :=
  ∀ s, (f s).matters = s.matters ∧
    ∃ new, (f s).events = s.events ++ new ∧ ∀ e ∈ new, e.providerEventId = none

theorem quiet_id : Quiet id := fun _ =>
  ⟨rfl, [], (List.append_nil _).symm, fun _ he => absurd he List.not_mem_nil⟩

theorem Quiet.comp {f g : BillingDb → BillingDb} (hf : Quiet f) (hg : Quiet g) : Quiet (g ∘ f) := by
  intro s
  obtain ⟨hfs, new, hnew, hnone⟩ := hf s
  obtain ⟨hgs, new', hnew', hnone'⟩ := hg (f s)
  refine ⟨hgs.trans hfs, new ++ new', ?_, fun e he => ?_⟩
  · rw [Function.comp_apply, hnew', hnew, List.append_assoc]
  · exact (List.mem_append.mp he).elim (hnone e) (hnone' e)

theorem Quiet.commit {f : BillingDb → BillingDb} (hf : Quiet f) (s : BillingDb) :
    Commit L s note (f s) := by
  obtain ⟨hmatters, new, hnew, hnone⟩ := hf s
  simp only [BillingDb.matters, Prod.mk.injEq] at hmatters
  obtain ⟨hsubscriptions, htenants, hends, hsteps, hinvoices, hcounters, hlog, hhandled⟩ := hmatters
  refine ⟨.stay hsubscriptions htenants hends hsteps, .stay hinvoices hcounters hlog,
    .stay hhandled, new, hnew, fun e he eventId heq => ?_⟩
  rw [hnone e he] at heq
  cases heq

/-- A transaction in which nothing happens that matters. -/
theorem commits_quiet {α : Type} {note : α → Note} {t : BillingTx α} (h : t.Writes Quiet) :
    Commits admitted (atomically note t) := by
  refine leads_of_change lasting_true fun L => ?_
  exact Discipline.wp_of_writes (V := Quiet) quiet_id (fun _ _ => Quiet.comp) h stable_true
    fun L' w a _ hw s n _ _ _ => hw.commit s

theorem quiet_of_matters {f : BillingDb → BillingDb} (h : ∀ s, (f s).matters = s.matters)
    (hevents : ∀ s, (f s).events = s.events) : Quiet f := fun s =>
  ⟨h s, [], (hevents s).trans (List.append_nil _).symm, fun _ he => absurd he List.not_mem_nil⟩

theorem quiet_logEvent (tenantId : ℕ) (type : String) (fromStatus toStatus : Option SubscriptionStatus) :
    Quiet (logEvent tenantId type fromStatus toStatus none) := fun s =>
  ⟨rfl, _, rfl, fun e he => by rw [List.mem_singleton.mp he]⟩

theorem logged_commits (sub : TenantSubscription) (type : String) :
    Commits admitted (logged sub type) :=
  commits_quiet (writes_update (quiet_logEvent _ _ _ _))

theorem ensurePlans_commits : Commits admitted (atomically (fun _ => .plain) ensurePlans) := by
  refine commits_quiet ((Tx.writes_mapM (fun p => ?_) _).bind fun _ => Tx.writes_pure _)
  refine (writes_acquire _).bind fun _ => (writes_query _).bind fun taken => ?_
  split
  · exact Tx.writes_pure _
  · exact writes_draw.bind fun id => writes_update
      (quiet_of_matters (fun _ => rfl) fun _ => rfl)

/-- What the provider is asked and does is recorded. -/
theorem record_commits (e : ChargeEvent) (hkind : e.kind = .asked ∨ e.kind = .charged) :
    Commits admitted (record e) := by
  refine leads_of_change lasting_true fun L => ?_
  intro s n _ _ _
  refine ⟨.stay rfl rfl rfl rfl, ?_, .stay rfl, .refl rfl⟩
  refine .keep (fun i => i) [e] (fun _ => rfl) (fun _ => rfl) (List.map_id _).symm rfl rfl
    (fun e' he' houtcome => ?_) (.amended [e] (fun _ => rfl) fun e' he' => ?_) <;>
      rw [List.mem_singleton.mp he'] at *
  · rcases hkind with h | h <;> rw [h] at houtcome <;> cases houtcome <;> contradiction
  · exact hkind

/-- Invoices are written to, and what they came to stays. -/
theorem Commit.amend {f : SubscriptionInvoice → SubscriptionInvoice} (hid : ∀ i, (f i).id = i.id)
    (hnumber : ∀ i, (f i).number = i.number) (houtcome : ∀ i, (f i).outcome = i.outcome)
    (id : ℕ) (s : BillingDb) :
    Commit L s note { s with invoices := s.invoices.modify (fun i => i.id = id) f hid } := by
  refine ⟨.stay rfl rfl rfl rfl, ?_, .stay rfl, .refl rfl⟩
  refine .keep (fun i => if i.id = id then f i else i) [] (fun i => ?_) (fun i => ?_) ?_ rfl
    (List.append_nil _).symm (fun _ he => absurd he List.not_mem_nil)
    (.amended [] (fun i => ?_) fun _ he => absurd he List.not_mem_nil)
  · split
    · exact hid i
    · rfl
  · split
    · exact hnumber i
    · rfl
  · simp only [KeyedTable.modify, decide_eq_true_eq]
  · split
    · exact houtcome i
    · rfl

/-! ### Commits that rewrite a subscription -/

theorem locked {tenantId : ℕ} {sub : TenantSubscription} (h : sub.tenantId = tenantId) :
    Discipline.add L (.lock (.subscription tenantId)) (.lock (.subscription sub.tenantId)) :=
  .inl (by rw [h])

theorem subscriptionOf_eq_some {tenantId : ℕ} {sub : TenantSubscription}
    (h : s.subscriptionOf tenantId = some sub) : sub ∈ s.subscriptions ∧ sub.tenantId = tenantId :=
  ⟨List.mem_of_find?_eq_some h, by simpa using List.find?_some h⟩

/-- One row is rewritten by a function that keeps its keys. -/
theorem Rewrite.of_modify {row : TenantSubscription} {f : TenantSubscription → TenantSubscription}
    (hf : ∀ r, (f r).id = r.id) (hrow : row ∈ s.subscriptions)
    (hlock : L (.lock (.subscription row.tenantId))) (htenant : (f row).tenantId = row.tenantId)
    (hsubscriptions : s'.subscriptions = s.subscriptions.modify (fun r => r.id = row.id) f hf)
    (htenants : s'.tenantStatus = (fun id =>
        if id = row.tenantId then some (tenantStatusFor (f row).status) else s.tenantStatus id) ∨
      (f row).status = row.status ∧ s'.tenantStatus = s.tenantStatus) {ends : List Time}
    (hends : s'.periodEnds = s.periodEnds ++ ends.map fun e => (row.tenantId, e))
    (hend : (f row).currentPeriodEnd = row.currentPeriodEnd ∨
      ∃ e ∈ ends, (f row).currentPeriodEnd = some e) : Rewrite L s s' row (f row) ends := by
  refine ⟨hrow, hf row, htenant, hlock, fun r => ?_, htenants, hends, hend⟩
  rw [hsubscriptions, KeyedTable.mem_modify]
  simp only [decide_eq_true_eq]
  constructor
  · rintro ⟨x, hx, rfl⟩
    split
    · rename_i hid
      exact .inl (congrArg f (KeyedTable.eq_of_mem hx hrow hid))
    · rename_i hid
      exact .inr ⟨hx, hid⟩
  · rintro (rfl | ⟨hr, hid⟩)
    · exact ⟨row, hrow, (if_pos rfl).symm⟩
    · exact ⟨r, hr, (if_neg hid).symm⟩

/-- A subscription moves, after writes to other tables. -/
theorem Moves.of_move {s₀ : BillingDb} {sub : TenantSubscription} {event : SubscriptionEvent}
    {to' : SubscriptionStatus} {patch : Patch} (hsub : sub ∈ s.subscriptions)
    (hlock : L (.lock (.subscription sub.tenantId))) (hsubscriptions : s₀.subscriptions = s.subscriptions)
    (htenants : s₀.tenantStatus = s.tenantStatus) (ends : List Time)
    (hends : s₀.periodEnds = s.periodEnds ++ ends.map fun e => (sub.tenantId, e))
    (hend : (patch.apply sub).currentPeriodEnd = sub.currentPeriodEnd ∨
      ∃ e ∈ ends, (patch.apply sub).currentPeriodEnd = some e) (steps : List CycleStep)
    (hsteps : s₀.steps = s.steps ++ steps)
    (hcause : Cause note sub { patch.apply sub with status := to' } steps) :
    Moves L s note (s₀.move sub event to' patch) := by
  refine .rewrite sub _ ends steps (Rewrite.of_modify (f := fun r => { patch.apply r with status := to' })
    (fun r => patch.id r) hsub hlock (patch.tenantId sub) ?_ (.inl ?_) hends hend) hcause hsteps
  · simp only [BillingDb.move, hsubscriptions]
  · simp only [BillingDb.move, htenants]

/-- A transition meets the subscription as it stands, under its lock. -/
theorem wp_transition {f : BillingDb → BillingDb}
    {post : (Hold LockKey → Prop) → (BillingDb → Prop) → (BillingDb → BillingDb) →
      SubscriptionStatus → Prop} {tenantId : ℕ} {event : SubscriptionEvent} {patch : Patch}
    (hK : (committing admitted).Stable L K) (hf : ∀ s, (f s).subscriptions = s.subscriptions)
    (h : ∀ sub to', sub.tenantId = tenantId → nextSubscriptionStatus sub.status event = some to' →
      post (Discipline.add L (.lock (.subscription tenantId))) (fun s => K s ∧ sub ∈ s.subscriptions)
        ((·.move sub event to' patch) ∘ f) to') :
    (committing admitted).wp (transition tenantId event patch) L K f post := by
  simp only [transition, Discipline.wp_bind, Discipline.wp_acquire]
  refine wp_query (hK.add _) fun s n _ _ => ?_
  cases hfind : (f s).subscriptionOf tenantId with
  | none =>
    refine ⟨fun _ => True, stable_true, trivial, wp_require fun _ heq => ?_⟩
    cases heq
  | some sub =>
    obtain ⟨hsub, rfl⟩ := subscriptionOf_eq_some hfind
    rw [hf s] at hsub
    refine ⟨fun s => sub ∈ s.subscriptions, stable_subscription (.inl rfl), hsub, ?_⟩
    refine wp_require fun _ heq => ?_
    cases heq
    refine wp_require fun to' hnext => ?_
    rw [Discipline.wp_update, Discipline.wp_pure]
    exact h sub to' rfl hnext

/-- A subscription moves by an event, and nothing else happens. -/
theorem Commit.move {sub : TenantSubscription} {event : SubscriptionEvent}
    {to' : SubscriptionStatus} {patch : Patch} (hsub : sub ∈ s.subscriptions)
    (hlock : L (.lock (.subscription sub.tenantId)))
    (hnext : nextSubscriptionStatus sub.status event = some to')
    (hpatch : ∀ r, (patch.apply r).currentPeriodEnd = r.currentPeriodEnd) :
    Commit L s .plain (s.move sub event to' patch) := by
  refine ⟨.of_move hsub hlock rfl rfl [] (List.append_nil _).symm (.inl (hpatch sub))
    [] (List.append_nil _).symm (.event event (.inl rfl) hnext), .stay rfl rfl rfl, .stay rfl,
    .one rfl rfl⟩

/-- The commit also takes the event of a webhook a step further. -/
theorem Commit.handle {s₁ : BillingDb} {entry : Handling} (h : Commit L s note s₁)
    (hstay : s₁.handled = s.handled) (htold : Told L s (s₁.handle entry) entry) :
    Commit L s note (s₁.handle entry) := by
  refine ⟨?_, ?_, .tell entry htold (congrArg (· ++ [entry]) hstay), h.events⟩
  · cases h.moves with
    | stay h₁ h₂ h₃ h₄ => exact .stay h₁ h₂ h₃ h₄
    | first sub h₁ h₂ h₃ h₄ h₅ h₆ h₇ h₈ h₉ => exact .first sub h₁ h₂ h₃ h₄ h₅ h₆ h₇ h₈ h₉
    | rewrite row row' ends steps hrewrite hcause hsteps =>
      exact .rewrite row row' ends steps { hrewrite with } hcause hsteps
  · cases h.invoiced with
    | keep f events h₁ h₂ h₃ h₄ h₅ h₆ h₇ => exact .keep f events h₁ h₂ h₃ h₄ h₅ h₆ h₇
    | create inv fy h₁ h₂ h₃ h₄ h₅ h₆ h₇ => exact .create inv fy h₁ h₂ h₃ h₄ h₅ h₆ h₇

theorem transition_commits (tenantId : ℕ) (event : SubscriptionEvent) (patch : Patch)
    (hpatch : ∀ r, (patch.apply r).currentPeriodEnd = r.currentPeriodEnd) :
    Commits admitted (atomically (fun _ => .plain) (transition tenantId event patch)) := by
  refine leads_of_change lasting_true fun L => ?_
  refine wp_transition stable_true (fun _ => rfl) fun sub to' htenant hnext s n _ hK _ => ?_
  exact Commit.move hK.2 (locked htenant) hnext hpatch

/-- A cycle moves a subscription that was listed as due. -/
theorem cycleStep_commits {now : Time} {sub : TenantSubscription} {event : SubscriptionEvent}
    (hlapsed : sub.Lapsed event now) : Commits admitted (cycleStep now sub event) := by
  refine leads_of_change lasting_true fun L => ?_
  simp only [cycleStepTx, Discipline.wp_bind, Discipline.wp_update]
  refine wp_transition stable_true (fun _ => rfl) fun row to' htenant hnext => ?_
  rw [Discipline.wp_pure]
  intro s n hs hK _
  have hfound : s.subscriptionOf sub.tenantId = some row := by
    cases hfind : s.subscriptionOf sub.tenantId with
    | none =>
      have hnone := List.find?_eq_none.mp hfind row hK.2
      exact absurd (decide_eq_true htenant) hnone
    | some r =>
      obtain ⟨hr, hrtenant⟩ := subscriptionOf_eq_some hfind
      rw [Sound.tenants hs r hr row hK.2 (hrtenant.trans htenant.symm)]
  refine ⟨.of_move hK.2 (locked htenant) rfl rfl [] (List.append_nil _).symm (.inl rfl)
    [⟨sub, some row, event, now⟩] (congrArg (fun r => s.steps ++ [⟨sub, r, event, now⟩]) hfound)
    (.cycle sub event now rfl htenant.symm hlapsed hnext), .stay rfl rfl rfl, .stay rfl, .one rfl rfl⟩

/-- A subscription is edited that is there. -/
theorem editSubscription_commits (sub : TenantSubscription) (edit : Edit) :
    Follows admitted (fun _ s => s.HasSubscription sub)
      (atomically (fun _ => .plain) (editSubscription sub edit)) fun _ _ _ => True := by
  refine leads_of_change (lasting_hasSubscription sub) fun L s n _ hK _ => ?_
  obtain ⟨row, hrow, hid, htenant⟩ := hK
  refine ⟨.rewrite row (edit.apply row) [] [] ?_ (.edited rfl (edit.status row))
    (List.append_nil _).symm, .stay rfl rfl rfl, .stay rfl, .refl rfl⟩
  refine @Rewrite.of_modify _ _ _ _ _ edit.id hrow (locked htenant) (edit.tenantId row) ?_ ?_ []
    ?_ (.inl (edit.currentPeriodEnd row))
  · simp only [Function.comp_apply, id_eq, hid]
  · exact .inr ⟨edit.status row, rfl⟩
  · exact (List.append_nil _).symm

theorem extendTrial_commits (sub : TenantSubscription) (trialEndsAt : Time) :
    Follows admitted (fun _ s => s.HasSubscription sub)
      (atomically (fun _ => .extendTrial sub.tenantId) (extendTrialTx sub trialEndsAt))
      fun _ _ _ => True := by
  refine leads_of_change (lasting_hasSubscription sub) fun L s n _ hK _ => ?_
  obtain ⟨row, hrow, hid, htenant⟩ := hK
  refine ⟨.rewrite row { row with status := .trial, trialEndsAt := some trialEndsAt } [] [] ?_
    (.extended (congrArg Note.extendTrial htenant.symm) rfl) (List.append_nil _).symm,
    .stay rfl rfl rfl, .stay rfl, .one rfl rfl⟩
  refine @Rewrite.of_modify _ _ _ _
    (fun r => { r with status := .trial, trialEndsAt := some trialEndsAt })
    (fun _ => rfl) hrow (locked htenant) rfl ?_ (.inl ?_) [] ?_ (.inl rfl)
  · simp only [Function.comp_apply, id_eq, BillingDb.extendTrial, hid]
  · simp only [Function.comp_apply, id_eq, BillingDb.extendTrial, htenant]
    rfl
  · exact (List.append_nil _).symm

/-- A period begins with a reactivation, or goes on. -/
theorem reactivate_commits (sub : TenantSubscription) (now : Time) :
    Commits admitted (atomically (fun _ => .plain) (reactivateTx sub now)) := by
  refine leads_of_change lasting_true fun L => ?_
  simp only [reactivateTx, Discipline.wp_bind, Discipline.wp_update]
  refine wp_transition stable_true (fun _ => rfl) fun row to' htenant hnext => ?_
  rw [Discipline.wp_pure]
  intro s n hs hK _
  refine ⟨.of_move hK.2 (locked htenant) rfl rfl (reactivatedEnd sub now).toList ?_ ?_
    [] (List.append_nil _).symm (.event .adminReactivate (.inl rfl) hnext), .stay rfl rfl rfl, .stay rfl,
    .one rfl rfl⟩
  · rw [htenant]
    rfl
  · unfold reactivatePatch reactivatedEnd
    split
    · exact .inl rfl
    · exact .inr ⟨_, List.mem_singleton_self _, rfl⟩

/-- A tenant's first subscription is made as the tenant stands. -/
theorem upsertSubscription_commits {tenantId : ℕ} {status : TenantStatus}
    {first : ℕ → TenantSubscription} (hid : ∀ id, (first id).id = id)
    (htenant : ∀ id, (first id).tenantId = tenantId)
    (hstatus : ∀ id, tenantStatusFor (first id).status = status) :
    Follows admitted (fun _ s => s.TenantAs tenantId status)
      (atomically (fun _ => .plain) (upsertSubscription tenantId first))
      fun sub _ s => s.HasSubscription sub := by
  refine leads_transaction (lasting_tenantAs tenantId status)
    (fun sub L => (lasting_hasSubscription sub).known L) fun L => ?_
  simp only [upsertSubscription, Discipline.wp_bind, Discipline.wp_acquire]
  have htenantAs := (@lasting_tenantAs admitted tenantId status).known L
  refine wp_query (htenantAs.add _) fun s n _ _ => ?_
  cases hfind : (id s).subscriptionOf tenantId with
  | some sub =>
    obtain ⟨hsub, rfl⟩ := subscriptionOf_eq_some hfind
    refine ⟨fun s => sub ∈ s.subscriptions, stable_subscription (.inl rfl), hsub, ?_⟩
    exact fun s n _ hK _ => ⟨Quiet.commit quiet_id s, sub, hK.2, rfl, rfl⟩
  | none =>
    have hnone : ∀ r ∈ s.subscriptions, r.tenantId ≠ tenantId := fun r hr heq =>
      List.find?_eq_none.mp hfind r hr (decide_eq_true heq)
    refine ⟨_, stable_none (.inl rfl), hnone, ?_⟩
    simp only [Discipline.wp_bind]
    refine wp_draw ((htenantAs.add _).and (stable_none (.inl rfl))) fun s n hs _ =>
      ⟨_, stable_subscriptionNumber (.inl rfl), fun r hr => (Sound.subscriptions hs r hr).ne, ?_⟩
    rw [Discipline.wp_update, Discipline.wp_pure]
    intro s k _ hK _
    have hnew : ∀ r ∈ s.subscriptions, r.id ≠ (first n).id := by
      rw [hid]
      exact hK.2
    refine ⟨⟨.first (first n) (.inl (by rw [hid])) (.inr (.inl (by rw [htenant]))) ?_ hnew ?_ rfl rfl ?_
      rfl, .stay rfl rfl rfl, .stay rfl, .refl rfl⟩, first n, KeyedTable.mem_put.mpr (.inl rfl), rfl, rfl⟩
    · rw [htenant]
      exact hK.1.2
    · rw [htenant, hstatus]
      exact hK.1.1 hK.1.2
    · rw [htenant]
      rfl

/-! ### Invoices and their outcomes -/

/-- What is known of the webhooks alone, and lasts. -/
structure Framed (admitted : Note → (Hold LockKey → Prop) → BillingDb → Prop)
    (J : Assertion BillingDb) : Prop where
  lasting : Lasting (committing admitted) J
  own : ∀ N s s', s'.handled = s.handled → J N s → J N s'

theorem framed_true : Framed admitted fun _ _ => True := ⟨lasting_true, fun _ _ _ _ => id⟩

variable {J : Assertion BillingDb}

/-- A transaction that leaves the events of webhooks as they are. -/
theorem Framed.follows (hJ : Framed admitted J) {α : Type} {note : α → Note} {t : BillingTx α}
    (h : ∀ L, (committing admitted).wp t L (J (drawn L)) id fun L K f a => ∀ s n, Sound s n → K s →
      Commit L s (note a) (f s) ∧ (f s).handled = s.handled) :
    Follows admitted J (atomically note t) fun _ => J := by
  refine leads_admitted hJ.lasting (fun _ L => (hJ.lasting.stable L).anti fun _ hk => hk.1) fun L => ?_
  refine Discipline.wp_mono (h L) fun L K f a hcommit s n hs hK hJs _ => ?_
  obtain ⟨hchange, hsame⟩ := hcommit s n hs hK
  exact ⟨hchange, hJ.own _ s _ hsame hJs⟩

theorem Framed.stable (hJ : Framed admitted J) (L : Hold LockKey → Prop) :
    (committing admitted).Stable L (J (drawn L)) :=
  (hJ.lasting.stable L).anti fun _ hk => hk.1

/-- An invoice is made under the next number of its series. -/
theorem createInvoice_follows (hJ : Framed admitted J) (sub : TenantSubscription) (plan : Plan)
    (periodStart : Time) : Follows admitted J (createInvoice sub plan periodStart) fun _ => J := by
  refine hJ.follows fun L => ?_
  simp only [createInvoiceTx, nextInvoiceNumber, Discipline.wp_bind, Discipline.wp_acquire]
  refine wp_query ((hJ.stable L).add _) fun s n _ _ =>
    ⟨_, @stable_counter _ _ (financialYear periodStart) _ (.inl rfl), rfl, ?_⟩
  rw [Discipline.wp_update, Discipline.wp_pure]
  refine wp_draw (((hJ.stable L).add _).and (stable_counter (.inl rfl))) fun s' k hs _ =>
    ⟨_, stable_invoiceNumber (.inl rfl), fun i hi => (Sound.invoices hs i hi).ne, ?_⟩
  rw [Discipline.wp_update, Discipline.wp_pure]
  rintro s₁ m - ⟨⟨-, hcounter⟩, hnew⟩
  refine ⟨⟨.stay rfl rfl rfl rfl, .create (invoiceRow sub plan periodStart k _)
    (financialYear periodStart) (.inl rfl) (.inr (.inl rfl)) hnew ?_ rfl ?_ rfl, .stay rfl, .refl rfl⟩, rfl⟩
  · rw [hcounter]
    rfl
  · rw [hcounter]
    rfl

theorem setPeriodEnd_follows (hJ : Framed admitted J) (invoiceId : ℕ) (periodEnd : Time) :
    Follows admitted J (atomically (fun _ => .plain) (setPeriodEndTx invoiceId periodEnd))
      fun _ => J := by
  refine hJ.follows fun L => ?_
  simp only [setPeriodEndTx, Discipline.wp_bind, Discipline.wp_acquire]
  refine wp_query_any ((hJ.stable L).add _) fun inv => wp_check fun _ s n _ _ => ?_
  exact ⟨Commit.amend (f := fun i => { i with periodEnd := periodEnd }) (fun _ => rfl) (fun _ => rfl)
    (fun _ => rfl) invoiceId s, rfl⟩

/-- The database after an invoice was paid that was read so. -/
def BillingDb.pay (db : BillingDb) (inv : SubscriptionInvoice) (now : Time)
    (providerRef : Option String) (sub : TenantSubscription) (to' : SubscriptionStatus) : BillingDb :=
  BillingDb.move { db.setInvoice inv.id .paid (some now) providerRef with
    log := db.log ++ [inv.event .paid]
    periodEnds := db.periodEnds ++ [(inv.tenantId, inv.periodEnd)] } sub .paymentSucceeded to'
    (paidPatch inv)

/-- One invoice is written to. -/
theorem setInvoice_rows (s : BillingDb) (id : ℕ) (status : InvoiceStatus) (paidAt : Option Time)
    (providerRef : Option String) : (s.setInvoice id status paidAt providerRef).invoices.rows =
      s.invoices.rows.map fun i => if i.id = id then { i with
        status := status
        paidAt := paidAt
        providerRef := providerRef
        attempts := i.attempts + 1 } else i := by
  simp only [BillingDb.setInvoice, KeyedTable.modify, decide_eq_true_eq]

/-- What comes of an invoice is written to it, with the event that is recorded. -/
theorem Invoiced.of_setInvoice {id : ℕ} {status : InvoiceStatus} {paidAt : Option Time}
    {providerRef : Option String} {e : ChargeEvent} (hknown : s.HasInvoice e.invoiceId)
    (hrows : s'.invoices = (s.setInvoice id status paidAt providerRef).invoices)
    (hcounters : s'.counters = s.counters) (hlog : s'.log = s.log ++ [e])
    (hcause : ∀ f : SubscriptionInvoice → SubscriptionInvoice,
      (∀ i, i.id ≠ id → (f i).outcome = i.outcome) → (∀ i, i.id = id → (f i).status = status) →
        InvoiceCause note f [e]) : Invoiced L s note s' := by
  refine .keep _ [e] (fun i => ?_) (fun i => ?_)
    ((congrArg KeyedTable.rows hrows).trans (setInvoice_rows _ _ _ _ _)) hcounters hlog
    (fun e' he' _ => List.mem_singleton.mp he' ▸ hknown) (hcause _ (fun i hi => ?_) fun i hi => ?_)
  · split <;> rfl
  · split <;> rfl
  · rw [if_neg hi]
  · rw [if_pos hi]

theorem mem_setInvoice {id : ℕ} {status : InvoiceStatus} {paidAt : Option Time}
    {providerRef : Option String} (h : s.HasInvoice id) :
    ∃ i ∈ (s.setInvoice id status paidAt providerRef).invoices, i.id = id ∧ i.status = status := by
  obtain ⟨i, hi, rfl⟩ := h
  let written : SubscriptionInvoice := { i with
    status := status
    paidAt := paidAt
    providerRef := providerRef
    attempts := i.attempts + 1 }
  refine ⟨written, ?_, rfl, rfl⟩
  rw [KeyedTable.mem_def, setInvoice_rows]
  exact List.mem_map.mpr ⟨i, hi, if_pos rfl⟩

theorem Commit.pay {inv : SubscriptionInvoice} {now : Time} {providerRef : Option String}
    {sub : TenantSubscription} {to' : SubscriptionStatus} (hinv : s.HasInvoice inv.id)
    (hsub : sub ∈ s.subscriptions) (hlock : L (.lock (.subscription sub.tenantId)))
    (htenant : sub.tenantId = inv.tenantId)
    (hnext : nextSubscriptionStatus sub.status .paymentSucceeded = some to') :
    Commit L s (.paid inv) (s.pay inv now providerRef sub to') := by
  refine ⟨.of_move hsub hlock rfl rfl [inv.periodEnd] ?_ (.inr ⟨_, List.mem_singleton_self _, rfl⟩)
    [] (List.append_nil _).symm (.paid inv rfl htenant hnext rfl), ?_, .stay rfl, .one rfl rfl⟩
  · rw [htenant]
    rfl
  · exact .of_setInvoice (e := inv.event .paid) hinv rfl rfl rfl fun _ hother hthis =>
      .paid inv rfl hother hthis

/-- An invoice is paid, or was when it was read. -/
theorem wp_markPaid {post : (Hold LockKey → Prop) → (BillingDb → Prop) → (BillingDb → BillingDb) →
      Option SubscriptionInvoice → Prop} {invoiceId : ℕ} {providerRef : Option String}
    (hK : (committing admitted).Stable L K)
    (hnone : ∀ K', (∀ s, K' s → K s) → post L K' id none)
    (hsome : ∀ inv now sub to' L', Extends L L' → L' (.lock (.subscription sub.tenantId)) →
      sub.tenantId = inv.tenantId →
      nextSubscriptionStatus sub.status .paymentSucceeded = some to' →
      post L' (fun s => (K s ∧ s.HasInvoice inv.id) ∧ sub ∈ s.subscriptions)
        (·.pay inv now providerRef sub to') (some inv)) :
    (committing admitted).wp (markPaid invoiceId providerRef) L K id post := by
  simp only [markPaid, Discipline.wp_bind]
  refine wp_query hK fun s n _ _ => ?_
  cases hfind : (id s).invoices.find? invoiceId with
  | none =>
    refine ⟨fun _ => True, stable_true, trivial, wp_require fun _ heq => ?_⟩
    cases heq
  | some inv =>
    have hinv : inv ∈ s.invoices := (KeyedTable.find?_eq_some.mp hfind).1
    have hstable := (@lasting_hasInvoice admitted inv.id).known L
    refine ⟨_, hstable, ⟨inv, hinv, rfl⟩, wp_require fun _ heq => ?_⟩
    cases heq
    split
    · exact hnone _ fun s h => h.1
    · simp only [Discipline.wp_bind, Discipline.wp_acquire, Discipline.wp_update]
      refine wp_query_any (hK.and hstable) fun now => ?_
      refine wp_transition ((hK.and hstable).add _) (fun _ => rfl) fun sub to' htenant hnext => ?_
      rw [Discipline.wp_pure]
      exact hsome inv now sub to' _ ((Extends.lock L _).trans (Extends.lock _ _)) (locked htenant)
        htenant hnext

/-- The database after an invoice failed that was read so. -/
def BillingDb.fail (db : BillingDb) (inv : SubscriptionInvoice) : BillingDb :=
  { db.setInvoice inv.id .failed inv.paidAt inv.providerRef with
    log := db.log ++ [inv.event .failed] }

theorem Invoiced.fail {inv : SubscriptionInvoice} (hinv : s.HasInvoice inv.id) (hinvoices : s'.invoices = (s.fail inv).invoices)
    (hcounters : s'.counters = s.counters) (hlog : s'.log = s.log ++ [inv.event .failed]) :
    Invoiced L s (.failed inv.id) s' :=
  .of_setInvoice (e := inv.event .failed) hinv hinvoices hcounters hlog fun _ hother hthis =>
    .failed inv rfl hother hthis

/-- An invoice fails, and its subscription with it if it can. -/
theorem wp_markFailed {post : (Hold LockKey → Prop) → (BillingDb → Prop) →
      (BillingDb → BillingDb) → Unit → Prop} {invoiceId : ℕ}
    (hK : (committing admitted).Stable L K)
    (h : ∀ inv L' K' f, inv.id = invoiceId → Extends L L' → (∀ s, K' s → K s ∧ s.HasInvoice inv.id) →
      (∀ s, K' s → Commit L' s (.failed inv.id) (f s) ∧ (f s).handled = s.handled ∧
        (f s).invoices = (s.fail inv).invoices) → post L' K' f ()) :
    (committing admitted).wp (markFailed invoiceId) L K id post := by
  simp only [markFailed, Discipline.wp_bind, Discipline.wp_acquire]
  refine wp_query (hK.add _) fun s n _ _ => ?_
  cases hfind : (id s).invoices.find? invoiceId with
  | none =>
    refine ⟨fun _ => True, stable_true, trivial, wp_require fun _ heq => ?_⟩
    cases heq
  | some inv =>
    obtain ⟨hinv, hid⟩ := KeyedTable.find?_eq_some.mp hfind
    have hstable := (@lasting_hasInvoice admitted inv.id).known
      (Discipline.add L (.lock (.invoice invoiceId)))
    refine ⟨_, hstable, ⟨inv, hinv, rfl⟩, wp_require fun _ heq => ?_⟩
    cases heq
    rw [Discipline.wp_update]
    have hstable' := (hK.add (.lock (.invoice invoiceId))).and hstable
    refine wp_query_any hstable' fun found => wp_require fun sub _ => ?_
    split
    · simp only [Discipline.wp_bind]
      refine wp_query_any hstable' fun now => ?_
      refine wp_transition hstable' (fun _ => rfl) fun row to' htenant hnext => ?_
      rw [Discipline.wp_pure]
      refine h inv _ _ _ hid ((Extends.lock L _).trans (Extends.lock _ _)) (fun s hK => hK.1)
        fun s hK => ⟨⟨?_, .fail hK.1.2 rfl rfl rfl, .stay rfl, .one rfl rfl⟩, rfl, rfl⟩
      exact .of_move hK.2 (locked htenant) rfl rfl [] (List.append_nil _).symm (.inl rfl)
        [] (List.append_nil _).symm (.event .paymentFailed (.inr ⟨_, rfl⟩) hnext)
    · rw [Discipline.wp_update]
      exact h inv _ _ _ hid (Extends.lock L _) (fun s hK => hK) fun s hK =>
        ⟨⟨.stay rfl rfl rfl rfl, .fail hK.2 rfl rfl rfl, .stay rfl, .one rfl rfl⟩, rfl, rfl⟩

/-! ### Events of webhooks -/

/-- An event belongs to the delivery that has recorded it, and is applied or not yet. -/
def Owns (eventId : String) (applied : Bool) : Assertion BillingDb :=
  fun N s => ∃ id, N id ∧ Owned eventId id applied s

theorem framed_owns (eventId : String) (applied : Bool) :
    Framed admitted (Owns eventId applied) where
  lasting := by
    refine ⟨fun L => ?_, fun N s n _ h => ?_⟩
    · rintro L' s n s' n' hs hs' hother hstep ⟨id, hid, h⟩
      exact ⟨id, hid, stable_owned (L := numbers L) (numbers_number.mpr hid) L' s n s' n' hs hs' hother
        hstep h⟩
    · obtain ⟨id, hid, h⟩ := h
      exact ⟨id, .inr hid, h⟩
  own := by
    rintro N s s' hsame ⟨id, hid, h, happlied⟩
    refine ⟨id, hid, hsame ▸ h, ?_⟩
    simp only [BillingDb.HasApplied, hsame] at happlied ⊢
    exact happlied

/-- An event is applied by the delivery that has recorded it. -/
theorem Commit.apply {eventId : String} {effect : WebhookEffect} {s₁ : BillingDb}
    (howns : Owns eventId false (drawn L) s) (h : Commit L s note s₁) (hstay : s₁.handled = s.handled)
    (heffect : effect.Holds s₁) : Commit L s note (s₁.handle (.applied eventId effect)) := by
  obtain ⟨id, hid, hrecorded, happlied⟩ := howns
  refine h.handle hstay (.applied eventId effect id hid hrecorded (fun h => ?_) ?_)
  · exact absurd (happlied.mp h) (by decide)
  · cases effect <;> exact heffect

theorem hasApplied_handle (s : BillingDb) (eventId : String) (effect : WebhookEffect) :
    (s.handle (.applied eventId effect)).HasApplied eventId :=
  ⟨effect, List.mem_append_right _ (List.mem_singleton_self _)⟩

/-- A transaction that applies an event. -/
theorem follows_apply {eventId : String} {α : Type} {note : α → Note} {t : BillingTx α}
    (h : ∀ L, (committing admitted).wp t L (Owns eventId false (drawn L)) id fun L K f a =>
      ∀ s n, Sound s n → K s → Owns eventId false (drawn L) s → ∃ s₁ effect,
        f s = s₁.handle (.applied eventId effect) ∧ Commit L s (note a) s₁ ∧ s₁.handled = s.handled ∧
          effect.Holds s₁) :
    Follows admitted (Owns eventId false) (atomically note t) fun _ _ s => s.HasApplied eventId := by
  refine leads_admitted (framed_owns eventId false).lasting
    (fun _ L => (lasting_hasApplied eventId).known L) fun L => ?_
  refine Discipline.wp_mono (h L) fun L K f a hcommit s n hs hK howns _ => ?_
  obtain ⟨s₁, effect, hf, hchange, hstay, heffect⟩ := hcommit s n hs hK howns
  rw [hf]
  exact ⟨Commit.apply howns hchange hstay heffect, hasApplied_handle _ _ _⟩

theorem handling_nothing (eventId : String) :
    Follows admitted (Owns eventId false) (handling (.applied eventId .nothing))
      fun _ _ s => s.HasApplied eventId :=
  follows_apply fun _ s _ _ _ _ => ⟨s, .nothing, rfl, Quiet.commit quiet_id s, rfl, trivial⟩

theorem applyMove_follows (eventId : String) (tenantId : ℕ) (event : SubscriptionEvent) (patch : Patch)
    (hpatch : ∀ r, (patch.apply r).currentPeriodEnd = r.currentPeriodEnd) :
    Follows admitted (Owns eventId false) (applyMove eventId tenantId event patch)
      fun _ _ s => s.HasApplied eventId := by
  refine follows_apply fun L => ?_
  simp only [Discipline.wp_bind]
  refine wp_transition ((framed_owns eventId false).stable L) (fun _ => rfl)
    fun sub to' htenant hnext => ?_
  rw [Discipline.wp_update]
  intro s n _ hK _
  have hcommit : Commit (Discipline.add L (.lock (.subscription tenantId))) s .plain
      (s.move sub event to' patch) := Commit.move hK.2 (locked htenant) hnext hpatch
  refine ⟨_, _, rfl, hcommit, rfl, { patch.apply sub with status := to' }, ?_, ?_, rfl⟩
  · exact List.mem_map.mpr ⟨sub, hK.2, if_pos (decide_eq_true rfl)⟩
  · exact (patch.tenantId sub).trans htenant

theorem applyTransition_follows (eventId : String) (sub : TenantSubscription)
    (event : SubscriptionEvent) :
    Follows admitted (Owns eventId false) (applyTransition eventId sub event)
      fun _ _ s => s.HasApplied eventId := by
  unfold applyTransition
  split
  · exact applyMove_follows _ _ _ _ fun _ => rfl
  · exact handling_nothing eventId

theorem applyPaymentFailed_follows (eventId : String) (sub : TenantSubscription) :
    Follows admitted (Owns eventId false) (applyPaymentFailed eventId sub)
      fun _ _ s => s.HasApplied eventId := by
  unfold applyPaymentFailed
  refine Triple.bind (triple_look_any _) fun unpaid => ?_
  cases unpaid with
  | none =>
    dsimp only
    split
    · exact Triple.bind (triple_look_any _) fun _ => applyMove_follows _ _ _ _ fun _ => rfl
    · exact handling_nothing eventId
  | some inv =>
    refine follows_apply fun L => ?_
    simp only [Discipline.wp_bind]
    refine wp_markFailed ((framed_owns eventId false).stable L) fun inv' L' K' f hid _ hK' hcommit => ?_
    rw [Discipline.wp_update]
    intro s n _ hK _
    obtain ⟨hchange, hstay, hinvoices⟩ := hcommit s hK
    refine ⟨_, _, rfl, hid ▸ hchange, hstay, ?_⟩
    change ∃ i ∈ (f s).invoices, _
    rw [hinvoices, ← hid]
    exact mem_setInvoice (hK' s hK).2

theorem invoiceFor_follows (hJ : Framed admitted J) (sub : TenantSubscription) (plan : Plan)
    (periodStart : Time) : Follows admitted J (invoiceFor sub plan periodStart) fun _ => J := by
  unfold invoiceFor
  refine Triple.bind (triple_look_any _) fun existing => ?_
  cases existing with
  | none => exact createInvoice_follows hJ sub plan periodStart
  | some inv => exact triple_pure inv fun _ _ _ _ h => h

theorem applyCharged_follows (sub : TenantSubscription) (plan : Plan) (evt : BillingWebhookEvent) :
    Follows admitted (Owns evt.eventId false) (applyCharged sub plan evt)
      fun _ _ s => s.HasApplied evt.eventId := by
  unfold applyCharged
  have hframed := @framed_owns admitted evt.eventId false
  refine Triple.bind (triple_look_any _) fun now =>
    Triple.bind (invoiceFor_follows hframed sub plan _) fun inv => ?_
  have hpaid : Follows admitted (Owns evt.eventId false) (atomically paidNote do
      let paid ← markPaid inv.id evt.paymentId
      update (·.handle (.applied evt.eventId (paid.elim .nothing fun inv => .paid inv.id)))
      return paid) fun _ _ s => s.HasApplied evt.eventId := by
    refine follows_apply fun L => ?_
    simp only [Discipline.wp_bind]
    refine wp_markPaid (hframed.stable L) (fun K' hK' => ?_)
      fun inv now row to' L' _ hlock htenant hnext => ?_
    · rw [Discipline.wp_update, Discipline.wp_pure]
      exact fun s n _ _ _ => ⟨s, .nothing, rfl, Quiet.commit quiet_id s, rfl, trivial⟩
    · rw [Discipline.wp_update, Discipline.wp_pure]
      exact fun s n _ hK _ => ⟨_, .paid inv.id, rfl, Commit.pay hK.1.2 hK.2 hlock htenant hnext, rfl,
        mem_setInvoice hK.1.2⟩
  have hend := hpaid.bind (R := fun _ _ s => s.HasApplied evt.eventId) fun _ =>
    triple_pure () fun _ _ _ _ h => h
  cases evt.periodEnd with
  | none => exact (triple_pure () fun _ _ _ _ h => h).bind fun _ => hend
  | some periodEnd => exact (setPeriodEnd_follows hframed inv.id periodEnd).bind fun _ => hend

theorem applyEvent_follows (sub : TenantSubscription) (plan : Plan) (evt : BillingWebhookEvent) :
    Follows admitted (Owns evt.eventId false) (applyEvent sub plan evt)
      fun _ _ s => s.HasApplied evt.eventId := by
  unfold applyEvent
  cases evt.type with
  | activated => exact handling_nothing _
  | charged => exact applyCharged_follows sub plan evt
  | paymentFailed => exact applyPaymentFailed_follows _ sub
  | halted => exact applyTransition_follows _ sub _
  | cancelled => exact applyTransition_follows _ sub _

/-- An event that is new is recorded. -/
theorem recordEvent_follows (tenantId : ℕ) (evt : BillingWebhookEvent) :
    Follows admitted (fun _ _ => True) (atomically (fun _ => .plain) (recordEventTx tenantId evt))
      fun _ => Owns evt.eventId false := by
  refine leads_admitted lasting_true
    (fun _ L => (framed_owns evt.eventId false).stable L) fun L => ?_
  simp only [recordEventTx, Discipline.wp_bind, Discipline.wp_acquire]
  refine wp_query stable_true fun s n _ _ => ?_
  cases htaken : (id s).events.any fun e => e.providerEventId = some evt.eventId with
  | true =>
    refine ⟨fun _ => True, stable_true, trivial, wp_check fun hfalse => ?_⟩
    cases hfalse
  | false =>
    have hnew : ∀ e ∈ s.events, e.providerEventId ≠ some evt.eventId := by
      simpa using List.any_eq_false.mp htaken
    refine ⟨_, stable_unrecorded (.inl rfl), hnew, wp_check fun _ => ?_⟩
    refine wp_draw (stable_true.and (stable_unrecorded (.inl rfl))) fun s id _ _ =>
      ⟨fun _ => True, stable_true, trivial, ?_⟩
    rw [Discipline.wp_update]
    rintro s n hs ⟨⟨-, hnew⟩, -⟩ - -
    refine ⟨⟨.stay rfl rfl rfl rfl, .stay rfl rfl rfl, ?_, ?_⟩, id, .inl rfl, ?_, ?_⟩
    · refine .tell _ (.recorded evt.eventId id (.inl rfl) hnew ?_) rfl
      exact ⟨_, List.mem_append_right _ (List.mem_singleton_self _), rfl⟩
    · refine ⟨_, rfl, fun e he eventId heq => ?_⟩
      rw [List.mem_singleton.mp he] at heq
      cases heq
      exact .inr (.inl rfl)
    · exact List.mem_append_right _ (List.mem_singleton_self _)
    · refine ⟨fun happlied => ?_, fun h => absurd h (by decide)⟩
      obtain ⟨effect, hin⟩ := happlied
      rcases List.mem_append.mp hin with hin | hin
      · obtain ⟨k, hk⟩ := Sound.appliedRecorded hs evt.eventId ⟨effect, hin⟩
        obtain ⟨-, e, he, hid⟩ := Sound.recorded hs evt.eventId k hk
        exact absurd hid (hnew e he)
      · exact absurd (List.mem_singleton.mp hin) nofun

/-! ### The methods -/

/-- The delivery that has recorded an event is over. -/
theorem handling_finished (eventId : String) :
    Follows admitted (fun _ s => s.HasApplied eventId) (handling (.finished eventId))
      fun _ _ s => s.HasApplied eventId := by
  refine leads_transaction (lasting_hasApplied eventId)
    (fun _ L => (lasting_hasApplied eventId).known L) fun L s n _ hK _ => ?_
  refine ⟨(Quiet.commit quiet_id s).handle rfl (.finished eventId hK), ?_⟩
  obtain ⟨effect, hin⟩ := hK
  exact ⟨effect, List.mem_append_left _ hin⟩

theorem collect_commits (invoiceId : ℕ) : Commits admitted (collect invoiceId) := by
  unfold collect
  refine (leads_look _).andThen fun found => (leads_getOr _ _).andThen fun found => ?_
  obtain ⟨inv, providerSubscriptionId⟩ := found
  refine (record_commits _ (.inl rfl)).andThen fun _ => (leads_ask _).andThen fun result => ?_
  cases result with
  | paid providerRef =>
    refine (record_commits _ (.inr rfl)).andThen fun _ =>
      Leads.andThen (leads_of_change lasting_true fun L => ?_) fun _ => leads_pure ()
    refine wp_markPaid stable_true (fun K' _ s n _ _ _ => ?_)
      fun inv now sub to' L' _ hlock htenant hnext s n _ hK _ => ?_
    · exact Quiet.commit quiet_id s
    · exact Commit.pay hK.1.2 hK.2 hlock htenant hnext
  | failed =>
    refine leads_of_change lasting_true fun L => ?_
    refine wp_markFailed stable_true fun inv' L' K' f hid _ _ hcommit s n _ hK _ => ?_
    exact hid ▸ (hcommit s hK).1
  | pending =>
    refine leads_of_change lasting_true fun L s n _ _ _ => ?_
    exact Commit.amend (f := fun i => { i with attempts := i.attempts + 1 }) (fun _ => rfl)
      (fun _ => rfl) (fun _ => rfl) inv.id s
  | error => exact leads_throw _

theorem renew_commits (sub : TenantSubscription) (plan : Plan) : Commits admitted (renew sub plan) := by
  unfold renew
  exact (leads_getOr _ _).andThen fun _ => (invoiceFor_follows framed_true _ _ _).andThen fun _ =>
    (collect_commits _).andThen fun _ => (leads_look _).andThen fun _ => (leads_getOr _ _).andThen
      fun _ => leads_pure _

/-- What is listed is due for what the cycle does. -/
theorem cycleOne_commits {now : Time} {sub : TenantSubscription} (plan : Plan)
    (hdue : sub.due now = true) : Commits admitted (cycleOne now sub plan) := by
  unfold cycleOne
  split_ifs with htrial hpastDue hcancel
  · have hlapsed : sub.Lapsed .trialExpired now := by
      simp only [TenantSubscription.due, htrial, Option.any_eq_true, decide_eq_true_eq] at hdue
      exact ⟨htrial, hdue⟩
    exact (cycleStep_commits hlapsed).andThen fun _ => leads_pure _
  · have hlapsed : sub.Lapsed .graceExpired now := by
      simp only [TenantSubscription.due, hpastDue, Option.any_eq_true, decide_eq_true_eq] at hdue
      exact ⟨hpastDue, hdue⟩
    exact (cycleStep_commits hlapsed).andThen fun _ => leads_pure _
  · have hactive : sub.status = .active := by
      revert hdue htrial hpastDue
      unfold TenantSubscription.due
      cases sub.status <;> simp
    have hlapsed : sub.Lapsed .periodEnded now := by
      simp only [TenantSubscription.due, hactive, Option.any_eq_true, decide_eq_true_eq] at hdue
      exact ⟨hactive, hdue, hcancel⟩
    exact (cycleStep_commits hlapsed).andThen fun _ => leads_pure _
  · exact (renew_commits sub plan).andThen fun _ => leads_pure _
  · exact leads_pure none

theorem runCycle_commits : Commits admitted runCycle := by
  unfold runCycle
  refine (leads_look _).andThen fun now => ?_
  refine triple_look_bind (P := fun due => ∀ d ∈ due, d.1.due now = true) (R := fun _ _ _ => True)
    (fun _ _ => stable_true) (fun _ s _ _ _ => ⟨fun d hd => ?_, trivial⟩) fun due hdue => ?_
  · obtain ⟨sub, hsub, hd⟩ := List.mem_filterMap.mp hd
    obtain ⟨plan, -, rfl⟩ := Option.map_eq_some_iff.mp hd
    exact (List.mem_filter.mp hsub).2
  · exact triple_mapM_keep fun d hd =>
      triple_tryCatch (cycleOne_commits d.2 (hdue d hd)) fun _ => leads_pure none

/-- A tenant's subscription is there, or is made. -/
theorem ensureSubscription_follows (tenantId : ℕ) :
    Follows admitted (fun _ _ => True) (ensureSubscription tenantId)
      fun found _ s => s.HasSubscription found.1 := by
  have hstable : ∀ (found : Option (TenantSubscription × Plan)) (L : Hold LockKey → Prop),
      (committing admitted).Stable L fun s => ∀ x ∈ found, s.HasSubscription x.1 :=
    fun found L => stable_forall_mem fun x _ => (lasting_hasSubscription x.1).known L
  have hwith : ∀ (s : BillingDb) sub found, s.withPlan sub = some found → found.1 = sub := by
    intro s sub found h
    obtain ⟨plan, -, rfl⟩ := Option.map_eq_some_iff.mp h
    rfl
  unfold ensureSubscription
  refine triple_look_bind (P := fun _ => True) (R := fun found _ s => ∀ x ∈ found, s.HasSubscription x.1)
    hstable (fun _ s _ _ _ => ⟨trivial, fun x hx => ?_⟩) fun existing _ => ?_
  · obtain ⟨sub, hsub, hx⟩ := Option.bind_eq_some_iff.mp hx
    rw [hwith s sub x hx]
    exact ⟨sub, (subscriptionOf_eq_some hsub).1, rfl, rfl⟩
  cases existing with
  | some found => exact triple_pure found fun _ _ _ _ h => h found rfl
  | none =>
    refine Triple.pre (J := fun _ _ => True) ?_ fun _ _ _ _ _ => trivial
    refine ensurePlans_commits.andThen fun _ => ?_
    refine triple_look_bind (P := fun _ => True)
      (R := fun tenant _ s => ∀ x ∈ tenant, s.TenantAs tenantId x.1)
      (fun tenant L => stable_forall_mem fun x _ => (lasting_tenantAs tenantId x.1).known L)
      (fun _ s _ _ _ => ⟨trivial, fun x hx _ => ?_⟩) fun tenant _ => ?_
    · obtain ⟨status, hstatus, rfl⟩ := Option.map_eq_some_iff.mp hx
      exact hstatus
    refine Triple.bind (triple_look_any _) fun plan => ?_
    refine triple_getOr_bind (fun x hx => ?_) fun _ _ _ _ _ => trivial
    refine triple_getOr_bind (fun plan _ => ?_) fun _ _ _ _ _ => trivial
    refine Triple.bind (triple_look_any _) fun now => ?_
    have hstatus : ∀ id,
        tenantStatusFor (firstSubscription tenantId plan.id x.1 x.2 now id).status = x.1 := by
      intro id
      cases hx : x.1 <;> rfl
    have hupsert := @upsertSubscription_commits admitted _ _
      (firstSubscription tenantId plan.id x.1 x.2 now) (fun _ => rfl) (fun _ => rfl) hstatus
    refine Triple.bind (hupsert.pre fun _ _ _ _ h => h x hx) fun sub => ?_
    · refine triple_look_bind (P := fun found => ∀ x ∈ found, x.1 = sub)
        (R := fun _ _ s => s.HasSubscription sub)
        (fun _ L => (lasting_hasSubscription sub).known L)
        (fun _ s _ _ h => ⟨fun x hx => hwith s sub x hx, h⟩) fun found hfound => ?_
      cases found with
      | none => exact leads_throw _
      | some found => exact triple_pure found fun _ _ _ _ h => hfound found rfl ▸ h

/-- An event that is answered as handled now has been applied. -/
theorem applyWebhook_follows {R : WebhookResult → Assertion BillingDb} (evt : BillingWebhookEvent)
    (hignored : ∀ N s, R .ignored N s)
    (hok : ∀ N s, s.HasApplied evt.eventId → R .ok N s)
    (hduplicate : Follows admitted (fun _ _ => True)
      (atomically (fun _ => .redelivery evt.eventId) (return ())) fun _ => R .duplicate) :
    Follows admitted (fun _ _ => True) (applyWebhook evt) R := by
  unfold applyWebhook
  refine Triple.bind (triple_look_any _) fun found => ?_
  cases found with
  | none => exact triple_pure _ fun N s _ _ _ => hignored N s
  | some found =>
    obtain ⟨sub, plan⟩ := found
    refine Triple.bind (Q := fun fresh => if fresh then Owns evt.eventId false else R .duplicate)
      (triple_tryCatch (Triple.bind (recordEvent_follows sub.tenantId evt) fun _ =>
        triple_pure true fun _ _ _ _ h => h) fun err => ?_) fun fresh => ?_
    · split
      · exact hduplicate.bind fun _ => triple_pure false fun _ _ _ _ h => h
      · exact leads_throw _
    · cases fresh with
      | true =>
        exact (applyEvent_follows sub plan evt).bind fun _ => (handling_finished evt.eventId).bind
          fun _ => triple_pure _ fun N s _ _ h => hok N s h
      | false => exact triple_pure _ fun _ _ _ _ h => h

theorem redelivery_commits (eventId : String) :
    Commits admitted (atomically (fun _ => .redelivery eventId) (return ())) :=
  leads_of_change lasting_true fun _ s _ _ _ _ => Quiet.commit quiet_id s

theorem subscribe_commits (tenantId : ℕ) (input : SubscribeInput) (circumstances : Circumstances) :
    Commits admitted (subscribe tenantId input circumstances) := by
  unfold subscribe
  refine Triple.bind (ensureSubscription_follows tenantId) fun found => ?_
  obtain ⟨sub, current⟩ := found
  refine Triple.bind (triple_look_any _) fun plan => ?_
  refine triple_getOr_bind (fun plan _ => ?_) fun _ _ _ _ _ => trivial
  refine triple_guardOr_bind (fun _ => ?_) fun _ _ _ _ _ _ => trivial
  split
  · refine triple_guardOr_bind (fun _ => ?_) fun _ _ _ _ _ _ => trivial
    refine triple_guardOr_bind (fun _ => ?_) fun _ _ _ _ _ _ => trivial
    exact (editSubscription_commits sub _).andThen fun _ => logged_commits _ _
  · refine triple_getOr_bind (fun created _ => ?_) fun _ _ _ _ _ => trivial
    refine (editSubscription_commits sub _).andThen fun _ => ?_
    split
    · exact (leads_look _).andThen fun _ => (createInvoice_follows framed_true _ _ _).andThen
        fun _ => collect_commits _
    · exact leads_pure ()

/-- A subscription moves by an event. -/
theorem move_commits (tenantId : ℕ) (event : SubscriptionEvent) : Commits admitted (do
    let _ ← atomically (fun _ => .plain) (transition tenantId event noPatch)
    return ()) :=
  (transition_commits tenantId event noPatch fun _ => rfl).andThen fun _ => leads_pure ()

theorem cancel_commits (tenantId : ℕ) (circumstances : Circumstances) :
    Commits admitted (cancel tenantId circumstances) := by
  unfold cancel
  refine Triple.bind (ensureSubscription_follows tenantId) fun found => ?_
  obtain ⟨sub, current⟩ := found
  refine triple_guardOr_bind (fun _ => ?_) fun _ _ _ _ _ _ => trivial
  split
  · exact (editSubscription_commits sub _).andThen fun _ => logged_commits _ _
  · exact (move_commits tenantId .cancel).pre fun _ _ _ _ _ => trivial

theorem platformAction_commits (tenantId : ℕ) (action : PlatformAction) :
    Commits admitted (platformAction tenantId action) := by
  unfold platformAction
  refine Triple.bind (ensureSubscription_follows tenantId) fun found => ?_
  obtain ⟨sub, current⟩ := found
  cases action with
  | extendTrial days =>
    refine triple_guardOr_bind (fun _ => ?_) fun _ _ _ _ _ _ => trivial
    exact Triple.bind (triple_look_any _) fun _ => extendTrial_commits sub _
  | suspend => exact (move_commits tenantId .adminSuspend).pre fun _ _ _ _ _ => trivial
  | reactivate =>
    exact Triple.bind (triple_look_any _) fun _ =>
      (reactivate_commits sub _).pre fun _ _ _ _ _ => trivial
  | cancel => exact (move_commits tenantId .cancel).pre fun _ _ _ _ _ => trivial
  | changePlan planCode =>
    refine Triple.bind (triple_look_any _) fun _ => ?_
    refine triple_getOr_bind (fun _ _ => ?_) fun _ _ _ _ _ => trivial
    exact (editSubscription_commits sub _).andThen fun _ => logged_commits _ _

/-- Every request but for webhooks keeps to the commits. -/
theorem run_commits {r : LifecycleRequest} (h : ∀ evt, r ≠ .webhook evt) :
    Follows admitted (fun _ _ => True) r.run fun a _ _ => a = none := by
  have hnone : ∀ {x : BillingMethod Unit}, Commits admitted x →
      Follows admitted (fun _ _ => True) (do x; return none : BillingMethod LifecycleAnswer)
        fun a _ _ => a = none :=
    fun hx => Triple.bind hx fun _ => triple_pure none fun _ _ _ _ _ => rfl
  cases r with
  | tick ms =>
    exact hnone (commits_quiet (writes_update (quiet_of_matters (fun _ => rfl) fun _ => rfl)))
  | setPlan plan =>
    exact hnone (commits_quiet (writes_update (quiet_of_matters (fun _ => rfl) fun _ => rfl)))
  | getSubscription tenantId =>
    exact Triple.bind (ensureSubscription_follows tenantId) fun _ =>
      triple_pure none fun _ _ _ _ _ => rfl
  | subscribe tenantId input circumstances =>
    exact hnone (subscribe_commits tenantId input circumstances)
  | cancel tenantId circumstances => exact hnone (cancel_commits tenantId circumstances)
  | payInvoice tenantId invoiceId =>
    exact hnone ((leads_look _).andThen fun _ => (leads_getOr _ _).andThen fun _ =>
      (leads_guardOr _ _).andThen fun _ => collect_commits _)
  | runCycle =>
    exact Triple.bind runCycle_commits fun _ => triple_pure none fun _ _ _ _ _ => rfl
  | webhook evt => exact absurd rfl (h evt)
  | platformAction tenantId action => exact hnone (platformAction_commits tenantId action)

theorem run_kept (r : LifecycleRequest) : (commits.terms admitted : Terms _ _ _ _).Kept r.run.run := by
  refine Leads.kept ?_
  by_cases h : ∃ evt, r = .webhook evt
  · obtain ⟨evt, rfl⟩ := h
    refine Triple.bind (applyWebhook_follows (R := fun _ _ _ => True) evt (fun _ _ => trivial)
      (fun _ _ _ => trivial) (redelivery_commits _)) fun _ => leads_pure _
  · exact (run_commits fun evt hevt => h ⟨evt, hevt⟩).mono (fun _ _ _ _ h => h)
      (fun _ _ _ _ _ _ => trivial) fun _ _ _ _ h => h

/-- What every commit is that is admitted, over all interleavings. -/
theorem lifecycle_holds {w : LifecycleWorld}
    (h : lifecycle.Reach (World.Admits admitted) w) :
    (commits.terms admitted : Terms _ _ _ _).Holds w :=
  Changes.holds run_kept (fun _ _ => Unsubscribed.sound) h

/-- A step of an interleaving is an admitted commit, if it changes anything. -/
theorem lifecycle_step {w : LifecycleWorld} (h : lifecycle.Reach (World.Admits admitted) w)
    {a : WorldAction LifecycleRequest ChargeReply} (hgood : w.Admits admitted a) :
    (lifecycle.step w a).db = w.db ∨ ∃ L note, admitted note L w.db ∧
      Commit L w.db note (lifecycle.step w a).db := by
  rcases (lifecycle_holds h).step_db a hgood with hsame | ⟨_, held, _, _, _, _, _, _, hdb⟩
  · exact .inl hsame
  · rcases hdb with hsame | ⟨note, hadmitted, hchange⟩
    · exact .inl hsame
    · exact .inr ⟨_, note, hadmitted, hchange⟩

end StelloKitchens.SaasBilling
