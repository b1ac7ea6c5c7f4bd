import StelloKitchens.Lib.Changes
import StelloKitchens.SaasBilling.Invoices

/-!
# Periods are charged once

An invoice of a period is looked for among those that can be paid, and made in a later transaction if
there is none: by then another may be there, and one that is paid is not looked for at all. Nothing
else stands in the way of a second invoice for the period.

## Main definitions

* `ChargedOnce` — a period has one invoice that becomes paid, and one that is charged after that.
* `billingAdmits` — an invoice is made for a period that has none.
* `Change` — what a commit does where it is admitted.

## Main results

* `charged_once` — charges over all interleavings.
-/

namespace StelloKitchens.SaasBilling

open Checked Tx Process Method Discipline Changes

/-! ### Charges -/

def ChargeEvent.SamePeriod (a b : ChargeEvent) : Prop :=
  a.subscriptionId = b.subscriptionId ∧ a.periodStart = b.periodStart

instance (a b : ChargeEvent) : Decidable (a.SamePeriod b) := inferInstanceAs (Decidable (_ ∧ _))

/-- At most one invoice of a period becomes paid, and after a charge of the period the provider is
asked to charge at most one. -/
structure ChargedOnce (db : BillingDb) : Prop where
  paid : ∀ a ∈ db.log, ∀ b ∈ db.log, a.kind = .paid → b.kind = .paid → a.SamePeriod b →
    a.invoiceId = b.invoiceId
  asked : ∀ before after, db.log = before ++ after → ∀ c ∈ before, c.kind = .charged →
    ∀ a ∈ after, ∀ b ∈ after, a.kind = .asked → b.kind = .asked → c.SamePeriod a → c.SamePeriod b →
      a.invoiceId = b.invoiceId

/-- An invoice is made for a period that has none. -/
def billingAdmits : Note → (Hold LockKey → Prop) → BillingDb → Prop
  | .invoice subscriptionId periodStart, _, s => ∀ i ∈ s.invoices.rows,
    i.subscriptionId = subscriptionId → i.periodStart ≠ periodStart
  | _, _, _ => True

instance (note : Note) (held : List (Hold LockKey)) (s : BillingDb) :
    Decidable (billingAdmits note (· ∈ held) s) :=
  match note with
  | .invoice subscriptionId periodStart => inferInstanceAs (Decidable (∀ i ∈ s.invoices.rows,
      i.subscriptionId = subscriptionId → i.periodStart ≠ periodStart))
  | .plain | .paid _ | .failed _ | .cycle _ | .extendTrial _ | .redelivery _ => .isTrue trivial

/-! ### What a commit does -/

/-- The invoices, as far as it matters whose they are. -/
def BillingDb.known (db : BillingDb) : Set (ℕ × ℕ × Time) :=
  {x | ∃ i ∈ db.invoices, (i.id, i.subscriptionId, i.periodStart) = x}

/-- What happened to an invoice that is there. -/
def BillingDb.Knows (db : BillingDb) (e : ChargeEvent) : Prop :=
  (e.invoiceId, e.subscriptionId, e.periodStart) ∈ db.known

/-- What a commit with this note does where it is admitted, by who holds these. -/
inductive Change (L : Hold LockKey → Prop) (s : BillingDb) : Note → BillingDb → Prop
  /-- Invoices stay, as far as it matters whose they are, and what happens to them is recorded. -/
  | keep (note : Note) (s' : BillingDb) (events : List ChargeEvent) (hinvoices : s'.known = s.known)
      (hlog : s'.log = s.log ++ events) (hknown : ∀ e ∈ events, s.Knows e) : Change L s note s'
  | create (inv : SubscriptionInvoice) (s' : BillingDb) (hnumber : L (.number inv.id))
      (hnone : ∀ i ∈ s.invoices, i.subscriptionId = inv.subscriptionId →
        i.periodStart ≠ inv.periodStart)
      (hinvoices : s'.invoices = s.invoices.put inv) (hnew : ∀ i ∈ s.invoices, i.id ≠ inv.id)
      (hlog : s'.log = s.log) : Change L s (.invoice inv.subscriptionId inv.periodStart) s'

/-- Periods have one invoice each, and the history is about these. -/
structure SoundPeriods (s : BillingDb) (n : ℕ) : Prop where
  ids : ∀ x ∈ s.known, x.1 < n
  once : ∀ x ∈ s.known, ∀ y ∈ s.known, x.2 = y.2 → x.1 = y.1
  log : ∀ e ∈ s.log, s.Knows e

variable {L : Hold LockKey → Prop} {s s' : BillingDb} {note : Note} {n : ℕ}

/-- Events of one period are of one invoice. -/
theorem SoundPeriods.eq_of_samePeriod (h : SoundPeriods s n) {a b : ChargeEvent} (ha : a ∈ s.log) (hb : b ∈ s.log)
    (hsame : a.SamePeriod b) : a.invoiceId = b.invoiceId :=
  h.once _ (h.log a ha) _ (h.log b hb) (Prod.ext hsame.1 hsame.2)

theorem SoundPeriods.chargedOnce (h : SoundPeriods s n) : ChargedOnce s where
  paid _ ha _ hb _ _ := h.eq_of_samePeriod ha hb
  asked before after hlog c _ _ a ha b hb _ _ hca hcb := by
    refine h.eq_of_samePeriod ?_ ?_ ⟨hca.1.symm.trans hcb.1, hca.2.symm.trans hcb.2⟩ <;> rw [hlog]
    · exact List.mem_append_right _ ha
    · exact List.mem_append_right _ hb

theorem Started.sound (h : Started s n) : SoundPeriods s n where
  ids := by
    rintro _ ⟨i, hi, rfl⟩
    exact h.ids i hi
  once := by
    rintro _ ⟨i, hi, rfl⟩ _ ⟨j, hj, rfl⟩ heq
    exact h.once i hi j hj (congrArg Prod.fst heq) (congrArg Prod.snd heq)
  log e he := by
    rw [h.log] at he
    cases he

/-- A new invoice is added to those that are known. -/
theorem known_put {inv : SubscriptionInvoice} (hnew : ∀ i ∈ s.invoices, i.id ≠ inv.id)
    (hinvoices : s'.invoices = s.invoices.put inv) :
    s'.known = insert (inv.id, inv.subscriptionId, inv.periodStart) s.known := by
  ext x
  simp only [BillingDb.known, hinvoices, KeyedTable.mem_put, Set.mem_ofPred_eq, Set.mem_insert_iff]
  constructor
  · rintro ⟨i, rfl | ⟨hi, -⟩, rfl⟩
    · exact .inl rfl
    · exact .inr ⟨i, hi, rfl⟩
  · rintro (rfl | ⟨i, hi, rfl⟩)
    · exact ⟨inv, .inl rfl, rfl⟩
    · exact ⟨i, .inr ⟨hi, hnew i hi⟩, rfl⟩

/-- Invoices stay. -/
theorem Change.known (h : Change L s note s') : s.known ⊆ s'.known := by
  cases h with
  | keep _ _ _ hinvoices => exact hinvoices.ge
  | create inv _ _ _ hinvoices hnew => exact known_put hnew hinvoices ▸ Set.subset_insert _ _

/-- An invoice that others have not drawn a number for is not made. -/
theorem Change.unknown (h : Change L s note s') {id : ℕ} (hid : ¬L (.number id))
    (hs : ∀ x ∈ s.known, x.1 ≠ id) : ∀ x ∈ s'.known, x.1 ≠ id := by
  cases h with
  | keep _ _ _ hinvoices =>
    rw [hinvoices]
    exact hs
  | create inv _ hnumber _ hinvoices hnew =>
    rw [known_put hnew hinvoices]
    rintro x (rfl | hx)
    · rintro rfl
      exact hid hnumber
    · exact hs x hx

/-- Changes keep one invoice for a period. -/
theorem Change.sound (h : Change L s note s') (hs : SoundPeriods s n)
    (hdrawn : ∀ k, L (.number k) → k < n) : SoundPeriods s' n := by
  have hknown := h.known
  cases h with
  | keep _ _ events hinvoices hlog hevents =>
    refine ⟨hinvoices ▸ hs.ids, hinvoices ▸ hs.once, fun e he => hknown ?_⟩
    rw [hlog] at he
    exact (List.mem_append.mp he).elim (hs.log e) (hevents e)
  | create inv _ hnumber hnone hinvoices hnew hlog =>
    have hother : ∀ x ∈ s.known, x.2 ≠ (inv.subscriptionId, inv.periodStart) := by
      rintro _ ⟨i, hi, rfl⟩ heq
      exact hnone i hi (congrArg Prod.fst heq) (congrArg Prod.snd heq)
    refine ⟨?_, ?_, fun e he => hknown (hs.log e (hlog ▸ he))⟩ <;> rw [known_put hnew hinvoices]
    · rintro x (rfl | hx)
      · exact hdrawn _ hnumber
      · exact hs.ids x hx
    · rintro x (rfl | hx) y (rfl | hy) heq
      · rfl
      · exact absurd heq.symm (hother y hy)
      · exact absurd heq (hother x hx)
      · exact hs.once x hx y hy heq

/-! ### The methods keep to the changes -/

/-- The changes of the billing. -/
def billingChanges : Changes BillingDb LockKey Note where
  inv := SoundPeriods
  change := Change
  inv_mono hle h := { h with ids := fun x hx => (h.ids x hx).trans_le hle }
  inv_change h hs hdrawn := h.sound hs hdrawn

/-- The discipline of the changes, where they are admitted. -/
abbrev keeping : Discipline BillingDb LockKey := billingChanges.discipline billingAdmits

/-- A method, with what is known before and after it. -/
abbrev Leads {α : Type} (J : Assertion BillingDb) (x : BillingMethod α) (Q : α → Assertion BillingDb) :
    Prop := Changes.Leads billingChanges billingAdmits J x Q

/-- A method of which nothing more is said. -/
abbrev Keeps {α : Type} (x : BillingMethod α) : Prop :=
  Leads (fun _ _ => True) x fun _ _ _ => True

/-- What matters of the invoices. -/
def BillingDb.view (db : BillingDb) : Set (ℕ × ℕ × Time) × List ChargeEvent := (db.known, db.log)

/-- An update of the invoices that keeps whose they are. -/
theorem known_modify {p : SubscriptionInvoice → Bool} (f : SubscriptionInvoice → SubscriptionInvoice)
    (hf : ∀ i, (f i).id = i.id)
    (hkeep : ∀ i, (f i).subscriptionId = i.subscriptionId ∧ (f i).periodStart = i.periodStart)
    (hinvoices : s'.invoices = s.invoices.modify p f hf) : s'.known = s.known := by
  have hsame : ∀ i : SubscriptionInvoice, ((if p i then f i else i).id,
      (if p i then f i else i).subscriptionId, (if p i then f i else i).periodStart) =
        (i.id, i.subscriptionId, i.periodStart) := by
    intro i
    split
    · rw [hf, (hkeep i).1, (hkeep i).2]
    · rfl
  ext x
  simp only [BillingDb.known, hinvoices, KeyedTable.mem_modify, Set.mem_ofPred_eq]
  constructor
  · rintro ⟨_, ⟨i, hi, rfl⟩, rfl⟩
    exact ⟨i, hi, (hsame i).symm⟩
  · rintro ⟨i, hi, rfl⟩
    exact ⟨_, ⟨i, hi, rfl⟩, hsame i⟩

theorem leaves_move {sub : TenantSubscription} {event : SubscriptionEvent}
    {to' : SubscriptionStatus} {patch : Patch} :
    Leaves BillingDb.view (·.move sub event to' patch) := fun _ => rfl

theorem known_setInvoice (s : BillingDb) (id : ℕ) (status : InvoiceStatus) (paidAt : Option Time)
    (providerRef : Option String) : (s.setInvoice id status paidAt providerRef).known = s.known :=
  known_modify (fun i => { i with
    status := status
    paidAt := paidAt
    providerRef := providerRef
    attempts := i.attempts + 1 }) (fun _ => rfl) (fun _ => ⟨rfl, rfl⟩) rfl

theorem writes_transition (tenantId : ℕ) (event : SubscriptionEvent) (patch : Patch) :
    (transition tenantId event patch).Writes (Leaves BillingDb.view) :=
  (writes_acquire _).bind fun _ => (writes_query _).bind fun _ => (writes_require _ _).bind fun _ =>
    (writes_require _ _).bind fun _ => (writes_update leaves_move).bind fun _ => Tx.writes_pure _

/-- A transaction that leaves the invoices as they are, as far as it matters. -/
theorem keeps_of_leaves {α : Type} {note : α → Note} {t : BillingTx α}
    (h : t.Writes (Leaves BillingDb.view)) : Keeps (atomically note t) := by
  refine leads_of_change lasting_true fun L => ?_
  refine Discipline.wp_of_writes (V := Leaves BillingDb.view) (fun _ => rfl)
    (fun _ _ => Leaves.comp) h stable_true fun L' w a _ hw s n _ _ _ => ?_
  exact .keep _ _ [] (congrArg Prod.fst (hw s)) ((congrArg Prod.snd (hw s)).trans
    (List.append_nil _).symm) fun _ he => by cases he

theorem writes_handle (entry : Handling) :
    (update (·.handle entry) : BillingTx Unit).Writes (Leaves BillingDb.view) :=
  writes_update fun _ => rfl

theorem handling_keeps (entry : Handling) : Keeps (handling entry) :=
  keeps_of_leaves (writes_handle entry)

/-- An invoice that was read is there. -/
theorem lasting_known {inv : SubscriptionInvoice} {kind : ChargeKind} :
    Lasting keeping fun _ s => s.Knows (inv.event kind) :=
  lasting_of_change fun _ _ _ _ _ _ hchange h => Change.known hchange h

theorem knows_of_find {id : ℕ} {inv : SubscriptionInvoice} (h : s.invoices.find? id = some inv)
    (kind : ChargeKind) : s.Knows (inv.event kind) :=
  ⟨inv, (KeyedTable.find?_eq_some.mp h).1, rfl⟩

theorem record_leads (inv : SubscriptionInvoice) (kind : ChargeKind) :
    Leads (fun _ s => s.Knows (inv.event kind)) (record (inv.event kind))
      fun _ _ s => s.Knows (inv.event kind) := by
  refine leads_transaction lasting_known (fun _ L => lasting_known.known L) fun L s n _ _ hs => ?_
  refine ⟨.keep _ _ [inv.event kind] rfl rfl fun e he => ?_, hs⟩
  rw [List.mem_singleton.mp he]
  exact hs

/-- The rest of a transaction leaves the invoices as they are, after the events so far. -/
theorem wp_keep {α : Type} {note : α → Note} {t : BillingTx α} {L : Hold LockKey → Prop}
    {K : BillingDb → Prop} {f : BillingDb → BillingDb} (events : List ChargeEvent)
    (ht : t.Writes (Leaves BillingDb.view)) (hK : keeping.Stable L K)
    (hf : ∀ s, BillingDb.view (f s) = (s.known, s.log ++ events))
    (hknown : ∀ s, K s → ∀ e ∈ events, s.Knows e) :
    keeping.wp t L K f fun L K f a => ∀ s n, SoundPeriods s n → K s → True →
      Change L s (note a) (f s) := by
  refine Discipline.wp_of_writes (V := Leaves BillingDb.view) (fun _ => rfl)
    (fun _ _ => Leaves.comp) ht hK fun L' w a _ hw s n _ hs _ => ?_
  have hview := (hw (f s)).trans (hf s)
  exact .keep _ _ events (congrArg Prod.fst hview) (congrArg Prod.snd hview) (hknown s hs)

theorem markPaid_keeps {α : Type} {g : Option SubscriptionInvoice → BillingTx α}
    (hg : ∀ a, (g a).Writes (Leaves BillingDb.view)) (note : α → Note) (invoiceId : ℕ)
    (providerRef : Option String) :
    Keeps (atomically note (markPaid invoiceId providerRef >>= g)) := by
  refine leads_of_change lasting_true fun L => ?_
  simp only [markPaid, Discipline.wp_bind]
  refine wp_query stable_true fun s n _ _ => ?_
  refine ⟨fun s' => ∀ inv ∈ s.invoices.find? invoiceId, s'.Knows (inv.event .paid),
    stable_forall_mem fun inv _ => lasting_known.known L, fun inv hinv => knows_of_find hinv _,
    wp_require fun inv hinv => ?_⟩
  have hstable : ∀ L, keeping.Stable L fun s' =>
      True ∧ ∀ inv ∈ s.invoices.find? invoiceId, s'.Knows (inv.event .paid) :=
    fun L => stable_true.and (stable_forall_mem fun inv _ => lasting_known.known L)
  split
  · exact wp_keep [] (hg none) (hstable L) (fun s => Prod.ext rfl (List.append_nil _).symm)
      fun _ _ e he => by cases he
  · simp only [Discipline.wp_bind]
    refine wp_query_any (hstable L) fun now => ?_
    rw [Discipline.wp_acquire, Discipline.wp_update, ← Discipline.wp_bind, ← Discipline.wp_bind]
    refine wp_keep [inv.event .paid] (((writes_transition _ _ _).bind
      fun _ => Tx.writes_pure _).bind fun _ => hg _) (hstable _) (fun s => ?_) fun s hs e he => ?_
    · exact Prod.ext (known_setInvoice s inv.id .paid (some now) providerRef) rfl
    · rw [List.mem_singleton.mp he]
      exact hs.2 inv hinv

theorem markFailed_keeps {α : Type} {g : Unit → BillingTx α}
    (hg : ∀ a, (g a).Writes (Leaves BillingDb.view)) (note : α → Note) (invoiceId : ℕ) :
    Keeps (atomically note (markFailed invoiceId >>= g)) := by
  refine leads_of_change lasting_true fun L => ?_
  simp only [markFailed, Discipline.wp_bind, Discipline.wp_acquire]
  refine wp_query stable_true fun s n _ _ => ?_
  refine ⟨fun s' => ∀ inv ∈ s.invoices.find? invoiceId, s'.Knows (inv.event .failed),
    stable_forall_mem fun inv _ => lasting_known.known _, fun inv hinv => knows_of_find hinv _,
    wp_require fun inv hinv => ?_⟩
  rw [Discipline.wp_update]
  simp only [← Discipline.wp_bind]
  refine wp_keep [inv.event .failed] ?_
    (stable_true.and (stable_forall_mem fun inv _ => lasting_known.known _)) (fun s => ?_)
    fun s hs e he => ?_
  · refine (writes_query _).bind fun _ => (writes_require _ _).bind fun sub =>
      Tx.Writes.bind ?_ hg
    split
    · exact (writes_query _).bind fun _ => (writes_transition _ _ _).bind
        fun _ => Tx.writes_pure _
    · exact writes_update fun _ => rfl
  · exact Prod.ext (known_setInvoice s inv.id .failed inv.paidAt inv.providerRef) rfl
  · rw [List.mem_singleton.mp he]
    exact hs.2 inv hinv

theorem collect_keeps (invoiceId : ℕ) : Keeps (collect invoiceId) := by
  unfold collect
  refine triple_look_bind (P := fun _ => True)
    (R := fun found _ s => ∀ x ∈ found, s.Knows (x.1.event .asked))
    (fun found L => stable_forall_mem fun x _ => lasting_known.known L) (fun _ s _ _ _ => ?_)
    fun found _ => ?_
  · refine ⟨trivial, fun x hx => ?_⟩
    obtain ⟨inv, hinv, hx⟩ := Option.bind_eq_some_iff.mp hx
    obtain ⟨sub, -, rfl⟩ := Option.map_eq_some_iff.mp hx
    exact knows_of_find hinv _
  refine triple_getOr_bind (fun x hx => ?_) fun _ _ _ _ _ => trivial
  obtain ⟨inv, providerSubscriptionId⟩ := x
  refine Triple.bind ((record_leads inv .asked).pre fun _ _ _ _ h => h _ hx) fun _ =>
    Triple.bind (triple_ask _) fun result => ?_
  cases result with
  | paid providerRef =>
    have hpaid := markPaid_keeps (g := pure) (fun a => Tx.writes_pure a) paidNote inv.id providerRef
    rw [bind_pure] at hpaid
    exact Triple.bind (record_leads inv .charged) fun _ =>
      (hpaid.andThen fun _ => leads_pure ()).pre fun _ _ _ _ _ => trivial
  | failed =>
    have hfailed := markFailed_keeps (g := pure) (fun a => Tx.writes_pure a)
      (fun _ => .failed inv.id) inv.id
    rw [bind_pure] at hfailed
    exact hfailed.pre fun _ _ _ _ _ => trivial
  | pending =>
    refine (keeps_of_leaves ((writes_acquire _).bind fun _ => writes_update fun s => ?_)).pre
      fun _ _ _ _ _ => trivial
    exact Prod.ext (known_modify (s := s) (fun i => { i with attempts := i.attempts + 1 })
      (fun _ => rfl) (fun _ => ⟨rfl, rfl⟩) rfl) rfl
  | error => exact leads_throw _

/-- A number that no invoice has. -/
theorem stable_unknown {id : ℕ} (hid : L (.number id)) :
    keeping.Stable L fun s => ∀ x ∈ s.known, x.1 ≠ id :=
  stable_of_change fun _ _ _ _ _ _ hother hchange hs => Change.unknown hchange (hother _ hid) hs

theorem createInvoice_keeps (sub : TenantSubscription) (plan : Plan) (periodStart : Time) :
    Keeps (createInvoice sub plan periodStart) := by
  refine leads_admitted lasting_true (fun _ _ => stable_true) fun L => ?_
  simp only [createInvoiceTx, nextInvoiceNumber, Discipline.wp_bind, Discipline.wp_acquire]
  refine wp_query_any stable_true fun value => ?_
  rw [Discipline.wp_update, Discipline.wp_pure]
  refine wp_draw stable_true fun s n hs _ =>
    ⟨_, stable_unknown (.inl rfl), fun x hx => (SoundPeriods.ids hs x hx).ne, ?_⟩
  rw [Discipline.wp_update, Discipline.wp_pure]
  intro s k _ hK _ hnone
  exact ⟨.create (invoiceRow sub plan periodStart n _) _ (.inl rfl) hnone rfl
    (fun i hi => hK.2 _ ⟨i, hi, rfl⟩) rfl, trivial⟩

theorem invoiceFor_keeps (sub : TenantSubscription) (plan : Plan) (periodStart : Time) :
    Keeps (invoiceFor sub plan periodStart) := by
  unfold invoiceFor
  refine (leads_look _).andThen fun existing => ?_
  cases existing with
  | none => exact createInvoice_keeps sub plan periodStart
  | some inv => exact leads_pure inv

theorem renew_keeps (sub : TenantSubscription) (plan : Plan) : Keeps (renew sub plan) := by
  unfold renew
  exact (leads_getOr _ _).andThen fun _ => (invoiceFor_keeps _ _ _).andThen fun _ =>
    (collect_keeps _).andThen fun _ => (leads_look _).andThen fun _ => (leads_getOr _ _).andThen
      fun _ => leads_pure _

theorem cycleStep_keeps (now : Time) (sub : TenantSubscription) (event : SubscriptionEvent) :
    Keeps (cycleStep now sub event) :=
  keeps_of_leaves (Tx.Writes.bind (writes_update fun _ => rfl) fun _ =>
    (writes_transition _ _ _).bind fun _ => Tx.writes_pure _)

theorem cycleOne_keeps (now : Time) (sub : TenantSubscription) (plan : Plan) :
    Keeps (cycleOne now sub plan) := by
  unfold cycleOne
  split_ifs
  · exact (cycleStep_keeps _ _ _).andThen fun _ => leads_pure _
  · exact (cycleStep_keeps _ _ _).andThen fun _ => leads_pure _
  · exact (cycleStep_keeps _ _ _).andThen fun _ => leads_pure _
  · exact (renew_keeps sub plan).andThen fun _ => leads_pure _
  · exact leads_pure none

theorem runCycle_keeps : Keeps runCycle := by
  unfold runCycle
  refine (leads_look _).andThen fun now => (leads_look _).andThen fun due => ?_
  exact triple_mapM (fun _ _ _ => True) fun _ d _ _ =>
    triple_tryCatch (cycleOne_keeps now d.1 d.2) fun _ => leads_pure none

theorem applyMove_keeps (eventId : String) (tenantId : ℕ) (event : SubscriptionEvent)
    (patch : Patch) : Keeps (applyMove eventId tenantId event patch) :=
  keeps_of_leaves ((writes_transition _ _ _).bind fun _ => writes_handle _)

theorem applyTransition_keeps (eventId : String) (sub : TenantSubscription)
    (event : SubscriptionEvent) : Keeps (applyTransition eventId sub event) := by
  unfold applyTransition
  split
  · exact applyMove_keeps _ _ _ _
  · exact handling_keeps _

theorem applyCharged_keeps (sub : TenantSubscription) (plan : Plan) (evt : BillingWebhookEvent) :
    Keeps (applyCharged sub plan evt) := by
  unfold applyCharged
  refine (leads_look _).andThen fun now => (invoiceFor_keeps _ _ _).andThen fun inv => ?_
  have hpaid := markPaid_keeps (g := fun paid => do
      update (·.handle (.applied evt.eventId (paid.elim .nothing fun inv => .paid inv.id)))
      return paid) (fun a => (writes_handle _).bind fun _ => Tx.writes_pure a) paidNote inv.id
    evt.paymentId
  cases evt.periodEnd with
  | none => exact (leads_pure ()).andThen fun _ => hpaid.andThen fun _ => leads_pure ()
  | some periodEnd =>
    refine (keeps_of_leaves ?_).andThen fun _ => hpaid.andThen fun _ => leads_pure ()
    refine (writes_acquire _).bind fun _ => (writes_query _).bind fun _ =>
      (writes_check _ _).bind fun _ => writes_update fun s => ?_
    exact Prod.ext (known_modify (s := s) (fun i => { i with periodEnd := periodEnd })
      (fun _ => rfl) (fun _ => ⟨rfl, rfl⟩) rfl) rfl

theorem applyPaymentFailed_keeps (eventId : String) (sub : TenantSubscription) :
    Keeps (applyPaymentFailed eventId sub) := by
  unfold applyPaymentFailed
  refine (leads_look _).andThen fun unpaid => ?_
  cases unpaid with
  | some inv => exact markFailed_keeps (fun _ => writes_handle _) _ inv.id
  | none =>
    dsimp only
    split
    · exact (leads_look _).andThen fun _ => applyMove_keeps _ _ _ _
    · exact handling_keeps _

theorem applyEvent_keeps (sub : TenantSubscription) (plan : Plan) (evt : BillingWebhookEvent) :
    Keeps (applyEvent sub plan evt) := by
  unfold applyEvent
  cases evt.type with
  | activated => exact handling_keeps _
  | charged => exact applyCharged_keeps sub plan evt
  | paymentFailed => exact applyPaymentFailed_keeps _ sub
  | halted => exact applyTransition_keeps _ sub _
  | cancelled => exact applyTransition_keeps _ sub _

theorem applyWebhook_keeps (evt : BillingWebhookEvent) : Keeps (applyWebhook evt) := by
  unfold applyWebhook
  refine (leads_look _).andThen fun found => ?_
  cases found with
  | none => exact leads_pure _
  | some found =>
    obtain ⟨sub, plan⟩ := found
    refine Leads.andThen (triple_tryCatch (Leads.andThen (keeps_of_leaves ?_)
      fun _ => leads_pure _) fun err => ?_) fun fresh => ?_
    · exact (writes_acquire _).bind fun _ => (writes_query _).bind fun _ =>
        (writes_check _ _).bind fun _ => writes_draw.bind fun _ => writes_update fun _ => rfl
    · split
      · exact (keeps_of_leaves (Tx.writes_pure ())).andThen fun _ => leads_pure _
      · exact leads_throw _
    · split
      · exact (applyEvent_keeps sub plan evt).andThen fun _ => (handling_keeps _).andThen
          fun _ => leads_pure _
      · exact leads_pure _

theorem run_keeps (r : BillingRequest) : Keeps r.run := by
  cases r with
  | tick ms => exact keeps_of_leaves (writes_update fun _ => rfl)
  | setPlan plan => exact keeps_of_leaves (writes_update fun _ => rfl)
  | setSubscription sub =>
    exact keeps_of_leaves ((writes_acquire _).bind fun _ => (writes_query _).bind fun _ =>
      (writes_check _ _).bind fun _ => writes_update fun _ => rfl)
  | startPaying subscriptionId =>
    exact (leads_look _).andThen fun _ => (leads_getOr _ _).andThen fun _ =>
      (leads_look _).andThen fun _ => (createInvoice_keeps _ _ _).andThen fun _ => collect_keeps _
  | payInvoice tenantId invoiceId =>
    exact (leads_look _).andThen fun _ => (leads_getOr _ _).andThen fun _ =>
      (leads_guardOr _ _).andThen fun _ => collect_keeps _
  | runCycle => exact runCycle_keeps.andThen fun _ => leads_pure ()
  | webhook evt => exact (applyWebhook_keeps evt).andThen fun _ => leads_pure ()

/-- In every interleaving in which an invoice is made only for a period that has none, at most one
invoice of a period becomes paid, and after a charge of the period the provider is asked to charge at
most one. -/
theorem charged_once (w : BillingWorld) (h : billing.Reach (World.Admits billingAdmits) w) :
    ChargedOnce w.db :=
  (Changes.holds (fun r => (run_keeps r).kept) (fun _ _ hs => hs.sound) h).inv.chargedOnce

/-! ### A period that was renewed -/

/-- A kitchen whose month is over, charged by the kitchen's own cycle. -/
def monthOver : BillingDb where
  now := 2678400000
  plans := .put .empty ⟨3, "starter", 99900, 999000, true⟩
  subscriptions := .put .empty
    ⟨1, 7, 3, .active, .monthly, none, some 0, some 2678400000, none, false, "mock", some "sub_7", none⟩
  tenantStatus _ := some .active
  tenantTrialEndsAt _ := none
  invoices := .empty
  events := []
  counters _ := 0
  log := []
  handled := []
  periodEnds := []
  steps := []

theorem monthOver_started : Started monthOver 0 where
  ids _ hi := by cases hi
  once _ hi := by cases hi
  log := rfl

/-- A request whose charge succeeds. -/
def chargedRun (slot : ℕ) (r : BillingRequest) : List (WorldAction BillingRequest ChargeReply) :=
  .start slot r :: WorldAction.steps slot 40 ++ [.reply slot (.paid (some "pay_1"))] ++
    WorldAction.steps slot 40

/-- A cycle has read what is due when another one renews the period. -/
def twoCycles : List (WorldAction BillingRequest ChargeReply) :=
  .start 1 .runCycle :: WorldAction.steps 1 3 ++ chargedRun 2 .runCycle ++ WorldAction.steps 1 40 ++
    [.reply 1 (.paid (some "pay_2"))] ++ WorldAction.steps 1 40

/-- A period that is paid is charged a second time, on an invoice of its own. -/
theorem not_charged_once : ¬∀ w, billing.Reachable w → ChargedOnce w.db := by
  intro h
  have hpaid := (h _ (Machine.reachable_run twoCycles
    (.init ⟨monthOver_started, rfl, rfl⟩ : billing.Reachable (.atRest monthOver 0)))).paid
  revert hpaid
  decide +kernel

/-- The provider charges the period after that by itself, and tells of it twice. -/
def chargedEvent : BillingWebhookEvent :=
  ⟨"evt_1", .charged, "sub_7", some "pay_3", some 5097600000, some 7689600000⟩

/-- A cycle renews a period, and the next one is charged by the provider. -/
def renewedTwice : List (WorldAction BillingRequest ChargeReply) :=
  chargedRun 1 .runCycle ++ .start 1 (.webhook chargedEvent) :: WorldAction.steps 1 40 ++
    .start 2 (.webhook chargedEvent) :: WorldAction.steps 2 40

theorem charged_once_renewed :
    let w := billing.run (.atRest monthOver 0) renewedTwice
    w.db.log.map (fun e => (e.kind, e.invoiceId, e.periodStart)) =
      [(.asked, 0, 2678400000), (.charged, 0, 2678400000), (.paid, 0, 2678400000),
        (.paid, 2, 5097600000)] ∧ ChargedOnce w.db :=
  ⟨by decide +kernel, charged_once _ (Machine.reach_run _
    (.init ⟨monthOver_started, rfl, rfl⟩) (by decide +kernel))⟩

end StelloKitchens.SaasBilling
