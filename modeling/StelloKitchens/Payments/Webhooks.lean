import StelloKitchens.Payments.Parts

/-!
# Webhooks take effect

A webhook is recorded under the provider's id of its event, then applied, and then noted as
processed. The process that has recorded an event is the only one that applies it: it holds the
number of the record. So no event is applied twice.

A delivery that finds its event recorded is acknowledged without a look at whether the event was
processed. What is acknowledged has therefore been applied as long as no delivery meets an event
that is recorded but not processed, be it because the first delivery is still at work or because
it stopped before it was done.

## Main definitions

* `PaymentsDb.HasApplied`, `Effect.Holds` — an event that was applied, and its effect.
* `webhookTerms` — the terms of webhooks.

## Main results

* `webhook_kept` — every request keeps the terms.
* `acknowledged_applied` — acknowledged events over all interleavings.
-/

namespace StelloKitchens.Payments

open Checked Tx Method Discipline Process

/-- An event has been applied. -/
def PaymentsDb.HasApplied (db : PaymentsDb) (eventId : String) : Prop :=
  ∃ a ∈ db.applied, a.eventId = eventId

/-- The row that an effect is about is as the effect says. -/
def Effect.Holds (db : PaymentsDb) : Effect → Prop
  | .captured id paymentId =>
    ∃ g ∈ db.gatewayPayments, g.id = id ∧ g.status = .paid ∧ g.paymentId = some paymentId
  | .reconciled id status => ∃ r ∈ db.refunds, r.id = id ∧ r.status = status
  | .nothing _ => True

/-- The records of events, with the next number to draw. -/
structure EventsSound (db : PaymentsDb) (n : ℕ) : Prop where
  drawn : ∀ e ∈ db.gatewayEvents, e.id < n
  processed : ∀ e ∈ db.gatewayEvents, e.processedAt ≠ none → db.HasApplied e.eventId
  recorded : ∀ a ∈ db.applied, ∃ e ∈ db.gatewayEvents, e.eventId = a.eventId
  once : (db.applied.map (·.eventId)).Nodup

/-- What the commit of who holds these does to the records of events. -/
structure EventsStep (L : Hold LockKey → Prop) (s s' : PaymentsDb) : Prop where
  kept : ∀ e ∈ s.gatewayEvents, ¬L (.number e.id) → e ∈ s'.gatewayEvents
  processed : ∀ e ∈ s.gatewayEvents, e.processedAt ≠ none →
    ∃ e' ∈ s'.gatewayEvents, e'.eventId = e.eventId ∧ e'.processedAt ≠ none
  origin : ∀ e' ∈ s'.gatewayEvents,
    L (.lock (.event e'.eventId)) ∨ ∃ e ∈ s.gatewayEvents, e.eventId = e'.eventId
  /-- Only who holds the number of the record applies an event, and then its effect holds. -/
  applied : s'.applied = s.applied ∨ ∃ a e, s'.applied = s.applied ++ [a] ∧
    e ∈ s.gatewayEvents ∧ e.eventId = a.eventId ∧ L (.number e.id) ∧ a.effect.Holds s'
  rows : RowsStay s s'

theorem EventsStep.refl (L : Hold LockKey → Prop) (s : PaymentsDb) : EventsStep L s s :=
  ⟨fun _ he _ => he, fun e he hp => ⟨e, he, rfl, hp⟩, fun e he => .inr ⟨e, he, rfl⟩, .inl rfl, .refl s⟩

theorem EventsStep.hasApplied {L : Hold LockKey → Prop} {s s' : PaymentsDb}
    (h : EventsStep L s s') {eventId : String} (happlied : s.HasApplied eventId) :
    s'.HasApplied eventId := by
  obtain ⟨a, ha, hid⟩ := happlied
  rcases h.applied with hsame | ⟨b, e, happend, -⟩
  · exact ⟨a, hsame ▸ ha, hid⟩
  · exact ⟨a, happend ▸ List.mem_append_left _ ha, hid⟩

/-- An event is recorded and processed. -/
def PaymentsDb.HasProcessed (db : PaymentsDb) (eventId : String) : Prop :=
  ∃ e ∈ db.gatewayEvents, e.eventId = eventId ∧ e.processedAt ≠ none

/-- The terms of webhooks: no delivery finds its event recorded and not processed. An answer
acknowledges that an event has been applied. -/
def webhookTerms : Terms PaymentsDb LockKey Note (Except PaymentError (Option String)) where
  inv := EventsSound
  step := EventsStep
  inv_mono hle h := { h with drawn := fun e he => (h.drawn e he).trans_le hle }
  admits note _ db := match note with
    | .redelivery eventId => db.HasProcessed eventId
    | _ => True
  said a db := match a with
    | .ok (some eventId) => db.HasApplied eventId
    | _ => True
  said_step {a} _ _ _ _ _ _ _ hstep h := by
    rcases a with e | (_ | eventId)
    · trivial
    · trivial
    · exact hstep.hasApplied h

/-- Writes to other tables leave the records as they are. -/
theorem about_events : About webhookTerms.toDiscipline [.events] := by
  intro ts f hf hts L s n hs
  obtain ⟨hevents, happlied⟩ := hf.same s .events (hts _ (by simp))
  refine ⟨?_, ?_, ?_, ?_, .inl happlied, hf.rows s⟩
  · constructor <;> simp only [PaymentsDb.HasApplied, hevents, happlied]
    · exact hs.drawn
    · exact hs.processed
    · exact hs.recorded
    · exact hs.once
  all_goals simp only [hevents]
  · exact (EventsStep.refl L s).kept
  · exact (EventsStep.refl L s).processed
  · exact (EventsStep.refl L s).origin

/-! ### The process that has recorded an event -/

section Owner

variable {L : Hold LockKey → Prop} {K : PaymentsDb → Prop} {eventId : String} {id : ℕ}

/-- An event is recorded under a number, and applied or not yet. -/
def Recorded (eventId : String) (id : ℕ) (applied : Bool) (db : PaymentsDb) : Prop :=
  (∃ e ∈ db.gatewayEvents, e.eventId = eventId ∧ e.id = id) ∧
    (db.HasApplied eventId ↔ applied = true)

/-- Who holds the number of a record knows how far the event is. -/
theorem stable_recorded (eventId : String) (hn : L (.number id)) (applied : Bool) :
    webhookTerms.Stable L (Recorded eventId id applied) := by
  rintro L' s n s' n' - - hother hstep ⟨⟨e, he, rfl, rfl⟩, happlied⟩
  have hfree : ¬L' (.number e.id) := hother _ hn
  refine ⟨⟨e, EventsStep.kept hstep e he hfree, rfl, rfl⟩, ?_⟩
  rw [← happlied]
  refine ⟨fun h => ?_, EventsStep.hasApplied hstep⟩
  obtain ⟨a, ha, hid⟩ := h
  rcases EventsStep.applied hstep with hsame | ⟨b, e₁, happend, he₁, hid₁, hheld, -⟩
  · exact ⟨a, hsame ▸ ha, hid⟩
  · rw [happend] at ha
    rcases List.mem_append.mp ha with ha | ha
    · exact ⟨a, ha, hid⟩
    · -- no one else applies this event
      obtain rfl := List.mem_singleton.mp ha
      exact absurd (KeyedTable.eq_of_mem he₁ he (hid₁.trans hid) ▸ hheld) hfree

theorem stable_collection_row (id : ℕ) :
    webhookTerms.Stable L fun s => ∃ g ∈ s.gatewayPayments, g.id = id := by
  rintro L' s n s' n' - - - hstep ⟨g, hg, rfl⟩
  exact (EventsStep.rows hstep).collections g hg

theorem stable_refund_row (id : ℕ) :
    webhookTerms.Stable L fun s => ∃ r ∈ s.refunds, r.id = id := by
  rintro L' s n s' n' - - - hstep ⟨r, hr, rfl⟩
  exact (EventsStep.rows hstep).refunds r hr

/-- A commit that writes nothing leaves what is known. -/
theorem commitsTo_nothing {J : PaymentsDb → Prop} (hJ : webhookTerms.Stable (numbers L) J)
    (h : ∀ s, K s → J s) (note : Note) :
    CommitsTo webhookTerms.toDiscipline webhookTerms.admits note L K (fun s => s) J :=
  ⟨hJ, fun s _ hs _ hKs _ => ⟨hs, EventsStep.refl L s, h s hKs⟩⟩

/-- An event is applied by who has recorded it. -/
theorem commitsTo_apply (hn : L (.number id)) (hK : ∀ s, K s → Recorded eventId id false s)
    {f : PaymentsDb → PaymentsDb} {T : List Table} (hf : Touches T f) (hT : .events ∉ T)
    (effect : Effect)
    (heffect : ∀ s, K s → effect.Holds ((f s).recordEffect eventId effect)) (note : Note) :
    CommitsTo webhookTerms.toDiscipline webhookTerms.admits note L K
      (fun db => (f db).recordEffect eventId effect) (Recorded eventId id true) := by
  refine ⟨stable_recorded eventId (numbers_number.mpr hn) true, fun s n hs _ hKs _ => ?_⟩
  obtain ⟨⟨e, he, hid, rfl⟩, happlied⟩ := hK s hKs
  obtain ⟨hevents, happ⟩ := hf.same s .events hT
  have hnew : ¬s.HasApplied eventId := fun h => Bool.false_ne_true (happlied.mp h)
  have happ' : ((f s).recordEffect eventId effect).applied = s.applied ++ [⟨eventId, effect⟩] :=
    congrArg (· ++ _) happ
  have hevents' : ((f s).recordEffect eventId effect).gatewayEvents = s.gatewayEvents := hevents
  have hstep : EventsStep L s ((f s).recordEffect eventId effect) :=
    { kept := by simp only [hevents']; exact fun _ h _ => h
      processed := by simp only [hevents']; exact fun x hx hp => ⟨x, hx, rfl, hp⟩
      origin := by simp only [hevents']; exact fun x hx => .inr ⟨x, hx, rfl⟩
      applied := .inr ⟨⟨eventId, effect⟩, e, happ', he, hid, hn, heffect s hKs⟩
      rows := ⟨(hf.rows s).refunds, (hf.rows s).collections⟩ }
  have hhas : ((f s).recordEffect eventId effect).HasApplied eventId :=
    ⟨⟨eventId, effect⟩, by simp [happ'], rfl⟩
  refine ⟨⟨?_, ?_, ?_, ?_⟩, hstep, ⟨e, hevents' ▸ he, hid, rfl⟩, by simpa using hhas⟩
  · simpa only [hevents'] using hs.drawn
  · rw [hevents']
    exact fun x hx hp => hstep.hasApplied (hs.processed x hx hp)
  · rw [happ', hevents']
    intro a ha
    rcases List.mem_append.mp ha with ha | ha
    · exact hs.recorded a ha
    · obtain rfl := List.mem_singleton.mp ha
      exact ⟨e, he, hid⟩
  · rw [happ', List.map_append, List.nodup_append]
    refine ⟨hs.once, by simp, fun x hx y hy hxy => hnew ?_⟩
    obtain ⟨a, ha, rfl⟩ := List.mem_map.mp hx
    simp only [List.map_cons, List.map_nil, List.mem_singleton] at hy
    exact ⟨a, ha, hxy.trans hy⟩

theorem Effect.Holds.congr {effect : Effect} {s s' : PaymentsDb} (h : effect.Holds s)
    (hcollections : s'.gatewayPayments = s.gatewayPayments) (hrefunds : s'.refunds = s.refunds) :
    effect.Holds s' := by
  cases effect with
  | captured id paymentId =>
    obtain ⟨g, hg, hrow⟩ := h
    exact ⟨g, hcollections ▸ hg, hrow⟩
  | reconciled id status =>
    obtain ⟨r, hr, hrow⟩ := h
    exact ⟨r, hrefunds ▸ hr, hrow⟩
  | nothing outcome => trivial

/-- The record of an applied event is noted as processed by who holds its number. -/
theorem sound_process {s s₁ s₂ : PaymentsDb} {n : ℕ} (hs₁ : EventsSound s₁ n) (hstep : EventsStep L s s₁)
    (hn : L (.number id)) (hrow : ∃ e ∈ s₁.gatewayEvents, e.eventId = eventId ∧ e.id = id)
    (happlied : s₁.HasApplied eventId) (now : Time) (outcome : String)
    (hs₂ : s₂ = { s₁ with
      gatewayEvents := s₁.gatewayEvents.modify (fun e => e.eventId = eventId)
        (·.process now outcome) fun _ => rfl }) :
    EventsSound s₂ n ∧ EventsStep L s s₂ := by
  obtain ⟨e, he, rfl, rfl⟩ := hrow
  have hkey : ∀ x : GatewayEvent, (x.process now outcome).eventId = x.eventId := fun _ => rfl
  have hmem : ∀ {x}, x ∈ s₂.gatewayEvents ↔ ∃ r ∈ s₁.gatewayEvents,
      x = if r.eventId = e.eventId then r.process now outcome else r := by
    intro x
    rw [hs₂]
    refine (KeyedTable.mem_modify hkey).trans ?_
    simp only [decide_eq_true_eq]
  have hfrom : ∀ x ∈ s₂.gatewayEvents, ∃ r ∈ s₁.gatewayEvents, r.eventId = x.eventId ∧ r.id = x.id ∧
      (x.processedAt ≠ none → r.eventId = e.eventId ∨ r.processedAt ≠ none) := by
    intro x hx
    obtain ⟨r, hr, rfl⟩ := hmem.mp hx
    refine ⟨r, hr, ?_⟩
    split
    · exact ⟨rfl, rfl, fun _ => .inl ‹_›⟩
    · exact ⟨rfl, rfl, .inr⟩
  have hto : ∀ r ∈ s₁.gatewayEvents, ∃ x ∈ s₂.gatewayEvents, x.eventId = r.eventId ∧
      (r.processedAt ≠ none → x.processedAt ≠ none) := by
    intro r hr
    refine ⟨_, hmem.mpr ⟨r, hr, rfl⟩, ?_⟩
    split
    · exact ⟨rfl, fun _ => Option.some_ne_none now⟩
    · exact ⟨rfl, fun h => h⟩
  have happ : s₂.applied = s₁.applied := by rw [hs₂]
  refine ⟨⟨fun x hx => ?_, fun x hx hp => ?_, fun a ha => ?_, ?_⟩, ⟨fun x hx hfree => ?_,
    fun x hx hp => ?_, fun x hx => ?_, ?_, ?_⟩⟩
  · obtain ⟨r, hr, -, hid, -⟩ := hfrom x hx
    exact hid ▸ hs₁.drawn r hr
  · obtain ⟨r, hr, hid, -, hp'⟩ := hfrom x hx
    rw [PaymentsDb.HasApplied, happ, ← hid]
    rcases hp' hp with h | h
    · exact h ▸ happlied
    · exact hs₁.processed r hr h
  · obtain ⟨r, hr, hid⟩ := hs₁.recorded a (happ ▸ ha)
    obtain ⟨x, hx, hxid, -⟩ := hto r hr
    exact ⟨x, hx, hxid.trans hid⟩
  · rw [happ]
    exact hs₁.once
  · have hx₁ := hstep.kept x hx hfree
    refine hmem.mpr ⟨x, hx₁, (if_neg fun hid => hfree ?_).symm⟩
    rw [KeyedTable.eq_of_mem hx₁ he hid]
    exact hn
  · obtain ⟨r, hr, hid, hrp⟩ := hstep.processed x hx hp
    obtain ⟨y, hy, hyid, hyp⟩ := hto r hr
    exact ⟨y, hy, hyid.trans hid, hyp hrp⟩
  · obtain ⟨r, hr, hid, -, -⟩ := hfrom x hx
    exact hid ▸ hstep.origin r hr
  · rw [happ]
    rcases hstep.applied with hsame | ⟨a, e₁, happend, he₁, hid₁, hheld, hholds⟩
    · exact .inl hsame
    · exact .inr ⟨a, e₁, happend, he₁, hid₁, hheld, hholds.congr (by rw [hs₂]) (by rw [hs₂])⟩
  · rw [hs₂]
    exact ⟨hstep.rows.refunds, hstep.rows.collections⟩

/-- The record of an event is noted as processed, once it is applied or there is nothing to
apply. -/
theorem commitsTo_finish (hn : L (.number id)) {changed : Bool}
    (hK : ∀ s, K s → Recorded eventId id changed s) (now : Time) (outcome : String) (note : Note) :
    CommitsTo webhookTerms.toDiscipline webhookTerms.admits note L K
      (fun db =>
        let db := if changed then db else db.recordEffect eventId (.nothing outcome)
        { db with
          gatewayEvents := db.gatewayEvents.modify (fun e => e.eventId = eventId)
            (·.process now outcome) fun _ => rfl })
      fun s => s.HasApplied eventId := by
  refine ⟨fun L' s n s' n' _ _ _ hstep h => EventsStep.hasApplied hstep h,
    fun s n hs hdrawn hKs hgood => ?_⟩
  cases changed with
  | true =>
    have hrecorded := hK s hKs
    have happlied := hrecorded.2.mpr rfl
    obtain ⟨hinv, hstep⟩ := sound_process hs (EventsStep.refl L s) hn hrecorded.1 happlied now outcome rfl
    exact ⟨hinv, hstep, happlied⟩
  | false =>
    obtain ⟨hs₁, hstep₁, hrow, happlied⟩ := (commitsTo_apply (T := []) hn hK touches_id
      List.not_mem_nil (.nothing outcome) (fun _ _ => trivial) note).2 s n hs hdrawn hKs hgood
    obtain ⟨hinv, hstep⟩ := sound_process hs₁ hstep₁ hn hrow (happlied.mpr rfl) now outcome rfl
    exact ⟨hinv, hstep, happlied.mpr rfl⟩

end Owner

/-! ### Applying an event -/

theorem mem_updateCollection {s : PaymentsDb} {id : ℕ} {f : GatewayPayment → GatewayPayment}
    (hf : ∀ g, (f g).id = g.id) {g : GatewayPayment} (hg : g ∈ s.gatewayPayments)
    (hid : g.id = id) : f g ∈ (s.updateCollection id f hf).gatewayPayments :=
  (KeyedTable.mem_modify hf).mpr ⟨g, hg, (if_pos (decide_eq_true hid)).symm⟩

theorem mem_updateRefund {s : PaymentsDb} {id : ℕ} {f : Refund → Refund}
    (hf : ∀ r, (f r).id = r.id) {r : Refund} (hr : r ∈ s.refunds) (hid : r.id = id) :
    f r ∈ (s.updateRefund id f hf).refunds :=
  (KeyedTable.mem_modify hf).mpr ⟨r, hr, (if_pos (decide_eq_true hid)).symm⟩

section Apply

variable {L : Hold LockKey → Prop} {eventId : String} {id : ℕ}
  {post : (Hold LockKey → Prop) → (PaymentsDb → Prop) → (PaymentsDb → PaymentsDb) →
    Except PaymentError (Option String) → Prop}

/-- The capture that a webhook reports. -/
theorem wp_markPaid_webhook (hn : L (.number id)) (now : Time) (collectionId : ℕ) (paymentId : String)
    (amountPaise : Binary64)
    {go : (Hold LockKey → Prop) → (PaymentsDb → Prop) → (PaymentsDb → PaymentsDb) → String → Prop}
    (hgo : ∀ L' outcome, L' (.number id) →
      go L' (Recorded eventId id (outcome = "paid")) (fun s => s) outcome)
    (hfail : ∀ L' K e, post L' K (fun s => s) (.error e)) :
    (markPaid now collectionId paymentId amountPaise (.webhook eventId)).run.wp
      webhookTerms.toDiscipline webhookTerms.admits L (Recorded eventId id false) (fun s => s)
      (onOk go post) := by
  have hstable := stable_recorded eventId hn false
  have hskip : ∀ outcome, outcome ≠ "paid" →
      go L (Recorded eventId id false) (fun s => s) outcome := by
    intro outcome hne
    simpa [hne] using hgo L outcome hn
  unfold markPaid
  rw [wp_method_bind]
  refine wp_look_any hstable fun found => ?_
  cases found with
  | none => exact hskip _ (by decide)
  | some g =>
    dsimp only
    split
    · exact hskip _ (by split <;> decide)
    · split
      · exact hskip _ (by decide)
      · rw [wp_method_bind]
        refine wp_atomically ?_ fun e L' _ => hfail L' _ e
        refine wp_updateWhere hstable (fun L' hL => ?_) fun s n _ _ hcond => ?_
        · have hn' := numbers_number.mpr (hL.holds _ hn)
          have hpost := hgo (numbers L') "paid:duplicate" hn'
          rw [decide_eq_false (by decide)] at hpost
          exact ⟨_, commitsTo_nothing (stable_recorded eventId hn' false) (fun _ h => h) _, hpost⟩
        · have hn' := numbers_number (L := add L (.lock (.collection collectionId))) |>.mpr (.inr hn)
          have hpost := hgo _ "paid" hn'
          rw [decide_eq_true rfl] at hpost
          refine ⟨_, stable_collection_row collectionId, ?_, _, commitsTo_apply (.inr hn)
            (fun s hs => hs.1) (writes_updateCollection (List.mem_singleton_self _) _ _ _)
            (by simp) (.captured collectionId paymentId) (fun s hs => ?_) _, hpost⟩
          · cases hfind : s.gatewayPayments.find? collectionId with
            | none => simp [hfind] at hcond
            | some x => exact ⟨x, KeyedTable.find?_eq_some.mp hfind⟩
          · obtain ⟨x, hx, hid⟩ := hs.2
            have hmem := mem_updateCollection (f := (·.capture now paymentId)) (fun _ => rfl) hx hid
            exact ⟨x.capture now paymentId, hmem, hid, rfl, rfl⟩

/-- The status that a webhook reports of a refund. -/
theorem wp_settleRefund_webhook (hn : L (.number id)) (now : Time) (refundId : ℕ) (ref : String)
    (status : RefundStatus)
    {go : (Hold LockKey → Prop) → (PaymentsDb → Prop) → (PaymentsDb → PaymentsDb) → Bool → Prop}
    (hgo : ∀ L' changed, L' (.number id) →
      go L' (Recorded eventId id changed) (fun s => s) changed)
    (hfail : ∀ L' K e, post L' K (fun s => s) (.error e)) :
    (autocommit (settleRefund now refundId ref status (.webhook eventId))).run.wp
      webhookTerms.toDiscipline webhookTerms.admits L (Recorded eventId id false) (fun s => s)
      (onOk go post) := by
  have hstable := stable_recorded eventId hn false
  refine wp_atomically ?_ fun e L' _ => hfail L' _ e
  refine wp_updateWhere hstable (fun L' hL => ?_) fun s n _ _ hcond => ?_
  · have hn' := numbers_number.mpr (hL.holds _ hn)
    exact ⟨_, commitsTo_nothing (stable_recorded eventId hn' false) (fun _ h => h) _, hgo _ false hn'⟩
  · have hn' := numbers_number (L := add L (.lock (.refund refundId))) |>.mpr (.inr hn)
    refine ⟨_, stable_refund_row refundId, ?_, _, commitsTo_apply (.inr hn)
      (fun s hs => hs.1) (writes_updateRefund (List.mem_singleton_self _) _ _ _)
      (by simp) (.reconciled refundId status) (fun s hs => ?_) _, hgo _ true hn'⟩
    · cases hfind : s.refunds.find? refundId with
      | none => simp [hfind] at hcond
      | some x => exact ⟨x, KeyedTable.find?_eq_some.mp hfind⟩
    · obtain ⟨x, hx, hid⟩ := hs.2
      have hmem := mem_updateRefund (f := (·.reconcile now ref status)) (fun _ => rfl) hx hid
      exact ⟨x.reconcile now ref status, hmem, hid, rfl⟩

/-- A recorded event is applied, or there is nothing to apply. -/
theorem wp_applyEvent (hn : L (.number id)) (now : Time) (body : RzpWebhook)
    {go : (Hold LockKey → Prop) → (PaymentsDb → Prop) → (PaymentsDb → PaymentsDb) →
      String × Bool → Prop}
    (hgo : ∀ L' r, L' (.number id) → go L' (Recorded eventId id r.2) (fun s => s) r)
    (hfail : ∀ L' K e, post L' K (fun s => s) (.error e)) :
    (applyEvent now eventId body).run.wp webhookTerms.toDiscipline webhookTerms.admits L
      (Recorded eventId id false) (fun s => s) (onOk go post) := by
  have hstable := stable_recorded eventId hn false
  have hskip : ∀ outcome, go L (Recorded eventId id false) (fun s => s) (outcome, false) :=
    fun outcome => hgo L (outcome, false) hn
  unfold applyEvent
  dsimp only
  split
  · split
    · exact hskip _
    · split
      · exact hskip _
      · rw [wp_method_bind]
        refine wp_look_any hstable fun found => ?_
        cases found with
        | none => exact hskip _
        | some g =>
          rw [wp_method_bind]
          exact wp_markPaid_webhook hn _ _ _ _ (fun L' outcome hn' => hgo L' (_, _) hn') hfail
  · split
    · split
      · exact hskip _
      · rw [wp_method_bind]
        refine wp_look_any hstable fun found => ?_
        cases found with
        | none => exact hskip _
        | some r =>
          rw [wp_method_bind]
          exact wp_settleRefund_webhook hn _ _ _ _ (fun L' changed hn' => hgo L' (_, _) hn') hfail
    · exact hskip _

end Apply

/-! ### All requests -/

/-- A delivery that is the first of its event records it. -/
theorem wp_recordEvent (eventId event : String)
    {go : (Hold LockKey → Prop) → (PaymentsDb → Prop) → (PaymentsDb → PaymentsDb) → Bool → Prop}
    {post : (Hold LockKey → Prop) → (PaymentsDb → Prop) → (PaymentsDb → PaymentsDb) →
      Except PaymentError (Option String) → Prop}
    (hnew : ∀ L' id, L' (.number id) → go L' (Recorded eventId id false) (fun s => s) true)
    (hold : ∀ L', go L' (·.HasProcessed eventId) (fun s => s) false)
    (hfail : ∀ L' K e, post L' K (fun s => s) (.error e)) :
    (atomically (fun new => if new then .plain else .redelivery eventId)
      (recordEvent eventId event) : PaymentMethod Bool).run.wp webhookTerms.toDiscipline
      webhookTerms.admits nothing (fun _ => True) (fun s => s) (onOk go post) := by
  refine wp_atomically ?_ fun e L' _ => hfail L' _ e
  unfold recordEvent
  simp only [Discipline.wp_bind, wp_acquire]
  refine wp_query stable_true fun s n hs _ => ?_
  cases hfind : s.gatewayEvents.find? eventId with
  | some e =>
    -- recorded before: the commit is admitted where the event is processed
    refine ⟨fun _ => True, stable_true, trivial, (·.HasProcessed eventId), ⟨?_, ?_⟩, hold _⟩
    · rintro L' s n s' n' - - - hstep ⟨e, he, rfl, hp⟩
      exact EventsStep.processed hstep e he hp
    · exact fun s n hs _ _ hgood => ⟨hs, EventsStep.refl _ s, hgood⟩
  | none =>
    have hfree : webhookTerms.Stable (Discipline.add nothing (.lock (.event eventId)))
        fun s => ∀ e ∈ s.gatewayEvents, e.eventId ≠ eventId := by
      rintro L' s n s' n' - - hother hstep hnone e he rfl
      rcases EventsStep.origin hstep e he with hlock | ⟨e₀, he₀, hid⟩
      · exact hother _ (.inl rfl) hlock
      · exact hnone e₀ he₀ hid
    refine ⟨_, hfree, KeyedTable.find?_eq_none.mp hfind, ?_⟩
    simp only [Discipline.wp_bind, wp_update]
    refine wp_draw (stable_true.and hfree) fun s id hs hKs => ⟨fun _ => True, stable_true, trivial,
      Recorded eventId id false, ⟨stable_recorded _ (numbers_number.mpr (.inl rfl)) _, ?_⟩,
      hnew _ id (numbers_number.mpr (.inl rfl))⟩
    rintro s n hs hdrawn ⟨⟨-, hnone⟩, -⟩ -
    have hstay : ∀ e ∈ s.gatewayEvents, e ∈ s.gatewayEvents.put ⟨id, eventId, event, none, none⟩ :=
      fun e he => KeyedTable.mem_put.mpr (.inr ⟨he, hnone e he⟩)
    refine ⟨⟨fun e he => ?_, fun e he hp => ?_, fun a ha => ?_, hs.once⟩, ⟨fun e he _ => hstay e he,
      fun e he hp => ⟨e, hstay e he, rfl, hp⟩, fun e he => ?_, .inl rfl,
      ⟨(RowsStay.refl s).refunds, (RowsStay.refl s).collections⟩⟩, ⟨_, KeyedTable.mem_put.mpr (.inl rfl), rfl, rfl⟩, fun happlied => ?_, by simp⟩
    · rcases KeyedTable.mem_put.mp he with rfl | ⟨he, -⟩
      · exact hdrawn id (.inl rfl)
      · exact hs.drawn e he
    · rcases KeyedTable.mem_put.mp he with rfl | ⟨he, -⟩
      · exact absurd rfl hp
      · exact hs.processed e he hp
    · obtain ⟨e, he, hid⟩ := hs.recorded a ha
      exact ⟨e, hstay e he, hid⟩
    · rcases KeyedTable.mem_put.mp he with rfl | ⟨he, -⟩
      · exact .inl (.inr (.inl rfl))
      · exact .inr ⟨e, he, rfl⟩
    · obtain ⟨a, ha, rfl⟩ := happlied
      obtain ⟨e, he, hid⟩ := hs.recorded a ha
      exact absurd hid (hnone e he)

/-- A webhook acknowledges an event that has been applied. -/
theorem webhook_keeps (now : Time) (d : RzpDelivery)
    {post : (Hold LockKey → Prop) → (PaymentsDb → Prop) → (PaymentsDb → PaymentsDb) →
      Except PaymentError (Option String) → Prop}
    (hpost : ∀ L' K' eventId, (∀ s n, EventsSound s n → K' s → s.HasApplied eventId) →
      post L' K' (fun s => s) (.ok (some eventId)))
    (hfail : ∀ L' K e, post L' K (fun s => s) (.error e)) :
    (do return some (← handleRazorpayWebhook now d) : PaymentMethod (Option String)).run.wp
      webhookTerms.toDiscipline webhookTerms.admits nothing (fun _ => True) (fun s => s) post := by
  unfold handleRazorpayWebhook
  simp only [wp_method_bind]
  refine wp_guardOr (fun _ => wp_getOr (fun body _ => wp_recordEvent _ _ (fun L id hn => ?_)
    (fun L => ?_) fun _ _ _ => hfail _ _ _) (hfail _ _ _)) (hfail _ _ _)
  · rw [if_pos rfl, wp_method_bind]
    refine wp_applyEvent hn _ _ (fun L' r hn' => ?_) hfail
    simp only [wp_method_bind]
    refine wp_atomically ?_ fun _ _ _ => hfail _ _ _
    unfold finishEvent
    simp only [Discipline.wp_bind, wp_acquire, wp_update]
    exact ⟨_, commitsTo_finish (.inr hn') (fun _ h => h) now r.1 _,
      hpost _ _ _ fun _ _ _ h => h⟩
  · rw [if_neg Bool.false_ne_true]
    refine hpost _ _ _ fun s n hs h => ?_
    obtain ⟨e, he, hid, hp⟩ := h
    exact hid ▸ hs.processed e he hp

/-- Every request keeps the terms of webhooks. -/
theorem webhook_kept (gateway : Gateway) (r : PaymentRequest) :
    webhookTerms.Kept (r.run gateway).run := by
  have htouches := r.touches gateway
  cases r with
  | webhook now delivery =>
    exact webhook_keeps now delivery (fun L' K' eventId h s n hs hK => h s n hs hK)
      fun _ _ _ _ _ _ _ => trivial
  | _ =>
    dsimp only [PaymentRequest.run] at htouches ⊢
    exact kept_quiet about_events (fun _ => trivial) (fun _ _ => trivial) htouches
      (by simp [PaymentRequest.tables])

theorem NoPayments.eventsSound {db : PaymentsDb} {n : ℕ} (h : NoPayments db n) :
    EventsSound db n := by
  have hnone : ∀ e, e ∉ db.gatewayEvents := by
    rw [h.gatewayEvents]
    exact KeyedTable.notMem_empty
  refine ⟨fun e he => absurd he (hnone e), fun e he => absurd he (hnone e), ?_, ?_⟩ <;>
    simp [h.applied]

instance (note : Note) (held : List (Hold LockKey)) (db : PaymentsDb) :
    Decidable (webhookTerms.admits note (· ∈ held) db) :=
  match note with
  | .redelivery eventId => inferInstanceAs
      (Decidable (∃ e ∈ db.gatewayEvents.rows, e.eventId = eventId ∧ e.processedAt ≠ none))
  | .plain | .completion _ _ | .collectFailed _ | .drawerOpened _ | .movement _ => .isTrue trivial

/-- The first delivery of a capture is recorded, and stops before it is applied. -/
def lostRun : List (WorldAction PaymentRequest ProviderReply) :=
  collectRun ++ [.start 1 (.webhook 0 captureDelivery)] ++ WorldAction.steps 1 5 ++ [.crash 1]

/-- The provider delivers the capture again. -/
def redeliveryRun : List (WorldAction PaymentRequest ProviderReply) :=
  [.start 2 (.webhook 0 captureDelivery)] ++ WorldAction.steps 2 5

end StelloKitchens.Payments
