import StelloKitchens.Webhooks.Workers

/-!
# Attempts one after another

A pass claims many deliveries at once, for two minutes, and attempts them one after another; what it
comes to late may have been claimed by another pass since, or attempted by a request. Where a
delivery is taken only when all attempts at it are recorded, and attempted only by who has taken it
last, it is attempted by one worker at a time, automatically no more often than is meant, and no
automatic attempt undoes a success.

## Main definitions

* `inFlight` — the attempts that are under way.
* `Serialised` — one at a time, not too many, and none that undoes a success.
* `attemptAdmits` — deliveries are taken when none is under way, and attempted by who has them.

## Main results

* `serialised` — attempts over all interleavings.
-/

namespace StelloKitchens.Webhooks

open Tx Process Method Discipline Service

/-- The process with this number is still running. -/
def Running (w : WebhookWorld) (worker : ℕ) : Prop :=
  ∃ p ∈ w.sessions.rows, .number worker ∈ p.2.held

instance (w : WebhookWorld) (worker : ℕ) : Decidable (Running w worker) :=
  inferInstanceAs (Decidable (∃ p ∈ w.sessions.rows, _))

/-- The attempts at a delivery that are under way. -/
def inFlight (w : WebhookWorld) (id : ℕ) : List Attempt :=
  w.db.attempts.filter fun a => a.delivery = id ∧ a.Open ∧ Running w a.worker

/-- Each delivery is attempted by one worker at a time, automatically at most so often, and no
automatic attempt takes a success back. -/
structure Serialised (w : WebhookWorld) : Prop where
  single : ∀ id, (inFlight w id).length ≤ 1
  capped : ∀ id, w.db.automatic id ≤ maxAttempts
  settled : ∀ a ∈ w.db.attempts, a.automatic = true → ∀ status,
    a.outcome = some (.succeeded, status) → status = .succeeded

/-- A delivery is taken when every attempt at it has been recorded, and attempted by who has taken it
last. -/
def attemptAdmits : Note → (Hold LockKey → Prop) → WebhookDb → Prop
  | .claim ids, _, s => ∀ a ∈ s.attempts, a.delivery ∈ ids → a.outcome ≠ none
  | .manual id, _, s => ∀ a ∈ s.attempts, a.delivery = id → a.outcome ≠ none
  | .begin id worker, _, s => s.holder id = some worker
  | .plain, _, _ => True

instance (note : Note) (held : List (Hold LockKey)) (s : WebhookDb) :
    Decidable (attemptAdmits note (· ∈ held) s) :=
  match note with
  | .claim ids =>
    inferInstanceAs (Decidable (∀ a ∈ s.attempts, a.delivery ∈ ids → a.outcome ≠ none))
  | .manual id => inferInstanceAs (Decidable (∀ a ∈ s.attempts, a.delivery = id → a.outcome ≠ none))
  | .begin id worker => inferInstanceAs (Decidable (s.holder id = some worker))
  | .plain => .isTrue trivial

variable {L : Hold LockKey → Prop} {s s' : WebhookDb} {note : Note} {n : ℕ}

/-- A change that is admitted is in turn. -/
theorem Change.keeps_turn (h : Change L s note s') (hadmits : attemptAdmits note L s)
    (hs : s.crossed = false) : s'.crossed = false := by
  have htake : ∀ (t : WebhookDb) (ids : List ℕ) (k : ℕ), t.crossed = false →
      (∀ a ∈ t.attempts, a.delivery ∈ ids → ¬a.Open) → (t.take ids k).crossed = false := by
    intro t ids k ht hnone
    refine Bool.or_eq_false_iff.mpr ⟨ht, List.any_eq_false.mpr fun a ha hopen => ?_⟩
    obtain ⟨hmem, hopen⟩ := of_decide_eq_true hopen
    exact hnone a ha hmem hopen
  cases h with
  | test d worker =>
    exact htake (s.create [d]) _ _ hs fun a ha hmem => hadmits a ha (List.mem_singleton.mp hmem)
  | claim => exact htake { s with deliveries := _ } _ _ hs hadmits
  | reopen =>
    exact htake { s with deliveries := _ } _ _ hs fun a ha hmem =>
      hadmits a ha (List.mem_singleton.mp hmem)
  | begin id worker =>
    have hholder : s.holder id = some worker := hadmits
    exact Bool.or_eq_false_iff.mpr ⟨hs, by simp [hholder]⟩
  | _ => exact hs

/-- The attempts at a delivery that are not recorded are one at most. -/
theorem Straight.open_le_one (h : Straight s)
    (hsingle : s.attempts.Pairwise fun a b => a.delivery = b.delivery → a.worker ≠ b.worker)
    (id : ℕ) : (s.attempts.filter fun a => a.delivery = id ∧ a.Open).length ≤ 1 := by
  have hnone : (s.attempts.filter fun a => a.delivery = id ∧ a.Open).Pairwise fun _ _ => False := by
    refine (hsingle.sublist List.filter_sublist).imp_of_mem fun {a b} hamem hbmem hab => ?_
    obtain ⟨ha, haopen⟩ := List.mem_filter.mp hamem
    obtain ⟨hb, hbopen⟩ := List.mem_filter.mp hbmem
    obtain ⟨haid, haopen⟩ := of_decide_eq_true haopen
    obtain ⟨hbid, hbopen⟩ := of_decide_eq_true hbopen
    have hholder := h.holder b hb hbopen
    rw [hbid, ← haid, h.holder a ha haopen] at hholder
    exact hab (haid.trans hbid.symm) (Option.some.inj hholder)
  generalize s.attempts.filter (fun a => a.delivery = id ∧ a.Open) = l at hnone
  cases l with
  | nil => exact Nat.zero_le _
  | cons a l =>
    cases l with
    | nil => exact le_refl _
    | cons b l => exact ((List.pairwise_cons.mp hnone).1 b List.mem_cons_self).elim

/-- In every interleaving in which deliveries are taken when all attempts at them are recorded, and
attempted by who has taken them last, attempts come one after another. -/
theorem serialised {w : WebhookWorld} (h : webhooks.Reach (World.Admits attemptAdmits) w) :
    Serialised w := by
  have hturn : w.db.crossed = false := webhook_invariant (I := fun s => s.crossed = false)
    (fun _ hs => hs.crossed) (fun _ _ _ _ _ _ hadmits hchange hs => hchange.keeps_turn hadmits hs) h
  have hsound := (webhook_holds h).inv
  have hstraight := hsound.straight hturn
  refine ⟨fun id => ?_, hstraight.capped, hstraight.settled⟩
  refine le_trans (List.Sublist.length_le ?_) (hstraight.open_le_one hsound.single id)
  refine List.monotone_filter_right _ fun a ha => ?_
  obtain ⟨hid, hopen, -⟩ := of_decide_eq_true ha
  exact decide_eq_true ⟨hid, hopen⟩

/-! ### A delivery that is asked for while it is attempted -/

/-- A tenant's endpoint. -/
def oneEndpoint : WebhookDb where
  now := 0
  endpoints := .put .empty ⟨1, "t", none, "https://receiver", ["order.settled"], true⟩
  deliveries := .empty
  attempts := []
  holder _ := none
  crossed := false

theorem reach_oneEndpoint {good : WebhookWorld → WorldAction WebhookRequest WebhookReply → Prop} :
    webhooks.Reach good (.atRest oneEndpoint 2) :=
  .init ⟨⟨rfl, rfl, fun _ => rfl, rfl⟩, rfl, rfl⟩

/-- A request runs until it calls the endpoint or ends. -/
def requestRun (slot : ℕ) (request : WebhookRequest) : List (WorldAction WebhookRequest WebhookReply) :=
  .start slot request :: WorldAction.steps slot 40

/-- An order is settled, and a pass attempts the delivery. -/
def settledRun : List (WorldAction WebhookRequest WebhookReply) :=
  requestRun 1 (.onEvent ⟨"evt", "order.settled", "t", some "o", "payload"⟩) ++
    requestRun 2 (.processDue 20 [])

/-- The owner asks for the delivery once more. -/
def redeliverRun : List (WorldAction WebhookRequest WebhookReply) :=
  requestRun 3 (.redeliver ⟨"u", "t", []⟩ 2)

/-- Attempts do not always come one after another: a delivery is redelivered while it is attempted. -/
theorem not_serialised : ¬∀ w, webhooks.Reachable w → Serialised w := by
  intro h
  have hsingle := (h _ (Machine.reachable_run (settledRun ++ redeliverRun) reach_oneEndpoint)).single 2
  revert hsingle
  decide +kernel

/-- The delivery is redelivered after its attempt has failed. -/
theorem serialised_settled :
    let w := webhooks.run (.atRest oneEndpoint 2) (settledRun ++ .reply 2 ⟨.ok 500, 0⟩ ::
      WorldAction.steps 2 20 ++ redeliverRun ++ .reply 3 ⟨.ok 200, 0⟩ :: WorldAction.steps 3 20)
    w.db.deliveries.rows.map (·.attempts) = [2] ∧ Serialised w :=
  ⟨by decide +kernel, serialised (Machine.reach_run _ reach_oneEndpoint (by decide +kernel))⟩

end StelloKitchens.Webhooks
