import StelloKitchens.Messaging.Sending
import StelloKitchens.Webhooks.Serialised

/-!
# Queued work is not stranded

What a worker has claimed is not seen by the other passes, so it has to be put back or finished on
every path. A delivery is claimed by moving its next attempt into the future, so that it is claimed
again if the worker crashes; but one that is sent or redelivered on request is pending without a next
attempt until the request has recorded the outcome. A message is claimed by its status alone, so it
stays behind when its sender crashes.

## Main definitions

* `Scheduled` — pending deliveries have a next attempt.
* `Tended` — messages that are not finished are queued, or held by a sender that is running.

## Main results

* `not_stranded` — deliveries without requests, and messages without crashes of who holds some.
-/

namespace StelloKitchens.Webhooks

open Messaging (MessagingDb MessagingWorld MessageOutbox MessagingRequest DispatchReply messaging
  messagingTerms messaging_discharged)

/-! ### Deliveries -/

/-- Every delivery that is pending has a next attempt. -/
def Scheduled (s : WebhookDb) : Prop :=
  ∀ d ∈ s.deliveries.rows, d.status = .pending → d.nextAttemptAt ≠ none

instance (s : WebhookDb) : Decidable (Scheduled s) :=
  inferInstanceAs (Decidable (∀ d ∈ s.deliveries.rows, _))

/-- No delivery is sent or redelivered on request. -/
def noneManual : Note → (Hold LockKey → Prop) → WebhookDb → Prop
  | .manual _, _, _ => False
  | _, _, _ => True

instance (note : Note) (held : List (Hold LockKey)) (s : WebhookDb) :
    Decidable (noneManual note (· ∈ held) s) :=
  match note with
  | .manual _ => .isFalse id
  | .plain => .isTrue trivial
  | .claim _ => .isTrue trivial
  | .begin _ _ => .isTrue trivial

variable {L : Hold LockKey → Prop} {s s' : WebhookDb} {note : Note}

theorem Change.scheduled (h : Change L s note s') (hadmits : noneManual note L s)
    (hs : Scheduled s) : Scheduled s' := by
  intro x' hx' hstatus
  cases h with
  | rest => exact hs x' hx' hstatus
  | remove => exact hs x' (KeyedTable.mem_delete.mp hx').1 hstatus
  | create rows _ _ hdue =>
    exact (mem_create hx').elim (hdue x') fun hx => hs x' hx hstatus
  | test => exact hadmits.elim
  | claim ids pass leasedUntil =>
    obtain ⟨x, hx, rfl⟩ := mem_claim.mp hx'
    split
    · exact Option.some_ne_none leasedUntil
    · rw [if_neg ‹_›] at hstatus
      exact hs x hx hstatus
  | reopen => exact hadmits.elim
  | begin => exact hs x' hx' hstatus
  | finish id worker f hf _ _ _ _ _ hretry =>
    obtain ⟨x, hx, rfl⟩ := (mem_finish hf).mp hx'
    split at hstatus
    · rw [if_pos ‹_›]
      exact (hretry x hstatus).1
    · rw [if_neg ‹_›]
      exact hs x hx hstatus

theorem scheduled {w : WebhookWorld} (h : webhooks.Reach (World.Admits noneManual) w) :
    Scheduled w.db :=
  webhook_invariant (fun s hs d hd => by simp [hs.deliveries, KeyedTable.empty] at hd)
    (fun _ _ _ _ _ _ hadmits hchange hs => hchange.scheduled hadmits hs) h

/-! ### Messages -/

/-- Every message that is not finished is queued, with a time from which on it is due, or is held by
a sender that is still running. -/
def Tended (w : MessagingWorld) : Prop :=
  ∀ m ∈ w.db.outbox.rows, m.Open → m.status = .queued ∨
    m.status = .sending ∧ ∃ k ∈ m.holder, ∃ p ∈ w.sessions.rows, .number k ∈ p.2.held

instance (w : MessagingWorld) : Decidable (Tended w) :=
  inferInstanceAs (Decidable (∀ m ∈ w.db.outbox.rows, m.Open → m.status = .queued ∨
    m.status = .sending ∧ ∃ k ∈ m.holder, ∃ p ∈ w.sessions.rows, .number k ∈ p.2.held))

/-- No sender crashes that holds a message. -/
def noneLost (w : MessagingWorld) (a : WorldAction MessagingRequest DispatchReply) : Prop :=
  w.Spares Messaging.Owes a

instance (w : MessagingWorld) (a : WorldAction MessagingRequest DispatchReply) :
    Decidable (noneLost w a) := inferInstanceAs (Decidable (w.Spares Messaging.Owes a))

theorem tended {w : MessagingWorld} (h : messaging.Reach noneLost w) : Tended w := by
  have hadmitted := h.mono fun w a hgood =>
    (⟨World.admits_of_forall (fun _ _ _ => trivial) w a, hgood⟩ :
      w.Admits (fun _ _ _ => True) a ∧ w.Spares Messaging.Owes a)
  have hnone : ∀ (s : MessagingDb) (_ : ℕ), Messaging.NoMessages s → ∀ m, ¬Messaging.Owes m s := by
    rintro s - hs m ⟨x, hx, -⟩
    simp [hs.outbox, KeyedTable.empty] at hx
  have howed : ∀ L s s' m, (Messaging.messagingTerms fun _ _ _ => True).step L s s' →
      Messaging.Owes m s' → Messaging.Owes m s ∨ L (.number m) := by
    rintro L s s' m (rfl | ⟨note, -, hchange⟩) howes
    · exact .inl howes
    · exact hchange.owes howes
  obtain ⟨hholds, hattended⟩ := Terms.attended_of_reach (messaging_discharged fun _ _ _ => True)
    howed (fun _ _ => Messaging.NoMessages.sound) (fun s n hs => hnone s n hs) hadmitted
  refine fun m hm hopen => hopen.imp_right fun hsending => ⟨hsending, ?_⟩
  obtain ⟨k, hk⟩ := Option.ne_none_iff_exists'.mp (hholds.inv.taken m hm hsending)
  exact ⟨k, hk, hattended k ⟨m, hm, hsending, hk⟩⟩

/-- Where nothing is sent on request, pending deliveries have a next attempt; where no sender crashes
that holds a message, messages that are not finished are queued or held by a running sender. -/
theorem not_stranded (w : WebhookWorld) (v : MessagingWorld) :
    (webhooks.Reach (World.Admits noneManual) w → Scheduled w.db) ∧
      (messaging.Reach noneLost v → Tended v) :=
  ⟨scheduled, tended⟩

/-! ### A request and a pass that stop half-way -/

/-- A pass takes a message over, calls the provider, and crashes. -/
def lostRun : List (WorldAction MessagingRequest DispatchReply) :=
  Messaging.requestRun 2 (.processOutbox 1 []) ++ [.crash 2]

/-- Queued work is stranded by a request to redeliver that crashes, and by a pass of the outbox that
does. -/
theorem stranded : (¬∀ w, webhooks.Reachable w → Scheduled w.db) ∧
    ¬∀ w, messaging.Reachable w → Tended w := by
  constructor
  · intro h
    have hscheduled := h _ (Machine.reachable_run (settledRun ++ .reply 2 ⟨.ok 200, 0⟩ ::
      WorldAction.steps 2 20 ++ redeliverRun ++ [.crash 3]) reach_oneEndpoint)
    revert hscheduled
    decide +kernel
  · intro h
    have htended := h _ (Machine.reachable_run (Messaging.createRun ++ Messaging.sendRun 1 ++ lostRun)
      Messaging.reach_twoCustomers)
    revert htended
    decide +kernel

/-- A pass of the worker crashes, and so does one of the outbox that holds nothing any more. -/
theorem not_stranded_crash :
    (let w := webhooks.run (.atRest oneEndpoint 2) (settledRun ++ [.crash 2])
     w.sessions.rows.map (·.1) = [] ∧ w.db.deliveries.rows.map (·.nextAttemptAt) = [some 120000] ∧
       Scheduled w.db) ∧
    (let w := messaging.run (.atRest Messaging.twoCustomers 1) (Messaging.createRun ++
      Messaging.sendRun 1 ++ Messaging.requestRun 2 (.processOutbox 1 []) ++
      .reply 2 (.sent "msg91" "M1") :: WorldAction.steps 2 6 ++ [.crash 2])
     w.db.outbox.rows.map (·.status) = [.sent, .queued] ∧ Tended w) :=
  ⟨⟨by decide +kernel, by decide +kernel,
      (not_stranded _ (.atRest Messaging.twoCustomers 1)).1 (Machine.reach_run _ reach_oneEndpoint (by decide +kernel))⟩,
    by decide +kernel,
    (not_stranded (.atRest oneEndpoint 2) _).2 (Machine.reach_run _ Messaging.reach_twoCustomers (by decide +kernel))⟩

end StelloKitchens.Webhooks
