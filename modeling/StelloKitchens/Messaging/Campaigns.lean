import StelloKitchens.Messaging.Sending

/-!
# Campaigns reach each customer once

The send of a campaign queues a message for each customer of its segment, one after another, and
marks the campaign as sent in the end. A campaign that is marked as sent has a message for every
customer of its segment, whatever else is going on. But a second request finds it unsent while the
first is still queueing, or after the first has stopped half-way, and queues messages once more.

## Main definitions

* `CampaignsOnce` — each customer has at most one message of a campaign, and all have one of a
  campaign that is sent.
* `campaignAdmits` — all messages of a campaign are queued by one send.

## Main results

* `campaigns_once` — campaigns over all interleavings.
-/

namespace StelloKitchens.Messaging

open Tx Process Method Discipline Service

/-- No customer has two messages of a campaign. -/
def NoneTwice (s : MessagingDb) : Prop :=
  ∀ x ∈ s.outbox.rows, ∀ y ∈ s.outbox.rows, x.campaignId ≠ none → x.campaignId = y.campaignId →
    x.customer = y.customer → x.id = y.id

instance (s : MessagingDb) : Decidable (NoneTwice s) :=
  inferInstanceAs (Decidable (∀ x ∈ s.outbox.rows, ∀ y ∈ s.outbox.rows, _))

/-- No customer has two messages of a campaign, and when a campaign is sent, every customer of its
segment has one. -/
structure CampaignsOnce (s : MessagingDb) : Prop where
  once : NoneTwice s
  reached : ∀ c ∈ s.campaigns, c.status = .sent → ∃ t ≤ s.now, s.Reached c t

/-- A message of a campaign is queued by the send that has queued all the others so far. -/
def campaignAdmits : Note → (Hold LockKey → Prop) → MessagingDb → Prop
  | .create m _, _, s => m.campaignId ≠ none →
      ∀ x ∈ s.outbox.rows, x.campaignId = m.campaignId → x.send = m.send
  | _, _, _ => True

instance (note : Note) (held : List (Hold LockKey)) (s : MessagingDb) :
    Decidable (campaignAdmits note (· ∈ held) s) :=
  match note with
  | .create m _ => inferInstanceAs (Decidable (m.campaignId ≠ none →
      ∀ x ∈ s.outbox.rows, x.campaignId = m.campaignId → x.send = m.send))
  | .optOut _ => .isTrue trivial
  | .plain => .isTrue trivial
  | .takeover _ => .isTrue trivial
  | .dispatch _ _ _ _ => .isTrue trivial

variable {L : Hold LockKey → Prop} {s s' : MessagingDb} {note : Note}

/-- Who has a message of a campaign keeps it. -/
theorem Change.reached (h : Change L s note s') {c : Campaign} {t : Time} (hc : s.Reached c t) :
    s'.Reached c t := by
  intro k hk
  rw [h.customersAt] at hk
  obtain ⟨x, hx, hcampaign, hcustomer⟩ := hc k hk
  obtain ⟨x', hx', hsame⟩ := h.same hx
  exact ⟨x', hx', hsame.campaignId.trans hcampaign, hsame.customer.trans hcustomer⟩

/-- A campaign that is sent was sent before, or all customers have a message. -/
theorem Change.sent_campaign (h : Change L s note s')
    (hs : ∀ c ∈ s.campaigns, c.status = .sent → ∃ t ≤ s.now, s.Reached c t) :
    ∀ c ∈ s'.campaigns, c.status = .sent → ∃ t ≤ s'.now, s'.Reached c t := by
  have hold : ∀ c ∈ s.campaigns, c.status = .sent → ∃ t ≤ s'.now, s'.Reached c t := by
    intro c hc hsent
    obtain ⟨t, ht, hreached⟩ := hs c hc hsent
    exact ⟨t, ht.trans h.now_le, h.reached hreached⟩
  intro c hc hsent
  cases h with
  | campaign d _ hdraft =>
    rcases KeyedTable.mem_put.mp hc with rfl | ⟨hc, -⟩
    · rw [hdraft] at hsent
      cases hsent
    · exact hold c hc hsent
  | campaignSent id sentCount hall =>
    obtain ⟨d, hd, rfl⟩ := mem_sendCampaign.mp hc
    by_cases hid : d.id = id
    · rw [if_pos hid]
      exact hall d hd hid
    · rw [if_neg hid] at hsent ⊢
      exact hold d hd hsent
  | _ => exact hold c hc hsent

/-- The messages of campaigns, each queued by a send. -/
structure Campaigned (s : MessagingDb) : Prop extends CampaignsOnce s where
  sends : ∀ x ∈ s.outbox, x.campaignId ≠ none → x.send ≠ none

/-- A change that is admitted keeps campaigns to one message for each customer. -/
theorem Campaigned.step (h : Campaigned s) (hadmits : campaignAdmits note L s)
    (hchange : Change L s note s') : Campaigned s' := by
  -- a new message is for a customer who has none of the campaign
  have hnew : ∀ m seen, note = .create m seen → ∀ x ∈ s.outbox, m.campaignId ≠ none →
      x.campaignId = m.campaignId → x.customer ≠ m.customer := by
    rintro m seen rfl x hx hcampaign hsame
    cases hchange with
    | create _ _ _ _ _ _ hsent _ hsend =>
      obtain ⟨k, hk⟩ := Option.ne_none_iff_exists'.mp (hsent hcampaign)
      exact (hsend k hk).2 x hx ((hadmits hcampaign x hx hsame).trans hk)
  refine ⟨⟨?_, hchange.sent_campaign h.reached⟩, ?_⟩
  · intro x' hx' y' hy' hcampaign hsame hcustomer
    rcases hchange.origin hx' with ⟨x, hx, hxstep⟩ | ⟨seen, hxcreate⟩ <;>
      rcases hchange.origin hy' with ⟨y, hy, hystep⟩ | ⟨seen', hycreate⟩
    · rw [hxstep.message.campaignId] at hcampaign hsame
      rw [hystep.message.campaignId] at hsame
      rw [hxstep.message.customer, hystep.message.customer] at hcustomer
      rw [hxstep.message.id, hystep.message.id]
      exact h.once x hx y hy hcampaign hsame hcustomer
    · rw [hxstep.message.campaignId] at hcampaign hsame
      rw [hxstep.message.customer] at hcustomer
      exact absurd hcustomer (hnew y' seen' hycreate x hx (hsame ▸ hcampaign) hsame)
    · rw [hystep.message.campaignId] at hsame
      rw [hystep.message.customer] at hcustomer
      exact absurd hcustomer.symm (hnew x' seen hxcreate y hy hcampaign hsame.symm)
    · rw [hxcreate] at hycreate
      rw [(Note.create.inj hycreate).1]
  · intro x' hx' hcampaign
    rcases hchange.origin hx' with ⟨x, hx, hstep⟩ | ⟨seen, rfl⟩
    · rw [hstep.message.campaignId] at hcampaign
      rw [hstep.message.send]
      exact h.sends x hx hcampaign
    · cases hchange with
      | create _ _ _ _ _ _ hsent => exact hsent hcampaign

theorem NoMessages.campaigned (h : NoMessages s) : Campaigned s where
  once x hx := by simp [h.outbox, KeyedTable.empty] at hx
  reached c hc := by simp [h.campaigns] at hc
  sends x hx := by simp [h.outbox] at hx

/-- In every interleaving in which all messages of a campaign are queued by one send, no customer has
two, and when the campaign is sent, every customer of its segment has one. -/
theorem campaigns_once {w : MessagingWorld} (h : messaging.Reach (World.Admits campaignAdmits) w) :
    CampaignsOnce w.db :=
  (messaging_invariant (fun _ => NoMessages.campaigned) (fun _ _ _ _ _ _ _ _ hadmits hchange ih =>
    ih.step hadmits hchange) h).toCampaignsOnce

/-! ### A campaign that is sent twice -/

/-- Two requests find the campaign unsent, and both queue its messages. -/
def twiceRun : List (WorldAction MessagingRequest DispatchReply) :=
  .start 1 (.sendCampaign manager "o" 1) :: WorldAction.steps 1 5 ++ sendRun 2 ++ WorldAction.steps 1 40

/-- Customers do not always have one message of a campaign. -/
theorem not_campaigns_once : ¬∀ w, messaging.Reachable w → CampaignsOnce w.db := by
  intro h
  have honce := (h _ (Machine.reachable_run (createRun ++ twiceRun) reach_twoCustomers)).once
  revert honce
  decide +kernel

theorem campaigns_once_sent :
    let w := messaging.run (.atRest twoCustomers 1) (createRun ++ sendRun 1 ++ sendRun 2)
    w.db.campaigns.rows.map (·.status) = [.sent] ∧ w.db.outbox.rows.length = 2 ∧ CampaignsOnce w.db :=
  ⟨by decide +kernel, by decide +kernel,
    campaigns_once (Machine.reach_run _ reach_twoCustomers (by decide +kernel))⟩

end StelloKitchens.Messaging
