import StelloKitchens.Lib.Triples
import StelloKitchens.Messaging.Changes

/-!
# What is queued, and what comes in

The methods of the messaging service are proved from what a process knows while the others go on:
which messages it has queued, which the provider knows, and that none is being sent under its
numbers. So everything that it commits is one of the changes. This is done here for the methods that
take no message over.

## Main definitions

* `messagingTerms` — the terms of the services, whatever is admitted of their commits.
* `Owes`, `Free` — a message is being sent under a number, and none is under these.
* `StaysFree` — a method during which nothing comes to be sent.
* `Campaigning` — what the send of a campaign has queued.

## Main results

* `enqueue_leads` — what is known after a message is queued.
* `sendCampaign_free`, `handleWhatsAppWebhook_free` — the methods keep the terms.
-/

namespace StelloKitchens.Messaging

open Tx Process Method Discipline Service

/-! ### The terms -/

/-- A message is being sent under this number. -/
def Owes (m : ℕ) (s : MessagingDb) : Prop :=
  ∃ x ∈ s.outbox.rows, x.status = .sending ∧ x.holder = some m

instance (m : ℕ) (s : MessagingDb) : Decidable (Owes m s) :=
  inferInstanceAs (Decidable (∃ x ∈ s.outbox.rows, _))

/-- No message is being sent under these numbers. -/
def Free : Assertion MessagingDb := fun N s => ∀ m, N m → ¬Owes m s

theorem Sound.mono {s : MessagingDb} {n m : ℕ} (hle : n ≤ m) (h : Sound s n) : Sound s m :=
  { h with
    messages := fun x hx => (h.messages x hx).trans_le hle
    holders := fun x hx k hk => (h.holders x hx k hk).trans_le hle
    sends := fun x hx k hk => (h.sends x hx k hk).trans_le hle
    optOuts := fun o ho => (h.optOuts o ho).trans_le hle
    campaigns := fun c hc => (h.campaigns c hc).trans_le hle
    dispatches := fun d hd => (h.dispatches d hd).trans_le hle
    counts := fun c hc => (h.counts c hc).trans_le hle }

section Terms

variable (admitted : Note → (Hold LockKey → Prop) → MessagingDb → Prop)

/-- The terms of the services: every commit is admitted and makes one of the changes. -/
def messagingTerms : Terms MessagingDb LockKey Note (Except ServiceError Unit) where
  inv := Sound
  step L s s' := s' = s ∨ ∃ note, admitted note L s ∧ Change L s note s'
  inv_mono := Sound.mono
  admits := admitted
  said _ _ := True
  said_step _ _ _ h := h

/-- The discipline of the terms. -/
abbrev changes : Discipline MessagingDb LockKey := (messagingTerms admitted).toDiscipline

/-- A method with what its sender knows before and after. -/
abbrev Leads {α : Type} (J : Assertion MessagingDb) (x : MessagingMethod α)
    (Q : α → Assertion MessagingDb) (E : Assertion MessagingDb) : Prop :=
  Triple (changes admitted) admitted J x Q E

end Terms

variable {admitted : Note → (Hold LockKey → Prop) → MessagingDb → Prop}
  {L : Hold LockKey → Prop} {s s' : MessagingDb} {note : Note} {n : ℕ}

/-- What every change of the others leaves true. -/
theorem stable_of_change {K : MessagingDb → Prop}
    (h : ∀ L' s n note s', Sound s n → (∀ k, L k → ¬L' k) → Change L' s note s' → K s → K s') :
    (changes admitted).Stable L K := by
  rintro L' s n s' n' hs - hother (rfl | ⟨note, -, hchange⟩) hK
  · exact hK
  · exact h L' s n note s' hs hother hchange hK

/-- A commit that makes a change. -/
theorem commits_change {K J : MessagingDb → Prop} {f : MessagingDb → MessagingDb}
    (hJ : (changes admitted).Stable (numbers L) J)
    (h : ∀ s n, Sound s n → (∀ m, L (.number m) → m < n) → K s → Change L s note (f s))
    (hkeep : ∀ s n, Sound s n → (∀ m, L (.number m) → m < n) → K s → J (f s)) :
    CommitsTo (changes admitted) admitted note L K f J := by
  refine ⟨hJ, fun s n hs hdrawn hK hadmitted => ?_⟩
  have hchange := h s n hs hdrawn hK
  exact ⟨hchange.sound hs hdrawn, .inr ⟨note, hadmitted, hchange⟩, hkeep s n hs hdrawn hK⟩

/-- A commit that makes none. -/
theorem commits_nothing {K J : MessagingDb → Prop} (hJ : (changes admitted).Stable (numbers L) J)
    (h : ∀ s, K s → J s) : CommitsTo (changes admitted) admitted note L K id J :=
  ⟨hJ, fun s _ hs _ hK _ => ⟨hs, .inl rfl, h s hK⟩⟩

/-! ### Numbers -/

/-- Nothing has been done under this number. -/
structure Unused (n : ℕ) (s : MessagingDb) : Prop where
  message : ∀ x ∈ s.outbox, x.id ≠ n
  holder : ∀ x ∈ s.outbox, x.holder ≠ some n
  send : ∀ x ∈ s.outbox, x.send ≠ some n
  optOut : ∀ o ∈ s.optOuts, o.id ≠ n
  campaign : ∀ c ∈ s.campaigns, c.id ≠ n
  calls : s.callsBy n = []
  counts : s.countsBy n = []

theorem Sound.unused (h : Sound s n) : Unused n s where
  message x hx := (h.messages x hx).ne
  holder x hx hholder := lt_irrefl n (h.holders x hx n hholder)
  send x hx hsend := lt_irrefl n (h.sends x hx n hsend)
  optOut o ho := (h.optOuts o ho).ne
  campaign c hc := (h.campaigns c hc).ne
  calls := List.filter_eq_nil_iff.mpr fun d hd heq => (h.dispatches d hd).ne (of_decide_eq_true heq)
  counts := List.filter_eq_nil_iff.mpr fun c hc heq => (h.counts c hc).ne (of_decide_eq_true heq)

theorem Change.unused (h : Change L s note s') (hn : ¬L (.number n)) (hs : Unused n s) :
    Unused n s' where
  message := h.forall_message hs.message (fun _ _ _ hstep hx => hstep.message.id.symm ▸ hx)
    fun x _ _ _ hnumber _ heq => hn (heq ▸ hnumber)
  holder := h.forall_message hs.holder
    (fun _ _ _ hstep hx hholder => (hstep.holders hholder).elim hx hn)
    fun x _ _ hfresh _ _ hholder => by simp [hfresh.holder] at hholder
  send := h.forall_message hs.send (fun _ _ _ hstep hx hsend => hx (hstep.message.send ▸ hsend))
    fun x _ _ _ _ hsends hsend => hn (hsends n hsend)
  optOut := by
    cases h with
    | optOut o hnumber =>
      intro x hx
      rcases KeyedTable.mem_put.mp hx with rfl | ⟨hx, -⟩
      · exact fun heq => hn (heq ▸ hnumber)
      · exact hs.optOut x hx
    | removeOptOut id => exact fun x hx => hs.optOut x (KeyedTable.mem_delete.mp hx).1
    | _ => exact hs.optOut
  campaign := by
    cases h with
    | campaign c hnumber =>
      intro x hx
      rcases KeyedTable.mem_put.mp hx with rfl | ⟨hx, -⟩
      · exact fun heq => hn (heq ▸ hnumber)
      · exact hs.campaign x hx
    | campaignSent id sentCount =>
      intro x hx
      obtain ⟨c, hc, rfl⟩ := mem_sendCampaign.mp hx
      split <;> exact hs.campaign c hc
    | _ => exact hs.campaign
  calls := (h.callsBy hn).trans hs.calls
  counts := (h.countsBy hn).trans hs.counts

theorem stable_unused (hn : L (.number n)) : (changes admitted).Stable L (Unused n) :=
  stable_of_change fun _ _ _ _ _ _ hother hchange hs => hchange.unused (hother _ hn) hs

/-- A number under which nothing has been done. -/
theorem wp_draw_unused {K : MessagingDb → Prop} {f : MessagingDb → MessagingDb}
    {post : (Hold LockKey → Prop) → (MessagingDb → Prop) → (MessagingDb → MessagingDb) → ℕ → Prop}
    (hK : (changes admitted).Stable L K)
    (h : ∀ n, post (add L (.number n)) (fun s => K s ∧ Unused n s) f n) :
    (changes admitted).wp (draw : MessagingTx ℕ) L K f post :=
  wp_draw hK fun _ n hs _ => ⟨Unused n, stable_unused (.inl rfl), Sound.unused hs, h n⟩

/-! ### Messages that are being sent -/

/-- A message comes to be sent only under a number of who takes it over. -/
theorem Change.owes (h : Change L s note s') {m : ℕ} (howes : Owes m s') :
    Owes m s ∨ L (.number m) := by
  obtain ⟨x', hx', hstatus, hholder⟩ := howes
  rcases h.origin hx' with ⟨x, hx, hstep⟩ | ⟨seen, rfl⟩
  · exact (hstep.owed hstatus hholder).imp_left fun hx' => ⟨x, hx, hx'⟩
  · cases h with
    | create _ _ _ _ _ hfresh => exact absurd hstatus hfresh.not_sending

theorem lasting_free : Lasting (changes admitted) Free where
  stable L := by
    rw [← drawn_numbers]
    exact stable_of_change fun _ _ _ _ _ _ hother hchange hfree m hm howes =>
      (hchange.owes howes).elim (hfree m hm) (hother _ hm)
  fresh N s n hs hfree m hm := by
    rcases hm with rfl | hm
    · rintro ⟨x, hx, -, hholder⟩
      exact (Sound.unused hs).holder x hx hholder
    · exact hfree m hm

theorem stable_free : (changes admitted).Stable L (Free (drawn L)) :=
  (lasting_free.stable L).anti fun _ hk => hk.1

/-- The same messages. -/
theorem Free.of_outbox {N : ℕ → Prop} (h : Free N s) (houtbox : s'.outbox = s.outbox) :
    Free N s' := by
  unfold Free Owes
  rwa [houtbox]

theorem Free.put {N : ℕ → Prop} (h : Free N s) {x : MessageOutbox} (hx : x.status ≠ .sending) :
    Free N { s with outbox := s.outbox.put x } := by
  rintro m hm ⟨y, hy, hstatus, hholder⟩
  rcases KeyedTable.mem_put.mp hy with rfl | ⟨hy, -⟩
  · exact hx hstatus
  · exact h m hm ⟨y, hy, hstatus, hholder⟩

theorem Free.updateMessage {N : ℕ → Prop} (h : Free N s) (id : ℕ)
    {f : MessageOutbox → MessageOutbox} (hf : ∀ m, (f m).id = m.id)
    (hstatus : ∀ m, (f m).status ≠ .sending) : Free N (s.updateMessage id f hf) := by
  rintro m hm ⟨y, hy, hy', hholder⟩
  obtain ⟨x, hx, rfl⟩ := (mem_updateMessage hf).mp hy
  by_cases hid : x.id = id
  · rw [if_pos hid] at hy'
    exact hstatus x hy'
  · rw [if_neg hid] at hy' hholder
    exact h m hm ⟨x, hx, hy', hholder⟩

/-! ### Methods that take no message over -/

/-- A method during which nothing comes to be sent. -/
abbrev StaysFree (admitted : Note → (Hold LockKey → Prop) → MessagingDb → Prop) {α : Type}
    (x : MessagingMethod α) : Prop := Leads admitted Free x (fun _ => Free) Free

/-- A commit that is one change and takes no message over. -/
theorem commits_free {K : MessagingDb → Prop} {f : MessagingDb → MessagingDb}
    (h : ∀ s n, Sound s n → K s → Change L s note (f s))
    (hkeep : ∀ s, Free (drawn L) s → Free (drawn L) (f s)) :
    CommitsTo (changes admitted) admitted note L (fun s => K s ∧ Free (drawn L) s) f
      (Free (drawn L)) :=
  commits_change (lasting_free.stable L) (fun s n hs _ hK => h s n hs hK.1)
    fun s _ _ _ hK => hkeep s hK.2

theorem staysFree_atomically {α : Type} {note : α → Note} {t : MessagingTx α}
    (h : ∀ L, Idle L → (changes admitted).wp t L (Free (drawn L)) id fun L K f a =>
      CommitsTo (changes admitted) admitted (note a) L (fun s => K s ∧ Free (drawn L) s) f
        (Free (drawn L))) : StaysFree admitted (atomically note t : MessagingMethod α) :=
  triple_atomically lasting_free h fun _ _ _ _ hfree => hfree

theorem StaysFree.bind {α β : Type} {x : MessagingMethod α} {g : α → MessagingMethod β}
    (h : StaysFree admitted x) (hg : ∀ a, StaysFree admitted (g a)) :
    StaysFree admitted (x >>= g) := Triple.bind h hg

theorem staysFree_pure {α : Type} (a : α) : StaysFree admitted (pure a : MessagingMethod α) :=
  triple_pure a fun _ _ _ _ hfree => hfree

theorem staysFree_look {α : Type} (g : MessagingDb → α) :
    StaysFree admitted (look g : MessagingMethod α) := triple_look_any g

theorem staysFree_guardOr {c : Prop} [Decidable c] {e : ServiceError} {α : Type}
    {g : Unit → MessagingMethod α} (h : c → StaysFree admitted (g ())) :
    StaysFree admitted (guardOr c e >>= g) :=
  triple_guardOr_bind h fun _ _ _ _ _ hfree => hfree

theorem staysFree_getOr {β α : Type} {o : Option β} {e : ServiceError} {g : β → MessagingMethod α}
    (h : ∀ b, o = some b → StaysFree admitted (g b)) :
    StaysFree admitted (getOr o e >>= g) :=
  triple_getOr_bind h fun _ _ _ _ hfree => hfree

theorem tick_free (ms : ℕ) : StaysFree admitted (atomically (fun _ => Note.plain)
    (update fun db => { db with now := db.now + ms }) : MessagingMethod Unit) :=
  staysFree_atomically fun _ _ => commits_free (fun _ _ _ _ => .tick ms) fun _ h => h.of_outbox rfl

theorem optOut_free (tenantId : String) (input : OptOutInput) (source : String) :
    StaysFree admitted (optOut tenantId input source) := by
  refine StaysFree.bind (staysFree_atomically fun L _ => ?_) fun _ => staysFree_pure ()
  simp only [optOutTx, Discipline.wp_bind, Discipline.wp_acquire]
  refine wp_query_any (stable_free.add _) fun existing => ?_
  cases existing with
  | true => exact commits_nothing (lasting_free.stable _) fun s hs => hs.2
  | false =>
    simp only [Bool.false_eq_true, if_false, Discipline.wp_bind]
    refine wp_draw_unused (stable_free.add _) fun n => ?_
    exact commits_free (fun s _ _ hK => .optOut _ (.inr (.inl rfl)) hK.2.optOut rfl)
      fun _ h => h.of_outbox rfl

theorem removeOptOut_free (user : AuthUser) (id : ℕ) :
    StaysFree admitted (removeOptOut user id) := by
  refine (staysFree_look _).bind fun row => staysFree_getOr fun o _ => ?_
  refine (staysFree_atomically fun L _ => ?_).bind fun deleted =>
    triple_guardOr (fun _ _ _ _ _ hfree => hfree) fun _ _ _ _ _ hfree => hfree
  refine wp_updateWhere stable_free (fun L' _ => ?_) fun s n _ _ _ =>
    ⟨fun _ => True, stable_true, trivial, ?_⟩
  · exact commits_nothing (lasting_free.stable _) fun s hs => hs.2
  · exact commits_free (fun _ _ _ _ => .removeOptOut id) fun _ h => h.of_outbox rfl

theorem createCampaign_free (user : AuthUser) (outletId : String) (input : CampaignInput) :
    StaysFree admitted (createCampaign user outletId input) := by
  refine staysFree_guardOr fun _ => staysFree_atomically fun L _ => ?_
  simp only [createCampaignTx, Discipline.wp_bind]
  refine wp_draw_unused stable_free fun n => ?_
  exact commits_free (fun s _ _ hK => .campaign _ (.inr (.inl rfl)) rfl hK.2.campaign)
    fun _ h => h.of_outbox rfl

/-! ### Queueing -/

theorem SendRequest.row_fresh (req : SendRequest) (skip : Option String) (id : ℕ)
    (nextAttemptAt createdAt : Time) : (req.row skip id nextAttemptAt createdAt).Fresh where
  status := by
    cases skip with
    | none => exact .inl rfl
    | some reason => exact .inr rfl
  holder := rfl
  raced := rfl
  providerMessageId := rfl
  sentAt := rfl

theorem SendRequest.row_queued {req : SendRequest} {skip : Option String} {id : ℕ}
    {nextAttemptAt createdAt : Time}
    (h : (req.row skip id nextAttemptAt createdAt).status = .queued) : skip = none := by
  cases skip with
  | none => rfl
  | some reason => cases h

/-- A message of a campaign is queued if no opt-out was found. -/
def NoneFound (req : SendRequest) (found : Option String × List OptOut) : Prop :=
  found.1 = none → req.purpose = .campaign →
    ∀ o ∈ found.2, o.hits req.tenantId req.channel req.recipient = false

variable {I E : Assertion MessagingDb} {req : SendRequest}

theorem skipReason_leads : Leads admitted I (skipReason req)
    (fun found N s => NoneFound req found ∧ I N s) E := by
  refine (triple_look_any _).bind fun cfg => ?_
  split
  · exact triple_pure _ fun _ _ _ _ h => ⟨fun hnone => (by cases hnone), h⟩
  · split
    · refine (triple_look_any _).bind fun seen => ?_
      split
      · exact triple_pure _ fun _ _ _ _ h => ⟨fun hnone => (by cases hnone), h⟩
      · rename_i hnone
        refine triple_pure _ fun _ _ _ _ h => ⟨fun _ _ o ho => ?_, h⟩
        exact Bool.eq_false_iff.mpr fun hhits => hnone (List.any_eq_true.mpr ⟨o, ho, hhits⟩)
    · rename_i hpurpose
      exact triple_pure _ fun _ _ _ _ h => ⟨fun _ hcampaign => absurd hcampaign hpurpose, h⟩

/-- A message is queued, or noted as skipped; a campaign has queued none for the customer. -/
theorem enqueue_leads {Q : MessageOutbox → Assertion MessagingDb}
    (hI : Lasting (changes admitted) I) (hreq : req.campaignId ≠ none → req.send ≠ none)
    (hQ : ∀ m L, (changes admitted).Stable (numbers L) (Q m (drawn L)))
    (hsend : ∀ N s, I N s → ∀ k, req.send = some k → N k ∧
      ∀ x ∈ s.outbox, x.send = some k → x.customer ≠ req.customer)
    (hkeep : ∀ N s skip id nextAttemptAt createdAt, I N s → N id → (∀ x ∈ s.outbox, x.id ≠ id) →
      Q (req.row skip id nextAttemptAt createdAt) N
        { s with outbox := s.outbox.put (req.row skip id nextAttemptAt createdAt) })
    (hE : ∀ N s n, Sound s n → I N s → E N s) : Leads admitted I (enqueue req) Q E := by
  refine skipReason_leads.bind fun found => (triple_look_any _).bind fun now => ?_
  refine triple_atomically (lasting_and_const hI _) (fun L _ => ?_)
    fun N s n hs h => hE N s n hs h.2
  have hstable : ∀ L, (changes admitted).Stable L fun s => NoneFound req found ∧ I (drawn L) s :=
    fun L => ((lasting_and_const hI _).stable L).anti fun _ hk => hk.1
  simp only [createTx, Discipline.wp_bind]
  refine wp_draw_unused (hstable L) fun id => ?_
  have hK := ((hstable L).add (.number id)).and (stable_unused (n := id) (.inl rfl))
  refine wp_query_any (hK.add _) fun createdAt => ?_
  refine commits_change (hQ _ _) (fun s n _ _ hs => ?_) fun s n _ _ hs => ?_
  · obtain ⟨⟨-, hunused⟩, hnone, hIs⟩ := hs
    exact .create _ _ (.inr (.inl rfl)) (.inl rfl) hunused.message (req.row_fresh ..)
      hreq (fun hqueued => hnone (SendRequest.row_queued hqueued)) (hsend _ s hIs)
  · obtain ⟨⟨-, hunused⟩, -, hIs⟩ := hs
    exact hkeep _ s _ id _ _ hIs (.inr (.inl rfl)) hunused.message

theorem enqueue_free (hcampaign : req.campaignId = none) (hreq : req.send = none) :
    StaysFree admitted (enqueue req) := by
  refine enqueue_leads lasting_free (fun hne => absurd hcampaign hne) (fun _ L => lasting_free.stable L) (fun _ _ _ k hk => ?_)
    (fun N s skip id _ _ hfree _ _ => hfree.put (req.row_fresh ..).not_sending)
    fun _ _ _ _ hfree => hfree
  rw [hreq] at hk
  cases hk

/-! ### Receipts -/

/-- The provider knows these messages. -/
def Known (ids : List ℕ) (s : MessagingDb) : Prop :=
  ∀ id ∈ ids, ∃ x ∈ s.outbox, x.id = id ∧ x.providerMessageId ≠ none

theorem Change.known (h : Change L s note s') {ids : List ℕ} (hs : Known ids s) : Known ids s' := by
  intro id hid
  obtain ⟨x, hx, hxid, hknown⟩ := hs id hid
  obtain ⟨x', hx', hstep⟩ := h.message hx
  exact ⟨x', hx', hstep.message.id.trans hxid, hstep.known hknown⟩

theorem stable_known (ids : List ℕ) : (changes admitted).Stable L (Known ids) :=
  stable_of_change fun _ _ _ _ _ _ _ hchange hs => hchange.known hs

/-- What lasts, and what all changes keep. -/
theorem lasting_and_stable {I : Assertion MessagingDb} (hI : Lasting (changes admitted) I)
    {P : MessagingDb → Prop} (hP : ∀ L, (changes admitted).Stable L P) :
    Lasting (changes admitted) fun N s => P s ∧ I N s where
  stable L := (hP _).and (hI.stable L)
  fresh N s n hs h := ⟨h.1, hI.fresh N s n hs h.2⟩

theorem applyDelivery_free (providerMessageId : String) {status : OutboxStatus}
    (hstatus : status ∈ [OutboxStatus.sent, .delivered, .read, .failed]) (error : Option String) :
    StaysFree admitted (applyDelivery providerMessageId status error) := by
  have hreceived : status ≠ .sending := by
    rintro rfl
    simp at hstatus
  refine (triple_look (Q := fun rows N s => Known (rows.map (·.id)) s ∧ Free N s)
    (fun rows L => (stable_known _).and stable_free) fun N s n hs hfree => ⟨?_, hfree⟩).bind
    fun rows => ?_
  · intro id hid
    obtain ⟨x, hx, rfl⟩ := List.mem_map.mp hid
    obtain ⟨hx, hknown⟩ := List.mem_filter.mp hx
    refine ⟨x, hx, rfl, ?_⟩
    rw [of_decide_eq_true hknown]
    exact Option.some_ne_none _
  have hlasting : Lasting (changes admitted) fun N s => Known (rows.map (·.id)) s ∧ Free N s :=
    lasting_and_stable lasting_free fun L => stable_known _
  refine (triple_mapM_keep (E := Free) fun r hr => ?_).bind fun changed =>
    triple_pure _ fun _ _ _ _ h => h.2
  split
  · exact triple_pure _ fun _ _ _ _ h => h
  refine (triple_look_any _).bind fun now => ?_
  refine Triple.bind (Q := fun _ N s => Known (rows.map (·.id)) s ∧ Free N s) ?_ fun _ =>
    triple_pure _ fun _ _ _ _ h => h
  refine Triple.bind (Q := fun _ N s => Known (rows.map (·.id)) s ∧ Free N s)
    (triple_atomically hlasting (fun L _ => ?_) fun _ _ _ _ h => h.2) fun updated =>
    triple_guardOr (fun _ _ _ _ _ h => h) fun _ _ _ _ _ h => h.2
  have hchange : ∀ L s, L (.lock (.message r.id)) → Known (rows.map (·.id)) s →
      Change L s .plain (s.updateMessage r.id (·.receive status error r.deliveredAt now)
        fun _ => rfl) := fun L s hlock hknown =>
    .receive r.id status error _ now hlock hstatus (hknown r.id (List.mem_map.mpr ⟨r, hr, rfl⟩))
  refine wp_updateWhere ((stable_known _).and stable_free) (fun L' _ => ?_) fun s n _ _ _ =>
    ⟨fun _ => True, stable_true, trivial, ?_⟩
  · exact commits_nothing (hlasting.stable _) fun s hs => hs.2
  · refine commits_change (hlasting.stable _) (fun s n _ _ hs => hchange _ s (.inl rfl) hs.2.1)
      fun s n _ _ hs => ⟨?_, ?_⟩
    · exact (hchange (add L (.lock (.message r.id))) s (.inl rfl) hs.2.1).known hs.2.1
    · exact hs.2.2.updateMessage r.id _ fun _ => hreceived

theorem whatsAppStatus_mem {status : String} {st : OutboxStatus}
    (h : whatsAppStatus status = some st) :
    st ∈ [OutboxStatus.sent, .delivered, .read, .failed] := by
  unfold whatsAppStatus at h
  split at h <;> cases h <;> simp

theorem msg91Status_mem {r : Msg91Report} {st : OutboxStatus} (h : msg91Status r = some st) :
    st ∈ [OutboxStatus.sent, .delivered, .read, .failed] := by
  unfold msg91Status at h
  dsimp only at h
  split at h
  · cases h
    simp
  · split at h <;> cases h
    simp

theorem optOutEverywhere_free (sender : String) (channel : MessagingChannel) (source : String)
    (phoneNumberId : Option String) :
    StaysFree admitted (optOutEverywhere sender channel source phoneNumberId) := by
  refine (staysFree_look _).bind fun owner => (staysFree_look _).bind fun known => ?_
  exact StaysFree.bind (triple_mapM_keep fun tenantId _ => optOut_free tenantId _ source) fun _ =>
    staysFree_pure _

theorem handleWhatsAppWebhook_free (signatureOk : Bool) (webhook : List WhatsAppChange) :
    StaysFree admitted (handleWhatsAppWebhook signatureOk webhook) := by
  refine staysFree_guardOr fun _ => StaysFree.bind (triple_mapM_keep fun v _ => ?_) fun _ =>
    staysFree_pure _
  refine StaysFree.bind (triple_mapM_keep fun st _ => ?_) fun _ =>
    StaysFree.bind (triple_mapM_keep fun m _ => ?_) fun _ => staysFree_pure _
  · split
    · exact applyDelivery_free _ (whatsAppStatus_mem ‹_›) _
    · exact staysFree_pure _
  · split
    · exact optOutEverywhere_free _ _ _ _
    · exact staysFree_pure _

theorem handleMsg91Report_free (items : List (String × List Msg91Report)) :
    StaysFree admitted (handleMsg91Report items) := by
  refine StaysFree.bind (triple_mapM_keep fun item _ => triple_mapM_keep fun rep _ => ?_) fun _ =>
    staysFree_pure _
  split
  · split
    · exact applyDelivery_free _ (msg91Status_mem ‹_›) _
    · exact staysFree_pure _
  · exact staysFree_pure _

/-! ### Campaigns -/

/-- The campaign is there, for the customers that it was for. -/
def MessagingDb.Found (s : MessagingDb) (c : Campaign) : Prop :=
  ∃ c' ∈ s.campaigns, c'.id = c.id ∧ c'.tenantId = c.tenantId ∧ c'.outletId = c.outletId ∧
    c'.segment = c.segment

theorem Change.found (h : Change L s note s') {c : Campaign} (hc : s.Found c) : s'.Found c := by
  obtain ⟨c', hc', hsame⟩ := hc
  cases h with
  | campaign d _ _ hnew => exact ⟨c', KeyedTable.mem_put.mpr (.inr ⟨hc', hnew c' hc'⟩), hsame⟩
  | campaignSent id sentCount =>
    refine ⟨_, mem_sendCampaign.mpr ⟨c', hc', rfl⟩, ?_⟩
    split <;> exact hsame
  | _ => exact ⟨c', hc', hsame⟩

theorem stable_found (c : Campaign) : (changes admitted).Stable L fun s => s.Found c :=
  stable_of_change fun _ _ _ _ _ _ _ hchange hc => hchange.found hc

/-- These are the customers of the campaign's outlet, and the time has come. -/
def Customers (campaign : Campaign) (customers : List Customer) (now : Time) (s : MessagingDb) :
    Prop :=
  now ≤ s.now ∧ customers = s.customersAt campaign.tenantId campaign.outletId

theorem stable_customers {campaign : Campaign} {customers : List Customer} {now : Time} :
    (changes admitted).Stable L (Customers campaign customers now) :=
  stable_of_change fun _ _ _ _ _ _ _ hchange h =>
    ⟨h.1.trans hchange.now_le, h.2.trans (hchange.customersAt ..).symm⟩

/-- A send of a campaign has queued messages for these customers, and for no others. -/
structure Campaigning (send : ℕ) (campaign : Campaign) (done : List Customer) (N : ℕ → Prop)
    (s : MessagingDb) : Prop where
  number : N send
  free : Free N s
  found : s.Found campaign
  only : ∀ x ∈ s.outbox, x.send = some send → ∃ c ∈ done, x.customer = some c.id
  all : ∀ c ∈ done, ∃ x ∈ s.outbox, x.campaignId = some campaign.id ∧ x.customer = some c.id

theorem lasting_campaigning (send : ℕ) (campaign : Campaign) (done : List Customer) :
    Lasting (changes admitted) (Campaigning send campaign done) where
  stable L := by
    rw [← drawn_numbers]
    intro L' s n s' n' hs hs' hother hstep h
    have hfree := stable_free L' s n s' n' hs hs' hother hstep h.free
    rcases hstep with rfl | ⟨note, -, hchange⟩
    · exact ⟨h.number, hfree, h.found, h.only, h.all⟩
    refine ⟨h.number, hfree, hchange.found h.found, ?_, fun c hc => ?_⟩
    · refine hchange.forall_message h.only (fun x _ x' hstep hx hsend => ?_)
        fun x _ _ _ _ hsends hsend => absurd (hsends send hsend) (hother _ h.number)
      rw [hstep.message.customer]
      exact hx (hstep.message.send ▸ hsend)
    · obtain ⟨x, hx, hcampaign, hcustomer⟩ := h.all c hc
      obtain ⟨x', hx', hsame⟩ := hchange.same hx
      exact ⟨x', hx', hsame.campaignId.trans hcampaign, hsame.customer.trans hcustomer⟩
  fresh N s n hs h :=
    ⟨.inr h.number, lasting_free.fresh N s n hs h.free, h.found, h.only, h.all⟩

/-- A message is queued for a customer who has none of this send. -/
theorem Campaigning.put {send : ℕ} {campaign : Campaign} {done : List Customer} {N : ℕ → Prop}
    (h : Campaigning send campaign done N s) {x : MessageOutbox}
    (hnew : ∀ y ∈ s.outbox, y.id ≠ x.id) (hstatus : x.status ≠ .sending) {c : Customer}
    (hcampaign : x.campaignId = some campaign.id) (hcustomer : x.customer = some c.id) :
    Campaigning send campaign (done ++ [c]) N { s with outbox := s.outbox.put x } where
  number := h.number
  free := h.free.put hstatus
  found := h.found
  only y hy hsend := by
    rcases KeyedTable.mem_put.mp hy with rfl | ⟨hy, -⟩
    · exact ⟨c, by simp, hcustomer⟩
    · obtain ⟨d, hd, hd'⟩ := h.only y hy hsend
      exact ⟨d, List.mem_append_left _ hd, hd'⟩
  all d hd := by
    rcases List.mem_append.mp hd with hd | hd
    · obtain ⟨y, hy, hy'⟩ := h.all d hd
      exact ⟨y, KeyedTable.mem_put.mpr (.inr ⟨hy, hnew y hy⟩), hy'⟩
    · rw [List.mem_singleton.mp hd]
      exact ⟨x, KeyedTable.mem_put.mpr (.inl rfl), hcampaign, hcustomer⟩

theorem recipients_nodup (campaign : Campaign) {customers : List Customer} (now : Time)
    (h : (customers.map (·.id)).Nodup) : ((recipients campaign customers now).map (·.id)).Nodup :=
  h.sublist (List.filter_sublist.map _)

/-- When all customers of the segment have a message, the campaign has reached them. -/
theorem Campaigning.reached {send : ℕ} {campaign : Campaign} {customers : List Customer}
    {now : Time} {N : ℕ → Prop}
    (h : Campaigning send campaign (recipients campaign customers now) N s)
    (hcustomers : customers = s.customersAt campaign.tenantId campaign.outletId) {c : Campaign}
    (hc : c ∈ s.campaigns) (hid : c.id = campaign.id) : s.Reached c now := by
  obtain ⟨c', hc', hcid, htenant, houtlet, hsegment⟩ := h.found
  obtain rfl := KeyedTable.eq_of_mem hc hc' (hid.trans hcid.symm)
  intro k hk
  rw [hid]
  refine h.all k ?_
  rw [hcustomers]
  rwa [recipients, htenant, houtlet, hsegment] at hk

/-- Sending a campaign keeps the terms. -/
theorem sendCampaign_free (user : AuthUser) (outletId : String) (id : ℕ) :
    StaysFree admitted (sendCampaign user outletId id) := by
  refine staysFree_guardOr fun _ => triple_look_bind (P := fun row => ∀ c, row = some c →
      c.id = id ∧ c.outletId = outletId ∧ c.tenantId = user.tenantId)
    (R := fun row N s => (∀ c, row = some c → s.Found c) ∧ Free N s)
    (fun row L => (stable_of_change fun _ _ _ _ _ _ _ hchange h c hc => hchange.found (h c hc)).and
      stable_free) (fun N s n _ hfree => ?_) fun row hrow => ?_
  · have hfound : ∀ c, ((s.campaigns.find? id).filter fun c =>
        c.outletId = outletId ∧ c.tenantId = user.tenantId) = some c →
        (c ∈ s.campaigns ∧ c.id = id) ∧ c.outletId = outletId ∧ c.tenantId = user.tenantId := by
      intro c hc
      obtain ⟨hc, hat⟩ := Option.filter_eq_some_iff.mp hc
      exact ⟨KeyedTable.find?_eq_some.mp hc, of_decide_eq_true hat⟩
    exact ⟨fun c hc => ⟨(hfound c hc).1.2, (hfound c hc).2⟩,
      fun c hc => ⟨c, (hfound c hc).1.1, rfl, rfl, rfl, rfl⟩, hfree⟩
  refine triple_getOr_bind (fun campaign hcampaign => triple_guardOr_bind (fun _ => ?_)
    fun _ _ _ _ _ h => h.2) fun _ _ _ _ h => h.2
  obtain ⟨rfl, rfl, htenant⟩ := hrow campaign hcampaign
  have hlasting : Lasting (changes admitted) fun N s => s.Found campaign ∧ Free N s :=
    lasting_and_stable lasting_free fun L => stable_found campaign
  refine Triple.pre (J := fun N s => s.Found campaign ∧ Free N s) ?_
    fun N s n _ h => ⟨h.1 campaign hcampaign, h.2⟩
  refine Triple.bind (Q := fun number => Campaigning number campaign []) (triple_atomically hlasting
    (fun L _ => ?_) fun _ _ _ _ h => h.2) fun number => ?_
  · refine wp_draw_unused ((stable_found campaign).and stable_free) fun n =>
      commits_nothing ((lasting_campaigning n campaign []).stable _) fun s hs => ?_
    exact ⟨.inl rfl, hs.2.2, hs.2.1, fun x hx hsend => absurd hsend (hs.1.2.send x hx),
      fun c hc => absurd hc List.not_mem_nil⟩
  refine triple_look_bind (P := fun customers => (customers.map (·.id)).Nodup)
    (R := fun customers N s => customers = s.customersAt campaign.tenantId campaign.outletId ∧
      Campaigning number campaign [] N s) (fun customers L => ?_) (fun N s n _ h => ?_)
    fun customers hnodup => ?_
  · refine Stable.and (stable_of_change fun _ _ _ _ _ _ _ hchange h => ?_)
      (((lasting_campaigning _ _ _).stable L).anti fun _ hk => hk.1)
    exact h.trans (hchange.customersAt ..).symm
  · rw [htenant]
    exact ⟨s.customers.nodup_keys.sublist (List.filter_sublist.map _), rfl, h⟩
  refine Triple.bind (Q := fun now N s => Customers campaign customers now s ∧
    Campaigning number campaign [] N s) (triple_look (fun now L => stable_customers.and
      (((lasting_campaigning _ _ _).stable L).anti fun _ hk => hk.1))
    fun N s n _ h => ⟨⟨le_refl _, h.1⟩, h.2⟩) fun now => ?_
  dsimp only
  have hlasting : ∀ done, Lasting (changes admitted) fun N s =>
      Customers campaign customers now s ∧ Campaigning number campaign done N s := fun done =>
    lasting_and_stable (lasting_campaigning number campaign done) fun L => stable_customers
  have hnodup := recipients_nodup campaign now hnodup
  refine Triple.bind (Q := fun _ N s => Customers campaign customers now s ∧
    Campaigning number campaign (recipients campaign customers now) N s) (triple_mapM (E := Free)
      (fun done N s => Customers campaign customers now s ∧ Campaigning number campaign done N s)
      fun done c rest hrecipients => ?_) fun _ => ?_
  · -- the customers before have other ids
    have hc : ∀ d ∈ done, d.id ≠ c.id := by
      intro d hd heq
      rw [hrecipients, List.map_append, List.nodup_append] at hnodup
      exact hnodup.2.2 _ (List.mem_map.mpr ⟨d, hd, rfl⟩) _ List.mem_cons_self heq
    refine Triple.bind (enqueue_leads (Q := fun _ N s => Customers campaign customers now s ∧
      Campaigning number campaign (done ++ [c]) N s) (hlasting done)
      (fun _ => Option.some_ne_none number) (fun _ L => (hlasting _).stable L) (fun N s hI k hk => ?_)
      (fun N s skip mid _ _ hI hmid hnew => ⟨hI.1, ?_⟩) fun _ _ _ _ hI => hI.2.free)
      fun _ => triple_pure _ fun _ _ _ _ h => h
    · obtain rfl := Option.some.inj hk
      refine ⟨hI.2.number, fun x hx hsend heq => ?_⟩
      obtain ⟨d, hd, hcustomer⟩ := hI.2.only x hx hsend
      exact hc d hd (Option.some.inj (hcustomer.symm.trans heq))
    · exact hI.2.put hnew (SendRequest.row_fresh ..).not_sending rfl rfl
  refine Triple.bind (Q := fun _ => Free) (triple_atomically (hlasting _) (fun L _ => ?_)
    fun _ _ _ _ h => h.2.free) fun updated => staysFree_guardOr fun _ => staysFree_pure _
  refine wp_updateWhere (((hlasting _).stable L).anti fun _ hk => hk.1) (fun L' _ => ?_)
    fun s n _ _ _ => ⟨fun _ => True, stable_true, trivial, ?_⟩
  · exact commits_nothing (lasting_free.stable _) fun s hs => hs.2.2.free
  · refine commits_change (lasting_free.stable _) (fun s n _ _ hs => .campaignSent _ _ ?_)
      fun s n _ _ hs => hs.2.2.free.of_outbox rfl
    exact fun c hc hid => ⟨now, hs.2.1.1, hs.2.2.reached hs.2.1.2 hc hid⟩

end StelloKitchens.Messaging
