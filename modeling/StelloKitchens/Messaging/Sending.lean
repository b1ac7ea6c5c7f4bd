import StelloKitchens.Messaging.Senders

/-!
# What senders know

A sender knows the messages that it has taken over and not finished, and which calls and counts it
has made itself, as no one else makes any in its name. So it finishes each of its messages once, a
pass calls the provider within what it has counted, and when a sender ends it holds no message any
more.

## Main definitions

* `Sending` — what a sender knows between two messages.
* `Waiting`, `Within` — what a pass knows of the tenants to come, and of its budget.

## Main results

* `deliver_finishes`, `sendRows_finishes` — what becomes of the messages that a sender holds.
* `messaging_discharged` — every method keeps the terms, and holds no message when it ends.
* `messaging_invariant` — what changes keep holds over all interleavings.
-/

namespace StelloKitchens.Messaging

open Tx Process Method Discipline Service

variable {admitted : Note → (Hold LockKey → Prop) → MessagingDb → Prop}
  {L : Hold LockKey → Prop} {s s' : MessagingDb} {note : Note} {n : ℕ}
  {I E : Assertion MessagingDb} {req : SendRequest}

/-! ### Messages that a sender holds -/

/-- The messages that a sender has called the provider for, and their tenants. -/
def MessagingDb.calledBy (s : MessagingDb) (sender : ℕ) : List (ℕ × String) :=
  (s.callsBy sender).map fun d => (d.message, d.tenantId)

theorem callsOf_eq (s : MessagingDb) (sender : ℕ) (tenantId : String) :
    s.callsOf sender tenantId = (s.calledBy sender).countP fun c => c.2 = tenantId := by
  rw [MessagingDb.calledBy, List.countP_map]
  rfl

/-- A sender holds these messages and no others, and this is so of its calls and counts. -/
structure Sending (sender : ℕ) (P : MessageOutbox → Prop)
    (R : List (ℕ × String) → List Count → Prop) (N : ℕ → Prop) (s : MessagingDb) : Prop where
  number : N sender
  held : ∀ m, P m → s.Held m sender
  others : ∀ x ∈ s.outbox, x.status = .sending → ∀ k, x.holder = some k → N k →
    ∃ m, P m ∧ m.id = x.id
  record : R (s.calledBy sender) (s.countsBy sender)

theorem MessageOutbox.Same.trans {m m' m'' : MessageOutbox} (h : m.Same m') (h' : m'.Same m'') :
    m.Same m'' :=
  ⟨h'.id.trans h.id, h'.tenantId.trans h.tenantId, h'.campaignId.trans h.campaignId,
    h'.purpose.trans h.purpose, h'.channel.trans h.channel, h'.recipient.trans h.recipient,
    h'.customer.trans h.customer, h'.send.trans h.send⟩

/-- A sender holds its messages whatever the others do. -/
theorem Change.held (h : Change L s note s') (hs : Sound s n) {m : MessageOutbox} {sender : ℕ}
    (hheld : s.Held m sender) (hsender : ¬L (.number sender)) : s'.Held m sender := by
  obtain ⟨x, hx, hsame, hxm⟩ := hheld.found
  obtain ⟨x', hx', hstep⟩ := h.message hx
  refine ⟨hheld.status, hheld.holder, x', hx', hsame.trans hstep.message, fun hraced => ?_⟩
  obtain rfl := hxm (hstep.unraced hraced)
  exact hstep.held hheld.status hheld.holder hsender (hs.closed x hx) hraced

variable {sender : ℕ} {P : MessageOutbox → Prop} {R S : List (ℕ × String) → List Count → Prop}
  {m : MessageOutbox}

theorem lasting_sending : Lasting (changes admitted) (Sending sender P R) where
  stable L := by
    rw [← drawn_numbers]
    refine stable_of_change fun L' s n note s' hs hother hchange h => ?_
    have hsender := hother _ h.number
    refine ⟨h.number, fun m hm => hchange.held hs (h.held m hm) hsender, ?_, ?_⟩
    · intro x' hx' hstatus k hholder hk
      rcases hchange.origin hx' with ⟨x, hx, hstep⟩ | ⟨seen, rfl⟩
      · rcases hstep.owed hstatus hholder with ⟨hxstatus, hxholder⟩ | hnumber
        · rw [hstep.message.id]
          exact h.others x hx hxstatus k hxholder hk
        · exact absurd hnumber (hother _ hk)
      · cases hchange with
        | create _ _ _ _ _ hfresh => exact absurd hstatus hfresh.not_sending
    · rw [MessagingDb.calledBy, hchange.callsBy hsender, hchange.countsBy hsender]
      exact h.record
  fresh N s n hs h := by
    refine ⟨.inr h.number, h.held, fun x hx hstatus k hholder hk => ?_, h.record⟩
    rcases hk with rfl | hk
    · exact absurd hholder ((Sound.unused hs).holder x hx)
    · exact h.others x hx hstatus k hholder hk

theorem stable_sending : (changes admitted).Stable L (Sending sender P R (drawn L)) :=
  (lasting_sending.stable L).anti fun _ hk => hk.1

/-- A sender that holds no message. -/
theorem Sending.free {N : ℕ → Prop} (h : Sending sender P R N s) (hP : ∀ m, ¬P m) : Free N s := by
  rintro k hk ⟨x, hx, hstatus, hholder⟩
  obtain ⟨m, hm, -⟩ := h.others x hx hstatus k hholder hk
  exact hP m hm

theorem Sending.mono {N : ℕ → Prop} (h : Sending sender P R N s) {P' : MessageOutbox → Prop}
    (hP : ∀ m, P' m ↔ P m) (hR : ∀ calls counts, R calls counts → S calls counts) :
    Sending sender P' S N s where
  number := h.number
  held m hm := h.held m ((hP m).mp hm)
  others x hx hstatus k hholder hk := by
    obtain ⟨m, hm, hid⟩ := h.others x hx hstatus k hholder hk
    exact ⟨m, (hP m).mpr hm, hid⟩
  record := hR _ _ h.record

/-- One of the messages is finished. -/
theorem Sending.finish {N : ℕ → Prop} (h : Sending sender P R N s) {f : MessageOutbox → MessageOutbox}
    {hf : ∀ m, (f m).id = m.id} (hstatus : ∀ m, (f m).status ≠ .sending)
    (houtbox : s'.outbox = (s.updateMessage m.id f hf).outbox)
    (hcalls : s'.calledBy sender = s.calledBy sender)
    (hcounts : s'.countsBy sender = s.countsBy sender) :
    Sending sender (fun x => P x ∧ x.id ≠ m.id) R N s' where
  number := h.number
  held x hx := by
    obtain ⟨hx, hid⟩ := hx
    obtain ⟨hsending, hholder, y, hy, hsame, hraced⟩ := h.held x hx
    refine ⟨hsending, hholder, y, ?_, hsame, hraced⟩
    rw [houtbox]
    exact (mem_updateMessage hf).mpr ⟨y, hy, (if_neg fun heq => hid (hsame.id.symm.trans heq)).symm⟩
  others x' hx' hsending k hholder hk := by
    rw [houtbox] at hx'
    obtain ⟨x, hx, rfl⟩ := (mem_updateMessage hf).mp hx'
    by_cases hid : x.id = m.id
    · rw [if_pos hid] at hsending
      exact absurd hsending (hstatus x)
    · rw [if_neg hid] at hsending hholder ⊢
      obtain ⟨y, hy, hyid⟩ := h.others x hx hsending k hholder hk
      exact ⟨y, ⟨hy, fun heq => hid (hyid.symm.trans heq)⟩, hyid⟩
  record := by
    rw [hcalls, hcounts]
    exact h.record

/-- A sender writes to a message that it holds, and finishes it. -/
theorem finish_leads {I : Assertion MessagingDb} (hI : ∀ L, (changes admitted).Stable L (I (drawn L)))
    (hsending : ∀ N s, I N s → Sending sender P R N s) (hm : P m) {f : MessageOutbox → MessageOutbox}
    (hf : ∀ m, (f m).id = m.id) (hstatus : ∀ m, (f m).status ≠ .sending)
    {w : MessagingDb → MessagingDb} (houtbox : ∀ s, (w s).outbox = (s.updateMessage m.id f hf).outbox)
    (hcalls : ∀ s, (w s).calledBy sender = s.calledBy sender)
    (hcounts : ∀ s, (w s).countsBy sender = s.countsBy sender)
    (hchange : ∀ L s, L (.number sender) → L (.lock (.message m.id)) → s.Held m sender →
      I (drawn L) s → Change L s .plain (w s)) :
    Leads admitted I (updateMessage m.id w) (fun _ => Sending sender (fun x => P x ∧ x.id ≠ m.id) R)
      E := by
  refine Triple.bind (Q := fun updated N s => updated = true ∧
    Sending sender (fun x => P x ∧ x.id ≠ m.id) R N s)
    (triple_atomically_sure (sure_updateWhere _ _ _) fun L _ => ?_) fun updated =>
    triple_guardOr (fun _ _ _ _ _ h => h.2) fun hnot _ _ _ _ h => absurd h.1 hnot
  refine Discipline.wp_updateWhere_sure (hI L) (fun s n _ hs => ?_) ?_
  · obtain ⟨x, hx, hsame, -⟩ := ((hsending _ s hs).held m hm).found
    rw [id, ← hsame.id, MessagingDb.findMessage, KeyedTable.find?_of_mem hx]
    rfl
  · have hdrawn : drawn (add L (.lock (.message m.id))) = drawn L := drawn_add_lock ..
    refine commits_change ((lasting_and_const lasting_sending _).stable _) (fun s n _ _ hs => ?_)
      fun s n _ _ hs => ⟨rfl, ?_⟩
    · have hheld := (hsending _ s hs).held m hm
      exact hchange _ s (.inr (hsending _ s hs).number) (.inl rfl) hheld (hdrawn ▸ hs)
    · rw [hdrawn]
      exact (hsending _ s hs).finish hstatus (houtbox s) (hcalls s) (hcounts s)

theorem calledBy_recordSent (s : MessagingDb) (id k : ℕ) (provider messageId : String)
    (sentAt : Time) : (s.recordSent id k provider messageId sentAt).calledBy sender =
      s.calledBy sender := by
  rw [MessagingDb.calledBy, callsBy_recordSent, List.map_map]
  refine List.map_congr_left fun d _ => ?_
  rw [Function.comp_apply, Dispatch.recordSent_message, Dispatch.recordSent_tenantId]

theorem MessagingDb.Held.of_outbox (h : s.Held m sender) (houtbox : s'.outbox = s.outbox) :
    s'.Held m sender := by
  refine ⟨h.status, h.holder, ?_⟩
  rw [houtbox]
  exact h.found

/-- The provider is called for a message that is held. -/
theorem Sending.dispatch {N : ℕ → Prop} (h : Sending sender P R N s) {byPass : Bool}
    (hR : ∀ calls counts, R calls counts → S (calls ++ [(m.id, m.tenantId)]) counts) :
    Sending sender P S N (s.dispatch m sender byPass) where
  number := h.number
  held x hx := (h.held x hx).of_outbox rfl
  others := h.others
  record := by
    have hcalls : (s.dispatch m sender byPass).calledBy sender =
        s.calledBy sender ++ [(m.id, m.tenantId)] := by
      simp [MessagingDb.calledBy, MessagingDb.callsBy, MessagingDb.dispatch]
    rw [hcalls]
    exact hR _ _ h.record

/-- A failed call is recorded. -/
theorem recordFailure_finishes (hm : P m) (reply : DispatchReply) :
    Leads admitted (Sending sender P R) (recordFailure m reply)
      (fun _ => Sending sender (fun x => P x ∧ x.id ≠ m.id) R) E := by
  refine (triple_look_any _).bind fun now => ?_
  split
  · rename_i hretry
    refine (finish_leads (fun L => stable_sending) (fun _ _ h => h) hm _ (fun _ => by simp
      [MessageOutbox.requeue]) (fun _ => rfl) (fun _ => rfl) (fun _ => rfl)
      fun L s hnumber hlock hheld _ => .requeue m sender _ _ hnumber hlock hheld hretry.2.2).bind
      fun _ => triple_pure _ fun _ _ _ _ h => h
  · refine (finish_leads (fun L => stable_sending) (fun _ _ h => h) hm _ (fun _ => by simp
      [MessageOutbox.fail]) (fun _ => rfl) (fun _ => rfl) (fun _ => rfl)
      fun L s hnumber hlock hheld _ => .fail m sender _ hnumber hlock hheld).bind
      fun _ => triple_pure _ fun _ _ _ _ h => h

/-- A message that is held and that the provider has not been called for is delivered or put back,
and is not held any more. -/
theorem deliver_finishes {byPass : Bool} (hm : P m)
    (hcalls : ∀ calls counts, R calls counts → ∀ c ∈ calls, c.1 ≠ m.id)
    (hbudget : byPass = true → ∀ calls counts, R calls counts → ∃ c ∈ counts,
      c.tenantId = m.tenantId ∧ calls.countP (fun c => c.2 = m.tenantId) < c.rate - c.recent)
    (hR : ∀ calls counts, R calls counts → S (calls ++ [(m.id, m.tenantId)]) counts) :
    Leads admitted (Sending sender P R) (deliver sender byPass m)
      (fun _ => Sending sender (fun x => P x ∧ x.id ≠ m.id) S) E := by
  refine (triple_look_any _).bind fun cfg => ?_
  refine Triple.bind (Q := fun _ => Sending sender P S) (triple_atomically_sure trivial
    fun L _ => ?_) fun _ => (triple_ask _).bind fun reply => ?_
  · refine commits_change (lasting_sending.stable L) (fun s n _ _ hs => ?_)
      fun s n _ _ hs => hs.dispatch hR
    refine .dispatch m sender byPass hs.number (hs.held m hm) (fun d hd => ?_) fun hpass => ?_
    · exact hcalls _ _ hs.record (d.message, d.tenantId) (List.mem_map.mpr ⟨d, hd, rfl⟩)
    · rw [callsOf_eq]
      exact hbudget hpass _ _ hs.record
  cases reply with
  | sent provider messageId =>
    have hstable : ∀ (now : Time) L, (changes admitted).Stable L fun s =>
        (∀ d ∈ s.callsBy sender, d.calledAt ≤ now) ∧ Sending sender P S (drawn L) s := by
      intro now L L' s n s' n' hs hs' hother hstep h
      refine ⟨?_, stable_sending L' s n s' n' hs hs' hother hstep h.2⟩
      rcases hstep with rfl | ⟨note, -, hchange⟩
      · exact h.1
      · rw [hchange.callsBy (hother _ h.2.number)]
        exact h.1
    refine (triple_look (Q := fun now N s => (∀ d ∈ s.callsBy sender, d.calledAt ≤ now) ∧
      Sending sender P S N s) hstable fun N s n hs h => ⟨fun d hd => ?_, h⟩).bind fun now => ?_
    · exact hs.called d (List.mem_filter.mp hd).1
    refine Triple.bind (finish_leads (I := fun N s => (∀ d ∈ s.callsBy sender, d.calledAt ≤ now) ∧
      Sending sender P S N s) (f := (·.markSent provider messageId now)) (hstable now)
      (fun _ _ h => h.2) hm (fun _ => rfl) (fun _ => by simp [MessageOutbox.markSent]) (fun _ => rfl)
      (fun s => calledBy_recordSent s ..) (fun _ => rfl) fun L s hnumber hlock hheld h =>
        .recordSent m sender provider messageId now hnumber hlock hheld h.1)
      fun _ => triple_pure _ fun _ _ _ _ h => h
  | providerError => exact recordFailure_finishes hm _
  | badRequest => exact recordFailure_finishes hm _
  | failed => exact recordFailure_finishes hm _

/-! ### The dispatcher -/

/-- No call has been made for these tenants and these messages. -/
structure Waiting (tenantIds : List String) (P : MessageOutbox → Prop)
    (calls : List (ℕ × String)) : Prop where
  tenants : ∀ c ∈ calls, c.2 ∉ tenantIds
  messages : ∀ m, P m → ∀ c ∈ calls, c.1 ≠ m.id

/-- So many more calls are within what was counted for the tenant. -/
def Within (tenantId : String) (budget : ℕ) (calls : List (ℕ × String)) (counts : List Count) :
    Prop :=
  ∃ c ∈ counts, c.tenantId = tenantId ∧
    calls.countP (fun c => c.2 = tenantId) + budget ≤ c.rate - c.recent

/-- A pass sends the messages of a tenant within its budget and puts back the rest, and goes on to
other messages. -/
theorem sendRows_finishes {tenantId : String} {tenantIds : List String} (hnew : tenantId ∉ tenantIds)
    {later : MessageOutbox → Prop} (rows : List MessageOutbox) (budget : ℕ)
    (htenant : ∀ m ∈ rows, m.tenantId = tenantId) (hnodup : (rows.map (·.id)).Nodup)
    (hlater : ∀ m ∈ rows, ∀ x, later x → x.id ≠ m.id) :
    Leads admitted (Sending sender (fun x => x ∈ rows ∨ later x) fun calls counts =>
        Waiting tenantIds (fun x => x ∈ rows ∨ later x) calls ∧ Within tenantId budget calls counts)
      (sendRows sender budget rows)
      (fun _ => Sending sender later fun calls _ => Waiting tenantIds later calls) E := by
  induction rows generalizing budget with
  | nil =>
    unfold sendRows
    refine triple_pure _ fun N s n _ h => h.mono (fun x => ?_) fun calls counts hR => ?_
    · exact ⟨.inr, fun hx => hx.resolve_left List.not_mem_nil⟩
    · exact ⟨hR.1.tenants, fun m hm => hR.1.messages m (.inr hm)⟩
  | cons row rows ih =>
    have ih := fun budget => ih budget (fun m hm => htenant m (List.mem_cons_of_mem _ hm))
      (List.nodup_cons.mp hnodup).2 fun m hm => hlater m (List.mem_cons_of_mem _ hm)
    have hrow : row ∈ row :: rows := List.mem_cons_self
    -- the messages without this one
    have hrest : ∀ x, x ∈ rows ∨ later x ↔ (x ∈ row :: rows ∨ later x) ∧ x.id ≠ row.id := by
      intro x
      constructor
      · rintro (hx | hx)
        · refine ⟨.inl (List.mem_cons_of_mem _ hx), fun heq => (List.nodup_cons.mp hnodup).1 ?_⟩
          exact List.mem_map.mpr ⟨x, hx, heq⟩
        · exact ⟨.inr hx, hlater row hrow x hx⟩
      · rintro ⟨hx | hx, hid⟩
        · exact .inl ((List.mem_cons.mp hx).resolve_left fun heq => hid (heq ▸ rfl))
        · exact .inr hx
    cases budget with
    | zero =>
      unfold sendRows
      refine (triple_look_any _).bind fun now => Triple.bind (finish_leads (fun L => stable_sending)
        (fun _ _ h => h) (.inl hrow) _ (fun _ => by simp [MessageOutbox.defer]) (fun _ => rfl)
        (fun _ => rfl) (fun _ => rfl) fun L s hnumber hlock hheld h =>
          .defer row sender _ hnumber hlock hheld fun d hd => ?_) fun _ =>
        Triple.bind ((ih 0).pre fun N s n _ h => h.mono hrest fun calls counts hR => ?_) fun _ =>
          triple_pure _ fun _ _ _ _ h => h
      · exact h.record.1.messages row (.inl hrow) (d.message, d.tenantId)
          (List.mem_map.mpr ⟨d, hd, rfl⟩)
      · exact ⟨⟨hR.1.tenants, fun m hm => hR.1.messages m ((hrest m).mp hm).1⟩, hR.2⟩
    | succ budget =>
      unfold sendRows
      refine Triple.bind (deliver_finishes (S := fun calls counts =>
        Waiting tenantIds (fun x => x ∈ rows ∨ later x) calls ∧ Within tenantId budget calls counts)
        (.inl hrow) (fun calls counts hR => hR.1.messages row (.inl hrow))
        (fun _ calls counts hR => ?_) fun calls counts hR => ⟨⟨fun c hc => ?_, fun m hm c hc => ?_⟩, ?_⟩)
        fun _ => Triple.bind ((ih budget).pre fun N s n _ h => h.mono hrest fun _ _ hR => hR)
          fun _ => triple_pure _ fun _ _ _ _ h => h
      · obtain ⟨c, hc, hctenant, hle⟩ := hR.2
        rw [htenant row hrow]
        exact ⟨c, hc, hctenant, by omega⟩
      · rcases List.mem_append.mp hc with hc | hc
        · exact hR.1.tenants c hc
        · rw [List.mem_singleton.mp hc, htenant row hrow]
          exact hnew
      · rcases List.mem_append.mp hc with hc | hc
        · exact hR.1.messages m ((hrest m).mp hm).1 c hc
        · rw [List.mem_singleton.mp hc]
          exact fun heq => ((hrest m).mp hm).2 heq.symm
      · obtain ⟨c, hc, hctenant, hle⟩ := hR.2
        refine ⟨c, hc, hctenant, ?_⟩
        rw [List.countP_append, List.countP_singleton, if_pos (by simp [htenant row hrow])]
        omega

/-- A pass has counted for a tenant. -/
theorem Sending.count {N : ℕ → Prop} (h : Sending sender P R N s) {c : Count}
    (hpass : c.pass = sender) (hR : ∀ calls counts, R calls counts → S calls (counts ++ [c])) :
    Sending sender P S N (s.count c) where
  number := h.number
  held x hx := (h.held x hx).of_outbox rfl
  others := h.others
  record := by
    have hcounts : (s.count c).countsBy sender = s.countsBy sender ++ [c] := by
      simp [MessagingDb.countsBy, MessagingDb.count, hpass]
    rw [hcounts]
    exact hR _ _ h.record

theorem stable_rate {rate : ℕ} {tenantId : String} :
    (changes admitted).Stable L fun s => rate = s.ratePerMinute tenantId :=
  stable_of_change fun _ _ _ _ _ _ _ hchange h => h.trans (hchange.ratePerMinute tenantId).symm

theorem stable_counting {now : Time} {rate : ℕ} {tenantId : String} :
    (changes admitted).Stable L fun s =>
      now ≤ s.now ∧ rate = s.ratePerMinute tenantId ∧ Sending sender P R (drawn L) s :=
  Stable.and (stable_of_change fun _ _ _ _ _ _ _ hchange h => h.trans hchange.now_le)
    (stable_rate.and stable_sending)

/-- What is counted is the tenant's rate and what was recorded as sent. -/
theorem countTx_leads {tenantId : String} {rate : ℕ} {now : Time}
    (hR : ∀ recent counted calls counts, R calls counts →
      S calls (counts ++ [⟨sender, tenantId, now, rate, recent, counted⟩]) ∧
        Within tenantId (rate - recent) calls
          (counts ++ [⟨sender, tenantId, now, rate, recent, counted⟩])) :
    Leads admitted (fun N s => now ≤ s.now ∧ rate = s.ratePerMinute tenantId ∧ Sending sender P R N s)
      (atomically (fun _ => .plain) (countTx sender tenantId rate now))
      (fun recent => Sending sender P fun calls counts =>
        S calls counts ∧ Within tenantId (rate - recent) calls counts) E := by
  refine triple_atomically_sure (fun _ => trivial) fun L _ => ?_
  simp only [countTx, Discipline.wp_bind]
  refine wp_query stable_counting fun s n hs _ => ⟨fun s' =>
    (∀ d ∈ s.recorded tenantId, ∃ d' ∈ s'.dispatches, d'.call = d.call) ∧ (s'.Unraced →
      ((s.recorded tenantId).filter fun d => now - 60000 < d.calledAt).length ≤
        (s.recent tenantId now).length),
    stable_of_change fun _ _ _ _ _ _ _ hchange h => ⟨fun d hd => ?_, fun hunraced => ?_⟩,
    ⟨fun d hd => ⟨d, (List.mem_filter.mp hd).1, rfl⟩, fun hunraced =>
      hs.recorded_le_recent hunraced tenantId now⟩, ?_⟩
  · obtain ⟨d', hd', hcall⟩ := h.1 d hd
    obtain ⟨d'', hd'', hcall'⟩ := hchange.called hd'
    exact ⟨d'', hd'', hcall'.trans hcall⟩
  · exact h.2 (hchange.unraced hunraced)
  refine commits_change (lasting_sending.stable L) (fun s' n _ _ h => ?_) fun s' n _ _ h => ?_
  · obtain ⟨⟨hnow, hrate, hsending⟩, hcounted, hrecent⟩ := h
    exact .count _ hsending.number hnow hrate hcounted hrecent
  · exact h.1.2.2.count rfl fun calls counts hcalls => hR _ _ _ _ hcalls

/-- A pass sends the messages that it has taken over, tenant by tenant. -/
theorem sendTenants_finishes {claimed : List MessageOutbox} (hclaimed : (claimed.map (·.id)).Nodup)
    {tenantIds : List String} (htenants : tenantIds.Nodup) :
    Leads admitted (Sending sender (fun x => x ∈ claimed ∧ x.tenantId ∈ tenantIds) fun calls _ =>
        Waiting tenantIds (fun x => x ∈ claimed ∧ x.tenantId ∈ tenantIds) calls)
      (sendTenants sender claimed tenantIds) (fun _ => Free) E := by
  induction tenantIds with
  | nil =>
    unfold sendTenants
    exact triple_pure _ fun N s n _ h => h.free fun x hx => List.not_mem_nil hx.2
  | cons tenantId tenantIds ih =>
    obtain ⟨hnew, htenants⟩ := List.nodup_cons.mp htenants
    unfold sendTenants
    set rows := (claimed.filter fun m => m.tenantId = tenantId).insertionSort
      fun m m' => m.createdAt ≤ m'.createdAt with hrows
    have hmem : ∀ x, x ∈ rows ↔ x ∈ claimed ∧ x.tenantId = tenantId := by
      intro x
      rw [hrows, List.mem_insertionSort, List.mem_filter, decide_eq_true_eq]
    have hnodup : (rows.map (·.id)).Nodup :=
      (((List.perm_insertionSort _ _).map _).nodup_iff).mpr
        (hclaimed.sublist (List.filter_sublist.map _))
    have hsplit : ∀ x, (x ∈ rows ∨ x ∈ claimed ∧ x.tenantId ∈ tenantIds) ↔
        x ∈ claimed ∧ x.tenantId ∈ tenantId :: tenantIds := by
      intro x
      rw [hmem, List.mem_cons]
      exact and_or_left.symm
    have hlater : ∀ m ∈ rows, ∀ x, x ∈ claimed ∧ x.tenantId ∈ tenantIds → x.id ≠ m.id := by
      intro m hm x hx hid
      obtain ⟨hm, htenant⟩ := (hmem m).mp hm
      rw [List.inj_on_of_nodup_map hclaimed hx.1 hm hid, htenant] at hx
      exact hnew hx.2
    set held := fun x => x ∈ claimed ∧ x.tenantId ∈ tenantId :: tenantIds with hheld
    set waiting := fun (calls : List (ℕ × String)) (_ : List Count) =>
      Waiting (tenantId :: tenantIds) held calls with hwaiting
    refine Triple.bind (Q := fun cfg N s => (cfg.map (·.ratePerMinute)).getD 60 =
      s.ratePerMinute tenantId ∧ Sending sender held waiting N s)
      (triple_look (fun cfg L => stable_rate.and stable_sending) fun N s n _ h => ⟨rfl, h⟩)
      fun cfg => ?_
    refine Triple.bind (Q := fun now N s => now ≤ s.now ∧ (cfg.map (·.ratePerMinute)).getD 60 =
      s.ratePerMinute tenantId ∧ Sending sender held waiting N s)
      (triple_look (fun now L => stable_counting) fun N s n _ h => ⟨le_refl _, h⟩) fun now => ?_
    refine Triple.bind (countTx_leads (S := waiting) fun recent counted calls counts hR => ⟨hR, ?_⟩)
      fun recent => Triple.bind ((sendRows_finishes hnew rows _ (fun m hm => ((hmem m).mp hm).2)
        hnodup hlater).pre fun N s n _ h => h.mono hsplit fun calls counts hR => ?_) fun _ =>
      Triple.bind (ih htenants) fun _ => triple_pure _ fun _ _ _ _ h => h
    · refine ⟨_, List.mem_append_right _ (List.mem_singleton.mpr rfl), rfl, ?_⟩
      have hnone : calls.countP (fun c => c.2 = tenantId) = 0 := by
        refine List.countP_eq_zero.mpr fun c hc heq => hR.tenants c hc ?_
        rw [of_decide_eq_true heq]
        exact List.mem_cons_self
      rw [hnone, Nat.zero_add]
    · refine ⟨⟨fun c hc htenant => hR.1.tenants c hc (List.mem_cons_of_mem _ htenant),
        fun m hm => hR.1.messages m ((hsplit m).mp hm)⟩, hR.2⟩

/-- Only who has locked a message changes it. -/
theorem stable_message {x : MessageOutbox} (hlock : L (.lock (.message x.id))) :
    (changes admitted).Stable L fun s => x ∈ s.outbox :=
  stable_of_change fun L' s n note s' _ hother hchange hx => by
    obtain ⟨x', hx', hstep⟩ := hchange.message hx
    rwa [← hstep.locked (hother _ hlock)]

/-- The messages that a pass takes over are the ones it holds. -/
theorem Sending.of_claim {N : ℕ → Prop} (hfree : Free N s) {pass : ℕ} (hpass : N pass)
    (hcalls : s.callsBy pass = []) {rows : List MessageOutbox} (hrows : ∀ m ∈ rows, m ∈ s.outbox)
    (hR : ∀ counts, R [] counts) :
    Sending pass (fun x => x ∈ rows.map (·.claim pass)) R N (s.claim (rows.map (·.id)) pass) where
  number := hpass
  held x hx := by
    obtain ⟨m, hm, rfl⟩ := List.mem_map.mp hx
    have hmem : m.claim pass ∈ (s.claim (rows.map (·.id)) pass).outbox :=
      mem_claim.mpr ⟨m, hrows m hm, (if_pos (List.mem_map.mpr ⟨m, hm, rfl⟩)).symm⟩
    exact ⟨rfl, rfl, _, hmem, ⟨rfl, rfl, rfl, rfl, rfl, rfl, rfl, rfl⟩, fun _ => rfl⟩
  others x' hx' hstatus k hholder hk := by
    obtain ⟨x, hx, rfl⟩ := mem_claim.mp hx'
    by_cases hid : x.id ∈ rows.map (·.id)
    · obtain ⟨m, hm, hmx⟩ := List.mem_map.mp hid
      obtain rfl := KeyedTable.eq_of_mem (hrows m hm) hx hmx
      rw [if_pos hid]
      exact ⟨_, List.mem_map.mpr ⟨m, hm, rfl⟩, rfl⟩
    · rw [if_neg hid] at hstatus hholder
      exact absurd ⟨x, hx, hstatus, hholder⟩ (hfree k hk)
  record := by
    have hnone : (s.claim (rows.map (·.id)) pass).calledBy pass = [] :=
      List.map_eq_nil_iff.mpr hcalls
    rw [hnone]
    exact hR _

/-- A pass takes messages over that no one else has. -/
theorem claimTx_commits (now : Time) (batch : ℕ) (skipped : List ℕ) (L : Hold LockKey → Prop) :
    (changes admitted).wp (claimTx now batch skipped) L (Free (drawn L)) id fun L K f claimed =>
      (claimed.2.map (·.id)).Nodup ∧ CommitsTo (changes admitted) admitted .plain L
        (fun s => K s ∧ Free (drawn L) s) f (Sending claimed.1 (fun x => x ∈ claimed.2)
          (fun calls _ => calls = []) (drawn L)) := by
  simp only [claimTx, Discipline.wp_bind]
  refine wp_draw_unused stable_free fun pass => ?_
  have hstable : ∀ L', (∀ k, add L (.number pass) k → L' k) →
      (changes admitted).Stable L' fun s => Free (drawn L) s ∧ Unused pass s := fun L' hL' =>
    (stable_free.anti fun k hk => hL' k (.inr hk)).and (stable_unused (hL' _ (.inl rfl)))
  refine wp_query_any (hstable _ fun _ h => h) fun picked => ?_
  refine wp_acquireAll fun L' hL' hlocks => ?_
  have hlock : ∀ id ∈ picked, L' (.lock (.message id)) := fun id hid =>
    hlocks _ (List.mem_map.mpr ⟨id, hid, rfl⟩)
  refine wp_query (hstable L' hL'.holds) fun s n _ _ => ?_
  dsimp only [id]
  generalize hrows : (s.due now).filter (fun m => m.id ∈ picked) = rows
  have hmem : ∀ m ∈ rows, m ∈ s.outbox ∧ m.status = .queued ∧ m.id ∈ picked := by
    intro m hm
    rw [← hrows] at hm
    obtain ⟨hm, hpicked⟩ := List.mem_filter.mp hm
    obtain ⟨hm, hdue⟩ := List.mem_filter.mp ((List.mem_insertionSort _).mp hm)
    exact ⟨hm, (of_decide_eq_true hdue).1, of_decide_eq_true hpicked⟩
  have hnodup : (rows.map (·.id)).Nodup := by
    rw [← hrows]
    refine List.Nodup.sublist (List.filter_sublist.map _) ?_
    exact (((List.perm_insertionSort _ _).map _).nodup_iff).mpr
      (s.outbox.nodup_keys.sublist (List.filter_sublist.map _))
  refine ⟨fun s => ∀ m ∈ rows, m ∈ s.outbox, ?_, fun m hm => (hmem m hm).1, ?_⟩
  · intro L₂ s n s' n' hs hs' hother hstep h m hm
    exact stable_message (hlock _ (hmem m hm).2.2) L₂ s n s' n' hs hs' hother hstep (h m hm)
  have hnodup' : ((rows.map (·.claim pass)).map (·.id)).Nodup := by
    rw [List.map_map]
    exact hnodup
  refine ⟨hnodup', commits_change (lasting_sending.stable _) (fun s n _ _ h => ?_)
    fun s n _ _ h => ?_⟩
  · obtain ⟨⟨-, hrows⟩, -⟩ := h
    refine .claim _ pass (hL'.holds _ (.inl rfl)) (fun id hid => ?_) fun x hx hid => ?_
    · obtain ⟨m, hm, rfl⟩ := List.mem_map.mp hid
      exact hlock _ (hmem m hm).2.2
    · obtain ⟨m, hm, hmx⟩ := List.mem_map.mp hid
      rw [← KeyedTable.eq_of_mem (hrows m hm) hx hmx]
      exact (hmem m hm).2.1
  · obtain ⟨⟨⟨-, hunused⟩, hrows⟩, hfree⟩ := h
    exact Sending.of_claim hfree (hL'.holds _ (.inl rfl)) hunused.calls hrows
      fun counts => rfl

theorem distinct_nodup (l : List String) : (distinct l).Nodup := by
  unfold distinct
  rw [List.nodup_reverse]
  exact List.nodup_dedup _

theorem mem_distinct {l : List String} {t : String} : t ∈ distinct l ↔ t ∈ l := by
  unfold distinct
  rw [List.mem_reverse, List.mem_dedup, List.mem_reverse]

/-- A pass of the dispatcher holds no message when it ends. -/
theorem processOutbox_free (batch : ℕ) (skipped : List ℕ) :
    StaysFree admitted (processOutbox batch skipped) := by
  refine (triple_look_any _).bind fun now => triple_atomically_bind lasting_free
    (fun L _ => claimTx_commits now batch skipped L) ?_ fun _ _ _ _ h => h
  rintro ⟨pass, claimed⟩ hnodup
  refine (sendTenants_finishes hnodup (distinct_nodup _)).pre fun N s n _ h =>
    h.mono (fun x => ⟨And.left, fun hx => ⟨hx, ?_⟩⟩) fun calls counts hcalls => ?_
  · exact mem_distinct.mpr (List.mem_map.mpr ⟨x, hx, rfl⟩)
  · subst hcalls
    exact ⟨fun c hc => absurd hc List.not_mem_nil, fun m _ c hc => absurd hc List.not_mem_nil⟩

/-! ### One-time codes -/

/-- The code of this message is under a number of one's own, and no message is being sent. -/
def Queued (id : ℕ) : Assertion MessagingDb := fun N s =>
  (N id ∧ ∃ x ∈ s.outbox, x.id = id ∧ x.purpose = .otp) ∧ Free N s

theorem stable_otp (id : ℕ) :
    (changes admitted).Stable L fun s => ∃ x ∈ s.outbox, x.id = id ∧ x.purpose = .otp :=
  stable_of_change fun _ _ _ _ _ _ _ hchange h => by
    obtain ⟨x, hx, hid, hpurpose⟩ := h
    obtain ⟨x', hx', hsame⟩ := hchange.same hx
    exact ⟨x', hx', hsame.id.trans hid, hsame.purpose.trans hpurpose⟩

theorem lasting_queued (id : ℕ) : Lasting (changes admitted) (Queued id) where
  stable L L' s n s' n' hs hs' hother hstep h :=
    ⟨⟨h.1.1, stable_otp (L := numbers L) id L' s n s' n' hs hs' hother hstep h.1.2⟩,
      lasting_free.stable L L' s n s' n' hs hs' hother hstep h.2⟩
  fresh N s n hs h := ⟨⟨.inr h.1.1, h.1.2⟩, lasting_free.fresh N s n hs h.2⟩

/-- A message that was taken over is the one that is held. -/
theorem Sending.of_takeOver {N : ℕ → Prop} (hfree : Free N s) {sender : ℕ} (hsender : N sender)
    (hcalls : s.callsBy sender = []) {x : MessageOutbox} (hx : x ∈ s.outbox)
    (hR : ∀ counts, R [] counts) : Sending sender (fun y => y = x.takeOver sender) R N
      (s.updateMessage x.id (·.takeOver sender) fun _ => rfl) where
  number := hsender
  held y hy := by
    subst hy
    refine ⟨rfl, rfl, x.takeOver sender, ?_, ⟨rfl, rfl, rfl, rfl, rfl, rfl, rfl, rfl⟩, fun _ => rfl⟩
    exact (mem_updateMessage (f := (·.takeOver sender)) fun _ => rfl).mpr
      ⟨x, hx, (if_pos rfl).symm⟩
  others y' hy' hstatus k hholder hk := by
    obtain ⟨y, hy, rfl⟩ := (mem_updateMessage (f := (·.takeOver sender)) fun _ => rfl).mp hy'
    by_cases hid : y.id = x.id
    · rw [if_pos hid]
      exact ⟨_, rfl, hid.symm⟩
    · rw [if_neg hid] at hstatus hholder
      exact absurd ⟨y, hy, hstatus, hholder⟩ (hfree k hk)
  record := by
    have hnone : (s.updateMessage x.id (·.takeOver sender) fun _ => rfl).calledBy sender = [] :=
      List.map_eq_nil_iff.mpr hcalls
    rw [hnone]
    exact hR _

theorem takeOverTx_leads (message : ℕ) : Leads admitted (Queued message)
    (atomically (fun _ => .takeover message) (takeOverTx message)) (fun taken => Sending taken.1
      (fun y => y = taken.2) fun calls _ => calls = []) Free := by
  refine triple_atomically (lasting_queued message) (fun L _ => ?_) fun _ _ _ _ h => h.2
  simp only [takeOverTx, Discipline.wp_bind, Discipline.wp_acquire]
  have hstable : (changes admitted).Stable L (Queued message (drawn L)) :=
    ((@lasting_queued admitted message).stable L).anti fun _ hk => hk.1
  refine wp_draw_unused hstable fun sender => ?_
  have hstable := (hstable.add (.number sender)).and (stable_unused (n := sender) (.inl rfl))
  refine wp_query (hstable.add (.lock (.message message))) fun s n _ _ =>
    ⟨fun s' => ∀ row, s.findMessage message = some row → row ∈ s'.outbox, ?_,
      fun row hrow => (KeyedTable.find?_eq_some.mp hrow).1, wp_require fun row hrow => ?_⟩
  · intro L' s₁ n₁ s₂ n₂ hs₁ hs₂ hother hstep h row hrow
    have hid : row.id = message := (KeyedTable.find?_eq_some.mp hrow).2
    subst hid
    exact stable_message (L := add (add L (.number sender)) (.lock (.message row.id))) (.inl rfl)
      L' s₁ n₁ s₂ n₂ hs₁ hs₂ hother hstep (h row hrow)
  have hrow : s.findMessage message = some row := hrow
  have hid : row.id = message := (KeyedTable.find?_eq_some.mp hrow).2
  subst hid
  refine commits_change (lasting_sending.stable _) (fun s n _ _ h => ?_) fun s n _ _ h => ?_
  · refine .takeOver row.id sender (.inr (.inl rfl)) (.inl rfl) fun x hx hid => ?_
    obtain ⟨y, hy, hyid, hpurpose⟩ := h.2.1.2
    rwa [KeyedTable.eq_of_mem hx hy (hid.trans hyid.symm)]
  · obtain ⟨⟨⟨-, hunused⟩, hmem⟩, -, hfree⟩ := h
    exact Sending.of_takeOver hfree (.inr (.inl rfl)) hunused.calls (hmem row hrow) fun _ => rfl

/-- A code is sent at once, and its sender holds no message when it ends. -/
theorem sendNow_free (hotp : req.purpose = .otp) (hcampaign : req.campaignId = none)
    (hreq : req.send = none) :
    StaysFree admitted (sendNow req) := by
  refine Triple.bind (Q := fun row => Queued row.id) (enqueue_leads lasting_free
    (fun hne => absurd hcampaign hne) (fun row L => (lasting_queued row.id).stable L) (fun _ _ _ k hk => ?_)
    (fun N s skip id _ _ hfree hid hnew => ?_) fun _ _ _ _ h => h) fun row => ?_
  · rw [hreq] at hk
    cases hk
  · refine ⟨⟨hid, _, KeyedTable.mem_put.mpr (.inl rfl), rfl, hotp⟩, ?_⟩
    exact hfree.put (req.row_fresh ..).not_sending
  refine triple_guardOr_bind (fun _ => Triple.bind (takeOverTx_leads row.id) ?_)
    fun _ _ _ _ _ h => h.2
  rintro ⟨sender, taken⟩
  refine Triple.bind (deliver_finishes (S := fun _ _ => True) rfl (fun calls counts hcalls c hc => ?_)
    (fun hpass => by cases hpass) fun _ _ _ => trivial) fun result =>
    triple_guardOr (fun _ N s n _ h => ?_) fun _ N s n _ h => ?_
  · subst hcalls
    exact absurd hc List.not_mem_nil
  · exact h.free fun x hx => hx.2 (congrArg MessageOutbox.id hx.1)
  · exact h.free fun x hx => hx.2 (congrArg MessageOutbox.id hx.1)

theorem requestOtp_free (user : AuthUser) (outletId phone code : String) :
    StaysFree admitted (requestOtp user outletId phone code) := by
  unfold requestOtp send
  exact (triple_look_any _).bind fun cfg => sendNow_free rfl rfl rfl

/-! ### All requests -/

theorem run_free (r : MessagingRequest) : StaysFree admitted r.run := by
  cases r with
  | tick ms => exact tick_free ms
  | optOut user input => exact optOut_free _ _ _
  | removeOptOut user id => exact removeOptOut_free user id
  | lowStock => exact StaysFree.bind (enqueue_free rfl rfl) fun _ => staysFree_pure ()
  | requestOtp user outletId phone code => exact requestOtp_free user outletId phone code
  | createCampaign user outletId input => exact createCampaign_free user outletId input
  | sendCampaign user outletId id =>
    exact (sendCampaign_free user outletId id).bind fun _ => staysFree_pure ()
  | processOutbox batch skipped =>
    exact (processOutbox_free batch skipped).bind fun _ => staysFree_pure ()
  | whatsAppWebhook signatureOk webhook => exact handleWhatsAppWebhook_free signatureOk webhook
  | msg91Report items => exact handleMsg91Report_free items

/-- Every method keeps the terms, whatever is admitted, and holds no message when it ends. -/
theorem messaging_discharged (admitted : Note → (Hold LockKey → Prop) → MessagingDb → Prop)
    (r : MessagingRequest) : (messagingTerms admitted).Discharges Owes r.run.run :=
  Triple.discharges (I := Free) (fun _ _ => trivial) (fun _ _ hfree => hfree)
    ((run_free r).pre fun _ _ _ _ hnone m hm => absurd hm (hnone m))

theorem messaging_kept (admitted : Note → (Hold LockKey → Prop) → MessagingDb → Prop)
    (r : MessagingRequest) : (messagingTerms admitted).Kept r.run.run :=
  Process.wp_mono (messaging_discharged admitted r) fun _ _ _ _ h => h.1

/-- The terms hold in every state of every interleaving whose commits are admitted. -/
theorem messaging_holds {w : MessagingWorld} (h : messaging.Reach (World.Admits admitted) w) :
    (messagingTerms admitted).Holds w :=
  Terms.holds_of_reach (messaging_kept admitted) (fun _ _ => NoMessages.sound) h

/-- What holds at first and every change keeps that is admitted holds over all interleavings. -/
theorem messaging_invariant {I : MessagingDb → Prop} (hinit : ∀ s, NoMessages s → I s)
    (hstep : ∀ L s n note s' n', Sound s n → Sound s' n' → admitted note L s →
      Change L s note s' → I s → I s')
    {w : MessagingWorld} (h : messaging.Reach (World.Admits admitted) w) : I w.db := by
  refine @Machine.invariant _ _ messaging _ (fun w => I w.db) (fun w hw => hinit w.db hw.1)
    (fun w a hreach ih hgood => ?_) w h
  have hholds := messaging_holds hreach
  rcases hholds.step_db a hgood with hsame | ⟨_, held, _, _, _, _, _, _, hdb⟩
  · change I (World.step _ w a).db
    rwa [hsame]
  · rcases hdb with hsame | ⟨note, hadmitted, hchange⟩
    · change I (World.step _ w a).db
      rwa [hsame]
    · have hafter := messaging_holds (.step a hreach hgood)
      exact hstep _ w.db w.next note _ _ hholds.inv hafter.inv hadmitted hchange ih

/-! ### Runs of requests -/

/-- An outlet with two customers. -/
def twoCustomers : MessagingDb where
  now := 0
  configs := .empty
  customers := .put (.put .empty ⟨1, "t", "o", "+91 98765 43210", none, 0, 0, none⟩)
    ⟨2, "t", "o", "9123456789", none, 0, 0, none⟩
  campaigns := .empty
  optOuts := .empty
  outbox := .empty
  dispatches := []
  counts := []

theorem reach_twoCustomers {good : MessagingWorld → WorldAction MessagingRequest DispatchReply → Prop} :
    messaging.Reach good (.atRest twoCustomers 1) :=
  .init ⟨⟨rfl, rfl, rfl, rfl, rfl⟩, rfl, rfl⟩

/-- A request runs until it asks the provider or ends. -/
def requestRun (slot : ℕ) (request : MessagingRequest) :
    List (WorldAction MessagingRequest DispatchReply) :=
  .start slot request :: WorldAction.steps slot 40

/-- The manager of the outlet. -/
def manager : AuthUser := ⟨"u", "t", ["o"]⟩

/-- A campaign for all customers is created. -/
def createRun : List (WorldAction MessagingRequest DispatchReply) :=
  requestRun 0 (.createCampaign manager "o" ⟨"Diwali", .sms, none, "Sweets at half price"⟩)

/-- The campaign is sent: its messages are queued. -/
def sendRun (slot : ℕ) : List (WorldAction MessagingRequest DispatchReply) :=
  requestRun slot (.sendCampaign manager "o" 1)

end StelloKitchens.Messaging
