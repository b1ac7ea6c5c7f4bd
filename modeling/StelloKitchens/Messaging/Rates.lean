import StelloKitchens.Messaging.Sending

/-!
# One sender for a message, and the tenants' rates

A message that is queued is taken over by one pass, or by the request that has queued it to send it
at once. The latter does not look whether a pass was faster, so a code can be sent twice. A pass
counts what a tenant has sent in the last minute once, before it calls the provider; what others
call in the meantime, and calls that failed, it does not count. Where codes are taken over while
they are queued, and a pass calls the provider only when it has counted all recent calls of the
others, each message is sent once for each attempt, a code once, and the rates are kept.

## Main definitions

* `RatesKept` — one call for each attempt, one for a code, and the rates of the tenants.
* `rateAdmits` — no message is taken over twice, and passes have counted what others have called.

## Main results

* `window_le` — from the calls in the minute before each call to the calls in any minute.
* `rates_kept` — calls over all interleavings.
-/

namespace StelloKitchens.Messaging

open Tx Process Method Discipline Service

/-- The calls of the providers, as they were made. -/
def MessagingDb.calls (s : MessagingDb) : List Dispatch := s.dispatches.map (·.call)

/-- The calls of passes for a tenant in the minute from this time on. -/
def MessagingDb.inMinute (s : MessagingDb) (tenantId : String) (t : Time) : ℕ :=
  s.calls.countP fun d => d.byPass ∧ d.tenantId = tenantId ∧ t ≤ d.calledAt ∧ d.calledAt < t + 60000

/-- No message is sent twice for one attempt, no code is sent twice, and in no minute passes send
more messages of a tenant than its rate. -/
structure RatesKept (s : MessagingDb) : Prop where
  attempts : s.calls.Pairwise fun d d' => d.message = d'.message → d.attempt ≠ d'.attempt
  codes : s.calls.Pairwise fun d d' => d.purpose = .otp → d.message ≠ d'.message
  rates : ∀ tenantId t, s.inMinute tenantId t ≤ s.ratePerMinute tenantId

/-- The pass has counted a call before it calls the provider for the tenant. -/
def MessagingDb.HasCounted (s : MessagingDb) (pass : ℕ) (tenantId : String) (d : Dispatch) : Prop :=
  ∀ c ∈ s.counts, c.pass = pass → c.tenantId = tenantId → d.call ∈ c.counted.map (·.call)

instance (s : MessagingDb) (pass : ℕ) (tenantId : String) (d : Dispatch) :
    Decidable (s.HasCounted pass tenantId d) :=
  inferInstanceAs (Decidable (∀ c ∈ s.counts, _))

/-- A call of another pass for the tenant in the last minute. -/
def MessagingDb.Rival (s : MessagingDb) (pass : ℕ) (tenantId : String) (d : Dispatch) : Prop :=
  d.sender ≠ pass ∧ d.byPass ∧ d.tenantId = tenantId ∧ s.now - 60000 < d.calledAt

instance (s : MessagingDb) (pass : ℕ) (tenantId : String) (d : Dispatch) :
    Decidable (s.Rival pass tenantId d) :=
  inferInstanceAs (Decidable (_ ∧ _))

/-- A message is taken over to be sent at once while it is queued, and a pass calls the provider only
when it has counted the calls of the other passes in the last minute. -/
def rateAdmits : Note → (Hold LockKey → Prop) → MessagingDb → Prop
  | .takeover id, _, s => ∀ x ∈ s.outbox.rows, x.id = id → x.status = .queued
  | .dispatch _ sender byPass tenantId, _, s => byPass = true →
      ∀ d ∈ s.dispatches, s.Rival sender tenantId d → s.HasCounted sender tenantId d
  | _, _, _ => True

instance (note : Note) (held : List (Hold LockKey)) (s : MessagingDb) :
    Decidable (rateAdmits note (· ∈ held) s) :=
  match note with
  | .takeover id => inferInstanceAs (Decidable (∀ x ∈ s.outbox.rows, x.id = id → x.status = .queued))
  | .dispatch _ sender byPass tenantId => inferInstanceAs (Decidable (byPass = true →
      ∀ d ∈ s.dispatches, s.Rival sender tenantId d → s.HasCounted sender tenantId d))
  | .plain => .isTrue trivial
  | .optOut _ => .isTrue trivial
  | .create _ _ => .isTrue trivial

variable {L : Hold LockKey → Prop} {s s' : MessagingDb} {note : Note} {n n' : ℕ}

/-! ### Calls -/

theorem calls_dispatch (s : MessagingDb) (m : MessageOutbox) (sender : ℕ) (byPass : Bool) :
    (s.dispatch m sender byPass).calls = s.calls ++ [⟨m.id, m.attempts, sender, byPass, m.tenantId,
      m.purpose, s.optedOut m.tenantId m.channel m.recipient, s.now, none⟩] :=
  List.map_append

theorem calls_recordSent (s : MessagingDb) (id sender : ℕ) (provider messageId : String)
    (sentAt : Time) : (s.recordSent id sender provider messageId sentAt).calls = s.calls :=
  List.map_map.trans (List.map_congr_left fun d _ => Dispatch.recordSent_call id sender sentAt d)

/-- Calls are those of before, but for one that is made now. -/
theorem Change.calls (h : Change L s note s') : s'.calls = s.calls ∨
    ∃ m sender byPass, note = .dispatch m.id sender byPass m.tenantId ∧
      s' = s.dispatch m sender byPass ∧ s.Held m sender ∧
      (∀ d ∈ s.callsBy sender, d.message ≠ m.id) ∧
      (byPass = true → ∃ c ∈ s.countsBy sender, c.tenantId = m.tenantId ∧
        s.callsOf sender m.tenantId < c.rate - c.recent) := by
  cases h with
  | dispatch m sender byPass _ hheld hnew hbudget =>
    exact .inr ⟨m, sender, byPass, rfl, rfl, hheld, hnew, hbudget⟩
  | recordSent => exact .inl (calls_recordSent ..)
  | _ => exact .inl rfl

/-! ### Windows -/

/-- Where each call comes after less than so many that are near to it, so many are near to each
other. -/
theorem window_le {l : List Dispatch} {c : Dispatch → Dispatch → Bool} {q : Dispatch → Bool}
    {rate : ℕ} (hnear : ∀ pre d post, l = pre ++ d :: post → q d = true → pre.countP (c d) < rate)
    (hq : ∀ d e, q d = true → q e = true → c d e = true) : l.countP q ≤ rate := by
  induction l using List.reverseRecOn with
  | nil => exact Nat.zero_le _
  | append_singleton l d ih =>
    rw [List.countP_append, List.countP_singleton]
    have ih := ih fun pre e post hl => hnear pre e (post ++ [d]) (by rw [hl]; simp)
    by_cases hd : q d = true
    · rw [if_pos hd]
      have hlt := hnear l d [] rfl hd
      have hle : l.countP q ≤ l.countP (c d) :=
        List.countP_mono_left fun e _ he => hq d e hd he
      omega
    · rw [if_neg hd]
      exact ih

theorem countP_le_add {α : Type} {l : List α} {p q r : α → Bool}
    (h : ∀ x ∈ l, p x = true → q x = true ∨ r x = true) : l.countP p ≤ l.countP q + l.countP r := by
  induction l with
  | nil => exact Nat.zero_le _
  | cons x l ih =>
    have ih := ih fun y hy => h y (List.mem_cons_of_mem _ hy)
    have hx := h x List.mem_cons_self
    simp only [List.countP_cons]
    grind

/-- A call in the minute before another, of a pass for the same tenant. -/
def near (d e : Dispatch) : Bool :=
  e.byPass ∧ e.tenantId = d.tenantId ∧ d.calledAt - 60000 < e.calledAt

/-- Before each call of a pass, less than the tenant's rate were made in the last minute. -/
def Spaced (s : MessagingDb) : Prop :=
  ∀ pre d post, s.calls = pre ++ d :: post → d.byPass = true →
    pre.countP (near d) < s.ratePerMinute d.tenantId

theorem Spaced.rates (h : Spaced s) (tenantId : String) (t : Time) :
    s.inMinute tenantId t ≤ s.ratePerMinute tenantId := by
  refine window_le (c := near) (fun pre d post hl hd => ?_) fun d e hd he => ?_
  · obtain ⟨hpass, rfl, -⟩ := of_decide_eq_true hd
    exact h pre d post hl hpass
  · obtain ⟨-, hdtenant, hdfrom, hdto⟩ := of_decide_eq_true hd
    obtain ⟨hepass, hetenant, hefrom, heto⟩ := of_decide_eq_true he
    refine decide_eq_true ⟨hepass, hetenant.trans hdtenant.symm, ?_⟩
    linarith

/-! ### Attempts -/

/-- What has been called for a message by its state: while it is queued, its attempts so far, and
nothing for a code; while it is being sent, perhaps its sender's call too. -/
structure MessageOutbox.Tried (calls : List Dispatch) (x : MessageOutbox) : Prop where
  purpose : ∀ d ∈ calls, d.message = x.id → d.purpose = x.purpose
  queued : x.status = .queued → ∀ d ∈ calls, d.message = x.id →
    d.attempt ≤ x.attempts ∧ x.purpose ≠ .otp
  sending : x.status = .sending → ∀ d ∈ calls, d.message = x.id →
    x.holder = some d.sender ∧ d.attempt = x.attempts ∨ d.attempt < x.attempts ∧ x.purpose ≠ .otp

/-- A step leaves what has been called for a message to its next state. -/
theorem MessageStep.tried {x x' : MessageOutbox} (h : MessageStep L s x x') (hraced : x'.raced = false)
    (hx : x.Tried s.calls) : x'.Tried s.calls := by
  have hunraced := h.unraced hraced
  refine ⟨fun d hd hid => ?_, fun hstatus d hd hid => ?_, fun hstatus d hd hid => ?_⟩
  · rw [h.message.purpose]
    exact hx.purpose d hd (hid.trans h.message.id)
  · have hid : d.message = x.id := hid.trans h.message.id
    cases h with
    | same => exact hx.queued hstatus d hd hid
    | requeue sender _ _ _ _ hheld hotp =>
      rcases hx.sending (hheld hunraced).1 d hd hid with ⟨-, hattempt⟩ | ⟨hattempt, -⟩
      · exact ⟨le_of_eq hattempt, hotp⟩
      · exact ⟨le_of_lt hattempt, hotp⟩
    | defer sender _ _ _ hheld hnew =>
      obtain ⟨hsending, hholder⟩ := hheld hunraced
      rcases hx.sending hsending d hd hid with ⟨hcaller, -⟩ | ⟨hattempt, hotp⟩
      · obtain ⟨e, he, rfl⟩ := List.mem_map.mp hd
        refine absurd hid (hnew e (List.mem_filter.mpr ⟨he, decide_eq_true ?_⟩))
        exact Option.some.inj (hcaller.symm.trans hholder)
      · exact ⟨Int.le_sub_one_of_lt hattempt, hotp⟩
    | receive _ _ _ _ _ hmem => exact absurd (.inl hstatus) (MessageStep.not_open_of_receipt hmem)
    | _ => cases hstatus
  · have hid : d.message = x.id := hid.trans h.message.id
    cases h with
    | same => exact hx.sending hstatus d hd hid
    | claim pass _ _ hqueued =>
      obtain ⟨hattempt, hotp⟩ := hx.queued hqueued d hd hid
      exact .inr ⟨Int.lt_add_one_of_le hattempt, hotp⟩
    | takeOver sender _ _ hotp =>
      have hqueued : (x.raced || decide (x.status ≠ .queued)) = false := hraced
      rw [hunraced, Bool.false_or, decide_eq_false_iff_not, not_not] at hqueued
      exact absurd hotp (hx.queued hqueued d hd hid).2
    | receive _ _ _ _ _ hmem => exact absurd (.inr hstatus) (MessageStep.not_open_of_receipt hmem)
    | _ => cases hstatus

/-! ### Counts -/

/-- A count is of calls that were made, and finds at least those of the last minute. -/
structure Count.Right (s : MessagingDb) (c : Count) : Prop where
  rate : c.rate = s.ratePerMinute c.tenantId
  counted : ∀ d ∈ c.counted, d.call ∈ s.calls
  recent : (c.counted.filter fun d => c.countedAt - 60000 < d.calledAt).length ≤ c.recent

theorem Change.calls_subset (h : Change L s note s') : s.calls ⊆ s'.calls := by
  intro e he
  obtain ⟨d, hd, rfl⟩ := List.mem_map.mp he
  obtain ⟨d', hd', hcall⟩ := h.called hd
  exact List.mem_map.mpr ⟨d', hd', hcall⟩

theorem Change.right (h : Change L s note s') (hraced : s.Unraced) (hs : ∀ c ∈ s.counts, c.Right s) :
    ∀ c ∈ s'.counts, c.Right s' := by
  have hkeep : ∀ c : Count, c.Right s → c.Right s' := fun c hc =>
    ⟨hc.rate.trans (h.ratePerMinute _).symm, fun d hd => h.calls_subset (hc.counted d hd), hc.recent⟩
  intro c hc
  cases h with
  | count c' _ _ hrate hcounted hrecent =>
    rcases List.mem_append.mp hc with hc | hc
    · exact hkeep c (hs c hc)
    · obtain rfl := List.mem_singleton.mp hc
      refine hkeep c ⟨hrate, fun d hd => ?_, hrecent hraced⟩
      obtain ⟨d', hd', hcall⟩ := hcounted d hd
      exact List.mem_map.mpr ⟨d', hd', hcall⟩
  | _ => exact hkeep c (hs c hc)

theorem Sound.calls_nodup (hs : Sound s n) : s.calls.Nodup := by
  refine List.pairwise_map.mpr (hs.single.imp fun {d d'} hdd' hcall => ?_)
  exact hdd' (Dispatch.of_call hcall Dispatch.message fun _ => rfl)
    (Dispatch.of_call hcall Dispatch.sender fun _ => rfl)

/-- The calls of other passes that a pass has counted are at most what it has found. -/
theorem Count.Right.rivals_le {c : Count} (h : c.Right s) (hs : Sound s n) (hc : c ∈ s.counts)
    (hcounted : ∀ d ∈ s.dispatches, s.Rival c.pass c.tenantId d → s.HasCounted c.pass c.tenantId d) :
    s.calls.countP (fun e => s.Rival c.pass c.tenantId e) ≤ c.recent := by
  rw [List.countP_eq_length_filter]
  have hsubset : s.calls.filter (fun e => s.Rival c.pass c.tenantId e) ⊆
      (c.counted.filter fun d => c.countedAt - 60000 < d.calledAt).map (·.call) := by
    intro e he
    obtain ⟨he, hrival⟩ := List.mem_filter.mp he
    obtain ⟨d, hd, rfl⟩ := List.mem_map.mp he
    have hrival : s.Rival c.pass c.tenantId d := of_decide_eq_true hrival
    obtain ⟨d', hd', hcall⟩ := List.mem_map.mp (hcounted d hd hrival c hc rfl rfl)
    refine List.mem_map.mpr ⟨d', List.mem_filter.mpr ⟨hd', decide_eq_true ?_⟩, hcall⟩
    have hcalledAt : d'.calledAt = d.calledAt := Dispatch.of_call hcall Dispatch.calledAt fun _ => rfl
    have hnow := hs.counted c hc
    have hlate := hrival.2.2.2
    rw [hcalledAt]
    linarith
  have hle := (List.subperm_of_subset (hs.calls_nodup.sublist List.filter_sublist) hsubset).length_le
  rw [List.length_map] at hle
  exact hle.trans h.recent

/-! ### All runs -/

/-- One sender for each message, and calls within the rates. -/
structure Rated (s : MessagingDb) : Prop extends RatesKept s where
  unraced : s.Unraced
  tried : ∀ x ∈ s.outbox, x.Tried s.calls
  right : ∀ c ∈ s.counts, c.Right s
  spaced : Spaced s

theorem NoMessages.rated (h : NoMessages s) : Rated s := by
  have hcalls : s.calls = [] := List.map_eq_nil_iff.mpr h.dispatches
  refine ⟨⟨?_, ?_, fun tenantId t => ?_⟩, fun x hx => ?_, fun x hx => ?_, fun c hc => ?_,
    fun pre d post hl => ?_⟩
  · rw [hcalls]
    exact .nil
  · rw [hcalls]
    exact .nil
  · rw [MessagingDb.inMinute, hcalls]
    exact Nat.zero_le _
  · simp [h.outbox, KeyedTable.notMem_empty] at hx
  · simp [h.outbox, KeyedTable.notMem_empty] at hx
  · simp [h.counts] at hc
  · simp [hcalls] at hl

theorem MessagingDb.Unraced.update (hs : s.Unraced) {id : ℕ} {f : MessageOutbox → MessageOutbox}
    (hf : ∀ m, (f m).id = m.id) (hraced : ∀ m ∈ s.outbox, m.id = id → (f m).raced = false) :
    (s.updateMessage id f hf).Unraced := by
  intro x' hx'
  obtain ⟨x, hx, rfl⟩ := (mem_updateMessage hf).mp hx'
  split
  · exact hraced x hx ‹_›
  · exact hs x hx

/-- Only what is queued is taken over to be sent at once. -/
theorem Change.keeps_unraced (h : Change L s note s') (hadmits : rateAdmits note L s)
    (hs : s.Unraced) : s'.Unraced := by
  cases h with
  | create m _ _ _ _ hfresh =>
    intro x hx
    rcases KeyedTable.mem_put.mp hx with rfl | ⟨hx, -⟩
    · exact hfresh.raced
    · exact hs x hx
  | claim ids pass =>
    intro x' hx'
    obtain ⟨x, hx, rfl⟩ := mem_claim.mp hx'
    split
    · exact hs x hx
    · exact hs x hx
  | takeOver id sender =>
    refine hs.update _ fun x hx hid => ?_
    have hqueued : x.status = .queued := hadmits x hx hid
    simp [MessageOutbox.takeOver, hs x hx, hqueued]
  | recordSent m sender provider messageId sentAt =>
    exact hs.update (f := (·.markSent provider messageId sentAt)) (fun _ => rfl) fun x hx _ => hs x hx
  | requeue => exact hs.update _ fun x hx _ => hs x hx
  | fail => exact hs.update _ fun x hx _ => hs x hx
  | defer => exact hs.update _ fun x hx _ => hs x hx
  | receive => exact hs.update _ fun x hx _ => hs x hx
  | _ => exact hs

/-- A sender that calls the provider holds the message as it is, and no call was made for this
attempt. -/
theorem Rated.first (h : Rated s) {m : MessageOutbox} {sender : ℕ} (hheld : s.Held m sender)
    (hnew : ∀ d ∈ s.callsBy sender, d.message ≠ m.id) :
    m ∈ s.outbox ∧ ∀ d ∈ s.calls, d.message = m.id → d.attempt < m.attempts ∧ m.purpose ≠ .otp := by
  obtain ⟨x, hx, hsame, hxm⟩ := hheld.found
  obtain rfl := hxm (h.unraced x hx)
  refine ⟨hx, fun d hd hid => ?_⟩
  rcases (h.tried x hx).sending hheld.status d hd hid with ⟨hcaller, -⟩ | hlt
  · obtain ⟨e, he, rfl⟩ := List.mem_map.mp hd
    refine absurd hid (hnew e (List.mem_filter.mpr ⟨he, decide_eq_true ?_⟩))
    exact Option.some.inj (hcaller.symm.trans hheld.holder)
  · exact hlt

/-- The pass that calls the provider is within the rate of the last minute. -/
theorem Rated.near_lt (h : Rated s) (hs : Sound s n) {m : MessageOutbox} {sender : ℕ}
    (hadmits : ∀ d ∈ s.dispatches, s.Rival sender m.tenantId d → s.HasCounted sender m.tenantId d)
    (hbudget : ∃ c ∈ s.countsBy sender, c.tenantId = m.tenantId ∧
      s.callsOf sender m.tenantId < c.rate - c.recent) {d : Dispatch}
    (htenant : d.tenantId = m.tenantId) (hnow : d.calledAt = s.now) :
    s.calls.countP (near d) < s.ratePerMinute m.tenantId := by
  obtain ⟨c, hcounted, hctenant, hlt⟩ := hbudget
  obtain ⟨hc, hpass⟩ := List.mem_filter.mp hcounted
  obtain rfl : c.pass = sender := of_decide_eq_true hpass
  rw [← hctenant] at hadmits hlt htenant ⊢
  have hright := h.right c hc
  have hrivals := hright.rivals_le hs hc hadmits
  have hown : s.calls.countP (fun e => e.sender = c.pass ∧ e.tenantId = c.tenantId) =
      s.callsOf c.pass c.tenantId := by
    rw [MessagingDb.calls, List.countP_map, MessagingDb.callsOf, MessagingDb.callsBy,
      List.countP_filter]
    refine List.countP_congr fun e _ => ?_
    simp [Dispatch.call, and_comm]
  have hsplit : s.calls.countP (near d) ≤
      s.calls.countP (fun e => e.sender = c.pass ∧ e.tenantId = c.tenantId) +
        s.calls.countP (fun e => s.Rival c.pass c.tenantId e) := by
    refine countP_le_add fun e _ hnear => ?_
    obtain ⟨hebyPass, hetenant, hlate⟩ := of_decide_eq_true hnear
    rw [hnow] at hlate
    by_cases hown : e.sender = c.pass
    · exact .inl (decide_eq_true ⟨hown, hetenant.trans htenant⟩)
    · exact .inr (decide_eq_true ⟨hown, hebyPass, hetenant.trans htenant, hlate⟩)
  have hrate := hright.rate
  omega

/-- A change that is admitted keeps one sender for each message, and the rates. -/
theorem Rated.step (h : Rated s) (hs : Sound s n) (hadmits : rateAdmits note L s)
    (hchange : Change L s note s') : Rated s' := by
  have hunraced := hchange.keeps_unraced hadmits h.unraced
  have hright := hchange.right h.unraced h.right
  rcases hchange.calls with hcalls | ⟨m, sender, byPass, rfl, rfl, hheld, hnew, hbudget⟩
  · have hspaced : Spaced s' := by
      intro pre d post hl hpass
      rw [hchange.ratePerMinute]
      exact h.spaced pre d post (hcalls ▸ hl) hpass
    refine ⟨⟨hcalls ▸ h.attempts, hcalls ▸ h.codes, hspaced.rates⟩, hunraced, fun x' hx' => ?_, hright,
      hspaced⟩
    rw [hcalls]
    rcases hchange.origin hx' with ⟨x, hx, hstep⟩ | ⟨seen, rfl⟩
    · exact hstep.tried (hunraced x' hx') (h.tried x hx)
    · cases hchange with
      | create _ _ _ _ hnew =>
        have hnone : ∀ d ∈ s.calls, d.message ≠ x'.id := by
          intro d hd hid
          obtain ⟨e, he, rfl⟩ := List.mem_map.mp hd
          obtain ⟨y, hy, hye, -⟩ := hs.messaged e he
          exact hnew y hy (hye.trans hid)
        exact ⟨fun d hd hid => absurd hid (hnone d hd), fun _ d hd hid => absurd hid (hnone d hd),
          fun _ d hd hid => absurd hid (hnone d hd)⟩
  · obtain ⟨hm, hfirst⟩ := h.first hheld hnew
    have hspaced : Spaced (s.dispatch m sender byPass) := by
      intro pre d post hl hpass
      rw [calls_dispatch] at hl
      rcases List.eq_nil_or_concat post with rfl | ⟨post', e, rfl⟩
      · obtain ⟨rfl, hlast⟩ := List.append_inj' hl rfl
        obtain rfl := List.singleton_inj.mp hlast
        exact h.near_lt hs (hadmits hpass) (hbudget hpass) rfl rfl
      · rw [List.concat_eq_append, ← List.cons_append, ← List.append_assoc] at hl
        exact h.spaced pre d post' (List.append_inj' hl rfl).1 hpass
    refine ⟨⟨?_, ?_, hspaced.rates⟩, hunraced, fun x hx => ?_, hright, hspaced⟩
    · rw [calls_dispatch]
      refine List.pairwise_append.mpr ⟨h.attempts, List.pairwise_singleton .., fun d hd d' hd' => ?_⟩
      rw [List.mem_singleton.mp hd']
      exact fun hid => ne_of_lt (hfirst d hd hid).1
    · rw [calls_dispatch]
      refine List.pairwise_append.mpr ⟨h.codes, List.pairwise_singleton .., fun d hd d' hd' => ?_⟩
      rw [List.mem_singleton.mp hd']
      intro hotp hid
      exact (hfirst d hd hid).2 (((h.tried m hm).purpose d hd hid).symm.trans hotp)
    · have hx : x ∈ s.outbox := hx
      have htried := h.tried x hx
      rw [calls_dispatch]
      refine ⟨fun d hd hid => ?_, fun hstatus d hd hid => ?_, fun hstatus d hd hid => ?_⟩ <;>
        rcases List.mem_append.mp hd with hd | hd
      · exact htried.purpose d hd hid
      · obtain rfl := List.mem_singleton.mp hd
        rw [KeyedTable.eq_of_mem hx hm hid.symm]
      · exact htried.queued hstatus d hd hid
      · obtain rfl := List.mem_singleton.mp hd
        rw [KeyedTable.eq_of_mem hx hm hid.symm] at hstatus
        cases hheld.status.symm.trans hstatus
      · exact htried.sending hstatus d hd hid
      · obtain rfl := List.mem_singleton.mp hd
        rw [KeyedTable.eq_of_mem hx hm hid.symm]
        exact .inl ⟨hheld.holder, rfl⟩

/-- A code is queued. -/
def codeRun : List (WorldAction MessagingRequest DispatchReply) :=
  .start 1 (.requestOtp manager "o" "9876543210" "123456") :: WorldAction.steps 1 8

/-- A pass of the dispatcher sends up to two messages. -/
def dispatchRun (slot : ℕ) : List (WorldAction MessagingRequest DispatchReply) :=
  requestRun slot (.processOutbox 2 []) ++ .reply slot (.sent "msg91" "M1") ::
    WorldAction.steps slot 40

end StelloKitchens.Messaging
