import StelloKitchens.Webhooks.Attempts

/-!
# Workers keep to the changes

The methods of the webhook service are proved from what a worker knows while the others go on: which
deliveries it has taken and not attempted, and, as long as no one else has taken one since, that the
delivery is pending and how often it was attempted. So everything that is committed is one of the
changes, whatever the others do.

## Main definitions

* `webhookTerms` — the terms of the service, whatever is admitted of its commits.
* `Taken`, `Counted`, `Begun` — what a worker knows before and during an attempt.

## Main results

* `attempt_leads` — one attempt.
* `webhook_invariant` — what changes keep holds over all interleavings.
-/

namespace StelloKitchens.Webhooks

open Tx Process Method Discipline Service

/-! ### The terms -/

theorem Sound.mono {s : WebhookDb} {n m : ℕ} (hle : n ≤ m) (h : Sound s n) : Sound s m :=
  { h with
    deliveries := fun x hx => (h.deliveries x hx).trans_le hle
    workers := fun a ha => (h.workers a ha).trans_le hle
    holders := fun id k hk => ⟨(h.holders id k hk).1.trans_le hle, (h.holders id k hk).2.trans_le hle⟩ }

section Terms

variable (admitted : Note → (Hold LockKey → Prop) → WebhookDb → Prop)

/-- The terms of the service: every commit is admitted and makes one of the changes. -/
def webhookTerms : Terms WebhookDb LockKey Note (Except ServiceError Unit) where
  inv := Sound
  step L s s' := s' = s ∨ ∃ note, admitted note L s ∧ Change L s note s'
  inv_mono := Sound.mono
  admits := admitted
  said _ _ := True
  said_step _ _ _ h := h

/-- The discipline of the terms. -/
abbrev changes : Discipline WebhookDb LockKey := (webhookTerms admitted).toDiscipline

/-- A method with what its worker knows before and after, if it does not fail. -/
abbrev Leads {α : Type} (J : Assertion WebhookDb) (x : WebhookMethod α)
    (Q : α → Assertion WebhookDb) : Prop :=
  Triple (changes admitted) admitted J x Q fun _ _ => True

end Terms

variable {admitted : Note → (Hold LockKey → Prop) → WebhookDb → Prop}
  {L : Hold LockKey → Prop} {s s' : WebhookDb} {note : Note} {n : ℕ}

/-- What every change of the others leaves true. -/
theorem stable_of_change {K : WebhookDb → Prop}
    (h : ∀ L' s n note s', Sound s n → (∀ k, L k → ¬L' k) → Change L' s note s' → K s → K s') :
    (changes admitted).Stable L K := by
  rintro L' s n s' n' hs - hother (rfl | ⟨note, -, hchange⟩) hK
  · exact hK
  · exact h L' s n note s' hs hother hchange hK

/-- A commit that makes a change. -/
theorem commits_change {K J : WebhookDb → Prop} {f : WebhookDb → WebhookDb}
    (hJ : (changes admitted).Stable (numbers L) J)
    (h : ∀ s n, Sound s n → K s → Change L s note (f s))
    (hkeep : ∀ s n, Sound s n → K s → J (f s)) :
    CommitsTo (changes admitted) admitted note L K f J := by
  refine ⟨hJ, fun s n hs hdrawn hK hadmitted => ?_⟩
  have hchange := h s n hs hK
  exact ⟨hchange.sound hs hdrawn, .inr ⟨note, hadmitted, hchange⟩, hkeep s n hs hK⟩

/-- A commit that makes none. -/
theorem commits_nothing {K J : WebhookDb → Prop} (hJ : (changes admitted).Stable (numbers L) J)
    (h : ∀ s, K s → J s) : CommitsTo (changes admitted) admitted note L K id J :=
  ⟨hJ, fun s _ hs _ hK _ => ⟨hs, .inl rfl, h s hK⟩⟩

/-- Nothing is known. -/
theorem lasting_true : Lasting (changes admitted) fun _ _ => True where
  stable _ := stable_true
  fresh _ _ _ _ _ := trivial

/-! ### Numbers -/

/-- Nothing has been done under this number. -/
structure Unused (n : ℕ) (s : WebhookDb) : Prop where
  delivery : ∀ x ∈ s.deliveries, x.id ≠ n
  untaken : s.holder n = none
  holder : ∀ id, s.holder id ≠ some n
  unattempted : ∀ a ∈ s.attempts, a.delivery ≠ n
  worker : ∀ a ∈ s.attempts, a.worker ≠ n

theorem Sound.unused (h : Sound s n) : Unused n s where
  delivery x hx := (h.deliveries x hx).ne
  untaken := Option.eq_none_iff_forall_ne_some.mpr fun k hk => lt_irrefl n (h.holders n k hk).1
  holder id hk := lt_irrefl n (h.holders id n hk).2
  unattempted a ha := by
    rintro rfl
    obtain ⟨k, hk⟩ := Option.ne_none_iff_exists'.mp (h.attempts a ha)
    exact lt_irrefl _ (h.holders _ k hk).1
  worker a ha := (h.workers a ha).ne

/-- What is taken was so, is there, or is new. -/
theorem Change.untaken (h : Change L s note s') {id : ℕ} (hid : s.holder id = none)
    (hdelivery : ∀ x ∈ s.deliveries, x.id ≠ id) (hn : ¬L (.number id)) : s'.holder id = none := by
  have htake : ∀ (t : WebhookDb) (ids : List ℕ) (k : ℕ), t.holder = s.holder → id ∉ ids →
      (t.take ids k).holder id = none := fun t ids k ht hmem =>
    (if_neg hmem).trans ((congrFun ht id).trans hid)
  cases h with
  | test d worker _ hd =>
    exact htake (s.create [d]) _ _ rfl fun hmem => hn (List.mem_singleton.mp hmem ▸ hd)
  | claim ids pass _ _ _ hdue =>
    refine htake { s with deliveries := _ } _ _ rfl fun hmem => ?_
    obtain ⟨x, hx, hxid, -⟩ := hdue id hmem
    exact hdelivery x hx hxid
  | reopen k worker _ _ hthere =>
    refine htake { s with deliveries := _ } _ _ rfl fun hmem => ?_
    obtain ⟨x, hx, hxid⟩ := hthere
    exact hdelivery x hx (hxid.trans (List.mem_singleton.mp hmem).symm)
  | _ => exact hid

theorem Change.unused (h : Change L s note s') (hn : ¬L (.number n)) (hs : Unused n s) :
    Unused n s' where
  delivery x' hx' := by
    rcases h.delivery hx' with ⟨x, hx, hid⟩ | hnumber
    · exact hid ▸ hs.delivery x hx
    · exact fun heq => hn (heq ▸ hnumber)
  untaken := h.untaken hs.untaken hs.delivery hn
  holder id hholder := hs.holder id (h.holder hn hholder)
  unattempted a' ha' := by
    rcases h.attempt ha' with ⟨a, ha, hid, -⟩ | ⟨-, htaken⟩
    · exact hid ▸ hs.unattempted a ha
    · exact fun heq => htaken (heq ▸ hs.untaken)
  worker a' ha' := by
    rcases h.attempt ha' with ⟨a, ha, -, hworker, -⟩ | ⟨hnumber, -⟩
    · exact hworker ▸ hs.worker a ha
    · exact fun heq => hn (heq ▸ hnumber)

theorem stable_unused (hn : L (.number n)) : (changes admitted).Stable L (Unused n) :=
  stable_of_change fun _ _ _ _ _ _ hother hchange hs => hchange.unused (hother _ hn) hs

/-- A number under which nothing has been done. -/
theorem wp_draw_unused {K : WebhookDb → Prop} {f : WebhookDb → WebhookDb}
    {post : (Hold LockKey → Prop) → (WebhookDb → Prop) → (WebhookDb → WebhookDb) → ℕ → Prop}
    (hK : (changes admitted).Stable L K)
    (h : ∀ n, post (add L (.number n)) (fun s => K s ∧ Unused n s) f n) :
    (changes admitted).wp (draw : WebhookTx ℕ) L K f post :=
  wp_draw hK fun _ n hs _ => ⟨Unused n, stable_unused (.inl rfl), Sound.unused hs, h n⟩

/-! ### What a worker knows -/

/-- The worker has taken these deliveries and not attempted them. As long as it is the last to have
taken one, the delivery is pending, and was not attempted too often for an automatic attempt. -/
structure Taken (worker : ℕ) (automatic : Bool) (ids : List ℕ) (N : ℕ → Prop) (s : WebhookDb) :
    Prop where
  number : N worker
  taken : ∀ id ∈ ids, s.holder id ≠ none
  new : ∀ a ∈ s.attempts, a.worker = worker → a.delivery ∉ ids
  due : ∀ id ∈ ids, s.Holds id worker → (∀ x ∈ s.deliveries, x.id = id → x.status = .pending) ∧
    (automatic = true → s.automatic id < maxAttempts)

/-- As long as the worker is the last to have taken the delivery, so many attempts at it are
recorded. -/
structure Counted (worker id attempts : ℕ) (N : ℕ → Prop) (s : WebhookDb) : Prop where
  number : N worker
  taken : s.holder id ≠ none
  counted : s.Holds id worker → ∀ x ∈ s.deliveries, x.id = id → x.attempts = attempts

/-- The worker attempts the delivery. -/
structure Begun (worker id attempts : ℕ) (N : ℕ → Prop) (s : WebhookDb) : Prop
    extends Counted worker id attempts N s where
  begun : ∃ a ∈ s.attempts, a.delivery = id ∧ a.worker = worker ∧ a.Open

section Knowledge

variable {worker id attempts : ℕ} {automatic : Bool} {ids : List ℕ} {N : ℕ → Prop}

theorem Taken.step (h : Taken worker automatic ids N s) (hs : Sound s n)
    (hchange : Change L s note s') (hn : ¬L (.number worker)) : Taken worker automatic ids N s' where
  number := h.number
  taken id hid := hchange.taken (h.taken id hid)
  new a' ha' hworker := by
    rcases hchange.attempt ha' with ⟨a, ha, hid, haworker, -⟩ | ⟨hnumber, -⟩
    · exact hid ▸ h.new a ha (haworker.symm.trans hworker)
    · exact absurd (hworker ▸ hnumber) hn
  due id hid hholds := by
    obtain ⟨hbefore, hdeliveries, hautomatic⟩ := hchange.held hs hn (h.taken id hid) hholds
    obtain ⟨hpending, hleft⟩ := h.due id hid hbefore
    exact ⟨fun x hx hxid => hpending x (hdeliveries x hx hxid) hxid, hautomatic.symm ▸ hleft⟩

theorem Counted.step (h : Counted worker id attempts N s) (hs : Sound s n)
    (hchange : Change L s note s') (hn : ¬L (.number worker)) :
    Counted worker id attempts N s' where
  number := h.number
  taken := hchange.taken h.taken
  counted hholds x hx hxid := by
    obtain ⟨hbefore, hdeliveries, -⟩ := hchange.held hs hn h.taken hholds
    exact h.counted hbefore x (hdeliveries x hx hxid) hxid

/-- Only the worker records its attempt. -/
theorem Change.begun (hchange : Change L s note s') (hn : ¬L (.number worker))
    (h : ∃ a ∈ s.attempts, a.delivery = id ∧ a.worker = worker ∧ a.Open) :
    ∃ a ∈ s'.attempts, a.delivery = id ∧ a.worker = worker ∧ a.Open := by
  obtain ⟨a, ha, hid, hworker, hopen⟩ := h
  cases hchange with
  | begin => exact ⟨a, List.mem_append_left _ ha, hid, hworker, hopen⟩
  | finish id' worker' f hf hnumber _ _ hthere =>
    refine ⟨_, mem_attempts_finish.mpr ⟨a, ha, rfl⟩, record_delivery.trans hid,
      record_worker.trans hworker, (record_open (outcome_ne_none hthere f)).mpr ⟨hopen, ?_⟩⟩
    exact fun heq => hn (hworker ▸ heq.2 ▸ hnumber)
  | _ => exact ⟨a, ha, hid, hworker, hopen⟩

theorem lasting_taken : Lasting (changes admitted) (Taken worker automatic ids) where
  stable L := by
    rw [← drawn_numbers]
    exact stable_of_change fun _ _ _ _ _ hs hother hchange h =>
      h.step hs hchange (hother _ h.number)
  fresh N s n hs h := ⟨.inr h.number, h.taken, h.new, h.due⟩

theorem stable_taken : (changes admitted).Stable L (Taken worker automatic ids (drawn L)) :=
  (lasting_taken.stable L).anti fun _ hk => hk.1

theorem stable_counted : (changes admitted).Stable L (Counted worker id attempts (drawn L)) :=
  stable_of_change fun _ _ _ _ _ hs hother hchange h => h.step hs hchange (hother _ h.number)

theorem lasting_begun : Lasting (changes admitted) (Begun worker id attempts) where
  stable L := by
    rw [← drawn_numbers]
    exact stable_of_change fun _ _ _ _ _ hs hother hchange h =>
      ⟨h.toCounted.step hs hchange (hother _ h.number), hchange.begun (hother _ h.number) h.begun⟩
  fresh N s n hs h := ⟨⟨.inr h.number, h.taken, h.counted⟩, h.begun⟩

/-! ### One attempt -/

theorem WebhookDb.Holds.of_begin {k : ℕ} (h : (s.begin id worker automatic).Holds k worker) :
    s.Holds k worker :=
  ⟨(Bool.or_eq_false_iff.mp h.straight).1, h.holder⟩

/-- The worker begins an attempt at one of its deliveries. -/
theorem Taken.begin (h : Taken worker automatic (id :: ids) N s) (hid : id ∉ ids) :
    Taken worker automatic ids N (s.begin id worker automatic) where
  number := h.number
  taken k hk := h.taken k (List.mem_cons_of_mem _ hk)
  new a ha hworker := by
    rcases List.mem_append.mp ha with ha | ha
    · exact fun hmem => h.new a ha hworker (List.mem_cons_of_mem _ hmem)
    · obtain rfl := List.mem_singleton.mp ha
      exact hid
  due k hk hholds := by
    have hne : ¬(automatic = true ∧ id = k) := fun heq => hid (heq.2 ▸ hk)
    rw [automatic_begin, if_neg hne]
    exact h.due k (List.mem_cons_of_mem _ hk) hholds.of_begin

theorem Counted.begin (h : Counted worker id attempts N s) :
    Begun worker id attempts N (s.begin id worker automatic) where
  number := h.number
  taken := h.taken
  counted hholds := h.counted hholds.of_begin
  begun := ⟨_, List.mem_append_right _ (List.mem_singleton.mpr rfl), rfl, rfl, rfl⟩

/-- The outcome of an attempt leaves the other deliveries. -/
theorem Taken.finish (h : Taken worker automatic ids N s) (hid : id ∉ ids)
    {f : WebhookDelivery → WebhookDelivery} {hf : ∀ d, (f d).id = d.id} :
    Taken worker automatic ids N (s.finish id worker f hf) where
  number := h.number
  taken := h.taken
  new a' ha' hworker := by
    obtain ⟨a, ha, rfl⟩ := mem_attempts_finish.mp ha'
    rw [record_worker] at hworker
    rw [record_delivery]
    exact h.new a ha hworker
  due k hk hholds := by
    obtain ⟨hpending, hleft⟩ := h.due k hk ⟨hholds.straight, hholds.holder⟩
    rw [automatic_finish]
    refine ⟨fun x' hx' hxk => ?_, hleft⟩
    obtain ⟨x, hx, rfl⟩ := (mem_finish hf).mp hx'
    split at hxk
    · rename_i hxid
      exact absurd (((hf x).trans hxid).symm.trans hxk ▸ hk) hid
    · rw [if_neg ‹_›]
      exact hpending x hx hxk

/-- The worker records the outcome of its attempt. -/
theorem finish_leads (hid : id ∉ ids) {f : WebhookDelivery → WebhookDelivery}
    (hf : ∀ d, (f d).id = d.id) (hcount : ∀ d, (f d).attempts = attempts + 1)
    (hretry : ∀ d, (f d).status = .pending →
      (f d).nextAttemptAt ≠ none ∧ attempts + 1 < maxAttempts) :
    Leads admitted (fun N s => Taken worker automatic ids N s ∧ Begun worker id attempts N s)
      (finish id worker f hf) fun _ => Taken worker automatic ids := by
  have hlasting : Lasting (changes admitted)
      fun N s => Taken worker automatic ids N s ∧ Begun worker id attempts N s :=
    ⟨fun L => (lasting_taken.stable L).and (lasting_begun.stable L), fun N s n hs h =>
      ⟨lasting_taken.fresh N s n hs h.1, lasting_begun.fresh N s n hs h.2⟩⟩
  refine Triple.bind (Q := fun finished N s => finished = true → Taken worker automatic ids N s)
    (triple_atomically hlasting (fun L _ => ?_) fun _ _ _ _ _ => trivial) fun finished =>
      triple_guardOr (fun hfinished _ _ _ _ h => h hfinished) fun _ _ _ _ _ _ => trivial
  have hJ : ∀ L, (changes admitted).Stable (numbers L) fun s =>
      true = true → Taken worker automatic ids (drawn L) s := fun L L' s n s' n' hs hs' hother hstep h _ =>
    lasting_taken.stable L L' s n s' n' hs hs' hother hstep (h rfl)
  refine wp_updateWhere ((hlasting.stable L).anti fun _ hk => hk.1) (fun L' _ => ?_)
    fun s n _ _ hfound => ⟨fun s => ∃ x ∈ s.deliveries, x.id = id, ?_, ?_, ?_⟩
  · refine commits_nothing (fun _ _ _ _ _ _ _ _ _ _ => fun h => (by cases h)) fun s _ h => by cases h
  · refine stable_of_change fun L' s n note s' _ hother hchange h => ?_
    obtain ⟨x, hx, rfl⟩ := h
    exact ⟨x, hchange.locked hx (hother _ (.inl rfl)), rfl⟩
  · obtain ⟨x, hx⟩ := Option.isSome_iff_exists.mp hfound
    exact ⟨x, KeyedTable.find?_eq_some.mp hx⟩
  · refine commits_change (hJ _) (fun s n hs h => ?_) fun s n _ h _ => ?_
    · obtain ⟨⟨-, hthere⟩, -, hbegun⟩ := h
      refine .finish id worker f hf hbegun.number (.inl rfl) hbegun.begun hthere
        (fun hholds x hx hxid => ?_) fun x hpending => ?_
      · rw [hcount, hbegun.counted hholds x hx hxid]
      · rw [hcount]
        exact hretry x hpending
    · exact h.2.1.finish hid

/-- There is no next try after the last attempt. -/
theorem lt_of_nextRetryDelay {failedAttempts : ℕ} {random : ℚ} {delay : ℤ}
    (h : nextRetryDelay failedAttempts random = some delay) : failedAttempts < maxAttempts := by
  unfold nextRetryDelay at h
  split at h
  · cases h
  · exact Nat.lt_of_not_le ‹_›

/-- A delivery that has failed is pending only if it is retried. -/
theorem retried_of_fail {d : WebhookDelivery} {statusCode : Option ℕ} {error : String}
    {durationMs : ℤ} {nextAttemptAt : Option Time}
    (h : (d.fail attempts statusCode error durationMs nextAttemptAt).status = .pending) :
    nextAttemptAt ≠ none := by
  rintro rfl
  cases h

/-- One attempt at a delivery that the worker has taken. -/
theorem attempt_leads (hid : id ∉ ids) : Leads admitted (Taken worker automatic (id :: ids))
    (attempt worker automatic id) fun _ => Taken worker automatic ids := by
  refine Triple.bind (Q := fun found N s => Taken worker automatic (id :: ids) N s ∧
    ∀ p ∈ found, Counted worker id p.1.attempts N s) (triple_look (fun found L => ?_) ?_)
    fun found => ?_
  · refine stable_taken.and ?_
    intro L' s n s' n' hs hs' hother hstep h p hp
    exact stable_counted L' s n s' n' hs hs' hother hstep (h p hp)
  · intro N s n _ h
    refine ⟨h, fun p hp => ⟨h.number, h.taken id List.mem_cons_self, fun _ x hx hxid => ?_⟩⟩
    obtain ⟨d, hd, hp⟩ := Option.bind_eq_some_iff.mp hp
    obtain ⟨e, -, hp⟩ := Option.bind_eq_some_iff.mp hp
    obtain rfl := Option.some.inj hp
    obtain ⟨hd, hdid⟩ := KeyedTable.find?_eq_some.mp hd
    rw [KeyedTable.eq_of_mem hx hd (hxid.trans hdid.symm)]
  refine triple_getOr_bind (fun p hfound => ?_) fun _ _ _ _ _ => trivial
  obtain ⟨d, endpoint⟩ := p
  refine Triple.bind (Q := fun _ N s => Taken worker automatic ids N s ∧
    Begun worker id d.attempts N s) (triple_atomically_sure trivial fun L _ => ?_) fun _ => ?_
  · refine commits_change ((lasting_taken.stable L).and (lasting_begun.stable L))
      (fun s n _ h => ?_) fun s n _ h => ⟨h.1.begin hid, (h.2 _ hfound).begin⟩
    refine .begin id worker automatic h.1.number (h.1.taken id List.mem_cons_self) (fun a ha hworker heq => ?_)
      (h.1.due id List.mem_cons_self)
    exact h.1.new a ha hworker (heq ▸ List.mem_cons_self)
  dsimp only
  split
  · exact finish_leads hid _ (fun _ => rfl) fun _ hpending => by cases hpending
  · refine (triple_look_any _).bind fun started => (triple_ask _).bind fun reply =>
      (triple_look_any _).bind fun ended => ?_
    split
    · exact finish_leads hid _ (fun _ => rfl) fun _ hpending => by cases hpending
    · refine finish_leads hid _ (fun _ => rfl) fun x hpending => ?_
      have hnext := retried_of_fail hpending
      refine ⟨hnext, ?_⟩
      obtain ⟨delay, hdelay⟩ := Option.ne_none_iff_exists'.mp (mt Option.map_eq_none_iff.mpr hnext)
      split at hdelay
      · cases hdelay
      · exact lt_of_nextRetryDelay hdelay

/-! ### Passes and requests -/

/-- A pass claims deliveries that are due. -/
theorem Taken.of_claim (hs : Sound s n) (hnumber : N worker) (hunused : Unused worker s)
    {leasedUntil : Time} (hdue : ∀ id ∈ ids, ∃ x ∈ s.deliveries, x.id = id ∧ x.status = .pending ∧
      x.nextAttemptAt ≠ none) : Taken worker true ids N (s.claim ids worker leasedUntil) where
  number := hnumber
  taken id hid := by
    have hholder : (s.claim ids worker leasedUntil).holder id = some worker := if_pos hid
    rw [hholder]
    exact Option.some_ne_none worker
  new a ha hworker := absurd hworker (hunused.worker a ha)
  due id hid hholds := by
    obtain ⟨hcrossed, hnone⟩ := Bool.or_eq_false_iff.mp hholds.straight
    obtain ⟨x, hx, rfl, hpending, hnext⟩ := hdue id hid
    refine ⟨fun x' hx' hxid => ?_, fun _ => ?_⟩
    · obtain ⟨y, hy, rfl⟩ := mem_claim.mp hx'
      have hyid : y.id = x.id := by
        split at hxid <;> exact hxid
      rw [KeyedTable.eq_of_mem hy hx hyid]
      split <;> exact hpending
    · refine ((hs.straight hcrossed).counted x hx fun a ha haid hopen => ?_).trans_lt
        (hs.claimable x hx hpending hnext)
      exact List.any_eq_false.mp hnone a ha (decide_eq_true ⟨haid ▸ hid, hopen⟩)

/-- Who takes a delivery to attempt it at once. -/
theorem Taken.of_manual {t : WebhookDb} (hnumber : N worker)
    (hnew : ∀ a ∈ t.attempts, a.worker ≠ worker)
    (hpending : ∀ x ∈ t.deliveries, x.id = id → x.status = .pending) :
    Taken worker false [id] N (t.take [id] worker) where
  number := hnumber
  taken k hk := by
    have hholder : (t.take [id] worker).holder k = some worker := if_pos hk
    rw [hholder]
    exact Option.some_ne_none worker
  new a ha hworker := absurd hworker (hnew a ha)
  due k hk _ := by
    obtain rfl := List.mem_singleton.mp hk
    exact ⟨hpending, fun h => by cases h⟩

end Knowledge

theorem claimTx_commits (now : Time) (batch : ℕ) (skipped : List ℕ) (L : Hold LockKey → Prop) :
    (changes admitted).wp (claimTx now batch skipped) L (fun _ => True) id fun L K f claimed =>
      claimed.2.Nodup ∧ CommitsTo (changes admitted) admitted (.claim claimed.2) L
        (fun s => K s ∧ True) f (Taken claimed.1 true claimed.2 (drawn L)) := by
  simp only [claimTx, Discipline.wp_bind]
  refine wp_draw_unused stable_true fun pass => ?_
  have hstable : ∀ L', (∀ k, add L (.number pass) k → L' k) →
      (changes admitted).Stable L' fun s => True ∧ Unused pass s := fun L' hL' =>
    stable_true.and (stable_unused (hL' _ (.inl rfl)))
  refine wp_query_any (hstable _ fun _ h => h) fun picked => ?_
  refine wp_acquireAll fun L' hL' hlocks => ?_
  have hlock : ∀ id ∈ picked, L' (.lock (.delivery id)) := fun id hid =>
    hlocks _ (List.mem_map.mpr ⟨id, hid, rfl⟩)
  refine wp_query (hstable L' hL'.holds) fun s n _ _ => ?_
  dsimp only [id]
  generalize hids : ((s.due now).filter (fun d => d.id ∈ picked)).map (·.id) = ids
  have hmem : ∀ id ∈ ids, id ∈ picked ∧ ∃ x ∈ s.deliveries, x.id = id ∧ x.status = .pending ∧
      x.nextAttemptAt ≠ none := by
    intro id hid
    rw [← hids] at hid
    obtain ⟨x, hx, rfl⟩ := List.mem_map.mp hid
    obtain ⟨hx, hpicked⟩ := List.mem_filter.mp hx
    obtain ⟨hx, hdue⟩ := List.mem_filter.mp ((List.mem_insertionSort _).mp hx)
    obtain ⟨hpending, hnext⟩ := of_decide_eq_true hdue
    refine ⟨of_decide_eq_true hpicked, x, hx, rfl, hpending, fun hnone => ?_⟩
    rw [hnone] at hnext
    cases hnext
  have hnodup : ids.Nodup := by
    rw [← hids]
    refine List.Nodup.sublist (List.filter_sublist.map _) ?_
    exact (((List.perm_insertionSort _ _).map _).nodup_iff).mpr
      (s.deliveries.nodup_keys.sublist (List.filter_sublist.map _))
  refine ⟨fun s => ∀ id ∈ ids, ∃ x ∈ s.deliveries, x.id = id ∧ x.status = .pending ∧
    x.nextAttemptAt ≠ none, ?_, fun id hid => (hmem id hid).2, hnodup, ?_⟩
  · refine stable_of_change fun L₂ s n note s' _ hother hchange h id hid => ?_
    obtain ⟨x, hx, rfl, hx'⟩ := h id hid
    exact ⟨x, hchange.locked hx (hother _ (hlock _ (hmem _ hid).1)), rfl, hx'⟩
  · refine commits_change (lasting_taken.stable _) (fun s n _ h => ?_) fun s n hs h => ?_
    · exact .claim ids pass _ (hL'.holds _ (.inl rfl)) (fun id hid => hlock id (hmem id hid).1) h.1.2
    · exact Taken.of_claim hs (hL'.holds _ (.inl rfl)) h.1.1.2 h.1.2

/-- A pass of the worker. -/
theorem processDue_leads (batch : ℕ) (skipped : List ℕ) :
    Leads admitted (fun _ _ => True) (processDue batch skipped) fun _ _ _ => True := by
  refine triple_tryCatch ((triple_look_any _).bind fun now => triple_atomically_bind lasting_true
    (fun L _ => claimTx_commits now batch skipped L) ?_ fun _ _ _ _ _ => trivial)
    fun _ => triple_pure _ fun _ _ _ _ _ => trivial
  rintro ⟨pass, ids⟩ hnodup
  refine Triple.bind (Q := fun _ _ _ => True) ?_ fun _ => triple_pure _ fun _ _ _ _ _ => trivial
  have hall : Leads admitted (Taken pass true ids) (ids.mapM (attempt pass true))
      fun _ => Taken pass true (ids.drop ids.length) := by
    refine triple_mapM (fun done => Taken pass true (ids.drop done.length)) fun done id rest hl => ?_
    subst hl
    rw [List.drop_left, List.append_cons done id rest, List.drop_left]
    exact attempt_leads (List.nodup_cons.mp (List.nodup_append.mp hnodup).2.1).1
  exact hall.mono (fun _ _ _ _ h => h) (fun _ _ _ _ _ _ => trivial) fun _ _ _ _ _ => trivial

/-- A delivery is attempted once more. -/
theorem redeliver_leads (user : AuthUser) (id : ℕ) :
    Leads admitted (fun _ _ => True) (redeliver user id) fun _ _ _ => True := by
  refine (triple_look_any _).bind fun row => triple_getOr_bind (fun d _ => ?_) fun _ _ _ _ _ => trivial
  refine Triple.bind (Q := fun worker => Taken worker false [d.id])
    (triple_atomically lasting_true (fun L _ => ?_) fun _ _ _ _ _ => trivial) fun worker =>
      (attempt_leads List.not_mem_nil).mono (fun _ _ _ _ h => h) (fun _ _ _ _ _ _ => trivial)
        fun _ _ _ _ _ => trivial
  simp only [reopenTx, Discipline.wp_bind]
  refine wp_draw_unused stable_true fun worker => ?_
  have hstable : (changes admitted).Stable (add L (.number worker)) fun s => True ∧ Unused worker s :=
    stable_true.and (stable_unused (.inl rfl))
  refine wp_updateWhere hstable (fun L' _ => wp_check fun h => by cases h) fun s n _ _ hfound => ?_
  refine ⟨fun s => ∃ x ∈ s.deliveries, x.id = d.id, ?_, ?_, wp_check fun _ => ?_⟩
  · refine stable_of_change fun L' s n note s' _ hother hchange h => ?_
    obtain ⟨x, hx, hxid⟩ := h
    exact ⟨x, hchange.locked hx (hother _ (.inl (hxid ▸ rfl))), hxid⟩
  · obtain ⟨x, hx⟩ := Option.isSome_iff_exists.mp hfound
    exact ⟨x, KeyedTable.find?_eq_some.mp hx⟩
  · refine commits_change (lasting_taken.stable _) (fun s n _ h => ?_) fun s n _ h => ?_
    · exact .reopen d.id worker (.inr (.inl rfl)) (.inl rfl) h.1.2
    · refine Taken.of_manual (.inr (.inl rfl)) h.1.1.2.worker fun x' hx' hxid => ?_
      obtain ⟨x, hx, rfl⟩ := (KeyedTable.mem_modify (f := WebhookDelivery.reopen) fun _ => rfl).mp hx'
      split at hxid
      · rw [if_pos ‹_›]
        rfl
      · exact absurd (decide_eq_true hxid) ‹_›

/-- The deliveries of an event are new. -/
theorem DomainEvent.row_new {event : DomainEvent} {endpointId k : ℕ} {nextAttemptAt : Option Time}
    {createdAt : Time} (h : Unused k s) : (event.row endpointId nextAttemptAt createdAt k).New s where
  status := rfl
  attempts := rfl
  fresh := h.delivery
  untaken := h.untaken
  unattempted := h.unattempted

/-- A test event is sent. -/
theorem testSend_leads (user : AuthUser) (endpointId : ℕ) (eventId payload : String) :
    Leads admitted (fun _ _ => True) (testSend user endpointId eventId payload) fun _ _ _ => True := by
  refine (triple_look_any _).bind fun row => triple_getOr_bind (fun e _ => ?_) fun _ _ _ _ _ => trivial
  refine Triple.bind (Q := fun created => Taken created.2 false [created.1])
    (triple_atomically lasting_true (fun L _ => ?_) fun _ _ _ _ _ => trivial) ?_
  · simp only [createTestTx, Discipline.wp_bind, Discipline.wp_acquire]
    refine wp_query_any stable_true fun found => wp_require fun _ _ =>
      wp_query_any stable_true fun createdAt => wp_draw_unused stable_true fun k => ?_
    refine wp_draw_unused (stable_true.and (stable_unused (.inl rfl))) fun worker => ?_
    refine commits_change (lasting_taken.stable _) (fun s n _ h => ?_) fun s n _ h => ?_
    · exact .test _ worker (.inl rfl) (.inr (.inl rfl)) (DomainEvent.row_new h.1.1.2) rfl
    · refine Taken.of_manual (.inl rfl) h.1.2.worker fun x hx hxid => ?_
      rcases mem_create hx with hx | hx
      · rw [List.mem_singleton.mp hx]
        rfl
      · exact absurd hxid (h.1.1.2.delivery x hx)
  · rintro ⟨k, worker⟩
    exact (attempt_leads List.not_mem_nil).mono (fun _ _ _ _ h => h) (fun _ _ _ _ _ _ => trivial)
      fun _ _ _ _ _ => trivial

/-- Deliveries with numbers of one's own are created. -/
theorem createManyTx_commits (event : DomainEvent) (nextAttemptAt : Time)
    (targets : List WebhookEndpoint) {rows : List WebhookDelivery} {L : Hold LockKey → Prop}
    {K : WebhookDb → Prop} (hK : (changes admitted).Stable L K)
    (hnumber : ∀ d ∈ rows, L (.number d.id)) (hdue : ∀ d ∈ rows, d.nextAttemptAt ≠ none)
    (hnew : ∀ s, K s → ∀ d ∈ rows, d.New s) :
    (changes admitted).wp (createManyTx event nextAttemptAt targets rows) L K id fun L K f _ =>
      CommitsTo (changes admitted) admitted .plain L (fun s => K s ∧ True) f fun _ => True := by
  induction targets generalizing rows L K with
  | nil =>
    exact commits_change stable_true (fun s n _ h => .create rows hnumber (hnew s h.1) hdue)
      fun _ _ _ _ => trivial
  | cons e targets ih =>
    simp only [createManyTx, Discipline.wp_bind, Discipline.wp_acquire]
    refine wp_query_any (hK.add _) fun found => wp_require fun _ _ => wp_query_any (hK.add _)
      fun createdAt => wp_draw_unused (hK.add _) fun k => ?_
    refine ih (((hK.add _).add _).and (stable_unused (.inl rfl))) (fun d hd => ?_) (fun d hd => ?_)
      fun s h d hd => ?_ <;> rcases List.mem_append.mp hd with hd | hd
    · exact .inr (.inr (hnumber d hd))
    · rw [List.mem_singleton.mp hd]
      exact .inl rfl
    · exact hdue d hd
    · rw [List.mem_singleton.mp hd]
      exact Option.some_ne_none _
    · exact hnew s h.1 d hd
    · rw [List.mem_singleton.mp hd]
      exact DomainEvent.row_new h.2

theorem onEvent_leads (event : DomainEvent) :
    Leads admitted (fun _ _ => True) (onEvent event) fun _ _ _ => True := by
  unfold onEvent
  split
  · exact triple_pure _ fun _ _ _ _ _ => trivial
  · refine (triple_look_any _).bind fun endpoints => ?_
    dsimp only
    split
    · exact triple_pure _ fun _ _ _ _ _ => trivial
    · refine (triple_look_any _).bind fun now => Triple.bind (Q := fun _ _ _ => True)
        (triple_atomically lasting_true (fun L _ => ?_) fun _ _ _ _ _ => trivial)
        fun _ => triple_pure _ fun _ _ _ _ _ => trivial
      exact createManyTx_commits event now _ stable_true (fun d hd => absurd hd List.not_mem_nil)
        (fun d hd => absurd hd List.not_mem_nil) fun s _ d hd => absurd hd List.not_mem_nil

/-- A transaction that makes one change. -/
theorem leads_of_change {α : Type} {note : α → Note} {t : WebhookTx α}
    (h : ∀ L, (changes admitted).wp t L (fun _ => True) id fun L K f a =>
      ∀ s, K s → Change L s (note a) (f s)) :
    Leads admitted (fun _ _ => True) (atomically note t) fun _ _ _ => True := by
  refine triple_atomically lasting_true (fun L _ => ?_) fun _ _ _ _ _ => trivial
  refine Discipline.wp_mono (h L) fun L K f a hchange => ?_
  exact commits_change stable_true (fun s n _ hs => hchange s hs.1) fun _ _ _ _ => trivial

theorem removeTx_leads (k : ℕ) : Leads admitted (fun _ _ => True)
    (atomically (fun _ => Note.plain) (removeTx k)) fun _ _ _ => True := by
  refine leads_of_change fun L => ?_
  simp only [removeTx, Discipline.wp_bind, Discipline.wp_acquire]
  refine wp_query_any stable_true fun ids => wp_acquireAll fun L' _ hlock s _ => ?_
  exact .remove _ ids fun id hid => hlock _ (List.mem_map.mpr ⟨id, hid, rfl⟩)

/-! ### All requests -/

theorem run_leads (r : WebhookRequest) :
    Leads admitted (fun _ _ => True) r.run fun _ _ _ => True := by
  cases r with
  | tick ms => exact leads_of_change fun L s _ => .rest (s.now + ms) s.endpoints
  | saveEndpoint row => exact leads_of_change fun L s _ => .rest s.now (s.endpoints.put row)
  | removeEndpoint k => exact removeTx_leads k
  | onEvent event =>
    exact (onEvent_leads event).bind fun _ => triple_pure _ fun _ _ _ _ _ => trivial
  | testSend user endpointId eventId payload => exact testSend_leads user endpointId eventId payload
  | redeliver user k => exact redeliver_leads user k
  | processDue batch skipped =>
    exact (processDue_leads batch skipped).bind fun _ => triple_pure _ fun _ _ _ _ _ => trivial

/-- Every method keeps the terms, whatever is admitted. -/
theorem webhook_kept (admitted : Note → (Hold LockKey → Prop) → WebhookDb → Prop)
    (r : WebhookRequest) : (webhookTerms admitted).Kept r.run.run := by
  have hdischarged : (webhookTerms admitted).Discharges (fun _ _ => False) r.run.run :=
    Triple.discharges (fun _ _ => trivial) (fun _ _ (_ : True) _ _ h => h)
      ((run_leads r).pre fun _ _ _ _ _ => trivial)
  exact Process.wp_mono hdischarged fun _ _ _ _ h => h.1

/-- The terms hold in every state of every interleaving whose commits are admitted. -/
theorem webhook_holds {w : WebhookWorld} (h : webhooks.Reach (World.Admits admitted) w) :
    (webhookTerms admitted).Holds w :=
  Terms.holds_of_reach (webhook_kept admitted) (fun _ _ => NoDeliveries.sound) h

/-- What holds at first and every change keeps that is admitted holds over all interleavings. -/
theorem webhook_invariant {I : WebhookDb → Prop} (hinit : ∀ s, NoDeliveries s → I s)
    (hstep : ∀ L s n note s', Sound s n → admitted note L s → Change L s note s' → I s → I s')
    {w : WebhookWorld} (h : webhooks.Reach (World.Admits admitted) w) : I w.db := by
  refine @Machine.invariant _ _ webhooks _ (fun w => I w.db) (fun w hw => hinit w.db hw.1)
    (fun w a hreach ih hgood => ?_) w h
  have hholds := webhook_holds hreach
  rcases hholds.step_db a hgood with hsame | ⟨_, held, _, _, _, _, _, _, hdb⟩
  · change I (World.step _ w a).db
    rwa [hsame]
  · rcases hdb with hsame | ⟨note, hadmitted, hchange⟩
    · change I (World.step _ w a).db
      rwa [hsame]
    · exact hstep _ w.db w.next note _ hholds.inv hadmitted hchange ih

end StelloKitchens.Webhooks
