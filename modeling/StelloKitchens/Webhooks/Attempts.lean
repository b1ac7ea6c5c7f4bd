import StelloKitchens.Lib.Triples
import StelloKitchens.Webhooks.Deliveries

/-!
# What workers know of their attempts

Everything that the webhook service commits is one of a few changes of the deliveries. A worker that
has taken a delivery attempts it once, and as long as no one else has taken it since, and none is
taken while it is attempted, it finds the delivery as it was when it records the outcome.

## Main definitions

* `Change` — what a commit does.
* `Sound`, `Straight` — what holds of the deliveries and the attempts under all changes.
* `Taken`, `Begun` — what a worker knows before and during an attempt.

## Main results

* `Change.sound` — changes keep the tables sound.
* `webhook_kept` — every method keeps the terms.
* `webhook_invariant` — what changes keep holds over all interleavings.
-/

namespace StelloKitchens.Webhooks

open Tx Process Method Discipline Service

/-! ### Changes -/

/-- The automatic attempts at a delivery. -/
def WebhookDb.automatic (s : WebhookDb) (id : ℕ) : ℕ :=
  s.attempts.countP fun a => a.automatic ∧ a.delivery = id

/-- Everything has been in turn so far, and the worker is the last to have taken the delivery. -/
structure WebhookDb.Holds (s : WebhookDb) (id worker : ℕ) : Prop where
  straight : s.crossed = false
  holder : s.holder id = some worker

/-- A delivery as it is created. -/
structure WebhookDelivery.New (s : WebhookDb) (d : WebhookDelivery) : Prop where
  status : d.status = .pending
  attempts : d.attempts = 0
  fresh : ∀ x ∈ s.deliveries, x.id ≠ d.id
  untaken : s.holder d.id = none
  unattempted : ∀ a ∈ s.attempts, a.delivery ≠ d.id

/-- What a commit with this note does, by who holds these. -/
inductive Change (L : Hold LockKey → Prop) (s : WebhookDb) : Note → WebhookDb → Prop
  | rest (now : Time) (endpoints : KeyedTable WebhookEndpoint.id) :
      Change L s .plain { s with now := now, endpoints := endpoints }
  | remove (endpoints : KeyedTable WebhookEndpoint.id) (ids : List ℕ)
      (hlock : ∀ id ∈ ids, L (.lock (.delivery id))) :
      Change L s .plain { s with endpoints := endpoints,
                                 deliveries := s.deliveries.delete fun d => d.id ∈ ids }
  | create (rows : List WebhookDelivery) (hnumber : ∀ d ∈ rows, L (.number d.id))
      (hnew : ∀ d ∈ rows, d.New s) (hdue : ∀ d ∈ rows, d.nextAttemptAt ≠ none) :
      Change L s .plain (s.create rows)
  | test (d : WebhookDelivery) (worker : ℕ) (hnumber : L (.number worker))
      (hid : L (.number d.id)) (hnew : d.New s) (hdue : d.nextAttemptAt = none) :
      Change L s (.manual d.id) ((s.create [d]).take [d.id] worker)
  | claim (ids : List ℕ) (pass : ℕ) (leasedUntil : Time) (hnumber : L (.number pass))
      (hlock : ∀ id ∈ ids, L (.lock (.delivery id)))
      (hdue : ∀ id ∈ ids, ∃ x ∈ s.deliveries, x.id = id ∧ x.status = .pending ∧
        x.nextAttemptAt ≠ none) : Change L s (.claim ids) (s.claim ids pass leasedUntil)
  | reopen (id worker : ℕ) (hnumber : L (.number worker)) (hlock : L (.lock (.delivery id)))
      (hthere : ∃ x ∈ s.deliveries, x.id = id) : Change L s (.manual id) (s.reopen id worker)
  | begin (id worker : ℕ) (automatic : Bool) (hnumber : L (.number worker))
      (htaken : s.holder id ≠ none)
      (hnew : ∀ a ∈ s.attempts, a.worker = worker → a.delivery ≠ id)
      (hdue : s.Holds id worker → (∀ x ∈ s.deliveries, x.id = id → x.status = .pending) ∧
        (automatic = true → s.automatic id < maxAttempts)) :
      Change L s (.begin id worker) (s.begin id worker automatic)
  | finish (id worker : ℕ) (f : WebhookDelivery → WebhookDelivery) (hf : ∀ d, (f d).id = d.id)
      (hnumber : L (.number worker)) (hlock : L (.lock (.delivery id)))
      (hopen : ∃ a ∈ s.attempts, a.delivery = id ∧ a.worker = worker ∧ a.Open)
      (hthere : ∃ x ∈ s.deliveries, x.id = id)
      (hcounted : s.Holds id worker → ∀ x ∈ s.deliveries, x.id = id →
        (f x).attempts = x.attempts + 1)
      (hretry : ∀ x, (f x).status = .pending →
        (f x).nextAttemptAt ≠ none ∧ (f x).attempts < maxAttempts) :
      Change L s .plain (s.finish id worker f hf)

/-! ### What holds of the tables -/

/-- What holds as long as everything has been in turn: an attempt that has not been recorded is by
who has taken its delivery last, and the delivery is pending; every automatic attempt that is
recorded is counted; there are not too many; and what had succeeded has so after an automatic
attempt. -/
structure Straight (s : WebhookDb) : Prop where
  holder : ∀ a ∈ s.attempts, a.Open → s.holder a.delivery = some a.worker
  pending : ∀ a ∈ s.attempts, a.Open → ∀ x ∈ s.deliveries, x.id = a.delivery → x.status = .pending
  begun : ∀ x ∈ s.deliveries, s.automatic x.id ≤ x.attempts + 1
  counted : ∀ x ∈ s.deliveries, (∀ a ∈ s.attempts, a.delivery = x.id → ¬a.Open) →
    s.automatic x.id ≤ x.attempts
  capped : ∀ id, s.automatic id ≤ maxAttempts
  settled : ∀ a ∈ s.attempts, a.automatic = true → ∀ status, a.outcome = some (.succeeded, status) →
    status = .succeeded

structure Sound (s : WebhookDb) (n : ℕ) : Prop where
  deliveries : ∀ x ∈ s.deliveries, x.id < n
  workers : ∀ a ∈ s.attempts, a.worker < n
  attempts : ∀ a ∈ s.attempts, s.holder a.delivery ≠ none
  holders : ∀ id k, s.holder id = some k → id < n ∧ k < n
  /-- A delivery that is to be claimed has attempts left. -/
  claimable : ∀ x ∈ s.deliveries, x.status = .pending → x.nextAttemptAt ≠ none →
    x.attempts < maxAttempts
  /-- A worker attempts a delivery once. -/
  single : s.attempts.Pairwise fun a b => a.delivery = b.delivery → a.worker ≠ b.worker
  straight : s.crossed = false → Straight s

theorem NoDeliveries.sound {db : WebhookDb} {n : ℕ} (h : NoDeliveries db) : Sound db n := by
  have hstraight : Straight db := by
    constructor <;> simp [h.deliveries, h.attempts, KeyedTable.notMem_empty, WebhookDb.automatic]
  constructor <;> simp [h.deliveries, h.attempts, h.holder, KeyedTable.notMem_empty, hstraight]

/-! ### Deliveries and attempts after a change -/

section Changes

variable {L : Hold LockKey → Prop} {s s' : WebhookDb} {note : Note} {n : ℕ}

theorem mem_create {rows : List WebhookDelivery} {x : WebhookDelivery}
    (h : x ∈ (s.create rows).deliveries) : x ∈ rows ∨ x ∈ s.deliveries := by
  suffices ∀ t : KeyedTable WebhookDelivery.id, x ∈ rows.foldl .put t → x ∈ rows ∨ x ∈ t from
    this _ h
  clear h
  induction rows with
  | nil => exact fun t h => .inr h
  | cons d rows ih =>
    intro t h
    rcases ih _ h with h | h
    · exact .inl (List.mem_cons_of_mem _ h)
    · rcases KeyedTable.mem_put.mp h with rfl | ⟨h, -⟩
      · exact .inl List.mem_cons_self
      · exact .inr h

/-- A delivery that was there is left by the creation of others. -/
theorem mem_create_of_mem {rows : List WebhookDelivery} {x : WebhookDelivery}
    (h : x ∈ s.deliveries) (hnew : ∀ d ∈ rows, x.id ≠ d.id) : x ∈ (s.create rows).deliveries := by
  suffices ∀ t : KeyedTable WebhookDelivery.id, x ∈ t → x ∈ rows.foldl KeyedTable.put t from
    this _ h
  clear h
  induction rows with
  | nil => exact fun t h => h
  | cons d rows ih =>
    intro t h
    refine ih (fun e he => hnew e (List.mem_cons_of_mem _ he)) _ ?_
    exact KeyedTable.mem_put.mpr (.inr ⟨h, hnew d List.mem_cons_self⟩)

theorem mem_claim {ids : List ℕ} {pass : ℕ} {leasedUntil : Time} {x' : WebhookDelivery} :
    x' ∈ (s.claim ids pass leasedUntil).deliveries ↔
      ∃ x ∈ s.deliveries, x' = if x.id ∈ ids then x.lease leasedUntil else x := by
  refine (KeyedTable.mem_modify (f := WebhookDelivery.lease leasedUntil) fun _ => rfl).trans ?_
  simp only [decide_eq_true_eq]

theorem mem_reopen {id worker : ℕ} {x' : WebhookDelivery} :
    x' ∈ (s.reopen id worker).deliveries ↔
      ∃ x ∈ s.deliveries, x' = if x.id = id then x.reopen else x := by
  refine (KeyedTable.mem_modify (f := WebhookDelivery.reopen) fun _ => rfl).trans ?_
  simp only [decide_eq_true_eq]

theorem mem_finish {id worker : ℕ} {f : WebhookDelivery → WebhookDelivery}
    (hf : ∀ d, (f d).id = d.id) {x' : WebhookDelivery} :
    x' ∈ (s.finish id worker f hf).deliveries ↔
      ∃ x ∈ s.deliveries, x' = if x.id = id then f x else x := by
  refine (KeyedTable.mem_modify hf).trans ?_
  simp only [decide_eq_true_eq]

section Record

variable {delivery worker : ℕ} {outcome : Option (DeliveryStatus × DeliveryStatus)} {a : Attempt}

@[simp] theorem record_delivery : (a.record delivery worker outcome).delivery = a.delivery := by
  unfold Attempt.record
  split <;> rfl

@[simp] theorem record_worker : (a.record delivery worker outcome).worker = a.worker := by
  unfold Attempt.record
  split <;> rfl

@[simp] theorem record_automatic : (a.record delivery worker outcome).automatic = a.automatic := by
  unfold Attempt.record
  split <;> rfl

/-- An attempt is open after another was recorded, if it was and is not the one. -/
theorem record_open (h : outcome ≠ none) : (a.record delivery worker outcome).Open ↔
    a.Open ∧ ¬(a.delivery = delivery ∧ a.worker = worker) := by
  unfold Attempt.record
  split
  · rename_i hrecorded
    exact ⟨fun hopen => absurd hopen h, fun hopen => absurd ⟨hrecorded.1, hrecorded.2.1⟩ hopen.2⟩
  · rename_i hother
    exact ⟨fun hopen => ⟨hopen, fun heq => hother ⟨heq.1, heq.2, hopen⟩⟩, And.left⟩

/-- What is still open was not recorded. -/
theorem record_of_open (h : outcome ≠ none) (hopen : (a.record delivery worker outcome).Open) :
    a.record delivery worker outcome = a := by
  unfold Attempt.record at hopen ⊢
  split
  · rename_i hrecorded
    rw [if_pos hrecorded] at hopen
    exact absurd hopen h
  · rfl

end Record

theorem outcome_ne_none {id : ℕ} (hthere : ∃ x ∈ s.deliveries, x.id = id)
    (f : WebhookDelivery → WebhookDelivery) :
    ((s.findDelivery id).map fun d => (d.status, (f d).status)) ≠ none := by
  obtain ⟨x, hx, rfl⟩ := hthere
  rw [WebhookDb.findDelivery, KeyedTable.find?_of_mem hx]
  exact Option.some_ne_none _

theorem mem_attempts_finish {id worker : ℕ} {f : WebhookDelivery → WebhookDelivery}
    {hf : ∀ d, (f d).id = d.id} {a' : Attempt} :
    a' ∈ (s.finish id worker f hf).attempts ↔ ∃ a ∈ s.attempts, a.record id worker
      ((s.findDelivery id).map fun d => (d.status, (f d).status)) = a' := List.mem_map

/-- Who has taken a delivery is another who holds a number, or the same as before. -/
theorem Change.holder (h : Change L s note s') {id worker : ℕ} (hn : ¬L (.number worker))
    (hholder : s'.holder id = some worker) : s.holder id = some worker := by
  have htake : ∀ (t : WebhookDb) (ids : List ℕ) (k : ℕ), L (.number k) →
      (t.take ids k).holder id = some worker → t.holder id = some worker := by
    intro t ids k hk hholder
    have hholder : (if id ∈ ids then some k else t.holder id) = some worker := hholder
    split at hholder
    · exact absurd (Option.some.inj hholder ▸ hk) hn
    · exact hholder
  cases h with
  | test d worker' hnumber => exact htake (s.create [d]) _ _ hnumber hholder
  | claim ids pass _ hnumber => exact htake { s with deliveries := _ } _ _ hnumber hholder
  | reopen id worker' hnumber => exact htake { s with deliveries := _ } _ _ hnumber hholder
  | _ => exact hholder

/-- Deliveries stay taken. -/
theorem Change.taken (h : Change L s note s') {id : ℕ} (hid : s.holder id ≠ none) :
    s'.holder id ≠ none := by
  have htake : ∀ (t : WebhookDb) (ids : List ℕ) (k : ℕ), t.holder id = s.holder id →
      (t.take ids k).holder id ≠ none := by
    intro t ids k ht
    change (if id ∈ ids then some k else t.holder id) ≠ none
    split
    · exact Option.some_ne_none k
    · rwa [ht]
  cases h with
  | test d worker => exact htake (s.create [d]) _ _ rfl
  | claim => exact htake { s with deliveries := _ } _ _ rfl
  | reopen => exact htake { s with deliveries := _ } _ _ rfl
  | _ => exact hid

/-- What was out of turn stays so. -/
theorem Change.straight (h : Change L s note s') (hs' : s'.crossed = false) : s.crossed = false := by
  cases h with
  | test => exact (Bool.or_eq_false_iff.mp hs').1
  | claim => exact (Bool.or_eq_false_iff.mp hs').1
  | reopen => exact (Bool.or_eq_false_iff.mp hs').1
  | begin => exact (Bool.or_eq_false_iff.mp hs').1
  | _ => exact hs'

/-- Attempts are those of before, in perhaps another state, or begin now. -/
theorem Change.attempt (h : Change L s note s') {a' : Attempt} (ha' : a' ∈ s'.attempts) :
    (∃ a ∈ s.attempts, a'.delivery = a.delivery ∧ a'.worker = a.worker ∧ (a'.Open → a' = a)) ∨
      L (.number a'.worker) ∧ s.holder a'.delivery ≠ none := by
  have hsame : a' ∈ s.attempts → ∃ a ∈ s.attempts, a'.delivery = a.delivery ∧
      a'.worker = a.worker ∧ (a'.Open → a' = a) := fun ha => ⟨a', ha, rfl, rfl, fun _ => rfl⟩
  cases h with
  | begin id worker automatic hnumber htaken =>
    rcases List.mem_append.mp ha' with ha | ha
    · exact .inl (hsame ha)
    · obtain rfl := List.mem_singleton.mp ha
      exact .inr ⟨hnumber, htaken⟩
  | finish id worker f hf _ _ _ hthere =>
    obtain ⟨a, ha, rfl⟩ := mem_attempts_finish.mp ha'
    exact .inl ⟨a, ha, record_delivery, record_worker, record_of_open (outcome_ne_none hthere f)⟩
  | _ => exact .inl (hsame ha')

theorem automatic_finish (id worker : ℕ) (f : WebhookDelivery → WebhookDelivery)
    (hf : ∀ d, (f d).id = d.id) (k : ℕ) :
    (s.finish id worker f hf).automatic k = s.automatic k := by
  refine (List.countP_map ..).trans (List.countP_congr fun a _ => ?_)
  rw [Function.comp_apply, record_automatic, record_delivery]

theorem automatic_begin (id worker : ℕ) (automatic : Bool) (k : ℕ) :
    (s.begin id worker automatic).automatic k =
      s.automatic k + if automatic = true ∧ id = k then 1 else 0 := by
  refine (List.countP_append ..).trans (congrArg _ (List.countP_singleton.trans ?_))
  simp only [decide_eq_true_eq]

/-- While a worker is the last to have taken a delivery, and all is in turn, the others leave it as
it is. -/
theorem Change.held (h : Change L s note s') (hs : Sound s n) {id worker : ℕ}
    (hn : ¬L (.number worker)) (hid : s.holder id ≠ none) (hholds : s'.Holds id worker) :
    s.Holds id worker ∧ (∀ x ∈ s'.deliveries, x.id = id → x ∈ s.deliveries) ∧
      s'.automatic id = s.automatic id := by
  have hbefore : s.Holds id worker := ⟨h.straight hholds.straight, h.holder hn hholds.holder⟩
  have hnot : ∀ (t : WebhookDb) (ids : List ℕ) (k : ℕ), L (.number k) →
      (t.take ids k).holder id = some worker → id ∉ ids := by
    intro t ids k hk hholder hmem
    have hholder : (if id ∈ ids then some k else t.holder id) = some worker := hholder
    rw [if_pos hmem] at hholder
    exact hn (Option.some.inj hholder ▸ hk)
  refine ⟨hbefore, ?_⟩
  cases h with
  | rest => exact ⟨fun x hx _ => hx, rfl⟩
  | remove => exact ⟨fun x hx _ => (KeyedTable.mem_delete.mp hx).1, rfl⟩
  | create rows _ hnew =>
    refine ⟨fun x hx hxid => (mem_create hx).resolve_left fun hx => hid ?_, rfl⟩
    rw [← hxid]
    exact (hnew x hx).untaken
  | test d worker' hnumber _ hnew =>
    refine ⟨fun x hx hxid => (mem_create hx).resolve_left fun hx => hid ?_, rfl⟩
    rw [← hxid, List.mem_singleton.mp hx]
    exact hnew.untaken
  | claim ids pass leasedUntil hnumber =>
    have hne := hnot { s with deliveries := _ } ids pass hnumber hholds.holder
    refine ⟨fun x' hx' hxid => ?_, rfl⟩
    obtain ⟨x, hx, rfl⟩ := mem_claim.mp hx'
    split at hxid
    · rename_i hmem
      exact absurd (hxid ▸ hmem) hne
    · rw [if_neg ‹_›]
      exact hx
  | reopen id' worker' hnumber =>
    have hne := hnot { s with deliveries := _ } [id'] worker' hnumber hholds.holder
    refine ⟨fun x' hx' hxid => ?_, rfl⟩
    obtain ⟨x, hx, rfl⟩ := mem_reopen.mp hx'
    split at hxid
    · rename_i hmem
      exact absurd (List.mem_singleton.mpr (hxid.symm.trans hmem)) hne
    · rw [if_neg ‹_›]
      exact hx
  | begin id' worker' automatic hnumber =>
    refine ⟨fun x hx _ => hx, (automatic_begin ..).trans ?_⟩
    have hholder := (Bool.or_eq_false_iff.mp hholds.straight).2
    rw [if_neg, Nat.add_zero]
    rintro ⟨-, rfl⟩
    have heq : s.holder id' = some worker' := by simpa using hholder
    exact hn (Option.some.inj (heq.symm.trans hbefore.holder) ▸ hnumber)
  | finish id' worker' f hf hnumber _ hopen =>
    refine ⟨fun x' hx' hxid => ?_, automatic_finish ..⟩
    obtain ⟨x, hx, rfl⟩ := (mem_finish hf).mp hx'
    split at hxid
    · rename_i hmem
      obtain ⟨a, ha, hadelivery, rfl, haopen⟩ := hopen
      have hholder := (hs.straight hbefore.straight).holder a ha haopen
      rw [hadelivery, ← hmem, ← hf x, hxid, hbefore.holder] at hholder
      exact absurd (Option.some.inj hholder ▸ hnumber) hn
    · rw [if_neg ‹_›]
      exact hx

/-- Only who has locked a delivery changes it. -/
theorem Change.locked (h : Change L s note s') {x : WebhookDelivery} (hx : x ∈ s.deliveries)
    (hlock : ¬L (.lock (.delivery x.id))) : x ∈ s'.deliveries := by
  cases h with
  | rest => exact hx
  | remove endpoints ids hids =>
    exact KeyedTable.mem_delete.mpr ⟨hx, decide_eq_false fun hmem => hlock (hids _ hmem)⟩
  | create rows _ hnew => exact mem_create_of_mem hx fun d hd => (hnew d hd).fresh x hx
  | test d worker _ _ hnew =>
    exact mem_create_of_mem hx fun e he => List.mem_singleton.mp he ▸ hnew.fresh x hx
  | claim ids pass leasedUntil _ hids =>
    exact mem_claim.mpr ⟨x, hx, (if_neg fun hmem => hlock (hids _ hmem)).symm⟩
  | reopen id worker _ hid =>
    exact mem_reopen.mpr ⟨x, hx, (if_neg fun heq : x.id = id => hlock (heq ▸ hid)).symm⟩
  | begin => exact hx
  | finish id worker f hf _ hid =>
    exact (mem_finish hf).mpr ⟨x, hx, (if_neg fun heq : x.id = id => hlock (heq ▸ hid)).symm⟩

/-! ### Soundness is kept -/

/-- Deliveries are those of before, in perhaps another state, or new. -/
theorem Change.delivery (h : Change L s note s') {x' : WebhookDelivery} (hx' : x' ∈ s'.deliveries) :
    (∃ x ∈ s.deliveries, x'.id = x.id) ∨ L (.number x'.id) := by
  have hmodify : ∀ (c : Prop) [Decidable c] (f : WebhookDelivery → WebhookDelivery) (x),
      (f x).id = x.id → (if c then f x else x).id = x.id := by
    intro c _ f x hf
    split
    · exact hf
    · rfl
  cases h with
  | rest => exact .inl ⟨x', hx', rfl⟩
  | remove => exact .inl ⟨x', (KeyedTable.mem_delete.mp hx').1, rfl⟩
  | create rows hnumber =>
    exact (mem_create hx').elim (fun hx => .inr (hnumber x' hx)) fun hx => .inl ⟨x', hx, rfl⟩
  | test d worker _ hid =>
    exact (mem_create hx').elim (fun hx => .inr (List.mem_singleton.mp hx ▸ hid))
      fun hx => .inl ⟨x', hx, rfl⟩
  | claim =>
    obtain ⟨x, hx, rfl⟩ := mem_claim.mp hx'
    exact .inl ⟨x, hx, hmodify _ (·.lease _) x rfl⟩
  | reopen =>
    obtain ⟨x, hx, rfl⟩ := mem_reopen.mp hx'
    exact .inl ⟨x, hx, hmodify _ (·.reopen) x rfl⟩
  | begin => exact .inl ⟨x', hx', rfl⟩
  | finish id worker f hf =>
    obtain ⟨x, hx, rfl⟩ := (mem_finish hf).mp hx'
    exact .inl ⟨x, hx, hmodify _ f x (hf x)⟩

theorem Change.single (h : Change L s note s') (hs : Sound s n) :
    s'.attempts.Pairwise fun a b => a.delivery = b.delivery → a.worker ≠ b.worker := by
  cases h with
  | begin id worker automatic hnumber htaken hnew =>
    refine List.pairwise_append.mpr ⟨hs.single, List.pairwise_singleton .., fun a ha b hb => ?_⟩
    obtain rfl := List.mem_singleton.mp hb
    exact fun hid hworker => hnew a ha hworker hid
  | finish =>
    refine List.pairwise_map.mpr (hs.single.imp fun {a b} hab => ?_)
    rwa [record_delivery, record_delivery, record_worker, record_worker]
  | _ => exact hs.single

theorem Change.claimable (h : Change L s note s') (hs : Sound s n) : ∀ x ∈ s'.deliveries,
    x.status = .pending → x.nextAttemptAt ≠ none → x.attempts < maxAttempts := by
  intro x' hx' hstatus hdue
  cases h with
  | rest => exact hs.claimable x' hx' hstatus hdue
  | remove => exact hs.claimable x' (KeyedTable.mem_delete.mp hx').1 hstatus hdue
  | create rows _ hnew =>
    rcases mem_create hx' with hx | hx
    · rw [(hnew x' hx).attempts]
      exact Nat.zero_lt_succ _
    · exact hs.claimable x' hx hstatus hdue
  | test d worker _ _ _ hnone =>
    rcases mem_create hx' with hx | hx
    · exact absurd (List.mem_singleton.mp hx ▸ hnone) hdue
    · exact hs.claimable x' hx hstatus hdue
  | claim ids pass leasedUntil _ _ hids =>
    obtain ⟨x, hx, rfl⟩ := mem_claim.mp hx'
    by_cases hmem : x.id ∈ ids
    · rw [if_pos hmem]
      obtain ⟨y, hy, hyid, hpending, hdue⟩ := hids _ hmem
      rw [KeyedTable.eq_of_mem hy hx hyid] at hpending hdue
      exact hs.claimable x hx hpending hdue
    · rw [if_neg hmem] at hstatus hdue ⊢
      exact hs.claimable x hx hstatus hdue
  | reopen =>
    obtain ⟨x, hx, rfl⟩ := mem_reopen.mp hx'
    split at hdue
    · exact absurd rfl hdue
    · rw [if_neg ‹_›] at hstatus ⊢
      exact hs.claimable x hx hstatus hdue
  | begin => exact hs.claimable x' hx' hstatus hdue
  | finish id worker f hf _ _ _ _ _ hretry =>
    obtain ⟨x, hx, rfl⟩ := (mem_finish hf).mp hx'
    split at hstatus
    · rw [if_pos ‹_›]
      exact (hretry x hstatus).2
    · rw [if_neg ‹_›] at hdue ⊢
      exact hs.claimable x hx hstatus hdue

/-- The delivery of an attempt that has just begun was not attempted by anyone else. -/
theorem Straight.none_open (h : Straight s) {id worker : ℕ} (hholder : s.holder id = some worker)
    (hnew : ∀ a ∈ s.attempts, a.worker = worker → a.delivery ≠ id) :
    ∀ a ∈ s.attempts, a.delivery = id → ¬a.Open := by
  rintro a ha rfl hopen
  exact hnew a ha (Option.some.inj ((h.holder a ha hopen).symm.trans hholder)) rfl

theorem WebhookDelivery.New.automatic {d : WebhookDelivery} (h : d.New s) : s.automatic d.id = 0 := by
  refine List.countP_eq_zero.mpr fun a ha hcounted => ?_
  exact h.unattempted a ha (of_decide_eq_true hcounted).2

/-- The attempts are left, no one takes a delivery that is attempted, and deliveries are left but for
what does not count, or are new. -/
theorem Straight.keep (h : Straight s) (hattempts : s'.attempts = s.attempts)
    (hholder : ∀ a ∈ s.attempts, a.Open → s'.holder a.delivery = s.holder a.delivery)
    (hdeliveries : ∀ x' ∈ s'.deliveries, (∃ x ∈ s.deliveries, x'.id = x.id ∧
      x'.attempts = x.attempts ∧ (x.status = .pending → x'.status = .pending)) ∨ x'.New s) :
    Straight s' := by
  have hautomatic : ∀ id, s'.automatic id = s.automatic id := fun id => by
    rw [WebhookDb.automatic, hattempts]
    rfl
  refine ⟨fun a ha hopen => ?_, fun a ha hopen x' hx' hid => ?_, fun x' hx' => ?_,
    fun x' hx' hnone => ?_, fun id => ?_, ?_⟩
  · rw [hattempts] at ha
    exact (hholder a ha hopen).trans (h.holder a ha hopen)
  · rw [hattempts] at ha
    rcases hdeliveries x' hx' with ⟨x, hx, hxid, -, hpending⟩ | hnew
    · exact hpending (h.pending a ha hopen x hx (hxid.symm.trans hid))
    · exact hnew.status
  · rw [hautomatic]
    rcases hdeliveries x' hx' with ⟨x, hx, hxid, hcount, -⟩ | hnew
    · rw [hxid, hcount]
      exact h.begun x hx
    · rw [hnew.automatic]
      exact Nat.zero_le _
  · rw [hattempts] at hnone
    rw [hautomatic]
    rcases hdeliveries x' hx' with ⟨x, hx, hxid, hcount, -⟩ | hnew
    · rw [hxid] at hnone ⊢
      rw [hcount]
      exact h.counted x hx hnone
    · rw [hnew.automatic]
      exact Nat.zero_le _
  · rw [hautomatic]
    exact h.capped id
  · rw [hattempts]
    exact h.settled

/-- An attempt begins, by who is the last to have taken the delivery. -/
theorem Straight.begin (h : Straight s) {id worker : ℕ} {automatic : Bool}
    (hholder : s.holder id = some worker)
    (hnew : ∀ a ∈ s.attempts, a.worker = worker → a.delivery ≠ id)
    (hpending : ∀ x ∈ s.deliveries, x.id = id → x.status = .pending)
    (hleft : automatic = true → s.automatic id < maxAttempts) :
    Straight (s.begin id worker automatic) := by
  have hnone := h.none_open hholder hnew
  have hmem : ∀ a, a ∈ (s.begin id worker automatic).attempts → a ∈ s.attempts ∨
      a = ⟨id, worker, automatic, none⟩ := fun a ha =>
    (List.mem_append.mp ha).imp_right List.mem_singleton.mp
  refine ⟨fun a ha hopen => ?_, fun a ha hopen x hx hid => ?_, fun x hx => ?_, fun x hx hall => ?_,
    fun k => ?_, fun a ha hautomatic status hsettled => ?_⟩
  · rcases hmem a ha with ha | rfl
    · exact h.holder a ha hopen
    · exact hholder
  · rcases hmem a ha with ha | rfl
    · exact h.pending a ha hopen x hx hid
    · exact hpending x hx hid
  · have hx : x ∈ s.deliveries := hx
    rw [automatic_begin]
    split
    · rename_i hbegun
      rw [hbegun.2] at hnone
      exact Nat.add_le_add_right (h.counted x hx hnone) 1
    · exact h.begun x hx
  · have hx : x ∈ s.deliveries := hx
    rw [automatic_begin, if_neg, Nat.add_zero]
    · exact h.counted x hx fun a ha => hall a (List.mem_append_left _ ha)
    · rintro ⟨-, rfl⟩
      exact hall _ (List.mem_append_right _ (List.mem_singleton.mpr rfl)) rfl rfl
  · rw [automatic_begin]
    split
    · rename_i hbegun
      rw [← hbegun.2]
      exact hleft hbegun.1
    · exact h.capped k
  · rcases hmem a ha with ha | rfl
    · exact h.settled a ha hautomatic status hsettled
    · cases hsettled

/-- The outcome of an attempt is recorded. -/
theorem Straight.finish (h : Straight s) {id worker : ℕ} {f : WebhookDelivery → WebhookDelivery}
    {hf : ∀ d, (f d).id = d.id}
    (hopen : ∃ a ∈ s.attempts, a.delivery = id ∧ a.worker = worker ∧ a.Open)
    (hthere : ∃ x ∈ s.deliveries, x.id = id)
    (hcounted : ∀ x ∈ s.deliveries, x.id = id → (f x).attempts = x.attempts + 1) :
    Straight (s.finish id worker f hf) := by
  obtain ⟨a₀, ha₀, rfl, rfl, hopen₀⟩ := hopen
  have houtcome := outcome_ne_none hthere f
  -- no one else attempts the delivery
  have hother : ∀ a ∈ s.attempts, a.Open → a.delivery = a₀.delivery → a.worker = a₀.worker := by
    intro a ha hopen hid
    have hholder := h.holder a ha hopen
    rw [hid, h.holder a₀ ha₀ hopen₀] at hholder
    exact (Option.some.inj hholder).symm
  refine ⟨fun a' ha' hopen => ?_, fun a' ha' hopen x' hx' hid => ?_, fun x' hx' => ?_,
    fun x' hx' hnone => ?_, fun k => ?_, fun a' ha' hautomatic status hsettled => ?_⟩
  · obtain ⟨a, ha, rfl⟩ := mem_attempts_finish.mp ha'
    rw [record_delivery, record_worker]
    exact h.holder a ha ((record_open houtcome).mp hopen).1
  · obtain ⟨a, ha, rfl⟩ := mem_attempts_finish.mp ha'
    obtain ⟨x, hx, rfl⟩ := (mem_finish hf).mp hx'
    obtain ⟨haopen, hne⟩ := (record_open houtcome).mp hopen
    rw [record_delivery] at hid
    split at hid
    · rename_i hxid
      have had : a.delivery = a₀.delivery := hid.symm.trans ((hf x).trans hxid)
      exact absurd ⟨had, hother a ha haopen had⟩ hne
    · rw [if_neg ‹_›]
      exact h.pending a ha haopen x hx hid
  · obtain ⟨x, hx, rfl⟩ := (mem_finish hf).mp hx'
    rw [automatic_finish]
    have hbegun := h.begun x hx
    split
    · rename_i hxid
      rw [hf, hcounted x hx hxid]
      exact hbegun.trans (Nat.le_succ _)
    · exact hbegun
  · obtain ⟨x, hx, rfl⟩ := (mem_finish hf).mp hx'
    rw [automatic_finish]
    by_cases hxid : x.id = a₀.delivery
    · rw [if_pos hxid, hf, hcounted x hx hxid]
      exact h.begun x hx
    · rw [if_neg hxid] at hnone ⊢
      refine h.counted x hx fun a ha hid hopen => ?_
      refine hnone _ (mem_attempts_finish.mpr ⟨a, ha, rfl⟩) (record_delivery.trans hid)
        ((record_open houtcome).mpr ⟨hopen, fun heq => hxid (hid.symm.trans heq.1)⟩)
  · rw [automatic_finish]
    exact h.capped k
  · obtain ⟨a, ha, rfl⟩ := mem_attempts_finish.mp ha'
    rw [record_automatic] at hautomatic
    unfold Attempt.record at hsettled
    split at hsettled
    · rename_i hrecorded
      obtain ⟨x, hx, hxid⟩ := hthere
      rw [WebhookDb.findDelivery, ← hxid, KeyedTable.find?_of_mem hx] at hsettled
      have hstatus : x.status = .succeeded := congrArg Prod.fst (Option.some.inj hsettled)
      rw [h.pending a₀ ha₀ hopen₀ x hx hxid] at hstatus
      cases hstatus
    · exact h.settled a ha hautomatic status hsettled

theorem Change.keeps_straight (h : Change L s note s') (hs : Sound s n) (hs' : s'.crossed = false) :
    Straight s' := by
  have hstraight := hs.straight (h.straight hs')
  -- who takes deliveries finds none of them attempted
  have hnone : ∀ (t : WebhookDb) (ids : List ℕ) (k : ℕ), t.attempts = s.attempts →
      (t.take ids k).crossed = false → ∀ a ∈ s.attempts, a.Open →
        (t.take ids k).holder a.delivery = t.holder a.delivery := by
    intro t ids k hattempts hcrossed a ha hopen
    refine if_neg fun hmem => ?_
    have hfalse := List.any_eq_false.mp (Bool.or_eq_false_iff.mp hcrossed).2 a (hattempts ▸ ha)
    exact hfalse (decide_eq_true ⟨hmem, hopen⟩)
  have hsame : ∀ x : WebhookDelivery, x ∈ s.deliveries → ∃ y ∈ s.deliveries, x.id = y.id ∧
      x.attempts = y.attempts ∧ (y.status = .pending → x.status = .pending) := fun x hx =>
    ⟨x, hx, rfl, rfl, id⟩
  cases h with
  | rest => exact hstraight.keep rfl (fun _ _ _ => rfl) fun x hx => .inl (hsame x hx)
  | remove =>
    exact hstraight.keep rfl (fun _ _ _ => rfl) fun x hx =>
      .inl (hsame x (KeyedTable.mem_delete.mp hx).1)
  | create rows _ hnew =>
    exact hstraight.keep rfl (fun _ _ _ => rfl) fun x hx =>
      (mem_create hx).symm.imp (hsame x) (hnew x)
  | test d worker _ _ hnew =>
    refine hstraight.keep rfl (hnone (s.create [d]) _ _ rfl hs') fun x hx =>
      (mem_create hx).symm.imp (hsame x) fun hx => ?_
    exact List.mem_singleton.mp hx ▸ hnew
  | claim ids pass leasedUntil =>
    refine hstraight.keep rfl (hnone { s with deliveries := _ } _ _ rfl hs') fun x' hx' => .inl ?_
    obtain ⟨x, hx, rfl⟩ := mem_claim.mp hx'
    split
    · exact ⟨x, hx, rfl, rfl, id⟩
    · exact hsame x hx
  | reopen id worker =>
    refine hstraight.keep rfl (hnone { s with deliveries := _ } _ _ rfl hs') fun x' hx' => .inl ?_
    obtain ⟨x, hx, rfl⟩ := mem_reopen.mp hx'
    split
    · exact ⟨x, hx, rfl, rfl, fun _ => rfl⟩
    · exact hsame x hx
  | begin id worker automatic _ _ hnew hdue =>
    have hholder : s.holder id = some worker := by
      simpa using (Bool.or_eq_false_iff.mp hs').2
    have hdue := hdue ⟨(Bool.or_eq_false_iff.mp hs').1, hholder⟩
    exact hstraight.begin hholder hnew hdue.1 hdue.2
  | finish id worker f hf _ _ hopen hthere hcounted =>
    refine hstraight.finish hopen hthere (hcounted ⟨hs', ?_⟩)
    obtain ⟨a, ha, rfl, rfl, haopen⟩ := hopen
    exact hstraight.holder a ha haopen

theorem Change.holders (h : Change L s note s') (hs : Sound s n)
    (hdrawn : ∀ m, L (.number m) → m < n) :
    ∀ id k, s'.holder id = some k → id < n ∧ k < n := by
  have htake : ∀ (t : WebhookDb) (ids : List ℕ) (k : ℕ), t.holder = s.holder → L (.number k) →
      (∀ id ∈ ids, id < n) → ∀ id m, (t.take ids k).holder id = some m → id < n ∧ m < n := by
    intro t ids k ht hk hids id m hm
    have hm : (if id ∈ ids then some k else t.holder id) = some m := hm
    split at hm
    · rename_i hmem
      exact ⟨hids id hmem, Option.some.inj hm ▸ hdrawn k hk⟩
    · rw [ht] at hm
      exact hs.holders id m hm
  cases h with
  | test d worker hnumber hid =>
    exact htake (s.create [d]) _ _ rfl hnumber fun id hmem =>
      List.mem_singleton.mp hmem ▸ hdrawn _ hid
  | claim ids pass _ hnumber _ hdue =>
    refine htake { s with deliveries := _ } _ _ rfl hnumber fun id hmem => ?_
    obtain ⟨x, hx, rfl, -⟩ := hdue id hmem
    exact hs.deliveries x hx
  | reopen id worker hnumber _ hthere =>
    refine htake { s with deliveries := _ } _ _ rfl hnumber fun k hmem => ?_
    obtain ⟨x, hx, rfl⟩ := hthere
    exact List.mem_singleton.mp hmem ▸ hs.deliveries x hx
  | _ => exact hs.holders

/-- Changes keep the tables sound. -/
theorem Change.sound (h : Change L s note s') (hs : Sound s n)
    (hdrawn : ∀ m, L (.number m) → m < n) : Sound s' n where
  deliveries x' hx' := by
    rcases h.delivery hx' with ⟨x, hx, hid⟩ | hnumber
    · exact hid ▸ hs.deliveries x hx
    · exact hdrawn _ hnumber
  workers a' ha' := by
    rcases h.attempt ha' with ⟨a, ha, -, hworker, -⟩ | ⟨hnumber, -⟩
    · exact hworker ▸ hs.workers a ha
    · exact hdrawn _ hnumber
  attempts a' ha' := by
    rcases h.attempt ha' with ⟨a, ha, hid, -⟩ | ⟨-, htaken⟩
    · exact h.taken (hid ▸ hs.attempts a ha)
    · exact h.taken htaken
  holders := h.holders hs hdrawn
  claimable := h.claimable hs
  single := h.single hs
  straight := h.keeps_straight hs

end Changes

end StelloKitchens.Webhooks
