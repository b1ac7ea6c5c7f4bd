import StelloKitchens.Mfa.Kept

/-!
# The second factor stays on

A setup reads whether the second factor is off, and stores its secret later; a confirmation checks a
code with the secret that it read, and enables what is stored later. Between the two statements the
user may have confirmed another secret, which is then replaced.

## Main definitions

* `StaysOn` — what was confirmed is on, until who has signed again disables it.
* `staysAdmits` — setups are stored while the second factor is off, and confirmations while the
  secret is the one that was confirmed.

## Main results

* `stays_on` — the second factor over all interleavings.
-/

namespace StelloKitchens.Mfa

open Process
open Accounts (hashPassword)

/-! ### What was confirmed -/

/-- The secret that a user has confirmed, after this event. -/
def MfaEvent.confirmedNow (userId : ℕ) (last : Option String) : MfaEvent → Option String
  | .confirmed id secret => if id = userId then some secret else last
  | .disabled id _ => if id = userId then none else last
  | .reauthenticated _ _ => last

/-- The secret that a user has confirmed, unless the second factor has been disabled since. -/
def confirmedSecret (userId : ℕ) (log : List MfaEvent) : Option String :=
  log.foldl (MfaEvent.confirmedNow userId) none

/-- Who disabled a second factor had signed again before. -/
def Signed (log : List MfaEvent) : Prop :=
  ∀ before userId number after, log = before ++ .disabled userId number :: after →
    .reauthenticated userId number ∈ before

/-- The user's second factor is on, with this secret. -/
def MfaDb.OnWith (db : MfaDb) (userId : ℕ) (secret : String) : Prop :=
  ∃ row ∈ db.userMfa, row.userId = userId ∧ row.enabledAt ≠ none ∧ openSecret row.secretEnc = secret

/-- What was confirmed is on, until who has signed again disables it. -/
structure StaysOn (db : MfaDb) : Prop where
  on : ∀ userId secret, confirmedSecret userId db.log = some secret → db.OnWith userId secret
  signed : Signed db.log

/-- Setups are stored while the second factor is off, and confirmations while the secret is the one
that was confirmed. -/
def staysAdmits : Note → (Hold LockKey → Prop) → MfaDb → Prop
  | .setup userId, _, s => ∀ row ∈ s.userMfa.find? userId, row.enabledAt = none
  | .confirm userId _ secret, _, s =>
    ∀ row ∈ s.userMfa.find? userId, openSecret row.secretEnc = secret
  | _, _, _ => True

instance (note : Note) (held : List (Hold LockKey)) (s : MfaDb) :
    Decidable (staysAdmits note (· ∈ held) s) :=
  match note with
  | .plain => .isTrue trivial
  | .setup userId =>
    inferInstanceAs (Decidable (∀ row ∈ s.userMfa.find? userId, row.enabledAt = none))
  | .confirm userId _ secret =>
    inferInstanceAs (Decidable (∀ row ∈ s.userMfa.find? userId, openSecret row.secretEnc = secret))
  | .verify _ _ => .isTrue trivial

/-! ### Events -/

variable {userId : ℕ} {log : List MfaEvent} {e : MfaEvent}

theorem confirmedSecret_append :
    confirmedSecret userId (log ++ [e]) = e.confirmedNow userId (confirmedSecret userId log) :=
  List.foldl_append

theorem Signed.append (h : Signed log)
    (he : ∀ userId number, e = .disabled userId number → .reauthenticated userId number ∈ log) :
    Signed (log ++ [e]) := by
  intro before userId number after heq
  rcases after.eq_nil_or_concat with rfl | ⟨after, last, rfl⟩
  · obtain ⟨rfl, hlast⟩ := List.append_inj' heq rfl
    exact he userId number (List.singleton_inj.mp hlast)
  · rw [List.concat_eq_append, ← List.cons_append, ← List.append_assoc] at heq
    exact h before userId number after (List.append_inj' heq rfl).1

/-! ### What changes keep -/

variable {mac : Mac} {L : Hold LockKey → Prop} {s s' : MfaDb} {note : Note}

/-- Who disables has signed again. -/
theorem Change.signed (h : Change mac L s note s') (hs : Signed s.log) : Signed s'.log := by
  cases h with
  | confirm => exact hs.append fun _ _ h => by cases h
  | passed => exact hs.append fun _ _ h => by cases h
  | disable userId number _ _ _ _ hsigned =>
    refine hs.append fun _ _ h => ?_
    cases h
    exact hsigned
  | _ => exact hs

/-- A second factor that is on stays on with the same secret where what is stored is admitted, unless
it is disabled. -/
theorem Change.onWith (h : Change mac L s note s') (hadmits : staysAdmits note L s) {secret : String}
    (hsecret : confirmedSecret userId s'.log = some secret)
    (hs : ∀ secret, confirmedSecret userId s.log = some secret → s.OnWith userId secret) :
    s'.OnWith userId secret := by
  cases h with
  | setup id tenantId _ _ =>
    obtain ⟨row, hrow, rfl, henabled, hopen⟩ := hs secret hsecret
    have hne : row.userId ≠ id := by
      rintro rfl
      exact henabled (hadmits row (KeyedTable.find?_of_mem hrow))
    refine ⟨row, ?_, rfl, henabled, hopen⟩
    rw [MfaDb.setup, KeyedTable.mem_upsert]
    exact .inr ⟨hrow, hne⟩
  | confirm now found step code user old new hlock hcodes hcode hrow =>
    have hlog : confirmedSecret userId
        (s.log ++ [.confirmed found.userId (openSecret found.secretEnc)]) = some secret := hsecret
    rw [confirmedSecret_append, MfaEvent.confirmedNow] at hlog
    by_cases hid : found.userId = userId
    · rw [if_pos hid] at hlog
      obtain ⟨row, hrow, hrowId⟩ := hrow
      refine ⟨_, (mem_confirm code).mpr ⟨row, hrow, rfl⟩, ?_⟩
      rw [if_pos hrowId]
      refine ⟨hrowId.trans hid, Option.some_ne_none now, ?_⟩
      exact (hadmits row (hrowId ▸ KeyedTable.find?_of_mem hrow)).trans (Option.some.inj hlog)
    · rw [if_neg hid] at hlog
      obtain ⟨row, hrow, rfl, henabled, hopen⟩ := hs secret hlog
      refine ⟨row, (mem_confirm code).mpr ⟨row, hrow, ?_⟩, rfl, henabled, hopen⟩
      rw [if_neg (Ne.symm hid)]
  | claim found step code =>
    obtain ⟨row, hrow, hid, henabled, hopen⟩ := hs secret hsecret
    refine ⟨_, mem_claim.mpr ⟨row, hrow, rfl⟩, ?_⟩
    split <;> exact ⟨hid, henabled, hopen⟩
  | passed id number =>
    rw [confirmedSecret_append] at hsecret
    exact hs secret hsecret
  | disable id number old present =>
    have hlog : confirmedSecret userId (s.log ++ [.disabled id number]) = some secret := hsecret
    rw [confirmedSecret_append, MfaEvent.confirmedNow] at hlog
    by_cases hid : id = userId
    · rw [if_pos hid] at hlog
      cases hlog
    · rw [if_neg hid] at hlog
      obtain ⟨row, hrow, rfl, hkept⟩ := hs secret hlog
      refine ⟨row, ?_, rfl, hkept⟩
      cases present with
      | false => exact hrow
      | true => exact KeyedTable.mem_delete.mpr ⟨hrow, decide_eq_false (Ne.symm hid)⟩
  | _ => exact hs secret hsecret

/-- In every interleaving in which setups are stored while the second factor is off, and
confirmations while the secret is the one that was confirmed, what was confirmed is on until who has
signed again disables it. -/
theorem stays_on (mac : Mac) (w : MfaWorld) (h : (mfa mac).Reach (World.Admits staysAdmits) w) :
    StaysOn w.db := by
  refine mfa_invariant (I := StaysOn) (fun s hs => ⟨fun userId secret hsecret => ?_, ?_⟩)
    (fun L s note s' _ hadmits hchange hs => ⟨fun userId secret hsecret => ?_, ?_⟩) h
  · rw [hs.log] at hsecret
    cases hsecret
  · rw [hs.log]
    exact fun before _ _ _ heq => by cases before <;> cases heq
  · exact hchange.onWith hadmits hsecret (hs.on userId)
  · exact hchange.signed hs.signed

/-! ### A setup that finishes late -/

/-- The keyed hash of the first counters under the key of ascending digits. -/
def digests : List ℕ :=
  [0xcc93cf18508d94934c64b65d8ba7667fb7cde4b0, 0x75a48a19d4cbe100644e8ac1397eea747a2d33ab,
    0x0bacb7fa082fef30782211938bc1c5e70416ff44, 0x66c28227d03a2d5529262ff016a1e6ef76557ece]

def digestMac : Mac := fun _ msg i =>
  UInt8.ofNat (digests.getD (msg.getD 7 0).toNat 0 >>> (8 * (19 - i.val)))

/-- The key of ascending digits. -/
def digitsKey : List UInt8 :=
  [49, 50, 51, 52, 53, 54, 55, 56, 57, 48, 49, 50, 51, 52, 53, 54, 55, 56, 57, 48]

/-- No one has a second factor. -/
def unprotected : MfaDb where
  now := 60000
  users := .put .empty ⟨1, hashPassword "kitchen"⟩
  userMfa := .empty
  recoveryCodes := .empty
  tenantSecurity := .empty
  enrolments := 0
  generations := 0
  log := []
  accepted := []
  recovered := []

theorem unprotected_started : Started unprotected where
  enrolments _ h := absurd h (KeyedTable.notMem_empty _)
  distinct _ h := absurd h (KeyedTable.notMem_empty _)
  generations _ h := absurd h (KeyedTable.notMem_empty _)
  log := rfl
  accepted := rfl
  recovered := rfl

theorem unprotected_init (mac : Mac) : (mfa mac).init (.atRest unprotected 0) :=
  ⟨unprotected_started, rfl, rfl⟩

/-- A cashier. -/
def asha : Accounts.AuthUser := ⟨1, 7, ["orders.create"]⟩

/-- Recovery codes of one character each. -/
def plainSeeds : CodeSeeds := fun i => List.replicate 12 (UInt8.ofNat i)

/-- A request runs until it ends or waits. -/
def mfaRun (slot : ℕ) (request : MfaRequest) : List (WorldAction MfaRequest Empty) :=
  .start slot request :: WorldAction.steps slot 60

/-- A setup has done this many steps when another one is begun and confirmed, and then goes on. -/
def lateRun (steps : ℕ) : List (WorldAction MfaRequest Empty) :=
  .start 1 (.beginSetup asha []) :: WorldAction.steps 1 steps ++
    mfaRun 2 (.beginSetup asha digitsKey) ++ mfaRun 2 (.confirmSetup asha "359152" plainSeeds) ++
    WorldAction.steps 1 60

/-- A setup that finishes after another was confirmed turns the second factor off. -/
theorem not_stays_on : ¬∀ mac w, (mfa mac).Reachable w → StaysOn w.db := by
  intro h
  obtain ⟨row, hrow, hid, henabled, -⟩ := (h digestMac _ (Machine.reachable_run (lateRun 1)
    (.init (unprotected_init _)))).on 1 "GEZDGNBVGY3TQOJQGEZDGNBVGY3TQOJQ" (by decide +kernel)
  revert row
  decide +kernel

/-- Setups one after the other. -/
theorem stays_on_later :
    let w := (mfa digestMac).run (.atRest unprotected 0) (lateRun 60)
    confirmedSecret 1 w.db.log = some "GEZDGNBVGY3TQOJQGEZDGNBVGY3TQOJQ" ∧ StaysOn w.db := by
  have hrun : (mfa digestMac).GoodRun (World.Admits staysAdmits) (.atRest unprotected 0) (lateRun 60) ∧
      confirmedSecret 1 ((mfa digestMac).run (.atRest unprotected 0) (lateRun 60)).db.log =
        some "GEZDGNBVGY3TQOJQGEZDGNBVGY3TQOJQ" := by
    decide +kernel
  exact ⟨hrun.2, stays_on _ _ (Machine.reach_run _ (.init (unprotected_init _)) hrun.1)⟩

end StelloKitchens.Mfa
