import StelloKitchens.Mfa.StaysOn

/-!
# Codes are used once

The step of a code is compared with the last one that was accepted, and then claimed by comparing
again, in one statement. A confirmation does neither: it writes the step of its code over whatever
the row holds. A recovery code is claimed in one statement.

## Main definitions

* `SingleUse` — accepted codes are of later and later steps, and recovery codes accepted once.
* `codesAdmits` — confirmations are stored for the setup that was read, while it is pending, and
  codes are accepted for the setup that they were checked with.

## Main results

* `single_use` — codes over all interleavings.
-/

namespace StelloKitchens.Mfa

open Process
open Accounts (TokenHash)

/-! ### Accepted codes -/

/-- Within a setup, each code that is accepted is of a later step than those before. -/
def Ascending (accepted : List Accepted) : Prop :=
  accepted.Pairwise fun a b => a.enrolment = b.enrolment → a.step < b.step

instance (accepted : List Accepted) : Decidable (Ascending accepted) :=
  inferInstanceAs (Decidable (accepted.Pairwise _))

/-- Accepted codes are of later and later steps, and recovery codes accepted once. -/
structure SingleUse (mac : Mac) (db : MfaDb) : Prop where
  ascending : Ascending db.accepted
  codes : ∀ a ∈ db.accepted, codeAt mac a.secret a.step = .ok a.code
  recovered : db.recovered.Nodup

/-- The user's row is of this setup, and pending or not. -/
def MfaDb.AtSetup (db : MfaDb) (userId enrolment : ℕ) (pending : Bool) : Prop :=
  ∀ row ∈ db.userMfa.find? userId, row.enrolment = enrolment ∧ (pending → row.enabledAt = none)

instance (db : MfaDb) (userId enrolment : ℕ) (pending : Bool) :
    Decidable (db.AtSetup userId enrolment pending) :=
  inferInstanceAs (Decidable (∀ row ∈ db.userMfa.find? userId, _))

/-- Confirmations are stored for the setup that was read, while it is pending, and codes are
accepted for the setup that they were checked with. -/
def codesAdmits : Note → (Hold LockKey → Prop) → MfaDb → Prop
  | .confirm userId enrolment _, _, s => s.AtSetup userId enrolment true
  | .verify userId enrolment, _, s => s.AtSetup userId enrolment false
  | _, _, _ => True

instance (note : Note) (held : List (Hold LockKey)) (s : MfaDb) :
    Decidable (codesAdmits note (· ∈ held) s) :=
  match note with
  | .plain => .isTrue trivial
  | .setup _ => .isTrue trivial
  | .confirm userId enrolment _ => inferInstanceAs (Decidable (s.AtSetup userId enrolment true))
  | .verify userId enrolment => inferInstanceAs (Decidable (s.AtSetup userId enrolment false))

/-! ### What changes keep -/

variable {mac : Mac} {L : Hold LockKey → Prop} {s s' : MfaDb} {note : Note}

/-- A setup of which a code was accepted is on, and its row has that step or a later one. -/
structure Counted (db : MfaDb) : Prop where
  begun : ∀ a ∈ db.accepted, a.enrolment < db.enrolments
  last : ∀ a ∈ db.accepted, ∀ row ∈ db.userMfa, row.enrolment = a.enrolment →
    row.enabledAt ≠ none ∧ ∃ last ∈ row.lastUsedStep, a.step ≤ last

/-- A recovery code that was accepted is used. -/
structure Spent (db : MfaDb) : Prop where
  nodup : db.recovered.Nodup
  made : ∀ x ∈ db.recovered, x.2 < db.generations
  used : ∀ x ∈ db.recovered, ∀ c ∈ db.recoveryCodes, (c.codeHash, c.generation) = x → c.usedAt ≠ none

theorem canClaim_eq_true {userId : ℕ} {step : ℤ} : s.canClaim userId step = true ↔
    ∃ row, s.userMfa.find? userId = some row ∧ ∀ last ∈ row.lastUsedStep, last < step := by
  rw [MfaDb.canClaim, Option.any_eq_true]
  refine exists_congr fun row => and_congr_right fun _ => ?_
  cases row.lastUsedStep <;> simp

theorem canRecover_eq_true {userId : ℕ} {hash : TokenHash} : s.canRecover userId hash = true ↔
    ∃ c, s.recoveryCodes.find? hash = some c ∧ c.userId = userId ∧ c.usedAt = none := by
  rw [MfaDb.canRecover, Option.any_eq_true]
  exact exists_congr fun c => and_congr_right fun _ => decide_eq_true_iff

theorem ascending_append {accepted : List Accepted} {a : Accepted} :
    Ascending (accepted ++ [a]) ↔ Ascending accepted ∧
      ∀ b ∈ accepted, b.enrolment = a.enrolment → b.step < a.step := by
  simp only [Ascending, List.pairwise_append, List.pairwise_singleton, List.mem_singleton,
    forall_eq, true_and]

/-- A code is accepted of a later step than those of the same setup, and its row gets that step. -/
theorem Counted.accept (hs : Counted s) (hnumbered : Numbered s) {found row₀ : UserMfa} {step : ℤ}
    {code : String} (hrow₀ : row₀ ∈ s.userMfa) (hid : row₀.userId = found.userId)
    (hsetup : row₀.enrolment = found.enrolment)
    (haccepted : s'.accepted = s.accepted ++ [found.accept step code])
    (henrolments : s'.enrolments = s.enrolments)
    (hlater : ∀ a ∈ s.accepted, a.enrolment = found.enrolment → a.step < step)
    (hrows : ∀ row ∈ s'.userMfa, ∃ old ∈ s.userMfa, row.enrolment = old.enrolment ∧
      if old.userId = found.userId then row.enabledAt ≠ none ∧ row.lastUsedStep = some step
      else row = old) : Counted s' where
  begun a ha := by
    rw [haccepted] at ha
    rw [henrolments]
    rcases List.mem_append.mp ha with ha | ha
    · exact hs.begun a ha
    · rw [List.mem_singleton.mp ha]
      exact hsetup.symm.trans_lt (hnumbered.enrolments row₀ hrow₀)
  last a ha row hrow heq := by
    rw [haccepted] at ha
    obtain ⟨old, hold, henrolment, hchanged⟩ := hrows row hrow
    have hstep : a.enrolment = found.enrolment → a.step ≤ step := fun hsame => by
      rcases List.mem_append.mp ha with ha | ha
      · exact (hlater a ha hsame).le
      · exact (congrArg Accepted.step (List.mem_singleton.mp ha)).le
    by_cases hold' : old.userId = found.userId
    · rw [if_pos hold'] at hchanged
      have hsame : old = row₀ := KeyedTable.eq_of_mem hold hrow₀ (hold'.trans hid.symm)
      refine ⟨hchanged.1, step, hchanged.2, hstep ?_⟩
      rw [← heq, henrolment, hsame, hsetup]
    · rw [if_neg hold'] at hchanged
      subst hchanged
      rcases List.mem_append.mp ha with ha | ha
      · exact hs.last a ha row hold heq
      · rw [List.mem_singleton.mp ha] at heq
        exact absurd ((hnumbered.distinct row hold row₀ hrow₀ (heq.trans hsetup.symm)).trans hid)
          hold'

/-- Codes are accepted in order where what is stored is admitted. -/
theorem Change.counted (h : Change mac L s note s') (hnumbered : Numbered s)
    (hadmits : codesAdmits note L s) (hs : Ascending s.accepted ∧ Counted s) :
    Ascending s'.accepted ∧ Counted s' := by
  obtain ⟨hascending, hs⟩ := hs
  cases h with
  | setup userId tenantId secret =>
    refine ⟨hascending, fun a ha => (hs.begun a ha).trans (Nat.lt_succ_self _),
      fun a ha row hrow heq => ?_⟩
    rcases mem_setup hrow with ⟨-, -, hnew⟩ | ⟨hrow, -⟩
    · exact absurd (hnew.symm.trans heq) (hs.begun a ha).ne'
    · exact hs.last a ha row hrow heq
  | confirm now found step code user old new hlock hcodes hcode hrow =>
    obtain ⟨row₀, hrow₀, hid⟩ := hrow
    obtain ⟨hsetup, hpending⟩ := hadmits row₀ (hid ▸ KeyedTable.find?_of_mem hrow₀)
    have hnone : ∀ a ∈ s.accepted, a.enrolment ≠ found.enrolment := fun a ha heq =>
      (hs.last a ha row₀ hrow₀ (hsetup.trans heq.symm)).1 (hpending rfl)
    have hlater : ∀ a ∈ s.accepted, a.enrolment = found.enrolment → a.step < step :=
      fun a ha heq => absurd heq (hnone a ha)
    refine ⟨ascending_append.mpr ⟨hascending, hlater⟩,
      hs.accept hnumbered hrow₀ hid hsetup rfl rfl hlater fun row hrow => ?_⟩
    obtain ⟨old, hold, rfl⟩ := (mem_confirm code).mp hrow
    refine ⟨old, hold, ?_⟩
    split
    · exact ⟨rfl, Option.some_ne_none now, rfl⟩
    · exact ⟨rfl, rfl⟩
  | claim found step code hlock hcode henabled hclaim =>
    obtain ⟨row₀, hfind, hstep⟩ := canClaim_eq_true.mp hclaim
    obtain ⟨hrow₀, hid⟩ := KeyedTable.find?_eq_some.mp hfind
    have hsetup := (hadmits row₀ hfind).1
    have hlater : ∀ a ∈ s.accepted, a.enrolment = found.enrolment → a.step < step := by
      intro a ha heq
      obtain ⟨-, last, hlast, hle⟩ := hs.last a ha row₀ hrow₀ (hsetup.trans heq.symm)
      exact hle.trans_lt (hstep last hlast)
    refine ⟨ascending_append.mpr ⟨hascending, hlater⟩,
      hs.accept hnumbered hrow₀ hid hsetup rfl rfl hlater fun row hrow => ?_⟩
    obtain ⟨old, hold, rfl⟩ := mem_claim.mp hrow
    refine ⟨old, hold, ?_⟩
    by_cases hother : old.userId = found.userId
    · simp only [if_pos hother]
      have hsame : old = row₀ := KeyedTable.eq_of_mem hold hrow₀ (hother.trans hid.symm)
      exact ⟨trivial, henabled.rows old hold (hsame ▸ hsetup), trivial⟩
    · simp only [if_neg hother]
      exact ⟨trivial, trivial⟩
  | disable userId number old present =>
    cases present with
    | false => exact ⟨hascending, hs.begun, hs.last⟩
    | true =>
      refine ⟨hascending, hs.begun, fun a ha row hrow => ?_⟩
      exact hs.last a ha row (KeyedTable.mem_delete.mp hrow).1
  | _ => exact ⟨hascending, hs.begun, hs.last⟩

/-- Codes are accepted as the codes of their steps. -/
theorem Change.codes (h : Change mac L s note s')
    (hs : ∀ a ∈ s.accepted, codeAt mac a.secret a.step = .ok a.code) :
    ∀ a ∈ s'.accepted, codeAt mac a.secret a.step = .ok a.code := by
  have happend : ∀ {found : UserMfa} {step : ℤ} {code : String}, CodeOf mac found step code →
      ∀ a ∈ s.accepted ++ [found.accept step code], codeAt mac a.secret a.step = .ok a.code := by
    intro found step code hcode a ha
    rcases List.mem_append.mp ha with ha | ha
    · exact hs a ha
    · rw [List.mem_singleton.mp ha]
      exact hcode
  cases h with
  | confirm _ _ _ _ _ _ _ _ _ hcode => exact happend hcode
  | claim _ _ _ _ hcode => exact happend hcode
  | disable _ _ _ present => cases present <;> exact hs
  | _ => exact hs

/-- What is accepted of the recovery codes. -/
theorem Change.recovered (h : Change mac L s note s') : s'.recovered = s.recovered ∨
    ∃ c ∈ s.recoveryCodes, c.usedAt = none ∧ s' = s.recover c.codeHash ∧
      s'.recovered = s.recovered ++ [(c.codeHash, c.generation)] := by
  cases h with
  | recover userId hash _ hrecover =>
    obtain ⟨c, hfind, -, hunused⟩ := canRecover_eq_true.mp hrecover
    obtain ⟨hc, rfl⟩ := KeyedTable.find?_eq_some.mp hfind
    exact .inr ⟨c, hc, hunused, rfl, by rw [MfaDb.recover, hfind]; rfl⟩
  | disable _ _ _ present => cases present <;> exact .inl rfl
  | _ => exact .inl rfl

/-- Recovery codes are accepted once. -/
theorem Change.spent (h : Change mac L s note s') (hnumbered : Numbered s) (hs : Spent s) :
    Spent s' := by
  have hkept : ∀ x ∈ s.recovered, x.2 < s'.generations ∧
      ∀ c ∈ s'.recoveryCodes, (c.codeHash, c.generation) = x → c.usedAt ≠ none := by
    intro x hx
    refine ⟨(hs.made x hx).trans_le h.generations, fun c hc heq => ?_⟩
    rcases h.code hc with ⟨-, hnew, -⟩ | ⟨old, hold, hhash, hgeneration, hused⟩
    · exact absurd (hnew.symm.trans (congrArg Prod.snd heq)) (hs.made x hx).ne'
    · exact hused (hs.used x hx old hold (by rw [← hhash, ← hgeneration, heq]))
  rcases h.recovered with hsame | ⟨c, hc, hunused, rfl, happend⟩
  · rw [← hsame] at hkept
    exact ⟨hsame ▸ hs.nodup, fun x hx => (hkept x hx).1, fun x hx => (hkept x hx).2⟩
  · have hnew : (c.codeHash, c.generation) ∉ s.recovered := fun hmem =>
      hs.used _ hmem c hc rfl hunused
    refine ⟨?_, fun x hx => ?_, fun x hx c' hc' heq => ?_⟩
    · rw [happend, List.nodup_append]
      refine ⟨hs.nodup, List.nodup_singleton _, fun x hx y hy => ?_⟩
      rw [List.mem_singleton.mp hy]
      exact fun heq => hnew (heq ▸ hx)
    · rw [happend] at hx
      rcases List.mem_append.mp hx with hx | hx
      · exact (hkept x hx).1
      · rw [List.mem_singleton.mp hx]
        exact hnumbered.generations c hc
    · rw [happend] at hx
      rcases List.mem_append.mp hx with hx | hx
      · exact (hkept x hx).2 c' hc' heq
      · rw [List.mem_singleton.mp hx] at heq
        simp only [MfaDb.recover, KeyedTable.mem_modify] at hc'
        obtain ⟨old, -, rfl⟩ := hc'
        split
        case isTrue => exact Option.some_ne_none _
        case isFalse hother =>
          rw [if_neg hother] at heq
          exact absurd (congrArg Prod.fst heq) (by simpa using hother)

/-- In every interleaving in which confirmations are stored for the setup that was read, while it is
pending, and codes are accepted for the setup that they were checked with, accepted codes are of
later and later steps, and recovery codes accepted once. -/
theorem single_use (mac : Mac) (w : MfaWorld) (h : (mfa mac).Reach (World.Admits codesAdmits) w) :
    SingleUse mac w.db := by
  have hall : (Ascending w.db.accepted ∧ Counted w.db) ∧
      (∀ a ∈ w.db.accepted, codeAt mac a.secret a.step = .ok a.code) ∧ Spent w.db := by
    refine mfa_invariant (I := fun s => (Ascending s.accepted ∧ Counted s) ∧
      (∀ a ∈ s.accepted, codeAt mac a.secret a.step = .ok a.code) ∧ Spent s) (fun s hs => ?_)
      (fun L s note s' hnumbered hadmits hchange hs => ?_) h
    · refine ⟨⟨?_, ?_, ?_⟩, ?_, ?_, ?_, ?_⟩ <;> simp [hs.accepted, hs.recovered, Ascending]
    · exact ⟨hchange.counted hnumbered hadmits hs.1, hchange.codes hs.2.1,
        hchange.spent hnumbered hs.2.2⟩
  exact ⟨hall.1.1, hall.2.1, hall.2.2.nodup⟩

/-! ### Two confirmations with one code -/

/-- A setup is begun. -/
def setupRun : List (WorldAction MfaRequest Empty) := mfaRun 1 (.beginSetup asha digitsKey)

/-- A confirmation has done this many steps when another one comes with the same code, and then goes
on. -/
def confirmRun (steps : ℕ) : List (WorldAction MfaRequest Empty) :=
  setupRun ++ .start 1 (.confirmSetup asha "359152" plainSeeds) :: WorldAction.steps 1 steps ++
    mfaRun 2 (.confirmSetup asha "359152" plainSeeds) ++ WorldAction.steps 1 60

/-- Two confirmations side by side accept one code. -/
theorem not_single_use : ¬∀ mac w, (mfa mac).Reachable w → SingleUse mac w.db := by
  intro h
  have hascending := (h digestMac _ (Machine.reachable_run (confirmRun 2)
    (.init (unprotected_init _)))).ascending
  revert hascending
  decide +kernel

/-- A confirmation, another one with the same code, the code of the next step, and a recovery
code. -/
def usesRun : List (WorldAction MfaRequest Empty) :=
  confirmRun 60 ++ mfaRun 1 (.verify 1 ⟨some "969429", none⟩) ++
    mfaRun 1 (.verify 1 ⟨none, some "AAAA-aaaa aaaa"⟩)

theorem single_use_uses :
    let w := (mfa digestMac).run (.atRest unprotected 0) usesRun
    w.db.accepted.map (·.step) = [2, 3] ∧ w.db.recovered = [(⟨"aaaaaaaaaaaa"⟩, 0)] ∧
      SingleUse digestMac w.db := by
  have hrun : (mfa digestMac).GoodRun (World.Admits codesAdmits) (.atRest unprotected 0) usesRun ∧
      ((mfa digestMac).run (.atRest unprotected 0) usesRun).db.accepted.map (·.step) = [2, 3] ∧
      ((mfa digestMac).run (.atRest unprotected 0) usesRun).db.recovered = [(⟨"aaaaaaaaaaaa"⟩, 0)] := by
    decide +kernel
  exact ⟨hrun.2.1, hrun.2.2,
    single_use _ _ (Machine.reach_run _ (.init (unprotected_init _)) hrun.1)⟩

end StelloKitchens.Mfa
