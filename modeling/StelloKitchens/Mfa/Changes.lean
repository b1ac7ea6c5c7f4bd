import StelloKitchens.Lib.Changes
import StelloKitchens.Mfa.Service

/-!
# What commits do to the second factors

Everything that the methods commit is one of a few changes. An enrolment that has been enabled is
not pending again, and a step that a code was found to be of is one whose code it is.

## Main definitions

* `Change` — what a commit does.
* `mfaChanges` — the changes of the second factors.

## Main results

* `mfa_kept` — the methods commit nothing else, whatever the others do.
* `mfa_invariant` — what changes keep holds over all interleavings.
-/

namespace StelloKitchens.Mfa

open Checked Tx Process Method Discipline Changes
open Accounts (hashPassword TokenHash)

/-! ### What a commit does -/

/-- No row of this enrolment is pending, nor will one be. -/
structure MfaDb.Enabled (db : MfaDb) (enrolment : ℕ) : Prop where
  begun : enrolment < db.enrolments
  rows : ∀ row ∈ db.userMfa, row.enrolment = enrolment → row.enabledAt ≠ none

/-- A user's recovery codes are replaced. -/
def MfaDb.replaceCodes (db : MfaDb) (user : Accounts.AuthUser) (old new : List TokenHash) : MfaDb :=
  (db.deleteCodes user.id old).createCodes user.id user.tenantId new

/-- The code is the one of this step, under the secret of the record. -/
abbrev CodeOf (mac : Mac) (found : UserMfa) (step : ℤ) (code : String) : Prop :=
  codeAt mac (openSecret found.secretEnc) step = .ok code

/-- What a commit with this note does, by who holds these. -/
inductive Change (mac : Mac) (L : Hold LockKey → Prop) (s : MfaDb) : Note → MfaDb → Prop
  | tick (ms : ℕ) : Change mac L s .plain { s with now := s.now + ms }
  | password (c : Credentials) : Change mac L s .plain { s with users := s.users.put c }
  | policy (p : TenantSecurity) :
      Change mac L s .plain { s with tenantSecurity := s.tenantSecurity.put p }
  | setup (userId tenantId : ℕ) (secret : String) (hlock : L (.lock (.mfa userId))) :
      Change mac L s (.setup userId) (s.setup userId tenantId secret)
  | confirm (now : Time) (found : UserMfa) (step : ℤ) (code : String) (user : Accounts.AuthUser)
      (old new : List TokenHash) (hlock : L (.lock (.mfa found.userId)))
      (hcodes : ∀ hash, hash ∈ old ∨ hash ∈ new → L (.lock (.code hash)))
      (hcode : CodeOf mac found step code) (hrow : ∃ row ∈ s.userMfa, row.userId = found.userId) :
      Change mac L s (.confirm found.userId found.enrolment (openSecret found.secretEnc))
        ((s.confirm now found step code).replaceCodes user old new)
  | claim (found : UserMfa) (step : ℤ) (code : String) (hlock : L (.lock (.mfa found.userId)))
      (hcode : CodeOf mac found step code) (henabled : s.Enabled found.enrolment)
      (hclaim : s.canClaim found.userId step = true) :
      Change mac L s (.verify found.userId found.enrolment) (s.claim found step code)
  | recover (userId : ℕ) (hash : TokenHash) (hlock : L (.lock (.code hash)))
      (hrecover : s.canRecover userId hash = true) :
      Change mac L s .plain (s.recover hash)
  | replace (user : Accounts.AuthUser) (old new : List TokenHash)
      (hcodes : ∀ hash, hash ∈ old ∨ hash ∈ new → L (.lock (.code hash))) :
      Change mac L s .plain (s.replaceCodes user old new)
  | passed (userId number : ℕ) :
      Change mac L s .plain { s with log := s.log ++ [.reauthenticated userId number] }
  | disable (userId number : ℕ) (old : List TokenHash) (present : Bool)
      (hlock : present = true → L (.lock (.mfa userId)))
      (hcodes : ∀ hash ∈ old, L (.lock (.code hash)))
      (hsigned : .reauthenticated userId number ∈ s.log) :
      Change mac L s .plain
        { bif present then (s.deleteCodes userId old).removeMfa userId
          else s.deleteCodes userId old with
          log := s.log ++ [.disabled userId number] }

/-! ### Rows after a change -/

variable {mac : Mac} {L : Hold LockKey → Prop} {s s' : MfaDb} {note : Note} {row : UserMfa} {c : RecoveryCode}

/-- The row of a setup is pending, of an enrolment of its own. -/
theorem mem_setup {userId tenantId : ℕ} {secret : String}
    (h : row ∈ (s.setup userId tenantId secret).userMfa) :
    (row.userId = userId ∧ row.enabledAt = none ∧ row.enrolment = s.enrolments) ∨
      row ∈ s.userMfa ∧ row.userId ≠ userId := by
  rw [MfaDb.setup, KeyedTable.mem_upsert] at h
  refine h.imp_left ?_
  rintro rfl
  cases hfind : s.userMfa.find? userId with
  | none => exact ⟨rfl, rfl, rfl⟩
  | some old => exact ⟨(KeyedTable.find?_eq_some.mp hfind).2, rfl, rfl⟩

theorem MfaDb.replaceCodes_userMfa {user : Accounts.AuthUser} {old new : List TokenHash} :
    (s.replaceCodes user old new).userMfa = s.userMfa := rfl

/-- A new recovery code has not been used, and is of a set of its own. -/
theorem mem_replaceCodes {user : Accounts.AuthUser} {old new : List TokenHash}
    (h : c ∈ (s.replaceCodes user old new).recoveryCodes) :
    (c.usedAt = none ∧ c.generation = s.generations) ∨ c ∈ s.recoveryCodes := by
  rcases KeyedTable.mem_foldl_put h with h | h
  · obtain ⟨hash, -, rfl⟩ := List.mem_map.mp h
    exact .inl ⟨rfl, rfl⟩
  · exact .inr (KeyedTable.mem_delete.mp h).1

theorem mem_confirm {now : Time} {found : UserMfa} {step : ℤ} (code : String) :
    row ∈ (s.confirm now found step code).userMfa ↔ ∃ old ∈ s.userMfa, row =
      if old.userId = found.userId then
        { old with
          enabledAt := some now
          lastUsedStep := some step }
      else old := by
  simp only [MfaDb.confirm, KeyedTable.mem_modify, decide_eq_true_eq]

theorem mem_claim {found : UserMfa} {step : ℤ} {code : String} :
    row ∈ (s.claim found step code).userMfa ↔ ∃ old ∈ s.userMfa, row =
      if old.userId = found.userId then { old with lastUsedStep := some step } else old := by
  simp only [MfaDb.claim, KeyedTable.mem_modify, decide_eq_true_eq]

/-- Where a row comes from: a setup, or it was there, enabled if it was. -/
theorem Change.origin (h : Change mac L s note s') (hrow : row ∈ s'.userMfa) :
    (note = .setup row.userId ∧ row.enrolment = s.enrolments ∧ s'.enrolments = s.enrolments + 1) ∨
    ∃ old ∈ s.userMfa, row.userId = old.userId ∧ row.enrolment = old.enrolment ∧
      (old.enabledAt ≠ none → row.enabledAt ≠ none) := by
  cases h with
  | setup userId tenantId secret =>
    rcases mem_setup hrow with ⟨hid, -, henrolment⟩ | ⟨hrow, -⟩
    · exact .inl ⟨congrArg _ hid.symm, henrolment, rfl⟩
    · exact .inr ⟨row, hrow, rfl, rfl, id⟩
  | confirm now found step code =>
    obtain ⟨old, hold, rfl⟩ := (mem_confirm code).mp hrow
    refine .inr ⟨old, hold, ?_⟩
    split
    · exact ⟨rfl, rfl, fun _ => Option.some_ne_none now⟩
    · exact ⟨rfl, rfl, id⟩
  | claim found =>
    obtain ⟨old, hold, rfl⟩ := mem_claim.mp hrow
    refine .inr ⟨old, hold, ?_⟩
    split <;> exact ⟨rfl, rfl, id⟩
  | disable userId number old present =>
    cases present with
    | false => exact .inr ⟨row, hrow, rfl, rfl, id⟩
    | true => exact .inr ⟨row, (KeyedTable.mem_delete.mp hrow).1, rfl, rfl, id⟩
  | _ => exact .inr ⟨row, hrow, rfl, rfl, id⟩

/-- Setups are counted. -/
theorem Change.enrolments (h : Change mac L s note s') : s.enrolments ≤ s'.enrolments := by
  cases h with
  | setup => exact Nat.le_succ _
  | disable _ _ _ present => cases present <;> exact le_rfl
  | _ => exact le_rfl

/-- Where a recovery code comes from: a new set, or it was there, used if it was. -/
theorem Change.code (h : Change mac L s note s') (hc : c ∈ s'.recoveryCodes) :
    (c.usedAt = none ∧ c.generation = s.generations ∧ s'.generations = s.generations + 1) ∨
    ∃ old ∈ s.recoveryCodes, c.codeHash = old.codeHash ∧ c.generation = old.generation ∧
      (old.usedAt ≠ none → c.usedAt ≠ none) := by
  cases h with
  | confirm now found step code user old new =>
    exact (mem_replaceCodes hc).imp (fun h => ⟨h.1, h.2, rfl⟩) fun h => ⟨c, h, rfl, rfl, id⟩
  | replace user old new =>
    exact (mem_replaceCodes hc).imp (fun h => ⟨h.1, h.2, rfl⟩) fun h => ⟨c, h, rfl, rfl, id⟩
  | recover userId hash =>
    simp only [MfaDb.recover, KeyedTable.mem_modify] at hc
    obtain ⟨old, hold, rfl⟩ := hc
    refine .inr ⟨old, hold, ?_⟩
    split
    · exact ⟨rfl, rfl, fun _ => Option.some_ne_none _⟩
    · exact ⟨rfl, rfl, id⟩
  | disable userId number old present =>
    cases present <;> exact .inr ⟨c, (KeyedTable.mem_delete.mp hc).1, rfl, rfl, id⟩
  | _ => exact .inr ⟨c, hc, rfl, rfl, id⟩

/-- Sets of recovery codes are counted. -/
theorem Change.generations (h : Change mac L s note s') : s.generations ≤ s'.generations := by
  cases h with
  | confirm => exact Nat.le_succ _
  | replace => exact Nat.le_succ _
  | disable _ _ _ present => cases present <;> exact le_rfl
  | _ => exact le_rfl

/-- Setups stay numbered. -/
theorem Change.numbered (h : Change mac L s note s') (hs : Numbered s) : Numbered s' where
  enrolments row hrow := by
    rcases h.origin hrow with ⟨-, henrolment, hsucc⟩ | ⟨old, hold, -, henrolment, -⟩
    · exact (henrolment.trans_lt (Nat.lt_succ_self _)).trans_eq hsucc.symm
    · exact henrolment ▸ (hs.enrolments old hold).trans_le h.enrolments
  distinct row hrow row' hrow' heq := by
    rcases h.origin hrow with ⟨hnote, hnew, -⟩ | ⟨old, hold, hid, henrolment, -⟩ <;>
      rcases h.origin hrow' with ⟨hnote', hnew', -⟩ | ⟨old', hold', hid', henrolment', -⟩
    · exact Note.setup.inj (hnote.symm.trans hnote')
    · have hlt := hs.enrolments old' hold'
      rw [← henrolment', ← heq, hnew] at hlt
      exact absurd hlt (lt_irrefl _)
    · have hlt := hs.enrolments old hold
      rw [← henrolment, heq, hnew'] at hlt
      exact absurd hlt (lt_irrefl _)
    · rw [hid, hid']
      exact hs.distinct old hold old' hold' (henrolment.symm.trans (heq.trans henrolment'))
  generations c hc := by
    rcases h.code hc with ⟨-, hgeneration, hsucc⟩ | ⟨old, hold, -, hgeneration, -⟩
    · exact (hgeneration.trans_lt (Nat.lt_succ_self _)).trans_eq hsucc.symm
    · exact hgeneration ▸ (hs.generations old hold).trans_le h.generations

/-- An enrolment that has been enabled is not pending again. -/
theorem Change.enabled (h : Change mac L s note s') {enrolment : ℕ} (hs : s.Enabled enrolment) :
    s'.Enabled enrolment where
  begun := hs.begun.trans_le h.enrolments
  rows row hrow heq := by
    rcases h.origin hrow with ⟨-, hnew, -⟩ | ⟨old, hold, -, henrolment, hkept⟩
    · exact absurd (hnew.symm.trans heq) hs.begun.ne'
    · exact hkept (hs.rows old hold (henrolment.symm.trans heq))

/-- What is in the log stays there. -/
theorem Change.log (h : Change mac L s note s') {e : MfaEvent} (he : e ∈ s.log) : e ∈ s'.log := by
  cases h with
  | confirm => exact List.mem_append_left _ he
  | passed => exact List.mem_append_left _ he
  | disable => exact List.mem_append_left _ he
  | _ => exact he

theorem Numbered.enabled (h : Numbered s) {found : UserMfa} (hfound : found ∈ s.userMfa)
    (henabled : found.enabledAt ≠ none) : s.Enabled found.enrolment where
  begun := h.enrolments found hfound
  rows row hrow heq := by
    rw [KeyedTable.eq_of_mem hrow hfound (h.distinct row hrow found hfound heq)]
    exact henabled

/-! ### Rows that are locked -/

theorem find_replaceCodes {user : Accounts.AuthUser} {old new : List TokenHash} {hash : TokenHash}
    (hold : hash ∉ old) (hnew : hash ∉ new) :
    (s.replaceCodes user old new).recoveryCodes.find? hash = s.recoveryCodes.find? hash := by
  refine (KeyedTable.find?_foldl_put_of_ne fun c hc heq => ?_).trans
    (KeyedTable.find?_delete_of_not fun c _ heq => ?_)
  · obtain ⟨h, hh, rfl⟩ := List.mem_map.mp hc
    exact hnew (heq ▸ hh)
  · simp only [decide_eq_false_iff_not]
    exact fun h => hold (heq ▸ h.2)

/-- The row of a user that another has locked stays as it is. -/
theorem Change.find_mfa (h : Change mac L s note s') {userId : ℕ}
    (hlock : ¬L (.lock (.mfa userId))) : s'.userMfa.find? userId = s.userMfa.find? userId := by
  have hother : ∀ {id}, L (.lock (.mfa id)) → ∀ {row : UserMfa}, row.userId = userId →
      row.userId ≠ id := by
    rintro id hheld row rfl rfl
    exact hlock hheld
  cases h with
  | setup id tenantId secret hheld =>
    rw [MfaDb.setup, KeyedTable.find?_upsert_of_ne]
    rintro rfl
    exact hlock hheld
  | confirm now found step code user old new hheld =>
    rw [MfaDb.replaceCodes_userMfa, MfaDb.confirm, KeyedTable.find?_modify_of_not]
    exact fun row _ hrow => decide_eq_false (hother hheld hrow)
  | claim found step code hheld =>
    rw [MfaDb.claim, KeyedTable.find?_modify_of_not]
    exact fun row _ hrow => decide_eq_false (hother hheld hrow)
  | disable id number old present hheld =>
    cases present with
    | false => rfl
    | true =>
      exact KeyedTable.find?_delete_of_not fun row _ hrow =>
        decide_eq_false (hother (hheld rfl) hrow)
  | _ => rfl

/-- A recovery code that another has locked stays as it is. -/
theorem Change.find_code (h : Change mac L s note s') {hash : TokenHash}
    (hlock : ¬L (.lock (.code hash))) :
    s'.recoveryCodes.find? hash = s.recoveryCodes.find? hash := by
  cases h with
  | confirm now found step code user old new _ hcodes =>
    exact find_replaceCodes (fun h => hlock (hcodes hash (.inl h)))
      fun h => hlock (hcodes hash (.inr h))
  | replace user old new hcodes =>
    exact find_replaceCodes (fun h => hlock (hcodes hash (.inl h)))
      fun h => hlock (hcodes hash (.inr h))
  | recover userId key hheld =>
    rw [MfaDb.recover, KeyedTable.find?_modify_of_not]
    refine fun c _ hc => decide_eq_false ?_
    rintro rfl
    exact hlock (hc ▸ hheld)
  | disable id number old present _ hcodes =>
    have hdeleted : (s.deleteCodes id old).recoveryCodes.find? hash =
        s.recoveryCodes.find? hash := by
      refine KeyedTable.find?_delete_of_not fun c _ hc => decide_eq_false fun h => ?_
      exact hlock (hcodes hash (hc ▸ h.2))
    cases present <;> exact hdeleted
  | _ => rfl

/-- The changes of the second factors. -/
def mfaChanges (mac : Mac) : Changes MfaDb LockKey Note where
  inv s _ := Numbered s
  change := Change mac
  inv_mono _ h := h
  inv_change h hs _ := h.numbered hs

end StelloKitchens.Mfa
