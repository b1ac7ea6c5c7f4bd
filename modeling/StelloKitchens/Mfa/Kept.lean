import StelloKitchens.Mfa.Changes

/-!
# The methods of the second factor keep to the changes

## Main results

* `mfa_kept` — the methods commit nothing but changes, whatever the others do.
* `mfa_invariant` — what changes keep holds over all interleavings.
-/

namespace StelloKitchens.Mfa

open Checked Tx Process Method Discipline Changes
open Accounts (hashPassword TokenHash)

section Methods

variable (mac : Mac) (admitted : Note → (Hold LockKey → Prop) → MfaDb → Prop)

/-- The discipline of the changes. -/
abbrev keeping : Discipline MfaDb LockKey := (mfaChanges mac).discipline admitted

/-- A method, with what is known before and after it. -/
abbrev Leads {α : Type} (J : Assertion MfaDb) (x : MfaMethod α) (Q : α → Assertion MfaDb) : Prop :=
  Changes.Leads (mfaChanges mac) admitted J x Q

variable {mac admitted}
variable {L : Hold LockKey → Prop} {K J : MfaDb → Prop} {f : MfaDb → MfaDb}
  {user : Accounts.AuthUser} {found : UserMfa} {code : String}

/-! ### What is known -/

theorem lasting_enabled {enrolment : ℕ} :
    Lasting (keeping mac admitted) fun _ s => s.Enabled enrolment :=
  lasting_of_change fun _ _ _ _ _ _ hchange => Change.enabled hchange

theorem lasting_log {e : MfaEvent} : Lasting (keeping mac admitted) fun _ s => e ∈ s.log :=
  lasting_of_change fun _ _ _ _ _ _ hchange => Change.log hchange

/-- The row of a user that is locked. -/
theorem stable_mfa {userId : ℕ} {row : Option UserMfa} (hlock : L (.lock (.mfa userId))) :
    (keeping mac admitted).Stable L fun s => s.userMfa.find? userId = row :=
  stable_of_change fun _ _ _ _ _ _ hother hchange hrow =>
    (Change.find_mfa hchange (hother _ hlock)).trans hrow

/-! ### Recovery codes -/

theorem wp_deleteCodes {userId : ℕ} (hK : (keeping mac admitted).Stable L K)
    {post : (Hold LockKey → Prop) → (MfaDb → Prop) → (MfaDb → MfaDb) → Unit → Prop}
    (h : ∀ L' old, Extends L L' → (∀ hash ∈ old, L' (.lock (.code hash))) →
      post L' K (fun s => (f s).deleteCodes userId old) ()) :
    (keeping mac admitted).wp (deleteCodesTx userId) L K f post := by
  simp only [deleteCodesTx, codeHashes, Discipline.wp_bind]
  refine wp_query_any hK fun old => wp_acquireAll fun L' hL hlocks => ?_
  rw [Discipline.wp_update]
  exact h L' old hL fun hash hhash => hlocks _ (List.mem_map_of_mem hhash)

theorem wp_replaceCodes {random : CodeSeeds} (hK : (keeping mac admitted).Stable L K)
    {post : (Hold LockKey → Prop) → (MfaDb → Prop) → (MfaDb → MfaDb) → List String → Prop}
    (h : ∀ L' old new codes, Extends L L' →
      (∀ hash, hash ∈ old ∨ hash ∈ new → L' (.lock (.code hash))) →
      post L' K (fun s => (f s).replaceCodes user old new) codes) :
    (keeping mac admitted).wp (replaceRecoveryCodes user random) L K f post := by
  simp only [replaceRecoveryCodes, Discipline.wp_bind]
  refine wp_deleteCodes hK fun L₁ old hL₁ hold => wp_acquireAll fun L₂ hL₂ hnew => ?_
  refine wp_query_any ((hK.anti hL₁.holds).anti hL₂.holds) fun _ => wp_check fun _ => ?_
  rw [Discipline.wp_update, Discipline.wp_pure]
  refine h L₂ old _ _ (hL₁.trans hL₂) fun hash hhash => ?_
  rcases hhash with hhash | hhash
  · exact hL₂.holds _ (hold hash hhash)
  · exact hnew _ (List.mem_map_of_mem hhash)

/-! ### Codes -/

/-- A step that is found is one whose code it is. -/
theorem checkCode_bind {β : Type} {g : Option ℤ → MfaMethod β} {Q : β → Assertion MfaDb}
    (hJ : Lasting (keeping mac admitted) fun _ => J)
    (h : ∀ step, (∀ k ∈ step, CodeOf mac found k code) →
      Leads mac admitted (fun _ => J) (g step) Q) :
    Leads mac admitted (fun _ => J) (checkCode mac found code >>= g) Q := by
  unfold checkCode
  rw [LawfulMonad.bind_assoc]
  refine triple_look_bind (P := fun _ => True) (R := fun _ _ => J) (fun _ L => hJ.known L)
    (fun _ s n _ hs => ⟨trivial, hs⟩) fun now _ => ?_
  cases hverify : verifyTotp mac (openSecret found.secretEnc) code now with
  | error message => exact leads_throw _
  | ok step =>
    refine h step fun k hk => ?_
    rw [Option.mem_def.mp hk] at hverify
    exact (verifyTotp_eq_some hverify).2

theorem verifyCode_leads : Leads mac admitted (fun _ s => s.Enabled found.enrolment)
    (verifyCode mac found code) fun _ _ _ => True := by
  unfold verifyCode
  refine checkCode_bind lasting_enabled fun step hcode => ?_
  refine triple_getOr_bind (fun k hk => ?_) fun _ _ _ _ _ => trivial
  have hcode := hcode k (Option.mem_filter_iff.mp hk).1
  refine Leads.andThen (leads_updateWhere lasting_enabled ?_ ?_) fun _ => leads_guardOr _ _
  · intro L s n note s' _ hlock hchange hclaim
    rwa [MfaDb.canClaim, Change.find_mfa hchange hlock]
  · exact fun L s n hlock _ henabled hclaim => .claim found k code hlock hcode henabled hclaim

theorem verifyRecovery_leads (userId : ℕ) (recoveryCode : String) :
    Leads mac admitted (fun _ _ => True) (verifyRecovery userId recoveryCode) fun _ _ _ => True := by
  unfold verifyRecovery
  refine Leads.andThen (leads_updateWhere lasting_true ?_ ?_) fun _ => leads_guardOr _ _
  · intro L s n note s' _ hlock hchange hrecover
    rwa [MfaDb.canRecover, Change.find_code hchange hlock]
  · exact fun L s n hlock _ _ hrecover => .recover userId _ hlock hrecover

theorem verify_leads (userId : ℕ) (input : VerifyInput) :
    Leads mac admitted (fun _ _ => True) (verify mac userId input) fun _ _ _ => True := by
  unfold verify record
  refine triple_look_bind (P := fun _ => True)
    (R := fun found _ s => ∀ r ∈ found.filter (·.enabledAt.isSome), s.Enabled r.enrolment)
    (fun found L => stable_forall_mem fun r _ => lasting_enabled.known L) (fun _ s n hs _ => ?_)
    fun found _ => ?_
  · refine ⟨trivial, fun r hr => ?_⟩
    obtain ⟨hr, henabled⟩ := Option.mem_filter_iff.mp hr
    exact Numbered.enabled hs (KeyedTable.find?_eq_some.mp hr).1
      (Option.isSome_iff_ne_none.mp henabled)
  refine triple_getOr_bind (fun r hr => ?_) fun _ _ _ _ _ => trivial
  cases truthy input.code with
  | some code => exact verifyCode_leads.pre fun _ _ _ _ h => h r hr
  | none =>
    cases truthy input.recoveryCode with
    | some recoveryCode =>
      exact (verifyRecovery_leads userId recoveryCode).pre fun _ _ _ _ _ => trivial
    | none => exact leads_throw _

theorem isEnabled_leads (userId : ℕ) :
    Leads mac admitted (fun _ _ => True) (isEnabled userId) fun _ _ _ => True :=
  (leads_look _).andThen fun _ => leads_pure _

theorem reauthenticate_leads (password : String) (code : Option String) :
    Leads mac admitted (fun _ _ => True) (reauthenticate mac user password code)
      fun number _ s => .reauthenticated user.id number ∈ s.log := by
  have hpassed : Leads mac admitted (fun _ _ => True)
      (atomically (fun _ => .plain) (passed user.id))
      fun number _ s => .reauthenticated user.id number ∈ s.log := by
    refine leads_transaction lasting_true (fun _ L => lasting_log.known L) fun L => ?_
    simp only [passed, Discipline.wp_bind]
    refine wp_draw stable_true fun s n _ _ => ⟨_, stable_true, trivial, ?_⟩
    rw [Discipline.wp_update, Discipline.wp_pure]
    exact fun s _ _ _ _ => ⟨.passed user.id n, List.mem_append_right _ (List.mem_singleton_self _)⟩
  unfold reauthenticate
  refine (leads_look _).andThen fun _ => (leads_guardOr _ _).andThen fun _ =>
    (isEnabled_leads user.id).andThen fun enabled => ?_
  cases enabled with
  | false => exact hpassed
  | true =>
    exact (leads_getOr _ _).andThen fun code => (verify_leads user.id _).andThen fun _ => hpassed

/-! ### The methods -/

theorem status_leads : Leads mac admitted (fun _ _ => True) (status user) fun _ _ _ => True := by
  unfold status
  refine (leads_look _).andThen fun found => ?_
  dsimp only
  split
  · exact (leads_look _).andThen fun _ => (leads_look _).andThen fun _ => leads_pure _
  · exact (leads_pure 0).andThen fun _ => (leads_look _).andThen fun _ => leads_pure _

theorem beginSetup_leads (random : List UInt8) :
    Leads mac admitted (fun _ _ => True) (beginSetup user random) fun _ _ _ => True := by
  unfold beginSetup
  refine (leads_look _).andThen fun _ => (leads_guardOr _ _).andThen fun _ => Leads.andThen ?_
    fun _ => leads_pure _
  refine leads_of_change lasting_true fun L => ?_
  simp only [upsertTx, Discipline.wp_bind, Discipline.wp_acquire, Discipline.wp_update]
  exact fun s n _ _ _ => .setup user.id user.tenantId _ (.inl rfl)

theorem confirmSetup_leads (random : CodeSeeds) :
    Leads mac admitted (fun _ _ => True) (confirmSetup mac user code random) fun _ _ _ => True := by
  unfold confirmSetup record
  refine (leads_look _).andThen fun found => triple_getOr_bind (fun found _ => ?_)
    fun _ _ _ _ _ => trivial
  refine (leads_guardOr _ _).andThen fun _ => checkCode_bind lasting_true fun step hcode => ?_
  refine triple_getOr_bind (fun k hk => ?_) fun _ _ _ _ _ => trivial
  refine leads_of_change lasting_true fun L => ?_
  simp only [confirmTx, Discipline.wp_bind]
  refine wp_query_any stable_true fun now => ?_
  rw [Discipline.wp_acquire]
  refine wp_query stable_true fun s n _ _ => ⟨_, stable_mfa (.inl rfl), rfl, wp_check fun hrow => ?_⟩
  obtain ⟨row, hrow⟩ := Option.isSome_iff_exists.mp hrow
  rw [Discipline.wp_update]
  refine wp_replaceCodes (stable_true.and (stable_mfa (.inl rfl)))
    fun L' old new codes hL hcodes s n _ hK _ => ?_
  have hfound := KeyedTable.find?_eq_some.mp (hK.2.trans hrow)
  exact .confirm now found k code user old new (hL.holds _ (.inl rfl)) hcodes (hcode k hk)
    ⟨row, hfound.1, hfound.2⟩

theorem disable_leads (password : String) (code : Option String) :
    Leads mac admitted (fun _ _ => True) (disable mac user password code) fun _ _ _ => True := by
  unfold disable
  refine status_leads.andThen fun _ => (leads_guardOr _ _).andThen fun _ =>
    Triple.bind (reauthenticate_leads password code) fun number => ?_
  refine leads_of_change lasting_log fun L => ?_
  have hlog : ∀ L, (keeping mac admitted).Stable L fun s =>
      .reauthenticated user.id number ∈ s.log := fun L => lasting_log.known L
  simp only [disableTx, Discipline.wp_bind]
  refine wp_deleteCodes (hlog L) fun L₁ old hL₁ hold => ?_
  refine wp_updateWhere (hlog L₁) (fun L₂ hL₂ => ?_) fun s n _ _ _ => ⟨_, stable_true, trivial, ?_⟩
  · rw [Discipline.wp_update]
    exact fun s n _ _ hsigned => .disable user.id number old false (fun h => by cases h)
      (fun hash hh => hL₂.holds _ (hold hash hh)) hsigned
  · rw [Discipline.wp_update]
    exact fun s n _ _ hsigned => .disable user.id number old true (fun _ => .inl rfl)
      (fun hash hh => .inr (hold hash hh)) hsigned

theorem regenerate_leads (password : String) (code : Option String) (random : CodeSeeds) :
    Leads mac admitted (fun _ _ => True) (regenerateRecoveryCodes mac user password code random)
      fun _ _ _ => True := by
  unfold regenerateRecoveryCodes
  refine (isEnabled_leads user.id).andThen fun _ => (leads_guardOr _ _).andThen fun _ =>
    Triple.bind (reauthenticate_leads password code) fun number => ?_
  refine leads_of_change lasting_log fun L => ?_
  exact wp_replaceCodes (lasting_log.known L) fun L' old new codes hL hcodes s n _ _ _ =>
    .replace user old new hcodes

theorem setPolicy_leads (requireOwnerMfa : Bool) :
    Leads mac admitted (fun _ _ => True) (setPolicy user requireOwnerMfa) fun _ _ _ => True := by
  have hupsert : Leads mac admitted (fun _ _ => True) (do
      atomically (fun _ => Note.plain) (update fun db : MfaDb =>
        { db with tenantSecurity := db.tenantSecurity.put ⟨user.tenantId, requireOwnerMfa⟩ })
      return requireOwnerMfa) fun _ _ _ => True :=
    Leads.andThen (leads_of_change lasting_true fun L s n _ _ _ => .policy _) fun _ => leads_pure _
  unfold setPolicy
  dsimp only
  split
  · exact (isEnabled_leads user.id).andThen fun _ => (leads_guardOr _ _).andThen fun _ => hupsert
  · exact hupsert

theorem discard_leads {α : Type} {x : MfaMethod α} {J : Assertion MfaDb} {Q : α → Assertion MfaDb}
    (h : Leads mac admitted J x Q) : Leads mac admitted J (discard x) fun _ _ _ => True :=
  Triple.bind h fun a => (leads_pure ()).pre fun _ _ _ _ _ => trivial

theorem run_leads (r : MfaRequest) :
    Leads mac admitted (fun _ _ => True) (r.run mac) fun _ _ _ => True := by
  cases r with
  | tick ms => exact leads_of_change lasting_true fun L s n _ _ _ => .tick ms
  | setPassword userId password =>
    exact leads_of_change lasting_true fun L s n _ _ _ => .password _
  | beginSetup user random => exact discard_leads (beginSetup_leads random)
  | confirmSetup user code random => exact discard_leads (confirmSetup_leads random)
  | verify userId input => exact verify_leads userId input
  | reauthenticate user password code => exact discard_leads (reauthenticate_leads password code)
  | disable user password code => exact disable_leads password code
  | regenerate user password code random =>
    exact discard_leads (regenerate_leads password code random)
  | setPolicy user requireOwnerMfa => exact discard_leads (setPolicy_leads requireOwnerMfa)

/-- The methods commit nothing but changes, whatever the others do. -/
theorem mfa_kept (r : MfaRequest) :
    ((mfaChanges mac).terms admitted : Terms MfaDb LockKey Note _).Kept (r.run mac).run :=
  (run_leads r).kept

end Methods

/-- What holds at first and every change keeps that is admitted holds over all interleavings. -/
theorem mfa_invariant {mac : Mac} {admitted : Note → (Hold LockKey → Prop) → MfaDb → Prop}
    {I : MfaDb → Prop} (hinit : ∀ s, Started s → I s)
    (hstep : ∀ L s note s', Numbered s → admitted note L s → Change mac L s note s' → I s → I s')
    {w : MfaWorld} (h : (mfa mac).Reach (World.Admits admitted) w) : I w.db :=
  Changes.invariant mfa_kept (fun _ _ hs => hs.toNumbered) (fun s _ => hinit s)
    (fun L s _ note s' hs => hstep L s note s' hs) h

end StelloKitchens.Mfa
