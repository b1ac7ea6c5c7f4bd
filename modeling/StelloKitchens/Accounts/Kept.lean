import StelloKitchens.Accounts.Changes

/-!
# The account methods keep to the changes

## Main definitions

* `accountChanges` — the changes of the accounts.

## Main results

* `account_kept` — the methods commit nothing else, whatever the others do.
* `account_invariant` — what changes keep holds over all interleavings.
-/

namespace StelloKitchens.Accounts

open Checked Tx Process Method Discipline Changes Service

/-- The changes of the accounts. -/
def accountChanges : Changes AccountDb LockKey Note where
  inv := Sound
  change := Change
  inv_mono hle h :=
    { h with
      userIds := fun u hu => (h.userIds u hu).trans_le hle
      tokenIds := fun t ht => (h.tokenIds t ht).trans_le hle
      homeIds := fun id t hid => (h.homeIds id t hid).trans_le hle
      signupIds := fun id email hid => (h.signupIds id email hid).trans_le hle }
  inv_change h hs hdrawn := h.sound hs hdrawn

section Methods

variable (admitted : Note → (Hold LockKey → Prop) → AccountDb → Prop)

/-- The discipline of the changes. -/
abbrev keeping : Discipline AccountDb LockKey := accountChanges.discipline admitted

/-- A method of the accounts, with what is known before and after it. -/
abbrev Leads {α : Type} (J : Assertion AccountDb) (x : AccountMethod α)
    (Q : α → Assertion AccountDb) : Prop :=
  Changes.Leads accountChanges admitted J x Q

variable {admitted}
variable {L : Hold LockKey → Prop} {s : AccountDb} {n : ℕ} {K : AccountDb → Prop}
  {f : AccountDb → AccountDb} {v : Set Role × Set Member} {user : AuthUser}

/-! ### What is known -/

/-- The staff of a restaurant that is locked. -/
theorem stable_staff {t : ℕ} (hlock : L (.lock (.tenant t))) :
    (keeping admitted).Stable L fun s => s.staff t = v :=
  stable_of_change fun _ _ _ _ _ hs hother hchange hv =>
    (Change.staff hchange hs (hother _ hlock)).trans hv

theorem stable_unused (hnumber : L (.number n)) : (keeping admitted).Stable L (Unused n) :=
  stable_of_change fun _ _ _ _ _ _ hother hchange hs => Change.unused hchange (hother _ hnumber) hs

theorem stable_email {email : String} (hlock : L (.lock (.email email))) :
    (keeping admitted).Stable L fun s => s.emailTaken email = false :=
  stable_of_change fun _ _ _ _ _ _ hother hchange hs =>
    Change.email_free hchange (hother _ hlock) hs

theorem lasting_roleHome {id t : ℕ} :
    Lasting (keeping admitted) fun _ s => s.roleHome id = some t :=
  lasting_of_change fun _ _ _ _ _ _ hchange => Change.roleHome hchange

theorem lasting_signupEmail {id : ℕ} {email : String} :
    Lasting (keeping admitted) fun _ s => s.signupEmail id = some email :=
  lasting_of_change fun _ _ _ _ _ _ hchange => Change.signupEmail hchange

theorem lasting_use {x : LinkUse} : Lasting (keeping admitted) fun _ s => x ∈ s.uses :=
  lasting_of_change fun _ _ _ _ _ _ hchange => Change.uses hchange

/-- The link is there. -/
theorem lasting_token {t : AuthToken} :
    Lasting (keeping admitted) fun _ s => ∃ x ∈ s.authTokens, t.Same x := by
  refine lasting_of_change fun _ _ _ _ _ _ hchange h => ?_
  obtain ⟨x, hx, hsame⟩ := h
  obtain ⟨x', hx', hsame', -⟩ := Change.keeps_token hchange hx
  exact ⟨x', hx', hsame'.id.trans hsame.id, hsame'.tenantId.trans hsame.tenantId,
    hsame'.email.trans hsame.email, hsame'.roleId.trans hsame.roleId⟩

/-- The user is there. -/
theorem lasting_user {id : ℕ} : Lasting (keeping admitted) fun _ s => ∃ u ∈ s.users, u.id = id := by
  refine lasting_of_change fun _ _ _ _ _ _ hchange h => ?_
  obtain ⟨u, hu, rfl⟩ := h
  obtain ⟨u', hu', hsame⟩ := Change.user hchange hu
  exact ⟨u', hu', hsame.id⟩

/-- A number under which nothing has been made. -/
theorem wp_draw_unused {post : (Hold LockKey → Prop) → (AccountDb → Prop) →
    (AccountDb → AccountDb) → ℕ → Prop} (hK : (keeping admitted).Stable L K)
    (h : ∀ n, (keeping admitted).Stable (add L (.number n)) (fun s => K s ∧ Unused n s) →
      post (add L (.number n)) (fun s => K s ∧ Unused n s) f n) :
    (keeping admitted).wp (draw : AccountTx ℕ) L K f post :=
  wp_draw hK fun _ n hs _ => ⟨Unused n, stable_unused (.inl rfl), Sound.unused hs,
    h n ((hK.add _).and (stable_unused (.inl rfl)))⟩

/-! ### Under the lock of a restaurant -/

/-- What is read while the restaurant is locked is read of its staff as it stays. -/
theorem wp_query_staff {α : Type} {t : ℕ} (hlock : L (.lock (.tenant t)))
    (hK : (keeping admitted).Stable L K) {g : AccountDb → α}
    {post : (Hold LockKey → Prop) → (AccountDb → Prop) → (AccountDb → AccountDb) → α → Prop}
    (h : ∀ v s n, Sound s n → K s → s.staff t = v →
      (keeping admitted).Stable L (fun s => K s ∧ s.staff t = v) →
      post L (fun s => K s ∧ s.staff t = v) f (g (f s))) :
    (keeping admitted).wp (query g : AccountTx α) L K f post :=
  wp_query hK fun s n hs hKs => ⟨_, stable_staff hlock, rfl, h _ s n hs hKs rfl
    (hK.and (stable_staff hlock))⟩

theorem mem_staff_roles {t : ℕ} {r : Role} : r ∈ (s.staff t).1 ↔ r ∈ s.roles ∧ r.tenantId = t :=
  Iff.rfl

theorem mem_staff_members {t : ℕ} {m : Member} :
    m ∈ (s.staff t).2 ↔ m.tenantId = t ∧ ∃ u ∈ s.users, u.member = m := Iff.rfl

/-- A role that was found is of the staff. -/
theorem mem_staff_of_find {id : ℕ} {r : Role}
    (h : (s.roles.find? id).filter (·.tenantId = user.tenantId) = some r) :
    r ∈ (s.staff user.tenantId).1 ∧ r.id = id := by
  obtain ⟨hfind, htenant⟩ := Option.filter_eq_some_iff.mp h
  obtain ⟨hr, hid⟩ := KeyedTable.find?_eq_some.mp hfind
  exact ⟨⟨hr, of_decide_eq_true htenant⟩, hid⟩

/-- Everyone's role is of the staff. -/
theorem exists_role (hs : Sound s n) {u : User} (hu : u ∈ s.users) :
    ∃ r ∈ (s.staff u.tenantId).1, r.id = u.roleId ∧ s.rolePermissions u.roleId = r.permissions := by
  obtain ⟨r, hr, hid⟩ := hs.onRole u hu
  have hhome := (hs.roleHomes r hr).symm.trans (hid ▸ hs.userHomes u hu)
  exact ⟨r, ⟨hr, Option.some.inj hhome⟩, hid, hid ▸ rolePermissions_eq hr⟩

/-- An owner of the staff remains. -/
def Remaining (v : Set Role × Set Member) (excludeRoleId excludeUserId : Option ℕ) : Prop :=
  ∃ m ∈ v.2, m.isActive = true ∧ some m.id ≠ excludeUserId ∧ some m.roleId ≠ excludeRoleId ∧
    ∃ r ∈ v.1, r.id = m.roleId ∧ isOwnerLevel r.permissions = true

theorem Remaining.ownerBeside {t : ℕ} {excludeRoleId excludeUserId : Option ℕ}
    (h : Remaining v excludeRoleId excludeUserId) (hv : s.staff t = v) :
    s.OwnerBeside t excludeRoleId excludeUserId := by
  subst hv
  obtain ⟨_, ⟨htenant, u, hu, rfl⟩, hactive, huser, hrole, r, hr, hid, howner⟩ := h
  exact ⟨u, hu, htenant, hactive, huser, hrole, r, hr.1, hid, howner⟩

theorem remaining_of_owners (hs : Sound s n) {t : ℕ} {excludeRoleId excludeUserId : Option ℕ}
    (h : s.remainingOwners t excludeRoleId excludeUserId ≠ []) :
    Remaining (s.staff t) excludeRoleId excludeUserId := by
  obtain ⟨u, hremain⟩ := List.exists_mem_of_ne_nil _ h
  obtain ⟨hfound, hkept⟩ := List.mem_filter.mp hremain
  obtain ⟨hu, htenant⟩ := List.mem_filter.mp hfound
  obtain ⟨rfl, hactive⟩ := of_decide_eq_true htenant
  obtain ⟨huser, hrole, howner⟩ := of_decide_eq_true hkept
  obtain ⟨r, hr, hid, hperms⟩ := exists_role hs hu
  exact ⟨u.member, ⟨rfl, u, hu, rfl⟩, hactive, huser, hrole, r, hr, hid, hperms ▸ howner⟩

/-- Where it is asked for, an owner remains. -/
theorem wp_ownersRemain {c : Prop} [Decidable c] {t : ℕ} {excludeRoleId excludeUserId : Option ℕ}
    (hK : (keeping admitted).Stable L K) (hv : ∀ s, K s → s.staff t = v)
    {post : (Hold LockKey → Prop) → (AccountDb → Prop) → (AccountDb → AccountDb) → Unit → Prop}
    (hpost : (c → Remaining v excludeRoleId excludeUserId) → post L K id ()) :
    (keeping admitted).wp (whenever c (assertOwnersRemain t excludeRoleId excludeUserId)) L K id
      post := by
  refine wp_whenever (fun _ => ?_) fun hc => hpost fun h => absurd h hc
  simp only [assertOwnersRemain, Discipline.wp_bind]
  refine wp_query_known hK fun s n hs hKs => wp_check fun hremain => hpost fun _ => ?_
  rw [← hv s hKs]
  exact remaining_of_owners hs hremain

/-! ### Roles -/

theorem createRole_leads (input : RoleInput) :
    Leads admitted (fun _ _ => True) (createRole user input) fun _ _ _ => True := by
  unfold createRole mapUnique
  refine triple_guardOr_bind (fun hgrant => ?_) fun _ _ _ _ _ _ => trivial
  refine triple_tryCatch (leads_of_change lasting_true fun L => ?_) fun e => leads_throw _
  simp only [createRoleTx, Discipline.wp_bind, Discipline.wp_acquire]
  refine wp_query_any stable_true fun _ => wp_check fun _ => wp_draw_unused stable_true
    fun id _ => ?_
  rw [Discipline.wp_update, Discipline.wp_pure]
  intro s n hs hK _
  exact .createRole user _ (.inr (.inr (.inl rfl))) (.inl rfl) hK.2.role
    (missingPermissions_distinct.mpr hgrant)

theorem updateRole_leads (id' : ℕ) (input : RoleInput) :
    Leads admitted (fun _ _ => True) (updateRole user id' input) fun _ _ _ => True := by
  unfold updateRole mapUnique
  refine triple_tryCatch (leads_of_change lasting_true fun L => ?_) fun e => leads_throw _
  simp only [updateRoleTx, lockTenant, requireRole, Discipline.wp_bind, Discipline.wp_acquire]
  refine wp_query_staff (.inl rfl) stable_true fun v s₀ n₀ hs₀ _ hv hK => wp_require fun r hr => ?_
  obtain ⟨hr, -⟩ := mem_staff_of_find hr
  rw [id, hv] at hr
  refine wp_check fun htouch => wp_check fun hgrant => ?_
  refine wp_ownersRemain hK (fun s hs => hs.2) fun howner => ?_
  refine wp_query_any (hK.add _) fun _ => wp_check fun _ => ?_
  rw [Discipline.wp_update]
  intro s n hs hKs _
  have hstaff := hKs.2
  obtain ⟨hr, htenant⟩ := mem_staff_roles.mp (hstaff ▸ hr)
  refine .editRole user r input.name _ ?_ hr htouch (missingPermissions_distinct.mpr hgrant)
    fun howns hnot => ?_
  · exact htenant.symm ▸ .inr (.inl rfl)
  · exact htenant.symm ▸ (howner ⟨howns, hnot⟩).ownerBeside hstaff

/-- No one is on the role of a staff that has no one on it. -/
theorem free_of_staff (hs : Sound s n) {r : Role} (hr : r ∈ s.roles)
    (h : ∀ m ∈ (s.staff r.tenantId).2, m.roleId ≠ r.id) : ∀ u ∈ s.users, u.roleId ≠ r.id := by
  intro u hu hid
  have hhome := (hs.userHomes u hu).symm.trans (hid ▸ hs.roleHomes r hr)
  exact h u.member ⟨Option.some.inj hhome, u, hu, rfl⟩ hid

theorem removeRole_leads (id' : ℕ) :
    Leads admitted (fun _ _ => True) (removeRole user id') fun _ _ _ => True := by
  unfold removeRole
  refine leads_of_change lasting_true fun L => ?_
  simp only [removeRoleTx, lockTenant, requireRole, Discipline.wp_bind, Discipline.wp_acquire]
  refine wp_query_staff (.inl rfl) stable_true fun v s₀ n₀ hs₀ _ hv hK => wp_require fun r hr => ?_
  obtain ⟨hr, -⟩ := mem_staff_of_find hr
  rw [id, hv] at hr
  refine wp_check fun htouch => wp_query_any hK fun _ => wp_check fun _ => wp_query_any hK
    fun _ => wp_check fun _ => wp_query_known hK fun s₁ n₁ hs₁ hKs₁ => wp_check fun hreferred => ?_
  -- no one is on the role, and no one comes onto it while the restaurant is locked
  have hnone : ∀ m ∈ v.2, m.roleId ≠ r.id := by
    rw [← hKs₁.2]
    rintro _ ⟨-, u, hu, rfl⟩ hid
    exact List.any_eq_false.mp hreferred u hu (decide_eq_true hid)
  rw [Discipline.wp_update]
  intro s n hs hKs _
  have hstaff := hKs.2
  subst hstaff
  obtain ⟨hr, htenant⟩ := mem_staff_roles.mp hr
  rw [← htenant] at hnone
  exact .removeRole user r (htenant.symm ▸ .inl rfl) hr htouch (free_of_staff hs hr hnone)

theorem assignRole_leads (staffId roleId : ℕ) :
    Leads admitted (fun _ _ => True) (assignRole user staffId roleId) fun _ _ _ => True := by
  unfold assignRole
  refine leads_of_change lasting_true fun L => ?_
  simp only [assignRoleTx, lockTenant, requireRole, Discipline.wp_bind, Discipline.wp_acquire]
  refine wp_query_staff (.inl rfl) stable_true fun v s₀ n₀ hs₀ _ hv hK => wp_require fun p hp => ?_
  obtain ⟨u, hu, rfl⟩ := Option.map_eq_some_iff.mp hp
  obtain ⟨hfind, hutenant⟩ := Option.filter_eq_some_iff.mp hu
  obtain ⟨hu, -⟩ := KeyedTable.find?_eq_some.mp hfind
  rw [id] at hu hp ⊢
  have hutenant : u.tenantId = user.tenantId := of_decide_eq_true hutenant
  obtain ⟨q, hq, hqid, hperms⟩ := exists_role hs₀ hu
  rw [hutenant, hv] at hq
  have hmember : u.member ∈ v.2 := hv ▸ ⟨hutenant, u, hu, rfl⟩
  refine wp_query_known hK fun s₁ n₁ hs₁ hKs₁ => wp_require fun r hr => ?_
  obtain ⟨hr, -⟩ := mem_staff_of_find hr
  rw [id, hKs₁.2] at hr
  refine wp_check fun htouch => wp_check fun hgrant => ?_
  refine wp_ownersRemain hK (fun s hs => hs.2) fun howner => ?_
  rw [Discipline.wp_update]
  intro s n hs hKs _
  have hstaff := hKs.2
  obtain ⟨hr, htenant⟩ := mem_staff_roles.mp (hstaff ▸ hr)
  obtain ⟨hq, -⟩ := mem_staff_roles.mp (hstaff ▸ hq)
  obtain ⟨-, u', hu', hsame⟩ := mem_staff_members.mp (hstaff ▸ hmember)
  obtain ⟨hid, htenant', hrole, hactive⟩ := Member.mk.inj hsame
  have hperms' : s.rolePermissions u'.roleId = s₀.rolePermissions u.roleId := by
    rw [hrole, hperms, ← hqid, rolePermissions_eq hq]
  change Change _ s _ (s.assignRole user.id u.id r.id)
  rw [← hid]
  refine .assignRole user u' r ?_ hu' hr (htenant'.trans (hutenant.trans htenant.symm))
    (hperms' ▸ htouch) hgrant fun howns hnot hact => ?_
  · exact htenant.symm ▸ .inr (.inl rfl)
  · rw [hid, htenant]
    exact (howner ⟨hperms' ▸ howns, hnot, hactive ▸ hact⟩).ownerBeside hstaff

/-! ### Links -/

/-- A token is stored under a number of its own. -/
theorem putToken_leads {J : AccountDb → Prop} (hJ : Lasting (keeping admitted) fun _ => J)
    {note : Note} {row : ℕ → Time → AuthToken} {g : AuthToken → AccountDb → AccountDb}
    (h : ∀ (L : Hold LockKey → Prop) id now s, J s → L (.number id) → Unused id s →
      Change L s note (g (row id now) s)) :
    Leads admitted (fun _ => J) (atomically (fun _ => note) (putTokenTx row g)) fun _ _ _ => True := by
  refine leads_of_change hJ fun L => ?_
  simp only [putTokenTx, Discipline.wp_bind, Discipline.wp_acquire]
  refine wp_query_any (hJ.known L) fun now => wp_draw_unused (hJ.known L) fun id hunused => ?_
  refine wp_query_any (hunused.add _) fun _ => wp_check fun _ => ?_
  rw [Discipline.wp_update]
  exact fun s n _ hKs hJs => h _ id now s hJs (.inr (.inl rfl)) hKs.2

theorem createInvite_leads (roleId : ℕ) (email raw : String) :
    Leads admitted (fun _ _ => True) (createInvite user roleId email raw) fun _ _ _ => True := by
  unfold createInvite
  refine triple_look_bind (P := fun _ => True)
    (R := fun role _ s => ∀ r ∈ role, s.roleHome r.id = some user.tenantId)
    (fun role L => stable_forall_mem fun r _ => lasting_roleHome.known L)
    (fun _ s n hs _ => ⟨trivial, fun r hr => ?_⟩) fun role _ => ?_
  · obtain ⟨⟨hr, htenant⟩, -⟩ := mem_staff_of_find hr
    exact htenant ▸ hs.roleHomes r hr
  refine triple_getOr_bind (fun r hr => ?_) fun _ _ _ _ _ => trivial
  subst hr
  refine Triple.pre (J := fun _ s => s.roleHome r.id = some user.tenantId) ?_
    fun _ _ _ _ h => h r rfl
  refine triple_guardOr_bind (fun hgrant => ?_) fun _ _ _ _ _ _ => trivial
  refine (triple_look_any _).bind fun existing => triple_guardOr_bind (fun _ => ?_)
    fun _ _ _ _ _ _ => trivial
  refine putToken_leads lasting_roleHome fun L id now s hhome hnumber hunused => ?_
  exact .invite user _ r.id r.permissions hnumber hunused.token rfl hhome hgrant rfl

/-- What is known of the link of an invitation. -/
def Invited (t : AuthToken) (s : AccountDb) : Prop :=
  (∃ x ∈ s.authTokens, t.Same x) ∧ ∀ roleId ∈ t.roleId, ∀ tenantId ∈ t.tenantId,
    s.roleHome roleId = some tenantId

theorem lasting_invited {t : AuthToken} : Lasting (keeping admitted) fun _ => Invited t :=
  lasting_token.and (lasting_of_change fun _ _ _ _ _ _ hchange h roleId hrole tenantId htenant =>
    Change.roleHome hchange (h roleId hrole tenantId htenant))

theorem acceptInvite_leads (raw name password : String) :
    Leads admitted (fun _ _ => True) (acceptInvite raw name password) fun _ _ _ => True := by
  unfold acceptInvite
  refine triple_look_bind (P := fun _ => True) (R := fun tok _ s => ∀ t ∈ tok, Invited t s)
    (fun tok L => stable_forall_mem fun t _ => lasting_invited.known L)
    (fun _ s n hs _ => ⟨trivial, fun t ht => ?_⟩) fun tok _ => ?_
  · have ht := List.mem_of_find?_eq_some ht
    exact ⟨⟨t, ht, .refl t⟩, fun roleId hrole tenantId htenant =>
      hs.invited t ht roleId tenantId hrole htenant⟩
  refine triple_getOr_bind (fun t ht => ?_) fun _ _ _ _ _ => trivial
  refine triple_getOr_bind (fun tenantId htenant => ?_) fun _ _ _ _ _ => trivial
  refine triple_getOr_bind (fun roleId hrole => ?_) fun _ _ _ _ _ => trivial
  refine triple_getOr_bind (fun email hemail => ?_) fun _ _ _ _ _ => trivial
  subst ht
  have hemail : t.email = some email := (Option.filter_eq_some_iff.mp hemail).1
  refine Triple.pre (J := fun _ => Invited t) ?_ fun _ _ _ _ h => h t rfl
  refine leads_of_change lasting_invited fun L => ?_
  simp only [acceptInviteTx, Discipline.wp_bind, Discipline.wp_acquire]
  refine wp_draw_unused (lasting_invited.known L) fun userId hK => ?_
  refine wp_query_none ((hK.add _).add _) (stable_email (.inl rfl)) fun hK => ?_
  refine wp_query_staff (t := tenantId) (.inr (.inl rfl)) hK
    fun v s₁ n₁ hs₁ hKs₁ hv _ => wp_check fun hrole' => ?_
  -- the role is of the restaurant, which is locked
  obtain ⟨r, hr⟩ := Option.isSome_iff_exists.mp hrole'
  obtain ⟨hr, hid⟩ := KeyedTable.find?_eq_some.mp hr
  have hhome := (hs₁.roleHomes r hr).symm.trans
    (hid ▸ hKs₁.1.1.2 roleId hrole tenantId htenant)
  have hr : r ∈ v.1 := hv ▸ ⟨hr, Option.some.inj hhome⟩
  rw [Discipline.wp_update, Discipline.wp_pure]
  intro s n hs hKs hJ
  obtain ⟨⟨⟨-, hunused⟩, hfree⟩, hstaff⟩ := hKs
  obtain ⟨x, hx, hsame⟩ := hJ.1
  refine .accept t.id _ (.inr (.inr (.inl rfl))) (.inr (.inl rfl)) (.inr (.inr (.inr (.inl rfl))))
    hunused.user hfree ⟨r, (mem_staff_roles.mp (hstaff ▸ hr)).1, hid⟩
    (hJ.2 roleId hrole tenantId htenant) ⟨x, hx, hsame.id, hsame.email.trans hemail⟩

theorem requestReset_leads (email raw : String) :
    Leads admitted (fun _ _ => True) (requestReset email raw) fun _ _ _ => True := by
  unfold requestReset
  refine (triple_look_any _).bind fun user => ?_
  cases user with
  | none => exact leads_pure ()
  | some user =>
    exact putToken_leads lasting_true fun L id now s _ hnumber hunused =>
      .token _ hnumber hunused.token rfl rfl

theorem resetPassword_leads (raw newPassword : String) :
    Leads admitted (fun _ _ => True) (resetPassword raw newPassword) fun _ _ _ => True := by
  unfold resetPassword
  refine triple_look_bind (P := fun _ => True)
    (R := fun tok _ s => ∀ t ∈ tok, ∃ x ∈ s.authTokens, AuthToken.Same t x)
    (fun tok L => stable_forall_mem fun t _ => lasting_token.known L)
    (fun _ s n hs _ => ⟨trivial, fun t ht => ?_⟩) fun tok _ => ?_
  · exact ⟨t, List.mem_of_find?_eq_some ht, .refl t⟩
  refine triple_getOr_bind (fun t ht => ?_) fun _ _ _ _ _ => trivial
  refine triple_getOr_bind (fun userId _ => ?_) fun _ _ _ _ _ => trivial
  subst ht
  refine Triple.pre (J := fun _ s => ∃ x ∈ s.authTokens, t.Same x) ?_ fun _ _ _ _ h => h t rfl
  refine leads_of_change lasting_token fun L => ?_
  simp only [resetPasswordTx, Discipline.wp_bind, Discipline.wp_acquire]
  refine wp_query ((lasting_token.known L).add _) fun s₀ _ _ _ =>
    ⟨fun s => (s₀.users.find? userId).isSome = true → ∃ u ∈ s.users, u.id = userId, ?_, ?_,
      wp_check fun huser => ?_⟩
  · exact fun L' s n s' n' hs hs' hother hstep h huser =>
      lasting_user.known _ L' s n s' n' hs hs' hother hstep (h huser)
  · intro huser
    obtain ⟨u, hu⟩ := Option.isSome_iff_exists.mp huser
    exact ⟨u, KeyedTable.find?_eq_some.mp hu⟩
  rw [Discipline.wp_update]
  intro s n hs hKs hJ
  obtain ⟨x, hx, hsame⟩ := hJ
  exact .reset t.id userId _ (hKs.2 huser) ⟨x, hx, hsame.id⟩

theorem startSignup_leads (input : SignupInput) (raw : String) :
    Leads admitted (fun _ _ => True) (startSignup input raw) fun _ _ _ => True := by
  unfold startSignup
  refine (triple_look_any _).bind fun _ => triple_guardOr_bind (fun _ => ?_) fun _ _ _ _ _ _ => trivial
  refine (triple_look_any _).bind fun _ => triple_guardOr_bind (fun _ => ?_) fun _ _ _ _ _ _ => trivial
  refine leads_of_change lasting_true fun L => ?_
  simp only [startSignupTx, Discipline.wp_bind, Discipline.wp_acquire]
  refine wp_query_any stable_true fun now => wp_draw_unused stable_true fun id hK => ?_
  refine wp_query_any ((hK.add _).add _) fun _ => wp_check fun _ => ?_
  rw [Discipline.wp_update]
  exact fun s n _ hKs _ => .pending _ (.inr (.inr (.inl rfl))) hKs.2.signup

/-- A restaurant is provisioned, for a signup whose email it is or for the platform. -/
theorem provision_leads (input : ProvisionInput) (pending : Option PendingSignup) (note : Note)
    (hnote : ∀ p ∈ pending, note = .provision p.id)
    (hemail : ∀ p ∈ pending, p.email = input.ownerEmail) :
    Leads admitted (fun _ s => ∀ p ∈ pending, s.signupEmail p.id = some p.email)
      (atomically (fun _ => note) (provisionTenantTx input pending)) fun ownerId _ s =>
        ∀ p ∈ pending, ⟨.signup p.id, ownerId, p.passwordHash⟩ ∈ s.uses := by
  have hlasting : Lasting (keeping admitted) fun _ s =>
      ∀ p ∈ pending, s.signupEmail p.id = some p.email :=
    lasting_of_change fun _ _ _ _ _ _ hchange h p hp => Change.signupEmail hchange (h p hp)
  have hJ := hlasting.known
  refine leads_transaction hlasting (fun _ L => stable_forall_mem fun p _ => lasting_use.known L)
    fun L => ?_
  simp only [provisionTenantTx, Discipline.wp_bind]
  refine wp_query_any (hJ L) fun _ => wp_check fun _ => ?_
  refine wp_draw_unused (hJ L) fun tenantId hK => ?_
  rw [Discipline.wp_acquire]
  refine wp_draw_unused (hK.add _) fun ownerRole hK => wp_draw_unused hK fun cashierRole hK =>
    wp_draw_unused hK fun kitchenRole hK => wp_draw_unused hK fun waiterRole hK =>
    wp_draw_unused hK fun ownerId hK => ?_
  rw [Discipline.wp_acquire]
  refine wp_query_none (hK.add _) (stable_email (.inl rfl)) fun _ => ?_
  rw [Discipline.wp_update, Discipline.wp_pure]
  intro s n hs hKs hsignup
  obtain ⟨⟨⟨⟨⟨⟨-, howner⟩, hcashier⟩, hkitchen⟩, hwaiter⟩, hid⟩, hfree⟩ := hKs
  refine ⟨.provision _ _ _ pending note hnote ?_ (.inl rfl) ?_ rfl ?_ (.inr (.inl rfl)) hid.user hfree
    ?_, ?_⟩
  · exact .inr (.inr (.inr (.inr (.inr (.inr (.inl rfl))))))
  · intro r hr
    simp only [standardRows, standardRoles, List.zipWith_cons_cons, List.zipWith_nil_left,
      List.mem_cons, List.not_mem_nil, or_false] at hr
    rcases hr with rfl | rfl | rfl | rfl
    · exact ⟨by simp [add], howner.role, rfl⟩
    · exact ⟨by simp [add], hcashier.role, rfl⟩
    · exact ⟨by simp [add], hkitchen.role, rfl⟩
    · exact ⟨by simp [add], hwaiter.role, rfl⟩
  · exact ⟨_, List.mem_cons_self, rfl⟩
  · exact fun p hp => (hsignup p hp).trans (congrArg some (hemail p hp))
  · intro p hp
    refine List.mem_append_right _ ?_
    rw [Option.mem_def.mp hp]
    exact List.mem_singleton.mpr rfl

theorem provisionTenant_leads (input : ProvisionInput) :
    Leads admitted (fun _ _ => True) (provisionTenant input) fun _ _ _ => True := by
  unfold provisionTenant
  refine Leads.andThen ?_ fun _ => leads_pure ()
  exact (provision_leads input none .plain (fun _ h => by cases h) fun _ h => by cases h).mono
    (fun _ _ _ _ _ _ h => by cases h) (fun _ _ _ _ _ _ => trivial) fun _ _ _ _ h => h

theorem verifySignup_leads (raw : String) :
    Leads admitted (fun _ _ => True) (verifySignup raw) fun _ _ _ => True := by
  unfold verifySignup
  refine triple_look_bind (P := fun _ => True)
    (R := fun pending _ s => ∀ p ∈ pending, s.signupEmail p.id = some p.email)
    (fun pending L => stable_forall_mem fun p _ => lasting_signupEmail.known L)
    (fun _ s n hs _ => ⟨trivial, fun p hp => hs.signups p (List.mem_of_find?_eq_some hp)⟩)
    fun pending _ => ?_
  refine triple_getOr_bind (fun p hp => ?_) fun _ _ _ _ _ => trivial
  subst hp
  refine Triple.bind (Q := fun ownerId _ s => ⟨.signup p.id, ownerId, p.passwordHash⟩ ∈ s.uses)
    ((provision_leads _ (some p) (.provision p.id) (fun q hq => ?_) fun q hq => ?_).mono
      (fun _ _ _ _ h => h) (fun _ _ _ _ _ h => h p rfl) fun _ _ _ _ h => h) fun ownerId => ?_
  · rw [Option.some.inj hq]
  · rw [← Option.some.inj hq]
  refine leads_of_change lasting_use fun L => ?_
  simp only [finishSignupTx, Discipline.wp_bind, Discipline.wp_acquire]
  refine wp_query_any (lasting_use.known _) fun _ => wp_check fun _ =>
    wp_query_any (lasting_use.known _) fun _ => wp_check fun _ => ?_
  rw [Discipline.wp_update]
  exact fun s n _ hK _ => .finish p ownerId hK

/-! ### All requests -/

theorem signed_leads {α : Type} {claims : SessionClaims} {perm : String}
    {x : AuthUser → AccountMethod α}
    (h : ∀ user, Leads admitted (fun _ _ => True) (x user) fun _ _ _ => True) :
    Leads admitted (fun _ _ => True) (signed claims perm x) fun _ _ _ => True := by
  unfold signed resolveUser requirePermission
  refine Leads.andThen ?_ fun user => (leads_guardOr _ _).andThen fun _ => (h user).andThen
    fun _ => leads_pure ()
  exact (leads_look _).andThen fun _ => (leads_getOr _ _).andThen fun user =>
    (leads_look _).andThen fun _ => (leads_guardOr _ _).andThen fun _ => leads_pure user

theorem run_leads (r : AccountRequest) :
    Leads admitted (fun _ _ => True) r.run fun _ _ _ => True := by
  cases r with
  | tick ms => exact leads_of_change lasting_true fun L s n _ _ _ => .tick ms
  | createRole claims input => exact signed_leads fun _ => createRole_leads input
  | updateRole claims id input => exact signed_leads fun _ => updateRole_leads id input
  | removeRole claims id => exact signed_leads fun _ => removeRole_leads id
  | assignRole claims staffId roleId => exact signed_leads fun _ => assignRole_leads staffId roleId
  | createInvite claims roleId email raw =>
    exact signed_leads fun _ => createInvite_leads roleId email raw
  | acceptInvite raw name password =>
    exact (acceptInvite_leads raw name password).andThen fun _ => leads_pure ()
  | requestReset email raw => exact requestReset_leads email raw
  | resetPassword raw newPassword => exact resetPassword_leads raw newPassword
  | startSignup input raw => exact startSignup_leads input raw
  | verifySignup raw => exact verifySignup_leads raw
  | provisionTenant input => exact provisionTenant_leads input

/-- The methods commit nothing but changes, whatever the others do. -/
theorem account_kept (r : AccountRequest) :
    (accountChanges.terms admitted : Terms AccountDb LockKey Note _).Kept r.run.run :=
  (run_leads r).kept

end Methods

/-- What holds at first and every change keeps that is admitted holds over all interleavings. -/
theorem account_invariant {admitted : Note → (Hold LockKey → Prop) → AccountDb → Prop}
    {start : AccountDb → Prop} {I : AccountDb → Prop}
    (hinit : ∀ s n, Started s n → start s → I s)
    (hstep : ∀ L s n note s', Sound s n → admitted note L s → Change L s note s' → I s → I s')
    {w : AccountWorld} (h : (accounts start).Reach (World.Admits admitted) w) : I w.db :=
  Changes.invariant account_kept (fun _ _ hs => hs.1.toSound) (fun s n hs => hinit s n hs.1 hs.2)
    hstep h

end StelloKitchens.Accounts
