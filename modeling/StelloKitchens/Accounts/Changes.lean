import StelloKitchens.Accounts.Links
import StelloKitchens.Lib.Changes

/-!
# What commits do to the accounts

Everything that the account methods commit is one of a few changes, each with what the process that
makes it knows at that moment. Who changes the roles of a restaurant, or who is on them, holds the
lock of the restaurant: what was checked under it is still so.

## Main definitions

* `AccountDb.staff` — the roles of a restaurant, and who is on them.
* `AccountDb.OwnerBeside` — an owner that remains.
* `Change` — what a commit does.

## Main results

* `Change.staff` — who does not hold its lock leaves the staff of a restaurant as it is.
* `Change.sound` — changes keep the accounts in order.
-/

namespace StelloKitchens.Accounts

open Checked Tx Method Service Discipline

/-! ### The staff of a restaurant -/

/-- A user, as far as roles are concerned. -/
structure Member where
  id : ℕ
  tenantId : ℕ
  roleId : ℕ
  isActive : Bool

def User.member (u : User) : Member := ⟨u.id, u.tenantId, u.roleId, u.isActive⟩

/-- The roles of a restaurant, and who is on which role. -/
def AccountDb.staff (s : AccountDb) (tenantId : ℕ) : Set Role × Set Member :=
  ({r | r ∈ s.roles ∧ r.tenantId = tenantId}, {m | m.tenantId = tenantId ∧ ∃ u ∈ s.users, u.member = m})

/-- An active owner of the restaurant, who is neither on this role nor this user. -/
def AccountDb.OwnerBeside (s : AccountDb) (tenantId : ℕ) (excludeRoleId excludeUserId : Option ℕ) :
    Prop :=
  ∃ u ∈ s.users, u.tenantId = tenantId ∧ u.isActive = true ∧ some u.id ≠ excludeUserId ∧
    some u.roleId ≠ excludeRoleId ∧ ∃ r ∈ s.roles, r.id = u.roleId ∧ isOwnerLevel r.permissions = true

/-- What a commit with this note does, by who holds these. -/
inductive Change (L : Hold LockKey → Prop) (s : AccountDb) : Note → AccountDb → Prop
  | tick (ms : ℕ) : Change L s .plain { s with now := s.now + ms }
  | createRole (user : AuthUser) (r : Role) (hlock : L (.lock (.tenant r.tenantId)))
      (hnumber : L (.number r.id)) (hnew : s.roleHome r.id = none)
      (hgrant : missingPermissions user.permissions r.permissions = []) :
      Change L s (.grant user) (s.createRole user.id r)
  | editRole (user : AuthUser) (r : Role) (name : String) (permissions : List String)
      (hlock : L (.lock (.tenant r.tenantId))) (hr : r ∈ s.roles)
      (htouch : missingPermissions user.permissions r.permissions = [])
      (hgrant : missingPermissions user.permissions permissions = [])
      (howner : isOwnerLevel r.permissions = true → isOwnerLevel permissions = false →
        s.OwnerBeside r.tenantId (some r.id) none) :
      Change L s (.grant user) (s.editRole user.id r.id name permissions)
  | removeRole (user : AuthUser) (r : Role) (hlock : L (.lock (.tenant r.tenantId)))
      (hr : r ∈ s.roles) (htouch : missingPermissions user.permissions r.permissions = [])
      (hfree : ∀ u ∈ s.users, u.roleId ≠ r.id) :
      Change L s (.grant user) (s.removeRole user.id r.id)
  | assignRole (user : AuthUser) (u : User) (r : Role) (hlock : L (.lock (.tenant r.tenantId)))
      (hu : u ∈ s.users) (hr : r ∈ s.roles) (htenant : u.tenantId = r.tenantId)
      (htouch : missingPermissions user.permissions (s.rolePermissions u.roleId) = [])
      (hgrant : missingPermissions user.permissions r.permissions = [])
      (howner : isOwnerLevel (s.rolePermissions u.roleId) = true →
        isOwnerLevel r.permissions = false → u.isActive = true →
          s.OwnerBeside r.tenantId none (some u.id)) :
      Change L s (.grant user) (s.assignRole user.id u.id r.id)
  | invite (user : AuthUser) (t : AuthToken) (roleId : ℕ) (permissions : List String)
      (hnumber : L (.number t.id)) (hnew : ∀ x ∈ s.authTokens, x.id ≠ t.id)
      (hrole : t.roleId = some roleId) (hhome : s.roleHome roleId = t.tenantId)
      (hgrant : missingPermissions user.permissions permissions = []) (hunused : t.usedAt = none) :
      Change L s (.invite user roleId permissions) (s.invite user.id roleId t)
  | token (t : AuthToken) (hnumber : L (.number t.id)) (hnew : ∀ x ∈ s.authTokens, x.id ≠ t.id)
      (hrole : t.roleId = none) (hunused : t.usedAt = none) :
      Change L s .plain { s with authTokens := s.authTokens.put t }
  | accept (tokenId : ℕ) (u : User) (hlock : L (.lock (.tenant u.tenantId)))
      (hemail : L (.lock (.email u.email))) (hnumber : L (.number u.id))
      (hnew : ∀ x ∈ s.users, x.id ≠ u.id) (hfree : s.emailTaken u.email = false)
      (hrole : ∃ r ∈ s.roles, r.id = u.roleId) (hhome : s.roleHome u.roleId = some u.tenantId)
      (htoken : ∃ t ∈ s.authTokens, t.id = tokenId ∧ t.email = some u.email) :
      Change L s .plain (s.accept tokenId u)
  | reset (tokenId userId : ℕ) (password : PasswordHash) (huser : ∃ u ∈ s.users, u.id = userId)
      (htoken : ∃ t ∈ s.authTokens, t.id = tokenId) :
      Change L s (.reset tokenId) (s.resetPassword tokenId userId password)
  | pending (p : PendingSignup) (hnumber : L (.number p.id)) (hnew : s.signupEmail p.id = none) :
      Change L s .plain (s.putPending p)
  | provision (tenant : Tenant) (roles : List Role) (owner : User) (pending : Option PendingSignup)
      (note : Note) (hnote : ∀ p ∈ pending, note = .provision p.id)
      (hlock : L (.lock (.tenant tenant.id))) (hemail : L (.lock (.email owner.email)))
      (hroles : ∀ r ∈ roles, L (.number r.id) ∧ s.roleHome r.id = none ∧ r.tenantId = tenant.id)
      (howner : owner.tenantId = tenant.id) (hrole : ∃ r ∈ roles, r.id = owner.roleId)
      (hnumber : L (.number owner.id)) (hnew : ∀ x ∈ s.users, x.id ≠ owner.id)
      (hfree : s.emailTaken owner.email = false)
      (hsignup : ∀ p ∈ pending, s.signupEmail p.id = some owner.email) :
      Change L s note (s.provision tenant roles owner pending)
  | finish (p : PendingSignup) (ownerId : ℕ)
      (huse : ⟨.signup p.id, ownerId, p.passwordHash⟩ ∈ s.uses) :
      Change L s .plain (s.finishSignup p ownerId)

variable {L : Hold LockKey → Prop} {s s' : AccountDb} {note : Note} {n : ℕ}

/-! ### Roles -/

/-- A role keeps the restaurant it was made for. -/
theorem roleHome_putRoles {roles : List Role} (hnew : ∀ r ∈ roles, s.roleHome r.id = none) {id t : ℕ}
    (h : s.roleHome id = some t) : (s.putRoles roles).roleHome id = some t := by
  have hnone : roles.find? (fun r => r.id = id) = none := by
    refine List.find?_eq_none.mpr fun r hr hid => ?_
    have hfresh := hnew r hr
    rw [of_decide_eq_true hid, h] at hfresh
    cases hfresh
  simp only [AccountDb.putRoles, hnone, Option.map_none, Option.none_or, h]

/-- Roles are made for one restaurant. -/
theorem roleHome_putRoles_new {roles : List Role} {t : ℕ} (hroles : ∀ r ∈ roles, r.tenantId = t)
    {id : ℕ} (h : ∃ r ∈ roles, r.id = id) : (s.putRoles roles).roleHome id = some t := by
  obtain ⟨r, hr, hid⟩ := h
  obtain ⟨q, hq⟩ := Option.isSome_iff_exists.mp
    (List.find?_isSome.mpr ⟨r, hr, decide_eq_true hid⟩ :
      (roles.find? fun r => r.id = id).isSome = true)
  simp only [AccountDb.putRoles, hq, Option.map_some, Option.some_or,
    hroles q (List.mem_of_find?_eq_some hq)]

/-- A role that has a home has been there, or is one of these. -/
theorem roleHome_putRoles_cases {roles : List Role} {id t : ℕ}
    (h : (s.putRoles roles).roleHome id = some t) :
    s.roleHome id = some t ∨ ∃ r ∈ roles, r.id = id := by
  cases hfind : roles.find? fun r => r.id = id with
  | none =>
    left
    simpa only [AccountDb.putRoles, hfind, Option.map_none, Option.none_or] using h
  | some r =>
    have hid := List.find?_some hfind
    exact .inr ⟨r, List.mem_of_find?_eq_some hfind, of_decide_eq_true hid⟩

theorem mem_editRole {actor id : ℕ} {name : String} {permissions : List String} {r : Role} :
    r ∈ (s.editRole actor id name permissions).roles ↔ ∃ q ∈ s.roles,
      r = if q.id = id then { q with name := name, permissions := permissions } else q := by
  refine (KeyedTable.mem_modify
    (f := fun r : Role => { r with name := name, permissions := permissions }) fun _ => rfl).trans ?_
  simp only [decide_eq_true_eq]

theorem mem_removeRole {actor id : ℕ} {r : Role} :
    r ∈ (s.removeRole actor id).roles ↔ r ∈ s.roles ∧ r.id ≠ id := by
  refine KeyedTable.mem_delete.trans ?_
  rw [decide_eq_false_iff_not]

theorem rolePermissions_eq {r : Role} (hr : r ∈ s.roles) : s.rolePermissions r.id = r.permissions := by
  rw [AccountDb.rolePermissions, KeyedTable.find?_of_mem hr]
  rfl

/-! ### Users and tokens -/

theorem mem_modifyUsers {id : ℕ} {f : User → User} (hf : ∀ u, (f u).id = u.id) {u : User} :
    u ∈ s.users.modify (fun u => u.id = id) f hf ↔
      ∃ v ∈ s.users, u = if v.id = id then f v else v := by
  refine (KeyedTable.mem_modify hf).trans ?_
  simp only [decide_eq_true_eq]

theorem mem_assignRole {actor userId roleId : ℕ} {u : User} :
    u ∈ (s.assignRole actor userId roleId).users ↔
      ∃ v ∈ s.users, u = if v.id = userId then { v with roleId := roleId } else v :=
  mem_modifyUsers (f := fun v : User => { v with roleId := roleId }) fun _ => rfl

theorem mem_useToken {id : ℕ} {t : AuthToken} : t ∈ (s.useToken id).authTokens ↔
    ∃ q ∈ s.authTokens, t = if q.id = id then q.use s.now else q := by
  refine (KeyedTable.mem_modify (f := AuthToken.use s.now) fun _ => rfl).trans ?_
  simp only [decide_eq_true_eq]

/-- The same user, but perhaps on another role and with another password. -/
structure User.Same (u u' : User) : Prop where
  id : u'.id = u.id
  tenantId : u'.tenantId = u.tenantId
  email : u'.email = u.email
  isActive : u'.isActive = u.isActive

theorem User.Same.refl (u : User) : u.Same u := ⟨rfl, rfl, rfl, rfl⟩

/-- The same link, perhaps used. -/
structure AuthToken.Same (t t' : AuthToken) : Prop where
  id : t'.id = t.id
  tenantId : t'.tenantId = t.tenantId
  email : t'.email = t.email
  roleId : t'.roleId = t.roleId

theorem AuthToken.Same.refl (t : AuthToken) : t.Same t := ⟨rfl, rfl, rfl, rfl⟩

theorem emailTaken_eq_false {email : String} :
    s.emailTaken email = false ↔ ∀ u ∈ s.users, u.email ≠ email := by
  simp only [AccountDb.emailTaken, List.any_eq_false, decide_eq_true_eq, KeyedTable.mem_def]

/-- What a commit does to a user. -/
structure UserStep (L : Hold LockKey → Prop) (s s' : AccountDb) (u u' : User) : Prop
    extends u.Same u' where
  role : u'.roleId = u.roleId ∨ L (.lock (.tenant u.tenantId)) ∧
    (∃ r ∈ s.roles, r.id = u'.roleId ∧ r.tenantId = u.tenantId) ∧ s'.roles = s.roles

/-- What a commit knows of a user who is new. -/
structure NewUser (L : Hold LockKey → Prop) (s s' : AccountDb) (u : User) : Prop where
  tenant : L (.lock (.tenant u.tenantId))
  email : L (.lock (.email u.email))
  number : L (.number u.id)
  new : ∀ x ∈ s.users, x.id ≠ u.id
  free : ∀ x ∈ s.users, x.email ≠ u.email
  role : ∃ r ∈ s'.roles, r.id = u.roleId
  home : s'.roleHome u.roleId = some u.tenantId

/-- Every commit does a step to each user, or there is a new one. -/
theorem Change.users (h : Change L s note s') :
    (∃ g : User → User, (∀ u ∈ s.users, UserStep L s s' u (g u)) ∧
      ∀ u', u' ∈ s'.users ↔ ∃ u ∈ s.users, u' = g u) ∨
    ∃ u, NewUser L s s' u ∧ ∀ u', u' ∈ s'.users ↔ u' = u ∨ u' ∈ s.users := by
  have hsame : s'.users = s.users → ∃ g : User → User, (∀ u ∈ s.users, UserStep L s s' u (g u)) ∧
      ∀ u', u' ∈ s'.users ↔ ∃ u ∈ s.users, u' = g u := by
    intro heq
    refine ⟨id, fun u _ => ⟨.refl u, .inl rfl⟩, fun u' => ?_⟩
    rw [heq]
    exact ⟨fun hu => ⟨u', hu, rfl⟩, fun ⟨u, hu, huu'⟩ => huu' ▸ hu⟩
  have hmodify : ∀ (id : ℕ) (f : User → User) (hf : ∀ u, (f u).id = u.id),
      s'.users = s.users.modify (fun u => u.id = id) f hf →
      (∀ u ∈ s.users, u.id = id → UserStep L s s' u (f u)) →
      ∃ g : User → User, (∀ u ∈ s.users, UserStep L s s' u (g u)) ∧
        ∀ u', u' ∈ s'.users ↔ ∃ u ∈ s.users, u' = g u := by
    intro id f hf heq hstep
    refine ⟨fun u => if u.id = id then f u else u, fun u hu => ?_, fun u' => ?_⟩
    · dsimp only
      split
      · exact hstep u hu ‹_›
      · exact ⟨.refl u, .inl rfl⟩
    · rw [heq]
      exact mem_modifyUsers hf
  have hput : ∀ u : User, s'.users = s.users.put u → (∀ x ∈ s.users, x.id ≠ u.id) →
      ∀ u', u' ∈ s'.users ↔ u' = u ∨ u' ∈ s.users := by
    intro u heq hnew u'
    rw [heq, KeyedTable.mem_put]
    exact or_congr_right ⟨And.left, fun hu' => ⟨hu', hnew u' hu'⟩⟩
  cases h with
  | assignRole user u r hlock hu hr htenant =>
    refine .inl (hmodify u.id (fun v => { v with roleId := r.id }) (fun _ => rfl) rfl
      fun v hv hid => ⟨⟨rfl, rfl, rfl, rfl⟩, .inr ?_⟩)
    obtain rfl := KeyedTable.eq_of_mem hv hu hid
    exact ⟨htenant ▸ hlock, ⟨r, hr, rfl, htenant.symm⟩, rfl⟩
  | reset tokenId userId password =>
    exact .inl (hmodify userId (User.resetPassword password) (fun _ => rfl) rfl
      fun _ _ _ => ⟨⟨rfl, rfl, rfl, rfl⟩, .inl rfl⟩)
  | finish p ownerId =>
    exact .inl (hmodify ownerId (fun v => { v with passwordHash := p.passwordHash }) (fun _ => rfl)
      rfl fun _ _ _ => ⟨⟨rfl, rfl, rfl, rfl⟩, .inl rfl⟩)
  | accept tokenId u hlock hemail hnumber hnew hfree hrole hhome =>
    exact .inr ⟨u, ⟨hlock, hemail, hnumber, hnew, emailTaken_eq_false.mp hfree, hrole, hhome⟩,
      hput u rfl hnew⟩
  | provision tenant roles u pending _ _ hlock hemail hroles howner hrole hnumber hnew hfree =>
    refine .inr ⟨u, ⟨howner ▸ hlock, hemail, hnumber, hnew, emailTaken_eq_false.mp hfree, ?_, ?_⟩,
      hput u rfl hnew⟩
    · exact KeyedTable.exists_foldl_put (.inl hrole)
    · rw [howner]
      exact roleHome_putRoles_new (fun r hr => (hroles r hr).2.2) hrole
  | _ => exact .inl (hsame rfl)

/-- Where a role comes from: it was there, perhaps with another name and permissions, or it is
new. -/
theorem Change.role (h : Change L s note s') {r' : Role} (hr' : r' ∈ s'.roles) :
    (∃ r ∈ s.roles, r'.id = r.id ∧ r'.tenantId = r.tenantId ∧
      (r' = r ∨ L (.lock (.tenant r.tenantId)))) ∨
    L (.number r'.id) ∧ L (.lock (.tenant r'.tenantId)) ∧ s.roleHome r'.id = none ∧
      s'.roleHome r'.id = some r'.tenantId := by
  cases h with
  | createRole user r hlock hnumber hnew =>
    rcases KeyedTable.mem_foldl_put hr' with hr' | hr'
    · obtain rfl := List.mem_singleton.mp hr'
      exact .inr ⟨hnumber, hlock, hnew, roleHome_putRoles_new (fun q hq => by
        rw [List.mem_singleton.mp hq]) ⟨r', hr', rfl⟩⟩
    · exact .inl ⟨r', hr', rfl, rfl, .inl rfl⟩
  | editRole user r name permissions hlock hr =>
    obtain ⟨q, hq, rfl⟩ := mem_editRole.mp hr'
    by_cases hid : q.id = r.id
    · rw [if_pos hid]
      obtain rfl := KeyedTable.eq_of_mem hq hr hid
      exact .inl ⟨q, hq, rfl, rfl, .inr hlock⟩
    · rw [if_neg hid]
      exact .inl ⟨q, hq, rfl, rfl, .inl rfl⟩
  | removeRole user r =>
    exact .inl ⟨r', (mem_removeRole.mp hr').1, rfl, rfl, .inl rfl⟩
  | provision tenant roles owner pending _ _ hlock _ hroles =>
    rcases KeyedTable.mem_foldl_put hr' with hr' | hr'
    · obtain ⟨hnumber, hnew, htenant⟩ := hroles r' hr'
      exact .inr ⟨hnumber, htenant ▸ hlock, hnew, htenant ▸
        roleHome_putRoles_new (fun q hq => (hroles q hq).2.2) ⟨r', hr', rfl⟩⟩
    · exact .inl ⟨r', hr', rfl, rfl, .inl rfl⟩
  | _ => exact .inl ⟨r', hr', rfl, rfl, .inl rfl⟩

/-- A role stays, perhaps with another name and permissions, while a user is on it. -/
theorem Change.keeps_role (h : Change L s note s') (hs : Sound s n) {r : Role} (hr : r ∈ s.roles) :
    (∃ r' ∈ s'.roles, r'.id = r.id ∧ (r' = r ∨ L (.lock (.tenant r.tenantId)))) ∨
      L (.lock (.tenant r.tenantId)) ∧ ∀ u ∈ s.users, u.roleId ≠ r.id := by
  have hkept : ∀ {roles : List Role}, (∀ q ∈ roles, s.roleHome q.id = none) →
      r ∈ roles.foldl .put s.roles := by
    intro roles hnew
    refine KeyedTable.mem_foldl_put_of_ne hr fun q hq hid => ?_
    have hhome := hs.roleHomes r hr
    rw [hid, hnew q hq] at hhome
    cases hhome
  cases h with
  | createRole user q hlock hnumber hnew =>
    exact .inl ⟨r, hkept (fun x hx => by rwa [List.mem_singleton.mp hx]), rfl, .inl rfl⟩
  | editRole user q name permissions hlock hq =>
    by_cases hid : r.id = q.id
    · obtain rfl := KeyedTable.eq_of_mem hr hq hid
      exact .inl ⟨_, mem_editRole.mpr ⟨r, hr, rfl⟩, by rw [if_pos rfl], .inr hlock⟩
    · exact .inl ⟨r, mem_editRole.mpr ⟨r, hr, (if_neg hid).symm⟩, rfl, .inl rfl⟩
  | removeRole user q hlock hq htouch hfree =>
    by_cases hid : r.id = q.id
    · obtain rfl := KeyedTable.eq_of_mem hr hq hid
      exact .inr ⟨hlock, hfree⟩
    · exact .inl ⟨r, mem_removeRole.mpr ⟨hr, hid⟩, rfl, .inl rfl⟩
  | provision tenant roles owner pending _ _ _ _ hroles =>
    exact .inl ⟨r, hkept (fun q hq => (hroles q hq).2.1), rfl, .inl rfl⟩
  | _ => exact .inl ⟨r, hr, rfl, .inl rfl⟩

/-- A role keeps its home. -/
theorem Change.roleHome (h : Change L s note s') {id t : ℕ} (hid : s.roleHome id = some t) :
    s'.roleHome id = some t := by
  cases h with
  | createRole user r _ _ hnew =>
    exact roleHome_putRoles (fun q hq => by rwa [List.mem_singleton.mp hq]) hid
  | provision _ _ _ _ _ _ _ _ hroles => exact roleHome_putRoles (fun r hr => (hroles r hr).2.1) hid
  | _ => exact hid

/-- What has a home had it, or has just been drawn. -/
theorem Change.roleHome_cases (h : Change L s note s') {id t : ℕ} (hid : s'.roleHome id = some t) :
    s.roleHome id = some t ∨ L (.number id) := by
  cases h with
  | createRole user r _ hnumber =>
    refine (roleHome_putRoles_cases hid).imp_right fun ⟨q, hq, heq⟩ => ?_
    rw [← heq, List.mem_singleton.mp hq]
    exact hnumber
  | provision _ _ _ _ _ _ _ _ hroles =>
    exact (roleHome_putRoles_cases hid).imp_right fun ⟨r, hr, heq⟩ => heq ▸ (hroles r hr).1
  | _ => exact .inl hid

/-- A signup keeps the email it was for. -/
theorem Change.signupEmail (h : Change L s note s') {id : ℕ} {email : String}
    (hid : s.signupEmail id = some email) : s'.signupEmail id = some email := by
  cases h with
  | pending p _ hnew =>
    refine (if_neg fun heq => ?_).trans hid
    rw [heq, hnew] at hid
    cases hid
  | _ => exact hid

theorem Change.signupEmail_cases (h : Change L s note s') {id : ℕ} {email : String}
    (hid : s'.signupEmail id = some email) : s.signupEmail id = some email ∨ L (.number id) := by
  cases h with
  | pending p hnumber =>
    by_cases heq : id = p.id
    · exact .inr (heq ▸ hnumber)
    · exact .inl ((if_neg heq).symm.trans hid)
  | _ => exact .inl hid

/-- A link stays, perhaps used. -/
theorem Change.keeps_token (h : Change L s note s') {t : AuthToken} (ht : t ∈ s.authTokens) :
    ∃ t' ∈ s'.authTokens, t.Same t' ∧ (t.usedAt ≠ none → t'.usedAt ≠ none) := by
  have hput : ∀ x : AuthToken, (∀ y ∈ s.authTokens, y.id ≠ x.id) →
      t ∈ s.authTokens.put x := fun x hnew => KeyedTable.mem_put.mpr (.inr ⟨ht, hnew t ht⟩)
  have huse : ∀ id : ℕ, ∃ t' ∈ (s.useToken id).authTokens, t.Same t' ∧
      (t.usedAt ≠ none → t'.usedAt ≠ none) := by
    intro id
    refine ⟨_, mem_useToken.mpr ⟨t, ht, rfl⟩, ?_⟩
    split
    · exact ⟨⟨rfl, rfl, rfl, rfl⟩, fun _ => Option.some_ne_none _⟩
    · exact ⟨.refl t, fun h => h⟩
  cases h with
  | invite user x roleId permissions _ hnew => exact ⟨t, hput x hnew, .refl t, fun h => h⟩
  | token x _ hnew => exact ⟨t, hput x hnew, .refl t, fun h => h⟩
  | accept tokenId => exact huse tokenId
  | reset tokenId => exact huse tokenId
  | _ => exact ⟨t, ht, .refl t, fun h => h⟩

/-- A link was there, or has just been made. -/
theorem Change.token_cases (h : Change L s note s') {t' : AuthToken} (ht' : t' ∈ s'.authTokens) :
    (∃ t ∈ s.authTokens, t.Same t') ∨ L (.number t'.id) ∧ ∀ roleId tenantId,
      t'.roleId = some roleId → t'.tenantId = some tenantId → s'.roleHome roleId = some tenantId := by
  have huse : ∀ id : ℕ, t' ∈ (s.useToken id).authTokens → ∃ t ∈ s.authTokens, t.Same t' := by
    intro id ht'
    obtain ⟨t, ht, rfl⟩ := mem_useToken.mp ht'
    refine ⟨t, ht, ?_⟩
    split
    · exact ⟨rfl, rfl, rfl, rfl⟩
    · exact .refl t
  cases h with
  | invite user x roleId permissions hnumber _ hrole hhome =>
    rcases KeyedTable.mem_put.mp ht' with rfl | ⟨ht', -⟩
    · refine .inr ⟨hnumber, fun k tenantId hk htenant => ?_⟩
      rw [← htenant, Option.some.inj (hk.symm.trans hrole)]
      exact hhome
    · exact .inl ⟨t', ht', .refl t'⟩
  | token x hnumber _ hrole =>
    rcases KeyedTable.mem_put.mp ht' with rfl | ⟨ht', -⟩
    · refine .inr ⟨hnumber, fun k tenantId hk _ => ?_⟩
      rw [hrole] at hk
      cases hk
    · exact .inl ⟨t', ht', .refl t'⟩
  | accept tokenId => exact .inl (huse tokenId ht')
  | reset tokenId => exact .inl (huse tokenId ht')
  | _ => exact .inl ⟨t', ht', .refl t'⟩

/-! ### In order -/

/-- Users stay, on a role of their restaurant. -/
theorem Change.user (h : Change L s note s') {u : User} (hu : u ∈ s.users) :
    ∃ u' ∈ s'.users, u.Same u' := by
  rcases h.users with ⟨g, hg, hmem⟩ | ⟨v, -, hmem⟩
  · exact ⟨g u, (hmem _).mpr ⟨u, hu, rfl⟩, (hg u hu).toSame⟩
  · exact ⟨u, (hmem u).mpr (.inr hu), .refl u⟩

/-- The roles that users are on are there. -/
theorem Change.onRole (h : Change L s note s') (hs : Sound s n) {u : User} (hu : u ∈ s'.users) :
    ∃ r ∈ s'.roles, r.id = u.roleId := by
  have hold : ∀ u ∈ s.users, ∃ r ∈ s'.roles, r.id = u.roleId := by
    intro u hu
    obtain ⟨r, hr, hid⟩ := hs.onRole u hu
    rcases h.keeps_role hs hr with ⟨r', hr', hid', -⟩ | ⟨-, hfree⟩
    · exact ⟨r', hr', hid'.trans hid⟩
    · exact absurd hid.symm (hfree u hu)
  rcases h.users with ⟨g, hg, hmem⟩ | ⟨v, hv, hmem⟩
  · obtain ⟨v, hv, rfl⟩ := (hmem u).mp hu
    rcases (hg v hv).role with hsame | ⟨-, ⟨r, hr, hid, -⟩, hroles⟩
    · rw [hsame]
      exact hold v hv
    · exact ⟨r, hroles ▸ hr, hid⟩
  · rcases (hmem u).mp hu with rfl | hu
    · exact hv.role
    · exact hold u hu

/-- Changes keep the accounts in order. -/
theorem Change.sound (h : Change L s note s') (hs : Sound s n)
    (hdrawn : ∀ m, L (.number m) → m < n) : Sound s' n where
  userIds u hu := by
    rcases h.users with ⟨g, hg, hmem⟩ | ⟨v, hv, hmem⟩
    · obtain ⟨v, hv, rfl⟩ := (hmem u).mp hu
      exact (hg v hv).id.symm ▸ hs.userIds v hv
    · rcases (hmem u).mp hu with rfl | hu
      · exact hdrawn _ hv.number
      · exact hs.userIds u hu
  tokenIds t ht := by
    rcases h.token_cases ht with ⟨x, hx, hsame⟩ | ⟨hnumber, -⟩
    · exact hsame.id.symm ▸ hs.tokenIds x hx
    · exact hdrawn _ hnumber
  homeIds id t hid := (h.roleHome_cases hid).elim (hs.homeIds id t) (hdrawn id)
  signupIds id email hid := (h.signupEmail_cases hid).elim (hs.signupIds id email) (hdrawn id)
  emails u hu v hv hemail := by
    rcases h.users with ⟨g, hg, hmem⟩ | ⟨x, hx, hmem⟩
    · obtain ⟨u', hu', rfl⟩ := (hmem _).mp hu
      obtain ⟨v', hv', rfl⟩ := (hmem _).mp hv
      rw [(hg u' hu').email, (hg v' hv').email] at hemail
      rw [(hg u' hu').id, (hg v' hv').id]
      exact hs.emails u' hu' v' hv' hemail
    · rcases (hmem u).mp hu with rfl | hu <;> rcases (hmem v).mp hv with rfl | hv
      · rfl
      · exact absurd hemail.symm (hx.free v hv)
      · exact absurd hemail (hx.free u hu)
      · exact hs.emails u hu v hv hemail
  roleHomes r' hr' := by
    rcases h.role hr' with ⟨r, hr, hid, htenant, -⟩ | ⟨-, -, -, hhome⟩
    · rw [hid, htenant]
      exact h.roleHome (hs.roleHomes r hr)
    · exact hhome
  onRole u hu := h.onRole hs hu
  userHomes u hu := by
    rcases h.users with ⟨g, hg, hmem⟩ | ⟨v, hv, hmem⟩
    · obtain ⟨v, hv, rfl⟩ := (hmem u).mp hu
      rw [(hg v hv).tenantId]
      rcases (hg v hv).role with hsame | ⟨-, ⟨r, hr, hid, htenant⟩, -⟩
      · rw [hsame]
        exact h.roleHome (hs.userHomes v hv)
      · rw [← hid, ← htenant]
        exact h.roleHome (hs.roleHomes r hr)
    · rcases (hmem u).mp hu with rfl | hu
      · exact hv.home
      · exact h.roleHome (hs.userHomes u hu)
  invited t ht roleId tenantId hrole htenant := by
    rcases h.token_cases ht with ⟨x, hx, hsame⟩ | ⟨-, hhome⟩
    · exact h.roleHome (hs.invited x hx roleId tenantId (hsame.roleId ▸ hrole)
        (hsame.tenantId ▸ htenant))
    · exact hhome roleId tenantId hrole htenant
  signups p hp := by
    cases h with
    | pending q _ hnew =>
      rcases KeyedTable.mem_put.mp hp with rfl | ⟨hp, hne⟩
      · exact if_pos rfl
      · exact (if_neg hne).trans (hs.signups p hp)
    | finish q ownerId => exact hs.signups p (KeyedTable.mem_delete.mp hp).1
    | _ => exact hs.signups p hp

/-! ### The staff of a restaurant that is locked -/

theorem UserStep.member {u u' : User} (h : UserStep L s s' u u')
    (hlock : ¬L (.lock (.tenant u.tenantId))) : u'.member = u.member := by
  have hrole : u'.roleId = u.roleId := h.role.resolve_right fun hlocked => hlock hlocked.1
  simp only [User.member, h.id, h.tenantId, h.isActive, hrole]

/-- Who does not hold its lock leaves the staff of a restaurant as it is. -/
theorem Change.staff (h : Change L s note s') (hs : Sound s n) {t : ℕ}
    (hlock : ¬L (.lock (.tenant t))) : s'.staff t = s.staff t := by
  refine Prod.ext (Set.ext fun r => ⟨?_, ?_⟩) (Set.ext fun m => ⟨?_, ?_⟩)
  · rintro ⟨hr, rfl⟩
    rcases h.role hr with ⟨q, hq, -, htenant, heq | hlocked⟩ | ⟨-, hlocked, -⟩
    · exact heq ▸ ⟨hq, rfl⟩
    · exact absurd (htenant ▸ hlocked) hlock
    · exact absurd hlocked hlock
  · rintro ⟨hr, rfl⟩
    rcases h.keeps_role hs hr with ⟨r', hr', -, heq | hlocked⟩ | ⟨hlocked, -⟩
    · exact ⟨heq ▸ hr', rfl⟩
    · exact absurd hlocked hlock
    · exact absurd hlocked hlock
  · rintro ⟨htenant, u', hu', rfl⟩
    refine ⟨htenant, ?_⟩
    rcases h.users with ⟨g, hg, hmem⟩ | ⟨v, hv, hmem⟩
    · obtain ⟨u, hu, rfl⟩ := (hmem u').mp hu'
      refine ⟨u, hu, ((hg u hu).member fun hlocked => hlock ?_).symm⟩
      rwa [← htenant, show (g u).member.tenantId = u.tenantId from (hg u hu).tenantId]
    · rcases (hmem u').mp hu' with rfl | hu
      · exact absurd (htenant ▸ hv.tenant) hlock
      · exact ⟨u', hu, rfl⟩
  · rintro ⟨htenant, u, hu, rfl⟩
    refine ⟨htenant, ?_⟩
    rcases h.users with ⟨g, hg, hmem⟩ | ⟨v, hv, hmem⟩
    · exact ⟨g u, (hmem _).mpr ⟨u, hu, rfl⟩, (hg u hu).member fun hlocked => hlock (htenant ▸ hlocked)⟩
    · exact ⟨u, (hmem u).mpr (.inr hu), rfl⟩

/-! ### What is drawn -/

/-- Nothing has been made under this number. -/
structure Unused (n : ℕ) (s : AccountDb) : Prop where
  user : ∀ u ∈ s.users, u.id ≠ n
  token : ∀ t ∈ s.authTokens, t.id ≠ n
  role : s.roleHome n = none
  signup : s.signupEmail n = none

theorem Sound.unused (h : Sound s n) : Unused n s where
  user u hu := (h.userIds u hu).ne
  token t ht := (h.tokenIds t ht).ne
  role := Option.eq_none_iff_forall_ne_some.mpr fun k hk => lt_irrefl n (h.homeIds n k hk)
  signup := Option.eq_none_iff_forall_ne_some.mpr fun k hk => lt_irrefl n (h.signupIds n k hk)

/-- What others have not drawn they make nothing under. -/
theorem Change.unused (h : Change L s note s') {m : ℕ} (hm : ¬L (.number m)) (hs : Unused m s) :
    Unused m s' where
  user u' hu' := by
    rcases h.users with ⟨g, hg, hmem⟩ | ⟨v, hv, hmem⟩
    · obtain ⟨u, hu, rfl⟩ := (hmem u').mp hu'
      exact (hg u hu).id.symm ▸ hs.user u hu
    · rcases (hmem u').mp hu' with rfl | hu
      · exact fun heq => hm (heq ▸ hv.number)
      · exact hs.user u' hu
  token t' ht' := by
    rcases h.token_cases ht' with ⟨t, ht, hsame⟩ | ⟨hnumber, -⟩
    · exact hsame.id.symm ▸ hs.token t ht
    · exact fun heq => hm (heq ▸ hnumber)
  role := Option.eq_none_iff_forall_ne_some.mpr fun k hk => by
    rcases h.roleHome_cases hk with hk | hnumber
    · rw [hs.role] at hk
      cases hk
    · exact hm hnumber
  signup := Option.eq_none_iff_forall_ne_some.mpr fun k hk => by
    rcases h.signupEmail_cases hk with hk | hnumber
    · rw [hs.signup] at hk
      cases hk
    · exact hm hnumber

/-- Who does not hold its lock takes no email. -/
theorem Change.email_free (h : Change L s note s') {email : String}
    (hlock : ¬L (.lock (.email email))) (hs : s.emailTaken email = false) :
    s'.emailTaken email = false := by
  rw [emailTaken_eq_false] at hs ⊢
  intro u' hu'
  rcases h.users with ⟨g, hg, hmem⟩ | ⟨v, hv, hmem⟩
  · obtain ⟨u, hu, rfl⟩ := (hmem u').mp hu'
    exact (hg u hu).email.symm ▸ hs u hu
  · rcases (hmem u').mp hu' with rfl | hu
    · exact fun heq => hlock (heq ▸ hv.email)
    · exact hs u' hu

/-- What took effect stays so. -/
theorem Change.uses (h : Change L s note s') {x : LinkUse} (hx : x ∈ s.uses) : x ∈ s'.uses := by
  cases h with
  | accept => exact List.mem_append_left _ hx
  | reset => exact List.mem_append_left _ hx
  | provision => exact List.mem_append_left _ hx
  | _ => exact hx

end StelloKitchens.Accounts
