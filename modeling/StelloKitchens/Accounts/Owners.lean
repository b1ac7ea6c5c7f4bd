import StelloKitchens.Accounts.Kept

/-!
# An owner remains

An owner disappears when the role is edited or the person is moved. Both look for another active
owner while they hold the lock of the restaurant, so that the one they have found is still there
when they commit; a role is deleted only when no one is on it.

## Main results

* `Change.hasOwner` — changes leave an owner.
* `owner_remains` — the owners of a restaurant over all interleavings.
-/

namespace StelloKitchens.Accounts

open Process

variable {L : Hold LockKey → Prop} {s s' : AccountDb} {note : Note} {n t : ℕ}

theorem hasOwner_of {u : User} {r : Role} (hu : u ∈ s.users) (htenant : u.tenantId = t)
    (hactive : u.isActive = true) (hr : r ∈ s.roles) (hid : r.id = u.roleId)
    (howner : isOwnerLevel r.permissions = true) : s.HasOwner t := by
  refine ⟨u, hu, htenant, hactive, ?_⟩
  rwa [← hid, rolePermissions_eq hr]

theorem AccountDb.HasOwner.exists (h : s.HasOwner t) (hs : Sound s n) : ∃ u ∈ s.users,
    u.tenantId = t ∧ u.isActive = true ∧ ∃ r ∈ s.roles, r.id = u.roleId ∧ r.tenantId = t ∧
      isOwnerLevel r.permissions = true := by
  obtain ⟨u, hu, rfl, hactive, howner⟩ := h
  obtain ⟨r, ⟨hr, htenant⟩, hid, hperms⟩ := exists_role hs hu
  exact ⟨u, hu, rfl, hactive, r, hr, hid, htenant, hperms ▸ howner⟩

/-- Changes leave an owner. -/
theorem Change.hasOwner (h : Change L s note s') (hs : Sound s n) (howner : s.HasOwner t) :
    s'.HasOwner t := by
  obtain ⟨u, hu, htenant, hactive, r, hr, hid, hrt, hlevel⟩ := howner.exists hs
  -- roles that are made leave those that are there
  have hkept : ∀ {roles : List Role}, (∀ q ∈ roles, s.roleHome q.id = none) →
      r ∈ roles.foldl .put s.roles := by
    intro roles hnew
    refine KeyedTable.mem_foldl_put_of_ne hr fun q hq heq => ?_
    have hhome := hs.roleHomes r hr
    rw [heq, hnew q hq] at hhome
    cases hhome
  have hmodify : ∀ (id : ℕ) (f : User → User) (hf : ∀ u, (f u).id = u.id),
      (∀ u, (f u).tenantId = u.tenantId ∧ (f u).isActive = u.isActive ∧ (f u).roleId = u.roleId) →
      ∃ u' ∈ s.users.modify (fun u => u.id = id) f hf, u'.tenantId = t ∧ u'.isActive = true ∧
        r.id = u'.roleId := by
    intro id f hf hsame
    refine ⟨_, (mem_modifyUsers hf).mpr ⟨u, hu, rfl⟩, ?_⟩
    obtain ⟨htenant', hactive', hrole'⟩ := hsame u
    split
    · exact ⟨htenant'.trans htenant, hactive'.trans hactive, hid.trans hrole'.symm⟩
    · exact ⟨htenant, hactive, hid⟩
  have hput : ∀ v : User, (∀ x ∈ s.users, x.id ≠ v.id) → u ∈ s.users.put v :=
    fun v hnew => KeyedTable.mem_put.mpr (.inr ⟨hu, hnew u hu⟩)
  cases h with
  | createRole user q _ _ hnew =>
    exact hasOwner_of hu htenant hactive
      (hkept fun x hx => by rwa [List.mem_singleton.mp hx]) hid hlevel
  | editRole user q name permissions _ hq _ _ hremain =>
    by_cases hqr : r.id = q.id
    · obtain rfl := KeyedTable.eq_of_mem hr hq hqr
      cases hnext : isOwnerLevel permissions with
      | true =>
        refine hasOwner_of hu htenant hactive (mem_editRole.mpr ⟨r, hr, rfl⟩) ?_ ?_
        · rw [if_pos rfl]
          exact hid
        · rwa [if_pos rfl]
      | false =>
        obtain ⟨v, hv, hvt, hva, -, hne, x, hx, hxid, hxlevel⟩ := hremain hlevel hnext
        have hxr : x.id ≠ r.id := fun heq => hne (congrArg some (hxid.symm.trans heq))
        exact hasOwner_of hv (hvt.trans hrt) hva (mem_editRole.mpr ⟨x, hx, (if_neg hxr).symm⟩) hxid
          hxlevel
    · exact hasOwner_of hu htenant hactive (mem_editRole.mpr ⟨r, hr, (if_neg hqr).symm⟩) hid hlevel
  | removeRole user q _ hq _ hfree =>
    have hne : r.id ≠ q.id := fun heq => hfree u hu (hid.symm.trans heq)
    exact hasOwner_of hu htenant hactive (mem_removeRole.mpr ⟨hr, hne⟩) hid hlevel
  | assignRole user v q _ hv hq hvq _ _ hremain =>
    have hmem : ∀ {x : User}, x ∈ s.users → x.id ≠ v.id → x ∈ (s.assignRole user.id v.id q.id).users :=
      fun {x} hx hne => mem_assignRole.mpr ⟨x, hx, (if_neg hne).symm⟩
    by_cases huv : u.id = v.id
    · obtain rfl := KeyedTable.eq_of_mem hu hv huv
      cases hnext : isOwnerLevel q.permissions with
      | true =>
        refine hasOwner_of (r := q) (mem_assignRole.mpr ⟨u, hu, (if_pos rfl).symm⟩) htenant hactive
          hq rfl hnext
      | false =>
        have hlevel' : isOwnerLevel (s.rolePermissions u.roleId) = true := by
          rwa [← hid, rolePermissions_eq hr]
        obtain ⟨x, hx, hxt, hxa, hne, -, y, hy, hyid, hylevel⟩ := hremain hlevel' hnext hactive
        have hxu : x.id ≠ u.id := fun heq => hne (congrArg some heq)
        exact hasOwner_of (hmem hx hxu) (hxt.trans (hvq.symm.trans htenant)) hxa hy hyid hylevel
    · exact hasOwner_of (hmem hu huv) htenant hactive hr hid hlevel
  | accept tokenId v _ _ _ hnew => exact hasOwner_of (hput v hnew) htenant hactive hr hid hlevel
  | reset tokenId userId password =>
    obtain ⟨u', hu', htenant', hactive', hid'⟩ := hmodify userId (User.resetPassword password)
      (fun _ => rfl) fun _ => ⟨rfl, rfl, rfl⟩
    exact hasOwner_of hu' htenant' hactive' hr hid' hlevel
  | finish p ownerId =>
    obtain ⟨u', hu', htenant', hactive', hid'⟩ := hmodify ownerId
      (fun v => { v with passwordHash := p.passwordHash }) (fun _ => rfl) fun _ => ⟨rfl, rfl, rfl⟩
    exact hasOwner_of hu' htenant' hactive' hr hid' hlevel
  | provision tenant roles owner pending _ _ _ _ hroles _ _ _ hnew =>
    exact hasOwner_of (hput owner hnew) htenant hactive (hkept fun q hq => (hroles q hq).2.1) hid
      hlevel
  | _ => exact hasOwner_of hu htenant hactive hr hid hlevel

/-- A restaurant that starts with an active owner has one in every state of every interleaving. -/
theorem owner_remains {tenantId : ℕ} {w : AccountWorld}
    (h : (accounts (·.HasOwner tenantId)).Reachable w) : w.db.HasOwner tenantId := by
  have hreach : (accounts (·.HasOwner tenantId)).Reach (World.Admits fun _ _ _ => True) w :=
    h.mono fun w a _ => World.admits_of_forall (fun _ _ _ => trivial) w a
  refine account_invariant (I := (·.HasOwner tenantId)) (fun _ _ _ hs => hs) ?_ hreach
  exact fun _ _ _ _ _ hs _ hchange => hchange.hasOwner hs

/-! ### Two owners who demote each other -/

/-- A restaurant with two owners and a role without access. -/
def twoOwners : AccountDb where
  now := 0
  tenants := .put .empty ⟨1, "Cafe", .signup⟩
  roles := (KeyedTable.empty.put ⟨2, 1, "Owner", ["*"]⟩).put ⟨3, 1, "Kitchen", ["kds.operate"]⟩
  users := (KeyedTable.empty.put ⟨4, 1, "asha@cafe", ⟨"a"⟩, "Asha", 2, true, true, 0⟩).put
    ⟨5, 1, "ravi@cafe", ⟨"r"⟩, "Ravi", 2, true, true, 0⟩
  authTokens := .empty
  pendingSignups := .empty
  roleHome id := if id = 2 ∨ id = 3 then some 1 else none
  signupEmail _ := none
  grants := []
  uses := []

theorem twoOwners_started : Started twoOwners 6 where
  userIds := by decide
  tokenIds := by decide
  homeIds id t h := by
    unfold twoOwners at h
    grind
  signupIds _ _ h := by cases h
  emails := by decide
  roleHomes := by decide
  onRole := by decide
  userHomes := by decide
  invited t ht := by cases ht
  signups := by decide
  grants := rfl
  uses := rfl

/-- A request runs until it ends or waits. -/
def accountRun (slot : ℕ) (request : AccountRequest) : List (WorldAction AccountRequest Empty) :=
  .start slot request :: WorldAction.steps slot 40

/-- The second owner has signed the request to move the first, and waits while the first moves the
second. -/
def crossedRun : List (WorldAction AccountRequest Empty) :=
  .start 1 (.assignRole ⟨4, 0⟩ 5 3) :: WorldAction.steps 1 5 ++
    accountRun 2 (.assignRole ⟨5, 0⟩ 4 3) ++ WorldAction.steps 1 40 ++ WorldAction.steps 2 40

/-- Of two owners who demote each other one remains. -/
theorem owner_remains_crossed :
    let w := (accounts (·.HasOwner 1)).run (.atRest twoOwners 6) crossedRun
    w.answers.length = 2 ∧ w.db.users.rows.map (·.roleId) = [2, 3] ∧ w.db.HasOwner 1 :=
  ⟨by decide +kernel, by decide +kernel,
    owner_remains (Machine.reachable_run _ (.init ⟨⟨twoOwners_started, by decide⟩, rfl, rfl⟩))⟩

end StelloKitchens.Accounts
