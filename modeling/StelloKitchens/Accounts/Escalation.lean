import StelloKitchens.Accounts.Owners

/-!
# No one grants more than they hold

What someone may grant is checked against the permissions that were read when the request was
signed. By the time the change commits, the role of the one who makes it may have been reduced: the
lock of the restaurant keeps the roles and people that are touched as they were checked, but not
who touches them. An invitation is not under the lock at all.

## Main definitions

* `grantAdmits` — who commits a change still holds what was read of their role, and the role of an
  invitation has gained nothing.

## Main results

* `no_escalation` — grants over all interleavings.
-/

namespace StelloKitchens.Accounts

open Process

/-- When a change commits, the role of the one who makes it still covers what it covered when the
request was signed, and the role that an invitation is for grants nothing that it did not when it
was checked. -/
def grantAdmits : Note → (Hold LockKey → Prop) → AccountDb → Prop
  | .grant user, _, s => missingPermissions (s.permissionsOf user.id) user.permissions = []
  | .invite user roleId permissions, _, s =>
    missingPermissions (s.permissionsOf user.id) user.permissions = [] ∧
      s.rolePermissions roleId ⊆ permissions
  | _, _, _ => True

instance (note : Note) (held : List (Hold LockKey)) (s : AccountDb) :
    Decidable (grantAdmits note (· ∈ held) s) :=
  match note with
  | .grant user =>
    inferInstanceAs (Decidable (missingPermissions (s.permissionsOf user.id) user.permissions = []))
  | .invite user roleId permissions =>
    inferInstanceAs (Decidable (missingPermissions (s.permissionsOf user.id) user.permissions = [] ∧
      s.rolePermissions roleId ⊆ permissions))
  | .plain => .isTrue trivial
  | .reset _ => .isTrue trivial
  | .provision _ => .isTrue trivial

variable {L : Hold LockKey → Prop} {s s' : AccountDb} {note : Note} {n : ℕ}

theorem permissionsOf_eq {u : User} (hu : u ∈ s.users) :
    s.permissionsOf u.id = s.rolePermissions u.roleId := by
  rw [AccountDb.permissionsOf, KeyedTable.find?_of_mem hu]
  rfl

/-- A change that is covered by what the one who makes it holds. -/
theorem AccountDb.NoEscalation.record (h : s.NoEscalation) {actor : ℕ}
    {granted touched : List String} (hgrant : missingPermissions (s.permissionsOf actor) granted = [])
    (htouch : missingPermissions (s.permissionsOf actor) touched = []) :
    ∀ g ∈ s.recordGrant actor granted touched,
      missingPermissions g.held g.granted = [] ∧ missingPermissions g.held g.touched = [] := by
  intro g hg
  rcases List.mem_append.mp hg with hg | hg
  · exact h g hg
  · obtain rfl := List.mem_singleton.mp hg
    exact ⟨hgrant, htouch⟩

/-- A change that is admitted grants and touches what the one who makes it holds. -/
theorem Change.noEscalation (h : Change L s note s') (hadmits : grantAdmits note L s)
    (hs : s.NoEscalation) : s'.NoEscalation := by
  have hnothing : ∀ held, missingPermissions held [] = [] := fun held =>
    missingPermissions_eq_nil.mpr fun p hp => absurd hp List.not_mem_nil
  cases h with
  | createRole user r _ _ _ hgrant =>
    exact hs.record (missingPermissions_trans hadmits hgrant) (hnothing _)
  | editRole user r name permissions _ hr htouch hgrant =>
    refine hs.record (missingPermissions_trans hadmits hgrant) ?_
    rw [rolePermissions_eq hr]
    exact missingPermissions_trans hadmits htouch
  | removeRole user r _ hr htouch =>
    refine hs.record (hnothing _) ?_
    rw [rolePermissions_eq hr]
    exact missingPermissions_trans hadmits htouch
  | assignRole user u r _ hu hr _ htouch hgrant =>
    refine hs.record ?_ ?_
    · rw [rolePermissions_eq hr]
      exact missingPermissions_trans hadmits hgrant
    · rw [permissionsOf_eq hu]
      exact missingPermissions_trans hadmits htouch
  | invite user t roleId permissions _ _ _ _ hgrant =>
    obtain ⟨hheld, hsubset⟩ := hadmits
    exact hs.record (missingPermissions_trans hheld (missingPermissions_of_subset hgrant hsubset))
      (hnothing _)
  | _ => exact hs

/-- In every interleaving in which who commits a change of roles or an invitation still holds what
was read of their role, and roles that are invited to have gained nothing, every change grants and
touches only what the one who makes it holds when it commits. -/
theorem no_escalation {w : AccountWorld}
    (h : (accounts fun _ => True).Reach (World.Admits grantAdmits) w) : w.db.NoEscalation := by
  refine account_invariant (I := AccountDb.NoEscalation) (fun s n hs _ g hg => ?_)
    (fun _ _ _ _ _ _ hadmits hchange hs => hchange.noEscalation hadmits hs) h
  rw [hs.grants] at hg
  cases hg

/-! ### A manager who is demoted meanwhile -/

/-- A restaurant with an owner and a manager. -/
def oneManager : AccountDb :=
  { twoOwners with
    roles := (KeyedTable.empty.put ⟨2, 1, "Owner", ["*"]⟩).put
      ⟨3, 1, "Manager", ["roles.manage", "finance.manage"]⟩
    users := (KeyedTable.empty.put ⟨4, 1, "asha@cafe", ⟨"a"⟩, "Asha", 2, true, true, 0⟩).put
      ⟨5, 1, "ravi@cafe", ⟨"r"⟩, "Ravi", 3, true, true, 0⟩ }

theorem oneManager_started : Started oneManager 6 :=
  { twoOwners_started with
    userIds := by decide
    emails := by decide
    roleHomes := by decide
    onRole := by decide
    userHomes := by decide }

/-- The manager makes a role that may manage finances, and the owner takes that from the manager's
role. -/
def demotedRun (steps : ℕ) : List (WorldAction AccountRequest Empty) :=
  .start 1 (.createRole ⟨5, 0⟩ ⟨"Accounts", ["finance.manage"]⟩) :: WorldAction.steps 1 steps ++
    accountRun 2 (.updateRole ⟨4, 0⟩ 3 ⟨"Manager", ["roles.manage"]⟩) ++ WorldAction.steps 1 40

/-- Who is demoted while a request is under way can grant what they do not hold any more. -/
theorem not_no_escalation :
    ¬∀ w, (accounts fun _ => True).Reachable w → w.db.NoEscalation := by
  intro h
  have hgrants := h _ (Machine.reachable_run (demotedRun 2)
    (.init ⟨⟨oneManager_started, trivial⟩, rfl, rfl⟩ :
      (accounts fun _ => True).Reachable (.atRest oneManager 6)))
  revert hgrants
  decide +kernel

/-- The manager's role is reduced after the manager has made the role. -/
theorem no_escalation_demoted :
    let w := (accounts fun _ => True).run (.atRest oneManager 6) (demotedRun 40)
    w.db.grants.map (·.granted) = [["finance.manage"], ["roles.manage"]] ∧ w.db.NoEscalation :=
  ⟨by decide +kernel, no_escalation (Machine.reach_run _
    (.init ⟨⟨oneManager_started, trivial⟩, rfl, rfl⟩) (by decide +kernel))⟩

end StelloKitchens.Accounts
