import StelloKitchens.Accounts.Store

/-!
# Roles

Who may manage roles creates, edits and deletes them, and moves people between them. Edits,
deletions and moves of a restaurant come one after another, by a lock on its row. No one is to
grant or touch more than what they hold, as it was read when they signed the request; and one
active owner has to remain.

## Main definitions

* `resolveUser`, `requirePermission` — signing a request, and what its route asks for.
* `createRole`, `updateRole`, `removeRole`, `assignRole` — the methods.
-/

namespace StelloKitchens.Accounts

open Checked Tx Method Service

/-! ### Signing requests -/

/-- A signed session. -/
structure SessionClaims where
  sub : ℕ
  tokenVersion : ℕ

/-- The user that a session is of, with the permissions of the role. -/
def AccountDb.authUser (db : AccountDb) (userId : ℕ) : Option AuthUser :=
  ((db.users.find? userId).filter (·.isActive)).map fun u =>
    ⟨u.id, u.tenantId, db.rolePermissions u.roleId⟩

/-- Who makes a request, unless the session has been revoked. -/
def resolveUser (claims : SessionClaims) : AccountMethod AuthUser := do
  let user ← look fun db => db.authUser claims.sub
  let user ← getOr user (.forbidden "Unauthorized")
  let tokenVersion ← look fun db => (db.users.find? claims.sub).map (·.tokenVersion)
  guardOr (tokenVersion = some claims.tokenVersion) (.forbidden "Session revoked")
  return user

/-- What a route asks of who makes the request. -/
def requirePermission (user : AuthUser) (perm : String) : AccountMethod Unit :=
  guardOr (perm ∈ user.permissions ∨ "*" ∈ user.permissions) (.forbidden "Missing permission")

/-! ### Checks -/

def canGrantMessage (missing : List String) : String :=
  "You can't grant permissions you don't hold: " ++ ", ".intercalate missing

/-- No one grants more than what they held when the request was signed. -/
def assertCanGrant (user : AuthUser) (requested : List String) : Except ServiceError Unit :=
  ensure (missingPermissions user.permissions requested = [])
    (.forbidden (canGrantMessage (missingPermissions user.permissions requested)))

def requireRole (user : AuthUser) (id : ℕ) : AccountTx Role := do
  let role ← query fun db => (db.roles.find? id).filter (·.tenantId = user.tenantId)
  require role (.notFound "Role not found")

/-- Serialise role and assignment changes of a restaurant. -/
def lockTenant (tenantId : ℕ) : AccountTx Unit := acquire (.tenant tenantId)

/-- The active owners that are neither on this role nor this user. -/
def AccountDb.remainingOwners (db : AccountDb) (tenantId : ℕ) (excludeRoleId excludeUserId : Option ℕ) :
    List User :=
  (db.users.rows.filter fun u => u.tenantId = tenantId ∧ u.isActive = true).filter fun u =>
    some u.id ≠ excludeUserId ∧ some u.roleId ≠ excludeRoleId ∧
      isOwnerLevel (db.rolePermissions u.roleId) = true

def assertOwnersRemain (tenantId : ℕ) (excludeRoleId excludeUserId : Option ℕ) : AccountTx Unit := do
  let remaining ← query fun db => db.remainingOwners tenantId excludeRoleId excludeUserId
  check (remaining ≠ []) (.badRequest "At least one active owner must remain")

/-- A role of the restaurant has the name already. -/
def AccountDb.nameTaken (db : AccountDb) (tenantId : ℕ) (name : String) (exceptId : Option ℕ) : Bool :=
  db.roles.rows.any fun r => r.tenantId = tenantId ∧ r.name = name ∧ some r.id ≠ exceptId

def mapUnique {α : Type} (x : AccountMethod α) : AccountMethod α :=
  tryCatch x fun err =>
    throw (if err = .p2002 then .conflict "A role with that name already exists" else err)

/-! ### Methods -/

structure RoleInput where
  name : String
  permissions : List String

/-- A new role. -/
def AccountDb.createRole (db : AccountDb) (actor : ℕ) (role : Role) : AccountDb :=
  { db.putRoles [role] with grants := db.recordGrant actor role.permissions [] }

/-- The insert waits for who has locked the restaurant, by its foreign key. -/
def createRoleTx (user : AuthUser) (input : RoleInput) : AccountTx ℕ := do
  acquire (.tenant user.tenantId)
  acquire (.roleName user.tenantId input.name)
  let taken ← query fun db => db.nameTaken user.tenantId input.name none
  check (taken = false) .p2002
  let id ← draw
  update (·.createRole user.id ⟨id, user.tenantId, input.name, distinct input.permissions⟩)
  return id

def createRole (user : AuthUser) (input : RoleInput) : AccountMethod ℕ := do
  liftM (assertCanGrant user input.permissions)
  mapUnique (atomically (fun _ => .grant user) (createRoleTx user input))

/-- A role with another name and other permissions. -/
def AccountDb.editRole (db : AccountDb) (actor id : ℕ) (name : String) (permissions : List String) :
    AccountDb :=
  { db with
    roles := db.roles.modify (fun r => r.id = id)
      (fun r => { r with name := name, permissions := permissions }) fun _ => rfl
    grants := db.recordGrant actor permissions (db.rolePermissions id) }

/-- To edit a role is to grant both what it was and what it is to be. -/
def updateRoleTx (user : AuthUser) (id : ℕ) (input : RoleInput) : AccountTx Unit := do
  lockTenant user.tenantId
  let role ← requireRole user id
  assertCanGrant user role.permissions
  assertCanGrant user input.permissions
  let next := distinct input.permissions
  whenever (isOwnerLevel role.permissions = true ∧ isOwnerLevel next = false)
    (assertOwnersRemain user.tenantId (some role.id) none)
  acquire (.roleName user.tenantId input.name)
  let taken ← query fun db => db.nameTaken user.tenantId input.name (some role.id)
  check (taken = false) .p2002
  update (·.editRole user.id role.id input.name next)

def updateRole (user : AuthUser) (id : ℕ) (input : RoleInput) : AccountMethod Unit :=
  mapUnique (atomically (fun _ => .grant user) (updateRoleTx user id input))

/-- A role is gone. -/
def AccountDb.removeRole (db : AccountDb) (actor id : ℕ) : AccountDb :=
  { db with
    roles := db.roles.delete fun r => r.id = id
    grants := db.recordGrant actor [] (db.rolePermissions id) }

/-- The users on a role. -/
def AccountDb.assigned (db : AccountDb) (tenantId roleId : ℕ) : ℕ :=
  db.users.rows.countP fun u => u.tenantId = tenantId ∧ u.roleId = roleId

/-- The invitations onto a role that can be accepted. -/
def AccountDb.pendingInvites (db : AccountDb) (tenantId roleId : ℕ) : ℕ :=
  db.authTokens.rows.countP fun t => t.tenantId = some tenantId ∧ t.roleId = some roleId ∧
    t.usedAt = none ∧ db.now < t.expiresAt

/-- A user refers to the role, which keeps it from being deleted. -/
def AccountDb.referred (db : AccountDb) (roleId : ℕ) : Bool :=
  db.users.rows.any fun u => u.roleId = roleId

def removeRoleTx (user : AuthUser) (id : ℕ) : AccountTx Unit := do
  lockTenant user.tenantId
  let role ← requireRole user id
  assertCanGrant user role.permissions
  let assigned ← query fun db => db.assigned user.tenantId role.id
  check (assigned = 0) (.conflict "Move the staff on this role to another role before deleting it")
  let pendingInvites ← query fun db => db.pendingInvites user.tenantId role.id
  check (pendingInvites = 0)
    (.conflict "This role has pending invites; let them expire or use another role")
  let referred ← query fun db => db.referred role.id
  check (referred = false) .database
  update (·.removeRole user.id role.id)

def removeRole (user : AuthUser) (id : ℕ) : AccountMethod Unit :=
  atomically (fun _ => .grant user) (removeRoleTx user id)

/-- A user on another role. -/
def AccountDb.assignRole (db : AccountDb) (actor userId roleId : ℕ) : AccountDb :=
  { db with
    users := db.users.modify (fun u => u.id = userId) (fun u => { u with roleId := roleId })
      fun _ => rfl
    grants := db.recordGrant actor (db.rolePermissions roleId) (db.permissionsOf userId) }

/-- Only people whose access one could have granted are moved, onto a role within one's own. -/
def assignRoleTx (user : AuthUser) (staffId roleId : ℕ) : AccountTx Unit := do
  lockTenant user.tenantId
  let found ← query fun db =>
    ((db.users.find? staffId).filter (·.tenantId = user.tenantId)).map fun u =>
      (u, db.rolePermissions u.roleId)
  let (target, permissions) ← require found (.notFound "Staff member not found")
  let role ← requireRole user roleId
  assertCanGrant user permissions
  assertCanGrant user role.permissions
  whenever (isOwnerLevel permissions = true ∧ isOwnerLevel role.permissions = false ∧
      target.isActive = true)
    (assertOwnersRemain user.tenantId none (some target.id))
  acquire (.user target.id)
  update (·.assignRole user.id target.id role.id)

def assignRole (user : AuthUser) (staffId roleId : ℕ) : AccountMethod Unit :=
  atomically (fun _ => .grant user) (assignRoleTx user staffId roleId)

end StelloKitchens.Accounts
