import StelloKitchens.Accounts.Roles

/-!
# Links that are mailed out

An invitation, a password reset and a signup each mail a link with a secret, of which only a hash is
stored. Who opens the link is looked up by it; then a password is hashed, and then the effect is
committed. A signup is provisioned with a placeholder for the password, which a second commit
replaces.

## Main definitions

* `createInvite`, `acceptInvite` — onto a role of the restaurant.
* `requestReset`, `resetPassword` — another password.
* `startSignup`, `verifySignup`, `provisionTenant` — a new restaurant.
-/

namespace StelloKitchens.Accounts

open Checked Tx Method Service

/-! ### Rows with unique keys -/

def AccountDb.emailTaken (db : AccountDb) (email : String) : Bool :=
  db.users.rows.any fun u => u.email = email

def AccountDb.tokenTaken (db : AccountDb) (hash : TokenHash) : Bool :=
  db.authTokens.rows.any fun t => t.tokenHash = hash

def AccountDb.pendingTaken (db : AccountDb) (email : String) (hash : TokenHash) : Bool :=
  db.pendingSignups.rows.any fun p => p.email = email ∨ p.tokenHash = hash

/-- A link that can be used. -/
def AccountDb.findToken (db : AccountDb) (type : AuthTokenType) (hash : TokenHash) :
    Option AuthToken :=
  db.authTokens.rows.find? fun t =>
    t.tokenHash = hash ∧ t.type = type ∧ t.usedAt = none ∧ db.now < t.expiresAt

/-- A token that has been used. -/
def AuthToken.use (now : Time) (t : AuthToken) : AuthToken := { t with usedAt := some now }

def AccountDb.useToken (db : AccountDb) (id : ℕ) : AccountDb :=
  { db with
    authTokens := db.authTokens.modify (fun t => t.id = id) (AuthToken.use db.now) fun _ => rfl }

/-- A token is stored, with what else that does. -/
def putTokenTx (row : ℕ → Time → AuthToken) (f : AuthToken → AccountDb → AccountDb) :
    AccountTx Unit := do
  let now ← query (·.now)
  let id ← draw
  acquire (.tokenHash (row id now).tokenHash)
  let taken ← query fun db => db.tokenTaken (row id now).tokenHash
  check (taken = false) .p2002
  update (f (row id now))

/-! ### Invitations -/

def inviteTtlMs : ℤ := 24 * 60 * 60 * 1000

/-- An invitation onto a role. -/
def inviteRow (tenantId roleId : ℕ) (email raw : String) (id : ℕ) (now : Time) : AuthToken :=
  ⟨id, .invite, some tenantId, none, some email, some roleId, hashToken raw, now + inviteTtlMs, none⟩

/-- An invitation is stored, for what its role grants. -/
def AccountDb.invite (db : AccountDb) (actor roleId : ℕ) (token : AuthToken) : AccountDb :=
  { db with
    authTokens := db.authTokens.put token
    grants := db.recordGrant actor (db.rolePermissions roleId) [] }

/-- Invite someone by mail; the secret of the link is `raw`. -/
def createInvite (user : AuthUser) (roleId : ℕ) (email raw : String) : AccountMethod Unit := do
  let role ← look fun db => (db.roles.find? roleId).filter (·.tenantId = user.tenantId)
  let role ← getOr role (.notFound "Role not found")
  guardOr (missingPermissions user.permissions role.permissions = [])
    (.forbidden "You can't invite someone to a role with more access than your own")
  let existing ← look fun db =>
    db.users.rows.any fun u => u.tenantId = user.tenantId ∧ u.email = email
  guardOr (existing = false) (.conflict "That email is already a user in this restaurant")
  atomically (fun _ => .invite user role.id role.permissions)
    (putTokenTx (inviteRow user.tenantId role.id email raw) fun token db =>
      db.invite user.id role.id token)

/-- Who was invited. -/
def invitedRow (tenantId roleId : ℕ) (email name : String) (passwordHash : PasswordHash) (id : ℕ) :
    User :=
  ⟨id, tenantId, email, passwordHash, name, roleId, true, true, 0⟩

/-- Someone joins by an invitation, which is used up. -/
def AccountDb.accept (db : AccountDb) (tokenId : ℕ) (user : User) : AccountDb :=
  { db.useToken tokenId with
    users := db.users.put user
    uses := db.uses ++ [⟨.invite tokenId, user.id, user.passwordHash⟩] }

/-- The email is not to be taken, and the role has to be there. -/
def acceptInviteTx (tokenId tenantId roleId : ℕ) (email name : String)
    (passwordHash : PasswordHash) : AccountTx ℕ := do
  let userId ← draw
  acquire (.tenant tenantId)
  acquire (.email email)
  let taken ← query fun db => db.emailTaken email
  check (taken = false) .p2002
  let role ← query fun db => db.roles.find? roleId
  check (role.isSome = true) .database
  acquire (.authToken tokenId)
  update (·.accept tokenId (invitedRow tenantId roleId email name passwordHash userId))
  return userId

def acceptInvite (raw name password : String) : AccountMethod ℕ := do
  let tok ← look fun db => db.findToken .invite (hashToken raw)
  let tok ← getOr tok (.badRequest "Invalid or expired invite")
  let tenantId ← getOr tok.tenantId (.badRequest "Invalid or expired invite")
  let roleId ← getOr tok.roleId (.badRequest "Invalid or expired invite")
  let email ← getOr (truthy tok.email) (.badRequest "Invalid or expired invite")
  let passwordHash := hashPassword password
  atomically (fun _ => .plain) (acceptInviteTx tok.id tenantId roleId email name passwordHash)

/-! ### Password resets -/

def resetTtlMs : ℤ := 60 * 60 * 1000

def resetRow (userId : ℕ) (email raw : String) (id : ℕ) (now : Time) : AuthToken :=
  ⟨id, .passwordReset, none, some userId, some email, none, hashToken raw, now + resetTtlMs, none⟩

/-- Ask for a link to reset the password. -/
def requestReset (email raw : String) : AccountMethod Unit := do
  let user ← look fun db => db.users.rows.find? fun u => u.email = email
  match user with
  | none => return ()
  | some user =>
    atomically (fun _ => .plain) (putTokenTx (resetRow user.id email raw) fun token db =>
      { db with authTokens := db.authTokens.put token })

/-- A user with another password, whose sessions end. -/
def User.resetPassword (passwordHash : PasswordHash) (u : User) : User :=
  { u with
    passwordHash := passwordHash
    tokenVersion := u.tokenVersion + 1 }

/-- A link sets the password of a user, and is used up. -/
def AccountDb.resetPassword (db : AccountDb) (tokenId userId : ℕ) (passwordHash : PasswordHash) :
    AccountDb :=
  { db.useToken tokenId with
    users := db.users.modify (fun u => u.id = userId) (User.resetPassword passwordHash) fun _ => rfl
    uses := db.uses ++ [⟨.reset tokenId, userId, passwordHash⟩] }

def resetPasswordTx (tokenId userId : ℕ) (passwordHash : PasswordHash) : AccountTx Unit := do
  acquire (.user userId)
  let user ← query fun db => db.users.find? userId
  check (user.isSome = true) .database
  acquire (.authToken tokenId)
  update (·.resetPassword tokenId userId passwordHash)

def resetPassword (raw newPassword : String) : AccountMethod Unit := do
  let tok ← look fun db => db.findToken .passwordReset (hashToken raw)
  let tok ← getOr tok (.badRequest "Invalid or expired reset link")
  let userId ← getOr tok.userId (.badRequest "Invalid or expired reset link")
  let passwordHash := hashPassword newPassword
  atomically (fun _ => .reset tok.id) (resetPasswordTx tok.id userId passwordHash)

/-! ### Signups -/

def signupTtlMs : ℤ := 24 * 60 * 60 * 1000

structure SignupInput where
  restaurantName : String
  ownerName : String
  email : String
  password : String

def pendingRow (input : SignupInput) (raw : String) (passwordHash : PasswordHash) (id : ℕ)
    (now : Time) : PendingSignup :=
  ⟨id, input.email, passwordHash, input.restaurantName, input.ownerName, hashToken raw,
    now + signupTtlMs⟩

/-- A signup waits for its verification. -/
def AccountDb.putPending (db : AccountDb) (p : PendingSignup) : AccountDb :=
  { db with
    pendingSignups := db.pendingSignups.put p
    signupEmail := fun id => if id = p.id then some p.email else db.signupEmail id }

def startSignupTx (row : ℕ → Time → PendingSignup) : AccountTx Unit := do
  let now ← query (·.now)
  let id ← draw
  acquire (.pendingEmail (row id now).email)
  acquire (.pendingHash (row id now).tokenHash)
  let taken ← query fun db => db.pendingTaken (row id now).email (row id now).tokenHash
  check (taken = false) .p2002
  update (·.putPending (row id now))

/-- Sign up; the secret of the link is `raw`. -/
def startSignup (input : SignupInput) (raw : String) : AccountMethod Unit := do
  let existingUser ← look fun db => db.emailTaken input.email
  guardOr (existingUser = false) (.conflict "An account with this email already exists")
  let existingPending ← look fun db => db.pendingSignups.rows.any fun p => p.email = input.email
  guardOr (existingPending = false)
    (.conflict "A signup for this email is already pending verification")
  let passwordHash := hashPassword input.password
  atomically (fun _ => .plain) (startSignupTx (pendingRow input raw passwordHash))

/-- The roles that every restaurant starts with. -/
def standardRoles : List (String × List String) :=
  [("Owner", ["*"]),
   ("Cashier", ["orders.create", "orders.settle", "menu.stock", "attendance.clock",
     "giftcards.issue", "orders.park", "orders.transfer", "orders.split", "printing.print",
     "reservations.manage"]),
   ("Kitchen", ["kds.operate", "menu.stock", "attendance.clock", "printing.print"]),
   ("Waiter", ["orders.create", "captain.operate", "reservations.manage"])]

structure ProvisionInput where
  restaurantName : String
  ownerName : String
  ownerEmail : String
  ownerPassword : String
  createdVia : TenantOrigin

def ownerRow (input : ProvisionInput) (tenantId roleId id : ℕ) : User :=
  ⟨id, tenantId, input.ownerEmail, hashPassword input.ownerPassword, input.ownerName, roleId, true,
    true, 0⟩

/-- A restaurant with its roles and its owner; if it is for a signup, its link takes effect. -/
def AccountDb.provision (db : AccountDb) (tenant : Tenant) (roles : List Role) (owner : User)
    (pending : Option PendingSignup) : AccountDb :=
  { db.putRoles roles with
    tenants := db.tenants.put tenant
    users := db.users.put owner
    uses := db.uses ++ (pending.map fun p => ⟨.signup p.id, owner.id, p.passwordHash⟩).toList }

/-- The standard roles, with their ids. -/
def standardRows (tenantId : ℕ) (ids : List ℕ) : List Role :=
  List.zipWith (fun id r => ⟨id, tenantId, r.1, r.2⟩) ids standardRoles

/-- A restaurant is set up, for a signup or by the platform. -/
def provisionTenantTx (input : ProvisionInput) (pending : Option PendingSignup) :
    AccountTx ℕ := do
  let existing ← query fun db => db.emailTaken input.ownerEmail
  check (existing = false) (.conflict "An account with this email already exists")
  let tenantId ← draw
  acquire (.tenant tenantId)
  let ownerRole ← draw
  let cashierRole ← draw
  let kitchenRole ← draw
  let waiterRole ← draw
  let ownerId ← draw
  acquire (.email input.ownerEmail)
  let taken ← query fun db => db.emailTaken input.ownerEmail
  check (taken = false) .p2002
  update (·.provision ⟨tenantId, input.restaurantName, input.createdVia⟩
    (standardRows tenantId [ownerRole, cashierRole, kitchenRole, waiterRole])
    (ownerRow input tenantId ownerRole ownerId) pending)
  return ownerId

/-- The platform sets a restaurant up. -/
def provisionTenant (input : ProvisionInput) : AccountMethod Unit := do
  let _ ← atomically (fun _ => .plain) (provisionTenantTx input none)
  return ()

/-- The owner's password replaces the placeholder, and the signup is gone. -/
def AccountDb.finishSignup (db : AccountDb) (pending : PendingSignup) (ownerId : ℕ) : AccountDb :=
  { db with
    users := db.users.modify (fun u => u.id = ownerId)
      (fun u => { u with passwordHash := pending.passwordHash }) fun _ => rfl
    pendingSignups := db.pendingSignups.delete fun p => p.id = pending.id }

def finishSignupTx (pending : PendingSignup) (ownerId : ℕ) : AccountTx Unit := do
  acquire (.user ownerId)
  let owner ← query fun db => db.users.find? ownerId
  check (owner.isSome = true) .database
  acquire (.pendingSignup pending.id)
  let row ← query fun db => db.pendingSignups.find? pending.id
  check (row.isSome = true) .database
  update (·.finishSignup pending ownerId)

/-- Provision a restaurant with the secret of the link for a password, and then set the password. -/
def verifySignup (raw : String) : AccountMethod Unit := do
  let pending ← look fun db => db.pendingSignups.rows.find? fun p =>
    p.tokenHash = hashToken raw ∧ db.now < p.expiresAt
  let pending ← getOr pending (.badRequest "Invalid or expired verification link")
  let ownerId ← atomically (fun _ => .provision pending.id)
    (provisionTenantTx ⟨pending.restaurantName, pending.ownerName, pending.email, raw, .signup⟩
      (some pending))
  atomically (fun _ => .plain) (finishSignupTx pending ownerId)

/-! ### Side by side -/

inductive AccountRequest
  /-- Time passes. -/
  | tick (ms : ℕ)
  | createRole (claims : SessionClaims) (input : RoleInput)
  | updateRole (claims : SessionClaims) (id : ℕ) (input : RoleInput)
  | removeRole (claims : SessionClaims) (id : ℕ)
  | assignRole (claims : SessionClaims) (staffId roleId : ℕ)
  | createInvite (claims : SessionClaims) (roleId : ℕ) (email raw : String)
  | acceptInvite (raw name password : String)
  | requestReset (email raw : String)
  | resetPassword (raw newPassword : String)
  | startSignup (input : SignupInput) (raw : String)
  | verifySignup (raw : String)
  | provisionTenant (input : ProvisionInput)

/-- A method on a route that asks for a permission. -/
def signed {α : Type} (claims : SessionClaims) (perm : String) (x : AuthUser → AccountMethod α) :
    AccountMethod Unit := do
  let user ← resolveUser claims
  requirePermission user perm
  let _ ← x user
  return ()

def AccountRequest.run : AccountRequest → AccountMethod Unit
  | .tick ms => atomically (fun _ => .plain) (update fun db => { db with now := db.now + ms })
  | .createRole claims input => signed claims "roles.manage" (Accounts.createRole · input)
  | .updateRole claims id input => signed claims "roles.manage" (Accounts.updateRole · id input)
  | .removeRole claims id => signed claims "roles.manage" (Accounts.removeRole · id)
  | .assignRole claims staffId roleId =>
    signed claims "roles.manage" (Accounts.assignRole · staffId roleId)
  | .createInvite claims roleId email raw =>
    signed claims "settings.manage" (Accounts.createInvite · roleId email raw)
  | .acceptInvite raw name password => do
    let _ ← Accounts.acceptInvite raw name password
    return ()
  | .requestReset email raw => Accounts.requestReset email raw
  | .resetPassword raw newPassword => Accounts.resetPassword raw newPassword
  | .startSignup input raw => Accounts.startSignup input raw
  | .verifySignup raw => Accounts.verifySignup raw
  | .provisionTenant input => Accounts.provisionTenant input

abbrev AccountWorld := World AccountDb LockKey Note Empty Empty (Except ServiceError Unit)

/-- The accounts are in order: ids have been drawn, emails are of one user each, everyone is on a
role of their restaurant, and invitations are onto one. -/
structure Sound (db : AccountDb) (n : ℕ) : Prop where
  userIds : ∀ u ∈ db.users, u.id < n
  tokenIds : ∀ t ∈ db.authTokens, t.id < n
  homeIds : ∀ id tenantId, db.roleHome id = some tenantId → id < n
  signupIds : ∀ id email, db.signupEmail id = some email → id < n
  emails : ∀ u ∈ db.users, ∀ v ∈ db.users, u.email = v.email → u.id = v.id
  roleHomes : ∀ r ∈ db.roles, db.roleHome r.id = some r.tenantId
  onRole : ∀ u ∈ db.users, ∃ r ∈ db.roles, r.id = u.roleId
  userHomes : ∀ u ∈ db.users, db.roleHome u.roleId = some u.tenantId
  invited : ∀ t ∈ db.authTokens, ∀ roleId tenantId, t.roleId = some roleId →
    t.tenantId = some tenantId → db.roleHome roleId = some tenantId
  signups : ∀ p ∈ db.pendingSignups, db.signupEmail p.id = some p.email

/-- The accounts before the first of the requests. -/
structure Started (db : AccountDb) (n : ℕ) : Prop extends Sound db n where
  grants : db.grants = []
  uses : db.uses = []

/-- The methods side by side, from accounts that are in order, and of this kind. -/
def accounts (start : AccountDb → Prop) : Machine AccountWorld (WorldAction AccountRequest Empty) :=
  serve (fun r : AccountRequest => r.run.run) fun db n => Started db n ∧ start db

end StelloKitchens.Accounts
