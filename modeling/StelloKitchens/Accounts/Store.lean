import StelloKitchens.Shared.Permissions
import StelloKitchens.Shared.Service

/-!
# Accounts

Restaurants have roles and users; links that are mailed out reset a password, invite someone onto a
role, or verify a signup.

## Main definitions

* `Role`, `User`, `AuthToken`, `PendingSignup` — the rows.
* `AccountDb` — the tables, with a history of what was granted and of the links that took effect.
* `AccountDb.permissionsOf`, `AccountDb.HasOwner` — what a user may do, and who owns a restaurant.
-/

namespace StelloKitchens.Accounts

open Service

/-! ### Rows -/

/-- What is stored of a password; who knows the password can tell that it is the one. -/
structure PasswordHash where
  password : String
  deriving DecidableEq

/-- `bcrypt.hash`. -/
def hashPassword (password : String) : PasswordHash := ⟨password⟩

/-- What is stored of the secret of a link. -/
structure TokenHash where
  raw : String
  deriving DecidableEq

def hashToken (raw : String) : TokenHash := ⟨raw⟩

inductive TenantOrigin
  | seed
  | admin
  | signup
  deriving DecidableEq

structure Tenant where
  id : ℕ
  name : String
  createdVia : TenantOrigin
  deriving DecidableEq

structure Role where
  id : ℕ
  tenantId : ℕ
  name : String
  permissions : List String
  deriving DecidableEq

structure User where
  id : ℕ
  tenantId : ℕ
  email : String
  passwordHash : PasswordHash
  name : String
  roleId : ℕ
  isActive : Bool
  emailVerified : Bool
  tokenVersion : ℕ
  deriving DecidableEq

inductive AuthTokenType
  | passwordReset
  | invite
  deriving DecidableEq

structure AuthToken where
  id : ℕ
  type : AuthTokenType
  tenantId : Option ℕ
  userId : Option ℕ
  email : Option String
  roleId : Option ℕ
  tokenHash : TokenHash
  expiresAt : Time
  usedAt : Option Time
  deriving DecidableEq

structure PendingSignup where
  id : ℕ
  email : String
  passwordHash : PasswordHash
  restaurantName : String
  ownerName : String
  tokenHash : TokenHash
  expiresAt : Time
  deriving DecidableEq

/-! ### Histories -/

/-- A change of roles that took effect: who made it, what the role of the one who made it granted at
that moment, what was granted by it, and the permissions of the roles and people it touched. -/
structure Grant where
  actor : ℕ
  held : List String
  granted : List String
  touched : List String
  deriving DecidableEq

/-- A link, by its row. -/
inductive Link
  | reset (tokenId : ℕ)
  | invite (tokenId : ℕ)
  | signup (pendingId : ℕ)
  deriving DecidableEq

/-- A link took effect: for an account, whose owner chose this password. -/
structure LinkUse where
  link : Link
  userId : ℕ
  password : PasswordHash
  deriving DecidableEq

/-! ### Tables -/

structure AccountDb where
  now : Time
  tenants : KeyedTable Tenant.id
  roles : KeyedTable Role.id
  users : KeyedTable User.id
  authTokens : KeyedTable AuthToken.id
  pendingSignups : KeyedTable PendingSignup.id
  /-- The restaurant that a role was made for, also when the role is gone. -/
  roleHome : ℕ → Option ℕ
  /-- The email that a signup was for, also when the signup is gone. -/
  signupEmail : ℕ → Option String
  grants : List Grant
  uses : List LinkUse

/-- What a transaction locks: rows, and the keys of unique indexes. -/
inductive LockKey
  | tenant (id : ℕ)
  | user (id : ℕ)
  | authToken (id : ℕ)
  | pendingSignup (id : ℕ)
  | roleName (tenantId : ℕ) (name : String)
  | email (email : String)
  | tokenHash (hash : TokenHash)
  | pendingEmail (email : String)
  | pendingHash (hash : TokenHash)
  deriving DecidableEq

/-- Who has signed in, with the permissions that the role granted then. -/
structure AuthUser where
  id : ℕ
  tenantId : ℕ
  permissions : List String
  deriving DecidableEq

/-- What a commit is noted as. -/
inductive Note
  | plain
  /-- The user changes roles or who is on them. -/
  | grant (user : AuthUser)
  /-- The user invites onto a role, which was read with these permissions. -/
  | invite (user : AuthUser) (roleId : ℕ) (permissions : List String)
  /-- A link sets a password. -/
  | reset (tokenId : ℕ)
  /-- A signup is provisioned. -/
  | provision (pendingId : ℕ)
  deriving DecidableEq

abbrev AccountTx := ServiceTx AccountDb LockKey
abbrev AccountMethod := ServiceMethod AccountDb LockKey Note

namespace AccountDb

/-- The permissions of a role. -/
def rolePermissions (db : AccountDb) (roleId : ℕ) : List String :=
  ((db.roles.find? roleId).map (·.permissions)).getD []

/-- The permissions of a user's role. -/
def permissionsOf (db : AccountDb) (userId : ℕ) : List String :=
  ((db.users.find? userId).map fun u => db.rolePermissions u.roleId).getD []

/-- A user of the restaurant is active and on an owner-level role. -/
def HasOwner (db : AccountDb) (tenantId : ℕ) : Prop :=
  ∃ u ∈ db.users.rows, u.tenantId = tenantId ∧ u.isActive = true ∧
    isOwnerLevel (db.rolePermissions u.roleId) = true

instance (db : AccountDb) (tenantId : ℕ) : Decidable (db.HasOwner tenantId) :=
  inferInstanceAs (Decidable (∃ u ∈ db.users.rows, _))

/-- Every change of roles granted and touched no more than the one who made it held. -/
def NoEscalation (db : AccountDb) : Prop :=
  ∀ g ∈ db.grants, missingPermissions g.held g.granted = [] ∧ missingPermissions g.held g.touched = []

instance (db : AccountDb) : Decidable db.NoEscalation :=
  inferInstanceAs (Decidable (∀ g ∈ db.grants, _))

/-- A change of roles takes effect. -/
def recordGrant (db : AccountDb) (actor : ℕ) (granted touched : List String) : List Grant :=
  db.grants ++ [⟨actor, db.permissionsOf actor, granted, touched⟩]

/-- Roles are made. -/
def putRoles (db : AccountDb) (roles : List Role) : AccountDb :=
  { db with
    roles := roles.foldl .put db.roles
    roleHome := fun id => ((roles.find? fun r => r.id = id).map (·.tenantId)).or (db.roleHome id) }

end AccountDb

end StelloKitchens.Accounts
