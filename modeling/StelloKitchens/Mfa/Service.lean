import StelloKitchens.Accounts.Store
import StelloKitchens.Mfa.Totp

/-!
# The second factor

A user sets up a second factor by scanning a secret and confirming it with a first code; from then
on signing in asks for a code, each good once, or for one of a few recovery codes. Each method reads
the record of the user first and writes it in a later statement.

## Main definitions

* `UserMfa`, `RecoveryCode`, `MfaDb` — the tables, with a history of what happened.
* `beginSetup`, `confirmSetup`, `verify`, `reauthenticate`, `disable`, `regenerateRecoveryCodes`,
  `setPolicy` — the methods.
* `mfa` — the methods side by side.
-/

namespace StelloKitchens.Mfa

open Checked Tx Method
open Accounts (PasswordHash hashPassword TokenHash hashToken)

/-! ### Rows -/

/-- A secret as it is stored; who has the key of the installation can open it. -/
structure SealedSecret where
  secret : String
  deriving DecidableEq

def sealSecret (plain : String) : SealedSecret := ⟨plain⟩

def openSecret (sealed : SealedSecret) : String := sealed.secret

/-- A user's password. -/
structure Credentials where
  userId : ℕ
  passwordHash : PasswordHash
  deriving DecidableEq

structure UserMfa where
  userId : ℕ
  tenantId : ℕ
  secretEnc : SealedSecret
  enabledAt : Option Time
  /-- The step of the last code that was accepted. -/
  lastUsedStep : Option ℤ
  /-- Which of the setups the secret is of. -/
  enrolment : ℕ
  deriving DecidableEq

structure RecoveryCode where
  tenantId : ℕ
  userId : ℕ
  codeHash : TokenHash
  usedAt : Option Time
  /-- Which of the sets of codes it is of. -/
  generation : ℕ
  deriving DecidableEq

structure TenantSecurity where
  tenantId : ℕ
  requireOwnerMfa : Bool
  deriving DecidableEq

/-! ### Histories -/

inductive MfaEvent
  /-- A second factor was enabled, by a code of this secret. -/
  | confirmed (userId : ℕ) (secret : String)
  /-- A user has signed again, under this number. -/
  | reauthenticated (userId number : ℕ)
  /-- A second factor was disabled, by who had signed under this number. -/
  | disabled (userId number : ℕ)
  deriving DecidableEq

/-- A code was accepted, as the code of a step under a secret. -/
structure Accepted where
  userId : ℕ
  enrolment : ℕ
  secret : String
  step : ℤ
  code : String
  deriving DecidableEq

/-! ### Tables -/

structure MfaDb where
  now : Time
  users : KeyedTable Credentials.userId
  userMfa : KeyedTable UserMfa.userId
  recoveryCodes : KeyedTable RecoveryCode.codeHash
  tenantSecurity : KeyedTable TenantSecurity.tenantId
  enrolments : ℕ
  generations : ℕ
  log : List MfaEvent
  accepted : List Accepted
  /-- The recovery codes that were accepted, with the sets they are of. -/
  recovered : List (TokenHash × ℕ)

inductive LockKey
  | mfa (userId : ℕ)
  | code (hash : TokenHash)
  deriving DecidableEq

inductive MfaError
  | badRequest (message : String)
  | unauthorized (message : String)
  /-- The program fails. -/
  | error (message : String)
  /-- A row that has to be there is not. -/
  | database
  /-- A unique key is taken. -/
  | p2002
  deriving DecidableEq

/-- What a commit is noted as. -/
inductive Note
  | plain
  /-- A setup begins. -/
  | setup (userId : ℕ)
  /-- A setup is confirmed, by a code of this secret. -/
  | confirm (userId enrolment : ℕ) (secret : String)
  /-- A code is accepted, which was checked with the secret of this enrolment. -/
  | verify (userId enrolment : ℕ)
  deriving DecidableEq

abbrev MfaTx := Tx MfaDb LockKey MfaError
abbrev MfaMethod := Method MfaDb LockKey Note Empty Empty MfaError

/-! ### Reads -/

def record (userId : ℕ) : MfaMethod (Option UserMfa) := look fun db => db.userMfa.find? userId

def isEnabled (userId : ℕ) : MfaMethod Bool := do
  let found ← record userId
  return (found.bind (·.enabledAt)).isSome

/-- Whether owners of the restaurant must have a second factor. -/
def policy (tenantId : ℕ) : MfaMethod Bool :=
  look fun db => ((db.tenantSecurity.find? tenantId).map (·.requireOwnerMfa)).getD false

structure MfaStatus where
  enabled : Bool
  enabledAt : Option Time
  recoveryCodesRemaining : ℕ
  requiredByPolicy : Bool

/-- How many recovery codes a user has left. -/
def remainingCodes (userId : ℕ) : MfaMethod ℕ :=
  look fun db => (db.recoveryCodes.rows.filter fun c => c.userId = userId ∧ c.usedAt = none).length

def status (user : Accounts.AuthUser) : MfaMethod MfaStatus := do
  let found ← record user.id
  let enabledAt := found.bind (·.enabledAt)
  let remaining ← if enabledAt.isSome then remainingCodes user.id else pure 0
  let requireOwnerMfa ← policy user.tenantId
  return ⟨enabledAt.isSome, enabledAt, remaining,
    requireOwnerMfa && isOwnerLevel user.permissions⟩

/-! ### Setting up -/

/-- A secret that waits for its confirmation, in place of what the user had. -/
def MfaDb.setup (db : MfaDb) (userId tenantId : ℕ) (secret : String) : MfaDb :=
  { db with
    userMfa := db.userMfa.upsert ⟨userId, tenantId, sealSecret secret, none, none, db.enrolments⟩
      (fun row => { row with
        secretEnc := sealSecret secret
        enabledAt := none
        lastUsedStep := none
        enrolment := db.enrolments })
      fun _ h => h
    enrolments := db.enrolments + 1 }

def upsertTx (userId tenantId : ℕ) (secret : String) : MfaTx Unit := do
  acquire (.mfa userId)
  update (·.setup userId tenantId secret)

/-- Begin a setup, with the secret that the random bytes make. -/
def beginSetup (user : Accounts.AuthUser) (random : List UInt8) : MfaMethod String := do
  let existing ← record user.id
  guardOr ((existing.bind (·.enabledAt)) = none)
    (.badRequest "Two-factor authentication is already on")
  let secret := generateTotpSecret random
  atomically (fun _ => .setup user.id) (upsertTx user.id user.tenantId secret)
  return secret

/-! ### Recovery codes -/

def recoveryCodeCount : ℕ := 10

def recoveryAlphabet : List Char := "abcdefghjkmnpqrstuvwxyz23456789".toList

/-- The characters that random bytes choose. -/
def recoveryChars (random : List UInt8) : String :=
  String.ofList (random.map fun b => recoveryAlphabet.getD (b.toNat % 31) 'a')

/-- A recovery code, of twelve random bytes. -/
def newRecoveryCode (random : List UInt8) : String :=
  recoveryChars (random.take 4) ++ "-" ++ recoveryChars ((random.drop 4).take 4) ++ "-" ++
    recoveryChars ((random.drop 8).take 4)

/-- Letters and digits, in lower case. -/
def normaliseRecovery (code : String) : String :=
  String.ofList (((trim code).toList.map Char.toLower).filter fun c => c.isLower ∨ c.isDigit)

/-- These codes are deleted, if they are of the user. -/
def MfaDb.deleteCodes (db : MfaDb) (userId : ℕ) (hashes : List TokenHash) : MfaDb :=
  { db with
    recoveryCodes := db.recoveryCodes.delete fun c => c.userId = userId ∧ c.codeHash ∈ hashes }

/-- A set of codes. -/
def MfaDb.createCodes (db : MfaDb) (userId tenantId : ℕ) (hashes : List TokenHash) : MfaDb :=
  { db with
    recoveryCodes := (hashes.map fun hash => ⟨tenantId, userId, hash, none, db.generations⟩).foldl
      .put db.recoveryCodes
    generations := db.generations + 1 }

/-- The codes of a user when a statement reads them. -/
def codeHashes (userId : ℕ) : MfaTx (List TokenHash) :=
  query fun db => (db.recoveryCodes.rows.filter (·.userId = userId)).map (·.codeHash)

def deleteCodesTx (userId : ℕ) : MfaTx Unit := do
  let hashes ← codeHashes userId
  acquireAll (hashes.map .code)
  update (·.deleteCodes userId hashes)

/-- The random bytes for a set of codes. -/
abbrev CodeSeeds := Fin recoveryCodeCount → List UInt8

/-- A user gets other codes. -/
def replaceRecoveryCodes (user : Accounts.AuthUser) (random : CodeSeeds) :
    MfaTx (List String) := do
  let codes := List.ofFn fun i => newRecoveryCode (random i)
  let hashes := codes.map fun c => hashToken (normaliseRecovery c)
  deleteCodesTx user.id
  acquireAll (hashes.map .code)
  let taken ← query fun db => db.recoveryCodes.rows.any fun c => c.codeHash ∈ hashes
  check (taken = false ∧ hashes.Nodup) .p2002
  update (·.createCodes user.id user.tenantId hashes)
  return codes

/-! ### Codes -/

variable (mac : Mac)

/-- The step that a code is of, under the secret of a record. -/
def checkCode (found : UserMfa) (code : String) : MfaMethod (Option ℤ) := do
  let now ← look fun db => db.now
  match verifyTotp mac (openSecret found.secretEnc) code now with
  | .ok step => return step
  | .error message => throw (.error message)

/-- What is accepted when a code of this record is. -/
def UserMfa.accept (found : UserMfa) (step : ℤ) (code : String) : Accepted :=
  ⟨found.userId, found.enrolment, openSecret found.secretEnc, step, code⟩

/-- The second factor of a user is on, by a code that was checked with this record. -/
def MfaDb.confirm (db : MfaDb) (now : Time) (found : UserMfa) (step : ℤ) (code : String) : MfaDb :=
  { db with
    userMfa := db.userMfa.modify (fun row => row.userId = found.userId)
      (fun row => { row with
        enabledAt := some now
        lastUsedStep := some step })
      fun _ => rfl
    accepted := db.accepted ++ [found.accept step code]
    log := db.log ++ [.confirmed found.userId (openSecret found.secretEnc)] }

def confirmTx (user : Accounts.AuthUser) (found : UserMfa) (step : ℤ) (code : String)
    (random : CodeSeeds) : MfaTx (List String) := do
  let now ← query (·.now)
  acquire (.mfa found.userId)
  let row ← query fun db => db.userMfa.find? found.userId
  check (row.isSome = true) .database
  update (·.confirm now found step code)
  replaceRecoveryCodes user random

/-- Confirm a setup with a first code. -/
def confirmSetup (user : Accounts.AuthUser) (code : String) (random : CodeSeeds) :
    MfaMethod (List String) := do
  let found ← record user.id
  let found ← getOr found (.badRequest "Start two-factor setup first")
  guardOr (found.enabledAt = none) (.badRequest "Two-factor authentication is already on")
  let step ← checkCode mac found code
  let step ← getOr step
    (.badRequest "That code did not match. Check the time on your phone and try again.")
  atomically (fun _ => .confirm found.userId found.enrolment (openSecret found.secretEnc))
    (confirmTx user found step code random)

/-- The row of the user admits a later step. -/
def MfaDb.canClaim (db : MfaDb) (userId : ℕ) (step : ℤ) : Bool :=
  (db.userMfa.find? userId).any fun row => row.lastUsedStep.all (· < step)

/-- A code is accepted that was checked with this record, for the row that the user has. -/
def MfaDb.claim (db : MfaDb) (found : UserMfa) (step : ℤ) (code : String) : MfaDb :=
  { db with
    userMfa := db.userMfa.modify (fun row => row.userId = found.userId)
      (fun row => { row with lastUsedStep := some step }) fun _ => rfl
    accepted := db.accepted ++ [found.accept step code] }

/-- The user has this recovery code, and has not used it. -/
def MfaDb.canRecover (db : MfaDb) (userId : ℕ) (hash : TokenHash) : Bool :=
  (db.recoveryCodes.find? hash).any fun c => c.userId = userId ∧ c.usedAt = none

/-- A recovery code is accepted. -/
def MfaDb.recover (db : MfaDb) (hash : TokenHash) : MfaDb :=
  { db with
    recoveryCodes := db.recoveryCodes.modify (fun c => c.codeHash = hash)
      (fun c => { c with usedAt := some db.now }) fun _ => rfl
    recovered := db.recovered ++
      ((db.recoveryCodes.find? hash).map fun c => (hash, c.generation)).toList }

structure VerifyInput where
  code : Option String
  recoveryCode : Option String

def verifyCode (found : UserMfa) (code : String) : MfaMethod Unit := do
  let step ← checkCode mac found code
  let step ← getOr (step.filter fun step => ¬∃ last ∈ found.lastUsedStep, step ≤ last)
    (.unauthorized "Invalid authentication code")
  let claimed ← atomically (fun _ => .verify found.userId found.enrolment)
    (updateWhere (.mfa found.userId) (·.canClaim found.userId step) (·.claim found step code))
  guardOr (claimed = true) (.unauthorized "Invalid authentication code")

def verifyRecovery (userId : ℕ) (recoveryCode : String) : MfaMethod Unit := do
  let hash := hashToken (normaliseRecovery recoveryCode)
  let used ← atomically (fun _ => .plain)
    (updateWhere (.code hash) (·.canRecover userId hash) (·.recover hash))
  guardOr (used = true) (.unauthorized "Invalid recovery code")

/-- A code, or else a recovery code, of a user who has a second factor. -/
def verify (userId : ℕ) (input : VerifyInput) : MfaMethod Unit := do
  let found ← record userId
  let found ← getOr (found.filter (·.enabledAt.isSome))
    (.unauthorized "Two-factor authentication is not enabled")
  match truthy input.code with
  | some code => verifyCode mac found code
  | none =>
    match truthy input.recoveryCode with
    | some recoveryCode => verifyRecovery userId recoveryCode
    | none => throw (.badRequest "Provide a code")

/-! ### Signing again -/

/-- The user has signed again. -/
def passed (userId : ℕ) : MfaTx ℕ := do
  let number ← draw
  update fun db => { db with log := db.log ++ [.reauthenticated userId number] }
  return number

/-- The password, and a code if the second factor is on; under what number that was. -/
def reauthenticate (user : Accounts.AuthUser) (password : String) (code : Option String) :
    MfaMethod ℕ := do
  let row ← look fun db => db.users.find? user.id
  guardOr ((row.map (·.passwordHash)) = some (hashPassword password))
    (.unauthorized "Password is incorrect")
  let enabled ← isEnabled user.id
  if enabled then do
    let code ← getOr (truthy code) (.badRequest "Enter a current authentication code")
    verify mac user.id ⟨some code, none⟩
  atomically (fun _ => .plain) (passed user.id)

/-- The user has no second factor. -/
def MfaDb.removeMfa (db : MfaDb) (userId : ℕ) : MfaDb :=
  { db with userMfa := db.userMfa.delete fun row => row.userId = userId }

def disableTx (userId number : ℕ) : MfaTx Unit := do
  deleteCodesTx userId
  let _ ← updateWhere (.mfa userId) (fun db => (db.userMfa.find? userId).isSome) (·.removeMfa userId)
  update fun db => { db with log := db.log ++ [.disabled userId number] }

/-- Turn the second factor off, unless the restaurant requires it. -/
def disable (user : Accounts.AuthUser) (password : String) (code : Option String) :
    MfaMethod Unit := do
  let status ← status user
  guardOr (status.requiredByPolicy = false)
    (.badRequest "Your restaurant requires two-factor authentication for owners")
  let number ← reauthenticate mac user password code
  atomically (fun _ => .plain) (disableTx user.id number)

def regenerateRecoveryCodes (user : Accounts.AuthUser) (password : String) (code : Option String)
    (random : CodeSeeds) : MfaMethod (List String) := do
  let enabled ← isEnabled user.id
  guardOr (enabled = true) (.badRequest "Two-factor authentication is not enabled")
  let _ ← reauthenticate mac user password code
  atomically (fun _ => .plain) (replaceRecoveryCodes user random)

/-- Whether owners of the restaurant must have a second factor; no owner locks themselves out. -/
def setPolicy (user : Accounts.AuthUser) (requireOwnerMfa : Bool) : MfaMethod Bool := do
  if requireOwnerMfa && isOwnerLevel user.permissions then do
    let enabled ← isEnabled user.id
    guardOr (enabled = true)
      (.badRequest "Turn on two-factor authentication for your own account first")
  atomically (fun _ => .plain) (update fun db =>
    { db with tenantSecurity := db.tenantSecurity.put ⟨user.tenantId, requireOwnerMfa⟩ })
  return requireOwnerMfa

/-! ### Side by side -/

inductive MfaRequest
  /-- Time passes. -/
  | tick (ms : ℕ)
  /-- A user gets a password, or another one. -/
  | setPassword (userId : ℕ) (password : String)
  | beginSetup (user : Accounts.AuthUser) (random : List UInt8)
  | confirmSetup (user : Accounts.AuthUser) (code : String) (random : CodeSeeds)
  | verify (userId : ℕ) (input : VerifyInput)
  | reauthenticate (user : Accounts.AuthUser) (password : String) (code : Option String)
  | disable (user : Accounts.AuthUser) (password : String) (code : Option String)
  | regenerate (user : Accounts.AuthUser) (password : String) (code : Option String)
      (random : CodeSeeds)
  | setPolicy (user : Accounts.AuthUser) (requireOwnerMfa : Bool)

/-- What is done with an answer that is of no further interest. -/
def discard {α : Type} (x : MfaMethod α) : MfaMethod Unit := do
  let _ ← x
  return ()

def MfaRequest.run : MfaRequest → MfaMethod Unit
  | .tick ms => atomically (fun _ => .plain) (update fun db => { db with now := db.now + ms })
  | .setPassword userId password => atomically (fun _ => .plain) (update fun db =>
      { db with users := db.users.put ⟨userId, hashPassword password⟩ })
  | .beginSetup user random => discard (Mfa.beginSetup user random)
  | .confirmSetup user code random => discard (Mfa.confirmSetup mac user code random)
  | .verify userId input => Mfa.verify mac userId input
  | .reauthenticate user password code => discard (Mfa.reauthenticate mac user password code)
  | .disable user password code => Mfa.disable mac user password code
  | .regenerate user password code random =>
    discard (regenerateRecoveryCodes mac user password code random)
  | .setPolicy user requireOwnerMfa => discard (Mfa.setPolicy user requireOwnerMfa)

abbrev MfaWorld := World MfaDb LockKey Note Empty Empty (Except MfaError Unit)

/-- Setups are numbered, and no two users have one of the same number. -/
structure Numbered (db : MfaDb) : Prop where
  enrolments : ∀ row ∈ db.userMfa, row.enrolment < db.enrolments
  distinct : ∀ row ∈ db.userMfa, ∀ row' ∈ db.userMfa, row.enrolment = row'.enrolment →
    row.userId = row'.userId
  generations : ∀ c ∈ db.recoveryCodes, c.generation < db.generations

/-- The second factors before the first of the requests. -/
structure Started (db : MfaDb) : Prop extends Numbered db where
  log : db.log = []
  accepted : db.accepted = []
  recovered : db.recovered = []

/-- The methods side by side. -/
def mfa : Machine MfaWorld (WorldAction MfaRequest Empty) :=
  serve (fun r : MfaRequest => (r.run mac).run) fun db _ => Started db

end StelloKitchens.Mfa
