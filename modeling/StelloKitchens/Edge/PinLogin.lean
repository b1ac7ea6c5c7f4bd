import StelloKitchens.Edge.Catalog
import StelloKitchens.Edge.Order
import StelloKitchens.Lib.Checked
import StelloKitchens.Lib.Machine

/-!
# PIN logins at the device

A member of staff signs in with a PIN. The device reads the member's row of failed attempts,
waits while the PIN is checked against its hash, and writes the row it has computed from what it
read. Logins of one member may overlap, and then each writes over what the others wrote: the
bound on wrong PINs holds of the runs in which every login still finds the row it read.

The key derivation is that of the platform, a parameter here.

## Main definitions

* `verifyPin`, `PinDb.startLogin`, `PinDb.finishLogin` — the check and the two halves of a login.
* `pinLogins` — the machine of overlapping logins, with the record of what was evaluated.
* `LockoutHolds` — the bound on the record.
* `PinState.Undisturbed` — a login that ends finds the row it read.

## Main results

* `lockout_holds` — runs of undisturbed logins keep the bound.
* `lockout_fails` — six logins at once evaluate six wrong PINs without a lockout.
-/

namespace StelloKitchens

open Checked

/-! ### The hash -/

/-- What the check uses of the platform: base64url, and scrypt for a key of a given length under
the cost parameters of the stored hash, which may refuse them. -/
structure PinCrypto where
  decode : String → List UInt8
  scrypt : String → List UInt8 → ℕ → String × String × String → Option (List UInt8)

/-- Check a PIN against a stored hash; there is no answer when the derivation refuses. -/
def verifyPin (crypto : PinCrypto) (pin stored : String) : Option Bool :=
  match (stored.toList.splitOn '$').map String.ofList with
  | ["scrypt", n, r, p, salt, hash] =>
    let expected := crypto.decode hash
    (crypto.scrypt pin (crypto.decode salt) expected.length (n, r, p)).map fun actual =>
      decide (actual = expected)
  | _ => some false

/-! ### The tables -/

def pinMaxFailures : ℕ := 5

def pinLockBaseMs : ℕ := 5 * 60 * 1000

def pinLockMaxMs : ℕ := 60 * 60 * 1000

def sessionTtlMs : ℤ := 12 * 60 * 60 * 1000

/-- A row of failed attempts. -/
structure PinAttempts where
  staffId : String
  failures : ℕ
  lockCount : ℕ
  lockedUntil : Option Time
  deriving DecidableEq

/-- The row is locked at this time. -/
def PinAttempts.lockedAt (a : PinAttempts) (now : Time) : Bool := a.lockedUntil.any (now < ·)

structure StaffSession where
  token : String
  staffId : String
  createdAt : Time
  expiresAt : Time
  deriving DecidableEq

/-- The staff of the catalog, the attempts and the sessions. -/
structure PinDb where
  catalog : Catalog
  attempts : KeyedTable PinAttempts.staffId
  sessions : List StaffSession

def Catalog.staff? (cat : Catalog) (id : String) : Option EdgeStaffData :=
  match (cat.find? (.staff, id)).map CatalogRow.data with
  | some (.staff d) => some d
  | _ => none

/-- A login that waits for its check, with all it read before. -/
structure PendingLogin where
  ticket : ℕ
  staffId : String
  staff : EdgeStaffData
  pin : String
  pinHash : String
  /-- The row of attempts as it was read. -/
  att : Option PinAttempts
  startedAt : Time
  deriving DecidableEq

namespace PinDb

/-- The first half of a login, up to the check. -/
def startLogin (db : PinDb) (now : Time) (ticket : ℕ) (staffId : String) (pin : Option String) :
    Except EdgeError PendingLogin := do
  let staff ← orThrow ((db.catalog.staff? staffId).filter (·.isActive))
    ⟨"Unknown staff member", 401⟩
  let pinHash ← orThrow (truthy staff.pinHash)
    ⟨"No PIN set for this staff member — set one in Console › Offline POS", 401⟩
  let att := db.attempts.find? staffId
  let lockedUntil := (att.bind (·.lockedUntil)).getD now
  ensure (¬now < lockedUntil)
    ⟨"Too many wrong PINs. Locked for " ++
      toString ⌈((lockedUntil - now : ℤ) : ℚ) / 60000⌉ ++ " more minute(s).", 423⟩
  return ⟨ticket, staffId, staff, (truthy pin).getD "", pinHash, att, now⟩

/-- The row after a wrong PIN, from the row that was read. -/
def missed (now : Time) (staffId : String) (att : Option PinAttempts) : PinAttempts :=
  let att := att.getD ⟨staffId, 0, 0, none⟩
  let failures := att.failures + 1
  if pinMaxFailures ≤ failures then
    let lockCount := att.lockCount + 1
    ⟨staffId, 0, lockCount, some (now + min (pinLockBaseMs * 2 ^ (lockCount - 1)) pinLockMaxMs)⟩
  else ⟨staffId, failures, att.lockCount, none⟩

/-- The second half of a login, with the answer of the check. -/
def finishLogin (db : PinDb) (now : Time) (login : PendingLogin) (correct : Bool)
    (token : String) : PinDb × Except EdgeError (String × EdgeStaffData) :=
  if correct then
    ({ db with
        attempts := db.attempts.delete fun a => a.staffId = login.staffId
        sessions := db.sessions ++ [⟨token, login.staffId, now, now + sessionTtlMs⟩] },
      .ok (token, login.staff))
  else
    let row := missed now login.staffId login.att
    ({ db with attempts := db.attempts.put row },
      .error (if row.lockedUntil.isSome then ⟨"Too many wrong PINs — account locked", 423⟩
        else ⟨"Wrong PIN (" ++ toString (pinMaxFailures - row.failures) ++ " attempt(s) left)",
          401⟩))

end PinDb

/-! ### Overlapping logins -/

/-- What the record of a device holds, per member of staff. -/
inductive PinEvent
  /-- A PIN was evaluated; the member's row may have been locked by then. -/
  | evaluated (staffId : String) (correct locked : Bool)
  | lockout (staffId : String)
  | reset (staffId : String)
  deriving DecidableEq

structure PinState where
  db : PinDb
  clock : Time
  logins : KeyedTable PendingLogin.ticket
  /-- The record, the latest event first. -/
  log : List PinEvent

inductive PinAction
  | login (ticket : ℕ) (staffId : String) (pin : Option String)
  /-- The check of a login is through, and the login goes on. -/
  | verified (ticket : ℕ) (token : String)
  | tick (ms : ℕ)
  | applyFeed (feed : EdgeFeed)
  | restart

namespace PinState

/-- The row of a member is locked now. -/
def locked (s : PinState) (staffId : String) : Bool :=
  (s.db.attempts.find? staffId).any (·.lockedAt s.clock)

/-- The events of a login that ends with this answer. -/
def eventsOf (s : PinState) (login : PendingLogin) (correct : Bool) : List PinEvent :=
  let evaluated := PinEvent.evaluated login.staffId correct (s.locked login.staffId)
  if correct then [.reset login.staffId, evaluated]
  else if (PinDb.missed s.clock login.staffId login.att).lockedUntil.isSome then
    [.lockout login.staffId, evaluated]
  else [evaluated]

/-- A login goes on after its check. -/
def finish (crypto : PinCrypto) (s : PinState) (login : PendingLogin) (token : String) :
    PinState :=
  let logins := s.logins.delete fun l => l.ticket = login.ticket
  match verifyPin crypto login.pin login.pinHash with
  | none => { s with logins := logins }
  | some correct =>
    { s with
      db := (s.db.finishLogin s.clock login correct token).1
      logins := logins
      log := s.eventsOf login correct ++ s.log }

def step (crypto : PinCrypto) (s : PinState) : PinAction → PinState
  | .login ticket staffId pin =>
    match s.logins.find? ticket, s.db.startLogin s.clock ticket staffId pin with
    | none, .ok login => { s with logins := s.logins.put login }
    | _, _ => s
  | .verified ticket token =>
    match s.logins.find? ticket with
    | none => s
    | some login => s.finish crypto login token
  | .tick ms => { s with clock := s.clock + ms }
  | .applyFeed feed => { s with db := { s.db with catalog := s.db.catalog.applyFeed feed } }
  | .restart => { s with logins := .empty }

/-- A device before its first login, at any time and with any catalog. -/
def fresh (catalog : Catalog) (clock : Time) : PinState :=
  ⟨⟨catalog, .empty, []⟩, clock, .empty, []⟩

/-- A login that ends finds the row of attempts it read. -/
def Undisturbed (s : PinState) : PinAction → Prop
  | .verified ticket _ => ∀ login ∈ s.logins.find? ticket,
      s.db.attempts.find? login.staffId = login.att
  | _ => True

end PinState

/-- Any number of logins, each waiting for its check while the others go on. -/
def pinLogins (crypto : PinCrypto) : Machine PinState PinAction where
  init s := ∃ catalog clock, s = .fresh catalog clock
  step := PinState.step crypto

/-! ### The bound -/

/-- The wrong PINs of a member evaluated since the last lockout or reset. -/
def wrongsSince (staffId : String) : List PinEvent → ℕ
  | [] => 0
  | .evaluated id correct _ :: log =>
    (if id = staffId ∧ correct = false then 1 else 0) + wrongsSince staffId log
  | .lockout id :: log => if id = staffId then 0 else wrongsSince staffId log
  | .reset id :: log => if id = staffId then 0 else wrongsSince staffId log

/-- At every point of the record at most so many wrong PINs stand since the last lockout or reset,
and no PIN was evaluated while its member was locked. -/
def LockoutHolds (log : List PinEvent) : Prop :=
  (∀ l, l <:+ log → ∀ staffId, wrongsSince staffId l ≤ pinMaxFailures) ∧
    ∀ id correct locked, .evaluated id correct locked ∈ log → locked = false

theorem LockoutHolds.cons {log : List PinEvent} {e : PinEvent} (h : LockoutHolds log)
    (hwrongs : ∀ staffId, wrongsSince staffId (e :: log) ≤ pinMaxFailures)
    (hlocked : ∀ id correct locked, e = .evaluated id correct locked → locked = false) :
    LockoutHolds (e :: log) := by
  refine ⟨fun l hl => ?_, fun id correct locked hmem => ?_⟩
  · rcases List.suffix_cons_iff.mp hl with rfl | hl
    · exact hwrongs
    · exact h.1 l hl
  · rcases List.mem_cons.mp hmem with he | hmem
    · exact hlocked id correct locked he.symm
    · exact h.2 id correct locked hmem

/-- The failures that the device has on record for a member. -/
def PinDb.failures (db : PinDb) (staffId : String) : ℕ :=
  (db.attempts.find? staffId).elim 0 (·.failures)

/-- The record and the rows agree on the wrong PINs, and the bound holds. -/
structure Counts (db : PinDb) (log : List PinEvent) : Prop where
  wrongs : ∀ staffId, wrongsSince staffId log = db.failures staffId
  failures_lt : ∀ staffId, db.failures staffId < pinMaxFailures
  holds : LockoutHolds log

/-- What holds while no login is disturbed. -/
structure PinState.Counted (s : PinState) : Prop where
  counts : Counts s.db s.log
  /-- A login that waits was started on a row that was not locked. -/
  started : ∀ login ∈ s.logins, login.startedAt ≤ s.clock ∧
    ∀ a ∈ login.att, a.lockedAt login.startedAt = false

namespace PinDb

variable {db : PinDb} {now : Time} {ticket : ℕ} {staffId : String} {pin : Option String}
  {login : PendingLogin}

/-- A login starts on a row that is not locked. -/
theorem startLogin_spec (h : db.startLogin now ticket staffId pin = .ok login) :
    login.startedAt = now ∧ ∀ a ∈ login.att, a.lockedAt now = false := by
  simp only [startLogin, bind_eq_ok, ensure_eq_ok, pure_eq_ok] at h
  obtain ⟨staff, -, pinHash, -, -, hfree, rfl⟩ := h
  refine ⟨rfl, fun a ha => ?_⟩
  have ha : db.attempts.find? staffId = some a := ha
  rw [ha, Option.bind_some] at hfree
  unfold PinAttempts.lockedAt
  cases hlocked : a.lockedUntil with
  | none => rfl
  | some t =>
    rw [hlocked, Option.getD_some] at hfree
    exact decide_eq_false hfree

/-- A wrong PIN adds a failure, or locks the row and starts again. -/
theorem missed_spec (now : Time) (staffId : String) (att : Option PinAttempts) :
    ((missed now staffId att).lockedUntil.isSome ∧ (missed now staffId att).failures = 0 ∧
        pinMaxFailures ≤ att.elim 0 (·.failures) + 1) ∨
      ((missed now staffId att).lockedUntil.isSome = false ∧
        (missed now staffId att).failures = att.elim 0 (·.failures) + 1 ∧
        att.elim 0 (·.failures) + 1 < pinMaxFailures) := by
  have hatt : (att.getD ⟨staffId, 0, 0, none⟩).failures = att.elim 0 (·.failures) := by
    cases att <;> rfl
  rw [← hatt]
  unfold missed
  dsimp only
  split
  · rename_i hmax
    exact .inl ⟨rfl, rfl, hmax⟩
  · rename_i hmax
    exact .inr ⟨rfl, rfl, Nat.lt_of_not_le hmax⟩

theorem staffId_missed (now : Time) (staffId : String) (att : Option PinAttempts) :
    (missed now staffId att).staffId = staffId := by
  unfold missed
  dsimp only
  split <;> rfl

theorem failures_delete (id : String) :
    { db with attempts := db.attempts.delete fun a => a.staffId = staffId }.failures id =
      if id = staffId then 0 else db.failures id := by
  have hfind := KeyedTable.find?_delete (t := db.attempts) (p := fun a => a.staffId = staffId) id
  unfold failures
  dsimp only
  rw [hfind]
  cases ha : db.attempts.find? id with
  | none => simp
  | some a =>
    have hid : a.staffId = id := (KeyedTable.find?_eq_some.mp ha).2
    by_cases h : id = staffId
    · rw [Option.filter_some_neg (by simp [hid, h]), if_pos h]
      rfl
    · rw [Option.filter_some_pos (by simp [hid, h]), if_neg h]

theorem failures_put {row : PinAttempts} (id : String) :
    { db with attempts := db.attempts.put row }.failures id =
      if id = row.staffId then row.failures else db.failures id := by
  unfold failures
  dsimp only
  split
  · rename_i h
    rw [h, KeyedTable.find?_put_self]
    rfl
  · rename_i h
    rw [KeyedTable.find?_put_of_ne h]

end PinDb

/-! ### One login after another -/

@[simp] theorem wrongsSince_correct (id staffId : String) (locked : Bool) (log : List PinEvent) :
    wrongsSince id (.evaluated staffId true locked :: log) = wrongsSince id log := by
  simp [wrongsSince]

@[simp] theorem wrongsSince_wrong (id staffId : String) (locked : Bool) (log : List PinEvent) :
    wrongsSince id (.evaluated staffId false locked :: log) =
      if id = staffId then wrongsSince id log + 1 else wrongsSince id log := by
  by_cases h : id = staffId
  · simp [wrongsSince, h, Nat.add_comm]
  · simp [wrongsSince, h, Ne.symm h]

namespace Counts

variable {db : PinDb} {log : List PinEvent} {staffId : String}

theorem wrongs_le (h : Counts db log) (id : String) : wrongsSince id log ≤ pinMaxFailures := by
  rw [h.wrongs]
  exact (h.failures_lt id).le

/-- A correct PIN resets the member's count. -/
theorem correct (h : Counts db log) (sessions : List StaffSession) :
    Counts ⟨db.catalog, db.attempts.delete fun a => a.staffId = staffId, sessions⟩
      (.reset staffId :: .evaluated staffId true false :: log) := by
  have hfail : ∀ id, PinDb.failures ⟨db.catalog, db.attempts.delete fun a => a.staffId = staffId,
      sessions⟩ id = if id = staffId then 0 else db.failures id :=
    fun id => PinDb.failures_delete id
  have hwrongs : ∀ id, wrongsSince id (.reset staffId :: .evaluated staffId true false :: log) =
      if id = staffId then 0 else db.failures id := by
    intro id
    rw [wrongsSince, wrongsSince_correct, h.wrongs]
    simp only [eq_comm]
  refine ⟨fun id => by rw [hwrongs, hfail], fun id => ?_, ?_⟩
  · rw [hfail]
    split
    · exact Nat.succ_pos 4
    · exact h.failures_lt id
  · refine (h.holds.cons (fun id => ?_) fun _ _ _ he => ?_).cons (fun id => ?_) fun _ _ _ he => ?_
    · rw [wrongsSince_correct]
      exact h.wrongs_le id
    · cases he
      rfl
    · rw [hwrongs]
      split
      · exact Nat.zero_le _
      · exact (h.failures_lt id).le
    · cases he

/-- A wrong PIN is counted on the row that was read, if that is still the row. -/
theorem wrong (h : Counts db log) {now : Time} {att : Option PinAttempts}
    (hatt : db.attempts.find? staffId = att) :
    Counts { db with attempts := db.attempts.put (PinDb.missed now staffId att) }
      ((if (PinDb.missed now staffId att).lockedUntil.isSome then
        [.lockout staffId, .evaluated staffId false false]
      else [.evaluated staffId false false]) ++ log) := by
  have hcount : db.failures staffId = att.elim 0 (·.failures) := by rw [PinDb.failures, hatt]
  have hfail : ∀ id, PinDb.failures
      { db with attempts := db.attempts.put (PinDb.missed now staffId att) } id =
      if id = staffId then (PinDb.missed now staffId att).failures else db.failures id := by
    intro id
    rw [PinDb.failures_put, PinDb.staffId_missed]
  have hholds : LockoutHolds (.evaluated staffId false false :: log) := by
    refine h.holds.cons (fun id => ?_) fun _ _ _ he => ?_
    · rw [wrongsSince_wrong, h.wrongs]
      split
      · exact h.failures_lt id
      · exact (h.failures_lt id).le
    · cases he
      rfl
  rcases PinDb.missed_spec now staffId att with ⟨hlock, hzero, -⟩ | ⟨hlock, hnext, hlt⟩
  · rw [hlock, if_pos rfl]
    have hwrongs : ∀ id, wrongsSince id (.lockout staffId :: .evaluated staffId false false :: log) =
        if id = staffId then 0 else db.failures id := by
      intro id
      rw [wrongsSince, wrongsSince_wrong, h.wrongs]
      by_cases hid : id = staffId
      · rw [if_pos hid.symm, if_pos hid]
      · rw [if_neg (Ne.symm hid), if_neg hid, if_neg hid]
    refine ⟨fun id => ?_, fun id => ?_, hholds.cons (fun id => ?_) fun _ _ _ he => by cases he⟩
    · rw [hfail, hzero]
      exact hwrongs id
    · rw [hfail, hzero]
      split
      · exact Nat.succ_pos 4
      · exact h.failures_lt id
    · rw [hwrongs]
      split
      · exact Nat.zero_le _
      · exact (h.failures_lt id).le
  · rw [hlock, if_neg Bool.false_ne_true]
    refine ⟨fun id => ?_, fun id => ?_, hholds⟩
    · rw [hfail, hnext, List.singleton_append, wrongsSince_wrong, h.wrongs]
      split
      · rename_i hid
        rw [hid, hcount]
      · rfl
    · rw [hfail, hnext]
      split
      · exact hlt
      · exact h.failures_lt id

end Counts

/-! ### Runs -/

namespace PinState

variable {s : PinState} {crypto : PinCrypto}

/-- The row that a waiting login was started on is not locked when the login goes on. -/
theorem Counted.locked_eq_false (h : s.Counted) {login : PendingLogin} (hlogin : login ∈ s.logins)
    (hatt : s.db.attempts.find? login.staffId = login.att) : s.locked login.staffId = false := by
  obtain ⟨hle, hthen⟩ := h.started login hlogin
  rw [locked, hatt]
  cases ha : login.att with
  | none => rfl
  | some a =>
    have hopen := hthen a ha
    unfold PinAttempts.lockedAt at hopen
    change a.lockedUntil.any (s.clock < ·) = false
    cases ht : a.lockedUntil with
    | none => rfl
    | some t =>
      rw [ht, Option.any_some, decide_eq_false_iff_not] at hopen
      rw [Option.any_some, decide_eq_false_iff_not]
      exact fun hlt => hopen (hle.trans_lt hlt)

/-- A login that finds the row it read keeps the count. -/
theorem Counted.finish (h : s.Counted) {login : PendingLogin} (hlogin : login ∈ s.logins)
    (hatt : s.db.attempts.find? login.staffId = login.att) (token : String) :
    (s.finish crypto login token).Counted := by
  have hstarted : ∀ l ∈ s.logins.delete fun l => l.ticket = login.ticket,
      l.startedAt ≤ s.clock ∧ ∀ a ∈ l.att, a.lockedAt l.startedAt = false :=
    fun l hl => h.started l (KeyedTable.mem_delete.mp hl).1
  have hfree := h.locked_eq_false hlogin hatt
  unfold PinState.finish
  dsimp only
  cases verifyPin crypto login.pin login.pinHash with
  | none => exact ⟨h.counts, hstarted⟩
  | some correct =>
    refine ⟨?_, hstarted⟩
    cases correct with
    | true =>
      simp only [eventsOf, hfree]
      exact h.counts.correct (s.db.sessions ++
        [⟨token, login.staffId, s.clock, s.clock + sessionTtlMs⟩])
    | false =>
      simp only [eventsOf, hfree]
      exact h.counts.wrong hatt

theorem Counted.step (h : s.Counted) (a : PinAction) (hgood : s.Undisturbed a) :
    (s.step crypto a).Counted := by
  cases a with
  | login ticket staffId pin =>
    unfold PinState.step
    dsimp only
    split
    · rename_i login hfind hstart
      obtain ⟨hnow, hatt⟩ := PinDb.startLogin_spec hstart
      refine ⟨h.counts, fun l hl => ?_⟩
      rcases KeyedTable.mem_put.mp hl with rfl | ⟨hl, -⟩
      · exact ⟨hnow.le, hnow ▸ hatt⟩
      · exact h.started l hl
    · exact h
  | verified ticket token =>
    unfold PinState.step
    dsimp only
    split
    · exact h
    · rename_i login hfind
      exact h.finish (KeyedTable.find?_eq_some.mp hfind).1 (hgood login hfind) token
  | tick ms =>
    refine ⟨h.counts, fun l hl => ?_⟩
    obtain ⟨hle, hatt⟩ := h.started l hl
    exact ⟨hle.trans (Int.le_add_of_nonneg_right (Int.natCast_nonneg ms)), hatt⟩
  | applyFeed feed => exact ⟨⟨h.counts.1, h.counts.2, h.counts.3⟩, h.started⟩
  | restart => exact ⟨h.counts, fun l hl => absurd hl (KeyedTable.notMem_empty l)⟩

end PinState

/-- In every run in which each login that ends finds the row of attempts it read, at most five
wrong PINs of a member are evaluated between lockouts and resets, and none while it is locked. -/
theorem lockout_holds {crypto : PinCrypto} {s : PinState}
    (hs : (pinLogins crypto).Reach PinState.Undisturbed s) : LockoutHolds s.log := by
  suffices h : s.Counted from h.counts.holds
  refine Machine.invariant ?_ (fun s a _ ih hgood => ih.step a hgood) hs
  rintro s ⟨catalog, clock, rfl⟩
  refine ⟨⟨fun _ => rfl, fun _ => Nat.succ_pos 4, fun l hl id => ?_, fun _ _ _ he => by cases he⟩,
    fun l hl => absurd hl (KeyedTable.notMem_empty l)⟩
  rw [List.suffix_nil.mp hl]
  exact Nat.zero_le _

section Attempts

/-- A platform on which only the PIN 1111 derives the hash of three zero bytes. -/
def samplePinCrypto : PinCrypto where
  decode text := if text = "AAAA" then [0, 0, 0] else []
  scrypt pin _ _ _ := some (if pin = "1111" then [0, 0, 0] else [1, 2, 3])

/-- A device with one member of staff. -/
def samplePinState : PinState :=
  .fresh (Catalog.applyFeed .empty ⟨1, [⟨(.staff, "ravi"), 1, some (.staff ⟨"ravi", "Ravi",
    "Cashier", ["orders.create"], true, some "scrypt$16384$8$1$AAAA$AAAA"⟩)⟩], false, false⟩)
    1793000000000

/-- The same wrong PIN at each ticket, one login after another. -/
def attemptsInTurn (tickets : List ℕ) : List PinAction :=
  tickets.flatMap fun t => [.login t "ravi" (some "9999"), .verified t "token"]

/-- The same wrong PIN at each ticket, all logins at once. -/
def attemptsAtOnce (tickets : List ℕ) : List PinAction :=
  (tickets.map fun t => .login t "ravi" (some "9999")) ++ tickets.map fun t => .verified t "token"

instance (s : PinState) (a : PinAction) : Decidable (s.Undisturbed a) :=
  match a with
  | .verified ticket _ =>
    inferInstanceAs (Decidable (∀ login ∈ s.logins.find? ticket,
      s.db.attempts.find? login.staffId = login.att))
  | .login .. | .tick _ | .applyFeed _ | .restart => .isTrue trivial

/-- Five wrong PINs in turn lock the account, and the bound holds. -/
theorem lockout_holds_inTurn :
    LockoutHolds ((pinLogins samplePinCrypto).run samplePinState
      (attemptsInTurn [0, 1, 2, 3, 4])).log :=
  lockout_holds (Machine.reach_run _ (.init ⟨_, _, rfl⟩) (by decide +kernel))

/-- Six logins at once evaluate six wrong PINs, and the account is not locked in between. -/
theorem lockout_fails :
    ∃ s, (pinLogins samplePinCrypto).Reachable s ∧ ¬LockoutHolds s.log := by
  refine ⟨_, Machine.reachable_run (attemptsAtOnce [0, 1, 2, 3, 4, 5])
    (.init ⟨_, _, rfl⟩ : (pinLogins samplePinCrypto).Reachable samplePinState), fun h => ?_⟩
  have hsix : wrongsSince "ravi" ((pinLogins samplePinCrypto).run samplePinState
      (attemptsAtOnce [0, 1, 2, 3, 4, 5])).log = 6 := by decide +kernel
  have hle := h.1 _ List.suffix_rfl "ravi"
  rw [hsix] at hle
  exact absurd hle (by decide)

end Attempts

end StelloKitchens
