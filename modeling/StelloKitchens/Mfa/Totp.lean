import StelloKitchens.Lib.Checked
import StelloKitchens.Shared.JsText

/-!
# Time-based one-time passwords

A code has six digits and is good for a step of thirty seconds. It is computed from a secret and the
number of the step by a keyed hash, of which nothing more is assumed than that it yields twenty
bytes. Secrets are bytes written in base 32.

## Main definitions

* `base32Encode`, `base32Decode` — secrets as text.
* `hotp`, `verifyTotp` — the code of a step, and the step that a code is of.

## Main results

* `verifyTotp_eq_some` — a step that is found is within one of now, and the code is its code.
-/

namespace StelloKitchens.Mfa

/-! ### Base 32 -/

def base32Alphabet : List Char := "ABCDEFGHIJKLMNOPQRSTUVWXYZ234567".toList

/-- The character for the last five bits. -/
def base32Char (value : UInt32) : Char := base32Alphabet.getD (value % 32).toNat 'A'

/-- The characters for all groups of five of the last bits, and how many bits are left. -/
def base32Groups (value : UInt32) : ℕ → List Char × ℕ
  | bits + 5 =>
    let rest := base32Groups value bits
    (base32Char (value >>> UInt32.ofNat bits) :: rest.1, rest.2)
  | bits => ([], bits)

def base32EncodeFrom (value : UInt32) (bits : ℕ) : List UInt8 → List Char
  | [] => if 0 < bits then [base32Char (value <<< UInt32.ofNat (5 - bits))] else []
  | byte :: buf =>
    let value := value <<< 8 ||| byte.toUInt32
    let groups := base32Groups value (bits + 8)
    groups.1 ++ base32EncodeFrom value groups.2 buf

def base32Encode (buf : List UInt8) : String := String.ofList (base32EncodeFrom 0 0 buf)

def base32DecodeFrom (value : UInt32) (bits : ℕ) : List Char → Except String (List UInt8)
  | [] => .ok []
  | ch :: rest =>
    match base32Alphabet.findIdx? (· = ch) with
    | none => .error "Invalid base32 character"
    | some idx =>
      let value := value <<< 5 ||| UInt32.ofNat idx
      if 8 ≤ bits + 5 then do
        let out ← base32DecodeFrom value (bits + 5 - 8) rest
        return (value >>> UInt32.ofNat (bits + 5 - 8)).toUInt8 :: out
      else base32DecodeFrom value (bits + 5) rest

/-- Blanks, dashes and padding are passed over, and letters of either case are read. -/
def base32Decode (input : String) : Except String (List UInt8) :=
  base32DecodeFrom 0 0 ((input.toList.map Char.toUpper).filter fun c =>
    ¬(isBlank c = true ∨ c = '=' ∨ c = '-'))

/-- The secret that these random bytes make. -/
def generateTotpSecret (random : List UInt8) : String := base32Encode random

/-! ### Codes -/

def totpStepSeconds : ℤ := 30

def totpDigits : ℕ := 6

/-- A keyed hash of twenty bytes: of a key and a message. -/
abbrev Mac := List UInt8 → List UInt8 → Fin 20 → UInt8

/-- The eight bytes of a counter, if it has no more. -/
def counterBytes (counter : ℤ) : Except String (List UInt8) :=
  if 0 ≤ counter ∧ counter < 2 ^ 64 then
    .ok ((List.range 8).map fun i => UInt8.ofNat (counter.toNat >>> (8 * (7 - i))))
  else .error "The value is out of range"

/-- Four of the bytes of a hash, chosen by the last one, without the sign. -/
def truncated (digest : Fin 20 → UInt8) : ℕ :=
  let offset := (digest 19).toNat % 16
  let byte (i : ℕ) : ℕ := (digest (Fin.ofNat 20 (offset + i))).toNat
  byte 0 % 128 * 2 ^ 24 + byte 1 * 2 ^ 16 + byte 2 * 2 ^ 8 + byte 3

variable (mac : Mac)

/-- The code for a counter. -/
def hotp (secret : List UInt8) (counter : ℤ) : Except String String := do
  let msg ← counterBytes counter
  return padStart totpDigits (toString (truncated (mac secret msg) % 10 ^ totpDigits))

def timeStep (atMs : Time) : ℤ := atMs / 1000 / totpStepSeconds

/-- The code of a step, under a secret as text. -/
def codeAt (secretB32 : String) (step : ℤ) : Except String String := do
  let secret ← base32Decode secretB32
  hotp mac secret step

/-- Six digits. -/
def isTotpCode (code : String) : Bool := code.toList.length = 6 ∧ code.toList.all Char.isDigit

/-- The last of these steps that a code is of. -/
def matchStep (secret : List UInt8) (code : String) (matched : Option ℤ) (s : ℤ) :
    Except String (Option ℤ) := do
  let candidate ← hotp mac secret s
  return if candidate = code then some s else matched

/-- The step that a code is of, within one of now. -/
def verifyTotp (secretB32 code : String) (atMs : Time) : Except String (Option ℤ) :=
  if isTotpCode code then do
    let secret ← base32Decode secretB32
    let now := timeStep atMs
    [now - 1, now, now + 1].foldlM (matchStep mac secret code) none
  else .ok none

variable {mac}

/-- A step that is found is within one of now, and the code is its code. -/
theorem verifyTotp_eq_some {secretB32 code : String} {atMs : Time} {step : ℤ}
    (h : verifyTotp mac secretB32 code atMs = .ok (some step)) :
    |step - timeStep atMs| ≤ 1 ∧ codeAt mac secretB32 step = .ok code := by
  unfold verifyTotp at h
  split at h
  case isFalse => cases h
  obtain ⟨secret, hsecret, h⟩ := Checked.bind_eq_ok.mp h
  have hcode : ∀ s, hotp mac secret s = .ok code → codeAt mac secretB32 s = .ok code := by
    intro s hs
    rw [codeAt, hsecret, Checked.ok_bind, hs]
  refine Checked.foldlM_invariant (fun matched : Option ℤ => ∀ s ∈ matched,
    |s - timeStep atMs| ≤ 1 ∧ codeAt mac secretB32 s = .ok code) (fun matched s matched' ih hs h => ?_)
    h (fun _ hnone => by cases hnone) step rfl
  obtain ⟨candidate, hcandidate, h⟩ := Checked.bind_eq_ok.mp h
  rw [Checked.pure_eq_ok] at h
  subst h
  split
  case isFalse => exact ih
  case isTrue heq =>
    rintro _ ⟨⟩
    refine ⟨?_, hcode s (hcandidate.trans (congrArg _ heq))⟩
    rw [abs_le]
    simp only [List.mem_cons, List.not_mem_nil, or_false] at hs
    rcases hs with rfl | rfl | rfl <;> constructor <;> linarith

end StelloKitchens.Mfa
