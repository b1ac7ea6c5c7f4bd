import StelloKitchens.Lib.Binary64

/-!
# Text as the JavaScript runtime sees it

The built-in text operations that the device and the cloud use: lengths and slices count UTF-16
code units, an absent or empty string is falsy, and a number is written with the fewest digits
that read back as the same number.

A slice that would cut a surrogate pair drops the whole character; the runtime keeps a lone half.

## Main definitions

* `trim` — text without the blanks around it.
* `utf16Length`, `sliceUtf16` — `length` and `slice(0, n)`.
* `truthy` — an optional string that is also not empty.
* `padStart`, `toFixed2`, `jsNumber` — numbers as text.

## Main results

* `utf16Length_sliceUtf16_le` — a slice is as short as asked for.
-/

namespace StelloKitchens

/-- An instant in milliseconds; an ISO string is the instant it denotes. -/
abbrev Time := ℤ

/-! ### Blanks -/

/-- The characters that `trim` takes off. -/
def isBlank (c : Char) : Bool :=
  c.toNat ∈ [0x9, 0xA, 0xB, 0xC, 0xD, 0x20, 0xA0, 0x1680, 0x2028, 0x2029, 0x202F, 0x205F, 0x3000,
    0xFEFF] || (0x2000 ≤ c.toNat && c.toNat ≤ 0x200A)

/-- `trim`. -/
def trim (s : String) : String :=
  String.ofList ((s.toList.dropWhile isBlank).reverse.dropWhile isBlank).reverse

/-! ### Lengths -/

/-- The UTF-16 code units of a character. -/
def charUnits (c : Char) : ℕ := if c.toNat < 0x10000 then 1 else 2

/-- The UTF-16 code units of a list of characters. -/
def unitsOf (cs : List Char) : ℕ := (cs.map charUnits).sum

/-- The `length` of a string. -/
def utf16Length (s : String) : ℕ := unitsOf s.toList

/-- The longest prefix within a number of code units. -/
def takeUnits : ℕ → List Char → List Char
  | _, [] => []
  | n, c :: cs => if charUnits c ≤ n then c :: takeUnits (n - charUnits c) cs else []

/-- `slice(0, n)`. -/
def sliceUtf16 (n : ℕ) (s : String) : String := String.ofList (takeUnits n s.toList)

theorem unitsOf_takeUnits_le (n : ℕ) (cs : List Char) : unitsOf (takeUnits n cs) ≤ n := by
  induction cs generalizing n with
  | nil => simp [takeUnits, unitsOf]
  | cons c cs ih =>
    rw [takeUnits]
    split
    · have := ih (n - charUnits c)
      simp only [unitsOf, List.map_cons, List.sum_cons] at this ⊢
      omega
    · simp [unitsOf]

theorem utf16Length_sliceUtf16_le (n : ℕ) (s : String) : utf16Length (sliceUtf16 n s) ≤ n := by
  rw [utf16Length, sliceUtf16, String.toList_ofList]
  exact unitsOf_takeUnits_le n s.toList

theorem unitsOf_append (cs ds : List Char) : unitsOf (cs ++ ds) = unitsOf cs + unitsOf ds := by
  simp [unitsOf]

theorem utf16Length_append (s t : String) : utf16Length (s ++ t) = utf16Length s + utf16Length t := by
  rw [utf16Length, String.toList_append, unitsOf_append]
  rfl

/-! ### Falsy strings -/

/-- `s || null`: an empty string counts as absent. -/
def truthy (s : Option String) : Option String := s.filter fun s => s ≠ ""

/-! ### Numbers as text -/

/-- `padStart(width, "0")`. -/
def padStart (width : ℕ) (s : String) : String :=
  String.ofList (List.replicate (width - utf16Length s) '0') ++ s

theorem charUnits_of_isDigit {c : Char} (h : c.isDigit) : charUnits c = 1 := by
  have : c.toNat ≤ 57 := by
    simp only [Char.isDigit, Bool.and_eq_true, decide_eq_true_eq] at h
    exact h.2
  rw [charUnits, if_pos (by omega)]

theorem unitsOf_of_isDigit {cs : List Char} (h : ∀ c ∈ cs, c.isDigit) : unitsOf cs = cs.length := by
  induction cs with
  | nil => rfl
  | cons c cs ih =>
    rw [List.forall_mem_cons] at h
    have := ih h.2
    simp only [unitsOf, List.map_cons, List.sum_cons, List.length_cons] at this ⊢
    rw [this, charUnits_of_isDigit h.1, Nat.add_comm]

theorem isDigit_toString {n : ℕ} {c : Char} (h : c ∈ (toString n).toList) : c.isDigit :=
  Nat.isDigit_of_mem_toDigits (by decide) (by decide) (Nat.toList_repr (n := n) ▸ h)

theorem isDigit_padStart {w n : ℕ} {c : Char} (h : c ∈ (padStart w (toString n)).toList) :
    c.isDigit := by
  rw [padStart, String.toList_append, String.toList_ofList, List.mem_append] at h
  rcases h with h | h
  · rw [List.eq_of_mem_replicate h]
    rfl
  · exact isDigit_toString h

theorem length_padStart (w n : ℕ) :
    (padStart w (toString n)).toList.length = max w (Nat.toDigits 10 n).length := by
  have hunits : utf16Length (toString n) = (toString n).toList.length :=
    unitsOf_of_isDigit fun c => isDigit_toString
  have hlen : (toString n).toList.length = (Nat.toDigits 10 n).length := by
    rw [show (toString n).toList = Nat.toDigits 10 n from Nat.toList_repr]
  rw [padStart, String.toList_append, String.toList_ofList, List.length_append,
    List.length_replicate, hunits, hlen]
  omega

/-- A padded number can be read back. -/
theorem ofDigitChars_padStart (w n : ℕ) :
    Nat.ofDigitChars 10 (padStart w (toString n)).toList 0 = n := by
  rw [padStart, String.toList_append, String.toList_ofList, Nat.ofDigitChars_append,
    Nat.ofDigitChars_replicate_zero, Nat.mul_zero,
    show (toString n).toList = Nat.toDigits 10 n from Nat.toList_repr, Nat.ofDigitChars_ten_toDigits]

/-- `toFixed(2)`. -/
def toFixed2 (x : Binary64) : String :=
  let n := ⌊|x.val| * 100 + 1 / 2⌋.toNat
  (if x.val < 0 then "-" else "") ++ toString (n / 100) ++ "." ++ padStart 2 (toString (n % 100))

/-- The `k` leading decimal digits of a positive number and its power of ten, if they read back
as the same number. -/
def shortDecimal (x : Binary64) (k : ℕ) : Option (ℕ × ℤ) :=
  let n := Int.log 10 x.val + 1
  let s := (Binary64.roundEven (x.val / 10 ^ (n - k))).toNat
  if Binary64.ofRat (s * 10 ^ (n - k)) = x then
    if s = 10 ^ k then some (1, n + 1) else some (s, n)
  else none

/-- The shortest digits of a positive number and its power of ten: `0.d₁d₂… · 10ⁿ`. -/
def shortestDecimal (x : Binary64) : ℕ × ℤ :=
  ((List.range 17).findSome? fun k => shortDecimal x (k + 1)).getD (0, 0)

/-- A positive number from its shortest digits: plain notation between `10⁻⁶` and `10²¹`, else
scientific. -/
def writeDecimal (digits : ℕ) (n : ℤ) : String :=
  let s := toString digits
  let k : ℤ := s.length
  let zeros (m : ℤ) := String.ofList (List.replicate m.toNat '0')
  let pointAt (m : ℕ) := String.ofList (s.toList.take m ++ '.' :: s.toList.drop m)
  if k ≤ n ∧ n ≤ 21 then s ++ zeros (n - k)
  else if 0 < n ∧ n ≤ 21 then pointAt n.toNat
  else if -6 < n ∧ n ≤ 0 then "0." ++ zeros (-n) ++ s
  else
    let e := (if 0 ≤ n - 1 then "e+" else "e-") ++ toString (n - 1).natAbs
    if k = 1 then s ++ e else pointAt 1 ++ e

/-- A number as text. -/
def jsNumber (x : Binary64) : String :=
  if x.val = 0 then "0"
  else
    let (digits, n) := shortestDecimal (Binary64.ofRat |x.val|)
    (if x.val < 0 then "-" else "") ++ writeDecimal digits n

end StelloKitchens
