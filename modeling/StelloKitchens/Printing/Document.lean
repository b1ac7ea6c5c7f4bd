import StelloKitchens.Lib.Binary64
import StelloKitchens.Lib.Checked
import StelloKitchens.Lib.EscPos
import StelloKitchens.Printing.Layout

/-!
# Documents for receipt printers

A document is a list of lines that are laid out already, and of a few other operations. It is encoded
as the bytes that a printer gets: text in the printer's code page, and commands.

## Main definitions

* `encodeText` — text in a code page, without control characters.
* `PrintDoc`, `PrintOp` — documents.
* `encodePrintDoc` — the bytes of a document, copy by copy.
-/

namespace StelloKitchens.Printing

open Checked EscPos

/-! ### Code pages -/

inductive Codepage
  | CP437 | CP850 | CP858
  deriving DecidableEq

/-- By what number a page is selected. -/
def codepageTable : Codepage → UInt8
  | .CP437 => 0
  | .CP850 => 2
  | .CP858 => 19

/-- The characters from `0x80` on. -/
def high437 : List Char :=
  ['Ç', 'ü', 'é', 'â', 'ä', 'à', 'å', 'ç', 'ê', 'ë', 'è', 'ï', 'î', 'ì', 'Ä', 'Å', 'É', 'æ', 'Æ',
    'ô', 'ö', 'ò', 'û', 'ù', 'ÿ', 'Ö', 'Ü', '¢', '£', '¥', '₧', 'ƒ', 'á', 'í', 'ó', 'ú', 'ñ', 'Ñ',
    'ª', 'º', '¿', '⌐', '¬', '½', '¼', '¡', '«', '»', '░', '▒', '▓', '│', '┤', '╡', '╢', '╖', '╕',
    '╣', '║', '╗', '╝', '╜', '╛', '┐', '└', '┴', '┬', '├', '─', '┼', '╞', '╟', '╚', '╔', '╩', '╦',
    '╠', '═', '╬', '╧', '╨', '╤', '╥', '╙', '╘', '╒', '╓', '╫', '╪', '┘', '┌', '█', '▄', '▌', '▐',
    '▀', 'α', 'ß', 'Γ', 'π', 'Σ', 'σ', 'µ', 'τ', 'Φ', 'Θ', 'Ω', 'δ', '∞', 'φ', 'ε', '∩', '≡', '±',
    '≥', '≤', '⌠', '⌡', '÷', '≈', '°', '∙', '·', '√', 'ⁿ', '²', '■', '\u00a0']

def high850 : List Char :=
  ['Ç', 'ü', 'é', 'â', 'ä', 'à', 'å', 'ç', 'ê', 'ë', 'è', 'ï', 'î', 'ì', 'Ä', 'Å', 'É', 'æ', 'Æ',
    'ô', 'ö', 'ò', 'û', 'ù', 'ÿ', 'Ö', 'Ü', 'ø', '£', 'Ø', '×', 'ƒ', 'á', 'í', 'ó', 'ú', 'ñ', 'Ñ',
    'ª', 'º', '¿', '®', '¬', '½', '¼', '¡', '«', '»', '░', '▒', '▓', '│', '┤', 'Á', 'Â', 'À', '©',
    '╣', '║', '╗', '╝', '¢', '¥', '┐', '└', '┴', '┬', '├', '─', '┼', 'ã', 'Ã', '╚', '╔', '╩', '╦',
    '╠', '═', '╬', '¤', 'ð', 'Ð', 'Ê', 'Ë', 'È', 'ı', 'Í', 'Î', 'Ï', '┘', '┌', '█', '▄', '¦', 'Ì',
    '▀', 'Ó', 'ß', 'Ô', 'Ò', 'õ', 'Õ', 'µ', 'þ', 'Þ', 'Ú', 'Û', 'Ù', 'ý', 'Ý', '¯', '´', '\u00ad',
    '±', '‗', '¾', '¶', '§', '÷', '¸', '°', '¨', '·', '¹', '³', '²', '■', '\u00a0']

def high : Codepage → List Char
  | .CP437 => high437
  | .CP850 => high850
  | .CP858 => high850.take 0x55 ++ '€' :: high850.drop 0x56

/-- The byte of a character that a page has; no page has a character twice. -/
def lookup (codepage : Codepage) (ch : ℕ) : Option UInt8 :=
  ((high codepage).findIdx? (·.toNat = ch)).map fun i => UInt8.ofNat (0x80 + i)

/-- The characters of a string: each a code unit, or a surrogate pair. -/
def characters : Text → List (UInt16 × Option UInt16)
  | [] => []
  | [u] => [(u, none)]
  | u :: v :: text =>
    if (0xD800 ≤ u ∧ u ≤ 0xDBFF) ∧ 0xDC00 ≤ v ∧ v ≤ 0xDFFF then (u, some v) :: characters text
    else (u, none) :: characters (v :: text)

def codePoint : UInt16 × Option UInt16 → ℕ
  | (u, none) => u.toNat
  | (u, some v) => 0x10000 + (u.toNat - 0xD800) * 0x400 + (v.toNat - 0xDC00)

/-- What stands for a character. -/
def substitute (ch : ℕ) : Option Text :=
  if ch < 0x10000 then substitutes.lookup (UInt16.ofNat ch) else none

def encodeChar (codepage : Codepage) (ch : ℕ) : List UInt8 :=
  match lookup codepage ch, substitute ch with
  | some native, _ => [native]
  | none, some sub => sub.map (·.toUInt8)
  | none, none =>
    if ch = 0x0A then [LF]
    else if 0x20 ≤ ch ∧ ch < 0x7F then [UInt8.ofNat ch]
    else if ch < 0x20 ∨ ch = 0x7F then []
    else [0x3F]

/-- Text in a code page; what the page does not have becomes a question mark. -/
def encodeText (codepage : Codepage) (text : Text) : List UInt8 :=
  (characters text).flatMap fun ch => encodeChar codepage (codePoint ch)

/-! ### The encoder -/

inductive BarcodeType
  | CODE128 | CODE39 | EAN13
  deriving DecidableEq

/-- Rounded as JavaScript does, and within bounds. -/
def clampInt (n : ℚ) (lo hi : ℤ) : ℤ := min hi (max lo ⌊n + 1 / 2⌋)

/-- A byte of an array of bytes. -/
def byte (n : ℤ) : UInt8 := UInt8.ofNat (n % 256).toNat

namespace EscPosEncoder

def initializePrinter : List UInt8 := [ESC, 0x40]

def codepage (page : Codepage) : List UInt8 := [ESC, 0x74, codepageTable page]

/-- A text and the end of the line. -/
def line (page : Codepage) (value : Text) : List UInt8 := encodeText page value ++ [LF]

def bold (on : Bool) : List UInt8 := [ESC, 0x45, if on then 1 else 0]

def invert (on : Bool) : List UInt8 := [GS, 0x42, if on then 1 else 0]

def align (value : Align) : List UInt8 :=
  [ESC, 0x61, match value with | .left => 0 | .center => 1 | .right => 2]

def size (width height : ℕ) : List UInt8 :=
  let w := (clampInt width 1 8 - 1).toNat
  let h := (clampInt height 1 8 - 1).toNat
  [GS, 0x21, UInt8.ofNat (w <<< 4 ||| h)]

def feed (lines : Binary64) : List UInt8 := [ESC, 0x64, byte (clampInt lines.val 0 255)]

def rule (page : Codepage) (width : ℕ) (char : Text) : List UInt8 :=
  line page (List.replicate width char).flatten

/-- The first code unit of each character. -/
def charCodes (data : Text) : List UInt16 := (characters data).map (·.1)

/-- A symbol of the second model, with the medium level of correction. -/
def qrcode (data : Text) (size : Option Binary64) : List UInt8 :=
  let size := clampInt ((size.map (·.val)).getD 6) 1 16
  let payload := (charCodes data).map (·.toUInt8)
  let storeLen := payload.length + 3
  [GS, 0x28, 0x6B, 0x04, 0x00, 0x31, 0x41, 50, 0x00] ++
    [GS, 0x28, 0x6B, 0x03, 0x00, 0x31, 0x43, byte size] ++
    [GS, 0x28, 0x6B, 0x03, 0x00, 0x31, 0x45, 49] ++
    [GS, 0x28, 0x6B, UInt8.ofNat storeLen, UInt8.ofNat (storeLen >>> 8), 0x31, 0x50, 0x30] ++
    payload ++ [GS, 0x28, 0x6B, 0x03, 0x00, 0x31, 0x51, 0x30]

def isDigit (u : UInt16) : Bool := 0x30 ≤ u && u ≤ 0x39

/-- The characters of the second type of barcodes. -/
def isCode39 (u : UInt16) : Bool :=
  isDigit u || (0x41 ≤ u && u ≤ 0x5A) || u ∈ Text.of " -.$/+%"

def barcodeSystem : BarcodeType → UInt8
  | .CODE128 => 73
  | .CODE39 => 69
  | .EAN13 => 67

def barcodeBody (data : Text) : BarcodeType → Text
  | .CODE128 => Text.of "\x7bB" ++ data
  | _ => data

def barcode (data : Text) (type : BarcodeType) : Except String (List UInt8) := do
  ensure (type = .EAN13 → data.all isDigit ∧ 12 ≤ data.length ∧ data.length ≤ 13)
    "EAN13 needs 12 or 13 digits"
  ensure (type = .CODE39 → data.all isCode39 ∧ 1 ≤ data.length)
    "CODE39 supports 0-9 A-Z and -.$/+% space"
  let bytes := (charCodes (barcodeBody data type)).map fun c => (c &&& 0x7F).toUInt8
  ensure (bytes.length ≤ 255) "Barcode data too long"
  pure ([GS, 0x48, 2] ++ [GS, 0x68, byte (clampInt 80 1 255)] ++ [GS, 0x77, byte (clampInt 2 2 6)] ++
    [GS, 0x6B, barcodeSystem type, UInt8.ofNat bytes.length] ++ bytes)

/-- A partial cut. -/
def cut : List UInt8 := [GS, 0x56, 1]

def pulse (pin : UInt8) (onMs offMs : ℚ) : List UInt8 :=
  [ESC, 0x70, pin, byte (clampInt (onMs / 2) 0 255), byte (clampInt (offMs / 2) 0 255)]

end EscPosEncoder

/-! ### Documents -/

/-- A multiplier of a character's width or height. -/
inductive Scale
  | one | two
  deriving DecidableEq

def Scale.toNat : Scale → ℕ
  | .one => 1
  | .two => 2

inductive PrintOp
  | text (text : Text) (align : Option Align) (bold invert : Bool) (size : Option (Scale × Scale))
  | rule (char : Option Text)
  | qr (data : Text) (size : Option Binary64)
  | barcode (data : Text) (type : BarcodeType)
  | feed (lines : Binary64)
  | cut
  | drawer
  deriving DecidableEq

structure PrintDoc where
  /-- Characters per line. -/
  width : ℕ
  ops : List PrintOp

open EscPosEncoder in
/-- The bytes of an operation; the drawer is opened with the first copy. -/
def encodeOp (page : Codepage) (width copy : ℕ) : PrintOp → Except String (List UInt8)
  | .text t a b i size =>
    let (w, h) := size.getD (.one, .one)
    pure (align (a.getD .left) ++ (if b then bold true else []) ++ (if i then invert true else []) ++
      (if w ≠ .one ∨ h ≠ .one then EscPosEncoder.size w.toNat h.toNat else []) ++ line page t ++
      (if w ≠ .one ∨ h ≠ .one then EscPosEncoder.size 1 1 else []) ++
      (if i then invert false else []) ++ if b then bold false else [])
  | .rule char => pure (align .left ++ rule page width (char.getD (Text.of "-")))
  | .qr data size => pure (align .center ++ qrcode data size ++ [LF] ++ align .left)
  | .barcode data type => do
    let bytes ← barcode data type
    pure (align .center ++ bytes ++ [LF] ++ align .left)
  | .feed lines => pure (feed lines)
  | .cut => pure cut
  | .drawer => pure (if copy = 0 then pulse 0 100 200 else [])

def encodeCopy (doc : PrintDoc) (page : Codepage) (copy : ℕ) : Except String (List UInt8) := do
  let ops ← doc.ops.mapM (encodeOp page doc.width copy)
  pure (EscPosEncoder.initializePrinter ++ EscPosEncoder.codepage page ++ ops.flatten)

/-- How many copies are printed. -/
def copiesOf (copies : Option ℤ) : ℕ := (max 1 (copies.getD 1)).toNat

/-- The bytes of a document. -/
def encodePrintDoc (doc : PrintDoc) (codepage : Option Codepage) (copies : Option ℤ) :
    Except String (List UInt8) := do
  let copies ← (List.range (copiesOf copies)).mapM (encodeCopy doc (codepage.getD .CP437))
  pure copies.flatten

end StelloKitchens.Printing
