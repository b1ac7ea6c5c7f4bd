import StelloKitchens.Lib.Words

/-!
# Laying out receipts

Text of a fixed width, in the characters of the printer's normal font. A text is a string's UTF-16 code
units, which is what lengths, slices and patterns of the source see.

## Main definitions

* `Text` — a string.
* `normalizeReceiptText` — a text without the characters that no receipt code page can print.
* `wrap` — the lines of a paragraph.
* `pad`, `columns`, `leftRight` — text within a width, a row of cells, and a label with its value.
-/

namespace StelloKitchens.Printing

/-- A string: its UTF-16 code units. -/
abbrev Text := List UInt16

/-- The code units of a character. -/
def charText (c : Char) : Text :=
  if c.toNat < 0x10000 then [UInt16.ofNat c.toNat]
  else [UInt16.ofNat (0xD800 + (c.toNat - 0x10000) / 0x400),
    UInt16.ofNat (0xDC00 + (c.toNat - 0x10000) % 0x400)]

/-- A literal of the source. -/
def Text.of (s : String) : Text := s.toList.flatMap charText

def space : UInt16 := 0x20

def spaces (n : ℕ) : Text := List.replicate n space

/-- What `\s` matches. -/
def isBlankUnit (u : UInt16) : Bool :=
  u ∈ [0x9, 0xA, 0xB, 0xC, 0xD, 0x20, 0xA0, 0x1680, 0x2028, 0x2029, 0x202F, 0x205F, 0x3000, 0xFEFF] ||
    (0x2000 ≤ u && u ≤ 0x200A)

/-! ### Characters -/

/-- What stands for a character that no receipt code page can print. -/
def substitutes : List (UInt16 × Text) :=
  [(0x20B9, Text.of "Rs."), (0x2018, Text.of "'"), (0x2019, Text.of "'"), (0x201C, Text.of "\""),
    (0x201D, Text.of "\""), (0x2013, Text.of "-"), (0x2014, Text.of "-"), (0x2026, Text.of "..."),
    (0x2022, Text.of "*"), (0xD7, Text.of "x"), (0x2192, Text.of "->"), (0x21B3, Text.of ">"),
    (0xA0, Text.of " "), (0x9, Text.of " ")]

/-- Stand-ins for what cannot be printed; no half of a surrogate pair has one. -/
def normalizeReceiptText (text : Text) : Text :=
  text.flatMap fun ch => (substitutes.lookup ch).getD [ch]

/-! ### Wrapping -/

/-- The text in which lines are broken: single spaces, and none at the ends. -/
def cleanText (text : Text) : Text :=
  Words.trim isBlankUnit (Words.collapse isBlankUnit space (normalizeReceiptText text))

/-- A word that is longer than a line is broken, after the line begun so far. -/
def breakWord (width : ℕ) (lines : List Text) (current w : Text) : List Text × Text × Text :=
  if 0 < width ∧ width < w.length then
    breakWord width ((if current = [] then lines else lines ++ [current]) ++ [w.take width]) []
      (w.drop width)
  else (lines, current, w)
termination_by w.length

/-- The next word, with the complete lines and the current one. -/
def placeWord (width : ℕ) (state : List Text × Text) (word : Text) : List Text × Text :=
  let (lines, current, w) := breakWord width state.1 state.2 word
  if w = [] then (lines, current)
  else if current = [] then (lines, w)
  else if current.length + 1 + w.length ≤ width then (lines, current ++ space :: w)
  else (lines ++ [current], w)

/-- The complete lines and the current one, if it is begun. -/
def finishLines (state : List Text × Text) : List Text :=
  if state.2 = [] then state.1 else state.1 ++ [state.2]

def wrap (text : Text) (width : ℕ) : List Text :=
  if width = 0 then []
  else if cleanText text = [] then [[]]
  else finishLines (((cleanText text).splitOn space).foldl (placeWord width) ([], []))

/-! ### Columns -/

inductive Align
  | left | right | center
  deriving DecidableEq

/-- The spaces before a text in its width. -/
def leftGap (gap : ℕ) : Align → ℕ
  | .left => 0
  | .right => gap
  | .center => gap / 2

def pad (text : Text) (width : ℕ) (align : Align) : Text :=
  let t := if width < text.length then text.take width else text
  let gap := width - t.length
  spaces (leftGap gap align) ++ t ++ spaces (gap - leftGap gap align)

structure Column where
  text : Text
  width : ℕ
  align : Align

/-- A line of a row: what its cells have on it, without the spaces at the end. -/
def columnsLine (cells : List Column) (gap row : ℕ) : Text :=
  ((spaces gap).intercalate (cells.map fun c =>
    pad ((wrap c.text c.width)[row]?.getD []) c.width c.align)).rdropWhile isBlankUnit

/-- A row of cells, as tall as its tallest cell. -/
def columns (cells : List Column) (gap : ℕ) : List Text :=
  let height := (cells.map fun c => (wrap c.text c.width).length).foldr max 0
  (List.range height).map (columnsLine cells gap)

/-- A label, and a value flush right; a label that leaves no room for it is wrapped. -/
def leftRight (left right : Text) (width : ℕ) : List Text :=
  let l := normalizeReceiptText left
  let r := normalizeReceiptText right
  if l.length + 1 + r.length ≤ width then [l ++ spaces (width - l.length - r.length) ++ r]
  else
    let leftLines := wrap l (max 1 (width - r.length - 1))
    let last := leftLines.getLast?.getD []
    leftLines.dropLast ++ [last ++ spaces (max 1 (width - last.length - r.length)) ++ r]

end StelloKitchens.Printing
