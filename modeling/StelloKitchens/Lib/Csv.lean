import Mathlib.Data.List.Basic

/-!
# Comma-separated values

Records of comma-separated fields, each ended by a line break of two characters. A field that holds
a comma, a quote or a line break is put in quotes, with the quotes in it doubled. The reader takes the
text one character at a time and refuses whatever is not of that form.

## Main definitions

* `Csv.Reader`, `Csv.Reader.step` — what is read so far, and the next character.
* `Csv.parse` — the records of a text.
* `Csv.quoted`, `Csv.record` — a field in quotes, and a record.
* `Csv.Writes` — a text is one way to write a field.

## Main results

* `Csv.Writes.read` — a written field is read up to what ends it.
* `Csv.parse_records` — written records are read back.
-/

namespace Csv

/-! ### Reading -/

/-- Where the reader is: at the start of a field, in a bare field, within quotes, after a quote that may
close them, or between the two characters of a line break. -/
inductive Mode
  | start | bare | quoted | closed | break
  deriving DecidableEq

/-- What is read so far. -/
structure Reader where
  records : List (List String)
  fields : List String
  field : List Char
  mode : Mode

namespace Reader

/-- The field is complete. -/
def endField (r : Reader) (mode : Mode) : Reader :=
  { r with fields := r.fields ++ [String.ofList r.field], field := [], mode := mode }

/-- What may follow a field. -/
def delimiter (r : Reader) (c : Char) : Option Reader :=
  if c = ',' then some (r.endField .start)
  else if c = '\r' then some (r.endField .break)
  else none

/-- A character outside of quotes. -/
def bare (r : Reader) (c : Char) : Option Reader :=
  if c = '"' ∨ c = '\n' then none
  else if c = ',' ∨ c = '\r' then r.delimiter c
  else some { r with field := r.field ++ [c], mode := .bare }

/-- The next character. -/
def step (r : Reader) (c : Char) : Option Reader :=
  match r.mode with
  | .start => if c = '"' then some { r with mode := .quoted } else r.bare c
  | .bare => r.bare c
  | .quoted =>
    if c = '"' then some { r with mode := .closed } else some { r with field := r.field ++ [c] }
  | .closed =>
    if c = '"' then some { r with field := r.field ++ [c], mode := .quoted } else r.delimiter c
  | .break => if c = '\n' then some ⟨r.records ++ [r.fields], [], [], .start⟩ else none

/-- The end of the text; the last record need not be ended by a line break. -/
def finish (r : Reader) : Option (List (List String)) :=
  match r.mode with
  | .start => some (if r.fields = [] then r.records else r.records ++ [r.fields ++ [""]])
  | .bare | .closed => some (r.records ++ [r.fields ++ [String.ofList r.field]])
  | .quoted | .break => none

end Reader

/-- The records of a text. -/
def parse (text : String) : Option (List (List String)) := do
  let r ← text.toList.foldlM Reader.step ⟨[], [], [], .start⟩
  r.finish

/-! ### Writing -/

/-- What cannot be in a bare field. -/
def IsSpecial (c : Char) : Prop := c = '"' ∨ c = ',' ∨ c = '\r' ∨ c = '\n'

instance : DecidablePred IsSpecial := fun c =>
  inferInstanceAs (Decidable (c = '"' ∨ c = ',' ∨ c = '\r' ∨ c = '\n'))

/-- Every quote is doubled. -/
def doubled (field : List Char) : List Char := field.flatMap fun c => if c = '"' then [c, c] else [c]

/-- A field in quotes. -/
def quoted (field : List Char) : List Char := '"' :: (doubled field ++ ['"'])

/-- A text is one way to write a field. -/
inductive Writes : List Char → String → Prop
  | plain (chars : List Char) (h : ∀ c ∈ chars, ¬IsSpecial c) : Writes chars (String.ofList chars)
  | inQuotes (chars : List Char) : Writes (quoted chars) (String.ofList chars)

/-- A record. -/
def record (cells : List (List Char)) : List Char := [','].intercalate cells ++ ['\r', '\n']

/-! ### Reading what is written -/

section Read

variable {records : List (List String)} {fields : List String}

theorem read_bare {field : List Char} (h : ∀ c ∈ field, ¬IsSpecial c) (before : List Char)
    {mode : Mode} (hmode : mode = .start ∨ mode = .bare) :
    ∃ mode', (mode' = .start ∨ mode' = .bare) ∧
      field.foldlM Reader.step ⟨records, fields, before, mode⟩ =
        some ⟨records, fields, before ++ field, mode'⟩ := by
  induction field generalizing before mode with
  | nil => exact ⟨mode, hmode, by simp⟩
  | cons c field ih =>
    have hc := h c List.mem_cons_self
    obtain ⟨mode', hmode', hread⟩ := @ih (fun d hd => h d (List.mem_cons_of_mem _ hd))
      (before ++ [c]) .bare (.inr rfl)
    refine ⟨mode', hmode', ?_⟩
    have hstep : Reader.step ⟨records, fields, before, mode⟩ c =
        some ⟨records, fields, before ++ [c], .bare⟩ := by
      unfold IsSpecial at hc
      push Not at hc
      have hbare : Reader.bare ⟨records, fields, before, mode⟩ c =
          some ⟨records, fields, before ++ [c], .bare⟩ := by
        rw [Reader.bare, if_neg (by simp [hc]), if_neg (by simp [hc])]
      obtain rfl | rfl := hmode
      · rw [Reader.step, if_neg hc.1, hbare]
      · exact hbare
    rw [List.foldlM_cons, hstep]
    simpa using hread

theorem read_doubled (field before : List Char) :
    (doubled field).foldlM Reader.step ⟨records, fields, before, .quoted⟩ =
      some ⟨records, fields, before ++ field, .quoted⟩ := by
  induction field generalizing before with
  | nil => simp [doubled]
  | cons c field ih =>
    rw [doubled, List.flatMap_cons, List.foldlM_append]
    have hchar : (if c = '"' then [c, c] else [c]).foldlM Reader.step
        ⟨records, fields, before, .quoted⟩ = some ⟨records, fields, before ++ [c], .quoted⟩ := by
      by_cases hc : c = '"'
      · subst hc
        rfl
      · rw [if_neg hc]
        simp [Reader.step, hc]
    rw [hchar]
    simpa [doubled] using ih (before ++ [c])

/-- A written field is read up to what ends it. -/
theorem Writes.read {text : List Char} {value : String} (h : Writes text value) {c : Char}
    (hc : c = ',' ∨ c = '\r') :
    (text ++ [c]).foldlM Reader.step ⟨records, fields, [], .start⟩ =
      some ⟨records, fields ++ [value], [], if c = ',' then .start else .break⟩ := by
  rw [List.foldlM_append]
  cases h with
  | plain chars h =>
    obtain ⟨mode, hmode, hread⟩ := @read_bare records fields text h [] .start (.inl rfl)
    rw [hread]
    obtain rfl | rfl := hmode <;> obtain rfl | rfl := hc <;> rfl
  | inQuotes chars =>
    have hopen : Reader.step ⟨records, fields, [], .start⟩ '"' =
        some ⟨records, fields, [], .quoted⟩ := rfl
    have hclose : Reader.step ⟨records, fields, chars, .quoted⟩ '"' =
        some ⟨records, fields, chars, .closed⟩ := rfl
    have hread : (quoted chars).foldlM Reader.step ⟨records, fields, [], .start⟩ =
        some ⟨records, fields, chars, .closed⟩ := by
      rw [quoted, List.foldlM_cons, hopen]
      show (doubled chars ++ ['"']).foldlM Reader.step _ = _
      rw [List.foldlM_append, read_doubled, List.nil_append]
      exact hclose
    rw [hread]
    obtain rfl | rfl := hc <;> rfl

/-- A written record is read, and then the next one begins. -/
theorem read_record {cells : List (List Char)} {values : List String}
    (h : List.Forall₂ Writes cells values) (hne : cells ≠ []) :
    (record cells).foldlM Reader.step ⟨records, fields, [], .start⟩ =
      some ⟨records ++ [fields ++ values], [], [], .start⟩ := by
  induction h generalizing fields with
  | nil => exact absurd rfl hne
  | @cons cell value cells values hcell hcells ih =>
    cases cells with
    | nil =>
      cases hcells
      have hbreak : record [cell] = (cell ++ ['\r']) ++ ['\n'] := by simp [record]
      rw [hbreak, List.foldlM_append, hcell.read (.inr rfl)]
      rfl
    | cons next cells =>
      have hcomma : record (cell :: next :: cells) = (cell ++ [',']) ++ record (next :: cells) := by
        simp [record, List.intercalate_cons_cons]
      rw [hcomma, List.foldlM_append, hcell.read (.inl rfl)]
      refine Eq.trans (@ih (fields ++ [value]) (List.cons_ne_nil _ _)) ?_
      rw [List.append_assoc, List.singleton_append]

/-- Written records are read back. -/
theorem parse_records {rows : List (List (List Char))} {values : List (List String)}
    (h : List.Forall₂ (List.Forall₂ Writes) rows values) (hne : ∀ row ∈ rows, row ≠ []) :
    parse (String.ofList (rows.flatMap record)) = some values := by
  have hread : ∀ records, (rows.flatMap record).foldlM Reader.step ⟨records, [], [], .start⟩ =
      some ⟨records ++ values, [], [], .start⟩ := by
    induction h with
    | nil => simp
    | @cons row value rows values hrow hrows ih =>
      intro records
      rw [List.flatMap_cons, List.foldlM_append, read_record hrow (hne row List.mem_cons_self)]
      refine Eq.trans (ih (fun r hr => hne r (List.mem_cons_of_mem _ hr)) _) ?_
      rw [List.append_assoc, List.singleton_append, List.nil_append]
  rw [parse, String.toList_ofList, hread []]
  rfl

end Read

end Csv
