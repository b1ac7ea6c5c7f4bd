import StelloKitchens.Shared.JsText

/-!
# Offline bill numbering

Every device bills under its own series, and the sequence restarts with the Indian fiscal year,
which begins on 1 April in India. The number on the invoice is the series, the year code and the
sequence, at most sixteen characters long.

## Main definitions

* `fiscalYearCode` — the four-digit code of the fiscal year of an instant.
* `formatEdgeBillNumber` — the invoice number of a series, year and sequence.
* `edgeSeriesCode` — the series allotted to the n-th device of an outlet.

## Main results

* `yearOfDay_spec` — the year of a day number is the one whose days contain it.
* `isEdgeSeries_edgeSeriesCode` — allotted series have the form the cloud asks for.
-/

namespace StelloKitchens

/-! ### The calendar -/

/-- The number of the first day of a year, counted from 1 January 1970. -/
def dayFromYear (y : ℤ) : ℤ :=
  365 * (y - 1970) + (y - 1969) / 4 - (y - 1901) / 100 + (y - 1601) / 400

/-- The year a day number falls in. -/
def yearOfDay (d : ℤ) : ℤ :=
  let y := 1970 + d * 400 / 146097
  if d < dayFromYear y then y - 1 else if dayFromYear (y + 1) ≤ d then y + 1 else y

theorem yearOfDay_spec (d : ℤ) :
    dayFromYear (yearOfDay d) ≤ d ∧ d < dayFromYear (yearOfDay d + 1) := by
  unfold yearOfDay dayFromYear
  generalize hy : 1970 + d * 400 / 146097 = y
  dsimp only
  split_ifs
  · rw [sub_add_cancel]
    omega
  · omega
  · omega

def isLeapYear (y : ℤ) : Bool := y % 4 = 0 ∧ (y % 100 ≠ 0 ∨ y % 400 = 0)

/-- The day falls in April or later. -/
def fromApril (d : ℤ) : Bool :=
  let y := yearOfDay d
  (if isLeapYear y then 91 else 90) ≤ d - dayFromYear y

/-! ### Series, year and sequence -/

def istOffsetMs : ℤ := 330 * 60 * 1000

/-- The calendar year in which the fiscal year of an instant begins. -/
def fiscalYearStart (at_ : Time) : ℤ :=
  let d := (at_ + istOffsetMs) / 86400000
  if fromApril d then yearOfDay d else yearOfDay d - 1

/-- The fiscal year of an instant: 26 October 2026 falls in `"2627"`. -/
def fiscalYearCode (at_ : Time) : String :=
  let start := fiscalYearStart at_
  padStart 2 (toString (start.tmod 100)) ++ padStart 2 (toString ((start + 1).tmod 100))

/-- The invoice number of an offline bill. -/
def formatEdgeBillNumber (series fy : String) (seq : ℕ) : Except String String :=
  let n := series ++ "/" ++ fy ++ "/" ++ padStart 6 (toString seq)
  if 16 < utf16Length n then .error ("Bill number " ++ n ++ " exceeds 16 characters") else .ok n

theorem formatEdgeBillNumber_length {series fy : String} {seq : ℕ} {n : String}
    (h : formatEdgeBillNumber series fy seq = .ok n) : utf16Length n ≤ 16 := by
  unfold formatEdgeBillNumber at h
  dsimp only at h
  split at h
  · cases h
  · cases h
    omega

/-- The series of the n-th activation of an outlet: `E01` to `E99`, then `E100` on. -/
def edgeSeriesCode (index : ℕ) : Except String String :=
  if index < 1 ∨ 999 < index then .error "Series index out of range"
  else .ok ("E" ++ padStart 2 (toString index))

/-- A series that an outlet has allotted. -/
structure SeriesCode where
  code : String
  allotted : ∃ index, edgeSeriesCode index = .ok code

instance : DecidableEq SeriesCode := fun s t =>
  decidable_of_iff (s.code = t.code) ⟨fun h => by cases s; cases t; simpa using h, congrArg _⟩

/-- The form of a series: an `E` and two or three digits or capitals. -/
def isEdgeSeries (s : String) : Bool :=
  match s.toList with
  | 'E' :: cs => (cs.length = 2 ∨ cs.length = 3) ∧ cs.all fun c => c.isDigit || c.isUpper
  | _ => false

/-- The form of a fiscal year code: four digits. -/
def isFiscalYear (s : String) : Bool := s.toList.length = 4 ∧ s.toList.all Char.isDigit

theorem isEdgeSeries_edgeSeriesCode {index : ℕ} {s : String} (h : edgeSeriesCode index = .ok s) :
    isEdgeSeries s := by
  unfold edgeSeriesCode at h
  split at h
  · cases h
  rename_i hrange
  cases h
  have hdigits : ∀ c ∈ (padStart 2 (toString index)).toList, c.isDigit || c.isUpper := by
    intro c hc
    rw [isDigit_padStart hc, Bool.true_or]
  have hlen : (padStart 2 (toString index)).toList.length = 2 ∨
      (padStart 2 (toString index)).toList.length = 3 := by
    have h₃ : (Nat.toDigits 10 index).length ≤ 3 :=
      (Nat.length_toDigits_le_iff (b := 10) (k := 3) (by decide) (by decide)).mpr (by omega)
    rw [length_padStart]
    omega
  rw [isEdgeSeries, String.toList_append]
  exact decide_eq_true ⟨hlen, List.all_eq_true.mpr hdigits⟩

/-- From the year 0 on the code of a fiscal year has four digits. -/
theorem isFiscalYear_fiscalYearCode {t : Time} (h : 0 ≤ fiscalYearStart t) :
    isFiscalYear (fiscalYearCode t) := by
  have hcode : ∀ n : ℤ, 0 ≤ n → ∃ m < 100, toString (n.tmod 100) = toString (m : ℕ) := by
    intro n hn
    refine ⟨(n.tmod 100).toNat, ?_, ?_⟩
    · rw [Int.tmod_eq_emod_of_nonneg hn]
      omega
    · rw [Int.tmod_eq_emod_of_nonneg hn]
      obtain ⟨m, hm⟩ := Int.eq_ofNat_of_zero_le (Int.emod_nonneg n (by decide : (100 : ℤ) ≠ 0))
      rw [hm]
      rfl
  obtain ⟨m₁, hm₁, h₁⟩ := hcode _ h
  obtain ⟨m₂, hm₂, h₂⟩ := hcode _ (by omega : 0 ≤ fiscalYearStart t + 1)
  rw [isFiscalYear, fiscalYearCode, h₁, h₂, String.toList_append]
  refine decide_eq_true ⟨?_, ?_⟩
  · have h₁ := (Nat.length_toDigits_le_iff (b := 10) (k := 2) (by decide) (by decide)).mpr hm₁
    have h₂ := (Nat.length_toDigits_le_iff (b := 10) (k := 2) (by decide) (by decide)).mpr hm₂
    rw [List.length_append, length_padStart, length_padStart]
    omega
  · rw [List.all_append, Bool.and_eq_true, List.all_eq_true, List.all_eq_true]
    exact ⟨fun c => isDigit_padStart, fun c => isDigit_padStart⟩

example : fiscalYearCode 1793000000000 = "2627" := by decide +kernel

end StelloKitchens
