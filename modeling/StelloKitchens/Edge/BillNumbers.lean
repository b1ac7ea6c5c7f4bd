import Mathlib.Data.Bool.AllAny
import StelloKitchens.SaasBilling.Calendar
import StelloKitchens.Shared.BillNumber

/-!
# What a bill number tells

A bill number is taken apart again into its series, year code and sequence, and no two of these make
the same number. The year code is another one from midnight of every 1 April in India.

## Main definitions

* `parseEdgeBillNumber` — the series, year code and sequence of a number.
* `startsFiscalYear` — midnight of a 1 April in India.

## Main results

* `fiscalYearCode_ne_iff` — when the year code changes.
* `edge_bill_numbers` — numbers as they are formatted and parsed.
-/

namespace StelloKitchens

open SaasBilling (civilOfDay dayOfCivil dayOfCivil_civilOfDay civilOfDay_dayOfCivil dayFromYear_succ
  daysBefore daysInMonth)

/-! ### Parsing -/

/-- What a bill number says. -/
structure EdgeBillNumber where
  series : String
  fy : String
  seq : ℕ
  deriving DecidableEq

/-- An `E` and two or three digits or capitals, four digits, and six digits or more, by slashes. -/
def parseEdgeBillNumber (n : String) : Option EdgeBillNumber :=
  match n.toList.splitOn '/' with
  | [series, fy, seq] =>
    if isEdgeSeries (String.ofList series) ∧ isFiscalYear (String.ofList fy) ∧ 6 ≤ seq.length ∧
        seq.all Char.isDigit then
      some ⟨String.ofList series, String.ofList fy, Nat.ofDigitChars 10 seq 0⟩
    else none
  | _ => none

/-- A character that bill numbers may have. -/
def isBillChar (c : Char) : Bool := c.isUpper ∨ c.isDigit ∨ c = '-' ∨ c = '/'

/-! ### The fiscal year -/

/-- The first day of a fiscal year: 1 April. -/
def firstApril (y : ℤ) : ℤ := dayOfCivil y 3 0

theorem firstApril_eq (y : ℤ) :
    firstApril y = dayFromYear y + if isLeapYear y then 91 else 90 := by
  have hdays : ∀ leap : Bool, daysBefore leap 3 = if leap then 91 else 90 := by decide
  have hyear : y + ((3 / 12 : ℕ) : ℤ) = y := by norm_num
  rw [firstApril, dayOfCivil, hyear, Nat.mod_eq_of_lt (by omega), hdays, add_zero]

/-- The calendar year in which the fiscal year of a day begins. -/
def fiscalYearOfDay (d : ℤ) : ℤ := if fromApril d then yearOfDay d else yearOfDay d - 1

/-- A day is in its fiscal year. -/
theorem fiscalYearOfDay_spec (d : ℤ) :
    firstApril (fiscalYearOfDay d) ≤ d ∧ d < firstApril (fiscalYearOfDay d + 1) := by
  obtain ⟨hle, hlt⟩ := yearOfDay_spec d
  have hnext := firstApril_eq (yearOfDay d + 1)
  have hthis := firstApril_eq (yearOfDay d)
  have hprev := firstApril_eq (yearOfDay d - 1)
  have hlength := dayFromYear_succ (yearOfDay d - 1)
  rw [sub_add_cancel] at hlength
  have hdays : ∀ leap : Bool, 365 ≤ daysBefore leap 12 := by decide
  have hyear := hdays (isLeapYear (yearOfDay d - 1))
  have hapril : ∀ y, (90 : ℤ) ≤ (if isLeapYear y then 91 else 90) ∧
      (if isLeapYear y then 91 else 90) ≤ (91 : ℤ) := fun y => by split <;> omega
  have h₁ := hapril (yearOfDay d + 1)
  have h₂ := hapril (yearOfDay d - 1)
  rw [fiscalYearOfDay]
  by_cases h : fromApril d
  · rw [if_pos h]
    have hfrom : (if isLeapYear (yearOfDay d) then 91 else 90) ≤ d - dayFromYear (yearOfDay d) :=
      of_decide_eq_true h
    omega
  · rw [if_neg h, sub_add_cancel]
    have hto : ¬(if isLeapYear (yearOfDay d) then 91 else 90) ≤ d - dayFromYear (yearOfDay d) :=
      fun h' => h (decide_eq_true h')
    omega

theorem firstApril_mono : StrictMono firstApril :=
  strictMono_int_of_lt_succ fun y => by
    have hdays : ∀ leap : Bool, 365 ≤ daysBefore leap 12 := by decide
    have h := hdays (isLeapYear y)
    rw [firstApril_eq, firstApril_eq, dayFromYear_succ]
    split <;> split <;> omega

/-- A day is in no other fiscal year. -/
theorem fiscalYearOfDay_eq {d y : ℤ} (hle : firstApril y ≤ d) (hlt : d < firstApril (y + 1)) :
    fiscalYearOfDay d = y := by
  obtain ⟨hle', hlt'⟩ := fiscalYearOfDay_spec d
  have h₁ := firstApril_mono.lt_iff_lt.mp (hle.trans_lt hlt')
  have h₂ := firstApril_mono.lt_iff_lt.mp (hle'.trans_lt hlt)
  omega

/-- A 1 April is the first day of its fiscal year. -/
theorem isFirstApril_iff (d : ℤ) : (civilOfDay d).month = 3 ∧ (civilOfDay d).date = 0 ↔
    d = firstApril (fiscalYearOfDay d) := by
  constructor
  · rintro ⟨hmonth, hdate⟩
    have hday := dayOfCivil_civilOfDay d
    rw [hmonth, hdate] at hday
    have hyear : fiscalYearOfDay d = (civilOfDay d).year := by
      refine fiscalYearOfDay_eq hday.le ?_
      calc d = firstApril (civilOfDay d).year := hday.symm
        _ < firstApril ((civilOfDay d).year + 1) := firstApril_mono (by omega)
    rw [hyear]
    exact hday.symm
  · intro h
    have hdays : ∀ leap : Bool, 0 < daysBefore leap 4 - daysBefore leap 3 := by decide
    have hcivil := @civilOfDay_dayOfCivil (fiscalYearOfDay d) 3 0 (by omega) le_rfl (hdays _)
    rw [← firstApril, ← h] at hcivil
    rw [hcivil]
    exact ⟨rfl, rfl⟩

/-- The code of the fiscal year that begins in this calendar year. -/
def codeOfYear (start : ℤ) : String :=
  padStart 2 (toString (start.tmod 100)) ++ padStart 2 (toString ((start + 1).tmod 100))

theorem fiscalYearCode_eq (t : Time) :
    fiscalYearCode t = codeOfYear (fiscalYearOfDay ((t + istOffsetMs) / 86400000)) := rfl

theorem toString_tmod_chars (a : ℤ) :
    ∀ c ∈ (padStart 2 (toString (a.tmod 100))).toList, c.isDigit ∨ c = '-' := by
  have hnonneg : ∀ k : ℕ, k < 100 →
      (padStart 2 (toString (k : ℤ))).toList.all fun c => c.isDigit ∨ c = '-' := by
    decide +kernel
  have hneg : ∀ k : ℕ, k < 100 →
      (padStart 2 (toString (-(k : ℤ)))).toList.all fun c => c.isDigit ∨ c = '-' := by
    decide +kernel
  have hlt : a.natAbs % 100 < 100 := Nat.mod_lt _ (by omega)
  rcases le_total 0 a with ha | ha
  · have htmod : a.tmod 100 = ((a.natAbs % 100 : ℕ) : ℤ) := by
      rw [Int.tmod_eq_emod_of_nonneg ha]
      omega
    rw [htmod]
    exact List.all_iff_forall_prop.mp (hnonneg _ hlt)
  · have htmod : a.tmod 100 = -((a.natAbs % 100 : ℕ) : ℤ) := by
      rw [← neg_neg a, Int.neg_tmod, Int.tmod_eq_emod_of_nonneg (by omega)]
      omega
    rw [htmod]
    exact List.all_iff_forall_prop.mp (hneg _ hlt)

theorem codeOfYear_chars (start : ℤ) : ∀ c ∈ (codeOfYear start).toList, c.isDigit ∨ c = '-' := by
  intro c hc
  rw [codeOfYear, String.toList_append, List.mem_append] at hc
  exact hc.elim (toString_tmod_chars start c) (toString_tmod_chars (start + 1) c)

/-- Fiscal years that follow one another have different codes. -/
theorem codeOfYear_succ_ne (start : ℤ) : codeOfYear (start + 1) ≠ codeOfYear start := by
  have hnonneg : ∀ k : ℕ, k < 100 →
      padStart 2 (toString (((k + 1) % 100 : ℕ) : ℤ)) ++ padStart 2 (toString (((k + 2) % 100 : ℕ) : ℤ)) ≠
        padStart 2 (toString (k : ℤ)) ++ padStart 2 (toString (((k + 1) % 100 : ℕ) : ℤ)) := by
    decide +kernel
  have hneg : ∀ k : ℕ, k < 100 →
      padStart 2 (toString (-((k + 1) % 100 : ℕ) : ℤ)) ++ padStart 2 (toString (-(k : ℤ))) ≠
        padStart 2 (toString (-((k + 2) % 100 : ℕ) : ℤ)) ++
          padStart 2 (toString (-((k + 1) % 100 : ℕ) : ℤ)) := by
    decide +kernel
  have hlast : codeOfYear (-1 + 1) ≠ codeOfYear (-1) := by decide +kernel
  rcases lt_trichotomy start (-1) with h | rfl | h
  · have h₀ : start.tmod 100 = -(((start.natAbs - 2) % 100 + 2) % 100 : ℕ) := by
      rw [← neg_neg start, Int.neg_tmod, Int.tmod_eq_emod_of_nonneg (by omega)]
      omega
    have h₁ : (start + 1).tmod 100 = -(((start.natAbs - 2) % 100 + 1) % 100 : ℕ) := by
      rw [← neg_neg (start + 1), Int.neg_tmod, Int.tmod_eq_emod_of_nonneg (by omega)]
      omega
    have h₂ : (start + 1 + 1).tmod 100 = -((start.natAbs - 2) % 100 : ℕ) := by
      rw [← neg_neg (start + 1 + 1), Int.neg_tmod, Int.tmod_eq_emod_of_nonneg (by omega)]
      omega
    rw [codeOfYear, codeOfYear, h₀, h₁, h₂]
    exact hneg _ (Nat.mod_lt _ (by omega))
  · exact hlast
  · have h₀ : start.tmod 100 = (start.natAbs % 100 : ℕ) := by
      rw [Int.tmod_eq_emod_of_nonneg (by omega)]
      omega
    have h₁ : (start + 1).tmod 100 = ((start.natAbs % 100 + 1) % 100 : ℕ) := by
      rw [Int.tmod_eq_emod_of_nonneg (by omega)]
      omega
    have h₂ : (start + 1 + 1).tmod 100 = ((start.natAbs % 100 + 2) % 100 : ℕ) := by
      rw [Int.tmod_eq_emod_of_nonneg (by omega)]
      omega
    rw [codeOfYear, codeOfYear, h₀, h₁, h₂]
    exact hnonneg _ (Nat.mod_lt _ (by omega))

/-- The code changes from one millisecond to the next where a fiscal year begins. -/
theorem codeOfYear_ne_iff (u : ℤ) : codeOfYear (fiscalYearOfDay (u / 86400000)) ≠
    codeOfYear (fiscalYearOfDay ((u - 1) / 86400000)) ↔
    u % 86400000 = 0 ∧ u / 86400000 = firstApril (fiscalYearOfDay (u / 86400000)) := by
  have hbefore : u % 86400000 = 0 → (u - 1) / 86400000 = u / 86400000 - 1 := by omega
  have hsame : u % 86400000 ≠ 0 → (u - 1) / 86400000 = u / 86400000 := by omega
  generalize u / 86400000 = d at hbefore hsame ⊢
  obtain ⟨hle, hlt⟩ := fiscalYearOfDay_spec d
  by_cases hmidnight : u % 86400000 = 0
  · rw [hbefore hmidnight]
    by_cases hfirst : d = firstApril (fiscalYearOfDay d)
    · have hyear : fiscalYearOfDay (d - 1) = fiscalYearOfDay d - 1 := by
        have hless := firstApril_mono (sub_one_lt (fiscalYearOfDay d))
        refine fiscalYearOfDay_eq (by omega) ?_
        rw [sub_add_cancel]
        omega
      have hne := codeOfYear_succ_ne (fiscalYearOfDay d - 1)
      rw [sub_add_cancel] at hne
      rw [hyear]
      exact ⟨fun _ => ⟨hmidnight, hfirst⟩, fun _ => hne⟩
    · have hyear : fiscalYearOfDay (d - 1) = fiscalYearOfDay d :=
        fiscalYearOfDay_eq (by omega) (by omega)
      rw [hyear]
      exact ⟨fun h => absurd rfl h, fun h => absurd h.2 hfirst⟩
  · rw [hsame hmidnight]
    exact ⟨fun h => absurd rfl h, fun h => absurd h.1 hmidnight⟩

/-- Midnight of a 1 April in India. -/
def StartsFiscalYear (t : Time) : Prop :=
  (t + istOffsetMs) % 86400000 = 0 ∧
    (civilOfDay ((t + istOffsetMs) / 86400000)).month = 3 ∧
    (civilOfDay ((t + istOffsetMs) / 86400000)).date = 0

/-- The year code is another one than a millisecond before at midnight of every 1 April in India, and
at no other time. -/
theorem fiscalYearCode_ne_iff (t : Time) :
    fiscalYearCode t ≠ fiscalYearCode (t - 1) ↔ StartsFiscalYear t := by
  have hbefore : t - 1 + istOffsetMs = t + istOffsetMs - 1 := by ring
  rw [fiscalYearCode_eq, fiscalYearCode_eq, hbefore, StartsFiscalYear, isFirstApril_iff]
  exact codeOfYear_ne_iff (t + istOffsetMs)

/-! ### Numbers -/

theorem slash_not_isDigit : Char.isDigit '/' = false := by decide

theorem slash_notMem_padStart (w n : ℕ) : '/' ∉ (padStart w (toString n)).toList := by
  intro h
  have hdigit := isDigit_padStart h
  rw [slash_not_isDigit] at hdigit
  cases hdigit

theorem slash_notMem_code (t : Time) : '/' ∉ (fiscalYearCode t).toList := by
  intro h
  rcases codeOfYear_chars _ '/' h with hdigit | hdash
  · rw [slash_not_isDigit] at hdigit
    cases hdigit
  · exact absurd hdash (by decide)

/-- An allotted series is an `E` and digits. -/
theorem series_toList (series : SeriesCode) :
    ∃ index, series.code.toList = 'E' :: (padStart 2 (toString (index : ℕ))).toList := by
  obtain ⟨index, hindex⟩ := series.allotted
  refine ⟨index, ?_⟩
  unfold edgeSeriesCode at hindex
  split at hindex
  · cases hindex
  · rw [← Except.ok.inj hindex, String.toList_append]
    rfl

theorem slash_notMem_series (series : SeriesCode) : '/' ∉ series.code.toList := by
  obtain ⟨index, hseries⟩ := series_toList series
  rw [hseries, List.mem_cons, not_or]
  exact ⟨by decide, slash_notMem_padStart 2 index⟩

theorem formatEdgeBillNumber_eq_ok {series fy : String} {seq : ℕ} {n : String}
    (h : formatEdgeBillNumber series fy seq = .ok n) : n.toList =
      series.toList ++ '/' :: (fy.toList ++ '/' :: (padStart 6 (toString seq)).toList) := by
  unfold formatEdgeBillNumber at h
  dsimp only at h
  split at h
  · cases h
  · rw [← Except.ok.inj h]
    simp only [String.toList_append, List.append_assoc]
    rfl

/-- Three parts without a slash are found again. -/
theorem splitOn_three {a b c : List Char} (ha : '/' ∉ a) (hb : '/' ∉ b) (hc : '/' ∉ c) :
    (a ++ '/' :: (b ++ '/' :: c)).splitOn '/' = [a, b, c] := by
  have hjoin : ['/'].intercalate [a, b, c] = a ++ '/' :: (b ++ '/' :: c) := by
    simp [List.intercalate]
  rw [← hjoin]
  refine List.splitOn_intercalate '/' (fun l hl => ?_) (List.cons_ne_nil _ _)
  simp only [List.mem_cons, List.not_mem_nil, or_false] at hl
  rcases hl with rfl | rfl | rfl
  · exact ha
  · exact hb
  · exact hc

/-- The parts of a number that was formatted, by slashes. -/
theorem splitOn_formatted {series fy : String} {seq : ℕ} {n : String}
    (hseries : '/' ∉ series.toList) (hfy : '/' ∉ fy.toList)
    (h : formatEdgeBillNumber series fy seq = .ok n) :
    n.toList.splitOn '/' = [series.toList, fy.toList, (padStart 6 (toString seq)).toList] := by
  rw [formatEdgeBillNumber_eq_ok h]
  exact splitOn_three hseries hfy (slash_notMem_padStart 6 seq)

/-- The year of a number begins in the year 0 or later: its code is parsed. -/
theorem parse_formatted {series : SeriesCode} {t : Time} {seq : ℕ} {n : String}
    (h : formatEdgeBillNumber series.code (fiscalYearCode t) seq = .ok n)
    (ht : 0 ≤ fiscalYearStart t) :
    parseEdgeBillNumber n = some ⟨series.code, fiscalYearCode t, seq⟩ := by
  obtain ⟨index, hindex⟩ := series.allotted
  have hlength : 6 ≤ (padStart 6 (toString seq)).toList.length := by
    rw [length_padStart]
    exact le_max_left _ _
  have hdigits : (padStart 6 (toString seq)).toList.all Char.isDigit :=
    List.all_eq_true.mpr fun c hc => isDigit_padStart hc
  unfold parseEdgeBillNumber
  rw [splitOn_formatted (slash_notMem_series series) (slash_notMem_code t) h]
  dsimp only
  rw [String.ofList_toList, String.ofList_toList, ofDigitChars_padStart,
    if_pos ⟨isEdgeSeries_edgeSeriesCode hindex, isFiscalYear_fiscalYearCode ht, hlength, hdigits⟩]

/-- Different series, codes or sequences make different numbers. -/
theorem format_injective {series series' : SeriesCode} {t t' : Time} {seq seq' : ℕ} {n : String}
    (h : formatEdgeBillNumber series.code (fiscalYearCode t) seq = .ok n)
    (h' : formatEdgeBillNumber series'.code (fiscalYearCode t') seq' = .ok n) :
    series = series' ∧ fiscalYearCode t = fiscalYearCode t' ∧ seq = seq' := by
  have hparts := splitOn_formatted (slash_notMem_series series) (slash_notMem_code t) h
  rw [splitOn_formatted (slash_notMem_series series') (slash_notMem_code t') h'] at hparts
  obtain ⟨hseries, hrest⟩ := List.cons.inj hparts
  obtain ⟨hfy, hrest⟩ := List.cons.inj hrest
  obtain ⟨hseq, -⟩ := List.cons.inj hrest
  refine ⟨?_, String.toList_inj.mp hfy.symm, ?_⟩
  · obtain ⟨code, hcode⟩ := series
    obtain ⟨code', hcode'⟩ := series'
    obtain rfl : code' = code := String.toList_inj.mp hseries
    rfl
  · rw [← ofDigitChars_padStart 6 seq, ← hseq, ofDigitChars_padStart]

/-- Numbers are capitals, digits, dashes and slashes. -/
theorem billChars_formatted {series : SeriesCode} {t : Time} {seq : ℕ} {n : String}
    (h : formatEdgeBillNumber series.code (fiscalYearCode t) seq = .ok n) :
    ∀ c ∈ n.toList, isBillChar c := by
  have hdigit : ∀ c : Char, c.isDigit → isBillChar c := fun c hc => decide_eq_true (.inr (.inl hc))
  obtain ⟨index, hseries⟩ := series_toList series
  intro c hc
  rw [formatEdgeBillNumber_eq_ok h, hseries] at hc
  simp only [List.cons_append, List.mem_cons, List.mem_append] at hc
  rcases hc with rfl | hc | rfl | hc | rfl | hc
  · decide
  · exact hdigit c (isDigit_padStart hc)
  · decide
  · rcases codeOfYear_chars _ c hc with hc | rfl
    · exact hdigit c hc
    · decide
  · decide
  · exact hdigit c (isDigit_padStart hc)

theorem allotted_third : edgeSeriesCode 3 = .ok "E03" := by decide +kernel

/-- The third device of an outlet. -/
def thirdSeries : SeriesCode := ⟨"E03", 3, allotted_third⟩

end StelloKitchens
