import Mathlib.Data.List.DropRight
import Mathlib.Data.List.Basic

/-!
# Words

The words of a text are its longest stretches without a blank. Replacing every run of blanks by one
separator and trimming the ends leaves the words with one separator between them.

## Main definitions

* `Words.words` — the words of a text.
* `Words.collapse`, `Words.trim` — runs of blanks replaced by a separator, and the ends trimmed.

## Main results

* `Words.trim_collapse` — what is left are the words, joined.
* `Words.words_intercalate` — the words of joined words.
* `Words.flatten_words` — the words hold everything but the blanks.
-/

namespace Words

variable {α : Type*} (blank : α → Bool) (sep : α)

/-- The words of a text that continues the current one. -/
def wordsFrom (current : List α) : List α → List (List α)
  | [] => if current = [] then [] else [current]
  | c :: text =>
    if blank c then
      if current = [] then wordsFrom [] text else current :: wordsFrom [] text
    else wordsFrom (current ++ [c]) text

/-- The words of a text. -/
def words (text : List α) : List (List α) := wordsFrom blank [] text

/-- Every run of blanks is replaced by a separator; the first run may have begun already. -/
def collapseFrom (inRun : Bool) : List α → List α
  | [] => []
  | c :: text =>
    if blank c then
      if inRun then collapseFrom true text else sep :: collapseFrom true text
    else c :: collapseFrom false text

def collapse (text : List α) : List α := collapseFrom blank sep false text

def trim (text : List α) : List α := (text.dropWhile blank).rdropWhile blank

/-! ### The words of a text -/

variable {blank sep}

/-- A word is not empty and has no blank in it. -/
def IsWord (blank : α → Bool) (word : List α) : Prop := word ≠ [] ∧ ∀ c ∈ word, blank c = false

theorem isWord_of_mem_wordsFrom {text current : List α} (hcurrent : ∀ c ∈ current, blank c = false) :
    ∀ word ∈ wordsFrom blank current text, IsWord blank word := by
  induction text generalizing current with
  | nil =>
    intro word hword
    rw [wordsFrom] at hword
    split at hword
    · exact absurd hword List.not_mem_nil
    · rename_i hne
      exact List.mem_singleton.mp hword ▸ ⟨hne, hcurrent⟩
  | cons c text ih =>
    intro word hword
    have hempty : ∀ d ∈ ([] : List α), blank d = false := fun d hd => absurd hd List.not_mem_nil
    rw [wordsFrom] at hword
    split at hword
    · split at hword
      · exact ih hempty word hword
      · rename_i hne
        obtain rfl | hword := List.mem_cons.mp hword
        · exact ⟨hne, hcurrent⟩
        · exact ih hempty word hword
    · rename_i hc
      refine ih (fun d hd => ?_) word hword
      obtain hd | hd := List.mem_append.mp hd
      · exact hcurrent d hd
      · exact List.mem_singleton.mp hd ▸ Bool.not_eq_true _ ▸ hc

theorem isWord_of_mem_words {text word : List α} (h : word ∈ words blank text) : IsWord blank word :=
  isWord_of_mem_wordsFrom (fun _ hc => absurd hc List.not_mem_nil) word h

theorem flatten_wordsFrom (current text : List α) :
    (wordsFrom blank current text).flatten = current ++ text.filter fun c => !blank c := by
  induction text generalizing current with
  | nil =>
    rw [wordsFrom]
    split
    · rename_i h
      simp [h]
    · simp
  | cons c text ih =>
    rw [wordsFrom]
    by_cases hc : blank c = true
    · rw [if_pos hc, List.filter_cons_of_neg (by simp [hc])]
      split
      · rename_i h
        rw [ih, h]
      · rw [List.flatten_cons, ih, List.nil_append]
    · rw [if_neg hc, ih, List.filter_cons_of_pos (by simpa using hc), List.append_assoc,
        List.singleton_append]

/-- The words hold everything but the blanks. -/
theorem flatten_words (text : List α) :
    (words blank text).flatten = text.filter fun c => !blank c := by
  rw [words, flatten_wordsFrom, List.nil_append]

theorem flatten_flatMap_words (lines : List (List α)) :
    (lines.flatMap (words blank)).flatten = lines.flatten.filter fun c => !blank c := by
  induction lines with
  | nil => rfl
  | cons line lines ih =>
    rw [List.flatMap_cons, List.flatten_append, ih, flatten_words, List.flatten_cons,
      List.filter_append]

/-! ### Joined words -/

theorem wordsFrom_append (current : List α) {word : List α} (h : ∀ c ∈ word, blank c = false)
    (text : List α) : wordsFrom blank current (word ++ text) = wordsFrom blank (current ++ word) text := by
  induction word generalizing current with
  | nil => simp
  | cons c word ih =>
    have hc : ¬blank c = true := by simp [h c List.mem_cons_self]
    rw [List.cons_append, wordsFrom, if_neg hc, ih _ fun d hd => h d (List.mem_cons_of_mem _ hd),
      List.append_assoc, List.singleton_append]

/-- The words of joined words. -/
theorem words_intercalate (hsep : blank sep = true) {ws : List (List α)}
    (h : ∀ word ∈ ws, IsWord blank word) : words blank ([sep].intercalate ws) = ws := by
  induction ws with
  | nil => rfl
  | cons word ws ih =>
    obtain ⟨hne, hword⟩ := h word List.mem_cons_self
    have ih := ih fun w hw => h w (List.mem_cons_of_mem _ hw)
    rw [words] at ih ⊢
    cases ws with
    | nil =>
      have happend := @wordsFrom_append _ blank [] word hword []
      rw [List.append_nil, List.nil_append] at happend
      rw [List.intercalate_singleton, happend, wordsFrom, if_neg hne]
    | cons next ws =>
      rw [List.intercalate_cons_cons, List.append_assoc, wordsFrom_append [] hword, List.nil_append,
        List.singleton_append, wordsFrom, if_pos hsep, if_neg hne, ih]

/-- No word has a separator in it. -/
theorem IsWord.notMem {word : List α} (h : IsWord blank word) (hsep : blank sep = true) :
    sep ∉ word := fun hmem => by
  have := h.2 sep hmem
  rw [hsep] at this
  cases this

/-! ### Collapsing and trimming -/

theorem rdropWhile_append (a b : List α) : (a ++ b).rdropWhile blank =
    if b.rdropWhile blank = [] then a.rdropWhile blank else a ++ b.rdropWhile blank := by
  induction b using List.reverseRecOn with
  | nil => simp
  | append_singleton b x ih =>
    rw [← List.append_assoc]
    by_cases hx : blank x = true
    · rw [List.rdropWhile_concat_pos _ _ _ hx, List.rdropWhile_concat_pos _ _ _ hx, ih]
    · rw [List.rdropWhile_concat_neg _ _ _ hx, List.rdropWhile_concat_neg _ _ _ hx,
        if_neg (by simp), List.append_assoc]

theorem rdropWhile_of_isWord {word : List α} (h : IsWord blank word) :
    word.rdropWhile blank = word := by
  rw [List.rdropWhile_eq_self_iff]
  intro hne
  simp [h.2 _ (List.getLast_mem hne)]

/-- After a run of blanks, and within a word. -/
theorem rdropWhile_collapseFrom (hsep : blank sep = true) (text : List α) :
    (collapseFrom blank sep true text).rdropWhile blank =
        [sep].intercalate (wordsFrom blank [] text) ∧
      ∀ current, IsWord blank current →
        (current ++ collapseFrom blank sep false text).rdropWhile blank =
          [sep].intercalate (wordsFrom blank current text) := by
  induction text with
  | nil =>
    refine ⟨rfl, fun current hcurrent => ?_⟩
    rw [collapseFrom, List.append_nil, wordsFrom, if_neg hcurrent.1, List.intercalate_singleton,
      rdropWhile_of_isWord hcurrent]
  | cons c text ih =>
    obtain ⟨hrun, hword⟩ := ih
    by_cases hc : blank c = true
    · refine ⟨?_, fun current hcurrent => ?_⟩
      · rw [collapseFrom, if_pos hc, if_pos rfl, wordsFrom, if_pos hc, if_pos rfl, hrun]
      · rw [collapseFrom, if_pos hc, if_neg (by simp), wordsFrom, if_pos hc, if_neg hcurrent.1,
          List.append_cons, rdropWhile_append, hrun]
        cases hws : wordsFrom blank [] text with
        | nil =>
          rw [List.intercalate_nil, if_pos rfl, List.rdropWhile_concat_pos _ _ _ hsep,
            rdropWhile_of_isWord hcurrent, List.intercalate_singleton]
        | cons word ws =>
          have hne : [sep].intercalate (word :: ws) ≠ [] := by
            have hmem : word ∈ words blank text := by
              rw [words, hws]
              exact List.mem_cons_self
            have h := isWord_of_mem_words hmem
            cases ws with
            | nil => simpa [List.intercalate_singleton] using h.1
            | cons next ws => simp [List.intercalate_cons_cons]
          rw [if_neg hne, List.intercalate_cons_cons]
    · have hnot : blank c = false := by simpa using hc
      refine ⟨?_, fun current hcurrent => ?_⟩
      · rw [collapseFrom, if_neg hc, wordsFrom, if_neg hc]
        exact hword [c] ⟨List.cons_ne_nil _ _, by simpa using hnot⟩
      · rw [collapseFrom, if_neg hc, wordsFrom, if_neg hc, List.append_cons]
        refine hword (current ++ [c]) ⟨by simp, fun d hd => ?_⟩
        obtain hd | hd := List.mem_append.mp hd
        · exact hcurrent.2 d hd
        · exact List.mem_singleton.mp hd ▸ hnot

theorem dropWhile_collapseFrom (text : List α) :
    (collapseFrom blank sep true text).dropWhile blank = collapseFrom blank sep true text := by
  induction text with
  | nil => rfl
  | cons c text ih =>
    by_cases hc : blank c = true
    · rw [collapseFrom, if_pos hc, if_pos rfl, ih]
    · rw [collapseFrom, if_neg hc, List.dropWhile_cons_of_neg hc]

/-- What is left of a text are its words, joined. -/
theorem trim_collapse (hsep : blank sep = true) (text : List α) :
    trim blank (collapse blank sep text) = [sep].intercalate (words blank text) := by
  rw [trim, collapse, words]
  cases text with
  | nil => rfl
  | cons c text =>
    obtain ⟨hrun, hword⟩ := rdropWhile_collapseFrom hsep text
    by_cases hc : blank c = true
    · rw [collapseFrom, if_pos hc, if_neg (by simp), List.dropWhile_cons_of_pos hsep,
        dropWhile_collapseFrom, hrun, wordsFrom, if_pos hc, if_pos rfl]
    · rw [collapseFrom, if_neg hc, List.dropWhile_cons_of_neg hc, wordsFrom, if_neg hc]
      exact hword [c] ⟨List.cons_ne_nil _ _, by simpa using hc⟩

end Words
