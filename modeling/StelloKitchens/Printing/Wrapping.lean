import Mathlib.Algebra.Order.BigOperators.Group.List
import Mathlib.Data.List.MinMax
import Mathlib.Tactic.Ring
import StelloKitchens.Printing.Layout

/-!
# Receipt text is kept

A line of a wrapped text is a few of its words, joined; a word is broken only when it is longer than a
line, into full lines and a rest. In a row of cells every line of a cell keeps its place: what is
trimmed at the end of the row are spaces only, since no line of a cell ends in a blank.

## Main definitions

* `pieces` — a word in pieces that fit on a line.
* `Laid` — the lines so far are these words, joined.
* `startOf` — the column in which a cell begins.

## Main results

* `wrap_spec` — the lines of a text, word by word.
* `receipt_text_kept` — wrapping and columns lose nothing.
-/

namespace StelloKitchens.Printing

open Words

/-- Words on one line. -/
abbrev join (ws : List Text) : Text := [space].intercalate ws

/-! ### Pieces -/

/-- A word in pieces that fit on a line. -/
def pieces (width : ℕ) (w : Text) : List Text :=
  if 0 < width ∧ width < w.length then w.take width :: pieces width (w.drop width) else [w]
termination_by w.length

theorem pieces_of_le {width : ℕ} {w : Text} (h : w.length ≤ width) : pieces width w = [w] := by
  rw [pieces, if_neg (by omega)]

theorem flatten_pieces (width : ℕ) (w : Text) : (pieces width w).flatten = w := by
  induction w using pieces.induct width with
  | case1 w h ih => rw [pieces, if_pos h, List.flatten_cons, ih, List.take_append_drop]
  | case2 w h => rw [pieces, if_neg h, List.flatten_singleton]

theorem flatten_flatMap_pieces (width : ℕ) (ws : List Text) :
    (ws.flatMap (pieces width)).flatten = ws.flatten := by
  induction ws with
  | nil => rfl
  | cons w ws ih =>
    rw [List.flatMap_cons, List.flatten_append, ih, flatten_pieces, List.flatten_cons]

/-! ### Joined words -/

theorem isBlankUnit_space : isBlankUnit space = true := by decide

theorem rdropWhile_join {ws : List Text} (h : ∀ w ∈ ws, IsWord isBlankUnit w) :
    (join ws).rdropWhile isBlankUnit = join ws := by
  induction ws with
  | nil => rfl
  | cons w ws ih =>
    have hw := h w List.mem_cons_self
    have hws := fun v hv => h v (List.mem_cons_of_mem _ hv)
    cases ws with
    | nil => rw [join, List.intercalate_singleton, rdropWhile_of_isWord hw]
    | cons v ws =>
      have hne : join (v :: ws) ≠ [] := by
        have hv := (hws v List.mem_cons_self).1
        cases ws with
        | nil => simpa [join, List.intercalate_singleton] using hv
        | cons u ws => simp [join, List.intercalate_cons_cons]
      rw [join, List.intercalate_cons_cons, rdropWhile_append, ← join, ih hws, if_neg hne]

theorem join_ne_nil {ws : List Text} (h : ∀ w ∈ ws, IsWord isBlankUnit w) (hne : ws ≠ []) :
    join ws ≠ [] := by
  intro hjoin
  have hwords := words_intercalate isBlankUnit_space h
  rw [← join, hjoin] at hwords
  exact hne hwords.symm

theorem join_append_singleton {ws : List Text} (hne : ws ≠ []) (w : Text) :
    join (ws ++ [w]) = join ws ++ space :: w := by
  induction ws with
  | nil => exact absurd rfl hne
  | cons v ws ih =>
    cases ws with
    | nil => simp [join, List.intercalate_cons_cons, List.intercalate_singleton]
    | cons u ws =>
      have hrest := ih (List.cons_ne_nil u ws)
      rw [List.cons_append] at hrest
      rw [List.cons_append, List.cons_append, join, List.intercalate_cons_cons, ← join, hrest, join,
        join, List.intercalate_cons_cons, List.append_assoc (v ++ [space])]

/-! ### Lines -/

/-- The complete lines are groups of words, joined, and so is the current one. -/
structure Laid (width : ℕ) (lines : List Text) (current : Text) (groups : List (List Text))
    (group : List Text) : Prop where
  lines_eq : lines = groups.map join
  current_eq : current = join group
  isWord : ∀ g ∈ groups, ∀ w ∈ g, IsWord isBlankUnit w
  isWord_current : ∀ w ∈ group, IsWord isBlankUnit w
  fits : ∀ line ∈ lines, line.length ≤ width
  fits_current : current.length ≤ width

namespace Laid

variable {width : ℕ} {lines : List Text} {current : Text} {groups : List (List Text)}
  {group : List Text}

theorem current_eq_nil_iff (h : Laid width lines current groups group) :
    current = [] ↔ group = [] := by
  refine ⟨fun hnil => ?_, fun hnil => by rw [h.current_eq, hnil]; rfl⟩
  by_contra hne
  exact join_ne_nil h.isWord_current hne (h.current_eq ▸ hnil)

/-- The current line is complete. -/
theorem flush (h : Laid width lines current groups group) :
    ∃ groups', Laid width (if current = [] then lines else lines ++ [current]) [] groups' [] ∧
      groups'.flatten = groups.flatten ++ group := by
  by_cases hnil : current = []
  · have hgroup := h.current_eq_nil_iff.mp hnil
    subst hgroup
    refine ⟨groups, ?_, by simp⟩
    rw [if_pos hnil]
    exact ⟨h.lines_eq, rfl, h.isWord, h.isWord_current, h.fits, Nat.zero_le _⟩
  · refine ⟨groups ++ [group], ?_, by simp⟩
    rw [if_neg hnil]
    refine ⟨?_, rfl, ?_, by simp, ?_, Nat.zero_le _⟩
    · rw [h.lines_eq, h.current_eq, List.map_append, List.map_singleton]
    · intro g hg
      obtain hg | hg := List.mem_append.mp hg
      · exact h.isWord g hg
      · exact List.mem_singleton.mp hg ▸ h.isWord_current
    · intro line hline
      obtain hline | hline := List.mem_append.mp hline
      · exact h.fits line hline
      · exact List.mem_singleton.mp hline ▸ h.fits_current

/-- A line with one piece on it. -/
theorem push (h : Laid width lines [] groups []) {piece : Text} (hpiece : IsWord isBlankUnit piece)
    (hfits : piece.length ≤ width) :
    Laid width (lines ++ [piece]) [] (groups ++ [[piece]]) [] := by
  refine ⟨?_, rfl, ?_, by simp, ?_, Nat.zero_le _⟩
  · rw [h.lines_eq, List.map_append, List.map_singleton, join, List.intercalate_singleton]
  · intro g hg
    obtain hg | hg := List.mem_append.mp hg
    · exact h.isWord g hg
    · rw [List.mem_singleton.mp hg]
      exact fun w hw => List.mem_singleton.mp hw ▸ hpiece
  · intro line hline
    obtain hline | hline := List.mem_append.mp hline
    · exact h.fits line hline
    · exact List.mem_singleton.mp hline ▸ hfits

end Laid

theorem isWord_take {w : Text} (h : IsWord isBlankUnit w) {n : ℕ} (hn : 0 < n) :
    IsWord isBlankUnit (w.take n) :=
  ⟨by simpa [hn.ne'] using h.1, fun c hc => h.2 c (List.mem_of_mem_take hc)⟩

theorem isWord_drop {w : Text} (h : IsWord isBlankUnit w) {n : ℕ} (hn : n < w.length) :
    IsWord isBlankUnit (w.drop n) :=
  ⟨by simpa using hn, fun c hc => h.2 c (List.mem_of_mem_drop hc)⟩

/-- Breaking a word leaves its last piece to be placed. -/
theorem laid_breakWord {width : ℕ} (hwidth : 0 < width) (w : Text) (hw : IsWord isBlankUnit w)
    {lines : List Text} {current : Text} {groups : List (List Text)} {group : List Text}
    (h : Laid width lines current groups group) :
    ∃ groups' group', Laid width (breakWord width lines current w).1
        (breakWord width lines current w).2.1 groups' group' ∧
      IsWord isBlankUnit (breakWord width lines current w).2.2 ∧
      (breakWord width lines current w).2.2.length ≤ width ∧
      groups'.flatten ++ group' ++ [(breakWord width lines current w).2.2] =
        groups.flatten ++ group ++ pieces width w := by
  induction w using pieces.induct width generalizing lines current groups group with
  | case1 w hlong ih =>
    obtain ⟨groups₁, hflush, hflatten⟩ := h.flush
    have hpush := hflush.push (isWord_take hw hwidth) (List.length_take_le width w)
    obtain ⟨groups', group', hlaid, hrest, hfits, heq⟩ := ih (isWord_drop hw hlong.2) hpush
    rw [breakWord, if_pos hlong]
    refine ⟨groups', group', hlaid, hrest, hfits, heq.trans ?_⟩
    rw [pieces.eq_def width w, if_pos hlong, List.flatten_append, hflatten]
    simp
  | case2 w hshort =>
    rw [breakWord, if_neg hshort, pieces, if_neg hshort]
    exact ⟨groups, group, h, hw, by show w.length ≤ width; omega, rfl⟩

/-- The next word. -/
theorem laid_placeWord {width : ℕ} (hwidth : 0 < width) {state : List Text × Text} {w : Text}
    (hw : IsWord isBlankUnit w) {groups : List (List Text)} {group : List Text}
    (h : Laid width state.1 state.2 groups group) :
    ∃ groups' group', Laid width (placeWord width state w).1 (placeWord width state w).2 groups'
        group' ∧ groups'.flatten ++ group' = groups.flatten ++ group ++ pieces width w := by
  obtain ⟨groups₁, group₁, h₁, hrest, hfits, heq⟩ := laid_breakWord hwidth w hw h
  unfold placeWord
  generalize breakWord width state.1 state.2 w = broken at h₁ hrest hfits heq
  obtain ⟨lines, current, rest⟩ := broken
  dsimp only at h₁ hrest hfits heq ⊢
  have hself : rest = join [rest] := by rw [join, List.intercalate_singleton]
  have honly : ∀ w ∈ [rest], IsWord isBlankUnit w := fun w hw => List.mem_singleton.mp hw ▸ hrest
  rw [if_neg hrest.1]
  split
  · rename_i hnil
    obtain rfl := h₁.current_eq_nil_iff.mp hnil
    exact ⟨groups₁, [rest], ⟨h₁.lines_eq, hself, h₁.isWord, honly, h₁.fits, hfits⟩, by
      simpa using heq⟩
  · rename_i hbegun
    have hgroup : group₁ ≠ [] := fun hnil => hbegun (h₁.current_eq_nil_iff.mpr hnil)
    split
    · rename_i hroom
      refine ⟨groups₁, group₁ ++ [rest], ⟨h₁.lines_eq, ?_, h₁.isWord, ?_, h₁.fits, ?_⟩, ?_⟩
      · rw [join_append_singleton hgroup, ← h₁.current_eq]
      · intro w hw
        obtain hw | hw := List.mem_append.mp hw
        · exact h₁.isWord_current w hw
        · exact honly w hw
      · rw [List.length_append, List.length_cons]
        omega
      · rw [← heq, List.append_assoc]
    · obtain ⟨groups₂, h₂, hflatten⟩ := h₁.flush
      rw [if_neg hbegun] at h₂
      refine ⟨groups₂, [rest], ⟨h₂.lines_eq, hself, h₂.isWord, honly, h₂.fits, hfits⟩, ?_⟩
      rw [hflatten, heq]

theorem laid_foldl {width : ℕ} (hwidth : 0 < width) (ws : List Text)
    (hws : ∀ w ∈ ws, IsWord isBlankUnit w) {state : List Text × Text} {groups : List (List Text)}
    {group : List Text} (h : Laid width state.1 state.2 groups group) :
    ∃ groups' group', Laid width (ws.foldl (placeWord width) state).1
        (ws.foldl (placeWord width) state).2 groups' group' ∧
      groups'.flatten ++ group' = groups.flatten ++ group ++ ws.flatMap (pieces width) := by
  induction ws generalizing state groups group with
  | nil => exact ⟨groups, group, h, by simp⟩
  | cons w ws ih =>
    obtain ⟨groups₁, group₁, h₁, heq₁⟩ := laid_placeWord hwidth (hws w List.mem_cons_self) h
    obtain ⟨groups₂, group₂, h₂, heq₂⟩ := ih (fun v hv => hws v (List.mem_cons_of_mem _ hv)) h₁
    refine ⟨groups₂, group₂, h₂, ?_⟩
    rw [heq₂, heq₁, List.flatMap_cons, List.append_assoc]

/-- The lines of a text are the pieces of its words, in order, joined. -/
theorem wrap_spec {width : ℕ} (hwidth : 0 < width) (text : Text) :
    ∃ groups : List (List Text), wrap text width = groups.map join ∧
      (∀ g ∈ groups, ∀ w ∈ g, IsWord isBlankUnit w) ∧
      groups.flatten = (words isBlankUnit (normalizeReceiptText text)).flatMap (pieces width) ∧
      ∀ line ∈ wrap text width, line.length ≤ width := by
  have hclean := trim_collapse isBlankUnit_space (normalizeReceiptText text)
  have hwords : ∀ w ∈ words isBlankUnit (normalizeReceiptText text), IsWord isBlankUnit w :=
    fun w hw => isWord_of_mem_words hw
  rw [← cleanText] at hclean
  rw [wrap, if_neg hwidth.ne']
  by_cases hnil : words isBlankUnit (normalizeReceiptText text) = []
  · rw [hnil, List.intercalate_nil] at hclean
    rw [if_pos hclean, hnil]
    exact ⟨[[]], rfl, by simp, by simp, by simp⟩
  · have hne : cleanText text ≠ [] := hclean ▸ join_ne_nil hwords hnil
    have hsplit : (cleanText text).splitOn space = words isBlankUnit (normalizeReceiptText text) := by
      rw [hclean]
      exact List.splitOn_intercalate _ (fun w hw => (hwords w hw).notMem isBlankUnit_space) hnil
    rw [if_neg hne, hsplit]
    have hstart : Laid width ([] : List Text) [] [] [] :=
      ⟨rfl, rfl, by simp, by simp, by simp, Nat.zero_le _⟩
    obtain ⟨groups, group, hlaid, hflatten⟩ := @laid_foldl width hwidth _ hwords ([], []) _ _ hstart
    obtain ⟨groups', hfinish, hflatten'⟩ := hlaid.flush
    refine ⟨groups', hfinish.lines_eq, hfinish.isWord, ?_, hfinish.fits⟩
    rw [hflatten', hflatten]
    simp

/-! ### Columns -/

/-- What a cell has on a line of its row. -/
def Column.lineOn (c : Column) (row : ℕ) : Text := (wrap c.text c.width)[row]?.getD []

/-- The column in which a cell begins. -/
def startOf (cells : List Column) (gap i : ℕ) : ℕ := ((cells.take i).map fun c => c.width + gap).sum

/-- A line of a cell fits, and does not end in a blank. -/
theorem Column.lineOn_spec (c : Column) (row : ℕ) : (c.lineOn row).length ≤ c.width ∧
    (c.lineOn row).rdropWhile isBlankUnit = c.lineOn row := by
  by_cases hwidth : c.width = 0
  · have hnil : c.lineOn row = [] := by
      rw [lineOn, wrap, if_pos hwidth]
      rfl
    rw [hnil]
    exact ⟨Nat.zero_le _, rfl⟩
  · obtain ⟨groups, hwrap, hwords, -, hfits⟩ := wrap_spec (Nat.pos_of_ne_zero hwidth) c.text
    rw [lineOn]
    cases hline : (wrap c.text c.width)[row]? with
    | none => exact ⟨Nat.zero_le _, rfl⟩
    | some line =>
      have hmem := List.mem_of_getElem? hline
      refine ⟨hfits line hmem, ?_⟩
      rw [hwrap] at hmem
      obtain ⟨group, hgroup, rfl⟩ := List.mem_map.mp hmem
      exact rdropWhile_join (hwords group hgroup)

/-- A text that fits is padded on both sides. -/
theorem pad_eq {t : Text} {width : ℕ} (h : t.length ≤ width) (align : Align) :
    pad t width align = spaces (leftGap (width - t.length) align) ++ t ++
      spaces (width - t.length - leftGap (width - t.length) align) := by
  rw [pad, if_neg (by omega)]

theorem leftGap_le (gap : ℕ) (align : Align) : leftGap gap align ≤ gap := by
  cases align with
  | left => exact Nat.zero_le _
  | right => exact le_rfl
  | center => exact Nat.div_le_self gap 2

theorem length_pad (c : Column) (row : ℕ) : (pad (c.lineOn row) c.width c.align).length = c.width := by
  have hfits := (c.lineOn_spec row).1
  have hgap := leftGap_le (c.width - (c.lineOn row).length) c.align
  rw [pad_eq hfits]
  simp only [List.length_append, spaces, List.length_replicate]
  omega

/-- A row of cells that are as wide as they should be. -/
theorem length_intercalate (gap : ℕ) {cells : List Column} {parts : List Text}
    (h : List.Forall₂ (fun part c => part.length = c.width) parts cells) :
    ((spaces gap).intercalate parts).length =
      (cells.map (·.width)).sum + gap * (cells.length - 1) := by
  induction h with
  | nil => simp
  | @cons part c parts cells hpart hparts ih =>
    cases hparts with
    | nil => simpa [List.intercalate_singleton] using hpart
    | @cons next d parts cells hnext hparts =>
      rw [List.intercalate_cons_cons, List.length_append, List.length_append, ih, hpart]
      simp only [spaces, List.length_replicate, List.map_cons, List.sum_cons, List.length_cons,
        Nat.add_sub_cancel]
      ring

/-- What stands before a cell in its row. -/
theorem intercalate_eq_append (gap : ℕ) {cells : List Column} {parts : List Text}
    (h : List.Forall₂ (fun part c => part.length = c.width) parts cells) {i : ℕ}
    (hi : i < parts.length) : ∃ before after : Text, before.length = startOf cells gap i ∧
      (spaces gap).intercalate parts = before ++ parts[i] ++ after := by
  induction h generalizing i with
  | nil => exact absurd hi (Nat.not_lt_zero i)
  | @cons part c parts cells hpart hparts ih =>
    cases i with
    | zero =>
      cases parts with
      | nil => exact ⟨[], [], rfl, by simp [List.intercalate_singleton]⟩
      | cons next parts =>
        refine ⟨[], spaces gap ++ (spaces gap).intercalate (next :: parts), rfl, ?_⟩
        rw [List.intercalate_cons_cons, List.getElem_cons_zero, List.nil_append, List.append_assoc]
    | succ i =>
      obtain ⟨before, after, hbefore, heq⟩ := ih (Nat.lt_of_succ_lt_succ hi)
      refine ⟨part ++ spaces gap ++ before, after, ?_, ?_⟩
      · simp only [startOf, spaces, List.length_append, List.length_replicate, List.take_succ_cons,
          List.map_cons, List.sum_cons, hpart] at hbefore ⊢
        omega
      · cases parts with
        | nil => exact absurd hi (by simp)
        | cons next parts =>
          rw [List.intercalate_cons_cons, heq, List.getElem_cons_succ]
          simp only [List.append_assoc]

theorem forall₂_pad (cells : List Column) (row : ℕ) :
    List.Forall₂ (fun (part : Text) c => part.length = c.width)
      (cells.map fun c => pad (c.lineOn row) c.width c.align) cells := by
  rw [List.forall₂_map_left_iff, List.forall₂_same]
  exact fun c _ => length_pad c row

/-- A line of a row is no wider than the cells and what is between them. -/
theorem length_columnsLine_le (cells : List Column) (gap row : ℕ) :
    (columnsLine cells gap row).length ≤ (cells.map (·.width)).sum + gap * (cells.length - 1) := by
  rw [← length_intercalate gap (forall₂_pad cells row)]
  exact (List.rdropWhile_prefix _ _).length_le

/-- What a cell has on a line stands in its place. -/
theorem take_columnsLine (cells : List Column) (gap row : ℕ) {i : ℕ} (hi : i < cells.length) :
    ((columnsLine cells gap row).drop (startOf cells gap i +
        leftGap (cells[i].width - (cells[i].lineOn row).length) cells[i].align)).take
      (cells[i].lineOn row).length = cells[i].lineOn row := by
  obtain ⟨before, after, hbefore, heq⟩ :=
    intercalate_eq_append gap (forall₂_pad cells row) (i := i) (by simpa using hi)
  obtain ⟨hfits, htrim⟩ := cells[i].lineOn_spec row
  rw [List.getElem_map, pad_eq hfits] at heq
  set t := cells[i].lineOn row with ht
  set left := leftGap (cells[i].width - t.length) cells[i].align
  set rest := spaces (cells[i].width - t.length - left) ++ after with hrest
  by_cases hnil : t = []
  · rw [hnil]
    rfl
  have hline : columnsLine cells gap row = (before ++ spaces left) ++ (t ++
      if rest.rdropWhile isBlankUnit = [] then [] else rest.rdropWhile isBlankUnit) := by
    have hrow : columnsLine cells gap row =
        ((spaces gap).intercalate
          (cells.map fun c => pad (c.lineOn row) c.width c.align)).rdropWhile isBlankUnit := rfl
    have hjoin : before ++ (spaces left ++ t ++ spaces (cells[i].width - t.length - left)) ++ after =
        (before ++ spaces left) ++ (t ++ rest) := by
      simp only [hrest, List.append_assoc]
    have hkept : (t ++ rest).rdropWhile isBlankUnit =
        t ++ if rest.rdropWhile isBlankUnit = [] then [] else rest.rdropWhile isBlankUnit := by
      rw [rdropWhile_append, htrim]
      split
      · rw [List.append_nil]
      · rfl
    rw [hrow, heq, hjoin, rdropWhile_append, hkept, if_neg (by simp [hnil])]
  have hstart : startOf cells gap i + left = (before ++ spaces left).length := by
    rw [List.length_append, hbefore, spaces, List.length_replicate]
  rw [hline, hstart, List.drop_left, List.take_left]

/-- The tallest cell has its last line on the row. -/
theorem getElem?_columns {cells : List Column} {gap i row : ℕ} (hi : i < cells.length)
    (hrow : row < (wrap cells[i].text cells[i].width).length) :
    (columns cells gap)[row]? = some (columnsLine cells gap row) := by
  have hle : (wrap cells[i].text cells[i].width).length ≤
      (cells.map fun c => (wrap c.text c.width).length).foldr max 0 := by
    exact List.le_max_of_le' 0 (List.mem_map_of_mem (List.getElem_mem hi)) le_rfl
  rw [columns, List.getElem?_map, List.getElem?_range (by omega)]
  rfl

/-! ### Nothing is lost -/

/-- The lines of a wrapped text are within the width, hold the characters of the normalised text other
than blanks, in order, and its words, broken only when they are longer than a line; the lines of a row
are within the widths and gaps, and every line of a cell stands unchanged in the cell's columns. -/
theorem receipt_text_kept (text : Text) {width : ℕ} (hwidth : 1 ≤ width) (cells : List Column)
    (gap : ℕ) :
    ((∀ line ∈ wrap text width, line.length ≤ width) ∧
      ((wrap text width).flatten.filter fun c => !isBlankUnit c) =
        (normalizeReceiptText text).filter (fun c => !isBlankUnit c) ∧
      (wrap text width).flatMap (words isBlankUnit) =
        (words isBlankUnit (normalizeReceiptText text)).flatMap (pieces width) ∧
      ∀ w : Text, w.length ≤ width → pieces width w = [w]) ∧
    (∀ line ∈ columns cells gap,
      line.length ≤ (cells.map (·.width)).sum + gap * (cells.length - 1)) ∧
    ∀ i (hi : i < cells.length) (row : ℕ) (t : Text), (wrap cells[i].text cells[i].width)[row]? = some t →
      ∃ line : Text, (columns cells gap)[row]? = some line ∧
        (line.drop (startOf cells gap i + leftGap (cells[i].width - t.length) cells[i].align)).take
          t.length = t := by
  obtain ⟨groups, hwrap, hwords, hflatten, hfits⟩ := wrap_spec hwidth text
  have hlines : (wrap text width).flatMap (words isBlankUnit) = groups.flatten := by
    rw [hwrap, List.flatMap_map, ← List.flatMap_id]
    refine List.flatMap_congr fun g hg => ?_
    exact words_intercalate isBlankUnit_space (hwords g hg)
  refine ⟨⟨hfits, ?_, hlines.trans hflatten, fun w hw => pieces_of_le hw⟩, fun line hline => ?_,
    fun i hi row t ht => ?_⟩
  · have hall := congrArg List.flatten hflatten
    rwa [← hlines, flatten_flatMap_words, flatten_flatMap_pieces, flatten_words] at hall
  · obtain ⟨row, -, rfl⟩ := List.mem_map.mp hline
    exact length_columnsLine_le cells gap row
  · have hlineOn : cells[i].lineOn row = t := by rw [Column.lineOn, ht, Option.getD_some]
    refine ⟨_, getElem?_columns hi (List.getElem?_eq_some_iff.mp ht).1, ?_⟩
    rw [← hlineOn]
    exact take_columnsLine cells gap row hi

/-- A word of twelve letters on lines of five. -/
theorem receipt_text_kept_long :
    (wrap (Text.of "abcdefghijkl mn") 5).flatMap (words isBlankUnit) =
      (words isBlankUnit (normalizeReceiptText (Text.of "abcdefghijkl mn"))).flatMap (pieces 5) :=
  (receipt_text_kept (Text.of "abcdefghijkl mn") (by decide) [] 1).1.2.2.1

end StelloKitchens.Printing
