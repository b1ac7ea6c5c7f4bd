import Mathlib.Data.List.Basic
import Mathlib.Tactic.Cases

/-!
# The commands of receipt printers

A printer gets a stream of bytes: characters of the code page that is selected, line feeds, and
commands, which begin with `ESC` or `GS`. Most commands set one value; barcodes and symbols bring
data of a length that they say.

## Main definitions

* `Command`, `Command.bytes` — the commands, and how they are sent.
* `parse` — the commands of a stream.
* `Printer`, `Shown` — the settings of a printer, and what it does.
* `run` — what a printer does with commands.

## Main results

* `parse_flatMap_bytes` — a stream is read as it was sent.
* `run_typed` — the lines of a text.
-/

namespace EscPos

abbrev ESC : UInt8 := 0x1B

abbrev GS : UInt8 := 0x1D

abbrev LF : UInt8 := 0x0A

/-- What is printed: neither a control character nor the one of `DEL`. -/
def IsPrintable (b : UInt8) : Prop := 0x20 ≤ b ∧ b ≠ 0x7F

instance (b : UInt8) : Decidable (IsPrintable b) := inferInstanceAs (Decidable (_ ∧ _))

/-! ### Commands -/

/-- What a command with one parameter sets or does. -/
inductive Setting
  | codeTable | emphasis | underline | justification | font | feed
  | size | reverse | barPosition | barHeight | barWidth | cut
  deriving DecidableEq

namespace Setting

/-- The two bytes that the command begins with. -/
def code : Setting → UInt8 × UInt8
  | .codeTable => (ESC, 0x74)
  | .emphasis => (ESC, 0x45)
  | .underline => (ESC, 0x2D)
  | .justification => (ESC, 0x61)
  | .font => (ESC, 0x4D)
  | .feed => (ESC, 0x64)
  | .size => (GS, 0x21)
  | .reverse => (GS, 0x42)
  | .barPosition => (GS, 0x48)
  | .barHeight => (GS, 0x68)
  | .barWidth => (GS, 0x77)
  | .cut => (GS, 0x56)

def all : List Setting :=
  [.codeTable, .emphasis, .underline, .justification, .font, .feed, .size, .reverse, .barPosition,
    .barHeight, .barWidth, .cut]

/-- The parameter is one that the command has no further parameters with. -/
def Allows (s : Setting) (n : UInt8) : Prop := s = .cut → n ∈ [0, 1, 48, 49]

instance (s : Setting) (n : UInt8) : Decidable (s.Allows n) := inferInstanceAs (Decidable (_ → _))

end Setting

inductive Command
  | reset
  | set (s : Setting) (n : UInt8)
  /-- A pulse on a pin of the drawer's connector. -/
  | pulse (pin on off : UInt8)
  /-- A barcode of a system, with its data. -/
  | barcode (system : UInt8) (data : List UInt8)
  /-- A function of the two-dimensional symbols. -/
  | symbol (cn fn : UInt8) (data : List UInt8)
  | print (b : UInt8)
  | lineFeed
  deriving DecidableEq

namespace Command

def bytes : Command → List UInt8
  | .reset => [ESC, 0x40]
  | .set s n => [s.code.1, s.code.2, n]
  | .pulse pin on off => [ESC, 0x70, pin, on, off]
  | .barcode system data => GS :: 0x6B :: system :: UInt8.ofNat data.length :: data
  | .symbol cn fn data => GS :: 0x28 :: 0x6B :: UInt8.ofNat ((data.length + 2) % 256) ::
      UInt8.ofNat ((data.length + 2) / 256) :: cn :: fn :: data
  | .print b => [b]
  | .lineFeed => [LF]

/-- The data are no longer than can be said, and the other parameters are of the command. -/
def WellFormed : Command → Prop
  | .set s n => s.Allows n
  | .barcode system data => 65 ≤ system ∧ data.length < 256
  | .symbol _ _ data => data.length + 2 < 65536
  | .print b => IsPrintable b
  | _ => True

end Command

/-! ### Parsing -/

/-- The command at the beginning of a stream, and what follows. -/
def next : List UInt8 → Option (Command × List UInt8)
  | [] => none
  | b :: rest =>
    if b = LF then some (.lineFeed, rest)
    else if IsPrintable b then some (.print b, rest)
    else match rest with
      | [] => none
      | c :: rest =>
        if b = ESC ∧ c = 0x40 then some (.reset, rest)
        else if b = ESC ∧ c = 0x70 then
          match rest with
          | pin :: on :: off :: rest => some (.pulse pin on off, rest)
          | _ => none
        else if b = GS ∧ c = 0x6B then
          match rest with
          | system :: n :: rest =>
            if 65 ≤ system ∧ n.toNat ≤ rest.length then
              some (.barcode system (rest.take n.toNat), rest.drop n.toNat)
            else none
          | _ => none
        else if b = GS ∧ c = 0x28 then
          match rest with
          | 0x6B :: low :: high :: cn :: fn :: rest =>
            if 2 ≤ low.toNat + 256 * high.toNat ∧
                low.toNat + 256 * high.toNat - 2 ≤ rest.length then
              some (.symbol cn fn (rest.take (low.toNat + 256 * high.toNat - 2)),
                rest.drop (low.toNat + 256 * high.toNat - 2))
            else none
          | _ => none
        else
          match Setting.all.find? (·.code = (b, c)), rest with
          | some s, n :: rest => if s.Allows n then some (.set s n, rest) else none
          | _, _ => none

theorem next_barcode (system n : UInt8) (rest : List UInt8) :
    next (GS :: 0x6B :: system :: n :: rest) = if 65 ≤ system ∧ n.toNat ≤ rest.length then
      some (.barcode system (rest.take n.toNat), rest.drop n.toNat) else none := rfl

theorem next_symbol (low high cn fn : UInt8) (rest : List UInt8) :
    next (GS :: 0x28 :: 0x6B :: low :: high :: cn :: fn :: rest) =
      if 2 ≤ low.toNat + 256 * high.toNat ∧ low.toNat + 256 * high.toNat - 2 ≤ rest.length then
        some (.symbol cn fn (rest.take (low.toNat + 256 * high.toNat - 2)),
          rest.drop (low.toNat + 256 * high.toNat - 2)) else none := rfl

/-- A command is read as it was sent. -/
theorem next_bytes {c : Command} (h : c.WellFormed) (rest : List UInt8) :
    next (c.bytes ++ rest) = some (c, rest) := by
  cases c with
  | reset => rfl
  | set s n =>
    have hcode : Setting.all.find? (·.code = s.code) = some s := by cases s <;> rfl
    have hlead : s.code.1 ≠ LF ∧ ¬IsPrintable s.code.1 := by cases s <;> decide
    have hother : ¬(s.code.1 = ESC ∧ s.code.2 = 0x40) ∧ ¬(s.code.1 = ESC ∧ s.code.2 = 0x70) ∧
        ¬(s.code.1 = GS ∧ s.code.2 = 0x6B) ∧ ¬(s.code.1 = GS ∧ s.code.2 = 0x28) := by
      cases s <;> decide
    have hallows : s.Allows n := h
    show next (s.code.1 :: s.code.2 :: n :: rest) = _
    simp only [next, hlead, hother, hcode, hallows, if_false, if_true]
  | pulse pin on off => rfl
  | barcode system data =>
    obtain ⟨hsystem, hlen⟩ := h
    have hn : (UInt8.ofNat data.length).toNat = data.length := by
      rw [UInt8.toNat_ofNat', Nat.mod_eq_of_lt hlen]
    simp only [Command.bytes, List.cons_append]
    rw [next_barcode, hn, if_pos ⟨hsystem, by simp⟩, List.take_left, List.drop_left]
  | symbol cn fn data =>
    have hlen : data.length + 2 < 65536 := h
    have hn : (UInt8.ofNat ((data.length + 2) % 256)).toNat +
        256 * (UInt8.ofNat ((data.length + 2) / 256)).toNat = data.length + 2 := by
      rw [UInt8.toNat_ofNat', UInt8.toNat_ofNat']
      omega
    simp only [Command.bytes, List.cons_append]
    rw [next_symbol, hn, Nat.add_sub_cancel, if_pos ⟨by omega, by simp⟩, List.take_left,
      List.drop_left]
  | print b =>
    have hne : b ≠ LF := by
      rintro rfl
      exact absurd (show IsPrintable LF from h) (by decide)
    have hprintable : IsPrintable b := h
    show next (b :: rest) = _
    rw [next.eq_def]
    simp only [hne, hprintable, if_false, if_true]
  | lineFeed => rfl

theorem length_next {bytes rest : List UInt8} {c : Command} (h : next bytes = some (c, rest)) :
    rest.length < bytes.length := by
  unfold next at h
  repeat' split at h
  all_goals cases h
  all_goals simp only [List.length_cons, List.length_drop]
  all_goals omega

/-- The commands of a stream. -/
def parse (bytes : List UInt8) : Option (List Command) :=
  match bytes with
  | [] => some []
  | b :: bytes =>
    match _h : next (b :: bytes) with
    | none => none
    | some (c, rest) => (parse rest).map (c :: ·)
termination_by bytes.length
decreasing_by exact length_next _h

theorem parse_bytes_append {c : Command} (h : c.WellFormed) (rest : List UInt8) :
    parse (c.bytes ++ rest) = (parse rest).map (c :: ·) := by
  have hnext := next_bytes h rest
  obtain ⟨b, bytes, hcons⟩ : ∃ b bytes, c.bytes ++ rest = b :: bytes := by
    cases c <;> exact ⟨_, _, rfl⟩
  rw [hcons] at hnext ⊢
  rw [parse]
  split
  · rename_i hnone
    rw [hnone] at hnext
    cases hnext
  · rename_i hsome
    rw [hsome] at hnext
    cases hnext
    rfl

/-- A stream is read as it was sent. -/
theorem parse_flatMap_bytes {cs : List Command} (h : ∀ c ∈ cs, c.WellFormed) :
    parse (cs.flatMap Command.bytes) = some cs := by
  induction cs with
  | nil => rw [List.flatMap_nil, parse]
  | cons c cs ih =>
    rw [List.flatMap_cons, parse_bytes_append (h c List.mem_cons_self),
      ih fun c hc => h c (List.mem_cons_of_mem _ hc)]
    rfl

/-! ### Printers -/

/-- How characters are printed. -/
structure Style where
  bold : Bool
  underline : UInt8
  reverse : Bool
  size : UInt8
  font : UInt8
  deriving DecidableEq

def Style.plain : Style := ⟨false, 0, false, 0, 0⟩

/-- How a barcode is printed. -/
structure Bars where
  position : UInt8
  height : UInt8
  width : UInt8
  deriving DecidableEq

/-- A two-dimensional symbol as it is set up, with the data that are stored. -/
structure Symbol where
  model : List UInt8
  size : List UInt8
  level : List UInt8
  data : List UInt8
  deriving DecidableEq

structure Printer where
  style : Style
  justification : UInt8
  bars : Bars
  symbol : Symbol
  /-- The characters of the line that is not printed yet. -/
  line : List (UInt8 × Style)
  deriving DecidableEq

/-- The printer after it is switched on. -/
def Printer.fresh : Printer := ⟨.plain, 0, ⟨0, 162, 3⟩, ⟨[], [], [], []⟩, []⟩

/-- What a printer is seen to do. -/
inductive Shown
  | reset
  | codeTable (n : UInt8)
  | line (justification : UInt8) (cells : List (UInt8 × Style))
  | barcode (justification : UInt8) (bars : Bars) (system : UInt8) (data : List UInt8)
  | symbol (justification : UInt8) (symbol : Symbol)
  | feed (n : UInt8)
  | cut (n : UInt8)
  | pulse (pin on off : UInt8)
  deriving DecidableEq

namespace Printer

def apply (p : Printer) : Command → Printer × List Shown
  | .reset => (.fresh, [.reset])
  | .set .codeTable n => (p, [.codeTable n])
  | .set .emphasis n => ({ p with style.bold := n % 2 = 1 }, [])
  | .set .underline n => ({ p with style.underline := n }, [])
  | .set .justification n => ({ p with justification := n }, [])
  | .set .font n => ({ p with style.font := n }, [])
  | .set .feed n =>
    ({ p with line := [] }, (if p.line = [] then [] else [.line p.justification p.line]) ++ [.feed n])
  | .set .size n => ({ p with style.size := n }, [])
  | .set .reverse n => ({ p with style.reverse := n % 2 = 1 }, [])
  | .set .barPosition n => ({ p with bars.position := n }, [])
  | .set .barHeight n => ({ p with bars.height := n }, [])
  | .set .barWidth n => ({ p with bars.width := n }, [])
  | .set .cut n => (p, [.cut n])
  | .pulse pin on off => (p, [.pulse pin on off])
  | .barcode system data => (p, [.barcode p.justification p.bars system data])
  | .symbol cn fn data =>
    if cn ≠ 0x31 then (p, [])
    else if fn = 0x41 then ({ p with symbol.model := data }, [])
    else if fn = 0x43 then ({ p with symbol.size := data }, [])
    else if fn = 0x45 then ({ p with symbol.level := data }, [])
    else if fn = 0x50 then ({ p with symbol.data := data.drop 1 }, [])
    else if fn = 0x51 then (p, [.symbol p.justification p.symbol])
    else (p, [])
  | .print b => ({ p with line := p.line ++ [(b, p.style)] }, [])
  | .lineFeed => ({ p with line := [] }, [.line p.justification p.line])

/-- What a printer does with commands. -/
def run (p : Printer) : List Command → Printer × List Shown
  | [] => (p, [])
  | c :: cs => ((run (p.apply c).1 cs).1, (p.apply c).2 ++ (run (p.apply c).1 cs).2)

theorem run_append (p : Printer) (cs ds : List Command) : p.run (cs ++ ds) =
    (((p.run cs).1.run ds).1, (p.run cs).2 ++ ((p.run cs).1.run ds).2) := by
  induction cs generalizing p with
  | nil => rfl
  | cons c cs ih =>
    rw [List.cons_append, run, ih, run, List.append_assoc]

end Printer

def Command.isPulse : Command → Bool
  | .pulse .. => true
  | _ => false

def Shown.isPulse : Shown → Bool
  | .pulse .. => true
  | _ => false

/-- Every pulse that is sent is shown, and no other. -/
theorem Printer.countP_run (p : Printer) (cs : List Command) :
    (p.run cs).2.countP Shown.isPulse = cs.countP Command.isPulse := by
  induction cs generalizing p with
  | nil => rfl
  | cons c cs ih =>
    have hc : (p.apply c).2.countP Shown.isPulse = if c.isPulse then 1 else 0 := by
      cases c with
      | set s n =>
        cases s with
        | feed =>
          show ((if p.line = [] then [] else _) ++ [Shown.feed n]).countP _ = 0
          split <;> rfl
        | _ => rfl
      | symbol cn fn data =>
        have hsymbol : (p.apply (.symbol cn fn data)).2 = [] ∨
            (p.apply (.symbol cn fn data)).2 = [.symbol p.justification p.symbol] := by
          simp only [Printer.apply]
          split_ifs <;> simp
        rcases hsymbol with h | h
        · rw [h]
          rfl
        · rw [h]
          rfl
      | _ => rfl
    rw [Printer.run, List.countP_append, hc, ih, List.countP_cons, Nat.add_comm]

/-! ### Text -/

/-- A character of a text, and the end of a line. -/
def typed (b : UInt8) : Command := if b = LF then .lineFeed else .print b

/-- The lines of a text, the first of which has begun. -/
def linesFrom (current : List UInt8) : List UInt8 → List (List UInt8)
  | [] => [current]
  | b :: bytes =>
    if b = LF then current :: linesFrom [] bytes else linesFrom (current ++ [b]) bytes

/-- The lines of a text. -/
def lines (bytes : List UInt8) : List (List UInt8) := linesFrom [] bytes

theorem flatMap_bytes_typed (bytes : List UInt8) :
    (bytes.map typed).flatMap Command.bytes = bytes := by
  induction bytes with
  | nil => rfl
  | cons b bytes ih =>
    have hb : (typed b).bytes = [b] := by
      unfold typed
      split
      · rename_i h
        rw [h]
        rfl
      · rfl
    rw [List.map_cons, List.flatMap_cons, hb, ih, List.singleton_append]

theorem wellFormed_typed {b : UInt8} (h : b = LF ∨ IsPrintable b) : (typed b).WellFormed := by
  unfold typed
  split
  · trivial
  · exact h.resolve_left ‹_›

theorem run_typedFrom (p : Printer) (current bytes : List UInt8) :
    { p with line := current.map (·, p.style) }.run ((bytes ++ [LF]).map typed) =
      ({ p with line := [] },
        (linesFrom current bytes).map fun l => .line p.justification (l.map (·, p.style))) := by
  induction bytes generalizing current with
  | nil => rfl
  | cons b bytes ih =>
    rw [List.cons_append, List.map_cons, Printer.run, linesFrom]
    by_cases hb : b = LF
    · have hnext := ih []
      rw [List.map_nil] at hnext
      rw [if_pos hb, typed, if_pos hb, Printer.apply, hnext]
      rfl
    · have hnext := ih (current ++ [b])
      rw [List.map_append, List.map_singleton] at hnext
      rw [if_neg hb, typed, if_neg hb, Printer.apply, hnext]
      rfl

/-- A text is printed line by line, in the style that is set. -/
theorem run_typed {p : Printer} (h : p.line = []) (bytes : List UInt8) :
    p.run ((bytes ++ [LF]).map typed) =
      (p, (lines bytes).map fun l => .line p.justification (l.map (·, p.style))) := by
  have hp : { p with line := ([] : List (UInt8 × Style)) } = p := by rw [← h]
  have hrun := run_typedFrom p [] bytes
  rwa [List.map_nil, hp] at hrun

end EscPos
