import StelloKitchens.Printing.Document

/-!
# The stream says what the document says

A document's bytes are the commands of its operations, one after another. Between operations the
printer has no line begun and its style is plain, so that every operation is printed as it says. Text
brings no commands but line feeds: control characters are left out, and what a code page does not have
is written with characters that it has.

## Main definitions

* `PrintOp.shown` — what an operation is to do.
* `Printer.Ready` — the printer between two operations.

## Main results

* `printable_encodeText` — text has line feeds and printable characters only.
* `encodeOp_shown` — the commands of an operation.
* `stream_says_document` — the stream of a document.
-/

namespace StelloKitchens.Printing

open Checked EscPos

/-! ### Text -/

theorem printable_of_le {b : UInt8} (h : 0x80 ≤ b.toNat) : IsPrintable b := by
  refine ⟨UInt8.le_iff_toNat_le.mpr (Nat.le_trans (by decide) h), ?_⟩
  rintro rfl
  exact absurd h (by decide)

theorem length_high (codepage : Codepage) : (high codepage).length = 128 := by
  cases codepage <;> rfl

theorem printable_lookup {codepage : Codepage} {ch : ℕ} {b : UInt8}
    (h : lookup codepage ch = some b) : IsPrintable b := by
  obtain ⟨i, hi, rfl⟩ := Option.map_eq_some_iff.mp h
  have hlt : i < 128 := by
    rw [← length_high codepage]
    exact (List.findIdx?_eq_some_iff_findIdx_eq.mp hi).1
  refine printable_of_le ?_
  rw [UInt8.toNat_ofNat']
  omega

theorem printable_substitutes : ∀ s ∈ substitutes, ∀ u ∈ s.2, IsPrintable u.toUInt8 := by
  have hall : (substitutes.all fun s => s.2.all fun u => decide (IsPrintable u.toUInt8)) = true := by
    decide +kernel
  intro s hs u hu
  exact of_decide_eq_true (List.all_eq_true.mp (List.all_eq_true.mp hall s hs) u hu)

theorem printable_substitute {ch : ℕ} {sub : Text} (h : substitute ch = some sub) :
    ∀ u ∈ sub, IsPrintable u.toUInt8 := by
  unfold substitute at h
  split at h
  · obtain ⟨before, after, heq, -⟩ := List.lookup_eq_some_iff.mp h
    refine printable_substitutes (UInt16.ofNat ch, sub) ?_
    rw [heq]
    exact List.mem_append_right _ List.mem_cons_self
  · cases h

/-- Text has line feeds and printable characters only. -/
theorem printable_encodeText (codepage : Codepage) (text : Text) :
    ∀ b ∈ encodeText codepage text, b = LF ∨ IsPrintable b := by
  intro b hb
  obtain ⟨ch, -, hb⟩ := List.mem_flatMap.mp hb
  generalize codePoint ch = code at hb
  unfold encodeChar at hb
  split at hb
  · rename_i native hnative
    rw [List.mem_singleton.mp hb]
    exact .inr (printable_lookup hnative)
  · rename_i sub _ hsub
    obtain ⟨u, hu, rfl⟩ := List.mem_map.mp hb
    exact .inr (printable_substitute hsub u hu)
  · split_ifs at hb with hlf hascii hcontrol
    · exact .inl (List.mem_singleton.mp hb)
    · rw [List.mem_singleton.mp hb]
      have hcode : (UInt8.ofNat code).toNat = code := by
        rw [UInt8.toNat_ofNat']
        omega
      refine .inr ⟨UInt8.le_iff_toNat_le.mpr (hascii.1.trans_eq hcode.symm), fun heq => ?_⟩
      rw [heq] at hcode
      exact absurd hcode.symm hascii.2.ne
    · exact absurd hb List.not_mem_nil
    · rw [List.mem_singleton.mp hb]
      exact .inr (by decide)

/-! ### What is printed -/

def justification : Align → UInt8
  | .left => 0
  | .center => 1
  | .right => 2

def sizeByte (w h : Scale) : UInt8 := UInt8.ofNat ((w.toNat - 1) * 16 + (h.toNat - 1))

/-- The style of a text. -/
def textStyle (b i : Bool) (w h : Scale) : Style := ⟨b, 0, i, sizeByte w h, 0⟩

/-- The lines of a text in a code page, each in the style of the text. -/
def shownLines (page : Codepage) (t : Text) (a : Align) (style : Style) : List Shown :=
  (lines (encodeText page t)).map fun l => .line (justification a) (l.map (·, style))

/-- The characters of a barcode, with the seven bits that they are sent with. -/
def barcodeData (data : Text) (type : BarcodeType) : List UInt8 :=
  (EscPosEncoder.charCodes (EscPosEncoder.barcodeBody data type)).map fun c => (c &&& 0x7F).toUInt8

/-- What an operation is to do: print a text in its style, or a rule; print a symbol or a barcode, in
the middle of its line; feed paper, cut it, or open the drawer, which is done with the first copy. -/
def PrintOp.shown (page : Codepage) (width : ℕ) (first : Bool) : PrintOp → List Shown
  | .text t a b i size => shownLines page t (a.getD .left)
      (textStyle b i (size.getD (.one, .one)).1 (size.getD (.one, .one)).2)
  | .rule char => shownLines page (List.replicate width (char.getD (Text.of "-"))).flatten .left .plain
  | .qr data size => [.symbol 1 ⟨[50, 0], [byte (clampInt ((size.map (·.val)).getD 6) 1 16)], [49],
      data.map (·.toUInt8)⟩, .line 1 []]
  | .barcode data type => [.barcode 1 ⟨2, 80, 2⟩ (EscPosEncoder.barcodeSystem type)
      (barcodeData data type), .line 1 []]
  | .feed n => [.feed (byte (clampInt n.val 0 255))]
  | .cut => [.cut 1]
  | .drawer => if first then [.pulse 0 50 100] else []

/-- The data of a symbol are ASCII, and no longer than can be stored. -/
def PrintOp.QrOk : PrintOp → Prop
  | .qr data _ => (∀ u ∈ data, u < 0x80) ∧ data.length ≤ 65532
  | _ => True

instance (op : PrintOp) : Decidable op.QrOk :=
  match op with
  | .qr data _ => @instDecidableAnd _ _ (List.decidableBAll (· < 0x80) data) inferInstance
  | .text .. | .rule _ | .barcode .. | .feed _ | .cut | .drawer => .isTrue trivial

/-- Between two operations no line is begun, and the style is plain. -/
structure Ready (p : Printer) : Prop where
  style : p.style = .plain
  line : p.line = []

/-! ### Operations -/

/-- The commands are sent as these bytes, and show this to a printer that is ready. -/
structure Sends (cs : List Command) (bytes : List UInt8) (shown : List Shown) : Prop where
  bytes_eq : cs.flatMap Command.bytes = bytes
  wellFormed : ∀ c ∈ cs, c.WellFormed
  run : ∀ p, Ready p → Ready (p.run cs).1 ∧ (p.run cs).2 = shown

theorem Sends.congr {cs : List Command} {bytes bytes' : List UInt8} {shown : List Shown}
    (h : Sends cs bytes shown) (heq : bytes = bytes') : Sends cs bytes' shown := heq ▸ h

theorem Sends.append {cs ds : List Command} {bytes bytes' : List UInt8} {shown shown' : List Shown}
    (h : Sends cs bytes shown) (h' : Sends ds bytes' shown') :
    Sends (cs ++ ds) (bytes ++ bytes') (shown ++ shown') := by
  refine ⟨?_, fun c hc => ?_, fun p hp => ?_⟩
  · rw [List.flatMap_append, h.bytes_eq, h'.bytes_eq]
  · exact (List.mem_append.mp hc).elim (h.wellFormed c) (h'.wellFormed c)
  · obtain ⟨hready, hshown⟩ := h.run p hp
    obtain ⟨hready', hshown'⟩ := h'.run _ hready
    rw [Printer.run_append]
    exact ⟨hready', by rw [hshown, hshown']⟩

/-- The commands that set the style of a text. -/
def styleOn (b i : Bool) (w h : Scale) : List Command :=
  (if b then [.set .emphasis 1] else []) ++ (if i then [.set .reverse 1] else []) ++
    if w ≠ .one ∨ h ≠ .one then [.set .size (sizeByte w h)] else []

def styleOff (b i : Bool) (w h : Scale) : List Command :=
  (if w ≠ .one ∨ h ≠ .one then [.set .size 0] else []) ++ (if i then [.set .reverse 0] else []) ++
    if b then [.set .emphasis 0] else []

theorem run_styleOn {p : Printer} (hp : p.style = .plain) (b i : Bool) (w h : Scale) :
    p.run (styleOn b i w h) = ({ p with style := textStyle b i w h }, []) := by
  obtain ⟨style, justification, bars, symbol, line⟩ := p
  subst hp
  cases b <;> cases i <;> cases w <;> cases h <;> rfl

theorem run_styleOff {p : Printer} {b i : Bool} {w h : Scale} (hp : p.style = textStyle b i w h) :
    p.run (styleOff b i w h) = ({ p with style := .plain }, []) := by
  obtain ⟨style, justification, bars, symbol, line⟩ := p
  subst hp
  cases b <;> cases i <;> cases w <;> cases h <;> rfl

theorem wellFormed_style {b i : Bool} {w h : Scale} :
    (∀ c ∈ styleOn b i w h, c.WellFormed) ∧ ∀ c ∈ styleOff b i w h, c.WellFormed := by
  have hset : ∀ (s : Setting) (n : UInt8), s ≠ .cut → (Command.set s n).WellFormed :=
    fun s n hne hcut => absurd hcut hne
  constructor
  · intro c hc
    simp only [styleOn, List.mem_append] at hc
    rcases hc with (hc | hc) | hc
    all_goals
      split at hc
      · rw [List.mem_singleton.mp hc]
        exact hset _ _ (by decide)
      · cases hc
  · intro c hc
    simp only [styleOff, List.mem_append] at hc
    rcases hc with (hc | hc) | hc
    all_goals
      split at hc
      · rw [List.mem_singleton.mp hc]
        exact hset _ _ (by decide)
      · cases hc

theorem size_scale (w h : Scale) : EscPosEncoder.size w.toNat h.toNat = [GS, 0x21, sizeByte w h] := by
  cases w <;> cases h <;> decide +kernel

theorem size_one : EscPosEncoder.size 1 1 = [GS, 0x21, 0] := by decide +kernel

theorem bytes_styleOn (b i : Bool) (w h : Scale) : (styleOn b i w h).flatMap Command.bytes =
    (if b then EscPosEncoder.bold true else []) ++ (if i then EscPosEncoder.invert true else []) ++
      if w ≠ .one ∨ h ≠ .one then EscPosEncoder.size w.toNat h.toNat else [] := by
  rw [size_scale]
  unfold styleOn
  split_ifs <;> rfl

theorem bytes_styleOff (b i : Bool) (w h : Scale) : (styleOff b i w h).flatMap Command.bytes =
    (if w ≠ .one ∨ h ≠ .one then EscPosEncoder.size 1 1 else []) ++
      (if i then EscPosEncoder.invert false else []) ++
        if b then EscPosEncoder.bold false else [] := by
  rw [size_one]
  unfold styleOff
  split_ifs <;> rfl

/-- A text and the end of its line, printed in the style that is set. -/
theorem run_line {p : Printer} (hp : p.line = []) (page : Codepage) (t : Text) {a : Align}
    (hjust : p.justification = justification a) :
    p.run ((encodeText page t ++ [LF]).map typed) = (p, shownLines page t a p.style) := by
  rw [run_typed hp, hjust]
  rfl

theorem wellFormed_line (page : Codepage) (t : Text) :
    ∀ c ∈ (encodeText page t ++ [LF]).map typed, c.WellFormed := by
  intro c hc
  obtain ⟨b, hb, rfl⟩ := List.mem_map.mp hc
  refine wellFormed_typed ?_
  rcases List.mem_append.mp hb with hb | hb
  · exact printable_encodeText page t b hb
  · exact .inl (List.mem_singleton.mp hb)

/-- A text is printed in its style, which is reset after it. -/
theorem sends_text (page : Codepage) (t : Text) (a : Align) (b i : Bool) (w h : Scale) :
    Sends (.set .justification (justification a) :: styleOn b i w h ++
        (encodeText page t ++ [LF]).map typed ++ styleOff b i w h)
      (EscPosEncoder.align a ++ (styleOn b i w h).flatMap Command.bytes ++
        EscPosEncoder.line page t ++ (styleOff b i w h).flatMap Command.bytes)
      (shownLines page t a (textStyle b i w h)) := by
  refine ⟨?_, fun c hc => ?_, fun p hp => ?_⟩
  · rw [List.flatMap_append, List.flatMap_append, List.flatMap_cons, flatMap_bytes_typed]
    cases a <;> rfl
  · rcases List.mem_append.mp hc with hc | hc
    · rcases List.mem_append.mp hc with hc | hc
      · rcases List.mem_cons.mp hc with rfl | hc
        · exact fun hcut => absurd hcut (by decide)
        · exact wellFormed_style.1 c hc
      · exact wellFormed_line page t c hc
    · exact wellFormed_style.2 c hc
  · have hon := @run_styleOn { p with justification := justification a } hp.style b i w h
    have hline := @run_line { p with justification := justification a, style := textStyle b i w h }
      hp.line page t a rfl
    have hoff := @run_styleOff { p with justification := justification a, style := textStyle b i w h }
      b i w h rfl
    rw [Printer.run_append, Printer.run_append, Printer.run, Printer.apply, hon, hline, hoff]
    exact ⟨⟨rfl, hp.line⟩, by simp⟩

/-- The characters of ASCII text are its code units. -/
theorem characters_ascii {data : Text} (h : ∀ u ∈ data, u < 0x80) :
    characters data = data.map fun u => (u, none) := by
  induction data with
  | nil => rfl
  | cons u data ih =>
    have hu : ¬0xD800 ≤ u := by
      have := UInt16.lt_iff_toNat_lt.mp (h u List.mem_cons_self)
      rw [UInt16.le_iff_toNat_le]
      exact fun hle => absurd (Nat.lt_of_lt_of_le this (by decide)) (Nat.not_lt.mpr hle)
    have hrest := ih fun v hv => h v (List.mem_cons_of_mem _ hv)
    cases data with
    | nil => rfl
    | cons v data =>
      rw [characters, if_neg fun hpair => hu hpair.1.1, hrest]
      rfl

theorem charCodes_ascii {data : Text} (h : ∀ u ∈ data, u < 0x80) :
    EscPosEncoder.charCodes data = data := by
  rw [EscPosEncoder.charCodes, characters_ascii h, List.map_map]
  exact List.map_id _

/-- The length of what is stored, in two bytes. -/
theorem ofNat_length (n : ℕ) : UInt8.ofNat (n % 256) = UInt8.ofNat n ∧
    UInt8.ofNat (n / 256) = UInt8.ofNat (n >>> 8) := by
  refine ⟨UInt8.toNat_inj.mp ?_, by rw [Nat.shiftRight_eq_div_pow]⟩
  rw [UInt8.toNat_ofNat', UInt8.toNat_ofNat', Nat.mod_mod]

def qrCommands (data : Text) (size : UInt8) : List Command :=
  [.set .justification 1, .symbol 0x31 0x41 [50, 0], .symbol 0x31 0x43 [size],
    .symbol 0x31 0x45 [49], .symbol 0x31 0x50 (0x30 :: data.map (·.toUInt8)),
    .symbol 0x31 0x51 [0x30], .lineFeed, .set .justification 0]

/-- The characters of a symbol are stored as they are. -/
theorem sends_qr {data : Text} {size : Option Binary64} (hascii : ∀ u ∈ data, u < 0x80)
    (hlen : data.length ≤ 65532) (page : Codepage) (width : ℕ) (first : Bool) :
    Sends (qrCommands data (byte (clampInt ((size.map (·.val)).getD 6) 1 16)))
      (EscPosEncoder.align .center ++ EscPosEncoder.qrcode data size ++ [LF] ++
        EscPosEncoder.align .left)
      ((PrintOp.qr data size).shown page width first) := by
  refine ⟨?_, fun c hc => ?_, fun p hp => ⟨⟨hp.style, rfl⟩, ?_⟩⟩
  · obtain ⟨hlow, hhigh⟩ := ofNat_length (data.length + 3)
    simp only [EscPosEncoder.qrcode, charCodes_ascii hascii, List.length_map, ← hlow, ← hhigh]
    simp [qrCommands, Command.bytes, EscPosEncoder.align, Setting.code]
  · simp only [qrCommands, List.mem_cons, List.not_mem_nil, or_false] at hc
    rcases hc with rfl | rfl | rfl | rfl | rfl | rfl | rfl | rfl
    all_goals first
      | trivial
      | exact fun hcut => absurd hcut (by decide)
      | (show _ + 2 < 65536
         simp only [List.length_cons, List.length_map, List.length_nil]
         omega)
  · show [Shown.symbol 1 _, .line 1 p.line] = _
    rw [hp.line]
    rfl

def barcodeCommands (data : Text) (type : BarcodeType) : List Command :=
  [.set .justification 1, .set .barPosition 2, .set .barHeight 80, .set .barWidth 2,
    .barcode (EscPosEncoder.barcodeSystem type) (barcodeData data type), .lineFeed,
    .set .justification 0]

/-- A barcode that is not refused. -/
theorem barcode_eq_ok {data : Text} {type : BarcodeType} {bytes : List UInt8}
    (h : EscPosEncoder.barcode data type = .ok bytes) : (barcodeData data type).length < 256 ∧
      bytes = [GS, 0x48, 2, GS, 0x68, 80, GS, 0x77, 2, GS, 0x6B, EscPosEncoder.barcodeSystem type,
        UInt8.ofNat (barcodeData data type).length] ++ barcodeData data type := by
  have hheight : byte (clampInt 80 1 255) = 80 := by decide +kernel
  have hwidth : byte (clampInt 2 2 6) = 2 := by decide +kernel
  unfold EscPosEncoder.barcode at h
  replace h := (bind_eq_ok.mp h).choose_spec.2
  replace h := (bind_eq_ok.mp h).choose_spec.2
  obtain ⟨_, hlen, h⟩ := bind_eq_ok.mp h
  refine ⟨Nat.lt_succ_of_le (ensure_eq_ok.mp hlen), ?_⟩
  rw [← pure_eq_ok.mp h, hheight, hwidth]
  rfl

theorem sends_barcode {data : Text} {type : BarcodeType} {bytes : List UInt8}
    (h : EscPosEncoder.barcode data type = .ok bytes) (page : Codepage) (width : ℕ) (first : Bool) :
    Sends (barcodeCommands data type)
      (EscPosEncoder.align .center ++ bytes ++ [LF] ++ EscPosEncoder.align .left)
      ((PrintOp.barcode data type).shown page width first) := by
  obtain ⟨hlen, rfl⟩ := barcode_eq_ok h
  refine ⟨?_, fun c hc => ?_, fun p hp => ⟨⟨hp.style, rfl⟩, ?_⟩⟩
  · simp [barcodeCommands, Command.bytes, EscPosEncoder.align, Setting.code]
  · simp only [barcodeCommands, List.mem_cons, List.not_mem_nil, or_false] at hc
    have hsystem : 65 ≤ EscPosEncoder.barcodeSystem type := by cases type <;> decide
    rcases hc with rfl | rfl | rfl | rfl | rfl | rfl | rfl
    all_goals first
      | trivial
      | exact ⟨hsystem, hlen⟩
      | exact fun hcut => absurd hcut (by decide)
  · show [Shown.barcode 1 _ _ _, .line 1 p.line] = _
    rw [hp.line]
    rfl

/-- The bytes of an operation are commands that show what it is to do. -/
theorem encodeOp_shown {op : PrintOp} (hqr : op.QrOk) {page : Codepage} {width copy : ℕ}
    {bytes : List UInt8} (h : encodeOp page width copy op = .ok bytes) :
    ∃ cs, Sends cs bytes (op.shown page width (copy = 0)) := by
  cases op with
  | text t a b i size =>
    have htext := sends_text page t (a.getD .left) b i (size.getD (.one, .one)).1
      (size.getD (.one, .one)).2
    rw [bytes_styleOn, bytes_styleOff] at htext
    refine ⟨_, htext.congr ?_⟩
    rw [← pure_eq_ok.mp h]
    simp only [List.append_assoc]
    rfl
  | rule char =>
    have htext := sends_text page (List.replicate width (char.getD (Text.of "-"))).flatten .left
      false false .one .one
    refine ⟨_, htext.congr ?_⟩
    rw [← pure_eq_ok.mp h]
    exact List.append_nil _
  | qr data size =>
    rw [← pure_eq_ok.mp h]
    exact ⟨_, sends_qr hqr.1 hqr.2 page width _⟩
  | barcode data type =>
    obtain ⟨bar, hbar, h⟩ := bind_eq_ok.mp h
    rw [← pure_eq_ok.mp h]
    exact ⟨_, sends_barcode hbar page width _⟩
  | feed lines =>
    rw [← pure_eq_ok.mp h]
    refine ⟨[.set .feed (byte (clampInt lines.val 0 255))], rfl, fun c hc => ?_, fun p hp => ?_⟩
    · rw [List.mem_singleton.mp hc]
      exact fun hcut => absurd hcut (by decide)
    · refine ⟨⟨hp.style, rfl⟩, ?_⟩
      show (if p.line = [] then [] else _) ++ [Shown.feed _] ++ [] = _
      rw [if_pos hp.line]
      rfl
  | cut =>
    rw [← pure_eq_ok.mp h]
    refine ⟨[.set .cut 1], rfl, fun c hc => ?_, fun p hp => ⟨hp, rfl⟩⟩
    rw [List.mem_singleton.mp hc]
    exact fun _ => by decide
  | drawer =>
    rw [← pure_eq_ok.mp h]
    have hpulse : EscPosEncoder.pulse 0 100 200 = [ESC, 0x70, 0, 50, 100] := by decide +kernel
    by_cases hcopy : copy = 0
    · refine ⟨[.pulse 0 50 100], ?_, fun c hc => ?_, fun p hp => ⟨hp, ?_⟩⟩
      · rw [if_pos hcopy, hpulse]
        rfl
      · rw [List.mem_singleton.mp hc]
        trivial
      · rw [PrintOp.shown, if_pos (decide_eq_true hcopy)]
        rfl
    · refine ⟨[], ?_, fun c hc => absurd hc List.not_mem_nil, fun p hp => ⟨hp, ?_⟩⟩
      · rw [if_neg hcopy]
        rfl
      · rw [PrintOp.shown, if_neg (by simpa using hcopy)]
        rfl

/-! ### Documents -/

/-- What a copy is to do: set the printer up, then the operations in order. -/
def PrintDoc.shown (doc : PrintDoc) (page : Codepage) (first : Bool) : List Shown :=
  .reset :: .codeTable (codepageTable page) :: doc.ops.flatMap (·.shown page doc.width first)

theorem encodeOps_shown {ops : List PrintOp} (hqr : ∀ op ∈ ops, op.QrOk) {page : Codepage}
    {width copy : ℕ} {bytes : List (List UInt8)}
    (h : ops.mapM (encodeOp page width copy) = .ok bytes) :
    ∃ cs, Sends cs bytes.flatten (ops.flatMap (·.shown page width (copy = 0))) := by
  induction ops generalizing bytes with
  | nil =>
    rw [List.mapM_nil] at h
    rw [← pure_eq_ok.mp h]
    exact ⟨[], rfl, fun c hc => absurd hc List.not_mem_nil, fun p hp => ⟨hp, rfl⟩⟩
  | cons op ops ih =>
    rw [List.mapM_cons] at h
    obtain ⟨b, hb, h⟩ := bind_eq_ok.mp h
    obtain ⟨bs, hbs, h⟩ := bind_eq_ok.mp h
    rw [← pure_eq_ok.mp h]
    obtain ⟨cs, hcs⟩ := encodeOp_shown (hqr op List.mem_cons_self) hb
    obtain ⟨ds, hds⟩ := ih (fun op hop => hqr op (List.mem_cons_of_mem _ hop)) hbs
    exact ⟨cs ++ ds, hcs.append hds⟩

/-- The commands of a copy do the same whatever was printed before. -/
theorem encodeCopy_shown {doc : PrintDoc} (hqr : ∀ op ∈ doc.ops, op.QrOk) {page : Codepage}
    {copy : ℕ} {bytes : List UInt8} (h : encodeCopy doc page copy = .ok bytes) :
    ∃ cs, cs.flatMap Command.bytes = bytes ∧ (∀ c ∈ cs, c.WellFormed) ∧
      ∀ p : Printer, Ready (p.run cs).1 ∧ (p.run cs).2 = doc.shown page (copy = 0) := by
  obtain ⟨ops, hops, h⟩ := bind_eq_ok.mp h
  rw [← pure_eq_ok.mp h]
  obtain ⟨cs, hcs⟩ := encodeOps_shown hqr hops
  refine ⟨.reset :: .set .codeTable (codepageTable page) :: cs, ?_, fun c hc => ?_, fun p => ?_⟩
  · rw [List.flatMap_cons, List.flatMap_cons, hcs.bytes_eq]
    rfl
  · rcases List.mem_cons.mp hc with rfl | hc
    · trivial
    · rcases List.mem_cons.mp hc with rfl | hc
      · exact fun hcut => absurd hcut (by decide)
      · exact hcs.wellFormed c hc
  · obtain ⟨hready, hshown⟩ := hcs.run .fresh ⟨rfl, rfl⟩
    exact ⟨hready, congrArg (Shown.reset :: Shown.codeTable (codepageTable page) :: ·) hshown⟩

theorem countP_shown (op : PrintOp) (page : Codepage) (width : ℕ) (first : Bool) :
    (op.shown page width first).countP Shown.isPulse = if first ∧ op = .drawer then 1 else 0 := by
  have hlines : ∀ t a style, (shownLines page t a style).countP Shown.isPulse = 0 := by
    intro t a style
    rw [shownLines, List.countP_map]
    exact List.countP_eq_zero.mpr fun _ _ => Bool.false_ne_true
  cases op with
  | text t a b i size =>
    rw [PrintOp.shown, hlines]
    simp
  | rule char =>
    rw [PrintOp.shown, hlines]
    simp
  | drawer => cases first <;> rfl
  | _ => simp [PrintOp.shown, Shown.isPulse]

/-- The drawer is opened once for every time that the document says so, with the first copy. -/
theorem countP_shown_document (doc : PrintDoc) (page : Codepage) (first : Bool) :
    (doc.shown page first).countP Shown.isPulse = if first then doc.ops.count .drawer else 0 := by
  have hops : ∀ ops : List PrintOp, (ops.flatMap (·.shown page doc.width first)).countP Shown.isPulse =
      if first then ops.count .drawer else 0 := by
    intro ops
    induction ops with
    | nil => simp
    | cons op ops ih =>
      rw [List.flatMap_cons, List.countP_append, ih, countP_shown, List.count_cons]
      cases first <;> simp [Nat.add_comm]
  exact hops doc.ops

theorem isOk_mapM {α β : Type} {f : α → Except String β} {l : List α}
    (h : ∀ a ∈ l, ∃ b, f a = .ok b) : ∃ bs, l.mapM f = .ok bs := by
  induction l with
  | nil => exact ⟨[], rfl⟩
  | cons a l ih =>
    obtain ⟨b, hb⟩ := h a List.mem_cons_self
    obtain ⟨bs, hbs⟩ := ih fun a ha => h a (List.mem_cons_of_mem _ ha)
    exact ⟨b :: bs, by rw [List.mapM_cons, hb, ok_bind, hbs, ok_bind]; rfl⟩

/-- A document is refused only for a barcode. -/
theorem isOk_encodePrintDoc {doc : PrintDoc} (codepage : Option Codepage) (copies : Option ℤ)
    (h : ∀ data type, .barcode data type ∈ doc.ops →
      ∃ bytes, EscPosEncoder.barcode data type = .ok bytes) :
    ∃ bytes, encodePrintDoc doc codepage copies = .ok bytes := by
  have hop : ∀ copy, ∀ op ∈ doc.ops,
      ∃ bytes, encodeOp (codepage.getD .CP437) doc.width copy op = .ok bytes := by
    intro copy op hop
    cases op with
    | barcode data type =>
      obtain ⟨bytes, hbytes⟩ := h data type hop
      exact ⟨_, by rw [encodeOp, hbytes, ok_bind]; rfl⟩
    | _ => exact ⟨_, rfl⟩
  have hcopy : ∀ copy ∈ List.range (copiesOf copies),
      ∃ bytes, encodeCopy doc (codepage.getD .CP437) copy = .ok bytes := by
    intro copy _
    obtain ⟨ops, hops⟩ := isOk_mapM (hop copy)
    exact ⟨_, by rw [encodeCopy, hops, ok_bind]; rfl⟩
  obtain ⟨bytes, hbytes⟩ := isOk_mapM hcopy
  exact ⟨_, by rw [encodePrintDoc, hbytes, ok_bind]; rfl⟩

/-- What the streams of copies are to do, and be sent as. -/
theorem encodeCopies_shown {doc : PrintDoc} (hqr : ∀ op ∈ doc.ops, op.QrOk) {page : Codepage}
    {copies : List ℕ} {bytes : List (List UInt8)}
    (h : copies.mapM (encodeCopy doc page) = .ok bytes) :
    ∃ streams : List (List Command), streams.flatten.flatMap Command.bytes = bytes.flatten ∧
      (∀ c ∈ streams.flatten, c.WellFormed) ∧
      List.Forall₂ (fun (copy : ℕ) (cs : List Command) => ∀ p : Printer,
        Ready (p.run cs).1 ∧ (p.run cs).2 = doc.shown page (copy = 0)) copies streams := by
  induction copies generalizing bytes with
  | nil =>
    rw [List.mapM_nil] at h
    rw [← pure_eq_ok.mp h]
    exact ⟨[], rfl, fun c hc => absurd hc List.not_mem_nil, .nil⟩
  | cons copy copies ih =>
    rw [List.mapM_cons] at h
    obtain ⟨b, hb, h⟩ := bind_eq_ok.mp h
    obtain ⟨bs, hbs, h⟩ := bind_eq_ok.mp h
    rw [← pure_eq_ok.mp h]
    obtain ⟨cs, hbytes, hwell, hcs⟩ := encodeCopy_shown hqr hb
    obtain ⟨streams, hbytes', hwell', hstreams⟩ := ih hbs
    refine ⟨cs :: streams, ?_, fun c hc => ?_, .cons hcs hstreams⟩
    · rw [List.flatten_cons, List.flatMap_append, hbytes, hbytes', List.flatten_cons]
    · rw [List.flatten_cons] at hc
      exact (List.mem_append.mp hc).elim (hwell c) (hwell' c)

/-- A receipt with a text, a symbol and a barcode that opens the drawer. -/
def paidReceipt : PrintDoc :=
  ⟨32, [.text (Text.of "Café ₹120p") (some .center) true false (some (.two, .one)), .rule none,
    .qr (Text.of "upi://pay") none, .barcode (Text.of "INV-7") .CODE128, .drawer, .cut]⟩

end StelloKitchens.Printing
