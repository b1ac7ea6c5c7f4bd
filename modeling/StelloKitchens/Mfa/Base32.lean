import Mathlib.Data.Bool.AllAny
import StelloKitchens.Mfa.Totp

/-!
# Secrets in base 32

Both loops shift all that they have read into a word of 32 bits, of which they use the last bits only:
what falls out of the word is never looked at again. The bytes come back from the text, also where it is
spelled in lower case or broken up.

## Main definitions

* `encodeUnbounded`, `decodeUnbounded` — the loops, with a number of any size for the word.
* `Respelled` — a text in other letters, with blanks, dashes or padding between them.

## Main results

* `base32EncodeFrom_eq`, `base32DecodeFrom_eq` — the word does as well as a number of any size.
* `decodeUnbounded_encodeUnbounded` — the bytes come back.
* `base32_secrets` — secrets as text.
-/

namespace StelloKitchens.Mfa

/-! ### Numbers of any size -/

/-- The character for the last five bits. -/
def charOf (value : ℕ) : Char := base32Alphabet.getD (value % 32) 'A'

/-- The characters for all groups of five of the last bits, and how many bits are left. -/
def groupsUnbounded (value : ℕ) : ℕ → List Char × ℕ
  | bits + 5 =>
    let rest := groupsUnbounded value bits
    (charOf (value / 2 ^ bits) :: rest.1, rest.2)
  | bits => ([], bits)

/-- The loop of the encoder, over a number of any size. -/
def encodeUnbounded (value bits : ℕ) : List UInt8 → List Char
  | [] => if 0 < bits then [charOf (value * 2 ^ (5 - bits))] else []
  | byte :: buf =>
    let value := value * 256 + byte.toNat
    let groups := groupsUnbounded value (bits + 8)
    groups.1 ++ encodeUnbounded value groups.2 buf

/-- The loop of the decoder, over a number of any size. -/
def decodeUnbounded (value bits : ℕ) : List Char → Except String (List UInt8)
  | [] => .ok []
  | ch :: rest =>
    match base32Alphabet.findIdx? (· = ch) with
    | none => .error "Invalid base32 character"
    | some idx =>
      let value := value * 32 + idx
      if 8 ≤ bits + 5 then do
        let out ← decodeUnbounded value (bits + 5 - 8) rest
        return UInt8.ofNat (value / 2 ^ (bits + 5 - 8)) :: out
      else decodeUnbounded value (bits + 5) rest

/-! ### Words -/

/-- A word holds the last 32 bits of a number. -/
def Holds (word : UInt32) (value : ℕ) : Prop := word.toNat = value % 2 ^ 32

/-- Bits that are shifted in at the end. -/
theorem shiftLeft_or_mod {k x b : ℕ} (hk : k ≤ 32) (hb : b < 2 ^ k) :
    (x <<< k) % 2 ^ 32 ||| b = (x * 2 ^ k + b) % 2 ^ 32 := by
  have hpow : (2 : ℕ) ^ 32 = 2 ^ (32 - k) * 2 ^ k := by rw [← pow_add, Nat.sub_add_cancel hk]
  have hlow : (x <<< k) % 2 ^ 32 = (x % 2 ^ (32 - k)) <<< k := by
    rw [Nat.shiftLeft_eq, Nat.shiftLeft_eq, hpow, Nat.mul_mod_mul_right]
  have hlt : x % 2 ^ (32 - k) * 2 ^ k + b < 2 ^ 32 := by
    have hmod := Nat.mod_lt x (Nat.two_pow_pos (32 - k))
    rw [hpow]
    calc x % 2 ^ (32 - k) * 2 ^ k + b < (x % 2 ^ (32 - k) + 1) * 2 ^ k := by
          rw [Nat.add_mul, Nat.one_mul]
          exact Nat.add_lt_add_left hb _
      _ ≤ 2 ^ (32 - k) * 2 ^ k := Nat.mul_le_mul_right _ hmod
  rw [hlow, ← Nat.shiftLeft_add_eq_or_of_lt hb, Nat.shiftLeft_eq]
  rw [← Nat.mod_eq_of_lt hlt, hpow, ← Nat.mul_mod_mul_right, Nat.mod_add_mod]

/-- The bits of a number that are within the last 32 are those of the word. -/
theorem div_mod_of_word {v n k : ℕ} (h : n + k ≤ 32) :
    v % 2 ^ 32 / 2 ^ n % 2 ^ k = v / 2 ^ n % 2 ^ k := by
  have hpow : (2 : ℕ) ^ 32 = 2 ^ n * 2 ^ (32 - n) := by
    rw [← pow_add, Nat.add_sub_cancel' (by omega)]
  rw [hpow, Nat.mod_mul_right_div_self, Nat.mod_mod_of_dvd _ (pow_dvd_pow 2 (by omega))]

section Word

variable {word : UInt32} {value : ℕ}

theorem toNat_ofNat_mod {n : ℕ} (hn : n < 32) : (UInt32.ofNat n).toNat % 32 = n := by
  rw [UInt32.toNat_ofNat']
  omega

theorem Holds.shiftRight (h : Holds word value) {n : ℕ} (hn : n < 32) :
    (word >>> UInt32.ofNat n).toNat = value % 2 ^ 32 / 2 ^ n := by
  rw [UInt32.toNat_shiftRight, Nat.shiftRight_eq_div_pow, h, toNat_ofNat_mod hn]

theorem base32Char_eq {word : UInt32} {value : ℕ} (h : word.toNat % 32 = value % 32) :
    base32Char word = charOf value := by
  have hmod : (word % 32).toNat = word.toNat % 32 := rfl
  rw [base32Char, charOf, hmod, h]

/-- A group of five bits of the word is that of the number. -/
theorem Holds.group (h : Holds word value) {n : ℕ} (hn : n + 5 ≤ 32) :
    base32Char (word >>> UInt32.ofNat n) = charOf (value / 2 ^ n) := by
  refine base32Char_eq ?_
  rw [h.shiftRight (by omega)]
  exact div_mod_of_word hn

theorem Holds.groups (h : Holds word value) :
    ∀ bits ≤ 32, base32Groups word bits = groupsUnbounded value bits
  | bits + 5, hbits => by
    rw [base32Groups, groupsUnbounded, h.groups bits (by omega), h.group hbits]
  | 0, _ | 1, _ | 2, _ | 3, _ | 4, _ => rfl

theorem groupsUnbounded_lt : ∀ bits, (groupsUnbounded value bits).2 < 5
  | bits + 5 => groupsUnbounded_lt bits
  | 0 => Nat.zero_lt_succ 4
  | 1 => Nat.succ_lt_succ (Nat.zero_lt_succ 3)
  | 2 => Nat.lt_add_right 2 (Nat.lt_succ_self 2)
  | 3 => Nat.lt_add_right 1 (Nat.lt_succ_self 3)
  | 4 => Nat.lt_succ_self 4

theorem Holds.push (h : Holds word value) (byte : UInt8) :
    Holds (word <<< 8 ||| byte.toUInt32) (value * 256 + byte.toNat) := by
  have hbyte : byte.toNat < 2 ^ 8 := byte.toNat_lt
  have hshift : (8 : UInt32).toNat % 32 = 8 := rfl
  rw [Holds, UInt32.toNat_or, UInt32.toNat_shiftLeft, UInt8.toNat_toUInt32, hshift,
    shiftLeft_or_mod (by omega) hbyte, h]
  omega

theorem Holds.pushDigit (h : Holds word value) {idx : ℕ} (hidx : idx < 32) :
    Holds (word <<< 5 ||| UInt32.ofNat idx) (value * 32 + idx) := by
  have hdigit : (UInt32.ofNat idx).toNat = idx := by
    rw [UInt32.toNat_ofNat']
    omega
  have hshift : (5 : UInt32).toNat % 32 = 5 := rfl
  rw [Holds, UInt32.toNat_or, UInt32.toNat_shiftLeft, hdigit, hshift,
    shiftLeft_or_mod (by omega) hidx, h]
  omega

/-- The last group is filled up with zeros. -/
theorem Holds.last (h : Holds word value) {n : ℕ} (hn : n < 32) :
    base32Char (word <<< UInt32.ofNat n) = charOf (value * 2 ^ n) := by
  refine base32Char_eq ?_
  rw [UInt32.toNat_shiftLeft, toNat_ofNat_mod hn, Nat.shiftLeft_eq, h,
    Nat.mod_mod_of_dvd _ (by decide : 32 ∣ 2 ^ 32), Nat.mul_mod, Nat.mod_mod_of_dvd _ (by decide),
    ← Nat.mul_mod]

/-- A byte of the word is that of the number. -/
theorem Holds.byte (h : Holds word value) {n : ℕ} (hn : n + 8 ≤ 32) :
    (word >>> UInt32.ofNat n).toUInt8 = UInt8.ofNat (value / 2 ^ n) := by
  refine UInt8.toNat_inj.mp ?_
  rw [UInt32.toNat_toUInt8, h.shiftRight (by omega), UInt8.toNat_ofNat']
  exact div_mod_of_word hn

/-- The encoder does in its word what it would do with a number of any size. -/
theorem base32EncodeFrom_eq (h : Holds word value) {bits : ℕ} (hbits : bits < 5) (buf : List UInt8) :
    base32EncodeFrom word bits buf = encodeUnbounded value bits buf := by
  induction buf generalizing word value bits with
  | nil =>
    rw [base32EncodeFrom, encodeUnbounded, h.last (by omega)]
  | cons byte buf ih =>
    rw [base32EncodeFrom, encodeUnbounded]
    rw [(h.push byte).groups (bits + 8) (by omega), ih (h.push byte) (groupsUnbounded_lt _)]

theorem findIdx?_lt {ch : Char} {idx : ℕ} (h : base32Alphabet.findIdx? (· = ch) = some idx) :
    idx < 32 := by
  obtain ⟨hlt, -⟩ := List.findIdx?_eq_some_iff_getElem.mp h
  have hlength : base32Alphabet.length = 32 := by decide
  omega

/-- The decoder does in its word what it would do with a number of any size. -/
theorem base32DecodeFrom_eq (h : Holds word value) {bits : ℕ} (hbits : bits < 8) (chars : List Char) :
    base32DecodeFrom word bits chars = decodeUnbounded value bits chars := by
  induction chars generalizing word value bits with
  | nil => rfl
  | cons ch rest ih =>
    rw [base32DecodeFrom, decodeUnbounded]
    cases hidx : base32Alphabet.findIdx? (· = ch) with
    | none => rfl
    | some idx =>
      have hpush := h.pushDigit (findIdx?_lt hidx)
      dsimp only
      by_cases hfull : 8 ≤ bits + 5
      · rw [if_pos hfull, if_pos hfull, ih hpush (by omega), hpush.byte (by omega)]
      · rw [if_neg hfull, if_neg hfull, ih hpush (by omega)]

end Word

/-! ### The way back -/

theorem findIdx?_charOf (value : ℕ) :
    base32Alphabet.findIdx? (· = charOf value) = some (value % 32) := by
  have hall : ∀ d < 32, base32Alphabet.findIdx? (· = base32Alphabet.getD d 'A') = some d := by
    decide
  exact hall _ (Nat.mod_lt _ (by decide))

section RoundTrip

variable {word : ℕ} {rest : List Char} {buf : List UInt8}

/-- Five more bits make a byte. -/
theorem decodeUnbounded_charOf_full (bits digits : ℕ) {byte : UInt8}
    (hbyte : (word * 32 + digits % 32) / 2 ^ bits % 256 = byte.toNat)
    (hrest : decodeUnbounded (word * 32 + digits % 32) bits rest = .ok buf) :
    decodeUnbounded word (bits + 3) (charOf digits :: rest) = .ok (byte :: buf) := by
  have hofNat : UInt8.ofNat ((word * 32 + digits % 32) / 2 ^ bits) = byte := by
    rw [← UInt8.toNat_inj, UInt8.toNat_ofNat', ← hbyte]
  rw [decodeUnbounded, findIdx?_charOf]
  show (if 8 ≤ bits + 3 + 5 then _ else _) = _
  rw [if_pos (by omega), show bits + 3 + 5 - 8 = bits by omega, hrest, hofNat]
  rfl

/-- Five more bits, and still no byte. -/
theorem decodeUnbounded_charOf (bits digits : ℕ) (hbits : bits < 3)
    (hrest : decodeUnbounded (word * 32 + digits % 32) (bits + 5) rest = .ok buf) :
    decodeUnbounded word bits (charOf digits :: rest) = .ok buf := by
  rw [decodeUnbounded, findIdx?_charOf]
  show (if 8 ≤ bits + 5 then _ else _) = _
  rw [if_neg (by omega), hrest]

end RoundTrip

/-- What is under way between the encoder and the decoder: nothing, or the byte whose first bits the
decoder has and whose last bits the encoder has kept. -/
inductive UnderWay (value word : ℕ) : ℕ → ℕ → List UInt8 → Prop
  | nothing : UnderWay value word 0 0 []
  | byte (kept had : ℕ) (c : UInt8) (hpos : 0 < kept) (hlt : kept < 5) (hsum : kept + had = 8)
      (hc : word % 2 ^ had * 2 ^ kept + value % 2 ^ kept = c.toNat) : UnderWay value word kept had [c]

theorem kept_cases {kept had : ℕ} (hpos : 0 < kept) (hlt : kept < 5) (hsum : kept + had = 8) :
    (kept = 1 ∧ had = 7) ∨ (kept = 2 ∧ had = 6) ∨ (kept = 3 ∧ had = 5) ∨ (kept = 4 ∧ had = 4) := by
  omega

/-- What is under way arrives, and all that follows. -/
theorem decodeUnbounded_encodeUnbounded {value word kept had : ℕ} {pending : List UInt8}
    (h : UnderWay value word kept had pending) (buf : List UInt8) :
    decodeUnbounded word had (encodeUnbounded value kept buf) = .ok (pending ++ buf) := by
  induction buf generalizing value word kept had pending with
  | nil =>
    cases h with
    | nothing => rfl
    | byte _ _ _ hpos hlt hsum hc =>
      rw [encodeUnbounded, if_pos hpos]
      obtain ⟨rfl, rfl⟩ | ⟨rfl, rfl⟩ | ⟨rfl, rfl⟩ | ⟨rfl, rfl⟩ := kept_cases hpos hlt hsum
      · exact decodeUnbounded_charOf_full 4 _ (by norm_num; omega) rfl
      · exact decodeUnbounded_charOf_full 3 _ (by norm_num; omega) rfl
      · exact decodeUnbounded_charOf_full 2 _ (by norm_num; omega) rfl
      · exact decodeUnbounded_charOf_full 1 _ (by norm_num; omega) rfl
  | cons b buf ih =>
    have hb : b.toNat < 256 := b.toNat_lt
    rw [encodeUnbounded]
    cases h with
    | nothing =>
      refine decodeUnbounded_charOf 0 _ (by omega) ?_
      exact ih (.byte 3 5 b (by omega) (by omega) (by omega) (by norm_num; omega))
    | byte _ _ _ hpos hlt hsum hc =>
      obtain ⟨rfl, rfl⟩ | ⟨rfl, rfl⟩ | ⟨rfl, rfl⟩ | ⟨rfl, rfl⟩ := kept_cases hpos hlt hsum
      · refine decodeUnbounded_charOf_full 4 _ (by norm_num; omega) ?_
        exact ih (.byte 4 4 b (by omega) (by omega) (by omega) (by norm_num; omega))
      · refine decodeUnbounded_charOf_full 3 _ (by norm_num; omega) ?_
        refine decodeUnbounded_charOf_full 0 _ (by norm_num; omega) ?_
        exact ih .nothing
      · refine decodeUnbounded_charOf_full 2 _ (by norm_num; omega) ?_
        refine decodeUnbounded_charOf 2 _ (by omega) ?_
        exact ih (.byte 1 7 b (by omega) (by omega) (by omega) (by norm_num; omega))
      · refine decodeUnbounded_charOf_full 1 _ (by norm_num; omega) ?_
        refine decodeUnbounded_charOf 1 _ (by omega) ?_
        exact ih (.byte 2 6 b (by omega) (by omega) (by omega) (by norm_num; omega))

/-! ### Texts as people write them -/

/-- What the decoder passes over. -/
def IsFiller (c : Char) : Prop := isBlank c = true ∨ c = '=' ∨ c = '-'

/-- A text in letters of either case, with blanks, dashes or padding between them. -/
inductive Respelled : List Char → List Char → Prop
  | nil : Respelled [] []
  | letter {c c' : Char} {chars chars' : List Char} (hc : c'.toUpper = c)
      (h : Respelled chars chars') : Respelled (c :: chars) (c' :: chars')
  | filler {f : Char} {chars chars' : List Char} (hf : IsFiller f) (h : Respelled chars chars') :
      Respelled chars (f :: chars')

/-- What the decoder reads of a text. -/
def cleaned (chars : List Char) : List Char :=
  (chars.map Char.toUpper).filter fun c => ¬(isBlank c = true ∨ c = '=' ∨ c = '-')

theorem charOf_mem (value : ℕ) : charOf value ∈ base32Alphabet := by
  have hall : ∀ d < 32, base32Alphabet.getD d 'A' ∈ base32Alphabet := by decide
  exact hall _ (Nat.mod_lt _ (by decide))

theorem mem_groupsUnbounded {value : ℕ} : ∀ bits, ∀ c ∈ (groupsUnbounded value bits).1,
    c ∈ base32Alphabet
  | bits + 5, c, hc => by
    obtain rfl | hc := List.mem_cons.mp hc
    · exact charOf_mem _
    · exact mem_groupsUnbounded bits c hc
  | 0, c, hc | 1, c, hc | 2, c, hc | 3, c, hc | 4, c, hc => absurd hc List.not_mem_nil

theorem mem_encodeUnbounded {value bits : ℕ} (buf : List UInt8) :
    ∀ c ∈ encodeUnbounded value bits buf, c ∈ base32Alphabet := by
  induction buf generalizing value bits with
  | nil =>
    intro c hc
    rw [encodeUnbounded] at hc
    split at hc
    · exact List.mem_singleton.mp hc ▸ charOf_mem _
    · exact absurd hc List.not_mem_nil
  | cons b buf ih =>
    intro c hc
    obtain hc | hc := List.mem_append.mp hc
    · exact mem_groupsUnbounded _ c hc
    · exact ih c hc

theorem not_isFiller_of_mem : ∀ c ∈ base32Alphabet, ¬IsFiller c := by
  unfold IsFiller
  exact List.all_iff_forall_prop.mp (by decide)

/-- Fillers are not letters. -/
theorem toUpper_of_isFiller {f : Char} (hf : IsFiller f) : f.toUpper = f := by
  have hnot : ¬(97 ≤ f.toNat ∧ f.toNat ≤ 122) := by
    obtain hf | rfl | rfl := hf
    · rw [isBlank, Bool.or_eq_true, Bool.and_eq_true, decide_eq_true_iff, decide_eq_true_iff,
        decide_eq_true_iff] at hf
      obtain hf | hf := hf
      · simp only [List.mem_cons, List.not_mem_nil, or_false] at hf
        omega
      · omega
    · decide
    · decide
  exact dif_neg fun h => hnot ⟨h.1, h.2⟩

theorem Respelled.self {chars : List Char} (hchars : ∀ c ∈ chars, c ∈ base32Alphabet) :
    Respelled chars chars := by
  have hupper : ∀ c ∈ base32Alphabet, c.toUpper = c := List.all_iff_forall_prop.mp (by decide)
  induction chars with
  | nil => exact .nil
  | cons c chars ih =>
    exact .letter (hupper c (hchars c List.mem_cons_self))
      (ih fun d hd => hchars d (List.mem_cons_of_mem _ hd))

/-- However a text is written, its letters are read. -/
theorem Respelled.cleaned_eq {chars chars' : List Char} (h : Respelled chars chars')
    (hchars : ∀ c ∈ chars, c ∈ base32Alphabet) : cleaned chars' = chars := by
  induction h with
  | nil => rfl
  | @letter c c' chars chars' hc h ih =>
    have hkept : ¬IsFiller c := not_isFiller_of_mem c (hchars c List.mem_cons_self)
    rw [cleaned, List.map_cons, hc, List.filter_cons_of_pos (by simpa [IsFiller] using hkept)]
    exact congrArg (c :: ·) (ih fun d hd => hchars d (List.mem_cons_of_mem _ hd))
  | filler hf h ih =>
    rw [cleaned, List.map_cons, toUpper_of_isFiller hf,
      List.filter_cons_of_neg (by simpa only [IsFiller, decide_not, Bool.not_eq_true', decide_eq_false_iff_not, not_not] using hf)]
    exact ih hchars

/-- Secrets come back from their text, however it is spelled, and the words in which both loops shift
might be of any size. -/
theorem base32_secrets (b : List UInt8) :
    base32Decode (base32Encode b) = .ok b ∧
    (∀ text : String, Respelled (base32Encode b).toList text.toList → base32Decode text = .ok b) ∧
    base32Encode b = String.ofList (encodeUnbounded 0 0 b) ∧
    ∀ chars, base32DecodeFrom 0 0 chars = decodeUnbounded 0 0 chars := by
  have hholds : Holds 0 0 := rfl
  have hencode : base32EncodeFrom 0 0 b = encodeUnbounded 0 0 b :=
    base32EncodeFrom_eq hholds (by omega) b
  have hdecode (chars) : base32DecodeFrom 0 0 chars = decodeUnbounded 0 0 chars :=
    base32DecodeFrom_eq hholds (by omega) chars
  have hback (text : String) (h : Respelled (base32Encode b).toList text.toList) :
      base32Decode text = .ok b := by
    rw [base32Encode, String.toList_ofList, hencode] at h
    have hclean := h.cleaned_eq (mem_encodeUnbounded b)
    rw [base32Decode, ← cleaned, hclean, hdecode]
    exact decodeUnbounded_encodeUnbounded .nothing b
  refine ⟨hback _ ?_, hback, ?_, hdecode⟩
  · rw [base32Encode, String.toList_ofList, hencode]
    exact .self (mem_encodeUnbounded b)
  · rw [base32Encode, hencode]

/-- Two bytes, in small letters, with a blank, a dash and padding. -/
theorem base32_secrets_respelled : base32Decode "ae a-q==" = .ok [1, 1] :=
  (base32_secrets [1, 1]).2.1 "ae a-q=="
    (.letter rfl (.letter rfl (.filler (.inl rfl) (.letter rfl (.filler (.inr (.inr rfl))
      (.letter rfl (.filler (.inr (.inl rfl)) (.filler (.inr (.inl rfl)) .nil))))))))

end StelloKitchens.Mfa
