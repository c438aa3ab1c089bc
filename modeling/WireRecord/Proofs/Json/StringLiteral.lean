/-
Strings in JSON texts.

A character can be written in a string in several ways: as it is, by a short escape, by one escaped unit
of 16 bits, or by two of them (`CharText`). The two main results say what becomes of a string whose
characters are written in any of these ways. Up to its closing quote it is read as the string, whatever
follows the quote (`stringToken_text`). Without its closing quote, and cut off anywhere, it is a string
for which the text has ended too early (`stringToken_cut`), also where the cut is in the middle of an
escape or between the two units of one character.

Reading takes two passes: one finds the pieces up to the closing quote, the other puts surrogates
together. Both go character by character, because the pieces of one character are read as that character
whatever pieces follow (`scanString_charText`). A cut inside one character is a matter of few cases
(`scanString_charText_cut`), and what stands before it has been read.
-/
import WireRecord.Json.Value

set_option autoImplicit false

namespace WireRecord.Json

/-! ## The ways to write a character -/

/-- What may stand behind a backslash alone, each with the character that it stands for. -/
def shortEscapes : List (Char × Char) :=
  [('"', '"'), ('\\', '\\'), ('/', '/'), ('b', '\x08'), ('f', '\x0c'), ('n', '\n'), ('r', '\r'),
    ('t', '\t')]

/-- A hexadecimal digit, in lower or upper case. -/
def IsHexDigit (c : Char) (value : Nat) : Prop :=
  value < 16 ∧ (c = Nat.digitChar value ∨ c = (Nat.digitChar value).toUpper)

/-- A number below `2 ^ 16` in four hexadecimal digits. -/
inductive UnitText : Nat → List Char → Prop
  | digits {a b c d : Char} {w x y z : Nat} (ha : IsHexDigit a w) (hb : IsHexDigit b x)
    (hc : IsHexDigit c y) (hd : IsHexDigit d z) :
    UnitText (((w * 16 + x) * 16 + y) * 16 + z) [a, b, c, d]

/-- The first unit of a character beyond 16 bits. -/
def leadingUnit (c : Char) : Nat := 0xD800 + (c.toNat - 0x10000) / 0x400

/-- The second unit of a character beyond 16 bits. -/
def trailingUnit (c : Char) : Nat := 0xDC00 + (c.toNat - 0x10000) % 0x400

/-- The ways to write a character in a string. -/
inductive CharText : Char → List Char → Prop
  | plain {c : Char} (hcontrol : 0x20 ≤ c.toNat) (hquote : c ≠ '"') (hbackslash : c ≠ '\\') :
    CharText c [c]
  | short {e c : Char} (h : (e, c) ∈ shortEscapes) : CharText c ['\\', e]
  | unit {c : Char} {digits : List Char} (h : UnitText c.toNat digits) :
    CharText c ('\\' :: 'u' :: digits)
  | pair {c : Char} {first second : List Char} (hlarge : 0x10000 ≤ c.toNat)
    (hfirst : UnitText (leadingUnit c) first) (hsecond : UnitText (trailingUnit c) second) :
    CharText c ('\\' :: 'u' :: (first ++ '\\' :: 'u' :: second))

/-- The ways to write a string, without its quotes. -/
inductive StringText : List Char → List Char → Prop
  | nil : StringText [] []
  | cons {c : Char} {s text rest : List Char} (hchar : CharText c text) (hrest : StringText s rest) :
    StringText (c :: s) (text ++ rest)

/-- A prefix of two texts ends inside the first, or goes on into the second. -/
theorem prefix_append_cases {α : Type} {p a b : List α} (h : p <+: a ++ b) :
    (p <+: a ∧ p ≠ a) ∨ ∃ q, p = a ++ q ∧ q <+: b := by
  obtain ⟨r, hr⟩ := h
  rcases List.append_eq_append_iff.mp hr with ⟨tail, rfl, -⟩ | ⟨q, rfl, rfl⟩
  · by_cases hend : tail = []
    · exact Or.inr ⟨[], by simp [hend], List.nil_prefix⟩
    · exact Or.inl ⟨List.prefix_append p tail, by simpa using hend⟩
  · exact Or.inr ⟨q, rfl, List.prefix_append q r⟩

/-! ## Digits of a unit -/

theorem hexDigit?_of_isHexDigit {c : Char} {value : Nat} (h : IsHexDigit c value) :
    hexDigit? c = some value := by
  have hdigits : ∀ v < 16, hexDigit? (Nat.digitChar v) = some v ∧
      hexDigit? (Nat.digitChar v).toUpper = some v := by decide
  obtain ⟨hlt, rfl | rfl⟩ := h
  · exact (hdigits value hlt).1
  · exact (hdigits value hlt).2

theorem utf8Size_of_isHexDigit {c : Char} {value : Nat} (h : IsHexDigit c value) :
    c.utf8Size = 1 := by
  have hdigits : ∀ v < 16, (Nat.digitChar v).utf8Size = 1 ∧
      (Nat.digitChar v).toUpper.utf8Size = 1 := by decide
  obtain ⟨hlt, rfl | rfl⟩ := h
  · exact (hdigits value hlt).1
  · exact (hdigits value hlt).2

/-- The digits of a unit are scanned as that unit. -/
theorem scanString_unitText {n : Nat} {digits : List Char} (h : UnitText n digits)
    (rest : List Char) :
    scanString ('\\' :: 'u' :: (digits ++ rest)) = (scanString rest).cons (.unit n) := by
  obtain ⟨ha, hb, hc, hd⟩ := h
  rename_i a b c d w x y z
  have hunit : hexUnit? a b c d = some (((w * 16 + x) * 16 + y) * 16 + z) := by
    simp only [hexUnit?, hexDigit?_of_isHexDigit ha, hexDigit?_of_isHexDigit hb,
      hexDigit?_of_isHexDigit hc, hexDigit?_of_isHexDigit hd]
    rfl
  simp only [List.cons_append, List.nil_append, scanString, hunit]

/-- An escaped unit that breaks off is too short. -/
theorem scanString_unitText_cut {n : Nat} {digits p : List Char} (h : UnitText n digits)
    (hp : p <+: '\\' :: 'u' :: digits) (hne : p ≠ '\\' :: 'u' :: digits) :
    scanString p = .fault .ended := by
  obtain ⟨ha, hb, hc, hd⟩ := h
  rename_i a b c d w x y z
  have ha := utf8Size_of_isHexDigit ha
  have hb := utf8Size_of_isHexDigit hb
  have hc := utf8Size_of_isHexDigit hc
  simp only [List.prefix_cons_iff, List.prefix_nil] at hp
  rcases hp with rfl | ⟨_, rfl, rfl | ⟨_, rfl, rfl | ⟨_, rfl, rfl | ⟨_, rfl, hp⟩⟩⟩⟩
  · rfl
  · rfl
  · rfl
  · simp [scanString, shortUnitFault, ha]
  rcases hp with rfl | ⟨_, rfl, rfl | ⟨_, rfl, rfl⟩⟩
  · simp [scanString, shortUnitFault, ha, hb]
  · simp [scanString, shortUnitFault, ha, hb, hc]
  · exact absurd rfl hne

/-! ## Pieces of a character -/

/-- A character is no surrogate. -/
theorem not_surrogate (c : Char) : isLeading c.toNat = false ∧ isTrailing c.toNat = false := by
  have hvalid : c.toNat < 0xD800 ∨ 0xDFFF < c.toNat ∧ c.toNat < 0x110000 := c.valid
  simp only [isLeading, isTrailing, Bool.and_eq_false_iff, decide_eq_false_iff_not]
  omega

/-- A unit that is no surrogate is a character, whatever comes after it. -/
theorem pair?_unit_cons {n : Nat} (h : isLeading n = false ∧ isTrailing n = false)
    (rest : List Piece) : pair? (.unit n :: rest) = (pair? rest).map (Char.ofNat n :: ·) := by
  rcases rest with _ | ⟨_ | _, rest⟩ <;> simp [pair?, h.1, h.2]

theorem isLeading_leadingUnit {c : Char} (h : 0x10000 ≤ c.toNat) :
    isLeading (leadingUnit c) = true := by
  have hvalid : c.toNat < 0xD800 ∨ 0xDFFF < c.toNat ∧ c.toNat < 0x110000 := c.valid
  rw [isLeading, leadingUnit, Bool.and_eq_true, decide_eq_true_iff, decide_eq_true_iff]
  omega

/-- The two units of a character make up that character. -/
theorem pair?_pair_cons {c : Char} (h : 0x10000 ≤ c.toNat) (rest : List Piece) :
    pair? (.unit (leadingUnit c) :: .unit (trailingUnit c) :: rest) =
      (pair? rest).map (c :: ·) := by
  have htrailing : isTrailing (trailingUnit c) = true := by
    rw [isTrailing, trailingUnit, Bool.and_eq_true, decide_eq_true_iff, decide_eq_true_iff]
    omega
  have hchar : ofPair (leadingUnit c) (trailingUnit c) = c := by
    have hnumber : 0x10000 + (leadingUnit c - 0xD800) * 0x400 + (trailingUnit c - 0xDC00) = c.toNat := by
      simp only [leadingUnit, trailingUnit]
      omega
    rw [ofPair, hnumber, Char.ofNat_toNat]
  rw [pair?, if_pos (isLeading_leadingUnit h), if_pos htrailing, hchar]

/-- A scan with some pieces more at its beginning. -/
def StringScan.prepend (pieces : List Piece) (s : StringScan) : StringScan :=
  { s with pieces := pieces ++ s.pieces }

/-- **A character that was written is scanned as pieces of its own**, whatever is written behind it, and
these are paired as that character, whatever pieces are behind them. -/
theorem scanString_charText {c : Char} {text : List Char} (h : CharText c text) :
    ∃ pieces, (∀ rest, scanString (text ++ rest) = (scanString rest).prepend pieces) ∧
      ∀ more, pair? (pieces ++ more) = (pair? more).map (c :: ·) := by
  cases h with
  | plain hcontrol hquote hbackslash =>
    refine ⟨[.char c], fun rest => ?_, fun more => rfl⟩
    have hplain : isControl c = false := by
      simp only [isControl, decide_eq_false_iff_not]
      omega
    rw [List.singleton_append, scanString.eq_def]
    split <;> simp_all [StringScan.prepend, StringScan.cons]
  | short hshort =>
    refine ⟨[.char c], fun rest => ?_, fun more => rfl⟩
    simp only [shortEscapes, List.mem_cons, List.not_mem_nil, or_false, Prod.mk.injEq] at hshort
    rcases hshort with ⟨rfl, rfl⟩ | ⟨rfl, rfl⟩ | ⟨rfl, rfl⟩ | ⟨rfl, rfl⟩ | ⟨rfl, rfl⟩ | ⟨rfl, rfl⟩ |
      ⟨rfl, rfl⟩ | ⟨rfl, rfl⟩ <;> rfl
  | unit hunit =>
    refine ⟨[.unit c.toNat], fun rest => scanString_unitText hunit rest, fun more => ?_⟩
    rw [List.singleton_append, pair?_unit_cons (not_surrogate c), Char.ofNat_toNat]
  | pair hlarge hfirst hsecond =>
    refine ⟨[.unit (leadingUnit c), .unit (trailingUnit c)], fun rest => ?_,
      fun more => pair?_pair_cons hlarge more⟩
    rw [List.cons_append, List.cons_append, List.append_assoc, scanString_unitText hfirst,
      List.cons_append, List.cons_append, scanString_unitText hsecond]
    rfl

/-- A character that breaks off is too short, and what was scanned of it may become that character. -/
theorem scanString_charText_cut {c : Char} {text p : List Char} (h : CharText c text)
    (hp : p <+: text) (hne : p ≠ text) :
    ∃ pieces, scanString p = ⟨pieces, .error .ended⟩ ∧ isPairedSoFar pieces = true := by
  cases h with
  | plain hcontrol hquote hbackslash =>
    rcases List.prefix_cons_iff.mp hp with rfl | ⟨_, rfl, hnil⟩
    · exact ⟨[], rfl, rfl⟩
    · exact absurd (by rw [List.prefix_nil.mp hnil]) hne
  | short hshort =>
    simp only [List.prefix_cons_iff, List.prefix_nil] at hp
    rcases hp with rfl | ⟨_, rfl, rfl | ⟨_, rfl, rfl⟩⟩
    · exact ⟨[], rfl, rfl⟩
    · exact ⟨[], rfl, rfl⟩
    · exact absurd rfl hne
  | unit hunit => exact ⟨[], scanString_unitText_cut hunit hp hne, rfl⟩
  | @pair _ first second hlarge hfirst hsecond =>
    have hsplit : '\\' :: 'u' :: (first ++ '\\' :: 'u' :: second) =
        ('\\' :: 'u' :: first) ++ '\\' :: 'u' :: second := rfl
    rw [hsplit] at hp hne
    rcases prefix_append_cases hp with ⟨hp, hne⟩ | ⟨q, rfl, hq⟩
    · exact ⟨[], scanString_unitText_cut hfirst hp hne, rfl⟩
    · -- the leading surrogate has been read, and is still waiting for its other half
      have hscan := scanString_unitText_cut hsecond hq fun heq => hne (by rw [heq])
      refine ⟨[.unit (leadingUnit c)], ?_, ?_⟩
      · rw [List.cons_append, List.cons_append, scanString_unitText hfirst, hscan]
        rfl
      · simp [isPairedSoFar, pair?, isLeading_leadingUnit hlarge]

/-- Pieces in front that are a character leave what is behind them as it is. -/
theorem isPairedSoFar_append {c : Char} {pieces more : List Piece}
    (hchar : ∀ rest, pair? (pieces ++ rest) = (pair? rest).map (c :: ·))
    (h : isPairedSoFar more = true) : isPairedSoFar (pieces ++ more) = true := by
  by_cases hnil : more = []
  · have hpieces : pair? (pieces ++ []) = some [c] := hchar []
    rw [hnil, isPairedSoFar, hpieces]
    rfl
  · have hlast : (pieces ++ more).getLast? = more.getLast? := by
      rw [List.getLast?_append, Option.or_of_isSome (List.getLast?_isSome.mpr hnil)]
    rw [isPairedSoFar, hchar, hlast, List.dropLast_append_of_ne_nil hnil, hchar]
    simpa [isPairedSoFar] using h

/-! ## Strings -/

/-- A string is scanned up to its closing quote. -/
theorem scanString_stringText {s text : List Char} (h : StringText s text) (rest : List Char) :
    ∃ pieces, scanString (text ++ '"' :: rest) = ⟨pieces, .ok rest⟩ ∧ pair? pieces = some s := by
  induction h with
  | nil => exact ⟨[], rfl, rfl⟩
  | cons hchar _ ih =>
    obtain ⟨more, hmore, hpaired⟩ := ih
    obtain ⟨pieces, hscan, hpair⟩ := scanString_charText hchar
    refine ⟨pieces ++ more, ?_, ?_⟩
    · rw [List.append_assoc, hscan, hmore]
      rfl
    · rw [hpair, hpaired]
      rfl

/-- A string without its closing quote, and cut off anywhere, is too short. -/
theorem scanString_stringText_cut {s text p : List Char} (h : StringText s text) (hp : p <+: text) :
    ∃ pieces, scanString p = ⟨pieces, .error .ended⟩ ∧ isPairedSoFar pieces = true := by
  induction h generalizing p with
  | nil =>
    rw [List.prefix_nil.mp hp]
    exact ⟨[], rfl, rfl⟩
  | cons hchar _ ih =>
    rcases prefix_append_cases hp with ⟨hp, hne⟩ | ⟨q, rfl, hq⟩
    · exact scanString_charText_cut hchar hp hne
    · obtain ⟨more, hmore, hpaired⟩ := ih hq
      obtain ⟨pieces, hscan, hpair⟩ := scanString_charText hchar
      refine ⟨pieces ++ more, ?_, isPairedSoFar_append hpair hpaired⟩
      rw [hscan, hmore]
      rfl

/-- **A string that was written in any way is read as the string**, whatever follows its closing
quote. -/
theorem stringToken_text {s : String} {text : List Char} (h : StringText s.toList text)
    (rest : List Char) : stringToken (text ++ '"' :: rest) = (.string (some s), rest) := by
  obtain ⟨pieces, hscan, hpaired⟩ := scanString_stringText h rest
  rw [stringToken, hscan]
  simp only [StringScan.token, hpaired, Option.map_some, String.ofList_toList, Except.toOption,
    Option.getD_some]

/-- **A string that is cut off needs more text.** -/
theorem stringToken_cut {s text p : List Char} (h : StringText s text) (hp : p <+: text) :
    stringToken p = (.brokenString (.both .ended), []) := by
  obtain ⟨pieces, hscan, hpaired⟩ := scanString_stringText_cut h hp
  rw [stringToken, hscan]
  simp only [StringScan.token, hpaired, if_true, Except.toOption, Option.getD_none]
  rfl

/-! ## The way that is chosen -/

/-- The characters that are written by a short escape. -/
def shortEscaped : List Char := ['"', '\\', '\x08', '\t', '\n', '\x0c', '\r']

theorem escapeChar_of_not_mem {c : Char} (h : c ∉ shortEscaped) :
    escapeChar c =
      if isControl c then
        ['\\', 'u', '0', '0', Nat.digitChar (c.toNat / 16), Nat.digitChar (c.toNat % 16)]
      else [c] := by
  simp only [shortEscaped, List.mem_cons, List.not_mem_nil, or_false, not_or] at h
  obtain ⟨h1, h2, h3, h4, h5, h6, h7⟩ := h
  rw [escapeChar, if_neg h1, if_neg h2, if_neg h3, if_neg h4, if_neg h5, if_neg h6, if_neg h7]

/-- A character is escaped in one of the ways to write it. -/
theorem charText_escapeChar (c : Char) : CharText c (escapeChar c) := by
  by_cases hshort : c ∈ shortEscaped
  · simp only [shortEscaped, List.mem_cons, List.not_mem_nil, or_false] at hshort
    rcases hshort with rfl | rfl | rfl | rfl | rfl | rfl | rfl <;> exact .short (by decide)
  · rw [escapeChar_of_not_mem hshort]
    by_cases hcontrol : isControl c = true
    · have hlt : c.toNat < 0x20 := of_decide_eq_true hcontrol
      have hzero : IsHexDigit '0' 0 := ⟨by decide, Or.inl rfl⟩
      have hdigits : UnitText (((0 * 16 + 0) * 16 + c.toNat / 16) * 16 + c.toNat % 16)
          ['0', '0', Nat.digitChar (c.toNat / 16), Nat.digitChar (c.toNat % 16)] :=
        .digits hzero hzero ⟨by omega, Or.inl rfl⟩ ⟨by omega, Or.inl rfl⟩
      have hnumber : ((0 * 16 + 0) * 16 + c.toNat / 16) * 16 + c.toNat % 16 = c.toNat := by omega
      rw [if_pos hcontrol]
      rw [hnumber] at hdigits
      exact .unit hdigits
    · have hlarge : 0x20 ≤ c.toNat := by
        simpa [isControl] using hcontrol
      rw [if_neg hcontrol]
      refine .plain hlarge ?_ ?_
      · rintro rfl
        exact hshort (by decide)
      · rintro rfl
        exact hshort (by decide)

theorem stringText_escaped (s : List Char) : StringText s (s.flatMap escapeChar) := by
  induction s with
  | nil => exact .nil
  | cons c s ih => exact .cons (charText_escapeChar c) ih

end WireRecord.Json
