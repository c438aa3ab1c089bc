/-
The types that a member of a record can have.

A type is written as a tag. Nine tags are understood: `string`, and a signed or an unsigned integer
of each of four widths. Any other tag is kept as it is written, so that a type definition can still
name it. Reading a tag therefore always succeeds, and writing the result gives the same text back
(`TypeTag.text_ofText`); reading what was written gives the same tag back except for a tag that was
kept although its spelling is one of the nine (`TypeTag.isStable_iff`).

The tag of an integer is a word for its sign with the digits of its width behind it. It is read that
way: the word is taken off the front, and what is behind it must be one of the four widths.
-/

set_option autoImplicit false

namespace WireRecord

inductive IntWidth where
  | w8
  | w16
  | w32
  | w64
deriving DecidableEq, Repr

namespace IntWidth

def bits : IntWidth → Nat
  | w8 => 8
  | w16 => 16
  | w32 => 32
  | w64 => 64

def bytes : IntWidth → Nat
  | w8 => 1
  | w16 => 2
  | w32 => 4
  | w64 => 8

/-- The width of so many bits, if there is one. -/
def ofBits? : Nat → Option IntWidth
  | 8 => some w8
  | 16 => some w16
  | 32 => some w32
  | 64 => some w64
  | _ => none

/-- The decimal digits of the width in bits. -/
def text (w : IntWidth) : String := Nat.repr w.bits

/-- The width that some digits name, if they name one. -/
def ofText? : String → Option IntWidth
  | "8" => some w8
  | "16" => some w16
  | "32" => some w32
  | "64" => some w64
  | _ => none

@[simp] theorem ofBits?_bits (w : IntWidth) : ofBits? w.bits = some w := by
  cases w <;> rfl

/-- A width is named by its own digits and by nothing else. -/
theorem ofText?_eq_some_iff {s : String} {w : IntWidth} : ofText? s = some w ↔ s = w.text := by
  constructor
  · intro h
    unfold ofText? at h
    split at h
    case h_5 => cases h
    all_goals
      cases h
      rfl
  · rintro rfl
    cases w <;> rfl

end IntWidth

namespace Text

/-- What is behind a word in a text, if the text begins with the word. -/
def behind? (word text : String) : Option String :=
  (word.toList.isPrefixOf? text.toList).map String.ofList

theorem isPrefixOf?_eq_some_iff {word text rest : List Char} :
    word.isPrefixOf? text = some rest ↔ text = word ++ rest := by
  induction word generalizing text with
  | nil =>
    have hall : [].isPrefixOf? text = some text := rfl
    rw [hall, Option.some.injEq, List.nil_append]
  | cons w word ih =>
    cases text with
    | nil =>
      have hnone : (w :: word).isPrefixOf? [] = none := rfl
      simp [hnone]
    | cons c text =>
      have hstep : (w :: word).isPrefixOf? (c :: text) =
          if w == c then word.isPrefixOf? text else none := rfl
      rw [hstep, List.cons_append, List.cons.injEq, ← ih]
      by_cases h : w = c
      · simp [h]
      · simp [h, Ne.symm h]

/-- Taking a word off a text takes nothing else. -/
theorem behind?_eq_some_iff {word text rest : String} :
    behind? word text = some rest ↔ text = word ++ rest := by
  rw [behind?, Option.map_eq_some_iff, ← String.toList_inj, String.toList_append]
  constructor
  · rintro ⟨chars, hchars, rfl⟩
    rw [String.toList_ofList]
    exact isPrefixOf?_eq_some_iff.mp hchars
  · intro h
    exact ⟨rest.toList, isPrefixOf?_eq_some_iff.mpr h, String.ofList_toList⟩

end Text

inductive TypeTag where
  | unsigned (width : IntWidth)
  | signed (width : IntWidth)
  | string
  /-- A type that is not understood, kept as it is written. -/
  | other (text : String)
deriving DecidableEq, Repr

namespace TypeTag

/-- The integer that a text spells, if it spells one. A text with the word for an unsigned integer is
not tried as a signed one. -/
def integer? (s : String) : Option TypeTag :=
  match Text.behind? "uint" s with
  | some digits => (IntWidth.ofText? digits).map .unsigned
  | none => (Text.behind? "int" s).bind fun digits => (IntWidth.ofText? digits).map .signed

/-- The tag that a text spells. -/
def ofText (s : String) : TypeTag :=
  if s = "string" then .string else (integer? s).getD (.other s)

def text : TypeTag → String
  | unsigned width => "uint" ++ width.text
  | signed width => "int" ++ width.text
  | string => "string"
  | other text => text

def isInteger : TypeTag → Bool
  | unsigned _ | signed _ => true
  | string | other _ => false

/-- Whether reading the text of a tag gives the tag back. Only a tag that was kept although it is
understood is not stable. -/
def isStable (t : TypeTag) : Bool := ofText t.text = t

/-- **An integer is spelled by its own text and by nothing else.** -/
theorem integer?_eq_some_iff {s : String} {t : TypeTag} :
    integer? s = some t ↔ t.isInteger = true ∧ s = t.text := by
  unfold integer?
  constructor
  · intro h
    split at h
    · next digits hdigits =>
      obtain ⟨w, hw, rfl⟩ := Option.map_eq_some_iff.mp h
      rw [Text.behind?_eq_some_iff.mp hdigits, IntWidth.ofText?_eq_some_iff.mp hw]
      exact ⟨rfl, rfl⟩
    · obtain ⟨digits, hdigits, hread⟩ := Option.bind_eq_some_iff.mp h
      obtain ⟨w, hw, rfl⟩ := Option.map_eq_some_iff.mp hread
      rw [Text.behind?_eq_some_iff.mp hdigits, IntWidth.ofText?_eq_some_iff.mp hw]
      exact ⟨rfl, rfl⟩
  · rintro ⟨hinteger, rfl⟩
    cases t with
    | unsigned w =>
      have hword : Text.behind? "uint" (unsigned w).text = some w.text :=
        Text.behind?_eq_some_iff.mpr rfl
      have hwidth : IntWidth.ofText? w.text = some w := IntWidth.ofText?_eq_some_iff.mpr rfl
      simp only [hword, hwidth, Option.map_some]
    | signed w =>
      have hnone : Text.behind? "uint" (signed w).text = none := by
        rw [Option.eq_none_iff_forall_ne_some]
        intro rest hrest
        -- the first characters differ
        have hfirst := congrArg String.toList (Text.behind?_eq_some_iff.mp hrest)
        simp [text] at hfirst
      have hword : Text.behind? "int" (signed w).text = some w.text :=
        Text.behind?_eq_some_iff.mpr rfl
      have hwidth : IntWidth.ofText? w.text = some w := IntWidth.ofText?_eq_some_iff.mpr rfl
      simp only [hnone, hword, hwidth, Option.bind_some, Option.map_some]
    | string => cases hinteger
    | other kept => cases hinteger

/-- **Reading a tag loses nothing.** What a text spells is written as that text. -/
@[simp] theorem text_ofText (s : String) : (ofText s).text = s := by
  unfold ofText
  split
  · next h => exact h.symm
  · cases h : integer? s with
    | none => rfl
    | some t => exact (integer?_eq_some_iff.mp h).2.symm

/-- A tag that is understood is read back from its text. -/
theorem ofText_text_of_isInteger {t : TypeTag} (h : t.isInteger = true) : ofText t.text = t := by
  have hread : integer? t.text = some t := integer?_eq_some_iff.mpr ⟨h, rfl⟩
  have hstring : t.text ≠ "string" := by
    intro heq
    rw [heq] at hread
    cases hread
  rw [ofText, if_neg hstring, hread, Option.getD_some]

/-- What is read is stable. -/
@[simp] theorem isStable_ofText (s : String) : (ofText s).isStable = true := by
  simp [isStable]

/-! ## Tags that were kept although they are understood -/

/-- The nine texts that are understood. -/
def spellings : List String :=
  ["string", "uint8", "uint16", "uint32", "uint64", "int8", "int16", "int32", "int64"]

/-- A tag as it is read from its own text. -/
def normalized (t : TypeTag) : TypeTag := ofText t.text

/-- The text of an integer is one that is understood. -/
theorem text_mem_spellings {t : TypeTag} (h : t.isInteger = true) : t.text ∈ spellings := by
  cases t with
  | unsigned w => cases w <;> decide
  | signed w => cases w <;> decide
  | string => cases h
  | other kept => cases h

/-- A text that is not understood is kept. -/
theorem ofText_of_not_mem {s : String} (h : s ∉ spellings) : ofText s = .other s := by
  have hstring : s ≠ "string" := by
    rintro rfl
    exact h (by decide)
  have hinteger : integer? s = none := by
    rw [Option.eq_none_iff_forall_ne_some]
    intro t ht
    obtain ⟨hinteger, rfl⟩ := integer?_eq_some_iff.mp ht
    exact h (text_mem_spellings hinteger)
  rw [ofText, if_neg hstring, hinteger, Option.getD_none]

/-- A text that is understood is not kept. -/
theorem ofText_ne_other_of_mem {s : String} (h : s ∈ spellings) : ofText s ≠ .other s := by
  simp only [spellings, List.mem_cons, List.not_mem_nil, or_false] at h
  rcases h with rfl | rfl | rfl | rfl | rfl | rfl | rfl | rfl | rfl <;> decide

/-- A tag is stable if it is read back as itself. -/
theorem isStable_iff_normalized_eq {t : TypeTag} : t.isStable = true ↔ t.normalized = t :=
  decide_eq_true_iff

/-- **A tag is stable unless it was kept although it is understood.** -/
theorem isStable_iff {t : TypeTag} : t.isStable = true ↔ ∀ s ∈ spellings, t ≠ .other s := by
  rw [isStable_iff_normalized_eq]
  cases t with
  | unsigned width => simp [normalized, ofText_text_of_isInteger (t := .unsigned width) rfl]
  | signed width => simp [normalized, ofText_text_of_isInteger (t := .signed width) rfl]
  | string => simp [normalized, text, ofText]
  | other text =>
    simp only [normalized, TypeTag.text, ne_eq, other.injEq]
    constructor
    · rintro h s hs rfl
      exact ofText_ne_other_of_mem hs h
    · intro h
      exact ofText_of_not_mem fun hmem => h text hmem rfl

@[simp] theorem text_normalized (t : TypeTag) : t.normalized.text = t.text := text_ofText t.text

end TypeTag

end WireRecord
