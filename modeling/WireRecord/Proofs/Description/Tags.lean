/-
Type tags read from their texts.

Every text is read as a tag, so what there is to say is which one. The main result, `tags_read_exactly`,
says that the nine spellings are understood and no other text is: a letter in another case, a zero in
front of the width, or anything before, between or behind makes it a text that is kept. Nothing is lost by
reading, because the text that is written for the result is the text that was read. The other way round
something may be lost: a tag that was kept with one of the nine spellings is understood when it is read
back. Nothing more is lost after that.

All of it comes down to one equation. A text is read as a tag exactly if it is the text of the tag and the
tag is stable (`ofText_eq_iff`), and only tags that were kept although they are understood are not stable.
-/
import WireRecord.TypeTag

set_option autoImplicit false

namespace WireRecord

namespace TypeTag

/-- **A text is read as the stable tag whose text it is.** -/
theorem ofText_eq_iff {s : String} {t : TypeTag} : ofText s = t ↔ s = t.text ∧ t.isStable = true := by
  constructor
  · rintro rfl
    exact ⟨(text_ofText s).symm, isStable_ofText s⟩
  · rintro ⟨rfl, hstable⟩
    exact isStable_iff_normalized_eq.mp hstable

/-- A tag that is understood is stable. -/
theorem isStable_of_ne_other {t : TypeTag} (h : ∀ kept, t ≠ .other kept) : t.isStable = true :=
  isStable_iff.mpr fun s _ => h s

/-- A tag that was kept is stable unless its text is one of the nine. -/
theorem isStable_other_iff {kept : String} : (other kept).isStable = true ↔ kept ∉ spellings := by
  rw [isStable_iff]
  constructor
  · intro h hmem
    exact h kept hmem rfl
  · rintro h s hs heq
    rw [TypeTag.other.inj heq] at h
    exact h hs

/-- The nine spellings are `string` and the texts of the integers. -/
theorem mem_spellings_iff {s : String} :
    s ∈ spellings ↔ s = "string" ∨ ∃ w : IntWidth, s = "uint" ++ w.text ∨ s = "int" ++ w.text := by
  constructor
  · intro h
    -- what is understood is not kept, so it is read as one of the other tags
    have hread : (ofText s).text = s := text_ofText s
    cases ht : ofText s with
    | unsigned w =>
      rw [ht] at hread
      exact Or.inr ⟨w, Or.inl hread.symm⟩
    | signed w =>
      rw [ht] at hread
      exact Or.inr ⟨w, Or.inr hread.symm⟩
    | string =>
      rw [ht] at hread
      exact Or.inl hread.symm
    | other kept =>
      obtain ⟨rfl, hstable⟩ := ofText_eq_iff.mp ht
      exact absurd h (isStable_other_iff.mp hstable)
  · rintro (rfl | ⟨w, rfl | rfl⟩)
    · decide
    · exact text_mem_spellings (t := .unsigned w) rfl
    · exact text_mem_spellings (t := .signed w) rfl

end TypeTag

/-- **Tags are read exactly as they are spelled, and nothing is lost.** A text is read as an unsigned or a
signed integer exactly if it is `uint` or `int` with the decimal digits of the width behind it, as a string
exactly if it is `string`, and in every other case it is kept; whatever it is read as, it is written as
the same text. A tag is read back from its own text unless it was kept with one of the nine spellings, and
what is read back is then read back as itself. -/
theorem tags_read_exactly :
    (∀ s : String,
      (TypeTag.ofText s).text = s ∧
      (∀ w : IntWidth, TypeTag.ofText s = .unsigned w ↔ s = "uint" ++ Nat.repr w.bits) ∧
      (∀ w : IntWidth, TypeTag.ofText s = .signed w ↔ s = "int" ++ Nat.repr w.bits) ∧
      (TypeTag.ofText s = .string ↔ s = "string") ∧
      ∀ kept : String, TypeTag.ofText s = .other kept ↔ kept = s ∧ s ≠ "string" ∧
        ∀ w : IntWidth, s ≠ "uint" ++ Nat.repr w.bits ∧ s ≠ "int" ++ Nat.repr w.bits) ∧
    ∀ t : TypeTag,
      (TypeTag.ofText t.text = t ↔ ¬∃ s ∈ TypeTag.spellings, t = .other s) ∧
      TypeTag.ofText (TypeTag.ofText t.text).text = TypeTag.ofText t.text := by
  have hunderstood : ∀ {s : String} {t : TypeTag}, (∀ kept, t ≠ .other kept) →
      (TypeTag.ofText s = t ↔ s = t.text) := by
    intro s t ht
    rw [TypeTag.ofText_eq_iff, TypeTag.isStable_of_ne_other ht, and_iff_left rfl]
  refine ⟨fun s => ⟨TypeTag.text_ofText s, ?_, ?_, ?_, ?_⟩, fun t => ⟨?_, ?_⟩⟩
  · intro w
    exact hunderstood fun kept => by simp
  · intro w
    exact hunderstood fun kept => by simp
  · exact hunderstood fun kept => by simp
  · intro kept
    have hkept : s ∉ TypeTag.spellings ↔ s ≠ "string" ∧
        ∀ w : IntWidth, s ≠ "uint" ++ Nat.repr w.bits ∧ s ≠ "int" ++ Nat.repr w.bits := by
      rw [TypeTag.mem_spellings_iff]
      simp only [IntWidth.text, not_or, not_exists]
    rw [TypeTag.ofText_eq_iff, TypeTag.isStable_other_iff, ← hkept]
    constructor
    · rintro ⟨rfl, h⟩
      exact ⟨rfl, h⟩
    · rintro ⟨rfl, h⟩
      exact ⟨rfl, h⟩
  · rw [TypeTag.ofText_eq_iff, and_iff_right rfl, TypeTag.isStable_iff]
    simp only [not_exists, not_and]
  · rw [TypeTag.text_ofText]

example : ["Uint8", "uint08", " uint8", "uint8 ", "uint", "int128", "uuint8", "String"].map TypeTag.ofText =
    ["Uint8", "uint08", " uint8", "uint8 ", "uint", "int128", "uuint8", "String"].map .other := by
  decide

end WireRecord
