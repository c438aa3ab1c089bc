/-
Counts read exactly or not at all.

The size and the offset of a member are counts of bytes. In a text that describes a member, one of them may
be any integer literal, of any length and with or without a minus sign. The main result,
`counts_read_exactly`, says what comes of it if all else fits. A member is read exactly if the literal is
not minus zero and spells an integer that fits in 64 bits; the count is then that integer, is written with
the same digits, and nothing else of the member depends on it. No other literal is read as some other count:
there is an error and no member.

A literal that is too great is no value, so the text around it is described by what stands on both sides of
the place (`Json.Context`). All else fits if the text with some count in the place would present a member.
From there the two halves of the result are the two things that a form can do with a number in the place of
a field: read it (`Json.Form.presents_context`), or be stopped by it (`Json.Form.readStruct_context_error`).
Which of the two it is, is a matter of the literal alone (`Json.IntegerLiteral.isCount_iff`).
-/
import WireRecord.Proofs.Description.Presentation
import WireRecord.Proofs.Json.Context
import WireRecord.Proofs.Json.IntegerLiteral

set_option autoImplicit false

namespace WireRecord

open Json (Context Document IntegerLiteral IsBlanks Number Presents Problem TokenText TokensText Value
  isBlanks_nil tokenText_quote)

namespace Member

/-! ## The counts of a member -/

inductive Count where
  | size
  | offset

def Count.field : Count → MemberField
  | size => .size
  | offset => .offset

def count (m : Member) : Count → Extent
  | .size => m.size
  | .offset => m.offset

/-- The same member with another count. -/
def withCount (m : Member) (k : Count) (e : Extent) : Member :=
  match k with
  | .size => { m with size := e }
  | .offset => { m with offset := e }

@[simp] theorem count_withCount (m : Member) (k : Count) (e : Extent) : (m.withCount k e).count k = e := by
  cases k <;> rfl

@[simp] theorem count_normalized (m : Member) (k : Count) : m.normalized.count k = m.count k := by
  cases k <;> rfl

theorem entry?_value (m : Member) (k : Count) :
    m.value.entry? (form.label k.field) = some (m.count k).value := by
  cases k <;> rfl

theorem fits_withCount (m : Member) (k : Count) (e : Extent) :
    ((m.withCount k e).rule k.field).Fits e.value := by
  cases k <;> rfl

theorem rule_withCount_of_ne {m : Member} {k : Count} {e : Extent} {f : MemberField} (h : f ≠ k.field) :
    (m.withCount k e).rule f = m.rule f := by
  cases k with
  | size =>
    cases f with
    | size => exact absurd rfl h
    | _ => rfl
  | offset =>
    cases f with
    | offset => exact absurd rfl h
    | _ => rfl

theorem exists_problem_of_not_natural (k : Count) {n : Option Number} (h : ∀ e, n ≠ some (.natural e)) :
    ∃ problem, form.read k.field (.number n) = .error problem := by
  have hextent : ∃ problem, Document.readExtent (.number n) = .error problem := by
    rcases n with _ | ⟨e⟩ | magnitude | ⟨negative, magnitude⟩
    · exact ⟨_, rfl⟩
    · exact absurd rfl (h e)
    · exact ⟨_, rfl⟩
    · exact ⟨_, rfl⟩
  cases k <;> exact hextent

/-! ## A literal in the place of a count -/

theorem nodup_fields : form.fields.Nodup := by
  show [MemberField.name, .type, .size, .offset, .byteOrder].Nodup
  decide

section Place

variable {m : Member} {k : Count} {c : Context} {front back : List Char} {l : IntegerLiteral}
  (hplace : form.IsPlace k.field c) (hfits : Presents m.rules (c.value (m.count k).value))
  (hfront : TokensText c.front front) (hback : TokensText c.back back)

include hplace hfits hfront hback

/-- The text of a count gives the member with this count. -/
theorem ofText_of_text_eq {e : Extent} (htext : l.text = e.text.toList) :
    Member.ofText (String.ofList (front ++ (l.text ++ back))) = .ok (m.withCount k e).normalized := by
  have hvalue : l.number.value? = some (.natural e) := IntegerLiteral.value?_eq_natural_iff.mpr htext
  have hpresents : Presents (m.withCount k e).rules (c.value e.value) := by
    apply Json.Form.presents_context labelsDistinct nodup_fields m.readsBy.label
      (m.withCount k e).readsBy.label _ hplace hfits (m.fits_withCount k e)
    intro f hf
    exact rule_withCount_of_ne hf
  have hparsed : (c.value e.value).parsed = c.document (.number (some (.natural e))) := c.parsed_value _
  rw [Member.ofText, c.readText_literal Member.read l.literalText hfront hback, hvalue, ← hparsed]
  exact read_of_presents hpresents

/-- A literal that is the text of no count gives no member. -/
theorem exists_problem_of_text_ne (htext : ∀ e : Extent, l.text ≠ e.text.toList) :
    ∃ problem, Member.ofText (String.ofList (front ++ (l.text ++ back))) = .error problem := by
  have hvalue : ∀ e, l.number.value? ≠ some (.natural e) := by
    intro e he
    exact htext e (IntegerLiteral.value?_eq_natural_iff.mp he)
  obtain ⟨problem, hread⟩ := exists_problem_of_not_natural k hvalue
  refine ⟨problem, ?_⟩
  rw [Member.ofText, c.readText_literal Member.read l.literalText hfront hback]
  exact Json.Form.readStruct_context_error labelsDistinct m.readsBy hplace hfits hread

end Place

end Member

/-- **A count is read exactly or not at all.** Let a text describe a member, in whatever way, but for one of
its counts, in the place of which it has an integer literal. It is read as a member exactly if the literal
is not minus zero and spells an integer that fits in 64 bits without a sign. The count is then this integer,
it is written as the same digits again, and the rest of the member is what it is with any other count. If
the literal is none of these, reading ends with a problem. -/
theorem counts_read_exactly {m : Member} {k : Member.Count} {c : Context}
    (hplace : Member.form.IsPlace k.field c) (hfits : Presents m.rules (c.value (m.count k).value))
    {front back : List Char} (hfront : TokensText c.front front) (hback : TokensText c.back back)
    (l : IntegerLiteral) :
    let answer := Member.ofText (String.ofList (front ++ (l.text ++ back)))
    ((∃ m', answer = .ok m') ↔
      l.text ≠ ['-', '0'] ∧ 0 ≤ l.value ∧ l.value ≤ 2 ^ 64 - 1) ∧
    (∀ m', answer = .ok m' →
      ((m'.count k).val : Int) = l.value ∧
      (m'.value.entry? (Member.form.label k.field)).map Value.text = some (String.ofList l.text) ∧
      m' = (m.withCount k (m'.count k)).normalized) ∧
    (¬ (l.text ≠ ['-', '0'] ∧ 0 ≤ l.value ∧ l.value ≤ 2 ^ 64 - 1) →
      ∃ problem, answer = .error problem) := by
  intro answer
  have hcount : l.IsCount ↔ ∃ e : Extent, l.text = e.text.toList := IntegerLiteral.isCount_iff
  have hok : ∀ e : Extent, l.text = e.text.toList → answer = .ok (m.withCount k e).normalized := by
    intro e htext
    exact Member.ofText_of_text_eq hplace hfits hfront hback htext
  have herror : ¬ l.IsCount → ∃ problem, answer = .error problem := by
    intro hnone
    rw [hcount, not_exists] at hnone
    exact Member.exists_problem_of_text_ne hplace hfits hfront hback hnone
  have hread : ∀ m', answer = .ok m' → l.IsCount := by
    intro m' hanswer
    by_contra hnone
    obtain ⟨problem, hproblem⟩ := herror hnone
    rw [hanswer] at hproblem
    cases hproblem
  refine ⟨⟨?_, ?_⟩, ?_, herror⟩
  · rintro ⟨m', hanswer⟩
    exact hread m' hanswer
  · intro hl
    obtain ⟨e, htext⟩ := hcount.mp hl
    exact ⟨_, hok e htext⟩
  · intro m' hanswer
    obtain ⟨e, htext⟩ := hcount.mp (hread m' hanswer)
    obtain rfl : (m.withCount k e).normalized = m' := by
      rw [hok e htext] at hanswer
      exact Except.ok.inj hanswer
    have hsame : (m.withCount k e).normalized.count k = e := by simp
    refine ⟨?_, ?_, by rw [hsame]⟩
    · rw [hsame, IntegerLiteral.value_eq_of_text_eq htext]
    · rw [Member.entry?_value, hsame, htext, String.ofList_toList]
      rfl

/-! ## At the greatest count -/

def stampMember : Member where
  name := "Id"
  tag := .unsigned .w64
  size := .clamp 8
  offset := .clamp 3

/-- The member as an object with its size left out. -/
def stampContext : Context :=
  .object [("name", .string "Id"), ("type", .string "uint64")] "size" [("offset", (Extent.clamp 3).value)]

def stampFront : String := "\x7b\"name\":\"Id\",\"type\":\"uint64\",\"size\": "

def stampBack : String := " ,\"offset\":3\x7d"

/-- The greatest count. -/
def greatestLiteral : IntegerLiteral where
  negative := false
  digits := "18446744073709551615".toList
  isWhole := ⟨⟨by decide, List.all_eq_true.mp rfl⟩, by intro c rest h; cases h⟩

/-- The first number that is too great. -/
def nextLiteral : IntegerLiteral where
  negative := false
  digits := "18446744073709551616".toList
  isWhole := ⟨⟨by decide, List.all_eq_true.mp rfl⟩, by intro c rest h; cases h⟩

theorem presents_stampContext :
    Presents stampMember.rules (stampContext.value (stampMember.count .size).value) := by
  refine .object fun rule hrule => ?_
  simp only [Member.rules, List.mem_cons, List.not_mem_nil, or_false] at hrule
  rcases hrule with rfl | rfl | rfl | rfl | rfl
  · exact .once rfl rfl
  · exact .once rfl rfl
  · exact .once rfl rfl
  · exact .once rfl rfl
  · exact .leftOut rfl rfl

/-- The greatest count is read, and the number after it is refused. -/
theorem counts_read_exactly_greatest :
    (∃ m', Member.ofText (String.ofList (stampFront.toList ++ (greatestLiteral.text ++ stampBack.toList)))
      = .ok m' ∧ (m'.size.val : Int) = 18446744073709551615) ∧
    ∃ problem, Member.ofText (String.ofList (stampFront.toList ++ (nextLiteral.text ++ stampBack.toList)))
      = .error problem := by
  have hplace : Member.form.IsPlace Member.Count.size.field stampContext := rfl
  have hnone := isBlanks_nil
  have hspace : IsBlanks [' '] := by simp [IsBlanks]
  have hfront : TokensText stampContext.front stampFront.toList :=
    .cons hnone (.mark .objectOpen) <| .cons hnone (tokenText_quote "name") <|
    .cons hnone (.mark .colon) <| .cons hnone (tokenText_quote "Id") <| .cons hnone (.mark .comma) <|
    .cons hnone (tokenText_quote "type") <| .cons hnone (.mark .colon) <|
    .cons hnone (tokenText_quote "uint64") <| .cons hnone (.mark .comma) <|
    .cons hnone (tokenText_quote "size") <| .cons hnone (.mark .colon) <| .nil hspace
  have hoffset : TokenText (.number (some (.natural (.clamp 3)))) ['3'] := .number rfl
  have hback : TokensText stampContext.back stampBack.toList :=
    .cons hspace (.mark .comma) <| .cons hnone (tokenText_quote "offset") <|
    .cons hnone (.mark .colon) <| .cons hnone hoffset <| .cons hnone (.mark .objectClose) <|
    .nil hnone
  have hgreatest : greatestLiteral.text ≠ ['-', '0'] ∧ 0 ≤ greatestLiteral.value ∧
      greatestLiteral.value ≤ 2 ^ 64 - 1 := by decide
  have hnext : ¬ (nextLiteral.text ≠ ['-', '0'] ∧ 0 ≤ nextLiteral.value ∧
      nextLiteral.value ≤ 2 ^ 64 - 1) := by decide
  have hvalue : greatestLiteral.value = 18446744073709551615 := by decide
  obtain ⟨hread, hexact, -⟩ := counts_read_exactly hplace presents_stampContext hfront hback greatestLiteral
  obtain ⟨-, -, hrefused⟩ := counts_read_exactly hplace presents_stampContext hfront hback nextLiteral
  obtain ⟨m', hanswer⟩ := hread.mpr hgreatest
  obtain ⟨hsize, -, -⟩ := hexact m' hanswer
  exact ⟨⟨m', hanswer, hsize.trans hvalue⟩, hrefused hnext⟩

end WireRecord
