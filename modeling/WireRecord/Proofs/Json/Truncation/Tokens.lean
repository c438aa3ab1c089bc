/-
Tokens of texts that are cut off.

A text that is cut off may end inside a token, behind one, or between blanks. Whatever it is, its tokens
are those of the whole text up to some place, and the last of them may be one that breaks off
(`cutTokens_of_isPrefix`). A word or a string that is cut off is found too short. Only a number that is
cut off may look like another number; a number in a text that was written is a count of bytes, so what is
left of it is a count as well. That no other numbers occur is assumed, because a fraction that is cut off
behind its point would be no number at all.

Tokens are cut in the order in which they are read, so the lemmas at the end say how a cut falls into one
of two parts.
-/
import WireRecord.Proofs.Json.Lexing

set_option autoImplicit false

namespace WireRecord.Json

/-! ## Tokens that are cut off -/

/-- Whether a token is no number but a count of bytes. -/
def Token.CountsOnly (t : Token) : Prop := ∀ n, t = .number n → ∃ e, n = some (.natural e)

/-- What may be left of a token that is cut off. -/
inductive Token.Cut : Token → Token → Prop
  | null : Cut (.broken (.both .ended)) .null
  | bool (b : Bool) : Cut (.broken (.both .ended)) (.bool b)
  | string (s : Option String) : Cut (.brokenString (.both .ended)) (.string s)
  | number (e whole : Extent) : Cut (.number (some (.natural e))) (.number (some (.natural whole)))

/-- What may be left of tokens: those up to some place, and perhaps a part of the next. -/
inductive CutTokens : List Token → List Token → Prop
  | between (ts : List Token) : CutTokens [] ts
  | inside {t u : Token} (h : t.Cut u) (us : List Token) : CutTokens [t] (u :: us)
  | cons {ts us : List Token} (t : Token) (h : CutTokens ts us) : CutTokens (t :: ts) (t :: us)

/-- A word that is cut off is too short. -/
theorem takeWord_cut {word q : List Char} (hq : q <+: word) (hne : q ≠ word) :
    takeWord word q = .error .ended := by
  induction word generalizing q with
  | nil => exact absurd (List.prefix_nil.mp hq) hne
  | cons w word ih =>
    rcases List.prefix_cons_iff.mp hq with rfl | ⟨tail, rfl, htail⟩
    · rfl
    · rw [takeWord, if_pos rfl]
      refine ih htail ?_
      rintro rfl
      exact hne rfl

theorem wordToken_cut {word q : List Char} (t : Token) (hq : q <+: word) (hne : q ≠ word) :
    wordToken t word q = (.broken (.both .ended), []) := by
  rw [wordToken, takeWord_cut hq hne]

/-- **A token that is cut off is the only one left.** -/
theorem tokens_tokenText_cut {t : Token} {text p : List Char} (h : TokenText t text)
    (hcounts : t.CountsOnly) (hp : p <+: text) (hne : p ≠ text) (hnil : p ≠ []) :
    ∃ left, tokens p = [left] ∧ left.Cut t := by
  have hcons : ∀ {c : Char} {tail : List Char}, text = c :: tail →
      ∃ q, p = c :: q ∧ q <+: tail ∧ q ≠ tail := by
    rintro c tail rfl
    obtain ⟨q, rfl, hq⟩ := (List.prefix_cons_iff.mp hp).resolve_left hnil
    refine ⟨q, rfl, hq, ?_⟩
    rintro rfl
    exact hne rfl
  -- words and strings take with them what is left of the text
  have hlast : ∀ {c : Char} {tail : List Char} {left : Token}, isBlank c = false →
      firstToken c tail = (left, []) → tokens (c :: tail) = [left] := by
    intro c tail left hblank hfirst
    rw [tokens_cons hblank, hfirst, tokens_nil]
  cases h with
  | mark m =>
    obtain ⟨q, -, hq, hne⟩ := hcons rfl
    exact absurd (List.prefix_nil.mp hq) hne
  | null =>
    obtain ⟨q, rfl, hq, hne⟩ := hcons rfl
    exact ⟨_, hlast rfl (wordToken_cut .null hq hne), .null⟩
  | true =>
    obtain ⟨q, rfl, hq, hne⟩ := hcons rfl
    exact ⟨_, hlast rfl (wordToken_cut (.bool true) hq hne), .bool true⟩
  | false =>
    obtain ⟨q, rfl, hq, hne⟩ := hcons rfl
    exact ⟨_, hlast rfl (wordToken_cut (.bool false) hq hne), .bool false⟩
  | @string s text h =>
    obtain ⟨q, rfl, hq, hne⟩ := hcons rfl
    have hinside : q <+: text := (List.prefix_concat_iff.mp hq).resolve_left hne
    have hfirst : firstToken '"' q = stringToken q := rfl
    exact ⟨_, hlast rfl (hfirst.trans (stringToken_cut h hinside)), .string _⟩
  | number h =>
    obtain ⟨whole, hwhole⟩ := hcounts _ rfl
    obtain rfl := Option.some.inj hwhole
    have hdigits : text = whole.text.toList := h
    rw [hdigits] at hp
    -- the digits that are left are those of another count
    obtain ⟨e, rfl⟩ := Extent.exists_text_of_isPrefix hp hnil
    obtain ⟨l, hliteral, hvalue⟩ := exists_literalText_extent e
    have hend := tokens_literalText hliteral endsNumber_nil
    rw [List.append_nil, hvalue, tokens_nil] at hend
    exact ⟨_, hend, .number e whole⟩

/-- **A text of tokens that is cut off** has the tokens up to some place, and perhaps a part of the
next. -/
theorem cutTokens_of_isPrefix {ts : List Token} {text p : List Char} (h : TokensText ts text)
    (hparted : Parted ts) (hcounts : ∀ t ∈ ts, t.CountsOnly) (hp : p <+: text) :
    CutTokens (tokens p) ts := by
  have hblank : ∀ {q blanks : List Char}, IsBlanks blanks → q <+: blanks → tokens q = [] := by
    intro q blanks hblanks hq
    have hnone := tokens_blanks (fun c hc => hblanks c (hq.subset hc)) []
    rwa [List.append_nil, tokens_nil] at hnone
  induction h generalizing p with
  | nil hblanks =>
    rw [hblank hblanks hp]
    exact .between []
  | @cons t ts blanks text rest hblanks htoken hrest ih =>
    -- the cut is in the blanks, in the token, or behind it
    rcases prefix_append_cases hp with ⟨hp, -⟩ | ⟨q, rfl, hq⟩
    · rw [hblank hblanks hp]
      exact .between _
    rw [tokens_blanks hblanks]
    obtain ⟨hcount, hcounts⟩ := List.forall_mem_cons.mp hcounts
    rcases prefix_append_cases hq with ⟨hinside, hne⟩ | ⟨tail, rfl, htail⟩
    · by_cases hnil : q = []
      · rw [hnil, tokens_nil]
        exact .between _
      · obtain ⟨left, hleft, hcut⟩ := tokens_tokenText_cut htoken hcount hinside hne hnil
        rw [hleft]
        exact .inside hcut ts
    · have hends : (∀ m, t ≠ .mark m) → EndsNumber tail := fun ht =>
        (hrest.endsNumber (hparted.head?_tail ht)).of_isPrefix htail
      rw [tokens_tokenText htoken hends]
      exact .cons t (ih hparted.tail hcounts htail)

/-! ## Tokens of which some are cut off -/

/-- A mark is a single character, so nothing is left of it when it is cut off. -/
theorem CutTokens.mark_cons {ts us : List Token} {m : Mark} (h : CutTokens ts (.mark m :: us)) :
    ts = [] ∨ ∃ rest, ts = .mark m :: rest ∧ CutTokens rest us := by
  cases h with
  | between => exact Or.inl rfl
  | inside h => cases h
  | cons _ h => exact Or.inr ⟨_, rfl, h⟩

/-- Tokens are cut in the first part, or go on into the second. -/
theorem CutTokens.append_cases {ts us vs : List Token} (h : CutTokens ts (us ++ vs)) :
    CutTokens ts us ∨ ∃ rest, ts = us ++ rest ∧ CutTokens rest vs := by
  induction us generalizing ts with
  | nil => exact Or.inr ⟨ts, rfl, h⟩
  | cons u us ih =>
    cases h with
    | between => exact Or.inl (.between _)
    | inside h => exact Or.inl (.inside h us)
    | cons _ h =>
      rcases ih h with hfirst | ⟨rest, rfl, hrest⟩
      · exact Or.inl (.cons u hfirst)
      · exact Or.inr ⟨rest, rfl, hrest⟩

theorem CutTokens.refl (ts : List Token) : CutTokens ts ts := by
  induction ts with
  | nil => exact .between []
  | cons t ts ih => exact .cons t ih

/-- Tokens with a mark at their end are whole, or are cut in front of it. -/
theorem CutTokens.append_mark {ts us : List Token} {m : Mark} (h : CutTokens ts (us ++ [.mark m])) :
    CutTokens ts us ∨ ts = us ++ [.mark m] := by
  rcases h.append_cases with hfirst | ⟨rest, rfl, hrest⟩
  · exact Or.inl hfirst
  · rcases hrest.mark_cons with rfl | ⟨more, rfl, hmore⟩
    · rw [List.append_nil]
      exact Or.inl (.refl us)
    · cases hmore
      exact Or.inr rfl

end WireRecord.Json
