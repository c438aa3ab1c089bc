/-
From the characters of a JSON text to its tokens.

One function takes the first token off a text that does not begin with a blank (`firstToken`), and
the tokens of a text are what it takes off again and again, blanks left out (`tokens`). A token that
breaks off takes all that is left with it, so it is always the last one: what comes after the first
fault is never looked at.

## Numbers that end too early

A number needs a digit at its beginning, after its point and in its exponent. Where the text ends
instead, a reader of the value says that the text has ended, but skipping the value takes the end
for a character that is no digit (`cutNumber`).
-/
import WireRecord.Json.StringLiteral

set_option autoImplicit false

namespace WireRecord.Json

/-! ## Words -/

/-- Takes a word off a text. -/
def takeWord : List Char → List Char → Except Fault (List Char)
  | [], text => .ok text
  | _ :: _, [] => .error .ended
  | w :: word, c :: text => if c = w then takeWord word text else .error .malformed

/-- The token of a word of which the first character has been seen. -/
def wordToken (token : Token) (remainder : List Char) (text : List Char) : Token × List Char :=
  match takeWord remainder text with
  | .ok rest => (token, rest)
  | .error fault => (.broken (.both fault), [])

/-! ## Numbers -/

/-- The break of a number where a digit is due and the given text stands. -/
def cutNumber : List Char → Break
  | [] => ⟨.ended, .malformed⟩
  | _ :: _ => .both .malformed

/-- Takes one or more digits off a text. -/
def takeDigits (text : List Char) : Except Break (List Char × List Char) :=
  match text.takeWhile Char.isDigit with
  | [] => .error (cutNumber text)
  | digits => .ok (digits, text.dropWhile Char.isDigit)

/-- Takes the whole digits of a number off a text: a zero alone, or digits that begin with another
one. -/
def takeWhole (text : List Char) : Except Break (List Char × List Char) := do
  let (digits, rest) ← takeDigits text
  match digits with
  | '0' :: _ :: _ => .error (.both .malformed)
  | _ => .ok (digits, rest)

/-- Takes a point and the digits after it off a text that has them. -/
def takeFraction : List Char → Except Break (Option (List Char) × List Char)
  | '.' :: text => do
    let (digits, rest) ← takeDigits text
    return (some digits, rest)
  | text => .ok (none, text)

/-- Takes a sign off a text that has one, and says whether it is a minus sign. -/
def takeSign : List Char → Bool × List Char
  | '-' :: text => (true, text)
  | '+' :: text => (false, text)
  | text => (false, text)

/-- Takes an exponent off a text that has one. -/
def takeExponent : List Char → Except Break (Option ExponentLiteral × List Char)
  | c :: text =>
    if c = 'e' ∨ c = 'E' then do
      let (negative, text) := takeSign text
      let (digits, rest) ← takeDigits text
      return (some ⟨negative, digits⟩, rest)
    else .ok (none, c :: text)
  | [] => .ok (none, [])

/-- Takes the digits of a number, and what follows them, off a text. -/
def takeNumber (negative : Bool) (text : List Char) :
    Except Break (NumberLiteral × List Char) := do
  let (whole, text) ← takeWhole text
  let (fraction, text) ← takeFraction text
  let (exponent, text) ← takeExponent text
  return (⟨negative, whole, fraction, exponent⟩, text)

/-- The token of a number of which a minus sign, if any, has been taken. -/
def numberToken (negative : Bool) (text : List Char) : Token × List Char :=
  match takeNumber negative text with
  | .ok (literal, rest) => (.number literal.value?, rest)
  | .error place => (.broken place, [])

/-! ## Tokens -/

/-- The token of a string from behind its opening quote. -/
def stringToken (text : List Char) : Token × List Char :=
  let scan := scanString text
  (scan.token, scan.outcome.toOption.getD [])

/-- The first token of a text that begins with the given character, which is no blank. -/
def firstToken (first : Char) (text : List Char) : Token × List Char :=
  match Mark.ofChar? first with
  | some mark => (.mark mark, text)
  | none =>
    if first = '"' then stringToken text
    else if first = '-' then numberToken true text
    else if first.isDigit then numberToken false (first :: text)
    else if first = 'n' then wordToken .null ['u', 'l', 'l'] text
    else if first = 't' then wordToken (.bool true) ['r', 'u', 'e'] text
    else if first = 'f' then wordToken (.bool false) ['a', 'l', 's', 'e'] text
    else (.broken (.both .malformed), [])

/-! ## Each token is part of the text -/

theorem length_le_of_takeWord {word text rest : List Char} (h : takeWord word text = .ok rest) :
    rest.length ≤ text.length := by
  fun_induction takeWord word text with
  | case1 => simp_all
  | case2 => simp at h
  | case3 _ _ _ ih => exact Nat.le_succ_of_le (ih h)
  | case4 => simp at h

theorem length_lt_of_takeDigits {text digits rest : List Char}
    (h : takeDigits text = .ok (digits, rest)) : rest.length < text.length := by
  have whole := congrArg List.length (List.takeWhile_append_dropWhile (p := Char.isDigit) (l := text))
  rw [List.length_append] at whole
  unfold takeDigits at h
  split at h
  · simp at h
  · rename_i nonempty
    obtain ⟨rfl, rfl⟩ := Prod.mk.inj (Except.ok.inj h)
    have := List.length_pos_iff.2 nonempty
    omega

theorem length_lt_of_takeWhole {text digits rest : List Char}
    (h : takeWhole text = .ok (digits, rest)) : rest.length < text.length := by
  unfold takeWhole at h
  match taken : takeDigits text with
  | .error place => simp [taken, bind, Except.bind] at h
  | .ok (ds, r) =>
    have shorter := length_lt_of_takeDigits taken
    simp only [taken, bind, Except.bind] at h
    split at h
    · simp at h
    · obtain ⟨rfl, rfl⟩ := Prod.mk.inj (Except.ok.inj h)
      exact shorter

theorem length_le_of_takeFraction {text rest : List Char} {fraction : Option (List Char)}
    (h : takeFraction text = .ok (fraction, rest)) : rest.length ≤ text.length := by
  unfold takeFraction at h
  split at h
  · rename_i tail
    match taken : takeDigits tail with
    | .error place => simp [taken, bind, Except.bind] at h
    | .ok (ds, r) =>
      have shorter := length_lt_of_takeDigits taken
      simp only [taken, bind, Except.bind, pure, Except.pure] at h
      obtain ⟨-, rfl⟩ := Prod.mk.inj (Except.ok.inj h)
      simp only [List.length_cons]
      omega
  · obtain ⟨-, rfl⟩ := Prod.mk.inj (Except.ok.inj h)
    exact Nat.le_refl _

theorem length_le_takeSign (text : List Char) : (takeSign text).2.length ≤ text.length := by
  unfold takeSign
  split <;> simp

theorem length_le_of_takeExponent {text rest : List Char} {exponent : Option ExponentLiteral}
    (h : takeExponent text = .ok (exponent, rest)) : rest.length ≤ text.length := by
  unfold takeExponent at h
  split at h
  · rename_i c tail
    split at h
    · have signed := length_le_takeSign tail
      match taken : takeDigits (takeSign tail).2 with
      | .error place => simp [taken, bind, Except.bind] at h
      | .ok (ds, r) =>
        have shorter := length_lt_of_takeDigits taken
        simp only [taken, bind, Except.bind, pure, Except.pure] at h
        obtain ⟨-, rfl⟩ := Prod.mk.inj (Except.ok.inj h)
        simp only [List.length_cons]
        omega
    · obtain ⟨-, rfl⟩ := Prod.mk.inj (Except.ok.inj h)
      exact Nat.le_refl _
  · obtain ⟨-, rfl⟩ := Prod.mk.inj (Except.ok.inj h)
    exact Nat.le_refl _

theorem length_lt_of_takeNumber {negative : Bool} {text rest : List Char} {literal : NumberLiteral}
    (h : takeNumber negative text = .ok (literal, rest)) : rest.length < text.length := by
  unfold takeNumber at h
  match whole : takeWhole text with
  | .error place => simp [whole, bind, Except.bind] at h
  | .ok (_, afterWhole) =>
    have h1 := length_lt_of_takeWhole whole
    simp only [whole, bind, Except.bind] at h
    match fraction : takeFraction afterWhole with
    | .error place => simp [fraction] at h
    | .ok (_, afterFraction) =>
      have h2 := length_le_of_takeFraction fraction
      simp only [fraction] at h
      match exponent : takeExponent afterFraction with
      | .error place => simp [exponent] at h
      | .ok (_, afterExponent) =>
        have h3 := length_le_of_takeExponent exponent
        simp only [exponent, pure, Except.pure] at h
        obtain ⟨-, rfl⟩ := Prod.mk.inj (Except.ok.inj h)
        omega

theorem length_wordToken_le (token : Token) (word text : List Char) :
    (wordToken token word text).2.length ≤ text.length := by
  unfold wordToken
  split
  · exact length_le_of_takeWord (by assumption)
  · exact Nat.zero_le _

theorem length_numberToken_le (negative : Bool) (text : List Char) :
    (numberToken negative text).2.length ≤ text.length - 1 := by
  unfold numberToken
  split
  · have := length_lt_of_takeNumber (by assumption)
    simp only
    omega
  · exact Nat.zero_le _

theorem length_stringToken_le (text : List Char) :
    (stringToken text).2.length ≤ text.length := by
  unfold stringToken
  match h : (scanString text).outcome with
  | .ok rest => simpa [h, Except.toOption] using Nat.le_of_lt (length_lt_of_scanString h)
  | .error fault => simp [h, Except.toOption]

/-- **Each token takes something off the text**, so that taking tokens comes to an end. -/
theorem length_firstToken_le (first : Char) (text : List Char) :
    (firstToken first text).2.length ≤ text.length := by
  unfold firstToken
  split
  · exact Nat.le_refl _
  · split
    · exact length_stringToken_le text
    · split
      · exact Nat.le_trans (length_numberToken_le true text) (Nat.sub_le _ _)
      · split
        · exact length_numberToken_le false (first :: text)
        · split
          · exact length_wordToken_le _ _ _
          · split
            · exact length_wordToken_le _ _ _
            · split
              · exact length_wordToken_le _ _ _
              · exact Nat.zero_le _

/-- The tokens of a text. -/
def tokens : List Char → List Token
  | [] => []
  | c :: text =>
    if isBlank c then tokens text
    else
      let taken := firstToken c text
      taken.1 :: tokens taken.2
termination_by text => text.length
decreasing_by
  · simp
  · exact Nat.lt_succ_of_le (length_firstToken_le c text)

end WireRecord.Json
