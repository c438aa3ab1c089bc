/-
The texts of a JSON value, and their tokens.

A value has many texts: its strings may be escaped in several ways, some of its numbers have several
literals, and blanks may stand before, behind and between its tokens (`ValueText`). The main result,
`tokens_of_tokensText`, says that all of them have the same tokens, those of the document that the value
is read as (`Value.parsed`, `Document.tokens`). Numbers are what makes it delicate: a number has no mark
of its own at its end, so without a blank behind it, what follows must not go on with a number. In the
tokens of a document that cannot happen, because of two tokens next to each other at least one is a mark
(`parted_tokens`).

A text that was written is one of the texts of its value (`valueText_text`). So this module is about
characters, and the reading of documents is about tokens alone.
-/
import WireRecord.Json.Value
import WireRecord.Proofs.Json.StringLiteral
import WireRecord.Proofs.Json.NumberLiteral
import Mathlib.Data.List.Chain
import Mathlib.Data.List.Forall2

set_option autoImplicit false

namespace WireRecord.Json

/-! ## The ways to write a token -/

def Mark.char : Mark → Char
  | arrayOpen => '['
  | arrayClose => ']'
  | objectOpen => '\x7b'
  | objectClose => '\x7d'
  | comma => ','
  | colon => ':'

/-- The ways to write a token. -/
inductive TokenText : Token → List Char → Prop
  | mark (m : Mark) : TokenText (.mark m) [m.char]
  | null : TokenText .null ['n', 'u', 'l', 'l']
  | true : TokenText (.bool true) ['t', 'r', 'u', 'e']
  | false : TokenText (.bool false) ['f', 'a', 'l', 's', 'e']
  | number {n : Number} {text : List Char} (h : n.IsText text) : TokenText (.number (some n)) text
  | string {s : String} {text : List Char} (h : StringText s.toList text) :
    TokenText (.string (some s)) ('"' :: (text ++ ['"']))

/-- Any number of blanks. -/
def IsBlanks (text : List Char) : Prop := ∀ c ∈ text, c ∈ [' ', '\t', '\n', '\r']

theorem isBlanks_nil : IsBlanks [] := by
  intro c hc
  cases hc

/-- The ways to write tokens, with blanks before, between and behind them. -/
inductive TokensText : List Token → List Char → Prop
  | nil {blanks : List Char} (hblanks : IsBlanks blanks) : TokensText [] blanks
  | cons {t : Token} {ts : List Token} {blanks text rest : List Char} (hblanks : IsBlanks blanks)
    (htoken : TokenText t text) (hrest : TokensText ts rest) :
    TokensText (t :: ts) (blanks ++ (text ++ rest))

/-! ## One token -/

theorem tokens_nil : tokens [] = [] := by rw [tokens]

theorem tokens_cons {c : Char} (h : isBlank c = false) (text : List Char) :
    tokens (c :: text) = (firstToken c text).1 :: tokens (firstToken c text).2 := by
  rw [tokens, if_neg (by simp [h])]

/-- Blanks are no tokens. -/
theorem tokens_blanks {blanks : List Char} (h : IsBlanks blanks) (text : List Char) :
    tokens (blanks ++ text) = tokens text := by
  induction blanks with
  | nil => rfl
  | cons c blanks ih =>
    have hblank : isBlank c = true := by
      have hc := h c List.mem_cons_self
      simpa [isBlank, or_assoc] using hc
    rw [List.cons_append, tokens, if_pos hblank]
    exact ih fun d hd => h d (List.mem_cons_of_mem c hd)

/-- A digit begins a number. -/
theorem firstToken_digit {c : Char} (h : c.isDigit = true) (text : List Char) :
    firstToken c text = numberToken false (c :: text) := by
  have hmark : Mark.ofChar? c = none := by
    unfold Mark.ofChar?
    split
    case h_7 => rfl
    all_goals cases h
  have hquote : c ≠ '"' := by
    rintro rfl
    cases h
  have hminus : c ≠ '-' := by
    rintro rfl
    cases h
  rw [firstToken, hmark]
  simp only [if_neg hquote, if_neg hminus, if_pos h]

theorem isBlank_of_isDigit {c : Char} (h : c.isDigit = true) : isBlank c = false := by
  by_contra hblank
  simp only [isBlank, Bool.not_eq_false, Bool.or_eq_true, decide_eq_true_eq] at hblank
  rcases hblank with ((rfl | rfl) | rfl) | rfl <;> cases h

/-- A number literal is one token. -/
theorem tokens_literalText {l : NumberLiteral} {text rest : List Char} (h : LiteralText l text)
    (hrest : EndsNumber rest) : tokens (text ++ rest) = .number l.value? :: tokens rest := by
  obtain ⟨hsign, hmagnitude⟩ | ⟨hsign, hmagnitude⟩ := h
  · have htoken := numberToken_text hmagnitude hrest
    obtain ⟨hwhole, -, -⟩ := hmagnitude
    rename_i fraction exponent
    obtain ⟨c, tail, hdigits⟩ := List.exists_cons_of_ne_nil hwhole.ne_nil
    have hdigit : c.isDigit = true := hwhole.isDigit c (by rw [hdigits]; exact List.mem_cons_self)
    rw [hsign, hdigits] at htoken
    rw [hdigits]
    simp only [List.cons_append] at htoken ⊢
    rw [tokens_cons (isBlank_of_isDigit hdigit), firstToken_digit hdigit, htoken]
  · have htoken := numberToken_text hmagnitude hrest
    have hfirst : ∀ tail, firstToken '-' tail = numberToken true tail := fun _ => rfl
    rw [hsign] at htoken
    rw [List.cons_append, tokens_cons (by decide), hfirst, htoken]

/-- **A token that was written in any way is read as that token**, in front of anything that does not go
on with a number. -/
theorem tokens_tokenText {t : Token} {text rest : List Char} (h : TokenText t text)
    (hrest : (∀ m, t ≠ .mark m) → EndsNumber rest) : tokens (text ++ rest) = t :: tokens rest := by
  cases h with
  | mark m =>
    have hfirst : firstToken m.char rest = (.mark m, rest) := by
      rw [firstToken]
      cases m <;> rfl
    rw [List.singleton_append, tokens_cons (by cases m <;> decide), hfirst]
  | null =>
    have hfirst : firstToken 'n' ('u' :: 'l' :: 'l' :: rest) = (.null, rest) := rfl
    show tokens ('n' :: 'u' :: 'l' :: 'l' :: rest) = .null :: tokens rest
    rw [tokens_cons (by decide), hfirst]
  | true =>
    have hfirst : firstToken 't' ('r' :: 'u' :: 'e' :: rest) = (.bool true, rest) := rfl
    show tokens ('t' :: 'r' :: 'u' :: 'e' :: rest) = .bool true :: tokens rest
    rw [tokens_cons (by decide), hfirst]
  | false =>
    have hfirst : firstToken 'f' ('a' :: 'l' :: 's' :: 'e' :: rest) = (.bool false, rest) := rfl
    show tokens ('f' :: 'a' :: 'l' :: 's' :: 'e' :: rest) = .bool false :: tokens rest
    rw [tokens_cons (by decide), hfirst]
  | number h =>
    obtain ⟨l, hliteral, hvalue⟩ := h.exists_literalText
    rw [tokens_literalText hliteral (hrest fun m => by simp), hvalue]
  | @string s text h =>
    have hfirst : firstToken '"' (text ++ '"' :: rest) = stringToken (text ++ '"' :: rest) := rfl
    rw [List.cons_append, List.append_assoc, List.singleton_append, tokens_cons (by decide), hfirst,
      stringToken_text h]

/-! ## Tokens one after the other -/

/-- Of two tokens next to each other at least one is a mark. -/
def Parted (ts : List Token) : Prop :=
  ts.IsChain fun a b => (∃ m, a = .mark m) ∨ ∃ m, b = .mark m

/-- What stands behind blanks, or is a mark, does not go on with a number. -/
theorem TokensText.endsNumber {ts : List Token} {text : List Char} (h : TokensText ts text)
    (hmark : ∀ t ∈ ts.head?, ∃ m, t = .mark m) : EndsNumber text := by
  have hblank : ∀ {blanks rest : List Char}, IsBlanks blanks → EndsNumber rest →
      EndsNumber (blanks ++ rest) := by
    intro blanks rest hblanks hrest
    rcases blanks with _ | ⟨c, blanks⟩
    · exact hrest
    · have hc := hblanks c List.mem_cons_self
      simp only [List.mem_cons, List.not_mem_nil, or_false] at hc
      refine endsNumber_cons ?_
      rcases hc with rfl | rfl | rfl | rfl <;> decide
  cases h with
  | nil hblanks => simpa using hblank hblanks endsNumber_nil
  | cons hblanks htoken hrest =>
    obtain ⟨m, rfl⟩ := hmark _ rfl
    cases htoken
    refine hblank hblanks (endsNumber_cons ?_)
    cases m <;> decide

/-- A text that is cut off in front of tokens does not go on with a number either. -/
theorem EndsNumber.of_isPrefix {p text : List Char} (h : EndsNumber text) (hp : p <+: text) :
    EndsNumber p := by
  intro c hc
  obtain ⟨tail, rfl⟩ := hp
  refine h c ?_
  rw [List.head?_append, hc]
  rfl

/-- In parted tokens, only a mark follows a token that is no mark. -/
theorem Parted.head?_tail {t : Token} {ts : List Token} (h : Parted (t :: ts))
    (ht : ∀ m, t ≠ .mark m) : ∀ u ∈ ts.head?, ∃ m, u = .mark m := by
  intro u hu
  refine ((List.isChain_cons.mp h).1 u hu).resolve_left ?_
  rintro ⟨m, rfl⟩
  exact ht m rfl

theorem Parted.tail {t : Token} {ts : List Token} (h : Parted (t :: ts)) : Parted ts :=
  (List.isChain_cons.mp h).2

/-- **However tokens are written, they are read as these tokens.** -/
theorem tokens_of_tokensText {ts : List Token} {text : List Char} (h : TokensText ts text)
    (hparted : Parted ts) : tokens text = ts := by
  induction h with
  | nil hblanks =>
    have hnone := tokens_blanks hblanks []
    rwa [List.append_nil, tokens_nil] at hnone
  | cons hblanks htoken hrest ih =>
    rw [tokens_blanks hblanks,
      tokens_tokenText htoken fun ht => hrest.endsNumber (hparted.head?_tail ht), ih hparted.tail]

/-- Parted tokens stay parted around a mark. -/
theorem Parted.append_mark {xs ys : List Token} (hx : Parted xs) (hy : Parted ys) (m : Mark) :
    Parted (xs ++ .mark m :: ys) := by
  refine List.isChain_append.mpr ⟨hx, List.isChain_cons.mpr ⟨?_, hy⟩, ?_⟩
  · exact fun _ _ => Or.inl ⟨m, rfl⟩
  · intro _ _ y hy
    exact Or.inr ⟨m, (Option.some.inj hy).symm⟩

theorem Parted.intercalate {tss : List (List Token)} (h : ∀ ts ∈ tss, Parted ts) (m : Mark) :
    Parted ([.mark m].intercalate tss) := by
  induction tss with
  | nil => exact .nil
  | cons ts tss ih =>
    obtain ⟨hts, htss⟩ := List.forall_mem_cons.mp h
    rcases tss with _ | ⟨us, tss⟩
    · rwa [List.intercalate_singleton]
    · rw [List.intercalate_cons_cons, List.append_assoc, List.singleton_append]
      exact hts.append_mark (ih htss) m

/-- Blanks may be added in front. -/
theorem TokensText.blanks_append {ts : List Token} {blanks text : List Char} (hblanks : IsBlanks blanks)
    (h : TokensText ts text) : TokensText ts (blanks ++ text) := by
  have happend : ∀ {more : List Char}, IsBlanks more → IsBlanks (blanks ++ more) := by
    intro more hmore c hc
    exact (List.mem_append.mp hc).elim (hblanks c) (hmore c)
  cases h with
  | nil hmore => exact .nil (happend hmore)
  | cons hmore htoken hrest =>
    rw [← List.append_assoc]
    exact .cons (happend hmore) htoken hrest

theorem TokensText.append {ts us : List Token} {a b : List Char} (hts : TokensText ts a)
    (hus : TokensText us b) : TokensText (ts ++ us) (a ++ b) := by
  induction hts with
  | nil hblanks => exact hus.blanks_append hblanks
  | cons hblanks htoken _ ih =>
    rw [List.append_assoc, List.append_assoc]
    exact .cons hblanks htoken ih

/-- One token without blanks. -/
theorem TokenText.tokensText {t : Token} {text : List Char} (h : TokenText t text) :
    TokensText [t] text := by
  simpa using TokensText.cons isBlanks_nil h (.nil isBlanks_nil)

theorem TokensText.intercalate {tss : List (List Token)} {texts : List (List Char)}
    (h : List.Forall₂ TokensText tss texts) (m : Mark) :
    TokensText ([.mark m].intercalate tss) ([m.char].intercalate texts) := by
  induction h with
  | nil => exact .nil isBlanks_nil
  | @cons ts text tss texts hfirst hrest ih =>
    cases hrest with
    | nil => rwa [List.intercalate_singleton, List.intercalate_singleton]
    | cons _ _ =>
      rw [List.intercalate_cons_cons, List.intercalate_cons_cons]
      exact (hfirst.append (TokenText.mark m).tokensText).append ih

/-! ## The tokens of a document -/

mutual

/-- The tokens of a document that does not break off. -/
def Document.tokens : Document → List Token
  | .broken place => [.broken place]
  | .null => [.null]
  | .bool b => [.bool b]
  | .number n => [.number n]
  | .string s => [.string s]
  | .array items _ =>
    .mark .arrayOpen :: ([.mark .comma].intercalate (itemTokens items) ++ [.mark .arrayClose])
  | .object entries _ =>
    .mark .objectOpen :: ([.mark .comma].intercalate (entryTokens entries) ++ [.mark .objectClose])

/-- The tokens of each item. -/
def itemTokens : List Document → List (List Token)
  | [] => []
  | d :: rest => d.tokens :: itemTokens rest

/-- The tokens of each entry. -/
def entryTokens : List Entry → List (List Token)
  | [] => []
  | (key, d) :: rest => (.string key :: .mark .colon :: d.tokens) :: entryTokens rest

end

/-- Parted tokens stay parted between two marks. -/
theorem Parted.bracketed {ts : List Token} (h : Parted ts) (first last : Mark) :
    Parted (.mark first :: (ts ++ [.mark last])) :=
  Parted.append_mark .nil (h.append_mark .nil last) first

mutual

theorem parted_tokens : ∀ d : Document, Parted d.tokens
  | .broken _ | .null | .bool _ | .number _ | .string _ => List.isChain_singleton _
  | .array items _ => (Parted.intercalate (parted_itemTokens items) .comma).bracketed _ _
  | .object entries _ => (Parted.intercalate (parted_entryTokens entries) .comma).bracketed _ _

theorem parted_itemTokens : ∀ items : List Document, ∀ ts ∈ itemTokens items, Parted ts
  | [] => by simp [itemTokens]
  | d :: rest => List.forall_mem_cons.mpr ⟨parted_tokens d, parted_itemTokens rest⟩

theorem parted_entryTokens : ∀ entries : List Entry, ∀ ts ∈ entryTokens entries, Parted ts
  | [] => by simp [entryTokens]
  | (key, d) :: rest => by
    have hkey : Parted [.string key] := List.isChain_singleton _
    exact List.forall_mem_cons.mpr
      ⟨hkey.append_mark (parted_tokens d) .colon, parted_entryTokens rest⟩

end

/-! ## The texts of a value -/

mutual

/-- The document that the text of a value is read as. -/
def Value.parsed : Value → Document
  | .null => .null
  | .bool b => .bool b
  | .number n => .number (some n)
  | .string s => .string (some s)
  | .array items => .array (parsedItems items) .closed
  | .object entries => .object (parsedEntries entries) .closed

/-- The documents that the texts of items are read as. -/
def parsedItems : List Value → List Document
  | [] => []
  | v :: rest => v.parsed :: parsedItems rest

/-- The entries that the texts of entries are read as. -/
def parsedEntries : List (String × Value) → List Entry
  | [] => []
  | (key, v) :: rest => (some key, v.parsed) :: parsedEntries rest

end

/-- The ways to write a value. -/
def ValueText (v : Value) (text : String) : Prop := TokensText v.parsed.tokens text.toList

/-- **All texts of a value have the same tokens.** -/
theorem ValueText.tokens_eq {v : Value} {text : String} (h : ValueText v text) :
    tokens text.toList = v.parsed.tokens :=
  tokens_of_tokensText h (parted_tokens v.parsed)

theorem parsedItems_eq_map (items : List Value) : parsedItems items = items.map Value.parsed := by
  induction items with
  | nil => rfl
  | cons v rest ih => rw [parsedItems, ih, List.map_cons]

theorem parsedEntries_eq_map (entries : List (String × Value)) :
    parsedEntries entries = entries.map fun e => (some e.1, e.2.parsed) := by
  induction entries with
  | nil => rfl
  | cons e rest ih => rw [parsedEntries, ih, List.map_cons]

/-! ## The text that is written -/

mutual

/-- Whether every number in a value is a count of bytes. -/
def Value.HasCounts : Value → Prop
  | .null | .bool _ | .string _ => True
  | .number n => ∃ e, n = .natural e
  | .array items => HasCountsInItems items
  | .object entries => HasCountsInEntries entries

def HasCountsInItems : List Value → Prop
  | [] => True
  | v :: rest => v.HasCounts ∧ HasCountsInItems rest

def HasCountsInEntries : List (String × Value) → Prop
  | [] => True
  | (_, v) :: rest => v.HasCounts ∧ HasCountsInEntries rest

end

theorem hasCountsInItems_iff {items : List Value} :
    HasCountsInItems items ↔ ∀ v ∈ items, v.HasCounts := by
  induction items with
  | nil => simp [HasCountsInItems]
  | cons v rest ih => rw [HasCountsInItems, ih, List.forall_mem_cons]

theorem hasCountsInEntries_append {entries more : List (String × Value)} :
    HasCountsInEntries (entries ++ more) ↔ HasCountsInEntries entries ∧ HasCountsInEntries more := by
  induction entries with
  | nil => simp [HasCountsInEntries]
  | cons e entries ih => rw [List.cons_append, HasCountsInEntries, HasCountsInEntries, ih, and_assoc]

/-- A string is written in one of its ways. -/
theorem tokenText_quote (s : String) :
    TokenText (.string (some s)) ('"' :: (s.toList.flatMap escapeChar ++ ['"'])) :=
  .string (stringText_escaped s.toList)

theorem tokensText_quote (s : String) : TokensText [.string (some s)] (quote s).toList := by
  rw [quote, String.toList_ofList]
  exact (tokenText_quote s).tokensText

/-- Texts between two marks. -/
theorem TokensText.bracketed {ts : List Token} {text : List Char} (h : TokensText ts text)
    (first last : Mark) :
    TokensText (.mark first :: (ts ++ [.mark last])) (first.char :: (text ++ [last.char])) :=
  (TokenText.mark first).tokensText.append (h.append (TokenText.mark last).tokensText)

theorem TokensText.intercalate_comma {tss : List (List Token)} {texts : List String}
    (h : List.Forall₂ (fun ts text => TokensText ts text.toList) tss texts) :
    TokensText ([.mark .comma].intercalate tss) (",".intercalate texts).toList := by
  rw [String.toList_intercalate]
  exact TokensText.intercalate (List.forall₂_map_right_iff.mpr h) .comma

mutual

/-- **A value is written in one of its ways.** -/
theorem valueText_text : ∀ {v : Value}, v.HasCounts → ValueText v v.text
  | .null, _ => TokenText.null.tokensText
  | .bool true, _ => TokenText.true.tokensText
  | .bool false, _ => TokenText.false.tokensText
  | .number _, h => by
    obtain ⟨e, rfl⟩ := h
    have hdigits : Number.IsText (.natural e) e.text.toList := rfl
    exact (TokenText.number hdigits).tokensText
  | .string s, _ => tokensText_quote s
  | .array items, h => by
    have hitems :=
      (TokensText.intercalate_comma (tokensText_itemTexts h)).bracketed .arrayOpen .arrayClose
    rw [ValueText, Value.text, String.toList_append, String.toList_append]
    exact hitems
  | .object entries, h => by
    have hentries :=
      (TokensText.intercalate_comma (tokensText_entryTexts h)).bracketed .objectOpen .objectClose
    rw [ValueText, Value.text, String.toList_append, String.toList_append]
    exact hentries

theorem tokensText_itemTexts : ∀ {items : List Value}, HasCountsInItems items →
    List.Forall₂ (fun ts text => TokensText ts text.toList) (itemTokens (parsedItems items))
      (itemTexts items)
  | [], _ => .nil
  | _ :: _, h => .cons (valueText_text h.1) (tokensText_itemTexts h.2)

theorem tokensText_entryTexts : ∀ {entries : List (String × Value)}, HasCountsInEntries entries →
    List.Forall₂ (fun ts text => TokensText ts text.toList) (entryTokens (parsedEntries entries))
      (entryTexts entries)
  | [], _ => .nil
  | (key, v) :: _, h => by
    refine .cons ?_ (tokensText_entryTexts h.2)
    rw [String.toList_append, String.toList_append]
    have hkey := (tokensText_quote key).append (TokenText.mark .colon).tokensText
    exact hkey.append (valueText_text h.1)

end

end WireRecord.Json
