/-
Values with one place left open.

A context is an object or an array in which one value is left out. A number can be written in its place
that is no value at all, because it is too great, so a text with such a number is not the text of a value.
What a text has on both sides of the number can still be said: the tokens before and behind the place
(`Context.front`, `Context.back`). The first main result, `readText_literal`, is that a text with any number
literal between the two is read as the context with what the literal is.

The others are about forms. If the place is that of a field, and the whole would be read if the field were,
then what the field has against the number is all that there is to say (`readStruct_context_error`). If the
number fits the field, the context with it presents the structure with another content there
(`presents_context`).
-/
import WireRecord.Proofs.Json.Presentation

set_option autoImplicit false

namespace WireRecord.Json

/-! ## Tokens around a number -/

theorem EndsNumber.append {text : List Char} (h : EndsNumber text) (hne : text ≠ [])
    (rest : List Char) : EndsNumber (text ++ rest) := by
  intro c hc
  rw [List.head?_append_of_ne_nil text hne] at hc
  exact h c hc

/-- Tokens in front of a token that is no mark are read before it. -/
theorem tokens_front {ts : List Token} {text : List Char} (h : TokensText ts text) {t : Token}
    (ht : ∀ m, t ≠ .mark m) (hparted : Parted (ts ++ [t])) (rest : List Char) :
    tokens (text ++ rest) = ts ++ tokens rest := by
  induction h with
  | nil hblanks => exact tokens_blanks hblanks rest
  | @cons u ts blanks text more hblanks htoken hrest ih =>
    -- a token that is no mark has a mark behind it, because the number that comes is none
    have hends : (∀ m, u ≠ .mark m) → EndsNumber (more ++ rest) := by
      intro hu
      have hmark := Parted.head?_tail hparted hu
      cases hrest with
      | nil _ =>
        obtain ⟨m, hm⟩ := hmark t rfl
        exact absurd hm (ht m)
      | @cons u' ts blanks' text' more hblanks' htoken' hrest' =>
        have hnext : ∀ v ∈ (u' :: ts).head?, ∃ m, v = .mark m := hmark
        obtain ⟨m, rfl⟩ := hnext u' rfl
        cases htoken'
        refine ((TokensText.cons hblanks' (.mark m) hrest').endsNumber hnext).append ?_ rest
        simp
    rw [List.append_assoc, List.append_assoc, tokens_blanks hblanks, tokens_tokenText htoken hends,
      ih hparted.tail, List.cons_append]

/-- **A number literal between tokens is read between them.** -/
theorem tokens_around {l : NumberLiteral} {literal front back : List Char} {ts us : List Token}
    (hliteral : LiteralText l literal) (hfront : TokensText ts front) (hback : TokensText us back)
    (hparted : Parted (ts ++ .number l.value? :: us)) :
    tokens (front ++ (literal ++ back)) = ts ++ .number l.value? :: us := by
  have hnumber : ∀ m, Token.number l.value? ≠ .mark m := by
    intro m h
    cases h
  have hbefore : Parted (ts ++ [.number l.value?]) := by
    have hsplit : ts ++ .number l.value? :: us = (ts ++ [.number l.value?]) ++ us := by simp
    rw [hsplit] at hparted
    exact List.IsChain.left_of_append hparted
  have hbehind : Parted (.number l.value? :: us) := List.IsChain.right_of_append hparted
  have hends : EndsNumber back := hback.endsNumber (hbehind.head?_tail hnumber)
  rw [tokens_front hfront hnumber hbefore, tokens_literalText hliteral hends,
    tokens_of_tokensText hback hbehind.tail]

/-! ## Contexts -/

/-- An object or an array with one value left out. -/
inductive Context where
  /-- The value behind a key, with the entries before and behind. -/
  | object (before : List (String × Value)) (key : String) (after : List (String × Value))
  /-- An item, with the items before and behind. -/
  | array (before after : List Value)

namespace Context

/-- The context with a value in its place. -/
def value (v : Value) : Context → Value
  | object before key after => .object (before ++ (key, v) :: after)
  | array before after => .array (before ++ v :: after)

/-- What is read of the context where a document is read in its place. -/
def document (d : Document) : Context → Document
  | object before key after =>
    .object (parsedEntries before ++ (some key, d) :: parsedEntries after) .closed
  | array before after => .array (parsedItems before ++ d :: parsedItems after) .closed

/-- The tokens before the place. -/
def front : Context → List Token
  | object before key _ =>
    .mark .objectOpen :: ((entryTokens (parsedEntries before)).flatMap (· ++ [.mark .comma])
      ++ [.string (some key), .mark .colon])
  | array before _ =>
    .mark .arrayOpen :: (itemTokens (parsedItems before)).flatMap (· ++ [.mark .comma])

/-- The tokens behind the place. -/
def back : Context → List Token
  | object _ _ after =>
    (entryTokens (parsedEntries after)).flatMap (.mark .comma :: ·) ++ [.mark .objectClose]
  | array _ after => (itemTokens (parsedItems after)).flatMap (.mark .comma :: ·) ++ [.mark .arrayClose]

theorem parsed_value (c : Context) (v : Value) : (c.value v).parsed = c.document v.parsed := by
  cases c with
  | object before key after =>
    simp only [value, document, Value.parsed, parsedEntries_eq_map, List.map_append, List.map_cons]
  | array before after =>
    simp only [value, document, Value.parsed, parsedItems_eq_map, List.map_append, List.map_cons]

theorem intercalate_around {α : Type} (x : α) (before : List (List α)) (here : List α)
    (after : List (List α)) :
    [x].intercalate (before ++ here :: after) =
      before.flatMap (· ++ [x]) ++ (here ++ after.flatMap (x :: ·)) := by
  induction before with
  | nil => exact intercalate_cons x here after
  | cons first before ih =>
    have hne : before ++ here :: after ≠ [] := by simp
    obtain ⟨next, rest, hrest⟩ := List.exists_cons_of_ne_nil hne
    rw [List.cons_append, hrest, List.intercalate_cons_cons, ← hrest, ih, List.flatMap_cons]
    simp

theorem entryTokens_around (before after : List Entry) (key : Option String) (d : Document) :
    entryTokens (before ++ (key, d) :: after) =
      entryTokens before ++ (.string key :: .mark .colon :: d.tokens) :: entryTokens after := by
  induction before with
  | nil => rfl
  | cons e before ih => rw [List.cons_append, entryTokens, entryTokens, ih, List.cons_append]

theorem itemTokens_around (before after : List Document) (d : Document) :
    itemTokens (before ++ d :: after) = itemTokens before ++ d.tokens :: itemTokens after := by
  induction before with
  | nil => rfl
  | cons e before ih => rw [List.cons_append, itemTokens, itemTokens, ih, List.cons_append]

theorem tokens_document (c : Context) (d : Document) :
    (c.document d).tokens = c.front ++ (d.tokens ++ c.back) := by
  cases c with
  | object before key after =>
    rw [document, Document.tokens, entryTokens_around, intercalate_around, front, back]
    simp
  | array before after =>
    rw [document, Document.tokens, itemTokens_around, intercalate_around, front, back]
    simp

theorem whole_document (c : Context) {d : Document} (h : d.Whole) : (c.document d).Whole := by
  cases c with
  | object before key after =>
    refine ⟨?_, rfl⟩
    induction before with
    | nil => exact ⟨h, wholeEntries_parsed after⟩
    | cons e before ih => exact ⟨whole_parsed e.2, ih⟩
  | array before after =>
    refine ⟨?_, rfl⟩
    induction before with
    | nil => exact ⟨h, wholeItems_parsed after⟩
    | cons v before ih => exact ⟨whole_parsed v, ih⟩

/-- **A text with a number literal in the place is read as the context with what the literal is.** -/
theorem readText_literal {α : Type} (read : Document → Except Problem α) (c : Context)
    {l : NumberLiteral} {literal front back : List Char} (hliteral : LiteralText l literal)
    (hfront : TokensText c.front front) (hback : TokensText c.back back) :
    readText read (String.ofList (front ++ (literal ++ back))) = read (c.document (.number l.value?)) := by
  have htokens : (c.document (.number l.value?)).tokens = c.front ++ .number l.value? :: c.back :=
    c.tokens_document _
  have hparted : Parted (c.front ++ .number l.value? :: c.back) := htokens ▸ parted_tokens _
  have hwhole : (c.document (.number l.value?)).Whole := c.whole_document trivial
  refine readText_eq read ?_
  rw [String.toList_ofList, tokens_around hliteral hfront hback hparted, ← htokens, ofTokens_tokens hwhole]

end Context

/-! ## The place of a field -/

namespace Form

variable {α : Type} {F : Form α} {f : F.Field} {c : Context} {v : Value}

/-- The place of a context is that of a field: its key is the label of the field, or it is the item that
stands where the field does. -/
def IsPlace (F : Form α) (f : F.Field) : Context → Prop
  | .object _ key _ => key = F.label f
  | .array before _ => F.fields[before.length]? = some f

section Presentations

variable {rule rule' : F.Field → FieldRule}

theorem kept_of_ne {before after : List (String × Value)} {key : String} {w : Value} {r : FieldRule}
    (hother : key ≠ r.label) (h : r.Kept (before ++ (key, v) :: after)) :
    r.Kept (before ++ (key, w) :: after) := by
  have hfilter : ∀ u, (before ++ (key, u) :: after).filter (·.1 = r.label) =
      before.filter (·.1 = r.label) ++ after.filter (·.1 = r.label) := by
    intro u
    rw [List.filter_append, List.filter_cons_of_neg]
    simpa using hother
  cases h with
  | once hentries hfits => exact .once (by rw [hfilter, ← hfilter v, hentries]) hfits
  | leftOut hentries homittable => exact .leftOut (by rw [hfilter, ← hfilter v, hentries]) homittable

/-- The field of the place has no other entry, so that any value that fits can be its only one. -/
theorem kept_of_fits {before after : List (String × Value)} {w : Value} {r r' : FieldRule}
    (hlabel : r'.label = r.label) (hfits : r'.Fits w) (h : r.Kept (before ++ (r.label, v) :: after)) :
    r'.Kept (before ++ (r.label, w) :: after) := by
  have hfilter : ∀ u, (before ++ (r.label, u) :: after).filter (·.1 = r.label) =
      before.filter (·.1 = r.label) ++ (r.label, u) :: after.filter (·.1 = r.label) := by
    intro u
    rw [List.filter_append, List.filter_cons_of_pos]
    simp
  -- the entry in the place is one already
  have hlength := h.length_le
  rw [hfilter, List.length_append, List.length_cons] at hlength
  have hbefore : before.filter (·.1 = r.label) = [] := List.length_eq_zero_iff.mp (by omega)
  have hafter : after.filter (·.1 = r.label) = [] := List.length_eq_zero_iff.mp (by omega)
  refine .once (v := w) ?_ hfits
  rw [hlabel, hfilter, hbefore, hafter, List.nil_append]

/-- In an array, the items before the place are those of the fields before its field. -/
theorem exists_fields_of_presents {before after : List Value}
    (hplace : F.fields[before.length]? = some f)
    (h : Presents (F.fields.map rule) (.array (before ++ v :: after))) :
    ∃ fs gs hs : List F.Field, F.fields = fs ++ f :: (gs ++ hs) ∧
      List.Forall₂ (fun r v => r.Fits v) (fs.map rule) before ∧
      List.Forall₂ (fun r v => r.Fits v) (gs.map rule) after ∧ ∀ g ∈ hs, (rule g).Omittable := by
  cases h with
  | @array front back _ hrules hfits homittable =>
    obtain ⟨given, hs, hfields, rfl, rfl⟩ := List.map_eq_append_iff.mp hrules
    have hbefore := List.forall₂_take_append _ _ _ hfits
    have hbehind := List.forall₂_drop_append _ _ _ hfits
    rw [← List.map_take] at hbefore
    rw [← List.map_drop] at hbehind
    obtain ⟨r, rs, -, hafter, hrest⟩ := List.forall₂_cons_right_iff.mp hbehind
    obtain ⟨g, gs, hdrop, rfl, rfl⟩ := List.map_eq_cons_iff.mp hrest
    have hsplit : F.fields = given.take before.length ++ g :: (gs ++ hs) := by
      rw [hfields, ← List.cons_append, ← hdrop, ← List.append_assoc, List.take_append_drop]
    have hlength : (given.take before.length).length = before.length := by
      have hlengths := hbefore.length_eq
      rwa [List.length_map] at hlengths
    obtain rfl : g = f := by
      rw [hsplit, List.getElem?_append_right hlength.le, hlength, Nat.sub_self] at hplace
      exact Option.some.inj hplace
    exact ⟨_, gs, hs, hsplit, hbefore, hafter, fun g hg => homittable _ (List.mem_map_of_mem hg)⟩

/-- **Another value in the place of a field presents the structure with this in the field**, if it fits. -/
theorem presents_context (hlabels : F.LabelsDistinct) (hnodup : F.fields.Nodup)
    (hlabel : ∀ g, (rule g).label = F.label g) (hlabel' : ∀ g, (rule' g).label = F.label g)
    (hsame : ∀ g ≠ f, rule' g = rule g) (hplace : F.IsPlace f c)
    (h : Presents (F.fields.map rule) (c.value v)) {w : Value} (hw : (rule' f).Fits w) :
    Presents (F.fields.map rule') (c.value w) := by
  cases c with
  | object before key after =>
    obtain rfl : key = (rule f).label := hplace.trans (hlabel f).symm
    cases h with
    | object hkept =>
      refine .object fun r hr => ?_
      obtain ⟨g, -, rfl⟩ := List.mem_map.mp hr
      have hg : (rule g).Kept _ := hkept _ (List.mem_map_of_mem (F.mem_fields g))
      by_cases hf : g = f
      · subst hf
        exact kept_of_fits ((hlabel' g).trans (hlabel g).symm) hw hg
      · rw [hsame g hf]
        apply kept_of_ne _ hg
        intro heq
        rw [hlabel, hlabel] at heq
        exact hf (hlabels.label_inj heq).symm
  | array before after =>
    obtain ⟨fs, gs, hs, hfields, hbefore, hafter, homittable⟩ := exists_fields_of_presents hplace h
    -- the field stands nowhere else, so the rules for the other items are the same
    rw [hfields, List.nodup_append, List.nodup_cons] at hnodup
    obtain ⟨-, ⟨hbehind, -⟩, hdisjoint⟩ := hnodup
    rw [List.mem_append, not_or] at hbehind
    have hfs : fs.map rule' = fs.map rule :=
      List.map_congr_left fun g hg => hsame g (hdisjoint g hg f List.mem_cons_self)
    have hgs : gs.map rule' = gs.map rule :=
      List.map_congr_left fun g hg => hsame g fun heq => hbehind.1 (heq ▸ hg)
    have hrules : F.fields.map rule' = (fs.map rule' ++ rule' f :: gs.map rule') ++ hs.map rule' := by
      rw [hfields]
      simp
    refine .array hrules ?_ ?_
    · rw [hfs, hgs]
      exact List.rel_append hbefore (.cons hw hafter)
    · intro r hr
      obtain ⟨g, hg, rfl⟩ := List.mem_map.mp hr
      rw [hsame g fun heq => hbehind.2 (heq ▸ hg)]
      exact homittable g hg

/-- **A structure in which a field cannot be read is not read**, for the reason for which the field is
not. -/
theorem readStruct_context_error {given : (f : F.Field) → F.Content f} (hlabels : F.LabelsDistinct)
    (hrule : F.ReadsBy rule given) (hplace : F.IsPlace f c)
    (h : Presents (F.fields.map rule) (c.value v)) {d : Document} {problem : Problem}
    (hread : F.read f d = .error problem) : F.readStruct (c.document d) = .error problem := by
  cases c with
  | object before key after =>
    obtain rfl : key = F.label f := hplace
    cases h with
    | object hkept =>
      have hkept : ∀ g, (rule g).Kept (before ++ (F.label f, v) :: after) := fun g =>
        hkept _ (List.mem_map_of_mem (F.mem_fields g))
      have hentries : parsedEntries (before ++ (F.label f, v) :: after) =
          parsedEntries before ++ (some (F.label f), v.parsed) :: parsedEntries after := by
        simp only [parsedEntries_eq_map, List.map_append, List.map_cons]
      have hnamed : F.named? (some (F.label f), v.parsed) = some f := hlabels f
      have haccepts := accepts_of_kept hlabels hrule hkept
      have hnodup := nodup_named_of_kept hlabels hrule hkept
      -- the entries before the place fill in their fields and leave this one blank
      rw [hentries] at haccepts hnodup
      rw [List.filterMap_append, List.filterMap_cons_some hnamed, List.nodup_append] at hnodup
      obtain ⟨hnodup, -, hdisjoint⟩ := hnodup
      have hnew : f ∉ (parsedEntries before).filterMap F.named? := by
        intro hf
        exact hdisjoint f hf f List.mem_cons_self rfl
      have hblank : Draft.give given F.blank ((parsedEntries before).filterMap F.named?) f = none :=
        Draft.give_of_not_mem hnew F.blank
      rw [Context.document, readStruct, readEntries_append
        (fun e he => haccepts e (List.mem_append_left _ he)) hnodup (fun g _ => blank_apply g),
        readEntries_cons_error (hlabels f) hblank hread]
      rfl
  | array before after =>
    obtain ⟨fs, gs, hs, hfields, hbefore, -, -⟩ := exists_fields_of_presents hplace h
    have hitems : List.Forall₂ (fun g item => F.read g item = .ok (given g)) fs (parsedItems before) := by
      rw [parsedItems_eq_map, List.forall₂_map_right_iff]
      exact (List.forall₂_map_left_iff.mp hbefore).imp fun g w => hrule.read g w
    rw [Context.document, readStruct, hfields, readItems_append hitems, readItems_cons_error hread]
    rfl

end Presentations

end Form

end WireRecord.Json
