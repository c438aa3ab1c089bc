/-
Documents read from their tokens.

Tokens are read one at a time, with the containers that are still open kept in a list. The main result,
`run_tokens`, says what the tokens of a whole document do to a reader that expects a value: after the
last of them the reader stands where a complete value puts it, inside whatever containers are open and
with the tokens behind it untouched. Reading the tokens of a document alone therefore gives the document
(`ofTokens_tokens`), and since all texts of a value have the same tokens, each of them is read as the one
document that the value is read as (`readText_of_valueText`).

The induction is on the document, with any open containers and any tokens behind it, because an item of
an array is read inside one container more. For the items and entries behind the first, the statement
speaks of a reader in the middle of a container that holds what came before.
-/
import WireRecord.Json.Problem
import WireRecord.Proofs.Json.Lexing

set_option autoImplicit false

namespace WireRecord.Json

/-! ## Whole documents -/

mutual

/-- Whether a document breaks off nowhere, so that it is all of a text. -/
def Document.Whole : Document → Prop
  | .broken _ => False
  | .null | .bool _ | .number _ | .string _ => True
  | .array items ending => WholeItems items ∧ ending = .closed
  | .object entries ending => WholeEntries entries ∧ ending = .closed

def WholeItems : List Document → Prop
  | [] => True
  | d :: rest => d.Whole ∧ WholeItems rest

def WholeEntries : List Entry → Prop
  | [] => True
  | (_, d) :: rest => d.Whole ∧ WholeEntries rest

end

mutual

/-- What is read from the text of a value breaks off nowhere. -/
theorem whole_parsed : ∀ v : Value, v.parsed.Whole
  | .null | .bool _ | .number _ | .string _ => trivial
  | .array items => ⟨wholeItems_parsed items, rfl⟩
  | .object entries => ⟨wholeEntries_parsed entries, rfl⟩

theorem wholeItems_parsed : ∀ items : List Value, WholeItems (parsedItems items)
  | [] => trivial
  | v :: rest => ⟨whole_parsed v, wholeItems_parsed rest⟩

theorem wholeEntries_parsed : ∀ entries : List (String × Value), WholeEntries (parsedEntries entries)
  | [] => trivial
  | (_, v) :: rest => ⟨whole_parsed v, wholeEntries_parsed rest⟩

end

mutual

/-- What breaks off nowhere is skipped without an obstacle. -/
theorem obstacle?_of_whole : ∀ {d : Document}, d.Whole → d.obstacle? = none
  | .null, _ | .bool _, _ | .number _, _ | .string _, _ => rfl
  | .array _ _, h => by
    obtain ⟨hitems, rfl⟩ := h
    rw [Document.obstacle?, obstacleInItems?_of_whole hitems]
    rfl
  | .object _ _, h => by
    obtain ⟨hentries, rfl⟩ := h
    rw [Document.obstacle?, obstacleInEntries?_of_whole hentries]
    rfl

theorem obstacleInItems?_of_whole : ∀ {items : List Document}, WholeItems items →
    obstacleInItems? items = none
  | [], _ => rfl
  | _ :: _, h => by
    rw [obstacleInItems?, obstacle?_of_whole h.1, obstacleInItems?_of_whole h.2]
    rfl

theorem obstacleInEntries?_of_whole : ∀ {entries : List Entry}, WholeEntries entries →
    obstacleInEntries? entries = none
  | [], _ => rfl
  | (_, _) :: _, h => by
    rw [obstacleInEntries?, obstacle?_of_whole h.1, obstacleInEntries?_of_whole h.2]
    rfl

end

/-! ## Reading tokens -/

/-- What comes behind the first of several lists stands behind a separator. -/
theorem intercalate_cons {α : Type} (x : α) (first : List α) (rest : List (List α)) :
    [x].intercalate (first :: rest) = first ++ rest.flatMap (x :: ·) := by
  induction rest generalizing first with
  | nil => simp
  | cons next rest ih =>
    rw [List.intercalate_cons_cons, ih, List.flatMap_cons]
    simp

namespace Reader

/-- Where an array may end or go on, the tokens of a document go on with an item. -/
theorem run_firstItem (d : Document) (outer : List Frame) (rest : List Token) :
    (Reader.firstItem outer).run (d.tokens ++ rest) =
      (Reader.value (.array [] :: outer)).run (d.tokens ++ rest) := by
  cases d <;> rfl

mutual

/-- **The tokens of a document complete it**, inside any open containers. -/
theorem run_tokens : ∀ {d : Document}, d.Whole → ∀ (outer : List Frame) (rest : List Token),
    (Reader.value outer).run (d.tokens ++ rest) = (complete d outer).run rest
  | .null, _, _, _ | .bool _, _, _, _ | .number _, _, _, _ | .string _, _, _, _ => rfl
  | .array [] _, h, outer, rest => by
    obtain ⟨-, rfl⟩ := h
    rfl
  | .array (d :: ds) _, h, outer, rest => by
    obtain ⟨⟨hd, hds⟩, rfl⟩ := h
    have htokens : (Document.array (d :: ds) .closed).tokens ++ rest =
        .mark .arrayOpen :: (d.tokens ++ ((itemTokens ds).flatMap (.mark .comma :: ·)
          ++ .mark .arrayClose :: rest)) := by
      rw [Document.tokens, itemTokens, intercalate_cons]
      simp
    rw [htokens]
    show (Reader.firstItem outer).run _ = _
    rw [run_firstItem, run_tokens hd]
    exact run_itemTokens hds [d] outer rest
  | .object [] _, h, outer, rest => by
    obtain ⟨-, rfl⟩ := h
    rfl
  | .object ((key, d) :: entries) _, h, outer, rest => by
    obtain ⟨⟨hd, hentries⟩, rfl⟩ := h
    have htokens : (Document.object ((key, d) :: entries) .closed).tokens ++ rest =
        .mark .objectOpen :: .string key :: .mark .colon :: (d.tokens
          ++ ((entryTokens entries).flatMap (.mark .comma :: ·) ++ .mark .objectClose :: rest)) := by
      rw [Document.tokens, entryTokens, intercalate_cons]
      simp
    rw [htokens]
    show (Reader.value (.object [] key :: outer)).run _ = _
    rw [run_tokens hd]
    exact run_entryTokens hentries [(key, d)] outer rest

/-- The items behind the first are added to those before them, the last first. -/
theorem run_itemTokens : ∀ {ds : List Document}, WholeItems ds →
    ∀ (before : List Document) (outer : List Frame) (rest : List Token),
    (Reader.afterItem before outer).run
        ((itemTokens ds).flatMap (.mark .comma :: ·) ++ .mark .arrayClose :: rest) =
      (complete (.array (before.reverse ++ ds) .closed) outer).run rest
  | [], _, before, outer, rest => by
    rw [List.append_nil]
    rfl
  | d :: ds, h, before, outer, rest => by
    rw [itemTokens, List.flatMap_cons, List.append_assoc, List.cons_append]
    show (Reader.value (.array before :: outer)).run _ = _
    rw [run_tokens h.1]
    show (Reader.afterItem (d :: before) outer).run _ = _
    rw [run_itemTokens h.2, List.reverse_cons, List.append_assoc, List.singleton_append]

/-- The entries behind the first are added to those before them, the last first. -/
theorem run_entryTokens : ∀ {entries : List Entry}, WholeEntries entries →
    ∀ (before : List Entry) (outer : List Frame) (rest : List Token),
    (Reader.afterEntry before outer).run
        ((entryTokens entries).flatMap (.mark .comma :: ·) ++ .mark .objectClose :: rest) =
      (complete (.object (before.reverse ++ entries) .closed) outer).run rest
  | [], _, before, outer, rest => by
    rw [List.append_nil]
    rfl
  | (key, d) :: entries, h, before, outer, rest => by
    rw [entryTokens, List.flatMap_cons, List.append_assoc, List.cons_append, List.cons_append,
      List.cons_append]
    show (Reader.value (.object before key :: outer)).run _ = _
    rw [run_tokens h.1]
    show (Reader.afterEntry ((key, d) :: before) outer).run _ = _
    rw [run_entryTokens h.2, List.reverse_cons, List.append_assoc, List.singleton_append]

end

end Reader

/-- The tokens of a document are read as the document. -/
theorem ofTokens_tokens {d : Document} (h : d.Whole) : Document.ofTokens d.tokens = (d, []) := by
  have hrun := Reader.run_tokens h [] []
  rwa [List.append_nil] at hrun

/-- A text with one document and nothing behind it is read as that document. -/
theorem readText_eq {α : Type} (read : Document → Except Problem α) {text : String} {d : Document}
    (h : Document.ofTokens (tokens text.toList) = (d, [])) : readText read text = read d := by
  rw [readText, h]
  simp only [bind, Except.bind]
  cases read d <;> rfl

/-- **Reading a text of a value.** Whatever is to be read from it is read from the document that the
value is read as. -/
theorem readText_of_valueText {α : Type} (read : Document → Except Problem α) {v : Value} {text : String}
    (h : ValueText v text) : readText read text = read v.parsed := by
  refine readText_eq read ?_
  rw [h.tokens_eq, ofTokens_tokens (whole_parsed v)]

/-- The text that was written is one of them. -/
theorem readText_text {α : Type} (read : Document → Except Problem α) {v : Value} (h : v.HasCounts) :
    readText read v.text = read v.parsed :=
  readText_of_valueText read (valueText_text h)

end WireRecord.Json
