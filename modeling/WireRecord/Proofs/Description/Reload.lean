/-
Records stored as JSON and loaded again.

A record that is read back from its own text may have other tags than before: a tag that was kept
although its text is understood comes back as the tag that is meant. The main result,
`reload_preserves_generated`, says what becomes of the generated texts. The type definition and the
layout stay as they are, because the one shows only the text of a tag and the other does not look at
tags. The serializer gains one statement for each such tag, and so stays the same exactly if there is no
such tag. A record that was loaded once is stored as the same text, and loading it again changes nothing.

That no gain goes unnoticed in the text takes an argument. A member that had a statement before has the
same statement after, so the statements before are some of those after, in the same order. A text made
of some of the statements is shorter than one made of all, because no statement is empty
(`eq_of_sublist_of_join_eq`). What the names in the statements look like does not matter for that.
-/
import WireRecord.Proofs.Description.RoundTrip
import WireRecord.Proofs.Go.SerializerText
import WireRecord.Proofs.Layout.Composition
import WireRecord.Go.Definition
import Mathlib.Data.List.Flatten
import Mathlib.Data.List.Forall2

set_option autoImplicit false

namespace WireRecord

/-! ## Tags -/

/-- A text that is understood is that of a tag that can be written into a buffer, and no other is. -/
theorem TypeTag.isSome_encoding_ofText {s : String} :
    (ofText s).encoding.isSome = true ↔ s ∈ spellings := by
  by_cases h : s ∈ spellings
  · refine iff_of_true ?_ h
    have hread : ofText s ≠ .other s := ofText_ne_other_of_mem h
    have htext : (ofText s).text = s := text_ofText s
    cases hs : ofText s with
    | other text =>
      rw [hs] at hread htext
      exact absurd (congrArg TypeTag.other htext) hread
    | _ => rfl
  · rw [ofText_of_not_mem h]
    exact iff_of_false Bool.false_ne_true h

/-- A tag that can be written is read back as itself. -/
theorem TypeTag.normalized_of_encoding {t : TypeTag} (h : t.encoding.isSome = true) :
    t.normalized = t := by
  rw [← isStable_iff_normalized_eq, isStable_iff]
  rintro s - rfl
  cases h

/-- Reading a tag anew lets a member be written that could not be exactly if the tag was kept although
it is understood. -/
theorem TypeTag.gains_encoding_iff {t : TypeTag} :
    t.encoding = none ∧ t.normalized.encoding.isSome = true ↔ ∃ s ∈ spellings, t = .other s := by
  constructor
  · rintro ⟨hnone, hsome⟩
    cases t with
    | other text => exact ⟨text, isSome_encoding_ofText.mp hsome, rfl⟩
    | _ => cases hnone
  · rintro ⟨s, hs, rfl⟩
    exact ⟨rfl, isSome_encoding_ofText.mpr hs⟩

/-! ## Layouts -/

/-- The slot of the same member with its tag read anew. -/
def Slot.normalized (s : Slot) : Slot :=
  { s with member := s.member.normalized, encoding := s.member.tag.normalized.encoding }

/-- Two slots agree in everything but how their members are written. -/
structure Slot.PlacedAlike (s t : Slot) : Prop where
  name : s.member.name = t.member.name
  start : s.start = t.start
  stop : s.stop = t.stop
  byteOrder : s.byteOrder = t.byteOrder

theorem Slot.normalized_placedAlike (s : Slot) : s.normalized.PlacedAlike s := ⟨rfl, rfl, rfl, rfl⟩

namespace Layout

theorem slotsFrom_map_normalized (inherited : ByteOrder) (cursor : Extent) (members : List Member) :
    slotsFrom inherited cursor (members.map Member.normalized) =
      (slotsFrom inherited cursor members).map Slot.normalized :=
  slotsFrom_map (f := Member.normalized) (g := Slot.normalized) (h := id) inherited inherited
    (fun _ _ => rfl) (fun _ => rfl) cursor members

theorem endFrom_map_normalized (cursor : Extent) (members : List Member) :
    endFrom cursor (members.map Member.normalized) = endFrom cursor members :=
  endFrom_map (f := Member.normalized) (h := id) (fun _ _ => rfl) cursor members

end Layout

theorem Record.slots_normalized (r : Record) :
    r.normalized.layout.slots = r.layout.slots.map Slot.normalized :=
  Layout.slotsFrom_map_normalized r.order 0 r.members

theorem Record.size_normalized (r : Record) : r.normalized.layout.size = r.layout.size :=
  Layout.endFrom_map_normalized 0 r.members

/-! ## Descriptions -/

theorem Member.value_normalized (m : Member) : m.normalized.value = m.value := by
  have htag : m.normalized.tag.value = m.tag.value :=
    congrArg Json.Value.string (TypeTag.text_normalized m.tag)
  rw [Member.value, htag]
  rfl

/-- **A record that was read back is stored as the same text.** -/
theorem Record.json_normalized (r : Record) : r.normalized.json = r.json := by
  have hmembers : r.normalized.members.map Member.value = r.members.map Member.value := by
    rw [normalized, List.map_map]
    exact List.map_congr_left fun m _ => m.value_normalized
  rw [json, json, value, value, hmembers]
  rfl

namespace Go

theorem definition_normalized (r : Record) : definition r.normalized = definition r := by
  have hmembers : r.normalized.members.map declaration = r.members.map declaration := by
    rw [Record.normalized, List.map_map]
    refine List.map_congr_left fun m _ => ?_
    have htext : m.normalized.tag.text = m.tag.text := TypeTag.text_normalized m.tag
    rw [Function.comp_apply, declaration, htext]
    rfl
  delta definition
  rw [hmembers]
  rfl

/-! ## Statements -/

section Selecting

variable {α β : Type} {f g : α → Option β} {l : List α}

/-- What one selection takes from a list, a selection that takes more also takes, in the same order. -/
theorem filterMap_sublist_filterMap (h : ∀ a ∈ l, ∀ b, f a = some b → g a = some b) :
    (l.filterMap f).Sublist (l.filterMap g) := by
  induction l with
  | nil => exact List.Sublist.slnil
  | cons a rest ih =>
    obtain ⟨hhead, hrest⟩ := List.forall_mem_cons.mp h
    cases hf : f a with
    | some b =>
      rw [List.filterMap_cons_some hf, List.filterMap_cons_some (hhead b hf)]
      exact (ih hrest).cons_cons b
    | none =>
      rw [List.filterMap_cons_none hf]
      cases hg : g a with
      | some b =>
        rw [List.filterMap_cons_some hg]
        exact (ih hrest).cons b
      | none =>
        rw [List.filterMap_cons_none hg]
        exact ih hrest

/-- A selection takes more if there is something that only it takes. -/
theorem length_filterMap_lt_iff (h : ∀ a ∈ l, ∀ b, f a = some b → g a = some b) :
    (l.filterMap f).length < (l.filterMap g).length ↔ ∃ a ∈ l, f a = none ∧ (g a).isSome = true := by
  induction l with
  | nil => simp
  | cons a rest ih =>
    obtain ⟨hhead, hrest⟩ := List.forall_mem_cons.mp h
    rw [List.exists_mem_cons_iff, ← ih hrest]
    have hle := (filterMap_sublist_filterMap hrest).length_le
    cases hf : f a with
    | some b => simp [List.filterMap_cons_some hf, List.filterMap_cons_some (hhead b hf)]
    | none =>
      cases hg : g a with
      | some b =>
        simp only [List.filterMap_cons_none hf, List.filterMap_cons_some hg, List.length_cons,
          Option.isSome_some, and_self, true_or, iff_true]
        omega
      | none => simp [List.filterMap_cons_none hf, List.filterMap_cons_none hg]

end Selecting

/-- **Some of several texts, joined, are not all of them joined**, if no text is empty. -/
theorem eq_of_sublist_of_join_eq {taken texts : List String} (hsub : taken.Sublist texts)
    (hne : ∀ s ∈ texts, s ≠ "") (hjoin : String.join taken = String.join texts) : taken = texts := by
  induction hsub with
  | slnil => rfl
  | @cons taken texts s hsub ih =>
    -- the texts behind the one that is missing are too short to make up for it
    have hle := (hsub.flatMap String.toList).length_le
    have hchars := congrArg (fun t => t.toList.length) hjoin
    have hlength : s.toList.length ≠ 0 := by
      rw [Ne, List.length_eq_zero_iff, String.toList_eq_nil_iff]
      exact hne s List.mem_cons_self
    simp only [String.join_cons, String.toList_append, String.toList_join, List.length_append] at hchars
    omega
  | @cons_cons taken texts s hsub ih =>
    rw [String.join_cons, String.join_cons, String.append_right_inj] at hjoin
    rw [ih (fun t ht => hne t (List.mem_cons_of_mem s ht)) hjoin]

/-- A slot that has a statement keeps it when its member's tag is read anew. -/
theorem statement?_normalized {r : Record} {receiver statement : String} {s : Slot}
    (hs : s ∈ r.layout.slots) (h : statement? receiver s = some statement) :
    statement? receiver s.normalized = some statement := by
  have hencoding : s.encoding = s.member.tag.encoding := Layout.encoding_of_mem_slotsFrom hs
  have hsome : s.member.tag.encoding.isSome = true := by
    rw [statement?_eq] at h
    obtain ⟨e, he, -⟩ := Option.map_eq_some_iff.mp h
    rw [← hencoding, he]
    rfl
  have htag : s.member.tag.normalized = s.member.tag := TypeTag.normalized_of_encoding hsome
  have hslot : s.normalized = s := by rw [Slot.normalized, Member.normalized, htag, ← hencoding]
  rw [hslot, h]

theorem statements_normalized (r : Record) :
    statements r.normalized =
      r.layout.slots.filterMap fun s => statement? r.receiver s.normalized := by
  rw [statements, Record.slots_normalized, List.filterMap_map]
  rfl

/-- The statements of a record are among those of the record that is read back. -/
theorem statements_sublist (r : Record) : (statements r).Sublist (statements r.normalized) := by
  rw [statements_normalized]
  exact filterMap_sublist_filterMap fun _ hs _ => statement?_normalized hs

/-- A slot gains a statement exactly if its member's tag was kept although it is understood. -/
theorem gains_statement_iff {r : Record} {receiver : String} {s : Slot} (hs : s ∈ r.layout.slots) :
    statement? receiver s = none ∧ (statement? receiver s.normalized).isSome = true ↔
      ∃ text ∈ TypeTag.spellings, s.member.tag = .other text := by
  rw [← TypeTag.gains_encoding_iff, statement?_eq, statement?_eq, Option.map_eq_none_iff,
    Option.isSome_map, Layout.encoding_of_mem_slotsFrom hs]
  rfl

/-- **Statements are gained** exactly if a tag was kept although it is understood. -/
theorem length_statements_lt_iff {r : Record} :
    (statements r).length < (statements r.normalized).length ↔
      ∃ m ∈ r.members, ∃ s ∈ TypeTag.spellings, m.tag = .other s := by
  rw [statements_normalized, statements,
    length_filterMap_lt_iff fun _ hs _ => statement?_normalized hs, ← r.map_member_slots]
  constructor
  · rintro ⟨s, hs, hgain⟩
    exact ⟨s.member, List.mem_map_of_mem hs, (gains_statement_iff hs).mp hgain⟩
  · rintro ⟨m, hm, hkept⟩
    obtain ⟨s, hs, rfl⟩ := List.mem_map.mp hm
    exact ⟨s, hs, (gains_statement_iff hs).mpr hkept⟩

/-! ## The text of a serializer -/

theorem header_normalized (r : Record) : header r.normalized = header r := rfl

theorem bufferLine_normalized (r : Record) : bufferLine r.normalized = bufferLine r := by
  rw [bufferLine, bufferLine, r.size_normalized]

/-- No line of a method's body is empty. -/
theorem bodyLine_ne_empty (statement : String) : bodyLine statement ≠ "" := by
  rw [bodyLine, Ne, String.append_eq_empty_iff]
  simp

/-- **A gained statement shows in the text.** The serializer of a record that was read back is the same
exactly if no tag was kept although it is understood. -/
theorem serializer_normalized_eq_iff {r : Record} :
    serializer r.normalized = serializer r ↔
      ∀ m ∈ r.members, ∀ s ∈ TypeTag.spellings, m.tag ≠ .other s := by
  constructor
  · intro h
    rw [serializer_eq_append, serializer_eq_append, header_normalized, bufferLine_normalized,
      String.append_left_inj, String.append_right_inj] at h
    have hne : ∀ line ∈ (statements r.normalized).map bodyLine, line ≠ "" := by
      intro line hline
      obtain ⟨statement, -, rfl⟩ := List.mem_map.mp hline
      exact bodyLine_ne_empty statement
    have hlines := eq_of_sublist_of_join_eq ((statements_sublist r).map bodyLine) hne h.symm
    intro m hm s hs htag
    have hlt := length_statements_lt_iff.mpr ⟨m, hm, s, hs, htag⟩
    have hlength := congrArg List.length hlines
    rw [List.length_map, List.length_map] at hlength
    omega
  · intro h
    rw [Record.normalized_eq_self_iff.mpr h]

/-- **Storing a record and loading it again preserves what is generated**, but for the statements gained
by tags that were kept although they are understood. The type definition is the same, the layout has the
same size and its slots are the same but for their tags, and the serializer is the same exactly if there
is no such tag, and otherwise has more statements. The record that is loaded is stored as the same text
and loaded as the same record. -/
theorem reload_preserves_generated (r : Record) :
    ∃ r', Record.ofText r.json = .ok r' ∧
      (emitDefinition r').text = (emitDefinition r).text ∧
      r'.layout.size = r.layout.size ∧
      List.Forall₂ Slot.PlacedAlike r'.layout.slots r.layout.slots ∧
      ((emitSerializer r').text = (emitSerializer r).text ↔
        ∀ m ∈ r.members, ∀ s ∈ TypeTag.spellings, m.tag ≠ .other s) ∧
      ((statements r).length < (statements r').length ↔
        ∃ m ∈ r.members, ∃ s ∈ TypeTag.spellings, m.tag = .other s) ∧
      r'.json = r.json ∧ Record.ofText r'.json = .ok r' := by
  have hread : Record.ofText r.json = .ok r.normalized := r.ofText_json
  have hslots : List.Forall₂ Slot.PlacedAlike r.normalized.layout.slots r.layout.slots := by
    rw [Record.slots_normalized, List.forall₂_map_left_iff, List.forall₂_same]
    exact fun s _ => s.normalized_placedAlike
  have hreread : Record.ofText r.normalized.json = .ok r.normalized := by
    rw [r.json_normalized, hread]
  refine ⟨r.normalized, hread, ?_, r.size_normalized, hslots, ?_, length_statements_lt_iff,
    r.json_normalized, hreread⟩
  · rw [text_emitDefinition, text_emitDefinition, definition_normalized]
  · rw [text_emitSerializer, text_emitSerializer, serializer_normalized_eq_iff]

end Go

end WireRecord
