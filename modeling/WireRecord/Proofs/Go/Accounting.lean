/-
The account of the members in a serializer.

A serializer tells of each member in one of two places: in the text, by the statement that writes the
member, or in the log, by the event that says that the member is left out. The main result,
`members_accounted_once`, says that the two places together are the layout. The log has the members whose
type is not understood, the text has the others, both in the order of the declaration; and if the two are
merged again, by the tags of the members, the names and the ranges that they hold are those of all slots,
one for each member. The log is complete before the text begins, so it is the same for every sink.

That the statements hold the ranges is said by reading them: `readPlace?` takes a range and a name out of
the text of a statement. The range stands between the first delimiters of their kinds, and the name is
all that is left behind the receiver, so it may have delimiters of its own (`readPlace?_eq_place`).
-/
import WireRecord.Proofs.Go.SerializerText
import WireRecord.Proofs.Go.SourceEvents

set_option autoImplicit false

namespace WireRecord

open Emission

/-! ## Places, and where they are read -/

/-- A range of the buffer under the name of a member. -/
structure Place where
  name : String
  start : Extent
  stop : Extent
deriving DecidableEq

def Slot.place (s : Slot) : Place := ⟨s.member.name, s.start, s.stop⟩

/-- The place of the member that an event says is left out. -/
def Event.place? : Event → Option Place
  | .skippedMember name _ start stop => some ⟨name, start, stop⟩
  | .sourceFile .. | .definition .. | .serializer .. => none

/-- Whether a type is one that is not understood. -/
def TypeTag.isOther : TypeTag → Bool
  | .other _ => true
  | .unsigned _ | .signed _ | .string => false

/-- The count that is written with some digits, if it fits. -/
def Extent.ofDigits? (digits : List Char) : Option Extent :=
  ofNat? (Nat.ofDigitChars 10 digits 0)

theorem Extent.ofDigits?_text (e : Extent) : ofDigits? e.text.toList = some e := by
  rw [ofDigits?, text, Text.ofDigitChars_repr]
  exact ofNat?_eq_some_iff.mpr rfl

/-- What is before the first delimiter in a text, and what is behind it. -/
def Text.cutAt (delimiter : Char) (text : List Char) : List Char × List Char :=
  (text.takeWhile (· != delimiter), (text.dropWhile (· != delimiter)).tail)

theorem Text.cutAt_append_cons {delimiter : Char} {part : List Char} (h : delimiter ∉ part)
    (rest : List Char) : cutAt delimiter (part ++ delimiter :: rest) = (part, rest) := by
  have hpart : ∀ c ∈ part, (c != delimiter) = true := by
    intro c hc
    exact bne_iff_ne.mpr fun heq => h (heq ▸ hc)
  rw [cutAt, List.takeWhile_append_of_pos hpart, List.dropWhile_append_of_pos hpart,
    List.takeWhile_cons_of_neg (by simp), List.dropWhile_cons_of_neg (by simp), List.append_nil,
    List.tail_cons]

namespace Go

/-- The range and the name in the text of a statement. -/
def readPlace? (receiver statement : String) : Option Place := do
  let arguments := (Text.cutAt '(' statement.toList).2
  let (start, behindStart) := Text.cutAt ':' (arguments.drop "buf[".toList.length)
  let (stop, behindStop) := Text.cutAt ']' behindStart
  let name := (behindStop.drop (", ".toList ++ receiver.toList ++ ['.']).length).dropLast
  return ⟨String.ofList name, ← Extent.ofDigits? start, ← Extent.ofDigits? stop⟩

/-- **A statement holds the place of its slot**, whatever the name of the member is. -/
theorem readPlace?_eq_place (receiver : String) (s : Slot) (e : Encoding) :
    readPlace? receiver (verb s.byteOrder e ++ arguments receiver s) = some s.place := by
  have hstart : ':' ∉ s.start.text.toList := Text.not_mem_repr (by decide) s.start.val
  have hstop : ']' ∉ s.stop.text.toList := Text.not_mem_repr (by decide) s.stop.val
  have hmember : ", ".toList ++ receiver.toList ++ '.' :: (s.member.name.toList ++ [')']) =
      (", ".toList ++ receiver.toList ++ ['.']) ++ (s.member.name.toList ++ [')']) := by
    rw [List.append_assoc _ ['.'], List.singleton_append]
  -- each cut is at the first delimiter of its kind, because the name of the member comes last
  rw [readPlace?, String.toList_append, toList_arguments,
    Text.cutAt_append_cons (bracket_not_mem_verb s.byteOrder e)]
  dsimp only
  rw [List.drop_left, Text.cutAt_append_cons hstart]
  dsimp only
  rw [Text.cutAt_append_cons hstop, hmember]
  dsimp only
  rw [List.drop_left, List.dropLast_concat, String.ofList_toList, Extent.ofDigits?_text,
    Extent.ofDigits?_text]
  rfl

example : readPlace? "g" "copy(buf[4:18], g.a], i.b))" = some ⟨"a], i.b)", .clamp 4, .clamp 18⟩ := by
  decide +kernel

/-! ## The two parts of the layout -/

/-- A slot is written unless the type of its member is not understood. -/
theorem isNone_encoding_of_mem_slots {r : Record} {s : Slot} (hs : s ∈ r.layout.slots) :
    s.encoding.isNone = s.member.tag.isOther := by
  rw [Layout.encoding_of_mem_slotsFrom hs]
  cases s.member.tag <;> rfl

theorem encodedSlots_eq_filter (r : Record) :
    r.layout.encodedSlots = r.layout.slots.filter (!·.member.tag.isOther) := by
  refine List.filter_congr fun s hs => ?_
  rw [← Option.not_isNone, isNone_encoding_of_mem_slots hs]

/-- The events of a serializer by the types of the members. -/
theorem serializerEvents_eq_skipped (r : Record) :
    serializerEvents r = .serializer r.name r.layout.size r.members.length ::
      (r.layout.slots.filter (·.member.tag.isOther)).map fun s =>
        .skippedMember s.member.name s.member.tag.text s.start s.stop := by
  have hslots : r.layout.slots.filter (·.encoding.isNone) =
      r.layout.slots.filter (·.member.tag.isOther) :=
    List.filter_congr fun _ hs => isNone_encoding_of_mem_slots hs
  rw [serializerEvents_eq, hslots]

/-- Each statement is that of a slot, with the range of the slot in it. -/
theorem forall₂_statements (r : Record) :
    List.Forall₂ (fun s statement => ∃ e, s.encoding = some e ∧
        statement = verb s.byteOrder e ++ arguments r.receiver s)
      r.layout.encodedSlots (statements r) := by
  have hstatements : List.Forall₂ (fun s statement => some statement = statement? r.receiver s)
      r.layout.encodedSlots (statements r) := by
    have heq := map_some_statements r
    rw [← List.forall₂_eq_eq_eq, List.forall₂_map_left_iff, List.forall₂_map_right_iff] at heq
    exact heq.flip
  refine hstatements.imp fun s statement hstatement => ?_
  rw [statement?_eq] at hstatement
  obtain ⟨e, he, htext⟩ := Option.map_eq_some_iff.mp hstatement.symm
  exact ⟨e, he, htext.symm⟩

/-- The statements hold the places of the slots that are written. -/
theorem map_readPlace?_statements (r : Record) :
    (statements r).map (readPlace? r.receiver) =
      r.layout.encodedSlots.map (some ·.place) := by
  rw [← List.forall₂_eq_eq_eq, List.forall₂_map_left_iff, List.forall₂_map_right_iff]
  refine (forall₂_statements r).flip.imp ?_
  rintro statement s ⟨e, -, rfl⟩
  exact readPlace?_eq_place r.receiver s e

end Go

/-- The items of two lists in one: each choice takes the next item of the first list, or of the second. -/
def mergeBy {α : Type} : List Bool → List α → List α → List α
  | [], first, second => first ++ second
  | true :: choices, first, second => first.take 1 ++ mergeBy choices first.tail second
  | false :: choices, first, second => second.take 1 ++ mergeBy choices first second.tail

/-- Merging loses nothing, whatever the choices are. -/
theorem length_mergeBy {α : Type} (choices : List Bool) (first second : List α) :
    (mergeBy choices first second).length = first.length + second.length := by
  have hhead : ∀ items : List α, items.length = (items.take 1).length + items.tail.length := by
    intro items
    rw [← List.length_append, ← List.drop_one, List.take_append_drop]
  induction choices generalizing first second with
  | nil => exact List.length_append
  | cons choice choices ih =>
    cases choice
    · rw [mergeBy, List.length_append, ih, hhead second]
      exact Nat.add_left_comm ..
    · rw [mergeBy, List.length_append, ih, hhead first, Nat.add_assoc]

/-- The two parts of a list, merged again as they were told apart. -/
theorem mergeBy_filter {α β : Type} (p : α → Bool) (f : α → β) (items : List α) :
    mergeBy (items.map p) ((items.filter p).map f) ((items.filter (!p ·)).map f) = items.map f := by
  induction items with
  | nil => rfl
  | cons item rest ih =>
    cases hp : p item
    · rw [List.map_cons, hp, List.filter_cons_of_neg (by simp [hp]),
        List.filter_cons_of_pos (by simp [hp]), mergeBy, List.map_cons, List.tail_cons, ih]
      rfl
    · rw [List.map_cons, hp, List.filter_cons_of_pos hp, List.filter_cons_of_neg (by simp [hp]),
        mergeBy, List.map_cons, List.tail_cons, ih]
      rfl

namespace Emission

/-- Events that are logged before all text are logged into every sink. -/
theorem events_run_map_log (sink : Sink) (logged : List Event) (piece : String) :
    (run sink (logged.map .log ++ [.write piece])).events = logged := by
  induction logged with
  | nil =>
    rw [List.map_nil, List.nil_append, run]
    rcases sink.write (textBytes piece) with ⟨after, _ | failure⟩ <;> rfl
  | cons event rest ih =>
    rw [List.map_cons, List.cons_append, run]
    exact congrArg (event :: ·) ih

end Emission

namespace Go

/-- **Each member is accounted for once, in the text or in the log.** Whatever the sink is, a serializer
announces itself in the log with the name of the record, the size of the buffer and the number of
members, and then says of each member of a type that is not understood, in order, that it is left out. Its
text has one statement for each other member, in order, with the range of the member's slot. Merged by the
tags of the members, the log and the text give back all slots. -/
theorem members_accounted_once (r : Record) :
    let skipped := (r.layout.slots.filter (·.member.tag.isOther)).map fun s =>
      Event.skippedMember s.member.name s.member.tag.text s.start s.stop
    (∀ sink : Sink, (run sink (emitSerializer r)).events =
      .serializer r.name r.layout.size r.members.length :: skipped) ∧
    (emitSerializer r).text = header r ++ "\n" ++ (bufferLine r ++ "\n")
      ++ String.join ((statements r).map bodyLine) ++ ("\treturn nil\n" ++ "\x7d") ∧
    (statements r).length = r.layout.encodedCount ∧
    List.Forall₂ (fun s statement => ∃ e, s.encoding = some e ∧
        statement = verb s.byteOrder e ++ arguments r.receiver s)
      (r.layout.slots.filter (!·.member.tag.isOther)) (statements r) ∧
    skipped.length + (statements r).length = r.members.length ∧
    mergeBy (r.members.map (·.tag.isOther)) (skipped.map Event.place?)
        ((statements r).map (readPlace? r.receiver)) =
      r.layout.slots.map (some ·.place) := by
  intro skipped
  have hmerged : mergeBy (r.members.map (·.tag.isOther)) (skipped.map Event.place?)
      ((statements r).map (readPlace? r.receiver)) = r.layout.slots.map (some ·.place) := by
    have htags : r.members.map (·.tag.isOther) = r.layout.slots.map (·.member.tag.isOther) := by
      rw [← r.map_member_slots, List.map_map]
      rfl
    have hskipped : skipped.map Event.place? =
        (r.layout.slots.filter (·.member.tag.isOther)).map (some ·.place) := List.map_map
    rw [htags, hskipped, map_readPlace?_statements, encodedSlots_eq_filter, mergeBy_filter]
  -- merging loses nothing, so the two parts are as many as the slots
  have hlength : skipped.length + (statements r).length = r.members.length := by
    have hlengths := congrArg List.length hmerged
    rw [length_mergeBy, skipped.length_map, (statements r).length_map,
      r.layout.slots.length_map] at hlengths
    rw [hlengths, ← r.map_member_slots, List.length_map]
  refine ⟨fun sink => ?_, ?_, length_statements r, ?_, hlength, hmerged⟩
  · rw [emitSerializer, events_run_map_log, serializerEvents_eq_skipped]
  · rw [text_emitSerializer, serializer_eq_append]
  · rw [← encodedSlots_eq_filter]
    exact forall₂_statements r

end Go

end WireRecord
