/-
Records that are built, and records that are read.

There are two ways to come by a record. One is to start without members and to add them one by one, each
made of a name, a tag and a size and then changed any number of times. The other is to read a text in which
the same is listed. The main result, `building_agrees_with_reading`, is that both give the same record, for
every plan of one. What is listed for a member is what its last changes leave: the offset of the last change
of the offset and the token of the last change of the byte order, or no such key if there was no such
change. An empty token is a token. The keys may stand in any order.

So there are two things to show. A later change takes the place of an earlier one of its kind and does not
touch the other kind (`Session.Change.foldl_apply`). And what is listed presents the record that is built,
in the sense in which every presentation of a record is read as the record
(`RecordPlan.presents_of_describes`). Reading could still change a tag that was kept although it is
understood, but a tag that was made from a text is never of that sort.
-/
import WireRecord.Proofs.Description.Presentation
import WireRecord.Session

set_option autoImplicit false

namespace WireRecord

open Json (FieldRule Presents Value ValueText)

/-! ## Changes -/

namespace Session.Change

/-- The offset that a change sets, if it sets one. -/
def offset? : Change → Option Extent
  | .offset count => some count
  | .byteOrder _ => none

def byteOrder? : Change → Option String
  | .offset _ => none
  | .byteOrder token => some token

/-- The offset that is set last. -/
def lastOffset? (changes : List Change) : Option Extent := (changes.filterMap offset?).getLast?

def lastByteOrder? (changes : List Change) : Option String := (changes.filterMap byteOrder?).getLast?

/-- A change at the end is the last of its kind, and of no other. -/
theorem getLast?_filterMap_concat {α : Type} (kind? : Change → Option α) (changes : List Change)
    (last : Change) :
    ((changes ++ [last]).filterMap kind?).getLast? =
      (kind? last).or (changes.filterMap kind?).getLast? := by
  rw [List.filterMap_append]
  cases hlast : kind? last with
  | none => rw [List.filterMap_cons_none hlast, List.filterMap_nil, List.append_nil, Option.none_or]
  | some x => rw [List.filterMap_cons_some hlast, List.filterMap_nil, List.getLast?_concat, Option.some_or]

/-- **Of each kind, the last change counts**, whatever stands between and before. -/
theorem foldl_apply (changes : List Change) (m : Member) :
    changes.foldl Change.apply m =
      { m with
        offset := (lastOffset? changes).getD m.offset
        byteOrder := (lastByteOrder? changes).or m.byteOrder } := by
  -- from the last change, because that is the one that counts
  induction changes using List.reverseRecOn with
  | nil => rfl
  | append_singleton changes last ih =>
    have hoffset : lastOffset? (changes ++ [last]) = last.offset?.or (lastOffset? changes) :=
      getLast?_filterMap_concat offset? changes last
    have hbyteOrder : lastByteOrder? (changes ++ [last]) =
        last.byteOrder?.or (lastByteOrder? changes) :=
      getLast?_filterMap_concat byteOrder? changes last
    rw [List.foldl_append, ih, hoffset, hbyteOrder]
    cases last <;> rfl

end Session.Change

/-! ## Plans -/

/-- What a member is made of, and how it is changed after that. -/
structure MemberPlan where
  name : String
  /-- The text of its tag. -/
  type : String
  size : Extent
  changes : List Session.Change := []

/-- What a record is made of. -/
structure RecordPlan where
  name : String
  byteOrder : String
  members : List MemberPlan

namespace MemberPlan

/-- The member that is built. -/
def build (p : MemberPlan) : Member :=
  p.changes.foldl Session.Change.apply { name := p.name, tag := .ofText p.type, size := p.size }

/-- What is listed for the member. -/
def entries (p : MemberPlan) : List (String × Value) :=
  [("name", .string p.name), ("type", .string p.type), ("size", p.size.value)]
    ++ (Session.Change.lastOffset? p.changes).toList.map (fun count => ("offset", count.value))
    ++ (Session.Change.lastByteOrder? p.changes).toList.map fun token => ("byte_order", .string token)

def value (p : MemberPlan) : Value := .object p.entries

/-- A value describes the member by its entries, in any order. -/
def Describes (p : MemberPlan) (v : Value) : Prop :=
  ∃ entries, v = .object entries ∧ entries.Perm p.entries

theorem build_eq (p : MemberPlan) :
    p.build =
      { name := p.name
        tag := .ofText p.type
        size := p.size
        offset := (Session.Change.lastOffset? p.changes).getD 0
        byteOrder := Session.Change.lastByteOrder? p.changes } := by
  rw [build, Session.Change.foldl_apply, Option.or_none]

/-- What is listed presents the member that is built. -/
theorem presents_value (p : MemberPlan) : Presents p.build.rules p.value := by
  rw [build_eq, value, entries]
  generalize Session.Change.lastOffset? p.changes = offset
  generalize Session.Change.lastByteOrder? p.changes = byteOrder
  refine .object fun rule hrule => ?_
  simp only [Member.rules, List.mem_cons, List.not_mem_nil, or_false] at hrule
  -- whether a key is among the entries is decided by the cases of the last changes
  rcases hrule with rfl | rfl | rfl | rfl | rfl
  · cases offset <;> cases byteOrder <;> exact .once rfl rfl
  · have htype : Value.string p.type = .string (TypeTag.ofText p.type).text := by
      rw [TypeTag.text_ofText]
    cases offset <;> cases byteOrder <;> exact .once rfl htype
  · cases offset <;> cases byteOrder <;> exact .once rfl rfl
  · cases offset with
    | none => cases byteOrder <;> exact .leftOut rfl rfl
    | some count => cases byteOrder <;> exact .once rfl rfl
  · cases byteOrder with
    | none => cases offset <;> exact .leftOut rfl rfl
    | some token => cases offset <;> exact .once rfl rfl

theorem presents_of_describes {p : MemberPlan} {v : Value} (h : p.Describes v) :
    Presents p.build.rules v := by
  obtain ⟨entries, rfl, hperm⟩ := h
  exact p.presents_value.of_perm hperm

theorem describes_value (p : MemberPlan) : p.Describes p.value := ⟨p.entries, rfl, .refl _⟩

theorem hasCounts_value (p : MemberPlan) : p.value.HasCounts := by
  rw [value, entries, Value.HasCounts, Json.hasCountsInEntries_append, Json.hasCountsInEntries_append]
  refine ⟨⟨⟨trivial, trivial, ⟨_, rfl⟩, trivial⟩, ?_⟩, ?_⟩
  · cases Session.Change.lastOffset? p.changes with
    | none => exact trivial
    | some count => exact ⟨⟨_, rfl⟩, trivial⟩
  · cases Session.Change.lastByteOrder? p.changes with
    | none => exact trivial
    | some token => exact ⟨trivial, trivial⟩

end MemberPlan

namespace RecordPlan

/-- The record that is built, one member after the other. -/
def build (p : RecordPlan) : Record :=
  (p.members.map MemberPlan.build).foldl Record.withMember { name := p.name, byteOrder := p.byteOrder }

/-- What is listed for the record, with the given values for its members. -/
def entries (p : RecordPlan) (members : List Value) : List (String × Value) :=
  [("name", .string p.name), ("byte_order", .string p.byteOrder), ("members", .array members)]

def value (p : RecordPlan) : Value := .object (p.entries (p.members.map MemberPlan.value))

/-- A value describes the record by its entries, in any order, and its members one after the other. -/
def Describes (p : RecordPlan) (v : Value) : Prop :=
  ∃ entries members, v = .object entries ∧ entries.Perm (p.entries members) ∧
    List.Forall₂ MemberPlan.Describes p.members members

theorem build_eq (p : RecordPlan) :
    p.build = { name := p.name, byteOrder := p.byteOrder, members := p.members.map MemberPlan.build } := by
  rw [build, Record.foldl_withMember, List.nil_append]

/-- **What is listed presents the record that is built.** -/
theorem presents_of_describes {p : RecordPlan} {v : Value} (h : p.Describes v) :
    Presents p.build.rules v := by
  obtain ⟨entries, members, rfl, hperm, hmembers⟩ := h
  have hpresent : List.Forall₂ (fun m item => Presents m.rules item) (p.members.map MemberPlan.build)
      members :=
    List.forall₂_map_left_iff.mpr (hmembers.imp fun _ _ => MemberPlan.presents_of_describes)
  have hlisted : Presents p.build.rules (.object (p.entries members)) := by
    -- all three keys are given, so nothing is left to a default
    rw [build_eq]
    refine .object fun rule hrule => ?_
    simp only [Record.rules, List.mem_cons, List.not_mem_nil, or_false] at hrule
    rcases hrule with rfl | rfl | rfl
    · exact .once rfl rfl
    · exact .once rfl rfl
    · exact .once rfl ⟨members, rfl, hpresent⟩
  exact hlisted.of_perm hperm

theorem describes_value (p : RecordPlan) : p.Describes p.value := by
  refine ⟨_, _, rfl, .refl _, ?_⟩
  exact List.forall₂_map_right_iff.mpr (List.forall₂_same.mpr fun m _ => m.describes_value)

theorem hasCounts_value (p : RecordPlan) : p.value.HasCounts := by
  have hmembers : Json.HasCountsInItems (p.members.map MemberPlan.value) :=
    Json.hasCountsInItems_iff.mpr fun v hv => by
      obtain ⟨m, -, rfl⟩ := List.mem_map.mp hv
      exact m.hasCounts_value
  exact ⟨trivial, trivial, hmembers, trivial⟩

theorem normalized_build (p : RecordPlan) : p.build.normalized = p.build := by
  -- a tag that is made from a text is read back from it
  refine Record.normalized_eq_self_iff.mpr fun m hm => TypeTag.isStable_iff.mp ?_
  rw [build_eq] at hm
  obtain ⟨plan, -, rfl⟩ := List.mem_map.mp hm
  rw [MemberPlan.build_eq]
  exact TypeTag.isStable_ofText plan.type

end RecordPlan

/-! ## Building and reading -/

/-- **Building and reading give the same record.** The record of a plan, built change by change and member
by member, is read from the text in which the same is listed: the text of the listed value itself, and every
text of a value with the same entries in any order. It is also read back from its own text. -/
theorem building_agrees_with_reading (p : RecordPlan) :
    Record.ofText p.value.text = .ok p.build ∧
    (∀ v text, p.Describes v → ValueText v text → Record.ofText text = .ok p.build) ∧
    Record.ofText p.build.json = .ok p.build := by
  have hread : ∀ v text, p.Describes v → ValueText v text → Record.ofText text = .ok p.build := by
    intro v text hv htext
    rw [Record.ofText, Json.readText_of_valueText Record.read htext,
      Record.read_of_presents (RecordPlan.presents_of_describes hv), p.normalized_build]
  refine ⟨hread _ _ p.describes_value (Json.valueText_text p.hasCounts_value), hread, ?_⟩
  rw [Record.ofText_json, p.normalized_build]

/-- A plan with two changes of each kind. -/
def kindPlan : MemberPlan where
  name := "Kind"
  type := "uint8"
  size := .clamp 1
  changes := [.offset (.clamp 9), .byteOrder "little", .offset (.clamp 3), .byteOrder ""]

/-- A plan without changes. -/
def bodyPlan : MemberPlan where
  name := "Body"
  type := "UINT8"
  size := .clamp 4

def framePlan : RecordPlan := { name := "Frame", byteOrder := "big", members := [kindPlan, bodyPlan] }

/-- What is listed for the two, with all keys in the opposite order. -/
def frameValue : Value :=
  .object (framePlan.entries [
    .object [("byte_order", .string ""), ("offset", (Extent.clamp 3).value),
      ("size", (Extent.clamp 1).value), ("type", .string "uint8"), ("name", .string "Kind")],
    .object [("size", (Extent.clamp 4).value), ("type", .string "UINT8"), ("name", .string "Body")]]).reverse

/-- The last of the changes are listed, and read as what they have made. -/
theorem building_agrees_with_reading_frame :
    framePlan.Describes frameValue ∧ ValueText frameValue frameValue.text ∧
    Record.ofText frameValue.text = .ok {
      name := "Frame"
      byteOrder := "big"
      members := [
        { name := "Kind", tag := .unsigned .w8, size := .clamp 1, offset := .clamp 3,
          byteOrder := some "" },
        { name := "Body", tag := .other "UINT8", size := .clamp 4 }] } := by
  have hdescribes : framePlan.Describes frameValue := by
    refine ⟨_, _, rfl, List.reverse_perm _, .cons ?_ (.cons ?_ .nil)⟩
    · exact ⟨_, rfl, List.reverse_perm kindPlan.entries⟩
    · exact ⟨_, rfl, List.reverse_perm bodyPlan.entries⟩
  have htext : ValueText frameValue frameValue.text :=
    Json.valueText_text ⟨⟨⟨trivial, ⟨_, rfl⟩, ⟨_, rfl⟩, trivial, trivial, trivial⟩,
      ⟨⟨_, rfl⟩, trivial, trivial, trivial⟩, trivial⟩, trivial, trivial, trivial⟩
  exact ⟨hdescribes, htext, (building_agrees_with_reading framePlan).2.1 _ _ hdescribes htext⟩

end WireRecord
