/-
What the text of a type definition tells about a record.

A type definition prints the name of its record and, for each member, the name and the text of the tag.
The main result, `definition_text_eq_iff`, says that it tells exactly this and no more: two definitions
have the same text if and only if the records have the same name and their members agree one by one, and
are as many, in their names and in the texts of their tags. A tag may look like the rest of a definition,
with spaces and braces in it. What is demanded is that names and tags stay on their lines and that the
name of a member has no space; for the first space of a line is what ends the name.

The demands are for reading the text, not for making it. Records that agree in all that is printed have
the same definition whatever their names are, and then sizes, offsets and byte orders, which may differ,
have no part in it.
-/
import WireRecord.Proofs.Go.Sections

set_option autoImplicit false

namespace WireRecord

/-- The names and the tags stay on their lines, and the name of a member ends at the first space. -/
structure Record.Declarable (r : Record) : Prop extends r.OnLines where
  unspaced : ∀ m ∈ r.members, ' ' ∉ m.name.toList

/-- Two members agree in all that is printed where they are declared. -/
structure Member.DeclaredAlike (m m' : Member) : Prop where
  name : m.name = m'.name
  tag : m.tag.text = m'.tag.text

namespace Go

theorem declaredAlike_of_line_eq {m m' : Member} (hm : ' ' ∉ m.name.toList)
    (hm' : ' ' ∉ m'.name.toList)
    (h : "\t" ++ m.name ++ " " ++ m.tag.text = "\t" ++ m'.name ++ " " ++ m'.tag.text) :
    m.DeclaredAlike m' := by
  have hchars : m.name.toList ++ ' ' :: m.tag.text.toList =
      m'.name.toList ++ ' ' :: m'.tag.text.toList := by
    simpa using congrArg String.toList h
  obtain ⟨hname, htag⟩ := Text.append_cons_inj hm hm' hchars
  exact ⟨String.toList_inj.mp hname, String.toList_inj.mp htag⟩

/-- **The lines of a definition tell the name and the members.** -/
theorem of_definitionLines_eq {r r' : Record} (hr : r.Declarable) (hr' : r'.Declarable)
    (h : definitionLines r = definitionLines r') :
    r.name = r'.name ∧ List.Forall₂ Member.DeclaredAlike r.members r'.members := by
  obtain ⟨hfirst, hrest⟩ := List.cons.inj h
  rw [String.append_left_inj, String.append_right_inj] at hfirst
  refine ⟨hfirst, ?_⟩
  -- the line behind the members is the same in both, and each member has one line
  have hlines := List.append_cancel_right hrest
  rw [← List.forall₂_eq_eq_eq, List.forall₂_map_left_iff, List.forall₂_map_right_iff] at hlines
  have hleft := (List.forall₂_and_left _ _).mpr ⟨hr.unspaced, hlines⟩
  have hboth := (List.forall₂_and_left _ _).mpr ⟨hr'.unspaced, hleft.flip⟩
  apply hboth.flip.imp
  rintro m m' ⟨hm', hm, hline⟩
  exact declaredAlike_of_line_eq hm hm' hline

/-- What is not printed makes no difference. -/
theorem definition_congr {r r' : Record} (hname : r.name = r'.name)
    (hmembers : List.Forall₂ Member.DeclaredAlike r.members r'.members) :
    definition r = definition r' := by
  have hdeclared : r.members.map declaration = r'.members.map declaration := by
    rw [← List.forall₂_eq_eq_eq, List.forall₂_map_left_iff, List.forall₂_map_right_iff]
    apply hmembers.imp
    intro m m' h
    rw [declaration, declaration, h.name, h.tag]
  rw [definition, definition, hname, hdeclared]

/-- **The text of a type definition tells the names and the tags, and nothing else.** Two definitions
have the same text exactly if the names of the records are equal and the members agree one by one in name
and in the text of the tag. Whatever the names are, records that agree in these have the same definition,
however they differ in sizes, offsets and byte orders; a type that is understood is printed like one that
was only kept under the same text; and a member that was made from the text of its tag is printed with
that text. -/
theorem definition_text_eq_iff :
    (∀ r r' : Record, r.Declarable → r'.Declarable →
      ((emitDefinition r).text = (emitDefinition r').text ↔
        r.name = r'.name ∧ List.Forall₂ Member.DeclaredAlike r.members r'.members)) ∧
    (∀ r r' : Record, r.name = r'.name → List.Forall₂ Member.DeclaredAlike r.members r'.members →
      (emitDefinition r).text = (emitDefinition r').text) ∧
    (∀ (name token spelling : String) (before after : List Member) (m : Member),
      (emitDefinition ⟨name, token, before ++ { m with tag := .ofText spelling } :: after⟩).text =
        (emitDefinition ⟨name, token, before ++ { m with tag := .other spelling } :: after⟩).text) ∧
    ∀ (name token : String) (spelled : List (Member × String)),
      (emitDefinition ⟨name, token, spelled.map fun (m, spelling) =>
          { m with tag := .ofText spelling }⟩).text =
        "type " ++ name ++ " struct \x7b\n"
          ++ String.join (spelled.map fun (m, spelling) => "\t" ++ m.name ++ " " ++ spelling ++ "\n")
          ++ "\x7d" := by
  simp only [text_emitDefinition]
  refine ⟨?_, fun _ _ => definition_congr, ?_, ?_⟩
  · intro r r' hr hr'
    constructor
    · intro h
      have hd := isBlock_definitionLines hr.toOnLines
      have hd' := isBlock_definitionLines hr'.toOnLines
      rw [definition_eq_ofLines, definition_eq_ofLines,
        Text.ofLines_inj hd.isLine hd'.isLine hd.ne_nil hd'.ne_nil] at h
      exact of_definitionLines_eq hr hr' h
    · rintro ⟨hname, hmembers⟩
      exact definition_congr hname hmembers
  · intro name token spelling before after m
    have hsame : ∀ l : List Member, List.Forall₂ Member.DeclaredAlike l l := fun l =>
      List.forall₂_same.mpr fun _ _ => ⟨rfl, rfl⟩
    refine definition_congr rfl (List.rel_append (hsame before) (.cons ⟨rfl, ?_⟩ (hsame after)))
    exact TypeTag.text_ofText spelling
  · intro name token spelled
    rw [definition, List.map_map]
    refine congrArg (fun lines => _ ++ String.join lines ++ _) (List.map_congr_left ?_)
    rintro ⟨m, spelling⟩ -
    rw [Function.comp_apply, declaration, TypeTag.text_ofText]

/-- A member of a type of several words, which looks like the end of the definition and the beginning of
another. -/
def ledgerRecord : Record where
  name := "Ledger"
  members := [
    { name := "Seq", tag := .unsigned .w16, size := .clamp 2 },
    { name := "Body", tag := .other "[4]byte \x7d type Ledger struct \x7b", size := .clamp 4 }]

/-- The same names and tags in another layout. The first tag is one that was kept. -/
def ledgerRecordMoved : Record where
  name := "Ledger"
  byteOrder := "big"
  members := [
    { name := "Seq", tag := .other "uint16", size := .clamp 8, byteOrder := some "l" },
    { name := "Body", tag := .other "[4]byte \x7d type Ledger struct \x7b", size := .clamp 1,
      offset := .clamp 6 }]

/-- The layout does not show in the definition, but the order of the members does. -/
theorem definition_text_ledger :
    ledgerRecord.Declarable ∧ ledgerRecordMoved.Declarable ∧
      (emitDefinition ledgerRecord).text = (emitDefinition ledgerRecordMoved).text ∧
      (emitDefinition ledgerRecord).text ≠
        (emitDefinition { ledgerRecord with members := ledgerRecord.members.reverse }).text := by
  have hledger : ledgerRecord.Declarable := ⟨⟨by decide, by decide, by decide⟩, by decide⟩
  have hmoved : ledgerRecordMoved.Declarable := ⟨⟨by decide, by decide, by decide⟩, by decide⟩
  have hreversed : ({ ledgerRecord with members := ledgerRecord.members.reverse } : Record).Declarable :=
    ⟨⟨by decide, by decide, by decide⟩, by decide⟩
  obtain ⟨hiff, -⟩ := definition_text_eq_iff
  refine ⟨hledger, hmoved, (hiff _ _ hledger hmoved).mpr ⟨rfl, ?_⟩, ?_⟩
  · exact .cons ⟨rfl, rfl⟩ (.cons ⟨rfl, rfl⟩ .nil)
  · rw [Ne, hiff _ _ hledger hreversed]
    rintro ⟨-, hmembers⟩
    cases hmembers with
    | cons hfirst _ => exact absurd hfirst.name (by decide)

end Go

end WireRecord
