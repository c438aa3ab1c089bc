/-
Forms filled in by objects and by arrays.

An object fills in a form field by field, in any order of its keys and with keys between them that the
form does not know. What entries do to a draft is one equation (`readEntries_append`): if each entry fits
and no field is named twice, exactly the named fields are set, and reading goes on with the entries
behind. It holds whatever these are and however the object ends, so the same equation serves for an
object that is closed and for one that breaks off. The induction is over the entries and from any draft
without the fields that are still to come.

The main results are the two ways to give a structure: by an object that names some of its fields
(`readStruct_of_entries`), and by an array with the first of them (`readStruct_of_items`). In both, a
field that is not given must have a default. They hold of every form. A structure that was written is an
object with entries for its fields alone, which is described once (`Written`) for all that is to be said
of reading it, whole or cut off.
-/
import WireRecord.Json.Form
import Mathlib.Data.List.Forall2

set_option autoImplicit false

namespace WireRecord.Json

/-! ## Lists -/

/-- Documents are read one after the other if each is. -/
theorem mapM_of_forall₂ {α : Type} {read : Document → Except Problem α} {documents : List Document}
    {xs : List α} (h : List.Forall₂ (fun d x => read d = .ok x) documents xs) :
    documents.mapM read = .ok xs := by
  induction h with
  | nil => rfl
  | cons hfirst _ ih =>
    rw [List.mapM_cons, hfirst, ih]
    rfl

/-- A list is read if each item is. -/
theorem Document.readList_of_forall₂ {α : Type} {read : Document → Except Problem α}
    {documents : List Document} {xs : List α}
    (h : List.Forall₂ (fun d x => read d = .ok x) documents xs) :
    readList read (.array documents .closed) = .ok xs := by
  rw [readList, mapM_of_forall₂ h]
  rfl

namespace Form

variable {α : Type} {F : Form α} {given : (f : F.Field) → F.Content f}

/-- Whether each label leads back to its field. -/
def LabelsDistinct (F : Form α) : Prop := ∀ f, F.ofLabel? (F.label f) = some f

/-! ## Drafts -/

theorem Draft.set_eq_none_iff (d : F.Draft) {f g : F.Field} (content : F.Content f) :
    d.set f content g = none ↔ d g = none ∧ g ≠ f := by
  by_cases hsame : g = f
  · subst hsame
    simp
  · rw [set_of_ne d content (Ne.symm hsame)]
    simp [hsame]

/-- Setting a field leaves the others blank. -/
theorem Draft.set_blank {d : F.Draft} {f : F.Field} {fields : List F.Field} (hf : f ∉ fields)
    (hblank : ∀ g ∈ fields, d g = none) (content : F.Content f) :
    ∀ g ∈ fields, d.set f content g = none := by
  intro g hg
  refine (set_eq_none_iff d content).mpr ⟨hblank g hg, ?_⟩
  rintro rfl
  exact hf hg

/-- The draft with several fields more. -/
def Draft.give (given : (f : F.Field) → F.Content f) (d : F.Draft) (fields : List F.Field) : F.Draft :=
  fields.foldl (fun d f => d.set f (given f)) d

theorem Draft.give_of_not_mem {fields : List F.Field} {f : F.Field} (h : f ∉ fields) (d : F.Draft) :
    d.give given fields f = d f := by
  induction fields generalizing d with
  | nil => rfl
  | cons g rest ih =>
    rw [List.mem_cons, not_or] at h
    have hother : d.set g (given g) f = d f := set_of_ne d (given g) (Ne.symm h.1)
    rw [← hother]
    exact ih h.2 (d.set g (given g))

theorem Draft.give_of_mem {fields : List F.Field} {f : F.Field} (h : f ∈ fields) (d : F.Draft) :
    d.give given fields f = some (given f) := by
  induction fields generalizing d with
  | nil => cases h
  | cons g rest ih =>
    by_cases hrest : f ∈ rest
    · exact ih hrest (d.set g (given g))
    · obtain rfl : f = g := (List.mem_cons.mp h).resolve_right hrest
      have hkept : (d.set f (given f)).give given rest f = d.set f (given f) f :=
        give_of_not_mem hrest _
      rw [set_self] at hkept
      exact hkept

/-- A draft in which no field is missing is complete, and is the structure of what is in it. -/
theorem Draft.complete_eq_ok {d : F.Draft} (h : ∀ f, d.filled f = some (given f)) :
    d.complete = .ok (F.build given) := by
  unfold Draft.complete
  split
  · next f hf =>
    have hmissing := List.find?_some hf
    rw [h f] at hmissing
    cases hmissing
  · simp only [h, Option.get_some]

/-- No field is missing if the fields that are not given have defaults. -/
theorem Draft.complete_give {fields : List F.Field}
    (hdefault : ∀ f ∉ fields, F.default? f = some (given f)) :
    (Draft.give given F.blank fields).complete = .ok (F.build given) := by
  refine complete_eq_ok fun f => ?_
  by_cases hf : f ∈ fields
  · rw [filled, give_of_mem hf, Option.some_or]
  · rw [filled, give_of_not_mem hf, blank_apply, Option.none_or, hdefault f hf]

/-! ## Objects -/

/-- Whether an entry can be taken. What stands under the label of a field must be read as what is to be
given there; what stands under any other label is only skipped. -/
inductive Accepts (given : (f : F.Field) → F.Content f) : Entry → Prop
  | known {label : String} {f : F.Field} {d : Document} (hlabel : F.ofLabel? label = some f)
    (hread : F.read f d = .ok (given f)) : Accepts given (some label, d)
  | unknown {label : String} {d : Document} (hlabel : F.ofLabel? label = none)
    (hskip : d.obstacle? = none) : Accepts given (some label, d)

/-- The field that an entry names, if it names one. -/
def named? (F : Form α) (e : Entry) : Option F.Field := e.1.bind F.ofLabel?

/-! Reading one entry, whatever comes behind it. -/

section Step

variable {d : F.Draft} {label : String} {value : Document}

theorem readEntries_cons_known {f : F.Field} {content : F.Content f}
    (hlabel : F.ofLabel? label = some f) (hblank : d f = none) (hread : F.read f value = .ok content)
    (ending : Ending) (rest : List Entry) :
    F.readEntries d ending ((some label, value) :: rest) =
      F.readEntries (d.set f content) ending rest := by
  rw [readEntries, hlabel]
  simp only [hblank, hread, Option.isSome_none, Bool.false_eq_true, if_false]

theorem readEntries_cons_unknown (hlabel : F.ofLabel? label = none) (hskip : value.obstacle? = none)
    (ending : Ending) (rest : List Entry) :
    F.readEntries d ending ((some label, value) :: rest) = F.readEntries d ending rest := by
  rw [readEntries, hlabel]
  simp only [hskip]

theorem readEntries_cons_given {f : F.Field} (hlabel : F.ofLabel? label = some f) (hgiven : d f ≠ none)
    (ending : Ending) (rest : List Entry) :
    F.readEntries d ending ((some label, value) :: rest) =
      .error (.mismatch (.duplicateField (F.label f))) := by
  rw [readEntries, hlabel]
  simp only [Option.isSome_iff_ne_none.mpr hgiven, if_true]

theorem readEntries_cons_error {f : F.Field} {problem : Problem} (hlabel : F.ofLabel? label = some f)
    (hblank : d f = none) (hread : F.read f value = .error problem) (ending : Ending)
    (rest : List Entry) : F.readEntries d ending ((some label, value) :: rest) = .error problem := by
  rw [readEntries, hlabel]
  simp only [hblank, hread, Option.isSome_none, Bool.false_eq_true, if_false]

end Step

/-- **Entries for different fields give those fields and no others**, and reading goes on behind them. -/
theorem readEntries_append {entries : List Entry} (haccepts : ∀ e ∈ entries, Accepts given e)
    (hnodup : (entries.filterMap F.named?).Nodup) {d : F.Draft}
    (hblank : ∀ f ∈ entries.filterMap F.named?, d f = none) (ending : Ending) (rest : List Entry) :
    F.readEntries d ending (entries ++ rest) =
      F.readEntries (d.give given (entries.filterMap F.named?)) ending rest := by
  induction entries generalizing d with
  | nil => rfl
  | cons e entries ih =>
    obtain ⟨hfirst, hrest⟩ := List.forall_mem_cons.mp haccepts
    cases hfirst with
    | @known label f document hlabel hread =>
      have hnamed : F.named? (some label, document) = some f := hlabel
      rw [List.filterMap_cons_some hnamed] at hnodup hblank ⊢
      obtain ⟨hf, hnodup⟩ := List.nodup_cons.mp hnodup
      obtain ⟨hblankf, hblank⟩ := List.forall_mem_cons.mp hblank
      rw [List.cons_append, readEntries_cons_known hlabel hblankf hread]
      exact ih hrest hnodup (Draft.set_blank hf hblank (given f))
    | @unknown label document hlabel hskip =>
      have hnamed : F.named? (some label, document) = none := hlabel
      rw [List.filterMap_cons_none hnamed] at hnodup hblank ⊢
      rw [List.cons_append, readEntries_cons_unknown hlabel hskip]
      exact ih hrest hnodup hblank

/-- **An object that gives some fields, each once, is read as the structure of these**, if the others
have defaults. -/
theorem readStruct_of_entries {entries : List Entry} (haccepts : ∀ e ∈ entries, Accepts given e)
    (hnodup : (entries.filterMap F.named?).Nodup)
    (hdefault : ∀ f ∉ entries.filterMap F.named?, F.default? f = some (given f)) :
    F.readStruct (.object entries .closed) = .ok (F.build given) := by
  have hread := readEntries_append haccepts hnodup (d := F.blank) (fun f _ => blank_apply f) .closed []
  rw [List.append_nil] at hread
  rw [readStruct, hread]
  simp only [readEntries, Document.checkEnding, Except.map, bind, Except.bind,
    Draft.complete_give hdefault]
  rfl

/-! ## Objects with entries for fields alone -/

/-- The entry that gives a field. -/
def entry (F : Form α) (document : F.Field → Document) (f : F.Field) : Entry :=
  (some (F.label f), document f)

/-- What is written in some fields of a form, and what is to be read from that: each field is read from
what is written in it, and the others have their defaults. -/
structure Written (F : Form α) (given : (f : F.Field) → F.Content f) (document : F.Field → Document)
    (fields : List F.Field) : Prop where
  labelsDistinct : F.LabelsDistinct
  nodup : fields.Nodup
  read : ∀ f ∈ fields, F.read f (document f) = .ok (given f)
  default : ∀ f ∉ fields, F.default? f = some (given f)

namespace Written

variable {document : F.Field → Document} {fields : List F.Field}

theorem filterMap_entry (h : F.Written given document fields) (front : List F.Field) :
    (front.map (F.entry document)).filterMap F.named? = front := by
  have hnamed : F.named? ∘ F.entry document = some := funext h.labelsDistinct
  rw [List.filterMap_map, hnamed, List.filterMap_some]

theorem accepts (h : F.Written given document fields) :
    ∀ e ∈ fields.map (F.entry document), Accepts given e := by
  intro e he
  obtain ⟨f, hf, rfl⟩ := List.mem_map.mp he
  exact .known (h.labelsDistinct f) (h.read f hf)

/-- An object with all of the entries is read as what is to be read from it. -/
theorem readStruct (h : F.Written given document fields) :
    F.readStruct (.object (fields.map (F.entry document)) .closed) = .ok (F.build given) := by
  have hnamed := h.filterMap_entry fields
  exact readStruct_of_entries h.accepts (by rw [hnamed]; exact h.nodup) (by rw [hnamed]; exact h.default)

/-- The first of the entries give the first of the fields, and reading goes on behind them. -/
theorem readEntries_front {front back : List F.Field} (h : F.Written given document (front ++ back))
    (ending : Ending) (rest : List Entry) :
    F.readEntries F.blank ending (front.map (F.entry document) ++ rest) =
      F.readEntries (Draft.give given F.blank front) ending rest := by
  have hnamed := h.filterMap_entry front
  have hnodup : ((front.map (F.entry document)).filterMap F.named?).Nodup := by
    rw [hnamed]
    exact (List.nodup_append.mp h.nodup).1
  have haccepts : ∀ e ∈ front.map (F.entry document), Accepts given e := by
    intro e he
    refine h.accepts e ?_
    rw [List.map_append]
    exact List.mem_append_left _ he
  have happend := readEntries_append haccepts hnodup (fun f _ => blank_apply f) ending rest
  rwa [hnamed] at happend

end Written

/-! ## Arrays -/

theorem readItems_cons_error {d : F.Draft} {f : F.Field} {item : Document} {problem : Problem}
    (hread : F.read f item = .error problem) (ending : Ending) (fields : List F.Field)
    (rest : List Document) : F.readItems d ending (f :: fields) (item :: rest) = .error problem := by
  rw [readItems, hread]

/-- Items for the first fields give these, and reading goes on behind them. -/
theorem readItems_append {front : List F.Field} {items : List Document}
    (h : List.Forall₂ (fun f item => F.read f item = .ok (given f)) front items) (d : F.Draft)
    (ending : Ending) (back : List F.Field) (rest : List Document) :
    F.readItems d ending (front ++ back) (items ++ rest) =
      F.readItems (d.give given front) ending back rest := by
  induction h generalizing d with
  | nil => rfl
  | @cons f item front items hread _ ih =>
    rw [List.cons_append, List.cons_append, readItems, hread]
    exact ih (d.set f (given f))

/-- Items are the contents of the fields in their order. -/
theorem readItems_of_forall₂ {front : List F.Field} {items : List Document}
    (h : List.Forall₂ (fun f item => F.read f item = .ok (given f)) front items) (d : F.Draft)
    (back : List F.Field) :
    F.readItems d .closed (front ++ back) items = .ok (d.give given front, []) := by
  have happend := readItems_append h d .closed back []
  rw [List.append_nil] at happend
  rw [happend]
  cases back <;> rfl

/-- **An array that gives the first fields is read as the structure of these**, if the others have
defaults. -/
theorem readStruct_of_items {front back : List F.Field} (hfields : F.fields = front ++ back)
    {items : List Document}
    (hread : List.Forall₂ (fun f item => F.read f item = .ok (given f)) front items)
    (hdefault : ∀ f ∈ back, F.default? f = some (given f)) :
    F.readStruct (.array items .closed) = .ok (F.build given) := by
  have hothers : ∀ f ∉ front, F.default? f = some (given f) := by
    intro f hf
    have hmem : f ∈ front ++ back := hfields ▸ F.mem_fields f
    exact hdefault f ((List.mem_append.mp hmem).resolve_left hf)
  rw [readStruct, hfields, readItems_of_forall₂ hread]
  simp only [bind, Except.bind, Draft.complete_give hothers]
  rfl

end Form

end WireRecord.Json
