/-
Structures read from texts that are cut off.

A structure that was written as an object is read from what is left of its text. Each entry that is left
is whole but for the last, so up to there reading goes as it does in the whole text. A reader that meets
the end of the text reports it as soon as it does, and a reader that is content with what is left of its
own value leaves the report to the object around it, which has no end (`Form.Written.readStruct_cut`). So
no text that is cut off is taken for a structure in which the rest has its defaults: the main result,
`Form.Written.readText_of_isPrefix`, is that the end of the text is all that is ever reported.

What is asked of the reader of each field is that it finds nothing else wrong with what may be left of its
value (`Awaits`). It may well succeed, since what is left of a number is a number.
-/
import WireRecord.Proofs.Json.Form
import WireRecord.Proofs.Json.Truncation.Documents

set_option autoImplicit false

namespace WireRecord.Json

/-! ## Readers that wait for more -/

/-- Whether nothing can be wrong but that the text has ended. -/
def OnlyEnded {α : Type} (result : Except Problem α) : Prop :=
  ∀ problem, result = .error problem → problem = .fault .ended

theorem onlyEnded_ok {α : Type} (x : α) : OnlyEnded (.ok x) := by
  intro problem h
  cases h

theorem onlyEnded_ended {α : Type} : OnlyEnded (.error (.fault .ended) : Except Problem α) := by
  intro problem h
  exact (Except.error.inj h).symm

theorem OnlyEnded.bind {α β : Type} {result : Except Problem α} {next : α → Except Problem β}
    (h : OnlyEnded result) (hnext : ∀ x, OnlyEnded (next x)) : OnlyEnded (result >>= next) := by
  rcases result with problem | x
  · intro problem' heq
    obtain rfl : problem = problem' := Except.error.inj heq
    exact h problem rfl
  · exact hnext x

theorem OnlyEnded.map {α β : Type} {result : Except Problem α} (h : OnlyEnded result) (f : α → β) :
    OnlyEnded (result.map f) := by
  rcases result with problem | x
  · intro problem' heq
    obtain rfl : problem = problem' := Except.error.inj heq
    exact h problem rfl
  · exact onlyEnded_ok (f x)

theorem onlyEnded_mapM {α : Type} {read : Document → Except Problem α} {documents : List Document}
    (h : ∀ d ∈ documents, OnlyEnded (read d)) : OnlyEnded (documents.mapM read) := by
  induction documents with
  | nil => exact onlyEnded_ok []
  | cons d rest ih =>
    obtain ⟨hd, hrest⟩ := List.forall_mem_cons.mp h
    rw [List.mapM_cons]
    exact hd.bind fun x => (ih hrest).bind fun xs => onlyEnded_ok (x :: xs)

/-- Whether nothing else is wrong with what may be left of a document. -/
def Awaits {α : Type} (read : Document → Except Problem α) (d : Document) : Prop :=
  ∀ left, left.Cut d → OnlyEnded (read left)

theorem awaits_string (s : String) : Awaits Document.readString (.string (some s)) := by
  intro left h
  cases h with
  | whole => exact onlyEnded_ok s
  | missing => exact onlyEnded_ended

theorem awaits_bool (b : Bool) : Awaits Document.readBool (.bool b) := by
  intro left h
  cases h with
  | whole => exact onlyEnded_ok b
  | missing => exact onlyEnded_ended

theorem awaits_extent (e : Extent) : Awaits Document.readExtent (.number (some (.natural e))) := by
  intro left h
  cases h with
  | whole => exact onlyEnded_ok e
  | missing => exact onlyEnded_ended
  | number e' => exact onlyEnded_ok e'

theorem Awaits.map {α β : Type} {read : Document → Except Problem α} {d : Document} (h : Awaits read d)
    (f : α → β) : Awaits (fun d => (read d).map f) d :=
  fun left hleft => (h left hleft).map f

theorem Awaits.option {α : Type} {read : Document → Except Problem α} {d : Document} (h : Awaits read d) :
    Awaits (Document.readOption read) d := by
  intro left hleft
  unfold Document.readOption
  split
  · exact onlyEnded_ok none
  · exact (h left hleft).map some

/-- Every item that is left is left of an item. -/
theorem ItemsCut.exists_cut {left items : List Document} (h : ItemsCut left items) :
    ∀ d ∈ left, ∃ whole ∈ items, d.Cut whole := by
  intro d hd
  cases h with
  | between _ after => exact ⟨d, List.mem_append_left after hd, .whole d⟩
  | @inside before after last whole hcut =>
    rcases List.mem_append.mp hd with hbefore | hlast
    · exact ⟨d, List.mem_append_left _ hbefore, .whole d⟩
    · rw [List.mem_singleton.mp hlast]
      exact ⟨whole, List.mem_append_right _ List.mem_cons_self, hcut⟩

/-- A list that is cut off is found too short, unless an item is before. -/
theorem awaits_list {α : Type} {read : Document → Except Problem α} {documents : List Document}
    (h : ∀ d ∈ documents, Awaits read d) :
    Awaits (Document.readList read) (.array documents .closed) := by
  intro left hleft
  cases hleft with
  | whole =>
    have hitems := onlyEnded_mapM fun d hd => h d hd d (.whole d)
    exact hitems.bind fun xs => onlyEnded_ok xs
  | missing => exact onlyEnded_ended
  | @array left _ hcut =>
    have hitems : OnlyEnded (left.mapM read) := by
      refine onlyEnded_mapM fun d hd => ?_
      obtain ⟨whole, hwhole, hd⟩ := hcut.exists_cut d hd
      exact h whole hwhole d hd
    exact hitems.bind fun _ => onlyEnded_ended

/-! ## Structures -/

namespace Form

variable {α : Type} {F : Form α} {given : (f : F.Field) → F.Content f}
  {document : F.Field → Document} {fields : List F.Field}

/-- The last entry of an object that is cut off: either its value is found too short, or the object is. -/
theorem readEntries_last_cut (hlabels : F.LabelsDistinct) {d : F.Draft} {f : F.Field}
    (hblank : d f = none) {left : Document} (h : OnlyEnded (F.read f left)) :
    F.readEntries d (.cut (.both .ended)) [(some (F.label f), left)] = .error (.fault .ended) := by
  rw [readEntries, hlabels f]
  simp only [hblank, Option.isSome_none, Bool.false_eq_true, if_false]
  rcases hresult : F.read f left with problem | content
  · rw [h problem hresult]
  · rfl

namespace Written

/-- **An object that is cut off is found too short**, whichever fields have defaults. -/
theorem readStruct_cut (h : F.Written given document fields)
    (hawaits : ∀ f ∈ fields, Awaits (F.read f) (document f)) {left : List Entry}
    (hleft : EntriesCut left (fields.map (F.entry document))) :
    F.readStruct (.object left (.cut (.both .ended))) = .error (.fault .ended) := by
  suffices hentries : F.readEntries F.blank (.cut (.both .ended)) left = .error (.fault .ended) by
    rw [Form.readStruct, hentries]
    rfl
  generalize hall : fields.map (F.entry document) = entries at hleft
  cases hleft with
  | between _ after =>
    -- the entries that are left are whole, and the end is due
    obtain ⟨front, back, rfl, rfl, -⟩ := List.map_eq_append_iff.mp hall
    have hfront := h.readEntries_front (.cut (.both .ended)) []
    rw [List.append_nil] at hfront
    rw [hfront]
    rfl
  | @inside before after key last whole hcut =>
    -- the last entry is for a field that those before it have left blank
    obtain ⟨front, _, rfl, rfl, hback⟩ := List.map_eq_append_iff.mp hall
    obtain ⟨f, back, rfl, hf, -⟩ := List.map_eq_cons_iff.mp hback
    obtain ⟨rfl, rfl⟩ := Prod.mk.inj hf
    obtain ⟨-, -, hdisjoint⟩ := List.nodup_append.mp h.nodup
    have hnew : f ∉ front := fun hmem => hdisjoint f hmem f List.mem_cons_self rfl
    have hblank : Draft.give given F.blank front f = none := Draft.give_of_not_mem hnew F.blank
    rw [h.readEntries_front]
    exact readEntries_last_cut h.labelsDistinct hblank
      (hawaits f (List.mem_append_right front List.mem_cons_self) last hcut)

/-- A structure waits for the rest of its object. -/
theorem awaits (h : F.Written given document fields)
    (hawaits : ∀ f ∈ fields, Awaits (F.read f) (document f)) :
    Awaits F.readStruct (.object (fields.map (F.entry document)) .closed) := by
  intro left hleft
  cases hleft with
  | whole =>
    rw [h.readStruct]
    exact onlyEnded_ok (F.build given)
  | missing => exact onlyEnded_ended
  | object hcut =>
    rw [h.readStruct_cut hawaits hcut]
    exact onlyEnded_ended

/-- **The text of a structure that is cut off anywhere is found too short**, even if all fields that must
be given are in it. -/
theorem readText_of_isPrefix (h : F.Written given document fields)
    (hawaits : ∀ f ∈ fields, Awaits (F.read f) (document f)) {v : Value} (hcounts : v.HasCounts)
    (hv : v.parsed = .object (fields.map (F.entry document)) .closed) {p : String}
    (hp : p.toList <+: v.text.toList) (hne : p ≠ v.text) :
    readText F.readStruct p = .error (.fault .ended) := by
  cases v with
  | object entries =>
    obtain ⟨hentries, -⟩ := Document.object.inj hv
    rcases Json.readText_of_isPrefix F.readStruct hcounts hp hne with hnone | ⟨left, hleft, hread⟩
    · rw [hnone]
      rfl
    · rw [hentries] at hleft
      rw [hread, h.readStruct_cut hawaits hleft]
  | _ => cases hv

end Written

end Form

end WireRecord.Json
