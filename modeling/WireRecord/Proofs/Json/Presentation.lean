/-
The ways to present a structure.

A structure is presented field by field, either by an object or by an array. An object has its keys in
any order, and between them any number of keys that belong to no field, with any values. An array has
the contents of the fields in their order. Either way a field may be left out if its content is its
default; from an array only the last ones can be. What the content of one field may look like is said by
a rule for this field (`FieldRule`), so that fields that are structures or lists of structures are
presented in any of their own ways.

The main result, `readStruct_of_presents`, is that a form reads every presentation as the same structure.
The rules are not taken from the form: they are a description of their own, and what is asked of the form
is that it reads what they allow.
-/
import WireRecord.Proofs.Json.Form
import WireRecord.Proofs.Json.Parsing
import Mathlib.Data.List.Nodup

set_option autoImplicit false

namespace WireRecord.Json

/-- How the content of one field may be presented. -/
structure FieldRule where
  label : String
  /-- The values that present the content. -/
  Fits : Value → Prop
  /-- Whether the content is what an absent field has. -/
  Omittable : Prop

/-- An object has the field once, with a value that fits, or leaves it out. -/
inductive FieldRule.Kept (rule : FieldRule) (entries : List (String × Value)) : Prop
  | once {v : Value} (hentries : entries.filter (·.1 = rule.label) = [(rule.label, v)])
    (hfits : rule.Fits v) : rule.Kept entries
  | leftOut (hentries : entries.filter (·.1 = rule.label) = []) (homittable : rule.Omittable) :
    rule.Kept entries

/-- The ways to present a structure with the given rules for its fields. -/
inductive Presents (rules : List FieldRule) : Value → Prop
  | object {entries : List (String × Value)} (h : ∀ rule ∈ rules, rule.Kept entries) :
    Presents rules (.object entries)
  | array {front back : List FieldRule} {items : List Value} (hrules : rules = front ++ back)
    (hfits : List.Forall₂ (fun rule v => rule.Fits v) front items)
    (homittable : ∀ rule ∈ back, rule.Omittable) : Presents rules (.array items)

/-- An entry under the label of a field is the only one, and fits. -/
theorem FieldRule.Kept.fits {rule : FieldRule} {entries : List (String × Value)} (h : rule.Kept entries)
    {v : Value} (hv : (rule.label, v) ∈ entries) : rule.Fits v := by
  have hmem : (rule.label, v) ∈ entries.filter (·.1 = rule.label) :=
    List.mem_filter.mpr ⟨hv, decide_eq_true rfl⟩
  cases h with
  | once hentries hfits =>
    rw [hentries, List.mem_singleton, Prod.mk.injEq] at hmem
    rwa [hmem.2]
  | leftOut hentries _ =>
    rw [hentries] at hmem
    cases hmem

theorem FieldRule.Kept.length_le {rule : FieldRule} {entries : List (String × Value)}
    (h : rule.Kept entries) : (entries.filter (·.1 = rule.label)).length ≤ 1 := by
  cases h with
  | once hentries _ => rw [hentries, List.length_singleton]
  | leftOut hentries _ => simp [hentries]

/-- A field without an entry has been left out. -/
theorem FieldRule.Kept.omittable {rule : FieldRule} {entries : List (String × Value)}
    (h : rule.Kept entries) (hnone : ∀ v, (rule.label, v) ∉ entries) : rule.Omittable := by
  cases h with
  | @once v hentries _ =>
    have hmem : (rule.label, v) ∈ entries.filter (·.1 = rule.label) := by
      rw [hentries]
      exact List.mem_cons_self
    exact absurd (List.mem_filter.mp hmem).1 (hnone v)
  | leftOut _ homittable => exact homittable

/-- The order of the entries makes no difference to a field. -/
theorem FieldRule.Kept.of_perm {rule : FieldRule} {entries entries' : List (String × Value)}
    (h : rule.Kept entries') (hperm : entries.Perm entries') : rule.Kept entries := by
  have hfilter := hperm.filter (·.1 = rule.label)
  cases h with
  | once hentries hfits =>
    rw [hentries] at hfilter
    exact .once (List.perm_singleton.mp hfilter) hfits
  | leftOut hentries homittable =>
    rw [hentries] at hfilter
    exact .leftOut hfilter.eq_nil homittable

/-- The keys of an object may stand in any order. -/
theorem Presents.of_perm {rules : List FieldRule} {entries entries' : List (String × Value)}
    (h : Presents rules (.object entries')) (hperm : entries.Perm entries') :
    Presents rules (.object entries) := by
  cases h with
  | object hkept => exact .object fun rule hrule => (hkept rule hrule).of_perm hperm

namespace Form

variable {α : Type} {F : Form α} {given : (f : F.Field) → F.Content f}

/-- A form reads what the rules allow: they are about its labels, what fits is read as what is to be
given, and what may be left out is the default. -/
structure ReadsBy (F : Form α) (rule : F.Field → FieldRule) (given : (f : F.Field) → F.Content f) :
    Prop where
  label : ∀ f, (rule f).label = F.label f
  read : ∀ f v, (rule f).Fits v → F.read f v.parsed = .ok (given f)
  default : ∀ f, (rule f).Omittable → F.default? f = some (given f)

theorem ofLabel?_eq_some_iff (hlabels : F.LabelsDistinct) {label : String} {f : F.Field} :
    F.ofLabel? label = some f ↔ label = F.label f := by
  constructor
  · intro h
    unfold ofLabel? at h
    have hfound := List.find?_some h
    exact (of_decide_eq_true hfound).symm
  · rintro rfl
    exact hlabels f

theorem LabelsDistinct.label_inj (hlabels : F.LabelsDistinct) {f g : F.Field}
    (h : F.label f = F.label g) : f = g := by
  have hfield := hlabels f
  rw [h, hlabels g] at hfield
  exact (Option.some.inj hfield).symm

section Objects

variable {rule : F.Field → FieldRule} {entries : List (String × Value)}

/-- The fields that the entries of an object name. -/
theorem filterMap_parsedEntries (entries : List (String × Value)) :
    (parsedEntries entries).filterMap F.named? = entries.filterMap fun e => F.ofLabel? e.1 := by
  rw [parsedEntries_eq_map, List.filterMap_map]
  rfl

/-- Every entry of a presentation can be taken, also one that belongs to no field. -/
theorem accepts_of_kept (hlabels : F.LabelsDistinct) (hrule : F.ReadsBy rule given)
    (hkept : ∀ f, (rule f).Kept entries) : ∀ e ∈ parsedEntries entries, Accepts given e := by
  intro e he
  rw [parsedEntries_eq_map] at he
  obtain ⟨⟨label, v⟩, hv, rfl⟩ := List.mem_map.mp he
  by_cases hlabel : ∃ f, F.ofLabel? label = some f
  · obtain ⟨f, hf⟩ := hlabel
    have hsame : label = (rule f).label := by
      rw [hrule.label, (ofLabel?_eq_some_iff hlabels).mp hf]
    rw [hsame] at hv
    exact .known hf (hrule.read f v ((hkept f).fits hv))
  · rw [← Option.isSome_iff_exists, Option.not_isSome_iff_eq_none] at hlabel
    exact .unknown hlabel (obstacle?_of_whole (whole_parsed v))

/-- A field is named as often as its label is a key. -/
theorem count_named [DecidableEq F.Field] (hlabels : F.LabelsDistinct)
    (entries : List (String × Value)) (f : F.Field) :
    (entries.filterMap fun e => F.ofLabel? e.1).count f =
      (entries.filter (·.1 = F.label f)).length := by
  rw [List.count, List.countP_filterMap, ← List.countP_eq_length_filter]
  refine List.countP_congr fun e _ => ?_
  rw [decide_eq_true_iff, ← ofLabel?_eq_some_iff hlabels]
  cases F.ofLabel? e.1 <;> simp

/-- No field is named twice, because it would have two entries. -/
theorem nodup_named_of_kept (hlabels : F.LabelsDistinct) (hrule : F.ReadsBy rule given)
    (hkept : ∀ f, (rule f).Kept entries) : ((parsedEntries entries).filterMap F.named?).Nodup := by
  let _ : DecidableEq F.Field := F.decEq
  rw [filterMap_parsedEntries]
  refine List.nodup_iff_count_le_one.mpr fun f => ?_
  rw [count_named hlabels, ← hrule.label]
  exact (hkept f).length_le

/-- A field that no entry names may be left out. -/
theorem default?_of_kept (hlabels : F.LabelsDistinct) (hrule : F.ReadsBy rule given)
    (hkept : ∀ f, (rule f).Kept entries) :
    ∀ f ∉ (parsedEntries entries).filterMap F.named?, F.default? f = some (given f) := by
  intro f hf
  rw [filterMap_parsedEntries] at hf
  refine hrule.default f ((hkept f).omittable fun v hv => hf ?_)
  refine List.mem_filterMap.mpr ⟨_, hv, ?_⟩
  rw [hrule.label]
  exact hlabels f

end Objects

/-- **Every presentation is read as the same structure.** -/
theorem readStruct_of_presents (hlabels : F.LabelsDistinct) {rule : F.Field → FieldRule}
    (hrule : F.ReadsBy rule given) {v : Value} (h : Presents (F.fields.map rule) v) :
    F.readStruct v.parsed = .ok (F.build given) := by
  cases h with
  | @object entries hkept =>
    have hkept : ∀ f, (rule f).Kept entries := fun f => hkept _ (List.mem_map_of_mem (F.mem_fields f))
    exact readStruct_of_entries (accepts_of_kept hlabels hrule hkept)
      (nodup_named_of_kept hlabels hrule hkept) (default?_of_kept hlabels hrule hkept)
  | @array front back items hrules hfits homittable =>
    obtain ⟨front, back, hfields, rfl, rfl⟩ := List.map_eq_append_iff.mp hrules
    have hitems : List.Forall₂ (fun f item => F.read f item = .ok (given f)) front
        (parsedItems items) := by
      rw [parsedItems_eq_map, List.forall₂_map_right_iff]
      exact (List.forall₂_map_left_iff.mp hfits).imp fun f v => hrule.read f v
    exact readStruct_of_items hfields hitems fun f hf =>
      hrule.default f (homittable _ (List.mem_map_of_mem hf))

end Form

end WireRecord.Json
