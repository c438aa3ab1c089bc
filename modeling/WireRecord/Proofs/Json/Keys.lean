/-
What the keys of an object decide.

An object is read as a structure if the keys are right: no field may be given twice, and each field
without a default must be given. The main result, `readStruct_keysDecide`, is the law by which wrong keys
are reported, for every form and for every object in which what stands in a field can be read there. A
field that is given twice is reported before anything is missing, and of several such fields the one whose
second key comes first in the object; a missing field is reported only if none is given twice, and of
several missing fields the one that is declared first. Keys that are no labels have no part in it.

The order comes from the two passes of a reader. In the first pass, over the entries, only the second key
of a field stops it: before that key, the entries name different fields, and a draft is filled with these
and no others (`exists_draft_append`). The second pass is over the fields as they are declared. The law
itself is about lists of keys (`KeysDecide`), so it can be read without the reader.
-/
import WireRecord.Proofs.Json.Presentation

set_option autoImplicit false

namespace WireRecord.Json

/-! ## The law -/

/-- Of the known keys in a list, this is the one whose second place comes first: before that place it
stands once already, and no known key stands twice. -/
def FirstRepeated (known keys : List String) (key : String) : Prop :=
  ∃ before after, keys = before ++ key :: after ∧ key ∈ known ∧ key ∈ before ∧
    ∀ k ∈ known, before.count k ≤ 1

/-- **What the keys of an object decide**, for a structure with known keys of which some are required. -/
structure KeysDecide {α : Type} (known required keys : List String) (answer : Except Problem α) :
    Prop where
  /-- If a known key stands more than once, a key is reported that is given twice. -/
  duplicate : (∃ key ∈ known, 2 ≤ keys.count key) → ∃ key,
    (∀ other, FirstRepeated known keys other ↔ other = key) ∧
      answer = .error (.mismatch (.duplicateField key))
  /-- If not, and a required key is missing, the first one is reported. -/
  missing : (∀ key ∈ known, keys.count key ≤ 1) → ∀ key, required.find? (· ∉ keys) = some key →
    answer = .error (.mismatch (.missingField key))
  /-- If nothing is missing either, there is a value. -/
  complete : (∀ key ∈ known, keys.count key ≤ 1) → (∀ key ∈ required, key ∈ keys) →
    ∃ value, answer = .ok value

/-- If a known key stands more than once, there is a first place where one does. -/
theorem exists_firstRepeated {known keys : List String} (h : ∃ key ∈ known, 2 ≤ keys.count key) :
    ∃ key, FirstRepeated known keys key := by
  -- from the right: the last key is the one that is looked for, or it is found before
  induction keys using List.reverseRecOn with
  | nil =>
    obtain ⟨key, -, hcount⟩ := h
    simp at hcount
  | append_singleton keys last ih =>
    by_cases hbefore : ∃ key ∈ known, 2 ≤ keys.count key
    · obtain ⟨key, before, after, hkeys, hfirst⟩ := ih hbefore
      refine ⟨key, before, after ++ [last], ?_, hfirst⟩
      rw [hkeys, List.append_assoc, List.cons_append]
    · obtain ⟨key, hknown, hcount⟩ := h
      have honce : ∀ k ∈ known, keys.count k ≤ 1 := by
        intro k hk
        have hnot : ¬2 ≤ keys.count k := fun htwice => hbefore ⟨k, hk, htwice⟩
        omega
      have hkey := honce key hknown
      rw [List.count_append, List.count_singleton] at hcount
      have hlast : last = key := by
        by_contra hne
        rw [if_neg (by simpa using hne)] at hcount
        omega
      have hmem : key ∈ keys := by
        refine List.count_pos_iff.mp ?_
        split at hcount <;> omega
      rw [hlast]
      exact ⟨key, keys, [], rfl, hknown, hmem, honce⟩

/-! ## What can be read from a single value -/

theorem exists_map_eq_ok_iff {α β : Type} {result : Except Problem α} {f : α → β} :
    (∃ y, result.map f = .ok y) ↔ ∃ x, result = .ok x := by
  cases result <;> simp [Except.map]

theorem exists_mapM_eq_ok_iff {α : Type} {read : Document → Except Problem α}
    {documents : List Document} :
    (∃ xs, documents.mapM read = .ok xs) ↔ ∀ d ∈ documents, ∃ x, read d = .ok x := by
  induction documents with
  | nil => simp [pure, Except.pure]
  | cons d rest ih =>
    rw [List.forall_mem_cons, ← ih, List.mapM_cons]
    rcases read d with problem | x
    · simp [bind, Except.bind]
    · rcases rest.mapM read with problem | xs <;> simp [bind, Except.bind, pure, Except.pure]

namespace Document

variable {α : Type} {read : Document → Except Problem α} {v : Value}

theorem readString_parsed_iff {s : String} : v.parsed.readString = .ok s ↔ v = .string s := by
  cases v <;> simp [Value.parsed, readString]

theorem readBool_parsed_iff {b : Bool} : v.parsed.readBool = .ok b ↔ v = .bool b := by
  cases v <;> simp [Value.parsed, readBool]

theorem readExtent_parsed_iff {e : Extent} :
    v.parsed.readExtent = .ok e ↔ v = .number (.natural e) := by
  cases v with
  | number n => cases n <;> simp [Value.parsed, readExtent]
  | _ => simp [Value.parsed, readExtent]

theorem exists_readOption_parsed_iff :
    (∃ x, v.parsed.readOption read = .ok x) ↔ v = .null ∨ ∃ x, read v.parsed = .ok x := by
  cases v with
  | null => simp [Value.parsed, readOption]
  | _ => simp [Value.parsed, readOption, exists_map_eq_ok_iff]

theorem exists_readList_parsed_iff :
    (∃ xs, v.parsed.readList read = .ok xs) ↔
      ∃ items, v = .array items ∧ ∀ item ∈ items, ∃ x, read item.parsed = .ok x := by
  cases v with
  | array items =>
    have hitems : (Value.array items).parsed.readList read = (items.map Value.parsed).mapM read := by
      rw [Value.parsed, readList, parsedItems_eq_map]
      rcases (items.map Value.parsed).mapM read with problem | xs <;> rfl
    rw [hitems, exists_mapM_eq_ok_iff, List.forall_mem_map]
    simp
  | _ => simp [Value.parsed, readList]

end Document

namespace Form

variable {α : Type} {F : Form α} {entries : List (String × Value)}

/-! ## Complete drafts -/

/-- Of the fields that are empty in the end, the first one is reported. -/
theorem Draft.complete_eq_error {d : F.Draft} {f : F.Field}
    (h : (F.fields.find? fun f => (d.filled f).isNone) = some f) : d.complete = .error f := by
  unfold complete
  split
  · next g hg => rw [Option.some.inj (hg.symm.trans h)]
  · next hnone =>
    rw [hnone] at h
    cases h

theorem Draft.exists_complete_eq_ok {d : F.Draft} (h : ∀ f, d.filled f ≠ none) :
    ∃ value, d.complete = .ok value := by
  unfold complete
  split
  · next f hf =>
    have hempty : (d.filled f).isNone = true := List.find?_some (p := fun f => (d.filled f).isNone) hf
    exact absurd (Option.isNone_iff_eq_none.mp hempty) (h f)
  · exact ⟨_, rfl⟩

/-! ## Entries -/

/-- Whether all that stands in fields of a form can be read there. -/
def Fits (F : Form α) (entries : List (String × Value)) : Prop :=
  ∀ f v, (F.label f, v) ∈ entries → ∃ content, F.read f v.parsed = .ok content

/-- The fields that entries name, one for each entry that names one. -/
def named (F : Form α) (entries : List (String × Value)) : List F.Field :=
  entries.filterMap fun e => F.ofLabel? e.1

theorem mem_named_iff (hlabels : F.LabelsDistinct) {f : F.Field} :
    f ∈ F.named entries ↔ F.label f ∈ entries.map (·.1) := by
  rw [named, List.mem_filterMap, List.mem_map]
  exact exists_congr fun e => and_congr_right fun _ => ofLabel?_eq_some_iff hlabels

/-- No field is named twice if no label is a key twice. -/
theorem nodup_named (hlabels : F.LabelsDistinct)
    (honce : ∀ key ∈ F.fields.map F.label, (entries.map (·.1)).count key ≤ 1) :
    (F.named entries).Nodup := by
  let _ : DecidableEq F.Field := F.decEq
  refine List.nodup_iff_count_le_one.mpr fun f => ?_
  have hkey := honce (F.label f) (List.mem_map_of_mem (F.mem_fields f))
  rw [List.count, List.countP_map, List.countP_eq_length_filter] at hkey
  rw [named, count_named hlabels]
  exact hkey

/-- **Entries that name different fields fill a draft with these and no others**, and reading goes on
behind them. -/
theorem exists_draft_append (hlabels : F.LabelsDistinct) (hfits : F.Fits entries)
    (hnodup : (F.named entries).Nodup) {d : F.Draft} (hblank : ∀ f ∈ F.named entries, d f = none) :
    ∃ d' : F.Draft, (∀ f, d' f = none ↔ d f = none ∧ f ∉ F.named entries) ∧
      ∀ ending rest, F.readEntries d ending (parsedEntries entries ++ rest) =
        F.readEntries d' ending rest := by
  induction entries generalizing d with
  | nil => exact ⟨d, by simp [named], fun _ _ => rfl⟩
  | cons e entries ih =>
    obtain ⟨label, v⟩ := e
    have hrest : F.Fits entries := fun f v hv => hfits f v (List.mem_cons_of_mem _ hv)
    rcases hlabel : F.ofLabel? label with _ | f
    · have hnamed : F.named ((label, v) :: entries) = F.named entries :=
        List.filterMap_cons_none hlabel
      rw [hnamed] at hnodup hblank ⊢
      obtain ⟨d', hd', hread⟩ := ih hrest hnodup hblank
      refine ⟨d', hd', fun ending rest => ?_⟩
      rw [parsedEntries, List.cons_append,
        readEntries_cons_unknown hlabel (obstacle?_of_whole (whole_parsed v))]
      exact hread ending rest
    · have hnamed : F.named ((label, v) :: entries) = f :: F.named entries :=
        List.filterMap_cons_some hlabel
      rw [hnamed] at hnodup hblank ⊢
      obtain ⟨hf, hnodup⟩ := List.nodup_cons.mp hnodup
      obtain ⟨hblankf, hblank⟩ := List.forall_mem_cons.mp hblank
      have hmem : (F.label f, v) ∈ (label, v) :: entries := by
        rw [(ofLabel?_eq_some_iff hlabels).mp hlabel]
        exact List.mem_cons_self
      obtain ⟨content, hcontent⟩ := hfits f v hmem
      obtain ⟨d', hd', hread⟩ := ih hrest hnodup (Draft.set_blank hf hblank content)
      refine ⟨d', fun g => ?_, fun ending rest => ?_⟩
      · rw [hd', Draft.set_eq_none_iff, List.mem_cons, not_or, and_assoc]
      · rw [parsedEntries, List.cons_append, readEntries_cons_known hlabel hblankf hcontent]
        exact hread ending rest

/-! ## Objects -/

/-- The labels of the fields that must be given, as they are declared. -/
def requiredLabels (F : Form α) : List String :=
  (F.fields.filter fun f => (F.default? f).isNone).map F.label

/-- The first field given twice is reported, whatever comes behind its second key. -/
theorem readStruct_of_firstRepeated (hlabels : F.LabelsDistinct) (hfits : F.Fits entries) {key : String}
    (hkey : FirstRepeated (F.fields.map F.label) (entries.map (·.1)) key) :
    F.readStruct (Value.object entries).parsed = .error (.mismatch (.duplicateField key)) := by
  obtain ⟨before, after, hkeys, hknown, hmem, honce⟩ := hkey
  obtain ⟨f, -, rfl⟩ := List.mem_map.mp hknown
  obtain ⟨front, back, rfl, rfl, hback⟩ := List.map_eq_append_iff.mp hkeys
  obtain ⟨⟨label, v⟩, behind, rfl, hlabel, -⟩ := List.map_eq_cons_iff.mp hback
  obtain rfl : label = F.label f := hlabel
  have hfront : F.Fits front := fun f v hv => hfits f v (List.mem_append_left _ hv)
  obtain ⟨d, hd, hread⟩ := exists_draft_append hlabels hfront (nodup_named hlabels honce)
    (fun f _ => blank_apply f)
  -- the draft has the field already, because a key before has its label
  have hgiven : d f ≠ none := by
    intro hempty
    exact ((hd f).mp hempty).2 ((mem_named_iff hlabels).mpr hmem)
  have hsplit : parsedEntries (front ++ (F.label f, v) :: behind) =
      parsedEntries front ++ (some (F.label f), v.parsed) :: parsedEntries behind := by
    simp only [parsedEntries_eq_map, List.map_append, List.map_cons]
  rw [Value.parsed, readStruct, hsplit, hread, readEntries_cons_given (hlabels f) hgiven]
  rfl

/-- If no field is given twice, all entries are read, and a field is empty in the end if it has neither
an entry nor a default. -/
theorem exists_draft_of_once (hlabels : F.LabelsDistinct) (hfits : F.Fits entries)
    (honce : ∀ key ∈ F.fields.map F.label, (entries.map (·.1)).count key ≤ 1) :
    ∃ d : F.Draft, F.readEntries F.blank .closed (parsedEntries entries) = .ok d ∧
      ∀ f, d.filled f = none ↔ F.default? f = none ∧ F.label f ∉ entries.map (·.1) := by
  obtain ⟨d, hd, hread⟩ := exists_draft_append hlabels hfits (nodup_named hlabels honce)
    (fun f _ => blank_apply f)
  have hall := hread .closed []
  rw [List.append_nil] at hall
  refine ⟨d, hall, fun f => ?_⟩
  rw [Draft.filled, Option.or_eq_none_iff, hd, mem_named_iff hlabels]
  simp [and_comm]

/-- The first required label that is no key is that of the first field that is empty in the end. -/
theorem find?_requiredLabels {keys : List String} {d : F.Draft}
    (hd : ∀ f, d.filled f = none ↔ F.default? f = none ∧ F.label f ∉ keys) :
    F.requiredLabels.find? (· ∉ keys) =
      (F.fields.find? fun f => (d.filled f).isNone).map F.label := by
  rw [requiredLabels, List.find?_map, List.find?_filter]
  congr 2
  funext f
  rw [Bool.eq_iff_iff, decide_eq_true_iff, @Option.isNone_iff_eq_none _ (d.filled f), hd,
    Option.isNone_iff_eq_none, Function.comp_apply, decide_eq_true_iff]

/-- **The keys of an object decide how it is read.** -/
theorem readStruct_keysDecide (hlabels : F.LabelsDistinct) (hfits : F.Fits entries) :
    KeysDecide (F.fields.map F.label) F.requiredLabels (entries.map (·.1))
      (F.readStruct (Value.object entries).parsed) where
  duplicate h := by
    obtain ⟨key, hkey⟩ := exists_firstRepeated h
    have hanswer := readStruct_of_firstRepeated hlabels hfits hkey
    refine ⟨key, fun other => ⟨fun hother => ?_, fun heq => heq ▸ hkey⟩, hanswer⟩
    -- an object has one answer, so there is one such key
    rw [readStruct_of_firstRepeated hlabels hfits hother] at hanswer
    cases hanswer
    rfl
  missing honce key hkey := by
    obtain ⟨d, hread, hd⟩ := exists_draft_of_once hlabels hfits honce
    rw [find?_requiredLabels hd] at hkey
    obtain ⟨f, hf, rfl⟩ := Option.map_eq_some_iff.mp hkey
    rw [Value.parsed, readStruct, hread]
    simp only [bind, Except.bind, Draft.complete_eq_error hf]
  complete honce hrequired := by
    obtain ⟨d, hread, hd⟩ := exists_draft_of_once hlabels hfits honce
    have hfilled : ∀ f, d.filled f ≠ none := by
      intro f hempty
      obtain ⟨hdefault, habsent⟩ := (hd f).mp hempty
      refine habsent (hrequired _ (List.mem_map_of_mem (List.mem_filter.mpr ⟨F.mem_fields f, ?_⟩)))
      exact Option.isNone_iff_eq_none.mpr hdefault
    obtain ⟨value, hvalue⟩ := Draft.exists_complete_eq_ok hfilled
    refine ⟨value, ?_⟩
    rw [Value.parsed, readStruct, hread]
    simp only [bind, Except.bind, hvalue]
    rfl

/-- The keys of an object decide how its text is read, in whatever way it is written. -/
theorem readText_keysDecide (hlabels : F.LabelsDistinct) {text : String}
    (htext : ValueText (.object entries) text) (hfits : F.Fits entries) :
    KeysDecide (F.fields.map F.label) F.requiredLabels (entries.map (·.1))
      (readText F.readStruct text) := by
  rw [readText_of_valueText F.readStruct htext]
  exact readStruct_keysDecide hlabels hfits

end Form

end WireRecord.Json
