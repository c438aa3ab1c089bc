/-
What the text of a source file tells about its records.

A source file is a list of blocks: the remark that it is generated, the package clause, the import, and
then the type definition and the serializer of each record. How many blocks there are depends on what is
optional, and no block says how long it is. The main result, `source_text_eq_iff`, says that the text
can still be read in one way only: two source files have the same text if and only if the choices about
the file agree and the records agree, one by one, in the texts of their definitions and of their
serializers. A name may look like the beginning of any block; the only demand is that names and tags
stay on their lines.

The argument has two steps. The text of a file is the text of its blocks (`text_emitSource`), and since
every block has a line and no empty one, the blank lines tell the blocks apart (`Text.ofBlocks_inj`).
From the list of blocks the optional ones are then recognised by what else could stand in their place:
the remark is not a package clause, and the import has one line, where a definition has at least two.
Whether there is an import is no choice of its own: equal serializers write the same integers
(`any_isInteger_congr`).
-/
import WireRecord.Go.Source
import WireRecord.Proofs.Go.SerializerText

set_option autoImplicit false

namespace WireRecord

open Text (IsLine isLine_append IsBlock ofLines ofBlocks)

/-- The names of a record and of its members, and the tags, stay on their lines. -/
structure Record.OnLines (r : Record) : Prop where
  name : IsLine r.name
  member : ∀ m ∈ r.members, IsLine m.name
  tag : ∀ m ∈ r.members, IsLine m.tag.text

theorem Record.OnLines.writtenOnLines {r : Record} (h : r.OnLines) : r.WrittenOnLines :=
  ⟨h.name, fun m hm _ => h.member m hm⟩

namespace Go

open Emission

/-! ## The blocks of a record -/

/-- The lines of a type definition. -/
def definitionLines (r : Record) : List String :=
  ("type " ++ r.name ++ " struct \x7b")
    :: (r.members.map (fun m => "\t" ++ m.name ++ " " ++ m.tag.text) ++ ["\x7d"])

theorem definition_eq_ofLines (r : Record) : definition r = ofLines (definitionLines r) := by
  have hbody : r.members.map declaration =
      (r.members.map fun m => "\t" ++ m.name ++ " " ++ m.tag.text).map (· ++ "\n") := by
    rw [List.map_map]
    rfl
  rw [definitionLines, ← List.cons_append, Text.ofLines_concat, List.map_cons, String.join_cons, ← hbody,
    definition]
  simp only [String.append_assoc]
  rfl

theorem isBlock_definitionLines {r : Record} (h : r.OnLines) : IsBlock (definitionLines r) where
  ne_nil := by simp [definitionLines]
  isLine line hline := by
    simp only [definitionLines, List.mem_cons, List.mem_append, List.mem_map, List.not_mem_nil,
      or_false] at hline
    rcases hline with rfl | ⟨m, hm, rfl⟩ | rfl
    · simp only [isLine_append, h.name, and_true]
      decide
    · simp only [isLine_append, h.member m hm, h.tag m hm, and_true]
      decide
    · decide
  not_blank hline := by
    simp only [definitionLines, List.mem_cons, List.mem_append, List.mem_map, List.not_mem_nil,
      or_false] at hline
    rcases hline with hline | ⟨m, -, hline⟩ | hline
    · simp [← String.toList_inj] at hline
    · simp [← String.toList_inj] at hline
    · simp at hline

theorem isBlock_serializerLines {r : Record} (h : r.OnLines) : IsBlock (serializerLines r) where
  ne_nil := by simp [serializerLines]
  isLine _ := isLine_of_mem_serializerLines h.writtenOnLines
  not_blank hline := by
    simp only [serializerLines, List.mem_cons, List.mem_append, List.mem_map, List.not_mem_nil,
      or_false] at hline
    rcases hline with hline | hline | ⟨statement, -, hline⟩ | hline | hline
    · simp [header, ← String.toList_inj] at hline
    · simp [bufferLine, ← String.toList_inj] at hline
    · simp [← String.toList_inj] at hline
    · simp at hline
    · simp at hline

def recordBlocks (r : Record) : List (List String) := [definitionLines r, serializerLines r]

/-! ## The blocks of a file -/

/-- The blocks before the first record. -/
def headerBlocks (options : SourceOptions) (records : List Record) : List (List String) :=
  (if options.banner then [[banner]] else [])
    ++ [packageClause options.package]
      :: (if needsBinaryImport records then [[binaryImport]] else [])

def sourceBlocks (options : SourceOptions) (records : List Record) : List (List String) :=
  headerBlocks options records ++ records.flatMap recordBlocks

theorem headerBlocks_ne_nil (options : SourceOptions) (records : List Record) :
    headerBlocks options records ≠ [] := by
  simp [headerBlocks]

theorem sourceBlocks_ne_nil (options : SourceOptions) (records : List Record) :
    sourceBlocks options records ≠ [] :=
  List.append_ne_nil_of_left_ne_nil (headerBlocks_ne_nil options records) _

theorem text_emitHeader (options : SourceOptions) (records : List Record) :
    (emitHeader options records).text =
      sectionBreak.intercalate ((headerBlocks options records).map ofLines) := by
  unfold emitHeader headerBlocks
  by_cases hbanner : options.banner <;> by_cases himport : needsBinaryImport records <;>
    simp [hbanner, himport, Emission.text, ofLines, String.append_assoc]

theorem text_emitRecords (records : List Record) :
    Emission.text (records.flatMap emitRecord) =
      String.join (((records.flatMap recordBlocks).map ofLines).map (sectionBreak ++ ·)) := by
  induction records with
  | nil => rfl
  | cons r rest ih =>
    rw [List.flatMap_cons, text_append, ih, text_emitRecord, definition_eq_ofLines,
      serializer_eq_ofLines, List.flatMap_cons, recordBlocks, List.cons_append, List.singleton_append]
    simp only [List.map_cons, String.join_cons, String.append_assoc]

/-- **A source file is its blocks.** -/
theorem text_emitSource (options : SourceOptions) (records : List Record) :
    (emitSource options records).text = ofBlocks (sourceBlocks options records) := by
  have hheader : (headerBlocks options records).map ofLines ≠ [] := by
    simp [headerBlocks_ne_nil options records]
  have hevent : Emission.text [.log (.sourceFile options.package records.length)] = "" := rfl
  have hend : Emission.text [.write "\n"] = "\n" := String.append_empty
  rw [emitSource, text_append, text_append, text_append, hevent, hend, text_emitHeader, text_emitRecords,
    ofBlocks, sourceBlocks, List.map_append, Text.intercalate_append hheader, String.empty_append]
  rfl

theorem isBlock_singleton {line : String} (hline : IsLine line) (hne : line ≠ "") : IsBlock [line] where
  ne_nil := by simp
  isLine l hl := by rwa [List.mem_singleton.mp hl]
  not_blank hl := hne (List.mem_singleton.mp hl).symm

theorem isBlock_of_mem_sourceBlocks {options : SourceOptions} {records : List Record}
    (hpackage : IsLine options.package) (hrecords : ∀ r ∈ records, r.OnLines) :
    ∀ block ∈ sourceBlocks options records, IsBlock block := by
  have hbanner : IsBlock [banner] := isBlock_singleton (by decide) (by decide)
  have himport : IsBlock [binaryImport] := isBlock_singleton (by decide) (by decide)
  have hclause : IsBlock [packageClause options.package] :=
    isBlock_singleton (isLine_append.mpr ⟨by decide, hpackage⟩)
      (by simp [packageClause, ← String.toList_inj])
  intro block hblock
  simp only [sourceBlocks, headerBlocks, List.mem_append, List.mem_cons, List.mem_flatMap,
    recordBlocks, List.mem_ite_nil_right, List.not_mem_nil, or_false] at hblock
  rcases hblock with (⟨-, rfl⟩ | rfl | ⟨-, rfl⟩) | ⟨r, hr, rfl | rfl⟩
  · exact hbanner
  · exact hclause
  · exact himport
  · exact isBlock_definitionLines (hrecords r hr)
  · exact isBlock_serializerLines (hrecords r hr)

/-! ## Reading the blocks -/

/-- Whether an optional item stands in front of a list that does not begin with it can be seen. -/
theorem optional_append_inj {α : Type} {b b' : Bool} {x : α} {s t : List α}
    (hs : x ∉ s.head?) (ht : x ∉ t.head?)
    (h : (if b then [x] else []) ++ s = (if b' then [x] else []) ++ t) : b = b' ∧ s = t := by
  cases b <;> cases b'
  · exact ⟨rfl, h⟩
  · have hs' : s = x :: t := h
    exact absurd (hs' ▸ rfl) hs
  · have ht' : x :: s = t := h
    exact absurd (ht' ▸ rfl) ht
  · exact ⟨rfl, List.append_cancel_left h⟩

/-- The two blocks of each record can be counted off. -/
theorem flatMap_recordBlocks_eq_iff {rs rs' : List Record} :
    rs.flatMap recordBlocks = rs'.flatMap recordBlocks ↔
      List.Forall₂ (fun r r' => definitionLines r = definitionLines r' ∧
        serializerLines r = serializerLines r') rs rs' := by
  induction rs generalizing rs' with
  | nil =>
    cases rs' with
    | nil => simp
    | cons r' rest' => simp [recordBlocks]
  | cons r rest ih =>
    cases rs' with
    | nil => simp [recordBlocks]
    | cons r' rest' => simp [recordBlocks, ih, and_assoc]

/-- The import does not begin a record. -/
theorem import_not_mem_head? (records : List Record) :
    [binaryImport] ∉ (records.flatMap recordBlocks).head? := by
  cases records with
  | nil => simp
  | cons r rest => simp [recordBlocks, definitionLines]

/-- **The blocks tell the choices and the records.** -/
theorem sourceBlocks_inj {options options' : SourceOptions} {rs rs' : List Record}
    (h : sourceBlocks options rs = sourceBlocks options' rs') :
    options.banner = options'.banner ∧ options.package = options'.package ∧
      rs.flatMap recordBlocks = rs'.flatMap recordBlocks := by
  have hclause : ∀ package : String, [banner] ≠ [packageClause package] := by
    intro package
    simp [banner, packageClause, ← String.toList_inj]
  simp only [sourceBlocks, headerBlocks, List.append_assoc, List.cons_append] at h
  obtain ⟨hbanner, hrest⟩ := optional_append_inj
    (by simpa using (hclause options.package).symm) (by simpa using (hclause options'.package).symm) h
  obtain ⟨hpackage, hrest⟩ := List.cons.inj hrest
  obtain ⟨-, hrecords⟩ := optional_append_inj (import_not_mem_head? rs) (import_not_mem_head? rs') hrest
  have hpackage := List.singleton_injective hpackage
  rw [packageClause, packageClause, String.append_right_inj] at hpackage
  exact ⟨hbanner, hpackage, hrecords⟩

/-! ## The import -/

/-- How a member is written tells whether it is an integer. -/
theorem isInteger_congr {s t : Slot} (h : s.encoding = t.encoding) : s.isInteger = t.isInteger := by
  rw [Slot.isInteger, Slot.isInteger, h]

/-- Only members that are written can be integers. -/
theorem any_isInteger_eq (r : Record) :
    r.layout.slots.any Slot.isInteger = r.layout.encodedSlots.any Slot.isInteger := by
  have hwritten : ∀ s : Slot, s.isInteger = (s.encoding.isSome && s.isInteger) := by
    intro s
    unfold Slot.isInteger
    rcases s.encoding with _ | _ | _ <;> rfl
  rw [Layout.encodedSlots, List.any_filter]
  exact congrArg _ (funext hwritten)

/-- Lists that agree one by one agree in whether some item has a property. -/
theorem any_congr_of_forall₂ {α β : Type} {p : α → Bool} {q : β → Bool} {xs : List α} {ys : List β}
    (h : List.Forall₂ (fun x y => p x = q y) xs ys) : xs.any p = ys.any q := by
  induction h with
  | nil => rfl
  | cons hxy _ ih => rw [List.any_cons, List.any_cons, hxy, ih]

/-- Records with equal serializers need the same import. -/
theorem any_isInteger_congr {r r' : Record} (hr : r.WrittenOnLines) (hr' : r'.WrittenOnLines)
    (h : serializer r = serializer r') :
    r.layout.slots.any Slot.isInteger = r'.layout.slots.any Slot.isInteger := by
  obtain ⟨-, -, hslots⟩ := of_serializer_eq hr hr' h
  rw [any_isInteger_eq, any_isInteger_eq]
  exact any_congr_of_forall₂ (hslots.imp fun _ _ hst => isInteger_congr hst.encoding)

/-! ## The text -/

/-- The texts of two records agree exactly if their lines do. -/
theorem texts_eq_iff {r r' : Record} (hr : r.OnLines) (hr' : r'.OnLines) :
    definition r = definition r' ∧ serializer r = serializer r' ↔
      definitionLines r = definitionLines r' ∧ serializerLines r = serializerLines r' := by
  have hd := isBlock_definitionLines hr
  have hd' := isBlock_definitionLines hr'
  have hs := isBlock_serializerLines hr
  have hs' := isBlock_serializerLines hr'
  rw [definition_eq_ofLines, definition_eq_ofLines, serializer_eq_ofLines, serializer_eq_ofLines,
    Text.ofLines_inj hd.isLine hd'.isLine hd.ne_nil hd'.ne_nil,
    Text.ofLines_inj hs.isLine hs'.isLine hs.ne_nil hs'.ne_nil]

/-- Pairs of records from two files come with what is demanded of the files. -/
theorem forall₂_onLines {R : Record → Record → Prop} {rs rs' : List Record}
    (hrs : ∀ r ∈ rs, r.OnLines) (hrs' : ∀ r ∈ rs', r.OnLines) (h : List.Forall₂ R rs rs') :
    List.Forall₂ (fun r r' => (r.OnLines ∧ r'.OnLines) ∧ R r r') rs rs' := by
  induction h with
  | nil => exact .nil
  | cons hpair _ ih =>
    rw [List.forall_mem_cons] at hrs hrs'
    exact .cons ⟨⟨hrs.1, hrs'.1⟩, hpair⟩ (ih hrs.2 hrs'.2)

/-- **The text of a source file can be read in one way only.** Two source files have the same text
exactly if they agree in whether there is a remark, in the package, and record by record, with the same
number of records, in the texts of the definitions and of the serializers. -/
theorem source_text_eq_iff {options options' : SourceOptions} {rs rs' : List Record}
    (hpackage : IsLine options.package) (hpackage' : IsLine options'.package)
    (hrs : ∀ r ∈ rs, r.OnLines) (hrs' : ∀ r ∈ rs', r.OnLines) :
    (emitSource options rs).text = (emitSource options' rs').text ↔
      options.banner = options'.banner ∧ options.package = options'.package ∧
        List.Forall₂ (fun r r' => (emitDefinition r).text = (emitDefinition r').text ∧
          (emitSerializer r).text = (emitSerializer r').text) rs rs' := by
  rw [text_emitSource, text_emitSource,
    Text.ofBlocks_inj (isBlock_of_mem_sourceBlocks hpackage hrs)
      (isBlock_of_mem_sourceBlocks hpackage' hrs') (sourceBlocks_ne_nil options rs)
      (sourceBlocks_ne_nil options' rs')]
  simp only [text_emitDefinition, text_emitSerializer]
  constructor
  · intro h
    obtain ⟨hbanner, hpackage, hrecords⟩ := sourceBlocks_inj h
    refine ⟨hbanner, hpackage, ?_⟩
    have hlines := forall₂_onLines hrs hrs' (flatMap_recordBlocks_eq_iff.mp hrecords)
    exact hlines.imp fun _ _ ⟨⟨hr, hr'⟩, hpair⟩ => (texts_eq_iff hr hr').mpr hpair
  · rintro ⟨hbanner, hpackage, htexts⟩
    have htexts := forall₂_onLines hrs hrs' htexts
    have himport : needsBinaryImport rs = needsBinaryImport rs' :=
      any_congr_of_forall₂ (htexts.imp fun _ _ ⟨⟨hr, hr'⟩, _, hserializer⟩ =>
        any_isInteger_congr hr.writtenOnLines hr'.writtenOnLines hserializer)
    have hrecords : rs.flatMap recordBlocks = rs'.flatMap recordBlocks :=
      flatMap_recordBlocks_eq_iff.mpr
        (htexts.imp fun _ _ ⟨⟨hr, hr'⟩, hpair⟩ => (texts_eq_iff hr hr').mp hpair)
    rw [sourceBlocks, sourceBlocks, headerBlocks, headerBlocks, hbanner, hpackage, himport, hrecords]

/-- A record whose name opens a section of its own and whose member looks like the rest of a type
definition. -/
def impostorRecord : Record where
  name := "import \"encoding/binary\""
  members := [{ name := "\x7d type", tag := .other "func (", size := .clamp 1 }]

/-- The same text comes from a record that is described otherwise, in a file of two records. -/
theorem source_text_impostor :
    IsLine "main" ∧ (∀ r ∈ [impostorRecord, gaugeRecord], r.OnLines) ∧
      (∀ r ∈ [{ impostorRecord with byteOrder := "big" }, { gaugeRecord with byteOrder := "b" }],
        r.OnLines) ∧
      (emitSource {} [impostorRecord, gaugeRecord]).text =
        (emitSource {} [{ impostorRecord with byteOrder := "big" },
          { gaugeRecord with byteOrder := "b" }]).text := by
  have hpackage : IsLine "main" := by decide
  have himpostor : impostorRecord.OnLines := ⟨by decide, by decide, by decide⟩
  have hgauge : gaugeRecord.OnLines := ⟨by decide, by decide, by decide⟩
  have hleft : ∀ r ∈ [impostorRecord, gaugeRecord], r.OnLines := by
    simpa using ⟨himpostor, hgauge⟩
  -- the tokens for byte orders do not matter here
  have hright : ∀ r ∈ [{ impostorRecord with byteOrder := "big" },
      { gaugeRecord with byteOrder := "b" }], r.OnLines := by
    rw [List.forall_mem_cons, List.forall_mem_singleton]
    exact ⟨⟨himpostor.name, himpostor.member, himpostor.tag⟩, ⟨hgauge.name, hgauge.member, hgauge.tag⟩⟩
  refine ⟨hpackage, hleft, hright, (source_text_eq_iff hpackage hpackage hleft hright).mpr ⟨rfl, rfl, ?_⟩⟩
  exact .cons ⟨rfl, by decide⟩ (.cons ⟨rfl, by decide⟩ .nil)

end Go

end WireRecord
