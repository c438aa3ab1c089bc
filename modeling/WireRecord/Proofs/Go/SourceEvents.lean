/-
The events of a source file that is cut off.

A source file announces itself, each type definition and each serializer in the log, and each member
that a serializer leaves out. The main result, `events_emitSource_cut`, says which of these events are
logged when the sink fills up: those of a type definition exactly if the text of the file before that
definition has room, and those of a serializer, all together, exactly if the text before that
serializer has room. An event comes before its own text, so it is logged even if not a byte of that
text is taken; it is not logged if the break before its text is cut.

The header of a file has no events and the events of a record come before its two pieces of text, so the
marks of all events are those of the positions at which definitions and serializers begin. These
positions are those of the complete text (`text_emitSource_split`).
-/
import WireRecord.Go.Source
import WireRecord.Proofs.Emission.Cut

set_option autoImplicit false

namespace WireRecord.Go

open Emission Sink

/-! ## Positions in the complete text -/

/-- The text of a source file before the type definition of the record at a place. -/
def beforeDefinition (options : SourceOptions) (records : List Record) (i : Nat) : String :=
  (emitHeader options records).text
    ++ Emission.text ((records.take i).flatMap emitRecord)
    ++ sectionBreak

/-- The text of a source file before the serializer of the record at a place. -/
def beforeSerializer (options : SourceOptions) (records : List Record) (i : Nat) (r : Record) :
    String :=
  beforeDefinition options records i ++ definition r ++ sectionBreak

/-- The complete text has the type definition and the serializer of a record where they are said to
be. -/
theorem text_emitSource_split (options : SourceOptions) {records : List Record} {i : Nat}
    {r : Record} (h : records[i]? = some r) :
    ∃ after, (emitSource options records).text =
      beforeSerializer options records i r ++ serializer r ++ after := by
  have hsplit : records = records.take i ++ r :: records.drop (i + 1) := by
    obtain ⟨hi, rfl⟩ := List.getElem?_eq_some_iff.mp h
    rw [← List.drop_eq_getElem_cons hi, List.take_append_drop]
  refine ⟨Emission.text ((records.drop (i + 1)).flatMap emitRecord ++ [.write "\n"]), ?_⟩
  have hrecords : Emission.text (records.flatMap emitRecord)
      = Emission.text ((records.take i).flatMap emitRecord) ++ (emitRecord r).text
        ++ Emission.text ((records.drop (i + 1)).flatMap emitRecord) := by
    conv => lhs; rw [hsplit]
    rw [List.flatMap_append, List.flatMap_cons, text_append, text_append, String.append_assoc]
  have hlog : Emission.text [.log (.sourceFile options.package records.length)] = "" := rfl
  rw [emitSource, text_append, text_append, text_append, hrecords, hlog, String.empty_append,
    text_emitRecord, text_append, beforeSerializer, beforeDefinition]
  simp only [String.append_assoc]

/-! ## The marks of the events -/

/-- The header of a source file has no events. -/
theorem stamped_emitHeader (before : Nat) (options : SourceOptions) (records : List Record) :
    stamped before (emitHeader options records) = [] := by
  unfold emitHeader
  split <;> split <;> rfl

/-- The events of a record are marked with the positions of its type definition and of its
serializer. -/
theorem stamped_emitRecord (before : Nat) (r : Record) :
    stamped before (emitRecord r) =
      (before + (textBytes sectionBreak).length, .definition r.name r.members.length) ::
        (serializerEvents r).map fun event =>
          (before + (textBytes sectionBreak).length + (textBytes (definition r)).length
            + (textBytes sectionBreak).length, event) := by
  simp only [emitRecord, emitDefinition, emitSerializer, List.cons_append, List.nil_append,
    stamped, stamped_append, stamped_map_log, List.append_nil]

/-- A serializer announces itself, and then each member without an encoding, in the order of the
members. -/
theorem serializerEvents_eq (r : Record) :
    serializerEvents r =
      .serializer r.name r.layout.size r.members.length ::
        (r.layout.slots.filter (·.encoding.isNone)).map fun s =>
          .skippedMember s.member.name s.member.tag.text s.start s.stop := by
  rw [serializerEvents]
  congr 1
  induction r.layout.slots with
  | nil => rfl
  | cons s rest ih =>
    rw [List.filterMap_cons, List.filter_cons, ih, skipped?]
    cases s.encoding with
    | none => rfl
    | some encoding => rfl

/-- The announcement of a source file comes first, and the other events are those of its records. -/
theorem stamped_emitSource (options : SourceOptions) (records : List Record) :
    stamped 0 (emitSource options records) =
      (0, .sourceFile options.package records.length) ::
        records.zipIdx.flatMap fun x =>
          stamped ((bytes (emitHeader options records)).length
            + (bytes ((records.take x.2).flatMap emitRecord)).length) (emitRecord x.1) := by
  -- neither the header nor the break at the end has events
  have hend : ∀ before, stamped before [.write "\n"] = [] := fun _ => rfl
  rw [emitSource, stamped_append, stamped_append, stamped_append, hend, List.append_nil,
    stamped_emitHeader, List.append_nil, stamped, stamped, List.singleton_append,
    stamped_flatMap, bytes_append, bytes_log, bytes_nil, List.nil_append, Nat.zero_add]

theorem length_beforeDefinition (options : SourceOptions) (records : List Record) (i : Nat) :
    (textBytes (beforeDefinition options records i)).length =
      (bytes (emitHeader options records)).length
        + (bytes ((records.take i).flatMap emitRecord)).length
        + (textBytes sectionBreak).length := by
  rw [beforeDefinition, textBytes_append, textBytes_append, List.length_append,
    List.length_append, bytes, bytes]

theorem length_beforeSerializer (options : SourceOptions) (records : List Record) (i : Nat)
    (r : Record) :
    (textBytes (beforeSerializer options records i r)).length =
      (textBytes (beforeDefinition options records i)).length
        + (textBytes (definition r)).length + (textBytes sectionBreak).length := by
  rw [beforeSerializer, textBytes_append, textBytes_append, List.length_append,
    List.length_append]

/-! ## The log of a cut source file -/

/-- The events of a record in a source file: each group is there or not, as a whole. -/
theorem loggedWithin_emitRecord (room : Option Nat) (before : Nat) (r : Record) :
    loggedWithin room (stamped before (emitRecord r)) =
      (if Fits (before + (textBytes sectionBreak).length) room
        then [.definition r.name r.members.length] else []) ++
      (if Fits (before + (textBytes sectionBreak).length + (textBytes (definition r)).length
          + (textBytes sectionBreak).length) room
        then serializerEvents r else []) := by
  rw [stamped_emitRecord, ← List.singleton_append, loggedWithin_append, loggedWithin_const]
  congr 1
  exact loggedWithin_const room _ [.definition r.name r.members.length]

/-- **The log is cut where the text is cut.** Of the events of a source file, the announcement of the
file is always logged; the announcement of a type definition is logged exactly if the text of the file
before the definition has room; and the announcement of a serializer is logged, with the members it
leaves out right behind it, exactly if the text of the file before the serializer has room. Nothing
else is logged. The positions are those of the complete text, and the log is the beginning of what is
logged without a limit. -/
theorem events_emitSource_cut (options : SourceOptions) (records : List Record) (s : Sink)
    (hadvances : s.chunk.Advances) :
    (run s (emitSource options records)).events =
      .sourceFile options.package records.length ::
        (records.zipIdx.flatMap fun (r, i) =>
          (if Fits (textBytes (beforeDefinition options records i)).length s.room
            then [.definition r.name r.members.length] else []) ++
          (if Fits (textBytes (beforeSerializer options records i r)).length s.room
            then .serializer r.name r.layout.size r.members.length ::
              (r.layout.slots.filter (·.encoding.isNone)).map fun slot =>
                .skippedMember slot.member.name slot.member.tag.text slot.start slot.stop
            else [])) ∧
    (∀ i r, records[i]? = some r → ∃ after, (emitSource options records).text =
      beforeSerializer options records i r ++ serializer r ++ after) ∧
    (run s (emitSource options records)).events <+:
      (run {} (emitSource options records)).events := by
  refine ⟨?_, fun i r h => text_emitSource_split options h, ?_⟩
  · rw [run_eq s _ hadvances, stamped_emitSource, ← List.singleton_append, loggedWithin_append,
      loggedWithin_flatMap]
    -- nothing comes before the announcement of the file
    have hfile : loggedWithin s.room [(0, .sourceFile options.package records.length)]
        = [.sourceFile options.package records.length] := by
      have hconst := loggedWithin_const s.room 0 [.sourceFile options.package records.length]
      rwa [if_pos (fits_zero s.room)] at hconst
    rw [hfile, List.singleton_append]
    refine congrArg (fun g => _ :: records.zipIdx.flatMap g) (funext ?_)
    rintro ⟨r, i⟩
    dsimp only
    rw [loggedWithin_emitRecord, length_beforeSerializer, length_beforeDefinition,
      serializerEvents_eq]
  · rw [(run_unlimited _).2]
    exact events_run_prefix s _

/-- A record with a member that is written and one that is left out. -/
def probeRecord : Record where
  name := "Ping"
  byteOrder := "big"
  members := [
    { name := "Seq", tag := .unsigned .w16, size := .clamp 2 },
    { name := "Ratio", tag := .other "float32", size := .clamp 4, offset := .clamp 1 }]

/-- A file of two records that is cut right before the first serializer: not a byte of the serializer is
taken, but its events are logged, and nothing of the second record is. -/
theorem events_emitSource_ping :
    (Pace.steady (some 2)).Advances ∧
    (run { limit := some 89, chunk := Pace.steady (some 2) }
        (emitSource { package := "wire", banner := false } [probeRecord, probeRecord])).events =
      [.sourceFile "wire" 2, .definition "Ping" 2, .serializer "Ping" ⟨7, by decide⟩ 2,
        .skippedMember "Ratio" "float32" ⟨3, by decide⟩ ⟨7, by decide⟩] := by
  have hadvances : (Pace.steady (some 2)).Advances := Pace.steady_advances (by decide)
  have hlog := events_emitSource_cut { package := "wire", banner := false }
    [probeRecord, probeRecord] { limit := some 89, chunk := Pace.steady (some 2) } hadvances
  exact ⟨hadvances, hlog.1.trans (by decide +kernel)⟩

end WireRecord.Go
