/-
Sessions: a record under construction, records set aside for a source file, and one sink.

A session starts with an empty record, no records set aside, the default options and a sink without
limits. Each step changes the session in one way, or looks at it, and has an answer. Everything that
is emitted goes into the same sink, so a sink that fills up in one step fails in the next. A step
that cannot be done leaves the session as it is.
-/
import WireRecord.Go.Source
import WireRecord.Description.Reading
import WireRecord.Description.Writing

set_option autoImplicit false

namespace WireRecord

structure Session where
  /-- The record under construction. -/
  record : Record := { name := "" }
  /-- The records set aside for a source file. -/
  records : List Record := []
  options : SourceOptions := {}
  sink : Sink := {}

namespace Session

/-- A change to a member before it is added. -/
inductive Change where
  | offset (offset : Extent)
  | byteOrder (token : String)

inductive Step where
  | new (name byteOrder : String)
  /-- Adds a member to the record, changed in the given ways, a later change over an earlier one. -/
  | member (name : String) (tag : TypeTag) (size : Extent) (changes : List Change)
  /-- Looks at the record and counts the records set aside. -/
  | info
  | layout
  | json
  /-- Writes the record as JSON and goes on with what is read back. -/
  | reload
  /-- Sets a copy of the record aside. -/
  | push
  /-- Forgets the records set aside. -/
  | clear
  | options (options : SourceOptions)
  | package (package : String)
  /-- Goes on with another sink. -/
  | sink (sink : Sink)
  | total
  | definition
  | serializer
  | source

inductive Answer where
  | record (record : Record)
  | member (count : Nat) (last : Member)
  | info (receiver : String) (order : ByteOrder) (members records : Nat)
  | layout (layout : Layout)
  | json (text : String)
  | reloaded (same : Bool)
  | records (count : Nat)
  | options (options : SourceOptions)
  | total (bytes : Nat)
  | emission (report : Emission.Report)
  | problem (problem : Json.Problem)

def Change.apply (m : Member) : Change → Member
  | .offset count => m.withOffset count
  | .byteOrder token => m.withByteOrder token

/-- Emits into the sink of the session. -/
def emit (s : Session) (e : Emission) : Session × Answer :=
  let outcome := Emission.run s.sink e
  ({ s with sink := outcome.sink }, .emission (outcome.report s.sink))

def step (s : Session) : Step → Session × Answer
  | .new name byteOrder =>
    let record := { name, byteOrder }
    ({ s with record }, .record record)
  | .member name tag size changes =>
    let last := changes.foldl Change.apply { name, tag, size }
    let record := s.record.withMember last
    ({ s with record }, .member record.members.length last)
  | .info =>
    (s, .info s.record.receiver s.record.order s.record.members.length s.records.length)
  | .layout => (s, .layout s.record.layout)
  | .json => (s, .json s.record.json)
  | .reload =>
    match Record.ofText s.record.json with
    | .ok record => ({ s with record }, .reloaded (record = s.record))
    | .error problem => (s, .problem problem)
  | .push =>
    let records := s.records ++ [s.record]
    ({ s with records }, .records records.length)
  | .clear => ({ s with records := [] }, .records 0)
  | .options options => ({ s with options }, .options options)
  | .package package =>
    let options := s.options.withPackage package
    ({ s with options }, .options options)
  | .sink sink => ({ s with sink }, .total sink.received.length)
  | .total => (s, .total s.sink.received.length)
  | .definition => s.emit (Go.emitDefinition s.record)
  | .serializer => s.emit (Go.emitSerializer s.record)
  | .source => s.emit (Go.emitSource s.options s.records)

end Session

end WireRecord
