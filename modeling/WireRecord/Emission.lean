/-
Emissions: text written piece by piece, with events logged in between.

An emission is a list of steps. Its complete text is what all the pieces are together, and is what a
sink without a limit receives. Run into a sink that fills up, an emission ends at the first piece
that cannot be written whole, and the steps after it do not happen: no later piece is offered and no
later event is logged.
-/
import WireRecord.Event
import WireRecord.Sink

set_option autoImplicit false

namespace WireRecord

/-- One step of an emission. -/
inductive EmissionStep where
  /-- An event is logged. -/
  | log (event : Event)
  /-- A piece of text is written. -/
  | write (piece : String)
deriving DecidableEq

/-- The steps of an emission, in order. -/
abbrev Emission := List EmissionStep

/-- The bytes of a text. -/
def textBytes (text : String) : List UInt8 := text.toUTF8.data.toList

namespace Emission

/-- The complete text of an emission. -/
def text : Emission → String
  | [] => ""
  | .log _ :: rest => text rest
  | .write piece :: rest => piece ++ text rest

/-- All events of an emission. -/
def events : Emission → List Event
  | [] => []
  | .log event :: rest => event :: events rest
  | .write _ :: rest => events rest

/-- How an emission into a sink ended. -/
structure Outcome where
  /-- The sink afterwards. -/
  sink : Sink
  /-- The events that were logged. -/
  events : List Event
  /-- The failure that ended the emission early, if one did. -/
  failure : Option SinkFailure

/-- Runs an emission into a sink. -/
def run (sink : Sink) : Emission → Outcome
  | [] => ⟨sink, [], none⟩
  | .log event :: rest =>
    let outcome := run sink rest
    { outcome with events := event :: outcome.events }
  | .write piece :: rest =>
    match sink.write (textBytes piece) with
    | (after, none) => run after rest
    | (after, some failure) => ⟨after, [], some failure⟩

/-- What is told about an emission when it has ended. -/
structure Report where
  /-- The bytes that the sink took. -/
  written : List UInt8
  /-- The events that were logged. -/
  events : List Event
  /-- The failure that ended the emission early, if one did. -/
  failure : Option SinkFailure

/-- The report of an emission into a sink that was in the given state before. -/
def Outcome.report (o : Outcome) (before : Sink) : Report :=
  ⟨o.sink.receivedSince before, o.events, o.failure⟩

/-! ## Emissions one after the other -/

@[simp] theorem text_append (a b : Emission) : text (a ++ b) = text a ++ text b := by
  induction a with
  | nil => simp [text]
  | cons step rest ih => cases step <;> simp [text, ih, String.append_assoc]

/-- Events alone have no text. -/
@[simp] theorem text_map_log (logged : List Event) : text (logged.map .log) = "" := by
  induction logged with
  | nil => rfl
  | cons event rest ih => rw [List.map_cons, text, ih]

end Emission

@[simp] theorem textBytes_append (a b : String) :
    textBytes (a ++ b) = textBytes a ++ textBytes b := by
  simp [textBytes, String.toByteArray_append]

end WireRecord
