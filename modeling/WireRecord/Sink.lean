/-
Byte sinks that may fill up.

A sink takes at most so many bytes in total, and at most so many at one offer; how many at one offer
may change with what it has taken before, so a sink that takes bytes at its own pace is covered too.
When it is full it refuses an offer of at least one byte, in one of two ways: it reports a failure of
its own, or it takes nothing and says so. Writing offers what is left until all of it is taken or an
offer gets nowhere; an offer of which nothing is taken is a failure too. Nothing is offered when there
is nothing to write, so writing no bytes succeeds even into a full sink.
-/

set_option autoImplicit false

namespace WireRecord

/-- The kind of a failure. A write hands it on and never looks at it, so of the many kinds that a system
knows only those are told apart that a sink of a session can be set up with, and *nothing written*,
which a write itself reports; any other kind would be handed on in the same way. The exception is
*interrupted*, which is left out: it does not end a write, because the same bytes are then offered
again, so a full sink that says nothing else would be offered them forever. -/
inductive FailureKind where
  | brokenPipe
  | permissionDenied
  | wouldBlock
  | timedOut
  | unexpectedEnd
  | nothingWritten
  | other
deriving DecidableEq, Repr

structure SinkFailure where
  kind : FailureKind
  message : String
deriving DecidableEq

namespace SinkFailure

/-- The failure of a write of which a sink took nothing. -/
def nothingTaken : SinkFailure := ⟨.nothingWritten, "failed to write whole buffer"⟩

/-- What is reported about an emission that failed. -/
def report (f : SinkFailure) : String := "failed to write generated source: " ++ f.message

end SinkFailure

/-- What a full sink does with bytes that are offered. -/
inductive Refusal where
  | fails (failure : SinkFailure)
  | takesNothing
deriving DecidableEq

/-- How fast a sink takes bytes. -/
structure Pace where
  /-- How many bytes it takes at one offer, if there is a limit, when it has taken so many. -/
  most : Nat → Option Nat

/-- The pace with the same limit at every offer. -/
def Pace.steady (limit : Option Nat) : Pace := ⟨fun _ => limit⟩

instance : Coe (Option Nat) Pace := ⟨Pace.steady⟩

/-- A sink and the bytes in it. -/
structure Sink where
  /-- How many bytes it takes in total, if there is a limit. -/
  limit : Option Nat := none
  /-- How many bytes it takes at one offer. -/
  chunk : Pace := Pace.steady none
  refusal : Refusal := .takesNothing
  received : List UInt8 := []

namespace Sink

/-- A number with a limit that there may be. -/
def capped (n : Nat) : Option Nat → Nat
  | some limit => min limit n
  | none => n

/-- How many bytes the sink still takes, if there is a limit. -/
def room (s : Sink) : Option Nat := s.limit.map (· - s.received.length)

/-- How many of so many offered bytes the sink takes, or how it fails. -/
def offer (s : Sink) (count : Nat) : Except SinkFailure Nat :=
  if s.room = some 0 then
    match s.refusal with
    | .fails failure => .error failure
    | .takesNothing => .ok 0
  else .ok (capped (capped count s.room) (s.chunk.most s.received.length))

/-- The sink with more bytes in it. -/
def push (s : Sink) (bytes : List UInt8) : Sink := { s with received := s.received ++ bytes }

/-- Offers all bytes, the rest again after each offer, until none is left or an offer fails. -/
def write (s : Sink) (bytes : List UInt8) : Sink × Option SinkFailure :=
  match bytes with
  | [] => (s, none)
  | first :: rest =>
    match s.offer (first :: rest).length with
    | .error failure => (s, some failure)
    | .ok 0 => (s, some .nothingTaken)
    | .ok (n + 1) => (s.push (first :: rest.take n)).write (rest.drop n)
termination_by bytes.length
decreasing_by simp only [List.length_drop, List.length_cons]; omega

@[simp] theorem received_push (s : Sink) (bytes : List UInt8) :
    (s.push bytes).received = s.received ++ bytes := rfl

/-- The bytes that a sink has taken since it was in an earlier state. -/
def receivedSince (s earlier : Sink) : List UInt8 := s.received.drop earlier.received.length

end Sink

end WireRecord
