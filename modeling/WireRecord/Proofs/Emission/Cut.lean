/-
Emissions into a sink that fills up.

An emission is a list of writes with events in between, and each write may be the one for which the
sink has no room left. The main result, `run_eq`, is what a run comes to for a sink that takes at least
one byte at each offer until it is full: the sink takes the beginning of the complete text, as much as
it has room for; the run fails exactly if the complete text has no room; and an event is logged exactly
if all the text before it has room. The pieces in which the text is written have no part in it.

An event is therefore told apart by how much text comes before it, and by nothing else. `stamped` marks
each event of an emission with that number. Which events are logged is then a filter over the marks,
and putting one emission after another only shifts the marks of the second.
-/
import WireRecord.Emission
import WireRecord.Proofs.Sink.Writing

set_option autoImplicit false

namespace WireRecord.Emission

open Sink

/-! ## The bytes of an emission -/

/-- The bytes of the complete text. -/
def bytes (e : Emission) : List UInt8 := textBytes e.text

@[simp] theorem bytes_nil : bytes [] = [] := rfl

@[simp] theorem bytes_log (event : Event) (rest : Emission) :
    bytes (.log event :: rest) = bytes rest := rfl

@[simp] theorem bytes_write (piece : String) (rest : Emission) :
    bytes (.write piece :: rest) = textBytes piece ++ bytes rest := by
  rw [bytes, text, textBytes_append, bytes]

@[simp] theorem bytes_append (a b : Emission) : bytes (a ++ b) = bytes a ++ bytes b := by
  rw [bytes, text_append, textBytes_append, bytes, bytes]

/-! ## The events of an emission -/

/-- The events of an emission, each with the number of bytes that come before it, when so many bytes
come before the emission. -/
def stamped (before : Nat) : Emission → List (Nat × Event)
  | [] => []
  | .log event :: rest => (before, event) :: stamped before rest
  | .write piece :: rest => stamped (before + (textBytes piece).length) rest

/-- The events before which all bytes have room. -/
def loggedWithin (room : Option Nat) (marked : List (Nat × Event)) : List Event :=
  (marked.filter fun m => Fits m.1 room).map (·.2)

theorem stamped_append (before : Nat) (a b : Emission) :
    stamped before (a ++ b) = stamped before a ++ stamped (before + (bytes a).length) b := by
  induction a generalizing before with
  | nil => rfl
  | cons step rest ih =>
    cases step with
    | log event => rw [List.cons_append, stamped, stamped, ih, bytes_log, List.cons_append]
    | write piece =>
      rw [List.cons_append, stamped, stamped, ih, bytes_write, List.length_append, Nat.add_assoc]

theorem stamped_add (shift before : Nat) (e : Emission) :
    stamped (shift + before) e = (stamped before e).map fun m => (shift + m.1, m.2) := by
  induction e generalizing before with
  | nil => rfl
  | cons step rest ih =>
    cases step with
    | log event => rw [stamped, stamped, ih, List.map_cons]
    | write piece => rw [stamped, stamped, Nat.add_assoc, ih]

/-- In emissions for the items of a list, the events of an item bear marks behind the bytes of the items
before it. -/
theorem stamped_flatMap {α : Type} (f : α → Emission) (before : Nat) (items : List α) :
    stamped before (items.flatMap f) =
      items.zipIdx.flatMap fun x =>
        stamped (before + (bytes ((items.take x.2).flatMap f)).length) (f x.1) := by
  induction items generalizing before with
  | nil => rfl
  | cons item rest ih =>
    rw [List.flatMap_cons, stamped_append, ih, List.zipIdx_cons, List.flatMap_cons, Nat.zero_add,
      List.zipIdx_succ, List.flatMap_map]
    congr 1
    refine congrArg (fun g => rest.zipIdx.flatMap g) (funext ?_)
    rintro ⟨x, i⟩
    show _ = stamped (before + (bytes (((item :: rest).take (i + 1)).flatMap f)).length) (f x)
    rw [List.take_succ_cons, List.flatMap_cons, bytes_append, List.length_append, Nat.add_assoc]

/-- Events that are logged one after the other bear the same mark. -/
theorem stamped_map_log (before : Nat) (events : List Event) :
    stamped before (events.map .log) = events.map fun event => (before, event) := by
  induction events with
  | nil => rfl
  | cons event rest ih => rw [List.map_cons, stamped, ih, List.map_cons]

theorem loggedWithin_append (room : Option Nat) (a b : List (Nat × Event)) :
    loggedWithin room (a ++ b) = loggedWithin room a ++ loggedWithin room b := by
  rw [loggedWithin, List.filter_append, List.map_append, loggedWithin, loggedWithin]

theorem loggedWithin_flatMap {α : Type} (room : Option Nat) (f : α → List (Nat × Event))
    (items : List α) :
    loggedWithin room (items.flatMap f) = items.flatMap fun x => loggedWithin room (f x) := by
  induction items with
  | nil => rfl
  | cons item rest ih => rw [List.flatMap_cons, loggedWithin_append, ih, List.flatMap_cons]

/-- Events with one and the same mark are logged together or not at all. -/
theorem loggedWithin_const (room : Option Nat) (before : Nat) (events : List Event) :
    loggedWithin room (events.map fun event => (before, event)) =
      if Fits before room then events else [] := by
  induction events with
  | nil => split <;> rfl
  | cons event rest ih =>
    rw [loggedWithin] at ih
    rw [loggedWithin, List.map_cons, List.filter_cons]
    by_cases h : Fits before room
    · rw [if_pos h] at ih
      rw [if_pos (decide_eq_true h), if_pos h, List.map_cons, ih]
    · rw [if_neg h] at ih
      rw [if_neg (by simpa using h), if_neg h, ih]

/-- After bytes that have room, the marks count against the rest of the room. -/
theorem loggedWithin_stamped_of_fits {written : Nat} {room : Option Nat} (h : Fits written room)
    (e : Emission) :
    loggedWithin room (stamped written e) =
      loggedWithin (room.map (· - written)) (stamped 0 e) := by
  rw [← Nat.add_zero written, stamped_add, Nat.add_zero, loggedWithin, loggedWithin,
    List.filter_map, List.map_map]
  congr 1
  refine List.filter_congr ?_
  intro m _
  exact decide_eq_decide.mpr (fits_add_iff m.1 h)

/-- After bytes that have no room, no event is logged. -/
theorem loggedWithin_stamped_of_not_fits {written : Nat} {room : Option Nat}
    (h : ¬Fits written room) (e : Emission) : loggedWithin room (stamped written e) = [] := by
  rw [← Nat.add_zero written, stamped_add, loggedWithin, List.filter_map, List.map_map]
  -- every mark is at least what has been written
  rw [List.filter_eq_nil_iff.mpr, List.map_nil]
  intro m _ hm
  exact h ((of_decide_eq_true hm).of_le (Nat.le_add_right written m.1))

/-! ## A run -/

/-- **A run.** The sink takes the beginning of the complete text, as much as it has room for; the
events with room for all bytes before them are logged; and the run fails exactly if the complete text
has no room. -/
theorem run_eq (s : Sink) (e : Emission) (hadvances : s.chunk.Advances) :
    run s e =
      { sink := s.push (e.bytes.take (capped e.bytes.length s.room))
        events := loggedWithin s.room (stamped 0 e)
        failure := if Fits e.bytes.length s.room then none else some s.refusal.failure } := by
  induction e generalizing s with
  | nil =>
    rw [run, bytes_nil, List.take_nil, push_nil, List.length_nil, if_pos (fits_zero s.room)]
    rfl
  | cons step rest ih =>
    cases step with
    | log event =>
      -- no byte of the emission comes before its first event
      have hlog : loggedWithin s.room (stamped 0 (.log event :: rest))
          = event :: loggedWithin s.room (stamped 0 rest) := by
        rw [stamped, loggedWithin, List.filter_cons, if_pos (decide_eq_true (fits_zero s.room))]
        rfl
      rw [run, ih s hadvances, hlog, bytes_log]
    | write piece =>
      rw [run, write_eq s (textBytes piece) hadvances, bytes_write, List.length_append, stamped,
        Nat.zero_add]
      by_cases h : Fits (textBytes piece).length s.room
      · -- the piece has room, and the rest goes into the rest of the room
        rw [if_pos h, capped_of_fits h, List.take_length]
        show run (s.push (textBytes piece)) rest = _
        rw [ih (s.push (textBytes piece)) hadvances, room_push, push_push,
          capped_add_of_fits _ h, loggedWithin_stamped_of_fits h, List.take_length_add_append]
        simp only [fits_add_iff _ h]
        rfl
      · -- the piece is cut, and nothing comes after it
        have hcut : capped (textBytes piece).length s.room ≤ (textBytes piece).length :=
          capped_le _ _
        have hrest : ¬Fits ((textBytes piece).length + (bytes rest).length) s.room :=
          fun hall => h (hall.of_le (Nat.le_add_right _ _))
        rw [if_neg h, if_neg hrest, capped_add_of_not_fits _ h,
          loggedWithin_stamped_of_not_fits h, List.take_append_of_le_length hcut]

/-- Without a limit all events are logged. -/
theorem loggedWithin_none (before : Nat) (e : Emission) :
    loggedWithin none (stamped before e) = e.events := by
  induction e generalizing before with
  | nil => rfl
  | cons step rest ih =>
    cases step with
    | log event => exact congrArg (event :: ·) (ih before)
    | write piece => exact ih (before + (textBytes piece).length)

/-- A sink without limits receives the complete text, and all events are logged. -/
theorem run_unlimited (e : Emission) :
    (run {} e).sink.received = bytes e ∧ (run {} e).events = e.events := by
  have hadvances : (Pace.steady none).Advances := Pace.steady_advances (by decide)
  rw [run_eq {} e hadvances]
  exact ⟨List.take_length, loggedWithin_none 0 e⟩

/-- What is logged is the beginning of all events. -/
theorem events_run_prefix (s : Sink) (e : Emission) : (run s e).events <+: e.events := by
  induction e generalizing s with
  | nil => exact List.prefix_rfl
  | cons step rest ih =>
    cases step with
    | log event => exact List.cons_prefix_cons.mpr ⟨rfl, ih s⟩
    | write piece =>
      rw [run, events]
      split
      · next after _ => exact ih after
      · exact List.nil_prefix

end WireRecord.Emission
