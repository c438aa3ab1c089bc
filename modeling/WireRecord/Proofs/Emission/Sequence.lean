/-
Emissions one after the other into the same sink.

Type definitions, serializers and source files are emitted in any mix and number into one sink, and what
the first ones have taken up is missing for the later ones. The main result is `Request.cutOnce`: the
sink ends up with the beginning of all complete texts together; an emission succeeds exactly if the
texts up to and with its own have room; each other one ends with the failure of the full sink; and
nothing is written after the first failure. The pace of the sink has no part in it. The complete text of
an emission is what it gives into a sink without limits. That this is all its pieces together
(`complete_eq_bytes`) is a part of the result, because emissions that wrote nothing would be cut at one
place as well.

The invariant is `sinkAfter_eq`: after any emissions the sink holds the beginning of their texts, as
much as it has room for. This is also true after a failure, when there is no room left. A later emission
then fails because its text is not empty, and this is the only place where that matters.
-/
import WireRecord.Go.Source
import WireRecord.Proofs.Emission.Cut

set_option autoImplicit false

namespace WireRecord

open Sink

namespace Emission

/-! ## The sink after some emissions -/

/-- The sink after emissions one after the other. -/
def sinkAfter (s : Sink) (es : List Emission) : Sink := es.foldl (fun s e => (run s e).sink) s

/-- How each of the emissions ends, each one run into the sink that the one before has left. -/
def runAll (s : Sink) : List Emission → List Outcome
  | [] => []
  | e :: rest =>
    let outcome := run s e
    outcome :: runAll outcome.sink rest

/-- What an emission gives into a sink without limits. -/
def complete (e : Emission) : List UInt8 := (run {} e).sink.received

theorem complete_eq_bytes (e : Emission) : complete e = bytes e := (run_unlimited e).1

/-- **The sink after some emissions.** It has taken the beginning of all their texts, as much as it has
room for. -/
theorem sinkAfter_eq (s : Sink) (es : List Emission) (hadvances : s.chunk.Advances) :
    sinkAfter s es =
      s.push ((es.flatMap bytes).take (capped (es.flatMap bytes).length s.room)) := by
  induction es generalizing s with
  | nil => rw [List.flatMap_nil, List.take_nil, push_nil]; rfl
  | cons e rest ih =>
    rw [sinkAfter, List.foldl_cons, run_eq s e hadvances, ← sinkAfter,
      ih (s.push _) hadvances, push_push, room_push, length_take_capped, List.flatMap_cons,
      take_capped_append]

theorem length_runAll (s : Sink) (es : List Emission) : (runAll s es).length = es.length := by
  induction es generalizing s with
  | nil => rfl
  | cons e rest ih => rw [runAll, List.length_cons, ih, List.length_cons]

theorem getElem?_runAll (s : Sink) (es : List Emission) (i : Nat) :
    (runAll s es)[i]? = es[i]?.map (run (sinkAfter s (es.take i))) := by
  induction es generalizing s i with
  | nil => rfl
  | cons e rest ih =>
    cases i with
    | zero => rfl
    | succ i => exact ih (run s e).sink i

/-! ## Each emission -/

/-- An emission with some text that follows others succeeds exactly if all the texts together have
room. -/
theorem failure_run_sinkAfter (s : Sink) (es : List Emission) {e : Emission}
    (hadvances : s.chunk.Advances) (hne : bytes e ≠ []) :
    (run (sinkAfter s es) e).failure =
      if Fits ((es.flatMap bytes).length + (bytes e).length) s.room then none
      else some s.refusal.failure := by
  have hpos : 0 < (bytes e).length := List.length_pos_iff.mpr hne
  rw [sinkAfter_eq s es hadvances, run_eq (s.push _) e hadvances, room_push, length_take_capped]
  simp only [fits_after_iff _ hpos]
  rfl

theorem sinkAfter_take_succ (s : Sink) {es : List Emission} {i : Nat} {e : Emission}
    (h : es[i]? = some e) :
    sinkAfter s (es.take (i + 1)) = (run (sinkAfter s (es.take i)) e).sink := by
  rw [List.take_add_one, h, Option.toList_some, sinkAfter, List.foldl_append, List.foldl_cons,
    List.foldl_nil, ← sinkAfter]

theorem flatMap_bytes_take_succ {es : List Emission} {i : Nat} {e : Emission}
    (h : es[i]? = some e) :
    (es.take (i + 1)).flatMap bytes = (es.take i).flatMap bytes ++ bytes e := by
  rw [List.take_add_one, h, Option.toList_some, List.flatMap_append, List.flatMap_cons,
    List.flatMap_nil, List.append_nil]

/-- The outcome of an emission among others, by the texts up to and with its own. -/
theorem of_getElem?_runAll {s : Sink} {es : List Emission} (hadvances : s.chunk.Advances)
    (hne : ∀ e ∈ es, bytes e ≠ []) {i : Nat} {o : Outcome} (ho : (runAll s es)[i]? = some o) :
    o.sink = sinkAfter s (es.take (i + 1)) ∧
    o.failure =
      if Fits ((es.take (i + 1)).flatMap bytes).length s.room then none
      else some s.refusal.failure := by
  rw [getElem?_runAll, Option.map_eq_some_iff] at ho
  obtain ⟨e, he, rfl⟩ := ho
  refine ⟨(sinkAfter_take_succ s he).symm, ?_⟩
  rw [failure_run_sinkAfter s (es.take i) hadvances (hne e (List.mem_of_getElem? he)),
    flatMap_bytes_take_succ he, List.length_append]

end Emission

/-! ## What can be emitted -/

/-- Something to be emitted. -/
inductive Request where
  /-- The type definition of a record. -/
  | definition (record : Record)
  /-- The serializer of a record. -/
  | serializer (record : Record)
  /-- A source file with some records. -/
  | source (options : SourceOptions) (records : List Record)

namespace Request

/-- The emission that is asked for. -/
def emission : Request → Emission
  | definition record => Go.emitDefinition record
  | serializer record => Go.emitSerializer record
  | source options records => Go.emitSource options records

/-- Everything that is emitted ends in some text of its own. -/
theorem exists_text_emission (q : Request) :
    ∃ front back, q.emission.text = front ++ back ∧ textBytes back ≠ [] := by
  cases q with
  | definition record =>
    exact ⟨_, "\x7d", Go.text_emitDefinition record, by decide⟩
  | serializer record =>
    exact ⟨_, "\treturn nil\n\x7d", Go.text_emitSerializer record, by decide⟩
  | source options records =>
    refine ⟨_, "\n", Emission.text_append _ [.write "\n"], by decide⟩

theorem bytes_emission_ne_nil (q : Request) : q.emission.bytes ≠ [] := by
  obtain ⟨front, back, htext, hback⟩ := q.exists_text_emission
  rw [Emission.bytes, htext, textBytes_append]
  exact List.append_ne_nil_of_right_ne_nil _ hback

end Request

namespace Emission

/-- Emissions one after the other are cut at one place. -/
structure CutOnce (s : Sink) (es : List Emission) : Prop where
  /-- What an emission gives into a sink without limits is its text. -/
  complete_eq : ∀ e ∈ es, complete e = textBytes e.text
  /-- The sink has taken the beginning of all complete texts together, as much as its limit allows. -/
  received_eq : (sinkAfter s es).received =
    (es.flatMap complete).take (capped (es.flatMap complete).length s.limit)
  /-- Each emission ends in some way. -/
  length_eq : (runAll s es).length = es.length
  /-- An emission succeeds exactly if the complete texts up to and with its own are within the limit,
  and any other one ends with the failure of the full sink. -/
  failure_eq : ∀ (i : Nat) (o : Outcome), (runAll s es)[i]? = some o →
    o.failure =
      if Fits ((es.take (i + 1)).flatMap complete).length s.limit then none
      else some s.refusal.failure
  /-- After an emission that has failed, all others fail, and not a byte is added. -/
  failure_persists : ∀ (i j : Nat) (o o' : Outcome), i ≤ j →
    (runAll s es)[i]? = some o → (runAll s es)[j]? = some o' → o.failure ≠ none →
    o'.failure ≠ none ∧ o'.sink.received = o.sink.received

/-- What a sink has taken after some emissions, if it was empty before. -/
theorem received_sinkAfter {s : Sink} (es : List Emission) (hadvances : s.chunk.Advances)
    (hempty : s.received = []) :
    (sinkAfter s es).received =
      (es.flatMap bytes).take (capped (es.flatMap bytes).length s.limit) := by
  rw [sinkAfter_eq s es hadvances, received_push, hempty, List.nil_append,
    room_of_received_nil hempty]

/-- What has been taken when the room has run out is not changed by more text. -/
theorem take_capped_of_not_fits {taken : List UInt8} {limit : Option Nat} (more : List UInt8)
    (h : ¬Fits taken.length limit) :
    (taken ++ more).take (capped (taken ++ more).length limit) =
      taken.take (capped taken.length limit) := by
  rw [List.length_append, capped_add_of_not_fits _ h,
    List.take_append_of_le_length (capped_le _ _)]

/-- Emissions with some text each, into an empty sink, are cut at one place. -/
theorem cutOnce_of_ne_nil {s : Sink} {es : List Emission} (hadvances : s.chunk.Advances)
    (hempty : s.received = []) (hne : ∀ e ∈ es, bytes e ≠ []) : CutOnce s es := by
  have hroom : s.room = s.limit := room_of_received_nil hempty
  have hcomplete : complete = bytes := funext complete_eq_bytes
  constructor
  · intro e _
    exact complete_eq_bytes e
  · rw [hcomplete, received_sinkAfter es hadvances hempty]
  · exact length_runAll s es
  · intro i o ho
    rw [hcomplete, (of_getElem?_runAll hadvances hne ho).2, hroom]
  · intro i j o o' hij ho ho' hfailed
    obtain ⟨hsink, hfailure⟩ := of_getElem?_runAll hadvances hne ho
    obtain ⟨hsink', hfailure'⟩ := of_getElem?_runAll hadvances hne ho'
    -- the failed emission is one whose text has no room with those before it
    have hnot : ¬Fits ((es.take (i + 1)).flatMap bytes).length s.limit := by
      intro hfits
      rw [hroom, if_pos hfits] at hfailure
      exact hfailed hfailure
    -- the texts of the emissions in between only come after those up to the failed one
    obtain ⟨k, rfl⟩ := Nat.exists_eq_add_of_le hij
    have hmore : (es.take (i + k + 1)).flatMap bytes
        = (es.take (i + 1)).flatMap bytes ++ ((es.drop (i + 1)).take k).flatMap bytes := by
      rw [Nat.add_right_comm, List.take_add, List.flatMap_append]
    have hnot' : ¬Fits ((es.take (i + k + 1)).flatMap bytes).length s.limit := by
      intro hfits
      rw [hmore, List.length_append] at hfits
      exact hnot (hfits.of_le (Nat.le_add_right _ _))
    refine ⟨?_, ?_⟩
    · rw [hfailure', hroom, if_neg hnot']
      exact Option.some_ne_none _
    · rw [hsink, hsink', received_sinkAfter _ hadvances hempty,
        received_sinkAfter _ hadvances hempty, hmore, take_capped_of_not_fits _ hnot]

end Emission

/-- **Whatever is emitted is cut at one place.** Type definitions, serializers and source files in any
mix and number, emitted into one sink that takes so many bytes in total, at any pace that advances, and
that refuses the rest in either way. -/
theorem Request.cutOnce (limit : Option Nat) (chunk : Pace) (refusal : Refusal)
    (requests : List Request) (hadvances : chunk.Advances) :
    Emission.CutOnce { limit, chunk, refusal } (requests.map Request.emission) := by
  -- a text that is empty could be written into a full sink, but there is none
  refine Emission.cutOnce_of_ne_nil hadvances rfl ?_
  intro e he
  obtain ⟨q, _, rfl⟩ := List.mem_map.mp he
  exact q.bytes_emission_ne_nil

/-- A type definition that fits, a source file that is cut, and a serializer that finds the sink full:
the sink is filled to its limit, and the two that it has no room for end with its failure. -/
theorem Request.cutOnce_tag :
    let closed : SinkFailure := ⟨.brokenPipe, "closed"⟩
    let sink : Sink := { limit := some 40, chunk := Pace.steady (some 3), refusal := .fails closed }
    let es := [.definition { name := "Tag" }, .source {} [{ name := "Tag" }],
      .serializer { name := "Tag" }].map Request.emission
    (Pace.steady (some 3)).Advances ∧ Emission.CutOnce sink es ∧
      (Emission.runAll sink es).map (·.failure) = [none, some closed, some closed] ∧
      (Emission.sinkAfter sink es).received.length = 40 := by
  intro closed sink es
  have hadvances : (Pace.steady (some 3)).Advances := Pace.steady_advances (by decide)
  have hcut : Emission.CutOnce sink es := Request.cutOnce (some 40) _ _ _ hadvances
  have hcomplete : Emission.complete = Emission.bytes := funext Emission.complete_eq_bytes
  -- the definition takes 19 bytes, and the file, with 160 bytes more, goes beyond the limit
  have hfits : Fits ((es.take 1).flatMap Emission.bytes).length (some 40) := by decide +kernel
  have hfile : ¬Fits ((es.take 2).flatMap Emission.bytes).length (some 40) := by decide +kernel
  have hall : ¬Fits ((es.take 3).flatMap Emission.bytes).length (some 40) := by decide +kernel
  have hfirst := hcut.failure_eq 0 _ rfl
  have hsecond := hcut.failure_eq 1 _ rfl
  have hthird := hcut.failure_eq 2 _ rfl
  rw [hcomplete, if_pos hfits] at hfirst
  rw [hcomplete, if_neg hfile] at hsecond
  rw [hcomplete, if_neg hall] at hthird
  refine ⟨hadvances, hcut, ?_, ?_⟩
  · show [_, _, _] = _
    dsimp only
    rw [hfirst, hsecond, hthird]
    rfl
  · rw [hcut.received_eq, hcomplete, length_take_capped]
    decide +kernel

end WireRecord
