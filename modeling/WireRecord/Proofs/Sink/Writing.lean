/-
Writing into a sink that fills up.

A write is a loop over offers: what an offer leaves over is offered again. The main result, `write_eq`,
is what the loop comes to for a sink that takes at least one byte at each offer until it is full: the
sink takes the beginning of the bytes, as much as it has room for, and the write fails exactly if they
do not all have room. The pace of the sink has no part in it.

The invariant of the loop is a fact about room: bytes that have room leave the rest of the room to the
bytes after them (`capped_add_of_fits`, `fits_add_iff`). It is stated for room that may be without a
limit, so that a sink without one is not a case of its own.
-/
import WireRecord.Sink

set_option autoImplicit false

namespace WireRecord

/-- A pace at which a sink that is not full takes at least one byte of each offer. -/
def Pace.Advances (p : Pace) : Prop := ∀ taken limit, p.most taken = some limit → 0 < limit

theorem Pace.steady_advances {limit : Option Nat} (h : limit ≠ some 0) :
    (Pace.steady limit).Advances := by
  intro taken n hn
  have hlimit : limit = some n := hn
  rcases Nat.eq_zero_or_pos n with rfl | hpos
  · exact absurd hlimit h
  · exact hpos

/-- The failure of an offer to a full sink. -/
def Refusal.failure : Refusal → SinkFailure
  | fails failure => failure
  | takesNothing => .nothingTaken

namespace Sink

/-! ## Room -/

/-- Whether so many bytes have room, if there is a limit. -/
def Fits (count : Nat) : Option Nat → Prop
  | some room => count ≤ room
  | none => True

instance (count : Nat) (room : Option Nat) : Decidable (Fits count room) :=
  match room with
  | some room => inferInstanceAs (Decidable (count ≤ room))
  | none => inferInstanceAs (Decidable True)

theorem fits_zero (room : Option Nat) : Fits 0 room := by
  cases room with
  | none => trivial
  | some n => exact Nat.zero_le n

theorem Fits.of_le {a b : Nat} {room : Option Nat} (h : Fits b room) (hab : a ≤ b) :
    Fits a room := by
  cases room with
  | none => trivial
  | some n => exact Nat.le_trans hab h

theorem capped_le (count : Nat) (room : Option Nat) : capped count room ≤ count := by
  cases room with
  | none => exact Nat.le_refl count
  | some n => exact Nat.min_le_right n count

theorem fits_capped (count : Nat) (room : Option Nat) : Fits (capped count room) room := by
  cases room with
  | none => trivial
  | some n => exact Nat.min_le_left n count

theorem capped_of_fits {count : Nat} {room : Option Nat} (h : Fits count room) :
    capped count room = count := by
  cases room with
  | none => rfl
  | some n => exact Nat.min_eq_right h

/-- What has no room cuts off all that comes after it. -/
theorem capped_add_of_not_fits {a : Nat} (b : Nat) {room : Option Nat} (h : ¬Fits a room) :
    capped (a + b) room = capped a room := by
  cases room with
  | none => exact absurd trivial h
  | some n =>
    have hlt : ¬a ≤ n := h
    simp only [capped]
    omega

/-- What has room leaves the rest of the room to what comes after it. -/
theorem capped_add_of_fits {a : Nat} (b : Nat) {room : Option Nat} (h : Fits a room) :
    capped (a + b) room = a + capped b (room.map (· - a)) := by
  cases room with
  | none => rfl
  | some n =>
    have hle : a ≤ n := h
    simp only [capped, Option.map_some]
    omega

theorem fits_add_iff {a : Nat} (b : Nat) {room : Option Nat} (h : Fits a room) :
    Fits (a + b) room ↔ Fits b (room.map (· - a)) := by
  cases room with
  | none => exact Iff.rfl
  | some n =>
    have hle : a ≤ n := h
    simp only [Fits, Option.map_some]
    omega

/-- Bytes that are taken one part after the other take up the room one part after the other. -/
theorem capped_add (a b : Nat) (room : Option Nat) :
    capped (a + b) room = capped a room + capped b (room.map (· - capped a room)) := by
  cases room with
  | none => rfl
  | some n =>
    simp only [capped, Option.map_some]
    omega

/-- Bytes have room after others, as far as those were taken, exactly if they have room together. -/
theorem fits_after_iff (a : Nat) {b : Nat} (hb : 0 < b) (room : Option Nat) :
    Fits b (room.map (· - capped a room)) ↔ Fits (a + b) room := by
  cases room with
  | none => exact Iff.rfl
  | some n =>
    simp only [Fits, capped, Option.map_some]
    omega

/-- As many bytes are taken as have room. -/
theorem length_take_capped (bytes : List UInt8) (room : Option Nat) :
    (bytes.take (capped bytes.length room)).length = capped bytes.length room := by
  rw [List.length_take, Nat.min_eq_left (capped_le _ _)]

theorem take_capped_append (a b : List UInt8) (room : Option Nat) :
    (a ++ b).take (capped (a ++ b).length room) =
      a.take (capped a.length room)
        ++ b.take (capped b.length (room.map (· - capped a.length room))) := by
  rw [List.length_append, capped_add, List.take_append]
  by_cases h : Fits a.length room
  · rw [capped_of_fits h, Nat.add_sub_cancel_left, List.take_length,
      List.take_of_length_le (Nat.le_add_right _ _)]
  · -- the room ends within the first part
    cases room with
    | none => exact absurd trivial h
    | some n =>
      have hn : n < a.length := Nat.lt_of_not_le h
      simp only [capped, Option.map_some, Nat.min_eq_left (Nat.le_of_lt hn), Nat.sub_self,
        Nat.zero_min, Nat.add_zero, Nat.sub_eq_zero_of_le (Nat.le_of_lt hn)]

@[simp] theorem push_nil (s : Sink) : s.push [] = s := by
  rw [push, List.append_nil]

theorem push_push (s : Sink) (a b : List UInt8) : (s.push a).push b = s.push (a ++ b) := by
  rw [push, push, push, List.append_assoc]

theorem room_push (s : Sink) (bytes : List UInt8) :
    (s.push bytes).room = s.room.map (· - bytes.length) := by
  unfold room push
  cases s.limit with
  | none => rfl
  | some limit =>
    simp only [Option.map_some, List.length_append]
    congr 1
    omega

/-- An empty sink has room up to its limit. -/
theorem room_of_received_nil {s : Sink} (h : s.received = []) : s.room = s.limit := by
  rw [room, h]
  cases s.limit <;> rfl

/-! ## One offer -/

theorem of_offer_error {s : Sink} {count : Nat} {failure : SinkFailure}
    (h : s.offer count = .error failure) : s.room = some 0 ∧ s.refusal = .fails failure := by
  unfold offer at h
  split at h
  · next hfull =>
    split at h
    · next f hrefusal =>
      obtain rfl : f = failure := Except.error.inj h
      exact ⟨hfull, hrefusal⟩
    · cases h
  · cases h

/-- An offer of which nothing is taken is an offer to a full sink. -/
theorem of_offer_zero {s : Sink} {count : Nat} (hadvances : s.chunk.Advances) (hcount : 0 < count)
    (h : s.offer count = .ok 0) : s.room = some 0 ∧ s.refusal = .takesNothing := by
  unfold offer at h
  split at h
  · next hfull =>
    split at h
    · cases h
    · next hrefusal => exact ⟨hfull, hrefusal⟩
  · next hfull =>
    -- with room for one byte and a pace that advances, one byte is taken
    have hzero : capped (capped count s.room) (s.chunk.most s.received.length) = 0 :=
      Except.ok.inj h
    have hroom : 0 < capped count s.room := by
      cases hr : s.room with
      | none => exact hcount
      | some n =>
        have hn : n ≠ 0 := by
          rintro rfl
          exact hfull hr
        simp only [capped]
        omega
    cases hp : s.chunk.most s.received.length with
    | none =>
      rw [hp, capped] at hzero
      omega
    | some n =>
      have hn := hadvances _ _ hp
      rw [hp] at hzero
      have hmin : min n (capped count s.room) = 0 := hzero
      omega

theorem of_offer_ok {s : Sink} {count n : Nat} (h : s.offer count = .ok n) :
    n ≤ count ∧ Fits n s.room := by
  unfold offer at h
  split at h
  · split at h
    · cases h
    · obtain rfl : 0 = n := Except.ok.inj h
      exact ⟨Nat.zero_le count, fits_zero s.room⟩
  · -- neither the room nor the pace lets more through
    have hn : capped (capped count s.room) (s.chunk.most s.received.length) = n :=
      Except.ok.inj h
    have hpace := capped_le (capped count s.room) (s.chunk.most s.received.length)
    rw [hn] at hpace
    exact ⟨Nat.le_trans hpace (capped_le count s.room), (fits_capped count s.room).of_le hpace⟩

/-! ## One write -/

/-- Of bytes that are offered to a full sink, none is taken. -/
theorem cut_of_full {s : Sink} (first : UInt8) (rest : List UInt8) (hfull : s.room = some 0) :
    (s.push ((first :: rest).take (capped (first :: rest).length s.room)),
      if Fits (first :: rest).length s.room then none else some s.refusal.failure) =
    (s, some s.refusal.failure) := by
  have hnot : ¬Fits (first :: rest).length (some 0) := Nat.not_succ_le_zero rest.length
  rw [hfull, if_neg hnot, capped, Nat.zero_min, List.take_zero, push_nil]

/-- **A write.** The sink takes the beginning of the bytes, as much as it has room for, and the write
fails exactly if they do not all have room. -/
theorem write_eq (s : Sink) (bytes : List UInt8) (hadvances : s.chunk.Advances) :
    s.write bytes =
      (s.push (bytes.take (capped bytes.length s.room)),
        if Fits bytes.length s.room then none else some s.refusal.failure) := by
  fun_induction write s bytes with
  | case1 s =>
    rw [List.take_nil, push_nil, List.length_nil, if_pos (fits_zero s.room)]
  | case2 s first rest failure hoffer =>
    -- the sink is full and says so
    obtain ⟨hfull, hrefusal⟩ := of_offer_error hoffer
    rw [cut_of_full first rest hfull, hrefusal, Refusal.failure]
  | case3 s first rest hoffer =>
    -- nothing is taken, so the sink is full
    obtain ⟨hfull, hrefusal⟩ := of_offer_zero hadvances (Nat.succ_pos rest.length) hoffer
    rw [cut_of_full first rest hfull, hrefusal, Refusal.failure]
  | case4 s first rest n hoffer ih =>
    obtain ⟨hn, hfits⟩ := of_offer_ok hoffer
    have hle : n ≤ rest.length := Nat.le_of_succ_le_succ hn
    -- the bytes of this offer, and then those of the offers after it
    have hsum : (first :: rest).length = n + 1 + (rest.drop n).length := by
      rw [List.length_cons, List.length_drop]
      omega
    have htaken : (first :: rest.take n).length = n + 1 := by
      rw [List.length_cons, List.length_take, Nat.min_eq_left hle]
    have htake : (first :: rest).take (n + 1 + capped (rest.drop n).length (s.room.map (· - (n + 1))))
        = first :: rest.take n
          ++ (rest.drop n).take (capped (rest.drop n).length (s.room.map (· - (n + 1)))) := by
      rw [List.take_add, List.take_succ_cons, List.drop_succ_cons]
    rw [ih hadvances, push_push, room_push, htaken, hsum, capped_add_of_fits _ hfits, htake]
    simp only [fits_add_iff _ hfits]
    rfl

end Sink

end WireRecord
