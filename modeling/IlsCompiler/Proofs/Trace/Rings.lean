import IlsCompiler.Trace.Tracer

namespace IlsCompiler.Trace

/-!
# Rings keep the newest events

A ring is filled slot after slot and then goes round in its slots. Seen from its oldest event, each
new event comes behind the others, and once the ring is full the oldest one falls out for it.
-/

namespace Ring

/-- A ring fills its slots one after the other, and goes round in them when it is full. -/
structure Formed (ring : Ring) : Prop where
  positive : 0 < ring.capacity
  fits : ring.slots.size ≤ ring.capacity
  head_lt : ring.head < ring.capacity
  filling : ring.slots.size < ring.capacity → ring.head = ring.slots.size

variable
    {ring : Ring}

namespace Formed

theorem record
    (formed : ring.Formed)
    (event : Event) :
    (ring.record event).Formed := by
  have positive := formed.positive
  have fits := formed.fits
  refine ⟨positive, ?_, Nat.mod_lt _ positive, ?_⟩
  · unfold Ring.record isFull
    dsimp only
    split
    · simpa using fits
    next room =>
      simp only [decide_eq_true_eq, Nat.not_le] at room
      rw [Array.size_push]
      exact room
  · unfold Ring.record isFull
    dsimp only
    split
    next full =>
      simp only [decide_eq_true_eq] at full
      intro room
      rw [Array.size_setIfInBounds] at room
      exact absurd full (Nat.not_le.mpr room)
    next room =>
      simp only [decide_eq_true_eq, Nat.not_le] at room
      intro more
      rw [Array.size_push] at more ⊢
      rw [formed.filling room, Nat.mod_eq_of_lt more]

theorem length_toList
    (formed : ring.Formed) :
    ring.toList.length = ring.slots.size := by
  unfold toList isFull
  split
  next full =>
    have size : ring.slots.size = ring.capacity :=
      Nat.le_antisymm formed.fits (by simpa using full)
    have inside := formed.head_lt
    simp only [List.length_append, List.length_drop, List.length_take, Array.length_toList]
    omega
  · simp

/-- In a ring with room an event comes behind the others. -/
theorem toList_record_room
    (formed : ring.Formed)
    (room : ring.isFull = false)
    (event : Event) :
    (ring.record event).toList = ring.toList ++ [event] := by
  have hasRoom : ring.slots.size < ring.capacity := by simpa [Ring.isFull] using room
  have slots : (ring.record event).slots.toList = ring.slots.toList ++ [event] := by
    simp [Ring.record, room]
  have others : ring.toList = ring.slots.toList := by
    rw [toList, if_neg (by simp [room])]
  rw [others, ← slots, toList]
  split
  next full =>
    have size : (ring.record event).slots.size = ring.slots.size + 1 := by simp [Ring.record, room]
    have isFull : ring.capacity ≤ (ring.record event).slots.size := of_decide_eq_true full
    have atStart : (ring.record event).head = 0 := by
      show (ring.head + 1) % ring.capacity = 0
      rw [formed.filling hasRoom, show ring.slots.size + 1 = ring.capacity by omega, Nat.mod_self]
    rw [atStart]
    simp
  · rfl

/-- A ring with room for all events keeps them all. -/
theorem toList_records
    (formed : ring.Formed)
    {events : List Event}
    (room : ring.toList.length + events.length ≤ ring.capacity) :
    (events.foldl Ring.record ring).toList = ring.toList ++ events := by
  induction events generalizing ring with
  | nil => simp
  | cons event rest inductionHypothesis =>
      have hasRoom : ring.isFull = false := by
        rw [formed.length_toList, List.length_cons] at room
        simp only [isFull, decide_eq_false_iff_not]
        omega
      have kept := formed.toList_record_room hasRoom event
      rw [List.foldl_cons, inductionHypothesis (formed.record event), kept, List.append_assoc]
      · rfl
      · rw [kept]
        simp only [List.length_append, List.length_cons, List.length_nil] at room ⊢
        show _ ≤ ring.capacity
        omega

end Formed

end Ring

namespace Tracer

end Tracer

end IlsCompiler.Trace
