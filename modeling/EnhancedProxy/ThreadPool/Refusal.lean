import EnhancedProxy.ThreadPool.AtMostOnce
import EnhancedProxy.ThreadPool.Visibility

/-! When the ring refuses space, and whether it is full then. -/

namespace EnhancedProxy

open CircleQueue

namespace Pool

variable {T : Type}

/-- The next segment overlaps one that is being filled, is readable, or is taken and not yet read
to its end. -/
def Occupied (pool : Pool T) : Prop :=
  (∃ q, pool.Filling q ∧ Overlaps pool.queue.nextSegment (pool.producers q).segment) ∨
  (∃ segment ∈ pool.queue.readableQueue, Overlaps pool.queue.nextSegment segment) ∨
  ∃ c, Overlaps pool.queue.nextSegment (pool.consumers c).rest

/-- A call that publishes its filled segment is refused only if the ring is occupied where the next
segment would be, with the call's own segment readable. -/
def RefusesOccupied (pool : Pool T) : PoolStep T → Prop
  | .callWrite p _ =>
    pool.Asks p → (pool.producers p).writableId ≠ 0 →
      (pool.queue.tryWriteSpace (pool.producers p).writeId (pool.producers p).writableId).2 =
        none →
      (pool.announce p).Occupied
  | _ => True

/-- A segment is published only while the next one lies before the last block of the first lap, or
while the ring is occupied there. -/
def PublishesInLap (pool : Pool T) : PoolStep T → Prop
  | .callWrite p _ =>
    pool.Asks p → (pool.producers p).writableId ≠ 0 →
      pool.queue.writeId + trySize < size ∨ (pool.announce p).Occupied
  | _ => True

variable {pool : Pool T} {p : Nat}

/-- A call that publishes a segment is refused exactly from the last block of the first lap on,
whatever else is readable: its own segment shuts the guard. -/
theorem refused_iff (aligned : trySize ∣ pool.queue.writeId)
    (some_ : (pool.producers p).writableId ≠ 0) :
    (pool.queue.tryWriteSpace (pool.producers p).writeId (pool.producers p).writableId).2 = none ↔
      ¬ pool.queue.writeId + trySize < size := by
  -- The queue holds the segment just announced, so it is not empty and the sum alone decides.
  have published : (pool.producers p).segment ∈ (pool.announce p).queue.readableQueue :=
    mem_readable_announce.mpr (.inl ⟨some_, rfl⟩)
  have nonempty : (pool.announce p).queue.readableQueue ≠ ∅ := Finset.ne_empty_of_mem published
  have room : (pool.announce p).queue.hasRoom ↔ pool.queue.writeId + trySize < size := by
    rw [hasRoom_iff (by rwa [announce_writeId]), announce_writeId]
    exact or_iff_right nonempty
  rw [← room]
  show (if (pool.announce p).queue.hasRoom then _ else _ : _ × Option Segment).2 = none ↔ _
  split
  · rename_i open_
    exact iff_of_false (Option.some_ne_none _) (not_not_intro open_)
  · rename_i shut
    exact iff_of_true rfl shut

/-- An id below the next segment is on none of its slots before the end of the first lap. -/
theorem not_overlaps_of_past {queue : CircleQueue T} {other : Segment}
    (lap : queue.writeId + trySize ≤ size) (past : other.second ≤ queue.writeId) :
    ¬ Overlaps queue.nextSegment other := by
  -- Within the first lap ids and slots are the same, and the other segment ends before this one.
  rintro ⟨i, j, low, high, -, inside, same⟩
  have lowId : queue.writeId ≤ i := low
  have highId : i < queue.writeId + trySize := high
  rw [Nat.mod_eq_of_lt (by omega), Nat.mod_eq_of_lt (by omega)] at same
  omega

/-- In the first lap, its last block included, the ring is never occupied where the next segment
would be. -/
theorem not_occupied_of_lap (placed : Placed pool) (lap : pool.queue.writeId + trySize ≤ size) :
    ¬ pool.Occupied := by
  rintro (⟨q, filling, overlaps⟩ | ⟨segment, readable, overlaps⟩ | ⟨c, overlaps⟩)
  · exact not_overlaps_of_past lap (placed.issued q filling.1).past overlaps
  · have issued := placed.published segment (placed.readable segment readable)
    exact not_overlaps_of_past lap issued.past overlaps
  · -- A consumer with unread ids has them in a segment that was handed out.
    have unread : (pool.consumers c).readId < (pool.consumers c).readableId := by
      obtain ⟨i, j, -, -, low, high, -⟩ := overlaps
      exact Nat.lt_of_le_of_lt low high
    obtain ⟨segment, announced, ends, -⟩ := placed.taking c unread
    have past : (pool.consumers c).readableId ≤ pool.queue.writeId :=
      ends ▸ (placed.published segment announced).past
    exact not_overlaps_of_past lap past overlaps

end Pool

/-- Every call that publishes its filled segment is refused only by a full ring exactly if each is
made before the last block of the first lap, or finds the ring occupied. -/
theorem refuses_occupied_iff {T : Type} [Inhabited T] (labels : List (PoolStep T)) :
    (poolMachine T).Meets Pool.RefusesOccupied Pool.new labels ↔
      (poolMachine T).Meets Pool.PublishesInLap Pool.new labels := by
  -- Only a call that asks for a segment is spoken of, and it is refused exactly past the lap.
  refine Machine.meets_iff_of_invariant (fun _ _ _ (stocked : Stocked _) _ stepped =>
    stocked.step stepped) ?_ Stocked.start
  intro pool label stocked
  cases label with
  | callWrite p obj =>
    constructor
    · intro refuses asks some_
      by_cases lap : pool.queue.writeId + trySize < size
      · exact .inl lap
      · exact .inr (refuses asks some_ ((Pool.refused_iff stocked.aligned some_).mpr lap))
    · intro inLap asks some_ refused
      have late := (Pool.refused_iff stocked.aligned some_).mp refused
      exact (inLap asks some_).resolve_left late
  | writeSlot p => exact Iff.rfl
  | callRead c => exact Iff.rfl
  | readSlot c => exact Iff.rfl

/-- The last block of the first lap is free, and a producer with a filled segment is refused it. -/
theorem refused_not_occupied :
    ¬ ∀ labels, (poolMachine Nat).Meets Pool.RefusesOccupied Pool.new labels := by
  intro claim
  obtain ⟨pool, ran, -, next, full, -⟩ := fillThenLate_run 16382 (by decide)
  have stocked := stocked_run ran
  have asks : pool.Asks 0 := by rw [Pool.Asks, full]
  have some_ : (pool.producers 0).writableId ≠ 0 := by
    rw [full]
    decide
  have last : pool.queue.writeId + trySize = size := by
    rw [next]
    rfl
  -- The call is refused, as its own segment is readable by then.
  have refused := (Pool.refused_iff stocked.aligned some_).mpr (by omega)
  have met := ((poolMachine Nat).meets_append.mp
    (claim (fillFirst 1023 ++ lateProducers 16382 ++ [.callWrite 0 1]))).2 pool ran
  refine Pool.not_occupied_of_lap (stocked.announce asks).toPlaced ?_
    (met.1 asks some_ refused)
  rw [Pool.announce_writeId, last]

end EnhancedProxy
