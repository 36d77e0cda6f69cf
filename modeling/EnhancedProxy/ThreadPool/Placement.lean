import EnhancedProxy.ThreadPool.PoolLaws

/-! Where the tasks are, and how every atomic step passes them from hand to hand. -/

namespace EnhancedProxy

open CircleQueue

namespace Pool

variable {T : Type}

/-- The task of an id has been read, is readable, or is in a segment that a consumer reads. -/
def Visible (pool : Pool T) (id : Nat) : Prop :=
  pool.Returned id ∨
  (∃ segment ∈ pool.queue.readableQueue, segment.first ≤ id ∧ id < segment.second) ∨
  (∃ c, (pool.consumers c).readId ≤ id ∧ id < (pool.consumers c).readableId)

/-- The task of an id is in the segment that a producer has still to announce. -/
def HeldBack (pool : Pool T) (p id : Nat) : Prop :=
  pool.Filling p ∧ (pool.producers p).writeId ≤ id ∧ id < (pool.producers p).curWriteId

end Pool

/-- Producers and consumers stand in segments that were handed out, and every accepted task is
visible to the consumers or held back by a producer. -/
structure Placed {T : Type} (pool : Pool T) : Prop where
  aligned : trySize ∣ pool.queue.writeId
  issued : ∀ p, (pool.producers p).writableId ≠ 0 →
    pool.queue.Issued (pool.producers p).segment
  cursor : ∀ p, (pool.producers p).writeId ≤ (pool.producers p).curWriteId ∧
    (pool.producers p).curWriteId ≤ (pool.producers p).writableId ∧
    ((pool.producers p).writing ≠ none → ¬ pool.Asks p)
  unannounced : ∀ p, ¬ pool.Asks p → (pool.producers p).segment ∉ pool.published
  published : ∀ segment ∈ pool.published, pool.queue.Issued segment
  readable : ∀ segment ∈ pool.queue.readableQueue, segment ∈ pool.published
  taking : ∀ c, (pool.consumers c).readId < (pool.consumers c).readableId →
    ∃ segment ∈ pool.published, segment.second = (pool.consumers c).readableId ∧
      segment.first ≤ (pool.consumers c).readId
  reading : ∀ c, (pool.consumers c).reading →
    (pool.consumers c).readId < (pool.consumers c).readableId
  placed : ∀ entry ∈ pool.accepted, pool.Visible entry.1 ∨ ∃ p, pool.HeldBack p entry.1

namespace Pool

variable {T : Type} {pool : Pool T} {p : Nat}

/-- What is visible stays visible when a segment is announced. -/
theorem Visible.announce {id : Nat} (visible : pool.Visible id) :
    (pool.announce p).Visible id := by
  -- Readable segments are added, and nothing else changes.
  rcases visible with returned | ⟨segment, readable, inside⟩ | consumer
  · exact .inl returned
  · exact .inr (.inl ⟨segment, mem_readable_announce.mpr (.inr readable), inside⟩)
  · exact .inr (.inr consumer)

/-- The announcement of a segment makes visible what its producer held back. -/
theorem HeldBack.visible {id : Nat} (heldBack : pool.HeldBack p id)
    (within : (pool.producers p).curWriteId ≤ (pool.producers p).writableId) :
    (pool.announce p).Visible id := by
  -- What is held back is in the segment that becomes readable.
  obtain ⟨filling, low, high⟩ := heldBack
  have announced : (pool.producers p).segment ∈ (pool.announce p).queue.readableQueue :=
    mem_readable_announce.mpr (.inl ⟨filling.1, rfl⟩)
  exact .inr (.inl ⟨_, announced, low, high.trans_le within⟩)

end Pool

namespace Placed

open Pool

variable {T : Type} {pool next : Pool T} {p c : Nat} {obj : T}

/-- A pool in which nothing has happened. -/
theorem start [Inhabited T] : Placed (Pool.new : Pool T) where
  -- Nobody has a segment, and no task was accepted.
  aligned := Nat.dvd_zero _
  issued _ some_ := absurd rfl some_
  cursor _ := ⟨Nat.le_refl _, Nat.le_refl _, fun writing => absurd rfl writing⟩
  unannounced _ goesOn := absurd (Nat.le_refl 0) goesOn
  published _ announced := absurd announced List.not_mem_nil
  readable _ announced := absurd announced (Finset.notMem_empty _)
  taking _ taken := absurd taken (Nat.lt_irrefl _)
  reading _ called := Bool.noConfusion called
  placed _ accepted := absurd accepted List.not_mem_nil

/-- Announcing a used-up segment makes its tasks visible, if nobody else still fills it. -/
theorem announce (placed : Placed pool)
    (only : ∀ q, ¬ pool.Asks q → (pool.producers p).writableId ≠ 0 →
      (pool.producers q).segment ≠ (pool.producers p).segment) : Placed (pool.announce p) where
  aligned := by
    rw [announce_writeId]
    exact placed.aligned
  issued q some_ := (placed.issued q some_).mono (Nat.le_of_eq announce_writeId.symm)
  cursor := placed.cursor
  unannounced q goesOn announced := by
    rcases mem_published_announce.mp announced with ⟨some_, same⟩ | before
    · exact only q goesOn some_ same
    · exact placed.unannounced q goesOn before
  published segment announced := by
    refine Issued.mono ?_ (Nat.le_of_eq announce_writeId.symm)
    rcases mem_published_announce.mp announced with ⟨some_, rfl⟩ | before
    · exact placed.issued p some_
    · exact placed.published segment before
  readable segment member := by
    rw [mem_published_announce]
    exact (mem_readable_announce.mp member).imp id (placed.readable segment)
  taking c taken := by
    obtain ⟨segment, announced, inside⟩ := placed.taking c taken
    exact ⟨segment, mem_published_announce.mpr (.inr announced), inside⟩
  reading := placed.reading
  placed entry accepted := by
    rcases placed.placed entry accepted with visible | ⟨q, heldBack⟩
    · exact .inl visible.announce
    · by_cases still : (pool.announce p).Filling q
      · exact .inr ⟨q, still, heldBack.2⟩
      · -- The task is in the announced segment.
        have announced : (pool.producers p).writableId ≠ 0 ∧
            (pool.producers q).segment = (pool.producers p).segment := by
          have filling := heldBack.1
          rw [filling_announce] at still
          tauto
        refine .inl (.inr (.inl ⟨_, mem_readable_announce.mpr (.inl announced), heldBack.2.1, ?_⟩))
        exact heldBack.2.2.trans_le (placed.cursor q).2.1

/-- The segment that is handed out next has no tasks, and nobody has it. -/
theorem grant (placed : Placed pool) (vacant : ¬ pool.Filling p) (obj : T) :
    Placed (pool.grant p obj) where
  aligned := Nat.dvd_add placed.aligned (Nat.dvd_refl trySize)
  issued q some_ := by
    by_cases caller : q = p
    · subst caller
      rw [grant_own]
      exact ⟨rfl, placed.aligned, Nat.le_refl _⟩
    · rw [grant_other caller] at some_ ⊢
      exact (placed.issued q some_).mono (Nat.le_add_right _ _)
  cursor q := by
    by_cases caller : q = p
    · subst caller
      simp [Asks, grant_own, trySize]
    · simp only [Asks, grant_other caller]
      exact placed.cursor q
  unannounced q goesOn announced := by
    by_cases caller : q = p
    · subst caller
      -- Everything announced was handed out before.
      have past := (placed.published _ announced).past
      simp only [Producer.segment, grant_own, trySize] at past
      omega
    · rw [Asks, grant_other caller] at goesOn
      rw [grant_other caller] at announced
      exact placed.unannounced q goesOn announced
  published segment announced :=
    (placed.published segment announced).mono (Nat.le_add_right _ _)
  readable := placed.readable
  taking := placed.taking
  reading := placed.reading
  placed entry accepted := by
    refine (placed.placed entry accepted).imp id ?_
    rintro ⟨q, filling, inside⟩
    have other : q ≠ p := by
      rintro rfl
      exact vacant filling
    refine ⟨q, (filling_grant_other other).mpr filling, ?_⟩
    rwa [grant_other other]

/-- A producer that moves on within its segment holds back what it held back. -/
theorem advance (placed : Placed pool) (working : ¬ pool.Asks p) {cur : Nat} {writing : Option T}
    (forward : (pool.producers p).curWriteId ≤ cur) (within : cur ≤ (pool.producers p).writableId)
    (room : writing ≠ none → cur < (pool.producers p).writableId) :
    Placed (pool.advance p cur writing) where
  aligned := placed.aligned
  issued q some_ := by
    rw [advance_segment]
    exact placed.issued q (by rwa [advance_writableId] at some_)
  cursor q := by
    -- The cursor stays inside the segment, and before its end while a task is in hand.
    obtain ⟨low, high, busy⟩ := placed.cursor q
    by_cases caller : q = p
    · subst caller
      simp only [Asks, advance_own, Nat.not_le]
      exact ⟨low.trans forward, within, room⟩
    · simp only [Asks, advance_other caller]
      exact ⟨low, high, busy⟩
  unannounced q goesOn := by
    rw [advance_segment]
    by_cases caller : q = p
    · subst caller
      exact placed.unannounced q working
    · rw [Asks, advance_other caller] at goesOn
      exact placed.unannounced q goesOn
  published := placed.published
  readable := placed.readable
  taking := placed.taking
  reading := placed.reading
  placed entry accepted := by
    refine (placed.placed entry accepted).imp id ?_
    rintro ⟨q, filling, low, high⟩
    refine ⟨q, filling_advance.mpr filling, ?_, high.trans_le (curWriteId_le_advance forward)⟩
    rwa [advance_writeId]

/-- A task is accepted under an id that its producer has just passed. -/
theorem accept (placed : Placed pool) {id : Nat} (heldBack : pool.HeldBack p id) (obj : T)
    (slots : Nat → T) :
    Placed { pool with
      queue := { pool.queue with circleArray := slots }
      accepted := pool.accepted ++ [(id, obj)] } where
  -- Only the accepted tasks are more by one, and that one is held back by its producer.
  aligned := placed.aligned
  issued q some_ := (placed.issued q some_).mono (Nat.le_refl _)
  cursor := placed.cursor
  unannounced := placed.unannounced
  published segment announced := (placed.published segment announced).mono (Nat.le_refl _)
  readable := placed.readable
  taking := placed.taking
  reading := placed.reading
  placed entry accepted := by
    rcases List.mem_append.mp accepted with before | now
    · exact placed.placed entry before
    · rw [List.mem_singleton] at now
      subst now
      exact .inr ⟨p, heldBack⟩

/-- A consumer that moves on within announced segments keeps every task visible, if what was
readable or in its hands has been returned, is still readable, or is in its hands now. -/
theorem consume (placed : Placed pool) {consumer : Consumer} {readable : Finset Segment}
    {returned : List (Nat × T)} {taken : List Segment}
    (fewer : readable ⊆ pool.queue.readableQueue)
    (more : ∀ entry ∈ pool.returned, entry ∈ returned)
    (taking : consumer.readId < consumer.readableId → ∃ segment ∈ pool.published,
      segment.second = consumer.readableId ∧ segment.first ≤ consumer.readId)
    (reading : consumer.reading → consumer.readId < consumer.readableId)
    (handsOn : ∀ id,
      (∃ segment ∈ pool.queue.readableQueue, segment.first ≤ id ∧ id < segment.second) ∨
        ((pool.consumers c).readId ≤ id ∧ id < (pool.consumers c).readableId) →
      (∃ obj, (id, obj) ∈ returned) ∨
        (∃ segment ∈ readable, segment.first ≤ id ∧ id < segment.second) ∨
        (consumer.readId ≤ id ∧ id < consumer.readableId)) :
    Placed { pool with
      queue := { pool.queue with readableQueue := readable }
      consumers := Function.update pool.consumers c consumer
      returned := returned
      taken := taken } where
  aligned := placed.aligned
  issued q some_ := (placed.issued q some_).mono (Nat.le_refl _)
  cursor := placed.cursor
  unannounced := placed.unannounced
  published segment announced := (placed.published segment announced).mono (Nat.le_refl _)
  readable segment member := placed.readable segment (fewer member)
  taking d := by
    by_cases caller : d = c
    · subst caller
      simpa only [Function.update_self] using taking
    · simpa only [Function.update_of_ne caller] using placed.taking d
  reading d := by
    by_cases caller : d = c
    · subst caller
      simpa only [Function.update_self] using reading
    · simpa only [Function.update_of_ne caller] using placed.reading d
  placed entry accepted := by
    rcases placed.placed entry accepted with visible | heldBack
    · left
      by_cases here : (∃ segment ∈ pool.queue.readableQueue,
          segment.first ≤ entry.1 ∧ entry.1 < segment.second) ∨
        ((pool.consumers c).readId ≤ entry.1 ∧ entry.1 < (pool.consumers c).readableId)
      · rcases handsOn entry.1 here with done | inQueue | inside
        · exact .inl done
        · exact .inr (.inl inQueue)
        · exact .inr (.inr ⟨c, by simpa only [Function.update_self] using inside⟩)
      · -- What was returned stays so, and another consumer keeps what it has.
        rcases visible with ⟨obj, before⟩ | inQueue | ⟨d, inside⟩
        · exact .inl ⟨obj, more _ before⟩
        · exact absurd (.inl inQueue) here
        · have other : d ≠ c := by
            rintro rfl
            exact here (.inr inside)
          exact .inr (.inr ⟨d, by simpa only [Function.update_of_ne other] using inside⟩)
    · exact .inr heldBack

/-- The tasks of a segment stay visible when a consumer takes it. -/
theorem take (placed : Placed pool) (usedUp : (pool.consumers c).readableId ≤
    (pool.consumers c).readId) {segment : Segment} (readable : segment ∈ pool.queue.readableQueue) :
    Placed { pool with
      queue := { pool.queue with readableQueue := pool.queue.readableQueue.erase segment }
      consumers := Function.update pool.consumers c
        { readId := segment.first, readableId := segment.second, reading := true }
      taken := segment :: pool.taken } := by
  have announced := placed.readable segment readable
  have width := (placed.published segment announced).width
  apply placed.consume (Finset.erase_subset _ _) (fun _ before => before)
  · intro _
    exact ⟨segment, announced, rfl, Nat.le_refl _⟩
  · intro _
    show segment.first < segment.second
    rw [width]
    exact Nat.lt_add_of_pos_right (by decide)
  · rintro id (⟨other, member, inside⟩ | inside)
    · -- The segment passes from the set of readable ones to the caller.
      by_cases chosen : other = segment
      · subst chosen
        exact .inr (.inr inside)
      · exact .inr (.inl ⟨other, Finset.mem_erase.mpr ⟨chosen, member⟩, inside⟩)
    · -- The caller had nothing left to read.
      omega

/-- A consumer that starts on its next id keeps its segment. -/
theorem goOnReading (placed : Placed pool)
    (unread : (pool.consumers c).readId < (pool.consumers c).readableId) :
    Placed { pool with
      consumers := Function.update pool.consumers c
        { pool.consumers c with reading := true } } := by
  -- Beginning a read takes nothing out of the queue, and what was visible still is.
  apply placed.consume (Finset.Subset.refl _) (fun _ before => before)
  · exact placed.taking c
  · intro _
    exact unread
  · intro id visible
    exact .inr visible

/-- A consumer that has read its slot has returned that id. -/
theorem readSlot (placed : Placed pool) (called : (pool.consumers c).reading) (obj : T) :
    Placed { pool with
      consumers := Function.update pool.consumers c
        { pool.consumers c with readId := (pool.consumers c).readId + 1, reading := false }
      returned := pool.returned ++ [((pool.consumers c).readId, obj)] } := by
  have unread := placed.reading c called
  obtain ⟨segment, announced, ends, starts⟩ := placed.taking c unread
  apply placed.consume (Finset.Subset.refl _) (fun _ before => List.mem_append_left _ before)
  · intro _
    exact ⟨segment, announced, ends, Nat.le_succ_of_le starts⟩
  · intro idle
    exact Bool.noConfusion idle
  · rintro id (inQueue | ⟨low, high⟩)
    · exact .inr (.inl inQueue)
    · -- Either this is the id that was read, or it comes later in the segment.
      rcases Nat.eq_or_lt_of_le low with rfl | later
      · exact .inl ⟨obj, List.mem_append_right _ (List.mem_singleton.mpr rfl)⟩
      · exact .inr (.inr ⟨later, high⟩)

/-- A producer with a task in hand has a segment that it has still to announce. -/
theorem filling_of_writing (placed : Placed pool) (writing : (pool.producers p).writing ≠ none) :
    pool.Filling p := by
  -- The cursor is below the end of the segment, so there is a segment.
  have working := (placed.cursor p).2.2 writing
  refine ⟨?_, placed.unannounced p working⟩
  simp only [Asks] at working
  omega

end Placed

end EnhancedProxy
