import EnhancedProxy.ThreadPool.Placement

/-! Custody of the ring's segments passes from hand to hand along every run with safe grants. -/

namespace EnhancedProxy

open CircleQueue

namespace Pool

variable {T : Type}

/-- No other producer and no consumer is at work on the block of the ring that is next. -/
def HandsClear (pool : Pool T) (p : Nat) : Prop :=
  (∀ q, q ≠ p → pool.Filling q →
    ringBlock (pool.producers q).writeId ≠ ringBlock pool.queue.writeId) ∧
  ∀ c, (pool.consumers c).readId < (pool.consumers c).readableId →
    ringBlock (pool.consumers c).readId ≠ ringBlock pool.queue.writeId

/-- A call that is about to receive a segment finds everyone off the block it falls on. -/
def GrantsClear (pool : Pool T) : PoolStep T → Prop
  | .callWrite p _ =>
    pool.Asks p → (pool.announce p).queue.hasRoom → pool.HandsClear p
  | _ => True

end Pool

/-- Segments that overlap fall on one block of the ring. -/
theorem ringBlock_eq_of_mod_eq {i j : Nat} (same : i % size = j % size) :
    ringBlock i = ringBlock j :=
  Blocks.slot_eq_of_mod_eq same

/-- In the first lap, an id below the next segment is not on its block. -/
theorem ringBlock_ne_of_lap {start id : Nat} (aligned : trySize ∣ start)
    (lap : start + trySize ≤ size) (below : id < start) : ringBlock id ≠ ringBlock start := by
  intro same
  have whole : trySize * (size / trySize) = size := by decide
  have wide : 0 < trySize := by decide
  have blocks : id / trySize = start / trySize :=
    Blocks.div_eq_of_slot_eq (by decide) (by rw [whole]; omega) (by rw [whole]; omega) same
  -- A multiple of the width is the first id of its block, so no smaller id is in it.
  obtain ⟨k, rfl⟩ := aligned
  simp only [trySize] at *
  omega

/-- In the first lap, the segment on the block of slot 0 is the first one. -/
theorem CircleQueue.Issued.eq_first {T : Type} {queue : CircleQueue T} {segment : Segment}
    (issued : queue.Issued segment) (lap : queue.writeId ≤ size)
    (same : ringBlock segment.first = ringBlock size) : segment = ⟨0, trySize⟩ := by
  have past := issued.past
  rw [issued.width] at past
  have whole : trySize * (size / trySize) = size := by decide
  have inside : segment.first < size := by
    simp only [trySize] at past
    omega
  have wrapped : ringBlock size = ringBlock 0 := by decide
  have blocks : segment.first / trySize = 0 / trySize :=
    Blocks.div_eq_of_slot_eq (by decide) (by rwa [whole]) (by decide) (same.trans wrapped)
  -- A multiple of the width in the first block of the line is 0.
  obtain ⟨k, starts⟩ := issued.aligned
  have width := issued.width
  cases segment
  simp only [trySize, Segment.mk.injEq] at *
  omega

/-- The ids of an aligned segment fall on the block of its start. -/
theorem ringBlock_of_mem {start id : Nat} (aligned : trySize ∣ start) (low : start ≤ id)
    (high : id < start + trySize) : ringBlock id = ringBlock start :=
  Blocks.slot_of_mem (by decide) aligned low high

/-- In the first lap, everybody is on an earlier block than the next one. -/
theorem Placed.handsClear_of_lap {T : Type} {pool : Pool T} (placed : Placed pool)
    (lap : pool.queue.writeId + trySize ≤ size) (p : Nat) : pool.HandsClear p := by
  constructor
  · -- A segment that a producer fills ends where the next one starts, at the latest.
    intro q _ filling
    have issued := placed.issued q filling.1
    have past := issued.past
    rw [issued.width] at past
    exact ringBlock_ne_of_lap placed.aligned lap
      ((Nat.lt_add_of_pos_right (by decide)).trans_le past)
  · -- So does a segment that a consumer reads.
    intro c unread
    obtain ⟨segment, announced, ends, -⟩ := placed.taking c unread
    have past := (placed.published segment announced).past
    exact ringBlock_ne_of_lap placed.aligned lap (unread.trans_le (ends ▸ past))

/-- A step that does not leave the first lap grants no block that is in use. -/
theorem Placed.grantsClear_of_lap {T : Type} {pool next : Pool T} {label : PoolStep T}
    (placed : Placed pool) (lap : next.queue.writeId ≤ size)
    (stepped : (poolMachine T).step pool label = some next) : pool.GrantsClear label := by
  cases label with
  | writeSlot p => trivial
  | callRead c => trivial
  | readSlot c => trivial
  | callWrite p obj =>
    intro asks room
    obtain ⟨idle, -⟩ := Pool.callWrite_cases stepped
    have moved : (poolMachine T).step pool (.callWrite p obj) =
        some ((pool.announce p).grant p obj) := Pool.callWrite_granted idle asks room obj
    rw [moved, Option.some.injEq] at stepped
    -- The grant ends within the lap.
    rw [← stepped] at lap
    apply placed.handsClear_of_lap
    simpa [Pool.grant] using lap

/-- Every accepted task that has not been returned is in someone's custody, and no two hands work
on one block of the ring. -/
structure Custody {T : Type} (pool : Pool T) : Prop where
  aligned : trySize ∣ pool.queue.writeId
  issued : ∀ p, (pool.producers p).writableId ≠ 0 →
    pool.queue.Issued (pool.producers p).segment
  cursor : ∀ p, (pool.producers p).writeId ≤ (pool.producers p).curWriteId ∧
    (pool.producers p).curWriteId ≤ (pool.producers p).writableId ∧
    ((pool.producers p).writing ≠ none → ¬ pool.Asks p)
  unannounced : ∀ p, ¬ pool.Asks p → (pool.producers p).segment ∉ pool.published
  published : ∀ segment ∈ pool.published, pool.queue.Issued segment
  readable : ∀ segment ∈ pool.queue.readableQueue, segment ∈ pool.published
  taking : ∀ c, (pool.consumers c).readId < (pool.consumers c).readableId →
    ∃ segment ∈ pool.published, segment.second = (pool.consumers c).readableId ∧
      segment.first ≤ (pool.consumers c).readId
  reading : ∀ c, (pool.consumers c).reading →
    (pool.consumers c).readId < (pool.consumers c).readableId
  past : ∀ entry ∈ pool.accepted, entry.1 < pool.queue.writeId
  custody : ∀ entry ∈ pool.accepted, pool.Returned entry.1 ∨ pool.Waits entry.1
  apart : ∀ p q, p ≠ q → pool.Filling p → pool.Filling q →
    ringBlock (pool.producers p).writeId ≠ ringBlock (pool.producers q).writeId
  settled : ∀ p, pool.Filling p → ∀ entry ∈ pool.accepted,
    ringBlock entry.1 = ringBlock (pool.producers p).writeId →
      ((pool.producers p).writeId ≤ entry.1 ∧ entry.1 < (pool.producers p).curWriteId) ∨
      (entry.1 < (pool.producers p).writeId ∧ pool.Returned entry.1)

namespace Custody

open Pool

variable {T : Type} {pool next : Pool T} {p c : Nat} {obj : T}

/-- A task waits or has been returned exactly if it is visible or held back. -/
theorem returned_or_waits_iff {id : Nat} :
    pool.Returned id ∨ pool.Waits id ↔ pool.Visible id ∨ ∃ p, pool.HeldBack p id := by
  -- Both sides name the same four places.
  constructor
  · intro somewhere
    rcases somewhere with returned | heldBack | inQueue | inside
    · exact .inl (.inl returned)
    · exact .inr heldBack
    · exact .inl (.inr (.inl inQueue))
    · exact .inl (.inr (.inr inside))
  · intro somewhere
    rcases somewhere with (returned | inQueue | inside) | heldBack
    · exact .inl returned
    · exact .inr (.inr (.inl inQueue))
    · exact .inr (.inr (.inr inside))
    · exact .inr (.inl heldBack)

/-- Custody tells where the tasks are. -/
theorem placed (custody : Custody pool) : Placed pool where
  -- Being returned or waiting is what the placement asks of an accepted task.
  aligned := custody.aligned
  issued := custody.issued
  cursor := custody.cursor
  unannounced := custody.unannounced
  published := custody.published
  readable := custody.readable
  taking := custody.taking
  reading := custody.reading
  placed entry accepted := returned_or_waits_iff.mp (custody.custody entry accepted)

/-- Custody is the place of every task, with the hands on separate blocks of the ring. -/
theorem of_placed (placed : Placed pool)
    (past : ∀ entry ∈ pool.accepted, entry.1 < pool.queue.writeId)
    (apart : ∀ p q, p ≠ q → pool.Filling p → pool.Filling q →
      ringBlock (pool.producers p).writeId ≠ ringBlock (pool.producers q).writeId)
    (settled : ∀ p, pool.Filling p → ∀ entry ∈ pool.accepted,
      ringBlock entry.1 = ringBlock (pool.producers p).writeId →
        ((pool.producers p).writeId ≤ entry.1 ∧ entry.1 < (pool.producers p).curWriteId) ∨
        (entry.1 < (pool.producers p).writeId ∧ pool.Returned entry.1)) : Custody pool where
  -- The three conditions are what custody adds to the placement.
  aligned := placed.aligned
  issued := placed.issued
  cursor := placed.cursor
  unannounced := placed.unannounced
  published := placed.published
  readable := placed.readable
  taking := placed.taking
  reading := placed.reading
  past := past
  custody entry accepted := returned_or_waits_iff.mpr (placed.placed entry accepted)
  apart := apart
  settled := settled

/-- A pool in which nothing has happened. -/
theorem start [Inhabited T] : Custody (Pool.new : Pool T) := by
  -- Nothing has been accepted, and nobody fills a segment.
  apply of_placed Placed.start
  · intro entry accepted
    exact absurd accepted List.not_mem_nil
  · intro p q _ filling
    exact absurd rfl filling.1
  · intro p filling
    exact absurd rfl filling.1

/-- The segment of a producer is announced once it is used up. -/
theorem announce (custody : Custody pool) (asks : pool.Asks p) : Custody (pool.announce p) := by
  apply of_placed
  · apply custody.placed.announce
    intro q goesOn some_ same
    -- Two producers never fill one segment, and the caller has filled its own.
    have differs : q ≠ p := by
      rintro rfl
      exact goesOn asks
    have ends : (pool.producers q).writableId = (pool.producers p).writableId :=
      congrArg Segment.second same
    have nonzero : (pool.producers q).writableId ≠ 0 := ends ▸ some_
    have fresh := custody.unannounced q goesOn
    refine custody.apart q p differs ⟨nonzero, fresh⟩ ⟨some_, same ▸ fresh⟩ ?_
    exact congrArg (fun segment => ringBlock segment.first) same
  · intro entry accepted
    exact (custody.past entry accepted).trans_eq announce_writeId.symm
  · intro q r differs filling fillingOther
    exact custody.apart q r differs (filling_announce.mp filling).1
      (filling_announce.mp fillingOther).1
  · intro q filling
    exact custody.settled q (filling_announce.mp filling).1

/-- Once the hands are off a block, every earlier task on it has been read. -/
theorem returned_of_clear (custody : Custody pool) (vacant : ¬ pool.Filling p)
    (room : pool.queue.hasRoom) (clear : pool.HandsClear p) {entry : Nat × T}
    (accepted : entry ∈ pool.accepted)
    (same : ringBlock entry.1 = ringBlock pool.queue.writeId) : pool.Returned entry.1 := by
  rcases custody.custody entry accepted with returned | waits
  · exact returned
  exfalso
  rcases waits with ⟨q, filling, low, high⟩ | ⟨segment, readable, low, high⟩ | ⟨c, low, high⟩
  · have differs : q ≠ p := by
      rintro rfl
      exact vacant filling
    have inside := high.trans_le (custody.cursor q).2.1
    exact clear.1 q differs filling
      (((custody.issued q filling.1).ringBlock_eq low inside).symm.trans same)
  · -- A segment is readable, so the guard has found the ring still in its first lap.
    rcases (hasRoom_iff custody.aligned).mp room with empty | lap
    · rw [empty] at readable
      exact absurd readable (Finset.notMem_empty _)
    · exact ringBlock_ne_of_lap custody.aligned lap.le (custody.past entry accepted) same
  · obtain ⟨segment, announced, ends, starts⟩ := custody.taking c (low.trans_lt high)
    have issued := custody.published segment announced
    -- The id and the consumer's position lie in one segment, and so on one block.
    have block := issued.ringBlock_eq (starts.trans low) (ends ▸ high)
    have position := issued.ringBlock_eq starts (ends ▸ low.trans_lt high)
    exact clear.2 c (low.trans_lt high) (position.trans (block.symm.trans same))

/-- A producer that receives the next segment has it to itself. -/
theorem grant (custody : Custody pool) (vacant : ¬ pool.Filling p)
    (room : pool.queue.hasRoom) (clear : pool.HandsClear p) (obj : T) :
    Custody (pool.grant p obj) := by
  apply of_placed (custody.placed.grant vacant obj)
  · intro entry accepted
    exact (custody.past entry accepted).trans_le (Nat.le_add_right _ _)
  · intro q r differs filling fillingOther
    by_cases caller : q = p
    · subst caller
      -- The new segment is on a block that no other producer works on.
      have other := differs.symm
      rw [grant_own, grant_other other]
      exact (clear.1 r other ((filling_grant_other other).mp fillingOther)).symm
    · by_cases callerOther : r = p
      · subst callerOther
        rw [grant_own, grant_other differs]
        exact clear.1 q differs ((filling_grant_other differs).mp filling)
      · rw [grant_other caller, grant_other callerOther]
        exact custody.apart q r differs ((filling_grant_other caller).mp filling)
          ((filling_grant_other callerOther).mp fillingOther)
  · intro q filling entry accepted same
    by_cases caller : q = p
    · subst caller
      rw [grant_own] at same ⊢
      exact .inr ⟨custody.past entry accepted,
        returned_of_clear custody vacant room clear accepted same⟩
    · rw [grant_other caller] at same ⊢
      exact custody.settled q ((filling_grant_other caller).mp filling) entry accepted same

/-- A producer that moves on within its segment keeps everything it is responsible for. -/
theorem advance (custody : Custody pool) (working : ¬ pool.Asks p) {cur : Nat} {writing : Option T}
    (forward : (pool.producers p).curWriteId ≤ cur) (within : cur ≤ (pool.producers p).writableId)
    (room : writing ≠ none → cur < (pool.producers p).writableId) :
    Custody (pool.advance p cur writing) := by
  apply of_placed (custody.placed.advance working forward within room) custody.past
  · intro q r differs filling fillingOther
    rw [advance_writeId, advance_writeId]
    exact custody.apart q r differs (filling_advance.mp filling) (filling_advance.mp fillingOther)
  · intro q filling entry accepted same
    rw [advance_writeId] at same ⊢
    -- The tasks before the old cursor are before the new one.
    refine (custody.settled q (filling_advance.mp filling) entry accepted same).imp ?_ id
    intro ⟨low, high⟩
    exact ⟨low, high.trans_le (curWriteId_le_advance forward)⟩

/-- A task is accepted under an id that its producer has just passed. -/
theorem accept (custody : Custody pool) {id : Nat} (heldBack : pool.HeldBack p id) (obj : T)
    (slots : Nat → T) :
    Custody { pool with
      queue := { pool.queue with circleArray := slots }
      accepted := pool.accepted ++ [(id, obj)] } := by
  obtain ⟨filling, low, high⟩ := heldBack
  have within := high.trans_le (custody.cursor p).2.1
  apply of_placed (custody.placed.accept ⟨filling, low, high⟩ obj slots)
  · intro entry accepted
    rcases List.mem_append.mp accepted with before | now
    · exact custody.past entry before
    · rw [List.mem_singleton] at now
      subst now
      exact within.trans_le (custody.issued p filling.1).past
  · exact custody.apart
  · intro q fillingOther entry accepted same
    rcases List.mem_append.mp accepted with before | now
    · exact custody.settled q fillingOther entry before same
    · rw [List.mem_singleton] at now
      subst now
      by_cases caller : q = p
      · subst caller
        exact .inl ⟨low, high⟩
      · -- The block of the new id is the writer's own, and nobody else works on it.
        have block := (custody.issued p filling.1).ringBlock_eq low within
        exact absurd (same.symm.trans block) (custody.apart q p caller fillingOther filling)

/-- Consumers leave the producers' segments alone, and returned tasks stay returned. -/
theorem consume (custody : Custody pool) {readable : Finset Segment}
    {consumers : Nat → Consumer} {returned : List (Nat × T)} {taken : List Segment}
    (placed : Placed { pool with
      queue := { pool.queue with readableQueue := readable }
      consumers := consumers
      returned := returned
      taken := taken })
    (more : ∀ entry ∈ pool.returned, entry ∈ returned) :
    Custody { pool with
      queue := { pool.queue with readableQueue := readable }
      consumers := consumers
      returned := returned
      taken := taken } := by
  -- Returned tasks stay returned, so a settled block stays settled.
  apply of_placed placed custody.past custody.apart
  intro q filling entry accepted same
  refine (custody.settled q filling entry accepted same).imp id ?_
  intro ⟨below, obj, before⟩
  exact ⟨below, obj, more _ before⟩

/-- Every atomic step that meets the condition hands each task on to exactly who is next. -/
theorem step {label : PoolStep T} (custody : Custody pool) (clear : pool.GrantsClear label)
    (stepped : (poolMachine T).step pool label = some next) : Custody next := by
  -- One case for each atomic step, with what it can do.
  cases label with
  | callWrite p obj =>
    obtain ⟨-, goesOn | asks | asks⟩ := callWrite_cases stepped
    · obtain ⟨working, rfl⟩ := goesOn
      obtain ⟨-, high, -⟩ := custody.cursor p
      exact custody.advance working (Nat.le_refl _) high fun _ => Nat.lt_of_not_le working
    · obtain ⟨asks, room, rfl⟩ := asks
      -- Announcing takes segments out of hands only.
      have announced := custody.announce asks
      refine announced.grant not_filling_announce room ⟨?_, ?_⟩ obj
      · intro q other filling
        rw [announce_writeId]
        exact (clear asks room).1 q other (filling_announce.mp filling).1
      · intro c unread
        rw [announce_writeId]
        exact (clear asks room).2 c unread
    · obtain ⟨asks, rfl⟩ := asks
      exact custody.announce asks
  | writeSlot p =>
    obtain ⟨obj, writing, rfl⟩ := Option.map_eq_some_iff.mp stepped
    have some_ : (pool.producers p).writing ≠ none := by simp [writing]
    have filling := custody.placed.filling_of_writing some_
    obtain ⟨low, -, busy⟩ := custody.cursor p
    have below := Nat.lt_of_not_le (busy some_)
    -- The cursor moves on first, and the id it has passed is then accepted.
    have moved := custody.advance (busy some_) (Nat.le_succ _) below
      fun (none_ : (none : Option T) ≠ none) => absurd rfl none_
    refine moved.accept ⟨filling_advance.mpr filling, ?_, ?_⟩ obj _
    · rwa [advance_writeId]
    · rw [advance_own]
      exact Nat.lt_succ_self _
  | callRead c =>
    rcases callRead_cases stepped with ⟨usedUp, segment, first, rfl⟩ | ⟨unread, rfl⟩
    · exact custody.consume (custody.placed.take usedUp (firstReadable_mem first))
        fun _ before => before
    · exact custody.consume (custody.placed.goOnReading unread) fun _ before => before
  | readSlot c =>
    obtain ⟨called, rfl⟩ := Pool.readSlot_eq_some.mp stepped
    exact custody.consume (custody.placed.readSlot called _)
      fun _ before => List.mem_append_left _ before

/-- The cursor of a producer with a task in hand is not on the slot of an unread task. -/
theorem returned_of_writing (custody : Custody pool)
    (writing : (pool.producers p).writing ≠ none) {entry : Nat × T}
    (accepted : entry ∈ pool.accepted) (differs : entry.1 ≠ (pool.producers p).curWriteId)
    (same : entry.1 % size = (pool.producers p).curWriteId % size) :
    entry.1 < (pool.producers p).writeId ∧ pool.Returned entry.1 := by
  have filling := custody.placed.filling_of_writing writing
  have issued := custody.issued p filling.1
  obtain ⟨low, -, busy⟩ := custody.cursor p
  have below : (pool.producers p).curWriteId < (pool.producers p).writableId :=
    Nat.lt_of_not_le (busy writing)
  -- Ids on one slot of the ring are on one block of it.
  have block := (ringBlock_eq_of_mod_eq same).trans (issued.ringBlock_eq low below)
  rcases custody.settled p filling entry accepted block with ⟨lowEntry, highEntry⟩ | before
  · -- Within one segment, every id has a slot of its own.
    have width : (pool.producers p).writableId = (pool.producers p).writeId + trySize :=
      issued.width
    have insideEntry : entry.1 < (pool.producers p).writeId + trySize := by omega
    have inside : (pool.producers p).curWriteId < (pool.producers p).writeId + trySize := by omega
    have equal : entry.1 = (pool.producers p).curWriteId :=
      Blocks.eq_of_mod_eq (by decide : 0 < size / trySize) lowEntry insideEntry low inside same
    exact absurd equal differs
  · exact before

/-- The cursor of a producer with a task in hand is at an id that has no task. -/
theorem fresh_of_writing (custody : Custody pool)
    (writing : (pool.producers p).writing ≠ none) {entry : Nat × T}
    (accepted : entry ∈ pool.accepted) : entry.1 ≠ (pool.producers p).curWriteId := by
  intro same
  have filling := custody.placed.filling_of_writing writing
  obtain ⟨low, -, busy⟩ := custody.cursor p
  have below : (pool.producers p).curWriteId < (pool.producers p).writableId :=
    Nat.lt_of_not_le (busy writing)
  have block := (custody.issued p filling.1).ringBlock_eq low below
  -- The tasks on this block come before the cursor, or before the segment.
  have settled := custody.settled p filling entry accepted (same ▸ block)
  omega

end Custody

/-- In a run that ends within the first lap, each grant finds its block of the ring free. -/
theorem grantsClear_of_lap {T : Type} [Inhabited T] {labels : List (PoolStep T)} {pool : Pool T}
    (ran : (poolMachine T).run Pool.new labels = some pool) (lap : pool.queue.writeId ≤ size) :
    (poolMachine T).Meets Pool.GrantsClear Pool.new labels := by
  -- No step takes ids back, so every step of the run is within the lap.
  have back : ∀ (pool : Pool T) label next, next.queue.writeId ≤ size →
      (poolMachine T).step pool label = some next → pool.queue.writeId ≤ size :=
    fun _ _ _ within stepped => (Pool.writeId_le_of_step stepped).trans within
  refine Machine.meets_of_ends back (fun before label next custody within stepped => ?_)
    (Custody.start : Custody (Pool.new : Pool T)) ran lap
  have clear := custody.placed.grantsClear_of_lap within stepped
  exact ⟨clear, custody.step clear stepped⟩

end EnhancedProxy
