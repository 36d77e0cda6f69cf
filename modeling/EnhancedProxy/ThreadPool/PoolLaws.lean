import EnhancedProxy.Library.Blocks
import EnhancedProxy.ThreadPool.CircleQueue

/-! What the calls on the ring queue can do, and what each part of them leaves alone. -/

namespace EnhancedProxy

namespace CircleQueue

variable {T : Type} {queue : CircleQueue T}

/-- Nothing is first exactly when nothing is readable. -/
theorem firstReadable_eq_none : queue.firstReadable = none ↔ queue.readableQueue = ∅ := by
  -- A nonempty set has a first element.
  unfold firstReadable
  split
  · rename_i readable
    simp [readable.ne_empty]
  · rename_i unreadable
    simpa using Finset.not_nonempty_iff_eq_empty.mp unreadable

/-- The first readable segment is a readable segment. -/
theorem firstReadable_mem {segment : Segment} (first : queue.firstReadable = some segment) :
    segment ∈ queue.readableQueue := by
  -- The first segment is the least of a queue that is not empty.
  unfold firstReadable at first
  split at first
  · cases first
    exact Finset.min'_mem _ _
  · cases first

/-- The first readable segment starts before the others. -/
theorem firstReadable_le {segment other : Segment} (first : queue.firstReadable = some segment)
    (readable : other ∈ queue.readableQueue) : segment.first ≤ other.first := by
  unfold firstReadable at first
  split at first
  · cases first
    have least := Finset.min'_le _ other readable
    -- Pairs are ordered by their first components first.
    rcases Prod.Lex.le_iff.mp (show Segment.toPair _ ≤ Segment.toPair other from least) with
      before | same
    · exact Nat.le_of_lt before
    · exact Nat.le_of_eq same.1
  · cases first

/-- Past the first lap, a segment is handed out only while nothing is readable.
The third test of the guard masks an even number with a single bit. -/
theorem hasRoom_iff (aligned : trySize ∣ queue.writeId) :
    queue.hasRoom ↔ queue.readableQueue = ∅ ∨ queue.writeId + trySize < size := by
  rw [← firstReadable_eq_none]
  -- The first readable segment decides the other two tests.
  cases first : queue.firstReadable with
  | none => simp [hasRoom, first]
  | some start =>
    have masked : (queue.writeId + trySize) &&& (if size - 1 < start.first then 1 else 0) = 0 := by
      split
      · obtain ⟨k, even⟩ := aligned
        rw [Nat.and_one_is_mod]
        simp only [trySize] at even ⊢
        omega
      · exact Nat.and_zero _
    simp [hasRoom, first, masked]

/-- Announcing a segment moves nothing else. -/
@[simp] theorem publish_writeId (start stop : Nat) :
    (queue.publish start stop).writeId = queue.writeId := by
  -- The segment is added to the readable ones, or nothing is done.
  unfold publish
  split <;> rfl

/-- Announcing a segment leaves the slots alone. -/
@[simp] theorem publish_circleArray (start stop : Nat) :
    (queue.publish start stop).circleArray = queue.circleArray := by
  -- The segment is added to the readable ones, or nothing is done.
  unfold publish
  split <;> rfl

/-- Only the announced segment becomes readable. -/
theorem mem_publish {start stop : Nat} {segment : Segment} :
    segment ∈ (queue.publish start stop).readableQueue ↔
      (stop ≠ 0 ∧ segment = ⟨start, stop⟩) ∨ segment ∈ queue.readableQueue := by
  -- A segment that ends at 0 was never handed out, and is not announced.
  unfold publish
  split
  · simp [*]
  · simp [*]

/-- The block of the ring that an id falls on. -/
def ringBlock (id : Nat) : Nat := Blocks.slot trySize (size / trySize) id

/-- A segment that was handed out has the usual width, and ids below those still to come. -/
structure Issued (queue : CircleQueue T) (segment : Segment) : Prop where
  width : segment.second = segment.first + trySize
  aligned : trySize ∣ segment.first
  past : segment.second ≤ queue.writeId

/-- An id of a segment falls on the block of its start. -/
theorem Issued.ringBlock_eq {segment : Segment} (issued : queue.Issued segment) {id : Nat}
    (low : segment.first ≤ id) (high : id < segment.second) :
    ringBlock id = ringBlock segment.first :=
  Blocks.slot_of_mem (by decide) issued.aligned low (issued.width ▸ high)

/-- Segments that share an id are the same segment. -/
theorem Issued.eq_of_mem {segment other : Segment} (issued : queue.Issued segment)
    (issuedOther : queue.Issued other) {id : Nat} (low : segment.first ≤ id)
    (high : id < segment.second) (lowOther : other.first ≤ id) (highOther : id < other.second) :
    segment = other := by
  obtain ⟨width, ⟨k, start⟩, _⟩ := issued
  obtain ⟨widthOther, ⟨l, startOther⟩, _⟩ := issuedOther
  cases segment
  cases other
  simp only [trySize] at *
  -- The id determines the multiple of the width below it.
  have same : k = l := by omega
  subst same
  simp_all

/-- Segments that end at one id are the same segment. -/
theorem Issued.eq_of_second {segment other : Segment} (issued : queue.Issued segment)
    (issuedOther : queue.Issued other) (same : segment.second = other.second) :
    segment = other := by
  -- All segments have one width, so their ends determine their starts.
  have width := issued.width
  have widthOther := issuedOther.width
  cases segment
  cases other
  simp_all

end CircleQueue

open CircleQueue

namespace Pool

variable {T : Type}

/-- A producer has a segment that it has not announced as readable. -/
def Filling (pool : Pool T) (p : Nat) : Prop :=
  (pool.producers p).writableId ≠ 0 ∧ (pool.producers p).segment ∉ pool.published

/-- The task of an id has been returned. -/
def Returned (pool : Pool T) (id : Nat) : Prop := ∃ obj, (id, obj) ∈ pool.returned

/-- The task of an id is with a producer, readable, or with a consumer. -/
def Waits (pool : Pool T) (id : Nat) : Prop :=
  (∃ p, pool.Filling p ∧ (pool.producers p).writeId ≤ id ∧ id < (pool.producers p).curWriteId) ∨
  (∃ segment ∈ pool.queue.readableQueue, segment.first ≤ id ∧ id < segment.second) ∨
  (∃ c, (pool.consumers c).readId ≤ id ∧ id < (pool.consumers c).readableId)

/-- The part of a call to `write` that announces the used-up segment. -/
def announce (pool : Pool T) (p : Nat) : Pool T :=
  let producer := pool.producers p
  { pool with
    queue := pool.queue.publish producer.writeId producer.writableId
    published :=
      if producer.writableId ≠ 0 then producer.segment :: pool.published else pool.published }

/-- The part of a call to `write` that receives the next segment. -/
def grant (pool : Pool T) (p : Nat) (obj : T) : Pool T :=
  { pool with
    queue := { pool.queue with writeId := pool.queue.writeId + trySize }
    producers := Function.update pool.producers p
      { writeId := pool.queue.writeId, curWriteId := pool.queue.writeId,
        writableId := pool.queue.writeId + trySize, writing := some obj } }

/-- A call to `write` asks for space when the producer's segment is used up. -/
def Asks (pool : Pool T) (p : Nat) : Prop :=
  (pool.producers p).writableId ≤ (pool.producers p).curWriteId

instance (pool : Pool T) (p : Nat) : Decidable (pool.Asks p) :=
  inferInstanceAs (Decidable (_ ≤ _))

/-- What a call to `write` can do: go on in its segment, receive the next one, or be refused. -/
theorem callWrite_cases {pool next : Pool T} {p : Nat} {obj : T}
    (called : pool.callWrite p obj = some next) :
    (pool.producers p).writing = none ∧
      ((¬ pool.Asks p ∧
          next = { pool with
            producers := Function.update pool.producers p
              { pool.producers p with writing := some obj } }) ∨
        (pool.Asks p ∧ (pool.announce p).queue.hasRoom ∧ next = (pool.announce p).grant p obj) ∨
        (pool.Asks p ∧ next = pool.announce p)) := by
  simp only [callWrite] at called
  split at called
  · cases called
  · rename_i idle
    refine ⟨by simpa using idle, ?_⟩
    split at called
    · rename_i asks
      right
      -- Both results start from the queue with the segment announced.
      simp only [tryWriteSpace] at called
      by_cases room : (pool.announce p).queue.hasRoom
      · left
        have room' : (pool.queue.publish (pool.producers p).writeId
          (pool.producers p).writableId).hasRoom = true := room
        simp only [room', if_true, Option.some.injEq] at called
        exact ⟨asks, room, called.symm⟩
      · right
        have full : (pool.queue.publish (pool.producers p).writeId
          (pool.producers p).writableId).hasRoom = false := Bool.eq_false_iff.mpr room
        simp only [full, Bool.false_eq_true, if_false, Option.some.injEq] at called
        exact ⟨asks, called.symm⟩
    · rename_i goesOn
      exact .inl ⟨goesOn, (Option.some.inj called).symm⟩

/-- A call that asks for space while the guard is shut announces its segment and is refused. -/
theorem callWrite_refused {pool : Pool T} {p : Nat} (idle : (pool.producers p).writing = none)
    (asks : pool.Asks p) (full : ¬ (pool.announce p).queue.hasRoom) (obj : T) :
    pool.callWrite p obj = some (pool.announce p) := by
  -- The guard is read after the announcement.
  have shut : (pool.queue.publish (pool.producers p).writeId
    (pool.producers p).writableId).hasRoom = false := Bool.eq_false_iff.mpr full
  have usedUp : (pool.producers p).curWriteId ≥ (pool.producers p).writableId := asks
  simp only [callWrite, idle, Option.isSome_none, Bool.false_eq_true, if_false, if_pos usedUp,
    tryWriteSpace, shut]
  rfl

/-- A call that asks for space while the guard is open announces its segment and is granted the
next. -/
theorem callWrite_granted {pool : Pool T} {p : Nat} (idle : (pool.producers p).writing = none)
    (asks : pool.Asks p) (room : (pool.announce p).queue.hasRoom) (obj : T) :
    pool.callWrite p obj = some ((pool.announce p).grant p obj) := by
  -- The producer has used its segment up, announces it and finds room.
  have open_ : (pool.queue.publish (pool.producers p).writeId
    (pool.producers p).writableId).hasRoom = true := room
  have usedUp : (pool.producers p).curWriteId ≥ (pool.producers p).writableId := asks
  simp only [callWrite, idle, Option.isSome_none, Bool.false_eq_true, if_false, if_pos usedUp,
    tryWriteSpace, open_, if_true]
  rfl

/-- A consumer has taken a segment. -/
def take (pool : Pool T) (c : Nat) (segment : Segment) : Pool T :=
  { pool with
    queue := { pool.queue with readableQueue := pool.queue.readableQueue.erase segment }
    consumers := Function.update pool.consumers c
      { readId := segment.first, readableId := segment.second, reading := true }
    taken := segment :: pool.taken }

/-- What a call to `read` can do: take the first readable segment, or go on in its own. -/
theorem callRead_cases {pool next : Pool T} {c : Nat} (called : pool.callRead c = some next) :
    ((pool.consumers c).readableId ≤ (pool.consumers c).readId ∧
      ∃ space, pool.queue.firstReadable = some space ∧
        next = { pool with
          queue := { pool.queue with readableQueue := pool.queue.readableQueue.erase space }
          consumers := Function.update pool.consumers c
            { readId := space.first, readableId := space.second, reading := true }
          taken := space :: pool.taken }) ∨
    ((pool.consumers c).readId < (pool.consumers c).readableId ∧
      next = { pool with
        consumers := Function.update pool.consumers c
          { pool.consumers c with reading := true } }) := by
  simp only [callRead] at called
  split at called
  · cases called
  · split at called
    · -- The caller waits until something is readable, and takes the first of it.
      rename_i usedUp
      obtain ⟨⟨queue, space⟩, took, rfl⟩ := Option.map_eq_some_iff.mp called
      obtain ⟨segment, first, pair⟩ := Option.map_eq_some_iff.mp took
      cases pair
      exact .inl ⟨usedUp, space, first, rfl⟩
    · -- The caller has ids left in its segment.
      rename_i goesOn
      exact .inr ⟨Nat.lt_of_not_le goesOn, (Option.some.inj called).symm⟩

/-- A consumer reads its slot only within a call. -/
theorem readSlot_eq_some {pool next : Pool T} {c : Nat} :
    pool.readSlot c = some next ↔ (pool.consumers c).reading ∧
      { pool with
        consumers := Function.update pool.consumers c
          { pool.consumers c with
            readId := (pool.consumers c).readId + 1
            reading := false }
        returned := pool.returned ++
          [((pool.consumers c).readId, pool.queue.read (pool.consumers c).readId)] } = next := by
  -- The step asks for a read under way and for nothing else.
  rw [readSlot, Option.ite_none_right_eq_some, Option.some.injEq]

end Pool

namespace CircleQueue

/-- A segment that was handed out stays so while the ids advance. -/
theorem Issued.mono {T : Type} {queue later : CircleQueue T} {segment : Segment}
    (issued : queue.Issued segment) (advances : queue.writeId ≤ later.writeId) :
    later.Issued segment :=
  ⟨issued.width, issued.aligned, issued.past.trans advances⟩

end CircleQueue

namespace Pool

variable {T : Type} {pool : Pool T} {p : Nat}

/-- Only the segment of the caller is announced. -/
theorem mem_published_announce {segment : Segment} :
    segment ∈ (pool.announce p).published ↔
      ((pool.producers p).writableId ≠ 0 ∧ segment = (pool.producers p).segment) ∨
        segment ∈ pool.published := by
  -- A producer that was never granted anything announces nothing.
  simp only [announce]
  split
  · simp [*]
  · simp [*]

/-- Only the segment of the caller becomes readable. -/
theorem mem_readable_announce {segment : Segment} :
    segment ∈ (pool.announce p).queue.readableQueue ↔
      ((pool.producers p).writableId ≠ 0 ∧ segment = (pool.producers p).segment) ∨
        segment ∈ pool.queue.readableQueue :=
  mem_publish

/-- Announcing a segment hands none out. -/
@[simp] theorem announce_writeId : (pool.announce p).queue.writeId = pool.queue.writeId :=
  publish_writeId _ _

/-- Announcing a segment leaves the slots alone. -/
@[simp] theorem announce_circleArray :
    (pool.announce p).queue.circleArray = pool.queue.circleArray :=
  publish_circleArray _ _

/-- Announcing a segment moves no cursor. -/
@[simp] theorem announce_producers : (pool.announce p).producers = pool.producers := rfl

/-- Announcing a segment takes it out of its producer's hands, and puts none into any. -/
theorem filling_announce {q : Nat} :
    (pool.announce p).Filling q ↔ pool.Filling q ∧
      ((pool.producers p).writableId = 0 ∨
        (pool.producers q).segment ≠ (pool.producers p).segment) := by
  -- The only segment added to the announced ones is the caller's.
  simp only [Filling, mem_published_announce]
  show (pool.producers q).writableId ≠ 0 ∧ _ ↔ _
  tauto

/-- A producer that has announced its segment has none in hand. -/
theorem not_filling_announce : ¬ (pool.announce p).Filling p := by
  -- Its own segment is the one that was announced.
  rw [filling_announce]
  rintro ⟨⟨some_, -⟩, none_ | differs⟩
  · exact some_ none_
  · exact differs rfl

variable {q : Nat} {obj : T}

/-- The caller's cursors stand at the start of the segment it receives. -/
theorem grant_own : (pool.grant p obj).producers p =
    { writeId := pool.queue.writeId, curWriteId := pool.queue.writeId,
      writableId := pool.queue.writeId + trySize, writing := some obj } :=
  Function.update_self _ _ _

/-- Another producer does not see a segment being handed out. -/
theorem grant_other (other : q ≠ p) : (pool.grant p obj).producers q = pool.producers q :=
  Function.update_of_ne other _ _

/-- Another producer fills what it filled before. -/
theorem filling_grant_other (other : q ≠ p) :
    (pool.grant p obj).Filling q ↔ pool.Filling q := by
  -- Its cursors are the ones before, and nothing is announced.
  rw [Filling, grant_other other]
  exact Iff.rfl

/-- Move a producer on within its segment. -/
def advance (pool : Pool T) (p cur : Nat) (writing : Option T) : Pool T :=
  { pool with
    producers := Function.update pool.producers p
      { pool.producers p with curWriteId := cur, writing := writing } }

variable {cur : Nat} {writing : Option T}

/-- The producer that moves on has its new cursor. -/
theorem advance_own : (pool.advance p cur writing).producers p =
    { pool.producers p with curWriteId := cur, writing := writing } :=
  Function.update_self _ _ _

/-- The other producers stay where they are. -/
theorem advance_other (other : q ≠ p) :
    (pool.advance p cur writing).producers q = pool.producers q :=
  Function.update_of_ne other _ _

/-- Every producer keeps its segment. -/
theorem advance_segment :
    ((pool.advance p cur writing).producers q).segment = (pool.producers q).segment := by
  -- Moving on changes neither end of the segment.
  by_cases caller : q = p
  · subst caller
    rw [advance_own]
    rfl
  · rw [advance_other caller]

/-- Every producer keeps the start of its segment. -/
theorem advance_writeId :
    ((pool.advance p cur writing).producers q).writeId = (pool.producers q).writeId :=
  congrArg Segment.first advance_segment

/-- Every producer keeps the end of its segment. -/
theorem advance_writableId :
    ((pool.advance p cur writing).producers q).writableId = (pool.producers q).writableId :=
  congrArg Segment.second advance_segment

/-- Every producer fills what it filled before. -/
theorem filling_advance : (pool.advance p cur writing).Filling q ↔ pool.Filling q := by
  -- The segments are the ones before, and nothing is announced.
  rw [Filling, advance_segment, advance_writableId]
  exact Iff.rfl

/-- No producer moves back. -/
theorem curWriteId_le_advance (forward : (pool.producers p).curWriteId ≤ cur) :
    (pool.producers q).curWriteId ≤ ((pool.advance p cur writing).producers q).curWriteId := by
  -- Only the caller moves, and it moves forward.
  by_cases caller : q = p
  · subst caller
    rw [advance_own]
    exact forward
  · rw [advance_other caller]

/-- A consumer that starts on its next id stays where it is, as the others do. -/
theorem calling_ids (pool : Pool T) (c d : Nat) :
    (Function.update pool.consumers c { pool.consumers c with reading := true } d).readId =
        (pool.consumers d).readId ∧
      (Function.update pool.consumers c { pool.consumers c with reading := true } d).readableId =
        (pool.consumers d).readableId := by
  -- Only the flag of the caller changes.
  by_cases caller : d = c
  · subst caller
    simp
  · simp [Function.update_of_ne caller]

/-- No step takes ids back. -/
theorem writeId_le_of_step {next : Pool T} {label : PoolStep T}
    (stepped : (poolMachine T).step pool label = some next) :
    pool.queue.writeId ≤ next.queue.writeId := by
  -- Only a grant changes the next id.
  cases label with
  | callWrite p obj =>
    obtain ⟨-, ⟨-, rfl⟩ | ⟨-, -, rfl⟩ | ⟨-, rfl⟩⟩ := callWrite_cases stepped
    · exact Nat.le_refl _
    · show pool.queue.writeId ≤ (pool.announce p).queue.writeId + trySize
      rw [announce_writeId]
      exact Nat.le_add_right _ _
    · exact Nat.le_of_eq announce_writeId.symm
  | writeSlot p =>
    obtain ⟨obj, -, rfl⟩ := Option.map_eq_some_iff.mp stepped
    exact Nat.le_refl _
  | callRead c =>
    rcases callRead_cases stepped with ⟨-, space, -, rfl⟩ | ⟨-, rfl⟩
    · exact Nat.le_refl _
    · exact Nat.le_refl _
  | readSlot c =>
    obtain ⟨-, rfl⟩ := readSlot_eq_some.mp stepped
    exact Nat.le_refl _

/-- A call to `write` accepts and returns nothing yet. -/
theorem callWrite_history {next : Pool T} (called : pool.callWrite p obj = some next) :
    next.accepted = pool.accepted ∧ next.returned = pool.returned := by
  -- On none of its three branches is a slot written or read.
  obtain ⟨-, ⟨-, rfl⟩ | ⟨-, -, rfl⟩ | ⟨-, rfl⟩⟩ := callWrite_cases called
  · exact ⟨rfl, rfl⟩
  · exact ⟨rfl, rfl⟩
  · exact ⟨rfl, rfl⟩

/-- After a call to `write`, a producer has the task of the call, or what it had before. -/
theorem callWrite_writing {next : Pool T} (called : pool.callWrite p obj = some next) (q : Nat) :
    (next.producers q).writing = (pool.producers q).writing ∨
      q = p ∧ (next.producers q).writing = some obj := by
  -- Granted or not, the task can only be in the caller's hands.
  obtain ⟨-, ⟨-, rfl⟩ | ⟨-, -, rfl⟩ | ⟨-, rfl⟩⟩ := callWrite_cases called
  · by_cases caller : q = p
    · subst caller
      exact .inr ⟨rfl, by simp⟩
    · exact .inl (by simp [caller])
  · by_cases caller : q = p
    · subst caller
      exact .inr ⟨rfl, by rw [grant_own]⟩
    · exact .inl (by rw [grant_other caller, announce_producers])
  · exact .inl rfl

end Pool

end EnhancedProxy
