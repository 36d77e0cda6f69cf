import EnhancedProxy.ThreadPool.Custody

/-! When no producer overwrites a task that a consumer has still to read. -/

namespace EnhancedProxy

open CircleQueue

/-- Two segments share a slot of the ring. -/
def Overlaps (segment other : Segment) : Prop :=
  ∃ i j, segment.first ≤ i ∧ i < segment.second ∧ other.first ≤ j ∧ j < other.second ∧
    i % size = j % size

/-- The ids that a consumer has taken and has still to read. -/
def Consumer.rest (consumer : Consumer) : Segment := ⟨consumer.readId, consumer.readableId⟩

/-- The step endangers no unread task: a granted segment overlaps no segment that is being filled,
waits to be read, or is being read, and a slot is written only after its earlier tasks were read. -/
def Pool.KeepsUnread {T : Type} (pool : Pool T) : PoolStep T → Prop
  | .callWrite p _ =>
    pool.Asks p → ∀ queue granted,
      pool.queue.tryWriteSpace (pool.producers p).writeId (pool.producers p).writableId =
        (queue, some granted) →
      (∀ q, q ≠ p → pool.Filling q → ¬ Overlaps granted (pool.producers q).segment) ∧
      (∀ segment ∈ queue.readableQueue, ¬ Overlaps granted segment) ∧
      ∀ c, ¬ Overlaps granted (pool.consumers c).rest
  | .writeSlot p =>
    (pool.producers p).writing ≠ none →
      ∀ entry ∈ pool.accepted, entry.1 ≠ (pool.producers p).curWriteId →
        entry.1 % size = (pool.producers p).curWriteId % size → pool.Returned entry.1
  | _ => True

/-- A segment that overlaps an aligned one has an id on the block of that one's start. -/
theorem ringBlock_of_overlaps {start block : Nat} {other : Segment} (aligned : trySize ∣ start)
    (blocks : ∀ id, other.first ≤ id → id < other.second → ringBlock id = block)
    (overlaps : Overlaps ⟨start, start + trySize⟩ other) : block = ringBlock start := by
  -- The shared slot lies on one block of the ring.
  obtain ⟨i, j, low, high, lowOther, highOther, same⟩ := overlaps
  calc block = ringBlock j := (blocks j lowOther highOther).symm
    _ = ringBlock i := (ringBlock_eq_of_mod_eq same).symm
    _ = ringBlock start := ringBlock_of_mem aligned low high

/-- In a pool in good custody, a step that meets the condition endangers no unread task. -/
theorem Custody.keepsUnread {T : Type} {pool : Pool T} {label : PoolStep T}
    (custody : Custody pool)
    (clear : pool.GrantsClear label) : pool.KeepsUnread label := by
  cases label with
  | callWrite p obj =>
    intro asks queue granted answer
    have announced := custody.announce asks
    -- An answer with a segment means that the guard let the call pass.
    have room : (pool.announce p).queue.hasRoom := by
      by_contra full
      rw [Bool.not_eq_true] at full
      have refused : (pool.queue.publish (pool.producers p).writeId
        (pool.producers p).writableId).hasRoom = false := full
      simp [tryWriteSpace, refused] at answer
    have room' : (pool.queue.publish (pool.producers p).writeId
      (pool.producers p).writableId).hasRoom = true := room
    simp only [tryWriteSpace, room', if_true, Prod.mk.injEq, Option.some.injEq] at answer
    obtain ⟨rfl, rfl⟩ := answer
    -- The answer comes from the state in which the condition was met.
    obtain ⟨producers, consumers⟩ := clear asks room
    refine ⟨fun q other filling overlaps => ?_, fun segment readable overlaps => ?_,
      fun c overlaps => ?_⟩
    · have block := ringBlock_of_overlaps custody.aligned
        (fun j low high => (custody.issued q filling.1).ringBlock_eq low high)
        (by simpa [nextSegment] using overlaps)
      exact producers q other filling block
    · -- While anything is readable, the guard grants within the first lap only.
      rcases (hasRoom_iff announced.aligned).mp room with empty | lap
      · exact absurd (empty ▸ readable) (Finset.notMem_empty _)
      · have issued := announced.published segment (announced.readable segment readable)
        obtain ⟨i, j, low, high, -, inside, same⟩ := overlaps
        have block := ringBlock_of_mem announced.aligned low high
        exact ringBlock_ne_of_lap announced.aligned lap.le (inside.trans_le issued.past)
          ((ringBlock_eq_of_mod_eq same).symm.trans block)
    · -- A consumer that shares a slot has unread ids.
      have unread : (pool.consumers c).readId < (pool.consumers c).readableId := by
        obtain ⟨i, j, -, -, low, high, -⟩ := overlaps
        exact Nat.lt_of_le_of_lt low high
      obtain ⟨segment, taken, ends, starts⟩ := custody.taking c unread
      have issued := custody.published segment taken
      have position := issued.ringBlock_eq starts (ends ▸ unread)
      have block := ringBlock_of_overlaps custody.aligned
        (fun j low high => issued.ringBlock_eq (starts.trans low) (ends ▸ high))
        (by simpa [nextSegment] using overlaps)
      exact consumers c unread (position.trans block)
  | writeSlot p =>
    intro writing entry accepted differs same
    -- Every earlier task on the slot has been returned.
    exact (custody.returned_of_writing writing accepted differs same).2
  | callRead c => trivial
  | readSlot c => trivial

/-- While nothing is readable, a new producer is granted the next segment. -/
theorem callWrite_fresh {T : Type} {pool : Pool T} {p : Nat}
    (empty : pool.queue.readableQueue = ∅) (fresh : pool.producers p = {}) (obj : T) :
    pool.callWrite p obj = some (pool.grant p obj) := by
  -- Nothing is readable, so the guard grants without a look at the ids.
  have room : pool.queue.hasRoom = true := by simp [hasRoom, firstReadable, empty]
  simp only [Pool.callWrite, fresh, tryWriteSpace, publish]
  simp [room, nextSegment, Pool.grant]

/-- The pool after a new producer has written its first task. -/
def Pool.afterFirst {T : Type} (pool : Pool T) (p : Nat) (obj : T) : Pool T :=
  { pool with
    queue := { pool.queue.write pool.queue.writeId obj with writeId := pool.queue.writeId + trySize }
    producers := Function.update pool.producers p
      { writeId := pool.queue.writeId, curWriteId := pool.queue.writeId + 1,
        writableId := pool.queue.writeId + trySize }
    accepted := pool.accepted ++ [(pool.queue.writeId, obj)] }

/-- The new producer stands behind its first task. -/
theorem Pool.afterFirst_own {T : Type} {pool : Pool T} {p : Nat} {obj : T} :
    (pool.afterFirst p obj).producers p =
      { writeId := pool.queue.writeId, curWriteId := pool.queue.writeId + 1,
        writableId := pool.queue.writeId + trySize } :=
  Function.update_self _ _ _

/-- The other producers stay where they are. -/
theorem Pool.afterFirst_other {T : Type} {pool : Pool T} {p q : Nat} {obj : T} (other : q ≠ p) :
    (pool.afterFirst p obj).producers q = pool.producers q :=
  Function.update_of_ne other _ _

/-- While nothing is readable, a new producer's first task goes to the next segment. -/
theorem run_fresh {T : Type} {pool : Pool T} {p : Nat}
    (empty : pool.queue.readableQueue = ∅) (fresh : pool.producers p = {}) (obj : T) :
    (poolMachine T).run pool [.callWrite p obj, .writeSlot p] = some (pool.afterFirst p obj) := by
  -- The grant is the first step, and the write the second.
  have called : (poolMachine T).step pool (.callWrite p obj) = some (pool.grant p obj) :=
    callWrite_fresh empty fresh obj
  rw [Machine.run_cons, called, Option.bind_some, Machine.run_cons]
  simp [poolMachine, Pool.writeSlot, Pool.grant, Pool.afterFirst, write]

/-- A producer that is not done with its segment writes its next task there. -/
theorem run_goesOn {T : Type} {pool : Pool T} {p : Nat} (goesOn : ¬ pool.Asks p)
    (idle : (pool.producers p).writing = none) (obj : T) :
    (poolMachine T).run pool [.callWrite p obj, .writeSlot p] = some { pool with
      queue := pool.queue.write (pool.producers p).curWriteId obj
      producers := Function.update pool.producers p
        { pool.producers p with curWriteId := (pool.producers p).curWriteId + 1, writing := none }
      accepted := pool.accepted ++ [((pool.producers p).curWriteId, obj)] } := by
  -- A producer with ids left asks for no space.
  have called : (poolMachine T).step pool (.callWrite p obj) =
      some (pool.advance p (pool.producers p).curWriteId (some obj)) := by
    have room : ¬ (pool.producers p).curWriteId ≥ (pool.producers p).writableId := goesOn
    simp only [poolMachine, Pool.callWrite, idle, if_neg room]
    rfl
  rw [Machine.run_cons, called, Option.bind_some, Machine.run_cons]
  simp [poolMachine, Pool.writeSlot, Pool.advance]

/-- A producer with a task in hand writes it to the slot of its cursor. -/
theorem run_writeSlot {T : Type} {pool : Pool T} {p : Nat} {obj : T}
    (writing : (pool.producers p).writing = some obj) :
    (poolMachine T).run pool [.writeSlot p] = some { pool with
      queue := pool.queue.write (pool.producers p).curWriteId obj
      producers := Function.update pool.producers p
        { pool.producers p with curWriteId := (pool.producers p).curWriteId + 1, writing := none }
      accepted := pool.accepted ++ [((pool.producers p).curWriteId, obj)] } := by
  -- The producer has the task in its hands, so the step is taken.
  simp only [Machine.run_cons, Machine.run_nil, poolMachine, Pool.writeSlot, writing,
    Option.map_some, Option.bind_some]

/-- A consumer that goes on in its segment. -/
def readOn {T : Type} (c : Nat) : Nat → List (PoolStep T)
  | 0 => []
  | tasks + 1 => readOn c tasks ++ [.callRead c, .readSlot c]

/-- A consumer returns the tasks of its segment one after the other. -/
theorem readOn_run {T : Type} {pool : Pool T} {c start stop : Nat}
    (inside : pool.consumers c = { readId := start, readableId := stop }) (tasks : Nat)
    (fits : start + tasks ≤ stop) :
    (poolMachine T).run pool (readOn c tasks) = some { pool with
      consumers := Function.update pool.consumers c
        { readId := start + tasks, readableId := stop }
      returned := pool.returned ++
        (List.range' start tasks).map fun id => (id, pool.queue.read id) } := by
  -- Each further call takes the next id of the segment.
  induction tasks with
  | zero =>
    rw [Nat.add_zero, ← inside, Function.update_eq_self, List.range'_zero, List.map_nil,
      List.append_nil, readOn]
    rfl
  | succ tasks ih =>
    have unread : ¬ start + tasks ≥ stop := by omega
    rw [readOn]
    apply Machine.run_trans _ (ih (by omega))
    simp [poolMachine, Pool.callRead, Pool.readSlot, unread, List.range'_concat, Nat.add_assoc]

/-- One producer fills the first segment with a task 0 and then tasks 1. -/
def fillFirst : Nat → List (PoolStep Nat)
  | 0 => [.callWrite 0 0, .writeSlot 0]
  | tasks + 1 => fillFirst tasks ++ [.callWrite 0 1, .writeSlot 0]

/-- Producers that start one after the other, each with a single task 1. -/
def lateProducers : Nat → List (PoolStep Nat)
  | 0 => []
  | producers + 1 =>
    lateProducers producers ++ [.callWrite (producers + 1) 1, .writeSlot (producers + 1)]

/-- Task 0 is in its slot, accepted once, and nothing is readable. -/
structure TaskWaits (pool : Pool Nat) : Prop where
  empty : pool.queue.readableQueue = ∅
  stored : pool.queue.circleArray 0 = 0
  once : (pool.accepted.map Prod.snd).count 0 = 1

/-- Accepting a task 1 on another slot leaves task 0 where it is. -/
theorem TaskWaits.accept {pool : Pool Nat} (waits : TaskWaits pool) {id : Nat}
    (elsewhere : id % size ≠ 0) (producers : Nat → Producer Nat) (writeId : Nat) :
    TaskWaits { pool with
      queue := { pool.queue.write id 1 with writeId := writeId }
      producers := producers
      accepted := pool.accepted ++ [(id, 1)] } where
  -- Nothing was announced, slot 0 was not written, and the new task is a 1.
  empty := waits.empty
  stored := by
    show Function.update pool.queue.circleArray (id % size) 1 0 = 0
    rw [Function.update_of_ne (Ne.symm elsewhere)]
    exact waits.stored
  once := by
    rw [List.map_append, List.count_append, waits.once]
    rfl

/-- The first producer's segment fills up, and the ring's next segment follows it. -/
theorem fillFirst_run (tasks : Nat) (fits : tasks < trySize) :
    ∃ pool, (poolMachine Nat).run Pool.new (fillFirst tasks) = some pool ∧ TaskWaits pool ∧
      pool.queue.writeId = trySize ∧
      pool.producers 0 = { writeId := 0, curWriteId := tasks + 1, writableId := trySize } ∧
      (∀ p, p ≠ 0 → pool.producers p = {}) ∧ pool.returned = [] ∧ pool.taken = [] ∧
      pool.consumers = fun _ => {} := by
  -- Each further task goes to the next slot of the segment.
  induction tasks with
  | zero =>
    have empty : (Pool.new : Pool Nat).queue.readableQueue = ∅ := rfl
    rw [fillFirst]
    refine ⟨_, run_fresh empty rfl 0, ⟨rfl, rfl, rfl⟩, rfl, Pool.afterFirst_own, ?_, rfl, rfl, rfl⟩
    intro p other
    exact Pool.afterFirst_other other
  | succ tasks ih =>
    obtain ⟨pool, ran, waits, next, first, fresh, unread, untaken, idle⟩ := ih (by omega)
    have goesOn : ¬ pool.Asks 0 := by
      rw [Pool.Asks, first]
      simp only [trySize] at *
      omega
    have wrote := run_goesOn goesOn (by rw [first]) 1
    rw [fillFirst]
    refine ⟨_, Machine.run_trans _ ran wrote, ?_, next, ?_, ?_, unread, untaken, idle⟩
    · -- The next slot of the segment is not the first one.
      refine waits.accept ?_ _ _
      rw [first]
      simp only [trySize, size] at *
      omega
    · simp [first]
    · intro p other
      show Function.update pool.producers 0 _ p = _
      rw [Function.update_of_ne other]
      exact fresh p other

/-- What a run of producers leaves as it was: whatever has been announced, taken and read, and by
whom. -/
def Pool.SameReads {T : Type} (pool last : Pool T) : Prop :=
  last.consumers = pool.consumers ∧ last.returned = pool.returned ∧
    last.published = pool.published ∧ last.taken = pool.taken

/-- Late producers take up the ring, and nothing is published. -/
theorem lateProducers_run {pool : Pool Nat} {k : Nat} (waits : TaskWaits pool)
    (next : pool.queue.writeId = trySize * (k + 1))
    (fresh : ∀ p, p ≠ 0 → pool.producers p = {}) (producers : Nat) (fits : k + producers < 16384) :
    ∃ last, (poolMachine Nat).run pool (lateProducers producers) = some last ∧ TaskWaits last ∧
      last.queue.writeId = trySize * (k + producers + 1) ∧
      last.producers 0 = pool.producers 0 ∧ (∀ p, producers < p → last.producers p = {}) ∧
      pool.SameReads last := by
  -- Each further producer is granted the next segment and keeps it.
  induction producers with
  | zero =>
    rw [lateProducers]
    exact ⟨pool, rfl, waits, next, rfl, fun p late => fresh p (by omega), rfl, rfl, rfl, rfl⟩
  | succ producers ih =>
    obtain ⟨last, ran, waits, next, first, fresh, same⟩ := ih (by omega)
    rw [lateProducers]
    have wrote := run_fresh waits.empty (fresh (producers + 1) (Nat.lt_succ_self _)) 1
    -- The segments granted so far fill less than one lap.
    have elsewhere : last.queue.writeId % size ≠ 0 := by
      rw [next]
      simp only [trySize, size]
      omega
    refine ⟨_, Machine.run_trans _ ran wrote, waits.accept elsewhere _ _, ?_, ?_, ?_, same⟩
    · show last.queue.writeId + trySize = _
      rw [next]
      rfl
    · rw [Pool.afterFirst_other (by omega)]
      exact first
    · intro p late
      rw [Pool.afterFirst_other (by omega)]
      exact fresh p (by omega)

/-- A consumer has taken the first segment, and returned task 0 from it. -/
def Pool.readFirst (pool : Pool Nat) (c : Nat) : Pool Nat :=
  { pool.take c ⟨0, trySize⟩ with
    consumers := Function.update (pool.take c ⟨0, trySize⟩).consumers c
      { readId := 1, readableId := trySize }
    returned := pool.returned ++ [(0, 0)] }

/-- A new consumer takes the one readable segment. -/
theorem callRead_first {T : Type} {pool : Pool T}
    (readable : pool.queue.readableQueue = {⟨0, trySize⟩}) {c : Nat}
    (fresh : pool.consumers c = {}) : pool.callRead c = some (pool.take c ⟨0, trySize⟩) := by
  -- The segment is the first one of the set.
  have first : pool.queue.firstReadable = some ⟨0, trySize⟩ := by
    simp [firstReadable, readable]
  simp only [Pool.callRead, fresh, tryReadSpaceByCV, first, Option.map_some]
  rfl

/-- A consumer that has taken the first segment reads task 0 from it. -/
theorem readSlot_first {pool : Pool Nat} (stored : pool.queue.circleArray 0 = 0) (c : Nat) :
    (pool.take c ⟨0, trySize⟩).readSlot c = some (pool.readFirst c) := by
  -- The consumer has just taken the first segment, and its first slot has the task 0.
  have consumer : (pool.take c ⟨0, trySize⟩).consumers c =
      { readId := 0, readableId := trySize, reading := true } := Function.update_self _ _ _
  have slot : (pool.take c ⟨0, trySize⟩).queue.read 0 = 0 := stored
  simp only [Pool.readSlot, consumer, if_true, slot]
  rfl

/-- A new consumer reads task 0 from the one readable segment. -/
theorem readFirst_run {pool : Pool Nat} (readable : pool.queue.readableQueue = {⟨0, trySize⟩})
    (stored : pool.queue.circleArray 0 = 0) {c : Nat} (fresh : pool.consumers c = {}) :
    (poolMachine Nat).run pool [.callRead c, .readSlot c] = some (pool.readFirst c) := by
  -- The call takes the segment, and the read returns what is in its first slot.
  have took : (poolMachine Nat).step pool (.callRead c) = some (pool.take c ⟨0, trySize⟩) :=
    callRead_first readable fresh
  rw [Machine.run_cons, took, Option.bind_some, Machine.run_cons]
  exact Option.bind_eq_some_iff.mpr ⟨_, readSlot_first stored c, rfl⟩

/-- Once its producer has filled the first segment, its next call makes that readable and is granted
another, early in the lap. -/
theorem callWrite_full {T : Type} {pool : Pool T} (empty : pool.queue.readableQueue = ∅)
    (aligned : trySize ∣ pool.queue.writeId) (early : pool.queue.writeId + trySize < size)
    (full : pool.producers 0 = { writeId := 0, curWriteId := trySize, writableId := trySize })
    (obj : T) :
    pool.Asks 0 ∧ pool.callWrite 0 obj = some ((pool.announce 0).grant 0 obj) ∧
      ((pool.announce 0).grant 0 obj).queue.readableQueue = {⟨0, trySize⟩} ∧
      ((pool.announce 0).grant 0 obj).queue.circleArray = pool.queue.circleArray := by
  have asks : pool.Asks 0 := by
    rw [Pool.Asks, full]
  have room : (pool.announce 0).queue.hasRoom := by
    rw [hasRoom_iff (by rwa [Pool.announce_writeId]), Pool.announce_writeId]
    exact .inr early
  refine ⟨asks, Pool.callWrite_granted (by rw [full]) asks room obj, ?_,
    Pool.announce_circleArray⟩
  -- Handing out a segment changes nothing that is readable.
  show (pool.announce 0).queue.readableQueue = {⟨0, trySize⟩}
  simp [Pool.announce, publish, full, empty, trySize]

/-- The segment that task 0 is in is announced by its producer's next call. -/
theorem TaskWaits.callWrite {pool : Pool Nat} (waits : TaskWaits pool)
    (next : pool.queue.writeId = trySize)
    (full : pool.producers 0 = { writeId := 0, curWriteId := trySize, writableId := trySize }) :
    pool.Asks 0 ∧ pool.callWrite 0 1 = some ((pool.announce 0).grant 0 1) ∧
      ((pool.announce 0).grant 0 1).queue.readableQueue = {⟨0, trySize⟩} ∧
      ((pool.announce 0).grant 0 1).queue.circleArray 0 = 0 := by
  -- The first segment is the only one so far.
  have aligned : trySize ∣ pool.queue.writeId := by rw [next]
  have early : pool.queue.writeId + trySize < size := by
    rw [next]
    decide
  obtain ⟨asks, granted, readable, slots⟩ := callWrite_full waits.empty aligned early full 1
  exact ⟨asks, granted, readable, (congrFun slots 0).trans waits.stored⟩

/-- Once its producer has filled the first segment, its next call announces the segment and is
granted another, and a new consumer reads task 0. -/
theorem announceFirst_run {pool : Pool Nat} (waits : TaskWaits pool)
    (next : pool.queue.writeId = trySize)
    (full : pool.producers 0 = { writeId := 0, curWriteId := trySize, writableId := trySize })
    (idle : pool.consumers = fun _ => {}) :
    (poolMachine Nat).run pool [.callWrite 0 1, .callRead 0, .readSlot 0] =
        some (((pool.announce 0).grant 0 1).readFirst 0) ∧
      (((pool.announce 0).grant 0 1).readFirst 0).queue.readableQueue = ∅ := by
  obtain ⟨-, granted, readable, stored⟩ := waits.callWrite next full
  have called : (poolMachine Nat).run pool [.callWrite 0 1] =
      some ((pool.announce 0).grant 0 1) := Option.bind_eq_some_iff.mpr ⟨_, granted, rfl⟩
  have fresh : ((pool.announce 0).grant 0 1).consumers 0 = {} := congrFun idle 0
  refine ⟨Machine.run_trans _ called (readFirst_run readable stored fresh), ?_⟩
  -- The one readable segment was taken.
  show ((pool.announce 0).grant 0 1).queue.readableQueue.erase ⟨0, trySize⟩ = ∅
  rw [readable, Finset.erase_singleton]

/-- A producer fills the first segment and asks for another, and a consumer reads the first task. -/
def startLap : List (PoolStep Nat) :=
  fillFirst 1023 ++ ([.callWrite 0 1, .callRead 0, .readSlot 0] ++ [.writeSlot 0])

/-- The producer is on the second segment while the consumer is on the first. -/
theorem startLap_run :
    ∃ pool, (poolMachine Nat).run Pool.new startLap = some pool ∧ TaskWaits pool ∧
      pool.queue.writeId = trySize * (1 + 1) ∧ (∀ p, p ≠ 0 → pool.producers p = {}) ∧
      pool.consumers = Function.update (fun _ => {}) 0 { readId := 1, readableId := trySize } ∧
      pool.returned = [(0, 0)] ∧ ⟨0, trySize⟩ ∈ pool.published ∧ pool.taken = [⟨0, trySize⟩] := by
  obtain ⟨pool, ran, waits, next, full, fresh, unread, untaken, idle⟩ :=
    fillFirst_run 1023 (by decide)
  obtain ⟨ranFirst, empty⟩ := announceFirst_run waits next full idle
  -- The call that was granted the second segment ends with its first slot.
  have own : (((pool.announce 0).grant 0 1).readFirst 0).producers 0 =
      { writeId := trySize, curWriteId := trySize, writableId := trySize + trySize,
        writing := some 1 } := by
    show ((pool.announce 0).grant 0 1).producers 0 = _
    rw [Pool.grant_own, Pool.announce_writeId, next]
  have waitsFirst : TaskWaits (((pool.announce 0).grant 0 1).readFirst 0) :=
    ⟨empty, (waits.callWrite next full).2.2.2, waits.once⟩
  have wrote := run_writeSlot (congrArg Producer.writing own)
  refine ⟨_, Machine.run_trans _ ran (Machine.run_trans _ ranFirst wrote), ?_, ?_, ?_, ?_, ?_, ?_,
    ?_⟩
  · refine waitsFirst.accept ?_ _ _
    rw [own]
    decide
  · show (pool.announce 0).queue.writeId + trySize = _
    rw [Pool.announce_writeId, next]
    rfl
  · intro p other
    show Function.update ((pool.announce 0).grant 0 1).producers 0 _ p = _
    rw [Function.update_of_ne other, Pool.grant_other other]
    exact fresh p other
  · show Function.update (Function.update pool.consumers 0 _) 0 _ = _
    rw [Function.update_idem, idle]
  · show pool.returned ++ _ = _
    rw [unread, List.nil_append]
  · refine Pool.mem_published_announce.mpr (.inl ⟨?_, ?_⟩)
    · rw [full]
      decide
    · rw [full]
      rfl
  · show _ :: pool.taken = _
    rw [untaken]

/-- The first lap: after its start, late producers take up the other segments while the consumer
reads the first one to its end. -/
def readLap : List (PoolStep Nat) := startLap ++ (lateProducers 16382 ++ readOn 0 1023)

/-- The first lap is used up, and the tasks of the first segment have been returned. -/
theorem readLap_run :
    ∃ pool, (poolMachine Nat).run Pool.new readLap = some pool ∧
      pool.queue.readableQueue = ∅ ∧ pool.queue.writeId = size ∧ pool.producers 16383 = {} ∧
      (∀ c, (pool.consumers c).readableId ≤ (pool.consumers c).readId) ∧
      pool.returned.map Prod.fst = List.range 1024 ∧ (0, 0) ∈ pool.returned ∧
      ⟨0, trySize⟩ ∈ pool.published ∧ pool.taken = [⟨0, trySize⟩] := by
  obtain ⟨pool, ran, waits, next, fresh, consumers, returned, published, taken⟩ := startLap_run
  obtain ⟨late, ranLate, waitsLate, nextLate, -, freshLate, sameConsumers, sameReturned,
    samePublished, sameTaken⟩ := lateProducers_run waits next fresh 16382 (by decide)
  have inside : late.consumers 0 = { readId := 1, readableId := trySize } := by
    rw [sameConsumers, consumers]
    rfl
  have read := readOn_run inside 1023 (by decide)
  refine ⟨_, Machine.run_trans _ ran (Machine.run_trans _ ranLate read), waitsLate.empty, nextLate,
    freshLate 16383 (by decide), ?_, ?_, ?_, ?_, ?_⟩
  · -- Only the one consumer was ever called, and it is at the end of its segment.
    intro c
    by_cases own : c = 0
    · subst own
      simp [trySize]
    · simp [own, sameConsumers, consumers]
  · show (late.returned ++ _).map Prod.fst = _
    rw [sameReturned, returned, List.map_append, List.map_map, List.range_eq_range',
      List.range'_succ]
    exact congrArg (List.cons 0) (List.map_id _)
  · show _ ∈ late.returned ++ _
    rw [sameReturned, returned]
    exact List.mem_append_left _ (List.mem_singleton.mpr rfl)
  · rw [samePublished]
    exact published
  · rw [sameTaken]
    exact taken

/-- One more producer then comes around to the first block of the ring, and writes to slot 0. -/
def aroundTheRing : List (PoolStep Nat) := readLap ++ [.callWrite 16383 1, .writeSlot 16383]

-- The runs are too long to be replayed, and the lemmas above say where they lead.
attribute [irreducible] readOn fillFirst lateProducers startLap readLap aroundTheRing

/-- The last producer is granted the block of the first segment, off which everybody is. -/
theorem aroundTheRing_grantsClear :
    (poolMachine Nat).Meets Pool.GrantsClear Pool.new aroundTheRing := by
  rw [aroundTheRing, Machine.meets_append]
  obtain ⟨pool, ran, empty, next, fresh, consumers, -, -, published, -⟩ := readLap_run
  have clear := grantsClear_of_lap ran (Nat.le_of_eq next)
  refine ⟨clear, fun reached ranToo => ?_⟩
  obtain rfl : pool = reached := Option.some.inj (ran.symm.trans ranToo)
  refine ⟨fun _ _ => ⟨?_, ?_⟩, fun _ _ => ⟨trivial, fun _ _ => trivial⟩⟩
  · intro q _ filling same
    have custody : Custody pool := Machine.run_invariant_of_meets
      (fun _ _ _ (custody : Custody _) clear stepped => custody.step clear stepped) Custody.start
      clear ran
    -- On the block of slot 0, the only segment so far is the one that was announced.
    have first := (custody.issued q filling.1).eq_first (Nat.le_of_eq next) (next ▸ same)
    exact filling.2 (first ▸ published)
  · intro c unread
    exact absurd (consumers c) (Nat.not_le_of_lt unread)

/-- No unread task is overwritten in a run in which each grant finds its block of the ring free of
other producers and of consumers. -/
theorem unread_kept_of_grantsClear {T : Type} [Inhabited T] (labels : List (PoolStep T))
    (clear : (poolMachine T).Meets Pool.GrantsClear Pool.new labels) :
    (poolMachine T).Meets Pool.KeepsUnread Pool.new labels :=
  -- A grant that is clear overwrites no unread task, and each one that is written is in custody.
  Machine.Meets.of_invariant (fun _ _ _ custody clear stepped => custody.step clear stepped)
    (fun _ _ custody clear => custody.keepsUnread clear) Custody.start clear

/-- In a run around the ring, whose last producer writes over the first task that was returned, no
unread task is overwritten. -/
theorem unread_kept_of_grantsClear_aroundTheRing :
    (∃ pool, (poolMachine Nat).run Pool.new aroundTheRing = some pool ∧
      (0, 0) ∈ pool.returned ∧ (size, 1) ∈ pool.accepted) ∧
    (poolMachine Nat).Meets Pool.KeepsUnread Pool.new aroundTheRing := by
  -- The first slot is written again after the segment it belonged to was read.
  refine ⟨?_, unread_kept_of_grantsClear aroundTheRing aroundTheRing_grantsClear⟩
  obtain ⟨pool, ran, empty, next, fresh, -, -, returned, -⟩ := readLap_run
  rw [aroundTheRing]
  refine ⟨_, Machine.run_trans _ ran (run_fresh empty fresh 1), returned, ?_⟩
  rw [← next]
  exact List.mem_append_right _ (List.mem_singleton.mpr rfl)

/-- Producers that start one after the other, each with a single task. -/
def oneTaskEach : Nat → List (PoolStep Nat)
  | 0 => []
  | producers + 1 =>
    oneTaskEach producers ++ [.callWrite producers producers, .writeSlot producers]

/-- Nothing is published by producers that write a single task each. -/
theorem oneTaskEach_run (producers : Nat) :
    ∃ pool, (poolMachine Nat).run Pool.new (oneTaskEach producers) = some pool ∧
      pool.queue.readableQueue = ∅ ∧ pool.queue.writeId = trySize * producers ∧
      (∀ p, producers ≤ p → pool.producers p = {}) ∧ pool.returned = [] ∧
      (0 < producers → (0, 0) ∈ pool.accepted) := by
  -- Each producer receives a segment of its own, and keeps it.
  induction producers with
  | zero => exact ⟨_, rfl, rfl, rfl, fun _ _ => rfl, rfl, fun none_ => absurd none_ (by decide)⟩
  | succ producers ih =>
    obtain ⟨pool, ran, empty, next, fresh, unread, first⟩ := ih
    have wrote := run_fresh empty (fresh producers (Nat.le_refl _)) producers
    refine ⟨_, Machine.run_trans _ ran wrote, empty, ?_, fun p later => ?_, unread, fun _ => ?_⟩
    · show pool.queue.writeId + trySize = trySize * (producers + 1)
      rw [next]
      rfl
    · rw [Pool.afterFirst_other (by omega)]
      exact fresh p (by omega)
    · -- The first task is the one under id 0.
      rcases Nat.eq_zero_or_pos producers with rfl | some_
      · rw [Pool.afterFirst, next]
        exact List.mem_append_right _ (List.mem_singleton.mpr rfl)
      · exact List.mem_append_left _ (first some_)

/-- After one lap of single-task producers, the next one writes over the unread first task. -/
theorem unread_overwritten :
    ∃ pool,
      (poolMachine Nat).run Pool.new (oneTaskEach 16384 ++ [.callWrite 16384 16384]) =
        some pool ∧
      ¬ pool.KeepsUnread (.writeSlot 16384) := by
  obtain ⟨pool, ran, empty, next, fresh, unread, first⟩ := oneTaskEach_run 16384
  have called := callWrite_fresh empty (fresh 16384 (Nat.le_refl _)) 16384
  refine ⟨pool.grant 16384 16384, Machine.run_trans _ ran (by
    simp only [Machine.run_cons, Machine.run_nil, poolMachine, called, Option.bind_some]), ?_⟩
  intro keeps
  -- The granted segment starts one lap after id 0, on the same slot.
  obtain ⟨obj, returned⟩ := keeps (by simp [Pool.grant_own]) (0, 0) (first (by decide))
    (by simp [Pool.grant_own, next, trySize]) (by rw [Pool.grant_own, next]; rfl)
  have none_ : (pool.grant 16384 16384).returned = [] := unread
  rw [none_] at returned
  exact absurd returned List.not_mem_nil

end EnhancedProxy
