import EnhancedProxy.Library.Machine
import Mathlib.Data.Finset.Max
import Mathlib.Data.Prod.Lex

/-! The ring queue of the thread pool, and its producers and consumers taking atomic steps. -/

namespace EnhancedProxy

/-- A `pair<long, long>` of ids: the first of a segment, and the first after it. -/
structure Segment where
  first : Nat
  second : Nat
  deriving DecidableEq, Repr

/-- A segment as a pair in the lexicographic order of `std::pair`. -/
def Segment.toPair (segment : Segment) : Nat ×ₗ Nat := toLex (segment.first, segment.second)

/-- Segments with the same ids are the same. -/
theorem Segment.toPair_injective : Function.Injective Segment.toPair := by
  -- The pair has both fields.
  rintro ⟨first, second⟩ ⟨first', second'⟩ same
  simpa [Segment.toPair] using same

/-- The order in which `std::set` keeps its segments. -/
instance : LinearOrder Segment := LinearOrder.lift' Segment.toPair Segment.toPair_injective

/-- A `CircleQueue` object. Ids are `long` values, far below their bound. -/
structure CircleQueue (T : Type) where
  circleArray : Nat → T
  readableQueue : Finset Segment := ∅
  writeId : Nat := 0

namespace CircleQueue

variable {T : Type}

/-- `size`, the number of slots of the ring. -/
def size : Nat := 1024 * 1024 * 16

/-- `try_size`, the number of ids in a segment. -/
def trySize : Nat := 1024

/-- `*readable_queue.begin()`, unless the set is empty. -/
def firstReadable (queue : CircleQueue T) : Option Segment :=
  if readable : queue.readableQueue.Nonempty then some (queue.readableQueue.min' readable) else none

/-- The segment that is handed out next. -/
def nextSegment (queue : CircleQueue T) : Segment :=
  ⟨queue.writeId, queue.writeId + trySize⟩

/-- The test under which a segment is handed out. -/
def hasRoom (queue : CircleQueue T) : Bool :=
  let writableId := queue.writeId + trySize
  match queue.firstReadable with
  | none => true
  | some start =>
    -- `<` binds tighter than `&`, so the comparison yields a 0 or 1 that is then a mask.
    writableId < size ∨
      writableId &&& (if size - 1 < start.first then 1 else 0) &&& (size - 1) ≠ 0

/-- The first part of `tryWriteSpace`: a nonzero end announces a segment as readable. -/
def publish (queue : CircleQueue T) (hasWriteStart hasWriteEnd : Nat) : CircleQueue T :=
  if hasWriteEnd ≠ 0 then
    { queue with readableQueue := insert ⟨hasWriteStart, hasWriteEnd⟩ queue.readableQueue }
  else queue

/-- `tryWriteSpace`, with no segment for the pair (-1, -1). -/
def tryWriteSpace (queue : CircleQueue T) (hasWriteStart hasWriteEnd : Nat) :
    CircleQueue T × Option Segment :=
  let queue := queue.publish hasWriteStart hasWriteEnd
  -- The announced segment stays announced even when no space is granted.
  if queue.hasRoom then
    ({ queue with writeId := queue.writeId + trySize }, some queue.nextSegment)
  else (queue, none)

/-- `tryReadSpaceByCV`, which has no result while it waits for the set to fill. -/
def tryReadSpaceByCV (queue : CircleQueue T) : Option (CircleQueue T × Segment) :=
  queue.firstReadable.map fun segment =>
    ({ queue with readableQueue := queue.readableQueue.erase segment }, segment)

/-- `read` of the slot of an id. -/
def read (queue : CircleQueue T) (index : Nat) : T := queue.circleArray (index % size)

/-- `write` to the slot of an id. -/
def write (queue : CircleQueue T) (index : Nat) (obj : T) : CircleQueue T :=
  { queue with circleArray := Function.update queue.circleArray (index % size) obj }

end CircleQueue

/-- A `Producer` object, with the task of a call that has still to write its slot. -/
structure Producer (T : Type) where
  writeId : Nat := 0
  curWriteId : Nat := 0
  writableId : Nat := 0
  writing : Option T := none

/-- The segment whose ids a producer fills. -/
def Producer.segment {T : Type} (producer : Producer T) : Segment :=
  ⟨producer.writeId, producer.writableId⟩

/-- A `Consumer` object, and whether a call has still to read its slot. -/
structure Consumer where
  readId : Nat := 0
  readableId : Nat := 0
  reading : Bool := false
  deriving DecidableEq, Repr

/-- One queue with all its producers and consumers, and the history of their steps.
The history keeps the tasks accepted and returned under their ids, and the segments published
and taken. -/
structure Pool (T : Type) where
  queue : CircleQueue T
  producers : Nat → Producer T := fun _ => {}
  consumers : Nat → Consumer := fun _ => {}
  accepted : List (Nat × T) := []
  returned : List (Nat × T) := []
  published : List Segment := []
  taken : List Segment := []

/-- The atomic steps: the two parts of `Producer::write`, and the two of `Consumer::read`. -/
inductive PoolStep (T : Type)
  | callWrite (p : Nat) (obj : T)
  | writeSlot (p : Nat)
  | callRead (c : Nat)
  | readSlot (c : Nat)
  deriving DecidableEq, Repr

namespace Pool

variable {T : Type}

/-- A queue whose slots hold `T()`, before any call. -/
def new [Inhabited T] : Pool T := { queue := { circleArray := fun _ => default } }

/-- `Producer::write` up to its slot: ask for space if the segment is used up. -/
def callWrite (pool : Pool T) (p : Nat) (obj : T) : Option (Pool T) :=
  let producer := pool.producers p
  if producer.writing.isSome then none
  -- Every call that asks announces the segment of the last grant, or of the last refusal.
  else if producer.curWriteId ≥ producer.writableId then
    let pool := { pool with
      published :=
        if producer.writableId ≠ 0 then producer.segment :: pool.published else pool.published }
    match pool.queue.tryWriteSpace producer.writeId producer.writableId with
    | (queue, some space) =>
      some { pool with
        queue := queue
        producers := Function.update pool.producers p
          { writeId := space.first, curWriteId := space.first, writableId := space.second,
            writing := some obj } }
    -- The call returns false, and the cursors stay as they were.
    | (queue, none) => some { pool with queue := queue }
  else
    some { pool with
      producers := Function.update pool.producers p { producer with writing := some obj } }

/-- The end of `Producer::write`: the slot is written and the call returns true. -/
def writeSlot (pool : Pool T) (p : Nat) : Option (Pool T) :=
  let producer := pool.producers p
  producer.writing.map fun obj =>
    { pool with
      queue := pool.queue.write producer.curWriteId obj
      producers := Function.update pool.producers p
        { producer with curWriteId := producer.curWriteId + 1, writing := none }
      accepted := pool.accepted ++ [(producer.curWriteId, obj)] }

/-- `Consumer::read` up to its slot: wait for a segment if the last one is used up. -/
def callRead (pool : Pool T) (c : Nat) : Option (Pool T) :=
  let consumer := pool.consumers c
  if consumer.reading then none
  -- The consumer has read its last segment to the end.
  else if consumer.readId ≥ consumer.readableId then
    pool.queue.tryReadSpaceByCV.map fun (queue, space) =>
      { pool with
        queue := queue
        consumers := Function.update pool.consumers c
          { readId := space.first, readableId := space.second, reading := true }
        taken := space :: pool.taken }
  else
    some { pool with
      consumers := Function.update pool.consumers c { consumer with reading := true } }

/-- The end of `Consumer::read`: the task in the slot is returned. -/
def readSlot (pool : Pool T) (c : Nat) : Option (Pool T) :=
  let consumer := pool.consumers c
  if consumer.reading then
    some { pool with
      consumers := Function.update pool.consumers c
        { consumer with readId := consumer.readId + 1, reading := false }
      returned := pool.returned ++ [(consumer.readId, pool.queue.read consumer.readId)] }
  else none

end Pool

/-- The pool as a machine: any producer or consumer may take the next atomic step. -/
def poolMachine (T : Type) : Machine (Pool T) (PoolStep T) where
  step pool
    | .callWrite p obj => pool.callWrite p obj
    | .writeSlot p => pool.writeSlot p
    | .callRead c => pool.callRead c
    | .readSlot c => pool.readSlot c

end EnhancedProxy
