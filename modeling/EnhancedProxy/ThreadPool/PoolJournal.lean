import EnhancedProxy.Library.Journal
import EnhancedProxy.ThreadPool.Visibility

/-! What each step of the pool does, as a journal notes it. -/

namespace EnhancedProxy

open CircleQueue

/-- What a step of the pool can do that is noted: a segment is granted or refused to a producer, a
task is written, a segment is taken by a consumer, and a task is read. -/
inductive PoolEntry (T : Type)
  | granted (p : Nat) (segment : Segment)
  | refused (p : Nat)
  | wrote (p id : Nat) (obj : T)
  | took (c : Nat) (segment : Segment)
  | read (c id : Nat) (obj : T)
  deriving DecidableEq, Repr

/-- What a step notes, from the state that it is taken in. -/
def poolEntry {T : Type} (pool : Pool T) : PoolStep T → Option (PoolEntry T)
  | .callWrite p _ =>
    let producer := pool.producers p
    -- A producer that has ids left asks for nothing.
    if producer.curWriteId ≥ producer.writableId then
      match (pool.queue.tryWriteSpace producer.writeId producer.writableId).2 with
      | some space => some (.granted p space)
      | none => some (.refused p)
    else none
  | .writeSlot p =>
    (pool.producers p).writing.map fun obj => .wrote p (pool.producers p).curWriteId obj
  | .callRead c =>
    let consumer := pool.consumers c
    if consumer.readId ≥ consumer.readableId then
      pool.queue.tryReadSpaceByCV.map fun (_, space) => .took c space
    else none
  | .readSlot c =>
    let consumer := pool.consumers c
    some (.read c consumer.readId (pool.queue.read consumer.readId))

/-- The pool as a machine with a journal. -/
def journaledPool (T : Type) : Machine (Pool T × List (PoolEntry T)) (PoolStep T) :=
  (poolMachine T).journaling poolEntry

variable {T : Type}

/-- The segments granted so far, with the producers they went to. -/
def grants (journal : List (PoolEntry T)) : List (Nat × Segment) :=
  journal.filterMap fun
    | .granted p segment => some (p, segment)
    | _ => none

/-- The segments granted to one producer. -/
def grantsOf (p : Nat) (journal : List (PoolEntry T)) : List Segment :=
  (grants journal).filterMap fun grant => if grant.1 = p then some grant.2 else none

/-- The segments taken so far, with the consumers that took them. -/
def takes (journal : List (PoolEntry T)) : List (Nat × Segment) :=
  journal.filterMap fun
    | .took c segment => some (c, segment)
    | _ => none

/-- The segments taken by one consumer. -/
def takesOf (c : Nat) (journal : List (PoolEntry T)) : List Segment :=
  (takes journal).filterMap fun take => if take.1 = c then some take.2 else none

/-- The tasks written so far under their ids, with the producers that wrote them. -/
def writes (journal : List (PoolEntry T)) : List (Nat × Nat × T) :=
  journal.filterMap fun
    | .wrote p id obj => some (p, id, obj)
    | _ => none

/-- The tasks written by one producer, under their ids. -/
def writesOf (p : Nat) (journal : List (PoolEntry T)) : List (Nat × T) :=
  (writes journal).filterMap fun write => if write.1 = p then some write.2 else none

/-- The tasks read so far under their ids, with the consumers that read them. -/
def reads (journal : List (PoolEntry T)) : List (Nat × Nat × T) :=
  journal.filterMap fun
    | .read c id obj => some (c, id, obj)
    | _ => none

section Snoc

variable {journal : List (PoolEntry T)} {e : PoolEntry T}

@[simp] theorem grants_snoc : grants (journal ++ [e]) = grants journal ++ grants [e] :=
  List.filterMap_append

@[simp] theorem takes_snoc : takes (journal ++ [e]) = takes journal ++ takes [e] :=
  List.filterMap_append

@[simp] theorem writes_snoc : writes (journal ++ [e]) = writes journal ++ writes [e] :=
  List.filterMap_append

@[simp] theorem reads_snoc : reads (journal ++ [e]) = reads journal ++ reads [e] :=
  List.filterMap_append

/-- An entry that is no grant adds none. -/
theorem grants_quiet (quiet : grants [e] = []) : grants (journal ++ [e]) = grants journal := by
  rw [grants_snoc, quiet, List.append_nil]

/-- An entry that is no take adds none. -/
theorem takes_quiet (quiet : takes [e] = []) : takes (journal ++ [e]) = takes journal := by
  rw [takes_snoc, quiet, List.append_nil]

/-- An entry that is no write adds none. -/
theorem writes_quiet (quiet : writes [e] = []) : writes (journal ++ [e]) = writes journal := by
  rw [writes_snoc, quiet, List.append_nil]

/-- An entry that is no read adds none. -/
theorem reads_quiet (quiet : reads [e] = []) : reads (journal ++ [e]) = reads journal := by
  rw [reads_snoc, quiet, List.append_nil]

/-- An entry that is no grant adds none to a producer. -/
theorem grantsOf_quiet (quiet : grants [e] = []) (p : Nat) :
    grantsOf p (journal ++ [e]) = grantsOf p journal := by
  rw [grantsOf, grants_quiet quiet, grantsOf]

/-- An entry that is no take adds none to a consumer. -/
theorem takesOf_quiet (quiet : takes [e] = []) (c : Nat) :
    takesOf c (journal ++ [e]) = takesOf c journal := by
  rw [takesOf, takes_quiet quiet, takesOf]

/-- An entry that is no write adds none to a producer. -/
theorem writesOf_quiet (quiet : writes [e] = []) (p : Nat) :
    writesOf p (journal ++ [e]) = writesOf p journal := by
  rw [writesOf, writes_quiet quiet, writesOf]

/-- A grant goes to its producer. -/
theorem grantsOf_granted (p q : Nat) (segment : Segment) :
    grantsOf q (journal ++ [.granted p segment]) =
      grantsOf q journal ++ if p = q then [segment] else [] := by
  -- The last entry is a grant of the one producer, and of no other.
  simp only [grantsOf, grants_snoc, List.filterMap_append]
  by_cases same : p = q <;> simp [grants, same]

/-- A take is of its consumer. -/
theorem takesOf_took (c d : Nat) (segment : Segment) :
    takesOf d (journal ++ [.took c segment]) =
      takesOf d journal ++ if c = d then [segment] else [] := by
  -- The last entry is a take of the one consumer, and of no other.
  simp only [takesOf, takes_snoc, List.filterMap_append]
  by_cases same : c = d <;> simp [takes, same]

/-- A write is of its producer. -/
theorem writesOf_wrote (p q id : Nat) (obj : T) :
    writesOf q (journal ++ [.wrote p id obj]) =
      writesOf q journal ++ if p = q then [(id, obj)] else [] := by
  -- The last entry is a write of the one producer, and of no other.
  simp only [writesOf, writes_snoc, List.filterMap_append]
  by_cases same : p = q <;> simp [writes, same]

end Snoc

/-- A segment was granted to a producer if the grant is in the journal. -/
theorem mem_grantsOf {p : Nat} {segment : Segment} {journal : List (PoolEntry T)} :
    segment ∈ grantsOf p journal ↔ (p, segment) ∈ grants journal := by
  simp [grantsOf]

/-- A segment was taken by a consumer if the take is in the journal. -/
theorem mem_takesOf {c : Nat} {segment : Segment} {journal : List (PoolEntry T)} :
    segment ∈ takesOf c journal ↔ (c, segment) ∈ takes journal := by
  simp [takesOf]

/-- A task was written by a producer if the write is in the journal. -/
theorem mem_writesOf {p : Nat} {write : Nat × T} {journal : List (PoolEntry T)} :
    write ∈ writesOf p journal ↔ (p, write) ∈ writes journal := by
  simp [writesOf]

/-- What a step can do, with what is noted of it. -/
inductive Pool.Does (pool : Pool T) : Pool T → Option (PoolEntry T) → Prop
  -- A producer goes on in its segment.
  | fills (p : Nat) (obj : T) (goesOn : ¬ pool.Asks p) :
    pool.Does (pool.advance p (pool.producers p).curWriteId (some obj)) none
  | grants (p : Nat) (obj : T) (asks : pool.Asks p) (room : (pool.announce p).queue.hasRoom) :
    pool.Does ((pool.announce p).grant p obj) (some (.granted p pool.queue.nextSegment))
  | refuses (p : Nat) (asks : pool.Asks p) (full : ¬ (pool.announce p).queue.hasRoom) :
    pool.Does (pool.announce p) (some (.refused p))
  | writes (p : Nat) (obj : T) (writing : (pool.producers p).writing = some obj) :
    pool.Does { pool.advance p ((pool.producers p).curWriteId + 1) none with
        queue := pool.queue.write (pool.producers p).curWriteId obj
        accepted := pool.accepted ++ [((pool.producers p).curWriteId, obj)] }
      (some (.wrote p (pool.producers p).curWriteId obj))
  | takes (c : Nat) (segment : Segment)
      (usedUp : (pool.consumers c).readableId ≤ (pool.consumers c).readId)
      (first : pool.queue.firstReadable = some segment) :
    pool.Does (pool.take c segment) (some (.took c segment))
  -- A consumer goes on in its segment.
  | empties (c : Nat) (unread : (pool.consumers c).readId < (pool.consumers c).readableId) :
    pool.Does { pool with
        consumers := Function.update pool.consumers c { pool.consumers c with reading := true } }
      none
  | reads (c : Nat) (called : (pool.consumers c).reading) :
    pool.Does { pool with
        consumers := Function.update pool.consumers c
          { pool.consumers c with readId := (pool.consumers c).readId + 1, reading := false }
        returned := pool.returned ++
          [((pool.consumers c).readId, pool.queue.read (pool.consumers c).readId)] }
      (some (.read c (pool.consumers c).readId (pool.queue.read (pool.consumers c).readId)))

/-- A step does one of these things, and its entry says which. -/
theorem Pool.does_of_step {pool next : Pool T} {label : PoolStep T}
    (stepped : (poolMachine T).step pool label = some next) :
    pool.Does next (poolEntry pool label) := by
  cases label with
  | callWrite p obj =>
    obtain ⟨idle, -⟩ := callWrite_cases stepped
    by_cases asks : pool.Asks p
    · have usedUp : (pool.producers p).curWriteId ≥ (pool.producers p).writableId := asks
      -- The answer depends on the guard, with the caller's segment announced.
      cases room : (pool.announce p).queue.hasRoom with
      | true =>
        have open_ : (pool.queue.publish (pool.producers p).writeId
          (pool.producers p).writableId).hasRoom = true := room
        have entry : poolEntry pool (.callWrite p obj) =
            some (.granted p pool.queue.nextSegment) := by
          simp only [poolEntry, if_pos usedUp, tryWriteSpace, open_, if_true, nextSegment,
            publish_writeId]
        have moved : (poolMachine T).step pool (.callWrite p obj) =
            some ((pool.announce p).grant p obj) := callWrite_granted idle asks room obj
        rw [moved, Option.some.injEq] at stepped
        rw [entry, ← stepped]
        exact .grants p obj asks room
      | false =>
        have shut : (pool.queue.publish (pool.producers p).writeId
          (pool.producers p).writableId).hasRoom = false := room
        have entry : poolEntry pool (.callWrite p obj) = some (.refused p) := by
          simp only [poolEntry, if_pos usedUp, tryWriteSpace, shut, Bool.false_eq_true, if_false]
        have moved : (poolMachine T).step pool (.callWrite p obj) = some (pool.announce p) :=
          callWrite_refused idle asks (by simp [room]) obj
        rw [moved, Option.some.injEq] at stepped
        rw [entry, ← stepped]
        exact .refuses p asks (by simp [room])
    · have more : ¬ (pool.producers p).curWriteId ≥ (pool.producers p).writableId := asks
      obtain ⟨-, ⟨-, rfl⟩ | ⟨now, -⟩ | ⟨now, -⟩⟩ := callWrite_cases stepped
      · simp only [poolEntry, if_neg more]
        exact .fills p obj asks
      · exact absurd now asks
      · exact absurd now asks
  | writeSlot p =>
    obtain ⟨obj, writing, rfl⟩ := Option.map_eq_some_iff.mp stepped
    simp only [poolEntry, writing, Option.map_some]
    exact .writes p obj writing
  | callRead c =>
    obtain ⟨usedUp, space, first, rfl⟩ | ⟨unread, rfl⟩ := callRead_cases stepped
    · -- The caller takes the first readable segment.
      simp only [poolEntry, if_pos usedUp, tryReadSpaceByCV, first, Option.map_some]
      exact .takes c space usedUp first
    · simp only [poolEntry, if_neg (Nat.not_le_of_lt unread)]
      exact .empties c unread
  | readSlot c =>
    obtain ⟨called, rfl⟩ := Pool.readSlot_eq_some.mp stepped
    exact .reads c called

/-- A step of the pool with a journal does one of these things, and makes the entry. -/
theorem journaledPool_cases {pool next : Pool T} {journal after : List (PoolEntry T)}
    {label : PoolStep T}
    (stepped : (journaledPool T).step (pool, journal) label = some (next, after)) :
    (poolMachine T).step pool label = some next ∧
      ∃ entry, pool.Does next entry ∧ after = journal ++ entry.toList := by
  -- The journal adds the entry to the step of the pool.
  obtain ⟨moved, made⟩ := Machine.journaling_step.mp stepped
  exact ⟨moved, _, Pool.does_of_step moved, made⟩

end EnhancedProxy
