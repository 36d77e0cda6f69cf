import EnhancedProxy.Library.CondVar
import EnhancedProxy.ThreadPool.Overwrite

/-! The condition variable on which consumers wait for a readable segment. -/

namespace EnhancedProxy

open CircleQueue

/-- A pool with its condition variable `isEmpty`, and how far the calls have come that lock: which
consumers are inside `wait`, and who has unlocked and has still to notify. -/
structure WaitingPool (T : Type) where
  pool : Pool T
  isEmpty : CondVar Nat := {}
  inWait : Nat → Bool := fun _ => false
  writeNotifies : Nat → Bool := fun _ => false
  readNotifies : Nat → Bool := fun _ => false

/-- The atomic steps of the threads. A notification names the consumer that it lets go on, if there
is one, and a consumer may also go on without a notification. -/
inductive WaitStep (T : Type)
  | callWrite (p : Nat) (obj : T)
  | notifyWritten (p : Nat) (choice : Option Nat)
  | writeSlot (p : Nat)
  | callRead (c : Nat)
  | wake (c : Nat)
  | lockAgain (c : Nat)
  | notifyRead (c : Nat) (choice : Option Nat)
  | readSlot (c : Nat)
  deriving DecidableEq, Repr

namespace WaitingPool

variable {T : Type}

/-- Nothing has happened, and nobody waits. -/
def new [Inhabited T] : WaitingPool T := { pool := Pool.new }

/-- `Producer::write` up to its slot: the locked part of `tryWriteSpace`, if it is called. -/
def callWrite (s : WaitingPool T) (p : Nat) (obj : T) : Option (WaitingPool T) :=
  if s.writeNotifies p then none
  else (s.pool.callWrite p obj).map fun pool =>
    -- A producer with ids left calls nothing, and so notifies nobody.
    { s with
      pool := pool
      writeNotifies := Function.update s.writeNotifies p (decide (s.pool.Asks p)) }

/-- The `notify_one` of `tryWriteSpace`, after it has unlocked. -/
def notifyWritten (s : WaitingPool T) (p : Nat) (choice : Option Nat) : Option (WaitingPool T) :=
  if s.writeNotifies p then
    (s.isEmpty.notifyOne choice).map fun isEmpty =>
      { s with
        isEmpty := isEmpty
        writeNotifies := Function.update s.writeNotifies p false }
  else none

/-- The end of `Producer::write`, with the call to `tryWriteSpace` done. -/
def writeSlot (s : WaitingPool T) (p : Nat) : Option (WaitingPool T) :=
  if s.writeNotifies p then none
  else (s.pool.writeSlot p).map fun pool => { s with pool := pool }

/-- The locked part of `tryReadSpaceByCV`: take the first segment, or wait for one. -/
def takeOrWait (s : WaitingPool T) (c : Nat) : WaitingPool T :=
  match s.pool.callRead c with
  | some pool =>
    { s with
      pool := pool
      inWait := Function.update s.inWait c false
      readNotifies := Function.update s.readNotifies c true }
  | none =>
    -- Nothing is readable, so the caller releases the lock and blocks, in one step.
    { s with
      isEmpty := s.isEmpty.wait c
      inWait := Function.update s.inWait c true }

/-- `Consumer::read` up to its slot: `tryReadSpaceByCV`, if the last segment is used up. -/
def callRead (s : WaitingPool T) (c : Nat) : Option (WaitingPool T) :=
  let consumer := s.pool.consumers c
  if s.inWait c ∨ s.readNotifies c ∨ consumer.reading then none
  else if consumer.readId ≥ consumer.readableId then some (s.takeOrWait c)
  else (s.pool.callRead c).map fun pool => { s with pool := pool }

/-- A consumer that is not blocked any more holds the lock again, and tests the set again. -/
def lockAgain (s : WaitingPool T) (c : Nat) : Option (WaitingPool T) :=
  if s.inWait c ∧ c ∉ s.isEmpty.blocked then some (s.takeOrWait c) else none

/-- The `notify_one` of `tryReadSpaceByCV`, after it has unlocked. -/
def notifyRead (s : WaitingPool T) (c : Nat) (choice : Option Nat) : Option (WaitingPool T) :=
  if s.readNotifies c then
    (s.isEmpty.notifyOne choice).map fun isEmpty =>
      { s with
        isEmpty := isEmpty
        readNotifies := Function.update s.readNotifies c false }
  else none

/-- The end of `Consumer::read`, with the call to `tryReadSpaceByCV` done. -/
def readSlot (s : WaitingPool T) (c : Nat) : Option (WaitingPool T) :=
  if s.readNotifies c then none
  else (s.pool.readSlot c).map fun pool => { s with pool := pool }

variable {s next : WaitingPool T} {p c : Nat} {obj : T} {choice : Option Nat}

-- A thread with a notification to make does that first.

theorem callWrite_eq_some :
    s.callWrite p obj = some next ↔ ¬ s.writeNotifies p ∧
      ∃ pool, s.pool.callWrite p obj = some pool ∧
        { s with
          pool := pool
          writeNotifies := Function.update s.writeNotifies p (decide (s.pool.Asks p)) } = next := by
  rw [callWrite, Option.ite_none_left_eq_some, Option.map_eq_some_iff]

theorem notifyWritten_eq_some :
    s.notifyWritten p choice = some next ↔ s.writeNotifies p ∧
      ∃ isEmpty, s.isEmpty.notifyOne choice = some isEmpty ∧
        { s with
          isEmpty := isEmpty
          writeNotifies := Function.update s.writeNotifies p false } = next := by
  rw [notifyWritten, Option.ite_none_right_eq_some, Option.map_eq_some_iff]

theorem writeSlot_eq_some :
    s.writeSlot p = some next ↔ ¬ s.writeNotifies p ∧
      ∃ pool, s.pool.writeSlot p = some pool ∧ { s with pool := pool } = next := by
  rw [writeSlot, Option.ite_none_left_eq_some, Option.map_eq_some_iff]

/-- A consumer at the end of its segment tests the set, and another goes on in its segment. -/
theorem callRead_cases (called : s.callRead c = some next) :
    ¬ s.inWait c ∧ ¬ (s.pool.consumers c).reading ∧
      ((s.pool.consumers c).readableId ≤ (s.pool.consumers c).readId ∧ next = s.takeOrWait c ∨
        ¬ (s.pool.consumers c).readableId ≤ (s.pool.consumers c).readId ∧
          ∃ pool, s.pool.callRead c = some pool ∧ next = { s with pool := pool }) := by
  -- The cursor decides: at the end of the segment the consumer takes another or waits.
  simp only [callRead, Option.ite_none_left_eq_some] at called
  obtain ⟨outside, called⟩ := called
  rw [not_or, not_or] at outside
  refine ⟨outside.1, outside.2.2, ?_⟩
  split at called
  · rename_i usedUp
    cases called
    exact .inl ⟨usedUp, rfl⟩
  · rename_i goesOn
    obtain ⟨pool, moved, rfl⟩ := Option.map_eq_some_iff.mp called
    exact .inr ⟨goesOn, pool, moved, rfl⟩

theorem lockAgain_eq_some :
    s.lockAgain c = some next ↔
      (s.inWait c ∧ c ∉ s.isEmpty.blocked) ∧ s.takeOrWait c = next := by
  rw [lockAgain, Option.ite_none_right_eq_some, Option.some.injEq]

theorem notifyRead_eq_some :
    s.notifyRead c choice = some next ↔ s.readNotifies c ∧
      ∃ isEmpty, s.isEmpty.notifyOne choice = some isEmpty ∧
        { s with
          isEmpty := isEmpty
          readNotifies := Function.update s.readNotifies c false } = next := by
  rw [notifyRead, Option.ite_none_right_eq_some, Option.map_eq_some_iff]

theorem readSlot_eq_some :
    s.readSlot c = some next ↔ ¬ s.readNotifies c ∧
      ∃ pool, s.pool.readSlot c = some pool ∧ { s with pool := pool } = next := by
  rw [readSlot, Option.ite_none_left_eq_some, Option.map_eq_some_iff]

end WaitingPool

/-- The pool with its condition variable as a machine, in which these consumers take part. -/
def waitingMachine (T : Type) (group : Finset Nat) : Machine (WaitingPool T) (WaitStep T) where
  step s
    | .callWrite p obj => s.callWrite p obj
    | .notifyWritten p choice => s.notifyWritten p choice
    | .writeSlot p => s.writeSlot p
    | .callRead c => if c ∈ group then s.callRead c else none
    -- Spurious wake-ups are those that nobody has asked for.
    | .wake c => (s.isEmpty.wake c).map fun isEmpty => { s with isEmpty := isEmpty }
    | .lockAgain c => s.lockAgain c
    | .notifyRead c choice => s.notifyRead c choice
    | .readSlot c => s.readSlot c

/-- A segment is readable while every consumer is blocked and nobody has still to notify. -/
def WaitingPool.Lost {T : Type} (s : WaitingPool T) (group : Finset Nat) : Prop :=
  s.pool.queue.readableQueue.Nonempty ∧ (∀ c ∈ group, c ∈ s.isEmpty.blocked) ∧
    (∀ p, s.writeNotifies p = false) ∧ ∀ c, s.readNotifies c = false

/-- Whoever waits is one of the consumers, at the end of its segment, and while a segment is
readable some consumer is free or some producer has still to notify. -/
structure Heard {T : Type} (group : Finset Nat) (s : WaitingPool T) : Prop where
  blocked : ∀ c ∈ s.isEmpty.blocked, s.inWait c = true
  waiting : ∀ c, s.inWait c = true → c ∈ group ∧ (s.pool.consumers c).reading = false ∧
    (s.pool.consumers c).readableId ≤ (s.pool.consumers c).readId
  heard : s.pool.queue.readableQueue.Nonempty →
    (∃ c ∈ group, c ∉ s.isEmpty.blocked) ∨ ∃ p, s.writeNotifies p = true

namespace Heard

variable {T : Type} {group : Finset Nat} {s next : WaitingPool T} {p c : Nat}

/-- Nobody waits at the start. -/
theorem start [Inhabited T] : Heard group (WaitingPool.new : WaitingPool T) where
  -- Nobody waits, and there is nothing to be heard of.
  blocked _ blocked := absurd blocked (Finset.notMem_empty _)
  waiting _ waits := Bool.noConfusion waits
  heard readable := absurd readable Finset.not_nonempty_empty

/-- While some consumer is free, no wake-up is lost. -/
theorem not_lost (heard : Heard group s) : ¬ s.Lost group := by
  rintro ⟨readable, blocked, written, -⟩
  -- Neither a free consumer nor a pending notification is left.
  rcases heard.heard readable with ⟨c, member, free⟩ | ⟨p, notifies⟩
  · exact free (blocked c member)
  · rw [written p] at notifies
    exact Bool.noConfusion notifies

/-- Only consumers are blocked. -/
theorem within (heard : Heard group s) (c : Nat) (blocked : c ∈ s.isEmpty.blocked) : c ∈ group :=
  (heard.waiting c (heard.blocked c blocked)).1

/-- What a producer does to the pool leaves the consumers as they were. -/
theorem callWrite_consumers {pool after : Pool T} {obj : T}
    (called : pool.callWrite p obj = some after) : after.consumers = pool.consumers := by
  -- Each branch touches the queue and the producers alone.
  obtain ⟨-, ⟨-, rfl⟩ | ⟨-, -, rfl⟩ | ⟨-, rfl⟩⟩ := Pool.callWrite_cases called
  · rfl
  · rfl
  · rfl

/-- Only a producer that asks for space makes anything readable. -/
theorem callWrite_readable_of_not_asks {pool after : Pool T} {obj : T} (goesOn : ¬ pool.Asks p)
    (called : pool.callWrite p obj = some after) :
    after.queue.readableQueue = pool.queue.readableQueue := by
  -- The other two branches belong to a producer that asks.
  obtain ⟨-, ⟨-, rfl⟩ | ⟨asks, -⟩ | ⟨asks, -⟩⟩ := Pool.callWrite_cases called
  · rfl
  · exact absurd asks goesOn
  · exact absurd asks goesOn

/-- A call to `write` that may have made a segment readable has still to notify. -/
theorem callWrite (heard : Heard group s) {obj : T} (called : s.callWrite p obj = some next) :
    Heard group next := by
  obtain ⟨silent, pool, moved, rfl⟩ := WaitingPool.callWrite_eq_some.mp called
  refine ⟨heard.blocked, fun c waits => ?_, fun readable => ?_⟩
  · rw [callWrite_consumers moved]
    exact heard.waiting c waits
  · by_cases asks : s.pool.Asks p
    · exact .inr ⟨p, by simp [asks]⟩
    · rw [callWrite_readable_of_not_asks asks moved] at readable
      refine (heard.heard readable).imp id fun ⟨q, notifies⟩ => ⟨q, ?_⟩
      -- The caller had nobody to notify, and still has not.
      have other : q ≠ p := by
        rintro rfl
        exact silent notifies
      show Function.update s.writeNotifies p _ q = true
      rw [Function.update_of_ne other]
      exact notifies

/-- A notification leaves some consumer free, whoever makes it. -/
theorem notify (heard : Heard group s) (some_ : group.Nonempty) {choice : Option Nat}
    {isEmpty : CondVar Nat} (notified : s.isEmpty.notifyOne choice = some isEmpty)
    (writeNotifies readNotifies : Nat → Bool) :
    Heard group { s with
      isEmpty := isEmpty
      writeNotifies := writeNotifies
      readNotifies := readNotifies } where
  -- Whoever is blocked now was blocked before, and somebody of the group is free.
  blocked c blocked := heard.blocked c (CondVar.mem_of_notifyOne notified blocked)
  waiting := heard.waiting
  heard _ := .inl (CondVar.exists_free_of_notifyOne some_ heard.within notified)

/-- A consumer that tests the set is free if it finds a segment, and otherwise blocked on a set that
is empty. -/
theorem takeOrWait (heard : Heard group s) (member : c ∈ group) (free : c ∉ s.isEmpty.blocked)
    (idle : (s.pool.consumers c).reading = false)
    (usedUp : (s.pool.consumers c).readableId ≤ (s.pool.consumers c).readId) :
    Heard group (s.takeOrWait c) := by
  unfold WaitingPool.takeOrWait
  cases called : s.pool.callRead c with
  | some pool =>
    -- The caller goes on, and so is there to hear of whatever else is readable.
    rcases Pool.callRead_cases called with ⟨-, segment, -, rfl⟩ | ⟨unread, -⟩
    · refine ⟨fun d blocked => ?_, fun d waits => ?_, fun _ => .inl ⟨c, member, free⟩⟩
      · -- Whoever is blocked is another consumer.
        have other : d ≠ c := by
          rintro rfl
          exact free blocked
        show Function.update s.inWait c false d = true
        rw [Function.update_of_ne other]
        exact heard.blocked d blocked
      · have other : d ≠ c := by
          rintro rfl
          simp at waits
        replace waits : Function.update s.inWait c false d = true := waits
        rw [Function.update_of_ne other] at waits
        simp only [Function.update_of_ne other]
        exact heard.waiting d waits
    · exact absurd usedUp (Nat.not_le_of_lt unread)
  | none =>
    -- The caller blocks only with nothing readable, so that there is nothing to be heard of.
    have empty : s.pool.queue.readableQueue = ∅ := by
      have none_ : s.pool.queue.tryReadSpaceByCV = none := by
        simpa [Pool.callRead, idle, usedUp] using called
      exact firstReadable_eq_none.mp (by simpa [tryReadSpaceByCV] using none_)
    refine ⟨fun d blocked => ?_, fun d waits => ?_, fun readable => ?_⟩
    · show Function.update s.inWait c true d = true
      -- The caller is inside `wait` from now on, and so is whoever was blocked before.
      by_cases caller : d = c
      · subst caller
        exact Function.update_self _ _ _
      · rw [Function.update_of_ne caller]
        exact heard.blocked d ((CondVar.mem_wait.mp blocked).resolve_left caller)
    · replace waits : Function.update s.inWait c true d = true := waits
      by_cases caller : d = c
      · subst caller
        exact ⟨member, idle, usedUp⟩
      · rw [Function.update_of_ne caller] at waits
        exact heard.waiting d waits
    · exact absurd readable (Finset.not_nonempty_iff_eq_empty.mpr empty)

/-- A consumer that is reading waits for nothing. -/
theorem not_inWait_of_reading (heard : Heard group s)
    (reading : (s.pool.consumers c).reading = true) {d : Nat} (waits : s.inWait d = true) :
    d ≠ c := by
  -- Who waits is not in the middle of a read.
  rintro rfl
  rw [(heard.waiting d waits).2.1] at reading
  exact Bool.noConfusion reading

/-- Every step leaves some consumer free or some producer to notify, while a segment is readable. -/
theorem step (heard : Heard group s) (some_ : group.Nonempty) {label : WaitStep T}
    (stepped : (waitingMachine T group).step s label = some next) : Heard group next := by
  -- One case for each atomic step.
  cases label with
  | callWrite p obj => exact heard.callWrite stepped
  | notifyWritten p choice =>
    obtain ⟨-, isEmpty, notified, rfl⟩ := WaitingPool.notifyWritten_eq_some.mp stepped
    exact heard.notify some_ notified _ _
  | writeSlot p =>
    obtain ⟨-, pool, moved, rfl⟩ := WaitingPool.writeSlot_eq_some.mp stepped
    obtain ⟨obj, -, rfl⟩ := Option.map_eq_some_iff.mp moved
    exact ⟨heard.blocked, heard.waiting, heard.heard⟩
  | callRead c =>
    obtain ⟨member, called⟩ := Option.ite_none_right_eq_some.mp stepped
    obtain ⟨out, idle, ⟨usedUp, rfl⟩ | ⟨goesOn, pool, moved, rfl⟩⟩ :=
      WaitingPool.callRead_cases called
    · exact heard.takeOrWait member (fun blocked => out (heard.blocked c blocked))
        (Bool.eq_false_iff.mpr idle) usedUp
    · rcases Pool.callRead_cases moved with ⟨usedUp, -⟩ | ⟨-, rfl⟩
      · exact absurd usedUp goesOn
      · -- The consumer goes on in its segment.
        refine ⟨heard.blocked, fun d waits => ?_, heard.heard⟩
        have other : d ≠ c := by
          rintro rfl
          exact out waits
        simp only [Function.update_of_ne other]
        exact heard.waiting d waits
  | wake c =>
    obtain ⟨isEmpty, woken, rfl⟩ := Option.map_eq_some_iff.mp stepped
    -- The consumer that wakes up is free to test the set.
    refine ⟨fun d blocked => heard.blocked d ((CondVar.mem_of_wake woken).mp blocked).2,
      heard.waiting, fun _ => .inl ⟨c, ?_, fun still => ?_⟩⟩
    · exact heard.within c (CondVar.blocked_of_wake woken)
    · exact ((CondVar.mem_of_wake woken).mp still).1 rfl
  | lockAgain c =>
    obtain ⟨ready, rfl⟩ := WaitingPool.lockAgain_eq_some.mp stepped
    obtain ⟨member, idle, usedUp⟩ := heard.waiting c ready.1
    exact heard.takeOrWait member ready.2 idle usedUp
  | notifyRead c choice =>
    obtain ⟨-, isEmpty, notified, rfl⟩ := WaitingPool.notifyRead_eq_some.mp stepped
    exact heard.notify some_ notified _ _
  | readSlot c =>
    obtain ⟨-, pool, moved, rfl⟩ := WaitingPool.readSlot_eq_some.mp stepped
    obtain ⟨reading, rfl⟩ := Pool.readSlot_eq_some.mp moved
    -- Whoever reads waits for nothing.
    refine ⟨heard.blocked, fun d waits => ?_, heard.heard⟩
    simp only [Function.update_of_ne (heard.not_inWait_of_reading reading waits)]
    exact heard.waiting d waits

end Heard

namespace WaitingPool

variable {T : Type} {group : Finset Nat} {s : WaitingPool T} {p : Nat} {obj : T} {pool : Pool T}

/-- A producer that goes on in its segment notifies nobody. -/
theorem run_write (goesOn : ¬ s.pool.Asks p) (silent : s.writeNotifies p = false)
    (ran : (poolMachine T).run s.pool [.callWrite p obj, .writeSlot p] = some pool) :
    (waitingMachine T group).run s [.callWrite p obj, .writeSlot p] =
      some { s with pool := pool } := by
  obtain ⟨called, stepped, wrote⟩ := Option.bind_eq_some_iff.mp ran
  obtain ⟨last, steppedToo, ended⟩ := Option.bind_eq_some_iff.mp wrote
  cases ended
  -- The call asks for nothing, so the flag stays down.
  have same : Function.update s.writeNotifies p (decide (s.pool.Asks p)) = s.writeNotifies := by
    rw [decide_eq_false goesOn, ← silent, Function.update_eq_self]
  have first : (waitingMachine T group).step s (.callWrite p obj) =
      some { s with pool := called } := by
    refine callWrite_eq_some.mpr ⟨by simp [silent], called, stepped, ?_⟩
    rw [same]
  have second : (waitingMachine T group).step { s with pool := called } (.writeSlot p) =
      some { s with pool := pool } :=
    writeSlot_eq_some.mpr ⟨by simp [silent], pool, steppedToo, rfl⟩
  rw [Machine.run_cons, first, Option.bind_some, Machine.run_cons, second]
  rfl

/-- A new producer's first task is written after a notification that reaches nobody. -/
theorem run_first (empty : s.pool.queue.readableQueue = ∅) (fresh : s.pool.producers p = {})
    (nobody : s.isEmpty.blocked = ∅) (silent : s.writeNotifies p = false) (obj : T) :
    (waitingMachine T group).run s [.callWrite p obj, .notifyWritten p none, .writeSlot p] =
      some { s with pool := s.pool.afterFirst p obj } := by
  have asks : s.pool.Asks p := by rw [Pool.Asks, fresh]
  have first : (waitingMachine T group).step s (.callWrite p obj) = some { s with
      pool := s.pool.grant p obj
      writeNotifies := Function.update s.writeNotifies p true } := by
    refine callWrite_eq_some.mpr ⟨by simp [silent], _, callWrite_fresh empty fresh obj, ?_⟩
    rw [decide_eq_true asks]
  have second : (waitingMachine T group).step { s with
      pool := s.pool.grant p obj
      writeNotifies := Function.update s.writeNotifies p true } (.notifyWritten p none) =
        some { s with pool := s.pool.grant p obj } := by
    refine notifyWritten_eq_some.mpr ⟨by simp, s.isEmpty, ?_, ?_⟩
    · exact CondVar.notifyOne_none.mpr ⟨nobody, rfl⟩
    · -- The flag is down again.
      rw [Function.update_idem, ← silent, Function.update_eq_self]
  obtain ⟨called, stepped, wrote⟩ := Option.bind_eq_some_iff.mp (run_fresh empty fresh obj)
  obtain ⟨last, steppedToo, ended⟩ := Option.bind_eq_some_iff.mp wrote
  cases ended
  obtain rfl : s.pool.grant p obj = called :=
    Option.some.inj ((callWrite_fresh empty fresh obj).symm.trans stepped)
  have third : (waitingMachine T group).step { s with pool := s.pool.grant p obj }
      (.writeSlot p) = some { s with pool := s.pool.afterFirst p obj } :=
    writeSlot_eq_some.mpr ⟨by simp [silent], _, steppedToo, rfl⟩
  rw [Machine.run_cons, first, Option.bind_some, Machine.run_cons, second, Option.bind_some,
    Machine.run_cons, third]
  rfl

end WaitingPool

/-- One producer fills the first segment while nobody waits. -/
def fillAwake : Nat → List (WaitStep Nat)
  | 0 => [.callWrite 0 0, .notifyWritten 0 none, .writeSlot 0]
  | tasks + 1 => fillAwake tasks ++ [.callWrite 0 1, .writeSlot 0]

/-- The segment fills up as it does without the condition variable. -/
theorem fillAwake_run (tasks : Nat) (fits : tasks < trySize) :
    ∃ pool : Pool Nat, (poolMachine Nat).run Pool.new (fillFirst tasks) = some pool ∧
      (waitingMachine Nat {0}).run WaitingPool.new (fillAwake tasks) =
        some { pool := pool } := by
  induction tasks with
  | zero =>
    rw [fillFirst, fillAwake]
    exact ⟨_, run_fresh rfl rfl 0, WaitingPool.run_first rfl rfl rfl rfl 0⟩
  | succ tasks ih =>
    obtain ⟨pool, ran, ranAwake⟩ := ih (by omega)
    obtain ⟨filled, ranToo, -, -, first, -⟩ := fillFirst_run tasks (by omega)
    obtain rfl : pool = filled := Option.some.inj (ran.symm.trans ranToo)
    have goesOn : ¬ pool.Asks 0 := by
      rw [Pool.Asks, first]
      simp only [trySize] at *
      omega
    -- The next task goes to the same segment.
    have wrote := run_goesOn goesOn (by rw [first]) 1
    rw [fillFirst, fillAwake]
    exact ⟨_, Machine.run_trans _ ran wrote,
      Machine.run_trans _ ranAwake (WaitingPool.run_write goesOn rfl wrote)⟩

/-- The one consumer waits before the full segment is announced. -/
def announceAsleep : List (WaitStep Nat) := fillAwake 1023 ++ [.callRead 0, .callWrite 0 1]

/-- The producer's notification then wakes the consumer, which takes the segment and reads. -/
def wakeAndRead : List (WaitStep Nat) :=
  announceAsleep ++ [.notifyWritten 0 (some 0), .lockAgain 0, .notifyRead 0 none, .readSlot 0]

/-- The consumer is blocked, and the producer has announced its segment and has still to notify. -/
def WaitingPool.asleep (pool : Pool Nat) : WaitingPool Nat where
  pool := pool
  isEmpty := ⟨{0}⟩
  inWait := Function.update (fun _ => false) 0 true
  writeNotifies := Function.update (fun _ => false) 0 true

/-- The segment is readable while the consumer is blocked, and the producer has still to notify. -/
theorem announceAsleep_run :
    ∃ pool : Pool Nat, pool.queue.readableQueue = {⟨0, trySize⟩} ∧
      pool.queue.circleArray 0 = 0 ∧ pool.consumers 0 = {} ∧ pool.returned = [] ∧
      (waitingMachine Nat {0}).run WaitingPool.new announceAsleep = some (.asleep pool) := by
  obtain ⟨full, ran, ranAwake⟩ := fillAwake_run 1023 (by decide)
  obtain ⟨filled, ranToo, waits, next, own, -, unread, -, idle⟩ := fillFirst_run 1023 (by decide)
  obtain rfl : full = filled := Option.some.inj (ran.symm.trans ranToo)
  obtain ⟨asks, granted, readable, stored⟩ := waits.callWrite next own
  -- Nothing is readable when the consumer looks, and the producer's next call announces it.
  have none_ : full.callRead 0 = none := by
    simp [Pool.callRead, idle, tryReadSpaceByCV, firstReadable, waits.empty]
  have announced : (waitingMachine Nat {0}).run { pool := full } [.callRead 0, .callWrite 0 1] =
      some (.asleep ((full.announce 0).grant 0 1)) := by
    simp [Machine.run_cons, waitingMachine, WaitingPool.callRead, WaitingPool.takeOrWait, none_,
      idle, CondVar.wait, WaitingPool.callWrite, granted, asks, WaitingPool.asleep]
  rw [announceAsleep]
  exact ⟨_, readable, stored, congrFun idle 0, unread, Machine.run_trans _ ranAwake announced⟩

/-- The notification frees the consumer, which finds the segment and returns its first task. -/
theorem wakeAndRead_run :
    ∃ s, (waitingMachine Nat {0}).run WaitingPool.new wakeAndRead = some s ∧
      s.pool.returned = [(0, 0)] := by
  -- The consumer asleep is woken, takes the announced segment and reads its first slot.
  obtain ⟨pool, readable, stored, fresh, unread, ran⟩ := announceAsleep_run
  have took := callRead_first readable fresh
  have read := readSlot_first stored 0
  have woke : (waitingMachine Nat {0}).run (.asleep pool)
      [.notifyWritten 0 (some 0), .lockAgain 0, .notifyRead 0 none, .readSlot 0] =
        some { pool := pool.readFirst 0 } := by
    simp [Machine.run_cons, waitingMachine, WaitingPool.asleep, WaitingPool.notifyWritten,
      CondVar.notifyOne, CondVar.wake, WaitingPool.lockAgain, WaitingPool.takeOrWait, took,
      WaitingPool.notifyRead, WaitingPool.readSlot, read]
  refine ⟨_, Machine.run_trans _ ran woke, ?_⟩
  show pool.returned ++ [(0, 0)] = _
  rw [unread, List.nil_append]

/-- In every run with at least one consumer, no segment stays readable while all consumers are
blocked and nobody has still to notify. -/
theorem wakeup_not_lost {T : Type} [Inhabited T] {group : Finset Nat} (some_ : group.Nonempty)
    (labels : List (WaitStep T)) :
    (waitingMachine T group).Always (fun s => ¬ s.Lost group) WaitingPool.new labels := by
  -- In every state some consumer has heard of what is readable, or is about to.
  intro front reached isFront ran
  exact Heard.not_lost (Machine.run_invariant
    (fun _ _ _ (heard : Heard group _) stepped => heard.step some_ stepped) Heard.start ran)

/-- A segment that is announced while the single consumer waits is taken and read. -/
theorem wakeup_not_lost_wakeAndRead :
    (∃ s, (waitingMachine Nat {0}).run WaitingPool.new announceAsleep = some s ∧
      s.pool.queue.readableQueue.Nonempty ∧ 0 ∈ s.isEmpty.blocked) ∧
    (∃ s, (waitingMachine Nat {0}).run WaitingPool.new wakeAndRead = some s ∧
      s.pool.returned = [(0, 0)]) ∧
    (waitingMachine Nat {0}).Always (fun s => ¬ s.Lost {0}) WaitingPool.new wakeAndRead := by
  -- The segment becomes readable while the consumer is blocked, and before it is notified.
  refine ⟨?_, wakeAndRead_run, wakeup_not_lost (Finset.singleton_nonempty 0) wakeAndRead⟩
  obtain ⟨pool, readable, -, -, -, ran⟩ := announceAsleep_run
  exact ⟨_, ran, readable ▸ Finset.singleton_nonempty _, Finset.mem_singleton_self 0⟩

namespace WaitingPool

variable {T : Type} {group : Finset Nat} {s next : WaitingPool T}

/-- The test of a consumer is a step of the pool, or leaves the pool as it was. -/
theorem takeOrWait_pool (c : Nat) :
    (s.takeOrWait c).pool = s.pool ∨
      (poolMachine T).step s.pool (.callRead c) = some (s.takeOrWait c).pool := by
  -- Only a test that finds a segment is a step of the pool.
  unfold takeOrWait
  cases called : s.pool.callRead c with
  | some pool => exact .inr called
  | none => exact .inl rfl

/-- A step with the condition variable is a step of the pool, or leaves the pool as it was. -/
theorem pool_step {label : WaitStep T}
    (stepped : (waitingMachine T group).step s label = some next) :
    next.pool = s.pool ∨ ∃ label, (poolMachine T).step s.pool label = some next.pool := by
  cases label with
  | callWrite p obj =>
    obtain ⟨-, pool, moved, rfl⟩ := callWrite_eq_some.mp stepped
    exact .inr ⟨.callWrite p obj, moved⟩
  | writeSlot p =>
    obtain ⟨-, pool, moved, rfl⟩ := writeSlot_eq_some.mp stepped
    exact .inr ⟨.writeSlot p, moved⟩
  | callRead c =>
    obtain ⟨-, called⟩ := Option.ite_none_right_eq_some.mp stepped
    obtain ⟨-, -, ⟨-, rfl⟩ | ⟨-, pool, moved, rfl⟩⟩ := callRead_cases called
    · exact (takeOrWait_pool c).imp id fun moved => ⟨_, moved⟩
    · exact .inr ⟨.callRead c, moved⟩
  | lockAgain c =>
    obtain ⟨-, rfl⟩ := lockAgain_eq_some.mp stepped
    exact (takeOrWait_pool c).imp id fun moved => ⟨_, moved⟩
  | readSlot c =>
    obtain ⟨-, pool, moved, rfl⟩ := readSlot_eq_some.mp stepped
    exact .inr ⟨.readSlot c, moved⟩
  -- The condition variable is no part of the pool.
  | wake c =>
    obtain ⟨isEmpty, -, rfl⟩ := Option.map_eq_some_iff.mp stepped
    exact .inl rfl
  | notifyWritten p choice =>
    obtain ⟨-, isEmpty, -, rfl⟩ := notifyWritten_eq_some.mp stepped
    exact .inl rfl
  | notifyRead c choice =>
    obtain ⟨-, isEmpty, -, rfl⟩ := notifyRead_eq_some.mp stepped
    exact .inl rfl

/-- A run with the condition variable is a run of the pool, in which a read has been left out while
it waits. -/
theorem pool_run {labels : List (WaitStep T)}
    (ran : (waitingMachine T group).run s labels = some next) :
    ∃ poolLabels, (poolMachine T).run s.pool poolLabels = some next.pool := by
  induction labels generalizing s with
  | nil =>
    cases ran
    exact ⟨[], rfl⟩
  | cons label rest ih =>
    obtain ⟨middle, stepped, ranRest⟩ := Option.bind_eq_some_iff.mp ran
    obtain ⟨later, ranLater⟩ := ih ranRest
    -- A step that waits or notifies is left out.
    rcases pool_step stepped with same | ⟨first, moved⟩
    · exact ⟨later, same ▸ ranLater⟩
    · refine ⟨first :: later, ?_⟩
      rw [Machine.run_cons, moved]
      exact ranLater

end WaitingPool

end EnhancedProxy
