import EnhancedProxy.Library.CondVar
import EnhancedProxy.Library.Simulation
import EnhancedProxy.ModifiedMuduo.EventLoopThreadPool

/-! Starting the I/O threads: the base thread and the new threads, step by step. -/

namespace EnhancedProxy

/-- Where the base thread stands in `EventLoopThreadPool::start`. -/
inductive StarterPc
  -- Before the next pass of the loop, or after the last.
  | between
  -- In `startLoop`, before the test of `loop_`.
  | testing
  -- In `startLoop`, inside `wait`.
  | waiting
  -- In `startLoop`, after its loop.
  | returning
  deriving DecidableEq, Repr

/-- Where an I/O thread stands in `threadFunc`. -/
inductive ThreadPc
  -- Not started yet.
  | absent
  -- Before the test of `initCallback_`.
  | started
  -- Before `loop_` is set.
  | called
  -- In `loop.loop()`.
  | looping
  deriving DecidableEq, Repr

/-- A pool whose threads are being started, with the condition variable of each of them, on which
only the base thread waits. -/
structure PoolStart where
  pool : EventLoopThreadPool
  pc : StarterPc := .between
  threadPc : Nat → ThreadPc := fun _ => .absent
  cond : Nat → CondVar Unit := fun _ => {}

/-- The atomic steps of the base thread, and those of the I/O threads. -/
inductive StartStep
  -- A pass up to the lock in `startLoop`.
  | create
  -- The locked part of `startLoop`: return, or wait.
  | test
  -- The base thread goes on without a notification.
  | wake
  -- The rest of the pass.
  | finish
  -- The callback of an I/O thread.
  | callback (i : Nat)
  -- The locked part of `threadFunc`.
  | publish (i : Nat) (choice : Option Unit)
  deriving DecidableEq, Repr

namespace PoolStart

/-- `start` has been called. -/
def new (pool : EventLoopThreadPool) : PoolStart where
  pool := { pool with started := true }

/-- The number of the thread that is being started. -/
def current (s : PoolStart) : Nat := s.pool.threads.length - 1

/-- The `EventLoopThread` that is being started. -/
def thread (s : PoolStart) (addresses : Addresses) : EventLoopThread :=
  s.pool.threads.getD s.current { producer := addresses.uninitialized s.current }

/-- A pass up to the lock in `startLoop`. -/
def create (addresses : Addresses) (s : PoolStart) : Option PoolStart :=
  let i := s.pool.threads.length
  if s.pc = .between ∧ i < s.pool.numThreads then
    some { s with
      pool := { s.pool with
        threads := s.pool.threads ++ [{ producer := addresses.uninitialized i }] }
      pc := .testing
      threadPc := Function.update s.threadPc i .started }
  else none

/-- The locked part of `startLoop`. The lock is held again after `wait`. -/
def test (addresses : Addresses) (s : PoolStart) : Option PoolStart :=
  let i := s.current
  if s.pc = .testing ∨ s.pc = .waiting ∧ () ∉ (s.cond i).blocked then
    if (s.thread addresses).loop = none then
      some { s with
        pc := .waiting
        cond := Function.update s.cond i ((s.cond i).wait ()) }
    else some { s with pc := .returning }
  else none

/-- The end of a pass, which reads `loop_` without the lock. -/
def finish (addresses : Addresses) (s : PoolStart) : Option PoolStart :=
  if s.pc = .returning then
    let loop := (s.thread addresses).loop.getD 0
    some { s with
      pool := { s.pool with
        loops := s.pool.loops ++ [loop]
        producerMap :=
          Function.update s.pool.producerMap loop (some (s.thread addresses).producer) }
      pc := .between }
  else none

/-- `initCallback_`, if there is one. -/
def callback (addresses : Addresses) (cb : Option ThreadInitCallback) (s : PoolStart) (i : Nat) :
    Option PoolStart :=
  if s.threadPc i = .started then
    let thread := s.pool.threads.getD i { producer := addresses.uninitialized i }
    let made :=
      match cb with
      | some cb => cb s.pool.made thread.producer (addresses.loop i)
      | none => s.pool.made
    some { s with
      pool := { s.pool with made := made }
      threadPc := Function.update s.threadPc i .called }
  else none

/-- The locked part of `threadFunc`. -/
def publish (addresses : Addresses) (s : PoolStart) (i : Nat) (choice : Option Unit) :
    Option PoolStart :=
  if s.threadPc i = .called then
    ((s.cond i).notifyOne choice).map fun cond =>
      { s with
        pool := { s.pool with
          threads := s.pool.threads.modify i fun thread =>
            { thread with loop := some (addresses.loop i) } }
        threadPc := Function.update s.threadPc i .looping
        cond := Function.update s.cond i cond }
  else none

/-- All threads are started, and `start` returns. -/
def Done (s : PoolStart) : Prop :=
  s.pc = .between ∧ s.pool.numThreads ≤ s.pool.threads.length

end PoolStart

/-- The start of the threads as a machine. -/
def startMachine (addresses : Addresses) (cb : Option ThreadInitCallback) :
    Machine PoolStart StartStep where
  step s
    | .create => s.create addresses
    | .test => s.test addresses
    | .wake =>
      ((s.cond s.current).wake ()).map fun cond =>
        { s with cond := Function.update s.cond s.current cond }
    | .finish => s.finish addresses
    | .callback i => s.callback addresses cb i
    | .publish i choice => s.publish addresses i choice

namespace EventLoopThreadPool

/-- The pool after so many passes, each of which took place at one go. -/
def passes (addresses : Addresses) (cb : Option ThreadInitCallback) (pool : EventLoopThreadPool)
    (i : Nat) : EventLoopThreadPool :=
  (List.range i).foldl (startThread addresses cb) { pool with started := true }

variable {addresses : Addresses} {cb : Option ThreadInitCallback} {pool : EventLoopThreadPool}

/-- One more pass. -/
theorem passes_succ (i : Nat) :
    passes addresses cb pool (i + 1) = startThread addresses cb (passes addresses cb pool i) i := by
  -- The fold over one number more is the fold and then the last pass.
  rw [passes, List.range_succ, List.foldl_append]
  rfl

/-- The number of threads to be started stays as it is. -/
theorem passes_numThreads (i : Nat) :
    (passes addresses cb pool i).numThreads = pool.numThreads := by
  -- No pass touches the number of threads.
  induction i with
  | zero => rfl
  | succ i ih =>
    rw [passes_succ]
    exact ih

/-- Each pass adds a thread. -/
theorem passes_threads (none_ : pool.threads = []) (i : Nat) :
    (passes addresses cb pool i).threads.length = i := by
  -- Each pass appends one thread.
  induction i with
  | zero => exact congrArg List.length none_
  | succ i ih =>
    rw [passes_succ]
    simp only [startThread, EventLoopThread.startLoop, List.length_append, ih]
    rfl

/-- What the callback of a thread makes of the producers. -/
def initialized (addresses : Addresses) (cb : Option ThreadInitCallback) (i : Nat)
    (made : List MadeProducer) : List MadeProducer :=
  match cb with
  | some cb => cb made (addresses.uninitialized i) (addresses.loop i)
  | none => made

end EventLoopThreadPool

namespace PoolStart

open EventLoopThreadPool

variable {addresses : Addresses} {cb : Option ThreadInitCallback} {pool : EventLoopThreadPool}
  {s next : PoolStart} {i : Nat}

/-- The threads before this one are in their loops, and those after it are not started. -/
def Others (s : PoolStart) (i : Nat) : Prop :=
  ∀ j, j ≠ i → s.threadPc j = if j < i then .looping else .absent

/-- Between two passes, the pool is as if each pass had taken place at one go. -/
structure Between (addresses : Addresses) (cb : Option ThreadInitCallback)
    (pool : EventLoopThreadPool) (i : Nat) (s : PoolStart) : Prop where
  pc : s.pc = .between
  pool : s.pool = passes addresses cb pool i
  absent : s.threadPc i = .absent
  others : s.Others i
  quiet : ∀ j, () ∉ (s.cond j).blocked

/-- In a pass, the pool has what the new thread has done so far, and the base thread blocks only
before the thread has set its loop. -/
structure Passing (addresses : Addresses) (cb : Option ThreadInitCallback)
    (pool : EventLoopThreadPool) (i : Nat) (s : PoolStart) : Prop where
  pc : s.pc ≠ .between
  pool : s.pool = { passes addresses cb pool i with
    threads := (passes addresses cb pool i).threads ++
      [{ producer := addresses.uninitialized i,
         loop := if s.threadPc i = .looping then some (addresses.loop i) else none }]
    made :=
      if s.threadPc i = .started then (passes addresses cb pool i).made
      else initialized addresses cb i (passes addresses cb pool i).made }
  alive : s.threadPc i ≠ .absent
  others : s.Others i
  quiet : ∀ j, () ∈ (s.cond j).blocked → j = i ∧ s.pc = .waiting ∧ s.threadPc i ≠ .looping
  returning : s.pc = .returning → s.threadPc i = .looping

/-- The base thread is between two passes, or in one. -/
def Starts (addresses : Addresses) (cb : Option ThreadInitCallback) (pool : EventLoopThreadPool)
    (s : PoolStart) : Prop :=
  ∃ i, i ≤ pool.numThreads ∧ Between addresses cb pool i s ∨
    i < pool.numThreads ∧ Passing addresses cb pool i s

/-- No thread has been started yet. -/
theorem Between.start : Between addresses cb pool 0 (PoolStart.new pool) where
  -- Nothing has been created yet, and nobody waits.
  pc := rfl
  pool := rfl
  absent := rfl
  others _ _ := rfl
  quiet _ := Finset.notMem_empty _

/-- In a pass, the last thread of the pool is the one that is being started. -/
theorem Passing.current_eq (none_ : pool.threads = []) (passing : Passing addresses cb pool i s) :
    s.current = i := by
  -- The pool has the threads of the passes before and the one of this pass.
  rw [current, passing.pool]
  simp [passes_threads none_]

/-- In a pass, the base thread has the object of the new thread in its hands. -/
theorem Passing.thread_eq (none_ : pool.threads = []) (passing : Passing addresses cb pool i s) :
    s.thread addresses =
      { producer := addresses.uninitialized i,
        loop := if s.threadPc i = .looping then some (addresses.loop i) else none } := by
  -- The current object is the last one made, as the pool stands in the middle of a pass.
  rw [thread, passing.current_eq none_, passing.pool]
  simp [passes_threads none_]

/-- A pass begins: the new thread is started. -/
theorem Between.create (none_ : pool.threads = []) (between : Between addresses cb pool i s)
    (created : s.create addresses = some next) :
    i < pool.numThreads ∧ Passing addresses cb pool i next := by
  simp only [PoolStart.create, Option.ite_none_right_eq_some, Option.some.injEq] at created
  obtain ⟨⟨-, more⟩, rfl⟩ := created
  -- The new thread is the i-th, as i passes are over.
  have number : s.pool.threads.length = i := by
    rw [between.pool]
    exact passes_threads none_ i
  rw [number, between.pool, passes_numThreads] at more
  refine ⟨more, ⟨by simp, ?_, ?_, fun j other => ?_, fun j blocked => ?_, by simp⟩⟩
  · simp [between.pool, passes_threads none_]
  · simp [number]
  · simp only [number, Function.update_of_ne other]
    exact between.others j other
  · exact absurd blocked (between.quiet j)

/-- The base thread goes on to the end of the pass only once the new thread has its loop. -/
theorem Passing.test (none_ : pool.threads = []) (passing : Passing addresses cb pool i s)
    (tested : s.test addresses = some next) : Passing addresses cb pool i next := by
  simp only [PoolStart.test, Option.ite_none_right_eq_some] at tested
  obtain ⟨ready, tested⟩ := tested
  rw [passing.thread_eq none_, passing.current_eq none_] at tested
  by_cases looping : s.threadPc i = .looping
  · rw [if_neg (by simp [looping]), Option.some.injEq] at tested
    subst tested
    refine ⟨by simp, passing.pool, passing.alive, passing.others, fun j blocked => ?_,
      fun _ => looping⟩
    -- Nobody is blocked any more once the loop is set.
    exact absurd looping (passing.quiet j blocked).2.2
  · rw [if_pos (by simp [looping]), Option.some.injEq] at tested
    subst tested
    refine ⟨by simp, passing.pool, passing.alive, passing.others, fun j blocked => ?_, by simp⟩
    by_cases own : j = i
    · exact ⟨own, rfl, looping⟩
    · simp only [Function.update_of_ne own] at blocked
      exact absurd (passing.quiet j blocked).1 own

/-- A base thread that wakes up tests `loop_` again. -/
theorem Passing.unblock (passing : Passing addresses cb pool i s) {cond : CondVar Unit}
    (fewer : ∀ u ∈ cond.blocked, u ∈ (s.cond i).blocked) :
    Passing addresses cb pool i { s with cond := Function.update s.cond i cond } := by
  -- Only the condition that is waited for changes, and there fewer threads are blocked.
  refine { passing with quiet := fun j blocked => ?_ }
  by_cases own : j = i
  · subst own
    simp only [Function.update_self] at blocked
    exact passing.quiet j (fewer () blocked)
  · simp only [Function.update_of_ne own] at blocked
    exact passing.quiet j blocked

/-- The pass ends as if it had taken place at one go. -/
theorem Passing.finish (none_ : pool.threads = []) (passing : Passing addresses cb pool i s)
    (finished : s.finish addresses = some next) :
    Between addresses cb pool (i + 1) next := by
  -- The starter returns after it has seen the loop, which is looping by then:
  -- the pass is done as `startThread` does it in one go.
  simp only [PoolStart.finish, Option.ite_none_right_eq_some, Option.some.injEq] at finished
  obtain ⟨returning, rfl⟩ := finished
  have looping := passing.returning returning
  refine ⟨rfl, ?_, ?_, fun j other => ?_, fun j blocked => ?_⟩
  · rw [passing.thread_eq none_, passing.pool, passes_succ]
    simp only [looping, if_true, Option.getD_some, startThread, EventLoopThread.startLoop]
    cases cb <;> simp [initialized]
  · have later := passing.others (i + 1) (by omega)
    rwa [if_neg (by omega)] at later
  · by_cases own : j = i
    · subst own
      rw [if_pos (by omega)]
      exact looping
    · show s.threadPc j = _
      rw [passing.others j own]
      by_cases before : j < i
      · rw [if_pos before, if_pos (by omega)]
      · rw [if_neg before, if_neg (by omega)]
  · exact absurd looping (passing.quiet j blocked).2.2

/-- Only the new thread has not come to its loop. -/
theorem Passing.eq_of_pc (passing : Passing addresses cb pool i s) {j : Nat}
    (alive : s.threadPc j ≠ .absent) (busy : s.threadPc j ≠ .looping) : j = i := by
  -- All threads but the one of this pass are looping or do not exist yet.
  by_contra other
  have stands := passing.others j other
  split at stands
  · exact busy stands
  · exact alive stands

/-- The new thread calls the callback. -/
theorem Passing.callback (none_ : pool.threads = []) (passing : Passing addresses cb pool i s)
    {j : Nat} (called : s.callback addresses cb j = some next) :
    Passing addresses cb pool i next := by
  -- A thread that is about to call back can only be the one of this pass.
  simp only [PoolStart.callback, Option.ite_none_right_eq_some, Option.some.injEq] at called
  obtain ⟨started, rfl⟩ := called
  obtain rfl := passing.eq_of_pc (j := j) (by simp [started]) (by simp [started])
  refine ⟨passing.pc, ?_, by simp, fun k other => ?_, fun k blocked => ?_, fun returning => ?_⟩
  · have shape := passing.pool
    simp only [started] at shape
    rw [shape]
    cases cb <;> simp [initialized, passes_threads none_]
  · simp only [Function.update_of_ne other]
    exact passing.others k other
  · obtain ⟨own, waits, -⟩ := passing.quiet k blocked
    exact ⟨own, waits, by simp⟩
  · rw [passing.returning returning] at started
    exact absurd started (by simp)

/-- Changing what was appended last. -/
theorem modify_last {α : Type} (f : α → α) (xs : List α) (x : α) :
    (xs ++ [x]).modify xs.length f = xs ++ [f x] := by
  -- The index of the appended element is the length of what is before it.
  induction xs with
  | nil => rfl
  | cons y ys ih => exact congrArg (y :: ·) ih

/-- A notification leaves the base thread free to go on. -/
theorem free_of_notifyOne {cond after : CondVar Unit} {choice : Option Unit}
    (notified : cond.notifyOne choice = some after) : () ∉ after.blocked := by
  -- The starter is the only one who waits, so a notification leaves nobody blocked.
  intro blocked
  cases choice with
  | none =>
    obtain ⟨none_, rfl⟩ := CondVar.notifyOne_none.mp notified
    rw [none_] at blocked
    exact absurd blocked (Finset.notMem_empty _)
  | some u => exact ((CondVar.mem_of_wake notified).mp blocked).1 rfl

/-- The new thread sets its loop, and nobody stays blocked. -/
theorem Passing.publish (none_ : pool.threads = []) (passing : Passing addresses cb pool i s)
    {j : Nat} {choice : Option Unit} (published : s.publish addresses j choice = some next) :
    Passing addresses cb pool i next := by
  -- A thread that is about to publish can only be the one of this pass.
  simp only [PoolStart.publish, Option.ite_none_right_eq_some, Option.map_eq_some_iff] at published
  obtain ⟨called, cond, notified, rfl⟩ := published
  obtain rfl := passing.eq_of_pc (j := j) (by simp [called]) (by simp [called])
  refine ⟨passing.pc, ?_, by simp, fun k other => ?_, fun k blocked => ?_, fun _ => by simp⟩
  · have shape := passing.pool
    simp only [called, reduceCtorEq, if_false] at shape
    have number : (passes addresses cb pool j).threads.length = j := passes_threads none_ j
    have modified := modify_last (fun thread : EventLoopThread =>
      { thread with loop := some (addresses.loop j) }) (passes addresses cb pool j).threads
      { producer := addresses.uninitialized j }
    rw [number] at modified
    simp only [shape, modified, Function.update_self, if_true, reduceCtorEq, if_false]
  · simp only [Function.update_of_ne other]
    exact passing.others k other
  · by_cases own : k = j
    · subst own
      simp only [Function.update_self] at blocked
      exact absurd blocked (free_of_notifyOne notified)
    · simp only [Function.update_of_ne own] at blocked
      exact absurd (passing.quiet k blocked).1 own

/-- Between two passes, every thread is in its loop or not started. -/
theorem Between.idle (between : Between addresses cb pool i s) (j : Nat) :
    s.threadPc j = .looping ∨ s.threadPc j = .absent := by
  -- Between two passes the thread of the next one does not exist, and the earlier are looping.
  by_cases own : j = i
  · subst own
    exact .inr between.absent
  · have stands := between.others j own
    split at stands
    · exact .inl stands
    · exact .inr stands

/-- Between two passes, only a new pass can begin. -/
theorem Between.step (between : Between addresses cb pool i s) {label : StartStep}
    (stepped : (startMachine addresses cb).step s label = some next) : label = .create := by
  -- Every other step needs the starter in a pass or a thread that is not looping.
  cases label with
  | create => rfl
  | test => simp [startMachine, PoolStart.test, between.pc] at stepped
  | wake =>
    obtain ⟨cond, woken, -⟩ := Option.map_eq_some_iff.mp stepped
    exact absurd (CondVar.blocked_of_wake woken) (between.quiet _)
  | finish => simp [startMachine, PoolStart.finish, between.pc] at stepped
  | callback j =>
    rcases between.idle j with idle | idle
    · simp [startMachine, PoolStart.callback, idle] at stepped
    · simp [startMachine, PoolStart.callback, idle] at stepped
  | publish j choice =>
    rcases between.idle j with idle | idle
    · simp [startMachine, PoolStart.publish, idle] at stepped
    · simp [startMachine, PoolStart.publish, idle] at stepped

/-- In a pass, the next one does not begin. -/
theorem Passing.step (none_ : pool.threads = []) (passing : Passing addresses cb pool i s)
    {label : StartStep} (stepped : (startMachine addresses cb).step s label = some next) :
    Passing addresses cb pool i next ∨
      label = .finish ∧ Between addresses cb pool (i + 1) next := by
  -- One case for each atomic step.
  cases label with
  | create => simp [startMachine, PoolStart.create, passing.pc] at stepped
  | test => exact .inl (passing.test none_ stepped)
  | wake =>
    obtain ⟨cond, woken, rfl⟩ := Option.map_eq_some_iff.mp stepped
    rw [passing.current_eq none_] at woken ⊢
    exact .inl (passing.unblock fun u blocked => ((CondVar.mem_of_wake woken).mp blocked).2)
  | finish => exact .inr ⟨rfl, passing.finish none_ stepped⟩
  | callback j => exact .inl (passing.callback none_ stepped)
  | publish j choice => exact .inl (passing.publish none_ stepped)

/-- Every step leaves the base thread between two passes or in one. -/
theorem Starts.step (none_ : pool.threads = []) (starts : Starts addresses cb pool s)
    {label : StartStep} (stepped : (startMachine addresses cb).step s label = some next) :
    Starts addresses cb pool next := by
  -- The state is between two passes or in one, and a step stays there or goes on to the next.
  obtain ⟨i, ⟨-, between⟩ | ⟨below, passing⟩⟩ := starts
  · obtain rfl := between.step stepped
    exact ⟨i, .inr (between.create none_ stepped)⟩
  · rcases passing.step none_ stepped with passing | ⟨-, between⟩
    · exact ⟨i, .inr ⟨below, passing⟩⟩
    · exact ⟨i + 1, .inl ⟨below, between⟩⟩

/-- Until all threads are started, some step other than a wake-up is possible. -/
theorem Starts.progress (none_ : pool.threads = []) (starts : Starts addresses cb pool s) :
    s.Done ∨ ∃ label, label ≠ .wake ∧ ((startMachine addresses cb).step s label).isSome := by
  obtain ⟨i, ⟨within, between⟩ | ⟨below, passing⟩⟩ := starts
  · have number : s.pool.threads.length = i := by
      rw [between.pool]
      exact passes_threads none_ i
    have total : s.pool.numThreads = pool.numThreads := by
      rw [between.pool]
      exact passes_numThreads i
    rcases Nat.eq_or_lt_of_le within with last | more
    · exact .inl ⟨between.pc, by omega⟩
    · refine .inr ⟨.create, by simp, ?_⟩
      simp [startMachine, PoolStart.create, between.pc, number, total, more]
  · right
    have current := passing.current_eq none_
    -- The new thread goes on as long as it can, and then the base thread does.
    cases stands : s.threadPc i with
    | absent => exact absurd stands passing.alive
    | started => exact ⟨.callback i, by simp, by simp [startMachine, PoolStart.callback, stands]⟩
    | called =>
      obtain ⟨choice, cond, notified⟩ := CondVar.exists_notifyOne (s.cond i)
      exact ⟨.publish i choice, by simp,
        by simp [startMachine, PoolStart.publish, stands, notified]⟩
    | looping =>
      have free : () ∉ (s.cond i).blocked := fun blocked =>
        (passing.quiet i blocked).2.2 stands
      have ready : (s.thread addresses).loop ≠ none := by
        rw [passing.thread_eq none_]
        simp [stands]
      cases stood : s.pc with
      | between => exact absurd stood passing.pc
      | testing =>
        exact ⟨.test, by simp, by simp [startMachine, PoolStart.test, stood, ready]⟩
      | waiting =>
        exact ⟨.test, by simp, by simp [startMachine, PoolStart.test, stood, current, free, ready]⟩
      | returning => exact ⟨.finish, by simp, by simp [startMachine, PoolStart.finish, stood]⟩

end PoolStart

/-- How many steps an I/O thread can still take in a pass. A notification counts for the wake-up as
well. -/
def ThreadPc.rank : ThreadPc → Nat
  | .started => 3
  | .called => 2
  | .absent | .looping => 0

namespace PoolStart

open EventLoopThreadPool

variable {addresses : Addresses} {cb : Option ThreadInitCallback} {pool : EventLoopThreadPool}
  {s next : PoolStart} {i : Nat}

/-- How many steps the base thread can still take in a pass. -/
def starterRank (s : PoolStart) : Nat :=
  match s.pc with
  | .between => 0
  | .testing => 4
  | .waiting => if () ∈ (s.cond s.current).blocked then 2 else 3
  | .returning => 1

/-- How many steps are left at most, if nobody wakes up unasked. -/
def rank (s : PoolStart) : Nat :=
  8 * (s.pool.numThreads - s.pool.threads.length) + s.starterRank + (s.threadPc s.current).rank

/-- The rank between two passes. -/
theorem Between.rank_eq (none_ : pool.threads = []) (between : Between addresses cb pool i s) :
    s.rank = 8 * (pool.numThreads - i) := by
  -- Nothing of the next pass has been done, and no thread is on its way.
  have idle : (s.threadPc s.current).rank = 0 := by
    rcases between.idle s.current with idle | idle <;> rw [idle] <;> rfl
  rw [rank, idle, starterRank, between.pc, between.pool, passes_threads none_, passes_numThreads]
  rfl

/-- The rank in a pass. -/
theorem Passing.rank_eq (none_ : pool.threads = []) (passing : Passing addresses cb pool i s) :
    s.rank = 8 * (pool.numThreads - (i + 1)) + s.starterRank + (s.threadPc i).rank := by
  -- The thread of this pass is the last one made.
  have number : s.pool.threads.length = i + 1 := by
    rw [passing.pool]
    simp [passes_threads none_]
  have total : s.pool.numThreads = pool.numThreads := by
    rw [passing.pool]
    exact passes_numThreads i
  rw [rank, passing.current_eq none_, number, total]

/-- At the same place, the base thread has at most one step more to take. -/
theorem starterRank_le (same : next.pc = s.pc) : next.starterRank ≤ s.starterRank + 1 := by
  -- Only while the starter waits does the rank look at the condition, and there by one at most.
  simp only [starterRank, same]
  cases s.pc with
  | between => simp
  | testing => simp
  | waiting =>
    simp only
    split <;> split <;> omega
  | returning => simp

/-- The test of `loop_` is a step nearer to the end of the pass. -/
theorem starterRank_test (tested : s.test addresses = some next) :
    next.starterRank < s.starterRank ∧ next.threadPc = s.threadPc := by
  -- A test is made by a starter that is awake, and ends in waiting or in returning.
  simp only [PoolStart.test, Option.ite_none_right_eq_some] at tested
  obtain ⟨ready, tested⟩ := tested
  have before : 3 ≤ s.starterRank := by
    rcases ready with stood | ⟨stood, free⟩
    · simp [starterRank, stood]
    · simp [starterRank, stood, free]
  split at tested
  · cases tested
    have after : starterRank { s with
        pc := .waiting
        cond := Function.update s.cond s.current ((s.cond s.current).wait ()) } = 2 := by
      simp [starterRank, current]
    exact ⟨by omega, rfl⟩
  · cases tested
    have after : starterRank { s with pc := .returning } = 1 := rfl
    exact ⟨by omega, rfl⟩

/-- In a pass, every step but an unasked wake-up leaves less to do. -/
theorem Passing.lowers (none_ : pool.threads = []) (passing : Passing addresses cb pool i s)
    (after : Passing addresses cb pool i next) {label : StartStep} (asked : label ≠ .wake)
    (stepped : (startMachine addresses cb).step s label = some next) : next.rank < s.rank := by
  rw [passing.rank_eq none_, after.rank_eq none_]
  have current := passing.current_eq none_
  cases label with
  | create => simp [startMachine, PoolStart.create, passing.pc] at stepped
  | wake => exact absurd rfl asked
  | finish =>
    simp only [startMachine, PoolStart.finish, Option.ite_none_right_eq_some,
      Option.some.injEq] at stepped
    obtain ⟨-, rfl⟩ := stepped
    exact absurd rfl after.pc
  | test =>
    obtain ⟨nearer, same⟩ := starterRank_test stepped
    rw [same]
    omega
  | callback j =>
    simp only [startMachine, PoolStart.callback, Option.ite_none_right_eq_some,
      Option.some.injEq] at stepped
    obtain ⟨started, rfl⟩ := stepped
    obtain rfl := passing.eq_of_pc (j := j) (by simp [started]) (by simp [started])
    simp only [started, Function.update_self]
    exact Nat.add_lt_add_left (by decide) _
  | publish j choice =>
    simp only [startMachine, PoolStart.publish, Option.ite_none_right_eq_some,
      Option.map_eq_some_iff] at stepped
    obtain ⟨called, cond, notified, moved⟩ := stepped
    obtain rfl := passing.eq_of_pc (j := j) (by simp [called]) (by simp [called])
    have same : next.pc = s.pc := by rw [← moved]
    have looping : next.threadPc j = .looping := by
      rw [← moved]
      exact Function.update_self _ _ _
    -- The notified thread may take one step more, and the notifying one takes two less.
    have most := starterRank_le same
    simp only [called, looping, ThreadPc.rank]
    omega

/-- Every step but an unasked wake-up brings the base thread nearer to the end. -/
theorem Starts.lowers (none_ : pool.threads = []) (starts : Starts addresses cb pool s)
    {label : StartStep} (asked : label ≠ .wake)
    (stepped : (startMachine addresses cb).step s label = some next) : next.rank < s.rank := by
  -- A new thread costs the eight that its pass is worth.
  obtain ⟨i, ⟨-, between⟩ | ⟨below, passing⟩⟩ := starts
  · obtain rfl := between.step stepped
    obtain ⟨below, passing⟩ := between.create none_ stepped
    have begun : next.starterRank = 4 ∧ (next.threadPc i).rank = 3 := by
      simp only [startMachine, PoolStart.create, Option.ite_none_right_eq_some,
        Option.some.injEq] at stepped
      obtain ⟨-, rfl⟩ := stepped
      have number : s.pool.threads.length = i := by
        rw [between.pool]
        exact passes_threads none_ i
      exact ⟨rfl, by simp [number, ThreadPc.rank]⟩
    rw [between.rank_eq none_, passing.rank_eq none_]
    omega
  · rcases passing.step none_ stepped with after | ⟨rfl, between⟩
    · exact passing.lowers none_ after asked stepped
    · have returning : s.starterRank = 1 := by
        simp only [startMachine, PoolStart.finish, Option.ite_none_right_eq_some] at stepped
        rw [starterRank, stepped.1]
      rw [between.rank_eq none_, passing.rank_eq none_]
      omega

end PoolStart

/-- In every run of `start` with its threads, whatever callback they run: when all threads are
started, the pool is as if each thread had been started at one go; until then some step is possible
that is no unasked wake-up; and without such wake-ups at most eight steps are taken for each
thread. -/
theorem start_atomic (addresses : Addresses) (cb : Option ThreadInitCallback)
    {pool : EventLoopThreadPool} (none_ : pool.threads = []) {labels : List StartStep}
    {s : PoolStart} (reached : (startMachine addresses cb).run (PoolStart.new pool) labels = some s) :
    (s.Done → s.pool = pool.start addresses cb) ∧
      (s.Done ∨ ∃ label, label ≠ .wake ∧ ((startMachine addresses cb).step s label).isSome) ∧
        ((∀ label ∈ labels, label ≠ .wake) → labels.length ≤ 8 * pool.numThreads) := by
  -- Every state of the start is between two passes or in one of them.
  have first : PoolStart.Starts addresses cb pool (PoolStart.new pool) :=
    ⟨0, .inl ⟨Nat.zero_le _, PoolStart.Between.start⟩⟩
  have starts : PoolStart.Starts addresses cb pool s := Machine.run_invariant
    (fun _ _ _ starts stepped => PoolStart.Starts.step none_ starts stepped) first reached
  refine ⟨fun done => ?_, starts.progress none_, fun asked => ?_⟩
  -- Done is between two passes with all threads made: then the passes are those of `start`.
  · obtain ⟨i, ⟨within, between⟩ | ⟨-, passing⟩⟩ := starts
    · obtain ⟨-, all⟩ := done
      rw [between.pool, EventLoopThreadPool.passes_threads none_,
        EventLoopThreadPool.passes_numThreads] at all
      obtain rfl : i = pool.numThreads := Nat.le_antisymm within all
      exact between.pool
    · exact absurd done.1 passing.pc
  -- Without wake-ups nobody asked for, each step uses up one of the rank.
  · have bounded := Machine.length_le_rank PoolStart.rank
      (fun _ _ _ (starts : PoolStart.Starts addresses cb pool _) asked stepped =>
        ⟨starts.step none_ stepped, starts.lowers none_ asked stepped⟩) first asked reached
    have between : PoolStart.Between addresses cb pool 0 (PoolStart.new pool) :=
      PoolStart.Between.start
    rw [between.rank_eq none_] at bounded
    omega

/-- A pool with a single thread. -/
def oneThread : EventLoopThreadPool := { baseLoop := 2, numThreads := 1 }

/-- A start of one thread in which the base thread has to wait. -/
def oneThreadStarted : PoolStart :=
  ((startMachine freshMemory (some (threadInitCallback freshMemory))).run (PoolStart.new oneThread)
    [.create, .test, .callback 0, .publish 0 (some ()), .test, .finish]).get rfl

/-- The single thread is started as if at one go. -/
theorem start_atomic_one :
    (oneThreadStarted.Done →
      oneThreadStarted.pool = oneThread.start freshMemory (threadInitCallback freshMemory)) ∧
      (oneThreadStarted.Done ∨ ∃ label, label ≠ .wake ∧
        ((startMachine freshMemory (some (threadInitCallback freshMemory))).step oneThreadStarted
          label).isSome) ∧
        ((∀ label ∈ [.create, .test, .callback 0, .publish 0 (some ()), .test, .finish],
          label ≠ StartStep.wake) → 6 ≤ 8 * oneThread.numThreads) :=
  start_atomic freshMemory _ rfl (Option.some_get rfl).symm

end EnhancedProxy
