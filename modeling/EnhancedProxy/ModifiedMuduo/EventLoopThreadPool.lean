import Mathlib.Data.List.Range
import Mathlib.Logic.Function.Basic
import Mathlib.Logic.Function.Iterate

/-! The I/O threads of a server: how their loops are started, and the producers they are given. -/

namespace EnhancedProxy

/-- Where a process has its objects. Live objects have addresses of their own, and none is at the
null pointer. -/
structure Addresses where
  circleArray : Nat
  baseLoop : Nat
  -- The `EventLoop` on the stack of the i-th I/O thread.
  loop : Nat → Nat
  -- What the i-th `new Producer` returns.
  producer : Nat → Nat
  -- What the field `producer_` of the i-th `EventLoopThread` holds, which no constructor sets.
  uninitialized : Nat → Nat
  loop_injective : Function.Injective loop
  producer_injective : Function.Injective producer
  producer_ne_null : ∀ i, producer i ≠ 0

/-- A `Producer` that `threadInitCallback` has made, and for which loop. -/
structure MadeProducer where
  address : Nat
  circleArray : Nat
  loop : Nat
  deriving DecidableEq, Repr

/-- A thread-init callback: from the producers made so far, its two arguments give the producers
made afterwards. -/
abbrev ThreadInitCallback := List MadeProducer → Nat → Nat → List MadeProducer

/-- `threadInitCallback` of the proxy server. -/
def threadInitCallback (addresses : Addresses) : ThreadInitCallback := fun made _producer loop =>
  -- The new pointer is assigned to the parameter, and the caller's pointer stays as it was.
  let producer := addresses.producer made.length
  made ++ [{ address := producer, circleArray := addresses.circleArray, loop := loop }]

/-- An `EventLoopThread`. -/
structure EventLoopThread where
  loop : Option Nat := none
  producer : Nat
  deriving DecidableEq, Repr

/-- `startLoop`, which returns once `threadFunc` has called the callback and set the loop. -/
def EventLoopThread.startLoop (thread : EventLoopThread) (cb : Option ThreadInitCallback)
    (loop : Nat) (made : List MadeProducer) : EventLoopThread × List MadeProducer :=
  let made :=
    match cb with
    | some cb => cb made thread.producer loop
    | none => made
  ({ thread with loop := some loop }, made)

/-- An `EventLoopThreadPool`, with the producers that its callbacks have made. -/
structure EventLoopThreadPool where
  baseLoop : Nat
  started : Bool := false
  numThreads : Nat := 0
  nextLoop : Nat := 0
  threads : List EventLoopThread := []
  loops : List Nat := []
  producerMap : Nat → Option Nat := fun _ => none
  made : List MadeProducer := []

namespace EventLoopThreadPool

/-- One pass of the loop of `start`. -/
def startThread (addresses : Addresses) (cb : Option ThreadInitCallback)
    (pool : EventLoopThreadPool) (i : Nat) : EventLoopThreadPool :=
  let new : EventLoopThread := { producer := addresses.uninitialized i }
  let (thread, made) := new.startLoop cb (addresses.loop i) pool.made
  { pool with
    threads := pool.threads ++ [thread]
    loops := pool.loops ++ [addresses.loop i]
    producerMap := Function.update pool.producerMap (addresses.loop i) (some thread.producer)
    made := made }

/-- `start`. Without threads, the callback is not called. -/
def start (addresses : Addresses) (cb : Option ThreadInitCallback) (pool : EventLoopThreadPool) :
    EventLoopThreadPool :=
  (List.range pool.numThreads).foldl (startThread addresses cb) { pool with started := true }

/-- `getNextLoop`. -/
def getNextLoop (pool : EventLoopThreadPool) : EventLoopThreadPool × Nat :=
  if pool.loops = [] then (pool, pool.baseLoop)
  else
    let loop := pool.loops.getD pool.nextLoop pool.baseLoop
    -- Round-robin.
    if pool.nextLoop + 1 ≥ pool.loops.length then ({ pool with nextLoop := 0 }, loop)
    else ({ pool with nextLoop := pool.nextLoop + 1 }, loop)

/-- `getProducer`, which is null for a loop that is not in the map. -/
def getProducer (pool : EventLoopThreadPool) (ioLoop : Nat) : Nat :=
  (pool.producerMap ioLoop).getD 0

/-- Some new connection is handed the loop. -/
def Hands (pool : EventLoopThreadPool) (loop : Nat) : Prop :=
  ∃ connections, ((fun pool => pool.getNextLoop.1)^[connections] pool).getNextLoop.2 = loop

end EventLoopThreadPool

/-- The part of a `TcpServer` that starts its threads. -/
structure TcpServer where
  threadPool : EventLoopThreadPool
  threadInitWithProducerCallback : Option ThreadInitCallback := none
  started : Bool := false

namespace TcpServer

/-- `setThreadNum` of a new server. -/
def new (addresses : Addresses) (numThreads : Nat) : TcpServer where
  threadPool := { baseLoop := addresses.baseLoop, numThreads := numThreads }

/-- `setThreadInitCallback`. -/
def setThreadInitCallback (server : TcpServer) (cb : ThreadInitCallback) : TcpServer :=
  { server with threadInitWithProducerCallback := some cb }

/-- `start`. Only the first call starts the threads. -/
def start (addresses : Addresses) (server : TcpServer) : TcpServer :=
  if server.started then server
  else
    { server with
      started := true
      threadPool := server.threadPool.start addresses server.threadInitWithProducerCallback }

end TcpServer

/-- The thread pool after the first `enableListen`, which installs the callback and starts the
server. -/
def startedPool (addresses : Addresses) (numThreads : Nat) : EventLoopThreadPool :=
  (((TcpServer.new addresses numThreads).setThreadInitCallback
    (threadInitCallback addresses)).start addresses).threadPool

/-- Every loop that a connection is handed has a producer of its own, which is the one that was made
for it on the queue of the thread pool. -/
structure OwnProducers (addresses : Addresses) (pool : EventLoopThreadPool) : Prop where
  live : ∀ loop, pool.Hands loop → pool.getProducer loop ≠ 0 ∧
    ∃ made ∈ pool.made, made.loop = loop ∧ made.circleArray = addresses.circleArray ∧
      pool.getProducer loop = made.address
  own : ∀ loop other, pool.Hands loop → pool.Hands other → loop ≠ other →
    pool.getProducer loop ≠ pool.getProducer other

namespace EventLoopThreadPool

variable {addresses : Addresses} {n : Nat}

/-- The pool after its first threads were started. -/
def afterThreads (addresses : Addresses) (numThreads n : Nat) : EventLoopThreadPool :=
  (List.range n).foldl (startThread addresses (some (threadInitCallback addresses)))
    { baseLoop := addresses.baseLoop, numThreads := numThreads, started := true }

/-- One more thread was started. -/
theorem afterThreads_succ (numThreads : Nat) : afterThreads addresses numThreads (n + 1) =
    startThread addresses (some (threadInitCallback addresses))
      (afterThreads addresses numThreads n) n := by
  -- The fold over one number more is the fold and then the last pass.
  rw [afterThreads, List.range_succ, List.foldl_append]
  rfl

/-- The producers made, one for each thread. -/
theorem afterThreads_made (numThreads : Nat) : (afterThreads addresses numThreads n).made =
    (List.range n).map fun i =>
      { address := addresses.producer i, circleArray := addresses.circleArray,
        loop := addresses.loop i } := by
  -- Each pass makes one producer, with the addresses of its own number.
  induction n with
  | zero => rfl
  | succ n ih =>
    rw [afterThreads_succ, List.range_succ, List.map_append]
    simp only [startThread, EventLoopThread.startLoop, threadInitCallback, ih, List.length_map,
      List.length_range]
    rfl

/-- The loops of the threads, in order. -/
theorem afterThreads_loops (numThreads : Nat) :
    (afterThreads addresses numThreads n).loops = (List.range n).map addresses.loop := by
  -- Each pass appends the loop of its own number.
  induction n with
  | zero => rfl
  | succ n ih =>
    rw [afterThreads_succ, List.range_succ, List.map_append]
    simp only [startThread, EventLoopThread.startLoop, ih]
    rfl

/-- The first connection is handed the first loop. -/
theorem afterThreads_nextLoop (numThreads : Nat) :
    (afterThreads addresses numThreads n).nextLoop = 0 := by
  -- No pass touches the turn.
  induction n with
  | zero => rfl
  | succ n ih =>
    rw [afterThreads_succ]
    exact ih

/-- The map holds for each loop what was never written. -/
theorem afterThreads_producerMap (numThreads : Nat) {i : Nat} (below : i < n) :
    (afterThreads addresses numThreads n).producerMap (addresses.loop i) =
      some (addresses.uninitialized i) := by
  induction n with
  | zero => exact absurd below (Nat.not_lt_zero i)
  | succ n ih =>
    rw [afterThreads_succ]
    simp only [startThread, EventLoopThread.startLoop]
    by_cases last : i = n
    · subst last
      exact Function.update_self _ _ _
    · -- The other loops have addresses of their own.
      have differs : addresses.loop i ≠ addresses.loop n := fun same =>
        last (addresses.loop_injective same)
      rw [Function.update_of_ne differs]
      exact ih (by omega)

/-- After some connections, the next loop is counted modulo the number of loops. -/
theorem getNextLoop_iterate {pool : EventLoopThreadPool} (some_ : pool.loops ≠ [])
    (first : pool.nextLoop = 0) (connections : Nat) :
    (fun pool => pool.getNextLoop.1)^[connections] pool =
      { pool with nextLoop := connections % pool.loops.length } := by
  have positive : 0 < pool.loops.length := List.length_pos_iff.mpr some_
  induction connections with
  | zero =>
    rw [Function.iterate_zero, id, Nat.zero_mod, ← first]
  | succ connections ih =>
    rw [Function.iterate_succ_apply', ih]
    have below := Nat.mod_lt connections positive
    simp only [getNextLoop, if_neg some_]
    -- The number wraps around when it reaches the number of loops.
    split
    · rename_i last
      have wraps : (connections + 1) % pool.loops.length = 0 := by
        have full : connections % pool.loops.length + 1 = pool.loops.length :=
          Nat.le_antisymm below last
        rw [← Nat.mod_add_mod, full, Nat.mod_self]
      rw [wraps]
    · rename_i more
      have goesOn : (connections + 1) % pool.loops.length =
          connections % pool.loops.length + 1 := by
        rw [← Nat.mod_add_mod, Nat.mod_eq_of_lt (Nat.not_le.mp more)]
      rw [goesOn]

/-- With threads, connections are handed the loops of the threads. -/
theorem hands_iff (threads : 0 < n) (loop : Nat) :
    (startedPool addresses n).Hands loop ↔ ∃ i < n, loop = addresses.loop i := by
  -- The loops are dealt in turn, so connection number i gets loop i modulo n.
  have loops : (startedPool addresses n).loops = (List.range n).map addresses.loop :=
    afterThreads_loops n
  have length : (startedPool addresses n).loops.length = n := by simp [loops]
  have some_ : (startedPool addresses n).loops ≠ [] := by
    rw [← List.length_pos_iff, length]
    exact threads
  have handed (connections : Nat) :
      ((fun pool => pool.getNextLoop.1)^[connections] (startedPool addresses n)).getNextLoop.2 =
        addresses.loop (connections % n) := by
    have inside := Nat.mod_lt connections threads
    rw [getNextLoop_iterate some_ (afterThreads_nextLoop n), length]
    simp only [getNextLoop, if_neg some_]
    rw [loops]
    split <;> simp [inside]
  constructor
  · rintro ⟨connections, rfl⟩
    exact ⟨connections % n, Nat.mod_lt _ threads, handed connections⟩
  · rintro ⟨i, below, rfl⟩
    exact ⟨i, by rw [handed, Nat.mod_eq_of_lt below]⟩

/-- A loop of a thread gets what the field of its thread held. -/
theorem getProducer_loop {i : Nat} (below : i < n) :
    (startedPool addresses n).getProducer (addresses.loop i) = addresses.uninitialized i :=
  congrArg (Option.getD · 0) (afterThreads_producerMap n below)

end EventLoopThreadPool

/-- The loops have producers of their own exactly if there is an I/O thread, and each thread's field
happens to hold the very address at which the producer for its loop is then made. -/
theorem own_producers_iff (addresses : Addresses) (n : Nat) :
    OwnProducers addresses (startedPool addresses n) ↔
      0 < n ∧ ∀ i < n, addresses.uninitialized i = addresses.producer i := by
  have made : (startedPool addresses n).made = (List.range n).map fun i =>
      { address := addresses.producer i, circleArray := addresses.circleArray,
        loop := addresses.loop i } := EventLoopThreadPool.afterThreads_made n
  constructor
  · intro producers
    have threads : 0 < n := by
      by_contra none_
      obtain rfl : n = 0 := by omega
      -- The base loop is not in the map.
      exact (producers.live addresses.baseLoop ⟨0, rfl⟩).1 rfl
    refine ⟨threads, fun i below => ?_⟩
    have handed := (EventLoopThreadPool.hands_iff threads (addresses.loop i)).mpr ⟨i, below, rfl⟩
    obtain ⟨-, producer, member, forLoop, -, given⟩ := producers.live _ handed
    rw [made, List.mem_map] at member
    obtain ⟨j, -, rfl⟩ := member
    rw [EventLoopThreadPool.getProducer_loop below] at given
    -- The producer made for this loop is the one of this thread.
    rw [given, addresses.loop_injective forLoop]
  · rintro ⟨threads, lucky⟩
    constructor
    · intro loop handed
      obtain ⟨i, below, rfl⟩ := (EventLoopThreadPool.hands_iff threads _).mp handed
      rw [EventLoopThreadPool.getProducer_loop below, lucky i below, made]
      exact ⟨addresses.producer_ne_null i, _,
        List.mem_map.mpr ⟨i, List.mem_range.mpr below, rfl⟩, rfl, rfl, rfl⟩
    · intro loop other handed handedOther differs
      obtain ⟨i, below, rfl⟩ := (EventLoopThreadPool.hands_iff threads _).mp handed
      obtain ⟨j, belowOther, rfl⟩ := (EventLoopThreadPool.hands_iff threads _).mp handedOther
      rw [EventLoopThreadPool.getProducer_loop below, lucky i below,
        EventLoopThreadPool.getProducer_loop belowOther, lucky j belowOther]
      exact fun same => differs (congrArg addresses.loop (addresses.producer_injective same))

/-- Fresh memory: the fields of new threads hold zeros. -/
def freshMemory : Addresses where
  circleArray := 1
  baseLoop := 2
  loop i := 2 * i + 4
  producer i := 2 * i + 3
  uninitialized _ := 0
  loop_injective i j same := by dsimp only at same; omega
  producer_injective i j same := by dsimp only at same; omega
  producer_ne_null i := by omega

/-- Two I/O threads in fresh memory: the loop that the first connection is handed has a null
pointer. -/
theorem producers_null :
    (startedPool freshMemory 2).Hands 4 ∧ (startedPool freshMemory 2).getProducer 4 = 0 ∧
      ¬ OwnProducers freshMemory (startedPool freshMemory 2) := by
  -- The first loop is handed out, and its producer is null.
  have handed : (startedPool freshMemory 2).Hands 4 := ⟨0, by decide⟩
  refine ⟨handed, by decide, fun producers => ?_⟩
  exact (producers.live 4 handed).1 (by decide)

end EnhancedProxy
