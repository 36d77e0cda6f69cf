import EnhancedProxy.Process.Worker
import Mathlib.Tactic.SplitIfs

/-! At most one worker's acceptor is listening, and it belongs to the holder of the mutex byte. -/

namespace EnhancedProxy

/-- The places between a `tryLock` that succeeded and the compare-and-swap of `unlock`. -/
def WorkerPc.holdsMutex : WorkerPc → Bool
  | .locked | .handingOver | .notifying | .unlocking _ | .releasing _ => true
  | _ => false

/-- The places where an acceptor can be listening. -/
def WorkerPc.mayListen : WorkerPc → Bool
  | .looping | .starting | .handingOver => true
  | _ => false

/-- What every place in a worker's code relies on, given whether the worker holds the mutex. -/
structure Worker.Consistent (worker : Worker) (holds : Prop) : Prop where
  listening : worker.listenning → holds ∧ worker.pc.mayListen
  critical : worker.pc.holdsMutex → holds
  handing : worker.pc = .handingOver → worker.listenning
  began : worker.started = worker.isStart

/-- The mutex byte is 1 exactly while a worker holds it, and every worker is consistent. -/
structure TokenHeld (cluster : Cluster) : Prop where
  byte : cluster.mutexByte = if cluster.holder.isSome then 1 else 0
  worker : ∀ i, (cluster.workers i).Consistent (cluster.holder = some i)

namespace Worker

variable {worker : Worker} {holds holds' : Prop}

/-- A worker that holds nothing stays consistent whoever holds the mutex. -/
theorem Consistent.of_not_holds (consistent : worker.Consistent holds) (other : ¬ holds) :
    worker.Consistent holds' where
  -- Such a worker is neither listening nor in the critical part.
  listening on := absurd (consistent.listening on).1 other
  critical inside := absurd (consistent.critical inside) other
  handing := consistent.handing
  began := consistent.began

/-- A worker is not listening where no acceptor can be. -/
theorem Consistent.silent (consistent : worker.Consistent holds)
    (place : worker.pc.mayListen = false) : worker.listenning = false := by
  -- A listening worker stands where an acceptor can be.
  by_contra on
  rw [Bool.not_eq_false] at on
  have may := (consistent.listening on).2
  rw [place] at may
  cases may

/-- A worker whose process has ended. -/
theorem Consistent.abort (consistent : worker.Consistent holds) :
    worker.abort.Consistent holds' where
  -- A process that has ended neither listens nor holds anything.
  listening on := Bool.noConfusion on
  critical inside := Bool.noConfusion inside
  handing here := WorkerPc.noConfusion here
  began := consistent.began

/-- A silent worker may move to any place that is not reserved to the holder. -/
theorem Consistent.move (consistent : worker.Consistent holds) {pc : WorkerPc}
    (silent : worker.listenning = false) (place : pc.holdsMutex = false) :
    { worker with pc := pc }.Consistent holds' where
  -- A silent worker that is not the holder has nothing to be consistent about.
  listening on := by
    rw [silent] at on
    cases on
  critical inside := by
    rw [place] at inside
    cases inside
  handing here := by
    subst here
    cases place
  began := consistent.began

/-- Switching the acceptor leaves the handler alone. -/
theorem acceptorSchedulingHandler_handler (worker : Worker) (now : Int) :
    (worker.acceptorSchedulingHandler now).notifyOtherWorkerToListen =
      worker.notifyOtherWorkerToListen := by
  -- Switching on and switching off write the acceptor and the flag.
  unfold acceptorSchedulingHandler
  split <;> rfl

/-- Starting to listen leaves the handler alone. -/
theorem enableListen_handler (worker : Worker) (now : Int) :
    (worker.enableListen now).notifyOtherWorkerToListen = worker.notifyOtherWorkerToListen := by
  -- Neither the start of the server nor the toggle sets a callback.
  unfold enableListen
  split
  · exact acceptorSchedulingHandler_handler worker now
  · unfold tcpStart
    dsimp only
    split_ifs <;> rfl

/-- Starting to listen leaves `owner` alone. -/
theorem enableListen_owner (worker : Worker) (now : Int) :
    (worker.enableListen now).owner = worker.owner := by
  -- None of the three functions on the way assigns the flag.
  unfold enableListen acceptorSchedulingHandler tcpStart
  dsimp only
  split_ifs <;> rfl

/-- A worker that has won the lock was silent, and its acceptor is switched on, never off. -/
theorem enableListen_listening (worker : Worker) (began : worker.started = worker.isStart)
    (silent : worker.listenning = false) (now : Int) :
    (worker.enableListen now).listenning = true ∧ (worker.enableListen now).pc = worker.pc ∧
      (worker.enableListen now).started = (worker.enableListen now).isStart := by
  cases first : worker.isStart with
  | false =>
    -- The first time, the server is started.
    rw [first] at began
    simp [enableListen, first, tcpStart, began, silent, listen]
  | true =>
    -- Later on, the toggle finds the acceptor off.
    rw [first] at began
    simp [enableListen, first, acceptorSchedulingHandler, silent, began]

end Worker

namespace TokenHeld

variable {cluster : Cluster} {i : Nat}

/-- A step of one worker leaves the others as consistent as they were. -/
theorem set (held : TokenHeld cluster) {worker : Worker}
    (consistent : worker.Consistent (cluster.holder = some i)) :
    TokenHeld (cluster.set i worker) where
  byte := held.byte
  worker j := by
    -- The worker that moves is the one that was set.
    by_cases same : j = i
    · subst same
      simpa [Cluster.set] using consistent
    · simpa [Cluster.set, Function.update_of_ne same] using held.worker j

/-- The byte is 1 while somebody holds the mutex. -/
theorem byte_one (held : TokenHeld cluster) (holds : cluster.holder = some i) :
    cluster.mutexByte = 1 := by
  -- The byte says whether there is a holder.
  have byte := held.byte
  rwa [holds] at byte

/-- Descriptors and counters have no part in who holds the mutex. -/
theorem events (held : TokenHeld cluster) (eventfds : Nat → Int) (counters : Nat → Nat) :
    TokenHeld { cluster with eventfds := eventfds, counters := counters } :=
  ⟨held.byte, held.worker⟩

/-- `tryLock` hands the mutex to one worker while nobody else holds it. -/
theorem tryLock (held : TokenHeld cluster) (here : (cluster.workers i).pc = .starting) :
    TokenHeld (cluster.tryLock i) := by
  unfold Cluster.tryLock
  have own := held.worker i
  split
  · rename_i free
    -- A byte of 0 means that nobody holds the mutex.
    have vacant : cluster.holder = none := by
      cases holder : cluster.holder with
      | none => rfl
      | some j =>
        cases free.symm.trans (held.byte_one holder)
    have nobody (j : Nat) : ¬ cluster.holder = some j := by simp [vacant]
    refine ⟨rfl, fun j => ?_⟩
    by_cases same : j = i
    · subst same
      -- The winner was not listening, since it did not hold the mutex.
      have silent : (cluster.workers j).listenning = false := by
        by_contra on
        rw [Bool.not_eq_false] at on
        exact nobody j (own.listening on).1
      simp only [Cluster.set, Function.update_self]
      exact ⟨fun on => absurd on (by simp [silent]), fun _ => trivial,
        fun place => WorkerPc.noConfusion place, own.began⟩
    · simp only [Cluster.set, Function.update_of_ne same]
      exact (held.worker j).of_not_holds (nobody j)
  · -- A worker that is listening already stays so when it loses.
    exact held.set ⟨fun on => ⟨(own.listening on).1, rfl⟩, fun inside => Bool.noConfusion inside,
      fun place => WorkerPc.noConfusion place, own.began⟩

/-- The compare-and-swap of `unlock` frees the mutex after the acceptor was switched off. -/
theorem unlockSwap (held : TokenHeld cluster) {eventFd : Int}
    (here : (cluster.workers i).pc = .releasing eventFd) :
    TokenHeld (cluster.unlockSwap i eventFd) := by
  have own := held.worker i
  have holds : cluster.holder = some i := own.critical (by rw [here]; rfl)
  have silent := own.silent (by rw [here]; rfl)
  unfold Cluster.unlockSwap
  split
  · -- The byte is free, and the others held nothing before either.
    refine ⟨rfl, fun j => ?_⟩
    by_cases same : j = i
    · subst same
      simpa [Cluster.set] using own.move silent rfl
    · simp only [Cluster.set, Function.update_of_ne same]
      refine (held.worker j).of_not_holds ?_
      rw [holds, Option.some.injEq]
      exact Ne.symm same
  · -- A swap that fails changes nothing that is shared.
    exact held.set (own.move silent rfl)

/-- `newConnection` decides to hand over only in a worker that is listening. -/
theorem newConnection (held : TokenHeld cluster) (on : (cluster.workers i).listenning)
    (now : Int) :
    TokenHeld (cluster.newConnection i now) := by
  have own := held.worker i
  have holds := (own.listening on).1
  unfold Cluster.newConnection
  apply held.set
  -- Handing over is decided by a listening worker, which is the holder.
  dsimp only
  split
  · exact ⟨fun _ => ⟨holds, rfl⟩, fun _ => holds, fun _ => on, own.began⟩
  · exact ⟨own.listening, own.critical, own.handing, own.began⟩

/-- `EventHandler` leaves the acceptor and the mutex alone. -/
theorem eventHandler (held : TokenHeld cluster) (setting : Setting) :
    TokenHeld (cluster.eventHandler setting i) := by
  have own := held.worker i
  unfold Cluster.eventHandler
  split
  · -- The read failed, and the assertion ends the process.
    exact held.set own.abort
  · -- The handler is installed, and the worker goes on to `start`.
    refine (held.set ?_).events _ _
    exact ⟨fun on => ⟨(own.listening on).1, rfl⟩, fun inside => Bool.noConfusion inside,
      fun place => WorkerPc.noConfusion place, own.began⟩

/-- Every atomic step of every worker keeps the token with its holder. -/
theorem step {setting : Setting} {label : ClusterStep} {next : Cluster} (held : TokenHeld cluster)
    (stepped : (clusterMachine setting).step cluster label = some next) : TokenHeld next := by
  -- One case for each atomic step, with the place it is taken from.
  cases label with
  | fork i fd owner startListenTime =>
    obtain ⟨-, rfl⟩ := Cluster.step_fork.mp stepped
    refine (held.set ?_).events _ _
    exact ⟨fun on => Bool.noConfusion on, fun inside => Bool.noConfusion inside,
      fun place => WorkerPc.noConfusion place, rfl⟩
  | start i =>
    obtain ⟨here, rfl⟩ := Cluster.step_start.mp stepped
    have own := held.worker i
    exact held.set (own.move (own.silent (by rw [here]; rfl)) rfl)
  | wake i =>
    obtain ⟨-, rfl⟩ := Cluster.step_wake.mp stepped
    exact held.eventHandler setting
  | tryLock i =>
    obtain ⟨here, rfl⟩ := Cluster.step_tryLock.mp stepped
    exact held.tryLock here
  | enableListen i now =>
    obtain ⟨here, rfl⟩ := Cluster.step_enableListen.mp stepped
    have own := held.worker i
    -- The winner was silent, so the toggle or the start switches its acceptor on.
    have silent := own.silent (by rw [here]; rfl)
    obtain ⟨-, place, began⟩ := Worker.enableListen_listening
      { cluster.workers i with pc := .looping } own.began silent now
    refine held.set ⟨fun _ => ⟨own.critical (by rw [here]; rfl), ?_⟩, fun inside => ?_,
      fun handing => ?_, began⟩
    · rw [place]
      rfl
    · rw [place] at inside
      cases inside
    · rw [place] at handing
      cases handing
  | newConnection i now =>
    obtain ⟨⟨-, on⟩, rfl⟩ := Cluster.step_newConnection.mp stepped
    exact held.newConnection on now
  | removeConnection i =>
    obtain ⟨-, rfl⟩ := Cluster.step_removeConnection.mp stepped
    have own := held.worker i
    exact held.set ⟨own.listening, own.critical, own.handing, own.began⟩
  | schedule i now =>
    obtain ⟨here, rfl⟩ := Cluster.step_schedule.mp stepped
    have own := held.worker i
    -- The toggle of the hand-off finds the acceptor on.
    have on := own.handing here
    have holds := own.critical (by rw [here]; rfl)
    simp only [Worker.acceptorSchedulingHandler, on, if_true]
    exact held.set ⟨fun off => Bool.noConfusion off, fun _ => holds,
      fun place => WorkerPc.noConfusion place, own.began⟩
  | notifyOther i =>
    obtain ⟨here, rfl⟩ := Cluster.step_notifyOther.mp stepped
    have own := held.worker i
    have holds := own.critical (by rw [here]; rfl)
    have silent := own.silent (by rw [here]; rfl)
    unfold Cluster.notifyOther
    dsimp only
    split
    · -- Without a handler, the exception ends the process.
      exact held.set own.abort
    · exact held.set ⟨fun on => absurd on (by simp [silent]), fun _ => holds,
        fun place => WorkerPc.noConfusion place, own.began⟩
  | unlockAssert i =>
    obtain ⟨eventFd, here, rfl⟩ := Cluster.step_unlockAssert.mp stepped
    have own := held.worker i
    have holds := own.critical (by rw [here]; rfl)
    have silent := own.silent (by rw [here]; rfl)
    unfold Cluster.unlockAssert
    dsimp only
    split
    · exact held.set ⟨fun on => absurd on (by simp [silent]), fun _ => holds,
        fun place => WorkerPc.noConfusion place, own.began⟩
    · -- A failed assertion ends the process.
      exact held.set own.abort
  | unlockSwap i =>
    obtain ⟨eventFd, here, rfl⟩ := Cluster.step_unlockSwap.mp stepped
    exact held.unlockSwap here
  | writeEvent i =>
    obtain ⟨eventFd, here, rfl⟩ := Cluster.step_writeEvent.mp stepped
    have own := held.worker i
    -- The counter that is written has no part in who holds the mutex.
    have moved := held.set (own.move (own.silent (by rw [here]; rfl)) rfl : Worker.Consistent
      { cluster.workers i with pc := .looping } (cluster.holder = some i))
    unfold Cluster.writeEvent
    dsimp only
    split
    · exact moved.events _ _
    · exact moved
  | stray k value =>
    obtain rfl := Cluster.step_stray.mp stepped
    exact held.events _ _

end TokenHeld

/-- Before any worker is forked, nobody holds the mutex. -/
theorem TokenHeld.start (eventfds : Nat → Int) : TokenHeld (Cluster.new eventfds) where
  -- No worker has been forked, and the byte is 0.
  byte := rfl
  worker _ := ⟨fun on => Bool.noConfusion on, fun inside => Bool.noConfusion inside,
    fun place => WorkerPc.noConfusion place, rfl⟩

/-- Every run keeps the token with its holder. -/
theorem tokenHeld_run {setting : Setting} {eventfds : Nat → Int} {labels : List ClusterStep}
    {cluster : Cluster}
    (reached : (clusterMachine setting).run (Cluster.new eventfds) labels = some cluster) :
    TokenHeld cluster :=
  -- The invariant of one step, along the run.
  Machine.run_invariant (fun _ _ _ held stepped => held.step stepped) (TokenHeld.start eventfds)
    reached

/-- At most one worker is listening, the mutex byte is then 1 and held by that worker, and a worker
that has won the lock goes from off to on. -/
theorem one_listening_worker (setting : Setting) (eventfds : Nat → Int) (labels : List ClusterStep)
    (cluster : Cluster)
    (reached : (clusterMachine setting).run (Cluster.new eventfds) labels = some cluster) :
    (∀ i j, (cluster.workers i).listenning → (cluster.workers j).listenning → i = j) ∧
    (∀ i, (cluster.workers i).listenning → cluster.mutexByte = 1 ∧ cluster.holder = some i) ∧
    ∀ i, (cluster.workers i).pc = .locked → (cluster.workers i).listenning = false ∧
      ∀ now next, (clusterMachine setting).step cluster (.enableListen i now) = some next →
        (next.workers i).listenning = true := by
  have held := tokenHeld_run reached
  have holds (i : Nat) (on : (cluster.workers i).listenning) : cluster.holder = some i :=
    ((held.worker i).listening on).1
  refine ⟨fun i j on onOther => ?_, fun i on => ?_, fun i here => ?_⟩
  · -- Both are the one holder.
    have same := (holds i on).symm.trans (holds j onOther)
    exact Option.some.inj same
  · -- The holder is the one whose `tryLock` set the byte.
    exact ⟨held.byte_one (holds i on), holds i on⟩
  · -- A winner was silent, so its acceptor is switched on, not off.
    have own := held.worker i
    have silent := own.silent (by rw [here]; rfl)
    refine ⟨silent, fun now next stepped => ?_⟩
    obtain ⟨-, rfl⟩ := Cluster.step_enableListen.mp stepped
    simp only [Cluster.set, Function.update_self]
    exact (Worker.enableListen_listening { cluster.workers i with pc := .looping } own.began
      silent now).1

/-- Two workers start, and the first one wins the lock. -/
def twoWorkersStart : List ClusterStep :=
  [.fork 0 5 true 0, .fork 1 6 false 0, .start 0, .tryLock 0, .enableListen 0 0, .start 1,
    .tryLock 1]

/-- Of two workers, the first to start listens and holds the mutex, and the other waits. -/
theorem one_listening_worker_startup :
    ∃ cluster,
      (clusterMachine ⟨3, fun _ _ => none⟩).run (Cluster.new fun _ => 0) twoWorkersStart =
        some cluster ∧
      (cluster.workers 0).listenning ∧ cluster.mutexByte = 1 ∧ cluster.holder = some 0 := by
  -- Worker 0 listens at the end, so it is the holder.
  refine ⟨_, rfl, rfl, ?_⟩
  exact (one_listening_worker ⟨3, fun _ _ => none⟩ (fun _ => 0) twoWorkersStart _ rfl).2.1 0 rfl

end EnhancedProxy
