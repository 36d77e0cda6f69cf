import EnhancedProxy.Process.Listening

/-! Worker processes that end from outside, and what then becomes of the listening. -/

namespace EnhancedProxy

/-- The steps of the workers, with ends of processes, and workers in the slots of those that have
ended. The new process of `checkWorkerExit` only constructs its worker, and may start it here. -/
inductive CrashStep
  | step (label : ClusterStep)
  | exit (i : Nat)
  | replace (i : Nat) (owner : Bool) (startListenTime : Int)
  deriving DecidableEq, Repr

/-- The workers as a machine in which processes end at any moment. -/
def crashMachine (setting : Setting) : Machine Cluster CrashStep where
  step cluster
    | .step label => (clusterMachine setting).step cluster label
    | .exit i =>
      -- The kernel closes what the process has open, and leaves the mutex byte as it is.
      if (cluster.workers i).pc ≠ .absent ∧ (cluster.workers i).pc ≠ .dead then
        some (cluster.set i (cluster.workers i).abort)
      else none
    | .replace i owner startListenTime =>
      if (cluster.workers i).pc = .dead then
        some (cluster.set i
          { pc := .constructed, owner := owner, startListenTime := startListenTime })
      else none

/-- Nobody listens. -/
def Cluster.Silent (cluster : Cluster) : Prop := ∀ i, (cluster.workers i).listenning = false

/-- The mutex byte is 1, and every worker is silent and outside the part that the mutex protects. -/
structure Orphaned (cluster : Cluster) : Prop where
  byte : cluster.mutexByte = 1
  silent : cluster.Silent
  outside : ∀ i, (cluster.workers i).pc.holdsMutex = false

/-- An end of a process, or a new one in its place, keeps the token with its holder. -/
theorem TokenHeld.crash {setting : Setting} {cluster next : Cluster} {label : CrashStep}
    (held : TokenHeld cluster) (stepped : (crashMachine setting).step cluster label = some next) :
    TokenHeld next := by
  cases label with
  | step label => exact held.step stepped
  | exit i =>
    obtain ⟨-, same⟩ := Option.ite_none_right_eq_some.mp stepped
    cases same
    exact held.set (held.worker i).abort
  | replace i owner startListenTime =>
    obtain ⟨-, same⟩ := Option.ite_none_right_eq_some.mp stepped
    cases same
    -- A new process neither listens nor holds anything.
    exact held.set ⟨fun on => Bool.noConfusion on, fun inside => Bool.noConfusion inside,
      fun place => WorkerPc.noConfusion place, rfl⟩

namespace Orphaned

variable {cluster next : Cluster} {i : Nat}

/-- With the holder gone, nobody listens or is about to. -/
theorem of_exit {setting : Setting} (held : TokenHeld cluster) (holds : cluster.holder = some i)
    (exited : (crashMachine setting).step cluster (.exit i) = some next) : Orphaned next := by
  obtain ⟨-, same⟩ := Option.ite_none_right_eq_some.mp exited
  cases same
  have notHolding (j : Nat) (other : j ≠ i) : ¬ cluster.holder = some j := by
    rw [holds, Option.some.injEq]
    exact Ne.symm other
  refine ⟨held.byte_one holds, fun j => ?_, fun j => ?_⟩
  · -- Whoever listens would hold the mutex.
    by_cases own : j = i
    · subst own
      simp [Cluster.set, Worker.abort]
    · simp only [Cluster.set, Function.update_of_ne own]
      by_contra on
      rw [Bool.not_eq_false] at on
      exact notHolding j own ((held.worker j).listening on).1
  · by_cases own : j = i
    · subst own
      simp [Cluster.set, Worker.abort, WorkerPc.holdsMutex]
    · simp only [Cluster.set, Function.update_of_ne own]
      by_contra inside
      rw [Bool.not_eq_false] at inside
      exact notHolding j own ((held.worker j).critical inside)

/-- A silent worker outside the protected part changes nothing for the others. -/
theorem set (orphaned : Orphaned cluster) {worker : Worker} (silent : worker.listenning = false)
    (outside : worker.pc.holdsMutex = false) : Orphaned (cluster.set i worker) where
  -- The byte is not touched, and the worker that is put is silent and outside the mutex.
  byte := orphaned.byte
  silent j := by
    by_cases own : j = i
    · subst own
      simpa [Cluster.set] using silent
    · simpa [Cluster.set, Function.update_of_ne own] using orphaned.silent j
  outside j := by
    by_cases own : j = i
    · subst own
      simpa [Cluster.set] using outside
    · simpa [Cluster.set, Function.update_of_ne own] using orphaned.outside j

/-- Descriptors and counters have no part in it. -/
theorem events (orphaned : Orphaned cluster) (eventfds : Nat → Int) (counters : Nat → Nat) :
    Orphaned { cluster with eventfds := eventfds, counters := counters } :=
  ⟨orphaned.byte, orphaned.silent, orphaned.outside⟩

/-- A worker at a place that the mutex protects does not exist. -/
theorem absurd_place (orphaned : Orphaned cluster) {pc : WorkerPc}
    (here : (cluster.workers i).pc = pc) (inside : pc.holdsMutex = true) : False := by
  -- Orphaned workers are outside the mutex.
  have outside := orphaned.outside i
  rw [here, inside] at outside
  cases outside

/-- A wake-up leads at most to a `tryLock`. -/
theorem eventHandler (orphaned : Orphaned cluster) (setting : Setting) :
    Orphaned (cluster.eventHandler setting i) := by
  unfold Cluster.eventHandler
  split
  · exact orphaned.set rfl rfl
  · -- The handler is installed, and the worker goes on to `start`.
    refine Orphaned.events (orphaned.set ?_ rfl) _ _
    exact orphaned.silent i

/-- Every `tryLock` finds the byte set. -/
theorem tryLock (orphaned : Orphaned cluster) : Orphaned (cluster.tryLock i) := by
  -- The byte is still set, so nobody gets it.
  unfold Cluster.tryLock
  split
  · rename_i free
    rw [orphaned.byte] at free
    cases free
  · exact orphaned.set (orphaned.silent i) rfl

/-- A write to an eventfd changes counters only. -/
theorem writeEvent (orphaned : Orphaned cluster) (setting : Setting) (eventFd : Int) :
    Orphaned (cluster.writeEvent setting i eventFd) := by
  -- The writer goes back to its loop, and the counters are nothing the property speaks of.
  have moved : Orphaned (cluster.set i { cluster.workers i with pc := .looping }) :=
    orphaned.set (orphaned.silent i) rfl
  unfold Cluster.writeEvent
  dsimp only
  split
  · exact moved.events _ _
  · exact moved

/-- No step of a worker frees the byte or starts to listen. -/
theorem step {setting : Setting} {label : ClusterStep} (orphaned : Orphaned cluster)
    (stepped : (clusterMachine setting).step cluster label = some next) : Orphaned next := by
  -- One case for each atomic step: those of a holder are not possible.
  cases label with
  | fork i fd owner startListenTime =>
    obtain ⟨-, rfl⟩ := Cluster.step_fork.mp stepped
    exact (orphaned.set rfl rfl).events _ _
  | start i =>
    obtain ⟨-, rfl⟩ := Cluster.step_start.mp stepped
    exact orphaned.set (orphaned.silent i) rfl
  | wake i =>
    obtain ⟨-, rfl⟩ := Cluster.step_wake.mp stepped
    exact orphaned.eventHandler setting
  | tryLock i =>
    obtain ⟨-, rfl⟩ := Cluster.step_tryLock.mp stepped
    exact orphaned.tryLock
  | enableListen i now =>
    obtain ⟨here, -⟩ := Cluster.step_enableListen.mp stepped
    exact (orphaned.absurd_place here rfl).elim
  | newConnection i now =>
    obtain ⟨⟨-, on⟩, -⟩ := Cluster.step_newConnection.mp stepped
    rw [orphaned.silent i] at on
    cases on
  | removeConnection i =>
    obtain ⟨-, rfl⟩ := Cluster.step_removeConnection.mp stepped
    exact orphaned.set (orphaned.silent i) (orphaned.outside i)
  | schedule i now =>
    obtain ⟨here, -⟩ := Cluster.step_schedule.mp stepped
    exact (orphaned.absurd_place here rfl).elim
  | notifyOther i =>
    obtain ⟨here, -⟩ := Cluster.step_notifyOther.mp stepped
    exact (orphaned.absurd_place here rfl).elim
  | unlockAssert i =>
    obtain ⟨eventFd, here, -⟩ := Cluster.step_unlockAssert.mp stepped
    exact (orphaned.absurd_place here rfl).elim
  | unlockSwap i =>
    obtain ⟨eventFd, here, -⟩ := Cluster.step_unlockSwap.mp stepped
    exact (orphaned.absurd_place here rfl).elim
  | writeEvent i =>
    obtain ⟨eventFd, -, rfl⟩ := Cluster.step_writeEvent.mp stepped
    exact orphaned.writeEvent setting eventFd
  | stray k value =>
    obtain rfl := Cluster.step_stray.mp stepped
    exact orphaned.events _ _

/-- Nor does an end of a process, or a new one in its place. -/
theorem crash {setting : Setting} {label : CrashStep} (orphaned : Orphaned cluster)
    (stepped : (crashMachine setting).step cluster label = some next) : Orphaned next := by
  -- A worker that exits, or replaces another, does not listen and holds nothing.
  cases label with
  | step label => exact orphaned.step stepped
  | exit i =>
    obtain ⟨-, same⟩ := Option.ite_none_right_eq_some.mp stepped
    cases same
    exact orphaned.set rfl rfl
  | replace i owner startListenTime =>
    obtain ⟨-, same⟩ := Option.ite_none_right_eq_some.mp stepped
    cases same
    exact orphaned.set rfl rfl

end Orphaned

/-- In every run in which processes may end at any moment, at most one worker listens, but when a
worker ends that holds the mutex, no worker ever listens again, whatever is done then: the byte
stays 1, and new workers, wake-ups and strange writes do not help. -/
theorem silent_after_exit (setting : Setting) (eventfds : Nat → Int) (labels : List CrashStep)
    {cluster : Cluster}
    (reached : (crashMachine setting).run (Cluster.new eventfds) labels = some cluster) :
    (∀ i j, (cluster.workers i).listenning → (cluster.workers j).listenning → i = j) ∧
      ∀ i next, cluster.holder = some i →
        (crashMachine setting).step cluster (.exit i) = some next →
          ∀ later, (crashMachine setting).Always
            (fun state => state.mutexByte = 1 ∧ state.Silent) next later := by
  -- The byte belongs to the worker that listens, so two who listen are one.
  have held : TokenHeld cluster := Machine.run_invariant
    (fun _ _ _ held stepped => TokenHeld.crash held stepped) (TokenHeld.start eventfds) reached
  refine ⟨fun i j on onOther => ?_, fun i next holds exited later front state isFront ran => ?_⟩
  · have same := ((held.worker i).listening on).1.symm.trans ((held.worker j).listening onOther).1
    exact Option.some.inj same
  -- Once the holder is gone nobody can give the byte back, and the property lasts.
  · have orphaned : Orphaned state := Machine.run_invariant
      (fun _ _ _ orphaned stepped => Orphaned.crash orphaned stepped)
      (Orphaned.of_exit held holds exited) ran
    exact ⟨orphaned.byte, orphaned.silent⟩

/-- Of two workers, the one that listens ends. -/
theorem silent_after_exit_two :
    ∃ cluster,
      (crashMachine ⟨3, fun _ _ => none⟩).run (Cluster.new fun _ => 0)
        (twoWorkersStart.map .step) = some cluster ∧
      ((crashMachine ⟨3, fun _ _ => none⟩).step cluster (.exit 0)).isSome ∧
      ∀ next, (crashMachine ⟨3, fun _ _ => none⟩).step cluster (.exit 0) = some next →
        ∀ later, (crashMachine ⟨3, fun _ _ => none⟩).Always
          (fun state => state.mutexByte = 1 ∧ state.Silent) next later := by
  -- The first worker has won the mutex and listens.
  refine ⟨_, rfl, rfl, fun next exited later => ?_⟩
  exact (silent_after_exit ⟨3, fun _ _ => none⟩ (fun _ => 0) (twoWorkersStart.map .step)
    rfl).2 0 next rfl exited later

end EnhancedProxy
