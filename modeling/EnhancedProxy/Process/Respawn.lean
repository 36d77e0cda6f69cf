import EnhancedProxy.Process.Descriptors

/-! The workers that exit, and what the master does about their slots. -/

namespace EnhancedProxy

/-- Every slot has its one live worker, which the master's map knows and whose eventfd is no other
slot's, and each exit has cost the master one backup eventfd. -/
structure SlotsOccupied (setting : MasterSetting) (system : System) : Prop where
  occupied : ∀ slot < setting.processNum - 1, ∃! pid, LiveWorker setting system pid slot
  mapped : ∀ pid slot, LiveWorker setting system pid slot →
    (system.processes setting.master).processShmIdMap pid = some slot
  eventfd : ∀ slot < setting.processNum - 1, ∃ n,
    (system.processes setting.master).table.file (system.shmAddr slot) = some (.eventfd n) ∧
      ∀ other < setting.processNum - 1, other ≠ slot →
        (system.processes setting.master).table.file (system.shmAddr other) ≠ some (.eventfd n)
  consumed : (system.processes setting.master).eventFdQueue =
    system.backup.drop system.exits.length

/-- The master's queue has every backup eventfd. -/
def Untouched (setting : MasterSetting) (system : System) : Prop :=
  (system.processes setting.master).eventFdQueue = system.backup

namespace Untouched

variable {setting : MasterSetting} {system next : System} {pid : Nat} {process : Process}

/-- A process is replaced by one with the same queue, or is not the master. -/
theorem set (untouched : Untouched setting system)
    (queue : pid = setting.master →
      process.eventFdQueue = (system.processes pid).eventFdQueue) :
    Untouched setting (system.set pid process) := by
  -- Only the queue of the master counts.
  by_cases isMaster : setting.master = pid
  · subst isMaster
    simpa [Untouched, System.set, queue rfl] using untouched
  · simpa [Untouched, System.set, Function.update_of_ne isMaster] using untouched

/-- No step takes a backup eventfd from the master: the branch that would is for a `wait` that
returns zero. -/
theorem step {label : MasterStep} (untouched : Untouched setting system)
    (roster : Roster setting system.processes system.exits)
    (stepped : (masterMachine setting).step system label = some next) :
    Untouched setting next := by
  -- Each kind of step moves one or two processes.
  cases label with
  | work pid =>
    have fits := roster.fits pid
    rcases System.work_cases fits stepped with
      ⟨i, more, place, rfl⟩ | ⟨i, more, place, rfl⟩ | ⟨process, rfl, -, -, queue, -⟩
    · simp only [Process.Fits, place] at fits
      obtain ⟨-, rfl, -⟩ := fits
      -- The queue and the history grow together.
      simp only [Untouched] at untouched
      simp [Untouched, System.makeBackup, System.set, untouched]
    · exact untouched.set fun _ => rfl
    · exact untouched.set fun _ => queue
  | fork pid child =>
    obtain ⟨-, free, split⟩ := System.fork_cases stepped
    have fitsChild := roster.fits child
    simp only [Process.Fits, free] at fitsChild
    have notMaster : child = setting.master → False := fun isMaster => fitsChild.2 isMaster
    have apart : pid ≠ child := fun same => by
      rcases split with ⟨i, place, -⟩ | ⟨exited, shmId, place, -⟩ <;> simp [same, free] at place
    rcases split with ⟨i, -, rfl⟩ | ⟨exited, shmId, -, rfl⟩ <;>
    · refine (untouched.set fun isMaster => (notMaster isMaster).elim).set fun _ => ?_
      rw [System.set_processes, Function.update_of_ne apart]
  | wait pid child =>
    obtain ⟨⟨place, -, gone⟩, rfl⟩ := System.wait_eq_some.mp stepped
    have fitsChild := roster.fits child
    simp only [Process.Fits, gone] at fitsChild
    have apart : pid ≠ child := fun same => by simp [same, gone] at place
    refine (untouched.set fun isMaster => (fitsChild.2.1 isMaster).elim).set fun _ => ?_
    rw [System.set_processes, Function.update_of_ne apart]
    rfl
  | waitFails pid =>
    obtain ⟨process, rfl, -, -, queue, -⟩ := System.waitFails_cases (roster.fits pid) stepped
    exact untouched.set fun _ => queue
  | openFile pid =>
    obtain ⟨process, rfl, -, -, queue, -⟩ := System.openFile_cases (roster.fits pid) stepped
    exact untouched.set fun _ => queue
  | exit pid =>
    obtain ⟨-, rfl⟩ := System.exit_eq_some.mp stepped
    have exited : Untouched setting (system.set pid { system.processes pid with pc := .exited }) :=
      untouched.set fun _ => rfl
    exact exited

/-- In every state that is reached, the queue has every backup eventfd. -/
theorem run {steps : List MasterStep}
    (ran : (masterMachine setting).run (System.new setting) steps = some system) :
    Untouched setting system := by
  -- The roster is kept along with it.
  have preserved : ∀ system label next,
      Roster setting system.processes system.exits ∧ Untouched setting system →
      (masterMachine setting).step system label = some next →
      Roster setting next.processes next.exits ∧ Untouched setting next :=
    fun _ _ _ held stepped => ⟨roster_step held.1 stepped, held.2.step held.1 stepped⟩
  exact (Machine.run_invariant preserved ⟨Roster.new, by simp [Untouched, System.new]⟩ ran).2

end Untouched

/-- Once every exit has been handled, the slots are all occupied exactly if there was no exit. -/
theorem slots_occupied_iff {setting : MasterSetting} {steps : List MasterStep} {system : System}
    (ran : (masterMachine setting).run (System.new setting) steps = some system)
    (settled : Settled system) : SlotsOccupied setting system ↔ system.exits = [] := by
  have roster := roster_run ran
  constructor
  · intro occupied
    by_contra some_exit
    -- The slot of a worker that exited has no other worker.
    obtain ⟨slot, isLost⟩ := List.exists_mem_of_ne_nil _ some_exit
    obtain ⟨below, gone⟩ := roster.lost slot isLost
    rw [settled.master.1] at below
    obtain ⟨pid, live, -⟩ := occupied.occupied slot below
    have := gone pid live.slotOf
    rw [live.1] at this
    cases this
  · intro noExits
    -- Without exits, every worker that was created is still there.
    have descriptors := Descriptors.run ran
    obtain ⟨forked, made, known⟩ := @Settled.master setting system settled
    have stored : ∀ slot < setting.processNum - 1,
        (system.processes setting.master).table.file (system.shmAddr slot) =
          some (.eventfd (10 + slot)) :=
      fun slot below => descriptors.master.stored slot (by rw [descriptors.made, made]; omega)
    refine ⟨fun slot below => ?_, fun pid slot live => ?_, fun slot below => ?_, ?_⟩
    · obtain ⟨pid, has, -⟩ := roster.present slot (by rwa [forked]) (by simp [noExits])
      exact ⟨pid, settled.live roster has, fun other live =>
        roster.unique other pid slot live.slotOf has⟩
    · rw [← known]
      exact roster.known pid slot live.slotOf
    · refine ⟨10 + slot, stored slot below, fun other belowOther ne found => ?_⟩
      rw [stored other belowOther] at found
      simp only [Option.some.injEq, OpenFile.eventfd.injEq] at found
      omega
    · rw [noExits, List.length_nil, List.drop_zero]
      exact Untouched.run ran

/-- Before any exit, two workers have the two slots. -/
theorem slots_occupied_iff_created :
    ∃ system,
      (masterMachine threeProcesses).run (System.new threeProcesses) createWorkers = some system ∧
        SlotsOccupied threeProcesses system := by
  -- No worker has exited after the two were made.
  obtain ⟨system, ran, settled, noExits, -⟩ := workers_created
  exact ⟨system, ran, (slots_occupied_iff ran settled).mpr noExits⟩

/-- The first worker exits, and the master and its new copy both go back to wait. -/
theorem slot_not_refilled :
    ∃ system,
      (masterMachine threeProcesses).run (System.new threeProcesses)
          (createWorkers ++ [.exit 2, .work 1, .wait 1 2, .fork 1 4, .work 1, .work 4]) =
        some system ∧
      Settled system ∧ system.exits.length ≤ system.backup.length ∧
        ¬ SlotsOccupied threeProcesses system := by
  -- Only the second worker is live.
  have settled : ∀ system : System, system.exits.length ≤ system.backup.length →
      (∀ pid, (system.processes pid).pc ∈ [.absent, .started, .loopHead, .wait] ∧
        ¬ LiveWorker threeProcesses system pid 0) →
      Settled system ∧ system.exits.length ≤ system.backup.length ∧
        ¬ SlotsOccupied threeProcesses system := by
    intro system stock places
    refine ⟨fun pid => (places pid).1, stock, fun occupied => ?_⟩
    obtain ⟨pid, live, -⟩ := occupied.occupied 0 (by decide)
    exact (places pid).2 live
  refine ⟨_, rfl, settled _ (by decide) fun pid => ?_⟩
  by_cases isMaster : pid = 1
  · subst isMaster; decide
  by_cases isFirst : pid = 2
  · subst isFirst; decide
  by_cases isSecond : pid = 3
  · subst isSecond; decide
  by_cases isCopy : pid = 4
  · subst isCopy; decide
  simp [System.new, System.makeBackup, System.storeEventfd, System.set, threeProcesses, isMaster,
    isFirst, isSecond, isCopy, LiveWorker]

end EnhancedProxy
