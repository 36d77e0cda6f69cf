import EnhancedProxy.Process.Roster

/-! The eventfds of the workers: which of them a worker can write to. -/

namespace EnhancedProxy

/-- The numbers in the shared memory refer to the eventfds of their slots, as far as these were made
before the table was copied, and the table has no later eventfd. -/
structure Holds (shmAddr : Nat → Nat) (table : FdTable) (made : Nat) : Prop where
  stored : ∀ slot, 10 + slot < made → table.file (shmAddr slot) = some (.eventfd (10 + slot))
  bound : ∀ fd n, table.file fd = some (.eventfd n) → n < made

namespace Holds

variable {shmAddr : Nat → Nat} {table : FdTable} {made slot : Nat}

/-- Another file does not change what the numbers refer to. -/
theorem enterOther (holds : Holds shmAddr table made) :
    Holds shmAddr (table.enter .other) made := by
  constructor
  · intro slot before
    -- A number that is in use is not given again.
    have used := holds.stored slot before
    have : shmAddr slot ≠ table.unused := fun same => by simp [same] at used
    rw [FdTable.file_enter, if_neg this, used]
  · intro fd n found
    rw [FdTable.file_enter] at found
    split at found
    · cases found
    · exact holds.bound fd n found

/-- A backup eventfd is made. -/
theorem enterBackup (holds : Holds shmAddr table made) (more : made < 10) :
    Holds shmAddr (table.enter (.eventfd made)) (made + 1) := by
  -- Nothing is stored yet.
  refine ⟨fun slot before => by omega, fun fd n found => ?_⟩
  rw [FdTable.file_enter] at found
  split at found
  · cases found; omega
  · have := holds.bound fd n found
    omega

/-- The eventfd of a slot is made and stored. -/
theorem store (holds : Holds shmAddr table (10 + slot)) :
    Holds (Function.update shmAddr slot table.unused) (table.enter (.eventfd (10 + slot)))
      (11 + slot) := by
  constructor
  · intro other before
    rw [FdTable.file_enter]
    by_cases new : other = slot
    · simp [new]
    · -- The earlier eventfds keep their numbers.
      have used := holds.stored other (by omega)
      have : shmAddr other ≠ table.unused := fun same => by simp [same] at used
      rw [Function.update_of_ne new, if_neg this, used]
  · intro fd n found
    rw [FdTable.file_enter] at found
    split at found
    · cases found; omega
    · have := holds.bound fd n found
      omega

/-- A number that is stored for a later slot does not matter. -/
theorem later {other fd : Nat} (holds : Holds shmAddr table (11 + slot)) (after : slot < other) :
    Holds (Function.update shmAddr other fd) table (11 + slot) := by
  -- The number for another slot stays.
  refine ⟨fun earlier before => ?_, holds.bound⟩
  rw [Function.update_of_ne (by omega)]
  exact holds.stored earlier before

end Holds

/-- The master has all eventfds, and a worker those that were made before it was forked. -/
structure Descriptors (setting : MasterSetting) (system : System) : Prop where
  made : system.eventfds = (system.processes setting.master).pc.made setting
  master : Holds system.shmAddr (system.processes setting.master).table system.eventfds
  worker : ∀ pid slot, (system.processes pid).slotOf = some slot →
    Holds system.shmAddr (system.processes pid).table (11 + slot)

namespace Descriptors

variable {setting : MasterSetting} {system : System} {pid : Nat} {process : Process}

/-- No eventfd has been made yet. -/
theorem new : Descriptors setting (System.new setting) := by
  refine ⟨by simp [System.new, MasterPc.made], ⟨fun slot before => ?_, fun fd n found => ?_⟩, ?_⟩
  · simp [System.new] at before
  · -- What the master inherits are other files.
    simp only [System.new, Function.update_self, FdTable.file, List.getD_eq_getElem?_getD,
      List.getElem?_map] at found
    cases inherited : setting.inherited[fd]? with
    | none => simp [inherited] at found
    | some isOpen => cases isOpen <;> simp [inherited] at found
  · refine (Function.forall_update_iff _ (fun _ (process : Process) => ∀ slot,
      process.slotOf = some slot →
        Holds (System.new setting).shmAddr process.table (11 + slot))).mpr ?_
    exact ⟨fun _ has => by simp [Process.slotOf] at has,
      fun _ _ _ has => by simp [Process.slotOf] at has⟩

/-- A process is replaced by one that has the eventfds of its place. -/
theorem set (descriptors : Descriptors setting system)
    (master : pid = setting.master →
      process.pc.made setting = (system.processes pid).pc.made setting ∧
        Holds system.shmAddr process.table system.eventfds)
    (worker : ∀ slot, process.slotOf = some slot →
      Holds system.shmAddr process.table (11 + slot)) :
    Descriptors setting (system.set pid process) := by
  -- Only the replaced process is to be looked at.
  refine ⟨?_, ?_, ?_⟩
  · by_cases isMaster : setting.master = pid
    · subst isMaster
      simpa [System.set, master rfl] using descriptors.made
    · simpa [System.set, Function.update_of_ne isMaster] using descriptors.made
  · by_cases isMaster : setting.master = pid
    · subst isMaster
      simpa [System.set] using (master rfl).2
    · simpa [System.set, Function.update_of_ne isMaster] using descriptors.master
  · refine (Function.forall_update_iff _ (fun _ (process : Process) => ∀ slot,
      process.slotOf = some slot → Holds system.shmAddr process.table (11 + slot))).mpr ?_
    exact ⟨worker, fun other _ => descriptors.worker other⟩

/-- A process goes on with its slot, and with the files it had. -/
theorem follow (descriptors : Descriptors setting system)
    (slot : process.slotOf = (system.processes pid).slotOf)
    (keeps : ∀ made, Holds system.shmAddr (system.processes pid).table made →
      Holds system.shmAddr process.table made)
    (made : pid = setting.master →
      process.pc.made setting = (system.processes pid).pc.made setting) :
    Descriptors setting (system.set pid process) := by
  -- The slot says which eventfds the process has, and it stays.
  refine descriptors.set (fun isMaster => ⟨made isMaster, keeps _ ?_⟩) fun _ has => keeps _ ?_
  · exact isMaster ▸ descriptors.master
  · exact descriptors.worker pid _ (slot ▸ has)

/-- A process goes on, while one that is not the master is replaced beside it. -/
theorem followBeside {other : Nat} {beside : Process} (descriptors : Descriptors setting system)
    (apart : pid ≠ other) (notMaster : other ≠ setting.master)
    (worker : ∀ slot, beside.slotOf = some slot → Holds system.shmAddr beside.table (11 + slot))
    (slot : process.slotOf = (system.processes pid).slotOf)
    (table : process.table = (system.processes pid).table)
    (made : pid = setting.master →
      process.pc.made setting = (system.processes pid).pc.made setting) :
    Descriptors setting ((system.set other beside).set pid process) := by
  -- The other process is placed first, and then the one that follows the state before.
  refine (descriptors.set (fun isMaster => (notMaster isMaster).elim) worker).follow
    ?_ (fun _ => ?_) fun isMaster => ?_
  all_goals rw [System.set_processes, Function.update_of_ne apart]
  · exact slot
  · exact fun holds => table ▸ holds
  · exact made isMaster

/-- The master makes a backup eventfd. -/
theorem makeBackup {i : Nat} (descriptors : Descriptors setting system) (more : i < 10)
    (place : (system.processes setting.master).pc = .backup i) :
    Descriptors setting (system.makeBackup setting.master i) := by
  -- The place of the master tells how many eventfds there are.
  have made : system.eventfds = i := by simpa [place, MasterPc.made] using descriptors.made
  refine ⟨?_, ?_, ?_⟩
  · simp [System.makeBackup, System.set, MasterPc.made, made]
  · simpa [System.makeBackup, System.set] using descriptors.master.enterBackup (made ▸ more)
  · refine (Function.forall_update_iff _ (fun _ (process : Process) => ∀ slot,
      process.slotOf = some slot → Holds system.shmAddr process.table (11 + slot))).mpr ?_
    exact ⟨fun _ has => by simp [Process.slotOf] at has, fun other _ => descriptors.worker other⟩

/-- The master makes the eventfd of a slot, and no worker that was forked before has it. -/
theorem storeEventfd {i : Nat} (descriptors : Descriptors setting system)
    (roster : Roster setting system.processes system.exits)
    (place : (system.processes setting.master).pc = .slot i) :
    Descriptors setting (system.storeEventfd setting.master i) := by
  -- The place of the master tells how many eventfds there are.
  have made : system.eventfds = 10 + i := by simpa [place, MasterPc.made] using descriptors.made
  have holds := descriptors.master
  rw [made] at holds
  refine ⟨?_, ?_, ?_⟩
  · simp [System.storeEventfd, System.set, MasterPc.made, made]
    omega
  · have := holds.store
    simpa [System.storeEventfd, System.set, made, Nat.add_comm, Nat.add_left_comm] using this
  · refine (Function.forall_update_iff _ (fun _ (process : Process) => ∀ slot,
      process.slotOf = some slot → Holds _ process.table (11 + slot))).mpr ?_
    refine ⟨fun _ has => by simp [Process.slotOf] at has, fun other _ slot has => ?_⟩
    -- The worker was forked for an earlier slot.
    have before := roster.below other slot has
    rw [place] at before
    exact (descriptors.worker other slot has).later before

/-- Every step keeps the descriptors. -/
theorem step {next : System} {label : MasterStep} (descriptors : Descriptors setting system)
    (roster : Roster setting system.processes system.exits)
    (stepped : (masterMachine setting).step system label = some next) :
    Descriptors setting next := by
  -- Only two kinds of steps make eventfds, and `fork` copies the table.
  cases label with
  | work pid =>
    have fits := roster.fits pid
    rcases System.work_cases fits stepped with
      ⟨i, more, place, rfl⟩ | ⟨i, more, place, rfl⟩ | ⟨process, rfl, follows, table, -, made⟩
    · simp only [Process.Fits, place] at fits
      obtain ⟨-, rfl, -⟩ := fits
      exact descriptors.makeBackup more place
    · simp only [Process.Fits, place] at fits
      obtain ⟨-, rfl, -⟩ := fits
      exact descriptors.storeEventfd roster place
    · exact descriptors.follow follows.slot (fun _ holds => table ▸ holds) made
  | fork pid child =>
    obtain ⟨-, free, ⟨i, place, rfl⟩ | ⟨exited, shmId, place, rfl⟩⟩ := System.fork_cases stepped
    · -- The child has the eventfds of the master.
      have fits := roster.fits pid
      simp only [Process.Fits, place] at fits
      obtain ⟨-, rfl, -⟩ := fits
      have fitsChild := roster.fits child
      simp only [Process.Fits, free] at fitsChild
      have made : system.eventfds = 11 + i := by simpa [place, MasterPc.made] using descriptors.made
      refine descriptors.followBeside (Ne.symm fitsChild.2) fitsChild.2 (fun slot has => ?_)
        (by simp [Process.slotOf, place]) rfl fun _ => by simp [MasterPc.made, place]
      simp only [Process.slotOf, Option.some.injEq] at has
      subst has
      exact made ▸ descriptors.master
    · -- The copy has no slot.
      have fitsChild := roster.fits child
      simp only [Process.Fits, free] at fitsChild
      have apart : pid ≠ child := fun same => by simp [same, free] at place
      exact descriptors.followBeside apart fitsChild.2 (by simp [Process.slotOf])
        (by simp [Process.slotOf, place]) rfl fun _ => by simp [MasterPc.made, place]
  | wait pid child =>
    obtain ⟨⟨place, member, gone⟩, rfl⟩ := System.wait_eq_some.mp stepped
    have fitsChild := roster.fits child
    simp only [Process.Fits, gone] at fitsChild
    have apart : pid ≠ child := fun same => by simp [same, gone] at place
    -- The number of the child is free again.
    exact descriptors.followBeside apart fitsChild.2.1 (by simp [Process.slotOf])
      (by simp [Process.slotOf, place]) rfl fun _ => by simp [MasterPc.made, place]
  | waitFails pid =>
    obtain ⟨process, rfl, follows, table, -, made⟩ :=
      System.waitFails_cases (roster.fits pid) stepped
    exact descriptors.follow follows.slot (fun _ holds => table ▸ holds) made
  | openFile pid =>
    obtain ⟨process, rfl, follows, table, -, place⟩ :=
      System.openFile_cases (roster.fits pid) stepped
    exact descriptors.follow follows.slot (fun _ holds => table ▸ holds.enterOther) fun _ => by
      rw [place]
  | exit pid =>
    obtain ⟨place, rfl⟩ := System.exit_eq_some.mp stepped
    have exited : Descriptors setting
        (system.set pid { system.processes pid with pc := .exited }) :=
      descriptors.follow (by simp [Process.slotOf, place]) (fun _ => id)
        fun _ => by simp [MasterPc.made, place]
    -- The slots that are lost do not matter here.
    exact ⟨exited.made, exited.master, exited.worker⟩

/-- Every state that is reached has its descriptors. -/
theorem run {steps : List MasterStep}
    (ran : (masterMachine setting).run (System.new setting) steps = some system) :
    Descriptors setting system := by
  -- The roster is kept along with it.
  have preserved : ∀ system label next,
      Roster setting system.processes system.exits ∧ Descriptors setting system →
      (masterMachine setting).step system label = some next →
      Roster setting next.processes next.exits ∧ Descriptors setting next :=
    fun _ _ _ held stepped => ⟨roster_step held.1 stepped, held.2.step held.1 stepped⟩
  exact (Machine.run_invariant preserved ⟨Roster.new, new⟩ ran).2

end Descriptors

/-- The number in the shared memory for a slot refers in both processes to the same eventfd. -/
def SameEventfd (system : System) (pid other slot : Nat) : Prop :=
  ∃ n, (system.processes pid).table.file (system.shmAddr slot) = some (.eventfd n) ∧
    (system.processes other).table.file (system.shmAddr slot) = some (.eventfd n)

/-- Among live workers, the number for a slot refers to the eventfd of that slot exactly in the
workers that were not forked before its own. So once all workers are created, all numbers mean the
same in every worker exactly if there is only one worker. -/
theorem same_eventfd_iff {setting : MasterSetting} {steps : List MasterStep} {system : System}
    (ran : (masterMachine setting).run (System.new setting) steps = some system) :
    (∀ pid other i j, LiveWorker setting system pid i → LiveWorker setting system other j →
      (SameEventfd system pid other j ↔ j ≤ i)) ∧
    (2 ≤ setting.processNum → Settled system → system.exits = [] →
      ((∀ pid other i j, LiveWorker setting system pid i → LiveWorker setting system other j →
        SameEventfd system pid other j) ↔ setting.processNum = 2)) := by
  have roster := roster_run ran
  have descriptors := Descriptors.run ran
  -- A live worker has the eventfd of its own slot, and all earlier ones.
  have pairs : ∀ pid other i j, LiveWorker setting system pid i →
      LiveWorker setting system other j → (SameEventfd system pid other j ↔ j ≤ i) := by
    intro pid other i j live liveOther
    have holds := descriptors.worker pid i live.slotOf
    have own := (descriptors.worker other j liveOther.slotOf).stored j (by omega)
    constructor
    · -- A worker that was forked earlier has no such eventfd.
      rintro ⟨n, found, foundOther⟩
      rw [own] at foundOther
      cases foundOther
      have := holds.bound _ _ found
      omega
    · intro earlier
      exact ⟨10 + j, holds.stored j (by omega), own⟩
  refine ⟨pairs, fun several settled noExits => ?_⟩
  constructor
  · intro all
    by_contra more
    -- The first two workers are there, and the first lacks the eventfd of the second.
    have live : ∀ slot < 2, ∃ pid, LiveWorker setting system pid slot := by
      intro slot below
      obtain ⟨pid, has, -⟩ :=
        roster.present slot (by rw [settled.master.1]; omega) (by simp [noExits])
      exact ⟨pid, settled.live roster has⟩
    obtain ⟨first, liveFirst⟩ := live 0 (by omega)
    obtain ⟨second, liveSecond⟩ := live 1 (by omega)
    have := (pairs first second 0 1 liveFirst liveSecond).mp
      (all first second 0 1 liveFirst liveSecond)
    omega
  · intro two pid other i j live liveOther
    -- There is only slot zero.
    have below := roster.below other j liveOther.slotOf
    rw [settled.master.1] at below
    exact (pairs pid other i j live liveOther).mpr (by omega)

/-- With two workers, the second can write to both, and so it is not for the first. -/
theorem same_eventfd_iff_two :
    ∃ system,
      (masterMachine threeProcesses).run (System.new threeProcesses) createWorkers = some system ∧
        SameEventfd system 3 2 0 ∧
        ¬ ∀ pid other i j, LiveWorker threeProcesses system pid i →
          LiveWorker threeProcesses system other j → SameEventfd system pid other j := by
  -- The second worker was forked after both eventfds were made; the first was not.
  obtain ⟨system, ran, settled, noExits, first, second, -⟩ := workers_created
  have holds := same_eventfd_iff ran
  refine ⟨system, ran, (holds.1 3 2 1 0 second first).mpr (Nat.zero_le 1), fun all => ?_⟩
  exact absurd ((holds.2 (by decide) settled noExits).mp all) (by decide)

/-- The first of two workers has no file under the number for the second, which uses it. -/
theorem first_worker_lacks_second :
    ∃ system,
      (masterMachine threeProcesses).run (System.new threeProcesses) createWorkers = some system ∧
        Settled system ∧ system.exits = [] ∧ LiveWorker threeProcesses system 2 0 ∧
        LiveWorker threeProcesses system 3 1 ∧ ¬ SameEventfd system 2 3 1 := by
  -- The file of the second worker was opened after the first had been forked.
  obtain ⟨system, ran, settled, noExits, first, second, missing⟩ := workers_created
  refine ⟨system, ran, settled, noExits, first, second, ?_⟩
  rintro ⟨n, found, -⟩
  rw [missing] at found
  cases found

end EnhancedProxy
