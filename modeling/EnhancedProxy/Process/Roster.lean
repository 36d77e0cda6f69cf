import EnhancedProxy.Process.Master

/-! The workers of the master: which process has which slot, in every state that is reached. -/

namespace EnhancedProxy

/-- The number of workers that the master has forked, by where it stands. -/
def MasterPc.forked (setting : MasterSetting) : MasterPc → Nat
  | .backup _ => 0
  | .slot i | .fork i => i
  | .parent i _ => i + 1
  | _ => setting.processNum - 1

/-- The number of eventfds that the master has made, by where it stands. -/
def MasterPc.made (setting : MasterSetting) : MasterPc → Nat
  | .backup i => i
  | .slot i => 10 + i
  | .fork i | .parent i _ => 11 + i
  | _ => 10 + (setting.processNum - 1)

namespace Process

/-- The slot that a process is forked for, or constructed with. -/
def slotOf (process : Process) : Option Nat :=
  match process.pc with
  | .child i => some i
  | .constructed | .started | .exited => process.worker.map (·.shmId)
  | _ => none

/-- The slot that the map has for a process, or will have once `fork` has been answered. -/
def known (process : Process) (pid : Nat) : Option Nat :=
  match process.pc with
  | .parent i child => if pid = child then some i else process.processShmIdMap pid
  | _ => process.processShmIdMap pid

/-- Where a process may stand: the loops of `start` are for the master alone, and `wait` has not
returned zero. -/
def Fits (setting : MasterSetting) (pid : Nat) (process : Process) : Prop :=
  0 ∉ process.children ∧
    match process.pc with
    | .backup i => pid = setting.master ∧ i ≤ 10
    | .slot i => pid = setting.master ∧ i ≤ setting.processNum - 1
    | .fork i | .parent i _ => pid = setting.master ∧ i < setting.processNum - 1
    | .absent | .child _ => pid ≠ setting.master
    | .constructed | .started | .exited =>
      pid ≠ setting.master ∧ ∃ slot, process.worker = some { shmFd := setting.shmFd, shmId := slot }
    | .reaped exited _ | .respawned exited _ _ => exited ≠ 0
    | .loopHead | .wait | .returned => True

/-- A process goes on, and nothing changes about the slots. -/
structure Follows (setting : MasterSetting) (pid : Nat) (process next : Process) : Prop where
  fits : next.Fits setting pid
  slot : next.slotOf = process.slotOf
  ended : next.pc = .exited ↔ process.pc = .exited
  forked : pid = setting.master → next.pc.forked setting = process.pc.forked setting
  known : pid = setting.master → ∀ child slot, process.known child = some slot →
    next.known child = some slot

end Process

/-- The slots and the processes match. -/
structure Roster (setting : MasterSetting) (processes : Nat → Process) (exits : List Nat) :
    Prop where
  fits : ∀ pid, (processes pid).Fits setting pid
  -- Only the slots forked so far have a process, and none has two.
  below : ∀ pid slot, (processes pid).slotOf = some slot →
    slot < (processes setting.master).pc.forked setting
  unique : ∀ pid other slot, (processes pid).slotOf = some slot →
    (processes other).slotOf = some slot → pid = other
  -- A slot has its process until the process exits, and never again.
  present : ∀ slot, slot < (processes setting.master).pc.forked setting → slot ∉ exits →
    ∃ pid, (processes pid).slotOf = some slot ∧ (processes pid).pc ≠ .exited
  lost : ∀ slot ∈ exits, slot < (processes setting.master).pc.forked setting ∧
    ∀ pid, (processes pid).slotOf = some slot → (processes pid).pc = .exited
  known : ∀ pid slot, (processes pid).slotOf = some slot →
    (processes setting.master).known pid = some slot

namespace System

variable {system next : System} {setting : MasterSetting} {pid child : Nat}

@[simp] theorem set_processes (process : Process) :
    (system.set pid process).processes = Function.update system.processes pid process := rfl

/-- A step of a process makes an eventfd, or only moves that process. -/
theorem work_cases (fits : (system.processes pid).Fits setting pid)
    (worked : system.work setting pid = some next) :
    (∃ i < 10, (system.processes pid).pc = .backup i ∧ next = system.makeBackup pid i) ∨
    (∃ i < setting.processNum - 1, (system.processes pid).pc = .slot i ∧
      next = system.storeEventfd pid i) ∨
    ∃ process, next = system.set pid process ∧
      (system.processes pid).Follows setting pid process ∧
      process.table = (system.processes pid).table ∧
      process.eventFdQueue = (system.processes pid).eventFdQueue ∧
      (pid = setting.master → process.pc.made setting = (system.processes pid).pc.made setting) := by
  obtain ⟨noZero, fits⟩ := fits
  -- One case for each place, and those that `fits` rules out vanish.
  cases place : (system.processes pid).pc <;> simp only [place] at fits <;>
    simp only [work, place, reduceCtorEq] at worked
  case backup i =>
    split at worked <;> cases worked
    · exact .inl ⟨i, ‹_›, rfl, rfl⟩
    · -- All ten are made.
      have : i = 10 := by omega
      exact .inr (.inr ⟨_, rfl, ⟨⟨noZero, fits.1, Nat.zero_le _⟩, by simp [Process.slotOf, place],
        by simp [place], by simp [MasterPc.forked, place], by simp [Process.known, place]⟩, rfl, rfl,
        by simp [MasterPc.made, this]⟩)
  case slot i =>
    split at worked <;> cases worked
    · exact .inr (.inl ⟨i, ‹_›, rfl, rfl⟩)
    · -- All workers are forked.
      have : i = setting.processNum - 1 := by omega
      exact .inr (.inr ⟨_, rfl, ⟨⟨noZero, trivial⟩, by simp [Process.slotOf, place],
        by simp [place], by simp [MasterPc.forked, place, this], by simp [Process.known, place]⟩,
        rfl, rfl, by simp [MasterPc.made, this]⟩)
  case parent i child =>
    cases worked
    -- The entry that was due is made.
    refine .inr (.inr ⟨_, rfl, ⟨⟨noZero, fits.1, fits.2⟩, by simp [Process.slotOf, place],
      by simp [place], by simp [MasterPc.forked, place], fun _ other slot => ?_⟩, rfl, rfl,
      by simp [MasterPc.made]; omega⟩)
    by_cases own : other = child
    · subst own
      simp [Process.known, place]
    · have apart : (other : Int) ≠ child := fun same => own (Int.natCast_inj.mp same)
      simp only [Process.known, place, if_neg own, Function.update_of_ne apart, imp_self]
  case child i =>
    cases worked
    -- The worker is constructed with the slot of the loop.
    exact .inr (.inr ⟨_, rfl, ⟨⟨noZero, fits, i, rfl⟩, by simp [Process.slotOf, place],
      by simp [place], fun isMaster => (fits isMaster).elim, fun isMaster => (fits isMaster).elim⟩,
      rfl, rfl, fun isMaster => (fits isMaster).elim⟩)
  case constructed =>
    -- `start` of the worker enters its event loop.
    cases worked
    exact .inr (.inr ⟨_, rfl, ⟨⟨noZero, fits⟩, by simp [Process.slotOf, place], by simp [place],
      fun isMaster => (fits.1 isMaster).elim, fun isMaster => (fits.1 isMaster).elim⟩,
      rfl, rfl, fun isMaster => (fits.1 isMaster).elim⟩)
  case loopHead =>
    cases worked
    -- The loop goes on while there is a backup eventfd.
    by_cases empty : (system.processes pid).eventFdQueue = [] <;>
    exact .inr (.inr ⟨_, rfl, ⟨⟨noZero, by simp [empty]⟩, by simp [Process.slotOf, place, empty],
      by simp [place, empty], by simp [MasterPc.forked, place, empty],
      by simp [Process.known, place, empty]⟩, rfl, rfl, by simp [MasterPc.made, empty]⟩)
  case reaped exited shmId =>
    split at worked <;> cases worked
    exact .inr (.inr ⟨_, rfl, ⟨⟨noZero, trivial⟩, by simp [Process.slotOf, place],
      by simp [place], by simp [MasterPc.forked, place], by simp [Process.known, place]⟩,
      rfl, rfl, by simp [MasterPc.made]⟩)
  case respawned exited shmId forked =>
    -- `wait` does not return zero, so no process takes the branch of the child.
    rw [if_neg fits] at worked
    cases worked
    exact .inr (.inr ⟨_, rfl, ⟨⟨noZero, trivial⟩, by simp [Process.slotOf, place],
      by simp [place], by simp [MasterPc.forked, place], by simp [Process.known, place]⟩,
      rfl, rfl, by simp [MasterPc.made]⟩)

/-- A process that makes an eventfd only moves, as far as the slots are concerned. -/
theorem makeBackup_follows {i : Nat} (fits : (system.processes pid).Fits setting pid)
    (place : (system.processes pid).pc = .backup i) (more : i < 10) :
    ∃ process, (system.makeBackup pid i).processes = Function.update system.processes pid process ∧
      (system.processes pid).Follows setting pid process := by
  -- The next place is the next backup, and every field but the table is kept.
  obtain ⟨noZero, fits⟩ := fits
  simp only [place] at fits
  exact ⟨_, rfl, ⟨noZero, fits.1, by omega⟩, by simp [Process.slotOf, place], by simp [place],
    by simp [MasterPc.forked, place], by simp [Process.known, place]⟩

/-- The same for the eventfd of a slot. -/
theorem storeEventfd_follows {i : Nat} (fits : (system.processes pid).Fits setting pid)
    (place : (system.processes pid).pc = .slot i) (more : i < setting.processNum - 1) :
    ∃ process,
      (system.storeEventfd pid i).processes = Function.update system.processes pid process ∧
      (system.processes pid).Follows setting pid process := by
  -- As for the backups: the place moves on and the eventfd is stored.
  obtain ⟨noZero, fits⟩ := fits
  simp only [place] at fits
  exact ⟨_, rfl, ⟨noZero, fits.1, more⟩, by simp [Process.slotOf, place], by simp [place],
    by simp [MasterPc.forked, place], by simp [Process.known, place]⟩

/-- A process that opens a file of its own stays where it is. -/
theorem openFile_cases (fits : (system.processes pid).Fits setting pid)
    (opened : system.openFile pid = some next) :
    ∃ process, next = system.set pid process ∧ (system.processes pid).Follows setting pid process ∧
      process.table = (system.processes pid).table.enter .other ∧
      process.eventFdQueue = (system.processes pid).eventFdQueue ∧
      process.pc = (system.processes pid).pc := by
  -- Only the descriptor table grows.
  simp only [openFile, Option.ite_none_right_eq_some, Option.some.injEq] at opened
  obtain ⟨-, rfl⟩ := opened
  exact ⟨_, rfl, ⟨fits, rfl, Iff.rfl, fun _ => rfl, fun _ _ _ known => known⟩, rfl, rfl, rfl⟩

/-- A `wait` that fails enters only the number -1. -/
theorem waitFails_cases (fits : (system.processes pid).Fits setting pid)
    (failed : system.waitFails pid = some next) :
    ∃ process, next = system.set pid process ∧ (system.processes pid).Follows setting pid process ∧
      process.table = (system.processes pid).table ∧
      process.eventFdQueue = (system.processes pid).eventFdQueue ∧
      (pid = setting.master → process.pc.made setting = (system.processes pid).pc.made setting) := by
  simp only [waitFails, Option.ite_none_right_eq_some, Option.some.injEq] at failed
  obtain ⟨here, rfl⟩ := failed
  refine ⟨_, rfl, ⟨⟨fits.1, by simp⟩, by simp [Process.slotOf, here.1], by simp [here.1],
    by simp [MasterPc.forked, here.1], ?_⟩, rfl, rfl, by simp [MasterPc.made, here.1]⟩
  -- No process has the number -1.
  simp [Process.known, Process.lookup, here.1]

/-- The master forks a worker, or some process forks a copy of itself in the thread that waits. -/
theorem fork_cases (forked : system.fork pid child = some next) :
    child ≠ 0 ∧ (system.processes child).pc = .absent ∧
      ((∃ i, (system.processes pid).pc = .fork i ∧
        next = (system.set child
            { system.processes pid with pc := .child i, children := [] }).set pid
          { system.processes pid with
            pc := .parent i child, children := child :: (system.processes pid).children }) ∨
      ∃ exited shmId, (system.processes pid).pc = .reaped exited shmId ∧
        next = (system.set child
            { system.processes pid with pc := .respawned exited shmId 0, children := [] }).set pid
          { system.processes pid with
            pc := .respawned exited shmId child
            children := child :: (system.processes pid).children }) := by
  simp only [fork, Option.ite_none_left_eq_some, not_or, not_not] at forked
  obtain ⟨⟨nonzero, free⟩, forked⟩ := forked
  refine ⟨nonzero, free, ?_⟩
  -- `fork` stands at two places.
  cases place : (system.processes pid).pc <;> simp only [place, reduceCtorEq] at forked
  case fork i =>
    cases forked
    exact .inl ⟨i, rfl, rfl⟩
  case reaped exited shmId =>
    split at forked <;> cases forked
    exact .inr ⟨exited, shmId, rfl, rfl⟩

/-- `wait` returns the number of a child that has exited, whose slot is looked up. -/
theorem wait_eq_some :
    system.wait pid child = some next ↔
      ((system.processes pid).pc = .wait ∧ child ∈ (system.processes pid).children ∧
        (system.processes child).pc = .exited) ∧
        (system.set child {}).set pid { (system.processes pid).lookup child |>.1 with
          pc := .reaped child ((system.processes pid).lookup child).2
          children := (system.processes pid).children.erase child } = next := by
  -- The test of the definition, and then its result.
  rw [wait, Option.ite_none_right_eq_some, Option.some.injEq]
  rfl

/-- A worker exits from its event loop. -/
theorem exit_eq_some :
    system.exit pid = some next ↔ (system.processes pid).pc = .started ∧
      { system.set pid { system.processes pid with pc := .exited } with
        exits := system.exits ++ ((system.processes pid).worker.map (·.shmId)).toList } = next := by
  -- The test of the definition, and then its result.
  rw [exit, Option.ite_none_right_eq_some, Option.some.injEq]

end System

namespace Roster

variable {setting : MasterSetting} {processes : Nat → Process} {exits : List Nat}
  {pid child : Nat} {process : Process}

/-- A process is replaced by one that fits. -/
theorem fits_update (fits : ∀ other, (processes other).Fits setting other)
    (here : process.Fits setting pid) (other : Nat) :
    (Function.update processes pid process other).Fits setting other :=
  -- The one that is put fits by assumption, the others as before.
  (Function.forall_update_iff _ (fun pid (process : Process) => process.Fits setting pid)).mpr
    ⟨here, fun other _ => fits other⟩ other

/-- Only the master starts with a place. -/
theorem new : Roster setting (System.new setting).processes [] := by
  -- No process has a slot yet.
  have slots : ∀ pid, ((System.new setting).processes pid).slotOf = none := by
    refine (Function.forall_update_iff _ (fun _ (process : Process) => process.slotOf = none)).mpr ?_
    exact ⟨rfl, fun _ _ => rfl⟩
  constructor
  case fits =>
    refine (Function.forall_update_iff _
      (fun pid (process : Process) => process.Fits setting pid)).mpr ?_
    exact ⟨⟨List.not_mem_nil, rfl, Nat.zero_le _⟩, fun _ ne => ⟨List.not_mem_nil, ne⟩⟩
  case below =>
    simp [slots]
  case unique =>
    simp [slots]
  case present =>
    simp [System.new, MasterPc.forked]
  case lost =>
    simp
  case known =>
    simp [slots]

/-- A process that goes on keeps the roster. -/
theorem follow (roster : Roster setting processes exits)
    (follows : (processes pid).Follows setting pid process) :
    Roster setting (Function.update processes pid process) exits := by
  -- What the roster says about a process is the same before and after.
  have slot : ∀ other, (Function.update processes pid process other).slotOf =
      (processes other).slotOf := by
    refine (Function.forall_update_iff _
      (fun other (process : Process) => process.slotOf = (processes other).slotOf)).mpr ?_
    exact ⟨follows.slot, fun _ _ => rfl⟩
  have ended : ∀ other, (Function.update processes pid process other).pc = .exited ↔
      (processes other).pc = .exited := by
    refine (Function.forall_update_iff _
      (fun other (process : Process) => process.pc = .exited ↔ (processes other).pc = .exited)).mpr ?_
    exact ⟨follows.ended, fun _ _ => Iff.rfl⟩
  have forked : (Function.update processes pid process setting.master).pc.forked setting =
      (processes setting.master).pc.forked setting := by
    by_cases isMaster : setting.master = pid
    · subst isMaster
      simpa using follows.forked rfl
    · rw [Function.update_of_ne isMaster]
  constructor
  case fits =>
    exact fits_update roster.fits follows.fits
  case below =>
    simpa only [slot, forked] using roster.below
  case unique =>
    simpa only [slot] using roster.unique
  case present =>
    simpa only [slot, forked, ne_eq, ended] using roster.present
  case lost =>
    simpa only [slot, forked, ended] using roster.lost
  case known =>
    intro other otherSlot has
    rw [slot] at has
    by_cases isMaster : setting.master = pid
    · subst isMaster
      simpa using follows.known rfl other otherSlot (roster.known other otherSlot has)
    · rw [Function.update_of_ne isMaster]
      exact roster.known other otherSlot has

/-- The master forks the worker of the next slot. -/
theorem fork {i : Nat} (roster : Roster setting processes exits) (nonzero : child ≠ 0)
    (free : (processes child).pc = .absent) (place : (processes pid).pc = .fork i) :
    Roster setting
      (Function.update
        (Function.update processes child { processes pid with pc := .child i, children := [] }) pid
        { processes pid with pc := .parent i child, children := child :: (processes pid).children })
      exits := by
  -- Only the master stands at the first `fork`, and the child was no process before.
  have fitsMaster := roster.fits pid
  have fitsChild := roster.fits child
  simp only [Process.Fits, place, free] at fitsMaster fitsChild
  obtain ⟨noZero, rfl, more⟩ := fitsMaster
  have fresh : (processes child).slotOf = none := by simp [Process.slotOf, free]
  have before : (processes setting.master).pc.forked setting = i := by simp [MasterPc.forked, place]
  generalize updated : Function.update (Function.update processes child _) setting.master _ = after
  -- The child has the slot, and nothing else has changed.
  have isMaster : after setting.master = { processes setting.master with
      pc := .parent i child, children := child :: (processes setting.master).children } := by
    rw [← updated, Function.update_self]
  have isChild : after child =
      { processes setting.master with pc := .child i, children := [] } := by
    rw [← updated, Function.update_of_ne fitsChild.2, Function.update_self]
  have isOther : ∀ other, other ≠ setting.master → other ≠ child →
      after other = processes other := by
    intro other notMaster notChild
    rw [← updated, Function.update_of_ne notMaster, Function.update_of_ne notChild]
  have slot : ∀ other, (after other).slotOf =
      if other = child then some i else (processes other).slotOf := by
    intro other
    by_cases toChild : other = child
    · simp [toChild, isChild, Process.slotOf]
    · by_cases toMaster : other = setting.master
      · simp [toMaster, Ne.symm fitsChild.2, isMaster, Process.slotOf, place]
      · rw [if_neg toChild, isOther other toMaster toChild]
  have ended : ∀ other, (after other).pc = .exited ↔ (processes other).pc = .exited := by
    intro other
    by_cases toChild : other = child
    · simp [toChild, isChild, free]
    · by_cases toMaster : other = setting.master
      · simp [toMaster, isMaster, place]
      · rw [isOther other toMaster toChild]
  have forked : (after setting.master).pc.forked setting = i + 1 := by
    simp [isMaster, MasterPc.forked]
  constructor
  case fits =>
    rw [← updated]
    refine fits_update (fits_update roster.fits ?_) ?_
    · exact ⟨List.not_mem_nil, fitsChild.2⟩
    · exact ⟨by simpa [nonzero.symm] using noZero, rfl, more⟩
  case below =>
    intro other otherSlot has
    rw [slot] at has
    split at has
    · cases has; omega
    · have := roster.below other otherSlot has
      omega
  case unique =>
    intro other another otherSlot has hasToo
    rw [slot] at has hasToo
    split at has <;> split at hasToo
    · simp_all
    · -- The slot is new.
      cases has
      have := roster.below another i hasToo
      omega
    · cases hasToo
      have := roster.below other i has
      omega
    · exact roster.unique other another otherSlot has hasToo
  case present =>
    intro otherSlot below notLost
    by_cases new : otherSlot = i
    -- The new slot has the child.
    · exact ⟨child, by rw [slot, if_pos rfl, new], by simp [isChild]⟩
    · obtain ⟨other, has, alive⟩ := roster.present otherSlot (by omega) notLost
      have notChild : other ≠ child := fun toChild => by simp [toChild, fresh] at has
      exact ⟨other, by rw [slot, if_neg notChild, has], mt (ended other).mp alive⟩
  case lost =>
    intro otherSlot isLost
    obtain ⟨below, gone⟩ := roster.lost otherSlot isLost
    refine ⟨by omega, fun other has => (ended other).mpr ?_⟩
    rw [slot] at has
    split at has
    · cases has; omega
    · exact gone other has
  case known =>
    intro other otherSlot has
    rw [slot] at has
    rw [isMaster]
    by_cases toChild : other = child
    · simpa [toChild, Process.known] using has
    · have := roster.known other otherSlot (by simpa [toChild] using has)
      simpa [toChild, Process.known, place] using this

/-- A process that has exited is waited for, and leaves. -/
theorem reap (roster : Roster setting processes exits) (gone : (processes child).pc = .exited) :
    Roster setting (Function.update processes child {}) exits := by
  -- The process that leaves is not the master.
  have fitsChild := roster.fits child
  simp only [Process.Fits, gone] at fitsChild
  have notMaster : child ≠ setting.master := fitsChild.2.1
  have same : Function.update processes child {} setting.master = processes setting.master :=
    Function.update_of_ne notMaster.symm _ _
  -- Whoever has a slot afterwards had it before.
  have slot : ∀ other otherSlot,
      (Function.update processes child {} other).slotOf = some otherSlot →
      Function.update processes child {} other = processes other := by
    refine (Function.forall_update_iff _ (fun other (process : Process) =>
      ∀ otherSlot, process.slotOf = some otherSlot → process = processes other)).mpr ?_
    exact ⟨fun _ has => by simp [Process.slotOf] at has, fun _ _ _ _ => rfl⟩
  constructor
  case fits =>
    exact fits_update roster.fits ⟨List.not_mem_nil, notMaster⟩
  case below =>
    intro other otherSlot has
    rw [same]
    exact roster.below other otherSlot (slot other otherSlot has ▸ has)
  case unique =>
    intro other another otherSlot has hasToo
    exact roster.unique other another otherSlot (slot other otherSlot has ▸ has)
      (slot another otherSlot hasToo ▸ hasToo)
  case present =>
    intro otherSlot below notLost
    rw [same] at below
    obtain ⟨other, has, alive⟩ := roster.present otherSlot below notLost
    have notChild : other ≠ child := fun toChild => alive (toChild ▸ gone)
    exact ⟨other, by rwa [Function.update_of_ne notChild], by rwa [Function.update_of_ne notChild]⟩
  case lost =>
    intro otherSlot isLost
    obtain ⟨below, lost⟩ := roster.lost otherSlot isLost
    refine ⟨by rwa [same], fun other has => ?_⟩
    rw [slot other otherSlot has]
    exact lost other (slot other otherSlot has ▸ has)
  case known =>
    intro other otherSlot has
    rw [same]
    exact roster.known other otherSlot (slot other otherSlot has ▸ has)

/-- A worker exits, and its slot is lost. -/
theorem exit {slot : Nat} (roster : Roster setting processes exits)
    (place : (processes pid).pc = .started) (has : (processes pid).slotOf = some slot) :
    Roster setting (Function.update processes pid { processes pid with pc := .exited })
      (exits ++ [slot]) := by
  -- A worker exits from its event loop, and is not the master.
  have fitsWorker := roster.fits pid
  simp only [Process.Fits, place] at fitsWorker
  have notMaster : pid ≠ setting.master := fitsWorker.2.1
  have same : Function.update processes pid { processes pid with pc := .exited } setting.master =
      processes setting.master := Function.update_of_ne notMaster.symm _ _
  have slots : ∀ other, (Function.update processes pid
      { processes pid with pc := .exited } other).slotOf = (processes other).slotOf := by
    refine (Function.forall_update_iff _ (fun other (process : Process) =>
      process.slotOf = (processes other).slotOf)).mpr ?_
    exact ⟨by simp [Process.slotOf, place], fun _ _ => rfl⟩
  constructor
  case fits =>
    exact fits_update roster.fits fitsWorker
  case below =>
    simpa only [slots, same] using roster.below
  case unique =>
    simpa only [slots] using roster.unique
  case present =>
    intro otherSlot below notLost
    simp only [List.mem_append, List.mem_singleton, not_or] at notLost
    rw [same] at below
    obtain ⟨other, hasOther, alive⟩ := roster.present otherSlot below notLost.1
    -- The slot of this worker is lost now, so another one is asked for.
    have notThis : other ≠ pid := fun toThis => by
      subst toThis
      exact notLost.2 (Option.some.inj (hasOther.symm.trans has))
    exact ⟨other, by rw [slots, hasOther], by rwa [Function.update_of_ne notThis]⟩
  case lost =>
    intro otherSlot isLost
    rw [same]
    rcases List.mem_append.mp isLost with before | now
    · -- The slot was lost before.
      obtain ⟨below, gone⟩ := roster.lost otherSlot before
      refine ⟨below, fun other hasOther => ?_⟩
      rw [slots] at hasOther
      by_cases toThis : other = pid
      · simp [toThis]
      · rw [Function.update_of_ne toThis]
        exact gone other hasOther
    · -- Only this process had the slot.
      cases List.mem_singleton.mp now
      refine ⟨roster.below pid slot has, fun other hasOther => ?_⟩
      rw [slots] at hasOther
      simp [roster.unique other pid slot hasOther has]
  case known =>
    simpa only [slots, same] using roster.known

end Roster

/-- Every step keeps the roster. -/
theorem roster_step {setting : MasterSetting} {system next : System} {label : MasterStep}
    (roster : Roster setting system.processes system.exits)
    (stepped : (masterMachine setting).step system label = some next) :
    Roster setting next.processes next.exits := by
  -- One case for each kind of step.
  cases label with
  | work pid =>
    rcases System.work_cases (roster.fits pid) stepped with
      ⟨i, more, place, rfl⟩ | ⟨i, more, place, rfl⟩ | ⟨process, rfl, follows, -⟩
    · obtain ⟨process, after, follows⟩ := System.makeBackup_follows (roster.fits pid) place more
      rw [after]
      exact roster.follow follows
    · obtain ⟨process, after, follows⟩ := System.storeEventfd_follows (roster.fits pid) place more
      rw [after]
      exact roster.follow follows
    · exact roster.follow follows
  | fork pid child =>
    obtain ⟨nonzero, free, ⟨i, place, rfl⟩ | ⟨exited, shmId, place, rfl⟩⟩ :=
      System.fork_cases stepped
    · exact roster.fork nonzero free place
    · -- A copy without a slot, and its parent.
      have fits := roster.fits pid
      have fitsChild := roster.fits child
      simp only [Process.Fits, place, free] at fits fitsChild
      have apart : pid ≠ child := fun same => by simp [same, free] at place
      have copied : (system.processes child).Follows setting child
          { system.processes pid with pc := .respawned exited shmId 0, children := [] } := by
        refine ⟨⟨List.not_mem_nil, fits.2⟩, ?_, ?_, ?_, ?_⟩
        · simp [Process.slotOf, free]
        · simp [free]
        · exact fun isMaster => (fitsChild.2 isMaster).elim
        · exact fun isMaster => (fitsChild.2 isMaster).elim
      refine (roster.follow copied).follow ?_
      · rw [Function.update_of_ne apart]
        exact ⟨⟨by simpa [nonzero.symm] using fits.1, fits.2⟩, by simp [Process.slotOf, place],
          by simp [place], by simp [MasterPc.forked, place], by simp [Process.known, place]⟩
  | wait pid child =>
    obtain ⟨⟨place, member, gone⟩, rfl⟩ := System.wait_eq_some.mp stepped
    have fits := roster.fits pid
    simp only [Process.Fits, place] at fits
    have apart : pid ≠ child := fun same => by simp [same, gone] at place
    refine (roster.reap gone).follow ?_
    rw [Function.update_of_ne apart]
    refine ⟨⟨fun zero => fits.1 (List.mem_of_mem_erase zero), ?_⟩, by simp [Process.slotOf, place],
      by simp [place], by simp [MasterPc.forked, place], fun _ other slot known => ?_⟩
    · -- The master has no child with the number zero.
      exact Int.natCast_ne_zero.mpr fun zero => fits.1 (zero ▸ member)
    · -- An entry that exists is looked up unchanged.
      simp only [Process.known, place] at known
      simp only [Process.known, Process.lookup, Function.update_apply]
      split
      · simp_all
      · exact known
  | waitFails pid =>
    obtain ⟨process, rfl, follows, -⟩ := System.waitFails_cases (roster.fits pid) stepped
    exact roster.follow follows
  | openFile pid =>
    obtain ⟨process, rfl, follows, -⟩ := System.openFile_cases (roster.fits pid) stepped
    exact roster.follow follows
  | exit pid =>
    obtain ⟨place, rfl⟩ := System.exit_eq_some.mp stepped
    have fits := roster.fits pid
    simp only [Process.Fits, place] at fits
    obtain ⟨-, -, slot, constructed⟩ := fits
    have has : (system.processes pid).slotOf = some slot := by
      simp [Process.slotOf, place, constructed]
    simpa [constructed] using roster.exit place has

/-- Every state that is reached has its roster. -/
theorem roster_run {setting : MasterSetting} {steps : List MasterStep} {system : System}
    (ran : (masterMachine setting).run (System.new setting) steps = some system) :
    Roster setting system.processes system.exits :=
  Machine.run_invariant (fun _ _ _ roster stepped => roster_step roster stepped) Roster.new ran

/-- A live worker: constructed with the shared memory's descriptor and its slot, and started. -/
def LiveWorker (setting : MasterSetting) (system : System) (pid slot : Nat) : Prop :=
  (system.processes pid).pc = .started ∧
    (system.processes pid).worker = some { shmFd := setting.shmFd, shmId := slot }

instance (setting : MasterSetting) (system : System) (pid slot : Nat) :
    Decidable (LiveWorker setting system pid slot) := inferInstanceAs (Decidable (_ ∧ _))

/-- The workers are created, and every exit has been handled: each process runs as a worker, or is
in the loop that waits for exits. -/
def Settled (system : System) : Prop :=
  ∀ pid, (system.processes pid).pc ∈ [.absent, .started, .loopHead, .wait]

section

variable {setting : MasterSetting} {system : System} {pid slot : Nat}

/-- A live worker has its slot. -/
theorem LiveWorker.slotOf (live : LiveWorker setting system pid slot) :
    (system.processes pid).slotOf = some slot := by
  simp [Process.slotOf, live.1, live.2]

/-- When all is settled, only live workers have slots. -/
theorem Settled.live (settled : Settled system)
    (roster : Roster setting system.processes system.exits)
    (has : (system.processes pid).slotOf = some slot) : LiveWorker setting system pid slot := by
  have place := settled pid
  have fits := roster.fits pid
  simp only [List.mem_cons, List.not_mem_nil, or_false] at place
  rcases place with place | place | place | place <;>
    simp only [Process.slotOf, place, reduceCtorEq] at has
  -- A started worker has been constructed with its slot.
  simp only [Process.Fits, place] at fits
  obtain ⟨-, -, constructedSlot, constructed⟩ := fits
  simp only [constructed, Option.map_some, Option.some.injEq] at has
  exact ⟨place, has ▸ constructed⟩

/-- When all is settled, the master has forked every worker, each with its eventfd made and entered
in the map. -/
theorem Settled.master (settled : Settled system) :
    (system.processes setting.master).pc.forked setting = setting.processNum - 1 ∧
      (system.processes setting.master).pc.made setting = 10 + (setting.processNum - 1) ∧
      ∀ pid : Nat, (system.processes setting.master).known pid =
        (system.processes setting.master).processShmIdMap pid := by
  -- After the two loops, the master is in the loop that waits.
  have place := settled setting.master
  simp only [List.mem_cons, List.not_mem_nil, or_false] at place
  rcases place with place | place | place | place <;>
    simp [MasterPc.forked, MasterPc.made, Process.known, place]

end

/-- The master and two workers. -/
def threeProcesses : MasterSetting where
  processNum := 3
  shmFd := 3
  master := 1
  inherited := [true, true, true, true]

/-- The steps of the master until it waits, and those of the workers until they are started. -/
def createWorkers : List MasterStep :=
  List.replicate 12 (.work 1) ++
    [.fork 1 2, .work 1, .work 1, .fork 1 3, .work 1, .work 1, .work 2, .work 2, .work 3, .work 3]

/-- Both workers are created, and the first has no file under the number of the second. -/
theorem workers_created :
    ∃ system,
      (masterMachine threeProcesses).run (System.new threeProcesses) createWorkers = some system ∧
        Settled system ∧ system.exits = [] ∧ LiveWorker threeProcesses system 2 0 ∧
        LiveWorker threeProcesses system 3 1 ∧
        (system.processes 2).table.file (system.shmAddr 1) = none := by
  refine ⟨_, rfl, fun pid => ?_, rfl, ⟨rfl, rfl⟩, ⟨rfl, rfl⟩, by decide⟩
  by_cases isMaster : pid = 1
  · subst isMaster; decide
  by_cases isFirst : pid = 2
  · subst isFirst; decide
  by_cases isSecond : pid = 3
  · subst isSecond; decide
  -- No other process has been forked.
  simp [System.new, System.makeBackup, System.storeEventfd, System.set, threeProcesses, isMaster,
    isFirst, isSecond]

end EnhancedProxy
