import EnhancedProxy.Library.Machine
import Mathlib.Logic.Function.Basic

/-! The master process: the workers it forks, and its thread that waits for their exits. -/

namespace EnhancedProxy

/-- An open file: an eventfd of the master, numbered as they are made, or any other file. -/
inductive OpenFile
  | eventfd (n : Nat)
  | other
  deriving DecidableEq, Repr

/-- The descriptor table of a process. -/
abbrev FdTable := List (Option OpenFile)

namespace FdTable

/-- The file that a number refers to. -/
def file (table : FdTable) (fd : Nat) : Option OpenFile := table.getD fd none

/-- The lowest number that is not in use. -/
def unused (table : FdTable) : Nat := table.findIdx (·.isNone)

/-- Enter a file under the lowest number that is not in use. -/
def enter (table : FdTable) (new : OpenFile) : FdTable :=
  if table.unused < table.length then table.set table.unused (some new) else table ++ [some new]

/-- A number that is not in use refers to no file. -/
@[simp] theorem file_unused (table : FdTable) : table.file table.unused = none := by
  -- The first unused number is a closed place in the table, or the end of it.
  simp only [file, List.getD_eq_getElem?_getD]
  by_cases within : table.unused < table.length
  · rw [List.getElem?_eq_getElem within]
    exact Option.isNone_iff_eq_none.mp (List.findIdx_getElem (w := within))
  · rw [List.getElem?_eq_none (Nat.le_of_not_lt within), Option.getD_none]

/-- Only the number that a file is entered under changes its meaning. -/
theorem file_enter (table : FdTable) (new : OpenFile) (fd : Nat) :
    (table.enter new).file fd = if fd = table.unused then some new else table.file fd := by
  simp only [file, enter, List.getD_eq_getElem?_getD]
  split
  · -- A gap in the table is filled.
    grind
  · -- The table is extended.
    have : table.unused ≤ table.length := List.findIdx_le_length
    grind

end FdTable

/-- The part of a `WorkerProcess` object that its constructor's arguments decide. -/
structure WorkerProcess where
  shmFd : Nat
  shmId : Nat
  deriving DecidableEq, Repr

/-- Where a process stands in `MasterProcess::start` or in `checkWorkerExit`. -/
inductive MasterPc
  -- No process has this number.
  | absent
  -- In the loop that makes the backup eventfds.
  | backup (i : Nat)
  -- Before the test of the loop that makes the workers.
  | slot (i : Nat)
  -- Before `fork`, with the eventfd stored.
  | fork (i : Nat)
  -- After `fork`, in the parent.
  | parent (i pid : Nat)
  -- After `fork`, in the child, before the worker is constructed.
  | child (i : Nat)
  -- Before `worker->start()`.
  | constructed
  -- In the event loop of the worker.
  | started
  -- In `checkWorkerExit`, before the condition of the `while` loop.
  | loopHead
  -- Before `wait`.
  | wait
  -- Before the test of `pid`, with the slot looked up.
  | reaped (pid : Int) (shmId : Nat)
  -- After the `fork` that is to replace a worker.
  | respawned (pid : Int) (shmId pid_ : Nat)
  -- `checkWorkerExit` has returned.
  | returned
  -- Ended, and not yet waited for.
  | exited
  deriving DecidableEq, Repr

/-- One process: the memory that `fork` copies, its descriptors, and the children it can wait for. -/
structure Process where
  pc : MasterPc := .absent
  table : FdTable := []
  eventFdQueue : List Nat := []
  processShmIdMap : Int → Option Nat := fun _ => none
  worker : Option WorkerProcess := none
  children : List Nat := []

/-- `processShmIdMap[pid]`: a missing entry becomes zero. -/
def Process.lookup (process : Process) (pid : Int) : Process × Nat :=
  let shmId := (process.processShmIdMap pid).getD 0
  ({ process with processShmIdMap := Function.update process.processShmIdMap pid (some shmId) },
    shmId)

/-- What is fixed for a run: the arguments of the master, its number, and which of its descriptors
are open when it starts. -/
structure MasterSetting where
  processNum : Nat
  shmFd : Nat
  master : Nat
  inherited : List Bool

/-- The processes and their shared memory, with the number of eventfds made. The history keeps the
backup eventfds, and the slots of the workers that have exited. -/
structure System where
  shmAddr : Nat → Nat := fun _ => 0
  processes : Nat → Process := fun _ => {}
  eventfds : Nat := 0
  backup : List Nat := []
  exits : List Nat := []

/-- The next step of a process in its own code, `fork` and `wait` with the process they yield, and
what a process does besides. -/
inductive MasterStep
  | work (pid : Nat)
  | fork (pid child : Nat)
  | wait (pid child : Nat)
  | waitFails (pid : Nat)
  | openFile (pid : Nat)
  | exit (pid : Nat)
  deriving DecidableEq, Repr

namespace System

/-- Only the master, before `start`. -/
def new (setting : MasterSetting) : System where
  processes := Function.update (fun _ => {}) setting.master
    { pc := .backup 0
      table := setting.inherited.map fun isOpen => if isOpen then some .other else none }

/-- Replace one process. -/
def set (system : System) (pid : Nat) (process : Process) : System :=
  { system with processes := Function.update system.processes pid process }

/-- A backup eventfd is made, and queued unless its number is zero. -/
def makeBackup (system : System) (pid i : Nat) : System :=
  let process := system.processes pid
  let fd := process.table.unused
  let queued := if fd > 0 then [fd] else []
  { system.set pid
      { process with
        table := process.table.enter (.eventfd system.eventfds)
        eventFdQueue := process.eventFdQueue ++ queued
        pc := .backup (i + 1) } with
    eventfds := system.eventfds + 1
    backup := system.backup ++ queued }

/-- The eventfd of a slot is made and stored. -/
def storeEventfd (system : System) (pid i : Nat) : System :=
  let process := system.processes pid
  { system.set pid
      { process with
        table := process.table.enter (.eventfd system.eventfds)
        pc := .fork i } with
    shmAddr := Function.update system.shmAddr i process.table.unused
    eventfds := system.eventfds + 1 }

/-- The branch for the child of the second `fork`, which goes on with the loop of the parent. -/
def replaceWorker (system : System) (pid shmId : Nat) : System :=
  let process := system.processes pid
  let evfd := process.eventFdQueue.headD 0
  { system.set pid
      { process with
        eventFdQueue := process.eventFdQueue.tail
        -- The eventfd is passed for the descriptor of the shared memory.
        worker := some { shmFd := evfd, shmId := shmId }
        pc := .loopHead } with
    shmAddr := Function.update system.shmAddr shmId evfd }

/-- The next step of a process, where it is neither `fork` nor `wait`. -/
def work (setting : MasterSetting) (system : System) (pid : Nat) : Option System :=
  let process := system.processes pid
  match process.pc with
  | .backup i =>
    if i < 10 then some (system.makeBackup pid i)
    else some (system.set pid { process with pc := .slot 0 })
  | .slot i =>
    if i < setting.processNum - 1 then some (system.storeEventfd pid i)
    -- The last `fork` returned a number other than zero, so this is the master.
    else some (system.set pid { process with pc := .loopHead })
  | .parent i child =>
    some (system.set pid
      { process with
        processShmIdMap := Function.update process.processShmIdMap child (some i)
        pc := .slot (i + 1) })
  | .child i =>
    some (system.set pid
      { process with worker := some { shmFd := setting.shmFd, shmId := i }, pc := .constructed })
  | .constructed => some (system.set pid { process with pc := .started })
  | .loopHead =>
    some (system.set pid
      { process with pc := if process.eventFdQueue = [] then .returned else .wait })
  | .reaped exited _ =>
    -- Otherwise `fork` is next.
    if exited > -1 then none else some (system.set pid { process with pc := .loopHead })
  | .respawned exited shmId _ =>
    -- The number of the process that exited is tested, and not what `fork` returned.
    if exited = 0 then some (system.replaceWorker pid shmId)
    else some (system.set pid { process with pc := .loopHead })
  | _ => none

/-- `fork`: the parent and its copy go on from the same place with different results. -/
def fork (system : System) (pid child : Nat) : Option System :=
  let process := system.processes pid
  if child = 0 ∨ (system.processes child).pc ≠ .absent then none
  else
    match process.pc with
    | .fork i =>
      some ((system.set child { process with pc := .child i, children := [] }).set pid
        { process with pc := .parent i child, children := child :: process.children })
    | .reaped exited shmId =>
      if exited > -1 then
        some ((system.set child { process with pc := .respawned exited shmId 0, children := [] }).set
          pid { process with
                pc := .respawned exited shmId child
                children := child :: process.children })
      else none
    | _ => none

/-- `wait` returns the number of a child that has exited. -/
def wait (system : System) (pid child : Nat) : Option System :=
  let process := system.processes pid
  if process.pc = .wait ∧ child ∈ process.children ∧ (system.processes child).pc = .exited then
    let (process, shmId) := process.lookup child
    some ((system.set child {}).set pid
      { process with pc := .reaped child shmId, children := process.children.erase child })
  else none

/-- `wait` returns -1, as there is no child. -/
def waitFails (system : System) (pid : Nat) : Option System :=
  let process := system.processes pid
  if process.pc = .wait ∧ process.children = [] then
    let (process, shmId) := process.lookup (-1)
    some (system.set pid { process with pc := .reaped (-1) shmId })
  else none

/-- A process opens a file of its own, as an event loop does. -/
def openFile (system : System) (pid : Nat) : Option System :=
  let process := system.processes pid
  if process.pc = .constructed ∨ process.pc = .started ∨ process.pc = .loopHead then
    some (system.set pid { process with table := process.table.enter .other })
  else none

/-- A worker exits. -/
def exit (system : System) (pid : Nat) : Option System :=
  let process := system.processes pid
  if process.pc = .started then
    some { system.set pid { process with pc := .exited } with
      exits := system.exits ++ (process.worker.map (·.shmId)).toList }
  else none

end System

/-- The processes as a machine. -/
def masterMachine (setting : MasterSetting) : Machine System MasterStep where
  step system
    | .work pid => system.work setting pid
    | .fork pid child => system.fork pid child
    | .wait pid child => system.wait pid child
    | .waitFails pid => system.waitFails pid
    | .openFile pid => system.openFile pid
    | .exit pid => system.exit pid

end EnhancedProxy
