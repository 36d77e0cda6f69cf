import EnhancedProxy.Http.Bytes
import EnhancedProxy.Process.Roster
import Mathlib.Logic.Function.Iterate

/-! The indices by which the master and its workers reach the ints that they share. -/

namespace EnhancedProxy

/-- The processes, with the `notifyId` that each has in its memory. -/
structure Slots where
  system : System
  notifyIds : Nat → Int

/-- A step of the master or a worker, where `wait` may return anything and `fork` may fail. -/
inductive SlotStep
  | master (step : MasterStep)
  | waitReturns (pid : Nat) (value : Int)
  | forkFails (pid : Nat)
  | notify (pid : Nat)
  | eventHandler (pid : Nat)
  deriving DecidableEq, Repr

namespace Slots

/-- Only the master, before `start`. -/
def new (setting : MasterSetting) : Slots where
  system := System.new setting
  notifyIds _ := 0

/-- `fork` copies `notifyId` with the rest of the memory. -/
def noteFork (slots : Slots) : MasterStep → Nat → Int
  | .fork pid child => Function.update slots.notifyIds child (slots.notifyIds pid)
  | _ => slots.notifyIds

/-- `wait` returns a value, whose slot is looked up. -/
def waitReturns (slots : Slots) (pid : Nat) (value : Int) : Option Slots :=
  let process := slots.system.processes pid
  if process.pc = .wait then
    let (process, shmId) := process.lookup value
    some { slots with system := slots.system.set pid { process with pc := .reaped value shmId } }
  else none

/-- `fork` returns -1. -/
def forkFails (slots : Slots) (pid : Nat) : Option Slots :=
  let process := slots.system.processes pid
  match process.pc with
  | .fork i =>
    some { slots with
      system := slots.system.set pid
        { process with
          processShmIdMap := Function.update process.processShmIdMap (-1) (some i)
          pc := .slot (i + 1) } }
  | .reaped exited shmId =>
    -- What this `fork` returns is not read.
    if exited > -1 then
      some { slots with
        system := slots.system.set pid { process with pc := .respawned exited shmId 0 } }
    else none
  | _ => none

/-- `notify`, in a process that runs. -/
def notify (slots : Slots) (pid : Nat) : Option Slots :=
  let place := (slots.system.processes pid).pc
  if place = .absent ∨ place = .exited then none
  else
    some { slots with
      notifyIds := Function.update slots.notifyIds pid (toInt32 (slots.notifyIds pid + 1)) }

end Slots

/-- The processes as a machine, with what concerns the ints that they share. -/
def slotMachine (setting : MasterSetting) : Machine Slots SlotStep where
  step slots
    | .master step =>
      ((masterMachine setting).step slots.system step).map fun next =>
        { system := next, notifyIds := slots.noteFork step }
    | .waitReturns pid value => slots.waitReturns pid value
    | .forkFails pid => slots.forkFails pid
    | .notify pid => slots.notify pid
    | .eventHandler pid => if (slots.system.processes pid).pc = .started then some slots else none

/-- The index in `notify`. -/
def notifyIndex (processNum : Nat) (notifyId : Int) : Int := notifyId.tmod (processNum - 1)

/-- The index of the next eventfd in `EventHandler`. -/
def nextSlot (processNum shmId : Nat) : Nat := (shmId + 1) % processNum

/-- The indices into `shmAddr` that a step uses. -/
def Slots.indices (setting : MasterSetting) (slots : Slots) : SlotStep → List Int
  | .master (.work pid) =>
    let process := slots.system.processes pid
    match process.pc with
    | .slot i => if i < setting.processNum - 1 then [(i : Int)] else []
    -- The number is printed.
    | .child i => [(i : Int)]
    -- `WorkerProcess::start`.
    | .constructed => process.worker.elim [] fun worker => [(worker.shmId : Int)]
    | .respawned exited shmId _ => if exited = 0 then [(shmId : Int)] else []
    | _ => []
  | .notify pid => [notifyIndex setting.processNum (slots.notifyIds pid)]
  | .eventHandler pid =>
    (slots.system.processes pid).worker.elim [] fun worker =>
      [(worker.shmId : Int), (nextSlot setting.processNum worker.shmId : Int)]
  | _ => []

/-- A step keeps to the ints that are mapped. -/
def SlotsInRange (setting : MasterSetting) (slots : Slots) (step : SlotStep) : Prop :=
  ∀ index ∈ slots.indices setting step, 0 ≤ index ∧ index < (setting.processNum : Int) - 1

/-- `notify` is called with a `notifyId` that is not negative or divided by the number of workers,
and the worker of the last slot does not run `EventHandler`. -/
def SlotsSafe (setting : MasterSetting) (slots : Slots) : SlotStep → Prop
  | .notify pid =>
    0 ≤ slots.notifyIds pid ∨ ((setting.processNum : Int) - 1) ∣ slots.notifyIds pid
  | .eventHandler pid =>
    ∀ worker, (slots.system.processes pid).worker = some worker →
      worker.shmId + 1 ≠ setting.processNum - 1
  | _ => True

/-- The slot that a process is at, if it is at one, is one of `count`. -/
def MasterPc.SlotFits (count : Nat) : MasterPc → Prop
  | .fork i | .parent i _ | .child i => i < count
  | .reaped _ shmId | .respawned _ shmId _ => shmId < count
  | _ => True

/-- Every slot that a process knows of is one of `count`. -/
structure Process.SlotsFit (count : Nat) (process : Process) : Prop where
  place : process.pc.SlotFits count
  known : ∀ pid shmId, process.processShmIdMap pid = some shmId → shmId < count
  worker : ∀ worker, process.worker = some worker → worker.shmId < count

namespace Process.SlotsFit

variable {count : Nat} {process : Process}

/-- A process that does not exist knows of no slot. -/
theorem none : Process.SlotsFit count {} := ⟨trivial, by simp, by simp⟩

/-- A process moves to another place. -/
theorem move (fits : process.SlotsFit count) {next : Process} (place : next.pc.SlotFits count)
    (map : next.processShmIdMap = process.processShmIdMap) (worker : next.worker = process.worker) :
    next.SlotsFit count where
  -- The map and the worker are the ones before.
  place := place
  known pid shmId found := fits.known pid shmId (by rwa [map] at found)
  worker other made := fits.worker other (by rwa [worker] at made)

/-- An entry of the map is made. -/
theorem enter (fits : process.SlotsFit count) {next : Process} {key : Int} {slot : Nat}
    (place : next.pc.SlotFits count)
    (map : next.processShmIdMap = Function.update process.processShmIdMap key (some slot))
    (within : slot < count) (worker : next.worker = process.worker) : next.SlotsFit count where
  -- The new entry of the map names a slot that exists; the others were known before.
  place := place
  known pid shmId found := by
    rw [map] at found
    by_cases same : pid = key
    · rw [same, Function.update_self] at found
      exact Option.some.inj found ▸ within
    · rw [Function.update_of_ne same] at found
      exact fits.known pid shmId found
  worker other made := fits.worker other (by rwa [worker] at made)

/-- The slot of an entry, or that of a missing entry, is one of `count`. -/
theorem lookup (fits : process.SlotsFit count) (some_ : 0 < count) (key : Int) :
    (process.lookup key).2 < count := by
  -- A missing entry reads as slot 0, which exists as there is one at all.
  simp only [Process.lookup]
  cases found : process.processShmIdMap key with
  | none => exact some_
  | some shmId => exact fits.known key shmId found

end Process.SlotsFit

/-- Every process knows only of slots that are there. -/
structure SlotsKnown (count : Nat) (system : System) : Prop where
  process : ∀ pid, (system.processes pid).SlotsFit count

namespace SlotsKnown

variable {count : Nat} {system next : System} {pid : Nat} {process : Process}

/-- Before `start`, no slot is known. -/
theorem new (setting : MasterSetting) : SlotsKnown count (System.new setting) where
  -- Only the master is there, and it has no slot and an empty map.
  process pid := by
    simp only [System.new]
    by_cases isMaster : pid = setting.master
    · rw [isMaster, Function.update_self]
      exact ⟨trivial, by simp, by simp⟩
    · rw [Function.update_of_ne isMaster]
      exact .none

/-- One process is replaced, and what is beside the processes has no part in it. -/
theorem update (known : SlotsKnown count system)
    (replaced : next.processes = Function.update system.processes pid process)
    (fits : process.SlotsFit count) : SlotsKnown count next where
  -- One process is replaced, and the property speaks of each of them alone.
  process other := by
    rw [replaced]
    by_cases same : other = pid
    · rwa [same, Function.update_self]
    · rw [Function.update_of_ne same]
      exact known.process other

/-- A step of a process in its own code keeps to the slots that are there. -/
theorem work {setting : MasterSetting} (known : SlotsKnown (setting.processNum - 1) system)
    (worked : system.work setting pid = some next) : SlotsKnown (setting.processNum - 1) next := by
  have fits := known.process pid
  have here := fits.place
  -- One case for each place.
  cases place : (system.processes pid).pc <;> simp only [place] at here <;>
    simp only [System.work, place, reduceCtorEq] at worked
  case backup i =>
    split at worked <;> cases worked
    · refine known.update rfl (fits.move ?_ rfl rfl)
      trivial
    · refine known.update rfl (fits.move ?_ rfl rfl)
      trivial
  case slot i =>
    split at worked <;> cases worked
    · -- The loop's own test bounds the slot.
      rename_i within
      refine known.update rfl (fits.move ?_ rfl rfl)
      exact within
    · exact known.update rfl (fits.move trivial rfl rfl)
  case parent i child =>
    -- The number of the child is entered with the slot of the loop.
    cases worked
    exact known.update rfl (fits.enter trivial rfl here rfl)
  case child i =>
    -- The worker is constructed with the slot that its process was forked for.
    cases worked
    refine known.update rfl ⟨trivial, fits.known, fun worker made => ?_⟩
    cases made
    exact here
  case constructed =>
    cases worked
    exact known.update rfl (fits.move trivial rfl rfl)
  case loopHead =>
    cases worked
    refine known.update rfl (fits.move ?_ rfl rfl)
    dsimp only
    split <;> trivial
  case reaped exited shmId =>
    split at worked <;> cases worked
    exact known.update rfl (fits.move trivial rfl rfl)
  case respawned exited shmId forked =>
    split at worked <;> cases worked
    · -- The new worker takes the slot that was looked up.
      refine known.update rfl ⟨trivial, fits.known, fun worker made => ?_⟩
      cases made
      exact here
    · exact known.update rfl (fits.move trivial rfl rfl)

/-- `fork` gives the child the slots that its parent knows of. -/
theorem fork {child : Nat} (known : SlotsKnown count system)
    (forked : system.fork pid child = some next) : SlotsKnown count next := by
  have fits := known.process pid
  have here := fits.place
  obtain ⟨-, -, ⟨i, place, rfl⟩ | ⟨exited, shmId, place, rfl⟩⟩ := System.fork_cases forked
  · -- The child is to be the worker of the slot.
    rw [place] at here
    have made : SlotsKnown count (system.set child
        { system.processes pid with pc := .child i, children := [] }) :=
      known.update rfl (fits.move here rfl rfl)
    exact made.update rfl (fits.move here rfl rfl)
  · -- The child is to replace the worker that has exited.
    rw [place] at here
    have made : SlotsKnown count (system.set child
        { system.processes pid with pc := .respawned exited shmId 0, children := [] }) :=
      known.update rfl (fits.move here rfl rfl)
    exact made.update rfl (fits.move here rfl rfl)

/-- The slot that is looked up for what `wait` returned is one that is there. -/
theorem reaped (known : SlotsKnown count system) (some_ : 0 < count) {value : Int}
    (children : List Nat) :
    Process.SlotsFit count { (system.processes pid).lookup value |>.1 with
      pc := .reaped value ((system.processes pid).lookup value).2, children := children } := by
  -- What `wait` returned is entered in the map with the slot it was looked up with.
  have within := (known.process pid).lookup some_ value
  exact (known.process pid).enter within rfl within rfl

/-- Every step of the master or a worker keeps to the slots that are there. -/
theorem masterStep {setting : MasterSetting} {step : MasterStep}
    (known : SlotsKnown (setting.processNum - 1) system) (some_ : 0 < setting.processNum - 1)
    (stepped : (masterMachine setting).step system step = some next) :
    SlotsKnown (setting.processNum - 1) next := by
  -- A child that has ended leaves its slot to the one that takes its place.
  cases step with
  | work pid => exact known.work stepped
  | fork pid child => exact known.fork stepped
  | wait pid child =>
    obtain ⟨-, rfl⟩ := System.wait_eq_some.mp stepped
    have gone : SlotsKnown (setting.processNum - 1) (system.set child {}) := known.update rfl .none
    exact gone.update rfl (known.reaped some_ _)
  | waitFails pid =>
    simp only [masterMachine, System.waitFails, Option.ite_none_right_eq_some,
      Option.some.injEq] at stepped
    obtain ⟨-, rfl⟩ := stepped
    exact known.update rfl (known.reaped some_ _)
  | openFile pid =>
    simp only [masterMachine, System.openFile, Option.ite_none_right_eq_some,
      Option.some.injEq] at stepped
    obtain ⟨-, rfl⟩ := stepped
    have fits := known.process pid
    exact known.update rfl (fits.move fits.place rfl rfl)
  | exit pid =>
    obtain ⟨-, rfl⟩ := System.exit_eq_some.mp stepped
    exact known.update rfl ((known.process pid).move trivial rfl rfl)

end SlotsKnown

/-- Every step keeps to the slots that are there. -/
theorem slotsKnown_step {setting : MasterSetting} {slots next : Slots} {step : SlotStep}
    (some_ : 0 < setting.processNum - 1)
    (known : SlotsKnown (setting.processNum - 1) slots.system)
    (stepped : (slotMachine setting).step slots step = some next) :
    SlotsKnown (setting.processNum - 1) next.system := by
  cases step with
  | master step =>
    obtain ⟨system, moved, rfl⟩ := Option.map_eq_some_iff.mp stepped
    exact known.masterStep some_ moved
  | waitReturns pid value =>
    simp only [slotMachine, Slots.waitReturns, Option.ite_none_right_eq_some,
      Option.some.injEq] at stepped
    obtain ⟨-, rfl⟩ := stepped
    exact known.update rfl (known.reaped some_ _)
  | forkFails pid =>
    have fits := known.process pid
    have here := fits.place
    simp only [slotMachine, Slots.forkFails] at stepped
    split at stepped
    · rename_i i place
      -- The slot of the loop is entered for the number -1.
      cases stepped
      rw [place] at here
      exact known.update rfl (fits.enter trivial rfl here rfl)
    · rename_i exited shmId place
      rw [place] at here
      split at stepped
      · cases stepped
        exact known.update rfl (fits.move here rfl rfl)
      · cases stepped
    · cases stepped
  | notify pid =>
    simp only [slotMachine, Slots.notify, Option.ite_none_left_eq_some,
      Option.some.injEq] at stepped
    obtain ⟨-, rfl⟩ := stepped
    exact known
  | eventHandler pid =>
    simp only [slotMachine, Option.ite_none_right_eq_some, Option.some.injEq] at stepped
    obtain ⟨-, rfl⟩ := stepped
    exact known

/-- The index in `notify` is that of a worker exactly if the remainder is not negative. -/
theorem notifyIndex_inRange {processNum : Nat} (some_ : 0 < processNum - 1) (notifyId : Int) :
    (0 ≤ notifyIndex processNum notifyId ∧ notifyIndex processNum notifyId < (processNum : Int) - 1) ↔
      (0 ≤ notifyId ∨ ((processNum : Int) - 1) ∣ notifyId) := by
  have positive : (0 : Int) < processNum - 1 := by omega
  unfold notifyIndex
  constructor
  · intro inRange
    by_cases counts : 0 ≤ notifyId
    · exact .inl counts
    · -- The remainder of a negative number is not positive.
      have opposite := Int.tmod_nonneg ((processNum : Int) - 1) (show 0 ≤ -notifyId by omega)
      rw [Int.neg_tmod] at opposite
      exact .inr (Int.dvd_iff_tmod_eq_zero.mpr (by omega))
  · intro safe
    rcases safe with counts | divided
    · exact ⟨Int.tmod_nonneg _ counts, Int.tmod_lt_of_pos _ positive⟩
    · rw [Int.tmod_eq_zero_of_dvd divided]
      omega

/-- The next slot is one of a worker exactly if this is not the last one. -/
theorem nextSlot_inRange {processNum shmId : Nat} (within : shmId < processNum - 1) :
    nextSlot processNum shmId < processNum - 1 ↔ shmId + 1 ≠ processNum - 1 := by
  -- The next slot is the number plus one, which is not yet taken modulo anything.
  rw [nextSlot, Nat.mod_eq_of_lt (by omega)]
  omega

/-- A step keeps to the ints that are mapped exactly if it is safe. -/
theorem slotsInRange_iff {setting : MasterSetting} {slots : Slots} {step : SlotStep}
    (some_ : 0 < setting.processNum - 1)
    (known : SlotsKnown (setting.processNum - 1) slots.system) :
    SlotsInRange setting slots step ↔ SlotsSafe setting slots step := by
  -- The slots that a process knows of are in range.
  have inRange {index : Nat} (within : index < setting.processNum - 1) :
      0 ≤ (index : Int) ∧ (index : Int) < setting.processNum - 1 := by omega
  cases step with
  | notify pid =>
    simp only [SlotsInRange, Slots.indices, List.forall_mem_singleton, SlotsSafe]
    exact notifyIndex_inRange some_ _
  | eventHandler pid =>
    simp only [SlotsInRange, Slots.indices, SlotsSafe]
    cases made : (slots.system.processes pid).worker with
    | none => simp
    | some worker =>
      have within := (known.process pid).worker worker made
      simp only [Option.elim_some, List.forall_mem_cons, List.not_mem_nil, Option.some.injEq,
        forall_eq', false_implies, implies_true, and_true]
      rw [← nextSlot_inRange within]
      constructor
      · intro both
        omega
      · exact fun next => ⟨inRange within, inRange next⟩
  | master step =>
    refine iff_of_true (fun index member => ?_) trivial
    cases step with
    | work pid =>
      have fits := known.process pid
      have here := fits.place
      simp only [Slots.indices] at member
      split at member
      · split at member
        · -- The loop tests the slot before it stores the eventfd.
          rename_i within
          rw [List.mem_singleton.mp member]
          exact inRange within
        · cases member
      · rename_i place
        rw [place] at here
        -- The child prints the number of its slot.
        rw [List.mem_singleton.mp member]
        exact inRange here
      · cases made : (slots.system.processes pid).worker with
        | none => simp [made] at member
        | some worker =>
          rw [made, Option.elim_some] at member
          rw [List.mem_singleton.mp member]
          exact inRange (fits.worker worker made)
      · rename_i place
        rw [place] at here
        split at member
        · rw [List.mem_singleton.mp member]
          exact inRange here
        · cases member
      · cases member
    | _ => cases member
  | _ => exact iff_of_true (fun index member => nomatch member) trivial

/-- Following the next slots of `EventHandler` counts up modulo `processNum`. -/
theorem iterate_nextSlot {processNum slot : Nat} (within : slot < processNum) (k : Nat) :
    (nextSlot processNum)^[k] slot = (slot + k) % processNum := by
  -- Each step adds one and takes the remainder, which may be taken once at the end.
  induction k with
  | zero => exact (Nat.mod_eq_of_lt within).symm
  | succ k ih => rw [Function.iterate_succ_apply', ih, nextSlot, Nat.mod_add_mod, Nat.add_assoc]

/-- The first `k` slots that follow a slot by `EventHandler` are those that follow it by `notify`.
-/
def FollowsNotify (processNum slot k : Nat) : Prop :=
  ∀ j ≤ k, ((nextSlot processNum)^[j] slot : Int) = notifyIndex processNum (slot + j)

/-- The slots of `EventHandler` follow those of `notify` up to the last worker, and no further. -/
theorem followsNotify_iff {processNum slot k : Nat} (within : slot < processNum - 1) :
    FollowsNotify processNum slot k ↔ slot + k < processNum - 1 := by
  have worker (j : Nat) :
      notifyIndex processNum (slot + j) = ((slot + j) % (processNum - 1) : Nat) := by
    -- The operands are not negative, so the remainder is that of naturals.
    have count : (processNum : Int) - 1 = (processNum - 1 : Nat) := by omega
    rw [notifyIndex, Int.tmod_eq_emod_of_nonneg (by omega), count, Int.natCast_emod,
      Int.natCast_add]
  constructor
  · intro follows
    by_contra beyond
    -- After the last worker comes no slot, where `notify` goes back to the first.
    have turn := follows (processNum - 1 - slot) (by omega)
    rw [iterate_nextSlot (by omega), worker, Nat.add_sub_cancel' (by omega), Nat.mod_self,
      Nat.mod_eq_of_lt (by omega)] at turn
    omega
  · intro up j small
    rw [iterate_nextSlot (by omega), worker, Nat.mod_eq_of_lt (by omega),
      Nat.mod_eq_of_lt (by omega)]

/-- In every run, all indices are those of workers if and only if every step is safe; and from every
slot, the next slots of `EventHandler` follow those of `notify` up to the last worker only. -/
theorem slots_in_range_iff {setting : MasterSetting} (workers : 2 ≤ setting.processNum)
    (steps : List SlotStep) :
    ((slotMachine setting).Meets (SlotsInRange setting) (Slots.new setting) steps ↔
      (slotMachine setting).Meets (SlotsSafe setting) (Slots.new setting) steps) ∧
    ∀ slot < setting.processNum - 1, ∀ k,
      FollowsNotify setting.processNum slot k ↔ slot + k < setting.processNum - 1 := by
  -- The slots known are slots that exist, in every state of the run, so each step can be judged
  -- by the state before it.
  have some_ : 0 < setting.processNum - 1 := by omega
  refine ⟨?_, fun slot within k => followsNotify_iff within⟩
  exact Machine.meets_iff_of_invariant
    (fun _ _ _ (known : SlotsKnown _ _) _ stepped => slotsKnown_step some_ known stepped)
    (fun _ _ known => slotsInRange_iff some_ known) (SlotsKnown.new setting)

/-- The first of two workers runs `EventHandler`. -/
theorem slots_in_range_iff_first :
    (slotMachine threeProcesses).Meets (SlotsInRange threeProcesses) (Slots.new threeProcesses)
      (createWorkers.map .master ++ [.eventHandler 2]) := by
  -- The first steps only create the workers, and none of them uses a slot.
  refine (slots_in_range_iff (by decide) _).1.mpr ((Machine.meets_append _).mpr ⟨?_, ?_⟩)
  · refine Machine.meets_of_forall fun step member slots => ?_
    obtain ⟨own, -, rfl⟩ := List.mem_map.mp member
    trivial
  · intro slots reached
    cases reached
    refine ⟨fun worker made => ?_, fun _ _ => trivial⟩
    cases made
    decide

/-- Each call of `notify` counts up, and wraps round at 2^31. -/
theorem notify_run {setting : MasterSetting} {slots : Slots} {pid : Nat} {start : Int}
    (counted : slots.notifyIds pid = toInt32 start)
    (exists_ : (slots.system.processes pid).pc ≠ .absent)
    (runs : (slots.system.processes pid).pc ≠ .exited) (calls : Nat) :
    (slotMachine setting).run slots (List.replicate calls (.notify pid)) =
      some { slots with
        notifyIds := Function.update slots.notifyIds pid (toInt32 (start + calls)) } := by
  induction calls generalizing slots start with
  | zero =>
    have same : toInt32 (start + (0 : Nat)) = slots.notifyIds pid := by
      rw [counted]
      congr 1
      omega
    rw [same, Function.update_eq_self]
    rfl
  | succ calls ih =>
    -- Counting up commutes with wrapping round.
    have next : toInt32 (slots.notifyIds pid + 1) = toInt32 (start + 1) := by
      rw [counted]
      unfold toInt32
      omega
    have stepped : (slotMachine setting).step slots (.notify pid) =
        some { slots with
          notifyIds := Function.update slots.notifyIds pid (toInt32 (start + 1)) } := by
      rw [← next]
      exact if_neg (not_or.mpr ⟨exists_, runs⟩)
    rw [List.replicate_succ, Machine.run_cons, stepped, Option.bind_some]
    have counts : Slots.notifyIds { slots with
        notifyIds := Function.update slots.notifyIds pid (toInt32 (start + 1)) } pid =
          toInt32 (start + 1) := Function.update_self _ _ _
    refine (ih counts exists_ runs).trans ?_
    rw [Function.update_idem, show start + 1 + calls = start + (calls + 1 : Nat) by omega]

/-- The worker of the last slot reaches behind the ints that are mapped, `notify` before them after
2^31 calls, and no slot follows the last one. -/
theorem slots_out_of_range :
    ¬ (slotMachine threeProcesses).Meets (SlotsInRange threeProcesses) (Slots.new threeProcesses)
      (createWorkers.map .master ++ [.eventHandler 3]) ∧
    ¬ (slotMachine threeProcesses).Meets (SlotsInRange threeProcesses) (Slots.new threeProcesses)
      (List.replicate (2 ^ 31 + 1) (.notify 1) ++ [.notify 1]) ∧
    ¬ FollowsNotify 3 0 2 := by
  refine ⟨fun met => ?_, fun met => ?_, fun follows => ?_⟩
  · -- Slot 1 is the last of two, and its next slot is 2.
    have inRange := (((Machine.meets_append _).mp met).2 _ rfl).1
    exact absurd (inRange 2 (by decide)).2 (by decide)
  · -- The counter is at -2^31 + 1, and its remainder by 2 is -1.
    have counted : (Slots.new threeProcesses).notifyIds 1 = toInt32 0 := by decide
    have inRange := (((Machine.meets_append _).mp met).2 _
      (notify_run counted nofun nofun (2 ^ 31 + 1))).1
    exact absurd (inRange (-1) (by decide)).1 (by decide)
  · exact absurd (follows 2 (by decide)) (by decide)

end EnhancedProxy
