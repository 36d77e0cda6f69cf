import EnhancedProxy.Library.Machine
import Mathlib.Logic.Function.Basic

/-! The mutex that the processes share, one access of a flag or of the shared byte at a time. -/

namespace EnhancedProxy

/-- Where a process stands in a call on its `ProcessMutex`. -/
inductive MutexPc
  -- The object is still to be constructed.
  | absent
  -- Between two calls.
  | idle
  -- In `lock`, before the test of `owner`.
  | testing
  -- In `lock`, before the compare-and-swap.
  | locking
  -- In `tryLock`, before the compare-and-swap.
  | trying
  -- In `lock` or a successful `tryLock`, before `owner` becomes true.
  | owning
  -- In `unlock`, before the two reads of its assertion.
  | assertingOwner
  | assertingByte
  -- In `unlock`, before the test of `owner`.
  | checking
  -- In `unlock`, before `owner` becomes false.
  | disowning
  -- In `unlock`, before the compare-and-swap.
  | unlocking
  -- Ended by a failed assertion.
  | dead
  deriving DecidableEq, Repr

/-- A process with its `ProcessMutex`, and whether it is between the return of `lock`, or of a
successful `tryLock`, and the end of the `unlock` that follows. -/
structure MutexProcess where
  pc : MutexPc := .absent
  owner : Bool := false
  holds : Bool := false
  deriving DecidableEq, Repr

/-- The shared byte, the processes, and whether a process that did not hold the lock has cleared
the byte. The master is process 0. -/
structure SharedMutex where
  shmAddr : Nat
  processes : Nat → MutexProcess := fun _ => {}
  intruded : Bool := false

/-- A process constructs its object, calls one of its functions, or takes a step of a call. -/
inductive MutexStep
  | constructMaster
  -- The constructor of the workers leaves `owner` with some value.
  | constructWorker (p : Nat) (owner : Bool)
  | lock (p : Nat)
  | tryLock (p : Nat)
  | unlock (p : Nat)
  | access (p : Nat)
  deriving DecidableEq, Repr

namespace SharedMutex

/-- Before the master's constructor, with whatever the shared memory holds. -/
def new (garbage : Nat) : SharedMutex := { shmAddr := garbage }

/-- Replace one process. -/
def set (mutex : SharedMutex) (p : Nat) (process : MutexProcess) : SharedMutex :=
  { mutex with processes := Function.update mutex.processes p process }

/-- The constructor with the name of the shared memory, which clears the byte. -/
def constructMaster (mutex : SharedMutex) : Option SharedMutex :=
  if (mutex.processes 0).pc = .absent then
    some { mutex.set 0 { pc := .idle } with shmAddr := 0 }
  else none

/-- The constructor with the name and the descriptor, called after the master's. -/
def constructWorker (mutex : SharedMutex) (p : Nat) (owner : Bool) : Option SharedMutex :=
  if (mutex.processes 0).pc ≠ .absent ∧ (mutex.processes p).pc = .absent then
    some (mutex.set p { pc := .idle, owner := owner })
  else none

/-- A call by a process that is between two calls starts at its first access. -/
def call (mutex : SharedMutex) (p : Nat) (pc : MutexPc) : Option SharedMutex :=
  let process := mutex.processes p
  if process.pc = .idle then some (mutex.set p { process with pc := pc }) else none

/-- The next access of the call that a process is in, with the assertion of `unlock` compiled in
or not. -/
def access (mutex : SharedMutex) (p : Nat) : Option SharedMutex :=
  let process := mutex.processes p
  match process.pc with
  | .absent | .idle | .dead => none
  | .testing =>
    -- The owner leaves the loop without the compare-and-swap.
    some (mutex.set p { process with pc := if process.owner then .owning else .locking })
  | .locking =>
    if mutex.shmAddr = 0 then
      some { mutex.set p { process with pc := .owning } with shmAddr := 1 }
    -- The process yields, and tests again.
    else some (mutex.set p { process with pc := .testing })
  | .trying =>
    if mutex.shmAddr = 0 then
      some { mutex.set p { process with pc := .owning } with shmAddr := 1 }
    else some (mutex.set p { process with pc := .idle })
  | .owning => some (mutex.set p { pc := .idle, owner := true, holds := true })
  | .assertingOwner =>
    if process.owner then some (mutex.set p { process with pc := .assertingByte })
    else some (mutex.set p { process with pc := .dead, holds := false })
  | .assertingByte =>
    if mutex.shmAddr = 1 then some (mutex.set p { process with pc := .checking })
    else some (mutex.set p { process with pc := .dead, holds := false })
  | .checking =>
    if process.owner then some (mutex.set p { process with pc := .disowning })
    -- The call returns early.
    else some (mutex.set p { process with pc := .idle, holds := false })
  | .disowning => some (mutex.set p { process with pc := .unlocking, owner := false })
  | .unlocking =>
    let released := mutex.set p { process with pc := .idle, holds := false }
    if mutex.shmAddr = 1 then
      some { released with shmAddr := 0, intruded := mutex.intruded || !process.holds }
    else some released

end SharedMutex

/-- The processes as a machine, compiled with assertions or without. -/
def mutexMachine (assertions : Bool) : Machine SharedMutex MutexStep where
  step mutex
    | .constructMaster => mutex.constructMaster
    | .constructWorker p owner => mutex.constructWorker p owner
    | .lock p => mutex.call p .testing
    | .tryLock p => mutex.call p .trying
    | .unlock p => mutex.call p (if assertions then .assertingOwner else .checking)
    | .access p => mutex.access p

namespace SharedMutex

/-- At most one process holds the lock, the byte is 1 meanwhile, and nobody else clears it. -/
structure Exclusive (mutex : SharedMutex) : Prop where
  single : ∀ p q, (mutex.processes p).holds → (mutex.processes q).holds → p = q
  byte : ∀ p, (mutex.processes p).holds → mutex.shmAddr = 1
  respected : mutex.intruded = false

/-- A worker's constructor finds `false` where it leaves `owner` uninitialized. -/
def OwnerCleared (_ : SharedMutex) : MutexStep → Prop
  | .constructWorker _ owner => owner = false
  | _ => True

end SharedMutex

/-- A process at this place exists, and has not set out to clear the byte. -/
def MutexPc.Neutral (pc : MutexPc) : Prop :=
  pc ≠ .absent ∧ pc ≠ .disowning ∧ pc ≠ .unlocking

instance (pc : MutexPc) : Decidable pc.Neutral := inferInstanceAs (Decidable (_ ∧ _))

namespace MutexProcess

/-- A process has set the byte, and has still to clear it. -/
def Claims (process : MutexProcess) : Prop := process.holds ∨ process.pc = .owning

/-- A process takes itself for the owner, or sets out to clear the byte, only with a claim. -/
structure Honest (process : MutexProcess) : Prop where
  owner : process.owner → process.Claims
  disowning : process.pc = .disowning → process.holds
  unlocking : process.pc = .unlocking → process.holds ∧ process.owner = false
  absent : process.pc = .absent → process.holds = false

variable {process : MutexProcess} {pc : MutexPc}

/-- A process may go on to any place from which it does not set out to clear the byte. -/
theorem Honest.goOn (honest : process.Honest) (settled : process.pc ≠ .owning)
    (neutral : pc.Neutral) : Honest { process with pc := pc } where
  -- The place is neither of the two before the byte is cleared, and an owner is one already.
  owner owner := .inl ((honest.owner owner).resolve_right settled)
  disowning here := absurd here neutral.2.1
  unlocking here := absurd here neutral.2.2
  absent here := absurd here neutral.1

/-- A process that is not the owner may end its call without the lock. -/
theorem honest_of_not_owner (owner : process.owner = false) (neutral : pc.Neutral) :
    Honest { process with pc := pc, holds := false } where
  -- Without the flag there is no claim to justify.
  owner owner' := absurd (owner.symm.trans owner') Bool.false_ne_true
  disowning here := absurd here neutral.2.1
  unlocking here := absurd here neutral.2.2
  absent _ := rfl

end MutexProcess

open MutexProcess

/-- Claims are honest and exclude each other, and the byte stands for them. -/
structure SoundMutex (mutex : SharedMutex) : Prop where
  honest : ∀ p, (mutex.processes p).Honest
  byte : ∀ p, (mutex.processes p).Claims → mutex.shmAddr = 1
  single : ∀ p q, (mutex.processes p).Claims → (mutex.processes q).Claims → p = q
  built : ∀ p, (mutex.processes p).pc ≠ .absent → (mutex.processes 0).pc ≠ .absent
  respected : mutex.intruded = false

namespace SharedMutex

variable {mutex : SharedMutex} {p q : Nat} {process : MutexProcess}

/-- The process that moves is the new one. -/
theorem set_own : (mutex.set p process).processes p = process := Function.update_self _ _ _

/-- The other processes stay where they are. -/
theorem set_other (other : q ≠ p) : (mutex.set p process).processes q = mutex.processes q :=
  Function.update_of_ne other _ _

end SharedMutex

namespace SoundMutex

open SharedMutex

variable {mutex next : SharedMutex} {p : Nat} {process : MutexProcess}

/-- No process has been constructed. -/
theorem start (garbage : Nat) : SoundMutex (SharedMutex.new garbage) where
  -- Nobody has begun, so nobody claims the mutex.
  honest _ := ⟨fun owner => Bool.noConfusion owner, fun here => MutexPc.noConfusion here,
    fun here => MutexPc.noConfusion here, fun _ => rfl⟩
  byte _ claims := by cases claims <;> contradiction
  single _ _ claims := by cases claims <;> contradiction
  built _ present := present
  respected := rfl

/-- The processes stay honest when one moves on honestly. -/
theorem honest_set (sound : SoundMutex mutex) (honest : process.Honest) (q : Nat) :
    ((mutex.set p process).processes q).Honest := by
  -- The mover is honest by assumption, and the others have not moved.
  by_cases mover : q = p
  · subst mover
    rw [set_own]
    exact honest
  · rw [set_other mover]
    exact sound.honest q

/-- A master that was constructed stays so. -/
theorem built_set (built : (mutex.processes 0).pc ≠ .absent) (present : process.pc ≠ .absent) :
    ((mutex.set p process).processes 0).pc ≠ .absent := by
  -- Process 0 is still there, be it the mover or not.
  by_cases mover : 0 = p
  · subst mover
    rw [set_own]
    exact present
  · rw [set_other mover]
    exact built

/-- A process may move on without a new claim. -/
theorem move (sound : SoundMutex mutex) (built : (mutex.processes 0).pc ≠ .absent)
    (honest : process.Honest) (present : process.pc ≠ .absent)
    (claims : process.Claims → (mutex.processes p).Claims) : SoundMutex (mutex.set p process) := by
  -- A claim after the step was a claim before it.
  have before : ∀ q, ((mutex.set p process).processes q).Claims → (mutex.processes q).Claims := by
    intro q claim
    by_cases mover : q = p
    · subst mover
      rw [set_own] at claim
      exact claims claim
    · rwa [set_other mover] at claim
  exact
    { honest := sound.honest_set honest
      byte := fun q claim => sound.byte q (before q claim)
      single := fun q r claim claimOther => sound.single q r (before q claim) (before r claimOther)
      built := fun _ _ => built_set built present
      respected := sound.respected }

/-- A process that has no use for a claim goes on in its call. -/
theorem goOn (sound : SoundMutex mutex) (built : (mutex.processes 0).pc ≠ .absent)
    (settled : (mutex.processes p).pc ≠ .owning) {pc : MutexPc} (neutral : pc.Neutral)
    (owning : pc ≠ .owning) :
    SoundMutex (mutex.set p { mutex.processes p with pc := pc }) := by
  -- The claims of the process are the ones it had.
  apply sound.move built ((sound.honest p).goOn settled neutral) neutral.1
  rintro (holds | here)
  · exact .inl holds
  · exact absurd here owning

/-- A process that is not the owner ends its call without the lock. -/
theorem leave (sound : SoundMutex mutex) (built : (mutex.processes 0).pc ≠ .absent)
    (owner : (mutex.processes p).owner = false) {pc : MutexPc} (neutral : pc.Neutral)
    (owning : pc ≠ .owning) :
    SoundMutex (mutex.set p { mutex.processes p with pc := pc, holds := false }) := by
  -- The process drops the lock, and has no other claim.
  apply sound.move built (honest_of_not_owner owner neutral) neutral.1
  rintro (holds | here)
  · exact Bool.noConfusion holds
  · exact absurd here owning

/-- A process that finds the byte 0 sets it, and is the only one with a claim. -/
theorem acquire (sound : SoundMutex mutex) (built : (mutex.processes 0).pc ≠ .absent)
    (free : mutex.shmAddr = 0) (settled : (mutex.processes p).pc ≠ .owning) :
    SoundMutex { mutex.set p { mutex.processes p with pc := .owning } with shmAddr := 1 } := by
  -- The byte was 0, so nobody had a claim.
  have unclaimed : ∀ q, ¬ (mutex.processes q).Claims := by
    intro q claim
    have set_ := sound.byte q claim
    omega
  have only : ∀ q, ((mutex.set p { mutex.processes p with pc := .owning }).processes q).Claims →
      q = p := by
    intro q claim
    by_contra mover
    rw [set_other mover] at claim
    exact unclaimed q claim
  exact
    { honest := sound.honest_set ((sound.honest p).goOn settled (by decide))
      byte := fun _ _ => rfl
      single := fun q r claim claimOther => (only q claim).trans (only r claimOther).symm
      built := fun _ _ => built_set built MutexPc.noConfusion
      respected := sound.respected }

/-- The process with the claim clears the byte, and nobody has a claim then. -/
theorem release (sound : SoundMutex mutex) (built : (mutex.processes 0).pc ≠ .absent)
    (claims : (mutex.processes p).Claims) (honest : process.Honest)
    (present : process.pc ≠ .absent) (disclaims : ¬ process.Claims) :
    SoundMutex { mutex.set p process with shmAddr := 0 } := by
  -- The claim of the mover was the only one, and it gives it up.
  have unclaimed : ∀ q, ¬ ((mutex.set p process).processes q).Claims := by
    intro q claim
    by_cases mover : q = p
    · subst mover
      rw [set_own] at claim
      exact disclaims claim
    · rw [set_other mover] at claim
      exact mover (sound.single q p claim claims)
  exact
    { honest := sound.honest_set honest
      byte := fun q claim => absurd claim (unclaimed q)
      single := fun q _ claim => absurd claim (unclaimed q)
      built := fun _ _ => built_set built present
      respected := sound.respected }

/-- A call changes nothing but the place of its caller. -/
theorem call (sound : SoundMutex mutex) {pc : MutexPc} (neutral : pc.Neutral)
    (owning : pc ≠ .owning) (called : mutex.call p pc = some next) : SoundMutex next := by
  -- A call starts from an idle process, and none of its first places claims the mutex.
  simp only [SharedMutex.call] at called
  split at called
  · rename_i idle
    cases called
    exact sound.goOn (sound.built p (by simp [idle])) (by simp [idle]) neutral owning
  · cases called

/-- The next access of a call keeps the claims apart. -/
theorem access (sound : SoundMutex mutex) (stepped : mutex.access p = some next) :
    SoundMutex next := by
  have honest := sound.honest p
  have built := sound.built p
  simp only [SharedMutex.access] at stepped
  -- One case for each place in a call. A process that moves there was constructed.
  cases here : (mutex.processes p).pc <;>
    simp only [here, reduceCtorEq, Option.some.injEq, ne_eq, not_false_eq_true,
      forall_const] at stepped built
  case testing =>
    subst stepped
    by_cases owner : (mutex.processes p).owner
    · -- The owner has a claim already.
      rw [if_pos owner]
      exact sound.move built (honest.goOn (by simp [here]) (by decide))
        MutexPc.noConfusion fun _ => honest.owner owner
    · rw [if_neg owner]
      exact sound.goOn built (by simp [here]) (by decide) (by decide)
  case locking =>
    split at stepped
    · rename_i free
      cases stepped
      exact sound.acquire built free (by simp [here])
    · cases stepped
      exact sound.goOn built (by simp [here]) (by decide) (by decide)
  case trying =>
    split at stepped
    · rename_i free
      cases stepped
      exact sound.acquire built free (by simp [here])
    · cases stepped
      exact sound.goOn built (by simp [here]) (by decide) (by decide)
  case owning =>
    subst stepped
    -- The claim becomes a hold.
    refine sound.move built ⟨fun _ => .inl rfl, ?_, ?_, ?_⟩ (by decide) fun _ => .inr here
    all_goals
      intro elsewhere
      cases elsewhere
  case assertingOwner =>
    split at stepped
    · cases stepped
      exact sound.goOn built (by simp [here]) (by decide) (by decide)
    · rename_i owner
      cases stepped
      exact sound.leave built (Bool.eq_false_iff.mpr owner) (by decide) (by decide)
  case assertingByte =>
    split at stepped
    · cases stepped
      exact sound.goOn built (by simp [here]) (by decide) (by decide)
    · rename_i byte
      cases stepped
      -- The byte is 1 while the owner has its claim.
      have owner : (mutex.processes p).owner = false := by
        rw [← Bool.not_eq_true]
        exact fun owner => byte (sound.byte p (honest.owner owner))
      exact sound.leave built owner (by decide) (by decide)
  case checking =>
    split at stepped
    · rename_i owner
      cases stepped
      have holds := (honest.owner owner).resolve_right (by simp [here])
      refine sound.move built ⟨fun _ => .inl holds, fun _ => holds, ?_, ?_⟩
        MutexPc.noConfusion fun _ => .inl holds
      all_goals
        intro elsewhere
        cases elsewhere
    · rename_i owner
      cases stepped
      exact sound.leave built (Bool.eq_false_iff.mpr owner) (by decide) (by decide)
  case disowning =>
    subst stepped
    have holds := honest.disowning here
    refine sound.move built ⟨?_, fun _ => holds, fun _ => ⟨holds, rfl⟩, ?_⟩
      MutexPc.noConfusion fun _ => .inl holds
    · intro owner
      exact Bool.noConfusion owner
    · intro elsewhere
      cases elsewhere
  case unlocking =>
    obtain ⟨holds, owner⟩ := honest.unlocking here
    simp only [sound.byte p (.inl holds), holds, if_true, Option.some.injEq, Bool.not_true,
      Bool.or_false] at stepped
    subst stepped
    apply sound.release built (.inl holds) (honest_of_not_owner owner (by decide))
      MutexPc.noConfusion
    rintro (holds | owning)
    · exact Bool.noConfusion holds
    · cases owning

/-- The master is constructed first, and clears the byte while nobody has a claim. -/
theorem constructMaster (sound : SoundMutex mutex)
    (stepped : mutex.constructMaster = some next) : SoundMutex next := by
  simp only [SharedMutex.constructMaster] at stepped
  split at stepped
  · rename_i first
    cases stepped
    have unclaimed : ∀ q, ¬ ((mutex.set 0 { pc := .idle }).processes q).Claims := by
      intro q claim
      by_cases master : q = 0
      · subst master
        rw [set_own] at claim
        cases claim <;> contradiction
      · -- No worker was constructed before the master.
        rw [set_other master] at claim
        have absent : (mutex.processes q).pc = .absent := by
          by_contra present
          exact sound.built q present first
        rcases claim with holds | owning
        · rw [(sound.honest q).absent absent] at holds
          exact Bool.noConfusion holds
        · rw [absent] at owning
          exact MutexPc.noConfusion owning
    have honest : Honest { pc := .idle } :=
      @honest_of_not_owner { pc := .absent } .idle rfl (by decide)
    exact
      { honest := sound.honest_set honest
        byte := fun q claim => absurd claim (unclaimed q)
        single := fun q _ claim => absurd claim (unclaimed q)
        built := fun _ _ => by
          show ((mutex.set 0 { pc := .idle }).processes 0).pc ≠ .absent
          rw [set_own]
          exact MutexPc.noConfusion
        respected := sound.respected }
  · cases stepped

/-- A worker whose `owner` is false has no claim. -/
theorem constructWorker (sound : SoundMutex mutex)
    (stepped : mutex.constructWorker p false = some next) : SoundMutex next := by
  -- With the flag clear, as the shared memory has it, the new worker claims nothing.
  simp only [SharedMutex.constructWorker] at stepped
  split at stepped
  · rename_i present
    cases stepped
    refine sound.move present.1 ⟨?_, ?_, ?_, fun _ => rfl⟩ MutexPc.noConfusion ?_
    · intro owner
      exact Bool.noConfusion owner
    · intro elsewhere
      cases elsewhere
    · intro elsewhere
      cases elsewhere
    · rintro (holds | owning)
      · exact Bool.noConfusion holds
      · cases owning
  · cases stepped

/-- Every step keeps the claims apart, if a worker's constructor finds its `owner` cleared. -/
theorem step (assertions : Bool) {label : MutexStep} (sound : SoundMutex mutex)
    (cleared : mutex.OwnerCleared label)
    (stepped : (mutexMachine assertions).step mutex label = some next) : SoundMutex next := by
  cases label with
  | constructMaster => exact sound.constructMaster stepped
  | constructWorker p owner =>
    cases cleared
    exact sound.constructWorker stepped
  | lock p => exact sound.call (by decide) (by decide) stepped
  | tryLock p => exact sound.call (by decide) (by decide) stepped
  | unlock p =>
    -- The assertion only adds two places to the call.
    cases assertions with
    | false => exact sound.call (by decide) (by decide) stepped
    | true => exact sound.call (by decide) (by decide) stepped
  | access p => exact sound.access stepped

/-- Claims that exclude each other make the lock exclusive. -/
theorem exclusive (sound : SoundMutex mutex) : mutex.Exclusive where
  -- Holding the lock is one of the two claims.
  single p q holds holdsOther := sound.single p q (.inl holds) (.inl holdsOther)
  byte p holds := sound.byte p (.inl holds)
  respected := sound.respected

end SoundMutex

/-- The lock is exclusive throughout every run in which each worker's constructor finds `false`
where it leaves `owner` uninitialized. -/
theorem mutex_exclusive (assertions : Bool) (garbage : Nat) {labels : List MutexStep}
    (cleared : (mutexMachine assertions).Meets SharedMutex.OwnerCleared (SharedMutex.new garbage)
      labels) :
    (mutexMachine assertions).Always SharedMutex.Exclusive (SharedMutex.new garbage) labels :=
  -- The invariant needs the flag cleared at each worker's construction, and gives exclusion.
  Machine.always_of_meets (fun _ _ _ sound cleared stepped => sound.step assertions cleared stepped)
    (fun _ sound => sound.exclusive) (SoundMutex.start garbage) cleared

/-- The master locks and unlocks while a worker spins, and then the worker locks. -/
theorem mutex_exclusive_handover :
    (mutexMachine true).Always SharedMutex.Exclusive (SharedMutex.new 7)
      (.constructMaster :: .constructWorker 1 false :: .lock 0 :: .lock 1 ::
        List.replicate 3 (.access 0) ++ List.replicate 2 (.access 1) ++
        .unlock 0 :: List.replicate 5 (.access 0) ++ List.replicate 3 (.access 1)) := by
  apply mutex_exclusive
  -- The second step is the only one that the condition is about.
  refine ⟨trivial, fun _ _ => ⟨rfl, fun _ _ => ?_⟩⟩
  iterate 16
    refine ⟨trivial, fun _ _ => ?_⟩
  trivial

/-- The master holds the lock, and a worker whose `owner` is `true` by chance locks it too. -/
theorem mutex_two_holders :
    ¬ (mutexMachine true).Always SharedMutex.Exclusive (SharedMutex.new 7)
      (.constructMaster :: .constructWorker 1 true :: .lock 0 :: List.replicate 3 (.access 0) ++
        .lock 1 :: List.replicate 2 (.access 1)) := by
  -- Exclusion would make process 0 and process 1 the same.
  intro always
  have exclusive := always _ _ (List.prefix_refl _) rfl
  have same := exclusive.single 0 1 rfl rfl
  omega

end EnhancedProxy
