import EnhancedProxy.Library.Simulation
import EnhancedProxy.ThreadPool.Ledger
import EnhancedProxy.ThreadPool.Visibility
import EnhancedProxy.ThreadPool.Wakeup
import Mathlib.Algebra.BigOperators.Group.Finset.Basic
import Mathlib.Data.Set.Card

/-! Without new tasks the threads come to rest, and by then they have run what was published. -/

namespace EnhancedProxy

open CircleQueue

variable {T : Type}

/-- The steps of calls that are under way, and of consumers that nobody wakes without a reason. -/
def WaitStep.Drains : WaitStep T → Prop
  | .callWrite _ _ | .wake _ => False
  | _ => True

/-- No thread can go on without a new task or a wake-up that nobody has asked for. -/
def WaitingPool.Quiescent (group : Finset Nat) (s : WaitingPool T) : Prop :=
  ∀ label : WaitStep T, label.Drains → (waitingMachine T group).step s label = none

/-- Only consumers of the group have a part in the reading, and only finitely many producers have
something to finish. -/
structure Manned (group : Finset Nat) (s : WaitingPool T) : Prop where
  heard : Heard group s
  stocked : Stocked s.pool
  outside : ∀ c, c ∉ group → (s.pool.consumers c).readableId ≤ (s.pool.consumers c).readId ∧
    s.readNotifies c = false
  waiting : ∀ c, s.inWait c = true → s.readNotifies c = false
  notifying : {p | s.writeNotifies p = true}.Finite
  writing : {p | (s.pool.producers p).writing ≠ none}.Finite

/-- What a consumer has still to do: two steps for each id of its segment, one less while it is
reading one, and a notification. -/
def WaitingPool.consumerRank (s : WaitingPool T) (c : Nat) : Nat :=
  2 * ((s.pool.consumers c).readableId - (s.pool.consumers c).readId) +
    (if (s.pool.consumers c).reading then 0 else 1) + if s.readNotifies c then 2 else 0

/-- How many steps the threads can take at most before they are at rest. A segment stands for the
work of the consumer that takes it, and a notification for the consumer that it wakes. -/
noncomputable def WaitingPool.rank (group : Finset Nat) (s : WaitingPool T) : Nat :=
  (2 * trySize + 2) * s.pool.queue.readableQueue.card + ∑ c ∈ group, s.consumerRank c +
    (group.filter (· ∉ s.isEmpty.blocked)).card + 2 * {p | s.writeNotifies p = true}.ncard +
      {p | (s.pool.producers p).writing ≠ none}.ncard

/-- A sum in which one term is replaced. -/
theorem sum_replace {group : Finset Nat} {f g : Nat → Nat} {c : Nat} (member : c ∈ group)
    (same : ∀ d, d ≠ c → f d = g d) : ∑ d ∈ group, f d + g c = ∑ d ∈ group, g d + f c := by
  -- Taken apart, the two sums have everything but the replaced term in common.
  have others : ∑ d ∈ group.erase c, f d = ∑ d ∈ group.erase c, g d :=
    Finset.sum_congr rfl fun d inside => same d (Finset.ne_of_mem_erase inside)
  rw [← Finset.add_sum_erase group f member, ← Finset.add_sum_erase group g member, others]
  omega

namespace WaitingPool

variable {group : Finset Nat} {s next : WaitingPool T} {p c : Nat}

/-- Clearing a flag takes its owner out of those who have one. -/
theorem flags_clear (flags : Nat → Bool) (p : Nat) :
    {q | Function.update flags p false q = true} = {q | flags q = true} \ {p} := by
  -- The one flag is cleared, and no other.
  ext q
  by_cases own : q = p
  · subst own
    simp
  · simp [own]

/-- A consumer that finds a segment has its ids to read, and the segment is readable no more. -/
theorem rank_take (member : c ∈ group) (idle : (s.pool.consumers c).reading = false)
    (usedUp : (s.pool.consumers c).readableId ≤ (s.pool.consumers c).readId)
    (silent : s.readNotifies c = false) {space : Segment}
    (readable : space ∈ s.pool.queue.readableQueue) (width : space.second = space.first + trySize) :
    rank group { s with
      pool := s.pool.take c space
      inWait := Function.update s.inWait c false
      readNotifies := Function.update s.readNotifies c true } < rank group s := by
  have fewer := Finset.card_erase_add_one readable
  -- Only the consumer itself has more to do than before.
  have replaced := sum_replace member
    (f := consumerRank { s with
      pool := s.pool.take c space
      inWait := Function.update s.inWait c false
      readNotifies := Function.update s.readNotifies c true }) (g := s.consumerRank)
    (fun d other => by simp [consumerRank, Pool.take, other])
  have before : s.consumerRank c = 1 := by
    simp [consumerRank, idle, silent, Nat.sub_eq_zero_of_le usedUp]
  have after : consumerRank { s with
      pool := s.pool.take c space
      inWait := Function.update s.inWait c false
      readNotifies := Function.update s.readNotifies c true } c = 2 * trySize + 2 := by
    simp [consumerRank, Pool.take, width]
  have queue : (s.pool.take c space).queue.readableQueue.card + 1 =
      s.pool.queue.readableQueue.card := fewer
  have producers : (s.pool.take c space).producers = s.pool.producers := rfl
  simp only [rank, producers]
  rw [before, after] at replaced
  simp only [trySize] at *
  omega

/-- A consumer that blocks is one less to go on. -/
theorem rank_wait (member : c ∈ group) (free : c ∉ s.isEmpty.blocked) (inWait : Nat → Bool) :
    rank group { s with isEmpty := s.isEmpty.wait c, inWait := inWait } < rank group s := by
  -- The consumer that goes to sleep was counted as awake.
  have fewer := CondVar.awake_wait member free
  have same : consumerRank { s with isEmpty := s.isEmpty.wait c, inWait := inWait } =
      s.consumerRank := rfl
  simp only [rank, same]
  omega

/-- The test of a consumer that has used its segment up ends in one of the two. -/
theorem rank_takeOrWait (member : c ∈ group) (free : c ∉ s.isEmpty.blocked)
    (idle : (s.pool.consumers c).reading = false)
    (usedUp : (s.pool.consumers c).readableId ≤ (s.pool.consumers c).readId)
    (silent : s.readNotifies c = false) (placed : Placed s.pool) :
    rank group (s.takeOrWait c) < rank group s := by
  -- Without a readable segment the consumer sleeps; with one the queue gets shorter.
  unfold takeOrWait
  cases called : s.pool.callRead c with
  | none => exact rank_wait member free _
  | some pool =>
    rcases Pool.callRead_cases called with ⟨-, space, first, rfl⟩ | ⟨unread, -⟩
    · have readable := firstReadable_mem first
      have width := (placed.published space (placed.readable space readable)).width
      exact rank_take member idle usedUp silent readable width
    · exact absurd usedUp (Nat.not_le_of_lt unread)

/-- A step of one consumer lowers the rank if the consumer has less to do and as many can go on, or
if it has two steps less to do and one more can go on. -/
theorem rank_lt_of_consumer (member : c ∈ group)
    (others : ∀ d, d ≠ c → next.consumerRank d = s.consumerRank d)
    (lower : next.consumerRank c + (group.filter (· ∉ next.isEmpty.blocked)).card <
      s.consumerRank c + (group.filter (· ∉ s.isEmpty.blocked)).card)
    (queue : next.pool.queue.readableQueue = s.pool.queue.readableQueue)
    (flags : next.writeNotifies = s.writeNotifies)
    (producers : next.pool.producers = s.pool.producers) : rank group next < rank group s := by
  -- Only the term of this consumer and the number of those awake differ.
  have replaced := sum_replace member others
  simp only [rank, queue, flags, producers]
  omega

/-- A consumer that starts on its next id is a step nearer to its end. -/
theorem rank_goOn (member : c ∈ group) (idle : (s.pool.consumers c).reading = false) :
    rank group { s with pool := { s.pool with
      consumers := Function.update s.pool.consumers c
        { s.pool.consumers c with reading := true } } } < rank group s := by
  -- Only this consumer moves, from between two reads into one.
  refine rank_lt_of_consumer member (fun d other => ?_) ?_ rfl rfl rfl
  · simp [consumerRank, other]
  · simp [consumerRank, idle]

/-- A consumer that has read its id is a step nearer to its end. -/
theorem rank_readSlot (member : c ∈ group) (reading : (s.pool.consumers c).reading = true)
    (unread : (s.pool.consumers c).readId < (s.pool.consumers c).readableId)
    (returned : List (Nat × T)) :
    rank group { s with pool := { s.pool with
      consumers := Function.update s.pool.consumers c
        { s.pool.consumers c with readId := (s.pool.consumers c).readId + 1, reading := false }
      returned := returned } } < rank group s := by
  -- One slot fewer is left of the segment in hand.
  refine rank_lt_of_consumer member (fun d other => ?_) ?_ rfl rfl rfl
  · simp [consumerRank, other]
  · simp only [consumerRank, Function.update_self, reading, if_true, Bool.false_eq_true, if_false]
    omega

/-- A notification is two steps, of which the consumer that it wakes may take one. -/
theorem rank_notifyRead (member : c ∈ group) (notifies : s.readNotifies c = true)
    {choice : Option Nat} {isEmpty : CondVar Nat}
    (notified : s.isEmpty.notifyOne choice = some isEmpty) :
    rank group { s with
      isEmpty := isEmpty
      readNotifies := Function.update s.readNotifies c false } < rank group s := by
  -- The notification wakes one consumer at most, and is worth more than that.
  have awake : (group.filter (· ∉ isEmpty.blocked)).card ≤
      (group.filter (· ∉ s.isEmpty.blocked)).card + 1 := CondVar.awake_notifyOne notified
  refine rank_lt_of_consumer member (fun d other => ?_) ?_ rfl rfl rfl
  · simp [consumerRank, other]
  · simp only [consumerRank, Function.update_self, notifies, if_true, Bool.false_eq_true, if_false]
    omega

/-- A step of a producer leaves what the consumers have to do as it is. -/
theorem rank_lt_of_producer (queue : next.pool.queue.readableQueue = s.pool.queue.readableQueue)
    (consumers : next.pool.consumers = s.pool.consumers)
    (flags : next.readNotifies = s.readNotifies)
    (lower : (group.filter (· ∉ next.isEmpty.blocked)).card +
        2 * {q | next.writeNotifies q = true}.ncard +
          {q | (next.pool.producers q).writing ≠ none}.ncard <
      (group.filter (· ∉ s.isEmpty.blocked)).card + 2 * {q | s.writeNotifies q = true}.ncard +
        {q | (s.pool.producers q).writing ≠ none}.ncard) : rank group next < rank group s := by
  -- The consumers and the readable segments count the same before and after.
  have same : next.consumerRank = s.consumerRank := by
    funext d
    simp only [consumerRank, consumers, flags]
  simp only [rank, queue, same]
  omega

/-- A producer's notification is two steps as well. -/
theorem rank_notifyWritten (finite : {q | s.writeNotifies q = true}.Finite)
    (notifies : s.writeNotifies p = true) {choice : Option Nat} {isEmpty : CondVar Nat}
    (notified : s.isEmpty.notifyOne choice = some isEmpty) :
    rank group { s with
      isEmpty := isEmpty
      writeNotifies := Function.update s.writeNotifies p false } < rank group s := by
  -- One notification is spent, which wakes one consumer at most.
  have awake : (group.filter (· ∉ isEmpty.blocked)).card ≤
      (group.filter (· ∉ s.isEmpty.blocked)).card + 1 := CondVar.awake_notifyOne notified
  have pending : p ∈ {q | s.writeNotifies q = true} := notifies
  have fewer := Set.ncard_sdiff_singleton_lt_of_mem pending finite
  refine rank_lt_of_producer rfl rfl rfl ?_
  simp only [flags_clear]
  omega

/-- A producer that has written its slot has nothing more to finish. -/
theorem rank_writeSlot (finite : {q | (s.pool.producers q).writing ≠ none}.Finite)
    {pool : Pool T} (wrote : s.pool.writeSlot p = some pool) :
    rank group { s with pool := pool } < rank group s := by
  -- One producer fewer has a task in its hands.
  obtain ⟨obj, writing, rfl⟩ := Option.map_eq_some_iff.mp wrote
  have busy : p ∈ {q | (s.pool.producers q).writing ≠ none} := by simp [writing]
  have fewer := Set.ncard_sdiff_singleton_lt_of_mem busy finite
  have cleared : {q | (Function.update s.pool.producers p { s.pool.producers p with
      curWriteId := (s.pool.producers p).curWriteId + 1, writing := none } q).writing ≠ none} =
        {q | (s.pool.producers q).writing ≠ none} \ {p} := by
    ext q
    by_cases own : q = p
    · subst own
      simp
    · simp [own]
  refine rank_lt_of_producer rfl rfl rfl ?_
  simp only [cleared]
  omega

/-- A consumer with a notification to make calls `read` no more. -/
theorem silent_of_callRead (called : s.callRead c = some next) : s.readNotifies c = false := by
  -- The step is refused while a notification is due.
  simp only [callRead, Option.ite_none_left_eq_some, not_or] at called
  exact Bool.eq_false_iff.mpr called.1.2.1

/-- At rest every consumer of the group is blocked, and nobody has a notification to make. -/
theorem Quiescent.blocked (rest : s.Quiescent group) :
    (∀ c ∈ group, c ∈ s.isEmpty.blocked) ∧ (∀ p, s.writeNotifies p = false) ∧
      ∀ c, s.readNotifies c = false := by
  obtain ⟨choice, isEmpty, notified⟩ := CondVar.exists_notifyOne s.isEmpty
  have silent : ∀ c, s.readNotifies c = false := by
    intro c
    by_contra notifies
    have stuck : s.notifyRead c choice = none := rest (.notifyRead c choice) trivial
    simp [notifyRead, notifies, notified] at stuck
  refine ⟨fun c member => ?_, fun p => ?_, silent⟩
  · by_contra free
    by_cases waits : s.inWait c = true
    · -- A consumer that was woken up tests the set again.
      have stuck : s.lockAgain c = none := rest (.lockAgain c) trivial
      simp [lockAgain, waits, free] at stuck
    · -- A consumer that is in no call calls `read`, if it has nothing to finish.
      have idle : (s.pool.consumers c).reading = false := by
        by_contra reading
        have stuck : s.readSlot c = none := rest (.readSlot c) trivial
        simp [readSlot, silent, Pool.readSlot, reading] at stuck
      have stuck : (if c ∈ group then s.callRead c else none) = none := rest (.callRead c) trivial
      simp only [if_pos member, callRead, waits, silent c, idle, Bool.false_eq_true, or_self,
        if_false] at stuck
      split at stuck
      · cases stuck
      · rename_i goesOn
        simp [Pool.callRead, idle, goesOn] at stuck
  · by_contra notifies
    have stuck : s.notifyWritten p choice = none := rest (.notifyWritten p choice) trivial
    simp [notifyWritten, notifies, notified] at stuck

end WaitingPool

namespace Manned

open WaitingPool

variable {group : Finset Nat} {s next : WaitingPool T} {p c : Nat}

/-- Nothing has happened. -/
theorem start [Inhabited T] : Manned group (WaitingPool.new : WaitingPool T) where
  -- Nobody waits, writes or has to notify.
  heard := Heard.start
  stocked := Stocked.start
  outside _ _ := ⟨Nat.le_refl _, rfl⟩
  waiting _ waits := Bool.noConfusion waits
  notifying := by simp [WaitingPool.new]
  writing := by simp [WaitingPool.new, Pool.new]

/-- A consumer of the group that tests the set is in its segment, or waits without a notification to
make. -/
theorem takeOrWait (manned : Manned group s) (member : c ∈ group) (silent : s.readNotifies c = false) :
    (∀ d, d ∉ group → ((s.takeOrWait c).pool.consumers d).readableId ≤
        ((s.takeOrWait c).pool.consumers d).readId ∧ (s.takeOrWait c).readNotifies d = false) ∧
      (∀ d, (s.takeOrWait c).inWait d = true → (s.takeOrWait c).readNotifies d = false) ∧
      (s.takeOrWait c).writeNotifies = s.writeNotifies ∧
      (s.takeOrWait c).pool.producers = s.pool.producers := by
  unfold WaitingPool.takeOrWait
  cases called : s.pool.callRead c with
  | none =>
    refine ⟨manned.outside, fun d waits => ?_, rfl, rfl⟩
    by_cases own : d = c
    · subst own
      exact silent
    · simp only [Function.update_of_ne own] at waits
      exact manned.waiting d waits
  | some pool =>
    refine ⟨fun d out => ?_, fun d waits => ?_, rfl, ?_⟩
    · -- Whoever is outside the group is another consumer.
      have other : d ≠ c := by
        rintro rfl
        exact out member
      have same : pool.consumers d = s.pool.consumers d := by
        rcases Pool.callRead_cases called with ⟨-, space, -, rfl⟩ | ⟨-, rfl⟩
        · exact Function.update_of_ne other _ _
        · exact Function.update_of_ne other _ _
      simp only [same, Function.update_of_ne other]
      exact manned.outside d out
    · by_cases own : d = c
      · subst own
        simp at waits
      · simp only [Function.update_of_ne own] at waits ⊢
        exact manned.waiting d waits
    · rcases Pool.callRead_cases called with ⟨-, space, -, rfl⟩ | ⟨-, rfl⟩
      · rfl
      · rfl

/-- Whatever a thread does, the pool stays as its producers and consumers leave it. -/
theorem step (manned : Manned group s) (nonempty : group.Nonempty) {label : WaitStep T}
    (stepped : (waitingMachine T group).step s label = some next) : Manned group next := by
  have heard := manned.heard.step nonempty stepped
  have stocked : Stocked next.pool := by
    rcases pool_step stepped with same | ⟨poolLabel, moved⟩
    · rw [same]
      exact manned.stocked
    · exact manned.stocked.step moved
  cases label with
  | callWrite p obj =>
    obtain ⟨-, pool, moved, rfl⟩ := callWrite_eq_some.mp stepped
    have consumers := Heard.callWrite_consumers moved
    refine ⟨heard, stocked, ?_, manned.waiting, ?_, ?_⟩
    · simp only [consumers]
      exact manned.outside
    · -- At most the caller is added to those that have to notify, or to write.
      refine (manned.notifying.insert p).subset fun q notifies => ?_
      by_cases own : q = p
      · exact .inl own
      · exact .inr (by simpa [own] using notifies)
    · refine (manned.writing.insert p).subset fun q busy => ?_
      rcases Pool.callWrite_writing moved q with same | ⟨own, -⟩
      · exact .inr (by simpa [same] using busy)
      · exact .inl own
  | notifyWritten p choice =>
    obtain ⟨-, isEmpty, -, rfl⟩ := notifyWritten_eq_some.mp stepped
    refine ⟨heard, stocked, manned.outside, manned.waiting, ?_, manned.writing⟩
    simp only [flags_clear]
    exact manned.notifying.sdiff
  | writeSlot p =>
    obtain ⟨-, pool, moved, rfl⟩ := writeSlot_eq_some.mp stepped
    obtain ⟨obj, -, rfl⟩ := Option.map_eq_some_iff.mp moved
    refine ⟨heard, stocked, manned.outside, manned.waiting, manned.notifying, ?_⟩
    refine manned.writing.subset fun q busy => ?_
    by_cases own : q = p
    · subst own
      simp at busy
    · simpa [own] using busy
  | callRead c =>
    obtain ⟨member, called⟩ := Option.ite_none_right_eq_some.mp stepped
    obtain ⟨-, -, ⟨-, rfl⟩ | ⟨goesOn, pool, moved, rfl⟩⟩ := callRead_cases called
    · obtain ⟨outside, waiting, flags, producers⟩ :=
        manned.takeOrWait member (silent_of_callRead called)
      refine ⟨heard, stocked, outside, waiting, ?_, ?_⟩
      · rw [flags]
        exact manned.notifying
      · rw [producers]
        exact manned.writing
    · rcases Pool.callRead_cases moved with ⟨usedUp, -⟩ | ⟨-, rfl⟩
      · exact absurd usedUp goesOn
      · refine ⟨heard, stocked, fun d out => ?_, manned.waiting, manned.notifying, manned.writing⟩
        obtain ⟨readId, readableId⟩ := Pool.calling_ids s.pool c d
        simp only [readId, readableId]
        exact manned.outside d out
  | wake c =>
    obtain ⟨isEmpty, -, rfl⟩ := Option.map_eq_some_iff.mp stepped
    exact ⟨heard, stocked, manned.outside, manned.waiting, manned.notifying, manned.writing⟩
  | lockAgain c =>
    obtain ⟨ready, rfl⟩ := lockAgain_eq_some.mp stepped
    obtain ⟨member, -⟩ := manned.heard.waiting c ready.1
    obtain ⟨outside, waiting, flags, producers⟩ :=
      manned.takeOrWait member (manned.waiting c ready.1)
    refine ⟨heard, stocked, outside, waiting, ?_, ?_⟩
    · rw [flags]
      exact manned.notifying
    · rw [producers]
      exact manned.writing
  | notifyRead c choice =>
    obtain ⟨-, isEmpty, -, rfl⟩ := notifyRead_eq_some.mp stepped
    refine ⟨heard, stocked, fun d out => ⟨(manned.outside d out).1, ?_⟩, fun d waits => ?_,
      manned.notifying, manned.writing⟩
    · by_cases own : d = c
      · simp [own]
      · simpa [own] using (manned.outside d out).2
    · by_cases own : d = c
      · simp [own]
      · simpa [own] using manned.waiting d waits
  | readSlot c =>
    obtain ⟨-, pool, moved, rfl⟩ := readSlot_eq_some.mp stepped
    obtain ⟨-, rfl⟩ := Pool.readSlot_eq_some.mp moved
    refine ⟨heard, stocked, fun d out => ?_, manned.waiting, manned.notifying, manned.writing⟩
    -- A consumer outside the group stays past the end of its segment.
    obtain ⟨past, silent⟩ := manned.outside d out
    refine ⟨?_, silent⟩
    by_cases own : d = c
    · subst own
      simp only [Function.update_self]
      omega
    · simpa only [Function.update_of_ne own] using past

/-- Only a consumer of the group reads a slot. -/
theorem member_of_reading (manned : Manned group s)
    (reading : (s.pool.consumers c).reading = true) : c ∈ group := by
  -- Outside the group nobody has taken a segment, and a reader has one in hand.
  by_contra out
  have unread := manned.stocked.reading c reading
  have past := (manned.outside c out).1
  omega

/-- Every step that needs no new task brings the threads nearer to their rest. -/
theorem lowers (manned : Manned group s) {label : WaitStep T} (drains : label.Drains)
    (stepped : (waitingMachine T group).step s label = some next) :
    rank group next < rank group s := by
  -- One case for each atomic step.
  cases label with
  | callWrite p obj => exact False.elim drains
  | wake c => exact False.elim drains
  | notifyWritten p choice =>
    obtain ⟨notifies, isEmpty, notified, rfl⟩ := notifyWritten_eq_some.mp stepped
    exact rank_notifyWritten manned.notifying notifies notified
  | writeSlot p =>
    obtain ⟨-, pool, wrote, rfl⟩ := writeSlot_eq_some.mp stepped
    exact rank_writeSlot manned.writing wrote
  | callRead c =>
    obtain ⟨member, called⟩ := Option.ite_none_right_eq_some.mp stepped
    obtain ⟨out, idle, ⟨usedUp, rfl⟩ | ⟨goesOn, pool, moved, rfl⟩⟩ := callRead_cases called
    · apply rank_takeOrWait member _ (Bool.eq_false_iff.mpr idle) usedUp
        (silent_of_callRead called) manned.stocked.toPlaced
      intro blocked
      exact out (manned.heard.blocked c blocked)
    · rcases Pool.callRead_cases moved with ⟨usedUp, -⟩ | ⟨-, rfl⟩
      · exact absurd usedUp goesOn
      · exact rank_goOn member (Bool.eq_false_iff.mpr idle)
  | lockAgain c =>
    obtain ⟨ready, rfl⟩ := lockAgain_eq_some.mp stepped
    obtain ⟨member, idle, usedUp⟩ := manned.heard.waiting c ready.1
    exact rank_takeOrWait member ready.2 idle usedUp (manned.waiting c ready.1)
      manned.stocked.toPlaced
  | notifyRead c choice =>
    obtain ⟨notifies, isEmpty, notified, rfl⟩ := notifyRead_eq_some.mp stepped
    have member : c ∈ group := by
      by_contra out
      rw [(manned.outside c out).2] at notifies
      exact Bool.noConfusion notifies
    exact rank_notifyRead member notifies notified
  | readSlot c =>
    obtain ⟨-, pool, moved, rfl⟩ := readSlot_eq_some.mp stepped
    obtain ⟨reading, rfl⟩ := Pool.readSlot_eq_some.mp moved
    exact rank_readSlot (manned.member_of_reading reading) reading
      (manned.stocked.reading c reading) _

/-- At rest what a consumer could come to has been returned. -/
theorem returned_of_quiescent (manned : Manned group s) (rest : s.Quiescent group) {id : Nat}
    (visible : s.pool.Visible id) : s.pool.Returned id := by
  obtain ⟨blocked, written, silent⟩ := rest.blocked
  rcases visible with returned | ⟨segment, readable, -⟩ | ⟨c, low, high⟩
  · exact returned
  · -- A readable segment would be one that nobody hears of.
    exact absurd ⟨⟨segment, readable⟩, blocked, written, silent⟩ manned.heard.not_lost
  · -- Whoever is blocked has read its segment to the end.
    have past : (s.pool.consumers c).readableId ≤ (s.pool.consumers c).readId := by
      by_cases member : c ∈ group
      · exact (manned.heard.waiting c (manned.heard.blocked c (blocked c member))).2.2
      · exact (manned.outside c member).1
    omega

end Manned

/-- What was read under the id of an accepted task is the task, if every id was written and read
once. -/
theorem Ledger.mem_returned {pool : Pool T} (ledger : Ledger pool) {entry : Nat × T}
    (accepted : entry ∈ pool.accepted) (read : pool.Returned entry.1) : entry ∈ pool.returned := by
  obtain ⟨obj, returned⟩ := read
  -- Whatever is returned was accepted, and no other task was accepted under the id.
  have acceptedToo := ledger.readOnce.accepted _ returned
  have same : entry = (entry.1, obj) :=
    List.inj_on_of_nodup_map ledger.written.distinct accepted acceptedToo rfl
  rw [same]
  exact returned

/-- After every run with at least one consumer, the threads come to rest within a bounded number of
steps if no task is added and nobody wakes up unasked. At rest the id of every accepted task has been
read, except for those of a segment that its producer has not announced, and what was read there is
the task itself if the steps of the pool were careful. -/
theorem drains {T : Type} [Inhabited T] {group : Finset Nat} (nonempty : group.Nonempty)
    {labels : List (WaitStep T)} {s : WaitingPool T}
    (reached : (waitingMachine T group).run WaitingPool.new labels = some s) :
    ∃ bound, ∀ more last, (∀ label ∈ more, label.Drains) →
      (waitingMachine T group).run s more = some last →
        more.length ≤ bound ∧ (last.Quiescent group → ∀ entry ∈ last.pool.accepted,
          (last.pool.Returned entry.1 ∨ ∃ p, last.pool.HeldBack p entry.1) ∧
          ∀ poolLabels, (poolMachine T).run Pool.new poolLabels = some last.pool →
            (poolMachine T).Meets Pool.Careful Pool.new poolLabels →
              entry ∈ last.pool.returned ∨ ∃ p, last.pool.HeldBack p entry.1) := by
  have manned : Manned group s := Machine.run_invariant
    (fun _ _ _ (manned : Manned group _) stepped => manned.step nonempty stepped)
    Manned.start reached
  refine ⟨s.rank group, fun more last all ran => ⟨?_, fun rest entry accepted => ?_⟩⟩
  · have bounded := Machine.length_le_rank (WaitingPool.rank group)
      (fun _ _ _ (manned : Manned group _) drains stepped =>
        ⟨manned.step nonempty stepped, manned.lowers drains stepped⟩) manned all ran
    omega
  · have kept : Manned group last := Machine.run_invariant
      (fun _ _ _ (manned : Manned group _) stepped => manned.step nonempty stepped) manned ran
    have read := (kept.stocked.placed entry accepted).imp_left (kept.returned_of_quiescent rest)
    refine ⟨read, fun poolLabels ranPool careful => read.imp_left fun returned => ?_⟩
    -- Careful steps keep the ledger.
    have ledger : Ledger last.pool := Machine.run_invariant_of_meets
      (fun _ _ _ (ledger : Ledger _) careful stepped => ledger.step careful stepped) Ledger.start
      careful ranPool
    exact ledger.mem_returned accepted returned

/-- A single consumer that has been woken to read a full segment. -/
theorem drains_wakeAndRead :
    ∃ s, (waitingMachine Nat {0}).run WaitingPool.new wakeAndRead = some s ∧
      s.pool.returned = [(0, 0)] ∧
      ∃ bound, ∀ more last, (∀ label ∈ more, label.Drains) →
        (waitingMachine Nat {0}).run s more = some last →
          more.length ≤ bound ∧ (last.Quiescent {0} → ∀ entry ∈ last.pool.accepted,
            (last.pool.Returned entry.1 ∨ ∃ p, last.pool.HeldBack p entry.1) ∧
            ∀ poolLabels, (poolMachine Nat).run Pool.new poolLabels = some last.pool →
              (poolMachine Nat).Meets Pool.Careful Pool.new poolLabels →
                entry ∈ last.pool.returned ∨ ∃ p, last.pool.HeldBack p entry.1) := by
  obtain ⟨s, ran, returned⟩ := wakeAndRead_run
  exact ⟨s, ran, returned, drains (Finset.singleton_nonempty 0) ran⟩

end EnhancedProxy
