import EnhancedProxy.ThreadPool.AtMostOnce
import EnhancedProxy.ThreadPool.Visibility

/-! What a repeated call to `write` does to the readable segments. -/

namespace EnhancedProxy

open CircleQueue

/-- The first call after a segment became full makes it readable, and a further call of its producer
leaves the readable segments as they are. -/
def Pool.PublishesOnce {T : Type} (pool : Pool T) : PoolStep T → Prop
  | .callWrite p obj =>
    pool.Asks p → (pool.producers p).writableId ≠ 0 → ∀ next, pool.callWrite p obj = some next →
      if (pool.producers p).segment ∈ pool.published then
        next.queue.readableQueue = pool.queue.readableQueue
      else
        (pool.producers p).segment ∉ pool.queue.readableQueue ∧
          next.queue.readableQueue =
            insert (pool.producers p).segment pool.queue.readableQueue
  | _ => True

namespace Pool

variable {T : Type} {pool next : Pool T} {p : Nat} {obj : T}

/-- A call that goes on to ask for space makes the caller's segment readable. -/
theorem callWrite_readable (asks : pool.Asks p) (called : pool.callWrite p obj = some next) :
    next.queue.readableQueue = (pool.announce p).queue.readableQueue := by
  -- Granted or refused, the caller has announced its segment before.
  obtain ⟨-, ⟨goesOn, -⟩ | ⟨-, -, rfl⟩ | ⟨-, rfl⟩⟩ := callWrite_cases called
  · exact absurd asks goesOn
  · rfl
  · rfl

/-- Only the caller's segment is added to the readable ones, if it has one. -/
theorem announce_readable (some_ : (pool.producers p).writableId ≠ 0) :
    (pool.announce p).queue.readableQueue =
      insert (pool.producers p).segment pool.queue.readableQueue := by
  -- A producer that has a segment announces it.
  ext segment
  rw [mem_readable_announce, Finset.mem_insert]
  simp [some_]

/-- A producer that asks for space has no call under way, so its call goes through. -/
theorem callWrite_total (placed : Placed pool) (asks : pool.Asks p) (obj : T) :
    ∃ next, pool.callWrite p obj = some next := by
  -- A producer that asks has written all it took, so the call is granted or refused.
  have idle : (pool.producers p).writing = none := by
    by_contra busy
    exact (placed.cursor p).2.2 busy asks
  by_cases room : (pool.announce p).queue.hasRoom
  · exact ⟨_, callWrite_granted idle asks room obj⟩
  · exact ⟨_, callWrite_refused idle asks room obj⟩

end Pool

/-- A segment that was published is readable until it is taken, and not both. -/
structure Shelved {T : Type} (pool : Pool T) : Prop extends Stocked pool where
  shelf : ∀ segment, segment ∈ pool.published ↔
    segment ∈ pool.queue.readableQueue ∨ segment ∈ pool.taken
  untaken : ∀ segment ∈ pool.queue.readableQueue, segment ∉ pool.taken

namespace Shelved

open Pool

variable {T : Type} {pool next : Pool T} {label : PoolStep T} {p : Nat}

/-- A pool in which nothing has happened. -/
theorem start [Inhabited T] : Shelved (Pool.new : Pool T) where
  -- Nothing is announced, readable or taken.
  toStocked := Stocked.start
  shelf segment := by simp [Pool.new]
  untaken segment readable := absurd readable (Finset.notMem_empty _)

/-- A segment that no consumer has taken may be announced, again or for the first time. -/
theorem announce (shelved : Shelved pool) (asks : pool.Asks p)
    (untaken : (pool.producers p).segment ∉ pool.taken) : Shelved (pool.announce p) where
  -- The segment is announced and readable at once, and nobody has taken it.
  toStocked := shelved.toStocked.announce asks
  shelf segment := by
    rw [mem_published_announce, mem_readable_announce, shelved.shelf segment, or_assoc]
    exact Iff.rfl
  untaken segment readable := by
    rcases mem_readable_announce.mp readable with ⟨-, rfl⟩ | before
    · exact untaken
    · exact shelved.untaken segment before

/-- A step that announces no taken segment leaves every published one readable or taken. -/
theorem step (shelved : Shelved pool) (once : pool.AnnouncesOnce label)
    (stepped : (poolMachine T).step pool label = some next) : Shelved next := by
  have stocked := shelved.toStocked.step stepped
  cases label with
  | callWrite p obj =>
    obtain ⟨-, goesOn | asks | asks⟩ := callWrite_cases stepped
    · obtain ⟨-, rfl⟩ := goesOn
      exact ⟨stocked, shelved.shelf, shelved.untaken⟩
    · obtain ⟨asks, -, rfl⟩ := asks
      -- Handing out the next segment changes neither the readable nor the taken ones.
      have announced := shelved.announce asks (once asks)
      exact ⟨stocked, announced.shelf, announced.untaken⟩
    · obtain ⟨asks, rfl⟩ := asks
      exact shelved.announce asks (once asks)
  | writeSlot p =>
    obtain ⟨obj, -, rfl⟩ := Option.map_eq_some_iff.mp stepped
    exact ⟨stocked, shelved.shelf, shelved.untaken⟩
  | callRead c =>
    rcases callRead_cases stepped with ⟨-, space, first, rfl⟩ | ⟨-, rfl⟩
    · refine ⟨stocked, fun segment => ?_, fun segment left => ?_⟩
      · -- The segment that is taken moves from the readable ones to the taken ones.
        rw [shelved.shelf segment]
        by_cases same : segment = space
        · subst same
          simp [firstReadable_mem first]
        · simp [same]
      · obtain ⟨differs, before⟩ := Finset.mem_erase.mp left
        simp [differs, shelved.untaken segment before]
    · exact ⟨stocked, shelved.shelf, shelved.untaken⟩
  | readSlot c =>
    obtain ⟨-, rfl⟩ := Pool.readSlot_eq_some.mp stepped
    exact ⟨stocked, shelved.shelf, shelved.untaken⟩

/-- A call that publishes does so once exactly if no consumer has taken the segment before. -/
theorem publishesOnce_iff (shelved : Shelved pool) :
    pool.PublishesOnce label ↔ pool.AnnouncesOnce label := by
  cases label with
  | writeSlot p => exact Iff.rfl
  | callRead c => exact Iff.rfl
  | readSlot c => exact Iff.rfl
  | callWrite p obj =>
    have shelf := shelved.shelf (pool.producers p).segment
    constructor
    · intro once asks taken
      have published := shelf.mpr (.inr taken)
      -- A taken segment was handed out, so it has an end.
      have some_ : (pool.producers p).writableId ≠ 0 := by
        have width : (pool.producers p).writableId = (pool.producers p).writeId + trySize :=
          (shelved.published _ published).width
        simp only [width, trySize]
        omega
      obtain ⟨next, called⟩ := callWrite_total shelved.toPlaced asks obj
      have same := once asks some_ next called
      rw [if_pos published, callWrite_readable asks called, announce_readable some_,
        Finset.insert_eq_self] at same
      exact shelved.untaken _ same taken
    · intro once asks some_ next called
      have untaken := once asks
      rw [callWrite_readable asks called, announce_readable some_]
      split
      · rename_i published
        -- It was published before, and nobody has taken it since.
        exact Finset.insert_eq_self.mpr ((shelf.mp published).resolve_right untaken)
      · rename_i fresh
        exact ⟨fun readable => fresh (shelf.mpr (.inl readable)), rfl⟩

end Shelved

/-- Along every run, a producer's full segment is made readable by the first call alone exactly if
no producer repeats a refused call after a consumer has taken its segment. -/
theorem publishes_once_iff {T : Type} [Inhabited T] (labels : List (PoolStep T)) :
    (poolMachine T).Meets Pool.PublishesOnce Pool.new labels ↔
      (poolMachine T).Meets Pool.AnnouncesOnce Pool.new labels :=
  -- While each segment is announced once, no readable one was taken before.
  Machine.meets_iff_of_invariant
    (fun _ _ _ (shelved : Shelved _) once stepped => shelved.step once stepped)
    (fun _ _ shelved => shelved.publishesOnce_iff) Shelved.start

/-- A call that is refused again after its segment was taken makes that readable a second time. -/
theorem published_twice :
    ¬ ∀ labels, (poolMachine Nat).Meets Pool.PublishesOnce Pool.new labels := by
  intro claim
  obtain ⟨pool, ran, waits, end_, full, -, -, idle⟩ := fillThenLate_run 16382 (by decide)
  have last : pool.queue.writeId + trySize = size := by
    rw [end_]
    rfl
  obtain ⟨taken, ranTaken, waitsTaken, -, fullTaken, read, -⟩ :=
    announce_and_read waits last full (c := 0) (by rw [idle])
  have ranAll := Machine.run_trans _ ran ranTaken
  have stocked := stocked_run ranAll
  have some_ : (taken.producers 0).writableId ≠ 0 := by
    rw [fullTaken]
    decide
  -- The task that was read is one of the first segment, which was published with it.
  have published : (taken.producers 0).segment ∈ taken.published := by
    obtain ⟨segment, announced, low, high⟩ := stocked.returned 0 ⟨0, by simp [read]⟩
    have starts : (taken.producers 0).segment.first ≤ 0 := by simp [Producer.segment, fullTaken]
    have ends : 0 < (taken.producers 0).segment.second := by
      simp [Producer.segment, fullTaken, trySize]
    have same := (stocked.issued 0 some_).eq_of_mem (stocked.published segment announced)
      starts ends low high
    rwa [same]
  have asks : taken.Asks 0 := by rw [Pool.Asks, fullTaken]
  obtain ⟨next, called⟩ := Pool.callWrite_total stocked.toPlaced asks 1
  -- Nothing is readable before the repeated call, and the segment is after it.
  have met := ((poolMachine Nat).meets_append.mp (claim (_ ++ [.callWrite 0 1]))).2 taken ranAll
  have same := met.1 asks some_ next called
  rw [if_pos published, Pool.callWrite_readable asks called, Pool.announce_readable some_,
    waitsTaken.empty] at same
  exact Finset.insert_ne_empty _ _ same

end EnhancedProxy
