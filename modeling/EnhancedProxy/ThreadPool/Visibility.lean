import EnhancedProxy.ThreadPool.Overwrite

/-! Which accepted tasks the consumers can come to, in every state of every run. -/

namespace EnhancedProxy

open CircleQueue

/-- No call to `write` and no call to `read` is under way. -/
def Pool.AtRest {T : Type} (pool : Pool T) : Prop :=
  (∀ p, (pool.producers p).writing = none) ∧ ∀ c, (pool.consumers c).reading = false

/-- No two producers have one segment, and only ids of announced segments are returned. -/
structure Stocked {T : Type} (pool : Pool T) : Prop extends Placed pool where
  apart : ∀ p q, p ≠ q → (pool.producers q).writableId ≠ 0 →
    (pool.producers p).segment ≠ (pool.producers q).segment
  returned : ∀ id, pool.Returned id →
    ∃ segment ∈ pool.published, segment.first ≤ id ∧ id < segment.second

namespace Stocked

open Pool

variable {T : Type} {pool next : Pool T} {p c : Nat} {obj : T}

/-- A pool in which nothing has happened. -/
theorem start [Inhabited T] : Stocked (Pool.new : Pool T) where
  -- No segment was granted and nothing returned.
  toPlaced := Placed.start
  apart _ _ _ some_ := absurd rfl some_
  returned _ read := absurd read.choose_spec List.not_mem_nil

/-- Announcing a used-up segment makes its tasks visible. -/
theorem announce (stocked : Stocked pool) (asks : pool.Asks p) : Stocked (pool.announce p) where
  toPlaced := by
    apply stocked.toPlaced.announce
    intro q goesOn some_
    -- The caller has used its segment up, and nobody else has the same one.
    have differs : q ≠ p := by
      rintro rfl
      exact goesOn asks
    exact stocked.apart q p differs some_
  apart := stocked.apart
  returned id read := by
    obtain ⟨segment, announced, inside⟩ := stocked.returned id read
    exact ⟨segment, mem_published_announce.mpr (.inr announced), inside⟩

/-- Nobody has the segment that is handed out next. -/
theorem grant (stocked : Stocked pool) (vacant : ¬ pool.Filling p) (obj : T) :
    Stocked (pool.grant p obj) where
  toPlaced := stocked.toPlaced.grant vacant obj
  apart q r differs some_ same := by
    -- Every segment that was handed out before ends before the new one.
    have ends := congrArg Segment.second same
    simp only [Producer.segment] at ends
    have past : ∀ s, (pool.producers s).writableId ≤ pool.queue.writeId := by
      intro s
      rcases Nat.eq_zero_or_pos (pool.producers s).writableId with none_ | issued
      · omega
      · exact (stocked.issued s (Nat.pos_iff_ne_zero.mp issued)).past
    by_cases caller : r = p
    · subst caller
      have before := past q
      simp only [grant_own, grant_other differs, trySize] at ends
      omega
    · rw [grant_other caller] at some_
      by_cases callerOther : q = p
      · subst callerOther
        have before := past r
        simp only [grant_own, grant_other caller, trySize] at ends
        omega
      · rw [grant_other caller, grant_other callerOther] at same
        exact stocked.apart q r differs some_ same
  returned := stocked.returned

/-- A producer that moves on within its segment keeps it. -/
theorem advance (stocked : Stocked pool) (working : ¬ pool.Asks p) {cur : Nat} {writing : Option T}
    (forward : (pool.producers p).curWriteId ≤ cur) (within : cur ≤ (pool.producers p).writableId)
    (room : writing ≠ none → cur < (pool.producers p).writableId) :
    Stocked (pool.advance p cur writing) where
  -- The producer moves inside its own segment.
  toPlaced := stocked.toPlaced.advance working forward within room
  apart q r differs some_ := by
    rw [advance_segment, advance_segment]
    exact stocked.apart q r differs (by rwa [advance_writableId] at some_)
  returned := stocked.returned

/-- Consumers leave the producers' segments alone. -/
theorem consume (stocked : Stocked pool) {readable : Finset Segment}
    {consumers : Nat → Consumer} {returned : List (Nat × T)} {taken : List Segment}
    (placed : Placed { pool with
      queue := { pool.queue with readableQueue := readable }
      consumers := consumers
      returned := returned
      taken := taken })
    (announced : ∀ entry ∈ returned, pool.Returned entry.1 ∨
      ∃ segment ∈ pool.published, segment.first ≤ entry.1 ∧ entry.1 < segment.second) :
    Stocked { pool with
      queue := { pool.queue with readableQueue := readable }
      consumers := consumers
      returned := returned
      taken := taken } where
  -- Only what was announced is ever returned.
  toPlaced := placed
  apart := stocked.apart
  returned id read := by
    obtain ⟨obj, entry⟩ := read
    rcases announced _ entry with before | now
    · exact stocked.returned id before
    · exact now

/-- Every atomic step leaves each accepted task visible or held back. -/
theorem step {label : PoolStep T} (stocked : Stocked pool)
    (stepped : (poolMachine T).step pool label = some next) : Stocked next := by
  -- One case for each atomic step, with what it can do.
  cases label with
  | callWrite p obj =>
    obtain ⟨-, goesOn | asks | asks⟩ := callWrite_cases stepped
    · obtain ⟨working, rfl⟩ := goesOn
      obtain ⟨-, high, -⟩ := stocked.cursor p
      exact stocked.advance working (Nat.le_refl _) high fun _ => Nat.lt_of_not_le working
    · obtain ⟨asks, -, rfl⟩ := asks
      exact (stocked.announce asks).grant not_filling_announce obj
    · obtain ⟨asks, rfl⟩ := asks
      exact stocked.announce asks
  | writeSlot p =>
    obtain ⟨obj, writing, rfl⟩ := Option.map_eq_some_iff.mp stepped
    have some_ : (pool.producers p).writing ≠ none := by simp [writing]
    have filling := stocked.filling_of_writing some_
    obtain ⟨low, -, busy⟩ := stocked.cursor p
    have below := Nat.lt_of_not_le (busy some_)
    -- The cursor moves on first, and the id it has passed is then accepted.
    have moved := stocked.advance (busy some_) (Nat.le_succ _) below
      fun (none_ : (none : Option T) ≠ none) => absurd rfl none_
    refine ⟨moved.toPlaced.accept ⟨filling_advance.mpr filling, ?_, ?_⟩ obj _,
      moved.apart, moved.returned⟩
    · rwa [advance_writeId]
    · rw [advance_own]
      exact Nat.lt_succ_self _
  | callRead c =>
    have before : ∀ entry ∈ pool.returned, pool.Returned entry.1 ∨
        ∃ segment ∈ pool.published, segment.first ≤ entry.1 ∧ entry.1 < segment.second := by
      intro entry read
      exact .inl ⟨entry.2, read⟩
    rcases callRead_cases stepped with ⟨usedUp, segment, first, rfl⟩ | ⟨unread, rfl⟩
    · exact stocked.consume (stocked.toPlaced.take usedUp (firstReadable_mem first)) before
    · exact stocked.consume (stocked.toPlaced.goOnReading unread) before
  | readSlot c =>
    obtain ⟨called, rfl⟩ := Pool.readSlot_eq_some.mp stepped
    apply stocked.consume (stocked.toPlaced.readSlot called _)
    intro entry read
    rcases List.mem_append.mp read with before | now
    · exact .inl ⟨entry.2, before⟩
    · rw [List.mem_singleton] at now
      subst now
      -- The id that is read is in the segment that its consumer has taken.
      have unread := stocked.reading c called
      obtain ⟨segment, announced, ends, starts⟩ := stocked.taking c unread
      exact .inr ⟨segment, announced, starts, ends ▸ unread⟩

/-- What is visible is in an announced segment, or was so when it was read. -/
theorem announced_of_visible (stocked : Stocked pool) {id : Nat} (visible : pool.Visible id) :
    ∃ segment ∈ pool.published, segment.first ≤ id ∧ id < segment.second := by
  -- What is visible was returned, can be taken or is in hand, and each of these was announced.
  rcases visible with returned | ⟨segment, readable, inside⟩ | ⟨c, low, high⟩
  · exact stocked.returned id returned
  · exact ⟨segment, stocked.readable segment readable, inside⟩
  · obtain ⟨segment, announced, ends, starts⟩ := stocked.taking c (low.trans_lt high)
    exact ⟨segment, announced, starts.trans low, ends ▸ high⟩

/-- What a producer holds back is not visible. -/
theorem not_visible_of_heldBack (stocked : Stocked pool) {id : Nat}
    (heldBack : pool.HeldBack p id) : ¬ pool.Visible id := by
  intro visible
  obtain ⟨segment, announced, low, high⟩ := stocked.announced_of_visible visible
  obtain ⟨filling, lowOwn, highOwn⟩ := heldBack
  -- The id determines its segment, and the producer has not announced that one.
  have same := (stocked.issued p filling.1).eq_of_mem (stocked.published segment announced)
    lowOwn (highOwn.trans_le (stocked.cursor p).2.1) low high
  exact filling.2 (same ▸ announced)

/-- The cursor of a producer is at most a segment past the start of its segment. -/
theorem cursor_le (stocked : Stocked pool) :
    (pool.producers p).curWriteId ≤ (pool.producers p).writeId + trySize := by
  -- Without a segment the cursor is at zero, and with one it stays inside.
  have within := (stocked.cursor p).2.1
  rcases Nat.eq_zero_or_pos (pool.producers p).writableId with none_ | some_
  · omega
  · have width : (pool.producers p).writableId = (pool.producers p).writeId + trySize :=
      (stocked.issued p (Nat.pos_iff_ne_zero.mp some_)).width
    omega

end Stocked

/-- Every run keeps each accepted task visible or held back. -/
theorem stocked_run {T : Type} [Inhabited T] {labels : List (PoolStep T)} {pool : Pool T}
    (reached : (poolMachine T).run Pool.new labels = some pool) : Stocked pool :=
  Machine.run_invariant (fun _ _ _ stocked stepped => stocked.step stepped) Stocked.start reached

/-- In every state of every run, an accepted task is visible unless it is one of the last tasks,
a segment at most, that its producer holds back; the producer's next call that asks for space makes
them visible. -/
theorem visible_unless_heldBack {T : Type} [Inhabited T] {labels : List (PoolStep T)}
    {pool : Pool T} (reached : (poolMachine T).run Pool.new labels = some pool) :
    (∀ entry ∈ pool.accepted, pool.Visible entry.1 ↔ ¬ ∃ p, pool.HeldBack p entry.1) ∧
    (∀ p, (pool.producers p).curWriteId ≤ (pool.producers p).writeId + trySize) ∧
    ∀ p obj next, pool.Asks p → (poolMachine T).step pool (.callWrite p obj) = some next →
      ∀ id, pool.HeldBack p id → next.Visible id := by
  have stocked := stocked_run reached
  refine ⟨fun entry accepted => ⟨?_, ?_⟩, fun p => stocked.cursor_le, ?_⟩
  · rintro visible ⟨p, heldBack⟩
    exact stocked.not_visible_of_heldBack heldBack visible
  · intro free
    exact (stocked.placed entry accepted).resolve_right free
  · intro p obj next asks stepped id heldBack
    have visible := heldBack.visible (stocked.cursor p).2.1
    obtain ⟨-, ⟨goesOn, -⟩ | ⟨-, -, rfl⟩ | ⟨-, rfl⟩⟩ := Pool.callWrite_cases stepped
    · exact absurd asks goesOn
    · -- Handing out the next segment takes nothing from the readable ones.
      exact visible
    · exact visible

/-- A producer's only task is held back when its call has returned. -/
theorem single_task_run :
    (poolMachine Nat).run Pool.new [.callWrite 0 7, .writeSlot 0] =
      some ((Pool.new : Pool Nat).afterFirst 0 7) :=
  run_fresh rfl rfl 7

/-- The task that a producer has written alone is visible unless it is held back. -/
theorem single_task_unless_heldBack :
    ((Pool.new : Pool Nat).afterFirst 0 7).Visible 0 ↔
      ¬ ∃ p, ((Pool.new : Pool Nat).afterFirst 0 7).HeldBack p 0 :=
  (visible_unless_heldBack single_task_run).1 (0, 7) (List.mem_singleton.mpr rfl)

/-- A task of which `write` has returned true stays out of the consumers' sight, with no call under
way and nothing readable. -/
theorem single_task_not_visible :
    ¬ ∀ (labels : List (PoolStep Nat)) (pool : Pool Nat),
      (poolMachine Nat).run Pool.new labels = some pool → pool.AtRest →
        ∀ entry ∈ pool.accepted, pool.Visible entry.1 := by
  intro always
  have rest : ((Pool.new : Pool Nat).afterFirst 0 7).AtRest := by
    refine ⟨fun p => ?_, fun _ => rfl⟩
    by_cases caller : p = 0
    · subst caller
      rw [Pool.afterFirst_own]
    · rw [Pool.afterFirst_other caller]
      rfl
  have visible := always _ _ single_task_run rest (0, 7) (List.mem_singleton.mpr rfl)
  -- It was not returned, no segment is readable, and no consumer has one.
  rcases visible with ⟨obj, returned⟩ | ⟨segment, readable, -⟩ | ⟨c, -, high⟩
  · exact absurd returned List.not_mem_nil
  · exact absurd readable (Finset.notMem_empty _)
  · exact absurd high (Nat.lt_irrefl _)

end EnhancedProxy
