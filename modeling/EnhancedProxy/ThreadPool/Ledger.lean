import EnhancedProxy.ThreadPool.Custody

/-! The ledger of ids: each is written once, its segment is taken once, and it is read once. -/

namespace EnhancedProxy

open CircleQueue

namespace Pool

variable {T : Type}

/-- A call that asks for space announces no segment that a consumer has taken already. -/
def AnnouncesOnce (pool : Pool T) : PoolStep T → Prop
  | .callWrite p _ => pool.Asks p → (pool.producers p).segment ∉ pool.taken
  | _ => True

/-- What a step must meet so that no segment is in two hands. -/
def Careful (pool : Pool T) (label : PoolStep T) : Prop :=
  pool.GrantsClear label ∧ pool.AnnouncesOnce label

variable {pool next : Pool T} {label : PoolStep T}

/-- Before anything is taken, no segment is announced after it was taken. -/
theorem announcesOnce_of_taken_eq_nil (untaken : pool.taken = []) : pool.AnnouncesOnce label := by
  -- Only a call to `write` announces anything.
  cases label with
  | callWrite p obj =>
    intro _
    rw [untaken]
    exact List.not_mem_nil
  | writeSlot p => trivial
  | callRead c => trivial
  | readSlot c => trivial

/-- A segment that was taken stays so. -/
theorem untaken_of_step (untaken : next.taken = [])
    (stepped : (poolMachine T).step pool label = some next) : pool.taken = [] := by
  -- Only a consumer that asks takes a segment.
  cases label with
  | callWrite p obj =>
    obtain ⟨-, ⟨-, rfl⟩ | ⟨-, -, rfl⟩ | ⟨-, rfl⟩⟩ := callWrite_cases stepped
    · exact untaken
    · exact untaken
    · exact untaken
  | writeSlot p =>
    obtain ⟨obj, -, rfl⟩ := Option.map_eq_some_iff.mp stepped
    exact untaken
  | callRead c =>
    rcases callRead_cases stepped with ⟨-, space, -, rfl⟩ | ⟨-, rfl⟩
    · exact absurd untaken (List.cons_ne_nil _ _)
    · exact untaken
  | readSlot c =>
    obtain ⟨-, rfl⟩ := readSlot_eq_some.mp stepped
    exact untaken

end Pool

/-- Accepted ids are written once and stored until they are read. -/
structure Written {T : Type} (pool : Pool T) : Prop where
  filled : ∀ p id, (pool.producers p).writeId ≤ id → id < (pool.producers p).curWriteId →
    ∃ obj, (id, obj) ∈ pool.accepted
  complete : ∀ segment ∈ pool.published, ∀ id, segment.first ≤ id → id < segment.second →
    ∃ obj, (id, obj) ∈ pool.accepted
  distinct : (pool.accepted.map Prod.fst).Nodup
  stored : ∀ entry ∈ pool.accepted, ¬ pool.Returned entry.1 →
    pool.queue.circleArray (entry.1 % size) = entry.2

/-- Every segment is taken by one consumer, which returns its ids in order. -/
structure ReadOnce {T : Type} (pool : Pool T) : Prop where
  announced : ∀ segment ∈ pool.taken, segment ∈ pool.published
  untaken : ∀ segment ∈ pool.queue.readableQueue, segment ∉ pool.taken
  holding : ∀ c, (pool.consumers c).readId < (pool.consumers c).readableId →
    ∃ segment ∈ pool.taken, segment.second = (pool.consumers c).readableId ∧
      segment.first ≤ (pool.consumers c).readId
  apart : ∀ c d, c ≠ d → (pool.consumers c).readId < (pool.consumers c).readableId →
    (pool.consumers d).readId < (pool.consumers d).readableId →
      (pool.consumers c).readableId ≠ (pool.consumers d).readableId
  passed : ∀ entry ∈ pool.returned, ∃ segment ∈ pool.taken,
    segment.first ≤ entry.1 ∧ entry.1 < segment.second ∧
      ∀ c, (pool.consumers c).readId < (pool.consumers c).readableId →
        (pool.consumers c).readableId = segment.second → entry.1 < (pool.consumers c).readId
  accepted : ∀ entry ∈ pool.returned, entry ∈ pool.accepted
  distinct : (pool.returned.map Prod.fst).Nodup

/-- The custody of the segments together with the ledger of their ids. -/
structure Ledger {T : Type} (pool : Pool T) : Prop where
  custody : Custody pool
  written : Written pool
  readOnce : ReadOnce pool

/-- An empty ledger. -/
theorem Ledger.start {T : Type} [Inhabited T] : Ledger (Pool.new : Pool T) where
  -- Nothing was announced, accepted, taken or returned.
  custody := Custody.start
  written :=
    { filled := fun _ _ _ high => absurd high (Nat.not_lt_zero _)
      complete := fun _ announced => absurd announced List.not_mem_nil
      distinct := List.nodup_nil
      stored := fun _ accepted => absurd accepted List.not_mem_nil }
  readOnce :=
    { announced := fun _ taken => absurd taken List.not_mem_nil
      untaken := fun _ readable => absurd readable (Finset.notMem_empty _)
      holding := fun _ unread => absurd unread (Nat.lt_irrefl _)
      apart := fun _ _ _ unread => absurd unread (Nat.lt_irrefl _)
      passed := fun _ returned => absurd returned List.not_mem_nil
      accepted := fun _ returned => absurd returned List.not_mem_nil
      distinct := List.nodup_nil }

namespace Written

open Pool

variable {T : Type} {pool : Pool T} {p : Nat}

/-- An announced segment has a task under each of its ids. -/
theorem announce (written : Written pool) (asks : pool.Asks p) :
    Written (pool.announce p) where
  filled := written.filled
  complete segment announced id low high := by
    rcases mem_published_announce.mp announced with ⟨-, rfl⟩ | before
    · -- The caller has written its segment to the end.
      exact written.filled p id low (high.trans_le asks)
    · exact written.complete segment before id low high
  distinct := written.distinct
  stored entry accepted unread := by
    rw [announce_circleArray]
    exact written.stored entry accepted unread

/-- A granted segment has no task yet. -/
theorem grant (written : Written pool) (obj : T) : Written (pool.grant p obj) where
  -- The new segment is empty, and the tasks accepted are the same.
  filled q id low high := by
    by_cases caller : q = p
    · subst caller
      rw [grant_own] at low high
      exact absurd high (Nat.not_lt_of_le low)
    · rw [grant_other caller] at low high
      exact written.filled q id low high
  complete := written.complete
  distinct := written.distinct
  stored := written.stored

/-- Taking note of a task writes nothing. -/
theorem goOnWriting (written : Written pool) (writing : Option T) :
    Written (pool.advance p (pool.producers p).curWriteId writing) where
  filled q id low high := by
    rw [advance_writeId] at low
    refine written.filled q id low ?_
    -- The cursor of the caller stays where it is.
    by_cases caller : q = p
    · subst caller
      rwa [advance_own] at high
    · rwa [advance_other caller] at high
  complete := written.complete
  distinct := written.distinct
  stored := written.stored

/-- A written slot holds the task of its id, and no unread task was there. -/
theorem writeSlot (written : Written pool) (custody : Custody pool)
    (writing : (pool.producers p).writing ≠ none) (obj : T) :
    Written { pool.advance p ((pool.producers p).curWriteId + 1) none with
      queue := pool.queue.write (pool.producers p).curWriteId obj
      accepted := pool.accepted ++ [((pool.producers p).curWriteId, obj)] } where
  filled q id low high := by
    rw [advance_writeId] at low
    by_cases caller : q = p
    · subst caller
      rw [advance_own] at high
      -- The id just passed is the one that was written.
      rcases Nat.lt_succ_iff_lt_or_eq.mp high with before | now
      · obtain ⟨other, accepted⟩ := written.filled q id low before
        exact ⟨other, List.mem_append_left _ accepted⟩
      · exact ⟨obj, List.mem_append_right _ (by simp [now])⟩
    · rw [advance_other caller] at high
      obtain ⟨other, accepted⟩ := written.filled q id low high
      exact ⟨other, List.mem_append_left _ accepted⟩
  complete segment announced id low high := by
    obtain ⟨other, accepted⟩ := written.complete segment announced id low high
    exact ⟨other, List.mem_append_left _ accepted⟩
  distinct := by
    -- The id was free, so no id is listed twice.
    rw [List.map_append, List.map_singleton, List.nodup_append]
    refine ⟨written.distinct, List.nodup_singleton _, ?_⟩
    intro id before now isNow same
    rw [List.mem_singleton] at isNow
    obtain ⟨entry, accepted, rfl⟩ := List.mem_map.mp before
    exact custody.fresh_of_writing writing accepted (same.trans isNow)
  stored entry accepted unread := by
    show Function.update pool.queue.circleArray _ obj _ = _
    rcases List.mem_append.mp accepted with before | now
    · have differs := custody.fresh_of_writing writing before
      -- A task that is still unread is on another slot.
      have elsewhere : entry.1 % size ≠ (pool.producers p).curWriteId % size := by
        intro same
        exact unread (custody.returned_of_writing writing before differs same).2
      rw [Function.update_of_ne elsewhere]
      exact written.stored entry before unread
    · rw [List.mem_singleton] at now
      subst now
      exact Function.update_self _ _ _

end Written

namespace ReadOnce

open Pool

variable {T : Type} {pool : Pool T} {p c : Nat}

/-- An announced segment that nobody has taken stays to be taken. -/
theorem announce (readOnce : ReadOnce pool) (untaken : (pool.producers p).segment ∉ pool.taken) :
    ReadOnce (pool.announce p) where
  -- One segment more is announced, and it is untaken by assumption.
  announced segment taken := mem_published_announce.mpr (.inr (readOnce.announced segment taken))
  untaken segment readable := by
    rcases mem_readable_announce.mp readable with ⟨-, rfl⟩ | before
    · exact untaken
    · exact readOnce.untaken segment before
  holding := readOnce.holding
  apart := readOnce.apart
  passed := readOnce.passed
  accepted := readOnce.accepted
  distinct := readOnce.distinct

/-- Handing out a segment, or moving on in one, takes and returns nothing. -/
theorem producing (readOnce : ReadOnce pool) (writeId : Nat) (producers : Nat → Producer T) :
    ReadOnce { pool with
      queue := { pool.queue with writeId := writeId }
      producers := producers } where
  -- Only producers and the next free id have changed.
  announced := readOnce.announced
  untaken := readOnce.untaken
  holding := readOnce.holding
  apart := readOnce.apart
  passed := readOnce.passed
  accepted := readOnce.accepted
  distinct := readOnce.distinct

/-- Accepting a task takes and returns none. -/
theorem accept (readOnce : ReadOnce pool) (entry : Nat × T) (producers : Nat → Producer T)
    (slots : Nat → T) :
    ReadOnce { pool with
      queue := { pool.queue with circleArray := slots }
      producers := producers
      accepted := pool.accepted ++ [entry] } where
  -- The new entry is among the accepted ones only.
  announced := readOnce.announced
  untaken := readOnce.untaken
  holding := readOnce.holding
  apart := readOnce.apart
  passed := readOnce.passed
  accepted other returned := List.mem_append_left _ (readOnce.accepted other returned)
  distinct := readOnce.distinct

/-- Consumers with unread ids stay in different segments when one of them moves into a segment that
no other consumer is in. -/
theorem apart_update (readOnce : ReadOnce pool) {consumer : Consumer}
    (alone : consumer.readId < consumer.readableId → ∀ d, d ≠ c →
      (pool.consumers d).readId < (pool.consumers d).readableId →
        (pool.consumers d).readableId ≠ consumer.readableId) (d e : Nat) (differs : d ≠ e)
    (unread : (Function.update pool.consumers c consumer d).readId <
      (Function.update pool.consumers c consumer d).readableId)
    (unreadOther : (Function.update pool.consumers c consumer e).readId <
      (Function.update pool.consumers c consumer e).readableId) :
    (Function.update pool.consumers c consumer d).readableId ≠
      (Function.update pool.consumers c consumer e).readableId := by
  -- At most one of the two is the consumer that moves.
  by_cases caller : d = c
  · subst caller
    rw [Function.update_self] at unread ⊢
    rw [Function.update_of_ne differs.symm] at unreadOther ⊢
    exact (alone unread e differs.symm unreadOther).symm
  · rw [Function.update_of_ne caller] at unread ⊢
    by_cases callerOther : e = c
    · subst callerOther
      rw [Function.update_self] at unreadOther ⊢
      exact alone unreadOther d caller unread
    · rw [Function.update_of_ne callerOther] at unreadOther ⊢
      exact readOnce.apart d e differs unread unreadOther

/-- A consumer that takes a segment is the only one to have taken it. -/
theorem take (readOnce : ReadOnce pool) (custody : Custody pool) {segment : Segment}
    (readable : segment ∈ pool.queue.readableQueue) :
    ReadOnce { pool with
      queue := { pool.queue with readableQueue := pool.queue.readableQueue.erase segment }
      consumers := Function.update pool.consumers c
        { readId := segment.first, readableId := segment.second, reading := true }
      taken := segment :: pool.taken } := by
  -- A readable segment was announced, and not taken before.
  have announced := custody.readable segment readable
  -- A segment taken before ends elsewhere.
  have elsewhere : ∀ other ∈ pool.taken, other.second ≠ segment.second := by
    intro other taken same
    have equal := (custody.published other (readOnce.announced other taken)).eq_of_second
      (custody.published segment announced) same
    exact readOnce.untaken segment readable (equal ▸ taken)
  exact {
    announced := by
      intro other taken
      rcases List.mem_cons.mp taken with rfl | before
      · exact announced
      · exact readOnce.announced other before
    untaken := by
      intro other member taken
      obtain ⟨differs, before⟩ := Finset.mem_erase.mp member
      rcases List.mem_cons.mp taken with same | earlier
      · exact differs same
      · exact readOnce.untaken other before earlier
    holding := by
      intro d unread
      by_cases caller : d = c
      · subst caller
        simp only [Function.update_self]
        exact ⟨segment, List.mem_cons_self, rfl, Nat.le_refl _⟩
      · simp only [Function.update_of_ne caller] at unread ⊢
        obtain ⟨other, taken, inside⟩ := readOnce.holding d unread
        exact ⟨other, List.mem_cons_of_mem _ taken, inside⟩
    apart := by
      apply readOnce.apart_update
      intro _ d _ unread
      obtain ⟨other, taken, ends, -⟩ := readOnce.holding d unread
      exact ends ▸ elsewhere other taken
    passed := by
      intro entry returned
      obtain ⟨other, taken, low, high, before⟩ := readOnce.passed entry returned
      refine ⟨other, List.mem_cons_of_mem _ taken, low, high, ?_⟩
      intro d unread ends
      by_cases caller : d = c
      · subst caller
        simp only [Function.update_self] at ends
        exact absurd ends.symm (elsewhere other taken)
      · simp only [Function.update_of_ne caller] at unread ends ⊢
        exact before d unread ends
    accepted := readOnce.accepted
    distinct := readOnce.distinct }

/-- A consumer that starts on its next id takes and returns nothing. -/
theorem goOnReading (readOnce : ReadOnce pool) :
    ReadOnce { pool with
      consumers := Function.update pool.consumers c
        { pool.consumers c with reading := true } } := by
  -- Beginning a read moves no cursor.
  have ids := calling_ids pool c
  exact {
    announced := readOnce.announced
    untaken := readOnce.untaken
    holding := by
      intro d
      simp only [(ids d).1, (ids d).2]
      exact readOnce.holding d
    apart := by
      intro d e
      simp only [(ids d).1, (ids d).2, (ids e).1, (ids e).2]
      exact readOnce.apart d e
    passed := by
      intro entry returned
      obtain ⟨segment, taken, low, high, before⟩ := readOnce.passed entry returned
      refine ⟨segment, taken, low, high, ?_⟩
      intro d
      simp only [(ids d).1, (ids d).2]
      exact before d
    accepted := readOnce.accepted
    distinct := readOnce.distinct }

end ReadOnce

namespace Ledger

open Pool

variable {T : Type} {pool next : Pool T} {p c : Nat}

/-- The id a consumer is about to read has a stored task, and was not returned before. -/
theorem readable_id (ledger : Ledger pool)
    (unread : (pool.consumers c).readId < (pool.consumers c).readableId) :
    ((pool.consumers c).readId, pool.queue.read (pool.consumers c).readId) ∈ pool.accepted ∧
      ¬ pool.Returned (pool.consumers c).readId := by
  obtain ⟨segment, taken, ends, starts⟩ := ledger.readOnce.holding c unread
  have announced := ledger.readOnce.announced segment taken
  have issued := ledger.custody.published segment announced
  have fresh : ¬ pool.Returned (pool.consumers c).readId := by
    rintro ⟨obj, returned⟩
    obtain ⟨other, takenOther, low, high, before⟩ := ledger.readOnce.passed _ returned
    -- The id lies in one segment only, and this consumer has not passed it there.
    have issuedOther := ledger.custody.published other (ledger.readOnce.announced other takenOther)
    have same := issued.eq_of_mem issuedOther starts (ends ▸ unread) low high
    have passed := before c unread (same ▸ ends.symm)
    exact absurd passed (Nat.lt_irrefl _)
  obtain ⟨obj, accepted⟩ := ledger.written.complete segment announced _ starts (ends ▸ unread)
  have stored : pool.queue.read (pool.consumers c).readId = obj :=
    ledger.written.stored _ accepted fresh
  exact ⟨stored ▸ accepted, fresh⟩

/-- A consumer returns the task of its id, for the first time. -/
theorem readSlot (ledger : Ledger pool) (called : (pool.consumers c).reading) :
    ReadOnce { pool with
      consumers := Function.update pool.consumers c
        { pool.consumers c with readId := (pool.consumers c).readId + 1, reading := false }
      returned := pool.returned ++
        [((pool.consumers c).readId, pool.queue.read (pool.consumers c).readId)] } := by
  have unread := ledger.custody.reading c called
  obtain ⟨accepted, fresh⟩ := ledger.readable_id unread
  have readOnce := ledger.readOnce
  exact {
    announced := readOnce.announced
    untaken := readOnce.untaken
    holding := by
      intro d more
      by_cases caller : d = c
      · subst caller
        simp only [Function.update_self] at more ⊢
        obtain ⟨segment, taken, ends, starts⟩ := readOnce.holding d unread
        exact ⟨segment, taken, ends, Nat.le_succ_of_le starts⟩
      · simp only [Function.update_of_ne caller] at more ⊢
        exact readOnce.holding d more
    apart := by
      -- The consumer stays in its segment.
      apply readOnce.apart_update
      intro _ d other more
      exact readOnce.apart d c other more unread
    passed := by
      intro entry returned
      rcases List.mem_append.mp returned with before | now
      · -- An id returned before lies behind every consumer of its segment.
        obtain ⟨segment, taken, low, high, passed⟩ := readOnce.passed entry before
        refine ⟨segment, taken, low, high, ?_⟩
        intro d more ends
        by_cases caller : d = c
        · subst caller
          simp only [Function.update_self] at ends ⊢
          exact Nat.lt_succ_of_lt (passed d unread ends)
        · simp only [Function.update_of_ne caller] at more ends ⊢
          exact passed d more ends
      · rw [List.mem_singleton] at now
        subst now
        obtain ⟨segment, taken, ends, starts⟩ := readOnce.holding c unread
        refine ⟨segment, taken, starts, ends ▸ unread, ?_⟩
        intro d more endsOther
        by_cases caller : d = c
        · subst caller
          simp
        · -- No other consumer has this segment.
          simp only [Function.update_of_ne caller] at more endsOther
          exact absurd (endsOther.trans ends) (readOnce.apart d c caller more unread)
    accepted := by
      intro entry returned
      rcases List.mem_append.mp returned with before | now
      · exact readOnce.accepted entry before
      · rw [List.mem_singleton] at now
        subst now
        exact accepted
    distinct := by
      -- The id was not returned before, so no id is listed twice.
      rw [List.map_append, List.map_singleton, List.nodup_append]
      refine ⟨readOnce.distinct, List.nodup_singleton _, ?_⟩
      intro id before now isNow same
      rw [List.mem_singleton] at isNow
      obtain ⟨entry, returned, rfl⟩ := List.mem_map.mp before
      have here : entry.1 = (pool.consumers c).readId := same.trans isNow
      have listed : (entry.1, entry.2) ∈ pool.returned := returned
      exact fresh ⟨entry.2, here ▸ listed⟩ }

/-- Every careful step keeps the ledger in order. -/
theorem step {label : PoolStep T} (ledger : Ledger pool) (careful : pool.Careful label)
    (stepped : (poolMachine T).step pool label = some next) : Ledger next := by
  have custody := ledger.custody.step careful.1 stepped
  -- Custody moves as shown before, and each step makes at most one entry.
  cases label with
  | callWrite p obj =>
    obtain ⟨-, goesOn | granted | refused⟩ := callWrite_cases stepped
    · obtain ⟨-, rfl⟩ := goesOn
      exact ⟨custody, ledger.written.goOnWriting (some obj), ledger.readOnce.producing _ _⟩
    · obtain ⟨asks, -, rfl⟩ := granted
      have announced := ledger.readOnce.announce (careful.2 asks)
      exact ⟨custody, (ledger.written.announce asks).grant obj, announced.producing _ _⟩
    · obtain ⟨asks, rfl⟩ := refused
      exact ⟨custody, ledger.written.announce asks, ledger.readOnce.announce (careful.2 asks)⟩
  | writeSlot p =>
    obtain ⟨obj, writing, rfl⟩ := Option.map_eq_some_iff.mp stepped
    have some_ : (pool.producers p).writing ≠ none := by simp [writing]
    exact ⟨custody, ledger.written.writeSlot ledger.custody some_ obj,
      ledger.readOnce.accept _ _ _⟩
  | callRead c =>
    rcases callRead_cases stepped with ⟨-, segment, first, rfl⟩ | ⟨-, rfl⟩
    · have written := ledger.written
      exact ⟨custody, ⟨written.filled, written.complete, written.distinct, written.stored⟩,
        ledger.readOnce.take ledger.custody (firstReadable_mem first)⟩
    · have written := ledger.written
      exact ⟨custody, ⟨written.filled, written.complete, written.distinct, written.stored⟩,
        ledger.readOnce.goOnReading⟩
  | readSlot c =>
    obtain ⟨called, rfl⟩ := Pool.readSlot_eq_some.mp stepped
    have written := ledger.written
    refine ⟨custody, ⟨written.filled, written.complete, written.distinct, ?_⟩,
      ledger.readSlot called⟩
    -- What is unread afterwards was unread before.
    intro entry accepted unread
    refine written.stored entry accepted ?_
    rintro ⟨obj, returned⟩
    exact unread ⟨obj, List.mem_append_left _ returned⟩

/-- In a ledger that is in order, the returned tasks are among the accepted ones, each once. -/
theorem returned_subperm (ledger : Ledger pool) : pool.returned.Subperm pool.accepted :=
  -- No id was returned twice, and every entry returned is an accepted one.
  List.subperm_of_subset (List.Nodup.of_map Prod.fst ledger.readOnce.distinct)
    ledger.readOnce.accepted

end Ledger

end EnhancedProxy
