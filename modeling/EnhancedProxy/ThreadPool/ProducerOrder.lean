import EnhancedProxy.ThreadPool.FirstLap

/-! Which values the consumers read in the first lap of the ring, and in which order. -/

namespace EnhancedProxy

open CircleQueue

variable {T : Type}

/-- The segments granted to one producer, in the order in which consumers have taken them. -/
def takenOf (p : Nat) (journal : List (PoolEntry T)) : List Segment :=
  ((takes journal).map Prod.snd).filter (· ∈ grantsOf p journal)

/-- The tasks under the ids granted to one producer, in the order in which consumers have read
them. -/
def readsOf (p : Nat) (journal : List (PoolEntry T)) : List (Nat × T) :=
  ((reads journal).map Prod.snd).filter fun read => (grantsOf p journal).any (·.Has read.1)

/-- Each read returns what the one producer that was granted the id wrote there before, the segments
of a producer are taken in the order of their grants, and a consumer that takes them all reads the
tasks of each producer in the order of their writes. -/
structure ProducerOrdered (journal : List (PoolEntry T)) : Prop where
  value : ∀ before c id obj after, journal = before ++ .read c id obj :: after →
    ∃ p, (∃ segment, (p, segment) ∈ grants before ∧ segment.Has id) ∧
      (p, id, obj) ∈ writes before ∧
      (∀ q segment, (q, segment) ∈ grants journal → segment.Has id → q = p) ∧
      ∀ q written, (q, id, written) ∈ writes journal → q = p ∧ written = obj
  segments : ∀ p, takenOf p journal <+: grantsOf p journal
  tasks : ∀ c, (∀ take ∈ takes journal, take.1 = c) → ∀ p, readsOf p journal <+: writesOf p journal

namespace LapInOrder

variable {pool : Pool T} {journal before after : List (PoolEntry T)} {c p id : Nat} {obj : T}

/-- What was granted before an entry was granted before the end. -/
theorem mem_grantsOf_of_split {e : PoolEntry T} (split : journal = before ++ e :: after)
    {segment : Segment} (given : segment ∈ grantsOf p before) : segment ∈ grantsOf p journal := by
  -- The grants of the longer journal begin with those of the shorter.
  rw [mem_grantsOf] at given ⊢
  rw [split, grants, List.filterMap_append]
  exact List.mem_append_left _ given

/-- One producer was granted the id and has written it. -/
theorem value (inOrder : LapInOrder pool journal)
    (split : journal = before ++ .read c id obj :: after) :
    ∃ p, (∃ segment, (p, segment) ∈ grants before ∧ segment.Has id) ∧
      (p, id, obj) ∈ writes before ∧
      (∀ q segment, (q, segment) ∈ grants journal → segment.Has id → q = p) ∧
      ∀ q written, (q, id, written) ∈ writes journal → q = p ∧ written = obj := by
  obtain ⟨p, segment, given, has, wrote⟩ := (inOrder.justified before _ after split).1
  have givenToo := mem_grantsOf.mp (mem_grantsOf_of_split split (mem_grantsOf.mpr given))
  -- Grants that share an id are one grant, so the id has one owner.
  have owner : ∀ q other, (q, other) ∈ grants journal → other.Has id → q = p := by
    intro q other givenOther hasOther
    exact congrArg Prod.fst (inOrder.granted.grant_of_shared givenOther givenToo hasOther has)
  refine ⟨p, ⟨segment, given, has⟩, wrote, owner, fun q written noted => ?_⟩
  obtain ⟨-, other, givenOther, hasOther⟩ := inOrder.written q _ (mem_writesOf.mpr noted)
  refine ⟨owner q other (mem_grantsOf.mp givenOther) hasOther, ?_⟩
  -- No id is written twice.
  have wroteToo : (p, id, obj) ∈ writes journal := by
    rw [split, writes, List.filterMap_append]
    exact List.mem_append_left _ wrote
  have accepted : (id, obj) ∈ pool.accepted := by
    rw [inOrder.accepted]
    exact List.mem_map_of_mem wroteToo
  have acceptedToo : (id, written) ∈ pool.accepted := by
    rw [inOrder.accepted]
    exact List.mem_map_of_mem noted
  exact congrArg Prod.snd
    (List.inj_on_of_nodup_map inOrder.ledger.written.distinct acceptedToo accepted rfl)

/-- The segment of an id that is read was granted before. -/
theorem granted_before (inOrder : LapInOrder pool journal)
    (split : journal = before ++ .read c id obj :: after) {segment : Segment}
    (given : segment ∈ grantsOf p journal) (has : segment.Has id) :
    segment ∈ grantsOf p before := by
  -- The id was read from a segment granted before, and grants share no id.
  obtain ⟨q, ⟨other, givenOther, hasOther⟩, -⟩ := inOrder.value split
  have givenToo := mem_grantsOf_of_split split (mem_grantsOf.mpr givenOther)
  have one := inOrder.granted.grant_of_shared (mem_grantsOf.mp given) (mem_grantsOf.mp givenToo)
    has hasOther
  cases one
  exact mem_grantsOf.mpr givenOther

/-- The segments of a producer are taken in the order of their grants. -/
theorem segments (inOrder : LapInOrder pool journal) (p : Nat) :
    takenOf p journal <+: grantsOf p journal := by
  apply prefix_of_ordered Segment.first
  · -- Whatever was taken later of one producer was granted to it later.
    rw [takenOf, List.pairwise_filter]
    refine inOrder.takeOrder.imp fun {a b} before given givenOther => ?_
    exact before p (of_decide_eq_true given) (of_decide_eq_true givenOther)
  · exact inOrder.granted.grantsOf_ordered p
  · intro segment member
    exact of_decide_eq_true (List.mem_filter.mp member).2
  · intro segment member other givenOther before
    obtain ⟨taken, given⟩ := List.mem_filter.mp member
    -- The segments taken of a producer leave none out that was granted before.
    have takenOther := inOrder.takeClosed p segment (of_decide_eq_true given)
      ((inOrder.taken segment).mpr taken) other givenOther before
    exact List.mem_filter.mpr ⟨(inOrder.taken other).mp takenOther, decide_eq_true givenOther⟩

/-- A task of the producer was read if it was returned under one of its ids. -/
theorem mem_readsOf {read : Nat × T} :
    read ∈ readsOf p journal ↔
      (∃ c, (c, read) ∈ reads journal) ∧ ∃ segment ∈ grantsOf p journal, segment.Has read.1 := by
  simp [readsOf]

/-- What was read of a producer is what it wrote. -/
theorem written_of_read (inOrder : LapInOrder pool journal) {read : Nat × T}
    (member : read ∈ readsOf p journal) : read ∈ writesOf p journal := by
  obtain ⟨⟨c, noted⟩, segment, given, has⟩ := mem_readsOf.mp member
  have returned : read ∈ pool.returned := by
    rw [inOrder.returned]
    exact List.mem_map_of_mem noted
  -- Whatever is returned was accepted, and so was written by somebody.
  have accepted := inOrder.ledger.readOnce.accepted read returned
  rw [inOrder.accepted] at accepted
  obtain ⟨⟨q, write⟩, wrote, same⟩ := List.mem_map.mp accepted
  obtain rfl : write = read := same
  -- The writer has the id, as the producer has.
  obtain ⟨-, other, givenOther, hasOther⟩ := inOrder.written q write (mem_writesOf.mpr wrote)
  have one := inOrder.granted.grant_of_shared (mem_grantsOf.mp given) (mem_grantsOf.mp givenOther)
    has hasOther
  obtain rfl : p = q := congrArg Prod.fst one
  exact mem_writesOf.mpr wrote

/-- A consumer that takes everything reads the tasks of a producer in the order of their ids. -/
theorem readsOf_ordered (inOrder : LapInOrder pool journal)
    (single : ∀ take ∈ takes journal, take.1 = c) (p : Nat) :
    (readsOf p journal).Pairwise fun a b => a.1 < b.1 := by
  rw [readsOf, List.pairwise_filter, List.pairwise_map, reads]
  refine Journal.pairwise_of_forall fun before e after split read yields earlier noted hasEarlier
    has => ?_
  simp only [List.any_eq_true, decide_eq_true_eq] at has hasEarlier
  obtain ⟨segment, given, has⟩ := has
  obtain ⟨other, givenOther, hasEarlier⟩ := hasEarlier
  -- Only an entry for a read yields a task.
  cases e with
  | granted | refused | wrote | took => cases yields
  | read d id obj =>
    cases yields
    refine (inOrder.justified before _ after split).2 c (fun take taken => single take ?_) p
      segment (inOrder.granted_before split given has) has other ?_ earlier noted hasEarlier
    · rw [split, takes, List.filterMap_append]
      exact List.mem_append_left _ taken
    · -- The earlier read splits what came before this one.
      obtain ⟨entry, listed, yields⟩ := List.mem_filterMap.mp noted
      cases entry with
      | granted | refused | wrote | took => cases yields
      | read f idEarlier objEarlier =>
        cases yields
        obtain ⟨front, back, splitBefore⟩ := List.append_of_mem listed
        have splitWhole : journal = front ++ .read f idEarlier objEarlier ::
            (back ++ .read d id obj :: after) := by
          rw [split, splitBefore, List.append_assoc, List.cons_append]
        exact mem_grantsOf_of_split splitBefore
          (inOrder.granted_before splitWhole givenOther hasEarlier)

/-- What was written before a task that was read has been read. -/
theorem read_of_written (inOrder : LapInOrder pool journal)
    (single : ∀ take ∈ takes journal, take.1 = c) {read write : Nat × T}
    (member : read ∈ readsOf p journal) (wrote : write ∈ writesOf p journal)
    (before : write.1 < read.1) : write ∈ readsOf p journal := by
  obtain ⟨⟨d, noted⟩, segment, given, has⟩ := mem_readsOf.mp member
  obtain ⟨-, other, givenOther, hasOther⟩ := inOrder.written p write wrote
  obtain ⟨taken, passed⟩ := inOrder.passed noted given has
  have ordered := inOrder.granted
  refine mem_readsOf.mpr ⟨?_, other, givenOther, hasOther⟩
  -- The segment of the write is not later than that of the read, so it was taken.
  have notLater : other.first ≤ segment.first := by
    by_contra later
    have apart := ordered.second_le_first (mem_grantsOf.mp given) (mem_grantsOf.mp givenOther)
      (Nat.lt_of_not_le later)
    exact absurd before (Nat.not_lt_of_le (has.2.le.trans (apart.trans hasOther.1)))
  have takenOther : other ∈ pool.taken := by
    rcases Nat.lt_or_eq_of_le notLater with earlier | together
    · exact inOrder.takeClosed p segment given taken other givenOther earlier
    · have one := ordered.grant_of_first (mem_grantsOf.mp givenOther) (mem_grantsOf.mp given)
        together
      obtain rfl : other = segment := congrArg Prod.snd one
      exact taken
  obtain ⟨⟨e, taker⟩, take, same⟩ := List.mem_map.mp ((inOrder.taken other).mp takenOther)
  obtain rfl : taker = other := same
  obtain rfl : e = c := single _ take
  -- The consumer has returned the id, or has it still to read.
  rcases inOrder.progress e taker take write.1 hasOther with ⟨obj, returned⟩ | ⟨low, high⟩
  · -- What was returned under the id is what was written there.
    have accepted := inOrder.ledger.readOnce.accepted _ returned
    have acceptedToo : write ∈ pool.accepted := by
      rw [inOrder.accepted]
      exact List.mem_map_of_mem (mem_writesOf.mp wrote)
    have one := List.inj_on_of_nodup_map inOrder.ledger.written.distinct accepted acceptedToo rfl
    rw [one, inOrder.returned] at returned
    obtain ⟨⟨f, read⟩, notedToo, same⟩ := List.mem_map.mp returned
    obtain rfl : read = write := same
    exact ⟨f, notedToo⟩
  · -- The reader would still be in the segment of the write, and past the task that was read.
    exfalso
    have unread := low.trans_lt high
    obtain ⟨current, takenCurrent, ends, starts⟩ := inOrder.ledger.readOnce.holding e unread
    have announced := inOrder.ledger.readOnce.announced
    have stocked := ordered.stocked
    have same : current = taker := (stocked.published _ (announced _ takenCurrent)).eq_of_mem
      (stocked.published _ (announced _ takenOther)) (starts.trans low) (ends ▸ high)
      hasOther.1 hasOther.2
    subst same
    have latest := inOrder.latest single unread takenCurrent ends givenOther taken given
    have one := ordered.grant_of_first (mem_grantsOf.mp givenOther) (mem_grantsOf.mp given)
      (Nat.le_antisymm notLater latest)
    obtain rfl : current = segment := congrArg Prod.snd one
    have behind := passed e unread ends.symm
    exact absurd behind (Nat.not_lt_of_le (low.trans before.le))

/-- The tasks of a producer are read in the order of its writes, if one consumer takes everything.
-/
theorem tasks (inOrder : LapInOrder pool journal) (single : ∀ take ∈ takes journal, take.1 = c)
    (p : Nat) : readsOf p journal <+: writesOf p journal := by
  -- With a single reader both lists are in the order of the ids,
  -- and every write before a read one has been read.
  apply prefix_of_ordered Prod.fst
  · exact inOrder.readsOf_ordered single p
  · exact inOrder.writeOrder p
  · intro read member
    exact inOrder.written_of_read member
  · intro read member write wrote before
    exact inOrder.read_of_written single member wrote before

end LapInOrder

/-- In every run in which no write is refused and at most `size` ids are granted, the tasks returned
are those of the journal's reads, and the consumers read what the producers wrote, in the order of
each producer. -/
theorem producer_ordered {T : Type} [Inhabited T] {labels : List (PoolStep T)} {pool : Pool T}
    {journal : List (PoolEntry T)}
    (ran : (journaledPool T).run (Pool.new, []) labels = some (pool, journal))
    (granted : ∀ p, .refused p ∉ journal) (lap : pool.queue.writeId ≤ size) :
    pool.returned = (reads journal).map Prod.snd ∧ ProducerOrdered journal := by
  -- The run is in its first lap from beginning to end, where the journal and the pool agree.
  have inOrder := LapInOrder.run ran ⟨granted, lap⟩
  refine ⟨inOrder.returned, ?_, inOrder.segments, fun _ single => inOrder.tasks single⟩
  intro before c id obj after split
  exact inOrder.value split

/-- A producer that fills its first segment and asks for the next, and a consumer that reads the
first task, make such a run. -/
theorem producer_ordered_first :
    ∃ pool journal, (journaledPool Nat).run (Pool.new, [])
        (fillFirst 1023 ++ [.callWrite 0 1, .callRead 0, .readSlot 0]) = some (pool, journal) ∧
      pool.returned = [(0, 0)] ∧ pool.returned = (reads journal).map Prod.snd ∧
      ProducerOrdered journal := by
  -- The first segment holds 1024 tasks.
  obtain ⟨pool, ran, waits, next, full, -, unread, -, idle⟩ := fillFirst_run 1023 (by decide)
  have read := Machine.run_trans _ ran (announceFirst_run waits next full idle).1
  obtain ⟨journal, ranJournal⟩ : ∃ journal, (journaledPool Nat).run (Pool.new, []) _ =
      some (_, journal) := Machine.journaling_run [] read
  refine ⟨_, journal, ranJournal, ?_, ?_⟩
  · show pool.returned ++ [(0, 0)] = [(0, 0)]
    rw [unread, List.nil_append]
  · -- The second segment is granted well before the end of the lap.
    have last : (((pool.announce 0).grant 0 1).readFirst 0).queue.writeId = 2 * trySize := by
      show (pool.announce 0).queue.writeId + trySize = _
      rw [Pool.announce_writeId, next]
      rfl
    have short : 2 * trySize + trySize < size := by decide
    exact producer_ordered ranJournal (not_refused_of_short ranJournal (last ▸ short))
      (last ▸ (by decide))

end EnhancedProxy
