import EnhancedProxy.ThreadPool.Ledger
import EnhancedProxy.ThreadPool.Overwrite

/-! When every accepted task is returned at most once, and how a retried call returns one twice. -/

namespace EnhancedProxy

open CircleQueue

/-- A producer that has no segment announces nothing. -/
theorem announcesOnce_of_fresh {T : Type} {pool : Pool T} {p : Nat} {obj : T}
    (fresh : pool.producers p = {}) (untaken : ⟨0, 0⟩ ∉ pool.taken) :
    pool.AnnouncesOnce (.callWrite p obj) := by
  -- Its cursors are those of the pair (0, 0).
  intro _
  rw [fresh]
  exact untaken

/-- A consumer that reads on announces nothing. -/
theorem readOn_announcesOnce {T : Type} {pool : Pool T} (c tasks : Nat) :
    (poolMachine T).Meets Pool.AnnouncesOnce pool (readOn c tasks) := by
  apply Machine.meets_of_forall
  -- The calls of a consumer are the only labels.
  induction tasks with
  | zero =>
    rw [readOn]
    exact fun _ member => absurd member List.not_mem_nil
  | succ tasks ih =>
    rw [readOn]
    intro label member state
    rcases List.mem_append.mp member with before | now
    · exact ih label before state
    · rcases List.mem_pair.mp now with rfl | rfl
      · trivial
      · trivial

/-- Until a segment is taken, none is announced after it was taken. -/
theorem announcesOnce_of_untaken {T : Type} [Inhabited T] {labels : List (PoolStep T)}
    {pool : Pool T} (ran : (poolMachine T).run Pool.new labels = some pool)
    (untaken : pool.taken = []) : (poolMachine T).Meets Pool.AnnouncesOnce Pool.new labels := by
  -- Nothing is taken at any step of the run.
  refine Machine.meets_of_ends (fun (_ : Pool T) _ _ => Pool.untaken_of_step)
    (fun before label next (_ : True) none_ stepped => ⟨?_, trivial⟩) trivial ran untaken
  exact Pool.announcesOnce_of_taken_eq_nil (Pool.untaken_of_step none_ stepped)

/-- Late producers have no segment to announce when they ask for their first. -/
theorem lateProducers_announcesOnce {pool : Pool Nat} {k : Nat} (waits : TaskWaits pool)
    (next : pool.queue.writeId = trySize * (k + 1))
    (fresh : ∀ p, p ≠ 0 → pool.producers p = {}) (untaken : ⟨0, 0⟩ ∉ pool.taken)
    (producers : Nat) (fits : k + producers < 16384) :
    (poolMachine Nat).Meets Pool.AnnouncesOnce pool (lateProducers producers) := by
  induction producers with
  | zero =>
    rw [lateProducers]
    trivial
  | succ producers ih =>
    obtain ⟨last, ran, -, -, -, freshLast, -, -, -, taken⟩ :=
      lateProducers_run waits next fresh producers (by omega)
    -- The calls before come first, and the last one finds its producer as it was.
    rw [lateProducers, Machine.meets_append]
    refine ⟨ih (by omega), fun reached ranToo => ?_⟩
    obtain rfl : last = reached := Option.some.inj (ran.symm.trans ranToo)
    refine ⟨announcesOnce_of_fresh (freshLast _ (Nat.lt_succ_self _)) (taken ▸ untaken), ?_⟩
    exact fun _ _ => ⟨trivial, fun _ _ => trivial⟩

/-- The first segment is announced before it is taken, and nothing is announced after that. -/
theorem startLap_announcesOnce :
    (poolMachine Nat).Meets Pool.AnnouncesOnce Pool.new startLap := by
  obtain ⟨pool, ran, -, -, -, -, -, untaken, -⟩ := fillFirst_run 1023 (by decide)
  rw [startLap, Machine.meets_append]
  refine ⟨announcesOnce_of_untaken ran untaken, fun reached ranToo => ?_⟩
  obtain rfl : pool = reached := Option.some.inj (ran.symm.trans ranToo)
  -- The consumer comes after the call that announces.
  refine ⟨fun _ => untaken ▸ List.not_mem_nil, fun _ _ => ⟨trivial, fun _ _ => ?_⟩⟩
  exact ⟨trivial, fun _ _ => ⟨trivial, fun _ _ => trivial⟩⟩

/-- In the first lap, no segment is announced after it was taken. -/
theorem readLap_announcesOnce :
    (poolMachine Nat).Meets Pool.AnnouncesOnce Pool.new readLap := by
  obtain ⟨pool, ran, waits, next, fresh, -, -, -, taken⟩ := startLap_run
  have untaken : ⟨0, 0⟩ ∉ pool.taken := by
    rw [taken]
    decide
  rw [readLap, Machine.meets_append]
  refine ⟨startLap_announcesOnce, fun reached ranToo => ?_⟩
  obtain rfl : pool = reached := Option.some.inj (ran.symm.trans ranToo)
  -- The late producers come first, and the rest of the lap is the reader's.
  rw [Machine.meets_append]
  exact ⟨lateProducers_announcesOnce waits next fresh untaken 16382 (by decide),
    fun _ _ => readOn_announcesOnce _ _⟩

/-- Around the ring, no segment is announced after it was taken. -/
theorem aroundTheRing_announcesOnce :
    (poolMachine Nat).Meets Pool.AnnouncesOnce Pool.new aroundTheRing := by
  obtain ⟨pool, ran, -, -, fresh, -, -, -, -, taken⟩ := readLap_run
  rw [aroundTheRing, Machine.meets_append]
  refine ⟨readLap_announcesOnce, fun reached ranToo => ?_⟩
  obtain rfl : pool = reached := Option.some.inj (ran.symm.trans ranToo)
  -- The last producer is new too.
  refine ⟨announcesOnce_of_fresh fresh ?_, fun _ _ => ⟨trivial, fun _ _ => trivial⟩⟩
  rw [taken]
  decide

/-- Every accepted task is returned at most as often as it was accepted, in every run in which no
taken segment is announced again and each grant finds its block of the ring free. -/
theorem returned_at_most_once {T : Type} [Inhabited T] [DecidableEq T] (labels : List (PoolStep T))
    (careful : (poolMachine T).Meets Pool.Careful Pool.new labels) :
    (poolMachine T).Always
      (fun pool => ∀ obj,
        (pool.returned.map Prod.snd).count obj ≤ (pool.accepted.map Prod.snd).count obj)
      Pool.new labels := by
  refine Machine.always_of_meets
    (fun _ _ _ (ledger : Ledger _) careful stepped => ledger.step careful stepped) ?_ Ledger.start
    careful
  intro pool ledger obj
  -- The returned tasks are some of the accepted ones, in another order.
  obtain ⟨listed, same, sublist⟩ := ledger.returned_subperm
  calc (pool.returned.map Prod.snd).count obj = (listed.map Prod.snd).count obj :=
        (same.map Prod.snd).count_eq obj |>.symm
    _ ≤ (pool.accepted.map Prod.snd).count obj := (sublist.map Prod.snd).count_le obj

/-- In a run around the ring with several producers, in which a consumer has read the first segment,
no task is returned more often than it was accepted. -/
theorem returned_at_most_once_aroundTheRing :
    (∃ pool, (poolMachine Nat).run Pool.new aroundTheRing = some pool ∧
      pool.returned.map Prod.fst = List.range 1024 ∧ pool.taken = [⟨0, trySize⟩]) ∧
    (poolMachine Nat).Always
      (fun pool => ∀ obj,
        (pool.returned.map Prod.snd).count obj ≤ (pool.accepted.map Prod.snd).count obj)
      Pool.new aroundTheRing := by
  -- One segment has been read in full when the ring comes around to its first slot.
  refine ⟨?_, returned_at_most_once aroundTheRing
    (aroundTheRing_grantsClear.and aroundTheRing_announcesOnce)⟩
  obtain ⟨pool, ran, empty, -, fresh, -, returned, -, -, taken⟩ := readLap_run
  rw [aroundTheRing]
  exact ⟨_, Machine.run_trans _ ran (run_fresh empty fresh 1), returned, taken⟩

/-- A refused call announces its full segment, from which a new consumer returns task 0. -/
theorem announce_and_read {pool : Pool Nat} (waits : TaskWaits pool)
    (last : pool.queue.writeId + trySize = size)
    (full : pool.producers 0 = { writeId := 0, curWriteId := trySize, writableId := trySize })
    {c : Nat} (fresh : pool.consumers c = {}) :
    ∃ next, (poolMachine Nat).run pool [.callWrite 0 1, .callRead c, .readSlot c] = some next ∧
      TaskWaits next ∧ next.queue.writeId + trySize = size ∧
      next.producers 0 = { writeId := 0, curWriteId := trySize, writableId := trySize } ∧
      next.returned = pool.returned ++ [(0, 0)] ∧ next.accepted = pool.accepted ∧
      ∀ d, d ≠ c → next.consumers d = pool.consumers d := by
  have asks : pool.Asks 0 := by rw [Pool.Asks, full]
  -- The full segment is now the only readable one.
  have readable : (pool.announce 0).queue.readableQueue = {⟨0, trySize⟩} := by
    simp [Pool.announce, publish, full, waits.empty, trySize]
  -- The last segment of the first lap is not granted while anything is readable.
  have shut : ¬ (pool.announce 0).queue.hasRoom := by
    have aligned : trySize ∣ (pool.announce 0).queue.writeId := by
      rw [Pool.announce_writeId]
      simp only [trySize, size] at *
      omega
    rw [hasRoom_iff aligned, readable, Pool.announce_writeId, last]
    simp
  have refused : (poolMachine Nat).step pool (.callWrite 0 1) = some (pool.announce 0) :=
    Pool.callWrite_refused (by rw [full]) asks shut 1
  -- Nobody has written to the slot of task 0 since.
  have stored : (pool.announce 0).queue.circleArray 0 = 0 := by
    rw [Pool.announce_circleArray]
    exact waits.stored
  have announced : (poolMachine Nat).run pool [.callWrite 0 1] = some (pool.announce 0) := by
    rw [Machine.run_cons, refused, Option.bind_some, Machine.run_nil]
  have ran := Machine.run_trans _ announced (readFirst_run readable stored fresh)
  have emptied : (pool.announce 0).queue.readableQueue.erase ⟨0, trySize⟩ = ∅ := by
    rw [readable]
    exact Finset.erase_singleton _
  refine ⟨_, ran, ⟨emptied, stored, waits.once⟩, ?_, full, rfl, rfl, ?_⟩
  · show (pool.announce 0).queue.writeId + trySize = size
    rw [Pool.announce_writeId]
    exact last
  · intro d other
    show Function.update (Function.update pool.consumers c _) c _ d = _
    rw [Function.update_of_ne other, Function.update_of_ne other]

/-- A full first segment stays with its producer while late producers take up the ring. -/
theorem fillThenLate_run (producers : Nat) (fits : producers < 16384) :
    ∃ pool,
      (poolMachine Nat).run Pool.new (fillFirst 1023 ++ lateProducers producers) = some pool ∧
      TaskWaits pool ∧ pool.queue.writeId = trySize * (producers + 1) ∧
      pool.producers 0 = { writeId := 0, curWriteId := trySize, writableId := trySize } ∧
      (∀ p, producers < p → pool.producers p = {}) ∧ pool.returned = [] ∧
      pool.consumers = fun _ => {} := by
  obtain ⟨full, ran, waits, next, first, fresh, unread, -, idle⟩ := fillFirst_run 1023 (by decide)
  -- The first segment is the only one that is granted before.
  have start : full.queue.writeId = trySize * (0 + 1) := by rw [next, Nat.zero_add, Nat.mul_one]
  obtain ⟨pool, ranLate, waitsLate, nextLate, firstLate, freshLate, sameConsumers, sameReturned,
    -⟩ := lateProducers_run waits start fresh producers (by omega)
  refine ⟨pool, Machine.run_trans _ ran ranLate, waitsLate, ?_, firstLate.trans first, freshLate,
    sameReturned.trans unread, sameConsumers.trans idle⟩
  rw [nextLate, Nat.zero_add]

/-- A call that is refused and then retried makes two consumers return the one task 0. -/
theorem returned_twice :
    ∃ pool,
      (poolMachine Nat).run Pool.new (fillFirst 1023 ++ lateProducers 16382 ++
          [.callWrite 0 1, .callRead 0, .readSlot 0, .callWrite 0 1, .callRead 1, .readSlot 1]) =
        some pool ∧
      (pool.accepted.map Prod.snd).count 0 = 1 ∧ (pool.returned.map Prod.snd).count 0 = 2 := by
  obtain ⟨pool, ran, waits, next, full, -, unread, idle⟩ := fillThenLate_run 16382 (by decide)
  have last : pool.queue.writeId + trySize = size := by
    rw [next]
    rfl
  -- The refused call publishes the segment, and its retry publishes it again.
  obtain ⟨first, ranFirst, waitsFirst, lastFirst, fullFirst, readFirst, sameFirst, others⟩ :=
    announce_and_read waits last full (c := 0) (by rw [idle])
  obtain ⟨second, ranSecond, waitsSecond, -, -, readSecond, sameSecond, -⟩ :=
    announce_and_read waitsFirst lastFirst fullFirst (c := 1) (by rw [others 1 (by decide), idle])
  refine ⟨second, Machine.run_trans _ ran (Machine.run_trans _ ranFirst ranSecond),
    waitsSecond.once, ?_⟩
  rw [readSecond, readFirst, unread]
  rfl

end EnhancedProxy
