import EnhancedProxy.ThreadPool.Republish
import EnhancedProxy.ThreadPool.Segments

/-! What holds in the first lap of the ring, as long as no write is refused. -/

namespace EnhancedProxy

open CircleQueue

variable {T : Type}

/-- No write has been refused, and at most `size` ids have been granted. -/
def FirstLap (pool : Pool T) (journal : List (PoolEntry T)) : Prop :=
  (∀ p, .refused p ∉ journal) ∧ pool.queue.writeId ≤ size

/-- What is read was written before, under the same id, by the producer that had the id. -/
def ReadAsWritten (before : List (PoolEntry T)) : PoolEntry T → Prop
  | .read _ id obj =>
    ∃ p segment, (p, segment) ∈ grants before ∧ segment.Has id ∧ (p, id, obj) ∈ writes before
  | _ => True

/-- If one consumer has taken everything, what is read is, of each producer, later than what was
read before. -/
def ReadInOrder (before : List (PoolEntry T)) : PoolEntry T → Prop
  | .read _ id _ =>
    ∀ c, (∀ take ∈ takes before, take.1 = c) → ∀ p, ∀ segment ∈ grantsOf p before, segment.Has id →
      ∀ other ∈ grantsOf p before, ∀ earlier ∈ reads before, other.Has earlier.2.1 →
        earlier.2.1 < id
  | _ => True

/-- Everything that the journal of a first lap tells about the pool. -/
structure LapInOrder (pool : Pool T) (journal : List (PoolEntry T)) : Prop where
  granted : GrantedInOrder pool journal
  ledger : Ledger pool
  shelved : Shelved pool
  accepted : pool.accepted = (writes journal).map Prod.snd
  returned : pool.returned = (reads journal).map Prod.snd
  taken : ∀ segment, segment ∈ pool.taken ↔ segment ∈ (takes journal).map Prod.snd
  -- A producer has announced all of its segments but the last.
  unannounced : ∀ p, (pool.producers p).writableId ≠ 0 →
    (pool.producers p).segment ∉ pool.published
  announced : ∀ p, ∀ segment ∈ grantsOf p journal,
    segment ∈ pool.published ∨ segment = (pool.producers p).segment
  -- It writes its ids in order.
  written : ∀ p, ∀ write ∈ writesOf p journal, write.1 < (pool.producers p).curWriteId ∧
    ∃ segment ∈ grantsOf p journal, segment.Has write.1
  writeOrder : ∀ p, (writesOf p journal).Pairwise fun a b => a.1 < b.1
  -- Its segments are taken in order, and each is read from its start.
  takeOrder : ((takes journal).map Prod.snd).Pairwise fun a b => ∀ p, a ∈ grantsOf p journal →
    b ∈ grantsOf p journal → a.first < b.first
  takeClosed : ∀ p, ∀ segment ∈ grantsOf p journal, segment ∈ pool.taken →
    ∀ other ∈ grantsOf p journal, other.first < segment.first → other ∈ pool.taken
  progress : ∀ c segment, (c, segment) ∈ takes journal → ∀ id, segment.Has id →
    pool.Returned id ∨
      ((pool.consumers c).readId ≤ id ∧ id < (pool.consumers c).readableId)
  justified : Journal.Justified (fun before e => ReadAsWritten before e ∧ ReadInOrder before e)
    journal

namespace FirstLap

variable {pool next : Pool T} {journal after : List (PoolEntry T)} {label : PoolStep T}

/-- A run that is in its first lap was so before its last step. -/
theorem before (lap : FirstLap next after)
    (stepped : (journaledPool T).step (pool, journal) label = some (next, after)) :
    FirstLap pool journal := by
  -- The journal and the counter only grow.
  obtain ⟨moved, entry, -, rfl⟩ := journaledPool_cases stepped
  exact ⟨fun p noted => lap.1 p (List.mem_append_left _ noted),
    (Pool.writeId_le_of_step moved).trans lap.2⟩

end FirstLap

namespace LapInOrder

open Pool

variable {pool next : Pool T} {journal after : List (PoolEntry T)} {label : PoolStep T} {p c : Nat}
  {other : Segment}

/-- A pool in which nothing has happened. -/
theorem start [Inhabited T] : LapInOrder (Pool.new : Pool T) [] where
  -- The journal is empty and so is everything it accounts for.
  granted := GrantedInOrder.start
  ledger := Ledger.start
  shelved := Shelved.start
  accepted := rfl
  returned := rfl
  taken _ := Iff.rfl
  unannounced _ some_ := absurd rfl some_
  announced _ _ member := absurd member List.not_mem_nil
  written _ _ member := absurd member List.not_mem_nil
  writeOrder _ := List.Pairwise.nil
  takeOrder := List.Pairwise.nil
  takeClosed _ _ member := absurd member List.not_mem_nil
  progress _ _ member := absurd member List.not_mem_nil
  justified := Journal.justified_nil _

/-- In the first lap no step grants a block that is in use, or announces a segment again. -/
theorem careful (inOrder : LapInOrder pool journal) (lap : FirstLap next after)
    (stepped : (poolMachine T).step pool label = some next) : pool.Careful label := by
  have placed := inOrder.granted.stocked.toPlaced
  refine ⟨placed.grantsClear_of_lap lap.2 stepped, ?_⟩
  cases label with
  | writeSlot p => trivial
  | callRead c => trivial
  | readSlot c => trivial
  | callWrite p obj =>
    intro asks taken
    have announced := inOrder.ledger.readOnce.announced _ taken
    -- Only a segment that was handed out can be taken.
    have width := (placed.published _ announced).width
    exact inOrder.unannounced p (by
      simp only [Producer.segment] at width
      rw [width]
      exact Nat.succ_ne_zero _) announced

/-- A segment that is granted now is later than all that were taken. -/
theorem mem_granted_of_taken (inOrder : LapInOrder pool journal) {segment : Segment}
    (taken : segment ∈ pool.taken) {q : Nat} :
    segment ∈ grantsOf q (journal ++ [.granted p pool.queue.nextSegment]) ↔
      segment ∈ grantsOf q journal := by
  rw [grantsOf_granted, List.mem_append]
  refine or_iff_left ?_
  split
  · intro new
    rw [List.mem_singleton] at new
    subst new
    -- What was taken ends where the next segment starts, at the latest.
    have past := (inOrder.granted.stocked.published _
      (inOrder.ledger.readOnce.announced _ taken)).past
    simp only [nextSegment, trySize] at past
    omega
  · exact List.not_mem_nil

/-- What was granted lies before the next segment. -/
theorem past_of_granted (inOrder : LapInOrder pool journal) {segment : Segment}
    (granted : segment ∈ grantsOf p journal) :
    segment.second = segment.first + trySize ∧ segment.second ≤ pool.queue.writeId := by
  -- The grants are blocks one after another, and the queue's counter is past the last of them.
  obtain ⟨k, below, same⟩ := inOrder.granted.eq_block (mem_grantsOf.mp granted)
  obtain ⟨m, aligned⟩ := inOrder.granted.stocked.aligned
  dsimp only at same
  subst same
  refine ⟨rfl, ?_⟩
  show trySize * k + trySize ≤ _
  simp only [trySize] at *
  omega

/-- The producer goes on in its segment. -/
theorem fills (inOrder : LapInOrder pool journal) {writing : Option T}
    (granted : GrantedInOrder (pool.advance p (pool.producers p).curWriteId writing) journal)
    (ledger : Ledger (pool.advance p (pool.producers p).curWriteId writing))
    (shelved : Shelved (pool.advance p (pool.producers p).curWriteId writing)) :
    LapInOrder (pool.advance p (pool.producers p).curWriteId writing) journal where
  -- The step only puts a task in the producer's hands, which no list of the journal shows.
  granted := granted
  ledger := ledger
  shelved := shelved
  accepted := inOrder.accepted
  returned := inOrder.returned
  taken := inOrder.taken
  unannounced q some_ := by
    rw [advance_writableId] at some_
    rw [advance_segment]
    exact inOrder.unannounced q some_
  announced q segment member := by
    rw [advance_segment]
    exact inOrder.announced q segment member
  written q write member := by
    obtain ⟨below, inside⟩ := inOrder.written q write member
    exact ⟨below.trans_le (curWriteId_le_advance (Nat.le_refl _)), inside⟩
  writeOrder := inOrder.writeOrder
  takeOrder := inOrder.takeOrder
  takeClosed := inOrder.takeClosed
  progress := inOrder.progress
  justified := inOrder.justified

/-- The producer has its segment announced, and is granted the next. -/
theorem grant (inOrder : LapInOrder pool journal) {obj : T}
    (granted : GrantedInOrder ((pool.announce p).grant p obj)
      (journal ++ [.granted p pool.queue.nextSegment]))
    (ledger : Ledger ((pool.announce p).grant p obj))
    (shelved : Shelved ((pool.announce p).grant p obj)) :
    LapInOrder ((pool.announce p).grant p obj)
      (journal ++ [.granted p pool.queue.nextSegment]) where
  granted := granted
  ledger := ledger
  shelved := shelved
  accepted := by
    rw [writes_quiet rfl]
    exact inOrder.accepted
  returned := by
    rw [reads_quiet rfl]
    exact inOrder.returned
  taken segment := by
    rw [takes_quiet rfl]
    exact inOrder.taken segment
  unannounced q some_ announced := by
    have stocked := inOrder.granted.stocked
    by_cases caller : q = p
    · subst caller
      -- The new segment is past all that were handed out before.
      have past := (granted.stocked.published _ announced).past
      have before : ∀ segment ∈ (pool.announce q).published,
          segment.second ≤ pool.queue.writeId := by
        intro segment member
        rcases mem_published_announce.mp member with ⟨issued, rfl⟩ | earlier
        · exact (stocked.issued q issued).past
        · exact (stocked.published segment earlier).past
      have ends := before _ announced
      simp only [Producer.segment, grant_own, announce_writeId, trySize] at ends
      omega
    · rw [grant_other caller] at some_ announced
      rcases mem_published_announce.mp announced with ⟨issued, same⟩ | earlier
      · exact stocked.apart q p caller issued same
      · exact inOrder.unannounced q some_ earlier
  announced q segment member := by
    rw [grantsOf_granted, List.mem_append] at member
    by_cases caller : q = p
    · subst caller
      rw [grant_own, if_pos rfl, List.mem_singleton] at *
      rcases member with earlier | rfl
      · -- The last segment was announced now, and the others before.
        refine .inl (mem_published_announce.mpr ?_)
        rcases inOrder.announced q segment earlier with before | last
        · exact .inr before
        · refine .inl ⟨fun none_ => ?_, last⟩
          rw [inOrder.granted.without q none_] at earlier
          exact absurd earlier List.not_mem_nil
      · exact .inr (by simp [nextSegment, Producer.segment])
    · rw [if_neg (Ne.symm caller)] at member
      rw [grant_other caller]
      refine (inOrder.announced q segment (member.resolve_right List.not_mem_nil)).imp ?_ id
      exact fun before => mem_published_announce.mpr (.inr before)
  written q write member := by
    rw [writesOf_quiet rfl] at member
    obtain ⟨below, segment, given, has⟩ := inOrder.written q write member
    refine ⟨?_, segment, ?_, has⟩
    · -- The caller goes on behind everything it was granted before.
      by_cases caller : q = p
      · subst caller
        rw [grant_own, announce_writeId]
        exact has.2.trans_le (inOrder.past_of_granted given).2
      · rw [grant_other caller]
        exact below
    · rw [grantsOf_granted]
      exact List.mem_append_left _ given
  writeOrder q := by
    rw [writesOf_quiet rfl]
    exact inOrder.writeOrder q
  takeOrder := by
    rw [takes_quiet rfl]
    refine inOrder.takeOrder.imp_of_mem fun {a b} first second before q given givenOther => ?_
    have takenFirst := (inOrder.taken a).mpr first
    have takenSecond := (inOrder.taken b).mpr second
    exact before q ((inOrder.mem_granted_of_taken takenFirst).mp given)
      ((inOrder.mem_granted_of_taken takenSecond).mp givenOther)
  takeClosed q segment given taken other givenOther before := by
    replace given := (inOrder.mem_granted_of_taken taken).mp given
    refine inOrder.takeClosed q segment given taken other ?_ before
    rw [grantsOf_granted, List.mem_append] at givenOther
    refine givenOther.resolve_right fun new => ?_
    -- The new segment is behind every other.
    have past := inOrder.past_of_granted given
    split at new
    · rw [List.mem_singleton] at new
      subst new
      simp only [nextSegment] at before
      omega
    · exact absurd new List.not_mem_nil
  progress c segment member := by
    rw [takes_quiet rfl] at member
    exact inOrder.progress c segment member
  justified := inOrder.justified.snoc ⟨trivial, trivial⟩

/-- The producer writes the task of its cursor. -/
theorem write (inOrder : LapInOrder pool journal) {obj : T}
    (writing : (pool.producers p).writing = some obj) (slots : Nat → T)
    (granted : GrantedInOrder { pool.advance p ((pool.producers p).curWriteId + 1) none with
        queue := { pool.queue with circleArray := slots }
        accepted := pool.accepted ++ [((pool.producers p).curWriteId, obj)] }
      (journal ++ [.wrote p (pool.producers p).curWriteId obj]))
    (ledger : Ledger { pool.advance p ((pool.producers p).curWriteId + 1) none with
        queue := { pool.queue with circleArray := slots }
        accepted := pool.accepted ++ [((pool.producers p).curWriteId, obj)] })
    (shelved : Shelved { pool.advance p ((pool.producers p).curWriteId + 1) none with
        queue := { pool.queue with circleArray := slots }
        accepted := pool.accepted ++ [((pool.producers p).curWriteId, obj)] }) :
    LapInOrder { pool.advance p ((pool.producers p).curWriteId + 1) none with
        queue := { pool.queue with circleArray := slots }
        accepted := pool.accepted ++ [((pool.producers p).curWriteId, obj)] }
      (journal ++ [.wrote p (pool.producers p).curWriteId obj]) where
  granted := granted
  ledger := ledger
  shelved := shelved
  accepted := by
    simp [inOrder.accepted, writes]
  returned := by
    rw [reads_quiet rfl]
    exact inOrder.returned
  taken segment := by
    rw [takes_quiet rfl]
    exact inOrder.taken segment
  unannounced q some_ := by
    show ((pool.advance p _ none).producers q).segment ∉ pool.published
    rw [advance_segment]
    refine inOrder.unannounced q ?_
    rw [← advance_writableId]
    exact some_
  announced q segment member := by
    rw [grantsOf_quiet rfl] at member
    show segment ∈ pool.published ∨ segment = ((pool.advance p _ none).producers q).segment
    rw [advance_segment]
    exact inOrder.announced q segment member
  written q write member := by
    rw [grantsOf_quiet rfl]
    rw [writesOf_wrote, List.mem_append] at member
    show write.1 < ((pool.advance p _ none).producers q).curWriteId ∧ _
    rcases member with earlier | now
    · obtain ⟨below, inside⟩ := inOrder.written q write earlier
      exact ⟨below.trans_le (curWriteId_le_advance (Nat.le_succ _)), inside⟩
    · split at now
      · rename_i same
        subst same
        rw [List.mem_singleton] at now
        subst now
        -- The cursor stands in the last segment of its producer.
        have some_ : (pool.producers p).writing ≠ none := by simp [writing]
        obtain ⟨low, -, busy⟩ := inOrder.granted.stocked.cursor p
        have filling := (inOrder.granted.stocked.filling_of_writing some_).1
        have last := inOrder.granted.filling p filling
        rw [advance_own]
        exact ⟨Nat.lt_succ_self _, _, List.mem_of_getLast? last, low,
          Nat.lt_of_not_le (busy some_)⟩
      · exact absurd now List.not_mem_nil
  writeOrder q := by
    rw [writesOf_wrote]
    split
    · rename_i same
      subst same
      rw [List.pairwise_append]
      refine ⟨inOrder.writeOrder p, List.pairwise_singleton _ _, fun a earlier b now => ?_⟩
      rw [List.mem_singleton] at now
      subst now
      exact (inOrder.written p a earlier).1
    · rw [List.append_nil]
      exact inOrder.writeOrder q
  takeOrder := by
    rw [takes_quiet rfl]
    refine inOrder.takeOrder.imp fun {a b} before q => ?_
    rw [grantsOf_quiet rfl]
    exact before q
  takeClosed q := by
    rw [grantsOf_quiet rfl]
    exact inOrder.takeClosed q
  progress c segment member := by
    rw [takes_quiet rfl] at member
    exact inOrder.progress c segment member
  justified := inOrder.justified.snoc ⟨trivial, trivial⟩

/-- A segment that is readable is later than those of its producer that were taken before. -/
theorem later_of_readable (inOrder : LapInOrder pool journal) {segment other : Segment}
    (readable : segment ∈ pool.queue.readableQueue) (given : segment ∈ grantsOf p journal)
    (taken : other ∈ pool.taken) (givenOther : other ∈ grantsOf p journal) :
    other.first < segment.first := by
  have untaken := inOrder.shelved.untaken segment readable
  rcases Nat.lt_trichotomy other.first segment.first with before | same | after
  · exact before
  · -- A taken segment is not readable again.
    have one := inOrder.granted.grant_of_first (mem_grantsOf.mp givenOther)
      (mem_grantsOf.mp given) same
    obtain rfl : other = segment := congrArg Prod.snd one
    exact absurd taken untaken
  · exact absurd (inOrder.takeClosed p other givenOther taken segment given after) untaken

/-- A segment that is taken first of all was preceded by the earlier ones of its producer. -/
theorem taken_of_first (inOrder : LapInOrder pool journal) {segment other : Segment}
    (first : pool.queue.firstReadable = some segment) (given : segment ∈ grantsOf p journal)
    (givenOther : other ∈ grantsOf p journal) (before : other.first < segment.first) :
    other ∈ pool.taken := by
  have placed := inOrder.granted.stocked
  have announced := placed.readable segment (firstReadable_mem first)
  -- The producer has announced the earlier one as well.
  have published : other ∈ pool.published := by
    rcases inOrder.announced p other givenOther with done | last
    · exact done
    · exfalso
      rcases inOrder.announced p segment given with done | lastToo
      · have some_ : (pool.producers p).writableId ≠ 0 := by
          intro none_
          rw [inOrder.granted.without p none_] at given
          exact absurd given List.not_mem_nil
        -- Nothing was granted to it after its last segment.
        have ends := inOrder.granted.filling p some_
        rw [← last] at ends
        exact absurd before (Nat.not_lt_of_le (inOrder.granted.le_last given ends))
      · rw [last, lastToo] at before
        exact Nat.lt_irrefl _ before
  rcases (inOrder.shelved.shelf other).mp published with readable | taken
  · -- The first readable segment is the least.
    exfalso
    exact absurd before (Nat.not_lt_of_le (firstReadable_le first readable))
  · exact taken

/-- A consumer takes the first readable segment. -/
theorem take (inOrder : LapInOrder pool journal) {segment : Segment}
    (usedUp : (pool.consumers c).readableId ≤ (pool.consumers c).readId)
    (first : pool.queue.firstReadable = some segment)
    (granted : GrantedInOrder (pool.take c segment) (journal ++ [.took c segment]))
    (ledger : Ledger (pool.take c segment)) (shelved : Shelved (pool.take c segment)) :
    LapInOrder (pool.take c segment) (journal ++ [.took c segment]) where
  granted := granted
  ledger := ledger
  shelved := shelved
  accepted := by
    rw [writes_quiet rfl]
    exact inOrder.accepted
  returned := by
    rw [reads_quiet rfl]
    exact inOrder.returned
  taken other := by
    rw [takes_snoc, List.map_append, List.mem_append, ← inOrder.taken other]
    simp [Pool.take, takes, or_comm]
  unannounced := inOrder.unannounced
  announced q other member := by
    rw [grantsOf_quiet rfl] at member
    exact inOrder.announced q other member
  written q write member := by
    rw [writesOf_quiet rfl] at member
    rw [grantsOf_quiet rfl]
    exact inOrder.written q write member
  writeOrder q := by
    rw [writesOf_quiet rfl]
    exact inOrder.writeOrder q
  takeOrder := by
    rw [takes_snoc, List.map_append, List.pairwise_append]
    refine ⟨inOrder.takeOrder.imp fun {a b} before q => ?_, List.pairwise_singleton _ _,
      fun a earlier b now q given givenNow => ?_⟩
    · rw [grantsOf_quiet rfl]
      exact before q
    · rw [grantsOf_quiet rfl] at given givenNow
      obtain rfl : b = segment := List.mem_singleton.mp now
      exact inOrder.later_of_readable (firstReadable_mem first) givenNow
        ((inOrder.taken a).mpr earlier) given
  takeClosed q other given taken another givenAnother before := by
    rw [grantsOf_quiet rfl] at given givenAnother
    refine List.mem_cons_of_mem segment ?_
    rcases List.mem_cons.mp taken with rfl | earlier
    · exact inOrder.taken_of_first first given givenAnother before
    · exact inOrder.takeClosed q other given earlier another givenAnother before
  progress d other member id has := by
    rw [takes_snoc, List.mem_append] at member
    show pool.Returned id ∨ _
    by_cases caller : d = c
    · subst caller
      simp only [Pool.take, Function.update_self]
      rcases member with earlier | now
      · -- What it took before is used up.
        refine .inl ((inOrder.progress d other earlier id has).resolve_right fun inside => ?_)
        omega
      · have same : (d, other) = (d, segment) := List.mem_singleton.mp now
        cases same
        exact .inr has
    · simp only [Pool.take, Function.update_of_ne caller]
      refine inOrder.progress d other (member.resolve_right fun now => ?_) id has
      have same : (d, other) = (c, segment) := List.mem_singleton.mp now
      exact caller (congrArg Prod.fst same)
  justified := inOrder.justified.snoc ⟨trivial, trivial⟩

/-- A consumer starts on its next id. -/
theorem empties (inOrder : LapInOrder pool journal) {consumers : Nat → Consumer}
    (goesOn : consumers = Function.update pool.consumers c
      { pool.consumers c with reading := true })
    (granted : GrantedInOrder { pool with consumers := consumers } journal)
    (ledger : Ledger { pool with consumers := consumers })
    (shelved : Shelved { pool with consumers := consumers }) :
    LapInOrder { pool with consumers := consumers } journal where
  -- The consumer begins a read, which the journal shows when the read is done.
  granted := granted
  ledger := ledger
  shelved := shelved
  accepted := inOrder.accepted
  returned := inOrder.returned
  taken := inOrder.taken
  unannounced := inOrder.unannounced
  announced := inOrder.announced
  written := inOrder.written
  writeOrder := inOrder.writeOrder
  takeOrder := inOrder.takeOrder
  takeClosed := inOrder.takeClosed
  progress d segment member id has := by
    simp only [goesOn, (calling_ids pool c d).1, (calling_ids pool c d).2]
    exact inOrder.progress d segment member id has
  justified := inOrder.justified

/-- What a consumer is about to read was written by the producer that had the id. -/
theorem readAsWritten (inOrder : LapInOrder pool journal)
    (unread : (pool.consumers c).readId < (pool.consumers c).readableId) :
    ReadAsWritten journal (.read c (pool.consumers c).readId
      (pool.queue.read (pool.consumers c).readId)) := by
  have stored := (inOrder.ledger.readable_id unread).1
  rw [inOrder.accepted] at stored
  -- What is stored under a readable id was accepted, and its writer had the id.
  obtain ⟨⟨p, write⟩, noted, same⟩ := List.mem_map.mp stored
  dsimp only at same
  subst same
  obtain ⟨-, segment, given, has⟩ := inOrder.written p _ (mem_writesOf.mpr noted)
  exact ⟨p, segment, mem_grantsOf.mp given, has, noted⟩

/-- If one consumer takes everything, it reads of each producer the latest segment taken. -/
theorem latest (inOrder : LapInOrder pool journal) (single : ∀ take ∈ takes journal, take.1 = c)
    {segment other : Segment}
    (unread : (pool.consumers c).readId < (pool.consumers c).readableId)
    (taken : segment ∈ pool.taken) (ends : segment.second = (pool.consumers c).readableId)
    (given : segment ∈ grantsOf p journal) (takenOther : other ∈ pool.taken)
    (givenOther : other ∈ grantsOf p journal) : other.first ≤ segment.first := by
  have all : takesOf c journal = (takes journal).map Prod.snd := by
    rw [takesOf, ← List.filterMap_eq_map]
    refine List.filterMap_congr fun take noted => ?_
    simp [single take noted]
  -- All takes are those of the one consumer.
  have listed := (inOrder.taken other).mp takenOther
  rw [← all] at listed
  rcases last : (takesOf c journal).getLast? with _ | current
  · rw [List.getLast?_eq_none_iff] at last
    exact absurd (inOrder.granted.waiting c last) (Nat.not_le_of_lt unread)
  · -- The segment it reads is the last one it has taken.
    obtain ⟨announced, endsToo, -⟩ := inOrder.granted.reading c current last
    have stocked := inOrder.granted.stocked
    have same : current = segment := (stocked.published current announced).eq_of_second
      (stocked.published segment (inOrder.ledger.readOnce.announced segment taken))
      (endsToo.trans ends.symm)
    subst same
    obtain ⟨earlier, split⟩ := List.getLast?_eq_some_iff.mp last
    have ordered := inOrder.takeOrder
    rw [← all, split] at ordered
    rw [split] at listed
    rcases List.mem_append.mp listed with before | now
    · exact Nat.le_of_lt ((List.pairwise_append.mp ordered).2.2 other before current
        List.mem_cons_self p givenOther given)
    · rw [List.mem_singleton.mp now]

/-- A task that was read was in a segment that was taken, and was passed by its reader. -/
theorem passed (inOrder : LapInOrder pool journal) {read : Nat × Nat × T}
    (noted : read ∈ reads journal) (given : other ∈ grantsOf p journal)
    (has : other.Has read.2.1) : other ∈ pool.taken ∧
      ∀ c, (pool.consumers c).readId < (pool.consumers c).readableId →
        (pool.consumers c).readableId = other.second → read.2.1 < (pool.consumers c).readId := by
  have returned : read.2 ∈ pool.returned := by
    rw [inOrder.returned]
    exact List.mem_map_of_mem noted
  obtain ⟨segment, taken, low, high, before⟩ := inOrder.ledger.readOnce.passed _ returned
  -- The id is in one granted segment only.
  obtain ⟨q, givenToo⟩ := inOrder.granted.granted_of_issued
    (inOrder.granted.stocked.published segment (inOrder.ledger.readOnce.announced segment taken))
  have same := inOrder.granted.grant_of_shared (mem_grantsOf.mp given) givenToo has ⟨low, high⟩
  obtain rfl : other = segment := congrArg Prod.snd same
  exact ⟨taken, before⟩

/-- A consumer that takes everything reads the tasks of each producer in order. -/
theorem readInOrder (inOrder : LapInOrder pool journal) {obj : T}
    (unread : (pool.consumers c).readId < (pool.consumers c).readableId) :
    ReadInOrder journal (.read c (pool.consumers c).readId obj) := by
  intro d single p segment given has other givenOther earlier noted hasEarlier
  -- The reader has taken something, so it is the one consumer.
  obtain ⟨own, member⟩ := List.exists_mem_of_ne_nil _ fun none_ =>
    Nat.not_le_of_lt unread (inOrder.granted.waiting c none_)
  obtain rfl : c = d := single _ (mem_takesOf.mp member)
  obtain ⟨takenOther, before⟩ := inOrder.passed noted givenOther hasEarlier
  obtain ⟨current, taken, ends, starts⟩ := inOrder.ledger.readOnce.holding c unread
  -- The segment of the id is the one that the consumer is reading.
  obtain ⟨q, givenToo⟩ := inOrder.granted.granted_of_issued
    (inOrder.granted.stocked.published current (inOrder.ledger.readOnce.announced current taken))
  have same := inOrder.granted.grant_of_shared (mem_grantsOf.mp given) givenToo has
    ⟨starts, ends ▸ unread⟩
  obtain rfl : segment = current := congrArg Prod.snd same
  -- An id of an earlier segment is smaller, and within a segment the reader goes upwards.
  rcases Nat.lt_or_eq_of_le (inOrder.latest single unread taken ends given takenOther givenOther)
    with earlierSegment | together
  · have apart := inOrder.granted.second_le_first (mem_grantsOf.mp givenOther)
      (mem_grantsOf.mp given) earlierSegment
    exact hasEarlier.2.trans_le (apart.trans has.1)
  · have one := inOrder.granted.grant_of_first (mem_grantsOf.mp givenOther)
      (mem_grantsOf.mp given) together
    obtain rfl : other = segment := congrArg Prod.snd one
    exact before c unread ends.symm

/-- A consumer reads the task of its id. -/
theorem read (inOrder : LapInOrder pool journal) {obj : T}
    (unread : (pool.consumers c).readId < (pool.consumers c).readableId)
    (stored : pool.queue.read (pool.consumers c).readId = obj)
    (granted : GrantedInOrder { pool with
        consumers := Function.update pool.consumers c
          { pool.consumers c with readId := (pool.consumers c).readId + 1, reading := false }
        returned := pool.returned ++ [((pool.consumers c).readId, obj)] }
      (journal ++ [.read c (pool.consumers c).readId obj]))
    (ledger : Ledger { pool with
        consumers := Function.update pool.consumers c
          { pool.consumers c with readId := (pool.consumers c).readId + 1, reading := false }
        returned := pool.returned ++ [((pool.consumers c).readId, obj)] })
    (shelved : Shelved { pool with
        consumers := Function.update pool.consumers c
          { pool.consumers c with readId := (pool.consumers c).readId + 1, reading := false }
        returned := pool.returned ++ [((pool.consumers c).readId, obj)] }) :
    LapInOrder { pool with
        consumers := Function.update pool.consumers c
          { pool.consumers c with readId := (pool.consumers c).readId + 1, reading := false }
        returned := pool.returned ++ [((pool.consumers c).readId, obj)] }
      (journal ++ [.read c (pool.consumers c).readId obj]) where
  granted := granted
  ledger := ledger
  shelved := shelved
  accepted := by
    rw [writes_quiet rfl]
    exact inOrder.accepted
  returned := by
    simp [inOrder.returned, reads]
  taken segment := by
    rw [takes_quiet rfl]
    exact inOrder.taken segment
  unannounced := inOrder.unannounced
  announced q segment member := by
    rw [grantsOf_quiet rfl] at member
    exact inOrder.announced q segment member
  written q write member := by
    rw [writesOf_quiet rfl] at member
    rw [grantsOf_quiet rfl]
    exact inOrder.written q write member
  writeOrder q := by
    rw [writesOf_quiet rfl]
    exact inOrder.writeOrder q
  takeOrder := by
    rw [takes_quiet rfl]
    refine inOrder.takeOrder.imp fun {a b} before q => ?_
    rw [grantsOf_quiet rfl]
    exact before q
  takeClosed q := by
    rw [grantsOf_quiet rfl]
    exact inOrder.takeClosed q
  progress d segment member id has := by
    rw [takes_quiet rfl] at member
    rcases inOrder.progress d segment member id has with ⟨other, returned⟩ | ⟨low, high⟩
    · exact .inl ⟨other, List.mem_append_left _ returned⟩
    · by_cases caller : d = c
      · subst caller
        simp only [Function.update_self]
        -- The id that was read is returned, and the later ones are still to come.
        rcases Nat.eq_or_lt_of_le low with rfl | later
        · exact .inl ⟨obj, List.mem_append_right _ List.mem_cons_self⟩
        · exact .inr ⟨later, high⟩
      · simp only [Function.update_of_ne caller]
        exact .inr ⟨low, high⟩
  justified := by
    subst stored
    exact inOrder.justified.snoc ⟨inOrder.readAsWritten unread, inOrder.readInOrder unread⟩

/-- In the first lap, every step keeps the order. -/
theorem step (inOrder : LapInOrder pool journal) (lap : FirstLap next after)
    (stepped : (journaledPool T).step (pool, journal) label = some (next, after)) :
    LapInOrder next after := by
  have granted := inOrder.granted.step stepped
  obtain ⟨moved, entry, does, rfl⟩ := journaledPool_cases stepped
  -- The other invariants need what a first lap grants: no block in use, no second announcement.
  have careful := inOrder.careful lap moved
  have ledger := inOrder.ledger.step careful moved
  have shelved := inOrder.shelved.step careful.2 moved
  cases does with
  | fills p obj goesOn =>
    rw [Option.toList_none, List.append_nil] at granted ⊢
    exact inOrder.fills granted ledger shelved
  | grants p obj asks room => exact inOrder.grant granted ledger shelved
  | refuses p asks full => exact absurd (List.mem_append_right _ List.mem_cons_self) (lap.1 p)
  | writes p obj writing => exact inOrder.write writing _ granted ledger shelved
  | takes c segment usedUp first => exact inOrder.take usedUp first granted ledger shelved
  | empties c unread =>
    rw [Option.toList_none, List.append_nil] at granted ⊢
    exact inOrder.empties rfl granted ledger shelved
  | reads c called =>
    exact inOrder.read (inOrder.ledger.custody.reading c called) rfl granted ledger shelved

/-- Every run in its first lap ends in order. -/
theorem run [Inhabited T] {labels : List (PoolStep T)}
    (ran : (journaledPool T).run (Pool.new, []) labels = some (pool, journal))
    (lap : FirstLap pool journal) : LapInOrder pool journal := by
  -- The invariant speaks of first laps only, and a later state of one has earlier ones before it.
  have kept : ∀ (state : Pool T × List (PoolEntry T)) label later,
      (FirstLap state.1 state.2 → LapInOrder state.1 state.2) →
        (journaledPool T).step state label = some later →
          FirstLap later.1 later.2 → LapInOrder later.1 later.2 :=
    fun _ _ _ held stepped lap => (held (lap.before stepped)).step lap stepped
  exact Machine.run_invariant kept (fun _ => start) ran lap

end LapInOrder

/-- Before the last segment of the lap, a producer that asks is not refused. -/
theorem late_of_refuses {pool next : Pool T} {p : Nat} (aligned : trySize ∣ pool.queue.writeId)
    (does : pool.Does next (some (.refused p))) : size ≤ next.queue.writeId + trySize := by
  cases does with
  | refuses p asks full =>
    -- A refusal means that the guard has found no room before the end of the lap.
    by_contra early
    rw [hasRoom_iff (by rwa [Pool.announce_writeId])] at full
    exact full (.inr (Nat.lt_of_not_le early))

/-- As long as the last segment of the lap is still to come, no write has been refused. -/
theorem not_refused_of_short [Inhabited T] {labels : List (PoolStep T)} {pool : Pool T}
    {journal : List (PoolEntry T)}
    (ran : (journaledPool T).run (Pool.new, []) labels = some (pool, journal))
    (short : pool.queue.writeId + trySize < size) (p : Nat) : .refused p ∉ journal := by
  -- A refusal shows that the last segment was to come, and no step takes ids back.
  have kept : ∀ (state : Pool T × List (PoolEntry T)) label next,
      (Stocked state.1 ∧ (.refused p ∈ state.2 → size ≤ state.1.queue.writeId + trySize)) →
        (journaledPool T).step state label = some next →
          Stocked next.1 ∧ (.refused p ∈ next.2 → size ≤ next.1.queue.writeId + trySize) := by
    intro ⟨before, entries⟩ label ⟨next, after⟩ ⟨stocked, late⟩ stepped
    obtain ⟨moved, entry, does, rfl⟩ := journaledPool_cases stepped
    refine ⟨stocked.step moved, fun noted => ?_⟩
    rcases List.mem_append.mp noted with earlier | now
    · -- The end of the lap does not move away.
      exact (late earlier).trans (Nat.add_le_add_right (Pool.writeId_le_of_step moved) _)
    · obtain rfl : entry = some (.refused p) := Option.mem_toList.mp now
      exact late_of_refuses stocked.aligned does
  intro noted
  have late := Machine.run_invariant kept
    ⟨Stocked.start, fun noted => absurd noted List.not_mem_nil⟩ ran
  exact absurd (late.2 noted) (Nat.not_le_of_lt short)

end EnhancedProxy
