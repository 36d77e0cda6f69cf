import EnhancedProxy.ThreadPool.PoolJournal

/-! How the granted segments divide the ids, and the slots of the ring. -/

namespace EnhancedProxy

open CircleQueue

/-- An id belongs to a segment. -/
def Segment.Has (segment : Segment) (id : Nat) : Prop := segment.first ≤ id ∧ id < segment.second

instance (segment : Segment) (id : Nat) : Decidable (segment.Has id) :=
  inferInstanceAs (Decidable (_ ∧ _))

namespace CircleQueue

/-- The blocks into which the ids are divided. -/
def block (k : Nat) : Segment := ⟨trySize * k, trySize * k + trySize⟩

/-- The blocks are counted from the start. -/
theorem block_injective : Function.Injective block := by
  -- The first id of a block is its number times the width.
  intro k l same
  have starts := congrArg Segment.first same
  simp only [block, trySize] at starts
  omega

/-- The segment that is handed out next is the next block. -/
theorem nextSegment_eq {T : Type} {queue : CircleQueue T} (aligned : trySize ∣ queue.writeId) :
    queue.nextSegment = block (queue.writeId / trySize) := by
  rw [nextSegment, block, Nat.mul_div_cancel' aligned]

/-- A segment that was handed out is one of the blocks so far. -/
theorem Issued.eq_block {T : Type} {queue : CircleQueue T} {segment : Segment}
    (issued : queue.Issued segment) : ∃ k < queue.writeId / trySize, segment = block k := by
  -- An issued segment starts at a multiple of the width, below the counter.
  obtain ⟨width, ⟨k, starts⟩, past⟩ := issued
  refine ⟨k, ?_, ?_⟩
  · rw [width, starts] at past
    rw [Nat.lt_iff_add_one_le, Nat.le_div_iff_mul_le (by decide)]
    simp only [trySize] at *
    omega
  · cases segment
    simp_all [block]

/-- Blocks that share a slot of the ring start on the same slot. -/
theorem first_mod_eq_of_shared {k l id other : Nat} (has : (block k).Has id)
    (hasOther : (block l).Has other) (same : id % size = other % size) :
    (block k).first % size = (block l).first % size := by
  -- The ring is a multiple of the width, so blocks share all their slots or none.
  simp only [Segment.Has, block, trySize, size] at *
  omega

end CircleQueue

/-- The granted segments are the blocks of the ids up to `writeId`, each with one producer; whoever
has a segment has one of them; and on the ring they are ranges that coincide or share no slot. -/
structure Segmented {T : Type} (pool : Pool T) (journal : List (PoolEntry T)) : Prop where
  aligned : trySize ∣ pool.queue.writeId
  partition : (grants journal).map Prod.snd =
    (List.range (pool.queue.writeId / trySize)).map block
  owner : ∀ id < pool.queue.writeId, ∃! grant, grant ∈ grants journal ∧ grant.2.Has id
  readable : ∀ segment ∈ pool.queue.readableQueue, ∃ p, (p, segment) ∈ grants journal
  filling : ∀ p, (pool.producers p).writableId ≠ 0 →
    (p, (pool.producers p).segment) ∈ grants journal
  taken : ∀ c segment, (takesOf c journal).getLast? = some segment →
    (∃ p, (p, segment) ∈ grants journal) ∧ segment.second = (pool.consumers c).readableId ∧
      segment.first ≤ (pool.consumers c).readId ∧
      (pool.consumers c).readId ≤ (pool.consumers c).readableId
  disjoint : ∀ grant ∈ grants journal, ∀ other ∈ grants journal, grant ≠ other →
    ∀ id, grant.2.Has id → ¬ other.2.Has id
  contiguous : ∀ grant ∈ grants journal, grant.2.first % size + trySize ≤ size ∧
    grant.2.second = grant.2.first + trySize ∧
    ∀ id, grant.2.Has id → id % size = grant.2.first % size + (id - grant.2.first)
  coincide : ∀ grant ∈ grants journal, ∀ other ∈ grants journal, ∀ id idOther,
    grant.2.Has id → other.2.Has idOther → id % size = idOther % size →
      grant.2.first % size = other.2.first % size

/-- The part of it that each step keeps: the blocks have been granted in order, the last one of each
producer is the one it fills, and the last one of each consumer is the one it reads. -/
structure GrantedInOrder {T : Type} (pool : Pool T) (journal : List (PoolEntry T)) : Prop where
  stocked : Stocked pool
  blocks : (grants journal).map Prod.snd =
    (List.range (pool.queue.writeId / trySize)).map block
  filling : ∀ p, (pool.producers p).writableId ≠ 0 →
    (grantsOf p journal).getLast? = some (pool.producers p).segment
  without : ∀ p, (pool.producers p).writableId = 0 → grantsOf p journal = []
  reading : ∀ c segment, (takesOf c journal).getLast? = some segment →
    segment ∈ pool.published ∧ segment.second = (pool.consumers c).readableId ∧
      segment.first ≤ (pool.consumers c).readId ∧
      (pool.consumers c).readId ≤ (pool.consumers c).readableId
  waiting : ∀ c, takesOf c journal = [] →
    (pool.consumers c).readableId ≤ (pool.consumers c).readId

namespace GrantedInOrder

open Pool

variable {T : Type} {pool next : Pool T} {journal : List (PoolEntry T)} {p c : Nat}

/-- A pool in which nothing has happened. -/
theorem start [Inhabited T] : GrantedInOrder (Pool.new : Pool T) [] where
  -- Nothing was granted and nothing taken.
  stocked := Stocked.start
  blocks := by simp [Pool.new, grants]
  filling _ some_ := absurd rfl some_
  without _ _ := rfl
  reading _ _ last := by cases last
  waiting _ _ := Nat.le_refl 0

/-- The segments that were handed out are those granted. -/
theorem granted_of_issued (ordered : GrantedInOrder pool journal) {segment : Segment}
    (issued : pool.queue.Issued segment) : ∃ p, (p, segment) ∈ grants journal := by
  -- The grants are all the blocks below the counter.
  obtain ⟨k, below, rfl⟩ := issued.eq_block
  have listed : block k ∈ (grants journal).map Prod.snd := by
    rw [ordered.blocks]
    exact List.mem_map_of_mem (List.mem_range.mpr below)
  obtain ⟨⟨p, segment⟩, member, rfl⟩ := List.mem_map.mp listed
  exact ⟨p, member⟩

/-- A granted segment is one of the blocks so far. -/
theorem eq_block (ordered : GrantedInOrder pool journal) {grant : Nat × Segment}
    (member : grant ∈ grants journal) :
    ∃ k < pool.queue.writeId / trySize, grant.2 = block k := by
  -- The granted segments are listed by their numbers.
  have listed := List.mem_map_of_mem (f := Prod.snd) member
  rw [ordered.blocks] at listed
  obtain ⟨k, below, same⟩ := List.mem_map.mp listed
  exact ⟨k, List.mem_range.mp below, same.symm⟩

/-- No block is granted twice. -/
theorem grant_unique (ordered : GrantedInOrder pool journal) {grant other : Nat × Segment}
    (member : grant ∈ grants journal) (memberOther : other ∈ grants journal)
    (same : grant.2 = other.2) : grant = other := by
  -- The blocks are different for different numbers.
  have distinct : ((grants journal).map Prod.snd).Nodup := by
    rw [ordered.blocks]
    exact List.nodup_range.map block_injective
  exact List.inj_on_of_nodup_map distinct member memberOther same

/-- Granted segments with a common id are one grant. -/
theorem grant_of_shared (ordered : GrantedInOrder pool journal) {grant other : Nat × Segment}
    (member : grant ∈ grants journal) (memberOther : other ∈ grants journal) {id : Nat}
    (has : grant.2.Has id) (hasOther : other.2.Has id) : grant = other := by
  -- Two blocks with a common id have the same number.
  apply ordered.grant_unique member memberOther
  obtain ⟨k, -, first⟩ := ordered.eq_block member
  obtain ⟨l, -, second⟩ := ordered.eq_block memberOther
  rw [first, second]
  rw [first] at has
  rw [second] at hasOther
  simp only [Segment.Has, block, trySize] at has hasOther
  have same : k = l := by omega
  rw [same]

/-- A granted segment ends before a later one starts. -/
theorem second_le_first (ordered : GrantedInOrder pool journal) {grant other : Nat × Segment}
    (member : grant ∈ grants journal) (memberOther : other ∈ grants journal)
    (before : grant.2.first < other.2.first) : grant.2.second ≤ other.2.first := by
  -- A block ends where the next one starts.
  obtain ⟨k, -, first⟩ := ordered.eq_block member
  obtain ⟨l, -, second⟩ := ordered.eq_block memberOther
  rw [first, second] at before ⊢
  simp only [block, trySize] at before ⊢
  omega

/-- Granted segments that start together are one grant. -/
theorem grant_of_first (ordered : GrantedInOrder pool journal) {grant other : Nat × Segment}
    (member : grant ∈ grants journal) (memberOther : other ∈ grants journal)
    (together : grant.2.first = other.2.first) : grant = other := by
  -- Two blocks that start together share their first id.
  obtain ⟨k, -, first⟩ := ordered.eq_block member
  obtain ⟨l, -, second⟩ := ordered.eq_block memberOther
  have has : grant.2.Has grant.2.first := by
    rw [first]
    exact ⟨Nat.le_refl _, Nat.lt_add_of_pos_right (by decide)⟩
  have hasOther : other.2.Has grant.2.first := by
    rw [together, second]
    exact ⟨Nat.le_refl _, Nat.lt_add_of_pos_right (by decide)⟩
  exact ordered.grant_of_shared member memberOther has hasOther

/-- The segments of a producer were granted in the order of their ids. -/
theorem grantsOf_ordered (ordered : GrantedInOrder pool journal) (p : Nat) :
    (grantsOf p journal).Pairwise fun a b => a.first < b.first := by
  -- All grants together are in order, so those of one producer are.
  have whole : ((grants journal).map Prod.snd).Pairwise fun a b => a.first < b.first := by
    rw [ordered.blocks, List.pairwise_map]
    refine List.pairwise_lt_range.imp fun {k l} before => ?_
    simp only [block, trySize]
    omega
  rw [List.pairwise_map] at whole
  rw [grantsOf, List.pairwise_filterMap]
  refine whole.imp fun {a b} before first isFirst second isSecond => ?_
  simp only [Option.ite_none_right_eq_some, Option.some.injEq] at isFirst isSecond
  rw [← isFirst.2, ← isSecond.2]
  exact before

/-- The last segment of a producer is the latest. -/
theorem le_last (ordered : GrantedInOrder pool journal) {segment last : Segment}
    (given : segment ∈ grantsOf p journal) (isLast : (grantsOf p journal).getLast? = some last) :
    segment.first ≤ last.first := by
  -- The grants of one producer are in the order of their ids.
  obtain ⟨earlier, split⟩ := List.getLast?_eq_some_iff.mp isLast
  have inOrder := ordered.grantsOf_ordered p
  rw [split] at given inOrder
  rcases List.mem_append.mp given with before | same
  · exact Nat.le_of_lt ((List.pairwise_append.mp inOrder).2.2 segment before last
      List.mem_cons_self)
  · rw [List.mem_singleton.mp same]

/-- A step that grants nothing leaves the blocks and the segments of the producers as they were. -/
theorem of_quiet (ordered : GrantedInOrder pool journal) (stocked : Stocked next)
    {e : PoolEntry T} (quiet : grants [e] = [])
    (writeId : next.queue.writeId = pool.queue.writeId)
    (writableId : ∀ q, (next.producers q).writableId = (pool.producers q).writableId)
    (same : ∀ q, (next.producers q).segment = (pool.producers q).segment)
    (reading : ∀ c segment, (takesOf c (journal ++ [e])).getLast? = some segment →
      segment ∈ next.published ∧ segment.second = (next.consumers c).readableId ∧
        segment.first ≤ (next.consumers c).readId ∧
        (next.consumers c).readId ≤ (next.consumers c).readableId)
    (waiting : ∀ c, takesOf c (journal ++ [e]) = [] →
      (next.consumers c).readableId ≤ (next.consumers c).readId) :
    GrantedInOrder next (journal ++ [e]) where
  -- The step grants nothing, so the lists of grants are as they were.
  stocked := stocked
  blocks := by
    rw [writeId, grants_quiet quiet]
    exact ordered.blocks
  filling q := by
    rw [writableId, same, grantsOf_quiet quiet]
    exact ordered.filling q
  without q := by
    rw [writableId, grantsOf_quiet quiet]
    exact ordered.without q
  reading := reading
  waiting := waiting

/-- Every step grants the next block or none. -/
theorem step {label : PoolStep T} {after : List (PoolEntry T)}
    (ordered : GrantedInOrder pool journal)
    (stepped : (journaledPool T).step (pool, journal) label = some (next, after)) :
    GrantedInOrder next after := by
  obtain ⟨moved, entry, does, rfl⟩ := journaledPool_cases stepped
  have stocked := ordered.stocked.step moved
  cases does with
  | fills p obj goesOn =>
    rw [Option.toList_none, List.append_nil]
    -- The segment of the producer stays the last one it was granted.
    refine ⟨stocked, ordered.blocks, fun q => ?_, fun q => ?_, ordered.reading, ordered.waiting⟩
    · rw [advance_writableId, advance_segment]
      exact ordered.filling q
    · rw [advance_writableId]
      exact ordered.without q
  | grants p obj asks room =>
    refine ⟨stocked, ?_, fun q some_ => ?_, fun q none_ => ?_, fun c segment last => ?_,
      fun c none_ => ?_⟩
    · -- The segment is the next block.
      have next : (pool.queue.writeId + trySize) / trySize = pool.queue.writeId / trySize + 1 :=
        Nat.add_div_right _ (by decide)
      show _ = (List.range (((pool.announce p).queue.writeId + trySize) / trySize)).map block
      rw [announce_writeId, next, List.range_succ, List.map_append, ← ordered.blocks]
      simp [grants, nextSegment_eq ordered.stocked.aligned]
    · -- The caller fills what it was granted now, and every other producer what it had.
      rw [Option.toList_some, grantsOf_granted]
      by_cases caller : q = p
      · subst caller
        rw [grant_own]
        simp [nextSegment, Producer.segment]
      · rw [grant_other caller] at some_ ⊢
        rw [if_neg (Ne.symm caller), List.append_nil]
        exact ordered.filling q some_
    · -- Only who has never been granted anything is without a segment.
      rw [Option.toList_some, grantsOf_granted]
      by_cases caller : q = p
      · subst caller
        rw [grant_own] at none_
        exact absurd none_ (Nat.succ_ne_zero _)
      · rw [grant_other caller] at none_
        rw [if_neg (Ne.symm caller), List.append_nil]
        exact ordered.without q none_
    · rw [Option.toList_some, takesOf_quiet rfl] at last
      obtain ⟨announced, inside⟩ := ordered.reading c segment last
      exact ⟨mem_published_announce.mpr (.inr announced), inside⟩
    · rw [Option.toList_some, takesOf_quiet rfl] at none_
      exact ordered.waiting c none_
  | refuses p asks full =>
    refine ordered.of_quiet stocked rfl announce_writeId (fun _ => rfl) (fun _ => rfl)
      (fun c segment last => ?_) fun c none_ => ?_
    · rw [takesOf_quiet rfl] at last
      obtain ⟨announced, inside⟩ := ordered.reading c segment last
      exact ⟨mem_published_announce.mpr (.inr announced), inside⟩
    · rw [takesOf_quiet rfl] at none_
      exact ordered.waiting c none_
  | writes p obj writing =>
    refine ordered.of_quiet stocked rfl rfl (fun _ => advance_writableId)
      (fun _ => advance_segment) (fun c segment last => ?_) fun c none_ => ?_
    · rw [takesOf_quiet rfl] at last
      exact ordered.reading c segment last
    · rw [takesOf_quiet rfl] at none_
      exact ordered.waiting c none_
  | takes c segment usedUp first =>
    have announced := ordered.stocked.readable segment (firstReadable_mem first)
    have width := (ordered.stocked.published segment announced).width
    refine ordered.of_quiet stocked rfl rfl (fun _ => rfl) (fun _ => rfl)
      (fun d other last => ?_) fun d none_ => ?_
    · rw [takesOf_took] at last
      by_cases caller : d = c
      · -- The caller reads from the start of the segment it has taken last.
        subst caller
        have same : segment = other := by simpa using last
        subst same
        simp only [Pool.take, Function.update_self]
        exact ⟨announced, trivial, Nat.le_refl _, by omega⟩
      · rw [if_neg (Ne.symm caller), List.append_nil] at last
        simp only [Pool.take, Function.update_of_ne caller]
        exact ordered.reading d other last
    · rw [takesOf_took] at none_
      by_cases caller : d = c
      · subst caller
        simp at none_
      · rw [if_neg (Ne.symm caller), List.append_nil] at none_
        simp only [Pool.take, Function.update_of_ne caller]
        exact ordered.waiting d none_
  | empties c unread =>
    rw [Option.toList_none, List.append_nil]
    -- A call that only begins moves no cursor.
    refine ⟨stocked, ordered.blocks, ordered.filling, ordered.without, fun d segment last => ?_,
      fun d none_ => ?_⟩
    · simp only [(calling_ids pool c d).1, (calling_ids pool c d).2]
      exact ordered.reading d segment last
    · simp only [(calling_ids pool c d).1, (calling_ids pool c d).2]
      exact ordered.waiting d none_
  | reads c called =>
    have unread := ordered.stocked.reading c called
    refine ordered.of_quiet stocked rfl rfl (fun _ => rfl) (fun _ => rfl)
      (fun d segment last => ?_) fun d none_ => ?_
    · rw [takesOf_quiet rfl] at last
      by_cases caller : d = c
      · -- The caller goes on to its next id, within the same segment.
        subst caller
        simp only [Function.update_self]
        obtain ⟨announced, ends, starts, -⟩ := ordered.reading d segment last
        exact ⟨announced, ends, Nat.le_succ_of_le starts, unread⟩
      · simpa only [Function.update_of_ne caller] using ordered.reading d segment last
    · rw [takesOf_quiet rfl] at none_
      by_cases caller : d = c
      · subst caller
        exact absurd (ordered.waiting d none_) (Nat.not_le_of_lt unread)
      · simpa only [Function.update_of_ne caller] using ordered.waiting d none_

/-- What has been granted in order divides the ids and the ring. -/
theorem segmented (ordered : GrantedInOrder pool journal) : Segmented pool journal where
  aligned := ordered.stocked.aligned
  partition := ordered.blocks
  owner id below := by
    -- The id is in the block that it falls on, and in no other.
    have fall : id / trySize < pool.queue.writeId / trySize := by
      obtain ⟨k, aligned⟩ := ordered.stocked.aligned
      simp only [trySize] at *
      omega
    have listed : block (id / trySize) ∈ (grants journal).map Prod.snd := by
      rw [ordered.blocks]
      exact List.mem_map_of_mem (List.mem_range.mpr fall)
    obtain ⟨grant, member, same⟩ := List.mem_map.mp listed
    have has : grant.2.Has id := by
      rw [same]
      simp only [Segment.Has, block, trySize]
      omega
    exact ⟨grant, ⟨member, has⟩, fun other owns =>
      ordered.grant_of_shared owns.1 member owns.2 has⟩
  readable segment member :=
    ordered.granted_of_issued (ordered.stocked.published segment
      (ordered.stocked.readable segment member))
  filling p some_ := mem_grantsOf.mp (List.mem_of_getLast? (ordered.filling p some_))
  taken c segment last := by
    obtain ⟨announced, inside⟩ := ordered.reading c segment last
    exact ⟨ordered.granted_of_issued (ordered.stocked.published segment announced), inside⟩
  disjoint grant member other memberOther differs id has hasOther :=
    differs (ordered.grant_of_shared member memberOther has hasOther)
  contiguous grant member := by
    obtain ⟨k, -, same⟩ := ordered.eq_block member
    rw [same]
    refine ⟨?_, rfl, fun id has => ?_⟩
    · simp only [block, trySize, size]
      omega
    · simp only [Segment.Has, block, trySize, size] at *
      omega
  coincide grant member other memberOther id idOther has hasOther same := by
    obtain ⟨k, -, first⟩ := ordered.eq_block member
    obtain ⟨l, -, second⟩ := ordered.eq_block memberOther
    rw [first] at has ⊢
    rw [second] at hasOther ⊢
    exact first_mod_eq_of_shared has hasOther same

end GrantedInOrder

/-- In every state of every run, the granted segments divide the ids up to `writeId` and the slots
of the ring, and everybody's segment is one of them. -/
theorem segmented_always {T : Type} [Inhabited T] (labels : List (PoolStep T)) :
    (journaledPool T).Always (fun state => Segmented state.1 state.2) (Pool.new, []) labels := by
  -- The order of the grants holds in every state, refusals and wrap-around included.
  intro front reached isFront ran
  exact GrantedInOrder.segmented (Machine.run_invariant
    (fun _ _ _ (ordered : GrantedInOrder _ _) stepped => ordered.step stepped)
    GrantedInOrder.start ran)

end EnhancedProxy
