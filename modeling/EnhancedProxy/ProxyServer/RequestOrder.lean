import EnhancedProxy.ProxyServer.StreamEvents

/-! When every request of a client is handled exactly once and in order. -/

namespace EnhancedProxy

/-- A task is at work on a request: it is in the loop, and its copy starts with a request. -/
def Task.Active (task : Task) : Prop :=
  task.pc.inLoop ∧ requestFraming.next task.buff ≠ none

/-- Every request in a buffer is shorter than 2^31 bytes. -/
def ShortRequests (buf : Bytes) : Prop :=
  ∀ request ∈ (requestFraming.split buf).1, request.2.length < 2 ^ 31

/-- A task that starts has no complete request in its copy, or its copy is still the first part of
the live buffer and no other task is at work on a request. -/
def Connection.StartsClean (conn : Connection) : ConnectionStep → Prop
  | .work i _ =>
    (conn.tasks i).pc = .queued →
      requestFraming.next (conn.tasks i).buff = none ∨
        ((conn.tasks i).buff <+: conn.buf ∧ ShortRequests (conn.tasks i).buff ∧
          ∀ j, j ≠ i → ¬ (conn.tasks j).Active)
  | _ => True

/-- What was sent to web servers or answered from the cache is the client's stream cut at request
boundaries, up to some request, and no `retrieve` has asked for more than there was. -/
def Connection.RequestsInOrder (conn : Connection) : Prop :=
  conn.handled.map Handled.bytes <+: (requestFraming.split conn.delivered).1.map Prod.snd ∧
    ∀ retrieve ∈ conn.retrieved, retrieve.1 ≤ retrieve.2

/-- What a task relies on about its own copy and the live buffer. -/
structure Task.Sound (task : Task) (buf : Bytes) : Prop where
  current : task.Active → task.buff <+: buf ∧ ShortRequests task.buff
  parsed : task.pc.parsed ∨ task.pc.owing ∨ (task.pc = .loopHead ∧ task.isCheck) →
    ∃ m n, requestFraming.next task.buff = some (m, n) ∧ task.info = (true, (n : Int))
  unchecked : task.pc = .queued → task.isCheck = false

/-- One task is at work, and the stream is cut where the live buffer starts. -/
structure InOrder (conn : Connection) : Prop where
  one : ∀ i j, (conn.tasks i).Active → (conn.tasks j).Active → i = j
  sound : ∀ i, (conn.tasks i).Sound conn.buf
  fresh : ∀ i, conn.taskCount ≤ i → (conn.tasks i).pc = .absent
  stream : ∃ requests rest, requestFraming.Peels conn.delivered requests rest ∧
    conn.handled.map Handled.bytes = requests.map Prod.snd ∧
    ((∃ i, (conn.tasks i).pc.owing ∧ conn.buf = (conn.tasks i).request ++ rest) ∨
      ((∀ i, (conn.tasks i).pc.owing = false) ∧ conn.buf = rest))
  within : ∀ retrieve ∈ conn.retrieved, retrieve.1 ≤ retrieve.2

/-- A request at the front of a buffer of short requests is short. -/
theorem ShortRequests.next {buf : Bytes} (short : ShortRequests buf) {m : Bytes × Bytes} {n : Nat}
    (found : requestFraming.next buf = some (m, n)) : n < 2 ^ 31 := by
  -- The request is the first that splitting finds.
  have first := short (m, buf.take n) (by rw [requestFraming.split_some found]; simp)
  rw [List.length_take, Nat.min_eq_left (requestFraming.within found)] at first
  exact first

/-- Behind a request, the remaining requests are short as well. -/
theorem ShortRequests.drop {buf : Bytes} (short : ShortRequests buf) {m : Bytes × Bytes} {n : Nat}
    (found : requestFraming.next buf = some (m, n)) : ShortRequests (buf.drop n) := by
  -- What splitting finds behind the request, it finds in the whole buffer too.
  intro request member
  apply short
  rw [requestFraming.split_some found]
  exact List.mem_cons_of_mem _ member

/-- A task that has parsed a request is at work on it. -/
theorem Task.Sound.active {task : Task} {buf : Bytes} (sound : task.Sound buf)
    (place : task.pc.parsed ∨ task.pc.owing) : task.Active := by
  have loop : task.pc.inLoop := place.elim TaskPc.inLoop_of_parsed TaskPc.inLoop_of_owing
  -- The request that was parsed is still at the front of the copy.
  obtain ⟨m, n, found, -⟩ := sound.parsed (place.imp id .inl)
  exact ⟨loop, by simp [found]⟩

/-- The request a task works on is the first one in the live buffer. -/
theorem Task.Sound.front {task : Task} {buf : Bytes} (sound : task.Sound buf)
    (place : task.pc.parsed ∨ task.pc.owing) :
    ∃ m n, requestFraming.next task.buff = some (m, n) ∧ requestFraming.next buf = some (m, n) ∧
      task.info = (true, (n : Int)) ∧ n < 2 ^ 31 ∧ task.request = buf.take n ∧
      ShortRequests task.buff ∧ task.buff <+: buf := by
  obtain ⟨current, short⟩ := sound.current (sound.active place)
  obtain ⟨m, n, found, info⟩ := sound.parsed (place.imp id .inl)
  -- The copy is the first part of the live buffer, so both start with one request.
  obtain ⟨more, rfl⟩ := id current
  refine ⟨m, n, found, requestFraming.stable more found, info, short.next found, ?_, short, current⟩
  rw [Task.request, info, List.take_append_of_le_length (requestFraming.within found)]
  rfl

/-- More bytes in the live buffer leave a task's view of it intact. -/
theorem Task.Sound.grow {task : Task} {buf : Bytes} (sound : task.Sound buf) (more : Bytes) :
    task.Sound (buf ++ more) where
  -- The copy stays the first part of the live buffer.
  current active := by
    obtain ⟨current, short⟩ := sound.current active
    exact ⟨current.trans (List.prefix_append _ _), short⟩
  parsed := sound.parsed
  unchecked := sound.unchecked

/-- A task outside the loop relies on nothing. -/
theorem Task.sound_outside {task : Task} (outside : task.pc.inLoop = false)
    (started : task.pc ≠ .queued) (buf : Bytes) : task.Sound buf where
  -- Nothing parsed, nothing owed, and nothing to start.
  current active := by
    rw [Task.Active, outside] at active
    exact Bool.noConfusion active.1
  parsed place := by
    cases here : task.pc <;>
      simp_all [TaskPc.inLoop, TaskPc.parsed, TaskPc.owing]
  unchecked queued := absurd queued started

namespace InOrder

variable {conn next : Connection} {i : Nat} {task : Task}

/-- A connection before its first byte. -/
theorem start : InOrder {} where
  -- No task was enqueued, and the stream is empty.
  one _ _ active := Bool.noConfusion active.1
  sound _ := Task.sound_outside rfl (by simp) _
  fresh _ _ := rfl
  stream := ⟨[], [], .refl _, rfl, .inr ⟨fun _ => rfl, rfl⟩⟩
  within _ member := absurd member List.not_mem_nil

/-- The tunnels and the two connections' states have no part in the order. -/
theorem elsewhere (order : InOrder conn) (same : conn.SameStream next) : InOrder next := by
  -- Each part is about the tasks, the buffer and the journals, none of which has changed.
  obtain ⟨tasks, taskCount, buf, delivered, handled, retrieved⟩ := same
  refine ⟨?_, ?_, ?_, ?_, ?_⟩
  · rw [tasks]
    exact order.one
  · rw [tasks, buf]
    exact order.sound
  · rw [tasks, taskCount]
    exact order.fresh
  · rw [tasks, buf, delivered, handled]
    exact order.stream
  · rw [retrieved]
    exact order.within

/-- The bytes that arrive extend the stream and the live buffer alike. -/
theorem deliver (order : InOrder conn) (chunk : Bytes) : InOrder (conn.onServerMessage chunk) := by
  have absent := order.fresh conn.taskCount (Nat.le_refl _)
  -- The new task is not in the loop yet.
  have old {j : Nat} (active : ((conn.onServerMessage chunk).tasks j).Active) :
      (conn.tasks j).Active := by
    by_cases new : j = conn.taskCount
    · rw [new, Connection.onServerMessage_new] at active
      exact Bool.noConfusion active.1
    · rwa [Connection.onServerMessage_other chunk new] at active
  refine ⟨fun j k active activeOther => order.one j k (old active) (old activeOther), fun j => ?_,
    fun j late => Connection.fresh_onServerMessage order.fresh chunk late, ?_, order.within⟩
  · -- A new task relies on nothing until it starts.
    by_cases new : j = conn.taskCount
    · rw [new, Connection.onServerMessage_new]
      exact ⟨fun active => Bool.noConfusion active.1, fun place => by
        simp [TaskPc.parsed, TaskPc.owing] at place, fun _ => rfl⟩
    · rw [Connection.onServerMessage_other chunk new]
      exact (order.sound j).grow chunk
  · -- The chunk goes to the end of the stream, and to the end of what is uncut.
    obtain ⟨requests, rest, peels, handled, owed⟩ := order.stream
    refine ⟨requests, rest ++ chunk, peels.append chunk, handled, ?_⟩
    rcases owed with ⟨j, owing, cut⟩ | ⟨none_, cut⟩
    · -- The task that owes a request is an older one.
      have other : j ≠ conn.taskCount := by
        rintro rfl
        rw [absent] at owing
        cases owing
      refine .inl ⟨j, by rwa [Connection.onServerMessage_other chunk other], ?_⟩
      rw [Connection.onServerMessage_other chunk other]
      show conn.buf ++ chunk = _
      rw [cut, List.append_assoc]
    · refine .inr ⟨fun j => ?_, congrArg (· ++ chunk) cut⟩
      by_cases new : j = conn.taskCount
      · rw [new, Connection.onServerMessage_new]
        rfl
      · rw [Connection.onServerMessage_other chunk new]
        exact none_ j

/-- A step that concerns only the task's own variables. -/
theorem move (order : InOrder conn) (present : (conn.tasks i).pc ≠ .absent)
    (active : task.Active → (conn.tasks i).Active ∨ ∀ j, j ≠ i → ¬ (conn.tasks j).Active)
    (sound : task.Sound conn.buf) (owing : task.pc.owing = (conn.tasks i).pc.owing)
    (request : task.pc.owing → task.request = (conn.tasks i).request) :
    InOrder (conn.set i task) := by
  -- A task that starts to work does so while nobody else is at work.
  have alone {j : Nat} (other : j ≠ i) (here : task.Active) (there : (conn.tasks j).Active) :
      False := by
    rcases active here with before | clear
    · exact other (order.one j i there before)
    · exact clear j other there
  refine ⟨fun j k activeJ activeK => ?_, fun j => ?_,
    fun j late => Connection.fresh_set order.fresh present late, ?_, order.within⟩
  · -- At most one of the two tasks at work is the one that moves.
    by_cases first : j = i
    · by_cases second : k = i
      · rw [first, second]
      · rw [first, Connection.set_own] at activeJ
        rw [Connection.set_other second] at activeK
        exact (alone second activeJ activeK).elim
    · rw [Connection.set_other first] at activeJ
      by_cases second : k = i
      · rw [second, Connection.set_own] at activeK
        exact (alone first activeK activeJ).elim
      · rw [Connection.set_other second] at activeK
        exact order.one j k activeJ activeK
  · -- Only the task that moves has to be sound again.
    by_cases same : j = i
    · rw [same, Connection.set_own]
      exact sound
    · rw [Connection.set_other same]
      exact order.sound j
  · -- The stream is cut where it was, and the same request is owed.
    obtain ⟨requests, rest, peels, handled, owed⟩ := order.stream
    refine ⟨requests, rest, peels, handled, ?_⟩
    rcases owed with ⟨j, owingJ, cut⟩ | ⟨none_, cut⟩
    · refine .inl ⟨j, ?_⟩
      by_cases same : j = i
      · subst same
        rw [Connection.set_own, owing, request (owing.trans owingJ)]
        exact ⟨owingJ, cut⟩
      · rw [Connection.set_other same]
        exact ⟨owingJ, cut⟩
    · refine .inr ⟨fun j => ?_, cut⟩
      by_cases same : j = i
      · rw [same, Connection.set_own, owing]
        exact none_ i
      · rw [Connection.set_other same]
        exact none_ j

/-- Nobody else owes a request while one task is at work. -/
theorem others_idle (order : InOrder conn) (active : (conn.tasks i).Active) {j : Nat}
    (other : j ≠ i) : (conn.tasks j).pc.owing = false := by
  -- Whoever owes a request is at work.
  by_contra owing
  rw [Bool.not_eq_false] at owing
  exact other (order.one j i ((order.sound j).active (.inr owing)) active)

/-- A step that keeps a task at work, or ends its work, puts no other task to work. -/
theorem one_set (order : InOrder conn) (active : (conn.tasks i).Active) (j k : Nat)
    (activeJ : ((conn.set i task).tasks j).Active) (activeK : ((conn.set i task).tasks k).Active) :
    j = k := by
  -- Whoever is at work now was at work before.
  have old {l : Nat} (activeL : ((conn.set i task).tasks l).Active) : (conn.tasks l).Active := by
    by_cases same : l = i
    · rwa [same]
    · rwa [Connection.set_other same] at activeL
  exact order.one j k (old activeJ) (old activeK)

/-- A task that is at work was enqueued. -/
theorem present_of_active (active : task.Active) : task.pc ≠ .absent := by
  -- A task never enqueued is not in the loop.
  intro absent
  rw [Task.Active, absent] at active
  exact Bool.noConfusion active.1

/-- A handled request is the next one of the stream. -/
theorem handle (order : InOrder conn) (parsed : (conn.tasks i).pc.parsed) {pc : TaskPc}
    (owing : pc.owing) {entry : Handled} (bytes : entry.bytes = (conn.tasks i).request) :
    InOrder { conn.set i { conn.tasks i with pc := pc } with
      handled := conn.handled ++ [entry] } := by
  have sound := order.sound i
  have active := sound.active (.inl parsed)
  obtain ⟨m, n, found, front, info, -, request, short, current⟩ := sound.front (.inl parsed)
  have started : pc ≠ .queued := by
    rintro rfl
    cases owing
  let task : Task := { conn.tasks i with pc := pc }
  -- The copy and the parsed request are still those of the task.
  have soundNext : task.Sound conn.buf :=
    ⟨fun _ => ⟨current, short⟩, fun _ => ⟨m, n, found, info⟩, fun queued => absurd queued started⟩
  refine ⟨order.one_set active, fun j => ?_,
    fun j late => Connection.fresh_set order.fresh (present_of_active active) late, ?_,
    order.within⟩
  · show ((conn.set i task).tasks j).Sound conn.buf
    by_cases same : j = i
    · rw [same, Connection.set_own]
      exact soundNext
    · rw [Connection.set_other same]
      exact order.sound j
  · -- The handled request is cut off the stream, and owed by this task.
    obtain ⟨requests, rest, peels, handled, owed⟩ := order.stream
    -- Nothing is owed, so the live buffer starts where the stream was cut.
    have cut : conn.buf = rest := by
      rcases owed with ⟨j, owingJ, -⟩ | ⟨-, cut⟩
      · by_cases same : j = i
        · rw [same, TaskPc.not_owing_of_parsed parsed] at owingJ
          cases owingJ
        · rw [order.others_idle active same] at owingJ
          cases owingJ
      · exact cut
    subst cut
    refine ⟨requests ++ [(m, conn.buf.take n)], conn.buf.drop n, peels.snoc front, ?_,
      .inl ⟨i, ?_⟩⟩
    · rw [List.map_append, List.map_append, handled]
      simp [bytes, request]
    · -- The task now owes the request that the live buffer starts with.
      show ((conn.set i task).tasks i).pc.owing ∧
        conn.buf = ((conn.set i task).tasks i).request ++ _
      rw [Connection.set_own]
      refine ⟨owing, ?_⟩
      show conn.buf = (conn.tasks i).request ++ _
      rw [request, List.take_append_drop]

/-- Retrieving a handled request takes exactly its bytes off the live buffer. -/
theorem retrieve (order : InOrder conn) (owing : (conn.tasks i).pc.owing) :
    InOrder ((conn.retrieve (toUnsigned64 (conn.tasks i).info.2)).set i (conn.tasks i).drop) := by
  have sound := order.sound i
  have active := sound.active (.inr owing)
  obtain ⟨m, n, found, front, info, small, request, short, current⟩ := sound.front (.inr owing)
  -- The length is neither negative nor beyond 2^31, so no conversion changes it.
  have len : toUnsigned64 (conn.tasks i).info.2 = n := by
    rw [info]
    apply toUnsigned64_of_lt
    omega
  rw [len]
  -- The same bytes are erased from the task's own copy.
  have buff : (conn.tasks i).drop.buff = (conn.tasks i).buff.drop n := by
    rw [Task.drop, info]
    rfl
  refine ⟨order.one_set active, fun j => ?_,
    fun j late => Connection.fresh_set order.fresh (present_of_active active) late, ?_, ?_⟩
  · show ((conn.set i (conn.tasks i).drop).tasks j).Sound (conn.buf.drop n)
    by_cases same : j = i
    · rw [same, Connection.set_own]
      refine ⟨fun _ => ?_, fun place => ?_, fun queued => TaskPc.noConfusion queued⟩
      · obtain ⟨more, grown⟩ := current
        rw [buff, ← grown, List.drop_append_of_le_length (requestFraming.within found)]
        exact ⟨List.prefix_append _ _, short.drop found⟩
      · simp [Task.drop, TaskPc.parsed, TaskPc.owing] at place
    · -- The other tasks are not at work, so they do not rely on the live buffer.
      rw [Connection.set_other same]
      have soundJ := order.sound j
      exact ⟨fun activeJ => absurd (order.one j i activeJ active) same, soundJ.parsed,
        soundJ.unchecked⟩
  · -- Nobody owes a request any more.
    obtain ⟨requests, rest, peels, handled, owed⟩ := order.stream
    refine ⟨requests, rest, peels, handled, .inr ⟨fun j => ?_, ?_⟩⟩
    · show ((conn.set i (conn.tasks i).drop).tasks j).pc.owing = false
      by_cases same : j = i
      · rw [same, Connection.set_own]
        rfl
      · rw [Connection.set_other same]
        exact order.others_idle active same
    · show conn.buf.drop n = rest
      rcases owed with ⟨j, owingJ, cut⟩ | ⟨none_, -⟩
      · -- The request owed is this task's, and it is cut off the front.
        have same : j = i := order.one j i ((order.sound j).active (.inr owingJ)) active
        rw [same, request] at cut
        have length : (conn.buf.take n).length = n :=
          List.length_take_of_le (requestFraming.within front)
        calc conn.buf.drop n = (conn.buf.take n ++ rest).drop n := congrArg (List.drop n) cut
          _ = rest := List.drop_left' length
      · rw [none_ i] at owing
        cases owing
  · -- The request is inside the live buffer, and so is its length.
    intro retrieve member
    rcases List.mem_append.mp member with before | now
    · exact order.within retrieve before
    · rw [List.mem_singleton] at now
      subst now
      exact requestFraming.within front

/-- A task that has parsed a request goes on with it, or returns to the loop's condition. -/
theorem goOn (order : InOrder conn)
    (parsed : (conn.tasks i).pc.parsed ∨ ((conn.tasks i).pc = .loopHead ∧ (conn.tasks i).isCheck))
    (buff : task.buff = (conn.tasks i).buff) (info : task.info = (conn.tasks i).info)
    (place : task.pc.parsed ∨ task.pc = .loopHead) : InOrder (conn.set i task) := by
  have sound := order.sound i
  obtain ⟨m, n, found, parsedInfo⟩ := sound.parsed (parsed.imp id .inr)
  -- The task has a request at the front of its copy, and is in the loop.
  have loop : (conn.tasks i).pc.inLoop := by
    rcases parsed with parsed | ⟨here, -⟩
    · exact TaskPc.inLoop_of_parsed parsed
    · rw [here]
      rfl
  have active : (conn.tasks i).Active := ⟨loop, by simp [found]⟩
  -- Neither before nor after the step is the request handled.
  have owes : task.pc.owing = false := by
    rcases place with place | place
    · exact TaskPc.not_owing_of_parsed place
    · rw [place]
      rfl
  have owed : (conn.tasks i).pc.owing = false := by
    rcases parsed with parsed | ⟨here, -⟩
    · exact TaskPc.not_owing_of_parsed parsed
    · rw [here]
      rfl
  refine order.move (present_of_active active) (fun _ => .inl active)
    ⟨fun _ => ?_, fun _ => ?_, fun queued => ?_⟩ (owes.trans owed.symm) (fun owing => ?_)
  · rw [buff]
    exact sound.current active
  · rw [buff, info]
    exact ⟨m, n, found, parsedInfo⟩
  · rw [queued] at place
    simp [TaskPc.parsed] at place
  · rw [owes] at owing
    cases owing

/-- A task leaves the loop without owing a request. -/
theorem leave (order : InOrder conn) (present : (conn.tasks i).pc ≠ .absent)
    (owed : (conn.tasks i).pc.owing = false) (outside : task.pc.inLoop = false)
    (started : task.pc ≠ .queued) : InOrder (conn.set i task) := by
  -- Outside the loop, nothing is owed and nothing is relied on.
  have owes := TaskPc.not_owing_of_outside outside
  refine order.move present (fun active => ?_) (Task.sound_outside outside started _)
    (owes.trans owed.symm) (fun owing => ?_)
  · rw [Task.Active, outside] at active
    exact Bool.noConfusion active.1
  · rw [owes] at owing
    cases owing

/-- The loop's condition lets a task in exactly on a complete request of its copy. -/
theorem enterLoop (order : InOrder conn) (here : (conn.tasks i).pc = .loopHead) :
    InOrder (conn.set i ((conn.tasks i).loopHead conn.connected)) := by
  have sound := order.sound i
  have present : (conn.tasks i).pc ≠ .absent := by simp [here]
  have owed : (conn.tasks i).pc.owing = false := by rw [here]; rfl
  unfold Task.loopHead
  split
  · -- The request of the last pass is taken up again.
    rename_i isCheck
    exact order.goOn (.inr ⟨here, isCheck⟩) rfl rfl (.inl rfl)
  · split
    · cases found : requestFraming.next (conn.tasks i).buff with
      | none =>
        -- The copy holds no complete request, and the loop ends.
        have refused := parseRequest_of_none found (conn.tasks i).context
        refine order.leave present owed ?_ ?_ <;> simp [refused, TaskPc.inLoop]
      | some request =>
        obtain ⟨m, n⟩ := request
        have active : (conn.tasks i).Active := ⟨by rw [here]; rfl, by simp [found]⟩
        -- The copy starts with a request, so the task was at work before.
        obtain ⟨current, short⟩ := sound.current active
        have accepted := parseRequest_of_some found (short.next found) (conn.tasks i).context
        refine order.move present (fun _ => .inl active) ⟨fun _ => ⟨current, short⟩, fun _ => ?_,
          fun queued => ?_⟩ ?_ (fun owing => ?_)
        · exact ⟨m, n, found, accepted⟩
        · simp [accepted] at queued
        · simp [accepted, here, TaskPc.owing]
        · simp [accepted, TaskPc.owing] at owing
    · exact order.leave present owed rfl (by simp)

/-- A task starts on a copy that is clean, or on one that holds no request. -/
theorem begin_ (order : InOrder conn) (here : (conn.tasks i).pc = .queued)
    (clean : requestFraming.next (conn.tasks i).buff = none ∨
      ((conn.tasks i).buff <+: conn.buf ∧ ShortRequests (conn.tasks i).buff ∧
        ∀ j, j ≠ i → ¬ (conn.tasks j).Active)) :
    InOrder (conn.set i { conn.tasks i with pc := .loopHead }) := by
  have unchecked := (order.sound i).unchecked here
  have owed : (conn.tasks i).pc.owing = false := by rw [here]; rfl
  refine order.move (by simp [here]) (fun active => ?_) ⟨fun active => ?_, fun place => ?_,
    fun queued => TaskPc.noConfusion queued⟩ owed.symm (fun owing => Bool.noConfusion owing)
  · -- A copy that holds a request starts while nobody else has one.
    rcases clean with none_ | ⟨-, -, alone⟩
    · exact absurd none_ active.2
    · exact .inr alone
  · -- A copy that holds a request is still the first part of the live buffer.
    rcases clean with none_ | ⟨current, short, -⟩
    · exact absurd none_ active.2
    · exact ⟨current, short⟩
  · simp [TaskPc.parsed, TaskPc.owing, unchecked] at place

/-- The copy of the live buffer is used by the assertion alone. -/
theorem copyBuffer (order : InOrder conn) (here : (conn.tasks i).pc = .copyBuffer) :
    InOrder (conn.set i { conn.tasks i with http := conn.buf, pc := .dropForwarded }) := by
  -- The copy is only compared with, so the request and the buffer are as they were.
  have sound := order.sound i
  have owing : (conn.tasks i).pc.owing := by rw [here]; rfl
  have active := sound.active (.inr owing)
  exact order.move (by simp [here]) (fun _ => .inl active)
    ⟨fun _ => sound.current active, fun _ => sound.parsed (.inr (.inl owing)),
      fun queued => TaskPc.noConfusion queued⟩ owing.symm (fun _ => rfl)

/-- The length of a request that is owed is not negative. -/
theorem not_negative (order : InOrder conn) (owing : (conn.tasks i).pc.owing) :
    ¬ (conn.tasks i).info.2 < 0 := by
  -- The length is that of the framed request, a natural number.
  obtain ⟨m, n, -, -, info, -⟩ := (order.sound i).front (.inr owing)
  rw [info]
  exact Int.not_lt.mpr (Int.natCast_nonneg n)

/-- Every event keeps the order, if its task starts on a clean copy. -/
theorem event {label : ConnectionStep} (order : InOrder conn) (clean : conn.StartsClean label)
    (event : conn.StreamEvent label next) : InOrder next := by
  -- One lemma for each thing that can happen to a stream.
  cases event with
  | elsewhere => exact order
  | deliver chunk => exact order.deliver chunk
  | begin_ i content here => exact order.begin_ here (clean here)
  | enterLoop i content here => exact order.enterLoop here
  | goOn i content task parsed buff info place => exact order.goOn (.inl parsed) buff info place
  | handle i content pc entry parsed owing bytes => exact order.handle parsed owing bytes
  | copyBuffer i content here => exact order.copyBuffer here
  | retrieve i content owing => exact order.retrieve owing
  | overrun i content here negative =>
    exact absurd negative (order.not_negative (by rw [here]; rfl))
  | leave i content here => exact order.leave (by simp [here]) (by rw [here]; rfl) rfl (by simp)

/-- Every step of the connection keeps the order, if its tasks start on clean copies. -/
theorem step (order : InOrder conn) {memory : RelayMemory} {assertions : Bool}
    {label : ConnectionStep} (clean : conn.StartsClean label)
    (stepped : (connectionMachine memory assertions).step conn label = some next) :
    InOrder next := by
  -- A step is one event of the stream, beside what the stream does not see.
  obtain ⟨moved, event, same⟩ := Connection.streamEvent_of_step stepped
  exact (order.event clean event).elsewhere same

/-- Requests that were cut off at the front of the stream are its first requests. -/
theorem requestsInOrder (order : InOrder conn) : conn.RequestsInOrder := by
  -- What was handled was cut off the stream from its start.
  obtain ⟨requests, rest, peels, handled, -⟩ := order.stream
  refine ⟨?_, order.within⟩
  rw [handled]
  exact peels.prefix_split.map Prod.snd

end InOrder

/-- Requests are handled exactly once and in order, in every run in which each task with a request
starts on a copy that is still the front of the live buffer, while no other task has a request. -/
theorem requests_in_order_of_startsClean (memory : RelayMemory) (assertions : Bool)
    (labels : List ConnectionStep)
    (clean : (connectionMachine memory assertions).Meets Connection.StartsClean {} labels) :
    (connectionMachine memory assertions).Always Connection.RequestsInOrder {} labels :=
  -- Clean starts keep the order, and an order kept shows in what is handled.
  Machine.always_of_meets (fun _ _ _ order clean stepped => InOrder.step order clean stepped)
    (fun _ order => order.requestsInOrder) InOrder.start clean

/-- The request `Get a`. -/
def getA : Bytes := ascii ['G', 'e', 't', ' ', 'a', ' ', '\r', '\n', '\r', '\n']

/-- The request `Get b`. -/
def getB : Bytes := ascii ['G', 'e', 't', ' ', 'b', ' ', '\r', '\n', '\r', '\n']

/-- A relay that never reads memory it does not own. -/
def noMemory : RelayMemory := { atBufferObject := fun _ => [], behindVector := [] }

/-- The stream of the two requests is cut between them. -/
theorem split_getA_getB : (requestFraming.split (getA ++ getB)).1.map Prod.snd = [getA, getB] := by
  -- The framing is evaluated request by request.
  have first : requestFraming.next (getA ++ getB) = some ((getMethod, ascii ['a']), 10) := rfl
  have second : requestFraming.next getB = some ((getMethod, ascii ['b']), 10) := rfl
  have last : requestFraming.next [] = none := rfl
  rw [requestFraming.split_some first, show (getA ++ getB).drop 10 = getB from rfl,
    requestFraming.split_some second, show getB.drop 10 = [] from rfl,
    requestFraming.split_none last]
  rfl

/-- A buffer with a single request of ten bytes is short. -/
theorem shortRequests_of_single {buf : Bytes} {m : Bytes × Bytes}
    (first : requestFraming.next buf = some (m, 10)) (whole : buf.drop 10 = []) :
    ShortRequests buf := by
  -- The buffer holds this one request.
  have last : requestFraming.next [] = none := rfl
  intro request member
  rw [requestFraming.split_some first, whole, requestFraming.split_none last,
    List.mem_singleton] at member
  subst member
  exact Nat.lt_of_le_of_lt (List.length_take_le 10 buf) (by decide)

/-- The first of the two requests is short. -/
theorem shortRequests_getA : ShortRequests getA := shortRequests_of_single rfl rfl

/-- So is the second. -/
theorem shortRequests_getB : ShortRequests getB := shortRequests_of_single rfl rfl

/-- A task is only asked for its copy when it starts. -/
theorem startsClean_of_started {memory : RelayMemory} {assertions : Bool} {conn : Connection}
    {i : Nat} {content : Bytes} (started : (conn.tasks i).pc ≠ .queued) (steps : Nat) :
    (connectionMachine memory assertions).Meets Connection.StartsClean conn
      (List.replicate steps (.work i content)) := by
  -- It does not start again with any of its steps.
  induction steps generalizing conn with
  | zero => trivial
  | succ steps ih =>
    refine ⟨fun queued => absurd queued started, fun next stepped => ih ?_⟩
    exact Connection.started_of_work started (Connection.work_of_step stepped)

/-- Two requests that arrive one after the other are answered by a task each. -/
theorem requests_in_order_of_startsClean_answered :
    (connectionMachine noMemory true).Always Connection.RequestsInOrder {}
      (.deliver getA :: (List.replicate 7 (.work 0 getA) ++
        .deliver getB :: List.replicate 7 (.work 1 getB))) := by
  apply requests_in_order_of_startsClean
  refine ⟨trivial, fun conn delivered => ?_⟩
  obtain rfl : _ = conn := Option.some.inj delivered
  -- The second request arrives when the first task has come to its end.
  refine (Machine.meets_append _).mpr ⟨⟨fun _ => ?_, fun conn started => ?_⟩, fun middle ran =>
    ⟨trivial, fun conn delivered => ?_⟩⟩
  · -- No other task was ever enqueued.
    refine .inr ⟨List.prefix_refl _, shortRequests_getA, fun j other active => ?_⟩
    rw [Connection.onServerMessage_other getA other] at active
    exact Bool.noConfusion active.1
  · obtain rfl : _ = conn := Option.some.inj started
    exact startsClean_of_started (by decide) 6
  cases Connection.deliver_of_step delivered
  have done : ((connectionMachine noMemory true).run (({} : Connection).onServerMessage getA)
      (List.replicate 7 (.work 0 getA))).map
        (fun conn => (conn.buf, conn.taskCount, (conn.tasks 0).pc)) = some ([], 1, .finished) := rfl
  rw [ran, Option.map_some, Option.some.injEq, Prod.mk.injEq, Prod.mk.injEq] at done
  obtain ⟨empty, one, finished⟩ := done
  have own : (middle.onServerMessage getB).tasks 1 = { pc := .queued, buff := getB } := by
    rw [← one, Connection.onServerMessage_new, empty]
    rfl
  refine ⟨fun _ => .inr ⟨?_, ?_, fun j other active => ?_⟩, fun conn started => ?_⟩
  · rw [own]
    show getB <+: middle.buf ++ getB
    rw [empty]
    exact List.prefix_refl _
  · rw [own]
    exact shortRequests_getB
  · -- The others are done, or were never enqueued.
    rw [Connection.onServerMessage_other getB (by rwa [one])] at active
    by_cases first : j = 0
    · rw [first] at active
      exact Bool.noConfusion (finished ▸ active.1)
    · rw [Connection.run_work_other first ran, Connection.onServerMessage_other getA first] at active
      exact Bool.noConfusion active.1
  · have begun := Connection.work_of_step started
    simp only [Connection.work, own, Option.some.injEq] at begun
    subst begun
    exact startsClean_of_started (by rw [Connection.set_own]; simp) 6

/-- Two requests arrive before the first task runs, and the second task answers the first again. -/
theorem request_answered_twice :
    ∃ conn,
      (connectionMachine noMemory true).run {}
          ([.deliver getA, .deliver getB] ++ List.replicate 7 (.work 0 getA) ++
            List.replicate 4 (.work 1 getA)) = some conn ∧
      ¬ conn.RequestsInOrder := by
  refine ⟨_, rfl, ?_⟩
  -- The first request stands once in the stream, and twice in what was answered.
  rintro ⟨inOrder, -⟩
  have twice : [getA, getA] <+: (requestFraming.split (getA ++ getB)).1.map Prod.snd := inOrder
  rw [split_getA_getB] at twice
  exact absurd twice (by decide)

end EnhancedProxy
