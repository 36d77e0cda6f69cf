import EnhancedProxy.ProxyServer.RequestOrder

/-! No byte of the client is lost or kept twice while its tasks run one after the other. -/

namespace EnhancedProxy

/-- A task that has been enqueued, and has not come to its end. -/
def Task.Unfinished (task : Task) : Prop := task.pc ≠ .absent ∧ task.pc ≠ .finished

/-- A connection of a client that has sent nothing yet, whatever its tunnels are. -/
structure Connection.Fresh (conn : Connection) : Prop where
  buf : conn.buf = []
  delivered : conn.delivered = []
  handled : conn.handled = []
  retrieved : conn.retrieved = []
  tasks : ∀ i, (conn.tasks i).pc = .absent

/-- The client is connected, its tasks run to completion before its next chunk is delivered, and its
stream is shorter than 2^31 bytes. -/
def Connection.InTurn (conn : Connection) : ConnectionStep → Prop
  | .deliver chunk =>
    conn.connected = true ∧ (∀ i, ¬ (conn.tasks i).Unfinished) ∧
      (conn.delivered ++ chunk).length < 2 ^ 31
  | .work _ _ => conn.connected = true
  | _ => True

/-- After each task, the requests handled and the bytes left are the stream, and no request is left.
All along, no `retrieve` and no `erase` asks for more than there is, and the snapshot of a task is
the live buffer at each turn of its loop. -/
structure Connection.Conserved (conn : Connection) : Prop where
  stream : (∀ i, ¬ (conn.tasks i).Unfinished) →
    (conn.handled.map Handled.bytes).flatten ++ conn.buf = conn.delivered ∧
      ∀ context, (parseRequest context conn.buf).2.1 = false
  retrieves : ∀ retrieve ∈ conn.retrieved, retrieve.1 ≤ retrieve.2
  erases : ∀ i, (conn.tasks i).pc.owing →
    0 ≤ (conn.tasks i).info.2 ∧ (conn.tasks i).info.2.toNat ≤ (conn.tasks i).buff.length
  snapshot : ∀ i, (conn.tasks i).pc = .loopHead → (conn.tasks i).buff = conn.buf

/-- The requests of a short stream are short. -/
theorem shortRequests_of_length {buf : Bytes} (short : buf.length < 2 ^ 31) :
    ShortRequests buf := by
  intro request member
  -- Each request is one of the parts that the stream is made of.
  have whole := congrArg List.length (requestFraming.peels_split buf).flatten
  rw [List.length_append] at whole
  have part : request.2.length ≤ ((requestFraming.split buf).1.map Prod.snd).flatten.length :=
    (List.sublist_flatten_of_mem (List.mem_map_of_mem member)).length_le
  omega

/-- At most one task has not come to its end, and its snapshot is the live buffer. -/
structure Settling (conn : Connection) : Prop where
  order : InOrder conn
  short : conn.delivered.length < 2 ^ 31
  one : ∀ i j, (conn.tasks i).Unfinished → (conn.tasks j).Unfinished → i = j
  snapshot : ∀ i, (conn.tasks i).Unfinished → (conn.tasks i).buff = conn.buf
  searched : ∀ i, (conn.tasks i).pc = .tail → requestFraming.next conn.buf = none
  settled : (∀ i, ¬ (conn.tasks i).Unfinished) → requestFraming.next conn.buf = none

namespace Settling

variable {conn next : Connection} {i : Nat}

/-- A connection on which nothing was sent. -/
theorem start (fresh : conn.Fresh) : Settling conn := by
  -- No call is under way and the buffer is empty, so nothing is owed and nothing arrived.
  have idle (i : Nat) : ¬ (conn.tasks i).Unfinished := fun unfinished =>
    unfinished.1 (fresh.tasks i)
  have outside (i : Nat) : (conn.tasks i).pc.inLoop = false := by rw [fresh.tasks i]; rfl
  have nothing : requestFraming.next conn.buf = none := by rw [fresh.buf]; rfl
  refine ⟨⟨fun i _ active => ?_, fun i => ?_, fun i _ => fresh.tasks i, ?_, ?_⟩, ?_,
    fun i _ unfinished => absurd unfinished (idle i),
    fun i unfinished => absurd unfinished (idle i), fun _ _ => nothing, fun _ => nothing⟩
  · rw [Task.Active, outside i] at active
    exact Bool.noConfusion active.1
  · exact Task.sound_outside (outside i) (by simp [fresh.tasks i]) _
  · refine ⟨[], [], ?_, ?_, .inr ⟨fun i => TaskPc.not_owing_of_outside (outside i), fresh.buf⟩⟩
    · rw [fresh.delivered]
      exact .refl _
    · rw [fresh.handled]
      rfl
  · rw [fresh.retrieved]
    exact fun _ member => absurd member List.not_mem_nil
  · rw [fresh.delivered]
    decide

/-- A step that touches neither tasks nor buffers. -/
theorem elsewhere (settling : Settling conn) (same : conn.SameStream next) : Settling next := by
  -- Each part is about the tasks, the buffer or what has been delivered.
  refine ⟨settling.order.elsewhere same, ?_, ?_, ?_, ?_, ?_⟩
  · rw [same.delivered]
    exact settling.short
  · rw [same.tasks]
    exact settling.one
  · rw [same.tasks, same.buf]
    exact settling.snapshot
  · rw [same.tasks, same.buf]
    exact settling.searched
  · rw [same.tasks, same.buf]
    exact settling.settled

/-- A step of the one task that has not come to its end. It leaves the loop when no request is
left. -/
theorem advance (settling : Settling conn) (order : InOrder next) {task : Task}
    (unfinished : (conn.tasks i).Unfinished)
    (tasks : next.tasks = Function.update conn.tasks i task)
    (delivered : next.delivered = conn.delivered) (snapshot : task.buff = next.buf)
    (left : task.pc = .tail ∨ task.pc = .finished → requestFraming.next next.buf = none)
    (enqueued : task.pc ≠ .absent) : Settling next := by
  have own : next.tasks i = task := by rw [tasks, Function.update_self]
  -- The other tasks have come to their ends, or were never enqueued.
  have others {j : Nat} (other : j ≠ i) : ¬ (next.tasks j).Unfinished := by
    rw [tasks, Function.update_of_ne other]
    exact fun busy => other (settling.one j i busy unfinished)
  refine ⟨order, ?_, fun j k busy busyOther => ?_, fun j busy => ?_, fun j here => ?_,
    fun idle => ?_⟩
  · rw [delivered]
    exact settling.short
  · by_cases first : j = i
    · by_cases second : k = i
      · rw [first, second]
      · exact absurd busyOther (others second)
    · exact absurd busy (others first)
  · by_cases same : j = i
    · rw [same, own]
      exact snapshot
    · exact absurd busy (others same)
  · by_cases same : j = i
    · rw [same, own] at here
      exact left (.inl here)
    · refine absurd ⟨?_, ?_⟩ (others same) <;> simp [here]
  · -- No task is left, so this one has come to its end.
    have ended := idle i
    rw [own] at ended
    by_contra more
    exact ended ⟨enqueued, fun finished => more (left (.inr finished))⟩

/-- A task in the loop has not come to its end. -/
theorem unfinished_of_inLoop {task : Task} (inside : task.pc.inLoop) : task.Unfinished := by
  -- The two places outside the call are not in its loop.
  constructor
  · intro absent
    rw [absent] at inside
    cases inside
  · intro finished
    rw [finished] at inside
    cases inside

/-- A task starts on the whole live buffer, and nobody else is at work. -/
theorem startsClean (settling : Settling conn) (i : Nat) (content : Bytes) :
    conn.StartsClean (.work i content) := by
  intro queued
  have unfinished : (conn.tasks i).Unfinished := ⟨by simp [queued], by simp [queued]⟩
  have snapshot := settling.snapshot i unfinished
  refine .inr ⟨snapshot ▸ List.prefix_refl _, ?_, fun j other active => ?_⟩
  · -- Nothing is owed, so the live buffer is the end of a short stream.
    obtain ⟨requests, rest, peels, -, owed⟩ := settling.order.stream
    have whole := congrArg List.length peels.flatten
    have short := settling.short
    rw [List.length_append] at whole
    rw [snapshot]
    apply shortRequests_of_length
    rcases owed with ⟨j, owing, -⟩ | ⟨-, cut⟩
    · have same := settling.one j i (unfinished_of_inLoop (TaskPc.inLoop_of_owing owing)) unfinished
      rw [same, queued] at owing
      cases owing
    · rw [cut]
      omega
  · exact other (settling.one j i (unfinished_of_inLoop active.1) unfinished)

/-- The bytes of a new chunk are in the live buffer and in the snapshot of the new task. -/
theorem deliver (settling : Settling conn) (idle : ∀ i, ¬ (conn.tasks i).Unfinished)
    {chunk : Bytes} (short : (conn.delivered ++ chunk).length < 2 ^ 31) :
    Settling (conn.onServerMessage chunk) := by
  have others {j : Nat} (other : j ≠ conn.taskCount) :
      ¬ ((conn.onServerMessage chunk).tasks j).Unfinished := by
    rw [Connection.onServerMessage_other chunk other]
    exact idle j
  have new := Connection.onServerMessage_new conn chunk
  refine ⟨settling.order.deliver chunk, short, fun j k busy busyOther => ?_, fun j busy => ?_,
    fun j here => ?_, fun none_ => ?_⟩
  · by_cases first : j = conn.taskCount
    · by_cases second : k = conn.taskCount
      · rw [first, second]
      · exact absurd busyOther (others second)
    · exact absurd busy (others first)
  · by_cases same : j = conn.taskCount
    · rw [same, new]
      rfl
    · exact absurd busy (others same)
  · by_cases same : j = conn.taskCount
    · rw [same, new] at here
      cases here
    · refine absurd ⟨?_, ?_⟩ (others same) <;> simp [here]
  · -- The new task is not done yet.
    refine absurd ⟨?_, ?_⟩ (none_ conn.taskCount) <;> simp [new]

/-- A task goes on in the loop, and neither copy changes. -/
theorem goOn (settling : Settling conn) (order : InOrder next) {task : Task}
    (unfinished : (conn.tasks i).Unfinished)
    (tasks : next.tasks = Function.update conn.tasks i task)
    (delivered : next.delivered = conn.delivered) (buf : next.buf = conn.buf)
    (buff : task.buff = (conn.tasks i).buff) (inside : task.pc.inLoop) : Settling next := by
  refine settling.advance order unfinished tasks delivered ?_ (fun left => ?_) ?_
  · rw [buff, buf]
    exact settling.snapshot i unfinished
  · -- The loop is not left.
    rcases left with left | left <;> rw [left] at inside <;> cases inside
  · exact (unfinished_of_inLoop inside).1

/-- A retrieved request is erased from the snapshot as well. -/
theorem retrieve (settling : Settling conn) (order : InOrder next)
    (owing : (conn.tasks i).pc.owing)
    (tasks : next.tasks = Function.update conn.tasks i (conn.tasks i).drop)
    (delivered : next.delivered = conn.delivered)
    (buf : next.buf = conn.buf.drop (toUnsigned64 (conn.tasks i).info.2)) : Settling next := by
  have unfinished := unfinished_of_inLoop (TaskPc.inLoop_of_owing owing)
  obtain ⟨m, n, -, -, info, small, -⟩ := (settling.order.sound i).front (.inr owing)
  -- The length is the same number as an `int` and as a `size_t`.
  have len : toUnsigned64 (conn.tasks i).info.2 = (conn.tasks i).info.2.toNat := by
    rw [info]
    exact toUnsigned64_of_lt (by omega)
  refine settling.advance order unfinished tasks delivered ?_ (fun left => ?_) ?_
  · rw [buf, ← settling.snapshot i unfinished, len]
    rfl
  · simp [Task.drop] at left
  · simp [Task.drop]

/-- The loop is left when the parser finds no request in the snapshot. -/
theorem enterLoop (settling : Settling conn) (connected : conn.connected = true)
    (here : (conn.tasks i).pc = .loopHead)
    (order : InOrder (conn.set i ((conn.tasks i).loopHead conn.connected))) :
    Settling (conn.set i ((conn.tasks i).loopHead conn.connected)) := by
  have unfinished : (conn.tasks i).Unfinished := ⟨by simp [here], by simp [here]⟩
  have snapshot := settling.snapshot i unfinished
  refine settling.advance order unfinished rfl rfl ?_ (fun left => ?_) ?_
  · unfold Task.loopHead
    repeat' split
    all_goals exact snapshot
  · show requestFraming.next conn.buf = none
    rw [← snapshot]
    by_contra found
    obtain ⟨⟨m, n⟩, found⟩ := Option.ne_none_iff_exists'.mp found
    have active : (conn.tasks i).Active := ⟨by rw [here]; rfl, by simp [found]⟩
    have accepted := parseRequest_of_some found
      (((settling.order.sound i).current active).2.next found) (conn.tasks i).context
    -- A request that is found keeps the task in the loop.
    simp only [Task.loopHead, connected, if_true] at left
    split at left <;> simp [accepted] at left
  · rcases (conn.tasks i).loopHead_pc conn.connected with inside | outside
    · simp [inside]
    · simp [outside]

/-- Every event of a connection whose tasks run in turn keeps it settling. -/
theorem event {label : ConnectionStep} (settling : Settling conn) (inTurn : conn.InTurn label)
    (event : conn.StreamEvent label next) : Settling next := by
  have clean : conn.StartsClean label := by
    cases label with
    | work i content => exact settling.startsClean i content
    | _ => trivial
  have order := settling.order.event clean event
  cases event with
  | elsewhere => exact settling
  | deliver chunk => exact settling.deliver inTurn.2.1 inTurn.2.2
  | begin_ i content here =>
    exact settling.goOn order ⟨by simp [here], by simp [here]⟩ rfl rfl rfl rfl rfl
  | enterLoop i content here => exact settling.enterLoop inTurn here order
  | goOn i content task parsed buff info place =>
    have unfinished := unfinished_of_inLoop (TaskPc.inLoop_of_parsed parsed)
    refine settling.goOn order unfinished rfl rfl rfl buff ?_
    rcases place with place | place
    · exact TaskPc.inLoop_of_parsed place
    · rw [place]
      rfl
  | handle i content pc entry parsed owing bytes =>
    have unfinished := unfinished_of_inLoop (TaskPc.inLoop_of_parsed parsed)
    exact settling.goOn order unfinished rfl rfl rfl rfl (TaskPc.inLoop_of_owing owing)
  | copyBuffer i content here =>
    exact settling.goOn order ⟨by simp [here], by simp [here]⟩ rfl rfl rfl rfl rfl
  | retrieve i content owing => exact settling.retrieve order owing rfl rfl rfl
  | overrun i content here negative =>
    exact absurd negative (settling.order.not_negative (by rw [here]; rfl))
  | leave i content here =>
    -- The live buffer held no request when the loop was left.
    have unfinished : (conn.tasks i).Unfinished := ⟨by simp [here], by simp [here]⟩
    exact settling.advance order unfinished rfl rfl (settling.snapshot i unfinished)
      (fun _ => settling.searched i here) (by simp)

/-- Every step of a connection whose tasks run in turn keeps it settling. -/
theorem step (memory : RelayMemory) (assertions : Bool) (conn : Connection)
    (label : ConnectionStep) (next : Connection) (settling : Settling conn)
    (inTurn : conn.InTurn label)
    (stepped : (connectionMachine memory assertions).step conn label = some next) :
    Settling next := by
  -- A step is one event of the stream, beside what the stream does not see.
  obtain ⟨moved, event, same⟩ := Connection.streamEvent_of_step stepped
  exact (settling.event inTurn event).elsewhere same

/-- While the tasks run in turn, the stream is conserved. -/
theorem conserved (settling : Settling conn) : conn.Conserved where
  stream idle := by
    obtain ⟨requests, rest, peels, handled, owed⟩ := settling.order.stream
    -- Nobody owes a request, so the live buffer is the rest of the stream.
    have cut : conn.buf = rest := by
      rcases owed with ⟨j, owing, -⟩ | ⟨-, cut⟩
      · exact absurd (unfinished_of_inLoop (TaskPc.inLoop_of_owing owing)) (idle j)
      · exact cut
    rw [handled, cut]
    refine ⟨peels.flatten, fun context => ?_⟩
    rw [← cut]
    exact parseRequest_of_none (settling.settled idle) context
  retrieves := settling.order.within
  erases i owing := by
    obtain ⟨m, n, found, -, info, -⟩ := (settling.order.sound i).front (.inr owing)
    rw [info]
    exact ⟨Int.natCast_nonneg n, requestFraming.within found⟩
  snapshot i here := settling.snapshot i ⟨by simp [here], by simp [here]⟩

end Settling

/-- The client's stream is conserved in every run in which it stays connected, its tasks run to
completion one after the other, and its stream is short. -/
theorem stream_conserved (memory : RelayMemory) (assertions : Bool) {conn : Connection}
    (fresh : conn.Fresh) {labels : List ConnectionStep}
    (inTurn : (connectionMachine memory assertions).Meets Connection.InTurn conn labels) :
    (connectionMachine memory assertions).Always Connection.Conserved conn labels :=
  -- Calls that take their turns keep the stream settling, and a settling stream is conserved.
  Machine.always_of_meets (Settling.step memory assertions)
    (fun _ settling => settling.conserved) (Settling.start fresh) inTurn

/-- A request arrives in two chunks, and is answered from the cache by the second task. -/
theorem stream_conserved_answered :
    (connectionMachine noMemory true).Always Connection.Conserved { context := some 0 }
      (.deliver (getA.take 5) :: List.replicate 3 (.work 0 []) ++
        .deliver (getA.drop 5) :: List.replicate 7 (.work 1 getA)) := by
  refine stream_conserved noMemory true ⟨rfl, rfl, rfl, rfl, fun _ => rfl⟩ ?_
  refine ⟨⟨rfl, fun i unfinished => unfinished.1 rfl, by decide⟩, fun _ stepped => ?_⟩
  cases stepped
  -- The first task finds no complete request, and ends.
  iterate 3
    refine ⟨rfl, fun _ stepped => ?_⟩
    cases stepped
  refine ⟨⟨rfl, fun i unfinished => ?_, by decide⟩, fun _ stepped => ?_⟩
  · by_cases same : i = 0
    · subst same
      exact unfinished.2 rfl
    · apply unfinished.1
      simp [Connection.tail, Connection.set, Connection.onServerMessage, getA, ascii, same]
  cases stepped
  iterate 7
    refine ⟨rfl, fun _ stepped => ?_⟩
    cases stepped
  trivial

end EnhancedProxy
