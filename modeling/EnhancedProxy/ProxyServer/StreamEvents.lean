import EnhancedProxy.ProxyServer.SolveOnMessage

/-! What a step of a connection can do to its tasks, its live buffer and the stream of requests. -/

namespace EnhancedProxy

/-- The places inside the loop. -/
def TaskPc.inLoop : TaskPc → Bool
  | .absent | .queued | .tail | .finished => false
  | _ => true

/-- The places where a request has been parsed and not yet been handled. -/
def TaskPc.parsed : TaskPc → Bool
  | .readCache | .answer _ | .checkTunnel | .createTunnel | .addTunnel | .checkContext
  | .castContext | .push | .send => true
  | _ => false

/-- The places where a request has been handled and is still in the live buffer. -/
def TaskPc.owing : TaskPc → Bool
  | .dropAnswered | .copyBuffer | .dropForwarded => true
  | _ => false

/-- A task with a parsed request is in the loop. -/
theorem TaskPc.inLoop_of_parsed {pc : TaskPc} (parsed : pc.parsed) : pc.inLoop := by
  cases pc <;> first | rfl | cases parsed

/-- A task that owes a request is in the loop. -/
theorem TaskPc.inLoop_of_owing {pc : TaskPc} (owing : pc.owing) : pc.inLoop := by
  cases pc <;> first | rfl | cases owing

/-- A request is handled before it is owed. -/
theorem TaskPc.not_owing_of_parsed {pc : TaskPc} (parsed : pc.parsed) : pc.owing = false := by
  cases pc <;> first | rfl | cases parsed

/-- Outside the loop, no request is owed. -/
theorem TaskPc.not_owing_of_outside {pc : TaskPc} (outside : pc.inLoop = false) :
    pc.owing = false := by
  cases pc <;> first | rfl | cases outside

namespace Connection

/-- The same tasks, the same live buffer and the same history of the stream. -/
structure SameStream (conn next : Connection) : Prop where
  tasks : next.tasks = conn.tasks
  taskCount : next.taskCount = conn.taskCount
  buf : next.buf = conn.buf
  delivered : next.delivered = conn.delivered
  handled : next.handled = conn.handled
  retrieved : next.retrieved = conn.retrieved

/-- What a step can do to the tasks, the live buffer and the history of the stream. -/
inductive StreamEvent (conn : Connection) : ConnectionStep → Connection → Prop
  -- The step concerns the tunnels and the connections, or ends the process.
  | elsewhere (label : ConnectionStep) : StreamEvent conn label conn
  | deliver (chunk : Bytes) : StreamEvent conn (.deliver chunk) (conn.onServerMessage chunk)
  | begin_ (i : Nat) (content : Bytes) (here : (conn.tasks i).pc = .queued) :
    StreamEvent conn (.work i content) (conn.set i { conn.tasks i with pc := .loopHead })
  | enterLoop (i : Nat) (content : Bytes) (here : (conn.tasks i).pc = .loopHead) :
    StreamEvent conn (.work i content) (conn.set i ((conn.tasks i).loopHead conn.connected))
  -- A task goes on with the request it has parsed, or returns to the loop's condition.
  | goOn (i : Nat) (content : Bytes) (task : Task) (parsed : (conn.tasks i).pc.parsed)
      (buff : task.buff = (conn.tasks i).buff) (info : task.info = (conn.tasks i).info)
      (place : task.pc.parsed ∨ task.pc = .loopHead) :
    StreamEvent conn (.work i content) (conn.set i task)
  -- A request is answered from the cache, or sent to a web server.
  | handle (i : Nat) (content : Bytes) (pc : TaskPc) (entry : Handled)
      (parsed : (conn.tasks i).pc.parsed) (owing : pc.owing)
      (bytes : entry.bytes = (conn.tasks i).request) :
    StreamEvent conn (.work i content)
      { conn.set i { conn.tasks i with pc := pc } with handled := conn.handled ++ [entry] }
  | copyBuffer (i : Nat) (content : Bytes) (here : (conn.tasks i).pc = .copyBuffer) :
    StreamEvent conn (.work i content)
      (conn.set i { conn.tasks i with http := conn.buf, pc := .dropForwarded })
  -- A handled request is retrieved from the live buffer and erased from the copy.
  | retrieve (i : Nat) (content : Bytes) (owing : (conn.tasks i).pc.owing) :
    StreamEvent conn (.work i content)
      ((conn.retrieve (toUnsigned64 (conn.tasks i).info.2)).set i (conn.tasks i).drop)
  -- The length is negative, so that the erase has no range.
  | overrun (i : Nat) (content : Bytes) (here : (conn.tasks i).pc = .dropAnswered)
      (negative : (conn.tasks i).info.2 < 0) :
    StreamEvent conn (.work i content) (conn.retrieve (toUnsigned64 (conn.tasks i).info.2))
  | leave (i : Nat) (content : Bytes) (here : (conn.tasks i).pc = .tail) :
    StreamEvent conn (.work i content) (conn.set i { conn.tasks i with pc := .finished })

variable {conn next : Connection} {i j : Nat} {memory : RelayMemory} {assertions : Bool}
  {content : Bytes}

/-- A step of a task leaves the other tasks as they are. -/
theorem work_other (other : j ≠ i) (worked : conn.work assertions i content = some next) :
    next.tasks j = conn.tasks j := by
  -- Each place replaces the task itself, or ends the process.
  cases here : (conn.tasks i).pc with
  | absent | finished => simp [work, here] at worked
  | queued | loopHead | readCache | answer | checkContext | copyBuffer | createTunnel | addTunnel =>
    simp only [work, here, Option.some.injEq] at worked
    subst worked
    exact set_other other
  | castContext =>
    cases context : conn.context with
    | none =>
      simp only [work, here, context, Option.some.injEq] at worked
      subst worked
      rfl
    | some k =>
      simp only [work, here, context, Option.some.injEq] at worked
      subst worked
      exact set_other other
  | checkTunnel | dropAnswered | dropForwarded | push | send | tail =>
    simp only [work, here, checkTunnel, dropAnswered, dropForwarded, push, send, tail,
      Option.some.injEq] at worked
    subst worked
    repeat' split
    all_goals first
      | rfl
      | exact set_other other

/-- A connection that takes a step has not failed. -/
theorem running_of_step {label : ConnectionStep}
    (stepped : (connectionMachine memory assertions).step conn label = some next) :
    conn.fault = none := by
  -- A connection that has failed takes no step.
  by_contra failed
  simp [connectionMachine, Option.isSome_iff_ne_none.mpr failed] at stepped

/-- The step of a task, on a connection that has not failed. -/
theorem work_of_step
    (stepped : (connectionMachine memory assertions).step conn (.work i content) = some next) :
    conn.work assertions i content = some next := by
  -- The connection has not failed, so the step is the one of the task.
  have running := running_of_step stepped
  simpa [connectionMachine, running] using stepped

/-- A delivery runs the message callback, on a connection that has not failed. -/
theorem deliver_of_step {chunk : Bytes}
    (stepped : (connectionMachine memory assertions).step conn (.deliver chunk) = some next) :
    next = conn.onServerMessage chunk := by
  have running := running_of_step stepped
  simpa [connectionMachine, running] using stepped.symm

/-- A response runs the message callback of its tunnel, on a connection that has not failed. -/
theorem respond_of_step {k : Nat} {chunk : Bytes}
    (stepped : (connectionMachine memory assertions).step conn (.respond k chunk) = some next) :
    next = conn.respond memory k chunk := by
  -- The tunnel exists, as the step is taken.
  have running := running_of_step stepped
  simp only [connectionMachine, running, Option.isSome_none, Bool.false_eq_true, if_false,
    Option.ite_none_right_eq_some, Option.some.injEq] at stepped
  exact stepped.2.symm

/-- The end of the connection runs the connection callback, on a connection that has not failed. -/
theorem clientDown_of_step
    (stepped : (connectionMachine memory assertions).step conn .clientDown = some next) :
    next = conn.onServerConnectionDown := by
  have running := running_of_step stepped
  simpa [connectionMachine, running] using stepped.symm

/-- Nothing has changed. -/
theorem SameStream.refl (conn : Connection) : conn.SameStream conn := ⟨rfl, rfl, rfl, rfl, rfl, rfl⟩

/-- The step of a task is one of the events in its code, apart from what it does to the tunnels. -/
theorem streamEvent_of_work (worked : conn.work assertions i content = some next) :
    ∃ moved, conn.StreamEvent (.work i content) moved ∧ moved.SameStream next := by
  -- One case for each place in the code.
  cases here : (conn.tasks i).pc with
  | absent => simp [work, here] at worked
  | queued =>
    simp only [work, here, Option.some.injEq] at worked
    subst worked
    exact ⟨_, .begin_ i content here, .refl _⟩
  | loopHead =>
    simp only [work, here, Option.some.injEq] at worked
    subst worked
    exact ⟨_, .enterLoop i content here, .refl _⟩
  | readCache =>
    simp only [work, here, Option.some.injEq, Task.readCache] at worked
    subst worked
    refine ⟨_, .goOn i content _ (by rw [here]; rfl) ?_ ?_ ?_, .refl _⟩
    · split <;> rfl
    · split <;> rfl
    · split <;> exact .inl rfl
  | answer response =>
    simp only [work, here, Option.some.injEq] at worked
    subst worked
    exact ⟨_, .handle i content _ _ (by rw [here]; rfl) rfl rfl, .refl _⟩
  | dropAnswered =>
    simp only [work, here, Option.some.injEq, dropAnswered] at worked
    subst worked
    split
    · rename_i negative
      exact ⟨_, .overrun i content here negative, rfl, rfl, rfl, rfl, rfl, rfl⟩
    · exact ⟨_, .retrieve i content (by rw [here]; rfl), .refl _⟩
  | checkTunnel =>
    simp only [work, here, Option.some.injEq, checkTunnel] at worked
    subst worked
    split
    · exact ⟨_, .goOn i content { conn.tasks i with pc := .createTunnel } (by rw [here]; rfl) rfl
        rfl (.inl rfl), .refl _⟩
    · exact ⟨_, .goOn i content { conn.tasks i with pc := .checkContext } (by rw [here]; rfl) rfl
        rfl (.inl rfl), .refl _⟩
  | createTunnel =>
    simp only [work, here, Option.some.injEq, createTunnel] at worked
    subst worked
    let task : Task := { conn.tasks i with tunnel := conn.tunnelCount, pc := .addTunnel }
    exact ⟨_, .goOn i content task (by rw [here]; rfl) rfl rfl (.inl rfl), rfl, rfl, rfl, rfl, rfl,
      rfl⟩
  | addTunnel =>
    simp only [work, here, Option.some.injEq, addTunnel] at worked
    subst worked
    -- The tunnel is new, and the request is still to be handled.
    let task : Task := { conn.tasks i with isCheck := true, pc := .loopHead }
    exact ⟨_, .goOn i content task (by rw [here]; rfl) rfl rfl (.inr rfl), rfl, rfl, rfl, rfl, rfl,
      rfl⟩
  | checkContext =>
    simp only [work, here, Option.some.injEq] at worked
    subst worked
    split
    · exact ⟨_, .goOn i content { conn.tasks i with pc := .loopHead } (by rw [here]; rfl) rfl rfl
        (.inr rfl), .refl _⟩
    · exact ⟨_, .goOn i content { conn.tasks i with pc := .castContext } (by rw [here]; rfl) rfl rfl
        (.inl rfl), .refl _⟩
  | castContext =>
    simp only [work, here] at worked
    split at worked
    · cases worked
      exact ⟨_, .elsewhere _, rfl, rfl, rfl, rfl, rfl, rfl⟩
    · rename_i k context
      cases worked
      exact ⟨_, .goOn i content { conn.tasks i with clientConn := k, pc := .push }
        (by rw [here]; rfl) rfl rfl (.inl rfl), .refl _⟩
  | push =>
    simp only [work, here, Option.some.injEq, push] at worked
    subst worked
    split
    · -- The url is queued, and the request is still to be handled.
      exact ⟨_, .goOn i content { conn.tasks i with pc := .send } (by rw [here]; rfl) rfl rfl
        (.inl rfl), rfl, rfl, rfl, rfl, rfl, rfl⟩
    · exact ⟨_, .elsewhere _, rfl, rfl, rfl, rfl, rfl, rfl⟩
  | send =>
    simp only [work, here, Option.some.injEq, send] at worked
    subst worked
    split
    · exact ⟨_, .elsewhere _, rfl, rfl, rfl, rfl, rfl, rfl⟩
    split
    · exact ⟨_, .elsewhere _, rfl, rfl, rfl, rfl, rfl, rfl⟩
    · exact ⟨_, .handle i content _ _ (by rw [here]; rfl) rfl rfl, .refl _⟩
  | copyBuffer =>
    simp only [work, here, Option.some.injEq] at worked
    subst worked
    exact ⟨_, .copyBuffer i content here, .refl _⟩
  | dropForwarded =>
    simp only [work, here, Option.some.injEq, dropForwarded] at worked
    subst worked
    -- Whether the assertion holds or not, the request has been retrieved.
    refine ⟨_, .retrieve i content (by rw [here]; rfl), ?_⟩
    split
    · exact ⟨rfl, rfl, rfl, rfl, rfl, rfl⟩
    · exact .refl _
  | tail =>
    simp only [work, here, Option.some.injEq, tail] at worked
    subst worked
    split
    · split
      · exact ⟨_, .elsewhere _, rfl, rfl, rfl, rfl, rfl, rfl⟩
      · -- Closing a connection with too much left in its buffer handles nothing.
        exact ⟨_, .leave i content here, rfl, rfl, rfl, rfl, rfl, rfl⟩
    · exact ⟨_, .leave i content here, .refl _⟩
  | finished => simp [work, here] at worked

/-- A step of a task enqueues no task. -/
theorem work_taskCount (worked : conn.work assertions i content = some next) :
    next.taskCount = conn.taskCount := by
  -- Only a message makes a task.
  obtain ⟨moved, event, same⟩ := streamEvent_of_work worked
  rw [same.taskCount]
  cases event <;> rfl

/-- Every step is one of the events, apart from what it does to the tunnels. -/
theorem streamEvent_of_step {label : ConnectionStep}
    (stepped : (connectionMachine memory assertions).step conn label = some next) :
    ∃ moved, conn.StreamEvent label moved ∧ moved.SameStream next := by
  simp only [connectionMachine] at stepped
  split at stepped
  · cases stepped
  · -- Only deliveries and tasks have a part in the stream.
    cases label with
    | deliver chunk =>
      cases stepped
      exact ⟨_, .deliver chunk, .refl _⟩
    | work i content => exact streamEvent_of_work stepped
    | respond k chunk =>
      simp only [Option.ite_none_right_eq_some, Option.some.injEq] at stepped
      obtain ⟨-, rfl⟩ := stepped
      refine ⟨conn, .elsewhere _, ?_⟩
      -- A response concerns its relay alone, whether that goes wrong or not.
      unfold respond
      split <;> exact ⟨rfl, rfl, rfl, rfl, rfl, rfl⟩
    | backendUp k | backendDown k =>
      simp only [Option.ite_none_right_eq_some, Option.some.injEq] at stepped
      obtain ⟨-, rfl⟩ := stepped
      exact ⟨conn, .elsewhere _, rfl, rfl, rfl, rfl, rfl, rfl⟩
    | clientDown =>
      cases stepped
      refine ⟨conn, .elsewhere _, ?_⟩
      unfold onServerConnectionDown
      split <;> exact ⟨rfl, rfl, rfl, rfl, rfl, rfl⟩

/-- A task that takes a step waits in the queue afterwards only if nothing has happened. -/
theorem queued_of_event {moved : Connection} {content : Bytes}
    (event : conn.StreamEvent (.work i content) moved) (queued : (moved.tasks i).pc = .queued) :
    moved = conn := by
  -- No event of a call leads back to the queue, so the one that happened changed nothing.
  have own {task : Task} : (conn.set i task).tasks i = task := set_own
  cases event with
  | elsewhere => rfl
  | begin_ | copyBuffer | leave =>
    rw [own] at queued
    cases queued
  | enterLoop =>
    rw [own] at queued
    rcases (conn.tasks i).loopHead_pc conn.connected with place | place <;> simp [place] at queued
  | goOn _ _ task _ _ _ place =>
    rw [own] at queued
    rcases place with place | place <;> rw [queued] at place <;> cases place
  | handle _ _ pc _ _ owing =>
    have same : ((conn.set i { conn.tasks i with pc := pc }).tasks i).pc = .queued := queued
    rw [own] at same
    dsimp only at same
    rw [same] at owing
    cases owing
  | retrieve =>
    rw [set_own] at queued
    cases queued
  | overrun _ _ here =>
    have same : (conn.tasks i).pc = .queued := queued
    rw [here] at same
    cases same

/-- A task that has started does not wait in the queue again. -/
theorem started_of_work {content : Bytes} (started : (conn.tasks i).pc ≠ .queued)
    (worked : conn.work assertions i content = some next) : (next.tasks i).pc ≠ .queued := by
  -- If it were queued now, nothing would have happened, and it was queued before.
  obtain ⟨moved, event, same⟩ := streamEvent_of_work worked
  rw [same.tasks]
  intro queued
  exact started (queued_of_event event queued ▸ queued)

/-- While one task takes steps, the others stay as they are. -/
theorem run_work_other {content : Bytes} {steps : Nat} {last : Connection} (other : j ≠ i)
    (ran : (connectionMachine memory assertions).run conn
      (List.replicate steps (.work i content)) = some last) : last.tasks j = conn.tasks j := by
  -- No step touches them.
  induction steps generalizing conn with
  | zero =>
    cases ran
    rfl
  | succ steps ih =>
    obtain ⟨next, stepped, ranRest⟩ := Option.bind_eq_some_iff.mp ran
    rw [ih ranRest, work_other other (work_of_step stepped)]

end Connection

end EnhancedProxy
