import EnhancedProxy.ProxyServer.SolveOnMessage

/-! When the loop of `solveOnMessage` ends, for a client that goes away. -/

namespace EnhancedProxy

/-- What one pass of the loop learns from outside: whether the client is connected, what the cache
has, and whether the context is empty at its first and at its second test. -/
structure PassAnswers where
  connected : Bool
  content : Bytes
  emptyFirst : Bool
  emptySecond : Bool
  deriving DecidableEq, Repr

namespace Task

/-- One pass of the loop, or its end. -/
def pass (task : Task) (answers : PassAnswers) : Option Task :=
  let entered := task.loopHead answers.connected
  if entered.pc = .tail then none
  else
    let looked := entered.readCache answers.content
    -- The request is answered from the cache.
    if looked.pc ≠ .checkTunnel then some looked.drop
    -- A tunnel is created.
    else if !looked.isCheck && answers.emptyFirst then
      some { looked with isCheck := true, pc := .loopHead }
    -- The request is sent to the web server. What may end the process there is left out.
    else if !answers.emptySecond then some looked.drop
    else some { looked with pc := .loopHead }

/-- The task after the first passes, unless the loop has ended by then. -/
def passes (answers : Nat → PassAnswers) (task : Task) : Nat → Option Task
  | 0 => some task
  | n + 1 => (passes answers task n).bind fun task => task.pass (answers n)

/-- A pass that lets a waiting task go on: the context is not empty, or the request is answered from
the cache. -/
def Released (task : Task) (answers : PassAnswers) : Prop :=
  answers.emptySecond = false ∨
    (task.context.requestMethod = getMethod ∧ answers.content ≠ [])

variable {task next : Task} {answers : PassAnswers} {stream : Nat → PassAnswers} {n : Nat}

/-- Every pass ends before the condition of the loop. -/
theorem pass_pc (passed : task.pass answers = some next) : next.pc = .loopHead := by
  -- A pass goes on by going back to the condition, on each of its branches.
  unfold pass at passed
  dsimp only at passed
  split_ifs at passed <;> cases passed <;> rfl

/-- After any number of passes, the task is before the condition of the loop. -/
theorem passes_pc (start : task.pc = .loopHead) (passed : task.passes stream n = some next) :
    next.pc = .loopHead := by
  -- Every pass that comes back stands at the head of the loop.
  cases n with
  | zero => cases passed; exact start
  | succ n =>
    obtain ⟨before, -, last⟩ := Option.bind_eq_some_iff.mp passed
    exact pass_pc last

/-- A loop that has ended does not go on. -/
theorem passes_ended {later : Nat} (ended : task.passes stream n = none) (after : n ≤ later) :
    task.passes stream later = none := by
  -- Nothing is passed on after the end.
  induction later, after using Nat.le_induction with
  | base => exact ended
  | succ later _ ih => rw [passes, ih, Option.bind_none]

/-- Without a tunnel to wait for, a client that has gone ends the loop. -/
theorem pass_gone (notWaiting : task.isCheck = false) (gone : answers.connected = false) :
    task.pass answers = none := by
  simp [pass, loopHead, notWaiting, gone]

/-- A waiting task tests neither the connection nor the context before the second test. -/
theorem pass_waiting (waiting : task.isCheck = true) :
    task.pass answers =
      if task.context.requestMethod = getMethod ∧ answers.content ≠ [] then some task.drop
      else if !answers.emptySecond then some task.drop
      else some { task with pc := .loopHead } := by
  -- What is left of the pass are the cache and the second test.
  by_cases hit : task.context.requestMethod = getMethod ∧ answers.content ≠ []
  · simp [pass, loopHead, readCache, waiting, hit, drop]
  · simp [pass, loopHead, readCache, waiting, hit, drop]

/-- A task that waits is let go. -/
theorem pass_released (waiting : task.isCheck = true) (released : task.Released answers) :
    ∃ next, task.pass answers = some next ∧ next.isCheck = false := by
  rw [pass_waiting waiting]
  by_cases hit : task.context.requestMethod = getMethod ∧ answers.content ≠ []
  · exact ⟨task.drop, by rw [if_pos hit], rfl⟩
  · -- The context was not empty.
    have open_ := released.resolve_right hit
    exact ⟨task.drop, by rw [if_neg hit, open_]; rfl, rfl⟩

/-- A task that is not let go is as it was. -/
theorem pass_stuck (start : task.pc = .loopHead) (waiting : task.isCheck = true)
    (stuck : ¬ task.Released answers) : task.pass answers = some task := by
  -- Neither the cache nor the context lets it go, so it comes back with its request.
  rw [Released, not_or] at stuck
  rw [pass_waiting waiting, if_neg stuck.2, if_neg (by simpa using stuck.1), ← start]

/-- A task that is never let go waits for ever. -/
theorem passes_stuck {k : Nat} (start : task.pc = .loopHead)
    (passed : task.passes stream k = some next) (waiting : next.isCheck = true)
    (stuck : ∀ m ≥ k, ¬ next.Released (stream m)) (later : Nat) (after : k ≤ later) :
    task.passes stream later = some next := by
  -- From pass k on nothing that is answered releases the call, so each pass repeats it.
  have here := passes_pc start passed
  induction later, after using Nat.le_induction with
  | base => exact passed
  | succ later after ih =>
    rw [passes, ih, Option.bind_some]
    exact pass_stuck here waiting (stuck later after)

end Task

/-- For a client that goes away for good, the loop ends exactly if every wait for a tunnel that was
created is followed by a pass that finds the context not empty, or the response in the cache. -/
theorem loop_ends_iff {buff : Bytes} {stream : Nat → PassAnswers}
    (gone : ∃ last, ∀ n ≥ last, (stream n).connected = false) :
    (∃ n, Task.passes stream { pc := .loopHead, buff := buff } n = none) ↔
      ∀ k task, Task.passes stream { pc := .loopHead, buff := buff } k = some task →
        task.isCheck = true → ∃ m ≥ k, task.Released (stream m) := by
  constructor
  · rintro ⟨n, ended⟩ k task passed waiting
    by_contra never
    have stuck : ∀ m ≥ k, ¬ task.Released (stream m) := fun m after released =>
      never ⟨m, after, released⟩
    -- The task is still there when the loop should have ended.
    have still := Task.passes_stuck rfl passed waiting stuck (max k n) (Nat.le_max_left k n)
    rw [Task.passes_ended ended (Nat.le_max_right k n)] at still
    cases still
  · intro letGo
    by_contra endless
    obtain ⟨last, away⟩ := gone
    have runs : ∀ n, ∃ task, Task.passes stream { pc := .loopHead, buff := buff } n = some task :=
      fun n => Option.ne_none_iff_exists'.mp fun ended => endless ⟨n, ended⟩
    -- Once the client is away, only a waiting task goes on.
    have waits : ∀ n ≥ last, ∀ task,
        Task.passes stream { pc := .loopHead, buff := buff } n = some task →
          task.isCheck = true := by
      intro n after task passed
      cases waiting : task.isCheck with
      | true => rfl
      | false =>
        refine absurd ⟨n + 1, ?_⟩ endless
        rw [Task.passes, passed, Option.bind_some]
        exact Task.pass_gone waiting (away n after)
    have stuck : ∀ n ≥ last, ∀ task,
        Task.passes stream { pc := .loopHead, buff := buff } n = some task →
          ¬ task.Released (stream n) := by
      intro n after task passed released
      obtain ⟨next, passedOn, free⟩ := Task.pass_released (waits n after task passed) released
      have still := waits (n + 1) (by omega) next (by
        rw [Task.passes, passed, Option.bind_some, passedOn])
      rw [free] at still
      cases still
    -- So the task never changes, and the pass that lets it go would be one of these.
    obtain ⟨task, passed⟩ := runs last
    have same : ∀ n, last ≤ n →
        Task.passes stream { pc := .loopHead, buff := buff } n = some task := by
      intro n after
      induction n, after using Nat.le_induction with
      | base => exact passed
      | succ n after ih =>
        rw [Task.passes, ih, Option.bind_some]
        exact Task.pass_stuck (Task.passes_pc rfl ih) (waits n after task ih)
          (stuck n after task ih)
    obtain ⟨m, after, released⟩ :=
      letGo last task passed (waits last (Nat.le_refl last) task passed)
    exact stuck m after task (same m after) released

/-- One request without a body. -/
def oneRequest : Bytes := ascii ['G', ' ', 'u', '\r', '\n', '\r', '\n']

/-- The web server accepts at once, so that the request is sent in the second pass. -/
theorem loop_ends_iff_accepted :
    ∃ n, Task.passes (fun n => ⟨n == 0, [], n == 0, false⟩)
      { pc := .loopHead, buff := oneRequest } n = none := by
  -- The second test never finds the context empty, so a waiting call is let go in any pass.
  refine (loop_ends_iff ⟨1, fun n after => ?_⟩).mpr fun k task _ _ => ⟨k, Nat.le_refl k, .inl rfl⟩
  simpa using Nat.ne_of_gt after

/-- The web server never accepts, and the client has gone after the first pass. -/
theorem loop_never_ends :
    ¬ ∀ (buff : Bytes) (stream : Nat → PassAnswers),
      (∃ last, ∀ n ≥ last, (stream n).connected = false) →
        ∃ n, Task.passes stream { pc := .loopHead, buff := buff } n = none := by
  -- The connection is gone, but a call that waits for its tunnel never looks at it again.
  intro all
  obtain ⟨n, ended⟩ := all oneRequest (fun n => ⟨n == 0, [], true, true⟩)
    ⟨1, fun n after => by simpa using Nat.ne_of_gt after⟩
  have passed : Task.passes (fun n => ⟨n == 0, [], true, true⟩)
      { pc := .loopHead, buff := oneRequest } 1 = some _ := rfl
  have waits := Task.passes_stuck rfl passed (by decide)
    (fun m _ released => (by simp [Task.Released] at released)) (max 1 n) (Nat.le_max_left 1 n)
  rw [Task.passes_ended ended (Nat.le_max_right 1 n)] at waits
  cases waits

/-- Among the other steps of the connection, a waiting task comes back to the same state: the client
that has gone is not looked at. -/
theorem waiting_task_spins (memory : RelayMemory) (assertions : Bool) {conn : Connection} {i : Nat}
    {content : Bytes} (sound : conn.fault = none) (start : (conn.tasks i).pc = .loopHead)
    (waiting : (conn.tasks i).isCheck = true) (empty : conn.context = none)
    (miss : ¬ ((conn.tasks i).context.requestMethod = getMethod ∧ content ≠ [])) :
    (connectionMachine memory assertions).run conn (List.replicate 4 (.work i content)) =
      some conn := by
  -- Each step only moves the task.
  have moves : ∀ (pc target : TaskPc),
      (conn.set i { conn.tasks i with pc := pc }).work assertions i content =
        some (conn.set i { conn.tasks i with pc := target }) →
      (connectionMachine memory assertions).step (conn.set i { conn.tasks i with pc := pc })
        (.work i content) = some (conn.set i { conn.tasks i with pc := target }) := by
    intro pc target worked
    simpa [connectionMachine, Connection.set, sound] using worked
  have self : conn.set i { conn.tasks i with pc := .loopHead } = conn := by
    rw [← start]
    exact congrArg (fun tasks => { conn with tasks := tasks })
      (Function.update_eq_self i conn.tasks)
  have entered := moves .loopHead .readCache (by
    simp [Connection.work, Connection.set, Task.loopHead, waiting])
  have missed := moves .readCache .checkTunnel (by
    simp [Connection.work, Connection.set, Task.readCache, miss])
  have tested := moves .checkTunnel .checkContext (by
    simp [Connection.work, Connection.checkTunnel, Connection.set, waiting])
  have again := moves .checkContext .loopHead (by
    simp [Connection.work, Connection.set, empty])
  rw [self] at entered again
  simp only [List.replicate, Machine.run_cons, Machine.run_nil, entered, missed, tested, again,
    Option.bind_some]

end EnhancedProxy
