import EnhancedProxy.ProxyServer.SolveOnMessage

/-! What a step of a connection can do to its context and to its entry in the map of tunnels. -/

namespace EnhancedProxy

/-- The task is between its last test of the context and its `pushCache`. -/
def Task.NeedsTunnel (task : Task) : Prop := task.pc = .castContext ∨ task.pc = .push

/-- A test of the context has succeeded, and the task does what the test guards. -/
def Task.Guarded (task : Task) : Prop :=
  task.pc = .createTunnel ∨ task.pc = .addTunnel ∨ task.NeedsTunnel

namespace Connection

/-- The step leaves the context, the map and the tunnels as they are, and brings no task behind a
test of the context. -/
structure Quiet (conn next : Connection) : Prop where
  connected : next.connected = conn.connected
  context : next.context = conn.context
  tunnelEntry : next.tunnelEntry = conn.tunnelEntry
  tunnelCount : next.tunnelCount = conn.tunnelCount
  fault : next.fault ≠ some .nullTunnel
  tasks : ∀ j, next.tasks j = conn.tasks j ∨ ¬ (next.tasks j).Guarded

/-- What a step can do to the context and the map of tunnels. -/
inductive TunnelEvent (conn : Connection) : ConnectionStep → Connection → Prop
  | quiet (label : ConnectionStep) (next : Connection) (inside : ∀ k, label ≠ .backendUp k)
      (quiet : conn.Quiet next) :
    TunnelEvent conn label next
  -- A task finds that a tunnel is to be created.
  | test (i : Nat) (content : Bytes) (here : (conn.tasks i).pc = .checkTunnel)
      (unchecked : (conn.tasks i).isCheck = false) (empty : conn.context = none) :
    TunnelEvent conn (.work i content) (conn.set i { conn.tasks i with pc := .createTunnel })
  | create (i : Nat) (content : Bytes) (here : (conn.tasks i).pc = .createTunnel) :
    TunnelEvent conn (.work i content) (conn.createTunnel i)
  | add (i : Nat) (content : Bytes) (here : (conn.tasks i).pc = .addTunnel) :
    TunnelEvent conn (.work i content) (conn.addTunnel i)
  -- A task finds that a backend connection is there.
  | found (i : Nat) (content : Bytes) (here : (conn.tasks i).pc = .checkContext)
      (bound : conn.context ≠ none) :
    TunnelEvent conn (.work i content) (conn.set i { conn.tasks i with pc := .castContext })
  -- A task takes the backend connection from the context.
  | cast (i : Nat) (content : Bytes) (here : (conn.tasks i).pc = .castContext) (k : Nat)
      (context : conn.context = some k) :
    TunnelEvent conn (.work i content)
      (conn.set i { conn.tasks i with clientConn := k, pc := .push })
  -- A task finds no tunnel to push to.
  | pushNull (i : Nat) (content : Bytes) (here : (conn.tasks i).pc = .push)
      (unmapped : ∀ k, conn.tunnelEntry ≠ some (some k)) :
    TunnelEvent conn (.work i content) ({ conn with tunnelEntry := some none }.fail .nullTunnel)
  -- The close at the end of a task.
  | close (i : Nat) (content : Bytes) (here : (conn.tasks i).pc = .tail)
      (dirty : conn.buf.length > 1024 * 1024 * 10) (live : conn.tunnelEntry ≠ some none) :
    TunnelEvent conn (.work i content)
      { conn.set i { conn.tasks i with pc := .finished } with
        tunnelEntry := none, connected := false }
  -- `disconnect` through a null pointer, at the end of a task or of the connection.
  | disconnectNull (label : ConnectionStep) (inside : ∀ k, label ≠ .backendUp k)
      (null : conn.tunnelEntry = some none) :
    TunnelEvent conn label (conn.fail .nullTunnel)
  | up (k : Nat) (created : k < conn.tunnelCount) :
    TunnelEvent conn (.backendUp k) { conn with context := some k }
  | down (k : Nat) :
    TunnelEvent conn (.backendDown k) { conn with context := none, connected := false }
  | clientDown (live : conn.tunnelEntry ≠ some none) :
    TunnelEvent conn .clientDown { conn with connected := false, tunnelEntry := none }

variable {conn next : Connection} {i : Nat} {task : Task} {memory : RelayMemory}
  {assertions : Bool} {content : Bytes}

/-- A step that leaves the tasks alone is quiet, if it touches neither context nor map. -/
theorem quiet_elsewhere (connected : next.connected = conn.connected)
    (context : next.context = conn.context) (tunnelEntry : next.tunnelEntry = conn.tunnelEntry)
    (tunnelCount : next.tunnelCount = conn.tunnelCount) (fault : next.fault ≠ some .nullTunnel)
    (tasks : next.tasks = conn.tasks) : conn.Quiet next :=
  ⟨connected, context, tunnelEntry, tunnelCount, fault, fun j => .inl (congrFun tasks j)⟩

/-- A step that moves one task, but not behind a test, is quiet, if it touches neither context nor
map. -/
theorem quiet_task (connected : next.connected = conn.connected)
    (context : next.context = conn.context) (tunnelEntry : next.tunnelEntry = conn.tunnelEntry)
    (tunnelCount : next.tunnelCount = conn.tunnelCount) (fault : next.fault ≠ some .nullTunnel)
    (tasks : next.tasks = Function.update conn.tasks i task)
    (free : ¬ task.Guarded) : conn.Quiet next := by
  -- The other tasks are the same, and the one replaced is behind no test.
  refine ⟨connected, context, tunnelEntry, tunnelCount, fault, ?_⟩
  rw [tasks, Function.forall_update_iff conn.tasks
    fun j task => task = conn.tasks j ∨ ¬ task.Guarded]
  exact ⟨.inr free, fun _ _ => .inl rfl⟩

/-- The test of the loop is no test of the context. -/
theorem not_guarded_loopHead (task : Task) (connected : Bool) :
    ¬ (task.loopHead connected).Guarded := by
  -- The two places that follow are both before the test of the context.
  rcases task.loopHead_pc connected with inside | outside
  · simp [Task.Guarded, Task.NeedsTunnel, inside]
  · simp [Task.Guarded, Task.NeedsTunnel, outside]

/-- A task that is replaced by one that is behind no test. -/
theorem tunnelEvent_set {task : Task} (running : conn.fault = none) (free : ¬ task.Guarded) :
    conn.TunnelEvent (.work i content) (conn.set i task) := by
  -- Nothing but the task is written.
  have sound : conn.fault ≠ some .nullTunnel := by simp [running]
  refine .quiet _ _ (by simp) ?_
  exact quiet_task rfl rfl rfl rfl sound rfl free

/-- The process ends without a null pointer. -/
theorem tunnelEvent_fail {fault : Fault} (other : fault ≠ .nullTunnel) :
    conn.TunnelEvent (.work i content) (conn.fail fault) := by
  -- Only the fault is written, and it is another one.
  refine .quiet _ _ (by simp) ?_
  exact quiet_elsewhere rfl rfl rfl rfl (by simpa [fail] using other) rfl

/-- Whether the response is in the cache or not, the task is behind no test. -/
theorem tunnelEvent_readCache (running : conn.fault = none) (found : Bytes) :
    conn.TunnelEvent (.work i content) (conn.set i ((conn.tasks i).readCache found)) := by
  -- Neither the answer nor the test of the context is behind a test of it.
  apply tunnelEvent_set running
  unfold Task.readCache
  split <;> simp [Task.Guarded, Task.NeedsTunnel]

/-- The end of a pass leads back to the condition of the loop. -/
theorem not_guarded_drop (task : Task) : ¬ task.drop.Guarded := by
  simp [Task.drop, Task.Guarded, Task.NeedsTunnel]

/-- An answered request is taken off, or its length is no length. -/
theorem tunnelEvent_dropAnswered (running : conn.fault = none) :
    conn.TunnelEvent (.work i content) (conn.dropAnswered i) := by
  -- A drop touches neither the map nor the context, and its task needs no tunnel after it.
  have sound : conn.fault ≠ some .nullTunnel := by simp [running]
  refine .quiet _ _ (by simp) ?_
  unfold dropAnswered
  dsimp only
  split
  · exact quiet_elsewhere rfl rfl rfl rfl (by simp [fail]) rfl
  · exact quiet_task rfl rfl rfl rfl sound rfl (not_guarded_drop _)

/-- A forwarded request is taken off, with the assertion or without. -/
theorem tunnelEvent_dropForwarded (running : conn.fault = none) :
    conn.TunnelEvent (.work i content) (conn.dropForwarded assertions i) := by
  -- As for the drop after an answer; a failed assertion is no null tunnel either.
  have sound : conn.fault ≠ some .nullTunnel := by simp [running]
  refine .quiet _ _ (by simp) ?_
  unfold dropForwarded
  dsimp only
  split
  · exact quiet_task rfl rfl rfl rfl (by simp [fail]) rfl (not_guarded_drop _)
  · exact quiet_task rfl rfl rfl rfl sound rfl (not_guarded_drop _)

/-- The test before the branch that creates a tunnel. -/
theorem tunnelEvent_checkTunnel (running : conn.fault = none)
    (here : (conn.tasks i).pc = .checkTunnel) :
    conn.TunnelEvent (.work i content) (conn.checkTunnel i) := by
  -- The test leads to a new tunnel, or it only moves the task on.
  unfold checkTunnel
  dsimp only
  split
  · rename_i creates
    exact .test i content here (by simpa using creates.1) creates.2
  · exact tunnelEvent_set running (by simp [Task.Guarded, Task.NeedsTunnel])

/-- The test before the request is forwarded. -/
theorem tunnelEvent_checkContext (running : conn.fault = none)
    (here : (conn.tasks i).pc = .checkContext) :
    conn.TunnelEvent (.work i content) (conn.set i { conn.tasks i with
      pc := if conn.context = none then .loopHead else .castContext }) := by
  -- An empty context sends the task back; one that is set lets it pass.
  split
  · exact tunnelEvent_set running (by simp [Task.Guarded, Task.NeedsTunnel])
  · rename_i bound
    exact .found i content here bound

/-- The url is pushed onto a queue, or there is no tunnel to push to. -/
theorem tunnelEvent_push (running : conn.fault = none) (here : (conn.tasks i).pc = .push) :
    conn.TunnelEvent (.work i content) (conn.push i) := by
  -- With an entry the push is quiet; without one it is the null dereference.
  have sound : conn.fault ≠ some .nullTunnel := by simp [running]
  unfold push
  dsimp only
  split
  · refine .quiet _ _ (by simp) ?_
    exact quiet_task rfl rfl rfl rfl sound rfl (by simp [Task.Guarded, Task.NeedsTunnel])
  · rename_i unmapped
    exact .pushNull i content here unmapped

/-- Sending needs no tunnel any more. -/
theorem tunnelEvent_send (running : conn.fault = none) :
    conn.TunnelEvent (.work i content) (conn.send i) := by
  -- The request goes out over the context, and the map is not looked at.
  have sound : conn.fault ≠ some .nullTunnel := by simp [running]
  unfold send
  dsimp only
  split
  · exact tunnelEvent_fail (by simp)
  split
  · exact tunnelEvent_fail (by simp)
  · refine .quiet _ _ (by simp) ?_
    exact quiet_task rfl rfl rfl rfl sound rfl (by simp [Task.Guarded, Task.NeedsTunnel])

/-- What follows the loop closes the connection, disconnects through a null pointer, or does
nothing. -/
theorem tunnelEvent_tail (running : conn.fault = none) (here : (conn.tasks i).pc = .tail) :
    conn.TunnelEvent (.work i content) (conn.tail i) := by
  -- With too much buffered the tunnel is disconnected, or is null; otherwise the call just ends.
  unfold tail
  dsimp only
  split
  · rename_i dirty
    split
    · rename_i null
      exact .disconnectNull _ (by simp) null
    · rename_i live
      exact .close i content here dirty live
  · exact tunnelEvent_set running (by simp [Task.Guarded, Task.NeedsTunnel])

/-- The step of a task is quiet, or one of the events in the code of the task. -/
theorem tunnelEvent_of_work (running : conn.fault = none)
    (worked : conn.work assertions i content = some next) :
    conn.TunnelEvent (.work i content) next := by
  have sound : conn.fault ≠ some .nullTunnel := by simp [running]
  -- One case for each place in the code.
  cases here : (conn.tasks i).pc with
  | absent | finished => simp [work, here] at worked
  | queued =>
    simp only [work, here, Option.some.injEq] at worked
    subst worked
    exact tunnelEvent_set running (by simp [Task.Guarded, Task.NeedsTunnel])
  | loopHead =>
    simp only [work, here, Option.some.injEq] at worked
    subst worked
    exact tunnelEvent_set running (not_guarded_loopHead _ _)
  | readCache =>
    simp only [work, here, Option.some.injEq] at worked
    subst worked
    exact tunnelEvent_readCache running content
  | answer response =>
    simp only [work, here, Option.some.injEq] at worked
    subst worked
    refine .quiet _ _ (by simp) ?_
    exact quiet_task rfl rfl rfl rfl sound rfl (by simp [Task.Guarded, Task.NeedsTunnel])
  | dropAnswered =>
    simp only [work, here, Option.some.injEq] at worked
    subst worked
    exact tunnelEvent_dropAnswered running
  | checkTunnel =>
    simp only [work, here, Option.some.injEq] at worked
    subst worked
    exact tunnelEvent_checkTunnel running here
  | createTunnel =>
    simp only [work, here, Option.some.injEq] at worked
    subst worked
    exact .create i content here
  | addTunnel =>
    simp only [work, here, Option.some.injEq] at worked
    subst worked
    exact .add i content here
  | checkContext =>
    simp only [work, here, Option.some.injEq] at worked
    subst worked
    exact tunnelEvent_checkContext running here
  | castContext =>
    cases context : conn.context with
    | none =>
      simp only [work, here, context, Option.some.injEq] at worked
      subst worked
      exact tunnelEvent_fail (by simp)
    | some k =>
      simp only [work, here, context, Option.some.injEq] at worked
      subst worked
      exact .cast i content here k context
  | push =>
    simp only [work, here, Option.some.injEq] at worked
    subst worked
    exact tunnelEvent_push running here
  | send =>
    simp only [work, here, Option.some.injEq] at worked
    subst worked
    exact tunnelEvent_send running
  | copyBuffer =>
    simp only [work, here, Option.some.injEq] at worked
    subst worked
    exact tunnelEvent_set running (by simp [Task.Guarded, Task.NeedsTunnel])
  | dropForwarded =>
    simp only [work, here, Option.some.injEq] at worked
    subst worked
    exact tunnelEvent_dropForwarded running
  | tail =>
    simp only [work, here, Option.some.injEq] at worked
    subst worked
    exact tunnelEvent_tail running here

/-- Only the task that ends moves to the end of the code. -/
theorem set_finished (j : Nat) :
    (conn.set i { conn.tasks i with pc := .finished }).tasks j = conn.tasks j ∨
      ((conn.set i { conn.tasks i with pc := .finished }).tasks j).pc = .finished := by
  -- Only the call that ends is changed.
  by_cases ending : j = i
  · subst ending
    rw [set_own]
    exact .inr rfl
  · exact .inl (set_other ending)

/-- New bytes bring a task that has tested nothing. -/
theorem quiet_onServerMessage (running : conn.fault = none) (chunk : Bytes) :
    conn.Quiet (conn.onServerMessage chunk) :=
  -- The new task is queued, before every test.
  quiet_task rfl rfl rfl rfl (show conn.fault ≠ _ by simp [running]) rfl
    (by simp [Task.Guarded, Task.NeedsTunnel])

/-- Every step is quiet, or one of the events. -/
theorem tunnelEvent_of_step {label : ConnectionStep}
    (stepped : (connectionMachine memory assertions).step conn label = some next) :
    conn.TunnelEvent label next := by
  -- A process that has ended takes no step, so there is no fault before this one.
  simp only [connectionMachine] at stepped
  split at stepped
  · cases stepped
  · rename_i faultless
    have running : conn.fault = none := by simpa using faultless
    have sound : conn.fault ≠ some .nullTunnel := by simp [running]
    cases label with
    | deliver chunk =>
      cases stepped
      exact .quiet _ _ (by simp) (quiet_onServerMessage running chunk)
    | work i content => exact tunnelEvent_of_work running stepped
    | respond k chunk =>
      simp only [Option.ite_none_right_eq_some, Option.some.injEq] at stepped
      obtain ⟨-, rfl⟩ := stepped
      refine .quiet _ _ (by simp) ?_
      unfold respond
      split
      · exact quiet_elsewhere rfl rfl rfl rfl sound rfl
      · exact quiet_elsewhere rfl rfl rfl rfl (by simp [fail]) rfl
    | backendUp k =>
      simp only [Option.ite_none_right_eq_some, Option.some.injEq] at stepped
      obtain ⟨created, rfl⟩ := stepped
      exact .up k created
    | backendDown k =>
      simp only [Option.ite_none_right_eq_some, Option.some.injEq] at stepped
      obtain ⟨-, rfl⟩ := stepped
      exact .down k
    | clientDown =>
      simp only [Option.some.injEq, onServerConnectionDown] at stepped
      subst stepped
      split
      · rename_i null
        exact .disconnectNull _ (by simp) null
      · rename_i live
        exact .clientDown live

end Connection

end EnhancedProxy
