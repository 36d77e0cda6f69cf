import EnhancedProxy.Library.Simulation
import EnhancedProxy.ProxyServer.StreamEvents
import EnhancedProxy.ThreadPool.Ledger

/-! A whole proxy server: its client connections, and the thread pool that runs their tasks. -/

namespace EnhancedProxy

open CircleQueue

/-- What `std::bind` makes of a call of `solveOnMessage`: its connection, and its copy of the buffer.
The number of the message tells the calls of one connection apart, and no step depends on it. -/
structure BoundCall where
  conn : Nat
  buff : Bytes
  message : Nat
  deriving DecidableEq, Repr

/-- What ends the process of a proxy server. -/
inductive ServerFault
  | connection (c : Nat) (fault : Fault)
  -- A call through an empty `std::function`.
  | badFunctionCall
  deriving DecidableEq, Repr

/-- What is fixed for a run: the producer of each connection's I/O loop, and what the connections
depend on. The pointer `producer_` of a loop is taken to be null or to point to a producer, which
the source leaves to whoever starts the loop. -/
structure ServerSetting where
  memory : RelayMemory
  assertions : Bool
  producerOf : Nat → Option Nat

/-- A proxy server. The tasks of a connection are the calls of `solveOnMessage` that a thread has
begun, and each thread is in at most one of them. The history keeps how many messages a connection
has had, and for which of them a call has begun, in the order in which they have. -/
structure ProxyServer where
  threadpool : Pool (Option BoundCall) := Pool.new
  threads : Nat := 0
  conns : Nat → Connection := fun _ => {}
  running : Nat → Option (Nat × Nat) := fun _ => none
  fault : Option ServerFault := none
  messages : Nat → Nat := fun _ => 0
  started : Nat → List Nat := fun _ => []

/-- The atomic steps of the I/O loops and of the threads, and what the network does. -/
inductive ServerStep
  -- `MyThreadPool::start`, which `ProxyServer::start` calls again at every wake-up.
  | startThreads
  -- A chunk arrives and `onServerMessage` runs, up to the slot of the ring.
  | message (c : Nat) (chunk : Bytes)
  | writeSlot (p : Nat)
  -- `Consumer::read` up to its slot, in `runInMyThread`.
  | callRead (k : Nat)
  -- The end of `Consumer::read`, and the call of what it has returned.
  | readSlot (k : Nat)
  -- The next step of the call that the thread is in, with what the cache would answer.
  | work (k : Nat) (content : Bytes)
  | network (c : Nat) (event : ConnectionStep)
  deriving DecidableEq, Repr

/-- The steps of a connection that neither its I/O loop nor the thread pool takes. -/
def ConnectionStep.fromNetwork : ConnectionStep → Bool
  | .deliver _ | .work _ _ => false
  | _ => true

namespace Connection

/-- A chunk reaches the live buffer. -/
def receive (conn : Connection) (chunk : Bytes) : Connection :=
  { conn with buf := conn.buf ++ chunk, delivered := conn.delivered ++ chunk }

/-- A thread calls a bound `solveOnMessage`. -/
def call (conn : Connection) (buff : Bytes) : Connection :=
  { conn with
    tasks := Function.update conn.tasks conn.taskCount { pc := .queued, buff := buff }
    taskCount := conn.taskCount + 1 }

/-- The same connection with other tasks. -/
def withTasks (conn : Connection) (tasks : Nat → Task) (taskCount : Nat) : Connection :=
  { conn with tasks := tasks, taskCount := taskCount }

variable {conn next : Connection} {i j : Nat} {task : Task} {tasks : Nat → Task} {n : Nat}
  {memory : RelayMemory} {assertions : Bool} {content : Bytes}

/-- A task is replaced under whatever number it has. -/
theorem withTasks_set :
    (conn.withTasks tasks n).set j task =
      (conn.set i task).withTasks (Function.update tasks j ((conn.set i task).tasks i)) n := by
  -- The task written is the same under either number.
  rw [set_own]
  rfl

/-- What a call does next depends on the shared state and on its own variables, and on neither its
number nor the other calls. -/
theorem work_withTasks (same : tasks j = conn.tasks i)
    (worked : conn.work assertions i content = some next) :
    (conn.withTasks tasks n).work assertions j content =
      some (next.withTasks (Function.update tasks j (next.tasks i)) n) := by
  have own : (conn.withTasks tasks n).tasks j = conn.tasks i := same
  -- Where the process ends, the task stays as it is.
  have stays : Function.update tasks j (conn.tasks i) = tasks := by
    rw [← same, Function.update_eq_self]
  -- One case for each place in the code.
  cases here : (conn.tasks i).pc with
  | absent | finished => simp [work, here] at worked
  | queued | loopHead | readCache | answer | copyBuffer | createTunnel | addTunnel =>
    simp only [work, here, Option.some.injEq] at worked
    subst worked
    simp only [work, own, here, createTunnel, addTunnel]
    simp [withTasks, set]
  | checkContext =>
    simp only [work, here, Option.some.injEq] at worked
    subst worked
    simp only [work, own, here]
    exact congrArg some withTasks_set
  | castContext =>
    simp only [work, here] at worked
    simp only [work, own, here]
    cases context : conn.context with
    | none =>
      simp only [context, Option.some.injEq] at worked
      subst worked
      simp [withTasks, fail, context, stays]
    | some k =>
      simp only [context, Option.some.injEq] at worked
      subst worked
      simp [withTasks, set, context]
  | push =>
    simp only [work, here, push, Option.some.injEq] at worked
    subst worked
    simp only [work, own, here, push]
    cases entry : conn.tunnelEntry with
    | none => simp [withTasks, fail, entry, stays]
    | some tunnel => cases tunnel <;> simp [withTasks, set, fail, entry, stays]
  | checkTunnel =>
    simp only [work, here, checkTunnel, Option.some.injEq] at worked
    subst worked
    simp only [work, own, here, checkTunnel]
    split
    · rename_i test
      rw [if_pos (show _ ∧ conn.context = none from test)]
      exact congrArg some withTasks_set
    · rename_i test
      rw [if_neg (show ¬ (_ ∧ conn.context = none) from test)]
      exact congrArg some withTasks_set
  | dropAnswered =>
    simp only [work, here, dropAnswered, Option.some.injEq] at worked
    subst worked
    simp only [work, own, here, dropAnswered]
    by_cases negative : (conn.tasks i).info.2 < 0
    · simp [withTasks, negative, retrieve, fail, stays]
    · simp [withTasks, negative, retrieve, set]
  | dropForwarded =>
    simp only [work, here, dropForwarded, Option.some.injEq] at worked
    subst worked
    simp only [work, own, here, dropForwarded]
    split <;> simp [withTasks, retrieve, set, fail]
  | send =>
    simp only [work, here, send, Option.some.injEq] at worked
    subst worked
    simp only [work, own, here, send]
    by_cases dangling : conn.context ≠ some (conn.tasks i).clientConn
    · simp [withTasks, dangling, fail, stays]
    by_cases negative : (conn.tasks i).info.2 < 0
    · simp [withTasks, dangling, negative, fail, stays]
    · simp [withTasks, dangling, negative, set]
  | tail =>
    simp only [work, here, tail, Option.some.injEq] at worked
    subst worked
    simp only [work, own, here, tail]
    by_cases dirty : conn.buf.length > 1024 * 1024 * 10
    · by_cases null : conn.tunnelEntry = some none
      · simp [withTasks, dirty, null, fail, stays]
      · simp [withTasks, dirty, null, set]
    · simp [withTasks, dirty, set]

/-- What the network does is the same whatever the tasks are. -/
theorem network_withTasks {event : ConnectionStep} (outside : event.fromNetwork)
    (stepped : (connectionMachine memory assertions).step conn event = some next) :
    (connectionMachine memory assertions).step (conn.withTasks tasks n) event =
      some (next.withTasks tasks n) := by
  have running := running_of_step stepped
  have runningOther : (conn.withTasks tasks n).fault = none := running
  simp only [connectionMachine, running, Option.isSome_none, Bool.false_eq_true, if_false]
    at stepped
  simp only [connectionMachine, runningOther, Option.isSome_none, Bool.false_eq_true, if_false]
  -- Neither a delivery nor a task comes from the network.
  cases event with
  | deliver chunk | work i content => cases outside
  | respond k chunk =>
    obtain ⟨created, same⟩ := Option.ite_none_right_eq_some.mp stepped
    cases same
    refine (if_pos created).trans (congrArg some ?_)
    simp only [respond, withTasks]
    split <;> rfl
  | backendUp k | backendDown k =>
    obtain ⟨created, same⟩ := Option.ite_none_right_eq_some.mp stepped
    cases same
    exact if_pos created
  | clientDown =>
    cases stepped
    refine congrArg some ?_
    by_cases null : conn.tunnelEntry = some none
    · simp [onServerConnectionDown, withTasks, null, fail]
    · simp [onServerConnectionDown, withTasks, null]

/-- What the network does leaves the tasks as they are. -/
theorem network_tasks {event : ConnectionStep} (outside : event.fromNetwork)
    (stepped : (connectionMachine memory assertions).step conn event = some next) :
    next.tasks = conn.tasks ∧ next.taskCount = conn.taskCount := by
  -- The events that touch a call are those of the call itself, and none comes from the network.
  obtain ⟨moved, happened, same⟩ := streamEvent_of_step stepped
  rw [same.tasks, same.taskCount]
  cases happened with
  | elsewhere => exact ⟨rfl, rfl⟩
  | deliver | begin_ | enterLoop | goOn | handle | copyBuffer | retrieve | overrun | leave =>
    cases outside

end Connection

namespace ProxyServer

/-- The call that `onServerMessage` binds for a chunk. -/
def bind (server : ProxyServer) (c : Nat) (chunk : Bytes) : BoundCall where
  conn := c
  buff := (server.conns c).buf ++ chunk
  message := server.messages c

/-- A chunk reaches the buffer of its connection. -/
def receive (server : ProxyServer) (c : Nat) (chunk : Bytes) : ProxyServer :=
  { server with
    conns := Function.update server.conns c ((server.conns c).receive chunk)
    messages := Function.update server.messages c (server.messages c + 1) }

/-- The other connections do not see the chunk. -/
theorem receive_other {server : ProxyServer} {c d : Nat} {chunk : Bytes} (other : d ≠ c) :
    (server.receive c chunk).conns d = server.conns d := Function.update_of_ne other _ _

/-- `onServerMessage`, up to the slot of the ring. What `write` returns is not looked at. -/
def onServerMessage (setting : ServerSetting) (server : ProxyServer) (c : Nat) (chunk : Bytes) :
    Option ProxyServer :=
  match setting.producerOf c with
  -- There is no producer for this loop, and the chunk stays in the buffer.
  | none => some (server.receive c chunk)
  | some p =>
    (server.threadpool.callWrite p (some (server.bind c chunk))).map fun pool =>
      { server.receive c chunk with threadpool := pool }

/-- A thread begins a call that it has read from the ring. -/
def begin_ (server : ProxyServer) (k : Nat) (call : BoundCall) : ProxyServer :=
  let conn := server.conns call.conn
  { server with
    conns := Function.update server.conns call.conn (conn.call call.buff)
    running := Function.update server.running k (some (call.conn, conn.taskCount))
    started := Function.update server.started call.conn
      (server.started call.conn ++ [call.message]) }

/-- The end of `Consumer::read`, and `entry.first()`. -/
def readSlot (server : ProxyServer) (k : Nat) : Option ProxyServer :=
  (server.threadpool.readSlot k).map fun pool =>
    match server.threadpool.queue.read (server.threadpool.consumers k).readId with
    -- A slot that was never written holds `T()`.
    | none => { server with threadpool := pool, fault := some .badFunctionCall }
    | some call => { server.begin_ k call with threadpool := pool }

/-- A connection has moved on, and may have ended the process. -/
def setConn (server : ProxyServer) (c : Nat) (conn : Connection) : ProxyServer :=
  { server with
    conns := Function.update server.conns c conn
    fault := conn.fault.map (.connection c) }

/-- The next step of the call that a thread is in. -/
def work (setting : ServerSetting) (server : ProxyServer) (k : Nat) (content : Bytes) :
    Option ProxyServer :=
  (server.running k).bind fun (c, i) =>
    ((server.conns c).work setting.assertions i content).map fun conn =>
      -- The call returns, and the thread goes on to read the ring.
      if (conn.tasks i).pc = .finished then
        { server.setConn c conn with running := Function.update server.running k none }
      else server.setConn c conn

/-- What a step does while the process runs. -/
def act (setting : ServerSetting) (server : ProxyServer) : ServerStep → Option ProxyServer
  -- Four more threads, whether there are any already or not.
  | .startThreads => some { server with threads := server.threads + 4 }
  | .message c chunk => server.onServerMessage setting c chunk
  | .writeSlot p =>
    (server.threadpool.writeSlot p).map fun pool => { server with threadpool := pool }
  | .callRead k =>
    if k < server.threads ∧ server.running k = none then
      (server.threadpool.callRead k).map fun pool => { server with threadpool := pool }
    else none
  | .readSlot k => server.readSlot k
  | .work k content => server.work setting k content
  | .network c event =>
    if event.fromNetwork then
      ((connectionMachine setting.memory setting.assertions).step (server.conns c) event).map
        (server.setConn c)
    else none

end ProxyServer

/-- The proxy server as a machine, until its process ends. -/
def serverMachine (setting : ServerSetting) : Machine ProxyServer ServerStep where
  step server label := if server.fault.isSome then none else server.act setting label

/-- The step of the ring queue that a step of the server takes, if it takes one. -/
def ProxyServer.poolStep (setting : ServerSetting) (server : ProxyServer) :
    ServerStep → Option (PoolStep (Option BoundCall))
  | .message c chunk =>
    (setting.producerOf c).map fun p => .callWrite p (some (server.bind c chunk))
  | .writeSlot p => some (.writeSlot p)
  | .callRead k => some (.callRead k)
  | .readSlot k => some (.readSlot k)
  | _ => none

/-- The step leaves no segment of the ring in two hands. -/
def ProxyServer.Careful (setting : ServerSetting) (server : ProxyServer) (label : ServerStep) :
    Prop :=
  ∀ poolLabel, server.poolStep setting label = some poolLabel → server.threadpool.Careful poolLabel

namespace ProxyServer

variable {server next : ProxyServer} {setting : ServerSetting} {c k p : Nat} {chunk content : Bytes}

/-- A server that takes a step has not ended. -/
theorem running_of_step {label : ServerStep}
    (stepped : (serverMachine setting).step server label = some next) : server.fault = none := by
  -- A server that has ended takes no step.
  by_contra ended
  simp [serverMachine, Option.isSome_iff_ne_none.mpr ended] at stepped

/-- While the process runs, a step is what it does. -/
theorem act_of_step {label : ServerStep}
    (stepped : (serverMachine setting).step server label = some next) :
    server.act setting label = some next := by
  -- A process that has ended takes no step.
  have running := running_of_step stepped
  rw [← stepped]
  simp [serverMachine, running]

/-- A message reaches its buffer, and a call is bound for it unless there is no producer. -/
theorem message_cases
    (stepped : (serverMachine setting).step server (.message c chunk) = some next) :
    setting.producerOf c = none ∧ next = server.receive c chunk ∨
      ∃ p pool, setting.producerOf c = some p ∧
        server.threadpool.callWrite p (some (server.bind c chunk)) = some pool ∧
        next = { server.receive c chunk with threadpool := pool } := by
  -- The loop looks up its producer once; without one the message is only received.
  replace stepped : server.onServerMessage setting c chunk = some next := act_of_step stepped
  unfold onServerMessage at stepped
  cases producer : setting.producerOf c with
  | none =>
    simp only [producer, Option.some.injEq] at stepped
    exact .inl ⟨rfl, stepped.symm⟩
  | some p =>
    simp only [producer] at stepped
    obtain ⟨pool, called, rfl⟩ := Option.map_eq_some_iff.mp stepped
    exact .inr ⟨p, pool, rfl, called, rfl⟩

/-- The end of a `write` concerns the ring alone. -/
theorem writeSlot_cases
    (stepped : (serverMachine setting).step server (.writeSlot p) = some next) :
    ∃ pool, server.threadpool.writeSlot p = some pool ∧
      next = { server with threadpool := pool } := by
  -- The step is the one of the ring, with the rest of the server around it.
  obtain ⟨pool, wrote, rfl⟩ := Option.map_eq_some_iff.mp (act_of_step stepped)
  exact ⟨pool, wrote, rfl⟩

/-- A thread that is in no call goes to the ring for its next one. -/
theorem callRead_cases
    (stepped : (serverMachine setting).step server (.callRead k) = some next) :
    ∃ pool, server.threadpool.callRead k = some pool ∧
      next = { server with threadpool := pool } := by
  -- The step is refused where the thread is still in a call.
  obtain ⟨-, reading⟩ := Option.ite_none_right_eq_some.mp (act_of_step stepped)
  obtain ⟨pool, called, rfl⟩ := Option.map_eq_some_iff.mp reading
  exact ⟨pool, called, rfl⟩

/-- A thread begins the call that it reads, unless the slot holds none. -/
theorem readSlot_cases
    (stepped : (serverMachine setting).step server (.readSlot k) = some next) :
    ∃ pool, server.threadpool.readSlot k = some pool ∧
      (server.threadpool.queue.read (server.threadpool.consumers k).readId = none ∨
        ∃ call, server.threadpool.queue.read (server.threadpool.consumers k).readId = some call ∧
          next = { server.begin_ k call with threadpool := pool }) := by
  -- The consumer takes what the slot holds: nothing, or a bound call, which it begins.
  obtain ⟨pool, read, rfl⟩ := Option.map_eq_some_iff.mp (act_of_step stepped)
  refine ⟨pool, read, ?_⟩
  cases found : server.threadpool.queue.read (server.threadpool.consumers k).readId with
  | none => exact .inl rfl
  | some call => exact .inr ⟨call, rfl, rfl⟩

/-- A thread takes the next step of its call, and leaves it when it is finished. -/
theorem work_cases
    (stepped : (serverMachine setting).step server (.work k content) = some next) :
    ∃ c i conn, server.running k = some (c, i) ∧
      (server.conns c).work setting.assertions i content = some conn ∧
      ∃ running, next = { server.setConn c conn with running := running } ∧
        ∀ l, running l = server.running l ∨ running l = none := by
  -- The thread is inside a call and moves it; where the call returns, the thread leaves it.
  obtain ⟨⟨c, i⟩, inside, moved⟩ := Option.bind_eq_some_iff.mp (act_of_step stepped)
  obtain ⟨conn, worked, rfl⟩ := Option.map_eq_some_iff.mp moved
  refine ⟨c, i, conn, inside, worked, ?_⟩
  split
  · refine ⟨_, rfl, fun l => ?_⟩
    by_cases own : l = k
    · subst own
      exact .inr (Function.update_self _ _ _)
    · exact .inl (Function.update_of_ne own _ _)
  · exact ⟨server.running, rfl, fun l => .inl rfl⟩

/-- What the network does concerns one connection. -/
theorem network_cases {event : ConnectionStep}
    (stepped : (serverMachine setting).step server (.network c event) = some next) :
    event.fromNetwork ∧ ∃ conn,
      (connectionMachine setting.memory setting.assertions).step (server.conns c) event =
        some conn ∧ next = server.setConn c conn := by
  -- The event is refused where it is none of the network's.
  obtain ⟨outside, happened⟩ := Option.ite_none_right_eq_some.mp (act_of_step stepped)
  obtain ⟨conn, moved, rfl⟩ := Option.map_eq_some_iff.mp happened
  exact ⟨outside, conn, moved, rfl⟩

/-- A step of the server leaves the ring as it is, or takes the step of the ring that it contains. -/
theorem pool_of_step {label : ServerStep}
    (stepped : (serverMachine setting).step server label = some next) :
    server.poolStep setting label = none ∧ next.threadpool = server.threadpool ∨
      ∃ poolLabel, server.poolStep setting label = some poolLabel ∧
        (poolMachine _).step server.threadpool poolLabel = some next.threadpool := by
  -- Messages and reads concern the ring, and what a call or the network does never does.
  cases label with
  | startThreads =>
    cases act_of_step stepped
    exact .inl ⟨rfl, rfl⟩
  | message c chunk =>
    rcases message_cases stepped with ⟨none_, rfl⟩ | ⟨p, pool, producer, called, rfl⟩
    · refine .inl ⟨?_, rfl⟩
      simp only [poolStep, none_, Option.map_none]
    · refine .inr ⟨.callWrite p (some (server.bind c chunk)), ?_, called⟩
      simp only [poolStep, producer, Option.map_some]
  | writeSlot p =>
    obtain ⟨pool, wrote, rfl⟩ := writeSlot_cases stepped
    exact .inr ⟨_, rfl, wrote⟩
  | callRead k =>
    obtain ⟨pool, called, rfl⟩ := callRead_cases stepped
    exact .inr ⟨_, rfl, called⟩
  | readSlot k =>
    obtain ⟨pool, read, rfl⟩ := Option.map_eq_some_iff.mp (act_of_step stepped)
    refine .inr ⟨_, rfl, read.trans (congrArg some ?_)⟩
    split <;> rfl
  | work k content =>
    obtain ⟨c, i, conn, -, -, -, rfl, -⟩ := work_cases stepped
    exact .inl ⟨rfl, rfl⟩
  | network c event =>
    obtain ⟨-, conn, -, rfl⟩ := network_cases stepped
    exact .inl ⟨rfl, rfl⟩

/-- A run that ends in the first lap of the ring, before any segment is taken, is careful. -/
theorem careful_of_lap {labels : List ServerStep} {last : ProxyServer}
    (ran : (serverMachine setting).run {} labels = some last)
    (lap : last.threadpool.queue.writeId ≤ size) (untaken : last.threadpool.taken = []) :
    (serverMachine setting).Meets (fun server => server.Careful setting) {} labels := by
  -- The ring takes no ids and no segments back, so all earlier steps are as early.
  have back : ∀ (server : ProxyServer) label next,
      next.threadpool.queue.writeId ≤ size ∧ next.threadpool.taken = [] →
        (serverMachine setting).step server label = some next →
          server.threadpool.queue.writeId ≤ size ∧ server.threadpool.taken = [] := by
    intro server label next ⟨within, none_⟩ stepped
    rcases pool_of_step stepped with ⟨-, same⟩ | ⟨poolLabel, -, moved⟩
    · rw [← same]
      exact ⟨within, none_⟩
    · exact ⟨(Pool.writeId_le_of_step moved).trans within, Pool.untaken_of_step none_ moved⟩
  refine Machine.meets_of_ends back
    (fun server label next (custody : Custody server.threadpool) late stepped => ?_)
    Custody.start ran ⟨lap, untaken⟩
  have none_ := (back server label next late stepped).2
  rcases pool_of_step stepped with ⟨outside, same⟩ | ⟨poolLabel, contains, moved⟩
  · refine ⟨fun poolLabel contains => ?_, same ▸ custody⟩
    cases outside.symm.trans contains
  · have clear := custody.placed.grantsClear_of_lap late.1 moved
    refine ⟨fun other containsOther => ?_, custody.step clear moved⟩
    cases contains.symm.trans containsOther
    exact ⟨clear, Pool.announcesOnce_of_taken_eq_nil none_⟩

end ProxyServer

end EnhancedProxy
