import EnhancedProxy.ProxyServer.Tunnel
import Mathlib.Logic.Function.Basic

/-! One client connection: its input buffer, its tunnels, and its tasks in `solveOnMessage`. -/

namespace EnhancedProxy

/-- Where a task of the thread pool stands in `solveOnMessage`. -/
inductive TaskPc
  -- Never enqueued.
  | absent
  -- Bound to its arguments, and waiting in the ring queue.
  | queued
  -- Before the condition of the `while` loop.
  | loopHead
  -- Before `GetMethod` is compared and the cache is read.
  | readCache
  -- Before the response is sent to the client.
  | answer (content : Bytes)
  -- Before the answered request is retrieved and erased.
  | dropAnswered
  -- Before `!isCheck && conn->getContext().empty()`.
  | checkTunnel
  -- Before the tunnel is made and connects.
  | createTunnel
  -- Before the tunnel is added to the map.
  | addTunnel
  -- Before `!conn->getContext().empty()`.
  | checkContext
  -- Before the `any_cast` that binds `clientConn`.
  | castContext
  -- Before `pushCache`.
  | push
  -- Before the request is sent to the web server.
  | send
  -- Before the live buffer is copied to `http_`.
  | copyBuffer
  -- Before the forwarded request is retrieved and erased.
  | dropForwarded
  -- After the loop.
  | tail
  | finished
  deriving DecidableEq, Repr

/-- The arguments and local variables of one call of `solveOnMessage`. -/
structure Task where
  pc : TaskPc := .absent
  buff : Bytes := []
  context : HttpContext := {}
  info : Bool × Int := (false, 0)
  isCheck : Bool := false
  tunnel : Nat := 0
  clientConn : Nat := 0
  http : Bytes := []
  deriving DecidableEq, Repr

namespace Task

/-- The first `info.second` bytes of the task's own copy. -/
def request (task : Task) : Bytes := task.buff.take task.info.2.toNat

/-- The condition of the loop: `parseRequest` runs only where the tests before it do not decide. -/
def loopHead (task : Task) (connected : Bool) : Task :=
  -- The tunnel was created in the last pass, and the request has been parsed already.
  if task.isCheck then { task with pc := .readCache }
  else if connected then
    let (context, info) := parseRequest task.context task.buff
    { task with
      context := context
      info := info
      pc := if info.1 then .readCache else .tail }
  -- The client has gone, and nothing is parsed.
  else { task with pc := .tail }

/-- A `Get` request with nonempty content in the cache is answered from it. -/
def readCache (task : Task) (content : Bytes) : Task :=
  if task.context.requestMethod = getMethod ∧ content ≠ [] then
    { task with pc := .answer (task.context.createResponse content) }
  -- A miss, or a request that is never looked up.
  else { task with pc := .checkTunnel }

/-- The end of a pass: erase the request, reset the context, and go on with the loop. -/
def drop (task : Task) : Task :=
  { task with
    buff := task.buff.drop task.info.2.toNat
    context := task.context.reset
    isCheck := false
    pc := .loopHead }

/-- After the test of the loop, a task is before the cache or after the loop. -/
theorem loopHead_pc (task : Task) (connected : Bool) :
    (task.loopHead connected).pc = .readCache ∨ (task.loopHead connected).pc = .tail := by
  -- The condition decides between the body of the loop and what follows it.
  unfold loopHead
  dsimp only
  split_ifs <;> simp

end Task

/-- A request that was sent to a web server through a tunnel, or answered from the cache. -/
inductive Handled
  | forwarded (tunnel : Nat) (url bytes : Bytes)
  | answered (content bytes : Bytes)
  deriving DecidableEq, Repr

/-- The bytes of the handled request. -/
def Handled.bytes : Handled → Bytes
  | .forwarded _ _ bytes => bytes
  | .answered _ bytes => bytes

/-- What ends the process, or leaves its behaviour undefined. -/
inductive Fault
  -- `any_cast` of an empty context.
  | badAnyCast
  -- `clientConn` after the context it refers into was replaced.
  | danglingReference
  -- A null pointer in the map of tunnels.
  | nullTunnel
  -- A range or a length made of a negative `int`.
  | badRange
  -- The assertion that `http_` and `http` are equal.
  | assertion
  -- `front` of an empty queue in the relay.
  | emptyQueue
  deriving DecidableEq, Repr

/-- One client connection with its tunnels and tasks, and the history of what they did.
The map of tunnels holds nothing, a null pointer, or a tunnel under the connection's name. The
history keeps the client's bytes, the requests handled, the urls pushed with the tunnel they were
pushed to, and for each `retrieve` the bytes asked for and those held. -/
structure Connection where
  connected : Bool := true
  buf : Bytes := []
  context : Option Nat := none
  tunnelEntry : Option (Option Nat) := none
  tunnels : Nat → Relay := fun _ => {}
  tunnelCount : Nat := 0
  tasks : Nat → Task := fun _ => {}
  taskCount : Nat := 0
  fault : Option Fault := none
  delivered : Bytes := []
  handled : List Handled := []
  pushed : List (Nat × Bytes) := []
  retrieved : List (Nat × Nat) := []

/-- What happens to a connection: the client's bytes, one atomic step of a task with what the cache
would answer, a response of a web server, and the connections that come up and go down. -/
inductive ConnectionStep
  | deliver (chunk : Bytes)
  | work (i : Nat) (content : Bytes)
  | respond (k : Nat) (chunk : Bytes)
  | backendUp (k : Nat)
  | backendDown (k : Nat)
  | clientDown
  deriving DecidableEq, Repr

namespace Connection

/-- Replace one task. -/
def set (conn : Connection) (i : Nat) (task : Task) : Connection :=
  { conn with tasks := Function.update conn.tasks i task }

/-- The process ends, or nothing more can be said about it. -/
def fail (conn : Connection) (fault : Fault) : Connection := { conn with fault := some fault }

/-- `onServerMessage`: the new bytes are in the buffer, and a task is bound to a copy of it all. -/
def onServerMessage (conn : Connection) (chunk : Bytes) : Connection :=
  -- Nothing of the live buffer is consumed here.
  let buf := conn.buf ++ chunk
  { conn with
    buf := buf
    delivered := conn.delivered ++ chunk
    tasks := Function.update conn.tasks conn.taskCount { pc := .queued, buff := buf }
    taskCount := conn.taskCount + 1 }

/-- `retrieve` of the live buffer. A length beyond its end empties it. -/
def retrieve (conn : Connection) (len : Nat) : Connection :=
  { conn with
    buf := conn.buf.drop len
    retrieved := conn.retrieved ++ [(len, conn.buf.length)] }

/-- The test before the branch that creates a tunnel. -/
def checkTunnel (conn : Connection) (i : Nat) : Connection :=
  let task := conn.tasks i
  if !task.isCheck ∧ conn.context = none then conn.set i { task with pc := .createTunnel }
  else conn.set i { task with pc := .checkContext }

/-- Create a tunnel. From here on its backend connection may come up. -/
def createTunnel (conn : Connection) (i : Nat) : Connection :=
  { conn.set i { conn.tasks i with tunnel := conn.tunnelCount, pc := .addTunnel } with
    tunnels := Function.update conn.tunnels conn.tunnelCount {}
    tunnelCount := conn.tunnelCount + 1 }

/-- Add the tunnel to the map, over any other one under the connection's name. -/
def addTunnel (conn : Connection) (i : Nat) : Connection :=
  let task := conn.tasks i
  { conn.set i { task with isCheck := true, pc := .loopHead } with
    tunnelEntry := some (some task.tunnel) }

/-- `pushCache` on the tunnel in the map. A missing entry becomes a null pointer first. -/
def push (conn : Connection) (i : Nat) : Connection :=
  let task := conn.tasks i
  match conn.tunnelEntry with
  | some (some k) =>
    let relay := conn.tunnels k
    let pushedTunnel := relay.tunnel.pushCache task.context.requestUrl !task.context.hasCookie
    { conn.set i { task with pc := .send } with
      tunnels := Function.update conn.tunnels k { relay with tunnel := pushedTunnel }
      pushed := conn.pushed ++ [(k, task.context.requestUrl)] }
  -- `tunnels[conn->name()]` makes a null pointer for a missing name, and calls through it.
  | _ => { conn with tunnelEntry := some none }.fail .nullTunnel

/-- `clientConn->send`. The reference is into the context, and dangles once that is replaced. -/
def send (conn : Connection) (i : Nat) : Connection :=
  let task := conn.tasks i
  if conn.context ≠ some task.clientConn then conn.fail .danglingReference
  -- A negative length becomes a size beyond all memory.
  else if task.info.2 < 0 then conn.fail .badRange
  else
    { conn.set i { task with pc := .copyBuffer } with
      handled := conn.handled ++
        [.forwarded task.clientConn task.context.requestUrl task.request] }

/-- Retrieve and erase an answered request. -/
def dropAnswered (conn : Connection) (i : Nat) : Connection :=
  let task := conn.tasks i
  let after := conn.retrieve (toUnsigned64 task.info.2)
  -- `begin() + info.second` would lie before the beginning.
  if task.info.2 < 0 then after.fail .badRange else after.set i task.drop

/-- Retrieve and erase a forwarded request, and compare `http_` with `http`. -/
def dropForwarded (assertions : Bool) (conn : Connection) (i : Nat) : Connection :=
  let task := conn.tasks i
  let after := (conn.retrieve (toUnsigned64 task.info.2)).set i task.drop
  -- `http_` is the whole live buffer, and `http` is the request alone.
  if assertions ∧ task.http ≠ task.request then after.fail .assertion else after

/-- What follows the loop: a connection with more than 10 MiB still buffered is closed. -/
def tail (conn : Connection) (i : Nat) : Connection :=
  let after := conn.set i { conn.tasks i with pc := .finished }
  if conn.buf.length > 1024 * 1024 * 10 then
    -- `disconnect` through the null pointer.
    if conn.tunnelEntry = some none then conn.fail .nullTunnel
    else { after with tunnelEntry := none, connected := false }
  else after

/-- The next atomic step of a task. -/
def work (assertions : Bool) (conn : Connection) (i : Nat) (content : Bytes) :
    Option Connection :=
  let task := conn.tasks i
  match task.pc with
  | .absent => none
  | .queued => some (conn.set i { task with pc := .loopHead })
  | .loopHead => some (conn.set i (task.loopHead conn.connected))
  | .readCache => some (conn.set i (task.readCache content))
  | .answer response =>
    some { conn.set i { task with pc := .dropAnswered } with
      handled := conn.handled ++ [.answered response task.request] }
  | .dropAnswered => some (conn.dropAnswered i)
  | .checkTunnel => some (conn.checkTunnel i)
  | .createTunnel => some (conn.createTunnel i)
  | .addTunnel => some (conn.addTunnel i)
  | .checkContext =>
    some (conn.set i { task with pc := if conn.context = none then .loopHead else .castContext })
  -- The context is read once more, and may have been emptied since.
  | .castContext =>
    match conn.context with
    | none => some (conn.fail .badAnyCast)
    | some k => some (conn.set i { task with clientConn := k, pc := .push })
  | .push => some (conn.push i)
  | .send => some (conn.send i)
  -- `http_` runs from `peek` to `beginWrite`, the whole of the live buffer.
  | .copyBuffer => some (conn.set i { task with http := conn.buf, pc := .dropForwarded })
  | .dropForwarded => some (conn.dropForwarded assertions i)
  | .tail => some (conn.tail i)
  | .finished => none

/-- A chunk from a web server reaches the tunnel's relay. -/
def respond (memory : RelayMemory) (conn : Connection) (k : Nat) (chunk : Bytes) : Connection :=
  match (relayMachine memory).step (conn.tunnels k) chunk with
  | some relay => { conn with tunnels := Function.update conn.tunnels k relay }
  | none => conn.fail .emptyQueue

/-- `onServerConnection` for a connection that has gone down. -/
def onServerConnectionDown (conn : Connection) : Connection :=
  if conn.tunnelEntry = some none then conn.fail .nullTunnel
  else { conn with connected := false, tunnelEntry := none }

variable {conn : Connection} {i j : Nat} {task : Task}

/-- The task that is replaced is the new one. -/
theorem set_own : (conn.set i task).tasks i = task := Function.update_self _ _ _

/-- The other tasks stay as they are. -/
theorem set_other (other : j ≠ i) : (conn.set i task).tasks j = conn.tasks j :=
  Function.update_of_ne other _ _

/-- A replaced task was enqueued before, so those never enqueued are untouched. -/
theorem fresh_set (fresh : ∀ j, conn.taskCount ≤ j → (conn.tasks j).pc = .absent)
    (present : (conn.tasks i).pc ≠ .absent) (late : conn.taskCount ≤ j) :
    ((conn.set i task).tasks j).pc = .absent := by
  -- The task that is replaced has a place in the code.
  have other : j ≠ i := by
    intro same
    exact present (same ▸ fresh j late)
  rw [set_other other]
  exact fresh j late

/-- The new task holds a copy of the whole buffer. -/
theorem onServerMessage_new (conn : Connection) (chunk : Bytes) :
    (conn.onServerMessage chunk).tasks conn.taskCount =
      { pc := .queued, buff := conn.buf ++ chunk } :=
  Function.update_self _ _ _

/-- The tasks enqueued before stay as they are. -/
theorem onServerMessage_other (chunk : Bytes) (other : j ≠ conn.taskCount) :
    (conn.onServerMessage chunk).tasks j = conn.tasks j :=
  Function.update_of_ne other _ _

/-- The tasks behind the new one are still to be enqueued. -/
theorem fresh_onServerMessage (fresh : ∀ j, conn.taskCount ≤ j → (conn.tasks j).pc = .absent)
    (chunk : Bytes) (late : (conn.onServerMessage chunk).taskCount ≤ j) :
    ((conn.onServerMessage chunk).tasks j).pc = .absent := by
  -- The count has grown by the new task.
  have behind : conn.taskCount + 1 ≤ j := late
  rw [onServerMessage_other chunk (by omega)]
  exact fresh j (by omega)

end Connection

/-- The connection as a machine, until a fault. -/
def connectionMachine (memory : RelayMemory) (assertions : Bool) :
    Machine Connection ConnectionStep where
  step conn label :=
    if conn.fault.isSome then none
    else
      match label with
      | .deliver chunk => some (conn.onServerMessage chunk)
      | .work i content => conn.work assertions i content
      | .respond k chunk => if k < conn.tunnelCount then some (conn.respond memory k chunk) else none
      -- `onClientConnection` sets the context, and `teardown` empties it and shuts down.
      | .backendUp k => if k < conn.tunnelCount then some { conn with context := some k } else none
      | .backendDown k =>
        if k < conn.tunnelCount then some { conn with context := none, connected := false }
        else none
      | .clientDown => some conn.onServerConnectionDown

end EnhancedProxy
