import EnhancedProxy.Library.Machine
import Mathlib.Logic.Function.Basic

/-! The worker processes, the mutex byte and the eventfds they share, and their atomic steps. -/

namespace EnhancedProxy

/-- Where a worker process stands, inside or between the callbacks of its event loop. -/
inductive WorkerPc
  -- Not forked yet.
  | absent
  -- Constructed, with `WorkerProcess::start` still to be called.
  | constructed
  -- In the event loop, between two callbacks.
  | looping
  -- In `ProxyServer::start`, before `tryLock`.
  | starting
  -- In `ProxyServer::start`, after a `tryLock` that succeeded.
  | locked
  -- In `newConnection`, with the decision taken to hand over.
  | handingOver
  -- In `newConnection`, before `notifyOtherWorkerToListen`.
  | notifying
  -- In `acceptorScheduling`, before the assertion of `unlock`.
  | unlocking (eventFd : Int)
  -- In `acceptorScheduling`, before the compare-and-swap of `unlock`.
  | releasing (eventFd : Int)
  -- In `acceptorScheduling`, before `write`.
  | writing (eventFd : Int)
  -- Ended by a failed assertion or an uncaught exception.
  | dead
  deriving DecidableEq, Repr

/-- One worker process: its `ProcessMutex`, `ProxyServer`, `TcpServer` and `Acceptor`.
A new worker's `owner` and `startListenTime` are uninitialized. -/
structure Worker where
  pc : WorkerPc := .absent
  owner : Bool := false
  isStart : Bool := false
  started : Bool := false
  listenning : Bool := false
  acceptorStartListenTime : Int := -1
  startListenTime : Int := 0
  connections : Nat := 0
  notifyOtherWorkerToListen : Option Int := none
  deriving DecidableEq, Repr

namespace Worker

/-- `MAX_CONNECTIONS_NUM`. -/
def maxConnectionsNum : Nat := 512

/-- A worker whose process has ended accepts nothing any more. -/
def abort (worker : Worker) : Worker := { worker with pc := .dead, listenning := false }

/-- `Acceptor::listen`, at the given time. -/
def listen (worker : Worker) (now : Int) : Worker :=
  { worker with listenning := true, acceptorStartListenTime := now }

/-- `TcpServer::start`. Only its first call starts to listen. -/
def tcpStart (worker : Worker) (now : Int) : Worker :=
  if worker.started then worker
  -- The assertion that the acceptor is not listening.
  else if worker.listenning then worker.abort
  else { worker.listen now with started := true }

/-- `acceptorSchedulingHandler`, which switches the acceptor off or on. -/
def acceptorSchedulingHandler (worker : Worker) (now : Int) : Worker :=
  if worker.listenning then { worker with listenning := false }
  else { worker with listenning := true, startListenTime := now }

/-- `ProxyServer::enableListen`. -/
def enableListen (worker : Worker) (now : Int) : Worker :=
  -- Only the first call starts the server, and every later one switches the acceptor.
  if worker.isStart then worker.acceptorSchedulingHandler now
  else { worker.tcpStart now with isStart := true }

/-- The test under which `newConnection` hands over. -/
def overloaded (worker : Worker) (now : Int) : Bool :=
  worker.connections > maxConnectionsNum ∧ now - worker.startListenTime > 10

end Worker

/-- What the processes share, with the worker whose `tryLock` set the byte, and all that ever did. -/
structure Cluster where
  mutexByte : Nat := 0
  eventfds : Nat → Int
  counters : Nat → Nat := fun _ => 0
  workers : Nat → Worker := fun _ => {}
  holder : Option Nat := none
  wins : List Nat := []

/-- What is fixed for a run: the number of processes, and each worker's descriptor table, which
says for which worker an eventfd was made. -/
structure Setting where
  processNum : Nat
  descriptors : Nat → Int → Option Nat

/-- The atomic steps of worker `i`, and those of the processes around the workers. -/
inductive ClusterStep
  -- The master stores a descriptor and forks a worker with uninitialized fields.
  | fork (i : Nat) (fd : Int) (owner : Bool) (startListenTime : Int)
  -- `WorkerProcess::start` up to `ProxyServer::start`.
  | start (i : Nat)
  -- `EventHandler` up to `ProxyServer::start`.
  | wake (i : Nat)
  | tryLock (i : Nat)
  | enableListen (i : Nat) (now : Int)
  -- A new connection, up to the decision of `newConnection`.
  | newConnection (i : Nat) (now : Int)
  | removeConnection (i : Nat)
  -- `acceptorSchedulingHandler` in `newConnection`.
  | schedule (i : Nat) (now : Int)
  | notifyOther (i : Nat)
  | unlockAssert (i : Nat)
  | unlockSwap (i : Nat)
  | writeEvent (i : Nat)
  -- Somebody else adds to an eventfd.
  | stray (k value : Nat)
  deriving DecidableEq, Repr

namespace Cluster

/-- Before any worker is forked, with whatever the shared memory of the descriptors holds. -/
def new (eventfds : Nat → Int) : Cluster := { eventfds := eventfds }

/-- Replace one worker. -/
def set (cluster : Cluster) (i : Nat) (worker : Worker) : Cluster :=
  { cluster with workers := Function.update cluster.workers i worker }

/-- `ProcessMutex::tryLock`, then back to the event loop if it fails. -/
def tryLock (cluster : Cluster) (i : Nat) : Cluster :=
  let worker := cluster.workers i
  -- The compare-and-swap from 0 to 1.
  if cluster.mutexByte = 0 then
    { cluster.set i { worker with owner := true, pc := .locked } with
      mutexByte := 1
      holder := some i
      wins := i :: cluster.wins }
  else cluster.set i { worker with pc := .looping }

/-- `EventHandler`: read the eventfd, install the handler, and go on to `ProxyServer::start`. -/
def eventHandler (setting : Setting) (cluster : Cluster) (i : Nat) : Cluster :=
  let worker := cluster.workers i
  -- A counter that is zero makes `read` return -1.
  if cluster.counters i = 0 then cluster.set i worker.abort
  else
    { cluster.set i
        { worker with
          notifyOtherWorkerToListen := some (cluster.eventfds ((i + 1) % setting.processNum))
          pc := .starting } with
      counters := Function.update cluster.counters i 0 }

/-- `newConnection`, up to the decision whether to hand over. -/
def newConnection (cluster : Cluster) (i : Nat) (now : Int) : Cluster :=
  let worker := { cluster.workers i with connections := (cluster.workers i).connections + 1 }
  -- The new connection is counted before the test.
  cluster.set i (if worker.overloaded now then { worker with pc := .handingOver } else worker)

/-- A connection that worker `i` accepts at this time makes it decide to hand over. -/
def HandsOver (cluster : Cluster) (i : Nat) (now : Int) : Prop :=
  (cluster.workers i).pc = .looping ∧ (cluster.workers i).listenning ∧
    { cluster.workers i with connections := (cluster.workers i).connections + 1 }.overloaded now

/-- `notifyOtherWorkerToListen()`: an empty `std::function` throws, and nothing catches it. -/
def notifyOther (cluster : Cluster) (i : Nat) : Cluster :=
  let worker := cluster.workers i
  match worker.notifyOtherWorkerToListen with
  -- Only `EventHandler` ever installs the function.
  | none => cluster.set i worker.abort
  | some eventFd => cluster.set i { worker with pc := .unlocking eventFd }

/-- `unlock` up to its compare-and-swap. -/
def unlockAssert (cluster : Cluster) (i : Nat) (eventFd : Int) : Cluster :=
  let worker := cluster.workers i
  if worker.owner ∧ cluster.mutexByte = 1 then
    cluster.set i { worker with owner := false, pc := .releasing eventFd }
  -- The assertion of `unlock` fails.
  else cluster.set i worker.abort

/-- The compare-and-swap of `unlock`. -/
def unlockSwap (cluster : Cluster) (i : Nat) (eventFd : Int) : Cluster :=
  let after := cluster.set i { cluster.workers i with pc := .writing eventFd }
  -- The compare-and-swap from 1 to 0.
  if cluster.mutexByte = 1 then { after with mutexByte := 0, holder := none } else after

/-- The `write` of `acceptorScheduling`: the value is the worker's own id. -/
def writeEvent (setting : Setting) (cluster : Cluster) (i : Nat) (eventFd : Int) : Cluster :=
  let after := cluster.set i { cluster.workers i with pc := .looping }
  match setting.descriptors i eventFd with
  | some k => { after with counters := Function.update after.counters k (after.counters k + i) }
  -- The number names no eventfd of this process, and the write has no effect.
  | none => after

end Cluster

/-- The workers as a machine. A step is refused where the worker does not stand before it. -/
def clusterMachine (setting : Setting) : Machine Cluster ClusterStep where
  step cluster
    | .fork i fd owner startListenTime =>
      if (cluster.workers i).pc = .absent ∧ i < setting.processNum - 1 then
        some { cluster.set i
            { pc := .constructed, owner := owner, startListenTime := startListenTime } with
          eventfds := Function.update cluster.eventfds i fd }
      else none
    | .start i =>
      if (cluster.workers i).pc = .constructed then
        some (cluster.set i { cluster.workers i with pc := .starting })
      else none
    | .wake i =>
      if (cluster.workers i).pc = .looping then some (cluster.eventHandler setting i) else none
    | .tryLock i =>
      if (cluster.workers i).pc = .starting then some (cluster.tryLock i) else none
    | .enableListen i now =>
      if (cluster.workers i).pc = .locked then
        some (cluster.set i ({ cluster.workers i with pc := .looping }.enableListen now))
      else none
    | .newConnection i now =>
      -- The acceptor's channel is read only while it is listening.
      if (cluster.workers i).pc = .looping ∧ (cluster.workers i).listenning then
        some (cluster.newConnection i now)
      else none
    | .removeConnection i =>
      if (cluster.workers i).pc = .looping ∧ 0 < (cluster.workers i).connections then
        some (cluster.set i
          { cluster.workers i with connections := (cluster.workers i).connections - 1 })
      else none
    | .schedule i now =>
      if (cluster.workers i).pc = .handingOver then
        some (cluster.set i
          { (cluster.workers i).acceptorSchedulingHandler now with pc := .notifying })
      else none
    | .notifyOther i =>
      if (cluster.workers i).pc = .notifying then some (cluster.notifyOther i) else none
    | .unlockAssert i =>
      match (cluster.workers i).pc with
      | .unlocking eventFd => some (cluster.unlockAssert i eventFd)
      | _ => none
    | .unlockSwap i =>
      match (cluster.workers i).pc with
      | .releasing eventFd => some (cluster.unlockSwap i eventFd)
      | _ => none
    | .writeEvent i =>
      match (cluster.workers i).pc with
      | .writing eventFd => some (cluster.writeEvent setting i eventFd)
      | _ => none
    | .stray k value =>
      some { cluster with
        counters := Function.update cluster.counters k (cluster.counters k + value) }

namespace Cluster

variable {setting : Setting} {cluster next : Cluster} {i : Nat} {now : Int}

-- A step is taken exactly from the place it is written for, and leads to one next state.

theorem step_fork {fd startListenTime : Int} {owner : Bool} :
    (clusterMachine setting).step cluster (.fork i fd owner startListenTime) = some next ↔
      ((cluster.workers i).pc = .absent ∧ i < setting.processNum - 1) ∧
        { cluster.set i
            { pc := .constructed, owner := owner, startListenTime := startListenTime } with
          eventfds := Function.update cluster.eventfds i fd } = next := by
  simp only [clusterMachine, Option.ite_none_right_eq_some, Option.some.injEq]

theorem step_start :
    (clusterMachine setting).step cluster (.start i) = some next ↔
      (cluster.workers i).pc = .constructed ∧
        cluster.set i { cluster.workers i with pc := .starting } = next := by
  simp only [clusterMachine, Option.ite_none_right_eq_some, Option.some.injEq]

theorem step_wake :
    (clusterMachine setting).step cluster (.wake i) = some next ↔
      (cluster.workers i).pc = .looping ∧ cluster.eventHandler setting i = next := by
  simp only [clusterMachine, Option.ite_none_right_eq_some, Option.some.injEq]

theorem step_tryLock :
    (clusterMachine setting).step cluster (.tryLock i) = some next ↔
      (cluster.workers i).pc = .starting ∧ cluster.tryLock i = next := by
  simp only [clusterMachine, Option.ite_none_right_eq_some, Option.some.injEq]

theorem step_enableListen :
    (clusterMachine setting).step cluster (.enableListen i now) = some next ↔
      (cluster.workers i).pc = .locked ∧
        cluster.set i ({ cluster.workers i with pc := .looping }.enableListen now) = next := by
  simp only [clusterMachine, Option.ite_none_right_eq_some, Option.some.injEq]

theorem step_newConnection :
    (clusterMachine setting).step cluster (.newConnection i now) = some next ↔
      ((cluster.workers i).pc = .looping ∧ (cluster.workers i).listenning) ∧
        cluster.newConnection i now = next := by
  simp only [clusterMachine, Option.ite_none_right_eq_some, Option.some.injEq]

theorem step_removeConnection :
    (clusterMachine setting).step cluster (.removeConnection i) = some next ↔
      ((cluster.workers i).pc = .looping ∧ 0 < (cluster.workers i).connections) ∧
        cluster.set i
          { cluster.workers i with connections := (cluster.workers i).connections - 1 } = next := by
  simp only [clusterMachine, Option.ite_none_right_eq_some, Option.some.injEq]

theorem step_schedule :
    (clusterMachine setting).step cluster (.schedule i now) = some next ↔
      (cluster.workers i).pc = .handingOver ∧
        cluster.set i
          { (cluster.workers i).acceptorSchedulingHandler now with pc := .notifying } = next := by
  simp only [clusterMachine, Option.ite_none_right_eq_some, Option.some.injEq]

theorem step_notifyOther :
    (clusterMachine setting).step cluster (.notifyOther i) = some next ↔
      (cluster.workers i).pc = .notifying ∧ cluster.notifyOther i = next := by
  simp only [clusterMachine, Option.ite_none_right_eq_some, Option.some.injEq]

theorem step_unlockAssert :
    (clusterMachine setting).step cluster (.unlockAssert i) = some next ↔
      ∃ eventFd, (cluster.workers i).pc = .unlocking eventFd ∧
        cluster.unlockAssert i eventFd = next := by
  cases here : (cluster.workers i).pc <;> simp [clusterMachine, here]

theorem step_unlockSwap :
    (clusterMachine setting).step cluster (.unlockSwap i) = some next ↔
      ∃ eventFd, (cluster.workers i).pc = .releasing eventFd ∧
        cluster.unlockSwap i eventFd = next := by
  cases here : (cluster.workers i).pc <;> simp [clusterMachine, here]

theorem step_writeEvent :
    (clusterMachine setting).step cluster (.writeEvent i) = some next ↔
      ∃ eventFd, (cluster.workers i).pc = .writing eventFd ∧
        cluster.writeEvent setting i eventFd = next := by
  cases here : (cluster.workers i).pc <;> simp [clusterMachine, here]

theorem step_stray {k value : Nat} :
    (clusterMachine setting).step cluster (.stray k value) = some next ↔
      { cluster with
        counters := Function.update cluster.counters k (cluster.counters k + value) } = next := by
  simp only [clusterMachine, Option.some.injEq]

end Cluster

end EnhancedProxy
