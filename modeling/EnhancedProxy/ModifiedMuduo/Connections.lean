import EnhancedProxy.Library.Machine
import EnhancedProxy.ModifiedMuduo.EventLoopThreadPool
import Mathlib.Algebra.Group.Nat.Defs

/-! The connections of a server, which its loops pass to each other as functors. -/

namespace EnhancedProxy

/-- The functors that the loops of a server are given, with the connection that each holds. -/
inductive LoopFunctor
  | connectEstablished (conn : Nat)
  | removeConnectionInLoop (conn : Nat)
  | connectDestroyed (conn : Nat)
  deriving DecidableEq, Repr

/-- The connection that a functor holds. -/
def LoopFunctor.conn : LoopFunctor → Nat
  | .connectEstablished conn | .removeConnectionInLoop conn | .connectDestroyed conn => conn

/-- How far a `TcpConnection` has come. One that is being shut down still counts as connected, and
one whose `connectDestroyed` has run is destroyed. -/
inductive ConnectionState
  | connecting
  | connected
  | disconnected
  | destroyed
  deriving DecidableEq, Repr

/-- What the server uses of muduo's `TcpConnection` and `EventLoop`, whose code is not part of it. -/
structure Muduo where
  -- One connection.
  Tcp : Type
  -- The functors that the loops have not called yet.
  Loops : Type
  -- A connection as it is constructed.
  new : Tcp
  -- No result means that an assertion fails.
  connectEstablished : Tcp → Option Tcp
  connectDestroyed : Tcp → Option Tcp
  -- The connection as its close callback finds it. No result means that it does not end now.
  handleClose : Tcp → Option Tcp
  -- Loops that were given nothing.
  idle : Loops
  queueInLoop : Loops → (loop : Nat) → LoopFunctor → Loops
  -- The caller is in the thread of a loop. No result means that the functor is called at once.
  runInLoop : Loops → (current loop : Nat) → LoopFunctor → Option Loops
  -- The next functor that a loop calls, if there is one.
  nextFunctor : Loops → (loop : Nat) → Option (LoopFunctor × Loops)
  -- What the documentation speaks of.
  state : Tcp → ConnectionState
  pending : Loops → (loop : Nat) → List LoopFunctor

/-- What muduo documents: a connection is established once, closes only while it is connected and is
then destroyed once, and a loop calls the functors of other threads in order, each once, and those
of its own thread at once. -/
structure Muduo.Documented (muduo : Muduo) : Prop where
  new : muduo.state muduo.new = .connecting
  connectEstablished : ∀ tcp, muduo.state tcp = .connecting →
    ∃ after, muduo.connectEstablished tcp = some after ∧ muduo.state after = .connected
  connectDestroyed : ∀ tcp, muduo.state tcp = .disconnected →
    ∃ after, muduo.connectDestroyed tcp = some after ∧ muduo.state after = .destroyed
  handleClose : ∀ tcp after, muduo.handleClose tcp = some after →
    muduo.state tcp = .connected ∧ muduo.state after = .disconnected
  idle : ∀ loop, muduo.pending muduo.idle loop = []
  queueInLoop : ∀ loops loop functor, muduo.pending (muduo.queueInLoop loops loop functor) =
    Function.update (muduo.pending loops) loop (muduo.pending loops loop ++ [functor])
  runInLoop : ∀ loops current loop functor, muduo.runInLoop loops current loop functor =
    if current = loop then none else some (muduo.queueInLoop loops loop functor)
  nextFunctor : ∀ loops loop functor after, muduo.nextFunctor loops loop = some (functor, after) →
    ∃ rest, muduo.pending loops loop = functor :: rest ∧
      muduo.pending after = Function.update (muduo.pending loops) loop rest

/-- A muduo that keeps just this much. -/
def plainMuduo : Muduo where
  Tcp := ConnectionState
  Loops := Nat → List LoopFunctor
  new := .connecting
  connectEstablished
    | .connecting => some .connected
    | _ => none
  connectDestroyed
    | .connected | .disconnected => some .destroyed
    | _ => none
  handleClose
    | .connected => some .disconnected
    | _ => none
  idle _ := []
  queueInLoop loops loop functor := Function.update loops loop (loops loop ++ [functor])
  runInLoop loops current loop functor :=
    if current = loop then none
    else some (Function.update loops loop (loops loop ++ [functor]))
  nextFunctor loops loop :=
    match loops loop with
    | functor :: rest => some (functor, Function.update loops loop rest)
    | [] => none
  state := id
  pending := id

/-- It does what is documented. -/
theorem documented_plainMuduo : plainMuduo.Documented where
  new := rfl
  connectEstablished := by
    rintro _ rfl
    exact ⟨.connected, rfl, rfl⟩
  connectDestroyed := by
    rintro _ rfl
    exact ⟨.destroyed, rfl, rfl⟩
  handleClose tcp after closed := by
    -- Only a connection that is up can end.
    cases tcp with
    | connected =>
      cases closed
      exact ⟨rfl, rfl⟩
    | connecting | disconnected | destroyed => cases closed
  idle _ := rfl
  queueInLoop _ _ _ := rfl
  runInLoop _ _ _ _ := rfl
  nextFunctor loops loop functor after next := by
    -- The list of the loop begins with the functor.
    simp only [plainMuduo] at next
    split at next
    · rename_i first rest same
      cases next
      exact ⟨rest, same, rfl⟩
    · cases next

/-- A `TcpConnection` of the server, whose address is its number among all that were made. -/
structure ServerConnection (muduo : Muduo) where
  name : List Char
  loop : Nat
  tcp : muduo.Tcp := muduo.new

/-- A started `TcpServer`, with the connections it has made and the functors it has given to loops. -/
structure RunningServer (muduo : Muduo) extends TcpServer where
  name : List Char
  ipPort : List Char
  nextConnId : Nat := 1
  connections : List (List Char × Nat) := []
  conns : List (ServerConnection muduo) := []
  loops : muduo.Loops := muduo.idle
  -- An assertion of the server or of muduo has failed.
  failed : Bool := false

/-- The name of the connection with an id: `snprintf` fills at most 63 of the 64 bytes. -/
def connName (name ipPort : List Char) (id : Nat) : List Char :=
  name ++ ('-' :: ipPort ++ '#' :: Nat.toDigits 10 id).take 63

/-- What happens in the threads of a server. -/
inductive ServerEvent
  -- The base loop accepts a connection.
  | newConnection
  -- A loop calls the next of its functors.
  | functor (loop : Nat)
  -- The loop of a connection sees the connection end.
  | handleClose (conn : Nat)
  deriving DecidableEq, Repr

namespace RunningServer

variable {muduo : Muduo}

/-- The functors that a loop has not called yet. -/
def pending (server : RunningServer muduo) (loop : Nat) : List LoopFunctor :=
  muduo.pending server.loops loop

/-- Replace what muduo has of a connection. -/
def setTcp (server : RunningServer muduo) (conn : Nat) (tcp : muduo.Tcp) : RunningServer muduo :=
  { server with conns := server.conns.modify conn fun c => { c with tcp := tcp } }

/-- Call one of muduo's functions on a connection. -/
def onTcp (server : RunningServer muduo) (conn : Nat) (function : muduo.Tcp → Option muduo.Tcp) :
    RunningServer muduo :=
  match (server.conns[conn]?).bind fun connection => function connection.tcp with
  | some tcp => server.setTcp conn tcp
  | none => { server with failed := true }

/-- `removeConnectionInLoop`. -/
def removeConnectionInLoop (server : RunningServer muduo) (conn : Nat) : RunningServer muduo :=
  match server.conns[conn]? with
  | some connection =>
    let n := server.connections.countP (·.1 = connection.name)
    let server := { server with
      connections := server.connections.filter (·.1 ≠ connection.name) }
    -- The assertion that exactly one entry was erased.
    if n = 1 then
      { server with
        loops := muduo.queueInLoop server.loops connection.loop (.connectDestroyed conn) }
    else { server with failed := true }
  | none => { server with failed := true }

/-- Call a functor. -/
def call (server : RunningServer muduo) : LoopFunctor → RunningServer muduo
  | .connectEstablished conn => server.onTcp conn muduo.connectEstablished
  | .removeConnectionInLoop conn => server.removeConnectionInLoop conn
  | .connectDestroyed conn => server.onTcp conn muduo.connectDestroyed

/-- Give a functor to the `runInLoop` of a loop, in the thread of the current one. -/
def giveTo (server : RunningServer muduo) (current loop : Nat) (functor : LoopFunctor) :
    RunningServer muduo :=
  match muduo.runInLoop server.loops current loop functor with
  | some loops => { server with loops := loops }
  | none => server.call functor

/-- The part of `newConnection` that makes the connection and enters it in the map. -/
def register (server : RunningServer muduo) : RunningServer muduo :=
  let (threadPool, ioLoop) := server.threadPool.getNextLoop
  let connName := connName server.name server.ipPort server.nextConnId
  { server with
    threadPool := threadPool
    nextConnId := server.nextConnId + 1
    -- An entry of the same name is overwritten.
    connections :=
      (connName, server.conns.length) :: server.connections.filter (·.1 ≠ connName)
    conns := server.conns ++ [{ name := connName, loop := ioLoop }] }

/-- `newConnection`, up to the balancing among the workers. -/
def newConnection (server : RunningServer muduo) : RunningServer muduo :=
  server.register.giveTo server.threadPool.baseLoop server.threadPool.getNextLoop.2
    (.connectEstablished server.conns.length)

/-- `removeConnection`, which a loop calls as the close callback. -/
def removeConnection (server : RunningServer muduo) (current conn : Nat) : RunningServer muduo :=
  server.giveTo current server.threadPool.baseLoop (.removeConnectionInLoop conn)

/-- A connection ends, and its close callback is called in its loop. -/
def close (server : RunningServer muduo) (conn : Nat) : Option (RunningServer muduo) :=
  (server.conns[conn]?).bind fun connection =>
    (muduo.handleClose connection.tcp).map fun tcp =>
      (server.setTcp conn tcp).removeConnection connection.loop conn

/-- A loop calls its next functor. -/
def callNext (server : RunningServer muduo) (loop : Nat) : Option (RunningServer muduo) :=
  (muduo.nextFunctor server.loops loop).map fun (functor, loops) =>
    { server with loops := loops }.call functor

/-- A server that has started its threads. -/
def start (muduo : Muduo) (addresses : Addresses) (numThreads : Nat) (name ipPort : List Char) :
    RunningServer muduo where
  toTcpServer := ((TcpServer.new addresses numThreads).setThreadInitCallback
    (threadInitCallback addresses)).start addresses
  name := name
  ipPort := ipPort

end RunningServer

/-- The server as a machine. Nothing happens any more when an assertion has failed. -/
def runningServerMachine (muduo : Muduo) : Machine (RunningServer muduo) ServerEvent where
  step server event :=
    if server.failed then none
    else match event with
      | .newConnection => some server.newConnection
      | .functor loop => server.callNext loop
      | .handleClose conn => server.close conn

/-- The `int` of the next id does not overflow. -/
def RunningServer.Counts {muduo : Muduo} (server : RunningServer muduo) (event : ServerEvent) :
    Prop :=
  event = .newConnection → server.nextConnId + 1 < 2 ^ 31

end EnhancedProxy
