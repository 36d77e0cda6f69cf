import EnhancedProxy.Library.Ownership
import EnhancedProxy.ProxyServer.Dispatch

/-! Who keeps the connections and tunnels of a proxy server: its shared pointers, step by step. -/

namespace EnhancedProxy

/-- What a `shared_ptr` points to: the `TcpConnection` of client `c`, one of its tunnels, or the
`TcpConnection` of that tunnel to the web server. -/
inductive ServerObject
  | client (c : Nat)
  | tunnel (c j : Nat)
  | backend (c j : Nat)
  deriving DecidableEq, Repr

/-- A place that holds a `shared_ptr`, also inside a bound function. -/
inductive PointerPlace
  -- The argument of `Producer::write`.
  | writing (p : Nat)
  -- A slot of the ring.
  | slot (s : Nat)
  -- The local `entry` of `runInMyThread`.
  | entry (k : Nat)
  -- The local `tunnel` of the call that a thread is in.
  | local_ (k : Nat)
  -- The entry in `tunnels` for client `c`.
  | mapEntry (c : Nat)
  -- `serverConn_` of a tunnel.
  | serverConn (c j : Nat)
  -- `clientConn_` of a tunnel.
  | clientConn (c j : Nat)
  -- The connection callback of `client_` of a tunnel.
  | connectionCallback (c j : Nat)
  -- The message callback of `client_` of a tunnel.
  | messageCallback (c j : Nat)
  -- The callbacks of the connection to the web server.
  | backendConnectionCallback (c j : Nat)
  | backendMessageCallback (c j : Nat)
  -- The context of a client connection.
  | context (c : Nat)
  -- Anywhere else: in the map of the `TcpServer`, in a `TcpClient`, in a functor of a loop.
  | elsewhere (n : Nat)
  deriving DecidableEq, Repr

/-- The object that a place is a member of. -/
def PointerPlace.owner : PointerPlace → Option ServerObject
  | .serverConn c j | .clientConn c j | .connectionCallback c j | .messageCallback c j =>
    some (.tunnel c j)
  | .backendConnectionCallback c j | .backendMessageCallback c j => some (.backend c j)
  | .context c => some (.client c)
  | _ => none

/-- The shared pointers of a server. -/
abbrev ServerPointers := Pointers PointerPlace ServerObject

namespace ServerPointers

/-- `new Tunnel`, and its `setup`, in thread `k`. -/
def createTunnel (pointers : ServerPointers) (k c j : Nat) : ServerPointers :=
  let made := (pointers.create (.tunnel c j)).copy (.serverConn c j) (.entry k)
  let named := made.assign (.local_ k) (.tunnel c j)
  -- Each callback is bound to `shared_from_this()`.
  (named.assign (.connectionCallback c j) (.tunnel c j)).assign (.messageCallback c j)
    (.tunnel c j)

/-- `tunnels[conn->name()] = tunnel`, and the end of the block. -/
def addTunnel (pointers : ServerPointers) (k c : Nat) : ServerPointers :=
  (pointers.copy (.mapEntry c) (.local_ k)).reset (.local_ k)

/-- `client_` hands its callbacks to the connection it has made, and `onClientConnection` keeps
that. -/
def backendUp (pointers : ServerPointers) (c j : Nat) : ServerPointers :=
  let made := pointers.create (.backend c j)
  let bound := (made.copy (.backendConnectionCallback c j) (.connectionCallback c j)).copy
    (.backendMessageCallback c j) (.messageCallback c j)
  (bound.assign (.context c) (.backend c j)).assign (.clientConn c j) (.backend c j)

/-- `teardown`. The connection callback that it replaces is not the one of `client_`. -/
def teardown (pointers : ServerPointers) (c j : Nat) : ServerPointers :=
  (((pointers.reset (.backendConnectionCallback c j)).reset (.messageCallback c j)).reset
    (.context c)).reset (.clientConn c j)

end ServerPointers

/-- A server with its shared pointers. -/
structure OwnedServer where
  server : ProxyServer := {}
  pointers : ServerPointers := {}

/-- What happens to a server and its shared pointers. -/
inductive OwnershipStep
  | server (label : ServerStep)
  -- The `TcpServer` makes the connection of client `c`.
  | accept (n c : Nat)
  -- Something else copies a pointer, or lets its own go.
  | share (n : Nat) (place : PointerPlace)
  | drop (n : Nat)
  -- The last pointer has gone.
  | destroy (object : ServerObject)
  deriving DecidableEq, Repr

namespace OwnedServer

/-- Only a connection that is there receives a message, and a tunnel connects once. -/
def Admits (state : OwnedServer) : ServerStep → Prop
  | .message c _ => state.pointers.Live (.client c)
  | .network c (.backendUp j) => .backend c j ∉ state.pointers.created
  | _ => True

instance (state : OwnedServer) : (label : ServerStep) → Decidable (state.Admits label)
  | .message _ _ => inferInstanceAs (Decidable (Pointers.Live _ _))
  | .network _ (.backendUp _) => inferInstanceAs (Decidable (_ ∉ _))
  | .startThreads | .writeSlot _ | .callRead _ | .readSlot _ | .work _ _ | .network _ .clientDown
  | .network _ (.deliver _) | .network _ (.work _ _) | .network _ (.respond _ _)
  | .network _ (.backendDown _) => inferInstanceAs (Decidable True)

/-- What the next step of a call does to the pointers, in thread `k`. -/
def solve (state : OwnedServer) (next : ProxyServer) (k c i : Nat) : ServerPointers :=
  let conn := state.server.conns c
  match (conn.tasks i).pc with
  | .createTunnel => state.pointers.createTunnel k c conn.tunnelCount
  | .addTunnel => state.pointers.addTunnel k c
  | .tail =>
    -- `erase`, if the connection is closed.
    if (next.conns c).tunnelEntry = none then state.pointers.reset (.mapEntry c)
    else state.pointers
  | _ => state.pointers

/-- What a step of the server does to the pointers. -/
def handle (setting : ServerSetting) (state : OwnedServer) (next : ProxyServer) :
    ServerStep → ServerPointers
  | .startThreads | .callRead _ => state.pointers
  | .message c _ =>
    match setting.producerOf c with
    | none => state.pointers
    | some p =>
      -- A call that is refused returns at once, and its argument goes.
      if (next.threadpool.producers p).writing.isSome then
        state.pointers.assign (.writing p) (.client c)
      else state.pointers
  | .writeSlot p =>
    let id := (state.server.threadpool.producers p).curWriteId
    (state.pointers.copy (.slot (id % CircleQueue.size)) (.writing p)).reset (.writing p)
  | .readSlot k =>
    let id := (state.server.threadpool.consumers k).readId
    match state.server.threadpool.queue.read id with
    | none => state.pointers
    -- The slot keeps what is copied from it.
    | some _ => state.pointers.copy (.entry k) (.slot (id % CircleQueue.size))
  | .work k _ =>
    match state.server.running k with
    | none => state.pointers
    | some (c, i) =>
      let pointers := state.solve next k c i
      if next.running k = none then pointers.reset (.entry k) else pointers
  | .network c event =>
    match event with
    | .backendUp j => state.pointers.backendUp c j
    | .backendDown j => state.pointers.teardown c j
    | .clientDown => state.pointers.reset (.mapEntry c)
    | _ => state.pointers

end OwnedServer

/-- A server with its shared pointers as a machine. -/
def ownershipMachine (setting : ServerSetting) : Machine OwnedServer OwnershipStep where
  step state
    | .server label =>
      if state.Admits label then
        ((serverMachine setting).step state.server label).map fun next =>
          { server := next, pointers := state.handle setting next label }
      else none
    | .accept n c =>
      if .client c ∉ state.pointers.created then
        some { state with
          pointers := (state.pointers.create (.client c)).assign (.elsewhere n) (.client c) }
      else none
    | .share n place =>
      some { state with pointers := state.pointers.copy (.elsewhere n) place }
    | .drop n => some { state with pointers := state.pointers.reset (.elsewhere n) }
    | .destroy object =>
      (state.pointers.destroy PointerPlace.owner object).map fun pointers =>
        { state with pointers := pointers }

end EnhancedProxy
