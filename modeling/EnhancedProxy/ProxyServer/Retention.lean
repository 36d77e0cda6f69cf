import EnhancedProxy.ProxyServer.Lifetime
import EnhancedProxy.ThreadPool.LastTask

/-! Which connections of a proxy server can end, and which are kept. -/

namespace EnhancedProxy

open CircleQueue

/-- A call makes a tunnel in one place only. -/
theorem Connection.work_tunnelCount {assertions : Bool} {conn next : Connection} {i : Nat}
    {content : Bytes} (elsewhere : (conn.tasks i).pc ≠ .createTunnel)
    (worked : conn.work assertions i content = some next) :
    next.tunnelCount = conn.tunnelCount := by
  -- Every other place leaves the count as it is, on each of its branches.
  cases here : (conn.tasks i).pc with
  | absent | finished => simp [work, here] at worked
  | createTunnel => exact absurd here elsewhere
  | queued | loopHead | readCache | answer | addTunnel | checkContext | copyBuffer =>
    simp only [work, here, Option.some.injEq] at worked
    subst worked
    rfl
  | castContext =>
    simp only [work, here] at worked
    split at worked <;> cases worked <;> rfl
  | push =>
    simp only [work, here, push, Option.some.injEq] at worked
    subst worked
    split <;> rfl
  | checkTunnel | dropAnswered | dropForwarded | send =>
    simp only [work, here, checkTunnel, dropAnswered, dropForwarded, send, Option.some.injEq]
      at worked
    subst worked
    split_ifs <;> rfl
  | tail =>
    simp only [work, here, tail, Option.some.injEq] at worked
    subst worked
    split_ifs <;> rfl

/-- The network makes no tunnel. -/
theorem Connection.network_tunnelCount {memory : RelayMemory} {assertions : Bool}
    {conn next : Connection} {event : ConnectionStep} (outside : event.fromNetwork)
    (stepped : (connectionMachine memory assertions).step conn event = some next) :
    next.tunnelCount = conn.tunnelCount := by
  -- The peers and the backend set entries and contexts, and create nothing.
  have running := running_of_step stepped
  simp only [connectionMachine, running, Option.isSome_none, Bool.false_eq_true, if_false]
    at stepped
  cases event with
  | deliver | work => cases outside
  | respond k chunk =>
    obtain ⟨-, same⟩ := Option.ite_none_right_eq_some.mp stepped
    cases same
    unfold respond
    split <;> rfl
  | backendUp k | backendDown k =>
    obtain ⟨-, same⟩ := Option.ite_none_right_eq_some.mp stepped
    cases same
    rfl
  | clientDown =>
    cases stepped
    unfold onServerConnectionDown
    split <;> rfl

/-- The places whose pointers the rest of the state decides. -/
def PointerPlace.Watched : PointerPlace → Prop
  | .writing _ | .slot _ | .entry _ | .serverConn _ _ | .connectionCallback _ _ => True
  | _ => False

/-- What a watched place points to. -/
def ProxyServer.pointee (server : ProxyServer) : PointerPlace → Option ServerObject
  | .writing p => (server.threadpool.producers p).writing.join.map fun call => .client call.conn
  | .slot s => (server.threadpool.queue.circleArray s).map fun call => .client call.conn
  | .entry k => (server.running k).map fun call => .client call.1
  | .serverConn c j => if j < (server.conns c).tunnelCount then some (.client c) else none
  | .connectionCallback c j =>
    if j < (server.conns c).tunnelCount then some (.tunnel c j) else none
  | _ => none

/-- Only these places ever hold a pointer to a client connection. -/
def PointerPlace.MayHold : PointerPlace → ServerObject → Prop
  | .writing _, _ | .slot _, _ | .entry _, _ | .serverConn _ _, _ | .elsewhere _, _ => True
  | _, .client _ => False
  | _, _ => True

/-- The pointers of the watched places hold one another: each is at a root, or at a member of a
tunnel that holds itself. -/
theorem ProxyServer.anchored (server : ProxyServer) :
    Pointers.Anchored PointerPlace.owner fun place object =>
      place.Watched ∧ server.pointee place = some object := by
  -- A watched place inside an object is one of a tunnel, whose own callback keeps that tunnel.
  rintro place object ⟨watched, points⟩ holder member
  cases place with
  | writing | slot | entry => cases member
  | local_ | mapEntry | clientConn | messageCallback | backendConnectionCallback
  | backendMessageCallback | context | elsewhere => cases watched
  | serverConn c j | connectionCallback c j =>
    cases member
    have made : j < (server.conns c).tunnelCount := by
      by_contra absent
      simp [pointee, absent] at points
    exact ⟨.connectionCallback c j, trivial, by simp [pointee, made]⟩

/-- The pointers are as the rest of the state says, and lead to clients only from where they may. -/
structure OwnedServer.Tracked (state : OwnedServer) : Prop where
  sound : state.pointers.Sound
  shows_ : state.pointers.Shows PointerPlace.Watched state.server.pointee
  confined : state.pointers.Confined PointerPlace.MayHold
  tunnels : ∀ c j, .tunnel c j ∈ state.pointers.created → j < (state.server.conns c).tunnelCount

namespace OwnedServer.Tracked

variable {state : OwnedServer} {next : ProxyServer} {setting : ServerSetting} {k c i j : Nat}

/-- Only the tunnels of the connection that moves on can change in number. -/
theorem setConn_tunnelCount (server : ProxyServer) (c d : Nat) (conn : Connection) :
    ((server.setConn c conn).conns d).tunnelCount =
      if d = c then conn.tunnelCount else (server.conns d).tunnelCount := by
  -- The other connections are not touched.
  by_cases same : d = c
  · subst same
    simp [ProxyServer.setConn]
  · simp [ProxyServer.setConn, same]

/-- At the start there is no pointer, and nothing to point to. -/
theorem start : Tracked {} where
  -- No pointer is held and none of the watched places points anywhere.
  sound := Pointers.Sound.empty
  shows_ place watched object := by
    cases place <;> simp [ProxyServer.pointee, Pool.new]
  confined _ _ member := by cases member
  tunnels _ _ member := by cases member

/-- A step that concerns no pointer keeps them as the state says. -/
theorem keep (tracked : Tracked state)
    (producers : next.threadpool.producers = state.server.threadpool.producers)
    (slots : next.threadpool.queue.circleArray = state.server.threadpool.queue.circleArray)
    (running : next.running = state.server.running)
    (count : ∀ c, (next.conns c).tunnelCount = (state.server.conns c).tunnelCount) :
    Tracked { state with server := next } where
  -- The watched places are in the ring, in the threads and in the tunnels.
  sound := tracked.sound
  shows_ := by
    refine tracked.shows_.congr fun place _ => ?_
    cases place <;> simp [ProxyServer.pointee, producers, slots, running, count]
  confined := tracked.confined
  tunnels c j made := (count c).symm ▸ tracked.tunnels c j made

/-- A pointer is let go where nobody looks. -/
theorem reset (tracked : Tracked state) (place : PointerPlace) (off : ¬ place.Watched) :
    Tracked { state with pointers := state.pointers.reset place } where
  -- The place is not watched, so nothing that is shown changes.
  sound := tracked.sound.reset place
  shows_ := by
    refine (tracked.shows_.reset place).congr fun p watched => ?_
    rw [Function.update_of_ne]
    intro same
    exact off (same ▸ watched)
  confined := tracked.confined.reset place
  tunnels := tracked.tunnels

/-- A pointer is set where nobody looks. -/
theorem assign (tracked : Tracked state) (place : PointerPlace) (object : ServerObject)
    (off : ¬ place.Watched) (live : state.pointers.Live object) (fits : place.MayHold object) :
    Tracked { state with pointers := state.pointers.assign place object } where
  -- The place is not watched, and the object it now holds is live and may be there.
  sound := tracked.sound.assign place live
  shows_ := by
    refine (tracked.shows_.assign place object).congr fun p watched => ?_
    rw [Function.update_of_ne]
    intro same
    exact off (same ▸ watched)
  confined := tracked.confined.assign place object fits
  tunnels := tracked.tunnels

/-- A pointer is copied to where nobody looks. -/
theorem copy (tracked : Tracked state) (place source : PointerPlace) (off : ¬ place.Watched)
    (wider : ∀ object, source.MayHold object → place.MayHold object) :
    Tracked { state with pointers := state.pointers.copy place source } where
  -- The place is not watched, and what the source may hold the place may hold too.
  sound := tracked.sound.copy place source
  shows_ := by
    have shown := tracked.shows_.copy place source fun watched => absurd watched off
    refine shown.congr fun p watched => ?_
    rw [Function.update_of_ne]
    intro same
    exact off (same ▸ watched)
  confined := tracked.confined.copy place source wider
  tunnels := tracked.tunnels

/-- A new object that is no tunnel. -/
theorem create (tracked : Tracked state) (object : ServerObject)
    (other : ∀ c j, object ≠ .tunnel c j) :
    Tracked { state with pointers := state.pointers.create object } where
  -- A new object is held nowhere yet, and it is none of the tunnels counted.
  sound := tracked.sound.create object
  shows_ := tracked.shows_.create object
  confined := tracked.confined.create object
  tunnels c j made := by
    rcases List.mem_cons.mp made with same | before
    · exact absurd same.symm (other c j)
    · exact tracked.tunnels c j before

/-- An object ends. -/
theorem destroy (tracked : Tracked state) {object : ServerObject} {pointers : ServerPointers}
    (ended : state.pointers.destroy PointerPlace.owner object = some pointers) :
    Tracked { state with pointers := pointers } where
  -- The watched places outlive the object, as none of them lies in it.
  sound := tracked.sound.destroy ended
  shows_ := tracked.shows_.destroy state.server.anchored ended
  confined := tracked.confined.destroy ended
  tunnels c j made := by
    obtain ⟨-, -, -, created, -⟩ := Pointers.destroy_cases ended
    exact tracked.tunnels c j (created ▸ made)

/-- A tunnel that a call creates holds its client, and through its callbacks itself. -/
theorem createTunnel (tracked : Tracked state) (inside : state.server.running k = some (c, i)) :
    let n := (state.server.conns c).tunnelCount
    let conn := (state.server.conns c).createTunnel i
    Tracked { server := state.server.setConn c conn
              pointers := state.pointers.createTunnel k c n } := by
  intro n conn
  -- The tunnel has a number that none had before.
  have new : .tunnel c n ∉ state.pointers.created := fun made =>
    Nat.lt_irrefl n (tracked.tunnels c n made)
  have live := tracked.sound.live_create new
  have copied := (tracked.sound.create (.tunnel c n)).copy (.serverConn c n) (.entry k)
  refine ⟨((copied.assign _ live).assign _ live).assign _ live, ?_, ?_, fun d j made => ?_⟩
  · have entered := (tracked.shows_.create (.tunnel c n)).copy (.serverConn c n) (.entry k)
      fun _ => trivial
    refine (((entered.assign (.local_ k) (.tunnel c n)).assign (.connectionCallback c n)
      (.tunnel c n)).assign (.messageCallback c n) (.tunnel c n)).congr fun place watched => ?_
    cases place with
    | writing | slot | entry =>
      simp [ProxyServer.pointee, ProxyServer.setConn]
    | serverConn d j | connectionCallback d j =>
      have grown : conn.tunnelCount = n + 1 := rfl
      simp only [ProxyServer.pointee, setConn_tunnelCount, grown, inside, Option.map_some,
        Function.update_apply, PointerPlace.serverConn.injEq, PointerPlace.connectionCallback.injEq,
        reduceCtorEq, if_false]
      by_cases same : d = c
      · -- The new tunnel is the last one of its client.
        subst same
        rcases Nat.lt_trichotomy j n with earlier | rfl | later
        · have before : j < (state.server.conns d).tunnelCount := earlier
          simp [before, Nat.lt_succ_of_lt earlier, earlier.ne]
        · simp
        · have after : ¬ j < n + 1 := by omega
          have absent : ¬ j < (state.server.conns d).tunnelCount := by omega
          simp [after, absent, later.ne']
      · simp [same]
    | local_ | mapEntry | clientConn | messageCallback | backendConnectionCallback
    | backendMessageCallback | context | elsewhere => cases watched
  · have copied := (tracked.confined.create (.tunnel c n)).copy (.serverConn c n) (.entry k)
      fun _ _ => trivial
    have named := copied.assign (.local_ k) (.tunnel c n) trivial
    have called := named.assign (.connectionCallback c n) (.tunnel c n) trivial
    exact called.assign (.messageCallback c n) (.tunnel c n) trivial
  · have count := setConn_tunnelCount state.server c d conn
    rw [count]
    rcases List.mem_cons.mp made with same | before
    · cases same
      rw [if_pos rfl]
      exact Nat.lt_succ_self n
    · have earlier := tracked.tunnels d j before
      split
      · rename_i same
        subst same
        exact Nat.lt_succ_of_lt earlier
      · exact earlier

/-- A tunnel enters the map, and the local pointer to it goes. -/
theorem addTunnel (tracked : Tracked state) :
    Tracked { state with pointers := state.pointers.addTunnel k c } := by
  -- The pointer is copied from the local one into the map, and then the local one is reset.
  refine (tracked.copy (.mapEntry c) (.local_ k) not_false fun object fits => ?_).reset (.local_ k)
    not_false
  cases object <;> exact fits

/-- A connection to the web server comes up. -/
theorem backendUp (tracked : Tracked state) (new : .backend c j ∉ state.pointers.created) :
    Tracked { state with pointers := state.pointers.backendUp c j } := by
  have live := tracked.sound.live_create new
  have made := tracked.create (.backend c j) fun d l same => by cases same
  -- The callbacks are copied, and with them their pointers to the tunnel.
  have called := made.copy (.backendConnectionCallback c j) (.connectionCallback c j) not_false
    fun object fits => by cases object <;> exact fits
  have bound := called.copy (.backendMessageCallback c j) (.messageCallback c j) not_false
    fun object fits => by cases object <;> exact fits
  exact (bound.assign (.context c) (.backend c j) not_false live trivial).assign (.clientConn c j)
    (.backend c j) not_false live trivial

/-- A connection to the web server goes down. -/
theorem teardown (tracked : Tracked state) :
    Tracked { state with pointers := state.pointers.teardown c j } :=
  -- Four pointers are reset, none of them in a watched place.
  (((tracked.reset (.backendConnectionCallback c j) not_false).reset (.messageCallback c j)
    not_false).reset (.context c) not_false).reset (.clientConn c j) not_false

/-- The step of a call that a thread is in. -/
theorem solve (tracked : Tracked state) {assertions : Bool} {content : Bytes} {conn : Connection}
    (inside : state.server.running k = some (c, i))
    (worked : (state.server.conns c).work assertions i content = some conn) :
    Tracked { server := state.server.setConn c conn
              pointers := state.solve (state.server.setConn c conn) k c i } := by
  by_cases creates : ((state.server.conns c).tasks i).pc = .createTunnel
  · simp only [Connection.work, creates, Option.some.injEq] at worked
    subst worked
    simp only [OwnedServer.solve, creates]
    exact tracked.createTunnel inside
  · -- Any other step leaves the number of tunnels as it is.
    have same := Connection.work_tunnelCount creates worked
    have moved : Tracked { state with server := state.server.setConn c conn } := by
      refine tracked.keep rfl rfl rfl fun d => ?_
      rw [setConn_tunnelCount, same]
      split
      · rename_i own
        rw [own]
      · rfl
    unfold OwnedServer.solve
    dsimp only
    split
    · rename_i here
      exact absurd here creates
    · exact moved.addTunnel
    · split
      · exact moved.reset (.mapEntry c) not_false
      · exact moved
    · exact moved

/-- A thread leaves its call, and `entry` goes. -/
theorem leave (tracked : Tracked state) (k : Nat) :
    Tracked { server := { state.server with running := Function.update state.server.running k none }
              pointers := state.pointers.reset (.entry k) } where
  -- The thread forgets its call on both sides: in the server and among the pointers.
  sound := tracked.sound.reset _
  shows_ := by
    refine (tracked.shows_.reset (.entry k)).congr fun place watched => ?_
    cases place with
    | entry l => by_cases own : l = k <;> simp [ProxyServer.pointee, own]
    | _ => simp [ProxyServer.pointee]
  confined := tracked.confined.reset _
  tunnels := tracked.tunnels

/-- A thread takes the next step of its call. -/
theorem work (tracked : Tracked state) {content : Bytes}
    (stepped : (serverMachine setting).step state.server (.work k content) = some next) :
    Tracked { server := next, pointers := state.handle setting next (.work k content) } := by
  -- The call takes its step first, and a thread whose call has returned leaves it then.
  obtain ⟨⟨c, i⟩, inside, moved⟩ := Option.bind_eq_some_iff.mp (ProxyServer.act_of_step stepped)
  obtain ⟨conn, worked, rfl⟩ := Option.map_eq_some_iff.mp moved
  have solved := tracked.solve inside worked
  simp only [handle, inside]
  by_cases finishes : (conn.tasks i).pc = .finished
  · simp only [finishes, if_true, Function.update_self]
    exact solved.leave k
  · have stays : (state.server.setConn c conn).running k ≠ none := by
      show state.server.running k ≠ none
      simp [inside]
    simp only [finishes, if_false, stays]
    exact solved

/-- A message is bound to its client while it is written. -/
theorem message (tracked : Tracked state) {chunk : Bytes} (live : state.pointers.Live (.client c))
    (stepped : (serverMachine setting).step state.server (.message c chunk) = some next) :
    Tracked { server := next, pointers := state.handle setting next (.message c chunk) } := by
  -- The buffer of a connection is no matter of pointers.
  have received : Tracked { state with server := state.server.receive c chunk } := by
    refine tracked.keep rfl rfl rfl fun d => ?_
    by_cases own : d = c
    · subst own
      simp [ProxyServer.receive, Connection.receive]
    · simp [ProxyServer.receive, own]
  rcases ProxyServer.message_cases stepped with ⟨producer, rfl⟩ | ⟨p, pool, producer, called, rfl⟩
  · simpa only [handle, producer] using received
  · obtain ⟨slots, ⟨writing, others⟩ | ⟨idle, same⟩⟩ := Pool.callWrite_holds called
    · simp only [handle, producer, writing, Option.isSome_some, if_true]
      refine ⟨received.sound.assign _ live, ?_, received.confined.assign _ _ trivial,
        received.tunnels⟩
      refine (received.shows_.assign (.writing p) (.client c)).congr fun place watched => ?_
      cases place with
      | writing q =>
        by_cases own : q = p
        · subst own
          simp [ProxyServer.pointee, writing, ProxyServer.bind]
        · simp [ProxyServer.pointee, own, others q own, ProxyServer.receive]
      | slot => simp [ProxyServer.pointee, slots, ProxyServer.receive]
      | entry | serverConn | connectionCallback => rfl
      | _ => cases watched
    · simp only [handle, producer, idle, Option.isSome_none, Bool.false_eq_true, if_false]
      exact received.keep same slots rfl fun _ => rfl

/-- The slot takes the task over from the producer. -/
theorem writeSlot (tracked : Tracked state) {p : Nat}
    (stepped : (serverMachine setting).step state.server (.writeSlot p) = some next) :
    Tracked { server := next, pointers := state.handle setting next (.writeSlot p) } := by
  -- The bound call goes from the producer's hands into the slot, and so does its pointer.
  obtain ⟨pool, wrote, rfl⟩ := ProxyServer.writeSlot_cases stepped
  obtain ⟨call, writing, rfl⟩ := Option.map_eq_some_iff.mp wrote
  refine ⟨(tracked.sound.copy _ _).reset _, ?_, ?_, tracked.tunnels⟩
  -- The pointers shown: the slot now has what the producer had, which has nothing.
  · have copied := tracked.shows_.copy
      (.slot ((state.server.threadpool.producers p).curWriteId % size)) (.writing p)
      fun _ => trivial
    refine (copied.reset (.writing p)).congr fun place watched => ?_
    cases place with
    | writing q => by_cases own : q = p <;> simp [ProxyServer.pointee, own]
    | slot s =>
      by_cases own : s = (state.server.threadpool.producers p).curWriteId % size
      · subst own
        simp [ProxyServer.pointee, CircleQueue.write, writing]
      · simp [ProxyServer.pointee, CircleQueue.write, own]
    | _ => simp [ProxyServer.pointee]
  · have copied := tracked.confined.copy
      (.slot ((state.server.threadpool.producers p).curWriteId % size)) (.writing p)
      fun _ _ => trivial
    exact copied.reset _

/-- A thread copies a call from its slot, and is in that call. -/
theorem readSlot (tracked : Tracked state)
    (stepped : (serverMachine setting).step state.server (.readSlot k) = some next) :
    Tracked { server := next, pointers := state.handle setting next (.readSlot k) } := by
  -- The thread gets a copy of the pointer, and the slot keeps its own.
  obtain ⟨pool, read, rfl⟩ := Option.map_eq_some_iff.mp (ProxyServer.act_of_step stepped)
  obtain ⟨-, rfl⟩ := Pool.readSlot_eq_some.mp read
  simp only [handle]
  cases found : state.server.threadpool.queue.read (state.server.threadpool.consumers k).readId with
  | none => exact tracked.keep rfl rfl rfl fun _ => rfl
  | some call =>
    have slot : state.server.threadpool.queue.circleArray
        ((state.server.threadpool.consumers k).readId % size) = some call := found
    have begun : ∀ d, (Function.update state.server.conns call.conn
        ((state.server.conns call.conn).call call.buff) d).tunnelCount =
          (state.server.conns d).tunnelCount := by
      intro d
      by_cases own : d = call.conn
      · subst own
        simp [Connection.call]
      · simp [own]
    refine ⟨tracked.sound.copy _ _, ?_, ?_, fun d j made => ?_⟩
    · have copied := tracked.shows_.copy (.entry k)
        (.slot ((state.server.threadpool.consumers k).readId % size)) fun _ => trivial
      refine copied.congr fun place watched => ?_
      cases place with
      | entry l =>
        by_cases own : l = k
        · subst own
          simp [ProxyServer.pointee, ProxyServer.begin_, slot]
        · simp [ProxyServer.pointee, ProxyServer.begin_, own]
      | _ => simp [ProxyServer.pointee, ProxyServer.begin_, begun]
    · exact tracked.confined.copy (.entry k)
        (.slot ((state.server.threadpool.consumers k).readId % size)) fun _ _ => trivial
    · exact (begun d).symm ▸ tracked.tunnels d j made

/-- What the network does to a connection. -/
theorem network (tracked : Tracked state) {event : ConnectionStep}
    (admitted : state.Admits (.network c event))
    (stepped : (serverMachine setting).step state.server (.network c event) = some next) :
    Tracked { server := next, pointers := state.handle setting next (.network c event) } := by
  -- The event changes the connection first, and then at most a pointer that is not watched.
  obtain ⟨outside, conn, happened, rfl⟩ := ProxyServer.network_cases stepped
  have same : conn.tunnelCount = (state.server.conns c).tunnelCount :=
    Connection.network_tunnelCount outside happened
  have moved : Tracked { state with server := state.server.setConn c conn } := by
    refine tracked.keep rfl rfl rfl fun d => ?_
    rw [setConn_tunnelCount, same]
    split
    · rename_i own
      rw [own]
    · rfl
  cases event with
  | deliver | work => cases outside
  | respond => exact moved
  | backendUp j => exact moved.backendUp admitted
  | backendDown j => exact moved.teardown
  | clientDown => exact moved.reset (.mapEntry c) not_false

/-- Every step keeps the pointers as the state says. -/
theorem step (tracked : Tracked state) {label : OwnershipStep} {after : OwnedServer}
    (stepped : (ownershipMachine setting).step state label = some after) : Tracked after := by
  -- One lemma for each step of the server, and then the pointers that live outside it.
  cases label with
  | server label =>
    obtain ⟨admitted, handled⟩ := Option.ite_none_right_eq_some.mp stepped
    obtain ⟨next, moved, rfl⟩ := Option.map_eq_some_iff.mp handled
    cases label with
    | startThreads =>
      cases ProxyServer.act_of_step moved
      exact tracked.keep rfl rfl rfl fun _ => rfl
    | message c chunk => exact tracked.message admitted moved
    | writeSlot p => exact tracked.writeSlot moved
    | callRead k =>
      obtain ⟨pool, called, rfl⟩ := ProxyServer.callRead_cases moved
      obtain ⟨-, space, -, rfl⟩ | ⟨-, rfl⟩ := Pool.callRead_cases called
      · exact tracked.keep rfl rfl rfl fun _ => rfl
      · exact tracked.keep rfl rfl rfl fun _ => rfl
    | readSlot k => exact tracked.readSlot moved
    | work k content => exact tracked.work moved
    | network c event => exact tracked.network admitted moved
  | accept n c =>
    obtain ⟨new, same⟩ := Option.ite_none_right_eq_some.mp stepped
    cases same
    have made := tracked.create (.client c) fun d j same => by cases same
    exact made.assign (.elsewhere n) (.client c) not_false (tracked.sound.live_create new) trivial
  | share n place =>
    cases stepped
    exact tracked.copy (.elsewhere n) place not_false fun _ _ => trivial
  | drop n =>
    cases stepped
    exact tracked.reset (.elsewhere n) not_false
  | destroy object =>
    obtain ⟨pointers, ended, rfl⟩ := Option.map_eq_some_iff.mp stepped
    exact tracked.destroy ended

end OwnedServer.Tracked

namespace OwnedServer

/-- Something keeps the connection of client `c`. -/
def Keeps (state : OwnedServer) (c : Nat) : Prop :=
  -- Some call ever created a tunnel for it.
  0 < (state.server.conns c).tunnelCount ∨
  -- The last task of some slot is a call for it.
  (∃ s call, state.server.threadpool.lastAccepted s = some (some call) ∧ call.conn = c) ∨
  -- A producer is writing such a call, or a thread is in one.
  (∃ p call, (state.server.threadpool.producers p).writing = some (some call) ∧ call.conn = c) ∨
  (∃ k i, state.server.running k = some (c, i)) ∨
  -- A pointer outside of this code.
  ∃ n, (.elsewhere n, .client c) ∈ state.pointers.held

/-- A connection is pointed to exactly if something keeps it. -/
theorem Tracked.held_iff {state : OwnedServer} (tracked : Tracked state)
    (keepsLast : state.server.threadpool.KeepsLast) (c : Nat) :
    state.pointers.Held (.client c) ↔ state.Keeps c := by
  have shown : ∀ place, place.Watched →
      ((place, .client c) ∈ state.pointers.held ↔ state.server.pointee place = some (.client c)) :=
    fun place watched => tracked.shows_ place watched (.client c)
  constructor
  · rintro ⟨place, member⟩
    have fits := tracked.confined place _ member
    -- One case for each place that may hold a client.
    cases place with
    | writing p =>
      have points := (shown (.writing p) trivial).mp member
      obtain ⟨call, writing, same⟩ := Option.map_eq_some_iff.mp points
      cases same
      exact .inr (.inr (.inl ⟨p, call, Option.join_eq_some_iff.mp writing, rfl⟩))
    | slot s =>
      have points := (shown (.slot s) trivial).mp member
      obtain ⟨call, holds, same⟩ := Option.map_eq_some_iff.mp points
      cases same
      -- A slot that was never written holds no call.
      cases last : state.server.threadpool.lastAccepted s with
      | none =>
        rw [keepsLast s, last] at holds
        cases holds
      | some task =>
        rw [keepsLast s, last, Option.getD_some] at holds
        subst holds
        exact .inr (.inl ⟨s, call, last, rfl⟩)
    | entry k =>
      have points := (shown (.entry k) trivial).mp member
      obtain ⟨⟨d, i⟩, inside, same⟩ := Option.map_eq_some_iff.mp points
      cases same
      exact .inr (.inr (.inr (.inl ⟨k, i, inside⟩)))
    | serverConn d j =>
      have points := (shown (.serverConn d j) trivial).mp member
      obtain ⟨made, same⟩ := Option.ite_none_right_eq_some.mp points
      cases same
      exact .inl (Nat.zero_lt_of_lt made)
    | elsewhere n => exact .inr (.inr (.inr (.inr ⟨n, member⟩)))
    | local_ | mapEntry | clientConn | connectionCallback | messageCallback
    | backendConnectionCallback | backendMessageCallback | context => exact absurd fits not_false
  · rintro (some_ | ⟨s, call, last, rfl⟩ | ⟨p, call, writing, rfl⟩ | ⟨k, i, inside⟩ | ⟨n, member⟩)
    · refine ⟨.serverConn c 0, (shown (.serverConn c 0) trivial).mpr ?_⟩
      simp [ProxyServer.pointee, some_]
    · refine ⟨.slot s, (shown (.slot s) trivial).mpr ?_⟩
      simp [ProxyServer.pointee, keepsLast s, last]
    · refine ⟨.writing p, (shown (.writing p) trivial).mpr ?_⟩
      simp [ProxyServer.pointee, writing]
    · refine ⟨.entry k, (shown (.entry k) trivial).mpr ?_⟩
      simp [ProxyServer.pointee, inside]
    · exact ⟨.elsewhere n, member⟩

/-- A tunnel that was made holds itself through the callback of its `client_`. -/
theorem Tracked.live_tunnel {state : OwnedServer} (tracked : Tracked state) {c j : Nat}
    (made : j < (state.server.conns c).tunnelCount) : state.pointers.Live (.tunnel c j) := by
  -- What the callback points to is held, and what is held is live.
  refine tracked.sound.live (.connectionCallback c j) _ ?_
  refine (tracked.shows_ (.connectionCallback c j) trivial _).mpr ?_
  simp [ProxyServer.pointee, made]

/-- A step of the server with its pointers is one of the server, or leaves the ring alone. -/
theorem keepsLast_step {setting : ServerSetting} {state after : OwnedServer} {label : OwnershipStep}
    (keeps : state.server.threadpool.KeepsLast)
    (stepped : (ownershipMachine setting).step state label = some after) :
    after.server.threadpool.KeepsLast := by
  -- The ring takes at most the step it contains; the other steps do not reach it.
  cases label with
  | server label =>
    obtain ⟨-, handled⟩ := Option.ite_none_right_eq_some.mp stepped
    obtain ⟨next, moved, rfl⟩ := Option.map_eq_some_iff.mp handled
    rcases ProxyServer.pool_of_step moved with ⟨-, same⟩ | ⟨poolLabel, -, ringStepped⟩
    · show next.threadpool.KeepsLast
      rwa [same]
    · exact keeps.step ringStepped
  | accept n c =>
    obtain ⟨-, same⟩ := Option.ite_none_right_eq_some.mp stepped
    cases same
    exact keeps
  | share | drop =>
    cases stepped
    exact keeps
  | destroy object =>
    obtain ⟨pointers, -, rfl⟩ := Option.map_eq_some_iff.mp stepped
    exact keeps

end OwnedServer

/-- In every run of a server, no tunnel ever ends that was created; and the connection of a client
ends, its socket with it, exactly when no tunnel was ever created for it, no slot of the ring has a
call for it as its last task, no thread or producer is busy with one, and no pointer to it is left
outside. -/
theorem client_ends_iff (setting : ServerSetting) {labels : List OwnershipStep}
    {last : OwnedServer} (ran : (ownershipMachine setting).run {} labels = some last) (c : Nat) :
    (∀ j < (last.server.conns c).tunnelCount, last.pointers.Live (.tunnel c j)) ∧
      (((ownershipMachine setting).step last (.destroy (.client c))).isSome ↔
        last.pointers.Live (.client c) ∧ ¬ last.Keeps c) := by
  -- The tracked pointers say where the connection is held, and the ring keeps its last call.
  have tracked : last.Tracked := Machine.run_invariant
    (fun _ _ _ tracked stepped => OwnedServer.Tracked.step tracked stepped)
    OwnedServer.Tracked.start ran
  have keepsLast : (fun state : OwnedServer => state.server.threadpool.KeepsLast) last :=
    Machine.run_invariant (fun _ _ _ keeps stepped => OwnedServer.keepsLast_step keeps stepped)
      Pool.KeepsLast.start ran
  refine ⟨fun j made => tracked.live_tunnel made, ?_⟩
  rw [← tracked.held_iff keepsLast c]
  show ((last.pointers.destroy _ _).map _).isSome ↔ _
  rw [Option.isSome_map, Pointers.destroy_isSome_iff]

/-- One I/O loop with one producer. -/
def soleLoop : ServerSetting where
  memory := { atBufferObject := fun _ => [], behindVector := [] }
  assertions := true
  producerOf _ := some 0

/-- A client has sent a message, and then everything but the ring has let it go. -/
def clientGone : OwnedServer :=
  ((ownershipMachine soleLoop).run {}
    [.accept 0 0, .server (.message 0 [71]), .server (.writeSlot 0), .drop 0]).get rfl

/-- The client that is gone can end exactly if nothing keeps it, but the ring does. -/
theorem client_ends_iff_gone :
    (∀ j < (clientGone.server.conns 0).tunnelCount, clientGone.pointers.Live (.tunnel 0 j)) ∧
      (((ownershipMachine soleLoop).step clientGone (.destroy (.client 0))).isSome ↔
        clientGone.pointers.Live (.client 0) ∧ ¬ clientGone.Keeps 0) :=
  client_ends_iff soleLoop (Option.some_get rfl).symm 0

end EnhancedProxy
