import EnhancedProxy.Library.Simulation
import EnhancedProxy.ModifiedMuduo.ConnectionStages
import EnhancedProxy.Process.Listening

/-! The workers with the connections of their servers refine the workers that count them. -/

namespace EnhancedProxy

namespace RunningServer

variable {muduo : Muduo} {server next : RunningServer muduo} {c loop : Nat}
  {conn : ServerConnection muduo} {waiting : Option (Nat × LoopFunctor)} {functor : LoopFunctor}
  {event : ServerEvent}

/-- The loop in whose thread an event happens. -/
def loopOf (server : RunningServer muduo) : ServerEvent → Option Nat
  | .newConnection => some server.threadPool.baseLoop
  | .functor loop => some loop
  | .handleClose c => (server.conns[c]?).map (·.loop)

/-- `removeConnectionInLoop` of a connection that is in the map takes one entry off. -/
theorem length_removeConnectionInLoop (indexed : server.Indexed)
    (stands : server.Stands c conn true waiting) :
    (server.removeConnectionInLoop c).connections.length + 1 = server.connections.length := by
  -- The name is in the map once, so one entry is filtered out.
  have once := (Moves.erase indexed stands).1
  have divided := List.length_eq_countP_add_countP (fun entry => decide (entry.1 = conn.name))
    (l := server.connections)
  rw [once, List.countP_eq_length_filter] at divided
  simp only [removeConnectionInLoop, stands.made, once, if_true]
  simpa [Nat.add_comm] using divided.symm

/-- A function of muduo leaves the map alone. -/
theorem connections_onTcp (function : muduo.Tcp → Option muduo.Tcp) :
    (server.onTcp c function).connections = server.connections := by
  -- The state of a connection changes, or the process fails.
  unfold onTcp
  split <;> rfl

/-- A new connection is one more in the map. -/
theorem length_newConnection (indexed : server.Indexed) :
    server.newConnection.connections.length = server.connections.length + 1 := by
  have registered := congrArg List.length (register_connections indexed)
  rw [List.length_cons] at registered
  rw [← registered]
  -- Whether `connectEstablished` runs at once or later, it leaves the map alone.
  unfold newConnection giveTo
  split
  · rfl
  · exact congrArg List.length (connections_onTcp _)

/-- Another event leaves the size of the map, or it happens in the base loop and takes an entry off. -/
theorem length_of_step (documented : muduo.Documented) (kept : server.Kept)
    (other : event ≠ .newConnection)
    (stepped : (runningServerMachine muduo).step server event = some next) :
    next.connections.length = server.connections.length ∨
      server.loopOf event = some server.threadPool.baseLoop ∧
        next.connections.length + 1 = server.connections.length := by
  simp only [runningServerMachine, kept.intact, Bool.false_eq_true, if_false] at stepped
  cases event with
  | newConnection => exact absurd rfl other
  | functor loop =>
    obtain ⟨⟨functor, loops⟩, taken, rfl⟩ := Option.map_eq_some_iff.mp stepped
    obtain ⟨rest, first, -⟩ := documented.nextFunctor _ _ _ _ taken
    have member : functor ∈ server.pending loop := by simp [pending, first]
    have below := kept.indexed.holding loop functor member
    obtain ⟨stage, -, stood⟩ := kept.staged _ _ (List.getElem?_eq_getElem below)
    obtain ⟨waits, moves⟩ := Moves.dequeue documented kept.indexed taken stood
    cases functor with
    | connectEstablished c => exact .inl (congrArg List.length (connections_onTcp _))
    | connectDestroyed c => exact .inl (congrArg List.length (connections_onTcp _))
    | removeConnectionInLoop c =>
      -- Only a connection that is to be removed waits for this, and in the base loop.
      cases stage with
      | removing =>
        obtain ⟨rfl, -⟩ := Prod.mk.inj (Option.some.inj waits)
        exact .inr ⟨rfl, length_removeConnectionInLoop moves.indexed moves.stands⟩
      | establishing | destroying => cases waits
      | up | gone => cases waits
  | handleClose c =>
    obtain ⟨connection, made, closed⟩ := Option.bind_eq_some_iff.mp stepped
    obtain ⟨tcp, ended, rfl⟩ := Option.map_eq_some_iff.mp closed
    obtain ⟨connected, -⟩ := documented.handleClose _ _ ended
    obtain ⟨stage, state, stood⟩ := kept.staged _ _ made
    obtain rfl : stage = .up := by
      rw [connected] at state
      cases stage <;> cases state
      rfl
    have moves := Moves.setTcp kept.indexed stood tcp
    unfold removeConnection giveTo
    rw [documented.runInLoop]
    -- The loop of the connection may be the base loop itself.
    by_cases base : connection.loop = (server.setTcp c tcp).threadPool.baseLoop
    · rw [if_pos base]
      refine .inr ⟨?_, length_removeConnectionInLoop moves.indexed moves.stands⟩
      rw [loopOf, made]
      exact congrArg some base
    · rw [if_neg base]
      exact .inl rfl

end RunningServer

namespace Cluster

variable {setting : Setting} {cluster next : Cluster} {i : Nat} {count : Nat → Nat}

/-- The same workers with other counts of connections. -/
def counted (cluster : Cluster) (count : Nat → Nat) : Cluster :=
  { cluster with workers := fun i => { cluster.workers i with connections := count i } }

/-- A worker that is replaced has the count that is given to it. -/
theorem counted_update (workers : Nat → Worker) (i : Nat) (worker : Worker) (count : Nat → Nat) :
    (fun j => { Function.update workers i worker j with connections := count j }) =
      Function.update (fun j => { workers j with connections := count j }) i
        { worker with connections := count i } := by
  -- Only worker i changes, and its own count is put in as for the others.
  funext j
  by_cases own : j = i
  · subst own
    simp
  · simp [own]

/-- A worker is replaced, and counts anew. -/
theorem counted_set (cluster : Cluster) {count after : Nat → Nat} {i : Nat}
    (others : ∀ j, j ≠ i → after j = count j) (worker : Worker) :
    (cluster.set i worker).counted after =
      (cluster.counted count).set i { worker with connections := after i } := by
  -- The counts of the others are as before, so the two clusters differ at worker i alone.
  simp only [counted, set, counted_update, Cluster.mk.injEq, true_and, and_true]
  funext j
  by_cases own : j = i
  · subst own
    rw [Function.update_self, Function.update_self]
  · rw [Function.update_of_ne own, Function.update_of_ne own, others j own]

/-- A worker counts anew where it stands. -/
theorem counted_own (cluster : Cluster) {count after : Nat → Nat} {i : Nat}
    (others : ∀ j, j ≠ i → after j = count j) :
    cluster.counted after =
      (cluster.counted count).set i { cluster.workers i with connections := after i } := by
  rw [← counted_set cluster others, set, Function.update_eq_self]

end Cluster

/-- The places between the decision to hand over and the end of `newConnection`. -/
def WorkerPc.handingOn : WorkerPc → Bool
  | .handingOver | .notifying | .unlocking _ | .releasing _ | .writing _ => true
  | _ => false

/-- The steps in which a worker counts a connection. -/
def ClusterStep.counts : ClusterStep → Bool
  | .newConnection _ _ | .removeConnection _ => true
  | _ => false

namespace Worker

variable {worker : Worker} {now : Int} {n : Nat}

/-- Starting to listen does not look at the count. -/
theorem enableListen_counted (worker : Worker) (now : Int) (n : Nat) :
    { worker with connections := n }.enableListen now =
      { worker.enableListen now with connections := n } := by
  -- None of the functions on the way reads the count.
  unfold enableListen acceptorSchedulingHandler tcpStart
  dsimp only
  split_ifs <;> rfl

/-- Starting to listen leaves a worker where it is, or ends its process. -/
theorem enableListen_pc (worker : Worker) (now : Int) :
    (worker.enableListen now).pc = worker.pc ∨ (worker.enableListen now).pc = .dead := by
  -- The one way to another place is a failed assertion.
  unfold enableListen acceptorSchedulingHandler tcpStart
  dsimp only
  split_ifs <;> simp [abort, listen]

/-- Switching the acceptor does not look at the count. -/
theorem acceptorSchedulingHandler_counted (worker : Worker) (now : Int) (n : Nat) :
    { worker with connections := n }.acceptorSchedulingHandler now =
      { worker.acceptorSchedulingHandler now with connections := n } := by
  -- Neither switching on nor switching off reads the count.
  unfold acceptorSchedulingHandler
  dsimp only
  split_ifs <;> rfl

end Worker

namespace Cluster

variable {setting : Setting} {cluster next : Cluster} {count : Nat → Nat}

/-- The other steps do not look at the counts. -/
theorem step_counted {label : ClusterStep} (other : label.counts = false)
    (new : ∀ i, (cluster.workers i).pc = .absent → count i = 0)
    (stepped : (clusterMachine setting).step cluster label = some next) :
    (clusterMachine setting).step (cluster.counted count) label = some (next.counted count) := by
  -- One case for each place in the code of a worker.
  cases label with
  | newConnection i now | removeConnection i => cases other
  | fork i fd owner startListenTime =>
    obtain ⟨here, rfl⟩ := step_fork.mp stepped
    refine step_fork.mpr ⟨here, ?_⟩
    simp only [counted, set, counted_update, new i here.1]
  | start i =>
    obtain ⟨here, rfl⟩ := step_start.mp stepped
    refine step_start.mpr ⟨here, ?_⟩
    simp only [counted, set, counted_update]
  | wake i =>
    obtain ⟨here, rfl⟩ := step_wake.mp stepped
    refine step_wake.mpr ⟨here, ?_⟩
    by_cases empty : cluster.counters i = 0
    · simp only [eventHandler, counted, set, empty, if_true, counted_update, Worker.abort]
    · simp only [eventHandler, counted, set, empty, if_false, counted_update]
  | tryLock i =>
    obtain ⟨here, rfl⟩ := step_tryLock.mp stepped
    refine step_tryLock.mpr ⟨here, ?_⟩
    by_cases free : cluster.mutexByte = 0
    · simp only [tryLock, counted, set, free, if_true, counted_update]
    · simp only [tryLock, counted, set, free, if_false, counted_update]
  | enableListen i now =>
    obtain ⟨here, rfl⟩ := step_enableListen.mp stepped
    refine step_enableListen.mpr ⟨here, ?_⟩
    simp only [counted, set, counted_update]
    rw [← Worker.enableListen_counted]
  | schedule i now =>
    obtain ⟨here, rfl⟩ := step_schedule.mp stepped
    refine step_schedule.mpr ⟨here, ?_⟩
    simp only [counted, set, counted_update, Worker.acceptorSchedulingHandler_counted]
  | notifyOther i =>
    obtain ⟨here, rfl⟩ := step_notifyOther.mp stepped
    refine step_notifyOther.mpr ⟨here, ?_⟩
    cases handler : (cluster.workers i).notifyOtherWorkerToListen with
    | none => simp only [notifyOther, counted, set, handler, counted_update, Worker.abort]
    | some eventFd => simp only [notifyOther, counted, set, handler, counted_update]
  | unlockAssert i =>
    obtain ⟨eventFd, here, rfl⟩ := step_unlockAssert.mp stepped
    refine step_unlockAssert.mpr ⟨eventFd, here, ?_⟩
    by_cases owns : (cluster.workers i).owner ∧ cluster.mutexByte = 1
    · simp only [unlockAssert, counted, set, owns, and_self, if_true, counted_update]
    · simp only [unlockAssert, counted, set, owns, if_false, counted_update, Worker.abort]
  | unlockSwap i =>
    obtain ⟨eventFd, here, rfl⟩ := step_unlockSwap.mp stepped
    refine step_unlockSwap.mpr ⟨eventFd, here, ?_⟩
    by_cases taken : cluster.mutexByte = 1
    · simp only [unlockSwap, counted, set, taken, if_true, counted_update]
    · simp only [unlockSwap, counted, set, taken, if_false, counted_update]
  | writeEvent i =>
    obtain ⟨eventFd, here, rfl⟩ := step_writeEvent.mp stepped
    refine step_writeEvent.mpr ⟨eventFd, here, ?_⟩
    cases named : setting.descriptors i eventFd with
    | none => simp only [writeEvent, counted, set, named, counted_update]
    | some k => simp only [writeEvent, counted, set, named, counted_update]
  | stray k value =>
    obtain rfl := step_stray.mp stepped
    exact step_stray.mpr rfl

/-- No step makes a worker one that was never forked, and only an accepted connection makes it hand
over. -/
theorem pc_of_step {label : ClusterStep} (other : label.counts = false)
    (stepped : (clusterMachine setting).step cluster label = some next) (j : Nat) :
    ((next.workers j).pc = .absent → (cluster.workers j).pc = .absent) ∧
      ((next.workers j).pc.handingOn → (cluster.workers j).pc.handingOn) := by
  -- Only the worker that takes the step has moved.
  have moved {i : Nat} {worker : Worker} (present : worker.pc ≠ .absent)
      (place : worker.pc.handingOn → (cluster.workers i).pc.handingOn) :
      ((Function.update cluster.workers i worker j).pc = .absent →
          (cluster.workers j).pc = .absent) ∧
        ((Function.update cluster.workers i worker j).pc.handingOn →
          (cluster.workers j).pc.handingOn) := by
    by_cases own : j = i
    · subst own
      rw [Function.update_self]
      exact ⟨fun absent => absurd absent present, place⟩
    · rw [Function.update_of_ne own]
      exact ⟨id, id⟩
  cases label with
  | newConnection i now | removeConnection i => cases other
  | fork i fd owner startListenTime =>
    obtain ⟨-, rfl⟩ := step_fork.mp stepped
    exact moved WorkerPc.noConfusion Bool.noConfusion
  | start i =>
    obtain ⟨-, rfl⟩ := step_start.mp stepped
    exact moved WorkerPc.noConfusion Bool.noConfusion
  | wake i =>
    obtain ⟨-, rfl⟩ := step_wake.mp stepped
    unfold eventHandler
    dsimp only
    split
    · exact moved WorkerPc.noConfusion Bool.noConfusion
    · exact moved WorkerPc.noConfusion Bool.noConfusion
  | tryLock i =>
    obtain ⟨-, rfl⟩ := step_tryLock.mp stepped
    unfold tryLock
    dsimp only
    split
    · exact moved WorkerPc.noConfusion Bool.noConfusion
    · exact moved WorkerPc.noConfusion Bool.noConfusion
  | enableListen i now =>
    obtain ⟨-, rfl⟩ := step_enableListen.mp stepped
    have place := Worker.enableListen_pc { cluster.workers i with pc := .looping } now
    refine moved ?_ ?_
    · rcases place with same | dead
      · rw [same]
        exact WorkerPc.noConfusion
      · rw [dead]
        exact WorkerPc.noConfusion
    · rcases place with same | dead
      · rw [same]
        exact Bool.noConfusion
      · rw [dead]
        exact Bool.noConfusion
  | schedule i now =>
    obtain ⟨here, rfl⟩ := step_schedule.mp stepped
    exact moved WorkerPc.noConfusion fun _ => here ▸ rfl
  | notifyOther i =>
    obtain ⟨here, rfl⟩ := step_notifyOther.mp stepped
    unfold notifyOther
    dsimp only
    split
    · exact moved WorkerPc.noConfusion Bool.noConfusion
    · exact moved WorkerPc.noConfusion fun _ => here ▸ rfl
  | unlockAssert i =>
    obtain ⟨eventFd, here, rfl⟩ := step_unlockAssert.mp stepped
    unfold unlockAssert
    dsimp only
    split
    · exact moved WorkerPc.noConfusion fun _ => here ▸ rfl
    · exact moved WorkerPc.noConfusion Bool.noConfusion
  | unlockSwap i =>
    obtain ⟨eventFd, here, rfl⟩ := step_unlockSwap.mp stepped
    unfold unlockSwap
    dsimp only
    split
    · exact moved WorkerPc.noConfusion fun _ => here ▸ rfl
    · exact moved WorkerPc.noConfusion fun _ => here ▸ rfl
  | writeEvent i =>
    obtain ⟨eventFd, here, rfl⟩ := step_writeEvent.mp stepped
    unfold writeEvent
    dsimp only
    split
    · exact moved WorkerPc.noConfusion Bool.noConfusion
    · exact moved WorkerPc.noConfusion Bool.noConfusion
  | stray k value =>
    obtain rfl := step_stray.mp stepped
    exact ⟨id, id⟩

end Cluster

/-- The workers, each with the server of its process. The size of the server's map takes the place of
the worker's own count, which is not used. -/
structure Workforce (muduo : Muduo) where
  cluster : Cluster
  servers : Nat → RunningServer muduo

/-- The steps of the workers and of their loops. -/
inductive WorkforceStep
  -- A step in which no worker counts a connection.
  | control (label : ClusterStep)
  -- The base loop of a worker accepts a connection, at the given time.
  | newConnection (i : Nat) (now : Int)
  -- A loop of a worker calls a functor, or sees a connection end.
  | event (i : Nat) (event : ServerEvent)

namespace Workforce

variable {muduo : Muduo}

/-- The thread of a loop of worker `i` is between two callbacks. Only the base loop has callbacks in
which the worker stands somewhere else. -/
def Ready (force : Workforce muduo) (i loop : Nat) : Prop :=
  (force.cluster.workers i).pc ≠ .absent ∧ (force.cluster.workers i).pc ≠ .dead ∧
    (loop = (force.servers i).threadPool.baseLoop → (force.cluster.workers i).pc = .looping)

instance (force : Workforce muduo) (i loop : Nat) : Decidable (force.Ready i loop) :=
  inferInstanceAs (Decidable (_ ∧ _ ∧ (_ → _)))

/-- An event in the server of a worker. -/
def serve (force : Workforce muduo) (i : Nat) (event : ServerEvent) : Option (Workforce muduo) :=
  ((runningServerMachine muduo).step (force.servers i) event).map fun server =>
    { force with servers := Function.update force.servers i server }

/-- The test under which `newConnection` hands over, with the size of the map. -/
def overloaded (force : Workforce muduo) (i : Nat) (now : Int) : Bool :=
  (force.servers i).connections.length > Worker.maxConnectionsNum ∧
    now - (force.cluster.workers i).startListenTime > 10

/-- `newConnection`, up to the decision whether to hand over. -/
def newConnection (force : Workforce muduo) (i : Nat) (now : Int) : Option (Workforce muduo) :=
  (force.serve i .newConnection).map fun after =>
    if after.overloaded i now then
      { after with
        cluster := after.cluster.set i { after.cluster.workers i with pc := .handingOver } }
    else after

/-- The workers as those see them who only know how many connections each has. -/
def counting (force : Workforce muduo) : Cluster :=
  force.cluster.counted fun i => (force.servers i).connections.length

/-- Before any worker is forked. -/
def new (eventfds : Nat → Int) (servers : Nat → RunningServer muduo) : Workforce muduo where
  cluster := Cluster.new eventfds
  servers := servers

/-- The `int` of the next id does not overflow. -/
def Counts (force : Workforce muduo) : WorkforceStep → Prop
  | .newConnection i _ => (force.servers i).nextConnId + 1 < 2 ^ 31
  | _ => True

end Workforce

/-- The workers with their servers as a machine. -/
def workforceMachine (muduo : Muduo) (setting : Setting) :
    Machine (Workforce muduo) WorkforceStep where
  step force
    | .control label =>
      if label.counts then none
      else ((clusterMachine setting).step force.cluster label).map fun cluster =>
        { force with cluster := cluster }
    | .newConnection i now =>
      -- The acceptor's channel is read only while it is listening.
      if (force.cluster.workers i).pc = .looping ∧ (force.cluster.workers i).listenning then
        force.newConnection i now
      else none
    | .event i event =>
      -- Connections are accepted by the step above.
      if event = .newConnection then none
      else ((force.servers i).loopOf event).bind fun loop =>
        if force.Ready i loop then force.serve i event else none

/-- The servers keep their connections, a worker that was never forked has none, and one that hands
over has more than the limit. -/
structure Staffed {muduo : Muduo} (force : Workforce muduo) : Prop where
  kept : ∀ i, (force.servers i).Kept
  absent : ∀ i, (force.cluster.workers i).pc = .absent → (force.servers i).connections.length = 0
  handing : ∀ i, (force.cluster.workers i).pc.handingOn →
    Worker.maxConnectionsNum < (force.servers i).connections.length

namespace Staffed

open Workforce

variable {muduo : Muduo} {setting : Setting} {force next : Workforce muduo} {i : Nat}
  {event : ServerEvent} {label : WorkforceStep}

/-- A step in which nothing is counted is a step of the workers. -/
theorem control (staffed : Staffed force) {label : ClusterStep} {cluster : Cluster}
    (other : label.counts = false)
    (stepped : (clusterMachine setting).step force.cluster label = some cluster) :
    Staffed { force with cluster := cluster } ∧
      (clusterMachine setting).step force.counting label =
        some (counting { force with cluster := cluster }) := by
  -- A step that counts nothing does the same whatever sizes the workers are shown.
  have places := Cluster.pc_of_step other stepped
  refine ⟨⟨staffed.kept, fun i absent => ?_, fun i handing => ?_⟩, ?_⟩
  · exact staffed.absent i ((places i).1 absent)
  · exact staffed.handing i ((places i).2 handing)
  · exact Cluster.step_counted other staffed.absent stepped

/-- The size of the map is the same in the servers that have no part in an event. -/
theorem length_other (servers : Nat → RunningServer muduo) (server : RunningServer muduo) (j : Nat)
    (other : j ≠ i) : (Function.update servers i server j).connections.length =
      (servers j).connections.length := by
  rw [Function.update_of_ne other]

/-- A server that keeps its connections takes the place of another. -/
theorem kept_update (staffed : Staffed force) {server : RunningServer muduo} (kept : server.Kept)
    (j : Nat) : (Function.update force.servers i server j).Kept := by
  -- The replaced server is kept by assumption, the others as before.
  by_cases own : j = i
  · subst own
    rwa [Function.update_self]
  · rw [Function.update_of_ne own]
    exact staffed.kept j

/-- The map of a worker that stands at its loop may change. -/
theorem looping (staffed : Staffed force) (here : (force.cluster.workers i).pc = .looping)
    {server : RunningServer muduo} (kept : server.Kept) :
    Staffed { force with servers := Function.update force.servers i server } where
  -- A worker in its loop is neither absent nor handing on, so its server may change.
  kept := staffed.kept_update kept
  absent j absent := by
    by_cases mine : j = i
    · subst mine
      cases here.symm.trans absent
    · exact (length_other force.servers server j mine).trans (staffed.absent j absent)
  handing j handing := by
    by_cases mine : j = i
    · subst mine
      change (force.cluster.workers j).pc.handingOn at handing
      rw [here] at handing
      cases handing
    · exact (staffed.handing j handing).trans_eq (length_other force.servers server j mine).symm

/-- An accepted connection is counted, before the decision whether to hand over. -/
theorem newConnection (documented : muduo.Documented) (staffed : Staffed force) {now : Int}
    (counts : (force.servers i).nextConnId + 1 < 2 ^ 31)
    (here : (force.cluster.workers i).pc = .looping) (on : (force.cluster.workers i).listenning)
    (stepped : force.newConnection i now = some next) :
    Staffed next ∧
      (clusterMachine setting).step force.counting (.newConnection i now) =
        some next.counting := by
  obtain ⟨after, served, rfl⟩ := Option.map_eq_some_iff.mp stepped
  obtain ⟨server, moved, rfl⟩ := Option.map_eq_some_iff.mp served
  have kept := (staffed.kept i).step documented (fun _ => counts) moved
  have made : server = (force.servers i).newConnection := by
    simp only [runningServerMachine, (staffed.kept i).intact, Bool.false_eq_true, if_false,
      Option.some.injEq] at moved
    exact moved.symm
  -- The map is larger by one, and the other maps are as they were.
  have others := length_other (i := i) force.servers server
  have own : (Function.update force.servers i server i).connections.length =
      (force.servers i).connections.length + 1 := by
    rw [Function.update_self, made, RunningServer.length_newConnection (staffed.kept i).indexed]
  -- The test of the worker that counts is the test on the size of the map.
  have test : { force.counting.workers i with
      connections := (force.counting.workers i).connections + 1 }.overloaded now =
        Workforce.overloaded { force with servers := Function.update force.servers i server } i
          now := by
    rw [Workforce.overloaded, own]
    rfl
  rw [Cluster.step_newConnection, Cluster.newConnection, test]
  dsimp only
  split
  · rename_i decided
    refine ⟨⟨staffed.kept_update kept, fun j absent => ?_, fun j handing => ?_⟩, ⟨here, on⟩, ?_⟩
    · by_cases mine : j = i
      · subst mine
        simp [Cluster.set] at absent
      · simp only [Cluster.set, Function.update_of_ne mine] at absent
        exact (others j mine).trans (staffed.absent j absent)
    · by_cases mine : j = i
      · subst mine
        simp only [Workforce.overloaded, decide_eq_true_eq] at decided
        exact decided.1
      · simp only [Cluster.set, Function.update_of_ne mine] at handing
        exact (staffed.handing j handing).trans_eq (others j mine).symm
    · have counted := Cluster.counted_set force.cluster others
        { force.cluster.workers i with pc := .handingOver }
      rw [own] at counted
      exact counted.symm
  · refine ⟨staffed.looping here kept, ⟨here, on⟩, ?_⟩
    have counted := Cluster.counted_own force.cluster others
    rw [own] at counted
    exact counted.symm

/-- Any other event counts a connection less, or is not seen by those who count. -/
theorem serve (documented : muduo.Documented) (staffed : Staffed force)
    (other : event ≠ .newConnection) {loop : Nat}
    (place : (force.servers i).loopOf event = some loop) (ready : force.Ready i loop)
    (stepped : force.serve i event = some next) :
    Staffed next ∧ (next.counting = force.counting ∨
      (clusterMachine setting).step force.counting (.removeConnection i) =
        some next.counting) := by
  obtain ⟨server, moved, rfl⟩ := Option.map_eq_some_iff.mp stepped
  have kept := (staffed.kept i).step documented (fun new => absurd new other) moved
  have others := length_other (i := i) force.servers server
  have own : (Function.update force.servers i server i).connections.length =
      server.connections.length := by rw [Function.update_self]
  rcases RunningServer.length_of_step documented (staffed.kept i) other moved with
    same | ⟨base, fewer⟩
  · -- Nobody counts anything.
    have lengths (j : Nat) : (Function.update force.servers i server j).connections.length =
        (force.servers j).connections.length := by
      by_cases mine : j = i
      · subst mine
        exact own.trans same
      · exact others j mine
    refine ⟨⟨staffed.kept_update kept, fun j absent => ?_, fun j handing => ?_⟩, .inl ?_⟩
    · exact (lengths j).trans (staffed.absent j absent)
    · exact (staffed.handing j handing).trans_eq (lengths j).symm
    · exact congrArg force.cluster.counted (funext lengths)
  · -- The base loop is between two callbacks, so the worker is at its loop.
    have here := ready.2.2 (Option.some.inj (place.symm.trans base))
    refine ⟨staffed.looping here kept, .inr ?_⟩
    have counted : (force.counting.workers i).connections =
        (Function.update force.servers i server i).connections.length + 1 := by
      rw [own, fewer]
      rfl
    refine Cluster.step_removeConnection.mpr ⟨⟨here, by omega⟩, ?_⟩
    rw [counted]
    exact (Cluster.counted_own force.cluster others).symm

/-- Before any worker is forked, no server has a connection. -/
theorem start (documented : muduo.Documented) (eventfds : Nat → Int) (addresses : Nat → Addresses)
    (numThreads : Nat) (name : List Char) {ipPort : List Char} (short : ipPort.length ≤ 51) :
    Staffed (Workforce.new eventfds fun i =>
      RunningServer.start muduo (addresses i) numThreads name ipPort) where
  -- Every server has just started, and every worker is still to be forked.
  kept i := RunningServer.Kept.start documented (addresses i) numThreads name ipPort short
  absent _ _ := rfl
  handing _ handing := Bool.noConfusion handing

/-- Every step is matched by a step of the workers that count, or by none. -/
theorem step (documented : muduo.Documented) (staffed : Staffed force) (counts : force.Counts label)
    (stepped : (workforceMachine muduo setting).step force label = some next) :
    Staffed next ∧ ∃ labels, (clusterMachine setting).run force.counting labels =
      some next.counting := by
  -- A step that is matched by one step.
  have matched {labelOne : ClusterStep}
      (one : (clusterMachine setting).step force.counting labelOne = some next.counting) :
      ∃ labels, (clusterMachine setting).run force.counting labels = some next.counting :=
    ⟨[labelOne], by rw [Machine.run_cons, one, Option.bind_some, Machine.run_nil]⟩
  cases label with
  | control label =>
    obtain ⟨other, moved⟩ := Option.ite_none_left_eq_some.mp stepped
    obtain ⟨cluster, inside, rfl⟩ := Option.map_eq_some_iff.mp moved
    obtain ⟨kept, one⟩ := staffed.control (Bool.eq_false_iff.mpr other) inside
    exact ⟨kept, matched one⟩
  | newConnection i now =>
    obtain ⟨⟨here, on⟩, moved⟩ := Option.ite_none_right_eq_some.mp stepped
    obtain ⟨kept, one⟩ := staffed.newConnection documented counts here on moved
    exact ⟨kept, matched one⟩
  | event i event =>
    obtain ⟨other, moved⟩ := Option.ite_none_left_eq_some.mp stepped
    obtain ⟨loop, place, inside⟩ := Option.bind_eq_some_iff.mp moved
    obtain ⟨ready, served⟩ := Option.ite_none_right_eq_some.mp inside
    obtain ⟨kept, same | one⟩ := staffed.serve documented other place ready served
    · exact ⟨kept, [], congrArg some same.symm⟩
    · exact ⟨kept, matched one⟩

end Staffed

/-- The workers with their servers refine the workers that count. Over muduo as it is documented, in
every run of the processes, with the connections of each server in its map and its loops in threads
of their own, the workers show what those show in some run who only know the sizes of the maps. So at
most one worker listens. No server loses sight of a connection, and a worker that hands over has more
than the limit. -/
theorem workforce_refines {muduo : Muduo} (documented : muduo.Documented) (setting : Setting)
    (eventfds : Nat → Int) (addresses : Nat → Addresses) (numThreads : Nat) (name : List Char)
    {ipPort : List Char} (short : ipPort.length ≤ 51) {labels : List WorkforceStep}
    {last : Workforce muduo}
    (met : (workforceMachine muduo setting).Meets Workforce.Counts
      (Workforce.new eventfds fun i =>
        RunningServer.start muduo (addresses i) numThreads name ipPort) labels)
    (ran : (workforceMachine muduo setting).run
      (Workforce.new eventfds fun i =>
        RunningServer.start muduo (addresses i) numThreads name ipPort) labels = some last) :
    (∃ steps, (clusterMachine setting).run (Cluster.new eventfds) steps = some last.counting) ∧
      (∀ i j, (last.cluster.workers i).listenning → (last.cluster.workers j).listenning → i = j) ∧
      ∀ i, (last.servers i).Accounted ∧ ((last.cluster.workers i).pc.handingOn →
        Worker.maxConnectionsNum < (last.servers i).connections.length) := by
  have start := Staffed.start documented eventfds addresses numThreads name short
  -- Each step is matched by steps of the workers that count.
  obtain ⟨steps, end_, ranSteps, staffed, rfl⟩ := Machine.run_simulated
    (fun (force : Workforce muduo) cluster => Staffed force ∧ cluster = force.counting)
    (fun force cluster label next (related : Staffed force ∧ cluster = force.counting) counts
        stepped => by
      obtain ⟨kept, steps, ranSteps⟩ := related.1.step documented counts stepped
      rw [related.2]
      exact ⟨steps, next.counting, ranSteps, kept, rfl⟩)
    ⟨start, rfl⟩ met ran
  have held := tokenHeld_run ranSteps
  refine ⟨⟨steps, ranSteps⟩, fun i j on onOther => ?_, fun i => ?_⟩
  · -- Both hold the mutex.
    have same := ((held.worker i).listening on).1.symm.trans ((held.worker j).listening onOther).1
    exact Option.some.inj same
  · exact ⟨(staffed.kept i).accounted, staffed.handing i⟩

/-- One worker starts to listen, and its first connection ends. -/
def firstEnds : List WorkforceStep :=
  [.control (.fork 0 5 true 0), .control (.start 0), .control (.tryLock 0),
    .control (.enableListen 0 0), .newConnection 0 1, .event 0 (.functor 4),
    .event 0 (.handleClose 0), .event 0 (.functor 2)]

/-- The workers after that, with two I/O threads in each. -/
def afterFirstEnds : Workforce plainMuduo :=
  ((workforceMachine plainMuduo ⟨3, fun _ _ => none⟩).run
    (Workforce.new (fun _ => 0) fun _ => RunningServer.start plainMuduo freshMemory 2 ['p'] ['i'])
    firstEnds).get rfl

/-- Those that count come to a worker that listens and has no connection. -/
theorem workforce_refines_first :
    (∃ steps, (clusterMachine ⟨3, fun _ _ => none⟩).run (Cluster.new fun _ => 0) steps =
      some afterFirstEnds.counting) ∧ (afterFirstEnds.counting.workers 0).listenning ∧
        (afterFirstEnds.counting.workers 0).connections = 0 := by
  have met : (workforceMachine plainMuduo ⟨3, fun _ _ => none⟩).Meets Workforce.Counts
      (Workforce.new (fun _ => 0) fun _ =>
        RunningServer.start plainMuduo freshMemory 2 ['p'] ['i']) firstEnds := by
    -- Only the connection needs an id.
    iterate 4
      refine ⟨trivial, fun _ stepped => ?_⟩
      cases stepped
    refine ⟨show 1 + 1 < 2 ^ 31 by decide, fun _ stepped => ?_⟩
    cases stepped
    iterate 3
      refine ⟨trivial, fun _ stepped => ?_⟩
      cases stepped
    trivial
  have reached := workforce_refines documented_plainMuduo ⟨3, fun _ _ => none⟩ (fun _ => 0)
    (fun _ => freshMemory) 2 ['p'] (show ['i'].length ≤ 51 by decide) met (Option.some_get rfl).symm
  exact ⟨reached.1, rfl, rfl⟩

end EnhancedProxy
