import EnhancedProxy.Process.Token

/-! How long a worker has been listening when it decides to hand over. -/

namespace EnhancedProxy

/-- When a worker's acceptor began to listen, and whether it did through `TcpServer::start` or
through `acceptorSchedulingHandler`. -/
structure Beginning where
  time : Int
  throughStart : Bool
  deriving DecidableEq, Repr

/-- The workers, with what each found in `startListenTime` when it was made, and when each last
began to listen. -/
structure Listeners where
  cluster : Cluster
  leftover : Nat → Int
  began : Nat → Option Beginning

/-- A worker whose acceptor is off begins to listen. -/
def Listeners.begin (listeners : Listeners) (i : Nat) (now : Int) : Nat → Option Beginning :=
  if (listeners.cluster.workers i).listenning then listeners.began
  else
    Function.update listeners.began i
      (some { time := now, throughStart := !(listeners.cluster.workers i).isStart })

/-- What a step adds to the record of beginnings. -/
def Listeners.noteBegan (listeners : Listeners) : ClusterStep → Nat → Option Beginning
  | .enableListen i now => listeners.begin i now
  | .schedule i now => listeners.begin i now
  | _ => listeners.began

/-- What a step adds to the record of uninitialized fields. -/
def Listeners.noteLeftover (listeners : Listeners) : ClusterStep → Nat → Int
  | .fork i _ _ startListenTime => Function.update listeners.leftover i startListenTime
  | _ => listeners.leftover

/-- The workers as a machine, with both records. -/
def listenersMachine (setting : Setting) : Machine Listeners ClusterStep where
  step listeners label :=
    ((clusterMachine setting).step listeners.cluster label).map fun next =>
      { cluster := next
        leftover := listeners.noteLeftover label
        began := listeners.noteBegan label }

/-- Before any worker is forked. -/
def Listeners.new (eventfds : Nat → Int) : Listeners where
  cluster := Cluster.new eventfds
  leftover _ := 0
  began _ := none

/-- A worker that hands over has too many connections, and has listened for more than 10 seconds. -/
def Spaced (listeners : Listeners) : ClusterStep → Prop
  | .newConnection i now =>
    listeners.cluster.HandsOver i now →
      Worker.maxConnectionsNum < (listeners.cluster.workers i).connections + 1 ∧
        ∃ beginning, listeners.began i = some beginning ∧ 10 < now - beginning.time
  | _ => True

/-- A worker that listens since its start does not accept a connection beyond the limit within 10
seconds, unless what it found in `startListenTime` is as recent. -/
def NotMisled (listeners : Listeners) : ClusterStep → Prop
  | .newConnection i now =>
    ∀ time, listeners.began i = some ⟨time, true⟩ →
      (listeners.cluster.workers i).pc = .looping → (listeners.cluster.workers i).listenning →
        Worker.maxConnectionsNum < (listeners.cluster.workers i).connections + 1 →
          now ≤ time + 10 → now ≤ listeners.leftover i + 10
  | _ => True

/-- The time from which a worker counts its interval is that of its last beginning, if that was
through `acceptorSchedulingHandler`, and else what the worker found. -/
structure Worker.Dated (worker : Worker) (leftover : Int) (began : Option Beginning) : Prop where
  unstarted : worker.isStart = false → worker.startListenTime = leftover
  listening : worker.listenning → ∃ beginning, began = some beginning ∧
    worker.startListenTime = if beginning.throughStart then leftover else beginning.time

/-- The acceptor is not switched on, and the fields that tell from when to count stay as they are.
-/
structure Worker.NotSwitchedOn (worker next : Worker) : Prop where
  listening : next.listenning → worker.listenning
  isStart : next.isStart = worker.isStart
  time : next.startListenTime = worker.startListenTime

/-- What a step of worker `i` does to the time from which the worker counts its interval. -/
inductive Switch (listeners next : Listeners) (i : Nat) (worker : Worker) : Prop
  -- The acceptor is not switched on.
  | kept : (listeners.cluster.workers i).NotSwitchedOn worker →
      next.leftover = listeners.leftover → next.began = listeners.began →
      Switch listeners next i worker
  -- The worker is made, with whatever its memory holds.
  | made {startListenTime : Int} : worker.startListenTime = startListenTime →
      worker.listenning = false → worker.isStart = false →
      next.leftover = Function.update listeners.leftover i startListenTime →
      next.began = listeners.began → Switch listeners next i worker
  -- The winner of the lock begins to listen.
  | begins (now : Int) : (listeners.cluster.workers i).listenning = false →
      worker = { listeners.cluster.workers i with pc := .looping }.enableListen now →
      next.leftover = listeners.leftover →
      next.began = Function.update listeners.began i
        (some ⟨now, !(listeners.cluster.workers i).isStart⟩) →
      Switch listeners next i worker

/-- Every step moves one worker, and switches its acceptor on only where it begins to listen. -/
theorem TokenHeld.switch {setting : Setting} {listeners next : Listeners} {label : ClusterStep}
    (held : TokenHeld listeners.cluster)
    (stepped : (listenersMachine setting).step listeners label = some next) :
    ∃ i worker, next.cluster.workers = Function.update listeners.cluster.workers i worker ∧
      Switch listeners next i worker := by
  obtain ⟨cluster, moved, rfl⟩ := Option.map_eq_some_iff.mp stepped
  -- One case for each atomic step.
  cases label with
  | fork i fd owner startListenTime =>
    obtain ⟨-, rfl⟩ := Cluster.step_fork.mp moved
    exact ⟨i, _, rfl, .made rfl rfl rfl rfl rfl⟩
  | start i =>
    obtain ⟨-, rfl⟩ := Cluster.step_start.mp moved
    exact ⟨i, _, rfl, .kept ⟨id, rfl, rfl⟩ rfl rfl⟩
  | wake i =>
    obtain ⟨-, rfl⟩ := Cluster.step_wake.mp moved
    unfold Cluster.eventHandler
    dsimp only
    split
    · exact ⟨i, _, rfl, .kept ⟨Bool.noConfusion, rfl, rfl⟩ rfl rfl⟩
    · exact ⟨i, _, rfl, .kept ⟨id, rfl, rfl⟩ rfl rfl⟩
  | tryLock i =>
    obtain ⟨-, rfl⟩ := Cluster.step_tryLock.mp moved
    unfold Cluster.tryLock
    split <;> exact ⟨i, _, rfl, .kept ⟨id, rfl, rfl⟩ rfl rfl⟩
  | enableListen i now =>
    obtain ⟨here, rfl⟩ := Cluster.step_enableListen.mp moved
    -- The winner of the lock was silent.
    have silent := (held.worker i).silent (by rw [here]; rfl)
    refine ⟨i, _, rfl, .begins now silent rfl rfl ?_⟩
    simp only [Listeners.noteBegan, Listeners.begin, silent, Bool.false_eq_true, if_false]
  | newConnection i now =>
    obtain ⟨-, rfl⟩ := Cluster.step_newConnection.mp moved
    unfold Cluster.newConnection
    dsimp only
    split <;> exact ⟨i, _, rfl, .kept ⟨id, rfl, rfl⟩ rfl rfl⟩
  | removeConnection i =>
    obtain ⟨-, rfl⟩ := Cluster.step_removeConnection.mp moved
    exact ⟨i, _, rfl, .kept ⟨id, rfl, rfl⟩ rfl rfl⟩
  | schedule i now =>
    obtain ⟨here, rfl⟩ := Cluster.step_schedule.mp moved
    -- The toggle of the hand-off finds the acceptor on.
    have on := (held.worker i).handing here
    simp only [Worker.acceptorSchedulingHandler, Listeners.noteBegan, Listeners.begin, on, if_true]
    exact ⟨i, _, rfl, .kept ⟨Bool.noConfusion, rfl, rfl⟩ rfl rfl⟩
  | notifyOther i =>
    obtain ⟨-, rfl⟩ := Cluster.step_notifyOther.mp moved
    unfold Cluster.notifyOther
    dsimp only
    split
    · exact ⟨i, _, rfl, .kept ⟨Bool.noConfusion, rfl, rfl⟩ rfl rfl⟩
    · exact ⟨i, _, rfl, .kept ⟨id, rfl, rfl⟩ rfl rfl⟩
  | unlockAssert i =>
    obtain ⟨eventFd, -, rfl⟩ := Cluster.step_unlockAssert.mp moved
    unfold Cluster.unlockAssert
    dsimp only
    split
    · exact ⟨i, _, rfl, .kept ⟨id, rfl, rfl⟩ rfl rfl⟩
    · exact ⟨i, _, rfl, .kept ⟨Bool.noConfusion, rfl, rfl⟩ rfl rfl⟩
  | unlockSwap i =>
    obtain ⟨eventFd, -, rfl⟩ := Cluster.step_unlockSwap.mp moved
    unfold Cluster.unlockSwap
    dsimp only
    split <;> exact ⟨i, _, rfl, .kept ⟨id, rfl, rfl⟩ rfl rfl⟩
  | writeEvent i =>
    obtain ⟨eventFd, -, rfl⟩ := Cluster.step_writeEvent.mp moved
    unfold Cluster.writeEvent
    dsimp only
    split <;> exact ⟨i, _, rfl, .kept ⟨id, rfl, rfl⟩ rfl rfl⟩
  | stray k value =>
    obtain rfl := Cluster.step_stray.mp moved
    exact ⟨0, _, (Function.update_eq_self 0 _).symm, .kept ⟨id, rfl, rfl⟩ rfl rfl⟩

/-- Every worker's time is accounted for. -/
structure AllDated (listeners : Listeners) : Prop where
  held : TokenHeld listeners.cluster
  worker : ∀ i, (listeners.cluster.workers i).Dated (listeners.leftover i) (listeners.began i)

namespace Worker.Dated

variable {worker next : Worker} {leftover : Int} {began : Option Beginning}

/-- A worker that is not switched on stays as it is. -/
theorem kept (dated : worker.Dated leftover began) (same : worker.NotSwitchedOn next) :
    next.Dated leftover began where
  -- Its time is the one before, so what was counted from there still is.
  unstarted first := same.time.trans (dated.unstarted (same.isStart.symm.trans first))
  listening still := by
    obtain ⟨beginning, last, counted⟩ := dated.listening (same.listening still)
    exact ⟨beginning, last, same.time.trans counted⟩

/-- A worker that is switched on keeps what it found the first time, and takes the time later on. -/
theorem enableListen (dated : worker.Dated leftover began)
    (started : worker.started = worker.isStart) (silent : worker.listenning = false) (now : Int) :
    (worker.enableListen now).Dated leftover
      (some { time := now, throughStart := !worker.isStart }) := by
  cases first : worker.isStart with
  | false =>
    -- `Acceptor::listen` keeps its own time.
    have found := dated.unstarted first
    rw [first] at started
    have starts : worker.enableListen now =
        { worker with
          listenning := true
          acceptorStartListenTime := now
          started := true
          isStart := true } := by
      simp [Worker.enableListen, first, tcpStart, started, silent, listen]
    rw [starts]
    exact ⟨fun off => Bool.noConfusion off, fun _ => ⟨_, rfl, found⟩⟩
  | true =>
    -- The toggle writes the time that the guard reads.
    have switches : worker.enableListen now =
        { worker with listenning := true, startListenTime := now } := by
      simp [Worker.enableListen, first, acceptorSchedulingHandler, silent]
    rw [switches]
    exact ⟨fun off => Bool.noConfusion (first.symm.trans off), fun _ => ⟨_, rfl, rfl⟩⟩

end Worker.Dated

namespace AllDated

variable {listeners : Listeners} {i : Nat} {worker : Worker}

/-- Before any worker is forked, nothing is to be accounted for. -/
theorem start (eventfds : Nat → Int) : AllDated (Listeners.new eventfds) where
  -- Nobody listens, and no worker has been started.
  held := TokenHeld.start eventfds
  worker _ := ⟨fun _ => rfl, fun on => Bool.noConfusion on⟩

/-- Every step keeps the times accounted for. -/
theorem step {setting : Setting} {next : Listeners} {label : ClusterStep} (dated : AllDated listeners)
    (stepped : (listenersMachine setting).step listeners label = some next) : AllDated next := by
  obtain ⟨i, worker, workers, switch⟩ := dated.held.switch stepped
  obtain ⟨cluster, moved, rfl⟩ := Option.map_eq_some_iff.mp stepped
  refine ⟨dated.held.step moved, fun j => ?_⟩
  rw [workers]
  by_cases same : j = i
  · subst same
    rw [Function.update_self]
    cases switch with
    | kept unswitched leftover began =>
      rw [leftover, began]
      exact (dated.worker j).kept unswitched
    | made found off first leftover began =>
      rw [leftover, began, Function.update_self]
      exact ⟨fun _ => found, fun on => Bool.noConfusion (off.symm.trans on)⟩
    | begins now silent switched leftover began =>
      -- Leaving `tryLock` changes neither the fields nor the records.
      have looping : Worker.Dated { listeners.cluster.workers j with pc := .looping }
          (listeners.leftover j) (listeners.began j) := (dated.worker j).kept ⟨id, rfl, rfl⟩
      rw [leftover, began, Function.update_self, switched]
      exact looping.enableListen (dated.held.worker j).began silent now
  · -- The records of the other workers are not touched.
    rw [Function.update_of_ne same]
    have other := dated.worker j
    cases switch with
    | kept _ leftover began => rwa [leftover, began]
    | made _ _ _ leftover began => rwa [leftover, began, Function.update_of_ne same]
    | begins now _ _ leftover began => rwa [leftover, began, Function.update_of_ne same]

/-- A worker hands over too early exactly if it counts from what it found in `startListenTime`. -/
theorem spaced_iff {label : ClusterStep} (dated : AllDated listeners) :
    Spaced listeners label ↔ NotMisled listeners label := by
  cases label with
  | newConnection i now =>
    constructor
    · intro spaced time began looping on crowded recent
      -- What the worker found lies further back, so that it hands over, and too early.
      by_contra late
      obtain ⟨beginning, last, counted⟩ := (dated.worker i).listening on
      obtain rfl : beginning = ⟨time, true⟩ := Option.some.inj (last.symm.trans began)
      rw [if_pos rfl] at counted
      have overloaded : Worker.overloaded { listeners.cluster.workers i with
          connections := (listeners.cluster.workers i).connections + 1 } now := by
        refine decide_eq_true ⟨crowded, ?_⟩
        dsimp only
        omega
      -- So more than 10 seconds must have passed since it began, which they have not.
      obtain ⟨-, beginning, last, interval⟩ := spaced ⟨looping, on, overloaded⟩
      obtain rfl : beginning = ⟨time, true⟩ := Option.some.inj (last.symm.trans began)
      dsimp only at interval
      omega
    · intro notMisled handsOver
      obtain ⟨looping, on, overloaded⟩ := handsOver
      obtain ⟨crowded, interval⟩ := of_decide_eq_true overloaded
      obtain ⟨beginning, last, counted⟩ := (dated.worker i).listening on
      refine ⟨crowded, beginning, last, ?_⟩
      dsimp only at interval
      -- Through the toggle it counts from its beginning, and through the start from what it found.
      by_cases first : beginning.throughStart
      · rw [if_pos first] at counted
        have enough := notMisled beginning.time (by rw [last, ← first]) looping on crowded
        omega
      · rw [if_neg first] at counted
        omega
  | _ => exact iff_of_true trivial trivial

end AllDated

/-- In every run, workers hand over only after their interval, if and only if none that listens
since its start is misled by what it found in `startListenTime`. -/
theorem spaced_iff_notMisled (setting : Setting) (eventfds : Nat → Int) (labels : List ClusterStep) :
    (listenersMachine setting).Meets Spaced (Listeners.new eventfds) labels ↔
      (listenersMachine setting).Meets NotMisled (Listeners.new eventfds) labels :=
  -- Dated workers stay dated whatever step is taken, so each step is judged by itself.
  Machine.meets_iff_of_invariant (fun _ _ _ dated _ stepped => dated.step stepped)
    (fun _ _ dated => dated.spaced_iff) (AllDated.start eventfds)

/-- Accepted connections are not recorded. -/
theorem listeners_run_connections (setting : Setting) (listeners : Listeners) (i : Nat) (now : Int)
    (connections : Nat) (here : (listeners.cluster.workers i).pc = .looping)
    (on : (listeners.cluster.workers i).listenning)
    (fits : (listeners.cluster.workers i).connections + connections ≤ 512) :
    (listenersMachine setting).run listeners (List.replicate connections (.newConnection i now)) =
      some { listeners with
        cluster := listeners.cluster.set i { listeners.cluster.workers i with
          connections := (listeners.cluster.workers i).connections + connections } } := by
  have unrecorded : (listenersMachine setting).run listeners
      (List.replicate connections (.newConnection i now)) =
        ((clusterMachine setting).run listeners.cluster
          (List.replicate connections (.newConnection i now))).map fun cluster =>
            { listeners with cluster := cluster } := by
    -- No connection makes an entry, whatever it does to the workers.
    clear here on fits
    induction connections generalizing listeners with
    | zero => rfl
    | succ connections ih =>
      rw [List.replicate_succ, Machine.run_cons, Machine.run_cons]
      cases stepped : (clusterMachine setting).step listeners.cluster (.newConnection i now) with
      | none => simp [listenersMachine, stepped]
      | some next =>
        simp only [listenersMachine, stepped, Option.map_some, Option.bind_some]
        exact ih _
  rw [unrecorded, run_newConnections setting listeners.cluster i now connections here on fits]
  rfl

/-- A worker that finds 0 in `startListenTime` starts to listen at 100, and accepts connections up
to the limit at once. -/
def crowdAtStart : List ClusterStep :=
  [.fork 0 5 true 0, .start 0, .tryLock 0, .enableListen 0 100] ++
    List.replicate 512 (.newConnection 0 100)

/-- One connection more, at the same time, makes the worker hand over. -/
theorem handOff_at_once :
    ¬ (listenersMachine ⟨2, fun _ _ => none⟩).Meets Spaced (Listeners.new fun _ => 0)
      (crowdAtStart ++ [.newConnection 0 100]) := by
  have started : (listenersMachine ⟨2, fun _ _ => none⟩).run (Listeners.new fun _ => 0)
      [.fork 0 5 true 0, .start 0, .tryLock 0, .enableListen 0 100] = some _ := rfl
  have reached := Machine.run_trans _ started
    (listeners_run_connections _ _ 0 100 512 rfl rfl (Nat.le_refl 512))
  intro met
  have spaced := ((Machine.meets_append _).mp met).2 _ reached
  -- The worker counts from 0, and began at 100.
  obtain ⟨-, beginning, began, interval⟩ := spaced.1 ⟨rfl, rfl, by decide⟩
  cases began
  exact absurd interval (by decide)

end EnhancedProxy
