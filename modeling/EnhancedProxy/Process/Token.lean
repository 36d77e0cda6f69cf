import EnhancedProxy.Process.Listening
import Mathlib.Tactic.FinCases

/-! When the listening token is never lost, and how the first hand-off loses it. -/

namespace EnhancedProxy

/-- The places outside the callbacks of the event loop. -/
def WorkerPc.betweenCallbacks : WorkerPc → Bool
  | .absent | .constructed | .looping | .dead => true
  | _ => false

/-- The places after a call to an installed handler. -/
def WorkerPc.notifies : WorkerPc → Bool
  | .unlocking _ | .releasing _ | .writing _ => true
  | _ => false

/-- The places after the decision to hand over, with the end of a process that follows it. -/
def WorkerPc.handsOver : WorkerPc → Bool
  | .handingOver | .notifying | .dead => true
  | _ => false

/-- No worker is inside a callback. -/
def Cluster.Quiet (cluster : Cluster) : Prop := ∀ i, (cluster.workers i).pc.betweenCallbacks

/-- An acceptor is listening, or the wake-up of a worker is pending that will find the byte 0. -/
def Cluster.TokenPresent (cluster : Cluster) : Prop :=
  (∃ i, (cluster.workers i).listenning) ∨
  (cluster.mutexByte = 0 ∧ ∃ k, cluster.counters k ≠ 0 ∧
    (cluster.workers k).pc ≠ .absent ∧ (cluster.workers k).pc ≠ .dead)

/-- Only the workers write to eventfds, and an eventfd wakes its worker only when it is not zero. -/
def Cluster.Delivered (cluster : Cluster) : ClusterStep → Prop
  -- The loop calls `EventHandler` only for a counter that is not zero.
  | .wake i => cluster.counters i ≠ 0
  | .stray _ _ => False
  | _ => True

/-- A new connection does not make its worker hand over. -/
def Cluster.KeepsAccepting (cluster : Cluster) : ClusterStep → Prop
  | .newConnection i now =>
    ¬ { cluster.workers i with connections := (cluster.workers i).connections + 1 }.overloaded now
  | _ => True

/-- No handler was ever installed, and no eventfd was ever written. -/
structure Unnotified (cluster : Cluster) : Prop where
  held : TokenHeld cluster
  counters : ∀ k, cluster.counters k = 0
  handlers : ∀ i, (cluster.workers i).notifyOtherWorkerToListen = none
  places : ∀ i, (cluster.workers i).pc.notifies = false

/-- What a delivered step of worker `i` can do while no handler is installed. -/
inductive Move (cluster next : Cluster) (i : Nat) (worker : Worker) (label : ClusterStep) : Prop
  -- The worker goes on without a change to who is listening.
  | goesOn : cluster.KeepsAccepting label → (cluster.workers i).pc ≠ .locked →
      (cluster.workers i).pc.handsOver = false → worker.pc.handsOver = false →
      worker.listenning = (cluster.workers i).listenning → next.holder = cluster.holder →
      next.wins = cluster.wins → Move cluster next i worker label
  -- The worker wins the free mutex.
  | wins : cluster.KeepsAccepting label → cluster.mutexByte = 0 → worker.pc = .locked →
      next.holder = some i → next.wins = i :: cluster.wins → Move cluster next i worker label
  -- The winner starts to listen.
  | listens : cluster.KeepsAccepting label → (cluster.workers i).pc = .locked →
      worker.listenning → worker.pc = .looping → next.holder = cluster.holder →
      next.wins = cluster.wins → Move cluster next i worker label
  -- A new connection makes the listening worker hand over.
  | overloads : ¬ cluster.KeepsAccepting label → (cluster.workers i).listenning →
      worker.pc.handsOver → next.holder = cluster.holder → next.wins = cluster.wins →
      Move cluster next i worker label
  -- The hand-off goes on, up to the exception.
  | loses : cluster.KeepsAccepting label → (cluster.workers i).pc.handsOver →
      (cluster.workers i).pc.holdsMutex → worker.pc.handsOver → next.holder = cluster.holder →
      next.wins = cluster.wins → Move cluster next i worker label

/-- While no handler is installed, a delivered step moves one worker and writes no eventfd. -/
theorem Unnotified.move {setting : Setting} {cluster next : Cluster} {label : ClusterStep}
    (unnotified : Unnotified cluster) (delivered : cluster.Delivered label)
    (stepped : (clusterMachine setting).step cluster label = some next) :
    ∃ i worker, next.workers = Function.update cluster.workers i worker ∧
      next.counters = cluster.counters ∧ worker.notifyOtherWorkerToListen = none ∧
      worker.pc.notifies = false ∧ Move cluster next i worker label := by
  -- One case for each step, with the kind of move it is.
  cases label with
  | fork i fd owner startListenTime =>
    obtain ⟨⟨here, -⟩, rfl⟩ := Cluster.step_fork.mp stepped
    -- A worker is forked silent, and was silent while it did not exist.
    have silent := (unnotified.held.worker i).silent (by rw [here]; rfl)
    exact ⟨i, _, rfl, rfl, rfl, rfl, .goesOn trivial (by simp [here]) (by rw [here]; rfl) rfl
      silent.symm rfl rfl⟩
  | start i =>
    obtain ⟨here, rfl⟩ := Cluster.step_start.mp stepped
    exact ⟨i, _, rfl, rfl, unnotified.handlers i, rfl, .goesOn trivial (by simp [here])
      (by rw [here]; rfl) rfl rfl rfl rfl⟩
  | wake i => exact absurd (unnotified.counters i) delivered
  | tryLock i =>
    obtain ⟨here, rfl⟩ := Cluster.step_tryLock.mp stepped
    unfold Cluster.tryLock
    split
    · rename_i free
      exact ⟨i, _, rfl, rfl, unnotified.handlers i, rfl, .wins trivial free rfl rfl rfl⟩
    · exact ⟨i, _, rfl, rfl, unnotified.handlers i, rfl, .goesOn trivial (by simp [here])
        (by rw [here]; rfl) rfl rfl rfl rfl⟩
  | enableListen i now =>
    obtain ⟨here, rfl⟩ := Cluster.step_enableListen.mp stepped
    -- The winner was silent, so it is now listening.
    have own := unnotified.held.worker i
    have silent := own.silent (by rw [here]; rfl)
    let ready : Worker := { cluster.workers i with pc := .looping }
    obtain ⟨on, place, -⟩ := Worker.enableListen_listening ready own.began silent now
    have handler : (ready.enableListen now).notifyOtherWorkerToListen = none := by
      rw [Worker.enableListen_handler]
      exact unnotified.handlers i
    exact ⟨i, _, rfl, rfl, handler, by rw [place]; rfl,
      .listens trivial here on place rfl rfl⟩
  | newConnection i now =>
    obtain ⟨⟨here, on⟩, rfl⟩ := Cluster.step_newConnection.mp stepped
    unfold Cluster.newConnection
    dsimp only
    split
    · -- The connection is one too many.
      rename_i overloaded
      exact ⟨i, _, rfl, rfl, unnotified.handlers i, rfl,
        .overloads (fun keeps => keeps overloaded) on rfl rfl rfl⟩
    · -- The connection is only counted.
      rename_i keeps
      exact ⟨i, _, rfl, rfl, unnotified.handlers i, unnotified.places i,
        .goesOn keeps (by simp [here]) (by rw [here]; rfl) (by dsimp only; rw [here]; rfl) rfl rfl
          rfl⟩
  | removeConnection i =>
    obtain ⟨⟨here, -⟩, rfl⟩ := Cluster.step_removeConnection.mp stepped
    exact ⟨i, _, rfl, rfl, unnotified.handlers i, unnotified.places i, .goesOn trivial
      (by simp [here]) (by rw [here]; rfl) (by dsimp only; rw [here]; rfl) rfl rfl rfl⟩
  | schedule i now =>
    obtain ⟨here, rfl⟩ := Cluster.step_schedule.mp stepped
    -- The toggle installs nothing.
    have handler : ((cluster.workers i).acceptorSchedulingHandler now).notifyOtherWorkerToListen =
        none := by
      rw [Worker.acceptorSchedulingHandler_handler]
      exact unnotified.handlers i
    exact ⟨i, _, rfl, rfl, handler, rfl, .loses trivial (by rw [here]; rfl) (by rw [here]; rfl) rfl
      rfl rfl⟩
  | notifyOther i =>
    obtain ⟨here, rfl⟩ := Cluster.step_notifyOther.mp stepped
    -- The call finds no handler, and the exception ends the process.
    simp only [Cluster.notifyOther, unnotified.handlers i]
    exact ⟨i, _, rfl, rfl, unnotified.handlers i, rfl, .loses trivial (by rw [here]; rfl)
      (by rw [here]; rfl) rfl rfl rfl⟩
  | unlockAssert i =>
    -- No worker gets to `unlock` without a handler.
    obtain ⟨eventFd, here, -⟩ := Cluster.step_unlockAssert.mp stepped
    exact absurd (unnotified.places i) (by simp [here, WorkerPc.notifies])
  | unlockSwap i =>
    obtain ⟨eventFd, here, -⟩ := Cluster.step_unlockSwap.mp stepped
    exact absurd (unnotified.places i) (by simp [here, WorkerPc.notifies])
  | writeEvent i =>
    obtain ⟨eventFd, here, -⟩ := Cluster.step_writeEvent.mp stepped
    exact absurd (unnotified.places i) (by simp [here, WorkerPc.notifies])
  | stray k value => exact delivered.elim

/-- No delivered step installs a handler or writes an eventfd. -/
theorem Unnotified.step {setting : Setting} {cluster next : Cluster} {label : ClusterStep}
    (unnotified : Unnotified cluster) (delivered : cluster.Delivered label)
    (stepped : (clusterMachine setting).step cluster label = some next) : Unnotified next := by
  obtain ⟨i, worker, workers, counters, handler, place, -⟩ := unnotified.move delivered stepped
  refine ⟨unnotified.held.step stepped, fun k => ?_, fun j => ?_, fun j => ?_⟩
  · -- No eventfd was written.
    rw [counters]
    exact unnotified.counters k
  · -- The worker that moved has still no handler.
    rw [workers]
    by_cases same : j = i
    · subst same
      rwa [Function.update_self]
    · rw [Function.update_of_ne same]
      exact unnotified.handlers j
  · rw [workers]
    by_cases same : j = i
    · subst same
      rwa [Function.update_self]
    · rw [Function.update_of_ne same]
      exact unnotified.places j

/-- The token is with a worker that is listening, or that is about to listen. -/
structure TokenKept (cluster : Cluster) : Prop where
  unnotified : Unnotified cluster
  accepting : ∀ i, (cluster.workers i).pc.handsOver = false
  won : cluster.holder ≠ none → cluster.wins ≠ []
  kept : cluster.wins ≠ [] → ∃ i, cluster.holder = some i ∧
    ((cluster.workers i).listenning ∨ (cluster.workers i).pc = .locked)

/-- The mutex is with a worker that has begun to hand over and wakes nobody. -/
structure TokenLost (cluster : Cluster) : Prop where
  unnotified : Unnotified cluster
  wins : cluster.wins ≠ []
  lost : ∃ i, cluster.holder = some i ∧ (cluster.workers i).pc.handsOver

/-- The token stays with its worker as long as no connection makes it hand over. -/
theorem TokenKept.step {setting : Setting} {cluster next : Cluster} {label : ClusterStep}
    (kept : TokenKept cluster) (delivered : cluster.Delivered label)
    (keeps : cluster.KeepsAccepting label)
    (stepped : (clusterMachine setting).step cluster label = some next) : TokenKept next := by
  have unnotified := kept.unnotified.step delivered stepped
  obtain ⟨i, worker, workers, -, -, -, move⟩ := kept.unnotified.move delivered stepped
  have own : next.workers i = worker := by rw [workers, Function.update_self]
  have other {j : Nat} (differs : j ≠ i) : next.workers j = cluster.workers j := by
    rw [workers, Function.update_of_ne differs]
  -- Only the moving worker can have got to a place after the decision.
  have accepting (place : worker.pc.handsOver = false) (j : Nat) :
      (next.workers j).pc.handsOver = false := by
    by_cases same : j = i
    · subst same
      rwa [own]
    · rw [other same]
      exact kept.accepting j
  cases move with
  | goesOn _ unlocked _ place listening holder wins =>
    refine ⟨unnotified, accepting place, by rw [holder, wins]; exact kept.won, ?_⟩
    rw [holder, wins]
    intro some_
    -- Whoever had the token still has it.
    obtain ⟨j, holds, now⟩ := kept.kept some_
    refine ⟨j, holds, ?_⟩
    by_cases same : j = i
    · subst same
      rw [own, listening]
      exact .inl (now.resolve_right unlocked)
    · rwa [other same]
  | wins _ _ place holder wins =>
    refine ⟨unnotified, accepting (by rw [place]; rfl), ?_, ?_⟩
    · rw [wins]
      exact fun _ => List.cons_ne_nil _ _
    · -- The winner has the token, and is about to listen.
      exact fun _ => ⟨i, holder, .inr (own ▸ place)⟩
  | listens _ here on place holder wins =>
    -- The worker that now listens is the holder.
    have holds := (kept.unnotified.held.worker i).critical (by rw [here]; rfl)
    refine ⟨unnotified, accepting (by rw [place]; rfl), by rw [holder, wins]; exact kept.won, ?_⟩
    exact fun _ => ⟨i, holder.trans holds, .inl (own ▸ on)⟩
  | overloads hands => exact absurd keeps hands
  | loses _ here =>
    -- No worker has begun to hand over.
    rw [kept.accepting i] at here
    cases here

/-- The first hand-off takes the token away from its worker. -/
theorem TokenKept.lose {setting : Setting} {cluster next : Cluster} {label : ClusterStep}
    (kept : TokenKept cluster) (delivered : cluster.Delivered label)
    (hands : ¬ cluster.KeepsAccepting label)
    (stepped : (clusterMachine setting).step cluster label = some next) : TokenLost next := by
  have unnotified := kept.unnotified.step delivered stepped
  obtain ⟨i, worker, workers, -, -, -, move⟩ := kept.unnotified.move delivered stepped
  have own : next.workers i = worker := by rw [workers, Function.update_self]
  -- Only a connection that is one too many is such a step.
  cases move with
  | goesOn keeps => exact absurd keeps hands
  | wins keeps => exact absurd keeps hands
  | listens keeps => exact absurd keeps hands
  | overloads _ on place holder wins =>
    -- The listening worker is the one that holds the mutex.
    have holds := ((kept.unnotified.held.worker i).listening on).1
    refine ⟨unnotified, ?_, i, holder.trans holds, own ▸ place⟩
    rw [wins]
    exact kept.won (by simp [holds])
  | loses keeps => exact absurd keeps hands

/-- A lost token does not come back. -/
theorem TokenLost.step {setting : Setting} {cluster next : Cluster} {label : ClusterStep}
    (lost : TokenLost cluster) (delivered : cluster.Delivered label)
    (stepped : (clusterMachine setting).step cluster label = some next) : TokenLost next := by
  have unnotified := lost.unnotified.step delivered stepped
  have held := lost.unnotified.held
  obtain ⟨i, worker, workers, -, -, -, move⟩ := lost.unnotified.move delivered stepped
  have own : next.workers i = worker := by rw [workers, Function.update_self]
  obtain ⟨j, holds, place⟩ := lost.lost
  -- While another worker moves on, the one that lost the token stays where it is.
  have elsewhere (differs : j ≠ i) (holder : next.holder = cluster.holder)
      (wins : next.wins = cluster.wins) : TokenLost next := by
    refine ⟨unnotified, wins ▸ lost.wins, j, holder.trans holds, ?_⟩
    rwa [workers, Function.update_of_ne differs]
  cases move with
  | goesOn _ _ before _ _ holder wins =>
    refine elsewhere ?_ holder wins
    rintro rfl
    rw [place] at before
    cases before
  | wins _ free =>
    -- The byte stays 1, so no `tryLock` succeeds.
    cases free.symm.trans (held.byte_one holds)
  | listens _ here _ _ holder wins =>
    refine elsewhere ?_ holder wins
    rintro rfl
    rw [here] at place
    cases place
  | overloads _ on hands holder wins =>
    -- The holder itself decides again to hand over.
    have holdsToo := ((held.worker i).listening on).1
    exact ⟨unnotified, wins ▸ lost.wins, i, holder.trans holdsToo, own ▸ hands⟩
  | loses _ _ critical hands holder wins =>
    -- The holder goes on towards the exception.
    have holdsToo := (held.worker i).critical critical
    exact ⟨unnotified, wins ▸ lost.wins, i, holder.trans holdsToo, own ▸ hands⟩

/-- Between callbacks, a kept token is a listening acceptor. -/
theorem TokenKept.present {cluster : Cluster} (kept : TokenKept cluster)
    (some_ : cluster.wins ≠ []) (quiet : cluster.Quiet) : cluster.TokenPresent := by
  -- A winner that does not listen yet is inside a callback.
  obtain ⟨i, -, on | here⟩ := kept.kept some_
  · exact .inl ⟨i, on⟩
  · have between := quiet i
    rw [here] at between
    cases between

/-- Between callbacks, a lost token is nowhere: no acceptor listens and the byte stays 1. -/
theorem TokenLost.absent {cluster : Cluster} (lost : TokenLost cluster) (quiet : cluster.Quiet) :
    ¬ cluster.TokenPresent := by
  have held := lost.unnotified.held
  obtain ⟨i, holds, place⟩ := lost.lost
  rintro (⟨j, on⟩ | ⟨free, -⟩)
  · -- Whoever listens is the worker that lost the token, whose process has ended.
    have same := holds.symm.trans ((held.worker j).listening on).1
    rw [Option.some.injEq] at same
    subst same
    have may := ((held.worker i).listening on).2
    have between := quiet i
    cases here : (cluster.workers i).pc <;> simp [here, WorkerPc.handsOver] at place <;>
      simp [here, WorkerPc.mayListen, WorkerPc.betweenCallbacks] at may between
  · -- The byte is 1 as long as somebody holds the mutex.
    cases free.symm.trans (held.byte_one holds)

/-- At the start, nobody has the token and nobody has lost it. -/
theorem TokenKept.start (eventfds : Nat → Int) : TokenKept (Cluster.new eventfds) where
  -- Nothing was written, installed or won.
  unnotified := ⟨TokenHeld.start eventfds, fun _ => rfl, fun _ => rfl, fun _ => rfl⟩
  accepting _ := rfl
  won none_ := absurd rfl none_
  kept none_ := absurd rfl none_

/-- A run that ends between callbacks has the token in every state between callbacks, from the
first win on, exactly if no connection in it makes a worker hand over. -/
theorem token_present_iff (setting : Setting) (eventfds : Nat → Int) (labels : List ClusterStep)
    (last : Cluster)
    (delivered : (clusterMachine setting).Meets Cluster.Delivered (Cluster.new eventfds) labels)
    (ran : (clusterMachine setting).run (Cluster.new eventfds) labels = some last)
    (quiet : last.Quiet) :
    (clusterMachine setting).Always
        (fun cluster => cluster.wins ≠ [] → cluster.Quiet → cluster.TokenPresent)
        (Cluster.new eventfds) labels ↔
      (clusterMachine setting).Meets Cluster.KeepsAccepting (Cluster.new eventfds) labels := by
  constructor
  · intro always
    -- A run that has handed over ends without the token.
    rcases Machine.run_meets_or (fun _ _ _ kept delivered keeps => kept.step delivered keeps)
        (fun _ _ _ kept delivered hands => kept.lose delivered hands)
        (fun _ _ _ lost delivered => lost.step delivered) (TokenKept.start eventfds) delivered ran
      with ⟨keeps, -⟩ | ⟨-, lost⟩
    · exact keeps
    · exact absurd (always labels last (List.prefix_refl labels) ran lost.wins quiet)
        (lost.absent quiet)
  · -- A run without a hand-off keeps the token along each of its parts.
    intro keeps
    have both := delivered.and keeps
    exact Machine.always_of_meets
      (fun _ _ _ kept both stepped => TokenKept.step kept both.1 both.2 stepped)
      (fun _ kept some_ quietThere => kept.present some_ quietThere) (TokenKept.start eventfds) both

/-- Two workers that start take no decision to hand over. -/
theorem token_present_iff_startup :
    (clusterMachine ⟨3, fun _ _ => none⟩).Always
        (fun cluster => cluster.wins ≠ [] → cluster.Quiet → cluster.TokenPresent)
        (Cluster.new fun _ => 0) twoWorkersStart ↔
      (clusterMachine ⟨3, fun _ _ => none⟩).Meets Cluster.KeepsAccepting
        (Cluster.new fun _ => 0) twoWorkersStart := by
  refine token_present_iff ⟨3, fun _ _ => none⟩ (fun _ => 0) twoWorkersStart _ ?_ rfl ?_
  · -- No step of the run is a wake-up or a stray write.
    apply Machine.meets_of_forall
    simp [twoWorkersStart, Cluster.Delivered]
  · -- Both workers are back in their event loops.
    intro i
    match i with
    | 0 => rfl
    | 1 => rfl
    | _ + 2 => rfl

/-- A single worker that won the lock at start-up, with some connections. -/
def listeningAlone (connections : Nat) : Cluster where
  mutexByte := 1
  eventfds := Function.update (fun _ => 0) 0 5
  workers := Function.update (fun _ => {}) 0
    { pc := .looping, owner := true, isStart := true, started := true, listenning := true,
      acceptorStartListenTime := 0, connections := connections }
  holder := some 0
  wins := [0]

/-- Up to the limit, a worker only counts a new connection. -/
theorem newConnection_counts (cluster : Cluster) (i : Nat) (now : Int)
    (fits : (cluster.workers i).connections < 512) :
    cluster.newConnection i now = cluster.set i { cluster.workers i with
      connections := (cluster.workers i).connections + 1 } := by
  unfold Cluster.newConnection
  -- The count stays within the limit, so the decision is not to hand over.
  have keeps : Worker.overloaded { cluster.workers i with
      connections := (cluster.workers i).connections + 1 } now = false := by
    apply decide_eq_false
    intro overloaded
    have beyond : 512 < (cluster.workers i).connections + 1 := overloaded.1
    omega
  dsimp only at keeps ⊢
  rw [keeps]
  rfl

/-- Up to the limit, a listening worker only counts its connections. -/
theorem run_newConnections (setting : Setting) (cluster : Cluster) (i : Nat) (now : Int)
    (connections : Nat) (here : (cluster.workers i).pc = .looping)
    (on : (cluster.workers i).listenning)
    (fits : (cluster.workers i).connections + connections ≤ 512) :
    (clusterMachine setting).run cluster (List.replicate connections (.newConnection i now)) =
      some (cluster.set i { cluster.workers i with
        connections := (cluster.workers i).connections + connections }) := by
  -- Each connection is counted, and nothing else changes.
  induction connections generalizing cluster with
  | zero => simp [Cluster.set]
  | succ connections ih =>
    have stepped : (clusterMachine setting).step cluster (.newConnection i now) =
        some (cluster.set i { cluster.workers i with
          connections := (cluster.workers i).connections + 1 }) := by
      simp only [clusterMachine, here, on, and_self, if_true]
      rw [newConnection_counts cluster i now (by omega)]
      simp only [here, on]
    rw [List.replicate_succ, Machine.run_cons, stepped, Option.bind_some]
    refine (ih _ ?_ ?_ ?_).trans ?_
    · simpa [Cluster.set] using here
    · simpa [Cluster.set] using on
    · simp only [Cluster.set, Function.update_self]
      omega
    · simp [Cluster.set, Nat.add_assoc, Nat.add_comm]

/-- A single worker that listens counts its connections. -/
theorem run_connections (setting : Setting) (now : Int) (connections : Nat)
    (fits : connections ≤ 512) :
    (clusterMachine setting).run (listeningAlone 0)
        (List.replicate connections (.newConnection 0 now)) =
      some (listeningAlone connections) := by
  -- Up to the limit each connection only counts, and the worker listens on.
  rw [run_newConnections setting (listeningAlone 0) 0 now connections rfl rfl (by
    simpa [listeningAlone] using fits)]
  simp [listeningAlone, Cluster.set]

/-- One worker wins the lock at start-up and accepts connections up to the limit. -/
def fillUp : List ClusterStep :=
  [.fork 0 5 true 0, .start 0, .tryLock 0, .enableListen 0 0] ++
    List.replicate 512 (.newConnection 0 0)

/-- The worker that fills up is listening, and holds the mutex. -/
theorem fillUp_run : (clusterMachine ⟨2, fun _ _ => none⟩).run (Cluster.new fun _ => 0) fillUp =
    some (listeningAlone 512) := by
  -- Before its first connection, the worker has won and listens.
  have started : (clusterMachine ⟨2, fun _ _ => none⟩).run (Cluster.new fun _ => 0)
      [.fork 0 5 true 0, .start 0, .tryLock 0, .enableListen 0 0] = some (listeningAlone 0) := by
    simp [clusterMachine, listeningAlone, Cluster.new, Cluster.set, Cluster.tryLock,
      Worker.enableListen, Worker.tcpStart, Worker.listen]
  exact Machine.run_trans _ started (run_connections _ 0 512 (Nat.le_refl _))

/-- The first hand-off, by the worker that won at start-up, ends its process with the byte at 1. -/
theorem handOff_loses_token :
    ∃ last,
      (clusterMachine ⟨2, fun _ _ => none⟩).run (Cluster.new fun _ => 0)
          (fillUp ++ [.newConnection 0 11, .schedule 0 11, .notifyOther 0]) = some last ∧
      (clusterMachine ⟨2, fun _ _ => none⟩).Meets Cluster.Delivered (Cluster.new fun _ => 0)
        (fillUp ++ [.newConnection 0 11, .schedule 0 11, .notifyOther 0]) ∧
      last.wins ≠ [] ∧ last.Quiet ∧ ¬ last.TokenPresent := by
  refine ⟨_, Machine.run_trans _ fillUp_run rfl, ?_, List.cons_ne_nil _ _, ?_, ?_⟩
  · apply Machine.meets_of_forall
    intro label member cluster
    -- No label of the run is a wake-up or a stray write.
    rcases List.mem_append.mp member with filling | last
    · rcases List.mem_append.mp filling with starting | arriving
      · fin_cases starting <;> trivial
      · rw [List.eq_of_mem_replicate arriving]
        trivial
    · fin_cases last <;> trivial
  · -- The only worker has ended.
    intro i
    cases i <;> rfl
  · -- Nobody listens, and the byte is still 1.
    rintro (⟨i, on⟩ | ⟨free, -⟩)
    · cases i <;> cases on
    · cases free

end EnhancedProxy
