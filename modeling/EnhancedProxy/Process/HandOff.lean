import EnhancedProxy.Process.Token

/-! Whether a worker that decides to hand over can complete the hand-off. -/

namespace EnhancedProxy

/-- A step adds to the workers that have run `EventHandler`. -/
def noteWoken (woken : List Nat) : ClusterStep → List Nat
  | .wake i => i :: woken
  | _ => woken

/-- The workers as a machine, with those that have run `EventHandler`. -/
def wokenMachine (setting : Setting) : Machine (Cluster × List Nat) ClusterStep :=
  (clusterMachine setting).recording noteWoken

/-- The next of the workers, which is the first one after the last. -/
def Setting.successor (setting : Setting) (i : Nat) : Nat := (i + 1) % (setting.processNum - 1)

/-- What each step of a hand-off is there for. -/
def DoesItsPart (setting : Setting) (cluster : Cluster) (label : ClusterStep) : Prop :=
  ∀ next, (clusterMachine setting).step cluster label = some next →
    match label with
    -- The worker goes on listening, and can call the handler if it has decided to hand over.
    | .newConnection i _ => (next.workers i).listenning ∧
        ((next.workers i).pc = .handingOver → (next.workers i).notifyOtherWorkerToListen ≠ none)
    | .schedule i _ => (next.workers i).listenning = false
    -- No exception, and no failed assertion.
    | .notifyOther i => (next.workers i).pc ≠ .dead
    | .unlockAssert i => (next.workers i).pc ≠ .dead
    | .unlockSwap _ => next.mutexByte = 0
    | .writeEvent i => (next.workers i).listenning = false ∧ next.counters (setting.successor i) ≠ 0
    | _ => True

/-- A worker decides to hand over only after it has run `EventHandler`, and the descriptor it then
writes its number to is the next worker's, and the number is not 0, unless that eventfd is set
already. -/
def Equipped (setting : Setting) (state : Cluster × List Nat) : ClusterStep → Prop
  | .newConnection i now => state.1.HandsOver i now → i ∈ state.2
  | .writeEvent i => ∀ eventFd, (state.1.workers i).pc = .writing eventFd →
      state.1.counters (setting.successor i) ≠ 0 ∨
        setting.descriptors i eventFd = some (setting.successor i) ∧ i ≠ 0
  | _ => True

/-- What a worker's place says about its handler and its `owner`, given whether it holds the mutex
and whether it has run `EventHandler`. -/
structure Worker.Ready (worker : Worker) (holds woken : Prop) : Prop where
  unmade : worker.pc = .absent → ¬ holds ∧ ¬ woken
  handler : worker.pc ≠ .dead → (woken ↔ worker.notifyOtherWorkerToListen ≠ none)
  decided : worker.pc = .handingOver ∨ worker.pc = .notifying → woken
  owner : holds → (∀ eventFd, worker.pc ≠ .releasing eventFd) → worker.owner

/-- Every worker is ready. -/
structure AllReady (cluster : Cluster) (woken : List Nat) : Prop where
  worker : ∀ i, (cluster.workers i).Ready (cluster.holder = some i) (i ∈ woken)

namespace Worker.Ready

variable {worker : Worker} {holds holds' woken : Prop}

/-- Who holds the mutex does not matter to a worker that does not. -/
theorem of_not_holds (ready : worker.Ready holds woken) (other : ¬ holds') :
    worker.Ready holds' woken where
  -- Only the owner flag speaks of the holder, and it is not asked of a worker that is none.
  unmade here := ⟨other, (ready.unmade here).2⟩
  handler := ready.handler
  decided := ready.decided
  owner held := absurd held other

/-- A worker whose process has ended. -/
theorem abort (ready : worker.Ready holds woken)
    (place : ∀ eventFd, worker.pc ≠ .releasing eventFd) : worker.abort.Ready holds woken where
  -- Ending is a place outside every hand-over, so only the owner flag has to be justified.
  unmade here := WorkerPc.noConfusion here
  handler alive := absurd rfl alive
  decided here := here.elim (fun handing => WorkerPc.noConfusion handing)
    fun notifying => WorkerPc.noConfusion notifying
  owner held _ := ready.owner held place

/-- A worker that goes on, to a place where nothing more is asked of it. -/
theorem goesOn (ready : worker.Ready holds woken) {next : Worker} (alive : worker.pc ≠ .dead)
    (place : ∀ eventFd, worker.pc ≠ .releasing eventFd) (made : next.pc ≠ .absent)
    (decided : next.pc = .handingOver ∨ next.pc = .notifying → woken)
    (handler : next.notifyOtherWorkerToListen = worker.notifyOtherWorkerToListen)
    (owner : next.owner = worker.owner) : next.Ready holds woken where
  -- The new place is after the making, and the flag and the handler are kept.
  unmade here := absurd here made
  handler _ := handler ▸ ready.handler alive
  decided := decided
  owner held _ := owner.trans (ready.owner held place)

end Worker.Ready

/-- A new connection leaves the handler alone. -/
theorem Cluster.newConnection_handler (cluster : Cluster) (i : Nat) (now : Int) :
    ((cluster.newConnection i now).workers i).notifyOtherWorkerToListen =
      (cluster.workers i).notifyOtherWorkerToListen := by
  -- The worker counts the connection, and may go on to hand over.
  simp only [Cluster.newConnection, Cluster.set, Function.update_self]
  split <;> rfl

/-- A new connection leaves the acceptor alone. -/
theorem Cluster.newConnection_listenning (cluster : Cluster) (i : Nat) (now : Int) :
    ((cluster.newConnection i now).workers i).listenning = (cluster.workers i).listenning := by
  -- The worker counts the connection, and may go on to hand over.
  simp only [Cluster.newConnection, Cluster.set, Function.update_self]
  split <;> rfl

/-- Writing to an eventfd leaves the acceptor alone. -/
theorem Cluster.writeEvent_listenning (setting : Setting) (cluster : Cluster) (i : Nat)
    (eventFd : Int) :
    ((cluster.writeEvent setting i eventFd).workers i).listenning =
      (cluster.workers i).listenning := by
  -- The writer goes back to its loop with its acceptor as it was, and the counter is no worker.
  unfold Cluster.writeEvent
  dsimp only
  split <;> simp [Cluster.set]

/-- The number that a worker writes reaches the eventfd that its descriptor refers to. -/
theorem Cluster.writeEvent_counters (setting : Setting) (cluster : Cluster) (i k : Nat)
    (eventFd : Int) :
    (cluster.writeEvent setting i eventFd).counters k =
      cluster.counters k + if setting.descriptors i eventFd = some k then i else 0 := by
  -- The write adds the value, which is the slot of the writer, to the counter its number names.
  unfold Cluster.writeEvent
  dsimp only
  cases names : setting.descriptors i eventFd with
  | none => simp [Cluster.set]
  | some other =>
    by_cases same : k = other
    · simp [same, Cluster.set]
    · simp [Function.update_of_ne same, Ne.symm same, Cluster.set]

namespace AllReady

variable {cluster : Cluster} {woken : List Nat} {i : Nat} {worker : Worker}

/-- Before any worker is forked. -/
theorem start (eventfds : Nat → Int) : AllReady (Cluster.new eventfds) [] where
  -- All workers are still to be made, so no part of the property speaks of one.
  worker _ :=
    { unmade := fun _ => ⟨by simp [Cluster.new], List.not_mem_nil⟩
      handler := fun _ => by simp [Cluster.new]
      decided := fun here => by simp [Cluster.new] at here
      owner := fun held => by simp [Cluster.new] at held }

/-- A step of one worker leaves the others as ready as they were. -/
theorem set (ready : AllReady cluster woken)
    (own : worker.Ready (cluster.holder = some i) (i ∈ woken)) :
    AllReady (cluster.set i worker) woken where
  -- Only the worker that is put changes, and neither the holder nor the woken do.
  worker j := by
    by_cases same : j = i
    · subst same
      simpa [Cluster.set] using own
    · simpa [Cluster.set, Function.update_of_ne same] using ready.worker j

/-- Descriptors and counters have no part in it. -/
theorem events (ready : AllReady cluster woken) (eventfds : Nat → Int) (counters : Nat → Nat) :
    AllReady { cluster with eventfds := eventfds, counters := counters } woken :=
  ⟨ready.worker⟩

/-- `EventHandler` makes its worker ready to hand over. -/
theorem eventHandler (ready : AllReady cluster woken) (here : (cluster.workers i).pc = .looping)
    (setting : Setting) : AllReady (cluster.eventHandler setting i) (i :: woken) := by
  have own := ready.worker i
  have others {j : Nat} (differs : j ≠ i) :
      (cluster.workers j).Ready (cluster.holder = some j) (j ∈ i :: woken) := by
    rw [List.mem_cons, or_iff_right differs]
    exact ready.worker j
  -- `EventHandler` leaves the mutex alone.
  have owner (held : cluster.holder = some i) : (cluster.workers i).owner :=
    own.owner held fun eventFd place => WorkerPc.noConfusion (here.symm.trans place)
  unfold Cluster.eventHandler
  dsimp only
  split
  · -- The read failed, and the assertion ends the process.
    refine ⟨fun j => ?_⟩
    by_cases same : j = i
    · subst same
      simp only [Cluster.set, Function.update_self]
      exact ⟨by simp [Worker.abort], fun alive => absurd rfl alive, fun _ => List.mem_cons_self,
        fun held _ => owner held⟩
    · simp only [Cluster.set, Function.update_of_ne same]
      exact others same
  · -- The handler is installed.
    refine ⟨fun j => ?_⟩
    by_cases same : j = i
    · subst same
      simp only [Cluster.set, Function.update_self]
      exact ⟨by simp, fun _ => iff_of_true List.mem_cons_self (Option.some_ne_none _),
        fun _ => List.mem_cons_self, fun held _ => owner held⟩
    · simp only [Cluster.set, Function.update_of_ne same]
      exact others same

/-- `tryLock` sets the winner's `owner`. -/
theorem tryLock (ready : AllReady cluster woken)
    (here : (cluster.workers i).pc = .starting) : AllReady (cluster.tryLock i) woken := by
  -- Who gets the byte holds it alone, and who does not goes to its loop with nothing.
  have own := ready.worker i
  have handler := own.handler (by simp [here])
  unfold Cluster.tryLock
  dsimp only
  split
  · refine ⟨fun j => ?_⟩
    by_cases same : j = i
    · subst same
      simp only [Cluster.set, Function.update_self]
      exact ⟨by simp, fun _ => handler, by simp, fun _ _ => rfl⟩
    · simp only [Cluster.set, Function.update_of_ne same]
      refine (ready.worker j).of_not_holds fun winner => ?_
      exact same (Option.some.inj winner).symm
  · exact ready.set (own.goesOn (by simp [here]) (by simp [here]) (by simp)
      (by simp) rfl rfl)

/-- The compare-and-swap of `unlock` succeeds, and frees the mutex. -/
theorem unlockSwap (ready : AllReady cluster woken) (held : TokenHeld cluster) {eventFd : Int}
    (here : (cluster.workers i).pc = .releasing eventFd) :
    (cluster.unlockSwap i eventFd).mutexByte = 0 ∧
      AllReady (cluster.unlockSwap i eventFd) woken := by
  have holds : cluster.holder = some i := (held.worker i).critical (by rw [here]; rfl)
  have handler := (ready.worker i).handler (by simp [here])
  unfold Cluster.unlockSwap
  dsimp only
  rw [if_pos (held.byte_one holds)]
  refine ⟨rfl, ⟨fun j => ?_⟩⟩
  -- Nobody holds the mutex any more.
  by_cases same : j = i
  · subst same
    simp only [Cluster.set, Function.update_self]
    exact ⟨by simp, fun _ => handler, by simp, by simp⟩
  · simp only [Cluster.set, Function.update_of_ne same]
    exact (ready.worker j).of_not_holds (by simp)

/-- Every step of equipped workers leaves them ready. -/
theorem step {setting : Setting} {next : Cluster} {label : ClusterStep}
    (ready : AllReady cluster woken) (held : TokenHeld cluster)
    (equipped : Equipped setting (cluster, woken) label)
    (stepped : (clusterMachine setting).step cluster label = some next) :
    AllReady next (noteWoken woken label) := by
  -- One case for each atomic step.
  cases label with
  | fork i fd owner startListenTime =>
    obtain ⟨⟨here, -⟩, rfl⟩ := Cluster.step_fork.mp stepped
    -- A new worker has no handler, and has not been woken.
    obtain ⟨free, asleep⟩ := (ready.worker i).unmade here
    refine (ready.set ?_).events _ _
    exact ⟨by simp, fun _ => iff_of_false asleep fun installed => installed rfl,
      by simp, fun holds => absurd holds free⟩
  | start i =>
    obtain ⟨here, rfl⟩ := Cluster.step_start.mp stepped
    exact ready.set ((ready.worker i).goesOn (by simp [here]) (by simp [here]) (by simp)
      (by simp) rfl rfl)
  | wake i =>
    obtain ⟨here, rfl⟩ := Cluster.step_wake.mp stepped
    exact ready.eventHandler here setting
  | tryLock i =>
    obtain ⟨here, rfl⟩ := Cluster.step_tryLock.mp stepped
    exact ready.tryLock here
  | enableListen i now =>
    obtain ⟨here, rfl⟩ := Cluster.step_enableListen.mp stepped
    have own := held.worker i
    obtain ⟨-, place, -⟩ := Worker.enableListen_listening
      { cluster.workers i with pc := .looping } own.began (own.silent (by rw [here]; rfl)) now
    exact ready.set ((ready.worker i).goesOn (by simp [here]) (by simp [here]) (by simp [place])
      (by simp [place]) (Worker.enableListen_handler _ now) (Worker.enableListen_owner _ now))
  | newConnection i now =>
    obtain ⟨⟨here, on⟩, rfl⟩ := Cluster.step_newConnection.mp stepped
    unfold Cluster.newConnection
    dsimp only
    refine ready.set ?_
    split
    · -- To decide is what only an equipped worker may do.
      rename_i overloaded
      exact (ready.worker i).goesOn (by simp [here]) (by simp [here]) (by simp)
        (fun _ => equipped ⟨here, on, overloaded⟩) rfl rfl
    · exact (ready.worker i).goesOn (by simp [here]) (by simp [here]) (by simp [here])
        (by simp [here]) rfl rfl
  | removeConnection i =>
    obtain ⟨⟨here, -⟩, rfl⟩ := Cluster.step_removeConnection.mp stepped
    exact ready.set ((ready.worker i).goesOn (by simp [here]) (by simp [here]) (by simp [here])
      (by simp [here]) rfl rfl)
  | schedule i now =>
    obtain ⟨here, rfl⟩ := Cluster.step_schedule.mp stepped
    have decided := (ready.worker i).decided (.inl here)
    simp only [Worker.acceptorSchedulingHandler, (held.worker i).handing here, if_true]
    exact ready.set ((ready.worker i).goesOn (by simp [here]) (by simp [here]) (by simp)
      (fun _ => decided) rfl rfl)
  | notifyOther i =>
    obtain ⟨here, rfl⟩ := Cluster.step_notifyOther.mp stepped
    unfold Cluster.notifyOther
    dsimp only
    split
    · exact ready.set ((ready.worker i).abort (by simp [here]))
    · exact ready.set ((ready.worker i).goesOn (by simp [here]) (by simp [here]) (by simp)
        (by simp) rfl rfl)
  | unlockAssert i =>
    obtain ⟨eventFd, here, rfl⟩ := Cluster.step_unlockAssert.mp stepped
    have own := ready.worker i
    unfold Cluster.unlockAssert
    dsimp only
    split
    · exact ready.set ⟨by simp, fun _ => own.handler (by simp [here]),
        by simp, fun _ place => absurd rfl (place eventFd)⟩
    · exact ready.set (own.abort (by simp [here]))
  | unlockSwap i =>
    obtain ⟨eventFd, here, rfl⟩ := Cluster.step_unlockSwap.mp stepped
    exact (ready.unlockSwap held here).2
  | writeEvent i =>
    obtain ⟨eventFd, here, rfl⟩ := Cluster.step_writeEvent.mp stepped
    have moved := ready.set ((ready.worker i).goesOn (by simp [here]) (by simp [here]) (by simp)
      (by simp) rfl rfl :
        Worker.Ready { cluster.workers i with pc := .looping } _ _)
    unfold Cluster.writeEvent
    dsimp only
    split
    · exact moved.events _ _
    · exact moved
  | stray k value =>
    obtain rfl := Cluster.step_stray.mp stepped
    exact ready.events _ _

/-- A step of ready workers does its part exactly if they are equipped for it. -/
theorem doesItsPart_iff {setting : Setting} {label : ClusterStep} (ready : AllReady cluster woken)
    (held : TokenHeld cluster) :
    DoesItsPart setting cluster label ↔ Equipped setting (cluster, woken) label := by
  cases label with
  | newConnection i now =>
    -- In its event loop, a worker has a handler exactly if it was woken.
    have handler (here : (cluster.workers i).pc = .looping) :=
      (ready.worker i).handler (by simp [here])
    constructor
    · intro part handsOver
      obtain ⟨here, on, overloaded⟩ := handsOver
      have decided : ((cluster.newConnection i now).workers i).pc = .handingOver := by
        simp only [Cluster.newConnection, Cluster.set, Function.update_self]
        rw [if_pos overloaded]
      have installed := (part _ (Cluster.step_newConnection.mpr ⟨⟨here, on⟩, rfl⟩)).2 decided
      rw [Cluster.newConnection_handler] at installed
      exact (handler here).mpr installed
    · intro equipped next stepped
      obtain ⟨⟨here, on⟩, rfl⟩ := Cluster.step_newConnection.mp stepped
      refine ⟨(Cluster.newConnection_listenning cluster i now).trans on, fun decided => ?_⟩
      rw [Cluster.newConnection_handler]
      refine (handler here).mp (equipped ⟨here, on, ?_⟩)
      -- A connection that is only counted leads to no hand-off.
      by_contra keeps
      simp only [Cluster.newConnection, Cluster.set, Function.update_self] at decided
      rw [if_neg keeps] at decided
      exact WorkerPc.noConfusion (here.symm.trans decided)
  | schedule i now =>
    refine iff_of_true (fun next stepped => ?_) trivial
    -- The toggle finds the acceptor on, and switches it off.
    obtain ⟨here, rfl⟩ := Cluster.step_schedule.mp stepped
    simp [Worker.acceptorSchedulingHandler, (held.worker i).handing here, Cluster.set]
  | notifyOther i =>
    refine iff_of_true (fun next stepped => ?_) trivial
    obtain ⟨here, rfl⟩ := Cluster.step_notifyOther.mp stepped
    have own := ready.worker i
    -- Whoever has decided was woken before, and so has a handler.
    have installed := (own.handler (by simp [here])).mp (own.decided (.inr here))
    obtain ⟨eventFd, handler⟩ := Option.ne_none_iff_exists'.mp installed
    simp [Cluster.notifyOther, handler, Cluster.set]
  | unlockAssert i =>
    refine iff_of_true (fun next stepped => ?_) trivial
    -- The assertion finds `owner` set by the `tryLock` that won, and the byte 1.
    obtain ⟨eventFd, here, rfl⟩ := Cluster.step_unlockAssert.mp stepped
    have holds : cluster.holder = some i := (held.worker i).critical (by rw [here]; rfl)
    have owner := (ready.worker i).owner holds (by simp [here])
    simp [Cluster.unlockAssert, owner, held.byte_one holds, Cluster.set]
  | unlockSwap i =>
    refine iff_of_true (fun next stepped => ?_) trivial
    obtain ⟨eventFd, here, rfl⟩ := Cluster.step_unlockSwap.mp stepped
    exact (ready.unlockSwap held here).1
  | writeEvent i =>
    simp only [Equipped]
    constructor
    · intro part eventFd here
      have notified := (part _ (Cluster.step_writeEvent.mpr ⟨eventFd, here, rfl⟩)).2
      -- A counter that is set now was set before, or the number that was written is not 0.
      rw [Cluster.writeEvent_counters] at notified
      split at notified
      · rename_i names
        by_cases set : cluster.counters (setting.successor i) = 0
        · exact .inr ⟨names, by omega⟩
        · exact .inl set
      · exact .inl notified
    · intro equipped next stepped
      obtain ⟨eventFd, here, rfl⟩ := Cluster.step_writeEvent.mp stepped
      refine ⟨?_, ?_⟩
      · rw [Cluster.writeEvent_listenning]
        exact (held.worker i).silent (by rw [here]; rfl)
      · rw [Cluster.writeEvent_counters]
        -- The eventfd was set before, or the number adds to it.
        rcases equipped eventFd here with set | ⟨names, positive⟩
        · omega
        · rw [if_pos names]
          omega
  | _ => exact iff_of_true (fun _ _ => trivial) trivial

end AllReady

/-- In every run, each step of each hand-off does its part, if and only if the workers are equipped.
-/
theorem handOffs_complete_iff (setting : Setting) (eventfds : Nat → Int)
    (labels : List ClusterStep) :
    (wokenMachine setting).Meets (fun state label => DoesItsPart setting state.1 label)
        (Cluster.new eventfds, []) labels ↔
      (wokenMachine setting).Meets (Equipped setting) (Cluster.new eventfds, []) labels := by
  -- In every state the invariant allows, a worker does its part exactly if it is equipped to.
  refine Machine.meets_iff_of_invariant
    (fun _ _ _ (inv : TokenHeld _ ∧ AllReady _ _) equipped stepped => ?_)
    (fun _ _ inv => inv.2.doesItsPart_iff inv.1) ⟨TokenHeld.start eventfds, AllReady.start eventfds⟩
  obtain ⟨next, moved, rfl⟩ := Option.map_eq_some_iff.mp stepped
  exact ⟨inv.1.step moved, inv.2.step inv.1 equipped moved⟩

/-- The worker that won the lock at its start decides to hand over, and has no handler to call. -/
theorem first_handOff_has_no_handler :
    ¬ (wokenMachine ⟨2, fun _ _ => none⟩).Meets
      (fun state label => DoesItsPart ⟨2, fun _ _ => none⟩ state.1 label)
      (Cluster.new fun _ => 0, []) (fillUp ++ [.newConnection 0 11]) := by
  intro met
  have reached : (wokenMachine ⟨2, fun _ _ => none⟩).run (Cluster.new fun _ => 0, []) fillUp =
      some (listeningAlone 512, fillUp.foldl noteWoken []) := by
    rw [wokenMachine, Machine.recording_run_eq, fillUp_run]
    rfl
  -- The worker has decided, and its handler is empty.
  obtain ⟨part, -⟩ := ((Machine.meets_append _).mp met).2 _ reached
  exact (part _ rfl).2 rfl rfl

end EnhancedProxy
