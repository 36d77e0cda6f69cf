import EnhancedProxy.ProxyServer.FlowControl

/-! The callbacks of a tunnel, and the pointer to the backend connection that they use. -/

namespace EnhancedProxy

/-- How far the backend connection of a tunnel has come. A tunnel connects once. -/
inductive BackendPhase
  | connecting
  | up
  | down
  deriving DecidableEq, Repr

/-- A `Tunnel` object after `setup`. It is never destroyed, because `client_` keeps a callback that
shares it. The pointer `serverConn_` is never null, and of `clientConn_` it counts whether it is. -/
structure TunnelCallbacks where
  flow : TunnelFlow := {}
  phase : BackendPhase := .connecting
  clientConn : Bool := false
  nullDereference : Bool := false
  deriving DecidableEq, Repr

/-- What the loops may do with a tunnel, in any order: bytes are given to a connection and written
by it, a callback of its queue runs, and the backend connection comes up and goes down. -/
inductive CallbackStep
  | send (which : ServerClient) (len written : Nat)
  | drain (which : ServerClient) (n : Nat)
  | runQueued (which : ServerClient)
  | backendUp
  | backendDown
  deriving DecidableEq, Repr

namespace TunnelCallbacks

/-- A tunnel that was set up for a client with bytes in its output. -/
def setUp (serverOutput : Nat) : TunnelCallbacks :=
  { flow := { serverConn := { outputBuffer := serverOutput } } }

/-- A null pointer is dereferenced, and nothing runs any more. -/
def crash (tunnel : TunnelCallbacks) : TunnelCallbacks := { tunnel with nullDereference := true }

/-- `onHighWaterMark`. The output of the backend connection is read through the pointer. -/
def onHighWaterMark (tunnel : TunnelCallbacks) : ServerClient → TunnelCallbacks
  | .kServer =>
    if 0 < tunnel.flow.serverConn.outputBuffer then
      if tunnel.clientConn then { tunnel with flow := tunnel.flow.onHighWaterMark .kServer }
      else tunnel.crash
    else tunnel
  | .kClient =>
    if tunnel.clientConn then { tunnel with flow := tunnel.flow.onHighWaterMark .kClient }
    else tunnel.crash

/-- `onWriteComplete`. -/
def onWriteComplete (tunnel : TunnelCallbacks) : ServerClient → TunnelCallbacks
  | .kServer =>
    if tunnel.clientConn then { tunnel with flow := tunnel.flow.onWriteComplete .kServer }
    else tunnel.crash
  | .kClient =>
    if tunnel.clientConn then { tunnel with flow := tunnel.flow.onWriteComplete .kClient }
    else
      -- The client connection is read again before the pointer is used.
      let started := { tunnel.flow with serverConn := tunnel.flow.serverConn.startRead }
      { tunnel with flow := started }.crash

/-- `onClientConnection` for a connection that is up. -/
def onClientConnectionUp (tunnel : TunnelCallbacks) : TunnelCallbacks :=
  { tunnel with phase := .up, clientConn := true }

/-- `teardown`, which `onClientConnection` calls for a connection that is down. -/
def teardown (tunnel : TunnelCallbacks) : TunnelCallbacks :=
  if tunnel.clientConn then { tunnel with phase := .down, clientConn := false } else tunnel.crash

/-- A connection takes bytes: the client's until `teardown` shuts it down, the backend's while it is
up. -/
def accepts (tunnel : TunnelCallbacks) : ServerClient → Bool
  | .kServer => tunnel.phase ≠ .down
  | .kClient => tunnel.phase = .up

/-- A connection writes its output. That of the client goes on after the shutdown. -/
def writes (tunnel : TunnelCallbacks) : ServerClient → Bool
  | .kServer => true
  | .kClient => tunnel.phase = .up

/-- The loop runs the oldest callback of a connection, if there is one. -/
def runQueued (tunnel : TunnelCallbacks) (which : ServerClient) : Option TunnelCallbacks :=
  let conn := tunnel.flow.conn which
  match conn.queued with
  | [] => none
  | event :: later =>
    let popped := { tunnel with flow := tunnel.flow.setConn which { conn with queued := later } }
    match event with
    | .highWaterMark => some (popped.onHighWaterMark which)
    | .writeComplete => some (popped.onWriteComplete which)

end TunnelCallbacks

/-- A tunnel with its callbacks as a machine, until a null pointer is dereferenced. -/
def callbackMachine : Machine TunnelCallbacks CallbackStep where
  step tunnel label :=
    if tunnel.nullDereference then none
    else
      match label with
      | .send which len written =>
        if tunnel.accepts which ∧ written ≤ len then
          let conn := (tunnel.flow.conn which).send len written
          some { tunnel with flow := tunnel.flow.setConn which conn }
        else none
      | .drain which n =>
        if tunnel.writes which ∧ 0 < n ∧ n ≤ (tunnel.flow.conn which).outputBuffer then
          let conn := (tunnel.flow.conn which).drain n
          some { tunnel with flow := tunnel.flow.setConn which conn }
        else none
      | .runQueued which => tunnel.runQueued which
      | .backendUp =>
        if tunnel.phase = .connecting then some tunnel.onClientConnectionUp else none
      | .backendDown => if tunnel.phase = .up then some tunnel.teardown else none

namespace TunnelCallbacks

/-- No null pointer has been dereferenced. -/
def Safe (tunnel : TunnelCallbacks) : Prop := tunnel.nullDereference = false

/-- The high-water callback of the client connection comes too late: its output is empty. -/
def RunsLate (tunnel : TunnelCallbacks) (which : ServerClient) : Prop :=
  which = .kServer ∧ tunnel.flow.serverConn.queued.head? = some .highWaterMark ∧
    tunnel.flow.serverConn.outputBuffer = 0

/-- A callback runs while the backend connection is up, or comes too late to do anything. -/
def RunsWhileUp (tunnel : TunnelCallbacks) : CallbackStep → Prop
  | .runQueued which => tunnel.phase = .up ∨ tunnel.RunsLate which
  | _ => True

/-- The pointer to the backend connection is set exactly while that is up. -/
structure Pointed (tunnel : TunnelCallbacks) : Prop where
  safe : tunnel.nullDereference = false
  pointer : tunnel.clientConn = decide (tunnel.phase = .up)

variable {tunnel next : TunnelCallbacks} {label : CallbackStep} {which : ServerClient}

/-- A tunnel that is up runs its callbacks as its flow control does. -/
theorem runQueued_up (pointed : tunnel.Pointed) (up : tunnel.phase = .up)
    (ran : tunnel.runQueued which = some next) :
    ∃ flow, tunnel.flow.runQueued which = some flow ∧ next = { tunnel with flow := flow } := by
  have pointer := pointed.pointer
  rw [decide_eq_true up] at pointer
  unfold runQueued at ran
  unfold TunnelFlow.runQueued
  dsimp only at ran ⊢
  cases queue : (tunnel.flow.conn which).queued with
  | nil => simp [queue] at ran
  | cons event later =>
    simp only [queue] at ran ⊢
    cases event with
    | highWaterMark =>
      refine ⟨_, rfl, ?_⟩
      cases ran
      cases which with
      | kServer =>
        -- An empty output is left alone by both.
        simp only [onHighWaterMark, TunnelFlow.onHighWaterMark, pointer, if_true]
        split <;> rfl
      | kClient => simp only [onHighWaterMark, pointer, if_true]
    | writeComplete =>
      refine ⟨_, rfl, ?_⟩
      cases ran
      cases which <;> simp only [onWriteComplete, pointer, if_true]

/-- Without the pointer, a callback crashes, unless it comes too late and is only taken from its
queue. -/
theorem runQueued_null (null : tunnel.clientConn = false)
    (ran : tunnel.runQueued which = some next) :
    (¬ tunnel.RunsLate which ∧ next.nullDereference = true) ∨
      (tunnel.RunsLate which ∧ ∃ later,
        next = { tunnel with
          flow := tunnel.flow.setConn which { tunnel.flow.conn which with queued := later } }) := by
  unfold runQueued at ran
  dsimp only at ran
  cases queue : (tunnel.flow.conn which).queued with
  | nil => simp [queue] at ran
  | cons event later =>
    simp only [queue] at ran
    cases which with
    | kServer =>
      have queue : tunnel.flow.serverConn.queued = event :: later := queue
      cases event with
      | highWaterMark =>
        cases ran
        rcases Nat.eq_zero_or_pos tunnel.flow.serverConn.outputBuffer with empty | busy
        · -- The output is looked at before the pointer is.
          refine .inr ⟨⟨rfl, by simp [queue], empty⟩, later, ?_⟩
          simp [onHighWaterMark, TunnelFlow.setConn, TunnelFlow.conn, empty]
        · refine .inl ⟨fun late => Nat.ne_of_gt busy late.2.2, ?_⟩
          simp [onHighWaterMark, TunnelFlow.setConn, TunnelFlow.conn, null, crash, busy]
      | writeComplete =>
        cases ran
        refine .inl ⟨fun late => ?_, ?_⟩
        · have head := late.2.1
          simp [queue] at head
        · simp [onWriteComplete, null, crash]
    | kClient =>
      -- The pointer is used by both callbacks of the backend connection.
      refine .inl ⟨fun late => ServerClient.noConfusion late.1, ?_⟩
      cases event with
      | highWaterMark =>
        cases ran
        simp [onHighWaterMark, null, crash]
      | writeComplete =>
        cases ran
        simp [onWriteComplete, null, crash]

/-- A tunnel that was just set up has no backend connection yet, and no pointer to it. -/
theorem pointed_setUp (serverOutput : Nat) : (setUp serverOutput).Pointed := ⟨rfl, rfl⟩

/-- Whatever happens to the flow, the pointer stays with the phase. -/
theorem Pointed.withFlow (pointed : tunnel.Pointed) (flow : TunnelFlow) :
    Pointed { tunnel with flow := flow } :=
  ⟨pointed.safe, pointed.pointer⟩

/-- Without an established backend connection the pointer is null. -/
theorem Pointed.null (pointed : tunnel.Pointed) (absent : tunnel.phase ≠ .up) :
    tunnel.clientConn = false := by
  -- The pointer is there exactly while the tunnel is up.
  rw [pointed.pointer]
  exact decide_eq_false absent

/-- The backend connection that goes down was up, and the pointer is reset. -/
theorem backendDown_step (pointed : tunnel.Pointed)
    (stepped : callbackMachine.step tunnel .backendDown = some next) :
    tunnel.phase = .up ∧ next = { tunnel with phase := .down, clientConn := false } := by
  -- The pointer is there while the tunnel is up, so the teardown clears it.
  have stepped : (if tunnel.nullDereference then none else _) = some next := stepped
  rw [if_neg (by simp [pointed.safe])] at stepped
  obtain ⟨up, done⟩ := Option.ite_none_right_eq_some.mp stepped
  have pointer := pointed.pointer
  rw [decide_eq_true up] at pointer
  simp only [teardown, pointer, if_true] at done
  exact ⟨up, (Option.some.inj done).symm⟩

/-- A step that dereferences no null pointer replaces a connection by one that is read as before and
has its callback as before, or runs a callback while the backend connection is up, or it is that
connection coming up or going down. -/
theorem step_cases (pointed : tunnel.Pointed)
    (stepped : callbackMachine.step tunnel label = some next) (safe : next.Safe) :
    (∃ which conn, conn.reading = (tunnel.flow.conn which).reading ∧
        conn.writeCompleteCallback = (tunnel.flow.conn which).writeCompleteCallback ∧
        next = { tunnel with flow := tunnel.flow.setConn which conn }) ∨
      (tunnel.phase = .up ∧ ∃ which flow, tunnel.flow.runQueued which = some flow ∧
        next = { tunnel with flow := flow }) ∨
      (label = .backendUp ∧ tunnel.phase = .connecting ∧
        next = { tunnel with phase := .up, clientConn := true }) ∨
      (label = .backendDown ∧ tunnel.phase = .up ∧
        next = { tunnel with phase := .down, clientConn := false }) := by
  have ran : (if tunnel.nullDereference then none else _) = some next := stepped
  rw [if_neg (by simp [pointed.safe])] at ran
  cases label with
  | send which len written =>
    obtain ⟨-, done⟩ := Option.ite_none_right_eq_some.mp ran
    cases done
    exact .inl ⟨which, _, TunnelFlow.send_reading _ len written,
      TunnelFlow.send_callback _ len written, rfl⟩
  | drain which n =>
    obtain ⟨-, done⟩ := Option.ite_none_right_eq_some.mp ran
    cases done
    exact .inl ⟨which, _, TunnelFlow.drain_reading _ n, TunnelFlow.drain_callback _ n, rfl⟩
  | runQueued which =>
    by_cases up : tunnel.phase = .up
    · obtain ⟨flow, ranFlow, done⟩ := runQueued_up pointed up ran
      exact .inr (.inl ⟨up, which, flow, ranFlow, done⟩)
    · -- The callback comes too late, and is only taken from its queue.
      rcases runQueued_null (pointed.null up) ran with ⟨-, crashed⟩ | ⟨-, later, done⟩
      · exact absurd safe (by simp [Safe, crashed])
      · exact .inl ⟨which, { tunnel.flow.conn which with queued := later }, rfl, rfl, done⟩
  | backendUp =>
    obtain ⟨connecting, done⟩ := Option.ite_none_right_eq_some.mp ran
    cases done
    exact .inr (.inr (.inl ⟨rfl, connecting, rfl⟩))
  | backendDown =>
    obtain ⟨up, done⟩ := backendDown_step pointed stepped
    exact .inr (.inr (.inr ⟨rfl, up, done⟩))

/-- A step that dereferences no null pointer keeps the pointer with the phase. -/
theorem pointed_step (pointed : tunnel.Pointed)
    (stepped : callbackMachine.step tunnel label = some next) (safe : next.Safe) :
    next.Pointed := by
  -- Flow control leaves the pointer alone; coming up and going down set it with the phase.
  rcases step_cases pointed stepped safe with
    ⟨which, conn, -, -, rfl⟩ | ⟨-, which, flow, -, rfl⟩ | ⟨-, -, rfl⟩ | ⟨-, -, rfl⟩
  · exact pointed.withFlow _
  · exact pointed.withFlow flow
  · exact ⟨pointed.safe, rfl⟩
  · exact ⟨pointed.safe, rfl⟩

/-- A step dereferences a null pointer exactly if it runs a callback without a backend connection,
and in time to do something. -/
theorem safe_step_iff (pointed : tunnel.Pointed)
    (stepped : callbackMachine.step tunnel label = some next) :
    next.Safe ↔ tunnel.RunsWhileUp label := by
  -- Only a queued callback follows the pointer, and the pointer is there exactly while up.
  have ran : (if tunnel.nullDereference then none else _) = some next := stepped
  rw [if_neg (by simp [pointed.safe])] at ran
  cases label with
  | send | drain | backendUp =>
    obtain ⟨-, done⟩ := Option.ite_none_right_eq_some.mp ran
    cases done
    exact iff_of_true pointed.safe trivial
  | backendDown =>
    obtain ⟨up, rfl⟩ := backendDown_step pointed stepped
    exact iff_of_true pointed.safe trivial
  | runQueued which =>
    by_cases up : tunnel.phase = .up
    · obtain ⟨flow, -, rfl⟩ := runQueued_up pointed up ran
      exact iff_of_true pointed.safe (.inl up)
    · rcases runQueued_null (pointed.null up) ran with ⟨early, crashed⟩ | ⟨late, later, rfl⟩
      · exact iff_of_false (by simp [Safe, crashed]) (not_or.mpr ⟨up, early⟩)
      · exact iff_of_true pointed.safe (.inr late)

end TunnelCallbacks

/-- No callback of a tunnel dereferences a null pointer exactly if each of them runs while the
backend connection is up, or comes too late to do anything. -/
theorem callbacks_safe_iff {serverOutput : Nat} {labels : List CallbackStep}
    {last : TunnelCallbacks}
    (ran : callbackMachine.run (.setUp serverOutput) labels = some last) :
    callbackMachine.Always TunnelCallbacks.Safe (.setUp serverOutput) labels ↔
      callbackMachine.Meets TunnelCallbacks.RunsWhileUp (.setUp serverOutput) labels := by
  have within : callbackMachine.Meets (fun _ _ => True) (.setUp serverOutput) labels :=
    Machine.meets_of_forall fun _ _ _ => trivial
  -- The pointer is set with the phase as long as no callback has run without it.
  exact Machine.always_iff_meets
    (fun _ _ _ pointed _ runs stepped =>
      TunnelCallbacks.pointed_step pointed stepped
        ((TunnelCallbacks.safe_step_iff pointed stepped).mpr runs))
    (fun _ _ _ pointed _ missed stepped =>
      mt (TunnelCallbacks.safe_step_iff pointed stepped).mp missed)
    (fun _ pointed => pointed.safe) (TunnelCallbacks.pointed_setUp serverOutput) within ran

/-- The backend connection comes up, its output crosses the mark, and the callback runs. -/
theorem callbacks_safe_up :
    callbackMachine.Always TunnelCallbacks.Safe (.setUp 0)
      [.backendUp, .send .kClient 1048576 0, .runQueued .kClient] :=
  -- The callback runs after the backend has come up.
  (@callbacks_safe_iff 0 _
    { flow :=
        { serverConn := { reading := false }
          clientConn := { outputBuffer := 1048576, writeCompleteCallback := true } }
      phase := .up
      clientConn := true } (by decide)).mpr
    ⟨trivial, fun _ up => ⟨trivial, fun _ sent => by
      cases up
      cases sent
      exact ⟨.inl rfl, fun _ _ => trivial⟩⟩⟩

/-- The output of the client connection crosses its mark before the backend connection is up. -/
theorem callbacks_unsafe_connecting :
    ¬ ∀ serverOutput labels last,
      callbackMachine.run (.setUp serverOutput) labels = some last →
        callbackMachine.Always TunnelCallbacks.Safe (.setUp serverOutput) labels := by
  -- The mark is reached while the tunnel is connecting, and there is no pointer yet.
  intro claim
  let labels : List CallbackStep := [.send .kServer 1048576 0, .runQueued .kServer]
  let crashed : TunnelCallbacks :=
    { flow := { serverConn := { outputBuffer := 1048576 } }, nullDereference := true }
  have ran : callbackMachine.run (.setUp 0) labels = some crashed := by decide
  have safe : crashed.Safe := claim 0 labels crashed ran labels crashed (List.prefix_refl _) ran
  exact Bool.noConfusion safe

end EnhancedProxy
