import EnhancedProxy.ProxyServer.TunnelCallbacks

/-! Reading of the client connection before and after the backend connection goes down. -/

namespace EnhancedProxy

namespace TunnelFlow

/-- Reading of the client connection is stopped exactly while the backend connection has a
write-complete callback. -/
def Paired (flow : TunnelFlow) : Prop :=
  flow.serverConn.reading = !flow.clientConn.writeCompleteCallback

variable {flow next : TunnelFlow} {which : ServerClient} {conn : TcpConnection}

/-- A connection that is replaced by one that is read as before leaves the client's reading. -/
theorem setConn_reading (reading : conn.reading = (flow.conn which).reading) :
    (flow.setConn which conn).serverConn.reading = flow.serverConn.reading := by
  -- A new connection on the backend's side is another one.
  cases which with
  | kServer => exact reading
  | kClient => rfl

/-- A connection that is replaced by one with its callback as before leaves the backend's. -/
theorem setConn_callback
    (callback : conn.writeCompleteCallback = (flow.conn which).writeCompleteCallback) :
    (flow.setConn which conn).clientConn.writeCompleteCallback =
      flow.clientConn.writeCompleteCallback := by
  -- A new connection on the client's side is another one.
  cases which with
  | kServer => rfl
  | kClient => exact callback

/-- A connection may be replaced by one that is read and has its callback as before. -/
theorem paired_setConn (paired : flow.Paired) (reading : conn.reading = (flow.conn which).reading)
    (callback : conn.writeCompleteCallback = (flow.conn which).writeCompleteCallback) :
    (flow.setConn which conn).Paired := by
  -- Both sides of the pairing are the ones before.
  unfold Paired
  rw [setConn_reading reading, setConn_callback callback]
  exact paired

/-- A high-water callback stops the client's reading and installs the backend's callback at once. -/
theorem paired_onHighWaterMark (paired : flow.Paired) : (flow.onHighWaterMark which).Paired := by
  rcases Nat.eq_zero_or_pos (flow.conn which).outputBuffer with empty | busy
  · rw [onHighWaterMark_empty empty]
    exact paired
  · obtain ⟨own, peer⟩ := onHighWaterMark_busy busy
    cases which with
    | kServer =>
      -- The other end changes neither.
      have server : (flow.onHighWaterMark .kServer).serverConn = _ := own
      have client : (flow.onHighWaterMark .kServer).clientConn = _ := peer
      unfold Paired
      rw [server, client]
      exact paired
    | kClient =>
      have client : (flow.onHighWaterMark .kClient).clientConn = _ := own
      have server : (flow.onHighWaterMark .kClient).serverConn = _ := peer
      unfold Paired
      rw [server, client]
      rfl

/-- A write-complete callback starts the client's reading and takes the backend's callback away at
once. -/
theorem paired_onWriteComplete (paired : flow.Paired) : (flow.onWriteComplete which).Paired := by
  -- On the backend's side both change together.
  cases which with
  | kServer => exact paired
  | kClient => rfl

/-- Every callback that the loop runs keeps the client's reading with the backend's callback. -/
theorem paired_runQueued (paired : flow.Paired) (ran : flow.runQueued which = some next) :
    next.Paired := by
  unfold runQueued at ran
  dsimp only at ran
  cases queue : (flow.conn which).queued with
  | nil =>
    rw [queue] at ran
    cases ran
  | cons event later =>
    rw [queue] at ran
    -- Taking the callback from its queue changes neither.
    have popped : (flow.setConn which { flow.conn which with queued := later }).Paired :=
      paired_setConn paired rfl rfl
    cases event with
    | highWaterMark =>
      cases ran
      exact paired_onHighWaterMark popped
    | writeComplete =>
      cases ran
      exact paired_onWriteComplete popped

end TunnelFlow

namespace TunnelCallbacks

/-- After the teardown the client connection is read, or the tunnel can still come to a state in
which it is, and in which no null pointer has been dereferenced. -/
def Readable (tunnel : TunnelCallbacks) : Prop :=
  tunnel.phase = .down → tunnel.Safe →
    ∃ labels later, callbackMachine.run tunnel labels = some later ∧ later.Safe ∧
      later.flow.serverConn.reading = true

/-- The backend connection does not go down while its output holds the client back. -/
def GoesDownUnthrottled (tunnel : TunnelCallbacks) : CallbackStep → Prop
  | .backendDown => tunnel.flow.clientConn.writeCompleteCallback = false
  | _ => True

/-- Reading of the client connection follows the callback of the backend's until the teardown, and
is on after it. -/
structure Reads (tunnel : TunnelCallbacks) : Prop where
  pointed : tunnel.Pointed
  paired : tunnel.phase ≠ .down → tunnel.flow.Paired
  read : tunnel.phase = .down → tunnel.flow.serverConn.reading = true

/-- The backend connection is down, and reading of the client connection is off. -/
structure Stopped (tunnel : TunnelCallbacks) : Prop where
  pointed : tunnel.Pointed
  down : tunnel.phase = .down
  unread : tunnel.flow.serverConn.reading = false

variable {tunnel next : TunnelCallbacks} {label : CallbackStep}

/-- A step that dereferences a null pointer is the last one. -/
theorem safe_of_step (stepped : callbackMachine.step tunnel label = some next) : tunnel.Safe := by
  -- After the null dereference the machine takes no step.
  have stepped : (if tunnel.nullDereference then none else _) = some next := stepped
  cases crashed : tunnel.nullDereference with
  | false => exact crashed
  | true =>
    rw [if_pos crashed] at stepped
    cases stepped

/-- A client that is read is read until and after the teardown, unless the backend connection goes
down while it holds the client back. -/
theorem reads_step (reads : tunnel.Reads) (unthrottled : tunnel.GoesDownUnthrottled label)
    (stepped : callbackMachine.step tunnel label = some next) (safe : next.Safe) :
    next.Reads := by
  have pointed := pointed_step reads.pointed stepped safe
  rcases step_cases reads.pointed stepped safe with
    ⟨which, conn, reading, callback, rfl⟩ | ⟨up, which, flow, ran, rfl⟩ | ⟨-, connecting, rfl⟩ |
      ⟨rfl, up, rfl⟩
  · refine ⟨pointed, fun notDown => ?_, fun down => ?_⟩
    · exact TunnelFlow.paired_setConn (reads.paired notDown) reading callback
    · exact (TunnelFlow.setConn_reading reading).trans (reads.read down)
  · -- Only a callback that runs before the teardown changes the reading.
    have notDown : tunnel.phase ≠ .down := by simp [up]
    exact ⟨pointed, fun _ => TunnelFlow.paired_runQueued (reads.paired notDown) ran,
      fun down => absurd down notDown⟩
  · exact ⟨pointed, fun _ => reads.paired (by simp [connecting]),
      fun down => BackendPhase.noConfusion down⟩
  · refine ⟨pointed, fun notDown => absurd rfl notDown, fun _ => ?_⟩
    -- Without the callback, the client's reading was on.
    have paired := reads.paired (by simp [up])
    have none : tunnel.flow.clientConn.writeCompleteCallback = false := unthrottled
    simpa [TunnelFlow.Paired, none] using paired

/-- A backend connection that goes down while it holds the client back leaves that stopped. -/
theorem stopped_of_throttled (reads : tunnel.Reads)
    (throttled : ¬ tunnel.GoesDownUnthrottled label)
    (stepped : callbackMachine.step tunnel label = some next) : next.Stopped := by
  -- The client's callback is installed, so its peer does not read when the backend goes down.
  cases label with
  | backendDown =>
    obtain ⟨up, rfl⟩ := backendDown_step reads.pointed stepped
    have paired := reads.paired (by simp [up])
    have installed : tunnel.flow.clientConn.writeCompleteCallback = true :=
      (Bool.not_eq_false _).mp throttled
    refine ⟨⟨reads.pointed.safe, rfl⟩, rfl, ?_⟩
    simpa [TunnelFlow.Paired, installed] using paired
  | send | drain | runQueued | backendUp => exact absurd trivial throttled

/-- Nothing that happens after the teardown starts the reading of the client connection again. -/
theorem stopped_step (stopped : tunnel.Stopped)
    (stepped : callbackMachine.step tunnel label = some next) (safe : next.Safe) :
    next.Stopped := by
  -- Being down, the tunnel can only send, drain and run what was queued: nobody starts reading.
  have pointed := pointed_step stopped.pointed stepped safe
  rcases step_cases stopped.pointed stepped safe with
    ⟨which, conn, reading, -, rfl⟩ | ⟨up, -⟩ | ⟨-, connecting, -⟩ | ⟨-, up, -⟩
  · exact ⟨pointed, stopped.down, (TunnelFlow.setConn_reading reading).trans stopped.unread⟩
  · simp [stopped.down] at up
  · simp [stopped.down] at connecting
  · simp [stopped.down] at up

/-- Once the client is stopped without a backend connection, it is never read again. -/
theorem Stopped.not_readable (stopped : tunnel.Stopped) : ¬ tunnel.Readable := by
  intro readable
  obtain ⟨labels, later, ran, safe, reading⟩ := readable stopped.down stopped.pointed.safe
  -- The tunnel stays stopped along the run, as no step before a safe state was a crash.
  have last : later.Safe → later.Stopped :=
    Machine.run_invariant
      (fun _ _ _ kept stepped safe => stopped_step (kept (safe_of_step stepped)) stepped safe)
      (fun _ => stopped) ran
  have unread := (last safe).unread
  rw [reading] at unread
  cases unread

/-- A client that is read needs nothing to happen. -/
theorem Reads.readable (reads : tunnel.Reads) : tunnel.Readable :=
  fun down safe => ⟨[], tunnel, rfl, safe, reads.read down⟩

/-- A tunnel that was just set up has stopped nothing. -/
theorem reads_setUp (serverOutput : Nat) : (setUp serverOutput).Reads :=
  ⟨pointed_setUp serverOutput, fun _ => rfl, fun down => BackendPhase.noConfusion down⟩

end TunnelCallbacks

/-- The client connection can be read after the teardown exactly if the backend connection never
goes down while its output holds the client back. -/
theorem readable_iff {serverOutput : Nat} {labels : List CallbackStep} {last : TunnelCallbacks}
    (ran : callbackMachine.run (.setUp serverOutput) labels = some last) :
    callbackMachine.Always TunnelCallbacks.Readable (.setUp serverOutput) labels ↔
      callbackMachine.Meets TunnelCallbacks.GoesDownUnthrottled (.setUp serverOutput) labels := by
  have within : callbackMachine.Meets (fun _ _ => True) (.setUp serverOutput) labels :=
    Machine.meets_of_forall fun _ _ _ => trivial
  -- What is known of the reading is known until a null pointer is dereferenced.
  refine @Machine.always_iff_meets _ _ callbackMachine (fun tunnel => tunnel.Safe → tunnel.Reads)
    _ _ _ ?_ ?_ ?_ _ _ _ (fun _ => TunnelCallbacks.reads_setUp serverOutput) within ran
  · intro tunnel label next kept _ unthrottled stepped safe
    exact TunnelCallbacks.reads_step (kept (TunnelCallbacks.safe_of_step stepped)) unthrottled
      stepped safe
  · intro tunnel label next kept _ throttled stepped
    have reads := kept (TunnelCallbacks.safe_of_step stepped)
    exact (TunnelCallbacks.stopped_of_throttled reads throttled stepped).not_readable
  · intro tunnel kept down safe
    exact (kept safe).readable down safe

/-- The output of the backend connection is written out before that goes down. -/
theorem readable_drained :
    callbackMachine.Always TunnelCallbacks.Readable (.setUp 0)
      [.backendUp, .send .kClient 1048576 0, .runQueued .kClient, .drain .kClient 1048576,
        .runQueued .kClient, .backendDown] :=
  -- The mark is drained and its callback has run, so reading was on again in time.
  (@readable_iff 0 _ { phase := .down } (by decide)).mpr
    ⟨trivial, fun _ up => ⟨trivial, fun _ sent => ⟨trivial, fun _ stopped => ⟨trivial,
      fun _ drained => ⟨trivial, fun _ started => by
        cases up
        cases sent
        cases stopped
        cases drained
        cases started
        exact ⟨rfl, fun _ _ => trivial⟩⟩⟩⟩⟩⟩

/-- The backend connection goes down while its full output holds the client back. -/
theorem unread_throttled :
    ¬ ∀ serverOutput labels last,
      callbackMachine.run (.setUp serverOutput) labels = some last →
        callbackMachine.Always TunnelCallbacks.Readable (.setUp serverOutput) labels := by
  -- The backend goes down while reading is stopped, and the way to start it goes with it.
  intro claim
  let labels : List CallbackStep :=
    [.backendUp, .send .kClient 1048576 0, .runQueued .kClient, .backendDown]
  let left : TunnelCallbacks :=
    { flow :=
        { serverConn := { reading := false }
          clientConn := { outputBuffer := 1048576, writeCompleteCallback := true } }
      phase := .down }
  have ran : callbackMachine.run (.setUp 0) labels = some left := by decide
  have stopped : left.Stopped := ⟨⟨rfl, rfl⟩, rfl, rfl⟩
  exact stopped.not_readable (claim 0 labels left ran labels left (List.prefix_refl _) ran)

end EnhancedProxy
