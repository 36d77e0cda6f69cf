import EnhancedProxy.Library.Machine
import Mathlib.Tactic.SplitIfs

/-! Flow control of a tunnel: a full output stops the reading of the connection that feeds it. -/

namespace EnhancedProxy

/-- The two ends of a tunnel, named after the connection whose output is watched. -/
inductive ServerClient
  | kServer
  | kClient
  deriving DecidableEq, Repr

/-- A callback of a connection that waits in the queue of its loop. -/
inductive LoopEvent
  | highWaterMark
  | writeComplete
  deriving DecidableEq, Repr

/-- The mark that `setup` and `onClientConnection` install for their connections. -/
def highWaterMark : Nat := 1024 * 1024

/-- An empty output is below the mark. -/
theorem highWaterMark_pos : 0 < highWaterMark := by decide

/-- What flow control sees of a connection: the bytes to be written, whether it is read, whether a
write-complete callback is installed, and its callbacks in the queue of the loop. -/
structure TcpConnection where
  outputBuffer : Nat := 0
  reading : Bool := true
  writeCompleteCallback : Bool := false
  queued : List LoopEvent := []
  deriving DecidableEq, Repr

namespace TcpConnection

/-- Add a callback at the end of the loop's queue. -/
def queueInLoop (conn : TcpConnection) (event : LoopEvent) : TcpConnection :=
  { conn with queued := conn.queued ++ [event] }

/-- Give bytes to a connection. A connection with an empty output tries to write them at once, and
`written` of them go out. -/
def send (conn : TcpConnection) (len written : Nat) : TcpConnection :=
  let remaining := if conn.outputBuffer = 0 then len - written else len
  if conn.outputBuffer = 0 ∧ remaining = 0 then
    if conn.writeCompleteCallback then conn.queueInLoop .writeComplete else conn
  else
    let grown := { conn with outputBuffer := conn.outputBuffer + remaining }
    -- Only the growth across the mark is announced.
    if conn.outputBuffer < highWaterMark ∧ highWaterMark ≤ grown.outputBuffer then
      grown.queueInLoop .highWaterMark
    else grown

/-- The socket takes bytes from the output. -/
def drain (conn : TcpConnection) (n : Nat) : TcpConnection :=
  let shrunk := { conn with outputBuffer := conn.outputBuffer - n }
  if shrunk.outputBuffer = 0 ∧ conn.writeCompleteCallback then shrunk.queueInLoop .writeComplete
  else shrunk

def stopRead (conn : TcpConnection) : TcpConnection := { conn with reading := false }

def startRead (conn : TcpConnection) : TcpConnection := { conn with reading := true }

/-- Install a write-complete callback, or the empty one. -/
def setWriteCompleteCallback (conn : TcpConnection) (callback : Bool) : TcpConnection :=
  { conn with writeCompleteCallback := callback }

end TcpConnection

/-- The two connections of a tunnel that is up. -/
structure TunnelFlow where
  serverConn : TcpConnection := {}
  clientConn : TcpConnection := {}
  deriving DecidableEq, Repr

namespace TunnelFlow

/-- The connection whose output is watched. -/
def conn (flow : TunnelFlow) : ServerClient → TcpConnection
  | .kServer => flow.serverConn
  | .kClient => flow.clientConn

/-- The connection whose reading is throttled. -/
def peer (flow : TunnelFlow) : ServerClient → TcpConnection
  | .kServer => flow.clientConn
  | .kClient => flow.serverConn

/-- Replace one of the two connections. -/
def setConn (flow : TunnelFlow) (which : ServerClient) (conn : TcpConnection) : TunnelFlow :=
  match which with
  | .kServer => { flow with serverConn := conn }
  | .kClient => { flow with clientConn := conn }

/-- An output has grown across the mark some time ago, and may have been drained since. -/
def onHighWaterMark (flow : TunnelFlow) (which : ServerClient) : TunnelFlow :=
  match which with
  | .kServer =>
    if 0 < flow.serverConn.outputBuffer then
      { clientConn := flow.clientConn.stopRead
        serverConn := flow.serverConn.setWriteCompleteCallback true }
    else flow
  | .kClient =>
    if 0 < flow.clientConn.outputBuffer then
      { serverConn := flow.serverConn.stopRead
        clientConn := flow.clientConn.setWriteCompleteCallback true }
    else flow

/-- An output has become empty some time ago, and may have been filled since. -/
def onWriteComplete (flow : TunnelFlow) (which : ServerClient) : TunnelFlow :=
  match which with
  | .kServer =>
    { clientConn := flow.clientConn.startRead
      serverConn := flow.serverConn.setWriteCompleteCallback false }
  | .kClient =>
    { serverConn := flow.serverConn.startRead
      clientConn := flow.clientConn.setWriteCompleteCallback false }

/-- The loop runs the oldest callback of a connection, if there is one. -/
def runQueued (flow : TunnelFlow) (which : ServerClient) : Option TunnelFlow :=
  let conn := flow.conn which
  match conn.queued with
  | [] => none
  | event :: later =>
    let popped := flow.setConn which { conn with queued := later }
    match event with
    | .highWaterMark => some (popped.onHighWaterMark which)
    | .writeComplete => some (popped.onWriteComplete which)

end TunnelFlow

/-- What can happen at one end of the tunnel. -/
inductive FlowStep
  | send (which : ServerClient) (len written : Nat)
  | drain (which : ServerClient) (n : Nat)
  | runQueued (which : ServerClient)
  deriving DecidableEq, Repr

/-- The two connections as a machine. A socket takes at least one byte of those that are there. -/
def flowMachine : Machine TunnelFlow FlowStep where
  step flow label :=
    match label with
    | .send which len written =>
      if written ≤ len then some (flow.setConn which ((flow.conn which).send len written)) else none
    | .drain which n =>
      if 0 < n ∧ n ≤ (flow.conn which).outputBuffer then
        some (flow.setConn which ((flow.conn which).drain n))
      else none
    | .runQueued which => flow.runQueued which

/-- A tunnel that has just come up with the given outputs: all is read, and nothing is queued. -/
def TunnelFlow.up (serverOutput clientOutput : Nat) : TunnelFlow :=
  { serverConn := { outputBuffer := serverOutput }
    clientConn := { outputBuffer := clientOutput } }

/-- A high-water callback is queued, and no write-complete callback behind it. -/
def HighWaterLast (queued : List LoopEvent) : Prop :=
  ∃ before after, queued = before ++ .highWaterMark :: after ∧ .writeComplete ∉ after

/-- How one end stands to the reading of its peer. A stopped peer is going to be started again, and
a full output has stopped its peer or is going to stop it. -/
structure Throttled (conn : TcpConnection) (peerReading : Bool) : Prop where
  paired : peerReading = !conn.writeCompleteCallback
  resumes : peerReading = false → conn.outputBuffer = 0 → .writeComplete ∈ conn.queued
  stops : highWaterMark ≤ conn.outputBuffer →
    HighWaterLast conn.queued ∨
      (peerReading = false ∧ .writeComplete ∉ conn.queued)

namespace HighWaterLast

variable {queued : List LoopEvent}

/-- The callback that was queued last has none behind it. -/
theorem newest : HighWaterLast (queued ++ [.highWaterMark]) :=
  ⟨queued, [], rfl, List.not_mem_nil⟩

/-- A callback that runs leaves the last high-water callback in the queue, unless it was the only
one and no write-complete callback is left. -/
theorem pop {event : LoopEvent} (last : HighWaterLast (event :: queued)) :
    HighWaterLast queued ∨ (event = .highWaterMark ∧ .writeComplete ∉ queued) := by
  obtain ⟨before, after, split, quiet⟩ := last
  cases before with
  | nil =>
    -- The callback that runs is the last high-water callback itself.
    obtain ⟨rfl, rfl⟩ := List.cons.inj split
    exact .inr ⟨rfl, quiet⟩
  | cons first before =>
    -- The callback that runs stood before it.
    obtain ⟨-, rfl⟩ := List.cons.inj split
    exact .inl ⟨before, after, rfl, quiet⟩

end HighWaterLast

namespace Throttled

variable {conn : TcpConnection} {peerReading : Bool}

/-- Whether the watched connection itself is read has no part in it. -/
theorem reading (throttled : Throttled conn peerReading) (reading : Bool) :
    Throttled { conn with reading := reading } peerReading :=
  ⟨throttled.paired, throttled.resumes, throttled.stops⟩

/-- A callback is installed exactly while the peer is stopped. -/
theorem installed (throttled : Throttled conn peerReading) (stopped : peerReading = false) :
    conn.writeCompleteCallback = true := by
  -- The two flags are each other's opposites.
  have paired := throttled.paired
  rw [stopped] at paired
  simpa using paired.symm

/-- Bytes given to a connection never leave a full output unannounced. -/
theorem send (throttled : Throttled conn peerReading) (len written : Nat) :
    Throttled (conn.send len written) peerReading := by
  have positive := highWaterMark_pos
  unfold TcpConnection.send
  dsimp only
  generalize (if conn.outputBuffer = 0 then len - written else len) = remaining
  split
  · rename_i idle
    split
    · -- All of it went out at once, and the callback is queued.
      refine ⟨throttled.paired, fun _ _ => List.mem_append_right _ List.mem_cons_self,
        fun full => ?_⟩
      have full : highWaterMark ≤ conn.outputBuffer := full
      omega
    · exact throttled
  · rename_i busy
    -- Whatever is left makes the output nonempty.
    have nonempty : conn.outputBuffer + remaining ≠ 0 := by omega
    split
    · -- The output has grown across the mark, and the callback is the last in the queue.
      refine ⟨throttled.paired, fun _ empty => absurd empty nonempty, fun _ => .inl .newest⟩
    · rename_i uncrossed
      refine ⟨throttled.paired, fun _ empty => absurd empty nonempty, fun full => ?_⟩
      -- A full output was full before.
      have before : highWaterMark ≤ conn.outputBuffer := by
        have full : highWaterMark ≤ conn.outputBuffer + remaining := full
        omega
      exact throttled.stops before

/-- An output that the socket has emptied announces so while its peer is stopped. -/
theorem drain (throttled : Throttled conn peerReading) (n : Nat) :
    Throttled (conn.drain n) peerReading := by
  have positive := highWaterMark_pos
  unfold TcpConnection.drain
  dsimp only
  split
  · rename_i emptied
    refine ⟨throttled.paired, fun _ _ => List.mem_append_right _ List.mem_cons_self, fun full => ?_⟩
    have full : highWaterMark ≤ conn.outputBuffer - n := full
    omega
  · rename_i unannounced
    refine ⟨throttled.paired, fun stopped empty => ?_, fun full => ?_⟩
    · -- An empty output with the callback installed would have been announced.
      exact absurd ⟨empty, throttled.installed stopped⟩ unannounced
    · -- An output that is still full was full before.
      have full : highWaterMark ≤ conn.outputBuffer - n := full
      exact throttled.stops (by omega)

/-- A high-water callback that finds bytes in the output stops the peer. -/
theorem highWater {later : List LoopEvent} (throttled : Throttled conn peerReading)
    (queue : conn.queued = .highWaterMark :: later) (busy : 0 < conn.outputBuffer) :
    Throttled ({ conn with queued := later }.setWriteCompleteCallback true) false := by
  refine ⟨rfl, fun _ empty => absurd empty (Nat.ne_of_gt busy), fun full => ?_⟩
  by_cases quiet : .writeComplete ∈ later
  · -- A write-complete callback in the queue has a high-water callback behind it.
    have stops := throttled.stops full
    rw [queue] at stops
    rcases stops with last | ⟨-, quiet⟩
    · rcases last.pop with last | ⟨-, none⟩
      · exact .inl last
      · exact absurd quiet none
    · exact absurd (List.mem_cons_of_mem _ ‹_›) quiet
  · exact .inr ⟨rfl, quiet⟩

/-- A high-water callback that comes too late, after the output was emptied, does nothing. -/
theorem highWater_late {later : List LoopEvent} (throttled : Throttled conn peerReading)
    (queue : conn.queued = .highWaterMark :: later) (empty : conn.outputBuffer = 0) :
    Throttled { conn with queued := later } peerReading := by
  have positive := highWaterMark_pos
  refine ⟨throttled.paired, fun stopped _ => ?_, fun full => ?_⟩
  · -- The write-complete callback stood behind the one that runs.
    have resumes := throttled.resumes stopped empty
    rw [queue] at resumes
    simpa using resumes
  · have full : highWaterMark ≤ conn.outputBuffer := full
    omega

/-- A write-complete callback starts the peer again. -/
theorem writeComplete {later : List LoopEvent} (throttled : Throttled conn peerReading)
    (queue : conn.queued = .writeComplete :: later) :
    Throttled ({ conn with queued := later }.setWriteCompleteCallback false) true := by
  refine ⟨rfl, fun stopped => Bool.noConfusion stopped, fun full => ?_⟩
  -- A full output has a high-water callback behind the one that runs.
  have stops := throttled.stops full
  rw [queue] at stops
  rcases stops with last | ⟨-, quiet⟩
  · rcases last.pop with last | ⟨other, -⟩
    · exact .inl last
    · cases other
  · exact absurd List.mem_cons_self quiet

end Throttled

/-- Both ends of the tunnel throttle their peers. -/
def TunnelFlow.Throttling (flow : TunnelFlow) : Prop :=
  ∀ which, Throttled (flow.conn which) (flow.peer which).reading

namespace TunnelFlow

variable {flow : TunnelFlow} {which : ServerClient}

/-- A connection that has just come up below the mark has nothing to stop. -/
theorem throttled_up {output : Nat} (below : output < highWaterMark) :
    Throttled { outputBuffer := output } true :=
  ⟨rfl, fun stopped => Bool.noConfusion stopped, fun full => absurd below (Nat.not_lt.mpr full)⟩

/-- A tunnel that has just come up with outputs below the mark has nothing to stop. -/
theorem throttling_up {serverOutput clientOutput : Nat} (server : serverOutput < highWaterMark)
    (client : clientOutput < highWaterMark) : (up serverOutput clientOutput).Throttling
  -- Both connections are read, and no callback is installed.
  | .kServer => throttled_up server
  | .kClient => throttled_up client

/-- A step at one end only has to be examined there: the other end sees the same output, callbacks
and reading as before. -/
theorem throttling_of_end (which : ServerClient) {next : TunnelFlow}
    (throttling : flow.Throttling)
    (own : Throttled (next.conn which) (next.peer which).reading)
    (reading : (next.conn which).reading = (flow.conn which).reading)
    (peer : next.peer which = { flow.peer which with reading := (next.peer which).reading }) :
    next.Throttling := by
  intro side
  -- Each connection is watched at one end, and is the peer at the other.
  cases which with
  | kServer =>
    cases side with
    | kServer => exact own
    | kClient =>
      show Throttled (next.peer .kServer) (next.conn .kServer).reading
      rw [peer, reading]
      exact (throttling .kClient).reading _
  | kClient =>
    cases side with
    | kServer =>
      show Throttled (next.peer .kClient) (next.conn .kClient).reading
      rw [peer, reading]
      exact (throttling .kServer).reading _
    | kClient => exact own

/-- The connection that was replaced is the new one, and its peer stays. -/
theorem setConn_own (flow : TunnelFlow) (which : ServerClient) (conn : TcpConnection) :
    (flow.setConn which conn).conn which = conn ∧
      (flow.setConn which conn).peer which = flow.peer which := by
  cases which <;> exact ⟨rfl, rfl⟩

/-- A high-water callback that finds bytes in the output stops the peer, at either end. -/
theorem onHighWaterMark_busy (busy : 0 < (flow.conn which).outputBuffer) :
    (flow.onHighWaterMark which).conn which = (flow.conn which).setWriteCompleteCallback true ∧
      (flow.onHighWaterMark which).peer which = (flow.peer which).stopRead := by
  -- The two sides mirror each other, each with its own output buffer.
  cases which with
  | kServer =>
    have busy : 0 < flow.serverConn.outputBuffer := busy
    simp [onHighWaterMark, conn, peer, busy]
  | kClient =>
    have busy : 0 < flow.clientConn.outputBuffer := busy
    simp [onHighWaterMark, conn, peer, busy]

/-- A high-water callback that finds an empty output does nothing, at either end. -/
theorem onHighWaterMark_empty (empty : (flow.conn which).outputBuffer = 0) :
    flow.onHighWaterMark which = flow := by
  -- With nothing to write the callback finds its condition false on either side.
  cases which with
  | kServer =>
    have empty : flow.serverConn.outputBuffer = 0 := empty
    simp [onHighWaterMark, empty]
  | kClient =>
    have empty : flow.clientConn.outputBuffer = 0 := empty
    simp [onHighWaterMark, empty]

/-- A write-complete callback starts the peer, at either end. -/
theorem onWriteComplete_own (flow : TunnelFlow) (which : ServerClient) :
    (flow.onWriteComplete which).conn which = (flow.conn which).setWriteCompleteCallback false ∧
      (flow.onWriteComplete which).peer which = (flow.peer which).startRead := by
  cases which <;> exact ⟨rfl, rfl⟩

/-- A connection may be replaced by one that throttles the same peer and is read as before. -/
theorem throttling_setConn (throttling : flow.Throttling) {conn : TcpConnection}
    (throttled : Throttled conn (flow.peer which).reading)
    (reading : conn.reading = (flow.conn which).reading) :
    (flow.setConn which conn).Throttling := by
  obtain ⟨own, peer⟩ := flow.setConn_own which conn
  -- The peer is not touched.
  apply throttling_of_end which throttling
  · rw [own, peer]
    exact throttled
  · rw [own, reading]
  · rw [peer]

/-- The bytes that a connection is given have no part in whether it is read. -/
theorem send_reading (conn : TcpConnection) (len written : Nat) :
    (conn.send len written).reading = conn.reading := by
  -- Only the buffer and the queue of callbacks are written.
  unfold TcpConnection.send
  dsimp only
  split_ifs <;> rfl

/-- The bytes that the socket takes have no part in whether the connection is read. -/
theorem drain_reading (conn : TcpConnection) (n : Nat) : (conn.drain n).reading = conn.reading := by
  -- As for sending.
  unfold TcpConnection.drain
  dsimp only
  split <;> rfl

/-- Bytes that a connection is given leave its callback installed or not. -/
theorem send_callback (conn : TcpConnection) (len written : Nat) :
    (conn.send len written).writeCompleteCallback = conn.writeCompleteCallback := by
  -- It is the tunnel's own callbacks that install one or take it away.
  unfold TcpConnection.send
  dsimp only
  split_ifs <;> rfl

/-- Bytes that the socket takes leave the callback installed or not. -/
theorem drain_callback (conn : TcpConnection) (n : Nat) :
    (conn.drain n).writeCompleteCallback = conn.writeCompleteCallback := by
  -- As for sending.
  unfold TcpConnection.drain
  dsimp only
  split <;> rfl

/-- Every callback that the loop runs keeps both ends throttled. -/
theorem throttling_runQueued {next : TunnelFlow} (throttling : flow.Throttling)
    (ran : flow.runQueued which = some next) : next.Throttling := by
  have own := throttling which
  unfold runQueued at ran
  dsimp only at ran
  cases queue : (flow.conn which).queued with
  | nil =>
    rw [queue] at ran
    cases ran
  | cons event later =>
    rw [queue] at ran
    -- The callback is taken from the queue first.
    obtain ⟨popped, peer⟩ := flow.setConn_own which { flow.conn which with queued := later }
    cases event with
    | highWaterMark =>
      cases ran
      rcases Nat.eq_zero_or_pos (flow.conn which).outputBuffer with empty | busy
      · rw [onHighWaterMark_empty (by rw [popped]; exact empty)]
        exact throttling_setConn throttling (own.highWater_late queue empty) rfl
      · have still : 0 < ((flow.setConn which
            { flow.conn which with queued := later }).conn which).outputBuffer := by
          rw [popped]
          exact busy
        obtain ⟨after, stopped⟩ := onHighWaterMark_busy still
        rw [popped] at after
        rw [peer] at stopped
        apply throttling_of_end which throttling
        · rw [after, stopped]
          exact own.highWater queue busy
        · rw [after]
          rfl
        · rw [stopped]
          rfl
    | writeComplete =>
      cases ran
      obtain ⟨after, started⟩ :=
        (flow.setConn which { flow.conn which with queued := later }).onWriteComplete_own which
      rw [popped] at after
      rw [peer] at started
      apply throttling_of_end which throttling
      · rw [after, started]
        exact own.writeComplete queue
      · rw [after]
        rfl
      · rw [started]
        rfl

/-- Every step keeps both ends throttled. -/
theorem throttling_step (flow : TunnelFlow) (label : FlowStep) (next : TunnelFlow)
    (throttling : flow.Throttling) (stepped : flowMachine.step flow label = some next) :
    next.Throttling := by
  -- Sending and draining concern one connection; the callbacks are what couples the two.
  cases label with
  | send which len written =>
    obtain ⟨-, done⟩ := Option.ite_none_right_eq_some.mp stepped
    cases done
    exact throttling_setConn throttling ((throttling which).send len written)
      (send_reading _ len written)
  | drain which n =>
    obtain ⟨-, done⟩ := Option.ite_none_right_eq_some.mp stepped
    cases done
    exact throttling_setConn throttling ((throttling which).drain n) (drain_reading _ n)
  | runQueued which => exact throttling_runQueued throttling stepped

end TunnelFlow

/-- What flow control promises at one end. A stopped peer is waiting for an output that is going to
announce its end, or this has been announced. A full output has stopped its peer for good until it
is drained, or is going to stop it after every write-complete callback that is still queued. -/
structure FlowControlled (conn : TcpConnection) (peerReading : Bool) : Prop where
  resumes : peerReading = false →
    (0 < conn.outputBuffer ∧ conn.writeCompleteCallback = true) ∨ .writeComplete ∈ conn.queued
  stops : highWaterMark ≤ conn.outputBuffer →
    (peerReading = false ∧ conn.writeCompleteCallback = true ∧ .writeComplete ∉ conn.queued) ∨
      HighWaterLast conn.queued

/-- From the moment the tunnel is up, neither end stalls its peer or lets it run past the mark. -/
theorem flow_controlled {serverOutput clientOutput : Nat} (server : serverOutput < highWaterMark)
    (client : clientOutput < highWaterMark) {labels : List FlowStep} {flow : TunnelFlow}
    (ran : flowMachine.run (TunnelFlow.up serverOutput clientOutput) labels = some flow)
    (which : ServerClient) : FlowControlled (flow.conn which) (flow.peer which).reading := by
  have throttled := Machine.run_invariant TunnelFlow.throttling_step
    (TunnelFlow.throttling_up server client) ran which
  refine ⟨fun stopped => ?_, fun full => ?_⟩
  · -- The callback is installed, and waits for the output to become empty.
    rcases Nat.eq_zero_or_pos (flow.conn which).outputBuffer with empty | busy
    · exact .inr (throttled.resumes stopped empty)
    · exact .inl ⟨busy, throttled.installed stopped⟩
  · rcases throttled.stops full with last | ⟨stopped, quiet⟩
    · exact .inr last
    · exact .inl ⟨stopped, throttled.installed stopped, quiet⟩

/-- The client's output is filled, drained and filled again before its first callback runs. -/
theorem flow_controlled_stale :
    FlowControlled
      { outputBuffer := 2097152, reading := true, writeCompleteCallback := true,
        queued := [.highWaterMark] } false :=
  -- A mark is reached, drained again and reached once more before its callback has run.
  @flow_controlled 0 0 (by decide) (by decide)
    [.send .kServer 1048576 0, .drain .kServer 1048576, .send .kServer 2097152 0,
      .runQueued .kServer]
    { serverConn :=
        { outputBuffer := 2097152, reading := true, writeCompleteCallback := true,
          queued := [.highWaterMark] }
      clientConn := { reading := false } } rfl .kServer

end EnhancedProxy
