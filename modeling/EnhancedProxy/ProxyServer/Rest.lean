import EnhancedProxy.ProxyServer.Attendance
import EnhancedProxy.ThreadPool.Drain

/-! A proxy server that nothing new reaches comes to rest, up to calls that wait for a tunnel. -/

namespace EnhancedProxy

open CircleQueue

namespace Task

/-- The task has parsed a request that is still at the front of its copy. -/
def Holding (task : Task) : Prop :=
  task.pc.parsed ∨ task.pc.owing ∨ ((task.pc = .loopHead ∨ task.pc = .queued) ∧ task.isCheck)

/-- The request that the task holds is not empty, and inside its copy. -/
def Fits (task : Task) : Prop :=
  task.Holding → 0 < task.info.2 ∧ task.info.2.toNat ≤ task.buff.length

/-- How many steps are left at most until the next request, in a task that does not wait. -/
def stepsLeft (task : Task) : Nat :=
  match task.pc with
  | .absent | .finished => 0
  | .tail => 1
  | .dropAnswered | .dropForwarded => 2
  | .answer _ | .copyBuffer => 3
  | .send => 4
  | .push => 5
  | .castContext => 6
  | .checkContext => 7
  -- With a tunnel of its own, a task has the second of its two rounds before it.
  | .checkTunnel => if task.isCheck then 8 else 13
  | .readCache => if task.isCheck then 9 else 14
  | .loopHead => if task.isCheck then 10 else 15
  | .addTunnel => 11
  | .createTunnel => 12
  | .queued => 16

/-- How many steps a task can take at most that does not wait. -/
def rank (task : Task) : Nat := 16 * task.buff.length + task.stepsLeft

variable {task next : Task}

/-- A task with the same copy and fewer steps left is nearer to its end. -/
theorem rank_lt (same : next.buff = task.buff) (fewer : next.stepsLeft < task.stepsLeft) :
    next.rank < task.rank := by
  -- The bytes count the same.
  rw [rank, rank, same]
  omega

/-- A task that drops its request is nearer to its end. -/
theorem rank_drop (fits : task.Fits) (owing : task.pc.owing) (steps : task.stepsLeft = 2) :
    task.drop.rank < task.rank := by
  -- The task has fifteen steps to go again, but has lost bytes, which count sixteen each.
  obtain ⟨some_, within⟩ := fits (.inr (.inl owing))
  have dropped : task.drop.stepsLeft = 15 := rfl
  have shorter : task.drop.buff.length = task.buff.length - task.info.2.toNat := List.length_drop
  rw [rank, rank, steps, dropped, shorter]
  omega

/-- A request that is kept still fits. -/
theorem Fits.keep (fits : task.Fits) (buff : next.buff = task.buff) (info : next.info = task.info)
    (held : next.Holding → task.Holding) : next.Fits := by
  -- The copy and the length of the request are the ones before.
  intro holding
  rw [buff, info]
  exact fits (held holding)

/-- A request that is parsed from a short copy fits. -/
theorem Fits.loopHead (fits : task.Fits) (here : task.pc = .loopHead)
    (short : task.buff.length < 2 ^ 31) (connected : Bool) : (Task.loopHead task connected).Fits := by
  cases waiting : task.isCheck with
  | true =>
    -- The request of the last round is kept.
    intro _
    simp only [Task.loopHead, waiting, if_true]
    exact fits (.inr (.inr ⟨.inl here, waiting⟩))
  | false =>
    unfold Task.loopHead Fits
    simp only [waiting, Bool.false_eq_true, if_false]
    split
    · rename_i up
      intro holding
      cases accepted : (parseLocals task.context task.buff).2.ok with
      | false =>
        have refused : (parseRequest task.context task.buff).2.1 = false := accepted
        simp [Holding, refused, TaskPc.parsed, TaskPc.owing] at holding
      | true =>
        have within := parseLocals_within accepted
        have length : (parseRequest task.context task.buff).2.2 =
            ((parseLocals task.context task.buff).2.it +
              (parseLocals task.context task.buff).2.bodySize : Nat) :=
          toInt32_of_lt (by omega)
        dsimp only
        rw [length]
        omega
    · intro holding
      simp [Holding, TaskPc.parsed, TaskPc.owing] at holding

end Task

namespace Connection

variable {conn next : Connection} {i j : Nat} {memory : RelayMemory} {assertions : Bool}
  {content : Bytes}

/-- The task is nearer to its end than before, or the process has ended and it is no further. -/
def NearsEnd (conn next : Connection) (i : Nat) : Prop :=
  (next.tasks i).rank < (conn.tasks i).rank ∨
    next.fault ≠ none ∧ (next.tasks i).rank ≤ (conn.tasks i).rank

/-- Where a step only moves the task on, the steps left are compared. -/
theorem nearsEnd_set {task : Task} (same : next.tasks = (conn.set i task).tasks)
    (buff : task.buff = (conn.tasks i).buff)
    (fewer : task.stepsLeft < (conn.tasks i).stepsLeft) : conn.NearsEnd next i := by
  -- The copy of the buffer is as long as before.
  left
  rw [same, set_own]
  exact Task.rank_lt buff fewer

/-- Where the process ends, the task is where it was. -/
theorem nearsEnd_fail {fault : Fault} (same : next.tasks = conn.tasks) :
    conn.NearsEnd (next.fail fault) i := by
  -- No task is moved by the end.
  right
  refine ⟨Option.some_ne_none _, ?_⟩
  show (next.tasks i).rank ≤ _
  rw [same]

/-- The loop is left, or entered with the tunnel that there is or is not. -/
theorem loopHead_nearsEnd (here : (conn.tasks i).pc = .loopHead) :
    conn.NearsEnd (conn.set i ((conn.tasks i).loopHead conn.connected)) i := by
  apply nearsEnd_set rfl
  · -- Parsing changes no byte of the copy.
    unfold Task.loopHead
    dsimp only
    split_ifs <;> rfl
  · cases waiting : (conn.tasks i).isCheck with
    | true => simp [Task.stepsLeft, Task.loopHead, here, waiting]
    | false =>
      simp only [Task.loopHead, waiting, Bool.false_eq_true, if_false]
      split_ifs <;> simp [Task.stepsLeft, here, waiting]

/-- A request is answered, or is on the way to its tunnel. -/
theorem readCache_nearsEnd (here : (conn.tasks i).pc = .readCache) :
    conn.NearsEnd (conn.set i ((conn.tasks i).readCache content)) i := by
  apply nearsEnd_set rfl
  · -- The lookup changes no byte of the copy.
    unfold Task.readCache
    split <;> rfl
  · unfold Task.readCache
    split <;> (simp only [Task.stepsLeft, here]; split <;> omega)

/-- An answered request is dropped, and the copy is shorter. -/
theorem dropAnswered_nearsEnd (fits : (conn.tasks i).Fits)
    (here : (conn.tasks i).pc = .dropAnswered) : conn.NearsEnd (conn.dropAnswered i) i := by
  unfold dropAnswered
  dsimp only
  split
  · exact nearsEnd_fail rfl
  · -- The request that is dropped is not empty.
    left
    rw [set_own]
    exact Task.rank_drop fits (by rw [here]; rfl) (by simp [Task.stepsLeft, here])

/-- A forwarded request is dropped, and the copy is shorter, whether the assertion holds or not. -/
theorem dropForwarded_nearsEnd (fits : (conn.tasks i).Fits)
    (here : (conn.tasks i).pc = .dropForwarded) :
    conn.NearsEnd (conn.dropForwarded assertions i) i := by
  -- Whether the assertion holds or not, the call drops the request from its copy.
  have dropped := Task.rank_drop fits (by rw [here]; rfl) (by simp [Task.stepsLeft, here])
  unfold dropForwarded
  dsimp only
  left
  split
  · show (((conn.retrieve _).set i _).tasks i).rank < _
    rw [set_own]
    exact dropped
  · rw [set_own]
    exact dropped

/-- The task is on the way to create a tunnel, or to look for one that has come up. -/
theorem checkTunnel_nearsEnd (here : (conn.tasks i).pc = .checkTunnel) :
    conn.NearsEnd (conn.checkTunnel i) i := by
  unfold checkTunnel
  dsimp only
  split
  · -- Only a task without a tunnel of its own creates one.
    rename_i test
    refine nearsEnd_set rfl rfl ?_
    have waiting : (conn.tasks i).isCheck = false := by simpa using test.1
    simp [Task.stepsLeft, here, waiting]
  · refine nearsEnd_set rfl rfl ?_
    simp only [Task.stepsLeft, here]
    split <;> omega

/-- The task has pushed its url, or has run into a null pointer. -/
theorem push_nearsEnd (here : (conn.tasks i).pc = .push) : conn.NearsEnd (conn.push i) i := by
  -- A push goes on to the next place, or ends the process on a null entry.
  unfold push
  dsimp only
  split
  · exact nearsEnd_set rfl rfl (by simp [Task.stepsLeft, here])
  · exact nearsEnd_fail rfl

/-- The task has forwarded its request, or the process has ended. -/
theorem send_nearsEnd (here : (conn.tasks i).pc = .send) : conn.NearsEnd (conn.send i) i := by
  -- A send goes on to the next place, or ends the process in one of two ways.
  unfold send
  dsimp only
  split
  · exact nearsEnd_fail rfl
  split
  · exact nearsEnd_fail rfl
  · exact nearsEnd_set rfl rfl (by simp [Task.stepsLeft, here])

/-- The call returns, unless it disconnects through a null pointer. -/
theorem tail_nearsEnd (here : (conn.tasks i).pc = .tail) : conn.NearsEnd (conn.tail i) i := by
  -- The tail is the last place, so whatever it does to the tunnel, the call returns.
  have fewer : ({ conn.tasks i with pc := .finished } : Task).stepsLeft <
      (conn.tasks i).stepsLeft := by simp [Task.stepsLeft, here]
  unfold tail
  dsimp only
  split
  · split
    · exact nearsEnd_fail rfl
    · exact nearsEnd_set rfl rfl fewer
  · exact nearsEnd_set rfl rfl fewer

/-- A step of a task that does not wait brings it nearer to its end, or ends the process. -/
theorem work_nearsEnd (fits : (conn.tasks i).Fits) (goesOn : ¬ conn.Waits i)
    (worked : conn.work assertions i content = some next) : conn.NearsEnd next i := by
  -- One case for each place in the code.
  cases here : (conn.tasks i).pc with
  | absent | finished => simp [work, here] at worked
  | queued =>
    simp only [work, here, Option.some.injEq] at worked
    subst worked
    refine nearsEnd_set rfl rfl ?_
    simp only [Task.stepsLeft, here]
    split <;> omega
  | answer | createTunnel | addTunnel | copyBuffer =>
    simp only [work, here, Option.some.injEq] at worked
    subst worked
    exact nearsEnd_set rfl rfl (by simp [Task.stepsLeft, here])
  | loopHead =>
    simp only [work, here, Option.some.injEq] at worked
    exact worked ▸ loopHead_nearsEnd here
  | readCache =>
    simp only [work, here, Option.some.injEq] at worked
    exact worked ▸ readCache_nearsEnd here
  | dropAnswered =>
    simp only [work, here, Option.some.injEq] at worked
    exact worked ▸ dropAnswered_nearsEnd fits here
  | dropForwarded =>
    simp only [work, here, Option.some.injEq] at worked
    exact worked ▸ dropForwarded_nearsEnd fits here
  | checkTunnel =>
    simp only [work, here, Option.some.injEq] at worked
    exact worked ▸ checkTunnel_nearsEnd here
  | checkContext =>
    -- A task that finds the context empty would wait.
    have up : conn.context ≠ none := fun empty => goesOn ⟨here, empty⟩
    simp only [work, here, Option.some.injEq, if_neg up] at worked
    subst worked
    exact nearsEnd_set rfl rfl (by simp [Task.stepsLeft, here])
  | castContext =>
    simp only [work, here] at worked
    split at worked
    · cases worked
      exact nearsEnd_fail rfl
    · cases worked
      exact nearsEnd_set rfl rfl (by simp [Task.stepsLeft, here])
  | push =>
    simp only [work, here, Option.some.injEq] at worked
    exact worked ▸ push_nearsEnd here
  | send =>
    simp only [work, here, Option.some.injEq] at worked
    exact worked ▸ send_nearsEnd here
  | tail =>
    simp only [work, here, Option.some.injEq] at worked
    exact worked ▸ tail_nearsEnd here

/-- A task that goes round its loop for nothing has at most eight more steps before it. -/
theorem work_rank_of_waits (waits : conn.Waits i)
    (worked : conn.work assertions i content = some next) :
    (next.tasks i).rank ≤ (conn.tasks i).rank + 8 := by
  obtain ⟨here, empty⟩ := waits
  simp only [work, here, Option.some.injEq, if_pos empty] at worked
  subst worked
  -- It is at the head of its loop, with the same copy.
  rw [set_own]
  simp only [Task.rank, Task.stepsLeft, here]
  split <;> omega

/-- No copy holds more than has arrived, and where that is less than 2^31 bytes, the requests that the
tasks hold fit. -/
structure Sized (conn : Connection) : Prop where
  buf : conn.buf.length ≤ conn.delivered.length
  buff : ∀ i, (conn.tasks i).buff.length ≤ conn.delivered.length
  fits : conn.delivered.length < 2 ^ 31 → ∀ i, (conn.tasks i).Fits

namespace Sized

/-- What arrives makes the stream longer, and the copies stay. -/
theorem receive (sized : conn.Sized) (chunk : Bytes) : (conn.receive chunk).Sized where
  -- The stream and the buffer grow by the same chunk, and the copies not at all.
  buf := by
    simp only [Connection.receive, List.length_append]
    exact Nat.add_le_add_right sized.buf _
  buff i := by
    simp only [Connection.receive, List.length_append]
    exact (sized.buff i).trans (Nat.le_add_right _ _)
  fits short i := by
    refine sized.fits ?_ i
    simp only [Connection.receive, List.length_append] at short
    omega

/-- A call begins with no request, on a copy that is no longer than what has arrived. -/
theorem call (sized : conn.Sized) {buff : Bytes} (within : buff.length ≤ conn.delivered.length) :
    (conn.call buff).Sized := by
  -- The new call holds no request, and the others are as they were.
  have tasks (j : Nat) : (conn.call buff).tasks j = { pc := .queued, buff := buff } ∨
      (conn.call buff).tasks j = conn.tasks j := by
    by_cases last : j = conn.taskCount
    · subst last
      exact .inl (Function.update_self _ _ _)
    · exact .inr (Function.update_of_ne last _ _)
  refine ⟨sized.buf, fun j => ?_, fun short j => ?_⟩
  · rcases tasks j with same | same
    · rw [same]
      exact within
    · rw [same]
      exact sized.buff j
  · rcases tasks j with same | same
    · rw [same]
      intro holding
      simp [Task.Holding, TaskPc.parsed, TaskPc.owing] at holding
    · rw [same]
      exact sized.fits short j

/-- A step of a task leaves the stream as it is, and makes no copy longer. -/
theorem work (sized : conn.Sized) (worked : conn.work assertions i content = some next) :
    next.Sized ∧ next.delivered = conn.delivered := by
  have shrinks := work_buf worked
  have others (j : Nat) (other : j ≠ i) := work_other other worked
  obtain ⟨moved, event, same⟩ := streamEvent_of_work worked
  have delivered : next.delivered = conn.delivered := by
    rw [same.delivered]
    cases event <;> rfl
  have fitsBefore := sized.fits
  -- Only the task itself has to be looked at.
  have own : (next.tasks i).buff.length ≤ (conn.tasks i).buff.length ∧
      (conn.delivered.length < 2 ^ 31 → (next.tasks i).Fits) := by
    rw [same.tasks]
    cases event with
    | elsewhere => exact ⟨Nat.le_refl _, fun short => fitsBefore short i⟩
    | begin_ _ _ here =>
      rw [set_own]
      refine ⟨Nat.le_refl _, fun short => (fitsBefore short i).keep rfl rfl fun holding => ?_⟩
      simp only [Task.Holding, TaskPc.parsed, TaskPc.owing, Bool.false_eq_true, false_or, true_or,
        true_and] at holding
      exact .inr (.inr ⟨.inr here, holding⟩)
    | enterLoop _ _ here =>
      rw [set_own]
      refine ⟨Nat.le_of_eq ?_, fun short => ?_⟩
      · unfold Task.loopHead
        dsimp only
        split_ifs <;> rfl
      · exact (fitsBefore short i).loopHead here ((sized.buff i).trans_lt short) conn.connected
    | goOn _ _ task parsed buff info place =>
      rw [set_own]
      exact ⟨Nat.le_of_eq (congrArg List.length buff),
        fun short => (fitsBefore short i).keep buff info fun _ => .inl parsed⟩
    | handle _ _ pc entry parsed owing bytes =>
      have here : ({ conn.set i { conn.tasks i with pc := pc } with
          handled := conn.handled ++ [entry] } : Connection).tasks i =
            { conn.tasks i with pc := pc } := set_own
      rw [here]
      exact ⟨Nat.le_refl _, fun short => (fitsBefore short i).keep rfl rfl fun _ => .inl parsed⟩
    | copyBuffer _ _ here =>
      rw [set_own]
      refine ⟨Nat.le_refl _, fun short => (fitsBefore short i).keep rfl rfl fun _ => .inr (.inl ?_)⟩
      rw [here]
      rfl
    | retrieve =>
      rw [set_own]
      refine ⟨by simp [Task.drop], fun _ holding => ?_⟩
      simp [Task.Holding, Task.drop, TaskPc.parsed, TaskPc.owing] at holding
    | overrun => exact ⟨Nat.le_refl _, fun short => fitsBefore short i⟩
    | leave =>
      rw [set_own]
      refine ⟨Nat.le_refl _, fun _ holding => ?_⟩
      simp [Task.Holding, TaskPc.parsed, TaskPc.owing] at holding
  refine ⟨⟨?_, fun j => ?_, fun short j => ?_⟩, delivered⟩
  · rw [delivered]
    exact shrinks.trans sized.buf
  · rw [delivered]
    by_cases mine : j = i
    · subst mine
      exact own.1.trans (sized.buff j)
    · rw [others j mine]
      exact sized.buff j
  · rw [delivered] at short
    by_cases mine : j = i
    · subst mine
      exact own.2 short
    · rw [others j mine]
      exact sized.fits short j

/-- The network has no part in the copies. -/
theorem network (sized : conn.Sized) {event : ConnectionStep} (outside : event.fromNetwork)
    (stepped : (connectionMachine memory assertions).step conn event = some next) :
    next.Sized ∧ next.delivered = conn.delivered := by
  -- No event of the network is one of the stream's, apart from the ones that change nothing in it.
  obtain ⟨moved, happened, same⟩ := streamEvent_of_step stepped
  have still : moved = conn := by
    cases happened with
    | elsewhere => rfl
    | deliver | begin_ | enterLoop | goOn | handle | copyBuffer | retrieve | overrun | leave =>
      cases outside
  subst still
  refine ⟨⟨?_, ?_, ?_⟩, same.delivered⟩
  · rw [same.buf, same.delivered]
    exact sized.buf
  · rw [same.tasks, same.delivered]
    exact sized.buff
  · rw [same.tasks, same.delivered]
    exact sized.fits

end Sized

end Connection

/-- No copy of a buffer holds more than has arrived, in the tasks and in the calls that wait for a
thread, and only finitely many producers have a slot to write. -/
structure Measured (server : ProxyServer) : Prop where
  sized : ∀ c, (server.conns c).Sized
  calls : ∀ call, server.threadpool.Awaits call →
    call.buff.length ≤ (server.conns call.conn).delivered.length
  writing : {p | (server.threadpool.producers p).writing ≠ none}.Finite

namespace Measured

variable {server next : ProxyServer} {setting : ServerSetting} {c k p : Nat} {label : ServerStep}
  {conn : Connection} {pool : Pool (Option BoundCall)}

/-- Nothing has arrived. -/
theorem start : Measured {} where
  -- There are no bytes, no calls and no tasks.
  sized _ := ⟨Nat.le_refl _, fun _ => Nat.le_refl _, fun _ _ holding => by
    simp [Task.Holding, TaskPc.parsed, TaskPc.owing] at holding⟩
  calls call waits := by
    obtain ⟨place, holds, -⟩ := waits
    cases place with
    | producer p => cases holds
    | slot id => exact absurd holds List.not_mem_nil
  writing := by simp [Pool.new]

/-- A connection takes the place of another that has had no more bytes. -/
theorem sized_update (measured : Measured server) (sized : conn.Sized) (d : Nat) :
    (Function.update server.conns c conn d).Sized := by
  -- The connection that is put is sized by assumption, the others as before.
  by_cases own : d = c
  · subst own
    rwa [Function.update_self]
  · rw [Function.update_of_ne own]
    exact measured.sized d

/-- The stream of no connection gets shorter. -/
theorem delivered_update (longer : (server.conns c).delivered.length ≤ conn.delivered.length)
    (d : Nat) :
    (server.conns d).delivered.length ≤ (Function.update server.conns c conn d).delivered.length := by
  -- The one connection has a longer stream, and the others the same.
  by_cases own : d = c
  · subst own
    rwa [Function.update_self]
  · rw [Function.update_of_ne own]

/-- A step of one connection, with the same calls waiting. -/
theorem setConn (measured : Measured server) (sized : conn.Sized)
    (longer : (server.conns c).delivered.length ≤ conn.delivered.length)
    (running : Nat → Option (Nat × Nat)) :
    Measured { server.setConn c conn with running := running } where
  -- The calls waiting are the same, and their streams are no shorter.
  sized := measured.sized_update sized
  calls call waits := (measured.calls call waits).trans (delivered_update longer call.conn)
  writing := measured.writing

/-- Writing its slot, a producer leaves the others what they have to write. -/
theorem writing_writeSlot (wrote : server.threadpool.writeSlot p = some pool) :
    {q | (pool.producers q).writing ≠ none} =
      {q | (server.threadpool.producers q).writing ≠ none} \ {p} := by
  -- The producer that wrote has nothing more in its hands; the others keep what they have.
  obtain ⟨obj, -, rfl⟩ := Option.map_eq_some_iff.mp wrote
  ext q
  by_cases own : q = p
  · subst own
    simp
  · simp [own]

/-- Every step keeps the measure of the copies. -/
theorem step (measured : Measured server) (service : InService server)
    (stepped : (serverMachine setting).step server label = some next) : Measured next := by
  cases label with
  | startThreads =>
    cases ProxyServer.act_of_step stepped
    exact ⟨measured.sized, measured.calls, measured.writing⟩
  | message d chunk =>
    have sized := measured.sized_update (c := d) ((measured.sized d).receive chunk)
    have longer : (server.conns d).delivered.length ≤
        ((server.conns d).receive chunk).delivered.length := by
      simp [Connection.receive]
    rcases ProxyServer.message_cases stepped with ⟨-, rfl⟩ | ⟨p, pool, -, called, rfl⟩
    · exact ⟨sized, fun call waits =>
        (measured.calls call waits).trans (delivered_update longer call.conn), measured.writing⟩
    · refine ⟨sized, fun call waits => ?_, ?_⟩
      · rcases Pool.awaits_callWrite called waits with before | rfl
        · exact (measured.calls call before).trans (delivered_update longer call.conn)
        · -- The new call has a copy of the whole buffer.
          show _ ≤ (Function.update server.conns d ((server.conns d).receive chunk) d).delivered.length
          rw [Function.update_self]
          simp only [ProxyServer.bind, Connection.receive, List.length_append]
          exact Nat.add_le_add_right (measured.sized d).buf _
      · refine (measured.writing.insert p).subset fun q busy => ?_
        rcases Pool.callWrite_writing called q with same | ⟨own, -⟩
        · exact .inr (by simpa [same] using busy)
        · exact .inl own
  | writeSlot p =>
    obtain ⟨pool, wrote, rfl⟩ := ProxyServer.writeSlot_cases stepped
    refine ⟨measured.sized,
      fun call waits => measured.calls call (Pool.awaits_writeSlot wrote waits), ?_⟩
    rw [writing_writeSlot wrote]
    exact measured.writing.sdiff
  | callRead k =>
    obtain ⟨pool, called, rfl⟩ := ProxyServer.callRead_cases stepped
    refine ⟨measured.sized,
      fun call waits => measured.calls call (Pool.awaits_callRead called waits), ?_⟩
    rcases Pool.callRead_cases called with ⟨-, space, -, rfl⟩ | ⟨-, rfl⟩
    · exact measured.writing
    · exact measured.writing
  | readSlot k =>
    obtain ⟨pool, read, either⟩ := ProxyServer.readSlot_cases stepped
    obtain ⟨call, found, holds, fresh⟩ := service.readable read
    rcases either with none_ | ⟨begun, same, rfl⟩
    · cases none_.symm.trans found
    · obtain rfl := Option.some.inj (same.symm.trans found)
      have within := measured.calls begun ⟨_, holds, fun id slot => by cases slot; exact fresh⟩
      have sized := (measured.sized begun.conn).call within
      have longer : (server.conns begun.conn).delivered.length ≤
          ((server.conns begun.conn).call begun.buff).delivered.length := Nat.le_refl _
      refine ⟨measured.sized_update sized, fun other waiting => ?_, ?_⟩
      · obtain ⟨place, before, -, unread⟩ := Pool.awaits_readSlot read waiting
        exact (measured.calls other ⟨place, before, unread⟩).trans
          (delivered_update longer other.conn)
      · obtain ⟨-, rfl⟩ := Pool.readSlot_eq_some.mp read
        exact measured.writing
  | work k content =>
    obtain ⟨d, i, conn, -, worked, running, rfl, -⟩ := ProxyServer.work_cases stepped
    obtain ⟨sized, same⟩ := (measured.sized d).work worked
    exact measured.setConn sized (Nat.le_of_eq (congrArg List.length same.symm)) running
  | network d event =>
    obtain ⟨outside, conn, moved, rfl⟩ := ProxyServer.network_cases stepped
    obtain ⟨sized, same⟩ := (measured.sized d).network outside moved
    exact measured.setConn sized (Nat.le_of_eq (congrArg List.length same.symm)) server.running

end Measured

/-- What a call can cost a thread at most: the steps of the call on a copy of less than 2^31 bytes,
and those with which the thread reads it. -/
def callCost : Nat := 16 * 2 ^ 31 + 2

namespace ProxyServer

/-- What a thread has still to do: the calls of its segment, a test unless it has made it already,
and the call that it is in. -/
def threadRank (server : ProxyServer) (k : Nat) : Nat :=
  callCost * ((server.threadpool.consumers k).readableId - (server.threadpool.consumers k).readId) +
    (if (server.threadpool.consumers k).reading then 0 else 1) +
      match server.running k with
      | none => 0
      | some x => (server.taskOf x).rank

/-- How many steps the I/O loops and the threads can take at most, without going round for nothing,
before they are at rest. -/
noncomputable def rank (server : ProxyServer) : Nat :=
  trySize * callCost * server.threadpool.queue.readableQueue.card +
    ∑ k ∈ Finset.range server.threads, server.threadRank k +
      {p | (server.threadpool.producers p).writing ≠ none}.ncard +
        if server.fault = none then 1 else 0

variable {server next : ProxyServer} {setting : ServerSetting} {k p : Nat} {content : Bytes}
  {pool : Pool (Option BoundCall)}

/-- A producer that has written its slot has nothing more to finish. -/
theorem rank_writeSlot (measured : Measured server)
    (wrote : server.threadpool.writeSlot p = some pool) :
    rank { server with threadpool := pool } < server.rank := by
  -- One producer fewer is writing, and neither the segments nor the threads have changed.
  have cleared := Measured.writing_writeSlot wrote
  obtain ⟨obj, writing, rfl⟩ := Option.map_eq_some_iff.mp wrote
  have busy : p ∈ {q | (server.threadpool.producers q).writing ≠ none} := by simp [writing]
  have fewer := Set.ncard_sdiff_singleton_lt_of_mem busy measured.writing
  have queue : (server.threadpool.queue.write (server.threadpool.producers p).curWriteId obj
      ).readableQueue = server.threadpool.queue.readableQueue := rfl
  simp only [rank, threadRank, taskOf, cleared, queue]
  omega

/-- A step of one thread changes the rank by what it changes for the thread, for the readable segments
and for the end of the process. -/
theorem rank_lt_add_of_thread (extra : Nat) (below : k < server.threads)
    (threads : next.threads = server.threads)
    (others : ∀ l, l ≠ k → next.threadRank l = server.threadRank l)
    (producers : next.threadpool.producers = server.threadpool.producers)
    (lower : trySize * callCost * next.threadpool.queue.readableQueue.card + next.threadRank k +
        (if next.fault = none then 1 else 0) <
      trySize * callCost * server.threadpool.queue.readableQueue.card + server.threadRank k +
        (if server.fault = none then 1 else 0) + extra) : next.rank < server.rank + extra := by
  -- In the sum over the threads, only the one term has changed.
  have replaced := sum_replace (Finset.mem_range.mpr below) others
  simp only [rank, threads, producers]
  omega

/-- A step of one thread lowers the rank if there is less to do for it, in the readable segments and
until the process ends. -/
theorem rank_lt_of_thread (below : k < server.threads) (threads : next.threads = server.threads)
    (others : ∀ l, l ≠ k → next.threadRank l = server.threadRank l)
    (producers : next.threadpool.producers = server.threadpool.producers)
    (lower : trySize * callCost * next.threadpool.queue.readableQueue.card + next.threadRank k +
        (if next.fault = none then 1 else 0) <
      trySize * callCost * server.threadpool.queue.readableQueue.card + server.threadRank k +
        if server.fault = none then 1 else 0) : next.rank < server.rank :=
  rank_lt_add_of_thread 0 below threads others producers lower

/-- A thread that takes a segment, or goes on in its own, is a step nearer to its end. -/
theorem rank_callRead (service : InService server) (below : k < server.threads)
    (called : server.threadpool.callRead k = some pool) :
    rank { server with threadpool := pool } < server.rank := by
  have idle : (server.threadpool.consumers k).reading = false := by
    by_contra reading
    simp [Pool.callRead, reading] at called
  rcases Pool.callRead_cases called with ⟨usedUp, space, first, rfl⟩ | ⟨-, rfl⟩
  · -- The segment is readable no more, and its ids are the thread's to read.
    have readable := firstReadable_mem first
    have width : space.second = space.first + trySize :=
      (service.ledger.custody.published space (service.ledger.custody.readable space readable)).width
    have fewer := Finset.card_erase_add_one readable
    refine rank_lt_of_thread below rfl (fun l other => by simp [threadRank, taskOf, other]) rfl ?_
    simp only [threadRank, taskOf, Function.update_self, width, idle, Nat.sub_eq_zero_of_le usedUp,
      Nat.add_sub_cancel_left, ← fewer, if_true, Bool.false_eq_true, if_false]
    rw [Nat.mul_add, Nat.mul_comm callCost trySize]
    omega
  · refine rank_lt_of_thread below rfl (fun l other => by simp [threadRank, taskOf, other]) rfl ?_
    simp only [threadRank, taskOf, Function.update_self, idle, if_true, Bool.false_eq_true, if_false]
    omega

/-- A thread that begins a call has one call less before it, and is in a call that costs no more. -/
theorem rank_readSlot (service : InService server) (attended : Attended server)
    (below : k < server.threads) (read : server.threadpool.readSlot k = some pool)
    {call : BoundCall} (short : call.buff.length < 2 ^ 31) :
    rank { server.begin_ k call with threadpool := pool } < server.rank := by
  obtain ⟨reading, rfl⟩ := Pool.readSlot_eq_some.mp read
  have free := attended.free k reading
  have unread := service.ledger.custody.reading k reading
  refine rank_lt_of_thread below rfl (fun l other => ?_) rfl ?_
  · have running : (server.begin_ k call).running l = server.running l :=
      Function.update_of_ne other _ _
    simp only [threadRank, running, Function.update_of_ne other]
    cases inside : server.running l with
    | none => rfl
    | some x =>
      -- The call of another thread has begun before.
      have before : x ≠ server.number call := by
        rintro rfl
        exact absurd (attended.inside l _ inside).1 (Nat.lt_irrefl _)
      exact congrArg _ (congrArg Task.rank (taskOf_begin_other k before))
  · have own : (server.begin_ k call).running k = some (server.number call) :=
      Function.update_self _ _ _
    have cost : ((server.begin_ k call).taskOf (server.number call)).rank + 2 ≤ callCost := by
      rw [taskOf_begin_own]
      simp only [Task.rank, Task.stepsLeft, callCost]
      omega
    -- One id less is before the thread.
    have ids : (server.threadpool.consumers k).readableId - (server.threadpool.consumers k).readId =
        (server.threadpool.consumers k).readableId -
          ((server.threadpool.consumers k).readId + 1) + 1 := by omega
    simp only [threadRank, own, free, reading, Function.update_self, ids, Nat.mul_add, if_true,
      Bool.false_eq_true, if_false]
    show _ + (_ + ((server.begin_ k call).taskOf (server.number call)).rank) + _ < _
    have fault : (server.begin_ k call).fault = server.fault := rfl
    rw [fault]
    omega

/-- A step of a call changes the rank of the server by what it changes for the call, if it does not
end the process. -/
theorem rank_lt_add_of_work (extra : Nat) (attended : Attended server)
    (stepped : (serverMachine setting).step server (.work k content) = some next)
    (lower : ∀ x conn, server.running k = some x →
      (server.conns x.1).work setting.assertions x.2 content = some conn →
        (conn.tasks x.2).rank < (server.taskOf x).rank + extra ∨
          conn.fault ≠ none ∧ (conn.tasks x.2).rank ≤ (server.taskOf x).rank + extra) :
    next.rank < server.rank + extra := by
  obtain ⟨x, conn, inside, worked, -, here, others, either⟩ := work_moves stepped
  obtain ⟨threads, pool, fault⟩ : next.threads = server.threads ∧
      next.threadpool = server.threadpool ∧ (conn.fault ≠ none → next.fault ≠ none) := by
    obtain ⟨c, i, moved, insideSame, workedSame, running, rfl, -⟩ := work_cases stepped
    obtain rfl : (c, i) = x := Option.some.inj (insideSame.symm.trans inside)
    obtain rfl : moved = conn := Option.some.inj (workedSame.symm.trans worked)
    exact ⟨rfl, rfl, Option.map_eq_none_iff.not.mpr⟩
  have below : k < server.threads := by
    by_contra beyond
    cases (attended.outside k (Nat.le_of_not_lt beyond)).1.symm.trans inside
  have alive := running_of_step stepped
  refine rank_lt_add_of_thread extra below threads (fun l other => ?_)
    (congrArg Pool.producers pool) ?_
  · have running : next.running l = server.running l := by
      rcases either with ⟨-, running⟩ | ⟨-, running⟩
      · rw [running, Function.update_of_ne other]
      · rw [running]
    simp only [threadRank, running, pool]
    cases insideOther : server.running l with
    | none => rfl
    | some y =>
      -- No other thread is in this call.
      have apart : y ≠ x := by
        rintro rfl
        exact other (attended.alone l k y insideOther inside)
      exact congrArg _ (congrArg Task.rank (others y apart))
  · replace lower := lower x conn inside worked
    rw [← here] at lower
    -- A thread whose call has returned is in no call.
    have inCall : next.threadRank k ≤ server.threadRank k - (server.taskOf x).rank +
        (next.taskOf x).rank := by
      simp only [threadRank, pool, inside]
      rcases either with ⟨-, running⟩ | ⟨-, running⟩
      · rw [running, Function.update_self]
        simp
      · rw [running, inside]
        simp
    have before : (server.taskOf x).rank ≤ server.threadRank k := by
      simp [threadRank, inside]
    rw [pool, if_pos alive]
    rcases lower with lower | ⟨ended, lower⟩
    · split <;> omega
    · rw [if_neg (fault ended)]
      omega

/-- A thread in a call that does not wait for a backend connection is a step nearer to its end, or
ends the process. -/
theorem rank_work (attended : Attended server)
    (fits : ∀ c i, ((server.conns c).tasks i).Fits)
    (goesOn : ¬ server.Spins (.work k content))
    (stepped : (serverMachine setting).step server (.work k content) = some next) :
    next.rank < server.rank := by
  -- The call itself is nearer to its end.
  have lower := rank_lt_add_of_work 0 attended stepped fun x conn inside worked =>
    Connection.work_nearsEnd (fits x.1 x.2) (fun waits => goesOn ⟨x, inside, waits⟩) worked
  exact lower

/-- A thread whose call goes round its loop for nothing has at most eight more steps before it. -/
theorem rank_work_of_spins (attended : Attended server)
    (spins : server.Spins (.work k content))
    (stepped : (serverMachine setting).step server (.work k content) = some next) :
    next.rank ≤ server.rank + 8 := by
  obtain ⟨y, insideOther, waits⟩ := spins
  -- The call is the one that waits.
  have higher := rank_lt_add_of_work 9 attended stepped fun x conn inside worked => by
    obtain rfl : y = x := Option.some.inj (insideOther.symm.trans inside)
    exact .inl (Nat.lt_succ_of_le (Connection.work_rank_of_waits waits worked))
  omega

end ProxyServer

/-- A server in service whose calls are with their threads, and whose streams fit into an `int`. -/
structure Bounded (server : ProxyServer) : Prop where
  service : InService server
  attended : Attended server
  measured : Measured server
  short : ∀ c, (server.conns c).delivered.length < 2 ^ 31

namespace Bounded

open ProxyServer

variable {server next : ProxyServer} {setting : ServerSetting} {label : ServerStep}

/-- The I/O loops and the threads leave every segment in one hand. -/
theorem careful_of_inner (inner : label.inner) : server.Careful setting label := by
  -- No inner step announces a segment or is granted one.
  intro poolLabel contains
  cases label with
  | startThreads | message c chunk | network c event => cases inner
  | writeSlot p | callRead k | readSlot k =>
    cases contains
    exact ⟨trivial, trivial⟩
  | work k content => cases contains

/-- A step of an I/O loop or a thread adds nothing to the streams. -/
theorem delivered_of_inner (bounded : Bounded server) (inner : label.inner)
    (stepped : (serverMachine setting).step server label = some next) (c : Nat) :
    (next.conns c).delivered = (server.conns c).delivered := by
  -- Only a message brings bytes, and a message is no inner step.
  cases label with
  | startThreads | message c chunk | network c event => cases inner
  | writeSlot p =>
    obtain ⟨pool, -, rfl⟩ := writeSlot_cases stepped
    rfl
  | callRead k =>
    obtain ⟨pool, -, rfl⟩ := callRead_cases stepped
    rfl
  | readSlot k =>
    obtain ⟨pool, read, either⟩ := readSlot_cases stepped
    obtain ⟨call, found, -⟩ := bounded.service.readable read
    rcases either with none_ | ⟨begun, -, rfl⟩
    · cases none_.symm.trans found
    · by_cases own : c = begun.conn
      · subst own
        simp [begin_, Connection.call]
      · simp [begin_, own]
  | work k content =>
    obtain ⟨d, i, conn, -, worked, running, rfl, -⟩ := work_cases stepped
    obtain ⟨-, same⟩ := (bounded.measured.sized d).work worked
    by_cases own : c = d
    · subst own
      simp [setConn, same]
    · simp [setConn, own]

/-- The I/O loops and the threads keep everything in bounds. -/
theorem step (bounded : Bounded server) (inner : label.inner)
    (stepped : (serverMachine setting).step server label = some next) : Bounded next where
  service := bounded.service.step (careful_of_inner inner) stepped
  attended := bounded.attended.step bounded.service stepped
  measured := bounded.measured.step bounded.service stepped
  short c := by
    -- Nothing arrives.
    rw [bounded.delivered_of_inner inner stepped c]
    exact bounded.short c

/-- A step that does not only go round brings the server nearer to its rest. -/
theorem lowers (bounded : Bounded server) (inner : label.inner) (goesOn : ¬ server.Spins label)
    (stepped : (serverMachine setting).step server label = some next) :
    next.rank < server.rank := by
  -- One case for each step that an I/O loop or a thread takes by itself.
  cases label with
  | startThreads | message c chunk | network c event => cases inner
  | writeSlot p =>
    obtain ⟨pool, wrote, rfl⟩ := writeSlot_cases stepped
    exact rank_writeSlot bounded.measured wrote
  | callRead k =>
    obtain ⟨ready, -⟩ := Option.ite_none_right_eq_some.mp (act_of_step stepped)
    obtain ⟨pool, called, rfl⟩ := callRead_cases stepped
    exact rank_callRead bounded.service ready.1 called
  | readSlot k =>
    obtain ⟨pool, read, either⟩ := readSlot_cases stepped
    obtain ⟨call, found, holds, fresh⟩ := bounded.service.readable read
    rcases either with none_ | ⟨begun, same, rfl⟩
    · cases none_.symm.trans found
    · obtain rfl := Option.some.inj (same.symm.trans found)
      have unread := bounded.service.ledger.custody.reading k (Pool.readSlot_eq_some.mp read).1
      have below : k < server.threads := by
        by_contra beyond
        exact absurd unread
          (Nat.not_lt_of_le (bounded.attended.outside k (Nat.le_of_not_lt beyond)).2)
      have within := bounded.measured.calls begun
        ⟨_, holds, fun id slot => by cases slot; exact fresh⟩
      exact rank_readSlot bounded.service bounded.attended below read
        (within.trans_lt (bounded.short begun.conn))
  | work k content =>
    exact rank_work bounded.attended
      (fun c i => (bounded.measured.sized c).fits (bounded.short c) i) goesOn stepped

/-- A step that goes round for nothing takes the server at most eight steps back. -/
theorem raises (bounded : Bounded server) (spins : server.Spins label)
    (stepped : (serverMachine setting).step server label = some next) :
    next.rank ≤ server.rank + 8 := by
  -- Only a call can go round.
  cases label with
  | startThreads | message c chunk | network c event | writeSlot p | callRead k | readSlot k =>
    cases spins
  | work k content => exact rank_work_of_spins bounded.attended spins stepped

end Bounded

/-- After every run that leaves no segment in two hands, while no stream is as long as 2^31 bytes, the
I/O loops and the threads can only take a bounded number of steps other than those that go round for
nothing and eight more for each of these, and they can get to a state of rest. -/
theorem comes_to_rest (setting : ServerSetting) {labels : List ServerStep} {server : ProxyServer}
    (met : (serverMachine setting).Meets (fun server label => server.Careful setting label) {}
      labels)
    (ran : (serverMachine setting).run {} labels = some server)
    (short : ∀ c, (server.conns c).delivered.length < 2 ^ 31) :
    (∃ bound, ∀ more last, (∀ label ∈ more, label.inner) →
      (serverMachine setting).run server more = some last →
        more.length ≤ bound + 9 * (serverMachine setting).tally ProxyServer.Spins server more) ∧
      ∃ more last, (serverMachine setting).Meets
        (fun server label => label.inner ∧ ¬ server.Spins label) server more ∧
          (serverMachine setting).run server more = some last ∧ last.AtRest setting := by
  -- Every run keeps what the rank rests on.
  have kept : InService server ∧ Attended server ∧ Measured server :=
    Machine.run_invariant_of_meets
      (fun server label next (kept : InService server ∧ Attended server ∧ Measured server) careful
          stepped => ⟨kept.1.step careful stepped, kept.2.1.step kept.1 stepped,
            kept.2.2.step kept.1 stepped⟩)
      ⟨InService.start, Attended.start, Measured.start⟩ met ran
  have bounded : Bounded server := ⟨kept.1, kept.2.1, kept.2.2, short⟩
  have lowers (server : ProxyServer) (label : ServerStep) (next : ProxyServer)
      (bounded : Bounded server) (inner : label.inner) (goesOn : ¬ server.Spins label)
      (stepped : (serverMachine setting).step server label = some next) :
      Bounded next ∧ next.rank < server.rank :=
    ⟨bounded.step inner stepped, bounded.lowers inner goesOn stepped⟩
  have raises (server : ProxyServer) (label : ServerStep) (next : ProxyServer)
      (bounded : Bounded server) (inner : label.inner) (spins : server.Spins label)
      (stepped : (serverMachine setting).step server label = some next) :
      Bounded next ∧ next.rank ≤ server.rank + 8 :=
    ⟨bounded.step inner stepped, bounded.raises spins stepped⟩
  constructor
  · refine ⟨server.rank, fun more last all ranMore => ?_⟩
    have metMore : (serverMachine setting).Meets (fun _ label => label.inner) server more :=
      Machine.meets_of_forall fun label member _ => all label member
    have longest :=
      Machine.length_le_rank_add_tally ProxyServer.rank lowers raises bounded metMore ranMore
    omega
  · obtain ⟨more, last, metMore, ranMore, stuck⟩ :=
      Machine.exists_rest_of_meets ProxyServer.rank
        (fun server label next bounded (goesOn : label.inner ∧ ¬ server.Spins label) stepped =>
          lowers server label next bounded goesOn.1 goesOn.2 stepped) bounded
    refine ⟨more, last, metMore, ranMore, fun label next inner stepped => ?_⟩
    -- Whatever could still go on would be a step of the kind that is stuck.
    by_contra goesOn
    cases (stuck label ⟨inner, goesOn⟩).symm.trans stepped

/-- Four threads, and a first message whose call is still with its producer. -/
def onFirst : ProxyServer :=
  ((serverMachine oneLoop).run {} [.startThreads, .message 0 [71]]).get rfl

/-- After the first message the server is not at rest, and comes to rest. -/
theorem comes_to_rest_first : ¬ onFirst.AtRest oneLoop ∧
    (∃ bound, ∀ more last, (∀ label ∈ more, label.inner) →
      (serverMachine oneLoop).run onFirst more = some last →
        more.length ≤ bound + 9 * (serverMachine oneLoop).tally ProxyServer.Spins onFirst more) ∧
    ∃ more last, (serverMachine oneLoop).run onFirst more = some last ∧ last.AtRest oneLoop := by
  have met : (serverMachine oneLoop).Meets (fun server label => server.Careful oneLoop label) {}
      [.startThreads, .message 0 [71]] := by
    refine ⟨fun poolLabel contains => (by cases contains), fun next stepped => ?_⟩
    cases stepped
    refine ⟨fun poolLabel contains => ?_, fun next stepped => trivial⟩
    -- Nobody else has a segment, and nothing is taken.
    cases contains
    refine ⟨fun _ _ => ⟨fun q _ filling => absurd rfl filling.1, fun k unread => ?_⟩, fun _ => ?_⟩
    · exact absurd unread (Nat.lt_irrefl 0)
    · exact List.not_mem_nil
  have short (c : Nat) : (onFirst.conns c).delivered.length < 2 ^ 31 := by
    by_cases own : c = 0
    · subst own
      decide
    · have untouched : onFirst.conns c = {} := Function.update_of_ne own _ _
      rw [untouched]
      decide
  obtain ⟨bound, more, last, -, ran, rest⟩ :=
    comes_to_rest oneLoop met (Option.some_get rfl).symm short
  refine ⟨fun atRest => ?_, bound, more, last, ran, rest⟩
  -- The producer has its slot to write.
  obtain ⟨next, moves⟩ : ∃ next,
      (serverMachine oneLoop).step onFirst (.writeSlot 0) = some next := ⟨_, rfl⟩
  exact atRest (.writeSlot 0) next rfl moves

end EnhancedProxy
