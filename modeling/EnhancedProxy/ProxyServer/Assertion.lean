import EnhancedProxy.ProxyServer.RequestOrder
import Mathlib.Data.List.Infix

/-! The assertion behind a forwarded request, in tasks that run one at a time. -/

namespace EnhancedProxy

/-- The places of a task that has started and has not come to its end. -/
def TaskPc.underway : TaskPc → Bool
  | .absent | .queued | .finished => false
  | _ => true

/-- A task takes a step only while no other one is underway, and starts while its snapshot is the
live buffer. -/
def Connection.OneAtATime (conn : Connection) : ConnectionStep → Prop
  | .work i _ =>
    (∀ j, j ≠ i → (conn.tasks j).pc.underway = false) ∧
      ((conn.tasks i).pc = .queued → (conn.tasks i).buff = conn.buf)
  | _ => True

/-- The live buffer is a single request below 2^31 bytes whenever it is copied to `http_`. -/
def Connection.CopiesOneRequest (conn : Connection) : ConnectionStep → Prop
  | .work i _ =>
    (conn.tasks i).pc = .copyBuffer →
      (∃ m, requestFraming.next conn.buf = some (m, conn.buf.length)) ∧ conn.buf.length < 2 ^ 31
  | _ => True

/-- The assertion has not failed. -/
def Connection.Unaborted (conn : Connection) : Prop := conn.fault ≠ some .assertion

/-- What a task that runs alone knows about its snapshot and the live buffer. -/
structure Task.Tracks (task : Task) (buf : Bytes) : Prop where
  current : task.pc.underway → task.buff <+: buf
  parsed : task.pc.parsed ∨ task.pc.owing ∨ (task.pc = .loopHead ∧ task.isCheck) →
    ∃ m n, requestFraming.next task.buff = some (m, n) ∧ task.info = (true, toInt32 n)
  unchecked : task.pc = .queued → task.isCheck = false
  sendable : task.pc = .copyBuffer ∨ task.pc = .dropForwarded → 0 ≤ task.info.2

/-- While the process runs, every task tracks the live buffer. -/
structure Tracking (conn : Connection) : Prop where
  tracks : conn.fault = none → ∀ i, (conn.tasks i).Tracks conn.buf
  fresh : ∀ i, conn.taskCount ≤ i → (conn.tasks i).pc = .absent

/-- A task that has parsed a request is underway. -/
theorem TaskPc.underway_of_parsed {pc : TaskPc} (parsed : pc.parsed) : pc.underway := by
  cases pc <;> first | rfl | cases parsed

/-- A task that owes a request is underway. -/
theorem TaskPc.underway_of_owing {pc : TaskPc} (owing : pc.owing) : pc.underway := by
  cases pc <;> first | rfl | cases owing

namespace Task.Tracks

variable {task moved : Task} {buf : Bytes}

/-- A task that is not underway has only to be unchecked when it starts. -/
theorem idle (idle : task.pc.underway = false)
    (unchecked : task.pc = .queued → task.isCheck = false) :
    task.Tracks buf := by
  -- Every part but the unchecked one speaks of a call that is under way.
  refine ⟨fun busy => ?_, fun place => ?_, unchecked, fun place => ?_⟩
  · rw [idle] at busy
    cases busy
  · rcases place with parsed | owing | ⟨here, -⟩
    · rw [TaskPc.underway_of_parsed parsed] at idle
      cases idle
    · rw [TaskPc.underway_of_owing owing] at idle
      cases idle
    · rw [here] at idle
      cases idle
  · rcases place with here | here <;> rw [here] at idle <;> cases idle

/-- More bytes in the live buffer leave the snapshot a part of it. -/
theorem grow (tracks : task.Tracks buf) (more : Bytes) : task.Tracks (buf ++ more) :=
  { tracks with current := fun busy => (tracks.current busy).trans (List.prefix_append buf more) }

/-- A task goes on with the request it has parsed. -/
theorem goOn (tracks : task.Tracks buf) (parsed : task.pc.parsed) (buff : moved.buff = task.buff)
    (info : moved.info = task.info) (place : moved.pc.parsed ∨ moved.pc = .loopHead) :
    moved.Tracks buf := by
  -- The call keeps its copy and what it has parsed, and stays among the places before handling.
  refine ⟨fun _ => ?_, fun _ => ?_, fun here => ?_, fun here => ?_⟩
  · rw [buff]
    exact tracks.current (TaskPc.underway_of_parsed parsed)
  · rw [buff, info]
    exact tracks.parsed (.inl parsed)
  · rcases place with place | place
    · rw [here] at place
      cases place
    · rw [here] at place
      cases place
  · rcases place with place | place
    · rcases here with here | here <;> rw [here] at place <;> cases place
    · rcases here with here | here <;> rw [here] at place <;> cases place

/-- A task that has handled its request still has it in both buffers. -/
theorem handle (tracks : task.Tracks buf) (parsed : task.pc.parsed ∨ task.pc.owing)
    (buff : moved.buff = task.buff) (info : moved.info = task.info) (owing : moved.pc.owing)
    (sendable : moved.pc = .copyBuffer ∨ moved.pc = .dropForwarded → 0 ≤ task.info.2) :
    moved.Tracks buf := by
  -- The call keeps its copy and what it has parsed, and goes where the request is owed.
  refine ⟨fun _ => ?_, fun _ => ?_, fun here => ?_, fun here => ?_⟩
  · rw [buff]
    exact tracks.current (parsed.elim TaskPc.underway_of_parsed TaskPc.underway_of_owing)
  · rw [buff, info]
    exact tracks.parsed (parsed.imp id .inl)
  · rw [here] at owing
    cases owing
  · rw [info]
    exact sendable here

/-- The request is taken off both buffers, and the task is at the loop's condition again. -/
theorem drop (tracks : task.Tracks buf) (owing : task.pc.owing) (length : 0 ≤ task.info.2) :
    task.drop.Tracks (buf.drop (toUnsigned64 task.info.2)) := by
  have current := tracks.current (TaskPc.underway_of_owing owing)
  obtain ⟨m, n, -, info⟩ := tracks.parsed (.inr (.inl owing))
  -- The length is the same number as an `int` and as a `size_t`.
  have same : toUnsigned64 task.info.2 = task.info.2.toNat := by
    rw [info] at length ⊢
    simp only [toInt32] at length ⊢
    unfold toUnsigned64
    omega
  refine ⟨fun _ => ?_, fun place => ?_, fun here => ?_, fun here => ?_⟩
  · rw [same]
    exact current.drop _
  · simp [Task.drop, TaskPc.parsed, TaskPc.owing] at place
  · simp [Task.drop] at here
  · simp [Task.drop] at here

/-- The condition of the loop finds the request that the snapshot starts with, if there is one. -/
theorem loopHead (tracks : task.Tracks buf) (here : task.pc = .loopHead) (connected : Bool) :
    (task.loopHead connected).Tracks buf := by
  have current := tracks.current (by rw [here]; rfl)
  unfold Task.loopHead
  by_cases waiting : task.isCheck
  · -- The request was parsed before the tunnel was created.
    rw [if_pos waiting]
    exact ⟨fun _ => current, fun _ => tracks.parsed (.inr (.inr ⟨here, waiting⟩)), by simp, by simp⟩
  · rw [if_neg waiting]
    cases connected with
    | false => exact ⟨fun _ => current, by simp [TaskPc.parsed, TaskPc.owing], by simp, by simp⟩
    | true =>
      cases found : requestFraming.next task.buff with
      | none =>
        have refused := parseRequest_of_none found task.context
        refine ⟨fun _ => current, ?_, ?_, ?_⟩ <;> simp [refused, TaskPc.parsed, TaskPc.owing]
      | some request =>
        obtain ⟨m, n⟩ := request
        have accepted := parseRequest_of_next found task.context
        refine ⟨fun _ => current, fun _ => ⟨m, n, found, accepted⟩, ?_, ?_⟩ <;> simp [accepted]

end Task.Tracks

namespace Tracking

variable {conn next : Connection} {i : Nat} {memory : RelayMemory} {assertions : Bool}
  {content : Bytes}

/-- A connection before its first byte. -/
theorem start : Tracking {} where
  -- No call is under way.
  tracks _ _ := .idle rfl fun queued => by cases queued
  fresh _ _ := rfl

/-- A task that starts has the live buffer for its snapshot, and has parsed no request before. -/
theorem queued_own (tracks : (conn.tasks i).Tracks conn.buf) (here : (conn.tasks i).pc = .queued)
    (current : (conn.tasks i).buff = conn.buf) :
    ({ conn.tasks i with pc := .loopHead } : Task).Tracks conn.buf := by
  -- At the head of the loop only an unchecked call has nothing parsed.
  refine ⟨fun _ => current ▸ List.prefix_refl _, fun place => ?_, by simp, by simp⟩
  simp [TaskPc.parsed, TaskPc.owing, tracks.unchecked here] at place

/-- Whether the response is in the cache or not, the request is still the first of the snapshot. -/
theorem readCache_own {buf : Bytes} {task : Task} (tracks : task.Tracks buf)
    (here : task.pc = .readCache) (content : Bytes) : (task.readCache content).Tracks buf := by
  -- Hit or miss, the next place is one before the request is handled.
  unfold Task.readCache
  split
  · exact tracks.goOn (by rw [here]; rfl) rfl rfl (.inl rfl)
  · exact tracks.goOn (by rw [here]; rfl) rfl rfl (.inl rfl)

/-- An answered request is taken off both buffers, if the range that is erased is one. -/
theorem dropAnswered_own (tracks : (conn.tasks i).Tracks conn.buf)
    (here : (conn.tasks i).pc = .dropAnswered) (running : (conn.dropAnswered i).fault = none) :
    ((conn.dropAnswered i).tasks i).Tracks (conn.dropAnswered i).buf := by
  -- A negative length would have failed the vector, so the drop is one of a whole request.
  unfold Connection.dropAnswered at running ⊢
  dsimp only at running ⊢
  split at running
  · cases running
  · rename_i notNegative
    rw [if_neg notNegative]
    show (((conn.retrieve _).set i _).tasks i).Tracks _
    rw [Connection.set_own]
    exact tracks.drop (by rw [here]; rfl) (Int.not_lt.mp notNegative)

/-- The test before the branch that creates a tunnel keeps the request. -/
theorem checkTunnel_own (tracks : (conn.tasks i).Tracks conn.buf)
    (here : (conn.tasks i).pc = .checkTunnel) :
    ((conn.checkTunnel i).tasks i).Tracks (conn.checkTunnel i).buf := by
  -- Whatever it finds, the call goes on with the request it has parsed.
  unfold Connection.checkTunnel
  dsimp only
  split
  · rw [Connection.set_own]
    exact tracks.goOn (by rw [here]; rfl) rfl rfl (.inl rfl)
  · rw [Connection.set_own]
    exact tracks.goOn (by rw [here]; rfl) rfl rfl (.inl rfl)

/-- Creating a tunnel keeps the request. -/
theorem createTunnel_own (tracks : (conn.tasks i).Tracks conn.buf)
    (here : (conn.tasks i).pc = .createTunnel) :
    ((conn.createTunnel i).tasks i).Tracks conn.buf := by
  -- The tunnel is made beside the task, which only moves on.
  show ((conn.set i _).tasks i).Tracks conn.buf
  rw [Connection.set_own]
  exact tracks.goOn (by rw [here]; rfl) rfl rfl (.inl rfl)

/-- The task goes back to the loop's condition with its request. -/
theorem addTunnel_own (tracks : (conn.tasks i).Tracks conn.buf)
    (here : (conn.tasks i).pc = .addTunnel) : ((conn.addTunnel i).tasks i).Tracks conn.buf := by
  -- The request in hand is parsed again from the same copy.
  show ((conn.set i _).tasks i).Tracks conn.buf
  rw [Connection.set_own]
  exact tracks.goOn (by rw [here]; rfl) rfl rfl (.inr rfl)

/-- Pushing the url keeps the request, if there is a tunnel to push to. -/
theorem push_own (tracks : (conn.tasks i).Tracks conn.buf) (here : (conn.tasks i).pc = .push)
    (running : (conn.push i).fault = none) :
    ((conn.push i).tasks i).Tracks (conn.push i).buf := by
  -- A null entry would have ended the process, so the call goes on after the push.
  unfold Connection.push at running ⊢
  dsimp only at running ⊢
  split
  · show ((conn.set i _).tasks i).Tracks conn.buf
    rw [Connection.set_own]
    exact tracks.goOn (by rw [here]; rfl) rfl rfl (.inl rfl)
  · split at running
    · rename_i found _ _ entry
      exact absurd entry (found _)
    · cases running

/-- A request that is sent has a length that is not negative. -/
theorem send_own (tracks : (conn.tasks i).Tracks conn.buf) (here : (conn.tasks i).pc = .send)
    (running : (conn.send i).fault = none) :
    ((conn.send i).tasks i).Tracks (conn.send i).buf := by
  -- The two ways to fail are excluded, so the length is not negative from here on.
  unfold Connection.send at running ⊢
  dsimp only at running ⊢
  split at running
  · cases running
  split at running
  · cases running
  · rename_i linked notNegative
    rw [if_neg linked, if_neg notNegative]
    show ((conn.set i _).tasks i).Tracks conn.buf
    rw [Connection.set_own]
    exact tracks.handle (.inl (by rw [here]; rfl)) rfl rfl rfl fun _ => Int.not_lt.mp notNegative

/-- A forwarded request is taken off both buffers, if the assertion holds. -/
theorem dropForwarded_own (tracks : (conn.tasks i).Tracks conn.buf)
    (here : (conn.tasks i).pc = .dropForwarded)
    (running : (conn.dropForwarded assertions i).fault = none) :
    ((conn.dropForwarded assertions i).tasks i).Tracks (conn.dropForwarded assertions i).buf := by
  -- The assertion has held, and the length was checked when the request was sent.
  unfold Connection.dropForwarded at running ⊢
  dsimp only at running ⊢
  split at running
  · cases running
  · rename_i held
    rw [if_neg held]
    show (((conn.retrieve _).set i _).tasks i).Tracks _
    rw [Connection.set_own]
    exact tracks.drop (by rw [here]; rfl) (tracks.sendable (.inr here))

/-- A task at its end has nothing more to track. -/
theorem tail_own (running : (conn.tail i).fault = none) :
    ((conn.tail i).tasks i).Tracks (conn.tail i).buf := by
  -- The call ends, whether it stops the tunnel on the way or not.
  have ended : ({ conn.tasks i with pc := .finished } : Task).Tracks conn.buf :=
    .idle rfl (by simp)
  unfold Connection.tail at running ⊢
  dsimp only at running ⊢
  by_cases large : conn.buf.length > 1024 * 1024 * 10
  · rw [if_pos large] at running ⊢
    by_cases null : conn.tunnelEntry = some none
    · rw [if_pos null] at running
      cases running
    · rw [if_neg null]
      show ((conn.set i _).tasks i).Tracks conn.buf
      rw [Connection.set_own]
      exact ended
  · rw [if_neg large, Connection.set_own]
    exact ended

/-- The task that takes a step tracks the live buffer afterwards. -/
theorem work_own (tracks : (conn.tasks i).Tracks conn.buf)
    (current : (conn.tasks i).pc = .queued → (conn.tasks i).buff = conn.buf)
    (worked : conn.work assertions i content = some next) (running : next.fault = none) :
    (next.tasks i).Tracks next.buf := by
  have own {task : Task} : (conn.set i task).tasks i = task := Connection.set_own
  -- One case for each place in the code.
  cases here : (conn.tasks i).pc with
  | absent | finished => simp [Connection.work, here] at worked
  | queued =>
    simp only [Connection.work, here, Option.some.injEq] at worked
    subst worked
    rw [own]
    exact queued_own tracks here (current here)
  | loopHead =>
    simp only [Connection.work, here, Option.some.injEq] at worked
    subst worked
    rw [own]
    exact tracks.loopHead here conn.connected
  | readCache =>
    simp only [Connection.work, here, Option.some.injEq] at worked
    subst worked
    rw [own]
    exact readCache_own tracks here content
  | answer response =>
    simp only [Connection.work, here, Option.some.injEq] at worked
    subst worked
    show ((conn.set i _).tasks i).Tracks conn.buf
    rw [own]
    exact tracks.handle (.inl (by rw [here]; rfl)) rfl rfl rfl (by simp)
  | dropAnswered =>
    simp only [Connection.work, here, Option.some.injEq] at worked
    subst worked
    exact dropAnswered_own tracks here running
  | checkTunnel =>
    simp only [Connection.work, here, Option.some.injEq] at worked
    subst worked
    exact checkTunnel_own tracks here
  | createTunnel =>
    simp only [Connection.work, here, Option.some.injEq] at worked
    subst worked
    exact createTunnel_own tracks here
  | addTunnel =>
    simp only [Connection.work, here, Option.some.injEq] at worked
    subst worked
    exact addTunnel_own tracks here
  | checkContext =>
    simp only [Connection.work, here, Option.some.injEq] at worked
    subst worked
    rw [own]
    refine tracks.goOn (by rw [here]; rfl) rfl rfl ?_
    dsimp only
    split
    · exact .inr rfl
    · exact .inl rfl
  | castContext =>
    simp only [Connection.work, here] at worked
    split at worked
    · cases worked
      cases running
    · cases worked
      rw [own]
      exact tracks.goOn (by rw [here]; rfl) rfl rfl (.inl rfl)
  | push =>
    simp only [Connection.work, here, Option.some.injEq] at worked
    subst worked
    exact push_own tracks here running
  | send =>
    simp only [Connection.work, here, Option.some.injEq] at worked
    subst worked
    exact send_own tracks here running
  | copyBuffer =>
    simp only [Connection.work, here, Option.some.injEq] at worked
    subst worked
    rw [own]
    exact tracks.handle (.inr (by rw [here]; rfl)) rfl rfl rfl fun _ => tracks.sendable (.inl here)
  | dropForwarded =>
    simp only [Connection.work, here, Option.some.injEq] at worked
    subst worked
    exact dropForwarded_own tracks here running
  | tail =>
    simp only [Connection.work, here, Option.some.injEq] at worked
    subst worked
    exact tail_own running

/-- More bytes in the live buffer, and a new task with a snapshot of it. -/
theorem deliver (tracking : Tracking conn) (running : conn.fault = none) (chunk : Bytes) :
    Tracking (conn.onServerMessage chunk) where
  -- The new call is queued and unchecked; for the others the buffer has only grown.
  tracks _ j := by
    by_cases new : j = conn.taskCount
    · rw [new, Connection.onServerMessage_new]
      exact .idle rfl fun _ => rfl
    · rw [Connection.onServerMessage_other chunk new]
      exact (tracking.tracks running j).grow chunk
  fresh j late := Connection.fresh_onServerMessage tracking.fresh chunk late

/-- A step that touches neither the tasks nor the live buffer. -/
theorem elsewhere (tracking : Tracking conn) (running : conn.fault = none)
    (same : conn.SameStream next) : Tracking next where
  -- Neither a task nor the buffer has changed.
  tracks _ j := by
    rw [same.tasks, same.buf]
    exact tracking.tracks running j
  fresh j late := by
    rw [same.taskCount] at late
    rw [same.tasks]
    exact tracking.fresh j late

/-- A task's step keeps all tasks on track, if it runs alone. -/
theorem work (tracking : Tracking conn) (running : conn.fault = none)
    (alone : conn.OneAtATime (.work i content))
    (worked : conn.work assertions i content = some next) : Tracking next where
  tracks runningNext j := by
    by_cases same : j = i
    · rw [same]
      exact work_own (tracking.tracks running i) alone.2 worked runningNext
    · -- The others are not underway.
      rw [Connection.work_other same worked]
      exact .idle (alone.1 j same) (tracking.tracks running j).unchecked
  fresh j late := by
    rw [Connection.work_taskCount worked] at late
    have other : j ≠ i := by
      rintro rfl
      simp [Connection.work, tracking.fresh j late] at worked
    rw [Connection.work_other other worked]
    exact tracking.fresh j late

/-- Every step of the connection keeps the tasks on track, as long as they run one at a time. -/
theorem step {label : ConnectionStep} (tracking : Tracking conn) (alone : conn.OneAtATime label)
    (stepped : (connectionMachine memory assertions).step conn label = some next) :
    Tracking next := by
  have running := Connection.running_of_step stepped
  obtain ⟨moved, event, same⟩ := Connection.streamEvent_of_step stepped
  cases label with
  | deliver chunk =>
    cases Connection.deliver_of_step stepped
    exact tracking.deliver running chunk
  | work i content => exact tracking.work running alone (Connection.work_of_step stepped)
  | respond | backendUp | backendDown | clientDown =>
    -- The tunnels and the connections have no part in what the tasks know.
    cases event
    exact tracking.elsewhere running same

end Tracking

/-- A task that is about to retrieve has copied a live buffer that is not its request. -/
def Connection.Mismatched (conn : Connection) : Prop :=
  ∃ i, (conn.tasks i).pc = .dropForwarded ∧ (conn.tasks i).http ≠ (conn.tasks i).request

/-- The live buffer is the request of a task exactly if it holds nothing else, and the request is
below 2^31 bytes. -/
theorem Task.Tracks.copied_iff {task : Task} {buf : Bytes} (tracks : task.Tracks buf)
    (here : task.pc = .copyBuffer) :
    buf = task.request ↔
      (∃ m, requestFraming.next buf = some (m, buf.length)) ∧ buf.length < 2 ^ 31 := by
  -- The snapshot is the front of the live buffer, and both start with the request.
  obtain ⟨more, rfl⟩ := tracks.current (by rw [here]; rfl)
  obtain ⟨m, n, found, info⟩ := tracks.parsed (.inr (.inl (by rw [here]; rfl)))
  have length := tracks.sendable (.inl here)
  have within := requestFraming.within found
  have foundLive := requestFraming.stable more found
  rw [info] at length
  -- The length that was sent is not above that of the request.
  have sent : task.info.2.toNat ≤ n := by
    rw [info]
    simp only [toInt32] at length ⊢
    omega
  constructor
  · intro same
    have lengths := congrArg List.length same
    rw [Task.request, List.length_take, List.length_append] at lengths
    have whole : n = (task.buff ++ more).length := by
      rw [List.length_append]
      omega
    refine ⟨⟨m, whole ▸ foundLive⟩, ?_⟩
    have exact_ : (toInt32 n).toNat = n := by
      rw [info] at sent lengths
      rw [List.length_append] at whole
      dsimp only at sent lengths
      omega
    rw [← whole]
    simp only [toInt32] at exact_ length
    omega
  · rintro ⟨⟨m', single⟩, small⟩
    rw [foundLive, Option.some.injEq, Prod.mk.injEq] at single
    obtain ⟨-, whole⟩ := single
    rw [List.length_append] at whole small
    -- Nothing is left behind the request.
    have nothing : more = [] := List.length_eq_zero_iff.mp (by omega)
    have all : task.info.2.toNat = task.buff.length := by
      rw [info]
      simp only [toInt32]
      omega
    rw [nothing, List.append_nil, Task.request, all, List.take_length]

namespace Connection

variable {conn next : Connection} {i : Nat} {memory : RelayMemory} {content : Bytes}

/-- Only the copy of the live buffer brings a task before its last retrieval. -/
theorem work_dropForwarded (worked : conn.work true i content = some next)
    (after : (next.tasks i).pc = .dropForwarded) :
    (conn.tasks i).pc = .copyBuffer ∧
      next = conn.set i { conn.tasks i with http := conn.buf, pc := .dropForwarded } := by
  -- The place follows on the copy alone, so every other step is excluded by where it leads.
  cases here : (conn.tasks i).pc with
  | absent | finished => simp [work, here] at worked
  | copyBuffer =>
    simp only [work, here, Option.some.injEq] at worked
    exact ⟨rfl, worked.symm⟩
  | loopHead =>
    simp only [work, here, Option.some.injEq] at worked
    subst worked
    rw [set_own] at after
    rcases (conn.tasks i).loopHead_pc conn.connected with place | place <;> simp [place] at after
  | queued | answer | createTunnel | addTunnel =>
    simp only [work, here, createTunnel, addTunnel, Option.some.injEq] at worked
    subst worked
    simp [set_own] at after
  | readCache | checkTunnel | checkContext =>
    simp only [work, here, Task.readCache, checkTunnel, Option.some.injEq] at worked
    subst worked
    split at after <;> simp [set_own] at after
  | castContext =>
    simp only [work, here] at worked
    split at worked <;> cases worked
    · simp [fail, here] at after
    · simp [set_own] at after
  | dropAnswered | dropForwarded | push | send | tail =>
    simp only [work, here, dropAnswered, dropForwarded, push, send, tail, Option.some.injEq]
      at worked
    subst worked
    repeat' split at after
    all_goals simp [set_own, Task.drop, fail, retrieve, here] at after

/-- The assertion fails where a task has copied something else than its request. -/
theorem work_assertion (running : conn.fault = none)
    (worked : conn.work true i content = some next) :
    next.fault = some .assertion ↔
      (conn.tasks i).pc = .dropForwarded ∧ (conn.tasks i).http ≠ (conn.tasks i).request := by
  -- The assertion stands at one place; the other steps end elsewhere or fail in another way.
  cases here : (conn.tasks i).pc with
  | absent | finished => simp [work, here] at worked
  | dropForwarded =>
    simp only [work, here, dropForwarded, Option.some.injEq] at worked
    subst worked
    by_cases same : (conn.tasks i).http = (conn.tasks i).request
    · simp [same, set, retrieve, running]
    · simp [same, fail]
  | castContext =>
    simp only [work, here] at worked
    split at worked <;> cases worked <;> simp [fail, set, running]
  | queued | loopHead | readCache | answer | checkContext | copyBuffer | createTunnel | addTunnel =>
    simp only [work, here, createTunnel, addTunnel, Option.some.injEq] at worked
    subst worked
    simp [set, running]
  | dropAnswered | checkTunnel | push | send | tail =>
    simp only [work, here, dropAnswered, checkTunnel, push, send, tail, Option.some.injEq] at worked
    subst worked
    repeat' split
    all_goals simp [set, fail, retrieve, running]

/-- Where only the given task may have copied, the others are not about to retrieve. -/
theorem mismatched_work (alone : conn.OneAtATime (.work i content))
    (worked : conn.work true i content = some next) :
    next.Mismatched ↔
      (next.tasks i).pc = .dropForwarded ∧ (next.tasks i).http ≠ (next.tasks i).request := by
  constructor
  · rintro ⟨j, here, differs⟩
    by_cases same : j = i
    · exact same ▸ ⟨here, differs⟩
    · -- The other task would be underway.
      have idle := alone.1 j same
      rw [work_other same worked] at here
      rw [here] at idle
      cases idle
  · exact fun mismatch => ⟨i, mismatch⟩

/-- A step of no task leaves what was copied, and fails no assertion. -/
theorem mismatched_elsewhere {label : ConnectionStep} (tracking : Tracking conn)
    (notWork : ∀ i content, label ≠ .work i content)
    (stepped : (connectionMachine memory true).step conn label = some next) :
    (next.Mismatched ↔ conn.Mismatched) ∧ next.Unaborted := by
  have running := running_of_step stepped
  obtain ⟨moved, event, same⟩ := streamEvent_of_step stepped
  cases label with
  | work i content => exact absurd rfl (notWork i content)
  | deliver chunk =>
    cases deliver_of_step stepped
    refine ⟨⟨?_, ?_⟩, fun failed => by simp [onServerMessage, running] at failed⟩
    · rintro ⟨j, here, differs⟩
      -- The new task waits in the queue.
      have other : j ≠ conn.taskCount := by
        rintro rfl
        rw [onServerMessage_new] at here
        cases here
      rw [onServerMessage_other chunk other] at here differs
      exact ⟨j, here, differs⟩
    · rintro ⟨j, here, differs⟩
      have other : j ≠ conn.taskCount := by
        rintro rfl
        rw [tracking.fresh _ (Nat.le_refl _)] at here
        cases here
      refine ⟨j, ?_⟩
      rw [onServerMessage_other chunk other]
      exact ⟨here, differs⟩
  | respond k chunk =>
    cases event
    refine ⟨by rw [Mismatched, Mismatched, same.tasks], ?_⟩
    cases respond_of_step stepped
    unfold respond
    split <;> simp [Unaborted, fail, running]
  | backendUp k | backendDown k =>
    cases event
    refine ⟨by rw [Mismatched, Mismatched, same.tasks], ?_⟩
    simp only [connectionMachine, running, Option.isSome_none, Bool.false_eq_true, if_false,
      Option.ite_none_right_eq_some, Option.some.injEq] at stepped
    obtain ⟨-, rfl⟩ := stepped
    exact fun failed => by cases failed
  | clientDown =>
    cases event
    refine ⟨by rw [Mismatched, Mismatched, same.tasks], ?_⟩
    cases clientDown_of_step stepped
    unfold onServerConnectionDown
    split <;> simp [Unaborted, fail, running]

/-- A step that copies a single request, or copies nothing, spoils nothing. -/
theorem matching_step {label : ConnectionStep}
    (matching : Tracking conn ∧ conn.Unaborted ∧ ¬ conn.Mismatched) (alone : conn.OneAtATime label)
    (single : conn.CopiesOneRequest label)
    (stepped : (connectionMachine memory true).step conn label = some next) :
    Tracking next ∧ next.Unaborted ∧ ¬ next.Mismatched := by
  obtain ⟨tracking, -, matched⟩ := matching
  refine ⟨tracking.step alone stepped, ?_⟩
  by_cases isWork : ∃ i content, label = .work i content
  · obtain ⟨i, content, rfl⟩ := isWork
    have running := running_of_step stepped
    have stepped := work_of_step stepped
    refine ⟨fun failed => matched ⟨i, (work_assertion running stepped).mp failed⟩, fun mismatch => ?_⟩
    -- A mismatch would have been copied just now.
    obtain ⟨here, differs⟩ := (mismatched_work alone stepped).mp mismatch
    obtain ⟨before, rfl⟩ := work_dropForwarded stepped here
    rw [set_own] at differs
    exact differs (((tracking.tracks running i).copied_iff before).mpr (single before))
  · obtain ⟨unchanged, unaborted⟩ := mismatched_elsewhere tracking
      (fun i content same => isWork ⟨i, content, same⟩) stepped
    exact ⟨unaborted, fun mismatch => matched (unchanged.mp mismatch)⟩

/-- A copy of anything else than a single request is a mismatch. -/
theorem mismatched_of_copy {label : ConnectionStep} (tracking : Tracking conn)
    (spoiled : ¬ conn.CopiesOneRequest label)
    (stepped : (connectionMachine memory true).step conn label = some next) : next.Mismatched := by
  -- Only a copy can spoil the condition, and it is one that does not hold the one request.
  have running := running_of_step stepped
  cases label with
  | work i content =>
    have stepped := work_of_step stepped
    simp only [CopiesOneRequest, Classical.not_imp] at spoiled
    obtain ⟨here, notSingle⟩ := spoiled
    simp only [work, here, Option.some.injEq] at stepped
    subst stepped
    refine ⟨i, ?_⟩
    rw [set_own]
    exact ⟨rfl, fun same => notSingle (((tracking.tracks running i).copied_iff here).mp same)⟩
  | _ => exact absurd trivial spoiled

/-- A mismatch stays until the assertion fails. -/
theorem mismatched_step {label : ConnectionStep}
    (spoiled : Tracking conn ∧ (conn.Mismatched ∨ conn.fault = some .assertion))
    (alone : conn.OneAtATime label)
    (stepped : (connectionMachine memory true).step conn label = some next) :
    Tracking next ∧ (next.Mismatched ∨ next.fault = some .assertion) := by
  obtain ⟨tracking, mismatch⟩ := spoiled
  refine ⟨tracking.step alone stepped, ?_⟩
  have running := running_of_step stepped
  obtain ⟨j, here, differs⟩ := mismatch.resolve_right (by simp [running])
  by_cases isWork : ∃ i content, label = .work i content
  · obtain ⟨i, content, rfl⟩ := isWork
    have stepped := work_of_step stepped
    -- The task with the mismatch is underway, so this is its step.
    have own : j = i := by
      by_contra other
      have idle := alone.1 j other
      rw [here] at idle
      cases idle
    subst own
    exact .inr ((work_assertion running stepped).mpr ⟨here, differs⟩)
  · obtain ⟨unchanged, -⟩ := mismatched_elsewhere tracking
      (fun i content same => isWork ⟨i, content, same⟩) stepped
    exact .inl (unchanged.mpr ⟨j, here, differs⟩)

end Connection

/-- With one task at a time, the assertion holds throughout a run if each live buffer that is copied
is a single request below 2^31 bytes, and only then if the run does not stop between the copy and
the assertion. -/
theorem assertion_holds_iff (memory : RelayMemory) {labels : List ConnectionStep} {last : Connection}
    (alone : (connectionMachine memory true).Meets Connection.OneAtATime {} labels)
    (ran : (connectionMachine memory true).run {} labels = some last) :
    ((connectionMachine memory true).Meets Connection.CopiesOneRequest {} labels →
        (connectionMachine memory true).Always Connection.Unaborted {} labels) ∧
      ((∀ i, (last.tasks i).pc ≠ .dropForwarded) →
        (connectionMachine memory true).Always Connection.Unaborted {} labels →
        (connectionMachine memory true).Meets Connection.CopiesOneRequest {} labels) := by
  have start : Tracking {} ∧ Connection.Unaborted {} ∧ ¬ Connection.Mismatched {} :=
    ⟨Tracking.start, by simp [Connection.Unaborted], by rintro ⟨i, here, -⟩; cases here⟩
  constructor
  · intro single
    exact Machine.always_of_meets
      (fun _ _ _ matching both stepped => Connection.matching_step matching both.1 both.2 stepped)
      (fun _ matching => matching.2.1) start (alone.and single)
  · intro settled always
    -- A copy that spoils the run is still there at its end, or the assertion has failed.
    rcases Machine.run_meets_or
        (fun _ _ _ matching alone single stepped =>
          Connection.matching_step matching alone single stepped)
        (fun _ _ _ matching alone spoiled stepped =>
          ⟨matching.1.step alone stepped,
            .inl (Connection.mismatched_of_copy matching.1 spoiled stepped)⟩)
        (fun _ _ _ spoiled alone stepped => Connection.mismatched_step spoiled alone stepped)
        start alone ran with ⟨single, -⟩ | ⟨-, -, ⟨i, here, -⟩ | failed⟩
    · exact single
    · exact absurd here (settled i)
    · exact absurd failed (always labels last (List.prefix_refl _) ran)

/-- The first task forwards what arrives, while its tunnel comes up. -/
def forwarding (buf : Bytes) : List ConnectionStep :=
  .deliver buf :: (List.replicate 6 (.work 0 []) ++ .backendUp 0 :: List.replicate 9 (.work 0 []))

/-- Where only the first task takes steps, it runs alone. -/
theorem oneAtATime_first {memory : RelayMemory} {labels : List ConnectionStep} {conn : Connection}
    (first : ∀ label ∈ labels, label = .work 0 [] ∨ label = .backendUp 0)
    (others : ∀ j, j ≠ 0 → (conn.tasks j).pc.underway = false)
    (current : (conn.tasks 0).pc = .queued → (conn.tasks 0).buff = conn.buf) :
    (connectionMachine memory true).Meets Connection.OneAtATime conn labels := by
  -- Only call 0 is ever under way, and its copy was taken from the buffer as it is.
  induction labels generalizing conn with
  | nil => trivial
  | cons label labels ih =>
    have firstRest := fun label member => first label (List.mem_cons_of_mem _ member)
    have alone : conn.OneAtATime label := by
      rcases first label List.mem_cons_self with rfl | rfl
      · exact ⟨others, current⟩
      · trivial
    refine ⟨alone, fun next stepped => ?_⟩
    obtain ⟨moved, event, same⟩ := Connection.streamEvent_of_step stepped
    rcases first label List.mem_cons_self with rfl | rfl
    · have stepped := Connection.work_of_step stepped
      refine ih firstRest (fun j other => ?_) fun here => ?_
      · rw [Connection.work_other other stepped]
        exact others j other
      · rw [same.tasks] at here ⊢
        rw [same.buf]
        obtain rfl := Connection.queued_of_event event here
        exact current here
    · cases event
      refine ih firstRest ?_ ?_
      · rw [same.tasks]
        exact others
      · rw [same.tasks, same.buf]
        exact current

/-- The task that forwards what arrived first runs alone. -/
theorem oneAtATime_forwarding (buf : Bytes) :
    (connectionMachine noMemory true).Meets Connection.OneAtATime {} (forwarding buf) := by
  -- One message makes one call, and all later steps are of this call or of the network.
  refine ⟨trivial, fun conn delivered => ?_⟩
  obtain rfl : _ = conn := Option.some.inj delivered
  refine oneAtATime_first ?_ (fun j other => ?_) fun _ => rfl
  · simp only [List.mem_append, List.mem_cons, List.mem_replicate]
    rintro label (⟨-, work⟩ | up | ⟨-, work⟩)
    · exact .inl work
    · exact .inr up
    · exact .inl work
  · rw [Connection.onServerMessage_other buf other]
    rfl

/-- The assertion for a request that arrives alone, while its tunnel comes up. -/
theorem assertion_holds_getA :
    ∃ last, (connectionMachine noMemory true).run {} (forwarding getA) = some last ∧
      ((connectionMachine noMemory true).Meets Connection.CopiesOneRequest {} (forwarding getA) →
          (connectionMachine noMemory true).Always Connection.Unaborted {} (forwarding getA)) ∧
        ((∀ i, (last.tasks i).pc ≠ .dropForwarded) →
          (connectionMachine noMemory true).Always Connection.Unaborted {} (forwarding getA) →
          (connectionMachine noMemory true).Meets Connection.CopiesOneRequest {}
            (forwarding getA)) :=
  ⟨_, rfl, assertion_holds_iff noMemory (oneAtATime_forwarding getA) rfl⟩

/-- Two requests that arrive together end the process. -/
theorem assertion_fails_pipelined :
    ¬ ∀ labels, (connectionMachine noMemory true).Meets Connection.OneAtATime {} labels →
      (connectionMachine noMemory true).Always Connection.Unaborted {} labels := by
  -- Two requests in one message: the copied buffer is longer than the first of them.
  intro always
  have aborted : ∃ last, (connectionMachine noMemory true).run {} (forwarding (getA ++ getB)) =
      some last ∧ last.fault = some .assertion := ⟨_, rfl, rfl⟩
  obtain ⟨last, ran, failed⟩ := aborted
  exact always _ (oneAtATime_forwarding _) _ _ (List.prefix_refl _) ran failed

end EnhancedProxy
