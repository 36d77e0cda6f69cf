import EnhancedProxy.ProxyServer.Attendance

/-! What becomes of every message of a server, and which buffers stay full when it is at rest. -/

namespace EnhancedProxy

open CircleQueue

namespace Pool

variable {pool next : Pool (Option BoundCall)} {obj : Option BoundCall} {call other : BoundCall}
  {p q k id : Nat}

/-- The next call of the producer's `write` is not refused. -/
def Grants (pool : Pool (Option BoundCall)) (p : Nat) : Prop :=
  pool.Asks p → (pool.announce p).queue.hasRoom

/-- A call that is not refused is with its producer. -/
theorem writing_of_grants (grants : pool.Grants p) (called : pool.callWrite p obj = some next) :
    (next.producers p).writing = some obj := by
  obtain ⟨idle, cases_⟩ := callWrite_cases called
  by_cases asks : pool.Asks p
  · -- The guard is open, so the segment is granted.
    rw [callWrite_granted idle asks (grants asks), Option.some.injEq] at called
    subst called
    rw [grant_own]
  · obtain ⟨-, rfl⟩ := cases_.resolve_right fun either => asks (either.elim And.left And.left)
    simp

/-- A call to `write` leaves in place what awaits its thread. -/
theorem Awaits.callWrite (waits : pool.Awaits other) (called : pool.callWrite p obj = some next) :
    next.Awaits other := by
  obtain ⟨place, holds, unread⟩ := waits
  obtain ⟨accepted, returned⟩ := callWrite_history called
  refine ⟨place, ?_, fun id slot => by rw [Returned, returned]; exact unread id slot⟩
  cases place with
  | slot id =>
    show (id, some other) ∈ next.accepted
    rw [accepted]
    exact holds
  | producer q =>
    -- The caller had no task in hand.
    have idle := (callWrite_cases called).1
    rcases callWrite_writing called q with same | ⟨rfl, -⟩
    · exact same.trans holds
    · cases idle.symm.trans holds

/-- A task that is written to its slot awaits its thread there. -/
theorem Awaits.writeSlot (waits : pool.Awaits other) (ledger : Ledger pool)
    (wrote : pool.writeSlot p = some next) : next.Awaits other := by
  obtain ⟨place, holds, unread⟩ := waits
  obtain ⟨obj, writing, rfl⟩ := Option.map_eq_some_iff.mp wrote
  cases place with
  | slot id => exact ⟨.slot id, List.mem_append_left _ holds, unread⟩
  | producer q =>
    by_cases caller : q = p
    · subst caller
      obtain rfl : obj = some other := Option.some.inj (writing.symm.trans holds)
      refine ⟨.slot (pool.producers q).curWriteId,
        List.mem_append_right _ (List.mem_singleton_self _), fun id slot => ?_⟩
      cases slot
      -- What has been returned was accepted before, and the cursor is at an id without a task.
      rintro ⟨obj, returned⟩
      have busy : (pool.producers q).writing ≠ none := by
        rw [writing]
        exact Option.some_ne_none _
      exact ledger.custody.fresh_of_writing busy (ledger.readOnce.accepted _ returned) rfl
    · refine ⟨.producer q, ?_, fun id slot => by cases slot⟩
      show (Function.update pool.producers p _ q).writing = _
      rw [Function.update_of_ne caller]
      exact holds

/-- A thread that takes a segment reads nothing yet. -/
theorem Awaits.callRead (waits : pool.Awaits other) (called : pool.callRead k = some next) :
    next.Awaits other := by
  -- The producers and the accepted tasks are as before, and nothing new is returned.
  obtain ⟨place, holds, unread⟩ := waits
  rcases callRead_cases called with ⟨-, space, -, rfl⟩ | ⟨-, rfl⟩
  · exact ⟨place, (Assigned.holds_congr rfl rfl place other).mpr holds, unread⟩
  · exact ⟨place, (Assigned.holds_congr rfl rfl place other).mpr holds, unread⟩

/-- What awaits its thread is read now, or still awaits it. -/
theorem Awaits.readSlot (waits : pool.Awaits other) (ledger : Ledger pool)
    (read : pool.readSlot k = some next) :
    next.Awaits other ∨ pool.queue.read (pool.consumers k).readId = some other := by
  obtain ⟨place, holds, unread⟩ := waits
  by_cases now : place = .slot (pool.consumers k).readId
  · subst now
    -- An accepted task stays in its slot until it is read.
    exact .inr (ledger.written.stored _ holds (unread _ rfl))
  · obtain ⟨-, rfl⟩ := readSlot_eq_some.mp read
    refine .inl ⟨place, (Assigned.holds_congr rfl rfl place other).mpr holds, ?_⟩
    rintro id rfl ⟨obj, returned⟩
    rcases List.mem_append.mp returned with before | last
    · exact unread id rfl ⟨obj, before⟩
    · rw [List.mem_singleton, Prod.mk.injEq] at last
      exact now (by rw [last.1])

/-- A call to `write` holds back no id that was not held back before. -/
theorem HeldBack.of_callWrite (called : pool.callWrite p obj = some next)
    (held : next.HeldBack q id) : pool.HeldBack q id := by
  obtain ⟨filling, low, high⟩ := held
  obtain ⟨-, ⟨-, rfl⟩ | ⟨-, -, rfl⟩ | ⟨-, rfl⟩⟩ := callWrite_cases called
  · -- The task is in the caller's hands, and no cursor has moved.
    have still : pool.Filling q := filling_advance.mp filling
    by_cases caller : q = p
    · subst caller
      simp only [Function.update_self] at low high
      exact ⟨still, low, high⟩
    · simp only [Function.update_of_ne caller] at low high
      exact ⟨still, low, high⟩
  · by_cases caller : q = p
    · -- A new segment is empty.
      subst caller
      rw [grant_own] at low high
      exact absurd high (Nat.not_lt_of_le low)
    · rw [grant_other caller] at low high
      exact ⟨(filling_announce.mp ((filling_grant_other caller).mp filling)).1, low, high⟩
  · exact ⟨(filling_announce.mp filling).1, low, high⟩

/-- Writing its slot, a producer holds back the id of the slot as well. -/
theorem HeldBack.of_writeSlot (wrote : pool.writeSlot p = some next) (held : next.HeldBack q id) :
    pool.HeldBack q id ∨ q = p ∧ id = (pool.producers p).curWriteId := by
  -- The segment held back grows by the slot just written; for the others nothing changes.
  obtain ⟨obj, -, rfl⟩ := Option.map_eq_some_iff.mp wrote
  obtain ⟨filling, low, high⟩ := held
  by_cases caller : q = p
  · subst caller
    simp only [Filling, Producer.segment, Function.update_self] at filling low high
    by_cases last : id = (pool.producers q).curWriteId
    · exact .inr ⟨rfl, last⟩
    · exact .inl ⟨filling, low, by omega⟩
  · simp only [Filling, Function.update_of_ne caller] at filling low high
    exact .inl ⟨filling, low, high⟩

/-- The ids that are held back are those of the producers' segments. -/
theorem heldBack_congr (producers : next.producers = pool.producers)
    (published : next.published = pool.published) : next.HeldBack q id ↔ pool.HeldBack q id := by
  rw [HeldBack, HeldBack, Filling, Filling, producers, published]

end Pool

/-- More than this is not left in the buffer of a connection that stays open. -/
def dirtySize : Nat := 1024 * 1024 * 10

namespace Connection

variable {conn next : Connection} {i : Nat} {memory : RelayMemory} {assertions : Bool}
  {content : Bytes}

/-- No step of a task opens a connection again. -/
theorem work_connected (worked : conn.work assertions i content = some next)
    (up : next.connected = true) : conn.connected = true := by
  -- Only the tail closes the connection, and no place of a call opens one.
  cases here : (conn.tasks i).pc with
  | absent | finished => simp [work, here] at worked
  | queued | loopHead | readCache | answer | checkContext | copyBuffer | createTunnel | addTunnel =>
    simp only [work, here, Option.some.injEq] at worked
    subst worked
    exact up
  | castContext =>
    simp only [work, here] at worked
    split at worked <;> (cases worked; exact up)
  | checkTunnel | dropAnswered | dropForwarded | push | send =>
    simp only [work, here, checkTunnel, dropAnswered, dropForwarded, push, send, Option.some.injEq]
      at worked
    subst worked
    revert up
    repeat' split
    all_goals exact id
  | tail =>
    simp only [work, here, tail, Option.some.injEq] at worked
    subst worked
    revert up
    repeat' split
    · exact id
    · exact fun up => Bool.noConfusion up
    · exact id

/-- The network leaves the live buffer alone, and opens no connection again. -/
theorem network_kept {event : ConnectionStep} (outside : event.fromNetwork)
    (stepped : (connectionMachine memory assertions).step conn event = some next) :
    next.buf = conn.buf ∧ (next.connected = true → conn.connected = true) := by
  -- A side that goes down can only close the connection, and nothing is added to the buffer.
  have running := running_of_step stepped
  simp only [connectionMachine, running, Option.isSome_none, Bool.false_eq_true, if_false]
    at stepped
  cases event with
  | deliver chunk | work i content => cases outside
  | respond k chunk =>
    obtain ⟨-, same⟩ := Option.ite_none_right_eq_some.mp stepped
    cases same
    unfold respond
    split <;> exact ⟨rfl, id⟩
  | backendUp k =>
    obtain ⟨-, same⟩ := Option.ite_none_right_eq_some.mp stepped
    cases same
    exact ⟨rfl, id⟩
  | backendDown k =>
    obtain ⟨-, same⟩ := Option.ite_none_right_eq_some.mp stepped
    cases same
    exact ⟨rfl, fun up => Bool.noConfusion up⟩
  | clientDown =>
    cases stepped
    unfold onServerConnectionDown
    split
    · exact ⟨rfl, id⟩
    · exact ⟨rfl, fun up => Bool.noConfusion up⟩

/-- A call that returns leaves no more than the limit in the buffer of an open connection. -/
theorem work_returned (worked : conn.work assertions i content = some next)
    (returned : (next.tasks i).pc = .finished) (up : next.connected = true) :
    next.buf.length ≤ dirtySize := by
  obtain ⟨-, -, atTail⟩ := work_pc worked
  have here := atTail returned
  simp only [work, here, tail, Option.some.injEq] at worked
  by_cases dirty : conn.buf.length > 1024 * 1024 * 10
  · rw [if_pos dirty] at worked
    split at worked
    · -- The process ends before the call can return.
      subst worked
      cases here.symm.trans returned
    · subst worked
      cases up
  · rw [if_neg dirty] at worked
    subst worked
    exact Nat.le_of_not_lt dirty

end Connection

namespace ProxyServer

/-- A call is bound for the message that no thread has begun. -/
def Pending (server : ProxyServer) (c m : Nat) : Prop :=
  ∃ call, server.threadpool.Awaits call ∧ call.conn = c ∧ call.message = m

/-- The call for the message has returned. -/
def Settled (server : ProxyServer) (c m : Nat) : Prop :=
  ∃ i : Nat, (server.started c)[i]? = some m ∧ ((server.conns c).tasks i).pc = .finished

/-- The call for the message is in the segment that the producer of the connection's I/O loop is
filling, and that it has not announced. -/
def Stranded (setting : ServerSetting) (server : ProxyServer) (c m : Nat) : Prop :=
  ∃ p id call, setting.producerOf c = some p ∧ server.threadpool.HeldBack p id ∧
    (id, some call) ∈ server.threadpool.accepted ∧ call.conn = c ∧ call.message = m

/-- The call for the message finds the context empty, or it is in the segment that a thread reads
which is in such a call. -/
def HeldUp (server : ProxyServer) (c m : Nat) : Prop :=
  ∃ k x, server.running k = some x ∧ server.AtTest x ∧
    ((x.1 = c ∧ (server.started c)[x.2]? = some m) ∨
      ∃ id call, (server.threadpool.consumers k).readId ≤ id ∧
        id < (server.threadpool.consumers k).readableId ∧
        (id, some call) ∈ server.threadpool.accepted ∧ call.conn = c ∧ call.message = m)

/-- A message of the connection has a producer, and the ring does not refuse its call. -/
def Takes (setting : ServerSetting) (c : Nat) (server : ProxyServer) : ServerStep → Prop
  | .message d _ => d = c → ∃ p, setting.producerOf c = some p ∧ server.threadpool.Grants p
  | _ => True

end ProxyServer

/-- The calls that a producer has in hand or holds back are those of its own I/O loop. -/
structure Homed (setting : ServerSetting) (pool : Pool (Option BoundCall)) : Prop where
  writing : ∀ p call, (pool.producers p).writing = some (some call) →
    setting.producerOf call.conn = some p
  heldBack : ∀ p id call, (id, some call) ∈ pool.accepted → pool.HeldBack p id →
    setting.producerOf call.conn = some p

namespace Homed

open Pool

variable {setting : ServerSetting} {pool next : Pool (Option BoundCall)} {p q k id : Nat}
  {call : BoundCall}

/-- Nothing has been written. -/
theorem start : Homed setting Pool.new where
  -- No producer has anything in its hands.
  writing p call has := by cases has
  heldBack p id call accepted := absurd accepted List.not_mem_nil

/-- A call is written by the producer of its loop. -/
theorem callWrite (homed : Homed setting pool) (own : setting.producerOf call.conn = some p)
    (called : pool.callWrite p (some call) = some next) : Homed setting next where
  -- The new call is in the hands of the producer of its connection's loop.
  writing q other has := by
    rcases callWrite_writing called q with same | ⟨rfl, new⟩
    · exact homed.writing q other (same ▸ has)
    · obtain rfl := Option.some.inj (Option.some.inj (new.symm.trans has))
      exact own
  heldBack q id other accepted held := by
    rw [(callWrite_history called).1] at accepted
    exact homed.heldBack q id other accepted (HeldBack.of_callWrite called held)

/-- No two producers hold back an id at which one of them writes. -/
theorem cursor_apart (ledger : Ledger pool) (busy : (pool.producers p).writing ≠ none)
    (held : pool.HeldBack q (pool.producers p).curWriteId) : q = p := by
  by_contra differ
  obtain ⟨filling, low, high⟩ := held
  have writing := ledger.custody.placed.filling_of_writing busy
  obtain ⟨lowOwn, -, working⟩ := ledger.custody.cursor p
  have bound := (ledger.custody.cursor q).2.1
  -- The id would lie on the blocks of two segments that are being filled.
  refine ledger.custody.apart q p differ filling writing ?_
  have block := (ledger.custody.issued q filling.1).ringBlock_eq low (high.trans_le bound)
  have blockOwn := (ledger.custody.issued p writing.1).ringBlock_eq lowOwn
    (Nat.lt_of_not_le (working busy))
  exact block.symm.trans blockOwn

/-- A task that is written to its slot is held back by its own producer. -/
theorem writeSlot (homed : Homed setting pool) (ledger : Ledger pool)
    (wrote : pool.writeSlot p = some next) : Homed setting next := by
  have held (q id : Nat) (heldNow : next.HeldBack q id) := heldNow.of_writeSlot wrote
  obtain ⟨obj, writing, rfl⟩ := Option.map_eq_some_iff.mp wrote
  have busy : (pool.producers p).writing ≠ none := by simp [writing]
  refine ⟨fun q call has => ?_, fun q id call accepted heldNow => ?_⟩
  · by_cases caller : q = p
    · subst caller
      simp at has
    · simp only [Function.update_of_ne caller] at has
      exact homed.writing q call has
  · rcases List.mem_append.mp accepted with before | now
    · rcases held q id heldNow with heldBefore | ⟨-, atCursor⟩
      · exact homed.heldBack q id call before heldBefore
      · exact absurd atCursor (ledger.custody.fresh_of_writing busy before)
    · -- The producer that writes is the one that holds back.
      rw [List.mem_singleton, Prod.mk.injEq] at now
      obtain ⟨rfl, rfl⟩ := now
      have same : q = p := (held q _ heldNow).elim (cursor_apart ledger busy) And.left
      rw [same]
      exact homed.writing p call writing

/-- A thread that takes or reads leaves the tasks with their producers. -/
theorem consuming (homed : Homed setting pool) (producers : next.producers = pool.producers)
    (published : next.published = pool.published) (accepted : next.accepted = pool.accepted) :
    Homed setting next where
  -- Reading changes neither a producer nor what was announced or accepted.
  writing := by
    rw [producers]
    exact homed.writing
  heldBack q id call listed held := by
    rw [accepted] at listed
    exact homed.heldBack q id call listed ((heldBack_congr producers published).mp held)

/-- Every step leaves the calls with the producers of their loops. -/
theorem step {server next : ProxyServer} {label : ServerStep}
    (homed : Homed setting server.threadpool) (ledger : Ledger server.threadpool)
    (stepped : (serverMachine setting).step server label = some next) :
    Homed setting next.threadpool := by
  -- A message goes to the producer of its loop; no other step moves a call to a producer.
  cases label with
  | startThreads =>
    cases ProxyServer.act_of_step stepped
    exact homed
  | message c chunk =>
    rcases ProxyServer.message_cases stepped with ⟨-, rfl⟩ | ⟨p, pool, producer, called, rfl⟩
    · exact homed
    · exact homed.callWrite producer called
  | writeSlot p =>
    obtain ⟨pool, wrote, rfl⟩ := ProxyServer.writeSlot_cases stepped
    exact homed.writeSlot ledger wrote
  | callRead k =>
    obtain ⟨pool, called, rfl⟩ := ProxyServer.callRead_cases stepped
    rcases Pool.callRead_cases called with ⟨-, space, -, rfl⟩ | ⟨-, rfl⟩
    · exact homed.consuming rfl rfl rfl
    · exact homed.consuming rfl rfl rfl
  | readSlot k =>
    obtain ⟨pool, read, rfl⟩ := Option.map_eq_some_iff.mp (ProxyServer.act_of_step stepped)
    obtain ⟨-, rfl⟩ := Pool.readSlot_eq_some.mp read
    split
    · exact homed.consuming rfl rfl rfl
    · exact homed.consuming rfl rfl rfl
  | work k content =>
    obtain ⟨c, i, conn, -, -, running, rfl, -⟩ := ProxyServer.work_cases stepped
    exact homed
  | network c event =>
    obtain ⟨-, conn, -, rfl⟩ := ProxyServer.network_cases stepped
    exact homed

end Homed

/-- Every message of a connection has its call, and a buffer beyond the limit has a call that will
see it. -/
structure Covered (server : ProxyServer) (c : Nat) : Prop where
  counted : (server.started c).length = (server.conns c).taskCount
  known : ∀ m ∈ server.started c, m < server.messages c
  accounted : ∀ m, m < server.messages c → server.Pending c m ∨ m ∈ server.started c
  dirty : (server.conns c).connected = true → dirtySize < (server.conns c).buf.length →
    (∃ m, server.Pending c m) ∨ ∃ i, server.Begun (c, i) ∧ (server.taskOf (c, i)).pc ≠ .finished

namespace Covered

variable {server next : ProxyServer} {setting : ServerSetting} {c : Nat} {label : ServerStep}

/-- Before any message. -/
theorem start (c : Nat) : Covered {} c where
  -- No message has come and no call has begun.
  counted := rfl
  known _ member := absurd member List.not_mem_nil
  accounted _ below := absurd below (Nat.not_lt_zero _)
  dirty _ beyond := absurd beyond (Nat.not_lt_zero _)

/-- A step that begins no call and ends none keeps the messages accounted for. -/
theorem elsewhere (covered : Covered server c)
    (pending : ∀ m, server.Pending c m → next.Pending c m)
    (messages : next.messages c = server.messages c) (started : next.started c = server.started c)
    (count : (next.conns c).taskCount = (server.conns c).taskCount)
    (dirty : (next.conns c).connected = true → dirtySize < (next.conns c).buf.length →
      (server.conns c).connected = true ∧ dirtySize < (server.conns c).buf.length ∧
        ∀ i, server.Begun (c, i) → (server.taskOf (c, i)).pc ≠ .finished →
          (next.taskOf (c, i)).pc ≠ .finished) :
    Covered next c where
  -- What was pending is pending, and what had begun has begun.
  counted := by
    rw [started, count]
    exact covered.counted
  known := by
    rw [started, messages]
    exact covered.known
  accounted m below := by
    rw [messages] at below
    rw [started]
    exact (covered.accounted m below).imp_left (pending m)
  dirty up beyond := by
    obtain ⟨upBefore, beyondBefore, open_⟩ := dirty up beyond
    rcases covered.dirty upBefore beyondBefore with ⟨m, waits⟩ | ⟨i, begun, goesOn⟩
    · exact .inl ⟨m, pending m waits⟩
    · refine .inr ⟨i, ?_, open_ i begun goesOn⟩
      show i < (next.conns c).taskCount
      rw [count]
      exact begun

/-- A message of the connection that is taken has a call pending. -/
theorem message (covered : Covered server c) {p : Nat} {chunk : Bytes}
    {pool : Pool (Option BoundCall)} (grants : server.threadpool.Grants p)
    (called : server.threadpool.callWrite p (some (server.bind c chunk)) = some pool) :
    Covered { server.receive c chunk with threadpool := pool } c := by
  -- The message just received is pending with the producer that took its call.
  have new : ({ server.receive c chunk with threadpool := pool } : ProxyServer).Pending c
      (server.messages c) :=
    ⟨server.bind c chunk, ⟨.producer p, Pool.writing_of_grants grants called,
      fun id slot => by cases slot⟩, rfl, rfl⟩
  have messages : ({ server.receive c chunk with threadpool := pool } : ProxyServer).messages c =
      server.messages c + 1 := Function.update_self _ _ _
  refine ⟨?_, fun m member => ?_, fun m below => ?_, fun _ _ => .inl ⟨_, new⟩⟩
  · show _ = (Function.update server.conns c ((server.conns c).receive chunk) c).taskCount
    rw [Function.update_self]
    exact covered.counted
  · rw [messages]
    exact Nat.lt_succ_of_lt (covered.known m member)
  · rw [messages] at below
    by_cases last : m = server.messages c
    · exact .inl (last ▸ new)
    · refine (covered.accounted m (by omega)).imp_left fun ⟨call, waits, own⟩ => ?_
      exact ⟨call, waits.callWrite called, own⟩

/-- What is pending is begun by the thread that reads it, or stays pending. -/
theorem readSlot (covered : Covered server c) (service : InService server) {k : Nat}
    {pool : Pool (Option BoundCall)} (read : server.threadpool.readSlot k = some pool)
    {call : BoundCall} (known : call.message < server.messages call.conn)
    (found : server.threadpool.queue.read (server.threadpool.consumers k).readId = some call) :
    Covered { server.begin_ k call with threadpool := pool } c := by
  have begun := ProxyServer.begun_begin server k call
  have moves (m : Nat) (waits : server.Pending c m) :
      ({ server.begin_ k call with threadpool := pool } : ProxyServer).Pending c m ∨
        call.conn = c ∧ call.message = m := by
    obtain ⟨other, awaits, own, same⟩ := waits
    rcases awaits.readSlot service.ledger read with still | now
    · exact .inl ⟨other, still, own, same⟩
    · obtain rfl := Option.some.inj (now.symm.trans found)
      exact .inr ⟨own, same⟩
  have kept : (∀ m ∈ (server.begin_ k call).started c, m < server.messages c) ∧
      (∀ m, m ∈ server.started c → m ∈ (server.begin_ k call).started c) ∧
      (call.conn = c → call.message ∈ (server.begin_ k call).started c) ∧
      ((server.begin_ k call).started c).length = ((server.begin_ k call).conns c).taskCount ∧
      ((server.begin_ k call).conns c).connected = (server.conns c).connected ∧
      ((server.begin_ k call).conns c).buf = (server.conns c).buf := by
    by_cases own : c = call.conn
    · subst own
      simp only [ProxyServer.begin_, Function.update_self]
      refine ⟨List.forall_mem_append.mpr ⟨covered.known, List.forall_mem_singleton.mpr known⟩,
        fun m member => List.mem_append_left _ member,
        fun _ => List.mem_append_right _ (List.mem_singleton_self _),
        by simp [covered.counted, Connection.call], rfl, rfl⟩
    · simp only [ProxyServer.begin_, Function.update_of_ne own]
      exact ⟨covered.known, fun _ => id, fun same => absurd same.symm own, covered.counted, trivial,
        trivial⟩
  obtain ⟨begunKnown, earlier, now, counted, connected, buf⟩ := kept
  refine ⟨counted, begunKnown, fun m below => ?_, fun up beyond => ?_⟩
  · rcases covered.accounted m below with waits | member
    · rcases moves m waits with still | both
      · exact .inl still
      · rw [← both.2]
        exact .inr (now both.1)
    · exact .inr (earlier m member)
  · rcases covered.dirty (connected ▸ up) (buf ▸ beyond) with ⟨m, waits⟩ | ⟨i, before, open_⟩
    · rcases moves m waits with still | ⟨own, -⟩
      · exact .inl ⟨m, still⟩
      · -- The thread that has begun the call is to come to its end.
        subst own
        refine .inr ⟨(server.conns call.conn).taskCount, (begun _).mpr (.inr rfl), ?_⟩
        have started := congrArg Task.pc (ProxyServer.taskOf_begin_own server k call)
        exact started.trans_ne TaskPc.noConfusion
    · refine .inr ⟨i, (begun _).mpr (.inl before), ?_⟩
      have other : (c, i) ≠ server.number call := by
        intro same
        rw [same] at before
        exact absurd before (Nat.lt_irrefl _)
      exact (congrArg Task.pc (ProxyServer.taskOf_begin_other k other)).trans_ne open_

/-- Every step keeps the messages of a connection accounted for, unless one of them is refused. -/
theorem step (covered : Covered server c) (service : InService server)
    (takes : server.Takes setting c label)
    (stepped : (serverMachine setting).step server label = some next) : Covered next c := by
  cases label with
  | startThreads =>
    cases ProxyServer.act_of_step stepped
    exact covered.elsewhere (fun _ => id) rfl rfl rfl fun up beyond => ⟨up, beyond, fun _ _ => id⟩
  | message d chunk =>
    by_cases own : d = c
    · subst own
      obtain ⟨p, producer, grants⟩ := takes rfl
      rcases ProxyServer.message_cases stepped with ⟨none_, -⟩ | ⟨q, pool, producer', called, rfl⟩
      · cases none_.symm.trans producer
      · obtain rfl := Option.some.inj (producer.symm.trans producer')
        exact covered.message grants called
    · have conns : next.conns c = server.conns c ∧ next.messages c = server.messages c ∧
          next.started c = server.started c := by
        have other := Ne.symm own
        rcases ProxyServer.message_cases stepped with ⟨-, rfl⟩ | ⟨p, pool, -, -, rfl⟩
        · exact ⟨Function.update_of_ne other _ _, Function.update_of_ne other _ _, rfl⟩
        · exact ⟨Function.update_of_ne other _ _, Function.update_of_ne other _ _, rfl⟩
      refine covered.elsewhere (fun m ⟨call, waits, mine⟩ => ⟨call, ?_, mine⟩) conns.2.1 conns.2.2
        (by rw [conns.1]) fun up beyond => ?_
      · rcases ProxyServer.message_cases stepped with ⟨-, rfl⟩ | ⟨p, pool, -, called, rfl⟩
        · exact waits
        · exact waits.callWrite called
      · rw [conns.1] at up beyond
        exact ⟨up, beyond, fun i _ open_ => by rwa [ProxyServer.taskOf, conns.1]⟩
  | writeSlot p =>
    obtain ⟨pool, wrote, rfl⟩ := ProxyServer.writeSlot_cases stepped
    exact covered.elsewhere
      (fun m ⟨call, waits, own⟩ => ⟨call, waits.writeSlot service.ledger wrote, own⟩) rfl rfl rfl
      fun up beyond => ⟨up, beyond, fun _ _ => id⟩
  | callRead k =>
    obtain ⟨pool, called, rfl⟩ := ProxyServer.callRead_cases stepped
    exact covered.elsewhere (fun m ⟨call, waits, own⟩ => ⟨call, waits.callRead called, own⟩) rfl rfl
      rfl fun up beyond => ⟨up, beyond, fun _ _ => id⟩
  | readSlot k =>
    obtain ⟨pool, read, either⟩ := ProxyServer.readSlot_cases stepped
    obtain ⟨call, found, holds, -⟩ := service.readable read
    rcases either with none_ | ⟨begun, same, rfl⟩
    · cases none_.symm.trans found
    · obtain rfl := Option.some.inj (same.symm.trans found)
      exact covered.readSlot service read (service.assigned.known _ _ holds) same
  | work k content =>
    obtain ⟨d, i, conn, -, worked, running, rfl, -⟩ := ProxyServer.work_cases stepped
    by_cases own : c = d
    · subst own
      have here : (server.setConn c conn).conns c = conn := Function.update_self _ _ _
      refine covered.elsewhere (fun _ => id) rfl rfl ?_ fun up beyond => ?_
      · exact (congrArg Connection.taskCount here).trans (Connection.work_taskCount worked)
      · replace up : conn.connected = true := here ▸ up
        replace beyond : dirtySize < conn.buf.length := here ▸ beyond
        refine ⟨Connection.work_connected worked up,
          beyond.trans_le (Connection.work_buf worked), fun j _ open_ => ?_⟩
        rw [ProxyServer.taskOf]
        show ((Function.update server.conns c conn c).tasks j).pc ≠ _
        rw [Function.update_self]
        by_cases mine : j = i
        · -- The call has not returned, as it would have closed the connection.
          subst mine
          intro returned
          exact absurd beyond (Nat.not_lt_of_le (Connection.work_returned worked returned up))
        · rw [Connection.work_other mine worked]
          exact open_
    · have there : (server.setConn d conn).conns c = server.conns c :=
        Function.update_of_ne own _ _
      refine covered.elsewhere (fun _ => id) rfl rfl (congrArg Connection.taskCount there)
        fun up beyond => ⟨there ▸ up, there ▸ beyond, fun j _ open_ => ?_⟩
      show (((server.setConn d conn).conns c).tasks j).pc ≠ _
      rw [there]
      exact open_
  | network d event =>
    obtain ⟨outside, conn, moved, rfl⟩ := ProxyServer.network_cases stepped
    obtain ⟨tasks, count⟩ := Connection.network_tasks outside moved
    obtain ⟨buf, connected⟩ := Connection.network_kept outside moved
    by_cases own : c = d
    · subst own
      have here : (server.setConn c conn).conns c = conn := Function.update_self _ _ _
      refine covered.elsewhere (fun _ => id) rfl rfl (by rw [here, count]) fun up beyond => ?_
      rw [here] at up beyond
      rw [buf] at beyond
      exact ⟨connected up, beyond, fun j _ open_ => by rwa [ProxyServer.taskOf, here, tasks]⟩
    · have there : (server.setConn d conn).conns c = server.conns c :=
        Function.update_of_ne own _ _
      refine covered.elsewhere (fun _ => id) rfl rfl (by rw [there]) fun up beyond => ?_
      rw [there] at up beyond
      exact ⟨up, beyond, fun j _ open_ => by rwa [ProxyServer.taskOf, there]⟩

end Covered

/-- The server is in service, its calls are with their threads and its tasks with their producers,
and the messages of one connection are accounted for. -/
structure Tended (setting : ServerSetting) (c : Nat) (server : ProxyServer) : Prop where
  service : InService server
  attended : Attended server
  homed : Homed setting server.threadpool
  covered : Covered server c

namespace Tended

variable {server next : ProxyServer} {setting : ServerSetting} {c m : Nat}

/-- At rest with a free thread, every producer has written its slot, and nothing that was announced is
left unread, except by threads that are in a call. -/
theorem drained (tended : Tended setting c server) (alive : server.fault = none)
    (rest : server.AtRest setting) (free : ∃ k < server.threads, server.running k = none) :
    (∀ p, (server.threadpool.producers p).writing = none) ∧
      server.threadpool.queue.readableQueue = ∅ ∧
      ∀ k, server.running k = none →
        (server.threadpool.consumers k).readableId ≤ (server.threadpool.consumers k).readId := by
  have act (label : ServerStep) (inner : label.inner) (busy : ¬ server.Spins label) :
      server.act setting label = none := by
    cases acted : server.act setting label with
    | none => rfl
    | some next =>
      have stepped : (serverMachine setting).step server label = some next := by
        simp [serverMachine, alive, acted]
      exact absurd (rest label next inner stepped) busy
  have wrote (p : Nat) : (server.threadpool.producers p).writing = none := by
    have stuck := Option.map_eq_none_iff.mp (act (.writeSlot p) rfl id)
    exact Option.map_eq_none_iff.mp stuck
  -- A thread that is in no call waits for a segment, as it would go on in its own.
  have waits (k : Nat) (below : k < server.threads) (idle : server.running k = none) :
      (server.threadpool.consumers k).readableId ≤ (server.threadpool.consumers k).readId ∧
        server.threadpool.queue.firstReadable = none := by
    have reading : (server.threadpool.consumers k).reading = false := by
      have stuck := Option.map_eq_none_iff.mp (act (.readSlot k) rfl id)
      simpa [Pool.readSlot] using stuck
    have stuck : (if k < server.threads ∧ server.running k = none then
        (server.threadpool.callRead k).map fun pool => { server with threadpool := pool }
      else none) = none := act (.callRead k) rfl id
    rw [if_pos ⟨below, idle⟩, Option.map_eq_none_iff] at stuck
    simp only [Pool.callRead, reading, Bool.false_eq_true, if_false] at stuck
    split at stuck
    · rename_i usedUp
      exact ⟨usedUp, Option.map_eq_none_iff.mp (Option.map_eq_none_iff.mp stuck)⟩
    · cases stuck
  obtain ⟨k, below, idle⟩ := free
  refine ⟨wrote, firstReadable_eq_none.mp (waits k below idle).2, fun l idleOther => ?_⟩
  rcases Nat.lt_or_ge l server.threads with belowOther | beyond
  · exact (waits l belowOther idleOther).1
  · exact (tended.attended.outside l beyond).2

/-- At rest a call that no thread has begun is in a segment that its producer has not announced, or
behind a call that finds the context empty. -/
theorem stranded (tended : Tended setting c server) (alive : server.fault = none)
    (rest : server.AtRest setting) (free : ∃ k < server.threads, server.running k = none)
    (waits : server.Pending c m) : server.Stranded setting c m ∨ server.HeldUp c m := by
  obtain ⟨call, ⟨place, holds, unread⟩, own⟩ := waits
  obtain ⟨wrote, nothing, past⟩ := tended.drained alive rest free
  cases place with
  | producer p => cases (wrote p).symm.trans holds
  | slot id =>
    rcases tended.service.ledger.custody.placed.placed _ holds with visible | ⟨p, held⟩
    · rcases visible with returned | ⟨segment, readable, -⟩ | ⟨k, low, high⟩
      · exact absurd returned (unread id rfl)
      · rw [nothing] at readable
        exact absurd readable (Finset.notMem_empty _)
      · -- Whoever reads this segment is in a call that does not get on.
        cases inside : server.running k with
        | none => exact absurd (low.trans_lt high) (Nat.not_lt_of_le (past k inside))
        | some x =>
          have atTest := tended.attended.atTest_of_rest alive rest inside
          exact .inr ⟨k, x, inside, atTest, .inr ⟨id, call, low, high, holds, own⟩⟩
    · exact .inl ⟨p, id, call, own.1 ▸ tended.homed.heldBack p id call holds held, held, holds, own⟩

/-- At rest a call that has begun and not returned finds the context empty. -/
theorem heldUp (tended : Tended setting c server) (alive : server.fault = none)
    (rest : server.AtRest setting) {i : Nat} (found : (server.started c)[i]? = some m)
    (open_ : (server.taskOf (c, i)).pc ≠ .finished) : server.HeldUp c m := by
  -- The call is with some thread, and at rest a thread in a call is at the test of the context.
  have begun : server.Begun (c, i) :=
    (List.getElem?_eq_some_iff.mp found).1.trans_eq tended.covered.counted
  obtain ⟨k, inside⟩ := tended.attended.held (c, i) begun open_
  exact ⟨k, (c, i), inside, tended.attended.atTest_of_rest alive rest inside, .inl ⟨rfl, found⟩⟩

end Tended

/-- In every run that leaves no segment in two hands and refuses no message of a connection, each of
these messages has a call, which is pending or has begun. When the I/O loops and the threads are at
rest with a thread free, each call has returned, or is stranded with its producer, or held up by a
call without a backend connection. The connection is not open with a buffer beyond the limit unless
one of its own calls is stranded or held up. -/
theorem settled_at_rest (setting : ServerSetting) (c : Nat) {labels : List ServerStep}
    {last : ProxyServer}
    (met : (serverMachine setting).Meets
      (fun server label => server.Careful setting label ∧ server.Takes setting c label) {} labels)
    (ran : (serverMachine setting).run {} labels = some last) :
    (∀ m, m < last.messages c → last.Pending c m ∨ m ∈ last.started c) ∧
      (last.fault = none → (∃ k < last.threads, last.running k = none) → last.AtRest setting →
        (∀ m, m < last.messages c →
          last.Settled c m ∨ last.Stranded setting c m ∨ last.HeldUp c m) ∧
          ((last.conns c).connected = true → dirtySize < (last.conns c).buf.length →
            ∃ m, m < last.messages c ∧ (last.Stranded setting c m ∨ last.HeldUp c m))) := by
  have tended : Tended setting c last := Machine.run_invariant_of_meets
    (fun server label next (tended : Tended setting c server) met stepped =>
      { service := tended.service.step met.1 stepped
        attended := tended.attended.step tended.service stepped
        homed := tended.homed.step tended.service.ledger stepped
        covered := tended.covered.step tended.service met.2 stepped })
    ⟨InService.start, Attended.start, Homed.start, Covered.start c⟩ met ran
  refine ⟨tended.covered.accounted, fun alive free rest =>
    ⟨fun m below => ?_, fun up beyond => ?_⟩⟩
  · rcases tended.covered.accounted m below with waits | member
    · exact .inr (tended.stranded alive rest free waits)
    · obtain ⟨i, found⟩ := List.getElem?_of_mem member
      by_cases returned : (last.taskOf (c, i)).pc = .finished
      · exact .inl ⟨i, found, returned⟩
      · exact .inr (.inr (tended.heldUp alive rest found returned))
  · rcases tended.covered.dirty up beyond with ⟨m, waits⟩ | ⟨i, begun, open_⟩
    · obtain ⟨call, ⟨place, holds, unread⟩, own, same⟩ := waits
      refine ⟨m, ?_, tended.stranded alive rest free ⟨call, ⟨place, holds, unread⟩, own, same⟩⟩
      rw [← own, ← same]
      exact tended.service.assigned.known place call holds
    · -- The call that is still to test the buffer is that of one of the messages.
      have below : i < (last.started c).length := begun.trans_eq tended.covered.counted.symm
      have found := List.getElem?_eq_getElem below
      exact ⟨_, tended.covered.known _ (List.getElem_mem below),
        .inr (tended.heldUp alive rest found open_)⟩

/-- Four threads, and a first message whose call has been written to the ring. -/
def afterFirst : ProxyServer :=
  ((serverMachine oneLoop).run {} [.startThreads, .message 0 [71], .writeSlot 0]).get rfl

/-- Nobody goes on after the first message. -/
theorem afterFirst_atRest : afterFirst.AtRest oneLoop := by
  have stuck (label : ServerStep) (inner : label.inner) :
      (serverMachine oneLoop).step afterFirst label = none := by
    cases label with
    | startThreads | message c chunk | network c event => cases inner
    | writeSlot p =>
      -- The only call to `write` has come to its end.
      have wrote : (afterFirst.threadpool.producers p).writing = none := by
        by_cases own : p = 0
        · subst own
          rfl
        · have untouched : afterFirst.threadpool.producers p = {} :=
            (Function.update_of_ne own _ _).trans (Function.update_of_ne own _ _)
          rw [untouched]
      show (afterFirst.threadpool.writeSlot p).map _ = none
      rw [Pool.writeSlot, wrote]
      rfl
    | callRead k =>
      show (if k < 4 ∧ none = none then (afterFirst.threadpool.callRead k).map _ else none) = none
      split
      · rfl
      · rfl
    | readSlot k => rfl
    | work k content => rfl
  intro label next inner stepped
  cases (stuck label inner).symm.trans stepped

/-- The first message is stranded, and stays so as long as nothing else arrives. -/
theorem settled_at_rest_first : afterFirst.Stranded oneLoop 0 0 := by
  have met : (serverMachine oneLoop).Meets
      (fun server label => server.Careful oneLoop label ∧ server.Takes oneLoop 0 label) {}
      [.startThreads, .message 0 [71], .writeSlot 0] := by
    refine ⟨⟨fun poolLabel contains => (by cases contains), trivial⟩, fun next stepped => ?_⟩
    cases stepped
    refine ⟨⟨fun poolLabel contains => ?_, fun _ => ⟨0, rfl, fun _ => rfl⟩⟩, fun next stepped =>
      ⟨⟨?_, trivial⟩, fun _ _ => trivial⟩⟩
    · -- Nobody else has a segment, and nothing is taken.
      cases contains
      refine ⟨fun _ _ => ⟨fun q _ filling => absurd rfl filling.1, fun k unread => ?_⟩, fun _ => ?_⟩
      · exact absurd unread (Nat.lt_irrefl 0)
      · exact List.not_mem_nil
    · intro poolLabel contains
      cases contains
      exact ⟨trivial, trivial⟩
  have reached := (settled_at_rest oneLoop 0 met (Option.some_get rfl).symm).2 rfl
    ⟨0, show 0 < 4 by decide, rfl⟩ afterFirst_atRest
  rcases reached.1 0 (show 0 < 1 by decide) with ⟨i, started, -⟩ | stranded | ⟨k, x, inside, -⟩
  · cases started
  · exact stranded
  · cases inside

end EnhancedProxy
