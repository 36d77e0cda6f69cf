import EnhancedProxy.ProxyServer.Dispatch
import EnhancedProxy.ThreadPool.Overwrite

/-! Each connection of a proxy server behaves as a connection alone, whose tasks run once each. -/

namespace EnhancedProxy

open CircleQueue

/-- Where a bound call is before a thread reads it: with the producer that writes it to its slot, or
under its id in the ring. -/
inductive CallPlace
  | producer (p : Nat)
  | slot (id : Nat)
  deriving DecidableEq, Repr

namespace Pool

/-- The bound call is at the place. -/
def Holds (pool : Pool (Option BoundCall)) (place : CallPlace) (call : BoundCall) : Prop :=
  match place with
  | .producer p => (pool.producers p).writing = some (some call)
  | .slot id => (id, some call) ∈ pool.accepted

/-- The bound call is at some place, from which no thread has read it. -/
def Awaits (pool : Pool (Option BoundCall)) (call : BoundCall) : Prop :=
  ∃ place, pool.Holds place call ∧ ∀ id, place = .slot id → ¬ pool.Returned id

end Pool

/-- The tasks in the pool are bound calls, each made for a message of its own. -/
structure Assigned (pool : Pool (Option BoundCall)) (messages : Nat → Nat) : Prop where
  bound : ∀ entry ∈ pool.accepted, entry.2 ≠ none
  writing : ∀ p, (pool.producers p).writing ≠ some none
  known : ∀ place call, pool.Holds place call → call.message < messages call.conn
  apart : ∀ place other call otherCall, pool.Holds place call → pool.Holds other otherCall →
    call.conn = otherCall.conn → call.message = otherCall.message → place = other

/-- A connection of the server shows what the connection alone shows, each call that has begun is
its task for some message, and the task of every call that has not begun is still queued. -/
structure Follows (server : ProxyServer) (c : Nat) (alone : Connection) : Prop where
  shared : (server.conns c).withTasks alone.tasks alone.taskCount = alone
  counted : alone.taskCount = server.messages c
  begun : (server.started c).length = (server.conns c).taskCount
  known : ∀ m ∈ server.started c, m < server.messages c
  tasks : ∀ i m, (server.started c)[i]? = some m → (server.conns c).tasks i = alone.tasks m
  once : (server.started c).Nodup
  awaits : ∀ call, server.threadpool.Awaits call → call.conn = c →
    call.message ∉ server.started c ∧
      alone.tasks call.message = { pc := .queued, buff := call.buff }

/-- What holds of the server as a whole. -/
structure InService (server : ProxyServer) : Prop where
  ledger : Ledger server.threadpool
  assigned : Assigned server.threadpool server.messages
  running : ∀ k c i, server.running k = some (c, i) → i < (server.conns c).taskCount
  sound : server.fault = none → ∀ c, (server.conns c).fault = none
  noEmptyCall : server.fault ≠ some .badFunctionCall

namespace Assigned

variable {pool next : Pool (Option BoundCall)} {messages : Nat → Nat} {p k : Nat}
  {call other : BoundCall} {place : CallPlace}

/-- At the start there is no call. -/
theorem start : Assigned Pool.new fun _ => 0 where
  -- Nobody holds a call, and no task was accepted.
  bound _ accepted := absurd accepted List.not_mem_nil
  writing _ := by simp [Pool.new]
  known place _ holds := by
    cases place with
    | producer p => cases holds
    | slot id => exact absurd holds List.not_mem_nil
  apart place _ _ _ holds := by
    cases place with
    | producer p => cases holds
    | slot id => exact absurd holds List.not_mem_nil

/-- A call to `write` puts the new bound call with its producer, and leaves the others where they
are. -/
theorem holds_callWrite (called : pool.callWrite p (some call) = some next)
    (holds : next.Holds place other) :
    pool.Holds place other ∨ place = .producer p ∧ other = call := by
  -- The slots are not written, and of the producers only the caller gets a call.
  cases place with
  | slot id =>
    have accepted : (id, some other) ∈ next.accepted := holds
    rw [(Pool.callWrite_history called).1] at accepted
    exact .inl accepted
  | producer q =>
    have has : (next.producers q).writing = some (some other) := holds
    rcases Pool.callWrite_writing called q with same | ⟨rfl, new⟩
    · exact .inl (same.symm.trans has)
    · rw [new, Option.some.injEq, Option.some.injEq] at has
      exact .inr ⟨rfl, has.symm⟩

/-- A call that is bound for the next message of its connection is assigned beside the others. -/
theorem callWrite (assigned : Assigned pool messages) (new : call.message = messages call.conn)
    (called : pool.callWrite p (some call) = some next) :
    Assigned next (Function.update messages call.conn (messages call.conn + 1)) where
  bound entry accepted := by
    rw [(Pool.callWrite_history called).1] at accepted
    exact assigned.bound entry accepted
  writing q empty := by
    rcases Pool.callWrite_writing called q with same | ⟨-, has⟩
    · exact assigned.writing q (same ▸ empty)
    · cases has.symm.trans empty
  known place other holds := by
    rcases holds_callWrite called holds with before | ⟨-, rfl⟩
    · -- The count of messages has not gone down.
      have below := assigned.known place other before
      by_cases own : other.conn = call.conn
      · rw [own, Function.update_self]
        rw [own] at below
        omega
      · rwa [Function.update_of_ne own]
    · rw [Function.update_self, new]
      exact Nat.lt_succ_self _
  apart place other first second holds holdsOther sameConn sameMessage := by
    -- An earlier call was bound for an earlier message.
    rcases holds_callWrite called holds with before | ⟨rfl, rfl⟩
    · rcases holds_callWrite called holdsOther with beforeOther | ⟨rfl, rfl⟩
      · exact assigned.apart place other first second before beforeOther sameConn sameMessage
      · have below := assigned.known place first before
        rw [sameConn, sameMessage, new] at below
        exact absurd below (Nat.lt_irrefl _)
    · rcases holds_callWrite called holdsOther with beforeOther | ⟨rfl, rfl⟩
      · have below := assigned.known other second beforeOther
        rw [← sameConn, ← sameMessage, new] at below
        exact absurd below (Nat.lt_irrefl _)
      · rfl

/-- A message without a call leaves a number unused. -/
theorem skip (assigned : Assigned pool messages) (c : Nat) :
    Assigned pool (Function.update messages c (messages c + 1)) where
  -- The message counts as sent and no call is made for it, so the bound only grows.
  bound := assigned.bound
  writing := assigned.writing
  known place call holds := by
    have below := assigned.known place call holds
    by_cases own : call.conn = c
    · rw [own, Function.update_self]
      rw [own] at below
      omega
    · rwa [Function.update_of_ne own]
  apart := assigned.apart

/-- A bound call under an id in the ring was with the producer that wrote it, or was there before. -/
theorem holds_writeSlot (wrote : pool.writeSlot p = some next) (holds : next.Holds place other) :
    place = .slot (pool.producers p).curWriteId ∧ pool.Holds (.producer p) other ∨
      pool.Holds place other ∧ place ≠ .producer p := by
  -- The call goes from the producer into the slot of its cursor; the rest stays where it is.
  obtain ⟨obj, writing, rfl⟩ := Option.map_eq_some_iff.mp wrote
  cases place with
  | slot id =>
    rcases List.mem_append.mp (show _ ∈ pool.accepted ++ _ from holds) with before | now
    · exact .inr ⟨before, by simp⟩
    · rw [List.mem_singleton, Prod.mk.injEq] at now
      obtain ⟨rfl, rfl⟩ := now
      exact .inl ⟨rfl, writing⟩
  | producer q =>
    have has : (Function.update pool.producers p { pool.producers p with
        curWriteId := (pool.producers p).curWriteId + 1, writing := none } q).writing =
          some (some other) := holds
    by_cases caller : q = p
    · subst caller
      rw [Function.update_self] at has
      cases has
    · rw [Function.update_of_ne caller] at has
      exact .inr ⟨has, by simpa using caller⟩

/-- Writing its slot keeps a bound call apart from the others. -/
theorem writeSlot (assigned : Assigned pool messages) (wrote : pool.writeSlot p = some next) :
    Assigned next messages where
  bound entry accepted := by
    obtain ⟨obj, writing, rfl⟩ := Option.map_eq_some_iff.mp wrote
    rcases List.mem_append.mp accepted with before | now
    · exact assigned.bound entry before
    · rw [List.mem_singleton] at now
      subst now
      rintro rfl
      exact assigned.writing p writing
  writing q empty := by
    obtain ⟨obj, -, rfl⟩ := Option.map_eq_some_iff.mp wrote
    by_cases caller : q = p
    · subst caller
      simp at empty
    · simp only [Function.update_of_ne caller] at empty
      exact assigned.writing q empty
  known place call holds := by
    rcases holds_writeSlot wrote holds with ⟨-, before⟩ | ⟨before, -⟩
    · exact assigned.known _ call before
    · exact assigned.known place call before
  apart place other first second holds holdsOther sameConn sameMessage := by
    -- Only the producer's call has moved, and nobody else's can be taken for it.
    rcases holds_writeSlot wrote holds with ⟨rfl, before⟩ | ⟨before, elsewhere⟩
    · rcases holds_writeSlot wrote holdsOther with ⟨rfl, -⟩ | ⟨beforeOther, elsewhereOther⟩
      · rfl
      · exact absurd (assigned.apart _ _ first second before beforeOther sameConn sameMessage).symm
          elsewhereOther
    · rcases holds_writeSlot wrote holdsOther with ⟨rfl, beforeOther⟩ | ⟨beforeOther, -⟩
      · exact absurd (assigned.apart _ _ first second before beforeOther sameConn sameMessage)
          elsewhere
      · exact assigned.apart place other first second before beforeOther sameConn sameMessage

/-- The places of the bound calls are those of the producers and of the accepted tasks. -/
theorem holds_congr (producers : next.producers = pool.producers)
    (accepted : next.accepted = pool.accepted) (place : CallPlace) (call : BoundCall) :
    next.Holds place call ↔ pool.Holds place call := by
  -- A place is a producer's hands or an accepted id.
  cases place with
  | producer p => simp only [Pool.Holds, producers]
  | slot id => simp only [Pool.Holds, accepted]

/-- What a consumer does moves no bound call. -/
theorem consuming (assigned : Assigned pool messages) (producers : next.producers = pool.producers)
    (accepted : next.accepted = pool.accepted) : Assigned next messages := by
  -- Reading changes neither a producer nor what was accepted.
  have same := holds_congr producers accepted
  refine ⟨?_, ?_, ?_, ?_⟩
  · rw [accepted]
    exact assigned.bound
  · rw [producers]
    exact assigned.writing
  · intro place call holds
    exact assigned.known place call ((same place call).mp holds)
  · intro place other first second holds holdsOther
    exact assigned.apart place other first second ((same _ _).mp holds) ((same _ _).mp holdsOther)

end Assigned

namespace Pool

variable {pool next : Pool (Option BoundCall)} {p k : Nat} {call other : BoundCall}

/-- After a call to `write`, the new bound call awaits its thread, beside those that did before. -/
theorem awaits_callWrite (called : pool.callWrite p (some call) = some next)
    (awaits : next.Awaits other) : pool.Awaits other ∨ other = call := by
  -- What waits was held before, or it is the call just taken.
  obtain ⟨place, holds, unread⟩ := awaits
  rcases Assigned.holds_callWrite called holds with before | ⟨-, same⟩
  · refine .inl ⟨place, before, fun id slot returned => unread id slot ?_⟩
    rw [Returned, (callWrite_history called).2]
    exact returned
  · exact .inr same

/-- Writing a slot lets no other call await its thread. -/
theorem awaits_writeSlot (wrote : pool.writeSlot p = some next) (awaits : next.Awaits other) :
    pool.Awaits other := by
  -- What is now in the slot was in the producer's hands, where no id is asked for.
  obtain ⟨place, holds, unread⟩ := awaits
  obtain ⟨obj, -, rfl⟩ := Option.map_eq_some_iff.mp wrote
  rcases Assigned.holds_writeSlot wrote holds with ⟨-, before⟩ | ⟨before, -⟩
  · exact ⟨_, before, fun id slot => by cases slot⟩
  · exact ⟨place, before, unread⟩

/-- Taking a segment lets no other call await its thread. -/
theorem awaits_callRead (called : pool.callRead k = some next) (awaits : next.Awaits other) :
    pool.Awaits other := by
  -- The producers and the accepted tasks are as before, and nothing new is returned.
  obtain ⟨place, holds, unread⟩ := awaits
  rcases callRead_cases called with ⟨-, space, -, rfl⟩ | ⟨-, rfl⟩
  · exact ⟨place, (Assigned.holds_congr rfl rfl place other).mp holds, unread⟩
  · exact ⟨place, (Assigned.holds_congr rfl rfl place other).mp holds, unread⟩

/-- A call that awaits its thread after another was read is at another place than that one. -/
theorem awaits_readSlot (read : pool.readSlot k = some next) (awaits : next.Awaits other) :
    ∃ place, pool.Holds place other ∧ place ≠ .slot (pool.consumers k).readId ∧
      ∀ id, place = .slot id → ¬ pool.Returned id := by
  -- What still waits is unread, so it is not under the id that was read.
  obtain ⟨place, holds, unread⟩ := awaits
  obtain ⟨-, rfl⟩ := readSlot_eq_some.mp read
  refine ⟨place, ?_, ?_, fun id slot returned => unread id slot ?_⟩
  · exact (Assigned.holds_congr rfl rfl place other).mp holds
  · rintro rfl
    exact unread _ rfl ⟨_, List.mem_append_right _ (List.mem_singleton_self _)⟩
  · obtain ⟨obj, listed⟩ := returned
    exact ⟨obj, List.mem_append_left _ listed⟩

end Pool

namespace Follows

variable {server next : ProxyServer} {setting : ServerSetting} {alone : Connection} {c k i m : Nat}
  {chunk content : Bytes} {call : BoundCall}

/-- Before any message. -/
theorem start (c : Nat) : Follows {} c {} where
  -- Neither of the two has a task, and no call waits.
  shared := rfl
  counted := rfl
  begun := rfl
  known _ member := absurd member List.not_mem_nil
  tasks _ _ found := by cases found
  once := List.nodup_nil
  awaits _ awaits := by
    obtain ⟨place, holds, -⟩ := awaits
    cases place with
    | producer p => cases holds
    | slot id => exact absurd holds List.not_mem_nil

/-- A connection and its double fail together. -/
theorem fault (follows : Follows server c alone) : alone.fault = (server.conns c).fault := by
  -- The double differs from the connection in its tasks alone.
  rw [← follows.shared]
  rfl

/-- A connection and its double have the same bytes in their buffers. -/
theorem buf (follows : Follows server c alone) : alone.buf = (server.conns c).buf := by
  -- The double differs from the connection in its tasks alone.
  rw [← follows.shared]
  rfl

/-- A call that has begun is the task of an earlier message. -/
theorem lt_of_begun (follows : Follows server c alone)
    (found : (server.started c)[i]? = some m) : m < alone.taskCount := by
  -- The alone connection has a task for each message.
  rw [follows.counted]
  exact follows.known m (List.mem_of_getElem? found)

/-- What concerns other connections leaves a connection with its double. -/
theorem elsewhere (follows : Follows server c alone) (conns : next.conns c = server.conns c)
    (messages : next.messages c = server.messages c) (started : next.started c = server.started c)
    (awaits : ∀ call, next.threadpool.Awaits call → call.conn = c →
      server.threadpool.Awaits call) : Follows next c alone where
  -- The connection, its messages and its calls that began are the same,
  -- and a call that waits now waited before.
  shared := by rw [conns]; exact follows.shared
  counted := by rw [messages]; exact follows.counted
  begun := by rw [conns, started]; exact follows.begun
  known := by rw [messages, started]; exact follows.known
  tasks := by rw [conns, started]; exact follows.tasks
  once := by rw [started]; exact follows.once
  awaits call waits own := by
    rw [started]
    exact follows.awaits call (awaits call waits own) own

/-- A chunk is delivered to the double, whose new task is the call that was bound, if one was. -/
theorem receive (follows : Follows server c alone)
    (conns : next.conns c = (server.conns c).receive chunk)
    (messages : next.messages c = server.messages c + 1)
    (started : next.started c = server.started c)
    (awaits : ∀ call, next.threadpool.Awaits call → call.conn = c →
      server.threadpool.Awaits call ∨ call = server.bind c chunk)
    (earlier : ∀ call, server.threadpool.Awaits call → call.conn = c →
      call.message < server.messages c) :
    Follows next c (alone.onServerMessage chunk) where
  shared := by
    rw [conns, ← follows.shared]
    rfl
  counted := by
    rw [messages, ← follows.counted]
    rfl
  begun := by
    rw [conns, started]
    exact follows.begun
  known m member := by
    rw [messages]
    rw [started] at member
    exact Nat.lt_succ_of_lt (follows.known m member)
  tasks i m found := by
    rw [started] at found
    rw [conns, Connection.onServerMessage_other chunk (Nat.ne_of_lt (follows.lt_of_begun found))]
    exact follows.tasks i m found
  once := by rw [started]; exact follows.once
  awaits call waits own := by
    rw [started]
    rcases awaits call waits own with before | rfl
    · obtain ⟨unbegun, task⟩ := follows.awaits call before own
      have below := earlier call before own
      rw [← follows.counted] at below
      exact ⟨unbegun, by rw [Connection.onServerMessage_other chunk (Nat.ne_of_lt below), task]⟩
    · -- The new call is for a message that came after all that have begun.
      refine ⟨fun member => Nat.lt_irrefl _ (follows.known _ member), ?_⟩
      show (alone.onServerMessage chunk).tasks (server.messages c) = _
      rw [← follows.counted, Connection.onServerMessage_new, follows.buf]
      rfl

/-- A thread that begins a call works on the queued task of the double. -/
theorem begin_ (follows : Follows server c alone) (own : call.conn = c)
    (waits : server.threadpool.Awaits call) (known : call.message < server.messages c)
    (conns : next.conns c = (server.conns c).call call.buff)
    (messages : next.messages c = server.messages c)
    (started : next.started c = server.started c ++ [call.message])
    (awaits : ∀ other, next.threadpool.Awaits other → other.conn = c →
      server.threadpool.Awaits other ∧ other.message ≠ call.message) : Follows next c alone where
  shared := by rw [conns]; exact follows.shared
  counted := by rw [messages]; exact follows.counted
  begun := by
    rw [conns, started, List.length_append, List.length_singleton, follows.begun]
    rfl
  known m member := by
    rw [messages]
    rw [started] at member
    rcases List.mem_append.mp member with before | now
    · exact follows.known m before
    · rw [List.mem_singleton] at now
      rwa [now]
  tasks i m found := by
    rw [conns]
    rw [started] at found
    by_cases before : i < (server.started c).length
    · -- A call that had begun before has kept its number.
      rw [List.getElem?_append_left before] at found
      have other : i ≠ (server.conns c).taskCount := by
        rw [← follows.begun]
        exact Nat.ne_of_lt before
      show Function.update _ _ _ i = _
      rw [Function.update_of_ne other]
      exact follows.tasks i m found
    · rw [List.getElem?_append_right (Nat.le_of_not_lt before), List.getElem?_singleton] at found
      split at found
      · rename_i last
        cases found
        have here : i = (server.conns c).taskCount := by
          rw [← follows.begun]
          omega
        subst here
        rw [(follows.awaits call waits own).2]
        exact Function.update_self _ _ _
      · cases found
  once := by
    rw [started, List.nodup_append]
    refine ⟨follows.once, List.nodup_singleton _, fun m member other now same => ?_⟩
    rw [List.mem_singleton] at now
    subst now
    exact (follows.awaits call waits own).1 (same ▸ member)
  awaits other waiting ownOther := by
    obtain ⟨before, differs⟩ := awaits other waiting ownOther
    obtain ⟨unbegun, task⟩ := follows.awaits other before ownOther
    refine ⟨?_, task⟩
    rw [started, List.mem_append, List.mem_singleton]
    exact fun either => either.elim unbegun differs

/-- The double takes the step of a call as a step of the task for the call's message. -/
theorem work {conn : Connection} {assertions : Bool} (follows : Follows server c alone)
    (found : (server.started c)[i]? = some m)
    (worked : (server.conns c).work assertions i content = some conn)
    (conns : next.conns c = conn) (messages : next.messages c = server.messages c)
    (started : next.started c = server.started c)
    (threadpool : next.threadpool = server.threadpool) :
    ∃ moved, alone.work assertions m content = some moved ∧ Follows next c moved := by
  have same : alone.tasks m = (server.conns c).tasks i := (follows.tasks i m found).symm
  have moved := Connection.work_withTasks (n := alone.taskCount) same worked
  rw [follows.shared] at moved
  refine ⟨_, moved, ?_⟩
  -- The two take the step on their own tasks, which are the same afterwards.
  refine ⟨by rw [conns]; rfl, by rw [messages]; exact follows.counted, ?_, ?_, ?_, ?_, ?_⟩
  · rw [conns, started, Connection.work_taskCount worked]
    exact follows.begun
  · rw [messages, started]
    exact follows.known
  · intro j l foundOther
    rw [started] at foundOther
    rw [conns]
    show _ = Function.update alone.tasks m (conn.tasks i) l
    by_cases own : j = i
    · subst own
      rw [found, Option.some.injEq] at foundOther
      rw [← foundOther, Function.update_self]
    · -- Different calls are for different messages.
      have other : l ≠ m := by
        rintro rfl
        have inside := (List.getElem?_eq_some_iff.mp foundOther).1
        exact own ((List.getElem?_inj inside follows.once).mp (foundOther.trans found.symm))
      rw [Function.update_of_ne other, Connection.work_other own worked]
      exact follows.tasks j l foundOther
  · rw [started]
    exact follows.once
  · intro call waits own
    rw [threadpool] at waits
    obtain ⟨unbegun, task⟩ := follows.awaits call waits own
    rw [started]
    refine ⟨unbegun, ?_⟩
    have other : call.message ≠ m := fun same => unbegun (same ▸ List.mem_of_getElem? found)
    show Function.update alone.tasks m (conn.tasks i) call.message = _
    rw [Function.update_of_ne other]
    exact task

/-- The network does to the double what it does to the connection. -/
theorem network {conn : Connection} {memory : RelayMemory} {assertions : Bool}
    {event : ConnectionStep} (follows : Follows server c alone) (outside : event.fromNetwork)
    (stepped : (connectionMachine memory assertions).step (server.conns c) event = some conn)
    (conns : next.conns c = conn) (messages : next.messages c = server.messages c)
    (started : next.started c = server.started c)
    (threadpool : next.threadpool = server.threadpool) :
    ∃ moved, (connectionMachine memory assertions).step alone event = some moved ∧
      Follows next c moved := by
  -- The event does not look at the calls, so the connection alone takes it as well.
  have moved : (connectionMachine memory assertions).step
      ((server.conns c).withTasks alone.tasks alone.taskCount) event =
        some (conn.withTasks alone.tasks alone.taskCount) :=
    Connection.network_withTasks outside stepped
  rw [follows.shared] at moved
  have still := Connection.network_tasks outside stepped
  refine ⟨_, moved, by rw [conns]; rfl, by rw [messages]; exact follows.counted, ?_, ?_, ?_, ?_, ?_⟩
  · rw [conns, started, still.2]
    exact follows.begun
  · rw [messages, started]
    exact follows.known
  · rw [conns, started, still.1]
    exact follows.tasks
  · rw [started]
    exact follows.once
  · rw [threadpool, started]
    exact follows.awaits

end Follows

namespace InService

variable {server next : ProxyServer} {setting : ServerSetting} {alone : Connection} {c k i : Nat}
  {label : ServerStep}

/-- A new process. -/
theorem start : InService {} where
  -- No segment was granted and no thread runs.
  ledger := Ledger.start
  assigned := Assigned.start
  running _ _ _ inside := by cases inside
  sound _ _ := rfl
  noEmptyCall := by simp

/-- The id that a thread is about to read holds a bound call, which awaits it. -/
theorem readable (service : InService server) {pool : Pool (Option BoundCall)}
    (read : server.threadpool.readSlot k = some pool) : ∃ call,
      server.threadpool.queue.read (server.threadpool.consumers k).readId = some call ∧
        server.threadpool.Holds (.slot (server.threadpool.consumers k).readId) call ∧
        ¬ server.threadpool.Returned (server.threadpool.consumers k).readId := by
  -- What is read is an accepted id that was not read before, and an accepted task is a call.
  obtain ⟨reading, -⟩ := Pool.readSlot_eq_some.mp read
  have unread := service.ledger.custody.reading k reading
  obtain ⟨accepted, fresh⟩ := service.ledger.readable_id unread
  obtain ⟨call, found⟩ := Option.ne_none_iff_exists'.mp (service.assigned.bound _ accepted)
  replace found :
      server.threadpool.queue.read (server.threadpool.consumers k).readId = some call := found
  rw [found] at accepted
  exact ⟨call, found, accepted, fresh⟩

/-- A connection that loses no task keeps those that the threads are in. -/
theorem running_update (service : InService server) {conn : Connection}
    (grows : (server.conns c).taskCount ≤ conn.taskCount) (k d i : Nat)
    (inside : server.running k = some (d, i)) :
    i < (Function.update server.conns c conn d).taskCount := by
  -- The connection keeps its calls or gets one more.
  have below := service.running k d i inside
  by_cases own : d = c
  · subst own
    rw [Function.update_self]
    exact below.trans_le grows
  · rwa [Function.update_of_ne own]

/-- While the process runs, a connection without a fault may take the place of another. -/
theorem sound_update (service : InService server) {conn : Connection}
    (alive : server.fault = none) (unharmed : conn.fault = none) (d : Nat) :
    (Function.update server.conns c conn d).fault = none := by
  -- The connection that is put has no fault by assumption, nor have the others.
  by_cases own : d = c
  · subst own
    rwa [Function.update_self]
  · rw [Function.update_of_ne own]
    exact service.sound alive d

/-- A connection that moves on leaves the others as they are, and ends the process with it. -/
theorem setConn (service : InService server) {conn : Connection} (running : Nat → Option (Nat × Nat))
    (shorter : ∀ k, running k = server.running k ∨ running k = none)
    (count : conn.taskCount = (server.conns c).taskCount) (alive : server.fault = none) :
    InService { server.setConn c conn with running := running } where
  -- The ring is untouched, and a thread runs what it ran before or nothing.
  ledger := service.ledger
  assigned := service.assigned
  running k d i inside := by
    refine service.running_update (Nat.le_of_eq count.symm) k d i ?_
    rcases shorter k with same | none_
    · exact same.symm.trans inside
    · cases none_.symm.trans inside
  sound ended := service.sound_update alive (Option.map_eq_none_iff.mp ended)
  noEmptyCall ended := by
    obtain ⟨fault, -, same⟩ := Option.map_eq_some_iff.mp ended
    cases same

/-- Every careful step keeps the server in service. -/
theorem step (service : InService server) (careful : server.Careful setting label)
    (stepped : (serverMachine setting).step server label = some next) : InService next := by
  have alive := ProxyServer.running_of_step stepped
  have ledger : Ledger next.threadpool := by
    rcases ProxyServer.pool_of_step stepped with ⟨-, same⟩ | ⟨poolLabel, contains, moved⟩
    · rw [same]
      exact service.ledger
    · exact service.ledger.step (careful poolLabel contains) moved
  -- One case for each kind of step.
  cases label with
  | startThreads =>
    cases ProxyServer.act_of_step stepped
    exact ⟨ledger, service.assigned, service.running, service.sound, service.noEmptyCall⟩
  | message d chunk =>
    -- The buffer of the connection grows, and its tasks stay as they are.
    have running := service.running_update (c := d)
      (Nat.le_refl ((server.conns d).receive chunk).taskCount)
    have sound (e : Nat) :
        (Function.update server.conns d ((server.conns d).receive chunk) e).fault = none :=
      service.sound_update alive
        (show ((server.conns d).receive chunk).fault = none from service.sound alive d) e
    rcases ProxyServer.message_cases stepped with ⟨-, rfl⟩ | ⟨p, pool, -, called, rfl⟩
    · exact ⟨ledger, service.assigned.skip d, running, fun _ => sound, service.noEmptyCall⟩
    · exact ⟨ledger, service.assigned.callWrite rfl called, running, fun _ => sound,
        service.noEmptyCall⟩
  | writeSlot p =>
    obtain ⟨pool, wrote, rfl⟩ := ProxyServer.writeSlot_cases stepped
    exact ⟨ledger, service.assigned.writeSlot wrote, service.running, service.sound,
      service.noEmptyCall⟩
  | callRead k =>
    obtain ⟨pool, called, rfl⟩ := ProxyServer.callRead_cases stepped
    refine ⟨ledger, ?_, service.running, service.sound, service.noEmptyCall⟩
    rcases Pool.callRead_cases called with ⟨-, space, -, rfl⟩ | ⟨-, rfl⟩
    · exact service.assigned.consuming rfl rfl
    · exact service.assigned.consuming rfl rfl
  | readSlot k =>
    obtain ⟨pool, read, either⟩ := ProxyServer.readSlot_cases stepped
    obtain ⟨call, found, -, -⟩ := service.readable read
    rcases either with none_ | ⟨begun, -, rfl⟩
    · cases none_.symm.trans found
    · have assigned : Assigned pool server.messages := by
        obtain ⟨-, rfl⟩ := Pool.readSlot_eq_some.mp read
        exact service.assigned.consuming rfl rfl
      refine ⟨ledger, assigned, fun l d i inside => ?_, fun _ => ?_, service.noEmptyCall⟩
      · by_cases own : l = k
        · -- The thread is in the newest call of the connection.
          subst own
          simp only [ProxyServer.begin_, Function.update_self, Option.some.injEq, Prod.mk.injEq]
            at inside
          obtain ⟨rfl, rfl⟩ := inside
          simp [ProxyServer.begin_, Connection.call]
        · simp only [ProxyServer.begin_, Function.update_of_ne own] at inside
          exact service.running_update (Nat.le_succ _) l d i inside
      · exact service.sound_update alive (service.sound alive begun.conn)
  | work k content =>
    obtain ⟨d, i, conn, inside, worked, running, rfl, shorter⟩ := ProxyServer.work_cases stepped
    exact service.setConn running shorter (Connection.work_taskCount worked) alive
  | network d event =>
    obtain ⟨outside, conn, moved, rfl⟩ := ProxyServer.network_cases stepped
    exact service.setConn server.running (fun _ => .inl rfl)
      (Connection.network_tasks outside moved).2 alive

end InService

namespace Follows

variable {server next : ProxyServer} {setting : ServerSetting} {alone : Connection} {c : Nat}
  {label : ServerStep}

/-- A step of a connection alone is a run of one step. -/
theorem single {moved : Connection} {step : ConnectionStep} {memory : RelayMemory}
    {assertions : Bool} (stepped : (connectionMachine memory assertions).step alone step = some moved)
    (follows : Follows next c moved) : ∃ steps last,
      (connectionMachine memory assertions).run alone steps = some last ∧ Follows next c last :=
  ⟨[step], moved, by rw [Machine.run_cons, stepped]; rfl, follows⟩

/-- The double of a connection takes a step of its own for a step of the server that concerns it, and
else stays as it is. -/
theorem step (follows : Follows server c alone) (service : InService server)
    (stepped : (serverMachine setting).step server label = some next) : ∃ steps moved,
      (connectionMachine setting.memory setting.assertions).run alone steps = some moved ∧
        Follows next c moved := by
  have alive := ProxyServer.running_of_step stepped
  have sound : alone.fault = none := follows.fault.trans (service.sound alive c)
  -- Where the connection is not concerned, its double does nothing.
  have stays (kept : Follows next c alone) : ∃ steps moved,
      (connectionMachine setting.memory setting.assertions).run alone steps = some moved ∧
        Follows next c moved := ⟨[], alone, rfl, kept⟩
  cases label with
  | startThreads =>
    cases ProxyServer.act_of_step stepped
    exact stays (follows.elsewhere rfl rfl rfl fun _ waits _ => waits)
  | message d chunk =>
    have earlier (call : BoundCall) (waits : server.threadpool.Awaits call) (own : call.conn = c) :
        call.message < server.messages c := by
      obtain ⟨place, holds, -⟩ := waits
      exact own ▸ service.assigned.known place call holds
    -- The only call that may await its thread now is the one bound here.
    have bound (call : BoundCall) (waits : next.threadpool.Awaits call) :
        server.threadpool.Awaits call ∨ call = server.bind d chunk := by
      rcases ProxyServer.message_cases stepped with ⟨-, rfl⟩ | ⟨p, pool, -, called, rfl⟩
      · exact .inl waits
      · exact Pool.awaits_callWrite called waits
    have conns : next.conns = Function.update server.conns d ((server.conns d).receive chunk) ∧
        next.messages = Function.update server.messages d (server.messages d + 1) ∧
        next.started = server.started := by
      rcases ProxyServer.message_cases stepped with ⟨-, rfl⟩ | ⟨p, pool, -, called, rfl⟩
      · exact ⟨rfl, rfl, rfl⟩
      · exact ⟨rfl, rfl, rfl⟩
    by_cases own : d = c
    · subst own
      have delivered : (connectionMachine setting.memory setting.assertions).step alone
          (.deliver chunk) = some (alone.onServerMessage chunk) := by
        simp [connectionMachine, sound]
      refine single delivered (follows.receive ?_ ?_ ?_ (fun call waits _ => bound call waits) earlier)
      · rw [conns.1, Function.update_self]
      · rw [conns.2.1, Function.update_self]
      · rw [conns.2.2]
    · refine stays (follows.elsewhere ?_ ?_ ?_ fun call waits mine => ?_)
      · rw [conns.1, Function.update_of_ne (Ne.symm own)]
      · rw [conns.2.1, Function.update_of_ne (Ne.symm own)]
      · rw [conns.2.2]
      · refine (bound call waits).resolve_right ?_
        rintro rfl
        exact own mine
  | writeSlot p =>
    obtain ⟨pool, wrote, rfl⟩ := ProxyServer.writeSlot_cases stepped
    exact stays (follows.elsewhere rfl rfl rfl fun _ waits _ => Pool.awaits_writeSlot wrote waits)
  | callRead k =>
    obtain ⟨pool, called, rfl⟩ := ProxyServer.callRead_cases stepped
    exact stays (follows.elsewhere rfl rfl rfl fun _ waits _ => Pool.awaits_callRead called waits)
  | readSlot k =>
    obtain ⟨pool, read, either⟩ := ProxyServer.readSlot_cases stepped
    obtain ⟨call, found, holds, fresh⟩ := service.readable read
    rcases either with none_ | ⟨begun, same, rfl⟩
    · cases none_.symm.trans found
    · obtain rfl : begun = call := Option.some.inj (same.symm.trans found)
      have waits : server.threadpool.Awaits begun :=
        ⟨_, holds, fun id slot => by cases slot; exact fresh⟩
      -- No other call for this message awaits a thread.
      have others (other : BoundCall) (waiting : pool.Awaits other)
          (sameConn : other.conn = begun.conn) :
          server.threadpool.Awaits other ∧ other.message ≠ begun.message := by
        obtain ⟨place, before, elsewhere, unread⟩ := Pool.awaits_readSlot read waiting
        refine ⟨⟨place, before, unread⟩, fun sameMessage => elsewhere ?_⟩
        exact service.assigned.apart _ _ other begun before holds sameConn sameMessage
      by_cases own : begun.conn = c
      · subst own
        refine stays (follows.begin_ rfl waits (service.assigned.known _ _ holds) ?_ rfl ?_ others)
        · exact Function.update_self _ _ _
        · exact Function.update_self _ _ _
      · refine stays (follows.elsewhere ?_ rfl ?_ fun other waiting _ => ?_)
        · exact Function.update_of_ne (Ne.symm own) _ _
        · exact Function.update_of_ne (Ne.symm own) _ _
        · obtain ⟨place, before, -, unread⟩ := Pool.awaits_readSlot read waiting
          exact ⟨place, before, unread⟩
  | work k content =>
    obtain ⟨d, i, conn, inside, worked, running, rfl, -⟩ := ProxyServer.work_cases stepped
    by_cases own : d = c
    · subst own
      -- The call has begun, so it is the task for some message.
      have below := service.running k d i inside
      rw [← follows.begun] at below
      have found := List.getElem?_eq_getElem below
      obtain ⟨moved, workedAlone, kept⟩ : ∃ moved,
          alone.work setting.assertions (server.started d)[i] content = some moved ∧
            Follows { server.setConn d conn with running := running } d moved :=
        follows.work found worked (Function.update_self _ _ _) rfl rfl rfl
      have steppedAlone : (connectionMachine setting.memory setting.assertions).step alone
          (.work (server.started d)[i] content) = some moved := by
        simpa [connectionMachine, sound] using workedAlone
      exact single steppedAlone kept
    · exact stays (follows.elsewhere (Function.update_of_ne (Ne.symm own) _ _) rfl rfl
        fun _ waits _ => waits)
  | network d event =>
    obtain ⟨outside, conn, happened, rfl⟩ := ProxyServer.network_cases stepped
    by_cases own : d = c
    · subst own
      obtain ⟨moved, happenedAlone, kept⟩ : ∃ moved,
          (connectionMachine setting.memory setting.assertions).step alone event = some moved ∧
            Follows (server.setConn d conn) d moved :=
        follows.network outside happened (Function.update_self _ _ _) rfl rfl rfl
      exact single happenedAlone kept
    · exact stays (follows.elsewhere (Function.update_of_ne (Ne.symm own) _ _) rfl rfl
        fun _ waits _ => waits)

end Follows

/-- Two I/O loops with a producer each: connection 1 is in the second loop, the others in the first.
-/
def twoLoops : ServerSetting where
  memory := { atBufferObject := fun _ => [], behindVector := [] }
  assertions := true
  producerOf c := some (if c = 1 then 1 else 0)

/-- The request `Get /` of connection 0. -/
def firstRequest : Bytes := ascii ['G', 'e', 't', ' ', '/', ' ', '1', '\r', '\n', '\r', '\n']

/-- The four threads start, connection 0 sends its request, and further connections of its loop send
a byte each. -/
def crowd : Nat → List ServerStep
  | 0 => [.startThreads, .message 0 firstRequest, .writeSlot 0]
  | others + 1 => crowd others ++ [.message (others + 2) [71], .writeSlot 0]

/-- The first segment is with the first loop's producer, which has put so many calls in it, and the
request is in its first slot. -/
structure Crowded (server : ProxyServer) (calls granted : Nat) : Prop where
  alive : server.fault = none
  threads : server.threads = 4
  running : server.running = fun _ => none
  started : server.started = fun _ => []
  request : server.conns 0 = ({} : Connection).receive firstRequest
  producer : server.threadpool.producers 0 =
    { writeId := 0, curWriteId := calls, writableId := trySize }
  empty : server.threadpool.queue.readableQueue = ∅
  granted : server.threadpool.queue.writeId = granted
  stored : server.threadpool.queue.circleArray 0 =
    some { conn := 0, buff := firstRequest, message := 0 }
  untaken : server.threadpool.taken = []
  idle : server.threadpool.consumers = fun _ => {}

/-- A message whose call goes to the ring and is written there. -/
theorem run_message {server : ProxyServer} (setting : ServerSetting) {c p : Nat} {chunk : Bytes}
    {pool : Pool (Option BoundCall)} (alive : server.fault = none)
    (producer : setting.producerOf c = some p)
    (ran : (poolMachine _).run server.threadpool
      [.callWrite p (some (server.bind c chunk)), .writeSlot p] = some pool) :
    (serverMachine setting).run server [.message c chunk, .writeSlot p] =
      some { server.receive c chunk with threadpool := pool } := by
  obtain ⟨called, stepped, wrote⟩ := Option.bind_eq_some_iff.mp ran
  obtain ⟨last, steppedToo, ended⟩ := Option.bind_eq_some_iff.mp wrote
  cases ended
  -- The ring takes the same two steps.
  have first : (serverMachine setting).step server (.message c chunk) =
      some { server.receive c chunk with threadpool := called } := by
    replace stepped : server.threadpool.callWrite p (some (server.bind c chunk)) = some called :=
      stepped
    simp [serverMachine, alive, ProxyServer.act, ProxyServer.onServerMessage, producer, stepped]
  have second : (serverMachine setting).step { server.receive c chunk with threadpool := called }
      (.writeSlot p) = some { server.receive c chunk with threadpool := pool } := by
    replace steppedToo : called.writeSlot p = some pool := steppedToo
    simp [serverMachine, ProxyServer.receive, alive, ProxyServer.act, steppedToo]
  rw [Machine.run_cons, first, Option.bind_some, Machine.run_cons, second]
  rfl

/-- The threads start, and the request goes to the first slot of the ring. -/
theorem crowd_zero_run :
    ∃ server, (serverMachine twoLoops).run {} (crowd 0) = some server ∧
      Crowded server 1 trySize ∧ ∀ p, p ≠ 0 → server.threadpool.producers p = {} := by
  let begun : ProxyServer := { threads := 4 }
  have started : (serverMachine twoLoops).run {} [.startThreads] = some begun := rfl
  -- The ring is new, and the producer gets its first segment.
  have empty : begun.threadpool.queue.readableQueue = ∅ := rfl
  have fresh : begun.threadpool.producers 0 = {} := rfl
  have wrote := run_fresh empty fresh (some (begun.bind 0 firstRequest))
  have received := run_message twoLoops (show begun.fault = none from rfl)
    (show twoLoops.producerOf 0 = some 0 from rfl) wrote
  rw [crowd]
  refine ⟨_, Machine.run_trans _ started received, ?_, fun p other => Pool.afterFirst_other other⟩
  exact {
    alive := rfl
    threads := rfl
    running := rfl
    started := rfl
    request := rfl
    producer := Pool.afterFirst_own
    empty := rfl
    granted := rfl
    stored := rfl
    untaken := rfl
    idle := rfl }

/-- A further connection's call goes to another slot, whoever its producer is. -/
theorem Crowded.message {server : ProxyServer} {calls granted c id next later : Nat}
    {chunk : Bytes} {producers : Nat → Producer (Option BoundCall)}
    {accepted : List (Nat × Option BoundCall)} (crowded : Crowded server calls granted)
    (other : c ≠ 0) (elsewhere : id % size ≠ 0)
    (producer : producers 0 = { writeId := 0, curWriteId := later, writableId := trySize }) :
    Crowded { server.receive c chunk with
      threadpool := { server.threadpool with
        queue := { server.threadpool.queue.write id (some (server.bind c chunk)) with
          writeId := next }
        producers := producers
        accepted := accepted } } later next where
  -- The new call lands in a slot other than the first, which keeps the request.
  alive := crowded.alive
  threads := crowded.threads
  running := crowded.running
  started := crowded.started
  request := (ProxyServer.receive_other (Ne.symm other)).trans crowded.request
  producer := producer
  empty := crowded.empty
  granted := rfl
  stored := (Function.update_of_ne (Ne.symm elsewhere) _ _).trans crowded.stored
  untaken := crowded.untaken
  idle := crowded.idle

/-- The first segment fills up with the calls of the first loop. -/
theorem crowd_run (others : Nat) (fits : others < trySize) :
    ∃ server, (serverMachine twoLoops).run {} (crowd others) = some server ∧
      Crowded server (others + 1) trySize ∧ ∀ p, p ≠ 0 → server.threadpool.producers p = {} := by
  induction others with
  | zero => exact crowd_zero_run
  | succ others ih =>
    obtain ⟨server, ran, crowded, fresh⟩ := ih (by omega)
    have goesOn : ¬ server.threadpool.Asks 0 := by
      rw [Pool.Asks, crowded.producer]
      simp only [trySize] at *
      omega
    have wrote := run_goesOn goesOn (by rw [crowded.producer])
      (some (server.bind (others + 2) [71]))
    have received := run_message twoLoops crowded.alive (by simp [twoLoops]) wrote
    -- The call goes to the next slot of the segment.
    have elsewhere : (server.threadpool.producers 0).curWriteId % size ≠ 0 := by
      rw [crowded.producer]
      simp only [trySize, size] at *
      omega
    rw [crowd]
    refine ⟨_, Machine.run_trans _ ran received, ?_, ?_⟩
    · have same := crowded.granted
      rw [← same]
      exact crowded.message (by omega) elsewhere (by simp [crowded.producer])
    · intro p other
      exact (Function.update_of_ne other _ _).trans (fresh p other)

/-- The calls of the first loop fill its segment, the second loop receives one, and a further
message of the first loop announces what it has filled. -/
def crowdAnnounced : List ServerStep :=
  crowd 1023 ++ ([.message 1 [71], .writeSlot 1] ++ [.message 1025 [71]])

/-- A thread then takes the segment, and serves the request with the response of the cache. -/
def crowdServed : List ServerStep :=
  crowdAnnounced ++ ([.callRead 0, .readSlot 0] ++ List.replicate 7 (.work 0 [97]))

-- The runs are too long to be replayed, and their lemmas say where they lead.
attribute [irreducible] crowd crowdAnnounced crowdServed

/-- The request is in the one readable segment, and nobody reads yet. -/
structure Announced (server : ProxyServer) : Prop where
  alive : server.fault = none
  threads : server.threads = 4
  running : server.running = fun _ => none
  started : server.started = fun _ => []
  request : server.conns 0 = ({} : Connection).receive firstRequest
  readable : server.threadpool.queue.readableQueue = {⟨0, trySize⟩}
  stored : server.threadpool.queue.circleArray 0 =
    some { conn := 0, buff := firstRequest, message := 0 }
  idle : server.threadpool.consumers = fun _ => {}

/-- Everything up to the announcement was careful, and the request is in the one readable segment. -/
theorem crowdAnnounced_run :
    ∃ server, (serverMachine twoLoops).run {} crowdAnnounced = some server ∧
      (serverMachine twoLoops).Meets (fun server => server.Careful twoLoops) {} crowdAnnounced ∧
      Announced server := by
  obtain ⟨server, ran, crowded, fresh⟩ := crowd_run 1023 (by decide)
  -- The second loop's producer is granted the second segment.
  have wrote := run_fresh crowded.empty (fresh 1 (by decide)) (some (server.bind 1 [71]))
  have received := run_message twoLoops crowded.alive
    (show twoLoops.producerOf 1 = some 1 from rfl) wrote
  have elsewhere : server.threadpool.queue.writeId % size ≠ 0 := by
    rw [crowded.granted]
    decide
  have next : server.threadpool.queue.writeId + trySize = 2 * trySize := by
    rw [crowded.granted]
    rfl
  generalize second : ({ server.receive 1 [71] with
    threadpool := server.threadpool.afterFirst 1 (some (server.bind 1 [71])) } : ProxyServer) =
      later at received
  have crowdedLater : Crowded later 1024 (2 * trySize) := by
    rw [← second, ← next]
    apply crowded.message (by decide) elsewhere
    have other : (0 : Nat) ≠ 1 := by decide
    exact (Function.update_of_ne other _ _).trans crowded.producer
  -- The first loop's producer has used up its own.
  obtain ⟨-, granted, readable, slots⟩ := callWrite_full crowdedLater.empty
    (Dvd.intro_left 2 crowdedLater.granted.symm) (by rw [crowdedLater.granted]; decide)
    crowdedLater.producer (some (later.bind 1025 [71]))
  have announced : (serverMachine twoLoops).run later [.message 1025 [71]] =
      some { later.receive 1025 [71] with
        threadpool := (later.threadpool.announce 0).grant 0 (some (later.bind 1025 [71])) } := by
    have act : later.onServerMessage twoLoops 1025 [71] =
        some { later.receive 1025 [71] with
          threadpool := (later.threadpool.announce 0).grant 0 (some (later.bind 1025 [71])) } := by
      simp [ProxyServer.onServerMessage, twoLoops, granted]
    simp [Machine.run_cons, serverMachine, crowdedLater.alive, ProxyServer.act, act]
  have ranAll := Machine.run_trans _ ran (Machine.run_trans _ received announced)
  have lap : (later.threadpool.announce 0).queue.writeId + trySize ≤ size := by
    rw [Pool.announce_writeId, crowdedLater.granted]
    decide
  have request : (later.receive 1025 [71]).conns 0 = ({} : Connection).receive firstRequest :=
    (ProxyServer.receive_other (by decide)).trans crowdedLater.request
  rw [crowdAnnounced]
  refine ⟨_, ranAll, ProxyServer.careful_of_lap ranAll lap crowdedLater.untaken, ?_⟩
  exact {
    alive := crowdedLater.alive
    threads := crowdedLater.threads
    running := crowdedLater.running
    started := crowdedLater.started
    request := request
    readable := readable
    stored := (congrFun slots 0).trans crowdedLater.stored
    idle := crowdedLater.idle }

/-- A thread runs the call it is in to its end, as the connection alone would. -/
theorem run_work {setting : ServerSetting} {k c i : Nat} {content : Bytes} (steps : Nat) :
    ∀ {server : ProxyServer} {conn : Connection}, server.fault = none →
      server.running k = some (c, i) →
      (connectionMachine setting.memory setting.assertions).run (server.conns c)
        (List.replicate (steps + 1) (.work i content)) = some conn →
      (conn.tasks i).pc = .finished →
      ∃ last, (serverMachine setting).run server
          (List.replicate (steps + 1) (.work k content)) = some last ∧
        last.conns c = conn ∧ last.running k = none ∧ last.started = server.started := by
  induction steps with
  | zero =>
    intro server conn alive inside ran ended
    obtain ⟨moved, stepped, done⟩ := Option.bind_eq_some_iff.mp ran
    cases done
    have worked := Connection.work_of_step stepped
    refine ⟨{ server.setConn c conn with running := Function.update server.running k none }, ?_,
      Function.update_self _ _ _, Function.update_self _ _ _, rfl⟩
    simp [Machine.run_cons, serverMachine, alive, ProxyServer.act, ProxyServer.work, inside, worked,
      ended]
  | succ steps ih =>
    intro server conn alive inside ran ended
    obtain ⟨moved, stepped, ranRest⟩ := Option.bind_eq_some_iff.mp ran
    have worked := Connection.work_of_step stepped
    -- The next step of the call shows that it has not come to its end here.
    obtain ⟨later, steppedNext, -⟩ := Option.bind_eq_some_iff.mp ranRest
    have sound := Connection.running_of_step steppedNext
    have goesOn : (moved.tasks i).pc ≠ .finished := by
      intro finished
      have none_ := Connection.work_of_step steppedNext
      simp [Connection.work, finished] at none_
    have first : (serverMachine setting).step server (.work k content) =
        some (server.setConn c moved) := by
      simp [serverMachine, alive, ProxyServer.act, ProxyServer.work, inside, worked, goesOn]
    have own : (server.setConn c moved).conns c = moved := Function.update_self _ _ _
    have aliveNext : (server.setConn c moved).fault = none := by
      simp [ProxyServer.setConn, sound]
    obtain ⟨last, ranLast, facts⟩ := ih aliveNext inside (own.symm ▸ ranRest) ended
    refine ⟨last, ?_, facts⟩
    rw [List.replicate_succ, Machine.run_cons, first]
    exact ranLast

/-- Alone, the call of the request answers it with the response of the cache. -/
theorem answer_run : ∃ conn, (connectionMachine twoLoops.memory twoLoops.assertions).run
      ((({} : Connection).receive firstRequest).call firstRequest)
      (List.replicate (6 + 1) (.work 0 [97])) = some conn ∧
    (conn.tasks 0).pc = .finished ∧ conn.handled = [.answered [97] firstRequest] :=
  ⟨_, rfl, rfl, rfl⟩

/-- The first thread takes the segment, begins the call of the request, and comes to its end. -/
theorem crowdServed_run : ∃ server, (serverMachine twoLoops).run {} crowdServed = some server ∧
    server.started 0 = [0] ∧ server.running 0 = none ∧
    (server.conns 0).handled = [.answered [97] firstRequest] := by
  obtain ⟨⟨threadpool, threads, conns, running, fault, messages, started⟩, ran, -, announced⟩ :=
    crowdAnnounced_run
  obtain rfl : fault = none := announced.alive
  obtain rfl : threads = 4 := announced.threads
  obtain rfl : running = fun _ => none := announced.running
  obtain rfl : started = fun _ => [] := announced.started
  have request : conns 0 = ({} : Connection).receive firstRequest := announced.request
  -- The call is in the first slot of the segment that the thread takes.
  have took := callRead_first announced.readable (c := 0) (congrFun announced.idle 0)
  have slot : (threadpool.take 0 ⟨0, trySize⟩).queue.read
      ((threadpool.take 0 ⟨0, trySize⟩).consumers 0).readId =
        some { conn := 0, buff := firstRequest, message := 0 } := announced.stored
  obtain ⟨pool, read⟩ : ∃ pool, (threadpool.take 0 ⟨0, trySize⟩).readSlot 0 = some pool := ⟨_, rfl⟩
  let begun : ProxyServer := {
    ({ threads := 4, conns := conns, messages := messages } : ProxyServer).begin_ 0
      { conn := 0, buff := firstRequest, message := 0 } with threadpool := pool }
  have begins : (serverMachine twoLoops).run ⟨threadpool, 4, conns, fun _ => none, none, messages,
      fun _ => []⟩ [.callRead 0, .readSlot 0] = some begun := by
    simp [Machine.run_cons, serverMachine, ProxyServer.act, took, ProxyServer.readSlot, read, slot]
    rfl
  have own : begun.conns 0 = (({} : Connection).receive firstRequest).call firstRequest := by
    simp [begun, ProxyServer.begin_, request]
  have inside : begun.running 0 = some (0, 0) := by
    simp [begun, ProxyServer.begin_, request, Connection.receive]
  -- It is then served as it would be alone.
  obtain ⟨conn, ranAlone, ended, handled⟩ := answer_run
  obtain ⟨last, served, same, idle, startedLast⟩ :=
    run_work 6 (show begun.fault = none from rfl) inside (own.symm ▸ ranAlone) ended
  rw [crowdServed]
  refine ⟨last, Machine.run_trans _ ran (Machine.run_trans _ begins served), ?_, idle, ?_⟩
  · rw [startedLast]
    rfl
  · rw [same]
    exact handled

/-- The whole run is careful, as its reader announces nothing. -/
theorem crowdServed_careful :
    (serverMachine twoLoops).Meets (fun server => server.Careful twoLoops) {} crowdServed := by
  obtain ⟨server, ran, careful, -⟩ := crowdAnnounced_run
  rw [crowdServed, Machine.meets_append]
  refine ⟨careful, fun reached _ => Machine.meets_of_forall fun label member state => ?_⟩
  -- The labels left are a thread's.
  intro poolLabel contains
  rcases List.mem_append.mp member with reading | working
  · rcases List.mem_pair.mp reading with rfl | rfl
    · cases contains
      exact ⟨trivial, trivial⟩
    · cases contains
      exact ⟨trivial, trivial⟩
  · rw [List.eq_of_mem_replicate working] at contains
    cases contains

/-- In every run that leaves no segment of the ring in two hands, no empty function is called, and
each connection shows what a run of the connection alone shows, in which every call that a thread has
begun is the task for a message of its own. -/
theorem served_alone (setting : ServerSetting) {labels : List ServerStep} {last : ProxyServer}
    (careful : (serverMachine setting).Meets (fun server => server.Careful setting) {} labels)
    (ran : (serverMachine setting).run {} labels = some last) (c : Nat) :
    last.fault ≠ some .badFunctionCall ∧ ∃ steps alone,
      (connectionMachine setting.memory setting.assertions).run {} steps = some alone ∧
        Follows last c alone := by
  -- The two are stepped together: the server is in service, and the double follows.
  obtain ⟨steps, alone, ranAlone, service, follows⟩ := Machine.run_simulated
    (n := connectionMachine setting.memory setting.assertions)
    (fun server alone => InService server ∧ Follows server c alone)
    (fun server alone label next both careful stepped => by
      obtain ⟨steps, moved, ranAlone, follows⟩ := both.2.step both.1 stepped
      exact ⟨steps, moved, ranAlone, both.1.step careful stepped, follows⟩)
    ⟨InService.start, Follows.start c⟩ careful ran
  exact ⟨service.noEmptyCall, steps, alone, ranAlone, follows⟩

/-- With several connections in two I/O loops, a call is read and served while the others wait. -/
theorem served_alone_crowd : ∃ last,
    (serverMachine twoLoops).run {} crowdServed = some last ∧ last.started 0 = [0] ∧
      last.running 0 = none ∧ (last.conns 0).handled = [.answered [97] firstRequest] ∧
      (last.fault ≠ some .badFunctionCall ∧ ∃ steps alone,
        (connectionMachine twoLoops.memory twoLoops.assertions).run {} steps = some alone ∧
          Follows last 0 alone) := by
  obtain ⟨last, ran, started, running, handled⟩ := crowdServed_run
  exact ⟨last, ran, started, running, handled, served_alone twoLoops crowdServed_careful ran 0⟩

end EnhancedProxy
