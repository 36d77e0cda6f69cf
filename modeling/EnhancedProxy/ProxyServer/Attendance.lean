import EnhancedProxy.ProxyServer.Served
import EnhancedProxy.ThreadPool.Wakeup

/-! Every call of `solveOnMessage` that has begun and not returned is in the hands of one thread. -/

namespace EnhancedProxy

open CircleQueue

namespace Connection

variable {conn next : Connection} {i : Nat} {assertions : Bool} {content : Bytes}

/-- The task finds the context empty, and goes round its loop for nothing. -/
def Waits (conn : Connection) (i : Nat) : Prop :=
  (conn.tasks i).pc = .checkContext ∧ conn.context = none

instance (conn : Connection) (i : Nat) : Decidable (conn.Waits i) :=
  inferInstanceAs (Decidable (_ ∧ _))

/-- A call that takes a step has not returned, and returns only from the end of its code. -/
theorem work_pc (worked : conn.work assertions i content = some next) :
    (conn.tasks i).pc ≠ .finished ∧ (next.tasks i).pc ≠ .absent ∧
      ((next.tasks i).pc = .finished → (conn.tasks i).pc = .tail) := by
  have inside : (conn.tasks i).pc ≠ .absent ∧ (conn.tasks i).pc ≠ .finished := by
    constructor <;> (intro here; simp [work, here] at worked)
  obtain ⟨moved, event, same⟩ := streamEvent_of_work worked
  rw [same.tasks]
  refine ⟨inside.2, ?_⟩
  -- One case for each event in the code of a task.
  cases event with
  | elsewhere => exact ⟨inside.1, fun returned => absurd returned inside.2⟩
  | begin_ | copyBuffer | retrieve => simp [set_own, Task.drop]
  | enterLoop =>
    rw [set_own]
    rcases Task.loopHead_pc (conn.tasks i) conn.connected with pc | pc <;> simp [pc]
  | goOn _ _ task parsed buff info place =>
    rw [set_own]
    rcases place with parsedTask | pc
    · refine ⟨fun pc => ?_, fun pc => ?_⟩ <;> simp [pc, TaskPc.parsed] at parsedTask
    · simp [pc]
  | handle _ _ pc entry parsed owing bytes =>
    have own : ({ conn.set i { conn.tasks i with pc := pc } with
        handled := conn.handled ++ [entry] } : Connection).tasks i =
          { conn.tasks i with pc := pc } := set_own
    rw [own]
    constructor <;> (rintro rfl; cases owing)
  | overrun _ _ here => simp [retrieve, here]
  | leave _ _ here => exact ⟨by simp [set_own], fun _ => here⟩

/-- A call that has begun and not returned can take a step. -/
theorem work_of_open (assertions : Bool) (content : Bytes) (present : (conn.tasks i).pc ≠ .absent)
    (open_ : (conn.tasks i).pc ≠ .finished) :
    ∃ next, conn.work assertions i content = some next := by
  -- Every place but the two outside the call has a step; the cast has one on either outcome.
  cases here : (conn.tasks i).pc with
  | absent => exact absurd here present
  | finished => exact absurd here open_
  | castContext => cases context : conn.context <;> simp [work, here, context]
  | _ => simp [work, here]

/-- A step of a task adds nothing to the live buffer. -/
theorem work_buf (worked : conn.work assertions i content = some next) :
    next.buf.length ≤ conn.buf.length := by
  -- A call appends nothing to the buffer; at most it takes a request off.
  obtain ⟨moved, event, same⟩ := streamEvent_of_work worked
  rw [same.buf]
  cases event with
  | retrieve | overrun => simp [set, retrieve]
  | _ => exact Nat.le_refl _

end Connection

/-- The steps with which the I/O loops and the threads go on by themselves. -/
def ServerStep.inner : ServerStep → Bool
  | .writeSlot _ | .callRead _ | .readSlot _ | .work _ _ => true
  | _ => false

namespace ProxyServer

variable {server next : ProxyServer} {setting : ServerSetting} {c k : Nat} {content : Bytes}
  {call : BoundCall} {x y : Nat × Nat}

/-- The call under the number of its connection has begun. -/
def Begun (server : ProxyServer) (x : Nat × Nat) : Prop := x.2 < (server.conns x.1).taskCount

/-- The call under the number of its connection. -/
def taskOf (server : ProxyServer) (x : Nat × Nat) : Task := (server.conns x.1).tasks x.2

/-- The call finds no backend connection. -/
def AtTest (server : ProxyServer) (x : Nat × Nat) : Prop := (server.conns x.1).Waits x.2

/-- The step only takes a call round its loop. -/
def Spins (server : ProxyServer) : ServerStep → Prop
  | .work k _ => ∃ x, server.running k = some x ∧ server.AtTest x
  | _ => False

instance (server : ProxyServer) : ∀ label, Decidable (server.Spins label)
  | .work k _ => decidable_of_iff (∃ x ∈ server.running k, (server.conns x.1).Waits x.2) Iff.rfl
  | .startThreads | .message _ _ | .writeSlot _ | .callRead _ | .readSlot _ | .network _ _ =>
    inferInstanceAs (Decidable False)

/-- Neither an I/O loop nor a thread can go on without something new from outside. -/
def AtRest (setting : ServerSetting) (server : ProxyServer) : Prop :=
  ∀ label next, ServerStep.inner label → (serverMachine setting).step server label = some next →
    server.Spins label

/-- The number of the call that a thread begins. -/
def number (server : ProxyServer) (call : BoundCall) : Nat × Nat :=
  (call.conn, (server.conns call.conn).taskCount)

/-- One more call has begun. -/
theorem begun_begin (server : ProxyServer) (k : Nat) (call : BoundCall) (x : Nat × Nat) :
    (server.begin_ k call).Begun x ↔ server.Begun x ∨ x = server.number call := by
  -- The number of the new call is the first one not used on its connection.
  obtain ⟨d, i⟩ := x
  simp only [Begun, begin_, number, Prod.mk.injEq]
  by_cases own : d = call.conn
  · subst own
    simp only [Function.update_self, Connection.call, true_and]
    omega
  · simp [own]

/-- The new call is at its start. -/
theorem taskOf_begin_own (server : ProxyServer) (k : Nat) (call : BoundCall) :
    (server.begin_ k call).taskOf (server.number call) = { pc := .queued, buff := call.buff } := by
  simp [taskOf, begin_, number, Connection.call]

/-- The other calls stay where they are. -/
theorem taskOf_begin_other (k : Nat) (other : x ≠ server.number call) :
    (server.begin_ k call).taskOf x = server.taskOf x := by
  -- The call that begins is written at its own number.
  obtain ⟨d, i⟩ := x
  simp only [taskOf, begin_]
  by_cases own : d = call.conn
  · subst own
    have differs : i ≠ (server.conns call.conn).taskCount := by
      rintro rfl
      exact other rfl
    rw [Function.update_self]
    exact Function.update_of_ne differs _ _
  · rw [Function.update_of_ne own]

/-- A thread moves its own call alone. It leaves the call when that returns, and stays in it else. -/
theorem work_moves
    (stepped : (serverMachine setting).step server (.work k content) = some next) :
    ∃ x conn, server.running k = some x ∧
      (server.conns x.1).work setting.assertions x.2 content = some conn ∧
      (∀ y, next.Begun y ↔ server.Begun y) ∧ next.taskOf x = conn.tasks x.2 ∧
      (∀ y, y ≠ x → next.taskOf y = server.taskOf y) ∧
      ((next.taskOf x).pc = .finished ∧ next.running = Function.update server.running k none ∨
        (next.taskOf x).pc ≠ .finished ∧ next.running = server.running) := by
  obtain ⟨⟨c, i⟩, inside, moved⟩ := Option.bind_eq_some_iff.mp (act_of_step stepped)
  obtain ⟨conn, worked, rfl⟩ := Option.map_eq_some_iff.mp moved
  refine ⟨(c, i), conn, inside, worked, ?_⟩
  -- Whether the call returns or not, its connection is the only one that has changed.
  have changed : (server.setConn c conn).conns = Function.update server.conns c conn := rfl
  have begun (y : Nat × Nat) : (server.setConn c conn).Begun y ↔ server.Begun y := by
    rw [Begun, changed]
    by_cases own : y.1 = c
    · rw [Begun, own, Function.update_self, Connection.work_taskCount worked]
    · rw [Begun, Function.update_of_ne own]
  have here : (server.setConn c conn).taskOf (c, i) = conn.tasks i := by
    rw [taskOf, changed, Function.update_self]
  have others (y : Nat × Nat) (other : y ≠ (c, i)) :
      (server.setConn c conn).taskOf y = server.taskOf y := by
    rw [taskOf, changed]
    by_cases own : y.1 = c
    · have differs : y.2 ≠ i := fun same => other (Prod.ext own same)
      rw [taskOf, own, Function.update_self, Connection.work_other differs worked]
    · rw [taskOf, Function.update_of_ne own]
  split
  · rename_i returned
    exact ⟨begun, here, others, .inl ⟨(congrArg Task.pc here).trans returned, rfl⟩⟩
  · rename_i goesOn
    exact ⟨begun, here, others, .inr ⟨(congrArg Task.pc here).trans_ne goesOn, rfl⟩⟩

end ProxyServer

/-- Every call that has begun and not returned is in the hands of one thread. -/
structure Attended (server : ProxyServer) : Prop where
  begun : ∀ x, server.Begun x → (server.taskOf x).pc ≠ .absent
  held : ∀ x, server.Begun x → (server.taskOf x).pc ≠ .finished → ∃ k, server.running k = some x
  inside : ∀ k x, server.running k = some x → server.Begun x ∧ (server.taskOf x).pc ≠ .finished
  alone : ∀ k l x, server.running k = some x → server.running l = some x → k = l
  free : ∀ k, (server.threadpool.consumers k).reading = true → server.running k = none
  outside : ∀ k, server.threads ≤ k → server.running k = none ∧
    (server.threadpool.consumers k).readableId ≤ (server.threadpool.consumers k).readId

namespace Attended

variable {server next : ProxyServer} {setting : ServerSetting} {c k : Nat} {content : Bytes}
  {label : ServerStep}

/-- Without threads, nothing has begun. -/
theorem start : Attended {} where
  -- No call has begun, and no thread runs.
  begun _ below := absurd below (Nat.not_lt_zero _)
  held _ below := absurd below (Nat.not_lt_zero _)
  inside _ _ inside := by cases inside
  alone _ _ _ inside := by cases inside
  free _ _ := rfl
  outside _ _ := ⟨rfl, Nat.le_refl _⟩

/-- At rest every call that a thread is in finds the context empty. -/
theorem atTest_of_rest (attended : Attended server) (alive : server.fault = none)
    (rest : server.AtRest setting) {x : Nat × Nat} (inside : server.running k = some x) :
    server.AtTest x := by
  obtain ⟨begun, open_⟩ := attended.inside k x inside
  -- A call that has not returned can take its next step.
  obtain ⟨conn, worked⟩ := Connection.work_of_open setting.assertions [] (attended.begun x begun)
    open_
  have moves : ∃ next, (serverMachine setting).step server (.work k []) = some next := by
    simp [serverMachine, alive, ProxyServer.act, ProxyServer.work, inside, worked]
  obtain ⟨next, stepped⟩ := moves
  obtain ⟨y, same, atTest⟩ := rest (.work k []) next rfl stepped
  obtain rfl := Option.some.inj (inside.symm.trans same)
  exact atTest

/-- What is no step of a thread leaves the calls with their threads. -/
theorem elsewhere (attended : Attended server)
    (conns : ∀ d, (next.conns d).tasks = (server.conns d).tasks ∧
      (next.conns d).taskCount = (server.conns d).taskCount)
    (running : next.running = server.running) (threads : server.threads ≤ next.threads)
    (consumers : next.threadpool.consumers = server.threadpool.consumers) : Attended next := by
  -- The property speaks of the calls, of the threads and of nothing else.
  have begun (x : Nat × Nat) : next.Begun x ↔ server.Begun x := by
    rw [ProxyServer.Begun, ProxyServer.Begun, (conns x.1).2]
  have taskOf (x : Nat × Nat) : next.taskOf x = server.taskOf x := by
    rw [ProxyServer.taskOf, ProxyServer.taskOf, (conns x.1).1]
  refine ⟨?_, ?_, ?_, ?_, ?_, ?_⟩
  · simpa only [begun, taskOf] using attended.begun
  · simpa only [begun, taskOf, running] using attended.held
  · simpa only [begun, taskOf, running] using attended.inside
  · simpa only [running] using attended.alone
  · simpa only [running, consumers] using attended.free
  · simpa only [running, consumers] using fun k beyond => attended.outside k (threads.trans beyond)

/-- A thread that begins a call has it in its hands, and nobody else has. -/
theorem begin_ (attended : Attended server) {pool : Pool (Option BoundCall)}
    (read : server.threadpool.readSlot k = some pool) (call : BoundCall)
    (unread : (server.threadpool.consumers k).readId <
      (server.threadpool.consumers k).readableId) :
    Attended { server.begin_ k call with threadpool := pool } := by
  obtain ⟨reading, rfl⟩ := Pool.readSlot_eq_some.mp read
  have free := attended.free k reading
  have fresh (l : Nat) (inside : server.running l = some (server.number call)) : False :=
    absurd (attended.inside l _ inside).1 (Nat.lt_irrefl _)
  have begun := ProxyServer.begun_begin server k call
  -- The new call is told apart from those that had begun before.
  have before (x : Nat × Nat) (earlier : server.Begun x) :
      ((server.begin_ k call).taskOf x).pc = (server.taskOf x).pc := by
    refine congrArg Task.pc (ProxyServer.taskOf_begin_other k ?_)
    rintro rfl
    exact absurd earlier (Nat.lt_irrefl _)
  have here := congrArg Task.pc (ProxyServer.taskOf_begin_own server k call)
  have others (l : Nat) (other : l ≠ k) :
      (server.begin_ k call).running l = server.running l := Function.update_of_ne other _ _
  have own : (server.begin_ k call).running k = some (server.number call) :=
    Function.update_self _ _ _
  refine ⟨fun x within => ?_, fun x within open_ => ?_, fun l x inside => ?_,
    fun l l' x first second => ?_, fun l readingOther => ?_, fun l beyond => ?_⟩
  · rcases (begun x).mp within with earlier | rfl
    · exact (before x earlier).trans_ne (attended.begun x earlier)
    · exact here.trans_ne TaskPc.noConfusion
  · rcases (begun x).mp within with earlier | rfl
    · obtain ⟨l, inside⟩ := attended.held x earlier ((before x earlier).symm.trans_ne open_)
      have other : l ≠ k := by
        rintro rfl
        cases free.symm.trans inside
      exact ⟨l, (others l other).trans inside⟩
    · exact ⟨k, own⟩
  · by_cases caller : l = k
    · subst caller
      obtain rfl := Option.some.inj (own.symm.trans inside)
      exact ⟨(begun _).mpr (.inr rfl), here.trans_ne TaskPc.noConfusion⟩
    · obtain ⟨earlier, open_⟩ := attended.inside l x ((others l caller).symm.trans inside)
      exact ⟨(begun x).mpr (.inl earlier), (before x earlier).trans_ne open_⟩
  · by_cases caller : l = k
    · by_cases caller' : l' = k
      · exact caller.trans caller'.symm
      · subst caller
        obtain rfl := Option.some.inj (own.symm.trans first)
        exact (fresh l' ((others l' caller').symm.trans second)).elim
    · by_cases caller' : l' = k
      · subst caller'
        obtain rfl := Option.some.inj (own.symm.trans second)
        exact (fresh l ((others l caller).symm.trans first)).elim
      · exact attended.alone l l' x ((others l caller).symm.trans first)
          ((others l' caller').symm.trans second)
  · by_cases caller : l = k
    · subst caller
      simp at readingOther
    · simp only [Function.update_of_ne caller] at readingOther
      exact (others l caller).trans (attended.free l readingOther)
  · have other : l ≠ k := by
      rintro rfl
      exact absurd unread (Nat.not_lt_of_le (attended.outside l beyond).2)
    obtain ⟨idle, past⟩ := attended.outside l beyond
    refine ⟨(others l other).trans idle, ?_⟩
    simpa only [Function.update_of_ne other] using past

/-- A thread that takes a step of its call keeps the call until it returns. -/
theorem work (attended : Attended server)
    (stepped : (serverMachine setting).step server (.work k content) = some next) :
    Attended next := by
  obtain ⟨x, conn, inside, worked, begun, here, others, either⟩ := ProxyServer.work_moves stepped
  obtain ⟨threads, pool⟩ : next.threads = server.threads ∧ next.threadpool = server.threadpool := by
    obtain ⟨c, i, conn, -, -, running, rfl, -⟩ := ProxyServer.work_cases stepped
    exact ⟨rfl, rfl⟩
  -- No other thread is in this call, and each keeps its own.
  have apart (l : Nat) (y : Nat × Nat) (other : l ≠ k) (insideOther : server.running l = some y) :
      y ≠ x := by
    rintro rfl
    exact other (attended.alone l k y insideOther inside)
  have kept (l : Nat) (y : Nat × Nat) : next.running l = some y ↔
      server.running l = some y ∧ (next.taskOf y).pc ≠ .finished := by
    by_cases caller : l = k
    · subst caller
      rw [inside, Option.some.injEq]
      rcases either with ⟨returned, running⟩ | ⟨goesOn, running⟩
      · rw [running, Function.update_self]
        exact ⟨fun none_ => (by cases none_), fun both => absurd returned (both.1 ▸ both.2)⟩
      · rw [running, inside, Option.some.injEq]
        exact ⟨fun same => ⟨same, same ▸ goesOn⟩, And.left⟩
    · have same : next.running l = server.running l := by
        rcases either with ⟨-, running⟩ | ⟨-, running⟩
        · rw [running, Function.update_of_ne caller]
        · rw [running]
      rw [same]
      refine ⟨fun insideOther => ⟨insideOther, ?_⟩, And.left⟩
      rw [others y (apart l y caller insideOther)]
      exact (attended.inside l y insideOther).2
  have fewer (l : Nat) (none_ : server.running l = none) : next.running l = none := by
    cases inside : next.running l with
    | none => rfl
    | some y => cases none_.symm.trans ((kept l y).mp inside).1
  refine ⟨fun y within => ?_, fun y within open_ => ?_, fun l y insideNext => ?_,
    fun l l' y first second => ?_, fun l reading => ?_, fun l beyond => ?_⟩
  · by_cases own : y = x
    · rw [own, here]
      exact (Connection.work_pc worked).2.1
    · rw [others y own]
      exact attended.begun y ((begun y).mp within)
  · -- A call that is open now was open before.
    by_cases own : y = x
    · subst own
      exact ⟨k, (kept k y).mpr ⟨inside, open_⟩⟩
    · have before : (server.taskOf y).pc ≠ .finished := others y own ▸ open_
      obtain ⟨l, insideBefore⟩ := attended.held y ((begun y).mp within) before
      exact ⟨l, (kept l y).mpr ⟨insideBefore, open_⟩⟩
  · obtain ⟨insideBefore, open_⟩ := (kept l y).mp insideNext
    exact ⟨(begun y).mpr (attended.inside l y insideBefore).1, open_⟩
  · exact attended.alone l l' y ((kept l y).mp first).1 ((kept l' y).mp second).1
  · rw [pool] at reading
    exact fewer l (attended.free l reading)
  · rw [threads] at beyond
    rw [pool]
    exact ⟨fewer l (attended.outside l beyond).1, (attended.outside l beyond).2⟩

/-- Every step leaves the calls with their threads. -/
theorem step (attended : Attended server) (service : InService server)
    (stepped : (serverMachine setting).step server label = some next) : Attended next := by
  cases label with
  | startThreads =>
    cases ProxyServer.act_of_step stepped
    exact attended.elsewhere (fun _ => ⟨rfl, rfl⟩) rfl (Nat.le_add_right _ _) rfl
  | message d chunk =>
    have received (e : Nat) :
        (Function.update server.conns d ((server.conns d).receive chunk) e).tasks =
            (server.conns e).tasks ∧
          (Function.update server.conns d ((server.conns d).receive chunk) e).taskCount =
            (server.conns e).taskCount := by
      by_cases own : e = d
      · subst own
        rw [Function.update_self]
        exact ⟨rfl, rfl⟩
      · rw [Function.update_of_ne own]
        exact ⟨rfl, rfl⟩
    rcases ProxyServer.message_cases stepped with ⟨-, rfl⟩ | ⟨p, pool, -, called, rfl⟩
    · exact attended.elsewhere received rfl (Nat.le_refl _) rfl
    · exact attended.elsewhere received rfl (Nat.le_refl _) (Heard.callWrite_consumers called)
  | writeSlot p =>
    obtain ⟨pool, wrote, rfl⟩ := ProxyServer.writeSlot_cases stepped
    obtain ⟨obj, -, rfl⟩ := Option.map_eq_some_iff.mp wrote
    exact attended.elsewhere (fun _ => ⟨rfl, rfl⟩) rfl (Nat.le_refl _) rfl
  | callRead k =>
    obtain ⟨ready, -⟩ := Option.ite_none_right_eq_some.mp (ProxyServer.act_of_step stepped)
    obtain ⟨pool, called, rfl⟩ := ProxyServer.callRead_cases stepped
    -- Only the caller, which is in no call, starts to read.
    have others (l : Nat) (other : l ≠ k) :
        pool.consumers l = server.threadpool.consumers l := by
      rcases Pool.callRead_cases called with ⟨-, space, -, rfl⟩ | ⟨-, rfl⟩
      · exact Function.update_of_ne other _ _
      · exact Function.update_of_ne other _ _
    refine ⟨attended.begun, attended.held, attended.inside, attended.alone, fun l reading => ?_,
      fun l beyond => ?_⟩
    · by_cases caller : l = k
      · subst caller
        exact ready.2
      · replace reading : (pool.consumers l).reading = true := reading
        rw [others l caller] at reading
        exact attended.free l reading
    · have other : l ≠ k := by
        rintro rfl
        exact absurd ready.1 (Nat.not_lt_of_le beyond)
      have past := attended.outside l beyond
      rw [← others l other] at past
      exact past
  | readSlot k =>
    obtain ⟨pool, read, either⟩ := ProxyServer.readSlot_cases stepped
    obtain ⟨call, found, -, -⟩ := service.readable read
    rcases either with none_ | ⟨begun, -, rfl⟩
    · cases none_.symm.trans found
    · have reading := (Pool.readSlot_eq_some.mp read).1
      exact attended.begin_ read begun (service.ledger.custody.reading k reading)
  | work k content => exact attended.work stepped
  | network d event =>
    obtain ⟨outside, conn, moved, rfl⟩ := ProxyServer.network_cases stepped
    obtain ⟨tasks, count⟩ := Connection.network_tasks outside moved
    refine attended.elsewhere (fun e => ?_) rfl (Nat.le_refl _) rfl
    show (Function.update server.conns d conn e).tasks = _ ∧ _
    by_cases own : e = d
    · subst own
      simp only [ProxyServer.setConn, Function.update_self]
      exact ⟨tasks, count⟩
    · simp [ProxyServer.setConn, own]

end Attended

/-- One I/O loop with one producer. -/
def oneLoop : ServerSetting where
  memory := { atBufferObject := fun _ => [], behindVector := [] }
  assertions := true
  producerOf _ := some 0

end EnhancedProxy
