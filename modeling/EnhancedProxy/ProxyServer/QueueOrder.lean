import EnhancedProxy.ProxyServer.RequestOrder

/-! When the tunnel's queue of urls agrees with the order in which the requests were sent. -/

namespace EnhancedProxy

namespace Connection

/-- The urls pushed to a tunnel's queue, those already popped included. -/
def pushedTo (conn : Connection) (k : Nat) : List Bytes :=
  (conn.pushed.filter (·.1 = k)).map Prod.snd

/-- The urls of the requests sent through a tunnel, in the order they were sent. -/
def sentTo (conn : Connection) (k : Nat) : List Bytes :=
  conn.handled.filterMap fun
    | .forwarded j url _ => if j = k then some url else none
    | .answered _ _ => none

/-- The queue lists the requests in the order they were sent, up to the last pending push. -/
def QueueAgrees (k : Nat) (conn : Connection) : Prop :=
  conn.pushedTo k = conn.sentTo k ∨ ∃ url, conn.pushedTo k = conn.sentTo k ++ [url]

/-- A url is pushed to the tunnel only while no task is between its own push and its send. -/
def PushesAlone (k : Nat) (conn : Connection) : ConnectionStep → Prop
  | .work i _ =>
    (conn.tasks i).pc = .push → conn.tunnelEntry = some (some k) →
      ∀ j, (conn.tasks j).pc ≠ .send
  | _ => True

end Connection

/-- The places where a task is creating a tunnel. -/
def TaskPc.creating : TaskPc → Bool
  | .createTunnel | .addTunnel => true
  | _ => false

/-- The steps that leave an established tunnel as it is: more bytes, more work, more responses. -/
def ConnectionStep.Calm : ConnectionStep → Prop
  | .deliver _ | .work _ _ | .respond _ _ => True
  | _ => False

/-- A connection whose tunnel is up and in the map, with the history kept from here on. Its tasks
may stand anywhere but between a push and a send, and none is creating another tunnel. -/
structure Established (k : Nat) (conn : Connection) : Prop where
  context : conn.context = some k
  tunnelEntry : conn.tunnelEntry = some (some k)
  fresh : ∀ i, conn.taskCount ≤ i → (conn.tasks i).pc = .absent
  unsent : ∀ i, (conn.tasks i).pc ≠ .send
  created : ∀ i, (conn.tasks i).pc.creating = false
  pushed : conn.pushed = []
  handled : conn.handled = []

/-- At most one push is pending, and up to it the queue lists what was sent. -/
structure Orderly (k : Nat) (conn : Connection) : Prop where
  context : conn.context = some k
  tunnelEntry : ∀ j, conn.tunnelEntry = some (some j) → j = k
  fresh : ∀ i, conn.taskCount ≤ i → (conn.tasks i).pc = .absent
  created : ∀ i, (conn.tasks i).pc.creating = false
  pending : (∃ i, (conn.tasks i).pc = .send ∧ (∀ j, (conn.tasks j).pc = .send → j = i) ∧
      conn.pushedTo k = conn.sentTo k ++ [(conn.tasks i).context.requestUrl]) ∨
    ((∀ i, (conn.tasks i).pc ≠ .send) ∧ conn.pushedTo k = conn.sentTo k)

namespace Orderly

variable {k : Nat} {conn next : Connection} {i : Nat} {task : Task}

/-- An established tunnel has no push pending. -/
theorem start (established : Established k conn) : Orderly k conn where
  -- The history starts empty, and no task is before its send.
  context := established.context
  tunnelEntry j entry := by
    rw [established.tunnelEntry] at entry
    cases entry
    rfl
  fresh := established.fresh
  created := established.created
  pending := by
    refine .inr ⟨established.unsent, ?_⟩
    simp [Connection.pushedTo, Connection.sentTo, established.pushed, established.handled]

/-- With one push pending at most, the queue agrees. -/
theorem queueAgrees (orderly : Orderly k conn) : conn.QueueAgrees k := by
  -- Either one push is pending, or none.
  rcases orderly.pending with ⟨i, -, -, pending⟩ | ⟨-, same⟩
  · exact .inr ⟨_, pending⟩
  · exact .inl same

/-- A step that pushes and sends nothing through the tunnel and moves no task. -/
theorem elsewhere (orderly : Orderly k conn) (context : next.context = conn.context)
    (tunnelEntry : ∀ j, next.tunnelEntry = some (some j) → j = k)
    (tasks : next.tasks = conn.tasks) (taskCount : next.taskCount = conn.taskCount)
    (pushed : next.pushedTo k = conn.pushedTo k) (sent : next.sentTo k = conn.sentTo k) :
    Orderly k next := by
  -- Neither the queue nor the tasks before `send` have changed.
  refine ⟨context.trans orderly.context, tunnelEntry, ?_, ?_, ?_⟩
  · rw [tasks, taskCount]
    exact orderly.fresh
  · rw [tasks]
    exact orderly.created
  · rw [tasks, pushed, sent]
    exact orderly.pending

/-- No task creates a tunnel when one moves to a place where it does not. -/
theorem created_set (orderly : Orderly k conn) (elsewhere : task.pc.creating = false) (j : Nat) :
    ((conn.set i task).tasks j).pc.creating = false := by
  -- The call that is put is not creating, and the others are as before.
  by_cases same : j = i
  · rw [same, Connection.set_own]
    exact elsewhere
  · rw [Connection.set_other same]
    exact orderly.created j

/-- A task that moves between places other than the one before `send`. -/
theorem move (orderly : Orderly k conn) (present : (conn.tasks i).pc ≠ .absent)
    (before : (conn.tasks i).pc ≠ .send) (after : task.pc ≠ .send)
    (elsewhere : task.pc.creating = false) : Orderly k (conn.set i task) := by
  -- The tasks before `send` are the same as before.
  have sends (j : Nat) : ((conn.set i task).tasks j).pc = .send ↔ (conn.tasks j).pc = .send := by
    by_cases same : j = i
    · rw [same, Connection.set_own]
      exact iff_of_false after before
    · rw [Connection.set_other same]
  refine ⟨orderly.context, orderly.tunnelEntry,
    fun j late => Connection.fresh_set orderly.fresh present late,
    orderly.created_set elsewhere, ?_⟩
  -- A pending push belongs to another task.
  rcases orderly.pending with ⟨j, here, only, pending⟩ | ⟨none_, same⟩
  · have other : j ≠ i := by
      rintro rfl
      exact before here
    refine .inl ⟨j, (sends j).mpr here, fun l place => only l ((sends l).mp place), ?_⟩
    rw [Connection.set_other other]
    exact pending
  · exact .inr ⟨fun j place => none_ j ((sends j).mp place), same⟩

/-- A push goes to the tunnel in the map. -/
theorem pushedTo_push (entry : conn.tunnelEntry = some (some k)) :
    (conn.push i).pushedTo k = conn.pushedTo k ++ [(conn.tasks i).context.requestUrl] ∧
      (conn.push i).sentTo k = conn.sentTo k := by
  -- The url goes to the queue, and nothing goes out.
  constructor
  · simp [Connection.push, entry, Connection.pushedTo, Connection.set]
  · simp [Connection.push, entry, Connection.sentTo, Connection.set]

/-- A task that pushes alone has the one pending push. -/
theorem push (orderly : Orderly k conn) (here : (conn.tasks i).pc = .push)
    (alone : conn.tunnelEntry = some (some k) → ∀ j, (conn.tasks j).pc ≠ .send) :
    Orderly k (conn.push i) := by
  by_cases entry : conn.tunnelEntry = some (some k)
  · obtain ⟨pushed, sent⟩ := pushedTo_push (i := i) entry
    have unsent := alone entry
    -- With no task before `send`, no push is pending.
    have same : conn.pushedTo k = conn.sentTo k := by
      rcases orderly.pending with ⟨j, place, -⟩ | ⟨-, same⟩
      · exact absurd place (unsent j)
      · exact same
    -- The pushing task is now the one before `send`.
    have tasks : (conn.push i).tasks = (conn.set i { conn.tasks i with pc := .send }).tasks := by
      simp [Connection.push, entry, Connection.set]
    have own : (conn.push i).tasks i = { conn.tasks i with pc := .send } := by
      rw [tasks, Connection.set_own]
    refine ⟨?_, ?_, fun j late => ?_, ?_, .inl ⟨i, ?_, fun j place => ?_, ?_⟩⟩
    · simpa [Connection.push, entry, Connection.set] using orderly.context
    · simp [Connection.push, entry, Connection.set]
    · have count : (conn.push i).taskCount = conn.taskCount := by
        simp [Connection.push, entry, Connection.set]
      rw [count] at late
      rw [tasks]
      exact Connection.fresh_set orderly.fresh (by simp [here]) late
    · rw [tasks]
      exact orderly.created_set rfl
    · rw [own]
    · by_contra other
      rw [tasks, Connection.set_other other] at place
      exact unsent j place
    · rw [pushed, sent, same, own]
  · -- Without a tunnel in the map, the process ends before anything is pushed.
    have failed : conn.push i = { conn with tunnelEntry := some none }.fail .nullTunnel := by
      unfold Connection.push
      split
      · rename_i j found
        rw [orderly.tunnelEntry j found] at found
        exact absurd found entry
      · rfl
    rw [failed]
    exact orderly.elsewhere rfl (fun j found => by cases found) rfl rfl rfl rfl

/-- A push while another one is pending leaves two urls without their requests. -/
theorem push_disagrees (orderly : Orderly k conn) (entry : conn.tunnelEntry = some (some k))
    {j : Nat} (waiting : (conn.tasks j).pc = .send) : ¬ (conn.push i).QueueAgrees k := by
  obtain ⟨pushed, sent⟩ := pushedTo_push (i := i) entry
  -- The push that is waiting makes the queue one url longer than what was sent.
  have pending : (conn.pushedTo k).length = (conn.sentTo k).length + 1 := by
    rcases orderly.pending with ⟨l, -, -, pending⟩ | ⟨none_, -⟩
    · rw [pending, List.length_append, List.length_singleton]
    · exact absurd waiting (none_ j)
  -- With two urls more, the queue agrees in neither way.
  rintro (same | ⟨url, more⟩)
  · have lengths := congrArg List.length same
    rw [pushed, sent, List.length_append, List.length_singleton] at lengths
    omega
  · have lengths := congrArg List.length more
    rw [pushed, sent, List.length_append, List.length_append, List.length_singleton,
      List.length_singleton] at lengths
    omega

/-- The request of the pending push is the next one to be sent. -/
theorem send (orderly : Orderly k conn) (here : (conn.tasks i).pc = .send) :
    Orderly k (conn.send i) := by
  unfold Connection.send
  dsimp only
  split
  · -- A dangling reference or a bad length ends the run before anything is sent.
    exact orderly.elsewhere rfl orderly.tunnelEntry rfl rfl rfl rfl
  split
  · exact orderly.elsewhere rfl orderly.tunnelEntry rfl rfl rfl rfl
  rename_i bound _
  -- The reference is into the context, which still holds this tunnel.
  have tunnel : (conn.tasks i).clientConn = k := by
    rw [ne_eq, not_not, orderly.context, Option.some.injEq] at bound
    exact bound.symm
  -- No other task is before `send`, so the last url pushed is this request's.
  have pending : (∀ j, (conn.tasks j).pc = .send → j = i) ∧
      conn.pushedTo k = conn.sentTo k ++ [(conn.tasks i).context.requestUrl] := by
    rcases orderly.pending with ⟨j, place, only, pending⟩ | ⟨none_, -⟩
    · have same := only i here
      subst same
      exact ⟨only, pending⟩
    · exact absurd here (none_ i)
  refine ⟨orderly.context, orderly.tunnelEntry,
    fun j late => Connection.fresh_set orderly.fresh (by simp [here]) late,
    orderly.created_set rfl, .inr ⟨fun j => ?_, ?_⟩⟩
  · -- The only task before `send` has moved on.
    show ((conn.set i { conn.tasks i with pc := .copyBuffer }).tasks j).pc ≠ .send
    by_cases same : j = i
    · rw [same, Connection.set_own]
      simp
    · rw [Connection.set_other same]
      exact fun place => same (pending.1 j place)
  · -- The last url pushed is the one that was sent.
    show conn.pushedTo k = _
    rw [pending.2]
    simp [Connection.sentTo, tunnel, List.filterMap_append]

/-- Every step of a task keeps the queue orderly, if it pushes alone. -/
theorem work (orderly : Orderly k conn) {assertions : Bool} {content : Bytes}
    (alone : conn.PushesAlone k (.work i content))
    (worked : conn.work assertions i content = some next) : Orderly k next := by
  -- One case for each place in the code.
  cases here : (conn.tasks i).pc with
  | absent => simp [Connection.work, here] at worked
  | queued =>
    simp only [Connection.work, here, Option.some.injEq] at worked
    subst worked
    exact orderly.move (by simp [here]) (by simp [here]) (by simp) rfl
  | loopHead =>
    simp only [Connection.work, here, Option.some.injEq] at worked
    subst worked
    rcases (conn.tasks i).loopHead_pc conn.connected with inside | outside
    · exact orderly.move (by simp [here]) (by simp [here]) (by simp [inside]) (by rw [inside]; rfl)
    · exact orderly.move (by simp [here]) (by simp [here]) (by simp [outside])
        (by rw [outside]; rfl)
  | readCache =>
    simp only [Connection.work, here, Option.some.injEq] at worked
    subst worked
    unfold Task.readCache
    split
    · exact orderly.move (by simp [here]) (by simp [here]) (by simp) rfl
    · exact orderly.move (by simp [here]) (by simp [here]) (by simp) rfl
  | answer response =>
    simp only [Connection.work, here, Option.some.injEq] at worked
    subst worked
    have moved : Orderly k (conn.set i { conn.tasks i with pc := .dropAnswered }) :=
      orderly.move (by simp [here]) (by simp [here]) (by simp) rfl
    -- An answer from the cache does not go through the tunnel.
    exact moved.elsewhere rfl moved.tunnelEntry rfl rfl rfl
      (by simp [Connection.sentTo, Connection.set, List.filterMap_append])
  | dropAnswered =>
    simp only [Connection.work, here, Option.some.injEq, Connection.dropAnswered] at worked
    subst worked
    -- Retrieving touches the live buffer alone.
    have retrieved : Orderly k (conn.retrieve (toUnsigned64 (conn.tasks i).info.2)) :=
      orderly.elsewhere rfl orderly.tunnelEntry rfl rfl rfl rfl
    split
    · exact retrieved.elsewhere rfl retrieved.tunnelEntry rfl rfl rfl rfl
    · refine retrieved.move ?_ ?_ (by simp [Task.drop]) rfl <;> simp [Connection.retrieve, here]
  | checkTunnel =>
    simp only [Connection.work, here, Option.some.injEq, Connection.checkTunnel] at worked
    subst worked
    -- The tunnel is up, so no other one is created.
    have bound : conn.context ≠ none := by simp [orderly.context]
    rw [if_neg (fun both => bound both.2)]
    exact orderly.move (by simp [here]) (by simp [here]) (by simp) rfl
  | createTunnel | addTunnel =>
    have created := orderly.created i
    rw [here] at created
    cases created
  | checkContext =>
    simp only [Connection.work, here, Option.some.injEq] at worked
    subst worked
    split
    · exact orderly.move (by simp [here]) (by simp [here]) (by simp) rfl
    · exact orderly.move (by simp [here]) (by simp [here]) (by simp) rfl
  | castContext =>
    simp only [Connection.work, here, orderly.context, Option.some.injEq] at worked
    subst worked
    exact orderly.move (by simp [here]) (by simp [here]) (by simp) rfl
  | push =>
    simp only [Connection.work, here, Option.some.injEq] at worked
    subst worked
    exact orderly.push here (alone here)
  | send =>
    simp only [Connection.work, here, Option.some.injEq] at worked
    subst worked
    exact orderly.send here
  | copyBuffer =>
    simp only [Connection.work, here, Option.some.injEq] at worked
    subst worked
    exact orderly.move (by simp [here]) (by simp [here]) (by simp) rfl
  | dropForwarded =>
    simp only [Connection.work, here, Option.some.injEq, Connection.dropForwarded] at worked
    subst worked
    have retrieved : Orderly k (conn.retrieve (toUnsigned64 (conn.tasks i).info.2)) :=
      orderly.elsewhere rfl orderly.tunnelEntry rfl rfl rfl rfl
    have dropped : Orderly k ((conn.retrieve (toUnsigned64 (conn.tasks i).info.2)).set i
        (conn.tasks i).drop) := by
      refine retrieved.move ?_ ?_ (by simp [Task.drop]) rfl <;> simp [Connection.retrieve, here]
    split
    · exact dropped.elsewhere rfl dropped.tunnelEntry rfl rfl rfl rfl
    · exact dropped
  | tail =>
    simp only [Connection.work, here, Option.some.injEq, Connection.tail] at worked
    subst worked
    -- Closing the connection takes the tunnel out of the map, so nothing is pushed later.
    have left : Orderly k (conn.set i { conn.tasks i with pc := .finished }) :=
      orderly.move (by simp [here]) (by simp [here]) (by simp) rfl
    split
    · split
      · exact orderly.elsewhere rfl orderly.tunnelEntry rfl rfl rfl rfl
      · exact left.elsewhere rfl (fun j found => by cases found) rfl rfl rfl rfl
    · exact left
  | finished => simp [Connection.work, here] at worked

/-- New bytes and their task leave the queue alone. -/
theorem deliver (orderly : Orderly k conn) (chunk : Bytes) :
    Orderly k (conn.onServerMessage chunk) := by
  -- Neither the new task nor the unused place it takes is before `send`.
  have unsent : (conn.tasks conn.taskCount).pc ≠ .send := by
    rw [orderly.fresh _ (Nat.le_refl _)]
    simp
  have sends (j : Nat) : ((conn.onServerMessage chunk).tasks j).pc = .send ↔
      (conn.tasks j).pc = .send := by
    by_cases new : j = conn.taskCount
    · rw [new, Connection.onServerMessage_new]
      exact iff_of_false (by simp) unsent
    · rw [Connection.onServerMessage_other chunk new]
  refine ⟨orderly.context, orderly.tunnelEntry,
    fun j late => Connection.fresh_onServerMessage orderly.fresh chunk late, fun j => ?_, ?_⟩
  · by_cases new : j = conn.taskCount
    · rw [new, Connection.onServerMessage_new]
      rfl
    · rw [Connection.onServerMessage_other chunk new]
      exact orderly.created j
  rcases orderly.pending with ⟨j, here, only, pending⟩ | ⟨none_, same⟩
  · have other : j ≠ conn.taskCount := by
      rintro rfl
      exact unsent here
    refine .inl ⟨j, (sends j).mpr here, fun l place => only l ((sends l).mp place), ?_⟩
    rw [Connection.onServerMessage_other chunk other]
    exact pending
  · exact .inr ⟨fun j place => none_ j ((sends j).mp place), same⟩

/-- Every calm step keeps the queue orderly, if a task that pushes pushes alone. -/
theorem step (orderly : Orderly k conn) {memory : RelayMemory} {assertions : Bool}
    {label : ConnectionStep} (calm : label.Calm) (alone : conn.PushesAlone k label)
    (stepped : (connectionMachine memory assertions).step conn label = some next) :
    Orderly k next := by
  simp only [connectionMachine] at stepped
  split at stepped
  · cases stepped
  · -- Of the calm steps, only those of tasks push or send.
    cases label with
    | deliver chunk =>
      cases stepped
      exact orderly.deliver chunk
    | work i content => exact orderly.work alone stepped
    | respond j chunk =>
      simp only [Option.ite_none_right_eq_some, Option.some.injEq] at stepped
      obtain ⟨-, rfl⟩ := stepped
      unfold Connection.respond
      split <;> exact orderly.elsewhere rfl orderly.tunnelEntry rfl rfl rfl rfl
    | backendUp j => exact calm.elim
    | backendDown j => exact calm.elim
    | clientDown => exact calm.elim

/-- A step that does not push alone puts two urls in the queue before their requests. -/
theorem step_disagrees (orderly : Orderly k conn) {memory : RelayMemory} {assertions : Bool}
    {label : ConnectionStep} (together : ¬ conn.PushesAlone k label)
    (stepped : (connectionMachine memory assertions).step conn label = some next) :
    ¬ next.QueueAgrees k := by
  -- Only the step of a task can fail to push alone.
  cases label with
  | work i content =>
    simp only [Connection.PushesAlone, not_forall, not_not] at together
    obtain ⟨here, entry, j, waiting⟩ := together
    simp only [connectionMachine] at stepped
    split at stepped
    · cases stepped
    · simp only [Connection.work, here, Option.some.injEq] at stepped
      subst stepped
      exact orderly.push_disagrees entry waiting
  | deliver chunk => exact absurd trivial together
  | respond j chunk => exact absurd trivial together
  | backendUp j => exact absurd trivial together
  | backendDown j => exact absurd trivial together
  | clientDown => exact absurd trivial together

end Orderly

/-- Over an established tunnel, the queue agrees with the order of sending throughout a run exactly
if no task pushes a url while another task is between its push and its send. -/
theorem queue_agrees_iff (memory : RelayMemory) (assertions : Bool) (k : Nat) (conn last : Connection)
    (labels : List ConnectionStep) (established : Established k conn)
    (calm : ∀ label ∈ labels, label.Calm)
    (ran : (connectionMachine memory assertions).run conn labels = some last) :
    (connectionMachine memory assertions).Always (Connection.QueueAgrees k) conn labels ↔
      (connectionMachine memory assertions).Meets (Connection.PushesAlone k) conn labels :=
  -- Lone pushes keep the queue orderly, and any other push shows at once.
  Machine.always_iff_meets
    (fun _ _ _ orderly calm alone stepped => Orderly.step orderly calm alone stepped)
    (fun _ _ _ orderly _ together stepped => Orderly.step_disagrees orderly together stepped)
    (fun _ orderly => Orderly.queueAgrees orderly) (Orderly.start established)
    (Machine.meets_of_forall (fun label member _ => calm label member) :
      (connectionMachine memory assertions).Meets (fun _ label => label.Calm) conn labels) ran

/-- A connection whose first tunnel has come up. -/
def establishedStart : Connection :=
  { context := some 0, tunnelEntry := some (some 0), tunnelCount := 1 }

/-- The request `Get c`. -/
def getC : Bytes := ascii ['G', 'e', 't', ' ', 'c', ' ', '\r', '\n', '\r', '\n']

/-- Nothing has been pushed or sent over a tunnel that has just come up. -/
theorem established_establishedStart : Established 0 establishedStart where
  -- No task has been enqueued yet.
  context := rfl
  tunnelEntry := rfl
  fresh _ _ := rfl
  unsent _ := by simp [establishedStart]
  created _ := rfl
  pushed := rfl
  handled := rfl

/-- One forwarded request is pushed and sent alone. -/
theorem queue_agrees_iff_forwarded :
    (connectionMachine noMemory true).Always (Connection.QueueAgrees 0) establishedStart
        (.deliver getA :: List.replicate 10 (.work 0 [])) ↔
      (connectionMachine noMemory true).Meets (Connection.PushesAlone 0) establishedStart
        (.deliver getA :: List.replicate 10 (.work 0 [])) := by
  apply queue_agrees_iff noMemory true 0 establishedStart _ _ established_establishedStart
  · -- The run delivers once and then works.
    intro label member
    rcases List.mem_cons.mp member with rfl | worked
    · trivial
    · rw [List.eq_of_mem_replicate worked]
      trivial
  · rfl

/-- A second task pushes `a` and a third one `b`, and then `b` is sent before `a`. -/
theorem queue_swapped :
    ∃ conn,
      (connectionMachine noMemory true).run establishedStart
          ([.deliver getA] ++ List.replicate 9 (.work 0 []) ++ [.deliver getB, .work 0 []] ++
            [.deliver getC] ++ List.replicate 7 (.work 1 []) ++ List.replicate 8 (.work 2 []) ++
            [.work 1 []]) = some conn ∧
      ¬ conn.QueueAgrees 0 := by
  refine ⟨_, rfl, ?_⟩
  let a := ascii ['a']
  let b := ascii ['b']
  -- The second and the third entry are swapped.
  rintro (same | ⟨url, more⟩)
  · have swapped : [a, a, b] = [a, b, a] := same
    exact absurd swapped (by decide)
  · -- Three urls were pushed and three requests sent, so no push is pending.
    have longer : [a, a, b] = [a, b, a] ++ [url] := more
    exact absurd (congrArg List.length longer) (by simp)

end EnhancedProxy
