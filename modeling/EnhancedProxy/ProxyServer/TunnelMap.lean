import EnhancedProxy.ProxyServer.QueueOrder
import EnhancedProxy.ProxyServer.TunnelEvents

/-! When every use of a connection's entry in the map of tunnels finds a tunnel. -/

namespace EnhancedProxy

namespace Connection

/-- No null pointer is in the map or was used, and an entry is a tunnel that was created. -/
structure TunnelsLive (conn : Connection) : Prop where
  entry : ∀ pointer, conn.tunnelEntry = some pointer → ∃ k, pointer = some k ∧ k < conn.tunnelCount
  fault : conn.fault ≠ some .nullTunnel

/-- The test of the context succeeds only with an entry in the map, and the entry is erased only
while no task is between that test and its `pushCache`. -/
def MapSettled (conn : Connection) : ConnectionStep → Prop
  | .work i _ =>
    ((conn.tasks i).pc = .checkContext → conn.context ≠ none → conn.tunnelEntry ≠ none) ∧
      ((conn.tasks i).pc = .tail → conn.buf.length > 1024 * 1024 * 10 →
        conn.tunnelEntry ≠ none → ∀ j, ¬ (conn.tasks j).NeedsTunnel)
  | .clientDown => conn.tunnelEntry ≠ none → ∀ j, ¬ (conn.tasks j).NeedsTunnel
  | _ => True

end Connection

/-- The entry is there while a task is to use it, and a tunnel to be added was created. -/
structure Mapped (conn : Connection) : Prop extends conn.TunnelsLive where
  adding : ∀ i, (conn.tasks i).pc = .addTunnel → (conn.tasks i).tunnel < conn.tunnelCount
  needed : ∀ i, (conn.tasks i).NeedsTunnel → conn.tunnelEntry ≠ none

namespace Mapped

variable {conn next : Connection} {i : Nat} {task : Task} {content : Bytes}

/-- A new connection has no tunnel and no tasks. -/
theorem start : Mapped {} where
  -- The map has no entry, and no task is past the queue.
  entry _ found := by cases found
  fault := by simp
  adding _ here := by cases here
  needed _ needs := by simp [Task.NeedsTunnel] at needs

/-- A quiet step brings no task to the need of a tunnel. -/
theorem quiet (mapped : Mapped conn) (quiet : conn.Quiet next) : Mapped next where
  -- The entry and the count are the same, and the tasks need no more than before.
  entry pointer found := by
    rw [quiet.tunnelEntry] at found
    rw [quiet.tunnelCount]
    exact mapped.entry pointer found
  fault := quiet.fault
  adding j here := by
    rcases quiet.tasks j with same | free
    · rw [same] at here ⊢
      rw [quiet.tunnelCount]
      exact mapped.adding j here
    · exact absurd (.inr (.inl here)) free
  needed j needs := by
    rcases quiet.tasks j with same | free
    · rw [quiet.tunnelEntry]
      exact mapped.needed j (same ▸ needs)
    · exact absurd (.inr (.inr needs)) free

/-- A task moves on under the same entry. -/
theorem goOn (mapped : Mapped conn) (tunnelEntry : next.tunnelEntry = conn.tunnelEntry)
    (tunnelCount : conn.tunnelCount ≤ next.tunnelCount) (fault : next.fault = conn.fault)
    (tasks : next.tasks = Function.update conn.tasks i task)
    (adding : task.pc = .addTunnel → task.tunnel < next.tunnelCount)
    (needed : task.NeedsTunnel → conn.tunnelEntry ≠ none) : Mapped next where
  -- Only the task that goes on has to be looked at again.
  entry pointer found := by
    obtain ⟨k, same, created⟩ := mapped.entry pointer (tunnelEntry ▸ found)
    exact ⟨k, same, created.trans_le tunnelCount⟩
  fault := fault ▸ mapped.fault
  adding := by
    rw [tasks, Function.forall_update_iff conn.tasks
      fun _ task => task.pc = .addTunnel → task.tunnel < next.tunnelCount]
    exact ⟨adding, fun j _ here => (mapped.adding j here).trans_le tunnelCount⟩
  needed := by
    rw [tasks, tunnelEntry, Function.forall_update_iff conn.tasks
      fun _ task => task.NeedsTunnel → conn.tunnelEntry ≠ none]
    exact ⟨needed, fun j _ needs => mapped.needed j needs⟩

/-- A tunnel is added to the map once it is created. -/
theorem add (mapped : Mapped conn) (here : (conn.tasks i).pc = .addTunnel) :
    Mapped (conn.addTunnel i) where
  -- The entry is now the tunnel of this task, which was created.
  entry pointer found := by
    cases found
    exact ⟨_, rfl, mapped.adding i here⟩
  fault := mapped.fault
  adding j place := by
    by_cases mover : j = i
    · subst mover
      have moved : (conn.addTunnel j).tasks j =
          { conn.tasks j with isCheck := true, pc := .loopHead } := Function.update_self _ _ _
      rw [moved] at place
      cases place
    · have same : (conn.addTunnel i).tasks j = conn.tasks j := Function.update_of_ne mover _ _
      rw [same] at place ⊢
      exact mapped.adding j place
  needed _ _ none_ := by cases none_

/-- Erasing the entry is safe while no task is to use it. -/
theorem erase (mapped : Mapped conn)
    (settled : conn.tunnelEntry ≠ none → ∀ j, ¬ (conn.tasks j).NeedsTunnel)
    (tunnelEntry : next.tunnelEntry = none) (tunnelCount : next.tunnelCount = conn.tunnelCount)
    (fault : next.fault = conn.fault)
    (tasks : ∀ j, next.tasks j = conn.tasks j ∨ (next.tasks j).pc = .finished) : Mapped next where
  entry pointer found := by
    rw [tunnelEntry] at found
    cases found
  fault := fault ▸ mapped.fault
  adding j here := by
    rcases tasks j with same | finished
    · rw [same] at here ⊢
      rw [tunnelCount]
      exact mapped.adding j here
    · exact absurd (finished.symm.trans here) (by simp)
  needed j needs := by
    rcases tasks j with same | finished
    · -- A task that needs the entry had it before, and then it was not to be erased.
      rw [same] at needs
      exact absurd needs (settled (mapped.needed j needs) j)
    · simp [Task.NeedsTunnel, finished] at needs

/-- Every step that meets the condition keeps the map sound. -/
theorem step {memory : RelayMemory} {assertions : Bool} {label : ConnectionStep}
    (mapped : Mapped conn) (settled : conn.MapSettled label)
    (stepped : (connectionMachine memory assertions).step conn label = some next) :
    Mapped next := by
  cases Connection.tunnelEvent_of_step stepped with
  | quiet _ _ _ quiet => exact mapped.quiet quiet
  | test i content here =>
    exact mapped.goOn rfl (Nat.le_refl _) rfl rfl (by simp) (by simp [Task.NeedsTunnel])
  | create i content here =>
    exact mapped.goOn rfl (Nat.le_succ _) rfl rfl (fun _ => Nat.lt_succ_self _)
      (by simp [Task.NeedsTunnel])
  | add i content here => exact mapped.add here
  | found i content here bound =>
    exact mapped.goOn rfl (Nat.le_refl _) rfl rfl (by simp) fun _ => settled.1 here bound
  | cast i content here k context =>
    exact mapped.goOn rfl (Nat.le_refl _) rfl rfl (by simp)
      fun _ => mapped.needed i (.inl here)
  | pushNull i content here unmapped =>
    -- A task that is about to push finds the entry, and the entry is a tunnel.
    obtain ⟨pointer, found⟩ := Option.ne_none_iff_exists'.mp (mapped.needed i (.inr here))
    obtain ⟨k, rfl, -⟩ := mapped.entry pointer found
    exact absurd found (unmapped k)
  | close i content here dirty live =>
    exact mapped.erase (settled.2 here dirty) rfl rfl rfl Connection.set_finished
  | disconnectNull _ _ null =>
    obtain ⟨k, same, -⟩ := mapped.entry none null
    cases same
  | up k created => exact ⟨⟨mapped.entry, mapped.fault⟩, mapped.adding, mapped.needed⟩
  | down k => exact ⟨⟨mapped.entry, mapped.fault⟩, mapped.adding, mapped.needed⟩
  | clientDown live => exact mapped.erase settled rfl rfl rfl fun _ => .inl rfl

end Mapped

/-- Every use of the map finds a tunnel throughout a run in which the entry is there from each test
of the context that succeeds to the `pushCache` behind it. -/
theorem tunnels_live (memory : RelayMemory) (assertions : Bool) {labels : List ConnectionStep}
    (settled : (connectionMachine memory assertions).Meets Connection.MapSettled {} labels) :
    (connectionMachine memory assertions).Always Connection.TunnelsLive {} labels :=
  -- While the map is settled at each push, every entry is of a tunnel that exists.
  Machine.always_of_meets (fun _ _ _ mapped settled stepped => Mapped.step mapped settled stepped)
    (fun _ mapped => mapped.toTunnelsLive) Mapped.start settled

/-- A first request on its way to its `pushCache`, over the tunnel that was created for it. -/
def firstForward : List ConnectionStep :=
  .deliver getA :: List.replicate 6 (.work 0 []) ++ .backendUp 0 :: List.replicate 5 (.work 0 [])

/-- A request is forwarded and its task ends, before the backend connection goes down. -/
theorem tunnels_live_forwarded :
    (connectionMachine noMemory true).Always Connection.TunnelsLive {}
      (firstForward ++ List.replicate 6 (.work 0 []) ++ [.backendDown 0]) := by
  apply tunnels_live
  refine ⟨trivial, fun _ stepped => ?_⟩
  cases stepped
  iterate 6
    refine ⟨⟨fun here => (by cases here), fun here => (by cases here)⟩, fun _ stepped => ?_⟩
    cases stepped
  refine ⟨trivial, fun _ stepped => ?_⟩
  cases stepped
  iterate 3
    refine ⟨⟨fun here => (by cases here), fun here => (by cases here)⟩, fun _ stepped => ?_⟩
    cases stepped
  -- The tunnel is in the map when the test of the context succeeds.
  refine ⟨⟨fun _ _ none_ => (by cases none_), fun here => (by cases here)⟩, fun _ stepped => ?_⟩
  cases stepped
  iterate 6
    refine ⟨⟨fun here => (by cases here), fun here => (by cases here)⟩, fun _ stepped => ?_⟩
    cases stepped
  -- The buffer is empty when the task ends.
  exact ⟨⟨fun here => (by cases here), fun _ dirty => absurd dirty (by decide)⟩,
    fun _ _ => ⟨trivial, fun _ _ => trivial⟩⟩

/-- The client goes while a task is before its `pushCache`, and the task calls through a null
pointer. -/
theorem tunnel_null :
    ¬ (connectionMachine noMemory true).Always Connection.TunnelsLive {}
      (firstForward ++ [.clientDown, .work 0 []]) := by
  -- The run ends with the fault that the property excludes.
  intro always
  have live := always _ _ (List.prefix_refl _) rfl
  exact live.fault rfl

end EnhancedProxy
