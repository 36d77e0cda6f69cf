import EnhancedProxy.ProxyServer.TunnelMap

/-! When a connection has one tunnel, and each request is noted where it is sent. -/

namespace EnhancedProxy

namespace Connection

/-- While the client is connected there is one tunnel at most, and a task that is about to push
finds the tunnel of the backend connection in the context, which it also holds for its send. -/
structure OneTunnel (conn : Connection) : Prop where
  single : conn.connected → conn.tunnelCount ≤ 1
  present : conn.connected → ∀ i, (conn.tasks i).pc = .push →
    conn.context = some (conn.tasks i).clientConn ∧
      conn.tunnelEntry = some (some (conn.tasks i).clientConn)
  found : ∀ i, (conn.tasks i).pc = .push → ∀ k, conn.tunnelEntry = some (some k) →
    (conn.tasks i).clientConn = k ∧ ∀ j, conn.context = some j → j = k

end Connection

/-- Note the tunnels whose backend connections have come up. -/
def noteUp (cameUp : List Nat) : ConnectionStep → List Nat
  | .backendUp k => k :: cameUp
  | _ => cameUp

/-- Nothing comes up but by its own step. -/
theorem noteUp_of_inside {label : ConnectionStep} (inside : ∀ k, label ≠ .backendUp k)
    (cameUp : List Nat) : noteUp cameUp label = cameUp := by
  -- Only `backendUp` adds to the list.
  cases label with
  | backendUp k => exact absurd rfl (inside k)
  | deliver | work | respond | backendDown | clientDown => rfl

/-- The connection together with the tunnels that have come up. -/
def watchedMachine (memory : RelayMemory) (assertions : Bool) :
    Machine (Connection × List Nat) ConnectionStep :=
  (connectionMachine memory assertions).recording noteUp

/-- The test for a tunnel succeeds only while no other task is about to create one and every tunnel
created so far has come up, with the client still connected if there is any; and while the client
is connected, the test of the context succeeds only with an entry in the map. -/
def TunnelsInTurn (watched : Connection × List Nat) : ConnectionStep → Prop
  | .work i _ =>
    ((watched.1.tasks i).pc = .checkTunnel → (watched.1.tasks i).isCheck = false →
      watched.1.context = none →
        (∀ j, (watched.1.tasks j).pc ≠ .createTunnel) ∧
          ∀ k < watched.1.tunnelCount, watched.1.connected ∧ k ∈ watched.2) ∧
      ((watched.1.tasks i).pc = .checkContext → watched.1.connected →
        watched.1.context ≠ none → watched.1.tunnelEntry ≠ none)
  | _ => True

/-- There is one tunnel at most, and context, map and tasks speak of no other. -/
structure Lone (watched : Connection × List Nat) : Prop where
  count : watched.1.tunnelCount ≤ 1
  context : ∀ k, watched.1.context = some k → k < watched.1.tunnelCount
  entry : ∀ k, watched.1.tunnelEntry = some (some k) → k < watched.1.tunnelCount
  live : watched.1.connected → watched.1.tunnelEntry ≠ some none
  cameUp : watched.1.connected → watched.2 ≠ [] → watched.1.context ≠ none
  creating : ∀ i, (watched.1.tasks i).pc = .createTunnel →
    watched.1.tunnelCount = 0 ∧ ∀ j, (watched.1.tasks j).pc = .createTunnel → j = i
  adding : ∀ i, (watched.1.tasks i).pc = .addTunnel →
    (watched.1.tasks i).tunnel < watched.1.tunnelCount
  pushing : ∀ i, (watched.1.tasks i).pc = .push →
    (watched.1.tasks i).clientConn < watched.1.tunnelCount
  needed : watched.1.connected → ∀ i, (watched.1.tasks i).NeedsTunnel →
    watched.1.context ≠ none ∧ watched.1.tunnelEntry ≠ none

namespace Lone

variable {conn next : Connection} {cameUp : List Nat} {watched : Connection × List Nat} {i : Nat}
  {task : Task}

/-- A new connection has no tunnel. -/
theorem start : Lone ({}, []) where
  -- Nothing is created yet, and no call runs.
  count := Nat.zero_le 1
  context _ bound := by cases bound
  entry _ found := by cases found
  live _ := by simp
  cameUp _ some_ := absurd rfl some_
  creating _ here := by cases here
  adding _ here := by cases here
  pushing _ here := by cases here
  needed _ _ needs := by simp [Task.NeedsTunnel] at needs

/-- While the client is connected, an entry in the map is the first tunnel. -/
theorem entry_eq (lone : Lone watched) (there : watched.1.connected)
    (mapped : watched.1.tunnelEntry ≠ none) : watched.1.tunnelEntry = some (some 0) := by
  -- A mapped entry is of a tunnel that was created, and there is one at most.
  obtain ⟨pointer, found⟩ := Option.ne_none_iff_exists'.mp mapped
  cases pointer with
  | none => exact absurd found (lone.live there)
  | some k =>
    have created := lone.entry k found
    have count := lone.count
    have first : k = 0 := by omega
    rw [found, first]

/-- A connection with one tunnel at most notes each request where it is sent. -/
theorem oneTunnel (lone : Lone watched) : watched.1.OneTunnel where
  single _ := lone.count
  present there i here := by
    -- The context and the map agree on the only number there is.
    have own := lone.pushing i here
    obtain ⟨bound, mapped⟩ := lone.needed there i (.inr here)
    obtain ⟨k, context⟩ := Option.ne_none_iff_exists'.mp bound
    have created := lone.context k context
    have count := lone.count
    have same : (watched.1.tasks i).clientConn = 0 := by omega
    have first : k = 0 := by omega
    rw [same, lone.entry_eq there mapped, context, first]
    exact ⟨rfl, rfl⟩
  found i here k entry := by
    have own := lone.pushing i here
    have created := lone.entry k entry
    have count := lone.count
    refine ⟨by omega, fun j context => ?_⟩
    have other := lone.context j context
    omega

/-- A quiet step leaves the tunnel alone. -/
theorem quiet (lone : Lone (conn, cameUp)) (quiet : conn.Quiet next) :
    Lone (next, cameUp) := by
  obtain ⟨connected, context, tunnelEntry, tunnelCount, -, tasks⟩ := quiet
  -- No task has come to do what a test guards.
  have before : ∀ j, (next.tasks j).Guarded → next.tasks j = conn.tasks j := by
    intro j guarded
    exact (tasks j).resolve_right fun free => free guarded
  refine ⟨?_, ?_, ?_, ?_, ?_, ?_, ?_, ?_, ?_⟩
  all_goals dsimp only
  · rw [tunnelCount]
    exact lone.count
  · rw [context, tunnelCount]
    exact lone.context
  · rw [tunnelEntry, tunnelCount]
    exact lone.entry
  · rw [connected, tunnelEntry]
    exact lone.live
  · rw [connected, context]
    exact lone.cameUp
  · intro i here
    rw [before i (.inl here)] at here
    obtain ⟨none_, only⟩ := lone.creating i here
    rw [tunnelCount]
    refine ⟨none_, fun j there => only j ?_⟩
    rwa [before j (.inl there)] at there
  · intro i here
    have same := before i (.inr (.inl here))
    rw [same] at here ⊢
    rw [tunnelCount]
    exact lone.adding i here
  · intro i here
    have same := before i (.inr (.inr (.inr here)))
    rw [same] at here ⊢
    rw [tunnelCount]
    exact lone.pushing i here
  · rw [connected, context, tunnelEntry]
    intro there i needs
    rw [before i (.inr (.inr needs))] at needs
    exact lone.needed there i needs

/-- A task moves on, and the one tunnel may be created or added to the map by it. -/
theorem goOn (lone : Lone (conn, cameUp)) (connected : next.connected = conn.connected)
    (context : next.context = conn.context)
    (tasks : next.tasks = Function.update conn.tasks i task)
    (more : conn.tunnelCount ≤ next.tunnelCount) (count : next.tunnelCount ≤ 1)
    (tunnelEntry : next.tunnelEntry = conn.tunnelEntry ∨
      ∃ k < next.tunnelCount, next.tunnelEntry = some (some k))
    (creating : task.pc = .createTunnel → next.tunnelCount = 0)
    (others : ∀ j, j ≠ i → (conn.tasks j).pc = .createTunnel →
      next.tunnelCount = 0 ∧ task.pc ≠ .createTunnel)
    (adding : task.pc = .addTunnel → task.tunnel < next.tunnelCount)
    (pushing : task.pc = .push → task.clientConn < next.tunnelCount)
    (needed : conn.connected → task.NeedsTunnel →
      conn.context ≠ none ∧ conn.tunnelEntry ≠ none) :
    Lone (next, cameUp) := by
  -- An entry is never lost.
  have kept : conn.tunnelEntry ≠ none → next.tunnelEntry ≠ none := by
    intro mapped
    rcases tunnelEntry with same | ⟨j, -, added⟩
    · rwa [same]
    · simp [added]
  refine ⟨count, fun k bound => ?_, fun k found => ?_, fun there null => ?_, ?_, ?_, ?_, ?_, ?_⟩
  · exact (lone.context k (context ▸ bound)).trans_le more
  · rcases tunnelEntry with same | ⟨j, created, added⟩
    · exact (lone.entry k (same ▸ found)).trans_le more
    · rw [added, Option.some.injEq, Option.some.injEq] at found
      exact found ▸ created
  · rcases tunnelEntry with same | ⟨j, -, added⟩
    · exact lone.live (connected ▸ there) (same ▸ null)
    · rw [added] at null
      cases null
  · dsimp only
    rw [connected, context]
    exact lone.cameUp
  · dsimp only
    rw [tasks]
    intro j here
    by_cases mover : j = i
    · subst mover
      rw [Function.update_self] at here
      refine ⟨creating here, fun l there => ?_⟩
      by_contra other
      rw [Function.update_of_ne other] at there
      exact (others l other there).2 here
    · rw [Function.update_of_ne mover] at here
      obtain ⟨none_, elsewhere⟩ := others j mover here
      refine ⟨none_, fun l there => ?_⟩
      by_cases moverOther : l = i
      · subst moverOther
        rw [Function.update_self] at there
        exact absurd there elsewhere
      · rw [Function.update_of_ne moverOther] at there
        exact (lone.creating j here).2 l there
  · dsimp only
    rw [tasks, Function.forall_update_iff conn.tasks
      fun _ task => task.pc = .addTunnel → task.tunnel < next.tunnelCount]
    exact ⟨adding, fun j _ here => (lone.adding j here).trans_le more⟩
  · dsimp only
    rw [tasks, Function.forall_update_iff conn.tasks
      fun _ task => task.pc = .push → task.clientConn < next.tunnelCount]
    exact ⟨pushing, fun j _ here => (lone.pushing j here).trans_le more⟩
  · dsimp only
    rw [tasks, connected, context, Function.forall_update_iff conn.tasks
      fun _ task => task.NeedsTunnel → conn.context ≠ none ∧ next.tunnelEntry ≠ none]
    intro there
    refine ⟨fun needs => ?_, fun j _ needs => ?_⟩
    · obtain ⟨bound, mapped⟩ := needed there needs
      exact ⟨bound, kept mapped⟩
    · obtain ⟨bound, mapped⟩ := lone.needed there j needs
      exact ⟨bound, kept mapped⟩

/-- A test that succeeds in turn finds that no tunnel was created. -/
theorem none_created (lone : Lone (conn, cameUp)) (empty : conn.context = none)
    (allUp : ∀ k < conn.tunnelCount, conn.connected ∧ k ∈ cameUp) : conn.tunnelCount = 0 := by
  by_contra more
  obtain ⟨there, up⟩ := allUp 0 (Nat.pos_iff_ne_zero.mpr more)
  -- A tunnel that had come up would be in the context.
  exact lone.cameUp there (List.ne_nil_of_mem up) empty

/-- Once the client has gone, the entry may be erased or become a null pointer. -/
theorem gone (lone : Lone (conn, cameUp)) (connected : next.connected = false)
    (context : next.context = none ∨ next.context = conn.context)
    (tunnelEntry : (∀ k, next.tunnelEntry ≠ some (some k)) ∨ next.tunnelEntry = conn.tunnelEntry)
    (tunnelCount : next.tunnelCount = conn.tunnelCount)
    (tasks : ∀ j, next.tasks j = conn.tasks j ∨ (next.tasks j).pc = .finished) :
    Lone (next, cameUp) := by
  have absent : ¬ next.connected := by simp [connected]
  -- A task at any other place was there before.
  have before : ∀ j, (next.tasks j).pc ≠ .finished → next.tasks j = conn.tasks j := by
    intro j elsewhere
    exact (tasks j).resolve_right elsewhere
  refine ⟨tunnelCount ▸ lone.count, fun k bound => ?_, fun k found => ?_,
    fun there => absurd there absent, fun there => absurd there absent, fun i here => ?_,
    fun i here => ?_, fun i here => ?_, fun there => absurd there absent⟩
  all_goals dsimp only at *
  · rcases context with emptied | same
    · rw [emptied] at bound
      cases bound
    · exact tunnelCount ▸ lone.context k (same ▸ bound)
  · rcases tunnelEntry with erased | same
    · exact absurd found (erased k)
    · exact tunnelCount ▸ lone.entry k (same ▸ found)
  · rw [before i (by simp [here])] at here
    obtain ⟨none_, only⟩ := lone.creating i here
    refine ⟨tunnelCount.trans none_, fun j there => only j ?_⟩
    rwa [before j (by simp [there])] at there
  · have same := before i (by simp [here])
    rw [same] at here ⊢
    rw [tunnelCount]
    exact lone.adding i here
  · have same := before i (by simp [here])
    rw [same] at here ⊢
    rw [tunnelCount]
    exact lone.pushing i here

/-- Every step that meets the condition keeps the tunnel alone. -/
theorem step {memory : RelayMemory} {assertions : Bool} {label : ConnectionStep}
    {after : Connection × List Nat} (lone : Lone (conn, cameUp))
    (inTurn : TunnelsInTurn (conn, cameUp) label)
    (stepped : (watchedMachine memory assertions).step (conn, cameUp) label = some after) :
    Lone after := by
  obtain ⟨next, moved, rfl⟩ := Option.map_eq_some_iff.mp stepped
  cases Connection.tunnelEvent_of_step moved with
  | quiet _ _ inside quiet =>
    rw [noteUp_of_inside inside]
    exact lone.quiet quiet
  | test i content here unchecked empty =>
    obtain ⟨free, allUp⟩ := inTurn.1 here unchecked empty
    have none_ := lone.none_created empty allUp
    exact lone.goOn rfl rfl rfl (Nat.le_refl _) lone.count (.inl rfl) (fun _ => none_)
      (fun j _ creating => absurd creating (free j)) (by simp) (by simp)
      (by simp [Task.NeedsTunnel])
  | create i content here =>
    -- The test was made alone, so this is the first tunnel.
    obtain ⟨none_, only⟩ := lone.creating i here
    have first : conn.tunnelCount + 1 ≤ 1 := Nat.succ_le_succ (Nat.le_of_eq none_)
    exact lone.goOn rfl rfl rfl (Nat.le_succ _) first (.inl rfl) (by simp)
      (fun j other creating => absurd (only j creating) other)
      (fun _ => Nat.lt_succ_self _) (by simp) (by simp [Task.NeedsTunnel])
  | add i content here =>
    exact lone.goOn rfl rfl rfl (Nat.le_refl _) lone.count (.inr ⟨_, lone.adding i here, rfl⟩)
      (by simp) (fun j _ creating => ⟨(lone.creating j creating).1, by simp⟩) (by simp) (by simp)
      (by simp [Task.NeedsTunnel])
  | found i content here bound =>
    exact lone.goOn rfl rfl rfl (Nat.le_refl _) lone.count (.inl rfl) (by simp)
      (fun j _ creating => ⟨(lone.creating j creating).1, by simp⟩) (by simp) (by simp)
      fun there _ => ⟨bound, inTurn.2 here there bound⟩
  | cast i content here k context =>
    exact lone.goOn rfl rfl rfl (Nat.le_refl _) lone.count (.inl rfl) (by simp)
      (fun j _ creating => ⟨(lone.creating j creating).1, by simp⟩) (by simp)
      (fun _ => lone.context k context) fun there _ => lone.needed there i (.inl here)
  | pushNull i content here unmapped =>
    -- While the client is connected, the task finds the tunnel in the map.
    have gone : conn.connected = false := by
      rw [← Bool.not_eq_true]
      intro there
      exact unmapped 0 (lone.entry_eq there (lone.needed there i (.inr here)).2)
    exact lone.gone gone (.inr rfl) (.inl (by simp [Connection.fail])) rfl fun _ => .inl rfl
  | close i content here dirty live =>
    exact lone.gone rfl (.inr rfl) (.inl (by simp)) rfl Connection.set_finished
  | disconnectNull _ inside null =>
    rw [noteUp_of_inside inside]
    exact ⟨lone.count, lone.context, lone.entry, lone.live, lone.cameUp, lone.creating,
      lone.adding, lone.pushing, lone.needed⟩
  | up k created =>
    refine ⟨lone.count, fun j bound => ?_, lone.entry, lone.live, fun _ _ => by simp,
      lone.creating, lone.adding, lone.pushing,
      fun there i needs => ⟨by simp, (lone.needed there i needs).2⟩⟩
    cases bound
    exact created
  | down k => exact lone.gone rfl (.inl rfl) (.inr rfl) rfl fun _ => .inl rfl
  | clientDown live => exact lone.gone rfl (.inr rfl) (.inl (by simp)) rfl fun _ => .inl rfl

end Lone

/-- A connection has one tunnel, and each request is noted where it is sent, throughout a run in
which tunnels are created and come up in turn. -/
theorem one_tunnel (memory : RelayMemory) (assertions : Bool) {labels : List ConnectionStep}
    (inTurn : (watchedMachine memory assertions).Meets TunnelsInTurn ({}, []) labels) :
    (connectionMachine memory assertions).Always Connection.OneTunnel {} labels :=
  -- The record of the tunnels that came up is only there for the condition.
  Machine.always_of_recording
    (Machine.always_of_meets (fun _ _ _ lone inTurn stepped => Lone.step lone inTurn stepped)
      (fun _ lone => lone.oneTunnel) Lone.start inTurn)

/-- A first request creates the tunnel, and is forwarded once it has come up. -/
theorem one_tunnel_forwarded :
    (connectionMachine noMemory true).Always Connection.OneTunnel {}
      (firstForward ++ List.replicate 6 (.work 0 [])) := by
  apply one_tunnel
  refine ⟨trivial, fun _ stepped => ?_⟩
  cases stepped
  iterate 3
    refine ⟨⟨fun here => (by cases here), fun here => (by cases here)⟩, fun _ stepped => ?_⟩
    cases stepped
  -- The first test finds that nothing has been created.
  refine ⟨⟨fun _ _ _ => ⟨fun j here => ?_, fun k below => absurd below (Nat.not_lt_zero k)⟩,
    fun here => (by cases here)⟩, fun _ stepped => ?_⟩
  · by_cases first : j = 0
    · subst first
      cases here
    · -- No other task was ever enqueued.
      have other : j ≠ Connection.taskCount {} := first
      simp only [Connection.set_other first, Connection.onServerMessage_other _ other] at here
      cases here
  cases stepped
  iterate 2
    refine ⟨⟨fun here => (by cases here), fun here => (by cases here)⟩, fun _ stepped => ?_⟩
    cases stepped
  refine ⟨trivial, fun _ stepped => ?_⟩
  cases stepped
  iterate 2
    refine ⟨⟨fun here => (by cases here), fun here => (by cases here)⟩, fun _ stepped => ?_⟩
    cases stepped
  -- In its second pass, the task has the flag set.
  refine ⟨⟨fun _ flag => (by cases flag), fun here => (by cases here)⟩, fun _ stepped => ?_⟩
  cases stepped
  -- The tunnel is in the map when the test of the context succeeds.
  refine ⟨⟨fun here => (by cases here), fun _ _ _ none_ => (by cases none_)⟩,
    fun _ stepped => ?_⟩
  cases stepped
  iterate 7
    refine ⟨⟨fun here => (by cases here), fun here => (by cases here)⟩, fun _ stepped => ?_⟩
    cases stepped
  trivial

/-- Two tasks create a tunnel each, and a url goes to the second tunnel while its request goes to
the first. -/
theorem two_tunnels :
    ∃ conn,
      (connectionMachine noMemory true).run {}
          ([.deliver getA, .deliver getB] ++ List.replicate 4 (.work 0 []) ++
            List.replicate 6 (.work 1 []) ++ List.replicate 2 (.work 0 []) ++ [.backendUp 0] ++
            List.replicate 5 (.work 1 [])) =
        some conn ∧
      conn.connected ∧ conn.tunnelCount = 2 ∧ (conn.tasks 1).pc = .push ∧
      conn.tunnelEntry = some (some 1) ∧ conn.context = some 0 ∧ (conn.tasks 1).clientConn = 0 ∧
      ¬ conn.OneTunnel := by
  -- One tunnel at most would make two at most one.
  refine ⟨_, rfl, rfl, rfl, rfl, rfl, rfl, rfl, fun one => ?_⟩
  have single : 2 ≤ 1 := one.single rfl
  omega

end EnhancedProxy
