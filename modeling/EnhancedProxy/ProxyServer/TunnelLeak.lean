import EnhancedProxy.ProxyServer.Conservation
import EnhancedProxy.ProxyServer.TunnelMap

/-! When the map of tunnels keeps no entry of a connection that is gone. -/

namespace EnhancedProxy

namespace Connection

/-- Once the down callback has run and no task is running or queued, the map has no entry. The
second component says whether the callback has run. -/
def NoLeak (noted : Connection × Bool) : Prop :=
  noted.2 → (∀ i, ¬ (noted.1.tasks i).Unfinished) → noted.1.tunnelEntry = none

/-- No tunnel is added to the map once the down callback has run. -/
def AddedBeforeDown (noted : Connection × Bool) : ConnectionStep → Prop
  | .work i _ => (noted.1.tasks i).pc = .addTunnel → noted.2 = false
  | _ => True

variable {memory : RelayMemory} {conn next : Connection} {i j : Nat} {assertions : Bool}
  {content : Bytes}

/-- A task that was never enqueued stays so, unless a chunk brings it. -/
theorem absent_of_step {label : ConnectionStep} (absent : (conn.tasks j).pc = .absent)
    (elsewhere : ∀ chunk, label = .deliver chunk → conn.taskCount ≠ j)
    (stepped : (connectionMachine memory assertions).step conn label = some next) :
    (next.tasks j).pc = .absent := by
  -- The chunk is the only step that enqueues a task.
  simp only [connectionMachine] at stepped
  split at stepped
  · cases stepped
  · cases label with
    | deliver chunk =>
      cases stepped
      rw [onServerMessage_other chunk (elsewhere chunk rfl).symm]
      exact absent
    | work i content =>
      have other : j ≠ i := by
        rintro rfl
        simp [work, absent] at stepped
      rw [work_other other stepped]
      exact absent
    | respond k chunk =>
      simp only [Option.ite_none_right_eq_some, Option.some.injEq] at stepped
      obtain ⟨-, rfl⟩ := stepped
      unfold respond
      split
      · exact absent
      · exact absent
    | backendUp k | backendDown k =>
      simp only [Option.ite_none_right_eq_some, Option.some.injEq] at stepped
      obtain ⟨-, rfl⟩ := stepped
      exact absent
    | clientDown =>
      simp only [Option.some.injEq, onServerConnectionDown] at stepped
      subst stepped
      split
      · exact absent
      · exact absent

end Connection

/-- Note that the down callback has run. -/
def noteDown (down : Bool) : ConnectionStep → Bool
  | .clientDown => true
  | _ => down

/-- The connection, together with whether its down callback has run. -/
def downMachine (memory : RelayMemory) (assertions : Bool) :
    Machine (Connection × Bool) ConnectionStep :=
  (connectionMachine memory assertions).recording noteDown

/-- After the down callback the entry is erased, unless a task has called through a null pointer and
so has not come to its end. A null pointer is in the map only after that. -/
structure Erased (noted : Connection × Bool) : Prop where
  null : noted.1.fault = none → noted.1.tunnelEntry ≠ some none
  gone : noted.2 → noted.1.tunnelEntry = none ∨
    noted.1.fault ≠ none ∧ ∃ i, (noted.1.tasks i).pc = .push

namespace Erased

variable {memory : RelayMemory} {assertions : Bool} {conn next : Connection} {down : Bool}

/-- A new connection has no entry. -/
theorem start : Erased ({}, false) where
  -- Nothing was added to the map.
  null _ := by simp
  gone _ := .inl rfl

/-- An erased entry leaks nothing. -/
theorem noLeak {noted : Connection × Bool} (erased : Erased noted) : Connection.NoLeak noted := by
  intro went idle
  rcases erased.gone went with none_ | ⟨-, i, here⟩
  · exact none_
  · -- A task that failed in its `pushCache` is still running.
    exact absurd ⟨by simp [here], by simp [here]⟩ (idle i)

/-- A step that keeps the entry keeps it erased. -/
theorem keep (erased : Erased (conn, down)) (running : conn.fault = none)
    (tunnelEntry : next.tunnelEntry = conn.tunnelEntry) : Erased (next, down) where
  -- The entry is the same, and the process was running.
  null _ := by
    rw [tunnelEntry]
    exact erased.null running
  gone went := by
    rw [tunnelEntry]
    exact .inl ((erased.gone went).resolve_right fun failed => failed.1 running)

/-- The down callback erases the entry, which is no null pointer. -/
theorem clientDown (erased : Erased (conn, down))
    (stepped : (connectionMachine memory assertions).step conn .clientDown = some next) :
    Erased (next, true) := by
  -- A connection without a fault has a live tunnel in the map, or none.
  have running := Connection.running_of_step stepped
  have live : conn.tunnelEntry ≠ some none := erased.null running
  cases Connection.clientDown_of_step stepped
  rw [Connection.onServerConnectionDown, if_neg live]
  exact ⟨fun _ => by simp, fun _ => .inl rfl⟩

/-- Every step that meets the condition keeps the entry erased. -/
theorem step {label : ConnectionStep} {after : Connection × Bool} (erased : Erased (conn, down))
    (before : Connection.AddedBeforeDown (conn, down) label)
    (stepped : (downMachine memory assertions).step (conn, down) label = some after) :
    Erased after := by
  obtain ⟨next, moved, rfl⟩ := Option.map_eq_some_iff.mp stepped
  have running : conn.fault = none := Connection.running_of_step moved
  by_cases ended : label = .clientDown
  · subst ended
    exact erased.clientDown moved
  · -- The callback has run only if it had run before.
    have noted : noteDown down label = down := by
      cases label with
      | clientDown => exact absurd rfl ended
      | deliver | work | respond | backendUp | backendDown => rfl
    show Erased (next, noteDown down label)
    rw [noted]
    -- Only three events change the entry, and two of them erase it or end the process.
    cases Connection.tunnelEvent_of_step moved with
    | quiet _ _ _ quiet => exact erased.keep running quiet.tunnelEntry
    | test | create | found | cast | up | down => exact erased.keep running rfl
    | add i content here =>
      have early : down = false := before here
      exact ⟨fun _ => by simp [Connection.addTunnel], fun went => by simp [early] at went⟩
    | pushNull i content here =>
      exact ⟨by simp [Connection.fail], fun _ => .inr ⟨by simp [Connection.fail], i, here⟩⟩
    | close => exact ⟨fun _ => by simp, fun _ => .inl rfl⟩
    | disconnectNull _ _ null => exact absurd null (erased.null running)
    | clientDown => exact absurd rfl ended

end Erased

/-- A connection that is gone has no entry in the map, throughout a run in which no tunnel is added
after its down callback has run. -/
theorem no_tunnel_leak (memory : RelayMemory) (assertions : Bool) {labels : List ConnectionStep}
    (before : (downMachine memory assertions).Meets Connection.AddedBeforeDown ({}, false) labels) :
    (downMachine memory assertions).Always Connection.NoLeak ({}, false) labels :=
  -- A tunnel added before its down callback is erased by it.
  Machine.always_of_meets (fun _ _ _ erased before stepped => Erased.step erased before stepped)
    (fun _ erased => erased.noLeak) Erased.start before

/-- A request is forwarded, its task ends, and the client goes. -/
theorem no_tunnel_leak_forwarded :
    (downMachine noMemory true).Always Connection.NoLeak ({}, false)
      (firstForward ++ List.replicate 6 (.work 0 []) ++ [.clientDown]) := by
  apply no_tunnel_leak
  refine ⟨trivial, fun _ stepped => ?_⟩
  cases stepped
  iterate 5
    refine ⟨fun here => (by cases here), fun _ stepped => ?_⟩
    cases stepped
  -- The client is still there when the tunnel is added.
  refine ⟨fun _ => rfl, fun _ stepped => ?_⟩
  cases stepped
  refine ⟨trivial, fun _ stepped => ?_⟩
  cases stepped
  iterate 11
    refine ⟨fun here => (by cases here), fun _ stepped => ?_⟩
    cases stepped
  exact ⟨trivial, fun _ _ => trivial⟩

/-- The client goes between the test for a tunnel and its creation, and its request is forwarded. -/
def lateTunnel : List ConnectionStep :=
  .deliver getA :: List.replicate 4 (.work 0 []) ++ .clientDown :: List.replicate 2 (.work 0 []) ++
    .backendUp 0 :: List.replicate 11 (.work 0 [])

/-- A tunnel that is added after the down callback stays in the map. -/
theorem tunnel_leaked :
    ¬ (downMachine noMemory true).Always Connection.NoLeak ({}, false) lateTunnel := by
  intro always
  -- The run ends with the entry in the map.
  have ran : (downMachine noMemory true).run ({}, false) lateTunnel = some _ := rfl
  have plain := Machine.recording_run (connectionMachine noMemory true) noteDown ({}, false)
    lateTunnel
  have noLeak := always _ _ (List.prefix_refl _) ran
  refine absurd (noLeak rfl fun i unfinished => ?_) (by decide)
  by_cases first : i = 0
  · subst first
    exact unfinished.2 rfl
  · -- No other task was ever enqueued.
    have elsewhere : (connectionMachine noMemory true).Meets
        (fun conn label => ∀ chunk, label = .deliver chunk → conn.taskCount ≠ i) {} lateTunnel := by
      refine ⟨fun _ _ => Ne.symm first, fun _ _ => Machine.meets_of_forall ?_⟩
      intro label member _ chunk same
      simp [same] at member
    exact unfinished.1 (Machine.run_invariant_of_meets
      (fun _ _ _ absent elsewhere stepped => Connection.absent_of_step absent elsewhere stepped)
      rfl elsewhere (plain.symm.trans (congrArg _ ran)))

end EnhancedProxy
