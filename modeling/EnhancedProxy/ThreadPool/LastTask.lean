import EnhancedProxy.ThreadPool.PoolLaws

/-! What the slots of the ring hold on to: the last task each was given. -/

namespace EnhancedProxy

open CircleQueue

namespace Pool

variable {T : Type}

/-- A producer that begins a `write` holds its task, unless the call is refused. -/
theorem callWrite_holds {pool next : Pool T} {p : Nat} {obj : T}
    (called : pool.callWrite p obj = some next) :
    next.queue.circleArray = pool.queue.circleArray ∧
      ((next.producers p).writing = some obj ∧ (∀ q, q ≠ p → next.producers q = pool.producers q) ∨
        (next.producers p).writing = none ∧ next.producers = pool.producers) := by
  -- A call that is refused leaves nobody with the task.
  obtain ⟨idle, ⟨-, rfl⟩ | ⟨-, -, rfl⟩ | ⟨-, rfl⟩⟩ := callWrite_cases called
  · exact ⟨rfl, .inl ⟨by simp, fun q other => Function.update_of_ne other _ _⟩⟩
  · refine ⟨announce_circleArray, .inl ⟨by simp [grant], fun q other => ?_⟩⟩
    exact Function.update_of_ne other _ _
  · exact ⟨announce_circleArray, .inr ⟨idle, rfl⟩⟩

/-- The last task that was accepted for a slot. -/
def lastAccepted (pool : Pool T) (s : Nat) : Option T :=
  (pool.accepted.filter fun entry => entry.1 % size = s).getLast?.map Prod.snd

/-- Each slot holds the last task that was accepted for it, whether that has been read or not. -/
def KeepsLast [Inhabited T] (pool : Pool T) : Prop :=
  ∀ s, pool.queue.circleArray s = (pool.lastAccepted s).getD default

/-- No task was accepted, and every slot holds `T()`. -/
theorem KeepsLast.start [Inhabited T] : (Pool.new : Pool T).KeepsLast := fun _ => rfl

/-- A step that writes no slot keeps what the slots hold. -/
theorem KeepsLast.congr [Inhabited T] {pool next : Pool T} (keeps : pool.KeepsLast)
    (slots : next.queue.circleArray = pool.queue.circleArray)
    (accepted : next.accepted = pool.accepted) : next.KeepsLast := by
  -- Neither the slots nor the accepted tasks have changed.
  intro s
  rw [slots, keeps s, lastAccepted, lastAccepted, accepted]

/-- A slot changes only when a task is accepted for it. -/
theorem KeepsLast.step [Inhabited T] {pool next : Pool T} {label : PoolStep T}
    (keeps : pool.KeepsLast) (stepped : (poolMachine T).step pool label = some next) :
    next.KeepsLast := by
  -- Only writing a slot changes one, and it is then the last task accepted there.
  cases label with
  | callWrite p obj =>
    obtain ⟨-, ⟨-, rfl⟩ | ⟨-, -, rfl⟩ | ⟨-, rfl⟩⟩ := callWrite_cases stepped
    · exact keeps.congr rfl rfl
    · exact keeps.congr announce_circleArray rfl
    · exact keeps.congr announce_circleArray rfl
  | writeSlot p =>
    obtain ⟨obj, -, rfl⟩ := Option.map_eq_some_iff.mp stepped
    intro s
    simp only [lastAccepted, List.filter_append]
    by_cases own : s = (pool.producers p).curWriteId % size
    · subst own
      simp [CircleQueue.write]
    · have other : ¬ (pool.producers p).curWriteId % size = s := fun same => own same.symm
      simp only [CircleQueue.write, Function.update_of_ne own, List.filter_cons, other,
        decide_false, Bool.false_eq_true, if_false, List.filter_nil, List.append_nil]
      exact keeps s
  | callRead c =>
    obtain ⟨-, space, -, rfl⟩ | ⟨-, rfl⟩ := callRead_cases stepped
    · exact keeps.congr rfl rfl
    · exact keeps.congr rfl rfl
  | readSlot c =>
    obtain ⟨-, rfl⟩ := readSlot_eq_some.mp stepped
    exact keeps.congr rfl rfl

end Pool

end EnhancedProxy
