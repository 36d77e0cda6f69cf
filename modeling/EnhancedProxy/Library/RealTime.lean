import EnhancedProxy.Library.Machine
import Mathlib.Data.List.Basic

/-! Calls with the times they took, and the sequential orders that respect these times. -/

/-- A call, with the times at which it began and finished. -/
structure TimedCall (ℓ : Type*) where
  call : ℓ
  start : Nat
  finish : Nat
  deriving DecidableEq, Repr

namespace TimedCall

variable {σ ℓ : Type*}

/-- No call comes after one that began when it had already finished. -/
def RealTime (order : List (TimedCall ℓ)) : Prop :=
  order.Pairwise fun earlier later => ¬ later.finish < earlier.start

instance (order : List (TimedCall ℓ)) : Decidable (RealTime order) :=
  inferInstanceAs (Decidable (order.Pairwise _))

/-- Make the calls one after the other. -/
def replay (m : Machine σ ℓ) (s : σ) (order : List (TimedCall ℓ)) : Option σ :=
  m.run s (order.map (·.call))

/-- The calls, made one after the other, pass through a state, and those that come later finished no
earlier than the given time. -/
def Passes (m : Machine σ ℓ) (s : σ) (order : List (TimedCall ℓ)) (t : σ) (since : Nat) : Prop :=
  ∃ front back, order = front ++ back ∧ replay m s front = some t ∧
    ∀ later ∈ back, since ≤ later.finish

variable {m : Machine σ ℓ} {s t u : σ} {order front back : List (TimedCall ℓ)}
  {call : TimedCall ℓ} {since : Nat}

/-- A call may be placed where all before it began before it finished, and all after it finished
after it began. -/
theorem RealTime.insert (ordered : RealTime (front ++ back))
    (begun : ∀ earlier ∈ front, earlier.start ≤ call.finish)
    (running : ∀ later ∈ back, call.start ≤ later.finish) : RealTime (front ++ call :: back) := by
  -- The order of the others is kept, so only the pairs with the inserted call are new.
  obtain ⟨orderedFront, orderedBack, across⟩ := List.pairwise_append.mp ordered
  refine List.pairwise_append.mpr ⟨orderedFront, List.pairwise_cons.mpr ⟨?_, orderedBack⟩, ?_⟩
  · exact fun later member => Nat.not_lt.mpr (running later member)
  · intro earlier first later member
    rcases List.mem_cons.mp member with rfl | last
    · exact Nat.not_lt.mpr (begun earlier first)
    · exact across earlier first later last

/-- The last call may be any that finished after all others began. -/
theorem RealTime.append (ordered : RealTime order)
    (begun : ∀ earlier ∈ order, earlier.start ≤ call.finish) : RealTime (order ++ [call]) :=
  RealTime.insert (by rwa [List.append_nil]) begun nofun

/-- Calls that are made one after the other end in the state they pass through last. -/
theorem Passes.last (ran : replay m s order = some t) (since : Nat) : Passes m s order t since :=
  ⟨order, [], (List.append_nil order).symm, ran, nofun⟩

/-- One more call at the end. -/
theorem Passes.append (passes : Passes m s order t since) (running : since ≤ call.finish) :
    Passes m s (order ++ [call]) t since := by
  -- The order passes the same state as before, and the new call finishes late enough.
  obtain ⟨front, back, rfl, ran, later⟩ := passes
  refine ⟨front, back ++ [call], List.append_assoc _ _ _, ran, fun other member => ?_⟩
  rcases List.mem_append.mp member with old | new
  · exact later other old
  · rw [List.mem_singleton.mp new]
    exact running

/-- The last call is made in the state that the others leave. -/
theorem replay_append (ran : replay m s order = some t) (call : TimedCall ℓ) :
    replay m s (order ++ [call]) = m.step t call.call := by
  -- The replay of the others ends in the state where the last call is made.
  unfold replay at ran ⊢
  rw [List.map_append, Machine.run_append, ran, Option.bind_some, List.map_singleton,
    Machine.run_cons]
  cases m.step t call.call <;> rfl

/-- A call that changes nothing may be left out. -/
theorem replay_insert (ran : replay m s front = some t) (idle : m.step t call.call = some t)
    (back : List (TimedCall ℓ)) :
    replay m s (front ++ call :: back) = replay m s (front ++ back) := by
  -- The replay comes to the state in which the call does nothing, and goes on from the same state.
  unfold replay at ran ⊢
  rw [List.map_append, List.map_append, Machine.run_append, Machine.run_append, ran,
    Option.bind_some, Option.bind_some, List.map_cons, Machine.run_cons, idle, Option.bind_some]

/-- With a call in between that changes nothing, the others pass through the same states. -/
theorem Passes.insert (passes : Passes m s (front ++ back) u since)
    (ran : replay m s front = some t) (idle : m.step t call.call = some t)
    (running : since ≤ call.finish) : Passes m s (front ++ call :: back) u since := by
  obtain ⟨first, second, split, ranFirst, later⟩ := passes
  rcases List.append_eq_append_iff.mp split with ⟨more, rfl, rfl⟩ | ⟨more, rfl, rfl⟩
  · -- The call comes before the state is passed.
    refine ⟨front ++ call :: more, second, by simp, ?_, later⟩
    rw [replay_insert ran idle, ranFirst]
  · -- The call comes after the state is passed.
    refine ⟨first, more ++ call :: back, by simp, ranFirst, fun other member => ?_⟩
    rcases List.mem_append.mp member with old | new
    · exact later other (List.mem_append_left back old)
    · rcases List.mem_cons.mp new with rfl | old
      · exact running
      · exact later other (List.mem_append_right more old)

/-- A call that changes nothing in a state that the order passes through is given its place there.
-/
theorem Passes.place (call : TimedCall ℓ) (passes : Passes m s order t call.start)
    (idle : m.step t call.call = some t) (ordered : RealTime order)
    (begun : ∀ earlier ∈ order, earlier.start ≤ call.finish) :
    ∃ placed, placed.Perm (order ++ [call]) ∧ RealTime placed ∧
      replay m s placed = replay m s order ∧
      ∀ u since, Passes m s order u since → since ≤ call.finish → Passes m s placed u since := by
  -- The call is put where the replay passes the state in which it does nothing.
  obtain ⟨front, back, rfl, ran, later⟩ := passes
  refine ⟨front ++ call :: back, ?_, ?_, replay_insert ran idle back,
    fun u since other running => ?_⟩
  · rw [List.append_assoc]
    exact List.Perm.append_left front (List.perm_append_singleton call back).symm
  -- Those before it had begun when it finished, and those after it finish after its start.
  · have begunFront (earlier : TimedCall ℓ) (first : earlier ∈ front) :=
      begun earlier (List.mem_append_left back first)
    exact ordered.insert begunFront later
  · exact other.insert ran idle running

end TimedCall
