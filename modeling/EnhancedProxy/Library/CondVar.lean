import Mathlib.Data.Finset.Erase
import Mathlib.Data.Finset.Card
import Mathlib.Data.Finset.Insert

/-! Condition variables, with the set of threads that are blocked in `wait`. -/

/-- A condition variable. -/
structure CondVar (τ : Type*) where
  blocked : Finset τ := ∅

namespace CondVar

variable {τ : Type*} [DecidableEq τ]

/-- `wait`, which releases the lock and blocks the thread in one step. -/
def wait (v : CondVar τ) (t : τ) : CondVar τ := ⟨insert t v.blocked⟩

/-- A blocked thread goes on, to lock again. -/
def wake (v : CondVar τ) (t : τ) : Option (CondVar τ) :=
  if t ∈ v.blocked then some ⟨v.blocked.erase t⟩ else none

/-- `notify_one`, which lets one blocked thread go on, unless there is none. -/
def notifyOne (v : CondVar τ) : Option τ → Option (CondVar τ)
  | some t => v.wake t
  | none => if v.blocked = ∅ then some v else none

variable {v next : CondVar τ} {t u : τ}

/-- A thread that waits is blocked, with those that were blocked before. -/
@[simp] theorem mem_wait : u ∈ (v.wait t).blocked ↔ u = t ∨ u ∈ v.blocked := Finset.mem_insert

/-- The thread that goes on is the only one to do so. -/
theorem mem_of_wake (woken : v.wake t = some next) :
    u ∈ next.blocked ↔ u ≠ t ∧ u ∈ v.blocked := by
  -- A wake-up that is taken removes the thread from those blocked, and no other.
  unfold wake at woken
  split at woken
  · cases woken
    exact Finset.mem_erase
  · cases woken

/-- Only a blocked thread goes on. -/
theorem blocked_of_wake (woken : v.wake t = some next) : t ∈ v.blocked := by
  -- Waking a thread that is not blocked is refused.
  unfold wake at woken
  split at woken
  · rename_i blocked
    exact blocked
  · cases woken

/-- A notification that lets nobody go on finds nobody blocked. -/
theorem notifyOne_none : v.notifyOne none = some next ↔ v.blocked = ∅ ∧ next = v := by
  -- A notification may choose nobody only where nobody is blocked.
  simp only [notifyOne]
  split
  · simp [*, eq_comm]
  · simp [*]

/-- A notification blocks nobody. -/
theorem mem_of_notifyOne {choice : Option τ} (notified : v.notifyOne choice = some next)
    (blocked : u ∈ next.blocked) : u ∈ v.blocked := by
  -- A notification wakes one blocked thread or nobody, and blocks nobody.
  cases choice with
  | some t => exact ((mem_of_wake notified).mp blocked).2
  | none =>
    obtain ⟨-, rfl⟩ := notifyOne_none.mp notified
    exact blocked

/-- After a notification, not all threads of a nonempty group are blocked, if nobody outside the
group was. -/
theorem exists_free_of_notifyOne {group : Finset τ} (some_ : group.Nonempty)
    (within : ∀ t ∈ v.blocked, t ∈ group) {choice : Option τ}
    (notified : v.notifyOne choice = some next) : ∃ t ∈ group, t ∉ next.blocked := by
  cases choice with
  | some t =>
    -- The notified thread was blocked, and is not any more.
    refine ⟨t, within t (blocked_of_wake notified), fun still => ?_⟩
    exact ((mem_of_wake notified).mp still).1 rfl
  | none =>
    obtain ⟨none_, rfl⟩ := notifyOne_none.mp notified
    obtain ⟨t, member⟩ := some_
    exact ⟨t, member, by simp [none_]⟩

/-- Some notification is always possible. -/
theorem exists_notifyOne (v : CondVar τ) : ∃ choice next, v.notifyOne choice = some next := by
  -- Any blocked thread can be chosen, and nobody where there is none.
  rcases v.blocked.eq_empty_or_nonempty with none_ | ⟨t, blocked⟩
  · exact ⟨none, v, notifyOne_none.mpr ⟨none_, rfl⟩⟩
  · exact ⟨some t, _, if_pos blocked⟩

/-- A notification lets at most one more thread of a group go on. -/
theorem awake_notifyOne {group : Finset τ} {choice : Option τ}
    (notified : v.notifyOne choice = some next) :
    (group.filter (· ∉ next.blocked)).card ≤ (group.filter (· ∉ v.blocked)).card + 1 := by
  cases choice with
  | none =>
    obtain ⟨-, rfl⟩ := notifyOne_none.mp notified
    exact Nat.le_succ _
  | some t =>
    -- Whoever goes on afterwards did so before, or is the one that was let go.
    have within : group.filter (· ∉ next.blocked) ⊆ insert t (group.filter (· ∉ v.blocked)) := by
      intro u awake
      obtain ⟨inside, free⟩ := Finset.mem_filter.mp awake
      rw [Finset.mem_insert]
      by_cases own : u = t
      · exact .inl own
      · refine .inr (Finset.mem_filter.mpr ⟨inside, fun blocked => free ?_⟩)
        exact (mem_of_wake notified).mpr ⟨own, blocked⟩
    exact (Finset.card_le_card within).trans (Finset.card_insert_le _ _)

/-- A thread of the group that blocks is one less to go on. -/
theorem awake_wait {group : Finset τ} (member : t ∈ group) (free : t ∉ v.blocked) :
    (group.filter (· ∉ (v.wait t).blocked)).card < (group.filter (· ∉ v.blocked)).card := by
  -- The waiting thread was awake before and is not any more, and nobody wakes up.
  apply Finset.card_lt_card
  rw [Finset.ssubset_iff_of_subset]
  · refine ⟨t, Finset.mem_filter.mpr ⟨member, free⟩, fun awake => ?_⟩
    exact (Finset.mem_filter.mp awake).2 (mem_wait.mpr (.inl rfl))
  · intro u awake
    obtain ⟨inside, unblocked⟩ := Finset.mem_filter.mp awake
    exact Finset.mem_filter.mpr ⟨inside, fun blocked => unblocked (mem_wait.mpr (.inr blocked))⟩

end CondVar
