import Mathlib.Data.List.Basic
import Mathlib.Logic.Function.Basic

/-! Numbered handles below a limit, each with its owner, where a new one gets the lowest number. -/

/-- The owners of the handles in use, all of which are below the limit. -/
structure Handles (κ : Type*) where
  limit : Nat
  owner : Nat → Option κ
  within : ∀ n, limit ≤ n → owner n = none

namespace Handles

variable {κ : Type*}

/-- The lowest number that is free, if there is one. -/
def free (handles : Handles κ) : Option Nat :=
  (List.range handles.limit).find? fun n => (handles.owner n).isNone

/-- The lowest free number is free. -/
theorem free_some {handles : Handles κ} {n : Nat} (found : handles.free = some n) :
    n < handles.limit ∧ handles.owner n = none := by
  -- The search runs over the numbers below the limit and stops at one without owner.
  refine ⟨List.mem_range.mp (List.mem_of_find?_eq_some found), ?_⟩
  have empty := List.find?_some found
  exact Option.isNone_iff_eq_none.mp empty

/-- If no number is free, every one below the limit has an owner. -/
theorem free_eq_none {handles : Handles κ} :
    handles.free = none ↔ ∀ n < handles.limit, handles.owner n ≠ none := by
  simp [free]

/-- Give a free number to an owner. -/
def give (handles : Handles κ) (n : Nat) (k : κ) (inside : n < handles.limit) : Handles κ where
  limit := handles.limit
  owner := Function.update handles.owner n (some k)
  within m outside := by
    rw [Function.update_of_ne (by omega)]
    exact handles.within m outside

/-- A new handle, unless all numbers are in use. -/
def take (handles : Handles κ) (k : κ) : Option (Nat × Handles κ) :=
  match found : handles.free with
  | none => none
  | some n => some (n, handles.give n k (free_some found).1)

/-- Close a handle. -/
def close (handles : Handles κ) (n : Nat) : Handles κ where
  limit := handles.limit
  owner := Function.update handles.owner n none
  within m outside := by
    by_cases same : m = n
    · subst same
      exact Function.update_self _ _ _
    · rw [Function.update_of_ne same]
      exact handles.within m outside

variable {handles after : Handles κ} {k : κ} {n m : Nat}

@[simp] theorem close_owner : (handles.close n).owner m = if m = n then none else handles.owner m :=
  Function.update_apply _ _ _ _

/-- Only a number that was free gets an owner. -/
theorem take_some (taken : handles.take k = some (n, after)) :
    handles.owner n = none ∧
      ∀ m, after.owner m = if m = n then some k else handles.owner m := by
  -- A taken handle is the one that was found free, and only its owner changes.
  unfold take at taken
  split at taken
  · cases taken
  · rename_i found
    cases taken
    exact ⟨(free_some found).2, fun m => Function.update_apply _ _ _ _⟩

/-- A number that has an owner keeps it when another is given away. -/
theorem owner_take {j : κ} (taken : handles.take j = some (m, after))
    (owned : handles.owner n = some k) : after.owner n = some k := by
  -- The handle taken was free, so it is not the owned one.
  obtain ⟨empty, owners⟩ := take_some taken
  have away : n ≠ m := by
    intro same
    subst same
    rw [empty] at owned
    cases owned
  rw [owners, if_neg away, owned]

/-- No handle is left exactly if every number has an owner. -/
theorem take_eq_none : handles.take k = none ↔ handles.free = none := by
  -- Taking fails exactly when the search for a free handle does.
  unfold take
  split
  · rename_i found
    simp [found]
  · rename_i found
    simp [found]

/-- A number that is closed is free. -/
theorem free_close (inUse : handles.owner n ≠ none) : (handles.close n).free ≠ none := by
  -- The closed handle lies within the limit, as it was in use, and is free now.
  intro full
  have inside : n < handles.limit := by
    by_contra outside
    exact inUse (handles.within n (Nat.le_of_not_lt outside))
  exact free_eq_none.mp full n inside (by simp)

/-- Closing another handle takes no number away. -/
theorem free_close_of_free (room : handles.free ≠ none) : (handles.close n).free ≠ none := by
  -- A number that was free is free after the closing as well.
  intro full
  refine room (free_eq_none.mpr fun m inside empty => ?_)
  refine free_eq_none.mp full m inside ?_
  rw [close_owner, empty, ite_self]

end Handles
