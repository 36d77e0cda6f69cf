import Mathlib.Logic.Function.Basic
import Mathlib.Tactic.TypeStar

/-! Stores whose entries have a time to live, set apart from their values. -/

namespace Expiring

/-- A value, and the last moment at which it can be read. -/
structure Cell (ν : Type*) where
  value : ν
  deadline : Option Nat
  deriving DecidableEq, Repr

/-- A store holds at most one cell for each key. -/
abbrev Store (κ ν : Type*) := κ → Option (Cell ν)

variable {κ ν : Type*}

/-- A cell without a deadline is alive for ever. -/
def Cell.alive (now : Nat) (cell : Cell ν) : Bool :=
  match cell.deadline with
  | none => true
  | some deadline => now ≤ deadline

namespace Store

/-- The cell of a key, unless its time is over. -/
def visible (store : Store κ ν) (now : Nat) (k : κ) : Option (Cell ν) :=
  (store k).filter (·.alive now)

/-- The value that is read for a key. -/
def lookup (store : Store κ ν) (now : Nat) (k : κ) : Option ν :=
  (store.visible now k).map (·.value)

variable [DecidableEq κ]

/-- Give a key a value that has no deadline, unless one can be read already. -/
def setIfAbsent (store : Store κ ν) (now : Nat) (k : κ) (v : ν) : Store κ ν :=
  match store.visible now k with
  | none => Function.update store k (some { value := v, deadline := none })
  | some _ => store

/-- Let a key live on for the given time from now, if it is alive. -/
def setLifetime (store : Store κ ν) (now : Nat) (k : κ) (lifetime : Nat) : Store κ ν :=
  match store.visible now k with
  | none => store
  | some cell => Function.update store k (some { cell with deadline := some (now + lifetime) })

/-- Forget a key. -/
def remove (store : Store κ ν) (k : κ) : Store κ ν := Function.update store k none

omit [DecidableEq κ] in
/-- What can be read later can be read now. -/
theorem lookup_mono {store : Store κ ν} {now later : Nat} {k : κ} {v : ν} (after : now ≤ later)
    (found : store.lookup later k = some v) : store.lookup now k = some v := by
  obtain ⟨cell, visible, rfl⟩ := Option.map_eq_some_iff.mp found
  obtain ⟨stored, alive⟩ := Option.filter_eq_some_iff.mp visible
  -- The deadline is not before the later reading, and so not before the earlier one.
  have still : cell.alive now = true := by
    unfold Cell.alive at alive ⊢
    split at alive
    · rfl
    · simp only [decide_eq_true_eq] at alive ⊢
      omega
  exact Option.map_eq_some_iff.mpr ⟨cell, Option.filter_eq_some_iff.mpr ⟨stored, still⟩, rfl⟩

/-- Setting a key leaves the others alone. -/
theorem setIfAbsent_other (store : Store κ ν) (now : Nat) {k other : κ} (differs : other ≠ k)
    (v : ν) : store.setIfAbsent now k v other = store other := by
  -- Either nothing is set, or the key alone is.
  rw [setIfAbsent]
  cases store.visible now k with
  | none => exact Function.update_of_ne differs _ _
  | some cell => rfl

/-- The lifetime of a key is no concern of the others. -/
theorem setLifetime_other (store : Store κ ν) (now : Nat) {k other : κ} (differs : other ≠ k)
    (lifetime : Nat) : store.setLifetime now k lifetime other = store other := by
  -- As for setting: no cell but that of the key is written.
  rw [setLifetime]
  cases store.visible now k with
  | none => rfl
  | some cell => exact Function.update_of_ne differs _ _

/-- Setting a key gives no other value to any key. -/
theorem setIfAbsent_value {store : Store κ ν} {now : Nat} {k other : κ} {v : ν} {cell : Cell ν}
    (stored : store.setIfAbsent now k v other = some cell) :
    store other = some cell ∨ (other = k ∧ cell.value = v) := by
  -- Only a key without a visible value is given the new one.
  rw [setIfAbsent] at stored
  cases seen : store.visible now k with
  | none =>
    simp only [seen] at stored
    by_cases same : other = k
    · rw [same, Function.update_self, Option.some.injEq] at stored
      exact .inr ⟨same, by rw [← stored]⟩
    · rw [Function.update_of_ne same] at stored
      exact .inl stored
  | some old =>
    simp only [seen] at stored
    exact .inl stored

/-- A new lifetime leaves every key its value. -/
theorem setLifetime_value {store : Store κ ν} {now : Nat} {k other : κ} {lifetime : Nat}
    {cell : Cell ν} (stored : store.setLifetime now k lifetime other = some cell) :
    ∃ old, store other = some old ∧ old.value = cell.value := by
  -- Only the deadline of a visible cell is renewed; its value is the old one.
  rw [setLifetime] at stored
  cases seen : store.visible now k with
  | none =>
    simp only [seen] at stored
    exact ⟨cell, stored, rfl⟩
  | some old =>
    simp only [seen] at stored
    by_cases same : other = k
    · rw [same, Function.update_self, Option.some.injEq] at stored
      exact ⟨old, same ▸ (Option.filter_eq_some_iff.mp seen).1, by rw [← stored]⟩
    · rw [Function.update_of_ne same] at stored
      exact ⟨cell, stored, rfl⟩

/-- After setting a key, its cell can be read: the one from before, or a new one. -/
theorem visible_setIfAbsent (store : Store κ ν) (now : Nat) (k : κ) (v : ν) :
    (store.setIfAbsent now k v).visible now k =
      some ((store.visible now k).getD { value := v, deadline := none }) := by
  -- A cell without a deadline can be read at once.
  rw [setIfAbsent]
  cases seen : store.visible now k with
  | none => simp [visible, Cell.alive]
  | some cell => exact seen

/-- A key that can be read lives on, and any other stays absent. -/
theorem visible_setLifetime (store : Store κ ν) (now : Nat) (k : κ) (lifetime : Nat) :
    (store.setLifetime now k lifetime).visible now k =
      (store.visible now k).map fun cell => { cell with deadline := some (now + lifetime) } := by
  -- The new deadline is not before now.
  rw [setLifetime]
  cases seen : store.visible now k with
  | none => exact seen
  | some cell => simp [visible, Cell.alive]

/-- The offer of a value and a lifetime: a value that can be read stays, and lives on like a new
one. -/
theorem offer_own (store : Store κ ν) (now : Nat) (k : κ) (v : ν) (lifetime : Nat) :
    (store.setIfAbsent now k v).setLifetime now k lifetime k =
      some { value := (store.lookup now k).getD v, deadline := some (now + lifetime) } := by
  cases seen : store.visible now k with
  | none =>
    -- The new cell has no deadline yet, and so is alive.
    have set : store.setIfAbsent now k v =
        Function.update store k (some { value := v, deadline := none }) := by
      rw [setIfAbsent, seen]
    have alive : (store.setIfAbsent now k v).visible now k =
        some { value := v, deadline := none } := by
      rw [visible, set, Function.update_self]
      rfl
    rw [setLifetime, alive, lookup, seen]
    exact Function.update_self _ _ _
  | some cell =>
    have set : store.setIfAbsent now k v = store := by rw [setIfAbsent, seen]
    rw [set, setLifetime, seen, lookup, seen]
    exact Function.update_self _ _ _

/-- An offer leaves the other keys alone. -/
theorem offer_other (store : Store κ ν) (now : Nat) {k other : κ} (differs : other ≠ k) (v : ν)
    (lifetime : Nat) :
    (store.setIfAbsent now k v).setLifetime now k lifetime other = store other := by
  rw [setLifetime_other _ now differs, setIfAbsent_other store now differs]

/-- Whatever is left after a key was forgotten was there before. -/
theorem of_remove {store : Store κ ν} {k other : κ} {cell : Cell ν}
    (stored : store.remove k other = some cell) : store other = some cell := by
  -- The key itself has no cell any more.
  by_cases same : other = k
  · rw [remove, same, Function.update_self] at stored
    cases stored
  · rwa [remove, Function.update_of_ne same] at stored

/-- What can be read after a key was forgotten could be read before. -/
theorem lookup_of_remove {store : Store κ ν} {now : Nat} {k other : κ} {v : ν}
    (found : (store.remove k).lookup now other = some v) : store.lookup now other = some v := by
  by_cases same : other = k
  · -- The forgotten key itself is not there.
    rw [lookup, visible, remove, same, Function.update_self] at found
    cases found
  · rwa [lookup, visible, remove, Function.update_of_ne same] at found

omit [DecidableEq κ] in
/-- What can be read from a cell with a deadline. -/
theorem lookup_of_deadline {store : Store κ ν} {k : κ} {v : ν} {deadline : Nat}
    (stored : store k = some { value := v, deadline := some deadline }) (now : Nat) :
    store.lookup now k = if now ≤ deadline then some v else none := by
  -- The cell is visible as long as the deadline is not over.
  simp only [lookup, visible, stored, Option.filter, Cell.alive, decide_eq_true_eq]
  split <;> rfl

end Store

end Expiring
