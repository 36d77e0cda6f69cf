import Mathlib.Data.List.Basic
import Mathlib.Logic.Function.Basic

/-! Shared pointers at named places, and objects that end when no pointer to them is left. -/

/-- Shared pointers, each with the place it is at. A place that is not listed holds a null pointer.
The history keeps the objects that were made and those that have ended. -/
structure Pointers (π ο : Type*) where
  held : List (π × ο) := []
  created : List ο := []
  destroyed : List ο := []

namespace Pointers

variable {π ο : Type*}

/-- The object was made and has not ended. -/
def Live (pointers : Pointers π ο) (object : ο) : Prop :=
  object ∈ pointers.created ∧ object ∉ pointers.destroyed

instance [DecidableEq ο] (pointers : Pointers π ο) (object : ο) :
    Decidable (pointers.Live object) :=
  inferInstanceAs (Decidable (_ ∧ _))

/-- Some place holds a pointer to the object. -/
def Held (pointers : Pointers π ο) (object : ο) : Prop :=
  ∃ place, (place, object) ∈ pointers.held

instance [DecidableEq ο] (pointers : Pointers π ο) (object : ο) :
    Decidable (pointers.Held object) :=
  decidable_of_iff (object ∈ pointers.held.map Prod.snd) (by simp [Held])

/-- The place holds a null pointer from now on. -/
def reset [DecidableEq π] (pointers : Pointers π ο) (place : π) : Pointers π ο :=
  { pointers with held := pointers.held.filter (·.1 ≠ place) }

/-- The place holds a pointer to the object from now on. -/
def assign [DecidableEq π] (pointers : Pointers π ο) (place : π) (object : ο) : Pointers π ο :=
  { pointers with held := (place, object) :: (pointers.reset place).held }

/-- The place holds from now on what the other place holds. -/
def copy [DecidableEq π] (pointers : Pointers π ο) (place source : π) : Pointers π ο :=
  let copies := (pointers.held.filter (·.1 = source)).map fun entry => (place, entry.2)
  { pointers with held := copies ++ (pointers.reset place).held }

/-- A new object, to which nothing points yet. -/
def create (pointers : Pointers π ο) (object : ο) : Pointers π ο :=
  { pointers with created := object :: pointers.created }

/-- An object to which nothing points any more ends, and what its members held is let go. -/
def destroy [DecidableEq ο] (owner : π → Option ο) (pointers : Pointers π ο) (object : ο) :
    Option (Pointers π ο) :=
  if pointers.Live object ∧ ¬ pointers.Held object then
    some { pointers with
      held := pointers.held.filter (owner ·.1 ≠ some object)
      destroyed := object :: pointers.destroyed }
  else none

variable {pointers next : Pointers π ο} {owner : π → Option ο} {place source p : π}
  {object o : ο}

@[simp] theorem create_held : (pointers.create object).held = pointers.held := rfl

@[simp] theorem mem_create :
    o ∈ (pointers.create object).created ↔ o = object ∨ o ∈ pointers.created := List.mem_cons

@[simp] theorem create_destroyed : (pointers.create object).destroyed = pointers.destroyed := rfl

section Places

variable [DecidableEq π]

@[simp] theorem mem_reset :
    (p, o) ∈ (pointers.reset place).held ↔ p ≠ place ∧ (p, o) ∈ pointers.held := by
  simp [reset, and_comm]

@[simp] theorem mem_assign :
    (p, o) ∈ (pointers.assign place object).held ↔
      p = place ∧ o = object ∨ p ≠ place ∧ (p, o) ∈ pointers.held := by
  simp [assign]

@[simp] theorem mem_copy :
    (p, o) ∈ (pointers.copy place source).held ↔
      p = place ∧ (source, o) ∈ pointers.held ∨ p ≠ place ∧ (p, o) ∈ pointers.held := by
  -- A pointer held after the copy is in the place copied to, with an object of the source,
  -- or in another place, where nothing has changed.
  simp only [copy, List.mem_append, mem_reset, List.mem_map, List.mem_filter, decide_eq_true_eq]
  refine or_congr ⟨?_, ?_⟩ Iff.rfl
  · rintro ⟨⟨from_, same⟩, ⟨member, rfl⟩, named⟩
    cases named
    exact ⟨rfl, member⟩
  · rintro ⟨rfl, member⟩
    exact ⟨(source, o), ⟨member, rfl⟩, rfl⟩

@[simp] theorem reset_created : (pointers.reset place).created = pointers.created := rfl

@[simp] theorem reset_destroyed : (pointers.reset place).destroyed = pointers.destroyed := rfl

@[simp] theorem assign_created : (pointers.assign place object).created = pointers.created := rfl

@[simp] theorem assign_destroyed :
    (pointers.assign place object).destroyed = pointers.destroyed := rfl

@[simp] theorem copy_created : (pointers.copy place source).created = pointers.created := rfl

@[simp] theorem copy_destroyed : (pointers.copy place source).destroyed = pointers.destroyed := rfl

end Places

section Objects

variable [DecidableEq ο]

/-- An object can end exactly if it lives and nothing points to it. -/
theorem destroy_isSome_iff :
    (pointers.destroy owner object).isSome ↔ pointers.Live object ∧ ¬ pointers.Held object := by
  -- The two conditions are the test of the definition.
  unfold destroy
  split <;> simp_all

/-- What the end of an object leaves: every pointer that is no member of it. -/
theorem destroy_cases (ended : pointers.destroy owner object = some next) :
    pointers.Live object ∧ ¬ pointers.Held object ∧
      (∀ p o, (p, o) ∈ next.held ↔ owner p ≠ some object ∧ (p, o) ∈ pointers.held) ∧
        next.created = pointers.created ∧ next.destroyed = object :: pointers.destroyed := by
  -- An object ends only while it is live and nothing holds it; its members go with it.
  obtain ⟨⟨live, free⟩, same⟩ := Option.ite_none_right_eq_some.mp ended
  cases same
  refine ⟨live, free, fun p o => ?_, rfl, rfl⟩
  simp [and_comm]

end Objects

/-- No pointer dangles, and only what was made can have ended. -/
structure Sound (pointers : Pointers π ο) : Prop where
  live : ∀ place object, (place, object) ∈ pointers.held → pointers.Live object
  made : ∀ object, object ∈ pointers.destroyed → object ∈ pointers.created

namespace Sound

/-- Without pointers and objects there is nothing to dangle. -/
theorem empty : Sound ({} : Pointers π ο) where
  -- No pointer is held and no object was made.
  live _ _ member := by cases member
  made _ member := by cases member

/-- A pointer may be let go at any time. -/
theorem reset [DecidableEq π] (sound : Sound pointers) (place : π) :
    Sound (pointers.reset place) where
  -- What is held after it was held before.
  live _ _ member := sound.live _ _ (mem_reset.mp member).2
  made := sound.made

/-- A pointer may be set to an object that lives. -/
theorem assign [DecidableEq π] (sound : Sound pointers) (place : π)
    (live : pointers.Live object) : Sound (pointers.assign place object) where
  -- The place now holds the live object, and the other places what they held before.
  live p o member := by
    rcases mem_assign.mp member with ⟨-, rfl⟩ | ⟨-, before⟩
    · exact live
    · exact sound.live p o before
  made := sound.made

/-- A copy of a pointer dangles no more than that does. -/
theorem copy [DecidableEq π] (sound : Sound pointers) (place source : π) :
    Sound (pointers.copy place source) where
  -- The place now holds what the source holds, which is live.
  live p o member := by
    rcases mem_copy.mp member with ⟨-, copied⟩ | ⟨-, before⟩
    · exact sound.live source o copied
    · exact sound.live p o before
  made := sound.made

/-- A new object lives, and the others live on. -/
theorem create (sound : Sound pointers) (object : ο) : Sound (pointers.create object) where
  -- The object was not made before, so nothing else is said about it.
  live p o member := ⟨List.mem_cons_of_mem _ (sound.live p o member).1, (sound.live p o member).2⟩
  made o member := List.mem_cons_of_mem _ (sound.made o member)

/-- An object that was never made before lives when it is made. -/
theorem live_create (sound : Sound pointers) (new : object ∉ pointers.created) :
    (pointers.create object).Live object :=
  ⟨List.mem_cons_self, fun ended => new (sound.made object ended)⟩

/-- The end of an object leaves no pointer to it. -/
theorem destroy [DecidableEq ο] (sound : Sound pointers)
    (ended : pointers.destroy owner object = some next) :
    Sound next := by
  obtain ⟨live, free, held, created, destroyed⟩ := destroy_cases ended
  refine ⟨fun p o member => ?_, fun o member => ?_⟩
  · have before := (held p o).mp member
    have lived := sound.live p o before.2
    rw [Live, created, destroyed, List.mem_cons, not_or]
    refine ⟨lived.1, ?_, lived.2⟩
    -- Something points to an object that is left.
    intro same
    subst same
    exact free ⟨p, before.2⟩
  · rw [created]
    rw [destroyed, List.mem_cons] at member
    rcases member with rfl | before
    · exact live.1
    · exact sound.made o before

end Sound

/-- Pointers that hold one another: each is at a root, or at a member of an object to which one of
them points. -/
def Anchored (owner : π → Option ο) (kept : π → ο → Prop) : Prop :=
  ∀ place object, kept place object → ∀ holder, owner place = some holder →
    ∃ anchor, kept anchor holder

/-- Pointers that hold one another outlast the end of every object. -/
theorem Anchored.destroy [DecidableEq ο] {kept : π → ο → Prop} (anchored : Anchored owner kept)
    (inside : ∀ place object, kept place object → (place, object) ∈ pointers.held)
    (ended : pointers.destroy owner object = some next) :
    ∀ place other, kept place other → (place, other) ∈ next.held := by
  obtain ⟨-, free, held, -, -⟩ := destroy_cases ended
  intro place other keeps
  refine (held place other).mpr ⟨fun member => ?_, inside place other keeps⟩
  -- The holder of the place is held itself, so it is not what has ended.
  obtain ⟨anchor, anchors⟩ := anchored place other keeps object member
  exact free ⟨anchor, inside anchor object anchors⟩

/-- Every pointer is of a kind that its place may hold. -/
def Confined (pointers : Pointers π ο) (may : π → ο → Prop) : Prop :=
  ∀ place object, (place, object) ∈ pointers.held → may place object

namespace Confined

variable {may : π → ο → Prop}

/-- A new object is pointed to from nowhere. -/
theorem create (confined : pointers.Confined may) (object : ο) :
    (pointers.create object).Confined may := confined

/-- The end of an object only takes pointers away. -/
theorem destroy [DecidableEq ο] (confined : pointers.Confined may)
    (ended : pointers.destroy owner object = some next) : next.Confined may := by
  -- A pointer that is left was held before, where it was confined.
  obtain ⟨-, -, held, -, -⟩ := destroy_cases ended
  intro p o member
  exact confined p o ((held p o).mp member).2

variable [DecidableEq π]

/-- A pointer may be let go at any time. -/
theorem reset (confined : pointers.Confined may) (place : π) :
    (pointers.reset place).Confined may :=
  fun p o member => confined p o (mem_reset.mp member).2

/-- A pointer may be set where its place may hold it. -/
theorem assign (confined : pointers.Confined may) (place : π) (object : ο)
    (fits : may place object) : (pointers.assign place object).Confined may := by
  -- At the place the object is held and seen; elsewhere nothing has changed.
  intro p o member
  rcases mem_assign.mp member with ⟨rfl, rfl⟩ | ⟨-, before⟩
  · exact fits
  · exact confined p o before

/-- A pointer may be copied to a place that may hold all that its source may. -/
theorem copy (confined : pointers.Confined may) (place source : π)
    (wider : ∀ o, may source o → may place o) : (pointers.copy place source).Confined may := by
  -- At the place what the source shows is held; elsewhere nothing has changed.
  intro p o member
  rcases mem_copy.mp member with ⟨rfl, copied⟩ | ⟨-, before⟩
  · exact wider o (confined source o copied)
  · exact confined p o before

end Confined

/-- On these places, the pointers are those of the view. -/
def Shows (pointers : Pointers π ο) (on : π → Prop) (view : π → Option ο) : Prop :=
  ∀ place, on place → ∀ object, (place, object) ∈ pointers.held ↔ view place = some object

namespace Shows

variable {on : π → Prop} {view other : π → Option ο}

/-- Only the view of these places counts. -/
theorem congr (shows_ : pointers.Shows on view)
    (same : ∀ place, on place → other place = view place) : pointers.Shows on other := by
  -- The two views agree wherever one is asked.
  intro place within object
  rw [same place within]
  exact shows_ place within object

/-- A new object is pointed to from nowhere. -/
theorem create (shows_ : pointers.Shows on view) (object : ο) :
    (pointers.create object).Shows on view := shows_

variable [DecidableEq π]

/-- A pointer that is let go is null in the view. -/
theorem reset (shows_ : pointers.Shows on view) (place : π) :
    (pointers.reset place).Shows on (Function.update view place none) := by
  -- At the place nothing is held and nothing is seen; elsewhere nothing has changed.
  intro p within o
  by_cases here : p = place
  · subst here
    simp
  · rw [mem_reset, Function.update_of_ne here]
    exact (and_iff_right here).trans (shows_ p within o)

/-- A pointer that is set is set in the view. -/
theorem assign (shows_ : pointers.Shows on view) (place : π) (object : ο) :
    (pointers.assign place object).Shows on (Function.update view place (some object)) := by
  -- At the place the object is held and seen; elsewhere nothing has changed.
  intro p within o
  by_cases here : p = place
  · subst here
    simp [eq_comm]
  · rw [mem_assign, Function.update_of_ne here]
    simpa [here] using shows_ p within o

/-- A copy is in the view what its source is. -/
theorem copy (shows_ : pointers.Shows on view) (place source : π) (known : on place → on source) :
    (pointers.copy place source).Shows on (Function.update view place (view source)) := by
  -- At the place what the source shows is held; elsewhere nothing has changed.
  intro p within o
  by_cases here : p = place
  · subst here
    simpa using shows_ source (known within) o
  · rw [mem_copy, Function.update_of_ne here]
    simpa [here] using shows_ p within o

end Shows

/-- The end of an object does not show where the pointers of the view hold one another. -/
theorem Shows.destroy [DecidableEq ο] {on : π → Prop} {view : π → Option ο}
    (shows_ : pointers.Shows on view)
    (anchored : Anchored owner fun place object => on place ∧ view place = some object)
    (ended : pointers.destroy owner object = some next) : next.Shows on view := by
  -- What is seen is anchored inside, so the destruction of the owner does not reach it.
  have inside : ∀ place object, on place ∧ view place = some object →
      (place, object) ∈ pointers.held :=
    fun place object kept => (shows_ place kept.1 object).mpr kept.2
  intro place within other
  constructor
  · intro member
    obtain ⟨-, -, held, -, -⟩ := destroy_cases ended
    exact (shows_ place within other).mp ((held place other).mp member).2
  · intro seen
    exact anchored.destroy inside ended place other ⟨within, seen⟩

end Pointers
