import Mathlib.Data.List.Nodup
import Mathlib.Logic.Function.Basic

/-! Maps ordered by recency: the entry touched last stands last, and the oldest go first. -/

namespace Recency

variable {κ ν : Type*} [DecidableEq κ]

/-- The entries of all other keys, in their order. -/
def others (k : κ) (entries : List (κ × ν)) : List (κ × ν) :=
  entries.filter fun entry => entry.1 ≠ k

/-- Give a key a value and make it the most recent one. -/
def touch (k : κ) (v : ν) (entries : List (κ × ν)) : List (κ × ν) :=
  others k entries ++ [(k, v)]

/-- Touch a key in a map of bounded size, dropping as many of the oldest entries as needed. -/
def put (capacity : Nat) (k : κ) (v : ν) (entries : List (κ × ν)) : List (κ × ν) :=
  (others k entries).drop ((others k entries).length + 1 - capacity) ++ [(k, v)]

/-- Nothing is dropped while the other entries leave room for one more. -/
theorem put_of_fits {capacity : Nat} {k : κ} {v : ν} {entries : List (κ × ν)}
    (fits : (others k entries).length + 1 ≤ capacity) :
    put capacity k v entries = touch k v entries := by
  rw [put, Nat.sub_eq_zero_of_le fits, List.drop_zero, touch]

/-- A key without an entry leaves all entries to the others. -/
theorem others_of_absent {k : κ} {entries : List (κ × ν)}
    (absent : k ∉ entries.map Prod.fst) : others k entries = entries := by
  -- No entry is filtered out, because none has this key.
  refine List.filter_eq_self.mpr fun entry member => ?_
  have differs : entry.1 ≠ k := fun same => absent (same ▸ List.mem_map_of_mem member)
  simpa using differs

/-- A touch replaces what was there for the key, and leaves the other keys alone. -/
theorem mem_touch {k key : κ} {v value : ν} {entries : List (κ × ν)} :
    (key, value) ∈ touch k v entries ↔
      (key = k ∧ value = v) ∨ (key ≠ k ∧ (key, value) ∈ entries) := by
  simp [touch, others, or_comm, and_comm]

/-- The other entries are those that are not of the key. -/
theorem mem_others {k key : κ} {value : ν} {entries : List (κ × ν)} :
    (key, value) ∈ others k entries ↔ key ≠ k ∧ (key, value) ∈ entries := by
  simp [others, and_comm]

/-- The keys of the other entries. -/
theorem keys_others (k : κ) (entries : List (κ × ν)) :
    (others k entries).map Prod.fst = (entries.map Prod.fst).filter (· ≠ k) := by
  -- Filtering by key commutes with showing the keys.
  rw [others, List.filter_map]
  rfl

/-- The keys after a touch. -/
theorem keys_touch (k : κ) (v : ν) (entries : List (κ × ν)) :
    (touch k v entries).map Prod.fst = (entries.map Prod.fst).filter (· ≠ k) ++ [k] := by
  -- The key touched leaves its place and is put at the end.
  rw [touch, List.map_append, keys_others]
  rfl

/-- A key that stands once leaves one entry fewer to the others. -/
theorem length_others {k : κ} {entries : List (κ × ν)} (distinct : (entries.map Prod.fst).Nodup)
    (present : k ∈ entries.map Prod.fst) : (others k entries).length + 1 = entries.length := by
  induction entries with
  | nil => simp at present
  | cons entry entries ih =>
    rw [List.map_cons, List.nodup_cons] at distinct
    by_cases same : entry.1 = k
    · -- The entry is the one of this key, and the rest has none.
      have absent : k ∉ entries.map Prod.fst := same ▸ distinct.1
      have rest := others_of_absent absent
      rw [others] at rest ⊢
      rw [List.filter_cons_of_neg (by simpa using same), rest, List.length_cons]
    · have inRest : k ∈ entries.map Prod.fst := by
        rcases List.mem_cons.mp present with here | later
        · exact absurd here.symm same
        · exact later
      have rest := ih distinct.2 inRest
      rw [others] at rest ⊢
      rw [List.filter_cons_of_pos (by simpa using same), List.length_cons, rest, List.length_cons]

/-- What the calls on a keyed store have done so far: for each key the value that was written last,
unless it has been erased since, and the number of the call that touched it last. -/
structure Log (κ ν : Type*) where
  calls : Nat := 0
  written : κ → Option ν := fun _ => none
  touched : κ → Nat := fun _ => 0

namespace Log

/-- A write makes its key live, and touches it. -/
def write (log : Log κ ν) (k : κ) (v : ν) : Log κ ν where
  calls := log.calls + 1
  written := Function.update log.written k (some v)
  touched := Function.update log.touched k (log.calls + 1)

/-- A read touches a live key. -/
def read (log : Log κ ν) (k : κ) : Log κ ν where
  calls := log.calls + 1
  written := log.written
  touched :=
    if (log.written k).isSome then Function.update log.touched k (log.calls + 1) else log.touched

/-- An erased key is live no longer. -/
def erase (log : Log κ ν) (k : κ) : Log κ ν where
  calls := log.calls + 1
  written := Function.update log.written k none
  touched := log.touched

end Log

/-- The list holds exactly the live keys, from the least to the most recently touched. -/
structure Ordered (log : Log κ ν) (keys : List κ) : Prop where
  live : ∀ k, k ∈ keys ↔ (log.written k).isSome
  byTouch : keys.Pairwise fun a b => log.touched a < log.touched b
  past : ∀ k, log.touched k ≤ log.calls

namespace Ordered

variable {log : Log κ ν} {keys : List κ}

omit [DecidableEq κ] in
/-- Each key stands once, because no call touched it before it did. -/
theorem distinct (ordered : Ordered log keys) : keys.Nodup := by
  -- A key is not touched before itself.
  refine ordered.byTouch.imp fun {first second} before same => ?_
  rw [same] at before
  exact Nat.lt_irrefl _ before

omit [DecidableEq κ] in
/-- Before the first call nothing is live. -/
theorem empty : Ordered ({} : Log κ ν) [] :=
  ⟨fun _ => by simp, List.Pairwise.nil, fun _ => Nat.le_refl 0⟩

/-- A key that is touched now goes behind all others. -/
theorem byTouch_update (ordered : Ordered log keys) (k : κ) :
    (keys.filter (· ≠ k) ++ [k]).Pairwise fun a b =>
      Function.update log.touched k (log.calls + 1) a <
        Function.update log.touched k (log.calls + 1) b := by
  have other {a : κ} (member : a ∈ keys.filter (· ≠ k)) : a ≠ k := by
    simpa using (List.mem_filter.mp member).2
  rw [List.pairwise_append]
  refine ⟨?_, List.pairwise_singleton _ _, fun a first b last => ?_⟩
  · -- The others keep the order they had.
    refine (ordered.byTouch.sublist List.filter_sublist).imp_of_mem fun first second before => ?_
    rwa [Function.update_of_ne (other first), Function.update_of_ne (other second)]
  · -- They were all touched before this call.
    rw [List.mem_singleton.mp last, Function.update_self, Function.update_of_ne (other first)]
    exact Nat.lt_succ_of_le (ordered.past a)

/-- No key has been touched by a call still to come. -/
theorem past_update (ordered : Ordered log keys) (k key : κ) :
    Function.update log.touched k (log.calls + 1) key ≤ log.calls + 1 := by
  -- The key is touched by this call, and the others were touched before it.
  by_cases same : key = k
  · exact Nat.le_of_eq (by rw [same, Function.update_self])
  · rw [Function.update_of_ne same]
    exact Nat.le_succ_of_le (ordered.past key)

/-- After a write its key is the most recent one. -/
theorem write (ordered : Ordered log keys) (k : κ) (v : ν) :
    Ordered (log.write k v) (keys.filter (· ≠ k) ++ [k]) where
  live key := by
    -- The written key is live, and the others are as live as they were.
    by_cases same : key = k
    · simp [same, Log.write]
    · simp [same, Log.write, ordered.live]
  byTouch := ordered.byTouch_update k
  past := ordered.past_update k

/-- After a read that hit, its key is the most recent one. -/
theorem read_live (ordered : Ordered log keys) {k : κ} (live : (log.written k).isSome) :
    Ordered (log.read k) (keys.filter (· ≠ k) ++ [k]) where
  -- The key read moves to the end, and its touch is later than all the others.
  live key := by
    by_cases same : key = k
    · simp [same, Log.read, live]
    · simp [same, Log.read, ordered.live]
  byTouch := by
    simpa only [Log.read, live, if_true] using ordered.byTouch_update k
  past := by
    simpa only [Log.read, live, if_true] using ordered.past_update k

/-- A read that missed leaves the order alone. -/
theorem read_dead (ordered : Ordered log keys) {k : κ} (dead : log.written k = none) :
    Ordered (log.read k) keys where
  -- Reading a dead key only lets time pass.
  live := ordered.live
  byTouch := by
    simpa [Log.read, dead] using ordered.byTouch
  past key := by
    have past := ordered.past key
    simpa [Log.read, dead] using Nat.le_succ_of_le past

/-- After an erase its key has gone. -/
theorem erase (ordered : Ordered log keys) (k : κ) :
    Ordered (log.erase k) (keys.filter (· ≠ k)) where
  -- The erased key leaves both the log and the order, which keeps the others in theirs.
  live key := by
    by_cases same : key = k
    · simp [same, Log.erase]
    · simp [same, Log.erase, ordered.live]
  byTouch := ordered.byTouch.sublist List.filter_sublist
  past key := Nat.le_succ_of_le (ordered.past key)

end Ordered

end Recency
