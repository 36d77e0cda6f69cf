import Mathlib.Tactic.TypeStar

/-! The first occurrence of a pattern in a list. -/

namespace Search

variable {α : Type*} [DecidableEq α]

/-- The position at which the pattern first occurs, as `std::search` finds it. -/
def firstOccurrence (pattern : List α) : List α → Option Nat
  | [] => if pattern = [] then some 0 else none
  | a :: rest =>
    if pattern.isPrefixOf (a :: rest) then some 0
    else (firstOccurrence pattern rest).map (· + 1)

/-- The occurrence found lies inside the list. -/
theorem firstOccurrence_within {pattern s : List α} {i : Nat}
    (found : firstOccurrence pattern s = some i) : i + pattern.length ≤ s.length := by
  -- Either the pattern is a prefix, or it is found in the tail.
  induction s generalizing i with
  | nil =>
    simp only [firstOccurrence] at found
    split at found
    · rename_i empty
      cases found
      simp [empty]
    · cases found
  | cons a rest ih =>
    simp only [firstOccurrence] at found
    split at found
    · rename_i here
      cases found
      simpa using (List.isPrefixOf_iff_prefix.mp here).length_le
    · obtain ⟨j, foundRest, rfl⟩ := Option.map_eq_some_iff.mp found
      have := ih foundRest
      simp only [List.length_cons]
      omega

/-- The pattern stands at the occurrence found. -/
theorem firstOccurrence_prefix {pattern s : List α} {i : Nat}
    (found : firstOccurrence pattern s = some i) : pattern <+: s.drop i := by
  -- The search stops where the pattern is a prefix.
  induction s generalizing i with
  | nil =>
    simp only [firstOccurrence] at found
    split at found
    · rename_i empty
      rw [empty]
      exact List.nil_prefix
    · cases found
  | cons a rest ih =>
    simp only [firstOccurrence] at found
    split at found
    · rename_i here
      cases found
      exact List.isPrefixOf_iff_prefix.mp here
    · -- The rest of the list is searched, one position further on.
      obtain ⟨j, foundRest, rfl⟩ := Option.map_eq_some_iff.mp found
      exact ih foundRest

/-- Where the pattern stands, the search has found it by then. -/
theorem firstOccurrence_le {pattern s : List α} {p : Nat} (stands : pattern <+: s.drop p) :
    ∃ i ≤ p, firstOccurrence pattern s = some i := by
  -- The search stops here at the latest.
  induction s generalizing p with
  | nil =>
    rw [List.drop_nil, List.prefix_nil] at stands
    exact ⟨0, Nat.zero_le p, by simp [firstOccurrence, stands]⟩
  | cons a rest ih =>
    simp only [firstOccurrence]
    split
    · exact ⟨0, Nat.zero_le p, rfl⟩
    · rename_i absent
      cases p with
      | zero => exact absurd (List.isPrefixOf_iff_prefix.mpr stands) absent
      | succ p =>
        obtain ⟨i, before, found⟩ := ih stands
        exact ⟨i + 1, Nat.succ_le_succ before, by rw [found]; rfl⟩

/-- Data appended to the list does not move the first occurrence. -/
theorem firstOccurrence_append {pattern s : List α} {i : Nat} (more : List α)
    (found : firstOccurrence pattern s = some i) :
    firstOccurrence pattern (s ++ more) = some i := by
  -- What decides each step of the search lies in the old data.
  induction s generalizing i with
  | nil =>
    simp only [firstOccurrence] at found
    split at found
    · rename_i empty
      cases found
      cases more <;> simp [firstOccurrence, empty]
    · cases found
  | cons a rest ih =>
    simp only [firstOccurrence] at found
    split at found
    · rename_i here
      cases found
      have here := (List.isPrefixOf_iff_prefix.mp here).trans (List.prefix_append _ more)
      simp only [List.cons_append] at here
      simp [firstOccurrence, List.isPrefixOf_iff_prefix.mpr here]
    · rename_i absent
      obtain ⟨j, foundRest, rfl⟩ := Option.map_eq_some_iff.mp found
      -- A later occurrence leaves room for the pattern here, so the appended data is not compared.
      have room := firstOccurrence_within foundRest
      have absentMore : ¬ pattern.isPrefixOf (a :: (rest ++ more)) := by
        intro here
        refine absent (List.isPrefixOf_iff_prefix.mpr ?_)
        refine List.prefix_of_prefix_length_le (List.isPrefixOf_iff_prefix.mp here) ?_ ?_
        · exact List.prefix_append (a :: rest) more
        · simp only [List.length_cons]
          omega
      simp [firstOccurrence, absentMore, ih foundRest]

/-- A pattern that follows data without its first element is found right after that data. -/
theorem firstOccurrence_after {a : α} {tail : List α} (s rest : List α) (clean : a ∉ s) :
    firstOccurrence (a :: tail) (s ++ (a :: tail) ++ rest) = some s.length := by
  -- No earlier position can match, because the first element is missing there.
  induction s with
  | nil =>
    have here : (a :: tail).isPrefixOf (a :: tail ++ rest) :=
      List.isPrefixOf_iff_prefix.mpr (List.prefix_append _ _)
    simp only [List.nil_append, List.cons_append, firstOccurrence] at here ⊢
    simp [here]
  | cons b s ih =>
    obtain ⟨differs, clean⟩ := not_or.mp (mt List.mem_cons.mpr clean)
    simp only [List.cons_append, firstOccurrence, List.isPrefixOf, beq_eq_false_iff_ne.mpr differs,
      Bool.false_and, Bool.false_eq_true, if_false] at ih ⊢
    simpa using ih clean

/-- A pattern whose first element is missing does not occur. -/
theorem firstOccurrence_absent {a : α} {tail s : List α} (clean : a ∉ s) :
    firstOccurrence (a :: tail) s = none := by
  -- Each position would need the first element.
  induction s with
  | nil => rfl
  | cons b s ih =>
    obtain ⟨differs, clean⟩ := not_or.mp (mt List.mem_cons.mpr clean)
    simp [firstOccurrence, List.isPrefixOf, differs, ih clean]

/-- A pattern of two different elements does not overlap with itself, so it is found right after
data in which it does not occur. -/
theorem firstOccurrence_pair {a b : α} (differ : a ≠ b) {s : List α} (rest : List α)
    (absent : firstOccurrence [a, b] s = none) :
    firstOccurrence [a, b] (s ++ [a, b] ++ rest) = some s.length := by
  induction s with
  | nil => simp [firstOccurrence, List.isPrefixOf]
  | cons c s ih =>
    simp only [firstOccurrence] at absent
    split at absent
    · cases absent
    · rename_i elsewhere
      have found := ih (Option.map_eq_none_iff.mp absent)
      -- Here the pattern could only stand across the end of the data.
      have notHere : ¬ [a, b].isPrefixOf (c :: (s ++ [a, b] ++ rest)) := by
        cases s with
        | nil => simp [List.isPrefixOf, differ.symm]
        | cons d s => simpa [List.isPrefixOf] using elsewhere
      simp only [List.cons_append, firstOccurrence, if_neg notHere, found]
      rfl

end Search
