import Mathlib.Data.List.Basic
import Mathlib.Tactic.TypeStar

/-! The words of a text: what stands between its separators, where that is not empty. -/

namespace Words

variable {α : Type*} [DecidableEq α] {sep : α}

/-- The words of a text. -/
def words (sep : α) (text : List α) : List (List α) := (text.splitOn sep).filter (· ≠ [])

/-- A text without separators is a word, unless it is empty. -/
theorem words_single {text : List α} (noSep : sep ∉ text) :
    words sep text = if text = [] then [] else [text] := by
  -- There is nothing to split at.
  have whole : text.splitOn sep = [text] := by
    rw [List.splitOn_eq_splitOnP]
    exact List.splitOnP_eq_singleton fun c member =>
      beq_eq_false_iff_ne.mpr fun same => noSep (same ▸ member)
  rw [words, whole]
  by_cases empty : text = [] <;> simp [empty]

/-- The first word ends at the first separator. -/
theorem words_cons {word : List α} (some_ : word ≠ []) (noSep : sep ∉ word) (rest : List α) :
    words sep (word ++ sep :: rest) = word :: words sep rest := by
  -- The split at the first separator leaves the rest to be split.
  have first : (word ++ sep :: rest).splitOn sep = word :: rest.splitOn sep := by
    simp only [List.splitOn_eq_splitOnP]
    have free : ∀ c ∈ word, (c == sep) = false := fun c member =>
      beq_eq_false_iff_ne.mpr fun same => noSep (same ▸ member)
    exact List.splitOnP_append_cons_of_forall_mem (p := (· == sep)) free sep (beq_self_eq_true sep)
      rest
  rw [words, first, List.filter_cons_of_pos (by simpa using some_), words]

omit [DecidableEq α] in
/-- The first word is spelled before the first separator. -/
theorem intercalate_cons (word next : List α) (ws : List (List α)) :
    [sep].intercalate (word :: next :: ws) = word ++ sep :: [sep].intercalate (next :: ws) := by
  simp [List.intercalate]

/-- Words with single separators between them are the words of their text. -/
theorem words_intercalate {ws : List (List α)} (proper : ∀ word ∈ ws, word ≠ [] ∧ sep ∉ word) :
    words sep ([sep].intercalate ws) = ws := by
  -- The first word is taken off, and the others follow after a separator.
  induction ws with
  | nil => rfl
  | cons word ws ih =>
    have here := proper word List.mem_cons_self
    have later := ih fun other member => proper other (List.mem_cons_of_mem _ member)
    cases ws with
    | nil => simpa [List.intercalate, here.1] using words_single here.2
    | cons next ws =>
      rw [intercalate_cons, words_cons here.1 here.2, later]

/-- A piece between separators has none, and nothing that is not in the text. -/
theorem mem_splitOn {text piece : List α} (member : piece ∈ text.splitOn sep) :
    sep ∉ piece ∧ ∀ c ∈ piece, c ∈ text := by
  -- Each symbol opens a new piece, or goes in front of the first one.
  induction text generalizing piece with
  | nil =>
    rw [List.splitOn_nil, List.mem_singleton] at member
    simp [member]
  | cons c text ih =>
    rw [List.splitOn_cons_eq_if_modifyHead] at member
    split at member
    · rcases List.mem_cons.mp member with rfl | later
      · simp
      · exact ⟨(ih later).1, fun d inside => List.mem_cons_of_mem c ((ih later).2 d inside)⟩
    · rename_i notSep
      obtain ⟨head, tail, pieces⟩ := List.exists_cons_of_ne_nil (List.splitOn_ne_nil sep text)
      rw [pieces] at ih member
      rcases List.mem_cons.mp member with rfl | later
      · obtain ⟨free, within⟩ := ih List.mem_cons_self
        refine ⟨?_, ?_⟩
        · rw [List.mem_cons, not_or]
          exact ⟨fun same => notSep (beq_iff_eq.mpr same.symm), free⟩
        · simpa using fun d inside => .inr (within d inside)
      · obtain ⟨free, within⟩ := ih (List.mem_cons_of_mem head later)
        exact ⟨free, fun d inside => List.mem_cons_of_mem c (within d inside)⟩

/-- A word has no separators, and nothing that is not in the text. -/
theorem mem_words {text word : List α} (member : word ∈ words sep text) :
    sep ∉ word ∧ ∀ c ∈ word, c ∈ text :=
  mem_splitOn (List.mem_filter.mp member).1

omit [DecidableEq α] in
/-- A text of words with separators between them has nothing else. -/
theorem mem_intercalate {ws : List (List α)} {c : α} (member : c ∈ [sep].intercalate ws) :
    c = sep ∨ ∃ word ∈ ws, c ∈ word := by
  -- Each word is followed by a separator and the text of the others.
  induction ws with
  | nil => cases member
  | cons word ws ih =>
    cases ws with
    | nil => exact .inr ⟨word, List.mem_cons_self, by simpa [List.intercalate] using member⟩
    | cons next ws =>
      rw [intercalate_cons, List.mem_append, List.mem_cons] at member
      rcases member with first | isSep | later
      · exact .inr ⟨word, List.mem_cons_self, first⟩
      · exact .inl isSep
      · rcases ih later with isSep | ⟨other, isWord, inside⟩
        · exact .inl isSep
        · exact .inr ⟨other, List.mem_cons_of_mem word isWord, inside⟩

end Words
