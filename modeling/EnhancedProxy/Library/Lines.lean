import EnhancedProxy.Library.Framing
import EnhancedProxy.Library.Search

/-! The lines of a text, each ended by the same two symbols, and the first empty one among them. -/

namespace Lines

variable {α : Type*} [DecidableEq α] {a b : α}

/-- The framing of a text into lines. -/
def framing (a b : α) : Framing α (List α) where
  next s := (Search.firstOccurrence [a, b] s).map fun i => (s.take i, i + 2)
  progress found := by
    obtain ⟨i, -, same⟩ := Option.map_eq_some_iff.mp found
    cases same
    omega
  within found := by
    obtain ⟨i, searched, same⟩ := Option.map_eq_some_iff.mp found
    cases same
    exact Search.firstOccurrence_within searched
  stable more found := by
    obtain ⟨i, searched, same⟩ := Option.map_eq_some_iff.mp found
    cases same
    have := Search.firstOccurrence_within searched
    simp only [List.length_cons, List.length_nil] at this
    rw [Search.firstOccurrence_append more searched, Option.map_some,
      List.take_append_of_le_length (by omega)]

/-- The complete lines of a text, without their ends. -/
def lines (a b : α) (s : List α) : List (List α) := ((framing a b).split s).1.map Prod.fst

/-- The length of some lines with their ends. -/
def size : List (List α) → Nat
  | [] => 0
  | line :: ls => line.length + 2 + size ls

omit [DecidableEq α] in
@[simp] theorem size_nil : size ([] : List (List α)) = 0 := rfl

omit [DecidableEq α] in
@[simp] theorem size_cons (line : List α) (ls : List (List α)) :
    size (line :: ls) = line.length + 2 + size ls := rfl

omit [DecidableEq α] in
@[simp] theorem size_append (front back : List (List α)) :
    size (front ++ back) = size front + size back := by
  -- Line by line, on the front.
  induction front with
  | nil => simp
  | cons line front ih => rw [List.cons_append, size_cons, size_cons, ih, ← Nat.add_assoc]

/-- A text without a line end has no lines. -/
theorem lines_none {s : List α} (missing : Search.firstOccurrence [a, b] s = none) :
    lines a b s = [] := by
  -- The framing finds no first message.
  rw [lines, (framing a b).split_none (by simp [framing, missing])]
  rfl

/-- The first line ends at the first line end. -/
theorem lines_some {s : List α} {i : Nat} (found : Search.firstOccurrence [a, b] s = some i) :
    lines a b s = s.take i :: lines a b (s.drop (i + 2)) := by
  -- The framing takes off just this line.
  have next : (framing a b).next s = some (s.take i, i + 2) := by simp [framing, found]
  rw [lines, (framing a b).split_some next]
  rfl

/-- A line without a line end inside, put before a text, is the first line. -/
theorem lines_line (differ : a ≠ b) {line : List α} (rest : List α)
    (noEnd : Search.firstOccurrence [a, b] line = none) :
    lines a b (line ++ [a, b] ++ rest) = line :: lines a b rest := by
  -- The line end behind the line is the first one.
  rw [lines_some (Search.firstOccurrence_pair differ rest noEnd), List.append_assoc, List.take_left,
    ← List.append_assoc]
  have length : line.length + 2 = (line ++ [a, b]).length := by simp
  rw [length, List.drop_left]

/-- The lines that are there tell where the first line end is. -/
theorem lines_cons {s line : List α} {ls : List (List α)} (cut : lines a b s = line :: ls) :
    Search.firstOccurrence [a, b] s = some line.length ∧ line = s.take line.length ∧
      ls = lines a b (s.drop (line.length + 2)) := by
  -- A text has a first line only where the two ending bytes are found.
  cases found : Search.firstOccurrence [a, b] s with
  | none =>
    rw [lines_none found] at cut
    cases cut
  | some i =>
    rw [lines_some found] at cut
    cases cut
    have := Search.firstOccurrence_within found
    simp only [List.length_cons, List.length_nil] at this
    have length : (s.take i).length = i := List.length_take_of_le (by omega)
    exact ⟨by rw [length], by rw [length], by rw [length]⟩

/-- The lines of a text do not reach beyond it. -/
theorem size_le {s : List α} {front back : List (List α)} (cut : lines a b s = front ++ back) :
    size front ≤ s.length := by
  -- Each line ends inside what is left of the text.
  induction front generalizing s with
  | nil => exact Nat.zero_le _
  | cons line front ih =>
    obtain ⟨found, -, rest⟩ := lines_cons cut
    have := Search.firstOccurrence_within found
    have within := ih rest.symm
    simp only [List.length_cons, List.length_nil, List.length_drop] at this within
    rw [size_cons]
    omega

/-- The part of a text that its first lines make up has just these lines. -/
theorem lines_take {s : List α} {front back : List (List α)} (cut : lines a b s = front ++ back) :
    lines a b (s.take (size front)) = front := by
  -- One line after the other is found again in the shorter text.
  induction front generalizing s with
  | nil => exact lines_none rfl
  | cons line front ih =>
    obtain ⟨found, same, rest⟩ := lines_cons cut
    -- The line end is in the part that is taken, and nowhere before.
    have stands : [a, b] <+: (s.take (size (line :: front))).drop line.length := by
      rw [List.drop_take, size_cons]
      refine List.prefix_take_iff.mpr ⟨Search.firstOccurrence_prefix found, ?_⟩
      simp only [List.length_cons, List.length_nil]
      omega
    obtain ⟨i, -, foundTaken⟩ := Search.firstOccurrence_le stands
    have sameEnd := Search.firstOccurrence_append (s.drop (size (line :: front))) foundTaken
    rw [List.take_append_drop, found, Option.some.injEq] at sameEnd
    subst sameEnd
    have shorter : min line.length (size (line :: front)) = line.length := by
      rw [size_cons]
      omega
    have remaining : size (line :: front) - (line.length + 2) = size front := by
      rw [size_cons]
      omega
    rw [lines_some foundTaken, List.take_take, shorter, ← same, List.drop_take, remaining,
      ih rest.symm]

/-- The first line of a text has no line end inside. -/
theorem clean_of_cons {s line : List α} {ls : List (List α)} (cut : lines a b s = line :: ls) :
    Search.firstOccurrence [a, b] line = none := by
  obtain ⟨found, same, -⟩ := lines_cons cut
  cases inside : Search.firstOccurrence [a, b] line with
  | none => rfl
  | some i =>
    -- A line end inside would be found in the text before the one that ends the line.
    have within := Search.firstOccurrence_within inside
    rw [same] at inside
    have earlier := Search.firstOccurrence_append (s.drop line.length) inside
    rw [List.take_append_drop, found, Option.some.injEq] at earlier
    simp only [List.length_cons, List.length_nil] at within
    omega

omit [DecidableEq α] in
/-- Lines with their ends take up their size. -/
theorem length_spelled (ls : List (List α)) : (ls.flatMap (· ++ [a, b])).length = size ls := by
  -- Each line is spelled with its two ending bytes, which its size counts too.
  induction ls with
  | nil => rfl
  | cons line ls ih =>
    rw [List.flatMap_cons, List.length_append, ih, List.length_append, size_cons]
    rfl

/-- A text has such first lines exactly if it begins with them, each with its line end behind it and
none inside. -/
theorem prefix_lines_iff (differ : a ≠ b) {s : List α} {front : List (List α)} :
    front <+: lines a b s ↔
      (∀ line ∈ front, Search.firstOccurrence [a, b] line = none) ∧
        front.flatMap (· ++ [a, b]) <+: s := by
  induction front generalizing s with
  | nil => simp
  | cons line front ih =>
    constructor
    · rintro ⟨back, cut⟩
      -- The line stands at the front, and the others in what follows it.
      obtain ⟨found, same, rest⟩ := lines_cons (cut.symm.trans (List.cons_append ..))
      obtain ⟨clean, later⟩ := ih.mp ⟨back, rest⟩
      have ended : line ++ [a, b] ++ s.drop (line.length + 2) = s := by
        obtain ⟨after, stands⟩ := Search.firstOccurrence_prefix found
        have behind : s.drop (line.length + 2) = after := by
          rw [← List.drop_drop, ← stands]
          rfl
        calc line ++ [a, b] ++ s.drop (line.length + 2)
            = s.take line.length ++ s.drop line.length := by
              rw [behind, List.append_assoc, stands, ← same]
          _ = s := List.take_append_drop ..
      refine ⟨List.forall_mem_cons.mpr ⟨clean_of_cons cut.symm, clean⟩, ?_⟩
      rw [List.flatMap_cons, ← ended]
      exact (List.prefix_append_right_inj _).mpr later
    · rintro ⟨clean, rest, rfl⟩
      obtain ⟨here, later⟩ := List.forall_mem_cons.mp clean
      -- The first line is taken off, and the others are the first lines of the rest.
      rw [List.flatMap_cons, List.append_assoc, lines_line differ _ here, List.cons_prefix_cons]
      exact ⟨rfl, ih.mpr ⟨later, List.prefix_append ..⟩⟩

/-- Where a text has two line ends in a row, its second line end closes an empty line. -/
theorem empty_line_of_double (differ : a ≠ b) {s : List α} {p : Nat}
    (stands : [a, b, a, b] <+: s.drop p) :
    ∃ front later, lines a b s = front ++ [] :: later ∧ front ≠ [] ∧ size front = p + 2 := by
  have firstEnd : [a, b] <+: s.drop p := (List.prefix_append [a, b] [a, b]).trans stands
  obtain ⟨i, before, found⟩ := Search.firstOccurrence_le firstEnd
  -- The lines before the place are taken off one by one.
  induction cut : lines a b s generalizing s p i with
  | nil =>
    rw [lines_some found] at cut
    cases cut
  | cons line ls ih =>
    obtain ⟨foundLine, -, rest⟩ := lines_cons cut
    rw [found, Option.some.injEq] at foundLine
    subst foundLine
    obtain ⟨after, ended⟩ := Search.firstOccurrence_prefix found
    have afterEnd : s.drop (line.length + 2) = after := by
      rw [← List.drop_drop, ← ended]
      rfl
    rcases Nat.eq_or_lt_of_le before with rfl | earlier
    · -- The next line is empty.
      rw [← ended] at stands
      have next : [a, b] <+: (s.drop (line.length + 2)).drop 0 := by
        rw [List.drop_zero, afterEnd]
        exact (List.prefix_append_right_inj [a, b]).mp stands
      obtain ⟨i, start, foundNext⟩ := Search.firstOccurrence_le next
      rw [Nat.le_zero.mp start] at foundNext
      rw [lines_some foundNext] at rest
      exact ⟨[line], lines a b ((s.drop (line.length + 2)).drop 2), by rw [rest]; rfl,
        List.cons_ne_nil line [], by simp⟩
    · -- Line ends do not overlap, so the place is behind this line.
      have notInside : p ≠ line.length + 1 := by
        rintro rfl
        rw [← List.drop_drop, ← ended] at firstEnd
        exact differ (List.cons_prefix_cons.mp firstEnd).1
      obtain ⟨q, rfl⟩ := Nat.exists_eq_add_of_le (by omega : line.length + 2 ≤ p)
      rw [← List.drop_drop] at stands firstEnd
      obtain ⟨i, before, foundNext⟩ := Search.firstOccurrence_le firstEnd
      obtain ⟨front, later, cutRest, -, place⟩ := ih stands firstEnd i before foundNext rest.symm
      refine ⟨line :: front, later, by rw [cutRest]; rfl, List.cons_ne_nil line front, ?_⟩
      rw [size_cons, place]
      omega

/-- An empty line that is not the first ends with two line ends in a row. -/
theorem double_of_empty_line {s : List α} {front later : List (List α)}
    (cut : lines a b s = front ++ [] :: later) (some_ : front ≠ []) :
    [a, b, a, b] <+: s.drop (size front - 2) := by
  -- The lines before are taken off until only one is left.
  induction front generalizing s with
  | nil => exact absurd rfl some_
  | cons line front ih =>
    obtain ⟨found, same, rest⟩ := lines_cons cut
    cases front with
    | nil =>
      -- The empty line follows right after this one.
      obtain ⟨foundEmpty, -, -⟩ := lines_cons rest.symm
      obtain ⟨after, ended⟩ := Search.firstOccurrence_prefix found
      have next := Search.firstOccurrence_prefix foundEmpty
      rw [List.length_nil, List.drop_zero, ← List.drop_drop, ← ended] at next
      simp only [size_cons, size_nil, Nat.add_zero, Nat.add_sub_cancel]
      rw [← ended]
      exact (List.prefix_append_right_inj [a, b]).mpr next
    | cons next front =>
      have stands := ih rest.symm (List.cons_ne_nil next front)
      rw [List.drop_drop] at stands
      have place : line.length + 2 + (size (next :: front) - 2) =
          size (line :: next :: front) - 2 := by
        simp only [size_cons]
        omega
      rwa [place] at stands

/-- The shortest beginning of a text that ends with two line ends in a row. -/
def IsHead (a b : α) (s head : List α) : Prop :=
  head <+: s ∧ [a, b, a, b] <:+ head ∧
    ∀ other, other <+: s → [a, b, a, b] <:+ other → head.length ≤ other.length

omit [DecidableEq α] in
/-- There is only one shortest such beginning. -/
theorem IsHead.unique {s head other : List α} (isHead : IsHead a b s head)
    (isOther : IsHead a b s other) : head = other := by
  -- Neither is longer than the other one.
  have length : head.length = other.length :=
    Nat.le_antisymm (isHead.2.2 other isOther.1 isOther.2.1) (isOther.2.2 head isHead.1 isHead.2.1)
  rw [List.prefix_iff_eq_take.mp isHead.1, length, ← List.prefix_iff_eq_take.mp isOther.1]

omit [DecidableEq α] in
/-- The lines before the first empty line, the first line apart, come before any other empty one. -/
theorem front_prefix {front front' later later' : List (List α)}
    (same : front ++ [] :: later = front' ++ [] :: later') (some_ : front' ≠ [])
    (first : [] ∉ front.tail) : ∃ between, front' = front ++ between := by
  rcases List.append_eq_append_iff.mp same with ⟨between, longer, -⟩ | ⟨between, shorter, rest⟩
  · exact ⟨between, longer⟩
  · -- Otherwise the other empty line would be among the lines before the first one.
    cases between with
    | nil => exact ⟨[], by rw [shorter, List.append_nil, List.append_nil]⟩
    | cons line between =>
      obtain ⟨rfl, -⟩ := List.cons.inj rest
      obtain ⟨head, tail, rfl⟩ := List.exists_cons_of_ne_nil some_
      rw [shorter] at first
      exact absurd (List.mem_append_right tail List.mem_cons_self) first

omit [DecidableEq α] in
/-- What stands at a place of a text ends the part before its end. -/
theorem suffix_take {s pattern : List α} {p : Nat} (stands : pattern <+: s.drop p) :
    pattern <:+ s.take (p + pattern.length) := by
  -- The part up to the end is what comes before, and the pattern.
  obtain ⟨rest, same⟩ := stands
  refine ⟨s.take p, ?_⟩
  rw [List.take_add, ← same, List.take_left]

/-- A beginning of a text that ends with two line ends in a row ends with an empty line. -/
theorem empty_line_of_suffix (differ : a ≠ b) {s other : List α} (isPrefix : other <+: s)
    (ended : [a, b, a, b] <:+ other) :
    ∃ front later, lines a b s = front ++ [] :: later ∧ front ≠ [] ∧
      size front + 2 = other.length := by
  -- The two line ends stand right before the end of the beginning.
  obtain ⟨before, rfl⟩ := ended
  obtain ⟨rest, rfl⟩ := isPrefix
  have stands : [a, b, a, b] <+: (before ++ [a, b, a, b] ++ rest).drop before.length := by
    rw [List.append_assoc, List.drop_left]
    exact List.prefix_append _ _
  obtain ⟨front, later, cut, some_, place⟩ := empty_line_of_double differ stands
  exact ⟨front, later, cut, some_, by simp [place]⟩

/-- An empty line that is not the first ends a beginning with two line ends in a row. -/
theorem suffix_of_empty_line {s : List α} {front later : List (List α)}
    (cut : lines a b s = front ++ [] :: later) (some_ : front ≠ []) :
    [a, b, a, b] <:+ s.take (size front + 2) := by
  -- The line before the empty one has a line end of its own.
  obtain ⟨line, tail, rfl⟩ := List.exists_cons_of_ne_nil some_
  have ended := suffix_take (double_of_empty_line cut some_)
  have place : size (line :: tail) - 2 + [a, b, a, b].length = size (line :: tail) + 2 := by
    simp only [size_cons, List.length_cons, List.length_nil]
    omega
  rwa [place] at ended

/-- The shortest such beginning ends with the first empty line that is not the first line. -/
theorem isHead_iff (differ : a ≠ b) {s head : List α} :
    IsHead a b s head ↔ ∃ front later, lines a b s = front ++ [] :: later ∧ front ≠ [] ∧
      [] ∉ front.tail ∧ head = s.take (size front + 2) := by
  constructor
  · rintro ⟨isPrefix, ended, shortest⟩
    obtain ⟨front, later, cut, some_, length⟩ := empty_line_of_suffix differ isPrefix ended
    refine ⟨front, later, cut, some_, fun isEmpty => ?_, ?_⟩
    · -- An earlier empty line would end a shorter beginning.
      obtain ⟨first, tail, rfl⟩ := List.exists_cons_of_ne_nil some_
      obtain ⟨between, rest, split⟩ := List.append_of_mem isEmpty
      rw [List.tail_cons] at split
      subst split
      have cutEarlier : lines a b s = (first :: between) ++ [] :: (rest ++ [] :: later) := by
        rw [cut]
        simp
      have shorter := shortest _ (List.take_prefix _ s)
        (suffix_of_empty_line cutEarlier (List.cons_ne_nil first between))
      rw [← length, List.length_take] at shorter
      simp only [size_cons, size_append, List.length_nil] at shorter
      omega
    · rw [length]
      exact List.prefix_iff_eq_take.mp isPrefix
  · rintro ⟨front, later, cut, some_, first, rfl⟩
    refine ⟨List.take_prefix _ s, suffix_of_empty_line cut some_, fun other isPrefix ended => ?_⟩
    obtain ⟨front', later', cut', some', length⟩ := empty_line_of_suffix differ isPrefix ended
    obtain ⟨between, rfl⟩ := front_prefix (cut.symm.trans cut') some' first
    rw [List.length_take, ← length, size_append]
    omega

end Lines
