import Mathlib.Tactic.TypeStar

/-! Framings of a stream: cutting off complete messages commutes with the arrival of more data. -/

/-- A framing recognizes the first complete message of a stream and says how long it is. -/
structure Framing (α β : Type*) where
  next : List α → Option (β × Nat)
  progress : ∀ {s m n}, next s = some (m, n) → 0 < n
  within : ∀ {s m n}, next s = some (m, n) → n ≤ s.length
  stable : ∀ {s m n} (more : List α), next s = some (m, n) → next (s ++ more) = some (m, n)

namespace Framing

variable {α β : Type*} (F : Framing α β)

/-- Cut off complete messages, each with its own data, until none is left. -/
def split (s : List α) : List (β × List α) × List α :=
  match _found : F.next s with
  | none => ([], s)
  | some (m, n) =>
    let later := split (s.drop n)
    ((m, s.take n) :: later.1, later.2)
termination_by s.length
decreasing_by
  have := F.progress _found
  have := F.within _found
  simp only [List.length_drop]
  omega

/-- A stream without a complete message is all remainder. -/
theorem split_none {s : List α} (found : F.next s = none) : F.split s = ([], s) := by
  -- The definition looks for a first message, and finds none.
  rw [split]
  split
  · rfl
  · simp_all

/-- The first complete message is cut off, and the rest of the stream is split after it. -/
theorem split_some {s : List α} {m : β} {n : Nat} (found : F.next s = some (m, n)) :
    F.split s = ((m, s.take n) :: (F.split (s.drop n)).1, (F.split (s.drop n)).2) := by
  -- The definition looks for a first message, and finds this one.
  rw [split]
  split
  · simp_all
  · rename_i found'
    rw [found, Option.some.injEq, Prod.mk.injEq] at found'
    obtain ⟨rfl, rfl⟩ := found'
    rfl

/-- A stream peels into the messages already cut off and the part still to be read. -/
inductive Peels : List α → List (β × List α) → List α → Prop
  | refl (s : List α) : Peels s [] s
  | cut {s : List α} {m : β} {n : Nat} {ms : List (β × List α)} {rest : List α} :
      F.next s = some (m, n) → Peels (s.drop n) ms rest → Peels s ((m, s.take n) :: ms) rest

variable {F}

/-- The messages cut off and the remainder are the whole stream, in order. -/
theorem Peels.flatten {s rest : List α} {ms : List (β × List α)} (peels : F.Peels s ms rest) :
    (ms.map Prod.snd).flatten ++ rest = s := by
  -- Each cut takes its message off the front.
  induction peels with
  | refl => rfl
  | cut _ _ ih => simp [List.append_assoc, ih]

/-- Data that arrives later is added to the remainder and moves no earlier cut. -/
theorem Peels.append {s rest : List α} {ms : List (β × List α)} (peels : F.Peels s ms rest)
    (more : List α) : F.Peels (s ++ more) ms (rest ++ more) := by
  induction peels with
  | refl s => exact .refl _
  | @cut s m n ms rest found _ ih =>
    -- The message lies inside the old data, so taking and dropping it there is unchanged.
    have short := F.within found
    have taken : (s ++ more).take n = s.take n := List.take_append_of_le_length short
    rw [← List.drop_append_of_le_length short] at ih
    rw [← taken]
    exact .cut (F.stable more found) ih

/-- One more message can be cut off where the peeling stands. -/
theorem Peels.snoc {s rest : List α} {ms : List (β × List α)} {m : β} {n : Nat}
    (peels : F.Peels s ms rest) (found : F.next rest = some (m, n)) :
    F.Peels s (ms ++ [(m, rest.take n)]) (rest.drop n) := by
  -- The new cut goes to the end of those that were made.
  induction peels with
  | refl s => exact .cut found (.refl _)
  | cut first _ ih => exact .cut first (ih found)

/-- Splitting a stream continues wherever a peeling of it stands. -/
theorem Peels.split_eq {s rest : List α} {ms : List (β × List α)} (peels : F.Peels s ms rest) :
    F.split s = (ms ++ (F.split rest).1, (F.split rest).2) := by
  -- Each cut is the one that splitting makes first.
  induction peels with
  | refl => rfl
  | cut found _ ih => rw [F.split_some found, ih]; rfl

/-- Messages peeled off are the first messages of the stream. -/
theorem Peels.prefix_split {s rest : List α} {ms : List (β × List α)}
    (peels : F.Peels s ms rest) : ms <+: (F.split s).1 := by
  -- What is split off are the messages peeled off and those of the rest.
  rw [peels.split_eq]
  exact List.prefix_append _ _

variable (F)

/-- Splitting is the peeling that cannot go on. -/
theorem peels_split (s : List α) : F.Peels s (F.split s).1 (F.split s).2 := by
  -- The cases are those of the definition: no message, or a first one.
  induction s using split.induct F with
  | case1 s found => rw [F.split_none found]; exact .refl s
  | case2 s m n found ih => rw [F.split_some found]; exact .cut found ih

/-- No complete message is left in the remainder. -/
theorem next_split_rest (s : List α) : F.next (F.split s).2 = none := by
  -- Splitting stops only where no message is found.
  induction s using split.induct F with
  | case1 s found => rw [F.split_none found]; exact found
  | case2 s m n found ih => rw [F.split_some found]; exact ih

/-- Splitting after more data arrives continues from the old remainder. -/
theorem split_append (s more : List α) :
    F.split (s ++ more) =
      ((F.split s).1 ++ (F.split ((F.split s).2 ++ more)).1,
        (F.split ((F.split s).2 ++ more)).2) :=
  ((F.peels_split s).append more).split_eq

/-- Add each chunk to the remainder as it arrives, and cut off what it completes. -/
def feed : List α → List (List α) → List (β × List α) × List α
  | rest, [] => ([], rest)
  | rest, chunk :: chunks =>
    let now := F.split (rest ++ chunk)
    let later := feed now.2 chunks
    (now.1 ++ later.1, later.2)

/-- However a stream is cut into chunks, feeding them gives the split of the whole stream. -/
theorem feed_eq_split {rest : List α} (open_ : F.next rest = none) (chunks : List (List α)) :
    F.feed rest chunks = F.split (rest ++ chunks.flatten) := by
  -- The remainder after a chunk is what the next chunk is added to.
  induction chunks generalizing rest with
  | nil => simp [feed, F.split_none open_]
  | cons chunk chunks ih =>
    simp only [feed, ih (F.next_split_rest _), List.flatten_cons, ← List.append_assoc]
    rw [F.split_append (rest ++ chunk)]

/-- The framing reads a language: it finds a message exactly if the stream begins with a text of the
message, and then takes that text. -/
def Reads (language : List α → β → Prop) : Prop :=
  ∀ s m n, F.next s = some (m, n) ↔
    ∃ text rest, s = text ++ rest ∧ language text m ∧ n = text.length

variable {F} {language : List α → β → Prop}

/-- What is peeled off is spelled in the language. -/
theorem Peels.spelled (reads : F.Reads language) {s rest : List α} {ms : List (β × List α)}
    (peels : F.Peels s ms rest) : ∀ m ∈ ms, language m.2 m.1 := by
  induction peels with
  | refl s => exact List.forall_mem_nil _
  | @cut s m n ms rest found _ ih =>
    -- The text that was found is the one that is taken.
    obtain ⟨text, later, rfl, spelled, rfl⟩ := (reads s m n).mp found
    rw [List.take_left]
    exact List.forall_mem_cons.mpr ⟨spelled, ih⟩

/-- Texts of the language, one behind the other, are peeled off. -/
theorem Reads.peels (reads : F.Reads language) {ms : List (β × List α)}
    (spelled : ∀ m ∈ ms, language m.2 m.1) (rest : List α) :
    F.Peels ((ms.map Prod.snd).flatten ++ rest) ms rest := by
  induction ms with
  | nil => exact .refl rest
  | cons m ms ih =>
    obtain ⟨here, later⟩ := List.forall_mem_cons.mp spelled
    have found := (reads (m.2 ++ ((ms.map Prod.snd).flatten ++ rest)) m.1 m.2.length).mpr
      ⟨m.2, _, rfl, here, rfl⟩
    have tail : F.Peels ((m.2 ++ ((ms.map Prod.snd).flatten ++ rest)).drop m.2.length) ms rest := by
      rw [List.drop_left]
      exact ih later
    -- The first text is the one that is found, and it is taken as a whole.
    have cut := Peels.cut found tail
    rw [List.take_left] at cut
    rw [List.map_cons, List.flatten_cons, List.append_assoc]
    exact cut

/-- A stream is split into texts of the language and a remainder that begins with none, in the only
way in which it can be cut so. -/
theorem Reads.split_iff (reads : F.Reads language) {s rest : List α} {ms : List (β × List α)} :
    F.split s = (ms, rest) ↔
      s = (ms.map Prod.snd).flatten ++ rest ∧ (∀ m ∈ ms, language m.2 m.1) ∧
        ∀ text more m, rest = text ++ more → ¬ language text m := by
  constructor
  · intro cut
    have peels := F.peels_split s
    have stopped := F.next_split_rest s
    rw [cut] at peels stopped
    refine ⟨peels.flatten.symm, peels.spelled reads, fun text more m same spelled => ?_⟩
    -- Such a text would have been found.
    have found := (reads rest m text.length).mpr ⟨text, more, same, spelled, rfl⟩
    rw [stopped] at found
    cases found
  · rintro ⟨rfl, spelled, ended⟩
    have stopped : F.next rest = none := by
      cases found : F.next rest with
      | none => rfl
      | some next =>
        obtain ⟨text, more, same, isText, -⟩ := (reads rest next.1 next.2).mp found
        exact absurd isText (ended text more next.1 same)
    rw [(reads.peels spelled rest).split_eq, F.split_none stopped, List.append_nil]

end Framing
