import EnhancedProxy.Library.Machine
import Mathlib.Data.List.Induction
import Mathlib.Order.Lattice

/-! Machines that keep a journal of what their steps do, and lists that agree on their order. -/

namespace Machine

variable {σ ℓ ε : Type*}

/-- A machine with a journal, on which no step depends. -/
def journaling (m : Machine σ ℓ) (entry : σ → ℓ → Option ε) : Machine (σ × List ε) ℓ where
  step s l := (m.step s.1 l).map fun next => (next, s.2 ++ (entry s.1 l).toList)

variable {m : Machine σ ℓ} {entry : σ → ℓ → Option ε}

/-- A step of the machine, with its entry made. -/
theorem journaling_step {s next : σ × List ε} {l : ℓ} :
    (m.journaling entry).step s l = some next ↔
      m.step s.1 l = some next.1 ∧ next.2 = s.2 ++ (entry s.1 l).toList := by
  -- The journal follows the step and never prevents it.
  constructor
  · intro stepped
    obtain ⟨state, moved, rfl⟩ := Option.map_eq_some_iff.mp stepped
    exact ⟨moved, rfl⟩
  · rintro ⟨moved, journal⟩
    simp only [journaling, moved, Option.map_some, ← journal]

/-- Every run can be taken with a journal. -/
theorem journaling_run {s last : σ} {labels : List ℓ} (journal : List ε)
    (ran : m.run s labels = some last) :
    ∃ after, (m.journaling entry).run (s, journal) labels = some (last, after) := by
  -- The run is the same, and its journal grows by one entry at most for each step.
  induction labels generalizing s journal with
  | nil =>
    cases ran
    exact ⟨journal, rfl⟩
  | cons l rest ih =>
    obtain ⟨next, stepped, ranRest⟩ := Option.bind_eq_some_iff.mp ran
    obtain ⟨after, ranAfter⟩ := ih (journal ++ (entry s l).toList) ranRest
    have moved : (m.journaling entry).step (s, journal) l =
        some (next, journal ++ (entry s l).toList) := journaling_step.mpr ⟨stepped, rfl⟩
    exact ⟨after, by rw [run_cons, moved, Option.bind_some, ranAfter]⟩

end Machine

namespace Journal

variable {ε : Type*}

/-- Every entry is justified by the entries before it. -/
def Justified (justified : List ε → ε → Prop) (journal : List ε) : Prop :=
  ∀ before e after, journal = before ++ e :: after → justified before e

/-- An empty journal has nothing to justify. -/
theorem justified_nil (justified : List ε → ε → Prop) : Justified justified [] := by
  -- An empty list has no entry to split at.
  intro before e after split
  simp at split

/-- A journal stays justified when an entry is added that what stands there justifies. -/
theorem Justified.snoc {justified : List ε → ε → Prop} {journal : List ε}
    (so_far : Justified justified journal) {e : ε} (now : justified journal e) :
    Justified justified (journal ++ [e]) := by
  intro before other after split
  rcases List.eq_nil_or_concat after with rfl | ⟨more, last, rfl⟩
  · -- The entry is the new one.
    obtain ⟨rfl, same⟩ := List.append_inj' split rfl
    cases same
    exact now
  · -- The entry stood there before.
    rw [List.concat_eq_append, ← List.cons_append, ← List.append_assoc] at split
    obtain ⟨rfl, -⟩ := List.append_inj' split rfl
    exact so_far before other more rfl

/-- What a journal yields is in order if each entry that yields something comes after what was
yielded before it. -/
theorem pairwise_of_forall {α : Type*} {r : α → α → Prop} {yield : ε → Option α} {journal : List ε}
    (later : ∀ before e after, journal = before ++ e :: after → ∀ a ∈ yield e,
      ∀ b ∈ before.filterMap yield, r b a) : (journal.filterMap yield).Pairwise r := by
  -- The last entry comes after all the others.
  induction journal using List.reverseRecOn with
  | nil => exact List.Pairwise.nil
  | append_singleton journal e ih =>
    rw [List.filterMap_append, List.pairwise_append]
    refine ⟨ih fun before other after split => ?_, ?_, fun b earlier a now => ?_⟩
    · refine later before other (after ++ [e]) ?_
      rw [split, List.append_assoc, List.cons_append]
    · cases yields : yield e <;> simp [yields]
    · obtain ⟨last, isLast, yields⟩ := List.mem_filterMap.mp now
      obtain rfl : last = e := List.mem_singleton.mp isLast
      exact later journal last [] rfl a yields b earlier

end Journal

/-- One of two lists in the same strict order is the beginning of the other, if it has no members of
its own and leaves out none that come before a member. -/
theorem prefix_of_ordered {α β : Type*} [LinearOrder β] (key : α → β) {part whole : List α}
    (inOrder : part.Pairwise fun a b => key a < key b)
    (wholeInOrder : whole.Pairwise fun a b => key a < key b)
    (within : ∀ a ∈ part, a ∈ whole)
    (closed : ∀ a ∈ part, ∀ b ∈ whole, key b < key a → b ∈ part) : part <+: whole := by
  induction whole generalizing part with
  | nil =>
    cases part with
    | nil => exact List.prefix_refl []
    | cons a rest => exact absurd (within a List.mem_cons_self) List.not_mem_nil
  | cons b whole ih =>
    cases part with
    | nil => exact List.nil_prefix
    | cons a rest =>
      obtain ⟨least, rest_inOrder⟩ := List.pairwise_cons.mp inOrder
      obtain ⟨leastOfAll, whole_inOrder⟩ := List.pairwise_cons.mp wholeInOrder
      -- Neither first member comes before the other.
      have first : a = b := by
        rcases List.mem_cons.mp (within a List.mem_cons_self) with same | later
        · exact same
        · have before := leastOfAll a later
          rcases List.mem_cons.mp (closed a List.mem_cons_self b List.mem_cons_self before) with
            same | after
          · exact same.symm
          · exact absurd before (lt_asymm (least b after))
      subst first
      refine List.cons_prefix_cons.mpr ⟨rfl, ih rest_inOrder whole_inOrder ?_ ?_⟩
      · intro c member
        have after := least c member
        refine (List.mem_cons.mp (within c (List.mem_cons_of_mem a member))).resolve_left ?_
        rintro rfl
        exact lt_irrefl _ after
      · intro c member d listed before
        have after := leastOfAll d listed
        refine (List.mem_cons.mp (closed c (List.mem_cons_of_mem a member) d
          (List.mem_cons_of_mem a listed) before)).resolve_left ?_
        rintro rfl
        exact lt_irrefl _ after
