import EnhancedProxy.Library.Machine

/-! Machines whose steps are matched by runs of another machine, and machines that come to rest. -/

namespace Machine

variable {σ τ ℓ κ : Type*}

/-- Where each conditioned step of one machine is matched by a run of another, each of its runs is
matched by a run of the other. -/
theorem run_simulated {m : Machine σ ℓ} {n : Machine τ κ} (related : σ → τ → Prop)
    {cond : σ → ℓ → Prop}
    (matched : ∀ s t l next, related s t → cond s l → m.step s l = some next →
      ∃ labels last, n.run t labels = some last ∧ related next last)
    {s last : σ} {t : τ} {labels : List ℓ} (start : related s t) (met : m.Meets cond s labels)
    (ran : m.run s labels = some last) :
    ∃ others end_, n.run t others = some end_ ∧ related last end_ := by
  -- The runs that match the single steps are put one behind the other.
  induction labels generalizing s t with
  | nil => cases ran; exact ⟨[], t, rfl, start⟩
  | cons l rest ih =>
    obtain ⟨next, stepped, ranRest⟩ := Option.bind_eq_some_iff.mp ran
    obtain ⟨first, middle, ranFirst, relatedNext⟩ := matched s t l next start met.1 stepped
    obtain ⟨later, end_, ranLater, relatedLast⟩ :=
      ih relatedNext (met.2 next stepped) ranRest
    exact ⟨first ++ later, end_, n.run_trans ranFirst ranLater, relatedLast⟩

/-- Where each conditioned step keeps an invariant and lowers a rank, no run of such steps is longer
than the rank of the state it starts from. -/
theorem length_le_rank_of_meets {m : Machine σ ℓ} {inv : σ → Prop} (rank : σ → Nat)
    {cond : σ → ℓ → Prop}
    (lowers : ∀ s l next, inv s → cond s l → m.step s l = some next →
      inv next ∧ rank next < rank s)
    {s last : σ} {labels : List ℓ} (start : inv s) (met : m.Meets cond s labels)
    (ran : m.run s labels = some last) : labels.length + rank last ≤ rank s := by
  -- Every step that meets the condition uses up one of the rank.
  induction labels generalizing s with
  | nil => cases ran; exact Nat.le_of_eq (Nat.zero_add _)
  | cons l rest ih =>
    obtain ⟨next, stepped, ranRest⟩ := Option.bind_eq_some_iff.mp ran
    obtain ⟨kept, lower⟩ := lowers s l next start met.1 stepped
    have shorter := ih kept (met.2 next stepped) ranRest
    rw [List.length_cons]
    omega

/-- How many steps of a run meet a condition, as far as the run goes. -/
def tally (m : Machine σ ℓ) (cond : σ → ℓ → Prop) [∀ s l, Decidable (cond s l)] :
    σ → List ℓ → Nat
  | _, [] => 0
  | s, l :: rest =>
    (if cond s l then 1 else 0) +
      match m.step s l with
      | none => 0
      | some next => m.tally cond next rest

/-- Where the idle steps raise the rank by a bounded amount, and the other ones lower it, a run is
no longer than the rank and what its idle steps have added to it. -/
theorem length_le_rank_add_tally {m : Machine σ ℓ} {inv : σ → Prop} (rank : σ → Nat)
    {cond idle : σ → ℓ → Prop} [∀ s l, Decidable (idle s l)] {extra : Nat}
    (lowers : ∀ s l next, inv s → cond s l → ¬ idle s l → m.step s l = some next →
      inv next ∧ rank next < rank s)
    (raises : ∀ s l next, inv s → cond s l → idle s l → m.step s l = some next →
      inv next ∧ rank next ≤ rank s + extra)
    {s last : σ} {labels : List ℓ} (start : inv s) (met : m.Meets cond s labels)
    (ran : m.run s labels = some last) :
    labels.length + rank last ≤ rank s + (extra + 1) * m.tally idle s labels := by
  -- Each step is paid for by the rank, and an idle one by itself.
  induction labels generalizing s with
  | nil =>
    cases ran
    simp [tally]
  | cons l rest ih =>
    obtain ⟨next, stepped, ranRest⟩ := Option.bind_eq_some_iff.mp ran
    simp only [tally, stepped, List.length_cons]
    by_cases idles : idle s l
    · obtain ⟨kept, higher⟩ := raises s l next start met.1 idles stepped
      have shorter := ih kept (met.2 next stepped) ranRest
      rw [if_pos idles, Nat.mul_add]
      omega
    · obtain ⟨kept, lower⟩ := lowers s l next start met.1 idles stepped
      have shorter := ih kept (met.2 next stepped) ranRest
      rw [if_neg idles, Nat.mul_add]
      omega

/-- Such a machine has a run of these steps to a state that allows no further one of them. -/
theorem exists_rest_of_meets {m : Machine σ ℓ} {inv : σ → Prop} (rank : σ → Nat)
    {cond : σ → ℓ → Prop}
    (lowers : ∀ s l next, inv s → cond s l → m.step s l = some next →
      inv next ∧ rank next < rank s) {s : σ} (start : inv s) :
    ∃ labels last, m.Meets cond s labels ∧ m.run s labels = some last ∧
      ∀ l, cond last l → m.step last l = none := by
  -- Either no step is possible, or one leads to a state of a lower rank.
  induction size : rank s using Nat.strongRecOn generalizing s with
  | ind n ih =>
    by_cases rest : ∀ l, cond s l → m.step s l = none
    · exact ⟨[], s, trivial, rfl, rest⟩
    · simp only [Classical.not_forall] at rest
      obtain ⟨l, allowed, moves⟩ := rest
      obtain ⟨next, stepped⟩ := Option.ne_none_iff_exists'.mp moves
      obtain ⟨kept, lower⟩ := lowers s l next start allowed stepped
      obtain ⟨labels, last, met, ran, atRest⟩ := ih (rank next) (size ▸ lower) kept rfl
      refine ⟨l :: labels, last, ⟨allowed, fun other same => ?_⟩, ?_, atRest⟩
      · obtain rfl := Option.some.inj (stepped.symm.trans same)
        exact met
      · rw [run_cons, stepped, Option.bind_some, ran]

/-- The bound for a condition on the labels alone. -/
theorem length_le_rank {m : Machine σ ℓ} {inv : σ → Prop} (rank : σ → Nat) {cond : ℓ → Prop}
    (lowers : ∀ s l next, inv s → cond l → m.step s l = some next →
      inv next ∧ rank next < rank s)
    {s last : σ} {labels : List ℓ} (start : inv s) (all : ∀ l ∈ labels, cond l)
    (ran : m.run s labels = some last) : labels.length + rank last ≤ rank s := by
  -- A condition on the labels is one on the steps that ignores the state.
  have met : m.Meets (fun _ l => cond l) s labels := meets_of_forall fun l member _ => all l member
  exact length_le_rank_of_meets rank lowers start met ran

end Machine
