import Mathlib.Logic.Function.Iterate
import Mathlib.Tactic.TypeStar

/-! Machines that take one labelled step at a time, and the rules that carry facts along a run. -/

/-- A machine answers each label with the next state, or refuses the step. -/
structure Machine (σ ℓ : Type*) where
  step : σ → ℓ → Option σ

namespace Machine

variable {σ ℓ : Type*}

/-- Take the labelled steps in order, stopping at the first refusal. -/
def run (m : Machine σ ℓ) : σ → List ℓ → Option σ
  | s, [] => some s
  | s, l :: rest => (m.step s l).bind fun next => m.run next rest

/-- Every step of the run is taken from a state in which its label satisfies the condition. -/
def Meets (m : Machine σ ℓ) (cond : σ → ℓ → Prop) : σ → List ℓ → Prop
  | _, [] => True
  | s, l :: rest => cond s l ∧ ∀ next, m.step s l = some next → m.Meets cond next rest

/-- The property holds in every state the run passes through, its two ends included. -/
def Always (m : Machine σ ℓ) (prop : σ → Prop) (s : σ) (labels : List ℓ) : Prop :=
  ∀ front reached, front <+: labels → m.run s front = some reached → prop reached

variable (m : Machine σ ℓ)

@[simp] theorem run_nil (s : σ) : m.run s [] = some s := rfl

@[simp] theorem run_cons (s : σ) (l : ℓ) (rest : List ℓ) :
    m.run s (l :: rest) = (m.step s l).bind fun next => m.run next rest := rfl

/-- A machine that never refuses a step has a run for every sequence of labels. -/
theorem run_total {m : Machine σ ℓ} (total : ∀ s l, ∃ next, m.step s l = some next) (s : σ)
    (labels : List ℓ) : ∃ last, m.run s labels = some last := by
  -- Every state takes every label, so the run goes through label by label.
  induction labels generalizing s with
  | nil => exact ⟨s, rfl⟩
  | cons l rest ih =>
    obtain ⟨next, stepped⟩ := total s l
    obtain ⟨last, ran⟩ := ih next
    exact ⟨last, by rw [run_cons, stepped, Option.bind_some, ran]⟩

/-- A run of two parts passes through the state where the first part ends. -/
theorem run_append (s : σ) (front back : List ℓ) :
    m.run s (front ++ back) = (m.run s front).bind fun middle => m.run middle back := by
  -- The first part is consumed one label at a time.
  induction front generalizing s with
  | nil => rfl
  | cons l rest ih =>
    cases stepped : m.step s l with
    | none => simp [stepped]
    | some next => simpa [stepped] using ih next

/-- Two runs that meet at a state form one run. -/
theorem run_trans {s middle last : σ} {front back : List ℓ}
    (first : m.run s front = some middle) (second : m.run middle back = some last) :
    m.run s (front ++ back) = some last := by
  -- The second run goes on where the first ends.
  rw [run_append, first]
  exact second

/-- A run meets a condition in two parts when each part meets it. -/
theorem meets_append {cond : σ → ℓ → Prop} {s : σ} {front back : List ℓ} :
    m.Meets cond s (front ++ back) ↔
      m.Meets cond s front ∧ ∀ middle, m.run s front = some middle → m.Meets cond middle back := by
  -- The first part is consumed one label at a time.
  induction front generalizing s with
  | nil => simp [Meets]
  | cons l rest ih =>
    simp only [List.cons_append, Meets, ih, run_cons]
    cases stepped : m.step s l with
    | none => simp
    | some next => simp [and_assoc]

/-- A condition that every label satisfies in every state is met along every run. -/
theorem meets_of_forall {m : Machine σ ℓ} {cond : σ → ℓ → Prop} {s : σ} {labels : List ℓ}
    (all : ∀ l ∈ labels, ∀ state, cond state l) : m.Meets cond s labels := by
  -- The condition asks nothing of the states, so each step meets it.
  induction labels generalizing s with
  | nil => trivial
  | cons l rest ih =>
    refine ⟨all l List.mem_cons_self s, fun next _ => ih fun other member => ?_⟩
    exact all other (List.mem_cons_of_mem l member)

/-- Two conditions met along a run are met together. -/
theorem Meets.and {m : Machine σ ℓ} {cond other : σ → ℓ → Prop} {s : σ} {labels : List ℓ}
    (met : m.Meets cond s labels) (metOther : m.Meets other s labels) :
    m.Meets (fun s l => cond s l ∧ other s l) s labels := by
  -- Both conditions are met at the first step, and along the rest.
  induction labels generalizing s with
  | nil => trivial
  | cons l rest ih =>
    refine ⟨⟨met.1, metOther.1⟩, fun next stepped => ?_⟩
    exact ih (met.2 next stepped) (metOther.2 next stepped)

/-- What each conditioned step preserves holds at the end of a run that meets the condition. -/
theorem run_invariant_of_meets {m : Machine σ ℓ} {inv : σ → Prop} {cond : σ → ℓ → Prop}
    (preserved : ∀ s l next, inv s → cond s l → m.step s l = some next → inv next)
    {s last : σ} {labels : List ℓ} (start : inv s) (met : m.Meets cond s labels)
    (ran : m.run s labels = some last) : inv last := by
  -- The invariant moves along the run one step at a time.
  induction labels generalizing s with
  | nil => cases ran; exact start
  | cons l rest ih =>
    obtain ⟨next, stepped, ranRest⟩ := Option.bind_eq_some_iff.mp ran
    exact ih (preserved s l next start met.1 stepped) (met.2 next stepped) ranRest

/-- What no step brings about holds before a run if it holds at its end. -/
theorem run_back {m : Machine σ ℓ} {late : σ → Prop}
    (before : ∀ s l next, late next → m.step s l = some next → late s) {s last : σ}
    {labels : List ℓ} (ran : m.run s labels = some last) (ends : late last) : late s := by
  -- The property moves back along the run one step at a time.
  induction labels generalizing s with
  | nil => cases ran; exact ends
  | cons l rest ih =>
    obtain ⟨next, stepped, ranRest⟩ := Option.bind_eq_some_iff.mp ran
    exact before s l next (ih ranRest) stepped

/-- A run meets a condition on the way to a state with a property that no step brings about, if
every step that leaves the property intact meets the condition and keeps an invariant. -/
theorem meets_of_ends {m : Machine σ ℓ} {inv late : σ → Prop} {cond : σ → ℓ → Prop}
    (before : ∀ s l next, late next → m.step s l = some next → late s)
    (keeps : ∀ s l next, inv s → late next → m.step s l = some next → cond s l ∧ inv next)
    {s last : σ} {labels : List ℓ} (start : inv s) (ran : m.run s labels = some last)
    (ends : late last) : m.Meets cond s labels := by
  -- Every state of the run has the property, as its end has it.
  induction labels generalizing s with
  | nil => trivial
  | cons l rest ih =>
    obtain ⟨next, stepped, ranRest⟩ := Option.bind_eq_some_iff.mp ran
    obtain ⟨meets, kept⟩ := keeps s l next start (run_back before ranRest ends) stepped
    refine ⟨meets, fun other steppedOther => ?_⟩
    rw [stepped, Option.some.injEq] at steppedOther
    subst steppedOther
    exact ih kept ranRest

/-- A condition that keeps an invariant also gives, at each step, what the invariant implies. -/
theorem Meets.of_invariant {m : Machine σ ℓ} {inv : σ → Prop} {cond prop : σ → ℓ → Prop}
    (preserved : ∀ s l next, inv s → cond s l → m.step s l = some next → inv next)
    (implied : ∀ s l, inv s → cond s l → prop s l) {s : σ} {labels : List ℓ} (start : inv s)
    (met : m.Meets cond s labels) : m.Meets prop s labels := by
  -- The invariant moves along the run, and implies the property at each step.
  induction labels generalizing s with
  | nil => trivial
  | cons l rest ih =>
    refine ⟨implied s l start met.1, fun next stepped => ?_⟩
    exact ih (preserved s l next start met.1 stepped) (met.2 next stepped)

/-- Two conditions that agree under an invariant are met along the same runs, if steps that meet
them keep the invariant. -/
theorem meets_iff_of_invariant {m : Machine σ ℓ} {inv : σ → Prop} {prop cond : σ → ℓ → Prop}
    (preserved : ∀ s l next, inv s → cond s l → m.step s l = some next → inv next)
    (agree : ∀ s l, inv s → (prop s l ↔ cond s l)) {s : σ} {labels : List ℓ} (start : inv s) :
    m.Meets prop s labels ↔ m.Meets cond s labels := by
  constructor
  · -- A step that has the property meets the condition, and keeps the invariant.
    intro met
    refine met.of_invariant (fun s l next held has stepped => ?_) (fun s l held has => ?_) start
    · exact preserved s l next held ((agree s l held).mp has) stepped
    · exact (agree s l held).mp has
  · intro met
    exact met.of_invariant preserved (fun s l held meets => (agree s l held).mpr meets) start

/-- Two properties of the steps that agree under an invariant are met along the same runs, among
those runs whose steps keep to what the invariant needs. -/
theorem meets_iff_within {m : Machine σ ℓ} {inv : σ → Prop} {env prop cond : σ → ℓ → Prop}
    (preserved : ∀ s l next, inv s → env s l → prop s l → m.step s l = some next → inv next)
    (agree : ∀ s l, inv s → env s l → (prop s l ↔ cond s l)) {s : σ} {labels : List ℓ}
    (start : inv s) (within : m.Meets env s labels) :
    m.Meets prop s labels ↔ m.Meets cond s labels := by
  -- The invariant is carried along either way, and at each step it makes the two agree.
  constructor
  · intro met
    refine (within.and met).of_invariant (fun s l next held has stepped => ?_)
      (fun s l held has => ?_) start
    · exact preserved s l next held has.1 has.2 stepped
    · exact (agree s l held has.1).mp has.2
  · intro met
    refine (within.and met).of_invariant (fun s l next held meets stepped => ?_)
      (fun s l held meets => ?_) start
    · exact preserved s l next held meets.1 ((agree s l held meets.1).mpr meets.2) stepped
    · exact (agree s l held meets.1).mpr meets.2

/-- What every step preserves holds at the end of every run. -/
theorem run_invariant {m : Machine σ ℓ} {inv : σ → Prop}
    (preserved : ∀ s l next, inv s → m.step s l = some next → inv next)
    {s last : σ} {labels : List ℓ} (start : inv s) (ran : m.run s labels = some last) :
    inv last := by
  -- Without a condition, every label is admitted.
  induction labels generalizing s with
  | nil => cases ran; exact start
  | cons l rest ih =>
    obtain ⟨next, stepped, ranRest⟩ := Option.bind_eq_some_iff.mp ran
    exact ih (preserved s l next start stepped) ranRest

/-- An invariant that one kind of step breaks for good: a run ends in the one regime or the other,
according to whether it has taken such a step. -/
theorem run_meets_or {m : Machine σ ℓ} {kept broken : σ → Prop} {env cond : σ → ℓ → Prop}
    (keeps : ∀ s l next, kept s → env s l → cond s l → m.step s l = some next → kept next)
    (breaks : ∀ s l next, kept s → env s l → ¬ cond s l → m.step s l = some next → broken next)
    (stays : ∀ s l next, broken s → env s l → m.step s l = some next → broken next)
    {s last : σ} {labels : List ℓ} (start : kept s) (within : m.Meets env s labels)
    (ran : m.run s labels = some last) :
    (m.Meets cond s labels ∧ kept last) ∨ (¬ m.Meets cond s labels ∧ broken last) := by
  -- The first step that misses the condition starts the second regime.
  induction labels generalizing s with
  | nil => cases ran; exact .inl ⟨trivial, start⟩
  | cons l rest ih =>
    obtain ⟨next, stepped, ranRest⟩ := Option.bind_eq_some_iff.mp ran
    have withinRest := within.2 next stepped
    by_cases met : cond s l
    · -- Still in the first regime after this step.
      rcases ih (keeps s l next start within.1 met stepped) withinRest ranRest with
        ⟨metRest, held⟩ | ⟨missed, lost⟩
      · refine .inl ⟨⟨met, fun other steppedOther => ?_⟩, held⟩
        rw [stepped, Option.some.injEq] at steppedOther
        exact steppedOther ▸ metRest
      · exact .inr ⟨fun all => missed (all.2 next stepped), lost⟩
    · have lost := breaks s l next start within.1 met stepped
      exact .inr ⟨fun all => met all.1,
        run_invariant_of_meets stays lost withinRest ranRest⟩

/-- An empty run passes only through its start. -/
@[simp] theorem always_nil {prop : σ → Prop} {s : σ} : m.Always prop s [] ↔ prop s := by
  constructor
  · -- The run passes through the state it starts from.
    intro always
    exact always [] s (List.prefix_refl []) rfl
  · -- The only part of an empty run is the run itself.
    intro here front reached isFront ran
    cases List.prefix_nil.mp isFront
    cases ran
    exact here

/-- A run passes through its start, and then through the states of the remaining run. -/
theorem always_cons {prop : σ → Prop} {s : σ} {l : ℓ} {rest : List ℓ} :
    m.Always prop s (l :: rest) ↔
      prop s ∧ ∀ next, m.step s l = some next → m.Always prop next rest := by
  constructor
  · -- A part of the remaining run is a longer part of the whole run.
    intro always
    refine ⟨always [] s (List.nil_prefix) rfl, fun next stepped front reached isFront ran => ?_⟩
    exact always (l :: front) reached ((List.cons_prefix_cons).mpr ⟨rfl, isFront⟩)
      (by simp [stepped, ran])
  · -- A part of the run is empty, or starts with the first step.
    rintro ⟨here, later⟩ front reached isFront ran
    cases front with
    | nil => cases ran; exact here
    | cons first front =>
      obtain ⟨rfl, isFrontRest⟩ := List.cons_prefix_cons.mp isFront
      obtain ⟨next, stepped, ranRest⟩ := Option.bind_eq_some_iff.mp ran
      exact later next stepped front reached isFrontRest ranRest

/-- Conditioned steps that keep an invariant keep what it implies throughout the run. -/
theorem always_of_meets {m : Machine σ ℓ} {inv prop : σ → Prop} {cond : σ → ℓ → Prop}
    (preserved : ∀ s l next, inv s → cond s l → m.step s l = some next → inv next)
    (implied : ∀ s, inv s → prop s) {s : σ} {labels : List ℓ} (start : inv s)
    (met : m.Meets cond s labels) : m.Always prop s labels := by
  intro front reached isFront ran
  obtain ⟨back, rfl⟩ := isFront
  -- The part of the run up to this state meets the condition too.
  exact implied reached (run_invariant_of_meets preserved start (m.meets_append.mp met).1 ran)

/-- Along a run, a property holds throughout exactly if every step meets the condition, where
conditioned steps keep an invariant that implies the property, and any other step violates it. -/
theorem always_iff_meets {m : Machine σ ℓ} {kept prop : σ → Prop} {env cond : σ → ℓ → Prop}
    (keeps : ∀ s l next, kept s → env s l → cond s l → m.step s l = some next → kept next)
    (breaks : ∀ s l next, kept s → env s l → ¬ cond s l → m.step s l = some next → ¬ prop next)
    (holds : ∀ s, kept s → prop s) {s last : σ} {labels : List ℓ} (start : kept s)
    (within : m.Meets env s labels) (ran : m.run s labels = some last) :
    m.Always prop s labels ↔ m.Meets cond s labels := by
  -- The first step decides, and the hypothesis speaks of the others.
  induction labels generalizing s with
  | nil => simp [Meets, holds s start]
  | cons l rest ih =>
    obtain ⟨next, stepped, ranRest⟩ := Option.bind_eq_some_iff.mp ran
    have withinRest := within.2 next stepped
    rw [always_cons]
    constructor
    · rintro ⟨-, later⟩
      have now := later next stepped
      -- A step that missed the condition would show at once.
      have met : cond s l := Classical.byContradiction fun missed =>
        breaks s l next start within.1 missed stepped (now [] next List.nil_prefix rfl)
      refine ⟨met, fun other steppedOther => ?_⟩
      rw [stepped, Option.some.injEq] at steppedOther
      subst steppedOther
      exact (ih (keeps s l next start within.1 met stepped) withinRest ranRest).mp now
    · rintro ⟨met, later⟩
      refine ⟨holds s start, fun other steppedOther => ?_⟩
      rw [stepped, Option.some.injEq] at steppedOther
      subst steppedOther
      -- The step was conditioned, so the invariant starts the remaining run.
      exact (ih (keeps s l next start within.1 met stepped) withinRest ranRest).mpr
        (later next stepped)

/-- A machine with a record of its labels, on which no step depends. -/
def recording {ρ : Type*} (note : ρ → ℓ → ρ) : Machine (σ × ρ) ℓ where
  step s l := (m.step s.1 l).map fun next => (next, note s.2 l)

/-- A run keeps the record of its labels beside what the machine itself does. -/
theorem recording_run_eq {ρ : Type*} (note : ρ → ℓ → ρ) (s : σ × ρ) (labels : List ℓ) :
    (m.recording note).run s labels =
      (m.run s.1 labels).map fun last => (last, labels.foldl note s.2) := by
  -- The notes depend on the labels alone, so they can be taken before or after the run.
  induction labels generalizing s with
  | nil => rfl
  | cons l rest ih =>
    cases stepped : m.step s.1 l with
    | none => simp [recording, stepped]
    | some next => simpa [recording, stepped] using ih (next, note s.2 l)

/-- The record left out, a run is one of the machine itself. -/
theorem recording_run {ρ : Type*} (note : ρ → ℓ → ρ) (s : σ × ρ) (labels : List ℓ) :
    ((m.recording note).run s labels).map Prod.fst = m.run s.1 labels := by
  -- The record is put beside the state and taken away again.
  rw [recording_run_eq, Option.map_map]
  exact Option.map_id'

/-- What holds throughout a run with its record holds throughout the run. -/
theorem always_of_recording {ρ : Type*} {m : Machine σ ℓ} {note : ρ → ℓ → ρ} {prop : σ → Prop}
    {s : σ × ρ} {labels : List ℓ}
    (always : (m.recording note).Always (fun t => prop t.1) s labels) :
    m.Always prop s.1 labels := by
  intro front reached isFront ran
  -- The run with its record ends in the same state.
  rw [← m.recording_run note s front] at ran
  obtain ⟨recorded, ranRecorded, rfl⟩ := Option.map_eq_some_iff.mp ran
  exact always front recorded isFront ranRecorded

section Driven

variable {m : Machine σ ℓ} {pick : σ → ℓ} {s : σ}

/-- Take the step that a schedule picks. Where it is refused, nothing changes. -/
def drive (m : Machine σ ℓ) (pick : σ → ℓ) (s : σ) : σ := (m.step s (pick s)).getD s

/-- Driven far enough, the machine is in a state with the property. -/
def Comes (m : Machine σ ℓ) (pick : σ → ℓ) (prop : σ → Prop) (s : σ) : Prop :=
  ∃ n, prop ((m.drive pick)^[n] s)

/-- A step that is taken. -/
theorem drive_of_step {next : σ} (stepped : m.step s (pick s) = some next) :
    m.drive pick s = next := by rw [drive, stepped, Option.getD_some]

/-- What every step keeps holds however far the machine is driven. -/
theorem drive_invariant {inv : σ → Prop} (kept : ∀ s, inv s → inv (m.drive pick s))
    (start : inv s) (n : Nat) : inv ((m.drive pick)^[n] s) := by
  -- The invariant moves along one step at a time.
  induction n generalizing s with
  | zero => exact start
  | succ n ih => exact ih (kept s start)

/-- The machine comes to a lasting property exactly if it does so from the next state. -/
theorem comes_drive {prop : σ → Prop} (lasts : ∀ s, prop s → prop (m.drive pick s)) :
    m.Comes pick prop (m.drive pick s) ↔ m.Comes pick prop s := by
  -- One step more or less on the way; a property that holds already lasts through the step.
  constructor
  · rintro ⟨n, holds⟩
    exact ⟨n + 1, holds⟩
  · rintro ⟨n, holds⟩
    cases n with
    | zero => exact ⟨0, lasts s holds⟩
    | succ n => exact ⟨n, holds⟩

/-- Under an invariant, two properties that mean the same are reached from the same states. -/
theorem comes_congr {inv prop other : σ → Prop} (kept : ∀ s, inv s → inv (m.drive pick s))
    (same : ∀ s, inv s → (prop s ↔ other s)) (start : inv s) :
    m.Comes pick prop s ↔ m.Comes pick other s :=
  exists_congr fun n => same _ (drive_invariant kept start n)

/-- A property that an invariant excludes is not reached. -/
theorem not_comes {inv prop : σ → Prop} (kept : ∀ s, inv s → inv (m.drive pick s))
    (excluded : ∀ s, inv s → ¬ prop s) (start : inv s) : ¬ m.Comes pick prop s := by
  -- The state that shows the property would have the invariant too.
  rintro ⟨n, holds⟩
  exact excluded _ (drive_invariant kept start n) holds

end Driven

end Machine
