import Mathlib.Logic.Basic

/-!
# Labelled machines and their runs

A machine is a partial step function `step : σ → α → Option σ`; `none` means
that the label is not enabled in that state.  A run is the list of its labels,
so every interleaving of the parties of a system is one list.  `Meets` says
that every step of a run was taken in a state allowing it, `Always` that a
property held in every state of the run.

The rules at the end are the only inductions over runs that a development
needs: an invariant of a step is an invariant of a run, an invariant of the
allowed steps is an invariant of the runs that meet the condition, and a run
either met its condition throughout or carries the damage of the first step
that did not.
-/

set_option autoImplicit false

namespace LabelledMachine

variable {σ α : Type*} (step : σ → α → Option σ)

/-- The state reached by the labels in order, when each one is enabled. -/
def run : σ → List α → Option σ
  | s, [] => some s
  | s, a :: rest => (step s a).bind fun next => run next rest

/-- Every step of the run is taken in a state that allows it. -/
def Meets (ok : σ → α → Prop) : σ → List α → Prop
  | _, [] => True
  | s, a :: rest => ok s a ∧ ∀ next ∈ step s a, Meets ok next rest

/-- The property holds in every state of the run, the first one included. -/
def Always (P : σ → Prop) : σ → List α → Prop
  | s, [] => P s
  | s, a :: rest => P s ∧ ∀ next ∈ step s a, Always P next rest

instance decidableMeets (ok : σ → α → Prop) [∀ s a, Decidable (ok s a)] :
    ∀ (s : σ) (labels : List α), Decidable (Meets step ok s labels)
  | _, [] => isTrue trivial
  | s, a :: rest =>
    match found : step s a with
    | none => decidable_of_iff (ok s a) (by simp [Meets, found])
    | some next =>
      have := decidableMeets ok next rest
      decidable_of_iff (ok s a ∧ Meets step ok next rest) (by simp [Meets, found])

instance decidableAlways (P : σ → Prop) [∀ s, Decidable (P s)] :
    ∀ (s : σ) (labels : List α), Decidable (Always step P s labels)
  | s, [] => inferInstanceAs (Decidable (P s))
  | s, a :: rest =>
    match found : step s a with
    | none => decidable_of_iff (P s) (by simp [Always, found])
    | some next =>
      have := decidableAlways P next rest
      decidable_of_iff (P s ∧ Always step P next rest) (by simp [Always, found])

theorem run_cons_eq_some {s last : σ} {a : α} {rest : List α} :
    run step s (a :: rest) = some last ↔
      ∃ next, step s a = some next ∧ run step next rest = some last := by
  simp [run, Option.bind_eq_some_iff]

theorem run_append (s : σ) (front back : List α) :
    run step s (front ++ back) =
      (run step s front).bind fun middle => run step middle back := by
  induction front generalizing s with
  | nil => rfl
  | cons a rest ih =>
      simp only [List.cons_append, run]
      cases step s a with
      | none => rfl
      | some next => exact ih next

theorem run_get (s : σ) (labels : List α) (enabled : (run step s labels).isSome) :
    run step s labels = some ((run step s labels).get enabled) :=
  (Option.some_get _).symm

section Rules
variable {step}

theorem always_head {P : σ → Prop} {s : σ} {labels : List α}
    (always : Always step P s labels) : P s := by
  cases labels with
  | nil => exact always
  | cons a rest => exact always.1

theorem always_mono {P Q : σ → Prop} (weaker : ∀ s, P s → Q s) {s : σ} {labels : List α}
    (always : Always step P s labels) : Always step Q s labels := by
  induction labels generalizing s with
  | nil => exact weaker s always
  | cons a rest ih => exact ⟨weaker s always.1, fun next stepped => ih (always.2 next stepped)⟩

theorem always_last {P : σ → Prop} {s last : σ} {labels : List α}
    (always : Always step P s labels) (ran : run step s labels = some last) : P last := by
  induction labels generalizing s with
  | nil =>
      cases Option.some.inj ran
      exact always
  | cons a rest ih =>
      obtain ⟨next, stepped, ranRest⟩ := (run_cons_eq_some step).mp ran
      exact ih (always.2 next stepped) ranRest

theorem meets_append {ok : σ → α → Prop} {s : σ} {front back : List α}
    (meets : Meets step ok s (front ++ back)) :
    Meets step ok s front ∧ ∀ middle ∈ run step s front, Meets step ok middle back := by
  induction front generalizing s with
  | nil =>
      refine ⟨trivial, ?_⟩
      intro middle here
      cases Option.some.inj here
      exact meets
  | cons a rest ih =>
      refine ⟨⟨meets.1, fun next stepped => (ih (meets.2 next stepped)).1⟩, ?_⟩
      intro middle ran
      obtain ⟨next, stepped, ranRest⟩ := (run_cons_eq_some step).mp ran
      exact (ih (meets.2 next stepped)).2 middle ranRest

/-- A condition on the labels alone. -/
theorem meets_of_forall_mem {ok : σ → α → Prop} {labels : List α}
    (all : ∀ a ∈ labels, ∀ s, ok s a) (s : σ) : Meets step ok s labels := by
  induction labels generalizing s with
  | nil => trivial
  | cons a rest ih =>
      have later := ih fun b member => all b (List.mem_cons_of_mem a member)
      exact ⟨all a List.mem_cons_self s, fun next _ => later next⟩

theorem forall_mem_of_meets {ok : α → Prop} {s last : σ} {labels : List α}
    (meets : Meets step (fun _ a => ok a) s labels) (ran : run step s labels = some last) :
    ∀ a ∈ labels, ok a := by
  induction labels generalizing s with
  | nil => exact fun a member => absurd member List.not_mem_nil
  | cons a rest ih =>
      obtain ⟨next, stepped, ranRest⟩ := (run_cons_eq_some step).mp ran
      intro b member
      rcases List.mem_cons.mp member with rfl | later
      · exact meets.1
      · exact ih (meets.2 next stepped) ranRest b later

/-- A machine whose every step is enabled runs any labels. -/
theorem run_of_enabled (enabled : ∀ s a, ∃ next, step s a = some next) (s : σ)
    (labels : List α) : ∃ last, run step s labels = some last := by
  induction labels generalizing s with
  | nil => exact ⟨s, rfl⟩
  | cons a rest ih =>
      obtain ⟨next, stepped⟩ := enabled s a
      obtain ⟨last, ran⟩ := ih next
      exact ⟨last, (run_cons_eq_some step).mpr ⟨next, stepped, ran⟩⟩

/-- What every step keeps, every run keeps. -/
theorem invariant_run {I : σ → Prop}
    (keep : ∀ s a next, I s → step s a = some next → I next)
    {s last : σ} {labels : List α} (start : I s) (ran : run step s labels = some last) :
    I last := by
  induction labels generalizing s with
  | nil =>
      cases Option.some.inj ran
      exact start
  | cons a rest ih =>
      obtain ⟨next, stepped, ranRest⟩ := (run_cons_eq_some step).mp ran
      exact ih (keep s a next start stepped) ranRest

/-- What every step adds to the history of the labels, a run adds. -/
theorem history_run {I : List α → σ → Prop}
    (keep : ∀ past s a next, I past s → step s a = some next → I (past ++ [a]) next)
    {past : List α} {s last : σ} {labels : List α} (start : I past s)
    (ran : run step s labels = some last) : I (past ++ labels) last := by
  induction labels generalizing s past with
  | nil =>
      cases Option.some.inj ran
      rw [List.append_nil]
      exact start
  | cons a rest ih =>
      obtain ⟨next, stepped, ranRest⟩ := (run_cons_eq_some step).mp ran
      have later := ih (keep past s a next start stepped) ranRest
      rwa [List.append_assoc, List.singleton_append] at later

theorem invariant_meets {I : σ → Prop} {ok : σ → α → Prop}
    (keep : ∀ s a next, I s → ok s a → step s a = some next → I next)
    {s last : σ} {labels : List α} (start : I s) (meets : Meets step ok s labels)
    (ran : run step s labels = some last) : I last := by
  induction labels generalizing s with
  | nil =>
      cases Option.some.inj ran
      exact start
  | cons a rest ih =>
      obtain ⟨next, stepped, ranRest⟩ := (run_cons_eq_some step).mp ran
      exact ih (keep s a next start meets.1 stepped) (meets.2 next stepped) ranRest

/-- What the allowed steps keep allows a second condition. -/
theorem meets_of_meets {I : σ → Prop} {ok other : σ → α → Prop}
    (keep : ∀ s a next, I s → ok s a → step s a = some next → I next)
    (allows : ∀ s a, I s → ok s a → other s a) {s : σ} {labels : List α} (start : I s)
    (meets : Meets step ok s labels) : Meets step other s labels := by
  induction labels generalizing s with
  | nil => trivial
  | cons a rest ih =>
      refine ⟨allows s a start meets.1, fun next stepped => ?_⟩
      exact ih (keep s a next start meets.1 stepped) (meets.2 next stepped)

theorem meets_of_invariant {I : σ → Prop} {ok : σ → α → Prop}
    (keep : ∀ s a next, I s → step s a = some next → I next)
    (allows : ∀ s a, I s → ok s a) {s : σ} (start : I s) (labels : List α) :
    Meets step ok s labels := by
  have free : Meets step (fun _ _ => True) s labels :=
    meets_of_forall_mem (fun _ _ _ => trivial) s
  exact meets_of_meets (fun s a next here _ => keep s a next here)
    (fun s a here _ => allows s a here) start free

/-- What the allowed steps keep holds in every state of a run that meets the
condition. -/
theorem always_of_meets {I P : σ → Prop} {ok : σ → α → Prop}
    (keep : ∀ s a next, I s → ok s a → step s a = some next → I next)
    (implies : ∀ s, I s → P s) {s : σ} {labels : List α} (start : I s)
    (meets : Meets step ok s labels) : Always step P s labels := by
  induction labels generalizing s with
  | nil => exact implies s start
  | cons a rest ih =>
      refine ⟨implies s start, fun next stepped => ?_⟩
      exact ih (keep s a next start meets.1 stepped) (meets.2 next stepped)

/-- A measure that every step lowers bounds the length of the runs. -/
theorem length_add_measure_le {G : σ → Prop} (measure : σ → Nat)
    (keep : ∀ s a next, G s → step s a = some next → G next)
    (lowers : ∀ s a next, G s → step s a = some next → measure next < measure s)
    {s last : σ} {labels : List α} (good : G s) (ran : run step s labels = some last) :
    labels.length + measure last ≤ measure s := by
  induction labels generalizing s with
  | nil =>
      cases Option.some.inj ran
      exact Nat.le_of_eq (Nat.zero_add _)
  | cons a rest ih =>
      obtain ⟨next, stepped, ranRest⟩ := (run_cons_eq_some step).mp ran
      have later := ih (keep s a next good stepped) ranRest
      have lower := lowers s a next good stepped
      rw [List.length_cons]
      omega

/-- A run met its condition throughout and kept `I`, or some step broke the
condition, which establishes `J`, and every later step kept `J`. -/
theorem meets_or_damaged {I J : σ → Prop} {ok : σ → α → Prop}
    (keep : ∀ s a next, I s → ok s a → step s a = some next → I next)
    (damage : ∀ s a next, I s → ¬ ok s a → step s a = some next → J next)
    (stay : ∀ s a next, J s → step s a = some next → J next)
    {s last : σ} {labels : List α} (start : I s) (ran : run step s labels = some last) :
    (Meets step ok s labels ∧ I last) ∨ (¬ Meets step ok s labels ∧ J last) := by
  induction labels generalizing s with
  | nil =>
      cases Option.some.inj ran
      exact Or.inl ⟨trivial, start⟩
  | cons a rest ih =>
      obtain ⟨next, stepped, ranRest⟩ := (run_cons_eq_some step).mp ran
      by_cases allowed : ok s a
      · have nextMeets : Meets step ok s (a :: rest) ↔ Meets step ok next rest := by
          simp [Meets, stepped, allowed]
        rw [nextMeets]
        exact ih (keep s a next start allowed stepped) ranRest
      · refine Or.inr ⟨fun meets => allowed meets.1, ?_⟩
        exact invariant_run stay (damage s a next start allowed stepped) ranRest

/-- What every step keeps or ends, a run keeps unless some step of it ended it. -/
theorem until_run {I J : σ → Prop}
    (keep : ∀ s a next, I s → step s a = some next → I next ∨ J next)
    {s last : σ} {labels : List α} (start : I s) (ran : run step s labels = some last) :
    I last ∨ ∃ front middle, front <+: labels ∧ run step s front = some middle ∧ J middle := by
  induction labels generalizing s with
  | nil =>
      cases Option.some.inj ran
      exact Or.inl start
  | cons a rest ih =>
      obtain ⟨next, stepped, ranRest⟩ := (run_cons_eq_some step).mp ran
      rcases keep s a next start stepped with kept | ended
      · rcases ih kept ranRest with here | ⟨front, middle, before, ranFront, ended⟩
        · exact Or.inl here
        · exact Or.inr ⟨a :: front, middle, List.cons_prefix_cons.mpr ⟨rfl, before⟩,
            (run_cons_eq_some step).mpr ⟨next, stepped, ranFront⟩, ended⟩
      · exact Or.inr ⟨[a], next, List.cons_prefix_cons.mpr ⟨rfl, List.nil_prefix⟩,
          (run_cons_eq_some step).mpr ⟨next, stepped, rfl⟩, ended⟩

/-- When a step keeps `P` exactly in the states that allow it, the states of a
run all satisfy `P` exactly when its steps were all allowed. -/
theorem always_iff_meets {G P : σ → Prop} {ok : σ → α → Prop}
    (keep : ∀ s a next, G s → step s a = some next → G next)
    (kept : ∀ s a next, G s → P s → step s a = some next → (P next ↔ ok s a))
    {s last : σ} {labels : List α} (good : G s) (start : P s)
    (ran : run step s labels = some last) :
    Always step P s labels ↔ Meets step ok s labels := by
  induction labels generalizing s with
  | nil => exact ⟨fun _ => trivial, fun _ => start⟩
  | cons a rest ih =>
      obtain ⟨next, stepped, ranRest⟩ := (run_cons_eq_some step).mp ran
      have nextGood := keep s a next good stepped
      have nextKept := kept s a next good start stepped
      constructor
      · intro always
        have nextAlways := always.2 next stepped
        have nextP := always_head nextAlways
        refine ⟨nextKept.mp nextP, ?_⟩
        intro other otherStepped
        cases Option.some.inj (otherStepped.symm.trans stepped)
        exact (ih nextGood nextP ranRest).mp nextAlways
      · intro meets
        have nextP := nextKept.mpr meets.1
        refine ⟨start, ?_⟩
        intro other otherStepped
        cases Option.some.inj (otherStepped.symm.trans stepped)
        exact (ih nextGood nextP ranRest).mpr (meets.2 next stepped)

end Rules

end LabelledMachine
