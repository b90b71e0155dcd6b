import KernelLabs.Lib.Machine

/-!
# Machines with a history variable

A property may speak of more than a state holds: what happened before, or what
the environment did.  `observed` runs an observer beside a machine; the observer
sees every step and never stops one, so the runs are those of the machine.
-/

set_option autoImplicit false

namespace LabelledMachine

variable {σ α γ : Type*}

/-- The machine with the observer's record; `watch` sees the state the step is
taken in. -/
def observed (step : σ → α → Option σ) (watch : σ → γ → α → γ) :
    σ × γ → α → Option (σ × γ)
  | (s, record), a => (step s a).map fun next => (next, watch s record a)

section Rules
variable {step : σ → α → Option σ} {watch : σ → γ → α → γ}

theorem observed_eq_some {s next : σ} {record after : γ} {a : α} :
    observed step watch (s, record) a = some (next, after) ↔
      step s a = some next ∧ after = watch s record a := by
  simp only [observed, Option.map_eq_some_iff, Prod.mk.injEq]
  constructor
  · rintro ⟨_, stepped, rfl, rfl⟩
    exact ⟨stepped, rfl⟩
  · rintro ⟨stepped, rfl⟩
    exact ⟨next, stepped, rfl, rfl⟩

/-- Every run of the machine is observed. -/
theorem run_observed (watch : σ → γ → α → γ) {s last : σ} {labels : List α}
    (ran : run step s labels = some last) (record : γ) :
    ∃ after, run (observed step watch) (s, record) labels = some (last, after) := by
  induction labels generalizing s record with
  | nil =>
      cases Option.some.inj ran
      exact ⟨record, rfl⟩
  | cons a rest ih =>
      obtain ⟨next, stepped, ranRest⟩ := (run_cons_eq_some step).mp ran
      obtain ⟨after, observedRest⟩ := ih ranRest (watch s record a)
      refine ⟨after, (run_cons_eq_some _).mpr ⟨_, ?_, observedRest⟩⟩
      exact observed_eq_some.mpr ⟨stepped, rfl⟩

/-- A condition on the machine's steps is one on the observed steps. -/
theorem meets_observed (watch : σ → γ → α → γ) {ok : σ → α → Prop} {s : σ} {labels : List α}
    (meets : Meets step ok s labels) (record : γ) :
    Meets (observed step watch) (fun p a => ok p.1 a) (s, record) labels := by
  induction labels generalizing s record with
  | nil => trivial
  | cons a rest ih =>
      refine ⟨meets.1, ?_⟩
      rintro ⟨next, after⟩ stepped
      exact ih (meets.2 next (observed_eq_some.mp stepped).1) after

theorem meets_of_observed (watch : σ → γ → α → γ) {ok : σ → α → Prop} {s : σ} {labels : List α}
    {record : γ}
    (meets : Meets (observed step watch) (fun p a => ok p.1 a) (s, record) labels) :
    Meets step ok s labels := by
  induction labels generalizing s record with
  | nil => trivial
  | cons a rest ih =>
      refine ⟨meets.1, ?_⟩
      intro next stepped
      exact ih (meets.2 (next, watch s record a) (observed_eq_some.mpr ⟨stepped, rfl⟩))

end Rules

end LabelledMachine
