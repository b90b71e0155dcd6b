import KernelLabs.Lib.Machine
import Mathlib.Algebra.Order.Monoid.Unbundled.Basic
import Mathlib.Algebra.Group.Basic

/-!
# Sums along runs

A tally adds up a weight over the steps of a run: a number of events, or an
amount handed out.  The potential rule bounds one tally by another.
-/

set_option autoImplicit false

namespace LabelledMachine

variable {σ α M : Type*} (step : σ → α → Option σ)

/-- The weights of the steps of a run, added up; the run ends at the first
label that is not enabled. -/
def tally [AddMonoid M] (weight : σ → α → M) : σ → List α → M
  | _, [] => 0
  | s, a :: rest =>
    match step s a with
    | none => 0
    | some next => weight s a + tally weight next rest

theorem tally_nonneg [AddMonoid M] [PartialOrder M] [AddLeftMono M] {weight : σ → α → M}
    (nonneg : ∀ s a, 0 ≤ weight s a) (s : σ) (labels : List α) :
    0 ≤ tally step weight s labels := by
  induction labels generalizing s with
  | nil => exact le_refl 0
  | cons a rest ih =>
      cases stepped : step s a with
      | none => simp only [tally, stepped, le_refl]
      | some next =>
          simp only [tally, stepped]
          exact add_nonneg (nonneg s a) (ih next)

theorem tally_zero [AddMonoid M] (s : σ) (labels : List α) :
    tally step (fun _ _ => (0 : M)) s labels = 0 := by
  induction labels generalizing s with
  | nil => rfl
  | cons a rest ih =>
      cases stepped : step s a with
      | none => simp only [tally, stepped]
      | some next => simp only [tally, stepped, ih next, zero_add]

section Rules
variable {step}

theorem tally_cons [AddMonoid M] (weight : σ → α → M) {s next : σ} {a : α} (rest : List α)
    (stepped : step s a = some next) :
    tally step weight s (a :: rest) = weight s a + tally step weight next rest := by
  simp only [tally, stepped]

theorem tally_append [AddMonoid M] (weight : σ → α → M) {s middle : σ} {front : List α}
    (back : List α) (ran : run step s front = some middle) :
    tally step weight s (front ++ back) =
      tally step weight s front + tally step weight middle back := by
  induction front generalizing s with
  | nil =>
      cases Option.some.inj ran
      rw [List.nil_append, tally, zero_add]
  | cons a rest ih =>
      obtain ⟨next, stepped, ranRest⟩ := (run_cons_eq_some step).mp ran
      rw [List.cons_append, tally_cons weight _ stepped, tally_cons weight _ stepped,
        ih ranRest, add_assoc]

/-- A tally only sees the states the run goes through. -/
theorem tally_congr_always [AddMonoid M] {weight other : σ → α → M} {P : σ → Prop}
    (same : ∀ s a, P s → weight s a = other s a) {s : σ} {labels : List α}
    (always : Always step P s labels) :
    tally step weight s labels = tally step other s labels := by
  induction labels generalizing s with
  | nil => rfl
  | cons a rest ih =>
      cases stepped : step s a with
      | none => simp only [tally, stepped]
      | some next =>
          rw [tally_cons weight rest stepped, tally_cons other rest stepped,
            same s a always.1, ih (always.2 next stepped)]

/-- What every step adds to a measure, the run adds. -/
theorem add_tally_eq [AddMonoid M] {G : σ → Prop} {weight : σ → α → M} (measure : σ → M)
    (keep : ∀ s a next, G s → step s a = some next → G next)
    (adds : ∀ s a next, G s → step s a = some next → measure s + weight s a = measure next)
    {s last : σ} {labels : List α} (good : G s) (ran : run step s labels = some last) :
    measure s + tally step weight s labels = measure last := by
  induction labels generalizing s with
  | nil =>
      cases Option.some.inj ran
      exact add_zero _
  | cons a rest ih =>
      obtain ⟨next, stepped, ranRest⟩ := (run_cons_eq_some step).mp ran
      rw [tally_cons weight rest stepped, ← add_assoc, adds s a next good stepped]
      exact ih (keep s a next good stepped) ranRest

/-- Potential rule: when each step spends no more than it gains and the
potential gives up, a run spends no more than the potential it started with and
all it gained. -/
theorem tally_add_potential_le [AddCommMonoid M] [PartialOrder M] [AddLeftMono M]
    {G : σ → Prop} {spend gain : σ → α → M} {potential : σ → M}
    (keep : ∀ s a next, G s → step s a = some next → G next)
    (pays : ∀ s a next, G s → step s a = some next →
      spend s a + potential next ≤ potential s + gain s a)
    {s last : σ} {labels : List α} (good : G s) (ran : run step s labels = some last) :
    tally step spend s labels + potential last ≤
      potential s + tally step gain s labels := by
  induction labels generalizing s with
  | nil =>
      cases Option.some.inj ran
      rw [tally, tally, zero_add, add_zero]
  | cons a rest ih =>
      obtain ⟨next, stepped, ranRest⟩ := (run_cons_eq_some step).mp ran
      have later := ih (keep s a next good stepped) ranRest
      have now := pays s a next good stepped
      rw [tally_cons spend rest stepped, tally_cons gain rest stepped]
      calc spend s a + tally step spend next rest + potential last
          = spend s a + (tally step spend next rest + potential last) := add_assoc _ _ _
        _ ≤ spend s a + (potential next + tally step gain next rest) := by gcongr
        _ = spend s a + potential next + tally step gain next rest := (add_assoc _ _ _).symm
        _ ≤ potential s + gain s a + tally step gain next rest := by gcongr
        _ = potential s + (gain s a + tally step gain next rest) := add_assoc _ _ _

/-- Conservation rule: when each step spends what the potential and its gain
give up, so does a run. -/
theorem tally_add_potential_eq [AddCommMonoid M] {G : σ → Prop} {spend gain : σ → α → M}
    {potential : σ → M} (keep : ∀ s a next, G s → step s a = some next → G next)
    (balances : ∀ s a next, G s → step s a = some next →
      spend s a + potential next = potential s + gain s a)
    {s last : σ} {labels : List α} (good : G s) (ran : run step s labels = some last) :
    tally step spend s labels + potential last =
      potential s + tally step gain s labels := by
  induction labels generalizing s with
  | nil =>
      cases Option.some.inj ran
      rw [tally, tally, zero_add, add_zero]
  | cons a rest ih =>
      obtain ⟨next, stepped, ranRest⟩ := (run_cons_eq_some step).mp ran
      have later := ih (keep s a next good stepped) ranRest
      have now := balances s a next good stepped
      rw [tally_cons spend rest stepped, tally_cons gain rest stepped, add_assoc, later,
        ← add_assoc, now, add_assoc]

end Rules

end LabelledMachine
