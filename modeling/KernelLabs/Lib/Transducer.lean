import Mathlib.Logic.Basic

/-!
# Machines with replies and their simulation

A machine with replies answers every request of a sequence, or runs into a
fault (`none`).  When each request takes related states to related states with
the same reply, a fault-free machine gives one transcript with the other one.
-/

set_option autoImplicit false

namespace Transducer

variable {σ τ α ρ : Type*}

def exec (step : σ → α → Option (σ × ρ)) : σ → List α → Option (σ × List ρ)
  | s, [] => some (s, [])
  | s, a :: rest =>
    match step s a with
    | none => none
    | some (next, reply) =>
      (exec step next rest).map fun (last, replies) => (last, reply :: replies)

/-- What the machine answers, `none` when it runs into a fault. -/
def transcript (step : σ → α → Option (σ × ρ)) (s : σ) (requests : List α) : Option (List ρ) :=
  (exec step s requests).map Prod.snd

/-- From related states, related machines answer alike and end related. -/
theorem exec_simulates {step : σ → α → Option (σ × ρ)} {spec : τ → α → Option (τ × ρ)}
    {R : σ → τ → Prop} {ok : α → Prop}
    (simulates : ∀ s t a, R s t → ok a → ∃ s' t' reply,
      step s a = some (s', reply) ∧ spec t a = some (t', reply) ∧ R s' t')
    {s : σ} {t : τ} {requests : List α} (related : R s t) (all : ∀ a ∈ requests, ok a) :
    ∃ s' t' replies, exec step s requests = some (s', replies) ∧
      exec spec t requests = some (t', replies) ∧ R s' t' := by
  induction requests generalizing s t with
  | nil => exact ⟨s, t, [], rfl, rfl, related⟩
  | cons a rest ih =>
      obtain ⟨next, specNext, reply, stepped, specStepped, nextRelated⟩ :=
        simulates s t a related (all a List.mem_cons_self)
      obtain ⟨last, specLast, replies, ran, specRan, lastRelated⟩ :=
        ih nextRelated fun b member => all b (List.mem_cons_of_mem a member)
      refine ⟨last, specLast, reply :: replies, ?_, ?_, lastRelated⟩
      · simp only [exec, stepped, ran, Option.map_some]
      · simp only [exec, specStepped, specRan, Option.map_some]

/-- States that every request keeps related give one transcript. -/
theorem transcript_eq {step : σ → α → Option (σ × ρ)} {spec : τ → α → Option (τ × ρ)}
    {R : σ → τ → Prop}
    (simulates : ∀ s t a, R s t → ∃ s' t' reply,
      step s a = some (s', reply) ∧ spec t a = some (t', reply) ∧ R s' t')
    {s : σ} {t : τ} (related : R s t) (requests : List α) :
    transcript step s requests = transcript spec t requests := by
  have all : ∀ a ∈ requests, (fun _ => True) a := fun _ _ => trivial
  obtain ⟨_, _, replies, ran, specRan, _⟩ :=
    exec_simulates (fun s t a here _ => simulates s t a here) related all
  rw [transcript, transcript, ran, specRan, Option.map_some, Option.map_some]

/-- What every request keeps and no fault interrupts, a run of requests keeps. -/
theorem exec_invariant {step : σ → α → Option (σ × ρ)} {I : σ → Prop}
    (keep : ∀ s a next reply, I s → step s a = some (next, reply) → I next)
    {s last : σ} {requests : List α} {replies : List ρ} (start : I s)
    (ran : exec step s requests = some (last, replies)) : I last := by
  induction requests generalizing s replies with
  | nil =>
      cases ran
      exact start
  | cons a rest ih =>
      simp only [exec] at ran
      split at ran
      · cases ran
      · rename_i next reply stepped
        obtain ⟨⟨last', replies'⟩, ranRest, same⟩ := Option.map_eq_some_iff.mp ran
        cases same
        exact ih (keep s a next reply start stepped) ranRest

end Transducer
