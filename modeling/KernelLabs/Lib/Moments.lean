import Mathlib.Data.List.Infix

/-!
# Loads of a history that grows

Writers append to a history, and what a variable holds is a function of it.  A
reader that loads the variables one at a time, without keeping the writers out,
gets for each of them what the history told at some moment while it ran; the
moments of two loads need not be the same, nor in the order of the variables.
-/

set_option autoImplicit false

namespace Moments

variable {η : Type*} {history later : List η} {start : Nat} {fact : List η → Prop}

/-- The history told the fact at a moment that is not before `start`. -/
def Sees (history : List η) (start : Nat) (fact : List η → Prop) : Prop :=
  ∃ moment, start ≤ moment ∧ moment ≤ history.length ∧ fact (history.take moment)

theorem sees_now (began : start ≤ history.length) (told : fact history) :
    Sees history start fact := by
  refine ⟨history.length, began, Nat.le_refl _, ?_⟩
  rw [List.take_length]
  exact told

/-- What was seen stays seen. -/
theorem Sees.grow (sees : Sees history start fact) (grown : history <+: later) :
    Sees later start fact := by
  obtain ⟨moment, since, reached, told⟩ := sees
  obtain ⟨more, rfl⟩ := grown
  have longer : (history ++ more).length = history.length + more.length := List.length_append
  refine ⟨moment, since, by omega, ?_⟩
  rw [List.take_append_of_le_length reached]
  exact told

theorem Sees.bound (sees : Sees history start fact) : start ≤ history.length := by
  obtain ⟨moment, since, reached, _⟩ := sees
  exact Nat.le_trans since reached

/-- A reader that nothing was appended beside sees what the history tells. -/
theorem Sees.undisturbed (sees : Sees history history.length fact) : fact history := by
  obtain ⟨moment, since, reached, told⟩ := sees
  have now := Nat.le_antisymm reached since
  subst now
  rwa [List.take_length] at told

/-- As long as no appended entry changes the value, it is the one at the start. -/
theorem Sees.unchanged {β : Type*} {view : List η → β} {value : β}
    (sees : Sees history start fun told => view told = value)
    (same : ∀ moment, start ≤ moment → moment ≤ history.length →
      view (history.take moment) = view (history.take start)) :
    value = view (history.take start) := by
  obtain ⟨moment, since, reached, told⟩ := sees
  exact told.symm.trans (same moment since reached)

/-- The entries of one kind: as many as there were at the start, and those
that came while the reader ran at most. -/
theorem Sees.countP (p : η → Bool) {n : Nat}
    (sees : Sees history start fun told => told.countP p = n) :
    (history.take start).countP p ≤ n ∧ n ≤ history.countP p := by
  obtain ⟨moment, since, _, rfl⟩ := sees
  constructor
  · exact (List.take_prefix_take_left since).sublist.countP_le
  · exact (List.take_prefix moment history).sublist.countP_le

theorem countP_take_add_drop (p : η → Bool) (history : List η) (start : Nat) :
    (history.take start).countP p + (history.drop start).countP p = history.countP p := by
  rw [← List.countP_append, List.take_append_drop]

end Moments
