import Mathlib.Data.Nat.ModEq
import Mathlib.Data.Fin.Basic
import Mathlib.Logic.Function.Basic

/-!
# Overwriting bounded FIFOs and their circular representation

A bounded FIFO that overwrites its oldest entry when it is full holds, at any
time, the last `capacity` entries pushed since it was last emptied.  The second
half represents it by `n` slots, a start index taken modulo `n` and a count, and
shows that one store at the slot after the window is one push.
-/

set_option autoImplicit false

namespace OverwritingFifo

variable {α : Type*}

/-- The last `n` entries of a list, or all of it when there are fewer. -/
def lastN (n : Nat) (items : List α) : List α := items.drop (items.length - n)

def push (capacity : Nat) (queue : List α) (x : α) : List α := lastN capacity (queue ++ [x])

theorem lastN_of_length_le {n : Nat} {items : List α} (short : items.length ≤ n) :
    lastN n items = items := by
  have nothing : items.length - n = 0 := by omega
  simp [lastN, nothing]

@[simp] theorem lastN_nil (n : Nat) : lastN n ([] : List α) = [] := by simp [lastN]

theorem lastN_suffix (n : Nat) (items : List α) : lastN n items <:+ items :=
  List.drop_suffix _ _

theorem lastN_min_length (n : Nat) (items : List α) :
    lastN (min n items.length) items = lastN n items := by
  unfold lastN
  congr 1
  omega

theorem eq_lastN_of_suffix {part whole : List α} (suffix : part <:+ whole) :
    part = lastN part.length whole := by
  obtain ⟨front, rfl⟩ := suffix
  simp [lastN]

/-- Pushing onto what was kept keeps what pushing onto everything keeps. -/
theorem push_lastN (capacity : Nat) (items : List α) (x : α) :
    push capacity (lastN capacity items) x = lastN capacity (items ++ [x]) := by
  rcases Nat.le_total items.length capacity with short | long
  · rw [lastN_of_length_le short, push]
  · have kept : items.drop (items.length - capacity) ++ [x] =
        (items ++ [x]).drop (items.length - capacity) :=
      (List.drop_append_of_le_length (Nat.sub_le items.length capacity)).symm
    simp only [push, lastN, kept, List.length_append, List.length_drop, List.length_singleton,
      List.drop_drop]
    congr 1
    omega

/-! ## Circular slots -/

variable {n : Nat} [NeZero n]

/-- The entries of `count` consecutive slots, indices modulo `n`. -/
def window (slots : Fin n → α) (start count : Nat) : List α :=
  (List.range count).map fun i => slots (Fin.ofNat n (start + i))

@[simp] theorem window_length (slots : Fin n → α) (start count : Nat) :
    (window slots start count).length = count := by
  simp [window]

@[simp] theorem window_zero (slots : Fin n → α) (start : Nat) : window slots start 0 = [] := rfl

theorem window_congr (slots : Fin n → α) {start other : Nat} (count : Nat)
    (same : start % n = other % n) : window slots start count = window slots other count := by
  unfold window
  apply List.map_congr_left
  intro i _
  congr 1
  apply Fin.ext
  exact Nat.ModEq.add_right i same

theorem window_succ (slots : Fin n → α) (start count : Nat) :
    window slots start (count + 1) =
      window slots start count ++ [slots (Fin.ofNat n (start + count))] := by
  simp [window, List.range_succ]

theorem window_cons (slots : Fin n → α) (start count : Nat) :
    window slots start (count + 1) =
      slots (Fin.ofNat n start) :: window slots (start + 1) count := by
  simp only [window, List.range_succ_eq_map, List.map_cons, List.map_map, Nat.add_zero]
  congr 1
  apply List.map_congr_left
  intro i _
  simp only [Function.comp_apply]
  congr 2
  omega

/-- The slot after a window of fewer than `n` entries is none of them. -/
theorem window_update_outside (slots : Fin n → α) (start count : Nat) (x : α)
    (room : count < n) :
    window (Function.update slots (Fin.ofNat n (start + count)) x) start count =
      window slots start count := by
  unfold window
  apply List.map_congr_left
  intro i member
  have earlier : i < count := List.mem_range.mp member
  apply Function.update_of_ne
  intro same
  have sameVal : (start + i) % n = (start + count) % n := by
    simpa [Fin.ofNat, Fin.ext_iff] using same
  have congruent : (start + i) + (count - i) ≡ (start + i) + 0 [MOD n] := by
    unfold Nat.ModEq
    rw [Nat.add_zero, sameVal]
    congr 1
    omega
  have divides : count - i ≡ 0 [MOD n] := Nat.ModEq.add_left_cancel' (start + i) congruent
  have small : (count - i) % n = count - i := Nat.mod_eq_of_lt (by omega)
  have zero : (count - i) % n = 0 := by simpa [Nat.ModEq] using divides
  omega

theorem window_store_room (slots : Fin n → α) (start count : Nat) (x : α)
    (room : count < n) :
    window (Function.update slots (Fin.ofNat n (start + count)) x) start (count + 1) =
      push n (window slots start count) x := by
  rw [window_succ, window_update_outside slots start count x room, Function.update_self, push,
    lastN_of_length_le]
  simp only [List.length_append, window_length, List.length_singleton]
  omega

/-- Storing behind a full window overwrites its first entry. -/
theorem window_store_full (slots : Fin n → α) (start : Nat) (x : α) :
    window (Function.update slots (Fin.ofNat n (start + n)) x) (start + 1) n =
      push n (window slots start n) x := by
  obtain ⟨m, size⟩ : ∃ m, n = m + 1 := ⟨n - 1, by have := Nat.pos_of_neZero n; omega⟩
  have next : start + n = start + 1 + m := by omega
  have front : window slots start n = slots (Fin.ofNat n start) :: window slots (start + 1) m := by
    rw [← window_cons, ← size]
  have back : ∀ f : Fin n → α, window f (start + 1) n =
      window f (start + 1) m ++ [f (Fin.ofNat n (start + 1 + m))] := by
    intro f
    rw [← window_succ, ← size]
  rw [back, next, window_update_outside slots (start + 1) m x (by omega), Function.update_self,
    front, push, lastN]
  simp only [List.length_append, List.length_cons, window_length, List.length_nil]
  have one : m + 1 + (0 + 1) - n = 1 := by omega
  rw [one]
  simp

end OverwritingFifo
