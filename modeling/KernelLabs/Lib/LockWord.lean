import Mathlib.Logic.Basic

/-!
# Lock words

A lock word is one bit; a party is inside while its program point lies between
acquiring and releasing.  `LockStep` is the discipline each atomic step of a
party follows, and `Exclusive` is what it keeps: the bit is set exactly when one
party is inside, and never more than one is.
-/

set_option autoImplicit false

namespace LockWord

/-- What one atomic step does to the lock word and to whether the stepping
party is inside. -/
inductive LockStep (lock was lock' now : Bool) : Prop where
  | passes (word : lock' = lock) (place : now = was)
  | acquires (free : lock = false) (outside : was = false) (word : lock' = true)
      (place : now = true)
  | releases (inside : was = true) (word : lock' = false) (place : now = false)

/-- The number of parties inside is what the lock word says. -/
def Exclusive (lock : Bool) (holders : Nat) : Prop := holders = if lock then 1 else 0

variable {lock was lock' now : Bool} {holders holders' : Nat}

theorem Exclusive.step (exclusive : Exclusive lock holders) (stepped : LockStep lock was lock' now)
    (counted : holders' + (if was then 1 else 0) = holders + (if now then 1 else 0)) :
    Exclusive lock' holders' := by
  unfold Exclusive at *
  cases stepped with
  | passes word place =>
      subst word place
      omega
  | acquires free outside word place =>
      subst free outside word place
      simp only [Bool.false_eq_true, if_false, if_true] at *
      omega
  | releases inside word place =>
      subst inside word place
      simp only [Bool.false_eq_true, if_false, if_true] at *
      split at exclusive <;> omega

theorem Exclusive.locked (exclusive : Exclusive lock holders) (inside : 0 < holders) :
    lock = true := by
  unfold Exclusive at exclusive
  cases lock with
  | true => rfl
  | false =>
      rw [if_neg Bool.false_ne_true] at exclusive
      omega

theorem Exclusive.le_one (exclusive : Exclusive lock holders) : holders ≤ 1 := by
  unfold Exclusive at exclusive
  split at exclusive <;> omega

end LockWord
