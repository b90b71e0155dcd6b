import KernelLabs.Lib.SeekableFile

/-!
# Truncating appends to a bounded buffer

An append writes, at the length reached, as much of its text as leaves room for a
terminator, and the terminator behind it.  Any number of appends leave what one
truncation of all their texts would, also when some of them find no room: a cut
text fills the buffer, and a full buffer takes nothing more.
-/

set_option autoImplicit false

namespace BoundedText

open SeekableFile

variable {α : Type*}

/-- As much of the text as fits in front of the terminator. -/
def piece (capacity len : Nat) (text : List α) : List α := text.take (capacity - len - 1)

/-- The first `len` entries are the front of the text, cut so that a terminator
has room. -/
structure Holds (capacity : Nat) (text buf : List α) (len : Nat) : Prop where
  size : buf.length = capacity
  len_eq : len = min text.length (capacity - 1)
  front : buf.take len = text.take (capacity - 1)

/-- A terminator follows the text. -/
def Terminated (stop : α) (buf : List α) (len : Nat) : Prop := buf[len]? = some stop

theorem holds_nil {capacity : Nat} {buf : List α} (size : buf.length = capacity) :
    Holds capacity [] buf 0 :=
  ⟨size, (Nat.zero_min _).symm, by simp⟩

/-- A full buffer holds any longer text as well. -/
theorem Holds.longer {capacity : Nat} {text buf : List α} {len : Nat}
    (holds : Holds capacity text buf len) (full : capacity - 1 ≤ len) (more : List α) :
    Holds capacity (text ++ more) buf len := by
  have same := holds.len_eq
  have long : capacity - 1 ≤ text.length := by omega
  refine ⟨holds.size, ?_, ?_⟩
  · rw [List.length_append]
    omega
  · rw [holds.front, List.take_append_of_le_length long]

/-- Two truncations in a row are one. -/
theorem take_append_piece (capacity : Nat) (text more : List α) :
    text.take (capacity - 1) ++ piece capacity (min text.length (capacity - 1)) more =
      (text ++ more).take (capacity - 1) := by
  rw [List.take_append, piece]
  congr 1
  rw [List.take_eq_take_iff]
  omega

section Append
variable {capacity len : Nat} {text buf : List α} (holds : Holds capacity text buf len)
  (positive : 0 < capacity) (stop : α) (more : List α)
include holds positive

theorem Holds.room : len < capacity := by
  have same := holds.len_eq
  omega

theorem Holds.fits : len + (piece capacity len more ++ [stop]).length ≤ buf.length := by
  have room := holds.room positive
  rw [holds.size, List.length_append, List.length_singleton, piece, List.length_take]
  omega

theorem Holds.append :
    Holds capacity (text ++ more) (overwrite buf len (piece capacity len more ++ [stop]))
      (len + (piece capacity len more).length) := by
  have fits := holds.fits positive stop more
  have same := holds.len_eq
  have frontLength : (buf.take len).length = len := by
    rw [List.length_take]
    omega
  have joined : buf.take len ++ piece capacity len more = (text ++ more).take (capacity - 1) := by
    rw [holds.front, same, take_append_piece]
  refine ⟨(overwrite_length fits).trans holds.size, ?_, ?_⟩
  · have lengths := congrArg List.length joined
    rw [List.length_append, frontLength, List.length_take] at lengths
    rw [lengths, Nat.min_comm]
  · have written : overwrite buf len (piece capacity len more ++ [stop]) =
        (buf.take len ++ piece capacity len more) ++
          ([stop] ++ buf.drop (len + (piece capacity len more ++ [stop]).length)) := by
      simp only [overwrite, List.append_assoc]
    rw [written, List.take_left' (by rw [List.length_append, frontLength]), joined]

theorem Holds.terminated :
    Terminated stop (overwrite buf len (piece capacity len more ++ [stop]))
      (len + (piece capacity len more).length) := by
  have fits := holds.fits positive stop more
  rw [Terminated, overwrite_inside fits (Nat.le_add_right _ _)
    (by rw [List.length_append, List.length_singleton]; omega), Nat.add_sub_cancel_left,
    List.getElem?_concat_length]

end Append

/-! ## Cut texts that begin another text -/

section Agreement
variable [DecidableEq α]

/-- The number of leading entries that two texts share. -/
def agreement : List α → List α → Nat
  | x :: xs, y :: ys => if x = y then agreement xs ys + 1 else 0
  | _, _ => 0

theorem agreement_le_length (xs ys : List α) : agreement xs ys ≤ xs.length := by
  fun_induction agreement xs ys with
  | case1 x xs ys ih => exact Nat.succ_le_succ ih
  | case2 x xs y ys differ => exact Nat.zero_le _
  | case3 xs ys shorter => exact Nat.zero_le _

theorem agreement_self (xs : List α) : agreement xs xs = xs.length := by
  induction xs with
  | nil => rfl
  | cons x xs ih => rw [agreement, if_pos rfl, ih, List.length_cons]

theorem agreement_append (front xs ys : List α) :
    agreement (front ++ xs) (front ++ ys) = front.length + agreement xs ys := by
  induction front with
  | nil => exact (Nat.zero_add _).symm
  | cons x front ih =>
      rw [List.cons_append, List.cons_append, agreement, if_pos rfl, ih, List.length_cons]
      omega

theorem take_prefix_iff (n : Nat) (xs ys : List α) :
    xs.take n <+: ys ↔ min n xs.length ≤ agreement xs ys := by
  induction n generalizing xs ys with
  | zero => simp
  | succ n ih =>
      cases xs with
      | nil => simp
      | cons x xs =>
          cases ys with
          | nil => simp [agreement]
          | cons y ys =>
              rw [List.take_succ_cons, List.cons_prefix_cons, ih, agreement, List.length_cons]
              by_cases same : x = y
              · rw [if_pos same]
                exact ⟨fun both => by omega, fun short => ⟨same, by omega⟩⟩
              · rw [if_neg same]
                exact ⟨fun both => absurd both.1 same, fun short => by omega⟩

/-- Of two different texts neither goes on in the other behind its terminator. -/
theorem agreement_terminated {stop : α} {xs ys : List α} (clean : stop ∉ xs) (alsoClean : stop ∉ ys)
    (differ : xs ≠ ys) : agreement (xs ++ [stop]) (ys ++ [stop]) = agreement xs ys := by
  fun_induction agreement xs ys with
  | case1 x xs ys ih =>
      have rest := ih (List.not_mem_of_not_mem_cons clean) (List.not_mem_of_not_mem_cons alsoClean)
        fun same => differ (by rw [same])
      rw [List.cons_append, List.cons_append, agreement, if_pos rfl, rest]
  | case2 x xs y ys first =>
      rw [List.cons_append, List.cons_append, agreement, if_neg first]
  | case3 xs ys shorter =>
      cases xs with
      | nil =>
          cases ys with
          | nil => exact absurd rfl differ
          | cons y ys =>
              rw [List.nil_append, List.cons_append, agreement,
                if_neg (List.ne_of_not_mem_cons alsoClean)]
      | cons x xs =>
          cases ys with
          | nil =>
              rw [List.nil_append, List.cons_append, agreement,
                if_neg (List.ne_of_not_mem_cons clean).symm]
          | cons y ys => exact absurd rfl (shorter x xs y ys rfl)

/-- A cut of a terminated text begins another one with the same head exactly when
the two are the same text or the cut keeps only what they share. -/
theorem take_terminated_prefix_iff {stop : α} {xs ys : List α} (clean : stop ∉ xs)
    (alsoClean : stop ∉ ys) (n : Nat) (head : List α) :
    (head ++ (xs ++ [stop])).take n <+: head ++ (ys ++ [stop]) ↔
      xs = ys ∨ n ≤ head.length + agreement xs ys := by
  rw [take_prefix_iff, agreement_append, List.length_append, List.length_append,
    List.length_singleton]
  by_cases same : xs = ys
  · subst same
    rw [agreement_self, List.length_append, List.length_singleton]
    exact ⟨fun _ => Or.inl rfl, fun _ => Nat.min_le_right _ _⟩
  · have bounded := agreement_le_length xs ys
    rw [agreement_terminated clean alsoClean same]
    constructor
    · intro short
      exact Or.inr (by omega)
    · rintro (equal | short)
      · exact absurd equal same
      · omega

end Agreement

end BoundedText
