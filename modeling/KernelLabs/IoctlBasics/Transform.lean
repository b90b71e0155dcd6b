import KernelLabs.Kernel.Text
import KernelLabs.Lib.CountedLoop

/-!
# `apply_mode_transform` of `10_ioctl_basics/ioctl_basics.c`

The two loops over the buffer, with `none` for an access outside it.  On a text
and its terminating NUL, whatever follows, the first loop is a map and the second
a reversal of the text, and neither touches the NUL or what is behind it.
-/

set_option autoImplicit false

namespace IoctlBasics

open Kernel CountedLoop

def modeIdentity : UInt32 := 0
def modeUpper : UInt32 := 1
def modeReverse : UInt32 := 2

/-- `strlen` leaves a buffer that holds no NUL. -/
def strlen (buf : Bytes) : Option Nat := if 0 ∈ buf then some (cstr buf).length else none

def isLower (c : UInt8) : Prop := 97 ≤ c ∧ c ≤ 122

instance (c : UInt8) : Decidable (isLower c) := inferInstanceAs (Decidable (_ ∧ _))

/-- The body of the `UPPER` loop. -/
def upperAt (buf : Bytes) (i : Nat) : Option Bytes :=
  match buf[i]? with
  | none => none
  | some c => if isLower c then some (buf.set i (c - 32)) else some buf

def applyModeTransform (buf : Bytes) (mode : UInt32) : Option Bytes :=
  match strlen buf with
  | none => none
  | some len =>
    if mode = modeUpper then forLoop upperAt len buf
    else if mode = modeReverse then
      forLoop (fun buf i => exchange buf i (len - 1 - i)) (len / 2) buf
    else some buf

/-! ## What it does to the text -/

def upper (c : UInt8) : UInt8 := if isLower c then c - 32 else c

theorem upper_upper (c : UInt8) : upper (upper c) = upper c := by
  unfold upper
  split
  · rename_i lower
    apply if_neg
    simp only [isLower, UInt8.le_iff_toNat_le] at *
    rw [UInt8.toNat_sub_of_le _ _ (UInt8.le_iff_toNat_le.mpr (by simp at *; omega))]
    simp at *
    omega
  · rfl

theorem upper_ne_zero {c : UInt8} (nonzero : c ≠ 0) : upper c ≠ 0 := by
  unfold upper
  split
  · rename_i lower
    intro zero
    simp only [isLower, UInt8.le_iff_toNat_le] at lower
    have same := congrArg UInt8.toNat zero
    rw [UInt8.toNat_sub_of_le _ _ (UInt8.le_iff_toNat_le.mpr (by simp at *; omega))] at same
    simp at *
    omega
  · exact nonzero

theorem upperAt_eq_update : upperAt = update upper := by
  funext buf i
  rw [upperAt, update]
  cases found : buf[i]? with
  | none => rfl
  | some c =>
      obtain ⟨inside, here⟩ := List.getElem?_eq_some_iff.mp found
      rw [Option.map_some]
      unfold upper
      dsimp only
      split
      · rfl
      · rw [← here, List.set_getElem_self]

/-- The text a mode makes of a text. -/
def transformed (mode : UInt32) (text : Bytes) : Bytes :=
  if mode = modeUpper then text.map upper else if mode = modeReverse then text.reverse else text

theorem transformed_length (mode : UInt32) (text : Bytes) :
    (transformed mode text).length = text.length := by
  unfold transformed
  split
  · exact List.length_map _
  · split
    · exact List.length_reverse
    · rfl

theorem transformed_nonzero (mode : UInt32) {text : Bytes} (nonzero : 0 ∉ text) :
    0 ∉ transformed mode text := by
  unfold transformed
  split
  · intro member
    obtain ⟨c, old, zero⟩ := List.mem_map.mp member
    exact upper_ne_zero (fun same => nonzero (same ▸ old)) zero
  · split
    · rwa [List.mem_reverse]
    · exact nonzero

theorem applyModeTransform_terminated {text : Bytes} (nonzero : 0 ∉ text) (rest : Bytes)
    (mode : UInt32) :
    applyModeTransform (text ++ 0 :: rest) mode = some (transformed mode text ++ 0 :: rest) := by
  have len : strlen (text ++ 0 :: rest) = some text.length := by
    rw [strlen, if_pos (by simp), cstr_terminated nonzero]
  unfold transformed
  simp only [applyModeTransform, len]
  split
  · rw [upperAt_eq_update]
    exact mapFront_append upper text (0 :: rest)
  · split
    · exact reverseFront_append text (0 :: rest)
    · rfl

/-! ## Laws -/

/-- What the transforms do to a NUL-terminated buffer, byte by byte, and how they
compose. -/
structure Behaves (buf : Bytes) : Prop where
  text_only : ∀ mode, ∃ out, applyModeTransform buf mode = some out ∧ out.length = buf.length ∧
    (cstr out).length = (cstr buf).length ∧ ∀ k, (cstr buf).length ≤ k → out[k]? = buf[k]?
  reverse : ∃ out, applyModeTransform buf modeReverse = some out ∧
    (∀ i < (cstr buf).length, out[i]? = buf[(cstr buf).length - 1 - i]?) ∧
    applyModeTransform out modeReverse = some buf
  upper : ∃ out, applyModeTransform buf modeUpper = some out ∧
    (∀ i < (cstr buf).length, ∀ c, buf[i]? = some c →
      out[i]? = some (if 97 ≤ c ∧ c ≤ 122 then c - 32 else c)) ∧
    applyModeTransform out modeUpper = some out
  commute : (applyModeTransform buf modeUpper).bind (applyModeTransform · modeReverse) =
    (applyModeTransform buf modeReverse).bind (applyModeTransform · modeUpper)
  others : ∀ mode, mode ≠ modeUpper → mode ≠ modeReverse → applyModeTransform buf mode = some buf

@[simp] theorem transformed_upper (text : Bytes) : transformed modeUpper text = text.map upper :=
  if_pos rfl

@[simp] theorem transformed_reverse (text : Bytes) : transformed modeReverse text = text.reverse :=
  rfl

theorem behaves_of_terminated {buf : Bytes} (terminated : 0 ∈ buf) : Behaves buf := by
  obtain ⟨text, rest, rfl, nonzero⟩ := List.eq_append_cons_of_mem terminated
  have applied (mode : UInt32) := applyModeTransform_terminated nonzero rest mode
  have again (mode first : UInt32) :=
    applyModeTransform_terminated (transformed_nonzero first nonzero) rest mode
  have len := cstr_terminated nonzero rest
  refine ⟨?_, ?_, ?_, ?_, ?_⟩
  · intro mode
    have length := transformed_length mode text
    refine ⟨_, applied mode, ?_, ?_, ?_⟩
    · rw [List.length_append, List.length_append, length]
    · rw [cstr_terminated (transformed_nonzero mode nonzero), len, length]
    · intro k behind
      rw [len] at behind
      rw [List.getElem?_append_right (length ▸ behind), List.getElem?_append_right behind, length]
  · refine ⟨_, applied modeReverse, ?_, ?_⟩
    · intro i front
      rw [len] at front ⊢
      rw [transformed_reverse, List.getElem?_append_left (by simpa using front),
        List.getElem?_append_left (by omega), List.getElem?_reverse front]
    · rw [again modeReverse modeReverse, transformed_reverse, transformed_reverse,
        List.reverse_reverse]
  · refine ⟨_, applied modeUpper, ?_, ?_⟩
    · intro i front c here
      rw [len] at front
      rw [List.getElem?_append_left front] at here
      rw [transformed_upper, List.getElem?_append_left (by simpa using front), List.getElem?_map,
        here]
      rfl
    · rw [again modeUpper modeUpper, transformed_upper, transformed_upper, List.map_map]
      congr 2
      exact List.map_congr_left fun c _ => upper_upper c
  · rw [applied, applied, Option.bind_some, Option.bind_some, again, again, transformed_reverse,
      transformed_upper, transformed_upper, transformed_reverse, List.map_reverse]
  · intro mode notUpper notReverse
    rw [applied, transformed, if_neg notUpper, if_neg notReverse]

end IoctlBasics
