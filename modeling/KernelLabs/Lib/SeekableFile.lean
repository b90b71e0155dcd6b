import Mathlib.Data.List.Basic

/-!
# Files as histories of writes

What a seekable file holds is decided by the writes made to it: at each offset
the value the last write covering it put there, or blank, and up to the largest
end of a write.  A flat buffer with a length represents such a history when it
agrees with it on every offset it has, beyond the length as well as below it.
-/

set_option autoImplicit false

namespace SeekableFile

variable {α : Type*}

structure Write (α : Type*) where
  offset : Nat
  values : List α
  deriving DecidableEq, Repr

/-- The value at an offset after the writes, the latest one first. -/
def valueAt (blank : α) : List (Write α) → Nat → α
  | [], _ => blank
  | write :: earlier, k =>
    if write.offset ≤ k then
      (write.values[k - write.offset]?).getD (valueAt blank earlier k)
    else valueAt blank earlier k

/-- The largest end offset ever written. -/
def extent : List (Write α) → Nat
  | [] => 0
  | write :: earlier => max (write.offset + write.values.length) (extent earlier)

def content (blank : α) (writes : List (Write α)) (p count : Nat) : List α :=
  (List.range (min count (extent writes - p))).map fun k => valueAt blank writes (p + k)

theorem valueAt_inside (blank : α) (write : Write α) (earlier : List (Write α)) {k : Nat}
    (low : write.offset ≤ k) (high : k < write.offset + write.values.length) :
    some (valueAt blank (write :: earlier) k) = write.values[k - write.offset]? := by
  have inside : k - write.offset < write.values.length := by omega
  simp only [valueAt, low, if_true, List.getElem?_eq_getElem inside, Option.getD_some]

theorem valueAt_outside (blank : α) (write : Write α) (earlier : List (Write α)) {k : Nat}
    (outside : k < write.offset ∨ write.offset + write.values.length ≤ k) :
    valueAt blank (write :: earlier) k = valueAt blank earlier k := by
  rw [valueAt]
  split
  · rw [List.getElem?_eq_none (by omega), Option.getD_none]
  · rfl

@[simp] theorem content_length (blank : α) (writes : List (Write α)) (p count : Nat) :
    (content blank writes p count).length = min count (extent writes - p) := by
  simp [content]

/-! ## Flat buffers -/

def overwrite (buf : List α) (offset : Nat) (values : List α) : List α :=
  buf.take offset ++ values ++ buf.drop (offset + values.length)

theorem overwrite_length {buf : List α} {offset : Nat} {values : List α}
    (fits : offset + values.length ≤ buf.length) :
    (overwrite buf offset values).length = buf.length := by
  simp only [overwrite, List.length_append, List.length_take, List.length_drop]
  omega

theorem overwrite_inside {buf : List α} {offset k : Nat} {values : List α}
    (fits : offset + values.length ≤ buf.length) (low : offset ≤ k)
    (high : k < offset + values.length) :
    (overwrite buf offset values)[k]? = values[k - offset]? := by
  have start : (buf.take offset).length = offset := by
    rw [List.length_take]
    omega
  rw [overwrite, List.append_assoc, List.getElem?_append_right (by omega), start,
    List.getElem?_append_left (by omega)]

theorem overwrite_outside {buf : List α} {offset k : Nat} {values : List α}
    (fits : offset + values.length ≤ buf.length)
    (outside : k < offset ∨ offset + values.length ≤ k) :
    (overwrite buf offset values)[k]? = buf[k]? := by
  have start : (buf.take offset).length = offset := by
    rw [List.length_take]
    omega
  rcases outside with below | above
  · rw [overwrite, List.append_assoc, List.getElem?_append_left (by omega),
      List.getElem?_take_of_lt below]
  · rw [overwrite, List.getElem?_append_right (by rw [List.length_append]; omega),
      List.getElem?_drop, List.length_append, start]
    congr 1
    omega

structure Represents (blank : α) (buf : List α) (len : Nat) (writes : List (Write α)) : Prop where
  len_eq : len = extent writes
  fits : extent writes ≤ buf.length
  values : ∀ k, k < buf.length → buf[k]? = some (valueAt blank writes k)

theorem represents_blank (blank : α) (size : Nat) :
    Represents blank (List.replicate size blank) 0 [] := by
  refine ⟨rfl, Nat.zero_le _, ?_⟩
  intro k inside
  rw [List.length_replicate] at inside
  simp [inside, valueAt]

theorem Represents.write {blank : α} {buf : List α} {len : Nat} {writes : List (Write α)}
    (represents : Represents blank buf len writes) (write : Write α)
    (fits : write.offset + write.values.length ≤ buf.length) :
    Represents blank (overwrite buf write.offset write.values)
      (max (write.offset + write.values.length) len) (write :: writes) := by
  refine ⟨?_, ?_, ?_⟩
  · rw [represents.len_eq]
    rfl
  · rw [overwrite_length fits]
    exact Nat.max_le.mpr ⟨fits, represents.fits⟩
  · intro k inside
    rw [overwrite_length fits] at inside
    by_cases covered : write.offset ≤ k ∧ k < write.offset + write.values.length
    · rw [overwrite_inside fits covered.1 covered.2,
        valueAt_inside blank write writes covered.1 covered.2]
    · rw [overwrite_outside fits (by omega), valueAt_outside blank write writes (by omega)]
      exact represents.values k inside

/-- A slice of the buffer below the length is what the history holds there. -/
theorem Represents.read {blank : α} {buf : List α} {len : Nat} {writes : List (Write α)}
    (represents : Represents blank buf len writes) (p count : Nat) :
    (buf.drop p).take (min count (len - p)) = content blank writes p count := by
  have bound := represents.fits
  have same := represents.len_eq
  apply List.ext_getElem?
  intro k
  rw [List.getElem?_take]
  split
  · rename_i inside
    rw [List.getElem?_drop, represents.values (p + k) (by omega), content, List.getElem?_map,
      List.getElem?_range (by omega), Option.map_some]
  · rename_i outside
    rw [List.getElem?_eq_none]
    rw [content_length]
    omega

end SeekableFile
