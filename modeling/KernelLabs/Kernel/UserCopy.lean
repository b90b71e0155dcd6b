import KernelLabs.Kernel.Basic
import KernelLabs.Lib.BoundedText

/-!
# Copies to and from user space

`simple_read_from_buffer` of `fs/libfs.c`: one slice of a kernel buffer at the
file position, and the position after it.  `missing` is the number of bytes
`copy_to_user` reports as not copied.

A driver that copies to or from a place inside its own allocation, or formats
into one, may leave it: `loadRange`, `storeRange` and `scnprintfAt` are `none`
there.
-/

set_option autoImplicit false

namespace Kernel

def simpleReadFromBuffer (count ppos : Nat) (source : Bytes) (missing : Nat) :
    Except Errno (Bytes × Nat) :=
  if source.length ≤ ppos ∨ count = 0 then .ok ([], ppos)
  else
    let wanted := min count (source.length - ppos)
    if missing = wanted then .error .efault
    else
      let copied := wanted - missing
      .ok ((source.drop ppos).take copied, ppos + copied)

/-- The slice a read of `count` bytes at `ppos` gets when every copy succeeds. -/
def slice (count ppos : Nat) (source : Bytes) : Bytes := (source.drop ppos).take count

@[simp] theorem slice_length (count ppos : Nat) (source : Bytes) :
    (slice count ppos source).length = min count (source.length - ppos) := by
  simp [slice]

theorem simpleReadFromBuffer_copies (count ppos : Nat) (source : Bytes) :
    simpleReadFromBuffer count ppos source 0 =
      .ok (slice count ppos source, ppos + (slice count ppos source).length) := by
  unfold simpleReadFromBuffer
  by_cases empty : source.length ≤ ppos ∨ count = 0
  · have nothing : slice count ppos source = [] := by
      apply List.eq_nil_of_length_eq_zero
      rw [slice_length]
      omega
    simp [empty, nothing]
  · have some_wanted : ¬ 0 = min count (source.length - ppos) := by omega
    have clamped : (source.drop ppos).take (min count (source.length - ppos)) =
        slice count ppos source := by
      rw [slice, List.take_eq_take_iff]
      simp
    simp only [empty, if_false, some_wanted, Nat.sub_zero, slice_length, clamped]

/-- The bytes `copy_from_user` leaves at the destination: those it could not copy
are zero. -/
def copyFromUser (data : Bytes) (missing : Nat) : Bytes :=
  data.take (data.length - missing) ++ List.replicate (min missing data.length) 0

@[simp] theorem copyFromUser_copies (data : Bytes) : copyFromUser data 0 = data := by
  simp [copyFromUser]

@[simp] theorem copyFromUser_length (data : Bytes) (missing : Nat) :
    (copyFromUser data missing).length = data.length := by
  rw [copyFromUser, List.length_append, List.length_take, List.length_replicate]
  omega

def loadRange (buf : Bytes) (offset len : Nat) : Option Bytes :=
  if offset + len ≤ buf.length then some (slice len offset buf) else none

def storeRange (buf : Bytes) (offset : Nat) (bytes : Bytes) : Option Bytes :=
  if offset + bytes.length ≤ buf.length then some (SeekableFile.overwrite buf offset bytes)
  else none

/-- `scnprintf(buf + offset, size, ...)` for a formatted text: the buffer it leaves
and what it returns. -/
def scnprintfAt (buf : Bytes) (offset size : Nat) (text : Bytes) : Option (Bytes × Nat) :=
  if size = 0 then some (buf, 0)
  else (storeRange buf offset (scnprintf size text ++ [0])).map fun buf =>
    (buf, (scnprintf size text).length)

/-- With the room behind the text as `size`, one append more. -/
theorem scnprintfAt_append {capacity len : Nat} {text buf : Bytes}
    (holds : BoundedText.Holds capacity text buf len) (positive : 0 < capacity) (more : Bytes) :
    ∃ next returned, scnprintfAt buf len (capacity - len) more = some (next, returned) ∧
      BoundedText.Holds capacity (text ++ more) next (len + returned) ∧
      BoundedText.Terminated 0 next (len + returned) := by
  have room := holds.room positive
  have fits := holds.fits positive 0 more
  refine ⟨_, _, ?_, holds.append positive 0 more, holds.terminated positive 0 more⟩
  rw [scnprintfAt, if_neg (by omega), storeRange]
  exact congrArg _ (if_pos fits)

end Kernel
