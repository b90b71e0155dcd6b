import KernelLabs.Kernel.UserCopy
import KernelLabs.Lib.Transducer

/-!
# The character device of `09_read_write_cdev/read_write_cdev.c`

`rw_read` and `rw_write` run under `buf_lock` from beginning to end, so requests
on any number of open files are a sequence.  An answer of `none` is an access
outside the 4096 bytes that `kzalloc` returned.

`fixed_size_llseek` is the kernel's; it is a parameter of the machine.
-/

set_option autoImplicit false

namespace ReadWriteCdev

open Kernel

abbrev bufSize : Nat := 4096

structure Device where
  buffer : Bytes
  dataLen : Nat

def Device.initial : Device := ⟨List.replicate bufSize 0, 0⟩

/-- `rw_read`: the bytes handed over and the position afterwards.  `missing` is
what `copy_to_user` returns. -/
def rwRead (dev : Device) (count : Nat) (ppos : Int) (missing : Nat) :
    Option (Except Errno Bytes × Int) :=
  if ppos < 0 ∨ dev.dataLen ≤ ppos.toNat then some (.ok [], ppos)
  else
    let available := dev.dataLen - ppos.toNat
    let toCopy := min count available
    match loadRange dev.buffer ppos.toNat toCopy with
    | none => none
    | some bytes =>
      if missing ≠ 0 then some (.error .efault, ppos) else some (.ok bytes, ppos + toCopy)

/-- `rw_write` of the bytes the caller points to. -/
def rwWrite (dev : Device) (data : Bytes) (ppos : Int) (missing : Nat) :
    Option (Device × Except Errno Nat × Int) :=
  if ppos < 0 ∨ bufSize ≤ ppos.toNat then some (dev, .error .enospc, ppos)
  else
    let space := bufSize - ppos.toNat
    let toCopy := min data.length space
    match storeRange dev.buffer ppos.toNat (copyFromUser (data.take toCopy) missing) with
    | none => none
    | some buffer =>
      if missing ≠ 0 then some ({ dev with buffer }, .error .efault, ppos)
      else
        let pos := ppos + toCopy
        let dataLen := if dev.dataLen < pos.toNat then pos.toNat else dev.dataLen
        some (⟨buffer, dataLen⟩, .ok toCopy, pos)

/-- What `fixed_size_llseek` returns for an offset, a whence, the file's present
position and a size; on success it also stores the result as the position. -/
abbrev Llseek := Int → Nat → Int → Nat → Except Errno Int

def rwLlseek (fixedSizeLlseek : Llseek) (offset : Int) (whence : Nat) (pos : Int) :
    Except Errno Int :=
  fixedSizeLlseek offset whence pos bufSize

structure State where
  dev : Device
  files : List Int

def State.initial : State := ⟨Device.initial, []⟩

inductive Request where
  | openFile
  | llseek (fd : Nat) (offset : Int) (whence : Nat)
  | read (fd count missing : Nat)
  | write (fd : Nat) (data : Bytes) (missing : Nat)
  | pread (fd count pos missing : Nat)
  | pwrite (fd : Nat) (data : Bytes) (pos missing : Nat)
  deriving DecidableEq, Repr

inductive Reply where
  | opened (fd : Nat)
  | position (result : Except Errno Int)
  | bytes (result : Except Errno Bytes)
  | written (result : Except Errno Nat)
  | badFile
  deriving DecidableEq, Repr

def step (fixedSizeLlseek : Llseek) (s : State) : Request → Option (State × Reply)
  | .openFile => some ({ s with files := s.files ++ [0] }, .opened s.files.length)
  | .llseek fd offset whence =>
    match s.files[fd]? with
    | none => some (s, .badFile)
    | some pos =>
      match rwLlseek fixedSizeLlseek offset whence pos with
      | .error e => some (s, .position (.error e))
      | .ok next => some ({ s with files := s.files.set fd next }, .position (.ok next))
  | .read fd count missing =>
    match s.files[fd]? with
    | none => some (s, .badFile)
    | some pos => (rwRead s.dev count pos missing).map fun (result, next) =>
      ({ s with files := s.files.set fd next }, .bytes result)
  | .write fd data missing =>
    match s.files[fd]? with
    | none => some (s, .badFile)
    | some pos => (rwWrite s.dev data pos missing).map fun (dev, result, next) =>
      (⟨dev, s.files.set fd next⟩, .written result)
  | .pread fd count pos missing =>
    match s.files[fd]? with
    | none => some (s, .badFile)
    | some _ => (rwRead s.dev count pos missing).map fun (result, _) => (s, .bytes result)
  | .pwrite fd data pos missing =>
    match s.files[fd]? with
    | none => some (s, .badFile)
    | some _ => (rwWrite s.dev data pos missing).map fun (dev, result, _) =>
      ({ s with dev }, .written result)

end ReadWriteCdev
