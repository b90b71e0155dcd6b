import KernelLabs.Kernel.UserCopy
import KernelLabs.Kthreads.Ring

/-!
# `kthread_demo_read` and the shared snapshot

A read at position 0 drains the ring and renders the items into `snapshot_buf`;
a read at any other position copies from whatever `snapshot_buf` holds.  The
buffer and its length are module globals, the position belongs to the open
file.

The rendering loop run alone leaves the complete lines cut to the 639 bytes the
buffer can hold beside its NUL.
-/

set_option autoImplicit false

namespace Kthreads

open Kernel BoundedText

def snapshotBufSize : Nat := 640

def renderItem (item : RingItem) : Bytes :=
  ascii "seq=" ++ decimal item.seq.toNat ++ ascii " ns=" ++ decimal item.ns.toNat ++ [10]

def renderLines (items : List RingItem) : Bytes := items.flatMap renderItem

structure Snapshot where
  buf : Bytes
  len : Nat
  deriving DecidableEq, Repr

def Snapshot.initial : Snapshot := ⟨List.replicate snapshotBufSize 0, 0⟩

/-- What `simple_read_from_buffer` is given to copy from. -/
def Snapshot.text (snap : Snapshot) : Bytes := snap.buf.take snap.len

/-- One pass of the rendering loop: `scnprintf` at the end of the text, and the
addition of its result.  The loop's guard leaves room for the NUL, so nothing is
stored outside `snapshot_buf`. -/
def renderStep (snap : Snapshot) (item : RingItem) : Snapshot :=
  match scnprintfAt snap.buf snap.len (snapshotBufSize - snap.len) (renderItem item) with
  | some (buf, returned) => ⟨buf, snap.len + returned⟩
  | none => snap

/-- The loop `i < n && snapshot_len < SNAPSHOT_BUF_SIZE` over the drained items. -/
def renderLoop : List RingItem → Snapshot → Snapshot
  | [], snap => snap
  | item :: rest, snap =>
    if snap.len < snapshotBufSize then renderLoop rest (renderStep snap item) else snap

structure Demo where
  ring : Ring
  snapshot : Snapshot

def Demo.initial : Demo := ⟨Ring.initial, Snapshot.initial⟩

/-- The branch `*ppos == 0`: drain, then render from an empty snapshot. -/
def takeSnapshot (d : Demo) : Demo where
  ring := (drainSection d.ring).2
  snapshot := renderLoop (drainSection d.ring).1 { d.snapshot with len := 0 }

/-- `missing` is what `copy_to_user` reports as not copied. -/
def kthreadDemoRead (count ppos missing : Nat) (d : Demo) :
    Except Errno (Bytes × Nat) × Demo :=
  let d := if ppos = 0 then takeSnapshot d else d
  (simpleReadFromBuffer count ppos d.snapshot.text missing, d)

/-! ## The rendering loop alone -/

structure Snapshot.Fits (snap : Snapshot) : Prop where
  size : snap.buf.length = snapshotBufSize
  room : snap.len < snapshotBufSize

theorem Snapshot.Fits.text_length {snap : Snapshot} (fits : snap.Fits) :
    snap.text.length = snap.len := by
  obtain ⟨size, room⟩ := fits
  simp only [Snapshot.text, List.length_take]
  omega

theorem Snapshot.Fits.holds {snap : Snapshot} (fits : snap.Fits) :
    Holds snapshotBufSize snap.text snap.buf snap.len := by
  have len := fits.text_length
  have room := fits.room
  refine ⟨fits.size, by omega, ?_⟩
  rw [List.take_of_length_le (by omega : snap.text.length ≤ snapshotBufSize - 1)]
  rfl

theorem Snapshot.fits_of_holds {text : Bytes} {snap : Snapshot}
    (holds : Holds snapshotBufSize text snap.buf snap.len) : snap.Fits :=
  ⟨holds.size, holds.room (by decide)⟩

theorem renderStep_holds {text : Bytes} {snap : Snapshot}
    (holds : Holds snapshotBufSize text snap.buf snap.len) (item : RingItem) :
    Holds snapshotBufSize (text ++ renderItem item) (renderStep snap item).buf
      (renderStep snap item).len := by
  obtain ⟨next, returned, formatted, after, _⟩ :=
    scnprintfAt_append holds (by decide) (renderItem item)
  rw [renderStep, formatted]
  exact after

/-- The loop appends every line; its guard never stops it early. -/
theorem renderLoop_holds (items : List RingItem) {text : Bytes} {snap : Snapshot}
    (holds : Holds snapshotBufSize text snap.buf snap.len) :
    Holds snapshotBufSize (text ++ renderLines items) (renderLoop items snap).buf
      (renderLoop items snap).len := by
  induction items generalizing text snap with
  | nil =>
      rw [renderLines, List.flatMap_nil, List.append_nil]
      exact holds
  | cons item rest ih =>
      rw [renderLoop, if_pos (holds.room (by decide)), renderLines, List.flatMap_cons,
        ← List.append_assoc]
      exact ih (renderStep_holds holds item)

/-- From a text that fits, the loop appends the complete lines, cut once at the
end of the buffer. -/
theorem renderLoop_text (items : List RingItem) {snap : Snapshot} (fits : snap.Fits) :
    (renderLoop items snap).Fits ∧
      (renderLoop items snap).text =
        (snap.text ++ renderLines items).take (snapshotBufSize - 1) := by
  have holds := renderLoop_holds items fits.holds
  exact ⟨Snapshot.fits_of_holds holds, holds.front⟩

def ownText (r : Ring) : Bytes := (renderLines (drainSection r).1).take (snapshotBufSize - 1)

theorem takeSnapshot_text {d : Demo} (size : d.snapshot.buf.length = snapshotBufSize) :
    (takeSnapshot d).snapshot.Fits ∧ (takeSnapshot d).snapshot.text = ownText d.ring := by
  have empty : Snapshot.Fits { d.snapshot with len := 0 } :=
    ⟨size, (by decide : 0 < snapshotBufSize)⟩
  exact renderLoop_text (drainSection d.ring).1 empty

/-! ## Whole reads by many open files -/

structure Readers where
  demo : Demo
  pos : Nat → Nat

def Readers.initial : Readers := ⟨Demo.initial, fun _ => 0⟩

/-- A pass of some producer thread, or one whole `read` call of an open file
whose copy succeeds. -/
inductive Call where
  | produce (ns : UInt64)
  | read (file count : Nat)
  deriving DecidableEq, Repr

def fileRead (file count : Nat) (s : Readers) : Bytes × Readers :=
  match kthreadDemoRead count (s.pos file) 0 s.demo with
  | (.ok (bytes, ppos), demo) => (bytes, ⟨demo, Function.update s.pos file ppos⟩)
  | (.error _, demo) => ([], ⟨demo, s.pos⟩)

def callStep (s : Readers) : Call → Readers
  | .produce ns => { s with demo := { s.demo with ring := producerSection ns s.demo.ring } }
  | .read file count => (fileRead file count s).2

def afterCalls (s : Readers) (calls : List Call) : Readers := calls.foldl callStep s

def received (file : Nat) : Readers → List Call → Bytes
  | _, [] => []
  | s, call :: rest =>
    (match call with
      | .produce _ => []
      | .read reader count => if reader = file then (fileRead reader count s).1 else []) ++
      received file (callStep s call) rest

/-- The snapshot a read at the file's position copies from. -/
def readDemo (file : Nat) (s : Readers) : Demo :=
  if s.pos file = 0 then takeSnapshot s.demo else s.demo

theorem fileRead_eq (file count : Nat) (s : Readers) :
    fileRead file count s =
      (slice count (s.pos file) (readDemo file s).snapshot.text,
        ⟨readDemo file s, Function.update s.pos file (s.pos file +
          (slice count (s.pos file) (readDemo file s).snapshot.text).length)⟩) := by
  simp only [fileRead, kthreadDemoRead, simpleReadFromBuffer_copies, readDemo]

theorem callStep_size {s : Readers} (size : s.demo.snapshot.buf.length = snapshotBufSize)
    (call : Call) : (callStep s call).demo.snapshot.buf.length = snapshotBufSize := by
  cases call with
  | produce ns => exact size
  | read file count =>
      simp only [callStep, fileRead_eq, readDemo]
      split
      · exact (takeSnapshot_text size).1.size
      · exact size

theorem afterCalls_size (calls : List Call) {s : Readers}
    (size : s.demo.snapshot.buf.length = snapshotBufSize) :
    (afterCalls s calls).demo.snapshot.buf.length = snapshotBufSize := by
  induction calls generalizing s with
  | nil => exact size
  | cons call rest ih => exact ih (callStep_size size call)

end Kthreads
