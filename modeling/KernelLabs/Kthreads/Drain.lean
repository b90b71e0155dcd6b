import Mathlib.Algebra.GroupWithZero.Nat
import KernelLabs.Kthreads.Snapshot

/-!
# What a drain can lose

A read at position 0 empties the ring before it renders the items and before it
copies anything to the caller.  The rendering loses what the buffer cannot hold,
the copy loses everything when it hands over nothing, and a read at another
position does not look at the ring at all.
-/

set_option autoImplicit false

namespace Kthreads

open Kernel

/-! ## The rendering -/

/-- The digits `%llu` prints for the two numbers of an item. -/
def RingItem.digits (item : RingItem) : Nat :=
  (decimal item.seq.toNat).length + (decimal item.ns.toNat).length

theorem renderItem_length (item : RingItem) : (renderItem item).length = 9 + item.digits := by
  have label : (ascii "seq=").length = 4 := by decide
  have separator : (ascii " ns=").length = 4 := by decide
  simp only [renderItem, RingItem.digits, List.length_append, List.length_singleton, label,
    separator]
  omega

theorem renderLines_length (items : List RingItem) :
    (renderLines items).length = (items.map fun item => 9 + item.digits).sum := by
  induction items with
  | nil => rfl
  | cons item rest ih =>
      rw [renderLines, List.flatMap_cons, List.length_append, renderItem_length, List.map_cons,
        List.sum_cons, ← ih, renderLines]

/-- The loop leaves the complete lines of all items exactly when their digits,
and nine characters more for each item, are fewer than the buffer's bytes. -/
theorem rendering_complete_iff_digits_fit (items : List RingItem) (buf : Bytes)
    (size : buf.length = snapshotBufSize) :
    ((renderLoop items ⟨buf, 0⟩).text = renderLines items ∧
        (renderLoop items ⟨buf, 0⟩).len < snapshotBufSize) ↔
      (items.map fun item => 9 + item.digits).sum < snapshotBufSize := by
  have empty : Snapshot.Fits ⟨buf, 0⟩ := ⟨size, (by decide : 0 < snapshotBufSize)⟩
  obtain ⟨fits, text⟩ := renderLoop_text items empty
  have nothing : Snapshot.text ⟨buf, 0⟩ = [] := List.take_zero
  rw [nothing, List.nil_append] at text
  rw [text, ← renderLines_length]
  constructor
  · rintro ⟨complete, _⟩
    have cut := congrArg List.length complete
    have positive : 0 < snapshotBufSize := by decide
    rw [List.length_take] at cut
    omega
  · intro short
    exact ⟨List.take_of_length_le (by omega), fits.room⟩

theorem rendering_complete_of_three :
    let items : List RingItem := [⟨7, 1000⟩, ⟨8, 1500⟩, ⟨18446744073709551615, 99⟩]
    (renderLoop items Snapshot.initial).text = renderLines items ∧
      (renderLoop items Snapshot.initial).len < snapshotBufSize :=
  (rendering_complete_iff_digits_fit [⟨7, 1000⟩, ⟨8, 1500⟩, ⟨18446744073709551615, 99⟩]
    (List.replicate snapshotBufSize 0) List.length_replicate).mpr (by decide +kernel)

/-- Sixteen lines of 49 characters do not fit into 640 bytes. -/
theorem longest_lines_are_cut :
    let items := List.replicate 16 (⟨18446744073709551615, 18446744073709551615⟩ : RingItem)
    ¬ ((renderLoop items Snapshot.initial).text = renderLines items ∧
      (renderLoop items Snapshot.initial).len < snapshotBufSize) := by
  decide +kernel

/-! ## The copy to the caller -/

/-- The call returns 0 or an error. -/
def HandsOverNothing : Except Errno (Bytes × Nat) → Prop
  | .ok (bytes, _) => bytes = []
  | .error _ => True

/-- The ring holds what it held. -/
def TakesNothing (before after : Ring) : Prop :=
  after.ringCount = before.ringCount ∧ after.buffered = before.buffered

instance : ∀ result, Decidable (HandsOverNothing result)
  | .ok (bytes, _) => inferInstanceAs (Decidable (bytes = []))
  | .error _ => isTrue trivial

instance (before after : Ring) : Decidable (TakesNothing before after) :=
  inferInstanceAs (Decidable (_ ∧ _))

theorem simpleReadFromBuffer_hands_over (count ppos : Nat) (source : Bytes) (missing : Nat) :
    HandsOverNothing (simpleReadFromBuffer count ppos source missing) ↔
      min count (source.length - ppos) ≤ missing := by
  unfold simpleReadFromBuffer
  by_cases empty : source.length ≤ ppos ∨ count = 0
  · rw [if_pos empty]
    exact ⟨fun _ => by omega, fun _ => rfl⟩
  · rw [if_neg empty]
    dsimp only
    by_cases faulted : missing = min count (source.length - ppos)
    · rw [if_pos faulted]
      exact ⟨fun _ => by omega, fun _ => trivial⟩
    · rw [if_neg faulted]
      simp only [HandsOverNothing, ← List.length_eq_zero_iff, List.length_take, List.length_drop]
      omega

theorem ownText_length_pos {r : Ring} (buffered : 0 < r.ringCount) :
    0 < (ownText r).length := by
  have first := drainSection_items r
  have count := buffered_length r
  rw [ownText, first, List.length_take, renderLines_length]
  cases items : r.buffered with
  | nil =>
      rw [items, List.length_nil] at count
      omega
  | cons item rest =>
      have room : 0 < snapshotBufSize - 1 := by decide
      rw [List.map_cons, List.sum_cons]
      omega

/-- In every state, whatever the snapshot holds: a call that hands over nothing
leaves the ring as it was exactly when it does not drain anything, or copies a
byte of what it drains. -/
theorem nothing_taken_iff_byte_copied (count ppos missing : Nat) (d : Demo)
    (size : d.snapshot.buf.length = snapshotBufSize) :
    (HandsOverNothing (kthreadDemoRead count ppos missing d).1 →
        TakesNothing d.ring (kthreadDemoRead count ppos missing d).2.ring) ↔
      (ppos = 0 → 0 < d.ring.ringCount → missing < min count (ownText d.ring).length) := by
  by_cases atStart : ppos = 0
  · subst atStart
    have drained : (kthreadDemoRead count 0 missing d).2.ring = (drainSection d.ring).2 := rfl
    have taken : TakesNothing d.ring (drainSection d.ring).2 ↔ d.ring.ringCount = 0 := by
      constructor
      · exact fun same => same.1.symm
      · intro empty
        refine ⟨empty.symm, ?_⟩
        rw [drainSection_buffered]
        exact (List.eq_nil_of_length_eq_zero ((buffered_length d.ring).trans empty)).symm
    have result : (kthreadDemoRead count 0 missing d).1 =
        simpleReadFromBuffer count 0 (ownText d.ring) missing := by
      rw [← (takeSnapshot_text size).2]
      rfl
    rw [drained, result, taken, simpleReadFromBuffer_hands_over, Nat.sub_zero]
    constructor
    · intro empties _ buffered
      by_contra reached
      exact absurd (empties (by omega)) (by omega)
    · intro copies nothing
      by_contra buffered
      exact absurd (copies rfl (by omega)) (by omega)
  · have kept : (kthreadDemoRead count ppos missing d).2.ring = d.ring := by
      simp only [kthreadDemoRead, if_neg atStart]
    rw [kept]
    exact ⟨fun _ start => absurd start atStart, fun _ _ => ⟨rfl, rfl⟩⟩

theorem nothing_taken_by_faulting_later_read :
    let d := takeSnapshot ⟨producerSection 5 Ring.initial, Snapshot.initial⟩
    let read := kthreadDemoRead 4 3 4 { d with ring := producerSection 6 d.ring }
    HandsOverNothing read.1 ∧ TakesNothing (producerSection 6 d.ring) read.2.ring :=
  ⟨by decide +kernel, (nothing_taken_iff_byte_copied 4 3 4
    { takeSnapshot ⟨producerSection 5 Ring.initial, Snapshot.initial⟩ with
      ring := producerSection 6
        (takeSnapshot ⟨producerSection 5 Ring.initial, Snapshot.initial⟩).ring }
    (by decide +kernel)).mpr (fun start => absurd start (by decide)) (by decide +kernel)⟩

/-- One item is buffered; a read of no bytes, and a read into memory that takes
none of the eleven, both empty the ring. -/
theorem empty_and_faulting_reads_take :
    let d : Demo := ⟨producerSection 5 Ring.initial, Snapshot.initial⟩
    ¬ (HandsOverNothing (kthreadDemoRead 0 0 0 d).1 →
        TakesNothing d.ring (kthreadDemoRead 0 0 0 d).2.ring) ∧
      ¬ (HandsOverNothing (kthreadDemoRead 100 0 11 d).1 →
        TakesNothing d.ring (kthreadDemoRead 100 0 11 d).2.ring) := by
  decide +kernel

/-! ## The end of the data -/

theorem callStep_fits {s : Readers} (fits : s.demo.snapshot.Fits) (call : Call) :
    (callStep s call).demo.snapshot.Fits := by
  cases call with
  | produce ns => exact fits
  | read file count =>
      simp only [callStep, fileRead_eq, readDemo]
      split
      · exact (takeSnapshot_text fits.size).1
      · exact fits

theorem afterCalls_fits (calls : List Call) {s : Readers} (fits : s.demo.snapshot.Fits) :
    (afterCalls s calls).demo.snapshot.Fits := by
  induction calls generalizing s with
  | nil => exact fits
  | cons call rest ih => exact ih (callStep_fits fits call)

theorem fits_initial : Readers.initial.demo.snapshot.Fits :=
  ⟨List.length_replicate, (by decide : 0 < snapshotBufSize)⟩

theorem returns_zero_iff {s : Readers} (fits : s.demo.snapshot.Fits) (file : Nat) {count : Nat}
    (positive : 1 ≤ count) :
    (fileRead file count s).1 = [] ↔
      if s.pos file = 0 then s.demo.ring.ringCount = 0 else s.demo.snapshot.len ≤ s.pos file := by
  rw [fileRead_eq, ← List.length_eq_zero_iff, slice_length, readDemo]
  by_cases atStart : s.pos file = 0
  · rw [if_pos atStart, if_pos atStart, (takeSnapshot_text fits.size).2]
    constructor
    · intro nothing
      by_contra buffered
      have text := ownText_length_pos (Nat.pos_of_ne_zero buffered)
      omega
    · intro empty
      have items : (drainSection s.demo.ring).1 = [] :=
        List.eq_nil_of_length_eq_zero ((buffered_length _).trans empty)
      simp [ownText, items, renderLines]
  · rw [if_neg atStart, if_neg atStart, fits.text_length]
    omega

/-- After any calls: a read of at least one byte that returns 0 has found the
ring empty exactly when it starts at position 0, or stands inside the snapshot,
or the ring is empty. -/
theorem zero_means_empty_iff (before : List Call) (file count : Nat) (positive : 1 ≤ count) :
    let s := afterCalls Readers.initial before
    ((fileRead file count s).1 = [] → s.demo.ring.ringCount = 0) ↔
      (s.pos file = 0 ∨ s.pos file < s.demo.snapshot.len ∨ s.demo.ring.ringCount = 0) := by
  dsimp only
  rw [returns_zero_iff (afterCalls_fits before fits_initial) file positive]
  by_cases atStart : (afterCalls Readers.initial before).pos file = 0
  · rw [if_pos atStart]
    exact ⟨fun _ => Or.inl atStart, fun _ => id⟩
  · rw [if_neg atStart]
    omega

theorem zero_means_empty_at_end :
    let s := afterCalls Readers.initial [.produce 5, .read 3 100]
    (fileRead 3 10 s).1 = [] ∧ s.demo.ring.ringCount = 0 :=
  ⟨by decide +kernel, (zero_means_empty_iff [.produce 5, .read 3 100] 3 10 (by decide)).mpr
    (by decide +kernel) (by decide +kernel)⟩

/-- A file that has read to the end of its snapshot gets 0 although an item has
arrived since. -/
theorem end_of_snapshot_is_not_end_of_data :
    let s := afterCalls Readers.initial [.produce 5, .read 3 100, .produce 6]
    ¬ ((fileRead 3 100 s).1 = [] → s.demo.ring.ringCount = 0) := by
  decide +kernel

end Kthreads
