import KernelLabs.Lib.Machine
import KernelLabs.Kthreads.Snapshot

/-!
# Listings of `/dev/kthread_demo` in the presence of other readers

A listing is one read at position 0 followed by reads that continue at the
file's position until one returns 0.  Its bytes are the rendering of its own
drain as long as every snapshot another file takes in between agrees with it
from the listing's position on.  Nothing in the driver makes that so: the
snapshot belongs to the module, the position to the file.
-/

set_option autoImplicit false

namespace Kthreads

open Kernel LabelledMachine

/-- Calls are whole, so every call is enabled in every state. -/
def callMachine (s : Readers) (call : Call) : Option Readers := some (callStep s call)

/-- The file keeps reading on: no further read at position 0, no empty request. -/
def ReadsOn (file : Nat) (s : Readers) : Call → Prop
  | .produce _ => True
  | .read reader count => reader = file → s.pos file ≠ 0 ∧ 1 ≤ count

/-- A position-0 read of another file renders what the snapshot already holds
from `file`'s position on. -/
def Undisturbed (file : Nat) (s : Readers) : Call → Prop
  | .produce _ => True
  | .read reader _ => reader ≠ file → s.pos reader = 0 →
      (ownText s.demo.ring).drop (s.pos file) = s.demo.snapshot.text.drop (s.pos file)

instance (file : Nat) (s : Readers) (call : Call) : Decidable (ReadsOn file s call) := by
  cases call <;> unfold ReadsOn <;> infer_instance

instance (file : Nat) (s : Readers) (call : Call) : Decidable (Undisturbed file s call) := by
  cases call <;> unfold Undisturbed <;> infer_instance

def SawEnd (file : Nat) (s : Readers) (calls : List Call) : Prop :=
  ∃ front count back, calls = front ++ .read file count :: back ∧
    (fileRead file count (afterCalls s front)).1 = []

/-- Where a listing of the text `own` stands. -/
structure Listing (file : Nat) (own : Bytes) (s : Readers) : Prop where
  size : s.demo.snapshot.buf.length = snapshotBufSize
  inside : s.pos file ≤ own.length
  rest : s.demo.snapshot.text.drop (s.pos file) = own.drop (s.pos file)

section Steps
variable {file : Nat} {own : Bytes} {s : Readers}

theorem Listing.read_bytes (listing : Listing file own s) (count : Nat) (moved : s.pos file ≠ 0) :
    (fileRead file count s).1 = slice count (s.pos file) own := by
  rw [fileRead_eq, readDemo, if_neg moved, slice, slice, listing.rest]

theorem Listing.read_self (listing : Listing file own s) (count : Nat) (moved : s.pos file ≠ 0) :
    Listing file own (fileRead file count s).2 ∧
      (fileRead file count s).2.pos file =
        s.pos file + (slice count (s.pos file) own).length := by
  have bytes := listing.read_bytes count moved
  have newPos : (fileRead file count s).2.pos file =
      s.pos file + (slice count (s.pos file) own).length := by
    rw [← bytes, fileRead_eq]
    exact Function.update_self ..
  have sameDemo : (fileRead file count s).2.demo = s.demo := by
    rw [fileRead_eq, readDemo, if_neg moved]
  refine ⟨⟨?_, ?_, ?_⟩, newPos⟩
  · rw [sameDemo]
    exact listing.size
  · have := listing.inside
    rw [newPos, slice_length]
    omega
  · rw [newPos, sameDemo, ← List.drop_drop, ← List.drop_drop, listing.rest]

theorem Listing.read_other (listing : Listing file own s) {reader : Nat} (count : Nat)
    (other : reader ≠ file)
    (agrees : s.pos reader = 0 →
      (ownText s.demo.ring).drop (s.pos file) = s.demo.snapshot.text.drop (s.pos file)) :
    Listing file own (fileRead reader count s).2 ∧
      (fileRead reader count s).2.pos file = s.pos file := by
  have samePos : (fileRead reader count s).2.pos file = s.pos file := by
    rw [fileRead_eq]
    exact Function.update_of_ne other.symm _ _
  have newDemo : (fileRead reader count s).2.demo = readDemo reader s := by rw [fileRead_eq]
  refine ⟨⟨callStep_size listing.size (.read reader count), ?_, ?_⟩, samePos⟩
  · rw [samePos]
    exact listing.inside
  · rw [samePos, newDemo, readDemo]
    split
    · rename_i atStart
      rw [(takeSnapshot_text listing.size).2, agrees atStart]
      exact listing.rest
    · exact listing.rest

/-- The agreement is needed: after a position-0 read that breaks it, the next
large read of the listing returns other bytes than the rest of its text. -/
theorem Listing.disturbed_diverges (listing : Listing file own s) {reader : Nat} (count : Nat)
    (other : reader ≠ file) (atStart : s.pos reader = 0) (moved : s.pos file ≠ 0)
    (differs : (ownText s.demo.ring).drop (s.pos file) ≠
      s.demo.snapshot.text.drop (s.pos file)) :
    (fileRead file snapshotBufSize (fileRead reader count s).2).1 ≠ own.drop (s.pos file) := by
  have samePos : (fileRead reader count s).2.pos file = s.pos file := by
    rw [fileRead_eq]
    exact Function.update_of_ne other.symm _ _
  have newText : (fileRead reader count s).2.demo.snapshot.text = ownText s.demo.ring := by
    rw [fileRead_eq, readDemo, if_pos atStart]
    exact (takeSnapshot_text listing.size).2
  have short : ((ownText s.demo.ring).drop (s.pos file)).length ≤ snapshotBufSize := by
    have cut : (ownText s.demo.ring).length ≤ snapshotBufSize - 1 := List.length_take_le _ _
    rw [List.length_drop]
    omega
  rw [fileRead_eq, readDemo, samePos, if_neg moved, newText, slice, List.take_of_length_le short,
    ← listing.rest]
  exact differs

theorem Listing.produce (listing : Listing file own s) (ns : UInt64) :
    Listing file own (callStep s (.produce ns)) :=
  ⟨listing.size, listing.inside, listing.rest⟩

end Steps

theorem Listing.run {file : Nat} {own : Bytes} (calls : List Call) {s : Readers}
    (listing : Listing file own s) (reads : Meets callMachine (ReadsOn file) s calls)
    (undisturbed : Meets callMachine (Undisturbed file) s calls) :
    Listing file own (afterCalls s calls) ∧
      own.take (s.pos file) ++ received file s calls =
        own.take ((afterCalls s calls).pos file) := by
  induction calls generalizing s with
  | nil => exact ⟨listing, List.append_nil _⟩
  | cons call rest ih =>
      have readsRest := reads.2 _ rfl
      have undisturbedRest := undisturbed.2 _ rfl
      cases call with
      | produce ns => exact ih (listing.produce ns) readsRest undisturbedRest
      | read reader count =>
          by_cases self : reader = file
          · subst self
            obtain ⟨moved, _⟩ := reads.1 rfl
            obtain ⟨next, newPos⟩ := listing.read_self count moved
            obtain ⟨last, bytes⟩ := ih next readsRest undisturbedRest
            refine ⟨last, ?_⟩
            have newTake : own.take (s.pos reader) ++ slice count (s.pos reader) own =
                own.take ((callStep s (.read reader count)).pos reader) := by
              rw [callStep, newPos, List.take_add, slice, List.length_take, List.take_eq_take_min]
              simp
            simp only [received, if_true, listing.read_bytes count moved]
            rw [← List.append_assoc, newTake]
            exact bytes
          · obtain ⟨next, samePos⟩ := listing.read_other count self (undisturbed.1 self)
            obtain ⟨last, bytes⟩ := ih next readsRest undisturbedRest
            refine ⟨last, ?_⟩
            simp only [received, self, if_false, List.nil_append]
            rw [← samePos]
            exact bytes

theorem callMachine_run (s : Readers) (calls : List Call) :
    run callMachine s calls = some (afterCalls s calls) := by
  induction calls generalizing s with
  | nil => rfl
  | cons call rest ih => exact ih (callStep s call)

theorem Listing.at_end {file : Nat} {own : Bytes} {s : Readers} (listing : Listing file own s)
    {count : Nat} (moved : s.pos file ≠ 0) (positive : 1 ≤ count)
    (nothing : (fileRead file count s).1 = []) : s.pos file = own.length := by
  have length_zero := congrArg List.length nothing
  rw [listing.read_bytes count moved, slice_length, List.length_nil] at length_zero
  have := listing.inside
  omega

theorem Listing.run_ended {file : Nat} {own : Bytes} {calls : List Call} {s : Readers}
    (listing : Listing file own s) (reads : Meets callMachine (ReadsOn file) s calls)
    (undisturbed : Meets callMachine (Undisturbed file) s calls) (ended : SawEnd file s calls) :
    (afterCalls s calls).pos file = own.length := by
  obtain ⟨front, count, back, rfl, nothing⟩ := ended
  obtain ⟨readsFront, readsBack⟩ := meets_append reads
  obtain ⟨undisturbedFront, undisturbedBack⟩ := meets_append undisturbed
  have ran := callMachine_run s front
  have here := (listing.run front readsFront undisturbedFront).1
  obtain ⟨moved, positive⟩ := (readsBack _ ran).1 rfl
  have atEnd := here.at_end moved positive nothing
  obtain ⟨last, bytes⟩ := here.run _ (readsBack _ ran) (undisturbedBack _ ran)
  have covered := congrArg List.length bytes
  have whole : afterCalls s (front ++ .read file count :: back) =
      afterCalls (afterCalls s front) (.read file count :: back) := List.foldl_append ..
  have := last.inside
  rw [List.length_append, List.length_take, List.length_take] at covered
  rw [whole]
  omega

theorem listing_starts {file : Nat} (count : Nat) {s : Readers}
    (size : s.demo.snapshot.buf.length = snapshotBufSize) (atStart : s.pos file = 0) :
    (fileRead file count s).1 = (ownText s.demo.ring).take count ∧
      (fileRead file count s).2.pos file = (fileRead file count s).1.length ∧
      Listing file (ownText s.demo.ring) (fileRead file count s).2 := by
  have text := (takeSnapshot_text size).2
  have newSize := (takeSnapshot_text size).1.size
  rw [fileRead_eq, readDemo, if_pos atStart, atStart, text, slice, List.drop_zero]
  refine ⟨rfl, by simp, newSize, ?_, ?_⟩
  · simp
  · simp [text]

/-- A listing of any open file, in any schedule of reads by other files and of
the producer: while every other position-0 read agrees with it from its
position on, its bytes are the rendering of the items its own first read
drained, and the complete lines when these fit the buffer. -/
theorem undisturbed_listing_is_own_drain (before : List Call) (file count : Nat)
    (rest : List Call) (atStart : (afterCalls Readers.initial before).pos file = 0)
    (positive : 1 ≤ count)
    (reads : Meets callMachine (ReadsOn file)
      (callStep (afterCalls Readers.initial before) (.read file count)) rest)
    (undisturbed : Meets callMachine (Undisturbed file)
      (callStep (afterCalls Readers.initial before) (.read file count)) rest)
    (ended : SawEnd file (afterCalls Readers.initial before) (.read file count :: rest)) :
    let s := afterCalls Readers.initial before
    let items := (drainSection s.demo.ring).1
    received file s (.read file count :: rest) =
        (renderLines items).take (snapshotBufSize - 1) ∧
      ((renderLines items).length < snapshotBufSize →
        received file s (.read file count :: rest) = renderLines items) := by
  intro s items
  have size : s.demo.snapshot.buf.length = snapshotBufSize :=
    afterCalls_size before (List.length_replicate ..)
  obtain ⟨firstBytes, newPos, listing⟩ := listing_starts count size atStart
  have bytes := (listing.run rest reads undisturbed).2
  have wholePos : (afterCalls (fileRead file count s).2 rest).pos file =
      (ownText s.demo.ring).length := by
    obtain ⟨front, lastCount, back, calls, nothing⟩ := ended
    cases front with
    | nil =>
        -- the first read itself returned 0, so there was nothing to render
        obtain ⟨sameCall, rfl⟩ := List.cons.inj calls
        cases sameCall
        have empty : ownText s.demo.ring = [] := by
          rcases List.take_eq_nil_iff.mp (firstBytes.symm.trans nothing) with zero | empty
          · omega
          · exact empty
        have inside := (listing.run rest reads undisturbed).1.inside
        rw [empty, List.length_nil] at inside ⊢
        omega
    | cons first front =>
        obtain ⟨rfl, rfl⟩ := List.cons.inj calls
        exact listing.run_ended reads undisturbed ⟨front, lastCount, back, rfl, nothing⟩
  have whole : received file s (.read file count :: rest) = ownText s.demo.ring := by
    have firstTake : (ownText s.demo.ring).take ((fileRead file count s).2.pos file) =
        (fileRead file count s).1 := by
      rw [newPos, firstBytes, List.length_take, ← List.take_eq_take_min]
    rw [firstTake, wholePos, List.take_length] at bytes
    simp only [received, if_true]
    exact bytes
  refine ⟨whole, ?_⟩
  intro fits
  rw [whole]
  exact List.take_of_length_le (Nat.le_sub_one_of_lt fits)

theorem undisturbed_listing_example :
    let s := afterCalls Readers.initial [.produce 1, .read 1 3, .produce 2]
    let calls := [Call.read 0 4, .produce 3, .read 1 4, .read 0 100, .read 0 100]
    received 0 s calls = (renderLines (drainSection s.demo.ring).1).take (snapshotBufSize - 1) ∧
      ((renderLines (drainSection s.demo.ring).1).length < snapshotBufSize →
        received 0 s calls = renderLines (drainSection s.demo.ring).1) :=
  undisturbed_listing_is_own_drain [.produce 1, .read 1 3, .produce 2] 0 4
    [.produce 3, .read 1 4, .read 0 100, .read 0 100] (by decide +kernel) (by decide)
    (by decide +kernel) (by decide +kernel)
    ⟨[.read 0 4, .produce 3, .read 1 4, .read 0 100], 100, [], rfl, by decide +kernel⟩

/-- File 0 reads four bytes of item 0, file 1 then drains item 1: file 0 goes on
in item 1's line and never sees the rest of its own. -/
theorem second_reader_replaces_listing :
    let s := afterCalls Readers.initial [.produce 1]
    let rest := [Call.produce 2, .read 1 100, .read 0 100, .read 0 100]
    s.pos 0 = 0 ∧ Meets callMachine (ReadsOn 0) (callStep s (.read 0 4)) rest ∧
      SawEnd 0 s (.read 0 4 :: rest) ∧
      renderLines (drainSection s.demo.ring).1 = ascii "seq=0 ns=1\n" ∧
      received 0 s (.read 0 4 :: rest) = ascii "seq=1 ns=2\n" := by
  refine ⟨by decide, by decide +kernel, ?_, by decide +kernel, by decide +kernel⟩
  exact ⟨[.read 0 4, .produce 2, .read 1 100, .read 0 100], 100, [], rfl, by decide +kernel⟩

end Kthreads
