import KernelLabs.ReadWriteCdev.Refinement

/-!
# Writes that transfer nothing

`rw_write` copies straight into the shared buffer and takes the new `data_len`
from the position, not from the bytes copied.  A faulting copy leaves the bytes
that had arrived, and zeros in place of the others, behind its `-EFAULT`; an
empty write past `data_len` returns 0 and moves `data_len` up to its position.

Whether anything changed is asked of the requests that follow.  They see every
byte of the buffer but one: byte 4095 is read only once `data_len` is 4096, and
a write that brings it there has stored that byte itself.
-/

set_option autoImplicit false

namespace ReadWriteCdev

open Kernel SeekableFile Transducer

/-! ## What later requests see of a device -/

structure Device.Sound (dev : Device) : Prop where
  size : dev.buffer.length = bufSize
  bounded : dev.dataLen ≤ bufSize

theorem sound_initial : Device.initial.Sound := ⟨List.length_replicate, Nat.zero_le _⟩

/-- Two devices that agree in what any later request can see. -/
structure Indistinct (a b : Device) : Prop where
  left : a.Sound
  right : b.Sound
  len : a.dataLen = b.dataLen
  bytes : ∀ k, k < bufSize - 1 ∨ a.dataLen = bufSize → a.buffer[k]? = b.buffer[k]?

theorem Device.Sound.refl {dev : Device} (sound : dev.Sound) : Indistinct dev dev :=
  ⟨sound, sound, rfl, fun _ _ => rfl⟩

theorem position_cases (ppos : Int) :
    (ppos < 0 ∨ bufSize ≤ ppos.toNat) ∨ ∃ p : Nat, ppos = p ∧ p < bufSize := by
  by_cases outside : ppos < 0 ∨ bufSize ≤ ppos.toNat
  · exact Or.inl outside
  · exact Or.inr ⟨ppos.toNat, by omega, by omega⟩

theorem Indistinct.slice {a b : Device} (same : Indistinct a b) {p count : Nat}
    (inside : p + count ≤ a.dataLen) : slice count p a.buffer = slice count p b.buffer := by
  apply List.ext_getElem?
  intro k
  rw [Kernel.slice, Kernel.slice, List.getElem?_take, List.getElem?_take]
  split
  · rw [List.getElem?_drop, List.getElem?_drop]
    have bound := same.left.bounded
    exact same.bytes (p + k) (by omega)
  · rfl

theorem rwRead_indistinct {a b : Device} (same : Indistinct a b) (count : Nat) (ppos : Int)
    (missing : Nat) : ∃ answer, rwRead a count ppos missing = some answer ∧
      rwRead b count ppos missing = some answer := by
  have sizeA := same.left.size
  have sizeB := same.right.size
  have bound := same.left.bounded
  unfold rwRead
  rw [← same.len]
  split
  · exact ⟨_, rfl, rfl⟩
  · have within : ppos.toNat + min count (a.dataLen - ppos.toNat) ≤ a.dataLen := by omega
    have loadedA : loadRange a.buffer ppos.toNat (min count (a.dataLen - ppos.toNat)) =
        some (slice (min count (a.dataLen - ppos.toNat)) ppos.toNat a.buffer) :=
      if_pos (by omega)
    have loadedB : loadRange b.buffer ppos.toNat (min count (a.dataLen - ppos.toNat)) =
        some (slice (min count (a.dataLen - ppos.toNat)) ppos.toNat a.buffer) := by
      rw [same.slice within]
      exact if_pos (by omega)
    simp only [loadedA, loadedB]
    split
    · exact ⟨_, rfl, rfl⟩
    · exact ⟨_, rfl, rfl⟩

/-! ## One write -/

theorem rwWrite_beyond (dev : Device) (data : Bytes) {ppos : Int} (missing : Nat)
    (outside : ppos < 0 ∨ bufSize ≤ ppos.toNat) :
    rwWrite dev data ppos missing = some (dev, .error .enospc, ppos) :=
  if_pos outside

/-- What a faulting write leaves: the front that arrived, then zeros. -/
def Device.laid (dev : Device) (data : Bytes) (p missing : Nat) : Device :=
  { dev with buffer := overwrite dev.buffer p (copyFromUser (clipped data p).values missing) }

theorem rwWrite_fault {dev : Device} (size : dev.buffer.length = bufSize) (data : Bytes) {p : Nat}
    (room : p < bufSize) {missing : Nat} (fault : missing ≠ 0) :
    rwWrite dev data p missing = some (dev.laid data p missing, .error .efault, (p : Int)) := by
  have before : ¬ ((p : Int) < 0 ∨ bufSize ≤ (p : Int).toNat) := by
    simp only [Int.toNat_natCast]
    omega
  have copied : data.take (min data.length (bufSize - p)) = (clipped data p).values := by
    rw [clipped, List.take_eq_take_iff]
    omega
  have stored : storeRange dev.buffer p (copyFromUser (clipped data p).values missing) =
      some (dev.laid data p missing).buffer := by
    apply if_pos
    rw [copyFromUser_length, clipped_length]
    omega
  rw [rwWrite, if_neg before]
  simp only [Int.toNat_natCast, copied, stored, if_pos fault]
  rfl

section Laid
variable {dev : Device} (size : dev.buffer.length = bufSize) (data : Bytes) {p : Nat}
  (room : p < bufSize) (missing : Nat)
include size room

theorem laid_fits : p + (copyFromUser (clipped data p).values missing).length ≤
    dev.buffer.length := by
  rw [copyFromUser_length, clipped_length]
  omega

theorem laid_size : (dev.laid data p missing).buffer.length = bufSize :=
  (overwrite_length (laid_fits size data room missing)).trans size

theorem laid_buffer (k : Nat) :
    (dev.laid data p missing).buffer[k]? =
      if p ≤ k ∧ k < p + min data.length (bufSize - p) then
        (copyFromUser (clipped data p).values missing)[k - p]?
      else dev.buffer[k]? := by
  have fits := laid_fits size data room missing
  have length := copyFromUser_length (clipped data p).values missing
  rw [clipped_length] at length
  split
  · rename_i inside
    exact overwrite_inside fits inside.1 (by omega)
  · rename_i outside
    exact overwrite_outside fits (by omega)

end Laid

theorem after_sound {dev : Device} (sound : dev.Sound) (data : Bytes) {p : Nat}
    (room : p < bufSize) : (dev.after data p).Sound := by
  have fits : p + (clipped data p).values.length ≤ dev.buffer.length := by
    rw [clipped_length, sound.size]
    omega
  refine ⟨(overwrite_length fits).trans sound.size, ?_⟩
  have bound := sound.bounded
  change max _ _ ≤ _
  omega

/-- A write that makes the device full stores byte 4095. -/
theorem Indistinct.after {a b : Device} (same : Indistinct a b) (data : Bytes) {p : Nat}
    (room : p < bufSize) : Indistinct (a.after data p) (b.after data p) := by
  have len : (a.after data p).dataLen = (b.after data p).dataLen := by
    rw [Device.after, Device.after, same.len]
  refine ⟨after_sound same.left data room, after_sound same.right data room, len, ?_⟩
  intro k seen
  rw [Device.after_buffer same.left.size data room, Device.after_buffer same.right.size data room]
  split
  · rfl
  · rename_i outside
    change k < bufSize - 1 ∨ max (p + min data.length (bufSize - p)) a.dataLen = bufSize at seen
    by_cases inside : k < bufSize
    · exact same.bytes k (by omega)
    · rw [List.getElem?_eq_none (by rw [same.left.size]; omega),
        List.getElem?_eq_none (by rw [same.right.size]; omega)]

theorem Indistinct.laid {a b : Device} (same : Indistinct a b) (data : Bytes) {p : Nat}
    (room : p < bufSize) (missing : Nat) :
    Indistinct (a.laid data p missing) (b.laid data p missing) := by
  refine ⟨⟨laid_size same.left.size data room missing, same.left.bounded⟩,
    ⟨laid_size same.right.size data room missing, same.right.bounded⟩, same.len, ?_⟩
  intro k seen
  rw [laid_buffer same.left.size data room, laid_buffer same.right.size data room,
    same.bytes k seen]

theorem rwWrite_indistinct {a b : Device} (same : Indistinct a b) (data : Bytes) (ppos : Int)
    (missing : Nat) : ∃ a' b' result next, rwWrite a data ppos missing = some (a', result, next) ∧
      rwWrite b data ppos missing = some (b', result, next) ∧ Indistinct a' b' := by
  rcases position_cases ppos with outside | ⟨p, rfl, room⟩
  · exact ⟨a, b, _, _, rwWrite_beyond a data missing outside,
      rwWrite_beyond b data missing outside, same⟩
  · by_cases copied : missing = 0
    · subst copied
      exact ⟨_, _, _, _, rwWrite_room same.left.size data room,
        rwWrite_room same.right.size data room, same.after data room⟩
    · exact ⟨_, _, _, _, rwWrite_fault same.left.size data room copied,
        rwWrite_fault same.right.size data room copied, same.laid data room missing⟩

/-! ## Requests that follow -/

section Requests
variable (fixedSizeLlseek : Llseek)

/-- The same open files, on devices no request tells apart. -/
structure IndistinctStates (s t : State) : Prop where
  dev : Indistinct s.dev t.dev
  files : s.files = t.files

theorem step_indistinct (s t : State) (request : Request) (same : IndistinctStates s t) :
    ∃ s' t' reply, step fixedSizeLlseek s request = some (s', reply) ∧
      step fixedSizeLlseek t request = some (t', reply) ∧ IndistinctStates s' t' := by
  obtain ⟨dev, files⟩ := s
  obtain ⟨other, _⟩ := t
  obtain ⟨same, rfl⟩ := same
  dsimp only at same
  cases request with
  | openFile => exact ⟨_, _, _, rfl, rfl, same, rfl⟩
  | llseek fd offset whence =>
      simp only [step]
      split
      · exact ⟨_, _, _, rfl, rfl, same, rfl⟩
      · split
        · exact ⟨_, _, _, rfl, rfl, same, rfl⟩
        · exact ⟨_, _, _, rfl, rfl, same, rfl⟩
  | read fd count missing =>
      simp only [step]
      split
      · exact ⟨_, _, _, rfl, rfl, same, rfl⟩
      · rename_i pos _
        obtain ⟨answer, read, sameRead⟩ := rwRead_indistinct same count pos missing
        rw [read, sameRead]
        exact ⟨_, _, _, rfl, rfl, same, rfl⟩
  | write fd data missing =>
      simp only [step]
      split
      · exact ⟨_, _, _, rfl, rfl, same, rfl⟩
      · rename_i pos _
        obtain ⟨a, b, result, next, written, sameWritten, still⟩ :=
          rwWrite_indistinct same data pos missing
        rw [written, sameWritten]
        exact ⟨_, _, _, rfl, rfl, still, rfl⟩
  | pread fd count pos missing =>
      simp only [step]
      split
      · exact ⟨_, _, _, rfl, rfl, same, rfl⟩
      · obtain ⟨answer, read, sameRead⟩ := rwRead_indistinct same count pos missing
        rw [read, sameRead]
        exact ⟨_, _, _, rfl, rfl, same, rfl⟩
  | pwrite fd data pos missing =>
      simp only [step]
      split
      · exact ⟨_, _, _, rfl, rfl, same, rfl⟩
      · obtain ⟨a, b, result, next, written, sameWritten, still⟩ :=
          rwWrite_indistinct same data pos missing
        rw [written, sameWritten]
        exact ⟨_, _, _, rfl, rfl, still, rfl⟩

theorem step_sound (s : State) (request : Request) (next : State) (reply : Reply)
    (sound : s.dev.Sound) (stepped : step fixedSizeLlseek s request = some (next, reply)) :
    next.dev.Sound := by
  obtain ⟨_, _, _, same, _, still⟩ :=
    step_indistinct fixedSizeLlseek s s request ⟨sound.refl, rfl⟩
  cases same.symm.trans stepped
  exact still.dev.left

theorem rwRead_one {dev : Device} (sound : dev.Sound) {i : Nat} (below : i < dev.dataLen) :
    ∃ byte, dev.buffer[i]? = some byte ∧ rwRead dev 1 i 0 = some (.ok [byte], (i : Int) + 1) := by
  have bound := sound.bounded
  have inside : i < dev.buffer.length := by
    rw [sound.size]
    omega
  refine ⟨dev.buffer[i], List.getElem?_eq_getElem inside, ?_⟩
  have before : ¬ ((i : Int) < 0 ∨ dev.dataLen ≤ (i : Int).toNat) := by
    simp only [Int.toNat_natCast]
    omega
  have one : min 1 (dev.dataLen - i) = 1 := by omega
  have loaded : loadRange dev.buffer i 1 = some [dev.buffer[i]] := by
    rw [loadRange, if_pos (by omega), slice, List.drop_eq_getElem_cons inside]
    rfl
  rw [rwRead, if_neg before]
  simp only [Int.toNat_natCast, one, loaded, ne_eq, not_true, if_false]
  rfl

/-- Byte `i` read through a new file; one beyond `data_len` is first made readable
by a write of byte 4095. -/
def probe (fd dataLen i : Nat) : List Request :=
  if i < dataLen then [.openFile, .pread fd 1 i 0]
  else [.openFile, .pwrite fd [0] (bufSize - 1) 0, .pread fd 1 i 0]

theorem probe_reveals {dev : Device} (sound : dev.Sound) (files : List Int) {i : Nat}
    (seen : i < bufSize - 1 ∨ dev.dataLen = bufSize) (inside : i < bufSize) :
    ∃ byte before, dev.buffer[i]? = some byte ∧
      transcript (step fixedSizeLlseek) ⟨dev, files⟩ (probe files.length dev.dataLen i) =
        some (before ++ [.bytes (.ok [byte])]) := by
  have opened : (files ++ [0])[files.length]? = some 0 := List.getElem?_concat_length
  by_cases below : i < dev.dataLen
  · obtain ⟨byte, here, read⟩ := rwRead_one sound below
    refine ⟨byte, [.opened files.length], here, ?_⟩
    rw [probe, if_pos below]
    simp only [transcript, exec, step, opened, read, Option.map_some, List.cons_append,
      List.nil_append]
  · have last : bufSize - 1 < bufSize := by decide
    have wrote := rwWrite_room sound.size [0] last
    have grownSound := after_sound sound [0] last
    have grown : (dev.after [0] (bufSize - 1)).dataLen = bufSize :=
      Nat.max_eq_left sound.bounded
    obtain ⟨byte, here, read⟩ := rwRead_one grownSound (grown.symm ▸ inside)
    have untouched := Device.after_buffer sound.size [0] last i
    rw [if_neg (by simp only [List.length_singleton]; omega)] at untouched
    refine ⟨byte, [.opened files.length, .written (.ok 1)], untouched.symm.trans here, ?_⟩
    rw [probe, if_neg below]
    simp only [transcript, exec, step, opened, wrote, read, Option.map_some, List.cons_append,
      List.nil_append]
    rfl

/-! ## What a write of nothing leaves alone -/

def TransfersNothing (result : Except Errno Nat) : Prop :=
  result = .ok 0 ∨ ∃ e, result = .error e

/-- The position, `data_len` and all that later requests are answered. -/
structure LeavesAlone (s : State) (dev : Device) (ppos next : Int) : Prop where
  position : next = ppos
  len : dev.dataLen = s.dev.dataLen
  later : ∀ requests, transcript (step fixedSizeLlseek) ⟨dev, s.files⟩ requests =
    transcript (step fixedSizeLlseek) s requests

/-- A position outside the buffer; an empty write no further than `data_len`, or
any other write whose copy succeeds; or a fault that lays down the bytes already
there, byte 4095 apart while `data_len` has not reached it. -/
def Harmless (dev : Device) (data : Bytes) (ppos : Int) (missing : Nat) : Prop :=
  (ppos < 0 ∨ bufSize ≤ ppos.toNat) ∨
    if missing = 0 then data ≠ [] ∨ ppos.toNat ≤ dev.dataLen
    else ∀ k < min data.length (bufSize - ppos.toNat),
      (copyFromUser (clipped data ppos.toNat).values missing)[k]? = dev.buffer[ppos.toNat + k]? ∨
        ppos.toNat + k = bufSize - 1 ∧ dev.dataLen < bufSize

variable {fixedSizeLlseek}

theorem harmless_inside {dev : Device} {data : Bytes} {p : Nat} (room : p < bufSize)
    {missing : Nat} : Harmless dev data p missing ↔
      if missing = 0 then data ≠ [] ∨ p ≤ dev.dataLen
      else ∀ k < min data.length (bufSize - p),
        (copyFromUser (clipped data p).values missing)[k]? = dev.buffer[p + k]? ∨
          p + k = bufSize - 1 ∧ dev.dataLen < bufSize := by
  refine or_iff_right ?_
  simp only [Int.toNat_natCast]
  omega

theorem after_empty {dev : Device} {p : Nat} (near : p ≤ dev.dataLen) :
    dev.after [] p = dev := by
  obtain ⟨buffer, dataLen⟩ := dev
  have same : overwrite buffer p ([] : Bytes) = buffer := by
    rw [overwrite, List.append_nil, List.length_nil, Nat.add_zero, List.take_append_drop]
  have nothing : (clipped [] p).values = [] := List.take_nil
  rw [Device.after, nothing, same]
  congr 1
  exact Nat.max_eq_right near

/-- An empty write, seen by what follows. -/
theorem leavesAlone_empty_iff {s : State} {p : Nat} :
    LeavesAlone fixedSizeLlseek s (s.dev.after [] p) p p ↔ p ≤ s.dev.dataLen := by
  constructor
  · intro alone
    have len : max p s.dev.dataLen = s.dev.dataLen := alone.len
    omega
  · intro near
    rw [after_empty near]
    exact ⟨rfl, rfl, fun _ => rfl⟩

theorem leavesAlone_of_indistinct {s : State} {dev : Device} (same : Indistinct dev s.dev)
    (p : Nat) : LeavesAlone fixedSizeLlseek s dev p p := by
  refine ⟨rfl, same.len, ?_⟩
  exact transcript_eq (step_indistinct fixedSizeLlseek)
    (⟨same, rfl⟩ : IndistinctStates ⟨dev, s.files⟩ s)

/-- Requests that see no difference, among them every probe, leave none. -/
theorem indistinct_of_leavesAlone {s : State} {dev : Device} (sound : s.dev.Sound)
    (size : dev.buffer.length = bufSize) {p : Nat}
    (alone : LeavesAlone fixedSizeLlseek s dev p p) : Indistinct dev s.dev := by
  have bounded : dev.dataLen ≤ bufSize := alone.len ▸ sound.bounded
  refine ⟨⟨size, bounded⟩, sound, alone.len, ?_⟩
  intro k seen
  by_cases inside : k < bufSize
  · obtain ⟨byte, front, here, answers⟩ :=
      probe_reveals fixedSizeLlseek ⟨size, bounded⟩ s.files seen inside
    rw [alone.len] at seen answers
    obtain ⟨old, oldFront, there, oldAnswers⟩ :=
      probe_reveals fixedSizeLlseek sound s.files seen inside
    rw [alone.later] at answers
    have equal := (List.append_inj' (Option.some.inj (answers.symm.trans oldAnswers)) rfl).2
    cases equal
    rw [here, there]
  · rw [List.getElem?_eq_none (by omega), List.getElem?_eq_none (by rw [sound.size]; omega)]

theorem indistinct_laid_iff {dev : Device} (sound : dev.Sound) (data : Bytes) {p : Nat}
    (room : p < bufSize) (missing : Nat) :
    Indistinct (dev.laid data p missing) dev ↔
      ∀ k < min data.length (bufSize - p),
        (copyFromUser (clipped data p).values missing)[k]? = dev.buffer[p + k]? ∨
          p + k = bufSize - 1 ∧ dev.dataLen < bufSize := by
  have bound := sound.bounded
  constructor
  · intro same k inside
    by_cases seen : p + k < bufSize - 1 ∨ dev.dataLen = bufSize
    · have equal := same.bytes (p + k) seen
      rw [laid_buffer sound.size data room, if_pos (by omega), Nat.add_sub_cancel_left] at equal
      exact Or.inl equal
    · exact Or.inr (by omega)
  · intro agrees
    refine ⟨⟨laid_size sound.size data room missing, sound.bounded⟩, sound, rfl, ?_⟩
    intro k seen
    rw [laid_buffer sound.size data room]
    split
    · rename_i inside
      rcases agrees (k - p) (by omega) with equal | unread
      · rw [equal, Nat.add_sub_cancel' inside.1]
      · change k < bufSize - 1 ∨ dev.dataLen = bufSize at seen
        omega
    · rfl

/-- **Writes that transfer nothing.** In every state the device reaches, a write
that returns 0 or an error leaves the position, `data_len` and all later answers
alone exactly when it is harmless. -/
theorem nothing_written_iff_harmless {requests : List Request} {replies : List Reply} {s : State}
    (ran : exec (step fixedSizeLlseek) State.initial requests = some (s, replies)) (data : Bytes)
    (ppos : Int) (missing : Nat) :
    ∃ dev result next, rwWrite s.dev data ppos missing = some (dev, result, next) ∧
      ((TransfersNothing result → LeavesAlone fixedSizeLlseek s dev ppos next) ↔
        Harmless s.dev data ppos missing) := by
  have sound : s.dev.Sound := exec_invariant (step_sound fixedSizeLlseek) sound_initial ran
  rcases position_cases ppos with outside | ⟨p, rfl, room⟩
  · refine ⟨s.dev, _, ppos, rwWrite_beyond s.dev data missing outside, ?_⟩
    exact ⟨fun _ => Or.inl outside, fun _ _ => ⟨rfl, rfl, fun _ => rfl⟩⟩
  · rw [harmless_inside room]
    by_cases copied : missing = 0
    · subst copied
      refine ⟨_, _, _, rwWrite_room sound.size data room, ?_⟩
      rw [if_pos rfl]
      cases data with
      | nil =>
          have alone : LeavesAlone fixedSizeLlseek s (s.dev.after [] p) p p ↔ p ≤ s.dev.dataLen :=
            leavesAlone_empty_iff
          simpa [TransfersNothing] using alone
      | cons byte rest =>
          have transfers : ¬ TransfersNothing (.ok (min (byte :: rest).length (bufSize - p))) := by
            rintro (zero | ⟨e, error⟩)
            · cases rest <;> simp at zero <;> omega
            · cases error
          exact ⟨fun _ => Or.inl (List.cons_ne_nil byte rest), fun _ nothing =>
            absurd nothing transfers⟩
    · refine ⟨_, _, _, rwWrite_fault sound.size data room copied, ?_⟩
      rw [if_neg copied, ← indistinct_laid_iff sound data room missing]
      constructor
      · intro alone
        exact indistinct_of_leavesAlone sound (laid_size sound.size data room missing)
          (alone (Or.inr ⟨_, rfl⟩))
      · intro same _
        exact leavesAlone_of_indistinct same p

end Requests

/-! ## An empty write ahead of the data, and a fault halfway through two bytes -/

/-- Two bytes are written to a new file. -/
def twoBytes : List Request := [.openFile, .write 0 [1, 2] 0]

def holdsTwo : State := ⟨Device.initial.after [1, 2] 0, [2]⟩

theorem twoBytes_ran : exec (step seekSetCurEnd) State.initial twoBytes =
    some (holdsTwo, [.opened 0, .written (.ok 2)]) := by
  have room : 0 < bufSize := by decide
  have wrote : rwWrite Device.initial [1, 2] 0 0 = some (Device.initial.after [1, 2] 0, .ok 2, 2) :=
    rwWrite_room sound_initial.size [1, 2] room
  simp only [exec, step, State.initial, twoBytes, List.nil_append, List.length_nil,
    List.getElem?_cons_zero, wrote, Option.map_some]
  rfl

theorem nothing_written_harms :
    ∃ replies ahead torn next next', exec (step seekSetCurEnd) State.initial twoBytes =
        some (holdsTwo, replies) ∧
      rwWrite holdsTwo.dev [] 5 0 = some (ahead, .ok 0, next) ∧
      ¬ LeavesAlone seekSetCurEnd holdsTwo ahead 5 next ∧
      rwWrite holdsTwo.dev [7, 8] 0 1 = some (torn, .error .efault, next') ∧
      ¬ LeavesAlone seekSetCurEnd holdsTwo torn 0 next' := by
  have start : 0 < bufSize := by decide
  have five : 5 < bufSize := by decide
  have fault : 1 ≠ 0 := Nat.one_ne_zero
  have sound : holdsTwo.dev.Sound := after_sound sound_initial [1, 2] start
  refine ⟨_, _, _, _, _, twoBytes_ran, rwWrite_room sound.size [] five, ?_,
    rwWrite_fault sound.size [7, 8] start fault, ?_⟩
  · intro alone
    have near : 5 ≤ holdsTwo.dev.dataLen := leavesAlone_empty_iff.mp alone
    have two : holdsTwo.dev.dataLen = 2 := rfl
    omega
  · intro alone
    have same := indistinct_of_leavesAlone sound (laid_size sound.size [7, 8] start 1) alone
    have first := (indistinct_laid_iff sound [7, 8] start 1).mp same 0 (by decide)
    have old : holdsTwo.dev.buffer[0 + 0]? = some 1 :=
      Device.after_buffer sound_initial.size [1, 2] start 0
    rw [old] at first
    revert first
    decide

theorem nothing_written_at_end :
    ∃ dev result next, rwWrite holdsTwo.dev [] 2 0 = some (dev, result, next) ∧
      (TransfersNothing result → LeavesAlone seekSetCurEnd holdsTwo dev 2 next) := by
  obtain ⟨dev, result, next, wrote, exactly⟩ := nothing_written_iff_harmless twoBytes_ran [] 2 0
  have near : (2 : Int).toNat ≤ holdsTwo.dev.dataLen := Nat.le_refl 2
  exact ⟨dev, result, next, wrote, exactly.mpr (Or.inr (Or.inr near))⟩

end ReadWriteCdev
