import KernelLabs.ReadWriteCdev.Device

/-!
# The device is a seekable file of capacity 4096

The abstract file keeps no buffer and no length, only the writes made to it and
the positions of its openers.  The device answers every sequence of requests as
the abstract file does, as long as the user copies succeed: its buffer
represents the writes on all 4096 offsets, zeros beyond `data_len` included,
which is what fills the hole when a write starts past the data.
-/

set_option autoImplicit false

namespace ReadWriteCdev

open Kernel SeekableFile Transducer

/-- The abstract file: its writes, the latest first, and its openers' positions. -/
structure Abstract where
  writes : List (Write UInt8)
  files : List Nat
  deriving DecidableEq, Repr

def Abstract.initial : Abstract := ⟨[], []⟩

def clipped (data : Bytes) (p : Nat) : Write UInt8 := ⟨p, data.take (bufSize - p)⟩

def Abstract.step (fixedSizeLlseek : Llseek) (t : Abstract) : Request → Option (Abstract × Reply)
  | .openFile => some ({ t with files := t.files ++ [0] }, .opened t.files.length)
  | .llseek fd offset whence =>
    match t.files[fd]? with
    | none => some (t, .badFile)
    | some p =>
      match fixedSizeLlseek offset whence p bufSize with
      | .error e => some (t, .position (.error e))
      | .ok next => some ({ t with files := t.files.set fd next.toNat }, .position (.ok next))
  | .read fd count _ =>
    match t.files[fd]? with
    | none => some (t, .badFile)
    | some p =>
      let bytes := content 0 t.writes p count
      some ({ t with files := t.files.set fd (p + bytes.length) }, .bytes (.ok bytes))
  | .write fd data _ =>
    match t.files[fd]? with
    | none => some (t, .badFile)
    | some p =>
      if bufSize ≤ p then some (t, .written (.error .enospc))
      else
        let stored := min data.length (bufSize - p)
        some (⟨clipped data p :: t.writes, t.files.set fd (p + stored)⟩, .written (.ok stored))
  | .pread fd count p _ =>
    match t.files[fd]? with
    | none => some (t, .badFile)
    | some _ => some (t, .bytes (.ok (content 0 t.writes p count)))
  | .pwrite fd data p _ =>
    match t.files[fd]? with
    | none => some (t, .badFile)
    | some _ =>
      if bufSize ≤ p then some (t, .written (.error .enospc))
      else
        let stored := min data.length (bufSize - p)
        some ({ t with writes := clipped data p :: t.writes }, .written (.ok stored))

/-! ## One read and one write -/

structure Device.Holds (dev : Device) (writes : List (Write UInt8)) : Prop where
  size : dev.buffer.length = bufSize
  represents : Represents 0 dev.buffer dev.dataLen writes

theorem holds_initial : Device.initial.Holds [] :=
  ⟨List.length_replicate, represents_blank 0 bufSize⟩

theorem rwRead_holds {dev : Device} {writes : List (Write UInt8)} (holds : dev.Holds writes)
    (count p : Nat) :
    rwRead dev count p 0 = some (.ok (content 0 writes p count),
      (p : Int) + (content 0 writes p count).length) := by
  have read := holds.represents.read p count
  have inside : dev.dataLen ≤ dev.buffer.length := by
    rw [holds.represents.len_eq]
    exact holds.represents.fits
  unfold rwRead
  by_cases atEnd : dev.dataLen ≤ p
  · have nothing : content 0 writes p count = [] := by
      apply List.eq_nil_of_length_eq_zero
      rw [content_length, ← holds.represents.len_eq]
      omega
    simp [atEnd, nothing]
  · have before : ¬ ((p : Int) < 0 ∨ dev.dataLen ≤ (p : Int).toNat) := by
      simp only [Int.toNat_natCast]
      omega
    have loaded : loadRange dev.buffer p (min count (dev.dataLen - p)) =
        some (content 0 writes p count) := by
      rw [loadRange, if_pos (by omega), slice, read]
    have length := content_length 0 writes p count
    rw [← holds.represents.len_eq] at length
    rw [if_neg before]
    simp only [Int.toNat_natCast, loaded, ne_eq, not_true, if_false, length]

theorem rwWrite_full (dev : Device) (data : Bytes) {p : Nat} (full : bufSize ≤ p) :
    rwWrite dev data p 0 = some (dev, .error .enospc, (p : Int)) := by
  rw [rwWrite, if_pos]
  simp only [Int.toNat_natCast]
  omega

@[simp] theorem clipped_length (data : Bytes) (p : Nat) :
    (clipped data p).values.length = min data.length (bufSize - p) := by
  simp [clipped, Nat.min_comm]

def Device.after (dev : Device) (data : Bytes) (p : Nat) : Device where
  buffer := overwrite dev.buffer p (clipped data p).values
  dataLen := max (p + min data.length (bufSize - p)) dev.dataLen

theorem rwWrite_room {dev : Device} (size : dev.buffer.length = bufSize) (data : Bytes) {p : Nat}
    (room : p < bufSize) :
    rwWrite dev data p 0 = some (dev.after data p, .ok (min data.length (bufSize - p)),
      (p : Int) + (min data.length (bufSize - p) : Nat)) := by
  have before : ¬ ((p : Int) < 0 ∨ bufSize ≤ (p : Int).toNat) := by
    simp only [Int.toNat_natCast]
    omega
  have copied : data.take (min data.length (bufSize - p)) = (clipped data p).values := by
    rw [clipped, List.take_eq_take_iff]
    omega
  have stored : storeRange dev.buffer p (clipped data p).values =
      some (overwrite dev.buffer p (clipped data p).values) := by
    rw [storeRange, if_pos]
    rw [clipped_length]
    omega
  have moved : ((p : Int) + (min data.length (bufSize - p) : Nat)).toNat =
      p + min data.length (bufSize - p) := by
    omega
  have grown (stored : Nat) : (if dev.dataLen < p + stored then p + stored else dev.dataLen) =
      max (p + stored) dev.dataLen := by
    split <;> omega
  rw [rwWrite, if_neg before]
  simp only [Int.toNat_natCast, copied, copyFromUser_copies, stored, moved, grown, ne_eq, not_true,
    if_false]
  rfl

theorem Device.Holds.after {dev : Device} {writes : List (Write UInt8)} (holds : dev.Holds writes)
    (data : Bytes) {p : Nat} (room : p < bufSize) :
    (dev.after data p).Holds (clipped data p :: writes) := by
  have fits : (clipped data p).offset + (clipped data p).values.length ≤ dev.buffer.length := by
    rw [clipped_length, holds.size]
    change p + _ ≤ _
    omega
  have represents := holds.represents.write (clipped data p) fits
  rw [clipped_length] at represents
  exact ⟨(overwrite_length fits).trans holds.size, represents⟩

/-! ## Sequences of requests -/

/-- The request asks for at least one byte, and its user copy succeeds. -/
def Request.Transfers : Request → Prop
  | .read _ count missing | .pread _ count _ missing => 1 ≤ count ∧ missing = 0
  | .write _ data missing | .pwrite _ data _ missing => data ≠ [] ∧ missing = 0
  | _ => True

instance (request : Request) : Decidable request.Transfers := by
  unfold Request.Transfers
  split <;> infer_instance

/-- The device in state `s` stands for the abstract file in state `t`. -/
structure Refines (s : State) (t : Abstract) : Prop where
  holds : s.dev.Holds t.writes
  files : s.files = t.files.map Int.ofNat
  bounded : ∀ p ∈ t.files, p ≤ bufSize

theorem refines_initial : Refines State.initial Abstract.initial :=
  ⟨holds_initial, rfl, fun _ member => absurd member List.not_mem_nil⟩

/-- A seek of a position inside the device ends inside it. -/
def SeeksInside (fixedSizeLlseek : Llseek) : Prop :=
  ∀ offset whence pos next, 0 ≤ pos → pos ≤ bufSize →
    fixedSizeLlseek offset whence pos bufSize = .ok next → 0 ≤ next ∧ next ≤ bufSize

def Request.fd : Request → Option Nat
  | .openFile => none
  | .llseek fd _ _ | .read fd _ _ | .write fd _ _ | .pread fd _ _ _ | .pwrite fd _ _ _ => some fd

/-- Both machines answer the request alike and end in related states. -/
def AnswersAlike (fixedSizeLlseek : Llseek) (s : State) (t : Abstract) (request : Request) : Prop :=
  ∃ s' t' reply, step fixedSizeLlseek s request = some (s', reply) ∧
    t.step fixedSizeLlseek request = some (t', reply) ∧ Refines s' t'

section Simulation
variable {s : State} {t : Abstract} (refines : Refines s t) (fixedSizeLlseek : Llseek)
include refines

theorem Refines.file_some {fd p : Nat} (found : t.files[fd]? = some p) :
    s.files[fd]? = some (p : Int) ∧ p ≤ bufSize := by
  refine ⟨?_, refines.bounded p (List.mem_of_getElem? found)⟩
  rw [refines.files, List.getElem?_map, found, Option.map_some]
  rfl

theorem Refines.extent_le : extent t.writes ≤ bufSize := by
  rw [← refines.holds.size]
  exact refines.holds.represents.fits

theorem Refines.stay {dev : Device} {writes : List (Write UInt8)} (holds : dev.Holds writes) :
    Refines ⟨dev, s.files⟩ ⟨writes, t.files⟩ :=
  ⟨holds, refines.files, refines.bounded⟩

theorem Refines.move {dev : Device} {writes : List (Write UInt8)} (holds : dev.Holds writes)
    (fd : Nat) {p : Nat} (inside : p ≤ bufSize) :
    Refines ⟨dev, s.files.set fd p⟩ ⟨writes, t.files.set fd p⟩ := by
  refine ⟨holds, ?_, ?_⟩
  · dsimp only
    rw [refines.files, List.map_set]
    rfl
  · intro q member
    rcases List.mem_or_eq_of_mem_set member with old | rfl
    · exact refines.bounded q old
    · exact inside

theorem answers_closed {request : Request} {fd : Nat} (about : request.fd = some fd)
    (closed : t.files[fd]? = none) : AnswersAlike fixedSizeLlseek s t request := by
  have sameClosed : s.files[fd]? = none := by
    rw [refines.files, List.getElem?_map, closed, Option.map_none]
  refine ⟨s, t, .badFile, ?_, ?_, refines⟩
  · cases request <;> cases about <;> simp only [step, sameClosed]
  · cases request <;> cases about <;> simp only [Abstract.step, closed]

theorem answers_open : AnswersAlike fixedSizeLlseek s t .openFile := by
  refine ⟨⟨s.dev, s.files ++ [0]⟩, ⟨t.writes, t.files ++ [0]⟩, .opened t.files.length, ?_, rfl, ?_⟩
  · simp only [step, refines.files, List.length_map]
  · refine ⟨refines.holds, ?_, ?_⟩
    · dsimp only
      rw [refines.files, List.map_append]
      rfl
    · intro p member
      rcases List.mem_append.mp member with old | new
      · exact refines.bounded p old
      · rw [List.mem_singleton.mp new]
        exact Nat.zero_le _

theorem answers_llseek (seeks : SeeksInside fixedSizeLlseek) {fd p : Nat} (offset : Int)
    (whence : Nat) (found : t.files[fd]? = some p) :
    AnswersAlike fixedSizeLlseek s t (.llseek fd offset whence) := by
  obtain ⟨sameFile, inside⟩ := refines.file_some found
  cases sought : fixedSizeLlseek offset whence p bufSize with
  | error e =>
      refine ⟨s, t, .position (.error e), ?_, ?_, refines⟩
      · simp only [step, sameFile, rwLlseek, sought]
      · simp only [Abstract.step, found, sought]
  | ok next =>
      obtain ⟨low, high⟩ := seeks offset whence p next (by omega) (by exact_mod_cast inside) sought
      have same : ((next.toNat : Nat) : Int) = next := Int.toNat_of_nonneg low
      refine ⟨⟨s.dev, s.files.set fd (next.toNat : Nat)⟩, ⟨t.writes, t.files.set fd next.toNat⟩,
        .position (.ok next), ?_, ?_, refines.move refines.holds fd (by omega)⟩
      · simp only [step, sameFile, rwLlseek, sought, same]
      · simp only [Abstract.step, found, sought]

theorem answers_read {fd p : Nat} (count : Nat) (found : t.files[fd]? = some p) :
    AnswersAlike fixedSizeLlseek s t (.read fd count 0) := by
  obtain ⟨sameFile, inside⟩ := refines.file_some found
  have length := content_length 0 t.writes p count
  have extent_le := refines.extent_le
  refine ⟨_, _, .bytes (.ok (content 0 t.writes p count)), ?_, ?_, refines.move refines.holds fd
    (p := p + (content 0 t.writes p count).length) (by omega)⟩
  · simp only [step, sameFile, rwRead_holds refines.holds count p, Option.map_some, Int.natCast_add]
  · simp only [Abstract.step, found]

theorem answers_pread {fd q : Nat} (count p : Nat) (found : t.files[fd]? = some q) :
    AnswersAlike fixedSizeLlseek s t (.pread fd count p 0) := by
  obtain ⟨sameFile, _⟩ := refines.file_some found
  refine ⟨s, t, .bytes (.ok (content 0 t.writes p count)), ?_, ?_, refines⟩
  · simp only [step, sameFile, rwRead_holds refines.holds count p, Option.map_some]
  · simp only [Abstract.step, found]

theorem answers_write {fd p : Nat} (data : Bytes) (found : t.files[fd]? = some p) :
    AnswersAlike fixedSizeLlseek s t (.write fd data 0) := by
  obtain ⟨sameFile, inside⟩ := refines.file_some found
  by_cases full : bufSize ≤ p
  · have same : s.files.set fd (p : Int) = s.files := by
      obtain ⟨bound, value⟩ := List.getElem?_eq_some_iff.mp sameFile
      rw [← value, List.set_getElem_self]
    refine ⟨s, t, .written (.error .enospc), ?_, ?_, refines⟩
    · simp only [step, sameFile, rwWrite_full s.dev data full, Option.map_some, same]
    · simp only [Abstract.step, found, full, if_true]
  · have room : p < bufSize := by omega
    refine ⟨_, _, .written (.ok (min data.length (bufSize - p))), ?_, ?_,
      refines.move (refines.holds.after data room) fd
        (p := p + min data.length (bufSize - p)) (by omega)⟩
    · simp only [step, sameFile, rwWrite_room refines.holds.size data room, Option.map_some,
        Int.natCast_add]
    · simp only [Abstract.step, found, full, if_false]

theorem answers_pwrite {fd q : Nat} (data : Bytes) (p : Nat) (found : t.files[fd]? = some q) :
    AnswersAlike fixedSizeLlseek s t (.pwrite fd data p 0) := by
  obtain ⟨sameFile, _⟩ := refines.file_some found
  by_cases full : bufSize ≤ p
  · refine ⟨s, t, .written (.error .enospc), ?_, ?_, refines⟩
    · simp only [step, sameFile, rwWrite_full s.dev data full, Option.map_some]
    · simp only [Abstract.step, found, full, if_true]
  · have room : p < bufSize := by omega
    refine ⟨_, _, .written (.ok (min data.length (bufSize - p))), ?_, ?_,
      refines.stay (refines.holds.after data room)⟩
    · simp only [step, sameFile, rwWrite_room refines.holds.size data room, Option.map_some]
    · simp only [Abstract.step, found, full, if_false]

theorem answers_alike (seeks : SeeksInside fixedSizeLlseek) {request : Request}
    (transfers : request.Transfers) : AnswersAlike fixedSizeLlseek s t request := by
  cases about : request.fd with
  | none =>
      cases request with
      | openFile => exact answers_open refines fixedSizeLlseek
      | _ => contradiction
  | some fd =>
      cases found : t.files[fd]? with
      | none => exact answers_closed refines fixedSizeLlseek about found
      | some p =>
          cases request with
          | openFile => contradiction
          | llseek fd offset whence =>
              cases about
              exact answers_llseek refines fixedSizeLlseek seeks offset whence found
          | read fd count missing =>
              cases about
              obtain ⟨_, rfl⟩ := transfers
              exact answers_read refines fixedSizeLlseek count found
          | pread fd count pos missing =>
              cases about
              obtain ⟨_, rfl⟩ := transfers
              exact answers_pread refines fixedSizeLlseek count pos found
          | write fd data missing =>
              cases about
              obtain ⟨_, rfl⟩ := transfers
              exact answers_write refines fixedSizeLlseek data found
          | pwrite fd data pos missing =>
              cases about
              obtain ⟨_, rfl⟩ := transfers
              exact answers_pwrite refines fixedSizeLlseek data pos found

end Simulation

/-- What the abstract file promises of the device in state `s`. -/
structure Seekable (s : State) (t : Abstract) : Prop where
  positions : s.files = t.files.map Int.ofNat
  len : s.dev.dataLen = extent t.writes
  bounded : s.dev.dataLen ≤ bufSize
  reads : ∀ count p : Nat, 1 ≤ count → ∃ bytes,
    rwRead s.dev count p 0 = some (.ok bytes, (p : Int) + bytes.length) ∧
      (bytes = [] ↔ s.dev.dataLen ≤ p) ∧ bytes.length = min count (s.dev.dataLen - p) ∧
      ∀ k, k < bytes.length → bytes[k]? = some (valueAt 0 t.writes (p + k))
  writes : ∀ (data : Bytes) (p : Nat), p < bufSize → ∃ next : Device,
    rwWrite s.dev data p 0 = some (next, .ok (min data.length (bufSize - p)),
      (p : Int) + (min data.length (bufSize - p) : Nat)) ∧
      ∀ k, next.buffer[k]? = if p ≤ k ∧ k < p + min data.length (bufSize - p) then data[k - p]?
        else s.dev.buffer[k]?
  full : ∀ (data : Bytes) (p : Nat), bufSize ≤ p →
    rwWrite s.dev data p 0 = some (s.dev, .error .enospc, (p : Int))

theorem Device.after_buffer {dev : Device} (size : dev.buffer.length = bufSize) (data : Bytes)
    {p : Nat} (room : p < bufSize) (k : Nat) :
    (dev.after data p).buffer[k]? =
      if p ≤ k ∧ k < p + min data.length (bufSize - p) then data[k - p]? else dev.buffer[k]? := by
  have length := clipped_length data p
  have fits : p + (clipped data p).values.length ≤ dev.buffer.length := by omega
  split
  · rename_i inside
    rw [Device.after, overwrite_inside fits inside.1 (by omega), clipped, List.getElem?_take]
    exact if_pos (by omega)
  · rename_i outside
    exact overwrite_outside fits (by omega)

theorem Refines.seekable {s : State} {t : Abstract} (refines : Refines s t) : Seekable s t := by
  have len := refines.holds.represents.len_eq
  refine ⟨refines.files, len, len ▸ refines.extent_le, ?_, ?_, ?_⟩
  · intro count p positive
    have length := content_length 0 t.writes p count
    rw [← len] at length
    refine ⟨_, rwRead_holds refines.holds count p, ?_, length, ?_⟩
    · rw [← List.length_eq_zero_iff, length]
      omega
    · intro k inside
      rw [content_length] at inside
      rw [content, List.getElem?_map, List.getElem?_range inside, Option.map_some]
  · intro data p room
    exact ⟨_, rwWrite_room refines.holds.size data room,
      Device.after_buffer refines.holds.size data room⟩
  · intro data p full
    exact rwWrite_full s.dev data full

/-- **Refinement.** Every sequence of transferring requests runs without an
access outside the buffer and is answered as the abstract file answers it; in
the state it ends in, reads and writes at any position act as on that file. -/
theorem refines_seekable_file (fixedSizeLlseek : Llseek) (seeks : SeeksInside fixedSizeLlseek)
    (requests : List Request) (transfers : ∀ request ∈ requests, request.Transfers) :
    ∃ s t replies, exec (step fixedSizeLlseek) State.initial requests = some (s, replies) ∧
      exec (Abstract.step fixedSizeLlseek) Abstract.initial requests = some (t, replies) ∧
      Seekable s t := by
  have simulates (s : State) (t : Abstract) (request : Request) (refines : Refines s t)
      (transfers : request.Transfers) : AnswersAlike fixedSizeLlseek s t request :=
    answers_alike refines fixedSizeLlseek seeks transfers
  obtain ⟨s, t, replies, ran, specRan, refines⟩ :=
    exec_simulates simulates refines_initial transfers
  exact ⟨s, t, replies, ran, specRan, refines.seekable⟩

/-- `fixed_size_llseek` for the three whences it accepts. -/
def seekSetCurEnd : Llseek := fun offset whence pos size =>
  let target := match whence with
    | 0 => some offset
    | 1 => some (pos + offset)
    | 2 => some (size + offset)
    | _ => none
  match target with
  | none => .error .einval
  | some next => if 0 ≤ next ∧ next ≤ size then .ok next else .error .einval

theorem seekSetCurEnd_inside : SeeksInside seekSetCurEnd := by
  intro offset whence pos next _ _ sought
  simp only [seekSetCurEnd] at sought
  split at sought
  · contradiction
  · split at sought
    · rename_i inside
      cases sought
      exact inside
    · contradiction

def holeAndOverlap : List Request :=
  [.openFile, .write 0 [1, 2, 3] 0, .llseek 0 6 0, .write 0 [4] 0, .openFile,
    .pwrite 1 [9, 9] 2 0, .read 1 64 0, .llseek 1 0 2, .write 1 [5] 0]

theorem holeAndOverlap_answers :
    ∃ s replies, exec (step seekSetCurEnd) State.initial holeAndOverlap = some (s, replies) ∧
      s.dev.dataLen = 7 ∧ replies =
        [.opened 0, .written (.ok 3), .position (.ok 6), .written (.ok 1), .opened 1,
          .written (.ok 2), .bytes (.ok [1, 2, 9, 9, 0, 0, 4]), .position (.ok 4096),
          .written (.error .enospc)] := by
  obtain ⟨s, t, replies, ran, specRan, seekable⟩ :=
    refines_seekable_file seekSetCurEnd seekSetCurEnd_inside holeAndOverlap (by decide)
  have known : exec (Abstract.step seekSetCurEnd) Abstract.initial holeAndOverlap =
      some (⟨[⟨2, [9, 9]⟩, ⟨6, [4]⟩, ⟨0, [1, 2, 3]⟩], [7, 4096]⟩,
        [.opened 0, .written (.ok 3), .position (.ok 6), .written (.ok 1), .opened 1,
          .written (.ok 2), .bytes (.ok [1, 2, 9, 9, 0, 0, 4]), .position (.ok 4096),
          .written (.error .enospc)]) := by
    decide +kernel
  obtain ⟨sameEnd, sameReplies⟩ := Prod.mk.inj (Option.some.inj (specRan.symm.trans known))
  refine ⟨s, replies, ran, ?_, sameReplies⟩
  rw [seekable.len, sameEnd]
  decide

end ReadWriteCdev
