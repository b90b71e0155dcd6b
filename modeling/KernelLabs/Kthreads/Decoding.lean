import KernelLabs.Kernel.Decimal
import KernelLabs.Kthreads.Snapshot
import KernelLabs.Lib.Lines

/-!
# What a reader can make of a listing

The lines of `/dev/kthread_demo` are read back: a listing decodes to the items
the drain handed over, in order, up to the one that the buffer has cut.  In
every state the buffered items carry consecutive numbers, the last of them the
one assigned last, so a reader that numbers its listings sees every loss.
-/

set_option autoImplicit false

namespace Kthreads

open Kernel Lines OverwritingFifo

def renderFields (item : RingItem) : Bytes :=
  ascii "seq=" ++ (decimal item.seq.toNat ++ (ascii " ns=" ++ decimal item.ns.toNat))

/-- The inverse of `scnprintf(..., "seq=%llu ns=%llu\n", ...)` on one line. -/
def parseFields (line : Bytes) : Option RingItem := do
  let (seq, rest) <- readDecimal (<- expect (ascii "seq=") line)
  let (ns, rest) <- readDecimal (<- expect (ascii " ns=") rest)
  if rest = [] ∧ seq < 2 ^ 64 ∧ ns < 2 ^ 64 then some ⟨UInt64.ofNat seq, UInt64.ofNat ns⟩ else none

theorem parseFields_renderFields (item : RingItem) :
    parseFields (renderFields item) = some item := by
  have space : StopsDigits (ascii " ns=" ++ decimal item.ns.toNat) := by
    intro c first
    cases first
    decide
  have ending : StopsDigits [] := nofun
  have seq := readDecimal_decimal item.seq.toNat space
  have ns := readDecimal_decimal item.ns.toNat ending
  rw [List.append_nil] at ns
  simp only [parseFields, renderFields, expect_append, Option.bind_eq_bind, Option.bind_some, seq,
    ns]
  rw [if_pos ⟨trivial, item.seq.toNat_lt, item.ns.toNat_lt⟩, UInt64.ofNat_toNat, UInt64.ofNat_toNat]

theorem renderFields_clean (item : RingItem) : 10 ∉ renderFields item := by
  have digits (n : Nat) : 10 ∉ decimal n := fun member => absurd (mem_decimal member).1 (by decide)
  simp only [renderFields, List.mem_append, not_or]
  exact ⟨by decide, digits _, by decide, digits _⟩

/-- The format of a listing. -/
def itemFormat : Format RingItem UInt8 where
  terminator := 10
  render := renderFields
  parse := parseFields
  Plain := fun _ => True
  clean := fun item _ => renderFields_clean item
  parse_render := fun item _ => parseFields_renderFields item

theorem renderLines_eq_text (items : List RingItem) :
    renderLines items = itemFormat.text items := by
  have line : renderItem = itemFormat.line := by
    funext item
    simp [renderItem, Format.line, itemFormat, renderFields]
  rw [renderLines, Format.text, line]

/-! ## The numbers in the ring -/

/-- The `n` numbers before `next`, in order. -/
def numbersBefore (next : UInt64) : Nat → List UInt64
  | 0 => []
  | n + 1 => numbersBefore (next - 1) n ++ [next - 1]

theorem numbersBefore_length (next : UInt64) (n : Nat) : (numbersBefore next n).length = n := by
  induction n generalizing next with
  | zero => rfl
  | succ n ih => rw [numbersBefore, List.length_append, ih, List.length_singleton]

theorem numbersBefore_tail (next : UInt64) (n : Nat) :
    (numbersBefore next (n + 1)).tail = numbersBefore next n := by
  induction n generalizing next with
  | zero => rfl
  | succ n ih =>
      have nonempty : numbersBefore (next - 1) (n + 1) ≠ [] := by
        intro empty
        have count := numbersBefore_length (next - 1) (n + 1)
        rw [empty] at count
        cases count
      rw [numbersBefore, List.tail_append_of_ne_nil nonempty, ih]
      rfl

/-- The buffered items are those numbered last. -/
structure Numbered (r : Ring) : Prop where
  wellFormed : r.WellFormed
  seqs : r.buffered.map RingItem.seq = numbersBefore r.nextSeq r.ringCount

theorem numbered_initial : Numbered Ring.initial := ⟨Ring.wellFormed_initial, rfl⟩

theorem Numbered.drain {r : Ring} (here : Numbered r) : Numbered (drainSection r).2 := by
  refine ⟨here.wellFormed.drainSection, ?_⟩
  rw [drainSection_buffered]
  rfl

theorem Numbered.produce {r : Ring} (here : Numbered r) (ns : UInt64) :
    Numbered (producerSection ns r) := by
  obtain ⟨wellFormed, seqs⟩ := here
  have next : (producerSection ns r).nextSeq - 1 = r.nextSeq := by
    simp only [producerSection]
    exact UInt64.add_sub_cancel _ _
  have grown : (r.buffered ++ [r.nextItem ns]).map RingItem.seq =
      numbersBefore (producerSection ns r).nextSeq (r.ringCount + 1) := by
    rw [numbersBefore, next, List.map_append, seqs]
    rfl
  refine ⟨wellFormed.producerSection ns, ?_⟩
  rw [producerSection_buffered wellFormed, push]
  by_cases room : r.ringCount < ringSize
  · have count : (producerSection ns r).ringCount = r.ringCount + 1 := by
      simp [producerSection, room]
    have short : (r.buffered ++ [r.nextItem ns]).length ≤ ringSize := by
      rw [List.length_append, buffered_length]
      exact room
    rw [lastN_of_length_le short, grown, count]
  · have full : r.ringCount = ringSize := Nat.le_antisymm wellFormed.countLe (Nat.not_lt.mp room)
    have count : (producerSection ns r).ringCount = ringSize := by simp [producerSection, full]
    have oldest : lastN ringSize (r.buffered ++ [r.nextItem ns]) =
        (r.buffered ++ [r.nextItem ns]).tail := by
      rw [lastN, List.length_append, buffered_length, full, List.length_singleton,
        Nat.add_sub_cancel_left, List.drop_one]
    rw [oldest, List.map_tail, grown, numbersBefore_tail, count, full]

theorem callStep_numbered {s : Readers} (here : Numbered s.demo.ring) (call : Call) :
    Numbered (callStep s call).demo.ring := by
  cases call with
  | produce ns => exact here.produce ns
  | read file count =>
      simp only [callStep, fileRead_eq, readDemo]
      split
      · exact here.drain
      · exact here

theorem afterCalls_numbered (calls : List Call) {s : Readers} (here : Numbered s.demo.ring) :
    Numbered (afterCalls s calls).demo.ring := by
  induction calls generalizing s with
  | nil => exact here
  | cons call rest ih => exact ih (callStep_numbered here call)

/-! ## Decoding a listing -/

/-- After any calls, the bytes of a read at position 0 with room for a whole
snapshot decode to the buffered items whose lines are whole in the 639 bytes that
the buffer holds: to all of them exactly when their digits, and nine characters
more each, are fewer than its bytes.  Their numbers are the last ones assigned,
without a gap. -/
theorem listing_decodes (before : List Call) (file count : Nat)
    (atStart : (afterCalls Readers.initial before).pos file = 0)
    (large : snapshotBufSize ≤ count) :
    let s := afterCalls Readers.initial before
    let items := s.demo.ring.buffered
    itemFormat.decode (fileRead file count s).1 =
        some (items.take (itemFormat.whole (snapshotBufSize - 1) items)) ∧
      (itemFormat.decode (fileRead file count s).1 = some items ↔
        (items.map fun item => (renderItem item).length).sum < snapshotBufSize) ∧
      items.map RingItem.seq = numbersBefore s.demo.ring.nextSeq items.length := by
  intro s items
  have size : s.demo.snapshot.buf.length = snapshotBufSize :=
    afterCalls_size before List.length_replicate
  have numbered : Numbered s.demo.ring := afterCalls_numbered before numbered_initial
  have plain : ∀ item ∈ items, itemFormat.Plain item := fun _ _ => trivial
  have bytes : (fileRead file count s).1 =
      (itemFormat.text items).take (snapshotBufSize - 1) := by
    have short : (ownText s.demo.ring).length ≤ count := by
      rw [ownText, List.length_take]
      omega
    rw [fileRead_eq, readDemo, atStart, if_pos rfl, (takeSnapshot_text size).2, slice,
      List.drop_zero, List.take_of_length_le short, ownText, drainSection_items,
      renderLines_eq_text]
  have length : (itemFormat.text items).length =
      (items.map fun item => (renderItem item).length).sum := by
    rw [← renderLines_eq_text, renderLines, List.length_flatMap]
  have positive : 0 < snapshotBufSize := by decide
  refine ⟨by rw [bytes, decode_take plain], ?_, ?_⟩
  · rw [bytes, decode_take_eq_iff plain, length]
    omega
  · rw [buffered_length]
    exact numbered.seqs

theorem listing_decodes_two :
    let s := afterCalls Readers.initial [.produce 5, .produce 1000000]
    itemFormat.decode (fileRead 3 640 s).1 = some s.demo.ring.buffered :=
  (listing_decodes [.produce 5, .produce 1000000] 3 640 rfl (by decide)).2.1.mpr
    (by decide +kernel)

end Kthreads
