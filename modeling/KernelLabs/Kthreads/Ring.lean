import Mathlib.Data.List.Induction
import Mathlib.Data.List.Nodup
import KernelLabs.Kernel.Basic
import KernelLabs.Lib.OverwritingFifo

/-!
# The ring of `15_kthreads/kthreads.c`

Two critical sections under `ring_lock` touch the ring: the body of the
producer loop and the drain at the start of a read at position 0.  Both are
single steps here, whoever runs them, so any number of producer threads and any
starts and stops in between are covered by the list of sections in lock order.

The main result relates the slots to the whole history: the buffered slots are
the last items produced, each drain hands over the last items produced since
the drain before, and the counters add up.
-/

set_option autoImplicit false

namespace Kthreads

open OverwritingFifo

abbrev ringSize : Nat := 16

structure RingItem where
  seq : UInt64
  ns : UInt64
  deriving DecidableEq, Repr

/-- The statics under `ring_lock`. -/
structure Ring where
  ring : Fin ringSize → RingItem
  ringHead : Nat
  ringCount : Nat
  nextSeq : UInt64
  droppedCount : UInt64

def Ring.initial : Ring where
  ring := fun _ => ⟨0, 0⟩
  ringHead := 0
  ringCount := 0
  nextSeq := 0
  droppedCount := 0

def Ring.nextItem (r : Ring) (ns : UInt64) : RingItem := ⟨r.nextSeq, ns⟩

/-- The locked part of the loop in `producer_thread_fn`. -/
def producerSection (ns : UInt64) (r : Ring) : Ring where
  ring := Function.update r.ring (Fin.ofNat ringSize r.ringHead) (r.nextItem ns)
  ringHead := (r.ringHead + 1) % ringSize
  ringCount := if r.ringCount < ringSize then r.ringCount + 1 else r.ringCount
  nextSeq := r.nextSeq + 1
  droppedCount := if r.ringCount < ringSize then r.droppedCount else r.droppedCount + 1

def Ring.start (r : Ring) : Nat := (r.ringHead + ringSize - r.ringCount) % ringSize

def Ring.buffered (r : Ring) : List RingItem := window r.ring r.start r.ringCount

/-- The locked part of `kthread_demo_read` at position 0: the items copied to
the reader's stack, and the emptied ring. -/
def drainSection (r : Ring) : List RingItem × Ring :=
  ((List.range r.ringCount).map fun i => r.ring (Fin.ofNat ringSize (r.start + i)),
    { r with ringCount := 0 })

theorem drainSection_items (r : Ring) : (drainSection r).1 = r.buffered := rfl

structure Ring.WellFormed (r : Ring) : Prop where
  headLt : r.ringHead < ringSize
  countLe : r.ringCount ≤ ringSize

theorem Ring.wellFormed_initial : Ring.initial.WellFormed := ⟨by decide, by decide⟩

theorem Ring.WellFormed.producerSection {r : Ring} (wf : r.WellFormed) (ns : UInt64) :
    (producerSection ns r).WellFormed := by
  obtain ⟨headLt, countLe⟩ := wf
  refine ⟨Nat.mod_lt _ (by decide), ?_⟩
  simp only [Kthreads.producerSection]
  split <;> omega

theorem Ring.WellFormed.drainSection {r : Ring} (wf : r.WellFormed) :
    (drainSection r).2.WellFormed := ⟨wf.headLt, Nat.zero_le _⟩

@[simp] theorem buffered_length (r : Ring) : r.buffered.length = r.ringCount := by
  simp [Ring.buffered]

@[simp] theorem drainSection_buffered (r : Ring) : (drainSection r).2.buffered = [] := by
  simp [drainSection, Ring.buffered]

/-- One pass of the producer loop is one push onto the buffered items. -/
theorem producerSection_buffered {r : Ring} (wf : r.WellFormed) (ns : UInt64) :
    (producerSection ns r).buffered = push ringSize r.buffered (r.nextItem ns) := by
  obtain ⟨headLt, countLe⟩ := wf
  have slot : Fin.ofNat ringSize r.ringHead = Fin.ofNat ringSize (r.start + r.ringCount) := by
    apply Fin.ext
    simp only [Fin.val_ofNat, Ring.start, ringSize] at headLt countLe ⊢
    omega
  by_cases room : r.ringCount < ringSize
  · have sameStart : (producerSection ns r).start % ringSize = r.start % ringSize := by
      simp only [Ring.start, producerSection, room, if_true]
      simp only [ringSize] at headLt countLe room ⊢
      omega
    have oneMore : (producerSection ns r).ringCount = r.ringCount + 1 := by
      simp [producerSection, room]
    rw [Ring.buffered, oneMore, window_congr _ _ sameStart]
    simp only [producerSection, slot]
    exact window_store_room r.ring r.start r.ringCount (r.nextItem ns) room
  · have full : r.ringCount = ringSize := by omega
    have nextStart : (producerSection ns r).start % ringSize = (r.start + 1) % ringSize := by
      simp only [Ring.start, producerSection, room, if_false]
      simp only [ringSize] at headLt full ⊢
      omega
    have sameCount : (producerSection ns r).ringCount = ringSize := by
      simp [producerSection, full]
    rw [Ring.buffered, sameCount, window_congr _ _ nextStart]
    simp only [producerSection, slot, Ring.buffered, full]
    exact window_store_full r.ring r.start (r.nextItem ns)

/-! ## Runs of sections and their history -/

inductive Section where
  | produce (ns : UInt64)
  | drain
  deriving DecidableEq, Repr

inductive Event where
  | produced (item : RingItem)
  | drained (items : List RingItem)
  deriving DecidableEq, Repr

def sectionStep (r : Ring) : Section → Ring × Event
  | .produce ns => (producerSection ns r, .produced (r.nextItem ns))
  | .drain => ((drainSection r).2, .drained (drainSection r).1)

/-- The ring and the history after the sections in lock order. -/
def ringRun (sections : List Section) : Ring × List Event :=
  sections.foldl
    (fun state s => ((sectionStep state.1 s).1, state.2 ++ [(sectionStep state.1 s).2]))
    (Ring.initial, [])

def producedItems (history : List Event) : List RingItem :=
  history.flatMap fun
    | .produced item => [item]
    | .drained _ => []

def drainedItems (history : List Event) : List RingItem :=
  history.flatMap fun
    | .produced _ => []
    | .drained items => items

def sinceDrain (history : List Event) : List RingItem :=
  history.foldl
    (fun items event => match event with
      | .produced item => items ++ [item]
      | .drained _ => [])
    []

def timestamps (sections : List Section) : List UInt64 :=
  sections.flatMap fun
    | .produce ns => [ns]
    | .drain => []

theorem ringRun_concat (sections : List Section) (s : Section) :
    ringRun (sections ++ [s]) =
      ((sectionStep (ringRun sections).1 s).1,
        (ringRun sections).2 ++ [(sectionStep (ringRun sections).1 s).2]) := by
  simp [ringRun, List.foldl_append]

section History
variable (history : List Event) (item : RingItem) (items : List RingItem)

@[simp] theorem producedItems_produced :
    producedItems (history ++ [.produced item]) = producedItems history ++ [item] := by
  simp [producedItems]

@[simp] theorem producedItems_drained :
    producedItems (history ++ [.drained items]) = producedItems history := by
  simp [producedItems]

@[simp] theorem drainedItems_produced :
    drainedItems (history ++ [.produced item]) = drainedItems history := by
  simp [drainedItems]

@[simp] theorem drainedItems_drained :
    drainedItems (history ++ [.drained items]) = drainedItems history ++ items := by
  simp [drainedItems]

@[simp] theorem sinceDrain_produced :
    sinceDrain (history ++ [.produced item]) = sinceDrain history ++ [item] := by
  simp [sinceDrain]

@[simp] theorem sinceDrain_drained : sinceDrain (history ++ [.drained items]) = [] := by
  simp [sinceDrain]

end History

@[simp] theorem timestamps_produce (sections : List Section) (ns : UInt64) :
    timestamps (sections ++ [.produce ns]) = timestamps sections ++ [ns] := by
  simp [timestamps]

@[simp] theorem timestamps_drain (sections : List Section) :
    timestamps (sections ++ [.drain]) = timestamps sections := by
  simp [timestamps]

/-- Every drain of the history handed over the last items of its own epoch. -/
def DrainsFresh (history : List Event) : Prop :=
  ∀ front items back, history = front ++ .drained items :: back →
    items = lastN (min ringSize (sinceDrain front).length) (sinceDrain front)

/-- How the ring stands to its history. -/
structure Tracks (r : Ring) (history : List Event) : Prop where
  wellFormed : r.WellFormed
  fresh : r.buffered = lastN ringSize (sinceDrain history)
  epochSuffix : sinceDrain history <:+ producedItems history
  numbered : (producedItems history).map (fun item => item.seq.toNat) =
    List.range (producedItems history).length
  nextSeq : r.nextSeq.toNat = (producedItems history).length
  handedOver : List.Sublist (drainedItems history ++ sinceDrain history) (producedItems history)
  drains : DrainsFresh history
  account : r.nextSeq.toNat =
    (drainedItems history).length + r.ringCount + r.droppedCount.toNat

theorem tracks_initial : Tracks Ring.initial [] where
  wellFormed := Ring.wellFormed_initial
  fresh := rfl
  epochSuffix := List.suffix_rfl
  numbered := rfl
  nextSeq := rfl
  handedOver := List.Sublist.refl _
  drains := by intro front items back parts; simp at parts
  account := rfl

theorem drainsFresh_produced {history : List Event} (drains : DrainsFresh history)
    (item : RingItem) : DrainsFresh (history ++ [.produced item]) := by
  intro front items back parts
  rcases List.eq_nil_or_concat back with rfl | ⟨rest, last, rfl⟩
  · have heads := List.append_inj_right' parts rfl
    simp at heads
  · rw [List.concat_eq_append, ← List.cons_append, ← List.append_assoc] at parts
    exact drains front items rest (List.append_inj_left' parts rfl)

theorem drainsFresh_drained {history : List Event} (drains : DrainsFresh history)
    {got : List RingItem}
    (fresh : got = lastN (min ringSize (sinceDrain history).length) (sinceDrain history)) :
    DrainsFresh (history ++ [.drained got]) := by
  intro front items back parts
  rcases List.eq_nil_or_concat back with rfl | ⟨rest, last, rfl⟩
  · have fronts := List.append_inj_left' parts rfl
    have heads := List.append_inj_right' parts rfl
    simp only [List.cons.injEq, Event.drained.injEq, and_true] at heads
    rw [← fronts, ← heads]
    exact fresh
  · rw [List.concat_eq_append, ← List.cons_append, ← List.append_assoc] at parts
    exact drains front items rest (List.append_inj_left' parts rfl)

theorem Tracks.produce {r : Ring} {history : List Event} (tracks : Tracks r history)
    (ns : UInt64) (few : (producedItems history).length + 1 < 2 ^ 64) :
    Tracks (producerSection ns r) (history ++ [.produced (r.nextItem ns)]) := by
  have account := tracks.account
  have nextSeq := tracks.nextSeq
  have nextNumber : (r.nextSeq + 1).toNat = r.nextSeq.toNat + 1 :=
    Kernel.u64_succ_toNat (by omega)
  refine ⟨tracks.wellFormed.producerSection ns, ?_, ?_, ?_, ?_, ?_,
    drainsFresh_produced tracks.drains _, ?_⟩
  · rw [producerSection_buffered tracks.wellFormed, tracks.fresh, push_lastN, sinceDrain_produced]
  · rw [sinceDrain_produced, producedItems_produced]
    obtain ⟨front, whole⟩ := tracks.epochSuffix
    exact ⟨front, by rw [← whole, List.append_assoc]⟩
  · rw [producedItems_produced, List.map_append, tracks.numbered, List.length_append,
      List.length_singleton, List.range_succ, List.map_singleton, ← tracks.nextSeq]
    rfl
  · rw [producedItems_produced, List.length_append, List.length_singleton, ← tracks.nextSeq]
    exact nextNumber
  · rw [drainedItems_produced, sinceDrain_produced, producedItems_produced, ← List.append_assoc]
    exact tracks.handedOver.append (List.Sublist.refl _)
  · rw [drainedItems_produced]
    simp only [producerSection, nextNumber]
    split
    · omega
    · have dropped : (r.droppedCount + 1).toNat = r.droppedCount.toNat + 1 :=
        Kernel.u64_succ_toNat (by omega)
      omega

theorem Tracks.drain {r : Ring} {history : List Event} (tracks : Tracks r history) :
    Tracks (drainSection r).2 (history ++ [.drained (drainSection r).1]) := by
  have got : (drainSection r).1 = lastN ringSize (sinceDrain history) := by
    rw [drainSection_items, tracks.fresh]
  have handed : List.Sublist (drainedItems history ++ (drainSection r).1)
      (producedItems history) := by
    refine List.Sublist.trans ?_ tracks.handedOver
    rw [got]
    exact (List.Sublist.refl _).append (lastN_suffix _ _).sublist
  have account := tracks.account
  have count : (drainSection r).1.length = r.ringCount := by simp [drainSection]
  refine ⟨tracks.wellFormed.drainSection, ?_, ?_, ?_, ?_, ?_, ?_, ?_⟩
  · rw [drainSection_buffered, sinceDrain_drained, lastN_nil]
  · rw [sinceDrain_drained]
    exact List.nil_suffix
  · rw [producedItems_drained]
    exact tracks.numbered
  · rw [producedItems_drained]
    exact tracks.nextSeq
  · rw [drainedItems_drained, sinceDrain_drained, List.append_nil, producedItems_drained]
    exact handed
  · exact drainsFresh_drained tracks.drains (by rw [lastN_min_length]; exact got)
  · rw [drainedItems_drained, List.length_append, count]
    simp only [drainSection]
    omega

theorem producedItems_ns (sections : List Section) :
    (producedItems (ringRun sections).2).map RingItem.ns = timestamps sections := by
  induction sections using List.reverseRecOn with
  | nil => rfl
  | append_singleton sections s ih =>
      rw [ringRun_concat]
      cases s with
      | produce ns => simp [sectionStep, ih, Ring.nextItem]
      | drain => simp [sectionStep, ih]

theorem ringRun_tracks (sections : List Section)
    (few : (timestamps sections).length < 2 ^ 64) :
    Tracks (ringRun sections).1 (ringRun sections).2 := by
  induction sections using List.reverseRecOn with
  | nil => exact tracks_initial
  | append_singleton sections s ih =>
      rw [ringRun_concat]
      cases s with
      | produce ns =>
          rw [timestamps_produce, List.length_append, List.length_singleton] at few
          apply (ih (by omega)).produce ns
          rw [← List.length_map (f := RingItem.ns), producedItems_ns]
          exact few
      | drain =>
          rw [timestamps_drain] at few
          exact (ih few).drain

/-! ## The ring as an overwriting FIFO of its history -/

/-- The reading of the ring as a bounded FIFO that overwrites its oldest item:
`k` items were produced since the last drain, the last `min 16 k` of them are
in the slots, and all others were handed over once or dropped. -/
structure FifoOfHistory (r : Ring) (history : List Event) : Prop where
  slots : r.buffered = lastN r.ringCount (producedItems history)
  seqs : r.buffered.map (fun item => item.seq.toNat) =
    List.range' (r.nextSeq.toNat - r.ringCount) r.ringCount
  times : r.buffered.Pairwise fun earlier later => earlier.ns ≤ later.ns
  drains : DrainsFresh history
  once : ((drainedItems history).map RingItem.seq).Nodup
  account : r.nextSeq.toNat =
    (drainedItems history).length + r.ringCount + r.droppedCount.toNat

theorem Tracks.slots {r : Ring} {history : List Event} (tracks : Tracks r history) :
    r.buffered = lastN r.ringCount (producedItems history) := by
  have suffix : r.buffered <:+ producedItems history := by
    rw [tracks.fresh]
    exact (lastN_suffix _ _).trans tracks.epochSuffix
  have exact_length := eq_lastN_of_suffix suffix
  rwa [buffered_length] at exact_length

theorem Tracks.seqs {r : Ring} {history : List Event} (tracks : Tracks r history) :
    r.buffered.map (fun item => item.seq.toNat) =
      List.range' (r.nextSeq.toNat - r.ringCount) r.ringCount := by
  have account := tracks.account
  rw [tracks.slots, lastN, List.map_drop, tracks.numbered, ← tracks.nextSeq,
    List.range_eq_range', List.drop_range']
  congr 1 <;> omega

theorem Tracks.once {r : Ring} {history : List Event} (tracks : Tracks r history) :
    ((drainedItems history).map RingItem.seq).Nodup := by
  have distinct : ((producedItems history).map fun item => item.seq.toNat).Nodup := by
    rw [tracks.numbered]
    exact List.nodup_range
  have handed : List.Sublist (drainedItems history) (producedItems history) :=
    (List.sublist_append_left _ _).trans tracks.handedOver
  have numbers := distinct.sublist (handed.map _)
  have factored : (drainedItems history).map (fun item => item.seq.toNat) =
      ((drainedItems history).map RingItem.seq).map UInt64.toNat := by
    rw [List.map_map]
    rfl
  rw [factored] at numbers
  exact List.Nodup.of_map _ numbers

/-- For every run of producer sections and drains, with a monotone clock and
fewer than `2^64` items, the ring is the overwriting FIFO of its history. -/
theorem ring_is_overwriting_fifo (sections : List Section)
    (monotone : (timestamps sections).Pairwise (· ≤ ·))
    (few : (timestamps sections).length < 2 ^ 64) :
    FifoOfHistory (ringRun sections).1 (ringRun sections).2 := by
  have tracks := ringRun_tracks sections few
  have sorted : ((producedItems (ringRun sections).2).map RingItem.ns).Pairwise (· ≤ ·) := by
    rw [producedItems_ns]
    exact monotone
  refine ⟨tracks.slots, tracks.seqs, ?_, tracks.drains, tracks.once, tracks.account⟩
  rw [tracks.slots]
  exact (List.pairwise_map.mp sorted).sublist (lastN_suffix _ _).sublist

/-- Seventeen productions overrun the ring by one before the drain. -/
theorem ring_overrun_then_drained :
    let sections := (List.range 17).map (fun i => Section.produce (UInt64.ofNat i)) ++ [.drain]
    FifoOfHistory (ringRun sections).1 (ringRun sections).2 :=
  ring_is_overwriting_fifo _ (by decide) (by decide)

end Kthreads
