import KernelLabs.KernelMemory.Slot
import KernelLabs.Lib.Pool
import KernelLabs.Lib.Tally

/-!
# The discipline of the allocation slot

A run is any sequence of `do_allocate` and `do_free` calls, each of which is one
section under `state_lock`.  Every pointer that an allocator returned is in the
slot until `do_free` hands it to the deallocator of the same family, once.
-/

set_option autoImplicit false

namespace KernelMemory

open Kernel LabelledMachine PartyPool

inductive Op where
  | allocate (type : AllocType) (size : UInt64) (answer : Answer)
  | free (clock : Clock)
  deriving DecidableEq, Repr

def Op.exec (op : Op) (slot : Slot) : Except Errno Unit × Slot :=
  match op with
  | .allocate type size answer => doAllocate type size answer slot
  | .free clock => doFree clock slot

def slotStep (slot : Slot) (op : Op) : Option Slot := some (op.exec slot).2

inductive Deallocator where
  | kfree
  | vfree
  | kmemCacheFree
  deriving DecidableEq, Repr

/-- The deallocator that belongs to an allocator. -/
def AllocType.deallocator : AllocType → Option Deallocator
  | .none => Option.none
  | .kmalloc => some .kfree
  | .vmalloc => some .vfree
  | .cache => some .kmemCacheFree

/-- The call that the `switch` of `do_free` makes, with its pointer. -/
def deallocation (slot : Slot) : Op → Option (Deallocator × Option Nat)
  | .allocate _ _ _ => none
  | .free _ =>
    match slot.curType with
    | .none => none
    | .kmalloc => some (.kfree, slot.curPtr)
    | .vmalloc => some (.vfree, slot.curPtr)
    | .cache => some (.kmemCacheFree, slot.curPtr)

/-- A deallocator gets a pointer that its allocator returned and that nobody has
freed. -/
def FreesMatch (slot : Slot) (op : Op) : Prop :=
  ∀ deallocator ptr, deallocation slot op = some (deallocator, ptr) →
    ∃ place obj, ptr = some place ∧ slot.heap[place]? = some obj ∧ obj.live = true ∧
      obj.type.deallocator = some deallocator

/-- The step frees what stands at `place`. -/
def freesOf (place : Nat) (slot : Slot) (op : Op) : Nat :=
  if (deallocation slot op).map Prod.snd = some (some place) then 1 else 0

def Slot.taken (slot : Slot) : UInt64 := if slot.curType = .none then 0 else 1

/-- What every call keeps. -/
structure Disciplined (slot : Slot) : Prop where
  accounts : slot.Accounts
  counted : slot.statsAllocOk = slot.taken + slot.statsFreeCount

theorem disciplined_initial : Disciplined Slot.initial := ⟨accounts_initial, rfl⟩

/-! ## The two calls -/

/-- `do_free` marks the pointer of its deallocation, and no other. -/
theorem exec_free_heap (clock : Clock) (slot : Slot) :
    ((Op.free clock).exec slot).2.heap =
      match deallocation slot (.free clock) with
      | none => slot.heap
      | some (_, ptr) => release slot.heap ptr := by
  simp only [Op.exec, doFree, deallocation]
  cases slot.curType <;> rfl

theorem doAllocate_ok {type : AllocType} (size : UInt64) {answer : Answer} {slot : Slot}
    (free : slot.curType = .none) (valid : type ≠ .none) (succeeds : answer.succeeds = true) :
    (doAllocate type size answer slot).1 = .ok () ∧
      (doAllocate type size answer slot).2.curType = type ∧
      (doAllocate type size answer slot).2.heap = slot.heap ++ [⟨type, true⟩] ∧
      (doAllocate type size answer slot).2.statsAllocOk = slot.statsAllocOk + 1 ∧
      (doAllocate type size answer slot).2.statsFreeCount = slot.statsFreeCount := by
  rw [doAllocate, if_neg (not_not.mpr free)]
  dsimp only
  rw [if_neg valid, if_pos succeeds]
  exact ⟨rfl, rfl, rfl, rfl, rfl⟩

/-- A call that fails changes nothing but the count of failed allocations. -/
theorem doAllocate_error {type : AllocType} (size : UInt64) {answer : Answer} {slot : Slot}
    (fails : ¬ (slot.curType = .none ∧ type ≠ .none ∧ answer.succeeds = true)) :
    (∃ e, e ∈ [Errno.ebusy, .einval] ∧ doAllocate type size answer slot = (.error e, slot)) ∨
      doAllocate type size answer slot =
        (.error .enomem, { slot with statsAllocFail := slot.statsAllocFail + 1 }) := by
  unfold doAllocate
  split
  · exact Or.inl ⟨.ebusy, by simp, rfl⟩
  · rename_i free
    dsimp only
    split
    · exact Or.inl ⟨.einval, by simp, rfl⟩
    · rename_i valid
      split
      · rename_i succeeds
        exact absurd ⟨not_not.mp free, valid, succeeds⟩ fails
      · exact Or.inr rfl

theorem exec_disciplined {slot : Slot} (disciplined : Disciplined slot) (op : Op) :
    Disciplined (op.exec slot).2 := by
  obtain ⟨accounts, counted⟩ := disciplined
  cases op with
  | allocate type size answer =>
      refine ⟨accounts.doAllocate type size answer, ?_⟩
      simp only [Op.exec]
      by_cases works : slot.curType = .none ∧ type ≠ .none ∧ answer.succeeds = true
      · obtain ⟨free, valid, succeeds⟩ := works
        obtain ⟨_, newType, _, ok, freed⟩ := doAllocate_ok size free valid succeeds
        rw [Slot.taken, newType, if_neg valid, ok, freed, counted, Slot.taken, if_pos free,
          UInt64.zero_add, UInt64.add_comm]
      · rcases doAllocate_error size works with ⟨e, _, same⟩ | same
        · rw [same]
          exact counted
        · rw [same]
          exact counted
  | free clock =>
      refine ⟨(doFree_empties accounts clock).2, ?_⟩
      simp only [Op.exec]
      by_cases free : slot.curType = .none
      · rw [doFree, if_pos free]
        exact counted
      · rw [doFree, if_neg free]
        show slot.statsAllocOk = 0 + (slot.statsFreeCount + 1)
        rw [counted, Slot.taken, if_neg free, UInt64.zero_add, UInt64.add_comm]

theorem step_disciplined (slot : Slot) (op : Op) (next : Slot) (disciplined : Disciplined slot)
    (stepped : slotStep slot op = some next) : Disciplined next := by
  cases stepped
  exact exec_disciplined disciplined op

/-! ## The pointers -/

/-- One for a pointer that is not freed, or that no allocator has returned yet. -/
def Slot.unfreed (place : Nat) (slot : Slot) : Nat :=
  match slot.heap[place]? with
  | none => 1
  | some obj => if obj.live then 1 else 0

theorem deallocation_of_taken {slot : Slot} (disciplined : Disciplined slot) (clock : Clock)
    (taken : slot.curType ≠ .none) :
    ∃ deallocator place, deallocation slot (.free clock) = some (deallocator, some place) ∧
      slot.curPtr = some place ∧ slot.heap[place]? = some ⟨slot.curType, true⟩ ∧
      slot.curType.deallocator = some deallocator := by
  obtain ⟨place, ptr, here⟩ := disciplined.accounts.tracked taken
  cases type : slot.curType with
  | none => exact absurd type taken
  | kmalloc | vmalloc | cache =>
      refine ⟨_, place, ?_, ptr, type ▸ here, rfl⟩
      simp only [deallocation, type, ptr]

theorem frees_match {slot : Slot} (disciplined : Disciplined slot) (op : Op) :
    FreesMatch slot op := by
  intro deallocator ptr called
  cases op with
  | allocate type size answer => contradiction
  | free clock =>
      have taken : slot.curType ≠ .none := by
        intro free
        simp only [deallocation, free] at called
        contradiction
      obtain ⟨own, place, call, _, here, belongs⟩ := deallocation_of_taken disciplined clock taken
      cases Option.some.inj (call.symm.trans called)
      exact ⟨place, _, rfl, here, rfl, belongs⟩

theorem step_unfreed (place : Nat) (slot : Slot) (op : Op) (next : Slot)
    (disciplined : Disciplined slot) (stepped : slotStep slot op = some next) :
    freesOf place slot op + next.unfreed place = slot.unfreed place + 0 := by
  cases stepped
  cases op with
  | allocate type size answer =>
      have freesNone : freesOf place slot (.allocate type size answer) = 0 := rfl
      rw [freesNone, Nat.zero_add, Nat.add_zero]
      simp only [Op.exec]
      by_cases works : slot.curType = .none ∧ type ≠ .none ∧ answer.succeeds = true
      · obtain ⟨free, valid, succeeds⟩ := works
        obtain ⟨_, _, heap, _⟩ := doAllocate_ok size free valid succeeds
        rw [Slot.unfreed, Slot.unfreed, heap]
        by_cases old : place < slot.heap.length
        · rw [List.getElem?_append_left old]
        · have beyond := Nat.not_lt.mp old
          rw [List.getElem?_append_right beyond, List.getElem?_eq_none_iff.mpr beyond]
          cases place - slot.heap.length <;> rfl
      · rcases doAllocate_error size works with ⟨e, _, same⟩ | same
        · rw [same]
        · rw [same]
          rfl
  | free clock =>
      by_cases taken : slot.curType = .none
      · have nothing : freesOf place slot (.free clock) = 0 := by
          simp only [freesOf, deallocation, taken]
          rfl
        rw [nothing, Op.exec, doFree, if_pos taken, Nat.zero_add, Nat.add_zero]
      · obtain ⟨own, current, call, _, here, _⟩ := deallocation_of_taken disciplined clock taken
        have heap := exec_free_heap clock slot
        rw [call] at heap
        dsimp only [release] at heap
        rw [Slot.unfreed, heap, freesOf, call, List.getElem?_modify, Slot.unfreed]
        by_cases same : current = place
        · subst same
          rw [here]
          simp
        · simp [same]

theorem reachable_disciplined {ops : List Op} {slot : Slot}
    (ran : run slotStep Slot.initial ops = some slot) : Disciplined slot :=
  invariant_run step_disciplined disciplined_initial ran

theorem frees_add_unfreed {ops : List Op} {slot : Slot}
    (ran : run slotStep Slot.initial ops = some slot) (place : Nat) :
    tally slotStep (freesOf place) Slot.initial ops + slot.unfreed place = 1 := by
  have law := tally_add_potential_eq step_disciplined (step_unfreed place) disciplined_initial ran
  rw [tally_zero] at law
  exact law

/-- A pointer that was returned and not freed is the one in the slot. -/
theorem held_until_freed {ops : List Op} {slot : Slot}
    (ran : run slotStep Slot.initial ops = some slot) {place : Nat}
    (returned : place < slot.heap.length)
    (unfreed : tally slotStep (freesOf place) Slot.initial ops = 0) :
    slot.curPtr = some place := by
  have law := frees_add_unfreed ran place
  have here := List.getElem?_eq_getElem returned
  rw [unfreed, Slot.unfreed, here] at law
  have live : slot.heap[place].live = true := by
    by_contra dead
    simp [dead] at law
  exact ((reachable_disciplined ran).accounts.single place _ here live).2

/-! ## The slot -/

/-- One allocation is live, and it is the one at `cur_ptr`. -/
def Slot.HoldsOne (slot : Slot) : Prop :=
  slot.heap.countP Object.live = 1 ∧ ∃ place obj, slot.curPtr = some place ∧
    slot.heap[place]? = some obj ∧ obj.live = true ∧ obj.type = slot.curType

theorem taken_iff_holdsOne {slot : Slot} (disciplined : Disciplined slot) :
    slot.curType ≠ .none ↔ slot.HoldsOne := by
  have accounts := disciplined.accounts
  constructor
  · intro taken
    obtain ⟨place, ptr, here⟩ := accounts.tracked taken
    refine ⟨?_, place, _, ptr, here, rfl, rfl⟩
    -- without the tracked allocation nothing is live
    have counted := countP_set_add Object.live (⟨slot.curType, false⟩ : Object) here
    have others : (slot.heap.set place ⟨slot.curType, false⟩).countP Object.live = 0 := by
      refine List.countP_eq_zero.mpr fun obj member live => ?_
      obtain ⟨other, found⟩ := List.mem_iff_getElem?.mp member
      rcases getElem?_set_cases found with ⟨_, rfl⟩ | ⟨differs, old⟩
      · exact Bool.false_ne_true live
      · have own := (accounts.single other obj old live).2
        exact differs (Option.some.inj (own.symm.trans ptr))
    rw [others] at counted
    exact counted.symm
  · rintro ⟨_, place, obj, _, here, live, _⟩
    exact (accounts.single place obj here live).1

theorem counters_difference {slot : Slot} (disciplined : Disciplined slot) :
    slot.statsAllocOk - slot.statsFreeCount = if slot.curType = .none then 0 else 1 := by
  rw [disciplined.counted, UInt64.add_sub_cancel]
  rfl

/-- What a failing call leaves behind. -/
def Unchanged (slot : Slot) (e : Errno) (next : Slot) : Prop :=
  (e ∈ [Errno.ebusy, .enoent, .einval] ∧ next = slot) ∨
    (e = .enomem ∧ next = { slot with statsAllocFail := slot.statsAllocFail + 1 })

theorem exec_error {slot : Slot} {op : Op} {e : Errno} (failed : (op.exec slot).1 = .error e) :
    Unchanged slot e (op.exec slot).2 := by
  cases op with
  | allocate type size answer =>
      simp only [Op.exec] at failed ⊢
      by_cases works : slot.curType = .none ∧ type ≠ .none ∧ answer.succeeds = true
      · rw [(doAllocate_ok size works.1 works.2.1 works.2.2).1] at failed
        cases failed
      · rcases doAllocate_error size works with ⟨own, listed, same⟩ | same
        · rw [same] at failed ⊢
          cases failed
          refine Or.inl ⟨?_, rfl⟩
          rcases List.mem_pair.mp listed with rfl | rfl <;> decide
        · rw [same] at failed ⊢
          cases failed
          exact Or.inr ⟨rfl, rfl⟩
  | free clock =>
      simp only [Op.exec] at failed ⊢
      by_cases free : slot.curType = .none
      · rw [doFree, if_pos free] at failed ⊢
        cases failed
        exact Or.inl ⟨by decide, rfl⟩
      · rw [doFree, if_neg free] at failed
        cases failed

/-- **The slot discipline.** After every sequence of calls: the slot is taken
exactly when one allocation is live, and `cur_ptr` is that one; the counters
differ by what is taken; every pointer is freed at most once, by the deallocator
of its allocator, and stays in `cur_ptr` until then; a taken slot rejects an
allocation; and what a failing call leaves is what it found. -/
theorem slot_discipline (ops : List Op) (slot : Slot)
    (ran : run slotStep Slot.initial ops = some slot) :
    (slot.curType ≠ .none ↔ slot.HoldsOne) ∧
      (slot.statsAllocOk - slot.statsFreeCount = if slot.curType = .none then 0 else 1) ∧
      (∀ place, tally slotStep (freesOf place) Slot.initial ops ≤ 1) ∧
      Meets slotStep FreesMatch Slot.initial ops ∧
      (∀ place < slot.heap.length, tally slotStep (freesOf place) Slot.initial ops = 0 →
        slot.curPtr = some place) ∧
      (slot.curType ≠ .none →
        ∀ type size answer, doAllocate type size answer slot = (.error .ebusy, slot)) ∧
      ∀ (op : Op) (e : Errno), (op.exec slot).1 = .error e → Unchanged slot e (op.exec slot).2 := by
  have disciplined := reachable_disciplined ran
  refine ⟨taken_iff_holdsOne disciplined, counters_difference disciplined, fun place => ?_,
    meets_of_invariant step_disciplined (fun _ op kept => frees_match kept op)
      disciplined_initial ops,
    fun place returned unfreed => held_until_freed ran returned unfreed,
    fun taken type size answer => if_pos taken, fun op e failed => exec_error failed⟩
  have law := frees_add_unfreed ran place
  omega

/-- `kmalloc(0)` answers with a token; a second request is turned down. -/
theorem slot_discipline_of_token :
    let ops := [.allocate .kmalloc 0 ⟨⟨0, 1⟩, true, 0⟩, .allocate .cache 1 ⟨⟨2, 3⟩, true, 128⟩,
      .free ⟨4, 5⟩, .free ⟨6, 7⟩]
    ∃ slot, run slotStep Slot.initial ops = some slot ∧
      (slot.curType ≠ .none ↔ slot.HoldsOne) ∧
      slot.statsAllocOk - slot.statsFreeCount = 0 ∧
      tally slotStep (freesOf 0) Slot.initial ops ≤ 1 :=
  have discipline := slot_discipline [.allocate .kmalloc 0 ⟨⟨0, 1⟩, true, 0⟩,
    .allocate .cache 1 ⟨⟨2, 3⟩, true, 128⟩, .free ⟨4, 5⟩, .free ⟨6, 7⟩] _ rfl
  ⟨_, rfl, discipline.1, discipline.2.1, discipline.2.2.1 0⟩

end KernelMemory
