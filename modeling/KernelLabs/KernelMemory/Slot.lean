import KernelLabs.Kernel.Kstrtox

/-!
# The allocation slot of `13_kernel_memory/kernel_memory.c`

The variables under `state_lock` and the two functions that change them.  The
heap is the list of the allocations `do_allocate` has obtained; a pointer is a
place in it, and a freed allocation stays there marked dead.

What the allocators answer is input: whether they return a pointer, the size
`ksize` reports, and the two readings of the clock.
-/

set_option autoImplicit false

namespace KernelMemory

open Kernel

inductive AllocType where
  | none
  | kmalloc
  | vmalloc
  | cache
  deriving DecidableEq, Repr

def cacheObjSize : UInt64 := 128

/-- An allocation of one of the three allocators. -/
structure Object where
  type : AllocType
  live : Bool
  deriving DecidableEq, Repr

structure Slot where
  curType : AllocType
  curPtr : Option Nat
  curRequestedSize : UInt64
  curActualSize : UInt64
  curAllocNs : UInt64
  curFreeNs : UInt64
  statsAllocOk : UInt64
  statsAllocFail : UInt64
  statsFreeCount : UInt64
  heap : List Object
  deriving DecidableEq, Repr

def Slot.initial : Slot := ⟨.none, none, 0, 0, 0, 0, 0, 0, 0, []⟩

structure Clock where
  t0 : UInt64
  t1 : UInt64
  deriving DecidableEq, Repr

/-- What the allocator and the clock answer during one section. -/
structure Answer where
  clock : Clock
  succeeds : Bool
  ksize : UInt64
  deriving DecidableEq, Repr

/-- The locked section of `do_allocate`. -/
def doAllocate (type : AllocType) (size : UInt64) (answer : Answer) (slot : Slot) :
    Except Errno Unit × Slot :=
  if slot.curType ≠ .none then (.error .ebusy, slot)
  else
    let size := if type = .cache then cacheObjSize else size
    if type = .none then (.error .einval, slot)
    else if answer.succeeds then
      (.ok (), { slot with
        curType := type
        curPtr := some slot.heap.length
        curRequestedSize := size
        curActualSize := if type = .kmalloc then answer.ksize else size
        curAllocNs := answer.clock.t1 - answer.clock.t0
        statsAllocOk := slot.statsAllocOk + 1
        heap := slot.heap ++ [⟨type, true⟩] })
    else (.error .enomem, { slot with statsAllocFail := slot.statsAllocFail + 1 })

/-- `kfree`, `vfree` or `kmem_cache_free` of a pointer. -/
def release (heap : List Object) (ptr : Option Nat) : List Object :=
  match ptr with
  | none => heap
  | some place => heap.modify place fun obj => { obj with live := false }

/-- The locked section of `do_free`. -/
def doFree (clock : Clock) (slot : Slot) : Except Errno Unit × Slot :=
  if slot.curType = .none then (.error .enoent, slot)
  else
    (.ok (), { slot with
      heap := release slot.heap slot.curPtr
      curFreeNs := clock.t1 - clock.t0
      statsFreeCount := slot.statsFreeCount + 1
      curType := .none
      curPtr := none })

/-- What `allocate_store` makes of the bytes written, before `do_allocate`. -/
def parseAllocate (buf : Bytes) : Except Errno (AllocType × UInt64) :=
  if buf.length = 0 ∨ 32 ≤ buf.length then .error .e2big
  else
    let cmd := strim (cstr buf)
    if 32 ∉ cmd then .error .einval
    else
      let name := cmd.takeWhile (· != 32)
      let sizeStr := (cmd.dropWhile (· != 32)).drop 1
      let type :=
        if sysfsStreq name (ascii "kmalloc") then some AllocType.kmalloc
        else if sysfsStreq name (ascii "vmalloc") then some .vmalloc
        else if sysfsStreq name (ascii "cache") then some .cache
        else none
      match type with
      | none => .error .einval
      | some type =>
        match kstrtoul 0 (strim sizeStr) with
        | .error e => .error e
        | .ok size => .ok (type, size)

/-! ## The slot accounts for the heap -/

/-- The tracked allocation is the only live one. -/
structure Slot.Accounts (slot : Slot) : Prop where
  tracked : slot.curType ≠ .none → ∃ place, slot.curPtr = some place ∧
    slot.heap[place]? = some ⟨slot.curType, true⟩
  single : ∀ place obj, slot.heap[place]? = some obj → obj.live = true →
    slot.curType ≠ .none ∧ slot.curPtr = some place

theorem accounts_initial : Slot.initial.Accounts :=
  ⟨fun used => absurd rfl used, nofun⟩

theorem doAllocate_cases (type : AllocType) (size : UInt64) (answer : Answer) (slot : Slot) :
    ((doAllocate type size answer slot).2.curType = slot.curType ∧
        (doAllocate type size answer slot).2.curPtr = slot.curPtr ∧
        (doAllocate type size answer slot).2.heap = slot.heap) ∨
      (slot.curType = .none ∧ type ≠ .none ∧
        (doAllocate type size answer slot).2.curType = type ∧
        (doAllocate type size answer slot).2.curPtr = some slot.heap.length ∧
        (doAllocate type size answer slot).2.heap = slot.heap ++ [⟨type, true⟩]) := by
  unfold doAllocate
  by_cases used : slot.curType ≠ .none
  · rw [if_pos used]
    exact Or.inl ⟨rfl, rfl, rfl⟩
  · rw [if_neg used]
    dsimp only
    by_cases invalid : type = .none
    · rw [if_pos invalid]
      exact Or.inl ⟨rfl, rfl, rfl⟩
    · rw [if_neg invalid]
      cases answer.succeeds with
      | true => exact Or.inr ⟨not_not.mp used, invalid, rfl, rfl, rfl⟩
      | false => exact Or.inl ⟨rfl, rfl, rfl⟩

theorem Slot.Accounts.doAllocate {slot : Slot} (accounts : slot.Accounts) (type : AllocType)
    (size : UInt64) (answer : Answer) :
    (KernelMemory.doAllocate type size answer slot).2.Accounts := by
  rcases doAllocate_cases type size answer slot with
    ⟨sameType, samePtr, sameHeap⟩ | ⟨free, valid, newType, newPtr, newHeap⟩
  · constructor <;> rw [sameType, samePtr, sameHeap]
    · exact accounts.tracked
    · exact accounts.single
  · constructor <;> rw [newType, newPtr, newHeap]
    · exact fun _ => ⟨slot.heap.length, rfl, by simp⟩
    · intro place obj found live
      refine ⟨valid, ?_⟩
      rcases Nat.lt_or_ge place slot.heap.length with old | new
      · rw [List.getElem?_append_left old] at found
        exact absurd free (accounts.single place obj found live).1
      · rw [List.getElem?_append_right new] at found
        obtain ⟨bound, _⟩ := List.getElem?_eq_some_iff.mp found
        rw [List.length_singleton] at bound
        exact congrArg some (by omega)

/-- Whatever was allocated, `do_free` leaves nothing live. -/
theorem doFree_empties {slot : Slot} (accounts : slot.Accounts) (clock : Clock) :
    (doFree clock slot).2.curType = .none ∧ (doFree clock slot).2.Accounts := by
  by_cases unused : slot.curType = .none
  · rw [doFree, if_pos unused]
    exact ⟨unused, accounts⟩
  · obtain ⟨place, ptr, here⟩ := accounts.tracked unused
    rw [doFree, if_neg unused]
    refine ⟨rfl, fun used => absurd rfl used, ?_⟩
    intro other obj found live
    rw [ptr, release, List.getElem?_modify] at found
    obtain ⟨old, oldFound, rfl⟩ := Option.map_eq_some_iff.mp found
    by_cases same : place = other
    · simp [same] at live
    · rw [if_neg same] at live
      have own := (accounts.single other old oldFound live).2
      exact absurd (Option.some.inj (ptr.symm.trans own)) same

theorem Slot.Accounts.live_iff {slot : Slot} (accounts : slot.Accounts) :
    (∃ obj ∈ slot.heap, obj.live = true) ↔ slot.curType ≠ .none := by
  constructor
  · rintro ⟨obj, member, live⟩
    obtain ⟨place, found⟩ := List.mem_iff_getElem?.mp member
    exact (accounts.single place obj found live).1
  · intro used
    obtain ⟨place, _, found⟩ := accounts.tracked used
    exact ⟨_, List.mem_of_getElem? found, rfl⟩

end KernelMemory
