import KernelLabs.Kernel.Kstrtox
import KernelLabs.Lib.LockWord

/-!
# The counters of `11_concurrency_locking/concurrency_locking.c`

`increment_once` and `reset_counters` as the sequences of their atomic accesses:
a read or a write of a shared variable, an atomic increment, the acquisition and
the release of a lock.  `counter_plain++` is a load and a store.  A lock that is
held leaves the step that wants it disabled, whether it spins or sleeps.
-/

set_option autoImplicit false

namespace RaceDemo

open Kernel LockWord

inductive RaceMode where
  | none
  | spinlock
  | mutex
  | atomic
  deriving DecidableEq, Repr

inductive Lock where
  | spinlock
  | mutex
  deriving DecidableEq, Repr

structure Shared where
  mode : RaceMode
  counterPlain : UInt64
  counterAtomic : UInt64
  counterSpinlock : Bool
  counterMutex : Bool
  resetCount : UInt64
  deriving DecidableEq, Repr

def Shared.held (shared : Shared) : Lock → Bool
  | .spinlock => shared.counterSpinlock
  | .mutex => shared.counterMutex

def Shared.setHeld (shared : Shared) (held : Bool) : Lock → Shared
  | .spinlock => { shared with counterSpinlock := held }
  | .mutex => { shared with counterMutex := held }

/-- The program points of `increment_once`; a local `tmp` is kept where the
increment has been loaded and not stored yet. -/
inductive IncPc where
  | readMode
  | racyLoad
  | racyStore (tmp : UInt64)
  | lock (own : Lock)
  | load (own : Lock)
  | store (own : Lock) (tmp : UInt64)
  | unlock (own : Lock)
  | atomicInc
  deriving DecidableEq, Repr

/-- One step of `increment_once`, without a next program point when it returns. -/
def incrementStep (shared : Shared) : IncPc → Option (Shared × Option IncPc)
  | .readMode =>
    match shared.mode with
    | .none => some (shared, some .racyLoad)
    | .spinlock => some (shared, some (.lock .spinlock))
    | .mutex => some (shared, some (.lock .mutex))
    | .atomic => some (shared, some .atomicInc)
  | .racyLoad => some (shared, some (.racyStore shared.counterPlain))
  | .racyStore tmp => some ({ shared with counterPlain := tmp + 1 }, none)
  | .lock own =>
    if shared.held own then none else some (shared.setHeld true own, some (.load own))
  | .load own => some (shared, some (.store own shared.counterPlain))
  | .store own tmp => some ({ shared with counterPlain := tmp + 1 }, some (.unlock own))
  | .unlock own => some (shared.setHeld false own, none)
  | .atomicInc => some ({ shared with counterAtomic := shared.counterAtomic + 1 }, none)

def currentCounterValue (shared : Shared) : UInt64 :=
  if shared.mode = .atomic then shared.counterAtomic else shared.counterPlain

inductive ResetPc where
  | lock
  | storePlain
  | unlock
  | setAtomic
  | loadCount
  | storeCount (tmp : UInt64)
  deriving DecidableEq, Repr

def resetStep (shared : Shared) : ResetPc → Option (Shared × Option ResetPc)
  | .lock =>
    if shared.held .spinlock then none else some (shared.setHeld true .spinlock, some .storePlain)
  | .storePlain => some ({ shared with counterPlain := 0 }, some .unlock)
  | .unlock => some (shared.setHeld false .spinlock, some .setAtomic)
  | .setAtomic => some ({ shared with counterAtomic := 0 }, some .loadCount)
  | .loadCount => some (shared, some (.storeCount shared.resetCount))
  | .storeCount tmp => some ({ shared with resetCount := tmp + 1 }, none)

/-! ## `race_write` and `mode_store` -/

def maxIncrementsPerWrite : Nat := 1000000

/-- A running `race_write`: its loop bound, the increments done, and where it
stands in the one under way. -/
structure RaceWrite where
  n : Nat
  i : Nat
  pc : IncPc
  deriving DecidableEq, Repr

inductive WriteProgress where
  | running (write : RaceWrite)
  | returned (n : Nat)
  deriving DecidableEq, Repr

/-- The test of the loop. -/
def raceLoop (n i : Nat) : WriteProgress :=
  if i < n then .running ⟨n, i, .readMode⟩ else .returned n

def raceWrite (count : Nat) : WriteProgress := raceLoop (min count maxIncrementsPerWrite) 0

def raceWriteStep (shared : Shared) (write : RaceWrite) : Option (Shared × WriteProgress) :=
  match incrementStep shared write.pc with
  | none => none
  | some (next, some pc) => some (next, .running { write with pc })
  | some (next, none) => some (next, raceLoop write.n (write.i + 1))

/-- What `mode_store` makes of the buffer sysfs hands it. -/
def parseMode (buf : Bytes) : Except Errno RaceMode :=
  match kstrtoint 0 (cstr buf) with
  | .error e => .error e
  | .ok value =>
    if value = 0 then .ok .none
    else if value = 1 then .ok .spinlock
    else if value = 2 then .ok .mutex
    else if value = 3 then .ok .atomic
    else .error .einval

/-! ## The accesses to `counter_plain` -/

/-- What the increment has loaded and not stored yet. -/
def IncPc.loaded : IncPc → Option UInt64
  | .racyStore tmp | .store _ tmp => some tmp
  | _ => none

/-- When the next step stores `counter_plain`: the lock held meanwhile, if any. -/
def IncPc.storesUnder : IncPc → Option (Option Lock)
  | .racyStore _ => some none
  | .store own _ => some (some own)
  | _ => none

/-- Between the acquisition and the release of the lock. -/
def IncPc.insideOf (own : Lock) : IncPc → Bool
  | .load taken | .store taken _ | .unlock taken => taken == own
  | _ => false

/-! ## What a step can do -/

theorem Shared.held_setHeld (shared : Shared) (held : Bool) (own : Lock) :
    (shared.setHeld held own).held own = held := by
  cases own <;> rfl

theorem Shared.held_setHeld_of_ne (shared : Shared) (held : Bool) {own taken : Lock}
    (differs : taken ≠ own) : (shared.setHeld held taken).held own = shared.held own := by
  cases own <;> cases taken <;> first | rfl | contradiction

theorem Shared.setHeld_keeps (shared : Shared) (held : Bool) (own : Lock) :
    (shared.setHeld held own).mode = shared.mode ∧
      (shared.setHeld held own).counterPlain = shared.counterPlain ∧
      (shared.setHeld held own).counterAtomic = shared.counterAtomic := by
  cases own <;> exact ⟨rfl, rfl, rfl⟩

theorem incrementStep_lock (own : Lock) {shared next : Shared} {pc : IncPc} {after : Option IncPc}
    (stepped : incrementStep shared pc = some (next, after)) :
    LockStep (shared.held own) (pc.insideOf own) (next.held own)
      (after.any (IncPc.insideOf own)) := by
  cases pc with
  | readMode =>
      simp only [incrementStep] at stepped
      split at stepped <;> cases stepped <;> exact .passes rfl rfl
  | racyLoad | racyStore tmp | load taken | store taken tmp | atomicInc =>
      cases stepped
      exact .passes (by cases own <;> rfl) rfl
  | lock taken =>
      simp only [incrementStep] at stepped
      split at stepped
      · contradiction
      · rename_i free
        cases stepped
        by_cases same : taken = own
        · subst same
          exact .acquires (Bool.eq_false_of_not_eq_true free) rfl (shared.held_setHeld true taken)
            (beq_self_eq_true taken)
        · exact .passes (shared.held_setHeld_of_ne true same) (beq_eq_false_iff_ne.mpr same)
  | unlock taken =>
      cases stepped
      by_cases same : taken = own
      · subst same
        exact .releases (beq_self_eq_true taken) (shared.held_setHeld false taken) rfl
      · exact .passes (shared.held_setHeld_of_ne false same) (beq_eq_false_iff_ne.mpr same).symm

/-- A step that does not store `counter_plain` leaves it; what a step loads is
its value, and a store leaves nothing loaded. -/
theorem incrementStep_loads {shared next : Shared} {pc : IncPc} {after : Option IncPc}
    (stepped : incrementStep shared pc = some (next, after)) :
    (pc.storesUnder = none ∧ next.counterPlain = shared.counterPlain ∧
        ∀ tmp ∈ after.bind IncPc.loaded, tmp = shared.counterPlain) ∨
      (pc.storesUnder.isSome ∧ after.bind IncPc.loaded = none) := by
  cases pc with
  | readMode =>
      simp only [incrementStep] at stepped
      split at stepped <;> cases stepped <;> exact Or.inl ⟨rfl, rfl, nofun⟩
  | racyLoad | load own =>
      cases stepped
      exact Or.inl ⟨rfl, rfl, fun tmp loaded => (Option.some.inj loaded).symm⟩
  | racyStore tmp | store own tmp =>
      cases stepped
      exact Or.inr ⟨rfl, rfl⟩
  | lock own =>
      simp only [incrementStep] at stepped
      split at stepped
      · contradiction
      · cases stepped
        exact Or.inl ⟨rfl, (shared.setHeld_keeps true own).2.1, nofun⟩
  | unlock own =>
      cases stepped
      exact Or.inl ⟨rfl, (shared.setHeld_keeps false own).2.1, nofun⟩
  | atomicInc =>
      cases stepped
      exact Or.inl ⟨rfl, rfl, nofun⟩

theorem raceWriteStep_eq_some {shared next : Shared} {write : RaceWrite} {after : WriteProgress}
    (stepped : raceWriteStep shared write = some (next, after)) :
    (∃ pc, incrementStep shared write.pc = some (next, some pc) ∧
        after = .running { write with pc }) ∨
      (incrementStep shared write.pc = some (next, none) ∧
        after = raceLoop write.n (write.i + 1)) := by
  unfold raceWriteStep at stepped
  split at stepped
  · contradiction
  · rename_i own pc moved
    cases stepped
    exact Or.inl ⟨pc, moved, rfl⟩
  · rename_i own moved
    cases stepped
    exact Or.inr ⟨moved, rfl⟩

end RaceDemo
