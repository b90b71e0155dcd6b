import KernelLabs.Kernel.Kstrtox
import KernelLabs.Kernel.UserCopy
import KernelLabs.Lib.LockWord
import KernelLabs.Lib.Observer
import KernelLabs.Lib.Pool

/-!
# `counter` and `enabled`, exposed two ways

The sysfs attributes and debugfs's `info` take `data_lock`; `counter_raw` and
`enabled_raw` are bound to the variables themselves, and a write to one is a
plain store that takes no lock.  Any number of calls run at once, one access of
the variables a step; `counter++` is a load and a store.
-/

set_option autoImplicit false

namespace DebugfsSysfs

open Kernel LabelledMachine PartyPool LockWord

structure Shared where
  counter : UInt32
  enabled : Bool
  dataLock : Bool
  deriving DecidableEq, Repr

def Shared.initial : Shared := ⟨0, true, false⟩

def counterText (value : UInt32) : Bytes := decimal value.toNat ++ ascii "\n"

def enabledText (value : Bool) : Bytes := decimal value.toNat ++ ascii "\n"

/-- `info_read` formats into 128 bytes. -/
def infoText (c : UInt32) (e : Bool) : Bytes :=
  scnprintf 128
    (ascii "counter=" ++ decimal c.toNat ++ ascii "\nenabled=" ++ decimal e.toNat ++
      ascii "\nNOTE: this file has no ABI stability guarantee\n")

inductive Result where
  | counterShown (text : Bytes)
  | enabledShown (text : Bytes)
  | stored (count : Nat)
  -- `increment_store` returns `count`, and logs `value`.
  | incremented (value : UInt32) (count : Nat)
  | info (c : UInt32) (e : Bool) (outcome : Except Errno (Bytes × Nat))
  | failed (e : Errno)

/-- What a call does once it holds `data_lock`. -/
inductive Section where
  | counterShow
  | enabledShow
  | enabledStore (value : Bool) (count : Nat)
  | increment (count : Nat)
  | infoRead (count ppos missing : Nat)
  deriving DecidableEq, Repr

inductive Pc where
  | lock (body : Section)
  | inside (body : Section)
  -- `counter++` has loaded, and will store `tmp + 1`.
  | incStore (tmp : UInt32) (count : Nat)
  | incValue (count : Nat)
  | infoEnabled (c : UInt32) (count ppos missing : Nat)
  | unlock (result : Result)
  | done (result : Result)
  -- The raw files of debugfs, once the text written is parsed.
  | rawCounter (value : UInt32) (count : Nat)
  | rawEnabled (value : Bool) (count : Nat)

def Pc.holds : Pc → Bool
  | .inside _ | .incStore _ _ | .incValue _ | .infoEnabled _ _ _ _ | .unlock _ => true
  | .lock _ | .done _ | .rawCounter _ _ | .rawEnabled _ _ => false

/-- The first access of the variables after `mutex_lock`. -/
def sectionStep (shared : Shared) : Section → Shared × Pc
  | .counterShow => (shared, .unlock (.counterShown (counterText shared.counter)))
  | .enabledShow => (shared, .unlock (.enabledShown (enabledText shared.enabled)))
  | .enabledStore value count => ({ shared with enabled := value }, .unlock (.stored count))
  | .increment count => (shared, .incStore shared.counter count)
  | .infoRead count ppos missing => (shared, .infoEnabled shared.counter count ppos missing)

def callStep (_i : Nat) (_ : Unit) (shared : Shared) : Pc → Option (Shared × Pc)
  | .lock body =>
    if shared.dataLock then none else some ({ shared with dataLock := true }, .inside body)
  | .inside body => some (sectionStep shared body)
  | .incStore tmp count => some ({ shared with counter := tmp + 1 }, .incValue count)
  | .incValue count => some (shared, .unlock (.incremented shared.counter count))
  | .infoEnabled c count ppos missing =>
    let e := shared.enabled
    some (shared,
      .unlock (.info c e (simpleReadFromBuffer count ppos (infoText c e) missing)))
  | .unlock result => some ({ shared with dataLock := false }, .done result)
  | .rawCounter value count => some ({ shared with counter := value }, .done (.stored count))
  | .rawEnabled value count => some ({ shared with enabled := value }, .done (.stored count))
  | .done _ => none

/-- What user space can ask for. -/
inductive Request where
  | counterShow
  | enabledShow
  | enabledStore (buf : Bytes)
  | incrementStore (buf : Bytes)
  | infoRead (count ppos missing : Nat)
  | counterRaw (value : UInt32) (count : Nat)
  | enabledRaw (value : Bool) (count : Nat)
  deriving DecidableEq, Repr

def Request.enter : Request → Pc
  | .counterShow => .lock .counterShow
  | .enabledShow => .lock .enabledShow
  | .enabledStore buf =>
    match kstrtobool buf with
    | .error e => .done (.failed e)
    | .ok value => .lock (.enabledStore value buf.length)
  | .incrementStore buf => .lock (.increment buf.length)
  | .infoRead count ppos missing => .lock (.infoRead count ppos missing)
  | .counterRaw value count => .rawCounter value count
  | .enabledRaw value count => .rawEnabled value count

def Request.raw : Request → Bool
  | .counterRaw _ _ | .enabledRaw _ _ => true
  | _ => false

abbrev System := Pool Shared Pc

def System.initial : System := ⟨Shared.initial, []⟩

inductive Act where
  | call (request : Request)
  | run (i : Nat)
  deriving DecidableEq, Repr

def step (s : System) : Act → Option System
  | .call request => some (s.spawn request.enter)
  | .run i => s.act callStep i ()

theorem enter_outside (request : Request) : request.enter.holds = false := by
  cases request with
  | enabledStore buf =>
      simp only [Request.enter]
      split <;> rfl
  | counterShow | enabledShow | incrementStore buf | infoRead count ppos missing
  | counterRaw value count | enabledRaw value count => rfl

theorem sectionStep_locked (shared : Shared) (body : Section) :
    (sectionStep shared body).1.dataLock = shared.dataLock ∧
      (sectionStep shared body).2.holds = true := by
  cases body <;> exact ⟨rfl, rfl⟩

theorem callStep_lockStep {i : Nat} {shared next : Shared} {pc moved : Pc}
    (stepped : callStep i () shared pc = some (next, moved)) :
    LockStep shared.dataLock pc.holds next.dataLock moved.holds := by
  cases pc with
  | lock body =>
      simp only [callStep] at stepped
      split at stepped
      · contradiction
      · rename_i unlocked
        cases stepped
        exact .acquires (Bool.eq_false_of_not_eq_true unlocked) rfl rfl rfl
  | inside body =>
      have accessed : sectionStep shared body = (next, moved) := Option.some.inj stepped
      have kept := sectionStep_locked shared body
      rw [accessed] at kept
      exact .passes kept.1 kept.2
  | unlock result =>
      cases stepped
      exact .releases rfl rfl rfl
  | incStore tmp count | incValue count | infoEnabled c count ppos missing
  | rawCounter value count | rawEnabled value count =>
      cases stepped
      exact .passes rfl rfl
  | done result => contradiction

theorem exclusive_step {s next : System} {act : Act}
    (exclusive : Exclusive s.shared.dataLock (s.parties.countP Pc.holds))
    (stepped : step s act = some next) :
    Exclusive next.shared.dataLock (next.parties.countP Pc.holds) := by
  cases act with
  | call request =>
      cases stepped
      rwa [Pool.spawn, List.countP_append, List.countP_singleton, enter_outside, if_neg nofun]
  | run i =>
      obtain ⟨pc, shared, moved, found, own, rfl⟩ := Pool.act_eq_some stepped
      exact exclusive.step (callStep_lockStep own) (countP_set_add Pc.holds moved found)

end DebugfsSysfs
