import KernelLabs.KernelMemory.Slot
import KernelLabs.Lib.Machine
import KernelLabs.Lib.Pool

/-!
# `kernel_memory_exit` against the writers of its control files

Exit looks at `cur_type` and frees what it finds first, and removes the control
files after that.  A write that is already running, or begins in between, can
allocate once more; the removal waits for it and nobody frees what it left.

The kernel's part: `sysfs_remove_group` waits for the running stores, and after
it no store begins; an open file does not keep the module loaded.
-/

set_option autoImplicit false

namespace KernelMemory

open Kernel LabelledMachine PartyPool

/-- How far `kernel_memory_exit` has come. -/
inductive Phase where
  | loaded
  -- It found an allocation and calls `do_free`.
  | freeing
  | removingGroup
  | groupRemoved
  | kobjectPut
  | cacheDestroyed
  | returned
  deriving DecidableEq, Repr

/-- `sysfs_remove_group` has completed. -/
def Phase.groupGone : Phase → Bool
  | .loaded | .freeing | .removingGroup => false
  | _ => true

structure Shared where
  slot : Slot
  phase : Phase
  deriving DecidableEq, Repr

inductive CallPc where
  | doAllocate (type : AllocType) (size : UInt64)
  | doFree
  | done (ret : Int)
  deriving DecidableEq, Repr

/-- A running `allocate_store` or `free_store` with the `count` of its write. -/
structure Call where
  count : Nat
  pc : CallPc
  deriving DecidableEq, Repr

def Call.finished (call : Call) : Bool :=
  match call.pc with
  | .done _ => true
  | _ => false

def enterAllocate (buf : Bytes) : CallPc :=
  match parseAllocate buf with
  | .error e => .done e.code
  | .ok (type, size) => .doAllocate type size

def storeResult (ret : Except Errno Unit) (count : Nat) : CallPc :=
  match ret with
  | .error e => .done e.code
  | .ok () => .done count

def callStep (_i : Nat) (answer : Answer) (shared : Shared) (call : Call) :
    Option (Shared × Call) :=
  match call.pc with
  | .doAllocate type size =>
    let (ret, slot) := doAllocate type size answer shared.slot
    some ({ shared with slot }, { call with pc := storeResult ret call.count })
  | .doFree =>
    let (ret, slot) := doFree answer.clock shared.slot
    some ({ shared with slot }, { call with pc := storeResult ret call.count })
  | .done _ => none

/-- The next step of `kernel_memory_exit`; it looks at `cur_type` without the
lock. -/
def exitStep (calls : List Call) (clock : Clock) (shared : Shared) : Option Shared :=
  match shared.phase with
  | .loaded =>
    some { shared with phase := if shared.slot.curType ≠ .none then .freeing else .removingGroup }
  | .freeing => some { slot := (doFree clock shared.slot).2, phase := .removingGroup }
  | .removingGroup =>
    if calls.all Call.finished then some { shared with phase := .groupRemoved } else none
  | .groupRemoved => some { shared with phase := .kobjectPut }
  | .kobjectPut => some { shared with phase := .cacheDestroyed }
  | .cacheDestroyed => some { shared with phase := .returned }
  | .returned => none

abbrev System := Pool Shared Call

def System.initial : System := ⟨⟨Slot.initial, .loaded⟩, []⟩

inductive Act where
  | writeAllocate (buf : Bytes)
  | writeFree (buf : Bytes)
  | call (i : Nat) (answer : Answer)
  | exit (clock : Clock)
  deriving DecidableEq, Repr

def step (s : System) : Act → Option System
  | .writeAllocate buf =>
    if s.shared.phase.groupGone then none else some (s.spawn ⟨buf.length, enterAllocate buf⟩)
  | .writeFree buf =>
    if s.shared.phase.groupGone then none else some (s.spawn ⟨buf.length, .doFree⟩)
  | .call i answer => s.act callStep i answer
  | .exit clock => (exitStep s.parties clock s.shared).map fun shared => { s with shared }

/-! ## What must hold at the end -/

/-- `kmem_cache_destroy` finds no live object of the cache. -/
def DestroysEmpty (s : System) : Act → Prop
  | .exit _ => s.shared.phase = .kobjectPut →
      ∀ obj ∈ s.shared.slot.heap, obj.type = .cache → obj.live = false
  | _ => True

/-- Nothing is left allocated when exit has returned. -/
def NothingLeft (s : System) : Prop :=
  s.shared.phase = .returned → ∀ obj ∈ s.shared.slot.heap, obj.live = false

/-- When the last writer has finished and `sysfs_remove_group` completes, the
slot is empty. -/
def RemovesEmpty (s : System) : Act → Prop
  | .exit _ => s.shared.phase = .removingGroup → s.shared.slot.curType = .none
  | _ => True

instance (s : System) (act : Act) : Decidable (DestroysEmpty s act) :=
  match act with
  | .exit _ => inferInstanceAs (Decidable (_ → ∀ obj ∈ s.shared.slot.heap, _))
  | .writeAllocate _ => isTrue trivial
  | .writeFree _ => isTrue trivial
  | .call _ _ => isTrue trivial

instance (s : System) (act : Act) : Decidable (RemovesEmpty s act) :=
  match act with
  | .exit _ => inferInstanceAs (Decidable (_ → _))
  | .writeAllocate _ => isTrue trivial
  | .writeFree _ => isTrue trivial
  | .call _ _ => isTrue trivial

instance (s : System) : Decidable (NothingLeft s) :=
  inferInstanceAs (Decidable (_ → ∀ obj ∈ s.shared.slot.heap, _))

/-! ## The steps -/

/-- The slot accounts for the heap, and no store runs once the files are gone. -/
structure Orderly (s : System) : Prop where
  accounts : s.shared.slot.Accounts
  drained : s.shared.phase.groupGone = true → ∀ call ∈ s.parties, call.finished = true

theorem orderly_initial : Orderly System.initial :=
  ⟨accounts_initial, nofun⟩

theorem callStep_orderly {i : Nat} {answer : Answer} {shared next : Shared} {call moved : Call}
    (accounts : shared.slot.Accounts)
    (stepped : callStep i answer shared call = some (next, moved)) :
    call.finished = false ∧ next.phase = shared.phase ∧ next.slot.Accounts := by
  obtain ⟨count, pc⟩ := call
  cases pc with
  | doAllocate type size =>
      cases stepped
      exact ⟨rfl, rfl, accounts.doAllocate type size answer⟩
  | doFree =>
      cases stepped
      exact ⟨rfl, rfl, (doFree_empties accounts answer.clock).2⟩
  | done ret => contradiction

/-- From the removal of the files on, exit leaves the slot alone. -/
theorem exitStep_gone {calls : List Call} {clock : Clock} {shared next : Shared}
    (gone : shared.phase.groupGone = true) (stepped : exitStep calls clock shared = some next) :
    next.slot = shared.slot ∧ next.phase.groupGone = true := by
  cases phase : shared.phase with
  | loaded | freeing | removingGroup =>
      rw [phase] at gone
      contradiction
  | groupRemoved | kobjectPut | cacheDestroyed =>
      simp only [exitStep, phase] at stepped
      cases stepped
      exact ⟨rfl, rfl⟩
  | returned =>
      simp only [exitStep, phase] at stepped
      contradiction

theorem Orderly.exit {s : System} (orderly : Orderly s) {clock : Clock} {next : Shared}
    (stepped : exitStep s.parties clock s.shared = some next) :
    Orderly { s with shared := next } := by
  obtain ⟨accounts, drained⟩ := orderly
  unfold exitStep at stepped
  cases phase : s.shared.phase with
  | loaded =>
      simp only [phase] at stepped
      cases stepped
      refine ⟨accounts, ?_⟩
      dsimp only
      split <;> nofun
  | freeing =>
      simp only [phase] at stepped
      cases stepped
      exact ⟨(doFree_empties accounts clock).2, nofun⟩
  | removingGroup =>
      simp only [phase] at stepped
      split at stepped
      · rename_i finished
        cases stepped
        exact ⟨accounts, fun _ => List.all_eq_true.mp finished⟩
      · contradiction
  | groupRemoved | kobjectPut | cacheDestroyed =>
      simp only [phase] at stepped
      cases stepped
      exact ⟨accounts, fun _ => drained (by rw [phase]; rfl)⟩
  | returned => simp [phase] at stepped

theorem step_orderly (s : System) (act : Act) (next : System) (orderly : Orderly s)
    (stepped : step s act = some next) : Orderly next := by
  cases act with
  | writeAllocate buf | writeFree buf =>
      simp only [step] at stepped
      split at stepped
      · contradiction
      · rename_i present
        cases stepped
        exact ⟨orderly.accounts, fun gone => absurd gone present⟩
  | call i answer =>
      obtain ⟨call, shared, moved, found, own, rfl⟩ := Pool.act_eq_some stepped
      obtain ⟨live, phase, accounts⟩ := callStep_orderly orderly.accounts own
      refine ⟨accounts, fun gone => ?_⟩
      have finished := orderly.drained (phase ▸ gone) call (List.mem_of_getElem? found)
      exact absurd (live.symm.trans finished) Bool.false_ne_true
  | exit clock =>
      obtain ⟨shared, exited, rfl⟩ := Option.map_eq_some_iff.mp stepped
      exact orderly.exit exited

/-- Once the files are gone, the slot does not change any more. -/
theorem step_gone {s next : System} {act : Act} (orderly : Orderly s)
    (gone : s.shared.phase.groupGone = true) (stepped : step s act = some next) :
    next.shared.slot = s.shared.slot ∧ next.shared.phase.groupGone = true := by
  cases act with
  | writeAllocate buf | writeFree buf =>
      simp [step, gone] at stepped
  | call i answer =>
      obtain ⟨call, shared, moved, found, own, rfl⟩ := Pool.act_eq_some stepped
      have live := (callStep_orderly orderly.accounts own).1
      have finished := orderly.drained gone call (List.mem_of_getElem? found)
      exact absurd (live.symm.trans finished) Bool.false_ne_true
  | exit clock =>
      obtain ⟨shared, exited, rfl⟩ := Option.map_eq_some_iff.mp stepped
      exact exitStep_gone gone exited

/-- The files are gone and the slot is empty from then on. -/
def Clean (s : System) : Prop :=
  Orderly s ∧ (s.shared.phase.groupGone = true → s.shared.slot.curType = .none)

/-- The files are gone and an allocation stays behind. -/
def Leaking (s : System) : Prop :=
  Orderly s ∧ s.shared.phase.groupGone = true ∧ s.shared.slot.curType ≠ .none

theorem clean_initial : Clean System.initial :=
  ⟨orderly_initial, nofun⟩

/-- Only the step that completes the removal makes the files go. -/
theorem removes_of_gone {s next : System} {act : Act} (present : s.shared.phase.groupGone = false)
    (gone : next.shared.phase.groupGone = true) (stepped : step s act = some next) :
    ∃ clock, act = .exit clock ∧ s.shared.phase = .removingGroup ∧
      next.shared.slot = s.shared.slot := by
  cases act with
  | writeAllocate buf | writeFree buf =>
      simp only [step, present, Bool.false_eq_true, if_false] at stepped
      cases stepped
      exact absurd (present.symm.trans gone) Bool.false_ne_true
  | call i answer =>
      obtain ⟨call, shared, moved, _, own, rfl⟩ := Pool.act_eq_some stepped
      have phase : shared.phase = s.shared.phase := by
        obtain ⟨count, pc⟩ := call
        cases pc with
        | doAllocate type size | doFree =>
            cases own
            rfl
        | done ret => contradiction
      exact absurd (present.symm.trans (phase ▸ gone)) Bool.false_ne_true
  | exit clock =>
      obtain ⟨shared, exited, rfl⟩ := Option.map_eq_some_iff.mp stepped
      refine ⟨clock, rfl, ?_⟩
      cases phase : s.shared.phase with
      | removingGroup =>
          simp only [exitStep, phase] at exited
          split at exited
          · cases exited
            exact ⟨rfl, rfl⟩
          · contradiction
      | loaded =>
          simp only [exitStep, phase] at exited
          cases exited
          dsimp only at gone
          split at gone <;> contradiction
      | freeing =>
          simp only [exitStep, phase] at exited
          cases exited
          contradiction
      | groupRemoved | kobjectPut | cacheDestroyed | returned =>
          rw [phase] at present
          contradiction

theorem step_clean (s : System) (act : Act) (next : System) (clean : Clean s)
    (empty : RemovesEmpty s act) (stepped : step s act = some next) : Clean next := by
  obtain ⟨orderly, unused⟩ := clean
  refine ⟨step_orderly s act next orderly stepped, fun gone => ?_⟩
  cases present : s.shared.phase.groupGone with
  | true =>
      rw [(step_gone orderly present stepped).1]
      exact unused present
  | false =>
      obtain ⟨clock, rfl, phase, slot⟩ := removes_of_gone present gone stepped
      rw [slot]
      exact empty phase

theorem step_leaks (s : System) (act : Act) (next : System) (clean : Clean s)
    (misses : ¬ RemovesEmpty s act) (stepped : step s act = some next) : Leaking next := by
  cases act with
  | exit clock =>
      simp only [RemovesEmpty, not_forall] at misses
      obtain ⟨phase, used⟩ := misses
      refine ⟨step_orderly s _ next clean.1 stepped, ?_⟩
      obtain ⟨shared, exited, rfl⟩ := Option.map_eq_some_iff.mp stepped
      simp only [exitStep, phase] at exited
      split at exited
      · cases exited
        exact ⟨rfl, used⟩
      · contradiction
  | _ => exact absurd trivial misses

theorem step_stays_leaking (s : System) (act : Act) (next : System) (leaking : Leaking s)
    (stepped : step s act = some next) : Leaking next := by
  obtain ⟨orderly, gone, used⟩ := leaking
  obtain ⟨slot, stays⟩ := step_gone orderly gone stepped
  exact ⟨step_orderly s act next orderly stepped, stays, slot ▸ used⟩

theorem Clean.nothing_live {s : System} (clean : Clean s)
    (gone : s.shared.phase.groupGone = true) : ∀ obj ∈ s.shared.slot.heap, obj.live = false := by
  intro obj member
  have unused := clean.2 gone
  cases live : obj.live with
  | false => rfl
  | true => exact absurd unused (clean.1.accounts.live_iff.mp ⟨obj, member, live⟩)

/-- **Unload.** In every run in which the slot is empty when `sysfs_remove_group`
completes, the cache is destroyed empty and nothing stays allocated; and a run
in which exit returned with nothing allocated is one of these. -/
theorem unload_leaks_nothing_iff_removes_empty (acts : List Act) (s : System)
    (ran : run step System.initial acts = some s) :
    (Meets step RemovesEmpty System.initial acts →
      Meets step DestroysEmpty System.initial acts ∧ Always step NothingLeft System.initial acts) ∧
    (s.shared.phase = .returned →
      Meets step DestroysEmpty System.initial acts ∧ Always step NothingLeft System.initial acts →
      Meets step RemovesEmpty System.initial acts) := by
  constructor
  · intro meets
    constructor
    · refine meets_of_meets step_clean ?_ clean_initial meets
      intro s act clean _
      cases act with
      | exit clock =>
          intro phase obj member _
          exact clean.nothing_live (by rw [phase]; rfl) obj member
      | _ => trivial
    · refine always_of_meets step_clean ?_ clean_initial meets
      intro s clean phase
      exact clean.nothing_live (by rw [phase]; rfl)
  · rintro returned ⟨_, nothing⟩
    rcases meets_or_damaged step_clean step_leaks step_stays_leaking clean_initial ran with
      ⟨meets, _⟩ | ⟨_, orderly, _, used⟩
    · exact meets
    · obtain ⟨obj, member, live⟩ := orderly.accounts.live_iff.mpr used
      have dead := always_last nothing ran returned obj member
      exact absurd (dead.symm.trans live) Bool.false_ne_true

def answered : Answer := ⟨⟨0, 1⟩, true, 128⟩

/-- Exit finds an allocation and frees it, a writer that was waiting for the
lock allocates again, and a `free` gets in before the files are removed. -/
theorem unload_after_late_free :
    ∃ s, run step System.initial
        [.writeAllocate (ascii "cache 1\n"), .call 0 answered, .exit ⟨2, 2⟩,
          .writeAllocate (ascii "cache 1\n"), .exit ⟨2, 3⟩, .call 1 answered,
          .writeFree (ascii "1\n"), .call 2 answered, .exit ⟨4, 4⟩, .exit ⟨4, 4⟩,
          .exit ⟨4, 4⟩, .exit ⟨4, 4⟩] = some s ∧
      s.shared.phase = .returned ∧ NothingLeft s := by
  have ran := run_get step System.initial
    [.writeAllocate (ascii "cache 1\n"), .call 0 answered, .exit ⟨2, 2⟩,
      .writeAllocate (ascii "cache 1\n"), .exit ⟨2, 3⟩, .call 1 answered,
      .writeFree (ascii "1\n"), .call 2 answered, .exit ⟨4, 4⟩, .exit ⟨4, 4⟩, .exit ⟨4, 4⟩,
      .exit ⟨4, 4⟩] (by decide +kernel)
  have unload := (unload_leaks_nothing_iff_removes_empty _ _ ran).1 (by decide +kernel)
  exact ⟨_, ran, by decide +kernel, always_last unload.2 ran⟩

/-- Exit has found the slot empty and not removed the files yet when a writer
allocates an object of the cache. -/
theorem late_allocation_outlives_cache :
    ∃ s, run step System.initial
        [.exit ⟨0, 0⟩, .writeAllocate (ascii "cache 1\n"), .call 0 answered, .exit ⟨2, 2⟩,
          .exit ⟨2, 2⟩, .exit ⟨2, 2⟩, .exit ⟨2, 2⟩] = some s ∧
      ¬ NothingLeft s ∧
      ¬ Meets step DestroysEmpty System.initial
        [.exit ⟨0, 0⟩, .writeAllocate (ascii "cache 1\n"), .call 0 answered, .exit ⟨2, 2⟩,
          .exit ⟨2, 2⟩, .exit ⟨2, 2⟩, .exit ⟨2, 2⟩] := by
  have ran := run_get step System.initial
    [.exit ⟨0, 0⟩, .writeAllocate (ascii "cache 1\n"), .call 0 answered, .exit ⟨2, 2⟩,
      .exit ⟨2, 2⟩, .exit ⟨2, 2⟩, .exit ⟨2, 2⟩] (by decide +kernel)
  exact ⟨_, ran, by decide +kernel, by decide +kernel⟩

end KernelMemory
