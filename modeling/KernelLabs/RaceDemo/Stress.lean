import KernelLabs.Lib.LockWord
import KernelLabs.Lib.Pool
import KernelLabs.Lib.Tally
import KernelLabs.RaceDemo.Counter
import Mathlib.Algebra.Group.Action.Defs
import Mathlib.Algebra.Order.BigOperators.Group.List

/-!
# The workers of `stress_test.c`

Any number of threads run the loop of `worker` against one device, in one fixed
mode and from reset counters.  In the safe modes the counter is the number of
increments that were stored; in `MODE_NONE` it is at most that, and at least 2
once some worker that stored twice was the last to store.
-/

set_option autoImplicit false

namespace RaceDemo

open LabelledMachine PartyPool LockWord

def maxChunk : Nat := 65536

inductive WorkerPc where
  -- Before the test of `remaining > 0`.
  | loop
  -- Inside `write`.
  | writing (write : RaceWrite)
  | returned
  deriving DecidableEq, Repr

structure Worker where
  remaining : Nat
  pc : WorkerPc
  deriving DecidableEq, Repr

/-- The worker goes on writing, or subtracts what `write` returned. -/
def Worker.resume (remaining : Nat) : WriteProgress → Worker
  | .running write => ⟨remaining, .writing write⟩
  | .returned written => ⟨remaining - written, .loop⟩

def workerStep (_i : Nat) (_ : Unit) (shared : Shared) (worker : Worker) :
    Option (Shared × Worker) :=
  match worker.pc with
  | .loop =>
    if 0 < worker.remaining then
      let chunk := if maxChunk < worker.remaining then maxChunk else worker.remaining
      some (shared, .resume worker.remaining (raceWrite chunk))
    else some (shared, { worker with pc := .returned })
  | .writing write =>
    (raceWriteStep shared write).map fun (next, progress) =>
      (next, .resume worker.remaining progress)
  | .returned => none

abbrev Stress := Pool Shared Worker

/-- Reset counters, a fixed mode and the workers about to start. -/
def Stress.initial (mode : RaceMode) (threads increments : Nat) (resetCount : UInt64) : Stress :=
  ⟨⟨mode, 0, 0, false, false, resetCount⟩, List.replicate threads ⟨increments, .loop⟩⟩

/-- The labels are the workers. -/
def stressStep (s : Stress) (i : Nat) : Option Stress := s.act workerStep i ()

/-! ## A worker's own progress -/

/-- Where the worker stands in `increment_once`. -/
def Worker.incPc (worker : Worker) : Option IncPc :=
  match worker.pc with
  | .writing write => some write.pc
  | _ => none

/-- How often the next step writes a counter. -/
def IncPc.stores : IncPc → Nat
  | .racyStore _ => 1
  | .store _ _ => 1
  | .atomicInc => 1
  | _ => 0

/-- How often the increment under way has written its counter. -/
def IncPc.stored : IncPc → Nat
  | .unlock _ => 1
  | _ => 0

/-- The increments a worker has stored. -/
def Worker.caused (increments : Nat) (worker : Worker) : Nat :=
  increments - worker.remaining +
    match worker.pc with
    | .writing write => write.i + write.pc.stored
    | _ => 0

structure Worker.InBounds (increments : Nat) (worker : Worker) : Prop where
  remaining : worker.remaining ≤ increments
  writing : ∀ write, worker.pc = .writing write → write.i < write.n ∧ write.n ≤ worker.remaining
  returned : worker.pc = .returned → worker.remaining = 0

def Worker.stores (worker : Worker) : Nat :=
  match worker.pc with
  | .writing write => write.pc.stores
  | _ => 0

/-- The most steps an increment takes from a program point on. -/
def IncPc.rank : IncPc → Nat
  | .readMode => 5
  | .lock _ => 4
  | .load _ => 3
  | .store _ _ => 2
  | .unlock _ => 1
  | .racyLoad => 2
  | .racyStore _ => 1
  | .atomicInc => 1

/-- The most steps a worker takes from its state on. -/
def Worker.rank (worker : Worker) : Nat :=
  match worker.pc with
  | .loop => 7 * worker.remaining + 1
  | .writing write => 7 * (worker.remaining - write.i - 1) + write.pc.rank + 1
  | .returned => 0

/-- Between two increments, or outside `write`. -/
def Worker.outside (worker : Worker) : Prop :=
  worker.incPc = none ∨ worker.incPc = some .readMode

theorem incrementStep_rank {shared next : Shared} {pc after : IncPc}
    (stepped : incrementStep shared pc = some (next, some after)) :
    after.rank < pc.rank ∧ after.stored = pc.stored + pc.stores := by
  cases pc with
  | readMode =>
      simp only [incrementStep] at stepped
      split at stepped <;> cases stepped <;> exact ⟨by decide, rfl⟩
  | racyLoad | load own | store own tmp =>
      cases stepped
      exact ⟨by simp [IncPc.rank], rfl⟩
  | lock own =>
      simp only [incrementStep] at stepped
      split at stepped
      · contradiction
      · cases stepped
        exact ⟨by simp [IncPc.rank], rfl⟩
  | racyStore tmp | unlock own | atomicInc => cases stepped

theorem incrementStep_returns {shared next : Shared} {pc : IncPc}
    (stepped : incrementStep shared pc = some (next, none)) :
    pc.rank = 1 ∧ pc.stored + pc.stores = 1 := by
  cases pc with
  | readMode =>
      simp only [incrementStep] at stepped
      split at stepped <;> cases stepped
  | lock own =>
      simp only [incrementStep] at stepped
      split at stepped <;> cases stepped
  | racyStore tmp | unlock own | atomicInc => exact ⟨rfl, rfl⟩
  | racyLoad | load own | store own tmp => cases stepped

/-- What a worker's step does to the device: nothing, or a step of
`increment_once`, which may be its last. -/
inductive WorkerEffect (shared : Shared) (worker : Worker) (next : Shared) (moved : Worker) :
    Prop where
  | around (was : worker.incPc = none) (same : next = shared) (now : moved.outside)
  | within (pc after : IncPc) (was : worker.incPc = some pc)
      (inc : incrementStep shared pc = some (next, some after)) (now : moved.incPc = some after)
  | returns (pc : IncPc) (was : worker.incPc = some pc)
      (inc : incrementStep shared pc = some (next, none)) (now : moved.outside)

/-- Entering the loop of `race_write` with some increments left, or leaving it. -/
theorem resume_raceLoop {increments remaining n i : Nat} (fits : remaining ≤ increments)
    (bound : n ≤ remaining) (within : i ≤ n) :
    (Worker.resume remaining (raceLoop n i)).InBounds increments ∧
      (Worker.resume remaining (raceLoop n i)).outside ∧
      (Worker.resume remaining (raceLoop n i)).caused increments = increments - remaining + i ∧
      (Worker.resume remaining (raceLoop n i)).rank ≤ 7 * (remaining - i) + 1 ∧
      (i < n → (Worker.resume remaining (raceLoop n i)).rank < 7 * (remaining - i)) := by
  by_cases more : i < n
  · rw [raceLoop, if_pos more]
    refine ⟨⟨fits, ?_, nofun⟩, Or.inr rfl, rfl, ?_, fun _ => ?_⟩
    · intro write own
      cases own
      exact ⟨more, bound⟩
    · simp only [Worker.resume, Worker.rank, IncPc.rank]
      omega
    · simp only [Worker.resume, Worker.rank, IncPc.rank]
      omega
  · have last : i = n := by omega
    rw [raceLoop, if_neg more]
    refine ⟨⟨(Nat.sub_le _ _).trans fits, nofun, nofun⟩, Or.inl rfl, ?_, ?_,
      fun less => absurd less more⟩
    · simp only [Worker.resume, Worker.caused]
      omega
    · simp only [Worker.resume, Worker.rank]
      omega

theorem workerStep_moves {i increments : Nat} {shared next : Shared} {worker moved : Worker}
    (bounds : worker.InBounds increments)
    (stepped : workerStep i () shared worker = some (next, moved)) :
    WorkerEffect shared worker next moved ∧ moved.InBounds increments ∧
      moved.rank < worker.rank ∧
      moved.caused increments = worker.caused increments + worker.stores := by
  obtain ⟨remaining, pc⟩ := worker
  have fits := bounds.remaining
  cases pc with
  | loop =>
      simp only [workerStep] at stepped
      split at stepped
      · rename_i more
        dsimp only at more fits
        have chunk : 0 < (if maxChunk < remaining then maxChunk else remaining) ∧
            (if maxChunk < remaining then maxChunk else remaining) ≤ remaining := by
          unfold maxChunk
          split <;> omega
        have some_left : 0 < min (if maxChunk < remaining then maxChunk else remaining)
            maxIncrementsPerWrite := by
          have : 0 < maxIncrementsPerWrite := by decide
          omega
        have enters := resume_raceLoop (n := min (if maxChunk < remaining then maxChunk
          else remaining) maxIncrementsPerWrite) fits (by omega) (Nat.zero_le _)
        obtain ⟨inBounds, outside, caused, _, shorter⟩ := enters
        cases stepped
        refine ⟨.around rfl rfl outside, inBounds, ?_, caused⟩
        have := shorter some_left
        simp only [raceWrite, Worker.rank] at this ⊢
        omega
      · cases stepped
        refine ⟨.around rfl rfl (Or.inl rfl), ⟨fits, nofun, fun _ => ?_⟩, ?_, rfl⟩
        · dsimp only at *
          omega
        · simp [Worker.rank]
  | writing write =>
      obtain ⟨less, bound⟩ := bounds.writing write rfl
      obtain ⟨⟨after, progress⟩, ran, same⟩ := Option.map_eq_some_iff.mp stepped
      cases same
      rcases raceWriteStep_eq_some ran with ⟨pc, inc, rfl⟩ | ⟨inc, rfl⟩
      · obtain ⟨lower, stores⟩ := incrementStep_rank inc
        refine ⟨.within write.pc pc rfl inc rfl, ⟨fits, ?_, nofun⟩, ?_, ?_⟩
        · intro own same
          cases same
          exact ⟨less, bound⟩
        · simp only [Worker.resume, Worker.rank]
          omega
        · simp only [Worker.resume, Worker.caused, Worker.stores]
          omega
      · obtain ⟨last, stores⟩ := incrementStep_returns inc
        obtain ⟨inBounds, outside, caused, shorter, _⟩ :=
          resume_raceLoop fits bound (i := write.i + 1) less
        refine ⟨.returns write.pc rfl inc outside, inBounds, ?_, ?_⟩
        · have before : Worker.rank ⟨remaining, .writing write⟩ =
              7 * (remaining - write.i - 1) + 1 + 1 := by simp only [Worker.rank, last]
          rw [before]
          exact Nat.lt_of_le_of_lt shorter (by dsimp only; omega)
        · rw [caused]
          simp only [Worker.caused, Worker.stores]
          omega
  | returned => contradiction

/-! ## The run of all workers -/

def Stress.caused (increments : Nat) (s : Stress) : Nat :=
  (s.parties.map (Worker.caused increments)).sum

def Stress.rank (s : Stress) : Nat := (s.parties.map Worker.rank).sum

/-- The workers and the mode of a run, whatever the mode. -/
structure Running (mode : RaceMode) (threads increments : Nat) (s : Stress) : Prop where
  mode : s.shared.mode = mode
  workers : s.parties.length = threads
  bounds : ∀ worker ∈ s.parties, worker.InBounds increments

theorem Worker.InBounds.caused_le {increments : Nat} {worker : Worker}
    (bounds : worker.InBounds increments) : worker.caused increments ≤ increments := by
  obtain ⟨remaining, pc⟩ := worker
  have fits := bounds.remaining
  cases pc with
  | loop | returned =>
      simp only [Worker.caused]
      omega
  | writing write =>
      obtain ⟨less, bound⟩ := bounds.writing write rfl
      have stored : write.pc.stored ≤ 1 := by cases write.pc <;> simp [IncPc.stored]
      simp only [Worker.caused]
      dsimp only at fits bound
      omega

theorem Worker.InBounds.caused_of_returned {increments : Nat} {worker : Worker}
    (bounds : worker.InBounds increments) (returned : worker.pc = .returned) :
    worker.caused increments = increments := by
  simp only [Worker.caused, bounds.returned returned, returned]
  omega

theorem incrementStep_mode {shared next : Shared} {pc : IncPc} {after : Option IncPc}
    (stepped : incrementStep shared pc = some (next, after)) : next.mode = shared.mode := by
  cases pc with
  | readMode =>
      simp only [incrementStep] at stepped
      split at stepped <;> cases stepped <;> rfl
  | lock own =>
      simp only [incrementStep] at stepped
      split at stepped
      · contradiction
      · cases stepped
        exact (shared.setHeld_keeps true own).1
  | unlock own =>
      cases stepped
      exact (shared.setHeld_keeps false own).1
  | racyLoad | racyStore tmp | load own | store own tmp | atomicInc =>
      cases stepped
      rfl

theorem WorkerEffect.mode {shared next : Shared} {worker moved : Worker}
    (effect : WorkerEffect shared worker next moved) : next.mode = shared.mode := by
  cases effect with
  | around was same now => rw [same]
  | within pc after was inc now => exact incrementStep_mode inc
  | returns pc was inc now => exact incrementStep_mode inc

theorem running_initial (mode : RaceMode) (threads increments : Nat) (resetCount : UInt64) :
    Running mode threads increments (.initial mode threads increments resetCount) := by
  refine ⟨rfl, List.length_replicate, ?_⟩
  intro worker member
  cases List.eq_of_mem_replicate member
  exact ⟨Nat.le_refl _, nofun, nofun⟩

/-- One step of one worker, as the run sees it. -/
theorem Running.step {mode : RaceMode} {threads increments : Nat} {s next : Stress} {i : Nat}
    (running : Running mode threads increments s) (stepped : stressStep s i = some next) :
    ∃ worker shared moved, s.parties[i]? = some worker ∧ next = ⟨shared, s.parties.set i moved⟩ ∧
      WorkerEffect s.shared worker shared moved ∧ Running mode threads increments next ∧
      next.rank < s.rank ∧ next.caused increments = s.caused increments + worker.stores ∧
      moved.caused increments = worker.caused increments + worker.stores := by
  obtain ⟨worker, shared, moved, found, own, rfl⟩ := Pool.act_eq_some stepped
  have bounds := running.bounds worker (List.mem_of_getElem? found)
  obtain ⟨effect, movedBounds, lower, caused⟩ := workerStep_moves bounds own
  have ranks := sum_map_set_add Worker.rank moved found
  have sums := sum_map_set_add (Worker.caused increments) moved found
  refine ⟨worker, shared, moved, found, rfl, effect, ⟨?_, ?_, ?_⟩, ?_, ?_, caused⟩
  · exact effect.mode.trans running.mode
  · rw [List.length_set]
    exact running.workers
  · exact forall_mem_set running.bounds movedBounds
  · simp only [Stress.rank]
    omega
  · simp only [Stress.caused]
    omega

theorem Worker.stores_eq {worker : Worker} {pc : IncPc} (own : worker.incPc = some pc) :
    worker.stores = pc.stores := by
  obtain ⟨remaining, place⟩ := worker
  cases place with
  | writing write =>
      cases Option.some.inj own
      rfl
  | loop | returned => contradiction

theorem Worker.stores_eq_zero {worker : Worker} (outside : worker.incPc = none) :
    worker.stores = 0 := by
  obtain ⟨remaining, place⟩ := worker
  cases place with
  | writing write => contradiction
  | loop | returned => rfl

/-! ## `MODE_NONE` -/

def IncPc.racy : IncPc → Prop
  | .readMode | .racyLoad | .racyStore _ => True
  | _ => False

structure Racy (increments : Nat) (s : Stress) : Prop where
  path : ∀ worker ∈ s.parties, ∀ pc, worker.incPc = some pc → pc.racy
  upper : s.shared.counterPlain.toNat ≤ s.caused increments
  started : 1 ≤ s.caused increments → 1 ≤ s.shared.counterPlain.toNat
  -- A worker that stored before has loaded at least 1.
  loaded : ∀ worker ∈ s.parties, ∀ tmp, worker.incPc = some (.racyStore tmp) →
    tmp.toNat ≤ s.caused increments ∧ (1 ≤ worker.caused increments → 1 ≤ tmp.toNat)
  -- The last worker to store, or any before the first store.
  last : ∃ worker ∈ s.parties, min (worker.caused increments) 2 ≤ s.shared.counterPlain.toNat

theorem outside_path {worker : Worker} (outside : worker.outside) {P : IncPc → Prop}
    (first : P .readMode) : ∀ pc, worker.incPc = some pc → P pc := by
  intro pc own
  rcases outside with none | start
  · exact absurd (none.symm.trans own) nofun
  · cases Option.some.inj (start.symm.trans own)
    exact first

theorem outside_ne {worker : Worker} (outside : worker.outside) {pc : IncPc}
    (inside : pc ≠ .readMode) : worker.incPc ≠ some pc :=
  fun own => outside_path outside (P := fun pc => pc = .readMode) rfl pc own |> inside

section Racy
variable {increments : Nat} {s : Stress} {i : Nat} {worker moved : Worker} {next : Shared}

/-- A step that stores nothing; a load finds the counter as it is. -/
theorem Racy.quiet (racy : Racy increments s) (found : s.parties[i]? = some worker)
    (counter : next.counterPlain = s.shared.counterPlain)
    (total : Stress.caused increments ⟨next, s.parties.set i moved⟩ = s.caused increments)
    (own : moved.caused increments = worker.caused increments)
    (path : ∀ pc, moved.incPc = some pc → pc.racy)
    (loads : ∀ tmp, moved.incPc = some (.racyStore tmp) → tmp = s.shared.counterPlain) :
    Racy increments ⟨next, s.parties.set i moved⟩ := by
  have member := List.mem_of_getElem? found
  constructor
  · exact forall_mem_set racy.path path
  · rw [total]
    exact counter ▸ racy.upper
  · rw [total]
    exact counter ▸ racy.started
  · rw [total]
    refine forall_mem_set racy.loaded ?_
    intro tmp stores
    rw [loads tmp stores, own]
    refine ⟨racy.upper, fun some_stored => racy.started ?_⟩
    exact some_stored.trans (List.le_sum_of_mem (List.mem_map_of_mem member))
  · obtain ⟨witness, witnessMember, low⟩ := racy.last
    dsimp only
    rw [counter]
    by_cases same : witness = worker
    · exact ⟨moved, moved_mem_set found, by rw [own, ← same]; exact low⟩
    · exact ⟨witness, mem_set_of_ne found witnessMember same, low⟩

theorem Racy.store (racy : Racy increments s) (found : s.parties[i]? = some worker) {tmp : UInt64}
    (stores : worker.incPc = some (.racyStore tmp)) (counter : next.counterPlain = tmp + 1)
    (total : Stress.caused increments ⟨next, s.parties.set i moved⟩ = s.caused increments + 1)
    (own : moved.caused increments = worker.caused increments + 1)
    (outside : moved.outside) (room : s.caused increments + 1 < 2 ^ 64) :
    Racy increments ⟨next, s.parties.set i moved⟩ := by
  obtain ⟨below, low⟩ := racy.loaded worker (List.mem_of_getElem? found) tmp stores
  have value : next.counterPlain.toNat = tmp.toNat + 1 := by
    rw [counter]
    exact Kernel.u64_succ_toNat (by omega)
  constructor
  · exact forall_mem_set racy.path (outside_path outside trivial)
  · rw [total, value]
    omega
  · rw [value]
    exact fun _ => Nat.le_add_left 1 _
  · rw [total]
    refine forall_mem_set ?_ ?_
    · intro other member otherTmp otherStores
      obtain ⟨otherBelow, otherLow⟩ := racy.loaded other member otherTmp otherStores
      exact ⟨otherBelow.trans (Nat.le_succ _), otherLow⟩
    · exact fun otherTmp otherStores => absurd otherStores (outside_ne outside nofun)
  · refine ⟨moved, moved_mem_set found, ?_⟩
    rw [value, own]
    by_cases first : worker.caused increments = 0
    · omega
    · have := low (by omega)
      omega

theorem Racy.step (racy : Racy increments s) (mode : s.shared.mode = .none)
    (found : s.parties[i]? = some worker)
    (effect : WorkerEffect s.shared worker next moved)
    (total : Stress.caused increments ⟨next, s.parties.set i moved⟩ =
      s.caused increments + worker.stores)
    (own : moved.caused increments = worker.caused increments + worker.stores)
    (room : s.caused increments + worker.stores < 2 ^ 64) :
    Racy increments ⟨next, s.parties.set i moved⟩ := by
  have member := List.mem_of_getElem? found
  cases effect with
  | around was same now =>
      rw [Worker.stores_eq_zero was] at total own
      subst same
      exact racy.quiet found rfl total own (outside_path now trivial)
        (fun tmp stores => absurd stores (outside_ne now IncPc.noConfusion))
  | within pc after was inc now =>
      have path := racy.path worker member pc was
      rw [Worker.stores_eq was] at total own
      cases pc with
      | readMode =>
          simp only [incrementStep, mode] at inc
          cases inc
          refine racy.quiet found rfl total own (fun pc at_pc => ?_) (fun tmp at_pc => ?_)
          · cases Option.some.inj (now.symm.trans at_pc)
            trivial
          · cases Option.some.inj (now.symm.trans at_pc)
      | racyLoad =>
          cases inc
          refine racy.quiet found rfl total own (fun pc at_pc => ?_) (fun tmp at_pc => ?_)
          · cases Option.some.inj (now.symm.trans at_pc)
            trivial
          · cases Option.some.inj (now.symm.trans at_pc)
            rfl
      | racyStore tmp => cases inc
      | _ => contradiction
  | returns pc was inc now =>
      have path := racy.path worker member pc was
      rw [Worker.stores_eq was] at total own room
      cases pc with
      | readMode =>
          simp only [incrementStep, mode] at inc
          cases inc
      | racyLoad => cases inc
      | racyStore tmp =>
          cases inc
          exact racy.store found was rfl total own now room
      | _ => contradiction

end Racy

/-! ## The modes with a lock -/

def lockOf : RaceMode → Option Lock
  | .spinlock => some .spinlock
  | .mutex => some .mutex
  | .none | .atomic => none

def IncPc.locked (own : Lock) : IncPc → Prop
  | .readMode => True
  | .lock taken | .load taken | .store taken _ | .unlock taken => taken = own
  | _ => False

def Worker.inside (own : Lock) (worker : Worker) : Bool := worker.incPc.any (IncPc.insideOf own)

structure Locked (own : Lock) (increments : Nat) (s : Stress) : Prop where
  path : ∀ worker ∈ s.parties, ∀ pc, worker.incPc = some pc → pc.locked own
  exclusive : Exclusive (s.shared.held own) (s.parties.countP (Worker.inside own))
  counted : s.shared.counterPlain.toNat = s.caused increments
  loaded : ∀ worker ∈ s.parties, ∀ tmp, worker.incPc = some (.store own tmp) →
    tmp = s.shared.counterPlain

theorem outside_inside {worker : Worker} (outside : worker.outside) (own : Lock) :
    worker.inside own = false := by
  unfold Worker.inside
  rcases outside with none | start
  · rw [none]
    rfl
  · rw [start]
    rfl

/-- A program point under the lock stores nothing or stores the counter. -/
theorem IncPc.locked_stores {own : Lock} {pc : IncPc} (path : pc.locked own) :
    (pc.storesUnder = none ∧ pc.stores = 0) ∨ ∃ tmp, pc = .store own tmp := by
  cases pc with
  | store taken tmp =>
      cases path
      exact Or.inr ⟨tmp, rfl⟩
  | readMode | lock taken | load taken | unlock taken => exact Or.inl ⟨rfl, rfl⟩
  | racyLoad | racyStore tmp | atomicInc => contradiction

theorem incrementStep_locked {own : Lock} {shared next : Shared} {pc after : IncPc}
    (mode : lockOf shared.mode = some own) (path : pc.locked own)
    (stepped : incrementStep shared pc = some (next, some after)) : after.locked own := by
  cases pc with
  | readMode =>
      cases found : shared.mode with
      | spinlock | mutex =>
          rw [found] at mode
          cases mode
          simp only [incrementStep, found] at stepped
          cases stepped
          rfl
      | none | atomic =>
          rw [found] at mode
          contradiction
  | lock taken =>
      simp only [incrementStep] at stepped
      split at stepped
      · contradiction
      · cases stepped
        exact path
  | load taken | store taken tmp =>
      cases stepped
      exact path
  | unlock taken | atomicInc | racyLoad | racyStore tmp => first | contradiction | cases stepped

section Locked
variable {own : Lock} {increments : Nat} {s : Stress} {i : Nat} {worker moved : Worker}
  {next : Shared}

/-- A step that stores nothing: it may take or release the lock, and a load finds
the counter as it is. -/
theorem Locked.quiet (locked : Locked own increments s) (found : s.parties[i]? = some worker)
    (counter : next.counterPlain = s.shared.counterPlain)
    (total : Stress.caused increments ⟨next, s.parties.set i moved⟩ = s.caused increments)
    (word : LockStep (s.shared.held own) (worker.inside own) (next.held own) (moved.inside own))
    (path : ∀ pc, moved.incPc = some pc → pc.locked own)
    (loads : ∀ tmp, moved.incPc = some (.store own tmp) → tmp = s.shared.counterPlain) :
    Locked own increments ⟨next, s.parties.set i moved⟩ := by
  constructor
  · exact forall_mem_set locked.path path
  · exact locked.exclusive.step word (countP_set_add (Worker.inside own) moved found)
  · rw [total]
    exact counter ▸ locked.counted
  · dsimp only
    rw [counter]
    exact forall_mem_set locked.loaded loads

/-- The holder of the lock stores what it loaded, plus one. -/
theorem Locked.store (locked : Locked own increments s) (found : s.parties[i]? = some worker)
    {tmp : UInt64} (stores : worker.incPc = some (.store own tmp))
    (now : moved.incPc = some (.unlock own))
    (effect : next = { s.shared with counterPlain := tmp + 1 })
    (total : Stress.caused increments ⟨next, s.parties.set i moved⟩ = s.caused increments + 1)
    (room : s.caused increments + 1 < 2 ^ 64) :
    Locked own increments ⟨next, s.parties.set i moved⟩ := by
  have fresh := locked.loaded worker (List.mem_of_getElem? found) tmp stores
  have inside {other : Worker} {pc : IncPc} (here : other.incPc = some pc) :
      other.inside own = pc.insideOf own := by
    rw [Worker.inside, here]
    rfl
  have was : worker.inside own = true := (inside stores).trans (beq_self_eq_true own)
  have still : moved.inside own = true := (inside now).trans (beq_self_eq_true own)
  have counted := locked.counted
  have value : next.counterPlain.toNat = s.caused increments + 1 := by
    rw [effect, fresh, ← counted]
    exact Kernel.u64_succ_toNat (by omega)
  have single : s.parties.countP (Worker.inside own) ≤ 1 := locked.exclusive.le_one
  constructor
  · refine forall_mem_set locked.path fun pc at_pc => ?_
    cases Option.some.inj (now.symm.trans at_pc)
    rfl
  · have sameHeld : next.held own = s.shared.held own := by
      rw [effect]
      cases own <;> rfl
    exact locked.exclusive.step (.passes sameHeld (still.trans was.symm))
      (countP_set_add (Worker.inside own) moved found)
  · rw [total]
    exact value
  · -- no other worker holds a loaded value: it would be inside as well
    intro other member otherTmp otherStores
    have within : other.inside own = true := (inside otherStores).trans (beq_self_eq_true own)
    cases eq_moved_of_countP_le_one _ found was single other member within
    exact absurd (now.symm.trans otherStores) nofun

theorem Locked.step (locked : Locked own increments s) (mode : lockOf s.shared.mode = some own)
    (found : s.parties[i]? = some worker)
    (effect : WorkerEffect s.shared worker next moved)
    (total : Stress.caused increments ⟨next, s.parties.set i moved⟩ =
      s.caused increments + worker.stores)
    (room : s.caused increments + worker.stores < 2 ^ 64) :
    Locked own increments ⟨next, s.parties.set i moved⟩ := by
  have member := List.mem_of_getElem? found
  have outsideStores (outside : moved.outside) (tmp : UInt64) :
      moved.incPc = some (.store own tmp) → tmp = s.shared.counterPlain :=
    fun stores => absurd stores (outside_ne outside IncPc.noConfusion)
  cases effect with
  | around was same now =>
      rw [Worker.stores_eq_zero was] at total
      subst same
      have before : worker.inside own = false := by
        rw [Worker.inside, was]
        rfl
      exact locked.quiet found rfl total (.passes rfl ((outside_inside now own).trans before.symm))
        (outside_path now trivial) (outsideStores now)
  | within pc after was inc now =>
      have path := locked.path worker member pc was
      have later := incrementStep_locked mode path inc
      have word := incrementStep_lock own inc
      rw [Worker.stores_eq was] at total room
      have onlyAfter {P : IncPc → Prop} (holds : P after) : ∀ pc, moved.incPc = some pc → P pc := by
        intro pc here
        cases Option.some.inj (now.symm.trans here)
        exact holds
      rcases IncPc.locked_stores path with ⟨quiet, nothing⟩ | ⟨tmp, rfl⟩
      · rcases incrementStep_loads inc with ⟨_, counter, loads⟩ | ⟨stores, _⟩
        · rw [nothing] at total
          refine locked.quiet found counter total ?_ (onlyAfter later) ?_
          · rw [Worker.inside, Worker.inside, was, now]
            exact word
          · intro tmp stores
            cases Option.some.inj (now.symm.trans stores)
            exact loads tmp rfl
        · rw [quiet] at stores
          contradiction
      · cases inc
        exact locked.store found was now rfl total room
  | returns pc was inc now =>
      have path := locked.path worker member pc was
      have word := incrementStep_lock own inc
      rw [Worker.stores_eq was] at total
      rcases IncPc.locked_stores path with ⟨quiet, nothing⟩ | ⟨tmp, rfl⟩
      · rcases incrementStep_loads inc with ⟨_, counter, _⟩ | ⟨stores, _⟩
        · rw [nothing] at total
          refine locked.quiet found counter total ?_ (outside_path now trivial) (outsideStores now)
          rw [Worker.inside, was, outside_inside now own]
          exact word
        · rw [quiet] at stores
          contradiction
      · cases inc

end Locked

/-! ## `MODE_ATOMIC` -/

def IncPc.atomically : IncPc → Prop
  | .readMode | .atomicInc => True
  | _ => False

structure Atomic (increments : Nat) (s : Stress) : Prop where
  path : ∀ worker ∈ s.parties, ∀ pc, worker.incPc = some pc → pc.atomically
  counted : s.shared.counterAtomic.toNat = s.caused increments

theorem Atomic.step {increments : Nat} {s : Stress} {i : Nat} {worker moved : Worker}
    {next : Shared} (atomic : Atomic increments s) (mode : s.shared.mode = .atomic)
    (found : s.parties[i]? = some worker)
    (effect : WorkerEffect s.shared worker next moved)
    (total : Stress.caused increments ⟨next, s.parties.set i moved⟩ =
      s.caused increments + worker.stores)
    (room : s.caused increments + worker.stores < 2 ^ 64) :
    Atomic increments ⟨next, s.parties.set i moved⟩ := by
  have member := List.mem_of_getElem? found
  have counted := atomic.counted
  cases effect with
  | around was same now =>
      rw [Worker.stores_eq_zero was] at total
      subst same
      exact ⟨forall_mem_set atomic.path (outside_path now trivial), counted.trans total.symm⟩
  | within pc after was inc now =>
      have path := atomic.path worker member pc was
      rw [Worker.stores_eq was] at total
      cases pc with
      | readMode =>
          simp only [incrementStep, mode] at inc
          cases inc
          refine ⟨forall_mem_set atomic.path fun pc at_pc => ?_, counted.trans total.symm⟩
          cases Option.some.inj (now.symm.trans at_pc)
          trivial
      | atomicInc => cases inc
      | _ => contradiction
  | returns pc was inc now =>
      have path := atomic.path worker member pc was
      rw [Worker.stores_eq was] at total room
      cases pc with
      | readMode =>
          simp only [incrementStep, mode] at inc
          cases inc
      | atomicInc =>
          cases inc
          refine ⟨forall_mem_set atomic.path (outside_path now trivial), ?_⟩
          rw [total, ← counted]
          exact Kernel.u64_succ_toNat (by rw [counted]; exact room)
      | _ => contradiction

/-! ## All modes -/

/-- What the counter of the mode says along the run. -/
def Counts : RaceMode → Nat → Stress → Prop
  | .none => Racy
  | .spinlock => Locked .spinlock
  | .mutex => Locked .mutex
  | .atomic => Atomic

theorem caused_initial (mode : RaceMode) (threads increments : Nat) (resetCount : UInt64) :
    (Stress.initial mode threads increments resetCount).caused increments = 0 := by
  simp [Stress.caused, Stress.initial, Worker.caused]

theorem counts_initial (mode : RaceMode) {threads : Nat} (increments : Nat) (resetCount : UInt64)
    (some_thread : 0 < threads) :
    Counts mode increments (.initial mode threads increments resetCount) := by
  have none_caused := caused_initial mode threads increments resetCount
  have start : ∀ worker ∈ (Stress.initial mode threads increments resetCount).parties,
      worker = ⟨increments, .loop⟩ := fun worker member => List.eq_of_mem_replicate member
  have path (P : IncPc → Prop) : ∀ worker ∈ (Stress.initial mode threads increments
      resetCount).parties, ∀ pc, worker.incPc = some pc → P pc := by
    intro worker member pc own
    rw [start worker member] at own
    contradiction
  have nobody (own : Lock) : (Stress.initial mode threads increments resetCount).parties.countP
      (Worker.inside own) = 0 := by
    refine List.countP_eq_zero.mpr fun worker member => ?_
    rw [start worker member]
    exact Bool.false_ne_true
  have locked (own : Lock) :
      Locked own increments (.initial mode threads increments resetCount) := by
    refine ⟨path _, ?_, none_caused.symm, ?_⟩
    · rw [nobody]
      cases own <;> rfl
    · exact fun worker member tmp own => (path (fun _ => False) worker member _ own).elim
  cases mode with
  | none =>
      refine ⟨path _, Nat.zero_le _, ?_, ?_, ?_⟩
      · rw [none_caused]
        exact fun one => absurd one (by decide)
      · exact fun worker member tmp own => (path (fun _ => False) worker member _ own).elim
      · exact ⟨⟨increments, .loop⟩, List.mem_replicate.mpr ⟨by omega, rfl⟩,
          by simp [Worker.caused]⟩
  | spinlock => exact locked .spinlock
  | mutex => exact locked .mutex
  | atomic => exact ⟨path _, none_caused.symm⟩

/-- The run stays below the wrap of the counters. -/
structure Contract (mode : RaceMode) (threads increments : Nat) (s : Stress) : Prop where
  running : Running mode threads increments s
  counts : Counts mode increments s

theorem Running.caused_le {mode : RaceMode} {threads increments : Nat} {s : Stress}
    (running : Running mode threads increments s) :
    s.caused increments ≤ threads * increments := by
  have each : ∀ amount ∈ s.parties.map (Worker.caused increments), amount ≤ increments := by
    intro amount member
    obtain ⟨worker, workerMember, rfl⟩ := List.mem_map.mp member
    exact (running.bounds worker workerMember).caused_le
  have bound := List.sum_le_card_nsmul _ increments each
  rwa [List.length_map, running.workers, smul_eq_mul] at bound

theorem step_contract {mode : RaceMode} {threads increments : Nat}
    (total : threads * increments < 2 ^ 63) (s : Stress) (i : Nat) (next : Stress)
    (contract : Contract mode threads increments s) (stepped : stressStep s i = some next) :
    Contract mode threads increments next := by
  obtain ⟨running, counts⟩ := contract
  obtain ⟨worker, shared, moved, found, rfl, effect, after, _, sum, own⟩ := running.step stepped
  have room : s.caused increments + worker.stores < 2 ^ 64 := by
    have := after.caused_le
    omega
  refine ⟨after, ?_⟩
  have fixed := running.mode
  cases mode with
  | none => exact Racy.step counts fixed found effect sum own room
  | spinlock => exact Locked.step counts (fixed ▸ rfl) found effect sum room
  | mutex => exact Locked.step counts (fixed ▸ rfl) found effect sum room
  | atomic => exact Atomic.step counts fixed found effect sum room

/-! ## No worker is left behind -/

/-- A worker that cannot go on has returned or waits for a lock that is held. -/
theorem workerStep_blocked {i : Nat} {shared : Shared} {worker : Worker}
    (blocked : workerStep i () shared worker = none) :
    worker.pc = .returned ∨
      ∃ own, worker.incPc = some (.lock own) ∧ shared.held own = true := by
  obtain ⟨remaining, pc⟩ := worker
  cases pc with
  | loop =>
      simp only [workerStep] at blocked
      split at blocked <;> contradiction
  | returned => exact Or.inl rfl
  | writing write =>
      have stuck : raceWriteStep shared write = none := Option.map_eq_none_iff.mp blocked
      have incStuck : incrementStep shared write.pc = none := by
        unfold raceWriteStep at stuck
        split at stuck
        · assumption
        · contradiction
        · contradiction
      cases pc : write.pc with
      | lock own =>
          rw [pc, incrementStep] at incStuck
          split at incStuck
          · rename_i held
            exact Or.inr ⟨own, congrArg some pc, held⟩
          · contradiction
      | readMode =>
          rw [pc, incrementStep] at incStuck
          split at incStuck <;> contradiction
      | racyLoad | racyStore tmp | load own | store own tmp | unlock own | atomicInc =>
          rw [pc] at incStuck
          contradiction

/-- When no worker can go on, all have returned: the holder of a lock can always
take its next step. -/
theorem Contract.returned_of_stuck {mode : RaceMode} {threads increments : Nat} {s : Stress}
    (contract : Contract mode threads increments s) (stuck : ∀ i, stressStep s i = none) :
    ∀ worker ∈ s.parties, worker.pc = .returned := by
  intro worker member
  obtain ⟨i, found⟩ := List.mem_iff_getElem?.mp member
  rcases workerStep_blocked ((Pool.act_eq_none found).mp (stuck i)) with
    returned | ⟨own, waits, held⟩
  · exact returned
  · have offPath {P : IncPc → Prop} (path : ∀ worker ∈ s.parties, ∀ pc,
        worker.incPc = some pc → P pc) : P (.lock own) := path worker member _ waits
    have holderGoes (named : Lock) (locked : Locked named increments s) :
        worker.pc = .returned := by
      cases offPath locked.path
      have exclusive := locked.exclusive
      rw [held] at exclusive
      have holders : 0 < s.parties.countP (Worker.inside own) := by
        rw [exclusive]
        exact Nat.zero_lt_one
      obtain ⟨holder, holderMember, inside⟩ := List.countP_pos_iff.mp holders
      obtain ⟨j, holderFound⟩ := List.mem_iff_getElem?.mp holderMember
      rcases workerStep_blocked ((Pool.act_eq_none holderFound).mp (stuck j)) with
        done | ⟨other, otherWaits, _⟩
      · have outside : holder.incPc = none := by rw [Worker.incPc, done]
        rw [outside_inside (Or.inl outside) own] at inside
        contradiction
      · rw [Worker.inside, otherWaits] at inside
        contradiction
    have counts := contract.counts
    cases mode with
    | none => exact (offPath (Racy.path counts)).elim
    | spinlock => exact holderGoes .spinlock counts
    | mutex => exact holderGoes .mutex counts
    | atomic => exact (offPath (Atomic.path counts)).elim

/-- How often the step writes a counter on behalf of worker `i`. -/
def storesOf (i : Nat) (s : Stress) (label : Nat) : Nat :=
  if label = i then (s.parties[i]?.map Worker.stores).getD 0 else 0

theorem Contract.storesOf_tally {mode : RaceMode} {threads increments : Nat}
    (total : threads * increments < 2 ^ 63) {s last : Stress} {acts : List Nat}
    (contract : Contract mode threads increments s) (ran : run stressStep s acts = some last)
    (i : Nat) :
    (s.parties[i]?.map (Worker.caused increments)).getD 0 + tally stressStep (storesOf i) s acts =
      (last.parties[i]?.map (Worker.caused increments)).getD 0 := by
  refine add_tally_eq (fun s : Stress => (s.parties[i]?.map (Worker.caused increments)).getD 0)
    (step_contract total) ?_ contract ran
  intro s j next contract stepped
  obtain ⟨worker, shared, moved, found, rfl, _, _, _, _, own⟩ := contract.running.step stepped
  obtain ⟨bound, _⟩ := List.getElem?_eq_some_iff.mp found
  by_cases same : j = i
  · subst same
    simp only [storesOf, found, List.getElem?_set_self bound, Option.map_some, Option.getD_some,
      if_true, own]
  · simp only [storesOf, same, if_false, List.getElem?_set_ne same, Nat.add_zero]

theorem Contract.caused_of_returned {mode : RaceMode} {threads increments : Nat} {s : Stress}
    (contract : Contract mode threads increments s)
    (returned : ∀ worker ∈ s.parties, worker.pc = .returned) :
    s.caused increments = threads * increments := by
  have each : s.parties.map (Worker.caused increments) =
      List.replicate s.parties.length increments := by
    refine List.eq_replicate_iff.mpr ⟨List.length_map _, ?_⟩
    intro amount member
    obtain ⟨worker, workerMember, rfl⟩ := List.mem_map.mp member
    exact (contract.running.bounds worker workerMember).caused_of_returned
      (returned worker workerMember)
  rw [Stress.caused, each, List.sum_replicate, contract.running.workers, smul_eq_mul]

/-- The counter once every worker has returned, by the mode. -/
theorem Contract.counter_of_returned {mode : RaceMode} {threads increments : Nat} {s : Stress}
    (contract : Contract mode threads increments s)
    (returned : ∀ worker ∈ s.parties, worker.pc = .returned) :
    (mode ≠ .none → (currentCounterValue s.shared).toNat = threads * increments) ∧
      (mode = .none → min increments 2 ≤ (currentCounterValue s.shared).toNat ∧
        (currentCounterValue s.shared).toNat ≤ threads * increments) := by
  have all := contract.caused_of_returned returned
  have fixed := contract.running.mode
  have counts := contract.counts
  cases mode with
  | none =>
      refine ⟨fun safe => absurd rfl safe, fun _ => ?_⟩
      have value : currentCounterValue s.shared = s.shared.counterPlain := by
        rw [currentCounterValue, fixed]
        rfl
      obtain ⟨worker, member, low⟩ := Racy.last counts
      have upper := Racy.upper counts
      have full := (contract.running.bounds worker member).caused_of_returned
        (returned worker member)
      rw [full] at low
      rw [value]
      omega
  | spinlock | mutex =>
      refine ⟨fun _ => ?_, RaceMode.noConfusion⟩
      rw [currentCounterValue, fixed, if_neg RaceMode.noConfusion]
      exact (Locked.counted counts).trans all
  | atomic =>
      refine ⟨fun _ => ?_, RaceMode.noConfusion⟩
      rw [currentCounterValue, fixed, if_pos rfl]
      exact (Atomic.counted counts).trans all

theorem rank_initial (mode : RaceMode) (threads increments : Nat) (resetCount : UInt64) :
    (Stress.initial mode threads increments resetCount).rank =
      threads * (7 * increments + 1) := by
  simp [Stress.rank, Stress.initial, Worker.rank]

theorem caused_initial_worker (mode : RaceMode) (threads increments : Nat) (resetCount : UInt64)
    (i : Nat) :
    ((Stress.initial mode threads increments resetCount).parties[i]?.map
      (Worker.caused increments)).getD 0 = 0 := by
  cases first : (Stress.initial mode threads increments resetCount).parties[i]? with
  | none => rfl
  | some worker =>
      rw [List.eq_of_mem_replicate (List.mem_of_getElem? first)]
      simp [Worker.caused]

/-- **The contract of the stress test.** Any number of workers in any
interleaving: the run ends, with every worker returned; a worker that returned
has stored its increments, no more and no fewer; and then the counter of a safe
mode holds their total, the counter of `MODE_NONE` at most that and at least 2,
or what a single increment gives. -/
theorem stress_test_contract (mode : RaceMode) (threads increments : Nat) (resetCount : UInt64)
    (some_thread : 0 < threads) (total : threads * increments < 2 ^ 63) (acts : List Nat)
    (s : Stress)
    (ran : run stressStep (.initial mode threads increments resetCount) acts = some s) :
    acts.length ≤ threads * (7 * increments + 1) ∧
    ((∀ i, stressStep s i = none) → ∀ worker ∈ s.parties, worker.pc = .returned) ∧
    (∀ (i : Nat) (worker : Worker), s.parties[i]? = some worker → worker.pc = .returned →
      tally stressStep (storesOf i) (.initial mode threads increments resetCount) acts =
        increments) ∧
    ((∀ worker ∈ s.parties, worker.pc = .returned) →
      (mode ≠ .none → (currentCounterValue s.shared).toNat = threads * increments) ∧
      (mode = .none → min increments 2 ≤ (currentCounterValue s.shared).toNat ∧
        (currentCounterValue s.shared).toNat ≤ threads * increments)) := by
  have start : Contract mode threads increments (.initial mode threads increments resetCount) :=
    ⟨running_initial mode threads increments resetCount,
      counts_initial mode increments resetCount some_thread⟩
  have contract : Contract mode threads increments s :=
    invariant_run (step_contract total) start ran
  refine ⟨?_, contract.returned_of_stuck, ?_, ?_⟩
  · have bounded := length_add_measure_le Stress.rank
      (fun s i next (running : Running mode threads increments s) stepped => by
        obtain ⟨_, _, _, _, _, _, after, _⟩ := running.step stepped
        exact after)
      (fun s i next running stepped => by
        obtain ⟨_, _, _, _, _, _, _, lower, _⟩ := running.step stepped
        exact lower) start.running ran
    have most := rank_initial mode threads increments resetCount
    omega
  · intro i worker found returned
    have sum := start.storesOf_tally total ran i
    have full :=
      (contract.running.bounds worker (List.mem_of_getElem? found)).caused_of_returned returned
    have none_before := caused_initial_worker mode threads increments resetCount i
    rw [found, Option.map_some, Option.getD_some, full] at sum
    omega
  · exact contract.counter_of_returned

/-- Two workers of two increments in `MODE_NONE` that lose all they can. -/
theorem stress_test_contract_two :
    ∃ s, run stressStep (.initial .none 2 2 0)
        [0, 0, 0, 1, 1, 1, 1, 0, 1, 1, 0, 0, 0, 1, 0, 1] = some s ∧
      tally stressStep (storesOf 0) (.initial .none 2 2 0)
        [0, 0, 0, 1, 1, 1, 1, 0, 1, 1, 0, 0, 0, 1, 0, 1] = 2 ∧
      s.shared.counterPlain = 2 ∧ 2 ≤ (currentCounterValue s.shared).toNat := by
  have ran := run_get stressStep (.initial .none 2 2 0)
    [0, 0, 0, 1, 1, 1, 1, 0, 1, 1, 0, 0, 0, 1, 0, 1] (by decide +kernel)
  obtain ⟨_, _, stored, finished⟩ :=
    stress_test_contract .none 2 2 0 (by decide) (by decide) _ _ ran
  exact ⟨_, ran, stored 0 ⟨0, .returned⟩ (by decide +kernel) rfl, by decide +kernel,
    ((finished (by decide +kernel)).2 rfl).1⟩

end RaceDemo
