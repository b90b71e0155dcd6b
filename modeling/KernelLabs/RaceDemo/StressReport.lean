import KernelLabs.Kernel.Decimal
import KernelLabs.RaceDemo.Read
import KernelLabs.RaceDemo.Stress

/-!
# What `stress_test` reports

`main` of `stress_test.c` from its arguments to its exit status: it shows the mode,
writes to `reset`, starts the threads one by one while the first of them already
write, joins them in order, and reads `counter` back from its text.  Whatever the
device went through before, the run ends; without a failing call it ends with a
report, whose `lost` is what the threads stored less what the counter holds.
-/

set_option autoImplicit false

namespace RaceDemo

open Kernel LabelledMachine PartyPool

/-! ## The texts between the device and the program -/

def RaceMode.number : RaceMode → Nat
  | .none => 0
  | .spinlock => 1
  | .mutex => 2
  | .atomic => 3

/-- What `mode_show` returns. -/
def modeText (mode : RaceMode) : Bytes := decimal mode.number ++ [10]

/-- What `counter_show` returns for a value of `current_counter_value`. -/
def counterShown (value : UInt64) : Bytes := decimal value.toNat ++ [10]

/-- `fgets`: at most `size - 1` bytes, the last one the first newline. -/
def fgets (size : Nat) (text : Bytes) : Bytes :=
  (text.takeWhile (· ≠ 10) ++ (text.dropWhile (· ≠ 10)).take 1).take (size - 1)

def longMax : Int := 2 ^ 63 - 1
def longMin : Int := -2 ^ 63

/-- `isspace` in the C locale. -/
def isspaceC (c : UInt8) : Bool := c = 32 || (9 ≤ c && c ≤ 13)

/-- `strtol` in base 10, which stops at the first byte that is no digit and stays
within a `long`. -/
def strtol (text : Bytes) : Int :=
  match text.dropWhile isspaceC with
  | 45 :: rest => max longMin (-(digitsValue 10 (rest.takeWhile (isDigit 10)) : Int))
  | 43 :: rest => min longMax (digitsValue 10 (rest.takeWhile (isDigit 10)) : Int)
  | rest => min longMax (digitsValue 10 (rest.takeWhile (isDigit 10)) : Int)

/-- `read_long_file` on a file that shows `text`. -/
def readLongFile (text : Bytes) : Int := strtol (fgets 64 text)

/-! ## `main` -/

inductive ExitStatus where
  | success
  | failure
  deriving DecidableEq, Repr

/-- The program points of `main`. -/
inductive MainPc where
  | start
  | showMode
  -- Inside the write to `reset`.
  | reset (pc : ResetPc)
  | openDevice
  | allocate
  | create (i : Nat)
  | join (i : Nat)
  -- Inside the read of `counter`, before and after it loaded `mode`.
  | readCounter
  | loadCounter (mode : RaceMode)
  | exited (status : ExitStatus)
  deriving DecidableEq, Repr

/-- What the last lines print. -/
structure Report where
  expected : Int
  actual : Int
  lost : Int
  deriving DecidableEq, Repr

structure Process where
  device : Stress
  pc : MainPc
  shownMode : Option Int
  report : Option Report
  deriving DecidableEq, Repr

/-- `main` is about to test its arguments, on a device that nobody else uses. -/
def Process.initial (mode : RaceMode) (counterPlain counterAtomic resetCount : UInt64) : Process :=
  ⟨⟨⟨mode, counterPlain, counterAtomic, false, false, resetCount⟩, []⟩, .start, none, none⟩

/-- The two numbers of the command line, or the defaults in their place. -/
structure Args where
  numThreads : Int
  incrementsPerThread : Int
  deriving DecidableEq, Repr

def Args.expected (args : Args) : Int := args.numThreads * args.incrementsPerThread

inductive MainAct where
  | main
  -- A call of `main` that can fail does: a file, `malloc` or `pthread_create`.
  | fails
  | worker (i : Nat)
  deriving DecidableEq, Repr

/-- The call at the program point can fail. -/
def MainPc.canFail (args : Args) : MainPc → Bool
  | .showMode | .reset .lock | .openDevice | .allocate | .readCounter => true
  | .create i => (i : Int) < args.numThreads
  | _ => false

def mainGoes (args : Args) (p : Process) : Option Process :=
  match p.pc with
  | .start =>
    if args.numThreads ≤ 0 ∨ args.incrementsPerThread ≤ 0 then
      some { p with pc := .exited .failure }
    else some { p with pc := .showMode }
  | .showMode =>
    some { p with pc := .reset .lock, shownMode := readLongFile (modeText p.device.shared.mode) }
  | .reset pc =>
    match resetStep p.device.shared pc with
    | none => none
    | some (next, some after) =>
      some { p with device := { p.device with shared := next }, pc := .reset after }
    | some (next, none) =>
      some { p with device := { p.device with shared := next }, pc := .openDevice }
  | .openDevice => some { p with pc := .allocate }
  | .allocate => some { p with pc := .create 0 }
  | .create i =>
    if (i : Int) < args.numThreads then
      some { p with
        device := p.device.spawn ⟨args.incrementsPerThread.toNat, .loop⟩
        pc := .create (i + 1) }
    else some { p with pc := .join 0 }
  | .join i =>
    if (i : Int) < args.numThreads then
      if p.device.parties[i]?.map Worker.pc = some .returned then
        some { p with pc := .join (i + 1) }
      else none
    else some { p with pc := .readCounter }
  | .readCounter => some { p with pc := .loadCounter p.device.shared.mode }
  | .loadCounter mode =>
    let actual := readLongFile (counterShown (loadSelected mode p.device.shared))
    some { p with
      pc := .exited (if actual ≠ args.expected then .failure else .success)
      report := some ⟨args.expected, actual, args.expected - actual⟩ }
  | .exited _ => none

/-- The end of `main` ends the threads. -/
def processStep (args : Args) (p : Process) : MainAct → Option Process
  | .main => mainGoes args p
  | .fails => if p.pc.canFail args then some { p with pc := .exited .failure } else none
  | .worker i =>
    match p.pc with
    | .exited _ => none
    | _ => (stressStep p.device i).map fun device => { p with device }

/-! ## The numbers come back -/

theorem isspaceC_of_digit {c : UInt8} (low : 48 ≤ c) : isspaceC c = false := by
  have least := UInt8.le_iff_toNat_le.mp low
  simp only [UInt8.reduceToNat] at least
  have notBlank : c ≠ 32 := by
    rintro rfl
    contradiction
  have above : ¬ c ≤ 13 := by
    intro small
    have most := UInt8.le_iff_toNat_le.mp small
    simp only [UInt8.reduceToNat] at most
    omega
  simp [isspaceC, notBlank, above]

/-- `fgets` takes a number's line whole. -/
theorem fgets_decimal {n : Nat} (fits : n < 2 ^ 64) :
    fgets 64 (decimal n ++ [10]) = decimal n ++ [10] := by
  have short : (decimal n).length ≤ 20 := decimal_length_le (by decide) (by omega)
  have plain : ∀ c ∈ decimal n, decide (c ≠ 10) = true := by
    intro c member
    have digit := (mem_decimal member).1
    rw [decide_eq_true_eq]
    rintro rfl
    contradiction
  have front : (decimal n ++ [10]).takeWhile (· ≠ 10) = decimal n := by
    rw [List.takeWhile_append_of_pos plain]
    exact List.append_nil _
  have back : ((decimal n ++ [10]).dropWhile (· ≠ 10)).take 1 = [10] := by
    rw [List.dropWhile_append_of_pos plain]
    rfl
  rw [fgets, front, back]
  refine List.take_of_length_le ?_
  rw [List.length_append, List.length_singleton]
  omega

/-- A 64-bit number is read back up to the largest `long`. -/
theorem readLongFile_decimal {n : Nat} (fits : n < 2 ^ 64) :
    readLongFile (decimal n ++ [10]) = min longMax n := by
  have number := digitsValue_decimal n
  have digits := (takeWhile_decimal n stopsDigits_newline).1
  obtain ⟨c, rest, starts, notPlus, notMinus⟩ := decimal_unsigned n
  have digit : isspaceC c = false :=
    isspaceC_of_digit (mem_decimal (n := n) (by rw [starts]; exact List.mem_cons_self)).1
  have unsigned : (decimal n ++ [10]).dropWhile isspaceC = c :: (rest ++ [10]) := by
    rw [starts, List.cons_append, List.dropWhile_cons_of_neg (by rw [digit]; exact nofun)]
  rw [starts] at digits number
  rw [readLongFile, fgets_decimal fits, strtol, unsigned]
  split
  · rename_i same
    exact absurd (List.cons.inj same).1 notMinus
  · rename_i same
    exact absurd (List.cons.inj same).1 notPlus
  · rw [← List.cons_append, digits, number]

theorem readLongFile_mode (mode : RaceMode) : readLongFile (modeText mode) = mode.number := by
  cases mode <;> exact (readLongFile_decimal (by decide)).trans (by decide)

theorem readLongFile_counter {value : UInt64} (small : value.toNat < 2 ^ 63) :
    readLongFile (counterShown value) = value.toNat := by
  rw [counterShown, readLongFile_decimal (by omega), longMax]
  omega

/-! ## The write to `reset` -/

/-- What has been set to 0 so far. -/
def ResetPc.Cleared (shared : Shared) : ResetPc → Prop
  | .lock | .storePlain => True
  | .unlock | .setAtomic => shared.counterPlain = 0
  | .loadCount | .storeCount _ => shared.counterPlain = 0 ∧ shared.counterAtomic = 0

/-- `reset_counters` on a device that nobody else uses. -/
structure Resetting (mode : RaceMode) (pc : ResetPc) (shared : Shared) : Prop where
  mode : shared.mode = mode
  mutex : shared.counterMutex = false
  spinlock : shared.counterSpinlock = pc.insideOf .spinlock
  cleared : pc.Cleared shared

def ResetPc.stepsLeft : ResetPc → Nat
  | .lock => 6
  | .storePlain => 5
  | .unlock => 4
  | .setAtomic => 3
  | .loadCount => 2
  | .storeCount _ => 1

theorem Resetting.goes {mode : RaceMode} {pc : ResetPc} {shared : Shared}
    (resetting : Resetting mode pc shared) : (resetStep shared pc).isSome := by
  cases pc with
  | lock =>
      have free : shared.held .spinlock = false := resetting.spinlock
      rw [resetStep, free]
      rfl
  | storePlain | unlock | setAtomic | loadCount | storeCount tmp => rfl

theorem Resetting.step {mode : RaceMode} {pc after : ResetPc} {shared next : Shared}
    (resetting : Resetting mode pc shared)
    (stepped : resetStep shared pc = some (next, some after)) : Resetting mode after next := by
  obtain ⟨same, mutex, spinlock, cleared⟩ := resetting
  cases pc with
  | lock =>
      have free : shared.held .spinlock = false := spinlock
      rw [resetStep, free] at stepped
      cases stepped
      exact ⟨same, mutex, rfl, trivial⟩
  | storePlain =>
      cases stepped
      exact ⟨same, mutex, spinlock, rfl⟩
  | unlock =>
      cases stepped
      exact ⟨same, mutex, rfl, cleared⟩
  | setAtomic =>
      cases stepped
      exact ⟨same, mutex, spinlock, cleared, rfl⟩
  | loadCount =>
      cases stepped
      exact ⟨same, mutex, spinlock, cleared⟩
  | storeCount tmp => cases stepped

theorem Resetting.returns {mode : RaceMode} {pc : ResetPc} {shared next : Shared}
    (resetting : Resetting mode pc shared) (stepped : resetStep shared pc = some (next, none)) :
    next = ⟨mode, 0, 0, false, false, next.resetCount⟩ := by
  obtain ⟨same, mutex, spinlock, cleared⟩ := resetting
  cases pc with
  | storeCount tmp =>
      cases stepped
      obtain ⟨plain, atomic⟩ := cleared
      have free : shared.counterSpinlock = false := spinlock
      rw [same, mutex, free, plain, atomic]
  | lock =>
      have free : shared.held .spinlock = false := spinlock
      rw [resetStep, free] at stepped
      cases stepped
  | storePlain | unlock | setAtomic | loadCount => cases stepped

/-! ## One thread more -/

section Spawn
variable {increments : Nat} {s : Stress}

/-- The worker that `pthread_create` starts. -/
theorem fresh_caused (s : Stress) (increments : Nat) :
    Stress.caused increments (s.spawn ⟨increments, .loop⟩) = s.caused increments := by
  simp [Stress.caused, Pool.spawn, Worker.caused]

theorem fresh_path {P : IncPc → Prop} (path : ∀ worker ∈ s.parties, ∀ pc,
    worker.incPc = some pc → P pc) : ∀ worker ∈ (s.spawn ⟨increments, .loop⟩).parties, ∀ pc,
      worker.incPc = some pc → P pc :=
  forall_mem_spawn path nofun

theorem Racy.spawn (racy : Racy increments s) : Racy increments (s.spawn ⟨increments, .loop⟩) := by
  have caused := fresh_caused s increments
  refine ⟨fresh_path racy.path, ?_, ?_, forall_mem_spawn ?_ nofun, ?_⟩
  · rw [caused]
    exact racy.upper
  · rw [caused]
    exact racy.started
  · rw [caused]
    exact racy.loaded
  · obtain ⟨worker, member, low⟩ := racy.last
    exact ⟨worker, List.mem_append_left _ member, low⟩

theorem Locked.spawn {own : Lock} (locked : Locked own increments s) :
    Locked own increments (s.spawn ⟨increments, .loop⟩) := by
  refine ⟨fresh_path locked.path, ?_, locked.counted.trans (fresh_caused s increments).symm,
    forall_mem_spawn locked.loaded nofun⟩
  have nobody : Worker.inside own ⟨increments, .loop⟩ = false := rfl
  rw [Pool.spawn, List.countP_append, List.countP_singleton, nobody]
  exact locked.exclusive

theorem Atomic.spawn (atomic : Atomic increments s) :
    Atomic increments (s.spawn ⟨increments, .loop⟩) :=
  ⟨fresh_path atomic.path, atomic.counted.trans (fresh_caused s increments).symm⟩

theorem Contract.spawn {mode : RaceMode} {threads : Nat}
    (contract : Contract mode threads increments s) :
    Contract mode (threads + 1) increments (s.spawn ⟨increments, .loop⟩) := by
  obtain ⟨⟨same, workers, bounds⟩, counts⟩ := contract
  refine ⟨⟨same, ?_, forall_mem_spawn bounds ⟨Nat.le_refl _, nofun, nofun⟩⟩, ?_⟩
  · rw [Pool.spawn, List.length_append, List.length_singleton, workers]
  · cases mode with
    | none => exact Racy.spawn counts
    | spinlock | mutex => exact Locked.spawn counts
    | atomic => exact Atomic.spawn counts

end Spawn

/-! ## The whole process -/

/-- The threads below `i` have been joined. -/
def Joined (device : Stress) (i : Nat) : Prop :=
  ∀ (j : Nat) (worker : Worker), j < i → device.parties[j]? = some worker → worker.pc = .returned

/-- What is known of the device at a program point of `main`. -/
def Place (mode : RaceMode) (threads increments : Nat) (device : Stress) : MainPc → Prop
  | .start | .showMode => device.parties = [] ∧ Resetting mode .lock device.shared
  | .reset pc => device.parties = [] ∧ Resetting mode pc device.shared
  | .openDevice | .allocate | .create 0 =>
    device = .initial mode 0 increments device.shared.resetCount
  | .create (i + 1) => i + 1 ≤ threads ∧ Contract mode (i + 1) increments device
  | .join i => i ≤ threads ∧ Contract mode threads increments device ∧ Joined device i
  | .readCounter => Contract mode threads increments device ∧ Joined device threads
  | .loadCounter loaded =>
    Contract mode threads increments device ∧ Joined device threads ∧ loaded = mode
  | .exited _ => True

/-- The report and the exit status, for a counter that holds `actual`. -/
structure Reported (mode : RaceMode) (threads increments actual : Nat) (status : ExitStatus)
    (p : Process) : Prop where
  shown : p.shownMode = some (mode.number : Int)
  printed : p.report = some ⟨threads * increments, actual, threads * increments - actual⟩
  upper : actual ≤ threads * increments
  status : status = .success ↔ actual = threads * increments
  safe : mode ≠ .none → actual = threads * increments
  racy : mode = .none → min increments 2 ≤ actual

/-- What is known of the whole process after the labels `past`. -/
structure Known (mode : RaceMode) (threads increments : Nat) (past : List MainAct) (p : Process) :
    Prop where
  place : Place mode threads increments p.device p.pc
  early : (∀ status, p.pc ≠ .exited status) → p.report = none ∧ .fails ∉ past
  shown : (∀ status, p.pc ≠ .exited status) → p.pc ≠ .start → p.pc ≠ .showMode →
    p.shownMode = some (mode.number : Int)
  ended : ∀ status, p.pc = .exited status →
    (p.report = none ∧ status = .failure ∧ .fails ∈ past) ∨
      (.fails ∉ past ∧ ∃ actual, Reported mode threads increments actual status p)

/-- Where every thread has been joined, the counter is what the mode makes of it. -/
theorem Contract.counter_of_joined {mode : RaceMode} {threads increments : Nat} {device : Stress}
    (contract : Contract mode threads increments device) (joined : Joined device threads) :
    (mode ≠ .none → (currentCounterValue device.shared).toNat = threads * increments) ∧
      (mode = .none → min increments 2 ≤ (currentCounterValue device.shared).toNat ∧
        (currentCounterValue device.shared).toNat ≤ threads * increments) := by
  refine contract.counter_of_returned ?_
  intro worker member
  obtain ⟨j, found⟩ := List.mem_iff_getElem?.mp member
  obtain ⟨bound, _⟩ := List.getElem?_eq_some_iff.mp found
  exact joined j worker (contract.running.workers ▸ bound) found

theorem workerStep_of_returned {k : Nat} {shared : Shared} {worker : Worker}
    (done : worker.pc = .returned) : workerStep k () shared worker = none := by
  rw [workerStep, done]

theorem Joined.step {device next : Stress} {i k : Nat} (joined : Joined device i)
    (stepped : stressStep device k = some next) : Joined next i := by
  obtain ⟨worker, shared, moved, found, own, rfl⟩ := Pool.act_eq_some stepped
  intro j other below at_j
  rcases getElem?_set_cases at_j with ⟨rfl, rfl⟩ | ⟨_, old⟩
  · rw [workerStep_of_returned (joined j worker below found)] at own
    contradiction
  · exact joined j other below old

theorem Joined.still {mode : RaceMode} {threads increments k : Nat} {device next : Stress}
    (contract : Contract mode threads increments device) (joined : Joined device threads)
    (stepped : stressStep device k = some next) : False := by
  obtain ⟨worker, shared, moved, found, own, _⟩ := Pool.act_eq_some stepped
  obtain ⟨bound, _⟩ := List.getElem?_eq_some_iff.mp found
  rw [workerStep_of_returned (joined k worker (contract.running.workers ▸ bound) found)] at own
  contradiction

theorem no_step_of_empty {device next : Stress} {k : Nat} (empty : device.parties = [])
    (stepped : stressStep device k = some next) : False := by
  obtain ⟨worker, _, _, found, _⟩ := Pool.act_eq_some stepped
  rw [empty] at found
  contradiction

/-- The most steps that the process takes from a program point of `main` on, those
of the threads already started apart. -/
def MainPc.rank (threads increments : Nat) : MainPc → Nat
  | .start => 14 + threads + threads * (7 * increments + 2)
  | .showMode => 13 + threads + threads * (7 * increments + 2)
  | .reset pc => 6 + pc.stepsLeft + threads + threads * (7 * increments + 2)
  | .openDevice => 6 + threads + threads * (7 * increments + 2)
  | .allocate => 5 + threads + threads * (7 * increments + 2)
  | .create i => 4 + threads + (threads - i) * (7 * increments + 2)
  | .join i => 3 + (threads - i)
  | .readCounter => 2
  | .loadCounter _ => 1
  | .exited _ => 0

def Process.rank (threads increments : Nat) (p : Process) : Nat :=
  p.pc.rank threads increments + p.device.rank

section Step
variable {mode : RaceMode} {threads increments : Nat} {past : List MainAct} {p next : Process}

/-- A step of a process that goes on. -/
theorem Known.moves (known : Known mode threads increments past p) {act : MainAct}
    (running : ∀ status, p.pc ≠ .exited status) (willing : act ≠ .fails)
    (place : Place mode threads increments next.device next.pc)
    (runs_on : ∀ status, next.pc ≠ .exited status) (report : next.report = p.report)
    (shown : next.pc ≠ .start → next.pc ≠ .showMode →
      next.shownMode = some (mode.number : Int)) :
    Known mode threads increments (past ++ [act]) next := by
  obtain ⟨unprinted, unfailed⟩ := known.early running
  refine ⟨place, fun _ => ⟨report.trans unprinted, ?_⟩, fun _ => shown,
    fun status same => absurd same (runs_on status)⟩
  rw [List.mem_append, List.mem_singleton, not_or]
  exact ⟨unfailed, willing.symm⟩

/-- `main` has shown the mode and has not exited. -/
def MainPc.underWay : MainPc → Bool
  | .start | .showMode | .exited _ => false
  | _ => true

theorem MainPc.underWay_ne {pc : MainPc} (on : pc.underWay = true) :
    (∀ status, pc ≠ .exited status) ∧ pc ≠ .start ∧ pc ≠ .showMode := by
  refine ⟨fun status same => ?_, fun same => ?_, fun same => ?_⟩ <;> rw [same] at on <;>
    exact Bool.noConfusion on

/-- A step of `main` from one such program point to another. -/
theorem Known.advances (known : Known mode threads increments past p)
    (here : p.pc.underWay = true) (there : next.pc.underWay = true)
    (place : Place mode threads increments next.device next.pc)
    (report : next.report = p.report) (same : next.shownMode = p.shownMode) :
    Known mode threads increments (past ++ [.main]) next := by
  obtain ⟨running, started, mode_shown⟩ := MainPc.underWay_ne here
  exact known.moves running MainAct.noConfusion place (MainPc.underWay_ne there).1 report
    fun _ _ => same.trans (known.shown running started mode_shown)

theorem Known.fails (known : Known mode threads increments past p) {args : Args}
    (stepped : processStep args p .fails = some next) :
    Known mode threads increments (past ++ [.fails]) next ∧
      next.rank threads increments < p.rank threads increments := by
  simp only [processStep] at stepped
  split at stepped
  · rename_i can
    cases stepped
    have running : ∀ status, p.pc ≠ .exited status := by
      intro status same
      rw [same] at can
      contradiction
    have some_left : 0 < p.pc.rank threads increments := by
      cases pc : p.pc with
      | exited status => exact absurd pc (running status)
      | _ => simp only [MainPc.rank]; omega
    refine ⟨⟨trivial, fun on => absurd rfl (on .failure), fun on => absurd rfl (on .failure),
      fun status same => Or.inl ⟨(known.early running).1, ?_, ?_⟩⟩, ?_⟩
    · exact (MainPc.exited.inj same).symm
    · exact List.mem_append_right _ (List.mem_singleton.mpr rfl)
    · exact Nat.add_lt_add_right some_left _
  · contradiction

/-- A thread's step. -/
theorem Place.worker (total : threads * increments < 2 ^ 63) {device after : Stress} {pc : MainPc}
    {k : Nat} (place : Place mode threads increments device pc)
    (running : ∀ status, pc ≠ .exited status) (stepped : stressStep device k = some after) :
    Place mode threads increments after pc ∧ after.rank < device.rank := by
  have lowers {created : Nat} (contract : Contract mode created increments device) :
      after.rank < device.rank := by
    obtain ⟨_, _, _, _, _, _, _, lower, _⟩ := contract.running.step stepped
    exact lower
  have empty {resetCount : UInt64}
      (started : device = .initial mode 0 increments resetCount) : device.parties = [] := by
    rw [started]
    rfl
  cases pc with
  | start | showMode | reset pc => exact (no_step_of_empty place.1 stepped).elim
  | openDevice | allocate => exact (no_step_of_empty (empty place) stepped).elim
  | create i =>
      cases i with
      | zero => exact (no_step_of_empty (empty place) stepped).elim
      | succ i =>
          obtain ⟨bound, contract⟩ := place
          have small : (i + 1) * increments < 2 ^ 63 :=
            (Nat.mul_le_mul_right increments bound).trans_lt total
          exact ⟨⟨bound, step_contract small device k after contract stepped⟩, lowers contract⟩
  | join i =>
      obtain ⟨bound, contract, joined⟩ := place
      exact ⟨⟨bound, step_contract total device k after contract stepped, joined.step stepped⟩,
        lowers contract⟩
  | readCounter => exact (Joined.still place.1 place.2 stepped).elim
  | loadCounter loaded => exact (Joined.still place.1 place.2.1 stepped).elim
  | exited status => exact absurd rfl (running status)

theorem Known.worker (known : Known mode threads increments past p) {args : Args}
    (total : threads * increments < 2 ^ 63) {i : Nat}
    (stepped : processStep args p (.worker i) = some next) :
    Known mode threads increments (past ++ [.worker i]) next ∧
      next.rank threads increments < p.rank threads increments := by
  have running : ∀ status, p.pc ≠ .exited status := by
    intro status same
    rw [processStep, same] at stepped
    contradiction
  have moved : ∃ device, stressStep p.device i = some device ∧ next = { p with device } := by
    rw [processStep] at stepped
    cases pc : p.pc with
    | exited status => exact absurd pc (running status)
    | _ =>
        rw [pc] at stepped
        obtain ⟨device, own, same⟩ := Option.map_eq_some_iff.mp stepped
        exact ⟨device, own, same.symm⟩
  obtain ⟨device, own, rfl⟩ := moved
  obtain ⟨place, lower⟩ := known.place.worker total running own
  refine ⟨known.moves running MainAct.noConfusion place running rfl (known.shown running), ?_⟩
  exact Nat.add_lt_add_left lower _

/-- The write to `reset`, and the device it leaves. -/
theorem Place.reset {device : Stress} {pc : ResetPc} {shared : Shared} {after : Option ResetPc}
    (place : Place mode threads increments device (.reset pc))
    (stepped : resetStep device.shared pc = some (shared, after)) :
    (∀ later, after = some later →
      Place mode threads increments { device with shared } (.reset later) ∧
        later.stepsLeft < pc.stepsLeft) ∧
      (after = none → Place mode threads increments { device with shared } .openDevice) := by
  obtain ⟨empty, resetting⟩ := place
  constructor
  · rintro later rfl
    refine ⟨⟨empty, resetting.step stepped⟩, ?_⟩
    cases pc with
    | lock =>
        simp only [resetStep] at stepped
        split at stepped
        · contradiction
        · cases stepped
          decide
    | storePlain | unlock | setAtomic | loadCount =>
        cases stepped
        exact Nat.lt_succ_self _
    | storeCount tmp => cases stepped
  · rintro rfl
    have cleared := resetting.returns stepped
    have initial : ({ device with shared } : Stress) = ⟨shared, []⟩ := by rw [← empty]
    rw [Place, initial]
    exact congrArg (Pool.mk · []) cleared

/-- The thread that `pthread_create` starts as number `i`. -/
theorem Place.create {device : Stress} {i : Nat}
    (place : Place mode threads increments device (.create i)) (more : i < threads) :
    Place mode threads increments (device.spawn ⟨increments, .loop⟩) (.create (i + 1)) := by
  cases i with
  | zero =>
      have started : device = .initial mode 0 increments device.shared.resetCount := place
      rw [started]
      exact ⟨more, running_initial mode 1 increments _,
        counts_initial mode increments _ Nat.one_pos⟩
  | succ i => exact ⟨more, place.2.spawn⟩

/-- After the last of them. -/
theorem Place.all_created {device : Stress} {i : Nat}
    (place : Place mode threads increments device (.create i)) (some_thread : 0 < threads)
    (all : ¬ i < threads) : Place mode threads increments device (.join 0) := by
  cases i with
  | zero => exact absurd some_thread all
  | succ i =>
      obtain ⟨bound, contract⟩ := place
      have every : i + 1 = threads := by omega
      refine ⟨Nat.zero_le _, every ▸ contract, fun j worker below => ?_⟩
      exact absurd below (Nat.not_lt_zero j)

theorem rank_spawn (device : Stress) :
    Stress.rank (device.spawn ⟨increments, .loop⟩) = device.rank + (7 * increments + 1) := by
  simp [Stress.rank, Pool.spawn, Worker.rank]

theorem Joined.extend {device : Stress} {i : Nat} (joined : Joined device i)
    (returned : device.parties[i]?.map Worker.pc = some .returned) : Joined device (i + 1) := by
  intro j worker below found
  rcases Nat.lt_succ_iff_lt_or_eq.mp below with earlier | rfl
  · exact joined j worker earlier found
  · rw [found] at returned
    exact Option.some.inj returned

/-- The last step prints what the device holds. -/
theorem Known.prints (known : Known mode threads increments past p) {loaded : RaceMode}
    (pc : p.pc = .loadCounter loaded) (total : threads * increments < 2 ^ 63)
    (stepped : mainGoes ⟨threads, increments⟩ p = some next) :
    ∃ status actual, next.pc = .exited status ∧ next.device = p.device ∧
      Reported mode threads increments actual status next := by
  have place := known.place
  rw [pc] at place
  obtain ⟨contract, joined, rfl⟩ := place
  obtain ⟨safe, racy⟩ := contract.counter_of_joined joined
  have selected : loadSelected loaded p.device.shared = currentCounterValue p.device.shared := by
    rw [currentCounterValue, contract.running.mode]
    rfl
  have upper : (currentCounterValue p.device.shared).toNat ≤ threads * increments := by
    by_cases unsafe_mode : loaded = .none
    · exact (racy unsafe_mode).2
    · exact (safe unsafe_mode).le
  have shown := known.shown (fun status same => by rw [pc] at same; cases same)
    (fun same => by rw [pc] at same; cases same) (fun same => by rw [pc] at same; cases same)
  have actual : readLongFile (counterShown (loadSelected loaded p.device.shared)) =
      ((currentCounterValue p.device.shared).toNat : Int) := by
    rw [selected]
    exact readLongFile_counter (by omega)
  simp only [mainGoes, pc, actual] at stepped
  cases stepped
  refine ⟨_, (currentCounterValue p.device.shared).toNat, rfl, rfl, shown, rfl, upper, ?_, safe,
    fun unlocked => (racy unlocked).1⟩
  have expected : Args.expected ⟨threads, increments⟩ = ((threads * increments : Nat) : Int) :=
    (Int.natCast_mul threads increments).symm
  rw [expected]
  by_cases full : (currentCounterValue p.device.shared).toNat = threads * increments
  · rw [full]
    exact iff_of_true (if_neg (not_not.mpr rfl)) rfl
  · rw [if_pos (fun same => full (Int.ofNat_inj.mp same))]
    exact iff_of_false ExitStatus.noConfusion full

theorem Known.main (known : Known mode threads increments past p)
    (some_thread : 0 < threads) (some_increment : 0 < increments)
    (total : threads * increments < 2 ^ 63)
    (stepped : processStep ⟨threads, increments⟩ p .main = some next) :
    Known mode threads increments (past ++ [.main]) next ∧
      next.rank threads increments < p.rank threads increments := by
  obtain ⟨device, pc, shownMode, report⟩ := p
  have place := known.place
  rw [processStep] at stepped
  cases pc with
  | start =>
      have positive : ¬ ((threads : Int) ≤ 0 ∨ (increments : Int) ≤ 0) := by omega
      simp only [mainGoes, if_neg positive] at stepped
      cases stepped
      refine ⟨known.moves (fun _ => MainPc.noConfusion) MainAct.noConfusion place
        (fun _ => MainPc.noConfusion) rfl (fun _ other => absurd rfl other), ?_⟩
      simp only [Process.rank, MainPc.rank]
      omega
  | showMode =>
      cases stepped
      refine ⟨known.moves (fun _ => MainPc.noConfusion) MainAct.noConfusion place
        (fun _ => MainPc.noConfusion) rfl (fun _ _ => ?_), ?_⟩
      · dsimp only
        rw [readLongFile_mode, place.2.mode]
      · simp only [Process.rank, MainPc.rank, ResetPc.stepsLeft]
        omega
  | reset pc =>
      simp only [mainGoes] at stepped
      split at stepped
      · contradiction
      · rename_i shared later moved
        cases stepped
        obtain ⟨on, fewer⟩ := (place.reset moved).1 later rfl
        refine ⟨known.advances rfl rfl on rfl rfl, ?_⟩
        simp only [Process.rank, MainPc.rank, Stress.rank]
        omega
      · rename_i shared moved
        cases stepped
        refine ⟨known.advances rfl rfl ((place.reset moved).2 rfl) rfl rfl, ?_⟩
        have left : 0 < pc.stepsLeft := by cases pc <;> exact Nat.succ_pos _
        simp only [Process.rank, MainPc.rank, Stress.rank]
        omega
  | openDevice | allocate =>
      cases stepped
      refine ⟨known.advances rfl rfl place rfl rfl, ?_⟩
      simp only [Process.rank, MainPc.rank, Nat.sub_zero]
      omega
  | create i =>
      simp only [mainGoes, Int.ofNat_lt, Int.toNat_natCast] at stepped
      split at stepped
      · rename_i more
        cases stepped
        refine ⟨known.advances rfl rfl (place.create more) rfl rfl, ?_⟩
        have fewer : threads - i = (threads - (i + 1)) + 1 := by omega
        simp only [Process.rank, MainPc.rank, rank_spawn, fewer, Nat.succ_mul]
        omega
      · rename_i all
        cases stepped
        refine ⟨known.advances rfl rfl (place.all_created some_thread all) rfl rfl, ?_⟩
        simp only [Process.rank, MainPc.rank]
        omega
  | join i =>
      obtain ⟨bound, contract, joined⟩ := place
      simp only [mainGoes, Int.ofNat_lt] at stepped
      split at stepped
      · rename_i more
        split at stepped
        · rename_i returned
          cases stepped
          refine ⟨known.advances rfl rfl ⟨more, contract, joined.extend returned⟩ rfl rfl, ?_⟩
          simp only [Process.rank, MainPc.rank]
          omega
        · contradiction
      · rename_i all
        cases stepped
        have every : i = threads := by omega
        refine ⟨known.advances rfl rfl ⟨contract, every ▸ joined⟩ rfl rfl, ?_⟩
        simp only [Process.rank, MainPc.rank]
        omega
  | readCounter =>
      cases stepped
      refine ⟨known.advances rfl rfl ⟨place.1, place.2, place.1.running.mode⟩ rfl rfl, ?_⟩
      simp only [Process.rank, MainPc.rank]
      omega
  | loadCounter loaded =>
      obtain ⟨status, actual, ended, same, reported⟩ := known.prints rfl total stepped
      refine ⟨⟨ended ▸ trivial, fun on => absurd ended (on status),
        fun on => absurd ended (on status), fun other again => Or.inr ⟨?_, actual, ?_⟩⟩, ?_⟩
      · rw [List.mem_append, List.mem_singleton, not_or]
        exact ⟨(known.early (fun _ => MainPc.noConfusion)).2, MainAct.noConfusion⟩
      · cases MainPc.exited.inj (ended.symm.trans again)
        exact reported
      · rw [Process.rank, Process.rank, ended, same]
        exact Nat.add_lt_add_right Nat.one_pos _
  | exited status => contradiction

end Step

/-- With a number that is not positive `main` exits at once, after its usage line. -/
theorem usage_exit {args : Args} (unusable : args.numThreads ≤ 0 ∨ args.incrementsPerThread ≤ 0)
    (mode : RaceMode) (counterPlain counterAtomic resetCount : UInt64) {acts : List MainAct}
    {p : Process} (ran : run (processStep args)
      (.initial mode counterPlain counterAtomic resetCount) acts = some p) :
    p.report = none ∧ (p.pc = .start ∧ acts = [] ∨ p.pc = .exited .failure ∧ acts = [.main]) := by
  cases acts with
  | nil =>
      cases Option.some.inj ran
      exact ⟨rfl, Or.inl ⟨rfl, rfl⟩⟩
  | cons act rest =>
      obtain ⟨next, stepped, ranRest⟩ := (run_cons_eq_some _).mp ran
      cases act with
      | fails | worker i => contradiction
      | main =>
          simp only [processStep, mainGoes, Process.initial, if_pos unusable] at stepped
          cases Option.some.inj stepped
          cases rest with
          | nil =>
              cases Option.some.inj ranRest
              exact ⟨rfl, Or.inr ⟨rfl, rfl⟩⟩
          | cons second later =>
              obtain ⟨_, again, _⟩ := (run_cons_eq_some _).mp ranRest
              cases second <;> contradiction

end RaceDemo
