import KernelLabs.Kernel.Basic
import KernelLabs.Lib.Machine
import KernelLabs.Lib.Pool
import KernelLabs.Lib.LockWord

/-!
# The two heartbeats of `14_timers_workqueues/timers_workqueues.c`

Each CPU is a stack of at most two contexts: the task in process context, or
none when the CPU idles, and above it the timer softirq that interrupted it.
Only the top context of a CPU runs.  `spin_lock` disables preemption and spins;
it leaves bottom halves enabled, so the softirq may start on a CPU wherever its
task stands, inside the critical section too.

The tasks are the kworkers, one of which picks up `heartbeat_work` each time its
delay is over, and the callers of `stats_show`.
-/

set_option autoImplicit false

namespace TimersWorkqueues

open Kernel LabelledMachine PartyPool LockWord

def flagDigit (flag : Bool) : Bytes := if flag then [49] else [48]

/-- `format_ctx`, with the answers of the context predicates of the kernel. -/
def formatCtx (size : Nat) (inInterrupt inSoftirq inTask preemptible : Bool)
    (current : Identity) : Bytes :=
  scnprintf size (ascii "in_interrupt=" ++ flagDigit inInterrupt ++ ascii " in_softirq=" ++
    flagDigit inSoftirq ++ ascii " in_task=" ++ flagDigit inTask ++ ascii " preemptible=" ++
    flagDigit preemptible ++ ascii " comm=" ++ current.comm ++ ascii " pid=" ++
    decimal current.pid)

structure Stats where
  statsLock : Bool
  timerTicks : UInt64
  timerLastCtx : Bytes
  workTicks : UInt64
  workLastCtx : Bytes
  timerPending : Bool
  workPending : Bool
  deriving DecidableEq, Repr

structure Snapshot where
  tTicks : UInt64
  wTicks : UInt64
  tCtx : Bytes
  wCtx : Bytes
  deriving DecidableEq, Repr

inductive TimerPc where
  | format
  | spin (ctx : Bytes)
  | tick (ctx : Bytes)
  | copy (ctx : Bytes)
  | unlock
  | modTimer
  deriving DecidableEq, Repr

/-- The tasks: `heartbeat_work_fn` on the kworker, and `stats_show`. -/
inductive TaskPc where
  | workIdle
  | workUsleep
  | workFormat
  | workPreemptOff (ctx : Bytes)
  | workSpin (ctx : Bytes)
  | workTick (ctx : Bytes)
  | workCopy (ctx : Bytes)
  | workUnlock
  | workSchedule
  | showPreemptOff
  | showSpin
  | showTicks
  | showCtxs (tTicks wTicks : UInt64)
  | showUnlock (snapshot : Snapshot)
  | showEmit (snapshot : Snapshot)
  | showDone (text : Bytes)
  deriving DecidableEq, Repr

structure Task where
  identity : Identity
  pc : TaskPc
  deriving DecidableEq, Repr

def TimerPc.holds : TimerPc → Bool
  | .tick _ | .copy _ | .unlock => true
  | _ => false

def TaskPc.holds : TaskPc → Bool
  | .workTick _ | .workCopy _ | .workUnlock => true
  | .showTicks | .showCtxs _ _ | .showUnlock _ => true
  | _ => false

/-- Preemption is off from the first half of `spin_lock` to the end of
`spin_unlock`. -/
def TaskPc.preemptible : TaskPc → Bool
  | .workSpin _ | .showSpin => false
  | pc => !pc.holds

def Task.holds (task : Task) : Bool := task.pc.holds

def statsText (snapshot : Snapshot) : Bytes :=
  scnprintf 4096 (ascii "timer_ticks=" ++ decimal snapshot.tTicks.toNat ++ [10] ++
    ascii "timer_last_ctx: " ++ snapshot.tCtx ++ [10] ++ ascii "work_ticks=" ++
    decimal snapshot.wTicks.toNat ++ [10] ++ ascii "work_last_ctx: " ++ snapshot.wCtx ++ [10])

/-- One instruction of the softirq; `none` as its program point is the return
from `heartbeat_timer_fn`. -/
def timerStep (current : Identity) (stats : Stats) : TimerPc → Option (Stats × Option TimerPc)
  | .format => some (stats, some (.spin (formatCtx 128 true true false false current)))
  | .spin ctx =>
    if stats.statsLock then none else some ({ stats with statsLock := true }, some (.tick ctx))
  | .tick ctx => some ({ stats with timerTicks := stats.timerTicks + 1 }, some (.copy ctx))
  | .copy ctx => some ({ stats with timerLastCtx := strscpy 128 ctx }, some .unlock)
  | .unlock => some ({ stats with statsLock := false }, some .modTimer)
  | .modTimer => some ({ stats with timerPending := true }, none)

def taskStep (_i : Nat) (_ : Unit) (stats : Stats) (task : Task) : Option (Stats × Task) :=
  match task.pc with
  | .workIdle =>
    if stats.workPending then
      some ({ stats with workPending := false }, { task with pc := .workUsleep })
    else none
  | .workUsleep => some (stats, { task with pc := .workFormat })
  | .workFormat =>
    let ctx := formatCtx 128 false false true true task.identity
    some (stats, { task with pc := .workPreemptOff ctx })
  | .workPreemptOff ctx => some (stats, { task with pc := .workSpin ctx })
  | .workSpin ctx =>
    if stats.statsLock then none
    else some ({ stats with statsLock := true }, { task with pc := .workTick ctx })
  | .workTick ctx =>
    some ({ stats with workTicks := stats.workTicks + 1 }, { task with pc := .workCopy ctx })
  | .workCopy ctx =>
    some ({ stats with workLastCtx := strscpy 128 ctx }, { task with pc := .workUnlock })
  | .workUnlock => some ({ stats with statsLock := false }, { task with pc := .workSchedule })
  | .workSchedule => some ({ stats with workPending := true }, { task with pc := .workIdle })
  | .showPreemptOff => some (stats, { task with pc := .showSpin })
  | .showSpin =>
    if stats.statsLock then none
    else some ({ stats with statsLock := true }, { task with pc := .showTicks })
  | .showTicks => some (stats, { task with pc := .showCtxs stats.timerTicks stats.workTicks })
  | .showCtxs tTicks wTicks =>
    let snapshot : Snapshot :=
      ⟨tTicks, wTicks, strscpy 128 stats.timerLastCtx, strscpy 128 stats.workLastCtx⟩
    some (stats, { task with pc := .showUnlock snapshot })
  | .showUnlock snapshot =>
    some ({ stats with statsLock := false }, { task with pc := .showEmit snapshot })
  | .showEmit snapshot => some (stats, { task with pc := .showDone (statsText snapshot) })
  | .showDone _ => none

structure Cpu where
  current : Option Nat
  softirq : Option TimerPc
  deriving DecidableEq, Repr

structure System where
  tasks : Pool Stats Task
  cpus : List Cpu
  deriving DecidableEq, Repr

/-- After init, on any number of CPUs and with any kworkers: both heartbeats are
armed. -/
def System.initial (cpuCount : Nat) (kworkers : List Identity) : System where
  tasks := ⟨⟨false, 0, [], 0, [], true, true⟩, kworkers.map fun kworker => ⟨kworker, .workIdle⟩⟩
  cpus := List.replicate cpuCount ⟨none, none⟩

/-- The task in process context on a CPU, which a softirq there has interrupted. -/
def System.processContext (s : System) (cpu : Cpu) : Option Task :=
  cpu.current.bind fun t => s.tasks.parties[t]?

/-- `current` on a CPU; the idle task is `swapper` with pid 0. -/
def System.identity (s : System) (c : Nat) (cpu : Cpu) : Identity :=
  match s.processContext cpu with
  | some task => task.identity
  | none => ⟨ascii "swapper/" ++ decimal c, 0⟩

inductive Act where
  -- A process enters `stats_show`.
  | callShow (caller : Identity)
  | schedule (c : Nat) (next : Option Nat)
  -- The timer expires on this CPU.
  | softirq (c : Nat)
  -- The top context of this CPU runs one instruction.
  | run (c : Nat)
  deriving DecidableEq, Repr

/-- A task is switched in on a CPU that is not in softirq and whose own task can
be preempted, and it runs nowhere else. -/
def canSchedule (s : System) (c : Nat) (next : Option Nat) : Bool :=
  match s.cpus[c]? with
  | some ⟨current, none⟩ =>
    (s.processContext ⟨current, none⟩).all (fun task => task.pc.preemptible) &&
      next.all fun t => decide (t < s.tasks.parties.length) &&
        s.cpus.all fun cpu => cpu.current != some t
  | _ => false

def step (s : System) : Act → Option System
  | .callShow caller => some { s with tasks := s.tasks.spawn ⟨caller, .showPreemptOff⟩ }
  | .schedule c next =>
    if canSchedule s c next then some { s with cpus := s.cpus.set c ⟨next, none⟩ } else none
  | .softirq c =>
    match s.cpus[c]? with
    | some ⟨current, none⟩ =>
      if s.tasks.shared.timerPending then
        some { tasks := { s.tasks with shared := { s.tasks.shared with timerPending := false } },
               cpus := s.cpus.set c ⟨current, some .format⟩ }
      else none
    | _ => none
  | .run c =>
    match s.cpus[c]? with
    | some ⟨current, some pc⟩ =>
      (timerStep (s.identity c ⟨current, some pc⟩) s.tasks.shared pc).map fun (stats, softirq) =>
        { tasks := { s.tasks with shared := stats }, cpus := s.cpus.set c ⟨current, softirq⟩ }
    | some ⟨some t, none⟩ => (s.tasks.act taskStep t ()).map fun tasks => { s with tasks }
    | _ => none

end TimersWorkqueues
