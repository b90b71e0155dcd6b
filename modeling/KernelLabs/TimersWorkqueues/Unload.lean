import KernelLabs.TimersWorkqueues.Heartbeat

/-!
# Loading and unloading `timers_workqueues`

`timers_workqueues_init` and `timers_workqueues_exit` statement by statement,
beside the softirqs, the kworkers and the readers.  Both heartbeats re-arm
themselves, so the exit has to end two callbacks that may be anywhere.

The kernel's part: `timer_shutdown_sync` makes every later `mod_timer` void,
takes the timer off the queue and waits for a callback that runs;
`cancel_delayed_work_sync` takes the work off the queue, makes its queueing void
until it returns, and waits for a work function that runs; `sysfs_remove_group`
waits for the readers inside.
-/

set_option autoImplicit false

namespace TimersWorkqueues

open Kernel LabelledMachine PartyPool

inductive Phase where
  | start
  | kobjectAdded
  | groupCreated
  | timerArmed
  | loaded
  | failed (ret : Errno)
  -- Inside `timer_shutdown_sync`.
  | shuttingTimer
  | timerShutDown
  -- Inside `cancel_delayed_work_sync`.
  | cancellingWork
  | workCancelled
  | groupRemoved
  -- Unloaded, with the counters of the last log line.
  | unloaded (timerTicks workTicks : UInt64)
  deriving DecidableEq, Repr

structure Lab where
  system : System
  phase : Phase
  timerOff : Bool
  deriving DecidableEq, Repr

/-- Before init: nothing is armed. -/
def Lab.initial (cpuCount : Nat) (kworkers : List Identity) : Lab where
  system :=
    { tasks :=
        ⟨⟨false, 0, [], 0, [], false, false⟩, kworkers.map fun kworker => ⟨kworker, .workIdle⟩⟩
      cpus := List.replicate cpuCount ⟨none, none⟩ }
  phase := .start
  timerOff := false

def System.stats (s : System) : Stats := s.tasks.shared

/-- `heartbeat_timer_fn` runs on some CPU. -/
def System.timerRuns (s : System) : Bool := s.cpus.any fun cpu => cpu.softirq.isSome

/-- Inside `heartbeat_work_fn`. -/
def TaskPc.works : TaskPc → Bool
  | .workUsleep | .workFormat | .workPreemptOff _ | .workSpin _ | .workTick _ | .workCopy _
  | .workUnlock | .workSchedule => true
  | _ => false

/-- Inside `stats_show`. -/
def TaskPc.shows : TaskPc → Bool
  | .showPreemptOff | .showSpin | .showTicks | .showCtxs _ _ | .showUnlock _ | .showEmit _ => true
  | _ => false

def System.workRuns (s : System) : Bool := s.tasks.parties.any fun task => task.pc.works

def System.shows (s : System) : Bool := s.tasks.parties.any fun task => task.pc.shows

def System.arm (s : System) (timerPending workPending : Bool) : System :=
  { s with tasks := { s.tasks with shared :=
    { s.tasks.shared with timerPending := timerPending, workPending := workPending } } }

/-- `/sys/kernel/timers_workqueues/stats` can be read. -/
def Phase.hasGroup : Phase → Bool
  | .start | .kobjectAdded | .failed _ | .groupRemoved | .unloaded _ _ => false
  | _ => true

/-- A driver's step as the shut-down timer and the cancelled work let it through. -/
def Lab.throughKernel (lab : Lab) (next : System) : System :=
  next.arm (next.stats.timerPending && (lab.system.stats.timerPending || !lab.timerOff))
    (next.stats.workPending &&
      (lab.system.stats.workPending || lab.phase != .cancellingWork))

def initStep (lab : Lab) (failure : Option Errno) : Option Lab :=
  match lab.phase, failure with
  | .start, none => some { lab with phase := .kobjectAdded }
  | .start, some _ => some { lab with phase := .failed .enomem }
  | .kobjectAdded, none => some { lab with phase := .groupCreated }
  | .kobjectAdded, some e => some { lab with phase := .failed e }
  | .groupCreated, none =>
    some { lab with
      system := lab.system.arm true lab.system.stats.workPending, phase := .timerArmed }
  | .timerArmed, none =>
    some { lab with
      system := lab.system.arm lab.system.stats.timerPending true, phase := .loaded }
  | _, _ => none

def exitStep (lab : Lab) : Option Lab :=
  match lab.phase with
  | .loaded =>
    -- a timer that runs is left to the wait
    let pending := lab.system.stats.timerPending && lab.system.timerRuns
    some ⟨lab.system.arm pending lab.system.stats.workPending, .shuttingTimer, true⟩
  | .shuttingTimer =>
    if lab.system.timerRuns then none
    else some { lab with
      system := lab.system.arm false lab.system.stats.workPending, phase := .timerShutDown }
  | .timerShutDown =>
    some { lab with
      system := lab.system.arm lab.system.stats.timerPending false, phase := .cancellingWork }
  | .cancellingWork =>
    if lab.system.workRuns then none else some { lab with phase := .workCancelled }
  | .workCancelled => if lab.system.shows then none else some { lab with phase := .groupRemoved }
  | .groupRemoved =>
    some { lab with
      phase := .unloaded lab.system.stats.timerTicks lab.system.stats.workTicks }
  | _ => none

inductive LabAct where
  | driver (act : Act)
  | init (failure : Option Errno)
  | exit
  deriving DecidableEq, Repr

def labStep (lab : Lab) : LabAct → Option Lab
  | .driver (.callShow caller) =>
    if lab.phase.hasGroup then
      (step lab.system (.callShow caller)).map fun next => { lab with system := next }
    else none
  | .driver act =>
    (step lab.system act).map fun next => { lab with system := lab.throughKernel next }
  | .init failure => initStep lab failure
  | .exit => exitStep lab

/-! ## What the driver can start by itself -/

/-- The parts of the driver that a step may set going only from each other. -/
structure Inherits (s next : System) : Prop where
  timerRuns : next.timerRuns = true → s.timerRuns = true ∨ s.stats.timerPending = true
  timerPending : next.stats.timerPending = true →
    s.stats.timerPending = true ∨ s.timerRuns = true
  workRuns : next.workRuns = true → s.workRuns = true ∨ s.stats.workPending = true
  workPending : next.stats.workPending = true → s.stats.workPending = true ∨ s.workRuns = true
  shows : next.shows = true → s.shows = true
  timerTicks : s.timerRuns = false → next.stats.timerTicks = s.stats.timerTicks
  workTicks : s.workRuns = false → next.stats.workTicks = s.stats.workTicks

theorem taskStep_inherits {i : Nat} {stats next : Stats} {task moved : Task}
    (stepped : taskStep i () stats task = some (next, moved)) :
    (moved.pc.works = true → task.pc.works = true ∨ stats.workPending = true) ∧
      (moved.pc.shows = true → task.pc.shows = true) ∧
      (next.workPending = true → stats.workPending = true ∨ task.pc.works = true) ∧
      next.timerPending = stats.timerPending ∧ next.timerTicks = stats.timerTicks ∧
      (task.pc.works = false → next.workTicks = stats.workTicks) := by
  obtain ⟨identity, pc⟩ := task
  cases pc with
  | workIdle =>
      simp only [taskStep] at stepped
      split at stepped
      · rename_i pending
        cases stepped
        exact ⟨fun _ => Or.inr pending, nofun, nofun, rfl, rfl, fun _ => rfl⟩
      · contradiction
  | workSpin ctx | showSpin =>
      simp only [taskStep] at stepped
      split at stepped
      · contradiction
      · cases stepped
        exact ⟨Or.inl, id, Or.inl, rfl, rfl, fun _ => rfl⟩
  | workUsleep | workFormat | workPreemptOff ctx | workCopy ctx | workUnlock =>
      cases stepped
      exact ⟨fun _ => Or.inl rfl, nofun, Or.inl, rfl, rfl, fun _ => rfl⟩
  | workTick ctx =>
      cases stepped
      exact ⟨fun _ => Or.inl rfl, nofun, Or.inl, rfl, rfl, nofun⟩
  | workSchedule =>
      cases stepped
      exact ⟨nofun, nofun, fun _ => Or.inr rfl, rfl, rfl, fun _ => rfl⟩
  | showPreemptOff | showTicks | showCtxs tTicks wTicks | showUnlock snapshot
  | showEmit snapshot =>
      cases stepped
      exact ⟨nofun, fun _ => rfl, Or.inl, rfl, rfl, fun _ => rfl⟩
  | showDone text => contradiction

theorem timerStep_inherits {identity : Identity} {stats next : Stats} {pc : TimerPc}
    {after : Option TimerPc} (stepped : timerStep identity stats pc = some (next, after)) :
    next.workPending = stats.workPending ∧ next.workTicks = stats.workTicks := by
  cases pc with
  | spin ctx =>
      simp only [timerStep] at stepped
      split at stepped
      · contradiction
      · cases stepped
        exact ⟨rfl, rfl⟩
  | format | tick ctx | copy ctx | unlock | modTimer =>
      cases stepped
      exact ⟨rfl, rfl⟩

theorem step_inherits {s next : System} {act : Act} (stepped : step s act = some next)
    (driver : ∀ caller, act ≠ .callShow caller) : Inherits s next := by
  cases act with
  | callShow caller => exact absurd rfl (driver caller)
  | schedule c switched =>
      simp only [step] at stepped
      split at stepped
      · cases stepped
        refine ⟨fun runs => ?_, Or.inl, Or.inl, Or.inl, id, fun _ => rfl, fun _ => rfl⟩
        rcases any_set runs with own | old
        · contradiction
        · exact Or.inl old
      · contradiction
  | softirq c =>
      simp only [step] at stepped
      split at stepped
      · split at stepped
        · rename_i pending
          cases stepped
          exact ⟨fun _ => Or.inr pending, nofun, Or.inl, Or.inl, id, fun _ => rfl, fun _ => rfl⟩
        · contradiction
      · contradiction
  | run c =>
      simp only [step] at stepped
      split at stepped
      · rename_i current pc found
        obtain ⟨⟨stats, after⟩, own, rfl⟩ := Option.map_eq_some_iff.mp stepped
        obtain ⟨pending, ticks⟩ := timerStep_inherits own
        have runs : s.timerRuns = true := any_of_getElem? found rfl
        refine ⟨fun _ => Or.inl runs, fun _ => Or.inr runs, Or.inl, fun armed => ?_, id,
          fun idle => absurd (runs.symm.trans idle) (by decide), fun _ => ticks⟩
        exact Or.inl (pending.symm.trans armed)
      · rename_i t found
        obtain ⟨tasks, acted, rfl⟩ := Option.map_eq_some_iff.mp stepped
        obtain ⟨task, stats, moved, taskFound, own, rfl⟩ := Pool.act_eq_some acted
        obtain ⟨works, shows, workPending, timerPending, timerTicks, workTicks⟩ :=
          taskStep_inherits own
        refine ⟨Or.inl, fun armed => Or.inl (timerPending.symm.trans armed), fun runs => ?_,
          fun armed => ?_, fun shown => ?_, fun _ => timerTicks, fun idle => ?_⟩
        · rcases any_set runs with own | old
          · exact (works own).imp_left (any_of_getElem? taskFound)
          · exact Or.inl old
        · exact (workPending armed).imp_right (any_of_getElem? taskFound)
        · rcases any_set shown with own | old
          · exact any_of_getElem? taskFound (shows own)
          · exact old
        · refine workTicks ?_
          cases works : task.pc.works with
          | false => rfl
          | true =>
              have runs : s.workRuns = true := any_of_getElem? taskFound works
              exact absurd (runs.symm.trans idle) (by decide)
      · contradiction

/-! ## Every stage of loading and unloading -/

/-- The timer has not been armed yet, or has been shut down. -/
def Phase.timerGone : Phase → Bool
  | .timerArmed | .loaded | .shuttingTimer => false
  | _ => true

def Phase.workOff : Phase → Bool
  | .loaded | .shuttingTimer | .timerShutDown => false
  | _ => true

/-- The work has not been queued yet, or has been cancelled for good. -/
def Phase.workGone (phase : Phase) : Bool := phase.workOff && phase != .cancellingWork

structure Quieting (lab : Lab) : Prop where
  timer : lab.phase.timerGone = true →
    lab.system.stats.timerPending = false ∧ lab.system.timerRuns = false
  workOff : lab.phase.workOff = true → lab.system.stats.workPending = false
  workGone : lab.phase.workGone = true → lab.system.workRuns = false
  group : lab.phase.hasGroup = false → lab.system.shows = false
  logged : ∀ timerTicks workTicks, lab.phase = .unloaded timerTicks workTicks →
    timerTicks = lab.system.stats.timerTicks ∧ workTicks = lab.system.stats.workTicks

theorem quieting_initial (cpuCount : Nat) (kworkers : List Identity) :
    Quieting (Lab.initial cpuCount kworkers) := by
  have noSoftirq : (Lab.initial cpuCount kworkers).system.timerRuns = false := by
    refine List.any_eq_false.mpr fun cpu member => ?_
    rw [List.eq_of_mem_replicate member]
    decide
  have idle (p : Task → Bool) (atIdle : ∀ kworker, p ⟨kworker, .workIdle⟩ = false) :
      (Lab.initial cpuCount kworkers).system.tasks.parties.any p = false := by
    refine List.any_eq_false.mpr fun task member => ?_
    obtain ⟨kworker, _, rfl⟩ := List.mem_map.mp member
    rw [atIdle kworker]
    decide
  exact ⟨fun _ => ⟨rfl, noSoftirq⟩, fun _ => rfl, fun _ => idle _ fun _ => rfl,
    fun _ => idle _ fun _ => rfl, nofun⟩

/-- What inherits from nothing is nothing. -/
theorem eq_false_of_inherits {was other now : Bool}
    (inherits : now = true → was = true ∨ other = true) (wasNot : was = false)
    (otherNot : other = false) : now = false := by
  cases now with
  | false => rfl
  | true => rcases inherits rfl with here | here <;> simp_all

theorem Quieting.driver {lab : Lab} (quieting : Quieting lab) {next : System}
    (inherits : Inherits lab.system next) :
    Quieting { lab with system := lab.throughKernel next } := by
  obtain ⟨timer, workOff, workGone, group, logged⟩ := quieting
  refine ⟨?_, ?_, ?_, ?_, ?_⟩
  · intro gone
    obtain ⟨pending, runs⟩ := timer gone
    have still := eq_false_of_inherits inherits.timerPending pending runs
    refine ⟨?_, eq_false_of_inherits inherits.timerRuns runs pending⟩
    simp only [Lab.throughKernel, System.stats, System.arm] at still ⊢
    rw [still, Bool.false_and]
  · intro off
    have pending := workOff off
    simp only [Lab.throughKernel, System.stats, System.arm] at pending ⊢
    by_cases cancelling : lab.phase = .cancellingWork
    · simp [pending, cancelling]
    · have gone : lab.phase.workGone = true := by
        simp [Phase.workGone, off, cancelling]
      have still := eq_false_of_inherits inherits.workPending pending (workGone gone)
      simp only [System.stats] at still
      rw [still, Bool.false_and]
  · intro gone
    have off : lab.phase.workOff = true := by
      simp only [Phase.workGone, Bool.and_eq_true] at gone
      exact gone.1
    exact eq_false_of_inherits inherits.workRuns (workGone gone) (workOff off)
  · intro noGroup
    have hidden := group noGroup
    cases shows : next.shows with
    | false => exact shows
    | true => exact absurd ((inherits.shows shows).symm.trans hidden) (by decide)
  · intro timerTicks workTicks phase
    obtain ⟨timers, works⟩ := logged timerTicks workTicks phase
    dsimp only at phase
    rw [phase] at timer workGone
    exact ⟨timers.trans (inherits.timerTicks (timer rfl).2).symm,
      works.trans (inherits.workTicks (workGone rfl)).symm⟩

theorem Quieting.callShow {lab : Lab} (quieting : Quieting lab)
    (hasGroup : lab.phase.hasGroup = true) (caller : Identity) :
    Quieting { lab with system :=
      { lab.system with tasks := lab.system.tasks.spawn ⟨caller, .showPreemptOff⟩ } } := by
  refine ⟨quieting.timer, quieting.workOff, ?_, ?_, quieting.logged⟩
  · intro gone
    simp only [System.workRuns, Pool.spawn, List.any_append, List.any_cons, List.any_nil]
    have still := quieting.workGone gone
    rw [System.workRuns] at still
    rw [still]
    rfl
  · intro noGroup
    exact absurd (hasGroup.symm.trans noGroup) (by decide)

theorem Quieting.init {lab next : Lab} {failure : Option Errno} (quieting : Quieting lab)
    (stepped : initStep lab failure = some next) : Quieting next := by
  obtain ⟨timer, workOff, workGone, group, logged⟩ := quieting
  obtain ⟨system, phase, timerOff⟩ := lab
  cases phase with
  | start | kobjectAdded =>
      cases failure <;> cases stepped <;>
        exact ⟨timer, workOff, workGone, fun _ => group rfl, nofun⟩
  | groupCreated =>
      cases failure with
      | none =>
          cases stepped
          exact ⟨nofun, workOff, workGone, nofun, nofun⟩
      | some e => contradiction
  | timerArmed =>
      cases failure with
      | none =>
          cases stepped
          exact ⟨nofun, nofun, nofun, nofun, nofun⟩
      | some e => contradiction
  | loaded | failed ret | shuttingTimer | timerShutDown | cancellingWork | workCancelled
  | groupRemoved | unloaded timerTicks workTicks => contradiction

theorem Quieting.exit {lab next : Lab} (quieting : Quieting lab)
    (stepped : exitStep lab = some next) : Quieting next := by
  obtain ⟨timer, workOff, workGone, group, logged⟩ := quieting
  obtain ⟨system, phase, timerOff⟩ := lab
  cases phase with
  | loaded =>
      cases stepped
      exact ⟨nofun, nofun, nofun, nofun, nofun⟩
  | shuttingTimer =>
      simp only [exitStep] at stepped
      split at stepped
      · contradiction
      · rename_i stopped
        cases stepped
        exact ⟨fun _ => ⟨rfl, Bool.eq_false_of_not_eq_true stopped⟩, nofun, nofun, nofun, nofun⟩
  | timerShutDown =>
      cases stepped
      exact ⟨fun _ => timer rfl, fun _ => rfl, nofun, nofun, nofun⟩
  | cancellingWork =>
      simp only [exitStep] at stepped
      split at stepped
      · contradiction
      · rename_i stopped
        cases stepped
        exact ⟨fun _ => timer rfl, fun _ => workOff rfl,
          fun _ => Bool.eq_false_of_not_eq_true stopped, nofun, nofun⟩
  | workCancelled =>
      simp only [exitStep] at stepped
      split at stepped
      · contradiction
      · rename_i out
        cases stepped
        exact ⟨fun _ => timer rfl, fun _ => workOff rfl, fun _ => workGone rfl,
          fun _ => Bool.eq_false_of_not_eq_true out, nofun⟩
  | groupRemoved =>
      cases stepped
      refine ⟨fun _ => timer rfl, fun _ => workOff rfl, fun _ => workGone rfl,
        fun _ => group rfl, ?_⟩
      intro timerTicks workTicks phase
      cases phase
      exact ⟨rfl, rfl⟩
  | start | kobjectAdded | groupCreated | timerArmed | failed ret
  | unloaded timerTicks workTicks => contradiction

theorem Quieting.step {lab next : Lab} {act : LabAct} (quieting : Quieting lab)
    (stepped : labStep lab act = some next) : Quieting next := by
  cases act with
  | init failure => exact quieting.init stepped
  | exit => exact quieting.exit stepped
  | driver act =>
      cases act with
      | callShow caller =>
          simp only [labStep] at stepped
          split at stepped
          · rename_i hasGroup
            cases stepped
            exact quieting.callShow hasGroup caller
          · contradiction
      | schedule c switched | softirq c | run c =>
          obtain ⟨after, own, rfl⟩ := Option.map_eq_some_iff.mp stepped
          exact quieting.driver (step_inherits own nofun)

theorem quieting_reached {cpuCount : Nat} {kworkers : List Identity} {acts : List LabAct}
    {lab : Lab} (reached : run labStep (Lab.initial cpuCount kworkers) acts = some lab) :
    Quieting lab :=
  invariant_run (fun _ _ _ quieting stepped => quieting.step stepped)
    (quieting_initial cpuCount kworkers) reached

/-- Init has failed, or exit has returned. -/
def Phase.ended : Phase → Bool
  | .failed _ | .unloaded _ _ => true
  | _ => false

/-- Nothing of the module runs, and nothing is left that could start it. -/
structure Silent (s : System) : Prop where
  noTimer : s.stats.timerPending = false ∧ s.timerRuns = false
  noWork : s.stats.workPending = false ∧ s.workRuns = false
  noShow : s.shows = false

theorem silent_of_ended {lab : Lab} (quieting : Quieting lab) (ended : lab.phase.ended = true) :
    Silent lab.system := by
  obtain ⟨timer, workOff, workGone, group, _⟩ := quieting
  cases phase : lab.phase with
  | failed ret | unloaded timerTicks workTicks =>
      rw [phase] at timer workOff workGone group
      exact ⟨timer rfl, ⟨workOff rfl, workGone rfl⟩, group rfl⟩
  | start | kobjectAdded | groupCreated | timerArmed | loaded | shuttingTimer | timerShutDown
  | cancellingWork | workCancelled | groupRemoved =>
      rw [phase] at ended
      contradiction

/-- Once it is over only the scheduler has anything to do. -/
theorem ended_step {lab next : Lab} {act : LabAct} (quieting : Quieting lab)
    (ended : lab.phase.ended = true) (stepped : labStep lab act = some next) :
    next.phase = lab.phase ∧ next.system.stats.timerTicks = lab.system.stats.timerTicks ∧
      next.system.stats.workTicks = lab.system.stats.workTicks := by
  have silent := silent_of_ended quieting ended
  cases act with
  | init failure =>
      cases phase : lab.phase <;> rw [phase] at ended <;> first
        | contradiction
        | simp [labStep, initStep, phase] at stepped
  | exit =>
      cases phase : lab.phase <;> rw [phase] at ended <;> first
        | contradiction
        | simp [labStep, exitStep, phase] at stepped
  | driver act =>
      cases act with
      | callShow caller =>
          have noGroup : lab.phase.hasGroup = false := by
            cases phase : lab.phase <;> rw [phase] at ended <;> first
              | contradiction
              | rfl
          simp [labStep, noGroup] at stepped
      | schedule c switched | softirq c | run c =>
          obtain ⟨after, own, rfl⟩ := Option.map_eq_some_iff.mp stepped
          have inherits := step_inherits own nofun
          exact ⟨rfl, inherits.timerTicks silent.noTimer.2, inherits.workTicks silent.noWork.2⟩

/-- **Nothing outlives the module.** In every interleaving, when init has failed
or exit has returned, no CPU is inside the timer callback, no kworker inside the
work function and no reader inside `stats_show`; nothing is armed; the log has
the final counters; and however the run goes on, all of this stays so. -/
theorem nothing_outlives_module {cpuCount : Nat} {kworkers : List Identity} {acts : List LabAct}
    {lab : Lab} (reached : run labStep (Lab.initial cpuCount kworkers) acts = some lab)
    (ended : lab.phase.ended = true) :
    Silent lab.system ∧
      (∀ timerTicks workTicks, lab.phase = .unloaded timerTicks workTicks →
        timerTicks = lab.system.stats.timerTicks ∧ workTicks = lab.system.stats.workTicks) ∧
      ∀ more last, run labStep lab more = some last → Silent last.system ∧
        last.phase = lab.phase ∧ last.system.stats.timerTicks = lab.system.stats.timerTicks ∧
        last.system.stats.workTicks = lab.system.stats.workTicks := by
  have quieting := quieting_reached reached
  refine ⟨silent_of_ended quieting ended, quieting.logged, ?_⟩
  intro more last ran
  have kept : Quieting last ∧ last.phase = lab.phase ∧
      last.system.stats.timerTicks = lab.system.stats.timerTicks ∧
      last.system.stats.workTicks = lab.system.stats.workTicks := by
    refine invariant_run (I := fun now => Quieting now ∧ now.phase = lab.phase ∧
      now.system.stats.timerTicks = lab.system.stats.timerTicks ∧
      now.system.stats.workTicks = lab.system.stats.workTicks) ?_ ⟨quieting, rfl, rfl, rfl⟩ ran
    rintro now act next ⟨here, phase, timers, works⟩ stepped
    obtain ⟨samePhase, sameTimers, sameWorks⟩ := ended_step here (phase ▸ ended) stepped
    exact ⟨here.step stepped, samePhase.trans phase, sameTimers.trans timers,
      sameWorks.trans works⟩
  exact ⟨silent_of_ended kept.1 (kept.2.1 ▸ ended), kept.2⟩

/-- Unloaded while the timer callback is under way and the work is queued. -/
theorem nothing_outlives_module_two : ∃ lab,
    run labStep (Lab.initial 2 [⟨ascii "kworker/0:1", 5⟩])
      ([.init none, .init none, .init none, .driver (.softirq 0), .driver (.run 0), .init none,
        .exit] ++ List.replicate 5 (.driver (.run 0)) ++ List.replicate 5 .exit) = some lab ∧
      Silent lab.system := by
  have ran := run_get labStep (Lab.initial 2 [⟨ascii "kworker/0:1", 5⟩])
    ([.init none, .init none, .init none, .driver (.softirq 0), .driver (.run 0), .init none,
      .exit] ++ List.replicate 5 (.driver (.run 0)) ++ List.replicate 5 .exit) (by decide +kernel)
  exact ⟨_, ran, (nothing_outlives_module ran (by decide +kernel)).1⟩

end TimersWorkqueues
