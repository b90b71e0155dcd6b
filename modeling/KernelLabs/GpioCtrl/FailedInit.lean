import KernelLabs.GpioCtrl.Unload

/-!
# `gpioctrl_init` failing at `sysfs_create_group`

`misc_register` makes `/dev/gpioctrl` usable before init is done.  When
`sysfs_create_group` fails, the labels `err_misc`, `err_led_off`, `err_put_gpio`
and `err_free_state` undo the rest.  They wait for no file that was opened in
the meantime, and they do not cancel the work, which a `poll_ms=` written
through such a file arms.

`misc_deregister` keeps new files from being opened, and an open one keeps working.
-/

set_option autoImplicit false

namespace GpioCtrl
namespace FailedInit

open Kernel LabelledMachine PartyPool

inductive Stage where
  -- `misc_register` has returned.
  | registered
  | deregistered
  | ledOff
  | freed
  deriving DecidableEq, Repr

structure System where
  calls : Pool Shared Call
  stage : Stage
  -- The open files of `/dev/gpioctrl`.
  opens : Nat
  deriving DecidableEq, Repr

abbrev System.shared (s : System) : Shared := s.calls.shared

/-- The labels in order; the GPIO device is put on the way to `kfree(state)`. -/
def unwind (s : System) : Option System :=
  match s.stage with
  | .registered => some { s with stage := .deregistered }
  | .deregistered =>
    some { s with calls := { s.calls with shared := { s.shared with ledLine := 0 } },
                  stage := .ledOff }
  | .ledOff =>
    some { s with calls := { s.calls with shared := { s.shared with state := none } },
                  stage := .freed }
  | .freed => none

inductive Act where
  | line (value : Int)
  | openDev
  | closeDev
  | readDev
  | writeDev (caller : Identity) (data : Bytes) (missing : Nat)
  | call (i : Nat)
  | workStart (kworker : Identity)
  | work
  | unwind
  deriving DecidableEq, Repr

/-- `gpioctrl_read` locks `state->lock` first. -/
def touchState (shared : Shared) : Shared :=
  match shared.state with
  | none => { shared with fault := true }
  | some _ => shared

def System.with (s : System) (shared : Shared) : System :=
  { s with calls := { s.calls with shared := shared } }

def step (s : System) : Act → Option System
  | .line value => some (s.with { s.shared with buttonLine := value })
  | .openDev => if s.stage = .registered then some { s with opens := s.opens + 1 } else none
  -- A call that is not over keeps a file open.
  | .closeDev =>
    if 1 < s.opens ∨ s.opens = 1 ∧ s.calls.parties.all Call.finished then
      some { s with opens := s.opens - 1 }
    else none
  | .readDev => if s.opens = 0 then none else some (s.with (touchState s.shared))
  | .writeDev caller data missing =>
    if s.opens = 0 then none
    else
      let call : Call := ⟨.dev, caller, data.length, enter (parseWrite data missing)⟩
      some { s with calls := s.calls.spawn call }
  | .call i => (s.calls.act callStep i ()).map fun calls => { s with calls }
  | .workStart kworker => (workStart kworker s.shared).map s.with
  | .work => (workStep s.shared).map s.with
  | .unwind => FailedInit.unwind s

/-- The LED is driven, and the device has just been registered.  The phase in
`shared` stays `.sysfsCreated` although the attributes were not created: whoever
arms the work only asks whether a cancel is under way. -/
def System.initial (params : Params) (startNs : UInt64) (caller : Identity) (buttonValue : Int) :
    System where
  calls := GpioCtrl.System.initial params startNs caller buttonValue
  stage := .registered
  opens := 0

/-- The step is no `mod_delayed_work` of a `poll_ms=`. -/
def NoArm (s : System) : Act → Prop
  | .call i =>
    match s.calls.parties[i]? with
    | some ⟨_, _, _, .pollArm _⟩ => False
    | _ => True
  | _ => True

instance (s : System) (act : Act) : Decidable (NoArm s act) := by
  unfold NoArm
  split
  · split <;> infer_instance
  · infer_instance

def Idle (shared : Shared) : Prop := shared.pending = none ∧ shared.work = .idle

/-! ## What every step keeps -/

structure Framed (s : System) : Prop where
  phase : s.shared.phase = .sysfsCreated
  freed : s.shared.state = none ↔ s.stage = .freed
  crashed : s.shared.work = .crashed → s.shared.fault = true
  hosted : s.opens = 0 → ∀ call ∈ s.calls.parties, call.finished

theorem framed_initial (params : Params) (startNs : UInt64) (caller : Identity)
    (buttonValue : Int) : Framed (System.initial params startNs caller buttonValue) := by
  constructor
  · rfl
  · constructor <;> intro impossible <;> cases impossible
  · intro crashed
    cases crashed
  · intro _ call member
    cases member

theorem workStep_crashed {shared next : Shared} (stepped : workStep shared = some next)
    (crashed : next.work = .crashed) : next.fault = true := by
  cases pc : shared.work with
  | idle | crashed =>
      simp only [workStep, pc] at stepped
      contradiction
  | sampleRead kworker =>
      simp only [workStep, pc] at stepped
      cases stepped
      dsimp only at crashed
      split at crashed <;> cases crashed
  | sampleCommit kworker value | getPollMs =>
      cases held : shared.state with
      | none =>
          simp only [workStep, pc, held] at stepped
          cases stepped
          rfl
      | some st =>
          simp only [workStep, pc, held] at stepped
          cases stepped
          cases crashed
  | schedule delay =>
      simp only [workStep, pc] at stepped
      cases stepped
      cases crashed

theorem touchState_keeps (shared : Shared) :
    (touchState shared).phase = shared.phase ∧ (touchState shared).work = shared.work ∧
      (touchState shared).pending = shared.pending ∧
      (touchState shared).state = shared.state ∧
      ((touchState shared).fault = shared.fault ∨ (touchState shared).fault = true) := by
  cases held : shared.state with
  | none => simp [touchState, held]
  | some st => simp [touchState, held]

theorem Framed.step {s next : System} {act : Act} (framed : Framed s)
    (stepped : FailedInit.step s act = some next) : Framed next := by
  obtain ⟨phase, freed, crashed, hosted⟩ := framed
  cases act with
  | line value =>
      cases stepped
      exact ⟨phase, freed, crashed, hosted⟩
  | openDev =>
      simp only [FailedInit.step] at stepped
      split at stepped
      · cases stepped
        exact ⟨phase, freed, crashed, fun unopened => absurd unopened (Nat.succ_ne_zero s.opens)⟩
      · contradiction
  | closeDev =>
      simp only [FailedInit.step] at stepped
      split at stepped
      · rename_i allowed
        cases stepped
        refine ⟨phase, freed, crashed, ?_⟩
        intro unopened
        rcases allowed with more | ⟨_, finished⟩
        · dsimp only at unopened
          omega
        · exact List.all_eq_true.mp finished
      · contradiction
  | readDev =>
      simp only [FailedInit.step] at stepped
      split at stepped
      · contradiction
      · cases stepped
        obtain ⟨samePhase, sameWork, _, sameState, fault⟩ := touchState_keeps s.shared
        refine ⟨samePhase.trans phase, ?_, ?_, hosted⟩
        · exact (iff_of_eq (congrArg (· = none) sameState)).trans freed
        · intro bad
          rcases fault with same | faulted
          · exact same.trans (crashed (sameWork.symm.trans bad))
          · exact faulted
  | writeDev caller data missing =>
      simp only [FailedInit.step] at stepped
      split at stepped
      · contradiction
      · rename_i opened
        cases stepped
        exact ⟨phase, freed, crashed, fun unopened => absurd unopened opened⟩
  | call i =>
      obtain ⟨calls, acted, rfl⟩ := Option.map_eq_some_iff.mp stepped
      obtain ⟨call, shared, moved, found, own, rfl⟩ := Pool.act_eq_some acted
      obtain ⟨live, _, samePhase, sameWork, sameFreed, fault, _⟩ := callStep_effect own
      refine ⟨samePhase.trans phase, sameFreed.trans freed, ?_, ?_⟩
      · intro bad
        rcases fault with same | ⟨_, faulted⟩
        · exact same.trans (crashed (sameWork.symm.trans bad))
        · exact faulted
      · intro unopened
        have finished := hosted unopened call (List.mem_of_getElem? found)
        exact absurd (live.symm.trans finished) Bool.false_ne_true
  | workStart kworker =>
      obtain ⟨shared, started, rfl⟩ := Option.map_eq_some_iff.mp stepped
      obtain ⟨_, _, rfl⟩ := workStart_cases started
      refine ⟨phase, freed, ?_, hosted⟩
      intro bad
      cases bad
  | work =>
      obtain ⟨shared, worked, rfl⟩ := Option.map_eq_some_iff.mp stepped
      obtain ⟨_, samePhase, sameFreed, _, _, _⟩ := workStep_effect worked
      exact ⟨samePhase.trans phase, sameFreed.trans freed, workStep_crashed worked, hosted⟩
  | unwind =>
      simp only [FailedInit.step, FailedInit.unwind] at stepped
      cases stage : s.stage with
      | registered | deregistered =>
          simp only [stage] at stepped
          cases stepped
          refine ⟨phase, ?_, crashed, hosted⟩
          rw [stage] at freed
          simpa [System.shared] using freed
      | ledOff =>
          simp only [stage] at stepped
          cases stepped
          exact ⟨phase, ⟨fun _ => rfl, fun _ => rfl⟩, crashed, hosted⟩
      | freed =>
          simp only [stage] at stepped
          cases stepped

/-! ## The work, armed or not -/

theorem step_idle {s next : System} {act : Act} (idle : Idle s.shared) (unarmed : NoArm s act)
    (stepped : FailedInit.step s act = some next) : Idle next.shared := by
  obtain ⟨disarmed, resting⟩ := idle
  cases act with
  | line value =>
      cases stepped
      exact ⟨disarmed, resting⟩
  | openDev | closeDev | writeDev caller data missing =>
      simp only [FailedInit.step] at stepped
      split at stepped <;> cases stepped
      exact ⟨disarmed, resting⟩
  | readDev =>
      simp only [FailedInit.step] at stepped
      split at stepped <;> cases stepped
      obtain ⟨_, sameWork, samePending, _, _⟩ := touchState_keeps s.shared
      exact ⟨samePending.trans disarmed, sameWork.trans resting⟩
  | call i =>
      obtain ⟨calls, acted, rfl⟩ := Option.map_eq_some_iff.mp stepped
      obtain ⟨call, shared, moved, found, own, rfl⟩ := Pool.act_eq_some acted
      obtain ⟨_, _, _, sameWork, _, _, pending⟩ := callStep_effect own
      refine ⟨?_, sameWork.trans resting⟩
      rcases pending with same | ⟨value, arms, _, _⟩
      · exact same.trans disarmed
      · obtain ⟨origin, caller, count, pc⟩ := call
        subst arms
        simp only [NoArm, found] at unarmed
  | workStart kworker =>
      obtain ⟨shared, started, rfl⟩ := Option.map_eq_some_iff.mp stepped
      obtain ⟨armed, _, _⟩ := workStart_cases started
      rw [disarmed] at armed
      contradiction
  | work =>
      obtain ⟨shared, worked, rfl⟩ := Option.map_eq_some_iff.mp stepped
      exact absurd resting (workStep_effect worked).busy
  | unwind =>
      simp only [FailedInit.step, FailedInit.unwind] at stepped
      split at stepped <;> cases stepped <;> exact ⟨disarmed, resting⟩

theorem step_arms {s next : System} {act : Act} (framed : Framed s) (arms : ¬ NoArm s act)
    (stepped : FailedInit.step s act = some next) : ¬ Idle next.shared := by
  unfold NoArm at arms
  split at arms
  · rename_i i
    split at arms
    · rename_i origin caller count value found
      have running : s.shared.phase ≠ .cancelling := by
        rw [framed.phase]
        exact nofun
      simp only [FailedInit.step, Pool.act, found, callStep, modDelayedWork, running, if_false]
        at stepped
      cases stepped
      exact fun idle => Option.some_ne_none value idle.1
    · exact absurd trivial arms
  · exact absurd trivial arms

/-- No label of the error path cancels the work. -/
theorem step_stays_busy {s next : System} {act : Act} (framed : Framed s)
    (busy : ¬ Idle s.shared) (stepped : FailedInit.step s act = some next) :
    ¬ Idle next.shared := by
  cases act with
  | line value =>
      cases stepped
      exact busy
  | openDev | closeDev | writeDev caller data missing =>
      simp only [FailedInit.step] at stepped
      split at stepped <;> cases stepped
      exact busy
  | readDev =>
      simp only [FailedInit.step] at stepped
      split at stepped <;> cases stepped
      obtain ⟨_, sameWork, samePending, _, _⟩ := touchState_keeps s.shared
      rintro ⟨disarmed, resting⟩
      exact busy ⟨samePending.symm.trans disarmed, sameWork.symm.trans resting⟩
  | call i =>
      obtain ⟨calls, acted, rfl⟩ := Option.map_eq_some_iff.mp stepped
      obtain ⟨call, shared, moved, found, own, rfl⟩ := Pool.act_eq_some acted
      obtain ⟨_, _, _, sameWork, _, _, pending⟩ := callStep_effect own
      rintro ⟨disarmed, resting⟩
      rcases pending with same | ⟨value, _, _, armed⟩
      · exact busy ⟨same.symm.trans disarmed, sameWork.symm.trans resting⟩
      · exact absurd (armed.symm.trans disarmed) (Option.some_ne_none value)
  | workStart kworker =>
      obtain ⟨shared, started, rfl⟩ := Option.map_eq_some_iff.mp stepped
      obtain ⟨_, _, rfl⟩ := workStart_cases started
      exact fun idle => WorkPc.noConfusion idle.2
  | work =>
      obtain ⟨shared, worked, rfl⟩ := Option.map_eq_some_iff.mp stepped
      rintro ⟨disarmed, resting⟩
      rcases (workStep_effect worked).rearms with running | cancelling | pending
      · exact running resting
      · rw [framed.phase] at cancelling
        cases cancelling
      · exact pending disarmed
  | unwind =>
      simp only [FailedInit.step, FailedInit.unwind] at stepped
      split at stepped <;> cases stepped <;> exact busy

def Resting (s : System) : Prop := Framed s ∧ Idle s.shared
def Busy (s : System) : Prop := Framed s ∧ ¬ Idle s.shared

theorem resting_step (s : System) (act : Act) (next : System) (resting : Resting s)
    (unarmed : NoArm s act) (stepped : FailedInit.step s act = some next) : Resting next :=
  ⟨resting.1.step stepped, step_idle resting.2 unarmed stepped⟩

theorem resting_arms (s : System) (act : Act) (next : System) (resting : Resting s)
    (arms : ¬ NoArm s act) (stepped : FailedInit.step s act = some next) : Busy next :=
  ⟨resting.1.step stepped, step_arms resting.1 arms stepped⟩

theorem busy_step (s : System) (act : Act) (next : System) (busy : Busy s)
    (stepped : FailedInit.step s act = some next) : Busy next :=
  ⟨busy.1.step stepped, step_stays_busy busy.1 busy.2 stepped⟩

/-! ## After `kfree(state)` -/

/-- Something can still use the freed state. -/
def Faults (s : System) : Prop :=
  ∃ later last, run step s later = some last ∧ last.shared.fault = true

theorem Faults.cons {s next : System} {act : Act} (stepped : FailedInit.step s act = some next)
    (faults : Faults next) : Faults s := by
  obtain ⟨later, last, ran, faulted⟩ := faults
  exact ⟨act :: later, last, (run_cons_eq_some step).mpr ⟨next, stepped, ran⟩, faulted⟩

section Freed
variable {s : System} (gone : s.shared.state = none)
include gone

theorem faults_of_open (opened : s.opens ≠ 0) : Faults s := by
  have stepped : FailedInit.step s .readDev = some (s.with { s.shared with fault := true }) := by
    simp only [FailedInit.step, if_neg opened, touchState, gone]
  exact Faults.cons stepped ⟨[], _, rfl, rfl⟩

theorem faults_of_section (inside : (∃ kworker value, s.shared.work = .sampleCommit kworker value) ∨
    s.shared.work = .getPollMs) : Faults s := by
  have stepped : FailedInit.step s .work =
      some (s.with { s.shared with fault := true, work := .crashed }) := by
    rcases inside with ⟨kworker, value, pc⟩ | pc <;>
      simp only [FailedInit.step, workStep, pc, gone, Option.map_some]
  exact Faults.cons stepped ⟨[], _, rfl, rfl⟩

theorem faults_of_sampleRead {kworker : Identity} (pc : s.shared.work = .sampleRead kworker) :
    Faults s := by
  -- The button's descriptor is NULL by now, and reads as 0.
  have value : readButton s.shared = 0 := by simp [readButton, gone]
  have stepped : FailedInit.step s .work =
      some (s.with { s.shared with work := .sampleCommit kworker 0 }) := by
    simp [FailedInit.step, workStep, pc, value]
  exact Faults.cons stepped (faults_of_section gone (Or.inl ⟨kworker, 0, rfl⟩))

theorem faults_of_pending {delay : UInt32} (pc : s.shared.work = .idle)
    (armed : s.shared.pending = some delay) : Faults s := by
  have stepped : FailedInit.step s (.workStart ⟨[], 0⟩) =
      some (s.with { s.shared with pending := none, work := .sampleRead ⟨[], 0⟩ }) := by
    simp [FailedInit.step, workStart, pc, armed]
  exact Faults.cons stepped (faults_of_sampleRead gone rfl)

theorem faults_of_busy (framed : Framed s) (busy : ¬ Idle s.shared) : Faults s := by
  cases pc : s.shared.work with
  | crashed => exact ⟨[], s, rfl, framed.crashed pc⟩
  | sampleRead kworker => exact faults_of_sampleRead gone pc
  | sampleCommit kworker value => exact faults_of_section gone (Or.inl ⟨kworker, value, pc⟩)
  | getPollMs => exact faults_of_section gone (Or.inr pc)
  | idle =>
      cases armed : s.shared.pending with
      | none => exact absurd ⟨armed, pc⟩ busy
      | some delay => exact faults_of_pending gone pc armed
  | schedule delay =>
      have running : s.shared.phase ≠ .cancelling := by
        rw [framed.phase]
        exact nofun
      obtain ⟨_, state, _, _, _, _⟩ := scheduleDelayedWork_keeps s.shared delay
      have stepped : FailedInit.step s .work =
          some (s.with { scheduleDelayedWork s.shared delay with work := .idle }) := by
        simp only [FailedInit.step, workStep, pc, Option.map_some]
      obtain ⟨armed, isArmed⟩ : ∃ armed, (scheduleDelayedWork s.shared delay).pending =
          some armed := by
        unfold scheduleDelayedWork
        split
        · rename_i kept
          rcases kept with cancelling | pending
          · exact absurd cancelling running
          · exact Option.isSome_iff_exists.mp pending
        · exact ⟨delay, rfl⟩
      exact Faults.cons stepped (faults_of_pending (state.trans gone) rfl isArmed)

end Freed

/-- With no file open and the work idle nothing moves any more. -/
structure Still (s : System) : Prop where
  stage : s.stage = .freed
  closed : s.opens = 0
  idle : Idle s.shared
  finished : ∀ call ∈ s.calls.parties, call.finished
  sound : s.shared.fault = false

theorem Still.step {s next : System} {act : Act} (still : Still s)
    (stepped : FailedInit.step s act = some next) : Still next := by
  obtain ⟨stage, closed, idle, finished, sound⟩ := still
  cases act with
  | line value =>
      cases stepped
      exact ⟨stage, closed, idle, finished, sound⟩
  | openDev => simp [FailedInit.step, stage] at stepped
  | closeDev | readDev | writeDev caller data missing => simp [FailedInit.step, closed] at stepped
  | call i =>
      obtain ⟨calls, acted, rfl⟩ := Option.map_eq_some_iff.mp stepped
      obtain ⟨call, shared, moved, found, own, rfl⟩ := Pool.act_eq_some acted
      have live := (callStep_effect own).live
      exact absurd (live.symm.trans (finished call (List.mem_of_getElem? found))) Bool.false_ne_true
  | workStart kworker =>
      obtain ⟨shared, started, rfl⟩ := Option.map_eq_some_iff.mp stepped
      obtain ⟨armed, _, _⟩ := workStart_cases started
      rw [idle.1] at armed
      contradiction
  | work =>
      obtain ⟨shared, worked, rfl⟩ := Option.map_eq_some_iff.mp stepped
      exact absurd idle.2 (workStep_effect worked).busy
  | unwind =>
      simp only [FailedInit.step, FailedInit.unwind, stage] at stepped
      cases stepped

/-- Once init has failed and freed the state, nothing will ever use it exactly
when nothing has yet, no file is open any more, and no `poll_ms=` written through
one had armed the work. -/
theorem failed_init_safe_iff (params : Params) (startNs : UInt64) (caller : Identity)
    (buttonValue : Int) {acts : List Act} {s : System}
    (ran : run step (System.initial params startNs caller buttonValue) acts = some s)
    (freed : s.stage = .freed) :
    (∀ later last, run step s later = some last → last.shared.fault = false) ↔
      s.shared.fault = false ∧ s.opens = 0 ∧
        Meets step NoArm (System.initial params startNs caller buttonValue) acts := by
  have start : Resting (System.initial params startNs caller buttonValue) :=
    ⟨framed_initial params startNs caller buttonValue, rfl, rfl⟩
  have outcome := meets_or_damaged resting_step resting_arms busy_step start ran
  constructor
  · intro safe
    have noFault : ¬ Faults s := by
      rintro ⟨later, last, ranLater, faulted⟩
      exact Bool.false_ne_true ((safe later last ranLater).symm.trans faulted)
    have framed : Framed s := by
      rcases outcome with ⟨_, framed, _⟩ | ⟨_, framed, _⟩ <;> exact framed
    have gone := framed.freed.mpr freed
    refine ⟨safe [] s rfl, ?_, ?_⟩
    · exact Classical.not_not.mp fun opened => noFault (faults_of_open gone opened)
    · rcases outcome with ⟨meets, _⟩ | ⟨_, _, busy⟩
      · exact meets
      · exact absurd (faults_of_busy gone framed busy) noFault
  · rintro ⟨sound, closed, meets⟩ later last ranLater
    rcases outcome with ⟨_, framed, idle⟩ | ⟨misses, _⟩
    · have still : Still s := ⟨freed, closed, idle, framed.hosted closed, sound⟩
      exact (invariant_run (fun _ _ _ kept => kept.step) still ranLater).sound
    · exact absurd meets misses

/-- A reader looks at the device while init is about to fail, and is gone in time. -/
def passerBy : List Act :=
  [.openDev, .readDev, .unwind, .writeDev ⟨ascii "sh", 7⟩ (ascii "sync") 0, .call 0, .call 0,
    .closeDev, .unwind, .unwind]

theorem failed_init_safe_passerBy :
    ∃ s, run step (System.initial ⟨500, false⟩ 0 ⟨ascii "insmod", 100⟩ 0) passerBy = some s ∧
      ∀ later last, run step s later = some last → last.shared.fault = false :=
  have ran := run_get step (System.initial ⟨500, false⟩ 0 ⟨ascii "insmod", 100⟩ 0) passerBy
    (by decide +kernel)
  ⟨_, ran, (failed_init_safe_iff _ _ _ _ ran (by decide +kernel)).mpr (by decide +kernel)⟩

end FailedInit
end GpioCtrl
