import KernelLabs.GpioCtrl.State
import KernelLabs.Lib.Machine
import KernelLabs.Lib.Pool

/-!
# `gpioctrl` running

Any number of write calls, through sysfs or through `/dev/gpioctrl`, run against
the self-rescheduling poll work and against `gpioctrl_exit`.  The steps are the
locked sections, the GPIO reads, the calls that arm the work, and the stages of
the teardown.

The kernel's part: `cancel_delayed_work_sync` removes a pending instance, waits
for a running one and defeats every arming made meanwhile, but not a later one;
`sysfs_remove_group` waits for running stores; an open `/dev/gpioctrl` keeps the
module loaded and an open attribute does not.  A run starts when init has created
the attributes and has not armed the work yet.
-/

set_option autoImplicit false

namespace GpioCtrl

open Kernel LabelledMachine PartyPool

/-- How far `gpioctrl_init` and then `gpioctrl_exit` have come. -/
inductive Phase where
  | sysfsCreated
  -- Init has read `poll_ms` for its `schedule_delayed_work`.
  | scheduling (delay : UInt32)
  | loaded
  -- Inside `cancel_delayed_work_sync`.
  | cancelling
  | cancelled
  | sysfsRemoved
  | deregistered
  | ledLineOff
  | ledOff
  | freed
  deriving DecidableEq, Repr

def Phase.unloading : Phase → Bool
  | .sysfsCreated | .scheduling _ | .loaded => false
  | _ => true

def Phase.cancelReturned : Phase → Bool
  | .sysfsCreated | .scheduling _ | .loaded | .cancelling => false
  | _ => true

def Phase.sysfsGone : Phase → Bool
  | .sysfsCreated | .scheduling _ | .loaded | .cancelling | .cancelled => false
  | _ => true

inductive WorkPc where
  | idle
  | sampleRead (kworker : Identity)
  | sampleCommit (kworker : Identity) (buttonValue : Int)
  | getPollMs
  | schedule (delay : UInt32)
  -- It used the freed state.
  | crashed
  deriving DecidableEq, Repr

structure Shared where
  -- `none` after `kfree`.
  state : Option GpioctrlState
  buttonLine : Int
  ledLine : Int
  -- `gpio_work` is armed with this delay.
  pending : Option UInt32
  work : WorkPc
  phase : Phase
  fault : Bool
  deriving DecidableEq, Repr

inductive Origin where
  | sysfs
  | dev
  deriving DecidableEq, Repr

inductive CallPc where
  | pollStore (value : UInt32)
  | pollArm (value : UInt32)
  | invertStore (value : Bool)
  -- `gpioctrl_sample_once`, whose error `sync` reports and the writers of
  -- `invert` ignore.
  | sampleRead (report : Bool)
  | sampleCommit (report : Bool) (buttonValue : Int)
  | resetStats
  | done (ret : Int)
  | crashed
  deriving DecidableEq, Repr

structure Call where
  origin : Origin
  caller : Identity
  count : Nat
  pc : CallPc
  deriving DecidableEq, Repr

def Call.finished (call : Call) : Bool :=
  match call.pc with
  | .done _ => true
  | _ => false

def enter : Except Errno Command → CallPc
  | .error e => .done e.code
  | .ok .sync => .sampleRead true
  | .ok .resetStats => .resetStats
  | .ok (.invert value) => .invertStore value
  | .ok (.pollMs value) => .pollStore value

/-- `gpiod_get_value_cansleep(button)`; exit leaves a NULL descriptor, which
reads as 0. -/
def readButton (shared : Shared) : Int :=
  if shared.state.isNone then 0 else shared.buttonLine

/-- `schedule_delayed_work`: nothing when the work is armed already. -/
def scheduleDelayedWork (shared : Shared) (delay : UInt32) : Shared :=
  if shared.phase = .cancelling ∨ shared.pending.isSome then shared
  else { shared with pending := some delay }

/-- `mod_delayed_work`: the new delay replaces one that is running. -/
def modDelayedWork (shared : Shared) (delay : UInt32) : Shared :=
  if shared.phase = .cancelling then shared else { shared with pending := some delay }

def commitSample (shared : Shared) (st : GpioctrlState) (caller : Identity) (buttonValue : Int) :
    Shared :=
  let (next, written) := sampleSection st caller buttonValue
  { shared with state := some next, ledLine := written.getD shared.ledLine }

def callStep (_i : Nat) (_ : Unit) (shared : Shared) (call : Call) : Option (Shared × Call) :=
  match call.pc with
  | .pollStore value =>
    match shared.state with
    | none => some ({ shared with fault := true }, { call with pc := .crashed })
    | some st =>
      some ({ shared with state := some (storePollMs st value) },
        { call with pc := .pollArm value })
  | .pollArm value => some (modDelayedWork shared value, { call with pc := .done call.count })
  | .invertStore value =>
    match shared.state with
    | none => some ({ shared with fault := true }, { call with pc := .crashed })
    | some st =>
      some ({ shared with state := some (storeInvert st value) },
        { call with pc := .sampleRead false })
  | .sampleRead report =>
    let value := readButton shared
    if value < 0 then
      some (shared, { call with pc := .done (if report then value else call.count) })
    else some (shared, { call with pc := .sampleCommit report value })
  | .sampleCommit _ value =>
    match shared.state with
    | none => some ({ shared with fault := true }, { call with pc := .crashed })
    | some st =>
      some (commitSample shared st call.caller value, { call with pc := .done call.count })
  | .resetStats =>
    match shared.state with
    | none => some ({ shared with fault := true }, { call with pc := .crashed })
    | some st =>
      some ({ shared with state := some (resetStats st) }, { call with pc := .done call.count })
  | .done _ | .crashed => none

def workStart (kworker : Identity) (shared : Shared) : Option Shared :=
  if shared.pending.isSome ∧ shared.work = .idle then
    some { shared with pending := none, work := .sampleRead kworker }
  else none

def workStep (shared : Shared) : Option Shared :=
  match shared.work with
  | .sampleRead kworker =>
    let value := readButton shared
    some { shared with work := if value < 0 then .getPollMs else .sampleCommit kworker value }
  | .sampleCommit kworker value =>
    match shared.state with
    | none => some { shared with fault := true, work := .crashed }
    | some st => some { commitSample shared st kworker value with work := .getPollMs }
  | .getPollMs =>
    match shared.state with
    | none => some { shared with fault := true, work := .crashed }
    | some st => some { shared with work := .schedule st.pollMs }
  | .schedule delay => some { scheduleDelayedWork shared delay with work := .idle }
  | .idle | .crashed => none

/-- The last two steps of `gpioctrl_init`: it reads `poll_ms` without the lock
and arms the work. -/
def initSchedule (shared : Shared) : Option Shared :=
  match shared.phase, shared.state with
  | .sysfsCreated, some st => some { shared with phase := .scheduling st.pollMs }
  | .scheduling delay, _ => some { scheduleDelayedWork shared delay with phase := .loaded }
  | _, _ => none

/-- The next stage of `gpioctrl_exit`, beginning when no open `/dev/gpioctrl`
holds the module. -/
def exitStep (calls : List Call) (shared : Shared) : Option Shared :=
  match shared.phase with
  | .sysfsCreated | .scheduling _ => none
  | .loaded =>
    if calls.all fun call => call.origin = .sysfs || call.finished then
      some { shared with pending := none, phase := .cancelling }
    else none
  | .cancelling => if shared.work = .idle then some { shared with phase := .cancelled } else none
  | .cancelled =>
    if calls.all fun call => call.origin = .dev || call.finished then
      some { shared with phase := .sysfsRemoved }
    else none
  | .sysfsRemoved => some { shared with phase := .deregistered }
  | .deregistered => some { shared with ledLine := 0, phase := .ledLineOff }
  | .ledLineOff =>
    some { shared with state := shared.state.map fun st => { st with led := 0 }, phase := .ledOff }
  | .ledOff => some { shared with state := none, phase := .freed }
  | .freed => none

abbrev System := Pool Shared Call

/-- Init has sampled the button once, driven the LED and created the attributes. -/
def System.initial (params : Params) (startNs : UInt64) (caller : Identity) (buttonValue : Int) :
    System where
  shared :=
    { state := some (initState params startNs caller buttonValue)
      buttonLine := buttonValue
      ledLine := desiredLed params.initialInvert buttonValue
      pending := none
      work := .idle
      phase := .sysfsCreated
      fault := false }
  parties := []

inductive Act where
  -- The button is pressed or released, or its line begins to fail.
  | line (value : Int)
  | writeAttr (attr : Attr) (caller : Identity) (buf : Bytes)
  | writeDev (caller : Identity) (data : Bytes) (missing : Nat)
  | call (i : Nat)
  | workStart (kworker : Identity)
  | work
  | initSchedule
  | exit
  deriving DecidableEq, Repr

def step (s : System) : Act → Option System
  | .line value => some { s with shared := { s.shared with buttonLine := value } }
  | .writeAttr attr caller buf =>
    if s.shared.phase.sysfsGone then none
    else some (s.spawn ⟨.sysfs, caller, buf.length, enter (parseStore attr buf)⟩)
  | .writeDev caller data missing =>
    if s.shared.phase.unloading then none
    else some (s.spawn ⟨.dev, caller, data.length, enter (parseWrite data missing)⟩)
  | .call i => s.act callStep i ()
  | .workStart kworker => (workStart kworker s.shared).map fun shared => { s with shared }
  | .work => (workStep s.shared).map fun shared => { s with shared }
  | .initSchedule => (initSchedule s.shared).map fun shared => { s with shared }
  | .exit => (exitStep s.parties s.shared).map fun shared => { s with shared }

/-- A write to an attribute or to the device. -/
def Act.writes : Act → Bool
  | .writeAttr _ _ _ | .writeDev _ _ _ => true
  | _ => false

/-- A write starts a call on what was parsed of it. -/
theorem step_writes {s next : System} {act : Act} (writes : act.writes = true)
    (stepped : step s act = some next) :
    ∃ origin caller count parsed, next = s.spawn ⟨origin, caller, count, enter parsed⟩ := by
  cases act with
  | writeAttr attr caller buf | writeDev caller data missing =>
      simp only [step] at stepped
      split at stepped
      · contradiction
      · cases stepped
        exact ⟨_, _, _, _, rfl⟩
  | line value | call i | workStart kworker | work | initSchedule | exit => contradiction

/-! ## What the steps leave alone -/

/-- What no write call and no step of the work changes. -/
structure KeepsFrame (shared next : Shared) : Prop where
  buttonLine : next.buttonLine = shared.buttonLine
  phase : next.phase = shared.phase
  alive : next.state.isSome = shared.state.isSome

theorem modDelayedWork_frame (shared : Shared) (delay : UInt32) :
    KeepsFrame shared (modDelayedWork shared delay) ∧
      (modDelayedWork shared delay).work = shared.work := by
  unfold modDelayedWork
  split <;> exact ⟨⟨rfl, rfl, rfl⟩, rfl⟩

theorem callStep_frame {i : Nat} {shared next : Shared} {call moved : Call}
    (stepped : callStep i () shared call = some (next, moved)) :
    KeepsFrame shared next ∧ next.work = shared.work := by
  obtain ⟨origin, caller, count, pc⟩ := call
  cases pc with
  | pollStore value | invertStore value | sampleCommit report value | resetStats =>
      simp only [callStep] at stepped
      split at stepped <;> rename_i held <;> cases stepped <;>
        exact ⟨⟨rfl, rfl, by rw [held] <;> rfl⟩, rfl⟩
  | pollArm value =>
      cases stepped
      exact modDelayedWork_frame shared value
  | sampleRead report =>
      simp only [callStep] at stepped
      split at stepped <;> cases stepped <;> exact ⟨⟨rfl, rfl, rfl⟩, rfl⟩
  | done ret | crashed => contradiction

theorem scheduleDelayedWork_keeps (shared : Shared) (delay : UInt32) :
    (scheduleDelayedWork shared delay).fault = shared.fault ∧
      (scheduleDelayedWork shared delay).state = shared.state ∧
      (scheduleDelayedWork shared delay).buttonLine = shared.buttonLine ∧
      (scheduleDelayedWork shared delay).ledLine = shared.ledLine ∧
      (scheduleDelayedWork shared delay).work = shared.work ∧
      (scheduleDelayedWork shared delay).phase = shared.phase := by
  unfold scheduleDelayedWork
  split <;> exact ⟨rfl, rfl, rfl, rfl, rfl, rfl⟩

theorem workStep_frame {shared next : Shared} (stepped : workStep shared = some next) :
    KeepsFrame shared next := by
  cases pc : shared.work with
  | sampleRead kworker =>
      simp only [workStep, pc] at stepped
      cases stepped
      exact ⟨rfl, rfl, rfl⟩
  | sampleCommit kworker value | getPollMs =>
      simp only [workStep, pc] at stepped
      split at stepped <;> rename_i held <;> cases stepped <;>
        exact ⟨rfl, rfl, by rw [held] <;> rfl⟩
  | schedule delay =>
      simp only [workStep, pc] at stepped
      cases stepped
      obtain ⟨_, state, line, _, _, phase⟩ := scheduleDelayedWork_keeps shared delay
      exact ⟨line, phase, congrArg Option.isSome state⟩
  | idle | crashed =>
      simp only [workStep, pc] at stepped
      contradiction

theorem workStart_cases {kworker : Identity} {shared next : Shared}
    (started : workStart kworker shared = some next) :
    shared.pending.isSome ∧ shared.work = .idle ∧
      next = { shared with pending := none, work := .sampleRead kworker } := by
  unfold workStart at started
  split at started
  · rename_i armed
    exact ⟨armed.1, armed.2, (Option.some.inj started).symm⟩
  · contradiction

theorem initSchedule_cases {shared next : Shared} (scheduled : initSchedule shared = some next) :
    (∃ st, shared.phase = .sysfsCreated ∧ shared.state = some st ∧
        next = { shared with phase := .scheduling st.pollMs }) ∨
      ∃ delay, shared.phase = .scheduling delay ∧
        next = { scheduleDelayedWork shared delay with phase := .loaded } := by
  cases phase : shared.phase with
  | sysfsCreated =>
      cases held : shared.state with
      | none =>
          simp only [initSchedule, phase, held] at scheduled
          contradiction
      | some st =>
          simp only [initSchedule, phase, held] at scheduled
          exact Or.inl ⟨st, rfl, rfl, (Option.some.inj scheduled).symm⟩
  | scheduling delay =>
      simp only [initSchedule, phase] at scheduled
      exact Or.inr ⟨delay, rfl, (Option.some.inj scheduled).symm⟩
  | _ =>
      simp only [initSchedule, phase] at scheduled
      contradiction

/-- What every stage of the teardown does. -/
structure ExitEffect (shared next : Shared) : Prop where
  buttonLine : next.buttonLine = shared.buttonLine
  work : next.work = shared.work
  unloading : next.phase.unloading = true
  state : next.state = shared.state ∨ next.state = none ∨
    next.state = shared.state.map fun st => { st with led := 0 }

theorem exitStep_effect {calls : List Call} {shared next : Shared}
    (stepped : exitStep calls shared = some next) : ExitEffect shared next := by
  unfold exitStep at stepped
  split at stepped
  case h_3 | h_4 | h_5 =>
    split at stepped
    · cases stepped
      exact ⟨rfl, rfl, rfl, Or.inl rfl⟩
    · contradiction
  case h_6 | h_7 =>
    cases stepped
    exact ⟨rfl, rfl, rfl, Or.inl rfl⟩
  case h_8 =>
    cases stepped
    exact ⟨rfl, rfl, rfl, Or.inr (Or.inr rfl)⟩
  case h_9 =>
    cases stepped
    exact ⟨rfl, rfl, rfl, Or.inr (Or.inl rfl)⟩
  all_goals contradiction

/-- Until `kfree` the teardown changes the state only in its cached LED value. -/
theorem exitStep_state {calls : List Call} {shared next : Shared} {after : GpioctrlState}
    (stepped : exitStep calls shared = some next) (held : next.state = some after) :
    ∃ st, shared.state = some st ∧ (after = st ∨ after = { st with led := 0 }) := by
  rcases (exitStep_effect stepped).state with same | freed | ledOff
  · exact ⟨after, same.symm.trans held, Or.inl rfl⟩
  · exact absurd (freed.symm.trans held) (Option.some_ne_none after).symm
  · obtain ⟨st, before, rfl⟩ := Option.map_eq_some_iff.mp (ledOff.symm.trans held)
    exact ⟨st, before, Or.inr rfl⟩

end GpioCtrl
