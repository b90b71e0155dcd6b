import KernelLabs.GpioCtrl.Driver

/-!
# The range of the poll interval

Both writers check the interval they are given against `MIN_POLL_MS` and
`MAX_POLL_MS`; `gpioctrl_init` takes `initial_poll_ms` as it comes.
-/

set_option autoImplicit false

namespace GpioCtrl

open Kernel LabelledMachine PartyPool

def InPollRange (ms : UInt32) : Prop := minPollMs ≤ ms ∧ ms ≤ maxPollMs

instance (ms : UInt32) : Decidable (InPollRange ms) := inferInstanceAs (Decidable (_ ∧ _))

/-- The interval a writer of `poll_ms` carries. -/
def CallPc.pollValue : CallPc → Option UInt32
  | .pollStore value => some value
  | .pollArm value => some value
  | _ => none

/-- The delay the step hands to `mod_delayed_work` or `schedule_delayed_work`. -/
def delayHanded (s : System) : Act → Option UInt32
  | .call i =>
    match s.parties[i]? with
    | some ⟨_, _, _, .pollArm value⟩ => some value
    | _ => none
  | .work =>
    match s.shared.work with
    | .schedule delay => some delay
    | _ => none
  | .initSchedule =>
    match s.shared.phase with
    | .scheduling delay => some delay
    | _ => none
  | _ => none

def Phase.initialized : Phase → Bool
  | .sysfsCreated | .scheduling _ => false
  | _ => true

def DelayInRange (s : System) (act : Act) : Prop := ∀ delay ∈ delayHanded s act, InPollRange delay

/-- After init, for as long as the state exists. -/
def PollInRange (s : System) : Prop :=
  s.shared.phase.initialized = true → ∀ st ∈ s.shared.state, InPollRange st.pollMs

theorem enter_parsePollMs_range {text : Bytes} {value : UInt32}
    (carries : (enter (parsePollMs text)).pollValue = some value) : InPollRange value := by
  cases parsed : parsePollMs text with
  | error e =>
      rw [parsed] at carries
      contradiction
  | ok command =>
      obtain ⟨own, rfl, low, high⟩ := parsePollMs_range parsed
      rw [parsed] at carries
      cases Option.some.inj carries
      exact ⟨low, high⟩

theorem enter_parseInvert_pollValue (text : Bytes) :
    (enter (parseInvert text)).pollValue = none := by
  unfold parseInvert
  split <;> rfl

theorem enter_parseStore_range {attr : Attr} {buf : Bytes} {value : UInt32}
    (carries : (enter (parseStore attr buf)).pollValue = some value) : InPollRange value := by
  cases attr with
  | invert =>
      rw [parseStore, enter_parseInvert_pollValue] at carries
      contradiction
  | pollMs => exact enter_parsePollMs_range carries

theorem enter_parseWrite_range {data : Bytes} {missing : Nat} {value : UInt32}
    (carries : (enter (parseWrite data missing)).pollValue = some value) : InPollRange value := by
  unfold parseWrite at carries
  dsimp only at carries
  split at carries
  · contradiction
  split at carries
  · contradiction
  split at carries
  · contradiction
  split at carries
  · contradiction
  split at carries
  · rw [enter_parseInvert_pollValue] at carries
    contradiction
  split at carries
  · exact enter_parsePollMs_range carries
  · contradiction

/-- Every place an interval is kept in holds one in range. -/
structure RangesKept (s : System) : Prop where
  stored : ∀ st ∈ s.shared.state, InPollRange st.pollMs
  carried : ∀ call ∈ s.parties, ∀ value ∈ call.pc.pollValue, InPollRange value
  polled : ∀ delay, s.shared.work = .schedule delay → InPollRange delay
  scheduled : ∀ delay, s.shared.phase = .scheduling delay → InPollRange delay

theorem inPollRange_of_none {handed : Option UInt32} (nothing : handed = none) :
    ∀ value ∈ handed, InPollRange value := by
  intro value own
  rw [nothing] at own
  contradiction

theorem callStep_range {i : Nat} {shared next : Shared} {call moved : Call}
    (stored : ∀ st ∈ shared.state, InPollRange st.pollMs)
    (carried : ∀ value ∈ call.pc.pollValue, InPollRange value)
    (stepped : callStep i () shared call = some (next, moved)) :
    (∀ st ∈ next.state, InPollRange st.pollMs) ∧
      (∀ value ∈ moved.pc.pollValue, InPollRange value) ∧
      next.work = shared.work ∧ next.phase = shared.phase := by
  obtain ⟨origin, caller, count, pc⟩ := call
  cases pc with
  | pollArm value =>
      simp only [callStep, modDelayedWork] at stepped
      split at stepped <;> cases stepped <;> exact ⟨stored, inPollRange_of_none rfl, rfl, rfl⟩
  | sampleRead report =>
      simp only [callStep] at stepped
      split at stepped <;> cases stepped <;> exact ⟨stored, inPollRange_of_none rfl, rfl, rfl⟩
  | pollStore value =>
      have inRange := carried value rfl
      cases held : shared.state with
      | none =>
          simp only [callStep, held] at stepped
          cases stepped
          exact ⟨by simp, inPollRange_of_none rfl, rfl, rfl⟩
      | some st =>
          simp only [callStep, held] at stepped
          cases stepped
          exact ⟨by simpa [storePollMs] using inRange, by simpa [CallPc.pollValue] using inRange,
            rfl, rfl⟩
  | invertStore value | sampleCommit report value | resetStats =>
      cases held : shared.state with
      | none =>
          simp only [callStep, held] at stepped
          cases stepped
          exact ⟨by simp, inPollRange_of_none rfl, rfl, rfl⟩
      | some st =>
          have inRange := stored st held
          simp only [callStep, held] at stepped
          cases stepped
          exact ⟨by simpa [commitSample, storeInvert, resetStats] using inRange,
            inPollRange_of_none rfl, rfl, rfl⟩
  | done ret | crashed => contradiction

theorem workStep_range {shared next : Shared}
    (stored : ∀ st ∈ shared.state, InPollRange st.pollMs)
    (stepped : workStep shared = some next) :
    (∀ st ∈ next.state, InPollRange st.pollMs) ∧
      (∀ delay, next.work = .schedule delay → InPollRange delay) ∧ next.phase = shared.phase := by
  cases pc : shared.work with
  | sampleRead kworker =>
      simp only [workStep, pc] at stepped
      cases stepped
      refine ⟨stored, fun delay at_schedule => ?_, rfl⟩
      dsimp only at at_schedule
      split at at_schedule <;> contradiction
  | sampleCommit kworker value =>
      cases held : shared.state with
      | none =>
          simp only [workStep, pc, held] at stepped
          cases stepped
          exact ⟨by simp, fun _ => WorkPc.noConfusion, rfl⟩
      | some st =>
          have inRange := stored st held
          simp only [workStep, pc, held] at stepped
          cases stepped
          exact ⟨by simpa [commitSample] using inRange, fun _ => WorkPc.noConfusion, rfl⟩
  | getPollMs =>
      cases held : shared.state with
      | none =>
          simp only [workStep, pc, held] at stepped
          cases stepped
          exact ⟨by simp, fun _ => WorkPc.noConfusion, rfl⟩
      | some st =>
          have inRange := stored st held
          simp only [workStep, pc, held] at stepped
          cases stepped
          refine ⟨by simpa using inRange, fun delay at_schedule => ?_, rfl⟩
          cases at_schedule
          exact inRange
  | schedule delay =>
      simp only [workStep, scheduleDelayedWork, pc] at stepped
      split at stepped <;> cases stepped <;> exact ⟨stored, fun _ => WorkPc.noConfusion, rfl⟩
  | idle | crashed =>
      simp only [workStep, pc] at stepped
      contradiction

theorem RangesKept.spawn {s : System} (kept : RangesKept s) {call : Call}
    (carries : ∀ value ∈ call.pc.pollValue, InPollRange value) : RangesKept (s.spawn call) :=
  ⟨kept.stored, forall_mem_spawn kept.carried carries, kept.polled, kept.scheduled⟩

theorem step_rangesKept (s : System) (act : Act) (next : System) (kept : RangesKept s)
    (stepped : step s act = some next) : RangesKept next := by
  have ⟨stored, carried, polled, scheduled⟩ := kept
  cases act with
  | line value =>
      cases stepped
      exact ⟨stored, carried, polled, scheduled⟩
  | writeAttr attr caller buf =>
      simp only [step] at stepped
      split at stepped
      · contradiction
      · cases stepped
        exact kept.spawn fun value carries => enter_parseStore_range carries
  | writeDev caller data missing =>
      simp only [step] at stepped
      split at stepped
      · contradiction
      · cases stepped
        exact kept.spawn fun value carries => enter_parseWrite_range carries
  | call i =>
      obtain ⟨call, shared, moved, found, own, rfl⟩ := Pool.act_eq_some stepped
      obtain ⟨storedNext, carriedNext, work, phase⟩ :=
        callStep_range stored (carried call (List.mem_of_getElem? found)) own
      refine ⟨storedNext, forall_mem_set carried carriedNext, ?_, ?_⟩
      · rw [work]
        exact polled
      · rw [phase]
        exact scheduled
  | workStart kworker =>
      obtain ⟨shared, started, rfl⟩ := Option.map_eq_some_iff.mp stepped
      obtain ⟨_, _, rfl⟩ := workStart_cases started
      exact ⟨stored, carried, fun _ never => WorkPc.noConfusion never, scheduled⟩
  | work =>
      obtain ⟨shared, worked, rfl⟩ := Option.map_eq_some_iff.mp stepped
      obtain ⟨storedNext, polledNext, phase⟩ := workStep_range stored worked
      refine ⟨storedNext, carried, polledNext, ?_⟩
      rw [phase]
      exact scheduled
  | initSchedule =>
      obtain ⟨shared, ran, rfl⟩ := Option.map_eq_some_iff.mp stepped
      rcases initSchedule_cases ran with ⟨st, phase, held, rfl⟩ | ⟨delay, phase, rfl⟩
      · refine ⟨stored, carried, polled, fun delay at_schedule => ?_⟩
        cases at_schedule
        exact stored st held
      · obtain ⟨_, state, _, _, work, _⟩ := scheduleDelayedWork_keeps s.shared delay
        refine ⟨?_, carried, ?_, fun _ never => Phase.noConfusion never⟩
        · dsimp only
          rw [state]
          exact stored
        · dsimp only
          rw [work]
          exact polled
  | exit =>
      obtain ⟨shared, exited, rfl⟩ := Option.map_eq_some_iff.mp stepped
      have unloading := (exitStep_effect exited).unloading
      refine ⟨fun after held => ?_, carried, ?_, fun delay at_schedule => ?_⟩
      · obtain ⟨st, before, same | same⟩ := exitStep_state exited held <;>
          exact same ▸ stored st before
      · dsimp only
        rw [(exitStep_effect exited).work]
        exact polled
      · rw [at_schedule] at unloading
        contradiction

theorem delayInRange_of_kept {s : System} (kept : RangesKept s) (act : Act) :
    DelayInRange s act := by
  intro delay handed
  cases act with
  | call i =>
      simp only [delayHanded] at handed
      split at handed
      · rename_i found
        cases Option.some.inj handed
        exact kept.carried _ (List.mem_of_getElem? found) delay rfl
      · contradiction
  | work =>
      simp only [delayHanded] at handed
      split at handed
      · rename_i at_schedule
        cases Option.some.inj handed
        exact kept.polled delay at_schedule
      · contradiction
  | initSchedule =>
      simp only [delayHanded] at handed
      split at handed
      · rename_i at_schedule
        cases Option.some.inj handed
        exact kept.scheduled delay at_schedule
      · contradiction
  | _ => contradiction

theorem rangesKept_initial {params : Params} (inRange : InPollRange params.initialPollMs)
    (startNs : UInt64) (caller : Identity) (buttonValue : Int) :
    RangesKept (System.initial params startNs caller buttonValue) :=
  ⟨fun _ held => Option.some.inj held ▸ inRange, nofun, nofun, nofun⟩

/-- For given load parameters, the interval stays in the range in every state
after init, and every delay handed to the work queue lies in it, along all runs,
exactly when `initial_poll_ms` lies in it. -/
theorem poll_range_iff_initial_in_range (params : Params) :
    (∀ startNs caller buttonValue acts s,
      run step (System.initial params startNs caller buttonValue) acts = some s →
        Always step PollInRange (System.initial params startNs caller buttonValue) acts ∧
          Meets step DelayInRange (System.initial params startNs caller buttonValue) acts) ↔
      minPollMs ≤ params.initialPollMs ∧ params.initialPollMs ≤ maxPollMs := by
  constructor
  · intro all
    have ran : run step (System.initial params 0 ⟨[], 0⟩ 0) [.initSchedule, .initSchedule] =
      some ⟨⟨some (initState params 0 ⟨[], 0⟩ 0), 0, desiredLed params.initialInvert 0,
        some params.initialPollMs, .idle, .loaded, false⟩, []⟩ := rfl
    exact always_last (all 0 ⟨[], 0⟩ 0 _ _ ran).1 ran rfl _ rfl
  · intro inRange startNs caller buttonValue acts s _
    have start := rangesKept_initial inRange startNs caller buttonValue
    have meets := meets_of_invariant step_rangesKept
      (fun _ act kept => delayInRange_of_kept kept act) start acts
    refine ⟨always_of_meets ?_ (fun _ kept _ => kept.stored) start meets, meets⟩
    exact fun s act next kept _ stepped => step_rangesKept s act next kept stepped

/-- Loaded with `initial_poll_ms=5`: the stored interval and the delay handed to
`schedule_delayed_work` are both below `MIN_POLL_MS`. -/
theorem initial_poll_ms_unchecked :
    ∃ s, run step (System.initial ⟨5, false⟩ 0 ⟨ascii "insmod", 100⟩ 0)
        [.initSchedule, .initSchedule] = some s ∧
      ¬ PollInRange s ∧
      ¬ Meets step DelayInRange (System.initial ⟨5, false⟩ 0 ⟨ascii "insmod", 100⟩ 0)
        [.initSchedule, .initSchedule] := by
  refine ⟨_, rfl, fun kept => ?_, fun meets => ?_⟩
  · exact absurd (kept rfl _ rfl) (by decide)
  · exact absurd ((meets.2 _ rfl).1 5 rfl) (by decide)

end GpioCtrl
