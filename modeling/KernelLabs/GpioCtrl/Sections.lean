import KernelLabs.GpioCtrl.Driver

/-!
# The sections that write the counters

Only two of the driver's locked sections write the button value, the LED or the
counters: that of `gpioctrl_sample_once` and that of `reset_stats`.  A step of
the driver runs one of them or leaves all of these alone, until the teardown has
removed the attributes.
-/

set_option autoImplicit false

namespace GpioCtrl

open Kernel LabelledMachine PartyPool

inductive CounterSection where
  | sample (caller : Identity) (buttonValue : Int)
  | resetStats
  deriving DecidableEq, Repr

/-- The new state, and the value written to the LED line if there was a write. -/
def CounterSection.run (st : GpioctrlState) : CounterSection → GpioctrlState × Option Int
  | .sample caller buttonValue => sampleSection st caller buttonValue
  | .resetStats => (GpioCtrl.resetStats st, none)

def Call.counterSection (call : Call) : Option CounterSection :=
  match call.pc with
  | .sampleCommit _ value => some (.sample call.caller value)
  | .resetStats => some .resetStats
  | _ => none

def WorkPc.counterSection : WorkPc → Option CounterSection
  | .sampleCommit kworker value => some (.sample kworker value)
  | _ => none

/-- The section a step runs, if it runs one of the two. -/
def counterSection (s : System) : Act → Option CounterSection
  | .call i => s.parties[i]?.bind Call.counterSection
  | .work => s.shared.work.counterSection
  | _ => none

structure SameCounts (st after : GpioctrlState) : Prop where
  button : after.button = st.button
  samples : after.samples = st.samples
  changes : after.changes = st.changes
  outputUpdates : after.outputUpdates = st.outputUpdates

theorem SameCounts.refl (st : GpioctrlState) : SameCounts st st := ⟨rfl, rfl, rfl, rfl⟩

/-- A step runs its section, or keeps the counts and, while there are attributes,
the LED. -/
inductive SectionEffect (runs : Option CounterSection) (shared next : Shared)
    (st after : GpioctrlState) : Prop where
  | ran (own : CounterSection) (found : runs = some own) (effect : after = (own.run st).1)
      (line : next.ledLine = (own.run st).2.getD shared.ledLine)
  | kept (quiet : runs = none) (same : SameCounts st after)
      (led : next.phase.sysfsGone = false → after.led = st.led ∧ next.ledLine = shared.ledLine)

theorem SectionEffect.unchanged {shared next : Shared} {st after : GpioctrlState}
    (held : shared.state = some st) (state : next.state = shared.state)
    (line : next.ledLine = shared.ledLine) (heldNext : next.state = some after) :
    SectionEffect none shared next st after := by
  cases Option.some.inj (held.symm.trans (state.symm.trans heldNext))
  exact .kept rfl (.refl st) fun _ => ⟨rfl, line⟩

theorem callStep_section {i : Nat} {shared next : Shared} {call moved : Call}
    {after : GpioctrlState} (stepped : callStep i () shared call = some (next, moved))
    (heldNext : next.state = some after) :
    ∃ st, shared.state = some st ∧ SectionEffect call.counterSection shared next st after := by
  obtain ⟨st, held⟩ : ∃ st, shared.state = some st := by
    rw [← Option.isSome_iff_exists, ← (callStep_frame stepped).1.alive, heldNext]
    rfl
  refine ⟨st, held, ?_⟩
  obtain ⟨origin, caller, count, pc⟩ := call
  cases pc with
  | sampleCommit report value =>
      simp only [callStep, held] at stepped
      cases stepped
      exact .ran (.sample caller value) rfl (Option.some.inj heldNext).symm rfl
  | resetStats =>
      simp only [callStep, held] at stepped
      cases stepped
      exact .ran .resetStats rfl (Option.some.inj heldNext).symm rfl
  | pollStore value | invertStore value =>
      simp only [callStep, held] at stepped
      cases stepped
      cases Option.some.inj heldNext
      exact .kept rfl ⟨rfl, rfl, rfl, rfl⟩ fun _ => ⟨rfl, rfl⟩
  | pollArm value =>
      simp only [callStep, modDelayedWork] at stepped
      split at stepped <;> cases stepped <;> exact .unchanged held rfl rfl heldNext
  | sampleRead report =>
      simp only [callStep] at stepped
      split at stepped <;> cases stepped <;> exact .unchanged held rfl rfl heldNext
  | done ret | crashed => contradiction

theorem workStep_section {shared next : Shared} {after : GpioctrlState}
    (stepped : workStep shared = some next) (heldNext : next.state = some after) :
    ∃ st, shared.state = some st ∧
      SectionEffect shared.work.counterSection shared next st after := by
  obtain ⟨st, held⟩ : ∃ st, shared.state = some st := by
    rw [← Option.isSome_iff_exists, ← (workStep_frame stepped).alive, heldNext]
    rfl
  refine ⟨st, held, ?_⟩
  cases pc : shared.work with
  | sampleCommit kworker value =>
      simp only [workStep, pc, held] at stepped
      cases stepped
      exact .ran (.sample kworker value) rfl (Option.some.inj heldNext).symm rfl
  | sampleRead kworker =>
      simp only [workStep, pc] at stepped
      cases stepped
      exact .unchanged held rfl rfl heldNext
  | getPollMs =>
      simp only [workStep, pc, held] at stepped
      cases stepped
      exact .unchanged held held.symm rfl heldNext
  | schedule delay =>
      simp only [workStep, pc] at stepped
      cases stepped
      obtain ⟨_, state, _, line, _⟩ := scheduleDelayedWork_keeps shared delay
      exact .unchanged held state line heldNext
  | idle | crashed =>
      simp only [workStep, pc] at stepped
      contradiction

/-- Until the attributes are gone the teardown touches neither the state nor the
line. -/
theorem exitStep_open {calls : List Call} {shared next : Shared}
    (stepped : exitStep calls shared = some next) (isOpen : next.phase.sysfsGone = false) :
    shared.phase.sysfsGone = false ∧ next.state = shared.state ∧ next.ledLine = shared.ledLine := by
  unfold exitStep at stepped
  split at stepped
  case h_3 phase | h_4 phase =>
    split at stepped
    · cases stepped
      exact ⟨by rw [phase]; rfl, rfl, rfl⟩
    · contradiction
  case h_5 =>
    split at stepped
    · cases stepped
      contradiction
    · contradiction
  all_goals
    cases stepped
    try contradiction

theorem exitStep_section {calls : List Call} {shared next : Shared} {after : GpioctrlState}
    (stepped : exitStep calls shared = some next) (heldNext : next.state = some after) :
    ∃ st, shared.state = some st ∧ SectionEffect none shared next st after := by
  obtain ⟨st, held, moves⟩ := exitStep_state stepped heldNext
  refine ⟨st, held, .kept rfl ?_ fun isOpen => ?_⟩
  · rcases moves with rfl | rfl <;> exact ⟨rfl, rfl, rfl, rfl⟩
  · obtain ⟨_, state, line⟩ := exitStep_open stepped isOpen
    cases Option.some.inj (held.symm.trans (state.symm.trans heldNext))
    exact ⟨rfl, line⟩

/-- Everything a step can do to the counts and the LED. -/
theorem step_section {s next : System} {act : Act} {after : GpioctrlState}
    (stepped : step s act = some next) (heldNext : next.shared.state = some after) :
    ∃ st, s.shared.state = some st ∧
      SectionEffect (counterSection s act) s.shared next.shared st after := by
  cases act with
  | line value =>
      cases stepped
      exact ⟨after, heldNext, .unchanged heldNext rfl rfl heldNext⟩
  | writeAttr attr caller buf | writeDev caller data missing =>
      obtain ⟨_, _, _, _, rfl⟩ := step_writes rfl stepped
      exact ⟨after, heldNext, .unchanged heldNext rfl rfl heldNext⟩
  | call i =>
      obtain ⟨call, shared, moved, found, own, rfl⟩ := Pool.act_eq_some stepped
      simpa only [counterSection, found, Option.bind_some] using callStep_section own heldNext
  | workStart kworker =>
      obtain ⟨shared, started, rfl⟩ := Option.map_eq_some_iff.mp stepped
      obtain ⟨_, _, rfl⟩ := workStart_cases started
      exact ⟨after, heldNext, .unchanged heldNext rfl rfl heldNext⟩
  | work =>
      obtain ⟨shared, worked, rfl⟩ := Option.map_eq_some_iff.mp stepped
      exact workStep_section worked heldNext
  | initSchedule =>
      obtain ⟨shared, scheduled, rfl⟩ := Option.map_eq_some_iff.mp stepped
      rcases initSchedule_cases scheduled with ⟨st, _, held, rfl⟩ | ⟨delay, _, rfl⟩
      · exact ⟨st, held, .unchanged held rfl rfl heldNext⟩
      · obtain ⟨_, state, _, line, _⟩ := scheduleDelayedWork_keeps s.shared delay
        exact ⟨after, state.symm.trans heldNext,
          .unchanged (state.symm.trans heldNext) state line heldNext⟩
  | exit =>
      obtain ⟨shared, exited, rfl⟩ := Option.map_eq_some_iff.mp stepped
      exact exitStep_section exited heldNext

/-- The attributes never come back, and the state is there as long as they are. -/
theorem step_open {s next : System} {act : Act} (stepped : step s act = some next)
    (isOpen : next.shared.phase.sysfsGone = false) :
    s.shared.phase.sysfsGone = false ∧
      next.shared.state.isSome = s.shared.state.isSome := by
  cases act with
  | line value =>
      cases stepped
      exact ⟨isOpen, rfl⟩
  | writeAttr attr caller buf | writeDev caller data missing =>
      obtain ⟨_, _, _, _, rfl⟩ := step_writes rfl stepped
      exact ⟨isOpen, rfl⟩
  | call i =>
      obtain ⟨call, shared, moved, _, own, rfl⟩ := Pool.act_eq_some stepped
      exact ⟨(callStep_frame own).1.phase ▸ isOpen, (callStep_frame own).1.alive⟩
  | workStart kworker =>
      obtain ⟨shared, started, rfl⟩ := Option.map_eq_some_iff.mp stepped
      obtain ⟨_, _, rfl⟩ := workStart_cases started
      exact ⟨isOpen, rfl⟩
  | work =>
      obtain ⟨shared, worked, rfl⟩ := Option.map_eq_some_iff.mp stepped
      exact ⟨(workStep_frame worked).phase ▸ isOpen, (workStep_frame worked).alive⟩
  | initSchedule =>
      obtain ⟨shared, scheduled, rfl⟩ := Option.map_eq_some_iff.mp stepped
      rcases initSchedule_cases scheduled with ⟨st, phase, _, rfl⟩ | ⟨delay, phase, rfl⟩
      · exact ⟨phase ▸ rfl, rfl⟩
      · exact ⟨phase ▸ rfl,
          congrArg Option.isSome (scheduleDelayedWork_keeps s.shared delay).2.1⟩
  | exit =>
      obtain ⟨shared, exited, rfl⟩ := Option.map_eq_some_iff.mp stepped
      obtain ⟨before, state, _⟩ := exitStep_open exited isOpen
      exact ⟨before, congrArg Option.isSome state⟩

end GpioCtrl
