import KernelLabs.GpioCtrl.Driver

/-!
# The LED at rest

A writer of `invert` stores its value in one locked section and drives the LED
in the next, which samples the button.  Whoever samples in between brings the
LED in line as well; only between a store and the next sample of anyone can the
LED lag, and then the writer of that store is still on its way to its own.
-/

set_option autoImplicit false

namespace GpioCtrl

open Kernel LabelledMachine PartyPool

/-- A writer of `invert` between its store and the commit of its sample. -/
def Call.settingInvert (call : Call) : Bool :=
  match call.pc with
  | .sampleRead false => true
  | .sampleCommit false _ => true
  | _ => false

/-- The cached LED value is the one last driven on the line. -/
def Shared.Driven (shared : Shared) : Prop :=
  ∃ st, shared.state = some st ∧ st.led = shared.ledLine

def Shared.Settled (shared : Shared) : Prop :=
  ∃ st, shared.state = some st ∧ st.led = desiredLed st.invert st.button

/-- Fields of the state that do not concern the LED. -/
def SameLed (st after : GpioctrlState) : Prop :=
  after.led = st.led ∧ after.invert = st.invert ∧ after.button = st.button

theorem Shared.Settled.keep {shared next : Shared} {st after : GpioctrlState}
    (settled : shared.Settled) (held : shared.state = some st) (now : next.state = some after)
    (same : SameLed st after) : next.Settled := by
  obtain ⟨other, otherHeld, led⟩ := settled
  cases Option.some.inj (held.symm.trans otherHeld)
  refine ⟨after, now, ?_⟩
  rw [same.1, same.2.1, same.2.2]
  exact led

theorem commitSample_settles (shared : Shared) {st : GpioctrlState} (caller : Identity)
    (buttonValue : Int) (driven : st.led = shared.ledLine) :
    (commitSample shared st caller buttonValue).Driven ∧
      (commitSample shared st caller buttonValue).Settled := by
  refine ⟨⟨(sampleSection st caller buttonValue).1, rfl, ?_⟩,
    ⟨(sampleSection st caller buttonValue).1, rfl, ?_⟩⟩
  · simp only [commitSample, ← driven, sampleSection_led, sampleSection_written]
  · simp only [sampleSection_led, sampleSection_invert, sampleSection_button]

/-- After a call's step the LED is in line, or the call is setting `invert`, or
the LED was behind because of another call. -/
theorem callStep_led {i : Nat} {shared next : Shared} {call moved : Call}
    (driven : shared.Driven) (readable : 0 ≤ shared.buttonLine)
    (stepped : callStep i () shared call = some (next, moved)) :
    next.Driven ∧ (next.Settled ∨ moved.settingInvert = true ∨
      call.settingInvert = false ∧ ¬ shared.Settled) := by
  obtain ⟨st, held, led⟩ := driven
  -- the steps that leave the fields of the LED alone
  have kept {after : GpioctrlState} (now : next.state = some after) (line : next.ledLine =
      shared.ledLine) (same : SameLed st after) (idle : call.settingInvert = false) :
      next.Driven ∧ (next.Settled ∨ moved.settingInvert = true ∨
        call.settingInvert = false ∧ ¬ shared.Settled) := by
    refine ⟨⟨after, now, same.1.trans (led.trans line.symm)⟩, ?_⟩
    by_cases settled : shared.Settled
    · exact Or.inl (settled.keep held now same)
    · exact Or.inr (Or.inr ⟨idle, settled⟩)
  obtain ⟨origin, caller, count, pc⟩ := call
  cases pc with
  | pollStore value | resetStats =>
      simp only [callStep, held] at stepped
      cases stepped
      exact kept rfl rfl ⟨rfl, rfl, rfl⟩ rfl
  | pollArm value =>
      simp only [callStep, modDelayedWork] at stepped
      split at stepped <;> cases stepped <;> exact kept held rfl ⟨rfl, rfl, rfl⟩ rfl
  | invertStore value =>
      simp only [callStep, held] at stepped
      cases stepped
      exact ⟨⟨storeInvert st value, rfl, led⟩, Or.inr (Or.inl rfl)⟩
  | sampleRead report =>
      have value : readButton shared = shared.buttonLine := by simp [readButton, held]
      have succeeds : ¬ shared.buttonLine < 0 := by omega
      simp only [callStep, value, succeeds, if_false] at stepped
      cases stepped
      cases report with
      | true => exact kept held rfl ⟨rfl, rfl, rfl⟩ rfl
      | false => exact ⟨⟨st, held, led⟩, Or.inr (Or.inl rfl)⟩
  | sampleCommit report value =>
      simp only [callStep, held] at stepped
      cases stepped
      have settles := commitSample_settles shared caller value led
      exact ⟨settles.1, Or.inl settles.2⟩
  | done ret | crashed => contradiction

theorem workStep_led {shared next : Shared} (driven : shared.Driven)
    (stepped : workStep shared = some next) :
    next.Driven ∧ (shared.Settled → next.Settled) := by
  obtain ⟨st, held, led⟩ := driven
  have kept (now : next.state = some st) (line : next.ledLine = shared.ledLine) :
      next.Driven ∧ (shared.Settled → next.Settled) :=
    ⟨⟨st, now, led.trans line.symm⟩, fun settled => settled.keep held now ⟨rfl, rfl, rfl⟩⟩
  cases pc : shared.work with
  | sampleRead kworker =>
      simp only [workStep, pc] at stepped
      cases stepped
      exact kept held rfl
  | sampleCommit kworker value =>
      simp only [workStep, pc, held] at stepped
      cases stepped
      have settles := commitSample_settles shared kworker value led
      exact ⟨settles.1, fun _ => settles.2⟩
  | getPollMs =>
      simp only [workStep, pc, held] at stepped
      cases stepped
      exact kept rfl rfl
  | schedule delay =>
      simp only [workStep, scheduleDelayedWork, pc] at stepped
      split at stepped <;> cases stepped <;> exact kept held rfl
  | idle | crashed =>
      simp only [workStep, pc] at stepped
      contradiction

/-- While the module is in use: the cached LED value is the driven one, and it
is the desired one unless a writer of `invert` has its sample still to come. -/
structure LedFollows (s : System) : Prop where
  readable : 0 ≤ s.shared.buttonLine
  driven : s.shared.phase.unloading = false → s.shared.Driven
  follows : s.shared.phase.unloading = false →
    s.shared.Settled ∨ ∃ call ∈ s.parties, call.settingInvert = true

theorem ledFollows_initial (params : Params) (startNs : UInt64) (caller : Identity)
    (buttonValue : Int) (read : 0 ≤ buttonValue) :
    LedFollows (System.initial params startNs caller buttonValue) :=
  ⟨read, fun _ => ⟨_, rfl, rfl⟩, fun _ => Or.inl ⟨_, rfl, rfl⟩⟩

theorem LedFollows.spawn {s : System} (follows : LedFollows s) (call : Call) :
    LedFollows (s.spawn call) := by
  refine ⟨follows.readable, follows.driven, fun running => ?_⟩
  rcases follows.follows running with settled | ⟨writer, member, setting⟩
  · exact Or.inl settled
  · exact Or.inr ⟨writer, List.mem_append_left _ member, setting⟩

theorem LedFollows.call {s : System} (follows : LedFollows s) {i : Nat} {call moved : Call}
    {next : Shared} (found : s.parties[i]? = some call)
    (stepped : callStep i () s.shared call = some (next, moved)) :
    LedFollows ⟨next, s.parties.set i moved⟩ := by
  obtain ⟨⟨line, phase, _⟩, _⟩ := callStep_frame stepped
  refine ⟨line.symm ▸ follows.readable, fun running => ?_, fun running => ?_⟩
  · have driven := follows.driven (phase ▸ running)
    exact (callStep_led driven follows.readable stepped).1
  · have driven := follows.driven (phase ▸ running)
    rcases (callStep_led driven follows.readable stepped).2 with
      settled | setting | ⟨idle, behind⟩
    · exact Or.inl settled
    · exact Or.inr ⟨moved, moved_mem_set found, setting⟩
    · obtain ⟨writer, member, setting⟩ := (follows.follows (phase ▸ running)).resolve_left behind
      refine Or.inr ⟨writer, mem_set_of_ne found member ?_, setting⟩
      rintro rfl
      exact Bool.false_ne_true (idle.symm.trans setting)

/-- The steps that change neither the state nor the LED. -/
theorem LedFollows.frame {s : System} (follows : LedFollows s) {next : Shared}
    (line : 0 ≤ next.buttonLine) (state : next.state = s.shared.state)
    (led : next.ledLine = s.shared.ledLine)
    (phase : next.phase.unloading = false → s.shared.phase.unloading = false) :
    LedFollows { s with shared := next } := by
  refine ⟨line, fun running => ?_, fun running => ?_⟩
  · obtain ⟨st, held, driven⟩ := follows.driven (phase running)
    exact ⟨st, state.trans held, driven.trans led.symm⟩
  · refine (follows.follows (phase running)).imp_left ?_
    rintro ⟨st, held, settled⟩
    exact ⟨st, state.trans held, settled⟩

def ReadsSucceed (_ : System) : Act → Prop
  | .line value => 0 ≤ value
  | _ => True

theorem step_ledFollows (s : System) (act : Act) (next : System) (follows : LedFollows s)
    (reads : ReadsSucceed s act) (stepped : step s act = some next) : LedFollows next := by
  cases act with
  | line value =>
      cases stepped
      exact follows.frame reads rfl rfl id
  | writeAttr attr caller buf | writeDev caller data missing =>
      obtain ⟨_, _, _, _, rfl⟩ := step_writes rfl stepped
      exact follows.spawn _
  | call i =>
      obtain ⟨call, shared, moved, found, own, rfl⟩ := Pool.act_eq_some stepped
      exact follows.call found own
  | workStart kworker =>
      obtain ⟨shared, started, rfl⟩ := Option.map_eq_some_iff.mp stepped
      obtain ⟨_, _, rfl⟩ := workStart_cases started
      exact follows.frame follows.readable rfl rfl id
  | work =>
      obtain ⟨shared, worked, rfl⟩ := Option.map_eq_some_iff.mp stepped
      obtain ⟨line, phase, _⟩ := workStep_frame worked
      refine ⟨line.symm ▸ follows.readable, fun running => ?_, fun running => ?_⟩
      · exact (workStep_led (follows.driven (phase ▸ running)) worked).1
      · exact (follows.follows (phase ▸ running)).imp_left
          (workStep_led (follows.driven (phase ▸ running)) worked).2
  | initSchedule =>
      obtain ⟨shared, scheduled, rfl⟩ := Option.map_eq_some_iff.mp stepped
      rcases initSchedule_cases scheduled with ⟨st, phase, _, rfl⟩ | ⟨delay, phase, rfl⟩
      · exact follows.frame follows.readable rfl rfl fun _ => phase ▸ rfl
      · obtain ⟨_, state, line, led, _⟩ := scheduleDelayedWork_keeps s.shared delay
        exact follows.frame (line.symm ▸ follows.readable) state led fun _ => phase ▸ rfl
  | exit =>
      obtain ⟨shared, exited, rfl⟩ := Option.map_eq_some_iff.mp stepped
      obtain ⟨line, _, unloading, _⟩ := exitStep_effect exited
      refine ⟨line.symm ▸ follows.readable, fun running => ?_, fun running => ?_⟩ <;>
        exact absurd (running.symm.trans unloading) Bool.false_ne_true

/-- In every state before `gpioctrl_exit` in which no writer of `invert` is
between its store and its commit, the LED is what the stored button and
`invert` ask for, and the cached value is the driven one. -/
theorem led_desired_at_rest (params : Params) (startNs : UInt64) (caller : Identity)
    (buttonValue : Int) (first : buttonValue = 0 ∨ buttonValue = 1) (acts : List Act)
    (reads : ∀ value, .line value ∈ acts → value = 0 ∨ value = 1) (s : System)
    (ran : run step (System.initial params startNs caller buttonValue) acts = some s)
    (running : s.shared.phase.unloading = false)
    (rest : ∀ call ∈ s.parties, call.settingInvert = false) :
    ∃ st, s.shared.state = some st ∧
      st.led = (if st.invert then (if st.button = 0 then 1 else 0) else st.button) ∧
      st.led = s.shared.ledLine := by
  have succeed : ∀ act ∈ acts, ∀ t, ReadsSucceed t act := by
    intro act member t
    cases act with
    | line value =>
        have := reads value member
        simp only [ReadsSucceed]
        omega
    | _ => trivial
  have follows := invariant_meets step_ledFollows
    (ledFollows_initial params startNs caller buttonValue (by omega))
    (meets_of_forall_mem succeed _) ran
  obtain ⟨st, held, driven⟩ := follows.driven running
  rcases follows.follows running with ⟨other, otherHeld, settled⟩ | ⟨writer, member, setting⟩
  · cases Option.some.inj (held.symm.trans otherHeld)
    exact ⟨st, held, settled, driven⟩
  · exact absurd ((rest writer member).symm.trans setting) Bool.false_ne_true

/-- Two writers of `invert`, one of them overtaking the other between its store
and its sample. -/
theorem led_desired_at_rest_overtaken :
    ∃ s, run step (System.initial ⟨500, false⟩ 0 ⟨ascii "insmod", 100⟩ 0)
        [.initSchedule, .initSchedule, .writeAttr .invert ⟨ascii "sh", 7⟩ (ascii "1\n"),
          .writeDev ⟨ascii "sh", 8⟩ (ascii "invert=0\n") 0, .call 0, .call 1, .line 1,
          .call 0, .call 0, .call 1, .call 1] = some s ∧
      ∃ st, s.shared.state = some st ∧
        st.led = (if st.invert then (if st.button = 0 then 1 else 0) else st.button) ∧
        st.led = s.shared.ledLine := by
  have ran := run_get step (System.initial ⟨500, false⟩ 0 ⟨ascii "insmod", 100⟩ 0)
    [.initSchedule, .initSchedule, .writeAttr .invert ⟨ascii "sh", 7⟩ (ascii "1\n"),
      .writeDev ⟨ascii "sh", 8⟩ (ascii "invert=0\n") 0, .call 0, .call 1, .line 1,
      .call 0, .call 0, .call 1, .call 1] (by decide +kernel)
  refine ⟨_, ran, led_desired_at_rest _ _ _ _ (Or.inl rfl) _ ?_ _ ran (by decide +kernel)
    (by decide +kernel)⟩
  intro value member
  simp at member
  exact Or.inr member

end GpioCtrl
