import KernelLabs.GpioCtrl.Driver

/-!
# The armed delay against the poll interval

A writer of `poll_ms` stores its value under the lock and re-arms the work after
it, so two writers can do the second in the other order than the first.  While
some writer has its `mod_delayed_work` to come, any disagreement will be
corrected by it or by the work; the last one on the way decides.
-/

set_option autoImplicit false

namespace GpioCtrl

open Kernel LabelledMachine PartyPool

/-- A writer of `poll_ms` between its store and its `mod_delayed_work`. -/
def Call.arming (call : Call) : Bool :=
  match call.pc with
  | .pollArm _ => true
  | _ => false

def System.armers (s : System) : Nat := s.parties.countP Call.arming

/-- After init and before exit, with no writer on the way and the work not
running: the work is pending with the delay of the current interval. -/
def DeadlineFollows (s : System) : Prop :=
  s.shared.phase = .loaded → s.armers = 0 → s.shared.work = .idle →
    ∃ st, s.shared.state = some st ∧ s.shared.pending = some st.pollMs

/-- The delay a step arms the work with when it leaves no writer on the way: the
`mod_delayed_work` of the only one, or the `schedule_delayed_work` of init. -/
def lastArm (s : System) : Act → Option UInt32
  | .call i =>
    match s.parties[i]? with
    | some ⟨_, _, _, .pollArm value⟩ =>
      if s.shared.phase.unloading = false ∧ s.armers = 1 then some value else none
    | _ => none
  | .initSchedule =>
    match s.shared.phase with
    | .scheduling delay => if s.shared.pending = none ∧ s.armers = 0 then some delay else none
    | _ => none
  | _ => none

/-- Such a step arms the work with the interval it finds. -/
def LastArmMatches (s : System) (act : Act) : Prop :=
  ∀ delay ∈ lastArm s act, ∀ st ∈ s.shared.state, st.pollMs = delay

instance (s : System) (act : Act) : Decidable (LastArmMatches s act) :=
  Option.decidableForallMem (lastArm s act)

theorem lastArm_eq_some {s : System} {act : Act} {delay : UInt32}
    (arms : lastArm s act = some delay) :
    (∃ i call, act = .call i ∧ s.parties[i]? = some call ∧ call.pc = .pollArm delay ∧
        s.shared.phase.unloading = false ∧ s.armers = 1) ∨
      (act = .initSchedule ∧ s.shared.phase = .scheduling delay ∧ s.shared.pending = none ∧
        s.armers = 0) := by
  cases act with
  | call i =>
      simp only [lastArm] at arms
      split at arms
      · rename_i found
        split at arms
        · rename_i last
          cases Option.some.inj arms
          exact Or.inl ⟨i, _, rfl, found, rfl, last⟩
        · contradiction
      · contradiction
  | initSchedule =>
      simp only [lastArm] at arms
      split at arms
      · rename_i phase
        split at arms
        · rename_i last
          cases Option.some.inj arms
          exact Or.inr ⟨rfl, phase, last⟩
        · contradiction
      · contradiction
  | _ => contradiction

/-! ## What a call can do to the interval and the work -/

inductive PollEffect (shared : Shared) (st : GpioctrlState) (call : Call) (next : Shared)
    (after : GpioctrlState) (moved : Call) : Prop where
  | stores (was : call.arming = false) (now : moved.arming = true)
      (pending : next.pending = shared.pending)
  | arms (value : UInt32) (pc : call.pc = .pollArm value) (now : moved.arming = false)
      (interval : after.pollMs = st.pollMs)
      (pending : next = modDelayedWork shared value)
  | neither (was : call.arming = false) (now : moved.arming = false)
      (interval : after.pollMs = st.pollMs) (pending : next.pending = shared.pending)

theorem callStep_poll {i : Nat} {shared next : Shared} {call moved : Call} {st : GpioctrlState}
    (held : shared.state = some st)
    (stepped : callStep i () shared call = some (next, moved)) :
    ∃ after, next.state = some after ∧ next.work = shared.work ∧ next.phase = shared.phase ∧
      PollEffect shared st call next after moved := by
  obtain ⟨origin, caller, count, pc⟩ := call
  cases pc with
  | pollStore value =>
      simp only [callStep, held] at stepped
      cases stepped
      exact ⟨_, rfl, rfl, rfl, .stores rfl rfl rfl⟩
  | pollArm value =>
      cases stepped
      refine ⟨st, ?_, ?_, ?_, .arms value rfl rfl rfl rfl⟩ <;>
      · unfold modDelayedWork
        split <;> first | rfl | exact held
  | invertStore value | resetStats =>
      simp only [callStep, held] at stepped
      cases stepped
      exact ⟨_, rfl, rfl, rfl, .neither rfl rfl rfl rfl⟩
  | sampleCommit report value =>
      simp only [callStep, held] at stepped
      cases stepped
      exact ⟨_, rfl, rfl, rfl, .neither rfl rfl (sampleSection_pollMs st caller value) rfl⟩
  | sampleRead report =>
      simp only [callStep] at stepped
      split at stepped <;> cases stepped <;>
        exact ⟨st, held, rfl, rfl, .neither rfl rfl rfl rfl⟩
  | done ret | crashed => contradiction

/-- A run of the work either goes on, reading the interval on its way, or arms
itself and ends. -/
inductive RunEffect (shared : Shared) (st : GpioctrlState) (next : Shared) : Prop where
  | goesOn (busy : next.work ≠ .idle) (sound : next.work ≠ .crashed)
      (polled : ∀ delay, next.work = .schedule delay → delay = st.pollMs)
      (pending : next.pending = shared.pending)
  | arms (delay : UInt32) (pc : shared.work = .schedule delay)
      (effect : next = { scheduleDelayedWork shared delay with work := .idle })

theorem workStep_poll {shared next : Shared} {st : GpioctrlState} (held : shared.state = some st)
    (stepped : workStep shared = some next) :
    ∃ after, next.state = some after ∧ after.pollMs = st.pollMs ∧ RunEffect shared st next := by
  cases pc : shared.work with
  | sampleRead kworker =>
      simp only [workStep, pc] at stepped
      cases stepped
      refine ⟨st, held, rfl, ?_⟩
      by_cases failed : readButton shared < 0
      · rw [if_pos failed]
        exact .goesOn WorkPc.noConfusion WorkPc.noConfusion (fun _ => WorkPc.noConfusion) rfl
      · rw [if_neg failed]
        exact .goesOn WorkPc.noConfusion WorkPc.noConfusion (fun _ => WorkPc.noConfusion) rfl
  | sampleCommit kworker value =>
      simp only [workStep, pc, held] at stepped
      cases stepped
      exact ⟨_, rfl, sampleSection_pollMs st kworker value,
        .goesOn WorkPc.noConfusion WorkPc.noConfusion (fun _ => WorkPc.noConfusion) rfl⟩
  | getPollMs =>
      simp only [workStep, pc, held] at stepped
      cases stepped
      refine ⟨st, rfl, rfl, .goesOn WorkPc.noConfusion WorkPc.noConfusion ?_ rfl⟩
      intro delay at_schedule
      cases at_schedule
      rfl
  | schedule delay =>
      simp only [workStep, pc] at stepped
      cases stepped
      exact ⟨st, (scheduleDelayedWork_keeps shared delay).2.1.trans held, rfl, .arms delay pc rfl⟩
  | idle | crashed =>
      simp only [workStep, pc] at stepped
      contradiction

theorem enter_arming (origin : Origin) (caller : Identity) (count : Nat)
    (result : Except Errno Command) :
    Call.arming ⟨origin, caller, count, enter result⟩ = false := by
  cases result with
  | error e => rfl
  | ok command => cases command <;> rfl

/-! ## While the module is in use -/

/-- What holds whatever the writers do. -/
def Shared.InUse (shared : Shared) : Prop :=
  shared.phase.unloading = false → ∃ st, shared.state = some st ∧ shared.work ≠ .crashed ∧
    (shared.phase = .loaded → shared.work = .idle → shared.pending ≠ none)

/-- An armed delay, and one the work is about to arm itself with, is the
interval. -/
structure Shared.Agrees (shared : Shared) (st : GpioctrlState) : Prop where
  pending : ∀ delay ∈ shared.pending, delay = st.pollMs
  polled : shared.pending = none → ∀ delay, shared.work = .schedule delay → delay = st.pollMs

/-- What holds while every last arming matches. -/
def System.Agrees (s : System) : Prop :=
  s.shared.phase.unloading = false → s.armers = 0 →
    ∀ st, s.shared.state = some st → s.shared.Agrees st

theorem DeadlineFollows.of_agrees {s : System} (inUse : s.shared.InUse) (agrees : s.Agrees) :
    DeadlineFollows s := by
  intro loaded settled idle
  have running : s.shared.phase.unloading = false := by rw [loaded]; rfl
  obtain ⟨st, held, _, armed⟩ := inUse running
  obtain ⟨delay, pending⟩ := Option.ne_none_iff_exists'.mp (armed loaded idle)
  refine ⟨st, held, ?_⟩
  rw [pending, (agrees running settled st held).pending delay pending]

theorem DeadlineFollows.matches {s : System} (follows : DeadlineFollows s)
    (loaded : s.shared.phase = .loaded) (settled : s.armers = 0) (idle : s.shared.work = .idle) :
    s.shared.pending = s.shared.state.map GpioctrlState.pollMs := by
  obtain ⟨st, held, armed⟩ := follows loaded settled idle
  rw [held, armed, Option.map_some]

theorem armers_set {s : System} {i : Nat} {call : Call} (next : Shared) (moved : Call)
    (found : s.parties[i]? = some call) :
    System.armers ⟨next, s.parties.set i moved⟩ + (if call.arming then 1 else 0) =
      s.armers + (if moved.arming then 1 else 0) :=
  countP_set_add Call.arming moved found

theorem armers_spawn {s : System} {call : Call} (quiet : call.arming = false) :
    System.armers (s.spawn call) = s.armers := by
  simp [System.armers, Pool.spawn, List.countP_append, quiet]

theorem not_cancelling {phase : Phase} (running : phase.unloading = false) :
    phase ≠ .cancelling := by
  rintro rfl
  contradiction

theorem modDelayedWork_pending {shared : Shared} (value : UInt32)
    (running : shared.phase.unloading = false) :
    (modDelayedWork shared value).pending = some value := by
  rw [modDelayedWork, if_neg (not_cancelling running)]

theorem scheduleDelayedWork_pending (shared : Shared) (delay : UInt32)
    (running : shared.phase.unloading = false) :
    (scheduleDelayedWork shared delay).pending = some (shared.pending.getD delay) := by
  unfold scheduleDelayedWork
  cases pending : shared.pending with
  | none => simp [not_cancelling running]
  | some armed => simp [pending]

/-! ## The steps -/

theorem Shared.InUse.call {shared next : Shared} {i : Nat} {call moved : Call}
    (inUse : shared.InUse) (stepped : callStep i () shared call = some (next, moved)) :
    next.InUse := by
  intro running
  have phase := (callStep_frame stepped).1.phase
  have before : shared.phase.unloading = false := phase ▸ running
  obtain ⟨st, held, sound, armed⟩ := inUse before
  obtain ⟨after, heldNext, work, _, effect⟩ := callStep_poll held stepped
  refine ⟨after, heldNext, work ▸ sound, fun loaded idle => ?_⟩
  have pendingBefore := armed (phase ▸ loaded) (work ▸ idle)
  cases effect with
  | stores was now pending => exact pending ▸ pendingBefore
  | neither was now interval pending => exact pending ▸ pendingBefore
  | arms value pc now interval effect =>
      rw [effect, modDelayedWork_pending value before]
      exact Option.some_ne_none value

theorem Shared.InUse.work {shared next : Shared} (inUse : shared.InUse)
    (stepped : workStep shared = some next) : next.InUse := by
  intro running
  have phase := (workStep_frame stepped).phase
  have before : shared.phase.unloading = false := phase ▸ running
  obtain ⟨st, held, sound, armed⟩ := inUse before
  obtain ⟨after, heldNext, _, effect⟩ := workStep_poll held stepped
  refine ⟨after, heldNext, ?_⟩
  cases effect with
  | goesOn busy sound polled pending => exact ⟨sound, fun _ idle => absurd idle busy⟩
  | arms delay pc effect =>
      rw [effect]
      refine ⟨nofun, fun _ _ => ?_⟩
      dsimp only
      rw [scheduleDelayedWork_pending _ delay before]
      exact Option.some_ne_none _

theorem Shared.InUse.initSchedule {shared next : Shared} (inUse : shared.InUse)
    (stepped : GpioCtrl.initSchedule shared = some next) : next.InUse := by
  intro _
  rcases initSchedule_cases stepped with ⟨st, phase, held, rfl⟩ | ⟨delay, phase, rfl⟩
  · obtain ⟨_, _, sound, _⟩ := inUse (by rw [phase]; rfl)
    exact ⟨st, held, sound, nofun⟩
  · have before : shared.phase.unloading = false := by rw [phase]; rfl
    obtain ⟨st, held, sound, _⟩ := inUse before
    obtain ⟨_, state, _, _, work, _⟩ := scheduleDelayedWork_keeps shared delay
    refine ⟨st, state.trans held, ?_, fun _ _ => ?_⟩
    · dsimp only
      rw [work]
      exact sound
    · dsimp only
      rw [scheduleDelayedWork_pending _ delay before]
      exact Option.some_ne_none _

theorem inUse_initial (params : Params) (startNs : UInt64) (caller : Identity)
    (buttonValue : Int) : (System.initial params startNs caller buttonValue).shared.InUse :=
  fun _ => ⟨_, rfl, nofun, nofun⟩

theorem step_inUse (s : System) (act : Act) (next : System) (inUse : s.shared.InUse)
    (stepped : step s act = some next) : next.shared.InUse := by
  cases act with
  | line value =>
      cases stepped
      exact inUse
  | writeAttr attr caller buf | writeDev caller data missing =>
      obtain ⟨_, _, _, _, rfl⟩ := step_writes rfl stepped
      exact inUse
  | call i =>
      obtain ⟨call, shared, moved, _, own, rfl⟩ := Pool.act_eq_some stepped
      exact inUse.call own
  | workStart kworker =>
      obtain ⟨shared, started, rfl⟩ := Option.map_eq_some_iff.mp stepped
      obtain ⟨_, _, rfl⟩ := workStart_cases started
      intro running
      obtain ⟨st, held, _, _⟩ := inUse running
      exact ⟨st, held, nofun, nofun⟩
  | work =>
      obtain ⟨shared, worked, rfl⟩ := Option.map_eq_some_iff.mp stepped
      exact inUse.work worked
  | initSchedule =>
      obtain ⟨shared, ran, rfl⟩ := Option.map_eq_some_iff.mp stepped
      exact inUse.initSchedule ran
  | exit =>
      obtain ⟨shared, exited, rfl⟩ := Option.map_eq_some_iff.mp stepped
      intro running
      exact absurd (running.symm.trans (exitStep_effect exited).unloading) Bool.false_ne_true

theorem System.Agrees.call {s : System} (inUse : s.shared.InUse) (agrees : s.Agrees) {i : Nat}
    {call moved : Call} {next : Shared} (found : s.parties[i]? = some call)
    (stepped : callStep i () s.shared call = some (next, moved))
    (allowed : LastArmMatches s (.call i)) : System.Agrees ⟨next, s.parties.set i moved⟩ := by
  intro running settled after heldNext
  have before : s.shared.phase.unloading = false := (callStep_frame stepped).1.phase ▸ running
  obtain ⟨st, held, _, _⟩ := inUse before
  obtain ⟨other, otherHeld, work, _, effect⟩ := callStep_poll held stepped
  cases Option.some.inj (otherHeld.symm.trans heldNext)
  have count := armers_set next moved found
  rw [settled] at count
  cases effect with
  | stores was now pending =>
      rw [was, now] at count
      simp at count
  | neither was now interval pending =>
      rw [was, now] at count
      have agreed := agrees before (by simpa using count.symm) st held
      constructor
      · rw [pending, interval]
        exact agreed.pending
      · rw [pending, work, interval]
        exact agreed.polled
  | arms value pc now interval effect =>
      obtain ⟨origin, caller, size, _⟩ := call
      subst pc
      rw [now] at count
      have single : s.armers = 1 := by simpa [Call.arming] using count.symm
      have matches_now := allowed value (by simp [lastArm, found, before, single]) st held
      have pending := effect ▸ modDelayedWork_pending value before
      constructor
      · intro delay armed
        rw [pending] at armed
        cases Option.some.inj armed
        rw [interval, matches_now]
      · rw [pending]
        exact nofun

theorem System.Agrees.work {s : System} (inUse : s.shared.InUse) (agrees : s.Agrees)
    {next : Shared} (stepped : workStep s.shared = some next) :
    System.Agrees { s with shared := next } := by
  intro running settled after heldNext
  have before : s.shared.phase.unloading = false := (workStep_frame stepped).phase ▸ running
  obtain ⟨st, held, _, _⟩ := inUse before
  have agreed := agrees before settled st held
  obtain ⟨other, otherHeld, interval, effect⟩ := workStep_poll held stepped
  cases Option.some.inj (otherHeld.symm.trans heldNext)
  cases effect with
  | goesOn busy sound polled pending =>
      constructor <;> simp only [pending, interval]
      · exact agreed.pending
      · exact fun _ => polled
  | arms delay pc effect =>
      have pending : next.pending = some (s.shared.pending.getD delay) :=
        effect ▸ scheduleDelayedWork_pending _ delay before
      constructor <;> simp only [pending, interval]
      · intro armed same
        cases Option.some.inj same
        -- an armed work is left alone, so the interval it read counts only when it is not
        cases waiting : s.shared.pending with
        | none => exact agreed.polled waiting delay pc
        | some already => exact agreed.pending already waiting
      · exact nofun

theorem System.Agrees.initSchedule {s : System} (agrees : s.Agrees) {next : Shared}
    (stepped : GpioCtrl.initSchedule s.shared = some next)
    (allowed : LastArmMatches s .initSchedule) : System.Agrees { s with shared := next } := by
  intro _ settled after heldNext
  rcases initSchedule_cases stepped with ⟨st, phase, held, rfl⟩ | ⟨delay, phase, rfl⟩
  · have agreed := agrees (by rw [phase]; rfl) settled after heldNext
    exact ⟨agreed.pending, agreed.polled⟩
  · have before : s.shared.phase.unloading = false := by rw [phase]; rfl
    have state := (scheduleDelayedWork_keeps s.shared delay).2.1
    have held : s.shared.state = some after := state.symm.trans heldNext
    have pending := scheduleDelayedWork_pending _ delay before
    constructor
    · intro armed same
      cases Option.some.inj (pending.symm.trans same)
      cases waiting : s.shared.pending with
      | none =>
          have idle : s.armers = 0 := settled
          exact (allowed delay (by simp [lastArm, phase, waiting, idle]) after held).symm
      | some already => exact (agrees before settled after held).pending already waiting
    · intro unarmed
      exact absurd (pending.symm.trans unarmed) (Option.some_ne_none _)

theorem agrees_initial (params : Params) (startNs : UInt64) (caller : Identity)
    (buttonValue : Int) : (System.initial params startNs caller buttonValue).Agrees :=
  fun _ _ _ _ => ⟨nofun, fun _ => nofun⟩

theorem step_agrees (s : System) (act : Act) (next : System) (inUse : s.shared.InUse)
    (agrees : s.Agrees) (allowed : LastArmMatches s act) (stepped : step s act = some next) :
    next.Agrees := by
  cases act with
  | line value =>
      cases stepped
      exact fun running settled st held => ⟨(agrees running settled st held).pending,
        (agrees running settled st held).polled⟩
  | writeAttr attr caller buf | writeDev caller data missing =>
      obtain ⟨_, _, _, _, rfl⟩ := step_writes rfl stepped
      intro running settled
      rw [armers_spawn (enter_arming _ _ _ _)] at settled
      exact agrees running settled
  | call i =>
      obtain ⟨call, shared, moved, found, own, rfl⟩ := Pool.act_eq_some stepped
      exact agrees.call inUse found own allowed
  | workStart kworker =>
      obtain ⟨shared, started, rfl⟩ := Option.map_eq_some_iff.mp stepped
      obtain ⟨_, _, rfl⟩ := workStart_cases started
      exact fun _ _ _ _ => ⟨nofun, fun _ => nofun⟩
  | work =>
      obtain ⟨shared, worked, rfl⟩ := Option.map_eq_some_iff.mp stepped
      exact agrees.work inUse worked
  | initSchedule =>
      obtain ⟨shared, ran, rfl⟩ := Option.map_eq_some_iff.mp stepped
      exact agrees.initSchedule ran allowed
  | exit =>
      obtain ⟨shared, exited, rfl⟩ := Option.map_eq_some_iff.mp stepped
      intro running
      exact absurd (running.symm.trans (exitStep_effect exited).unloading) Bool.false_ne_true

/-! ## What a last arming that does not match leads to -/

/-- No writer is on the way and the work is pending with another delay. -/
def Astray (s : System) : Prop :=
  s.shared.phase.unloading = false ∧ s.armers = 0 ∧ s.shared.InUse ∧
    ∃ st delay, s.shared.state = some st ∧ s.shared.pending = some delay ∧ delay ≠ st.pollMs

/-- The steps init still has to take. -/
def Phase.remaining : Phase → Nat
  | .sysfsCreated => 2
  | .scheduling _ => 1
  | _ => 0

def WorkPc.remaining : WorkPc → Nat
  | .sampleRead _ => 4
  | .sampleCommit _ _ => 3
  | .getPollMs => 2
  | .schedule _ => 1
  | .idle | .crashed => 0

def System.unfinished (s : System) : Nat := s.shared.phase.remaining + s.shared.work.remaining

theorem Astray.violates {s : System} (astray : Astray s) (loaded : s.shared.phase = .loaded)
    (idle : s.shared.work = .idle) : ¬ DeadlineFollows s := by
  obtain ⟨_, settled, _, st, delay, held, pending, differs⟩ := astray
  intro follows
  obtain ⟨other, otherHeld, matching⟩ := follows loaded settled idle
  cases Option.some.inj (held.symm.trans otherHeld)
  exact differs (Option.some.inj (pending.symm.trans matching))

theorem Astray.initStep {s : System} (astray : Astray s) (unloaded : s.shared.phase ≠ .loaded) :
    ∃ next, step s .initSchedule = some next ∧ Astray next ∧ next.unfinished < s.unfinished := by
  obtain ⟨running, settled, inUse, st, delay, held, pending, differs⟩ := astray
  have goes (later : Phase) (loading : later.unloading = false)
      (scheduled : initSchedule s.shared = some { s.shared with phase := later })
      (shorter : later.remaining < s.shared.phase.remaining) :
      ∃ next, step s .initSchedule = some next ∧ Astray next ∧ next.unfinished < s.unfinished := by
    refine ⟨{ s with shared := { s.shared with phase := later } }, ?_, ?_, ?_⟩
    · simp only [step, scheduled, Option.map_some]
    · exact ⟨loading, settled, inUse.initSchedule scheduled, st, delay, held, pending, differs⟩
    · exact Nat.add_lt_add_right shorter _
  cases phase : s.shared.phase with
  | sysfsCreated =>
      refine goes (.scheduling st.pollMs) rfl ?_ ?_
      · simp only [initSchedule, phase, held]
      · rw [phase]
        exact Nat.lt_succ_self 1
  | scheduling handed =>
      have same : scheduleDelayedWork s.shared handed = s.shared := by
        simp [scheduleDelayedWork, pending]
      refine goes .loaded rfl ?_ ?_
      · simp only [initSchedule, phase, same]
      · rw [phase]
        exact Nat.zero_lt_one
  | loaded => exact absurd phase unloaded
  | _ =>
      rw [phase] at running
      contradiction

theorem Astray.workStep {s : System} (astray : Astray s) (busy : s.shared.work ≠ .idle) :
    ∃ next, step s .work = some next ∧ Astray next ∧ next.unfinished < s.unfinished := by
  obtain ⟨running, settled, inUse, st, delay, held, pending, differs⟩ := astray
  have sound : s.shared.work ≠ .crashed := by
    obtain ⟨_, _, sound, _⟩ := inUse running
    exact sound
  have goes (next : Shared) (worked : GpioCtrl.workStep s.shared = some next)
      (shorter : next.work.remaining < s.shared.work.remaining) :
      ∃ next, step s .work = some next ∧ Astray next ∧ next.unfinished < s.unfinished := by
    have phase := (workStep_frame worked).phase
    obtain ⟨after, heldNext, interval, effect⟩ := workStep_poll held worked
    have stays : next.pending = some delay := by
      cases effect with
      | goesOn _ _ _ same => exact same.trans pending
      | arms handed _ effect =>
          rw [effect]
          exact (scheduleDelayedWork_pending _ handed running).trans (by simp [pending])
    refine ⟨{ s with shared := next }, ?_, ?_, ?_⟩
    · simp only [step, worked, Option.map_some]
    · exact ⟨phase.symm ▸ running, settled, inUse.work worked, after, delay, heldNext, stays,
        interval ▸ differs⟩
    · simp only [System.unfinished, phase]
      exact Nat.add_lt_add_left shorter _
  cases pc : s.shared.work with
  | idle => exact absurd pc busy
  | crashed => exact absurd pc sound
  | sampleRead kworker =>
      by_cases failed : readButton s.shared < 0
      · exact goes { s.shared with work := .getPollMs } (by simp [GpioCtrl.workStep, pc, failed])
          (by simp [WorkPc.remaining, pc])
      · exact goes { s.shared with work := .sampleCommit kworker (readButton s.shared) }
          (by simp [GpioCtrl.workStep, pc, failed]) (by simp [WorkPc.remaining, pc])
  | sampleCommit kworker value =>
      exact goes { commitSample s.shared st kworker value with work := .getPollMs }
        (by simp only [GpioCtrl.workStep, pc, held]) (by simp [WorkPc.remaining, pc])
  | getPollMs =>
      exact goes { s.shared with work := .schedule st.pollMs }
        (by simp [GpioCtrl.workStep, pc, held]) (by simp [WorkPc.remaining, pc])
  | schedule handed =>
      exact goes { scheduleDelayedWork s.shared handed with work := .idle }
        (by simp only [GpioCtrl.workStep, pc]) (by simp [WorkPc.remaining, pc])

/-- Init and the running work finish without correcting the delay. -/
theorem Astray.leads {s : System} (astray : Astray s) :
    ∃ acts last, run step s acts = some last ∧ ¬ DeadlineFollows last := by
  induction bound : s.unfinished using Nat.strongRecOn generalizing s with
  | ind n ih =>
      have continue_with (act : Act) (goes : ∃ next, step s act = some next ∧ Astray next ∧
          next.unfinished < s.unfinished) :
          ∃ acts last, run step s acts = some last ∧ ¬ DeadlineFollows last := by
        obtain ⟨next, stepped, nextAstray, shorter⟩ := goes
        obtain ⟨acts, last, ran, violates⟩ := ih _ (bound ▸ shorter) nextAstray rfl
        exact ⟨act :: acts, last, (run_cons_eq_some step).mpr ⟨next, stepped, ran⟩, violates⟩
      by_cases loaded : s.shared.phase = .loaded
      · by_cases idle : s.shared.work = .idle
        · exact ⟨[], s, rfl, astray.violates loaded idle⟩
        · exact continue_with .work (astray.workStep idle)
      · exact continue_with .initSchedule (astray.initStep loaded)

theorem astray_of_mismatch {s next : System} {act : Act} (inUse : s.shared.InUse)
    (misses : ¬ LastArmMatches s act) (stepped : step s act = some next) : Astray next := by
  have nextInUse := step_inUse s act next inUse stepped
  simp only [LastArmMatches, Option.mem_def, not_forall] at misses
  obtain ⟨delay, arms, st, held, differs⟩ := misses
  rcases lastArm_eq_some arms with
    ⟨i, call, rfl, found, pc, running, single⟩ | ⟨rfl, phase, waiting, settled⟩
  · obtain ⟨own, shared, moved, sameFound, ran, rfl⟩ := Pool.act_eq_some stepped
    cases Option.some.inj (found.symm.trans sameFound)
    obtain ⟨origin, caller, size, _⟩ := call
    subst pc
    cases ran
    have count :=
      armers_set (modDelayedWork s.shared delay) ⟨origin, caller, size, .done size⟩ found
    refine ⟨?_, ?_, nextInUse, st, delay, ?_, modDelayedWork_pending delay running,
      Ne.symm differs⟩
    · unfold modDelayedWork
      split <;> exact running
    · simpa [Call.arming, single] using count
    · unfold modDelayedWork
      split <;> exact held
  · obtain ⟨shared, ran, rfl⟩ := Option.map_eq_some_iff.mp stepped
    simp only [initSchedule, phase] at ran
    cases ran
    have pending := scheduleDelayedWork_pending s.shared delay (by rw [phase]; rfl)
    rw [waiting] at pending
    exact ⟨rfl, settled, nextInUse, st, delay,
      (scheduleDelayedWork_keeps s.shared delay).2.1.trans held, pending, Ne.symm differs⟩

/-- Along a run in which every arming that leaves no writer on the way matches
the interval, the work is armed with the interval in every state at rest.  After
the first one that does not, some continuation comes to rest with another delay. -/
theorem deadline_follows_while_last_arms_match (params : Params) (startNs : UInt64)
    (caller : Identity) (buttonValue : Int) (acts : List Act) (s : System)
    (ran : run step (System.initial params startNs caller buttonValue) acts = some s) :
    (Meets step LastArmMatches (System.initial params startNs caller buttonValue) acts →
      Always step DeadlineFollows (System.initial params startNs caller buttonValue) acts) ∧
    ∀ act next, step s act = some next → ¬ LastArmMatches s act →
      ∃ more last, run step next more = some last ∧ ¬ DeadlineFollows last := by
  constructor
  · intro meets
    refine always_of_meets (I := fun s => s.shared.InUse ∧ s.Agrees) ?_ ?_
      ⟨inUse_initial params startNs caller buttonValue,
        agrees_initial params startNs caller buttonValue⟩ meets
    · rintro s act next ⟨inUse, agrees⟩ allowed stepped
      exact ⟨step_inUse s act next inUse stepped,
        step_agrees s act next inUse agrees allowed stepped⟩
    · rintro s ⟨inUse, agrees⟩
      exact .of_agrees inUse agrees
  · intro act next stepped misses
    have inUse : s.shared.InUse := invariant_run step_inUse
      (inUse_initial params startNs caller buttonValue) ran
    exact (astray_of_mismatch inUse misses stepped).leads

/-- Two writers whose sections overlap and whose armings follow the order of
their stores. -/
theorem deadline_follows_two_writers :
    Always step DeadlineFollows (System.initial ⟨500, false⟩ 0 ⟨ascii "insmod", 100⟩ 0)
      [.initSchedule, .initSchedule, .writeAttr .pollMs ⟨ascii "sh", 7⟩ (ascii "100\n"),
        .writeDev ⟨ascii "sh", 8⟩ (ascii "poll_ms=200\n") 0, .call 0, .call 1, .call 0,
        .call 1] := by
  have ran := run_get step (System.initial ⟨500, false⟩ 0 ⟨ascii "insmod", 100⟩ 0)
    [.initSchedule, .initSchedule, .writeAttr .pollMs ⟨ascii "sh", 7⟩ (ascii "100\n"),
      .writeDev ⟨ascii "sh", 8⟩ (ascii "poll_ms=200\n") 0, .call 0, .call 1, .call 0, .call 1]
    (by decide +kernel)
  exact (deadline_follows_while_last_arms_match _ _ _ _ _ _ ran).1 (by decide +kernel)

/-- The first writer arms last: the interval is 200 and the work is armed with
100. -/
theorem deadline_behind_two_writers :
    ∃ s, run step (System.initial ⟨500, false⟩ 0 ⟨ascii "insmod", 100⟩ 0)
        [.initSchedule, .initSchedule, .writeAttr .pollMs ⟨ascii "sh", 7⟩ (ascii "100\n"),
          .writeDev ⟨ascii "sh", 8⟩ (ascii "poll_ms=200\n") 0, .call 0, .call 1, .call 1,
          .call 0] = some s ∧ ¬ DeadlineFollows s := by
  have ran := run_get step (System.initial ⟨500, false⟩ 0 ⟨ascii "insmod", 100⟩ 0)
    [.initSchedule, .initSchedule, .writeAttr .pollMs ⟨ascii "sh", 7⟩ (ascii "100\n"),
      .writeDev ⟨ascii "sh", 8⟩ (ascii "poll_ms=200\n") 0, .call 0, .call 1, .call 1, .call 0]
    (by decide +kernel)
  refine ⟨_, ran, fun follows => ?_⟩
  exact absurd (follows.matches (by decide +kernel) (by decide +kernel) (by decide +kernel))
    (by decide +kernel)

end GpioCtrl
