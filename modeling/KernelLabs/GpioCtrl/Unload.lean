import KernelLabs.GpioCtrl.Driver

/-!
# `gpioctrl_exit` against the writers of `poll_ms`

`cancel_delayed_work_sync` comes first and `sysfs_remove_group` second.  A writer
of the attribute that stored its value before, and arms the work between the
two, brings the poll work back; it then re-arms itself for ever, also after
`kfree(state)`.  Nothing else can arm the work once it is cancelled.
-/

set_option autoImplicit false

namespace GpioCtrl

open Kernel LabelledMachine PartyPool

def Shared.Quiet (shared : Shared) : Prop :=
  shared.pending = none ∧ shared.work = .idle ∧ shared.fault = false

instance (shared : Shared) : Decidable shared.Quiet := inferInstanceAs (Decidable (_ ∧ _))

/-- No writer arms the work once `cancel_delayed_work_sync` has returned. -/
def NoLateArm (s : System) : Act → Prop
  | .call i =>
    match s.parties[i]? with
    | some ⟨_, _, _, .pollArm _⟩ => s.shared.phase.cancelReturned = false
    | _ => True
  | _ => True

instance (s : System) (act : Act) : Decidable (NoLateArm s act) := by
  unfold NoLateArm
  split
  · split <;> infer_instance
  · infer_instance

/-! ## What calls and the work can do to the work -/

structure CallEffect (shared : Shared) (call : Call) (next : Shared) (moved : Call) : Prop where
  live : call.finished = false
  origin : moved.origin = call.origin
  phase : next.phase = shared.phase
  work : next.work = shared.work
  freed : next.state = none ↔ shared.state = none
  fault : next.fault = shared.fault ∨ shared.state = none ∧ next.fault = true
  pending : next.pending = shared.pending ∨ ∃ value, call.pc = .pollArm value ∧
    shared.phase ≠ .cancelling ∧ next.pending = some value

theorem callStep_effect {i : Nat} {shared next : Shared} {call moved : Call}
    (stepped : callStep i () shared call = some (next, moved)) :
    CallEffect shared call next moved := by
  obtain ⟨origin, caller, count, pc⟩ := call
  cases pc with
  | pollArm value =>
      by_cases cancelling : shared.phase = .cancelling
      · simp only [callStep, modDelayedWork, cancelling, if_true] at stepped
        cases stepped
        exact ⟨rfl, rfl, rfl, rfl, Iff.rfl, Or.inl rfl, Or.inl rfl⟩
      · simp only [callStep, modDelayedWork, cancelling, if_false] at stepped
        cases stepped
        exact ⟨rfl, rfl, rfl, rfl, Iff.rfl, Or.inl rfl, Or.inr ⟨value, rfl, cancelling, rfl⟩⟩
  | sampleRead report =>
      simp only [callStep] at stepped
      split at stepped <;> cases stepped <;>
        exact ⟨rfl, rfl, rfl, rfl, Iff.rfl, Or.inl rfl, Or.inl rfl⟩
  | pollStore value | invertStore value | sampleCommit report value | resetStats =>
      cases held : shared.state with
      | none =>
          simp only [callStep, held] at stepped
          cases stepped
          exact ⟨rfl, rfl, rfl, rfl, by simp [held], Or.inr ⟨held, rfl⟩, Or.inl rfl⟩
      | some st =>
          simp only [callStep, held] at stepped
          cases stepped
          exact ⟨rfl, rfl, rfl, rfl, by simp [held, commitSample], Or.inl rfl, Or.inl rfl⟩
  | done ret | crashed => contradiction

structure WorkEffect (shared next : Shared) : Prop where
  busy : shared.work ≠ .idle
  phase : next.phase = shared.phase
  freed : next.state = none ↔ shared.state = none
  fault : next.fault = shared.fault ∨ shared.state = none ∧ next.fault = true
  pending : next.pending = shared.pending ∨ shared.phase ≠ .cancelling ∧ next.pending ≠ none
  -- The work ends by arming itself again, unless it is being cancelled.
  rearms : next.work ≠ .idle ∨ shared.phase = .cancelling ∨ next.pending ≠ none

theorem workStep_effect {shared next : Shared} (stepped : workStep shared = some next) :
    WorkEffect shared next := by
  cases pc : shared.work with
  | idle | crashed =>
      simp only [workStep, pc] at stepped
      contradiction
  | sampleRead kworker =>
      simp only [workStep, pc] at stepped
      cases stepped
      refine ⟨by simp [pc], rfl, Iff.rfl, Or.inl rfl, Or.inl rfl, Or.inl ?_⟩
      dsimp only
      split <;> exact WorkPc.noConfusion
  | sampleCommit kworker value | getPollMs =>
      cases held : shared.state with
      | none =>
          simp only [workStep, pc, held] at stepped
          cases stepped
          exact ⟨by simp [pc], rfl, by simp [held], Or.inr ⟨held, rfl⟩, Or.inl rfl,
            Or.inl WorkPc.noConfusion⟩
      | some st =>
          simp only [workStep, pc, held] at stepped
          cases stepped
          exact ⟨by simp [pc], rfl, by simp [held, commitSample], Or.inl rfl, Or.inl rfl,
            Or.inl WorkPc.noConfusion⟩
  | schedule delay =>
      simp only [workStep, pc] at stepped
      cases stepped
      by_cases kept : shared.phase = .cancelling ∨ shared.pending.isSome
      · have same : scheduleDelayedWork shared delay = shared := if_pos kept
        rw [same]
        refine ⟨by simp [pc], rfl, Iff.rfl, Or.inl rfl, Or.inl rfl, Or.inr ?_⟩
        rcases kept with cancelling | armed
        · exact Or.inl cancelling
        · exact Or.inr (Option.isSome_iff_ne_none.mp armed)
      · have armed : scheduleDelayedWork shared delay = { shared with pending := some delay } :=
          if_neg kept
        rw [armed]
        have running : shared.phase ≠ .cancelling := fun cancelling => kept (Or.inl cancelling)
        exact ⟨by simp [pc], rfl, Iff.rfl, Or.inl rfl, Or.inr ⟨running, Option.some_ne_none _⟩,
          Or.inr (Or.inr (Option.some_ne_none _))⟩

/-! ## The teardown in order -/

structure Orderly (s : System) : Prop where
  sound : s.shared.fault = false
  allocated : s.shared.state = none → s.shared.phase = .freed
  disarmed : s.shared.phase = .cancelling → s.shared.pending = none
  quiet : s.shared.phase.cancelReturned = true → s.shared.pending = none ∧ s.shared.work = .idle
  devDone : s.shared.phase.unloading = true → ∀ call ∈ s.parties, call.origin = .dev → call.finished
  allDone : s.shared.phase.sysfsGone = true → ∀ call ∈ s.parties, call.finished

theorem orderly_initial (params : Params) (startNs : UInt64) (caller : Identity)
    (buttonValue : Int) : Orderly (System.initial params startNs caller buttonValue) := by
  constructor <;> intros <;> first | rfl | contradiction

/-- A write that was late leaves the work pending or running, and so it stays. -/
def Armed (s : System) : Prop := s.shared.phase.cancelReturned = true ∧ ¬ s.shared.Quiet

theorem Orderly.spawn {s : System} (orderly : Orderly s) {call : Call}
    (allowed : s.shared.phase.sysfsGone = false)
    (dev : call.origin = .dev → s.shared.phase.unloading = false) : Orderly (s.spawn call) := by
  obtain ⟨sound, allocated, disarmed, quiet, devDone, allDone⟩ := orderly
  refine ⟨sound, allocated, disarmed, quiet, ?_, ?_⟩
  · intro unloading
    refine forall_mem_spawn (devDone unloading) ?_
    intro origin
    exact absurd ((dev origin).symm.trans unloading) Bool.false_ne_true
  · intro gone
    exact absurd (allowed.symm.trans gone) Bool.false_ne_true

theorem Orderly.call {s : System} (orderly : Orderly s) {i : Nat} {call moved : Call}
    {next : Shared} (found : s.parties[i]? = some call)
    (effect : CallEffect s.shared call next moved)
    (early : ∀ value, call.pc = .pollArm value → s.shared.phase.cancelReturned = false) :
    Orderly ⟨next, s.parties.set i moved⟩ := by
  obtain ⟨sound, allocated, disarmed, quiet, devDone, allDone⟩ := orderly
  obtain ⟨live, origin, phase, work, freed, fault, pending⟩ := effect
  have member := List.mem_of_getElem? found
  have notGone : s.shared.phase.sysfsGone = false := by
    cases gone : s.shared.phase.sysfsGone with
    | false => rfl
    | true => exact absurd (live.symm.trans (allDone gone call member)) Bool.false_ne_true
  have held : s.shared.state ≠ none := by
    intro gone
    rw [allocated gone] at notGone
    contradiction
  refine ⟨?_, ?_, ?_, ?_, ?_, ?_⟩
  · rcases fault with same | ⟨gone, _⟩
    · rw [same]
      exact sound
    · exact absurd gone held
  · intro gone
    exact absurd (freed.mp gone) held
  · rw [phase]
    intro cancelling
    rcases pending with same | ⟨value, _, running, _⟩
    · rw [same]
      exact disarmed cancelling
    · exact absurd cancelling running
  · rw [phase, work]
    intro cancelled
    rcases pending with same | ⟨value, arms, _, _⟩
    · rw [same]
      exact quiet cancelled
    · rw [early value arms] at cancelled
      contradiction
  · rw [phase]
    intro unloading
    refine forall_mem_set (devDone unloading) ?_
    intro dev
    have own := devDone unloading call member (origin ▸ dev)
    exact absurd (live.symm.trans own) Bool.false_ne_true
  · rw [phase, notGone]
    exact fun gone => absurd gone Bool.false_ne_true

theorem Orderly.work {s : System} (orderly : Orderly s) {next : Shared}
    (effect : WorkEffect s.shared next) : Orderly { s with shared := next } := by
  obtain ⟨sound, allocated, disarmed, quiet, devDone, allDone⟩ := orderly
  obtain ⟨busy, phase, freed, fault, pending, _⟩ := effect
  have running : s.shared.phase.cancelReturned = false := by
    cases cancelled : s.shared.phase.cancelReturned with
    | false => rfl
    | true => exact absurd (quiet cancelled).2 busy
  have held : s.shared.state ≠ none := by
    intro gone
    rw [allocated gone] at running
    contradiction
  refine ⟨?_, ?_, ?_, ?_, ?_, ?_⟩
  · rcases fault with same | ⟨gone, _⟩
    · exact same.trans sound
    · exact absurd gone held
  · intro gone
    exact absurd (freed.mp gone) held
  · intro cancelling
    rcases pending with same | ⟨going, _⟩
    · exact same.trans (disarmed (phase ▸ cancelling))
    · exact absurd (phase ▸ cancelling) going
  · dsimp only
    rw [phase, running]
    exact fun cancelled => absurd cancelled Bool.false_ne_true
  · dsimp only
    rw [phase]
    exact devDone
  · dsimp only
    rw [phase]
    exact allDone

theorem Orderly.workStart {s : System} (orderly : Orderly s) {kworker : Identity} {next : Shared}
    (started : GpioCtrl.workStart kworker s.shared = some next) :
    Orderly { s with shared := next } := by
  unfold GpioCtrl.workStart at started
  split at started
  · rename_i ready
    cases started
    have running : s.shared.phase.cancelReturned = false := by
      cases cancelled : s.shared.phase.cancelReturned with
      | false => rfl
      | true => simp [(orderly.quiet cancelled).1] at ready
    refine ⟨orderly.sound, orderly.allocated, fun _ => rfl, ?_, orderly.devDone, orderly.allDone⟩
    exact fun cancelled => absurd (running.symm.trans cancelled) Bool.false_ne_true
  · contradiction

/-- Arming the work and leaving init: nothing of the teardown has begun. -/
theorem Orderly.beforeExit {s : System} (orderly : Orderly s) {next : Shared}
    (running : s.shared.phase.unloading = false) (later : next.phase.unloading = false)
    (fault : next.fault = s.shared.fault) (freed : next.state = none ↔ s.shared.state = none) :
    Orderly { s with shared := next } := by
  have notFreed (phase : Phase) (early : phase.unloading = false) : phase ≠ .freed ∧
      phase ≠ .cancelling ∧ phase.cancelReturned = false ∧ phase.sysfsGone = false := by
    cases phase <;> first | contradiction | exact ⟨nofun, nofun, rfl, rfl⟩
  obtain ⟨_, notCancelling, notCancelled, notGone⟩ := notFreed next.phase later
  refine ⟨fault.trans orderly.sound, fun freedNext => ?_, fun cancelling => ?_, fun cancelled => ?_,
    fun unloading => ?_, fun gone => ?_⟩
  · exact absurd (orderly.allocated (freed.mp freedNext)) (notFreed s.shared.phase running).1
  · exact absurd cancelling notCancelling
  · exact absurd (notCancelled.symm.trans cancelled) Bool.false_ne_true
  · exact absurd (later.symm.trans unloading) Bool.false_ne_true
  · exact absurd (notGone.symm.trans gone) Bool.false_ne_true

theorem Orderly.initSchedule {s : System} (orderly : Orderly s) {next : Shared}
    (scheduled : GpioCtrl.initSchedule s.shared = some next) :
    Orderly { s with shared := next } := by
  rcases initSchedule_cases scheduled with ⟨st, phase, _, rfl⟩ | ⟨delay, phase, rfl⟩
  · exact orderly.beforeExit (by rw [phase]; rfl) rfl rfl Iff.rfl
  · have kept := scheduleDelayedWork_keeps s.shared delay
    exact orderly.beforeExit (by rw [phase]; rfl) rfl kept.1 (by rw [← kept.2.1])

theorem Orderly.exit {s : System} (orderly : Orderly s) {next : Shared}
    (stepped : exitStep s.parties s.shared = some next) : Orderly { s with shared := next } := by
  obtain ⟨sound, allocated, disarmed, quiet, devDone, allDone⟩ := orderly
  have held (earlier : s.shared.phase ≠ .freed) : s.shared.state ≠ none :=
    fun gone => earlier (allocated gone)
  unfold exitStep at stepped
  cases phase : s.shared.phase with
  | sysfsCreated | scheduling delay => simp [phase] at stepped
  | loaded =>
      simp only [phase] at stepped
      split at stepped
      · rename_i noDev
        cases stepped
        refine ⟨sound, fun gone => absurd gone (held (by simp [phase])), fun _ => rfl,
          fun cancelled => ?_, fun _ call member dev => ?_, fun gone => ?_⟩
        · contradiction
        · have own := List.all_eq_true.mp noDev call member
          simpa [dev] using own
        · contradiction
      · contradiction
  | cancelling =>
      simp only [phase] at stepped
      split at stepped
      · rename_i idle
        cases stepped
        refine ⟨sound, fun gone => absurd gone (held (by simp [phase])),
          fun _ => disarmed phase, fun _ => ⟨disarmed phase, idle⟩,
          fun _ => devDone (by rw [phase]; rfl), fun gone => ?_⟩
        contradiction
      · contradiction
  | cancelled =>
      simp only [phase] at stepped
      have quietHere := quiet (by rw [phase]; rfl)
      have devHere := devDone (by rw [phase]; rfl)
      split at stepped
      · rename_i noSysfs
        cases stepped
        refine ⟨sound, fun gone => absurd gone (held (by simp [phase])), fun _ => quietHere.1,
          fun _ => quietHere, fun _ => devHere, fun _ call member => ?_⟩
        have own := List.all_eq_true.mp noSysfs call member
        rcases origin : call.origin with _ | _
        · simpa [origin] using own
        · exact devHere call member origin
      · contradiction
  | sysfsRemoved | deregistered | ledLineOff | ledOff =>
      simp only [phase] at stepped
      cases stepped
      have quietHere := quiet (by rw [phase]; rfl)
      have devHere := devDone (by rw [phase]; rfl)
      have allHere := allDone (by rw [phase]; rfl)
      refine ⟨sound, fun gone => ?_, fun _ => quietHere.1, fun _ => quietHere, fun _ => devHere,
        fun _ => allHere⟩
      first
        | rfl
        | exact absurd (by simpa using gone) (held (by simp [phase]))
  | freed => simp [phase] at stepped

theorem step_orderly (s : System) (act : Act) (next : System) (orderly : Orderly s)
    (early : NoLateArm s act) (stepped : step s act = some next) : Orderly next := by
  cases act with
  | line value =>
      cases stepped
      exact ⟨orderly.sound, orderly.allocated, orderly.disarmed, orderly.quiet, orderly.devDone,
        orderly.allDone⟩
  | writeAttr attr caller buf =>
      simp only [step] at stepped
      split at stepped
      · contradiction
      · rename_i present
        cases stepped
        exact orderly.spawn (Bool.eq_false_of_not_eq_true present)
          (fun dev => Origin.noConfusion dev)
  | writeDev caller data missing =>
      simp only [step] at stepped
      split at stepped
      · contradiction
      · rename_i running
        cases stepped
        have notUnloading := Bool.eq_false_of_not_eq_true running
        refine orderly.spawn ?_ (fun _ => notUnloading)
        cases phase : s.shared.phase <;> rw [phase] at notUnloading <;> first | rfl | contradiction
  | call i =>
      obtain ⟨call, shared, moved, found, own, rfl⟩ := Pool.act_eq_some stepped
      refine orderly.call found (callStep_effect own) ?_
      intro value arms
      obtain ⟨origin, caller, count, _⟩ := call
      subst arms
      simpa only [NoLateArm, found] using early
  | workStart kworker =>
      obtain ⟨shared, started, rfl⟩ := Option.map_eq_some_iff.mp stepped
      exact orderly.workStart started
  | work =>
      obtain ⟨shared, worked, rfl⟩ := Option.map_eq_some_iff.mp stepped
      exact orderly.work (workStep_effect worked)
  | initSchedule =>
      obtain ⟨shared, scheduled, rfl⟩ := Option.map_eq_some_iff.mp stepped
      exact orderly.initSchedule scheduled
  | exit =>
      obtain ⟨shared, exited, rfl⟩ := Option.map_eq_some_iff.mp stepped
      exact orderly.exit exited

theorem ne_cancelling {phase : Phase} (cancelled : phase.cancelReturned = true) :
    phase ≠ .cancelling := by
  rintro rfl
  contradiction

theorem step_late (s : System) (act : Act) (next : System) (_ : Orderly s)
    (late : ¬ NoLateArm s act) (stepped : step s act = some next) : Armed next := by
  unfold NoLateArm at late
  split at late
  · rename_i i
    split at late
    · rename_i origin caller count value found
      have cancelled := Bool.eq_true_of_not_eq_false late
      have running := ne_cancelling cancelled
      simp only [step, Pool.act, found, callStep, modDelayedWork, running, if_false] at stepped
      cases stepped
      exact ⟨cancelled, fun quiet => Option.some_ne_none value quiet.1⟩
    · exact absurd trivial late
  · exact absurd trivial late

theorem exitStep_keeps_work {calls : List Call} {shared next : Shared}
    (cancelled : shared.phase.cancelReturned = true) (stepped : exitStep calls shared = some next) :
    next.phase.cancelReturned = true ∧ next.pending = shared.pending ∧ next.work = shared.work ∧
      next.fault = shared.fault := by
  unfold exitStep at stepped
  cases phase : shared.phase with
  | sysfsCreated | scheduling delay | loaded | cancelling =>
      rw [phase] at cancelled
      contradiction
  | cancelled =>
      simp only [phase] at stepped
      split at stepped
      · cases stepped
        exact ⟨rfl, rfl, rfl, rfl⟩
      · contradiction
  | sysfsRemoved | deregistered | ledLineOff | ledOff =>
      simp only [phase] at stepped
      cases stepped
      exact ⟨rfl, rfl, rfl, rfl⟩
  | freed => simp [phase] at stepped

/-- Once brought back, the work is pending or running in every later state, or
has already used the freed state. -/
theorem step_stays_armed (s : System) (act : Act) (next : System) (armed : Armed s)
    (stepped : step s act = some next) : Armed next := by
  obtain ⟨cancelled, stirring⟩ := armed
  have running := ne_cancelling cancelled
  cases act with
  | line value =>
      cases stepped
      exact ⟨cancelled, stirring⟩
  | writeAttr attr caller buf | writeDev caller data missing =>
      obtain ⟨_, _, _, _, rfl⟩ := step_writes rfl stepped
      exact ⟨cancelled, stirring⟩
  | call i =>
      obtain ⟨call, shared, moved, found, own, rfl⟩ := Pool.act_eq_some stepped
      obtain ⟨_, _, phase, work, _, fault, pending⟩ := callStep_effect own
      refine ⟨(congrArg Phase.cancelReturned phase).trans cancelled, ?_⟩
      rintro ⟨disarmed, idle, sound⟩
      refine stirring ⟨?_, work.symm.trans idle, ?_⟩
      · rcases pending with same | ⟨value, _, _, arms⟩
        · exact same.symm.trans disarmed
        · exact absurd (arms.symm.trans disarmed) (Option.some_ne_none value)
      · rcases fault with same | ⟨_, faulted⟩
        · exact same.symm.trans sound
        · exact absurd (sound.symm.trans faulted) Bool.false_ne_true
  | workStart kworker =>
      obtain ⟨shared, started, rfl⟩ := Option.map_eq_some_iff.mp stepped
      unfold workStart at started
      split at started
      · cases started
        exact ⟨cancelled, fun quiet => WorkPc.noConfusion quiet.2.1⟩
      · contradiction
  | work =>
      obtain ⟨shared, worked, rfl⟩ := Option.map_eq_some_iff.mp stepped
      obtain ⟨_, phase, _, _, _, rearms⟩ := workStep_effect worked
      refine ⟨(congrArg Phase.cancelReturned phase).trans cancelled, ?_⟩
      rintro ⟨disarmed, idle, _⟩
      rcases rearms with busy | cancelling | pending
      · exact busy idle
      · exact running cancelling
      · exact pending disarmed
  | initSchedule =>
      obtain ⟨shared, scheduled, rfl⟩ := Option.map_eq_some_iff.mp stepped
      rcases initSchedule_cases scheduled with ⟨st, phase, _, rfl⟩ | ⟨delay, phase, rfl⟩ <;>
      · rw [phase] at cancelled
        contradiction
  | exit =>
      obtain ⟨shared, exited, rfl⟩ := Option.map_eq_some_iff.mp stepped
      obtain ⟨stays, pending, work, fault⟩ := exitStep_keeps_work cancelled exited
      refine ⟨stays, ?_⟩
      rintro ⟨disarmed, idle, sound⟩
      exact stirring ⟨pending.symm.trans disarmed, work.symm.trans idle, fault.symm.trans sound⟩

/-- **Unload.** When a run has freed the state, the work is neither pending nor
running, and nothing used the freed state, exactly when no `poll_ms` writer
armed the work after `cancel_delayed_work_sync` had returned. -/
theorem freed_quiet_iff_no_late_arm (params : Params) (startNs : UInt64) (caller : Identity)
    (buttonValue : Int) (acts : List Act) (s : System)
    (ran : run step (System.initial params startNs caller buttonValue) acts = some s)
    (freed : s.shared.phase = .freed) :
    (s.shared.pending = none ∧ s.shared.work = .idle ∧ s.shared.fault = false) ↔
      Meets step NoLateArm (System.initial params startNs caller buttonValue) acts := by
  rcases meets_or_damaged step_orderly step_late step_stays_armed
    (orderly_initial params startNs caller buttonValue) ran with ⟨meets, orderly⟩ | ⟨misses, armed⟩
  · have quiet := orderly.quiet (by rw [freed]; rfl)
    exact ⟨fun _ => meets, fun _ => ⟨quiet.1, quiet.2, orderly.sound⟩⟩
  · exact ⟨fun quiet => absurd quiet armed.2, fun meets => absurd meets misses⟩

def System.afterInsmod : System :=
  System.initial ⟨500, false⟩ 0 ⟨ascii "insmod", 100⟩ 0

def writerBeforeExit : List Act :=
  [.initSchedule, .initSchedule, .writeAttr .pollMs ⟨ascii "sh", 7⟩ (ascii "100\n"), .call 0,
    .workStart ⟨ascii "kworker", 9⟩, .call 0, .exit, .work, .work, .work, .work, .exit, .exit,
    .exit, .exit, .exit, .exit]

theorem writerBeforeExit_quiet :
    ∃ s, run step System.afterInsmod writerBeforeExit = some s ∧ s.shared.phase = .freed ∧
      s.shared.pending = none ∧ s.shared.work = .idle ∧ s.shared.fault = false :=
  have ran := run_get step System.afterInsmod writerBeforeExit (by decide +kernel)
  ⟨_, ran, by decide +kernel, (freed_quiet_iff_no_late_arm _ _ _ _ _ _ ran (by decide +kernel)).mpr
    (by decide +kernel)⟩

/-- The writer is suspended between its store and its `mod_delayed_work` while
`cancel_delayed_work_sync` runs; the work fires after `kfree(state)`. -/
def writerAcrossCancel : List Act :=
  [.initSchedule, .initSchedule, .writeAttr .pollMs ⟨ascii "sh", 7⟩ (ascii "10\n"), .call 0,
    .exit, .exit, .call 0, .exit, .exit, .exit, .exit, .exit, .workStart ⟨ascii "kworker", 9⟩,
    .work, .work]

theorem writerAcrossCancel_uses_freed_state :
    ∃ acts s, run step System.afterInsmod acts = some s ∧ s.shared.phase = .freed ∧
      s.shared.fault = true :=
  have ran := run_get step System.afterInsmod writerAcrossCancel (by decide +kernel)
  ⟨_, _, ran, by decide +kernel, by decide +kernel⟩

end GpioCtrl
