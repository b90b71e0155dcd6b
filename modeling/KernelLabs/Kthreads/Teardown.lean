import KernelLabs.Kthreads.Ownership

/-!
# No producer thread outlives init's failure or exit

Init removes the attributes without stopping a producer when its own start
failed, and exit stops the producer before it removes them.  Whatever a control
write started and nobody stopped by the time `sysfs_remove_group` is done runs on
after init or exit has returned; that is decided by `producer_task` alone.
-/

set_option autoImplicit false

namespace Kthreads.Lifecycle

open Kernel LabelledMachine PartyPool LockWord

def Stage.closed : Stage → Bool
  | .miscRegister | .kobjectCreate | .sysfsCreate => true
  | .initPut _ | .initDeregister _ | .initFailed _ => true
  | .exitPut | .exitDeregister | .exited => true
  | _ => false

def Stage.ended : Stage → Bool
  | .initPut _ | .initDeregister _ | .initFailed _ => true
  | .exitPut | .exitDeregister | .exited => true
  | _ => false

def Stage.Returned (stage : Stage) : Prop := (∃ ret, stage = .initFailed ret) ∨ stage = .exited

/-- When `sysfs_remove_group` is done, `producer_task` is NULL. -/
def RemovesNoProducer (s : System) : Act → Prop
  | .module _ =>
    match s.shared.stage with
    | .initRemove _ | .exitRemove => s.shared.producerTask = .null
    | _ => True
  | _ => True

instance (s : System) (act : Act) : Decidable (RemovesNoProducer s act) := by
  unfold RemovesNoProducer
  split
  · split <;> infer_instance
  · infer_instance

/-- What the stages of init and exit guarantee, as long as the attributes were
removed with `producer_task` NULL. -/
structure Staged (s : System) : Prop where
  closed : s.shared.stage.closed = true → s.shared.attrs = false ∧
    (∀ call ∈ s.parties, call.finished = true) ∧ s.shared.producerTask = .null
  -- The loading task is not inside a call between init and exit.
  loader : s.shared.stage = .loaded → ∃ call, s.parties[0]? = some call ∧ call.finished = true
  present : s.parties ≠ []

/-- The attributes are gone and a thread that nobody will stop runs. -/
structure Leaked (s : System) : Prop where
  ended : s.shared.stage.ended = true
  attrs : s.shared.attrs = false
  finished : ∀ call ∈ s.parties, call.finished = true
  thread : ∃ (t : Nat) (thread : Thread), s.shared.threads[t]? = some thread ∧
    thread.pc ≠ .exited ∧ thread.shouldStop = false

theorem staged_initial : Staged System.initial := by
  refine ⟨fun _ => ⟨rfl, ?_, rfl⟩, fun loaded => Stage.noConfusion loaded, List.cons_ne_nil _ _⟩
  intro call member
  rw [List.mem_singleton.mp member]
  rfl

/-! ## Calls and threads -/

theorem callStep_frame {i : Nat} {outcome : Run} {shared next : Shared} {call moved : Call}
    (stepped : callStep i outcome shared call = some (next, moved)) :
    call.finished = false ∧ next.attrs = shared.attrs ∧ next.stage = shared.stage := by
  obtain ⟨count, pc⟩ := call
  cases pc with
  | idle | done ret | shown text | crashed locked => contradiction
  | startLock | stopLock | statusLock =>
      simp only [callStep] at stepped
      split at stepped
      · contradiction
      · cases stepped
        exact ⟨rfl, rfl, rfl⟩
  | startCheck | startTest =>
      simp only [callStep] at stepped
      split at stepped <;> cases stepped <;> exact ⟨rfl, rfl, rfl⟩
  | startRun =>
      cases outcome <;> cases stepped <;> exact ⟨rfl, rfl, rfl⟩
  | stopJoin t =>
      simp only [callStep] at stepped
      split at stepped
      · cases stepped
        exact ⟨rfl, rfl, rfl⟩
      · contradiction
  | statusRead =>
      simp only [callStep] at stepped
      split at stepped
      · cases stepped
        exact ⟨rfl, rfl, rfl⟩
      · cases stepped
        exact ⟨rfl, rfl, rfl⟩
      · split at stepped <;> cases stepped <;> exact ⟨rfl, rfl, rfl⟩
  | startUnlock ret | stopTake | stopUnlock task | stopFlag t | statusUnlock running pid
  | statusEmit running pid =>
      cases stepped
      exact ⟨rfl, rfl, rfl⟩

theorem Accounted.spawn {s : System} (accounted : Accounted s) {call : Call}
    (outside : call.holds = false) (ownsNone : call.owned = none) (waits : call.pc ≠ .startRun) :
    Accounted (s.spawn call) := by
  refine ⟨?_, ?_, ?_, ?_, ?_, ?_⟩
  · have exclusive := accounted.exclusive
    simpa [Pool.spawn, List.countP_append, outside] using exclusive
  · intro t thread here alive
    rcases accounted.owned t thread here alive with pointer | ⟨owner, member, owns⟩
    · exact Or.inl pointer
    · exact Or.inr ⟨owner, List.mem_append_left _ member, owns⟩
  · intro t pointer
    obtain ⟨alive, unowned⟩ := accounted.current t pointer
    exact ⟨alive, forall_mem_spawn unowned (by simp [ownsNone])⟩
  · exact forall_mem_spawn accounted.known fun t owns => absurd (ownsNone.symm.trans owns) (by simp)
  · exact forall_mem_spawn accounted.running fun runs => absurd runs waits
  · intro e pointer
    obtain ⟨other, member, atTest⟩ := accounted.failing e pointer
    exact ⟨other, List.mem_append_left _ member, atTest⟩

/-- A call that is about to begin, or was turned down. -/
def Call.atEntry (call : Call) : Bool :=
  match call.pc with
  | .startLock | .stopLock | .statusLock | .done _ => true
  | _ => false

theorem atEntry_outside {call : Call} (entry : call.atEntry = true) :
    call.holds = false ∧ call.owned = none ∧ call.pc ≠ .startRun := by
  obtain ⟨count, pc⟩ := call
  cases pc <;> first | exact ⟨rfl, rfl, CallPc.noConfusion⟩ | contradiction

theorem controlStore_atEntry (count : Nat) (buf : Bytes) :
    Call.atEntry ⟨count, controlStore buf⟩ = true := by
  unfold controlStore
  split
  · rfl
  · split
    · rfl
    · split <;> rfl

/-- A write to `control` or a read of `status`. -/
def Act.begins : Act → Bool
  | .writeControl _ | .readStatus => true
  | _ => false

theorem step_begins {s next : System} {act : Act} (begins : act.begins = true)
    (stepped : step s act = some next) :
    s.shared.attrs = true ∧ ∃ call : Call, call.atEntry = true ∧ next = s.spawn call := by
  cases act with
  | writeControl buf =>
      simp only [step] at stepped
      split at stepped
      · rename_i attrs
        cases stepped
        exact ⟨attrs, _, controlStore_atEntry buf.length buf, rfl⟩
      · contradiction
  | readStatus =>
      simp only [step] at stepped
      split at stepped
      · rename_i attrs
        cases stepped
        exact ⟨attrs, ⟨0, .statusLock⟩, rfl, rfl⟩
      · contradiction
  | call i outcome | thread t ns | module failure => contradiction

theorem Staged.spawn {s : System} (staged : Staged s) (attrs : s.shared.attrs = true)
    (call : Call) : Staged (s.spawn call) := by
  refine ⟨?_, ?_, by simp [Pool.spawn]⟩
  · intro closed
    exact absurd ((staged.closed closed).1.symm.trans attrs) Bool.false_ne_true
  · intro loaded
    obtain ⟨first, found, finished⟩ := staged.loader loaded
    exact ⟨first, getElem?_spawn_old found call, finished⟩

theorem Staged.call {s : System} (staged : Staged s) {i : Nat} {call moved : Call} {next : Shared}
    (found : s.parties[i]? = some call) (live : call.finished = false)
    (stage : next.stage = s.shared.stage) : Staged ⟨next, s.parties.set i moved⟩ := by
  have notDone : ¬ call.finished = true := by rw [live]; exact Bool.false_ne_true
  refine ⟨?_, ?_, by simpa using staged.present⟩
  · dsimp only
    rw [stage]
    intro closed
    exact absurd ((staged.closed closed).2.1 call (List.mem_of_getElem? found)) notDone
  · dsimp only
    rw [stage]
    intro loaded
    obtain ⟨first, firstFound, finished⟩ := staged.loader loaded
    refine ⟨first, ?_, finished⟩
    have other : i ≠ 0 := by
      rintro rfl
      exact notDone (Option.some.inj (firstFound.symm.trans found) ▸ finished)
    exact (List.getElem?_set_ne other).trans firstFound

/-! ## Init and exit -/

theorem Accounted.relabel {s : System} (accounted : Accounted s) (attrs : Bool) (stage : Stage) :
    Accounted { s with shared := { s.shared with attrs, stage } } :=
  ⟨accounted.exclusive, accounted.owned, accounted.current, accounted.known, accounted.running,
    accounted.failing⟩

theorem finished_outside {call : Call} (finished : call.finished = true) :
    call.holds = false ∧ call.owned = none ∧ call.pc ≠ .startTest := by
  obtain ⟨count, pc⟩ := call
  cases pc <;> first | exact ⟨rfl, rfl, CallPc.noConfusion⟩ | contradiction

theorem Staged.goesOn {s : System} (staged : Staged s) {stage : Stage}
    (closed : stage.closed = true → s.shared.stage.closed = true)
    (loader : stage = .loaded → ∃ call, s.parties[0]? = some call ∧ call.finished = true) :
    Staged { s with shared := { s.shared with stage } } :=
  ⟨fun now => staged.closed (closed now), loader, staged.present⟩

/-- The loading task calls `start_producer` or `stop_producer`. -/
theorem Accounted.enters {s : System} (accounted : Accounted s) {stage : Stage} {pc : CallPc}
    (attrs : Bool) (entry : pc = .startLock ∨ pc = .stopLock)
    (idle : ∃ call, s.parties[0]? = some call ∧ call.finished = true) :
    Accounted (System.enters { s with shared := { s.shared with attrs } } stage pc) := by
  obtain ⟨call, found, finished⟩ := idle
  obtain ⟨outside, ownsNone, notTest⟩ := finished_outside finished
  have fresh : Call.holds ⟨0, pc⟩ = false ∧ Call.owned ⟨0, pc⟩ = none ∧ pc ≠ .startRun := by
    rcases entry with rfl | rfl <;> exact ⟨rfl, rfl, CallPc.noConfusion⟩
  show Accounted ⟨{ s.shared with attrs, stage }, s.parties.set 0 ⟨0, pc⟩⟩
  exact accounted.passes found rfl rfl (.passes rfl (fresh.1.trans outside.symm))
    (fresh.2.1.trans ownsNone.symm) (fun runs => absurd runs fresh.2.2) (fun _ _ => notTest)

theorem enters_keeps {s : System} (accounted : Accounted s) (staged : Staged s) {stage : Stage}
    {pc : CallPc} (attrs : Bool) (running : stage.closed = false) (later : stage ≠ .loaded)
    (entry : pc = .startLock ∨ pc = .stopLock)
    (idle : ∃ call, s.parties[0]? = some call ∧ call.finished = true) :
    Accounted (System.enters { s with shared := { s.shared with attrs } } stage pc) ∧
      Staged (System.enters { s with shared := { s.shared with attrs } } stage pc) := by
  refine ⟨accounted.enters attrs entry idle, ?_, fun loaded => absurd loaded later, ?_⟩
  · exact fun closed => absurd (running.symm.trans closed) Bool.false_ne_true
  · simpa [System.enters] using staged.present

theorem removeGroup_eq_some {s next : System} {stage : Stage}
    (removed : removeGroup s stage = some next) :
    (∀ call ∈ s.parties, call.finished = true) ∧
      next = { s with shared := { s.shared with attrs := false, stage } } := by
  unfold removeGroup at removed
  split at removed
  · rename_i all
    exact ⟨List.all_eq_true.mp all, (Option.some.inj removed).symm⟩
  · contradiction

theorem removes_keeps {s next : System} (accounted : Accounted s) (staged : Staged s)
    {stage : Stage} (later : stage ≠ .loaded) (empty : s.shared.producerTask = .null)
    (removed : removeGroup s stage = some next) : Accounted next ∧ Staged next := by
  obtain ⟨finished, rfl⟩ := removeGroup_eq_some removed
  exact ⟨accounted.relabel false stage, fun _ => ⟨rfl, finished, empty⟩,
    fun loaded => absurd loaded later, staged.present⟩

theorem moduleStep_keeps {failure : Option Errno} {s next : System} (accounted : Accounted s)
    (staged : Staged s) (empty : RemovesNoProducer s (.module failure))
    (stepped : moduleStep failure s = some next) : Accounted next ∧ Staged next := by
  have goesOn {stage : Stage} (closed : stage.closed = true → s.shared.stage.closed = true)
      (later : stage ≠ .loaded) :
      Accounted { s with shared := { s.shared with stage } } ∧
        Staged { s with shared := { s.shared with stage } } :=
    ⟨accounted.relabel s.shared.attrs stage,
      staged.goesOn closed fun loaded => absurd loaded later⟩
  cases stage : s.shared.stage with
  | miscRegister | kobjectCreate =>
      simp only [moduleStep, stage] at stepped
      split at stepped <;> cases stepped <;>
        exact goesOn (fun _ => by rw [stage]; rfl) Stage.noConfusion
  | sysfsCreate =>
      simp only [moduleStep, stage] at stepped
      split at stepped
      · cases stepped
        exact goesOn (fun _ => by rw [stage]; rfl) Stage.noConfusion
      · cases stepped
        obtain ⟨_, finished, _⟩ := staged.closed (by rw [stage]; rfl)
        obtain ⟨first, rest, parties⟩ := List.exists_cons_of_ne_nil staged.present
        refine enters_keeps accounted staged true rfl Stage.noConfusion (Or.inl rfl) ⟨first, ?_, ?_⟩
        · rw [parties]
          rfl
        · exact finished first (by rw [parties]; exact List.mem_cons_self)
  | initStart =>
      simp only [moduleStep, stage] at stepped
      split at stepped
      · rename_i count ret rest parties
        cases stepped
        split
        · exact goesOn (fun closed => Bool.noConfusion closed) Stage.noConfusion
        · refine ⟨accounted.relabel s.shared.attrs _, staged.goesOn
            (fun closed => Bool.noConfusion closed) fun _ => ⟨⟨count, .done ret⟩, ?_, rfl⟩⟩
          rw [parties]
          rfl
      · contradiction
  | initRemove ret =>
      simp only [moduleStep, stage] at stepped
      simp only [RemovesNoProducer, stage] at empty
      exact removes_keeps accounted staged Stage.noConfusion empty stepped
  | exitRemove =>
      simp only [moduleStep, stage] at stepped
      simp only [RemovesNoProducer, stage] at empty
      exact removes_keeps accounted staged Stage.noConfusion empty stepped
  | initPut ret | initDeregister ret | exitPut | exitDeregister =>
      simp only [moduleStep, stage] at stepped
      cases stepped
      exact goesOn (fun _ => by rw [stage]; rfl) Stage.noConfusion
  | loaded =>
      simp only [moduleStep, stage] at stepped
      cases stepped
      exact enters_keeps accounted staged s.shared.attrs rfl Stage.noConfusion (Or.inr rfl)
        (staged.loader stage)
  | exitStop =>
      simp only [moduleStep, stage] at stepped
      split at stepped
      · cases stepped
        exact goesOn (fun closed => Bool.noConfusion closed) Stage.noConfusion
      · contradiction
  | initFailed ret | exited => simp [moduleStep, stage] at stepped

theorem step_keeps (s : System) (act : Act) (next : System) (good : Accounted s ∧ Staged s)
    (empty : RemovesNoProducer s act) (stepped : step s act = some next) :
    Accounted next ∧ Staged next := by
  obtain ⟨accounted, staged⟩ := good
  cases act with
  | writeControl buf | readStatus =>
      obtain ⟨attrs, call, entry, rfl⟩ := step_begins rfl stepped
      obtain ⟨outside, ownsNone, waits⟩ := atEntry_outside entry
      exact ⟨accounted.spawn outside ownsNone waits, staged.spawn attrs call⟩
  | call i outcome =>
      obtain ⟨call, shared, moved, found, own, rfl⟩ := Pool.act_eq_some stepped
      obtain ⟨live, _, stage⟩ := callStep_frame own
      exact ⟨accounted.callStep found (callStep_effect own), staged.call found live stage⟩
  | thread t ns =>
      obtain ⟨shared, own, rfl⟩ := Option.map_eq_some_iff.mp stepped
      have effect := threadStep_effect own
      refine ⟨accounted.thread effect, ?_, ?_, staged.present⟩
      · dsimp only
        rw [effect.stage, effect.attrs, effect.task]
        exact staged.closed
      · dsimp only
        rw [effect.stage]
        exact staged.loader
  | module failure => exact moduleStep_keeps accounted staged empty stepped

/-- A thread left in `producer_task` when the attributes go is never stopped. -/
theorem removes_leaks {s next : System} (accounted : Accounted s) {stage : Stage}
    (ended : stage.ended = true) (left : s.shared.producerTask ≠ .null)
    (removed : removeGroup s stage = some next) : Leaked next := by
  obtain ⟨finished, rfl⟩ := removeGroup_eq_some removed
  refine ⟨ended, rfl, finished, ?_⟩
  cases pointer : s.shared.producerTask with
  | null => exact absurd pointer left
  | err e =>
      obtain ⟨call, member, atTest⟩ := accounted.failing e pointer
      exact absurd atTest (finished_outside (finished call member)).2.2
  | task t =>
      obtain ⟨⟨thread, here, alive, untold⟩, _⟩ := accounted.current t pointer
      exact ⟨t, thread, here, alive, untold⟩

theorem step_leaks (s : System) (act : Act) (next : System) (good : Accounted s ∧ Staged s)
    (left : ¬ RemovesNoProducer s act) (stepped : step s act = some next) : Leaked next := by
  unfold RemovesNoProducer at left
  split at left
  · rename_i failure
    split at left
    · rename_i ret stage
      simp only [step, moduleStep, stage] at stepped
      exact removes_leaks good.1 rfl left stepped
    · rename_i stage
      simp only [step, moduleStep, stage] at stepped
      exact removes_leaks good.1 rfl left stepped
    · exact absurd trivial left
  · exact absurd trivial left

theorem step_stays_leaked (s : System) (act : Act) (next : System) (leaked : Leaked s)
    (stepped : step s act = some next) : Leaked next := by
  obtain ⟨ended, attrs, finished, t, thread, here, alive, untold⟩ := leaked
  cases act with
  | writeControl buf | readStatus => simp [step, attrs] at stepped
  | call i outcome =>
      obtain ⟨call, shared, moved, found, own, rfl⟩ := Pool.act_eq_some stepped
      have live := (callStep_frame own).1
      have done := finished call (List.mem_of_getElem? found)
      exact absurd (live.symm.trans done) Bool.false_ne_true
  | thread u ns =>
      obtain ⟨shared, own, rfl⟩ := Option.map_eq_some_iff.mp stepped
      obtain ⟨task, lock, sameAttrs, stage, other, pc, found, _, threads, leaves⟩ :=
        threadStep_effect own
      refine ⟨(congrArg Stage.ended stage).trans ended, sameAttrs.trans attrs, finished, t, ?_⟩
      dsimp only
      rw [threads]
      by_cases same : u = t
      · subst same
        cases Option.some.inj (found.symm.trans here)
        have bound := (List.getElem?_eq_some_iff.mp found).1
        refine ⟨_, List.getElem?_set_self bound, ?_, untold⟩
        exact fun left => absurd (untold.symm.trans (leaves left)) Bool.false_ne_true
      · exact ⟨thread, (List.getElem?_set_ne same).trans here, alive, untold⟩
  | module failure =>
      cases stage : s.shared.stage with
      | initPut ret | initDeregister ret | exitPut | exitDeregister =>
          simp only [step, moduleStep, stage] at stepped
          cases stepped
          exact ⟨rfl, attrs, finished, t, thread, here, alive, untold⟩
      | initFailed ret | exited => simp [step, moduleStep, stage] at stepped
      | miscRegister | kobjectCreate | sysfsCreate | initStart | initRemove ret | loaded | exitStop
      | exitRemove =>
          rw [stage] at ended
          contradiction

/-- **Teardown.** When init has returned an error or exit has returned, no thread
created on `producer_thread_fn` is left exactly when `sysfs_remove_group` found
`producer_task` NULL. -/
theorem no_thread_left_iff (acts : List Act) (s : System)
    (ran : run step System.initial acts = some s) (returned : s.shared.stage.Returned) :
    (∀ thread ∈ s.shared.threads, thread.pc = .exited) ↔
      Meets step RemovesNoProducer System.initial acts := by
  rcases meets_or_damaged step_keeps step_leaks step_stays_leaked
    ⟨accounted_initial, staged_initial⟩ ran with ⟨meets, accounted, staged⟩ | ⟨misses, leaked⟩
  · refine ⟨fun _ => meets, fun _ thread member => ?_⟩
    have closed : s.shared.stage.closed = true := by
      rcases returned with ⟨ret, failed⟩ | exited
      · rw [failed]
        rfl
      · rw [exited]
        rfl
    obtain ⟨_, finished, empty⟩ := staged.closed closed
    obtain ⟨t, here⟩ := List.mem_iff_getElem?.mp member
    by_contra alive
    rcases accounted.owned t thread here alive with pointer | ⟨call, callMember, owns⟩
    · exact TaskPtr.noConfusion (empty.symm.trans pointer)
    · have ownsNone := (finished_outside (finished call callMember)).2.1
      exact absurd (ownsNone.symm.trans owns) (by simp)
  · obtain ⟨t, thread, here, alive, _⟩ := leaked.thread
    refine ⟨fun gone => absurd (gone thread (List.mem_of_getElem? here)) alive,
      fun meets => absurd meets misses⟩

def loaderSteps (count : Nat) : List Act := List.replicate count (.call 0 (.ok 42))

def registrations : List Act := List.replicate 3 (.module none)

def restartedThenUnloaded : List Act :=
  registrations ++ loaderSteps 5 ++ [.module none, .thread 0 5, .thread 0 5, .thread 0 5,
    .writeControl (ascii "stop\n"), .call 1 (.ok 0), .call 1 (.ok 0), .call 1 (.ok 0),
    .call 1 (.ok 0), .writeControl (ascii "start\n"), .call 2 (.ok 43), .call 2 (.ok 43),
    .call 2 (.ok 43), .call 2 (.ok 43), .thread 0 6, .thread 0 6, .call 1 (.ok 0), .call 2 (.ok 43),
    .module none] ++ loaderSteps 4 ++ [.thread 1 7] ++ loaderSteps 1 ++
    List.replicate 4 (.module none)

theorem restartedThenUnloaded_leaves_no_thread :
    ∃ s, run step System.initial restartedThenUnloaded = some s ∧ s.shared.stage = .exited ∧
      s.shared.threads.length = 2 ∧ ∀ thread ∈ s.shared.threads, thread.pc = .exited :=
  have ran := run_get step System.initial restartedThenUnloaded (by decide +kernel)
  ⟨_, ran, by decide +kernel, by decide +kernel,
    (no_thread_left_iff _ _ ran (Or.inr (by decide +kernel))).mpr (by decide +kernel)⟩

/-- A control write starts a producer after exit's stop has taken the pointer and
before the attributes are removed. -/
def startedAfterExitStop : List Act :=
  registrations ++ loaderSteps 5 ++ [.module none, .module none] ++ loaderSteps 4 ++
    [.thread 0 5] ++ loaderSteps 1 ++ [.writeControl (ascii "start\n")] ++
    List.replicate 5 (.call 1 (.ok 43)) ++
    List.replicate 4 (.module none)

/-- A control write starts a producer before init does; init's own start then
fails, and init removes the attributes and returns -17, the code of `EEXIST`. -/
def startedBeforeInit : List Act :=
  registrations ++ [.writeControl (ascii "start\n")] ++ List.replicate 5 (.call 1 (.ok 43)) ++
    loaderSteps 3 ++ List.replicate 4 (.module none)

theorem threads_outlive_exit_and_init :
    (∃ s, run step System.initial startedAfterExitStop = some s ∧ s.shared.stage = .exited ∧
      ∃ thread ∈ s.shared.threads, thread.pc ≠ .exited) ∧
    (∃ s, run step System.initial startedBeforeInit = some s ∧ s.shared.stage = .initFailed (-17) ∧
      ∃ thread ∈ s.shared.threads, thread.pc ≠ .exited) :=
  have afterExit := run_get step System.initial startedAfterExitStop (by decide +kernel)
  have afterInit := run_get step System.initial startedBeforeInit (by decide +kernel)
  ⟨⟨_, afterExit, by decide +kernel, by decide +kernel⟩,
    ⟨_, afterInit, by decide +kernel, by decide +kernel⟩⟩

end Kthreads.Lifecycle
