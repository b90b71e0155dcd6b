import KernelLabs.TimersWorkqueues.Heartbeat

/-!
# When the timer softirq deadlocks against its own CPU

A softirq that waits for `stats_lock` above the task that holds it waits for
ever: the task below it cannot run.  A task leaves its CPU only while it can be
preempted and the CPU is not in softirq, so the task a softirq stands above is
the one it interrupted, and all is decided when the softirq starts.
-/

set_option autoImplicit false

namespace TimersWorkqueues

open Kernel LabelledMachine PartyPool LockWord

def System.holderBelow (s : System) (cpu : Cpu) : Bool := (s.processContext cpu).any Task.holds

def Cpu.waits (cpu : Cpu) : Bool :=
  match cpu.softirq with
  | some (.spin _) => true
  | _ => false

def Cpu.holds (cpu : Cpu) : Bool := cpu.softirq.any TimerPc.holds

def TimerPc.beforeLock : TimerPc → Bool
  | .format | .spin _ => true
  | _ => false

def Cpu.beforeLock (cpu : Cpu) : Bool := cpu.softirq.any TimerPc.beforeLock

/-- No softirq waits for the lock above the task that holds it. -/
def NoSelfDeadlock (s : System) : Prop :=
  ∀ cpu ∈ s.cpus, cpu.waits = true → s.holderBelow cpu = false

/-- The timer does not expire on a CPU whose task is inside the critical
section. -/
def SparesHolder (s : System) : Act → Prop
  | .softirq c => ∀ cpu ∈ s.cpus[c]?, s.holderBelow cpu = false
  | _ => True

instance (s : System) : Decidable (NoSelfDeadlock s) :=
  inferInstanceAs (Decidable (∀ cpu ∈ s.cpus, _))

instance (s : System) (act : Act) : Decidable (SparesHolder s act) := by
  unfold SparesHolder
  split <;> infer_instance

/-! ## What a step can do -/

theorem timerStep_lockStep {current : Identity} {stats next : Stats} {pc : TimerPc}
    {after : Option TimerPc} (stepped : timerStep current stats pc = some (next, after)) :
    LockStep stats.statsLock pc.holds next.statsLock (after.any TimerPc.holds) := by
  cases pc with
  | spin ctx =>
      simp only [timerStep] at stepped
      split at stepped
      · contradiction
      · rename_i free
        cases stepped
        exact .acquires (Bool.eq_false_of_not_eq_true free) rfl rfl rfl
  | unlock =>
      cases stepped
      exact .releases rfl rfl rfl
  | format | tick ctx | copy ctx | modTimer =>
      cases stepped
      exact .passes rfl rfl

theorem timerStep_beforeLock {current : Identity} {stats next : Stats} {pc : TimerPc}
    {after : Option TimerPc} (stepped : timerStep current stats pc = some (next, after))
    (before : pc.beforeLock = true) (locked : stats.statsLock = true) :
    after.any TimerPc.beforeLock = true := by
  cases pc with
  | format =>
      cases stepped
      rfl
  | spin ctx => simp [timerStep, locked] at stepped
  | tick ctx | copy ctx | unlock | modTimer => contradiction

theorem taskStep_lockStep {i : Nat} {stats next : Stats} {task moved : Task}
    (stepped : taskStep i () stats task = some (next, moved)) :
    LockStep stats.statsLock task.holds next.statsLock moved.holds := by
  obtain ⟨identity, pc⟩ := task
  cases pc with
  | workIdle =>
      simp only [taskStep] at stepped
      split at stepped
      · cases stepped
        exact .passes rfl rfl
      · contradiction
  | showDone text => contradiction
  | workSpin ctx | showSpin =>
      simp only [taskStep] at stepped
      split at stepped
      · contradiction
      · rename_i free
        cases stepped
        exact .acquires (Bool.eq_false_of_not_eq_true free) rfl rfl rfl
  | workUnlock | showUnlock snapshot =>
      cases stepped
      exact .releases rfl rfl rfl
  | workUsleep | workFormat | workPreemptOff ctx | workTick ctx | workCopy ctx | workSchedule
  | showPreemptOff | showTicks | showCtxs tTicks wTicks | showEmit snapshot =>
      cases stepped
      exact .passes rfl rfl

inductive Effect (s : System) (act : Act) (next : System) : Prop where
  | enters (task : Task) (outside : task.holds = false)
      (effect : next = { s with tasks := s.tasks.spawn task })
  | moves (c t : Nat) (task moved : Task) (stats : Stats)
      (top : s.cpus[c]? = some ⟨some t, none⟩) (found : s.tasks.parties[t]? = some task)
      (locked : LockStep s.tasks.shared.statsLock task.holds stats.statsLock moved.holds)
      (effect : next = ⟨⟨stats, s.tasks.parties.set t moved⟩, s.cpus⟩)
  | switches (c : Nat) (current switched : Option Nat) (found : s.cpus[c]? = some ⟨current, none⟩)
      (fresh : ∀ t, switched = some t → ∀ cpu ∈ s.cpus, cpu.current ≠ some t)
      (effect : next = { s with cpus := s.cpus.set c ⟨switched, none⟩ })
  | interrupts (c : Nat) (current : Option Nat) (stats : Stats) (was : act = .softirq c)
      (found : s.cpus[c]? = some ⟨current, none⟩)
      (locked : stats.statsLock = s.tasks.shared.statsLock)
      (effect : next = ⟨⟨stats, s.tasks.parties⟩, s.cpus.set c ⟨current, some .format⟩⟩)
  | serves (c : Nat) (current : Option Nat) (pc : TimerPc) (after : Option TimerPc) (stats : Stats)
      (found : s.cpus[c]? = some ⟨current, some pc⟩)
      (served : ∃ identity, timerStep identity s.tasks.shared pc = some (stats, after))
      (effect : next = ⟨⟨stats, s.tasks.parties⟩, s.cpus.set c ⟨current, after⟩⟩)

theorem step_effect {s next : System} {act : Act} (stepped : step s act = some next) :
    Effect s act next := by
  cases act with
  | callShow caller =>
      cases stepped
      exact .enters _ rfl rfl
  | schedule c switched =>
      simp only [step] at stepped
      split at stepped
      · rename_i allowed
        cases stepped
        unfold canSchedule at allowed
        split at allowed
        · rename_i current found
          refine .switches c current switched found ?_ rfl
          rintro t rfl cpu member
          simp only [Option.all_some, Bool.and_eq_true, List.all_eq_true] at allowed
          exact bne_iff_ne.mp (allowed.2.2 cpu member)
        · contradiction
      · contradiction
  | softirq c =>
      simp only [step] at stepped
      split at stepped
      · rename_i current found
        split at stepped
        · cases stepped
          refine .interrupts c current _ rfl found ?_ rfl
          rfl
        · contradiction
      · contradiction
  | run c =>
      simp only [step] at stepped
      split at stepped
      · rename_i current pc found
        obtain ⟨⟨stats, after⟩, own, rfl⟩ := Option.map_eq_some_iff.mp stepped
        exact .serves c current pc after stats found ⟨_, own⟩ rfl
      · rename_i t found
        obtain ⟨tasks, acted, rfl⟩ := Option.map_eq_some_iff.mp stepped
        obtain ⟨task, stats, moved, taskFound, own, rfl⟩ := Pool.act_eq_some acted
        exact .moves c t task moved stats found taskFound (taskStep_lockStep own) rfl
      · contradiction

/-! ## Tasks stay where softirqs found them -/

/-- A task runs on one CPU at a time, and the lock word tells the truth. -/
structure Sound (s : System) : Prop where
  apart : ∀ (c d : Nat) (cpu other : Cpu) (t : Nat), s.cpus[c]? = some cpu →
    s.cpus[d]? = some other → cpu.current = some t → other.current = some t → c = d
  exclusive : Exclusive s.tasks.shared.statsLock
    (s.tasks.parties.countP Task.holds + s.cpus.countP Cpu.holds)

theorem apart_set {cpus : List Cpu} {c : Nat} {moved : Cpu}
    (apart : ∀ (c d : Nat) (cpu other : Cpu) (t : Nat), cpus[c]? = some cpu →
      cpus[d]? = some other → cpu.current = some t → other.current = some t → c = d)
    (own : ∀ t, moved.current = some t → ∀ d other, d ≠ c → cpus[d]? = some other →
      other.current ≠ some t) :
    ∀ (d e : Nat) (cpu other : Cpu) (t : Nat), (cpus.set c moved)[d]? = some cpu →
      (cpus.set c moved)[e]? = some other → cpu.current = some t → other.current = some t →
      d = e := by
  intro d e cpu other t first second firstRuns secondRuns
  rcases getElem?_set_cases first with ⟨rfl, rfl⟩ | ⟨atD, firstHere⟩
  · rcases getElem?_set_cases second with ⟨same, _⟩ | ⟨atE, secondHere⟩
    · exact same.symm
    · exact absurd secondRuns (own t firstRuns e other atE secondHere)
  · rcases getElem?_set_cases second with ⟨rfl, rfl⟩ | ⟨_, secondHere⟩
    · exact absurd firstRuns (own t secondRuns d cpu atD firstHere)
    · exact apart d e cpu other t firstHere secondHere firstRuns secondRuns

theorem exclusive_set {tasks : Nat} {lock lock' : Bool} {cpus : List Cpu} {c : Nat}
    {cpu moved : Cpu} (exclusive : Exclusive lock (tasks + cpus.countP Cpu.holds))
    (found : cpus[c]? = some cpu) (locked : LockStep lock cpu.holds lock' moved.holds) :
    Exclusive lock' (tasks + (cpus.set c moved).countP Cpu.holds) := by
  have counted := countP_set_add Cpu.holds moved found
  exact exclusive.step locked (by omega)

theorem step_sound (s : System) (act : Act) (next : System) (sound : Sound s)
    (stepped : step s act = some next) : Sound next := by
  obtain ⟨apart, exclusive⟩ := sound
  have keeps {c : Nat} {cpu : Cpu} (moved : Cpu) (found : s.cpus[c]? = some cpu)
      (same : moved.current = cpu.current) (t : Nat) (runs : moved.current = some t) (d : Nat)
      (other : Cpu) (away : d ≠ c) (otherFound : s.cpus[d]? = some other) :
      other.current ≠ some t := by
    intro otherRuns
    exact away (apart d c other cpu t otherFound found otherRuns (same.symm.trans runs))
  cases step_effect stepped with
  | enters task outside effect =>
      subst effect
      refine ⟨apart, ?_⟩
      simpa [Pool.spawn, List.countP_append, outside] using exclusive
  | moves c t task moved stats top found locked effect =>
      subst effect
      have counted := countP_set_add Task.holds moved found
      exact ⟨apart, exclusive.step locked (by dsimp only; omega)⟩
  | switches c current switched found fresh effect =>
      subst effect
      refine ⟨apart_set apart ?_, exclusive_set exclusive found (.passes rfl rfl)⟩
      intro t runs d other _ otherFound
      exact fresh t runs other (List.mem_of_getElem? otherFound)
  | interrupts c current stats was found locked effect =>
      subst effect
      exact ⟨apart_set apart (keeps _ found rfl),
        exclusive_set exclusive found (.passes locked rfl)⟩
  | serves c current pc after stats found served effect =>
      subst effect
      obtain ⟨identity, own⟩ := served
      exact ⟨apart_set apart (keeps _ found rfl),
        exclusive_set exclusive found (timerStep_lockStep own)⟩

theorem sound_initial (cpuCount : Nat) (kworkers : List Identity) :
    Sound (System.initial cpuCount kworkers) := by
  have idle : ∀ cpu ∈ (System.initial cpuCount kworkers).cpus, cpu = ⟨none, none⟩ :=
    fun cpu member => List.eq_of_mem_replicate member
  constructor
  · intro c d cpu other t found _ runs
    rw [idle cpu (List.mem_of_getElem? found)] at runs
    contradiction
  · have noTask : (System.initial cpuCount kworkers).tasks.parties.countP Task.holds = 0 := by
      rw [List.countP_eq_zero]
      intro task member
      obtain ⟨kworker, -, rfl⟩ := List.mem_map.mp member
      exact Bool.false_ne_true
    have noSoftirq : (System.initial cpuCount kworkers).cpus.countP Cpu.holds = 0 := by
      rw [List.countP_eq_zero]
      intro cpu member
      rw [idle cpu member]
      decide
    rw [noTask, noSoftirq]
    rfl

/-! ## What lies below a softirq -/

theorem holderBelow_spawn (s : System) {task : Task} (outside : task.holds = false) (cpu : Cpu) :
    System.holderBelow { s with tasks := s.tasks.spawn task } cpu = s.holderBelow cpu := by
  unfold System.holderBelow System.processContext
  cases cpu.current with
  | none => rfl
  | some t =>
      simp only [Pool.spawn, Option.bind_some, List.getElem?_append]
      split
      · rfl
      · rename_i beyond
        rw [List.getElem?_eq_none (Nat.le_of_not_lt beyond)]
        cases inner : [task][t - s.tasks.parties.length]? with
        | none => rfl
        | some other =>
            rw [List.mem_singleton.mp (List.mem_of_getElem? inner)]
            simpa using outside

theorem holderBelow_moves {s : System} (sound : Sound s) {c t : Nat} {moved : Task} {stats : Stats}
    (top : s.cpus[c]? = some ⟨some t, none⟩) {cpu : Cpu} (member : cpu ∈ s.cpus)
    (softirq : cpu.softirq ≠ none) :
    System.holderBelow ⟨⟨stats, s.tasks.parties.set t moved⟩, s.cpus⟩ cpu = s.holderBelow cpu := by
  obtain ⟨d, found⟩ := List.mem_iff_getElem?.mp member
  unfold System.holderBelow System.processContext
  cases current : cpu.current with
  | none => rfl
  | some u =>
      have elsewhere : t ≠ u := by
        rintro rfl
        have same := sound.apart d c cpu _ t found top current rfl
        subst same
        rw [found] at top
        cases top
        contradiction
      simp only [Option.bind_some]
      rw [List.getElem?_set_ne elsewhere]

def Clear (s : System) : Prop :=
  ∀ cpu ∈ s.cpus, cpu.softirq ≠ none → s.holderBelow cpu = false

/-- Some softirq has not taken the lock yet and stands above the task that
holds it. -/
def Trapped (s : System) : Prop :=
  ∃ cpu ∈ s.cpus, cpu.beforeLock = true ∧ s.holderBelow cpu = true

theorem step_clear (s : System) (act : Act) (next : System) (good : Sound s ∧ Clear s)
    (spares : SparesHolder s act) (stepped : step s act = some next) : Sound next ∧ Clear next := by
  obtain ⟨sound, unblocked⟩ := good
  refine ⟨step_sound s act next sound stepped, ?_⟩
  cases step_effect stepped with
  | enters task outside effect =>
      subst effect
      intro cpu member softirq
      rw [holderBelow_spawn s outside]
      exact unblocked cpu member softirq
  | moves c t task moved stats top found locked effect =>
      subst effect
      intro cpu member softirq
      rw [holderBelow_moves sound top member softirq]
      exact unblocked cpu member softirq
  | switches c current switched found fresh effect =>
      subst effect
      exact forall_mem_set unblocked (fun softirq => absurd rfl softirq)
  | interrupts c current stats was found locked effect =>
      subst effect was
      have below : s.holderBelow ⟨current, none⟩ = false := spares _ found
      exact forall_mem_set unblocked (fun _ => below)
  | serves c current pc after stats found served effect =>
      subst effect
      have below := unblocked _ (List.mem_of_getElem? found) (Option.some_ne_none pc)
      exact forall_mem_set unblocked (fun _ => below)

theorem step_traps (s : System) (act : Act) (next : System) (good : Sound s ∧ Clear s)
    (hits : ¬ SparesHolder s act) (stepped : step s act = some next) :
    Sound next ∧ Trapped next := by
  refine ⟨step_sound s act next good.1 stepped, ?_⟩
  cases act with
  | softirq c =>
      simp only [SparesHolder, Option.mem_def, not_forall, Bool.not_eq_false] at hits
      obtain ⟨cpu, cpuFound, holds⟩ := hits
      simp only [step] at stepped
      split at stepped
      · rename_i current found
        cases Option.some.inj (cpuFound.symm.trans found)
        split at stepped
        · cases stepped
          exact ⟨_, moved_mem_set found, rfl, holds⟩
        · contradiction
      · contradiction
  | callShow caller => exact absurd trivial hits
  | schedule c switched => exact absurd trivial hits
  | run c => exact absurd trivial hits

theorem holderBelow_locked {s : System} (sound : Sound s) {cpu : Cpu}
    (holds : s.holderBelow cpu = true) : s.tasks.shared.statsLock = true := by
  obtain ⟨task, below, inside⟩ := (Option.any_eq_true _ _).mp holds
  obtain ⟨t, _, found⟩ := Option.bind_eq_some_iff.mp below
  have counted : 0 < s.tasks.parties.countP Task.holds :=
    List.countP_pos_iff.mpr ⟨task, List.mem_of_getElem? found, inside⟩
  exact sound.exclusive.locked (by omega)

/-- The holder stands below the softirq that waits for it: neither moves on. -/
theorem step_stays_trapped (s : System) (act : Act) (next : System)
    (stuck : Sound s ∧ Trapped s) (stepped : step s act = some next) :
    Sound next ∧ Trapped next := by
  obtain ⟨sound, cpu, member, before, holds⟩ := stuck
  refine ⟨step_sound s act next sound stepped, ?_⟩
  have softirq : cpu.softirq ≠ none := by
    intro idle
    simp [Cpu.beforeLock, idle] at before
  cases step_effect stepped with
  | enters task outside effect =>
      subst effect
      exact ⟨cpu, member, before, (holderBelow_spawn s outside cpu).trans holds⟩
  | moves c t task moved stats top found locked effect =>
      subst effect
      exact ⟨cpu, member, before, (holderBelow_moves sound top member softirq).trans holds⟩
  | switches c current switched found fresh effect =>
      subst effect
      have other : cpu ≠ ⟨current, none⟩ := fun same => softirq (by rw [same])
      exact ⟨cpu, mem_set_of_ne found member other, before, holds⟩
  | interrupts c current stats was found locked effect =>
      subst effect
      have other : cpu ≠ ⟨current, none⟩ := fun same => softirq (by rw [same])
      exact ⟨cpu, mem_set_of_ne found member other, before, holds⟩
  | serves c current pc after stats found served effect =>
      subst effect
      obtain ⟨identity, own⟩ := served
      by_cases same : cpu = ⟨current, some pc⟩
      · subst same
        have locked := holderBelow_locked sound holds
        exact ⟨_, moved_mem_set found, timerStep_beforeLock own before locked, holds⟩
      · exact ⟨cpu, mem_set_of_ne found member same, before, holds⟩

/-- A trapped softirq is at most one instruction away from waiting for ever. -/
theorem trapped_waits {s : System} (trapped : Trapped s) :
    ∃ more t, run step s more = some t ∧ ¬ NoSelfDeadlock t := by
  obtain ⟨cpu, member, before, holds⟩ := trapped
  obtain ⟨c, found⟩ := List.mem_iff_getElem?.mp member
  obtain ⟨current, softirq⟩ := cpu
  cases softirq with
  | none => contradiction
  | some pc =>
      cases pc with
      | format =>
          let ctx := formatCtx 128 true true false false (s.identity c ⟨current, some .format⟩)
          let t : System := { s with cpus := s.cpus.set c ⟨current, some (.spin ctx)⟩ }
          refine ⟨[.run c], t, ?_, ?_⟩
          · simp only [run, step, found, timerStep]
            rfl
          · intro safe
            have free := safe _ (moved_mem_set found) rfl
            exact Bool.false_ne_true (free.symm.trans holds)
      | spin ctx =>
          refine ⟨[], s, rfl, ?_⟩
          intro safe
          have free := safe _ member rfl
          exact Bool.false_ne_true (free.symm.trans holds)
      | tick ctx | copy ctx | unlock | modTimer => contradiction

/-- **Self-deadlock.** On any number of CPUs, in every run whose timer never
expires above the holder of `stats_lock`, no softirq waits for the lock above
its holder; once the timer has expired there, such a wait is reached. -/
theorem self_deadlock_iff_holder_interrupted (cpuCount : Nat) (kworkers : List Identity)
    (acts : List Act) (s : System)
    (ran : run step (System.initial cpuCount kworkers) acts = some s) :
    (Meets step SparesHolder (System.initial cpuCount kworkers) acts → NoSelfDeadlock s) ∧
      (¬ Meets step SparesHolder (System.initial cpuCount kworkers) acts →
        ∃ more t, run step s more = some t ∧ ¬ NoSelfDeadlock t) := by
  have unblocked : Clear (System.initial cpuCount kworkers) := by
    intro cpu member softirq
    rw [List.eq_of_mem_replicate member] at softirq
    contradiction
  rcases meets_or_damaged step_clear step_traps step_stays_trapped
    ⟨sound_initial cpuCount kworkers, unblocked⟩ ran with ⟨meets, _, safe⟩ | ⟨misses, _, trapped⟩
  · refine ⟨fun _ cpu member waits => safe cpu member ?_, fun misses => absurd meets misses⟩
    intro idle
    simp [Cpu.waits, idle] at waits
  · exact ⟨fun meets => absurd meets misses, fun _ => trapped_waits trapped⟩

def timerAroundShow : List Act :=
  [.callShow ⟨ascii "cat", 7⟩, .schedule 0 (some 0), .softirq 0, .run 0, .run 0, .run 0, .run 0,
    .run 0, .run 0, .run 0, .run 0, .run 0, .run 0, .run 0, .softirq 0, .run 0]

theorem timerAroundShow_safe :
    ∃ s, run step (System.initial 1 []) timerAroundShow = some s ∧ NoSelfDeadlock s :=
  have ran := run_get step (System.initial 1 []) timerAroundShow (by decide +kernel)
  ⟨_, ran, (self_deadlock_iff_holder_interrupted 1 [] _ _ ran).1 (by decide +kernel)⟩

/-- The timer expires on the CPU on which `stats_show` has just taken the lock. -/
def timerInsideShow : List Act :=
  [.callShow ⟨ascii "cat", 7⟩, .schedule 0 (some 0), .run 0, .run 0, .softirq 0, .run 0]

theorem timerInsideShow_deadlocks :
    ∃ acts s, run step (System.initial 1 []) acts = some s ∧ ¬ NoSelfDeadlock s :=
  have ran := run_get step (System.initial 1 []) timerInsideShow (by decide +kernel)
  ⟨_, _, ran, by decide +kernel⟩

end TimersWorkqueues
