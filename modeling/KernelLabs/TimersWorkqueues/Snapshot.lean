import KernelLabs.Lib.GuardedData
import KernelLabs.Lib.Observer
import KernelLabs.TimersWorkqueues.Heartbeat

/-!
# What `stats_show` shows

A heartbeat counts its tick and copies its context in two steps, and
`stats_show` reads the counters and the contexts in two more; softirqs, the
kworker and the readers run on any number of CPUs.  `stats_lock` makes each tick
one change: every text shown is that of the statistics as some completed tick
left them, and from one such state to the next exactly one heartbeat has ticked.
-/

set_option autoImplicit false

namespace TimersWorkqueues

open Kernel LabelledMachine PartyPool LockWord GuardedData

/-- The part of the statistics that `stats_lock` guards. -/
def Stats.data (stats : Stats) : Snapshot :=
  ⟨stats.timerTicks, stats.workTicks, stats.timerLastCtx, stats.workLastCtx⟩

/-- One beat of one of the two hearts. -/
def Beat (before after : Snapshot) : Prop :=
  (∃ ctx, after = { before with tTicks := before.tTicks + 1, tCtx := strscpy 128 ctx }) ∨
    ∃ ctx, after = { before with wTicks := before.wTicks + 1, wCtx := strscpy 128 ctx }

/-- A CPU with its softirq, or a task. -/
inductive Actor where
  | processor (cpu : Cpu)
  | process (task : Task)
  deriving DecidableEq, Repr

def Actor.holds : Actor → Bool
  | .processor cpu => cpu.softirq.any TimerPc.holds
  | .process task => task.holds

def System.actors (s : System) : List Actor :=
  s.cpus.map .processor ++ s.tasks.parties.map .process

/-- What the softirq knows of the statistics at each point. -/
def TimerFact (committed : List Snapshot) (data : Snapshot) : TimerPc → Prop
  | .tick _ => committed.getLast? = some data
  | .copy _ => ∃ last, committed.getLast? = some last ∧
      data = { last with tTicks := last.tTicks + 1 }
  | .unlock => ∃ last ctx, committed.getLast? = some last ∧
      data = { last with tTicks := last.tTicks + 1, tCtx := strscpy 128 ctx }
  | .format | .spin _ | .modTimer => True

def TaskFact (committed : List Snapshot) (data : Snapshot) : TaskPc → Prop
  | .workTick _ | .showTicks => committed.getLast? = some data
  | .workCopy _ => ∃ last, committed.getLast? = some last ∧
      data = { last with wTicks := last.wTicks + 1 }
  | .workUnlock => ∃ last ctx, committed.getLast? = some last ∧
      data = { last with wTicks := last.wTicks + 1, wCtx := strscpy 128 ctx }
  | .showCtxs tTicks wTicks => committed.getLast? = some data ∧
      tTicks = data.tTicks ∧ wTicks = data.wTicks
  | .showUnlock snapshot => committed.getLast? = some data ∧ snapshot = data
  | .showEmit snapshot => snapshot ∈ committed
  | .showDone text => ∃ snapshot ∈ committed, text = statsText snapshot
  | _ => True

def ActorFact (committed : List Snapshot) (data : Snapshot) : Actor → Prop
  | .processor cpu => ∀ pc ∈ cpu.softirq, TimerFact committed data pc
  | .process task => TaskFact committed data task.pc

theorem timerFact_outside {committed later : List Snapshot} {data now : Snapshot} {pc : TimerPc}
    (out : pc.holds = false) : TimerFact committed data pc → TimerFact later now pc := by
  cases pc with
  | tick ctx | copy ctx | unlock => contradiction
  | format | spin ctx | modTimer => exact id

theorem taskFact_outside {committed later : List Snapshot} {data now : Snapshot} {pc : TaskPc}
    (grown : committed <+: later) (out : pc.holds = false) (fact : TaskFact committed data pc) :
    TaskFact later now pc := by
  cases pc with
  | workTick ctx | workCopy ctx | workUnlock | showTicks | showCtxs tTicks wTicks
  | showUnlock snapshot => contradiction
  | showEmit snapshot => exact grown.subset fact
  | showDone text =>
      obtain ⟨snapshot, member, same⟩ := fact
      exact ⟨snapshot, grown.subset member, same⟩
  | workIdle | workUsleep | workFormat | workPreemptOff ctx | workSpin ctx | workSchedule
  | showPreemptOff | showSpin => trivial

/-- The discipline of `stats_lock`. -/
def statsDiscipline : Discipline Snapshot Actor where
  holds := Actor.holds
  Fact := ActorFact
  Related := Beat
  outside := by
    intro committed later data now actor grown out fact
    cases actor with
    | processor cpu =>
        intro pc member
        rw [Option.mem_def] at member
        have outPc : pc.holds = false := by simpa [Actor.holds, member] using out
        exact timerFact_outside outPc (fact pc member)
    | process task => exact taskFact_outside grown out fact

/-- The step is the unlock after a tick. -/
def System.ticked (s : System) : Act → Bool
  | .run c =>
    match s.cpus[c]? with
    | some ⟨_, some pc⟩ => pc = .unlock
    | some ⟨some t, none⟩ => s.tasks.parties[t]?.any fun task => task.pc = .workUnlock
    | _ => false
  | _ => false

/-- The history of the statistics that ticks have left. -/
def watchTicks (s : System) (committed : List Snapshot) (act : Act) : List Snapshot :=
  if s.ticked act then committed ++ [s.tasks.shared.data] else committed

def Short (data : Snapshot) : Prop := data.tCtx.length < 128 ∧ data.wCtx.length < 128

theorem strscpy_short {ctx : Bytes} (short : ctx.length < 128) : strscpy 128 ctx = ctx :=
  List.take_of_length_le (Nat.le_of_lt_succ short)

theorem strscpy_length (ctx : Bytes) : (strscpy 128 ctx).length < 128 := by
  rw [strscpy, List.length_take]
  omega

/-- The actors agree with the history, and the contexts fit their buffers. -/
structure Told (s : System) (committed : List Snapshot) : Prop where
  coherent : Coherent statsDiscipline s.tasks.shared.statsLock committed s.tasks.shared.data
    s.actors
  short : Short s.tasks.shared.data

/-! ## One step -/

section Steps
variable {s : System} {committed : List Snapshot}

theorem actors_set_cpu (s : System) (c : Nat) (moved : Cpu) (stats : Stats)
    (bound : c < s.cpus.length) :
    System.actors ⟨⟨stats, s.tasks.parties⟩, s.cpus.set c moved⟩ =
      s.actors.set c (.processor moved) := by
  rw [System.actors, System.actors, List.map_set,
    List.set_append_left _ _ (by rwa [List.length_map])]

theorem actors_set_task (s : System) (t : Nat) (moved : Task) (stats : Stats) :
    System.actors ⟨⟨stats, s.tasks.parties.set t moved⟩, s.cpus⟩ =
      s.actors.set (s.cpus.length + t) (.process moved) := by
  rw [System.actors, System.actors, List.map_set, List.set_append_right _ _ (by simp)]
  simp

theorem actor_cpu {c : Nat} {cpu : Cpu} (found : s.cpus[c]? = some cpu) :
    s.actors[c]? = some (.processor cpu) := by
  obtain ⟨bound, _⟩ := List.getElem?_eq_some_iff.mp found
  rw [System.actors, List.getElem?_append_left (by rwa [List.length_map]), List.getElem?_map,
    found]
  rfl

theorem actor_task {t : Nat} {task : Task} (found : s.tasks.parties[t]? = some task) :
    s.actors[s.cpus.length + t]? = some (.process task) := by
  rw [System.actors, List.getElem?_append_right (by simp), List.getElem?_map]
  simp [found]

/-- An instruction of the softirq: what it does to the statistics, and that the
softirq knows what it has to know after it. -/
theorem timerStep_section (current : Option Nat) {identity : Identity} {stats next : Stats}
    {pc : TimerPc} {after : Option TimerPc} (free : stats.statsLock = false →
      committed.getLast? = some stats.data) (short : Short stats.data)
    (fact : TimerFact committed stats.data pc)
    (stepped : timerStep identity stats pc = some (next, after)) :
    let later := if pc = .unlock then committed ++ [stats.data] else committed
    SectionStep statsDiscipline stats.statsLock committed stats.data
        (Actor.holds (.processor ⟨current, some pc⟩)) next.statsLock later next.data
        (Actor.holds (.processor ⟨current, after⟩)) ∧
      ActorFact later next.data (.processor ⟨current, after⟩) ∧ Short next.data := by
  cases pc with
  | format =>
      cases stepped
      exact ⟨.passes rfl rfl rfl rfl, fun pc member => by cases member; trivial, short⟩
  | spin ctx =>
      simp only [timerStep] at stepped
      split at stepped
      · contradiction
      · rename_i unlocked
        have isFree := Bool.eq_false_of_not_eq_true unlocked
        cases stepped
        refine ⟨.acquires isFree rfl rfl rfl rfl rfl, ?_, short⟩
        intro pc member
        cases member
        exact free isFree
  | tick ctx =>
      cases stepped
      refine ⟨.writes rfl rfl rfl rfl, ?_, short⟩
      intro pc member
      cases member
      exact ⟨_, fact, rfl⟩
  | copy ctx =>
      cases stepped
      obtain ⟨last, isLast, counted⟩ := fact
      refine ⟨.writes rfl rfl rfl rfl, ?_, strscpy_length ctx, short.2⟩
      intro pc member
      cases member
      refine ⟨last, ctx, isLast, ?_⟩
      obtain ⟨tTicks, wTicks, tCtx, wCtx⟩ := last
      simp only [Stats.data, Snapshot.mk.injEq] at counted ⊢
      exact ⟨counted.1, counted.2.1, trivial, counted.2.2.2⟩
  | unlock =>
      cases stepped
      obtain ⟨last, ctx, isLast, ticked⟩ := fact
      refine ⟨.commits rfl rfl rfl rfl rfl ?_, fun pc member => by cases member; trivial, short⟩
      intro other isOther
      cases Option.some.inj (isLast.symm.trans isOther)
      exact Or.inl ⟨ctx, ticked⟩
  | modTimer =>
      cases stepped
      exact ⟨.passes rfl rfl rfl rfl, nofun, short⟩

theorem taskStep_section {i : Nat} {stats next : Stats} {task moved : Task}
    (free : stats.statsLock = false → committed.getLast? = some stats.data)
    (short : Short stats.data) (fact : TaskFact committed stats.data task.pc)
    (stepped : taskStep i () stats task = some (next, moved)) :
    let later := if task.pc = .workUnlock then committed ++ [stats.data] else committed
    SectionStep statsDiscipline stats.statsLock committed stats.data task.holds next.statsLock
        later next.data moved.holds ∧
      TaskFact later next.data moved.pc ∧ Short next.data := by
  obtain ⟨identity, pc⟩ := task
  cases pc with
  | workIdle =>
      simp only [taskStep] at stepped
      split at stepped
      · cases stepped
        exact ⟨.passes rfl rfl rfl rfl, trivial, short⟩
      · contradiction
  | workUsleep | workFormat | workPreemptOff ctx | workSchedule | showPreemptOff =>
      cases stepped
      exact ⟨.passes rfl rfl rfl rfl, trivial, short⟩
  | workSpin ctx | showSpin =>
      simp only [taskStep] at stepped
      split at stepped
      · contradiction
      · rename_i unlocked
        have isFree := Bool.eq_false_of_not_eq_true unlocked
        cases stepped
        exact ⟨.acquires isFree rfl rfl rfl rfl rfl, free isFree, short⟩
  | workTick ctx =>
      cases stepped
      exact ⟨.writes rfl rfl rfl rfl, ⟨_, fact, rfl⟩, short⟩
  | workCopy ctx =>
      cases stepped
      obtain ⟨last, isLast, counted⟩ := fact
      refine ⟨.writes rfl rfl rfl rfl, ⟨last, ctx, isLast, ?_⟩, short.1, strscpy_length ctx⟩
      obtain ⟨tTicks, wTicks, tCtx, wCtx⟩ := last
      simp only [Stats.data, Snapshot.mk.injEq] at counted ⊢
      exact ⟨counted.1, counted.2.1, counted.2.2.1, trivial⟩
  | workUnlock =>
      cases stepped
      obtain ⟨last, ctx, isLast, ticked⟩ := fact
      refine ⟨.commits rfl rfl rfl rfl rfl ?_, trivial, short⟩
      intro other isOther
      cases Option.some.inj (isLast.symm.trans isOther)
      exact Or.inr ⟨ctx, ticked⟩
  | showTicks =>
      cases stepped
      exact ⟨.passes rfl rfl rfl rfl, ⟨fact, rfl, rfl⟩, short⟩
  | showCtxs tTicks wTicks =>
      cases stepped
      obtain ⟨isLast, rfl, rfl⟩ := fact
      refine ⟨.passes rfl rfl rfl rfl, ⟨isLast, ?_⟩, short⟩
      -- `strscpy` copies the contexts whole
      simp only [Stats.data] at short ⊢
      rw [strscpy_short short.1, strscpy_short short.2]
  | showUnlock snapshot =>
      cases stepped
      obtain ⟨isLast, rfl⟩ := fact
      exact ⟨.leaves rfl rfl rfl rfl rfl isLast, List.mem_of_getLast? isLast, short⟩
  | showEmit snapshot =>
      cases stepped
      exact ⟨.passes rfl rfl rfl rfl, ⟨snapshot, fact, rfl⟩, short⟩
  | showDone text => contradiction

theorem Told.step {next : System} {act : Act} (told : Told s committed)
    (stepped : TimersWorkqueues.step s act = some next) :
    Told next (watchTicks s committed act) := by
  obtain ⟨coherent, short⟩ := told
  cases act with
  | callShow caller =>
      cases stepped
      refine ⟨?_, short⟩
      have grown : System.actors { s with tasks := s.tasks.spawn ⟨caller, .showPreemptOff⟩ } =
          s.actors ++ [.process ⟨caller, .showPreemptOff⟩] := by
        simp [System.actors, Pool.spawn]
      rw [grown]
      exact coherent.enter rfl trivial
  | schedule c switched =>
      simp only [TimersWorkqueues.step] at stepped
      split at stepped
      · rename_i allowed
        cases stepped
        unfold canSchedule at allowed
        split at allowed
        · rename_i current found
          obtain ⟨bound, _⟩ := List.getElem?_eq_some_iff.mp found
          refine ⟨?_, short⟩
          rw [actors_set_cpu s c _ s.tasks.shared bound]
          exact coherent.move (actor_cpu found) (.passes rfl rfl rfl rfl) nofun
        · contradiction
      · contradiction
  | softirq c =>
      simp only [TimersWorkqueues.step] at stepped
      split at stepped
      · rename_i current found
        obtain ⟨bound, _⟩ := List.getElem?_eq_some_iff.mp found
        split at stepped
        · cases stepped
          refine ⟨?_, short⟩
          rw [actors_set_cpu s c _ _ bound]
          refine coherent.move (actor_cpu found) (.passes rfl rfl rfl rfl) ?_
          intro pc member
          cases member
          trivial
        · contradiction
      · contradiction
  | run c =>
      simp only [TimersWorkqueues.step] at stepped
      split at stepped
      · rename_i current pc found
        obtain ⟨bound, _⟩ := List.getElem?_eq_some_iff.mp found
        obtain ⟨⟨stats, after⟩, own, rfl⟩ := Option.map_eq_some_iff.mp stepped
        have here := coherent.facts _ (List.mem_of_getElem? (actor_cpu found))
        obtain ⟨moves, known, shorter⟩ :=
          timerStep_section current coherent.free short (here pc rfl)
          own
        have same : watchTicks s committed (.run c) =
            if pc = .unlock then committed ++ [s.tasks.shared.data] else committed := by
          simp [watchTicks, System.ticked, found]
        rw [same]
        refine ⟨?_, shorter⟩
        rw [actors_set_cpu s c _ stats bound]
        exact coherent.move (actor_cpu found) moves known
      · rename_i t found
        obtain ⟨tasks, acted, rfl⟩ := Option.map_eq_some_iff.mp stepped
        obtain ⟨task, stats, moved, taskFound, own, rfl⟩ := Pool.act_eq_some acted
        have here := coherent.facts _ (List.mem_of_getElem? (actor_task taskFound))
        obtain ⟨moves, known, shorter⟩ := taskStep_section coherent.free short here own
        have same : watchTicks s committed (.run c) =
            if task.pc = .workUnlock then committed ++ [s.tasks.shared.data] else committed := by
          simp [watchTicks, System.ticked, found, taskFound]
        rw [same]
        refine ⟨?_, shorter⟩
        rw [actors_set_task s t moved stats]
        exact coherent.move (actor_task taskFound) moves known
      · contradiction

end Steps

/-- The statistics of a module just loaded. -/
def noTicks : Snapshot := ⟨0, 0, [], []⟩

theorem told_initial (cpuCount : Nat) (kworkers : List Identity) :
    Told (System.initial cpuCount kworkers) [noTicks] := by
  have outside : ∀ actor ∈ (System.initial cpuCount kworkers).actors,
      actor.holds = false ∧ ActorFact [noTicks] noTicks actor := by
    intro actor member
    rcases List.mem_append.mp member with cpus | tasks
    · obtain ⟨cpu, here, rfl⟩ := List.mem_map.mp cpus
      rw [List.eq_of_mem_replicate here]
      exact ⟨rfl, nofun⟩
    · obtain ⟨task, here, rfl⟩ := List.mem_map.mp tasks
      obtain ⟨kworker, _, rfl⟩ := List.mem_map.mp here
      exact ⟨rfl, trivial⟩
  refine ⟨⟨?_, fun _ => rfl, fun actor member => (outside actor member).2,
    List.isChain_singleton _⟩, Nat.zero_lt_succ 127, Nat.zero_lt_succ 127⟩
  exact List.countP_eq_zero.mpr fun actor member => by simp [statsDiscipline, outside actor member]

end TimersWorkqueues
