import KernelLabs.Kthreads.Custody

/-!
# When two producer threads execute

`stop_producer` clears `producer_task` before `kthread_stop`, so the next
`start_producer` passes its guard while the old thread still runs.  That is the
only way to two of them: as long as every `kthread_run` finds the threads of the
stops in progress gone, at most one thread executes `producer_thread_fn`.
-/

set_option autoImplicit false

namespace Kthreads.Lifecycle

open Kernel LabelledMachine PartyPool LockWord

/-- Inside `producer_thread_fn`. -/
def Thread.executing (thread : Thread) : Bool :=
  match thread.pc with
  | .check | .body | .sleep => true
  | .starting | .exited => false

/-- Inside the function, or about to enter it. -/
def Thread.mayExecute (thread : Thread) : Bool :=
  match thread.pc with
  | .starting => !thread.shouldStop
  | _ => thread.executing

def System.AtMostOne (s : System) : Prop := s.shared.threads.countP Thread.executing ≤ 1

instance (s : System) : Decidable s.AtMostOne :=
  inferInstanceAs (Decidable (_ ≤ _))

/-- The thread that the call has taken to stop it may still execute. -/
def System.lingers (s : System) (call : Call) : Bool :=
  (call.owned.bind fun t => s.shared.threads[t]?).any Thread.mayExecute

/-- A `kthread_run` that creates a thread finds no stopped one that may still
execute. -/
def StopsFinished (s : System) : Act → Prop
  | .call i (.ok _) => s.parties[i]?.map Call.pc = some .startRun →
      ∀ call ∈ s.parties, s.lingers call = false
  | _ => True

instance (s : System) (act : Act) : Decidable (StopsFinished s act) := by
  unfold StopsFinished
  split <;> infer_instance

/-! ## The threads that may execute -/

theorem mayExecute_of_executing {thread : Thread} (executing : thread.executing = true) :
    thread.mayExecute = true := by
  obtain ⟨pid, shouldStop, pc⟩ := thread
  cases pc <;> first | rfl | contradiction

/-- A thread that moves, or is told to stop, may execute only if it might before. -/
theorem countP_mayExecute_set {threads : List Thread} {t : Nat} {thread : Thread}
    (found : threads[t]? = some thread) {moved : Thread}
    (before : moved.mayExecute = true → thread.mayExecute = true) :
    (threads.set t moved).countP Thread.mayExecute ≤ threads.countP Thread.mayExecute := by
  have counted := countP_set_add Thread.mayExecute moved found
  by_cases now : moved.mayExecute = true
  · rw [if_pos now, if_pos (before now)] at counted
    omega
  · rw [if_neg now] at counted
    omega

theorem countP_mayExecute_modify (threads : List Thread) (t : Nat) :
    (threads.modify t fun thread => { thread with shouldStop := true }).countP Thread.mayExecute ≤
      threads.countP Thread.mayExecute := by
  cases found : threads[t]? with
  | none =>
      rw [List.modify_eq_self (List.getElem?_eq_none_iff.mp found)]
  | some thread =>
      obtain ⟨bound, here⟩ := List.getElem?_eq_some_iff.mp found
      have same : (threads.modify t fun thread => { thread with shouldStop := true }) =
          threads.set t { thread with shouldStop := true } := by
        rw [List.modify_eq_take_cons_drop bound, List.set_eq_take_append_cons_drop, if_pos bound,
          here]
      rw [same]
      refine countP_mayExecute_set found ?_
      obtain ⟨pid, shouldStop, pc⟩ := thread
      cases pc <;> first | exact id | exact fun never => absurd never Bool.false_ne_true

theorem threadStep_mayExecute {ns : UInt64} {shared next : Shared} {t : Nat}
    (stepped : threadStep ns shared t = some next) :
    next.threads.countP Thread.mayExecute ≤ shared.threads.countP Thread.mayExecute := by
  unfold threadStep at stepped
  cases found : shared.threads[t]? with
  | none => simp [found] at stepped
  | some thread =>
      obtain ⟨pid, shouldStop, pc⟩ := thread
      simp only [found] at stepped
      cases pc with
      | exited => contradiction
      | starting | check =>
          cases stepped
          cases shouldStop with
          | true => exact countP_mayExecute_set found fun never => absurd never Bool.false_ne_true
          | false => exact countP_mayExecute_set found fun _ => rfl
      | body | sleep =>
          cases stepped
          exact countP_mayExecute_set found fun _ => rfl

/-- At the `kthread_run` of a start, every thread that may still execute is in
the hands of a stop. -/
theorem Custody.none_mayExecute {s : System} (custody : Custody s) {i : Nat} {call : Call}
    (found : s.parties[i]? = some call) (runs : call.pc = .startRun)
    (finished : ∀ call ∈ s.parties, s.lingers call = false) :
    s.shared.threads.countP Thread.mayExecute = 0 := by
  have empty := custody.accounted.running call (List.mem_of_getElem? found) runs
  refine List.countP_eq_zero.mpr fun thread member may => ?_
  obtain ⟨t, here⟩ := List.mem_iff_getElem?.mp member
  have alive : thread.pc ≠ .exited := by
    intro exited
    rw [Thread.mayExecute, exited, Thread.executing, exited] at may
    contradiction
  rcases custody.accounted.owned t thread here alive with current | ⟨owner, ownerMember, owns⟩
  · exact TaskPtr.noConfusion (empty.symm.trans current)
  · have lingers : s.lingers owner = true := by
      rw [System.lingers, owns, Option.bind_some, here]
      exact may
    exact Bool.false_ne_true ((finished owner ownerMember).symm.trans lingers)

/-- Of the steps of a call only a `kthread_run` adds a thread that may execute. -/
theorem CallEffect.mayExecute_le {shared next : Shared} {call moved : Call}
    (effect : CallEffect shared call next moved) :
    next.threads.countP Thread.mayExecute ≤ shared.threads.countP Thread.mayExecute ∨
      call.pc = .startRun ∧ ∃ pid, next.threads = shared.threads ++ [⟨pid, false, .starting⟩] := by
  cases effect with
  | passes threads task locked owned run test => exact Or.inl (by rw [threads])
  | creates pid was now effect =>
      subst effect
      exact Or.inr ⟨was, pid, rfl⟩
  | fails e was now effect | clears e was failed now effect | takes was now effect
  | joins t was now gone effect =>
      subst effect
      exact Or.inl (Nat.le_refl _)
  | flags t was now effect =>
      subst effect
      exact Or.inl (countP_mayExecute_modify _ t)

theorem step_single (s : System) (act : Act) (next : System)
    (good : Custody s ∧ s.shared.threads.countP Thread.mayExecute ≤ 1)
    (allowed : StopsFinished s act) (stepped : step s act = some next) :
    Custody next ∧ next.shared.threads.countP Thread.mayExecute ≤ 1 := by
  obtain ⟨custody, single⟩ := good
  refine ⟨step_custody s act next custody stepped, ?_⟩
  cases act with
  | writeControl buf | readStatus =>
      obtain ⟨_, _, _, rfl⟩ := step_begins rfl stepped
      exact single
  | call i outcome =>
      obtain ⟨call, shared, moved, found, own, rfl⟩ := Pool.act_eq_some stepped
      rcases (callStep_effect own).mayExecute_le with fewer | ⟨was, pid, created⟩
      · exact fewer.trans single
      · cases outcome with
        | error e =>
            simp only [callStep, was] at own
            cases own
            exact absurd created (by simp)
        | ok _ =>
            have finished := allowed (by rw [found, Option.map_some, was])
            have noOther := custody.none_mayExecute found was finished
            dsimp only
            rw [created, List.countP_append, noOther]
            exact Nat.le_refl 1
  | thread t ns =>
      obtain ⟨shared, own, rfl⟩ := Option.map_eq_some_iff.mp stepped
      exact (threadStep_mayExecute own).trans single
  | module failure =>
      cases moduleStep_effect stepped with
      | labels attrs stage effect free =>
          subst effect
          exact single
      | enters attrs stage pc entry effect free busy =>
          subst effect
          exact single

/-! ## A start that does not wait -/

/-- A thread that may execute is in the function after at most one step of its own. -/
theorem enters_function {s : System} {t : Nat} {thread : Thread}
    (found : s.shared.threads[t]? = some thread) (may : thread.mayExecute = true) :
    ∃ later last, later.length ≤ 1 ∧ run step s later = some last ∧
      (∃ inside, last.shared.threads[t]? = some inside ∧ inside.executing = true) ∧
      ∀ u, u ≠ t → last.shared.threads[u]? = s.shared.threads[u]? := by
  obtain ⟨pid, shouldStop, pc⟩ := thread
  cases pc with
  | exited => contradiction
  | starting =>
      have untold : shouldStop = false := by cases shouldStop <;> first | rfl | contradiction
      subst untold
      have bound := (List.getElem?_eq_some_iff.mp found).1
      refine ⟨[.thread t 0], { s with shared := { s.shared with
          threads := s.shared.threads.set t ⟨pid, false, .check⟩ } }, Nat.le_refl 1, ?_,
        ⟨⟨pid, false, .check⟩, List.getElem?_set_self bound, rfl⟩,
        fun u other => List.getElem?_set_ne other.symm⟩
      refine (run_cons_eq_some step).mpr ⟨_, ?_, rfl⟩
      simp only [step, threadStep, found, Option.map_some]
      rfl
  | check | body | sleep =>
      exact ⟨[], s, Nat.zero_le 1, rfl, ⟨_, found, rfl⟩, fun _ _ => rfl⟩

theorem not_atMostOne_of_lingers {s next : System} {i : Nat} {pid : Nat} {call owner : Call}
    (custody : Custody s) (found : s.parties[i]? = some call) (runs : call.pc = .startRun)
    (member : owner ∈ s.parties) (lingers : s.lingers owner = true)
    (stepped : step s (.call i (.ok pid)) = some next) :
    ∃ later last, later.length ≤ 2 ∧ run step next later = some last ∧ ¬ last.AtMostOne := by
  rw [System.lingers, Option.any_eq_true] at lingers
  obtain ⟨thread, taken, may⟩ := lingers
  obtain ⟨t, owns, here⟩ := Option.bind_eq_some_iff.mp taken
  have old := custody.accounted.known owner member t owns
  obtain ⟨mover, shared, moved, moverFound, own, rfl⟩ := Pool.act_eq_some stepped
  cases Option.some.inj (moverFound.symm.trans found)
  simp only [callStep, runs] at own
  cases own
  -- first the old thread goes on, then the new one begins
  obtain ⟨first, middle, firstLength, firstRan, ⟨inside, stays, executes⟩, others⟩ :=
    enters_function (s := ⟨{ s.shared with
        threads := s.shared.threads ++ [⟨pid, false, .starting⟩]
        producerTask := .task s.shared.threads.length },
      s.parties.set i ⟨call.count, .startTest⟩⟩) (t := t)
      ((List.getElem?_append_left old).trans here) may
  have created := (others s.shared.threads.length (by omega)).trans List.getElem?_concat_length
  obtain ⟨second, last, secondLength, secondRan, ⟨fresh, begins, freshExecutes⟩, rest⟩ :=
    enters_function created rfl
  refine ⟨first ++ second, last, ?_, ?_, fun single => ?_⟩
  · rw [List.length_append]
    omega
  · rw [run_append, firstRan]
    exact secondRan
  · have same := eq_of_countP_le_one Thread.executing ((rest t (by omega)).trans stays) begins
      executes freshExecutes single
    omega

/-- **One producer.** As long as every `kthread_run` that creates a thread finds
the threads of the stops in progress done with `producer_thread_fn`, at most one
thread executes it; the first `kthread_run` that does not leads to two of them. -/
theorem at_most_one_iff_stops_finished (acts : List Act) :
    (Meets step StopsFinished System.initial acts →
      Always step System.AtMostOne System.initial acts) ∧
    ∀ s act next, run step System.initial acts = some s → step s act = some next →
      ¬ StopsFinished s act →
      ∃ later last, later.length ≤ 2 ∧ run step next later = some last ∧ ¬ last.AtMostOne := by
  constructor
  · intro meets
    refine always_of_meets step_single (fun s good => ?_) ⟨custody_initial, Nat.zero_le 1⟩ meets
    exact (List.countP_mono_left fun _ _ => mayExecute_of_executing).trans good.2
  · intro s act next ran stepped broken
    unfold StopsFinished at broken
    split at broken
    · rename_i i pid
      simp only [not_forall, Bool.not_eq_false] at broken
      obtain ⟨runs, owner, member, lingers⟩ := broken
      obtain ⟨call, found, atRun⟩ := Option.map_eq_some_iff.mp runs
      exact not_atMostOne_of_lingers (reachable_custody ran) found atRun member lingers stepped
    · exact absurd trivial broken

/-- A stop, whose thread leaves, before the next start. -/
def restartActs : List Act :=
  ownershipActs.dropLast ++ [.call 2 (.ok 8), .call 2 (.ok 0), .thread 1 0]

theorem at_most_one_of_restart : Always step System.AtMostOne System.initial restartActs :=
  (at_most_one_iff_stops_finished restartActs).1 (by decide +kernel)

/-- The second writer's "start" comes between the first one's unlock and its
`kthread_stop`. -/
def overlappingActs : List Act :=
  registrations ++ loaderSteps 5 ++ [.module none, .thread 0 0, .writeControl (ascii "stop"),
    .writeControl (ascii "start")] ++ List.replicate 3 (.call 1 (.ok 0)) ++
    List.replicate 3 (.call 2 (.ok 8)) ++ [.thread 1 0]

theorem two_producers_execute :
    ∃ s, run step System.initial overlappingActs = some s ∧
      s.shared.threads.countP Thread.executing = 2 :=
  ⟨_, run_get step System.initial overlappingActs (by decide +kernel), by decide +kernel⟩

end Kthreads.Lifecycle
