import KernelLabs.Kthreads.Lifecycle

/-!
# Who owns the producer threads

`producer_task` hands a thread over to the `stop_producer` that takes it, under
the lock; from then on the call stops the thread outside the lock.  The
invariant follows the ownership: a thread that still runs belongs to
`producer_task` or to a stop in progress, and the one in `producer_task` has not
been told to stop.
-/

set_option autoImplicit false

namespace Kthreads.Lifecycle

open Kernel LabelledMachine PartyPool LockWord

def Call.holds (call : Call) : Bool :=
  match call.pc with
  | .startCheck | .startRun | .startTest | .startUnlock _ => true
  | .stopTake | .stopUnlock _ => true
  | .statusRead | .statusUnlock _ _ => true
  | .crashed locked => locked
  | _ => false

/-- The thread in the local variable of a `stop_producer` in progress. -/
def Call.owned (call : Call) : Option Nat :=
  match call.pc with
  | .stopUnlock (.task t) => some t
  | .stopFlag t | .stopJoin t => some t
  | _ => none

/-- What one step of a call can do to the lock, to `producer_task` and to the
threads. -/
inductive CallEffect (shared : Shared) (call : Call) (next : Shared) (moved : Call) : Prop where
  | passes (threads : next.threads = shared.threads)
      (task : next.producerTask = shared.producerTask)
      (locked : LockStep shared.producerTaskLock call.holds next.producerTaskLock moved.holds)
      (owned : moved.owned = call.owned) (run : moved.pc = .startRun → shared.producerTask = .null)
      (test : ∀ e, shared.producerTask = .err e → call.pc ≠ .startTest)
  | creates (pid : Nat) (was : call.pc = .startRun) (now : moved.pc = .startTest)
      (effect : next = { shared with
        threads := shared.threads ++ [⟨pid, false, .starting⟩]
        producerTask := .task shared.threads.length })
  | fails (e : Errno) (was : call.pc = .startRun) (now : moved.pc = .startTest)
      (effect : next = { shared with producerTask := .err e })
  | clears (e : Errno) (was : call.pc = .startTest) (failed : shared.producerTask = .err e)
      (now : moved.pc = .startUnlock e.code) (effect : next = { shared with producerTask := .null })
  | takes (was : call.pc = .stopTake) (now : moved.pc = .stopUnlock shared.producerTask)
      (effect : next = { shared with producerTask := .null })
  | flags (t : Nat) (was : call.pc = .stopFlag t) (now : moved.pc = .stopJoin t)
      (effect : next = { shared with threads := shared.threads.modify t fun thread =>
        { thread with shouldStop := true } })
  | joins (t : Nat) (was : call.pc = .stopJoin t) (now : moved.pc = .done 0)
      (gone : ∀ thread, shared.threads[t]? = some thread → thread.pc = .exited)
      (effect : next = shared)

theorem callStep_effect {i : Nat} {outcome : Run} {shared next : Shared} {call moved : Call}
    (stepped : callStep i outcome shared call = some (next, moved)) :
    CallEffect shared call next moved := by
  obtain ⟨count, pc⟩ := call
  cases pc with
  | idle | done ret | shown text | crashed locked => contradiction
  | startLock | stopLock | statusLock =>
      simp only [callStep] at stepped
      split at stepped
      · contradiction
      · rename_i free
        cases stepped
        exact .passes rfl rfl (.acquires (Bool.eq_false_of_not_eq_true free) rfl rfl rfl) rfl
          CallPc.noConfusion (fun _ _ => CallPc.noConfusion)
  | startCheck =>
      simp only [callStep] at stepped
      split at stepped
      · rename_i free
        cases stepped
        exact .passes rfl rfl (.passes rfl rfl) rfl (fun _ => free) (fun _ _ => CallPc.noConfusion)
      · cases stepped
        exact .passes rfl rfl (.passes rfl rfl) rfl CallPc.noConfusion
          (fun _ _ => CallPc.noConfusion)
  | startRun =>
      cases outcome with
      | error e =>
          cases stepped
          exact .fails e rfl rfl rfl
      | ok pid =>
          cases stepped
          exact .creates pid rfl rfl rfl
  | startTest =>
      cases pointer : shared.producerTask with
      | err e =>
          simp only [callStep, pointer] at stepped
          cases stepped
          exact .clears e rfl pointer rfl rfl
      | null | task t =>
          simp only [callStep, pointer] at stepped
          cases stepped
          refine .passes rfl rfl (.passes rfl rfl) rfl CallPc.noConfusion ?_
          intro e failed
          exact TaskPtr.noConfusion (pointer.symm.trans failed)
  | startUnlock ret | statusUnlock running pid =>
      cases stepped
      exact .passes rfl rfl (.releases rfl rfl rfl) rfl CallPc.noConfusion
        (fun _ _ => CallPc.noConfusion)
  | stopTake =>
      cases stepped
      exact .takes rfl rfl rfl
  | stopUnlock task =>
      cases task <;> cases stepped <;>
        exact .passes rfl rfl (.releases rfl rfl rfl) rfl CallPc.noConfusion
          (fun _ _ => CallPc.noConfusion)
  | stopFlag t =>
      cases stepped
      exact .flags t rfl rfl rfl
  | stopJoin t =>
      simp only [callStep] at stepped
      split at stepped
      · rename_i pid shouldStop found
        cases stepped
        refine .joins t rfl rfl ?_ rfl
        intro thread here
        cases Option.some.inj (found.symm.trans here)
        rfl
      · contradiction
  | statusRead =>
      simp only [callStep] at stepped
      split at stepped
      · cases stepped
        exact .passes rfl rfl (.passes rfl rfl) rfl CallPc.noConfusion
          (fun _ _ => CallPc.noConfusion)
      · cases stepped
        exact .passes rfl rfl (.passes rfl rfl) rfl CallPc.noConfusion
          (fun _ _ => CallPc.noConfusion)
      · split at stepped <;> cases stepped <;>
          exact .passes rfl rfl (.passes rfl rfl) rfl CallPc.noConfusion
            (fun _ _ => CallPc.noConfusion)
  | statusEmit running pid =>
      cases stepped
      exact .passes rfl rfl (.passes rfl rfl) rfl CallPc.noConfusion
        (fun _ _ => CallPc.noConfusion)

structure Accounted (s : System) : Prop where
  exclusive : Exclusive s.shared.producerTaskLock (s.parties.countP Call.holds)
  owned : ∀ t thread, s.shared.threads[t]? = some thread → thread.pc ≠ .exited →
    s.shared.producerTask = .task t ∨ ∃ call ∈ s.parties, call.owned = some t
  current : ∀ t, s.shared.producerTask = .task t →
    (∃ thread, s.shared.threads[t]? = some thread ∧ thread.pc ≠ .exited ∧
      thread.shouldStop = false) ∧ ∀ call ∈ s.parties, call.owned ≠ some t
  known : ∀ call ∈ s.parties, ∀ t, call.owned = some t → t < s.shared.threads.length
  running : ∀ call ∈ s.parties, call.pc = .startRun → s.shared.producerTask = .null
  failing : ∀ e, s.shared.producerTask = .err e → ∃ call ∈ s.parties, call.pc = .startTest

theorem accounted_initial : Accounted System.initial := by
  refine ⟨rfl, ?_, ?_, ?_, ?_, ?_⟩
  · intro t thread found
    contradiction
  · intro t pointer
    contradiction
  · intro call member t owns
    rw [List.mem_singleton.mp member] at owns
    contradiction
  · intro call member runs
    rw [List.mem_singleton.mp member] at runs
    contradiction
  · intro e pointer
    contradiction

section Step
variable {s : System} (accounted : Accounted s) {i : Nat} {call moved : Call} {next : Shared}
  (found : s.parties[i]? = some call)
include accounted found

theorem Accounted.lock_step
    (locked : LockStep s.shared.producerTaskLock call.holds next.producerTaskLock moved.holds) :
    Exclusive next.producerTaskLock ((s.parties.set i moved).countP Call.holds) :=
  accounted.exclusive.step locked (countP_set_add Call.holds moved found)

theorem Accounted.sole_holder (moved : Call) (inside : call.holds = true) :
    ∀ other ∈ s.parties.set i moved, other.holds = true → other = moved :=
  eq_moved_of_countP_le_one Call.holds found inside accounted.exclusive.le_one

theorem Accounted.passes (threads : next.threads = s.shared.threads)
    (task : next.producerTask = s.shared.producerTask)
    (locked : LockStep s.shared.producerTaskLock call.holds next.producerTaskLock moved.holds)
    (owned : moved.owned = call.owned)
    (run : moved.pc = .startRun → s.shared.producerTask = .null)
    (test : ∀ e, s.shared.producerTask = .err e → call.pc ≠ .startTest) :
    Accounted ⟨next, s.parties.set i moved⟩ := by
  have owner (t : Nat) : (∃ c ∈ s.parties.set i moved, c.owned = some t) ↔
      ∃ c ∈ s.parties, c.owned = some t :=
    exists_mem_set_iff found (by rw [owned])
  refine ⟨accounted.lock_step found locked, ?_, ?_, ?_, ?_, ?_⟩
  · dsimp only
    rw [threads, task]
    intro t thread here alive
    rw [owner t]
    exact accounted.owned t thread here alive
  · dsimp only
    rw [threads, task]
    intro t pointer
    obtain ⟨alive, unowned⟩ := accounted.current t pointer
    refine ⟨alive, forall_mem_set unowned ?_⟩
    rw [owned]
    exact unowned call (List.mem_of_getElem? found)
  · dsimp only
    rw [threads]
    refine forall_mem_set accounted.known ?_
    rw [owned]
    exact accounted.known call (List.mem_of_getElem? found)
  · dsimp only
    rw [task]
    exact forall_mem_set accounted.running run
  · dsimp only
    rw [task]
    intro e pointer
    obtain ⟨other, member, atTest⟩ := accounted.failing e pointer
    have differs : other ≠ call := fun same => test e pointer (same ▸ atTest)
    exact ⟨other, mem_set_of_ne found member differs, atTest⟩

omit accounted in
theorem owner_stays {t : Nat} (other : call.owned ≠ some t)
    (owner : ∃ c ∈ s.parties, c.owned = some t) :
    ∃ c ∈ s.parties.set i moved, c.owned = some t := by
  obtain ⟨c, member, owns⟩ := owner
  have differs : c ≠ call := by
    rintro rfl
    exact other owns
  exact ⟨c, mem_set_of_ne found member differs, owns⟩

theorem Accounted.creates (pid : Nat) (was : call.pc = .startRun) (now : moved.pc = .startTest) :
    Accounted ⟨{ s.shared with
      threads := s.shared.threads ++ [⟨pid, false, .starting⟩]
      producerTask := .task s.shared.threads.length }, s.parties.set i moved⟩ := by
  have inside : call.holds = true := by simp only [Call.holds, was]
  have stays : moved.holds = true := by simp only [Call.holds, now]
  have ownsNone : call.owned = none := by simp only [Call.owned, was]
  have stillNone : moved.owned = none := by simp only [Call.owned, now]
  have member := List.mem_of_getElem? found
  have empty := accounted.running call member was
  have sole := accounted.sole_holder found moved inside
  have known : ∀ c ∈ s.parties.set i moved, ∀ t, c.owned = some t → t < s.shared.threads.length :=
    forall_mem_set accounted.known fun t owns => absurd (stillNone.symm.trans owns) (by simp)
  refine ⟨accounted.lock_step found (.passes rfl (stays.trans inside.symm)), ?_, ?_, ?_, ?_, ?_⟩
  · intro t thread here alive
    dsimp only at here
    rw [List.getElem?_append] at here
    split at here
    · rcases accounted.owned t thread here alive with pointer | ⟨owner, ownerMember, owns⟩
      · rw [empty] at pointer
        contradiction
      · exact Or.inr (owner_stays found (by simp [ownsNone]) ⟨owner, ownerMember, owns⟩)
    · left
      have bound := (List.getElem?_eq_some_iff.mp here).1
      rw [List.length_singleton] at bound
      have same : t = s.shared.threads.length := by omega
      rw [same]
  · intro t pointer
    cases pointer
    refine ⟨⟨⟨pid, false, .starting⟩, ?_, ThreadPc.noConfusion, rfl⟩, ?_⟩
    · exact List.getElem?_concat_length
    · intro other otherMember owns
      have := known other otherMember _ owns
      omega
  · intro other otherMember t owns
    have := known other otherMember t owns
    dsimp only
    rw [List.length_append]
    omega
  · intro other otherMember runs
    have same := sole other otherMember (by simp only [Call.holds, runs])
    rw [same, now] at runs
    contradiction
  · intro e pointer
    contradiction

/-- `kthread_run` failed: the error pointer stays under the lock. -/
theorem Accounted.fails (e : Errno) (was : call.pc = .startRun) (now : moved.pc = .startTest) :
    Accounted ⟨{ s.shared with producerTask := .err e }, s.parties.set i moved⟩ := by
  have inside : call.holds = true := by simp only [Call.holds, was]
  have stays : moved.holds = true := by simp only [Call.holds, now]
  have ownsNone : call.owned = none := by simp only [Call.owned, was]
  have stillNone : moved.owned = none := by simp only [Call.owned, now]
  have empty := accounted.running call (List.mem_of_getElem? found) was
  have sole := accounted.sole_holder found moved inside
  refine ⟨accounted.lock_step found (.passes rfl (stays.trans inside.symm)), ?_, ?_, ?_, ?_, ?_⟩
  · intro t thread here alive
    rcases accounted.owned t thread here alive with pointer | owner
    · rw [empty] at pointer
      contradiction
    · exact Or.inr (owner_stays found (by simp [ownsNone]) owner)
  · intro t pointer
    contradiction
  · exact forall_mem_set accounted.known fun t owns => absurd (stillNone.symm.trans owns) (by simp)
  · intro other otherMember runs
    have same := sole other otherMember (by simp only [Call.holds, runs])
    rw [same, now] at runs
    contradiction
  · intro _ _
    exact ⟨moved, moved_mem_set found, now⟩

/-- `producer_task` becomes NULL under the lock: a failed start clears it, or a
stop takes what it held. -/
theorem Accounted.empties (inside : call.holds = true) (stays : moved.holds = true)
    (ownsNone : call.owned = none)
    (taken : ∀ t, moved.owned = some t ↔ s.shared.producerTask = .task t) :
    Accounted ⟨{ s.shared with producerTask := .null }, s.parties.set i moved⟩ := by
  refine ⟨accounted.lock_step found (.passes rfl (stays.trans inside.symm)), ?_, ?_, ?_, ?_, ?_⟩
  · intro t thread here alive
    right
    rcases accounted.owned t thread here alive with pointer | owner
    · exact ⟨moved, moved_mem_set found, (taken t).mpr pointer⟩
    · exact owner_stays found (by simp [ownsNone]) owner
  · intro t pointer
    contradiction
  · refine forall_mem_set accounted.known ?_
    intro t owns
    obtain ⟨⟨thread, here, _⟩, _⟩ := accounted.current t ((taken t).mp owns)
    exact (List.getElem?_eq_some_iff.mp here).1
  · exact fun _ _ _ => rfl
  · intro e pointer
    contradiction

theorem Accounted.flags (t : Nat) (was : call.pc = .stopFlag t) (now : moved.pc = .stopJoin t) :
    Accounted ⟨{ s.shared with threads := s.shared.threads.modify t fun thread =>
      { thread with shouldStop := true } }, s.parties.set i moved⟩ := by
  have outside : call.holds = false := by simp only [Call.holds, was]
  have stillOutside : moved.holds = false := by simp only [Call.holds, now]
  have owns : call.owned = some t := by simp only [Call.owned, was]
  have stillOwns : moved.owned = some t := by simp only [Call.owned, now]
  have member := List.mem_of_getElem? found
  have owner (u : Nat) : (∃ c ∈ s.parties.set i moved, c.owned = some u) ↔
      ∃ c ∈ s.parties, c.owned = some u :=
    exists_mem_set_iff found (by rw [owns, stillOwns])
  refine ⟨accounted.lock_step found (.passes rfl (stillOutside.trans outside.symm)),
    ?_, ?_, ?_, ?_, ?_⟩
  · intro u thread here alive
    rw [owner u]
    dsimp only at here
    rw [List.getElem?_modify] at here
    obtain ⟨before, beforeHere, same⟩ := Option.map_eq_some_iff.mp here
    refine accounted.owned u before beforeHere ?_
    subst same
    split at alive <;> exact alive
  · intro u pointer
    obtain ⟨⟨thread, here, alive⟩, unowned⟩ := accounted.current u pointer
    have other : t ≠ u := by
      rintro rfl
      exact unowned call member owns
    refine ⟨⟨thread, ?_, alive⟩, forall_mem_set unowned ?_⟩
    · dsimp only
      rw [List.getElem?_modify, here]
      simp [other]
    · rw [stillOwns]
      simpa using other
  · intro c cMember u cOwns
    dsimp only
    rw [List.length_modify]
    obtain ⟨d, dMember, dOwns⟩ := (owner u).mp ⟨c, cMember, cOwns⟩
    exact accounted.known d dMember u dOwns
  · exact forall_mem_set accounted.running (by rw [now]; exact CallPc.noConfusion)
  · intro e pointer
    obtain ⟨c, cMember, atTest⟩ := accounted.failing e pointer
    have differs : c ≠ call := by
      rintro rfl
      rw [was] at atTest
      contradiction
    exact ⟨c, mem_set_of_ne found cMember differs, atTest⟩

theorem Accounted.joins (t : Nat) (was : call.pc = .stopJoin t) (now : moved.pc = .done 0)
    (gone : ∀ thread, s.shared.threads[t]? = some thread → thread.pc = .exited) :
    Accounted ⟨s.shared, s.parties.set i moved⟩ := by
  have outside : call.holds = false := by simp only [Call.holds, was]
  have stillOutside : moved.holds = false := by simp only [Call.holds, now]
  have owns : call.owned = some t := by simp only [Call.owned, was]
  have ownsNone : moved.owned = none := by simp only [Call.owned, now]
  refine ⟨accounted.lock_step found (.passes rfl (stillOutside.trans outside.symm)),
    ?_, ?_, ?_, ?_, ?_⟩
  · intro u thread here alive
    rcases accounted.owned u thread here alive with pointer | owner
    · exact Or.inl pointer
    · refine Or.inr (owner_stays found ?_ owner)
      rw [owns]
      rintro ⟨rfl⟩
      exact alive (gone thread here)
  · intro u pointer
    obtain ⟨alive, unowned⟩ := accounted.current u pointer
    exact ⟨alive, forall_mem_set unowned (by simp [ownsNone])⟩
  · exact forall_mem_set accounted.known fun u uOwns => absurd (ownsNone.symm.trans uOwns) (by simp)
  · exact forall_mem_set accounted.running (by rw [now]; exact CallPc.noConfusion)
  · intro e pointer
    obtain ⟨c, cMember, atTest⟩ := accounted.failing e pointer
    have differs : c ≠ call := by
      rintro rfl
      rw [was] at atTest
      contradiction
    exact ⟨c, mem_set_of_ne found cMember differs, atTest⟩

theorem Accounted.callStep (effect : CallEffect s.shared call next moved) :
    Accounted ⟨next, s.parties.set i moved⟩ := by
  cases effect with
  | passes threads task locked owned run test =>
      exact accounted.passes found threads task locked owned run test
  | creates pid was now effect =>
      subst effect
      exact accounted.creates found pid was now
  | fails e was now effect =>
      subst effect
      exact accounted.fails found e was now
  | clears e was failed now effect =>
      subst effect
      refine accounted.empties found ?_ ?_ ?_ ?_
      · simp only [Call.holds, was]
      · simp only [Call.holds, now]
      · simp only [Call.owned, was]
      · simp [Call.owned, now, failed]
  | takes was now effect =>
      subst effect
      refine accounted.empties found ?_ ?_ ?_ ?_
      · simp only [Call.holds, was]
      · simp only [Call.holds, now]
      · simp only [Call.owned, was]
      · intro t
        cases pointer : s.shared.producerTask <;> simp [Call.owned, now, pointer]
  | flags t was now effect =>
      subst effect
      exact accounted.flags found t was now
  | joins t was now gone effect =>
      subst effect
      exact accounted.joins found t was now gone

end Step

/-! ## The threads -/

/-- One stage of a thread: it leaves only after it was told to stop. -/
structure ThreadEffect (shared : Shared) (t : Nat) (next : Shared) : Prop where
  task : next.producerTask = shared.producerTask
  lock : next.producerTaskLock = shared.producerTaskLock
  attrs : next.attrs = shared.attrs
  stage : next.stage = shared.stage
  moves : ∃ thread pc, shared.threads[t]? = some thread ∧ thread.pc ≠ .exited ∧
    next.threads = shared.threads.set t { thread with pc } ∧
    (pc = .exited → thread.shouldStop = true)

theorem threadStep_effect {ns : UInt64} {shared next : Shared} {t : Nat}
    (stepped : threadStep ns shared t = some next) : ThreadEffect shared t next := by
  unfold threadStep at stepped
  cases found : shared.threads[t]? with
  | none => simp [found] at stepped
  | some thread =>
      obtain ⟨pid, shouldStop, pc⟩ := thread
      simp only [found] at stepped
      cases pc with
      | exited => contradiction
      | starting | check =>
          cases stepped
          refine ⟨rfl, rfl, rfl, rfl, _, _, found, ThreadPc.noConfusion, rfl, ?_⟩
          cases shouldStop with
          | true => exact fun _ => rfl
          | false => exact fun left => ThreadPc.noConfusion left
      | body | sleep =>
          cases stepped
          exact ⟨rfl, rfl, rfl, rfl, _, _, found, ThreadPc.noConfusion, rfl,
            fun left => ThreadPc.noConfusion left⟩

theorem Accounted.thread {s : System} (accounted : Accounted s) {t : Nat} {next : Shared}
    (effect : ThreadEffect s.shared t next) : Accounted { s with shared := next } := by
  obtain ⟨task, lock, _, _, thread, pc, found, alive, threads, leaves⟩ := effect
  refine ⟨?_, ?_, ?_, ?_, ?_, ?_⟩
  · dsimp only
    rw [lock]
    exact accounted.exclusive
  · dsimp only
    rw [task, threads]
    intro u other here otherAlive
    by_cases same : t = u
    · subst same
      exact accounted.owned t thread found alive
    · rw [List.getElem?_set_ne same] at here
      exact accounted.owned u other here otherAlive
  · dsimp only
    rw [task, threads]
    intro u pointer
    obtain ⟨⟨other, here, otherAlive, untold⟩, unowned⟩ := accounted.current u pointer
    refine ⟨?_, unowned⟩
    by_cases same : t = u
    · subst same
      cases Option.some.inj (found.symm.trans here)
      have bound := (List.getElem?_eq_some_iff.mp found).1
      refine ⟨_, List.getElem?_set_self bound, ?_, untold⟩
      exact fun left => absurd ((untold.symm.trans (leaves left))) Bool.false_ne_true
    · exact ⟨other, (List.getElem?_set_ne same).trans here, otherAlive, untold⟩
  · dsimp only
    rw [threads, List.length_set]
    exact accounted.known
  · dsimp only
    rw [task]
    exact accounted.running
  · dsimp only
    rw [task]
    exact accounted.failing

end Kthreads.Lifecycle
