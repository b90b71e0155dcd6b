import KernelLabs.Kthreads.Teardown
import KernelLabs.Lib.Tally

/-!
# Every producer thread is stopped at most once

From its creation until a `kthread_stop` of it has returned, a thread has one
owner: `producer_task`, or the `stop_producer` that took it from there.  The
count of its owners and of the stops that returned is conserved, through failing
starts, init's failure and exit.
-/

set_option autoImplicit false

namespace Kthreads.Lifecycle

open Kernel LabelledMachine PartyPool LockWord

/-- The loading task is in none of its calls. -/
def Stage.loaderFree : Stage → Bool
  | .miscRegister | .kobjectCreate | .sysfsCreate | .loaded => true
  | _ => false

/-- The call has no error pointer in its hands. -/
def Call.intact (call : Call) : Bool :=
  match call.pc with
  | .stopUnlock (.err _) | .crashed _ => false
  | _ => true

def System.LoaderIdle (s : System) : Prop :=
  ∃ call, s.parties[0]? = some call ∧ call.finished = true

/-- What one stage of init or exit can do. -/
inductive ModuleEffect (s next : System) : Prop where
  | labels (attrs : Bool) (stage : Stage)
      (effect : next = { s with shared := { s.shared with attrs, stage } })
      (free : stage.loaderFree = true → s.shared.stage.loaderFree = true ∨ s.LoaderIdle)
  | enters (attrs : Bool) (stage : Stage) (pc : CallPc) (entry : pc = .startLock ∨ pc = .stopLock)
      (effect : next = System.enters { s with shared := { s.shared with attrs } } stage pc)
      (free : s.shared.stage.loaderFree = true) (busy : stage.loaderFree = false)

theorem moduleStep_effect {failure : Option Errno} {s next : System}
    (stepped : moduleStep failure s = some next) : ModuleEffect s next := by
  cases stage : s.shared.stage with
  | miscRegister | kobjectCreate =>
      simp only [moduleStep, stage] at stepped
      split at stepped <;> cases stepped <;>
        exact .labels s.shared.attrs _ rfl fun _ => Or.inl (by rw [stage]; rfl)
  | sysfsCreate =>
      simp only [moduleStep, stage] at stepped
      split at stepped <;> cases stepped
      · exact .labels s.shared.attrs _ rfl fun _ => Or.inl (by rw [stage]; rfl)
      · exact .enters true _ _ (Or.inl rfl) rfl (by rw [stage]; rfl) rfl
  | initStart =>
      simp only [moduleStep, stage] at stepped
      split at stepped
      · rename_i count ret rest parties
        cases stepped
        exact .labels s.shared.attrs _ rfl fun _ =>
          Or.inr ⟨⟨count, .done ret⟩, by rw [parties]; rfl, rfl⟩
      · contradiction
  | initRemove ret | exitRemove =>
      simp only [moduleStep, stage] at stepped
      obtain ⟨_, rfl⟩ := removeGroup_eq_some stepped
      exact .labels false _ rfl fun free => Bool.noConfusion free
  | initPut ret | initDeregister ret | exitPut | exitDeregister =>
      simp only [moduleStep, stage] at stepped
      cases stepped
      exact .labels s.shared.attrs _ rfl fun free => Bool.noConfusion free
  | loaded =>
      simp only [moduleStep, stage] at stepped
      cases stepped
      exact .enters s.shared.attrs _ _ (Or.inr rfl) rfl (by rw [stage]; rfl) rfl
  | exitStop =>
      simp only [moduleStep, stage] at stepped
      split at stepped
      · cases stepped
        exact .labels s.shared.attrs _ rfl fun free => Bool.noConfusion free
      · contradiction
  | initFailed ret | exited => simp [moduleStep, stage] at stepped

/-- What holds in every reachable state. -/
structure Custody (s : System) : Prop where
  accounted : Accounted s
  loader : s.shared.stage.loaderFree = true → s.LoaderIdle
  intact : ∀ call ∈ s.parties, call.intact = true

theorem custody_initial : Custody System.initial := by
  refine ⟨accounted_initial, fun _ => ⟨⟨0, .idle⟩, rfl, rfl⟩, ?_⟩
  intro call member
  rw [List.mem_singleton.mp member]
  rfl

theorem Custody.spawn {s : System} (custody : Custody s) {call : Call}
    (outside : call.holds = false) (ownsNone : call.owned = none) (waits : call.pc ≠ .startRun)
    (intact : call.intact = true) : Custody (s.spawn call) := by
  refine ⟨custody.accounted.spawn outside ownsNone waits, fun free => ?_,
    forall_mem_spawn custody.intact intact⟩
  obtain ⟨first, found, finished⟩ := custody.loader free
  exact ⟨first, getElem?_spawn_old found call, finished⟩

theorem atEntry_intact {call : Call} (entry : call.atEntry = true) : call.intact = true := by
  obtain ⟨count, pc⟩ := call
  cases pc <;> first | rfl | contradiction

/-- The error pointer of a failed start is out of reach of every other call
that takes the lock. -/
theorem Accounted.no_error {s : System} (accounted : Accounted s) {i : Nat} {call : Call}
    (found : s.parties[i]? = some call) (inside : call.holds = true) (other : call.pc ≠ .startTest)
    (e : Errno) : s.shared.producerTask ≠ .err e := by
  intro failed
  obtain ⟨failing, member, atTest⟩ := accounted.failing e failed
  obtain ⟨j, failingFound⟩ := List.mem_iff_getElem?.mp member
  have same := eq_of_countP_le_one Call.holds found failingFound inside
    (by simp only [Call.holds, atTest]) accounted.exclusive.le_one
  subst same
  cases Option.some.inj (found.symm.trans failingFound)
  exact other atTest

theorem callStep_intact {s : System} (accounted : Accounted s) {i j : Nat}
    {outcome : Run} {call moved : Call} {next : Shared} (found : s.parties[i]? = some call)
    (intact : call.intact = true)
    (stepped : callStep j outcome s.shared call = some (next, moved)) : moved.intact = true := by
  have noError := accounted.no_error found
  have current := accounted.current
  obtain ⟨count, pc⟩ := call
  cases pc with
  | idle | done ret | shown text | crashed locked => contradiction
  | startLock | stopLock | statusLock =>
      simp only [callStep] at stepped
      split at stepped
      · contradiction
      · cases stepped
        rfl
  | startCheck | startTest =>
      simp only [callStep] at stepped
      split at stepped <;> cases stepped <;> rfl
  | startRun => cases outcome <;> cases stepped <;> rfl
  | stopTake =>
      cases pointer : s.shared.producerTask with
      | err e => exact absurd pointer (noError rfl CallPc.noConfusion e)
      | null | task t =>
          simp only [callStep, pointer] at stepped
          cases stepped
          rfl
  | stopUnlock task =>
      cases task with
      | err e => contradiction
      | null | task t =>
          cases stepped
          rfl
  | stopJoin t =>
      simp only [callStep] at stepped
      split at stepped
      · cases stepped
        rfl
      · contradiction
  | statusRead =>
      cases pointer : s.shared.producerTask with
      | err e => exact absurd pointer (noError rfl CallPc.noConfusion e)
      | null =>
          simp only [callStep, pointer] at stepped
          cases stepped
          rfl
      | task t =>
          obtain ⟨⟨thread, here, _⟩, _⟩ := current t pointer
          simp only [callStep, pointer, here] at stepped
          cases stepped
          rfl
  | startUnlock ret | stopFlag t | statusUnlock running pid | statusEmit running pid =>
      cases stepped
      rfl

theorem step_custody (s : System) (act : Act) (next : System) (custody : Custody s)
    (stepped : step s act = some next) : Custody next := by
  obtain ⟨accounted, loader, intact⟩ := custody
  cases act with
  | writeControl buf | readStatus =>
      obtain ⟨_, call, entry, rfl⟩ := step_begins rfl stepped
      obtain ⟨outside, ownsNone, waits⟩ := atEntry_outside entry
      exact Custody.spawn ⟨accounted, loader, intact⟩ outside ownsNone waits (atEntry_intact entry)
  | call i outcome =>
      obtain ⟨call, shared, moved, found, own, rfl⟩ := Pool.act_eq_some stepped
      obtain ⟨live, _, stage⟩ := callStep_frame own
      refine ⟨accounted.callStep found (callStep_effect own), ?_, forall_mem_set intact
        (callStep_intact accounted found (intact call (List.mem_of_getElem? found)) own)⟩
      dsimp only
      rw [stage]
      intro free
      obtain ⟨first, firstFound, finished⟩ := loader free
      refine ⟨first, (List.getElem?_set_ne ?_).trans firstFound, finished⟩
      rintro rfl
      cases Option.some.inj (firstFound.symm.trans found)
      exact Bool.false_ne_true (live.symm.trans finished)
  | thread t ns =>
      obtain ⟨shared, own, rfl⟩ := Option.map_eq_some_iff.mp stepped
      have effect := threadStep_effect own
      refine ⟨accounted.thread effect, ?_, intact⟩
      dsimp only
      rw [effect.stage]
      exact loader
  | module failure =>
      cases moduleStep_effect stepped with
      | labels attrs stage effect free =>
          subst effect
          exact ⟨accounted.relabel attrs stage, fun now => (free now).elim loader id, intact⟩
      | enters attrs stage pc entry effect free busy =>
          subst effect
          refine ⟨accounted.enters attrs entry (loader free),
            fun now => absurd (busy.symm.trans now) Bool.false_ne_true, forall_mem_set intact ?_⟩
          rcases entry with rfl | rfl <;> rfl

/-! ## What a control write returns -/

/-- What `start_producer` or `stop_producer` is to return is 0 or an error. -/
def Call.Settles (call : Call) : Prop :=
  match call.pc with
  | .startUnlock ret | .done ret => ret = 0 ∨ ∃ e : Errno, ret = e.code
  | _ => True

theorem controlStore_settles (buf : Bytes) : Call.Settles ⟨buf.length, controlStore buf⟩ := by
  unfold controlStore
  split
  · exact Or.inr ⟨.e2big, rfl⟩
  · split
    · trivial
    · split
      · trivial
      · exact Or.inr ⟨.einval, rfl⟩

theorem callStep_settles {i : Nat} {outcome : Run} {shared next : Shared} {call moved : Call}
    (settles : call.Settles) (stepped : callStep i outcome shared call = some (next, moved)) :
    moved.Settles := by
  obtain ⟨count, pc⟩ := call
  cases pc with
  | idle | done ret | shown text | crashed locked => contradiction
  | startLock | stopLock | statusLock =>
      simp only [callStep] at stepped
      split at stepped
      · contradiction
      · cases stepped
        trivial
  | startCheck =>
      simp only [callStep] at stepped
      split at stepped <;> cases stepped
      · trivial
      · exact Or.inr ⟨.eexist, rfl⟩
  | startRun => cases outcome <;> cases stepped <;> trivial
  | startTest =>
      simp only [callStep] at stepped
      split at stepped <;> cases stepped
      · exact Or.inr ⟨_, rfl⟩
      · exact Or.inl rfl
  | startUnlock ret =>
      cases stepped
      exact settles
  | stopUnlock task =>
      cases task <;> cases stepped
      · exact Or.inr ⟨.enoent, rfl⟩
      · trivial
      · trivial
  | stopJoin t =>
      simp only [callStep] at stepped
      split at stepped
      · cases stepped
        exact Or.inl rfl
      · contradiction
  | statusRead =>
      simp only [callStep] at stepped
      split at stepped
      · cases stepped
        trivial
      · cases stepped
        trivial
      · split at stepped <;> cases stepped <;> trivial
  | stopTake | stopFlag t | statusUnlock running pid | statusEmit running pid =>
      cases stepped
      trivial

theorem step_settles (s : System) (act : Act) (next : System)
    (all : ∀ call ∈ s.parties, call.Settles) (stepped : step s act = some next) :
    ∀ call ∈ next.parties, call.Settles := by
  cases act with
  | writeControl buf =>
      simp only [step] at stepped
      split at stepped
      · cases stepped
        exact forall_mem_spawn all (controlStore_settles buf)
      · contradiction
  | readStatus =>
      simp only [step] at stepped
      split at stepped
      · cases stepped
        exact forall_mem_spawn all trivial
      · contradiction
  | call i outcome =>
      obtain ⟨call, shared, moved, found, own, rfl⟩ := Pool.act_eq_some stepped
      exact forall_mem_set all (callStep_settles (all call (List.mem_of_getElem? found)) own)
  | thread t ns =>
      obtain ⟨shared, _, rfl⟩ := Option.map_eq_some_iff.mp stepped
      exact all
  | module failure =>
      cases moduleStep_effect stepped with
      | labels attrs stage effect free =>
          subst effect
          exact all
      | enters attrs stage pc entry effect free busy =>
          subst effect
          refine forall_mem_set all ?_
          rcases entry with rfl | rfl <;> trivial

/-- A control write takes all its bytes or returns an error. -/
theorem control_returns {acts : List Act} {s : System}
    (ran : run step System.initial acts = some s) :
    ∀ call ∈ s.parties, ∀ returned ∈ controlResult call,
      returned = call.count ∨ ∃ e : Errno, returned = e.code := by
  have idle : ∀ call ∈ System.initial.parties, call.Settles := by
    intro call member
    rw [List.mem_singleton.mp member]
    trivial
  intro call member returned result
  have settles := invariant_run step_settles idle ran call member
  obtain ⟨count, pc⟩ := call
  cases pc with
  | done ret =>
      cases result
      rcases settles with zero | ⟨e, failed⟩
      · exact Or.inl (if_neg (not_not.mpr zero))
      · exact Or.inr ⟨e, (if_pos (failed ▸ Int.ne_of_lt e.code_neg)).trans failed⟩
  | _ => contradiction

/-! ## The owners of a thread -/

/-- The step hands thread `t` to `kthread_stop`. -/
def stopCalls (t : Nat) (s : System) : Act → Nat
  | .call i _ => if s.parties[i]?.map Call.pc = some (.stopFlag t) then 1 else 0
  | _ => 0

/-- The step is the return of `kthread_stop` of thread `t`. -/
def stopReturns (t : Nat) (s : System) : Act → Nat
  | .call i _ => if s.parties[i]?.map Call.pc = some (.stopJoin t) then 1 else 0
  | _ => 0

def System.owners (t : Nat) (s : System) : Nat :=
  (if s.shared.producerTask = .task t then 1 else 0) +
    s.parties.countP fun call => call.owned == some t

/-- The owners of a thread, and one for a thread that is still to be created. -/
def System.keepers (t : Nat) (s : System) : Nat :=
  if t < s.shared.threads.length then s.owners t else 1

/-- The stops of thread `t` that wait for it to leave. -/
def System.awaiting (t : Nat) (s : System) : Nat :=
  s.parties.countP fun call => call.pc == .stopJoin t

theorem callStep_flags {i : Nat} {outcome : Run} {shared next : Shared} {call moved : Call}
    (stepped : callStep i outcome shared call = some (next, moved)) (t : Nat) :
    moved.pc = .stopJoin t ↔ call.pc = .stopFlag t := by
  obtain ⟨count, pc⟩ := call
  cases pc with
  | idle | done ret | shown text | crashed locked => contradiction
  | stopFlag u =>
      cases stepped
      exact ⟨fun same => by rw [CallPc.stopJoin.inj same], fun same => by
        rw [CallPc.stopFlag.inj same]⟩
  | startLock | stopLock | statusLock =>
      simp only [callStep] at stepped
      split at stepped
      · contradiction
      · cases stepped
        exact ⟨CallPc.noConfusion, CallPc.noConfusion⟩
  | startCheck | startTest =>
      simp only [callStep] at stepped
      split at stepped <;> cases stepped <;> exact ⟨CallPc.noConfusion, CallPc.noConfusion⟩
  | startRun =>
      cases outcome <;> cases stepped <;> exact ⟨CallPc.noConfusion, CallPc.noConfusion⟩
  | stopJoin u =>
      simp only [callStep] at stepped
      split at stepped
      · cases stepped
        exact ⟨CallPc.noConfusion, CallPc.noConfusion⟩
      · contradiction
  | stopUnlock task =>
      cases task <;> cases stepped <;> exact ⟨CallPc.noConfusion, CallPc.noConfusion⟩
  | statusRead =>
      simp only [callStep] at stepped
      split at stepped
      · cases stepped
        exact ⟨CallPc.noConfusion, CallPc.noConfusion⟩
      · cases stepped
        exact ⟨CallPc.noConfusion, CallPc.noConfusion⟩
      · split at stepped <;> cases stepped <;> exact ⟨CallPc.noConfusion, CallPc.noConfusion⟩
  | startUnlock ret | stopTake | statusUnlock running pid | statusEmit running pid =>
      cases stepped
      exact ⟨CallPc.noConfusion, CallPc.noConfusion⟩

theorem callStep_joins {i : Nat} {outcome : Run} {shared next : Shared} {call moved : Call}
    (stepped : callStep i outcome shared call = some (next, moved)) (t : Nat)
    (was : call.pc = .stopJoin t) : moved.owned = none := by
  simp only [callStep, was] at stepped
  split at stepped
  · cases stepped
    rfl
  · contradiction

/-- What a step of a call does to the owners of a thread that exists: it passes
one on, or returns from `kthread_stop` with the last one. -/
theorem CallEffect.owners_balance {shared next : Shared} {call moved : Call}
    (effect : CallEffect shared call next moved)
    (empty : call.pc = .startRun → shared.producerTask = .null)
    (joins : ∀ u, call.pc = .stopJoin u → moved.owned = none) {t : Nat}
    (known : t < shared.threads.length) :
    (if call.pc = .stopJoin t then 1 else 0) + (if next.producerTask = .task t then 1 else 0) +
        (if moved.owned = some t then 1 else 0) =
      (if shared.producerTask = .task t then 1 else 0) +
        (if call.owned = some t then 1 else 0) := by
  cases effect with
  | passes threads task locked owned run test =>
      have other : call.pc ≠ .stopJoin t := by
        intro was
        have owns : call.owned = some t := by rw [Call.owned, was]
        rw [joins t was, owns] at owned
        contradiction
      rw [if_neg other, task, owned, Nat.zero_add]
  | creates pid was now effect =>
      subst effect
      have differs : shared.threads.length ≠ t := by omega
      simp [Call.owned, was, now, empty was, differs]
  | fails e was now effect =>
      subst effect
      simp [Call.owned, was, now, empty was]
  | clears e was failed now effect =>
      subst effect
      simp [Call.owned, was, now, failed]
  | takes was now effect =>
      subst effect
      cases pointer : shared.producerTask <;> simp [Call.owned, was, now, pointer]
  | flags u was now effect =>
      subst effect
      simp [Call.owned, was, now]
  | joins u was now gone effect =>
      subst effect
      simp [Call.owned, was, now, Nat.add_comm]

theorem CallEffect.threads_length {shared next : Shared} {call moved : Call}
    (effect : CallEffect shared call next moved) :
    next.threads.length = shared.threads.length ∨
      next.threads.length = shared.threads.length + 1 ∧
        next.producerTask = .task shared.threads.length ∧ moved.owned = none := by
  cases effect with
  | passes threads task locked owned run test => exact Or.inl (congrArg List.length threads)
  | creates pid was now effect =>
      subst effect
      exact Or.inr ⟨List.length_append, rfl, by rw [Call.owned, now]⟩
  | fails e was now effect | clears e was failed now effect | takes was now effect
  | joins t was now gone effect =>
      subst effect
      exact Or.inl rfl
  | flags t was now effect =>
      subst effect
      exact Or.inl (List.length_modify _ _ _)

/-- A step of a call creates a thread with its one owner, or keeps the balance. -/
theorem keepers_call {s : System} (custody : Custody s) {i : Nat} {call moved : Call}
    {next : Shared} (found : s.parties[i]? = some call)
    (effect : CallEffect s.shared call next moved)
    (joins : ∀ u, call.pc = .stopJoin u → moved.owned = none) (t : Nat) :
    (if call.pc = .stopJoin t then 1 else 0) +
      System.keepers t ⟨next, s.parties.set i moved⟩ = s.keepers t := by
  have member := List.mem_of_getElem? found
  have counted := countP_set_add (fun c : Call => c.owned == some t) moved found
  have grows := effect.threads_length
  simp only [beq_iff_eq] at counted
  unfold System.keepers System.owners
  dsimp only
  by_cases known : t < s.shared.threads.length
  · have balance := effect.owners_balance (custody.accounted.running call member) joins known
    have still : t < next.threads.length := by omega
    rw [if_pos known, if_pos still]
    omega
  · -- nobody owns a thread that does not exist yet
    have foreign {c : Call} (here : c ∈ s.parties) : c.owned ≠ some t :=
      fun owns => known (custody.accounted.known c here t owns)
    have unowned : s.parties.countP (fun c => c.owned == some t) = 0 :=
      List.countP_eq_zero.mpr fun c here owns => foreign here (beq_iff_eq.mp owns)
    have other : call.pc ≠ .stopJoin t :=
      fun was => foreign member (by rw [Call.owned, was])
    rw [if_neg known, if_neg other]
    rcases grows with same | ⟨oneMore, created, ownsNone⟩
    · rw [same, if_neg known]
    · by_cases new : t = s.shared.threads.length
      · subst new
        rw [if_neg (foreign member), ownsNone, if_neg (by simp)] at counted
        have now : s.shared.threads.length < next.threads.length := by omega
        rw [if_pos now, if_pos created]
        omega
      · have still : ¬ t < next.threads.length := by omega
        rw [if_neg still]

/-- Only the steps of the calls pass a thread on. -/
theorem step_elsewhere {s next : System} {act : Act} (custody : Custody s)
    (stepped : step s act = some next) (other : ∀ i outcome, act ≠ .call i outcome)
    {p : Call → Bool} (owns : ∀ call, p call = true → call.owned ≠ none) :
    next.parties.countP p = s.parties.countP p ∧
      next.shared.producerTask = s.shared.producerTask ∧
      next.shared.threads.length = s.shared.threads.length := by
  have without {call : Call} (ownsNone : call.owned = none) : ¬ p call = true :=
    fun has => owns call has ownsNone
  have spawned {call : Call} (ownsNone : call.owned = none) :
      (s.parties ++ [call]).countP p = s.parties.countP p := by
    rw [List.countP_append, List.countP_singleton, if_neg (without ownsNone), Nat.add_zero]
  cases act with
  | writeControl buf | readStatus =>
      obtain ⟨_, call, entry, rfl⟩ := step_begins rfl stepped
      exact ⟨spawned (atEntry_outside entry).2.1, rfl, rfl⟩
  | call i outcome => exact absurd rfl (other i outcome)
  | thread t ns =>
      obtain ⟨shared, own, rfl⟩ := Option.map_eq_some_iff.mp stepped
      obtain ⟨task, _, _, _, _, _, _, _, threads, _⟩ := threadStep_effect own
      exact ⟨rfl, task, by dsimp only; rw [threads, List.length_set]⟩
  | module failure =>
      cases moduleStep_effect stepped with
      | labels attrs stage effect free =>
          subst effect
          exact ⟨rfl, rfl, rfl⟩
      | enters attrs stage pc entry effect free busy =>
          subst effect
          obtain ⟨first, found, finished⟩ := custody.loader free
          have counted := countP_set_add p ⟨0, pc⟩ found
          have fresh : Call.owned ⟨0, pc⟩ = none := by rcases entry with rfl | rfl <;> rfl
          rw [if_neg (without (finished_outside finished).2.1), if_neg (without fresh)] at counted
          exact ⟨counted, rfl, rfl⟩

theorem stopJoin_owned {call : Call} {t : Nat} (joins : (call.pc == .stopJoin t) = true) :
    call.owned = some t := by
  rw [Call.owned, beq_iff_eq.mp joins]

theorem step_keepers (t : Nat) (s : System) (act : Act) (next : System) (custody : Custody s)
    (stepped : step s act = some next) :
    stopReturns t s act + next.keepers t = s.keepers t + 0 := by
  cases act with
  | call i outcome =>
      obtain ⟨call, shared, moved, found, own, rfl⟩ := Pool.act_eq_some stepped
      have effect := callStep_effect own
      have law := keepers_call custody found effect (callStep_joins own) t
      simp only [stopReturns, found, Option.map_some, Option.some.injEq]
      exact law
  | writeControl buf | readStatus | thread u ns | module failure =>
      obtain ⟨owned, task, threads⟩ := step_elsewhere custody stepped (fun _ _ => Act.noConfusion)
        (p := fun call => call.owned == some t)
        fun call has ownsNone => by rw [ownsNone] at has; exact Bool.false_ne_true has
      unfold System.keepers System.owners
      rw [owned, task, threads]
      exact Nat.zero_add _

theorem step_awaiting (t : Nat) (s : System) (act : Act) (next : System) (custody : Custody s)
    (stepped : step s act = some next) :
    stopReturns t s act + next.awaiting t = s.awaiting t + stopCalls t s act := by
  cases act with
  | call i outcome =>
      obtain ⟨call, shared, moved, found, own, rfl⟩ := Pool.act_eq_some stepped
      have counted := countP_set_add (fun c : Call => c.pc == .stopJoin t) moved found
      have flags := callStep_flags own t
      simp only [beq_iff_eq, flags] at counted
      simp only [stopReturns, stopCalls, System.awaiting, found, Option.map_some,
        Option.some.injEq]
      omega
  | writeControl buf | readStatus | thread u ns | module failure =>
      obtain ⟨joining, _⟩ := step_elsewhere custody stepped (fun _ _ => Act.noConfusion)
        (p := fun call => call.pc == .stopJoin t)
        fun call joins ownsNone => by
          rw [stopJoin_owned joins] at ownsNone
          contradiction
      unfold System.awaiting
      rw [joining]
      exact Nat.add_comm _ _

theorem reachable_custody {acts : List Act} {s : System}
    (ran : run step System.initial acts = some s) : Custody s :=
  invariant_run step_custody custody_initial ran

theorem awaiting_le (s : System) (t : Nat) :
    s.awaiting t ≤ s.parties.countP fun call => call.owned == some t :=
  List.countP_mono_left fun _ _ joins => beq_iff_eq.mpr (stopJoin_owned joins)

/-- Along a run a thread was stopped, is owned, or does not exist yet. -/
theorem returns_add_keepers {acts : List Act} {s : System}
    (ran : run step System.initial acts = some s) (t : Nat) :
    tally step (stopReturns t) System.initial acts + s.keepers t = 1 := by
  have law := tally_add_potential_eq step_custody (step_keepers t) custody_initial ran
  rw [tally_zero] at law
  exact law

theorem calls_eq {acts : List Act} {s : System} (ran : run step System.initial acts = some s)
    (t : Nat) : tally step (stopReturns t) System.initial acts + s.awaiting t =
      tally step (stopCalls t) System.initial acts := by
  have law := tally_add_potential_eq step_custody (step_awaiting t) custody_initial ran
  exact law.trans (Nat.zero_add _)

/-- No stop of a thread in `producer_task` has begun. -/
theorem stopCalls_of_current {acts : List Act} {s : System}
    (ran : run step System.initial acts = some s) {t : Nat}
    (current : s.shared.producerTask = .task t) :
    tally step (stopCalls t) System.initial acts = 0 := by
  have custody := reachable_custody ran
  obtain ⟨⟨thread, here, _⟩, _⟩ := custody.accounted.current t current
  have known := (List.getElem?_eq_some_iff.mp here).1
  have kept := returns_add_keepers ran t
  have called := calls_eq ran t
  have waiting := awaiting_le s t
  rw [System.keepers, if_pos known, System.owners, if_pos current] at kept
  omega

theorem stopCalls_le_one {acts : List Act} {s : System}
    (ran : run step System.initial acts = some s) (t : Nat) :
    tally step (stopCalls t) System.initial acts ≤ 1 := by
  have custody := reachable_custody ran
  have kept := returns_add_keepers ran t
  have called := calls_eq ran t
  have waiting := awaiting_le s t
  unfold System.keepers System.owners at kept
  split at kept
  · omega
  · rename_i unknown
    have unowned : (s.parties.countP fun call => call.owned == some t) = 0 := by
      refine List.countP_eq_zero.mpr fun call member owns => unknown ?_
      exact custody.accounted.known call member t (beq_iff_eq.mp owns)
    omega

/-! ## The lock and the failing start -/

/-- `status_show` holds the lock. -/
def Call.showsStatus (call : Call) : Bool :=
  match call.pc with
  | .statusRead | .statusUnlock _ _ => true
  | _ => false

theorem Custody.current_or_null {s : System} (custody : Custody s)
    (free : s.shared.producerTaskLock = false ∨ ∃ call ∈ s.parties, call.showsStatus = true) :
    s.shared.producerTask = .null ∨ ∃ t, s.shared.producerTask = .task t := by
  cases pointer : s.shared.producerTask with
  | null => exact Or.inl rfl
  | task t => exact Or.inr ⟨t, rfl⟩
  | err e =>
      exfalso
      rcases free with free | ⟨call, member, shows⟩
      · obtain ⟨failing, member, atTest⟩ := custody.accounted.failing e pointer
        have inside : 0 < s.parties.countP Call.holds :=
          List.countP_pos_iff.mpr ⟨failing, member, by simp only [Call.holds, atTest]⟩
        rw [custody.accounted.exclusive.locked inside] at free
        contradiction
      · obtain ⟨i, found⟩ := List.mem_iff_getElem?.mp member
        have inside : call.holds = true ∧ call.pc ≠ .startTest := by
          obtain ⟨count, pc⟩ := call
          cases pc <;> first | exact ⟨rfl, CallPc.noConfusion⟩ | contradiction
        exact custody.accounted.no_error found inside.1 inside.2 e pointer

/-- Call `i` is a start whose `kthread_run` failed with `e`, under the lock. -/
def CleansUp (i : Nat) (e : Errno) (s : System) : Prop :=
  ∃ call, s.parties[i]? = some call ∧
    (call.pc = .startTest ∧ s.shared.producerTask = .err e ∨
      call.pc = .startUnlock e.code ∧ s.shared.producerTask = .null)

/-- Call `i` has released the lock with `producer_task` NULL. -/
def CleanedUp (i : Nat) (e : Errno) (s : System) : Prop :=
  ∃ call, s.parties[i]? = some call ∧ call.pc = .done e.code ∧
    s.shared.producerTask = .null ∧ s.shared.producerTaskLock = false

theorem CallEffect.task_of_outside {shared next : Shared} {call moved : Call}
    (effect : CallEffect shared call next moved) (outside : call.holds = false) :
    next.producerTask = shared.producerTask := by
  have never {pc : CallPc} (was : call.pc = pc) (inside : Call.holds ⟨0, pc⟩ = true) : False := by
    rw [← was] at inside
    exact Bool.false_ne_true (outside.symm.trans inside)
  cases effect with
  | passes threads task locked owned run test => exact task
  | creates pid was now effect => exact (never was rfl).elim
  | fails e was now effect => exact (never was rfl).elim
  | clears e was failed now effect => exact (never was rfl).elim
  | takes was now effect => exact (never was rfl).elim
  | flags t was now effect =>
      subst effect
      rfl
  | joins t was now gone effect => exact congrArg Shared.producerTask effect

/-- A call in progress moves by its own steps only. -/
theorem step_keeps_call {s next : System} {act : Act} (custody : Custody s)
    (stepped : step s act = some next) {i : Nat} {call : Call} (found : s.parties[i]? = some call)
    (live : call.finished = false) (other : ∀ outcome, act ≠ .call i outcome) :
    next.parties[i]? = some call := by
  cases act with
  | writeControl buf | readStatus =>
      obtain ⟨_, fresh, _, rfl⟩ := step_begins rfl stepped
      exact getElem?_spawn_old found fresh
  | call j outcome =>
      obtain ⟨mover, shared, moved, moverFound, own, rfl⟩ := Pool.act_eq_some stepped
      have differs : j ≠ i := by
        rintro rfl
        exact other outcome rfl
      exact (List.getElem?_set_ne differs).trans found
  | thread t ns =>
      obtain ⟨shared, own, rfl⟩ := Option.map_eq_some_iff.mp stepped
      exact found
  | module failure =>
      cases moduleStep_effect stepped with
      | labels attrs stage effect free =>
          subst effect
          exact found
      | enters attrs stage pc entry effect free busy =>
          subst effect
          obtain ⟨first, firstFound, finished⟩ := custody.loader free
          have differs : 0 ≠ i := by
            rintro rfl
            cases Option.some.inj (firstFound.symm.trans found)
            exact Bool.false_ne_true (live.symm.trans finished)
          exact (List.getElem?_set_ne differs).trans found

/-- Whoever holds the lock is the only one to change `producer_task`. -/
theorem step_keeps_task {s next : System} {act : Act} (custody : Custody s)
    (stepped : step s act = some next) {i : Nat} {call : Call} (found : s.parties[i]? = some call)
    (inside : call.holds = true) (other : ∀ outcome, act ≠ .call i outcome) :
    next.shared.producerTask = s.shared.producerTask := by
  cases act with
  | call j outcome =>
      obtain ⟨mover, shared, moved, moverFound, own, rfl⟩ := Pool.act_eq_some stepped
      refine (callStep_effect own).task_of_outside (Bool.eq_false_of_not_eq_true fun holds => ?_)
      have same := eq_of_countP_le_one Call.holds found moverFound inside holds
        custody.accounted.exclusive.le_one
      subst same
      exact other outcome rfl
  | writeControl buf | readStatus | thread t ns | module failure =>
      exact (step_elsewhere custody stepped (fun _ _ => Act.noConfusion)
        (p := fun _ => false) fun _ never => absurd never Bool.false_ne_true).2.1

theorem step_cleansUp (i : Nat) (e : Errno) (s : System) (act : Act) (next : System)
    (here : Custody s ∧ CleansUp i e s) (stepped : step s act = some next) :
    (Custody next ∧ CleansUp i e next) ∨ CleanedUp i e next := by
  obtain ⟨custody, call, found, point⟩ := here
  have later := step_custody s act next custody stepped
  have inside : call.holds = true ∧ call.finished = false := by
    obtain ⟨count, pc⟩ := call
    rcases point with ⟨rfl, _⟩ | ⟨rfl, _⟩ <;> exact ⟨rfl, rfl⟩
  by_cases own : ∃ outcome, act = .call i outcome
  · obtain ⟨outcome, rfl⟩ := own
    obtain ⟨mover, shared, moved, moverFound, own, rfl⟩ := Pool.act_eq_some stepped
    cases Option.some.inj (moverFound.symm.trans found)
    have bound := (List.getElem?_eq_some_iff.mp found).1
    rcases point with ⟨atTest, failed⟩ | ⟨atUnlock, cleared⟩
    · simp only [callStep, atTest, failed] at own
      cases own
      exact Or.inl ⟨later, _, List.getElem?_set_self bound, Or.inr ⟨rfl, rfl⟩⟩
    · simp only [callStep, atUnlock] at own
      cases own
      exact Or.inr ⟨_, List.getElem?_set_self bound, rfl, cleared, rfl⟩
  · have other : ∀ outcome, act ≠ .call i outcome := fun outcome same => own ⟨outcome, same⟩
    have stays := step_keeps_call custody stepped found inside.2 other
    have task := step_keeps_task custody stepped found inside.1 other
    refine Or.inl ⟨later, call, stays, ?_⟩
    rw [task]
    exact point

/-- Two steps of the call that failed are all it takes. -/
theorem CleansUp.finishes {i : Nat} {e : Errno} {s : System} (cleansUp : CleansUp i e s) :
    ∃ own last, own.length ≤ 2 ∧ (∀ act ∈ own, act = .call i (.error e)) ∧
      run step s own = some last ∧ CleanedUp i e last := by
  have unlocks {s : System} {call : Call} (found : s.parties[i]? = some call)
      (atUnlock : call.pc = .startUnlock e.code) (cleared : s.shared.producerTask = .null) :
      ∃ last, step s (.call i (.error e)) = some last ∧ CleanedUp i e last := by
    have bound := (List.getElem?_eq_some_iff.mp found).1
    refine ⟨⟨{ s.shared with producerTaskLock := false },
      s.parties.set i ⟨call.count, .done e.code⟩⟩, ?_, _, List.getElem?_set_self bound, rfl,
      cleared, rfl⟩
    simp only [step, Pool.act, found, callStep, atUnlock]
  obtain ⟨call, found, ⟨atTest, failed⟩ | ⟨atUnlock, cleared⟩⟩ := cleansUp
  · have bound := (List.getElem?_eq_some_iff.mp found).1
    obtain ⟨last, unlocked, cleanedUp⟩ := unlocks
      (s := ⟨{ s.shared with producerTask := .null },
        s.parties.set i ⟨call.count, .startUnlock e.code⟩⟩)
      (List.getElem?_set_self bound) rfl rfl
    refine ⟨[.call i (.error e), .call i (.error e)], last, Nat.le_refl 2, ?_, ?_, cleanedUp⟩
    · intro act member
      rcases List.mem_pair.mp member with rfl | rfl <;> rfl
    · refine (run_cons_eq_some step).mpr ⟨_, ?_, (run_cons_eq_some step).mpr ⟨last, unlocked, rfl⟩⟩
      simp only [step, Pool.act, found, callStep, atTest, failed]
  · obtain ⟨last, unlocked, cleanedUp⟩ := unlocks found atUnlock cleared
    refine ⟨[.call i (.error e)], last, Nat.le_succ 1, ?_, ?_, cleanedUp⟩
    · intro act member
      exact List.mem_singleton.mp member
    · exact (run_cons_eq_some step).mpr ⟨last, unlocked, rfl⟩

/-- A failed `kthread_run` leaves `producer_task` NULL when its call unlocks. -/
theorem failed_start_cleans_up {s next last : System} {i : Nat} {call : Call} {e : Errno}
    (custody : Custody s) (found : s.parties[i]? = some call) (runs : call.pc = .startRun)
    (stepped : step s (.call i (.error e)) = some next) {later : List Act}
    (ran : run step next later = some last) :
    CleansUp i e last ∨ ∃ front middle, front <+: later ∧ run step next front = some middle ∧
      CleanedUp i e middle := by
  have start : CleansUp i e next := by
    obtain ⟨mover, shared, moved, moverFound, own, rfl⟩ := Pool.act_eq_some stepped
    cases Option.some.inj (moverFound.symm.trans found)
    simp only [callStep, runs] at own
    cases own
    have bound := (List.getElem?_eq_some_iff.mp found).1
    exact ⟨_, List.getElem?_set_self bound, Or.inl ⟨rfl, rfl⟩⟩
  have kept := until_run (step_cleansUp i e)
    ⟨step_custody s _ next custody stepped, start⟩ ran
  exact kept.imp_left And.right

/-- The start that failed with `e` ends with `producer_task` NULL: at `s` it has,
or its own next two steps do it. -/
def LeavesNull (i : Nat) (e : Errno) (start : System) (later : List Act) (s : System) : Prop :=
  (∃ own last, own.length ≤ 2 ∧ (∀ act ∈ own, act = .call i (.error e)) ∧
    run step s own = some last ∧ CleanedUp i e last) ∨
  ∃ front middle, front <+: later ∧ run step start front = some middle ∧ CleanedUp i e middle

/-- **Ownership.** Along every run each thread goes to `kthread_stop` at most
once; until that returns it has exactly one owner; `producer_task`, when its
lock is free or `status_show` has it, is NULL or a thread nobody has stopped;
no call ends up with an error pointer; and a failed `kthread_run` leaves
`producer_task` NULL. -/
theorem producer_ownership (acts : List Act) (s : System)
    (ran : run step System.initial acts = some s) :
    (∀ t, tally step (stopCalls t) System.initial acts ≤ 1) ∧
      (∀ t < s.shared.threads.length, tally step (stopReturns t) System.initial acts = 0 →
        s.owners t = 1) ∧
      ((s.shared.producerTaskLock = false ∨ ∃ call ∈ s.parties, call.showsStatus = true) →
        s.shared.producerTask = .null ∨ ∃ t thread, s.shared.producerTask = .task t ∧
          s.shared.threads[t]? = some thread ∧ thread.pc ≠ .exited ∧
          thread.shouldStop = false ∧ tally step (stopCalls t) System.initial acts = 0) ∧
      (∀ call ∈ s.parties, ∀ locked, call.pc ≠ .crashed locked) ∧
      ∀ i call e next, s.parties[i]? = some call → call.pc = .startRun →
        step s (.call i (.error e)) = some next →
        ∀ later last, run step next later = some last → LeavesNull i e next later last := by
  have custody := reachable_custody ran
  refine ⟨stopCalls_le_one ran, ?_, ?_, ?_, ?_⟩
  · intro t known unstopped
    have kept := returns_add_keepers ran t
    rw [unstopped, System.keepers, if_pos known, Nat.zero_add] at kept
    exact kept
  · intro free
    rcases custody.current_or_null free with null | ⟨t, current⟩
    · exact Or.inl null
    · obtain ⟨⟨thread, here, alive, untold⟩, _⟩ := custody.accounted.current t current
      exact Or.inr ⟨t, thread, current, here, alive, untold, stopCalls_of_current ran current⟩
  · intro call member locked crashed
    have intact := custody.intact call member
    rw [Call.intact, crashed] at intact
    exact Bool.false_ne_true intact
  · intro i call e next found runs stepped later last ran
    exact (failed_start_cleans_up custody found runs stepped ran).imp_left CleansUp.finishes

/-- Init's start creates a thread, a stop takes it away, and the next start fails. -/
def ownershipActs : List Act :=
  registrations ++ loaderSteps 5 ++ [.module none, .thread 0 0, .writeControl (ascii "stop")] ++
    List.replicate 4 (.call 1 (.ok 0)) ++ [.thread 0 0, .call 1 (.ok 0),
    .writeControl (ascii "start")] ++ List.replicate 3 (.call 2 (.error .enomem))

theorem producer_ownership_of_one_stop :
    (run step System.initial ownershipActs).isSome = true ∧
      ∀ t, tally step (stopCalls t) System.initial ownershipActs ≤ 1 :=
  have enabled : (run step System.initial ownershipActs).isSome = true := by decide +kernel
  ⟨enabled, (producer_ownership ownershipActs _ (run_get step _ _ enabled)).1⟩

end Kthreads.Lifecycle
