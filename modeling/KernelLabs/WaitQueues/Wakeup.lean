import KernelLabs.WaitQueues.EventQueue

/-!
# No lost wake-up

A reader that found the flag clear has already marked itself sleeping on the
queue.  A producer that sets the flag afterwards still has its wake-up ahead of
it, and the wake-up takes the reader off the queue wherever it stands between
its test and its sleep.
-/

set_option autoImplicit false

namespace WaitQueues

open Kernel LabelledMachine PartyPool

/-- A producer between its store of the flag and its wake-up. -/
def Party.waking : Party → Bool
  | .producer .wake => true
  | _ => false

/-- A reader that tested the flag as clear and has not come back from the
scheduler. -/
def Party.committed : Party → Bool
  | .file f => match f.pc with
    | .schedule _ => true
    | .blocked _ => true
    | _ => false
  | _ => false

/-- A reader between its increment and its decrement of `waiter_count`. -/
def Party.waiting : Party → Bool
  | .file f => match f.pc with
    | .idle => false
    | .exchange _ => false
    | .incWaiters _ => false
    | .fetch _ => false
    | _ => true
  | _ => false

def Party.waiters (party : Party) : Nat := if party.waiting then 1 else 0

/-- The reader left the CPU and is still marked sleeping. -/
def System.blocked (s : System) (i : Nat) : Prop :=
  ∃ f count, s.parties[i]? = some (.file f) ∧ f.pc = .blocked count ∧ i ∈ s.shared.eventWq

structure Awake (s : System) : Prop where
  covered : s.shared.dataReady = true → ∀ i party, s.parties[i]? = some party →
    party.committed = true → i ∈ s.shared.eventWq → ∃ other ∈ s.parties, other.waking = true
  counted : s.shared.waiterCount = s.parties.countP Party.waiting

/-- Everything a party's step can do to the queue, the flag and the count. -/
structure QueueEffect (i : Nat) (shared : Shared) (party : Party) (next : Shared)
    (moved : Party) : Prop where
  others : ∀ j ≠ i, j ∈ next.eventWq → j ∈ shared.eventWq
  wakes : party.waking = true → next.eventWq = []
  raises : next.dataReady = true → shared.dataReady = true ∨ moved.waking = true
  commits : moved.committed = true → i ∈ next.eventWq → next.dataReady = true →
    party.committed = true ∧ i ∈ shared.eventWq
  counts : next.waiterCount + party.waiters = shared.waiterCount + moved.waiters

theorem producerStep_queue {i : Nat} {shared next : Shared} {pc after : ProducerPc}
    (stepped : producerStep shared pc = some (next, after)) :
    QueueEffect i shared (.producer pc) next (.producer after) := by
  cases pc with
  | increment =>
      cases stepped
      exact ⟨fun _ _ queued => queued, nofun, Or.inl, nofun, rfl⟩
  | setReady =>
      cases stepped
      exact ⟨fun _ _ queued => queued, nofun, fun _ => Or.inr rfl, nofun, rfl⟩
  | wake =>
      cases stepped
      exact ⟨nofun, fun _ => rfl, Or.inl, nofun, rfl⟩
  | done => contradiction

/-- The steps of a reader that neither touch the queue nor enter the scheduler
from a test that found the flag set. -/
theorem QueueEffect.quiet {i : Nat} {shared next : Shared} {f after : File}
    (queue : next.eventWq = shared.eventWq)
    (flag : next.dataReady = true → shared.dataReady = true)
    (commits : Party.committed (.file after) = true → next.dataReady = true →
      Party.committed (.file f) = true)
    (counts : next.waiterCount + Party.waiters (.file f) =
      shared.waiterCount + Party.waiters (.file after)) :
    QueueEffect i shared (.file f) next (.file after) :=
  ⟨fun _ _ queued => queue ▸ queued, nofun, fun ready => Or.inl (flag ready),
    fun committed queued ready => ⟨commits committed ready, queue ▸ queued⟩, counts⟩

/-- Such a step that leaves the reader out of the scheduler. -/
theorem QueueEffect.awake {i : Nat} {shared next : Shared} {f after : File}
    (queue : next.eventWq = shared.eventWq)
    (flag : next.dataReady = true → shared.dataReady = true)
    (awake : Party.committed (.file after) = false)
    (counts : next.waiterCount + Party.waiters (.file f) =
      shared.waiterCount + Party.waiters (.file after)) :
    QueueEffect i shared (.file f) next (.file after) :=
  .quiet queue flag (fun committed => absurd (awake.symm.trans committed) Bool.false_ne_true) counts

/-- A reader's step that changes its own place in the queue. -/
theorem QueueEffect.requeues {i : Nat} {shared next : Shared} {f after : File}
    (others : ∀ j ≠ i, j ∈ next.eventWq → j ∈ shared.eventWq)
    (flag : next.dataReady = shared.dataReady) (awake : Party.committed (.file after) = false)
    (counts : next.waiterCount + Party.waiters (.file f) =
      shared.waiterCount + Party.waiters (.file after)) :
    QueueEffect i shared (.file f) next (.file after) :=
  ⟨others, nofun, fun ready => Or.inl (flag ▸ ready),
    fun committed => absurd (awake.symm.trans committed) Bool.false_ne_true, counts⟩

theorem readStep_queue {i : Nat} {shared next : Shared} {f after : File}
    (stepped : readStep i shared f = some (next, after)) :
    QueueEffect i shared (.file f) next (.file after) := by
  obtain ⟨ppos, nonblock, signaled, pc⟩ := f
  cases pc with
  | idle => contradiction
  | exchange count =>
      simp only [readStep] at stepped
      split at stepped
      · cases stepped
        exact .awake rfl (fun ready => absurd ready Bool.false_ne_true) rfl rfl
      · split at stepped <;> cases stepped <;> exact .awake rfl id rfl rfl
  | incWaiters count =>
      cases stepped
      exact .awake rfl id rfl (by simp [Party.waiters, Party.waiting])
  | precheck count =>
      simp only [readStep] at stepped
      split at stepped <;> cases stepped <;> exact .awake rfl id rfl rfl
  | prepare count =>
      simp only [readStep] at stepped
      split at stepped
      · cases stepped
        exact .awake rfl id rfl rfl
      · cases stepped
        refine .requeues ?_ rfl rfl rfl
        intro j other queued
        exact (List.mem_cons.mp queued).resolve_left other
  | test interrupted count =>
      simp only [readStep] at stepped
      split at stepped
      · cases stepped
        exact .awake rfl id rfl rfl
      · rename_i unset
        split at stepped <;> cases stepped
        · exact .awake rfl id rfl rfl
        -- the test that leads to the scheduler found the flag unset
        · exact .quiet rfl id (fun _ ready => absurd ready unset) rfl
  | schedule count =>
      simp only [readStep] at stepped
      split at stepped <;> cases stepped
      · exact .quiet rfl id (fun _ _ => rfl) rfl
      · exact .awake rfl id rfl rfl
  | blocked count =>
      simp only [readStep] at stepped
      split at stepped
      · contradiction
      · cases stepped
        exact .awake rfl id rfl rfl
  | finish interrupted count =>
      cases stepped
      refine .requeues ?_ rfl rfl rfl
      intro j _ queued
      exact (List.mem_filter.mp queued).1
  | decWaiters interrupted count =>
      cases stepped
      cases interrupted <;> exact .awake rfl id rfl (by simp [Party.waiters, Party.waiting])
  | fetch count =>
      cases stepped
      exact .awake rfl id rfl rfl

theorem partyStep_queue {i : Nat} {input : Input} {shared next : Shared} {party moved : Party}
    (stepped : partyStep i input shared party = some (next, moved)) :
    QueueEffect i shared party next moved := by
  cases party with
  | producer pc =>
      cases input with
      | go =>
          obtain ⟨⟨after, afterPc⟩, own, same⟩ := Option.map_eq_some_iff.mp stepped
          cases same
          exact producerStep_queue own
      | read count => contradiction
      | signal => contradiction
  | file f =>
      cases input with
      | go =>
          obtain ⟨⟨after, afterFile⟩, own, same⟩ := Option.map_eq_some_iff.mp stepped
          cases same
          exact readStep_queue own
      | read count =>
          simp only [partyStep] at stepped
          split at stepped
          · rename_i idle
            cases stepped
            obtain ⟨ppos, nonblock, signaled, pc⟩ := f
            cases idle
            exact .awake rfl id rfl rfl
          · contradiction
      | signal =>
          cases stepped
          refine ⟨?_, fun waking => absurd waking Bool.false_ne_true, Or.inl, ?_, rfl⟩
          · intro j _ queued
            exact (List.mem_filter.mp queued).1
          · intro committed queued _
            exact ⟨committed, (List.mem_filter.mp queued).1⟩

theorem awake_initial : Awake System.initial :=
  ⟨fun ready => absurd ready Bool.false_ne_true, rfl⟩

theorem Awake.spawn {s : System} (awake : Awake s) {party : Party}
    (quiet : party.committed = false ∧ party.waiting = false) : Awake (s.spawn party) := by
  constructor
  · intro ready i other found committed queued
    rcases getElem?_spawn_cases found with old | ⟨_, rfl⟩
    · obtain ⟨waker, member, waking⟩ := awake.covered ready i other old committed queued
      exact ⟨waker, List.mem_append_left _ member, waking⟩
    · rw [quiet.1] at committed
      contradiction
  · simp only [Pool.spawn, List.countP_append, List.countP_singleton, quiet.2,
      Bool.false_eq_true, if_false, Nat.add_zero]
    exact awake.counted

theorem Awake.act {s : System} (awake : Awake s) {i : Nat} {party moved : Party} {next : Shared}
    (found : s.parties[i]? = some party) (effect : QueueEffect i s.shared party next moved) :
    Awake ⟨next, s.parties.set i moved⟩ := by
  constructor
  · intro ready j other otherFound committed queued
    rcases effect.raises ready with readyBefore | waking
    · by_cases wasWaking : party.waking = true
      · rw [effect.wakes wasWaking] at queued
        contradiction
      -- the waker is another party, so it still stands before its wake-up
      · have wasQueued : ∃ sleeper, s.parties[j]? = some sleeper ∧
            sleeper.committed = true ∧ j ∈ s.shared.eventWq := by
          rcases getElem?_set_cases otherFound with ⟨rfl, rfl⟩ | ⟨elsewhere, here⟩
          · exact ⟨party, found, effect.commits committed queued ready⟩
          · exact ⟨other, here, committed, effect.others j elsewhere queued⟩
        obtain ⟨sleeper, sleeperFound, asleep, wasOn⟩ := wasQueued
        obtain ⟨waker, member, waking⟩ :=
          awake.covered readyBefore j sleeper sleeperFound asleep wasOn
        refine ⟨waker, mem_set_of_ne found member ?_, waking⟩
        rintro rfl
        exact wasWaking waking
    · exact ⟨moved, moved_mem_set found, waking⟩
  · have counted := countP_set_add Party.waiting moved found
    have before := awake.counted
    have counts := effect.counts
    unfold Party.waiters at counts
    dsimp only
    omega

theorem Awake.step {s next : System} {act : Act} (awake : Awake s)
    (stepped : WaitQueues.step s act = some next) : Awake next := by
  cases act with
  | produce =>
      cases Option.some.inj stepped
      exact awake.spawn ⟨rfl, rfl⟩
  | openFile nonblock =>
      cases Option.some.inj stepped
      exact awake.spawn ⟨rfl, rfl⟩
  | party i input =>
      obtain ⟨party, shared, moved, found, own, rfl⟩ := Pool.act_eq_some stepped
      exact awake.act found (partyStep_queue own)

/-- In every state the system reaches, a set flag that no producer is about to
announce leaves no reader blocked, and `waiter_count` is the number of readers
between their increment and their decrement. -/
theorem no_reader_blocked_and_waiters_counted {s : System} {acts : List Act}
    (ran : run WaitQueues.step System.initial acts = some s) :
    (s.shared.dataReady = true → (∀ party ∈ s.parties, party.waking = false) →
        ∀ i, ¬ s.blocked i) ∧
      s.shared.waiterCount = s.parties.countP Party.waiting := by
  have awake : Awake s :=
    invariant_run (fun _ _ _ awake stepped => awake.step stepped) awake_initial ran
  refine ⟨?_, awake.counted⟩
  rintro ready settled i ⟨f, count, found, pc, queued⟩
  have committed : Party.committed (.file f) = true := by simp only [Party.committed, pc]
  obtain ⟨waker, member, waking⟩ := awake.covered ready i _ found committed queued
  rw [settled waker member] at waking
  contradiction

/-- The producer's store and wake-up both fall between the reader's test and its
sleep. -/
theorem no_reader_blocked_and_waiters_counted_one :
    ∃ s, run WaitQueues.step System.initial
        [.openFile false, .party 0 (.read 64), .party 0 .go, .party 0 .go, .party 0 .go,
          .party 0 .go, .party 0 .go, .produce, .party 1 .go, .party 1 .go, .party 1 .go] =
        some s ∧
      s.shared.dataReady = true ∧ ¬ s.blocked 0 ∧ s.shared.waiterCount = 1 := by
  have ran := run_get WaitQueues.step System.initial
    [.openFile false, .party 0 (.read 64), .party 0 .go, .party 0 .go, .party 0 .go,
      .party 0 .go, .party 0 .go, .produce, .party 1 .go, .party 1 .go, .party 1 .go]
    (by decide +kernel)
  have awake := no_reader_blocked_and_waiters_counted ran
  exact ⟨_, ran, by decide +kernel,
    awake.1 (by decide +kernel) (by decide +kernel) 0, awake.2.trans (by decide +kernel)⟩

end WaitQueues
