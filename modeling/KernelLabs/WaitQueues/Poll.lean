import KernelLabs.WaitQueues.Wakeup

/-!
# Polling `/dev/blocking_demo`

A poller is a task inside `poll` on one open file.  `bq_poll` puts it on
`event_wq` and then reads `data_ready`; the VFS sleeps only when that read found
nothing, and calls `bq_poll` again each time it wakes.  On those later calls
`poll_wait` does nothing.  The entry stays on the queue until `poll` returns,
and every wake-up marks the task as triggered wherever it stands, so a task
that is about to sleep does not.

The readers and producers are those of `EventQueue`, unchanged; their wake-up
reaches the pollers too.
-/

set_option autoImplicit false

namespace WaitQueues

open Kernel LabelledMachine PartyPool

inductive PollPc where
  -- `bq_poll`: `poll_wait`, then `atomic_read(&data_ready)`.
  | pollWait
  | test
  -- The VFS: return, or sleep and call `bq_poll` once more.
  | decide
  | schedule
  | blocked
  | freewait (mask : Bool)
  | returned (mask : Bool)
  deriving DecidableEq, Repr

structure Poller where
  queued : Bool
  triggered : Bool
  signaled : Bool
  timedOut : Bool
  pc : PollPc
  deriving DecidableEq, Repr

inductive PollInput where
  | go
  | signal
  | timeout
  deriving DecidableEq, Repr

def Poller.initial : Poller := ⟨false, false, false, false, .pollWait⟩

/-- Something has ended the sleep. -/
def Poller.roused (poller : Poller) : Bool :=
  poller.triggered || poller.signaled || poller.timedOut

/-- The next step of `poll` on a device whose `data_ready` is `ready`. -/
def Poller.go (ready : Bool) (poller : Poller) : Option Poller :=
  match poller.pc with
  | .pollWait => some { poller with queued := true, pc := .test }
  | .test => some { poller with pc := if ready then .freewait true else .decide }
  | .decide =>
    some { poller with
      pc := if poller.signaled || poller.timedOut then .freewait false else .schedule }
  | .schedule =>
    if poller.roused then some { poller with triggered := false, pc := .test }
    else some { poller with pc := .blocked }
  | .blocked =>
    if poller.roused then some { poller with triggered := false, pc := .test } else none
  | .freewait mask => some { poller with queued := false, pc := .returned mask }
  | .returned _ => none

def pollerStep (_ : Nat) (input : PollInput) (s : System) (poller : Poller) :
    Option (System × Poller) :=
  match input with
  | .go => (poller.go s.shared.dataReady).map fun next => (s, next)
  | .signal => some (s, { poller with signaled := true })
  | .timeout => some (s, { poller with timedOut := true })

/-- `wake_up_interruptible` on the entry of a poller. -/
def Poller.wake (poller : Poller) : Poller :=
  { poller with triggered := poller.triggered || poller.queued }

/-- The driver and the tasks polling it. -/
abbrev Polled := Pool System Poller

def Polled.initial : Polled := ⟨System.initial, []⟩

inductive PollAct where
  | driver (act : Act)
  | poll
  | poller (i : Nat) (input : PollInput)
  deriving DecidableEq, Repr

/-- The step is a producer's wake-up. -/
def System.wakes (s : System) (act : Act) : Bool :=
  match s.goes act with
  | some party => party.waking
  | none => false

def pollStep (p : Polled) : PollAct → Option Polled
  | .driver act => (step p.shared act).map fun next =>
      ⟨next, if p.shared.wakes act then p.parties.map Poller.wake else p.parties⟩
  | .poll => some (p.spawn Poller.initial)
  | .poller i input => p.act pollerStep i input

/-! ## No event is slept over -/

/-- It read the flag as clear and has not come back to read it again. -/
def Poller.committed (poller : Poller) : Bool :=
  match poller.pc with
  | .decide | .schedule | .blocked => true
  | _ => false

/-- `poll` has left the CPU and nothing has roused it. -/
def Poller.asleep (poller : Poller) : Bool :=
  match poller.pc with
  | .blocked => !poller.roused
  | _ => false

structure PollAwake (p : Polled) : Prop where
  enrolled : ∀ poller ∈ p.parties,
    (poller.pc = .test ∨ poller.committed = true) → poller.queued = true
  honest : ∀ poller ∈ p.parties, (poller.pc = .freewait false ∨ poller.pc = .returned false) →
    poller.signaled = true ∨ poller.timedOut = true
  covered : p.shared.shared.dataReady = true → ∀ poller ∈ p.parties,
    poller.committed = true → poller.triggered = false →
      ∃ party ∈ p.shared.parties, party.waking = true

/-- Whatever the driver does, a set flag was set before or has its wake-up
ahead, and a wake-up ahead is still ahead or was this step. -/
theorem step_waking {s next : System} {act : Act} (stepped : step s act = some next) :
    (next.shared.dataReady = true →
      s.shared.dataReady = true ∨ ∃ party ∈ next.parties, party.waking = true) ∧
    ((∃ party ∈ s.parties, party.waking = true) → s.wakes act = false →
      ∃ party ∈ next.parties, party.waking = true) := by
  cases act with
  | produce | openFile nonblock =>
      cases Option.some.inj stepped
      refine ⟨Or.inl, ?_⟩
      rintro ⟨party, member, waking⟩ _
      exact ⟨party, List.mem_append_left _ member, waking⟩
  | party i input =>
      obtain ⟨party, shared, moved, found, own, rfl⟩ := Pool.act_eq_some stepped
      have effect := partyStep_queue own
      constructor
      · intro ready
        rcases effect.raises ready with before | waking
        · exact Or.inl before
        · exact Or.inr ⟨moved, moved_mem_set found, waking⟩
      · rintro ⟨other, member, waking⟩ others
        by_cases same : other = party
        · subst same
          -- a producer at its wake-up has no other step
          cases input with
          | go =>
              have isWake : s.wakes (.party i .go) = true := by
                simp only [System.wakes, System.goes, found, waking]
              exact absurd (isWake.symm.trans others) (by decide)
          | read count | signal =>
              cases other with
              | producer pc => contradiction
              | file f => contradiction
        · exact ⟨other, mem_set_of_ne found member same, waking⟩

theorem pollAwake_initial : PollAwake Polled.initial :=
  ⟨nofun, nofun, fun ready => absurd ready (by decide)⟩

theorem PollAwake.driver {p : Polled} (awake : PollAwake p) {act : Act} {next : System}
    (stepped : step p.shared act = some next) :
    PollAwake ⟨next, if p.shared.wakes act then p.parties.map Poller.wake else p.parties⟩ := by
  obtain ⟨raised, ahead⟩ := step_waking stepped
  by_cases wakes : p.shared.wakes act = true
  · rw [if_pos wakes]
    refine ⟨?_, ?_, ?_⟩
    · intro poller member there
      obtain ⟨before, old, rfl⟩ := List.mem_map.mp member
      exact awake.enrolled before old there
    · intro poller member there
      obtain ⟨before, old, rfl⟩ := List.mem_map.mp member
      exact awake.honest before old there
    · intro _ poller member committed calm
      obtain ⟨before, old, rfl⟩ := List.mem_map.mp member
      have queued := awake.enrolled before old (Or.inr committed)
      simp [Poller.wake, queued] at calm
  · rw [if_neg wakes]
    refine ⟨awake.enrolled, awake.honest, ?_⟩
    intro ready poller member committed calm
    rcases raised ready with before | waking
    · exact ahead (awake.covered before poller member committed calm) (by simpa using wakes)
    · exact waking

theorem go_cases {ready : Bool} {poller next : Poller} (went : poller.go ready = some next) :
    (poller.pc = .pollWait ∧ next = { poller with queued := true, pc := .test }) ∨
      (poller.pc = .test ∧
        next = { poller with pc := if ready then .freewait true else .decide }) ∨
      (poller.pc = .decide ∧ next = { poller with
        pc := if poller.signaled || poller.timedOut then .freewait false else .schedule }) ∨
      (poller.pc = .schedule ∧ poller.roused = false ∧ next = { poller with pc := .blocked }) ∨
      ((poller.pc = .schedule ∨ poller.pc = .blocked) ∧ poller.roused = true ∧
        next = { poller with triggered := false, pc := .test }) ∨
      ∃ mask, poller.pc = .freewait mask ∧
        next = { poller with queued := false, pc := .returned mask } := by
  cases pc : poller.pc with
  | pollWait | test | decide | freewait mask =>
      simp only [Poller.go, pc, Option.some.injEq] at went
      subst went
      simp
  | schedule | blocked =>
      simp only [Poller.go, pc] at went
      cases roused : poller.roused <;> simp only [roused, if_true, if_false, Bool.false_eq_true,
        Option.some.injEq, reduceCtorEq] at went
      all_goals
        subst went
        simp
  | returned mask => simp [Poller.go, pc] at went

/-- What one step keeps of a single poller, given that it held before. -/
structure StaysAwake (ready : Bool) (before after : Poller) : Prop where
  enrolled : ((before.pc = .test ∨ before.committed = true) → before.queued = true) →
    (after.pc = .test ∨ after.committed = true) → after.queued = true
  honest : ((before.pc = .freewait false ∨ before.pc = .returned false) →
      before.signaled = true ∨ before.timedOut = true) →
    (after.pc = .freewait false ∨ after.pc = .returned false) →
      after.signaled = true ∨ after.timedOut = true
  commits : ready = true → after.committed = true → after.triggered = false →
    before.committed = true ∧ before.triggered = false

theorem go_staysAwake {ready : Bool} {poller next : Poller} (went : poller.go ready = some next) :
    StaysAwake ready poller next := by
  rcases go_cases went with ⟨pc, rfl⟩ | ⟨pc, rfl⟩ | ⟨pc, rfl⟩ | ⟨pc, roused, rfl⟩ |
    ⟨pc, roused, rfl⟩ | ⟨mask, pc, rfl⟩
  · exact ⟨fun _ _ => rfl, fun _ there => by simp at there, fun _ there => by
      simp [Poller.committed] at there⟩
  · refine ⟨fun on _ => on (Or.inl pc), fun _ there => ?_, fun was there => ?_⟩
    · cases ready <;> simp at there
    · simp [Poller.committed, was] at there
  · have was : poller.committed = true := by simp [Poller.committed, pc]
    refine ⟨fun on _ => on (Or.inr was), fun _ there => ?_, fun _ _ calm => ⟨was, calm⟩⟩
    by_cases ended : poller.signaled = true ∨ poller.timedOut = true
    · exact ended
    · rw [if_neg (by simpa using ended)] at there
      simp at there
  · have was : poller.committed = true := by simp [Poller.committed, pc]
    exact ⟨fun on _ => on (Or.inr was), fun _ there => by simp at there,
      fun _ _ calm => ⟨was, calm⟩⟩
  · have was : poller.committed = true := by
      rcases pc with pc | pc <;> simp [Poller.committed, pc]
    exact ⟨fun on _ => on (Or.inr was), fun _ there => by simp at there, fun _ there => by
      simp [Poller.committed] at there⟩
  · refine ⟨fun _ there => by simp [Poller.committed] at there, fun told there => ?_,
      fun _ there => by simp [Poller.committed] at there⟩
    have is : mask = false := by simpa using there
    exact told (Or.inl (is ▸ pc))

theorem PollAwake.poller {p : Polled} (awake : PollAwake p) {i : Nat} {before after : Poller}
    (found : p.parties[i]? = some before)
    (stays : StaysAwake p.shared.shared.dataReady before after) :
    PollAwake ⟨p.shared, p.parties.set i after⟩ := by
  have member := List.mem_of_getElem? found
  refine ⟨?_, ?_, ?_⟩
  · exact forall_mem_set awake.enrolled (stays.enrolled (awake.enrolled before member))
  · exact forall_mem_set awake.honest (stays.honest (awake.honest before member))
  · intro ready
    refine forall_mem_set (awake.covered ready) ?_
    intro committed calm
    obtain ⟨wasCommitted, wasCalm⟩ := stays.commits ready committed calm
    exact awake.covered ready before member wasCommitted wasCalm

theorem PollAwake.step {p next : Polled} {act : PollAct} (awake : PollAwake p)
    (stepped : pollStep p act = some next) : PollAwake next := by
  cases act with
  | driver act =>
      obtain ⟨after, own, rfl⟩ := Option.map_eq_some_iff.mp stepped
      exact awake.driver own
  | poll =>
      cases Option.some.inj stepped
      refine ⟨forall_mem_spawn awake.enrolled ?_, forall_mem_spawn awake.honest ?_, ?_⟩
      · intro there
        simp [Poller.initial, Poller.committed] at there
      · intro there
        simp [Poller.initial] at there
      · intro ready
        refine forall_mem_spawn (awake.covered ready) ?_
        intro committed
        simp [Poller.initial, Poller.committed] at committed
  | poller i input =>
      obtain ⟨before, system, after, found, own, rfl⟩ := Pool.act_eq_some stepped
      cases input with
      | go =>
          obtain ⟨went, ran, same⟩ := Option.map_eq_some_iff.mp own
          cases same
          exact awake.poller found (go_staysAwake ran)
      | signal =>
          cases Option.some.inj own
          exact awake.poller found ⟨id, fun _ _ => Or.inl rfl, fun _ there calm => ⟨there, calm⟩⟩
      | timeout =>
          cases Option.some.inj own
          exact awake.poller found ⟨id, fun _ _ => Or.inr rfl, fun _ there calm => ⟨there, calm⟩⟩

theorem pollAwake_reached {p : Polled} {acts : List PollAct}
    (reached : run pollStep Polled.initial acts = some p) : PollAwake p :=
  invariant_run (fun _ _ _ awake stepped => awake.step stepped) pollAwake_initial reached

/-! ## The way back to the caller -/

/-- A poller on its own, while the flag stays as it is. -/
def Poller.alone (ready : Bool) : Nat → Poller → Option Poller
  | 0, poller => some poller
  | n + 1, poller => (poller.go ready).bind (Poller.alone ready n)

theorem run_alone {p : Polled} {i n : Nat} {poller last : Poller}
    (found : p.parties[i]? = some poller)
    (went : poller.alone p.shared.shared.dataReady n = some last) :
    ∃ q, run pollStep p (List.replicate n (.poller i .go)) = some q ∧ q.shared = p.shared ∧
      q.parties[i]? = some last := by
  induction n generalizing p poller with
  | zero =>
      cases Option.some.inj went
      exact ⟨p, rfl, rfl, found⟩
  | succ n ih =>
      obtain ⟨next, first, rest⟩ := Option.bind_eq_some_iff.mp went
      have stepped : pollStep p (.poller i .go) = some ⟨p.shared, p.parties.set i next⟩ := by
        simp [pollStep, Pool.act, found, pollerStep, first]
      obtain ⟨bound, _⟩ := List.getElem?_eq_some_iff.mp found
      have here : (p.parties.set i next)[i]? = some next := List.getElem?_set_self bound
      obtain ⟨q, ran, same, there⟩ := ih (p := ⟨p.shared, p.parties.set i next⟩) here rest
      exact ⟨q, (run_cons_eq_some _).mpr ⟨_, stepped, ran⟩, same, there⟩

/-- Four steps suffice for one that is not asleep. -/
theorem alone_returns {poller : Poller} (undisturbed : poller.signaled = false ∧
      poller.timedOut = false) (honest : poller.pc ≠ .freewait false ∧ poller.pc ≠ .returned false)
    (woken : poller.committed = true → poller.triggered = true) :
    ∃ n last, n ≤ 4 ∧ poller.alone true n = some last ∧ last.pc = .returned true := by
  obtain ⟨queued, triggered, signaled, timedOut, pc⟩ := poller
  obtain ⟨rfl, rfl⟩ := undisturbed
  cases pc with
  | pollWait => exact ⟨3, _, by decide, rfl, rfl⟩
  | test => exact ⟨2, _, by decide, rfl, rfl⟩
  | decide =>
      cases woken rfl
      exact ⟨4, _, by decide, rfl, rfl⟩
  | schedule | blocked =>
      cases woken rfl
      exact ⟨3, _, by decide, rfl, rfl⟩
  | freewait mask =>
      cases mask with
      | false => exact absurd rfl honest.1
      | true => exact ⟨1, _, by decide, rfl, rfl⟩
  | returned mask =>
      cases mask with
      | false => exact absurd rfl honest.2
      | true => exact ⟨0, _, by decide, rfl, rfl⟩

/-- No event is polled past: with the flag set and no producer short of its
wake-up, no poller is asleep, and each one that no signal or timeout has ended
gets back to its caller with `EPOLLIN` in at most four steps of its own. -/
theorem no_event_polled_past {p : Polled} {acts : List PollAct}
    (reached : run pollStep Polled.initial acts = some p)
    (ready : p.shared.shared.dataReady = true)
    (settled : ∀ party ∈ p.shared.parties, party.waking = false) :
    ∀ i poller, p.parties[i]? = some poller → poller.asleep = false ∧
      (poller.signaled = false → poller.timedOut = false →
        ∃ n ≤ 4, ∃ q, run pollStep p (List.replicate n (.poller i .go)) = some q ∧
          q.shared = p.shared ∧ ∃ last, q.parties[i]? = some last ∧ last.pc = .returned true) := by
  have awake := pollAwake_reached reached
  intro i poller found
  have member := List.mem_of_getElem? found
  have woken : poller.committed = true → poller.triggered = true := by
    intro committed
    cases calm : poller.triggered with
    | true => rfl
    | false =>
        obtain ⟨party, inPool, waking⟩ := awake.covered ready poller member committed calm
        exact absurd ((settled party inPool).symm.trans waking) (by decide)
  refine ⟨?_, ?_⟩
  · cases pc : poller.pc with
    | blocked =>
        have triggered := woken (by simp only [Poller.committed, pc])
        simp [Poller.asleep, pc, Poller.roused, triggered]
    | pollWait | test | decide | schedule | freewait mask | returned mask =>
        simp [Poller.asleep, pc]
  · intro calm early
    have honest : poller.pc ≠ .freewait false ∧ poller.pc ≠ .returned false := by
      constructor <;> intro pc
      · rcases awake.honest poller member (Or.inl pc) with ended | ended <;> simp_all
      · rcases awake.honest poller member (Or.inr pc) with ended | ended <;> simp_all
    obtain ⟨n, last, few, went, returned⟩ := alone_returns ⟨calm, early⟩ honest woken
    rw [← ready] at went
    obtain ⟨q, ran, same, there⟩ := run_alone found went
    exact ⟨n, few, q, ran, same, last, there, returned⟩

/-- The event comes between the test of a poller and its sleep, beside a reader
that is blocked. -/
theorem no_event_polled_past_between :
    ∃ p, run pollStep Polled.initial
        [.driver (.openFile false), .driver (.party 0 (.read 64)), .poll, .poller 0 .go,
          .poller 0 .go, .poller 0 .go, .driver .produce, .driver (.party 1 .go),
          .driver (.party 1 .go), .driver (.party 1 .go), .poller 0 .go] = some p ∧
      ∃ n ≤ 4, ∃ q, run pollStep p (List.replicate n (.poller 0 .go)) = some q ∧
        q.shared = p.shared ∧ ∃ last, q.parties[0]? = some last ∧ last.pc = .returned true := by
  have ran := run_get pollStep Polled.initial
    [.driver (.openFile false), .driver (.party 0 (.read 64)), .poll, .poller 0 .go,
      .poller 0 .go, .poller 0 .go, .driver .produce, .driver (.party 1 .go),
      .driver (.party 1 .go), .driver (.party 1 .go), .poller 0 .go] (by decide +kernel)
  refine ⟨_, ran, ?_⟩
  exact (no_event_polled_past ran (by decide +kernel) (by decide +kernel) 0 _ rfl).2
    (by decide +kernel) (by decide +kernel)

end WaitQueues
