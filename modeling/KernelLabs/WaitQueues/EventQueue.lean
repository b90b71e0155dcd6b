import KernelLabs.Kernel.UserCopy
import KernelLabs.Lib.Machine
import KernelLabs.Lib.Pool

/-!
# Producers and readers of `12_wait_queues_blocking/wait_queues_blocking.c`

The parties are producers (`producer_fn` and `trigger_store` run the same three
atomic steps) and open files, each running one `bq_read` call at a time.  A step
is one atomic access: the exchange and the store of `data_ready`, the increment
and the read of `event_id`, the counts in `waiter_count`, and the stages of
`wait_event_interruptible`, which tests the condition once and then loops over
marking the task sleeping on the queue, testing again and leaving the CPU.

`event_wq` is the list of readers that are queued and still marked sleeping; a
wake-up and a signal take readers off it.  `delivered` is a history variable: it
records every read that formatted an event.
-/

set_option autoImplicit false

namespace WaitQueues

open Kernel LabelledMachine PartyPool

/-- A read that formatted an event: where it stood in its file, what it asked
for, the number it found in `event_id`, and the bytes it handed over. -/
structure Delivery where
  reader : Nat
  ppos : Nat
  count : Nat
  id : UInt64
  bytes : Bytes
  deriving DecidableEq, Repr

structure Shared where
  dataReady : Bool
  eventId : UInt64
  -- One for each task that waits; there are never 2^31 tasks, so the `atomic_t` does not wrap.
  waiterCount : Int
  eventWq : List Nat
  delivered : List Delivery
  deriving DecidableEq, Repr

inductive ProducerPc where
  | increment
  | setReady
  | wake
  | done
  deriving DecidableEq, Repr

/-- The program points of `bq_read`; each keeps the `count` of the call. -/
inductive ReadPc where
  | idle
  | exchange (count : Nat)
  | incWaiters (count : Nat)
  | precheck (count : Nat)
  | prepare (count : Nat)
  | test (interrupted : Bool) (count : Nat)
  | schedule (count : Nat)
  | blocked (count : Nat)
  | finish (interrupted : Bool) (count : Nat)
  | decWaiters (interrupted : Bool) (count : Nat)
  | fetch (count : Nat)
  deriving DecidableEq, Repr

/-- An open file with its position, its `O_NONBLOCK` flag and the task reading
through it. -/
structure File where
  ppos : Nat
  nonblock : Bool
  signaled : Bool
  pc : ReadPc
  deriving DecidableEq, Repr

inductive Party where
  | producer (pc : ProducerPc)
  | file (f : File)
  deriving DecidableEq, Repr

inductive Input where
  | go
  | read (count : Nat)
  | signal
  deriving DecidableEq, Repr

def eventText (id : UInt64) : Bytes :=
  scnprintf 64 (ascii "event #" ++ decimal id.toNat ++ [10])

def producerStep (shared : Shared) : ProducerPc → Option (Shared × ProducerPc)
  | .increment => some ({ shared with eventId := shared.eventId + 1 }, .setReady)
  | .setReady => some ({ shared with dataReady := true }, .wake)
  | .wake => some ({ shared with eventWq := [] }, .done)
  | .done => none

def deliveryOf (i : Nat) (shared : Shared) (f : File) (count : Nat) : Delivery where
  reader := i
  ppos := f.ppos
  count := count
  id := shared.eventId
  bytes := slice count f.ppos (eventText shared.eventId)

def readStep (i : Nat) (shared : Shared) (f : File) : Option (Shared × File) :=
  match f.pc with
  | .idle => none
  | .exchange count =>
    if shared.dataReady then
      some ({ shared with dataReady := false }, { f with pc := .fetch count })
    else if f.nonblock then some (shared, { f with pc := .idle })
    else some (shared, { f with pc := .incWaiters count })
  | .incWaiters count =>
    some ({ shared with waiterCount := shared.waiterCount + 1 }, { f with pc := .precheck count })
  | .precheck count =>
    if shared.dataReady then some (shared, { f with pc := .decWaiters false count })
    else some (shared, { f with pc := .prepare count })
  | .prepare count =>
    if f.signaled then some (shared, { f with pc := .test true count })
    else some ({ shared with eventWq := i :: shared.eventWq },
      { f with pc := .test false count })
  | .test interrupted count =>
    if shared.dataReady then some (shared, { f with pc := .finish false count })
    else if interrupted then some (shared, { f with pc := .finish true count })
    else some (shared, { f with pc := .schedule count })
  | .schedule count =>
    if i ∈ shared.eventWq then some (shared, { f with pc := .blocked count })
    else some (shared, { f with pc := .prepare count })
  | .blocked count =>
    if i ∈ shared.eventWq then none else some (shared, { f with pc := .prepare count })
  | .finish interrupted count =>
    some ({ shared with eventWq := shared.eventWq.filter (· ≠ i) },
      { f with pc := .decWaiters interrupted count })
  | .decWaiters interrupted count =>
    some ({ shared with waiterCount := shared.waiterCount - 1 },
      { f with pc := if interrupted then .idle else .exchange count })
  | .fetch count =>
    let delivery := deliveryOf i shared f count
    some ({ shared with delivered := shared.delivered ++ [delivery] },
      { f with pc := .idle, ppos := f.ppos + delivery.bytes.length })

def partyStep (i : Nat) (input : Input) (shared : Shared) :
    Party → Option (Shared × Party)
  | .producer pc =>
    match input with
    | .go => (producerStep shared pc).map fun (next, pc) => (next, .producer pc)
    | _ => none
  | .file f =>
    match input with
    | .go => (readStep i shared f).map fun (next, f) => (next, .file f)
    | .read count =>
      if f.pc = .idle then
        some (shared, .file { f with pc := .exchange count, signaled := false })
      else none
    | .signal =>
      some ({ shared with eventWq := shared.eventWq.filter (· ≠ i) },
        .file { f with signaled := true })

abbrev System := Pool Shared Party

def System.initial : System := ⟨⟨false, 0, 0, [], []⟩, []⟩

inductive Act where
  | produce
  | openFile (nonblock : Bool)
  | party (i : Nat) (input : Input)
  deriving DecidableEq, Repr

def step (s : System) : Act → Option System
  | .produce => some (s.spawn (.producer .increment))
  | .openFile nonblock => some (s.spawn (.file ⟨0, nonblock, false, .idle⟩))
  | .party i input => s.act partyStep i input

/-- The party whose own next step the label is. -/
def System.goes (s : System) : Act → Option Party
  | .party i .go => s.parties[i]?
  | _ => none

/-! ## The windows between the two atomics -/

/-- A producer that incremented `event_id` and has not set `data_ready` yet. -/
def Party.announcing : Party → Bool
  | .producer .setReady => true
  | _ => false

/-- A read whose exchange returned 1 and that has not read `event_id` yet. -/
def Party.holding : Party → Bool
  | .file f => match f.pc with
    | .fetch _ => true
    | _ => false
  | _ => false

/-- Everything a party's step can do to the flag, the event number and the
history; all other steps leave these and both windows as they are. -/
inductive Effect (i : Nat) (input : Input) (shared : Shared) (party : Party) (next : Shared)
    (moved : Party) : Prop where
  | increments (go : input = .go) (was : party = .producer .increment)
      (now : moved = .producer .setReady)
      (effect : next = { shared with eventId := shared.eventId + 1 })
  | sets (go : input = .go) (was : party = .producer .setReady) (now : moved = .producer .wake)
      (effect : next = { shared with dataReady := true })
  | takes (f : File) (count : Nat) (go : input = .go) (was : party = .file f)
      (pc : f.pc = .exchange count) (ready : shared.dataReady = true)
      (now : moved = .file { f with pc := .fetch count })
      (effect : next = { shared with dataReady := false })
  | delivers (f : File) (count : Nat) (go : input = .go) (was : party = .file f)
      (pc : f.pc = .fetch count)
      (now : moved = .file { f with pc := .idle, ppos := f.ppos +
        (deliveryOf i shared f count).bytes.length })
      (effect : next = { shared with delivered :=
        shared.delivered ++ [deliveryOf i shared f count] })
  | neutral (announcing : moved.announcing = party.announcing)
      (holding : moved.holding = party.holding) (flag : next.dataReady = shared.dataReady)
      (event : next.eventId = shared.eventId) (history : next.delivered = shared.delivered)

theorem producerStep_effect {i : Nat} {shared next : Shared} {pc after : ProducerPc}
    (stepped : producerStep shared pc = some (next, after)) :
    Effect i .go shared (.producer pc) next (.producer after) := by
  cases pc with
  | increment =>
      cases stepped
      exact .increments rfl rfl rfl rfl
  | setReady =>
      cases stepped
      exact .sets rfl rfl rfl rfl
  | wake =>
      cases stepped
      exact .neutral rfl rfl rfl rfl rfl
  | done => contradiction

theorem readStep_effect {i : Nat} {shared next : Shared} {f after : File}
    (stepped : readStep i shared f = some (next, after)) :
    Effect i .go shared (.file f) next (.file after) := by
  obtain ⟨ppos, nonblock, signaled, pc⟩ := f
  cases pc with
  | idle => contradiction
  | exchange count =>
      cases ready : shared.dataReady with
      | true =>
          simp only [readStep, ready, if_true] at stepped
          cases stepped
          exact .takes _ count rfl rfl rfl ready rfl rfl
      | false =>
          simp only [readStep, ready, Bool.false_eq_true, if_false] at stepped
          split at stepped <;> cases stepped <;> exact .neutral rfl rfl rfl rfl rfl
  | fetch count =>
      cases stepped
      exact .delivers _ count rfl rfl rfl rfl rfl
  | precheck count | prepare count | schedule count =>
      simp only [readStep] at stepped
      split at stepped <;> cases stepped <;> exact .neutral rfl rfl rfl rfl rfl
  | test interrupted count =>
      simp only [readStep] at stepped
      split at stepped
      · cases stepped
        exact .neutral rfl rfl rfl rfl rfl
      · split at stepped <;> cases stepped <;> exact .neutral rfl rfl rfl rfl rfl
  | blocked count =>
      simp only [readStep] at stepped
      split at stepped
      · contradiction
      · cases stepped
        exact .neutral rfl rfl rfl rfl rfl
  | decWaiters interrupted count =>
      cases stepped
      cases interrupted <;> exact .neutral rfl rfl rfl rfl rfl
  | incWaiters count | finish interrupted count =>
      cases stepped
      exact .neutral rfl rfl rfl rfl rfl

theorem partyStep_effect {i : Nat} {input : Input} {shared next : Shared} {party moved : Party}
    (stepped : partyStep i input shared party = some (next, moved)) :
    Effect i input shared party next moved := by
  cases party with
  | producer pc =>
      cases input with
      | go =>
          obtain ⟨⟨after, afterPc⟩, own, same⟩ := Option.map_eq_some_iff.mp stepped
          cases same
          exact producerStep_effect own
      | read count => contradiction
      | signal => contradiction
  | file f =>
      cases input with
      | go =>
          obtain ⟨⟨after, afterFile⟩, own, same⟩ := Option.map_eq_some_iff.mp stepped
          cases same
          exact readStep_effect own
      | read count =>
          simp only [partyStep] at stepped
          split at stepped
          · rename_i idle
            cases stepped
            obtain ⟨ppos, nonblock, signaled, pc⟩ := f
            cases idle
            exact .neutral rfl rfl rfl rfl rfl
          · contradiction
      | signal =>
          cases stepped
          exact .neutral rfl rfl rfl rfl rfl

end WaitQueues
