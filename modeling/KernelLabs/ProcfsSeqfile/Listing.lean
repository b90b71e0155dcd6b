import KernelLabs.Lib.Observer
import KernelLabs.Lib.Pool
import KernelLabs.ProcfsSeqfile.EventLog

/-!
# A listing of the event log in several sessions

`seq_read` walks the array in sessions: it takes `events_lock` in `start`,
shows one element after the other and drops the lock in `stop`.  Between two
sessions nothing of the log is held but the position, a bare index; anyone may
open the file or clear the log there.

`seq_read`'s part: it calls `next` after a record that came out whole, and then
only.  The history beside the machine numbers the recordings since load, so that
a slot that is used again holds a record with another number.
-/

set_option autoImplicit false

namespace ProcfsSeqfile.Listing

open Kernel LabelledMachine OverwritingFifo

def eventsSeqStart (log : Log) (pos : Nat) : Option Nat :=
  if log.eventCount ≤ pos then none else some pos

/-- The new `*pos` and the element there. -/
def eventsSeqNext (log : Log) (pos : Nat) : Nat × Option Nat :=
  (pos + 1, if log.eventCount ≤ pos + 1 then none else some (pos + 1))

def eventsSeqShow (ev : ProcEvent) : Bytes :=
  let sec := ev.ns / 1000000000
  let usec := ev.ns % 1000000000 / 1000
  decimal sec.toNat ++ ascii "." ++ zeroPadded 6 usec.toNat ++ ascii " " ++ ev.comm ++
    ascii "[" ++ decimal ev.pid ++ ascii "]\n"

inductive Session where
  | outside
  -- What `start` or `next` returned last.
  | element (found : Option Nat)
  -- This element came out whole and `next` is due.
  | emitted (i : Nat)
  deriving DecidableEq, Repr

structure Reading where
  log : Log
  pos : Nat
  session : Session
  out : Bytes

def Reading.initial : Reading := ⟨Log.initial, 0, .outside, []⟩

inductive ReaderAct where
  | start
  -- The buffer has room for the record, or it has not.
  | show (fits : Bool)
  | next
  | stop
  deriving DecidableEq, Repr

inductive ListingAct where
  | log (act : Act)
  | reader (act : ReaderAct)
  deriving DecidableEq, Repr

/-- An open or an accepted clear waits for `events_lock`; a rejected write does
not get that far. -/
def waits : Act → Bool
  | .eventsOpen _ _ => true
  | .eventsWrite data missing => (checkClear data missing).isOk

def readerStep (r : Reading) : ReaderAct → Option Reading
  | .start =>
    match r.session with
    | .outside => some { r with session := .element (eventsSeqStart r.log r.pos) }
    | _ => none
  | .show fits =>
    match r.session with
    | .element (some i) =>
      if fits then
        some { r with
          out := r.out ++ eventsSeqShow (r.log.events (Fin.ofNat maxEvents i))
          session := .emitted i }
      else some r
    | _ => none
  | .next =>
    match r.session with
    | .emitted _ =>
      let (pos, found) := eventsSeqNext r.log r.pos
      some { r with pos, session := .element found }
    | _ => none
  | .stop =>
    match r.session with
    | .element _ => some { r with session := .outside }
    | _ => none

def listingStep (r : Reading) : ListingAct → Option Reading
  | .log act =>
    if waits act ∧ r.session ≠ .outside then none
    else (step r.log act).map fun log => { r with log }
  | .reader act => readerStep r act

/-! ## The history of the listing -/

/-- A record that came out whole, with `event_count` at that moment. -/
structure Shown where
  index : Nat
  count : Nat
  serial : Nat
  event : ProcEvent
  deriving DecidableEq, Repr

structure History where
  -- Which recording since load each slot holds.
  serials : Fin maxEvents → Nat
  recorded : Nat
  shown : List Shown

def History.initial : History := ⟨fun _ => 0, 0, []⟩

def History.store (history : History) (slot : Fin maxEvents) : History :=
  { history with
    serials := Function.update history.serials slot history.recorded
    recorded := history.recorded + 1 }

def watch (r : Reading) (history : History) : ListingAct → History
  | .log (.eventsOpen _ _) =>
    if r.log.eventCount < maxEvents then history.store (Fin.ofNat maxEvents r.log.eventCount)
    else history
  | .reader (.show true) =>
    match r.session with
    | .element (some i) =>
      { history with shown := history.shown ++ [⟨i, r.log.eventCount,
          history.serials (Fin.ofNat maxEvents i), r.log.events (Fin.ofNat maxEvents i)⟩] }
    | _ => history
  | _ => history

/-- The serial number at an index. -/
def History.serial (history : History) (i : Nat) : Nat := history.serials (Fin.ofNat maxEvents i)

/-- The index of the next record to show. -/
def Reading.due (r : Reading) : Nat :=
  match r.session with
  | .emitted _ => r.pos + 1
  | _ => r.pos

/-- The element in the reader's hands is the live one at its position. -/
def Reading.Holds (r : Reading) : Prop :=
  match r.session with
  | .element (some i) | .emitted i => i = r.pos ∧ i < r.log.eventCount
  | _ => True

structure Ordered (r : Reading) (history : History) : Prop where
  countLe : r.log.eventCount ≤ maxEvents
  rising : ∀ i j, i < j → j < r.log.eventCount → history.serial i < history.serial j
  recorded : ∀ i < r.log.eventCount, history.serial i < history.recorded
  holds : r.Holds
  live : ∀ x ∈ history.shown, x.index < x.count
  shown : history.shown.Pairwise fun a b => a.serial < b.serial
  before : ∀ x ∈ history.shown, x.serial < history.recorded
  ahead : ∀ x ∈ history.shown, ∀ i, r.due ≤ i → i < r.log.eventCount →
    x.serial < history.serial i
  text : r.out = history.shown.flatMap fun x => eventsSeqShow x.event

theorem ordered_initial : Ordered Reading.initial History.initial := by
  refine ⟨Nat.zero_le _, fun _ _ _ never => absurd never (Nat.not_lt_zero _),
    fun _ never => absurd never (Nat.not_lt_zero _), trivial, ?_, List.Pairwise.nil, ?_, ?_,
    rfl⟩ <;>
    exact fun _ member => absurd member List.not_mem_nil

/-! ## Opens and clears -/

theorem listingStep_log {r next : Reading} {act : Act}
    (stepped : listingStep r (.log act) = some next) :
    (waits act = true → r.session = .outside) ∧
      ∃ log, step r.log act = some log ∧ next = { r with log } := by
  simp only [listingStep] at stepped
  split at stepped
  · contradiction
  · rename_i free
    obtain ⟨log, moved, rfl⟩ := Option.map_eq_some_iff.mp stepped
    exact ⟨fun waiting => not_not.mp fun inside => free ⟨waiting, inside⟩, log, moved, rfl⟩

theorem serial_store_self (history : History) (slot : Nat) :
    (history.store (Fin.ofNat maxEvents slot)).serial slot = history.recorded :=
  Function.update_self _ _ _

theorem serial_store_other (history : History) {slot i : Nat} (slotLt : slot < maxEvents)
    (other : i < maxEvents) (differs : i ≠ slot) :
    (history.store (Fin.ofNat maxEvents slot)).serial i = history.serial i := by
  refine Function.update_of_ne (fun same => differs ?_) _ _
  have values := congrArg Fin.val same
  simpa [Fin.ofNat, Nat.mod_eq_of_lt slotLt, Nat.mod_eq_of_lt other] using values

section Ordered
variable {r : Reading} {history : History} (ordered : Ordered r history)
include ordered

theorem Ordered.relog {log : Log} (same : log.eventCount = r.log.eventCount) :
    Ordered { r with log } history := by
  obtain ⟨countLe, rising, recorded, holds, live, shown, before, ahead, text⟩ := ordered
  have stays : Reading.Holds { r with log } := by
    unfold Reading.Holds at holds ⊢
    dsimp only
    rw [same]
    exact holds
  refine ⟨?_, ?_, ?_, stays, live, shown, before, ?_, text⟩ <;> dsimp only <;> rw [same] <;>
    assumption

/-- A recording gets a number above all those that were shown. -/
theorem Ordered.store {log : Log} (outside : r.session = .outside)
    (room : r.log.eventCount < maxEvents) (oneMore : log.eventCount = r.log.eventCount + 1) :
    Ordered { r with log } (history.store (Fin.ofNat maxEvents r.log.eventCount)) := by
  obtain ⟨countLe, rising, recorded, holds, live, shown, before, ahead, text⟩ := ordered
  have own := serial_store_self history r.log.eventCount
  have old {i : Nat} (lower : i < r.log.eventCount) :
      (history.store (Fin.ofNat maxEvents r.log.eventCount)).serial i = history.serial i :=
    serial_store_other history room (by omega) (by omega)
  refine ⟨by dsimp only; omega, ?_, ?_, ?_, live, shown, ?_, ?_, text⟩
  · dsimp only
    rw [oneMore]
    intro i j lower upper
    rcases Nat.lt_succ_iff_lt_or_eq.mp upper with inside | rfl
    · rw [old inside, old (by omega)]
      exact rising i j lower inside
    · rw [own, old lower]
      exact recorded i lower
  · dsimp only
    rw [oneMore]
    intro i upper
    rcases Nat.lt_succ_iff_lt_or_eq.mp upper with inside | rfl
    · rw [old inside]
      exact Nat.lt_succ_of_lt (recorded i inside)
    · rw [own]
      exact Nat.lt_succ_self _
  · unfold Reading.Holds
    dsimp only
    rw [outside]
    trivial
  · exact fun x member => Nat.lt_succ_of_lt (before x member)
  · dsimp only
    rw [oneMore]
    intro x member i due upper
    rcases Nat.lt_succ_iff_lt_or_eq.mp upper with inside | rfl
    · rw [old inside]
      exact ahead x member i due inside
    · rw [own]
      exact before x member

theorem Ordered.clear {log : Log} (outside : r.session = .outside) (empty : log.eventCount = 0) :
    Ordered { r with log } history := by
  obtain ⟨countLe, rising, recorded, holds, live, shown, before, ahead, text⟩ := ordered
  have stays : Reading.Holds { r with log } := by
    unfold Reading.Holds
    dsimp only
    rw [outside]
    trivial
  refine ⟨?_, ?_, ?_, stays, live, shown, before, ?_, text⟩ <;> dsimp only <;> rw [empty]
  · exact Nat.zero_le _
  · exact fun _ _ _ never => absurd never (Nat.not_lt_zero _)
  · exact fun _ never => absurd never (Nat.not_lt_zero _)
  · exact fun _ _ _ _ never => absurd never (Nat.not_lt_zero _)

/-- What `start` and `next` return is the live record at the position, if any. -/
theorem Ordered.seek (pos : Nat) (due : pos = r.due) :
    Ordered { r with
      pos
      session := .element (if r.log.eventCount ≤ pos then none else some pos) } history := by
  obtain ⟨countLe, rising, recorded, holds, live, shown, before, ahead, text⟩ := ordered
  refine ⟨countLe, rising, recorded, ?_, live, shown, before, ?_, text⟩
  · by_cases beyond : r.log.eventCount ≤ pos
    · rw [if_pos beyond]
      trivial
    · rw [if_neg beyond]
      exact ⟨rfl, Nat.not_le.mp beyond⟩
  · intro x member i low
    exact ahead x member i (due ▸ low)

theorem Ordered.emit {i : Nat} (found : r.session = .element (some i)) :
    Ordered { r with
      out := r.out ++ eventsSeqShow (r.log.events (Fin.ofNat maxEvents i))
      session := .emitted i }
      { history with shown := history.shown ++ [⟨i, r.log.eventCount,
        history.serials (Fin.ofNat maxEvents i), r.log.events (Fin.ofNat maxEvents i)⟩] } := by
  obtain ⟨countLe, rising, recorded, holds, live, shown, before, ahead, text⟩ := ordered
  unfold Reading.Holds at holds
  rw [found] at holds
  obtain ⟨here, below⟩ := holds
  have due : r.due = i := by
    rw [Reading.due, found]
    exact here.symm
  rw [due] at ahead
  refine ⟨countLe, rising, recorded, ⟨here, below⟩, ?_, ?_, ?_, ?_, ?_⟩
  · exact PartyPool.forall_mem_spawn live below
  · rw [List.pairwise_append]
    refine ⟨shown, List.pairwise_singleton _ _, fun x member y last => ?_⟩
    rw [List.mem_singleton.mp last]
    exact ahead x member i (Nat.le_refl i) below
  · exact PartyPool.forall_mem_spawn before (recorded i below)
  · have later : ∀ j, i < j → j < r.log.eventCount → history.serial i < history.serial j :=
      fun j => rising i j
    refine PartyPool.forall_mem_spawn (fun x member j low upper => ?_) fun j low upper => ?_
    · exact ahead x member j (by simp only [Reading.due, ← here] at low; omega) upper
    · exact later j (by simp only [Reading.due, ← here] at low; omega) upper
  · rw [List.flatMap_append, ← text]
    simp

theorem Ordered.drop {found : Option Nat} (inside : r.session = .element found) :
    Ordered { r with session := .outside } history := by
  obtain ⟨countLe, rising, recorded, holds, live, shown, before, ahead, text⟩ := ordered
  refine ⟨countLe, rising, recorded, trivial, live, shown, before, ?_, text⟩
  rw [Reading.due, inside] at ahead
  exact ahead

end Ordered

theorem readerStep_ordered {r next : Reading} {history : History} {act : ReaderAct}
    (ordered : Ordered r history) (stepped : readerStep r act = some next) :
    Ordered next (watch r history (.reader act)) := by
  cases act with
  | start =>
      simp only [readerStep] at stepped
      split at stepped
      · rename_i outside
        cases stepped
        exact ordered.seek r.pos (by rw [Reading.due, outside])
      · contradiction
  | «show» fits =>
      simp only [readerStep] at stepped
      split at stepped
      · rename_i i found
        cases fits with
        | true =>
            cases stepped
            simp only [watch, found]
            exact ordered.emit found
        | false =>
            cases stepped
            exact ordered
      · contradiction
  | next =>
      simp only [readerStep] at stepped
      split at stepped
      · rename_i i emitted
        cases stepped
        exact ordered.seek (r.pos + 1) (by rw [Reading.due, emitted])
      · contradiction
  | stop =>
      simp only [readerStep] at stepped
      split at stepped
      · rename_i found inside
        cases stepped
        exact ordered.drop inside
      · contradiction

theorem eventsWrite_cases (data : Bytes) (missing : Nat) (log : Log) :
    (checkClear data missing).isOk = true ∧ (eventsWrite data missing log).2.eventCount = 0 ∨
      (eventsWrite data missing log).2 = log := by
  unfold eventsWrite
  cases checkClear data missing with
  | error e => exact Or.inr rfl
  | ok accepted => exact Or.inl ⟨rfl, rfl⟩

theorem step_ordered (p : Reading × History) (act : ListingAct) (next : Reading × History)
    (ordered : Ordered p.1 p.2) (stepped : observed listingStep watch p act = some next) :
    Ordered next.1 next.2 := by
  obtain ⟨r, history⟩ := p
  obtain ⟨after, afterHistory⟩ := next
  obtain ⟨moved, rfl⟩ := observed_eq_some.mp stepped
  cases act with
  | reader act => exact readerStep_ordered ordered moved
  | log act =>
      obtain ⟨outside, log, stored, rfl⟩ := listingStep_log moved
      cases act with
      | eventsOpen ns current =>
          cases stored
          simp only [watch]
          by_cases room : r.log.eventCount < maxEvents
          · rw [if_pos room, recordEvent_of_room ns current room]
            exact ordered.store (outside rfl) room rfl
          · rw [if_neg room, recordEvent_of_full ns current room]
            exact ordered.relog rfl
      | eventsWrite data missing =>
          cases stored
          rcases eventsWrite_cases data missing r.log with ⟨accepted, empty⟩ | same
          · exact ordered.clear (outside accepted) empty
          · exact ordered.relog (congrArg Log.eventCount same)

/-! ## Without a clear -/

def ListingAct.reads : ListingAct → Bool
  | .log _ => false
  | .reader _ => true

def ListingAct.clears : ListingAct → Bool
  | .log act => act.clears
  | .reader _ => false

/-- The listing has not begun. -/
structure Untouched (r : Reading) (history : History) : Prop where
  pos : r.pos = 0
  session : r.session = .outside
  shown : history.shown = []

/-- The records shown are those in front of the reader's position. -/
structure InOrder (r : Reading) (history : History) : Prop where
  ordered : Ordered r history
  place : r.due = history.shown.length
  below : r.due ≤ r.log.eventCount
  each : ∀ k x, history.shown[k]? = some x →
    x.index = k ∧ x.event = r.log.events (Fin.ofNat maxEvents k)

theorem Untouched.inOrder {r : Reading} {history : History} (untouched : Untouched r history)
    (ordered : Ordered r history) : InOrder r history := by
  obtain ⟨pos, session, shown⟩ := untouched
  have due : r.due = 0 := by
    rw [Reading.due, session]
    exact pos
  refine ⟨ordered, by rw [due, shown]; rfl, by omega, ?_⟩
  rw [shown]
  intro k x found
  contradiction

theorem step_untouched (p : Reading × History) (act : ListingAct) (next : Reading × History)
    (untouched : Untouched p.1 p.2) (elsewhere : act.reads = false)
    (stepped : observed listingStep watch p act = some next) : Untouched next.1 next.2 := by
  obtain ⟨r, history⟩ := p
  obtain ⟨after, afterHistory⟩ := next
  obtain ⟨moved, rfl⟩ := observed_eq_some.mp stepped
  obtain ⟨pos, session, shown⟩ := untouched
  cases act with
  | reader act => contradiction
  | log act =>
      obtain ⟨_, log, _, rfl⟩ := listingStep_log moved
      refine ⟨pos, session, ?_⟩
      cases act with
      | eventsOpen ns current =>
          simp only [watch]
          split <;> exact shown
      | eventsWrite data missing => exact shown

section InOrder
variable {r : Reading} {history : History} (inOrder : InOrder r history)
include inOrder

theorem InOrder.relog {log : Log} {after : History}
    (ordered : Ordered { r with log } after) (same : after.shown = history.shown)
    (count : r.log.eventCount ≤ log.eventCount)
    (events : ∀ k < r.log.eventCount, log.events (Fin.ofNat maxEvents k) =
      r.log.events (Fin.ofNat maxEvents k)) : InOrder { r with log } after := by
  obtain ⟨_, place, below, each⟩ := inOrder
  refine ⟨ordered, same ▸ place, below.trans count, ?_⟩
  rw [same]
  intro k x found
  have inside := (List.getElem?_eq_some_iff.mp found).1
  obtain ⟨index, event⟩ := each k x found
  exact ⟨index, event.trans (events k (by omega)).symm⟩

theorem readerStep_inOrder {next : Reading} {act : ReaderAct}
    (stepped : readerStep r act = some next) : InOrder next (watch r history (.reader act)) := by
  have ordered := readerStep_ordered inOrder.ordered stepped
  have holds := inOrder.ordered.holds
  obtain ⟨_, place, below, each⟩ := inOrder
  cases act with
  | start =>
      simp only [readerStep] at stepped
      split at stepped
      · rename_i outside
        cases stepped
        rw [Reading.due, outside] at place below
        exact ⟨ordered, place, below, each⟩
      · contradiction
  | «show» fits =>
      simp only [readerStep] at stepped
      split at stepped
      · rename_i i found
        cases fits with
        | true =>
            cases stepped
            rw [Reading.due, found] at place below
            rw [Reading.Holds, found] at holds
            obtain ⟨here, inside⟩ := holds
            simp only [watch, found] at ordered ⊢
            refine ⟨ordered, ?_, ?_, ?_⟩
            · rw [List.length_append, ← place]
              rfl
            · simp only [Reading.due]
              omega
            · intro k x shown
              rcases PartyPool.getElem?_spawn_cases shown with old | ⟨rfl, rfl⟩
              · exact each k x old
              · dsimp only at place
                subst here
                rw [place]
                exact ⟨rfl, rfl⟩
        | false =>
            cases stepped
            exact ⟨ordered, place, below, each⟩
      · contradiction
  | next =>
      simp only [readerStep] at stepped
      split at stepped
      · rename_i i emitted
        cases stepped
        rw [Reading.due, emitted] at place below
        exact ⟨ordered, place, below, each⟩
      · contradiction
  | stop =>
      simp only [readerStep] at stepped
      split at stepped
      · rename_i found inside
        cases stepped
        rw [Reading.due, inside] at place below
        exact ⟨ordered, place, below, each⟩
      · contradiction

/-- What was shown is the front of the log. -/
theorem InOrder.front :
    history.shown.map Shown.index = List.range history.shown.length ∧
      history.shown.map Shown.event = r.log.records.take history.shown.length := by
  obtain ⟨_, place, below, each⟩ := inOrder
  constructor
  · refine List.ext_getElem? fun k => ?_
    rcases Nat.lt_or_ge k history.shown.length with inside | outside
    · have here := List.getElem?_eq_getElem inside
      rw [List.getElem?_map, here, List.getElem?_range inside]
      exact congrArg some (each k _ here).1
    · rw [List.getElem?_eq_none (by rwa [List.length_map]),
        List.getElem?_eq_none (by rwa [List.length_range])]
  · refine List.ext_getElem? fun k => ?_
    rcases Nat.lt_or_ge k history.shown.length with inside | outside
    · have here := List.getElem?_eq_getElem inside
      have counted : k < r.log.eventCount := by omega
      rw [List.getElem?_map, here, List.getElem?_take_of_lt inside, Log.records, window,
        List.getElem?_map, List.getElem?_range counted]
      exact congrArg some ((each k _ here).2.trans (by dsimp only; rw [Nat.zero_add]))
    · rw [List.getElem?_eq_none (by rwa [List.length_map]),
        List.getElem?_eq_none (by rw [List.length_take]; omega)]

end InOrder

theorem step_inOrder (p : Reading × History) (act : ListingAct) (next : Reading × History)
    (inOrder : InOrder p.1 p.2) (noClear : act.clears = false)
    (stepped : observed listingStep watch p act = some next) : InOrder next.1 next.2 := by
  have ordered := step_ordered p act next inOrder.ordered stepped
  obtain ⟨r, history⟩ := p
  obtain ⟨after, afterHistory⟩ := next
  obtain ⟨moved, rfl⟩ := observed_eq_some.mp stepped
  cases act with
  | reader act => exact readerStep_inOrder inOrder moved
  | log act =>
      obtain ⟨_, log, stored, rfl⟩ := listingStep_log moved
      cases act with
      | eventsOpen ns current =>
          cases stored
          simp only [watch] at ordered ⊢
          by_cases room : r.log.eventCount < maxEvents
          · rw [if_pos room] at ordered ⊢
            refine inOrder.relog ordered rfl ?_ fun k inside => ?_
            · rw [recordEvent_of_room ns current room]
              exact Nat.le_succ _
            · rw [recordEvent_of_room ns current room]
              refine Function.update_of_ne (fun same => ?_) _ _
              have lower : k < r.log.eventCount := inside
              have values := congrArg Fin.val same
              rw [Fin.val_ofNat, Fin.val_ofNat, Nat.mod_eq_of_lt room,
                Nat.mod_eq_of_lt (lower.trans room)] at values
              omega
          · rw [if_neg room] at ordered ⊢
            refine inOrder.relog ordered rfl ?_ fun k inside => ?_
            · rw [recordEvent_of_full ns current room]
            · rw [recordEvent_of_full ns current room]
      | eventsWrite data missing =>
          cases stored
          rcases eventsWrite_cases data missing r.log with ⟨accepted, _⟩ | same
          · exact absurd (noClear.symm.trans accepted) Bool.false_ne_true
          · exact inOrder.relog ordered rfl (Nat.le_of_eq (congrArg Log.eventCount same.symm))
              fun k _ => congrArg (fun log => log.events (Fin.ofNat maxEvents k)) same

/-! ## The runs -/

theorem reachable_ordered {acts : List ListingAct} {r : Reading} {history : History}
    (ran : run (observed listingStep watch) (Reading.initial, History.initial) acts =
      some (r, history)) : Ordered r history :=
  invariant_run (I := fun p => Ordered p.1 p.2) step_ordered ordered_initial ran

/-- From a log with any past, a listing that no clear interrupts. -/
theorem inOrder_of_no_clear {before during : List ListingAct} {r : Reading} {history : History}
    (ran : run (observed listingStep watch) (Reading.initial, History.initial) (before ++ during) =
      some (r, history))
    (elsewhere : ∀ act ∈ before, act.reads = false) (noClear : ∀ act ∈ during, act.clears = false) :
    InOrder r history := by
  rw [run_append] at ran
  obtain ⟨⟨first, past⟩, ranBefore, ranDuring⟩ := Option.bind_eq_some_iff.mp ran
  have untouched : Untouched first past :=
    invariant_meets (I := fun p => Untouched p.1 p.2) step_untouched ⟨rfl, rfl, rfl⟩
      (meets_of_forall_mem (fun act member _ => elsewhere act member) _) ranBefore
  exact invariant_meets (I := fun p => InOrder p.1 p.2) step_inOrder
    (untouched.inOrder (reachable_ordered ranBefore))
    (meets_of_forall_mem (fun act member _ => noClear act member) _) ranDuring

/-- **The listing.** Whatever is opened and cleared between its sessions, the
records a listing shows are live when they are shown, all different and in the
order of their recording; its text is theirs; and when no clear comes between
the first and the last session they are the first records of the log in order. -/
theorem listing_shows_recordings_in_order (acts : List ListingAct) (r : Reading)
    (history : History)
    (ran : run (observed listingStep watch) (Reading.initial, History.initial) acts =
      some (r, history)) :
    (∀ x ∈ history.shown, x.index < x.count) ∧
      (history.shown.map Shown.serial).Nodup ∧
      history.shown.Pairwise (fun a b => a.serial < b.serial) ∧
      (r.out = history.shown.flatMap fun x => eventsSeqShow x.event) ∧
      ∀ before during, acts = before ++ during → (∀ act ∈ before, act.reads = false) →
        (∀ act ∈ during, act.clears = false) →
        history.shown.map Shown.index = List.range history.shown.length ∧
          history.shown.map Shown.event = r.log.records.take history.shown.length := by
  have ordered := reachable_ordered ran
  refine ⟨ordered.live, ?_, ordered.shown, ordered.text, ?_⟩
  · rw [List.Nodup, List.pairwise_map]
    exact ordered.shown.imp Nat.ne_of_lt
  · rintro before during rfl elsewhere noClear
    exact (inOrder_of_no_clear ran elsewhere noClear).front

def opened (ns : UInt64) : ListingAct := .log (.eventsOpen ns ⟨ascii "cat", 7⟩)

/-- The log is cleared and grows again while the reader stands at index 1. -/
def clearedBetween : List ListingAct :=
  [opened 1, opened 2, .reader .start, .reader (.show true), .reader .next,
    .reader (.show false), .reader .stop, .log (.eventsWrite (ascii "clear") 0), opened 3,
    opened 4, opened 5, .reader .start, .reader (.show true), .reader .next, .reader .stop]

theorem listing_across_a_clear :
    ∃ r history, run (observed listingStep watch) (Reading.initial, History.initial)
        clearedBetween = some (r, history) ∧
      history.shown.map (fun x => (x.index, x.serial)) = [(0, 0), (1, 3)] ∧
      history.shown.Pairwise fun a b => a.serial < b.serial := by
  have ran := run_get (observed listingStep watch) (Reading.initial, History.initial)
    clearedBetween (by decide +kernel)
  exact ⟨_, _, ran, by decide +kernel,
    (listing_shows_recordings_in_order clearedBetween _ _ ran).2.2.1⟩

end ProcfsSeqfile.Listing
