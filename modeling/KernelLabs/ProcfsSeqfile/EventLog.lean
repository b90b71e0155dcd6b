import KernelLabs.Kernel.Basic
import KernelLabs.Lib.Machine
import KernelLabs.Lib.OverwritingFifo

/-!
# The event log of `06_procfs_seqfile/procfs_seqfile.c`

An open of `/proc/procfs_demo/events` records itself in an array of 64 events
unless the array is full, and a write of "clear" empties the array without
touching its slots.  Both work under `events_lock` and are single steps here, so
a run is the list of the opens and writes in lock order.
-/

set_option autoImplicit false

namespace ProcfsSeqfile

open Kernel LabelledMachine OverwritingFifo

abbrev maxEvents : Nat := 64

instance : NeZero maxEvents := ⟨by decide⟩

def taskCommLen : Nat := 16

structure ProcEvent where
  ns : UInt64
  pid : Nat
  comm : Bytes
  deriving DecidableEq, Repr

/-- The statics under `events_lock`. -/
structure Log where
  events : Fin maxEvents → ProcEvent
  eventCount : Nat
  totalOpens : UInt64

def Log.initial : Log := ⟨fun _ => ⟨0, 0, []⟩, 0, 0⟩

/-- The record of an open by `current` when the clock reads `ns`. -/
def recordOf (ns : UInt64) (current : Identity) : ProcEvent :=
  ⟨ns, current.pid, strscpy taskCommLen current.comm⟩

def recordEvent (ns : UInt64) (current : Identity) (log : Log) : Log :=
  let log := { log with totalOpens := log.totalOpens + 1 }
  if log.eventCount < maxEvents then
    { log with
      events := Function.update log.events (Fin.ofNat maxEvents log.eventCount)
        (recordOf ns current)
      eventCount := log.eventCount + 1 }
  else log

section Record
variable (ns : UInt64) (current : Identity) {log : Log}

theorem recordEvent_of_room (room : log.eventCount < maxEvents) :
    recordEvent ns current log =
      ⟨Function.update log.events (Fin.ofNat maxEvents log.eventCount) (recordOf ns current),
        log.eventCount + 1, log.totalOpens + 1⟩ := by
  simp only [recordEvent, room, if_true]

theorem recordEvent_of_full (full : ¬ log.eventCount < maxEvents) :
    recordEvent ns current log = { log with totalOpens := log.totalOpens + 1 } := by
  simp only [recordEvent, full, if_false]

end Record

/-- What `events_write` checks before it takes the lock; `missing` is what
`copy_from_user` returns. -/
def checkClear (data : Bytes) (missing : Nat) : Except Errno Unit :=
  if data.length = 0 ∨ 16 ≤ data.length then .error .e2big
  else if missing ≠ 0 then .error .efault
  else if sysfsStreq (strim (cstr data)) (ascii "clear") then .ok ()
  else .error .einval

def eventsWrite (data : Bytes) (missing : Nat) (log : Log) : Except Errno Nat × Log :=
  match checkClear data missing with
  | .error e => (.error e, log)
  | .ok () => (.ok data.length, { log with eventCount := 0 })

inductive Act where
  | eventsOpen (ns : UInt64) (current : Identity)
  | eventsWrite (data : Bytes) (missing : Nat)
  deriving DecidableEq, Repr

def step (log : Log) : Act → Option Log
  | .eventsOpen ns current => some (recordEvent ns current log)
  | .eventsWrite data missing => some (eventsWrite data missing log).2

/-! ## What the log says about its history -/

/-- `events[0 .. event_count)`. -/
def Log.records (log : Log) : List ProcEvent := window log.events 0 log.eventCount

def Act.record : Act → Option ProcEvent
  | .eventsOpen ns current => some (recordOf ns current)
  | .eventsWrite _ _ => none

/-- The reading of `ktime_get_ns` an open makes. -/
def Act.reading (act : Act) : Option UInt64 := act.record.map ProcEvent.ns

/-- A write that is accepted. -/
def Act.clears : Act → Bool
  | .eventsOpen _ _ => false
  | .eventsWrite data missing => (checkClear data missing).isOk

/-- The opens since the last clear, or since load. -/
def opensSinceClear (acts : List Act) : List ProcEvent :=
  (acts.rtakeWhile fun act => !act.clears).filterMap Act.record

theorem eventsWrite_rejected {data : Bytes} {missing : Nat} {log : Log} {e : Errno}
    (rejected : (eventsWrite data missing log).1 = .error e) :
    (eventsWrite data missing log).2 = log := by
  unfold eventsWrite at rejected ⊢
  cases parsed : checkClear data missing with
  | error own => rfl
  | ok accepted =>
      rw [parsed] at rejected
      contradiction

/-- How the log accounts for the acts so far. -/
structure Recorded (past : List Act) (log : Log) : Prop where
  opens : log.totalOpens = UInt64.ofNat (past.filterMap Act.record).length
  count : log.eventCount = min maxEvents (opensSinceClear past).length
  records : log.records = (opensSinceClear past).take maxEvents

theorem recorded_initial : Recorded [] Log.initial := ⟨rfl, rfl, rfl⟩

section Past
variable (past : List Act)

theorem opensSinceClear_open (ns : UInt64) (current : Identity) :
    opensSinceClear (past ++ [.eventsOpen ns current]) =
      opensSinceClear past ++ [recordOf ns current] := by
  have kept : (!(Act.eventsOpen ns current).clears) = true := rfl
  rw [opensSinceClear, List.rtakeWhile_concat, if_pos kept, List.filterMap_append]
  rfl

theorem opensSinceClear_write (data : Bytes) (missing : Nat) :
    opensSinceClear (past ++ [.eventsWrite data missing]) =
      if (checkClear data missing).isOk then [] else opensSinceClear past := by
  rw [opensSinceClear, List.rtakeWhile_concat, Act.clears]
  cases (checkClear data missing).isOk with
  | true => rfl
  | false =>
      rw [Bool.not_false, if_pos rfl, if_neg Bool.false_ne_true, List.filterMap_append]
      exact List.append_nil _

theorem records_open (ns : UInt64) (current : Identity) :
    (past ++ [Act.eventsOpen ns current]).filterMap Act.record =
      past.filterMap Act.record ++ [recordOf ns current] :=
  List.filterMap_append

theorem records_write (data : Bytes) (missing : Nat) :
    (past ++ [Act.eventsWrite data missing]).filterMap Act.record = past.filterMap Act.record := by
  rw [List.filterMap_append]
  exact List.append_nil _

end Past

/-- An open is stored behind the records there are, as long as there is room. -/
theorem Recorded.eventsOpen {past : List Act} {log : Log} (recorded : Recorded past log)
    (ns : UInt64) (current : Identity) :
    Recorded (past ++ [.eventsOpen ns current]) (recordEvent ns current log) := by
  obtain ⟨opens, count, records⟩ := recorded
  have oneMore : log.totalOpens + 1 =
      UInt64.ofNat ((past ++ [Act.eventsOpen ns current]).filterMap Act.record).length := by
    rw [records_open, List.length_append, List.length_singleton, UInt64.ofNat_add, opens]
    rfl
  by_cases room : log.eventCount < maxEvents
  · have kept : opensSinceClear past = log.records := by
      rw [records, List.take_of_length_le (by omega)]
    rw [recordEvent_of_room ns current room]
    refine ⟨oneMore, ?_, ?_⟩
    · rw [opensSinceClear_open, List.length_append, List.length_singleton]
      dsimp only
      omega
    · have short : (opensSinceClear past ++ [recordOf ns current]).length ≤ maxEvents := by
        rw [List.length_append, List.length_singleton]
        omega
      have slot : Fin.ofNat maxEvents log.eventCount =
          Fin.ofNat maxEvents (0 + log.eventCount) := by rw [Nat.zero_add]
      rw [opensSinceClear_open, List.take_of_length_le short, kept, Log.records]
      dsimp only
      rw [slot, window_succ, window_update_outside _ _ _ _ room, Function.update_self]
      rfl
  · have full : maxEvents ≤ (opensSinceClear past).length := by omega
    rw [recordEvent_of_full ns current room]
    refine ⟨oneMore, ?_, ?_⟩
    · rw [opensSinceClear_open, List.length_append, List.length_singleton]
      dsimp only
      omega
    · rw [opensSinceClear_open, List.take_append_of_le_length full]
      exact records

theorem Recorded.eventsWrite {past : List Act} {log : Log} (recorded : Recorded past log)
    (data : Bytes) (missing : Nat) :
    Recorded (past ++ [.eventsWrite data missing])
      (ProcfsSeqfile.eventsWrite data missing log).2 := by
  obtain ⟨opens, count, records⟩ := recorded
  unfold ProcfsSeqfile.eventsWrite
  cases parsed : checkClear data missing with
  | error e =>
      refine ⟨?_, ?_, ?_⟩
      · rw [records_write]
        exact opens
      · rw [opensSinceClear_write, parsed]
        exact count
      · rw [opensSinceClear_write, parsed]
        exact records
  | ok accepted =>
      refine ⟨?_, ?_, ?_⟩
      · rw [records_write]
        exact opens
      · rw [opensSinceClear_write, parsed]
        rfl
      · rw [opensSinceClear_write, parsed]
        rfl

theorem step_recorded (past : List Act) (log : Log) (act : Act) (next : Log)
    (recorded : Recorded past log) (stepped : step log act = some next) :
    Recorded (past ++ [act]) next := by
  cases act with
  | eventsOpen ns current =>
      cases stepped
      exact recorded.eventsOpen ns current
  | eventsWrite data missing =>
      cases stepped
      exact recorded.eventsWrite data missing

theorem reachable_recorded {acts : List Act} {log : Log}
    (ran : run step Log.initial acts = some log) : Recorded acts log :=
  history_run step_recorded recorded_initial ran

/-- A monotone clock orders the opens since the last clear. -/
theorem opensSinceClear_ordered {acts : List Act}
    (monotone : (acts.filterMap Act.reading).Pairwise (· ≤ ·)) :
    (opensSinceClear acts).Pairwise fun a b => a.ns ≤ b.ns := by
  have all : (acts.filterMap Act.record).Pairwise fun a b => a.ns ≤ b.ns := by
    have readings : acts.filterMap Act.reading = (acts.filterMap Act.record).map ProcEvent.ns := by
      rw [List.map_filterMap]
      rfl
    rw [readings, List.pairwise_map] at monotone
    exact monotone
  exact all.sublist ((List.rtakeWhile_suffix _ acts).sublist.filterMap Act.record)

/-- **The event log.** After every run of opens, clears and rejected writes: at
most 64 events; one open counted for each; the slots in use are the records of
the first 64 opens since the last clear, in order, with their times in order
when the clock is; and a rejected write leaves everything as it is. -/
theorem event_log_contents (acts : List Act) (log : Log)
    (ran : run step Log.initial acts = some log) :
    log.eventCount ≤ maxEvents ∧
      log.totalOpens = UInt64.ofNat (acts.filterMap Act.record).length ∧
      log.eventCount = min maxEvents (opensSinceClear acts).length ∧
      log.records = (opensSinceClear acts).take maxEvents ∧
      ((acts.filterMap Act.reading).Pairwise (· ≤ ·) →
        log.records.Pairwise fun a b => a.ns ≤ b.ns) ∧
      ∀ data missing e, (eventsWrite data missing log).1 = .error e →
        (eventsWrite data missing log).2 = log := by
  obtain ⟨opens, count, records⟩ := reachable_recorded ran
  refine ⟨count ▸ Nat.min_le_left _ _, opens, count, records, fun monotone => ?_,
    fun _ _ _ rejected => eventsWrite_rejected rejected⟩
  rw [records]
  exact (opensSinceClear_ordered monotone).sublist (List.take_sublist _ _)

/-- A clear leaves a stale slot behind the record of the next open. -/
def staleActs : List Act :=
  [.eventsOpen 1 ⟨ascii "cat", 7⟩, .eventsOpen 2 ⟨ascii "cat", 8⟩,
    .eventsWrite (ascii "clear\n") 0, .eventsOpen 5 ⟨ascii "dd", 9⟩,
    .eventsWrite (ascii "reset") 0]

theorem event_log_contents_of_stale :
    ∃ log, run step Log.initial staleActs = some log ∧ log.records = [⟨5, 9, ascii "dd"⟩] :=
  have contents := event_log_contents staleActs _ rfl
  ⟨_, rfl, contents.2.2.2.1.trans (by decide +kernel)⟩

end ProcfsSeqfile
