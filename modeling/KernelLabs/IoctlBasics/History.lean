import KernelLabs.IoctlBasics.Ioctl
import KernelLabs.Lib.Observer

/-!
# What `stats` says of the calls made

Beside the driver runs a log of the calls and what each returned.  `told` is what
`stats` ought to be by the log, its 64-bit counters being numbers modulo 2 ^ 64.
`GET_STATS` and `ECHO` count a call before they copy its answer out, so `stats`
says what the log says exactly as long as no such copy fails.
-/

set_option autoImplicit false

namespace IoctlBasics

open Kernel LabelledMachine

def callStep (stats : Stats) (call : Call) : Option Stats :=
  (ioctlBasicsIoctl stats call).map Prod.fst

/-- A call in the log, with the statistics it found. -/
structure Entry where
  call : Call
  before : Stats
  answer : Option (Except Errno Payload)

def record (stats : Stats) (log : List Entry) (call : Call) : List Entry :=
  ⟨call, stats, (ioctlBasicsIoctl stats call).map Prod.snd⟩ :: log

/-- The call returned 0. -/
def Entry.succeeded (e : Entry) : Bool :=
  match e.answer with
  | some (.ok _) => true
  | _ => false

def Entry.succeededIn (e : Entry) (cmd : UInt32) : Bool := e.call.cmd == cmd && e.succeeded

def Entry.isReset (e : Entry) : Bool := e.call.cmd == cmdReset

/-- The calls after the last `RESET`, the latest one first as in the whole log. -/
def sinceReset (log : List Entry) : List Entry := log.takeWhile fun e => !e.isReset

def lastMode (log : List Entry) : UInt32 :=
  match (sinceReset log).find? (·.succeededIn cmdSetMode) with
  | some e => u32 (e.call.argument 4)
  | none => modeIdentity

def told (log : List Entry) : Stats where
  reads := UInt64.ofNat ((sinceReset log).countP (·.succeededIn cmdGetStats))
  echoes := UInt64.ofNat ((sinceReset log).countP (·.succeededIn cmdEcho))
  resets := UInt64.ofNat (log.countP (·.isReset))
  mode := lastMode log

def Stats.Defined (stats : Stats) : Prop :=
  stats.mode = modeIdentity ∨ stats.mode = modeUpper ∨ stats.mode = modeReverse

/-- What `SET_MODE` accepts is one of the three modes. -/
theorem mode_defined {mode : UInt32} (known : ¬ modeReverse < mode) :
    mode = modeIdentity ∨ mode = modeUpper ∨ mode = modeReverse := by
  simp only [modeIdentity, modeUpper, modeReverse, UInt32.lt_iff_toNat_lt, ← UInt32.toNat_inj] at *
  simp at *
  omega

/-- The statistics are those the log tells, and a last call that failed left them
as it found them. -/
structure Tells (log : List Entry) (stats : Stats) : Prop where
  told : stats = told log
  defined : stats.Defined
  failed : ∀ e ∈ log.head?, e.succeeded = false → stats = e.before

/-! ## One more call in the log -/

section Log
variable (e : Entry) (log : List Entry)

theorem told_reset (reset : e.isReset = true) : told (e :: log) =
    { reads := 0, echoes := 0, resets := (told log).resets + 1, mode := modeIdentity } := by
  simp [told, lastMode, sinceReset, reset, UInt64.ofNat_add]

variable (notReset : e.isReset = false)
include notReset

theorem sinceReset_cons : sinceReset (e :: log) = e :: sinceReset log := by
  simp [sinceReset, notReset]

theorem told_cons : told (e :: log) =
    { reads := (told log).reads + if e.succeededIn cmdGetStats then 1 else 0
      echoes := (told log).echoes + if e.succeededIn cmdEcho then 1 else 0
      resets := (told log).resets
      mode := if e.succeededIn cmdSetMode then u32 (e.call.argument 4) else (told log).mode } := by
  have since := sinceReset_cons e log notReset
  simp only [told, lastMode, since, List.countP_cons, List.find?_cons, notReset]
  congr 1
  · split <;> simp [UInt64.ofNat_add]
  · split <;> simp [UInt64.ofNat_add]
  · cases e.succeededIn cmdSetMode <;> rfl

theorem told_failed (failed : e.succeeded = false) : told (e :: log) = told log := by
  rw [told_cons e log notReset]
  simp [Entry.succeededIn, failed]

end Log

/-! ## One call -/

/-- The last user copy of the call succeeds, where it has one. -/
def CopiesOut (call : Call) : Prop :=
  (call.cmd = cmdGetStats ∨ call.cmd = cmdEcho ∧ call.missingIn = 0) → call.missingOut = 0

instance (call : Call) : Decidable (CopiesOut call) := inferInstanceAs (Decidable (_ → _))

theorem ioctl_total (stats : Stats) (call : Call) :
    ∃ next answer, ioctlBasicsIoctl stats call = some (next, answer) := by
  by_cases isReset : call.cmd = cmdReset
  · exact ⟨_, _, ioctl_reset stats isReset⟩
  by_cases isGet : call.cmd = cmdGetStats
  · exact ⟨_, _, ioctl_getStats stats isGet⟩
  by_cases isSet : call.cmd = cmdSetMode
  · rcases ioctl_setMode stats isSet with ⟨e, refused⟩ | ⟨_, accepted⟩
    · exact ⟨_, _, refused⟩
    · exact ⟨_, _, accepted⟩
  by_cases isEcho : call.cmd = cmdEcho
  · by_cases copied : call.missingIn = 0
    · obtain ⟨buf, made, _⟩ := echo_transforms call stats.mode
      exact ⟨_, _, ioctl_echo stats isEcho copied made⟩
    · exact ⟨_, _, ioctl_echo_fault stats isEcho copied⟩
  exact ⟨_, _, ioctl_other stats isReset isGet isSet isEcho⟩

section Step
variable {log : List Entry} {stats next : Stats} {call : Call} {answer : Except Errno Payload}

/-- The entry of a call that returned `answer`. -/
def entry (call : Call) (stats : Stats) (answer : Except Errno Payload) : Entry :=
  ⟨call, stats, some answer⟩

theorem Tells.unchanged (tells : Tells log stats) (notReset : call.cmd ≠ cmdReset) (e : Errno) :
    Tells (entry call stats (.error e) :: log) stats := by
  refine ⟨?_, tells.defined, ?_⟩
  · rw [told_failed _ log (beq_false_of_ne notReset) rfl]
    exact tells.told
  · intro found head _
    cases head
    rfl

theorem Tells.changed (tells : Tells log stats) (notReset : call.cmd ≠ cmdReset) (e : Errno)
    (changed : next ≠ stats) : ¬ Tells (entry call stats (.error e) :: log) next := by
  intro still
  have same := still.told
  rw [told_failed _ log (beq_false_of_ne notReset) rfl, ← tells.told] at same
  exact changed same

/-- A call that returns 0 and leaves what its log entry tells. -/
theorem tells_of_told {payload : Payload} (defined : next.Defined)
    (same : next = told (entry call stats (.ok payload) :: log)) :
    Tells (entry call stats (.ok payload) :: log) next := by
  refine ⟨same, defined, ?_⟩
  intro found head failed
  cases head
  cases failed

theorem told_succeeded (notReset : call.cmd ≠ cmdReset) (payload : Payload) :
    told (entry call stats (.ok payload) :: log) =
      { reads := (told log).reads + if call.cmd = cmdGetStats then 1 else 0
        echoes := (told log).echoes + if call.cmd = cmdEcho then 1 else 0
        resets := (told log).resets
        mode := if call.cmd = cmdSetMode then u32 (call.argument 4) else (told log).mode } := by
  rw [told_cons _ log (beq_false_of_ne notReset)]
  simp [Entry.succeededIn, entry, Entry.succeeded]

theorem u64_succ_ne (x : UInt64) : x + 1 ≠ x := by
  intro same
  simp at same

/-! Each command, on statistics that tell the log. -/

theorem tells_reset (tells : Tells log stats) (cmd : call.cmd = cmdReset)
    (called : ioctlBasicsIoctl stats call = some (next, answer)) :
    Tells (entry call stats answer :: log) next := by
  cases (ioctl_reset stats cmd).symm.trans called
  refine tells_of_told ?_ ?_
  · exact Or.inl rfl
  · rw [told_reset _ log (beq_iff_eq.mpr cmd), ← tells.told]

theorem tells_getStats_iff (tells : Tells log stats) (cmd : call.cmd = cmdGetStats)
    (called : ioctlBasicsIoctl stats call = some (next, answer)) :
    Tells (entry call stats answer :: log) next ↔ call.missingOut = 0 := by
  have notReset : call.cmd ≠ cmdReset := by simp [cmd, command_numbers]
  cases (ioctl_getStats stats cmd).symm.trans called
  by_cases copied : call.missingOut = 0
  · rw [if_neg (not_not.mpr copied)]
    refine iff_of_true (tells_of_told tells.defined ?_) copied
    rw [told_succeeded notReset, ← tells.told]
    simp [cmd, command_numbers]
  · rw [if_pos copied]
    refine iff_of_false (tells.changed notReset _ ?_) copied
    exact fun equal => u64_succ_ne _ (congrArg Stats.reads equal)

theorem tells_setMode (tells : Tells log stats) (cmd : call.cmd = cmdSetMode)
    (called : ioctlBasicsIoctl stats call = some (next, answer)) :
    Tells (entry call stats answer :: log) next := by
  have notReset : call.cmd ≠ cmdReset := by simp [cmd, command_numbers]
  rcases ioctl_setMode stats cmd with ⟨e, refused⟩ | ⟨known, accepted⟩
  · cases refused.symm.trans called
    exact tells.unchanged notReset e
  · cases accepted.symm.trans called
    refine tells_of_told ?_ ?_
    · exact mode_defined known
    · rw [told_succeeded notReset, ← tells.told]
      simp [cmd, command_numbers]

theorem tells_echo_iff (tells : Tells log stats) (cmd : call.cmd = cmdEcho)
    (called : ioctlBasicsIoctl stats call = some (next, answer)) :
    Tells (entry call stats answer :: log) next ↔ (call.missingIn = 0 → call.missingOut = 0) := by
  have notReset : call.cmd ≠ cmdReset := by simp [cmd, command_numbers]
  by_cases copiedIn : call.missingIn = 0
  · obtain ⟨buf, made, _⟩ := echo_transforms call stats.mode
    cases (ioctl_echo stats cmd copiedIn made).symm.trans called
    by_cases copied : call.missingOut = 0
    · rw [if_neg (not_not.mpr copied)]
      refine iff_of_true (tells_of_told tells.defined ?_) fun _ => copied
      rw [told_succeeded notReset, ← tells.told]
      simp [cmd, command_numbers]
    · rw [if_pos copied]
      refine iff_of_false (tells.changed notReset _ ?_) fun copies => copied (copies copiedIn)
      exact fun equal => u64_succ_ne _ (congrArg Stats.echoes equal)
  · cases (ioctl_echo_fault stats cmd copiedIn).symm.trans called
    exact iff_of_true (tells.unchanged notReset _) fun copied => absurd copied copiedIn

/-- One call keeps the statistics telling the log exactly when it copies out. -/
theorem tells_call_iff (tells : Tells log stats)
    (called : ioctlBasicsIoctl stats call = some (next, answer)) :
    Tells (entry call stats answer :: log) next ↔ CopiesOut call := by
  by_cases isGet : call.cmd = cmdGetStats
  · rw [tells_getStats_iff tells isGet called, CopiesOut]
    simp [isGet]
  by_cases isEcho : call.cmd = cmdEcho
  · rw [tells_echo_iff tells isEcho called, CopiesOut]
    simp [isEcho, command_numbers]
  have copies : CopiesOut call := by
    rintro (get | ⟨echo, _⟩)
    · exact absurd get isGet
    · exact absurd echo isEcho
  refine iff_of_true ?_ copies
  by_cases isReset : call.cmd = cmdReset
  · exact tells_reset tells isReset called
  by_cases isSet : call.cmd = cmdSetMode
  · exact tells_setMode tells isSet called
  cases (ioctl_other stats isReset isGet isSet isEcho).symm.trans called
  exact tells.unchanged isReset _

end Step

/-! ## Any sequence of calls -/

abbrev logged : Stats × List Entry → Call → Option (Stats × List Entry) := observed callStep record

theorem logged_eq_some {stats : Stats} {log : List Entry} {call : Call} {next : Stats × List Entry}
    (stepped : logged (stats, log) call = some next) :
    ∃ answer, ioctlBasicsIoctl stats call = some (next.1, answer) ∧
      next.2 = entry call stats answer :: log := by
  obtain ⟨after, grown⟩ := next
  obtain ⟨called, same⟩ := observed_eq_some.mp stepped
  obtain ⟨⟨last, answer⟩, ran, rfl⟩ := Option.map_eq_some_iff.mp called
  refine ⟨answer, ran, ?_⟩
  rw [same, record, ran, Option.map_some]
  rfl

theorem logged_enabled (s : Stats × List Entry) (call : Call) :
    ∃ next, logged s call = some next := by
  obtain ⟨stats, log⟩ := s
  obtain ⟨next, answer, called⟩ := ioctl_total stats call
  refine ⟨(next, record stats log call), observed_eq_some.mpr ⟨?_, rfl⟩⟩
  rw [callStep, called, Option.map_some]

theorem tells_initial : Tells [] Stats.initial :=
  ⟨rfl, Or.inl rfl, fun _ head => absurd head (Option.not_mem_none _)⟩

/-- **Statistics.** Any sequence of calls runs, and `stats` says at every moment
of it what the log says exactly when no copy of an answer fails. -/
theorem stats_tell_iff (calls : List Call) :
    (∃ last, run logged (Stats.initial, []) calls = some last) ∧
      (Always logged (fun s => Tells s.2 s.1) (Stats.initial, []) calls ↔
        ∀ call ∈ calls, CopiesOut call) := by
  obtain ⟨last, ran⟩ := run_of_enabled logged_enabled (Stats.initial, []) calls
  refine ⟨⟨last, ran⟩, ?_⟩
  have exactly : Always logged (fun s => Tells s.2 s.1) (Stats.initial, []) calls ↔
      Meets logged (fun _ call => CopiesOut call) (Stats.initial, []) calls := by
    refine always_iff_meets (G := fun _ => True) (fun _ _ _ _ _ => trivial) ?_ trivial
      tells_initial ran
    intro s call next _ tells stepped
    obtain ⟨answer, called, grown⟩ := logged_eq_some stepped
    rw [grown]
    exact tells_call_iff tells called
  rw [exactly]
  constructor
  · intro meets
    exact forall_mem_of_meets meets ran
  · intro all
    exact meets_of_forall_mem (fun call member _ => all call member) _

/-- A first `GET_STATS` that cannot be copied out: it fails and is counted. -/
theorem stats_count_failed_call :
    ∃ next log, run logged (Stats.initial, []) [⟨cmdGetStats, fun _ => 0, 0, 32⟩] =
        some (next, log) ∧ log.map (·.answer) = [some (.error .efault)] ∧ next.reads = 1 ∧
      ¬ Tells log next := by
  refine ⟨_, _, rfl, rfl, rfl, ?_⟩
  intro tells
  exact absurd tells.told (by decide)

end IoctlBasics
