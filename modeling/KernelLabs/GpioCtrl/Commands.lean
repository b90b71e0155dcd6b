import KernelLabs.GpioCtrl.Interfaces
import KernelLabs.Kernel.Text

/-!
# The commands of `/dev/gpioctrl`

The texts `gpioctrl_write` takes, what each of them changes, and that a write
which fails has changed nothing: every error comes before the first store, or
from the GPIO read of a `sync` that has none.
-/

set_option autoImplicit false

namespace GpioCtrl

open Kernel

/-! ## The grammar -/

/-- The trimmed text is this command. -/
def Accepted (text : Bytes) : Command → Prop
  | .sync => text = ascii "sync"
  | .resetStats => text = ascii "reset_stats"
  | .invert value => ∃ rest, text = ascii "invert=" ++ rest ∧ kstrtobool rest = .ok value
  | .pollMs value => ∃ rest, text = ascii "poll_ms=" ++ rest ∧ kstrtouint 0 rest = .ok value ∧
      10 ≤ value ∧ value ≤ 60000

theorem parseInvert_ok_iff {text : Bytes} {command : Command} :
    parseInvert text = .ok command ↔ ∃ value, kstrtobool text = .ok value ∧
      command = .invert value := by
  unfold parseInvert
  cases kstrtobool text with
  | error e => simp
  | ok value => simp [eq_comm]

theorem parsePollMs_ok_iff {text : Bytes} {command : Command} :
    parsePollMs text = .ok command ↔ ∃ value, kstrtouint 0 text = .ok value ∧
      (10 ≤ value ∧ value ≤ 60000) ∧ command = .pollMs value := by
  unfold parsePollMs
  cases kstrtouint 0 text with
  | error e => simp
  | ok value =>
      have range : ¬ (value < minPollMs ∨ maxPollMs < value) ↔ 10 ≤ value ∧ value ≤ 60000 := by
        rw [not_or, UInt32.not_lt, UInt32.not_lt]
        rfl
      by_cases inside : 10 ≤ value ∧ value ≤ 60000
      · simp only [range.mpr inside, if_false]
        simp [inside, eq_comm]
      · simp only [not_not.mp (fun outside => inside (range.mp outside)), if_true]
        simp [inside]

theorem isPrefixOf_iff {word text : Bytes} :
    word.isPrefixOf text = true ↔ text = word ++ text.drop word.length := by
  rw [List.isPrefixOf_iff_prefix, List.prefix_iff_eq_append, eq_comm]

/-- The text behind a command word is what `cmd + n` points to. -/
theorem eq_append_iff {word text : Bytes} {P : Bytes → Prop} :
    (∃ rest, text = word ++ rest ∧ P rest) ↔
      word.isPrefixOf text = true ∧ P (text.drop word.length) := by
  constructor
  · rintro ⟨rest, rfl, holds⟩
    refine ⟨isPrefixOf_iff.mpr ?_, ?_⟩
    · rw [List.drop_left]
    · rwa [List.drop_left]
  · rintro ⟨starts, holds⟩
    exact ⟨_, isPrefixOf_iff.mp starts, holds⟩

theorem accepted_invert {text : Bytes} {value : Bool} : Accepted text (.invert value) ↔
    (ascii "invert=").isPrefixOf text = true ∧ kstrtobool (text.drop 7) = .ok value :=
  eq_append_iff

theorem accepted_pollMs {text : Bytes} {value : UInt32} : Accepted text (.pollMs value) ↔
    (ascii "poll_ms=").isPrefixOf text = true ∧ kstrtouint 0 (text.drop 8) = .ok value ∧
      10 ≤ value ∧ value ≤ 60000 :=
  eq_append_iff

/-! No text is two commands: the words differ in their first letters. -/

theorem accepted_sync_iff {command : Command} :
    Accepted (ascii "sync") command ↔ command = .sync := by
  constructor
  · intro accepted
    cases command with
    | sync => rfl
    | resetStats => exact absurd accepted (by decide : ascii "sync" ≠ ascii "reset_stats")
    | invert value => exact absurd (accepted_invert.mp accepted).1 (by decide)
    | pollMs value => exact absurd (accepted_pollMs.mp accepted).1 (by decide)
  · rintro rfl
    rfl

theorem accepted_resetStats_iff {command : Command} :
    Accepted (ascii "reset_stats") command ↔ command = .resetStats := by
  constructor
  · intro accepted
    cases command with
    | sync => exact absurd accepted (by decide : ascii "reset_stats" ≠ ascii "sync")
    | resetStats => rfl
    | invert value => exact absurd (accepted_invert.mp accepted).1 (by decide)
    | pollMs value => exact absurd (accepted_pollMs.mp accepted).1 (by decide)
  · rintro rfl
    rfl

theorem not_both_prefixes {text : Bytes} (invert : (ascii "invert=").isPrefixOf text = true)
    (pollMs : (ascii "poll_ms=").isPrefixOf text = true) : False := by
  rw [isPrefixOf_iff.mp invert] at pollMs
  cases pollMs

theorem accepted_invert_iff {text : Bytes} (starts : (ascii "invert=").isPrefixOf text = true)
    {command : Command} :
    Accepted text command ↔
      ∃ value, kstrtobool (text.drop 7) = .ok value ∧ command = .invert value := by
  constructor
  · intro accepted
    cases command with
    | sync =>
        cases (accepted : text = ascii "sync")
        exact absurd starts (by decide)
    | resetStats =>
        cases (accepted : text = ascii "reset_stats")
        exact absurd starts (by decide)
    | invert value => exact ⟨value, (accepted_invert.mp accepted).2, rfl⟩
    | pollMs value => exact (not_both_prefixes starts (accepted_pollMs.mp accepted).1).elim
  · rintro ⟨value, parsed, rfl⟩
    exact accepted_invert.mpr ⟨starts, parsed⟩

theorem accepted_pollMs_iff {text : Bytes} (starts : (ascii "poll_ms=").isPrefixOf text = true)
    {command : Command} :
    Accepted text command ↔ ∃ value, kstrtouint 0 (text.drop 8) = .ok value ∧
      (10 ≤ value ∧ value ≤ 60000) ∧ command = .pollMs value := by
  constructor
  · intro accepted
    cases command with
    | sync =>
        cases (accepted : text = ascii "sync")
        exact absurd starts (by decide)
    | resetStats =>
        cases (accepted : text = ascii "reset_stats")
        exact absurd starts (by decide)
    | invert value => exact (not_both_prefixes (accepted_invert.mp accepted).1 starts).elim
    | pollMs value =>
        obtain ⟨_, parsed, range⟩ := accepted_pollMs.mp accepted
        exact ⟨value, parsed, range, rfl⟩
  · rintro ⟨value, parsed, range, rfl⟩
    exact accepted_pollMs.mpr ⟨starts, parsed, range⟩

/-- `gpioctrl_write` behind its bounds and its copy. -/
theorem parseWrite_within {data : Bytes} (within : 1 ≤ data.length ∧ data.length ≤ 63) :
    parseWrite data 0 =
      if sysfsStreq (strim (cstr data)) (ascii "sync") then .ok .sync
      else if sysfsStreq (strim (cstr data)) (ascii "reset_stats") then .ok .resetStats
      else if (ascii "invert=").isPrefixOf (strim (cstr data)) then
        parseInvert ((strim (cstr data)).drop 7)
      else if (ascii "poll_ms=").isPrefixOf (strim (cstr data)) then
        parsePollMs ((strim (cstr data)).drop 8)
      else .error .einval := by
  have bounds : ¬ (data.length = 0 ∨ 64 ≤ data.length) := by omega
  rw [parseWrite, if_neg bounds, if_neg (not_not.mpr rfl)]

theorem parseWrite_ok_iff {data : Bytes} {command : Command} :
    parseWrite data 0 = .ok command ↔
      (1 ≤ data.length ∧ data.length ≤ 63) ∧ Accepted (strim (cstr data)) command := by
  by_cases within : 1 ≤ data.length ∧ data.length ≤ 63
  · rw [parseWrite_within within, and_iff_right within]
    have sync : sysfsStreq (strim (cstr data)) (ascii "sync") = true ↔
        strim (cstr data) = ascii "sync" := sysfsStreq_strim (by decide) _
    have reset : sysfsStreq (strim (cstr data)) (ascii "reset_stats") = true ↔
        strim (cstr data) = ascii "reset_stats" := sysfsStreq_strim (by decide) _
    generalize strim (cstr data) = text at sync reset
    by_cases isSync : text = ascii "sync"
    · rw [if_pos (sync.mpr isSync), isSync, accepted_sync_iff, Except.ok.injEq, eq_comm]
    rw [if_neg (fun same => isSync (sync.mp same))]
    by_cases isReset : text = ascii "reset_stats"
    · rw [if_pos (reset.mpr isReset), isReset, accepted_resetStats_iff, Except.ok.injEq, eq_comm]
    rw [if_neg (fun same => isReset (reset.mp same))]
    by_cases isInvert : (ascii "invert=").isPrefixOf text = true
    · rw [if_pos isInvert, parseInvert_ok_iff, accepted_invert_iff isInvert]
    rw [if_neg isInvert]
    by_cases isPoll : (ascii "poll_ms=").isPrefixOf text = true
    · rw [if_pos isPoll, parsePollMs_ok_iff, accepted_pollMs_iff isPoll]
    rw [if_neg isPoll]
    refine iff_of_false nofun fun accepted => ?_
    cases command with
    | sync => exact isSync accepted
    | resetStats => exact isReset accepted
    | invert value => exact isInvert (accepted_invert.mp accepted).1
    | pollMs value => exact isPoll (accepted_pollMs.mp accepted).1
  · have bounds : data.length = 0 ∨ 64 ≤ data.length := by omega
    rw [parseWrite, if_pos bounds]
    exact iff_of_false nofun fun both => within both.1

/-! ## What a command does -/

/-- The command triggers a sample. -/
def Command.samples : Command → Bool
  | .sync | .invert _ => true
  | .resetStats | .pollMs _ => false

/-- `gpioctrl_sample_once` on the state `st`; a failing read leaves it alone. -/
def sampled (shared : Shared) (st : GpioctrlState) (caller : Identity) : Shared :=
  if shared.buttonLine < 0 then { shared with state := some st }
  else commitSample shared st caller shared.buttonLine

def performed (shared : Shared) (st : GpioctrlState) (caller : Identity) : Command → Shared
  | .sync => sampled shared st caller
  | .resetStats => { shared with state := some (resetStats st) }
  | .invert value => sampled shared (storeInvert st value) caller
  | .pollMs value => modDelayedWork { shared with state := some (storePollMs st value) } value

/-- What the call returns: the byte count, or the error of the read that `sync`
reports. -/
def returned (shared : Shared) (count : Nat) (command : Command) : Int :=
  if command = .sync ∧ shared.buttonLine < 0 then shared.buttonLine else count

theorem serve_command {shared : Shared} {st : GpioctrlState} (held : shared.state = some st)
    (origin : Origin) (caller : Identity) (count : Nat) (command : Command) :
    serve shared ⟨origin, caller, count, enter (.ok command)⟩ =
      (performed shared st caller command,
        ⟨origin, caller, count, .done (returned shared count command)⟩) := by
  have value : readButton shared = shared.buttonLine := by simp [readButton, held]
  have same : { shared with state := some st } = shared := by rw [← held]
  cases command with
  | sync =>
      by_cases fails : shared.buttonLine < 0
      · simp [serve, alone, enter, callStep, value, fails, performed, sampled, returned, same]
      · simp [serve, alone, enter, callStep, value, fails, performed, sampled, returned, held]
  | resetStats => simp [serve, alone, enter, callStep, held, performed, returned]
  | invert value =>
      have line : readButton { shared with state := some (storeInvert st value) } =
          shared.buttonLine := by simp [readButton]
      by_cases fails : shared.buttonLine < 0
      · simp [serve, alone, enter, callStep, held, line, fails, performed, sampled, returned]
      · simp [serve, alone, enter, callStep, held, line, fails, performed, sampled, returned,
          commitSample]
  | pollMs value => simp [serve, alone, enter, callStep, held, performed, returned]

theorem serve_error (shared : Shared) (origin : Origin) (caller : Identity) (count : Nat)
    (e : Errno) : serve shared ⟨origin, caller, count, enter (.error e)⟩ =
      (shared, ⟨origin, caller, count, .done e.code⟩) := rfl

section Sampled
variable (shared : Shared) (st : GpioctrlState) (caller : Identity)

theorem sampled_state : (sampled shared st caller).state =
    some (if shared.buttonLine < 0 then st else (sampleSection st caller shared.buttonLine).1) := by
  unfold sampled
  split <;> rfl

theorem sampled_machine : (sampled shared st caller).buttonLine = shared.buttonLine ∧
    (sampled shared st caller).work = shared.work ∧
    (sampled shared st caller).phase = shared.phase ∧
    (sampled shared st caller).fault = shared.fault := by
  unfold sampled
  split <;> exact ⟨rfl, rfl, rfl, rfl⟩

theorem sampled_pending : (sampled shared st caller).pending = shared.pending := by
  unfold sampled
  split <;> rfl

end Sampled

theorem modDelayedWork_keeps (shared : Shared) (delay : UInt32) :
    (modDelayedWork shared delay).state = shared.state ∧
      ((modDelayedWork shared delay).buttonLine = shared.buttonLine ∧
        (modDelayedWork shared delay).work = shared.work ∧
        (modDelayedWork shared delay).phase = shared.phase ∧
        (modDelayedWork shared delay).fault = shared.fault) ∧
      (modDelayedWork shared delay).ledLine = shared.ledLine := by
  unfold modDelayedWork
  split <;> exact ⟨rfl, ⟨rfl, rfl, rfl, rfl⟩, rfl⟩

/-- The fields that a command may change. -/
structure ChangesOnly (command : Command) (shared next : Shared) (st after : GpioctrlState) :
    Prop where
  machine : next.buttonLine = shared.buttonLine ∧ next.work = shared.work ∧
    next.phase = shared.phase ∧ next.fault = shared.fault
  loaded : after.loadedAtNs = st.loadedAtNs ∧ after.initPid = st.initPid ∧
    after.initComm = st.initComm
  invert : after.invert = match command with
    | .invert value => value
    | _ => st.invert
  pollMs : after.pollMs = match command with
    | .pollMs value => value
    | _ => st.pollMs
  pending : (∀ value, command ≠ .pollMs value) → next.pending = shared.pending
  sampled : command.samples = false → next.ledLine = shared.ledLine ∧ after.button = st.button ∧
    after.led = st.led ∧ after.lastSamplePid = st.lastSamplePid ∧
    after.lastSampleComm = st.lastSampleComm
  counters : command.samples = false → command ≠ .resetStats → after.samples = st.samples ∧
    after.changes = st.changes ∧ after.outputUpdates = st.outputUpdates
  reset : command = .resetStats → after.samples = 0 ∧ after.changes = 0 ∧ after.outputUpdates = 0

theorem performed_changes_only (shared : Shared) (st : GpioctrlState) (caller : Identity)
    (command : Command) : ∃ after, (performed shared st caller command).state = some after ∧
      ChangesOnly command shared (performed shared st caller command) st after := by
  cases command with
  | sync =>
      refine ⟨_, sampled_state shared st caller, sampled_machine shared st caller, ?_, ?_, ?_, ?_,
        fun never => Bool.noConfusion never, fun never => Bool.noConfusion never,
        fun never => Command.noConfusion never⟩
      · split <;> exact ⟨rfl, rfl, rfl⟩
      · split <;> rfl
      · split <;> rfl
      · exact fun _ => sampled_pending shared st caller
  | resetStats =>
      exact ⟨resetStats st, rfl, ⟨rfl, rfl, rfl, rfl⟩, ⟨rfl, rfl, rfl⟩, rfl, rfl, fun _ => rfl,
        fun _ => ⟨rfl, rfl, rfl, rfl, rfl⟩, fun _ other => absurd rfl other,
        fun _ => ⟨rfl, rfl, rfl⟩⟩
  | invert value =>
      refine ⟨_, sampled_state shared (storeInvert st value) caller,
        sampled_machine shared (storeInvert st value) caller, ?_, ?_, ?_, ?_,
        fun never => Bool.noConfusion never, fun never => Bool.noConfusion never,
        fun never => Command.noConfusion never⟩
      · split <;> exact ⟨rfl, rfl, rfl⟩
      · split <;> rfl
      · split <;> rfl
      · exact fun _ => sampled_pending shared (storeInvert st value) caller
  | pollMs value =>
      have armed := modDelayedWork_keeps { shared with state := some (storePollMs st value) } value
      refine ⟨storePollMs st value, armed.1, armed.2.1, ⟨rfl, rfl, rfl⟩, rfl, rfl, ?_, ?_, ?_, ?_⟩
      · intro other
        exact absurd rfl (other value)
      · exact fun _ => ⟨armed.2.2, rfl, rfl, rfl, rfl⟩
      · exact fun _ _ => ⟨rfl, rfl, rfl⟩
      · exact fun never => Command.noConfusion never

section Writes
variable {shared : Shared} {st : GpioctrlState} (held : shared.state = some st)
include held

/-- A negative return value is an error of the parser, which changed nothing, or
that of the read, which only `sync` reports. -/
theorem serve_failed (caller : Identity) (data : Bytes) (missing : Nat) {ret : Int}
    (negative : ret < 0)
    (failed : (serve shared
      ⟨.dev, caller, data.length, enter (parseWrite data missing)⟩).2.pc = .done ret) :
    (serve shared ⟨.dev, caller, data.length, enter (parseWrite data missing)⟩).1 = shared := by
  cases parsed : parseWrite data missing with
  | error e => rfl
  | ok command =>
      rw [parsed, serve_command held] at failed
      have value : returned shared data.length command = ret := CallPc.done.inj failed
      rw [serve_command held]
      by_cases reports : command = .sync ∧ shared.buttonLine < 0
      · obtain ⟨rfl, fails⟩ := reports
        rw [performed, sampled, if_pos fails, ← held]
      · rw [returned, if_neg reports] at value
        omega

theorem serve_taken_iff (readable : 0 ≤ shared.buttonLine) (caller : Identity) (data : Bytes) :
    (serve shared ⟨.dev, caller, data.length, enter (parseWrite data 0)⟩).2.pc =
        .done data.length ↔
      (1 ≤ data.length ∧ data.length ≤ 63) ∧
        ∃ command, Accepted (strim (cstr data)) command := by
  cases parsed : parseWrite data 0 with
  | error e =>
      rw [serve_error]
      refine iff_of_false ?_ ?_
      · intro same
        have code := e.code_neg
        have length := CallPc.done.inj same
        omega
      · rintro ⟨within, command, accepted⟩
        cases parsed.symm.trans (parseWrite_ok_iff.mpr ⟨within, accepted⟩)
  | ok command =>
      have succeeds : ¬ (command = .sync ∧ shared.buttonLine < 0) := fun both => by omega
      obtain ⟨within, accepted⟩ := parseWrite_ok_iff.mp parsed
      rw [serve_command held]
      refine iff_of_true ?_ ⟨within, command, accepted⟩
      rw [returned, if_neg succeeds]

end Writes

/-- **Commands.** With the user copy and the GPIO read succeeding, a write is
taken exactly when its trimmed text is a command of 1 to 63 bytes, and then it
has done what the command says and nothing else.  Whatever the copy and the read
answer, a write that fails has changed nothing. -/
theorem device_commands {shared : Shared} {st : GpioctrlState} (held : shared.state = some st)
    (caller : Identity) (data : Bytes) (missing : Nat) :
    (missing = 0 → 0 ≤ shared.buttonLine →
      ((serve shared ⟨.dev, caller, data.length, enter (parseWrite data missing)⟩).2.pc =
          .done data.length ↔
        (1 ≤ data.length ∧ data.length ≤ 63) ∧
          ∃ command, Accepted (strim (cstr data)) command) ∧
      ∀ command, 1 ≤ data.length ∧ data.length ≤ 63 → Accepted (strim (cstr data)) command →
        (serve shared ⟨.dev, caller, data.length, enter (parseWrite data missing)⟩).1 =
            performed shared st caller command ∧
          ∃ after, (performed shared st caller command).state = some after ∧
            ChangesOnly command shared (performed shared st caller command) st after) ∧
    ∀ ret, ret < 0 →
      (serve shared ⟨.dev, caller, data.length, enter (parseWrite data missing)⟩).2.pc = .done ret →
      (serve shared ⟨.dev, caller, data.length, enter (parseWrite data missing)⟩).1 = shared := by
  refine ⟨?_, fun ret negative failed => serve_failed held caller data missing negative failed⟩
  rintro rfl readable
  refine ⟨serve_taken_iff held readable caller data, ?_⟩
  intro command within accepted
  rw [parseWrite_ok_iff.mpr ⟨within, accepted⟩, serve_command held]
  exact ⟨rfl, performed_changes_only shared st caller command⟩

theorem device_commands_invert :
    (serve loadedShared ⟨.dev, ⟨ascii "sh", 7⟩, (ascii " invert=on\n").length,
      enter (parseWrite (ascii " invert=on\n") 0)⟩).2.pc = .done 11 := by
  have accepted : Accepted (strim (cstr (ascii " invert=on\n"))) (.invert true) :=
    ⟨ascii "on", by decide +kernel, by decide⟩
  have commands := device_commands (rfl : loadedShared.state = some _) ⟨ascii "sh", 7⟩
    (ascii " invert=on\n") 0
  exact (commands.1 rfl (by decide)).1.mpr ⟨by decide, _, accepted⟩

end GpioCtrl
