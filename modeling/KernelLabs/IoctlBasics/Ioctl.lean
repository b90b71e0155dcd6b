import KernelLabs.IoctlBasics.Transform

/-!
# `ioctl_basics_ioctl` of `10_ioctl_basics/ioctl_basics.c`

Each command takes `state_lock` at most once, so the calls of any number of
processes are a sequence.  Two commands change `stats` before their last user
copy, `GET_STATS` and `ECHO`; a fault of that copy is then an `-EFAULT` with
`stats` already changed.
-/

set_option autoImplicit false

namespace IoctlBasics

open Kernel

/-! ## Command numbers of `ioctl_basics.h` -/

/-- `_IOC` with the magic `'k'`: direction, payload size and number. -/
def ioc (dir size nr : UInt32) : UInt32 :=
  dir <<< 30 ||| size <<< 16 ||| (107 : UInt32) <<< 8 ||| nr

def cmdReset : UInt32 := ioc 0 0 1
def cmdGetStats : UInt32 := ioc 2 32 2
def cmdSetMode : UInt32 := ioc 1 4 3
def cmdEcho : UInt32 := ioc 3 64 4

theorem command_numbers : cmdReset = 0x6B01 ∧ cmdGetStats = 0x80206B02 ∧
    cmdSetMode = 0x40046B03 ∧ cmdEcho = 0xC0406B04 := by decide

/-! ## The driver -/

structure Stats where
  reads : UInt64
  echoes : UInt64
  resets : UInt64
  mode : UInt32
  deriving DecidableEq, Repr

def Stats.initial : Stats := ⟨0, 0, 0, modeIdentity⟩

/-- A call: the command, the caller's memory from `argp` on, and what
`copy_from_user` and `copy_to_user` return. -/
structure Call where
  cmd : UInt32
  memory : Nat → UInt8
  missingIn : Nat
  missingOut : Nat

def Call.argument (call : Call) (size : Nat) : Bytes := (List.range size).map call.memory

/-- A little-endian `__u32`. -/
def u32 (bytes : Bytes) : UInt32 := bytes.foldr (fun c value => c.toUInt32 + 256 * value) 0

/-- What a call that returns 0 has copied out to `argp`. -/
inductive Payload where
  | nothing
  | stats (snapshot : Stats)
  | echo (buf : Bytes)
  deriving DecidableEq, Repr

/-- `req.buf` as `ECHO` hands it to `apply_mode_transform`. -/
def Call.request (call : Call) : Bytes := (call.argument 64).set 63 0

def ioctlBasicsIoctl (stats : Stats) (call : Call) : Option (Stats × Except Errno Payload) :=
  if call.cmd = cmdReset then
    some ({ stats with
      reads := 0, echoes := 0, mode := modeIdentity, resets := stats.resets + 1 }, .ok .nothing)
  else if call.cmd = cmdGetStats then
    let snapshot := { stats with reads := stats.reads + 1 }
    some (snapshot, if call.missingOut ≠ 0 then .error .efault else .ok (.stats snapshot))
  else if call.cmd = cmdSetMode then
    if call.missingIn ≠ 0 then some (stats, .error .efault)
    else
      let mode := u32 (call.argument 4)
      if modeReverse < mode then some (stats, .error .einval)
      else some ({ stats with mode }, .ok .nothing)
  else if call.cmd = cmdEcho then
    if call.missingIn ≠ 0 then some (stats, .error .efault)
    else
      match applyModeTransform call.request stats.mode with
      | none => none
      | some buf =>
        some ({ stats with echoes := stats.echoes + 1 },
          if call.missingOut ≠ 0 then .error .efault else .ok (.echo buf))
  else some (stats, .error .enotty)

/-! ## The request of `ECHO` -/

theorem request_terminated (call : Call) : 0 ∈ call.request := by
  have inside : 63 < (call.argument 64).length := by simp [Call.argument]
  exact List.mem_set inside 0

/-- The request's buffer always holds a NUL, so the transform stays inside it. -/
theorem echo_transforms (call : Call) (mode : UInt32) :
    ∃ buf, applyModeTransform call.request mode = some buf ∧ buf.length = 64 := by
  obtain ⟨buf, made, length, _⟩ := (behaves_of_terminated (request_terminated call)).text_only mode
  refine ⟨buf, made, length.trans ?_⟩
  simp [Call.request, Call.argument]

/-! ## What each command does -/

section Commands
variable (stats : Stats) {call : Call}

theorem ioctl_reset (cmd : call.cmd = cmdReset) : ioctlBasicsIoctl stats call =
    some ({ stats with
      reads := 0, echoes := 0, mode := modeIdentity, resets := stats.resets + 1 },
      .ok .nothing) :=
  if_pos cmd

theorem ioctl_getStats (cmd : call.cmd = cmdGetStats) : ioctlBasicsIoctl stats call =
    some ({ stats with reads := stats.reads + 1 },
      if call.missingOut ≠ 0 then .error .efault
      else .ok (.stats { stats with reads := stats.reads + 1 })) := by
  have notReset : call.cmd ≠ cmdReset := by simp [cmd, command_numbers]
  rw [ioctlBasicsIoctl, if_neg notReset, if_pos cmd]

/-- `SET_MODE` stores a mode it knows, and fails otherwise. -/
theorem ioctl_setMode (cmd : call.cmd = cmdSetMode) :
    (∃ e, ioctlBasicsIoctl stats call = some (stats, .error e)) ∨
      ¬ modeReverse < u32 (call.argument 4) ∧ ioctlBasicsIoctl stats call =
        some ({ stats with mode := u32 (call.argument 4) }, .ok .nothing) := by
  have notReset : call.cmd ≠ cmdReset := by simp [cmd, command_numbers]
  have notGet : call.cmd ≠ cmdGetStats := by simp [cmd, command_numbers]
  rw [ioctlBasicsIoctl, if_neg notReset, if_neg notGet, if_pos cmd]
  by_cases fault : call.missingIn ≠ 0
  · exact Or.inl ⟨_, if_pos fault⟩
  · rw [if_neg fault]
    by_cases unknown : modeReverse < u32 (call.argument 4)
    · exact Or.inl ⟨_, if_pos unknown⟩
    · exact Or.inr ⟨unknown, if_neg unknown⟩

theorem ioctl_echo_fault (cmd : call.cmd = cmdEcho) (fault : call.missingIn ≠ 0) :
    ioctlBasicsIoctl stats call = some (stats, .error .efault) := by
  simp [ioctlBasicsIoctl, cmd, command_numbers, fault]

theorem ioctl_echo (cmd : call.cmd = cmdEcho) (copiedIn : call.missingIn = 0) {buf : Bytes}
    (made : applyModeTransform call.request stats.mode = some buf) :
    ioctlBasicsIoctl stats call = some ({ stats with echoes := stats.echoes + 1 },
      if call.missingOut ≠ 0 then .error .efault else .ok (.echo buf)) := by
  simp [ioctlBasicsIoctl, cmd, command_numbers, copiedIn, made]

theorem ioctl_other (notReset : call.cmd ≠ cmdReset) (notGet : call.cmd ≠ cmdGetStats)
    (notSet : call.cmd ≠ cmdSetMode) (notEcho : call.cmd ≠ cmdEcho) :
    ioctlBasicsIoctl stats call = some (stats, .error .enotty) := by
  simp [ioctlBasicsIoctl, notReset, notGet, notSet, notEcho]

end Commands

/-! ## Two calls of `ECHO` -/

/-- An `ECHO` of the memory at `argp` whose copies succeed. -/
def echoOf (memory : Nat → UInt8) : Call := ⟨cmdEcho, memory, 0, 0⟩

/-- The memory after a buffer was copied out to it. -/
def overlaid (memory : Nat → UInt8) (buf : Bytes) : Nat → UInt8 := fun k => buf.getD k (memory k)

theorem argument_overlaid (memory : Nat → UInt8) (buf : Bytes) :
    (echoOf (overlaid memory buf)).argument buf.length = buf := by
  apply List.ext_getElem?
  intro k
  rw [Call.argument, List.getElem?_map]
  by_cases inside : k < buf.length
  · simp [echoOf, overlaid, inside]
  · simp [inside]

/-- Two calls in a row on the same memory, which the first one's answer is copied
to: the second one's answer. -/
def EchoesTwice (stats : Stats) (memory : Nat → UInt8) (back : Bytes) : Prop :=
  ∃ next last buf, ioctlBasicsIoctl stats (echoOf memory) = some (next, .ok (.echo buf)) ∧
    ioctlBasicsIoctl next (echoOf (overlaid memory buf)) = some (last, .ok (.echo back))

theorem reverse_keeps_last {buf out : Bytes} (length : buf.length = 64) (last : buf[63]? = some 0)
    (behaves : Behaves buf) (made : applyModeTransform buf modeReverse = some out) :
    out.set 63 0 = out := by
  obtain ⟨same, sameMade, sameLength, _, behind⟩ := behaves.text_only modeReverse
  cases made.symm.trans sameMade
  have front : (cstr buf).length ≤ 63 := by
    obtain ⟨text, rest, parts, nonzero⟩ :=
      List.eq_append_cons_of_mem (List.mem_of_getElem? last)
    rw [parts, cstr_terminated nonzero]
    have total := congrArg List.length parts
    rw [length, List.length_append, List.length_cons] at total
    omega
  have kept := (behind 63 front).trans last
  obtain ⟨inside, zero⟩ := List.getElem?_eq_some_iff.mp kept
  rw [← zero]
  exact List.set_getElem_self inside

/-- **ECHO.** The transforms behave on every NUL-terminated buffer, and a client
that echoes twice in reverse mode has its bytes back, the last one a NUL. -/
theorem echo_well_behaved {buf : Bytes} (terminated : 0 ∈ buf) {stats : Stats}
    (reversing : stats.mode = modeReverse) (memory : Nat → UInt8) :
    Behaves buf ∧ EchoesTwice stats memory (echoOf memory).request := by
  refine ⟨behaves_of_terminated terminated, ?_⟩
  have behaves := behaves_of_terminated (request_terminated (echoOf memory))
  obtain ⟨out, made, _, back⟩ := behaves.reverse
  obtain ⟨same, sameMade, length⟩ := echo_transforms (echoOf memory) modeReverse
  cases made.symm.trans sameMade
  have requestLength : (echoOf memory).request.length = 64 := by
    simp [Call.request, Call.argument]
  have last : (echoOf memory).request[63]? = some 0 := by
    rw [Call.request, List.getElem?_set_self]
    simp [Call.argument]
  have again : (echoOf (overlaid memory out)).request = out := by
    have copied := argument_overlaid memory out
    rw [length] at copied
    rw [Call.request, copied]
    exact reverse_keeps_last requestLength last behaves made
  refine ⟨_, _, out, ioctl_echo _ rfl rfl (reversing ▸ made), ioctl_echo _ rfl rfl ?_⟩
  rw [again]
  exact reversing ▸ back

theorem echo_well_behaved_hello :
    Behaves (ascii "hello" ++ [0, 7]) ∧
      EchoesTwice ⟨0, 0, 1, modeReverse⟩ (fun k => UInt8.ofNat (k + 1))
        (echoOf fun k => UInt8.ofNat (k + 1)).request :=
  echo_well_behaved (by decide) rfl fun k => UInt8.ofNat (k + 1)

end IoctlBasics
