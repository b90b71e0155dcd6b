import KernelLabs.Kernel.Kstrtox

/-!
# The driver state of `03_gpio_sim/gpioctrl.c`

The fields of `struct gpioctrl_state`, and the sections that run under its lock.
Each is one step: whoever runs it, nothing else reads or writes the fields in
between.
-/

set_option autoImplicit false

namespace GpioCtrl

open Kernel

def minPollMs : UInt32 := 10
def maxPollMs : UInt32 := 60000
def taskCommLen : Nat := 16

structure GpioctrlState where
  button : Int
  led : Int
  invert : Bool
  pollMs : UInt32
  samples : UInt64
  changes : UInt64
  outputUpdates : UInt64
  loadedAtNs : UInt64
  initPid : Nat
  initComm : Bytes
  lastSamplePid : Nat
  lastSampleComm : Bytes
  deriving DecidableEq, Repr

/-- The C expression `invert ? !button_value : button_value`. -/
def desiredLed (invert : Bool) (buttonValue : Int) : Int :=
  if invert then (if buttonValue = 0 then 1 else 0) else buttonValue

structure Params where
  initialPollMs : UInt32
  initialInvert : Bool
  deriving DecidableEq, Repr

/-- The state `gpioctrl_init` has filled in when the first GPIO read returned
`buttonValue`. -/
def initState (params : Params) (startNs : UInt64) (caller : Identity) (buttonValue : Int) :
    GpioctrlState where
  button := buttonValue
  led := desiredLed params.initialInvert buttonValue
  invert := params.initialInvert
  pollMs := params.initialPollMs
  samples := 1
  changes := 0
  outputUpdates := 0
  loadedAtNs := startNs
  initPid := caller.pid
  initComm := strscpy taskCommLen caller.comm
  lastSamplePid := caller.pid
  lastSampleComm := strscpy taskCommLen caller.comm

/-- The locked section of `gpioctrl_sample_once`: the new state, and the value
written to the LED line if there was a write. -/
def sampleSection (st : GpioctrlState) (caller : Identity) (buttonValue : Int) :
    GpioctrlState × Option Int :=
  let desired := desiredLed st.invert buttonValue
  let changed := st.button ≠ -1 ∧ buttonValue ≠ st.button
  let updates := desired ≠ st.led
  ({ st with
      samples := st.samples + 1
      changes := if changed then st.changes + 1 else st.changes
      led := if updates then desired else st.led
      outputUpdates := if updates then st.outputUpdates + 1 else st.outputUpdates
      button := buttonValue
      lastSamplePid := caller.pid
      lastSampleComm := strscpy taskCommLen caller.comm },
    if updates then some desired else none)

def storeInvert (st : GpioctrlState) (value : Bool) : GpioctrlState := { st with invert := value }

def storePollMs (st : GpioctrlState) (value : UInt32) : GpioctrlState := { st with pollMs := value }

def resetStats (st : GpioctrlState) : GpioctrlState :=
  { st with samples := 0, changes := 0, outputUpdates := 0 }

section SampleSection
variable (st : GpioctrlState) (caller : Identity) (buttonValue : Int)

@[simp] theorem sampleSection_button :
    (sampleSection st caller buttonValue).1.button = buttonValue := rfl

@[simp] theorem sampleSection_invert :
    (sampleSection st caller buttonValue).1.invert = st.invert := rfl

@[simp] theorem sampleSection_pollMs :
    (sampleSection st caller buttonValue).1.pollMs = st.pollMs := rfl

/-- The write to the LED is skipped only when the cached value is the desired
one already. -/
@[simp] theorem sampleSection_led :
    (sampleSection st caller buttonValue).1.led = desiredLed st.invert buttonValue := by
  by_cases updates : desiredLed st.invert buttonValue ≠ st.led
  · simp [sampleSection, updates]
  · simp [sampleSection, not_not.mp updates]

@[simp] theorem sampleSection_written :
    (sampleSection st caller buttonValue).2.getD st.led = desiredLed st.invert buttonValue := by
  by_cases updates : desiredLed st.invert buttonValue ≠ st.led
  · simp [sampleSection, updates]
  · simp [sampleSection, not_not.mp updates]

end SampleSection

/-! ## The commands userspace can give -/

inductive Command where
  | sync
  | resetStats
  | invert (value : Bool)
  | pollMs (value : UInt32)
  deriving DecidableEq, Repr

/-- `kstrtouint` in base 0 with the range check both writers make. -/
def parsePollMs (text : Bytes) : Except Errno Command :=
  match kstrtouint 0 text with
  | .error e => .error e
  | .ok value =>
    if value < minPollMs ∨ maxPollMs < value then .error .erange else .ok (.pollMs value)

def parseInvert (text : Bytes) : Except Errno Command :=
  match kstrtobool text with
  | .error e => .error e
  | .ok value => .ok (.invert value)

inductive Attr where
  | invert
  | pollMs
  deriving DecidableEq, Repr

/-- What `invert_store` and `poll_ms_store` make of the buffer sysfs hands them. -/
def parseStore : Attr → Bytes → Except Errno Command
  | .invert, buf => parseInvert (cstr buf)
  | .pollMs, buf => parsePollMs (cstr buf)

/-- What `gpioctrl_write` makes of the bytes written; `missing` is what
`copy_from_user` returns. -/
def parseWrite (data : Bytes) (missing : Nat) : Except Errno Command :=
  if data.length = 0 ∨ 64 ≤ data.length then .error .e2big
  else if missing ≠ 0 then .error .efault
  else
    let cmd := strim (cstr data)
    if sysfsStreq cmd (ascii "sync") then .ok .sync
    else if sysfsStreq cmd (ascii "reset_stats") then .ok .resetStats
    else if (ascii "invert=").isPrefixOf cmd then parseInvert (cmd.drop 7)
    else if (ascii "poll_ms=").isPrefixOf cmd then parsePollMs (cmd.drop 8)
    else .error .einval

/-- An accepted interval lies in the range both writers check. -/
theorem parsePollMs_range {text : Bytes} {command : Command}
    (accepted : parsePollMs text = .ok command) :
    ∃ value, command = .pollMs value ∧ minPollMs ≤ value ∧ value ≤ maxPollMs := by
  unfold parsePollMs at accepted
  split at accepted
  · contradiction
  · rename_i value _
    split at accepted
    · contradiction
    · rename_i inRange
      cases accepted
      rw [not_or, UInt32.not_lt, UInt32.not_lt] at inRange
      exact ⟨value, rfl, inRange⟩

end GpioCtrl
