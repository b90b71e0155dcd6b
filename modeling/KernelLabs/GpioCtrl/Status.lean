import KernelLabs.GpioCtrl.Driver
import KernelLabs.Kernel.UserCopy
import KernelLabs.Lib.LiveText

/-!
# `gpioctrl_read`

A read of `/dev/gpioctrl` copies the fields under the lock, takes the time
after it and renders both.  The state runs on beside a clock here; the open file
keeps `gpioctrl_exit` away.
-/

set_option autoImplicit false

namespace GpioCtrl

open Kernel LabelledMachine

/-- The module parameters that the status names. -/
structure Board where
  gpioLabel : Bytes
  buttonOffset : Int
  ledOffset : Int
  deriving DecidableEq, Repr

def flag (value : Bool) : Bytes := if value then [49] else [48]

/-- The text in `kbuf` for the fields copied and the time taken after that. -/
def statusText (board : Board) (st : GpioctrlState) (now : UInt64) : Bytes :=
  let uptime := now - st.loadedAtNs
  scnprintf 512 (ascii "driver=gpioctrl\n" ++
    ascii "gpiochip=" ++ board.gpioLabel ++ [10] ++
    ascii "button_offset=" ++ signedDecimal board.buttonOffset ++ [10] ++
    ascii "led_offset=" ++ signedDecimal board.ledOffset ++ [10] ++
    ascii "button=" ++ signedDecimal st.button ++ [10] ++
    ascii "led=" ++ signedDecimal st.led ++ [10] ++
    ascii "invert=" ++ flag st.invert ++ [10] ++
    ascii "poll_ms=" ++ decimal st.pollMs.toNat ++ [10] ++
    ascii "samples=" ++ decimal st.samples.toNat ++ [10] ++
    ascii "changes=" ++ decimal st.changes.toNat ++ [10] ++
    ascii "output_updates=" ++ decimal st.outputUpdates.toNat ++ [10] ++
    ascii "uptime_ms=" ++ decimal (uptime / 1000000).toNat ++ [10] ++
    ascii "init_ctx=" ++ strscpy taskCommLen st.initComm ++
      ascii "[" ++ decimal st.initPid ++ ascii "]\n" ++
    ascii "last_sample_ctx=" ++ strscpy taskCommLen st.lastSampleComm ++
      ascii "[" ++ decimal st.lastSamplePid ++ ascii "]\n")

/-- A read with the driver to itself. -/
def gpioctrlRead (board : Board) (count ppos missing : Nat) (st : GpioctrlState) (now : UInt64) :
    Except Errno (Bytes × Nat) :=
  simpleReadFromBuffer count ppos (statusText board st now) missing

/-- The driver and the clock of `ktime_get_ns`. -/
structure Timed where
  system : System
  now : UInt64
  deriving DecidableEq, Repr

inductive TimedAct where
  | driver (act : Act)
  | tick (ns : UInt64)
  deriving DecidableEq, Repr

/-- While `/dev/gpioctrl` is open the module stays loaded. -/
def timedStep (t : Timed) : TimedAct → Option Timed
  | .driver .exit => none
  | .driver act => (step t.system act).map fun system => { t with system }
  | .tick ns => some { t with now := t.now + ns }

def statusSource (board : Board) : LiveText.Source Timed GpioctrlState UInt8 where
  view t := t.system.shared.state
  render st t := statusText board st t.now

theorem statusSource_text {board : Board} {t : Timed} {st : GpioctrlState}
    (held : t.system.shared.state = some st) :
    (statusSource board).text t = some (statusText board st t.now) := by
  simp only [LiveText.Source.text, statusSource, held, Option.map_some]

theorem step_alive {s next : System} {act : Act} (stays : act ≠ .exit)
    (stepped : step s act = some next) :
    next.shared.state.isSome = s.shared.state.isSome := by
  cases act with
  | line value =>
      cases stepped
      rfl
  | writeAttr attr caller buf | writeDev caller data missing =>
      obtain ⟨_, _, _, _, rfl⟩ := step_writes rfl stepped
      rfl
  | call i =>
      obtain ⟨call, shared, moved, _, own, rfl⟩ := PartyPool.Pool.act_eq_some stepped
      exact (callStep_frame own).1.alive
  | workStart kworker =>
      obtain ⟨shared, started, rfl⟩ := Option.map_eq_some_iff.mp stepped
      obtain ⟨_, _, rfl⟩ := workStart_cases started
      rfl
  | work =>
      obtain ⟨shared, worked, rfl⟩ := Option.map_eq_some_iff.mp stepped
      exact (workStep_frame worked).alive
  | initSchedule =>
      obtain ⟨shared, scheduled, rfl⟩ := Option.map_eq_some_iff.mp stepped
      rcases initSchedule_cases scheduled with ⟨st, _, _, rfl⟩ | ⟨delay, _, rfl⟩
      · rfl
      · exact congrArg Option.isSome (scheduleDelayedWork_keeps s.shared delay).2.1
  | exit => exact absurd rfl stays

/-- An open file always finds the state. -/
theorem timedStep_alive (t : Timed) (act : TimedAct) (next : Timed)
    (alive : t.system.shared.state.isSome = true) (stepped : timedStep t act = some next) :
    next.system.shared.state.isSome = true := by
  cases act with
  | tick ns =>
      cases stepped
      exact alive
  | driver act =>
      have stays : act ≠ .exit := by
        rintro rfl
        contradiction
      have driven : timedStep t (.driver act) =
          (step t.system act).map fun system => { t with system } := by
        cases act <;> first | rfl | exact absurd rfl stays
      rw [driven] at stepped
      obtain ⟨system, made, rfl⟩ := Option.map_eq_some_iff.mp stepped
      exact (step_alive stays made).trans alive

/-- Along every run with the file open a read can begin. -/
theorem statusSource_view {board : Board} {params : Params} {startNs now : UInt64}
    {caller : Identity} {buttonValue : Int} {acts : List TimedAct} {t : Timed}
    (ran : run timedStep ⟨System.initial params startNs caller buttonValue, now⟩ acts = some t) :
    ((statusSource board).view t).isSome = true :=
  invariant_run (I := fun t => t.system.shared.state.isSome = true) timedStep_alive rfl ran

end GpioCtrl
