import KernelLabs.Kernel.UserCopy
import KernelLabs.Lib.LiveText
import KernelLabs.RaceDemo.Device

/-!
# `race_read`

A read of `/dev/race_demo` renders the counter that `mode` selects and copies
the slice at the file's position.  It loads `mode` and then the counter, and
takes no lock.
-/

set_option autoImplicit false

namespace RaceDemo

open Kernel

/-- The text in `kbuf` for a value of `current_counter_value`. -/
def counterText (value : UInt64) : Bytes := scnprintf 32 (decimal value.toNat ++ [10])

/-- A read with the device to itself. -/
def raceRead (count ppos missing : Nat) (shared : Shared) : Except Errno (Bytes × Nat) :=
  simpleReadFromBuffer count ppos (counterText (currentCounterValue shared)) missing

/-- The second load of `current_counter_value`, after `mode` was read. -/
def loadSelected (mode : RaceMode) (shared : Shared) : UInt64 :=
  if mode = .atomic then shared.counterAtomic else shared.counterPlain

def raceSource : LiveText.Source System RaceMode UInt8 where
  view s := some s.shared.mode
  render mode s := counterText (loadSelected mode s.shared)

/-- With nothing between the two loads, the text is that of the counter. -/
theorem raceSource_text (s : System) :
    raceSource.text s = some (counterText (currentCounterValue s.shared)) := rfl

end RaceDemo
