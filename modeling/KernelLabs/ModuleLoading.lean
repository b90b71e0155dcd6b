import KernelLabs.Kernel.Basic
import KernelLabs.Lib.AcquireLadder

/-!
# Loading and unloading the modules

Every module's init function acquires what it needs from the kernel step by
step, and undoes the steps it has made when a later one fails, at its goto
labels or in the branch itself.  Its exit function undoes them all.

The kernel's answers are a parameter: `answer r` is the error with which
acquiring `r` fails, if it does.  What an init function computes is the calls
it makes and the error it returns.

Only what init acquires itself is counted.  What an interface starts while it is
registered (the poll work armed again, a second producer) is not among the calls,
but which interface can do so decides which releases come too early.  Nor is what
only an interface acquires: the allocation that `kernel_memory_exit` frees first.
-/

set_option autoImplicit false

namespace ModuleLoading

open AcquireLadder
open Kernel (Errno)

/-- What the modules acquire. -/
inductive Resource where
  -- `kzalloc(BUF_SIZE)` and `kzalloc(sizeof(*state))`
  | buffer
  | state
  -- `alloc_chrdev_region`, `cdev_add`, `class_create`, `device_create`
  | region
  | cdev
  | deviceClass
  | device
  | chrdev
  | misc
  | attributeGroup
  | kobject
  | cache
  | timer
  | work
  | producer
  | procDir
  -- The entries below a proc directory: `proc_remove` takes the whole subtree.
  | infoEntry
  | eventsEntry
  | debugfsDir
  | gpioDevice
  -- `gpio_device_get_desc`, `gpiod_direction_input` and the first reading hold
  -- nothing that has to be given back.
  | buttonDesc
  | ledDesc
  | buttonInput
  | buttonValue
  -- `gpiod_direction_output`, undone by driving the led low
  | ledOutput
  deriving DecidableEq, Repr

abbrev Call := Event Resource
abbrev Answers := Resource → Option Errno

/-! ## The init functions -/

namespace ReadWriteCdev

def errFreeBuffer (calls : List Call) (ret : Errno) : List Call × Option Errno :=
  (calls ++ [.release .buffer], some ret)

def errUnregisterRegion (calls : List Call) (ret : Errno) : List Call × Option Errno :=
  errFreeBuffer (calls ++ [.release .region]) ret

def errDelCdev (calls : List Call) (ret : Errno) : List Call × Option Errno :=
  errUnregisterRegion (calls ++ [.release .cdev]) ret

def errDestroyClass (calls : List Call) (ret : Errno) : List Call × Option Errno :=
  errDelCdev (calls ++ [.release .deviceClass]) ret

def readWriteCdevInit (answer : Answers) : List Call × Option Errno :=
  match answer .buffer with
  | some _ => ([], some .enomem)
  | none =>
  match answer .region with
  | some ret => errFreeBuffer [.acquire .buffer] ret
  | none =>
  match answer .cdev with
  | some ret => errUnregisterRegion [.acquire .buffer, .acquire .region] ret
  | none =>
  match answer .deviceClass with
  | some ret => errDelCdev [.acquire .buffer, .acquire .region, .acquire .cdev] ret
  | none =>
  match answer .device with
  | some ret =>
      errDestroyClass
        [.acquire .buffer, .acquire .region, .acquire .cdev, .acquire .deviceClass] ret
  | none =>
      ([.acquire .buffer, .acquire .region, .acquire .cdev, .acquire .deviceClass,
        .acquire .device], none)

def readWriteCdevExit : List Call :=
  [.release .device, .release .deviceClass, .release .cdev, .release .region, .release .buffer]

end ReadWriteCdev

namespace IoctlBasics

def errUnregisterRegion (calls : List Call) (ret : Errno) : List Call × Option Errno :=
  (calls ++ [.release .region], some ret)

def errDelCdev (calls : List Call) (ret : Errno) : List Call × Option Errno :=
  errUnregisterRegion (calls ++ [.release .cdev]) ret

def errDestroyClass (calls : List Call) (ret : Errno) : List Call × Option Errno :=
  errDelCdev (calls ++ [.release .deviceClass]) ret

def ioctlBasicsInit (answer : Answers) : List Call × Option Errno :=
  match answer .region with
  | some ret => ([], some ret)
  | none =>
  match answer .cdev with
  | some ret => errUnregisterRegion [.acquire .region] ret
  | none =>
  match answer .deviceClass with
  | some ret => errDelCdev [.acquire .region, .acquire .cdev] ret
  | none =>
  match answer .device with
  | some ret =>
      errDestroyClass [.acquire .region, .acquire .cdev, .acquire .deviceClass] ret
  | none =>
      ([.acquire .region, .acquire .cdev, .acquire .deviceClass, .acquire .device], none)

def ioctlBasicsExit : List Call :=
  [.release .device, .release .deviceClass, .release .cdev, .release .region]

end IoctlBasics

namespace ConcurrencyLocking

def concurrencyLockingInit (answer : Answers) : List Call × Option Errno :=
  match answer .misc with
  | some ret => ([], some ret)
  | none =>
  match answer .attributeGroup with
  | some ret => ([.acquire .misc, .release .misc], some ret)
  | none => ([.acquire .misc, .acquire .attributeGroup], none)

def concurrencyLockingExit : List Call :=
  [.release .attributeGroup, .release .misc]

end ConcurrencyLocking

namespace WaitQueuesBlocking

def waitQueuesBlockingInit (answer : Answers) : List Call × Option Errno :=
  match answer .misc with
  | some ret => ([], some ret)
  | none =>
  match answer .attributeGroup with
  | some ret => ([.acquire .misc, .release .misc], some ret)
  | none => ([.acquire .misc, .acquire .attributeGroup, .acquire .timer], none)

def waitQueuesBlockingExit : List Call :=
  [.release .timer, .release .attributeGroup, .release .misc]

end WaitQueuesBlocking

namespace KernelMemory

def kernelMemoryInit (answer : Answers) : List Call × Option Errno :=
  match answer .cache with
  | some _ => ([], some .enomem)
  | none =>
  match answer .kobject with
  | some _ => ([.acquire .cache, .release .cache], some .enomem)
  | none =>
  match answer .attributeGroup with
  | some ret =>
      ([.acquire .cache, .acquire .kobject, .release .kobject, .release .cache], some ret)
  | none => ([.acquire .cache, .acquire .kobject, .acquire .attributeGroup], none)

def kernelMemoryExit : List Call :=
  [.release .attributeGroup, .release .kobject, .release .cache]

end KernelMemory

namespace TimersWorkqueues

def timersWorkqueuesInit (answer : Answers) : List Call × Option Errno :=
  match answer .kobject with
  | some _ => ([], some .enomem)
  | none =>
  match answer .attributeGroup with
  | some ret => ([.acquire .kobject, .release .kobject], some ret)
  | none =>
      ([.acquire .kobject, .acquire .attributeGroup, .acquire .timer, .acquire .work], none)

-- The timer is shut down before the work is cancelled, although it was set up
-- first; neither needs the other.
def timersWorkqueuesExit : List Call :=
  [.release .timer, .release .work, .release .attributeGroup, .release .kobject]

end TimersWorkqueues

namespace Kthreads

def kthreadsInit (answer : Answers) : List Call × Option Errno :=
  match answer .misc with
  | some ret => ([], some ret)
  | none =>
  match answer .kobject with
  | some _ => ([.acquire .misc, .release .misc], some .enomem)
  | none =>
  match answer .attributeGroup with
  | some ret =>
      ([.acquire .misc, .acquire .kobject, .release .kobject, .release .misc], some ret)
  | none =>
  match answer .producer with
  | some ret =>
      ([.acquire .misc, .acquire .kobject, .acquire .attributeGroup,
        .release .attributeGroup, .release .kobject, .release .misc], some ret)
  | none =>
      ([.acquire .misc, .acquire .kobject, .acquire .attributeGroup, .acquire .producer], none)

def kthreadsExit : List Call :=
  [.release .producer, .release .attributeGroup, .release .kobject, .release .misc]

end Kthreads

namespace DebugfsSysfs

-- A missing debugfs directory is deliberately no failure; the files below it
-- are then not created either.
def debugfsSysfsInit (answer : Answers) : List Call × Option Errno :=
  match answer .kobject with
  | some _ => ([], some .enomem)
  | none =>
  match answer .attributeGroup with
  | some ret => ([.acquire .kobject, .release .kobject], some ret)
  | none =>
  match answer .debugfsDir with
  | some _ => ([.acquire .kobject, .acquire .attributeGroup], none)
  | none => ([.acquire .kobject, .acquire .attributeGroup, .acquire .debugfsDir], none)

-- `debugfs_remove_recursive` of a directory that was not created does nothing.
def debugfsSysfsExit (answer : Answers) : List Call :=
  match answer .debugfsDir with
  | some _ => [.release .attributeGroup, .release .kobject]
  | none => [.release .debugfsDir, .release .attributeGroup, .release .kobject]

end DebugfsSysfs

namespace TokenBucket

def tokenBucketInit (answer : Answers) : List Call × Option Errno :=
  match answer .misc with
  | some ret => ([], some ret)
  | none => ([.acquire .misc, .acquire .timer], none)

def tokenBucketExit : List Call := [.release .timer, .release .misc]

end TokenBucket

namespace ModuleParams

def moduleParamsInit (answer : Answers) : List Call × Option Errno :=
  match answer .misc with
  | some ret => ([], some ret)
  | none => ([.acquire .misc], none)

def moduleParamsExit : List Call := [.release .misc]

end ModuleParams

namespace RegisterCdev

def registerCdevInit (answer : Answers) : List Call × Option Errno :=
  match answer .chrdev with
  | some major => ([], some major)
  | none => ([.acquire .chrdev], none)

def registerCdevExit : List Call := [.release .chrdev]

end RegisterCdev

namespace OpenReleaseCdev

def openReleaseCdevInit (answer : Answers) : List Call × Option Errno :=
  match answer .chrdev with
  | some major => ([], some major)
  | none => ([.acquire .chrdev], none)

def openReleaseCdevExit : List Call := [.release .chrdev]

end OpenReleaseCdev

namespace ProcfsSeqfile

def errRemoveDir (calls : List Call) : List Call × Option Errno :=
  (calls ++ [.release .procDir], some .enomem)

def procfsSeqfileInit (answer : Answers) : List Call × Option Errno :=
  match answer .procDir with
  | some _ => ([], some .enomem)
  | none =>
  match answer .infoEntry with
  | some _ => errRemoveDir [.acquire .procDir]
  | none =>
  match answer .eventsEntry with
  | some _ => errRemoveDir [.acquire .procDir]
  | none => ([.acquire .procDir], none)

def procfsSeqfileExit : List Call := [.release .procDir]

end ProcfsSeqfile

namespace GpioCtrl

def errFreeState (calls : List Call) (ret : Errno) : List Call × Option Errno :=
  (calls ++ [.release .state], some ret)

def errPutGpio (calls : List Call) (ret : Errno) : List Call × Option Errno :=
  errFreeState (calls ++ [.release .gpioDevice]) ret

def errLedOff (calls : List Call) (ret : Errno) : List Call × Option Errno :=
  errPutGpio (calls ++ [.release .ledOutput]) ret

def errMisc (calls : List Call) (ret : Errno) : List Call × Option Errno :=
  errLedOff (calls ++ [.release .misc]) ret

def gpioctrlInit (answer : Answers) : List Call × Option Errno :=
  match answer .state with
  | some _ => ([], some .enomem)
  | none =>
  match answer .gpioDevice with
  | some _ => errFreeState [.acquire .state] .enodev
  | none =>
  match answer .buttonDesc with
  | some ret => errPutGpio [.acquire .state, .acquire .gpioDevice] ret
  | none =>
  match answer .ledDesc with
  | some ret => errPutGpio [.acquire .state, .acquire .gpioDevice] ret
  | none =>
  match answer .buttonInput with
  | some ret => errPutGpio [.acquire .state, .acquire .gpioDevice] ret
  | none =>
  match answer .buttonValue with
  | some ret => errPutGpio [.acquire .state, .acquire .gpioDevice] ret
  | none =>
  match answer .ledOutput with
  | some ret => errPutGpio [.acquire .state, .acquire .gpioDevice] ret
  | none =>
  match answer .misc with
  | some ret => errLedOff [.acquire .state, .acquire .gpioDevice, .acquire .ledOutput] ret
  | none =>
  match answer .attributeGroup with
  | some ret =>
      errMisc [.acquire .state, .acquire .gpioDevice, .acquire .ledOutput, .acquire .misc] ret
  | none =>
      ([.acquire .state, .acquire .gpioDevice, .acquire .ledOutput, .acquire .misc,
        .acquire .attributeGroup, .acquire .work], none)

def gpioctrlExit : List Call :=
  [.release .work, .release .attributeGroup, .release .misc, .release .ledOutput,
    .release .gpioDevice, .release .state]

end GpioCtrl

/-! ## One ladder for every module -/

inductive Lab where
  | gpioCtrl | moduleParams | registerCdev | procfsSeqfile | openReleaseCdev | readWriteCdev
  | ioctlBasics | concurrencyLocking | waitQueuesBlocking | kernelMemory | timersWorkqueues
  | kthreads | debugfsSysfs | tokenBucket
  deriving DecidableEq, Repr

def moduleInit : Lab → Answers → List Call × Option Errno
  | .gpioCtrl => GpioCtrl.gpioctrlInit
  | .moduleParams => ModuleParams.moduleParamsInit
  | .registerCdev => RegisterCdev.registerCdevInit
  | .procfsSeqfile => ProcfsSeqfile.procfsSeqfileInit
  | .openReleaseCdev => OpenReleaseCdev.openReleaseCdevInit
  | .readWriteCdev => ReadWriteCdev.readWriteCdevInit
  | .ioctlBasics => IoctlBasics.ioctlBasicsInit
  | .concurrencyLocking => ConcurrencyLocking.concurrencyLockingInit
  | .waitQueuesBlocking => WaitQueuesBlocking.waitQueuesBlockingInit
  | .kernelMemory => KernelMemory.kernelMemoryInit
  | .timersWorkqueues => TimersWorkqueues.timersWorkqueuesInit
  | .kthreads => Kthreads.kthreadsInit
  | .debugfsSysfs => DebugfsSysfs.debugfsSysfsInit
  | .tokenBucket => TokenBucket.tokenBucketInit

def moduleExit : Lab → Answers → List Call
  | .gpioCtrl, _ => GpioCtrl.gpioctrlExit
  | .moduleParams, _ => ModuleParams.moduleParamsExit
  | .registerCdev, _ => RegisterCdev.registerCdevExit
  | .procfsSeqfile, _ => ProcfsSeqfile.procfsSeqfileExit
  | .openReleaseCdev, _ => OpenReleaseCdev.openReleaseCdevExit
  | .readWriteCdev, _ => ReadWriteCdev.readWriteCdevExit
  | .ioctlBasics, _ => IoctlBasics.ioctlBasicsExit
  | .concurrencyLocking, _ => ConcurrencyLocking.concurrencyLockingExit
  | .waitQueuesBlocking, _ => WaitQueuesBlocking.waitQueuesBlockingExit
  | .kernelMemory, _ => KernelMemory.kernelMemoryExit
  | .timersWorkqueues, _ => TimersWorkqueues.timersWorkqueuesExit
  | .kthreads, _ => Kthreads.kthreadsExit
  | .debugfsSysfs, answer => DebugfsSysfs.debugfsSysfsExit answer
  | .tokenBucket, _ => TokenBucket.tokenBucketExit

def kind : Resource → Kind
  | .timer | .work => .certain
  | .debugfsDir => .optional
  | .infoEntry | .eventsEntry | .buttonDesc | .ledDesc | .buttonInput | .buttonValue => .check
  | _ => .owned

/-- The error a module returns: of a pointer that came back NULL it knows no more
than that. -/
def reported : Resource → Errno → Errno
  | .buffer, _ | .state, _ | .kobject, _ | .cache, _ => .enomem
  | .procDir, _ | .infoEntry, _ | .eventsEntry, _ => .enomem
  | .gpioDevice, _ => .enodev
  | _, e => e

def rungs : Lab → List Resource
  | .gpioCtrl =>
      [.state, .gpioDevice, .buttonDesc, .ledDesc, .buttonInput, .buttonValue, .ledOutput,
        .misc, .attributeGroup, .work]
  | .moduleParams => [.misc]
  | .registerCdev => [.chrdev]
  | .procfsSeqfile => [.procDir, .infoEntry, .eventsEntry]
  | .openReleaseCdev => [.chrdev]
  | .readWriteCdev => [.buffer, .region, .cdev, .deviceClass, .device]
  | .ioctlBasics => [.region, .cdev, .deviceClass, .device]
  | .concurrencyLocking => [.misc, .attributeGroup]
  | .waitQueuesBlocking => [.misc, .attributeGroup, .timer]
  | .kernelMemory => [.cache, .kobject, .attributeGroup]
  | .timersWorkqueues => [.kobject, .attributeGroup, .timer, .work]
  | .kthreads => [.misc, .kobject, .attributeGroup, .producer]
  | .debugfsSysfs => [.kobject, .attributeGroup, .debugfsDir]
  | .tokenBucket => [.misc, .timer]

/-- What must be there before a resource is acquired: the objects it is created
under, and what the module's code behind it reads or drives from then on. -/
def needs : Lab → Resource → List Resource
  | .gpioCtrl, .ledOutput => [.gpioDevice]
  -- `gpioctrl_read`, `gpioctrl_write`, the attributes and `gpioctrl_work_fn` use the
  -- state, the button and the led.
  | .gpioCtrl, .misc => [.state, .gpioDevice, .ledOutput]
  | .gpioCtrl, .attributeGroup => [.misc, .state, .gpioDevice, .ledOutput]
  | .gpioCtrl, .work => [.state, .gpioDevice, .ledOutput]
  -- `rw_read` and `rw_write` use the buffer.
  | .readWriteCdev, .cdev => [.region, .buffer]
  | .readWriteCdev, .device => [.deviceClass, .region]
  | .ioctlBasics, .cdev => [.region]
  | .ioctlBasics, .device => [.deviceClass, .region]
  | .concurrencyLocking, .attributeGroup => [.misc]
  | .waitQueuesBlocking, .attributeGroup => [.misc]
  -- `allocate_store` allocates from the cache.
  | .kernelMemory, .attributeGroup => [.kobject, .cache]
  | .timersWorkqueues, .attributeGroup => [.kobject]
  | .kthreads, .attributeGroup => [.kobject]
  | .debugfsSysfs, .attributeGroup => [.kobject]
  | _, _ => []

/-- What the module's code behind a resource can start again. -/
def restarts : Lab → Resource → List Resource
  -- `poll_ms=` and `poll_ms_store` arm `gpio_work` (`mod_delayed_work`).
  | .gpioCtrl, .misc => [.work]
  | .gpioCtrl, .attributeGroup => [.work]
  -- `control_store` starts and stops the producer.
  | .kthreads, .attributeGroup => [.producer]
  | _, _ => []

/-- What a resource uses while it is held. -/
def uses (lab : Lab) (r : Resource) : List Resource := needs lab r ++ restarts lab r

theorem GpioCtrl.gpioctrlInit_climb (answer : Answers) :
    GpioCtrl.gpioctrlInit answer =
      climb kind answer reported (rungs .gpioCtrl) [] [] := by
  simp only [rungs, climb, kind, GpioCtrl.gpioctrlInit]
  cases answer .state with
  | some ret => rfl
  | none =>
  cases answer .gpioDevice with
  | some ret => rfl
  | none =>
  cases answer .buttonDesc with
  | some ret => rfl
  | none =>
  cases answer .ledDesc with
  | some ret => rfl
  | none =>
  cases answer .buttonInput with
  | some ret => rfl
  | none =>
  cases answer .buttonValue with
  | some ret => rfl
  | none =>
  cases answer .ledOutput with
  | some ret => rfl
  | none =>
  cases answer .misc with
  | some ret => rfl
  | none => cases answer .attributeGroup <;> rfl

theorem ReadWriteCdev.readWriteCdevInit_climb (answer : Answers) :
    ReadWriteCdev.readWriteCdevInit answer =
      climb kind answer reported (rungs .readWriteCdev) [] [] := by
  simp only [rungs, climb, kind, ReadWriteCdev.readWriteCdevInit]
  cases answer .buffer with
  | some ret => rfl
  | none =>
  cases answer .region with
  | some ret => rfl
  | none =>
  cases answer .cdev with
  | some ret => rfl
  | none => cases answer .deviceClass <;> cases answer .device <;> rfl

theorem IoctlBasics.ioctlBasicsInit_climb (answer : Answers) :
    IoctlBasics.ioctlBasicsInit answer =
      climb kind answer reported (rungs .ioctlBasics) [] [] := by
  simp only [rungs, climb, kind, IoctlBasics.ioctlBasicsInit]
  cases answer .region with
  | some ret => rfl
  | none =>
  cases answer .cdev with
  | some ret => rfl
  | none => cases answer .deviceClass <;> cases answer .device <;> rfl

theorem Kthreads.kthreadsInit_climb (answer : Answers) :
    Kthreads.kthreadsInit answer = climb kind answer reported (rungs .kthreads) [] [] := by
  simp only [rungs, climb, kind, Kthreads.kthreadsInit]
  cases answer .misc with
  | some ret => rfl
  | none =>
  cases answer .kobject with
  | some ret => rfl
  | none => cases answer .attributeGroup <;> cases answer .producer <;> rfl

/-- Every module's labels and branches unwind like the ladder. -/
theorem moduleInit_climb (lab : Lab) (answer : Answers) :
    moduleInit lab answer = climb kind answer reported (rungs lab) [] [] := by
  cases lab with
  | gpioCtrl => exact GpioCtrl.gpioctrlInit_climb answer
  | readWriteCdev => exact ReadWriteCdev.readWriteCdevInit_climb answer
  | ioctlBasics => exact IoctlBasics.ioctlBasicsInit_climb answer
  | kthreads => exact Kthreads.kthreadsInit_climb answer
  | procfsSeqfile =>
      simp only [moduleInit, rungs, climb, kind, ProcfsSeqfile.procfsSeqfileInit]
      cases answer .procDir <;> cases answer .infoEntry <;> cases answer .eventsEntry <;> rfl
  | kernelMemory =>
      simp only [moduleInit, rungs, climb, kind, KernelMemory.kernelMemoryInit]
      cases answer .cache <;> cases answer .kobject <;> cases answer .attributeGroup <;> rfl
  | debugfsSysfs =>
      simp only [moduleInit, rungs, climb, kind, DebugfsSysfs.debugfsSysfsInit]
      cases answer .kobject <;> cases answer .attributeGroup <;> cases answer .debugfsDir <;> rfl
  | timersWorkqueues =>
      simp only [moduleInit, rungs, climb, kind, TimersWorkqueues.timersWorkqueuesInit]
      cases answer .kobject <;> cases answer .attributeGroup <;> rfl
  | concurrencyLocking =>
      simp only [moduleInit, rungs, climb, kind, ConcurrencyLocking.concurrencyLockingInit]
      cases answer .misc <;> cases answer .attributeGroup <;> rfl
  | waitQueuesBlocking =>
      simp only [moduleInit, rungs, climb, kind, WaitQueuesBlocking.waitQueuesBlockingInit]
      cases answer .misc <;> cases answer .attributeGroup <;> rfl
  | tokenBucket =>
      simp only [moduleInit, rungs, climb, kind, TokenBucket.tokenBucketInit]
      cases answer .misc <;> rfl
  | moduleParams =>
      simp only [moduleInit, rungs, climb, kind, ModuleParams.moduleParamsInit]
      cases answer .misc <;> rfl
  | registerCdev =>
      simp only [moduleInit, rungs, climb, kind, RegisterCdev.registerCdevInit]
      cases answer .chrdev <;> rfl
  | openReleaseCdev =>
      simp only [moduleInit, rungs, climb, kind, OpenReleaseCdev.openReleaseCdevInit]
      cases answer .chrdev <;> rfl

theorem rungs_wellOrdered (lab : Lab) : wellOrdered kind (needs lab) [] (rungs lab) = true := by
  cases lab <;> decide

/-- Whatever a failed init function may have to release is used only by what it
acquired later; the work and the producer are acquired last. -/
theorem rungs_usedLater (lab : Lab) : UsedLater (uses lab) (rungs lab).dropLast := by
  cases lab <;> decide

/-! ## Unloading -/

/-- What the module holds once it is loaded, the latest first. -/
def holding (lab : Lab) (answer : Answers) : List Resource :=
  ((rungs lab).filter (takes kind answer)).reverse

/-- Everything succeeds, but for the debugfs directory if it is missing. -/
def allButDebugfs (missing : Bool) : Answers := fun r =>
  if r = .debugfsDir ∧ missing = true then some .enodev else none

theorem holding_eq {lab : Lab} {answer : Answers}
    (unstopped : ∀ r ∈ rungs lab, stops kind answer r = false) :
    holding lab answer = holding lab (allButDebugfs (answer .debugfsDir).isSome) := by
  have optional : ∀ r, kind r = .optional → r = .debugfsDir := by
    intro r
    cases r <;> decide
  unfold holding
  congr 1
  apply List.filter_congr
  intro r member
  have passed := unstopped r member
  cases kinded : kind r with
  | certain | check => simp [takes, kinded]
  | owned =>
      have other : r ≠ .debugfsDir := by
        rintro rfl
        cases kinded
      simpa [takes, stops, kinded, allButDebugfs, other] using passed
  | optional =>
      cases optional r kinded
      cases dir : answer .debugfsDir <;> simp [takes, kind, allButDebugfs, dir]

theorem moduleExit_eq (lab : Lab) (answer : Answers) :
    moduleExit lab answer = moduleExit lab (allButDebugfs (answer .debugfsDir).isSome) := by
  cases lab with
  | debugfsSysfs =>
      simp only [moduleExit, DebugfsSysfs.debugfsSysfsExit, allButDebugfs]
      cases answer .debugfsDir <;> rfl
  | _ => rfl

/-- The modules whose exit function releases the work or the producer first, with
the interfaces that can start it again still registered. -/
def StopsFirst (lab : Lab) : Prop := lab = .gpioCtrl ∨ lab = .kthreads

instance (lab : Lab) : Decidable (StopsFirst lab) := inferInstanceAs (Decidable (_ ∨ _))

/-- What an exit function does to what the module holds. -/
structure ExitReleases (lab : Lab) (held : List Resource) (calls : List Call) : Prop where
  -- each once, and nothing else
  all : ∃ order : List Resource, order.Perm held ∧ calls = order.map .release
  -- nothing while something held needed it to be acquired
  standing : settle (needs lab) (needs lab) held calls = some []
  -- nothing before what uses it, except in two modules
  unused : settle (needs lab) (uses lab) held calls = some [] ↔ ¬ StopsFirst lab

def released (calls : List Call) : List Resource :=
  calls.filterMap fun
    | .acquire _ => none
    | .release r => some r

theorem moduleExit_releases (lab : Lab) (missing : Bool) :
    ExitReleases lab (holding lab (allButDebugfs missing))
      (moduleExit lab (allButDebugfs missing)) := by
  refine ⟨⟨released (moduleExit lab (allButDebugfs missing)), ?_, ?_⟩, ?_, ?_⟩
  · cases lab <;> cases missing <;> decide
  · cases lab <;> cases missing <;> rfl
  · cases lab <;> cases missing <;> decide
  · cases lab <;> cases missing <;> decide

theorem moduleExit_releases_holding {lab : Lab} {answer : Answers}
    (unstopped : ∀ r ∈ rungs lab, stops kind answer r = false) :
    ExitReleases lab (holding lab answer) (moduleExit lab answer) := by
  rw [holding_eq unstopped, moduleExit_eq]
  exact moduleExit_releases lab _

/-! ## Loading and unloading again and again -/

/-- `insmod`, and `rmmod` if that succeeded. -/
def session (lab : Lab) (answer : Answers) : List Call :=
  match moduleInit lab answer with
  | (calls, none) => calls ++ moduleExit lab answer
  | (calls, some _) => calls

theorem session_settles (lab : Lab) (answer : Answers) :
    settle (needs lab) (needs lab) [] (session lab answer) = some [] := by
  have ordered := rungs_wellOrdered lab
  have later : UsedLater (needs lab) (rungs lab).dropLast := by
    cases lab <;> decide
  unfold session
  cases outcome : moduleInit lab answer with
  | mk calls ret =>
      have climbed : climb kind answer reported (rungs lab) [] [] = (calls, ret) :=
        (moduleInit_climb lab answer).symm.trans outcome
      cases ret with
      | some e => exact settle_climb_failed ordered later climbed
      | none =>
          have exits := moduleExit_releases_holding (none_stops_of_done climbed)
          rw [settle_append, settle_climb_done ordered climbed]
          exact exits.standing

/-- The first call that fails decides the error, and everything acquired before it
is released again, the latest first. -/
def Unwinds (lab : Lab) (answer : Answers) (calls : List Call) (e : Errno) : Prop :=
  ∃ front r back cause,
    rungs lab = front ++ r :: back ∧ (∀ q ∈ front, stops kind answer q = false) ∧
    stops kind answer r = true ∧ answer r = some cause ∧ e = reported r cause ∧
    calls = (front.filter (takes kind answer)).map .acquire ++
      (front.filter (takes kind answer)).reverse.map .release

theorem moduleInit_unwinds {lab : Lab} {answer : Answers} {calls : List Call} {e : Errno}
    (failed : moduleInit lab answer = (calls, some e)) : Unwinds lab answer calls e := by
  rw [moduleInit_climb] at failed
  rcases stops_split kind answer (rungs lab) with
    unstopped | ⟨front, r, back, cause, rungsEq, answered, stopped, unstopped⟩
  · rw [climb_of_none_stops unstopped] at failed
    cases failed
  · rw [rungsEq, climb_of_stops unstopped stopped answered] at failed
    cases failed
    exact ⟨front, r, back, cause, rungsEq, unstopped, stopped, answered, rfl, by simp [unwind]⟩

/-- What init and exit themselves acquire and release, for every module and all
answers of the kernel.  A failed load unwinds: it returns the error of the first
call that failed and has released exactly what it had acquired, nothing while
something held used it.  A load that succeeds has acquired everything after what it
needs, and the exit function releases each of it once, in an order that respects
its uses in all modules but two: `gpioctrl_exit` and `kthreads_exit` release the
work and the producer while interfaces that can start them again are registered.
Any number of loads and unloads leaves nothing of it. -/
theorem every_load_unwinds (lab : Lab) :
    (∀ answer calls e, moduleInit lab answer = (calls, some e) →
      Unwinds lab answer calls e ∧ settle (needs lab) (uses lab) [] calls = some []) ∧
    (∀ answer calls, moduleInit lab answer = (calls, none) →
      settle (needs lab) (uses lab) [] calls = some (holding lab answer) ∧
        ExitReleases lab (holding lab answer) (moduleExit lab answer)) ∧
    ∀ attempts : List Answers,
      settle (needs lab) (needs lab) [] (attempts.flatMap (session lab)) = some [] := by
  have ordered := rungs_wellOrdered lab
  refine ⟨?_, ?_, ?_⟩
  · intro answer calls e failed
    refine ⟨moduleInit_unwinds failed, ?_⟩
    exact settle_climb_failed ordered (rungs_usedLater lab)
      ((moduleInit_climb lab answer).symm.trans failed)
  · intro answer calls loaded
    have climbed := (moduleInit_climb lab answer).symm.trans loaded
    exact ⟨settle_climb_done ordered climbed,
      moduleExit_releases_holding (none_stops_of_done climbed)⟩
  · intro attempts
    induction attempts with
    | nil => rfl
    | cons answer rest ih =>
        rw [List.flatMap_cons, settle_append, session_settles]
        exact ih

end ModuleLoading
