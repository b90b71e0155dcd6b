import KernelLabs.Kernel.Basic
import KernelLabs.Lib.Machine
import KernelLabs.Lib.OwnedHeap

/-!
# The callbacks of `08_open_release_cdev/open_release_cdev.c`

Any number of processes open, duplicate and close the device at once.  A
`struct file` is a party; its `->open` and its `->release` run one access to
shared memory a step, so the callbacks of different files interleave in every
way.  The VFS around them: a descriptor more for each `dup` or `fork`, one less
for each `close` or exit, `->release` when the last one goes, no `->release`
after an `->open` that failed, and a reference on the module (`fops.owner`)
from before `->open` until after `->release`.

A callback that follows a pointer to freed memory ends in `crashed`.  Left out:
`f_pos`, the decoding of the flags, and that the lines of one block of
`pr_info` calls may have other lines between them.
-/

set_option autoImplicit false

namespace OpenRelease

open Kernel PartyPool LabelledMachine OwnedHeap

def taskCommLen : Nat := 16

/-- `struct open_context`. -/
structure OpenContext where
  id : UInt64
  openedNs : UInt64
  minor : Nat
  flags : Nat
  mode : Nat
  openerPid : Nat
  openerComm : Bytes
  deriving DecidableEq, Repr

/-- What `kzalloc` returns. -/
def OpenContext.zeroed : OpenContext := ⟨0, 0, 0, 0, 0, 0, []⟩

/-- What the module logs; one entry for the block of lines of one callback. -/
inductive Line where
  | opened (id : UInt64) (minor : Nat) (process : Identity) (active : Int) (mode flags : Nat)
      (recordedMinor : Nat)
  | released (id : UInt64) (minor : Nat) (openedBy releasedBy : Identity) (lifetimeUs : UInt64)
      (active : Int)
  | withoutPrivateData
  | exit (active : Int) (totalOpenCalls : UInt64)
  deriving DecidableEq, Repr

/-- The statics `active_opens` and `next_open_id`, the slab, the clock and the
log; `up` while the module is registered. -/
structure Globals where
  activeOpens : Int
  nextOpenId : UInt64
  heap : Heap OpenContext
  clock : Nat
  log : List Line
  up : Bool
  deriving DecidableEq, Repr

def ktimeGetNs (g : Globals) : UInt64 := UInt64.ofNat g.clock

/-- Where the kernel is with one `struct file` of the device.  The address is
the local variable `ctx` of the callback under way. -/
inductive Phase where
  | opening
  | allocated (ctx : Nat)
  | numbered (ctx : Nat)
  | recorded (ctx : Nat)
  | counted (ctx : Nat) (active : Int)
  | failed
  | held (moreDescriptors : Nat)
  | releasing (current : Identity)
  | measured (current : Identity) (ctx : Nat) (lifetimeUs : UInt64)
  | uncounted (current : Identity) (ctx : Nat) (lifetimeUs : UInt64) (active : Int)
  | reported (ctx : Nat)
  | freed
  | closed
  | crashed
  deriving DecidableEq, Repr

structure File where
  current : Identity
  minor : Nat
  flags : Nat
  mode : Nat
  privateData : Option Nat
  phase : Phase
  deriving DecidableEq, Repr

inductive Input where
  | run
  | kzalloc (succeeds : Bool)
  | dup
  | close (current : Identity)
  deriving DecidableEq, Repr

/-- `->open` has failed or `->release` has returned: the VFS has let go of the
file and of its reference on the module. -/
def File.gone (file : File) : Bool := file.phase = .failed || file.phase = .closed

def log (g : Globals) (line : Line) : Globals := { g with log := g.log ++ [line] }

/-- `ctx->...`, which takes the kernel down when `ctx` has been freed. -/
def follow (g : Globals) (file : File) (ctx : Nat) (use : OpenContext → Globals × File) :
    Option (Globals × File) :=
  match load g.heap ctx with
  | none => some (g, { file with phase := .crashed })
  | some c => some (use c)

/-- `my_open`, from the call to its return. -/
def myOpen (input : Input) (g : Globals) (file : File) : Option (Globals × File) :=
  match file.phase, input with
  | .opening, .kzalloc false => some (g, { file with phase := .failed })
  | .opening, .kzalloc true =>
      some ({ g with heap := alloc g.heap OpenContext.zeroed },
        { file with phase := .allocated g.heap.length })
  | .allocated ctx, .run =>
      follow g file ctx fun c =>
        let id := g.nextOpenId + 1
        ({ g with nextOpenId := id, heap := store g.heap ctx { c with id := id } },
          { file with phase := .numbered ctx })
  | .numbered ctx, .run =>
      follow g file ctx fun c =>
        let filled := { c with
          openedNs := ktimeGetNs g, minor := file.minor, flags := file.flags, mode := file.mode,
          openerPid := file.current.pid, openerComm := strscpy taskCommLen file.current.comm }
        ({ g with heap := store g.heap ctx filled },
          { file with privateData := some ctx, phase := .recorded ctx })
  | .recorded ctx, .run =>
      let active := wrapInt (g.activeOpens + 1)
      some ({ g with activeOpens := active }, { file with phase := .counted ctx active })
  | .counted ctx active, .run =>
      follow g file ctx fun c =>
        (log g (.opened c.id file.minor file.current active file.mode file.flags c.minor),
          { file with phase := .held 0 })
  | _, _ => none

/-- `my_release`, called when the last descriptor goes. -/
def myRelease (g : Globals) (file : File) : Option (Globals × File) :=
  match file.phase with
  | .releasing current =>
      match file.privateData with
      | none => some (log g .withoutPrivateData, { file with phase := .closed })
      | some ctx =>
          follow g file ctx fun c =>
            let lifetimeNs := ktimeGetNs g - c.openedNs
            (g, { file with phase := .measured current ctx (lifetimeNs / 1000) })
  | .measured current ctx lifetimeUs =>
      let active := wrapInt (g.activeOpens - 1)
      some ({ g with activeOpens := active },
        { file with phase := .uncounted current ctx lifetimeUs active })
  | .uncounted current ctx lifetimeUs active =>
      follow g file ctx fun c =>
        (log g (.released c.id file.minor ⟨c.openerComm, c.openerPid⟩ current lifetimeUs active),
          { file with phase := .reported ctx })
  | .reported ctx =>
      follow g file ctx fun _ => ({ g with heap := free g.heap ctx }, { file with phase := .freed })
  | .freed => some (g, { file with privateData := none, phase := .closed })
  | _ => none

/-- `dup` and `close` on a descriptor of the file. -/
def descriptors (input : Input) (g : Globals) (file : File) : Option (Globals × File) :=
  match file.phase, input with
  | .held more, .dup => some (g, { file with phase := .held (more + 1) })
  | .held (more + 1), .close _ => some (g, { file with phase := .held more })
  | .held 0, .close current => some (g, { file with phase := .releasing current })
  | _, _ => none

def fileStep (_ : Nat) (input : Input) (g : Globals) (file : File) : Option (Globals × File) :=
  match file.phase, input with
  | .opening, _ | .allocated _, _ | .numbered _, _ | .recorded _, _ | .counted _ _, _ =>
      myOpen input g file
  | .held _, _ => descriptors input g file
  | _, .run => myRelease g file
  | _, _ => none

abbrev System := Pool Globals File

def System.initial : System := ⟨⟨0, 0, [], 0, [], true⟩, []⟩

inductive Act where
  | openFile (current : Identity) (minor flags mode : Nat)
  | file (i : Nat) (input : Input)
  | passes (ns : Nat)
  | exit
  deriving DecidableEq, Repr

/-- `comm` is an array of `TASK_COMM_LEN` bytes, its NUL included. -/
def isTask (current : Identity) : Bool := current.comm.length < taskCommLen

def step (s : System) : Act → Option System
  | .openFile current minor flags mode =>
      if s.shared.up && isTask current then
        some (s.spawn ⟨current, minor, flags, mode, none, .opening⟩)
      else none
  | .file i input => s.act fileStep i input
  | .passes ns => some { s with shared := { s.shared with clock := s.shared.clock + ns } }
  | .exit =>
      if s.shared.up && s.parties.all File.gone then
        some { s with shared :=
          { log s.shared (.exit s.shared.activeOpens s.shared.nextOpenId) with up := false } }
      else none

end OpenRelease
