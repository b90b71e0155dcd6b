import KernelLabs.Kthreads.Ring
import KernelLabs.Lib.LockWord
import KernelLabs.Lib.Machine
import KernelLabs.Lib.Pool

/-!
# Threads, control writes, init and exit of `15_kthreads/kthreads.c`

Any number of writes to the `control` attribute and reads of `status` run
against `kthreads_init`, `kthreads_exit` and the producer threads.  A step is
one access under `producer_task_lock`, a lock or unlock, a stage of
`kthread_stop`, one stage of a thread's loop, or one stage of init or exit.

The task that loads and unloads the module is call 0: init's `start_producer`
and exit's `stop_producer` are the functions the control writes run.  The
kernel's part: `kthread_stop` returns only after the thread has returned,
`sysfs_remove_group` waits for running attribute callbacks, and an open
attribute does not keep the module loaded.
-/

set_option autoImplicit false

namespace Kthreads.Lifecycle

open Kernel LabelledMachine PartyPool LockWord

/-- The values of `producer_task`: NULL, an error pointer, or a thread. -/
inductive TaskPtr where
  | null
  | err (e : Errno)
  | task (t : Nat)
  deriving DecidableEq, Repr

/-- A thread created on `producer_thread_fn`.  `kthread` looks at the stop flag
once before it calls the function. -/
inductive ThreadPc where
  | starting
  | check
  | body
  | sleep
  | exited
  deriving DecidableEq, Repr

structure Thread where
  pid : Nat
  shouldStop : Bool
  pc : ThreadPc
  deriving DecidableEq, Repr

inductive Stage where
  | miscRegister
  | kobjectCreate
  | sysfsCreate
  | initStart
  | initRemove (ret : Int)
  | initPut (ret : Int)
  | initDeregister (ret : Int)
  | initFailed (ret : Int)
  | loaded
  | exitStop
  | exitRemove
  | exitPut
  | exitDeregister
  | exited
  deriving DecidableEq, Repr

structure Shared where
  producerTask : TaskPtr
  producerTaskLock : Bool
  threads : List Thread
  ring : Ring
  -- The attributes exist, so calls may begin.
  attrs : Bool
  stage : Stage

inductive CallPc where
  | idle
  | startLock
  | startCheck
  | startRun
  | startTest
  | startUnlock (ret : Int)
  | stopLock
  | stopTake
  | stopUnlock (task : TaskPtr)
  | stopFlag (t : Nat)
  | stopJoin (t : Nat)
  | statusLock
  | statusRead
  | statusUnlock (running : Bool) (pid : Int)
  | statusEmit (running : Bool) (pid : Int)
  | done (ret : Int)
  | shown (text : Bytes)
  -- `kthread_stop`, or `->pid` under the lock, of an error pointer.
  | crashed (locked : Bool)
  deriving DecidableEq, Repr

/-- A call with the `count` of the write it serves; `ret` of `done` is what
`start_producer` or `stop_producer` returned. -/
structure Call where
  count : Nat
  pc : CallPc
  deriving DecidableEq, Repr

def Call.finished (call : Call) : Bool :=
  match call.pc with
  | .idle | .done _ | .shown _ => true
  | _ => false

/-- What a control write returns, once it has. -/
def controlResult (call : Call) : Option Int :=
  match call.pc with
  | .done ret => some (if ret ≠ 0 then ret else call.count)
  | _ => none

def controlStore (buf : Bytes) : CallPc :=
  if buf.length = 0 ∨ 16 ≤ buf.length then .done Errno.e2big.code
  else if sysfsStreq (strim (cstr buf)) (ascii "start") then .startLock
  else if sysfsStreq (strim (cstr buf)) (ascii "stop") then .stopLock
  else .done Errno.einval.code

/-- What `status_show` prints of the loads it has made. -/
def statusText (running : Bool) (pid : Int) (produced dropped : UInt64) (buffered : Nat) : Bytes :=
  scnprintf 4096 (ascii "running=" ++ (if running then [49] else [48]) ++ [10] ++ ascii "pid=" ++
    signedDecimal pid ++ [10] ++ ascii "produced=" ++ decimal produced.toNat ++ [10] ++
    ascii "dropped=" ++ decimal dropped.toNat ++ [10] ++ ascii "buffered=" ++ decimal buffered ++
    [10])

/-- What `kthread_run` comes back with: the pid of the new thread or an error. -/
abbrev Run := Except Errno Nat

/-- One step of a call; `outcome` decides a `kthread_run`. -/
def callStep (_i : Nat) (outcome : Run) (shared : Shared) (call : Call) : Option (Shared × Call) :=
  match call.pc with
  | .startLock =>
    if shared.producerTaskLock then none
    else some ({ shared with producerTaskLock := true }, { call with pc := .startCheck })
  | .startCheck =>
    if shared.producerTask = .null then some (shared, { call with pc := .startRun })
    else some (shared, { call with pc := .startUnlock Errno.eexist.code })
  | .startRun =>
    match outcome with
    | .error e => some ({ shared with producerTask := .err e }, { call with pc := .startTest })
    | .ok pid =>
      some ({ shared with
                threads := shared.threads ++ [⟨pid, false, .starting⟩]
                producerTask := .task shared.threads.length },
        { call with pc := .startTest })
  | .startTest =>
    match shared.producerTask with
    | .err e =>
      some ({ shared with producerTask := .null }, { call with pc := .startUnlock e.code })
    | _ => some (shared, { call with pc := .startUnlock 0 })
  | .startUnlock ret =>
    some ({ shared with producerTaskLock := false }, { call with pc := .done ret })
  | .stopLock =>
    if shared.producerTaskLock then none
    else some ({ shared with producerTaskLock := true }, { call with pc := .stopTake })
  | .stopTake =>
    some ({ shared with producerTask := .null },
      { call with pc := .stopUnlock shared.producerTask })
  | .stopUnlock task =>
    let pc := match task with
      | .null => .done Errno.enoent.code
      | .err _ => .crashed false
      | .task t => .stopFlag t
    some ({ shared with producerTaskLock := false }, { call with pc })
  | .stopFlag t =>
    let threads := shared.threads.modify t fun thread => { thread with shouldStop := true }
    some ({ shared with threads }, { call with pc := .stopJoin t })
  | .stopJoin t =>
    match shared.threads[t]? with
    | some ⟨_, _, .exited⟩ => some (shared, { call with pc := .done 0 })
    | _ => none
  | .statusLock =>
    if shared.producerTaskLock then none
    else some ({ shared with producerTaskLock := true }, { call with pc := .statusRead })
  | .statusRead =>
    match shared.producerTask with
    | .null => some (shared, { call with pc := .statusUnlock false (-1) })
    | .err _ => some (shared, { call with pc := .crashed true })
    | .task t =>
      match shared.threads[t]? with
      | some thread => some (shared, { call with pc := .statusUnlock true thread.pid })
      | none => some (shared, { call with pc := .crashed true })
  | .statusUnlock running pid =>
    some ({ shared with producerTaskLock := false }, { call with pc := .statusEmit running pid })
  | .statusEmit running pid =>
    some (shared, { call with pc := .shown (statusText running pid shared.ring.nextSeq
      shared.ring.droppedCount shared.ring.ringCount) })
  | .idle | .done _ | .shown _ | .crashed _ => none

def threadStep (ns : UInt64) (shared : Shared) (t : Nat) : Option Shared :=
  match shared.threads[t]? with
  | none => none
  | some thread =>
    let moves (pc : ThreadPc) : List Thread := shared.threads.set t { thread with pc }
    match thread.pc with
    | .starting =>
      some { shared with threads := moves (if thread.shouldStop then .exited else .check) }
    | .check => some { shared with threads := moves (if thread.shouldStop then .exited else .body) }
    | .body =>
      some { shared with threads := moves .sleep, ring := producerSection ns shared.ring }
    | .sleep => some { shared with threads := moves .check }
    | .exited => none

abbrev System := Pool Shared Call

def System.initial : System where
  shared := ⟨.null, false, [], Ring.initial, false, .miscRegister⟩
  parties := [⟨0, .idle⟩]

/-- The loading task goes on in the function it has called. -/
def System.enters (s : System) (stage : Stage) (pc : CallPc) : System where
  shared := { s.shared with stage }
  parties := s.parties.set 0 ⟨0, pc⟩

/-- `sysfs_remove_group`, once no attribute callback runs. -/
def removeGroup (s : System) (stage : Stage) : Option System :=
  if s.parties.all Call.finished then
    some { s with shared := { s.shared with attrs := false, stage } }
  else none

/-- The next stage of init or exit; `failure` decides the registrations. -/
def moduleStep (failure : Option Errno) (s : System) : Option System :=
  let goesOn (stage : Stage) : System := { s with shared := { s.shared with stage } }
  match s.shared.stage with
  | .miscRegister =>
    match failure with
    | some e => some (goesOn (.initFailed e.code))
    | none => some (goesOn .kobjectCreate)
  | .kobjectCreate =>
    match failure with
    | some _ => some (goesOn (.initDeregister Errno.enomem.code))
    | none => some (goesOn .sysfsCreate)
  | .sysfsCreate =>
    match failure with
    | some e => some (goesOn (.initPut e.code))
    | none =>
      some (System.enters { s with shared := { s.shared with attrs := true } } .initStart
        .startLock)
  | .initStart =>
    match s.parties with
    | ⟨_, .done ret⟩ :: _ => some (goesOn (if ret ≠ 0 then .initRemove ret else .loaded))
    | _ => none
  | .initRemove ret => removeGroup s (.initPut ret)
  | .initPut ret => some (goesOn (.initDeregister ret))
  | .initDeregister ret => some (goesOn (.initFailed ret))
  | .initFailed _ => none
  | .loaded => some (s.enters .exitStop .stopLock)
  | .exitStop =>
    match s.parties with
    | ⟨_, .done _⟩ :: _ => some (goesOn .exitRemove)
    | _ => none
  | .exitRemove => removeGroup s .exitPut
  | .exitPut => some (goesOn .exitDeregister)
  | .exitDeregister => some (goesOn .exited)
  | .exited => none

inductive Act where
  | writeControl (buf : Bytes)
  | readStatus
  | call (i : Nat) (outcome : Run)
  | thread (t : Nat) (ns : UInt64)
  | module (failure : Option Errno)

def step (s : System) : Act → Option System
  | .writeControl buf =>
    if s.shared.attrs then some (s.spawn ⟨buf.length, controlStore buf⟩) else none
  | .readStatus => if s.shared.attrs then some (s.spawn ⟨0, .statusLock⟩) else none
  | .call i outcome => s.act callStep i outcome
  | .thread t ns => (threadStep ns s.shared t).map fun shared => { s with shared }
  | .module failure => moduleStep failure s

end Kthreads.Lifecycle
