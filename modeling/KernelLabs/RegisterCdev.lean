import KernelLabs.Kernel.Basic
import KernelLabs.Lib.Machine
import KernelLabs.Lib.Pool
import Mathlib.Algebra.Order.Ring.Int

/-!
# `05_register_cdev/register_cdev.c`

The message of a read names the task that makes it, so an open file that several
tasks read, one after the other, renders a different text for each of them while
the position goes on.  `received` are the bytes that reads of the file have
handed over, and `readers` the task of each byte.

`open_count` counts opens and releases over all minors, as an `int` does.

The calls come one after the other: opening and releasing count and print in one
step, so a line stands in the log where its call stands among the calls.
-/

set_option autoImplicit false

namespace RegisterCdev

open Kernel LabelledMachine PartyPool

/-- A task: `comm` has room for 15 bytes, a pid is an `int`. -/
structure Caller where
  comm : Bytes
  pid : Int
  commFits : comm.length ≤ 15
  pidFits : intMin ≤ pid ∧ pid ≤ intMax
  deriving DecidableEq

/-- What `register_chrdev` returned when it did not fail. -/
structure Major where
  number : Int
  fits : 0 ≤ number ∧ number ≤ intMax
  deriving DecidableEq

def messageText (major : Major) (minor : UInt32) (caller : Caller) : Bytes :=
  ascii "register_cdev kernel device\nmajor=" ++ signedDecimal major.number ++ ascii "\nminor=" ++
    decimal minor.toNat ++ ascii "\ncontext=" ++ caller.comm ++ ascii "[" ++
    signedDecimal caller.pid ++ ascii "]\n"

/-- What stands in `message` on the stack of the reading task. -/
def message (major : Major) (minor : UInt32) (caller : Caller) : Bytes :=
  scnprintf 256 (messageText major minor caller)

/-- The bytes a read hands over, `none` at the end of the message; `missing` is
what `copy_to_user` returns. -/
def registerCdevRead (text : Bytes) (count offset missing : Nat) : Except Errno (Option Bytes) :=
  if text.length ≤ offset then .ok none
  else if missing ≠ 0 then .error .efault
  else .ok (some ((text.drop offset).take count))

/-- What the call returns: a read of no bytes returns 0 as the end does. -/
def readReturn : Except Errno (Option Bytes) → Except Errno Nat
  | .error e => .error e
  | .ok none => .ok 0
  | .ok (some bytes) => .ok bytes.length

structure OpenFile where
  minor : UInt32
  offset : Nat
  received : Bytes
  readers : List Caller
  released : Bool
  deriving DecidableEq

inductive Line where
  | opened (minor : UInt32) (caller : Caller) (opens : Int)
  | read (minor : UInt32) (bytes offset : Nat) (caller : Caller)
  | released (minor : UInt32) (caller : Caller) (opens : Int)
  deriving DecidableEq

structure Device where
  openCount : Int
  files : List OpenFile
  log : List Line
  deriving DecidableEq

def Device.initial : Device := ⟨0, [], []⟩

def registerCdevOpen (minor : UInt32) (caller : Caller) (dev : Device) : Device :=
  let count := wrapInt (dev.openCount + 1)
  ⟨count, dev.files ++ [⟨minor, 0, [], [], false⟩], dev.log ++ [.opened minor caller count]⟩

def registerCdevRelease (i : Nat) (file : OpenFile) (caller : Caller) (dev : Device) : Device :=
  let count := wrapInt (dev.openCount - 1)
  ⟨count, dev.files.set i { file with released := true },
    dev.log ++ [.released file.minor caller count]⟩

/-- A read through file `i` that copied `bytes`. -/
def readDone (i : Nat) (file : OpenFile) (caller : Caller) (bytes : Bytes) (dev : Device) :
    Device :=
  let offset := file.offset + bytes.length
  { dev with
    files := dev.files.set i { file with
      offset := offset
      received := file.received ++ bytes
      readers := file.readers ++ List.replicate bytes.length caller }
    log := dev.log ++ [.read file.minor bytes.length offset caller] }

inductive Act where
  | openFile (minor : UInt32) (caller : Caller)
  | read (i count missing : Nat) (caller : Caller)
  | release (i : Nat) (caller : Caller)
  deriving DecidableEq

def step (major : Major) (dev : Device) : Act → Option Device
  | .openFile minor caller => some (registerCdevOpen minor caller dev)
  | .read i count missing caller =>
    match dev.files[i]? with
    | none => none
    | some file =>
      if file.released then none
      else
        match registerCdevRead (message major file.minor caller) count file.offset missing with
        | .error _ | .ok none => some dev
        | .ok (some bytes) => some (readDone i file caller bytes dev)
  | .release i caller =>
    match dev.files[i]? with
    | none => none
    | some file => if file.released then none else some (registerCdevRelease i file caller dev)

/-! ## The message -/

theorem signedDecimal_length_le {value : Int} (range : intMin ≤ value ∧ value ≤ intMax) :
    (signedDecimal value).length ≤ 11 := by
  have digits : (decimal value.natAbs).length ≤ 10 := by
    refine decimal_length_le (by decide) ?_
    simp only [intMin, intMax] at range
    omega
  unfold signedDecimal
  split
  · rw [List.length_cons]
    omega
  · omega

/-- The message is never cut. -/
theorem message_eq (major : Major) (minor : UInt32) (caller : Caller) :
    message major minor caller = messageText major minor caller := by
  have wide : intMin ≤ major.number ∧ major.number ≤ intMax :=
    ⟨Int.le_trans (by decide) major.fits.1, major.fits.2⟩
  have number := signedDecimal_length_le wide
  have pid := signedDecimal_length_le caller.pidFits
  have digits : (decimal minor.toNat).length ≤ 10 :=
    decimal_length_le (by decide) (Nat.lt_trans minor.toNat_lt (by decide))
  have comm := caller.commFits
  have words : (ascii "register_cdev kernel device\nmajor=").length = 34 ∧
      (ascii "\nminor=").length = 7 ∧ (ascii "\ncontext=").length = 9 ∧
      (ascii "[").length = 1 ∧ (ascii "]\n").length = 2 := by decide
  refine scnprintf_of_fits ?_
  simp only [messageText, List.length_append, words]
  omega

theorem registerCdevRead_eq_some {text bytes : Bytes} {count offset missing : Nat}
    (copied : registerCdevRead text count offset missing = .ok (some bytes)) :
    offset < text.length ∧ bytes = (text.drop offset).take count := by
  unfold registerCdevRead at copied
  split at copied
  · cases copied
  · rename_i more
    split at copied
    · cases copied
    · cases copied
      exact ⟨Nat.not_le.mp more, rfl⟩

/-! ## What a file has received -/

/-- Each byte is the one at its place in the message of the task that read it. -/
structure Served (major : Major) (file : OpenFile) : Prop where
  length : file.received.length = file.offset
  readers : file.readers.length = file.offset
  bytes : ∀ (k : Nat) reader, file.readers[k]? = some reader →
    file.received[k]? = (message major file.minor reader)[k]?

theorem Served.read {major : Major} {file : OpenFile} (served : Served major file)
    (caller : Caller) (count : Nat) {bytes : Bytes}
    (own : bytes = ((message major file.minor caller).drop file.offset).take count) :
    Served major { file with
      offset := file.offset + bytes.length
      received := file.received ++ bytes
      readers := file.readers ++ List.replicate bytes.length caller } := by
  obtain ⟨length, readers, known⟩ := served
  refine ⟨?_, ?_, ?_⟩
  · rw [List.length_append, length]
  · rw [List.length_append, List.length_replicate, readers]
  · intro k reader found
    dsimp only at found ⊢
    rcases Nat.lt_or_ge k file.offset with old | new
    · rw [List.getElem?_append_left (by omega)] at found ⊢
      exact known k reader found
    · rw [List.getElem?_append_right (by omega)] at found ⊢
      obtain ⟨bound, here⟩ := List.getElem?_eq_some_iff.mp found
      rw [List.getElem_replicate] at here
      subst here
      rw [List.length_replicate, readers] at bound
      have within : k - file.offset < count := by
        have size := congrArg List.length own
        rw [List.length_take] at size
        omega
      rw [length, own, List.getElem?_take_of_lt within, List.getElem?_drop]
      exact congrArg _ (by omega)

/-! ## The numbers logged -/

def Line.weight : Line → Int
  | .opened _ _ _ => 1
  | .released _ _ _ => -1
  | .read _ _ _ _ => 0

def Line.opens : Line → Option Int
  | .opened _ _ opens | .released _ _ opens => some opens
  | .read _ _ _ _ => none

/-- Opens less releases. -/
def balance (log : List Line) : Int := (log.map Line.weight).sum

/-- Every line logs the balance at its place in the log. -/
def Tallied (log : List Line) : Prop :=
  ∀ front line, front ++ [line] <+: log → ∀ opens ∈ line.opens,
    opens = wrapInt (balance (front ++ [line]))

theorem tallied_concat {log : List Line} (tallied : Tallied log) {line : Line}
    (own : ∀ opens ∈ line.opens, opens = wrapInt (balance (log ++ [line]))) :
    Tallied (log ++ [line]) := by
  intro front other before
  rcases List.prefix_concat_iff.mp before with whole | earlier
  · obtain ⟨rfl, last⟩ := List.append_inj' whole rfl
    cases last
    exact own
  · exact tallied front other earlier

theorem balance_concat (log : List Line) (line : Line) :
    balance (log ++ [line]) = balance log + line.weight := by
  simp [balance]

theorem wrapInt_add (x y : Int) : wrapInt (wrapInt x + y) = wrapInt (x + y) :=
  Int.bmod_add_bmod

theorem wrapInt_concat {log : List Line} {opens : Int} (counted : opens = wrapInt (balance log))
    (line : Line) : wrapInt (opens + line.weight) = wrapInt (balance (log ++ [line])) := by
  rw [balance_concat, counted, wrapInt_add]

def unreleased (files : List OpenFile) : Nat := files.countP fun file => !file.released

structure Kept (major : Major) (dev : Device) : Prop where
  served : ∀ file ∈ dev.files, Served major file
  tallied : Tallied dev.log
  counted : dev.openCount = wrapInt (balance dev.log)
  standing : balance dev.log = unreleased dev.files

theorem kept_initial (major : Major) : Kept major Device.initial := by
  refine ⟨nofun, ?_, rfl, rfl⟩
  intro front line before
  exact absurd (List.prefix_nil.mp before) (List.append_ne_nil_of_right_ne_nil _ nofun)

theorem step_kept (major : Major) (dev : Device) (act : Act) (next : Device)
    (kept : Kept major dev) (stepped : step major dev act = some next) : Kept major next := by
  obtain ⟨served, tallied, counted, standing⟩ := kept
  cases act with
  | openFile minor caller =>
      cases stepped
      have sum := balance_concat dev.log (.opened minor caller (wrapInt (dev.openCount + 1)))
      have count : wrapInt (dev.openCount + 1) =
          wrapInt (balance (dev.log ++ [.opened minor caller (wrapInt (dev.openCount + 1))])) :=
        wrapInt_concat counted (.opened minor caller _)
      have fresh : Served major ⟨minor, 0, [], [], false⟩ :=
        ⟨rfl, rfl, fun k reader found => absurd found nofun⟩
      refine ⟨forall_mem_spawn served fresh, tallied_concat tallied ?_, count, ?_⟩
      · intro opens logged
        cases logged
        exact count
      · simp only [registerCdevOpen]
        rw [sum, standing, unreleased, unreleased, List.countP_append]
        rfl
  | read i count missing caller =>
      simp only [step] at stepped
      split at stepped
      · contradiction
      · rename_i file found
        split at stepped
        · contradiction
        · split at stepped
          · cases stepped
            exact ⟨served, tallied, counted, standing⟩
          · cases stepped
            exact ⟨served, tallied, counted, standing⟩
          · rename_i bytes copied
            cases stepped
            obtain ⟨_, own⟩ := registerCdevRead_eq_some copied
            have sum := balance_concat dev.log
              (.read file.minor bytes.length (file.offset + bytes.length) caller)
            have same : balance (readDone i file caller bytes dev).log = balance dev.log :=
              sum.trans (Int.add_zero _)
            refine ⟨?_, tallied_concat tallied nofun, ?_, ?_⟩
            · exact forall_mem_set served
                ((served file (List.mem_of_getElem? found)).read caller count own)
            · rw [same]
              exact counted
            · rw [same, standing]
              have moved := countP_set_add (fun file => !file.released)
                ({ file with
                    offset := file.offset + bytes.length
                    received := file.received ++ bytes
                    readers := file.readers ++ List.replicate bytes.length caller } : OpenFile)
                found
              exact congrArg Nat.cast (Nat.add_right_cancel moved).symm
  | release i caller =>
      simp only [step] at stepped
      split at stepped
      · contradiction
      · rename_i file found
        split at stepped
        · contradiction
        · rename_i held
          cases stepped
          have sum := balance_concat dev.log
            (.released file.minor caller (wrapInt (dev.openCount - 1)))
          have count : wrapInt (dev.openCount - 1) = wrapInt (balance
              (dev.log ++ [.released file.minor caller (wrapInt (dev.openCount - 1))])) :=
            wrapInt_concat counted (.released file.minor caller _)
          refine ⟨?_, tallied_concat tallied ?_, count, ?_⟩
          · have own := served file (List.mem_of_getElem? found)
            exact forall_mem_set served ⟨own.length, own.readers, own.bytes⟩
          · intro opens logged
            cases logged
            exact count
          · have moved := countP_set_add (fun file => !file.released)
              ({ file with released := true } : OpenFile) found
            have standing' : (!file.released) = true := by simpa using held
            simp only [standing', Bool.not_true, Bool.false_eq_true, if_true, if_false] at moved
            simp only [registerCdevRelease]
            rw [sum, standing]
            simp only [unreleased, Line.weight]
            omega

/-! ## One task reading -/

theorem Served.sole {major : Major} {file : OpenFile} (served : Served major file)
    {caller : Caller} (alone : ∀ reader ∈ file.readers, reader = caller) :
    file.received = (message major file.minor caller).take file.offset := by
  obtain ⟨length, readers, known⟩ := served
  refine List.ext_getElem? fun k => ?_
  rcases Nat.lt_or_ge k file.offset with inside | beyond
  · have bound : k < file.readers.length := by omega
    have own := alone _ (List.getElem_mem bound)
    rw [known k _ (List.getElem?_eq_getElem bound), own, List.getElem?_take_of_lt inside]
  · rw [List.getElem?_eq_none (by omega), List.getElem?_eq_none]
    rw [List.length_take]
    omega

/-- A task that reads alone meets the end when it has the whole message. -/
theorem Served.sole_end {major : Major} {file : OpenFile} (served : Served major file)
    {caller : Caller} (alone : ∀ reader ∈ file.readers, reader = caller) (count : Nat) :
    registerCdevRead (message major file.minor caller) count file.offset 0 = .ok none ↔
      file.received = message major file.minor caller := by
  have front := served.sole alone
  constructor
  · intro ended
    unfold registerCdevRead at ended
    split at ended
    · rename_i past
      rw [front, List.take_of_length_le past]
    · rw [if_neg (not_not.mpr rfl)] at ended
      cases ended
  · intro whole
    have size := served.length
    rw [whole] at size
    rw [registerCdevRead, if_pos (Nat.le_of_eq size)]

/-- A read of at least one byte returns 0 only at the end. -/
theorem readReturn_eq_zero_iff {text : Bytes} {count : Nat} (asked : 1 ≤ count) (offset : Nat) :
    readReturn (registerCdevRead text count offset 0) = .ok 0 ↔
      registerCdevRead text count offset 0 = .ok none := by
  constructor
  · intro zero
    cases result : registerCdevRead text count offset 0 with
    | error e =>
        rw [result] at zero
        cases zero
    | ok handed =>
        cases handed with
        | none => rfl
        | some bytes =>
            obtain ⟨more, own⟩ := registerCdevRead_eq_some result
            rw [result] at zero
            have empty : bytes.length = 0 := Except.ok.inj zero
            rw [own, List.length_take, List.length_drop] at empty
            omega
  · intro ended
    rw [ended]
    rfl

/-- **Reads and opens.** Whatever opens, reads by any tasks, failing copies and
releases came before, one after the other: every byte a file has handed over is the
byte at its place in the uncut message of the task that read it; where that was one
task all along, the bytes are the front of its message, and a read meets the end,
and one of at least a byte returns 0, exactly when it has the whole; every line logs
the opens less the releases up to it, and `open_count` is the number of files that
are open, as an `int` counts. -/
theorem reads_and_opens (major : Major) (acts : List Act) (dev : Device)
    (ran : run (step major) Device.initial acts = some dev) :
    (∀ file ∈ dev.files, file.received.length = file.readers.length ∧
        (∀ (k : Nat) reader, file.readers[k]? = some reader →
          file.received[k]? = (messageText major file.minor reader)[k]?) ∧
        ∀ caller, (∀ reader ∈ file.readers, reader = caller) →
          file.received = (messageText major file.minor caller).take file.offset ∧
          ∀ count, (registerCdevRead (message major file.minor caller) count file.offset 0 =
                .ok none ↔
              file.received = messageText major file.minor caller) ∧
            (1 ≤ count →
              (readReturn (registerCdevRead (message major file.minor caller) count
                  file.offset 0) = .ok 0 ↔
                file.received = messageText major file.minor caller))) ∧
      Tallied dev.log ∧ dev.openCount = wrapInt (unreleased dev.files) := by
  have kept := invariant_run (step_kept major) (kept_initial major) ran
  refine ⟨?_, kept.tallied, ?_⟩
  · intro file member
    have served := kept.served file member
    refine ⟨served.length.trans served.readers.symm, ?_, ?_⟩
    · intro k reader found
      rw [← message_eq]
      exact served.bytes k reader found
    · intro caller alone
      rw [← message_eq]
      refine ⟨served.sole alone, fun count => ⟨served.sole_end alone count, fun asked => ?_⟩⟩
      exact (readReturn_eq_zero_iff asked file.offset).trans (served.sole_end alone count)
  · rw [kept.counted, kept.standing]

def chardev : Major := ⟨240, by decide⟩

def cat : Caller := ⟨ascii "cat", 77, by decide, by decide⟩

def head : Caller := ⟨ascii "head", 78, by decide, by decide⟩

/-- `head` takes over the file of `cat` after 80 bytes. -/
def handedOver : List Act :=
  [.openFile 3 cat, .read 0 40 0 cat, .read 0 10 4 cat, .read 0 40 0 cat, .openFile 3 head,
    .read 0 4096 0 head, .release 1 head]

theorem reads_and_opens_handedOver :
    ∃ dev, run (step chardev) Device.initial handedOver = some dev ∧
      dev.openCount = 1 ∧ Tallied dev.log := by
  have ran := run_get (step chardev) Device.initial handedOver (by decide +kernel)
  exact ⟨_, ran, by decide +kernel, (reads_and_opens chardev handedOver _ ran).2.1⟩

end RegisterCdev
