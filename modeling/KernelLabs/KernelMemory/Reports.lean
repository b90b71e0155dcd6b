import KernelLabs.KernelMemory.Discipline
import KernelLabs.Lib.Moments
import KernelLabs.Lib.StoreSections
import Mathlib.Data.UInt

/-!
# What `kernel_memory` reports

`info_show` copies the variables inside one section.  `stats_show` loads the
three counters without the lock, and so do the lines that `do_allocate` and
`do_free` log after their sections, for the variables that are not local to
them: what these show may be of another call.

As they look between two stores of a section, the sections are taken apart here:
a section is the list of its stores, and carrying them out is what the sections
of `Slot` do at once.  `history` is a history variable, all stores so far.  The
loads of one call are taken in any order, as C leaves the order of the arguments
open.
-/

set_option autoImplicit false

namespace KernelMemory.Reports

open Kernel LabelledMachine PartyPool LockWord StoreSections Moments

/-! ## The sections store by store -/

inductive Store where
  -- An allocator returns a pointer, a deallocator takes one.
  | obtain (type : AllocType)
  | release
  | curType (type : AllocType)
  | curPtr (ptr : Option Nat)
  | curRequestedSize (size : UInt64)
  | curActualSize (size : UInt64)
  | curAllocNs (ns : UInt64)
  | curFreeNs (ns : UInt64)
  | statsAllocOk
  | statsAllocFail
  | statsFreeCount
  deriving DecidableEq, Repr

def Store.apply (slot : Slot) : Store → Slot
  | .obtain type => { slot with heap := slot.heap ++ [⟨type, true⟩] }
  | .release => { slot with heap := KernelMemory.release slot.heap slot.curPtr }
  | .curType type => { slot with curType := type }
  | .curPtr ptr => { slot with curPtr := ptr }
  | .curRequestedSize size => { slot with curRequestedSize := size }
  | .curActualSize size => { slot with curActualSize := size }
  | .curAllocNs ns => { slot with curAllocNs := ns }
  | .curFreeNs ns => { slot with curFreeNs := ns }
  | .statsAllocOk => { slot with statsAllocOk := slot.statsAllocOk + 1 }
  | .statsAllocFail => { slot with statsAllocFail := slot.statsAllocFail + 1 }
  | .statsFreeCount => { slot with statsFreeCount := slot.statsFreeCount + 1 }

/-- The slot as the stores of a history leave it. -/
def told (history : List Store) : Slot := history.foldl Store.apply Slot.initial

def requestedSize (type : AllocType) (size : UInt64) : UInt64 :=
  if type = .cache then cacheObjSize else size

/-- The stores of a successful `do_allocate`, in the order of the source. -/
def allocateStores (type : AllocType) (size : UInt64) (answer : Answer) (slot : Slot) :
    List Store :=
  let requested := requestedSize type size
  [.obtain type, .curType type, .curPtr (some slot.heap.length), .curRequestedSize requested,
    .curActualSize (if type = .kmalloc then answer.ksize else requested),
    .curAllocNs (answer.clock.t1 - answer.clock.t0), .statsAllocOk]

def freeStores (clock : Clock) : List Store :=
  [.release, .curFreeNs (clock.t1 - clock.t0), .statsFreeCount, .curType .none, .curPtr none]

def storesOf (slot : Slot) : Op → List Store
  | .allocate type size answer =>
    match (doAllocate type size answer slot).1 with
    | .ok _ => allocateStores type size answer slot
    | .error .enomem => [.statsAllocFail]
    | .error _ => []
  | .free clock =>
    match (doFree clock slot).1 with
    | .ok _ => freeStores clock
    | .error _ => []

/-- Everything a section can be. -/
inductive Executed (slot : Slot) (op : Op) : Prop where
  | allocates (type : AllocType) (size : UInt64) (answer : Answer)
      (asked : op = .allocate type size answer) (free : slot.curType = .none)
      (valid : type ≠ .none) (ok : (op.exec slot).1 = .ok ())
      (stores : storesOf slot op = allocateStores type size answer slot)
      (effect : (op.exec slot).2 = (allocateStores type size answer slot).foldl Store.apply slot)
  | fails (type : AllocType) (size : UInt64) (answer : Answer)
      (asked : op = .allocate type size answer) (error : (op.exec slot).1 = .error .enomem)
      (stores : storesOf slot op = [.statsAllocFail])
      (effect : (op.exec slot).2 = Store.apply slot .statsAllocFail)
  | frees (clock : Clock) (asked : op = .free clock) (taken : slot.curType ≠ .none)
      (ok : (op.exec slot).1 = .ok ()) (stores : storesOf slot op = freeStores clock)
      (effect : (op.exec slot).2 = (freeStores clock).foldl Store.apply slot)
  | refuses (e : Errno) (error : (op.exec slot).1 = .error e) (other : e ≠ .enomem)
      (stores : storesOf slot op = []) (effect : (op.exec slot).2 = slot)

theorem exec_executed (slot : Slot) (op : Op) : Executed slot op := by
  cases op with
  | allocate type size answer =>
      by_cases works : slot.curType = .none ∧ type ≠ .none ∧ answer.succeeds = true
      · obtain ⟨free, valid, succeeds⟩ := works
        have ok := (doAllocate_ok size free valid succeeds).1
        refine .allocates type size answer rfl free valid ok ?_ ?_
        · rw [storesOf, ok]
        · rw [Op.exec, doAllocate, if_neg (not_not.mpr free)]
          dsimp only
          rw [if_neg valid, if_pos succeeds]
          rfl
      · rcases doAllocate_error size works with ⟨e, listed, same⟩ | same
        · have other : e ≠ .enomem := by
            rintro rfl
            exact absurd listed (by decide)
          refine .refuses e (congrArg Prod.fst same) other ?_ (congrArg Prod.snd same)
          rw [storesOf, same]
          cases e <;> first | rfl | exact absurd rfl other
        · refine .fails type size answer rfl (congrArg Prod.fst same) ?_ (congrArg Prod.snd same)
          rw [storesOf, same]
  | free clock =>
      by_cases taken : slot.curType = .none
      · have same : doFree clock slot = (.error .enoent, slot) := if_pos taken
        refine .refuses .enoent (congrArg Prod.fst same) (by decide) ?_ (congrArg Prod.snd same)
        rw [storesOf, same]
      · refine .frees clock rfl taken ?_ ?_ ?_
        · rw [Op.exec, doFree, if_neg taken]
        · rw [storesOf, doFree, if_neg taken]
        · rw [Op.exec, doFree, if_neg taken]
          rfl

/-- Carrying out the stores one by one is what the section does at once. -/
theorem foldl_stores (slot : Slot) (op : Op) :
    (storesOf slot op).foldl Store.apply slot = (op.exec slot).2 := by
  cases exec_executed slot op with
  | allocates type size answer asked free valid ok stores effect => rw [stores, effect]
  | fails type size answer asked error stores effect =>
      rw [stores, effect]
      rfl
  | frees clock asked taken ok stores effect => rw [stores, effect]
  | refuses e error other stores effect =>
      rw [stores, effect]
      rfl

/-! ## The texts -/

def typeName : AllocType → Bytes
  | .kmalloc => ascii "kmalloc"
  | .vmalloc => ascii "vmalloc"
  | .cache => ascii "cache"
  | .none => ascii "none"

structure Caller where
  comm : Bytes
  pid : Int
  deriving DecidableEq, Repr

def u64 (value : UInt64) : Bytes := decimal value.toNat

def Caller.text (caller : Caller) : Bytes :=
  caller.comm ++ ascii "[" ++ signedDecimal caller.pid ++ ascii "]\n"

def allocatedLine (type : AllocType) (size actual ns : UInt64) (caller : Caller) : Bytes :=
  ascii "kernel_memory: " ++ typeName type ++ ascii ": requested=" ++ u64 size ++
    ascii " actual=" ++ u64 actual ++ ascii " time=" ++ u64 ns ++ ascii " ns by " ++ caller.text

def failedLine (type : AllocType) (size : UInt64) : Bytes :=
  ascii "kernel_memory: " ++ typeName type ++ ascii "(" ++ u64 size ++ ascii ") failed\n"

def freedLine (type : AllocType) (ns : UInt64) (caller : Caller) : Bytes :=
  ascii "kernel_memory: freed " ++ typeName type ++ ascii ": time=" ++ u64 ns ++ ascii " ns by " ++
    caller.text

def infoText (slot : Slot) : Bytes :=
  ascii "type=" ++ typeName slot.curType ++ ascii "\nrequested_bytes=" ++
    u64 slot.curRequestedSize ++ ascii "\nactual_bytes=" ++ u64 slot.curActualSize ++
    ascii "\nlast_alloc_ns=" ++ u64 slot.curAllocNs ++ ascii "\nlast_free_ns=" ++
    u64 slot.curFreeNs ++ [10]

/-- `max` is `KMALLOC_MAX_SIZE`. -/
def statsText (max ok fail freed : UInt64) : Bytes :=
  ascii "alloc_ok=" ++ u64 ok ++ ascii "\nalloc_fail=" ++ u64 fail ++ ascii "\nfree_count=" ++
    u64 freed ++ ascii "\ncache_obj_size=" ++ u64 cacheObjSize ++ ascii "\nkmalloc_max_size=" ++
    u64 max ++ [10]

/-! ## The calls -/

structure Shared where
  lock : Bool
  slot : Slot
  history : List Store
  deriving DecidableEq, Repr

/-- What a call leaves: its log line, or the text it returns. -/
inductive Report where
  | allocated (place : Nat) (line : Bytes)
  | freed (place : Nat) (line : Bytes)
  | failed (e : Errno) (line : Option Bytes)
  | info (start : Nat) (text : Bytes)
  | stats (start : Nat) (text : Bytes)
  deriving DecidableEq, Repr

/-- What `do_allocate` or `do_free` goes on with after its section. -/
inductive After where
  | allocated (type : AllocType) (size : UInt64) (caller : Caller)
  | freed (type : AllocType) (caller : Caller)
  | failed (e : Errno) (line : Option Bytes)
  deriving DecidableEq, Repr

def afterOf (slot : Slot) (caller : Caller) (op : Op) : After :=
  match op, (op.exec slot).1 with
  | .allocate type size _, .ok _ => .allocated type (requestedSize type size) caller
  | .allocate type size _, .error .enomem =>
    .failed .enomem (some (failedLine type (requestedSize type size)))
  | .free _, .ok _ => .freed slot.curType caller
  | _, .error e => .failed e none

/-- `place` is how long the history was at the end of the call's section,
`start` how long it was when the call began. -/
inductive Pc where
  | lock (op : Op) (caller : Caller)
  | inside (plan : List Store) (after : After)
  | allocated (place : Nat) (type : AllocType) (size : UInt64) (caller : Caller)
    (actual ns : Option UInt64)
  | freed (place : Nat) (type : AllocType) (caller : Caller)
  | infoLock (start : Nat)
  | infoInside (start : Nat)
  | infoCopied (start : Nat) (text : Bytes)
  | stats (start : Nat) (ok fail freed : Option UInt64)
  | done (report : Report)
  deriving DecidableEq, Repr

def After.pc (place : Nat) : After → Pc
  | .allocated type size caller => .allocated place type size caller none none
  | .freed type caller => .freed place type caller
  | .failed e line => .done (.failed e line)

/-- The next step of a call, or one of its unlocked loads. -/
inductive Turn where
  | go
  | actual
  | ns
  | ok
  | fail
  | freed
  deriving DecidableEq, Repr

def allocatedStep (shared : Shared) (place : Nat) (type : AllocType) (size : UInt64)
    (caller : Caller) (actual ns : Option UInt64) : Turn → Option Pc
  | .actual =>
    match actual with
    | none => some (.allocated place type size caller (some shared.slot.curActualSize) ns)
    | some _ => none
  | .ns =>
    match ns with
    | none => some (.allocated place type size caller actual (some shared.slot.curAllocNs))
    | some _ => none
  | .go =>
    match actual, ns with
    | some actual, some ns =>
      some (.done (.allocated place (allocatedLine type size actual ns caller)))
    | _, _ => none
  | _ => none

def statsStep (max : UInt64) (shared : Shared) (start : Nat) (ok fail freed : Option UInt64) :
    Turn → Option Pc
  | .ok =>
    match ok with
    | none => some (.stats start (some shared.slot.statsAllocOk) fail freed)
    | some _ => none
  | .fail =>
    match fail with
    | none => some (.stats start ok (some shared.slot.statsAllocFail) freed)
    | some _ => none
  | .freed =>
    match freed with
    | none => some (.stats start ok fail (some shared.slot.statsFreeCount))
    | some _ => none
  | .go =>
    match ok, fail, freed with
    | some ok, some fail, some freed =>
      some (.done (.stats start (statsText max ok fail freed)))
    | _, _, _ => none
  | _ => none

def pcStep (max : UInt64) (_ : Nat) (turn : Turn) (shared : Shared) : Pc → Option (Shared × Pc)
  | .lock op caller =>
    if turn ≠ .go ∨ shared.lock then none
    else some ({ shared with lock := true },
      .inside (storesOf shared.slot op) (afterOf shared.slot caller op))
  | .inside plan after =>
    match turn, plan with
    | .go, store :: rest =>
      some ({ shared with slot := store.apply shared.slot, history := shared.history ++ [store] },
        .inside rest after)
    | .go, [] => some ({ shared with lock := false }, after.pc shared.history.length)
    | _, _ => none
  | .allocated place type size caller actual ns =>
    (allocatedStep shared place type size caller actual ns turn).map fun pc => (shared, pc)
  | .freed place type caller =>
    if turn ≠ .go then none
    else some (shared, .done (.freed place (freedLine type shared.slot.curFreeNs caller)))
  | .infoLock start =>
    if turn ≠ .go ∨ shared.lock then none
    else some ({ shared with lock := true }, .infoInside start)
  | .infoInside start =>
    if turn ≠ .go then none else some (shared, .infoCopied start (infoText shared.slot))
  | .infoCopied start text =>
    if turn ≠ .go then none
    else some ({ shared with lock := false }, .done (.info start text))
  | .stats start ok fail freed =>
    (statsStep max shared start ok fail freed turn).map fun pc => (shared, pc)
  | .done _ => none

abbrev System := Pool Shared Pc

def System.initial : System := ⟨⟨false, Slot.initial, []⟩, []⟩

inductive Request where
  | execute (op : Op) (caller : Caller)
  | info
  | stats
  deriving DecidableEq, Repr

def Request.pc (start : Nat) : Request → Pc
  | .execute op caller => .lock op caller
  | .info => .infoLock start
  | .stats => .stats start none none none

inductive Act where
  | call (request : Request)
  | run (i : Nat) (turn : Turn)
  deriving DecidableEq, Repr

def step (max : UInt64) (s : System) : Act → Option System
  | .call request => some (s.spawn (request.pc s.shared.history.length))
  | .run i turn => s.act (pcStep max) i turn

/-! ## What the stores add up to -/

def successes (history : List Store) : Nat := history.count .statsAllocOk
def failures (history : List Store) : Nat := history.count .statsAllocFail
def frees (history : List Store) : Nat := history.count .statsFreeCount

def Balanced (history : List Store) : Prop :=
  successes history = frees history + if (told history).curType = .none then 0 else 1

/-- Between two sections the slot is what whole calls made of it. -/
structure AtRest (history : List Store) : Prop where
  balanced : Balanced history
  reached : ∃ ops, run slotStep Slot.initial ops = some (told history)

/-- Allocations lead the frees by one at most, also between two stores. -/
def Paired (history : List Store) : Prop :=
  frees history ≤ successes history ∧ successes history ≤ frees history + 1

def Pc.plan : Pc → Option (List Store)
  | .inside plan _ => some plan
  | .infoInside _ | .infoCopied _ _ => some []
  | _ => none

def slotSections : Sections Store Pc where
  plan := Pc.plan
  Resting := AtRest
  Safe := Paired

theorem told_append (history more : List Store) :
    told (history ++ more) = more.foldl Store.apply (told history) :=
  List.foldl_append

/-- The counters hold the counts, as an `u64` counts. -/
theorem told_counters (history : List Store) :
    (told history).statsAllocOk = UInt64.ofNat (successes history) ∧
      (told history).statsAllocFail = UInt64.ofNat (failures history) ∧
      (told history).statsFreeCount = UInt64.ofNat (frees history) := by
  induction history using List.reverseRecOn with
  | nil => exact ⟨rfl, rfl, rfl⟩
  | append_singleton history store ih =>
      obtain ⟨ok, fail, freed⟩ := ih
      rw [told_append, successes, failures, frees, List.count_append, List.count_append,
        List.count_append, UInt64.ofNat_add, UInt64.ofNat_add, UInt64.ofNat_add]
      cases store with
      | statsAllocOk =>
          exact ⟨congrArg (· + 1) ok, (UInt64.add_zero _).symm ▸ fail,
            (UInt64.add_zero _).symm ▸ freed⟩
      | statsAllocFail =>
          exact ⟨(UInt64.add_zero _).symm ▸ ok, congrArg (· + 1) fail,
            (UInt64.add_zero _).symm ▸ freed⟩
      | statsFreeCount =>
          exact ⟨(UInt64.add_zero _).symm ▸ ok, (UInt64.add_zero _).symm ▸ fail,
            congrArg (· + 1) freed⟩
      | obtain type | release | curType type | curPtr ptr | curRequestedSize size
      | curActualSize size | curAllocNs ns | curFreeNs ns =>
          exact ⟨(UInt64.add_zero _).symm ▸ ok, (UInt64.add_zero _).symm ▸ fail,
            (UInt64.add_zero _).symm ▸ freed⟩

/-- A variable that none of the stores writes keeps its value. -/
theorem told_keeps {β : Type*} (view : Slot → β) (history : List Store) {more : List Store}
    (keeps : ∀ store ∈ more, ∀ slot, view (store.apply slot) = view slot) :
    view (told (history ++ more)) = view (told history) := by
  induction more generalizing history with
  | nil => rw [List.append_nil]
  | cons store rest ih =>
      have later := ih (history ++ [store])
        fun other member => keeps other (List.mem_cons_of_mem store member)
      rw [List.append_assoc, List.singleton_append] at later
      rw [later, told_append]
      exact keeps store List.mem_cons_self _

/-- A section is paired at each store and ends balanced. -/
theorem section_balanced {history : List Store} (op : Op) (balanced : Balanced history) :
    (∀ front, front <+: storesOf (told history) op → Paired (history ++ front)) ∧
      Balanced (history ++ storesOf (told history) op) := by
  have counts (front : List Store) :
      successes (history ++ front) = successes history + successes front ∧
        frees (history ++ front) = frees history + frees front :=
    ⟨List.count_append, List.count_append⟩
  rw [Balanced] at balanced
  cases exec_executed (told history) op with
  | allocates type size answer asked free valid ok stores effect =>
      rw [if_pos free] at balanced
      rw [stores]
      constructor
      · intro front before
        have obtained : successes front ≤ 1 := before.sublist.count_le Store.statsAllocOk
        have freed : frees front ≤ 0 := before.sublist.count_le Store.statsFreeCount
        have both := counts front
        rw [Paired]
        omega
      · have both := counts (allocateStores type size answer (told history))
        have type' : (told (history ++ allocateStores type size answer (told history))).curType =
            type := by
          rw [told_append]
          rfl
        have obtained : successes (allocateStores type size answer (told history)) = 1 := rfl
        have freed : frees (allocateStores type size answer (told history)) = 0 := rfl
        rw [Balanced, type', if_neg valid]
        omega
  | fails type size answer asked error stores effect =>
      rw [stores]
      constructor
      · intro front before
        have obtained : successes front ≤ 0 := before.sublist.count_le Store.statsAllocOk
        have freed : frees front ≤ 0 := before.sublist.count_le Store.statsFreeCount
        have both := counts front
        rw [Paired]
        split at balanced <;> omega
      · have both := counts [.statsAllocFail]
        have obtained : successes [.statsAllocFail] = 0 := rfl
        have freed : frees [.statsAllocFail] = 0 := rfl
        rw [Balanced, told_append]
        show successes (history ++ [.statsAllocFail]) = frees (history ++ [.statsAllocFail]) +
          if (told history).curType = .none then 0 else 1
        omega
  | frees clock asked taken ok stores effect =>
      rw [if_neg taken] at balanced
      rw [stores]
      constructor
      · intro front before
        have obtained : successes front ≤ 0 := before.sublist.count_le Store.statsAllocOk
        have freed : frees front ≤ 1 := before.sublist.count_le Store.statsFreeCount
        have both := counts front
        rw [Paired]
        omega
      · have both := counts (freeStores clock)
        have obtained : successes (freeStores clock) = 0 := rfl
        have freed : frees (freeStores clock) = 1 := rfl
        have type' : (told (history ++ freeStores clock)).curType = .none := by
          rw [told_append]
          rfl
        rw [Balanced, type', if_pos rfl]
        omega
  | refuses e error other stores effect =>
      rw [stores]
      constructor
      · intro front before
        rw [List.prefix_nil.mp before, List.append_nil]
        rw [Paired]
        split at balanced <;> omega
      · rw [List.append_nil]
        exact balanced

theorem section_ahead {history : List Store} (op : Op) (rests : AtRest history) :
    Ahead slotSections history (storesOf (told history) op) := by
  obtain ⟨paired, balanced⟩ := section_balanced op rests.balanced
  obtain ⟨ops, ran⟩ := rests.reached
  refine ⟨paired, balanced, ops ++ [op], ?_⟩
  rw [told_append, foldl_stores, run_append, ran]
  rfl

/-! ## What each call knows -/

/-- The history up to the end of a section is that of a section with this sequel. -/
def AfterFact (history : List Store) : After → Prop
  | .allocated type size _ =>
    ∃ before asked answer, size = requestedSize type asked ∧
      history = before ++ allocateStores type asked answer (told before)
  | .freed type _ =>
    ∃ before clock, type = (told before).curType ∧ history = before ++ freeStores clock
  | .failed _ _ => True

/-- A line of `do_allocate`: the type and the requested size of its own
allocation, and what two loads found afterwards. -/
def AllocatedLine (history : List Store) (place : Nat) (line : Bytes) : Prop :=
  ∃ type size caller actual ns, line = allocatedLine type size actual ns caller ∧
    AfterFact (history.take place) (.allocated type size caller) ∧
    Sees history place (fun h => (told h).curActualSize = actual) ∧
    Sees history place fun h => (told h).curAllocNs = ns

def FreedLine (history : List Store) (place : Nat) (line : Bytes) : Prop :=
  ∃ type caller ns, line = freedLine type ns caller ∧
    AfterFact (history.take place) (.freed type caller) ∧
    Sees history place fun h => (told h).curFreeNs = ns

def InfoText (history : List Store) (start : Nat) (text : Bytes) : Prop :=
  Sees history start fun h => AtRest h ∧ infoText (told h) = text

/-- The call loaded the value of a count at some moment since it began. -/
def SeesCount (history : List Store) (start : Nat) (count : List Store → Nat) (value : UInt64) :
    Prop :=
  ∃ n, value = UInt64.ofNat n ∧ Sees history start fun h => count h = n

def StatsText (max : UInt64) (history : List Store) (start : Nat) (text : Bytes) : Prop :=
  ∃ ok fail freed,
    text = statsText max (UInt64.ofNat ok) (UInt64.ofNat fail) (UInt64.ofNat freed) ∧
      Sees history start (fun h => successes h = ok) ∧
      Sees history start (fun h => failures h = fail) ∧
      Sees history start fun h => frees h = freed

def ReportFact (max : UInt64) (history : List Store) : Report → Prop
  | .allocated place line => AllocatedLine history place line
  | .freed place line => FreedLine history place line
  | .failed _ _ => True
  | .info start text => InfoText history start text
  | .stats start text => StatsText max history start text

def PcFact (max : UInt64) (history : List Store) : Pc → Prop
  | .lock _ _ => True
  | .inside plan after => AfterFact (history ++ plan) after
  | .allocated place type size caller actual ns =>
    place ≤ history.length ∧ AfterFact (history.take place) (.allocated type size caller) ∧
      (∀ value ∈ actual, Sees history place fun h => (told h).curActualSize = value) ∧
      ∀ value ∈ ns, Sees history place fun h => (told h).curAllocNs = value
  | .freed place type caller =>
    place ≤ history.length ∧ AfterFact (history.take place) (.freed type caller)
  | .infoLock start | .infoInside start => start ≤ history.length
  | .infoCopied start text => InfoText history start text
  | .stats start ok fail freed =>
    start ≤ history.length ∧ (∀ value ∈ ok, SeesCount history start successes value) ∧
      (∀ value ∈ fail, SeesCount history start failures value) ∧
      ∀ value ∈ freed, SeesCount history start frees value
  | .done report => ReportFact max history report

section Growth
variable {max : UInt64} {history later : List Store}

theorem take_grow {place : Nat} (grown : history <+: later) (bound : place ≤ history.length) :
    later.take place = history.take place := by
  obtain ⟨more, rfl⟩ := grown
  exact List.take_append_of_le_length bound

theorem SeesCount.grow {start : Nat} {count : List Store → Nat} {value : UInt64}
    (sees : SeesCount history start count value) (grown : history <+: later) :
    SeesCount later start count value := by
  obtain ⟨n, same, seen⟩ := sees
  exact ⟨n, same, seen.grow grown⟩

theorem reportFact_grow {report : Report} (fact : ReportFact max history report)
    (grown : history <+: later) : ReportFact max later report := by
  cases report with
  | allocated place line =>
      obtain ⟨type, size, caller, actual, ns, same, after, sawActual, sawNs⟩ := fact
      refine ⟨type, size, caller, actual, ns, same, ?_, sawActual.grow grown, sawNs.grow grown⟩
      rwa [take_grow grown sawActual.bound]
  | freed place line =>
      obtain ⟨type, caller, ns, same, after, saw⟩ := fact
      refine ⟨type, caller, ns, same, ?_, saw.grow grown⟩
      rwa [take_grow grown saw.bound]
  | failed e line => trivial
  | info start text =>
      have seen : Sees history start fun h => AtRest h ∧ infoText (told h) = text := fact
      exact seen.grow grown
  | stats start text =>
      obtain ⟨ok, fail, freed, same, sawOk, sawFail, sawFreed⟩ := fact
      exact ⟨ok, fail, freed, same, sawOk.grow grown, sawFail.grow grown, sawFreed.grow grown⟩

/-- A call outside keeps what it knows. -/
theorem pcFact_grow {pc : Pc} (out : pc.plan = none) (fact : PcFact max history pc)
    (grown : history <+: later) : PcFact max later pc := by
  cases pc with
  | lock op caller => trivial
  | inside plan after | infoInside start | infoCopied start text => contradiction
  | allocated place type size caller actual ns =>
      obtain ⟨bound, after, sawActual, sawNs⟩ := fact
      refine ⟨Nat.le_trans bound grown.length_le, ?_,
        fun value loaded => (sawActual value loaded).grow grown,
        fun value loaded => (sawNs value loaded).grow grown⟩
      rwa [take_grow grown bound]
  | freed place type caller =>
      obtain ⟨bound, after⟩ := fact
      refine ⟨Nat.le_trans bound grown.length_le, ?_⟩
      rwa [take_grow grown bound]
  | infoLock start => exact Nat.le_trans fact grown.length_le
  | stats start ok fail freed =>
      obtain ⟨began, sawOk, sawFail, sawFreed⟩ := fact
      exact ⟨Nat.le_trans began grown.length_le,
        fun value loaded => (sawOk value loaded).grow grown,
        fun value loaded => (sawFail value loaded).grow grown,
        fun value loaded => (sawFreed value loaded).grow grown⟩
  | done report => exact reportFact_grow fact grown

end Growth

/-! ## One step -/

section Steps
variable {max : UInt64} {shared : Shared}

theorem afterOf_fact (history : List Store) (caller : Caller) (op : Op) :
    AfterFact (history ++ storesOf (told history) op) (afterOf (told history) caller op) := by
  cases exec_executed (told history) op with
  | allocates type size answer asked free valid ok stores effect =>
      rw [stores]
      cases asked
      simp only [afterOf, ok]
      exact ⟨history, size, answer, rfl, rfl⟩
  | fails type size answer asked error stores effect =>
      cases asked
      simp only [afterOf, error]
      trivial
  | frees clock asked taken ok stores effect =>
      rw [stores]
      cases asked
      simp only [afterOf, ok]
      exact ⟨history, clock, rfl, rfl⟩
  | refuses e error other stores effect =>
      cases op with
      | allocate type size answer =>
          simp only [afterOf, error]
          cases e <;> trivial
      | free clock =>
          simp only [afterOf, error]
          trivial

theorem after_pc_fact {history : List Store} {after : After} (fact : AfterFact history after) :
    PcFact max history (after.pc history.length) := by
  cases after with
  | allocated type size caller =>
      refine ⟨Nat.le_refl _, ?_, nofun, nofun⟩
      rwa [List.take_length]
  | freed type caller =>
      refine ⟨Nat.le_refl _, ?_⟩
      rwa [List.take_length]
  | failed e line => trivial

theorem after_pc_plan (place : Nat) (after : After) : (after.pc place).plan = none := by
  cases after <;> rfl

/-- The loads of a line of `do_allocate`, and the line. -/
theorem allocatedStep_fact {place : Nat} {type : AllocType} {size : UInt64} {caller : Caller}
    {actual ns : Option UInt64} {turn : Turn} {moved : Pc}
    (slot : shared.slot = told shared.history)
    (fact : PcFact max shared.history (.allocated place type size caller actual ns))
    (stepped : allocatedStep shared place type size caller actual ns turn = some moved) :
    PcFact max shared.history moved ∧ moved.plan = none := by
  obtain ⟨bound, after, sawActual, sawNs⟩ := fact
  cases turn with
  | actual =>
      cases actual with
      | some value => contradiction
      | none =>
          cases stepped
          refine ⟨⟨bound, after, ?_, sawNs⟩, rfl⟩
          intro value loaded
          cases loaded
          exact sees_now bound (congrArg Slot.curActualSize slot).symm
  | ns =>
      cases ns with
      | some value => contradiction
      | none =>
          cases stepped
          refine ⟨⟨bound, after, sawActual, ?_⟩, rfl⟩
          intro value loaded
          cases loaded
          exact sees_now bound (congrArg Slot.curAllocNs slot).symm
  | go =>
      cases actual with
      | none => contradiction
      | some shownActual =>
          cases ns with
          | none => contradiction
          | some shownNs =>
              cases stepped
              exact ⟨⟨type, size, caller, shownActual, shownNs, rfl, after, sawActual _ rfl,
                sawNs _ rfl⟩, rfl⟩
  | ok | fail | freed => contradiction

/-- The three loads of `stats_show`, and its text. -/
theorem statsStep_fact {start : Nat} {ok fail freed : Option UInt64} {turn : Turn} {moved : Pc}
    (slot : shared.slot = told shared.history)
    (fact : PcFact max shared.history (.stats start ok fail freed))
    (stepped : statsStep max shared start ok fail freed turn = some moved) :
    PcFact max shared.history moved ∧ moved.plan = none := by
  obtain ⟨began, sawOk, sawFail, sawFreed⟩ := fact
  have counters := told_counters shared.history
  rw [← slot] at counters
  cases turn with
  | ok =>
      cases ok with
      | some value => contradiction
      | none =>
          cases stepped
          refine ⟨⟨began, ?_, sawFail, sawFreed⟩, rfl⟩
          intro value loaded
          cases loaded
          exact ⟨_, counters.1, sees_now began rfl⟩
  | fail =>
      cases fail with
      | some value => contradiction
      | none =>
          cases stepped
          refine ⟨⟨began, sawOk, ?_, sawFreed⟩, rfl⟩
          intro value loaded
          cases loaded
          exact ⟨_, counters.2.1, sees_now began rfl⟩
  | freed =>
      cases freed with
      | some value => contradiction
      | none =>
          cases stepped
          refine ⟨⟨began, sawOk, sawFail, ?_⟩, rfl⟩
          intro value loaded
          cases loaded
          exact ⟨_, counters.2.2, sees_now began rfl⟩
  | go =>
      cases ok with
      | none => contradiction
      | some shownOk =>
          cases fail with
          | none => contradiction
          | some shownFail =>
              cases freed with
              | none => contradiction
              | some shownFreed =>
                  cases stepped
                  obtain ⟨nOk, rfl, seenOk⟩ := sawOk _ rfl
                  obtain ⟨nFail, rfl, seenFail⟩ := sawFail _ rfl
                  obtain ⟨nFreed, rfl, seenFreed⟩ := sawFreed _ rfl
                  exact ⟨⟨nOk, nFail, nFreed, rfl, seenOk, seenFail, seenFreed⟩, rfl⟩
  | actual | ns => contradiction

/-- What a step does to the lock and the history, and what the call knows after it. -/
theorem pcStep_store {i : Nat} {turn : Turn} {next : Shared} {pc moved : Pc}
    (slot : shared.slot = told shared.history) (fact : PcFact max shared.history pc)
    (rests : pc.plan = some [] → AtRest shared.history)
    (stepped : pcStep max i turn shared pc = some (next, moved)) :
    StoreStep slotSections shared.lock shared.history pc.plan next.lock next.history moved.plan ∧
      next.slot = told next.history ∧ PcFact max next.history moved := by
  cases pc with
  | lock op caller =>
      simp only [pcStep] at stepped
      split at stepped
      · contradiction
      · rename_i enabled
        cases stepped
        have free : shared.lock = false := by simpa using (not_or.mp enabled).2
        refine ⟨.acquires _ free rfl rfl rfl rfl ?_, slot, ?_⟩
        · rw [slot]
          exact section_ahead op
        · rw [slot]
          exact afterOf_fact shared.history caller op
  | inside plan after =>
      cases plan with
      | nil =>
          cases turn <;> cases stepped
          have done : AfterFact shared.history after := by
            have whole : AfterFact (shared.history ++ []) after := fact
            rwa [List.append_nil] at whole
          exact ⟨.releases rfl rfl rfl (after_pc_plan _ after), slot, after_pc_fact done⟩
      | cons store rest =>
          cases turn <;> cases stepped
          refine ⟨.stores store rest rfl rfl rfl rfl, ?_, ?_⟩
          · rw [told_append, ← slot]
            rfl
          · show AfterFact (shared.history ++ [store] ++ rest) after
            rw [List.append_assoc]
            exact fact
  | allocated place type size caller actual ns =>
      obtain ⟨after, own, same⟩ := Option.map_eq_some_iff.mp stepped
      cases same
      obtain ⟨known, out⟩ := allocatedStep_fact slot fact own
      exact ⟨.passes rfl rfl out, slot, known⟩
  | freed place type caller =>
      simp only [pcStep] at stepped
      split at stepped
      · contradiction
      · cases stepped
        obtain ⟨bound, after⟩ := fact
        have shown : Sees shared.history place
            fun h => (told h).curFreeNs = shared.slot.curFreeNs :=
          sees_now bound (congrArg Slot.curFreeNs slot).symm
        exact ⟨.passes rfl rfl rfl, slot, type, caller, _, rfl, after, shown⟩
  | infoLock start =>
      simp only [pcStep] at stepped
      split at stepped
      · contradiction
      · rename_i enabled
        cases stepped
        have free : shared.lock = false := by simpa using (not_or.mp enabled).2
        refine ⟨.acquires [] free rfl rfl rfl rfl ?_, slot, fact⟩
        intro atRest
        have ahead := section_ahead (.free ⟨0, 0⟩) atRest
        refine ⟨fun front before => ?_, ?_⟩
        · rw [List.prefix_nil.mp before]
          exact ahead.safe [] List.nil_prefix
        · rw [List.append_nil]
          exact atRest
  | infoInside start =>
      simp only [pcStep] at stepped
      split at stepped
      · contradiction
      · cases stepped
        have shown : Sees shared.history start
            fun h => AtRest h ∧ infoText (told h) = infoText shared.slot :=
          sees_now fact ⟨rests rfl, (congrArg infoText slot).symm⟩
        exact ⟨.passes rfl rfl rfl, slot, shown⟩
  | infoCopied start text =>
      simp only [pcStep] at stepped
      split at stepped
      · contradiction
      · cases stepped
        exact ⟨.releases rfl rfl rfl rfl, slot, fact⟩
  | stats start ok fail freed =>
      obtain ⟨after, own, same⟩ := Option.map_eq_some_iff.mp stepped
      cases same
      obtain ⟨known, out⟩ := statsStep_fact slot fact own
      exact ⟨.passes rfl rfl out, slot, known⟩
  | done report => contradiction

end Steps

/-! ## Runs -/

structure Faithful (max : UInt64) (s : System) : Prop where
  slot : s.shared.slot = told s.shared.history
  coherent : Coherent slotSections s.shared.lock s.shared.history s.parties
  facts : ∀ pc ∈ s.parties, PcFact max s.shared.history pc

theorem faithful_initial (max : UInt64) : Faithful max System.initial := by
  refine ⟨rfl, ⟨rfl, fun _ => ⟨rfl, [], rfl⟩, nofun, ?_⟩, nofun⟩
  intro front before
  rw [List.prefix_nil.mp before]
  exact ⟨Nat.le_refl _, Nat.zero_le _⟩

theorem request_fact (max : UInt64) (history : List Store) (request : Request) :
    PcFact max history (request.pc history.length) ∧
      (request.pc history.length).plan = none := by
  cases request with
  | execute op caller => exact ⟨trivial, rfl⟩
  | info => exact ⟨Nat.le_refl _, rfl⟩
  | stats => exact ⟨⟨Nat.le_refl _, nofun, nofun, nofun⟩, rfl⟩

theorem step_faithful (max : UInt64) (s : System) (act : Act) (next : System)
    (faithful : Faithful max s) (stepped : step max s act = some next) : Faithful max next := by
  obtain ⟨slot, coherent, facts⟩ := faithful
  cases act with
  | call request =>
      cases stepped
      obtain ⟨known, out⟩ := request_fact max s.shared.history request
      exact ⟨slot, coherent.enter out, forall_mem_spawn facts known⟩
  | run i turn =>
      obtain ⟨pc, shared, moved, found, ran, rfl⟩ := Pool.act_eq_some stepped
      obtain ⟨stored, told, own⟩ := pcStep_store slot (facts pc (List.mem_of_getElem? found))
        (coherent.rests found) ran
      refine ⟨told, coherent.move found stored, ?_⟩
      intro other member
      obtain ⟨j, otherFound⟩ := List.mem_iff_getElem?.mp member
      rcases getElem?_set_cases otherFound with ⟨_, rfl⟩ | ⟨elsewhere, here⟩
      · exact own
      · have known := facts other (List.mem_of_getElem? here)
        rcases coherent.others found stored elsewhere here with same | out
        · rwa [same]
        · exact pcFact_grow out known stored.grows

/-! ## What the reports say of the history -/

/-- As long as no later allocation has stored its own, a line shows its own. -/
theorem own_line {history : List Store} {place : Nat} {actual ns : UInt64}
    (alone : ∀ store ∈ history.drop place,
      (∀ size, store ≠ .curActualSize size) ∧ ∀ time, store ≠ .curAllocNs time)
    (sawActual : Sees history place fun h => (told h).curActualSize = actual)
    (sawNs : Sees history place fun h => (told h).curAllocNs = ns) :
    actual = (told (history.take place)).curActualSize ∧
      ns = (told (history.take place)).curAllocNs := by
  have stored (moment : Nat) (since : place ≤ moment) :
      history.take moment = history.take place ++ (history.drop place).take (moment - place) := by
    rw [← List.take_add, Nat.add_sub_cancel' since]
  constructor
  · refine sawActual.unchanged fun moment since _ => ?_
    rw [stored moment since]
    refine told_keeps Slot.curActualSize _ fun store member slot => ?_
    have other := (alone store (List.mem_of_mem_take member)).1
    cases store with
    | curActualSize size => exact absurd rfl (other size)
    | _ => rfl
  · refine sawNs.unchanged fun moment since _ => ?_
    rw [stored moment since]
    refine told_keeps Slot.curAllocNs _ fun store member slot => ?_
    have other := (alone store (List.mem_of_mem_take member)).2
    cases store with
    | curAllocNs time => exact absurd rfl (other time)
    | _ => rfl

/-- The counters of one text may be of different moments; what was counted
between them bounds how far apart they are. -/
theorem shown_balance {history : List Store} (paired : Paired history) {start ok freed : Nat}
    (sawOk : Sees history start fun h => successes h = ok)
    (sawFreed : Sees history start fun h => frees h = freed) :
    freed ≤ ok + successes (history.drop start) ∧ ok ≤ freed + 1 + frees (history.drop start) := by
  have okBounds := sawOk.countP (· == Store.statsAllocOk)
  have freedBounds := sawFreed.countP (· == Store.statsFreeCount)
  have allocations := countP_take_add_drop (· == Store.statsAllocOk) history start
  have deallocations := countP_take_add_drop (· == Store.statsFreeCount) history start
  obtain ⟨low, high⟩ := paired
  simp only [successes, frees, List.count] at low high ⊢
  omega

/-- What a line or a text shows, and how far it may be off. -/
def Shows (max : UInt64) (history : List Store) : Report → Prop
  | .allocated place line =>
    ∃ type size caller actual ns, line = allocatedLine type size actual ns caller ∧
      AfterFact (history.take place) (.allocated type size caller) ∧
      Sees history place (fun h => (told h).curActualSize = actual) ∧
      Sees history place (fun h => (told h).curAllocNs = ns) ∧
      ((∀ store ∈ history.drop place,
          (∀ size, store ≠ .curActualSize size) ∧ ∀ time, store ≠ .curAllocNs time) →
        actual = (told (history.take place)).curActualSize ∧
          ns = (told (history.take place)).curAllocNs)
  | .freed place line => FreedLine history place line
  | .failed _ _ => True
  | .info start text => InfoText history start text
  | .stats start text =>
    ∃ ok fail freed,
      text = statsText max (UInt64.ofNat ok) (UInt64.ofNat fail) (UInt64.ofNat freed) ∧
        Sees history start (fun h => successes h = ok) ∧
        Sees history start (fun h => failures h = fail) ∧
        Sees history start (fun h => frees h = freed) ∧
        freed ≤ ok + successes (history.drop start) ∧
        ok ≤ freed + 1 + frees (history.drop start)

theorem shows_of_fact {max : UInt64} {history : List Store} (paired : Paired history)
    {report : Report} (fact : ReportFact max history report) : Shows max history report := by
  cases report with
  | allocated place line =>
      obtain ⟨type, size, caller, actual, ns, same, after, sawActual, sawNs⟩ := fact
      exact ⟨type, size, caller, actual, ns, same, after, sawActual, sawNs,
        fun alone => own_line alone sawActual sawNs⟩
  | freed place line | failed e line | info start text => exact fact
  | stats start text =>
      obtain ⟨ok, fail, freed, same, sawOk, sawFail, sawFreed⟩ := fact
      have bounds := shown_balance paired sawOk sawFreed
      exact ⟨ok, fail, freed, same, sawOk, sawFail, sawFreed, bounds.1, bounds.2⟩

/-- **What the reports tell.** In every interleaving of the stores of the
sections and of the loads of the readers: successful allocations lead the frees
by one at most after every store, and whenever the lock is free by one exactly
when the slot is taken, and the slot is what whole calls of `do_allocate` and
`do_free` in some order made of it; `info` returns the text of one moment at which no
section was under way; each counter of `stats` is that of some moment while it
ran, so `free_count` may exceed `alloc_ok`, by the allocations that succeeded
meanwhile at most; and a line of `do_allocate` has its own type and requested
size, but the actual size and the time of whichever allocation stored them last
before they were loaded. -/
theorem reports_tell_history (max : UInt64) (acts : List Act) (last : System)
    (ran : run (step max) System.initial acts = some last) :
    (∀ front, front <+: last.shared.history → Paired front) ∧
      (last.shared.lock = false → Balanced last.shared.history ∧
        ∃ ops, run slotStep Slot.initial ops = some last.shared.slot) ∧
      ∀ (i : Nat) report, last.parties[i]? = some (.done report) →
        Shows max last.shared.history report := by
  have faithful := invariant_run (step_faithful max) (faithful_initial max) ran
  refine ⟨faithful.coherent.safe, ?_, ?_⟩
  · intro free
    obtain ⟨balanced, reached⟩ := faithful.coherent.free free
    rw [faithful.slot]
    exact ⟨balanced, reached⟩
  intro i report found
  exact shows_of_fact (faithful.coherent.safe _ (List.prefix_refl _))
    (faithful.facts _ (List.mem_of_getElem? found))

def shell : Caller := ⟨ascii "sh", 7⟩

/-- A `kmalloc` of 100 bytes whose line is printed after another task freed it
and allocated a page: the line shows 4096 bytes. -/
def overtaken : List Act :=
  .call (.execute (.allocate .kmalloc 100 ⟨⟨10, 15⟩, true, 128⟩) shell) ::
    List.replicate 9 (.run 0 .go) ++
  .call (.execute (.free ⟨20, 21⟩) shell) :: List.replicate 7 (.run 1 .go) ++
  .call (.execute (.allocate .vmalloc 4096 ⟨⟨30, 60⟩, true, 0⟩) shell) ::
    List.replicate 9 (.run 2 .go) ++
  [.run 0 .actual, .run 0 .ns, .run 0 .go]

theorem reports_tell_history_overtaken :
    ∃ last, run (step 4194304) System.initial overtaken = some last ∧
      Shows 4194304 last.shared.history
        (.allocated 7 (allocatedLine .kmalloc 100 4096 30 shell)) :=
  have ran := run_get (step 4194304) System.initial overtaken (by decide +kernel)
  ⟨_, ran, (reports_tell_history 4194304 overtaken _ ran).2.2 0 _ (by decide +kernel)⟩

end KernelMemory.Reports
