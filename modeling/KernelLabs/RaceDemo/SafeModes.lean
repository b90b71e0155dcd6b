import KernelLabs.Lib.Linearization
import KernelLabs.Lib.Observer
import KernelLabs.RaceDemo.Device

/-!
# Increments and resets as operations

Every increment and each of a reset's two stores is an operation on one counter;
the log of a run says when it began, took effect and ended.  While every store
to `counter_plain` is computed from the value it overwrites, the order of the
effects gives the counters.  `MODE_MUTEX` takes another lock than `MODE_SPINLOCK`
and the resets, so that a store of one may fall inside an increment of another.
-/

set_option autoImplicit false

namespace RaceDemo

open Kernel LabelledMachine PartyPool Linearization

inductive Counter where
  | plain
  | atomic
  deriving DecidableEq, Repr

inductive Change where
  | increment
  | reset
  deriving DecidableEq, Repr

/-- The call it belongs to, and which of that call's operations it is. -/
structure Op where
  call : Nat
  index : Nat
  counter : Counter
  change : Change
  deriving DecidableEq, Repr

abbrev Log := List (Mark Op)

/-- What an operation does to `counter_plain` and `counter_atomic`. -/
def applyOp (value : UInt64 × UInt64) (op : Op) : UInt64 × UInt64 :=
  match op.counter, op.change with
  | .plain, .increment => (value.1 + 1, value.2)
  | .plain, .reset => (0, value.2)
  | .atomic, .increment => (value.1, value.2 + 1)
  | .atomic, .reset => (value.1, 0)

def Shared.counters (shared : Shared) : UInt64 × UInt64 :=
  (shared.counterPlain, shared.counterAtomic)

def resetOp (i : Nat) : Counter → Op
  | .plain => ⟨i, 0, .plain, .reset⟩
  | .atomic => ⟨i, 1, .atomic, .reset⟩

/-! ## The log -/

/-- The marks of a step of `increment_once`, whose mode says which counter it is
about. -/
def incrementMarks (op : Counter → Op) (shared : Shared) : IncPc → Log
  | .readMode => [.began (op (if shared.mode = .atomic then .atomic else .plain))]
  | .racyStore _ => [.took (op .plain), .ended (op .plain)]
  | .store _ _ => [.took (op .plain)]
  | .unlock _ => [.ended (op .plain)]
  | .atomicInc => [.took (op .atomic), .ended (op .atomic)]
  | .racyLoad | .lock _ | .load _ => []

/-- A reset's stores begin and end with their one step. -/
def resetMarks (i : Nat) : ResetPc → Log
  | .storePlain => lifecycle (resetOp i .plain)
  | .setAtomic => lifecycle (resetOp i .atomic)
  | _ => []

def Call.marks (i : Nat) (shared : Shared) : Call → Log
  | .raceWrite (.running write) =>
    incrementMarks (fun counter => ⟨i, write.i, counter, .increment⟩) shared write.pc
  | .resetStore pc _ => resetMarks i pc
  | _ => []

def watch (s : System) (log : Log) : Act → Log
  | .request _ => log
  | .call i => log ++ (s.parties[i]?.map (Call.marks i s.shared)).getD []

/-! ## Where a call stands in its operations -/

/-- The marks of the increment under way. -/
def IncPc.opened (op : Counter → Op) : IncPc → Log
  | .readMode => []
  | .unlock _ => [.began (op .plain), .took (op .plain)]
  | .atomicInc => [.began (op .atomic)]
  | .racyLoad | .racyStore _ | .lock _ | .load _ | .store _ _ => [.began (op .plain)]

def Call.opened (i : Nat) : Call → Log
  | .raceWrite (.running write) =>
    write.pc.opened fun counter => ⟨i, write.i, counter, .increment⟩
  | _ => []

def ResetPc.finished : ResetPc → Nat
  | .lock | .storePlain => 0
  | .unlock | .setAtomic => 1
  | .loadCount | .storeCount _ => 2

/-- The number of operations the call has finished. -/
def Call.finished : Call → Nat
  | .raceWrite (.running write) => write.i
  | .raceWrite (.returned n) => n
  | .resetStore pc _ => pc.finished
  | .resetStored _ => 2
  | .modeStore _ _ | .modeStored _ => 0

/-- The operations a call is about. -/
def Call.Performs (i : Nat) (op : Op) : Call → Prop
  | .raceWrite _ => op.call = i ∧ op.change = .increment
  | .resetStore _ _ | .resetStored _ => ∃ counter, op = resetOp i counter
  | .modeStore _ _ | .modeStored _ => False

def Call.Bounded : Call → Prop
  | .raceWrite (.running write) => write.i < write.n
  | _ => True

/-- What a step does to the operations of its call: the one under way goes on,
or it ends. -/
inductive CallEffect (i : Nat) (call : Call) (marks : Log) (moved : Call) : Prop
  | advances (op : Op) (index : op.call = i ∧ op.index = call.finished)
      (part : call.opened i ++ marks <+: lifecycle op) (same : moved.finished = call.finished)
      (opened : moved.opened i = call.opened i ++ marks)
  | closes (op : Op) (index : op.call = i ∧ op.index = call.finished)
      (whole : call.opened i ++ marks = lifecycle op) (own : call.Performs i op)
      (more : moved.finished = call.finished + 1) (opened : moved.opened i = [])

theorem incrementStep_opened (op : Counter → Op) {shared next : Shared} {pc after : IncPc}
    (stepped : incrementStep shared pc = some (next, some after)) :
    after.opened op = pc.opened op ++ incrementMarks op shared pc ∧
      ∃ counter, after.opened op <+: lifecycle (op counter) := by
  cases pc with
  | readMode =>
      simp only [incrementStep] at stepped
      split at stepped <;> rename_i mode <;> cases stepped <;>
        simp [IncPc.opened, incrementMarks, lifecycle, mode]
  | racyLoad | load own | store own tmp =>
      cases stepped
      exact ⟨rfl, .plain, by simp [IncPc.opened, lifecycle]⟩
  | lock own =>
      simp only [incrementStep] at stepped
      split at stepped
      · contradiction
      · cases stepped
        exact ⟨rfl, .plain, by simp [IncPc.opened, lifecycle]⟩
  | racyStore tmp | unlock own | atomicInc => cases stepped

theorem incrementStep_closes (op : Counter → Op) {shared next : Shared} {pc : IncPc}
    (stepped : incrementStep shared pc = some (next, none)) :
    ∃ counter, pc.opened op ++ incrementMarks op shared pc = lifecycle (op counter) := by
  cases pc with
  | readMode | lock own =>
      simp only [incrementStep] at stepped
      split at stepped <;> cases stepped
  | racyStore tmp | unlock own => exact ⟨.plain, rfl⟩
  | atomicInc => exact ⟨.atomic, rfl⟩
  | racyLoad | load own | store own tmp => cases stepped

/-- An increment has ended and the loop goes on or returns. -/
theorem raceLoop_next (i : Nat) {n k : Nat} (within : k ≤ n) :
    (Call.raceWrite (raceLoop n k)).finished = k ∧
      (Call.raceWrite (raceLoop n k)).opened i = [] ∧
      (Call.raceWrite (raceLoop n k)).Bounded := by
  unfold raceLoop
  split
  · rename_i less
    exact ⟨rfl, rfl, less⟩
  · exact ⟨by simp only [Call.finished]; omega, rfl, trivial⟩

theorem Request.enter_fresh (request : Request) (i : Nat) :
    request.enter.finished = 0 ∧ request.enter.opened i = [] ∧ request.enter.Bounded := by
  cases request with
  | dev count => exact raceLoop_next i (Nat.zero_le _)
  | mode buf =>
      simp only [Request.enter, modeStore]
      cases parseMode buf with
      | error e | ok value => exact ⟨rfl, rfl, trivial⟩
  | reset buf => exact ⟨rfl, rfl, trivial⟩

theorem callStep_effect {i : Nat} {shared next : Shared} {call moved : Call}
    (bounded : call.Bounded) (stepped : callStep i () shared call = some (next, moved)) :
    CallEffect i call (call.marks i shared) moved ∧ moved.Bounded ∧
      ∀ op, moved.Performs i op ↔ call.Performs i op := by
  cases call with
  | raceWrite progress =>
      cases progress with
      | returned n => contradiction
      | running write =>
          obtain ⟨⟨after, progress⟩, ran, same⟩ := Option.map_eq_some_iff.mp stepped
          cases same
          rcases raceWriteStep_eq_some ran with ⟨pc, inc, rfl⟩ | ⟨inc, rfl⟩
          · obtain ⟨opened, counter, part⟩ := incrementStep_opened
              (fun counter => ⟨i, write.i, counter, .increment⟩) inc
            refine ⟨.advances ⟨i, write.i, counter, .increment⟩ ⟨rfl, rfl⟩ ?_ rfl opened, bounded,
              fun op => Iff.rfl⟩
            rw [opened] at part
            exact part
          · obtain ⟨counter, whole⟩ := incrementStep_closes
              (fun counter => ⟨i, write.i, counter, .increment⟩) inc
            obtain ⟨more, nothing, below⟩ := raceLoop_next i bounded
            exact ⟨.closes ⟨i, write.i, counter, .increment⟩ ⟨rfl, rfl⟩ whole ⟨rfl, rfl⟩ more
              nothing, below, fun op => Iff.rfl⟩
  | modeStore value count =>
      cases stepped
      exact ⟨.advances ⟨i, 0, .plain, .increment⟩ ⟨rfl, rfl⟩ List.nil_prefix rfl rfl, trivial,
        fun op => Iff.rfl⟩
  | resetStore pc count =>
      have silent (pc after : ResetPc) (same : after.finished = pc.finished)
          (quiet : resetMarks i pc = []) :
          CallEffect i (.resetStore pc count) (resetMarks i pc) (.resetStore after count) := by
        refine .advances ⟨i, pc.finished, .plain, .reset⟩ ⟨rfl, rfl⟩ ?_ same ?_
        · rw [quiet]
          exact List.nil_prefix
        · rw [quiet]
          rfl
      cases pc with
      | lock =>
          by_cases held : shared.held .spinlock = true
          · simp only [callStep, resetStep, held, if_true] at stepped
            contradiction
          · simp only [callStep, resetStep, held, Bool.false_eq_true, if_false] at stepped
            cases stepped
            exact ⟨silent _ _ rfl rfl, trivial, fun op => Iff.rfl⟩
      | storePlain =>
          cases stepped
          exact ⟨.closes (resetOp i .plain) ⟨rfl, rfl⟩ rfl ⟨.plain, rfl⟩ rfl rfl, trivial,
            fun op => Iff.rfl⟩
      | setAtomic =>
          cases stepped
          exact ⟨.closes (resetOp i .atomic) ⟨rfl, rfl⟩ rfl ⟨.atomic, rfl⟩ rfl rfl, trivial,
            fun op => Iff.rfl⟩
      | unlock | loadCount =>
          cases stepped
          exact ⟨silent _ _ rfl rfl, trivial, fun op => Iff.rfl⟩
      | storeCount tmp =>
          cases stepped
          exact ⟨.advances ⟨i, 2, .plain, .reset⟩ ⟨rfl, rfl⟩ List.nil_prefix rfl rfl, trivial,
            fun op => Iff.rfl⟩
  | modeStored ret | resetStored ret => contradiction

/-- The effects among the marks of a step are what the step does to the counters. -/
theorem callStep_counters {i : Nat} {shared next : Shared} {call moved : Call}
    (fresh : ∀ tmp ∈ call.loaded, tmp = shared.counterPlain)
    (stepped : callStep i () shared call = some (next, moved)) :
    next.counters = (points (call.marks i shared)).foldl applyOp shared.counters := by
  cases call with
  | raceWrite progress =>
      cases progress with
      | returned n => contradiction
      | running write =>
          rcases write with ⟨n, k, pc⟩
          obtain ⟨⟨after, progress⟩, ran, same⟩ := Option.map_eq_some_iff.mp stepped
          cases same
          have kept := Shared.setHeld_keeps shared
          obtain ⟨later, inc⟩ : ∃ later, incrementStep shared pc = some (next, later) := by
            rcases raceWriteStep_eq_some ran with ⟨pc, inc, _⟩ | ⟨inc, _⟩
            · exact ⟨_, inc⟩
            · exact ⟨_, inc⟩
          cases pc with
          | racyStore tmp | store own tmp =>
              cases fresh tmp rfl
              cases inc
              rfl
          | readMode =>
              simp only [incrementStep] at inc
              split at inc <;> cases inc <;> rfl
          | lock own =>
              simp only [incrementStep] at inc
              split at inc
              · contradiction
              · cases inc
                exact congrArg₂ Prod.mk (kept true own).2.1 (kept true own).2.2
          | unlock own =>
              cases inc
              exact congrArg₂ Prod.mk (kept false own).2.1 (kept false own).2.2
          | racyLoad | load own | atomicInc =>
              cases inc
              rfl
  | modeStore value count =>
      cases stepped
      rfl
  | resetStore pc count =>
      cases pc with
      | lock =>
          by_cases held : shared.held .spinlock = true
          · simp only [callStep, resetStep, held, if_true] at stepped
            contradiction
          · simp only [callStep, resetStep, held, Bool.false_eq_true, if_false] at stepped
            cases stepped
            rfl
      | storePlain | unlock | setAtomic | loadCount | storeCount tmp =>
          cases stepped
          rfl
  | modeStored ret | resetStored ret => contradiction

/-! ## The log of a run -/

structure Tracked (initial : UInt64 × UInt64) (s : System) (log : Log) : Prop where
  wellFormed : WellFormed log
  bounded : ∀ call ∈ s.parties, call.Bounded
  known : ∀ mark ∈ log, ∃ call, s.parties[mark.op.call]? = some call ∧
    ((mark.op.index < call.finished ∧ .ended mark.op ∈ log) ∨ mark ∈ call.opened mark.op.call)
  opened : ∀ (i : Nat) (call : Call), s.parties[i]? = some call → ∀ mark ∈ call.opened i, mark ∈ log
  finished : ∀ (i : Nat) (call : Call), s.parties[i]? = some call → ∀ k < call.finished,
    ∃ op, op.index = k ∧ call.Performs i op ∧ .ended op ∈ log
  replayed : (points log).foldl applyOp initial = s.shared.counters

theorem tracked_initial (mode : RaceMode) (counterPlain counterAtomic resetCount : UInt64) :
    Tracked (counterPlain, counterAtomic)
      (.initial mode counterPlain counterAtomic resetCount) [] :=
  ⟨.nil, nofun, nofun, nofun, nofun, rfl⟩

section Tracked
variable {initial : UInt64 × UInt64} {s : System} {log : Log}

theorem Tracked.spawn (tracked : Tracked initial s log) (request : Request) :
    Tracked initial (s.spawn request.enter) log := by
  obtain ⟨none_finished, none_opened, bounded⟩ := request.enter_fresh s.parties.length
  constructor
  · exact tracked.wellFormed
  · exact forall_mem_spawn tracked.bounded bounded
  · intro mark member
    obtain ⟨call, found, stands⟩ := tracked.known mark member
    exact ⟨call, getElem?_spawn_old found _, stands⟩
  · intro i call found mark member
    rcases getElem?_spawn_cases found with old | ⟨rfl, rfl⟩
    · exact tracked.opened i call old mark member
    · rw [none_opened] at member
      contradiction
  · intro i call found k below
    rcases getElem?_spawn_cases found with old | ⟨rfl, rfl⟩
    · exact tracked.finished i call old k below
    · rw [none_finished] at below
      contradiction
  · exact tracked.replayed

/-- The log has no marks of the operation under way but those of the call's
state. -/
theorem Tracked.only_opened (tracked : Tracked initial s log) {i : Nat} {call : Call}
    (found : s.parties[i]? = some call) {op : Op}
    (index : op.call = i ∧ op.index = call.finished) :
    ∀ mark ∈ log, mark.op = op → mark ∈ call.opened i := by
  rintro mark member rfl
  obtain ⟨other, here, stands⟩ := tracked.known mark member
  rw [index.1] at here stands
  cases Option.some.inj (here.symm.trans found)
  rcases stands with ⟨below, _⟩ | opened
  · omega
  · exact opened

/-- What the log says of the calling party after its step. -/
structure OwnTracked (i : Nat) (moved : Call) (log marks : Log) : Prop where
  wellFormed : WellFormed (log ++ marks)
  ofCall : ∀ mark ∈ marks, mark.op.call = i
  known : ∀ mark ∈ log ++ marks, mark.op.call = i →
    (mark.op.index < moved.finished ∧ .ended mark.op ∈ log ++ marks) ∨ mark ∈ moved.opened i
  opened : ∀ mark ∈ moved.opened i, mark ∈ log ++ marks
  finished : ∀ k < moved.finished,
    ∃ op, op.index = k ∧ moved.Performs i op ∧ .ended op ∈ log ++ marks

theorem Tracked.own_call (tracked : Tracked initial s log) {i : Nat} {call moved : Call}
    {marks : Log} (found : s.parties[i]? = some call) (effect : CallEffect i call marks moved)
    (performs : ∀ op, moved.Performs i op ↔ call.Performs i op) :
    OwnTracked i moved log marks := by
  have older : ∀ mark ∈ log, mark ∈ log ++ marks := fun mark => List.mem_append_left marks
  have openedKept := tracked.opened i call found
  have finishedKept : ∀ k < call.finished,
      ∃ op, op.index = k ∧ moved.Performs i op ∧ .ended op ∈ log ++ marks := by
    intro k below
    obtain ⟨op, index, own, ended⟩ := tracked.finished i call found k below
    exact ⟨op, index, (performs op).mpr own, older _ ended⟩
  have knownKept : ∀ mark ∈ log, mark.op.call = i →
      (mark.op.index < call.finished ∧ .ended mark.op ∈ log ++ marks) ∨ mark ∈ call.opened i := by
    intro mark member own
    obtain ⟨other, here, stands⟩ := tracked.known mark member
    rw [own] at here stands
    cases Option.some.inj (here.symm.trans found)
    rcases stands with ⟨below, ended⟩ | opened
    · exact Or.inl ⟨below, older _ ended⟩
    · exact Or.inr opened
  have stands : ∀ mark ∈ call.opened i ++ marks, mark ∈ log ++ marks := by
    intro mark member
    rcases List.mem_append.mp member with old | new
    · exact older mark (openedKept mark old)
    · exact List.mem_append_right log new
  cases effect with
  | advances op index part same opened =>
      have ofOp : ∀ mark ∈ marks, mark.op = op := fun mark member =>
        op_of_mem_lifecycle (part.subset (List.mem_append_right _ member))
      refine ⟨tracked.wellFormed.advance part openedKept (tracked.only_opened found index), ?_, ?_,
        ?_, ?_⟩
      · intro mark member
        rw [ofOp mark member]
        exact index.1
      · intro mark member own
        rw [same, opened]
        rcases List.mem_append.mp member with old | new
        · exact (knownKept mark old own).imp_right (List.mem_append_left marks)
        · exact Or.inr (List.mem_append_right _ new)
      · rw [opened]
        exact stands
      · rw [same]
        exact finishedKept
  | closes op index whole own more opened =>
      have part : call.opened i ++ marks <+: lifecycle op := whole ▸ List.prefix_refl _
      have endedOp : .ended op ∈ log ++ marks := stands _ (by simp [whole, lifecycle])
      have ofOp : ∀ mark ∈ call.opened i ++ marks, mark.op = op := fun mark member =>
        op_of_mem_lifecycle (part.subset member)
      have closed : ∀ mark ∈ call.opened i ++ marks,
          mark.op.index < moved.finished ∧ .ended mark.op ∈ log ++ marks := by
        intro mark member
        rw [ofOp mark member, index.2, more]
        exact ⟨Nat.lt_succ_self _, endedOp⟩
      refine ⟨tracked.wellFormed.advance part openedKept (tracked.only_opened found index), ?_, ?_,
        ?_, ?_⟩
      · intro mark member
        rw [ofOp mark (List.mem_append_right _ member)]
        exact index.1
      · intro mark member own
        left
        rcases List.mem_append.mp member with old | new
        · rcases knownKept mark old own with ⟨below, ended⟩ | open_mark
          · exact ⟨by omega, ended⟩
          · exact closed mark (List.mem_append_left _ open_mark)
        · exact closed mark (List.mem_append_right _ new)
      · rw [opened]
        exact fun mark member => absurd member List.not_mem_nil
      · intro k below
        rw [more] at below
        rcases Nat.lt_succ_iff_lt_or_eq.mp below with less | rfl
        · exact finishedKept k less
        · exact ⟨op, index.2, (performs op).mpr own, endedOp⟩

theorem Tracked.act (tracked : Tracked initial s log) {i : Nat} {call moved : Call} {next : Shared}
    {marks : Log} (found : s.parties[i]? = some call) (effect : CallEffect i call marks moved)
    (bounded : moved.Bounded) (performs : ∀ op, moved.Performs i op ↔ call.Performs i op)
    (counters : next.counters = (points marks).foldl applyOp s.shared.counters) :
    Tracked initial ⟨next, s.parties.set i moved⟩ (log ++ marks) := by
  have own := tracked.own_call found effect performs
  have older : ∀ mark ∈ log, mark ∈ log ++ marks := fun mark => List.mem_append_left marks
  have movedFound : (s.parties.set i moved)[i]? = some moved := by
    obtain ⟨bound, _⟩ := List.getElem?_eq_some_iff.mp found
    exact List.getElem?_set_self bound
  constructor
  · exact own.wellFormed
  · exact forall_mem_set tracked.bounded bounded
  · intro mark member
    by_cases ofCall : mark.op.call = i
    · refine ⟨moved, by rw [ofCall]; exact movedFound, ?_⟩
      rw [ofCall]
      exact own.known mark member ofCall
    · rcases List.mem_append.mp member with old | new
      · obtain ⟨other, here, stands⟩ := tracked.known mark old
        refine ⟨other, (List.getElem?_set_ne (Ne.symm ofCall)).trans here, ?_⟩
        rcases stands with ⟨below, ended⟩ | opened
        · exact Or.inl ⟨below, older _ ended⟩
        · exact Or.inr opened
      · exact absurd (own.ofCall mark new) ofCall
  · intro j other here
    rcases getElem?_set_cases here with ⟨rfl, rfl⟩ | ⟨_, same⟩
    · exact own.opened
    · exact fun mark member => older mark (tracked.opened j other same mark member)
  · intro j other here k below
    rcases getElem?_set_cases here with ⟨rfl, rfl⟩ | ⟨_, same⟩
    · exact own.finished k below
    · obtain ⟨op, index, performed, ended⟩ := tracked.finished j other same k below
      exact ⟨op, index, performed, older _ ended⟩
  · rw [points_append, List.foldl_append, tracked.replayed]
    exact counters.symm

theorem Tracked.step {act : Act} {next : System} (tracked : Tracked initial s log)
    (fresh : StoresFresh s act) (stepped : RaceDemo.step s act = some next) :
    Tracked initial next (watch s log act) := by
  cases act with
  | request request =>
      cases Option.some.inj stepped
      exact tracked.spawn request
  | call i =>
      obtain ⟨call, shared, moved, found, own, rfl⟩ := Pool.act_eq_some stepped
      obtain ⟨effect, bounded, performs⟩ :=
        callStep_effect (tracked.bounded call (List.mem_of_getElem? found)) own
      have loaded : ∀ tmp ∈ call.loaded, tmp = s.shared.counterPlain := fun tmp loaded =>
        fresh tmp (by rw [found]; exact loaded)
      have tracked := tracked.act found effect bounded performs (callStep_counters loaded own)
      simp only [watch, found, Option.map_some, Option.getD_some]
      exact tracked

end Tracked

/-! ## Nothing is lost -/

/-- The counters are those of an order of the operations, and the operations are
those of the calls: a write that returned ended all its increments, a reset that
returned both its stores. -/
structure NothingLost (initial : UInt64 × UInt64) (p : System × Log) : Prop where
  linearizable : Linearizable applyOp initial p.1.shared.counters p.2
  writes : ∀ i n, p.1.parties[i]? = some (.raceWrite (.returned n)) → ∀ k < n,
    ∃ counter, .ended ⟨i, k, counter, .increment⟩ ∈ p.2
  resets : ∀ i ret, p.1.parties[i]? = some (.resetStored ret) →
    ∀ counter, .ended (resetOp i counter) ∈ p.2
  -- At rest nothing has begun that has not ended.
  settled : (∀ call ∈ p.1.parties, call.returned = true) → ∀ op, .began op ∈ p.2 → .ended op ∈ p.2

theorem Call.opened_of_returned {call : Call} (returned : call.returned = true) (i : Nat) :
    call.opened i = [] := by
  cases call with
  | raceWrite progress =>
      cases progress with
      | running write => contradiction
      | returned n => rfl
  | modeStore value count | modeStored ret | resetStore pc count | resetStored ret => rfl

theorem Tracked.nothingLost {initial : UInt64 × UInt64} {s : System} {log : Log}
    (tracked : Tracked initial s log) : NothingLost initial (s, log) := by
  constructor
  · have order := tracked.wellFormed.linearizable applyOp initial
    rw [tracked.replayed] at order
    exact order
  · intro i n found k below
    obtain ⟨op, rfl, ⟨rfl, counted⟩, ended⟩ := tracked.finished i _ found k below
    obtain ⟨place, index, counter, kind⟩ := op
    cases counted
    exact ⟨counter, ended⟩
  · intro i ret found counter
    have stored (k : Nat) (below : k < 2) :
        ∃ op, op.index = k ∧ (∃ counter, op = resetOp i counter) ∧ .ended op ∈ log :=
      tracked.finished i _ found k below
    cases counter with
    | plain =>
        obtain ⟨op, index, ⟨counter, rfl⟩, ended⟩ := stored 0 (by decide)
        cases counter with
        | plain => exact ended
        | atomic => contradiction
    | atomic =>
        obtain ⟨op, index, ⟨counter, rfl⟩, ended⟩ := stored 1 (by decide)
        cases counter with
        | plain => contradiction
        | atomic => exact ended
  · intro rest op began
    obtain ⟨call, found, ⟨_, ended⟩ | opened⟩ := tracked.known _ began
    · exact ended
    · rw [Call.opened_of_returned (rest call (List.mem_of_getElem? found))] at opened
      contradiction

/-- In every run whose stores to `counter_plain` are computed from the value they
overwrite, the counters are at all times those of an order of the increments and
resets that keeps real time; and a run has such stores when none falls inside an
increment that is not under the same lock. -/
theorem nothing_lost_while_stores_fresh (mode : RaceMode)
    (counterPlain counterAtomic resetCount : UInt64) (acts : List Act) :
    (Meets step StoresFresh (.initial mode counterPlain counterAtomic resetCount) acts →
      Always (observed step watch) (NothingLost (counterPlain, counterAtomic))
        (.initial mode counterPlain counterAtomic resetCount, []) acts) ∧
    (Meets step StoresApart (.initial mode counterPlain counterAtomic resetCount) acts →
      Meets step StoresFresh (.initial mode counterPlain counterAtomic resetCount) acts) := by
  refine ⟨fun fresh => ?_, storesFresh_of_storesApart (guarded_initial _ _ _ _)⟩
  refine always_of_meets (I := fun p => Tracked (counterPlain, counterAtomic) p.1 p.2) ?_ ?_
    (tracked_initial _ _ _ _) (meets_observed watch fresh [])
  · rintro ⟨s, log⟩ act ⟨next, after⟩ tracked allowed stepped
    obtain ⟨own, rfl⟩ := observed_eq_some.mp stepped
    exact tracked.step allowed own
  · exact fun p tracked => tracked.nothingLost

/-- The second writer goes by the new mode while the first, which read the old
one, has not taken its lock; a reset follows. -/
theorem nothing_lost_while_stores_fresh_two :
    Always (observed step watch) (NothingLost (0, 0)) (.initial .spinlock 0 0 0, [])
      [.request (.dev 1), .request (.dev 1), .request (.mode (ascii "2\n")), .call 0, .call 2,
        .call 1, .call 1, .call 1, .call 1, .call 1, .call 0, .call 0, .call 0, .call 0,
        .request (.reset (ascii "1\n")), .call 3, .call 3, .call 3, .call 3, .call 3, .call 3] :=
  (nothing_lost_while_stores_fresh .spinlock 0 0 0 _).1 (by decide +kernel)

/-- The first writer has loaded 0 under the spinlock when `mode` becomes
`MODE_MUTEX`; the second loads 0 under the mutex, and both store 1. -/
theorem mutex_loses_spinlock_increment :
    ∃ s log, run (observed step watch) (.initial .spinlock 0 0 0, [])
        [.request (.dev 1), .request (.dev 1), .request (.mode (ascii "2\n")), .call 0, .call 0,
          .call 0, .call 2, .call 1, .call 1, .call 1, .call 1, .call 1, .call 0, .call 0] =
        some (s, log) ∧
      (∀ call ∈ s.parties, call.returned = true) ∧
      ¬ Linearizable applyOp (0, 0) s.shared.counters log := by
  refine ⟨⟨⟨.mutex, 1, 0, false, false, 0⟩,
      [.raceWrite (.returned 1), .raceWrite (.returned 1), .modeStored 2]⟩,
    [.began ⟨0, 0, .plain, .increment⟩, .began ⟨1, 0, .plain, .increment⟩,
      .took ⟨1, 0, .plain, .increment⟩, .ended ⟨1, 0, .plain, .increment⟩,
      .took ⟨0, 0, .plain, .increment⟩, .ended ⟨0, 0, .plain, .increment⟩],
    by decide +kernel, by decide, ?_⟩
  intro linearizable
  have either := linearizable.of_pair ⟨0, 0, .plain, .increment⟩ ⟨1, 0, .plain, .increment⟩
    (by decide) (by decide) (by decide)
  revert either
  decide

end RaceDemo
