import KernelLabs.Lib.Machine
import KernelLabs.Lib.Pool
import KernelLabs.RaceDemo.Counter

/-!
# `race_demo` running

Any number of writes to the device, to `mode` and to `reset` run at once.  The
two locks each exclude their own holders; the loads and stores of
`counter_plain` are guarded by one, by the other or, in `MODE_NONE`, by neither.
-/

set_option autoImplicit false

namespace RaceDemo

open Kernel LabelledMachine PartyPool LockWord

inductive Call where
  | raceWrite (progress : WriteProgress)
  | modeStore (value : RaceMode) (count : Nat)
  | modeStored (ret : Int)
  | resetStore (pc : ResetPc) (count : Nat)
  | resetStored (ret : Int)
  deriving DecidableEq, Repr

def Call.returned : Call → Bool
  | .raceWrite (.returned _) | .modeStored _ | .resetStored _ => true
  | _ => false

def modeStore (buf : Bytes) : Call :=
  match parseMode buf with
  | .error e => .modeStored e.code
  | .ok value => .modeStore value buf.length

def callStep (_i : Nat) (_ : Unit) (shared : Shared) : Call → Option (Shared × Call)
  | .raceWrite (.running write) =>
    (raceWriteStep shared write).map fun (next, progress) => (next, .raceWrite progress)
  | .modeStore value count => some ({ shared with mode := value }, .modeStored count)
  | .resetStore pc count =>
    match resetStep shared pc with
    | none => none
    | some (next, some after) => some (next, .resetStore after count)
    | some (next, none) => some (next, .resetStored count)
  | .raceWrite (.returned _) | .modeStored _ | .resetStored _ => none

abbrev System := Pool Shared Call

/-- A write through `/dev/race_demo` or through one of the attributes. -/
inductive Request where
  | dev (count : Nat)
  | mode (buf : Bytes)
  | reset (buf : Bytes)
  deriving DecidableEq, Repr

def Request.enter : Request → Call
  | .dev count => .raceWrite (raceWrite count)
  | .mode buf => modeStore buf
  | .reset buf => .resetStore .lock buf.length

inductive Act where
  | request (request : Request)
  | call (i : Nat)
  deriving DecidableEq, Repr

def step (s : System) : Act → Option System
  | .request request => some (s.spawn request.enter)
  | .call i => s.act callStep i ()

/-- No call is under way. -/
def System.initial (mode : RaceMode) (counterPlain counterAtomic resetCount : UInt64) : System :=
  ⟨⟨mode, counterPlain, counterAtomic, false, false, resetCount⟩, []⟩

/-! ## The accesses to `counter_plain` -/

def Call.loaded : Call → Option UInt64
  | .raceWrite (.running write) => write.pc.loaded
  | _ => none

def Call.storesUnder : Call → Option (Option Lock)
  | .raceWrite (.running write) => write.pc.storesUnder
  | .resetStore .storePlain _ => some (some .spinlock)
  | _ => none

/-- The value to be stored was computed from the value that is overwritten. -/
def StoresFresh (s : System) : Act → Prop
  | .call i => ∀ tmp ∈ s.parties[i]?.bind Call.loaded, tmp = s.shared.counterPlain
  | _ => True

/-- A store finds no other increment between its load and its store, unless both
are under the same lock. -/
def StoresApart (s : System) : Act → Prop
  | .call i => ∀ guard ∈ s.parties[i]?.bind Call.storesUnder,
      ∀ other ∈ s.parties.eraseIdx i, other.loaded.isSome →
        guard.isSome ∧ other.storesUnder = some guard
  | _ => True

instance (s : System) : ∀ act, Decidable (StoresFresh s act)
  | .call i => Option.decidableForallMem (s.parties[i]?.bind Call.loaded)
  | .request _ => isTrue trivial

/-! ## Mutual exclusion -/

def ResetPc.insideOf (own : Lock) : ResetPc → Bool
  | .storePlain | .unlock => own == .spinlock
  | _ => false

def Call.insideOf (own : Lock) : Call → Bool
  | .raceWrite (.running write) => write.pc.insideOf own
  | .resetStore pc _ => pc.insideOf own
  | _ => false

structure Guarded (s : System) : Prop where
  exclusive : ∀ own, Exclusive (s.shared.held own) (s.parties.countP (Call.insideOf own))
  loaded : ∀ call ∈ s.parties, ∀ tmp ∈ call.loaded, tmp = s.shared.counterPlain

theorem resetStep_lock (own : Lock) {shared next : Shared} {pc : ResetPc} {after : Option ResetPc}
    (stepped : resetStep shared pc = some (next, after)) :
    LockStep (shared.held own) (pc.insideOf own) (next.held own)
      (after.any (ResetPc.insideOf own)) := by
  cases pc with
  | lock =>
      simp only [resetStep] at stepped
      split at stepped
      · contradiction
      · rename_i free
        cases stepped
        cases own with
        | spinlock => exact .acquires (Bool.eq_false_of_not_eq_true free) rfl rfl rfl
        | mutex => exact .passes rfl rfl
  | unlock =>
      cases stepped
      cases own with
      | spinlock => exact .releases rfl rfl rfl
      | mutex => exact .passes rfl rfl
  | storePlain | setAtomic | loadCount | storeCount tmp =>
      cases stepped
      exact .passes (by cases own <;> rfl) rfl

theorem raceLoop_enters (own : Lock) (n i : Nat) :
    (Call.raceWrite (raceLoop n i)).insideOf own = false ∧
      (Call.raceWrite (raceLoop n i)).loaded = none := by
  unfold raceLoop
  split <;> exact ⟨rfl, rfl⟩

theorem Request.enter_outside (request : Request) (own : Lock) :
    request.enter.insideOf own = false ∧ request.enter.loaded = none := by
  cases request with
  | dev count => exact raceLoop_enters own _ _
  | mode buf =>
      simp only [Request.enter, modeStore]
      cases parseMode buf with
      | error e | ok value => exact ⟨rfl, rfl⟩
  | reset buf => exact ⟨rfl, rfl⟩

theorem callStep_lock (own : Lock) {i : Nat} {shared next : Shared} {call moved : Call}
    (stepped : callStep i () shared call = some (next, moved)) :
    LockStep (shared.held own) (call.insideOf own) (next.held own) (moved.insideOf own) := by
  cases call with
  | raceWrite progress =>
      cases progress with
      | returned n => contradiction
      | running write =>
          obtain ⟨⟨after, progress⟩, ran, same⟩ := Option.map_eq_some_iff.mp stepped
          cases same
          rcases raceWriteStep_eq_some ran with ⟨pc, inc, rfl⟩ | ⟨inc, rfl⟩
          · exact incrementStep_lock own inc
          · have outside := (raceLoop_enters own write.n (write.i + 1)).1
            rw [outside]
            exact incrementStep_lock own inc
  | modeStore value count =>
      cases stepped
      exact .passes (by cases own <;> rfl) rfl
  | resetStore pc count =>
      simp only [callStep] at stepped
      split at stepped
      · contradiction
      · rename_i reset
        cases stepped
        exact resetStep_lock own reset
      · rename_i reset
        cases stepped
        exact resetStep_lock own reset
  | modeStored ret | resetStored ret => contradiction

theorem callStep_loads {i : Nat} {shared next : Shared} {call moved : Call}
    (stepped : callStep i () shared call = some (next, moved)) :
    (call.storesUnder = none ∧ next.counterPlain = shared.counterPlain ∧
        ∀ tmp ∈ moved.loaded, tmp = shared.counterPlain) ∨
      (call.storesUnder.isSome ∧ moved.loaded = none) := by
  cases call with
  | raceWrite progress =>
      cases progress with
      | returned n => contradiction
      | running write =>
          obtain ⟨⟨after, progress⟩, ran, same⟩ := Option.map_eq_some_iff.mp stepped
          cases same
          rcases raceWriteStep_eq_some ran with ⟨pc, inc, rfl⟩ | ⟨inc, rfl⟩
          · exact incrementStep_loads inc
          · rw [(raceLoop_enters .spinlock write.n (write.i + 1)).2]
            exact incrementStep_loads inc
  | modeStore value count =>
      cases stepped
      exact Or.inl ⟨rfl, rfl, nofun⟩
  | resetStore pc count =>
      cases pc with
      | lock =>
          by_cases held : shared.held .spinlock = true
          · simp only [callStep, resetStep, held, if_true] at stepped
            contradiction
          · simp only [callStep, resetStep, held, Bool.false_eq_true, if_false] at stepped
            cases stepped
            exact Or.inl ⟨rfl, rfl, nofun⟩
      | storePlain =>
          cases stepped
          exact Or.inr ⟨rfl, rfl⟩
      | unlock | setAtomic | loadCount | storeCount tmp =>
          cases stepped
          exact Or.inl ⟨rfl, rfl, nofun⟩
  | modeStored ret | resetStored ret => contradiction

theorem Call.inside_of_storesUnder {call : Call} {own : Lock}
    (stores : call.storesUnder = some (some own)) : call.insideOf own = true := by
  cases call with
  | raceWrite progress =>
      cases progress with
      | returned n => contradiction
      | running write =>
          rcases write with ⟨n, i, pc⟩
          cases pc <;> cases stores
          exact beq_self_eq_true own
  | resetStore pc count =>
      cases pc <;> cases stores
      rfl
  | modeStore value count | modeStored ret | resetStored ret => contradiction

theorem guarded_initial (mode : RaceMode) (counterPlain counterAtomic resetCount : UInt64) :
    Guarded (.initial mode counterPlain counterAtomic resetCount) :=
  ⟨fun own => by cases own <;> rfl, nofun⟩

/-- While stores under one lock keep out of the increments under the other, what
an increment loaded stays the value of the counter. -/
theorem Guarded.step {s next : System} {act : Act} (guarded : Guarded s) (apart : StoresApart s act)
    (stepped : RaceDemo.step s act = some next) : Guarded next := by
  cases act with
  | request request =>
      cases Option.some.inj stepped
      refine ⟨fun own => ?_, ?_⟩
      · have outside := (request.enter_outside own).1
        simp only [Pool.spawn, List.countP_append, List.countP_singleton, outside]
        exact guarded.exclusive own
      · refine forall_mem_spawn guarded.loaded ?_
        rw [(request.enter_outside .spinlock).2]
        nofun
  | call i =>
      obtain ⟨call, shared, moved, found, own, rfl⟩ := Pool.act_eq_some stepped
      refine ⟨fun lock => ?_, ?_⟩
      · exact (guarded.exclusive lock).step (callStep_lock lock own)
          (countP_set_add (Call.insideOf lock) moved found)
      · rcases callStep_loads own with ⟨_, same, loads⟩ | ⟨stores, nothing⟩
        · dsimp only
          rw [same]
          exact forall_mem_set guarded.loaded loads
        · intro other member tmp loaded
          have differs : other ≠ moved := by
            rintro rfl
            rw [nothing] at loaded
            contradiction
          obtain ⟨guard, under⟩ := Option.isSome_iff_exists.mp stores
          have elsewhere := mem_eraseIdx_of_mem_set member differs
          obtain ⟨locked, same⟩ := apart guard (by rw [found]; exact under) other elsewhere
            (Option.isSome_of_mem loaded)
          -- both would be inside the same lock
          obtain ⟨lock, rfl⟩ := Option.isSome_iff_exists.mp locked
          have single : s.parties.countP (Call.insideOf lock) ≤ 1 := by
            rw [guarded.exclusive lock]
            split <;> omega
          exact absurd (eq_moved_of_countP_le_one _ found (Call.inside_of_storesUnder under) single
            other member (Call.inside_of_storesUnder same)) differs

theorem storesFresh_of_storesApart {s : System} (guarded : Guarded s) {acts : List Act}
    (apart : Meets RaceDemo.step StoresApart s acts) : Meets RaceDemo.step StoresFresh s acts := by
  refine meets_of_meets (fun s act next here allowed moves => here.step allowed moves)
    (fun s act here _ => ?_) guarded apart
  cases act with
  | request request => trivial
  | call i =>
      intro tmp loaded
      obtain ⟨call, found, own⟩ := Option.bind_eq_some_iff.mp loaded
      exact here.loaded call (List.mem_of_getElem? found) tmp own

end RaceDemo
