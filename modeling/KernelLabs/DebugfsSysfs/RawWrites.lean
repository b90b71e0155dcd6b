import KernelLabs.DebugfsSysfs.Interfaces
import KernelLabs.Lib.ReadModifyWrite

/-!
# Writes to `counter_raw` beside increments

`increment_store` runs `counter++` under `data_lock`, which `counter_raw` does
not take.  No increment is ever lost, whatever is written raw; a raw write is
lost exactly when it comes between the load and the store of an increment.
-/

set_option autoImplicit false

namespace DebugfsSysfs

open Kernel LabelledMachine PartyPool LockWord ReadModifyWrite

/-- What the call has loaded for its `counter++`, before it stores. -/
def Pc.storing : Pc → Option UInt32
  | .incStore tmp _ => some tmp
  | _ => none

def Pc.touch : Pc → Option (Touch UInt32)
  | .inside (.increment _) => some .load
  | .incStore _ _ => some .store
  | .rawCounter value _ => some (.write value)
  | _ => none

/-- The accesses of `counter`, but for those that only read. -/
def watch (s : System) (log : List (Touch UInt32)) : Act → List (Touch UInt32)
  | .call _ => log
  | .run i => log ++ (s.parties[i]?.bind Pc.touch).toList

def InFlight (parties : List Pc) : Option UInt32 → Prop
  | none => ¬ ∃ pc ∈ parties, pc.storing.isSome
  | some tmp => ∃ pc ∈ parties, pc.storing = some tmp

structure Told (s : System) (log : List (Touch UInt32)) : Prop where
  exclusive : Exclusive s.shared.dataLock (s.parties.countP Pc.holds)
  agrees : ∀ inFlight, InFlight s.parties inFlight →
    Agrees (· + 1) 0 s.shared.counter inFlight log

theorem holds_of_storing {pc : Pc} (storing : pc.storing.isSome) : pc.holds = true := by
  cases pc with
  | incStore tmp count => rfl
  | _ => contradiction

section Steps
variable {s : System} {log : List (Touch UInt32)} {i : Nat} {pc moved : Pc}

theorem inFlight_keep (found : s.parties[i]? = some pc) (same : moved.storing = pc.storing)
    {inFlight : Option UInt32} (flying : InFlight (s.parties.set i moved) inFlight) :
    InFlight s.parties inFlight := by
  cases inFlight with
  | none =>
      intro others
      exact flying ((exists_mem_set_iff found (by rw [same])).mpr others)
  | some tmp => exact (exists_mem_set_iff found (by rw [same])).mp flying

/-- While a call holds the lock, it alone may be between its load and its store. -/
theorem storing_alone (exclusive : Exclusive s.shared.dataLock (s.parties.countP Pc.holds))
    (found : s.parties[i]? = some pc) (inside : pc.holds = true) :
    ∀ other ∈ s.parties.set i moved, other.storing.isSome → other = moved := by
  intro other member storing
  exact eq_moved_of_countP_le_one Pc.holds found inside exclusive.le_one other member
    (holds_of_storing storing)

/-- A step that touches `counter` in no way that counts. -/
theorem Told.pass {next : Shared} (told : Told s log) (found : s.parties[i]? = some pc)
    (quiet : pc.touch = none) (same : moved.storing = pc.storing)
    (counter : next.counter = s.shared.counter)
    (exclusive : Exclusive next.dataLock ((s.parties.set i moved).countP Pc.holds)) :
    Told ⟨next, s.parties.set i moved⟩ (log ++ pc.touch.toList) := by
  rw [quiet, Option.toList_none, List.append_nil]
  constructor
  · exact exclusive
  · intro inFlight flying
    rw [counter]
    exact told.agrees inFlight (inFlight_keep found same flying)

theorem Told.load {next : Shared} {count : Nat} (told : Told s log)
    (found : s.parties[i]? = some (.inside (.increment count)))
    (counter : next.counter = s.shared.counter)
    (exclusive : Exclusive next.dataLock
      ((s.parties.set i (.incStore s.shared.counter count)).countP Pc.holds)) :
    Told ⟨next, s.parties.set i (.incStore s.shared.counter count)⟩ (log ++ [.load]) := by
  have alone : ∀ other ∈ s.parties.set i (.incStore s.shared.counter count),
      other.storing.isSome → other = .incStore s.shared.counter count :=
    storing_alone told.exclusive found rfl
  have nobody : InFlight s.parties none := by
    rintro ⟨other, member, storing⟩
    obtain ⟨j, otherFound⟩ := List.mem_iff_getElem?.mp member
    have same := eq_of_countP_le_one Pc.holds otherFound found (holds_of_storing storing) rfl
      told.exclusive.le_one
    subst same
    cases Option.some.inj (otherFound.symm.trans found)
    contradiction
  have agrees := (told.agrees none nobody).load
  constructor
  · exact exclusive
  · intro inFlight flying
    rw [counter]
    cases inFlight with
    | none => exact absurd ⟨_, moved_mem_set found, rfl⟩ flying
    | some tmp =>
        obtain ⟨other, member, storing⟩ := flying
        cases alone other member (by rw [storing]; rfl)
        cases storing
        exact agrees

theorem Told.store {next : Shared} {tmp : UInt32} {count : Nat} (told : Told s log)
    (found : s.parties[i]? = some (.incStore tmp count)) (counter : next.counter = tmp + 1)
    (exclusive : Exclusive next.dataLock ((s.parties.set i (.incValue count)).countP Pc.holds)) :
    Told ⟨next, s.parties.set i (.incValue count)⟩ (log ++ [.store]) := by
  have alone : ∀ other ∈ s.parties.set i (.incValue count),
      other.storing.isSome → other = .incValue count := storing_alone told.exclusive found rfl
  have agrees := (told.agrees (some tmp) ⟨_, List.mem_of_getElem? found, rfl⟩).store
  constructor
  · exact exclusive
  · intro inFlight flying
    rw [counter]
    cases inFlight with
    | none => exact agrees
    | some other =>
        obtain ⟨party, member, storing⟩ := flying
        cases alone party member (by rw [storing]; rfl)
        cases storing

theorem Told.raw {next : Shared} {value : UInt32} {count : Nat} (told : Told s log)
    (found : s.parties[i]? = some (.rawCounter value count)) (same : moved.storing = none)
    (counter : next.counter = value)
    (exclusive : Exclusive next.dataLock ((s.parties.set i moved).countP Pc.holds)) :
    Told ⟨next, s.parties.set i moved⟩ (log ++ [.write value]) := by
  constructor
  · exact exclusive
  · intro inFlight flying
    rw [counter]
    exact (told.agrees inFlight (inFlight_keep found same flying)).write value

theorem Told.step {next : System} {act : Act} (told : Told s log)
    (stepped : DebugfsSysfs.step s act = some next) : Told next (watch s log act) := by
  have exclusive := exclusive_step told.exclusive stepped
  cases act with
  | call request =>
      cases stepped
      have quiet : request.enter.storing = none := by
        cases request with
        | enabledStore buf =>
            simp only [Request.enter]
            split <;> rfl
        | _ => rfl
      constructor
      · exact exclusive
      · intro inFlight flying
        apply told.agrees
        cases inFlight with
        | none =>
            rintro ⟨pc, member, storing⟩
            exact flying ⟨pc, List.mem_append_left _ member, storing⟩
        | some tmp =>
            obtain ⟨pc, member, storing⟩ := flying
            rcases List.mem_append.mp member with old | new
            · exact ⟨pc, old, storing⟩
            · rw [List.mem_singleton.mp new, quiet] at storing
              cases storing
  | run i =>
      obtain ⟨pc, shared, moved, found, own, rfl⟩ := Pool.act_eq_some stepped
      have logged : watch s log (.run i) = log ++ pc.touch.toList := by
        simp only [watch, found, Option.bind_some]
      rw [logged]
      cases pc with
      | lock body =>
          simp only [callStep] at own
          split at own
          · contradiction
          · cases own
            exact told.pass found rfl rfl rfl exclusive
      | inside body =>
          cases body with
          | increment count =>
              cases own
              exact told.load found rfl exclusive
          | counterShow | enabledShow | enabledStore value count
          | infoRead count ppos missing =>
              cases own
              exact told.pass found rfl rfl rfl exclusive
      | incStore tmp count =>
          cases own
          exact told.store found rfl exclusive
      | rawCounter value count =>
          cases own
          exact told.raw found rfl rfl exclusive
      | incValue count | infoEnabled c count ppos missing | unlock result
      | rawEnabled value count =>
          cases own
          exact told.pass found rfl rfl rfl exclusive
      | done result => contradiction

end Steps

/-- The step is no raw write that falls inside a `counter++`. -/
def RawApart (s : System) : Act → Prop
  | .call _ => True
  | .run i =>
    match s.parties[i]? with
    | some (.rawCounter _ _) => ∀ pc ∈ s.parties, pc.storing = none
    | _ => True

instance (s : System) (act : Act) : Decidable (RawApart s act) := by
  unfold RawApart
  split
  · infer_instance
  · split <;> infer_instance

theorem told_initial : Told System.initial [] := by
  constructor
  · rfl
  · intro inFlight flying
    cases inFlight with
    | none => exact agrees_start (· + 1) 0
    | some tmp =>
        obtain ⟨pc, member, _⟩ := flying
        cases member

theorem exists_inFlight (parties : List Pc) : ∃ inFlight, InFlight parties inFlight := by
  by_cases storing : ∃ pc ∈ parties, pc.storing.isSome
  · obtain ⟨pc, member, loaded⟩ := storing
    obtain ⟨tmp, same⟩ := Option.isSome_iff_exists.mp loaded
    exact ⟨some tmp, pc, member, same⟩
  · exact ⟨none, storing⟩

/-- A step loses a write exactly when it is a raw one inside a `counter++`. -/
theorem lost_step {s : System} {log : List (Touch UInt32)} (told : Told s log) (act : Act) :
    (settle (watch s log act)).lost = (settle log).lost ↔ RawApart s act := by
  cases act with
  | call request => simp [watch, RawApart]
  | run i =>
      cases found : s.parties[i]? with
      | none => simp [watch, RawApart, found]
      | some pc =>
          simp only [watch, RawApart, found, Option.bind_some]
          cases pc with
          | rawCounter value count =>
              obtain ⟨inFlight, flying⟩ := exists_inFlight s.parties
              have counted := (told.agrees inFlight flying).lost_write value
              simp only [Pc.touch, Option.toList_some, counted]
              cases inFlight with
              | none =>
                  refine iff_of_true rfl ?_
                  intro pc member
                  cases storing : pc.storing with
                  | none => rfl
                  | some tmp => exact absurd ⟨pc, member, by rw [storing]; rfl⟩ flying
              | some tmp =>
                  obtain ⟨pc, member, storing⟩ := flying
                  refine iff_of_false (by simp) ?_
                  intro apart
                  rw [apart pc member] at storing
                  cases storing
          | inside body => cases body <;> simp [Pc.touch, settle_concat, Settled.touch]
          | incStore tmp count => simp [Pc.touch, settle_concat, Settled.touch]
          | lock body | incValue count | infoEnabled c count ppos missing | unlock result
          | done result | rawEnabled value count => simp [Pc.touch]

theorem lost_watch_mono (s : System) (log : List (Touch UInt32)) (act : Act) :
    (settle log).lost ≤ (settle (watch s log act)).lost := by
  cases act with
  | call request => exact Nat.le_refl _
  | run i =>
      rw [watch]
      cases s.parties[i]?.bind Pc.touch with
      | none => simp
      | some touch => exact lost_mono log touch

/-- In every run, while no call is between the load and the store of its
`counter++`, `counter` is what the operations that count make of 0.  Every
increment counts; all raw writes but the lost ones do; and none is lost exactly
when none ever fell inside a `counter++`. -/
theorem raw_writes_lost_iff_inside {acts : List Act} {s : System} {log : List (Touch UInt32)}
    (reached : run (observed step watch) (System.initial, []) acts = some (s, log)) :
    ((∀ pc ∈ s.parties, pc.storing = none) →
      s.shared.counter = (settle log).ops.foldl (apply (· + 1)) 0) ∧
    (settle log).ops.Sublist (plain log) ∧
    (settle log).ops.count .update = log.count .store ∧
    ((settle log).ops = plain log ↔ Meets step RawApart System.initial acts) := by
  have keep (p : System × List (Touch UInt32)) (act : Act) (next : System × List (Touch UInt32))
      (told : Told p.1 p.2) (stepped : observed step watch p act = some next) :
      Told next.1 next.2 := by
    obtain ⟨own, logged⟩ := observed_eq_some.mp stepped
    rw [logged]
    exact told.step own
  have told : Told s log :=
    invariant_run (I := fun p => Told p.1 p.2) keep told_initial reached
  refine ⟨?_, ops_sublist_plain log, count_update log, ?_⟩
  · intro quiet
    refine (told.agrees none ?_).rest rfl
    rintro ⟨pc, member, storing⟩
    rw [quiet pc member] at storing
    contradiction
  · rw [ops_eq_plain_iff]
    have outcome :
        (Meets (observed step watch) (fun p act => RawApart p.1 act) (System.initial, []) acts ∧
          Told s log ∧ (settle log).lost = 0) ∨
        (¬ Meets (observed step watch) (fun p act => RawApart p.1 act) (System.initial, []) acts ∧
          0 < (settle log).lost) := by
      refine meets_or_damaged (I := fun p => Told p.1 p.2 ∧ (settle p.2).lost = 0)
        (J := fun p => 0 < (settle p.2).lost) ?_ ?_ ?_ ⟨told_initial, rfl⟩ reached
      · rintro ⟨before, record⟩ act ⟨next, after⟩ ⟨here, noneLost⟩ apart stepped
        refine ⟨keep _ _ _ here stepped, ?_⟩
        obtain ⟨_, rfl⟩ := observed_eq_some.mp stepped
        exact ((lost_step here act).mpr apart).trans noneLost
      · rintro ⟨before, record⟩ act ⟨next, after⟩ ⟨here, noneLost⟩ inside stepped
        obtain ⟨_, rfl⟩ := observed_eq_some.mp stepped
        apply Nat.pos_of_ne_zero
        intro still
        exact inside ((lost_step here act).mp (still.trans noneLost.symm))
      · rintro ⟨before, record⟩ act ⟨next, after⟩ lost stepped
        obtain ⟨_, rfl⟩ := observed_eq_some.mp stepped
        exact Nat.lt_of_lt_of_le lost (lost_watch_mono before record act)
    constructor
    · intro noneLost
      rcases outcome with ⟨meets, _⟩ | ⟨_, lost⟩
      · exact meets_of_observed watch meets
      · exact absurd noneLost (Nat.pos_iff_ne_zero.mp lost)
    · intro meets
      rcases outcome with ⟨_, _, noneLost⟩ | ⟨misses, _⟩
      · exact noneLost
      · exact absurd (meets_observed watch meets []) misses

/-- An increment with a raw write inside it, and one after it. -/
def pokes : List Act :=
  [.call (.incrementStore (ascii "1\n")), .call (.counterRaw 40 3), .call (.counterRaw 7 2),
    .run 0, .run 0, .run 1, .run 0, .run 0, .run 0, .run 2]

theorem raw_writes_lost_iff_inside_pokes :
    ∃ s log, run (observed step watch) (System.initial, []) pokes = some (s, log) ∧
      s.shared.counter = 7 ∧ (settle log).ops ≠ plain log :=
  have ran := run_get (observed step watch) (System.initial, []) pokes (by decide +kernel)
  ⟨_, _, ran, by decide +kernel, by
    rw [Ne, (raw_writes_lost_iff_inside ran).2.2.2]
    decide +kernel⟩

end DebugfsSysfs
