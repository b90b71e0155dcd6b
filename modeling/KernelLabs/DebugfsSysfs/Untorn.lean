import KernelLabs.DebugfsSysfs.Interfaces
import KernelLabs.Lib.GuardedData
import Mathlib.Data.UInt

/-!
# What the locked interfaces show

As long as nobody writes the raw files, `data_lock` makes each increment and
each write of `enabled` one change.  What the attributes and `info` show is then
the variables as some change left them, both from the same one, and the
increments log 1, 2, 3 and so on, each number once.
-/

set_option autoImplicit false

namespace DebugfsSysfs

open Kernel LabelledMachine PartyPool LockWord GuardedData

/-- The variables that `data_lock` guards. -/
structure Data where
  counter : UInt32
  enabled : Bool
  deriving DecidableEq, Repr

def Shared.data (shared : Shared) : Data := ⟨shared.counter, shared.enabled⟩

def Data.bumped (data : Data) : Data := { data with counter := data.counter + 1 }

/-- One increment, or one write of `enabled`. -/
def Change (before after : Data) : Prop :=
  after = before.bumped ∨ ∃ value, after = { before with enabled := value }

/-- What `simple_read_from_buffer` makes of the text of `info`. -/
def InfoOutcome (c : UInt32) (e : Bool) (outcome : Except Errno (Bytes × Nat)) : Prop :=
  ∃ count ppos missing, outcome = simpleReadFromBuffer count ppos (infoText c e) missing

/-- What a call that is about to unlock knows. -/
def UnlockFact (committed : List Data) (data : Data) : Result → Prop
  | .counterShown text => committed.getLast? = some data ∧ text = counterText data.counter
  | .enabledShown text => committed.getLast? = some data ∧ text = enabledText data.enabled
  | .info c e outcome => committed.getLast? = some data ∧ data = ⟨c, e⟩ ∧ InfoOutcome c e outcome
  | .incremented value _ =>
    ∃ last, committed.getLast? = some last ∧ data = last.bumped ∧ value = data.counter
  | .stored _ =>
      ∃ last value, committed.getLast? = some last ∧ data = { last with enabled := value }
  | .failed _ => committed.getLast? = some data

def DoneFact (committed : List Data) : Result → Prop
  | .counterShown text => ∃ data ∈ committed, text = counterText data.counter
  | .enabledShown text => ∃ data ∈ committed, text = enabledText data.enabled
  | .info c e outcome => ⟨c, e⟩ ∈ committed ∧ InfoOutcome c e outcome
  | .incremented value _ => ∃ data ∈ committed, value = data.counter
  | .stored _ | .failed _ => True

def PcFact (committed : List Data) (data : Data) : Pc → Prop
  | .lock _ => True
  | .inside _ => committed.getLast? = some data
  | .incStore tmp _ => committed.getLast? = some data ∧ tmp = data.counter
  | .incValue _ => ∃ last, committed.getLast? = some last ∧ data = last.bumped
  | .infoEnabled c _ _ _ => committed.getLast? = some data ∧ c = data.counter
  | .unlock result => UnlockFact committed data result
  | .done result => DoneFact committed result
  | .rawCounter _ _ | .rawEnabled _ _ => False

theorem doneFact_later {committed later : List Data} (grown : committed <+: later)
    {result : Result} (fact : DoneFact committed result) : DoneFact later result := by
  cases result with
  | counterShown text | enabledShown text | incremented value count =>
      obtain ⟨data, member, same⟩ := fact
      exact ⟨data, grown.subset member, same⟩
  | info c e outcome => exact ⟨grown.subset fact.1, fact.2⟩
  | stored count | failed e => trivial

/-- The discipline of `data_lock`. -/
def dataDiscipline : Discipline Data Pc where
  holds := Pc.holds
  Fact := PcFact
  Related := Change
  outside := by
    intro committed later data now pc grown out fact
    cases pc with
    | lock body => trivial
    | done result => exact doneFact_later grown fact
    | rawCounter value count | rawEnabled value count => exact fact
    | inside body | incStore tmp count | incValue count | infoEnabled c count ppos missing
    | unlock result => contradiction

/-! ## The changes, and the numbers logged -/

/-- The step is the unlock after a change. -/
def Pc.changes : Pc → Bool
  | .unlock (.incremented _ _) | .unlock (.stored _) => true
  | _ => false

/-- What `increment_store` logs. -/
def Pc.logs : Pc → Option UInt32
  | .unlock (.incremented value _) => some value
  | _ => none

structure History where
  committed : List Data
  logged : List UInt32

def History.initial : History := ⟨[⟨0, true⟩], []⟩

def watchUnlock (s : System) (history : History) : Act → History
  | .call _ => history
  | .run i =>
    match s.parties[i]? with
    | none => history
    | some pc =>
      { committed :=
          if pc.changes then history.committed ++ [s.shared.data] else history.committed
        logged := history.logged ++ pc.logs.toList }

/-- 1, 2, 3 and so on, as an `u32` counts. -/
def numbered (n : Nat) : List UInt32 := (List.range n).map fun k => UInt32.ofNat (k + 1)

theorem numbered_succ (n : Nat) : numbered (n + 1) = numbered n ++ [UInt32.ofNat (n + 1)] := by
  rw [numbered, List.range_succ, List.map_append]
  rfl

structure Numbered (history : History) : Prop where
  logged : history.logged = numbered history.logged.length
  last : ∀ data ∈ history.committed.getLast?, data.counter = UInt32.ofNat history.logged.length

section Steps
variable {committed : List Data} {shared next : Shared} {pc moved : Pc} {i : Nat}

/-- The first access inside: what it does, and what the call knows after it. -/
theorem sectionStep_section (body : Section) (isLast : committed.getLast? = some shared.data) :
    SectionStep dataDiscipline shared.dataLock committed shared.data true
        (sectionStep shared body).1.dataLock committed (sectionStep shared body).1.data
        (sectionStep shared body).2.holds ∧
      PcFact committed (sectionStep shared body).1.data (sectionStep shared body).2 := by
  cases body with
  | counterShow | enabledShow | increment count | infoRead count ppos missing =>
      exact ⟨.passes rfl rfl rfl rfl, isLast, rfl⟩
  | enabledStore value count =>
      exact ⟨.writes rfl rfl rfl rfl, shared.data, value, isLast, rfl⟩

theorem unlock_section {result : Result} (fact : UnlockFact committed shared.data result) :
    let later := if (Pc.unlock result).changes then committed ++ [shared.data] else committed
    SectionStep dataDiscipline shared.dataLock committed shared.data true false later shared.data
        false ∧
      DoneFact later result := by
  cases result with
  | counterShown text | enabledShown text =>
      obtain ⟨isLast, same⟩ := fact
      exact ⟨.leaves rfl rfl rfl rfl rfl isLast, _, List.mem_of_getLast? isLast, same⟩
  | info c e outcome =>
      obtain ⟨isLast, same, served⟩ := fact
      refine ⟨.leaves rfl rfl rfl rfl rfl isLast, ?_, served⟩
      rw [← same]
      exact List.mem_of_getLast? isLast
  | failed e => exact ⟨.leaves rfl rfl rfl rfl rfl fact, trivial⟩
  | incremented value count =>
      obtain ⟨last, isLast, bumped, same⟩ := fact
      refine ⟨.commits rfl rfl rfl rfl rfl ?_, shared.data, ?_, same⟩
      · intro other isOther
        cases Option.some.inj (isLast.symm.trans isOther)
        exact Or.inl bumped
      · exact List.mem_append_right _ (List.mem_singleton_self _)
  | stored count =>
      obtain ⟨last, value, isLast, written⟩ := fact
      refine ⟨.commits rfl rfl rfl rfl rfl ?_, trivial⟩
      intro other isOther
      cases Option.some.inj (isLast.symm.trans isOther)
      exact Or.inr ⟨value, written⟩

theorem callStep_section (free : shared.dataLock = false → committed.getLast? = some shared.data)
    (fact : PcFact committed shared.data pc)
    (stepped : callStep i () shared pc = some (next, moved)) :
    let later := if pc.changes then committed ++ [shared.data] else committed
    SectionStep dataDiscipline shared.dataLock committed shared.data pc.holds next.dataLock later
        next.data moved.holds ∧
      PcFact later next.data moved := by
  cases pc with
  | lock body =>
      simp only [callStep] at stepped
      split at stepped
      · contradiction
      · rename_i unlocked
        have isFree := Bool.eq_false_of_not_eq_true unlocked
        cases stepped
        exact ⟨.acquires isFree rfl rfl rfl rfl rfl, free isFree⟩
  | inside body =>
      have accessed : sectionStep shared body = (next, moved) := Option.some.inj stepped
      have known := sectionStep_section body fact
      rw [accessed] at known
      exact known
  | incStore tmp count =>
      cases stepped
      obtain ⟨isLast, rfl⟩ := fact
      exact ⟨.writes rfl rfl rfl rfl, shared.data, isLast, rfl⟩
  | incValue count =>
      cases stepped
      obtain ⟨last, isLast, bumped⟩ := fact
      exact ⟨.passes rfl rfl rfl rfl, last, isLast, bumped, rfl⟩
  | infoEnabled c count ppos missing =>
      cases stepped
      obtain ⟨isLast, rfl⟩ := fact
      exact ⟨.passes rfl rfl rfl rfl, isLast, rfl, count, ppos, missing, rfl⟩
  | unlock result =>
      cases stepped
      exact unlock_section fact
  | rawCounter value count | rawEnabled value count => exact absurd fact id
  | done result => contradiction

/-- What a call has done when it unlocks continues the numbers. -/
theorem Numbered.step {history : History} {data : Data} (count : Numbered history)
    (fact : PcFact history.committed data pc) :
    Numbered
      { committed := if pc.changes then history.committed ++ [data] else history.committed
        logged := history.logged ++ pc.logs.toList } := by
  obtain ⟨logged, last⟩ := count
  cases pc with
  | unlock result =>
      cases result with
      | incremented value calls =>
          obtain ⟨before, isLast, bumped, same⟩ := fact
          have next : data.counter = UInt32.ofNat (history.logged.length + 1) := by
            rw [bumped, Data.bumped, last before isLast, UInt32.ofNat_add]
            rfl
          constructor
          · simp only [Pc.logs, Option.toList_some, List.length_append, List.length_singleton]
            rw [numbered_succ, ← logged, same, next]
          · intro now isNow
            simp only [Pc.changes, if_true, List.getLast?_concat] at isNow
            cases isNow
            simpa [Pc.logs] using next
      | stored calls =>
          obtain ⟨before, value, isLast, rfl⟩ := fact
          constructor
          · simpa [Pc.logs] using logged
          · intro now isNow
            simp only [Pc.changes, if_true, List.getLast?_concat] at isNow
            cases isNow
            simpa [Pc.logs] using last before isLast
      | counterShown text | enabledShown text | info c e outcome | failed e =>
          exact ⟨by simpa [Pc.logs] using logged, by simpa [Pc.logs, Pc.changes] using last⟩
  | lock body | inside body | incStore tmp calls | incValue calls | infoEnabled c calls ppos missing
  | done result | rawCounter value calls | rawEnabled value calls =>
      exact ⟨by simpa [Pc.logs] using logged, by simpa [Pc.logs, Pc.changes] using last⟩

end Steps

/-- No write of a raw file begins. -/
def NoRaw (_ : System) : Act → Prop
  | .call request => request.raw = false
  | .run _ => True

instance (s : System) : (act : Act) → Decidable (NoRaw s act)
  | .call request => inferInstanceAs (Decidable (request.raw = false))
  | .run _ => isTrue trivial

theorem enter_fact {request : Request} (locked : request.raw = false) (committed : List Data)
    (data : Data) : PcFact committed data request.enter := by
  cases request with
  | counterShow | enabledShow | incrementStore buf | infoRead count ppos missing => trivial
  | enabledStore buf =>
      simp only [Request.enter]
      split <;> trivial
  | counterRaw value count | enabledRaw value count => contradiction

structure Coherence (s : System) (history : History) : Prop where
  coherent : Coherent dataDiscipline s.shared.dataLock history.committed s.shared.data s.parties
  count : Numbered history

theorem coherence_initial : Coherence System.initial History.initial := by
  constructor
  · constructor
    · rfl
    · intro _
      rfl
    · intro pc member
      cases member
    · exact List.isChain_singleton _
  · constructor
    · rfl
    · intro data isLast
      cases isLast
      rfl

theorem Coherence.step {s next : System} {history : History} {act : Act}
    (here : Coherence s history) (locked : NoRaw s act)
    (stepped : DebugfsSysfs.step s act = some next) :
    Coherence next (watchUnlock s history act) := by
  obtain ⟨coherent, count⟩ := here
  cases act with
  | call request =>
      cases stepped
      exact ⟨coherent.enter (enter_outside request) (enter_fact locked _ _), count⟩
  | run i =>
      obtain ⟨pc, shared, moved, found, own, rfl⟩ := Pool.act_eq_some stepped
      have fact := coherent.facts pc (List.mem_of_getElem? found)
      obtain ⟨moves, known⟩ := callStep_section coherent.free fact own
      simp only [watchUnlock, found]
      exact ⟨coherent.move found moves known, count.step fact⟩

/-- As long as no raw file is written: what a call shows are the variables at the
moment it unlocks, as some change (or none yet) left them, `counter` and
`enabled` of `info` from the same one; each of these states is one increment or
one write of `enabled` after the one before; and the increments have logged
1, 2, 3 and so on, the last of which `counter` holds. -/
theorem locked_interfaces_untorn {acts : List Act} {s : System} {history : History}
    (locked : Meets step NoRaw System.initial acts)
    (reached : run (observed step watchUnlock) (System.initial, History.initial) acts =
      some (s, history)) :
    (∀ pc ∈ s.parties, ∀ result, pc = .unlock result →
      UnlockFact history.committed s.shared.data result) ∧
    (∀ pc ∈ s.parties, ∀ result, pc = .done result → DoneFact history.committed result) ∧
    history.committed.IsChain Change ∧
    history.logged = numbered history.logged.length ∧
    (s.shared.dataLock = false → s.shared.counter = UInt32.ofNat history.logged.length) := by
  have keep (p : System × History) (act : Act) (next : System × History)
      (here : Coherence p.1 p.2) (allowed : NoRaw p.1 act)
      (stepped : observed step watchUnlock p act = some next) : Coherence next.1 next.2 := by
    obtain ⟨own, recorded⟩ := observed_eq_some.mp stepped
    rw [recorded]
    exact here.step allowed own
  have here : Coherence s history :=
    invariant_meets (I := fun p => Coherence p.1 p.2) keep coherence_initial
      (meets_observed watchUnlock locked _) reached
  obtain ⟨coherent, logged, last⟩ := here
  refine ⟨?_, ?_, coherent.chain, logged, ?_⟩
  · rintro pc member result rfl
    exact coherent.facts _ member
  · rintro pc member result rfl
    exact coherent.facts _ member
  · intro free
    exact last _ (coherent.free free)

/-- Two increments around a read of `info`. -/
def watched : List Act :=
  [.call (.incrementStore (ascii "1\n")), .call (.infoRead 100 0 0), .call (.incrementStore []),
    .run 0, .run 0, .run 0, .run 0, .run 0, .run 1, .run 1, .run 1, .run 1, .run 2, .run 2,
    .run 2, .run 2, .run 2]

theorem locked_interfaces_untorn_watched :
    ∃ s history, run (observed step watchUnlock) (System.initial, History.initial) watched =
        some (s, history) ∧
      history.logged.length = 2 ∧ s.shared.counter = UInt32.ofNat history.logged.length :=
  have ran := run_get (observed step watchUnlock) (System.initial, History.initial) watched
    (by decide +kernel)
  ⟨_, _, ran, by decide +kernel,
    (locked_interfaces_untorn (by decide +kernel) ran).2.2.2.2 (by decide +kernel)⟩

end DebugfsSysfs
