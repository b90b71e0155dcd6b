import Mathlib.Data.List.Nodup
import Mathlib.Data.List.Perm.Basic
import KernelLabs.OpenRelease.Lifecycle

/-!
# The books of the open files

`Ledger` balances the log and the counters against the stages of the files,
after every step of every interleaving; the results read it off.  It needs no
bound on the number of opens: the balance of numbers is kept with the serials
as they wrap, and the numbers are distinct as long as they have not.
-/

set_option autoImplicit false

namespace OpenRelease

open Kernel PartyPool LabelledMachine OwnedHeap

def System.stages (s : System) : List Stage := s.contexts.map fun pair => stage pair.1 pair.2

/-- The records of the files between their OPEN and their RELEASE line. -/
def System.openRecords (s : System) : List Record := s.stages.filterMap Stage.liveRecord

def System.issuedIds (s : System) : List UInt64 := s.stages.filterMap Stage.issuedId

/-- How many opens have drawn a number. -/
def System.numbered (s : System) : Nat := s.stages.countP fun g => decide (g ≠ .early)

def System.counted (s : System) : Nat := s.contexts.countP fun pair => pair.1.isCounted

/-- The numbers `atomic64_inc_return` hands out first. -/
def serials (n : Nat) : List UInt64 := (List.range n).map fun m => UInt64.ofNat (m + 1)

def announcedIds (lines : List Line) : List UInt64 := (announced lines).map Record.id

structure Ledger (s : System) : Prop where
  owned : Owned File.address s.shared.heap s.parties
  fits : ∀ pair ∈ s.contexts, Fits pair.1 pair.2
  paired : ∀ record, (announced s.shared.log).count record =
    (reported s.shared.log).count record + s.openRecords.count record
  issued : ∀ id, (announcedIds s.shared.log).count id + s.issuedIds.count id =
    (serials s.numbered).count id
  number : s.shared.nextOpenId = UInt64.ofNat s.numbered
  active : s.shared.activeOpens = wrapInt s.counted
  ordered : ∀ front, front <+: s.shared.log → ∀ record,
    (reported front).count record ≤ (announced front).count record

/-! ## Small facts -/

theorem wrapInt_wrapInt_add (x y : Int) : wrapInt (wrapInt x + y) = wrapInt (x + y) := by
  simp only [wrapInt, Int.bmod_add_bmod]

theorem serials_succ (n : Nat) : serials (n + 1) = serials n ++ [UInt64.ofNat n + 1] := by
  simp only [serials, List.range_succ, List.map_append, List.map_cons, List.map_nil,
    UInt64.ofNat_add]
  rfl

theorem serials_nodup {n : Nat} (few : n < 2 ^ 64) : (serials n).Nodup := by
  refine (List.nodup_map_iff_inj_on List.nodup_range).mpr ?_
  intro x xIn y yIn same
  have xLow := List.mem_range.mp xIn
  have yLow := List.mem_range.mp yIn
  have values := congrArg UInt64.toNat same
  rw [UInt64.toNat_ofNat_of_lt' (by rw [UInt64.size]; omega),
    UInt64.toNat_ofNat_of_lt' (by rw [UInt64.size]; omega)] at values
  omega

theorem announced_append (lines : List Line) (line : Line) :
    announced (lines ++ [line]) = announced lines ++ line.openedRecord.toList := by
  rw [announced, List.filterMap_append, announced]
  cases opens : line.openedRecord <;> simp [opens]

theorem reported_append (lines : List Line) (line : Line) :
    reported (lines ++ [line]) = reported lines ++ line.releasedRecord.toList := by
  rw [reported, List.filterMap_append, reported]
  cases releases : line.releasedRecord <;> simp [releases]

/-- A log that stays balanced is balanced in every earlier state of it. -/
theorem ordered_append {lines : List Line} {line : Line}
    (ordered : ∀ front, front <+: lines → ∀ record,
      (reported front).count record ≤ (announced front).count record)
    (whole : ∀ record, (reported (lines ++ [line])).count record ≤
      (announced (lines ++ [line])).count record) :
    ∀ front, front <+: lines ++ [line] → ∀ record,
      (reported front).count record ≤ (announced front).count record := by
  intro front before
  rcases List.prefix_concat_iff.mp before with same | inside
  · rw [same]
    exact whole
  · exact ordered front inside

/-! ## What one effect does to the books -/

section Books
variable {s next : System} {i : Nat} {file moved : File} {before after : Option OpenContext}

theorem Moved.stages (move : Moved s next i file moved before after) :
    next.stages = s.stages.set i (stage moved after) := by
  rw [System.stages, move.contexts, List.map_set, System.stages]

theorem Moved.stage_found (move : Moved s next i file moved before after) :
    s.stages[i]? = some (stage file before) := by
  rw [System.stages, List.getElem?_map, move.was]
  rfl

theorem Moved.openRecords (move : Moved s next i file moved before after) (record : Record) :
    next.openRecords.count record +
        (if (stage file before).liveRecord = some record then 1 else 0) =
      s.openRecords.count record +
        (if (stage moved after).liveRecord = some record then 1 else 0) := by
  rw [System.openRecords, move.stages]
  exact count_filterMap_set_add Stage.liveRecord _ move.stage_found record

theorem Moved.issuedIds (move : Moved s next i file moved before after) (id : UInt64) :
    next.issuedIds.count id + (if (stage file before).issuedId = some id then 1 else 0) =
      s.issuedIds.count id + (if (stage moved after).issuedId = some id then 1 else 0) := by
  rw [System.issuedIds, move.stages]
  exact count_filterMap_set_add Stage.issuedId _ move.stage_found id

theorem Moved.numbered (move : Moved s next i file moved before after) :
    next.numbered + (if stage file before ≠ .early then 1 else 0) =
      s.numbered + (if stage moved after ≠ .early then 1 else 0) := by
  rw [System.numbered, move.stages, System.numbered]
  simpa only [decide_eq_true_eq] using
    countP_set_add (fun g => decide (g ≠ Stage.early)) (stage moved after) move.stage_found

theorem Moved.counted (move : Moved s next i file moved before after) :
    next.counted + (if file.isCounted then 1 else 0) =
      s.counted + (if moved.isCounted then 1 else 0) := by
  rw [System.counted, move.contexts, System.counted]
  exact countP_set_add (fun pair : File × Option OpenContext => pair.1.isCounted) (moved, after)
    move.was

/-- What does not change the stage changes none of the books of stages. -/
theorem Moved.same_stage (move : Moved s next i file moved before after)
    (kept : stage moved after = stage file before) :
    (∀ record, next.openRecords.count record = s.openRecords.count record) ∧
      (∀ id, next.issuedIds.count id = s.issuedIds.count id) ∧ next.numbered = s.numbered := by
  have records := move.openRecords
  have ids := move.issuedIds
  have numbered := move.numbered
  rw [kept] at records ids numbered
  exact ⟨fun record => Nat.add_right_cancel (records record),
    fun id => Nat.add_right_cancel (ids id), Nat.add_right_cancel numbered⟩

theorem Moved.same_count (move : Moved s next i file moved before after)
    (kept : moved.isCounted = file.isCounted) : next.counted = s.counted := by
  have counted := move.counted
  rw [kept] at counted
  exact Nat.add_right_cancel counted

theorem Ledger.fileStep (ledger : Ledger s) (move : Moved s next i file moved before after) :
    Ledger next := by
  have fits : ∀ pair ∈ next.contexts, Fits pair.1 pair.2 := by
    rw [move.contexts]
    exact forall_mem_set ledger.fits move.fits
  cases move.effect with
  | silent kept count number active quiet =>
      obtain ⟨records, ids, numbered⟩ := move.same_stage kept
      have counted := move.same_count count
      refine ⟨move.owned, fits, ?_, ?_, ?_, ?_, ?_⟩
      · intro record
        rw [quiet, records]
        exact ledger.paired record
      · intro id
        rw [quiet, ids, numbered]
        exact ledger.issued id
      · rw [number, numbered]
        exact ledger.number
      · rw [active, counted]
        exact ledger.active
      · rw [quiet]
        exact ledger.ordered
  | issue was is count number active quiet =>
      have records := move.openRecords
      have ids := move.issuedIds
      have numbered := move.numbered
      have counted := move.same_count count
      rw [was, is] at records ids numbered
      have more : next.numbered = s.numbered + 1 := by simpa using numbered
      refine ⟨move.owned, fits, ?_, ?_, ?_, ?_, ?_⟩
      · intro record
        have same : next.openRecords.count record = s.openRecords.count record := by
          simpa [Stage.liveRecord] using records record
        rw [quiet, same]
        exact ledger.paired record
      · intro id
        have drawn := ids id
        simp only [Stage.issuedId, reduceCtorEq, if_false, Option.some.injEq] at drawn
        have balanced := ledger.issued id
        rw [quiet, more, serials_succ, List.count_append, List.count_singleton]
        rw [ledger.number] at drawn
        simp only [beq_iff_eq]
        omega
      · rw [number, more, ledger.number, UInt64.ofNat_add]
        rfl
      · rw [active, counted]
        exact ledger.active
      · rw [quiet]
        exact ledger.ordered
  | count kept was is number active quiet =>
      obtain ⟨records, ids, numbered⟩ := move.same_stage kept
      have counted := move.counted
      rw [was, is] at counted
      have more : next.counted = s.counted + 1 := by simpa using counted
      refine ⟨move.owned, fits, ?_, ?_, ?_, ?_, ?_⟩
      · intro record
        rw [quiet, records]
        exact ledger.paired record
      · intro id
        rw [quiet, ids, numbered]
        exact ledger.issued id
      · rw [number, numbered]
        exact ledger.number
      · rw [active, ledger.active, more, wrapInt_wrapInt_add]
        rfl
      · rw [quiet]
        exact ledger.ordered
  | announce record line was is count number active logged opens only =>
      have records := move.openRecords
      have ids := move.issuedIds
      have numbered := move.numbered
      have counted := move.same_count count
      rw [was, is] at records ids numbered
      have same : next.numbered = s.numbered := by simpa using numbered
      have paired : ∀ r, (announced next.shared.log).count r =
          (reported next.shared.log).count r + next.openRecords.count r := by
        intro r
        have balanced := ledger.paired r
        have entered := records r
        simp only [Stage.liveRecord, reduceCtorEq, if_false, Option.some.injEq] at entered
        rw [logged, announced_append, reported_append, opens, only]
        simp only [Option.toList, List.count_append, List.count_singleton, List.count_nil,
          beq_iff_eq]
        omega
      refine ⟨move.owned, fits, paired, ?_, ?_, ?_, ?_⟩
      · intro id
        have balanced := ledger.issued id
        have drawn := ids id
        simp only [Stage.issuedId, reduceCtorEq, if_false, Option.some.injEq] at drawn
        rw [announcedIds, logged, announced_append, opens, same]
        simp only [Option.toList, List.map_append, List.map_cons, List.map_nil,
          List.count_append, List.count_singleton, beq_iff_eq]
        rw [announcedIds] at balanced
        omega
      · rw [number, same]
        exact ledger.number
      · rw [active, counted]
        exact ledger.active
      · rw [logged] at paired ⊢
        exact ordered_append ledger.ordered fun r => by rw [paired r]; omega
  | uncount kept was is number active quiet =>
      obtain ⟨records, ids, numbered⟩ := move.same_stage kept
      have counted := move.counted
      rw [was, is] at counted
      have fewer : (next.counted : Int) = s.counted - 1 := by
        simp only [if_true, Bool.false_eq_true, if_false] at counted
        omega
      refine ⟨move.owned, fits, ?_, ?_, ?_, ?_, ?_⟩
      · intro record
        rw [quiet, records]
        exact ledger.paired record
      · intro id
        rw [quiet, ids, numbered]
        exact ledger.issued id
      · rw [number, numbered]
        exact ledger.number
      · rw [active, ledger.active, fewer, Int.sub_eq_add_neg, wrapInt_wrapInt_add,
          Int.sub_eq_add_neg]
      · rw [quiet]
        exact ledger.ordered
  | report record line was is count number active logged releases only =>
      have records := move.openRecords
      have ids := move.issuedIds
      have numbered := move.numbered
      have counted := move.same_count count
      rw [was, is] at records ids numbered
      have same : next.numbered = s.numbered := by simpa using numbered
      have paired : ∀ r, (announced next.shared.log).count r =
          (reported next.shared.log).count r + next.openRecords.count r := by
        intro r
        have balanced := ledger.paired r
        have left := records r
        simp only [Stage.liveRecord, reduceCtorEq, if_false, Option.some.injEq] at left
        rw [logged, announced_append, reported_append, releases, only]
        simp only [Option.toList, List.count_append, List.count_singleton, List.count_nil,
          beq_iff_eq]
        omega
      refine ⟨move.owned, fits, paired, ?_, ?_, ?_, ?_⟩
      · intro id
        have balanced := ledger.issued id
        have kept : next.issuedIds.count id = s.issuedIds.count id := by
          simpa [Stage.issuedId] using ids id
        rw [announcedIds, logged, announced_append, only, same, kept, Option.toList,
          List.append_nil]
        exact balanced
      · rw [number, same]
        exact ledger.number
      · rw [active, counted]
        exact ledger.active
      · rw [logged] at paired ⊢
        exact ordered_append ledger.ordered fun r => by rw [paired r]; omega

end Books

theorem Ledger.openFile {s next : System} (ledger : Ledger s) {file : File}
    (phase : file.phase = .opening) (task : isTask file.current = true)
    (spawned : next = s.spawn file) : Ledger next := by
  have pointer : file.address = none := by simp [File.address, phase]
  have grown : next.contexts = s.contexts ++ [(file, none)] := by
    simp [spawned, System.contexts, Pool.spawn, OwnedHeap.contexts, pointer]
  have staged : next.stages = s.stages ++ [.early] := by
    rw [System.stages, grown, List.map_append, System.stages]
    simp [stage, phase]
  have records : next.openRecords = s.openRecords := by
    rw [System.openRecords, staged, List.filterMap_append, System.openRecords]
    exact List.append_nil _
  have ids : next.issuedIds = s.issuedIds := by
    rw [System.issuedIds, staged, List.filterMap_append, System.issuedIds]
    exact List.append_nil _
  have numbered : next.numbered = s.numbered := by
    rw [System.numbered, staged, List.countP_append, System.numbered]
    rfl
  have counted : next.counted = s.counted := by
    rw [System.counted, grown, List.countP_append, System.counted]
    simp [File.isCounted, phase]
  have shared : next.shared = s.shared := by rw [spawned, Pool.spawn]
  refine ⟨?_, ?_, ?_, ?_, ?_, ?_, ?_⟩
  · rw [spawned]
    exact ledger.owned.spawn file pointer
  · rw [grown]
    refine forall_mem_spawn ledger.fits ⟨task, ?_⟩
    simp only [phase]
  · rw [records, shared]
    exact ledger.paired
  · rw [ids, numbered, shared]
    exact ledger.issued
  · rw [numbered, shared]
    exact ledger.number
  · rw [counted, shared]
    exact ledger.active
  · rw [shared]
    exact ledger.ordered

/-! ## Every reachable state -/

structure Sound (s : System) : Prop where
  ledger : Ledger s
  pointed : Line.withoutPrivateData ∉ s.shared.log
  down : s.shared.up = false → ∀ file ∈ s.parties, file.gone = true
  exits : ∀ active total, Line.exit active total ∈ s.shared.log →
    s.shared.up = false ∧ active = 0 ∧
      total = UInt64.ofNat (announced s.shared.log).length

theorem sound_initial : Sound System.initial := by
  refine ⟨⟨owned_nil _, nofun, ?_, ?_, by decide, by decide, ?_⟩, nofun, nofun, nofun⟩
  · exact fun _ => rfl
  · exact fun _ => rfl
  · intro front before record
    rw [List.prefix_nil.mp before]
    exact Nat.le_refl _

theorem gone_phase {file : File} (gone : file.gone = true) :
    file.phase = .failed ∨ file.phase = .closed := by
  simpa [File.gone] using gone

theorem fileStep_of_gone {file : File} (gone : file.gone = true) (i : Nat) (input : Input)
    (g : Globals) : fileStep i input g file = none := by
  rcases gone_phase gone with phase | phase <;> cases input <;> simp [fileStep, myRelease, phase]

/-- With every file gone the books are those of the log alone. -/
theorem Ledger.all_gone {s : System} (ledger : Ledger s)
    (gone : ∀ file ∈ s.parties, file.gone = true) :
    s.openRecords = [] ∧ s.issuedIds = [] ∧ s.counted = 0 ∧
      ∀ a, load s.shared.heap a = none := by
  have each : ∀ pair ∈ s.contexts, pair.1.phase = .failed ∨ pair.1.phase = .closed := by
    intro pair member
    obtain ⟨file, here, rfl⟩ := List.mem_map.mp member
    exact gone_phase (gone file here)
  refine ⟨?_, ?_, ?_, ?_⟩
  · refine List.filterMap_eq_nil_iff.mpr fun g member => ?_
    obtain ⟨pair, here, rfl⟩ := List.mem_map.mp member
    rcases each pair here with phase | phase <;> simp [stage, phase, Stage.liveRecord]
  · refine List.filterMap_eq_nil_iff.mpr fun g member => ?_
    obtain ⟨pair, here, rfl⟩ := List.mem_map.mp member
    rcases each pair here with phase | phase <;> simp [stage, phase, Stage.issuedId]
  · refine List.countP_eq_zero.mpr fun pair here => ?_
    rcases each pair here with phase | phase <;> simp [File.isCounted, phase]
  · refine ledger.owned.nothing_left fun file here => ?_
    rcases gone_phase (gone file here) with phase | phase <;> simp [File.address, phase]

theorem Ledger.announced_length {s : System} (ledger : Ledger s) (unissued : s.issuedIds = []) :
    (announced s.shared.log).length = s.numbered := by
  have same : (announcedIds s.shared.log).Perm (serials s.numbered) := by
    refine List.perm_iff_count.mpr fun id => ?_
    have balanced := ledger.issued id
    rw [unissued] at balanced
    exact balanced
  have lengths := same.length_eq
  simpa [announcedIds, serials] using lengths

/-- Only the lines of `my_open` and `my_release` are written by them. -/
theorem Effect.log_mem {g next : Globals} {file moved : File} {before after : Stage}
    (effect : Effect g next file moved before after) {line : Line} (member : line ∈ next.log) :
    line ∈ g.log ∨ line.openedRecord.isSome ∨ line.releasedRecord.isSome := by
  cases effect with
  | silent _ _ _ _ quiet | issue _ _ _ _ _ quiet | count _ _ _ _ _ quiet
  | uncount _ _ _ _ _ quiet =>
      rw [quiet] at member
      exact Or.inl member
  | announce record added _ _ _ _ _ logged opens _ =>
      rw [logged, List.mem_append, List.mem_singleton] at member
      rcases member with old | rfl
      · exact Or.inl old
      · exact Or.inr (Or.inl (by rw [opens]; rfl))
  | report record added _ _ _ _ _ logged releases _ =>
      rw [logged, List.mem_append, List.mem_singleton] at member
      rcases member with old | rfl
      · exact Or.inl old
      · exact Or.inr (Or.inr (by rw [releases]; rfl))

theorem Sound.step {s next : System} {act : Act} (sound : Sound s)
    (stepped : OpenRelease.step s act = some next) : Sound next := by
  obtain ⟨ledger, pointed, down, exits⟩ := sound
  cases act with
  | openFile current minor flags mode =>
      simp only [OpenRelease.step] at stepped
      split at stepped
      · rename_i may
        cases Option.some.inj stepped
        rw [Bool.and_eq_true] at may
        refine ⟨ledger.openFile rfl may.2 rfl, pointed, ?_, exits⟩
        intro isDown
        exact absurd (may.1.symm.trans isDown) (by decide)
      · contradiction
  | file i input =>
      obtain ⟨file, g, moved, found, ran, rfl⟩ := Pool.act_eq_some stepped
      have up : s.shared.up = true := by
        cases here : s.shared.up with
        | true => rfl
        | false =>
            rw [fileStep_of_gone (down here file (List.mem_of_getElem? found))] at ran
            contradiction
      obtain ⟨before, after, move⟩ := fileStep_moved ledger.owned found ledger.fits ran
      refine ⟨ledger.fileStep move, ?_, ?_, ?_⟩
      · intro member
        rcases move.effect.log_mem member with old | opens | releases
        · exact pointed old
        · exact absurd opens (by decide)
        · exact absurd releases (by decide)
      · intro isDown
        exact absurd ((move.up.trans up).symm.trans isDown) (by decide)
      · intro active total member
        rcases move.effect.log_mem member with old | opens | releases
        · exact absurd (up.symm.trans (exits active total old).1) (by decide)
        · exact absurd opens (by simp [Line.openedRecord])
        · exact absurd releases (by simp [Line.releasedRecord])
  | passes ns =>
      cases Option.some.inj stepped
      exact ⟨⟨ledger.owned, ledger.fits, ledger.paired, ledger.issued, ledger.number,
        ledger.active, ledger.ordered⟩, pointed, down, exits⟩
  | exit =>
      simp only [OpenRelease.step] at stepped
      split at stepped
      · rename_i may
        cases Option.some.inj stepped
        rw [Bool.and_eq_true, List.all_eq_true] at may
        obtain ⟨up, gone⟩ := may
        obtain ⟨records, ids, counted, _⟩ := ledger.all_gone gone
        have silent (lines : List Line) (active : Int) (total : UInt64) :
            announced (lines ++ [.exit active total]) = announced lines ∧
              reported (lines ++ [.exit active total]) = reported lines := by
          constructor
          · rw [announced_append]
            exact List.append_nil _
          · rw [reported_append]
            exact List.append_nil _
        have lines := silent s.shared.log s.shared.activeOpens s.shared.nextOpenId
        refine ⟨⟨ledger.owned, ledger.fits, ?_, ?_, ledger.number, ledger.active, ?_⟩, ?_, ?_, ?_⟩
        · intro record
          simp only [log, lines]
          exact ledger.paired record
        · intro id
          simp only [log, announcedIds, lines]
          exact ledger.issued id
        · refine ordered_append ledger.ordered fun record => ?_
          rw [lines.1, lines.2, ledger.paired record]
          omega
        · intro member
          rcases List.mem_append.mp member with old | new
          · exact pointed old
          · exact absurd (List.mem_singleton.mp new) (by simp)
        · exact fun _ => gone
        · intro active total member
          refine ⟨rfl, ?_⟩
          rcases List.mem_append.mp member with old | new
          · exact absurd (up.symm.trans (exits active total old).1) (by decide)
          · obtain ⟨rfl, rfl⟩ := Line.exit.inj (List.mem_singleton.mp new)
            simp only [log, lines]
            rw [ledger.active, counted, ledger.number, ledger.announced_length ids]
            exact ⟨rfl, rfl⟩
      · contradiction

theorem sound_reached {s : System} {acts : List Act}
    (reached : run OpenRelease.step System.initial acts = some s) : Sound s :=
  invariant_run (fun _ _ _ sound stepped => sound.step stepped) sound_initial reached

/-- At any moment the OPEN lines are the RELEASE lines and the files still
open, each with its number, its minor and its opener; no release comes before
its open.  No callback meets a freed context or a missing one. -/
theorem releases_pair_with_opens {s : System} {acts : List Act}
    (reached : run step System.initial acts = some s) :
    (announced s.shared.log).Perm (reported s.shared.log ++ s.openRecords) ∧
      (∀ front, front <+: s.shared.log → ∀ record,
        (reported front).count record ≤ (announced front).count record) ∧
      Line.withoutPrivateData ∉ s.shared.log ∧ ∀ file ∈ s.parties, file.phase ≠ .crashed := by
  have sound := sound_reached reached
  refine ⟨?_, sound.ledger.ordered, sound.pointed, ?_⟩
  · refine List.perm_iff_count.mpr fun record => ?_
    rw [List.count_append]
    exact sound.ledger.paired record
  · intro file member crashed
    have fits := sound.ledger.fits _ (List.mem_map_of_mem member)
    simp only [Fits, crashed, and_false] at fits

/-- Two processes open at once; one duplicates its descriptor. -/
def twoOpens : List Act :=
  [.openFile ⟨ascii "cat", 41⟩ 0 0 1, .openFile ⟨ascii "sh", 42⟩ 7 1 2, .passes 5,
    .file 0 (.kzalloc true), .file 1 (.kzalloc true), .file 1 .run, .file 0 .run, .file 0 .run,
    .file 0 .run, .file 0 .run, .file 0 .dup, .file 1 .run, .file 1 .run, .file 1 .run,
    .file 0 (.close ⟨ascii "cat", 41⟩), .file 1 (.close ⟨ascii "sh", 42⟩), .file 1 .run,
    .file 1 .run, .file 1 .run]

theorem releases_pair_with_opens_two : ∃ s, run step System.initial twoOpens = some s ∧
    (announced s.shared.log).Perm
      ([⟨1, 7, ascii "sh", 42⟩] ++ [⟨2, 0, ascii "cat", 41⟩]) := by
  have ran := run_get step System.initial twoOpens (by decide +kernel)
  exact ⟨_, ran, (releases_pair_with_opens ran).1⟩

theorem parties_length_le {s : System} {acts : List Act}
    (reached : run step System.initial acts = some s) : s.parties.length ≤ acts.length := by
  have start : System.initial.parties.length ≤ ([] : List Act).length := Nat.le_refl _
  refine history_run (I := fun past s => s.parties.length ≤ past.length) ?_ start reached
  intro past s act next small stepped
  rw [List.length_append, List.length_singleton]
  cases act with
  | openFile current minor flags mode =>
      simp only [step] at stepped
      split at stepped
      · cases Option.some.inj stepped
        simp only [Pool.spawn, List.length_append, List.length_singleton]
        omega
      · contradiction
  | file i input =>
      obtain ⟨file, g, moved, _, _, rfl⟩ := Pool.act_eq_some stepped
      rw [List.length_set]
      omega
  | passes ns =>
      cases Option.some.inj stepped
      exact small.trans (Nat.le_succ _)
  | exit =>
      simp only [step] at stepped
      split at stepped
      · cases Option.some.inj stepped
        exact small.trans (Nat.le_succ _)
      · contradiction

theorem serials_ne_zero {n : Nat} (few : n < 2 ^ 64) : 0 ∉ serials n := by
  intro member
  obtain ⟨m, low, wrapped⟩ := List.mem_map.mp member
  have values := congrArg UInt64.toNat wrapped
  have inside := List.mem_range.mp low
  rw [UInt64.toNat_ofNat_of_lt' (by rw [UInt64.size]; omega)] at values
  simp at values

/-- Until the counter wraps no two opens are logged under one number, none
under 0, and no release under the number of a file that is still open, however
many of its descriptors have been closed. -/
theorem open_ids_unique {s : System} {acts : List Act}
    (reached : run step System.initial acts = some s) (few : acts.length < 2 ^ 64) :
    (announcedIds s.shared.log).Nodup ∧ 0 ∉ announcedIds s.shared.log ∧
      ∀ record ∈ s.openRecords, record.id ∈ announcedIds s.shared.log ∧
        record.id ∉ (reported s.shared.log).map Record.id := by
  have ledger := (sound_reached reached).ledger
  have bound : s.numbered < 2 ^ 64 := by
    have stages : s.numbered ≤ s.stages.length := List.countP_le_length
    have parties := parties_length_le reached
    have lengths : s.stages.length = s.parties.length := by
      simp [System.stages, System.contexts, OwnedHeap.contexts]
    omega
  have drawn (id : UInt64) :
      (announcedIds s.shared.log).count id ≤ (serials s.numbered).count id := by
    have balanced := ledger.issued id
    omega
  have unique : (announcedIds s.shared.log).Nodup := by
    refine List.nodup_iff_count_le_one.mpr fun id => (drawn id).trans ?_
    exact List.nodup_iff_count_le_one.mp (serials_nodup bound) id
  have nonzero : 0 ∉ announcedIds s.shared.log := by
    intro member
    have positive := List.count_pos_iff.mpr member
    exact serials_ne_zero bound (List.count_pos_iff.mp (positive.trans_le (drawn 0)))
  have pairs := (releases_pair_with_opens reached).1.map Record.id
  rw [List.map_append] at pairs
  refine ⟨unique, nonzero, ?_⟩
  intro record here
  have own := List.mem_map_of_mem (f := Record.id) here
  refine ⟨pairs.mem_iff.mpr (List.mem_append_right _ own), ?_⟩
  have apart := List.nodup_append.mp (pairs.nodup_iff.mp unique)
  exact fun released => apart.2.2 _ released _ own rfl

/-- The run above: the file with two descriptors is down to one of them. -/
theorem open_ids_unique_two : ∃ s, run step System.initial twoOpens = some s ∧
    2 ∉ (reported s.shared.log).map Record.id := by
  have ran := run_get step System.initial twoOpens (by decide +kernel)
  have unique := open_ids_unique ran (by decide)
  exact ⟨_, ran, (unique.2.2 ⟨2, 0, ascii "cat", 41⟩ (by decide +kernel)).2⟩

/-- What `open_release_cdev_exit` prints: no file is open, and the number of
opens is that of the OPEN lines.  By then each of them has its RELEASE line and
no context is left in memory. -/
theorem exit_report_exact {s : System} {acts : List Act}
    (reached : run step System.initial acts = some s) (active : Int) (total : UInt64)
    (printed : Line.exit active total ∈ s.shared.log) :
    active = 0 ∧ total = UInt64.ofNat (announced s.shared.log).length ∧
      (announced s.shared.log).Perm (reported s.shared.log) ∧
      ∀ a, load s.shared.heap a = none := by
  have sound := sound_reached reached
  obtain ⟨down, noneActive, counted⟩ := sound.exits active total printed
  obtain ⟨records, _, _, freed⟩ := sound.ledger.all_gone (sound.down down)
  have pairs := (releases_pair_with_opens reached).1
  rw [records, List.append_nil] at pairs
  exact ⟨noneActive, counted, pairs, freed⟩

/-- `run_dup_test`, beside an open that finds no memory. -/
theorem exit_report_exact_dup : ∃ s,
    run step System.initial
      [.openFile ⟨ascii "test", 9⟩ 0 0 1, .file 0 (.kzalloc true), .file 0 .run, .file 0 .run,
        .file 0 .run, .file 0 .run, .file 0 .dup, .openFile ⟨ascii "cat", 10⟩ 0 0 1,
        .file 1 (.kzalloc false), .file 0 (.close ⟨ascii "test", 9⟩), .passes 1000000000,
        .file 0 (.close ⟨ascii "test", 9⟩), .file 0 .run, .file 0 .run, .file 0 .run,
        .file 0 .run, .file 0 .run, .exit] = some s ∧
      (announced s.shared.log).Perm (reported s.shared.log) := by
  have ran := run_get step System.initial
    [.openFile ⟨ascii "test", 9⟩ 0 0 1, .file 0 (.kzalloc true), .file 0 .run, .file 0 .run,
      .file 0 .run, .file 0 .run, .file 0 .dup, .openFile ⟨ascii "cat", 10⟩ 0 0 1,
      .file 1 (.kzalloc false), .file 0 (.close ⟨ascii "test", 9⟩), .passes 1000000000,
      .file 0 (.close ⟨ascii "test", 9⟩), .file 0 .run, .file 0 .run, .file 0 .run,
      .file 0 .run, .file 0 .run, .exit] (by decide +kernel)
  exact ⟨_, ran, (exit_report_exact ran 0 1 (by decide +kernel)).2.2.1⟩

end OpenRelease
