import KernelLabs.GpioCtrl.Sections
import KernelLabs.Lib.Observer

/-!
# Counting the changes of the button

`gpioctrl_sample_once` reads the button before it takes the lock.  An observer
records what the driver cannot know: how often the button changed since init
read it, which reading each sample in flight carries, and which committed
reading is the latest.  Samples that commit in the order of their readings count
at most the real changes; one that commits after a later reading and differs
from the stored value counts a change that was none.
-/

set_option autoImplicit false

namespace GpioCtrl

open Kernel LabelledMachine PartyPool

/-- A successful read of the button: its value, and how often the button had
changed by then. -/
structure Reading where
  value : Int
  toggles : Nat
  deriving DecidableEq, Repr

/-- Whoever runs `gpioctrl_sample_once`. -/
inductive Sampler where
  | call (i : Nat)
  | work
  deriving DecidableEq, Repr

/-- Where a sampler stands in `gpioctrl_sample_once`. -/
inductive SamplePc where
  | outside
  | read
  | commit (value : Int)
  deriving DecidableEq, Repr

def Call.samplePc (call : Call) : SamplePc :=
  match call.pc with
  | .sampleRead _ => .read
  | .sampleCommit _ value => .commit value
  | _ => .outside

def WorkPc.samplePc : WorkPc → SamplePc
  | .sampleRead _ => .read
  | .sampleCommit _ value => .commit value
  | _ => .outside

def System.samplePc (s : System) : Sampler → SamplePc
  | .call i => (s.parties[i]?.map Call.samplePc).getD .outside
  | .work => s.shared.work.samplePc

def Act.sampler : Act → Option Sampler
  | .call i => some (.call i)
  | .work => some .work
  | _ => none

/-- What the observer knows. -/
structure ButtonHistory where
  level : Int
  toggles : Nat
  readings : List Reading
  -- The place in `readings` of the sample a sampler carries.
  carried : Sampler → Nat
  -- The place of the latest reading that was committed.
  newest : Nat

/-- Init has read the button and stored the value. -/
def ButtonHistory.initial (buttonValue : Int) : ButtonHistory :=
  ⟨buttonValue, 0, [⟨buttonValue, 0⟩], fun _ => 0, 0⟩

def ButtonHistory.see (h : ButtonHistory) (value : Int) : ButtonHistory :=
  if 0 ≤ value ∧ value ≠ h.level then { h with level := value, toggles := h.toggles + 1 } else h

def ButtonHistory.read (h : ButtonHistory) (who : Sampler) (value : Int) : ButtonHistory :=
  { h with
    readings := h.readings ++ [⟨value, h.toggles⟩]
    carried := fun other => if other = who then h.readings.length else h.carried other }

def ButtonHistory.commit (h : ButtonHistory) (who : Sampler) : ButtonHistory :=
  { h with newest := max h.newest (h.carried who) }

def watchSampler (s : System) (h : ButtonHistory) (who : Sampler) : ButtonHistory :=
  match s.samplePc who with
  | .outside => h
  | .read => if readButton s.shared < 0 then h else h.read who (readButton s.shared)
  | .commit _ => h.commit who

def watch (s : System) (h : ButtonHistory) (act : Act) : ButtonHistory :=
  match act with
  | .line value => h.see value
  | _ =>
    match act.sampler with
    | none => h
    | some who => watchSampler s h who

/-- The reading the step commits, by its place, and its value. -/
def committing (s : System) (h : ButtonHistory) (act : Act) : Option (Nat × Int) :=
  match act.sampler with
  | none => none
  | some who =>
    match s.samplePc who with
    | .commit value => some (h.carried who, value)
    | _ => none

/-- As long as the state exists: no more changes are counted than the button
made, and the stored value is that of the latest committed reading. -/
def CountsTrue (p : System × ButtonHistory) : Prop :=
  ∀ st ∈ p.1.shared.state, st.changes.toNat ≤ p.2.toggles ∧
    p.2.readings[p.2.newest]?.map Reading.value = some st.button

/-- A commit is of a later reading than every one committed before, or of the
value that is stored already. -/
def InOrder (p : System × ButtonHistory) (act : Act) : Prop :=
  ∀ c ∈ committing p.1 p.2 act, ∀ st ∈ p.1.shared.state, p.2.newest < c.1 ∨ c.2 = st.button

instance (p : System × ButtonHistory) : Decidable (CountsTrue p) :=
  inferInstanceAs (Decidable (∀ st ∈ p.1.shared.state, _ ∧ _))

instance (p : System × ButtonHistory) (act : Act) : Decidable (InOrder p act) :=
  inferInstanceAs (Decidable (∀ c ∈ committing p.1 p.2 act, ∀ st ∈ p.1.shared.state, _ ∨ _))

/-! ## What a step can do to the samples and to the count -/

theorem enter_samplePc (origin : Origin) (caller : Identity) (count : Nat)
    (result : Except Errno Command) (value : Int) :
    Call.samplePc ⟨origin, caller, count, enter result⟩ ≠ .commit value := by
  cases result with
  | error e => nofun
  | ok command => cases command <;> nofun

theorem callStep_samplePc {i : Nat} {shared next : Shared} {call moved : Call} {value : Int}
    (stepped : callStep i () shared call = some (next, moved))
    (commits : moved.samplePc = .commit value) :
    call.samplePc = .read ∧ value = readButton shared ∧ ¬ readButton shared < 0 := by
  obtain ⟨origin, caller, count, pc⟩ := call
  cases pc with
  | sampleRead report =>
      simp only [callStep] at stepped
      split at stepped
      · cases stepped
        contradiction
      · rename_i reads
        cases stepped
        exact ⟨rfl, (SamplePc.commit.inj commits).symm, reads⟩
  | pollStore value | invertStore value | sampleCommit report value | resetStats =>
      simp only [callStep] at stepped
      split at stepped <;> cases stepped <;> contradiction
  | pollArm value =>
      cases stepped
      contradiction
  | done ret | crashed => contradiction

theorem workStep_samplePc {shared next : Shared} {value : Int}
    (stepped : workStep shared = some next) (commits : next.work.samplePc = .commit value) :
    shared.work.samplePc = .read ∧ value = readButton shared ∧ ¬ readButton shared < 0 := by
  cases pc : shared.work with
  | sampleRead kworker =>
      simp only [workStep, pc] at stepped
      cases stepped
      by_cases failed : readButton shared < 0
      · simp only [failed, if_true] at commits
        contradiction
      · simp only [failed, if_false] at commits
        exact ⟨rfl, (SamplePc.commit.inj commits).symm, failed⟩
  | sampleCommit kworker value | getPollMs =>
      simp only [workStep, pc] at stepped
      split at stepped <;> cases stepped <;> contradiction
  | schedule delay =>
      simp only [workStep, pc] at stepped
      cases stepped
      contradiction
  | idle | crashed =>
      simp only [workStep, pc] at stepped
      contradiction

theorem samplePc_set {s : System} {i : Nat} {call : Call} (next : Shared) (moved : Call)
    (found : s.parties[i]? = some call) (who : Sampler) :
    System.samplePc ⟨next, s.parties.set i moved⟩ who =
      if who = .call i then moved.samplePc else
        match who with
        | .call _ => s.samplePc who
        | .work => next.work.samplePc := by
  obtain ⟨bound, _⟩ := List.getElem?_eq_some_iff.mp found
  cases who with
  | work => rfl
  | call j =>
      by_cases own : j = i
      · subst own
        simp [System.samplePc, List.getElem?_set_self bound]
      · simp [System.samplePc, own, List.getElem?_set_ne (Ne.symm own)]

theorem samplePc_spawn {s : System} {call : Call} {who : Sampler} {value : Int}
    (quiet : call.samplePc ≠ .commit value)
    (commits : System.samplePc (s.spawn call) who = .commit value) :
    s.samplePc who = .commit value := by
  cases who with
  | work => exact commits
  | call j =>
      simp only [System.samplePc, Pool.spawn] at commits ⊢
      cases found : (s.parties ++ [call])[j]? with
      | none =>
          rw [found] at commits
          contradiction
      | some other =>
          rw [found] at commits
          rcases getElem?_spawn_cases found with old | ⟨_, rfl⟩
          · rw [old]
            exact commits
          · exact absurd commits quiet

/-- A sample about to commit has just been read, or was about to commit before
and its sampler did not move. -/
theorem step_samplePc {s next : System} {act : Act} {who : Sampler} {value : Int}
    (stepped : step s act = some next) (commits : next.samplePc who = .commit value) :
    (act.sampler = some who ∧ s.samplePc who = .read ∧ value = readButton s.shared ∧
        ¬ readButton s.shared < 0) ∨
      (act.sampler ≠ some who ∧ s.samplePc who = .commit value) := by
  cases act with
  | line value =>
      cases stepped
      exact Or.inr ⟨nofun, by cases who <;> exact commits⟩
  | writeAttr attr caller buf | writeDev caller data missing =>
      obtain ⟨_, _, _, _, rfl⟩ := step_writes rfl stepped
      exact Or.inr ⟨nofun, samplePc_spawn (enter_samplePc _ _ _ _ _) commits⟩
  | call i =>
      obtain ⟨call, shared, moved, found, own, rfl⟩ := Pool.act_eq_some stepped
      rw [samplePc_set shared moved found] at commits
      by_cases same : who = .call i
      · subst same
        rw [if_pos rfl] at commits
        have read := callStep_samplePc own commits
        exact Or.inl ⟨rfl, by simpa [System.samplePc, found] using read.1, read.2⟩
      · rw [if_neg same] at commits
        refine Or.inr ⟨fun moves => same (Option.some.inj moves).symm, ?_⟩
        cases who with
        | call j => exact commits
        | work => rwa [(callStep_frame own).2] at commits
  | workStart kworker =>
      obtain ⟨shared, started, rfl⟩ := Option.map_eq_some_iff.mp stepped
      obtain ⟨_, _, rfl⟩ := workStart_cases started
      refine Or.inr ⟨nofun, ?_⟩
      cases who with
      | call j => exact commits
      | work => contradiction
  | work =>
      obtain ⟨shared, worked, rfl⟩ := Option.map_eq_some_iff.mp stepped
      cases who with
      | call j => exact Or.inr ⟨nofun, commits⟩
      | work => exact Or.inl ⟨rfl, workStep_samplePc worked commits⟩
  | initSchedule =>
      obtain ⟨shared, scheduled, rfl⟩ := Option.map_eq_some_iff.mp stepped
      refine Or.inr ⟨nofun, ?_⟩
      rcases initSchedule_cases scheduled with ⟨st, _, _, rfl⟩ | ⟨delay, _, rfl⟩
      · cases who <;> exact commits
      · cases who with
        | call j => exact commits
        | work => simpa [System.samplePc, scheduleDelayedWork_keeps] using commits
  | exit =>
      obtain ⟨shared, exited, rfl⟩ := Option.map_eq_some_iff.mp stepped
      refine Or.inr ⟨nofun, ?_⟩
      cases who with
      | call j => exact commits
      | work => simpa [System.samplePc, (exitStep_effect exited).work] using commits

/-- What a step does to the stored button and the count of changes: it commits a
sample, or changes neither, resets apart. -/
inductive CountEffect (s : System) (act : Act) (st after : GpioctrlState) : Prop where
  | commits (who : Sampler) (value : Int) (caller : Identity) (sampler : act.sampler = some who)
      (pc : s.samplePc who = .commit value) (effect : after = (sampleSection st caller value).1)
  | keeps (quiet : ∀ who value, act.sampler = some who → s.samplePc who ≠ .commit value)
      (button : after.button = st.button) (changes : after.changes.toNat ≤ st.changes.toNat)

theorem counterSection_sampler {s : System} {act : Act} {caller : Identity} {value : Int}
    (found : counterSection s act = some (.sample caller value)) :
    ∃ who, act.sampler = some who ∧ s.samplePc who = .commit value := by
  cases act with
  | call i =>
      obtain ⟨⟨origin, own, count, pc⟩, party, commits⟩ := Option.bind_eq_some_iff.mp found
      refine ⟨.call i, rfl, ?_⟩
      cases pc with
      | sampleCommit report carried =>
          cases commits
          simp [System.samplePc, party, Call.samplePc]
      | _ => cases commits
  | work =>
      refine ⟨.work, rfl, ?_⟩
      simp only [counterSection] at found
      cases pc : s.shared.work with
      | sampleCommit kworker carried =>
          rw [pc] at found
          cases found
          simp [System.samplePc, pc, WorkPc.samplePc]
      | _ =>
          rw [pc] at found
          contradiction
  | _ => contradiction

theorem counterSection_commit {s : System} {act : Act} {who : Sampler} {value : Int}
    (moves : act.sampler = some who) (commits : s.samplePc who = .commit value) :
    ∃ caller, counterSection s act = some (.sample caller value) := by
  cases act with
  | call i =>
      cases Option.some.inj moves
      cases party : s.parties[i]? with
      | none => simp [System.samplePc, party] at commits
      | some call =>
          obtain ⟨origin, caller, count, pc⟩ := call
          refine ⟨caller, ?_⟩
          cases pc <;> simp [System.samplePc, party, Call.samplePc] at commits
          simp [counterSection, party, Call.counterSection, commits]
  | work =>
      cases Option.some.inj moves
      cases pc : s.shared.work <;> simp [System.samplePc, pc, WorkPc.samplePc] at commits
      exact ⟨_, by simp [counterSection, pc, WorkPc.counterSection, commits]; rfl⟩
  | _ => contradiction

theorem step_count {s next : System} {act : Act} {after : GpioctrlState}
    (stepped : step s act = some next) (heldNext : next.shared.state = some after) :
    ∃ st, s.shared.state = some st ∧ CountEffect s act st after := by
  obtain ⟨st, held, effect⟩ := step_section stepped heldNext
  have quiet (other : ∀ caller value, counterSection s act ≠ some (.sample caller value)) :
      ∀ who value, act.sampler = some who → s.samplePc who ≠ .commit value := by
    intro who value moves commits
    obtain ⟨caller, found⟩ := counterSection_commit moves commits
    exact other caller value found
  refine ⟨st, held, ?_⟩
  cases effect with
  | ran own found effect line =>
      cases own with
      | sample caller value =>
          obtain ⟨who, moves, commits⟩ := counterSection_sampler found
          exact .commits who value caller moves commits effect
      | resetStats =>
          cases effect
          exact .keeps (quiet fun _ _ => by rw [found]; nofun) rfl (Nat.zero_le _)
  | kept still same led =>
      have changes : after.changes.toNat ≤ st.changes.toNat := same.changes ▸ Nat.le_refl _
      exact .keeps (quiet fun _ _ => by rw [still]; nofun) same.button changes

theorem step_buttonLine {s next : System} {act : Act} (stepped : step s act = some next) :
    (∃ value, act = .line value ∧ next.shared.buttonLine = value) ∨
      (∀ value, act ≠ .line value) ∧ next.shared.buttonLine = s.shared.buttonLine := by
  cases act with
  | line value =>
      cases stepped
      exact Or.inl ⟨value, rfl, rfl⟩
  | writeAttr attr caller buf | writeDev caller data missing =>
      obtain ⟨_, _, _, _, rfl⟩ := step_writes rfl stepped
      exact Or.inr ⟨nofun, rfl⟩
  | call i =>
      obtain ⟨call, shared, moved, found, own, rfl⟩ := Pool.act_eq_some stepped
      exact Or.inr ⟨nofun, (callStep_frame own).1.buttonLine⟩
  | workStart kworker =>
      obtain ⟨shared, started, rfl⟩ := Option.map_eq_some_iff.mp stepped
      obtain ⟨_, _, rfl⟩ := workStart_cases started
      exact Or.inr ⟨nofun, rfl⟩
  | work =>
      obtain ⟨shared, worked, rfl⟩ := Option.map_eq_some_iff.mp stepped
      exact Or.inr ⟨nofun, (workStep_frame worked).buttonLine⟩
  | initSchedule =>
      obtain ⟨shared, scheduled, rfl⟩ := Option.map_eq_some_iff.mp stepped
      refine Or.inr ⟨nofun, ?_⟩
      rcases initSchedule_cases scheduled with ⟨st, _, _, rfl⟩ | ⟨delay, _, rfl⟩
      · rfl
      · exact (scheduleDelayedWork_keeps s.shared delay).2.2.1
  | exit =>
      obtain ⟨shared, exited, rfl⟩ := Option.map_eq_some_iff.mp stepped
      exact Or.inr ⟨nofun, (exitStep_effect exited).buttonLine⟩

/-! ## What the observer's record says -/

/-- A later reading saw at least as many changes of the button, and more of them
if its value differs. -/
def Reading.Before (a b : Reading) : Prop :=
  a.toggles ≤ b.toggles ∧ (a.value ≠ b.value → a.toggles < b.toggles)

def ButtonHistory.now (h : ButtonHistory) : Reading := ⟨h.level, h.toggles⟩

structure Recorded (s : System) (h : ButtonHistory) : Prop where
  line : 0 ≤ s.shared.buttonLine → s.shared.buttonLine = h.level
  ordered : (h.readings ++ [h.now]).Pairwise Reading.Before
  carried : ∀ who value, s.samplePc who = .commit value →
    h.readings[h.carried who]?.map Reading.value = some value
  newest : h.newest < h.readings.length

/-- The record is right as long as the state exists; a button that exit has
forgotten reads as released. -/
def RecordRight (p : System × ButtonHistory) : Prop :=
  p.1.shared.state ≠ none → Recorded p.1 p.2

theorem ButtonHistory.see_now (h : ButtonHistory) (value : Int) :
    (h.see value).readings = h.readings ∧ (h.see value).carried = h.carried ∧
      (h.see value).newest = h.newest ∧ h.toggles ≤ (h.see value).toggles ∧
      h.now.Before (h.see value).now ∧ (0 ≤ value → value = (h.see value).level) := by
  unfold ButtonHistory.see
  by_cases toggles : 0 ≤ value ∧ value ≠ h.level
  · rw [if_pos toggles]
    exact ⟨rfl, rfl, rfl, Nat.le_succ _, ⟨Nat.le_succ _, fun _ => Nat.lt_succ_self _⟩,
      fun _ => rfl⟩
  · rw [if_neg toggles]
    refine ⟨rfl, rfl, rfl, Nat.le_refl _, ⟨Nat.le_refl _, fun differs => absurd rfl differs⟩, ?_⟩
    intro valid
    exact not_not.mp fun differs => toggles ⟨valid, differs⟩

theorem Reading.Before.trans {a b c : Reading} (first : a.Before b) (second : b.Before c) :
    a.Before c := by
  refine ⟨first.1.trans second.1, fun differs => ?_⟩
  by_cases same : a.value = b.value
  · exact Nat.lt_of_le_of_lt first.1 (second.2 (same ▸ differs))
  · exact Nat.lt_of_lt_of_le (first.2 same) second.1

theorem Reading.Before.refl (a : Reading) : a.Before a :=
  ⟨Nat.le_refl _, fun differs => absurd rfl differs⟩

/-- The record grows by readings only, and a sampler that reads carries the last
one. -/
theorem Recorded.carried_step {s next : System} {h after : ButtonHistory} {act : Act}
    (recorded : Recorded s h) (stepped : step s act = some next) (more : List Reading)
    (readings : after.readings = h.readings ++ more)
    (others : ∀ who, act.sampler ≠ some who → after.carried who = h.carried who)
    (own : ∀ who, act.sampler = some who → s.samplePc who = .read → ¬ readButton s.shared < 0 →
      after.readings[after.carried who]?.map Reading.value = some (readButton s.shared)) :
    ∀ who value, next.samplePc who = .commit value →
      after.readings[after.carried who]?.map Reading.value = some value := by
  intro who value commits
  rcases step_samplePc stepped commits with ⟨moves, pc, rfl, valid⟩ | ⟨stays, before⟩
  · exact own who moves pc valid
  · have was := recorded.carried who value before
    obtain ⟨reading, found, _⟩ := Option.map_eq_some_iff.mp was
    obtain ⟨bound, _⟩ := List.getElem?_eq_some_iff.mp found
    rw [readings, others who stays, List.getElem?_append_left bound]
    exact was

theorem watch_line (s : System) (h : ButtonHistory) (value : Int) :
    watch s h (.line value) = h.see value := rfl

theorem watch_sampler (s : System) (h : ButtonHistory) {act : Act} {who : Sampler}
    (moves : act.sampler = some who) : watch s h act = watchSampler s h who := by
  cases act <;> cases moves <;> rfl

theorem watch_other (s : System) (h : ButtonHistory) {act : Act} (still : act.sampler = none)
    (notLine : ∀ value, act ≠ .line value) : watch s h act = h := by
  cases act with
  | line value => exact absurd rfl (notLine value)
  | call i | work => contradiction
  | _ => rfl

theorem Recorded.see {s next : System} {h : ButtonHistory} {value : Int}
    (recorded : Recorded s h) (stepped : step s (.line value) = some next)
    (line : next.shared.buttonLine = value) : Recorded next (h.see value) := by
  obtain ⟨readings, carried, newest, _, later, level⟩ := h.see_now value
  refine ⟨fun valid => line.trans (level (line ▸ valid)), ?_, ?_, ?_⟩
  · obtain ⟨past, _, toNow⟩ := List.pairwise_append.mp recorded.ordered
    rw [readings]
    refine List.pairwise_append.mpr ⟨past, List.pairwise_singleton _ _, ?_⟩
    intro reading member last isLast
    rw [List.mem_singleton.mp isLast]
    exact (toNow reading member h.now (List.mem_singleton_self _)).trans later
  · exact recorded.carried_step stepped [] (by rw [readings, List.append_nil])
      (fun _ _ => by rw [carried]) nofun
  · rw [newest, readings]
    exact recorded.newest

theorem Recorded.sampler {s next : System} {h : ButtonHistory} {act : Act} {who : Sampler}
    {st : GpioctrlState} (recorded : Recorded s h) (held : s.shared.state = some st)
    (stepped : step s act = some next) (moves : act.sampler = some who)
    (line : next.shared.buttonLine = s.shared.buttonLine) :
    Recorded next (watchSampler s h who) := by
  have lineNext : 0 ≤ next.shared.buttonLine → next.shared.buttonLine = h.level := by
    rw [line]
    exact recorded.line
  cases pc : s.samplePc who with
  | outside =>
      simp only [watchSampler, pc]
      refine ⟨lineNext, recorded.ordered, ?_, recorded.newest⟩
      refine recorded.carried_step stepped [] (List.append_nil _).symm (fun _ _ => rfl) ?_
      intro other same reads
      cases Option.some.inj (moves.symm.trans same)
      exact absurd (pc.symm.trans reads) nofun
  | commit value =>
      simp only [watchSampler, pc]
      refine ⟨lineNext, recorded.ordered, ?_, ?_⟩
      · refine recorded.carried_step stepped [] (List.append_nil _).symm (fun _ _ => rfl) ?_
        intro other same reads
        cases Option.some.inj (moves.symm.trans same)
        exact absurd (pc.symm.trans reads) nofun
      · obtain ⟨reading, found, _⟩ := Option.map_eq_some_iff.mp (recorded.carried who value pc)
        obtain ⟨bound, _⟩ := List.getElem?_eq_some_iff.mp found
        exact Nat.max_lt.mpr ⟨recorded.newest, bound⟩
  | read =>
      simp only [watchSampler, pc]
      by_cases failed : readButton s.shared < 0
      · rw [if_pos failed]
        refine ⟨lineNext, recorded.ordered, ?_, recorded.newest⟩
        exact recorded.carried_step stepped [] (List.append_nil _).symm (fun _ _ => rfl)
          fun _ _ _ valid => absurd failed valid
      · rw [if_neg failed]
        -- what was read is the level of the line
        have value : readButton s.shared = h.level := by
          have real : readButton s.shared = s.shared.buttonLine := by simp [readButton, held]
          rw [real] at failed ⊢
          exact recorded.line (by omega)
        refine ⟨lineNext, ?_, ?_, ?_⟩
        · have grown : (h.read who (readButton s.shared)).readings = h.readings ++ [h.now] := by
            rw [value]
            rfl
          rw [grown]
          refine List.pairwise_append.mpr ⟨recorded.ordered, List.pairwise_singleton _ _, ?_⟩
          intro reading member last isLast
          rw [List.mem_singleton.mp isLast]
          rcases List.mem_append.mp member with old | new
          · exact (List.pairwise_append.mp recorded.ordered).2.2 reading old h.now
              (List.mem_singleton_self _)
          · rw [List.mem_singleton.mp new]
            exact .refl _
        · refine recorded.carried_step stepped [⟨readButton s.shared, h.toggles⟩] rfl ?_ ?_
          · intro other stays
            exact if_neg fun (same : other = who) => stays (same ▸ moves)
          · intro other same _ _
            cases Option.some.inj (moves.symm.trans same)
            simp [ButtonHistory.read]
        · rw [ButtonHistory.read, List.length_append]
          exact Nat.lt_of_lt_of_le recorded.newest (Nat.le_add_right _ _)

theorem step_recordRight {s next : System} {h : ButtonHistory} {act : Act}
    (right : RecordRight (s, h)) (stepped : step s act = some next) :
    RecordRight (next, watch s h act) := by
  intro alive
  obtain ⟨after, heldNext⟩ := Option.ne_none_iff_exists'.mp alive
  obtain ⟨st, held, _⟩ := step_count stepped heldNext
  have recorded : Recorded s h := right (by simp [held])
  rcases step_buttonLine stepped with ⟨value, rfl, line⟩ | ⟨notLine, line⟩
  · exact recorded.see stepped line
  · cases moves : act.sampler with
    | none =>
        dsimp only
        rw [watch_other s h moves notLine]
        refine ⟨line ▸ recorded.line, recorded.ordered, ?_, recorded.newest⟩
        refine recorded.carried_step stepped [] (List.append_nil _).symm (fun _ _ => rfl) ?_
        intro who same
        exact absurd (moves.symm.trans same) nofun
    | some who =>
        dsimp only
        rw [watch_sampler s h moves]
        exact recorded.sampler held stepped moves line

theorem recordRight_initial (params : Params) (startNs : UInt64) (caller : Identity)
    (buttonValue : Int) : RecordRight
      (System.initial params startNs caller buttonValue, ButtonHistory.initial buttonValue) := by
  intro _
  refine ⟨fun _ => rfl, ?_, ?_, Nat.zero_lt_one⟩
  · exact List.pairwise_pair.mpr (.refl _)
  · intro who value commits
    cases who <;> contradiction

/-! ## The order of the commits -/

theorem committing_eq_some {s : System} {h : ButtonHistory} {act : Act} {c : Nat × Int} :
    committing s h act = some c ↔
      ∃ who, act.sampler = some who ∧ s.samplePc who = .commit c.2 ∧ c.1 = h.carried who := by
  obtain ⟨place, value⟩ := c
  cases moves : act.sampler with
  | none => simp [committing, moves]
  | some who =>
      cases pc : s.samplePc who with
      | commit own =>
          simp only [committing, moves, pc, Option.some.injEq, Prod.mk.injEq, exists_eq_left',
            SamplePc.commit.injEq]
          exact ⟨fun ⟨same, own⟩ => ⟨own, same.symm⟩, fun ⟨own, same⟩ => ⟨same.symm, own⟩⟩
      | outside | read => simp [committing, moves, pc]

theorem readings_watch (s : System) (h : ButtonHistory) (act : Act) :
    ∃ more, (watch s h act).readings = h.readings ++ more := by
  have sampled (who : Sampler) : ∃ more, (watchSampler s h who).readings = h.readings ++ more := by
    unfold watchSampler
    cases s.samplePc who with
    | outside | commit value => exact ⟨[], (List.append_nil _).symm⟩
    | read =>
        by_cases failed : readButton s.shared < 0
        · exact ⟨[], by simp [failed]⟩
        · exact ⟨[⟨readButton s.shared, h.toggles⟩], by simp [failed, ButtonHistory.read]⟩
  cases act with
  | line value => exact ⟨[], by rw [watch_line, (h.see_now value).1, List.append_nil]⟩
  | call i => exact sampled (.call i)
  | work => exact sampled .work
  | _ => exact ⟨[], (List.append_nil _).symm⟩

theorem newest_watch {s : System} {h : ButtonHistory} {act : Act}
    (quiet : ∀ who value, act.sampler = some who → s.samplePc who ≠ .commit value) :
    (watch s h act).newest = h.newest := by
  have sampled (who : Sampler) (moves : act.sampler = some who) :
      (watchSampler s h who).newest = h.newest := by
    unfold watchSampler
    cases pc : s.samplePc who with
    | outside => rfl
    | read =>
        by_cases failed : readButton s.shared < 0
        · simp [failed]
        · simp [failed, ButtonHistory.read]
    | commit value => exact absurd pc (quiet who value moves)
  cases act with
  | line value => exact (h.see_now value).2.2.1
  | call i => exact sampled (.call i) rfl
  | work => exact sampled .work rfl
  | _ => rfl

/-- The stored value is that of the latest committed reading. -/
def ValueTrue (p : System × ButtonHistory) : Prop :=
  ∀ st ∈ p.1.shared.state, p.2.readings[p.2.newest]?.map Reading.value = some st.button

/-- Moreover the changes counted are among those that reading saw. -/
def ChangesSeen (p : System × ButtonHistory) : Prop :=
  ∀ st ∈ p.1.shared.state, ∃ reading, p.2.readings[p.2.newest]? = some reading ∧
    reading.value = st.button ∧ st.changes.toNat ≤ reading.toggles

theorem newest_reading_watch {s : System} {h : ButtonHistory} {act : Act} {reading : Reading}
    (quiet : ∀ who value, act.sampler = some who → s.samplePc who ≠ .commit value)
    (found : h.readings[h.newest]? = some reading) :
    (watch s h act).readings[(watch s h act).newest]? = some reading := by
  obtain ⟨more, readings⟩ := readings_watch s h act
  obtain ⟨bound, _⟩ := List.getElem?_eq_some_iff.mp found
  rw [readings, newest_watch quiet, List.getElem?_append_left bound]
  exact found

theorem step_commits {s next : System} {act : Act} {who : Sampler} {value : Int}
    {st : GpioctrlState} (moves : act.sampler = some who) (pc : s.samplePc who = .commit value)
    (held : s.shared.state = some st) (stepped : step s act = some next) :
    ∃ caller, next.shared.state = some (sampleSection st caller value).1 := by
  have alive : next.shared.state.isSome = s.shared.state.isSome := by
    cases act with
    | call i =>
        obtain ⟨call, shared, moved, _, own, rfl⟩ := Pool.act_eq_some stepped
        exact (callStep_frame own).1.alive
    | work =>
        obtain ⟨shared, worked, rfl⟩ := Option.map_eq_some_iff.mp stepped
        exact (workStep_frame worked).alive
    | _ => contradiction
  obtain ⟨after, heldNext⟩ := Option.isSome_iff_exists.mp (alive.trans (held ▸ rfl))
  obtain ⟨other, otherHeld, effect⟩ := step_count stepped heldNext
  cases Option.some.inj (held.symm.trans otherHeld)
  cases effect with
  | commits own ownValue caller sampler ownPc effect =>
      cases Option.some.inj (moves.symm.trans sampler)
      cases SamplePc.commit.inj (pc.symm.trans ownPc)
      exact ⟨caller, heldNext.trans (congrArg some effect)⟩
  | keeps quiet button changes => exact absurd pc (quiet who value moves)

theorem newest_commit {s : System} {h : ButtonHistory} {act : Act} {who : Sampler} {value : Int}
    (moves : act.sampler = some who) (pc : s.samplePc who = .commit value) :
    (watch s h act).readings = h.readings ∧
      (watch s h act).newest = max h.newest (h.carried who) := by
  rw [watch_sampler s h moves, watchSampler, pc]
  exact ⟨rfl, rfl⟩

/-- A commit keeps the stored value the latest exactly when it is in order. -/
theorem valueTrue_iff_inOrder {s next : System} {h : ButtonHistory} {act : Act}
    (right : RecordRight (s, h)) (latest : ValueTrue (s, h))
    (stepped : step s act = some next) :
    ValueTrue (next, watch s h act) ↔ InOrder (s, h) act := by
  cases committed : committing s h act with
  | none =>
      have quiet : ∀ who value, act.sampler = some who → s.samplePc who ≠ .commit value := by
        intro who value moves pc
        have := (committing_eq_some (c := (h.carried who, value))).mpr ⟨who, moves, pc, rfl⟩
        exact Option.some_ne_none _ (this.symm.trans committed)
      refine ⟨fun _ c member => absurd (committed.symm.trans member) nofun, fun _ => ?_⟩
      intro after heldNext
      obtain ⟨st, held, effect⟩ := step_count stepped heldNext
      cases effect with
      | commits who value caller sampler pc effect => exact absurd pc (quiet who value sampler)
      | keeps quiet button changes =>
          obtain ⟨reading, found, value⟩ := Option.map_eq_some_iff.mp (latest st held)
          dsimp only
          rw [newest_reading_watch quiet found, button, Option.map_some, value]
  | some c =>
      obtain ⟨who, moves, pc, place⟩ := committing_eq_some.mp committed
      cases held : s.shared.state with
      | none =>
          refine ⟨fun _ _ _ st held' => absurd (held.symm.trans held') nofun, fun _ => ?_⟩
          intro after heldNext
          obtain ⟨st, held', _⟩ := step_count stepped heldNext
          exact absurd (held.symm.trans held') nofun
      | some st =>
          obtain ⟨caller, heldNext⟩ := step_commits moves pc held stepped
          obtain ⟨readings, newest⟩ := newest_commit (h := h) moves pc
          have carried := (right (by simp [held])).carried who c.2 pc
          have old := latest st held
          have after : ValueTrue (next, watch s h act) ↔
              h.readings[max h.newest c.1]?.map Reading.value = some c.2 := by
            simp only [ValueTrue, heldNext, Option.mem_def, Option.some.injEq, forall_eq',
              readings, newest, place, sampleSection_button]
          have order : InOrder (s, h) act ↔ h.newest < c.1 ∨ c.2 = st.button := by
            simp only [InOrder, committed, held, Option.mem_def, Option.some.injEq, forall_eq']
          rw [after, order]
          by_cases later : h.newest < c.1
          · rw [Nat.max_eq_right (Nat.le_of_lt later), place]
            exact ⟨fun _ => Or.inl (place ▸ later), fun _ => carried⟩
          · rw [Nat.max_eq_left (Nat.le_of_not_lt later)]
            dsimp only at old
            rw [old, Option.some.injEq]
            exact ⟨fun same => Or.inr same.symm, fun either => (either.resolve_left later).symm⟩

theorem changes_commit_le (st : GpioctrlState) (caller : Identity) (value : Int) :
    (sampleSection st caller value).1.changes.toNat ≤
      st.changes.toNat + (if value = st.button then 0 else 1) := by
  have counted : (st.changes + 1).toNat ≤ st.changes.toNat + 1 := by
    rw [UInt64.toNat_add]
    exact Nat.mod_le _ _
  by_cases same : value = st.button
  · simp [sampleSection, same]
  · by_cases unset : st.button = -1
    · simp [sampleSection, unset]
    · simpa [sampleSection, same, unset] using counted

theorem changesSeen_step {s next : System} {h : ButtonHistory} {act : Act}
    (right : RecordRight (s, h)) (seen : ChangesSeen (s, h)) (allowed : InOrder (s, h) act)
    (stepped : step s act = some next) : ChangesSeen (next, watch s h act) := by
  intro after heldNext
  obtain ⟨st, held, effect⟩ := step_count stepped heldNext
  obtain ⟨reading, found, value, counted⟩ := seen st held
  cases effect with
  | keeps quiet button changes =>
      exact ⟨reading, newest_reading_watch quiet found, value.trans button.symm,
        changes.trans counted⟩
  | commits who own caller moves pc effect =>
      have recorded := right (by simp [held])
      obtain ⟨readings, newest⟩ := newest_commit (h := h) moves pc
      obtain ⟨carried, carriedFound, carriedValue⟩ :=
        Option.map_eq_some_iff.mp (recorded.carried who own pc)
      have commits := (committing_eq_some (c := (h.carried who, own))).mpr ⟨who, moves, pc, rfl⟩
      have order := allowed _ commits st held
      have bound := changes_commit_le st caller own
      dsimp only at found carriedFound order ⊢
      rw [readings, newest, effect, sampleSection_button]
      by_cases later : h.newest < h.carried who
      · rw [Nat.max_eq_right (Nat.le_of_lt later)]
        refine ⟨carried, carriedFound, carriedValue, ?_⟩
        have before : reading.Before carried := by
          obtain ⟨low, rfl⟩ := List.getElem?_eq_some_iff.mp found
          obtain ⟨high, rfl⟩ := List.getElem?_eq_some_iff.mp carriedFound
          exact List.pairwise_iff_getElem.mp (List.pairwise_append.mp recorded.ordered).1 _ _ low
            high later
        obtain ⟨more, strictly⟩ := before
        rw [value, carriedValue] at strictly
        split at bound
        · omega
        · rename_i differs
          have := strictly (Ne.symm differs)
          omega
      · rw [Nat.max_eq_left (Nat.le_of_not_lt later)]
        have same := order.resolve_left later
        rw [if_pos same] at bound
        exact ⟨reading, found, value.trans same.symm, bound.trans counted⟩

theorem ChangesSeen.countsTrue {s : System} {h : ButtonHistory} (right : RecordRight (s, h))
    (seen : ChangesSeen (s, h)) : CountsTrue (s, h) := by
  intro st held
  obtain ⟨reading, found, value, counted⟩ := seen st held
  have recorded := right (Option.ne_none_iff_exists'.mpr ⟨st, held⟩)
  have toNow := (List.pairwise_append.mp recorded.ordered).2.2 reading (List.mem_of_getElem? found)
    h.now (List.mem_singleton_self _)
  exact ⟨counted.trans toNow.1, by rw [found, Option.map_some, value]⟩

/-- In every state of a run no more changes are counted than the button made and
the stored value is the one read last among those committed, exactly when every
commit of the run is of a later reading than those before it or of the stored
value. -/
theorem counts_true_iff_in_order (params : Params) (startNs : UInt64) (caller : Identity)
    (buttonValue : Int) (acts : List Act) (s : System)
    (ran : run step (System.initial params startNs caller buttonValue) acts = some s) :
    Always (observed step watch) CountsTrue
        (System.initial params startNs caller buttonValue, ButtonHistory.initial buttonValue)
        acts ↔
      Meets (observed step watch) InOrder
        (System.initial params startNs caller buttonValue, ButtonHistory.initial buttonValue)
        acts := by
  have right := recordRight_initial params startNs caller buttonValue
  constructor
  · intro always
    obtain ⟨h, seen⟩ := run_observed watch ran (ButtonHistory.initial buttonValue)
    have latest := always_mono (Q := ValueTrue) (fun p counts st held => (counts st held).2) always
    refine (always_iff_meets (G := RecordRight) ?_ ?_ right (always_head latest) seen).mp latest
    · rintro ⟨s, h⟩ act ⟨next, after⟩ right stepped
      obtain ⟨own, rfl⟩ := observed_eq_some.mp stepped
      exact step_recordRight right own
    · rintro ⟨s, h⟩ act ⟨next, after⟩ right latest stepped
      obtain ⟨own, rfl⟩ := observed_eq_some.mp stepped
      exact valueTrue_iff_inOrder right latest own
  · intro meets
    refine always_of_meets (I := fun p => RecordRight p ∧ ChangesSeen p) ?_ ?_ ⟨right, ?_⟩ meets
    · rintro ⟨s, h⟩ act ⟨next, after⟩ ⟨right, seen⟩ allowed stepped
      obtain ⟨own, rfl⟩ := observed_eq_some.mp stepped
      exact ⟨step_recordRight right own, changesSeen_step right seen allowed own⟩
    · rintro ⟨s, h⟩ ⟨right, seen⟩
      exact seen.countsTrue right
    · intro st held
      cases Option.some.inj held
      exact ⟨⟨buttonValue, 0⟩, rfl, rfl, Nat.le_refl 0⟩

/-- A `sync` and the poll work, which reads later and commits later. -/
theorem counts_true_in_order :
    Always (observed step watch) CountsTrue
      (System.initial ⟨500, false⟩ 0 ⟨ascii "insmod", 100⟩ 0, ButtonHistory.initial 0)
      [.initSchedule, .initSchedule, .writeDev ⟨ascii "sh", 7⟩ (ascii "sync\n") 0,
        .workStart ⟨ascii "kworker", 9⟩, .call 0, .line 1, .work, .call 0, .work] := by
  have ran := run_get step (System.initial ⟨500, false⟩ 0 ⟨ascii "insmod", 100⟩ 0)
    [.initSchedule, .initSchedule, .writeDev ⟨ascii "sh", 7⟩ (ascii "sync\n") 0,
      .workStart ⟨ascii "kworker", 9⟩, .call 0, .line 1, .work, .call 0, .work] (by decide +kernel)
  exact (counts_true_iff_in_order _ _ _ _ _ _ ran).mpr (by decide +kernel)

/-- The `sync` reads the released button and commits after the work has
committed the pressed one: two changes are counted where the button made one. -/
theorem late_commit_counts_twice :
    ¬ Always (observed step watch) CountsTrue
      (System.initial ⟨500, false⟩ 0 ⟨ascii "insmod", 100⟩ 0, ButtonHistory.initial 0)
      [.initSchedule, .initSchedule, .writeDev ⟨ascii "sh", 7⟩ (ascii "sync\n") 0,
        .workStart ⟨ascii "kworker", 9⟩, .call 0, .line 1, .work, .work, .call 0] := by
  decide +kernel

end GpioCtrl
