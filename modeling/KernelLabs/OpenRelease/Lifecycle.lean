import KernelLabs.OpenRelease.Device

/-!
# Every open is released once, with what was recorded of it

A file goes through four stages: before its number, numbered but not yet
logged, logged as open, logged as released.  A step of a callback moves one
file by at most one stage and writes at most the line of that move, so the
lines of the log can be balanced against the files in each stage: the OPEN
lines are the RELEASE lines and the contexts of the files in between.
-/

set_option autoImplicit false

namespace OpenRelease

open Kernel PartyPool LabelledMachine OwnedHeap

/-- What the lines of one open and its release have in common. -/
structure Record where
  id : UInt64
  minor : Nat
  opener : Identity
  deriving DecidableEq, Repr

def Line.openedRecord : Line → Option Record
  | .opened id _ process _ _ _ recordedMinor => some ⟨id, recordedMinor, process⟩
  | _ => none

def Line.releasedRecord : Line → Option Record
  | .released id minor openedBy _ _ _ => some ⟨id, minor, openedBy⟩
  | _ => none

/-- The records of the OPEN lines and of the RELEASE lines. -/
def announced (lines : List Line) : List Record := lines.filterMap Line.openedRecord
def reported (lines : List Line) : List Record := lines.filterMap Line.releasedRecord

/-- The context the file's callbacks will still use. -/
def File.address (file : File) : Option Nat :=
  match file.phase with
  | .allocated ctx | .numbered ctx | .recorded ctx | .counted ctx _ => some ctx
  | .held _ | .releasing _ => file.privateData
  | .measured _ ctx _ | .uncounted _ ctx _ _ | .reported ctx => some ctx
  | .opening | .failed | .freed | .closed | .crashed => none

def System.contexts (s : System) : List (File × Option OpenContext) :=
  OwnedHeap.contexts File.address s.shared.heap s.parties

inductive Stage where
  | early
  | issued (id : UInt64)
  | live (record : Record)
  | done
  deriving DecidableEq, Repr

def recordOf (c : OpenContext) : Record := ⟨c.id, c.minor, ⟨c.openerComm, c.openerPid⟩⟩

def stage (file : File) (c : Option OpenContext) : Stage :=
  match file.phase, c with
  | .opening, _ | .failed, _ | .allocated _, _ => .early
  | .numbered _, some c | .recorded _, some c | .counted _ _, some c => .issued c.id
  | .held _, some c | .releasing _, some c | .measured _ _ _, some c
  | .uncounted _ _ _ _, some c => .live (recordOf c)
  | _, _ => .done

def Stage.issuedId : Stage → Option UInt64
  | .issued id => some id
  | _ => none

def Stage.liveRecord : Stage → Option Record
  | .live record => some record
  | _ => none

/-- The file is among those `active_opens` counts. -/
def File.isCounted (file : File) : Bool :=
  match file.phase with
  | .counted _ _ | .held _ | .releasing _ | .measured _ _ _ => true
  | _ => false

/-- What `my_open` has written is what the VFS handed it. -/
def Recorded (file : File) (c : Option OpenContext) : Prop :=
  ∃ filled, c = some filled ∧ filled.minor = file.minor ∧
    filled.openerPid = file.current.pid ∧ filled.openerComm = file.current.comm

/-- The local variables and `private_data` of a file agree with its context. -/
def Fits (file : File) (c : Option OpenContext) : Prop :=
  isTask file.current = true ∧
    match file.phase with
    | .recorded ctx | .counted ctx _ | .measured _ ctx _ | .uncounted _ ctx _ _ =>
        file.privateData = some ctx ∧ Recorded file c
    | .held _ | .releasing _ => file.privateData.isSome ∧ Recorded file c
    | .crashed => False
    | _ => True

/-! ## What one step of a callback does -/

/-- The six things a step can do to the stage of its file, the counters and the
log. -/
inductive Effect (g next : Globals) (file moved : File) (before after : Stage) : Prop where
  | silent (kept : after = before) (count : moved.isCounted = file.isCounted)
      (number : next.nextOpenId = g.nextOpenId) (active : next.activeOpens = g.activeOpens)
      (quiet : next.log = g.log)
  | issue (was : before = .early) (is : after = .issued (g.nextOpenId + 1))
      (count : moved.isCounted = file.isCounted) (number : next.nextOpenId = g.nextOpenId + 1)
      (active : next.activeOpens = g.activeOpens) (quiet : next.log = g.log)
  | count (kept : after = before) (was : file.isCounted = false) (is : moved.isCounted = true)
      (number : next.nextOpenId = g.nextOpenId)
      (active : next.activeOpens = wrapInt (g.activeOpens + 1)) (quiet : next.log = g.log)
  | announce (record : Record) (line : Line) (was : before = .issued record.id)
      (is : after = .live record) (count : moved.isCounted = file.isCounted)
      (number : next.nextOpenId = g.nextOpenId) (active : next.activeOpens = g.activeOpens)
      (logged : next.log = g.log ++ [line]) (opens : line.openedRecord = some record)
      (only : line.releasedRecord = none)
  | uncount (kept : after = before) (was : file.isCounted = true) (is : moved.isCounted = false)
      (number : next.nextOpenId = g.nextOpenId)
      (active : next.activeOpens = wrapInt (g.activeOpens - 1)) (quiet : next.log = g.log)
  | report (record : Record) (line : Line) (was : before = .live record) (is : after = .done)
      (count : moved.isCounted = file.isCounted)
      (number : next.nextOpenId = g.nextOpenId) (active : next.activeOpens = g.activeOpens)
      (logged : next.log = g.log ++ [line]) (releases : line.releasedRecord = some record)
      (only : line.openedRecord = none)

/-- The step keeps the ownership of the contexts, and moves its own file by one
effect. -/
structure Moved (s next : System) (i : Nat) (file moved : File)
    (before after : Option OpenContext) : Prop where
  owned : Owned File.address next.shared.heap next.parties
  was : s.contexts[i]? = some (file, before)
  contexts : next.contexts = s.contexts.set i (moved, after)
  fits : Fits moved after
  up : next.shared.up = s.shared.up
  effect : Effect s.shared next.shared file moved (stage file before) (stage moved after)

theorem context_found {s : System} {i : Nat} {file : File} (found : s.parties[i]? = some file) :
    s.contexts[i]? = some (file, file.address.bind (load s.shared.heap)) :=
  getElem?_contexts found

section Steps
variable {s : System} {i : Nat} {file moved : File} {g : Globals}
  (owned : Owned File.address s.shared.heap s.parties) (found : s.parties[i]? = some file)
include owned found

/-- A step that leaves the heap and the file's pointer alone. -/
theorem moved_keep (c : Option OpenContext)
    (kept : moved.address = file.address ∧ g.heap = s.shared.heap ∧ g.up = s.shared.up)
    (loaded : file.address.bind (load s.shared.heap) = c) (fits : Fits moved c)
    (effect : Effect s.shared g file moved (stage file c) (stage moved c)) :
    Moved s ⟨g, s.parties.set i moved⟩ i file moved c c := by
  obtain ⟨same, heap, up⟩ := kept
  refine ⟨?_, ?_, ?_, fits, up, effect⟩
  · simp only [heap]
    exact owned.keep found same
  · rw [← loaded]
    exact context_found found
  · simp only [System.contexts, heap]
    rw [contexts_keep found, same, loaded]

theorem moved_store {a : Nat} {old c : OpenContext} (points : file.address = some a)
    (loaded : load s.shared.heap a = some old) (kept : moved.address = some a ∧
      g.heap = store s.shared.heap a c ∧ g.up = s.shared.up) (fits : Fits moved (some c))
    (effect : Effect s.shared g file moved (stage file (some old)) (stage moved (some c))) :
    Moved s ⟨g, s.parties.set i moved⟩ i file moved (some old) (some c) := by
  obtain ⟨still, heap, up⟩ := kept
  refine ⟨?_, ?_, ?_, fits, up, effect⟩
  · simp only [heap]
    exact owned.store found points still c
  · rw [← loaded]
    have here := context_found found
    rw [points] at here
    exact here
  · simp only [System.contexts, heap, store]
    rw [contexts_write owned found points, still, Option.bind_some,
      load_set_self (lt_of_load loaded)]

omit owned in
theorem fits_here (fits : ∀ pair ∈ s.contexts, Fits pair.1 pair.2) :
    Fits file (file.address.bind (load s.shared.heap)) :=
  fits _ (List.mem_of_getElem? (context_found found))

theorem myOpen_moved (fits : ∀ pair ∈ s.contexts, Fits pair.1 pair.2) {input : Input}
    (stepped : myOpen input s.shared file = some (g, moved)) :
    ∃ before after, Moved s ⟨g, s.parties.set i moved⟩ i file moved before after := by
  have here := fits_here found fits
  cases phase : file.phase with
  | opening =>
      have unowned : file.address = none := by simp [File.address, phase]
      cases input with
      | kzalloc succeeds =>
          cases succeeds with
          | false =>
              simp only [myOpen, phase, Option.some.injEq, Prod.mk.injEq] at stepped
              obtain ⟨rfl, rfl⟩ := stepped
              refine ⟨none, none, moved_keep owned found none ?_ ?_ ?_ ?_⟩
              · exact ⟨unowned.symm, rfl, rfl⟩
              · rw [unowned]
                rfl
              · exact ⟨here.1, trivial⟩
              · exact .silent (by simp [stage, phase]) (by simp [File.isCounted, phase]) rfl rfl rfl
          | true =>
              simp only [myOpen, phase, Option.some.injEq, Prod.mk.injEq] at stepped
              obtain ⟨rfl, rfl⟩ := stepped
              refine ⟨none, some OpenContext.zeroed, ?_, ?_, ?_, ⟨here.1, trivial⟩, rfl, ?_⟩
              · exact owned.alloc found unowned rfl _
              · have pair := context_found found
                rw [unowned] at pair
                exact pair
              · exact contexts_alloc owned found rfl _
              · exact .silent (by simp [stage, phase]) (by simp [File.isCounted, phase]) rfl rfl rfl
      | run => simp [myOpen, phase] at stepped
      | dup => simp [myOpen, phase] at stepped
      | close current => simp [myOpen, phase] at stepped
  | allocated ctx =>
      have points : file.address = some ctx := by simp [File.address, phase]
      obtain ⟨c, loaded⟩ := owned.loads found points
      cases input with
      | run =>
          simp only [myOpen, phase, follow, loaded, Option.some.injEq, Prod.mk.injEq] at stepped
          obtain ⟨rfl, rfl⟩ := stepped
          refine ⟨some c, some { c with id := s.shared.nextOpenId + 1 },
            moved_store owned found points loaded ?_ ?_ ?_⟩
          · exact ⟨rfl, rfl, rfl⟩
          · exact ⟨here.1, trivial⟩
          · exact .issue (by simp [stage, phase]) (by simp [stage])
              (by simp [File.isCounted, phase]) rfl rfl rfl
      | kzalloc succeeds => simp [myOpen, phase] at stepped
      | dup => simp [myOpen, phase] at stepped
      | close current => simp [myOpen, phase] at stepped
  | numbered ctx =>
      have points : file.address = some ctx := by simp [File.address, phase]
      obtain ⟨c, loaded⟩ := owned.loads found points
      cases input with
      | run =>
          simp only [myOpen, phase, follow, loaded, Option.some.injEq, Prod.mk.injEq] at stepped
          obtain ⟨rfl, rfl⟩ := stepped
          have whole : strscpy taskCommLen file.current.comm = file.current.comm := by
            have short : file.current.comm.length < taskCommLen := of_decide_eq_true here.1
            exact List.take_of_length_le (by omega)
          let filled : OpenContext := ⟨c.id, ktimeGetNs s.shared, file.minor, file.flags, file.mode,
            file.current.pid, strscpy taskCommLen file.current.comm⟩
          refine ⟨some c, some filled, moved_store owned found points loaded ?_ ?_ ?_⟩
          · exact ⟨rfl, rfl, rfl⟩
          · exact ⟨here.1, rfl, _, rfl, rfl, rfl, whole⟩
          · exact .silent (by simp [stage, phase, filled]) (by simp [File.isCounted, phase])
              rfl rfl rfl
      | kzalloc succeeds => simp [myOpen, phase] at stepped
      | dup => simp [myOpen, phase] at stepped
      | close current => simp [myOpen, phase] at stepped
  | recorded ctx =>
      have points : file.address = some ctx := by simp [File.address, phase]
      obtain ⟨c, loaded⟩ := owned.loads found points
      rw [points, Option.bind_some, loaded] at here
      simp only [Fits, phase] at here
      cases input with
      | run =>
          simp only [myOpen, phase, Option.some.injEq, Prod.mk.injEq] at stepped
          obtain ⟨rfl, rfl⟩ := stepped
          refine ⟨some c, some c, moved_keep owned found _ ?_ ?_ here ?_⟩
          · exact ⟨points.symm, rfl, rfl⟩
          · rw [points, Option.bind_some, loaded]
          · exact .count (by simp [stage, phase]) (by simp [File.isCounted, phase])
              (by simp [File.isCounted]) rfl rfl rfl
      | kzalloc succeeds => simp [myOpen, phase] at stepped
      | dup => simp [myOpen, phase] at stepped
      | close current => simp [myOpen, phase] at stepped
  | counted ctx active =>
      have points : file.address = some ctx := by simp [File.address, phase]
      obtain ⟨c, loaded⟩ := owned.loads found points
      rw [points, Option.bind_some, loaded] at here
      simp only [Fits, phase] at here
      obtain ⟨task, pointer, filled, same, minor, pid, comm⟩ := here
      cases Option.some.inj same
      cases input with
      | run =>
          simp only [myOpen, phase, follow, loaded, Option.some.injEq, Prod.mk.injEq] at stepped
          obtain ⟨rfl, rfl⟩ := stepped
          refine ⟨some c, some c, moved_keep owned found _ ?_ ?_ ?_ ?_⟩
          · exact ⟨pointer.trans points.symm, rfl, rfl⟩
          · rw [points, Option.bind_some, loaded]
          · exact ⟨task, by simp [pointer], _, rfl, minor, pid, comm⟩
          · refine .announce (recordOf c) _ (by simp [stage, phase, recordOf]) (by simp [stage])
              (by simp [File.isCounted, phase]) rfl rfl rfl ?_ rfl
            simp only [Line.openedRecord, recordOf, comm, pid]
      | kzalloc succeeds => simp [myOpen, phase] at stepped
      | dup => simp [myOpen, phase] at stepped
      | close current => simp [myOpen, phase] at stepped
  | failed | held _ | releasing _ | measured _ _ _ | uncounted _ _ _ _ | reported _ | freed
  | closed | crashed => simp [myOpen, phase] at stepped

theorem descriptors_moved (fits : ∀ pair ∈ s.contexts, Fits pair.1 pair.2) {input : Input}
    (stepped : descriptors input s.shared file = some (g, moved)) :
    ∃ before after, Moved s ⟨g, s.parties.set i moved⟩ i file moved before after := by
  have here := fits_here found fits
  cases phase : file.phase with
  | held more =>
      simp only [Fits, phase] at here
      have points : file.address = file.privateData := by simp [File.address, phase]
      -- whatever the call, the file keeps its context and its stage
      have keep (later : Phase)
          (which : (∃ more, later = .held more) ∨ ∃ current, later = .releasing current) :
          ∃ before after, Moved s ⟨s.shared, s.parties.set i { file with phase := later }⟩ i file
            { file with phase := later } before after := by
        refine ⟨_, _, moved_keep owned found _ ⟨?_, rfl, rfl⟩ rfl ?_ ?_⟩
        · rcases which with ⟨more, rfl⟩ | ⟨current, rfl⟩ <;> exact points.symm
        · rcases which with ⟨more, rfl⟩ | ⟨current, rfl⟩ <;> exact here
        · obtain ⟨_, _, filled, same, _⟩ := here
          rw [same]
          rcases which with ⟨more, rfl⟩ | ⟨current, rfl⟩ <;>
            exact .silent (by simp [stage, phase]) (by simp [File.isCounted, phase]) rfl rfl rfl
      cases input with
      | dup =>
          simp only [descriptors, phase, Option.some.injEq, Prod.mk.injEq] at stepped
          obtain ⟨rfl, rfl⟩ := stepped
          exact keep _ (Or.inl ⟨_, rfl⟩)
      | close current =>
          cases more with
          | zero =>
              simp only [descriptors, phase, Option.some.injEq, Prod.mk.injEq] at stepped
              obtain ⟨rfl, rfl⟩ := stepped
              exact keep _ (Or.inr ⟨_, rfl⟩)
          | succ rest =>
              simp only [descriptors, phase, Option.some.injEq, Prod.mk.injEq] at stepped
              obtain ⟨rfl, rfl⟩ := stepped
              exact keep _ (Or.inl ⟨_, rfl⟩)
      | run => simp [descriptors, phase] at stepped
      | kzalloc succeeds => simp [descriptors, phase] at stepped
  | opening | allocated _ | numbered _ | recorded _ | counted _ _ | failed | releasing _
  | measured _ _ _ | uncounted _ _ _ _ | reported _ | freed | closed | crashed =>
      simp [descriptors, phase] at stepped

theorem myRelease_moved (fits : ∀ pair ∈ s.contexts, Fits pair.1 pair.2)
    (stepped : myRelease s.shared file = some (g, moved)) :
    ∃ before after, Moved s ⟨g, s.parties.set i moved⟩ i file moved before after := by
  have here := fits_here found fits
  cases phase : file.phase with
  | releasing current =>
      simp only [Fits, phase] at here
      obtain ⟨task, pointed, filled⟩ := here
      obtain ⟨ctx, pointer⟩ := Option.isSome_iff_exists.mp pointed
      have points : file.address = some ctx := by simp [File.address, phase, pointer]
      obtain ⟨c, loaded⟩ := owned.loads found points
      rw [points, Option.bind_some, loaded] at filled
      simp only [myRelease, phase, pointer, follow, loaded, Option.some.injEq,
        Prod.mk.injEq] at stepped
      obtain ⟨rfl, rfl⟩ := stepped
      refine ⟨some c, some c, moved_keep owned found _ ?_ ?_ ?_ ?_⟩
      · exact ⟨points.symm, rfl, rfl⟩
      · rw [points, Option.bind_some, loaded]
      · exact ⟨task, rfl, filled⟩
      · exact .silent (by simp [stage, phase]) (by simp [File.isCounted, phase]) rfl rfl rfl
  | measured current ctx lifetimeUs =>
      have points : file.address = some ctx := by simp [File.address, phase]
      obtain ⟨c, loaded⟩ := owned.loads found points
      rw [points, Option.bind_some, loaded] at here
      simp only [Fits, phase] at here
      simp only [myRelease, phase, Option.some.injEq, Prod.mk.injEq] at stepped
      obtain ⟨rfl, rfl⟩ := stepped
      refine ⟨some c, some c, moved_keep owned found _ ?_ ?_ here ?_⟩
      · exact ⟨points.symm, rfl, rfl⟩
      · rw [points, Option.bind_some, loaded]
      · exact .uncount (by simp [stage, phase]) (by simp [File.isCounted, phase])
          (by simp [File.isCounted]) rfl rfl rfl
  | uncounted current ctx lifetimeUs active =>
      have points : file.address = some ctx := by simp [File.address, phase]
      obtain ⟨c, loaded⟩ := owned.loads found points
      rw [points, Option.bind_some, loaded] at here
      simp only [Fits, phase] at here
      obtain ⟨task, pointer, filled, same, minor, pid, comm⟩ := here
      cases Option.some.inj same
      simp only [myRelease, phase, follow, loaded, Option.some.injEq, Prod.mk.injEq] at stepped
      obtain ⟨rfl, rfl⟩ := stepped
      refine ⟨some c, some c, moved_keep owned found _ ?_ ?_ ?_ ?_⟩
      · exact ⟨points.symm, rfl, rfl⟩
      · rw [points, Option.bind_some, loaded]
      · exact ⟨task, trivial⟩
      · refine .report (recordOf c) _ (by simp [stage, phase]) (by simp [stage])
          (by simp [File.isCounted, phase]) rfl rfl rfl ?_ rfl
        simp only [Line.releasedRecord, recordOf, minor]
  | reported ctx =>
      have points : file.address = some ctx := by simp [File.address, phase]
      obtain ⟨c, loaded⟩ := owned.loads found points
      simp only [myRelease, phase, follow, loaded, Option.some.injEq, Prod.mk.injEq] at stepped
      obtain ⟨rfl, rfl⟩ := stepped
      refine ⟨some c, none, owned.free found points rfl, ?_, ?_, ⟨here.1, trivial⟩, rfl, ?_⟩
      · have pair := context_found found
        rw [points, Option.bind_some, loaded] at pair
        exact pair
      · exact contexts_write owned found points none
      · exact .silent (by simp [stage, phase]) (by simp [File.isCounted, phase]) rfl rfl rfl
  | freed =>
      have points : file.address = none := by simp [File.address, phase]
      simp only [myRelease, phase, Option.some.injEq, Prod.mk.injEq] at stepped
      obtain ⟨rfl, rfl⟩ := stepped
      refine ⟨none, none, moved_keep owned found _ ?_ ?_ ?_ ?_⟩
      · exact ⟨points.symm, rfl, rfl⟩
      · rw [points]
        rfl
      · exact ⟨here.1, trivial⟩
      · exact .silent (by simp [stage, phase]) (by simp [File.isCounted, phase]) rfl rfl rfl
  | opening | allocated _ | numbered _ | recorded _ | counted _ _ | failed | held _ | closed
  | crashed => simp [myRelease, phase] at stepped

theorem fileStep_moved (fits : ∀ pair ∈ s.contexts, Fits pair.1 pair.2) {input : Input}
    (stepped : fileStep i input s.shared file = some (g, moved)) :
    ∃ before after, Moved s ⟨g, s.parties.set i moved⟩ i file moved before after := by
  unfold fileStep at stepped
  split at stepped
  · exact myOpen_moved owned found fits stepped
  · exact myOpen_moved owned found fits stepped
  · exact myOpen_moved owned found fits stepped
  · exact myOpen_moved owned found fits stepped
  · exact myOpen_moved owned found fits stepped
  · exact descriptors_moved owned found fits stepped
  · exact myRelease_moved owned found fits stepped
  · contradiction

end Steps

end OpenRelease
