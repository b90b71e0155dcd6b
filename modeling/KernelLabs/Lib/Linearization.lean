import Mathlib.Data.List.Nodup
import Mathlib.Data.List.Permutation

/-!
# Linearization

The history of a run is a log of marks: an operation began, took effect, ended.
A log in which every operation goes through these in order is explained by the
sequence of its effects, whatever the interleaving: that sequence contains every
operation that ended and none that had not begun, and it puts an operation that
ended before another began before that one.
-/

set_option autoImplicit false

namespace Linearization

variable {β O ν : Type*}

inductive Mark (O : Type*) where
  | began (op : O)
  | took (op : O)
  | ended (op : O)
  deriving DecidableEq, Repr

def Mark.op : Mark O → O
  | .began op | .took op | .ended op => op

/-- What has happened before the mark. -/
def Mark.Ready (log : List (Mark O)) : Mark O → Prop
  | .began _ => True
  | .took op => .began op ∈ log
  | .ended op => .took op ∈ log

inductive WellFormed : List (Mark O) → Prop where
  | nil : WellFormed []
  | snoc {log : List (Mark O)} {mark : Mark O} (before : WellFormed log) (fresh : mark ∉ log)
      (ready : mark.Ready log) : WellFormed (log ++ [mark])

/-- Some occurrence of `x` stands before some occurrence of `y`. -/
def Before (l : List β) (x y : β) : Prop := [x, y].Sublist l

/-- The operations in the order in which they took effect. -/
def points (log : List (Mark O)) : List O :=
  log.filterMap fun
    | .took op => some op
    | _ => none

/-- A sequential order of operations that accounts for the log. -/
structure Explains (log : List (Mark O)) (order : List O) : Prop where
  nodup : order.Nodup
  ended : ∀ op, .ended op ∈ log → op ∈ order
  began : ∀ op ∈ order, .began op ∈ log
  realTime : ∀ first second, Before log (.ended first) (.began second) → second ∈ order →
    Before order first second

/-- Some such order, executed from `initial`, ends in `current`. -/
def Linearizable (apply : ν → O → ν) (initial current : ν) (log : List (Mark O)) : Prop :=
  ∃ order, Explains log order ∧ order.foldl apply initial = current

/-! ## Standing before -/

theorem before_iff {l : List β} {x y : β} :
    Before l x y ↔ ∃ front back, l = front ++ back ∧ x ∈ front ∧ y ∈ back := by
  unfold Before
  rw [List.cons_sublist_iff]
  simp only [List.singleton_sublist]

theorem Before.append {l : List β} {x y : β} (before : Before l x y) (more : List β) :
    Before (l ++ more) x y :=
  before.trans (List.sublist_append_left l more)

theorem before_snoc {l : List β} {x : β} (member : x ∈ l) (y : β) : Before (l ++ [y]) x y :=
  (List.singleton_sublist.mpr member).append (List.Sublist.refl [y])

theorem Before.trans {l : List β} (nodup : l.Nodup) {x y z : β} (first : Before l x y)
    (second : Before l y z) : Before l x z := by
  obtain ⟨front, back, parts, inFront, inBack⟩ := before_iff.mp first
  obtain ⟨head, tail, cut, inHead, inTail⟩ := before_iff.mp second
  rcases List.append_eq_append_iff.mp (parts.symm.trans cut) with
    ⟨between, longer, _⟩ | ⟨between, shorter, _⟩
  · refine before_iff.mpr ⟨head, tail, cut, ?_, inTail⟩
    rw [longer]
    exact List.mem_append_left between inFront
  · -- `y` would stand on both sides of the first cut
    have again : y ∈ front := by
      rw [shorter]
      exact List.mem_append_left between inHead
    rw [parts] at nodup
    exact absurd rfl ((List.nodup_append.mp nodup).2.2 y again y inBack)

theorem Before.filterMap {γ : Type*} {f : β → Option γ} {l : List β} {x y : β} {u v : γ}
    (before : Before l x y) (first : f x = some u) (second : f y = some v) :
    Before (l.filterMap f) u v := by
  have kept := List.Sublist.filterMap f before
  rwa [List.filterMap_cons_some first, List.filterMap_cons_some second,
    List.filterMap_nil] at kept

/-! ## Well-formed logs -/

section Log
variable {log : List (Mark O)} {op : O}

theorem mem_points : op ∈ points log ↔ .took op ∈ log := by
  unfold points
  rw [List.mem_filterMap]
  constructor
  · rintro ⟨mark, member, point⟩
    cases mark with
    | took other =>
        cases Option.some.inj point
        exact member
    | began other | ended other => contradiction
  · exact fun member => ⟨.took op, member, rfl⟩

theorem points_append (log marks : List (Mark O)) :
    points (log ++ marks) = points log ++ points marks :=
  List.filterMap_append

namespace WellFormed

theorem nodup (wellFormed : WellFormed log) : log.Nodup := by
  induction wellFormed with
  | nil => exact List.nodup_nil
  | snoc before fresh ready ih =>
      refine List.nodup_append.mpr ⟨ih, List.nodup_singleton _, ?_⟩
      intro own member other last same
      rw [List.mem_singleton.mp last] at same
      exact fresh (same ▸ member)

theorem began_before (wellFormed : WellFormed log) (took : .took op ∈ log) :
    Before log (.began op) (.took op) := by
  induction wellFormed with
  | nil => contradiction
  | snoc before fresh ready ih =>
      rcases List.mem_append.mp took with earlier | last
      · exact (ih earlier).append _
      · cases List.mem_singleton.mp last
        exact before_snoc ready _

theorem took_before (wellFormed : WellFormed log) (ended : .ended op ∈ log) :
    Before log (.took op) (.ended op) := by
  induction wellFormed with
  | nil => contradiction
  | snoc before fresh ready ih =>
      rcases List.mem_append.mp ended with earlier | last
      · exact (ih earlier).append _
      · cases List.mem_singleton.mp last
        exact before_snoc ready _

/-- The effects of a well-formed log, in the order in which they happened,
account for it. -/
theorem explains (wellFormed : WellFormed log) : Explains log (points log) := by
  have nodup := wellFormed.nodup
  constructor
  · refine nodup.filterMap ?_
    intro mark other op own same
    cases mark <;> cases other <;> simp_all
  · intro op ended
    exact mem_points.mpr ((wellFormed.took_before ended).subset List.mem_cons_self)
  · intro op member
    have before := wellFormed.began_before (mem_points.mp member)
    exact before.subset List.mem_cons_self
  · intro first second apart member
    -- the effect of the first, its end, the beginning of the second, its effect
    have ended : .ended first ∈ log := apart.subset List.mem_cons_self
    have before : Before log (.took first) (.took second) :=
      ((wellFormed.took_before ended).trans nodup apart).trans nodup
        (wellFormed.began_before (mem_points.mp member))
    exact before.filterMap rfl rfl

theorem linearizable (wellFormed : WellFormed log) (apply : ν → O → ν) (initial : ν) :
    Linearizable apply initial ((points log).foldl apply initial) log :=
  ⟨points log, wellFormed.explains, rfl⟩

end WellFormed

/-- When a log is about two operations, one order or the other explains it. -/
theorem Linearizable.of_pair {apply : ν → O → ν} {initial current : ν} (first second : O)
    (differ : first ≠ second) (ended : .ended first ∈ log ∧ .ended second ∈ log)
    (only : ∀ mark ∈ log, mark.op = first ∨ mark.op = second)
    (linearizable : Linearizable apply initial current log) :
    current = [first, second].foldl apply initial ∨
      current = [second, first].foldl apply initial := by
  obtain ⟨order, explains, rfl⟩ := linearizable
  have members : ∀ op, op ∈ order ↔ op ∈ [first, second] := by
    intro op
    constructor
    · intro member
      have pair : op = first ∨ op = second := only _ (explains.began op member)
      simpa only [List.mem_cons, List.not_mem_nil, or_false] using pair
    · intro member
      simp only [List.mem_cons, List.not_mem_nil, or_false] at member
      rcases member with rfl | rfl
      · exact explains.ended op ended.1
      · exact explains.ended op ended.2
  have perm : order.Perm [first, second] := by
    refine (List.perm_ext_iff_of_nodup explains.nodup ?_).mpr members
    exact List.nodup_cons.mpr ⟨fun same => differ (List.mem_singleton.mp same),
      List.nodup_singleton _⟩
  rcases List.perm_pair.mp perm with same | same
  · exact Or.inl (congrArg _ same)
  · exact Or.inr (congrArg _ same)

/-! ## Operations on their way -/

/-- All marks of one operation. -/
def lifecycle (op : O) : List (Mark O) := [.began op, .took op, .ended op]

theorem op_of_mem_lifecycle {mark : Mark O} (member : mark ∈ lifecycle op) : mark.op = op := by
  simp only [lifecycle, List.mem_cons, List.not_mem_nil, or_false] at member
  rcases member with rfl | rfl | rfl <;> rfl

theorem lifecycle_next {opened rest : List (Mark O)} {mark : Mark O}
    (part : opened ++ mark :: rest <+: lifecycle op) :
    mark ∉ opened ∧ mark.op = op ∧ mark.Ready opened := by
  unfold lifecycle at part
  rcases opened with _ | ⟨first, _ | ⟨second, _ | ⟨third, more⟩⟩⟩
  · obtain ⟨rfl, _⟩ := List.cons_prefix_cons.mp part
    exact ⟨List.not_mem_nil, rfl, trivial⟩
  · simp only [List.cons_append, List.nil_append, List.cons_prefix_cons] at part
    obtain ⟨rfl, rfl, _⟩ := part
    exact ⟨by simp, rfl, List.mem_singleton_self _⟩
  · simp only [List.cons_append, List.nil_append, List.cons_prefix_cons] at part
    obtain ⟨rfl, rfl, rfl, _⟩ := part
    exact ⟨by simp, rfl, by simp [Mark.Ready]⟩
  · have long := part.length_le
    simp only [List.length_append, List.length_cons, List.length_nil] at long
    omega

/-- An operation goes on with its marks, when the log has no others of it than
those it went through. -/
theorem WellFormed.advance (wellFormed : WellFormed log) {opened marks : List (Mark O)}
    (part : opened ++ marks <+: lifecycle op) (there : ∀ mark ∈ opened, mark ∈ log)
    (others : ∀ mark ∈ log, mark.op = op → mark ∈ opened) : WellFormed (log ++ marks) := by
  induction marks generalizing log opened with
  | nil =>
      rw [List.append_nil]
      exact wellFormed
  | cons mark rest ih =>
      obtain ⟨fresh, own, ready⟩ := lifecycle_next part
      have next : WellFormed (log ++ [mark]) := by
        refine wellFormed.snoc (fun member => fresh (others mark member own)) ?_
        cases mark with
        | began op => trivial
        | took op => exact there _ ready
        | ended op => exact there _ ready
      rw [List.append_cons] at part ⊢
      refine ih next part ?_ ?_
      · intro other member
        rcases List.mem_append.mp member with old | last
        · exact List.mem_append_left _ (there other old)
        · exact List.mem_append_right _ last
      · intro other member same
        rcases List.mem_append.mp member with old | last
        · exact List.mem_append_left _ (others other old same)
        · exact List.mem_append_right _ last

end Log

end Linearization
