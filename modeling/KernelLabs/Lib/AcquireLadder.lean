import Mathlib.Data.List.Induction

/-!
# Acquiring a list of resources, or none of them

A ladder acquires resources in order.  When a rung fails it releases what it has
acquired, in reverse order, and gives up with the error of that rung.  A rung may
also be a check, which holds nothing, or an option, whose failure is ignored.

`climb` carries what is held as a stack, so the calls of a whole ladder are read
off one equation: up through the rungs before the failing one, and down again
through exactly those that hold something.
-/

set_option autoImplicit false

namespace AcquireLadder

variable {ρ ε : Type*}

inductive Event (ρ : Type*) where
  | acquire (r : ρ)
  | release (r : ρ)
  deriving DecidableEq, Repr

inductive Kind where
  | owned
  | check
  | optional
  -- A rung that cannot fail.
  | certain
  deriving DecidableEq, Repr

def unwind (held : List ρ) : List (Event ρ) := held.map .release

section Climb
variable (kind : ρ → Kind) (answer : ρ → Option ε) (report : ρ → ε → ε)

/-- The calls, and the error reported unless all went well; `held` is the stack
of what has been acquired, `calls` the calls so far. -/
def climb : List ρ → List ρ → List (Event ρ) → List (Event ρ) × Option ε
  | [], _, calls => (calls, none)
  | r :: rest, held, calls =>
    match kind r with
    | .certain => climb rest (r :: held) (calls ++ [.acquire r])
    | .optional =>
      match answer r with
      | some _ => climb rest held calls
      | none => climb rest (r :: held) (calls ++ [.acquire r])
    | .check =>
      match answer r with
      | some e => (calls ++ unwind held, some (report r e))
      | none => climb rest held calls
    | .owned =>
      match answer r with
      | some e => (calls ++ unwind held, some (report r e))
      | none => climb rest (r :: held) (calls ++ [.acquire r])

/-- The rung ends up held. -/
def takes (r : ρ) : Bool :=
  match kind r with
  | .certain => true
  | .check => false
  | .owned | .optional => (answer r).isNone

/-- The rung stops the climb. -/
def stops (r : ρ) : Bool :=
  match kind r with
  | .certain | .optional => false
  | .owned | .check => (answer r).isSome

end Climb

section Rules
variable {kind : ρ → Kind} {answer : ρ → Option ε} {report : ρ → ε → ε}

/-- One rung that does not stop the climb. -/
theorem climb_cons {r : ρ} (unstopped : stops kind answer r = false) (rest held : List ρ)
    (calls : List (Event ρ)) :
    climb kind answer report (r :: rest) held calls =
      if takes kind answer r then climb kind answer report rest (r :: held) (calls ++ [.acquire r])
      else climb kind answer report rest held calls := by
  cases kinded : kind r with
  | certain => simp [climb, takes, kinded]
  | optional => cases answered : answer r <;> simp [climb, takes, kinded, answered]
  | owned | check =>
      cases answered : answer r with
      | none => simp [climb, takes, kinded, answered]
      | some e => simp [stops, kinded, answered] at unstopped

/-- A climb none of whose rungs stops it takes everything it can. -/
theorem climb_of_none_stops {rungs : List ρ}
    (unstopped : ∀ r ∈ rungs, stops kind answer r = false) (held : List ρ)
    (calls : List (Event ρ)) :
    climb kind answer report rungs held calls =
      (calls ++ (rungs.filter (takes kind answer)).map .acquire, none) := by
  induction rungs generalizing held calls with
  | nil => simp [climb]
  | cons r rest ih =>
      have later := ih fun other member => unstopped other (List.mem_cons_of_mem r member)
      rw [climb_cons (unstopped r List.mem_cons_self)]
      cases taken : takes kind answer r with
      | true => simp [later, taken]
      | false => simp [later, taken]

/-- A climb stopped at a rung comes all the way down. -/
theorem climb_of_stops {front back : List ρ} {r : ρ} {e : ε}
    (unstopped : ∀ q ∈ front, stops kind answer q = false) (stopped : stops kind answer r = true)
    (failed : answer r = some e) (held : List ρ) (calls : List (Event ρ)) :
    climb kind answer report (front ++ r :: back) held calls =
      (calls ++ (front.filter (takes kind answer)).map .acquire ++
        unwind ((front.filter (takes kind answer)).reverse ++ held), some (report r e)) := by
  induction front generalizing held calls with
  | nil =>
      cases kinded : kind r with
      | owned | check => simp [climb, kinded, failed]
      | optional | certain => simp [stops, kinded] at stopped
  | cons q rest ih =>
      have later := ih fun other member => unstopped other (List.mem_cons_of_mem q member)
      rw [List.cons_append, climb_cons (unstopped q List.mem_cons_self)]
      cases taken : takes kind answer q with
      | true => simp [later, taken]
      | false => simp [later, taken]

theorem answer_of_stops {r : ρ} (stopped : stops kind answer r = true) : (answer r).isSome := by
  cases kinded : kind r with
  | owned | check => simpa [stops, kinded] using stopped
  | optional | certain => simp [stops, kinded] at stopped

/-- The first rung that stops a climb, if any does. -/
theorem stops_split (kind : ρ → Kind) (answer : ρ → Option ε) (rungs : List ρ) :
    (∀ r ∈ rungs, stops kind answer r = false) ∨
      ∃ front r back e, rungs = front ++ r :: back ∧ answer r = some e ∧
        stops kind answer r = true ∧ ∀ q ∈ front, stops kind answer q = false := by
  induction rungs with
  | nil => exact Or.inl nofun
  | cons r rest ih =>
      cases stopped : stops kind answer r with
      | true =>
          obtain ⟨e, failed⟩ := Option.isSome_iff_exists.mp (answer_of_stops stopped)
          exact Or.inr ⟨[], r, rest, e, rfl, failed, stopped, nofun⟩
      | false =>
          rcases ih with unstopped | ⟨front, q, back, e, rfl, failed, qStops, unstopped⟩
          · exact Or.inl (List.forall_mem_cons.mpr ⟨stopped, unstopped⟩)
          · exact Or.inr ⟨r :: front, q, back, e, rfl, failed, qStops,
              List.forall_mem_cons.mpr ⟨stopped, unstopped⟩⟩

theorem none_stops_of_done {rungs held : List ρ} {before calls : List (Event ρ)}
    (done : climb kind answer report rungs held before = (calls, none)) :
    ∀ r ∈ rungs, stops kind answer r = false := by
  rcases stops_split kind answer rungs with
    unstopped | ⟨front, r, back, cause, rfl, answered, stopped, unstopped⟩
  · exact unstopped
  · rw [climb_of_stops unstopped stopped answered] at done
    cases done

end Rules

/-! ## What stands on what -/

section Needs
variable [DecidableEq ρ] (needs uses : ρ → List ρ)

/-- What is held after the calls, when nothing is acquired twice or before what
it needs, and nothing is released while something held still uses it. -/
def settle : List ρ → List (Event ρ) → Option (List ρ)
  | held, [] => some held
  | held, .acquire r :: rest =>
      if r ∉ held ∧ ∀ q ∈ needs r, q ∈ held then settle (r :: held) rest else none
  | held, .release r :: rest =>
      if r ∈ held ∧ ∀ q ∈ held, r ∉ uses q then settle (held.erase r) rest else none

theorem settle_append (held : List ρ) (front back : List (Event ρ)) :
    settle needs uses held (front ++ back) =
      (settle needs uses held front).bind fun now => settle needs uses now back := by
  induction front generalizing held with
  | nil => rfl
  | cons event rest ih =>
      cases event with
      | acquire r | release r =>
          simp only [List.cons_append, settle]
          split
          · exact ih _
          · rfl

/-- Nothing acquired is used by itself or by anything acquired before it. -/
def UsedLater (acquired : List ρ) : Prop :=
  (∀ r ∈ acquired, r ∉ uses r) ∧ acquired.Pairwise fun earlier later => later ∉ uses earlier

instance (acquired : List ρ) : Decidable (UsedLater uses acquired) :=
  inferInstanceAs (Decidable (_ ∧ _))

variable {needs uses}

omit [DecidableEq ρ] in
theorem UsedLater.sublist {part acquired : List ρ} (later : UsedLater uses acquired)
    (sub : part.Sublist acquired) : UsedLater uses part :=
  ⟨fun r member => later.1 r (sub.subset member), later.2.sublist sub⟩

/-- Latest first, each is released before what it uses. -/
theorem UsedLater.settle_unwind {acquired : List ρ} (later : UsedLater uses acquired) :
    settle needs uses acquired.reverse (unwind acquired.reverse) = some [] := by
  induction acquired using List.reverseRecOn with
  | nil => rfl
  | append_singleton before r ih =>
      have free : ∀ q ∈ r :: before.reverse, r ∉ uses q := by
        intro q member
        rcases List.mem_cons.mp member with rfl | earlier
        · exact later.1 q (List.mem_append_right _ (List.mem_singleton.mpr rfl))
        · exact (List.pairwise_append.mp later.2).2.2 q (List.mem_reverse.mp earlier) r
            (List.mem_singleton.mpr rfl)
      rw [List.reverse_append, List.reverse_singleton, List.singleton_append, unwind,
        List.map_cons, settle, if_pos ⟨List.mem_cons_self, free⟩, List.erase_cons_head]
      exact ih (later.sublist (List.sublist_append_left before [r]))

end Needs

section WellOrdered
variable [DecidableEq ρ] (kind : ρ → Kind) (needs : ρ → List ρ)

/-- A rung that is held whenever the climb has passed it. -/
def certainlyHeld (r : ρ) : Bool := kind r = .owned || kind r = .certain

/-- Each rung is new and needs only rungs that are certainly held before it. -/
def wellOrdered : List ρ → List ρ → Bool
  | _, [] => true
  | seen, r :: rest =>
      decide (r ∉ seen) && (needs r).all (fun q => q ∈ seen && certainlyHeld kind q) &&
        wellOrdered (r :: seen) rest

variable {kind needs} {uses : ρ → List ρ}

theorem wellOrdered_front {seen front back : List ρ}
    (ordered : wellOrdered kind needs seen (front ++ back) = true) :
    wellOrdered kind needs seen front = true := by
  induction front generalizing seen with
  | nil => rfl
  | cons r rest ih =>
      simp only [List.cons_append, wellOrdered, Bool.and_eq_true] at ordered ⊢
      exact ⟨ordered.1, ih ordered.2⟩

variable {ε : Type*} {answer : ρ → Option ε}

omit [DecidableEq ρ] in
theorem takes_of_certainlyHeld {r : ρ} (unstopped : stops kind answer r = false)
    (sure : certainlyHeld kind r = true) : takes kind answer r = true := by
  cases kinded : kind r with
  | owned => simpa [stops, takes, kinded] using unstopped
  | certain => simp [takes, kinded]
  | check | optional => simp [certainlyHeld, kinded] at sure

/-- What is held was passed, and the certain ones among the rungs passed are held. -/
structure Footing (kind : ρ → Kind) (seen held : List ρ) : Prop where
  passed : ∀ r ∈ held, r ∈ seen
  sure : ∀ r ∈ seen, certainlyHeld kind r = true → r ∈ held

/-- Going up a well ordered ladder keeps the footing. -/
theorem Footing.climb {seen held rungs : List ρ} (footing : Footing kind seen held)
    (ordered : wellOrdered kind needs seen rungs = true)
    (unstopped : ∀ r ∈ rungs, stops kind answer r = false) :
    settle needs uses held ((rungs.filter (takes kind answer)).map .acquire) =
      some ((rungs.filter (takes kind answer)).reverse ++ held) := by
  induction rungs generalizing seen held with
  | nil => rfl
  | cons r rest ih =>
      simp only [wellOrdered, Bool.and_eq_true, decide_eq_true_eq, List.all_eq_true] at ordered
      obtain ⟨⟨fresh, supported⟩, later⟩ := ordered
      have restClear := fun q member => unstopped q (List.mem_cons_of_mem r member)
      have notHeld : r ∉ held := fun member => fresh (footing.passed r member)
      cases taken : takes kind answer r with
      | false =>
          have stepped : Footing kind (r :: seen) held := by
            constructor
            · exact fun q member => List.mem_cons_of_mem r (footing.passed q member)
            · intro q member sure
              rcases List.mem_cons.mp member with rfl | old
              · rw [takes_of_certainlyHeld (unstopped q List.mem_cons_self) sure] at taken
                cases taken
              · exact footing.sure q old sure
          simpa [taken] using ih stepped later restClear
      | true =>
          have below : ∀ q ∈ needs r, q ∈ held := fun q needed =>
            footing.sure q (supported q needed).1 (supported q needed).2
          have stepped : Footing kind (r :: seen) (r :: held) := by
            constructor
            · intro q member
              rcases List.mem_cons.mp member with rfl | old
              · exact List.mem_cons_self
              · exact List.mem_cons_of_mem r (footing.passed q old)
            · intro q member sure
              rcases List.mem_cons.mp member with rfl | old
              · exact List.mem_cons_self
              · exact List.mem_cons_of_mem r (footing.sure q old sure)
          rw [List.filter_cons_of_pos taken, List.reverse_cons, List.append_assoc,
            List.singleton_append, List.map_cons, settle, if_pos ⟨notHeld, below⟩]
          exact ih stepped later restClear

omit [DecidableEq ρ] in
theorem Footing.ground (kind : ρ → Kind) : Footing kind [] [] :=
  ⟨fun _ member => member, fun _ member => absurd member List.not_mem_nil⟩

/-- A climb of a well ordered ladder that fails leaves nothing held, if what it
had acquired is not used by what it acquired earlier. -/
theorem settle_climb_failed {report : ρ → ε → ε} {rungs : List ρ} {calls : List (Event ρ)} {e : ε}
    (ordered : wellOrdered kind needs [] rungs = true) (later : UsedLater uses rungs.dropLast)
    (failed : climb kind answer report rungs [] [] = (calls, some e)) :
    settle needs uses [] calls = some [] := by
  rcases stops_split kind answer rungs with
    unstopped | ⟨front, r, back, cause, rfl, answered, stopped, unstopped⟩
  · rw [climb_of_none_stops unstopped] at failed
    simp at failed
  · rw [climb_of_stops unstopped stopped answered, Prod.mk.injEq] at failed
    have settled : settle needs uses [] ((front.filter (takes kind answer)).map .acquire) =
        some ((front.filter (takes kind answer)).reverse ++ []) :=
      (Footing.ground kind).climb (wellOrdered_front ordered) unstopped
    -- the rung that failed is not held, so at most the others are
    have beforeLast : front.Sublist (front ++ r :: back).dropLast := by
      rw [List.dropLast_append_cons]
      exact List.sublist_append_left front _
    rw [← failed.1, List.nil_append, settle_append, settled, List.append_nil]
    exact (later.sublist (List.filter_sublist.trans beforeLast)).settle_unwind

/-- One that succeeds holds all it could take. -/
theorem settle_climb_done {report : ρ → ε → ε} {rungs : List ρ} {calls : List (Event ρ)}
    (ordered : wellOrdered kind needs [] rungs = true)
    (done : climb kind answer report rungs [] [] = (calls, none)) :
    settle needs uses [] calls = some (rungs.filter (takes kind answer)).reverse := by
  have unstopped := none_stops_of_done done
  rw [climb_of_none_stops unstopped, Prod.mk.injEq] at done
  rw [← done.1, List.nil_append, (Footing.ground kind).climb ordered unstopped, List.append_nil]

end WellOrdered

end AcquireLadder
