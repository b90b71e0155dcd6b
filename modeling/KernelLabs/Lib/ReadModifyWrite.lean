import Mathlib.Data.List.Induction
import Mathlib.Algebra.Order.Group.Nat

/-!
# A variable updated in two accesses, and written by others in one

An update loads the variable and stores a function of what it loaded; updates
exclude each other.  A plain write may come at any time.  One that falls between
the load and the store of an update is lost, and nothing else is: `settle` reads
off the log of the accesses which operations count.
-/

set_option autoImplicit false

namespace ReadModifyWrite

variable {V : Type*}

inductive Touch (V : Type*) where
  | load
  | store
  | write (v : V)
  deriving DecidableEq, Repr

inductive Op (V : Type*) where
  | update
  | set (v : V)
  deriving DecidableEq, Repr

def apply (f : V → V) (v : V) : Op V → V
  | .update => f v
  | .set w => w

structure Settled (V : Type*) where
  midway : Bool
  ops : List (Op V)
  lost : Nat
  deriving DecidableEq, Repr

def Settled.touch (s : Settled V) : Touch V → Settled V
  | .load => { s with midway := true }
  | .store => { s with midway := false, ops := s.ops ++ [.update] }
  | .write v =>
    if s.midway then { s with lost := s.lost + 1 } else { s with ops := s.ops ++ [.set v] }

def settle (log : List (Touch V)) : Settled V := log.foldl Settled.touch ⟨false, [], 0⟩

def Touch.op : Touch V → Option (Op V)
  | .load => none
  | .store => some .update
  | .write v => some (.set v)

/-- Every store and every write, in order. -/
def plain (log : List (Touch V)) : List (Op V) := log.filterMap Touch.op

@[simp] theorem settle_nil : settle ([] : List (Touch V)) = ⟨false, [], 0⟩ := rfl

theorem settle_concat (log : List (Touch V)) (touch : Touch V) :
    settle (log ++ [touch]) = (settle log).touch touch := by
  rw [settle, List.foldl_append]
  rfl

theorem plain_concat (log : List (Touch V)) (touch : Touch V) :
    plain (log ++ [touch]) = plain log ++ touch.op.toList := by
  rw [plain, List.filterMap_append]
  cases touch <;> rfl

theorem ops_sublist_plain (log : List (Touch V)) : (settle log).ops.Sublist (plain log) := by
  induction log using List.reverseRecOn with
  | nil => exact List.Sublist.slnil
  | append_singleton log touch ih =>
      rw [settle_concat, plain_concat]
      cases touch with
      | load => exact ih.trans (List.sublist_append_left _ _)
      | store => exact ih.append (List.Sublist.refl _)
      | write v =>
          simp only [Settled.touch]
          split
          · exact ih.trans (List.sublist_append_left _ _)
          · exact ih.append (List.Sublist.refl _)

/-- `lost` counts the writes that do not count. -/
theorem ops_length_add_lost (log : List (Touch V)) :
    (settle log).ops.length + (settle log).lost = (plain log).length := by
  induction log using List.reverseRecOn with
  | nil => rfl
  | append_singleton log touch ih =>
      rw [settle_concat, plain_concat, List.length_append, ← ih]
      cases touch with
      | load => rfl
      | store =>
          simp only [Settled.touch, Touch.op, List.length_append, Option.toList_some,
            List.length_singleton]
          omega
      | write v =>
          simp only [Settled.touch, Touch.op, Option.toList_some, List.length_singleton]
          split
          · dsimp only
            omega
          · simp only [List.length_append, List.length_singleton]
            omega

theorem ops_eq_plain_iff (log : List (Touch V)) :
    (settle log).ops = plain log ↔ (settle log).lost = 0 := by
  have counted := ops_length_add_lost log
  constructor
  · intro same
    rw [same] at counted
    omega
  · intro noneLost
    apply (ops_sublist_plain log).eq_of_length
    omega

/-- No update is lost. -/
theorem count_update [DecidableEq V] (log : List (Touch V)) :
    (settle log).ops.count .update = log.count .store := by
  induction log using List.reverseRecOn with
  | nil => rfl
  | append_singleton log touch ih =>
      rw [settle_concat, List.count_append]
      cases touch with
      | load => simpa [Settled.touch] using ih
      | store => simp [Settled.touch, ih]
      | write v =>
          simp only [Settled.touch]
          split <;> simp [ih]

theorem lost_mono (log : List (Touch V)) (touch : Touch V) :
    (settle log).lost ≤ (settle (log ++ [touch])).lost := by
  rw [settle_concat]
  cases touch with
  | load | store => exact Nat.le_refl _
  | write v =>
      simp only [Settled.touch]
      split <;> simp

/-! ## The variable -/

/-- The variable agrees with the log; `inFlight` is what the update under way, if
there is one, has loaded. -/
structure Agrees (f : V → V) (start value : V) (inFlight : Option V) (log : List (Touch V)) :
    Prop where
  midway : (settle log).midway = inFlight.isSome
  loaded : ∀ tmp ∈ inFlight, tmp = (settle log).ops.foldl (apply f) start
  rest : inFlight = none → value = (settle log).ops.foldl (apply f) start

section Rules
variable {f : V → V} {start value : V} {inFlight : Option V} {log : List (Touch V)}

theorem agrees_start (f : V → V) (start : V) : Agrees f start start none [] := by
  constructor
  · rfl
  · intro tmp member
    cases member
  · intro _
    rfl

theorem Agrees.load (agrees : Agrees f start value none log) :
    Agrees f start value (some value) (log ++ [.load]) := by
  constructor
  · rw [settle_concat]
    rfl
  · intro tmp member
    cases member
    rw [settle_concat]
    exact agrees.rest rfl
  · intro loading
    cases loading

theorem Agrees.store {tmp : V} (agrees : Agrees f start value (some tmp) log) :
    Agrees f start (f tmp) none (log ++ [.store]) := by
  constructor
  · rw [settle_concat]
    rfl
  · intro tmp member
    cases member
  · intro _
    rw [settle_concat, agrees.loaded tmp rfl, Settled.touch, List.foldl_append]
    rfl

theorem Agrees.write (agrees : Agrees f start value inFlight log) (v : V) :
    Agrees f start v inFlight (log ++ [.write v]) := by
  obtain ⟨midway, loaded, rest⟩ := agrees
  cases flying : inFlight with
  | some tmp =>
      have crossed : (settle log).midway = true := by rw [midway, flying]; rfl
      constructor
      · simp [settle_concat, Settled.touch, crossed]
      · intro other member
        rw [settle_concat, Settled.touch, if_pos crossed]
        exact loaded other (flying ▸ member)
      · intro loading
        cases loading
  | none =>
      have outside : (settle log).midway = false := by rw [midway, flying]; rfl
      constructor
      · simp [settle_concat, Settled.touch, outside]
      · intro tmp member
        cases member
      · intro _
        rw [settle_concat, Settled.touch, outside, if_neg Bool.false_ne_true, List.foldl_append]
        rfl

theorem Agrees.lost_write (agrees : Agrees f start value inFlight log) (v : V) :
    (settle (log ++ [.write v])).lost =
      (settle log).lost + if inFlight.isSome then 1 else 0 := by
  rw [settle_concat, Settled.touch, agrees.midway]
  split <;> rfl

end Rules

end ReadModifyWrite
