import Mathlib.Data.List.Infix
import KernelLabs.Lib.LockWord
import KernelLabs.Lib.Pool

/-!
# Sections seen store by store

Parties change some variables only under a lock, one store after the other;
others load them without it and may look between two stores.  `history` is the
list of all stores made.  A party inside has a plan: the stores it is still
going to make.  `Resting` is what holds of the history between two sections,
`Safe` what holds after every single store.
-/

set_option autoImplicit false

namespace StoreSections

open LockWord PartyPool

universe u v
variable {ω : Type u} {τ : Type v}

structure Sections (ω : Type u) (τ : Type v) where
  /-- The plan of a party inside. -/
  plan : τ → Option (List ω)
  Resting : List ω → Prop
  Safe : List ω → Prop

variable (sections : Sections ω τ)

def Sections.inside (party : τ) : Bool := (sections.plan party).isSome

/-- Carrying out the plan is safe at each store and comes to rest. -/
structure Ahead (history plan : List ω) : Prop where
  safe : ∀ front, front <+: plan → sections.Safe (history ++ front)
  rests : sections.Resting (history ++ plan)

/-- What one step does to the lock, the history and the party's plan. -/
inductive StoreStep (lock : Bool) (history : List ω) (was : Option (List ω)) (lock' : Bool)
    (history' : List ω) (now : Option (List ω)) : Prop where
  | passes (word : lock' = lock) (same : history' = history) (place : now = was)
  | acquires (plan : List ω) (free : lock = false) (wasOut : was = none) (word : lock' = true)
      (same : history' = history) (place : now = some plan)
      (ahead : sections.Resting history → Ahead sections history plan)
  | stores (store : ω) (plan : List ω) (wasIn : was = some (store :: plan)) (word : lock' = lock)
      (stored : history' = history ++ [store]) (place : now = some plan)
  | releases (wasIn : was = some []) (word : lock' = false) (same : history' = history)
      (place : now = none)

structure Coherent (lock : Bool) (history : List ω) (parties : List τ) : Prop where
  exclusive : Exclusive lock (parties.countP sections.inside)
  free : lock = false → sections.Resting history
  ahead : ∀ party ∈ parties, ∀ plan, sections.plan party = some plan → Ahead sections history plan
  safe : ∀ front, front <+: history → sections.Safe front

section Rules
variable {sections} {lock lock' : Bool} {history history' : List ω} {parties : List τ} {i : Nat}
  {party moved : τ}

theorem forall_prefix_concat {store : ω} {P : List ω → Prop}
    (older : ∀ front, front <+: history → P front) (newest : P (history ++ [store])) :
    ∀ front, front <+: history ++ [store] → P front := by
  intro front before
  rcases List.prefix_concat_iff.mp before with whole | earlier
  · exact whole ▸ newest
  · exact older front earlier

theorem Ahead.next {store : ω} {plan : List ω} (ahead : Ahead sections history (store :: plan)) :
    Ahead sections (history ++ [store]) plan := by
  constructor
  · intro front before
    rw [List.append_assoc, List.singleton_append]
    exact ahead.safe (store :: front) (List.cons_prefix_cons.mpr ⟨rfl, before⟩)
  · rw [List.append_assoc, List.singleton_append]
    exact ahead.rests

theorem Ahead.now {plan : List ω} (ahead : Ahead sections history plan) :
    sections.Safe history := by
  have safe := ahead.safe [] List.nil_prefix
  rwa [List.append_nil] at safe

theorem StoreStep.lockStep
    (stepped : StoreStep sections lock history (sections.plan party) lock' history'
      (sections.plan moved)) :
    LockStep lock (sections.inside party) lock' (sections.inside moved) := by
  simp only [Sections.inside]
  cases stepped with
  | passes word same place => exact .passes word (congrArg Option.isSome place)
  | acquires plan free wasOut word same place ahead =>
      rw [wasOut, place]
      exact .acquires free rfl word rfl
  | stores store plan wasIn word stored place =>
      rw [wasIn, place]
      exact .passes word rfl
  | releases wasIn word same place =>
      rw [wasIn, place]
      exact .releases rfl word rfl

/-- With a party inside, no other one is. -/
theorem Coherent.alone (coherent : Coherent sections lock history parties)
    (found : parties[i]? = some party) {plan : List ω} (inside : sections.plan party = some plan)
    {j : Nat} {other : τ} (elsewhere : j ≠ i) (otherFound : parties[j]? = some other) :
    sections.plan other = none := by
  cases at' : sections.plan other with
  | none => rfl
  | some otherPlan =>
      have own : sections.inside party = true := congrArg Option.isSome inside
      have also : sections.inside other = true := congrArg Option.isSome at'
      exact absurd (eq_of_countP_le_one _ otherFound found also own coherent.exclusive.le_one)
        elsewhere

/-- The history only grows. -/
theorem StoreStep.grows {was now : Option (List ω)}
    (stepped : StoreStep sections lock history was lock' history' now) :
    history <+: history' := by
  cases stepped with
  | passes _ same | acquires _ _ _ _ same | releases _ _ same =>
      rw [same]
  | stores store plan wasIn word stored place =>
      rw [stored]
      exact List.prefix_append _ _

theorem Coherent.move (coherent : Coherent sections lock history parties)
    (found : parties[i]? = some party)
    (stepped : StoreStep sections lock history (sections.plan party) lock' history'
      (sections.plan moved)) :
    Coherent sections lock' history' (parties.set i moved) := by
  have exclusive := coherent.exclusive.step stepped.lockStep
    (countP_set_add sections.inside moved found)
  have old := coherent.ahead party (List.mem_of_getElem? found)
  cases stepped with
  | passes word same place =>
      rw [same]
      refine ⟨exclusive, fun free => coherent.free (word ▸ free), ?_, coherent.safe⟩
      refine forall_mem_set coherent.ahead ?_
      intro plan inside
      exact old plan (place.symm.trans inside)
  | acquires plan free wasOut word same place ahead =>
      rw [same]
      refine ⟨exclusive, fun later => absurd (word.symm.trans later) (by decide), ?_, coherent.safe⟩
      refine forall_mem_set coherent.ahead ?_
      intro other inside
      cases Option.some.inj (place.symm.trans inside)
      exact ahead (coherent.free free)
  | stores store plan wasIn word stored place =>
      have ahead := (old _ wasIn).next
      have locked := coherent.exclusive.locked
        (List.countP_pos_iff.mpr ⟨party, List.mem_of_getElem? found, congrArg Option.isSome wasIn⟩)
      rw [stored]
      refine ⟨exclusive, fun later => ?_, ?_, forall_prefix_concat coherent.safe ahead.now⟩
      · exact absurd (locked.symm.trans (word.symm.trans later)) (by decide)
      · intro other member otherPlan inside
        obtain ⟨j, otherFound⟩ := List.mem_iff_getElem?.mp member
        rcases getElem?_set_cases otherFound with ⟨_, rfl⟩ | ⟨elsewhere, here⟩
        · cases Option.some.inj (place.symm.trans inside)
          exact ahead
        · exact absurd ((coherent.alone found wasIn elsewhere here).symm.trans inside) nofun
  | releases wasIn word same place =>
      have rests := (old _ wasIn).rests
      rw [List.append_nil] at rests
      rw [same]
      refine ⟨exclusive, fun _ => rests, ?_, coherent.safe⟩
      refine forall_mem_set coherent.ahead ?_
      intro plan inside
      exact absurd (place.symm.trans inside) nofun

/-- A step that stores moves the only party inside. -/
theorem Coherent.others (coherent : Coherent sections lock history parties)
    (found : parties[i]? = some party)
    (stepped : StoreStep sections lock history (sections.plan party) lock' history'
      (sections.plan moved)) {j : Nat} {other : τ} (elsewhere : j ≠ i)
    (otherFound : parties[j]? = some other) :
    history' = history ∨ sections.plan other = none := by
  cases stepped with
  | passes _ same | acquires _ _ _ _ same | releases _ _ same => exact Or.inl same
  | stores store plan wasIn word stored place =>
      exact Or.inr (coherent.alone found wasIn elsewhere otherFound)

theorem Coherent.enter (coherent : Coherent sections lock history parties) {new : τ}
    (out : sections.plan new = none) : Coherent sections lock history (parties ++ [new]) := by
  refine ⟨?_, coherent.free, ?_, coherent.safe⟩
  · have away : sections.inside new = false := by
      rw [Sections.inside, out]
      rfl
    rw [List.countP_append, List.countP_singleton, away]
    exact coherent.exclusive
  · refine forall_mem_spawn coherent.ahead ?_
    intro plan inside
    exact absurd (out.symm.trans inside) nofun

/-- A party inside with nothing left to store sees the history at rest. -/
theorem Coherent.rests (coherent : Coherent sections lock history parties)
    (found : parties[i]? = some party) (idle : sections.plan party = some []) :
    sections.Resting history := by
  have rests := (coherent.ahead party (List.mem_of_getElem? found) [] idle).rests
  rwa [List.append_nil] at rests

end Rules

end StoreSections
