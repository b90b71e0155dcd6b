import KernelLabs.Lib.Pool

/-!
# A heap whose cells belong to the parties

Parties that allocate, use and free cells of one heap, each through the single
pointer it holds.  A cell is never reused, so a freed one stays recognisable.
`Owned` is one equation for each address: as many parties point at a cell as
the cell is alive, which is one or none.  No two parties share a cell, no
pointer dangles and no live cell is lost, all three read off that equation.

`contexts` pairs each party with the cell it owns.  A step of one party changes
that party's pair only, so facts about the cells can be counted over the pairs
without naming an address again.
-/

set_option autoImplicit false

namespace OwnedHeap

open PartyPool

universe u v
variable {κ : Type u} {τ : Type v}

abbrev Heap (κ : Type u) := List (Option κ)

/-- What the pointer reads; `none` for a freed cell. -/
def load (heap : Heap κ) (a : Nat) : Option κ := heap[a]?.join

/-- A new cell, at address `heap.length`. -/
def alloc (heap : Heap κ) (c : κ) : Heap κ := heap ++ [some c]

def store (heap : Heap κ) (a : Nat) (c : κ) : Heap κ := heap.set a (some c)

def free (heap : Heap κ) (a : Nat) : Heap κ := heap.set a none

theorem lt_of_load {heap : Heap κ} {a : Nat} {c : κ} (loaded : load heap a = some c) :
    a < heap.length := by
  by_contra beyond
  rw [load, List.getElem?_eq_none (Nat.le_of_not_lt beyond)] at loaded
  contradiction

theorem load_alloc_new (heap : Heap κ) (c : κ) : load (alloc heap c) heap.length = some c := by
  simp [load, alloc]

theorem load_alloc_old {heap : Heap κ} {a : Nat} (c : κ) (old : a ≠ heap.length) :
    load (alloc heap c) a = load heap a := by
  rcases Nat.lt_or_gt_of_ne old with inside | beyond
  · rw [load, alloc, List.getElem?_append_left inside, load]
  · have longer : (heap ++ [some c]).length ≤ a := by
      rw [List.length_append, List.length_singleton]
      omega
    rw [load, alloc, load, List.getElem?_eq_none longer,
      List.getElem?_eq_none (Nat.le_of_lt beyond)]

theorem load_length (heap : Heap κ) : load heap heap.length = none := by
  rw [load, List.getElem?_eq_none (Nat.le_refl _)]
  rfl

theorem load_set_self {heap : Heap κ} {a : Nat} (inside : a < heap.length) (cell : Option κ) :
    load (heap.set a cell) a = cell := by
  rw [load, List.getElem?_set_self inside]
  rfl

theorem load_set_other {heap : Heap κ} {a b : Nat} (other : a ≠ b) (cell : Option κ) :
    load (heap.set a cell) b = load heap b := by
  rw [load, List.getElem?_set_ne other, load]

/-! ## Ownership -/

/-- A live cell has one owner and a freed one has none. -/
def Owned (address : τ → Option Nat) (heap : Heap κ) (parties : List τ) : Prop :=
  ∀ a, parties.countP (fun t => decide (address t = some a)) =
    if (load heap a).isSome then 1 else 0

/-- The parties with the cells they own. -/
def contexts (address : τ → Option Nat) (heap : Heap κ) (parties : List τ) :
    List (τ × Option κ) :=
  parties.map fun t => (t, (address t).bind (load heap))

section Rules
variable {address : τ → Option Nat} {heap : Heap κ} {parties : List τ} {i : Nat}
  {party moved : τ} {a : Nat}

theorem owned_nil (address : τ → Option Nat) : Owned address ([] : Heap κ) [] := by
  intro a
  simp [load]

theorem Owned.spawn (owned : Owned address heap parties) (new : τ) (fresh : address new = none) :
    Owned address heap (parties ++ [new]) := by
  intro a
  rw [List.countP_append, owned a]
  simp [fresh]

theorem Owned.loads (owned : Owned address heap parties) (found : parties[i]? = some party)
    (points : address party = some a) : ∃ c, load heap a = some c := by
  have counted := owned a
  have own : 0 < parties.countP (fun t => decide (address t = some a)) :=
    List.countP_pos_iff.mpr ⟨party, List.mem_of_getElem? found, decide_eq_true points⟩
  split at counted
  · exact Option.isSome_iff_exists.mp (by assumption)
  · omega

theorem Owned.apart (owned : Owned address heap parties) (found : parties[i]? = some party)
    (points : address party = some a) {j : Nat} {other : τ} (elsewhere : j ≠ i)
    (otherFound : parties[j]? = some other) : address other ≠ some a := by
  intro same
  have single : parties.countP (fun t => decide (address t = some a)) ≤ 1 := by
    rw [owned a]
    split <;> omega
  exact elsewhere (eq_of_countP_le_one _ otherFound found (decide_eq_true same)
    (decide_eq_true points) single)

/-- A live cell is not lost: someone still points at it. -/
theorem Owned.owner (owned : Owned address heap parties) {c : κ} (loaded : load heap a = some c) :
    ∃ t ∈ parties, address t = some a := by
  have counted := owned a
  rw [loaded, Option.isSome_some, if_pos rfl] at counted
  have positive : 0 < parties.countP (fun t => decide (address t = some a)) := by omega
  obtain ⟨t, member, points⟩ := List.countP_pos_iff.mp positive
  exact ⟨t, member, of_decide_eq_true points⟩

theorem Owned.nothing_left (owned : Owned address heap parties)
    (released : ∀ t ∈ parties, address t = none) (a : Nat) : load heap a = none := by
  cases loaded : load heap a with
  | none => rfl
  | some c =>
      obtain ⟨t, member, points⟩ := owned.owner loaded
      rw [released t member] at points
      contradiction

/-- The party keeps its pointer and the heap its cells. -/
theorem Owned.keep (owned : Owned address heap parties) (found : parties[i]? = some party)
    (same : address moved = address party) : Owned address heap (parties.set i moved) := by
  intro b
  have counted := countP_set_add (fun t => decide (address t = some b)) moved found
  rw [owned b, same] at counted
  omega

theorem Owned.alloc (owned : Owned address heap parties) (found : parties[i]? = some party)
    (empty : address party = none) (points : address moved = some heap.length) (c : κ) :
    Owned address (OwnedHeap.alloc heap c) (parties.set i moved) := by
  intro b
  have counted := countP_set_add (fun t => decide (address t = some b)) moved found
  rw [owned b, empty, points] at counted
  by_cases new : b = heap.length
  · subst new
    rw [load_alloc_new]
    simp only [load_length, Option.isSome_none, Option.isSome_some, decide_true, if_true,
      Bool.false_eq_true, if_false, reduceCtorEq, decide_false] at counted ⊢
    omega
  · rw [load_alloc_old c new]
    have other : ¬ some heap.length = some b := fun same => new (Option.some.inj same).symm
    simp only [other, decide_false, Bool.false_eq_true, if_false, reduceCtorEq] at counted
    omega

theorem Owned.store (owned : Owned address heap parties) (found : parties[i]? = some party)
    (points : address party = some a) (still : address moved = some a) (c : κ) :
    Owned address (OwnedHeap.store heap a c) (parties.set i moved) := by
  intro b
  obtain ⟨old, loaded⟩ := owned.loads found points
  rw [owned.keep found (still.trans points.symm) b, OwnedHeap.store]
  by_cases here : a = b
  · subst here
    rw [load_set_self (lt_of_load loaded), loaded]
    rfl
  · rw [load_set_other here]

theorem Owned.free (owned : Owned address heap parties) (found : parties[i]? = some party)
    (points : address party = some a) (dropped : address moved = none) :
    Owned address (OwnedHeap.free heap a) (parties.set i moved) := by
  intro b
  obtain ⟨old, loaded⟩ := owned.loads found points
  have counted := countP_set_add (fun t => decide (address t = some b)) moved found
  rw [owned b, points, dropped] at counted
  rw [OwnedHeap.free]
  by_cases here : a = b
  · subst here
    rw [load_set_self (lt_of_load loaded)]
    rw [loaded] at counted
    simp only [Option.isSome_none, Option.isSome_some, decide_true, if_true,
      Bool.false_eq_true, if_false, reduceCtorEq, decide_false] at counted ⊢
    omega
  · rw [load_set_other here]
    have other : ¬ some a = some b := fun same => here (Option.some.inj same)
    simp only [other, decide_false, Bool.false_eq_true, if_false, reduceCtorEq] at counted
    omega

theorem getElem?_contexts (found : parties[i]? = some party) :
    (contexts address heap parties)[i]? = some (party, (address party).bind (load heap)) := by
  rw [contexts, List.getElem?_map, found]
  rfl

/-- What a step does not change for the others, it changes in one pair only. -/
theorem contexts_set {later : Heap κ} (found : parties[i]? = some party)
    (others : ∀ j other, j ≠ i → parties[j]? = some other →
      (address other).bind (load later) = (address other).bind (load heap)) :
    contexts address later (parties.set i moved) =
      (contexts address heap parties).set i (moved, (address moved).bind (load later)) := by
  apply List.ext_getElem?
  intro j
  by_cases own : i = j
  · subst own
    obtain ⟨bound, _⟩ := List.getElem?_eq_some_iff.mp found
    have inside : i < (contexts address heap parties).length := by
      rw [contexts, List.length_map]
      exact bound
    rw [List.getElem?_set_self inside, contexts, List.getElem?_map, List.getElem?_set_self bound]
    rfl
  · rw [List.getElem?_set_ne own, contexts, contexts, List.getElem?_map, List.getElem?_map,
      List.getElem?_set_ne own]
    cases otherFound : parties[j]? with
    | none => rfl
    | some other =>
        simp only [Option.map_some, others j other (Ne.symm own) otherFound]

theorem contexts_keep (found : parties[i]? = some party) :
    contexts address heap (parties.set i moved) =
      (contexts address heap parties).set i (moved, (address moved).bind (load heap)) :=
  contexts_set found fun _ _ _ _ => rfl

theorem contexts_alloc (owned : Owned address heap parties) (found : parties[i]? = some party)
    (points : address moved = some heap.length) (c : κ) :
    contexts address (alloc heap c) (parties.set i moved) =
      (contexts address heap parties).set i (moved, some c) := by
  have others : ∀ j other, j ≠ i → parties[j]? = some other →
      (address other).bind (load (alloc heap c)) = (address other).bind (load heap) := by
    intro j other _ otherFound
    cases pointer : address other with
    | none => rfl
    | some b =>
        obtain ⟨old, loaded⟩ := owned.loads otherFound pointer
        exact load_alloc_old c (Nat.ne_of_lt (lt_of_load loaded))
  rw [contexts_set found others, points, Option.bind_some, load_alloc_new]

/-- A write to the own cell, or its freeing. -/
theorem contexts_write (owned : Owned address heap parties) (found : parties[i]? = some party)
    (points : address party = some a) (cell : Option κ) :
    contexts address (heap.set a cell) (parties.set i moved) =
      (contexts address heap parties).set i
        (moved, (address moved).bind (load (heap.set a cell))) := by
  refine contexts_set found ?_
  intro j other elsewhere otherFound
  have different := owned.apart found points elsewhere otherFound
  cases pointer : address other with
  | none => rfl
  | some b =>
      rw [pointer] at different
      exact load_set_other (fun same => different (congrArg some same.symm)) cell

end Rules

end OwnedHeap
