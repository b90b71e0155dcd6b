import Mathlib.Data.List.Basic
import Mathlib.Algebra.GroupWithZero.Nat
import Mathlib.Algebra.Order.Group.Nat

/-!
# Pools of parties over shared state

Any number of parties run over one shared state.  A party is its own local
state; it is named by its place in the pool and is never removed, so a name
keeps its meaning along a run.  One atomic step of party `i` reads and writes
the shared state and that party's local state only.
-/

set_option autoImplicit false

namespace PartyPool

universe u v w
variable {σ : Type u} {τ : Type v} {ι : Type w}

structure Pool (σ : Type u) (τ : Type v) where
  shared : σ
  parties : List τ
  deriving DecidableEq, Repr

def Pool.spawn (pool : Pool σ τ) (party : τ) : Pool σ τ :=
  { pool with parties := pool.parties ++ [party] }

/-- One atomic step of party `i` with environment input `x`. -/
def Pool.act (localStep : Nat → ι → σ → τ → Option (σ × τ)) (pool : Pool σ τ)
    (i : Nat) (x : ι) : Option (Pool σ τ) :=
  match pool.parties[i]? with
  | none => none
  | some party =>
    match localStep i x pool.shared party with
    | none => none
    | some (shared, moved) => some ⟨shared, pool.parties.set i moved⟩

/-- Everything a party's step can do to the pool. -/
theorem Pool.act_eq_some {localStep : Nat → ι → σ → τ → Option (σ × τ)}
    {pool next : Pool σ τ} {i : Nat} {x : ι} (acted : pool.act localStep i x = some next) :
    ∃ party shared moved, pool.parties[i]? = some party ∧
      localStep i x pool.shared party = some (shared, moved) ∧
      next = ⟨shared, pool.parties.set i moved⟩ := by
  unfold Pool.act at acted
  split at acted
  · contradiction
  · rename_i party found
    split at acted
    · contradiction
    · rename_i shared moved stepped
      exact ⟨party, shared, moved, found, stepped, (Option.some.inj acted).symm⟩

theorem Pool.act_eq_none {localStep : Nat → ι → σ → τ → Option (σ × τ)}
    {pool : Pool σ τ} {i : Nat} {x : ι} {party : τ} (found : pool.parties[i]? = some party) :
    pool.act localStep i x = none ↔ localStep i x pool.shared party = none := by
  cases stepped : localStep i x pool.shared party with
  | none => simp [Pool.act, found, stepped]
  | some pair => simp [Pool.act, found, stepped]

section Membership
variable {parties : List τ} {i : Nat} {party moved : τ}

theorem forall_mem_set {P : τ → Prop} (all : ∀ t ∈ parties, P t) (own : P moved) :
    ∀ t ∈ parties.set i moved, P t := by
  intro t member
  rcases List.mem_or_eq_of_mem_set member with old | rfl
  · exact all t old
  · exact own

theorem forall_mem_spawn {P : τ → Prop} (all : ∀ t ∈ parties, P t) (own : P party) :
    ∀ t ∈ parties ++ [party], P t := by
  intro t member
  rcases List.mem_append.mp member with old | new
  · exact all t old
  · exact List.mem_singleton.mp new ▸ own

theorem getElem?_spawn_cases {other : τ} (found : (parties ++ [party])[i]? = some other) :
    parties[i]? = some other ∨ (i = parties.length ∧ other = party) := by
  rcases Nat.lt_or_ge i parties.length with old | new
  · rw [List.getElem?_append_left old] at found
    exact Or.inl found
  · rw [List.getElem?_append_right new] at found
    obtain ⟨bound, _⟩ := List.getElem?_eq_some_iff.mp found
    rw [List.length_singleton] at bound
    exact Or.inr ⟨by omega, List.mem_singleton.mp (List.mem_of_getElem? found)⟩

theorem getElem?_spawn_old (found : parties[i]? = some party) (new : τ) :
    (parties ++ [new])[i]? = some party := by
  obtain ⟨bound, _⟩ := List.getElem?_eq_some_iff.mp found
  rw [List.getElem?_append_left bound]
  exact found

theorem getElem?_set_cases {j : Nat} {other : τ}
    (found : (parties.set i moved)[j]? = some other) :
    (j = i ∧ other = moved) ∨ (j ≠ i ∧ parties[j]? = some other) := by
  by_cases own : i = j
  · subst own
    obtain ⟨bound, here⟩ := List.getElem?_eq_some_iff.mp found
    rw [List.getElem_set_self] at here
    exact Or.inl ⟨rfl, here.symm⟩
  · rw [List.getElem?_set_ne own] at found
    exact Or.inr ⟨Ne.symm own, found⟩

theorem moved_mem_set (found : parties[i]? = some party) : moved ∈ parties.set i moved := by
  obtain ⟨bound, _⟩ := List.getElem?_eq_some_iff.mp found
  exact List.mem_set bound moved

theorem mem_set_of_ne {other : τ} (found : parties[i]? = some party)
    (member : other ∈ parties) (differs : other ≠ party) : other ∈ parties.set i moved := by
  obtain ⟨j, otherFound⟩ := List.mem_iff_getElem?.mp member
  have indexNe : i ≠ j := by
    rintro rfl
    exact differs (Option.some.inj (otherFound.symm.trans found))
  exact List.mem_of_getElem? (i := j) (by rw [List.getElem?_set_ne indexNe]; exact otherFound)

theorem mem_eraseIdx_of_mem_set {other : τ} (member : other ∈ parties.set i moved)
    (differs : other ≠ moved) : other ∈ parties.eraseIdx i := by
  obtain ⟨j, found⟩ := List.mem_iff_getElem?.mp member
  rcases getElem?_set_cases found with ⟨_, same⟩ | ⟨elsewhere, here⟩
  · exact absurd same differs
  · exact List.mem_eraseIdx_iff_getElem?.mpr ⟨j, elsewhere, here⟩

theorem any_of_getElem? {p : τ → Bool} (found : parties[i]? = some party)
    (has : p party = true) : parties.any p = true :=
  List.any_eq_true.mpr ⟨party, List.mem_of_getElem? found, has⟩

theorem any_set {p : τ → Bool} (here : (parties.set i moved).any p = true) :
    p moved = true ∨ parties.any p = true := by
  obtain ⟨t, member, has⟩ := List.any_eq_true.mp here
  rcases List.mem_or_eq_of_mem_set member with old | rfl
  · exact Or.inr (List.any_eq_true.mpr ⟨t, old, has⟩)
  · exact Or.inl has

/-- A step that does not change whether the moved party has a property does not
change whether some party has it. -/
theorem exists_mem_set_iff {P : τ → Prop} (found : parties[i]? = some party)
    (same : P moved ↔ P party) : (∃ t ∈ parties.set i moved, P t) ↔ ∃ t ∈ parties, P t := by
  constructor
  · rintro ⟨t, member, has⟩
    rcases List.mem_or_eq_of_mem_set member with old | rfl
    · exact ⟨t, old, has⟩
    · exact ⟨party, List.mem_of_getElem? found, same.mp has⟩
  · rintro ⟨t, member, has⟩
    by_cases own : t = party
    · exact ⟨moved, moved_mem_set found, same.mpr (own ▸ has)⟩
    · exact ⟨t, mem_set_of_ne found member own, has⟩

/-- How a count over the parties changes when one of them moves. -/
theorem countP_set_add (p : τ → Bool) (moved : τ) (found : parties[i]? = some party) :
    (parties.set i moved).countP p + (if p party then 1 else 0) =
      parties.countP p + (if p moved then 1 else 0) := by
  obtain ⟨bound, rfl⟩ := List.getElem?_eq_some_iff.mp found
  rw [List.countP_set bound]
  have counted : (if p parties[i] then 1 else 0) ≤ parties.countP p := by
    split
    · exact List.countP_pos_iff.mpr ⟨_, List.getElem_mem bound, by assumption⟩
    · exact Nat.zero_le _
  omega

/-- How often a value is taken from the parties changes when one of them moves. -/
theorem count_filterMap_set_add {β : Type*} [DecidableEq β] (f : τ → Option β) (moved : τ)
    (found : parties[i]? = some party) (b : β) :
    ((parties.set i moved).filterMap f).count b + (if f party = some b then 1 else 0) =
      (parties.filterMap f).count b + (if f moved = some b then 1 else 0) := by
  have counted := countP_set_add (fun t => decide (f t = some b)) moved found
  have asCount (l : List τ) :
      (l.filterMap f).count b = l.countP fun t => decide (f t = some b) := by
    rw [List.count_filterMap]
    exact List.countP_congr fun t _ => by simp
  rw [asCount, asCount]
  simpa only [decide_eq_true_eq] using counted

/-- How a sum over the parties changes when one of them moves. -/
theorem sum_map_set_add (f : τ → Nat) (moved : τ) (found : parties[i]? = some party) :
    ((parties.set i moved).map f).sum + f party = (parties.map f).sum + f moved := by
  induction parties generalizing i with
  | nil => contradiction
  | cons first rest ih =>
      cases i with
      | zero =>
          cases Option.some.inj found
          simp only [List.set_cons_zero, List.map_cons, List.sum_cons]
          omega
      | succ j =>
          have later := ih (i := j) found
          simp only [List.set_cons_succ, List.map_cons, List.sum_cons]
          omega

/-- Two places cannot both have a property that at most one party has. -/
theorem eq_of_countP_le_one (p : τ → Bool) {j : Nat} {other : τ} (found : parties[i]? = some party)
    (otherFound : parties[j]? = some other) (own : p party = true) (also : p other = true)
    (single : parties.countP p ≤ 1) : i = j := by
  induction parties generalizing i j with
  | nil => contradiction
  | cons first rest ih =>
      have counted {k : Nat} {t : τ} (here : rest[k]? = some t) (has : p t = true) :
          0 < rest.countP p := List.countP_pos_iff.mpr ⟨t, List.mem_of_getElem? here, has⟩
      rw [List.countP_cons] at single
      cases i with
      | zero =>
          cases j with
          | zero => rfl
          | succ j =>
              cases Option.some.inj found
              have := counted otherFound also
              rw [if_pos own] at single
              omega
      | succ i =>
          cases j with
          | zero =>
              cases Option.some.inj otherFound
              have := counted found own
              rw [if_pos also] at single
              omega
          | succ j =>
              rw [ih (i := i) (j := j) found otherFound (by omega)]

/-- Of parties of which at most one has a property, the one that moves is the
only candidate afterwards. -/
theorem eq_moved_of_countP_le_one (p : τ → Bool) (found : parties[i]? = some party)
    (own : p party = true) (single : parties.countP p ≤ 1) :
    ∀ other ∈ parties.set i moved, p other = true → other = moved := by
  intro other member has
  by_contra differs
  obtain ⟨bound, here⟩ := List.getElem?_eq_some_iff.mp found
  have parts : parties = parties.take i ++ party :: parties.drop (i + 1) := by
    rw [← here, List.getElem_cons_drop, List.take_append_drop]
  have counted : (parties.take i ++ party :: parties.drop (i + 1)).countP p ≤ 1 := by
    rw [← parts]
    exact single
  rw [List.countP_append, List.countP_cons_of_pos own] at counted
  rw [List.set_eq_take_append_cons_drop, if_pos bound, List.mem_append, List.mem_cons] at member
  rcases member with before | same | after
  · have := List.countP_pos_iff.mpr ⟨other, before, has⟩
    omega
  · exact differs same
  · have := List.countP_pos_iff.mpr ⟨other, after, has⟩
    omega

end Membership

end PartyPool
