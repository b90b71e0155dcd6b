import Mathlib.Data.List.Chain
import KernelLabs.Lib.LockWord
import KernelLabs.Lib.Pool

/-!
# Data that a lock guards

Parties change some data only while they hold its lock, and commit it when they
let go.  `committed` is the history of those values.  What a party knows of the
data is a `Fact` about it; a party outside may know things about the history
only, so nothing that the others do can make it wrong.  With one holder at a
time it is then enough to look at the party that moves.

`related` is what one section may do: from the value committed last to the one
it commits.
-/

set_option autoImplicit false

namespace GuardedData

open LockWord PartyPool

universe u v
variable {D : Type u} {τ : Type v}

structure Discipline (D : Type u) (τ : Type v) where
  holds : τ → Bool
  Fact : List D → D → τ → Prop
  Related : D → D → Prop
  /-- Outside the lock, facts are about the history, which only grows. -/
  outside : ∀ {committed later data now} {party : τ}, committed <+: later →
    holds party = false → Fact committed data party → Fact later now party

variable (discipline : Discipline D τ)

/-- What one step does to the lock, the history and the data. -/
inductive SectionStep (lock : Bool) (committed : List D) (data : D) (was : Bool) (lock' : Bool)
    (committed' : List D) (data' : D) (now : Bool) : Prop where
  | passes (word : lock' = lock) (history : committed' = committed) (same : data' = data)
      (place : now = was)
  | acquires (free : lock = false) (wasOut : was = false) (word : lock' = true)
      (history : committed' = committed) (same : data' = data) (place : now = true)
  | writes (wasIn : was = true) (word : lock' = lock) (history : committed' = committed)
      (place : now = true)
  | commits (wasIn : was = true) (word : lock' = false) (history : committed' = committed ++ [data])
      (same : data' = data) (place : now = false)
      (related : ∀ last ∈ committed.getLast?, discipline.Related last data)
  | leaves (wasIn : was = true) (word : lock' = false) (history : committed' = committed)
      (same : data' = data) (place : now = false) (clean : committed.getLast? = some data)

structure Coherent (lock : Bool) (committed : List D) (data : D) (parties : List τ) : Prop where
  exclusive : Exclusive lock (parties.countP discipline.holds)
  free : lock = false → committed.getLast? = some data
  facts : ∀ party ∈ parties, discipline.Fact committed data party
  chain : committed.IsChain discipline.Related

section Rules
variable {discipline} {lock lock' : Bool} {committed committed' : List D} {data data' : D}
  {parties : List τ} {i : Nat} {party moved : τ}

theorem SectionStep.lockStep {was now : Bool}
    (stepped : SectionStep discipline lock committed data was lock' committed' data' now) :
    LockStep lock was lock' now := by
  cases stepped with
  | passes word history same place => exact .passes word place
  | acquires free wasOut word history same place => exact .acquires free wasOut word place
  | writes wasIn word history place => exact .passes word (place.trans wasIn.symm)
  | commits wasIn word history same place related => exact .releases wasIn word place
  | leaves wasIn word history same place clean => exact .releases wasIn word place

/-- A party outside keeps its facts; one inside keeps them as long as the data
and the history stay. -/
theorem SectionStep.others {was now : Bool}
    (stepped : SectionStep discipline lock committed data was lock' committed' data' now)
    {other : τ} (fact : discipline.Fact committed data other)
    (alone : was = true → discipline.holds other = false) :
    discipline.Fact committed' data' other := by
  cases stepped with
  | passes word history same place => rwa [history, same]
  | acquires free wasOut word history same place => rwa [history, same]
  | writes wasIn word history place =>
      rw [history]
      exact discipline.outside (List.prefix_refl _) (alone wasIn) fact
  | commits wasIn word history same place related =>
      rw [history]
      exact discipline.outside (List.prefix_append _ _) (alone wasIn) fact
  | leaves wasIn word history same place clean => rwa [history, same]

/-- With a party inside, no other one is. -/
theorem Coherent.alone (coherent : Coherent discipline lock committed data parties)
    (found : parties[i]? = some party) (inside : discipline.holds party = true) {j : Nat}
    {other : τ} (elsewhere : j ≠ i) (otherFound : parties[j]? = some other) :
    discipline.holds other = false := by
  cases holds : discipline.holds other with
  | false => rfl
  | true =>
      exact absurd (eq_of_countP_le_one _ otherFound found holds inside coherent.exclusive.le_one)
        elsewhere

theorem Coherent.move (coherent : Coherent discipline lock committed data parties)
    (found : parties[i]? = some party)
    (stepped : SectionStep discipline lock committed data (discipline.holds party) lock'
      committed' data' (discipline.holds moved))
    (own : discipline.Fact committed' data' moved) :
    Coherent discipline lock' committed' data' (parties.set i moved) := by
  have counted := countP_set_add discipline.holds moved found
  refine ⟨coherent.exclusive.step stepped.lockStep counted, ?_, ?_, ?_⟩
  · intro free
    cases stepped with
    | passes word history same place =>
        rw [history, same]
        exact coherent.free (word ▸ free)
    | acquires _ wasOut word history same place => exact absurd (word.symm.trans free) (by decide)
    | writes wasIn word history place =>
        have positive := List.countP_pos_iff.mpr ⟨party, List.mem_of_getElem? found, wasIn⟩
        have locked := coherent.exclusive.locked positive
        exact absurd ((word.trans locked).symm.trans free) (by decide)
    | commits wasIn word history same place related =>
        rw [history, same]
        exact List.getLast?_concat
    | leaves wasIn word history same place clean => rwa [history, same]
  · intro other member
    obtain ⟨j, otherFound⟩ := List.mem_iff_getElem?.mp member
    rcases getElem?_set_cases otherFound with ⟨_, rfl⟩ | ⟨elsewhere, here⟩
    · exact own
    · exact stepped.others (coherent.facts other (List.mem_of_getElem? here))
        fun inside => coherent.alone found inside elsewhere here
  · cases stepped with
    | passes word history same place | acquires _ wasOut word history same place
    | writes wasIn word history place | leaves wasIn word history same place clean =>
        rw [history]
        exact coherent.chain
    | commits wasIn word history same place related =>
        rw [history]
        refine List.isChain_append.mpr ⟨coherent.chain, List.isChain_singleton _, ?_⟩
        intro last lastMem first firstMem
        cases Option.some.inj firstMem
        exact related last lastMem

theorem Coherent.enter (coherent : Coherent discipline lock committed data parties) {new : τ}
    (out : discipline.holds new = false) (fact : discipline.Fact committed data new) :
    Coherent discipline lock committed data (parties ++ [new]) := by
  refine ⟨?_, coherent.free, forall_mem_spawn coherent.facts fact, coherent.chain⟩
  rw [List.countP_append, List.countP_singleton, out]
  exact coherent.exclusive

end Rules

end GuardedData
