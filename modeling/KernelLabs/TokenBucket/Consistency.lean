import KernelLabs.TokenBucket.Range

/-!
# The refill rate against the capacity

`refill_rate_set` rejects a rate above the current capacity; `capacity_set`
does not look at the rate, so it can undercut it.
-/

set_option autoImplicit false

namespace TokenBucket

open Kernel LabelledMachine

/-- The relation the two parameters are validated for. -/
def Consistent (b : Bucket) : Prop := 1 ≤ b.refillRate ∧ b.refillRate ≤ b.capacity

/-- The step, when it is a write of `capacity` that gets through, leaves room
for the current rate. -/
def CoversRate (m : Module) : ModuleAct → Prop
  | .op (.param (.capacity val)) =>
      ∀ newCap, kstrtoint 0 val = .ok newCap → 0 < newCap → m.bucket.refillRate ≤ newCap
  | _ => True

instance (b : Bucket) : Decidable (Consistent b) :=
  inferInstanceAs (Decidable (_ ∧ _))

theorem Consistent.refillRateSet {b : Bucket} (consistent : Consistent b) (val : Bytes) :
    Consistent (TokenBucket.refillRateSet val b).2 := by
  rcases refillRateSet_cases val b with ⟨e, unchanged⟩ | ⟨newRate, low, _, below, changed⟩
  · simpa only [unchanged] using consistent
  · simp only [changed]
    exact ⟨low, below⟩

theorem capacitySet_consistent_iff {b : Bucket} (consistent : Consistent b) (val : Bytes) :
    Consistent (capacitySet val b).2 ↔
      ∀ newCap, kstrtoint 0 val = .ok newCap → 0 < newCap → b.refillRate ≤ newCap := by
  unfold capacitySet
  cases parsed : kstrtoint 0 val with
  | error e => simpa using consistent
  | ok newCap =>
      by_cases positive : newCap ≤ 0
      · simp only [positive, if_true, consistent, true_iff]
        intro other same above
        cases Except.ok.inj same
        omega
      · simp only [positive, if_false, Consistent]
        constructor
        · rintro ⟨_, covered⟩ other same _
          cases Except.ok.inj same
          exact covered
        · intro covers
          exact ⟨consistent.1, covers newCap rfl (by omega)⟩

theorem moduleStep_consistent_iff {m next : Module} {act : ModuleAct}
    (consistent : Consistent m.bucket) (stepped : moduleStep m act = some next) :
    Consistent next.bucket ↔ CoversRate m act := by
  rcases moduleStep_cases stepped with ⟨op, rfl, rfl⟩ | ⟨rfl, rfl⟩
  · cases op with
    | param write =>
        cases write with
        | mode val =>
            refine ⟨fun _ => trivial, fun _ => ?_⟩
            simp only [Op.apply, ParamWrite.apply]
            rcases modeSet_cases val m.bucket with unchanged | ⟨mode, text, changed⟩
            · simpa only [unchanged] using consistent
            · rw [changed]
              exact consistent
        | capacity val => exact capacitySet_consistent_iff consistent val
        | refillRate val => exact ⟨fun _ => trivial, fun _ => consistent.refillRateSet val⟩
    | refillFn => exact ⟨fun _ => trivial, fun _ => consistent⟩
    | consumeWrite len =>
        refine ⟨fun _ => trivial, fun _ => ?_⟩
        simp only [Op.apply]
        rcases consumeWrite_cases len m.bucket with ⟨_, taken⟩ | ⟨_, kept⟩
        · rw [taken]
          exact consistent
        · rw [kept]
          exact consistent
  · exact ⟨fun _ => trivial, fun _ => consistent⟩

/-- The pair of parameters stays consistent along a run, at load time and after
it, exactly when no accepted capacity of the run undercuts the rate it finds. -/
theorem consistent_iff_capacities_cover {m : Module} {acts : List ModuleAct}
    (ran : run moduleStep Module.initial acts = some m) :
    Always moduleStep (fun m => Consistent m.bucket) Module.initial acts ↔
      Meets moduleStep CoversRate Module.initial acts :=
  always_iff_meets (G := fun _ => True) (fun _ _ _ _ _ => trivial)
    (fun _ _ _ _ consistent stepped => moduleStep_consistent_iff consistent stepped)
    trivial (by decide) ran

theorem consistent_iff_capacities_cover_three :
    Always moduleStep (fun m => Consistent m.bucket) Module.initial
        [.op (.param (.refillRate (ascii "3"))), .op (.param (.capacity (ascii "3")))] ↔
      Meets moduleStep CoversRate Module.initial
        [.op (.param (.refillRate (ascii "3"))), .op (.param (.capacity (ascii "3")))] := by
  have ran := run_get moduleStep Module.initial
    [.op (.param (.refillRate (ascii "3"))), .op (.param (.capacity (ascii "3")))]
    (by decide +kernel)
  exact consistent_iff_capacities_cover ran

/-- A capacity of 3 is accepted while 5 tokens are added per tick. -/
theorem capacity_undercuts_rate :
    (capacitySet (ascii "3") Bucket.initial).1 = .ok () ∧
      ¬ Always moduleStep (fun m => Consistent m.bucket) Module.initial
        [.op (.param (.capacity (ascii "3"))), .tokenBucketInit] := by
  decide +kernel

end TokenBucket
