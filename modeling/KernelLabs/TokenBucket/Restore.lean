import KernelLabs.Kernel.Decimal
import KernelLabs.TokenBucket.Consistency
import KernelLabs.TokenBucket.Mode

/-!
# Saving and restoring the parameters

A script reads the three parameters of one bucket and writes the texts to
another, in some order.  `refill_rate_set` compares with the capacity of the
moment, so the order decides what it is compared with: the capacity restored
before, or the one that was there.
-/

set_option autoImplicit false

namespace TokenBucket

open Kernel LabelledMachine

/-- The writable parameters with a getter. -/
inductive Param where
  | mode
  | capacity
  | refillRate
  deriving DecidableEq, Repr

/-- `param_get_int`, and `mode_get`. -/
def Param.get (b : Bucket) : Param → Bytes
  | .mode => modeGet b
  | .capacity => signedDecimal b.capacity ++ [10]
  | .refillRate => signedDecimal b.refillRate ++ [10]

def Param.set (val : Bytes) (b : Bucket) : Param → Except Errno Unit × Bucket
  | .mode => modeSet val b
  | .capacity => capacitySet val b
  | .refillRate => refillRateSet val b

/-- Writes what was read from `saved`, one parameter after the other, up to the
first that is refused. -/
def restore (saved : Bucket) : List Param → Bucket → Except Errno Unit × Bucket
  | [], b => (.ok (), b)
  | param :: rest, b =>
    match param.set (param.get saved) b with
    | (.ok _, next) => restore saved rest next
    | (.error e, next) => (.error e, next)

/-- What every reachable bucket has. -/
structure Saveable (b : Bucket) : Prop where
  canonical : b.Canonical
  limits : LimitsOk b
  held : b.tokens ≤ b.capacity

theorem apply_held {b : Bucket} (held : b.tokens ≤ b.capacity) (op : Op) :
    (op.apply b).tokens ≤ (op.apply b).capacity := by
  cases op with
  | param write =>
      cases write with
      | mode val =>
          simp only [Op.apply, ParamWrite.apply]
          rcases modeSet_cases val b with refused | ⟨mode, text, accepted⟩
          · rwa [refused]
          · rwa [accepted]
      | capacity val =>
          simp only [Op.apply, ParamWrite.apply]
          rcases capacitySet_cases val b with ⟨e, refused⟩ | ⟨newCap, _, _, accepted⟩
          · rwa [refused]
          · rw [accepted]
            exact min_le_right _ _
      | refillRate val =>
          simp only [Op.apply, ParamWrite.apply]
          rcases refillRateSet_cases val b with ⟨e, refused⟩ | ⟨newRate, _, _, _, accepted⟩
          · rwa [refused]
          · rwa [accepted]
  | refillFn => exact min_le_right _ _
  | consumeWrite len =>
      simp only [Op.apply]
      rcases consumeWrite_cases len b with ⟨_, taken⟩ | ⟨_, kept⟩
      · rw [taken]
        exact Int.le_trans (Int.sub_le_self _ (by decide)) held
      · rwa [kept]

theorem moduleStep_saveable (m : Module) (act : ModuleAct) (next : Module)
    (saveable : Saveable m.bucket) (stepped : moduleStep m act = some next) :
    Saveable next.bucket := by
  obtain ⟨canonical, limits, held⟩ := saveable
  rcases moduleStep_cases stepped with ⟨op, _, rfl⟩ | ⟨_, rfl⟩
  · exact ⟨apply_canonical canonical op, limits.op op, apply_held held op⟩
  · exact ⟨canonical, ⟨limits.capacityPos, limits.capacityFits, limits.ratePos, limits.rateFits⟩,
      Int.le_refl _⟩

theorem reachable_saveable {acts : List ModuleAct} {m : Module}
    (ran : run moduleStep Module.initial acts = some m) : Saveable m.bucket := by
  have initial : Saveable Module.initial.bucket := ⟨rfl, limitsOk_initial, by decide⟩
  exact invariant_run (I := fun m => Saveable m.bucket) moduleStep_saveable initial ran

/-! ## One parameter written -/

section Writes
variable {saved : Bucket} (saveable : Saveable saved) (b : Bucket)
include saveable

theorem mode_written :
    Param.set (Param.get saved .mode) b .mode =
      (.ok (), { b with mode := saved.mode, modeStr := saved.modeStr }) := by
  have names : Names (modeGet saved) saved.mode := Or.inr (by rw [modeGet, saveable.canonical])
  rw [Param.set, Param.get, modeSet_of_names names, saveable.canonical]

theorem capacity_written :
    Param.set (Param.get saved .capacity) b .capacity =
      (.ok (), { b with capacity := saved.capacity, tokens := min b.tokens saved.capacity }) := by
  obtain ⟨low, high, _, _⟩ := saveable.limits
  have least : intMin ≤ saved.capacity := Int.le_trans (by decide) low
  have clamped : (if saved.capacity < b.tokens then saved.capacity else b.tokens) =
      min b.tokens saved.capacity := by
    split <;> omega
  rw [Param.set, Param.get, capacitySet, kstrtoint_signedDecimal least high]
  dsimp only
  rw [if_neg (by omega), clamped]

theorem refillRate_written :
    Param.set (Param.get saved .refillRate) b .refillRate =
      if saved.refillRate ≤ b.capacity then (.ok (), { b with refillRate := saved.refillRate })
      else (.error .einval, b) := by
  obtain ⟨_, _, low, high⟩ := saveable.limits
  have least : intMin ≤ saved.refillRate := Int.le_trans (by decide) low
  rw [Param.set, Param.get, refillRateSet, kstrtoint_signedDecimal least high]
  dsimp only
  rw [if_neg (by omega)]
  by_cases covered : saved.refillRate ≤ b.capacity
  · rw [if_neg (Int.not_lt.mpr covered), if_pos covered]
  · rw [if_pos (Int.not_le.mp covered), if_neg covered]

end Writes

/-! ## Any sequence of them -/

/-- Every write of the rate finds a capacity that covers it: the saved one if
that was written before, and otherwise the one the target had. -/
def Covered (saved target : Bucket) (order : List Param) : Prop :=
  ∀ front back, order = front ++ .refillRate :: back →
    saved.refillRate ≤ if .capacity ∈ front then saved.capacity else target.capacity

/-- The target with the parameters in `order` taken over. -/
def merged (saved target : Bucket) (order : List Param) : Bucket :=
  { target with
    mode := if .mode ∈ order then saved.mode else target.mode
    modeStr := if .mode ∈ order then saved.modeStr else target.modeStr
    capacity := if .capacity ∈ order then saved.capacity else target.capacity
    refillRate := if .refillRate ∈ order then saved.refillRate else target.refillRate
    tokens := if .capacity ∈ order then min target.tokens saved.capacity else target.tokens }

section Cons
variable {saved target : Bucket} {order : List Param}

theorem covered_nil : Covered saved target [] := by
  intro front back parts
  cases front <;> cases parts

theorem covered_mode :
    Covered saved target (.mode :: order) ↔
      Covered saved { target with mode := saved.mode, modeStr := saved.modeStr } order := by
  constructor
  · intro covered front back parts
    have earlier := covered (.mode :: front) back (congrArg _ parts)
    simpa using earlier
  · intro covered front back parts
    cases front with
    | nil => cases parts
    | cons first front =>
        cases (List.cons.inj parts).1
        simpa using covered front back (List.cons.inj parts).2

theorem covered_capacity :
    Covered saved target (.capacity :: order) ↔
      Covered saved { target with
        capacity := saved.capacity, tokens := min target.tokens saved.capacity } order := by
  constructor
  · intro covered front back parts
    have earlier := covered (.capacity :: front) back (congrArg _ parts)
    simpa using earlier
  · intro covered front back parts
    cases front with
    | nil => cases parts
    | cons first front =>
        cases (List.cons.inj parts).1
        simpa using covered front back (List.cons.inj parts).2

theorem covered_refillRate :
    Covered saved target (.refillRate :: order) ↔
      saved.refillRate ≤ target.capacity ∧
        Covered saved { target with refillRate := saved.refillRate } order := by
  constructor
  · intro covered
    refine ⟨covered [] order rfl, ?_⟩
    intro front back parts
    have earlier := covered (.refillRate :: front) back (congrArg _ parts)
    simpa using earlier
  · rintro ⟨now, covered⟩ front back parts
    cases front with
    | nil => exact now
    | cons first front =>
        cases (List.cons.inj parts).1
        simpa using covered front back (List.cons.inj parts).2

theorem merged_mode :
    merged saved target (.mode :: order) =
      merged saved { target with mode := saved.mode, modeStr := saved.modeStr } order := by
  simp [merged]

theorem merged_capacity :
    merged saved target (.capacity :: order) =
      merged saved { target with
        capacity := saved.capacity, tokens := min target.tokens saved.capacity } order := by
  simp [merged]

theorem merged_refillRate :
    merged saved target (.refillRate :: order) =
      merged saved { target with refillRate := saved.refillRate } order := by
  simp [merged]

end Cons

/-- A sequence of writes gets through exactly when it is covered, and then takes
the parameters over. -/
theorem restore_of_covered {saved : Bucket} (saveable : Saveable saved) (target : Bucket)
    (order : List Param) :
    (Covered saved target order ∧
        restore saved order target = (.ok (), merged saved target order)) ∨
      (¬ Covered saved target order ∧ (restore saved order target).1 = .error .einval) := by
  induction order generalizing target with
  | nil => exact Or.inl ⟨covered_nil, rfl⟩
  | cons param rest ih =>
      cases param with
      | mode =>
          simp only [restore, mode_written saveable, covered_mode, merged_mode]
          exact ih _
      | capacity =>
          simp only [restore, capacity_written saveable, covered_capacity, merged_capacity]
          exact ih _
      | refillRate =>
          simp only [restore, refillRate_written saveable, covered_refillRate, merged_refillRate]
          by_cases covers : saved.refillRate ≤ target.capacity
          · rw [if_pos covers]
            simp only [covers, true_and]
            exact ih _
          · rw [if_neg covers]
            exact Or.inr ⟨fun covered => covers covered.1, rfl⟩

theorem restore_self {saved : Bucket} (saveable : Saveable saved) (order : List Param) :
    (restore saved order saved).2 = saved := by
  have capped : min saved.tokens saved.capacity = saved.tokens := min_eq_left saveable.held
  induction order with
  | nil => rfl
  | cons param rest ih =>
      cases param with
      | mode =>
          simp only [restore, mode_written saveable]
          exact ih
      | capacity =>
          simp only [restore, capacity_written saveable, capped]
          exact ih
      | refillRate =>
          simp only [restore, refillRate_written saveable]
          by_cases covers : saved.refillRate ≤ saved.capacity
          · simp only [if_pos covers]
            exact ih
          · simp only [if_neg covers]

/-- **Saving and restoring.** The texts read from a bucket, whatever happened to
it before, are written to any bucket in any sequence: all are accepted exactly
when every write of the rate finds a capacity that covers it, the saved one if
that was written earlier and the target's otherwise, and the target then has the
parameters written; a refused write returns `-EINVAL`.  With the capacity first
that is the saved pair's own consistency.  Written back to their own bucket the
texts change nothing. -/
theorem restore_exact {acts : List ModuleAct} {m : Module}
    (ran : run moduleStep Module.initial acts = some m) (target : Bucket) (order : List Param) :
    ((restore m.bucket order target).1 = .ok () ↔ Covered m.bucket target order) ∧
      (∀ e, (restore m.bucket order target).1 = .error e → e = .einval) ∧
      (Covered m.bucket target order →
        (restore m.bucket order target).2 = merged m.bucket target order) ∧
      (Covered m.bucket target [.mode, .capacity, .refillRate] ↔ Consistent m.bucket) ∧
      (restore m.bucket order m.bucket).2 = m.bucket := by
  have saveable := reachable_saveable ran
  have capacityFirst : Covered m.bucket target [.mode, .capacity, .refillRate] ↔
      Consistent m.bucket := by
    rw [covered_mode, covered_capacity, covered_refillRate]
    exact ⟨fun covered => ⟨saveable.limits.ratePos, covered.1⟩,
      fun consistent => ⟨consistent.2, covered_nil⟩⟩
  rcases restore_of_covered saveable target order with ⟨covered, done⟩ | ⟨bare, refused⟩
  · rw [done]
    exact ⟨⟨fun _ => covered, fun _ => rfl⟩, nofun, fun _ => rfl, capacityFirst,
      restore_self saveable order⟩
  · rw [refused]
    refine ⟨⟨nofun, fun covered => absurd covered bare⟩, ?_, fun covered => absurd covered bare,
      capacityFirst, restore_self saveable order⟩
    intro e same
    cases same
    rfl

/-- A capacity of 3 undercuts the rate of 5: this pair is taken over by a bucket
of capacity 100 with the rate first, and not with the capacity first. -/
theorem restore_exact_undercut :
    ∃ m, run moduleStep Module.initial [.op (.param (.capacity (ascii "3")))] = some m ∧
      (restore m.bucket [.refillRate, .capacity] Bucket.initial).1 = .ok () ∧
      Covered m.bucket Bucket.initial [.refillRate, .capacity] ∧
      ¬ Covered m.bucket Bucket.initial [.mode, .capacity, .refillRate] := by
  have ran := run_get moduleStep Module.initial [.op (.param (.capacity (ascii "3")))]
    (by decide +kernel)
  have both := restore_exact ran Bucket.initial [.refillRate, .capacity]
  refine ⟨_, ran, by decide +kernel, both.1.mp (by decide +kernel), ?_⟩
  rw [both.2.2.2.1]
  decide +kernel

end TokenBucket
