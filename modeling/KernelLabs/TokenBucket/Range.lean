import KernelLabs.Lib.Machine
import KernelLabs.TokenBucket.Limiter

/-!
# The range of the token count

The limits stay positive `int`s along every run, because each accepted write is
one.  The token count stays between 0 and the capacity exactly as long as no
refill tick finds `tokens + refill_rate` above `INT_MAX`: there the sum wraps,
and `min` keeps the negative result.
-/

set_option autoImplicit false

namespace TokenBucket

open Kernel LabelledMachine

def opStep (b : Bucket) (op : Op) : Option Bucket := some (op.apply b)

structure InRange (b : Bucket) : Prop where
  nonneg : 0 ≤ b.tokens
  capped : b.tokens ≤ b.capacity
  capacityPos : 1 ≤ b.capacity

structure LimitsOk (b : Bucket) : Prop where
  capacityPos : 1 ≤ b.capacity
  capacityFits : b.capacity ≤ intMax
  ratePos : 1 ≤ b.refillRate
  rateFits : b.refillRate ≤ intMax

/-- The refill tick does not overflow. -/
def RefillFits (b : Bucket) (op : Op) : Prop :=
  op = .refillFn → b.tokens + b.refillRate ≤ intMax

instance (b : Bucket) (op : Op) : Decidable (RefillFits b op) :=
  inferInstanceAs (Decidable (_ → _))

instance (b : Bucket) : Decidable (InRange b) :=
  decidable_of_iff (0 ≤ b.tokens ∧ b.tokens ≤ b.capacity ∧ 1 ≤ b.capacity)
    ⟨fun ⟨low, high, cap⟩ => ⟨low, high, cap⟩, fun ⟨low, high, cap⟩ => ⟨low, high, cap⟩⟩

theorem LimitsOk.param {b : Bucket} (limits : LimitsOk b) (write : ParamWrite) :
    LimitsOk (write.apply b) := by
  cases write with
  | mode val =>
      rcases modeSet_cases val b with unchanged | ⟨mode, text, changed⟩
      · simpa only [ParamWrite.apply, unchanged] using limits
      · simp only [ParamWrite.apply, changed]
        exact ⟨limits.capacityPos, limits.capacityFits, limits.ratePos, limits.rateFits⟩
  | capacity val =>
      rcases capacitySet_cases val b with ⟨e, unchanged⟩ | ⟨newCap, low, high, changed⟩
      · simpa only [ParamWrite.apply, unchanged] using limits
      · simp only [ParamWrite.apply, changed]
        exact ⟨low, high, limits.ratePos, limits.rateFits⟩
  | refillRate val =>
      rcases refillRateSet_cases val b with ⟨e, unchanged⟩ | ⟨newRate, low, high, _, changed⟩
      · simpa only [ParamWrite.apply, unchanged] using limits
      · simp only [ParamWrite.apply, changed]
        exact ⟨limits.capacityPos, limits.capacityFits, low, high⟩

theorem LimitsOk.op {b : Bucket} (limits : LimitsOk b) (op : Op) : LimitsOk (op.apply b) := by
  cases op with
  | param write => exact limits.param write
  | refillFn => exact ⟨limits.capacityPos, limits.capacityFits, limits.ratePos, limits.rateFits⟩
  | consumeWrite len =>
      have same : (consumeWrite len b).2.capacity = b.capacity ∧
          (consumeWrite len b).2.refillRate = b.refillRate := by
        rcases consumeWrite_cases len b with ⟨_, taken⟩ | ⟨_, kept⟩
        · simp [taken]
        · simp [kept]
      refine ⟨?_, ?_, ?_, ?_⟩ <;> simp only [Op.apply, same]
      · exact limits.capacityPos
      · exact limits.capacityFits
      · exact limits.ratePos
      · exact limits.rateFits

theorem limitsOk_initial : LimitsOk Bucket.initial := by
  constructor <;> decide

theorem limitsOk_loaded (params : List ParamWrite) : LimitsOk (loaded params) := by
  have configured : ∀ b, LimitsOk b → LimitsOk (params.foldl ParamWrite.apply b) := by
    induction params with
    | nil => exact fun b limits => limits
    | cons write rest ih => exact fun b limits => ih (write.apply b) (limits.param write)
  have limits := configured Bucket.initial limitsOk_initial
  exact ⟨limits.capacityPos, limits.capacityFits, limits.ratePos, limits.rateFits⟩

theorem inRange_loaded (params : List ParamWrite) : InRange (loaded params) := by
  have positive := (limitsOk_loaded params).capacityPos
  have full : (loaded params).tokens = (loaded params).capacity := rfl
  exact ⟨by omega, by omega, positive⟩

theorem InRange.param {b : Bucket} (range : InRange b) (write : ParamWrite) :
    InRange (write.apply b) := by
  cases write with
  | mode val =>
      rcases modeSet_cases val b with unchanged | ⟨mode, text, changed⟩
      · simpa only [ParamWrite.apply, unchanged] using range
      · simp only [ParamWrite.apply, changed]
        exact ⟨range.nonneg, range.capped, range.capacityPos⟩
  | capacity val =>
      rcases capacitySet_cases val b with ⟨e, unchanged⟩ | ⟨newCap, low, _, changed⟩
      · simpa only [ParamWrite.apply, unchanged] using range
      · have := range.nonneg
        simp only [ParamWrite.apply, changed]
        refine ⟨?_, ?_, low⟩ <;> dsimp only <;> omega
  | refillRate val =>
      rcases refillRateSet_cases val b with ⟨e, unchanged⟩ | ⟨newRate, _, _, _, changed⟩
      · simpa only [ParamWrite.apply, unchanged] using range
      · simp only [ParamWrite.apply, changed]
        exact ⟨range.nonneg, range.capped, range.capacityPos⟩

theorem InRange.consumeWrite {b : Bucket} (range : InRange b) (len : Nat) :
    InRange (TokenBucket.consumeWrite len b).2 := by
  obtain ⟨nonneg, capped, positive⟩ := range
  rcases consumeWrite_cases len b with ⟨some_left, taken⟩ | ⟨_, kept⟩
  · rw [taken]
    refine ⟨?_, ?_, positive⟩ <;> dsimp only <;> omega
  · rw [kept]
    exact ⟨nonneg, capped, positive⟩

/-- The refill keeps the range exactly when its sum fits an `int`. -/
theorem refillFn_inRange_iff {b : Bucket} (limits : LimitsOk b) (range : InRange b) :
    InRange (refillFn b) ↔ b.tokens + b.refillRate ≤ intMax := by
  obtain ⟨capacityPos, capacityFits, ratePos, rateFits⟩ := limits
  obtain ⟨nonneg, capped, _⟩ := range
  constructor
  · intro after
    by_contra overflow
    have low := after.nonneg
    have wrapped := wrapInt_of_gt (x := b.tokens + b.refillRate) (by omega) (by omega)
    simp only [refillFn, wrapped] at low
    unfold intMax at rateFits capacityFits
    omega
  · intro fits
    have exact_sum := wrapInt_of_mem (x := b.tokens + b.refillRate)
      (by unfold intMin; omega) fits
    refine ⟨?_, ?_, capacityPos⟩ <;> simp only [refillFn, exact_sum] <;> omega

theorem op_inRange_iff {b : Bucket} (limits : LimitsOk b) (range : InRange b) (op : Op) :
    InRange (op.apply b) ↔ RefillFits b op := by
  cases op with
  | param write => exact ⟨fun _ tick => by contradiction, fun _ => range.param write⟩
  | refillFn =>
      rw [Op.apply, refillFn_inRange_iff limits range]
      simp [RefillFits]
  | consumeWrite len => exact ⟨fun _ tick => by contradiction, fun _ => range.consumeWrite len⟩

theorem run_total (b : Bucket) (ops : List Op) :
    run opStep b ops = some (ops.foldl Op.apply b) := by
  induction ops generalizing b with
  | nil => rfl
  | cons op rest ih => exact ih (op.apply b)

/-- For any load-time parameters and any run after `token_bucket_init`, the
token count stays in `[0, capacity]` in every state exactly when no refill tick
of the run overflows. -/
theorem range_iff_refills_fit (params : List ParamWrite) (ops : List Op) :
    Always opStep InRange (loaded params) ops ↔
      Meets opStep RefillFits (loaded params) ops := by
  refine always_iff_meets (G := LimitsOk) ?_ ?_ (limitsOk_loaded params)
    (inRange_loaded params) (run_total (loaded params) ops)
  · intro b op next limits stepped
    cases Option.some.inj stepped
    exact limits.op op
  · intro b op next limits range stepped
    cases Option.some.inj stepped
    exact op_inRange_iff limits range op

/-- A full bucket at the largest capacity: one tick leaves it negative. -/
theorem full_bucket_wraps :
    ¬ Always opStep InRange (loaded [.capacity (ascii "2147483647")]) [.refillFn] ∧
      (refillFn (loaded [.capacity (ascii "2147483647")])).tokens = -2147483644 := by
  decide

end TokenBucket
