import KernelLabs.Lib.Tally
import KernelLabs.TokenBucket.Range

/-!
# How many writes the bucket can admit

The tokens that can still be taken are `max tokens 0`: a refill tick adds at
most the rate to them (a tick that wraps adds nothing), a smaller capacity only
takes some away, and every write that takes a token pays with one.
-/

set_option autoImplicit false

namespace TokenBucket

open Kernel LabelledMachine

/-- The step takes a token: `had_token` of `consume_write`. -/
def takesToken (b : Bucket) : Op → Int
  | .consumeWrite _ => if 0 < b.tokens then 1 else 0
  | _ => 0

/-- The step is a `consume_write` that returns success. -/
def admits (b : Bucket) : Op → Int
  | .consumeWrite len => if (consumeWrite len b).1 = .ok len then 1 else 0
  | _ => 0

def refills (b : Bucket) : Op → Int
  | .refillFn => b.refillRate
  | _ => 0

def takeable (b : Bucket) : Int := max b.tokens 0

/-- What holds of the bucket from the moment the module's data exists. -/
structure Sound (b : Bucket) : Prop where
  limits : LimitsOk b
  tokensFit : intMin ≤ b.tokens
  capped : b.tokens ≤ b.capacity

theorem wrapInt_ge (x : Int) : intMin ≤ wrapInt x := by
  rw [wrapInt, Int.bmod_def, intMin]
  split <;> omega

/-- A write of a parameter leaves the tokens alone, or cuts them to the new
capacity. -/
theorem ParamWrite.apply_tokens (write : ParamWrite) (b : Bucket) :
    ((write.apply b).tokens = b.tokens ∧ (write.apply b).capacity = b.capacity) ∨
      (0 < (write.apply b).capacity ∧
        (write.apply b).tokens = min b.tokens (write.apply b).capacity) := by
  cases write with
  | mode val =>
      left
      rcases modeSet_cases val b with unchanged | ⟨mode, text, changed⟩
      · simp only [ParamWrite.apply, unchanged, and_self]
      · simp only [ParamWrite.apply, changed, and_self]
  | capacity val =>
      rcases capacitySet_cases val b with ⟨e, unchanged⟩ | ⟨newCap, low, _, changed⟩
      · left
        simp only [ParamWrite.apply, unchanged, and_self]
      · right
        simp only [ParamWrite.apply, changed, and_true]
        omega
  | refillRate val =>
      left
      rcases refillRateSet_cases val b with ⟨e, unchanged⟩ | ⟨newRate, _, _, _, changed⟩
      · simp only [ParamWrite.apply, unchanged, and_self]
      · simp only [ParamWrite.apply, changed, and_self]

theorem Sound.op {b : Bucket} (sound : Sound b) (op : Op) : Sound (op.apply b) := by
  obtain ⟨limits, fit, capped⟩ := sound
  have limits' := limits.op op
  cases op with
  | param write =>
      have changed := write.apply_tokens b
      refine ⟨limits', ?_, ?_⟩ <;> simp only [Op.apply]
      · unfold intMin at fit ⊢
        omega
      · omega
  | refillFn =>
      have low := wrapInt_ge (b.tokens + b.refillRate)
      refine ⟨limits', ?_, min_le_right _ _⟩
      have := limits.capacityPos
      simp only [Op.apply, refillFn]
      unfold intMin at fit low ⊢
      omega
  | consumeWrite len =>
      rcases consumeWrite_cases len b with ⟨left, taken⟩ | ⟨_, kept⟩
      · refine ⟨limits', ?_, ?_⟩ <;> simp only [Op.apply, taken]
        · unfold intMin at fit ⊢
          omega
        · omega
      · refine ⟨limits', ?_, ?_⟩ <;> simpa only [Op.apply, kept]

theorem Sound.module {m next : Module} {act : ModuleAct} (sound : Sound m.bucket)
    (stepped : moduleStep m act = some next) : Sound next.bucket := by
  rcases moduleStep_cases stepped with ⟨op, -, rfl⟩ | ⟨-, rfl⟩
  · exact sound.op op
  · obtain ⟨⟨capacityPos, capacityFits, ratePos, rateFits⟩, _, _⟩ := sound
    refine ⟨⟨capacityPos, capacityFits, ratePos, rateFits⟩, ?_, le_refl _⟩
    unfold intMin
    simp only [tokenBucketInit]
    omega

theorem sound_reached {m : Module} {acts : List ModuleAct}
    (reached : run moduleStep Module.initial acts = some m) : Sound m.bucket := by
  have start : Sound Module.initial.bucket :=
    ⟨limitsOk_initial, by decide, by decide⟩
  exact invariant_run (I := fun m => Sound m.bucket)
    (fun m act next sound stepped => sound.module stepped) start reached

/-- A tick adds at most the rate: when the sum wraps, nothing is left to take. -/
theorem takeable_refillFn_le {b : Bucket} (sound : Sound b) :
    takeable (refillFn b) ≤ takeable b + b.refillRate := by
  obtain ⟨⟨_, capacityFits, ratePos, rateFits⟩, fit, capped⟩ := sound
  unfold takeable refillFn
  dsimp only
  by_cases overflow : intMax < b.tokens + b.refillRate
  · have wrapped := wrapInt_of_gt overflow (by omega)
    unfold intMax at rateFits capacityFits
    omega
  · have fits := wrapInt_of_mem (x := b.tokens + b.refillRate) (by omega) (by omega)
    omega

/-- One step: what it takes is paid by what could be taken before it and what
it refills. -/
theorem takesToken_pays {b : Bucket} (sound : Sound b) (op : Op) :
    takesToken b op + takeable (op.apply b) ≤ takeable b + refills b op := by
  cases op with
  | param write =>
      have shrinks : (write.apply b).tokens ≤ b.tokens := by
        rcases write.apply_tokens b with ⟨tokens, _⟩ | ⟨_, tokens⟩ <;> omega
      simp only [takesToken, refills, takeable, Op.apply]
      omega
  | refillFn =>
      have tick := takeable_refillFn_le sound
      simp only [takesToken, refills, Op.apply]
      omega
  | consumeWrite len =>
      rcases consumeWrite_cases len b with ⟨left, taken⟩ | ⟨empty, kept⟩
      · simp only [takesToken, refills, takeable, Op.apply, taken, left, if_true]
        omega
      · have none_left : ¬ 0 < b.tokens := by omega
        simp only [takesToken, refills, takeable, Op.apply, kept, none_left, if_false]
        omega

theorem takesToken_tally_le {b : Bucket} (sound : Sound b) (ops : List Op) :
    tally opStep takesToken b ops ≤ takeable b + tally opStep refills b ops := by
  have paid : tally opStep takesToken b ops + takeable (ops.foldl Op.apply b) ≤
      takeable b + tally opStep refills b ops := by
    refine tally_add_potential_le (G := Sound) ?_ ?_ sound (run_total b ops)
    · intro b op next sound stepped
      cases Option.some.inj stepped
      exact sound.op op
    · intro b op next sound stepped
      cases Option.some.inj stepped
      exact takesToken_pays sound op
  have left : 0 ≤ takeable (ops.foldl Op.apply b) := le_max_right _ _
  omega

/-- In `MODE_ENFORCE` the writes that succeed are those that take a token. -/
theorem admits_of_enforce {b : Bucket} (enforce : b.mode = .modeEnforce) (op : Op) :
    admits b op = takesToken b op := by
  cases op with
  | consumeWrite len =>
      by_cases left : 0 < b.tokens
      · simp [admits, takesToken, consumeWrite, left]
      · simp [admits, takesToken, consumeWrite, left, enforce]
  | param write => rfl
  | refillFn => rfl

theorem takesToken_nonneg (b : Bucket) (op : Op) : 0 ≤ takesToken b op := by
  cases op with
  | consumeWrite len =>
      simp only [takesToken]
      split <;> omega
  | param write => exact le_refl 0
  | refillFn => exact le_refl 0

/-- Rate limit: along a run from any state the module reaches, the writes take
at most the tokens of that state and what the ticks of the run refill; over any
stretch of the run in `MODE_ENFORCE`, at most the capacity of that state and
what the ticks up to its end refill succeed. -/
theorem takes_le_tokens_and_refills {m : Module} {acts : List ModuleAct}
    (reached : run moduleStep Module.initial acts = some m) :
    (∀ ops, tally opStep takesToken m.bucket ops ≤
        max m.bucket.tokens 0 + tally opStep refills m.bucket ops) ∧
      ∀ front stretch,
        Always opStep (fun b => b.mode = .modeEnforce) (front.foldl Op.apply m.bucket) stretch →
        tally opStep admits (front.foldl Op.apply m.bucket) stretch ≤
          m.bucket.capacity + tally opStep refills m.bucket (front ++ stretch) := by
  have sound := sound_reached reached
  refine ⟨takesToken_tally_le sound, ?_⟩
  intro front stretch enforce
  have counted : tally opStep admits (front.foldl Op.apply m.bucket) stretch =
      tally opStep takesToken (front.foldl Op.apply m.bucket) stretch :=
    tally_congr_always (fun b op enforced => admits_of_enforce enforced op) enforce
  have parted := tally_append takesToken stretch (run_total m.bucket front)
  have before := tally_nonneg opStep takesToken_nonneg m.bucket front
  have bound := takesToken_tally_le sound (front ++ stretch)
  have capped := sound.capped
  have positive := sound.limits.capacityPos
  rw [takeable] at bound
  omega

/-- A loaded module with three tokens, in `MODE_ENFORCE`, a capacity that
shrinks below the rate, and a tick. -/
theorem takes_le_tokens_and_refills_three :
    ∃ m, run moduleStep Module.initial
        [.op (.param (.capacity (ascii "3"))), .op (.param (.mode (ascii "enforce"))),
          .tokenBucketInit] = some m ∧
      tally opStep admits m.bucket [.consumeWrite 1, .consumeWrite 1, .refillFn,
        .consumeWrite 1, .consumeWrite 1, .consumeWrite 1, .consumeWrite 1] ≤ 3 + 5 := by
  have ran := run_get moduleStep Module.initial
    [.op (.param (.capacity (ascii "3"))), .op (.param (.mode (ascii "enforce"))),
      .tokenBucketInit] (by decide +kernel)
  refine ⟨_, ran, ?_⟩
  exact (takes_le_tokens_and_refills ran).2 []
    [.consumeWrite 1, .consumeWrite 1, .refillFn, .consumeWrite 1, .consumeWrite 1,
      .consumeWrite 1, .consumeWrite 1] (by decide +kernel)

end TokenBucket
