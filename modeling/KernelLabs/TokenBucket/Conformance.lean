import KernelLabs.Lib.RateEnvelope
import KernelLabs.TokenBucket.Budget

/-!
# Which writes the limiter admits

While the two limits stay as they are, the bucket is the level of a burst and
rate envelope: the writes that take a token stay within it from any moment to
any other, and among all ways to choose writes that do, the limiter's admits
the most.  The two counters tell how many it chose and how many not.
-/

set_option autoImplicit false

namespace TokenBucket

open Kernel LabelledMachine RateEnvelope

/-- A tick or a write, as the envelope sees it. -/
def Op.arrival : Op → Option Arrival
  | .refillFn => some .tick
  | .consumeWrite _ => some .request
  | .param _ => none

/-- What the step is in the schedule: `had_token` says whether a write takes. -/
def eventOf (b : Bucket) : Op → Option Event
  | .refillFn => some .tick
  | .consumeWrite _ => some (if 0 < b.tokens then .take else .skip)
  | .param _ => none

def schedule (b : Bucket) : List Op → List Event
  | [] => []
  | op :: rest => (eventOf b op).toList ++ schedule (op.apply b) rest

def arrivals (ops : List Op) : List Arrival := ops.filterMap Op.arrival

/-- The limits in force. -/
def HasLimits (capacity refillRate : Int) (b : Bucket) : Prop :=
  b.capacity = capacity ∧ b.refillRate = refillRate

instance (capacity refillRate : Int) (b : Bucket) : Decidable (HasLimits capacity refillRate b) :=
  inferInstanceAs (Decidable (_ ∧ _))

section Steady
variable {capacity refillRate : Int} {b : Bucket}

/-- A parameter write that leaves the limits alone leaves the tokens alone. -/
theorem param_tokens (sound : Sound b) {write : ParamWrite}
    (same : (write.apply b).capacity = b.capacity) : (write.apply b).tokens = b.tokens := by
  rcases write.apply_tokens b with ⟨tokens, _⟩ | ⟨_, tokens⟩
  · exact tokens
  · have capped := sound.capped
    omega

theorem counters_of_param (write : ParamWrite) (b : Bucket) :
    (write.apply b).totalConsumed = b.totalConsumed ∧
      (write.apply b).totalRejected = b.totalRejected := by
  cases write with
  | mode val =>
      rcases modeSet_cases val b with unchanged | ⟨mode, text, changed⟩
      · simp only [ParamWrite.apply, unchanged, and_self]
      · simp only [ParamWrite.apply, changed, and_self]
  | capacity val =>
      rcases capacitySet_cases val b with ⟨e, unchanged⟩ | ⟨newCap, _, _, changed⟩
      · simp only [ParamWrite.apply, unchanged, and_self]
      · simp only [ParamWrite.apply, changed, and_self]
  | refillRate val =>
      rcases refillRateSet_cases val b with ⟨e, unchanged⟩ | ⟨newRate, _, _, _, changed⟩
      · simp only [ParamWrite.apply, unchanged, and_self]
      · simp only [ParamWrite.apply, changed, and_self]

/-- One step is one event of the envelope, or none. -/
theorem op_level (sound : Sound b) (limits : HasLimits capacity refillRate b)
    (fits : capacity + refillRate ≤ intMax) (nonneg : 0 ≤ b.tokens) {op : Op}
    (after : HasLimits capacity refillRate (op.apply b)) :
    (op.apply b).tokens = level capacity refillRate b.tokens (eventOf b op).toList := by
  obtain ⟨rfl, rfl⟩ := limits
  have capped := sound.capped
  cases op with
  | refillFn =>
      have positive := sound.limits.ratePos
      have inside : wrapInt (b.tokens + b.refillRate) = b.tokens + b.refillRate :=
        wrapInt_of_mem (by unfold intMin; omega) (by omega)
      simp only [Op.apply, refillFn, inside, eventOf, Option.toList, level]
  | consumeWrite len =>
      rcases consumeWrite_cases len b with ⟨left, taken⟩ | ⟨empty, kept⟩
      · simp only [Op.apply, taken, eventOf, left, if_true, Option.toList, level]
      · have short : ¬ 0 < b.tokens := by omega
        simp only [Op.apply, kept, eventOf, short, if_false, Option.toList, level]
  | param write => exact param_tokens sound after.1

theorem op_counters (b : Bucket) (op : Op) :
    (op.apply b).totalConsumed =
        b.totalConsumed + UInt64.ofNat ((eventOf b op).toList.count .take) ∧
      (op.apply b).totalRejected =
        b.totalRejected + UInt64.ofNat ((eventOf b op).toList.count .skip) := by
  cases op with
  | refillFn => exact ⟨(UInt64.add_zero _).symm, (UInt64.add_zero _).symm⟩
  | consumeWrite len =>
      rcases consumeWrite_cases len b with ⟨left, taken⟩ | ⟨empty, kept⟩
      · simp only [Op.apply, taken, eventOf, left, if_true]
        exact ⟨rfl, (UInt64.add_zero _).symm⟩
      · have short : ¬ 0 < b.tokens := by omega
        simp only [Op.apply, kept, eventOf, short, if_false]
        exact ⟨(UInt64.add_zero _).symm, rfl⟩
  | param write =>
      obtain ⟨consumed, rejected⟩ := counters_of_param write b
      exact ⟨consumed.trans (UInt64.add_zero _).symm, rejected.trans (UInt64.add_zero _).symm⟩

/-- The counters tell how many writes the run took and how many it turned down. -/
theorem schedule_counters (b : Bucket) (ops : List Op) :
    (ops.foldl Op.apply b).totalConsumed =
        b.totalConsumed + UInt64.ofNat ((schedule b ops).count .take) ∧
      (ops.foldl Op.apply b).totalRejected =
        b.totalRejected + UInt64.ofNat ((schedule b ops).count .skip) := by
  induction ops generalizing b with
  | nil => exact ⟨(UInt64.add_zero _).symm, (UInt64.add_zero _).symm⟩
  | cons op rest ih =>
      obtain ⟨consumed, rejected⟩ := ih (op.apply b)
      have first := op_counters b op
      rw [List.foldl_cons, consumed, rejected, first.1, first.2, schedule, List.count_append,
        List.count_append, UInt64.ofNat_add, UInt64.ofNat_add, UInt64.add_assoc, UInt64.add_assoc]
      exact ⟨rfl, rfl⟩

theorem schedule_eq_greedy (sound : Sound b) (nonneg : 0 ≤ b.tokens)
    (fits : capacity + refillRate ≤ intMax) {ops : List Op}
    (steady : Always opStep (HasLimits capacity refillRate) b ops) :
    schedule b ops = greedy capacity refillRate b.tokens (arrivals ops) := by
  induction ops generalizing b with
  | nil => rfl
  | cons op rest ih =>
      have limits := always_head steady
      have later := steady.2 _ rfl
      have tokens := op_level sound limits fits nonneg (always_head later)
      obtain ⟨rfl, rfl⟩ := limits
      have ratePos := sound.limits.ratePos
      have capacityPos := sound.limits.capacityPos
      have same := ih (sound.op op)
      cases op with
      | refillFn =>
          simp only [eventOf, Option.toList, level] at tokens
          rw [schedule, same (by omega) later, tokens]
          rfl
      | consumeWrite len =>
          by_cases left : 0 < b.tokens
          · simp only [eventOf, left, if_true, Option.toList, level] at tokens
            rw [schedule, same (by omega) later, tokens]
            simp only [eventOf, left, if_true, Option.toList, List.singleton_append, arrivals,
              List.filterMap_cons, Op.arrival, greedy]
          · simp only [eventOf, left, if_false, Option.toList, level] at tokens
            rw [schedule, same (by omega) later, tokens]
            simp only [eventOf, left, if_false, Option.toList, List.singleton_append, arrivals,
              List.filterMap_cons, Op.arrival, greedy]
      | param write =>
          simp only [eventOf, Option.toList, level] at tokens
          rw [schedule, same (by omega) later, tokens]
          rfl

end Steady

/-- **The limiter is the best one within its limits.** From any reachable state
with no debt, over any stretch in which the capacity and the rate stay as they
are and fit an `int` together: the writes that took a token keep within the
envelope of the tokens at hand, the capacity and the rate; no other choice of
writes that does so takes more of them; every write takes one if all of them
together keep within it; and the counters tell how many did and did not. -/
theorem limiter_admits_most {m : Module} {acts : List ModuleAct} (ops : List Op)
    (reached : run moduleStep Module.initial acts = some m) (nonneg : 0 ≤ m.bucket.tokens)
    (fits : m.bucket.capacity + m.bucket.refillRate ≤ intMax)
    (steady : Always opStep (HasLimits m.bucket.capacity m.bucket.refillRate) m.bucket ops) :
    Within m.bucket.capacity m.bucket.refillRate m.bucket.tokens (schedule m.bucket ops) ∧
      (∀ choice, choice.map Event.arrival = arrivals ops →
        Within m.bucket.capacity m.bucket.refillRate m.bucket.tokens choice →
          takes choice ≤ takes (schedule m.bucket ops)) ∧
      (.skip ∉ schedule m.bucket ops ↔
        ∀ choice, choice.map Event.arrival = arrivals ops → .skip ∉ choice →
          Within m.bucket.capacity m.bucket.refillRate m.bucket.tokens choice) ∧
      (ops.foldl Op.apply m.bucket).totalConsumed =
        m.bucket.totalConsumed + UInt64.ofNat ((schedule m.bucket ops).count .take) ∧
      (ops.foldl Op.apply m.bucket).totalRejected =
        m.bucket.totalRejected + UInt64.ofNat ((schedule m.bucket ops).count .skip) := by
  have sound := sound_reached reached
  obtain ⟨⟨capacityPos, _, ratePos, _⟩, _, capped⟩ := sound
  have isGreedy := schedule_eq_greedy (sound_reached reached) nonneg fits steady
  have solvent : Solvent m.bucket.capacity m.bucket.refillRate m.bucket.tokens
      (schedule m.bucket ops) := by
    rw [isGreedy]
    exact greedy_solvent (by omega) (by omega) nonneg _
  have within := (solvent_iff_within capped _).mp solvent
  refine ⟨within, ?_, ?_, schedule_counters m.bucket ops⟩
  · intro choice same keeps
    rw [isGreedy, ← same]
    exact takes_le_greedy ((solvent_iff_within capped choice).mpr keeps)
  · constructor
    · -- the schedule itself is the only choice that skips nothing
      intro noSkip choice same every
      have equal : choice = schedule m.bucket ops := by
        have arrived : (schedule m.bucket ops).map Event.arrival = arrivals ops := by
          rw [isGreedy, greedy_arrivals]
        rw [eq_taken_of_no_skip every, eq_taken_of_no_skip noSkip, same, arrived]
      rw [equal]
      exact within
    · intro allKeep
      let everything : List Event := (arrivals ops).map Arrival.taken
      have same : everything.map Event.arrival = arrivals ops := arrival_taken _
      have every : .skip ∉ everything := skip_not_mem_taken _
      have keeps := (solvent_iff_within capped _).mpr (allKeep everything same every)
      rw [isGreedy, ← same, greedy_takes_all every keeps]
      exact every

/-- Capacity 3: the fourth write in a row is turned down, a change of mode and a
tick later three more are taken. -/
theorem limiter_admits_most_three :
    ∃ m, run moduleStep Module.initial
        [.op (.param (.capacity (ascii "3"))), .tokenBucketInit] = some m ∧
      takes [.take, .skip, .take, .skip, .tick, .take, .take, .skip] ≤
        takes (schedule m.bucket [.consumeWrite 1, .consumeWrite 1, .consumeWrite 1,
          .consumeWrite 1, .param (.mode (ascii "enforce")), .refillFn, .consumeWrite 1,
          .consumeWrite 1, .consumeWrite 1]) := by
  have ran := run_get moduleStep Module.initial
    [.op (.param (.capacity (ascii "3"))), .tokenBucketInit] (by decide +kernel)
  refine ⟨_, ran, ?_⟩
  have best := limiter_admits_most [.consumeWrite 1, .consumeWrite 1, .consumeWrite 1,
    .consumeWrite 1, .param (.mode (ascii "enforce")), .refillFn, .consumeWrite 1,
    .consumeWrite 1, .consumeWrite 1] ran (by decide +kernel) (by decide +kernel)
    (by decide +kernel)
  refine best.2.1 _ (by decide +kernel) ?_
  exact (solvent_iff_within (by decide +kernel) _).mp (by decide +kernel)

end TokenBucket
