import KernelLabs.Kernel.Kstrtox

/-!
# The token bucket of `17_advanced_module_params/token_bucket.c`

Every callback runs its critical section under `bucket_lock`, so one call is one
step on the bucket.  `tokens`, `capacity` and `refill_rate` are C `int`s: the
sum in the refill wraps at 32 bits before `min` sees it.

The timer's own re-arming and the log lines carry no state; a refill tick is a
step the environment takes.
-/

set_option autoImplicit false

namespace TokenBucket

open Kernel

inductive LimiterMode where
  | modeOff
  | modeMonitor
  | modeEnforce
  deriving DecidableEq, Repr

/-- The module's static variables under `bucket_lock`, with `mode` and
`mode_str`. -/
structure Bucket where
  tokens : Int
  capacity : Int
  refillRate : Int
  mode : LimiterMode
  modeStr : Bytes
  totalConsumed : UInt64
  totalRejected : UInt64
  deriving DecidableEq, Repr

def Bucket.initial : Bucket where
  tokens := 0
  capacity := 100
  refillRate := 5
  mode := .modeMonitor
  modeStr := ascii "monitor"
  totalConsumed := 0
  totalRejected := 0

/-! ## Parameter callbacks -/

def modeSet (val : Bytes) (b : Bucket) : Except Errno Unit × Bucket :=
  if sysfsStreq val (ascii "off") then
    (.ok (), { b with mode := .modeOff, modeStr := strscpy 16 (ascii "off") })
  else if sysfsStreq val (ascii "monitor") then
    (.ok (), { b with mode := .modeMonitor, modeStr := strscpy 16 (ascii "monitor") })
  else if sysfsStreq val (ascii "enforce") then
    (.ok (), { b with mode := .modeEnforce, modeStr := strscpy 16 (ascii "enforce") })
  else (.error .einval, b)

def modeGet (b : Bucket) : Bytes := b.modeStr ++ [10]

def capacitySet (val : Bytes) (b : Bucket) : Except Errno Unit × Bucket :=
  match kstrtoint 0 val with
  | .error e => (.error e, b)
  | .ok newCap =>
    if newCap ≤ 0 then (.error .einval, b)
    else
      (.ok (), { b with
        capacity := newCap
        tokens := if newCap < b.tokens then newCap else b.tokens })

def refillRateSet (val : Bytes) (b : Bucket) : Except Errno Unit × Bucket :=
  match kstrtoint 0 val with
  | .error e => (.error e, b)
  | .ok newRate =>
    if newRate ≤ 0 then (.error .einval, b)
    else if b.capacity < newRate then (.error .einval, b)
    else (.ok (), { b with refillRate := newRate })

/-! ## Refill, consume, load -/

def refillFn (b : Bucket) : Bucket :=
  { b with tokens := min (wrapInt (b.tokens + b.refillRate)) b.capacity }

def consumeWrite (len : Nat) (b : Bucket) : Except Errno Nat × Bucket :=
  if 0 < b.tokens then
    (.ok len, { b with tokens := b.tokens - 1, totalConsumed := b.totalConsumed + 1 })
  else
    let rejected := { b with totalRejected := b.totalRejected + 1 }
    if b.mode = .modeEnforce then (.error .ebusy, rejected) else (.ok len, rejected)

def tokenBucketInit (b : Bucket) : Bucket := { b with tokens := b.capacity }

/-- The writable parameters, at load time and through sysfs. -/
inductive ParamWrite where
  | mode (val : Bytes)
  | capacity (val : Bytes)
  | refillRate (val : Bytes)
  deriving DecidableEq, Repr

def ParamWrite.apply (b : Bucket) : ParamWrite → Bucket
  | .mode val => (modeSet val b).2
  | .capacity val => (capacitySet val b).2
  | .refillRate val => (refillRateSet val b).2

/-- What can happen to a loaded module. -/
inductive Op where
  | param (write : ParamWrite)
  | refillFn
  | consumeWrite (len : Nat)
  deriving DecidableEq, Repr

def Op.apply (b : Bucket) : Op → Bucket
  | .param write => write.apply b
  | .refillFn => TokenBucket.refillFn b
  | .consumeWrite len => (TokenBucket.consumeWrite len b).2

/-- The bucket after `token_bucket_init`, with the given load-time parameters. -/
def loaded (params : List ParamWrite) : Bucket :=
  tokenBucketInit (params.foldl ParamWrite.apply Bucket.initial)

/-- The module over its life: the parameters may be written at any time, the
timer and the device exist once `token_bucket_init` has run. -/
structure Module where
  up : Bool
  bucket : Bucket
  deriving DecidableEq, Repr

def Module.initial : Module := ⟨false, Bucket.initial⟩

inductive ModuleAct where
  | op (op : Op)
  | tokenBucketInit
  deriving DecidableEq, Repr

def moduleStep (m : Module) : ModuleAct → Option Module
  | .op (.param write) => some { m with bucket := write.apply m.bucket }
  | .op op => if m.up then some { m with bucket := op.apply m.bucket } else none
  | .tokenBucketInit => if m.up then none else some ⟨true, tokenBucketInit m.bucket⟩

/-! ## What each callback can do -/

theorem moduleStep_cases {m next : Module} {act : ModuleAct}
    (stepped : moduleStep m act = some next) :
    (∃ op, act = .op op ∧ next = { m with bucket := op.apply m.bucket }) ∨
      (act = .tokenBucketInit ∧ next = ⟨true, tokenBucketInit m.bucket⟩) := by
  cases act with
  | op op =>
      cases op with
      | param write => exact Or.inl ⟨_, rfl, (Option.some.inj stepped).symm⟩
      | refillFn =>
          simp only [moduleStep] at stepped
          split at stepped
          · exact Or.inl ⟨_, rfl, (Option.some.inj stepped).symm⟩
          · contradiction
      | consumeWrite len =>
          simp only [moduleStep] at stepped
          split at stepped
          · exact Or.inl ⟨_, rfl, (Option.some.inj stepped).symm⟩
          · contradiction
  | tokenBucketInit =>
      simp only [moduleStep] at stepped
      split at stepped
      · contradiction
      · exact Or.inr ⟨rfl, (Option.some.inj stepped).symm⟩

theorem modeSet_cases (val : Bytes) (b : Bucket) :
    modeSet val b = (.error .einval, b) ∨
      ∃ mode text, modeSet val b = (.ok (), { b with mode := mode, modeStr := text }) := by
  unfold modeSet
  split
  · exact Or.inr ⟨_, _, rfl⟩
  · split
    · exact Or.inr ⟨_, _, rfl⟩
    · split
      · exact Or.inr ⟨_, _, rfl⟩
      · exact Or.inl rfl

/-- A rejected capacity changes nothing; an accepted one is a positive `int`
and caps the tokens at once. -/
theorem capacitySet_cases (val : Bytes) (b : Bucket) :
    (∃ e, capacitySet val b = (.error e, b)) ∨
      ∃ newCap, 1 ≤ newCap ∧ newCap ≤ intMax ∧
        capacitySet val b =
          (.ok (), { b with capacity := newCap, tokens := min b.tokens newCap }) := by
  unfold capacitySet
  cases parsed : kstrtoint 0 val with
  | error e => exact Or.inl ⟨e, rfl⟩
  | ok newCap =>
      have bounds := kstrtoint_mem parsed
      by_cases positive : newCap ≤ 0
      · exact Or.inl ⟨.einval, by simp [positive]⟩
      · refine Or.inr ⟨newCap, by omega, bounds.2, ?_⟩
        have clamped : (if newCap < b.tokens then newCap else b.tokens) = min b.tokens newCap := by
          split <;> omega
        simp [positive, clamped]

theorem refillRateSet_cases (val : Bytes) (b : Bucket) :
    (∃ e, refillRateSet val b = (.error e, b)) ∨
      ∃ newRate, 1 ≤ newRate ∧ newRate ≤ intMax ∧ newRate ≤ b.capacity ∧
        refillRateSet val b = (.ok (), { b with refillRate := newRate }) := by
  unfold refillRateSet
  cases parsed : kstrtoint 0 val with
  | error e => exact Or.inl ⟨e, rfl⟩
  | ok newRate =>
      have bounds := kstrtoint_mem parsed
      by_cases positive : newRate ≤ 0
      · exact Or.inl ⟨.einval, by simp [positive]⟩
      · by_cases above : b.capacity < newRate
        · exact Or.inl ⟨.einval, by simp [positive, above]⟩
        · exact Or.inr ⟨newRate, by omega, bounds.2, by omega, by simp [positive, above]⟩

theorem consumeWrite_cases (len : Nat) (b : Bucket) :
    (0 < b.tokens ∧ consumeWrite len b =
        (.ok len, { b with tokens := b.tokens - 1, totalConsumed := b.totalConsumed + 1 })) ∨
      (b.tokens ≤ 0 ∧ (consumeWrite len b).2 =
        { b with totalRejected := b.totalRejected + 1 }) := by
  by_cases positive : 0 < b.tokens
  · exact Or.inl ⟨positive, by simp [consumeWrite, positive]⟩
  · refine Or.inr ⟨by omega, ?_⟩
    simp only [consumeWrite, positive, if_false]
    split <;> rfl

end TokenBucket
