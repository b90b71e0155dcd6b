import KernelLabs.Kernel.Text
import KernelLabs.TokenBucket.Limiter
import KernelLabs.Lib.Machine

/-!
# The `mode` parameter

`mode` and `mode_str` say the same thing twice.  `mode_set` matches a word with
or without its newline and stores the word itself, so what `mode_get` prints is
taken back and changes nothing.
-/

set_option autoImplicit false

namespace TokenBucket

open Kernel LabelledMachine

/-- The canonical spelling. -/
def LimiterMode.word : LimiterMode → Bytes
  | .modeOff => ascii "off"
  | .modeMonitor => ascii "monitor"
  | .modeEnforce => ascii "enforce"

def modes : List (Bytes × LimiterMode) :=
  [(ascii "off", .modeOff), (ascii "monitor", .modeMonitor), (ascii "enforce", .modeEnforce)]

theorem mem_modes {word : Bytes} {mode : LimiterMode} :
    (word, mode) ∈ modes ↔ word = mode.word := by
  cases mode <;> simp [modes, LimiterMode.word]

/-- The word of the mode, perhaps with the newline `echo` adds. -/
def Names (val : Bytes) (mode : LimiterMode) : Prop := val = mode.word ∨ val = mode.word ++ [10]

theorem pick_modes_iff {val : Bytes} {mode : LimiterMode} :
    pick val modes = some mode ↔ Names val mode := by
  rw [pick_eq_some_iff (by decide) (by decide)]
  simp [mem_modes, Names]

theorem modeSet_eq_pick (val : Bytes) (b : Bucket) :
    modeSet val b =
      match pick val modes with
      | some mode => (.ok (), { b with mode, modeStr := mode.word })
      | none => (.error .einval, b) := by
  simp only [modeSet, modes, pick]
  split
  · rfl
  · split
    · rfl
    · split
      · rfl
      · rfl

theorem modeSet_of_names {val : Bytes} {mode : LimiterMode} (names : Names val mode) (b : Bucket) :
    modeSet val b = (.ok (), { b with mode, modeStr := mode.word }) := by
  rw [modeSet_eq_pick, pick_modes_iff.mpr names]

theorem modeSet_of_no_name {val : Bytes} (unnamed : ∀ mode, ¬ Names val mode) (b : Bucket) :
    modeSet val b = (.error .einval, b) := by
  rw [modeSet_eq_pick]
  cases picked : pick val modes with
  | none => rfl
  | some mode => exact absurd (pick_modes_iff.mp picked) (unnamed mode)

/-! ## The two copies agree -/

def Bucket.Canonical (b : Bucket) : Prop := b.modeStr = b.mode.word

theorem modeSet_canonical {b : Bucket} (canonical : b.Canonical) (val : Bytes) :
    (modeSet val b).2.Canonical := by
  by_cases named : ∃ mode, Names val mode
  · obtain ⟨mode, names⟩ := named
    rw [modeSet_of_names names]
    rfl
  · rw [modeSet_of_no_name (not_exists.mp named)]
    exact canonical

/-- The other callbacks leave both alone. -/
theorem apply_canonical {b : Bucket} (canonical : b.Canonical) (op : Op) :
    (op.apply b).Canonical := by
  cases op with
  | param write =>
      cases write with
      | mode val => exact modeSet_canonical canonical val
      | capacity val =>
          change (capacitySet val b).2.Canonical
          rcases capacitySet_cases val b with ⟨e, refused⟩ | ⟨newCap, _, _, accepted⟩
          · rw [refused]
            exact canonical
          · rw [accepted]
            exact canonical
      | refillRate val =>
          change (refillRateSet val b).2.Canonical
          rcases refillRateSet_cases val b with ⟨e, refused⟩ | ⟨newRate, _, _, _, accepted⟩
          · rw [refused]
            exact canonical
          · rw [accepted]
            exact canonical
  | refillFn => exact canonical
  | consumeWrite len =>
      change (consumeWrite len b).2.Canonical
      rcases consumeWrite_cases len b with ⟨_, admitted⟩ | ⟨_, rejected⟩
      · rw [admitted]
        exact canonical
      · rw [rejected]
        exact canonical

theorem moduleStep_canonical (m : Module) (act : ModuleAct) (next : Module)
    (canonical : m.bucket.Canonical) (stepped : moduleStep m act = some next) :
    next.bucket.Canonical := by
  rcases moduleStep_cases stepped with ⟨op, _, rfl⟩ | ⟨_, rfl⟩
  · exact apply_canonical canonical op
  · exact canonical

/-! ## Reading and writing back -/

/-- The text that `mode_get` prints is written back, `n` times over: the results
and the bucket. -/
def writeBack : Nat → Bucket → List (Except Errno Unit) × Bucket
  | 0, b => ([], b)
  | n + 1, b =>
    let (result, next) := modeSet (modeGet b) b
    let (results, last) := writeBack n next
    (result :: results, last)

theorem modeSet_modeGet {b : Bucket} (canonical : b.Canonical) :
    modeSet (modeGet b) b = (.ok (), b) := by
  have names : Names (modeGet b) b.mode := Or.inr (by rw [modeGet, canonical])
  rw [modeSet_of_names names, ← canonical]

theorem writeBack_eq {b : Bucket} (canonical : b.Canonical) (n : Nat) :
    writeBack n b = (List.replicate n (.ok ()), b) := by
  induction n with
  | zero => rfl
  | succ n ih => simp only [writeBack, modeSet_modeGet canonical, ih, List.replicate_succ]

/-- **Mode.** Whatever was written to a module, in whatever order, `mode_str` is
the word of `mode`; a further write is accepted exactly when it is one of the
words, with or without a newline, and changes nothing otherwise; and what is read
can be written back any number of times. -/
theorem mode_round_trip {acts : List ModuleAct} {m : Module}
    (ran : run moduleStep Module.initial acts = some m) :
    m.bucket.modeStr = m.bucket.mode.word ∧
      (∀ val, (modeSet val m.bucket).1 = .ok () ↔
        ∃ mode : LimiterMode, val = mode.word ∨ val = mode.word ++ [10]) ∧
      (∀ val (mode : LimiterMode), val = mode.word ∨ val = mode.word ++ [10] →
        (modeSet val m.bucket).2 = { m.bucket with mode, modeStr := mode.word }) ∧
      (∀ val e, (modeSet val m.bucket).1 = .error e → (modeSet val m.bucket).2 = m.bucket) ∧
      ∀ n, writeBack n m.bucket = (List.replicate n (.ok ()), m.bucket) := by
  have canonical : m.bucket.Canonical :=
    invariant_run (I := fun m => m.bucket.Canonical) moduleStep_canonical rfl ran
  refine ⟨canonical, ?_, ?_, ?_, writeBack_eq canonical⟩
  · intro val
    constructor
    · intro accepted
      by_contra none
      rw [modeSet_of_no_name (not_exists.mp none)] at accepted
      cases accepted
    · rintro ⟨mode, names⟩
      rw [modeSet_of_names names]
  · intro val mode names
    rw [modeSet_of_names names]
  · intro val e refused
    by_cases named : ∃ mode, Names val mode
    · obtain ⟨mode, names⟩ := named
      rw [modeSet_of_names names] at refused
      cases refused
    · rw [modeSet_of_no_name (not_exists.mp named)]

def echoedModes : List ModuleAct :=
  [.op (.param (.mode (ascii "off"))), .tokenBucketInit,
    .op (.param (.mode (ascii "enforce\n"))), .op (.param (.mode (ascii "enforce\n\n")))]

theorem mode_round_trip_echoed :
    ∃ m, run moduleStep Module.initial echoedModes = some m ∧ m.bucket.modeStr = ascii "enforce" ∧
      ∀ n, writeBack n m.bucket = (List.replicate n (.ok ()), m.bucket) := by
  have ran := run_get moduleStep Module.initial echoedModes (by decide)
  exact ⟨_, ran, by decide +kernel, (mode_round_trip ran).2.2.2.2⟩

end TokenBucket
