import KernelLabs.GpioCtrl.Button

/-!
# What the three counters count

A ledger kept beside the driver records every committed sample since the last
`reset_stats`: what it committed, what the sample before it had committed, and
whether it drove the LED line.  The cached LED value is the value the last commit
asked for, so a sample drives the line exactly when button XOR invert changed,
and the counters of changes and of updates are tied by the changes of `invert`.
The counters are 64 bits wide: these are equations of 64-bit numbers, and of
plain numbers as long as fewer than 2^64 samples have been counted.
-/

set_option autoImplicit false

namespace GpioCtrl

open Kernel LabelledMachine PartyPool

/-- The button value a sample stored and the inversion it was committed under. -/
structure Commit where
  button : Int
  invert : Bool
  deriving DecidableEq, Repr

/-- Button XOR invert. -/
def Commit.lit (commit : Commit) : Bool := (commit.button != 0) ^^ commit.invert

structure Sample where
  before : Commit
  now : Commit
  -- The section wrote to the LED line.
  drove : Bool
  deriving DecidableEq, Repr

def Sample.buttonDiffers (sample : Sample) : Bool := sample.now.button != sample.before.button

def Sample.invertDiffers (sample : Sample) : Bool := sample.now.invert != sample.before.invert

def Sample.bothDiffer (sample : Sample) : Bool := sample.buttonDiffers && sample.invertDiffers

structure Ledger where
  last : Commit
  -- Since the last reset, the latest first.
  samples : List Sample
  -- How many samples were counted since then, the one of init among them.
  counted : Nat
  deriving DecidableEq, Repr

def Ledger.initial (params : Params) (buttonValue : Int) : Ledger :=
  ⟨⟨buttonValue, params.initialInvert⟩, [], 1⟩

def Ledger.enter (ledger : Ledger) (st : GpioctrlState) : CounterSection → Ledger
  | .resetStats => { ledger with samples := [], counted := 0 }
  | .sample caller value =>
    let now : Commit := ⟨value, st.invert⟩
    { last := now
      samples := ⟨ledger.last, now, (sampleSection st caller value).2.isSome⟩ :: ledger.samples
      counted := ledger.counted + 1 }

def keepLedger (s : System) (ledger : Ledger) (act : Act) : Ledger :=
  match s.shared.state, counterSection s act with
  | some st, some own => ledger.enter st own
  | _, _ => ledger

/-- The button's line reads 0, 1 or an error. -/
def Act.ReadsBit : Act → Prop
  | .line value => value ≤ 1
  | _ => True

instance : DecidablePred Act.ReadsBit
  | .line value => inferInstanceAs (Decidable (value ≤ 1))
  | .writeAttr _ _ _ | .writeDev _ _ _ | .call _ | .workStart _ | .work | .initSchedule | .exit =>
    inferInstanceAs (Decidable True)

/-! ## One committed sample -/

def Commit.Bit (commit : Commit) : Prop := commit.button = 0 ∨ commit.button = 1

theorem desiredLed_eq_iff {a b : Commit} (aBit : a.Bit) (bBit : b.Bit) :
    desiredLed a.invert a.button = desiredLed b.invert b.button ↔ a.lit = b.lit := by
  obtain ⟨aButton, aInvert⟩ := a
  obtain ⟨bButton, bInvert⟩ := b
  rcases aBit with rfl | rfl <;> rcases bBit with rfl | rfl <;> cases aInvert <;> cases bInvert <;>
    decide

/-- What holds of each recorded sample. -/
structure Sample.Driven (sample : Sample) : Prop where
  before : sample.before.Bit
  now : sample.now.Bit
  drove : sample.drove = (sample.now.lit != sample.before.lit)

theorem button_bne {a b : Commit} (aBit : a.Bit) (bBit : b.Bit) :
    (a.button != b.button) = ((a.button != 0) ^^ (b.button != 0)) := by
  rcases aBit with aValue | aValue <;> rcases bBit with bValue | bValue <;>
    rw [aValue, bValue] <;> rfl

/-- The XOR changes when one of its operands does and the other does not. -/
theorem Sample.Driven.drove_eq {sample : Sample} (driven : sample.Driven) :
    sample.drove = (sample.buttonDiffers ^^ sample.invertDiffers) := by
  have exchange : ∀ a b c d : Bool, ((a ^^ b) != (c ^^ d)) = ((a ^^ c) ^^ (b != d)) := by decide
  rw [driven.drove, Sample.buttonDiffers, button_bne driven.now driven.before]
  exact exchange _ _ _ _

/-- The balance of any list of samples. -/
theorem drove_add_both {samples : List Sample} (driven : ∀ sample ∈ samples, sample.Driven) :
    samples.countP Sample.drove + 2 * samples.countP Sample.bothDiffer =
      samples.countP Sample.buttonDiffers + samples.countP Sample.invertDiffers := by
  induction samples with
  | nil => rfl
  | cons sample rest ih =>
      have balance := ih fun other member => driven other (List.mem_cons_of_mem _ member)
      have own := (driven sample List.mem_cons_self).drove_eq
      simp only [List.countP_cons, own, Sample.bothDiffer]
      by_cases button : sample.buttonDiffers = true <;>
        by_cases invert : sample.invertDiffers = true <;> simp [button, invert] <;> omega

/-! ## The ledger and the counters -/

/-- The state as the ledger has it. -/
structure Booked (st : GpioctrlState) (ledger : Ledger) : Prop where
  bit : ledger.last.Bit
  button : st.button = ledger.last.button
  led : st.led = desiredLed ledger.last.invert ledger.last.button
  samples : st.samples = UInt64.ofNat ledger.counted
  changes : st.changes = UInt64.ofNat (ledger.samples.countP Sample.buttonDiffers)
  outputUpdates : st.outputUpdates = UInt64.ofNat (ledger.samples.countP Sample.drove)
  driven : ∀ sample ∈ ledger.samples, sample.Driven
  counted : ledger.samples.length ≤ ledger.counted

theorem Booked.keep {st after : GpioctrlState} {ledger : Ledger} (booked : Booked st ledger)
    (same : SameCounts st after) (led : after.led = st.led) : Booked after ledger :=
  ⟨booked.bit, same.button.trans booked.button, led.trans booked.led,
    same.samples.trans booked.samples, same.changes.trans booked.changes,
    same.outputUpdates.trans booked.outputUpdates, booked.driven, booked.counted⟩

theorem Booked.reset {st : GpioctrlState} {ledger : Ledger} (booked : Booked st ledger) :
    Booked (resetStats st) (ledger.enter st .resetStats) :=
  ⟨booked.bit, booked.button, booked.led, rfl, rfl, rfl, nofun, Nat.le_refl _⟩

theorem sampleSection_counts (st : GpioctrlState) (caller : Identity) (value : Int)
    (known : st.button ≠ -1) :
    (sampleSection st caller value).1.changes =
        st.changes + UInt64.ofNat (if value = st.button then 0 else 1) ∧
      (sampleSection st caller value).1.outputUpdates = st.outputUpdates +
        UInt64.ofNat (if (sampleSection st caller value).2.isSome then 1 else 0) := by
  constructor
  · by_cases same : value = st.button
    · simp [sampleSection, same]
    · simp [sampleSection, same, known]
  · by_cases updates : desiredLed st.invert value ≠ st.led
    · simp [sampleSection, updates]
    · simp [sampleSection, not_not.mp updates]

theorem sampleSection_drives (st : GpioctrlState) (caller : Identity) (value : Int) :
    (sampleSection st caller value).2.isSome = true ↔ desiredLed st.invert value ≠ st.led := by
  by_cases updates : desiredLed st.invert value ≠ st.led
  · simp [sampleSection, updates]
  · simp [sampleSection, not_not.mp updates]

theorem Booked.sample {st : GpioctrlState} {ledger : Ledger} (booked : Booked st ledger)
    (caller : Identity) {value : Int} (bit : value = 0 ∨ value = 1) :
    Booked (sampleSection st caller value).1 (ledger.enter st (.sample caller value)) := by
  have known : st.button ≠ -1 := by
    rw [booked.button]
    rcases booked.bit with off | on <;> omega
  obtain ⟨changes, updates⟩ := sampleSection_counts st caller value known
  refine ⟨bit, rfl, sampleSection_led st caller value, ?_, ?_, ?_, ?_, ?_⟩
  · exact (congrArg (· + 1) booked.samples).trans (UInt64.ofNat_add _ 1).symm
  · rw [changes, booked.changes, ← UInt64.ofNat_add, booked.button]
    simp [Ledger.enter, List.countP_cons, Sample.buttonDiffers]
  · rw [updates, booked.outputUpdates, ← UInt64.ofNat_add]
    simp [Ledger.enter, List.countP_cons]
  · intro sample member
    rcases List.mem_cons.mp member with rfl | old
    · refine ⟨booked.bit, bit, ?_⟩
      have drives := sampleSection_drives st caller value
      rw [booked.led, ne_eq, desiredLed_eq_iff (a := ⟨value, st.invert⟩) bit booked.bit] at drives
      rw [Bool.eq_iff_iff, drives, bne_iff_ne]
    · exact booked.driven sample old
  · exact Nat.succ_le_succ booked.counted

theorem Booked.run {st : GpioctrlState} {ledger : Ledger} (booked : Booked st ledger)
    (own : CounterSection) (bit : ∀ caller value, own = .sample caller value →
      value = 0 ∨ value = 1) : Booked (own.run st).1 (ledger.enter st own) := by
  cases own with
  | sample caller value => exact booked.sample caller (bit caller value rfl)
  | resetStats => exact booked.reset

/-! ## A run -/

/-- The books are right while there are attributes, and the values on their way
to a commit are 0 or 1. -/
structure Audited (p : System × Ledger) : Prop where
  line : p.1.shared.buttonLine ≤ 1
  carried : ∀ who value, p.1.samplePc who = .commit value → value = 0 ∨ value = 1
  booked : p.1.shared.phase.sysfsGone = false →
    ∃ st, p.1.shared.state = some st ∧ Booked st p.2

theorem audited_initial (params : Params) (startNs : UInt64) (init : Identity) {buttonValue : Int}
    (read : buttonValue = 0 ∨ buttonValue = 1) :
    Audited (System.initial params startNs init buttonValue,
      Ledger.initial params buttonValue) := by
  refine ⟨?_, ?_, fun _ => ⟨_, rfl, read, rfl, rfl, rfl, rfl, rfl, nofun, Nat.zero_le 1⟩⟩
  · change buttonValue ≤ 1
    omega
  · intro who value commits
    cases who <;> contradiction

theorem readButton_le {shared : Shared} (line : shared.buttonLine ≤ 1) :
    readButton shared ≤ 1 := by
  unfold readButton
  split
  · exact Int.zero_le_ofNat 1
  · exact line

theorem step_audited {s next : System} {ledger : Ledger} {act : Act}
    (audited : Audited (s, ledger)) (bit : act.ReadsBit) (stepped : step s act = some next) :
    Audited (next, keepLedger s ledger act) := by
  refine ⟨?_, ?_, fun isOpen => ?_⟩
  · rcases step_buttonLine stepped with ⟨value, rfl, line⟩ | ⟨_, line⟩
    · exact line ▸ bit
    · exact line ▸ audited.line
  · intro who value commits
    rcases step_samplePc stepped commits with ⟨_, _, rfl, valid⟩ | ⟨_, before⟩
    · have := readButton_le audited.line
      dsimp only at this
      omega
    · exact audited.carried who value before
  · obtain ⟨before, alive⟩ := step_open stepped isOpen
    obtain ⟨st, held, booked⟩ := audited.booked before
    obtain ⟨after, heldNext⟩ := Option.isSome_iff_exists.mp (alive.trans (held ▸ rfl))
    obtain ⟨same, again, effect⟩ := step_section stepped heldNext
    cases Option.some.inj (held.symm.trans again)
    refine ⟨after, heldNext, ?_⟩
    dsimp only at held
    cases effect with
    | ran own found effect line =>
        simp only [keepLedger, held, found, effect]
        refine booked.run own ?_
        rintro caller value rfl
        obtain ⟨who, _, commits⟩ := counterSection_sampler found
        exact audited.carried who value commits
    | kept quiet same led =>
        simp only [keepLedger, held, quiet]
        exact booked.keep same (led isOpen).1

/-- What the counters tell of the samples since the last reset. -/
structure Accounted (st : GpioctrlState) (ledger : Ledger) : Prop where
  samples : st.samples = UInt64.ofNat ledger.counted
  changes : st.changes = UInt64.ofNat (ledger.samples.countP Sample.buttonDiffers)
  updates : st.outputUpdates + 2 * UInt64.ofNat (ledger.samples.countP Sample.bothDiffer) =
    st.changes + UInt64.ofNat (ledger.samples.countP Sample.invertDiffers)
  driven : ∀ sample ∈ ledger.samples,
    sample.drove = true ↔ sample.now.lit ≠ sample.before.lit
  unwrapped : ledger.counted < 2 ^ 64 →
    st.changes.toNat = ledger.samples.countP Sample.buttonDiffers ∧
      st.outputUpdates.toNat + 2 * ledger.samples.countP Sample.bothDiffer =
        st.changes.toNat + ledger.samples.countP Sample.invertDiffers ∧
      st.changes ≤ st.samples ∧ st.outputUpdates ≤ st.samples

theorem Booked.accounted {st : GpioctrlState} {ledger : Ledger} (booked : Booked st ledger) :
    Accounted st ledger := by
  have balance := drove_add_both booked.driven
  refine ⟨booked.samples, booked.changes, ?_, ?_, fun fits => ?_⟩
  · rw [booked.outputUpdates, booked.changes, ← UInt64.ofNat_add, ← balance]
    simp
  · intro sample member
    rw [(booked.driven sample member).drove, bne_iff_ne]
  · have bound (p : Sample → Bool) : ledger.samples.countP p ≤ ledger.counted :=
      List.countP_le_length.trans booked.counted
    have plain {n : Nat} (small : n ≤ ledger.counted) : (UInt64.ofNat n).toNat = n :=
      UInt64.toNat_ofNat_of_lt (Nat.lt_of_le_of_lt small fits)
    rw [UInt64.le_iff_toNat_le, UInt64.le_iff_toNat_le, booked.changes, booked.outputUpdates,
      booked.samples, plain (bound _), plain (bound _), plain (Nat.le_refl _)]
    exact ⟨rfl, balance, bound _, bound _⟩

/-- **Accounting.** In every state reached while there are attributes the
counters are those of the samples committed since the last reset. -/
theorem counters_account {params : Params} {startNs : UInt64} {init : Identity}
    {buttonValue : Int} {acts : List Act} {s : System} {ledger : Ledger}
    (read : buttonValue = 0 ∨ buttonValue = 1) (lines : ∀ act ∈ acts, act.ReadsBit)
    (ran : run (observed step keepLedger)
      (System.initial params startNs init buttonValue, Ledger.initial params buttonValue) acts =
        some (s, ledger))
    (isOpen : s.shared.phase.sysfsGone = false) :
    ∃ st, s.shared.state = some st ∧ Accounted st ledger := by
  have keep : ∀ (p : System × Ledger) (act : Act) (next : System × Ledger), Audited p →
      act.ReadsBit → observed step keepLedger p act = some next → Audited next := by
    rintro ⟨s, ledger⟩ act ⟨next, after⟩ audited bit stepped
    obtain ⟨own, rfl⟩ := observed_eq_some.mp stepped
    exact step_audited audited bit own
  have meets : Meets (observed step keepLedger) (fun _ act => act.ReadsBit)
      (System.initial params startNs init buttonValue, Ledger.initial params buttonValue) acts :=
    meets_of_forall_mem (fun act member _ => lines act member) _
  have audited := invariant_meets keep (audited_initial params startNs init read) meets ran
  obtain ⟨st, held, booked⟩ := audited.booked isOpen
  exact ⟨st, held, booked.accounted⟩

/-- A write of `invert` commits a sample in which both differ. -/
theorem counters_account_both :
    ∃ p st, run (observed step keepLedger)
        (System.initial ⟨500, false⟩ 0 ⟨ascii "insmod", 100⟩ 0, Ledger.initial ⟨500, false⟩ 0)
        [.initSchedule, .line 1, .writeAttr .invert ⟨ascii "sh", 7⟩ (ascii "1\n"), .call 0,
          .call 0, .call 0] = some p ∧
      p.1.shared.state = some st ∧ Accounted st p.2 ∧
      p.2.samples = [⟨⟨0, false⟩, ⟨1, true⟩, false⟩] := by
  have ran := run_get (observed step keepLedger)
    (System.initial ⟨500, false⟩ 0 ⟨ascii "insmod", 100⟩ 0, Ledger.initial ⟨500, false⟩ 0)
    [.initSchedule, .line 1, .writeAttr .invert ⟨ascii "sh", 7⟩ (ascii "1\n"), .call 0,
      .call 0, .call 0] (by decide +kernel)
  obtain ⟨st, held, accounted⟩ :=
    counters_account (Or.inl rfl) (by decide +kernel) ran (by decide +kernel)
  exact ⟨_, st, ran, held, accounted, by decide +kernel⟩

/-! ## The counter of samples wraps -/

/-- The button is pressed, one sample has seen it and the work is armed. -/
def steady (samples : UInt64) : System where
  shared :=
    { state := some
        { initState ⟨500, false⟩ 0 ⟨ascii "insmod", 100⟩ 1 with
          samples
          changes := 1
          outputUpdates := 1
          lastSamplePid := 9
          lastSampleComm := strscpy taskCommLen (ascii "kworker") }
      buttonLine := 1
      ledLine := 1
      pending := some 500
      work := .idle
      phase := .loaded
      fault := false }
  parties := []

/-- One round of the poll work. -/
def pollOnce : List Act := [.workStart ⟨ascii "kworker", 9⟩, .work, .work, .work, .work]

theorem run_pollOnce (samples : UInt64) :
    run step (steady samples) pollOnce = some (steady (samples + 1)) := rfl

theorem run_polls (n : Nat) (samples : UInt64) :
    run step (steady samples) (List.replicate n pollOnce).flatten =
      some (steady (samples + UInt64.ofNat n)) := by
  induction n generalizing samples with
  | zero => exact congrArg (fun count => some (steady count)) (UInt64.add_zero samples).symm
  | succ n ih =>
      rw [List.replicate_succ, List.flatten_cons, run_append, run_pollOnce, Option.bind_some, ih,
        UInt64.add_assoc, UInt64.ofNat_add, UInt64.add_comm 1]
      rfl

/-- The button is pressed after init, and the work runs 2^64 - 1 times. -/
def wrappingPolls : List Act :=
  [.initSchedule, .initSchedule, .line 1] ++ (List.replicate (2 ^ 64 - 1) pollOnce).flatten

/-- With the sample of init the samples are 2^64 by then, and one of them saw a
change. -/
theorem samples_wrap :
    (∀ act ∈ wrappingPolls, act.ReadsBit) ∧
      run step (System.initial ⟨500, false⟩ 0 ⟨ascii "insmod", 100⟩ 0) wrappingPolls =
        some (steady 0) ∧
      ∃ st, (steady 0).shared.state = some st ∧ ¬ st.changes ≤ st.samples := by
  have pressed : run step (System.initial ⟨500, false⟩ 0 ⟨ascii "insmod", 100⟩ 0)
      ([.initSchedule, .initSchedule, .line 1] ++ pollOnce) = some (steady 2) := rfl
  have first : List.replicate (2 ^ 64 - 1) pollOnce =
      pollOnce :: List.replicate (2 ^ 64 - 2) pollOnce := List.replicate_succ
  refine ⟨?_, ?_, _, rfl, by decide⟩
  · intro act member
    rcases List.mem_append.mp member with start | polls
    · exact (by decide : ∀ act ∈ [Act.initSchedule, .initSchedule, .line 1], act.ReadsBit) act start
    · obtain ⟨round, repeated, inside⟩ := List.mem_flatten.mp polls
      rw [List.eq_of_mem_replicate repeated] at inside
      exact (by decide : ∀ act ∈ pollOnce, act.ReadsBit) act inside
  · rw [wrappingPolls, first, List.flatten_cons, ← List.append_assoc, run_append, pressed,
      Option.bind_some, run_polls]
    exact congrArg (fun count => some (steady count)) (by decide)

end GpioCtrl
