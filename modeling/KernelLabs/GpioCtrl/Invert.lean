import KernelLabs.GpioCtrl.Commands
import KernelLabs.GpioCtrl.Led
import KernelLabs.GpioCtrl.Sections

/-!
# What a successful write of `invert` has done

Both writers store the value and sample then, and both ignore what the sample
returns.  When the GPIO read fails, the value is stored, the LED is left as it
was and the write reports success; `sync` reports the same failure.
-/

set_option autoImplicit false

namespace GpioCtrl

open Kernel LabelledMachine PartyPool

/-! ## The LED line follows the cached value, whether reads succeed or fail -/

def OpenDriven (s : System) : Prop := s.shared.phase.sysfsGone = false → s.shared.Driven

theorem CounterSection.run_driven {st : GpioctrlState} {line : Int} (own : CounterSection)
    (driven : st.led = line) : (own.run st).1.led = (own.run st).2.getD line := by
  cases own with
  | sample caller value => simp only [CounterSection.run, ← driven, sampleSection_led,
      sampleSection_written]
  | resetStats => exact driven

theorem step_openDriven (s : System) (act : Act) (next : System) (driven : OpenDriven s)
    (stepped : step s act = some next) : OpenDriven next := by
  intro isOpen
  obtain ⟨before, alive⟩ := step_open stepped isOpen
  obtain ⟨st, held, led⟩ := driven before
  obtain ⟨after, heldNext⟩ := Option.isSome_iff_exists.mp (alive.trans (held ▸ rfl))
  obtain ⟨same, again, effect⟩ := step_section stepped heldNext
  cases Option.some.inj (held.symm.trans again)
  refine ⟨after, heldNext, ?_⟩
  cases effect with
  | ran own found effect line =>
      rw [effect, line]
      exact own.run_driven led
  | kept quiet same kept =>
      obtain ⟨ledNext, line⟩ := kept isOpen
      exact ledNext.trans (led.trans line.symm)

/-! ## One write of `invert` -/

def written (route : Origin) (v : Bytes) : Except Errno Command :=
  match route with
  | .sysfs => parseStore .invert v
  | .dev => parseWrite (Attr.invert.command ++ v) 0

def invertWrite (route : Origin) (shared : Shared) (caller : Identity) (v : Bytes) :
    Shared × Call :=
  match route with
  | .sysfs => sysfsWrite shared caller .invert v
  | .dev => devWrite shared caller .invert v

theorem invertWrite_eq (route : Origin) (shared : Shared) (caller : Identity) (v : Bytes) :
    ∃ count : Nat, invertWrite route shared caller v =
      serve shared ⟨route, caller, count, enter (written route v)⟩ := by
  cases route with
  | sysfs => exact ⟨v.length, rfl⟩
  | dev => exact ⟨(Attr.invert.command ++ v).length, rfl⟩

theorem strim_invert (v : Bytes) :
    (ascii "invert=").isPrefixOf (strim (cstr (Attr.invert.command ++ v))) = true := by
  have noNul : ∀ c ∈ Attr.invert.command, (c != 0) = true := by decide +kernel
  have text : cstr (Attr.invert.command ++ v) = Attr.invert.command ++ cstr v :=
    List.takeWhile_append_of_pos noNul
  rw [text, strim_append (by decide) (by decide) (by decide), List.isPrefixOf_iff_prefix]
  exact List.prefix_append _ _

theorem written_cases (route : Origin) (v : Bytes) :
    (∃ e, written route v = .error e) ∨ ∃ value, written route v = .ok (.invert value) := by
  cases parsed : written route v with
  | error e => exact Or.inl ⟨e, rfl⟩
  | ok command =>
      right
      cases route with
      | sysfs =>
          obtain ⟨value, _, rfl⟩ := parseInvert_ok_iff.mp parsed
          exact ⟨value, rfl⟩
      | dev =>
          obtain ⟨_, accepted⟩ := parseWrite_ok_iff.mp parsed
          obtain ⟨value, _, rfl⟩ := (accepted_invert_iff (strim_invert v)).mp accepted
          exact ⟨value, rfl⟩

/-- A success has stored the value and brought the LED in line with it; an error
has changed nothing. -/
structure Effective (route : Origin) (v : Bytes) (shared : Shared) (outcome : Shared × Call) :
    Prop where
  succeeded : outcome.2.result = some (.ok ()) → ∃ value after,
    written route v = .ok (.invert value) ∧ outcome.1.state = some after ∧
      after.invert = value ∧ after.led = desiredLed after.invert after.button ∧
      outcome.1.ledLine = after.led
  failed : ∀ ret, outcome.2.result = some (.error ret) → outcome.1 = shared

/-- The read succeeds, or the text is refused, or the LED shows already what the
new value asks of the stored button. -/
def Synchronises (route : Origin) (v : Bytes) (shared : Shared) (st : GpioctrlState) : Prop :=
  0 ≤ shared.buttonLine ∨ (∃ e, written route v = .error e) ∨
    ∃ value, written route v = .ok (.invert value) ∧ desiredLed value st.button = st.led

section OneWrite
variable {route : Origin} {v : Bytes} {shared : Shared} {st : GpioctrlState} {value : Bool}
  (held : shared.state = some st) (parsed : written route v = .ok (.invert value))
include held parsed

/-- An accepted write stores its value, samples and reports success. -/
theorem invertWrite_accepted (caller : Identity) : ∃ call : Call,
    invertWrite route shared caller v = (sampled shared (storeInvert st value) caller, call) ∧
      call.result = some (.ok ()) := by
  obtain ⟨count, write⟩ := invertWrite_eq route shared caller v
  refine ⟨⟨route, caller, count, .done count⟩, ?_, ?_⟩
  · rw [write, parsed, serve_command held]
    rfl
  · simp [Call.result, Int.not_lt.mpr (Int.natCast_nonneg count)]

/-- With the read succeeding the sample brings the LED in line. -/
theorem effective_of_readable (driven : st.led = shared.ledLine)
    (readable : 0 ≤ shared.buttonLine) (caller : Identity) :
    Effective route v shared (invertWrite route shared caller v) := by
  obtain ⟨call, write, succeeds⟩ := invertWrite_accepted held parsed caller
  have sample : sampled shared (storeInvert st value) caller =
      commitSample shared (storeInvert st value) caller shared.buttonLine :=
    if_neg (Int.not_lt.mpr readable)
  have lit : (storeInvert st value).led = shared.ledLine := driven
  obtain ⟨⟨after, now, line⟩, ⟨same, again, led⟩⟩ :=
    commitSample_settles shared caller shared.buttonLine lit
  cases Option.some.inj (now.symm.trans again)
  rw [write, sample]
  constructor
  · refine fun _ => ⟨value, after, parsed, now, ?_, led, line.symm⟩
    cases now
    rfl
  · intro ret failed
    cases succeeds.symm.trans failed

/-- With the read failing the LED stays, which is right only if it shows the value
already. -/
theorem effective_unreadable_iff (driven : st.led = shared.ledLine)
    (fails : shared.buttonLine < 0) (caller : Identity) :
    Effective route v shared (invertWrite route shared caller v) ↔
      desiredLed value st.button = st.led := by
  obtain ⟨call, write, succeeds⟩ := invertWrite_accepted held parsed caller
  have sample : sampled shared (storeInvert st value) caller =
      { shared with state := some (storeInvert st value) } := if_pos fails
  rw [write, sample]
  constructor
  · intro effective
    obtain ⟨own, after, again, now, _, led, _⟩ := effective.succeeded succeeds
    cases parsed.symm.trans again
    cases now
    exact led.symm
  · intro already
    constructor
    · exact fun _ => ⟨value, _, parsed, rfl, rfl, already.symm, driven.symm⟩
    · intro ret failed
      cases succeeds.symm.trans failed

end OneWrite

theorem effective_of_refused {route : Origin} {v : Bytes} {e : Errno}
    (refused : written route v = .error e) (shared : Shared) (caller : Identity) :
    Effective route v shared (invertWrite route shared caller v) := by
  obtain ⟨count, write⟩ := invertWrite_eq route shared caller v
  rw [write, refused, serve_error]
  refine ⟨fun succeeded => ?_, fun _ _ => rfl⟩
  simp [Call.result, e.code_neg] at succeeded

theorem effective_iff {shared : Shared} {st : GpioctrlState} (held : shared.state = some st)
    (driven : st.led = shared.ledLine) (route : Origin) (caller : Identity) (v : Bytes) :
    Effective route v shared (invertWrite route shared caller v) ↔
      Synchronises route v shared st := by
  rcases written_cases route v with ⟨e, refused⟩ | ⟨value, parsed⟩
  · exact iff_of_true (effective_of_refused refused shared caller) (Or.inr (Or.inl ⟨e, refused⟩))
  · by_cases readable : 0 ≤ shared.buttonLine
    · exact iff_of_true (effective_of_readable held parsed driven readable caller)
        (Or.inl readable)
    · rw [effective_unreadable_iff held parsed driven (Int.not_le.mp readable) caller]
      simp [Synchronises, readable, parsed]

/-- The interface takes a write. -/
def Takes (route : Origin) (shared : Shared) : Prop :=
  match route with
  | .sysfs => shared.phase.sysfsGone = false
  | .dev => shared.phase.unloading = false

theorem open_of_takes {route : Origin} {shared : Shared} (takes : Takes route shared) :
    shared.phase.sysfsGone = false := by
  cases route with
  | sysfs => exact takes
  | dev =>
      have loaded : shared.phase.unloading = false := takes
      cases phase : shared.phase <;> rw [phase] at loaded <;> first | rfl | cases loaded

/-- **invert.** In every state in which a write can begin, it is effective exactly
when it synchronises. -/
theorem invert_effective_iff {params : Params} {startNs : UInt64} {init : Identity}
    {buttonValue : Int} {acts : List Act} {s : System}
    (ran : run step (System.initial params startNs init buttonValue) acts = some s)
    {route : Origin} (takes : Takes route s.shared) (caller : Identity) (v : Bytes) :
    ∃ st, s.shared.state = some st ∧
      (Effective route v s.shared (invertWrite route s.shared caller v) ↔
        Synchronises route v s.shared st) := by
  have start : OpenDriven (System.initial params startNs init buttonValue) :=
    fun _ => ⟨_, rfl, rfl⟩
  obtain ⟨st, held, driven⟩ := invariant_run step_openDriven start ran (open_of_takes takes)
  exact ⟨st, held, effective_iff held driven route caller v⟩

/-- The button's line fails after init. -/
def lineFailing : Shared := { loadedShared with buttonLine := -5 }

/-- Either write reports success for an LED that stays off. -/
theorem invert_write_not_effective :
    run step (System.initial ⟨500, false⟩ 0 ⟨ascii "insmod", 100⟩ 0) [.line (-5)] =
        some ⟨lineFailing, []⟩ ∧
      ∀ route : Origin,
        (invertWrite route lineFailing ⟨ascii "sh", 7⟩ (ascii "1\n")).2.result = some (.ok ()) ∧
        ¬ Effective route (ascii "1\n") lineFailing
          (invertWrite route lineFailing ⟨ascii "sh", 7⟩ (ascii "1\n")) := by
  refine ⟨rfl, fun route => ?_⟩
  have success : (invertWrite route lineFailing ⟨ascii "sh", 7⟩ (ascii "1\n")).2.result =
      some (.ok ()) := by
    cases route <;> decide +kernel
  have stored : (invertWrite route lineFailing ⟨ascii "sh", 7⟩ (ascii "1\n")).1.state.map
      (fun st => (st.led, desiredLed st.invert st.button)) = some (0, 1) := by
    cases route <;> decide +kernel
  refine ⟨success, fun effective => ?_⟩
  obtain ⟨value, after, _, now, _, led, _⟩ := effective.succeeded success
  rw [now] at stored
  obtain ⟨off, on⟩ := Prod.mk.inj (Option.some.inj stored)
  omega

theorem invert_effective_readable :
    Effective .dev (ascii "1\n") { loadedShared with buttonLine := 1 }
      (invertWrite .dev { loadedShared with buttonLine := 1 } ⟨ascii "sh", 7⟩ (ascii "1\n")) := by
  have ran : run step (System.initial ⟨500, false⟩ 0 ⟨ascii "insmod", 100⟩ 0) [.line 1] =
      some ⟨{ loadedShared with buttonLine := 1 }, []⟩ := rfl
  have takes : Takes .dev { loadedShared with buttonLine := 1 } := rfl
  obtain ⟨st, _, exactly⟩ := invert_effective_iff ran takes ⟨ascii "sh", 7⟩ (ascii "1\n")
  exact exactly.mpr (Or.inl (by decide))

end GpioCtrl
