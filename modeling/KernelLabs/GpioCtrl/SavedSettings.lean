import KernelLabs.GpioCtrl.Commands
import KernelLabs.GpioCtrl.PollRange
import KernelLabs.Kernel.Decimal

/-!
# Settings read from one driver and written to another

`invert_show` and `poll_ms_show` print a number and a newline.  The texts may be
written back through the attributes or behind a command word to `/dev/gpioctrl`;
the interval that the load parameter has put outside of the range is shown, and
refused.
-/

set_option autoImplicit false

namespace GpioCtrl

open Kernel LabelledMachine PartyPool

/-- What `invert_show` and `poll_ms_show` return. -/
def GpioctrlState.shown (st : GpioctrlState) : Attr → Bytes
  | .invert => decimal st.invert.toNat ++ [10]
  | .pollMs => decimal st.pollMs.toNat ++ [10]

/-- The command that sets an attribute to its value in `saved`. -/
def GpioctrlState.command (saved : GpioctrlState) : Attr → Command
  | .invert => .invert saved.invert
  | .pollMs => .pollMs saved.pollMs

/-- The value is one that both writers take. -/
def GpioctrlState.Admitted (saved : GpioctrlState) : Attr → Prop
  | .invert => True
  | .pollMs => InPollRange saved.pollMs

instance (saved : GpioctrlState) : ∀ attr, Decidable (saved.Admitted attr)
  | .invert => isTrue trivial
  | .pollMs => inferInstanceAs (Decidable (InPollRange saved.pollMs))

def writeText (origin : Origin) (attr : Attr) (text : Bytes) : Bytes :=
  match origin with
  | .sysfs => text
  | .dev => attr.command ++ text

/-- A write of what `saved` shows, through one of the interfaces. -/
def writeShown (saved : GpioctrlState) (caller : Identity) (origin : Origin) (attr : Attr)
    (shared : Shared) : Shared × Call :=
  match origin with
  | .sysfs => sysfsWrite shared caller attr (saved.shown attr)
  | .dev => devWrite shared caller attr (saved.shown attr)

/-- Any sequence of them; each call's end is recorded. -/
def writeBack (saved : GpioctrlState) (caller : Identity) :
    List (Origin × Attr) → Shared → Shared × List CallPc
  | [], shared => (shared, [])
  | (origin, attr) :: rest, shared =>
    let (next, call) := writeShown saved caller origin attr shared
    let (last, ends) := writeBack saved caller rest next
    (last, call.pc :: ends)

/-! ## The texts -/

theorem decimal_noNul (n : Nat) : 0 ∉ decimal n ++ [10] := by
  intro member
  rcases List.mem_append.mp member with digit | newline
  · exact absurd (mem_decimal digit).1 (by decide)
  · exact absurd newline (by decide)

theorem shown_noNul (saved : GpioctrlState) (attr : Attr) : 0 ∉ saved.shown attr := by
  cases attr <;> exact decimal_noNul _

/-- The attribute reads its own text. -/
theorem parseStore_shown (saved : GpioctrlState) (attr : Attr) :
    parseStore attr (saved.shown attr) =
      if saved.Admitted attr then .ok (saved.command attr) else .error .erange := by
  have text := cstr_of_not_mem (shown_noNul saved attr)
  cases attr with
  | invert =>
      rw [parseStore, text, parseInvert, GpioctrlState.shown, kstrtobool_decimal]
      rfl
  | pollMs =>
      rw [parseStore, text, parsePollMs, GpioctrlState.shown, kstrtouint_decimal]
      dsimp only
      by_cases inside : InPollRange saved.pollMs
      · have taken : ¬ (saved.pollMs < minPollMs ∨ maxPollMs < saved.pollMs) := by
          rw [not_or, UInt32.not_lt, UInt32.not_lt]
          exact inside
        rw [if_neg taken]
        exact (if_pos inside).symm
      · have refused : saved.pollMs < minPollMs ∨ maxPollMs < saved.pollMs := by
          by_contra neither
          rw [not_or, UInt32.not_lt, UInt32.not_lt] at neither
          exact inside neither
        rw [if_pos refused]
        exact (if_neg inside).symm

/-- The newline at the end is one that both interfaces forgive. -/
theorem shown_forgiven (n : Nat) : Forgiven (decimal n ++ [10]) := by
  have digits : (decimal n).rtakeWhile isspace = [] := by
    rw [List.rtakeWhile_eq_nil_iff]
    intro nonempty space
    have last := mem_decimal (List.getLast_mem nonempty)
    have white := mem_of_isspace space
    simp only [List.mem_cons, List.not_mem_nil, or_false] at white
    rcases white with same | same | same | same | same | same | same <;>
      rw [same] at last <;> revert last <;> decide
  have newline : isspace 10 = true := by decide
  refine Or.inr (Or.inl ?_)
  rw [List.rtakeWhile_concat_pos _ _ _ newline, digits]
  rfl

theorem parseStore_trimmed (saved : GpioctrlState) (attr : Attr) :
    parseStore attr ((saved.shown attr).rdropWhile isspace) =
      parseStore attr (saved.shown attr) := by
  have trimmed : 0 ∉ (saved.shown attr).rdropWhile isspace := fun member =>
    shown_noNul saved attr ((List.rdropWhile_prefix isspace _).subset member)
  rw [parseStore.eq_def, parseStore.eq_def]
  cases attr with
  | invert =>
      dsimp only
      rw [cstr_of_not_mem trimmed, cstr_of_not_mem (shown_noNul saved .invert), parseInvert,
        parseInvert, ← kstrtobool_eq_trimmed]
  | pollMs =>
      dsimp only
      rw [cstr_of_not_mem trimmed, cstr_of_not_mem (shown_noNul saved .pollMs)]
      exact parsePollMs_of_forgiven (shown_forgiven _)

/-- Behind its command word a text shown fits the 63 bytes of a command. -/
theorem shown_fits (saved : GpioctrlState) (attr : Attr) :
    (attr.command ++ saved.shown attr).length ≤ 63 := by
  have digits : (saved.shown attr).length ≤ 11 := by
    cases attr with
    | invert =>
        have digit : saved.invert.toNat < 10 ^ 10 := by cases saved.invert <;> decide
        have short := decimal_length_le (by decide) digit
        rw [GpioctrlState.shown, List.length_append, List.length_singleton]
        omega
    | pollMs =>
        have digits : saved.pollMs.toNat < 10 ^ 10 := by
          have bound := saved.pollMs.toNat_lt
          omega
        have short := decimal_length_le (by decide) digits
        rw [GpioctrlState.shown, List.length_append, List.length_singleton]
        omega
  have word : attr.command.length ≤ 8 := by cases attr <;> decide
  rw [List.length_append]
  omega

/-! ## One write -/

/-- What the two writers make of a text shown is the same. -/
theorem writeShown_call (saved : GpioctrlState) (caller : Identity) (origin : Origin) (attr : Attr)
    (shared : Shared) :
    writeShown saved caller origin attr shared =
      serve shared ⟨origin, caller, (writeText origin attr (saved.shown attr)).length,
        enter (if saved.Admitted attr then .ok (saved.command attr) else .error .erange)⟩ := by
  cases origin with
  | sysfs =>
      rw [writeShown, sysfsWrite, parseStore_shown]
      rfl
  | dev =>
      have parsed := parseWrite_command attr (shown_noNul saved attr) (shown_fits saved attr)
      rw [writeShown, devWrite, parsed, parseStore_trimmed, parseStore_shown]
      rfl

/-- How the call ends. -/
def GpioctrlState.taken (saved : GpioctrlState) (write : Origin × Attr) : CallPc :=
  if saved.Admitted write.2 then .done (writeText write.1 write.2 (saved.shown write.2)).length
  else .done Errno.erange.code

theorem writeShown_cases (saved : GpioctrlState) (caller : Identity) (origin : Origin) (attr : Attr)
    {shared : Shared} {st : GpioctrlState} (held : shared.state = some st) :
    (writeShown saved caller origin attr shared).2.pc = saved.taken (origin, attr) ∧
      (writeShown saved caller origin attr shared).1 =
        if saved.Admitted attr then performed shared st caller (saved.command attr)
        else shared := by
  rw [writeShown_call, GpioctrlState.taken]
  by_cases admitted : saved.Admitted attr
  · simp only [if_pos admitted]
    rw [serve_command held]
    refine ⟨?_, rfl⟩
    have never : ¬ (saved.command attr = .sync ∧ shared.buttonLine < 0) := by
      rintro ⟨same, _⟩
      cases attr <;> exact Command.noConfusion same
    rw [returned, if_neg never]
  · simp only [if_neg admitted]
    rw [serve_error]
    exact ⟨rfl, rfl⟩

/-- What the sequence leaves of one attribute: the saved value once it has been
written and was taken. -/
def GpioctrlState.Written (saved : GpioctrlState) (order : List (Origin × Attr)) (attr : Attr) :
    Prop :=
  saved.Admitted attr ∧ ∃ write ∈ order, write.2 = attr

instance (saved : GpioctrlState) (order : List (Origin × Attr)) (attr : Attr) :
    Decidable (saved.Written order attr) :=
  inferInstanceAs (Decidable (saved.Admitted attr ∧ ∃ write ∈ order, write.2 = attr))

theorem written_cons (saved : GpioctrlState) (origin : Origin) (first attr : Attr)
    (rest : List (Origin × Attr)) :
    saved.Written ((origin, first) :: rest) attr ↔
      (saved.Admitted attr ∧ first = attr) ∨ saved.Written rest attr := by
  unfold GpioctrlState.Written
  constructor
  · rintro ⟨admitted, write, member, same⟩
    cases member with
    | head => exact Or.inl ⟨admitted, same⟩
    | tail _ later => exact Or.inr ⟨admitted, write, later, same⟩
  · rintro (⟨admitted, same⟩ | ⟨admitted, write, later, same⟩)
    · exact ⟨admitted, (origin, first), List.mem_cons_self, same⟩
    · exact ⟨admitted, write, List.mem_cons_of_mem _ later, same⟩

theorem written_nil (saved : GpioctrlState) (attr : Attr) : ¬ saved.Written [] attr := by
  rintro ⟨_, _, member, _⟩
  exact absurd member List.not_mem_nil

/-! ## The sequence -/

/-- The settings of a state. -/
def GpioctrlState.settings (st : GpioctrlState) : Bool × UInt32 := (st.invert, st.pollMs)

/-- What a sequence leaves of the target's settings. -/
def GpioctrlState.mergedInto (saved : GpioctrlState) (order : List (Origin × Attr))
    (settings : Bool × UInt32) : Bool × UInt32 :=
  (if saved.Written order .invert then saved.invert else settings.1,
    if saved.Written order .pollMs then saved.pollMs else settings.2)

theorem mergedInto_nil (saved : GpioctrlState) (settings : Bool × UInt32) :
    saved.mergedInto [] settings = settings := by
  rw [GpioctrlState.mergedInto, if_neg (written_nil saved _), if_neg (written_nil saved _)]

theorem mergedInto_cons (saved : GpioctrlState) (write : Origin × Attr)
    (rest : List (Origin × Attr)) (settings : Bool × UInt32) :
    saved.mergedInto (write :: rest) settings =
      saved.mergedInto rest (saved.mergedInto [write] settings) := by
  obtain ⟨origin, attr⟩ := write
  have first (other : Attr) : saved.Written [(origin, attr)] other ↔
      saved.Admitted other ∧ attr = other := by
    rw [written_cons, or_iff_left (written_nil saved other)]
  unfold GpioctrlState.mergedInto
  simp only [first, written_cons saved origin attr _ rest]
  refine Prod.ext ?_ ?_
  · by_cases later : saved.Written rest .invert <;> simp [later]
  · by_cases later : saved.Written rest .pollMs <;> simp [later]

/-- One write moves the settings as the sequence of it alone. -/
theorem writeShown_settings (saved : GpioctrlState) (caller : Identity) (write : Origin × Attr)
    {shared : Shared} {st : GpioctrlState} (held : shared.state = some st) :
    ∃ after, (writeShown saved caller write.1 write.2 shared).1.state = some after ∧
      after.settings = saved.mergedInto [write] st.settings := by
  obtain ⟨origin, attr⟩ := write
  have first (other : Attr) : saved.Written [(origin, attr)] other ↔
      saved.Admitted other ∧ attr = other := by
    rw [written_cons, or_iff_left (written_nil saved other)]
  rw [(writeShown_cases saved caller origin attr held).2]
  by_cases admitted : saved.Admitted attr
  · rw [if_pos admitted]
    obtain ⟨after, moved, changes⟩ := performed_changes_only shared st caller (saved.command attr)
    refine ⟨after, moved, Prod.ext ?_ ?_⟩
    · refine changes.invert.trans ?_
      cases attr <;> simp [GpioctrlState.mergedInto, first, admitted, GpioctrlState.command,
        GpioctrlState.settings]
    · refine changes.pollMs.trans ?_
      cases attr <;> simp [GpioctrlState.mergedInto, first, admitted, GpioctrlState.command,
        GpioctrlState.settings]
  · rw [if_neg admitted]
    have untouched (other : Attr) : ¬ (saved.Admitted other ∧ attr = other) := by
      rintro ⟨taken, rfl⟩
      exact admitted taken
    refine ⟨st, held, ?_⟩
    rw [GpioctrlState.mergedInto, if_neg ((first _).not.mpr (untouched _)),
      if_neg ((first _).not.mpr (untouched _))]

theorem writeBack_settings (saved : GpioctrlState) (caller : Identity)
    (order : List (Origin × Attr)) {shared : Shared} {st : GpioctrlState}
    (held : shared.state = some st) :
    (writeBack saved caller order shared).2 = order.map saved.taken ∧
      ∃ after, (writeBack saved caller order shared).1.state = some after ∧
        after.settings = saved.mergedInto order st.settings := by
  induction order generalizing shared st with
  | nil => exact ⟨rfl, st, held, (mergedInto_nil saved st.settings).symm⟩
  | cons write rest ih =>
      obtain ⟨middle, moved, settings⟩ := writeShown_settings saved caller write held
      obtain ⟨ends, after, last, final⟩ := ih moved
      refine ⟨?_, after, last, ?_⟩
      · rw [writeBack, List.map_cons, ← ends]
        exact congrArg (· :: _) (writeShown_cases saved caller write.1 write.2 held).1
      · rw [final, settings, ← mergedInto_cons]

/-- **Saved settings.** The texts that `invert_show` and `poll_ms_show` return at
some moment of a run are written to any loaded driver, through the attributes or
behind the command words to the device, in any sequence: every write is taken
whole, except those of an interval outside of the range, which return `-ERANGE`;
afterwards each setting taken is the saved one and each other is the target's.  A
driver loaded with an interval in the range never shows one that is refused. -/
theorem settings_written_back {params : Params} {startNs : UInt64} {init : Identity}
    {buttonValue : Int} {acts : List Act} {source : System} {saved : GpioctrlState}
    (ran : run step (System.initial params startNs init buttonValue) acts = some source)
    (shows : source.shared.state = some saved)
    {shared : Shared} {st : GpioctrlState} (held : shared.state = some st)
    (caller : Identity) (order : List (Origin × Attr)) :
    (writeBack saved caller order shared).2 = order.map saved.taken ∧
      (∃ after, (writeBack saved caller order shared).1.state = some after ∧
        after.settings = saved.mergedInto order st.settings) ∧
      (InPollRange params.initialPollMs → saved.Admitted .pollMs) := by
  obtain ⟨ends, after, last, settings⟩ := writeBack_settings saved caller order held
  refine ⟨ends, ⟨after, last, settings⟩, fun inRange => ?_⟩
  have kept := invariant_run step_rangesKept
    (rangesKept_initial inRange startNs init buttonValue) ran
  exact kept.stored saved shows

/-- A driver loaded with `initial_poll_ms=5` shows an interval that the other one
refuses through both interfaces; the inversion is taken over. -/
theorem settings_written_back_refused :
    ∃ saved, (System.initial ⟨5, true⟩ 0 ⟨ascii "insmod", 100⟩ 0).shared.state = some saved ∧
      (writeBack saved ⟨ascii "sh", 7⟩ [(.dev, .pollMs), (.sysfs, .invert), (.sysfs, .pollMs)]
        loadedShared).2 = [.done (-34), .done 2, .done (-34)] ∧
      ∃ after, (writeBack saved ⟨ascii "sh", 7⟩
          [(.dev, .pollMs), (.sysfs, .invert), (.sysfs, .pollMs)] loadedShared).1.state =
            some after ∧
        after.settings = (true, 500) := by
  have written := settings_written_back
    (rfl : run step (System.initial ⟨5, true⟩ 0 ⟨ascii "insmod", 100⟩ 0) [] = some _) rfl
    (rfl : loadedShared.state = some _) ⟨ascii "sh", 7⟩
    [(.dev, .pollMs), (.sysfs, .invert), (.sysfs, .pollMs)]
  refine ⟨_, rfl, written.1.trans (by decide +kernel), ?_⟩
  obtain ⟨after, last, settings⟩ := written.2.1
  exact ⟨after, last, settings.trans (by decide +kernel)⟩

end GpioCtrl
