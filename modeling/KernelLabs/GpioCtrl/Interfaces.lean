import KernelLabs.GpioCtrl.Driver

/-!
# The two control interfaces

A value written to the attribute `invert` or `poll_ms` reaches the number parser
as it is; one written to `/dev/gpioctrl` behind its command word has lost its
trailing white space.  `kstrtobool` looks at two characters and cannot tell;
`kstrtouint` forgives one newline and nothing else.
-/

set_option autoImplicit false

namespace GpioCtrl

open Kernel

/-- A call with the driver to itself, for at most `fuel` steps. -/
def alone : Nat → Shared → Call → Shared × Call
  | 0, shared, call => (shared, call)
  | fuel + 1, shared, call =>
    match callStep 0 () shared call with
    | none => (shared, call)
    | some (next, moved) => alone fuel next moved

def serve (shared : Shared) (call : Call) : Shared × Call := alone 3 shared call

/-- What the caller gets: an error, or all its bytes taken; `none` when the call
crashed. -/
def Call.result (call : Call) : Option (Except Int Unit) :=
  match call.pc with
  | .done ret => some (if ret < 0 then .error ret else .ok ())
  | _ => none

def Attr.command : Attr → Bytes
  | .invert => ascii "invert="
  | .pollMs => ascii "poll_ms="

def sysfsWrite (shared : Shared) (caller : Identity) (attr : Attr) (v : Bytes) : Shared × Call :=
  serve shared ⟨.sysfs, caller, v.length, enter (parseStore attr v)⟩

def devWrite (shared : Shared) (caller : Identity) (attr : Attr) (v : Bytes) : Shared × Call :=
  serve shared ⟨.dev, caller, (attr.command ++ v).length, enter (parseWrite (attr.command ++ v) 0)⟩

/-- Both writes succeed or both fail alike, and both leave the same driver. -/
def InterfacesAgree (shared : Shared) (caller : Identity) (attr : Attr) (v : Bytes) : Prop :=
  (sysfsWrite shared caller attr v).1 = (devWrite shared caller attr v).1 ∧
    (sysfsWrite shared caller attr v).2.result = (devWrite shared caller attr v).2.result

/-! ## A call to its end -/

theorem alone_ended {shared : Shared} {call : Call} (ended : callStep 0 () shared call = none)
    (fuel : Nat) : alone fuel shared call = (shared, call) := by
  cases fuel with
  | zero => rfl
  | succ fuel => rw [alone, ended]

def CallPc.stepsLeft : CallPc → Nat
  | .invertStore _ => 3
  | .pollStore _ | .sampleRead _ => 2
  | .pollArm _ | .sampleCommit _ _ | .resetStats => 1
  | .done _ | .crashed => 0

theorem callStep_stepsLeft {i : Nat} {shared next : Shared} {call moved : Call}
    (stepped : callStep i () shared call = some (next, moved)) :
    moved.pc.stepsLeft < call.pc.stepsLeft := by
  obtain ⟨origin, caller, count, pc⟩ := call
  cases pc with
  | pollStore value | invertStore value | sampleRead report | sampleCommit report value
  | resetStats =>
      simp only [callStep] at stepped
      split at stepped <;> cases stepped <;> simp [CallPc.stepsLeft]
  | pollArm value =>
      cases stepped
      exact Nat.zero_lt_one
  | done ret | crashed => contradiction

theorem alone_ends {fuel : Nat} {shared : Shared} {call : Call}
    (enough : call.pc.stepsLeft ≤ fuel) :
    callStep 0 () (alone fuel shared call).1 (alone fuel shared call).2 = none := by
  induction fuel generalizing shared call with
  | zero =>
      cases stepped : callStep 0 () shared call with
      | none => exact stepped
      | some moved =>
          have := callStep_stepsLeft stepped
          omega
  | succ fuel ih =>
      cases stepped : callStep 0 () shared call with
      | none =>
          rw [alone, stepped]
          exact stepped
      | some moved =>
          have := callStep_stepsLeft stepped
          rw [alone, stepped]
          exact ih (by omega)

/-- Three steps are enough for every command. -/
theorem serve_ends (shared : Shared) (origin : Origin) (caller : Identity) (count : Nat)
    (parsed : Except Errno Command) :
    callStep 0 () (serve shared ⟨origin, caller, count, enter parsed⟩).1
      (serve shared ⟨origin, caller, count, enter parsed⟩).2 = none := by
  refine alone_ends ?_
  cases parsed with
  | error e => exact Nat.zero_le 3
  | ok command => cases command <;> simp [enter, CallPc.stepsLeft]

/-- Two calls that differ in where they came from and in their byte counts. -/
def Alike (a b : Call) : Prop :=
  a.caller = b.caller ∧ (a.pc = b.pc ∨ a.pc = .done a.count ∧ b.pc = .done b.count)

theorem callStep_alike {a b : Call} (alike : Alike a b) (shared : Shared) :
    (callStep 0 () shared a = none ∧ callStep 0 () shared b = none) ∨
      ∃ next movedA movedB, callStep 0 () shared a = some (next, movedA) ∧
        callStep 0 () shared b = some (next, movedB) ∧ Alike movedA movedB := by
  obtain ⟨origin, caller, count, pc⟩ := a
  obtain ⟨otherOrigin, otherCaller, otherCount, otherPc⟩ := b
  obtain ⟨sameCaller, same | ⟨done, otherDone⟩⟩ := alike
  · dsimp only at sameCaller same
    subst sameCaller same
    cases pc with
    | pollStore value | invertStore value | sampleCommit report value | resetStats =>
        simp only [callStep]
        split
        · exact Or.inr ⟨_, _, _, rfl, rfl, rfl, Or.inl rfl⟩
        · refine Or.inr ⟨_, _, _, rfl, rfl, rfl, ?_⟩
          first | exact Or.inl rfl | exact Or.inr ⟨rfl, rfl⟩
    | pollArm value => exact Or.inr ⟨_, _, _, rfl, rfl, rfl, Or.inr ⟨rfl, rfl⟩⟩
    | sampleRead report =>
        simp only [callStep]
        split
        · cases report with
          | true => exact Or.inr ⟨_, _, _, rfl, rfl, rfl, Or.inl rfl⟩
          | false => exact Or.inr ⟨_, _, _, rfl, rfl, rfl, Or.inr ⟨rfl, rfl⟩⟩
        · exact Or.inr ⟨_, _, _, rfl, rfl, rfl, Or.inl rfl⟩
    | done ret | crashed => exact Or.inl ⟨rfl, rfl⟩
  · dsimp only at done otherDone
    subst done otherDone
    exact Or.inl ⟨rfl, rfl⟩

theorem alone_alike {a b : Call} (alike : Alike a b) (fuel : Nat) (shared : Shared) :
    (alone fuel shared a).1 = (alone fuel shared b).1 ∧
      Alike (alone fuel shared a).2 (alone fuel shared b).2 := by
  induction fuel generalizing shared a b with
  | zero => exact ⟨rfl, alike⟩
  | succ fuel ih =>
      rcases callStep_alike alike shared with ⟨endA, endB⟩ | ⟨next, _, _, stepA, stepB, moved⟩
      · rw [alone, alone, endA, endB]
        exact ⟨rfl, alike⟩
      · rw [alone, alone, stepA, stepB]
        exact ih moved next

theorem result_alike {a b : Call} (alike : Alike a b) : a.result = b.result := by
  rcases alike.2 with same | ⟨doneA, doneB⟩
  · rw [Call.result, Call.result, same]
  · rw [Call.result, Call.result, doneA, doneB]
    dsimp only
    rw [if_neg (Int.not_lt.mpr (Int.natCast_nonneg _)),
      if_neg (Int.not_lt.mpr (Int.natCast_nonneg _))]

/-! ## The text behind the command word -/

theorem cstr_of_not_mem {buf : Bytes} (noNul : 0 ∉ buf) : cstr buf = buf := by
  refine List.takeWhile_eq_self_iff.mpr fun c member => ?_
  simp only [bne_iff_ne]
  rintro rfl
  exact noNul member

/-- What has no white space at its ends keeps `strim` from going further. -/
theorem strim_append {pre : Bytes} (front : pre.dropWhile isspace = pre)
    (back : pre.reverse.dropWhile isspace = pre.reverse) (nonempty : pre ≠ []) (v : Bytes) :
    strim (pre ++ v) = pre ++ v.rdropWhile isspace := by
  have isEmpty : pre.isEmpty = false := by simpa using nonempty
  have trimmed : (pre ++ v).rdropWhile isspace = pre ++ v.rdropWhile isspace := by
    rw [List.rdropWhile, List.rdropWhile, List.reverse_append, List.dropWhile_append]
    split
    · rename_i blank
      rw [back, List.reverse_reverse, List.isEmpty_iff.mp blank, List.reverse_nil,
        List.append_nil]
    · rw [List.reverse_append, List.reverse_reverse]
  rw [strim, trimmed, List.dropWhile_append, front, isEmpty, if_neg Bool.false_ne_true]

theorem parseWrite_command (attr : Attr) {v : Bytes} (noNul : 0 ∉ v)
    (fits : (attr.command ++ v).length ≤ 63) :
    parseWrite (attr.command ++ v) 0 = parseStore attr (v.rdropWhile isspace) := by
  have bounds : ¬ ((attr.command ++ v).length = 0 ∨ 64 ≤ (attr.command ++ v).length) := by
    rintro (empty | long)
    · have blank := (List.append_eq_nil_iff.mp (List.eq_nil_of_length_eq_zero empty)).1
      cases attr <;> contradiction
    · omega
  have clean : 0 ∉ attr.command ++ v := by
    rw [List.mem_append, not_or]
    refine ⟨?_, noNul⟩
    cases attr <;> decide
  have trimmed : 0 ∉ v.rdropWhile isspace := fun member =>
    noNul ((List.rdropWhile_prefix isspace v).subset member)
  have text : strim (attr.command ++ v) = attr.command ++ v.rdropWhile isspace := by
    refine strim_append ?_ ?_ ?_ v <;> cases attr <;> decide
  unfold parseWrite
  rw [if_neg bounds, if_neg (not_not.mpr rfl)]
  dsimp only
  rw [cstr_of_not_mem clean, text]
  cases attr with
  | invert =>
      rw [parseStore, cstr_of_not_mem trimmed]
      rfl
  | pollMs =>
      rw [parseStore, cstr_of_not_mem trimmed]
      rfl

/-! ## Agreement -/

theorem serve_alike {a b : Call} (alike : Alike a b) (shared : Shared) :
    (serve shared a).1 = (serve shared b).1 ∧
      (serve shared a).2.result = (serve shared b).2.result :=
  have same := alone_alike alike 3 shared
  ⟨same.1, result_alike same.2⟩

/-- The white space that `poll_ms` forgives, or forgives in a text that is no
number anyway. -/
def Forgiven (v : Bytes) : Prop :=
  v.rtakeWhile isspace = [] ∨ v.rtakeWhile isspace = [10] ∨
    ∃ e, kstrtoull 0 (v.rdropWhile isspace) = .error e

theorem parsePollMs_of_forgiven {v : Bytes} (forgiven : Forgiven v) :
    parsePollMs (v.rdropWhile isspace) = parsePollMs v := by
  have same : kstrtoull 0 v = kstrtoull 0 (v.rdropWhile isspace) := by
    rw [kstrtoull_eq_trimmed v]
    cases number : kstrtoull 0 (v.rdropWhile isspace) with
    | error e => rfl
    | ok value =>
        rcases forgiven with none | newline | ⟨e, failed⟩
        · exact if_pos (Or.inl none)
        · exact if_pos (Or.inr newline)
        · rw [number] at failed
          contradiction
  rw [parsePollMs, parsePollMs, kstrtouint, kstrtouint, same]

/-- Elsewhere the attribute refuses a text that the device takes for a number. -/
theorem parsePollMs_of_not_forgiven {v : Bytes} (other : ¬ Forgiven v) :
    parsePollMs v = .error .einval ∧ parsePollMs (v.rdropWhile isspace) ≠ .error .einval := by
  unfold Forgiven at other
  rw [not_or, not_or] at other
  obtain ⟨trailing, notNewline, number⟩ := other
  cases parsed : kstrtoull 0 (v.rdropWhile isspace) with
  | error e => exact absurd ⟨e, parsed⟩ number
  | ok value =>
      have refused : kstrtoull 0 v = .error .einval := by
        rw [kstrtoull_eq_trimmed v, parsed]
        exact if_neg (not_or.mpr ⟨trailing, notNewline⟩)
      refine ⟨by rw [parsePollMs, kstrtouint, refused], ?_⟩
      rw [parsePollMs, kstrtouint, parsed]
      dsimp only
      split
      · rename_i failed
        split at failed <;> cases failed
        exact fun same => Errno.noConfusion (Except.error.inj same)
      · split
        · exact fun same => Errno.noConfusion (Except.error.inj same)
        · intro same
          cases same

theorem result_of_einval {shared : Shared} {origin : Origin} {caller : Identity} {count : Nat} :
    (serve shared ⟨origin, caller, count, enter (.error .einval)⟩).2.result =
      some (.error Errno.einval.code) := rfl

theorem result_of_parsePollMs {shared : Shared} {origin : Origin} {caller : Identity} {count : Nat}
    {text : Bytes} (other : parsePollMs text ≠ .error .einval) :
    (serve shared ⟨origin, caller, count, enter (parsePollMs text)⟩).2.result ≠
      some (.error Errno.einval.code) := by
  cases parsed : parsePollMs text with
  | error e =>
      have negative : (serve shared ⟨origin, caller, count, enter (.error e)⟩).2.result =
          some (.error e.code) := by
        rw [serve, alone_ended rfl, Call.result]
        exact congrArg some (if_pos e.code_neg)
      rw [negative]
      intro same
      have code := Except.error.inj (Option.some.inj same)
      rw [parsed] at other
      cases e <;> first | exact other rfl | exact absurd code (by decide)
  | ok command =>
      obtain ⟨value, rfl, _⟩ := parsePollMs_range parsed
      cases held : shared.state with
      | none => simp [serve, alone, enter, callStep, held, Call.result]
      | some st =>
          simp [serve, alone, enter, callStep, held, Call.result,
            Int.not_lt.mpr (Int.natCast_nonneg count)]

/-- **The two interfaces.** For every driver state, GPIO line and text without
NUL that fits a command: `invert` behaves alike through both; `poll_ms` does so
exactly when the white space at the end of the text is nothing or one newline,
or what stands before it is no number. -/
theorem interfaces_agree_iff (shared : Shared) (caller : Identity) (attr : Attr) (v : Bytes)
    (noNul : 0 ∉ v) (fits : (attr.command ++ v).length ≤ 63) :
    InterfacesAgree shared caller attr v ↔ attr = .invert ∨ Forgiven v := by
  have parsed := parseWrite_command attr noNul fits
  have agree (same : parseWrite (attr.command ++ v) 0 = parseStore attr v) :
      InterfacesAgree shared caller attr v := by
    have alike : Alike ⟨.sysfs, caller, v.length, enter (parseStore attr v)⟩
        ⟨.dev, caller, (attr.command ++ v).length, enter (parseStore attr v)⟩ :=
      ⟨rfl, Or.inl rfl⟩
    unfold InterfacesAgree sysfsWrite devWrite
    rw [same]
    exact serve_alike alike shared
  have trimmed : cstr (v.rdropWhile isspace) = v.rdropWhile isspace :=
    cstr_of_not_mem fun member => noNul ((List.rdropWhile_prefix isspace v).subset member)
  cases attr with
  | invert =>
      refine ⟨fun _ => Or.inl rfl, fun _ => agree ?_⟩
      rw [parsed, parseStore, parseStore, trimmed, cstr_of_not_mem noNul, parseInvert, parseInvert,
        ← kstrtobool_eq_trimmed]
  | pollMs =>
      rw [parseStore, trimmed] at parsed
      constructor
      · intro same
        right
        by_contra other
        obtain ⟨refused, accepted⟩ := parsePollMs_of_not_forgiven other
        have results := same.2
        rw [sysfsWrite, devWrite, parsed, parseStore, cstr_of_not_mem noNul, refused,
          result_of_einval] at results
        exact result_of_parsePollMs accepted results.symm
      · rintro (never | forgiven)
        · exact Attr.noConfusion never
        · refine agree ?_
          rw [parsed, parseStore, cstr_of_not_mem noNul, parsePollMs_of_forgiven forgiven]

/-- The driver as init leaves it, and a shell. -/
def loadedShared : Shared := (System.initial ⟨500, false⟩ 0 ⟨ascii "insmod", 100⟩ 0).shared

theorem interfaces_agree_on_newline :
    InterfacesAgree loadedShared ⟨ascii "sh", 7⟩ .pollMs (ascii "100\n") :=
  (interfaces_agree_iff loadedShared ⟨ascii "sh", 7⟩ .pollMs (ascii "100\n") (by decide)
    (by decide)).mpr (Or.inr (Or.inr (Or.inl (by decide))))

/-- A space behind the number: the attribute says -22, the device sets the interval. -/
theorem trailing_space_divides :
    (sysfsWrite loadedShared ⟨ascii "sh", 7⟩ .pollMs (ascii "100 ")).2.pc = .done (-22) ∧
      (devWrite loadedShared ⟨ascii "sh", 7⟩ .pollMs (ascii "100 ")).2.pc = .done 12 ∧
      ¬ InterfacesAgree loadedShared ⟨ascii "sh", 7⟩ .pollMs (ascii "100 ") := by
  refine ⟨by decide +kernel, by decide +kernel, fun same => ?_⟩
  have differ : (sysfsWrite loadedShared ⟨ascii "sh", 7⟩ .pollMs (ascii "100 ")).1 ≠
      (devWrite loadedShared ⟨ascii "sh", 7⟩ .pollMs (ascii "100 ")).1 := by decide +kernel
  exact differ same.1

end GpioCtrl
