import KernelLabs.Kernel.Text
import KernelLabs.ModuleParams.Device

/-!
# The list of primes printed at load

`module_params_init` joins the entries supplied on the command line in
`primes_buf`, on its stack.  Without any the loop does not run, and what is then
printed with `%s` is what was on the stack.
-/

set_option autoImplicit false

namespace ModuleParams

open Kernel CountedLoop BoundedText

abbrev primesBufSize : Nat := 32

/-- The body of the loop: the entry, and a comma when another one follows. -/
def appendPrime (params : Params) (state : Bytes × Nat) (i : Nat) : Option (Bytes × Nat) :=
  match params.primes[i]? with
  | none => none
  | some prime =>
    (scnprintfAt state.1 state.2 (primesBufSize - state.2)
        (signedDecimal prime ++ if i + 1 < params.primesCount then [44] else [])).map
      fun (buf, returned) => (buf, state.2 + returned)

/-- `primes_buf` and `primes_len` after the loop; `stack` is what `primes_buf`
held before. -/
def formatPrimes (params : Params) (stack : Bytes) : Option (Bytes × Nat) :=
  forLoop (appendPrime params) params.primesCount (stack, 0)

/-! ## The joined list -/

def commaJoined : List Int → Bytes
  | [] => []
  | [entry] => signedDecimal entry
  | entry :: rest => signedDecimal entry ++ 44 :: commaJoined rest

/-- The entries that were supplied. -/
def Params.supplied (params : Params) : List Int := params.primes.toList.take params.primesCount

theorem commaJoined_concat (entries : List Int) (last : Int) :
    commaJoined (entries ++ [last]) =
      commaJoined entries ++ (if entries = [] then [] else [44]) ++ signedDecimal last := by
  induction entries with
  | nil => rfl
  | cons entry rest ih =>
      cases rest with
      | nil => simp [commaJoined]
      | cons next rest =>
          simp only [List.cons_append] at ih
          simp only [List.cons_append, commaJoined, ih]
          simp

theorem signedDecimal_nonzero (n : Int) : 0 ∉ signedDecimal n := by
  intro member
  have zero : 0 ∈ decimal n.natAbs := by
    unfold signedDecimal at member
    split at member
    · rcases List.mem_cons.mp member with never | member
      · cases never
      · exact member
    · exact member
  exact absurd (mem_decimal zero).1 (by decide)

theorem commaJoined_nonzero (entries : List Int) : 0 ∉ commaJoined entries := by
  induction entries with
  | nil => exact List.not_mem_nil
  | cons entry rest ih =>
      have own := signedDecimal_nonzero entry
      cases rest with
      | nil => exact own
      | cons next rest =>
          rw [commaJoined, List.mem_append, List.mem_cons]
          · rintro (here | comma | later)
            · exact own here
            · cases comma
            · exact ih later
          · exact List.cons_ne_nil next rest

/-! ## The loop -/

/-- The text after `i` passes. -/
def Params.joinedSoFar (params : Params) (i : Nat) : Bytes :=
  commaJoined (params.primes.toList.take i) ++
    if 0 < i ∧ i < params.primesCount then [44] else []

theorem joinedSoFar_succ (params : Params) {i : Nat} {prime : Int}
    (here : params.primes[i]? = some prime) (inside : i < params.primesCount) :
    params.joinedSoFar i ++
        (signedDecimal prime ++ if i + 1 < params.primesCount then [44] else []) =
      params.joinedSoFar (i + 1) := by
  have entry : params.primes.toList[i]? = some prime := by rw [Vector.getElem?_toList, here]
  have bound : i < params.primes.toList.length := (List.getElem?_eq_some_iff.mp entry).1
  have next : params.primes.toList.take (i + 1) = params.primes.toList.take i ++ [prime] := by
    rw [List.take_add_one, entry]
    rfl
  have empty : params.primes.toList.take i = [] ↔ i = 0 := by
    rw [← List.length_eq_zero_iff, List.length_take]
    omega
  rw [Params.joinedSoFar, Params.joinedSoFar, next, commaJoined_concat]
  simp only [empty, inside, and_true, Nat.succ_pos, true_and, List.append_assoc]
  rcases Nat.eq_zero_or_pos i with first | later
  · simp [first]
  · simp [later, Nat.pos_iff_ne_zero.mp later]

/-- What the buffer holds after `i` passes. -/
structure JoinedIn (params : Params) (i : Nat) (state : Bytes × Nat) : Prop where
  holds : Holds primesBufSize (params.joinedSoFar i) state.1 state.2
  terminated : 0 < i → Terminated 0 state.1 state.2

theorem formatPrimes_joined (params : Params) {stack : Bytes}
    (size : stack.length = primesBufSize) :
    ∃ buf len, formatPrimes params stack = some (buf, len) ∧
      JoinedIn params params.primesCount (buf, len) := by
  have start : JoinedIn params 0 (stack, 0) :=
    ⟨holds_nil size, fun never => absurd never (Nat.lt_irrefl 0)⟩
  have keep : ∀ i state, i < params.primesCount → JoinedIn params i state →
      ∃ next, appendPrime params state i = some next ∧ JoinedIn params (i + 1) next := by
    intro i state inside joined
    have bound : i < 4 := Nat.lt_of_lt_of_le inside params.primesCount_le
    have here : params.primes[i]? = some params.primes[i] := Vector.getElem?_eq_getElem bound
    obtain ⟨buf, returned, formatted, holds, terminated⟩ :=
      scnprintfAt_append joined.holds (by decide)
        (signedDecimal params.primes[i] ++ if i + 1 < params.primesCount then [44] else [])
    rw [joinedSoFar_succ params here inside] at holds
    refine ⟨(buf, state.2 + returned), ?_, holds, fun _ => terminated⟩
    simp only [appendPrime, here, formatted, Option.map_some]
  obtain ⟨out, ran, joined⟩ := forLoop_rule start keep
  exact ⟨out.1, out.2, ran, joined⟩

theorem joinedSoFar_supplied (params : Params) :
    params.joinedSoFar params.primesCount = commaJoined params.supplied := by
  rw [Params.joinedSoFar, if_neg (fun both => Nat.lt_irrefl _ both.2), List.append_nil]
  rfl

/-- `%s` finds a string inside the buffer, and it is the list, cut to 31 bytes. -/
def WellFormed (params : Params) (buf : Bytes) : Prop :=
  0 ∈ buf ∧ cstr buf = (commaJoined params.supplied).take 31

theorem wellFormed_of_terminated {params : Params} {buf : Bytes} {len : Nat}
    (joined : JoinedIn params params.primesCount (buf, len)) (supplied : 0 < params.primesCount) :
    WellFormed params buf := by
  have front : buf.take len = (commaJoined params.supplied).take 31 := by
    rw [← joinedSoFar_supplied]
    exact joined.holds.front
  have stop : buf[len]? = some 0 := joined.terminated supplied
  obtain ⟨inside, zero⟩ := List.getElem?_eq_some_iff.mp stop
  have parts : buf = (commaJoined params.supplied).take 31 ++ 0 :: buf.drop (len + 1) := by
    rw [← front, ← zero, ← List.drop_eq_getElem_cons inside, List.take_append_drop]
  have nonzero : 0 ∉ (commaJoined params.supplied).take 31 :=
    fun member => commaJoined_nonzero _ (List.mem_of_mem_take member)
  refine ⟨List.mem_of_getElem? stop, ?_⟩
  rw [parts]
  exact cstr_terminated nonzero _

/-- With nothing supplied the buffer is the stack. -/
theorem wellFormed_blank_iff {params : Params} (nothing : params.primesCount = 0) {stack : Bytes} :
    WellFormed params stack ↔ stack[0]? = some 0 := by
  have empty : (commaJoined params.supplied).take 31 = [] := by
    rw [Params.supplied, nothing]
    rfl
  rw [WellFormed, empty]
  cases stack with
  | nil => simp
  | cons c rest =>
      by_cases zero : c = 0
      · subst zero
        simp [cstr]
      · simp [cstr, zero]

/-- **Primes.** After the loop `primes_buf` is a string and the list exactly when
an entry was supplied or the stack began with a NUL. -/
theorem primes_wellFormed_iff (params : Params) {stack : Bytes}
    (size : stack.length = primesBufSize) :
    ∃ buf len, formatPrimes params stack = some (buf, len) ∧
      (WellFormed params buf ↔ 1 ≤ params.primesCount ∨ stack[0]? = some 0) := by
  obtain ⟨buf, len, ran, joined⟩ := formatPrimes_joined params size
  refine ⟨buf, len, ran, ?_⟩
  rcases Nat.eq_zero_or_pos params.primesCount with nothing | supplied
  · have same : buf = stack := by
      rw [formatPrimes, nothing] at ran
      cases ran
      rfl
    rw [same, wellFormed_blank_iff nothing]
    exact (or_iff_right (by omega)).symm
  · exact iff_of_true (wellFormed_of_terminated joined supplied) (Or.inl supplied)

/-- `insmod` without `primes=`, on a stack of letters: there is no string in the
buffer. -/
theorem primes_unterminated :
    ∃ buf len, formatPrimes Params.initial (List.replicate 32 65) = some (buf, len) ∧
      ¬ WellFormed Params.initial buf := by
  refine ⟨List.replicate 32 65, 0, rfl, ?_⟩
  rintro ⟨terminated, _⟩
  revert terminated
  decide

theorem primes_wellFormed_supplied :
    ∃ buf len, formatPrimes { Params.initial with
        primes := #v[11, 13, 17, 7], primesCount := 3, primesCount_le := by decide }
        (List.replicate 32 65) = some (buf, len) ∧
      WellFormed { Params.initial with
        primes := #v[11, 13, 17, 7], primesCount := 3, primesCount_le := by decide } buf := by
  obtain ⟨buf, len, ran, exactly⟩ := primes_wellFormed_iff { Params.initial with
    primes := #v[11, 13, 17, 7], primesCount := 3, primesCount_le := by decide }
    (List.length_replicate : (List.replicate 32 (65 : UInt8)).length = primesBufSize)
  exact ⟨buf, len, ran, exactly.mpr (Or.inl (by decide))⟩

end ModuleParams
