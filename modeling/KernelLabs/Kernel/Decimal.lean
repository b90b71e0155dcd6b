import KernelLabs.Kernel.Kstrtox

/-!
# Decimal numbers, written and read back

What `%u`, `%d` and `%llu` write, the parsers of `lib/kstrtox.c` read back, with
the newline that every attribute adds.
-/

set_option autoImplicit false

namespace Kernel

theorem digitValue_of_mem {c : UInt8} (low : 48 ≤ c) (high : c ≤ 57) :
    digitValue c = some (c.toNat - 48) := if_pos ⟨low, high⟩

theorem isDigit_ten_of_mem {c : UInt8} (low : 48 ≤ c) (high : c ≤ 57) : isDigit 10 c = true := by
  rw [isDigit, digitValue_of_mem low high]
  have := UInt8.le_iff_toNat_le.mp high
  simp only [UInt8.reduceToNat] at this
  simp only [decide_eq_true_eq]
  omega

theorem decimal_ne_nil (n : Nat) : decimal n ≠ [] := by
  rw [decimal, Ne, List.map_eq_nil_iff]
  exact Nat.toDigits_ne_nil

theorem digitsValue_decimal (n : Nat) : digitsValue 10 (decimal n) = n := by
  have read (digits : List Char) (isDigits : ∀ c ∈ digits, c.isDigit) (start : Nat) :
      (digits.map fun c => UInt8.ofNat c.toNat).foldl
          (fun value c => value * 10 + (digitValue c).getD 0) start =
        Nat.ofDigitChars 10 digits start := by
    induction digits generalizing start with
    | nil => rfl
    | cons c rest ih =>
        have digit := isDigits c List.mem_cons_self
        simp only [Char.isDigit, Bool.and_eq_true, decide_eq_true_eq] at digit
        have low : 48 ≤ c.toNat := UInt32.le_iff_toNat_le.mp digit.1
        have high : c.toNat ≤ 57 := UInt32.le_iff_toNat_le.mp digit.2
        have byte : (UInt8.ofNat c.toNat).toNat = c.toNat := by
          rw [UInt8.toNat_ofNat']
          omega
        have value : digitValue (UInt8.ofNat c.toNat) = some (c.toNat - 48) := by
          rw [digitValue_of_mem, byte]
          · rw [UInt8.le_iff_toNat_le, byte]
            exact low
          · rw [UInt8.le_iff_toNat_le, byte]
            exact high
        rw [List.map_cons, List.foldl_cons, Nat.ofDigitChars_cons, value,
          ih fun d member => isDigits d (List.mem_cons_of_mem c member), Nat.mul_comm]
        rfl
  rw [digitsValue, decimal, read _ (fun c => Nat.isDigit_of_mem_toDigits (by decide) (by decide)),
    Nat.ofDigitChars_ten_toDigits]

theorem decimal_inj {m n : Nat} (same : decimal m = decimal n) : m = n := by
  rw [← digitsValue_decimal m, same, digitsValue_decimal]

/-- The text starts with no digit. -/
def StopsDigits (rest : Bytes) : Prop := ∀ c ∈ rest.head?, isDigit 10 c = false

theorem takeWhile_decimal (n : Nat) {rest : Bytes} (stops : StopsDigits rest) :
    (decimal n ++ rest).takeWhile (isDigit 10) = decimal n ∧
      (decimal n ++ rest).dropWhile (isDigit 10) = rest := by
  have all : ∀ c ∈ decimal n, isDigit 10 c = true := fun c member =>
    isDigit_ten_of_mem (mem_decimal member).1 (mem_decimal member).2
  have nothing : rest.takeWhile (isDigit 10) = [] ∧ rest.dropWhile (isDigit 10) = rest := by
    cases rest with
    | nil => exact ⟨rfl, rfl⟩
    | cons c rest =>
        have stop := stops c rfl
        simp [stop]
  rw [List.takeWhile_append_of_pos all, List.dropWhile_append_of_pos all, nothing.1, nothing.2,
    List.append_nil]
  exact ⟨rfl, rfl⟩

/-- A decimal number at the front of a text, and what follows it. -/
def readDecimal (text : Bytes) : Option (Nat × Bytes) :=
  if text.takeWhile (isDigit 10) = [] then none
  else some (digitsValue 10 (text.takeWhile (isDigit 10)), text.dropWhile (isDigit 10))

theorem readDecimal_decimal (n : Nat) {rest : Bytes} (stops : StopsDigits rest) :
    readDecimal (decimal n ++ rest) = some (n, rest) := by
  obtain ⟨digits, after⟩ := takeWhile_decimal n stops
  rw [readDecimal, digits, after, if_neg (decimal_ne_nil n), digitsValue_decimal]

theorem digitsValue_zeros (n : Nat) (digits : Bytes) :
    digitsValue 10 (List.replicate n 48 ++ digits) = digitsValue 10 digits := by
  have zero : (digitValue 48).getD 0 = 0 := by decide
  induction n with
  | zero => rfl
  | succ n ih =>
      rw [List.replicate_succ, List.cons_append, ← ih, digitsValue, List.foldl_cons, zero]
      rfl

theorem mem_zeroPadded {width n : Nat} {c : UInt8} (member : c ∈ zeroPadded width n) :
    48 ≤ c ∧ c ≤ 57 := by
  rcases List.mem_append.mp member with zero | digit
  · rw [List.eq_of_mem_replicate zero]
    decide
  · exact mem_decimal digit

/-- Leading zeros make no difference. -/
theorem readDecimal_zeroPadded (width n : Nat) {rest : Bytes} (stops : StopsDigits rest) :
    readDecimal (zeroPadded width n ++ rest) = some (n, rest) := by
  obtain ⟨digits, after⟩ := takeWhile_decimal n stops
  have zeros : ∀ c ∈ List.replicate (width - (decimal n).length) (48 : UInt8),
      isDigit 10 c = true := by
    intro c member
    rw [List.eq_of_mem_replicate member]
    decide
  rw [readDecimal, zeroPadded, List.append_assoc, List.takeWhile_append_of_pos zeros,
    List.dropWhile_append_of_pos zeros, digits, after, digitsValue_zeros, digitsValue_decimal,
    if_neg]
  intro empty
  exact decimal_ne_nil n (List.append_eq_nil_iff.mp empty).2

/-- The text after a fixed word at its front. -/
def expect (word text : Bytes) : Option Bytes :=
  if text.take word.length = word then some (text.drop word.length) else none

theorem expect_append (word rest : Bytes) : expect word (word ++ rest) = some rest := by
  rw [expect, List.take_left, if_pos rfl, List.drop_left]

/-! ## What an attribute prints, written to it again -/

theorem head_toDigits {n : Nat} (positive : n ≠ 0) : (Nat.toDigits 10 n).head? ≠ some '0' := by
  induction n using Nat.strongRecOn with
  | ind n ih =>
      by_cases small : n < 10
      · have each : ∀ d < 10, d ≠ 0 → [Nat.digitChar d].head? ≠ some '0' := by decide
        rw [Nat.toDigits_of_lt_base small]
        exact each n small positive
      · rw [Nat.toDigits_of_base_le (by decide) (by omega),
          List.head?_append_of_ne_nil _ Nat.toDigits_ne_nil]
        exact ih (n / 10) (by omega) (by omega)

/-- No leading zero, which the parsers would take for an octal number. -/
theorem decimal_cons {n : Nat} (positive : n ≠ 0) :
    ∃ c rest, decimal n = c :: rest ∧ c ≠ 48 := by
  have first := head_toDigits positive
  cases digits : Nat.toDigits 10 n with
  | nil => exact absurd digits Nat.toDigits_ne_nil
  | cons d rest =>
      refine ⟨UInt8.ofNat d.toNat, rest.map fun c => UInt8.ofNat c.toNat, ?_, ?_⟩
      · rw [decimal, digits, List.map_cons]
      · intro zero
        have digit :=
          Nat.isDigit_of_mem_toDigits (b := 10) (n := n) (c := d) (by decide) (by decide)
          (digits ▸ List.mem_cons_self)
        simp only [Char.isDigit, Bool.and_eq_true, decide_eq_true_eq] at digit
        have high : d.toNat ≤ 57 := UInt32.le_iff_toNat_le.mp digit.2
        have value : d.toNat = 48 := by
          have same := congrArg UInt8.toNat zero
          rw [UInt8.toNat_ofNat'] at same
          simp only [UInt8.reduceToNat] at same
          omega
        refine first ?_
        rw [digits, List.head?_cons, ← Char.ofNat_toNat d, value]

theorem stopsDigits_newline : StopsDigits [10] := by
  intro c first
  cases Option.some.inj first
  decide

theorem kstrtoull_of_ne {c : UInt8} (notPlus : c ≠ 43) (base : Nat) (rest : Bytes) :
    kstrtoull base (c :: rest) = kstrtoullUnsigned base (c :: rest) := by
  simp [kstrtoull, notPlus]

theorem kstrtoll_of_ne {c : UInt8} (notMinus : c ≠ 45) (base : Nat) (rest : Bytes) :
    kstrtoll base (c :: rest) =
      match kstrtoull base (c :: rest) with
      | .error e => .error e
      | .ok value => if 2 ^ 63 ≤ value then .error .erange else .ok (value : Int) := by
  unfold kstrtoll
  split
  · rename_i shape
    exact absurd (List.cons.inj shape).1 notMinus
  · rfl

/-- The first byte of a number is no sign. -/
theorem decimal_unsigned (n : Nat) : ∃ c rest, decimal n = c :: rest ∧ c ≠ 43 ∧ c ≠ 45 := by
  cases digits : decimal n with
  | nil => exact absurd digits (decimal_ne_nil n)
  | cons c rest =>
      have low : 48 ≤ c := (mem_decimal (digits ▸ List.mem_cons_self)).1
      refine ⟨c, rest, rfl, ?_, ?_⟩
      · rintro rfl
        exact absurd low (by decide)
      · rintro rfl
        exact absurd low (by decide)

theorem kstrtoullUnsigned_decimal {n : Nat} (fits : n < 2 ^ 64) :
    kstrtoullUnsigned 0 (decimal n ++ [10]) = .ok n := by
  by_cases zero : n = 0
  · subst zero
    decide +kernel
  · obtain ⟨c, rest, shape, first⟩ := decimal_cons zero
    obtain ⟨digits, after⟩ := takeWhile_decimal n stopsDigits_newline
    have radix : parseIntegerFixupRadix 0 (decimal n ++ [10]) = (10, decimal n ++ [10]) := by
      rw [shape, List.cons_append]
      exact parseIntegerFixupRadix_of_ne first _
    rw [kstrtoullUnsigned, radix]
    dsimp only
    rw [digits, after, digitsValue_decimal, if_neg (Nat.not_le.mpr fits),
      if_neg (decimal_ne_nil n), if_pos (Or.inr rfl)]

theorem kstrtoull_decimal {n : Nat} (fits : n < 2 ^ 64) :
    kstrtoull 0 (decimal n ++ [10]) = .ok n := by
  obtain ⟨c, rest, shape, notPlus, _⟩ := decimal_unsigned n
  rw [← kstrtoullUnsigned_decimal fits, shape, List.cons_append]
  exact kstrtoull_of_ne notPlus 0 _

theorem kstrtouint_decimal (value : UInt32) :
    kstrtouint 0 (decimal value.toNat ++ [10]) = .ok value := by
  have small := value.toNat_lt
  rw [kstrtouint, kstrtoull_decimal (by omega)]
  simp only [if_pos small, UInt32.ofNat_toNat]

theorem kstrtoint_signedDecimal {value : Int} (low : intMin ≤ value) (high : value ≤ intMax) :
    kstrtoint 0 (signedDecimal value ++ [10]) = .ok value := by
  have parsed : kstrtoll 0 (signedDecimal value ++ [10]) = .ok value := by
    have fits : value.natAbs < 2 ^ 63 := by
      simp only [intMin, intMax] at low high
      omega
    by_cases negative : value < 0
    · rw [signedDecimal, if_pos negative, List.cons_append]
      simp only [kstrtoll, kstrtoullUnsigned_decimal (Nat.lt_trans fits (by decide))]
      rw [if_neg (by omega)]
      exact congrArg Except.ok (by omega)
    · have plain := kstrtoull_decimal (Nat.lt_trans fits (by decide))
      obtain ⟨c, rest, shape, _, notMinus⟩ := decimal_unsigned value.natAbs
      rw [shape, List.cons_append] at plain
      rw [signedDecimal, if_neg negative, shape, List.cons_append, kstrtoll_of_ne notMinus, plain]
      dsimp only
      rw [if_neg (by omega)]
      exact congrArg Except.ok (by omega)
  rw [kstrtoint, parsed]
  exact if_pos ⟨low, high⟩

theorem kstrtobool_decimal (value : Bool) :
    kstrtobool (decimal value.toNat ++ [10]) = .ok value := by
  cases value <;> decide +kernel

end Kernel
