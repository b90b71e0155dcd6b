import KernelLabs.Kernel.Basic

/-!
# `lib/kstrtox.c`

`kstrtoull` and its narrowing callers: radix detection for base 0, the digit
loop with its sticky overflow mark, at most one trailing newline, and the range
check of the destination type.
-/

set_option autoImplicit false

namespace Kernel

def tolower (c : UInt8) : UInt8 := c ||| 32

def digitValue (c : UInt8) : Option Nat :=
  if 48 ≤ c ∧ c ≤ 57 then some (c.toNat - 48)
  else if 97 ≤ tolower c ∧ tolower c ≤ 102 then some ((tolower c).toNat - 97 + 10)
  else none

def isDigit (base : Nat) (c : UInt8) : Bool :=
  match digitValue c with
  | some value => value < base
  | none => false

def parseIntegerFixupRadix (base : Nat) (s : Bytes) : Nat × Bytes :=
  let detected :=
    if base = 0 then
      match s with
      | 48 :: x :: h :: _ => if tolower x = 120 ∧ isDigit 16 h then 16 else 8
      | 48 :: _ => 8
      | _ => 10
    else base
  match s with
  | 48 :: x :: rest => if detected = 16 ∧ tolower x = 120 then (detected, rest) else (detected, s)
  | _ => (detected, s)

/-- The number a digit string denotes.  The kernel's loop marks an overflow as
soon as a prefix exceeds 64 bits, which is when the whole number does. -/
def digitsValue (base : Nat) (digits : Bytes) : Nat :=
  digits.foldl (fun value c => value * base + (digitValue c).getD 0) 0

def kstrtoullUnsigned (base : Nat) (s : Bytes) : Except Errno Nat :=
  let (radix, text) := parseIntegerFixupRadix base s
  let digits := text.takeWhile (isDigit radix)
  let rest := text.dropWhile (isDigit radix)
  if 2 ^ 64 ≤ digitsValue radix digits then .error .erange
  else if digits = [] then .error .einval
  else if rest = [] ∨ rest = [10] then .ok (digitsValue radix digits)
  else .error .einval

def kstrtoull (base : Nat) : Bytes → Except Errno Nat
  | 43 :: rest => kstrtoullUnsigned base rest
  | s => kstrtoullUnsigned base s

def kstrtoll (base : Nat) : Bytes → Except Errno Int
  | 45 :: rest =>
    match kstrtoullUnsigned base rest with
    | .error e => .error e
    | .ok value => if 2 ^ 63 < value then .error .erange else .ok (-(value : Int))
  | s =>
    match kstrtoull base s with
    | .error e => .error e
    | .ok value => if 2 ^ 63 ≤ value then .error .erange else .ok (value : Int)

def kstrtoint (base : Nat) (s : Bytes) : Except Errno Int :=
  match kstrtoll base s with
  | .error e => .error e
  | .ok value => if intMin ≤ value ∧ value ≤ intMax then .ok value else .error .erange

def kstrtouint (base : Nat) (s : Bytes) : Except Errno UInt32 :=
  match kstrtoull base s with
  | .error e => .error e
  | .ok value => if value < 2 ^ 32 then .ok (UInt32.ofNat value) else .error .erange

/-- `unsigned long` has 64 bits, as `kstrtoull` has. -/
def kstrtoul (base : Nat) (s : Bytes) : Except Errno UInt64 :=
  match kstrtoull base s with
  | .error e => .error e
  | .ok value => .ok (UInt64.ofNat value)

/-- `kstrtobool`, which looks at one or two characters only. -/
def kstrtobool : Bytes → Except Errno Bool
  | [] => .error .einval
  | c :: rest =>
    if c ∈ ascii "eEyYtT1" then .ok true
    else if c ∈ ascii "dDnNfF0" then .ok false
    else if c ∈ ascii "oO" then
      match rest with
      | [] => .error .einval
      | d :: _ =>
        if d ∈ ascii "nN" then .ok true
        else if d ∈ ascii "fF" then .ok false
        else .error .einval
    else .error .einval

/-- An accepted `int` is one: the type's range is the only restriction that
`kstrtoint` adds to the digits. -/
theorem kstrtoint_mem {base : Nat} {s : Bytes} {value : Int}
    (parsed : kstrtoint base s = .ok value) : intMin ≤ value ∧ value ≤ intMax := by
  unfold kstrtoint at parsed
  split at parsed
  · contradiction
  · split at parsed
    · rename_i inRange
      cases parsed
      exact inRange
    · contradiction

/-! ## White space after a number -/

theorem mem_of_isspace {c : UInt8} (space : isspace c = true) :
    c ∈ [9, 10, 11, 12, 13, 32, 160] := by
  simp only [isspace, Bool.or_eq_true, Bool.and_eq_true, decide_eq_true_eq, beq_iff_eq,
    UInt8.le_iff_toNat_le, ← UInt8.toNat_inj] at space
  simp only [List.mem_cons, List.not_mem_nil, or_false, ← UInt8.toNat_inj]
  simp at *
  omega

/-- White space is neither a digit of any base nor a sign nor part of a prefix. -/
theorem isspace_facts {c : UInt8} (space : isspace c = true) :
    digitValue c = none ∧ c ≠ 43 ∧ c ≠ 48 ∧ tolower c ≠ 120 := by
  have each : ∀ c ∈ [(9 : UInt8), 10, 11, 12, 13, 32, 160],
      digitValue c = none ∧ c ≠ 43 ∧ c ≠ 48 ∧ tolower c ≠ 120 := by decide +kernel
  exact each c (mem_of_isspace space)

theorem isDigit_of_isspace {c : UInt8} (space : isspace c = true) (base : Nat) :
    isDigit base c = false := by
  rw [isDigit, (isspace_facts space).1]

theorem parseIntegerFixupRadix_of_ne {c : UInt8} (other : c ≠ 48) (rest : Bytes) :
    parseIntegerFixupRadix 0 (c :: rest) = (10, c :: rest) := by
  unfold parseIntegerFixupRadix
  simp [other]

theorem parseIntegerFixupRadix_short {x : UInt8} (other : tolower x ≠ 120) (rest : Bytes) :
    parseIntegerFixupRadix 0 (48 :: x :: rest) = (8, 48 :: x :: rest) := by
  cases rest with
  | nil => rfl
  | cons h rest => simp [parseIntegerFixupRadix, other]

theorem parseIntegerFixupRadix_suffix (s : Bytes) : (parseIntegerFixupRadix 0 s).2 <:+ s := by
  cases s with
  | nil => exact List.suffix_refl _
  | cons a s =>
      by_cases zero : a = 48
      · subst zero
        cases s with
        | nil => exact List.suffix_refl _
        | cons x s =>
            have inner : s <:+ 48 :: x :: s := (List.suffix_cons x s).trans (List.suffix_cons 48 _)
            cases s with
            | nil => exact List.suffix_refl _
            | cons h s =>
                simp only [parseIntegerFixupRadix, if_true]
                generalize (if tolower x = 120 ∧ isDigit 16 h = true then 16 else 8) = radix
                split
                · exact inner
                · exact List.suffix_refl _
      · simp only [parseIntegerFixupRadix_of_ne zero, List.suffix_refl]

theorem ne_newline_of_suffix {s : Bytes} (trimmed : s.rdropWhile isspace = s) : ¬ [10] <:+ s := by
  rintro ⟨front, rfl⟩
  refine List.rdropWhile_eq_self_iff.mp trimmed (List.concat_ne_nil 10 front) ?_
  rw [List.getLast_append_singleton]
  decide

section Trailing
variable {spaces : Bytes} (all : ∀ c ∈ spaces, isspace c = true)
include all

theorem digits_append (base : Nat) (s : Bytes) :
    (s ++ spaces).takeWhile (isDigit base) = s.takeWhile (isDigit base) ∧
      (s ++ spaces).dropWhile (isDigit base) = s.dropWhile (isDigit base) ++ spaces := by
  induction s with
  | nil =>
      cases spaces with
      | nil => exact ⟨rfl, rfl⟩
      | cons c rest =>
          have notDigit := isDigit_of_isspace (all c List.mem_cons_self) base
          simp [notDigit]
  | cons c rest ih =>
      cases digit : isDigit base c with
      | true => simp [digit, ih]
      | false => simp [digit]

theorem parseIntegerFixupRadix_append (s : Bytes) :
    parseIntegerFixupRadix 0 (s ++ spaces) =
      ((parseIntegerFixupRadix 0 s).1, (parseIntegerFixupRadix 0 s).2 ++ spaces) := by
  cases spaces with
  | nil => rw [List.append_nil, List.append_nil]
  | cons c rest =>
      obtain ⟨_, _, notZero, notX⟩ := isspace_facts (all c List.mem_cons_self)
      have notHex := isDigit_of_isspace (all c List.mem_cons_self) 16
      cases s with
      | nil => exact parseIntegerFixupRadix_of_ne notZero rest
      | cons a s =>
          by_cases zero : a = 48
          · subst zero
            cases s with
            | nil => exact parseIntegerFixupRadix_short notX rest
            | cons x s =>
                cases s with
                | nil => simp [parseIntegerFixupRadix, notHex]
                | cons h s =>
                    simp only [parseIntegerFixupRadix, List.cons_append, if_true]
                    generalize (if tolower x = 120 ∧ isDigit 16 h = true then 16 else 8) = radix
                    split <;> rfl
          · rw [List.cons_append, parseIntegerFixupRadix_of_ne zero,
              parseIntegerFixupRadix_of_ne zero, List.cons_append]

/-- After a number that ends with no white space only one newline may follow. -/
theorem kstrtoullUnsigned_append {s : Bytes} (trimmed : s.rdropWhile isspace = s) :
    kstrtoullUnsigned 0 (s ++ spaces) =
      match kstrtoullUnsigned 0 s with
      | .error e => .error e
      | .ok value => if spaces = [] ∨ spaces = [10] then .ok value else .error .einval := by
  have tail := parseIntegerFixupRadix_suffix s
  unfold kstrtoullUnsigned
  rw [parseIntegerFixupRadix_append all]
  generalize parseIntegerFixupRadix 0 s = parsed at tail
  obtain ⟨radix, text⟩ := parsed
  dsimp only at tail ⊢
  obtain ⟨digits, rest⟩ := digits_append all radix text
  have noNewline : text.dropWhile (isDigit radix) ≠ [10] := fun newline =>
    ne_newline_of_suffix trimmed (newline ▸ (List.dropWhile_suffix _).trans tail)
  rw [digits, rest]
  by_cases overflow : 2 ^ 64 ≤ digitsValue radix (text.takeWhile (isDigit radix))
  · rw [if_pos overflow, if_pos overflow]
  · rw [if_neg overflow, if_neg overflow]
    by_cases none : text.takeWhile (isDigit radix) = []
    · rw [if_pos none, if_pos none]
    · rw [if_neg none, if_neg none]
      by_cases clean : text.dropWhile (isDigit radix) = []
      · rw [clean, List.nil_append, if_pos (Or.inl rfl)]
      · have dirty : ¬ (text.dropWhile (isDigit radix) ++ spaces = [] ∨
            text.dropWhile (isDigit radix) ++ spaces = [10]) := by
          rintro (empty | newline)
          · exact clean (List.append_eq_nil_iff.mp empty).1
          · rcases List.append_eq_singleton_iff.mp newline with ⟨nil, _⟩ | ⟨own, _⟩
            · exact clean nil
            · exact noNewline own
        rw [if_neg dirty, if_neg (by rw [not_or]; exact ⟨clean, noNewline⟩)]

theorem kstrtoull_append {s : Bytes} (trimmed : s.rdropWhile isspace = s) :
    kstrtoull 0 (s ++ spaces) =
      match kstrtoull 0 s with
      | .error e => .error e
      | .ok value => if spaces = [] ∨ spaces = [10] then .ok value else .error .einval := by
  cases s with
  | nil =>
      have plain : kstrtoull 0 spaces = kstrtoullUnsigned 0 spaces := by
        cases spaces with
        | nil => rfl
        | cons c rest =>
            have notPlus := (isspace_facts (all c List.mem_cons_self)).2.1
            simp [kstrtoull, notPlus]
      rw [List.nil_append, plain]
      exact kstrtoullUnsigned_append all trimmed
  | cons a s =>
      by_cases plus : a = 43
      · subst plus
        refine kstrtoullUnsigned_append all ?_
        rw [List.rdropWhile_eq_self_iff] at trimmed ⊢
        intro nonempty
        have last := trimmed (List.cons_ne_nil _ _)
        rwa [List.getLast_cons nonempty] at last
      · have plain (text : Bytes) : kstrtoull 0 (a :: text) = kstrtoullUnsigned 0 (a :: text) := by
          simp [kstrtoull, plus]
        rw [List.cons_append, plain, plain, ← List.cons_append]
        exact kstrtoullUnsigned_append all trimmed

/-- `kstrtobool` cannot tell white space from the end of the text. -/
theorem kstrtobool_append (s : Bytes) : kstrtobool (s ++ spaces) = kstrtobool s := by
  have letters : ∀ c ∈ [(9 : UInt8), 10, 11, 12, 13, 32, 160], c ∉ ascii "eEyYtT1" ∧
      c ∉ ascii "dDnNfF0" ∧ c ∉ ascii "oO" ∧ c ∉ ascii "nN" ∧ c ∉ ascii "fF" := by
    decide +kernel
  cases spaces with
  | nil => rw [List.append_nil]
  | cons c rest =>
      obtain ⟨yes, no, o, n, f⟩ := letters c (mem_of_isspace (all c List.mem_cons_self))
      cases s with
      | nil => simp only [List.nil_append, kstrtobool, yes, no, o, if_false]
      | cons a s =>
          cases s with
          | nil => simp only [List.cons_append, List.nil_append, kstrtobool, n, f, if_false]
          | cons b s => rfl

end Trailing

theorem kstrtoull_eq_trimmed (v : Bytes) :
    kstrtoull 0 v =
      match kstrtoull 0 (v.rdropWhile isspace) with
      | .error e => .error e
      | .ok value =>
        if v.rtakeWhile isspace = [] ∨ v.rtakeWhile isspace = [10] then .ok value
        else .error .einval := by
  have spaces : ∀ c ∈ v.rtakeWhile isspace, isspace c = true :=
    fun _ member => List.mem_rtakeWhile_imp member
  have law := kstrtoull_append spaces (List.rdropWhile_idempotent isspace v)
  rwa [List.rdropWhile_append_rtakeWhile] at law

theorem kstrtobool_eq_trimmed (v : Bytes) :
    kstrtobool v = kstrtobool (v.rdropWhile isspace) := by
  have spaces : ∀ c ∈ v.rtakeWhile isspace, isspace c = true :=
    fun _ member => List.mem_rtakeWhile_imp member
  have law := kstrtobool_append spaces (v.rdropWhile isspace)
  rwa [List.rdropWhile_append_rtakeWhile] at law

end Kernel
