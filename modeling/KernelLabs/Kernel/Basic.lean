import Mathlib.Algebra.Order.Group.Int
import Mathlib.Algebra.Order.Group.Nat
import Mathlib.Data.List.DropRight

/-!
# C integers, error codes and NUL-terminated text

The kernel interfaces the modules under verification call: `int` arithmetic
that wraps at 32 bits, error codes, the text helpers of `lib/string.c` and
`lib/string_helpers.c`, and formatted output into a bounded buffer.  A C string
is the list of its bytes before the terminating NUL.
-/

set_option autoImplicit false

namespace Kernel

/-- The error codes the modules return, as `-errno` in C. -/
inductive Errno where
  | eperm | enoent | eio | e2big | eagain | enomem | efault | ebusy | eexist
  | enodev | einval | enospc | enotty | erange | erestartsys
  deriving DecidableEq, Repr

def Errno.number : Errno → Nat
  | .eperm => 1
  | .enoent => 2
  | .eio => 5
  | .e2big => 7
  | .eagain => 11
  | .enomem => 12
  | .efault => 14
  | .ebusy => 16
  | .eexist => 17
  | .enodev => 19
  | .einval => 22
  | .enotty => 25
  | .enospc => 28
  | .erange => 34
  | .erestartsys => 512

def Errno.code (e : Errno) : Int := -(e.number : Int)

theorem Errno.code_neg (e : Errno) : e.code < 0 := by
  cases e <;> decide

abbrev Bytes := List UInt8

/-- `current`, as far as the modules print and record it. -/
structure Identity where
  comm : Bytes
  pid : Nat
  deriving DecidableEq, Repr

/-! ## 32-bit two's complement -/

def intMax : Int := 2147483647
def intMin : Int := -2147483648

/-- The value an `int` expression has after wrapping. -/
def wrapInt (x : Int) : Int := Int.bmod x 4294967296

theorem wrapInt_of_mem {x : Int} (low : intMin ≤ x) (high : x ≤ intMax) : wrapInt x = x := by
  unfold intMin at low
  unfold intMax at high
  rw [wrapInt, Int.bmod_def]
  split <;> omega

theorem wrapInt_of_gt {x : Int} (above : intMax < x) (below : x ≤ 2 * intMax) :
    wrapInt x = x - 4294967296 := by
  unfold intMax at above below
  rw [wrapInt, Int.bmod_def]
  split <;> omega

theorem u64_succ_toNat {x : UInt64} (room : x.toNat + 1 < 2 ^ 64) :
    (x + 1).toNat = x.toNat + 1 := by
  rw [UInt64.toNat_add]
  exact Nat.mod_eq_of_lt room

/-! ## C strings -/

def ascii (text : String) : Bytes := text.toList.map fun c => UInt8.ofNat c.toNat

/-- The C string a buffer holds: its bytes up to the first NUL. -/
def cstr (buf : Bytes) : Bytes := buf.takeWhile (· != 0)

/-- `isspace` of the kernel's `_ctype` table; 160 is the no-break space of
Latin-1, which that table counts as white space. -/
def isspace (c : UInt8) : Bool := (9 ≤ c && c ≤ 13) || c == 32 || c == 160

def strim (s : Bytes) : Bytes := (s.rdropWhile isspace).dropWhile isspace

/-- `sysfs_streq`: equal, or equal up to one newline at the end of one side. -/
def sysfsStreq : Bytes → Bytes → Bool
  | [], t => t == [] || t == [10]
  | s, [] => s == [10]
  | a :: s, b :: t => a == b && sysfsStreq s t

/-- `strscpy` into a buffer of `size` bytes. -/
def strscpy (size : Nat) (src : Bytes) : Bytes := src.take (size - 1)

/-! ## Formatted output -/

/-- `%u`, `%llu` and the digits of `%d`. -/
def decimal (n : Nat) : Bytes := (Nat.toDigits 10 n).map fun c => UInt8.ofNat c.toNat

/-- `%d`. -/
def signedDecimal (n : Int) : Bytes :=
  if n < 0 then 45 :: decimal n.natAbs else decimal n.natAbs

/-- `%0<width>llu`. -/
def zeroPadded (width n : Nat) : Bytes :=
  List.replicate (width - (decimal n).length) 48 ++ decimal n

theorem mem_decimal {n : Nat} {c : UInt8} (member : c ∈ decimal n) : 48 ≤ c ∧ c ≤ 57 := by
  obtain ⟨digit, digitMember, rfl⟩ := List.mem_map.mp member
  have isDigit := Nat.isDigit_of_mem_toDigits (by decide) (by decide) digitMember
  simp only [Char.isDigit, Bool.and_eq_true, decide_eq_true_eq] at isDigit
  have low : 48 ≤ digit.toNat := UInt32.le_iff_toNat_le.mp isDigit.1
  have high : digit.toNat ≤ 57 := UInt32.le_iff_toNat_le.mp isDigit.2
  rw [UInt8.le_iff_toNat_le, UInt8.le_iff_toNat_le]
  simp only [UInt8.toNat_ofNat']
  constructor <;> simp <;> omega

theorem decimal_length_le {n width : Nat} (positive : 0 < width) (small : n < 10 ^ width) :
    (decimal n).length ≤ width := by
  rw [decimal, List.length_map]
  exact (Nat.length_toDigits_le_iff (by decide) positive).mpr small

/-- What `scnprintf` leaves in a buffer of `size` bytes for the formatted text;
its return value is the length. -/
def scnprintf (size : Nat) (text : Bytes) : Bytes := text.take (size - 1)

theorem scnprintf_of_fits {size : Nat} {text : Bytes} (fits : text.length < size) :
    scnprintf size text = text := by
  exact List.take_of_length_le (by omega)

theorem scnprintf_length_le (size : Nat) (text : Bytes) :
    (scnprintf size text).length ≤ size - 1 :=
  List.length_take_le (size - 1) text

end Kernel
