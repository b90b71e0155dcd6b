import KernelLabs.Kernel.UserCopy
import KernelLabs.Lib.CountedLoop
import KernelLabs.Lib.Transducer

/-!
# `/dev/module_params_demo` of `04_module_params/module_params.c`

Every read formats its text anew into a buffer on its stack, whose first bytes
are whatever was there, and hands out the slice at the file's position.
-/

set_option autoImplicit false

namespace ModuleParams

open Kernel CountedLoop

abbrev maxRepeat : Nat := 8
abbrev maxOutput : Nat := 512

/-- The parameters.  The parser of `module_param_array` stores as many entries as
it counts, and refuses more than the array holds. -/
structure Params where
  greeting : Bytes
  repeatCount : UInt32
  verbose : Bool
  dbgLevel : Int
  primes : Vector Int 4
  primesCount : Nat
  primesCount_le : primesCount ≤ 4

/-- The initialisers: nothing on the command line. -/
def Params.initial : Params where
  greeting := ascii "hello from module_params"
  repeatCount := 1
  verbose := false
  dbgLevel := 3
  primes := #v[2, 3, 5, 7]
  primesCount := 0
  primesCount_le := Nat.zero_le 4

def Params.reps (params : Params) : Nat :=
  if maxRepeat < params.repeatCount.toNat then maxRepeat else params.repeatCount.toNat

def Params.line (params : Params) : Bytes := params.greeting ++ [10]

def Params.diagnostics (params : Params) : Bytes :=
  ascii "-- diagnostics --\nrepeat_count(raw)=" ++ decimal params.repeatCount.toNat ++
    ascii " (clamped=" ++ decimal params.reps ++ ascii ")\nlog_level=" ++
    signedDecimal params.dbgLevel ++ ascii "\nprimes_count=" ++
    signedDecimal params.primesCount ++ ascii " primes[0]=" ++
    signedDecimal params.primes[0] ++ [10]

/-- `len += scnprintf(kbuf + len, MAX_OUTPUT - len, ...)` for a formatted text. -/
def appendText (text : Bytes) (kbuf : Bytes × Nat) : Option (Bytes × Nat) :=
  (scnprintfAt kbuf.1 kbuf.2 (maxOutput - kbuf.2) text).map fun (buf, returned) =>
    (buf, kbuf.2 + returned)

/-- `kbuf` and `len` once the text is complete; `stack` is what `kbuf` held before. -/
def formatText (params : Params) (stack : Bytes) : Option (Bytes × Nat) :=
  match countedLoop (fun kbuf => decide (kbuf.2 < maxOutput - 1))
      (fun kbuf _ => appendText params.line kbuf) params.reps 0 (stack, 0) with
  | none => none
  | some kbuf => if params.verbose then appendText params.diagnostics kbuf else some kbuf

/-- A read: its `count`, what `copy_to_user` returns, and the bytes `kbuf` starts
with. -/
structure Request where
  count : Nat
  missing : Nat
  stack : Bytes
  stack_length : stack.length = maxOutput

/-- What the read returns, and the position afterwards. -/
def moduleParamsRead (params : Params) (ppos : Nat) (request : Request) :
    Option (Nat × Except Errno Bytes) :=
  match formatText params request.stack with
  | none => none
  | some (kbuf, len) =>
    if len ≤ ppos then some (ppos, .ok [])
    else
      let count := if len - ppos < request.count then len - ppos else request.count
      match loadRange kbuf ppos count with
      | none => none
      | some bytes =>
        if request.missing ≠ 0 then some (ppos, .error .efault)
        else some (ppos + count, .ok bytes)

end ModuleParams
