import KernelLabs.Kernel.Decimal
import KernelLabs.Lib.Lines
import KernelLabs.ProcfsSeqfile.Listing
import Mathlib.Data.List.DropRight

/-!
# What a reader can make of the event log

`events_seq_show` prints the name of the task as it is, and a task chooses its
own name.  A name with a newline in it makes one record look like several; if no
record shown has such a name, the text is one line a record and gives time (to
the microsecond), name and pid back, and of a text cut short it gives the records
that are whole.
-/

set_option autoImplicit false

namespace ProcfsSeqfile.Listing

open Kernel LabelledMachine Lines

/-- What a line says of its record. -/
structure Line where
  microseconds : Nat
  comm : Bytes
  pid : Nat
  deriving DecidableEq, Repr

def lineOf (ev : ProcEvent) : Line := ⟨ev.ns.toNat / 1000, ev.comm, ev.pid⟩

def renderLine (line : Line) : Bytes :=
  decimal (line.microseconds / 1000000) ++ (ascii "." ++
    (zeroPadded 6 (line.microseconds % 1000000) ++ (ascii " " ++
      ((line.comm ++ ascii "[") ++ decimal line.pid ++ ascii "]"))))

/-- The name may contain brackets and digits: the pid is behind the last one. -/
def parseTask (text : Bytes) : Option (Bytes × Nat) :=
  if text.getLast? ≠ some 93 then none
  else
    let digits := text.dropLast.rtakeWhile (isDigit 10)
    let front := text.dropLast.rdropWhile (isDigit 10)
    if digits = [] ∨ front.getLast? ≠ some 91 then none
    else some (front.dropLast, digitsValue 10 digits)

/-- The inverse of `seq_printf(s, "%llu.%06llu %s[%d]\n", ...)` on one line. -/
def parseLine (text : Bytes) : Option Line := do
  let (sec, rest) <- readDecimal text
  let (usec, rest) <- readDecimal (<- expect (ascii ".") rest)
  let (comm, pid) <- parseTask (<- expect (ascii " ") rest)
  some ⟨sec * 1000000 + usec, comm, pid⟩

theorem eventsSeqShow_eq (ev : ProcEvent) : eventsSeqShow ev = renderLine (lineOf ev) ++ [10] := by
  have sec : (ev.ns / 1000000000).toNat = ev.ns.toNat / 1000 / 1000000 := by
    rw [UInt64.toNat_div, Nat.div_div_eq_div_mul]
    rfl
  have usec : (ev.ns % 1000000000 / 1000).toNat = ev.ns.toNat / 1000 % 1000000 := by
    rw [UInt64.toNat_div, UInt64.toNat_mod]
    exact Nat.mod_mul_right_div_self ev.ns.toNat 1000 1000000
  have ending : ascii "]\n" = ascii "]" ++ [10] := by decide
  simp only [eventsSeqShow, renderLine, lineOf, sec, usec, ending, List.append_assoc]

/-- Characters from the end are taken back to the first one that stops them. -/
theorem rtakeWhile_stopped {p : UInt8 → Bool} {c : UInt8} (stop : p c = false) (front : Bytes)
    {back : Bytes} (all : ∀ d ∈ back, p d = true) :
    (front ++ [c] ++ back).rtakeWhile p = back ∧
      (front ++ [c] ++ back).rdropWhile p = front ++ [c] := by
  have stopped : ¬ p c = true := by rw [stop]; exact Bool.false_ne_true
  induction back using List.reverseRecOn with
  | nil =>
      rw [List.append_nil, List.rtakeWhile_concat_neg _ _ _ stopped,
        List.rdropWhile_concat_neg _ _ _ stopped]
      exact ⟨rfl, rfl⟩
  | append_singleton back d ih =>
      have last := all d (List.mem_append_right _ List.mem_cons_self)
      obtain ⟨taken, dropped⟩ := ih fun e member => all e (List.mem_append_left _ member)
      rw [← List.append_assoc, List.rtakeWhile_concat_pos _ _ _ last,
        List.rdropWhile_concat_pos _ _ _ last, taken, dropped]
      exact ⟨rfl, rfl⟩

theorem parseTask_render (comm : Bytes) (pid : Nat) :
    parseTask ((comm ++ ascii "[") ++ decimal pid ++ ascii "]") = some (comm, pid) := by
  have bracket : ascii "[" = [91] := by decide
  have closing : ascii "]" = [93] := by decide
  have digits : ∀ c ∈ decimal pid, isDigit 10 c = true := fun c member =>
    isDigit_ten_of_mem (mem_decimal member).1 (mem_decimal member).2
  obtain ⟨taken, dropped⟩ := rtakeWhile_stopped (by decide : isDigit 10 91 = false) comm digits
  rw [parseTask, bracket, closing, List.getLast?_concat, if_neg (fun differs => differs rfl),
    List.dropLast_concat, taken, dropped, if_neg, List.dropLast_concat, digitsValue_decimal]
  rintro (empty | other)
  · exact decimal_ne_nil pid empty
  · exact other List.getLast?_concat

theorem parseLine_renderLine (line : Line) : parseLine (renderLine line) = some line := by
  have dot (rest : Bytes) : StopsDigits (ascii "." ++ rest) := by
    intro c first
    cases first
    decide
  have blank (rest : Bytes) : StopsDigits (ascii " " ++ rest) := by
    intro c first
    cases first
    decide
  have sec := readDecimal_decimal (line.microseconds / 1000000)
    (dot (zeroPadded 6 (line.microseconds % 1000000) ++ (ascii " " ++
      ((line.comm ++ ascii "[") ++ decimal line.pid ++ ascii "]"))))
  have usec := readDecimal_zeroPadded 6 (line.microseconds % 1000000)
    (blank ((line.comm ++ ascii "[") ++ decimal line.pid ++ ascii "]"))
  have time : line.microseconds / 1000000 * 1000000 + line.microseconds % 1000000 =
      line.microseconds := Nat.div_add_mod' _ _
  simp only [parseLine, renderLine, sec, usec, expect_append, parseTask_render,
    Option.bind_eq_bind, Option.bind_some, time]

/-- Only the name can put a newline into a line. -/
theorem count_newline_renderLine (line : Line) :
    (renderLine line).count 10 = line.comm.count 10 := by
  have digits (n : Nat) : (decimal n).count 10 = 0 :=
    List.count_eq_zero.mpr fun member => absurd (mem_decimal member).1 (by decide)
  have padded (n : Nat) : (zeroPadded 6 n).count 10 = 0 :=
    List.count_eq_zero.mpr fun member => absurd (mem_zeroPadded member).1 (by decide)
  have words : (ascii ".").count 10 = 0 ∧ (ascii " ").count 10 = 0 ∧ (ascii "[").count 10 = 0 ∧
      (ascii "]").count 10 = 0 := by decide
  obtain ⟨dot, blank, bracket, closing⟩ := words
  simp only [renderLine, List.count_append, digits, padded, dot, blank, bracket, closing]
  omega

/-- The format of the listing. -/
def lineFormat : Format Line UInt8 where
  terminator := 10
  render := renderLine
  parse := parseLine
  Plain := fun line => 10 ∉ line.comm
  clean := by
    intro line plain
    rwa [← List.count_eq_zero, count_newline_renderLine, List.count_eq_zero]
  parse_render := fun line _ => parseLine_renderLine line

/-- What the lines of the listing say. -/
def History.lines (history : History) : List Line := history.shown.map fun x => lineOf x.event

theorem shown_text (shown : List Shown) :
    (shown.flatMap fun x => eventsSeqShow x.event) =
      lineFormat.text (shown.map fun x => lineOf x.event) := by
  rw [Format.text, List.flatMap_map]
  simp only [eventsSeqShow_eq]
  rfl

theorem shown_line_count (shown : List Shown) :
    (shown.flatMap fun x => eventsSeqShow x.event).count 10 =
      shown.length + (shown.map fun x => x.event.comm.count 10).sum := by
  induction shown with
  | nil => rfl
  | cons x rest ih =>
      rw [List.flatMap_cons, List.count_append, ih, eventsSeqShow_eq, List.count_append,
        count_newline_renderLine, List.map_cons, List.sum_cons, List.length_cons]
      simp only [lineOf, List.count_singleton_self]
      omega

/-- However the log is opened and cleared between the sessions of a listing: its
text has as many lines as records were shown exactly when none of these records'
names contains a newline; and then any front of the text decodes to the records
whose lines are whole in it, in order, to all of them when it is the whole text. -/
theorem listing_lines_decode (acts : List ListingAct) (r : Reading) (history : History)
    (ran : run (observed listingStep watch) (Reading.initial, History.initial) acts =
      some (r, history)) :
    ((split 10 r.out).length = history.shown.length ↔
      ∀ x ∈ history.shown, 10 ∉ x.event.comm) ∧
    ((∀ x ∈ history.shown, 10 ∉ x.event.comm) → ∀ n,
      lineFormat.decode (r.out.take n) =
          some (history.lines.take (lineFormat.whole n history.lines)) ∧
        (r.out.length ≤ n → lineFormat.whole n history.lines = history.shown.length)) := by
  have text := (reachable_ordered ran).text
  constructor
  · rw [split, splitFrom_length, text, shown_line_count, Nat.add_eq_left,
      List.sum_eq_zero_iff_forall_eq_nat]
    constructor
    · intro free x member
      exact List.count_eq_zero.mp (free _ (List.mem_map_of_mem member))
    · intro clean n member
      obtain ⟨x, shown, rfl⟩ := List.mem_map.mp member
      exact List.count_eq_zero.mpr (clean x shown)
  · intro clean n
    have plain : ∀ line ∈ history.lines, lineFormat.Plain line := by
      intro line member
      obtain ⟨x, shown, rfl⟩ := List.mem_map.mp member
      exact clean x shown
    rw [text, shown_text, ← History.lines]
    refine ⟨decode_take plain n, ?_⟩
    intro all
    rw [(whole_eq_length_iff n _).mpr all, History.lines, List.length_map]

/-- A listing of three records. -/
def threeOpens : List ListingAct :=
  [opened 1500, opened 2500000, opened 3000000000, .reader .start, .reader (.show true),
    .reader .next, .reader (.show true), .reader .next, .reader (.show true), .reader .next,
    .reader .stop]

theorem listing_lines_decode_three :
    ∃ r history, run (observed listingStep watch) (Reading.initial, History.initial) threeOpens =
        some (r, history) ∧
      (split 10 r.out).length = history.shown.length ∧ history.shown.length = 3 :=
  have ran := run_get (observed listingStep watch) (Reading.initial, History.initial) threeOpens
    (by decide +kernel)
  ⟨_, _, ran, (listing_lines_decode threeOpens _ _ ran).1.mpr (by decide +kernel),
    by decide +kernel⟩

end ProcfsSeqfile.Listing
