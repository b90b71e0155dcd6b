import Mathlib.Data.List.Basic
import Mathlib.Algebra.Order.Group.Nat

/-!
# Records as terminated lines

A text of records, one line each.  A reader splits it at the terminator, forgets
what follows the last one, and parses each line.  For records whose lines do not
contain the terminator this gives the records back, and of a text cut short
exactly those that are whole in it.
-/

set_option autoImplicit false

namespace Lines

universe u v
variable {α : Type u} {β : Type v}

section Split
variable [DecidableEq β] (terminator : β)

/-- `line` is what has been read of the line so far. -/
def splitFrom : List β → List β → List (List β)
  | _, [] => []
  | line, c :: rest =>
    if c = terminator then line :: splitFrom [] rest else splitFrom (line ++ [c]) rest

/-- The complete lines of a text. -/
def split (text : List β) : List (List β) := splitFrom terminator [] text

variable {terminator}

theorem splitFrom_line {body : List β} (clean : terminator ∉ body) (line rest : List β) :
    splitFrom terminator line (body ++ terminator :: rest) =
      (line ++ body) :: splitFrom terminator [] rest := by
  induction body generalizing line with
  | nil => simp [splitFrom]
  | cons c body ih =>
      have differs : c ≠ terminator := fun same => clean (same ▸ List.mem_cons_self)
      have later : terminator ∉ body := fun member => clean (List.mem_cons_of_mem c member)
      rw [List.cons_append, splitFrom, if_neg differs, ih later, List.append_assoc,
        List.singleton_append]

theorem splitFrom_unfinished {body : List β} (clean : terminator ∉ body) (line : List β) :
    splitFrom terminator line body = [] := by
  induction body generalizing line with
  | nil => rfl
  | cons c body ih =>
      have differs : c ≠ terminator := fun same => clean (same ▸ List.mem_cons_self)
      rw [splitFrom, if_neg differs]
      exact ih (fun member => clean (List.mem_cons_of_mem c member)) _

/-- A text has as many lines as terminators. -/
theorem splitFrom_length (line text : List β) :
    (splitFrom terminator line text).length = text.count terminator := by
  induction text generalizing line with
  | nil => rfl
  | cons c rest ih =>
      rw [splitFrom]
      by_cases same : c = terminator
      · rw [if_pos same, List.length_cons, ih, same, List.count_cons_self]
      · rw [if_neg same, ih, List.count_cons_of_ne same]

end Split

/-- A format for the records that `Plain` admits. -/
structure Format (α : Type u) (β : Type v) where
  terminator : β
  render : α → List β
  parse : List β → Option α
  Plain : α → Prop
  clean : ∀ a, Plain a → terminator ∉ render a
  parse_render : ∀ a, Plain a → parse (render a) = some a

variable (format : Format α β)

def Format.line (a : α) : List β := format.render a ++ [format.terminator]

def Format.text (items : List α) : List β := items.flatMap format.line

section Decode
variable [DecidableEq β]

def Format.decode (text : List β) : Option (List α) :=
  (split format.terminator text).mapM format.parse

/-- How many of the items are whole in the first `n` characters. -/
def Format.whole : Nat → List α → Nat
  | _, [] => 0
  | n, a :: rest =>
    if (format.line a).length ≤ n then Format.whole (n - (format.line a).length) rest + 1 else 0

variable {format}

theorem split_line {a : α} (plain : format.Plain a) (rest : List β) :
    split format.terminator (format.line a ++ rest) =
      format.render a :: split format.terminator rest := by
  rw [Format.line, List.append_assoc, List.singleton_append, split,
    splitFrom_line (format.clean a plain), List.nil_append]
  rfl

/-- A cut text splits into the lines of the items that are whole in it. -/
theorem split_take {items : List α} (plain : ∀ a ∈ items, format.Plain a) (n : Nat) :
    split format.terminator ((format.text items).take n) =
      (items.take (format.whole n items)).map format.render := by
  induction items generalizing n with
  | nil => simp [Format.text, split, splitFrom]
  | cons a rest ih =>
      have first := plain a List.mem_cons_self
      have later := fun b member => plain b (List.mem_cons_of_mem a member)
      rw [Format.text, List.flatMap_cons, ← Format.text, Format.whole]
      by_cases fits : (format.line a).length ≤ n
      · rw [if_pos fits, List.take_append, List.take_of_length_le fits, split_line first,
          ih later, List.take_succ_cons, List.map_cons]
      · have short : n ≤ (format.render a).length := by
          rw [Format.line, List.length_append, List.length_singleton] at fits
          omega
        rw [if_neg fits, List.take_append_of_le_length (by omega), Format.line,
          List.take_append_of_le_length short]
        refine splitFrom_unfinished ?_ []
        exact fun member => format.clean a first (List.mem_of_mem_take member)

omit [DecidableEq β] in
theorem parse_rendered {items : List α} (plain : ∀ a ∈ items, format.Plain a) :
    (items.map format.render).mapM format.parse = some items := by
  induction items with
  | nil => rfl
  | cons a rest ih =>
      have first := format.parse_render a (plain a List.mem_cons_self)
      have later := ih fun b member => plain b (List.mem_cons_of_mem a member)
      rw [List.map_cons, List.mapM_cons, first, later]
      rfl

/-- Of a text cut after `n` characters, exactly the whole lines are decoded. -/
theorem decode_take {items : List α} (plain : ∀ a ∈ items, format.Plain a) (n : Nat) :
    format.decode ((format.text items).take n) = some (items.take (format.whole n items)) := by
  rw [Format.decode, split_take plain]
  exact parse_rendered fun a member => plain a (List.mem_of_mem_take member)

omit [DecidableEq β] in
theorem whole_le (format : Format α β) (n : Nat) (items : List α) :
    format.whole n items ≤ items.length := by
  induction items generalizing n with
  | nil => exact Nat.le_refl 0
  | cons a rest ih =>
      rw [Format.whole, List.length_cons]
      split
      · exact Nat.succ_le_succ (ih _)
      · exact Nat.zero_le _

omit [DecidableEq β] in
theorem whole_eq_length_iff (n : Nat) (items : List α) :
    format.whole n items = items.length ↔ (format.text items).length ≤ n := by
  induction items generalizing n with
  | nil => simp [Format.whole, Format.text]
  | cons a rest ih =>
      rw [Format.whole, Format.text, List.flatMap_cons, ← Format.text, List.length_append,
        List.length_cons]
      by_cases fits : (format.line a).length ≤ n
      · rw [if_pos fits, Nat.add_right_cancel_iff, ih]
        omega
      · rw [if_neg fits]
        omega

/-- Nothing is missing exactly when nothing was cut. -/
theorem decode_take_eq_iff {items : List α} (plain : ∀ a ∈ items, format.Plain a) (n : Nat) :
    format.decode ((format.text items).take n) = some items ↔
      (format.text items).length ≤ n := by
  rw [decode_take plain, ← whole_eq_length_iff, Option.some.injEq]
  constructor
  · intro same
    have count := congrArg List.length same
    have bound := whole_le format n items
    rw [List.length_take] at count
    omega
  · intro all
    rw [all, List.take_length]

end Decode

end Lines
