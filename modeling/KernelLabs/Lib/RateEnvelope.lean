import Mathlib.Algebra.Order.Group.Int
import Mathlib.Algebra.Order.Ring.Int
import Mathlib.Data.List.Infix

/-!
# Schedules under a rate and a burst

A schedule is a sequence of clock ticks and of requests, each of them taken or
skipped.  It stays within a start amount, a burst and a rate when it takes no
more from its beginning than the start and what the ticks since then allow, and
no more in any window than the burst and what the ticks of that window allow.

A bucket decides this one request at a time: `level` is the smallest of the
amounts those windows leave (`level_attained`), so a schedule is within its
limits exactly when its level never falls below zero.  `greedy` takes whenever
something is left; no schedule of the same requests that stays within the
limits takes more.
-/

set_option autoImplicit false

namespace RateEnvelope

inductive Event where
  | tick
  | take
  | skip
  deriving DecidableEq, Repr

inductive Arrival where
  | tick
  | request
  deriving DecidableEq, Repr

def Event.arrival : Event → Arrival
  | .tick => .tick
  | .take | .skip => .request

def takes (events : List Event) : Nat := events.count .take
def ticks (events : List Event) : Nat := events.count .tick

section Level
variable (burst rate : Int)

/-- What is left after the events. -/
def level : Int → List Event → Int
  | t, [] => t
  | t, .tick :: rest => level (min (t + rate) burst) rest
  | t, .take :: rest => level (t - 1) rest
  | t, .skip :: rest => level t rest

/-- The schedule that takes whenever something is left. -/
def greedy : Int → List Arrival → List Event
  | _, [] => []
  | t, .tick :: rest => .tick :: greedy (min (t + rate) burst) rest
  | t, .request :: rest =>
      if 0 < t then .take :: greedy (t - 1) rest else .skip :: greedy t rest

/-- What the events of a window leave of an amount. -/
def remainder (amount : Int) (events : List Event) : Int :=
  amount + rate * ticks events - takes events

structure Within (start : Int) (events : List Event) : Prop where
  fromStart : ∀ front, front <+: events → 0 ≤ remainder rate start front
  window : ∀ window, window <:+: events → 0 ≤ remainder rate burst window

def Solvent (start : Int) (events : List Event) : Prop :=
  ∀ front, front <+: events → 0 ≤ level burst rate start front

instance (burst rate start : Int) (events : List Event) :
    Decidable (Solvent burst rate start events) :=
  decidable_of_iff (∀ front ∈ events.inits, 0 ≤ level burst rate start front)
    ⟨fun all front before => all front ((List.mem_inits front events).mpr before),
      fun solvent front member => solvent front ((List.mem_inits front events).mp member)⟩

end Level

section Rules
variable {burst rate : Int}

theorem level_append (t : Int) (front back : List Event) :
    level burst rate t (front ++ back) = level burst rate (level burst rate t front) back := by
  induction front generalizing t with
  | nil => rfl
  | cons event rest ih => cases event <;> exact ih _

@[simp]
theorem remainder_nil (amount : Int) : remainder rate amount [] = amount := by
  simp [remainder, ticks, takes]

theorem remainder_append (amount : Int) (events : List Event) (event : Event) :
    remainder rate amount (events ++ [event]) = remainder rate amount events +
      match event with
      | .tick => rate
      | .take => -1
      | .skip => 0 := by
  unfold remainder ticks takes
  rw [List.count_append, List.count_append]
  cases event with
  | tick =>
      simp only [List.count_singleton_self, Nat.cast_add, Nat.cast_one, Int.mul_add, Int.mul_one,
        List.count_singleton, beq_iff_eq, reduceCtorEq, if_false, Nat.cast_zero]
      omega
  | take =>
      simp only [List.count_singleton_self, Nat.cast_add, Nat.cast_one, Int.mul_add, Int.mul_zero,
        List.count_singleton, beq_iff_eq, reduceCtorEq, if_false, Nat.cast_zero]
      omega
  | skip =>
      simp only [Nat.cast_add, Int.mul_add, Int.mul_zero, List.count_singleton, beq_iff_eq,
        reduceCtorEq, if_false, Nat.cast_zero]
      omega

theorem level_le_remainder (burst rate t : Int) (events : List Event) :
    level burst rate t events ≤ remainder rate t events := by
  induction events using List.reverseRecOn with
  | nil => simp [level]
  | append_singleton events event ih =>
      rw [level_append, remainder_append]
      cases event with
      | tick =>
          simp only [level]
          omega
      | take =>
          simp only [level]
          omega
      | skip =>
          simp only [level]
          omega

theorem level_le_burst {t : Int} (capped : t ≤ burst) (events : List Event) :
    level burst rate t events ≤ burst := by
  induction events generalizing t with
  | nil => exact capped
  | cons event rest ih =>
      cases event with
      | tick => exact ih (Int.min_le_right _ _)
      | take => exact ih (by omega)
      | skip => exact ih capped

/-- The level is what some window leaves: one from the start, or one that ends
now and began with a full bucket. -/
theorem level_attained (burst rate t : Int) (events : List Event) :
    level burst rate t events = remainder rate t events ∨
      ∃ window, window <:+ events ∧ level burst rate t events = remainder rate burst window := by
  induction events using List.reverseRecOn with
  | nil => exact Or.inl (by simp [level])
  | append_singleton events event ih =>
      rw [level_append]
      have later {amount : Int} {w : List Event} (left : level burst rate t events =
          remainder rate amount w) (partly : event = .tick →
            remainder rate amount w + rate ≤ burst) :
          level burst rate (level burst rate t events) [event] =
            remainder rate amount (w ++ [event]) := by
        rw [remainder_append, left]
        cases event with
        | tick =>
            have fits := partly rfl
            simp only [level]
            omega
        | take =>
            simp only [level]
            omega
        | skip => simp only [level, Int.add_zero]
      by_cases full : event = .tick ∧ burst ≤ level burst rate t events + rate
      · obtain ⟨rfl, capped⟩ := full
        refine Or.inr ⟨[], List.nil_suffix, ?_⟩
        rw [remainder_nil]
        simp only [level]
        omega
      · rcases ih with whole | ⟨window, ends, left⟩
        · exact Or.inl (later whole fun tick => by
            rw [← whole]
            exact Int.le_of_lt (Int.not_le.mp fun capped => full ⟨tick, capped⟩))
        · refine Or.inr ⟨window ++ [event], ?_, later left fun tick => ?_⟩
          · obtain ⟨before, rfl⟩ := ends
            exact ⟨before, by rw [List.append_assoc]⟩
          · rw [← left]
            exact Int.le_of_lt (Int.not_le.mp fun capped => full ⟨tick, capped⟩)

/-- A schedule keeps to its limits exactly when the bucket never runs short. -/
theorem solvent_iff_within {start : Int} (capped : start ≤ burst) (events : List Event) :
    Solvent burst rate start events ↔ Within burst rate start events := by
  constructor
  · intro solvent
    refine ⟨fun front before => ?_, ?_⟩
    · exact (solvent front before).trans (level_le_remainder burst rate start front)
    · rintro window ⟨before, after, rfl⟩
      have left := solvent (before ++ window) (List.prefix_append _ _)
      rw [level_append] at left
      have atStart : level burst rate start before ≤ burst := level_le_burst capped before
      have bound := level_le_remainder burst rate (level burst rate start before) window
      unfold remainder at bound ⊢
      omega
  · rintro ⟨fromStart, inWindow⟩ front before
    rcases level_attained burst rate start front with whole | ⟨w, ends, left⟩
    · rw [whole]
      exact fromStart front before
    · rw [left]
      exact inWindow w (ends.isInfix.trans before.isInfix)

theorem solvent_cons {start : Int} {event : Event} {rest : List Event}
    (nonneg : 0 ≤ start) : Solvent burst rate start (event :: rest) ↔
      Solvent burst rate (level burst rate start [event]) rest := by
  have one (front : List Event) : level burst rate start (event :: front) =
      level burst rate (level burst rate start [event]) front := level_append start [event] front
  constructor
  · intro solvent front before
    rw [← one]
    exact solvent _ (List.cons_prefix_cons.mpr ⟨rfl, before⟩)
  · intro solvent front before
    cases front with
    | nil => exact nonneg
    | cons first front =>
        obtain ⟨rfl, inside⟩ := List.cons_prefix_cons.mp before
        rw [one]
        exact solvent front inside

theorem Solvent.start {start : Int} {events : List Event}
    (solvent : Solvent burst rate start events) : 0 ≤ start :=
  solvent [] List.nil_prefix

theorem greedy_solvent {start : Int} (rateNonneg : 0 ≤ rate) (burstNonneg : 0 ≤ burst)
    (nonneg : 0 ≤ start) (arrivals : List Arrival) :
    Solvent burst rate start (greedy burst rate start arrivals) := by
  induction arrivals generalizing start with
  | nil =>
      intro front before
      rw [List.prefix_nil.mp before]
      exact nonneg
  | cons arrival rest ih =>
      cases arrival with
      | tick => exact (solvent_cons nonneg).mpr (ih (le_min (by omega) burstNonneg))
      | request =>
          by_cases left : 0 < start
          · rw [greedy, if_pos left]
            refine (solvent_cons nonneg).mpr (ih ?_)
            simp only [level]
            omega
          · rw [greedy, if_neg left]
            exact (solvent_cons nonneg).mpr (ih nonneg)

theorem greedy_arrivals (start : Int) (arrivals : List Arrival) :
    (greedy burst rate start arrivals).map Event.arrival = arrivals := by
  induction arrivals generalizing start with
  | nil => rfl
  | cons arrival rest ih =>
      cases arrival with
      | tick => simp only [greedy, List.map_cons, ih, Event.arrival]
      | request =>
          by_cases left : 0 < start
          · simp only [greedy, left, if_true, List.map_cons, ih, Event.arrival]
          · simp only [greedy, left, if_false, List.map_cons, ih, Event.arrival]

/-- What a solvent schedule has saved the greedy one has already taken. -/
theorem takes_le_lead_add_greedy (start : Int) (lead : Nat) {other : Int}
    (saved : other ≤ start + lead) {events : List Event}
    (solvent : Solvent burst rate other events) :
    takes events ≤ lead + takes (greedy burst rate start (events.map Event.arrival)) := by
  induction events generalizing start other lead with
  | nil => simp [takes]
  | cons event rest ih =>
      have later := (solvent_cons solvent.start).mp solvent
      cases event with
      | tick =>
          have follow := ih (min (start + rate) burst) lead (by
            simp only [level]
            omega) later
          simpa only [takes, List.map_cons, Event.arrival, greedy, List.count_cons_of_ne,
            ne_eq, reduceCtorEq, not_false_eq_true] using follow
      | take =>
          have paid := later.start
          simp only [level] at paid
          by_cases left : 0 < start
          · have follow := ih (start - 1) lead (by
              simp only [level]
              omega) later
            simp only [takes, List.map_cons, Event.arrival, greedy, left, if_true,
              List.count_cons_self] at follow ⊢
            omega
          · have follow := ih start (lead - 1) (by
              simp only [level]
              omega) later
            simp only [takes, List.map_cons, Event.arrival, greedy, left, if_false,
              List.count_cons_self, List.count_cons_of_ne, ne_eq, reduceCtorEq,
              not_false_eq_true] at follow ⊢
            omega
      | skip =>
          by_cases left : 0 < start
          · have follow := ih (start - 1) (lead + 1) (by
              simp only [level, Nat.cast_add, Nat.cast_one]
              omega) later
            simp only [takes, List.map_cons, Event.arrival, greedy, left, if_true,
              List.count_cons_self, List.count_cons_of_ne, ne_eq, reduceCtorEq,
              not_false_eq_true] at follow ⊢
            omega
          · have follow := ih start lead saved later
            simpa only [takes, List.map_cons, Event.arrival, greedy, left, if_false,
              List.count_cons_of_ne, ne_eq, reduceCtorEq, not_false_eq_true] using follow

theorem takes_le_greedy {start : Int} {events : List Event}
    (solvent : Solvent burst rate start events) :
    takes events ≤ takes (greedy burst rate start (events.map Event.arrival)) := by
  have bound := takes_le_lead_add_greedy start 0 (by simp) solvent
  rwa [Nat.zero_add] at bound

/-- Requests that would stay within the limits are all taken. -/
theorem greedy_takes_all {start : Int} {events : List Event} (every : .skip ∉ events)
    (solvent : Solvent burst rate start events) :
    greedy burst rate start (events.map Event.arrival) = events := by
  induction events generalizing start with
  | nil => rfl
  | cons event rest ih =>
      have later := (solvent_cons solvent.start).mp solvent
      have tail := ih (fun member => every (List.mem_cons_of_mem _ member)) later
      cases event with
      | tick => simpa only [List.map_cons, Event.arrival, greedy, List.cons.injEq, true_and,
          level] using tail
      | take =>
          have paid := later.start
          simp only [level] at paid tail
          have left : 0 < start := by omega
          simpa only [List.map_cons, Event.arrival, greedy, left, if_true, List.cons.injEq,
            true_and] using tail
      | skip => exact absurd List.mem_cons_self every

end Rules

/-! ## Taking everything -/

def Arrival.taken : Arrival → Event
  | .tick => .tick
  | .request => .take

theorem arrival_taken (arrivals : List Arrival) :
    (arrivals.map Arrival.taken).map Event.arrival = arrivals := by
  induction arrivals with
  | nil => rfl
  | cons arrival rest ih => cases arrival <;> simp only [List.map_cons, ih] <;> rfl

theorem skip_not_mem_taken (arrivals : List Arrival) : .skip ∉ arrivals.map Arrival.taken := by
  intro member
  obtain ⟨arrival, _, taken⟩ := List.mem_map.mp member
  cases arrival <;> cases taken

/-- The requests determine the schedule that takes them all. -/
theorem eq_taken_of_no_skip {events : List Event} (every : .skip ∉ events) :
    events = (events.map Event.arrival).map Arrival.taken := by
  induction events with
  | nil => rfl
  | cons event rest ih =>
      have tail := ih fun member => every (List.mem_cons_of_mem _ member)
      rw [List.map_cons, List.map_cons, ← tail]
      cases event with
      | tick => rfl
      | take => rfl
      | skip => exact absurd List.mem_cons_self every

end RateEnvelope
