import KernelLabs.WaitQueues.EventQueue
import KernelLabs.Kernel.Decimal
import KernelLabs.Lib.BoundedText
import KernelLabs.Lib.Observer

/-!
# What a read that consumed an event hands over

An event is consumed per call, the position is kept per open file.  A read that
took the flag copies a text from the file's position on, so it returns a start of
that text only from position 0, and from position 2 for a single byte: the third
letter of "event" is the first one.

The event it consumed is the one whose producer set the flag that its exchange
took; the text is that of the number `event_id` shows afterwards.  An observer
follows the number of every event from its increment over the flag to the reader.
-/

set_option autoImplicit false

namespace WaitQueues

open Kernel LabelledMachine PartyPool BoundedText

/-! ## Following the events -/

/-- A read that took the flag: the event it consumed so, and what it handed over. -/
structure Consumption where
  event : UInt64
  delivery : Delivery
  deriving DecidableEq, Repr

/-- The event that each party carries (the one its increment numbered, for a
producer, or the one its exchange took, for a reader), the event of the producer
that set `data_ready` last, and the reads that consumed one. -/
structure Trail where
  carried : Nat → UInt64
  flagged : UInt64
  consumed : List Consumption

def Trail.initial : Trail := ⟨fun _ => 0, 0, []⟩

/-- The reader that reads `event_id` in this step, its file and the count of the
call. -/
def System.fetching (s : System) : Act → Option (Nat × File × Nat)
  | .party i .go =>
    match s.parties[i]? with
    | some (.file f) =>
      match f.pc with
      | .fetch count => some (i, f, count)
      | _ => none
    | _ => none
  | _ => none

def Trail.carriedAfter (trail : Trail) (s : System) : Act → Nat → UInt64
  | .party i .go =>
    match s.parties[i]? with
    | some (.producer .increment) => Function.update trail.carried i (s.shared.eventId + 1)
    | some (.file ⟨_, _, _, .exchange _⟩) =>
      if s.shared.dataReady then Function.update trail.carried i trail.flagged
      else trail.carried
    | _ => trail.carried
  | _ => trail.carried

def Trail.flaggedAfter (trail : Trail) (s : System) : Act → UInt64
  | .party i .go =>
    match s.parties[i]? with
    | some (.producer .setReady) => trail.carried i
    | _ => trail.flagged
  | _ => trail.flagged

def Trail.consumedAfter (trail : Trail) (s : System) (act : Act) : List Consumption :=
  match s.fetching act with
  | some (i, f, count) => trail.consumed ++ [⟨trail.carried i, deliveryOf i s.shared f count⟩]
  | none => trail.consumed

def follow (s : System) (trail : Trail) (act : Act) : Trail :=
  ⟨trail.carriedAfter s act, trail.flaggedAfter s act, trail.consumedAfter s act⟩

/-- The read returned a nonempty start of the text of the event it consumed. -/
def Consumption.Begins (c : Consumption) : Prop :=
  c.delivery.bytes ≠ [] ∧ c.delivery.bytes <+: eventText c.event

/-- From here a read that finds `now` in `event_id` returns a start of the text of
`event`: the numbers are the same, or the call asks for no more bytes than the two
texts share, seven and the leading digits that the numbers have in common. -/
def startsText (count ppos : Nat) (event now : UInt64) : Prop :=
  1 ≤ count ∧
    (ppos = 0 ∧ (now = event ∨
        count ≤ 7 + agreement (decimal now.toNat) (decimal event.toNat)) ∨
      ppos = 2 ∧ count = 1)

instance (count ppos : Nat) (event now : UInt64) : Decidable (startsText count ppos event now) :=
  inferInstanceAs (Decidable (_ ∧ _))

/-- A read that has consumed an event and comes to read `event_id` stands where
it returns a start of that event's text. -/
def AtOwnStart (p : System × Trail) (act : Act) : Prop :=
  ∀ fetch ∈ p.1.fetching act,
    startsText fetch.2.2 fetch.2.1.ppos (p.2.carried fetch.1) p.1.shared.eventId

instance (p : System × Trail) (act : Act) : Decidable (AtOwnStart p act) := by
  unfold AtOwnStart
  infer_instance

/-! ## The text of an event -/

/-- Twenty digits always fit the 64-byte buffer, so nothing is cut off. -/
theorem eventText_eq (id : UInt64) :
    eventText id = [101, 118, 101, 110, 116, 32, 35] ++ (decimal id.toNat ++ [10]) := by
  have digits : (decimal id.toNat).length ≤ 20 :=
    decimal_length_le (by decide) (Nat.lt_trans id.toNat_lt (by decide))
  have fits : (ascii "event #" ++ decimal id.toNat ++ [10]).length < 64 := by
    simp only [List.length_append, List.length_singleton]
    have : (ascii "event #").length = 7 := by decide
    omega
  rw [eventText, scnprintf_of_fits fits, List.append_assoc]
  rfl

/-- Only the first and the third byte of the text are its first letter. -/
theorem eventText_letter {id : UInt64} {ppos : Nat} (letter : (eventText id)[ppos]? = some 101) :
    ppos = 0 ∨ ppos = 2 := by
  rw [eventText_eq] at letter
  match ppos, letter with
  | 0, _ => exact Or.inl rfl
  | 2, _ => exact Or.inr rfl
  | 1, letter | 3, letter | 4, letter | 5, letter | 6, letter => simp at letter
  | n + 7, letter =>
      rw [List.getElem?_append_right (Nat.le_add_left 7 n)] at letter
      have member := List.mem_of_getElem? letter
      rcases List.mem_append.mp member with digit | newline
      · exact absurd (mem_decimal digit).2 (by decide)
      · simp at newline

/-- A cut that begins a text has that text's bytes, moved by its position. -/
theorem byte_of_begins {text other : Bytes} {count ppos k : Nat}
    (begins : slice count ppos text <+: other) (inside : k < count)
    (there : ppos + k < text.length) : text[ppos + k]? = other[k]? := by
  have within : k < (slice count ppos text).length := by
    rw [slice_length]
    omega
  rw [List.prefix_iff_getElem?.mp begins k within, ← List.getElem?_eq_getElem within]
  simp [slice, inside]

theorem newline_not_mem_decimal (n : Nat) : (10 : UInt8) ∉ decimal n := fun member =>
  absurd (mem_decimal member).1 (by decide)

/-- From its start, a text begins another event's one as far as the two agree. -/
theorem take_eventText_prefix_iff (count : Nat) (event now : UInt64) :
    (eventText now).take count <+: eventText event ↔
      now = event ∨ count ≤ 7 + agreement (decimal now.toNat) (decimal event.toNat) := by
  have named : decimal now.toNat = decimal event.toNat ↔ now = event :=
    ⟨fun same => UInt64.toNat_inj.mp (decimal_inj same), fun same => by rw [same]⟩
  rw [eventText_eq, eventText_eq, take_terminated_prefix_iff (newline_not_mem_decimal _)
    (newline_not_mem_decimal _), named]
  rfl

theorem slice_begins_iff (count ppos : Nat) (event now : UInt64) :
    (slice count ppos (eventText now) ≠ [] ∧
        slice count ppos (eventText now) <+: eventText event) ↔
      startsText count ppos event now := by
  have text := eventText_eq now
  have other := eventText_eq event
  constructor
  · rintro ⟨nonempty, begins⟩
    have lengths := List.length_pos_of_ne_nil nonempty
    rw [slice_length] at lengths
    have first : (eventText now)[ppos]? = (eventText event)[0]? :=
      byte_of_begins begins (k := 0) (by omega) (by omega)
    refine ⟨by omega, ?_⟩
    rcases eventText_letter (first.trans (by rw [other]; rfl)) with rfl | rfl
    · exact Or.inl ⟨rfl, (take_eventText_prefix_iff count event now).mp begins⟩
    · refine Or.inr ⟨rfl, ?_⟩
      by_contra several
      have second := byte_of_begins begins (k := 1) (by omega) (by simp [text])
      simp [text, other] at second
  · rintro ⟨positive, ⟨rfl, agree⟩ | ⟨rfl, rfl⟩⟩
    · refine ⟨?_, (take_eventText_prefix_iff count event now).mpr agree⟩
      apply List.ne_nil_of_length_pos
      simp only [slice_length, text, List.length_append, List.length_cons]
      omega
    · rw [text, other]
      exact ⟨List.cons_ne_nil _ _, ⟨_, rfl⟩⟩

/-! ## Runs -/

theorem begins_iff (i : Nat) (shared : Shared) (f : File) (count : Nat) (event : UInt64) :
    (Consumption.mk event (deliveryOf i shared f count)).Begins ↔
      startsText count f.ppos event shared.eventId :=
  slice_begins_iff count f.ppos event shared.eventId

def AllBegin (p : System × Trail) : Prop := ∀ c ∈ p.2.consumed, c.Begins

theorem fetching_eq_some {s : System} {act : Act} {i : Nat} {f : File} {count : Nat}
    (fetching : s.fetching act = some (i, f, count)) :
    act = .party i .go ∧ s.parties[i]? = some (.file f) ∧ f.pc = .fetch count := by
  unfold System.fetching at fetching
  split at fetching
  · split at fetching
    · rename_i j g found
      split at fetching
      · rename_i asked pc
        cases fetching
        exact ⟨rfl, found, pc⟩
      · contradiction
    · contradiction
  · contradiction

theorem fetching_of_fetch {s : System} {i : Nat} {f : File} {count : Nat}
    (found : s.parties[i]? = some (.file f)) (pc : f.pc = .fetch count) :
    s.fetching (.party i .go) = some (i, f, count) := by
  simp only [System.fetching, found, pc]

theorem step_fetch {s next : System} {i : Nat} {f : File} {count : Nat}
    (found : s.parties[i]? = some (.file f)) (pc : f.pc = .fetch count)
    (stepped : step s (.party i .go) = some next) :
    next.shared.delivered = s.shared.delivered ++ [deliveryOf i s.shared f count] := by
  simp only [step, Pool.act, found, partyStep, readStep, pc, Option.map_some] at stepped
  cases stepped
  rfl

theorem step_not_fetching {s next : System} {act : Act} (stepped : step s act = some next)
    (fetching : s.fetching act = none) : next.shared.delivered = s.shared.delivered := by
  cases act with
  | produce =>
      cases Option.some.inj stepped
      rfl
  | openFile nonblock =>
      cases Option.some.inj stepped
      rfl
  | party i input =>
      obtain ⟨party, shared, moved, found, own, rfl⟩ := Pool.act_eq_some stepped
      cases partyStep_effect own with
      | delivers f count go was pc now effect =>
          subst go was
          exact absurd (fetching.symm.trans (fetching_of_fetch found pc)) nofun
      | neutral announcing holding flag event history => exact history
      | increments go was now effect | sets go was now effect
      | takes f count go was pc ready now effect => rw [effect]

/-- The trail has a consumption for every read that formatted an event. -/
def Followed (p : System × Trail) : Prop :=
  p.2.consumed.map Consumption.delivery = p.1.shared.delivered

theorem step_followed (p : System × Trail) (act : Act) (next : System × Trail)
    (followed : Followed p) (stepped : observed step follow p act = some next) :
    Followed next := by
  obtain ⟨s, trail⟩ := p
  obtain ⟨after, _⟩ := next
  obtain ⟨own, rfl⟩ := observed_eq_some.mp stepped
  unfold Followed at followed ⊢
  dsimp only [follow, Trail.consumedAfter] at followed ⊢
  cases fetching : s.fetching act with
  | none =>
      rw [step_not_fetching own fetching]
      exact followed
  | some fetch =>
      obtain ⟨i, f, count⟩ := fetch
      obtain ⟨rfl, found, pc⟩ := fetching_eq_some fetching
      rw [step_fetch found pc own, List.map_append, followed]
      rfl

theorem consumedAfter_of_fetching {s : System} {act : Act} {i : Nat} {f : File} {count : Nat}
    (fetching : s.fetching act = some (i, f, count)) (trail : Trail) :
    trail.consumedAfter s act =
      trail.consumed ++ [⟨trail.carried i, deliveryOf i s.shared f count⟩] := by
  rw [Trail.consumedAfter, fetching]

theorem step_allBegin (p : System × Trail) (act : Act) (next : System × Trail)
    (all : AllBegin p) (own : AtOwnStart p act)
    (stepped : observed step follow p act = some next) : AllBegin next := by
  obtain ⟨s, trail⟩ := p
  obtain ⟨after, _⟩ := next
  obtain ⟨_, rfl⟩ := observed_eq_some.mp stepped
  unfold AllBegin
  dsimp only [follow]
  cases fetching : s.fetching act with
  | none =>
      rw [Trail.consumedAfter, fetching]
      exact all
  | some fetch =>
      obtain ⟨i, f, count⟩ := fetch
      rw [consumedAfter_of_fetching fetching]
      exact forall_mem_spawn all ((begins_iff i s.shared f count _).mpr (own _ fetching))

theorem step_astray (p : System × Trail) (act : Act) (next : System × Trail) (_ : AllBegin p)
    (astray : ¬ AtOwnStart p act) (stepped : observed step follow p act = some next) :
    ¬ AllBegin next := by
  obtain ⟨s, trail⟩ := p
  obtain ⟨after, _⟩ := next
  obtain ⟨_, rfl⟩ := observed_eq_some.mp stepped
  intro all
  refine astray ?_
  rintro ⟨i, f, count⟩ fetching
  have member : Consumption.mk (trail.carried i) (deliveryOf i s.shared f count) ∈
      trail.consumedAfter s act := by
    rw [consumedAfter_of_fetching fetching]
    exact List.mem_append_right _ (List.mem_singleton.mpr rfl)
  exact (begins_iff i s.shared f count _).mp (all _ member)

theorem step_stays_astray (p : System × Trail) (act : Act) (next : System × Trail)
    (astray : ¬ AllBegin p) (stepped : observed step follow p act = some next) :
    ¬ AllBegin next := by
  obtain ⟨s, trail⟩ := p
  obtain ⟨after, _⟩ := next
  obtain ⟨_, rfl⟩ := observed_eq_some.mp stepped
  intro all
  refine astray fun c member => all c ?_
  dsimp only [follow, Trail.consumedAfter]
  split
  · exact List.mem_append_left _ member
  · exact member

/-- Along any run, every read that took the flag returned a nonempty start of the
text of the event it consumed exactly when each of them read `event_id` standing at
the start of its file, with the event's number still there or a call too short to
tell, or asked for the one byte at position 2. -/
theorem reads_begin_iff_atOwnStart (acts : List Act) (s : System)
    (ran : run step System.initial acts = some s) :
    ∃ trail, run (observed step follow) (System.initial, Trail.initial) acts = some (s, trail) ∧
      trail.consumed.map Consumption.delivery = s.shared.delivered ∧
      ((∀ c ∈ trail.consumed, c.delivery.bytes ≠ [] ∧ c.delivery.bytes <+: eventText c.event) ↔
        Meets (observed step follow) AtOwnStart (System.initial, Trail.initial) acts) := by
  obtain ⟨trail, watched⟩ := run_observed follow ran Trail.initial
  have noReads : Followed (System.initial, Trail.initial) := rfl
  refine ⟨trail, watched, invariant_run step_followed noReads watched, ?_⟩
  have start : AllBegin (System.initial, Trail.initial) := by
    intro c member
    contradiction
  rcases meets_or_damaged step_allBegin step_astray step_stays_astray start watched with
    ⟨meets, all⟩ | ⟨misses, astray⟩
  · exact ⟨fun _ => meets, fun _ => all⟩
  · exact ⟨fun all => absurd all astray, fun meets => absurd meets misses⟩

/-- The first file's read takes event 1 and finds the number of event 2, but asks
for too few bytes to see it. -/
def oneEventPerFile : List Act :=
  [.openFile false, .openFile true, .produce, .produce, .party 0 (.read 5), .party 0 .go,
    .party 0 .go, .party 0 .go, .party 0 .go, .party 0 .go, .party 0 .go, .party 2 .go,
    .party 2 .go, .party 2 .go, .party 0 .go, .party 0 .go, .party 0 .go, .party 0 .go,
    .party 0 .go, .party 0 .go, .party 3 .go, .party 0 .go, .party 3 .go, .party 1 (.read 64),
    .party 1 .go, .party 1 .go]

theorem oneEventPerFile_begins :
    ∃ s, run step System.initial oneEventPerFile = some s ∧
      s.shared.delivered.map Delivery.bytes = [ascii "event", ascii "event #2\n"] ∧
      ∃ trail, run (observed step follow) (System.initial, Trail.initial) oneEventPerFile =
          some (s, trail) ∧
        ∀ c ∈ trail.consumed,
          c.delivery.bytes ≠ [] ∧ c.delivery.bytes <+: eventText c.event := by
  have ran := run_get step System.initial oneEventPerFile (by decide +kernel)
  obtain ⟨trail, watched, _, begins⟩ := reads_begin_iff_atOwnStart _ _ ran
  exact ⟨_, ran, by decide +kernel, trail, watched, begins.mpr (by decide +kernel)⟩

def twoEventsOneFile : List Act :=
  [.produce, .party 0 .go, .party 0 .go, .openFile false, .party 1 (.read 64), .party 1 .go,
    .party 1 .go, .produce, .party 2 .go, .party 2 .go, .party 1 (.read 64), .party 1 .go,
    .party 1 .go]

def overtakenByEvent : List Act :=
  [.produce, .party 0 .go, .party 0 .go, .openFile false, .party 1 (.read 64), .party 1 .go,
    .produce, .party 2 .go, .party 1 .go]

/-- The second event is consumed by a read that returns nothing; and the first one
by a read that returns the second one's text. -/
theorem second_event_consumed_unread :
    (∃ s trail, run (observed step follow) (System.initial, Trail.initial) twoEventsOneFile =
        some (s, trail) ∧
      ∃ c ∈ trail.consumed, c.event = 2 ∧ 1 ≤ c.delivery.count ∧ c.delivery.bytes = []) ∧
    ∃ s trail, run (observed step follow) (System.initial, Trail.initial) overtakenByEvent =
        some (s, trail) ∧
      ∃ c ∈ trail.consumed, c.event = 1 ∧ c.delivery.ppos = 0 ∧
        c.delivery.bytes = eventText 2 := by
  have unread := run_get (observed step follow) (System.initial, Trail.initial) twoEventsOneFile
    (by decide +kernel)
  have misread := run_get (observed step follow) (System.initial, Trail.initial) overtakenByEvent
    (by decide +kernel)
  exact ⟨⟨_, _, unread, by decide +kernel⟩, _, _, misread, by decide +kernel⟩

end WaitQueues
