import KernelLabs.WaitQueues.EventQueue

/-!
# Each event is delivered once, when the windows do not overlap

A producer announces an event in two atomics, a reader consumes one in two.
Between them another party may take its own two steps, and then two reads
format the same event number.  The invariant below says what holds while no
such overlap happens: at most one party stands in a window, and an event number
that was delivered can no longer be taken.
-/

set_option autoImplicit false

namespace WaitQueues

open Kernel LabelledMachine PartyPool

def System.announcing (s : System) : Nat := s.parties.countP Party.announcing

def System.holding (s : System) : Nat := s.parties.countP Party.holding

def System.ids (s : System) : List UInt64 := s.shared.delivered.map Delivery.id

/-- The step does not reach into another party's window: an increment finds no
window open and does not wrap, an exchange that takes the flag finds no producer
between its increment and its store. -/
def Unraced (s : System) (act : Act) : Prop :=
  match s.goes act with
  | some (.producer .increment) =>
    s.announcing = 0 ∧ s.holding = 0 ∧ s.shared.eventId.toNat + 1 < 2 ^ 64
  | some (.file ⟨_, _, _, .exchange _⟩) => s.shared.dataReady = true → s.announcing = 0
  | _ => True

instance (s : System) (act : Act) : Decidable (Unraced s act) := by
  unfold Unraced
  split <;> infer_instance

structure DeliveredOnce (s : System) : Prop where
  distinct : s.ids.Nodup
  past : ∀ id ∈ s.ids, id.toNat ≤ s.shared.eventId.toNat
  single : s.announcing + s.holding ≤ 1
  spent : s.shared.eventId ∈ s.ids →
    s.announcing = 0 ∧ s.holding = 0 ∧ s.shared.dataReady = false
  held : 1 ≤ s.holding → s.shared.dataReady = false

theorem deliveredOnce_initial : DeliveredOnce System.initial := by
  constructor <;> simp [System.initial, System.ids, System.announcing, System.holding]

theorem DeliveredOnce.spawn {s : System} (once : DeliveredOnce s) {party : Party}
    (quiet : party.announcing = false ∧ party.holding = false) :
    DeliveredOnce (s.spawn party) := by
  have announcing : System.announcing (s.spawn party) = s.announcing := by
    simp [System.announcing, Pool.spawn, List.countP_append, quiet.1]
  have holding : System.holding (s.spawn party) = s.holding := by
    simp [System.holding, Pool.spawn, List.countP_append, quiet.2]
  refine ⟨once.distinct, once.past, ?_, ?_, ?_⟩
  · rw [announcing, holding]
    exact once.single
  · rw [announcing, holding]
    exact once.spent
  · rw [holding]
    exact once.held

/-- How many parties stand in each window after one of them moved. -/
theorem windows_set {s : System} {i : Nat} {party : Party} (next : Shared) (moved : Party)
    (found : s.parties[i]? = some party) :
    System.announcing ⟨next, s.parties.set i moved⟩ + (if party.announcing then 1 else 0) =
        s.announcing + (if moved.announcing then 1 else 0) ∧
      System.holding ⟨next, s.parties.set i moved⟩ + (if party.holding then 1 else 0) =
        s.holding + (if moved.holding then 1 else 0) :=
  ⟨countP_set_add Party.announcing moved found, countP_set_add Party.holding moved found⟩

section Step
variable {s : System} (once : DeliveredOnce s) {i : Nat}
include once

theorem DeliveredOnce.increments (found : s.parties[i]? = some (.producer .increment))
    (noAnnouncing : s.announcing = 0) (noHolding : s.holding = 0)
    (room : s.shared.eventId.toNat + 1 < 2 ^ 64) :
    DeliveredOnce ⟨{ s.shared with eventId := s.shared.eventId + 1 },
      s.parties.set i (.producer .setReady)⟩ := by
  obtain ⟨announcing, holding⟩ := windows_set { s.shared with eventId := s.shared.eventId + 1 }
    (.producer .setReady) found
  simp only [Party.announcing, Party.holding, Bool.false_eq_true, if_true, if_false]
    at announcing holding
  have newId := u64_succ_toNat room
  -- the new number is above all delivered ones
  have unused : s.shared.eventId + 1 ∉ s.ids := by
    intro member
    have := once.past _ member
    omega
  refine ⟨once.distinct, ?_, ?_, fun member => absurd member unused, ?_⟩
  · intro id member
    have := once.past id member
    dsimp only at newId ⊢
    omega
  · dsimp only
    omega
  · dsimp only
    omega

theorem DeliveredOnce.sets (found : s.parties[i]? = some (.producer .setReady)) :
    DeliveredOnce ⟨{ s.shared with dataReady := true }, s.parties.set i (.producer .wake)⟩ := by
  obtain ⟨announcing, holding⟩ := windows_set { s.shared with dataReady := true }
    (.producer .wake) found
  simp only [Party.announcing, Party.holding, Bool.false_eq_true, if_true, if_false]
    at announcing holding
  have single := once.single
  refine ⟨once.distinct, once.past, ?_, ?_, ?_⟩
  · dsimp only
    omega
  · intro member
    have := (once.spent member).1
    omega
  · dsimp only
    omega

theorem DeliveredOnce.takes {f : File} {count : Nat} (found : s.parties[i]? = some (.file f))
    (pc : f.pc = .exchange count) (ready : s.shared.dataReady = true)
    (noAnnouncing : s.announcing = 0) :
    DeliveredOnce ⟨{ s.shared with dataReady := false },
      s.parties.set i (.file { f with pc := .fetch count })⟩ := by
  obtain ⟨announcing, holding⟩ := windows_set { s.shared with dataReady := false }
    (.file { f with pc := .fetch count }) found
  simp only [Party.announcing, Party.holding, pc, Bool.false_eq_true, if_true, if_false]
    at announcing holding
  have noHolding : s.holding = 0 := by
    by_contra some_held
    have := once.held (by omega)
    simp [ready] at this
  refine ⟨once.distinct, once.past, ?_, ?_, fun _ => rfl⟩
  · dsimp only
    omega
  · intro member
    have := (once.spent member).2.2
    simp [ready] at this

theorem DeliveredOnce.delivers {f : File} {count : Nat} (found : s.parties[i]? = some (.file f))
    (pc : f.pc = .fetch count) :
    DeliveredOnce ⟨{ s.shared with delivered :=
      s.shared.delivered ++ [deliveryOf i s.shared f count] }, s.parties.set i (.file { f with
        pc := .idle, ppos := f.ppos + (deliveryOf i s.shared f count).bytes.length })⟩ := by
  obtain ⟨announcing, holding⟩ := windows_set { s.shared with delivered :=
    s.shared.delivered ++ [deliveryOf i s.shared f count] } (.file { f with
      pc := .idle, ppos := f.ppos + (deliveryOf i s.shared f count).bytes.length }) found
  simp only [Party.announcing, Party.holding, pc, Bool.false_eq_true, if_true, if_false]
    at announcing holding
  have single := once.single
  have unused : s.shared.eventId ∉ s.ids := by
    intro member
    have := (once.spent member).2.1
    omega
  have flag := once.held (by omega)
  refine ⟨?_, ?_, ?_, fun _ => ⟨?_, ?_, flag⟩, fun _ => flag⟩
  · simp only [System.ids, List.map_append, List.map_cons, List.map_nil, deliveryOf]
    refine List.nodup_append.mpr ⟨once.distinct, List.pairwise_singleton _ _, ?_⟩
    rintro id member _ last rfl
    exact unused (List.mem_singleton.mp last ▸ member)
  · simp only [System.ids, List.map_append, List.map_cons, List.map_nil, deliveryOf]
    exact forall_mem_spawn once.past (Nat.le_refl _)
  all_goals dsimp only; omega

theorem DeliveredOnce.neutral {party moved : Party} {next : Shared}
    (found : s.parties[i]? = some party) (sameAnnouncing : moved.announcing = party.announcing)
    (sameHolding : moved.holding = party.holding) (flag : next.dataReady = s.shared.dataReady)
    (event : next.eventId = s.shared.eventId) (history : next.delivered = s.shared.delivered) :
    DeliveredOnce ⟨next, s.parties.set i moved⟩ := by
  obtain ⟨announcing, holding⟩ := windows_set next moved found
  rw [sameAnnouncing] at announcing
  rw [sameHolding] at holding
  have newIds : System.ids ⟨next, s.parties.set i moved⟩ = s.ids := by
    simp [System.ids, history]
  refine ⟨?_, ?_, ?_, ?_, ?_⟩
  · rw [newIds]
    exact once.distinct
  · rw [newIds, event]
    exact once.past
  · rw [Nat.add_right_cancel announcing, Nat.add_right_cancel holding]
    exact once.single
  · rw [newIds, event, flag, Nat.add_right_cancel announcing, Nat.add_right_cancel holding]
    exact once.spent
  · rw [flag, Nat.add_right_cancel holding]
    exact once.held

theorem DeliveredOnce.act {input : Input} {party moved : Party} {next : Shared}
    (found : s.parties[i]? = some party) (effect : Effect i input s.shared party next moved)
    (unraced : Unraced s (.party i input)) :
    DeliveredOnce ⟨next, s.parties.set i moved⟩ := by
  cases effect with
  | increments go was now effect =>
      subst go was now effect
      simp only [Unraced, System.goes, found] at unraced
      exact once.increments found unraced.1 unraced.2.1 unraced.2.2
  | sets go was now effect =>
      subst was now effect
      exact once.sets found
  | takes f count go was pc ready now effect =>
      subst go was now effect
      obtain ⟨ppos, nonblock, signaled, _⟩ := f
      subst pc
      simp only [Unraced, System.goes, found] at unraced
      exact once.takes found rfl ready (unraced ready)
  | delivers f count go was pc now effect =>
      subst was now effect
      exact once.delivers found pc
  | neutral announcing holding flag event history =>
      exact once.neutral found announcing holding flag event history

end Step

theorem step_deliveredOnce (s : System) (act : Act) (next : System) (once : DeliveredOnce s)
    (unraced : Unraced s act) (stepped : step s act = some next) : DeliveredOnce next := by
  cases act with
  | produce =>
      cases Option.some.inj stepped
      exact once.spawn ⟨rfl, rfl⟩
  | openFile nonblock =>
      cases Option.some.inj stepped
      exact once.spawn ⟨rfl, rfl⟩
  | party i input =>
      obtain ⟨party, shared, moved, found, own, rfl⟩ := Pool.act_eq_some stepped
      exact once.act found (partyStep_effect own) unraced

/-- **Delivery at most once.** While no increment and no successful exchange
falls into another party's window, and the event number does not wrap, all reads
of a run that formatted an event carry different event numbers. -/
theorem unraced_events_delivered_once (acts : List Act) (s : System)
    (ran : run step System.initial acts = some s)
    (unraced : Meets step Unraced System.initial acts) : s.ids.Nodup :=
  (invariant_meets step_deliveredOnce deliveredOnce_initial unraced ran).distinct

def readersTakeTurns : List Act :=
  [.produce, .openFile false, .openFile true, .party 1 (.read 32), .party 0 .go, .party 0 .go,
    .party 1 .go, .party 1 .go, .produce, .party 3 .go, .party 2 (.read 32), .party 3 .go,
    .party 2 .go, .party 2 .go]

theorem readersTakeTurns_delivered_once :
    ∃ s, run step System.initial readersTakeTurns = some s ∧ s.ids = [1, 2] ∧ s.ids.Nodup :=
  have ran := run_get step System.initial readersTakeTurns (by decide +kernel)
  ⟨_, ran, by decide +kernel, unraced_events_delivered_once _ _ ran (by decide +kernel)⟩

/-- Two producers and two readers: the second event is announced while the
first reader stands between its exchange and its read of the event number. -/
def overtakenReader : List Act :=
  [.produce, .produce, .openFile false, .openFile false, .party 2 (.read 32), .party 3 (.read 32),
    .party 0 .go, .party 0 .go, .party 2 .go, .party 1 .go, .party 1 .go, .party 3 .go,
    .party 2 .go, .party 3 .go]

theorem overtaken_reader_delivers_twice :
    ∃ acts s, run step System.initial acts = some s ∧ s.ids = [2, 2] ∧ ¬ s.ids.Nodup :=
  have ran := run_get step System.initial overtakenReader (by decide +kernel)
  ⟨_, _, ran, by decide +kernel, by decide +kernel⟩

/-! ## Every race can be driven to a duplicate

The condition asks for nothing idle: a step that reaches into an open window
leaves two windows open at once, and each of them can be run to a delivery of
the event number that now stands.
-/

def Party.inWindow (party : Party) : Bool := party.announcing || party.holding

/-- The run can go on from `s` to `next`, where the present event number was
delivered once more and no party but `i` has moved. -/
structure Delivers (s : System) (i : Nat) (next : System) : Prop where
  continued : ∃ more, run step s more = some next
  told : next.ids = s.ids ++ [s.shared.eventId]
  event : next.shared.eventId = s.shared.eventId
  others : ∀ j party, j ≠ i → s.parties[j]? = some party → next.parties[j]? = some party

theorem holder_delivers {s : System} {i : Nat} {f : File} {count : Nat}
    (found : s.parties[i]? = some (.file f)) (pc : f.pc = .fetch count) :
    ∃ next, Delivers s i next := by
  have stepped : step s (.party i .go) = some ⟨{ s.shared with delivered :=
      s.shared.delivered ++ [deliveryOf i s.shared f count] }, s.parties.set i (.file { f with
      pc := .idle, ppos := f.ppos + (deliveryOf i s.shared f count).bytes.length })⟩ := by
    simp [step, Pool.act, found, partyStep, readStep, pc]
  refine ⟨_, ⟨[.party i .go], (run_cons_eq_some step).mpr ⟨_, stepped, rfl⟩⟩, ?_, rfl, ?_⟩
  · simp [System.ids, deliveryOf]
  · intro j party differs other
    rw [List.getElem?_set_ne (Ne.symm differs)]
    exact other

theorem newcomer_delivers {s : System} (ready : s.shared.dataReady = true) :
    ∃ next, Delivers s s.parties.length next := by
  let k := s.parties.length
  have opened : step s (.openFile true) = some (s.spawn (.file ⟨0, true, false, .idle⟩)) := rfl
  have atEnd (shared : Shared) (party : Party) :
      (⟨shared, s.parties ++ [party]⟩ : System).parties[k]? = some party := by
    simp [k]
  have asked : step (s.spawn (.file ⟨0, true, false, .idle⟩)) (.party k (.read 64)) =
      some ⟨s.shared, s.parties ++ [.file ⟨0, true, false, .exchange 64⟩]⟩ := by
    simp [step, Pool.act, Pool.spawn, partyStep, k]
  have took : step ⟨s.shared, s.parties ++ [.file ⟨0, true, false, .exchange 64⟩]⟩
      (.party k .go) = some ⟨{ s.shared with dataReady := false },
        s.parties ++ [.file ⟨0, true, false, .fetch 64⟩]⟩ := by
    simp [step, Pool.act, partyStep, readStep, ready, k]
  obtain ⟨next, ⟨more, ran⟩, told, event, others⟩ := holder_delivers
    (f := ⟨0, true, false, .fetch 64⟩) (atEnd { s.shared with dataReady := false } _) rfl
  refine ⟨next, ⟨_, (run_cons_eq_some step).mpr ⟨_, opened, (run_cons_eq_some step).mpr
    ⟨_, asked, (run_cons_eq_some step).mpr ⟨_, took, ran⟩⟩⟩⟩, told, event, ?_⟩
  intro j party differs other
  exact others j party differs (getElem?_spawn_old other _)

theorem announcer_delivers {s : System} {i : Nat}
    (found : s.parties[i]? = some (.producer .setReady)) : ∃ next, Delivers s i next := by
  have stepped : step s (.party i .go) = some ⟨{ s.shared with dataReady := true },
      s.parties.set i (.producer .wake)⟩ := by
    simp [step, Pool.act, found, partyStep, producerStep]
  obtain ⟨next, ⟨more, ran⟩, told, event, others⟩ := newcomer_delivers
    (s := ⟨{ s.shared with dataReady := true }, s.parties.set i (.producer .wake)⟩) rfl
  refine ⟨next, ⟨_, (run_cons_eq_some step).mpr ⟨_, stepped, ran⟩⟩, told, event, ?_⟩
  intro j party differs other
  have bound : j < s.parties.length := (List.getElem?_eq_some_iff.mp other).choose
  refine others j party (by simpa using bound.ne) ?_
  rw [List.getElem?_set_ne (Ne.symm differs)]
  exact other

theorem window_delivers {s : System} {i : Nat} {party : Party}
    (found : s.parties[i]? = some party) (window : party.inWindow = true) :
    ∃ next, Delivers s i next := by
  cases party with
  | producer pc =>
      cases pc with
      | setReady => exact announcer_delivers found
      | increment | wake | done => contradiction
  | file f =>
      obtain ⟨ppos, nonblock, signaled, pc⟩ := f
      cases pc with
      | fetch count => exact holder_delivers found rfl
      | _ => contradiction

/-- Two windows open at once end in two deliveries of one number. -/
theorem two_windows_duplicate {s : System} {i j : Nat} {first second : Party} (differs : i ≠ j)
    (firstFound : s.parties[i]? = some first) (firstWindow : first.inWindow = true)
    (secondFound : s.parties[j]? = some second) (secondWindow : second.inWindow = true) :
    ∃ more last, run step s more = some last ∧ ¬ last.ids.Nodup := by
  obtain ⟨middle, ⟨front, ranFront⟩, toldFirst, event, others⟩ :=
    window_delivers firstFound firstWindow
  obtain ⟨last, ⟨back, ranBack⟩, toldSecond, _, _⟩ :=
    window_delivers (others j second (Ne.symm differs) secondFound) secondWindow
  refine ⟨front ++ back, last, ?_, ?_⟩
  · rw [run_append, ranFront]
    exact ranBack
  · rw [toldSecond, toldFirst, event]
    simp [List.nodup_append]

/-- **Tightness.** While the event number does not wrap, every step that breaks
the condition leads to a state from which one number is delivered twice. -/
theorem races_can_duplicate {s next : System} {act : Act} (stepped : step s act = some next)
    (room : s.shared.eventId.toNat + 1 < 2 ^ 64) (races : ¬ Unraced s act) :
    ∃ more last, run step next more = some last ∧ ¬ last.ids.Nodup := by
  cases act with
  | produce => exact absurd trivial races
  | openFile nonblock => exact absurd trivial races
  | party i input =>
      obtain ⟨party, shared, moved, found, own, rfl⟩ := Pool.act_eq_some stepped
      have duplicate (opens : moved.inWindow = true) (closed : party.inWindow = false)
          (other : ∃ t ∈ s.parties, t.inWindow = true) :
          ∃ more last, run step ⟨shared, s.parties.set i moved⟩ more = some last ∧
            ¬ last.ids.Nodup := by
        obtain ⟨t, member, window⟩ := other
        obtain ⟨j, otherFound⟩ := List.mem_iff_getElem?.mp member
        have differs : i ≠ j := by
          rintro rfl
          cases Option.some.inj (otherFound.symm.trans found)
          simp [window] at closed
        obtain ⟨bound, _⟩ := List.getElem?_eq_some_iff.mp found
        refine two_windows_duplicate differs (List.getElem?_set_self bound) opens ?_ window
        rw [List.getElem?_set_ne differs]
        exact otherFound
      have someWindow (crowded : 0 < s.announcing ∨ 0 < s.holding) :
          ∃ t ∈ s.parties, t.inWindow = true := by
        rcases crowded with announcing | holding
        · obtain ⟨t, member, is⟩ := List.countP_pos_iff.mp announcing
          exact ⟨t, member, by simp [Party.inWindow, is]⟩
        · obtain ⟨t, member, is⟩ := List.countP_pos_iff.mp holding
          exact ⟨t, member, by simp [Party.inWindow, is]⟩
      cases input with
      | read count => exact absurd trivial races
      | signal => exact absurd trivial races
      | go =>
          cases party with
          | producer pc =>
              cases pc with
              | increment =>
                  cases own
                  simp only [Unraced, System.goes, found] at races
                  exact duplicate rfl rfl (someWindow (by omega))
              | setReady | wake | done => exact absurd (by simp [Unraced, System.goes, found]) races
          | file f =>
              obtain ⟨ppos, nonblock, signaled, pc⟩ := f
              cases pc with
              | exchange count =>
                  simp only [Unraced, System.goes, found, Classical.not_imp] at races
                  simp only [partyStep, readStep, races.1, if_true, Option.map_some] at own
                  cases own
                  exact duplicate rfl rfl (someWindow (by omega))
              | _ => exact absurd (by simp [Unraced, System.goes, found]) races

end WaitQueues
