import KernelLabs.WaitQueues.Delivery
import KernelLabs.Lib.Observer

/-!
# Every event is accounted for

Two reads may format the same number and an event may be announced over another
one that nobody has taken.  The counts still balance, in every interleaving: each
event is on its way to the flag, in it, taken out of it, handed over, or has found
the flag set already; the numbers handed over never go back, the nth read gets
the nth event or a later one, and the last event is never left behind.
-/

set_option autoImplicit false

namespace WaitQueues

open Kernel LabelledMachine PartyPool

/-- A count without bound of the increments, the stores of `data_ready` that
found it set, and what the first one stood at when a read formatted its event. -/
structure Account where
  events : Nat
  overwritten : Nat
  marks : List Nat
  deriving DecidableEq, Repr

def Account.initial : Account := ⟨0, 0, []⟩

def keepAccount (s : System) (account : Account) (act : Act) : Account :=
  match s.goes act with
  | some (.producer .increment) => { account with events := account.events + 1 }
  | some (.producer .setReady) =>
    if s.shared.dataReady then { account with overwritten := account.overwritten + 1 }
    else account
  | some (.file ⟨_, _, _, .fetch _⟩) => { account with marks := account.marks ++ [account.events] }
  | _ => account

/-- Nothing is under way between the two atomics of a producer or of a read, and
no event waits in the flag. -/
def System.Settled (s : System) : Prop :=
  s.announcing = 0 ∧ s.holding = 0 ∧ s.shared.dataReady = false

instance (s : System) : Decidable s.Settled := inferInstanceAs (Decidable (_ ∧ _ ∧ _))

structure Accounted (s : System) (account : Account) : Prop where
  counted : s.shared.eventId = UInt64.ofNat account.events
  named : s.ids = account.marks.map UInt64.ofNat
  balance : account.events =
    s.ids.length + s.holding + s.shared.dataReady.toNat + s.announcing + account.overwritten
  ordered : (account.marks ++ [account.events]).Pairwise (· ≤ ·)
  late : ∀ (k n : Nat), account.marks[k]? = some n → k + 1 ≤ n
  latest : s.Settled → account.marks.getLast?.getD 0 = account.events

theorem accounted_initial : Accounted System.initial Account.initial := by
  constructor <;> simp [System.initial, Account.initial, System.ids, System.announcing,
    System.holding]

/-! ## What the account sees of a step -/

theorem keepAccount_increment {s : System} {i : Nat}
    (found : s.parties[i]? = some (.producer .increment)) (account : Account) :
    keepAccount s account (.party i .go) = { account with events := account.events + 1 } := by
  rw [keepAccount, System.goes, found]

theorem keepAccount_setReady {s : System} {i : Nat}
    (found : s.parties[i]? = some (.producer .setReady)) (account : Account) :
    keepAccount s account (.party i .go) =
      if s.shared.dataReady then { account with overwritten := account.overwritten + 1 }
      else account := by
  rw [keepAccount, System.goes, found]

theorem keepAccount_fetch {s : System} {i : Nat} {f : File} {count : Nat}
    (found : s.parties[i]? = some (.file f)) (pc : f.pc = .fetch count) (account : Account) :
    keepAccount s account (.party i .go) =
      { account with marks := account.marks ++ [account.events] } := by
  obtain ⟨ppos, nonblock, signaled, _⟩ := f
  cases pc
  rw [keepAccount, System.goes, found]

theorem keepAccount_takes {s : System} {i : Nat} {f : File} {count : Nat}
    (found : s.parties[i]? = some (.file f)) (pc : f.pc = .exchange count) (account : Account) :
    keepAccount s account (.party i .go) = account := by
  obtain ⟨ppos, nonblock, signaled, _⟩ := f
  cases pc
  rw [keepAccount, System.goes, found]

/-- A step that leaves both windows as they are is none of the three. -/
theorem keepAccount_neutral {s : System} {i : Nat} {input : Input} {party moved : Party}
    {next : Shared} (found : s.parties[i]? = some party)
    (stepped : partyStep i input s.shared party = some (next, moved))
    (announcing : moved.announcing = party.announcing) (holding : moved.holding = party.holding)
    (account : Account) : keepAccount s account (.party i input) = account := by
  cases input with
  | read count => rfl
  | signal => rfl
  | go =>
      rw [keepAccount, System.goes, found]
      cases party with
      | producer pc =>
          cases pc with
          | increment =>
              cases stepped
              contradiction
          | setReady =>
              cases stepped
              contradiction
          | wake | done => rfl
      | file f =>
          obtain ⟨ppos, nonblock, signaled, pc⟩ := f
          cases pc with
          | fetch count =>
              cases stepped
              contradiction
          | _ => rfl

/-! ## What each step does to the account -/

theorem Accounted.spawn {s : System} {account : Account} (accounted : Accounted s account)
    {party : Party} (quiet : party.announcing = false ∧ party.holding = false) :
    Accounted (s.spawn party) account := by
  have announcing : System.announcing (s.spawn party) = s.announcing := by
    simp [System.announcing, Pool.spawn, List.countP_append, quiet.1]
  have holding : System.holding (s.spawn party) = s.holding := by
    simp [System.holding, Pool.spawn, List.countP_append, quiet.2]
  refine ⟨accounted.counted, accounted.named, ?_, accounted.ordered, accounted.late, ?_⟩
  · rw [announcing, holding]
    exact accounted.balance
  · rintro ⟨none_announcing, none_holding, flag⟩
    exact accounted.latest ⟨announcing ▸ none_announcing, holding ▸ none_holding, flag⟩

/-- A number is put behind numbers that it bounds. -/
theorem pairwise_le_concat {marks : List Nat} {n m : Nat}
    (ordered : (marks ++ [n]).Pairwise (· ≤ ·)) (grows : n ≤ m) :
    (marks ++ [m]).Pairwise (· ≤ ·) := by
  rw [List.pairwise_append] at ordered ⊢
  refine ⟨ordered.1, List.pairwise_singleton _ _, ?_⟩
  intro k member last same
  cases List.mem_singleton.mp same
  exact (ordered.2.2 k member n (List.mem_singleton.mpr rfl)).trans grows

section Step
variable {s : System} {account : Account} (accounted : Accounted s account) {i : Nat}
include accounted

theorem Accounted.increments (found : s.parties[i]? = some (.producer .increment)) :
    Accounted ⟨{ s.shared with eventId := s.shared.eventId + 1 },
      s.parties.set i (.producer .setReady)⟩ { account with events := account.events + 1 } := by
  obtain ⟨announcing, holding⟩ := windows_set { s.shared with eventId := s.shared.eventId + 1 }
    (.producer .setReady) found
  simp only [Party.announcing, Party.holding, Bool.false_eq_true, if_true, if_false, add_zero]
    at announcing holding
  refine ⟨?_, accounted.named, ?_, pairwise_le_concat accounted.ordered (Nat.le_succ _),
    accounted.late, ?_⟩
  · dsimp only
    rw [accounted.counted, UInt64.ofNat_add]
    rfl
  · have balance := accounted.balance
    rw [announcing, holding]
    dsimp only [System.ids] at balance ⊢
    omega
  · rintro ⟨none_announcing, _, _⟩
    exact absurd (announcing.symm.trans none_announcing) (Nat.succ_ne_zero _)

theorem Accounted.sets (found : s.parties[i]? = some (.producer .setReady)) :
    Accounted ⟨{ s.shared with dataReady := true }, s.parties.set i (.producer .wake)⟩
      (if s.shared.dataReady then { account with overwritten := account.overwritten + 1 }
        else account) := by
  obtain ⟨announcing, holding⟩ := windows_set { s.shared with dataReady := true }
    (.producer .wake) found
  simp only [Party.announcing, Party.holding, Bool.false_eq_true, if_true, if_false, add_zero]
    at announcing holding
  have balance := accounted.balance
  have flagged : ¬ System.Settled ⟨{ s.shared with dataReady := true },
      s.parties.set i (.producer .wake)⟩ := fun settled => Bool.noConfusion settled.2.2
  cases ready : s.shared.dataReady with
  | true =>
      -- the event is announced over one that nobody has taken
      rw [if_pos rfl]
      refine ⟨accounted.counted, accounted.named, ?_, accounted.ordered, accounted.late,
        fun settled => absurd settled flagged⟩
      rw [holding]
      simp only [ready, Bool.toNat_true] at balance
      dsimp only [System.ids, Bool.toNat_true] at balance ⊢
      omega
  | false =>
      rw [if_neg Bool.false_ne_true]
      refine ⟨accounted.counted, accounted.named, ?_, accounted.ordered, accounted.late,
        fun settled => absurd settled flagged⟩
      rw [holding]
      simp only [ready, Bool.toNat_false] at balance
      dsimp only [System.ids, Bool.toNat_true] at balance ⊢
      omega

theorem Accounted.takes {f : File} {count : Nat} (found : s.parties[i]? = some (.file f))
    (pc : f.pc = .exchange count) (ready : s.shared.dataReady = true) :
    Accounted ⟨{ s.shared with dataReady := false },
      s.parties.set i (.file { f with pc := .fetch count })⟩ account := by
  obtain ⟨announcing, holding⟩ := windows_set { s.shared with dataReady := false }
    (.file { f with pc := .fetch count }) found
  simp only [Party.announcing, Party.holding, pc, Bool.false_eq_true, if_true, if_false, add_zero]
    at announcing holding
  have balance := accounted.balance
  rw [ready] at balance
  refine ⟨accounted.counted, accounted.named, ?_, accounted.ordered, accounted.late, ?_⟩
  · rw [announcing, holding]
    dsimp only [System.ids, Bool.toNat_true, Bool.toNat_false] at balance ⊢
    omega
  · rintro ⟨_, none_holding, _⟩
    exact absurd (holding.symm.trans none_holding) (Nat.succ_ne_zero _)

theorem Accounted.delivers {f : File} {count : Nat} (found : s.parties[i]? = some (.file f))
    (pc : f.pc = .fetch count) :
    Accounted ⟨{ s.shared with delivered :=
      s.shared.delivered ++ [deliveryOf i s.shared f count] }, s.parties.set i (.file { f with
        pc := .idle, ppos := f.ppos + (deliveryOf i s.shared f count).bytes.length })⟩
      { account with marks := account.marks ++ [account.events] } := by
  obtain ⟨announcing, holding⟩ := windows_set { s.shared with delivered :=
    s.shared.delivered ++ [deliveryOf i s.shared f count] } (.file { f with
      pc := .idle, ppos := f.ppos + (deliveryOf i s.shared f count).bytes.length }) found
  simp only [Party.announcing, Party.holding, pc, Bool.false_eq_true, if_true, if_false, add_zero]
    at announcing holding
  have balance := accounted.balance
  have marks : account.marks.length = s.ids.length := by
    rw [accounted.named, List.length_map]
  refine ⟨accounted.counted, ?_, ?_, ?_, ?_, ?_⟩
  · simp only [System.ids, List.map_append, List.map_cons, List.map_nil, deliveryOf]
    rw [← accounted.counted]
    exact congrArg (· ++ _) accounted.named
  · rw [announcing]
    simp only [System.ids, List.map_append, List.length_append, List.length_map,
      List.length_singleton, List.map_cons, List.map_nil] at balance ⊢
    omega
  · refine List.pairwise_append.mpr ⟨accounted.ordered, List.pairwise_singleton _ _, ?_⟩
    intro k member last same
    cases List.mem_singleton.mp same
    rcases List.mem_append.mp member with earlier | now
    · exact (List.pairwise_append.mp accounted.ordered).2.2 k earlier _ (List.mem_singleton.mpr rfl)
    · exact (List.mem_singleton.mp now).le
  · -- the reader's own event is one of those counted and not handed over yet
    intro k n at_k
    rcases getElem?_spawn_cases at_k with earlier | ⟨rfl, rfl⟩
    · exact accounted.late k n earlier
    · omega
  · intro _
    rw [List.getLast?_concat]
    rfl

theorem Accounted.neutral {party moved : Party} {next : Shared}
    (found : s.parties[i]? = some party) (sameAnnouncing : moved.announcing = party.announcing)
    (sameHolding : moved.holding = party.holding) (flag : next.dataReady = s.shared.dataReady)
    (event : next.eventId = s.shared.eventId) (history : next.delivered = s.shared.delivered) :
    Accounted ⟨next, s.parties.set i moved⟩ account := by
  obtain ⟨announcing, holding⟩ := windows_set next moved found
  rw [sameAnnouncing] at announcing
  rw [sameHolding] at holding
  have sameIds : System.ids ⟨next, s.parties.set i moved⟩ = s.ids := by
    simp [System.ids, history]
  refine ⟨event.trans accounted.counted, sameIds.trans accounted.named, ?_, accounted.ordered,
    accounted.late, ?_⟩
  · rw [sameIds, flag, Nat.add_right_cancel announcing, Nat.add_right_cancel holding]
    exact accounted.balance
  · rintro ⟨none_announcing, none_holding, unset⟩
    exact accounted.latest ⟨(Nat.add_right_cancel announcing).symm.trans none_announcing,
      (Nat.add_right_cancel holding).symm.trans none_holding, flag.symm.trans unset⟩

end Step

theorem step_accounted {s next : System} {account : Account} {act : Act}
    (accounted : Accounted s account) (stepped : step s act = some next) :
    Accounted next (keepAccount s account act) := by
  cases act with
  | produce =>
      cases Option.some.inj stepped
      exact accounted.spawn ⟨rfl, rfl⟩
  | openFile nonblock =>
      cases Option.some.inj stepped
      exact accounted.spawn ⟨rfl, rfl⟩
  | party i input =>
      obtain ⟨party, shared, moved, found, own, rfl⟩ := Pool.act_eq_some stepped
      cases partyStep_effect own with
      | increments go was now effect =>
          subst go was now effect
          rw [keepAccount_increment found]
          exact accounted.increments found
      | sets go was now effect =>
          subst go was now effect
          rw [keepAccount_setReady found]
          exact accounted.sets found
      | takes f count go was pc ready now effect =>
          subst go was now effect
          rw [keepAccount_takes found pc]
          exact accounted.takes found pc ready
      | delivers f count go was pc now effect =>
          subst go was now effect
          rw [keepAccount_fetch found pc]
          exact accounted.delivers found pc
      | neutral announcing holding flag event history =>
          rw [keepAccount_neutral found own announcing holding]
          exact accounted.neutral found announcing holding flag event history

/-- **Accounting.** In every interleaving of producers and reads: `event_id` is
the number of increments (modulo 2^64); every event has been handed over, is taken,
waits in the flag, is about to be announced, or was announced over one that still
waited; the event numbers handed over never go back, and the nth read that gets
one gets the nth event or a later one.  With nothing under way and the flag clear,
the last number handed over is that of the last event. -/
theorem events_accounted {acts : List Act} {s : System}
    (ran : run step System.initial acts = some s) :
    ∃ account, run (observed step keepAccount) (System.initial, Account.initial) acts =
        some (s, account) ∧
      s.shared.eventId = UInt64.ofNat account.events ∧
      account.events = s.ids.length + s.holding + s.shared.dataReady.toNat + s.announcing +
        account.overwritten ∧
      s.ids = account.marks.map UInt64.ofNat ∧ account.marks.Pairwise (· ≤ ·) ∧
      (∀ (k n : Nat), account.marks[k]? = some n → k + 1 ≤ n ∧ n ≤ account.events) ∧
      (s.Settled → account.marks.getLast?.getD 0 = account.events) := by
  obtain ⟨account, watched⟩ := run_observed keepAccount ran Account.initial
  have accounted : Accounted s account := by
    refine invariant_run (I := fun p => Accounted p.1 p.2) ?_ accounted_initial watched
    rintro ⟨s, account⟩ act ⟨next, after⟩ accounted stepped
    obtain ⟨own, rfl⟩ := observed_eq_some.mp stepped
    exact step_accounted accounted own
  obtain ⟨ordered, _, last⟩ := List.pairwise_append.mp accounted.ordered
  refine ⟨account, watched, accounted.counted, accounted.balance, accounted.named, ordered, ?_,
    accounted.latest⟩
  intro k n at_k
  exact ⟨accounted.late k n at_k,
    last n (List.mem_of_getElem? at_k) _ (List.mem_singleton.mpr rfl)⟩

/-- Two events come before the first read and a third after its exchange: one was
announced over another, and the read hands over the third. -/
theorem events_accounted_overwritten :
    ∃ s account, run (observed step keepAccount) (System.initial, Account.initial)
        [.produce, .produce, .produce, .openFile true, .party 0 .go, .party 0 .go, .party 1 .go,
          .party 1 .go, .party 3 (.read 32), .party 3 .go, .party 2 .go, .party 3 .go] =
        some (s, account) ∧
      s.ids = [3] ∧ account.overwritten = 1 ∧ s.announcing = 1 ∧
      account.events = s.ids.length + s.holding + s.shared.dataReady.toNat + s.announcing +
        account.overwritten := by
  have ran := run_get step System.initial
    [.produce, .produce, .produce, .openFile true, .party 0 .go, .party 0 .go, .party 1 .go,
      .party 1 .go, .party 3 (.read 32), .party 3 .go, .party 2 .go, .party 3 .go]
    (by decide +kernel)
  obtain ⟨account, watched, _, balance, _⟩ := events_accounted ran
  have seen := run_get (observed step keepAccount) (System.initial, Account.initial)
    [.produce, .produce, .produce, .openFile true, .party 0 .go, .party 0 .go, .party 1 .go,
      .party 1 .go, .party 3 (.read 32), .party 3 .go, .party 2 .go, .party 3 .go]
    (by decide +kernel)
  have same : account = _ := congrArg Prod.snd (Option.some.inj (watched.symm.trans seen))
  refine ⟨_, account, watched, by decide +kernel, ?_, by decide +kernel, balance⟩
  rw [same]
  decide +kernel

end WaitQueues
