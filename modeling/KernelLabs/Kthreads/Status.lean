import KernelLabs.Kthreads.Lifecycle
import KernelLabs.Lib.Moments
import KernelLabs.Lib.StoreSections
import Mathlib.Data.UInt

/-!
# What `status` and the last line of a producer show

`status_show` and the line that a producer logs when it stops load `next_seq`,
`dropped_count` and `ring_count` without `ring_lock`, so they may look between
two stores of a section.  Here a section is the list of its stores, and
carrying them out is what the sections of `Ring` do at once.

A thread passes through its loop any number of times; what `status_show` copied
under `producer_task_lock` is part of the call.  The loads of one text are taken
in any order, as C leaves the order of the arguments open.
-/

set_option autoImplicit false

namespace Kthreads.Status

open Kernel LabelledMachine PartyPool LockWord StoreSections Moments
open Lifecycle (statusText)

/-! ## The sections store by store -/

inductive Store where
  | slotSeq
  | nextSeq
  | slotNs (ns : UInt64)
  | ringHead
  | ringCount
  | droppedCount
  -- `ring_count = 0` of a drain.
  | emptied
  deriving DecidableEq, Repr

theorem ringSize_neZero : NeZero ringSize := ⟨by decide⟩

def Ring.head (r : Ring) : Fin ringSize := @Fin.ofNat ringSize ringSize_neZero r.ringHead

def Store.apply (r : Ring) : Store → Ring
  | .slotSeq =>
    { r with ring := Function.update r.ring (Ring.head r) ⟨r.nextSeq, (r.ring (Ring.head r)).ns⟩ }
  | .nextSeq => { r with nextSeq := r.nextSeq + 1 }
  | .slotNs ns =>
    { r with ring := Function.update r.ring (Ring.head r) ⟨(r.ring (Ring.head r)).seq, ns⟩ }
  | .ringHead => { r with ringHead := (r.ringHead + 1) % ringSize }
  | .ringCount => { r with ringCount := r.ringCount + 1 }
  | .droppedCount => { r with droppedCount := r.droppedCount + 1 }
  | .emptied => { r with ringCount := 0 }

/-- The ring as the stores of a history leave it. -/
def told (history : List Store) : Ring := history.foldl Store.apply Ring.initial

def storesOf (r : Ring) : Section → List Store
  | .produce ns =>
    [.slotSeq, .nextSeq, .slotNs ns, .ringHead,
      if r.ringCount < ringSize then .ringCount else .droppedCount]
  | .drain => [.emptied]

/-- Carrying out the stores one by one is what the section does at once. -/
theorem foldl_stores (r : Ring) (s : Section) :
    (storesOf r s).foldl Store.apply r = (sectionStep r s).1 := by
  cases s with
  | drain => rfl
  | produce ns =>
      simp only [storesOf, sectionStep, producerSection, List.foldl_cons, List.foldl_nil]
      by_cases room : r.ringCount < ringSize
      · simp only [if_pos room, Store.apply, Ring.head, Function.update_idem,
          Function.update_self]
        rfl
      · simp only [if_neg room, Store.apply, Ring.head, Function.update_idem,
          Function.update_self]
        rfl

/-! ## The texts -/

def stoppingLine (pid : Int) (produced dropped : UInt64) : Bytes :=
  ascii "kthreads: producer thread stopping: pid=" ++ signedDecimal pid ++ ascii " produced=" ++
    decimal produced.toNat ++ ascii " dropped=" ++ decimal dropped.toNat ++ [10]

/-! ## Threads, drains and readers -/

structure Shared where
  lock : Bool
  ring : Ring
  history : List Store

inductive Reader where
  | status (running : Bool) (pid : Int)
  | stopping (pid : Int)
  deriving DecidableEq, Repr

/-- `start` is how long the history was when the reader began. -/
structure Loads where
  start : Nat
  produced : Option UInt64
  dropped : Option UInt64
  buffered : Option Nat
  deriving DecidableEq, Repr

def Reader.text (loads : Loads) : Reader → Option Bytes
  | .status running pid =>
    match loads.produced, loads.dropped, loads.buffered with
    | some produced, some dropped, some buffered =>
      some (statusText running pid produced dropped buffered)
    | _, _, _ => none
  | .stopping pid =>
    match loads.produced, loads.dropped with
    | some produced, some dropped => some (stoppingLine pid produced dropped)
    | _, _ => none

inductive Pc where
  -- A thread at the test of its loop.
  | check (pid : Int)
  | producing (pid : Int) (plan : List Store)
  | drain
  | draining (plan : List Store)
  | drained
  | reading (reader : Reader) (loads : Loads)
  | shown (reader : Reader) (start : Nat) (text : Bytes)
  deriving DecidableEq, Repr

/-- The next step of a party; `ns` is the clock a pass of the loop reads. -/
inductive Turn where
  | pass (ns : UInt64)
  | stop
  | go
  | produced
  | dropped
  | buffered
  deriving DecidableEq, Repr

def readingStep (shared : Shared) (reader : Reader) (loads : Loads) : Turn → Option Pc
  | .produced => some (.reading reader { loads with produced := some shared.ring.nextSeq })
  | .dropped => some (.reading reader { loads with dropped := some shared.ring.droppedCount })
  | .buffered => some (.reading reader { loads with buffered := some shared.ring.ringCount })
  | .go => (reader.text loads).map fun text => .shown reader loads.start text
  | _ => none

def Shared.store (shared : Shared) (store : Store) : Shared :=
  { shared with ring := store.apply shared.ring, history := shared.history ++ [store] }

def pcStep (_ : Nat) (turn : Turn) (shared : Shared) : Pc → Option (Shared × Pc)
  | .check pid =>
    match turn with
    | .pass ns =>
      if shared.lock then none
      else some ({ shared with lock := true },
        .producing pid (storesOf shared.ring (.produce ns)))
    | .stop =>
      some (shared, .reading (.stopping pid) ⟨shared.history.length, none, none, none⟩)
    | _ => none
  | .producing pid plan =>
    match plan with
    | store :: rest => some (shared.store store, .producing pid rest)
    | [] => some ({ shared with lock := false }, .check pid)
  | .drain =>
    if shared.lock then none
    else some ({ shared with lock := true }, .draining (storesOf shared.ring .drain))
  | .draining plan =>
    match plan with
    | store :: rest => some (shared.store store, .draining rest)
    | [] => some ({ shared with lock := false }, .drained)
  | .reading reader loads => (readingStep shared reader loads turn).map fun pc => (shared, pc)
  | .drained | .shown _ _ _ => none

abbrev System := Pool Shared Pc

def System.initial : System := ⟨⟨false, Ring.initial, []⟩, []⟩

inductive Act where
  | thread (pid : Int)
  | drain
  | status (running : Bool) (pid : Int)
  | run (i : Nat) (turn : Turn)
  deriving DecidableEq, Repr

def step (s : System) : Act → Option System
  | .thread pid => some (s.spawn (.check pid))
  | .drain => some (s.spawn .drain)
  | .status running pid =>
    some (s.spawn (.reading (.status running pid) ⟨s.shared.history.length, none, none, none⟩))
  | .run i turn => s.act pcStep i turn

/-! ## What the stores add up to -/

def produced (history : List Store) : Nat := history.count .nextSeq
def dropped (history : List Store) : Nat := history.count .droppedCount
def kept (history : List Store) : Nat := history.count .ringCount

/-- After every store: what was kept or dropped was numbered before, one item at
most is under way, and the ring holds sixteen items at most. -/
structure Accounted (history : List Store) : Prop where
  low : dropped history + kept history ≤ produced history
  high : produced history ≤ dropped history + kept history + 1
  held : (told history).ringCount ≤ kept history
  bounded : (told history).ringCount ≤ ringSize

/-- Between two sections the ring is what whole sections made of it. -/
structure AtRest (history : List Store) : Prop where
  balance : produced history = dropped history + kept history
  held : (told history).ringCount ≤ kept history
  bounded : (told history).ringCount ≤ ringSize
  reached : ∃ sections, (ringRun sections).1 = told history

def Pc.plan : Pc → Option (List Store)
  | .producing _ plan | .draining plan => some plan
  | _ => none

def ringSections : Sections Store Pc where
  plan := Pc.plan
  Resting := AtRest
  Safe := Accounted

theorem told_append (history more : List Store) :
    told (history ++ more) = more.foldl Store.apply (told history) :=
  List.foldl_append

/-- The counters hold the counts, as an `u64` counts. -/
theorem told_counters (history : List Store) :
    (told history).nextSeq = UInt64.ofNat (produced history) ∧
      (told history).droppedCount = UInt64.ofNat (dropped history) := by
  induction history using List.reverseRecOn with
  | nil => exact ⟨rfl, rfl⟩
  | append_singleton history store ih =>
      obtain ⟨numbered, lost⟩ := ih
      rw [told_append, produced, dropped, List.count_append, List.count_append, UInt64.ofNat_add,
        UInt64.ofNat_add]
      cases store with
      | nextSeq => exact ⟨congrArg (· + 1) numbered, (UInt64.add_zero _).symm ▸ lost⟩
      | droppedCount => exact ⟨(UInt64.add_zero _).symm ▸ numbered, congrArg (· + 1) lost⟩
      | slotSeq | slotNs ns | ringHead | ringCount | emptied =>
          exact ⟨(UInt64.add_zero _).symm ▸ numbered, (UInt64.add_zero _).symm ▸ lost⟩

theorem counts_append (history more : List Store) :
    produced (history ++ more) = produced history + produced more ∧
      dropped (history ++ more) = dropped history + dropped more ∧
      kept (history ++ more) = kept history + kept more :=
  ⟨List.count_append, List.count_append, List.count_append⟩

theorem told_held (history more : List Store) :
    (told (history ++ more)).ringCount ≤ (told history).ringCount + kept more := by
  induction more generalizing history with
  | nil =>
      rw [List.append_nil]
      exact Nat.le_add_right _ _
  | cons store rest ih =>
      have later := ih (history ++ [store])
      rw [List.append_assoc, List.singleton_append] at later
      have counted : kept (store :: rest) = kept [store] + kept rest :=
        (counts_append [store] rest).2.2
      have one : (told (history ++ [store])).ringCount ≤
          (told history).ringCount + kept [store] := by
        rw [told_append]
        cases store with
        | ringCount => exact Nat.le_refl _
        | emptied => exact Nat.zero_le _
        | slotSeq | nextSeq | slotNs ns | ringHead | droppedCount => exact Nat.le_refl _
      omega

/-- What any front of a pass of the loop has counted. -/
theorem produce_counts {r : Ring} {ns : UInt64} {front : List Store}
    (before : front <+: storesOf r (.produce ns)) :
    dropped front + kept front ≤ produced front ∧ produced front ≤ 1 ∧
      (¬ r.ringCount < ringSize → kept front = 0) := by
  have listed := (List.mem_inits front _).mpr before
  by_cases room : r.ringCount < ringSize
  · simp only [storesOf, if_pos room, List.inits, List.map_cons, List.map_nil, List.mem_cons,
      List.not_mem_nil, or_false] at listed
    rcases listed with rfl | rfl | rfl | rfl | rfl | rfl <;>
      exact ⟨by simp [dropped, kept, produced], by simp [produced], fun full => absurd room full⟩
  · simp only [storesOf, if_neg room, List.inits, List.map_cons, List.map_nil, List.mem_cons,
      List.not_mem_nil, or_false] at listed
    rcases listed with rfl | rfl | rfl | rfl | rfl | rfl <;>
      exact ⟨by simp [dropped, kept, produced], by simp [produced], fun _ => by simp [kept]⟩

/-- Every section is accounted for at each store and comes to rest. -/
theorem section_ahead {history : List Store} (s : Section) (atRest : AtRest history) :
    Ahead ringSections history (storesOf (told history) s) := by
  obtain ⟨balance, held, bounded, sections, ran⟩ := atRest
  have reached : ∃ more, (ringRun more).1 = told (history ++ storesOf (told history) s) := by
    refine ⟨sections ++ [s], ?_⟩
    rw [ringRun_concat, ran, told_append, foldl_stores]
  cases s with
  | drain =>
      have emptied : (told (history ++ [.emptied])).ringCount = 0 := by
        rw [told_append]
        rfl
      have counts := counts_append history [.emptied]
      have uncounted : produced [.emptied] = 0 ∧ dropped [.emptied] = 0 ∧ kept [.emptied] = 0 :=
        ⟨rfl, rfl, rfl⟩
      constructor
      · intro front before
        rcases List.prefix_cons_iff.mp before with rfl | ⟨rest, rfl, nothing⟩
        · rw [List.append_nil]
          exact ⟨by omega, by omega, held, bounded⟩
        · cases List.prefix_nil.mp nothing
          exact ⟨by omega, by omega, by omega, by omega⟩
      · exact ⟨by simp only [storesOf]; omega, by simp only [storesOf]; omega,
          by simp only [storesOf]; omega, reached⟩
  | produce ns =>
      constructor
      · intro front before
        obtain ⟨low, high, full⟩ := produce_counts before
        have counts := counts_append history front
        have grown := told_held history front
        by_cases room : (told history).ringCount < ringSize
        · exact ⟨by omega, by omega, by omega, by omega⟩
        · have noneKept := full room
          exact ⟨by omega, by omega, by omega, by omega⟩
      · have counts := counts_append history (storesOf (told history) (.produce ns))
        have grown := told_held history (storesOf (told history) (.produce ns))
        have noneKept :=
          (produce_counts (List.prefix_refl (storesOf (told history) (.produce ns)))).2.2
        have whole : produced (storesOf (told history) (.produce ns)) =
            dropped (storesOf (told history) (.produce ns)) +
              kept (storesOf (told history) (.produce ns)) ∧
            kept (storesOf (told history) (.produce ns)) ≤ 1 := by
          by_cases room : (told history).ringCount < ringSize
          · simp [storesOf, room, produced, dropped, kept]
          · simp [storesOf, room, produced, dropped, kept]
        by_cases room : (told history).ringCount < ringSize
        · exact ⟨by omega, by omega, by omega, reached⟩
        · have nothing := noneKept room
          exact ⟨by omega, by omega, by omega, reached⟩

/-! ## What the readers know -/

/-- A reader loaded the value of a count at some moment since it began. -/
def SeesCount (history : List Store) (start : Nat) (count : List Store → Nat) (value : UInt64) :
    Prop :=
  ∃ n, value = UInt64.ofNat n ∧ Sees history start fun h => count h = n

structure LoadsFact (history : List Store) (loads : Loads) : Prop where
  began : loads.start ≤ history.length
  produced : ∀ value ∈ loads.produced, SeesCount history loads.start Status.produced value
  dropped : ∀ value ∈ loads.dropped, SeesCount history loads.start Status.dropped value
  buffered : ∀ value ∈ loads.buffered,
    Sees history loads.start fun h => (told h).ringCount = value

/-- The text of a reader shows one moment's value of each of its counters. -/
def TextFact (history : List Store) (start : Nat) (text : Bytes) : Reader → Prop
  | .status running pid =>
    ∃ p d b, text = statusText running pid (UInt64.ofNat p) (UInt64.ofNat d) b ∧
      Sees history start (fun h => produced h = p) ∧ Sees history start (fun h => dropped h = d) ∧
      Sees history start fun h => (told h).ringCount = b
  | .stopping pid =>
    ∃ p d, text = stoppingLine pid (UInt64.ofNat p) (UInt64.ofNat d) ∧
      Sees history start (fun h => produced h = p) ∧ Sees history start fun h => dropped h = d

def PcFact (history : List Store) : Pc → Prop
  | .reading _ loads => LoadsFact history loads
  | .shown reader start text => TextFact history start text reader
  | .check _ | .producing _ _ | .drain | .draining _ | .drained => True

section Growth
variable {history later : List Store}

theorem SeesCount.grow {start : Nat} {count : List Store → Nat} {value : UInt64}
    (sees : SeesCount history start count value) (grown : history <+: later) :
    SeesCount later start count value := by
  obtain ⟨n, same, seen⟩ := sees
  exact ⟨n, same, seen.grow grown⟩

theorem pcFact_grow {pc : Pc} (fact : PcFact history pc) (grown : history <+: later) :
    PcFact later pc := by
  cases pc with
  | check pid | producing pid plan | drain | draining plan | drained => trivial
  | reading reader loads =>
      obtain ⟨began, sawProduced, sawDropped, sawBuffered⟩ := fact
      exact ⟨Nat.le_trans began grown.length_le,
        fun value loaded => (sawProduced value loaded).grow grown,
        fun value loaded => (sawDropped value loaded).grow grown,
        fun value loaded => (sawBuffered value loaded).grow grown⟩
  | shown reader start text =>
      cases reader with
      | status running pid =>
          obtain ⟨p, d, b, same, sawP, sawD, sawB⟩ := fact
          exact ⟨p, d, b, same, sawP.grow grown, sawD.grow grown, sawB.grow grown⟩
      | stopping pid =>
          obtain ⟨p, d, same, sawP, sawD⟩ := fact
          exact ⟨p, d, same, sawP.grow grown, sawD.grow grown⟩

end Growth

/-! ## One step -/

section Steps
variable {shared : Shared}

theorem text_fact {history : List Store} {reader : Reader} {loads : Loads} {text : Bytes}
    (fact : LoadsFact history loads) (printed : reader.text loads = some text) :
    TextFact history loads.start text reader := by
  obtain ⟨start, produced, dropped, buffered⟩ := loads
  obtain ⟨began, sawProduced, sawDropped, sawBuffered⟩ := fact
  cases produced with
  | none => cases reader <;> contradiction
  | some p =>
      obtain ⟨nP, rfl, seenP⟩ := sawProduced p rfl
      cases dropped with
      | none => cases reader <;> contradiction
      | some d =>
          obtain ⟨nD, rfl, seenD⟩ := sawDropped d rfl
          cases reader with
          | stopping pid =>
              cases printed
              exact ⟨nP, nD, rfl, seenP, seenD⟩
          | status running pid =>
              cases buffered with
              | none => contradiction
              | some b =>
                  cases printed
                  exact ⟨nP, nD, b, rfl, seenP, seenD, sawBuffered b rfl⟩

theorem readingStep_fact {reader : Reader} {loads : Loads} {turn : Turn} {moved : Pc}
    (ring : shared.ring = told shared.history) (fact : LoadsFact shared.history loads)
    (stepped : readingStep shared reader loads turn = some moved) :
    PcFact shared.history moved ∧ moved.plan = none := by
  have counters := told_counters shared.history
  rw [← ring] at counters
  cases turn with
  | produced =>
      cases stepped
      refine ⟨⟨fact.began, ?_, fact.dropped, fact.buffered⟩, rfl⟩
      intro value loaded
      cases loaded
      exact ⟨_, counters.1, sees_now fact.began rfl⟩
  | dropped =>
      cases stepped
      refine ⟨⟨fact.began, fact.produced, ?_, fact.buffered⟩, rfl⟩
      intro value loaded
      cases loaded
      exact ⟨_, counters.2, sees_now fact.began rfl⟩
  | buffered =>
      cases stepped
      refine ⟨⟨fact.began, fact.produced, fact.dropped, ?_⟩, rfl⟩
      intro value loaded
      cases loaded
      exact sees_now fact.began (congrArg Ring.ringCount ring).symm
  | go =>
      obtain ⟨text, printed, same⟩ := Option.map_eq_some_iff.mp stepped
      cases same
      exact ⟨text_fact fact printed, rfl⟩
  | pass ns | stop => contradiction

theorem fresh_loads (history : List Store) :
    LoadsFact history ⟨history.length, none, none, none⟩ :=
  ⟨Nat.le_refl _, nofun, nofun, nofun⟩

/-- What a step does to the lock and the history, and what the party knows after it. -/
theorem pcStep_store {i : Nat} {turn : Turn} {next : Shared} {pc moved : Pc}
    (ring : shared.ring = told shared.history) (fact : PcFact shared.history pc)
    (stepped : pcStep i turn shared pc = some (next, moved)) :
    StoreStep ringSections shared.lock shared.history pc.plan next.lock next.history moved.plan ∧
      next.ring = told next.history ∧ PcFact next.history moved := by
  have stored (store : Store) : (shared.store store).ring = told (shared.store store).history := by
    simp only [Shared.store]
    rw [told_append, ← ring]
    rfl
  cases pc with
  | check pid =>
      cases turn with
      | pass ns =>
          change (if shared.lock then none else some (({ shared with lock := true } : Shared),
            Pc.producing pid (storesOf shared.ring (.produce ns)))) = some (next, moved) at stepped
          split at stepped
          · contradiction
          · rename_i enabled
            cases stepped
            have free : shared.lock = false := Bool.eq_false_of_not_eq_true enabled
            refine ⟨.acquires _ free rfl rfl rfl rfl ?_, ring, trivial⟩
            rw [ring]
            exact section_ahead (.produce ns)
      | stop =>
          cases stepped
          exact ⟨.passes rfl rfl rfl, ring, fresh_loads shared.history⟩
      | go | produced | dropped | buffered => contradiction
  | producing pid plan =>
      cases plan with
      | nil =>
          cases stepped
          exact ⟨.releases rfl rfl rfl rfl, ring, trivial⟩
      | cons store rest =>
          cases stepped
          exact ⟨.stores store rest rfl rfl rfl rfl, stored store, trivial⟩
  | drain =>
      change (if shared.lock then none else some (({ shared with lock := true } : Shared),
        Pc.draining (storesOf shared.ring .drain))) = some (next, moved) at stepped
      split at stepped
      · contradiction
      · rename_i enabled
        cases stepped
        have free : shared.lock = false := Bool.eq_false_of_not_eq_true enabled
        refine ⟨.acquires _ free rfl rfl rfl rfl ?_, ring, trivial⟩
        rw [ring]
        exact section_ahead .drain
  | draining plan =>
      cases plan with
      | nil =>
          cases stepped
          exact ⟨.releases rfl rfl rfl rfl, ring, trivial⟩
      | cons store rest =>
          cases stepped
          exact ⟨.stores store rest rfl rfl rfl rfl, stored store, trivial⟩
  | drained | shown reader start text => contradiction
  | reading reader loads =>
      obtain ⟨after, own, same⟩ := Option.map_eq_some_iff.mp stepped
      cases same
      obtain ⟨known, out⟩ := readingStep_fact ring fact own
      exact ⟨.passes rfl rfl out, ring, known⟩

end Steps

/-! ## Runs -/

structure Faithful (s : System) : Prop where
  ring : s.shared.ring = told s.shared.history
  coherent : Coherent ringSections s.shared.lock s.shared.history s.parties
  facts : ∀ pc ∈ s.parties, PcFact s.shared.history pc

theorem faithful_initial : Faithful System.initial := by
  refine ⟨rfl, ⟨rfl, fun _ => ⟨rfl, Nat.le_refl _, Nat.zero_le _, [], rfl⟩, nofun, ?_⟩, nofun⟩
  intro front before
  rw [List.prefix_nil.mp before]
  exact ⟨Nat.le_refl _, Nat.zero_le _, Nat.le_refl _, Nat.zero_le _⟩

theorem step_faithful (s : System) (act : Act) (next : System) (faithful : Faithful s)
    (stepped : step s act = some next) : Faithful next := by
  obtain ⟨ring, coherent, facts⟩ := faithful
  cases act with
  | thread pid | drain =>
      cases stepped
      exact ⟨ring, coherent.enter rfl, forall_mem_spawn facts trivial⟩
  | status running pid =>
      cases stepped
      exact ⟨ring, coherent.enter rfl, forall_mem_spawn facts (fresh_loads s.shared.history)⟩
  | run i turn =>
      obtain ⟨pc, shared, moved, found, ran, rfl⟩ := Pool.act_eq_some stepped
      obtain ⟨stored, told, own⟩ := pcStep_store ring (facts pc (List.mem_of_getElem? found)) ran
      refine ⟨told, coherent.move found stored, forall_mem_set ?_ own⟩
      intro other member
      exact pcFact_grow (facts other member) stored.grows

/-! ## How far the counters may be apart -/

/-- What was numbered while a reader ran bounds how far what it shows as lost or
held may exceed what it shows as produced. -/
theorem shown_account {history : List Store} (accounted : Accounted history) {start p d : Nat}
    (sawP : Sees history start fun h => produced h = p)
    (sawD : Sees history start fun h => dropped h = d) :
    d + kept history ≤ p + produced (history.drop start) := by
  have atP := sawP.countP (· == Store.nextSeq)
  have atD := sawD.countP (· == Store.droppedCount)
  have numbered := countP_take_add_drop (· == Store.nextSeq) history start
  have low := accounted.low
  simp only [produced, dropped, List.count] at low ⊢
  omega

theorem shown_held {history : List Store} (safe : ∀ front, front <+: history → Accounted front)
    {start b : Nat} (sawB : Sees history start fun h => (told h).ringCount = b) :
    b ≤ ringSize ∧ b ≤ kept history := by
  obtain ⟨moment, _, _, rfl⟩ := sawB
  have accounted := safe (history.take moment) (List.take_prefix moment history)
  have earlier : kept (history.take moment) ≤ kept history :=
    (List.take_prefix moment history).sublist.count_le Store.ringCount
  exact ⟨accounted.bounded, Nat.le_trans accounted.held earlier⟩

/-- What a text shows, and how far its numbers may be apart. -/
def Shows (history : List Store) (start : Nat) (text : Bytes) : Reader → Prop
  | .status running pid =>
    ∃ p d b, text = statusText running pid (UInt64.ofNat p) (UInt64.ofNat d) b ∧
      Sees history start (fun h => produced h = p) ∧ Sees history start (fun h => dropped h = d) ∧
      Sees history start (fun h => (told h).ringCount = b) ∧ b ≤ ringSize ∧
      d + b ≤ p + produced (history.drop start) ∧
      (history.length = start → text = statusText running pid (told history).nextSeq
        (told history).droppedCount (told history).ringCount)
  | .stopping pid =>
    ∃ p d, text = stoppingLine pid (UInt64.ofNat p) (UInt64.ofNat d) ∧
      Sees history start (fun h => produced h = p) ∧ Sees history start (fun h => dropped h = d) ∧
      d ≤ p + produced (history.drop start)

theorem shows_of_fact {history : List Store} (safe : ∀ front, front <+: history → Accounted front)
    {reader : Reader} {start : Nat} {text : Bytes} (fact : TextFact history start text reader) :
    Shows history start text reader := by
  have whole := safe history (List.prefix_refl _)
  cases reader with
  | status running pid =>
      obtain ⟨p, d, b, same, sawP, sawD, sawB⟩ := fact
      have held := shown_held safe sawB
      have account := shown_account whole sawP sawD
      refine ⟨p, d, b, same, sawP, sawD, sawB, held.1, by omega, ?_⟩
      rintro rfl
      have counters := told_counters history
      rw [same, ← sawP.undisturbed, ← sawD.undisturbed, ← sawB.undisturbed, counters.1, counters.2]
  | stopping pid =>
      obtain ⟨p, d, same, sawP, sawD⟩ := fact
      have account := shown_account whole sawP sawD
      exact ⟨p, d, same, sawP, sawD, by omega⟩

/-- **What `status` and the last line of a producer show.** In every
interleaving of the stores of producers and drains with the loads of readers:
after every store the items kept and dropped are those numbered, but for one
under way; whenever the lock is free they are exactly those, and the ring is
what whole sections made of it.  Each number shown is that of a moment while the
reader ran; the ring shown holds sixteen items at most, and what is shown as
dropped and buffered exceeds what is shown as produced by no more than was
produced meanwhile; with no store meanwhile the text is that of one state. -/
theorem status_tells_history (acts : List Act) (last : System)
    (ran : run step System.initial acts = some last) :
    (∀ front, front <+: last.shared.history → Accounted front) ∧
      (last.shared.lock = false →
        produced last.shared.history = dropped last.shared.history + kept last.shared.history ∧
          ∃ sections, (ringRun sections).1 = last.shared.ring) ∧
      ∀ (i : Nat) reader start text, last.parties[i]? = some (.shown reader start text) →
        Shows last.shared.history start text reader := by
  have faithful := invariant_run step_faithful faithful_initial ran
  have safe := faithful.coherent.safe
  refine ⟨safe, ?_, ?_⟩
  · intro free
    have atRest := faithful.coherent.free free
    rw [faithful.ring]
    exact ⟨atRest.balance, atRest.reached⟩
  · intro i reader start text found
    exact shows_of_fact safe (faithful.facts _ (List.mem_of_getElem? found))

/-- Sixteen items, then two more between the first load of `status` and the
others: 16 produced, 2 dropped and 16 buffered. -/
def crossed : List Act :=
  [.thread 40, .status true 40] ++
    (List.replicate 16 (.run 0 (.pass 1) :: List.replicate 6 (.run 0 .go))).flatten ++
    .run 1 .produced ::
    (List.replicate 2 (.run 0 (.pass 2) :: List.replicate 6 (.run 0 .go))).flatten ++
  [.run 1 .dropped, .run 1 .buffered, .run 1 .go]

theorem status_tells_history_crossed :
    ∃ last, run step System.initial crossed = some last ∧
      Shows last.shared.history 0 (statusText true 40 16 2 16) (.status true 40) :=
  have ran := run_get step System.initial crossed (by decide +kernel)
  ⟨_, ran, (status_tells_history crossed _ ran).2.2 1 _ _ _ (by decide +kernel)⟩

end Kthreads.Status
