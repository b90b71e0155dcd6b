import KernelLabs.Lib.Machine
import KernelLabs.Lib.Pool
import KernelLabs.Kthreads.Snapshot

/-!
# Concurrent reads at position 0 and the bound on `snapshot_len`

Any number of `kthread_demo_read` calls at position 0 run step by step: the
locked drain, the store of 0, each loop test, each evaluation of `scnprintf` on
the length it then reads, each addition of its result, and the final copy.  The
producer's critical section may fall between any two of them.

`scnprintf` is given the room that was left when it was evaluated, and the
result is added to the length found later.  The length stays inside the buffer
as long as it has not grown in between.
-/

set_option autoImplicit false

namespace Kthreads

open Kernel LabelledMachine PartyPool

/-- The shared variables of the read side; the bytes of `snapshot_buf` decide
nothing here. -/
structure RaceShared where
  ring : Ring
  snapshotLen : Nat

inductive ReaderPc where
  | drain
  | zero (items : List RingItem)
  | test (items : List RingItem)
  | format (item : RingItem) (rest : List RingItem)
  -- `scnprintf` was evaluated at length `evaluated` and returned `result`.
  | add (evaluated result : Nat) (rest : List RingItem)
  | copy
  -- `simple_read_from_buffer` was given this length.
  | done (available : Nat)
  deriving DecidableEq, Repr

/-- One atomic step of a read.  A size that is not positive makes `scnprintf`
return 0: as a `size_t` it is 0 or above `INT_MAX`, which `vsnprintf` refuses. -/
def readerStep (_reader : Nat) (_ : Unit) (shared : RaceShared) :
    ReaderPc → Option (RaceShared × ReaderPc)
  | .drain =>
    some ({ shared with ring := (drainSection shared.ring).2 },
      .zero (drainSection shared.ring).1)
  | .zero items => some ({ shared with snapshotLen := 0 }, .test items)
  | .test [] => some (shared, .copy)
  | .test (item :: rest) =>
    if shared.snapshotLen < snapshotBufSize then some (shared, .format item rest)
    else some (shared, .copy)
  | .format item rest =>
    some (shared, .add shared.snapshotLen
      (scnprintf (snapshotBufSize - shared.snapshotLen) (renderItem item)).length rest)
  | .add _ result rest =>
    some ({ shared with snapshotLen := shared.snapshotLen + result }, .test rest)
  | .copy => some (shared, .done shared.snapshotLen)
  | .done _ => none

abbrev Race := Pool RaceShared ReaderPc

def Race.initial : Race := ⟨⟨Ring.initial, 0⟩, []⟩

inductive RaceAct where
  | produce (ns : UInt64)
  | enter
  | step (reader : Nat)
  deriving DecidableEq, Repr

def raceStep (s : Race) : RaceAct → Option Race
  | .produce ns =>
    some { s with shared := { s.shared with ring := producerSection ns s.shared.ring } }
  | .enter => some (s.spawn .drain)
  | .step reader => s.act readerStep reader ()

/-- The addition finds a length no greater than the one `scnprintf` was
evaluated at. -/
def NotGrown (s : Race) : RaceAct → Prop
  | .step reader =>
    match s.parties[reader]? with
    | some (.add evaluated _ _) => s.shared.snapshotLen ≤ evaluated
    | _ => True
  | _ => True

instance (s : Race) (act : RaceAct) : Decidable (NotGrown s act) := by
  unfold NotGrown
  split
  · split <;> infer_instance
  · infer_instance

/-- A pending addition fits the room it was computed for, and a finished read
was given a length inside the buffer. -/
def ReaderPc.Fits : ReaderPc → Prop
  | .add evaluated result _ => evaluated + result < snapshotBufSize
  | .done available => available < snapshotBufSize
  | _ => True

structure Race.Bounded (s : Race) : Prop where
  len : s.shared.snapshotLen < snapshotBufSize
  readers : ∀ reader ∈ s.parties, reader.Fits

theorem bounded_initial : Race.initial.Bounded :=
  ⟨by decide, fun _ member => by simp [Race.initial] at member⟩

theorem format_fits (len : Nat) (item : RingItem) (inside : len < snapshotBufSize) :
    len + (scnprintf (snapshotBufSize - len) (renderItem item)).length < snapshotBufSize := by
  have written := scnprintf_length_le (snapshotBufSize - len) (renderItem item)
  omega

theorem readerStep_bounded {shared next : RaceShared} {pc moved : ReaderPc} {reader : Nat}
    (inside : shared.snapshotLen < snapshotBufSize) (fits : pc.Fits)
    (notGrown : ∀ evaluated result rest, pc = .add evaluated result rest →
      shared.snapshotLen ≤ evaluated)
    (stepped : readerStep reader () shared pc = some (next, moved)) :
    next.snapshotLen < snapshotBufSize ∧ moved.Fits := by
  cases pc with
  | drain =>
      cases stepped
      exact ⟨inside, trivial⟩
  | zero items =>
      cases stepped
      exact ⟨(by decide : 0 < snapshotBufSize), trivial⟩
  | test items =>
      cases items with
      | nil =>
          cases stepped
          exact ⟨inside, trivial⟩
      | cons item rest =>
          simp only [readerStep, inside, if_true] at stepped
          cases stepped
          exact ⟨inside, trivial⟩
  | format item rest =>
      cases stepped
      exact ⟨inside, format_fits shared.snapshotLen item inside⟩
  | add evaluated result rest =>
      cases stepped
      have small := notGrown evaluated result rest rfl
      have room : evaluated + result < snapshotBufSize := fits
      exact ⟨by dsimp only; omega, trivial⟩
  | copy =>
      cases stepped
      exact ⟨inside, inside⟩
  | done available => contradiction

theorem raceStep_bounded (s : Race) (act : RaceAct) (next : Race) (bounded : s.Bounded)
    (notGrown : NotGrown s act) (stepped : raceStep s act = some next) : next.Bounded := by
  cases act with
  | produce ns =>
      cases Option.some.inj stepped
      exact ⟨bounded.len, bounded.readers⟩
  | enter =>
      cases Option.some.inj stepped
      exact ⟨bounded.len, forall_mem_spawn bounded.readers trivial⟩
  | step reader =>
      obtain ⟨pc, shared, moved, found, own, rfl⟩ := Pool.act_eq_some stepped
      have fits := bounded.readers pc (List.mem_of_getElem? found)
      have ownGrown : ∀ evaluated result rest, pc = .add evaluated result rest →
          s.shared.snapshotLen ≤ evaluated := by
        rintro evaluated result rest rfl
        simpa only [NotGrown, found] using notGrown
      obtain ⟨len, movedFits⟩ := readerStep_bounded bounded.len fits ownGrown own
      exact ⟨len, forall_mem_set bounded.readers movedFits⟩

/-- In every run in which no addition finds a length that grew since its
`scnprintf` was evaluated, `snapshot_len` stays within the buffer and so does
every length `simple_read_from_buffer` is given. -/
theorem snapshot_len_bounded (acts : List RaceAct) (s : Race)
    (ran : run raceStep Race.initial acts = some s)
    (notGrown : Meets raceStep NotGrown Race.initial acts) :
    s.shared.snapshotLen ≤ snapshotBufSize ∧
      ∀ available, .done available ∈ s.parties → available ≤ snapshotBufSize := by
  have bounded := invariant_meets raceStep_bounded bounded_initial notGrown ran
  refine ⟨Nat.le_of_lt bounded.len, ?_⟩
  intro available member
  have fits : available < snapshotBufSize := bounded.readers _ member
  exact Nat.le_of_lt fits

/-- Two readers inside one another: reader 1 resets the length while reader 0 is
between its test and its `scnprintf`. -/
def interleavedReads : List RaceAct :=
  [.produce 5, .enter, .enter, .step 0, .step 0, .produce 6, .step 0, .step 1, .step 1, .step 0,
    .step 0, .step 1, .step 0, .step 1, .step 0, .step 1, .step 1, .step 1]

theorem interleavedReads_bounded :
    ∃ s, run raceStep Race.initial interleavedReads = some s ∧ .done 22 ∈ s.parties ∧
      s.shared.snapshotLen ≤ snapshotBufSize :=
  have ran := run_get raceStep Race.initial interleavedReads (by decide +kernel)
  ⟨_, ran, by decide +kernel, (snapshot_len_bounded _ _ ran (by decide +kernel)).1⟩

def passes (reader count : Nat) : List RaceAct :=
  (List.replicate count [.step reader, .step reader, .step reader]).flatten

/-- Two full drains whose renderings overlap: at length 614 both readers
evaluate `scnprintf` for a 26-byte line, get 25, and add it; reader 0 then goes
on to its copy. -/
def overlappingReads : List RaceAct :=
  let filled := (List.range 16).map fun i => RaceAct.produce (UInt64.ofNat (864000000000000 + i))
  filled ++ [.enter, .step 0, .step 0] ++ filled ++ [.enter, .step 1, .step 1] ++
    passes 0 15 ++ passes 1 9 ++ [.step 0, .step 0, .step 1, .step 1, .step 0, .step 1] ++
    [.step 0, .step 0]

theorem overlapping_reads_overrun :
    ∃ s, run raceStep Race.initial overlappingReads = some s ∧
      ¬ s.shared.snapshotLen ≤ snapshotBufSize ∧ .done 664 ∈ s.parties := by
  have reached : (run raceStep Race.initial overlappingReads).map
      (fun s => (s.shared.snapshotLen, s.parties[0]?)) = some (664, some (.done 664)) := by
    decide +kernel
  obtain ⟨s, ran, shown⟩ := Option.map_eq_some_iff.mp reached
  obtain ⟨len, reader⟩ := Prod.mk.inj shown
  exact ⟨s, ran, by rw [len]; decide, List.mem_of_getElem? reader⟩

end Kthreads
