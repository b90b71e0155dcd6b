import KernelLabs.GpioCtrl.Status
import KernelLabs.RaceDemo.Read

/-!
# Listings of `/dev/race_demo` and `/dev/gpioctrl`

Both drivers render their state afresh at every `read` and copy the slice at the
file's position, so a listing in several reads is the text of one state only as
long as the text it meets goes on with the text it has served.
-/

set_option autoImplicit false

namespace ChunkedReads

open Kernel LabelledMachine LiveText

/-- What a copy of a listing does is `simple_read_from_buffer`. -/
theorem copied_simpleReadFromBuffer {ν : Type*} (file : File ν UInt8) (count : Nat)
    (rendered : Bytes) :
    ∃ bytes, simpleReadFromBuffer count file.ppos rendered 0 =
        .ok (bytes, (file.copied count rendered).ppos) ∧
      (file.copied count rendered).received = file.received ++ bytes ∧
      ((file.copied count rendered).ended = true ↔ bytes = []) :=
  ⟨slice count file.ppos rendered, simpleReadFromBuffer_copies count file.ppos rendered, rfl,
    List.isEmpty_iff⟩

/-- A read of `/dev/race_demo` that nothing comes into is `race_read`. -/
theorem run_raceRead {s : RaceDemo.System} {file : File RaceDemo.RaceMode UInt8}
    (idle : file.loaded = none) (going : file.ended = false) {count : Nat}
    (positive : count ≠ 0) :
    ∃ bytes after, run (LiveText.step RaceDemo.step RaceDemo.raceSource) (s, file)
        [.load, .copy count] = some (s, after) ∧
      RaceDemo.raceRead count file.ppos 0 s.shared = .ok (bytes, after.ppos) ∧
      after.received = file.received ++ bytes ∧ (after.ended = true ↔ bytes = []) := by
  obtain ⟨bytes, read, received, ended⟩ := copied_simpleReadFromBuffer file count
    (RaceDemo.counterText (RaceDemo.currentCounterValue s.shared))
  exact ⟨bytes, _, run_read (RaceDemo.raceSource_text s) idle going positive, read, received,
    ended⟩

/-- A read of `/dev/gpioctrl` that nothing comes into is `gpioctrl_read`. -/
theorem run_gpioctrlRead {board : GpioCtrl.Board} {t : GpioCtrl.Timed}
    {st : GpioCtrl.GpioctrlState} (held : t.system.shared.state = some st)
    {file : File GpioCtrl.GpioctrlState UInt8} (idle : file.loaded = none)
    (going : file.ended = false) {count : Nat} (positive : count ≠ 0) :
    ∃ bytes after, run (LiveText.step GpioCtrl.timedStep (GpioCtrl.statusSource board)) (t, file)
        [.load, .copy count] = some (t, after) ∧
      GpioCtrl.gpioctrlRead board count file.ppos 0 st t.now = .ok (bytes, after.ppos) ∧
      after.received = file.received ++ bytes ∧ (after.ended = true ↔ bytes = []) := by
  obtain ⟨bytes, read, received, ended⟩ := copied_simpleReadFromBuffer file count
    (GpioCtrl.statusText board st t.now)
  exact ⟨bytes, _, run_read (GpioCtrl.statusSource_text held) idle going positive, read, received,
    ended⟩

/-- **Chunked reads.** For both devices, whatever else runs: a listing whose
copies all go on with it has received, when a read returns 0, the text of one
state between its first and its last read. -/
theorem listing_is_text_of_one_state_while_continuing (mode : RaceDemo.RaceMode)
    (counterPlain counterAtomic resetCount : UInt64) (board : GpioCtrl.Board)
    (params : GpioCtrl.Params) (startNs : UInt64) (caller : Identity) (buttonValue : Int)
    (now : UInt64) :
    let raced := RaceDemo.System.initial mode counterPlain counterAtomic resetCount
    let driven := GpioCtrl.Timed.mk
      (GpioCtrl.System.initial params startNs caller buttonValue) now
    (∀ acts s file history,
      run (listing RaceDemo.step RaceDemo.raceSource) (opened raced) acts =
          some ((s, file), history) →
      Meets (listing RaceDemo.step RaceDemo.raceSource) (Continues RaceDemo.raceSource)
        (opened raced) acts →
      file.ended = true →
      ∃ t ∈ history.held, RaceDemo.raceSource.text t = some file.received) ∧
    ∀ acts t file history,
      run (listing GpioCtrl.timedStep (GpioCtrl.statusSource board)) (opened driven) acts =
          some ((t, file), history) →
      Meets (listing GpioCtrl.timedStep (GpioCtrl.statusSource board))
        (Continues (GpioCtrl.statusSource board)) (opened driven) acts →
      file.ended = true →
      ∃ t ∈ history.held, (GpioCtrl.statusSource board).text t = some file.received :=
  ⟨fun _ _ _ _ ran continues ended => received_eq_text ran continues ended,
    fun _ _ _ _ ran continues ended => received_eq_text ran continues ended⟩

/-- The counter goes from 15 to 16 when both digits are out. -/
def incrementedBehind : List (LiveText.Act RaceDemo.Act) :=
  [.load, .copy 1, .load, .copy 1, .env (.request (.dev 1)), .env (.call 0), .env (.call 0),
    .env (.call 0), .load, .copy 1, .load, .copy 1]

def board : GpioCtrl.Board := ⟨ascii "gpio-sim.0:node0", 20, 21⟩

/-- `poll_ms` of 500 as `insmod` leaves it, 5 ms after it was loaded. -/
def loadedDriver : GpioCtrl.Timed :=
  ⟨GpioCtrl.System.initial ⟨500, false⟩ 0 ⟨ascii "insmod", 100⟩ 0, 5000000⟩

/-- A shell sets `invert` when the whole status is out. -/
def invertedBehind : List (LiveText.Act GpioCtrl.TimedAct) :=
  [.load, .copy 512, .env (.driver (.writeAttr .invert ⟨ascii "sh", 7⟩ (ascii "1"))),
    .env (.driver (.call 0)), .load, .copy 512]

theorem listing_is_text_of_one_state_behind :
    (∃ s file history, run (listing RaceDemo.step RaceDemo.raceSource)
        (opened (RaceDemo.System.initial .none 15 0 0)) incrementedBehind =
          some ((s, file), history) ∧
      ∃ t ∈ history.held, RaceDemo.raceSource.text t = some file.received) ∧
    ∃ t file history, run (listing GpioCtrl.timedStep (GpioCtrl.statusSource board))
        (opened loadedDriver) invertedBehind = some ((t, file), history) ∧
      ∃ t ∈ history.held, (GpioCtrl.statusSource board).text t = some file.received := by
  have texts := listing_is_text_of_one_state_while_continuing .none 15 0 0 board ⟨500, false⟩ 0
    ⟨ascii "insmod", 100⟩ 0 5000000
  refine ⟨?_, ?_⟩
  · have ends : ∃ p ∈ run (listing RaceDemo.step RaceDemo.raceSource)
        (opened (RaceDemo.System.initial .none 15 0 0)) incrementedBehind,
        p.1.2.ended = true := by
      decide +kernel
    obtain ⟨⟨⟨s, file⟩, history⟩, ran, ended⟩ := ends
    exact ⟨s, file, history, ran,
      texts.1 incrementedBehind s file history ran (by decide +kernel) ended⟩
  · have ends : ∃ p ∈ run (listing GpioCtrl.timedStep (GpioCtrl.statusSource board))
        (opened loadedDriver) invertedBehind, p.1.2.ended = true := by
      decide +kernel
    obtain ⟨⟨⟨t, file⟩, history⟩, ran, ended⟩ := ends
    exact ⟨t, file, history, ran,
      texts.2 invertedBehind t file history ran (by decide +kernel) ended⟩

/-- The counter goes from 9 to 10 after the first read. -/
def incrementedBetween : List (LiveText.Act RaceDemo.Act) :=
  [.load, .copy 100, .env (.request (.dev 1)), .env (.call 0), .env (.call 0), .env (.call 0),
    .load, .copy 100, .load, .copy 100]

/-- A shell sets `poll_ms` to 1000 after the first read. -/
def slowedBetween : List (LiveText.Act GpioCtrl.TimedAct) :=
  [.load, .copy 512, .env (.driver (.writeAttr .pollMs ⟨ascii "sh", 7⟩ (ascii "1000"))),
    .env (.driver (.call 0)), .load, .copy 512, .load, .copy 512]

/-- A text that has grown by a digit yields its last byte once more. -/
theorem growing_text_repeats_newline :
    (∃ s file history, run (listing RaceDemo.step RaceDemo.raceSource)
        (opened (RaceDemo.System.initial .none 9 0 0)) incrementedBetween =
          some ((s, file), history) ∧
      file.ended = true ∧ file.received = ascii "9\n\n" ∧
      ¬ ∃ t ∈ history.held, RaceDemo.raceSource.text t = some file.received) ∧
    ∃ t file history, run (listing GpioCtrl.timedStep (GpioCtrl.statusSource board))
        (opened loadedDriver) slowedBetween = some ((t, file), history) ∧
      file.ended = true ∧
      some file.received =
        ((GpioCtrl.statusSource board).text loadedDriver).map (· ++ [10]) ∧
      ¬ ∃ t ∈ history.held, (GpioCtrl.statusSource board).text t = some file.received := by
  refine ⟨?_, ?_⟩
  · have fails : ∃ p ∈ run (listing RaceDemo.step RaceDemo.raceSource)
        (opened (RaceDemo.System.initial .none 9 0 0)) incrementedBetween,
        p.1.2.ended = true ∧ p.1.2.received = ascii "9\n\n" ∧
          ¬ ∃ t ∈ p.2.held, RaceDemo.raceSource.text t = some p.1.2.received := by
      decide +kernel
    obtain ⟨⟨⟨s, file⟩, history⟩, ran, wrong⟩ := fails
    exact ⟨s, file, history, ran, wrong⟩
  · have fails : ∃ p ∈ run (listing GpioCtrl.timedStep (GpioCtrl.statusSource board))
        (opened loadedDriver) slowedBetween,
        p.1.2.ended = true ∧
          some p.1.2.received =
            ((GpioCtrl.statusSource board).text loadedDriver).map (· ++ [10]) ∧
          ¬ ∃ t ∈ p.2.held, (GpioCtrl.statusSource board).text t = some p.1.2.received := by
      decide +kernel
    obtain ⟨⟨⟨t, file⟩, history⟩, ran, wrong⟩ := fails
    exact ⟨t, file, history, ran, wrong⟩

end ChunkedReads
