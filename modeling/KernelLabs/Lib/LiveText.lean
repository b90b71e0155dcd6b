import KernelLabs.Lib.Observer

/-!
# Text read in pieces while it changes

A source renders its state afresh at every read, and a read hands out the slice
at the position the file has reached.  What a listing receives is the text of a
state only as long as each new text goes on where the old one stopped: it agrees
with the text served so far behind the position, or in front of it.

A read loads a first part of the state, the view, and renders the text later;
what else is read then may have changed in between.
-/

set_option autoImplicit false

namespace LiveText

open LabelledMachine

variable {σ α ν β : Type*}

structure Source (σ ν β : Type*) where
  -- `none` where the load is not possible.
  view : σ → Option ν
  render : ν → σ → List β

/-- The text of a state: its view and the rest taken at once. -/
def Source.text (source : Source σ ν β) (s : σ) : Option (List β) :=
  (source.view s).map fun v => source.render v s

/-- An open file and what its reads have handed out. -/
structure File (ν β : Type*) where
  ppos : Nat
  -- The view of a read that is under way.
  loaded : Option ν
  received : List β
  -- A read has returned nothing.
  ended : Bool
  deriving DecidableEq, Repr

def File.initial : File ν β := ⟨0, none, [], false⟩

inductive Act (α : Type*) where
  | env (a : α)
  | load
  | copy (count : Nat)
  deriving DecidableEq, Repr

def File.copied (file : File ν β) (count : Nat) (rendered : List β) : File ν β :=
  let bytes := (rendered.drop file.ppos).take count
  { ppos := file.ppos + bytes.length
    loaded := none
    received := file.received ++ bytes
    ended := bytes.isEmpty }

/-- The environment and one file; a read asks for at least one byte. -/
def step (env : σ → α → Option σ) (source : Source σ ν β) :
    σ × File ν β → Act α → Option (σ × File ν β)
  | (s, file), .env a => (env s a).map fun next => (next, file)
  | (s, file), .load =>
    if file.loaded.isSome ∨ file.ended then none
    else (source.view s).map fun v => (s, { file with loaded := some v })
  | (s, file), .copy count =>
    match file.loaded with
    | none => none
    | some v => if count = 0 then none else some (s, file.copied count (source.render v s))

/-- A read with nothing between its load and its copy hands out a slice of the
text. -/
theorem run_read {env : σ → α → Option σ} {source : Source σ ν β} {s : σ} {file : File ν β}
    {text : List β} (here : source.text s = some text) (idle : file.loaded = none)
    (going : file.ended = false) {count : Nat} (positive : count ≠ 0) :
    run (step env source) (s, file) [.load, .copy count] = some (s, file.copied count text) := by
  obtain ⟨v, view, rfl⟩ := Option.map_eq_some_iff.mp here
  have loads : step env source (s, file) .load = some (s, { file with loaded := some v }) := by
    simp [step, idle, going, view]
  have copies : step env source (s, { file with loaded := some v }) (.copy count) =
      some (s, file.copied count (source.render v s)) := by
    simp [step, positive, File.copied]
  exact (run_cons_eq_some _).mpr ⟨_, loads, (run_cons_eq_some _).mpr ⟨_, copies, rfl⟩⟩

/-! ## What a listing has to go by -/

structure History (σ β : Type*) where
  -- The states from the first read to the last.
  held : List σ
  -- The text that the bytes received are the front of.
  served : Option (List β)

def History.initial : History σ β := ⟨[], none⟩

variable [DecidableEq β]

def serve (ppos : Nat) (rendered : List β) : Option (List β) → List β
  | none => rendered
  | some old => if rendered.drop ppos = old.drop ppos then old else rendered

def watch (source : Source σ ν β) (p : σ × File ν β) (history : History σ β) :
    Act α → History σ β
  | .env _ =>
    if history.held.isEmpty ∨ p.2.ended then history
    else { history with held := history.held ++ [p.1] }
  | .load => { history with held := history.held ++ [p.1] }
  | .copy _ =>
    { held := history.held ++ [p.1]
      served := p.2.loaded.map fun v => serve p.2.ppos (source.render v p.1) history.served }

/-- The rendered text goes on with the text served so far, or it is the text of a
state since the first read and has the same front. -/
def GoesOn (source : Source σ ν β) (s : σ) (ppos : Nat) (history : History σ β)
    (rendered : List β) : Prop :=
  (∃ old ∈ history.served, rendered.drop ppos = old.drop ppos) ∨
    ((∃ t ∈ history.held ++ [s], source.text t = some rendered) ∧
      ∀ old ∈ history.served, rendered.take ppos = old.take ppos)

/-- Every copy of the listing goes on with it. -/
def Continues (source : Source σ ν β) (p : (σ × File ν β) × History σ β) : Act α → Prop
  | .copy _ => ∀ v ∈ p.1.2.loaded, GoesOn source p.1.1 p.1.2.ppos p.2 (source.render v p.1.1)
  | _ => True

instance (source : Source σ ν β) (s : σ) (ppos : Nat) (history : History σ β)
    (rendered : List β) : Decidable (GoesOn source s ppos history rendered) :=
  inferInstanceAs (Decidable (_ ∨ _))

instance (source : Source σ ν β) (p : (σ × File ν β) × History σ β) :
    ∀ act : Act α, Decidable (Continues source p act)
  | .copy _ => Option.decidableForallMem p.1.2.loaded
  | .env _ => isTrue trivial
  | .load => isTrue trivial

/-- One listing of a source beside its environment. -/
def listing (env : σ → α → Option σ) (source : Source σ ν β) :
    (σ × File ν β) × History σ β → Act α → Option ((σ × File ν β) × History σ β) :=
  observed (step env source) (watch source)

/-- The file has been opened and not read. -/
def opened (s : σ) : (σ × File ν β) × History σ β := ((s, File.initial), History.initial)

structure Consistent (source : Source σ ν β) (file : File ν β) (history : History σ β) : Prop where
  fresh : history.served = none → file.ppos = 0 ∧ file.received = [] ∧ file.ended = false
  text : ∀ old, history.served = some old → ∃ t ∈ history.held, source.text t = some old
  front : ∀ old, history.served = some old →
    file.ppos ≤ old.length ∧ file.received = old.take file.ppos
  complete : ∀ old, history.served = some old → file.ended = true → old.length ≤ file.ppos

omit [DecidableEq β] in
theorem consistent_initial (source : Source σ ν β) :
    Consistent source File.initial History.initial := by
  refine ⟨fun _ => ⟨rfl, rfl, rfl⟩, ?_, ?_, ?_⟩ <;> intro old never <;> cases never

omit [DecidableEq β] in
/-- A copy that goes on with `text` stays in front of it. -/
theorem copied_front {file : File ν β} {text rendered : List β} {count : Nat}
    (positive : count ≠ 0) (inside : file.ppos ≤ text.length)
    (front : file.received = text.take file.ppos)
    (same : rendered.drop file.ppos = text.drop file.ppos) :
    ((file.copied count rendered).ppos ≤ text.length ∧
        (file.copied count rendered).received = text.take (file.copied count rendered).ppos) ∧
      ((file.copied count rendered).ended = true →
        text.length ≤ (file.copied count rendered).ppos) := by
  have size : ((text.drop file.ppos).take count).length =
      min count (text.length - file.ppos) := by
    rw [List.length_take, List.length_drop]
  have clamped : (text.drop file.ppos).take (min count (text.length - file.ppos)) =
      (text.drop file.ppos).take count := by
    rw [List.take_eq_take_iff, List.length_drop]
    omega
  simp only [File.copied, same, size]
  refine ⟨⟨by omega, ?_⟩, fun ended => ?_⟩
  · rw [front, List.take_add, clamped]
  · rw [List.isEmpty_iff, List.take_eq_nil_iff, List.drop_eq_nil_iff] at ended
    omega

theorem Consistent.copy {source : Source σ ν β} {s : σ} {file : File ν β} {history : History σ β}
    (consistent : Consistent source file history) {rendered : List β} {count : Nat}
    (positive : count ≠ 0) (goesOn : GoesOn source s file.ppos history rendered) :
    Consistent source (file.copied count rendered)
      ⟨history.held ++ [s], some (serve file.ppos rendered history.served)⟩ := by
  obtain ⟨fresh, text, front, complete⟩ := consistent
  -- it is enough to name the text that the copy goes on with
  have build {whole : List β} (known : ∃ t ∈ history.held ++ [s], source.text t = some whole)
      (inside : file.ppos ≤ whole.length) (received : file.received = whole.take file.ppos)
      (same : rendered.drop file.ppos = whole.drop file.ppos) :
      Consistent source (file.copied count rendered) ⟨history.held ++ [s], some whole⟩ := by
    have after := copied_front positive inside received same
    refine ⟨?_, ?_, ?_, ?_⟩
    · intro never
      cases never
    · rintro old ⟨⟩
      exact known
    · rintro old ⟨⟩
      exact after.1
    · rintro old ⟨⟩
      exact after.2
  cases served : history.served with
  | none =>
      obtain ⟨start, nothing, _⟩ := fresh served
      rcases goesOn with ⟨old, here, _⟩ | ⟨known, _⟩
      · cases served.symm.trans here
      · refine build known (by omega) ?_ rfl
        rw [nothing, start, List.take_zero]
  | some old =>
      obtain ⟨inside, received⟩ := front old served
      by_cases same : rendered.drop file.ppos = old.drop file.ppos
      · obtain ⟨t, member, here⟩ := text old served
        rw [serve, if_pos same]
        exact build ⟨t, List.mem_append_left _ member, here⟩ inside received same
      · rcases goesOn with ⟨other, here, agrees⟩ | ⟨known, agrees⟩
        · cases served.symm.trans here
          exact absurd agrees same
        · have before := agrees old served
          have long : file.ppos ≤ rendered.length := by
            have lengths := congrArg List.length before
            rw [List.length_take, List.length_take] at lengths
            omega
          rw [serve, if_neg same]
          exact build known long (received.trans before.symm) rfl

variable {env : σ → α → Option σ} {source : Source σ ν β}

theorem step_consistent (p : (σ × File ν β) × History σ β) (act : Act α)
    (next : (σ × File ν β) × History σ β) (consistent : Consistent source p.1.2 p.2)
    (continues : Continues source p act)
    (stepped : listing env source p act = some next) :
    Consistent source next.1.2 next.2 := by
  obtain ⟨⟨s, file⟩, history⟩ := p
  obtain ⟨after, afterHistory⟩ := next
  obtain ⟨moved, rfl⟩ := observed_eq_some.mp stepped
  cases act with
  | env a =>
      obtain ⟨following, _, rfl⟩ := Option.map_eq_some_iff.mp moved
      obtain ⟨fresh, text, front, complete⟩ := consistent
      simp only [watch]
      split
      · exact ⟨fresh, text, front, complete⟩
      · refine ⟨fresh, fun old served => ?_, front, complete⟩
        obtain ⟨t, member, here⟩ := text old served
        exact ⟨t, List.mem_append_left _ member, here⟩
  | load =>
      simp only [step] at moved
      split at moved
      · contradiction
      · obtain ⟨v, _, rfl⟩ := Option.map_eq_some_iff.mp moved
        obtain ⟨fresh, text, front, complete⟩ := consistent
        refine ⟨fresh, fun old served => ?_, front, complete⟩
        obtain ⟨t, member, here⟩ := text old served
        exact ⟨t, List.mem_append_left _ member, here⟩
  | copy count =>
      simp only [step] at moved
      split at moved
      · contradiction
      · rename_i v loaded
        split at moved
        · contradiction
        · rename_i positive
          cases moved
          simp only [watch, loaded, Option.map_some]
          exact consistent.copy positive (continues v loaded)

/-- A listing whose copies all go on with it has received, when a read returns
nothing, the text of a state that held since its first read. -/
theorem received_eq_text {s : σ} {acts : List (Act α)} {last : σ} {file : File ν β}
    {history : History σ β}
    (ran : run (listing env source) (opened s) acts = some ((last, file), history))
    (continues : Meets (listing env source) (Continues source) (opened s) acts)
    (ended : file.ended = true) : ∃ t ∈ history.held, source.text t = some file.received := by
  have consistent : Consistent source file history :=
    invariant_meets (I := fun p => Consistent source p.1.2 p.2) step_consistent
      (consistent_initial source) continues ran
  obtain ⟨fresh, text, front, complete⟩ := consistent
  cases served : history.served with
  | none => exact absurd ended (by rw [(fresh served).2.2]; exact Bool.false_ne_true)
  | some old =>
      obtain ⟨t, member, here⟩ := text old served
      refine ⟨t, member, ?_⟩
      rw [here, (front old served).2, List.take_of_length_le (complete old served ended)]

end LiveText
