import KernelLabs.ModuleParams.Device

/-!
# What reads of `/dev/module_params_demo` hand out

The loop that repeats the greeting stops early once the buffer is full.  With the
parameters unchanged the reads of an open file, whatever their sizes and whatever
is on their stacks, hand out one text from its beginning to its end.
-/

set_option autoImplicit false

namespace ModuleParams

open Kernel CountedLoop BoundedText Transducer

/-! ## One text -/

/-- The whole text before it is cut. -/
def Params.wholeText (params : Params) : Bytes :=
  (List.replicate (min params.repeatCount.toNat maxRepeat) params.line).flatten ++
    if params.verbose then params.diagnostics else []

/-- The text the device holds. -/
def Params.text (params : Params) : Bytes := params.wholeText.take 511

theorem reps_eq (params : Params) : params.reps = min params.repeatCount.toNat maxRepeat := by
  unfold Params.reps
  split <;> omega

theorem appendText_holds {text : Bytes} {kbuf : Bytes × Nat}
    (holds : Holds maxOutput text kbuf.1 kbuf.2) (more : Bytes) :
    ∃ next, appendText more kbuf = some next ∧ Holds maxOutput (text ++ more) next.1 next.2 := by
  obtain ⟨buf, returned, formatted, after, _⟩ := scnprintfAt_append holds (by decide) more
  exact ⟨(buf, kbuf.2 + returned), by rw [appendText, formatted, Option.map_some], after⟩

/-- Each pass adds a line; the loop ends after all of them or with a full buffer. -/
theorem greetings_hold (params : Params) {stack : Bytes} (size : stack.length = maxOutput) :
    ∃ kbuf, countedLoop (fun kbuf => decide (kbuf.2 < maxOutput - 1))
        (fun kbuf _ => appendText params.line kbuf) params.reps 0 (stack, 0) = some kbuf ∧
      Holds maxOutput (List.replicate params.reps params.line).flatten kbuf.1 kbuf.2 := by
  let Inv : Nat → Bytes × Nat → Prop := fun i kbuf =>
    Holds maxOutput (List.replicate i params.line).flatten kbuf.1 kbuf.2
  have start : Inv 0 (stack, 0) := holds_nil size
  have keep : ∀ i kbuf, i < params.reps → decide (kbuf.2 < maxOutput - 1) = true → Inv i kbuf →
      ∃ next, appendText params.line kbuf = some next ∧ Inv (i + 1) next := by
    intro i kbuf _ _ holds
    obtain ⟨next, appended, after⟩ := appendText_holds holds params.line
    refine ⟨next, appended, ?_⟩
    change Holds _ (List.replicate (i + 1) params.line).flatten _ _
    rw [List.replicate_succ', List.flatten_append, List.flatten_singleton]
    exact after
  obtain ⟨kbuf, last, ran, within, holds, stopped⟩ := countedLoop_rule start keep
  refine ⟨kbuf, ran, ?_⟩
  rcases Nat.lt_or_eq_of_le within with early | rfl
  · have full : maxOutput - 1 ≤ kbuf.2 := Nat.le_of_not_lt (of_decide_eq_false (stopped early))
    have rest : params.reps = last + (params.reps - last) := by omega
    rw [rest, ← List.replicate_append_replicate, List.flatten_append]
    exact holds.longer full _
  · exact holds

theorem formatText_holds (params : Params) {stack : Bytes} (size : stack.length = maxOutput) :
    ∃ kbuf len, formatText params stack = some (kbuf, len) ∧
      Holds maxOutput params.wholeText kbuf len := by
  obtain ⟨kbuf, ran, holds⟩ := greetings_hold params size
  rw [formatText, ran, Params.wholeText, ← reps_eq]
  dsimp only
  split
  · obtain ⟨next, appended, after⟩ := appendText_holds holds params.diagnostics
    exact ⟨next.1, next.2, appended, after⟩
  · rw [List.append_nil]
    exact ⟨kbuf.1, kbuf.2, rfl, holds⟩

theorem text_length_le (params : Params) : params.text.length ≤ 511 := List.length_take_le _ _

theorem formatText_text (params : Params) {stack : Bytes} (size : stack.length = maxOutput) :
    ∃ kbuf, formatText params stack = some (kbuf, params.text.length) ∧
      kbuf.length = maxOutput ∧ kbuf.take params.text.length = params.text := by
  obtain ⟨kbuf, len, formatted, holds⟩ := formatText_holds params size
  have length : len = params.text.length := by
    rw [holds.len_eq, Params.text, List.length_take]
    exact Nat.min_comm _ _
  exact ⟨kbuf, length ▸ formatted, holds.size, length ▸ holds.front⟩

/-! ## One read -/

/-- A read inside the text. -/
theorem moduleParamsRead_inside (params : Params) {ppos : Nat} (request : Request)
    (inside : ppos < params.text.length) :
    moduleParamsRead params ppos request =
      some (if request.missing ≠ 0 then (ppos, .error .efault)
        else (ppos + min request.count (params.text.length - ppos),
          .ok (slice request.count ppos params.text))) := by
  obtain ⟨kbuf, formatted, size, front⟩ := formatText_text params request.stack_length
  have room : params.text.length ≤ kbuf.length := by
    rw [size]
    exact (text_length_le params).trans (by decide)
  have count : (if params.text.length - ppos < request.count then params.text.length - ppos
      else request.count) = min request.count (params.text.length - ppos) := by
    split <;> omega
  have loaded : loadRange kbuf ppos (min request.count (params.text.length - ppos)) =
      some (slice request.count ppos params.text) := by
    have same : (kbuf.take params.text.length).drop ppos = params.text.drop ppos := by rw [front]
    rw [List.drop_take] at same
    rw [loadRange, if_pos (by omega), slice, slice, ← same, List.take_take]
  simp only [moduleParamsRead, formatted, count, loaded]
  rw [if_neg (by omega)]
  split
  · rfl
  · rfl

theorem moduleParamsRead_end (params : Params) {ppos : Nat} (request : Request)
    (atEnd : params.text.length ≤ ppos) :
    moduleParamsRead params ppos request = some (ppos, .ok []) := by
  obtain ⟨kbuf, formatted, _⟩ := formatText_text params request.stack_length
  simp only [moduleParamsRead, formatted]
  rw [if_pos atEnd]

/-! ## Any sequence of reads -/

def bytesOf : Except Errno Bytes → Bytes
  | .ok bytes => bytes
  | .error _ => []

/-- The bytes the reads returned, in order. -/
def received (replies : List (Except Errno Bytes)) : Bytes := replies.flatMap bytesOf

/-- The replies before the first 0. -/
def beforeEnd (replies : List (Except Errno Bytes)) : List (Except Errno Bytes) :=
  replies.takeWhile (· ≠ .ok [])

/-- What reads from position `ppos` have done when they end at `last`. -/
structure HandedOut (text : Bytes) (ppos : Nat) (requests : List Request) (last : Nat)
    (replies : List (Except Errno Bytes)) : Prop where
  position : ppos ≤ last ∧ last ≤ text.length
  front : received replies = (text.drop ppos).take (last - ppos)
  whole : .ok [] ∈ replies → received (beforeEnd replies) = text.drop ppos
  reached : text.length - ppos < requests.countP (·.missing == 0) → .ok [] ∈ replies

theorem handedOut_nil {text : Bytes} {ppos : Nat} (inside : ppos ≤ text.length) :
    HandedOut text ppos [] ppos [] := by
  refine ⟨⟨Nat.le_refl _, inside⟩, ?_, fun never => absurd never List.not_mem_nil, ?_⟩
  · rw [Nat.sub_self, List.take_zero]
    rfl
  · intro unasked
    exact absurd unasked (Nat.not_lt_zero _)

/-- A read that returns 0 has all of the text behind it. -/
theorem HandedOut.ended {text : Bytes} {ppos last : Nat} {requests : List Request}
    {replies : List (Except Errno Bytes)} (handed : HandedOut text ppos requests last replies)
    (atEnd : text.length ≤ ppos) (request : Request) :
    HandedOut text ppos (request :: requests) last (.ok [] :: replies) := by
  have nothing : text.drop ppos = [] := List.drop_eq_nil_of_le atEnd
  refine ⟨handed.position, ?_, fun _ => ?_, fun _ => List.mem_cons_self⟩
  · rw [← handed.front]
    rfl
  · rw [nothing]
    rfl

theorem HandedOut.failed {text : Bytes} {ppos last : Nat} {requests : List Request}
    {replies : List (Except Errno Bytes)} (handed : HandedOut text ppos requests last replies)
    {request : Request} (fault : request.missing ≠ 0) (e : Errno) :
    HandedOut text ppos (request :: requests) last (.error e :: replies) := by
  refine ⟨handed.position, handed.front, ?_, ?_⟩
  · intro ended
    have later : .ok [] ∈ replies := by simpa using ended
    rw [← handed.whole later]
    rfl
  · intro many
    have later := handed.reached (by simpa [List.countP_cons, fault] using many)
    exact List.mem_cons_of_mem _ later

/-- A read that returns some of the text goes on from where it stopped. -/
theorem HandedOut.moved {text : Bytes} {ppos last count : Nat} {requests : List Request}
    {replies : List (Except Errno Bytes)} {request : Request}
    (handed : HandedOut text (ppos + min count (text.length - ppos)) requests last replies)
    (inside : ppos < text.length) (positive : 1 ≤ count) :
    HandedOut text ppos (request :: requests) last
      (.ok (slice count ppos text) :: replies) := by
  have length := slice_length count ppos text
  have nonempty : slice count ppos text ≠ [] := by
    rw [← List.length_pos_iff, length]
    omega
  have pieces : text.drop ppos =
      slice count ppos text ++ text.drop (ppos + min count (text.length - ppos)) := by
    have clamped : slice count ppos text =
        (text.drop ppos).take (min count (text.length - ppos)) := by
      rw [slice, List.take_eq_take_iff, List.length_drop]
      omega
    rw [clamped, ← List.drop_drop, List.take_append_drop]
  have position := handed.position
  refine ⟨⟨by omega, position.2⟩, ?_, ?_, ?_⟩
  · have joined : received (.ok (slice count ppos text) :: replies) =
        slice count ppos text ++ received replies := rfl
    have rest : (text.drop ppos).take (last - ppos) = slice count ppos text ++
        (text.drop (ppos + min count (text.length - ppos))).take
          (last - (ppos + min count (text.length - ppos))) := by
      rw [pieces, List.take_append, List.take_of_length_le (by omega), length]
      congr 2
      omega
    rw [joined, handed.front, rest]
  · intro member
    have later : .ok [] ∈ replies := by simpa [Ne.symm nonempty] using member
    have joined : received (beforeEnd (.ok (slice count ppos text) :: replies)) =
        slice count ppos text ++ received (beforeEnd replies) := by
      simp [beforeEnd, nonempty, received, bytesOf]
    rw [joined, handed.whole later, pieces]
  · intro many
    rw [List.countP_cons] at many
    have fewer : text.length - (ppos + min count (text.length - ppos)) <
        requests.countP (·.missing == 0) := by
      split at many <;> omega
    exact List.mem_cons_of_mem _ (handed.reached fewer)

theorem reads_handedOut (params : Params) {requests : List Request}
    (asks : ∀ request ∈ requests, 1 ≤ request.count) {ppos : Nat}
    (inside : ppos ≤ params.text.length) :
    ∃ last replies, exec (moduleParamsRead params) ppos requests = some (last, replies) ∧
      HandedOut params.text ppos requests last replies := by
  induction requests generalizing ppos with
  | nil => exact ⟨ppos, [], rfl, handedOut_nil inside⟩
  | cons request rest ih =>
      have positive := asks request List.mem_cons_self
      have later {p : Nat} (within : p ≤ params.text.length) :=
        ih (fun other member => asks other (List.mem_cons_of_mem request member)) within
      rcases Nat.lt_or_eq_of_le inside with front | atEnd
      · have read := moduleParamsRead_inside params request front
        by_cases copied : request.missing = 0
        · rw [if_neg (not_not.mpr copied)] at read
          have within : ppos + min request.count (params.text.length - ppos) ≤
              params.text.length := by omega
          obtain ⟨last, replies, ran, handed⟩ := later within
          refine ⟨last, _, ?_, handed.moved front positive⟩
          simp only [exec, read, ran, Option.map_some]
        · rw [if_pos copied] at read
          obtain ⟨last, replies, ran, handed⟩ := later inside
          refine ⟨last, _, ?_, handed.failed copied .efault⟩
          simp only [exec, read, ran, Option.map_some]
      · have read := moduleParamsRead_end params request (Nat.le_of_eq atEnd.symm)
        obtain ⟨last, replies, ran, handed⟩ := later inside
        refine ⟨last, _, ?_, handed.ended (Nat.le_of_eq atEnd.symm) request⟩
        simp only [exec, read, ran, Option.map_some]

/-- **Text device.** Whatever is on the stack, the text built is the first 511
bytes of the repeated greeting and the diagnostics, inside the buffer; and reads
of at least one byte each hand it out: before the first 0 all of it. -/
theorem reads_give_text (params : Params) :
    (∀ stack : Bytes, stack.length = maxOutput → ∃ kbuf len,
      formatText params stack = some (kbuf, len) ∧ kbuf.length = 512 ∧ len ≤ 511 ∧
        kbuf.take len = params.wholeText.take 511) ∧
    ∀ requests : List Request, (∀ request ∈ requests, 1 ≤ request.count) → ∃ last replies,
      exec (moduleParamsRead params) 0 requests = some (last, replies) ∧
        received replies = (params.wholeText.take 511).take last ∧
        (.ok [] ∈ replies → received (beforeEnd replies) = params.wholeText.take 511) ∧
        ((params.wholeText.take 511).length < requests.countP (·.missing == 0) →
          .ok [] ∈ replies) := by
  refine ⟨?_, ?_⟩
  · intro stack size
    obtain ⟨kbuf, formatted, length, front⟩ := formatText_text params size
    exact ⟨kbuf, _, formatted, length, text_length_le params, front⟩
  · intro requests asks
    obtain ⟨last, replies, ran, handed⟩ := reads_handedOut params asks (Nat.zero_le _)
    exact ⟨last, replies, ran, handed.front, handed.whole, handed.reached⟩

/-- Thirty reads of four bytes each. -/
def fourByteReads : List Request :=
  List.replicate 30 ⟨4, 0, List.replicate maxOutput 170, List.length_replicate⟩

theorem reads_give_text_hello :
    ∃ last replies, exec (moduleParamsRead Params.initial) 0 fourByteReads = some (last, replies) ∧
      received (beforeEnd replies) = ascii "hello from module_params\n" := by
  have asks : ∀ request ∈ fourByteReads, 1 ≤ request.count := by
    intro request member
    rw [List.eq_of_mem_replicate member]
    decide
  obtain ⟨last, replies, ran, _, whole, reached⟩ :=
    (reads_give_text Params.initial).2 fourByteReads asks
  have enough : (Params.initial.wholeText.take 511).length <
      fourByteReads.countP (·.missing == 0) := by decide +kernel
  refine ⟨last, replies, ran, (whole (reached enough)).trans ?_⟩
  decide +kernel

end ModuleParams
