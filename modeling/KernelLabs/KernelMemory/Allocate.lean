import KernelLabs.Kernel.Text
import KernelLabs.KernelMemory.Unload

/-!
# `allocate_store`

What a write to `allocate` must look like to reach `do_allocate`: a word, a space
and a number, with white space around the whole and around the number.  Whatever
else is written fails before the lock is taken.
-/

set_option autoImplicit false

namespace KernelMemory

open Kernel

/-- `allocate_store` with the driver to itself. -/
def allocateStore (buf : Bytes) (answer : Answer) (slot : Slot) : Except Errno Nat × Slot :=
  match parseAllocate buf with
  | .error e => (.error e, slot)
  | .ok (type, size) =>
    match doAllocate type size answer slot with
    | (.error e, next) => (.error e, next)
    | (.ok (), next) => (.ok buf.length, next)

/-- It is the call that the writer makes: one section, or none. -/
theorem allocateStore_call (buf : Bytes) (answer : Answer) (shared : Shared) (i : Nat) :
    (∃ e, enterAllocate buf = .done e.code ∧
        allocateStore buf answer shared.slot = (.error e, shared.slot)) ∨
      ∃ moved, callStep i answer shared ⟨buf.length, enterAllocate buf⟩ =
          some ({ shared with slot := (allocateStore buf answer shared.slot).2 }, moved) ∧
        moved.pc = match (allocateStore buf answer shared.slot).1 with
          | .error e => .done e.code
          | .ok count => .done count := by
  unfold enterAllocate allocateStore
  cases parseAllocate buf with
  | error e => exact Or.inl ⟨e, rfl, rfl⟩
  | ok parsed =>
      obtain ⟨type, size⟩ := parsed
      refine Or.inr ?_
      simp only [callStep]
      cases doAllocate type size answer shared.slot with
      | mk ret next =>
          cases ret with
          | error e => exact ⟨_, rfl, rfl⟩
          | ok done => exact ⟨_, rfl, rfl⟩

/-! ## The grammar -/

def typeWords : List (Bytes × AllocType) :=
  [(ascii "kmalloc", .kmalloc), (ascii "vmalloc", .vmalloc), (ascii "cache", .cache)]

/-- The text asks `do_allocate` for this type and number. -/
def Asks (buf : Bytes) (type : AllocType) (size : UInt64) : Prop :=
  (1 ≤ buf.length ∧ buf.length ≤ 31) ∧
    ∃ w rest, strim (cstr buf) = w ++ 32 :: rest ∧ 32 ∉ w ∧
      (∃ word, (word, type) ∈ typeWords ∧ (w = word ∨ w = word ++ [10])) ∧
      kstrtoul 0 (strim rest) = .ok size

theorem split_at_space {w : Bytes} (noSpace : 32 ∉ w) (rest : Bytes) :
    (w ++ 32 :: rest).takeWhile (· != 32) = w ∧
      ((w ++ 32 :: rest).dropWhile (· != 32)).drop 1 = rest := by
  have all : ∀ c ∈ w, (c != 32) = true := by
    intro c member
    exact bne_iff_ne.mpr fun space => noSpace (space ▸ member)
  constructor
  · rw [List.takeWhile_append_of_pos all]
    simp
  · rw [List.dropWhile_append_of_pos all]
    simp

/-- Behind the bounds: the text is split at its first space. -/
theorem parseAllocate_split {buf w rest : Bytes} (bounds : ¬ (buf.length = 0 ∨ 32 ≤ buf.length))
    (parts : strim (cstr buf) = w ++ 32 :: rest) (noSpace : 32 ∉ w) :
    parseAllocate buf =
      match pick w typeWords with
      | none => .error .einval
      | some type =>
        match kstrtoul 0 (strim rest) with
        | .error e => .error e
        | .ok size => .ok (type, size) := by
  obtain ⟨name, sizeStr⟩ := split_at_space noSpace rest
  have space : ¬ 32 ∉ w ++ 32 :: rest := by simp
  unfold parseAllocate
  rw [if_neg bounds]
  dsimp only
  rw [parts, if_neg space, name, sizeStr]
  rfl

theorem parseAllocate_ok_iff {buf : Bytes} {type : AllocType} {size : UInt64} :
    parseAllocate buf = .ok (type, size) ↔ Asks buf type size := by
  by_cases bounds : buf.length = 0 ∨ 32 ≤ buf.length
  · rw [parseAllocate, if_pos bounds]
    refine iff_of_false ?_ ?_
    · intro same
      cases same
    · rintro ⟨within, _⟩
      omega
  · by_cases spaced : 32 ∈ strim (cstr buf)
    · obtain ⟨w, rest, parts, noSpace⟩ := List.eq_append_cons_of_mem spaced
      rw [parseAllocate_split bounds parts noSpace]
      have picked : pick w typeWords = some type ↔
          ∃ word, (word, type) ∈ typeWords ∧ (w = word ∨ w = word ++ [10]) :=
        pick_eq_some_iff (by decide) (by decide)
      constructor
      · intro parsed
        split at parsed
        · cases parsed
        · rename_i named
          split at parsed
          · cases parsed
          · rename_i number
            cases parsed
            exact ⟨by omega, w, rest, parts, noSpace, picked.mp named, number⟩
      · rintro ⟨_, w', rest', parts', noSpace', named, number⟩
        have same := parts.symm.trans parts'
        have sameName := (split_at_space noSpace rest).1
        have sameRest := (split_at_space noSpace rest).2
        rw [same, (split_at_space noSpace' rest').1] at sameName
        rw [same, (split_at_space noSpace' rest').2] at sameRest
        subst sameName sameRest
        rw [picked.mpr named, number]
    · have refused : parseAllocate buf = .error .einval := by
        unfold parseAllocate
        rw [if_neg bounds]
        exact if_pos spaced
      rw [refused]
      refine iff_of_false ?_ ?_
      · intro same
        cases same
      · rintro ⟨_, w, rest, parts, _⟩
        exact spaced (parts ▸ List.mem_append_right w List.mem_cons_self)

theorem enterAllocate_iff {buf : Bytes} {type : AllocType} {size : UInt64} :
    enterAllocate buf = .doAllocate type size ↔ Asks buf type size := by
  rw [← parseAllocate_ok_iff, enterAllocate]
  cases parseAllocate buf with
  | error e => simp
  | ok parsed =>
      obtain ⟨own, number⟩ := parsed
      simp

/-! ## What a write does -/

/-- An object of the cache has the cache's size, whatever size was asked for. -/
theorem doAllocate_cache {size : UInt64} {answer : Answer} {slot next : Slot}
    (allocated : doAllocate .cache size answer slot = (.ok (), next)) :
    next.curRequestedSize = cacheObjSize := by
  unfold doAllocate at allocated
  split at allocated
  · cases allocated
  · dsimp only at allocated
    split at allocated
    · cases allocated
    · split at allocated
      · cases allocated
        rfl
      · cases allocated

/-- **allocate.** `do_allocate` is called exactly for the texts of the grammar,
with the type and number they name; every other write fails and changes nothing;
a write that calls it succeeds when it does, and for `cache` the requested size
recorded is that of the cache's objects. -/
theorem allocate_store_grammar (buf : Bytes) (answer : Answer) (slot : Slot) :
    (∀ type size, enterAllocate buf = .doAllocate type size ↔ Asks buf type size) ∧
      ((∀ type size, ¬ Asks buf type size) →
        ∃ e, allocateStore buf answer slot = (.error e, slot)) ∧
      ∀ type size, Asks buf type size →
        ((allocateStore buf answer slot).1 = .ok buf.length ↔
          (doAllocate type size answer slot).1 = .ok ()) ∧
        (∀ e, (allocateStore buf answer slot).1 = .error e ↔
          (doAllocate type size answer slot).1 = .error e) ∧
        (allocateStore buf answer slot).2 = (doAllocate type size answer slot).2 ∧
        (type = .cache → (allocateStore buf answer slot).1 = .ok buf.length →
          (allocateStore buf answer slot).2.curRequestedSize = cacheObjSize) := by
  refine ⟨fun type size => enterAllocate_iff, ?_, ?_⟩
  · intro unasked
    unfold allocateStore
    cases parsed : parseAllocate buf with
    | error e => exact ⟨e, rfl⟩
    | ok asked =>
        obtain ⟨type, size⟩ := asked
        exact absurd (parseAllocate_ok_iff.mp parsed) (unasked type size)
  · intro type size asks
    rw [allocateStore, parseAllocate_ok_iff.mpr asks]
    dsimp only
    cases outcome : doAllocate type size answer slot with
    | mk ret next =>
        cases ret with
        | error e =>
            refine ⟨by simp, by simp, rfl, ?_⟩
            intro _ failed
            cases failed
        | ok done =>
            refine ⟨by simp, by simp, rfl, ?_⟩
            rintro rfl _
            exact doAllocate_cache outcome

theorem allocate_store_grammar_cache :
    enterAllocate (ascii "cache  0x40\n") = .doAllocate .cache 64 ∧
      (allocateStore (ascii "cache  0x40\n") ⟨⟨0, 9⟩, true, 0⟩ Slot.initial).2.curRequestedSize =
        cacheObjSize := by
  have asks : Asks (ascii "cache  0x40\n") .cache 64 :=
    ⟨by decide, ascii "cache", ascii " 0x40", by decide +kernel, by decide,
      ⟨ascii "cache", by decide, Or.inl rfl⟩, by decide +kernel⟩
  obtain ⟨exactly, _, asked⟩ :=
    allocate_store_grammar (ascii "cache  0x40\n") ⟨⟨0, 9⟩, true, 0⟩ Slot.initial
  exact ⟨(exactly _ _).mpr asks, (asked _ _ asks).2.2.2 rfl ((asked _ _ asks).1.mpr rfl)⟩

end KernelMemory
