import KernelLabs.Kernel.Kstrtox

/-!
# Words and their terminators

What a C string is once its NUL is written, and which texts `sysfs_streq` takes
for a given word, before and after `strim`.
-/

set_option autoImplicit false

namespace Kernel

/-- The C string of a text and its NUL is the text. -/
theorem cstr_terminated {text : Bytes} (nonzero : 0 ∉ text) (rest : Bytes) :
    cstr (text ++ 0 :: rest) = text := by
  have all : ∀ c ∈ text, (c != 0) = true := by
    intro c member
    exact bne_iff_ne.mpr fun zero => nonzero (zero ▸ member)
  rw [cstr, List.takeWhile_append_of_pos all]
  simp

theorem sysfsStreq_iff {s t : Bytes} :
    sysfsStreq s t = true ↔ s = t ∨ s = t ++ [10] ∨ s ++ [10] = t := by
  induction s generalizing t with
  | nil =>
      simp only [sysfsStreq, Bool.or_eq_true, beq_iff_eq, List.nil_append]
      constructor
      · rintro (rfl | rfl)
        · exact Or.inl rfl
        · exact Or.inr (Or.inr rfl)
      · rintro (rfl | never | rfl)
        · exact Or.inl rfl
        · exact absurd never.symm (List.concat_ne_nil 10 t)
        · exact Or.inr rfl
  | cons a s ih =>
      cases t with
      | nil => simp [sysfsStreq]
      | cons b t =>
          simp only [sysfsStreq, Bool.and_eq_true, beq_iff_eq, ih, List.cons_append,
            List.cons.injEq]
          constructor
          · rintro ⟨rfl, same⟩
            simpa using same
          · rintro (⟨rfl, same⟩ | ⟨rfl, same⟩ | ⟨rfl, same⟩)
            · exact ⟨rfl, Or.inl same⟩
            · exact ⟨rfl, Or.inr (Or.inl same)⟩
            · exact ⟨rfl, Or.inr (Or.inr same)⟩

/-- A word that ends in no newline is matched with one or without. -/
theorem sysfsStreq_word {word : Bytes} (plain : word.getLast? ≠ some 10) {s : Bytes} :
    sysfsStreq s word = true ↔ s = word ∨ s = word ++ [10] := by
  rw [sysfsStreq_iff]
  constructor
  · rintro (same | newline | shorter)
    · exact Or.inl same
    · exact Or.inr newline
    · rw [← shorter, List.getLast?_concat] at plain
      exact absurd rfl plain
  · rintro (same | newline)
    · exact Or.inl same
    · exact Or.inr (Or.inl newline)

theorem strim_not_newline (s : Bytes) : ¬ [10] <:+ strim s := by
  have trimmed : (s.rdropWhile isspace).rdropWhile isspace = s.rdropWhile isspace :=
    List.rdropWhile_idempotent isspace s
  intro newline
  exact ne_newline_of_suffix trimmed (newline.trans (List.dropWhile_suffix isspace))

/-- What `strim` leaves is matched exactly. -/
theorem sysfsStreq_strim {word : Bytes} (plain : word.getLast? ≠ some 10) (s : Bytes) :
    sysfsStreq (strim s) word = true ↔ strim s = word := by
  rw [sysfsStreq_word plain]
  refine or_iff_left ?_
  intro newline
  exact strim_not_newline s (newline ▸ List.suffix_append word [10])

/-! ## Picking a word -/

section Pick
variable {β : Type*}

/-- The value of the first word that `sysfs_streq` takes for the text. -/
def pick (s : Bytes) : List (Bytes × β) → Option β
  | [] => none
  | (word, value) :: rest => if sysfsStreq s word then some value else pick s rest

/-- With words that end in no newline and differ from one another, the order of
the comparisons does not matter. -/
theorem pick_eq_some_iff {words : List (Bytes × β)} {s : Bytes}
    (plain : ∀ entry ∈ words, entry.1.getLast? ≠ some 10) (distinct : (words.map Prod.fst).Nodup)
    {value : β} :
    pick s words = some value ↔ ∃ word, (word, value) ∈ words ∧ (s = word ∨ s = word ++ [10]) := by
  induction words with
  | nil => simp [pick]
  | cons entry rest ih =>
      obtain ⟨first, own⟩ := entry
      have firstPlain := plain (first, own) List.mem_cons_self
      have restPlain : ∀ entry ∈ rest, entry.1.getLast? ≠ some 10 :=
        fun entry member => plain entry (List.mem_cons_of_mem _ member)
      obtain ⟨fresh, restDistinct⟩ := List.nodup_cons.mp distinct
      rw [pick]
      by_cases taken : sysfsStreq s first = true
      · have names := (sysfsStreq_word firstPlain).mp taken
        rw [if_pos taken]
        constructor
        · intro same
          exact ⟨first, Option.some.inj same ▸ List.mem_cons_self, names⟩
        · rintro ⟨word, member, otherNames⟩
          rcases List.mem_cons.mp member with same | later
          · rw [(Prod.mk.inj same).2]
          · -- two words taken for one text are the same word
            have wordPlain := restPlain _ later
            have equal : word = first := by
              rcases names with rfl | rfl <;> rcases otherNames with same | same
              · exact same.symm
              · rw [same, List.getLast?_concat] at firstPlain
                exact absurd rfl firstPlain
              · rw [← same, List.getLast?_concat] at wordPlain
                exact absurd rfl wordPlain
              · exact (List.append_cancel_right same).symm
            exact absurd (List.mem_map.mpr ⟨(word, value), later, equal⟩) fresh
      · rw [if_neg taken, ih restPlain restDistinct]
        have other : ¬ (s = first ∨ s = first ++ [10]) :=
          fun names => taken ((sysfsStreq_word firstPlain).mpr names)
        constructor
        · rintro ⟨word, later, names⟩
          exact ⟨word, List.mem_cons_of_mem _ later, names⟩
        · rintro ⟨word, member, names⟩
          rcases List.mem_cons.mp member with same | later
          · exact absurd ((Prod.mk.inj same).1 ▸ names) other
          · exact ⟨word, later, names⟩

end Pick

end Kernel
