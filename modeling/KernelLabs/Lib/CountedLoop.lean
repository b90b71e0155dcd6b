import Mathlib.Data.List.Basic

/-!
# Counted loops, and two that work in place

`countedLoop` is `for (i = 0; i < n && go; i++)` over a state, `none` when the
body faults.  Its rule asks for an invariant that speaks of the index: what a
pass keeps holds when the loop ends, after the last pass or at the first state
that stops it.

The other loops run over a list in place: one applies a function to each entry
of the front, one exchanges the ends of the front inwards up to its half.
-/

set_option autoImplicit false

namespace CountedLoop

section Loop
variable {σ : Type*} (go : σ → Bool) (body : σ → Nat → Option σ)

/-- `remaining` passes from index `i` on. -/
def countedLoop : Nat → Nat → σ → Option σ
  | 0, _, s => some s
  | remaining + 1, i, s =>
    if go s then (body s i).bind (countedLoop remaining (i + 1)) else some s

variable {go body}

theorem countedLoop_from {Inv : Nat → σ → Prop} {remaining i : Nat} {s : σ} (here : Inv i s)
    (keep : ∀ k s, i ≤ k → k < i + remaining → go s = true → Inv k s →
      ∃ t, body s k = some t ∧ Inv (k + 1) t) :
    ∃ out last, countedLoop go body remaining i s = some out ∧ last ≤ i + remaining ∧
      Inv last out ∧ (last < i + remaining → go out = false) := by
  induction remaining generalizing i s with
  | zero => exact ⟨s, i, rfl, Nat.le_refl i, here, fun less => absurd less (Nat.lt_irrefl i)⟩
  | succ remaining ih =>
      cases going : go s with
      | false =>
          refine ⟨s, i, ?_, Nat.le_add_right _ _, here, fun _ => going⟩
          rw [countedLoop, going]
          rfl
      | true =>
          obtain ⟨t, passed, there⟩ := keep i s (Nat.le_refl i) (by omega) going here
          obtain ⟨out, last, ran, within, final, stopped⟩ :=
            ih there fun k s low high => keep k s (by omega) (by omega)
          refine ⟨out, last, ?_, by omega, final, fun less => stopped (by omega)⟩
          rw [countedLoop, going, if_pos rfl, passed, Option.bind_some, ran]

/-- The rule for the loop from index 0. -/
theorem countedLoop_rule {Inv : Nat → σ → Prop} {n : Nat} {s : σ} (start : Inv 0 s)
    (keep : ∀ k s, k < n → go s = true → Inv k s → ∃ t, body s k = some t ∧ Inv (k + 1) t) :
    ∃ out last, countedLoop go body n 0 s = some out ∧ last ≤ n ∧ Inv last out ∧
      (last < n → go out = false) := by
  have passes : ∀ k s, 0 ≤ k → k < 0 + n → go s = true → Inv k s →
      ∃ t, body s k = some t ∧ Inv (k + 1) t := fun k s _ high => keep k s (by omega)
  have ran := countedLoop_from start passes
  rwa [Nat.zero_add] at ran

variable (body) in
/-- `for (i = 0; i < n; i++)`. -/
def forLoop (n : Nat) (s : σ) : Option σ := countedLoop (fun _ => true) body n 0 s

theorem forLoop_rule {Inv : Nat → σ → Prop} {n : Nat} {s : σ} (start : Inv 0 s)
    (keep : ∀ k s, k < n → Inv k s → ∃ t, body s k = some t ∧ Inv (k + 1) t) :
    ∃ out, forLoop body n s = some out ∧ Inv n out := by
  obtain ⟨out, last, ran, within, final, stopped⟩ :=
    countedLoop_rule start fun k s inside (_ : (fun _ => true) s = true) => keep k s inside
  have atEnd : last = n := by
    rcases Nat.lt_or_eq_of_le within with early | late
    · exact Bool.noConfusion (stopped early)
    · exact late
  exact ⟨out, ran, atEnd ▸ final⟩

end Loop

section InPlace
variable {α : Type*}

def update (f : α → α) (xs : List α) (i : Nat) : Option (List α) :=
  (xs[i]?).map fun x => xs.set i (f x)

def exchange (xs : List α) (i j : Nat) : Option (List α) :=
  match xs[i]?, xs[j]? with
  | some x, some y => some ((xs.set i y).set j x)
  | _, _ => none

theorem update_spec (f : α → α) {xs : List α} {i : Nat} (inside : i < xs.length) :
    ∃ ys, update f xs i = some ys ∧ ys.length = xs.length ∧
      ∀ k, ys[k]? = if k = i then (xs[k]?).map f else xs[k]? := by
  refine ⟨xs.set i (f xs[i]), ?_, List.length_set, ?_⟩
  · rw [update, List.getElem?_eq_getElem inside, Option.map_some]
  · intro k
    rw [List.getElem?_set]
    by_cases same : k = i
    · subst same
      rw [if_pos rfl, if_pos rfl, if_pos inside, List.getElem?_eq_getElem inside, Option.map_some]
    · rw [if_neg (Ne.symm same), if_neg same]

theorem exchange_spec {xs : List α} {i j : Nat} (left : i < xs.length) (right : j < xs.length) :
    ∃ ys, exchange xs i j = some ys ∧ ys.length = xs.length ∧
      ∀ k, ys[k]? = if k = j then xs[i]? else if k = i then xs[j]? else xs[k]? := by
  refine ⟨(xs.set i xs[j]).set j xs[i], ?_, ?_, ?_⟩
  · simp only [exchange, List.getElem?_eq_getElem left, List.getElem?_eq_getElem right]
  · rw [List.length_set, List.length_set]
  · intro k
    rw [List.getElem?_set, List.getElem?_set, List.length_set]
    by_cases atRight : k = j
    · subst atRight
      rw [if_pos rfl, if_pos rfl, if_pos right, List.getElem?_eq_getElem left]
    · rw [if_neg (Ne.symm atRight), if_neg atRight]
      by_cases atLeft : k = i
      · subst atLeft
        rw [if_pos rfl, if_pos rfl, if_pos left, List.getElem?_eq_getElem right]
      · rw [if_neg (Ne.symm atLeft), if_neg atLeft]

/-- One pass over the first `n` entries. -/
theorem mapFront_spec (f : α → α) {xs : List α} {n : Nat} (inside : n ≤ xs.length) :
    ∃ ys, forLoop (update f) n xs = some ys ∧ ys.length = xs.length ∧
      ∀ k, ys[k]? = if k < n then (xs[k]?).map f else xs[k]? := by
  let Inv : Nat → List α → Prop := fun i ys => ys.length = xs.length ∧
    ∀ k, ys[k]? = if k < i then (xs[k]?).map f else xs[k]?
  have start : Inv 0 xs := ⟨rfl, fun k => (if_neg (Nat.not_lt_zero k)).symm⟩
  refine forLoop_rule start ?_
  rintro i ys below ⟨length, entries⟩
  have within : i < ys.length := by omega
  obtain ⟨zs, updated, sameLength, changed⟩ := update_spec f within
  refine ⟨zs, updated, sameLength.trans length, ?_⟩
  intro k
  rw [changed, entries]
  by_cases here : k = i
  · rw [if_pos here, if_neg (by omega), if_pos (by omega)]
  · rw [if_neg here]
    by_cases done : k < i
    · rw [if_pos done, if_pos (by omega)]
    · rw [if_neg done, if_neg (by omega)]

/-- The exchange of the ends, up to the half, reverses the first `n` entries: after
`i` passes `i` entries at either end have changed places. -/
theorem reverseFront_spec {xs : List α} {n : Nat} (inside : n ≤ xs.length) :
    ∃ ys, forLoop (fun ys i => exchange ys i (n - 1 - i)) (n / 2) xs = some ys ∧
      ys.length = xs.length ∧ ∀ k, ys[k]? = if k < n then xs[n - 1 - k]? else xs[k]? := by
  let Inv : Nat → List α → Prop := fun i ys => ys.length = xs.length ∧
    ∀ k, ys[k]? = if k < i ∨ n - i ≤ k ∧ k < n then xs[n - 1 - k]? else xs[k]?
  have start : Inv 0 xs := ⟨rfl, fun k => (if_neg (by omega)).symm⟩
  have swaps : ∀ i ys, i < n / 2 → Inv i ys →
      ∃ zs, exchange ys i (n - 1 - i) = some zs ∧ Inv (i + 1) zs := by
    rintro i ys below ⟨length, entries⟩
    have left : i < ys.length := by omega
    have right : n - 1 - i < ys.length := by omega
    obtain ⟨zs, exchanged, sameLength, changed⟩ := exchange_spec left right
    refine ⟨zs, exchanged, sameLength.trans length, ?_⟩
    intro k
    rw [changed, entries, entries, entries]
    by_cases right : k = n - 1 - i
    · rw [if_pos right, if_neg (by omega), if_pos (by omega), right]
      congr 1
      omega
    · rw [if_neg right]
      by_cases left : k = i
      · rw [if_pos left, if_neg (by omega), if_pos (by omega), left]
      · rw [if_neg left]
        by_cases done : k < i ∨ n - i ≤ k ∧ k < n
        · rw [if_pos done, if_pos (by omega)]
        · rw [if_neg done, if_neg (by omega)]
  obtain ⟨ys, ran, length, entries⟩ := forLoop_rule start swaps
  refine ⟨ys, ran, length, ?_⟩
  intro k
  rw [entries]
  by_cases front : k < n
  · rw [if_pos front]
    split
    · rfl
    · -- the entry in the middle of an odd number stays where it is
      congr 1
      omega
  · rw [if_neg front, if_neg (by omega)]

theorem mapFront_append (f : α → α) (front back : List α) :
    forLoop (update f) front.length (front ++ back) = some (front.map f ++ back) := by
  have inside : front.length ≤ (front ++ back).length := by simp
  obtain ⟨ys, ran, _, entries⟩ := mapFront_spec f inside
  rw [ran]
  congr 1
  apply List.ext_getElem?
  intro k
  rw [entries]
  by_cases here : k < front.length
  · rw [if_pos here, List.getElem?_append_left here,
      List.getElem?_append_left (by simpa using here), List.getElem?_map]
  · rw [if_neg here, List.getElem?_append_right (by omega),
      List.getElem?_append_right (by simpa using here), List.length_map]

theorem reverseFront_append (front back : List α) :
    forLoop (fun ys i => exchange ys i (front.length - 1 - i)) (front.length / 2) (front ++ back) =
      some (front.reverse ++ back) := by
  have inside : front.length ≤ (front ++ back).length := by simp
  obtain ⟨ys, ran, _, entries⟩ := reverseFront_spec inside
  rw [ran]
  congr 1
  apply List.ext_getElem?
  intro k
  rw [entries]
  by_cases here : k < front.length
  · rw [if_pos here, List.getElem?_append_left (by omega),
      List.getElem?_append_left (by simpa using here), List.getElem?_reverse here]
  · rw [if_neg here, List.getElem?_append_right (by omega),
      List.getElem?_append_right (by simpa using here), List.length_reverse]

end InPlace

end CountedLoop
