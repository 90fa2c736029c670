import Mathlib.Data.List.Basic

/-! # Parallel iteration

A parallel iterator over a slice cuts it into contiguous pieces, again and again as workers become
idle, folds each piece on its own, and puts the results of neighbouring pieces together in order. An
error anywhere ends the iteration; of several errors any one may be returned.

* **`collect_eq_ok_iff`** — however the slice is cut, collecting results in parallel succeeds if and
  only if collecting them one after the other does, with the same list.
* **`error_of_collect`** — if it fails, it does so with the error of an item. -/

namespace AcceptXmr

/-- **A way to cut a slice**. The flag of a cut tells whose error is seen first. -/
inductive Split (α : Type) where
  | piece (items : List α)
  | halves (rightFirst : Bool) (left right : Split α)

namespace Split

variable {α β ε : Type}

/-- The slice that has been cut. -/
def items : Split α → List α
  | piece items => items
  | halves _ left right => left.items ++ right.items

/-- `filter(p).try_fold(Vec::new, |acc, a| acc.push(f(a)?))` on one piece. -/
def tryFold (p : α → Bool) (f : α → Except ε β) (items : List α) : Except ε (List β) :=
  (items.filter p).foldlM (fun acc a => return acc ++ [← f a]) []

/-- `try_reduce(Vec::new, append)` over the pieces. -/
def collect (p : α → Bool) (f : α → Except ε β) : Split α → Except ε (List β)
  | piece items => tryFold p f items
  -- Whichever half is done first, the results stand in the order of the items.
  | halves false left right => do
      let first ← collect p f left
      let second ← collect p f right
      return first ++ second
  | halves true left right => do
      let second ← collect p f right
      let first ← collect p f left
      return first ++ second

/-! ## Against the sequential list -/

/-- Two computations one after the other. -/
theorem bind_eq_ok_iff {γ : Type} {x : Except ε α} {g : α → Except ε γ} {c : γ} :
    x >>= g = .ok c ↔ ∃ a, x = .ok a ∧ g a = .ok c := by
  cases x with
  | error e => simp [bind, Except.bind]
  | ok a => simp [bind, Except.bind]

/-- Two pieces of a list are collected one after the other. -/
theorem mapM_append_eq_ok_iff {f : α → Except ε β} {as as' : List α} {bs : List β} :
    (as ++ as').mapM f = .ok bs ↔
      ∃ first second, as.mapM f = .ok first ∧ as'.mapM f = .ok second ∧ bs = first ++ second := by
  rw [List.mapM_append, bind_eq_ok_iff]
  simp only [bind_eq_ok_iff]
  constructor
  · rintro ⟨first, hfirst, second, hsecond, hbs⟩
    exact ⟨first, second, hfirst, hsecond, (Except.ok.inj hbs).symm⟩
  · rintro ⟨first, second, hfirst, hsecond, rfl⟩
    exact ⟨first, hfirst, second, hsecond, rfl⟩

/-- Folding by pushing onto a list is collecting behind it. -/
theorem foldlM_push_eq_ok_iff {f : α → Except ε β} {as : List α} {acc bs : List β} :
    as.foldlM (fun acc a => return acc ++ [← f a]) acc = .ok bs ↔
      ∃ rest, as.mapM f = .ok rest ∧ bs = acc ++ rest := by
  induction as generalizing acc with
  | nil =>
      rw [List.foldlM_nil, List.mapM_nil]
      constructor
      · intro h
        exact ⟨[], rfl, by rw [List.append_nil]; exact (Except.ok.inj h).symm⟩
      · rintro ⟨rest, hrest, rfl⟩
        rw [← Except.ok.inj hrest, List.append_nil]
        rfl
  | cons a as ih =>
      rw [List.foldlM_cons, List.mapM_cons]
      simp only [bind_eq_ok_iff]
      constructor
      · rintro ⟨acc', ⟨b, hb, hacc⟩, hrest⟩
        obtain rfl := Except.ok.inj hacc
        obtain ⟨rest, hmap, rfl⟩ := ih.mp hrest
        exact ⟨b :: rest, ⟨b, hb, rest, hmap, rfl⟩, by rw [List.append_assoc]; rfl⟩
      · rintro ⟨_, ⟨b, hb, rest, hrest, hcons⟩, rfl⟩
        obtain rfl := Except.ok.inj hcons
        refine ⟨acc ++ [b], ⟨b, hb, rfl⟩, ih.mpr ⟨rest, hrest, ?_⟩⟩
        rw [List.append_assoc]
        rfl

/-- **However a slice is cut**, collecting succeeds as it does one after the other, with the same
list. -/
theorem collect_eq_ok_iff {p : α → Bool} {f : α → Except ε β} {split : Split α} {bs : List β} :
    split.collect p f = .ok bs ↔ (split.items.filter p).mapM f = .ok bs := by
  induction split generalizing bs with
  | piece items =>
      rw [collect, tryFold, foldlM_push_eq_ok_iff]
      simp [Split.items]
  | halves rightFirst left right ihl ihr =>
      rw [Split.items, List.filter_append, mapM_append_eq_ok_iff]
      simp only [← ihl, ← ihr]
      cases rightFirst with
      | false =>
          rw [collect, bind_eq_ok_iff]
          simp only [bind_eq_ok_iff]
          constructor
          · rintro ⟨first, hfirst, second, hsecond, hbs⟩
            exact ⟨first, second, hfirst, hsecond, (Except.ok.inj hbs).symm⟩
          · rintro ⟨first, second, hfirst, hsecond, rfl⟩
            exact ⟨first, hfirst, second, hsecond, rfl⟩
      | true =>
          rw [collect, bind_eq_ok_iff]
          simp only [bind_eq_ok_iff]
          constructor
          · rintro ⟨second, hsecond, first, hfirst, hbs⟩
            exact ⟨first, second, hfirst, hsecond, (Except.ok.inj hbs).symm⟩
          · rintro ⟨first, second, hfirst, hsecond, rfl⟩
            exact ⟨second, hsecond, first, hfirst, rfl⟩

/-- Either step of a computation may have failed. -/
theorem bind_eq_error {γ : Type} {x : Except ε α} {g : α → Except ε γ} {e : ε}
    (h : x >>= g = .error e) : x = .error e ∨ ∃ a, x = .ok a ∧ g a = .error e := by
  cases x with
  | error e' =>
      have he : e' = e := Except.error.inj h
      exact .inl (by rw [he])
  | ok a => exact .inr ⟨a, rfl, h⟩

/-- An error of the loop is an error for one of the elements. -/
theorem error_of_foldlM_push {f : α → Except ε β} {as : List α} {acc : List β} {e : ε}
    (h : as.foldlM (fun acc a => return acc ++ [← f a]) acc = .error e) : ∃ a, f a = .error e := by
  induction as generalizing acc with
  | nil => cases h
  | cons a as ih =>
      rw [List.foldlM_cons] at h
      rcases bind_eq_error h with hpush | ⟨acc', -, hrest⟩
      · rcases bind_eq_error hpush with ha | ⟨b, -, hpure⟩
        · exact ⟨a, ha⟩
        · cases hpure
      · exact ih hrest

/-- An error of the whole iteration is the error of some item. -/
theorem error_of_collect {p : α → Bool} {f : α → Except ε β} {split : Split α} {e : ε}
    (h : split.collect p f = .error e) : ∃ a, f a = .error e := by
  induction split with
  | piece items => exact error_of_foldlM_push h
  | halves rightFirst left right ihl ihr =>
      cases rightFirst with
      | false =>
          rcases bind_eq_error h with hleft | ⟨first, -, hrest⟩
          · exact ihl hleft
          · rcases bind_eq_error hrest with hright | ⟨second, -, hpure⟩
            · exact ihr hright
            · cases hpure
      | true =>
          rcases bind_eq_error h with hright | ⟨second, -, hrest⟩
          · exact ihr hright
          · rcases bind_eq_error hrest with hleft | ⟨first, -, hpure⟩
            · exact ihl hleft
            · cases hpure

end Split

end AcceptXmr
