import Mathlib.Data.List.Forall2

/-! # Collecting results

Applying a function that may fail to every element of a list, as `collect::<Result<Vec<_>, _>>` and
loops with the `?` operator do: all results, or the first error.

* **`mapM_eq_ok_iff`** — the results that are collected.
* **`exists_mapM_eq_ok_iff`** — when there are any.
* **`collect_map_eq_ok_iff`**, **`collect_map_eq_error_iff`** — the same where a function may also
  panic. -/

namespace AcceptXmr

namespace Collect

variable {α β ε : Type} {f : α → Except ε β}

/-- The first element decides first. -/
theorem mapM_cons_eq_ok_iff {a : α} {as : List α} {bs : List β} :
    (a :: as).mapM f = .ok bs ↔ ∃ b rest, f a = .ok b ∧ as.mapM f = .ok rest ∧ bs = b :: rest := by
  rw [List.mapM_cons]
  cases f a with
  | error e => exact ⟨nofun, nofun⟩
  | ok b =>
      cases as.mapM f with
      | error e => exact ⟨nofun, nofun⟩
      | ok rest =>
          constructor
          · intro h
            exact ⟨b, rest, rfl, rfl, (Except.ok.inj h).symm⟩
          · rintro ⟨b', rest', hb, hrest, rfl⟩
            cases hb
            cases hrest
            rfl

/-- **What is collected**: the result of every element, in order. -/
theorem mapM_eq_ok_iff {as : List α} {bs : List β} :
    as.mapM f = .ok bs ↔ List.Forall₂ (fun a b => f a = .ok b) as bs := by
  induction as generalizing bs with
  | nil =>
      rw [List.mapM_nil, List.forall₂_nil_left_iff]
      exact ⟨fun h => (Except.ok.inj h).symm, fun h => congrArg Except.ok h.symm⟩
  | cons a as ih =>
      rw [mapM_cons_eq_ok_iff, List.forall₂_cons_left_iff]
      constructor
      · rintro ⟨b, rest, hb, hrest, rfl⟩
        exact ⟨b, rest, hb, ih.mp hrest, rfl⟩
      · rintro ⟨b, rest, hb, hrest, rfl⟩
        exact ⟨b, rest, hb, ih.mpr hrest, rfl⟩

/-- **Nothing is collected** if there is an error for some element. -/
theorem exists_mapM_eq_ok_iff {as : List α} :
    (∃ bs, as.mapM f = .ok bs) ↔ ∀ a ∈ as, ∃ b, f a = .ok b := by
  induction as with
  | nil => exact ⟨fun _ => nofun, fun _ => ⟨[], rfl⟩⟩
  | cons a as ih =>
      rw [List.forall_mem_cons, ← ih]
      constructor
      · rintro ⟨bs, hbs⟩
        obtain ⟨b, rest, hb, hrest, -⟩ := mapM_cons_eq_ok_iff.mp hbs
        exact ⟨⟨b, hb⟩, rest, hrest⟩
      · rintro ⟨⟨b, hb⟩, rest, hrest⟩
        exact ⟨b :: rest, mapM_cons_eq_ok_iff.mpr ⟨b, rest, hb, hrest, rfl⟩⟩

/-- **A loop that only stops at errors** goes through all results if there is none. -/
theorem foldlM_map_ok {σ : Type} (g : σ → α → σ) (init : σ) (as : List α) :
    (as.map .ok).foldlM (fun s (result : Except ε α) => return g s (← result)) init
      = .ok (as.foldl g init) := by
  induction as generalizing init with
  | nil => rfl
  | cons a as ih =>
      rw [List.map_cons, List.foldlM_cons]
      exact ih (g init a)

/-- As many results as elements. -/
theorem length_of_mapM {as : List α} {bs : List β} (h : as.mapM f = .ok bs) :
    as.length = bs.length :=
  (mapM_eq_ok_iff.mp h).length_eq

/-- Every collected result is that of some element. -/
theorem mem_of_mapM {as : List α} {bs : List β} (h : as.mapM f = .ok bs) (b : β) :
    b ∈ bs ↔ ∃ a ∈ as, f a = .ok b := by
  induction as generalizing bs with
  | nil =>
      rw [List.mapM_nil] at h
      cases h
      simp
  | cons a as ih =>
      obtain ⟨b', rest, hb, hrest, rfl⟩ := mapM_cons_eq_ok_iff.mp h
      rw [List.mem_cons, ih hrest, List.exists_mem_cons_iff, hb, Except.ok.injEq]
      exact or_congr_left eq_comm

/-- An error is that of some element. -/
theorem error_of_mapM {as : List α} {e : ε} (h : as.mapM f = .error e) :
    ∃ a ∈ as, f a = .error e := by
  induction as with
  | nil =>
      rw [List.mapM_nil] at h
      cases h
  | cons a as ih =>
      rw [List.mapM_cons] at h
      cases hf : f a with
      | error e' =>
          rw [hf] at h
          cases h
          exact ⟨a, List.mem_cons_self, hf⟩
      | ok b =>
          cases hrest : as.mapM f with
          | ok rest =>
              rw [hf, hrest] at h
              cases h
          | error e' =>
              rw [hf, hrest] at h
              cases h
              obtain ⟨a', ha', h'⟩ := ih hrest
              exact ⟨a', List.mem_cons_of_mem a ha', h'⟩

/-! ## Items that may panic -/

/-- `collect::<Result<Vec<_>, _>>` of an iterator whose items may panic when they are asked for,
which is `none`. No item is asked for after the first error. -/
def collect : List (Option (Except ε α)) → Option (Except ε (List α))
  | [] => some (.ok [])
  | none :: _ => none
  | some (.error e) :: _ => some (.error e)
  | some (.ok a) :: items => (collect items).map fun result => result.map (a :: ·)

section MayPanic

variable {g : α → Option (Except ε β)}

/-- **What is collected** are the results of all elements. -/
theorem collect_map_eq_ok_iff {as : List α} {bs : List β} :
    collect (as.map g) = some (.ok bs) ↔ List.Forall₂ (fun a b => g a = some (.ok b)) as bs := by
  induction as generalizing bs with
  | nil =>
      rw [List.map_nil, collect, List.forall₂_nil_left_iff, Option.some.injEq, Except.ok.injEq]
      exact eq_comm
  | cons a as ih =>
      rw [List.map_cons, List.forall₂_cons_left_iff]
      constructor
      · intro h
        cases ha : g a with
        | none =>
            rw [ha] at h
            cases h
        | some result =>
            cases result with
            | error e =>
                rw [ha] at h
                cases h
            | ok b =>
                rw [ha, collect] at h
                obtain ⟨result, hrest, hresult⟩ := Option.map_eq_some_iff.mp h
                cases result with
                | error e => cases hresult
                | ok rest => exact ⟨b, rest, rfl, ih.mp hrest, (Except.ok.inj hresult).symm⟩
      · rintro ⟨b, rest, hb, hrest, rfl⟩
        rw [hb, collect, ih.mpr hrest]
        rfl

/-- **An error is collected** if it is the first element without a result that has it. -/
theorem collect_map_eq_error_iff {as : List α} {e : ε} :
    collect (as.map g) = some (.error e) ↔
      ∃ before a after, as = before ++ a :: after ∧
        (∀ a' ∈ before, ∃ b, g a' = some (.ok b)) ∧ g a = some (.error e) := by
  induction as with
  | nil =>
      constructor
      · nofun
      · rintro ⟨before, a, after, h, -⟩
        exact absurd h.symm (List.append_ne_nil_of_right_ne_nil _ (List.cons_ne_nil _ _))
  | cons a as ih =>
      rw [List.map_cons]
      constructor
      · intro h
        cases ha : g a with
        | none =>
            rw [ha] at h
            cases h
        | some result =>
            cases result with
            | error e' =>
                rw [ha] at h
                cases h
                exact ⟨[], a, as, rfl, List.forall_mem_nil _, ha⟩
            | ok b =>
                rw [ha, collect] at h
                obtain ⟨result, hrest, hresult⟩ := Option.map_eq_some_iff.mp h
                cases result with
                | ok rest => cases hresult
                | error e' =>
                    cases hresult
                    obtain ⟨before, a', after, rfl, hbefore, ha'⟩ := ih.mp hrest
                    exact ⟨a :: before, a', after, rfl,
                      List.forall_mem_cons.mpr ⟨⟨b, ha⟩, hbefore⟩, ha'⟩
      · rintro ⟨before, a', after, h, hbefore, ha'⟩
        cases before with
        | nil =>
            obtain ⟨rfl, -⟩ := List.cons.inj h
            rw [ha']
            rfl
        | cons first before =>
            obtain ⟨rfl, hrest⟩ := List.cons.inj h
            obtain ⟨⟨b, hb⟩, hbefore⟩ := List.forall_mem_cons.mp hbefore
            rw [hb, collect, ih.mpr ⟨before, a', after, hrest, hbefore, ha'⟩]
            rfl

end MayPanic

/-- **Flattening drops errors**: of an iterator of results, only what is there goes on. -/
theorem flatMap_toOption {results : List (Except ε α)} (h : α → β) :
    (results.flatMap fun result => (result.map h).toOption.toList)
      = (results.filterMap Except.toOption).map h := by
  induction results with
  | nil => rfl
  | cons result results ih =>
      rw [List.flatMap_cons, ih]
      cases result <;> rfl

end Collect

end AcceptXmr
