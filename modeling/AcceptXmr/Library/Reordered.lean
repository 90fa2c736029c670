import Mathlib.Data.List.Perm.Basic

/-! # Lists up to the order within groups of one key

A list that is put together from hash maps, one after the other, has the entries of each map in some
order. `Reordered key` relates two such lists: the same groups follow each other, each of one key,
and only within a group the order may differ.

* **`Reordered.perm`** — reordered lists are permutations of each other.
* **`Reordered.filter`**, **`Reordered.map`**, **`Reordered.append`** — what keeps lists reordered. -/

namespace AcceptXmr

variable {α β γ : Type}

/-- Two lists are **reordered by a key**: they consist of the same groups, each of one key and listed
in some order. -/
inductive Reordered (key : α → β) : List α → List α → Prop where
  | nil : Reordered key [] []
  | group {l l' entries entries' : List α} (k : β) (h : Reordered key l l')
      (hkey : ∀ a ∈ entries, key a = k) (hperm : entries.Perm entries') :
      Reordered key (l ++ entries) (l' ++ entries')

namespace Reordered

variable {key : α → β} {l l' m m' : List α}

/-- One group. -/
theorem of_perm (k : β) (hkey : ∀ a ∈ l, key a = k) (hperm : l.Perm l') : Reordered key l l' :=
  .group k .nil hkey hperm

/-- Lists are reordered piece by piece. -/
theorem append (h : Reordered key l l') (hm : Reordered key m m') :
    Reordered key (l ++ m) (l' ++ m') := by
  induction hm with
  | nil => simpa using h
  | group k _ hkey hperm ih =>
      rw [← List.append_assoc, ← List.append_assoc]
      exact .group k ih hkey hperm

/-- A list is reordered as it stands. -/
theorem refl (l : List α) : Reordered key l l := by
  induction l with
  | nil => exact .nil
  | cons a l ih =>
      have hone : Reordered key [a] [a] :=
        .of_perm (key a) (fun b hb => by rw [List.mem_singleton.mp hb]) (.refl _)
      exact hone.append ih

/-- **Reordered lists are permutations** of each other. -/
theorem perm (h : Reordered key l l') : l.Perm l' := by
  induction h with
  | nil => exact .refl _
  | group k _ hkey hperm ih => exact ih.append hperm

/-- Leaving elements out by a test keeps the rest reordered. -/
theorem filter (p : α → Bool) (h : Reordered key l l') :
    Reordered key (l.filter p) (l'.filter p) := by
  induction h with
  | nil => exact .nil
  | group k _ hkey hperm ih =>
      rw [List.filter_append, List.filter_append]
      exact .group k ih (fun a ha => hkey a (List.mem_of_mem_filter ha)) (hperm.filter p)

/-- A function that keeps the key. -/
theorem map {key' : γ → β} (f : α → γ) (hf : ∀ a, key' (f a) = key a) (h : Reordered key l l') :
    Reordered key' (l.map f) (l'.map f) := by
  induction h with
  | nil => exact .nil
  | group k _ hkey hperm ih =>
      rw [List.map_append, List.map_append]
      refine .group k ih (fun b hb => ?_) (hperm.map f)
      obtain ⟨a, ha, rfl⟩ := List.mem_map.mp hb
      rw [hf]
      exact hkey a ha

end Reordered

end AcceptXmr
