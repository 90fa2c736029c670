import AcceptXmr.Library.AssocMap
import Mathlib.Data.List.Induction

/-! # Counting with hash maps

How often each element occurs in a list, counted in a hash map with counters of a machine type, and
the comparison of two such maps. Lists that are short enough for the counters have equal maps exactly
if one is a permutation of the other.

* **`lookup_counts`** — what is counted.
* **`mapEq_iff`** — hash maps are equal if lookups are.
* **`mapEq_counts_iff`** — equal counts and permutations. -/

namespace AcceptXmr

namespace AssocMap

variable {κ ν : Type} [DecidableEq κ]

/-- `*m.entry(k).or_insert(0) += 1`. -/
def addOne : List (κ × Int32) → κ → List (κ × Int32)
  | [], k => [(k, 0 + 1)]
  | (k', n) :: m, k => if k' = k then (k', n + 1) :: m else (k', n) :: addOne m k

/-- Counting the elements of a list, one after the other. -/
def counts (as : List κ) : List (κ × Int32) := as.foldl addOne []

/-- `PartialEq for HashMap`: as many entries, and for every entry of the one the other has the same
value under the same key. -/
def mapEq [DecidableEq ν] (m m' : List (κ × ν)) : Bool :=
  m.length == m'.length && m.all fun e => m'.lookup e.1 == some e.2

/-! ## Lookups -/

/-- Counting one more key changes the count of that key only; a key that has not been counted yet begins
at zero. -/
theorem lookup_addOne (m : List (κ × Int32)) (k k' : κ) :
    (addOne m k).lookup k' = if k' = k then some ((m.lookup k).getD 0 + 1) else m.lookup k' := by
  induction m with
  | nil =>
      by_cases h : k' = k
      · simp [addOne, h]
      · simp [addOne, List.lookup_cons, beq_false_of_ne h, h]
  | cons e m ih =>
      obtain ⟨k₀, n⟩ := e
      by_cases h : k₀ = k
      · subst h
        by_cases h' : k' = k₀
        · simp [addOne, h']
        · simp [addOne, List.lookup_cons, beq_false_of_ne h', h']
      · by_cases h' : k' = k₀
        · subst h'
          simp [addOne, h]
        · have hb : (k' == k₀) = false := beq_false_of_ne h'
          have hb' : (k == k₀) = false := beq_false_of_ne (Ne.symm h)
          simp only [addOne, if_neg h, List.lookup_cons, hb, hb', ih]

/-- A key that is counted has a counter from then on. -/
theorem mem_keys_addOne {m : List (κ × Int32)} {k k' : κ} :
    k' ∈ keys (addOne m k) ↔ k' ∈ keys m ∨ k' = k := by
  induction m with
  | nil => simp [addOne]
  | cons e m ih =>
      obtain ⟨k₀, n⟩ := e
      by_cases h : k₀ = k
      · subst h
        simp only [addOne, if_true, keys_cons, List.mem_cons]
        tauto
      · simp only [addOne, if_neg h, keys_cons, List.mem_cons, ih]
        tauto

/-- No key has two counters. -/
theorem nodup_keys_addOne {m : List (κ × Int32)} (k : κ) (h : (keys m).Nodup) :
    (keys (addOne m k)).Nodup := by
  induction m with
  | nil => simp [addOne]
  | cons e m ih =>
      obtain ⟨k₀, n⟩ := e
      rw [keys_cons, List.nodup_cons] at h
      by_cases hk : k₀ = k
      · simpa only [addOne, if_pos hk, keys_cons, List.nodup_cons] using h
      · simp only [addOne, if_neg hk, keys_cons, List.nodup_cons, mem_keys_addOne]
        exact ⟨fun hmem => hmem.elim h.1 hk, ih h.2⟩

/-- Every element is counted once. -/
theorem nodup_keys_counts (as : List κ) : (keys (counts as)).Nodup := by
  induction as using List.reverseRecOn with
  | nil => exact .nil
  | append_singleton as a ih =>
      rw [counts, List.foldl_append]
      exact nodup_keys_addOne a ih

/-- **What is counted**: the occurrences of every element, and nothing else. -/
theorem lookup_counts (as : List κ) (k : κ) :
    (counts as).lookup k = if k ∈ as then some (Int32.ofNat (as.count k)) else none := by
  induction as using List.reverseRecOn with
  | nil => rfl
  | append_singleton as a ih =>
      have hcounts : counts (as ++ [a]) = addOne (counts as) a := by
        rw [counts, List.foldl_append]
        rfl
      simp only [hcounts, lookup_addOne, List.mem_append, List.mem_singleton, List.count_append,
        List.count_singleton]
      by_cases h : k = a
      · subst h
        rw [if_pos rfl, if_pos (.inr rfl), ih]
        by_cases hmem : k ∈ as
        · simp [hmem, Int32.ofNat_add]
        · simp [hmem, List.count_eq_zero_of_not_mem hmem]
      · have hb : (a == k) = false := beq_false_of_ne (Ne.symm h)
        simp [h, hb, ih]

/-! ## Equality -/

/-- What is looked up stands in the map. -/
theorem mem_of_lookup {m : List (κ × ν)} {k : κ} {v : ν} (h : m.lookup k = some v) : (k, v) ∈ m := by
  obtain ⟨l₁, l₂, rfl, -⟩ := List.lookup_eq_some_iff.mp h
  exact List.mem_append_right _ List.mem_cons_self

/-- What stands in a map without repeated keys is looked up. -/
theorem lookup_of_mem {m : List (κ × ν)} (hm : (keys m).Nodup) {k : κ} {v : ν} (h : (k, v) ∈ m) :
    m.lookup k = some v := by
  induction m with
  | nil => cases h
  | cons e m ih =>
      obtain ⟨k₀, v₀⟩ := e
      rw [keys_cons, List.nodup_cons] at hm
      rcases List.mem_cons.mp h with heq | h
      · cases heq
        exact List.lookup_cons_self
      · have hkey : k ∈ keys m := List.mem_map_of_mem h
        have hne : k ≠ k₀ := fun heq => hm.1 (heq ▸ hkey)
        rw [List.lookup_cons, beq_false_of_ne hne]
        exact ih hm.2 h

/-- **Maps are equal** if they have the same value under every key. -/
theorem mapEq_iff [DecidableEq ν] {m m' : List (κ × ν)} (hm : (keys m).Nodup)
    (hm' : (keys m').Nodup) : mapEq m m' = true ↔ ∀ k, m.lookup k = m'.lookup k := by
  simp only [mapEq, Bool.and_eq_true, beq_iff_eq, List.all_eq_true]
  constructor
  · rintro ⟨hlength, hall⟩ k
    have hsub : keys m ⊆ keys m' := by
      intro k hk
      obtain ⟨e, he, rfl⟩ := List.mem_map.mp hk
      exact List.mem_map_of_mem (mem_of_lookup (hall e he))
    -- The keys of the one are among those of the other, which has no more of them.
    have hkeys : (keys m).Perm (keys m') := by
      refine (List.subperm_of_subset hm hsub).perm_of_length_le ?_
      simp only [keys, List.length_map, hlength, Nat.le_refl]
    cases h : m.lookup k with
    | some v => exact (hall _ (mem_of_lookup h)).symm
    | none =>
        cases h' : m'.lookup k with
        | none => rfl
        | some v =>
            have hk : k ∈ keys m := hkeys.mem_iff.mpr (List.mem_map_of_mem (mem_of_lookup h'))
            obtain ⟨e, he, rfl⟩ := List.mem_map.mp hk
            rw [lookup_of_mem hm he] at h
            cases h
  · intro hlookup
    refine ⟨?_, fun e he => ?_⟩
    · have hkeys : (keys m).Perm (keys m') := by
        refine (List.perm_ext_iff_of_nodup hm hm').mpr fun k => ?_
        have hmem : ∀ {l : List (κ × ν)}, k ∈ keys l ↔ (l.lookup k).isSome := by
          intro l
          rw [List.lookup_isSome_iff, keys, List.mem_map]
          exact exists_congr fun e => and_congr_right fun _ => by rw [beq_iff_eq, eq_comm]
        rw [hmem, hmem, hlookup k]
      have hlength := hkeys.length_eq
      simpa only [keys, List.length_map] using hlength
    · rw [← hlookup, lookup_of_mem hm he]

/-- **Equal counts** are those of permutations, as long as no counter can overflow. -/
theorem mapEq_counts_iff {as bs : List κ} (has : as.length < Int32.size / 2) (hbs : bs.length < Int32.size / 2) :
    mapEq (counts as) (counts bs) = true ↔ as.Perm bs := by
  rw [mapEq_iff (nodup_keys_counts as) (nodup_keys_counts bs), List.perm_iff_count]
  refine forall_congr' fun k => ?_
  rw [lookup_counts, lookup_counts]
  have hpos : ∀ l : List κ, k ∈ l ↔ 0 < l.count k := fun l => List.count_pos_iff.symm
  have hlt : ∀ l : List κ, l.length < Int32.size / 2 → (Int32.ofNat (l.count k)).toInt = l.count k :=
    fun l hl => Int32.toInt_ofNat_of_lt (Nat.lt_of_le_of_lt List.count_le_length hl)
  by_cases ha : k ∈ as
  · by_cases hb : k ∈ bs
    · rw [if_pos ha, if_pos hb, Option.some.injEq]
      constructor
      · intro h
        have hint := congrArg Int32.toInt h
        rw [hlt as has, hlt bs hbs] at hint
        exact Int.ofNat_inj.mp hint
      · intro h
        rw [h]
    · rw [if_pos ha, if_neg hb]
      refine iff_of_false nofun fun h => hb ?_
      rwa [hpos, ← h, ← hpos]
  · rw [if_neg ha]
    by_cases hb : k ∈ bs
    · rw [if_pos hb]
      refine iff_of_false nofun fun h => ha ?_
      rwa [hpos, h, ← hpos]
    · rw [if_neg hb, List.count_eq_zero_of_not_mem ha, List.count_eq_zero_of_not_mem hb]
      simp

end AssocMap

end AcceptXmr
