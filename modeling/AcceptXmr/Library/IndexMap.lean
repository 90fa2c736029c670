import Mathlib.Data.List.Nodup

/-! # Maps with positions

An association list with distinct keys whose entries are also reached by position: the `IndexMap` of
the crate of that name. New keys go to the end; `swapRemove` moves the last entry into the place of
the removed one, and `shiftRemoveIndex` moves up those behind it.

* **`entries_swapRemove`** — what stands before the removed entry stays, and the rest is the same up
  to order. -/

namespace AcceptXmr

/-- A list around one of its positions. -/
theorem split_of_getElem? {α : Type} {l : List α} {i : ℕ} {e : α} (h : l[i]? = some e) :
    l = l.take i ++ e :: l.drop (i + 1) ∧ (l.take i).length = i := by
  obtain ⟨hlt, rfl⟩ := List.getElem?_eq_some_iff.mp h
  refine ⟨?_, List.length_take_of_le (Nat.le_of_lt hlt)⟩
  rw [← List.drop_eq_getElem_cons hlt, List.take_append_drop]

section SwapRemove

variable {α : Type}

/-- Remove the element at a position, moving the last one into its place. -/
def swapRemoveAt (l : List α) (i : ℕ) : List α :=
  match l.getLast? with
  | none => []
  | some last => (l.set i last).dropLast

/-- **Removing by swapping** keeps what stands before and permutes what stands behind. -/
theorem swapRemoveAt_append (front : List α) (x : α) (back : List α) :
    ∃ rest, rest.Perm back ∧ swapRemoveAt (front ++ x :: back) front.length = front ++ rest := by
  rcases List.eq_nil_or_concat back with rfl | ⟨init, last, rfl⟩
  · exact ⟨[], .refl _, by simp [swapRemoveAt]⟩
  · rw [List.concat_eq_append]
    refine ⟨[last] ++ init, List.perm_append_comm, ?_⟩
    have hlast : (front ++ x :: (init ++ [last])).getLast? = some last := by
      rw [List.getLast?_append, List.getLast?_cons, List.getLast?_append]
      simp
    simp only [swapRemoveAt, hlast]
    rw [List.set_append_right _ _ (Nat.le_refl _), Nat.sub_self, List.set_cons_zero,
      List.dropLast_append_of_ne_nil (by simp), ← List.cons_append, List.dropLast_concat,
      List.singleton_append]

end SwapRemove

/-- A map whose entries have positions. -/
structure IndexMap (κ ν : Type) where
  entries : List (κ × ν)
  nodup : (entries.map Prod.fst).Nodup

namespace IndexMap

variable {κ ν : Type}

/-- The map without entries. -/
def empty : IndexMap κ ν := ⟨[], List.nodup_nil⟩

/-- The entry at a position. -/
def getIndex (m : IndexMap κ ν) (i : ℕ) : Option (κ × ν) := m.entries[i]?

/-- The keys, in order. -/
def keys (m : IndexMap κ ν) : List κ := m.entries.map Prod.fst

/-- Keep the entries whose key satisfies `p`. -/
def retain (p : κ → Bool) (m : IndexMap κ ν) : IndexMap κ ν :=
  ⟨m.entries.filter fun e => p e.1, m.nodup.sublist ((List.filter_sublist ..).map _)⟩

/-- Remove the entry at a position, moving up those behind it. -/
def shiftRemoveIndex (m : IndexMap κ ν) (i : ℕ) : Option ((κ × ν) × IndexMap κ ν) :=
  match m.entries[i]? with
  | none => none
  | some e => some (e, ⟨m.entries.eraseIdx i, m.nodup.sublist ((List.eraseIdx_sublist ..).map _)⟩)

/-- A key is retained if it was there and passes. -/
theorem mem_keys_retain {p : κ → Bool} {m : IndexMap κ ν} {k : κ} :
    k ∈ (m.retain p).keys ↔ k ∈ m.keys ∧ p k = true := by
  simp only [keys, retain, List.mem_map, List.mem_filter]
  constructor
  · rintro ⟨e, ⟨he, hp⟩, rfl⟩
    exact ⟨⟨e, he, rfl⟩, hp⟩
  · rintro ⟨⟨e, he, rfl⟩, hp⟩
    exact ⟨e, ⟨he, hp⟩, rfl⟩

/-- **Removing by position** takes one key away. -/
theorem mem_keys_shiftRemoveIndex {m m' : IndexMap κ ν} {i : ℕ} {e : κ × ν}
    (h : m.shiftRemoveIndex i = some (e, m')) {k : κ} :
    k ∈ m'.keys ↔ k ∈ m.keys ∧ k ≠ e.1 := by
  unfold shiftRemoveIndex at h
  split at h
  · cases h
  · rename_i e' hget
    cases h
    have hsplit : m.entries.map Prod.fst = (m.entries.take i).map Prod.fst ++
        e.1 :: (m.entries.drop (i + 1)).map Prod.fst := by
      rw [← List.map_cons, ← List.map_append, ← (split_of_getElem? hget).1]
    have hnodup := m.nodup
    rw [hsplit, List.nodup_append, List.nodup_cons] at hnodup
    obtain ⟨-, ⟨hback, -⟩, hfront⟩ := hnodup
    simp only [keys, List.eraseIdx_eq_take_drop_succ, List.map_append, List.mem_append, hsplit,
      List.mem_cons]
    constructor
    · rintro (hk | hk)
      · exact ⟨.inl hk, fun heq => hfront k hk e.1 List.mem_cons_self heq⟩
      · exact ⟨.inr (.inr hk), fun heq => hback (heq ▸ hk)⟩
    · rintro ⟨hk | hk | hk, hne⟩
      · exact .inl hk
      · exact absurd hk hne
      · exact .inr hk

variable [DecidableEq κ]

/-- Insert an entry: in place if the key is there, at the end if not. -/
def insert (m : IndexMap κ ν) (k : κ) (v : ν) : IndexMap κ ν :=
  if h : k ∈ m.entries.map Prod.fst then
    -- A key that is there keeps its place.
    ⟨m.entries.map fun e => if e.1 = k then (k, v) else e, by
      have hkeys : (m.entries.map fun e => if e.1 = k then (k, v) else e).map Prod.fst
          = m.entries.map Prod.fst := by
        rw [List.map_map]
        refine List.map_congr_left fun e _ => ?_
        by_cases he : e.1 = k <;> simp [he]
      rw [hkeys]
      exact m.nodup⟩
  else
    -- A new one comes last.
    ⟨m.entries ++ [(k, v)], by
      rw [List.map_append, List.map_singleton]
      exact m.nodup.append (List.nodup_singleton _) (by simpa using h)⟩

/-- Collect entries into a map. -/
def ofList (es : List (κ × ν)) : IndexMap κ ν := es.foldl (fun m e => m.insert e.1 e.2) empty

/-- An inserted key is there from then on. -/
theorem mem_keys_insert {m : IndexMap κ ν} {k k' : κ} {v : ν} :
    k' ∈ (m.insert k v).keys ↔ k' ∈ m.keys ∨ k' = k := by
  unfold insert keys
  split
  · rename_i h
    rw [List.map_map]
    have hkeys : m.entries.map (Prod.fst ∘ fun e => if e.1 = k then (k, v) else e)
        = m.entries.map Prod.fst := by
      refine List.map_congr_left fun e _ => ?_
      by_cases he : e.1 = k <;> simp [he]
    rw [hkeys]
    exact ⟨.inl, fun hor => hor.elim id fun heq => heq ▸ h⟩
  · rw [List.map_append, List.mem_append, List.map_singleton, List.mem_singleton]

/-- So are several keys that are inserted one after the other. -/
theorem mem_keys_foldl_insert {es : List (κ × ν)} {m : IndexMap κ ν} {k : κ} :
    k ∈ (es.foldl (fun m e => m.insert e.1 e.2) m).keys ↔ k ∈ m.keys ∨ k ∈ es.map Prod.fst := by
  induction es generalizing m with
  | nil => simp
  | cons e es ih =>
      rw [List.foldl_cons, ih, mem_keys_insert, List.map_cons, List.mem_cons, or_assoc]

/-- The keys of a collected map are those of its entries. -/
theorem mem_keys_ofList {es : List (κ × ν)} {k : κ} :
    k ∈ (ofList es).keys ↔ k ∈ es.map Prod.fst := by
  rw [ofList, mem_keys_foldl_insert]
  exact ⟨fun h => h.resolve_left List.not_mem_nil, .inr⟩

/-- A new key goes to the end. -/
theorem entries_insert {m : IndexMap κ ν} {k : κ} (h : k ∉ m.entries.map Prod.fst) (v : ν) :
    (m.insert k v).entries = m.entries ++ [(k, v)] := by
  rw [insert, dif_neg h]

/-- A new key is inserted behind all others. -/
theorem keys_insert {m : IndexMap κ ν} {k : κ} (h : k ∉ m.keys) (v : ν) :
    (m.insert k v).keys = m.keys ++ [k] := by
  rw [keys, entries_insert h, List.map_append, List.map_singleton, keys]

/-- The entries after the removal of a key. -/
def removed (m : IndexMap κ ν) (k : κ) : List (κ × ν) :=
  if k ∈ m.entries.map Prod.fst then
    swapRemoveAt m.entries ((m.entries.map Prod.fst).idxOf k)
  else m.entries

/-- The position of a key is where its entry stands. -/
theorem removed_eq {m : IndexMap κ ν} {front back : List (κ × ν)} {k : κ} {v : ν}
    (h : m.entries = front ++ (k, v) :: back) :
    ∃ rest, rest.Perm back ∧ m.removed k = front ++ rest := by
  have hnodup := m.nodup
  rw [h, List.map_append, List.map_cons, List.nodup_append] at hnodup
  have hfront : k ∉ front.map Prod.fst :=
    fun hmem => hnodup.2.2 k hmem k List.mem_cons_self rfl
  have hidx : (m.entries.map Prod.fst).idxOf k = front.length := by
    rw [h, List.map_append, List.map_cons, List.idxOf_append_of_notMem hfront,
      List.idxOf_cons_self, List.length_map, Nat.add_zero]
  have hmem : k ∈ m.entries.map Prod.fst := by simp [h]
  rw [removed, if_pos hmem, hidx, h]
  exact swapRemoveAt_append front (k, v) back

/-- Removing a key keeps the others distinct. -/
theorem nodup_removed (m : IndexMap κ ν) (k : κ) : ((m.removed k).map Prod.fst).Nodup := by
  by_cases hmem : k ∈ m.entries.map Prod.fst
  · obtain ⟨⟨k', v⟩, he, rfl⟩ := List.mem_map.mp hmem
    obtain ⟨front, back, h⟩ := List.append_of_mem he
    obtain ⟨rest, hperm, hremoved⟩ := removed_eq h
    have hnodup := m.nodup
    rw [h] at hnodup
    rw [hremoved, ((hperm.append_left front).map Prod.fst).nodup_iff]
    exact hnodup.sublist (((List.sublist_cons_self _ _).append_left front).map _)
  · rw [removed, if_neg hmem]
    exact m.nodup

/-- Remove a key, moving the last entry into its place. -/
def swapRemove (m : IndexMap κ ν) (k : κ) : IndexMap κ ν := ⟨m.removed k, m.nodup_removed k⟩

/-- **Removing an entry** keeps those before it and permutes those behind it. -/
theorem entries_swapRemove {m : IndexMap κ ν} {front back : List (κ × ν)} {k : κ} {v : ν}
    (h : m.entries = front ++ (k, v) :: back) :
    ∃ rest, rest.Perm back ∧ (m.swapRemove k).entries = front ++ rest := removed_eq h

end IndexMap

end AcceptXmr
