import Mathlib.Data.List.Perm.Basic
import Mathlib.Data.List.Nodup
import Mathlib.Data.List.Lookmap

/-! # Hash maps as association lists

The parts of a hash map interface that programs use to accumulate lists of values per key:
pushing onto an entry, keeping some keys, extending one map by another, and iterating over all
entries in an order that the map does not promise. A map is a list of key/value pairs; what a
lookup and what an iteration see are related by `flatMap_values_perm`. -/

namespace AcceptXmr

/-- An **iteration order**: some way of listing the entries of a map, each exactly once. -/
structure IterOrder (α : Type) where
  /-- The entries in the order in which they are visited. -/
  order : List α → List α
  /-- Every entry is visited, and visited once. -/
  perm : ∀ l, (order l).Perm l

/-- The order in which the entries happen to be stored. -/
def IterOrder.stored (α : Type) : IterOrder α := ⟨id, fun _ => .refl _⟩

/-- The opposite order. -/
def IterOrder.reversed (α : Type) : IterOrder α := ⟨List.reverse, List.reverse_perm⟩

instance (α : Type) : Inhabited (IterOrder α) := ⟨.stored α⟩

namespace AssocMap

open scoped List

variable {κ ν α : Type}

/-- The keys of a map. -/
def keys (m : List (κ × ν)) : List κ := m.map Prod.fst

/-- Keep the entries whose key satisfies `p`. -/
def retain (p : κ → Bool) (m : List (κ × ν)) : List (κ × ν) := m.filter fun e => p e.1

/-- An empty map has no keys. -/
@[simp] theorem keys_nil : keys ([] : List (κ × ν)) = [] := rfl

/-- The keys of a map with one more entry in front. -/
@[simp] theorem keys_cons (e : κ × ν) (m : List (κ × ν)) : keys (e :: m) = e.1 :: keys m := rfl

/-- The keys of two maps one behind the other. -/
@[simp] theorem keys_append (m m' : List (κ × ν)) : keys (m ++ m') = keys m ++ keys m' :=
  List.map_append

/-- Changing the values keeps the keys. -/
theorem keys_map {β : Type} (f : ν → β) (m : List (κ × ν)) :
    keys (m.map fun e => (e.1, f e.2)) = keys m := by
  simp [keys, Function.comp_def]

/-- `retain` keeps the keys that pass, in their order. -/
theorem keys_retain (p : κ → Bool) (m : List (κ × ν)) : keys (retain p m) = (keys m).filter p := by
  simp [keys, retain, List.filter_map, Function.comp_def]

/-- A key is retained if it was there and passes. -/
theorem mem_keys_retain {p : κ → Bool} {m : List (κ × ν)} {k : κ} :
    k ∈ keys (retain p m) ↔ k ∈ keys m ∧ p k = true := by
  rw [keys_retain, List.mem_filter]

/-- Changing the values and keeping some keys commute. -/
theorem retain_map {β : Type} (f : ν → β) (p : κ → Bool) (m : List (κ × ν)) :
    retain p (m.map fun e => (e.1, f e.2)) = (retain p m).map fun e => (e.1, f e.2) := by
  rw [retain, retain, List.filter_map]
  rfl

variable [DecidableEq κ]

/-- Append a value to the entry of `k`, creating the entry if there is none. -/
def pushEntry : List (κ × List α) → κ → α → List (κ × List α)
  | [], k, a => [(k, [a])]
  | (k', as) :: m, k, a => if k' = k then (k', as ++ [a]) :: m else (k', as) :: pushEntry m k a

/-- Push values one after the other, each onto the entry of its key. -/
def pushEntries (m : List (κ × List α)) (es : List (κ × α)) : List (κ × List α) :=
  es.foldl (fun m e => pushEntry m e.1 e.2) m

/-- Insert every entry of `new`, overwriting entries of `m` with the same key. -/
def extend (m new : List (κ × ν)) : List (κ × ν) :=
  retain (fun k => decide (k ∉ keys new)) m ++ new

/-- Keeping the keys that were kept changes nothing more. -/
theorem retain_mem_keys_retain (p : κ → Bool) (m : List (κ × ν)) :
    retain (fun k => decide (k ∈ keys (retain p m))) m = retain p m := by
  refine List.filter_congr fun e he => ?_
  have hkey : e.1 ∈ keys m := List.mem_map_of_mem he
  rw [Bool.eq_iff_iff, decide_eq_true_iff, mem_keys_retain]
  exact and_iff_right hkey

/-- Changing the values and extending commute. -/
theorem extend_map {β : Type} (f : ν → β) (m new : List (κ × ν)) :
    extend (m.map fun e => (e.1, f e.2)) (new.map fun e => (e.1, f e.2))
      = (extend m new).map fun e => (e.1, f e.2) := by
  rw [extend, extend, keys_map, retain_map, List.map_append]

/-- An entry after extending is one of the two maps'. -/
theorem mem_extend {m new : List (κ × ν)} {e : κ × ν} (h : e ∈ extend m new) : e ∈ m ∨ e ∈ new :=
  (List.mem_append.mp h).imp List.mem_of_mem_filter fun h => h

/-- Maps without a common key are put side by side. -/
theorem extend_of_disjoint {m new : List (κ × ν)} (h : ∀ k ∈ keys m, k ∉ keys new) :
    extend m new = m ++ new := by
  rw [extend, retain, List.filter_eq_self.mpr]
  intro e he
  exact decide_eq_true (h e.1 (List.mem_map_of_mem he))

/-- The values listed under a key, none if the key is absent. -/
def valuesAt (m : List (κ × List α)) (k : κ) : List α := (m.lookup k).getD []

/-- Nothing is found in an empty map. -/
@[simp] theorem valuesAt_nil (k : κ) : valuesAt ([] : List (κ × List α)) k = [] := rfl

/-- The first entry of a key is the one that is found. -/
theorem valuesAt_cons (e : κ × List α) (m : List (κ × List α)) (k : κ) :
    valuesAt (e :: m) k = if k = e.1 then e.2 else valuesAt m k := by
  obtain ⟨k', as⟩ := e
  by_cases h : k = k'
  · simp [valuesAt, h]
  · have hb : (k == k') = false := by simpa using h
    simp [valuesAt, List.lookup_cons, h, hb]

/-- Pushing onto an entry adds at most the entry's own key. -/
theorem mem_keys_pushEntry {m : List (κ × List α)} {k k' : κ} {a : α} :
    k' ∈ keys (pushEntry m k a) ↔ k' ∈ keys m ∨ k' = k := by
  induction m with
  | nil => simp [pushEntry]
  | cons e m ih =>
      obtain ⟨k₀, as⟩ := e
      by_cases h : k₀ = k
      · subst h
        simp only [pushEntry, if_true, keys_cons, List.mem_cons]
        tauto
      · simp only [pushEntry, if_neg h, keys_cons, List.mem_cons, ih]
        tauto

/-- Pushing onto an entry keeps the keys distinct. -/
theorem nodup_keys_pushEntry {m : List (κ × List α)} (k : κ) (a : α) (h : (keys m).Nodup) :
    (keys (pushEntry m k a)).Nodup := by
  induction m with
  | nil => simp [pushEntry]
  | cons e m ih =>
      obtain ⟨k₀, as⟩ := e
      rw [keys_cons, List.nodup_cons] at h
      by_cases hk : k₀ = k
      · simpa only [pushEntry, if_pos hk, keys_cons, List.nodup_cons] using h
      · simp only [pushEntry, if_neg hk, keys_cons, List.nodup_cons, mem_keys_pushEntry]
        exact ⟨fun hmem => hmem.elim h.1 hk, ih h.2⟩

/-- The values under a key after a push: the pushed value goes to the end of its own entry. -/
theorem valuesAt_pushEntry (m : List (κ × List α)) (k k' : κ) (a : α) :
    valuesAt (pushEntry m k a) k' = valuesAt m k' ++ if k' = k then [a] else [] := by
  induction m with
  | nil => simp [pushEntry, valuesAt_cons]
  | cons e m ih =>
      obtain ⟨k₀, as⟩ := e
      by_cases h : k₀ = k
      · by_cases h' : k' = k <;> simp [pushEntry, valuesAt_cons, h, h']
      · by_cases h' : k' = k₀
        · simp [pushEntry, valuesAt_cons, h, h']
        · simp [pushEntry, valuesAt_cons, h, h', ih]

/-- A value that is in an entry after a push was in the entry before, or is the pushed one. -/
theorem mem_of_mem_pushEntry {m : List (κ × List α)} {k : κ} {a b : α} {e : κ × List α}
    (he : e ∈ pushEntry m k a) (hb : b ∈ e.2) :
    (∃ e' ∈ m, e'.1 = e.1 ∧ b ∈ e'.2) ∨ (e.1 = k ∧ b = a) := by
  induction m with
  | nil =>
      obtain rfl := List.mem_singleton.mp he
      exact .inr ⟨rfl, List.mem_singleton.mp hb⟩
  | cons x m ih =>
      obtain ⟨k₀, as⟩ := x
      rw [pushEntry] at he
      split at he
      · rename_i hk
        rcases List.mem_cons.mp he with rfl | he
        · rcases List.mem_append.mp hb with hb | hb
          · exact .inl ⟨_, List.mem_cons_self, rfl, hb⟩
          · exact .inr ⟨hk, List.mem_singleton.mp hb⟩
        · exact .inl ⟨e, List.mem_cons_of_mem _ he, rfl, hb⟩
      · rcases List.mem_cons.mp he with rfl | he
        · exact .inl ⟨_, List.mem_cons_self, rfl, hb⟩
        · rcases ih he with ⟨e', he', hkey, hb'⟩ | hpushed
          · exact .inl ⟨e', List.mem_cons_of_mem _ he', hkey, hb'⟩
          · exact .inr hpushed

/-- Iterating over all entries after a push meets the old values and the pushed one. -/
theorem flatMap_pushEntry_perm (m : List (κ × List α)) (k : κ) (a : α) :
    ((pushEntry m k a).flatMap Prod.snd).Perm (m.flatMap Prod.snd ++ [a]) := by
  induction m with
  | nil => simp [pushEntry]
  | cons e m ih =>
      obtain ⟨k₀, as⟩ := e
      by_cases h : k₀ = k
      · simp only [pushEntry, if_pos h, List.flatMap_cons, List.append_assoc]
        exact List.Perm.append_left as List.perm_append_comm
      · simp only [pushEntry, if_neg h, List.flatMap_cons, List.append_assoc]
        exact ih.append_left as

/-- Without entries nothing is pushed. -/
@[simp] theorem pushEntries_nil (m : List (κ × List α)) : pushEntries m [] = m := rfl

/-- Entries are pushed one after the other. -/
@[simp] theorem pushEntries_cons (m : List (κ × List α)) (e : κ × α) (es : List (κ × α)) :
    pushEntries m (e :: es) = pushEntries (pushEntry m e.1 e.2) es := rfl

/-- Pushing adds the keys pushed under. -/
theorem mem_keys_pushEntries {m : List (κ × List α)} {es : List (κ × α)} {k : κ} :
    k ∈ keys (pushEntries m es) ↔ k ∈ keys m ∨ k ∈ keys es := by
  induction es generalizing m with
  | nil => simp
  | cons e es ih =>
      rw [pushEntries_cons, ih, mem_keys_pushEntry, keys_cons, List.mem_cons, or_assoc]

/-- A value that is in an entry after pushing many was in the entry before, or has been pushed under
its key. -/
theorem mem_of_mem_pushEntries {m : List (κ × List α)} {es : List (κ × α)} {e : κ × List α} {a : α}
    (he : e ∈ pushEntries m es) (ha : a ∈ e.2) :
    (∃ e' ∈ m, e'.1 = e.1 ∧ a ∈ e'.2) ∨ (e.1, a) ∈ es := by
  induction es generalizing m with
  | nil => exact .inl ⟨e, he, rfl, ha⟩
  | cons x es ih =>
      rcases ih he with ⟨e', he', hkey, ha'⟩ | hmem
      · rcases mem_of_mem_pushEntry he' ha' with ⟨e'', he'', hkey', ha''⟩ | ⟨hkey', rfl⟩
        · exact .inl ⟨e'', he'', hkey'.trans hkey, ha''⟩
        · refine .inr (List.mem_cons.mpr (.inl ?_))
          rw [← hkey, hkey']
      · exact .inr (List.mem_cons_of_mem _ hmem)

/-- Pushing entries keeps the keys distinct. -/
theorem nodup_keys_pushEntries {m : List (κ × List α)} (es : List (κ × α)) (h : (keys m).Nodup) :
    (keys (pushEntries m es)).Nodup := by
  induction es generalizing m with
  | nil => exact h
  | cons e es ih => exact ih (nodup_keys_pushEntry e.1 e.2 h)

/-- The values under a key after pushing many: those pushed under it come last, in order. -/
theorem valuesAt_pushEntries (m : List (κ × List α)) (es : List (κ × α)) (k : κ) :
    valuesAt (pushEntries m es) k
      = valuesAt m k ++ (es.filter fun e => decide (k = e.1)).map Prod.snd := by
  induction es generalizing m with
  | nil => simp
  | cons e es ih =>
      rw [pushEntries_cons, ih, valuesAt_pushEntry, List.filter_cons]
      by_cases h : k = e.1 <;> simp [h]

/-- Iterating over all entries after pushing many meets the old values and the pushed ones. -/
theorem flatMap_pushEntries_perm (m : List (κ × List α)) (es : List (κ × α)) :
    ((pushEntries m es).flatMap Prod.snd).Perm (m.flatMap Prod.snd ++ es.map Prod.snd) := by
  induction es generalizing m with
  | nil => simp
  | cons e es ih =>
      have hpush := (flatMap_pushEntry_perm m e.1 e.2).append_right (es.map Prod.snd)
      rw [pushEntries_cons, List.map_cons, List.append_cons]
      exact (ih _).trans hpush

/-- Changing the values that are pushed changes the values of the map. -/
theorem pushEntries_map {β : Type} (f : α → β) (m : List (κ × List α)) (es : List (κ × α)) :
    pushEntries (m.map fun e => (e.1, e.2.map f)) (es.map fun e => (e.1, f e.2))
      = (pushEntries m es).map fun e => (e.1, e.2.map f) := by
  have hpush : ∀ (m : List (κ × List α)) (k : κ) (a : α),
      pushEntry (m.map fun e => (e.1, e.2.map f)) k (f a)
        = (pushEntry m k a).map fun e => (e.1, e.2.map f) := by
    intro m k a
    induction m with
    | nil => rfl
    | cons e m ih =>
        rw [List.map_cons, pushEntry, pushEntry]
        split
        · rw [List.map_cons, List.map_append, List.map_singleton]
        · rw [ih, List.map_cons]
  induction es generalizing m with
  | nil => rfl
  | cons e es ih => rw [List.map_cons, pushEntries_cons, pushEntries_cons, hpush, ih]

/-- Values pushed under one new key make one new entry. -/
theorem pushEntries_new {m : List (κ × List α)} {k : κ} (hk : k ∉ keys m) (as bs : List α) :
    pushEntries (m ++ [(k, as)]) (bs.map fun b => (k, b)) = m ++ [(k, as ++ bs)] := by
  have hpush : ∀ (as : List α) (b : α),
      pushEntry (m ++ [(k, as)]) k b = m ++ [(k, as ++ [b])] := by
    intro as b
    induction m with
    | nil => rw [List.nil_append, pushEntry, if_pos rfl]; rfl
    | cons e m ih =>
        rw [keys_cons, List.mem_cons, not_or] at hk
        rw [List.cons_append, pushEntry, if_neg (Ne.symm hk.1), ih hk.2]
        rfl
  induction bs generalizing as with
  | nil => rw [List.append_nil]; rfl
  | cons b bs ih => rw [List.map_cons, pushEntries_cons, hpush, ih, List.append_assoc]; rfl

/-- **A map is rebuilt from its values**, pushed entry by entry, if no entry is empty. -/
theorem pushEntries_flatMap {m m' : List (κ × List α)} (hnodup : (keys (m ++ m')).Nodup)
    (hne : ∀ e ∈ m', e.2 ≠ []) :
    pushEntries m (m'.flatMap fun e => e.2.map fun a => (e.1, a)) = m ++ m' := by
  induction m' generalizing m with
  | nil => rw [List.append_nil]; rfl
  | cons e m' ih =>
      obtain ⟨k, as⟩ := e
      rw [List.forall_mem_cons] at hne
      have hk : k ∉ keys m := by
        rw [keys_append, List.nodup_append] at hnodup
        exact fun hmem => hnodup.2.2 k hmem k List.mem_cons_self rfl
      obtain ⟨a, as, rfl⟩ := List.exists_cons_of_ne_nil hne.1
      have hfirst : pushEntry m k a = m ++ [(k, [a])] := by
        clear hnodup ih
        induction m with
        | nil => rfl
        | cons e m ih =>
            rw [keys_cons, List.mem_cons, not_or] at hk
            rw [pushEntry, if_neg (Ne.symm hk.1), ih hk.2]
            rfl
      rw [List.flatMap_cons, pushEntries, List.foldl_append, ← pushEntries, ← pushEntries,
        List.map_cons, pushEntries_cons, hfirst, pushEntries_new hk, List.singleton_append,
        List.append_cons m (k, a :: as) m']
      exact ih (by rwa [← List.append_cons]) hne.2

/-- Changing every value changes the values under each key. -/
theorem valuesAt_map {β : Type} (f : α → β) (m : List (κ × List α)) (k : κ) :
    valuesAt (m.map fun e => (e.1, e.2.map f)) k = (valuesAt m k).map f := by
  induction m with
  | nil => rfl
  | cons e m ih =>
      rw [List.map_cons, valuesAt_cons, valuesAt_cons, ih]
      split <;> rfl

/-- Keeping some keys leaves the values under them and drops the others. -/
theorem valuesAt_retain (p : κ → Bool) (m : List (κ × List α)) (k : κ) :
    valuesAt (retain p m) k = if p k then valuesAt m k else [] := by
  induction m with
  | nil => simp [retain]
  | cons e m ih =>
      obtain ⟨k₀, as⟩ := e
      rw [retain] at ih ⊢
      rw [List.filter_cons, valuesAt_cons]
      by_cases hp : p k₀ = true
      · rw [if_pos hp, valuesAt_cons, ih]
        by_cases hk : k = k₀ <;> simp [hk, hp]
      · rw [if_neg hp, ih]
        by_cases hk : k = k₀ <;> simp [hk, hp]

/-- Nothing is found for a key that is not there. -/
theorem valuesAt_eq_nil_of_not_mem {m : List (κ × List α)} {k : κ} (h : k ∉ keys m) :
    valuesAt m k = [] := by
  induction m with
  | nil => rfl
  | cons e m ih =>
      rw [keys_cons, List.mem_cons, not_or] at h
      rw [valuesAt_cons, if_neg h.1, ih h.2]

/-- A lookup in a concatenation goes to the first part that knows the key. -/
theorem valuesAt_append (m m' : List (κ × List α)) (k : κ) :
    valuesAt (m ++ m') k = if k ∈ keys m then valuesAt m k else valuesAt m' k := by
  induction m with
  | nil => simp
  | cons e m ih =>
      rw [List.cons_append, valuesAt_cons, valuesAt_cons, ih]
      by_cases hk : k = e.1 <;> simp [hk]

/-- Extending a map overwrites the keys of the new map and leaves the others. -/
theorem valuesAt_extend (m new : List (κ × List α)) (k : κ) :
    valuesAt (extend m new) k = if k ∈ keys new then valuesAt new k else valuesAt m k := by
  rw [extend, valuesAt_append, valuesAt_retain]
  by_cases h : k ∈ keys new
  · simp [mem_keys_retain, h]
  · by_cases hm : k ∈ keys m
    · simp [mem_keys_retain, h, hm]
    · simp [mem_keys_retain, h, hm, valuesAt_eq_nil_of_not_mem]

/-- The keys of an extended map are those of both maps. -/
theorem mem_keys_extend {m new : List (κ × ν)} {k : κ} :
    k ∈ keys (extend m new) ↔ k ∈ keys m ∨ k ∈ keys new := by
  rw [extend, keys_append, List.mem_append, mem_keys_retain, decide_eq_true_iff]
  tauto

/-- Extending keeps the keys distinct. -/
theorem nodup_keys_extend {m new : List (κ × ν)} (hm : (keys m).Nodup) (hn : (keys new).Nodup) :
    (keys (extend m new)).Nodup := by
  rw [extend, keys_append]
  refine List.Nodup.append ?_ hn ?_
  · rw [keys_retain]; exact hm.filter _
  · intro k hk hk'
    rw [mem_keys_retain, decide_eq_true_iff] at hk
    exact hk.2 hk'

/-- **Iteration against lookup.** Going over all entries of a map with distinct keys meets, up to
order, the values under each key of any list that holds the map's keys once each. -/
theorem flatMap_values_perm {m : List (κ × List α)} (hm : (keys m).Nodup) {l : List κ}
    (hl : l.Nodup) (hsub : ∀ k ∈ keys m, k ∈ l) :
    (m.flatMap Prod.snd).Perm (l.flatMap (valuesAt m)) := by
  induction m generalizing l with
  | nil => simp [valuesAt]
  | cons e m ih =>
      obtain ⟨k, as⟩ := e
      rw [keys_cons, List.nodup_cons] at hm
      have hk : k ∈ l := hsub k (by simp)
      have hrest : ∀ k' ∈ keys m, k' ∈ l.erase k := fun k' hk' =>
        (List.mem_erase_of_ne (fun h : k' = k => hm.1 (h ▸ hk'))).mpr (hsub k' (by simp [hk']))
      have hval : ∀ k' ∈ l.erase k, valuesAt m k' = valuesAt ((k, as) :: m) k' := by
        intro k' hk'
        rw [valuesAt_cons, if_neg (fun h : k' = k => hl.not_mem_erase (h ▸ hk'))]
      calc ((k, as) :: m).flatMap Prod.snd
          = as ++ m.flatMap Prod.snd := rfl
        _ ~ as ++ (l.erase k).flatMap (valuesAt m) :=
            (ih hm.2 (hl.erase k) hrest).append_left as
        _ = valuesAt ((k, as) :: m) k ++ (l.erase k).flatMap (valuesAt ((k, as) :: m)) := by
            rw [List.flatMap_congr hval, valuesAt_cons, if_pos rfl]
        _ = (k :: l.erase k).flatMap (valuesAt ((k, as) :: m)) := rfl
        _ ~ l.flatMap (valuesAt ((k, as) :: m)) :=
            ((List.perm_cons_erase hk).symm).flatMap_right _

end AssocMap

end AcceptXmr
