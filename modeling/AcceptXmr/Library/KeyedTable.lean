import Mathlib.Data.List.Nodup
import Mathlib.Logic.Function.Basic

/-! # Tables with a primary key

The tables of an SQL database, as lists of rows of which no two have the same key, and the statements
that single out a row by its key. The rows stand in the order of their insertion.

* **`find?_insert`**, **`find?_upsert`** — what is found after a statement that writes a row.
* **`Lists`** — a table with one row for each of some values, and what the statements do to them. -/

namespace AcceptXmr

/-- A table whose rows consist of a primary key and a value. -/
structure KeyedTable (κ ν : Type) where
  rows : List (κ × ν)
  /-- The primary key is unique. -/
  nodupKeys : (rows.map Prod.fst).Nodup

namespace KeyedTable

variable {κ ν α : Type}

/-- `CREATE TABLE`. -/
def empty : KeyedTable κ ν := ⟨[], List.nodup_nil⟩

section Statements

variable [DecidableEq κ]

/-- `SELECT value … WHERE key = …`. -/
def find? (key : κ) (self : KeyedTable κ ν) : Option ν :=
  (self.rows.find? fun row => decide (row.1 = key)).map Prod.snd

/-- `INSERT`; none if there is a row with the key. -/
def insert (key : κ) (value : ν) (self : KeyedTable κ ν) : Option (KeyedTable κ ν) :=
  if h : key ∈ self.rows.map Prod.fst then none
  else some
    { rows := self.rows ++ [(key, value)]
      nodupKeys := by
        rw [List.map_append, List.map_singleton]
        exact self.nodupKeys.append (List.nodup_singleton _) (by simpa using h) }

/-- `UPDATE … SET value = … WHERE key = …`. -/
def set (key : κ) (value : ν) (self : KeyedTable κ ν) : KeyedTable κ ν where
  rows := self.rows.map fun row => if row.1 = key then (row.1, value) else row
  nodupKeys := by
    have hkeys : (self.rows.map fun row => if row.1 = key then (row.1, value) else row).map Prod.fst
        = self.rows.map Prod.fst := by
      rw [List.map_map]
      refine List.map_congr_left fun row _ => ?_
      rw [Function.comp_apply]
      split <;> rfl
    rw [hkeys]
    exact self.nodupKeys

/-- `INSERT … ON CONFLICT DO UPDATE SET value = …`. -/
def upsert (key : κ) (value : ν) (self : KeyedTable κ ν) : KeyedTable κ ν :=
  (self.insert key value).getD (self.set key value)

/-- `DELETE … WHERE key = …`. -/
def delete (key : κ) (self : KeyedTable κ ν) : KeyedTable κ ν where
  rows := self.rows.filter fun row => decide (row.1 ≠ key)
  nodupKeys := self.nodupKeys.sublist ((List.filter_sublist ..).map _)

/-! ## What is found -/

variable {key : κ} {value : ν} {self self' : KeyedTable κ ν}

theorem find?_eq_none_iff : self.find? key = none ↔ key ∉ self.rows.map Prod.fst := by
  rw [find?, Option.map_eq_none_iff, List.find?_eq_none, List.mem_map, not_exists]
  refine forall_congr' fun row => ?_
  rw [decide_eq_true_eq, not_and]

/-- Only a key that is taken is refused. -/
theorem insert_eq_none_iff : self.insert key value = none ↔ self.find? key ≠ none := by
  rw [insert, ne_eq, find?_eq_none_iff, not_not]
  split <;> simp_all

/-- A new row goes to the end. -/
theorem rows_insert (h : self.insert key value = some self') :
    key ∉ self.rows.map Prod.fst ∧ self'.rows = self.rows ++ [(key, value)] := by
  rw [insert] at h
  split at h
  · cases h
  · rename_i hnew
    cases h
    exact ⟨hnew, rfl⟩

/-- What is found after a row has been inserted. -/
theorem find?_insert (h : self.insert key value = some self') (key' : κ) :
    self'.find? key' = if key' = key then some value else self.find? key' := by
  obtain ⟨hnew, hrows⟩ := rows_insert h
  rw [find?, hrows, List.find?_append]
  by_cases heq : key' = key
  · subst heq
    have hnone : self.rows.find? (fun row => decide (row.1 = key')) = none :=
      Option.map_eq_none_iff.mp (find?_eq_none_iff.mpr hnew)
    simp [hnone]
  · have hlast : [(key, value)].find? (fun row => decide (row.1 = key')) = none := by
      simpa using Ne.symm heq
    rw [hlast, Option.or_none, if_neg heq]
    rfl

/-- What is found after rows have been updated. -/
theorem find?_set (key' : κ) :
    (self.set key value).find? key'
      = if key' = key then (self.find? key').map fun _ => value else self.find? key' := by
  have hkey : ((fun row => decide (row.1 = key')) ∘ fun row : κ × ν =>
      if row.1 = key then (row.1, value) else row) = fun row => decide (row.1 = key') := by
    funext row
    rw [Function.comp_apply]
    split <;> rfl
  rw [find?, find?, set, List.find?_map, hkey]
  cases hfind : self.rows.find? (fun row => decide (row.1 = key')) with
  | none => simp
  | some row =>
      have hrow : row.1 = key' := by simpa using List.find?_some hfind
      by_cases heq : key' = key
      · simp [hrow, heq]
      · simp [hrow, heq]

/-- **What is found after an upsert.** -/
theorem find?_upsert (key' : κ) :
    (self.upsert key value).find? key' = if key' = key then some value else self.find? key' := by
  rw [upsert]
  cases hinsert : self.insert key value with
  | some self' => exact find?_insert hinsert key'
  | none =>
      obtain ⟨old, hold⟩ := Option.ne_none_iff_exists'.mp (insert_eq_none_iff.mp hinsert)
      rw [Option.getD_none, find?_set]
      by_cases heq : key' = key
      · rw [if_pos heq, if_pos heq, heq, hold]
        rfl
      · rw [if_neg heq, if_neg heq]

end Statements

/-! ## Tables of values -/

/-- **The table has one row for each of the values**, in their order. -/
structure Lists (table : KeyedTable κ ν) (row : α → κ × ν) (values : List α) : Prop where
  rows_eq : table.rows = values.map row

theorem lists_empty (row : α → κ × ν) : (empty : KeyedTable κ ν).Lists row [] := ⟨rfl⟩

namespace Lists

variable [DecidableEq κ] {table : KeyedTable κ ν} {row : α → κ × ν} {values : List α} {key : κ}
  {p : α → Bool}

/-- A row is found for the value that it is of. -/
theorem find? (h : table.Lists row values) (hp : ∀ a ∈ values, (row a).1 = key ↔ p a = true) :
    table.find? key = (values.find? p).map fun a => (row a).2 := by
  have hfind : (values.find? fun a => decide ((row a).1 = key)) = values.find? p := by
    clear h
    induction values with
    | nil => rfl
    | cons a values ih =>
        rw [List.forall_mem_cons] at hp
        have hdecide : decide ((row a).1 = key) = p a := by
          rw [Bool.eq_iff_iff, decide_eq_true_eq]
          exact hp.1
        rw [List.find?_cons, List.find?_cons, ih hp.2, hdecide]
  rw [KeyedTable.find?, h.rows_eq, List.find?_map, ← hfind, Option.map_map]
  rfl

/-- A value with a new key gets a row. -/
theorem insert_some (h : table.Lists row values) {a : α} (hnew : ∀ b ∈ values, (row b).1 ≠ (row a).1) :
    ∃ table', table.insert (row a).1 (row a).2 = some table' ∧ table'.Lists row (values ++ [a]) := by
  have hkey : (row a).1 ∉ table.rows.map Prod.fst := by
    rw [h.rows_eq, List.map_map, List.mem_map]
    rintro ⟨b, hb, heq⟩
    exact hnew b hb heq
  refine ⟨_, dif_neg hkey, ⟨?_⟩⟩
  show table.rows ++ [row a] = (values ++ [a]).map row
  rw [h.rows_eq, List.map_append, List.map_singleton]

/-- A value whose key is taken gets none. -/
theorem insert_none (h : table.Lists row values) {a b : α} (hb : b ∈ values)
    (hkey : (row b).1 = (row a).1) : table.insert (row a).1 (row a).2 = none := by
  refine dif_pos ?_
  rw [h.rows_eq, List.map_map, ← hkey]
  exact List.mem_map_of_mem hb

theorem delete (h : table.Lists row values) (hp : ∀ a ∈ values, (row a).1 = key ↔ p a = true) :
    (table.delete key).Lists row (values.filter fun a => !p a) := by
  refine ⟨?_⟩
  show table.rows.filter (fun row => decide (row.1 ≠ key)) = _
  rw [h.rows_eq, List.filter_map]
  refine congrArg (List.map row) (List.filter_congr fun a ha => ?_)
  rw [Function.comp_apply, Bool.eq_iff_iff, decide_eq_true_eq, Bool.not_eq_true', ← Bool.not_eq_true,
    ne_eq, hp a ha]

/-- **An update** of the row of a key replaces the values that have it. -/
theorem set (h : table.Lists row values) (hp : ∀ a ∈ values, (row a).1 = key ↔ p a = true) {new : α}
    (hnew : (row new).1 = key) :
    (table.set key (row new).2).Lists row (values.map fun a => if p a then new else a) := by
  refine ⟨?_⟩
  show (table.rows.map fun r => if r.1 = key then (r.1, (row new).2) else r) = _
  rw [h.rows_eq, List.map_map, List.map_map]
  refine List.map_congr_left fun a ha => ?_
  rw [Function.comp_apply, Function.comp_apply]
  by_cases hkey : (row a).1 = key
  · rw [if_pos hkey, if_pos ((hp a ha).mp hkey), hkey, ← hnew]
  · rw [if_neg hkey, if_neg fun hpa => hkey ((hp a ha).mpr hpa)]

end Lists

end KeyedTable

end AcceptXmr
