import AcceptXmr.Storage.Store
import Std.Data.TreeMap.Lemmas

/-! # The in-memory store

`library/src/storage/stores/in_memory.rs`: invoices in a `BTreeMap` from their ids, which are
ordered by major index, minor index and creation height. The lookup of a sub index asks for the first
id that is not below `(sub_index, 0)`, and does not look at the sub index of what it finds.

* **`containsSubIndex_iff`** — the lookup succeeds if some stored sub index is not below the one
  asked for.
* **`containsSubIndex_exact_iff`** — when that is the right answer.
* **`containsSubIndex_eq_backend`** — the lookup is that of `Backend.inMemory`, which the scanner
  may be run with. -/

namespace AcceptXmr

/-! ## The order of ids -/

/-- Sub indexes are compared by the major index first. -/
theorem SubIndex.cmp_eq_compareLex :
    SubIndex.cmp = compareLex (compareOn SubIndex.major) (compareOn SubIndex.minor) := by
  funext a b
  rw [SubIndex.cmp]
  simp only [compareLex, compareOn]
  cases compare a.major b.major <;> rfl

instance : Std.TransCmp SubIndex.cmp := by
  rw [SubIndex.cmp_eq_compareLex]
  infer_instance

instance : Std.LawfulEqCmp SubIndex.cmp where
  eq_of_compare {a b} h := by
    rw [SubIndex.cmp_eq_compareLex, compareLex, Ordering.then_eq_eq] at h
    have hmajor : a.major = b.major := Std.LawfulEqOrd.eq_of_compare h.1
    have hminor : a.minor = b.minor := Std.LawfulEqOrd.eq_of_compare h.2
    rw [show a = ⟨a.major, a.minor⟩ from rfl, hmajor, hminor]

/-- A sub index is equal to itself. -/
@[simp] theorem SubIndex.cmp_self (s : SubIndex) : s.cmp s = .eq := Std.ReflCmp.compare_self

/-- Ids are compared by the sub index first, and then by the creation height. -/
theorem InvoiceId.cmp_eq_compareLex :
    InvoiceId.cmp = compareLex (fun a b => a.subIndex.cmp b.subIndex)
      (compareOn InvoiceId.creationHeight) := by
  funext a b
  rw [InvoiceId.cmp]
  simp only [compareLex, compareOn]
  cases a.subIndex.cmp b.subIndex <;> rfl

instance : Std.TransCmp fun a b : InvoiceId => a.subIndex.cmp b.subIndex where
  eq_swap := Std.OrientedCmp.eq_swap
  isLE_trans := Std.TransCmp.isLE_trans

instance : Std.TransCmp InvoiceId.cmp := by
  rw [InvoiceId.cmp_eq_compareLex]
  infer_instance

instance : Std.LawfulEqCmp InvoiceId.cmp where
  eq_of_compare {a b} h := by
    rw [InvoiceId.cmp_eq_compareLex, compareLex, Ordering.then_eq_eq] at h
    have hindex : a.subIndex = b.subIndex := Std.LawfulEqCmp.eq_of_compare h.1
    have hheight : a.creationHeight = b.creationHeight := Std.LawfulEqOrd.eq_of_compare h.2
    rw [show a = ⟨a.subIndex, a.creationHeight⟩ from rfl, hindex, hheight]

/-- **No id of a sub index is below that index with creation height zero**, and those of smaller
indexes are. -/
theorem InvoiceId.isLE_cmp_zero (s : SubIndex) (id : InvoiceId) :
    (InvoiceId.cmp ⟨s, 0⟩ id).isLE = (s.cmp id.subIndex).isLE := by
  rw [InvoiceId.cmp]
  cases s.cmp id.subIndex with
  | lt => rfl
  | gt => rfl
  | eq =>
      show (compare 0 id.creationHeight).isLE = true
      rw [Nat.isLE_compare]
      exact Nat.zero_le _

/-! ## The store -/

/-- Why the store refuses an invoice. -/
inductive InMemoryStorageError where
  | duplicateInvoice
  deriving DecidableEq, Repr

/-- The store, without its output keys and its height. -/
structure InMemory where
  invoices : Std.TreeMap InvoiceId Invoice InvoiceId.cmp
  /-- Every invoice is stored under its id. -/
  keyed : ∀ (id : InvoiceId) (invoice : Invoice), invoices[id]? = some invoice → invoice.id = id

namespace InMemory

/-- `InMemory::new`. -/
def new : InMemory := ⟨∅, by simp⟩

/-- Store an invoice under its id. -/
def put (self : InMemory) (invoice : Invoice) : InMemory where
  invoices := self.invoices.insert invoice.id invoice
  keyed id stored h := by
    rw [Std.TreeMap.getElem?_insert] at h
    split at h
    · rename_i hid
      obtain rfl := Option.some.inj h
      exact Std.LawfulEqCmp.eq_of_compare hid
    · exact self.keyed id stored h

/-- `insert`. -/
def insert (self : InMemory) (invoice : Invoice) : Except InMemoryStorageError Unit × InMemory :=
  if self.invoices.contains invoice.id then (.error .duplicateInvoice, self)
  else (.ok (), self.put invoice)

/-- `remove`. -/
def remove (self : InMemory) (id : InvoiceId) : Option Invoice × InMemory :=
  (self.invoices[id]?, ⟨self.invoices.erase id, fun id' invoice h => by
    rw [Std.TreeMap.getElem?_erase] at h
    split at h
    · cases h
    · exact self.keyed id' invoice h⟩)

/-- `update`. An invoice that is not there is not created. -/
def update (self : InMemory) (invoice : Invoice) : Option Invoice × InMemory :=
  match self.invoices[invoice.id]? with
  | some old => (some old, self.put invoice)
  | none => (none, self)

/-- `BTreeMap::range(from..)`: the entries from a key on, in order. -/
def range (self : InMemory) (start : InvoiceId) : List (InvoiceId × Invoice) :=
  self.invoices.toList.filter fun e => (InvoiceId.cmp start e.1).isLE

/-- `contains_sub_index`. -/
def containsSubIndex (self : InMemory) (s : SubIndex) : Bool := (self.range ⟨s, 0⟩).head?.isSome

/-- An invoice is stored. -/
def Stores (self : InMemory) (invoice : Invoice) : Prop :=
  self.invoices[invoice.id]? = some invoice

/-! ## The lookup of a sub index -/

/-- The entries of the map are the stored invoices. -/
theorem mem_toList_iff {self : InMemory} {id : InvoiceId} {invoice : Invoice} :
    (id, invoice) ∈ self.invoices.toList ↔ self.Stores invoice ∧ invoice.id = id := by
  rw [Std.TreeMap.mem_toList_iff_getElem?_eq_some, Stores]
  constructor
  · intro h
    obtain rfl := self.keyed id invoice h
    exact ⟨h, rfl⟩
  · rintro ⟨h, rfl⟩
    exact h

/-- **The lookup succeeds** if a stored sub index is not below the one asked for. -/
theorem containsSubIndex_iff (self : InMemory) (s : SubIndex) :
    self.containsSubIndex s = true ↔
      ∃ invoice, self.Stores invoice ∧ (s.cmp invoice.index).isLE = true := by
  rw [containsSubIndex, range, List.isSome_head?]
  simp only [ne_eq, List.filter_eq_nil_iff, not_forall, not_not, InvoiceId.isLE_cmp_zero,
    exists_prop]
  constructor
  · rintro ⟨⟨id, invoice⟩, hmem, hle⟩
    obtain ⟨hstored, rfl⟩ := mem_toList_iff.mp hmem
    exact ⟨invoice, hstored, hle⟩
  · rintro ⟨invoice, hstored, hle⟩
    exact ⟨(invoice.id, invoice), mem_toList_iff.mpr ⟨hstored, rfl⟩, hle⟩

/-- The lookup is right if the index is in use, or no greater one is. -/
theorem containsSubIndex_right_iff (self : InMemory) (s : SubIndex) :
    (self.containsSubIndex s = true ↔ ∃ invoice, self.Stores invoice ∧ invoice.index = s) ↔
      (∃ invoice, self.Stores invoice ∧ invoice.index = s) ∨
        ∀ invoice, self.Stores invoice → s.cmp invoice.index ≠ .lt := by
  rw [containsSubIndex_iff]
  constructor
  · intro hright
    by_cases hused : ∃ invoice, self.Stores invoice ∧ invoice.index = s
    · exact .inl hused
    · refine .inr fun invoice hstored hlt => hused (hright.mp ⟨invoice, hstored, ?_⟩)
      rw [hlt]
      rfl
  · intro hcond
    constructor
    · rintro ⟨invoice, hstored, hle⟩
      rcases hcond with hused | hnone
      · exact hused
      · -- An index that is not below `s`, and not above it either, is `s`.
        have heq : s.cmp invoice.index = .eq := by
          cases hcmp : s.cmp invoice.index with
          | eq => rfl
          | lt => exact absurd hcmp (hnone invoice hstored)
          | gt => rw [hcmp] at hle; cases hle
        exact ⟨invoice, hstored, (Std.LawfulEqCmp.eq_of_compare heq).symm⟩
    · rintro ⟨invoice, hstored, rfl⟩
      refine ⟨invoice, hstored, ?_⟩
      rw [SubIndex.cmp_self]
      rfl

/-! ## Runs -/

/-- The calls that change the store. -/
inductive Call where
  | insert (invoice : Invoice)
  | remove (id : InvoiceId)
  | update (invoice : Invoice)

/-- The store after a call. -/
def Call.run : Call → InMemory → InMemory
  | insert invoice, self => (self.insert invoice).2
  | remove id, self => (self.remove id).2
  | update invoice, self => (self.update invoice).2

/-- The store after some calls. -/
def after (calls : List Call) : InMemory := calls.foldl (fun self call => call.run self) new

/-- **When the lookup of a sub index is exact**: if the index is in use, or no greater index is. -/
theorem containsSubIndex_exact_iff (calls : List Call) (s : SubIndex) :
    ((after calls).containsSubIndex s = true ↔
        ∃ invoice, (after calls).Stores invoice ∧ invoice.index = s) ↔
      (∃ invoice, (after calls).Stores invoice ∧ invoice.index = s) ∨
        ∀ invoice, (after calls).Stores invoice → s.cmp invoice.index ≠ .lt :=
  containsSubIndex_right_iff (after calls) s

/-- An invoice for the subaddress index `(0, 5)`. -/
def invoice05 : Invoice := .new "" ⟨0, 5⟩ 0 1 1 1 ""

/-- **The lookup is not exact**: with one invoice, for index `(0, 5)`, it finds index `(0, 1)`. -/
theorem containsSubIndex_not_exact :
    (after [.insert invoice05]).containsSubIndex ⟨0, 1⟩ = true ∧
      ¬ ∃ invoice, (after [.insert invoice05]).Stores invoice ∧ invoice.index = ⟨0, 1⟩ := by
  refine ⟨by decide, ?_⟩
  rintro ⟨invoice, hstored, hindex⟩
  have hmem : (invoice.id, invoice) ∈ (after [.insert invoice05]).invoices.toList :=
    mem_toList_iff.mpr ⟨hstored, rfl⟩
  have hlist : (after [.insert invoice05]).invoices.toList = [(invoice05.id, invoice05)] := by
    decide
  rw [hlist, List.mem_singleton] at hmem
  rw [(Prod.mk.inj hmem).2] at hindex
  exact absurd hindex (by decide)

/-! ## The lookup in the model of the scanner -/

end InMemory

/-- The lookup of the in-memory store. -/
def Backend.inMemory : Backend where
  containsSubIndex invoices s := invoices.any fun invoice => (s.cmp invoice.index).isLE
  complete {invoices invoice} h := List.any_eq_true.mpr ⟨invoice, h, by
    rw [SubIndex.cmp_self]
    rfl⟩

/-- **The lookup is that of the backend**, on the stored invoices. -/
theorem InMemory.containsSubIndex_eq_backend (self : InMemory) (s : SubIndex) :
    self.containsSubIndex s =
      Backend.inMemory.containsSubIndex (self.invoices.toList.map Prod.snd) s := by
  rw [Bool.eq_iff_iff, containsSubIndex_iff, Backend.inMemory, List.any_eq_true]
  constructor
  · rintro ⟨invoice, hstored, hle⟩
    have hmem := mem_toList_iff.mpr ⟨hstored, rfl⟩
    exact ⟨invoice, List.mem_map_of_mem hmem, hle⟩
  · rintro ⟨invoice, hmem, hle⟩
    obtain ⟨⟨id, _⟩, hentry, rfl⟩ := List.mem_map.mp hmem
    exact ⟨_, (mem_toList_iff.mp hentry).1, hle⟩

end AcceptXmr
