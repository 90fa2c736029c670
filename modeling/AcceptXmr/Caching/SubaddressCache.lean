import AcceptXmr.Library.IndexMap
import AcceptXmr.Storage.Store
import Mathlib.Logic.Relation

/-! # The subaddress cache

`library/src/caching/subaddress_cache.rs`: the subaddresses that can be given to new invoices. The
cache starts with the unused ones in the range of its account, gives them out at random, takes them
back from removed invoices and extends the range when it runs low. How an address is derived from
its index is a parameter, `viewpair`, and the numbers that the random number generator will produce
are listed in `rng`.

* **`mem_keys_init`** — what is available at the start.
* **`mem_keys_extendBy`**, **`removeRandom_cases`** — what giving out an address does.
* **`init_watches_iff`** — when the cache's range covers the stored invoices of its account. -/

namespace AcceptXmr

/-- The greatest `u32`. -/
def u32Max : UInt32 := 4294967295

/-- `a.saturating_add(1)` on `u32`. -/
def U32.saturatingSucc (a : UInt32) : UInt32 := if a = u32Max then a else a + 1

/-- Below the greatest index, adding one does not overflow. -/
theorem toNat_succ {a : UInt32} (h : a ≠ u32Max) : (a + 1).toNat = a.toNat + 1 := by
  have hne : a.toNat ≠ 4294967295 := fun heq => h (UInt32.toNat_inj.mp heq)
  have hlt := a.toNat_lt
  rw [UInt32.toNat_add]
  exact Nat.mod_eq_of_lt (by simp only [UInt32.toNat_one]; omega)

/-! ## The order of sub indexes -/

namespace SubIndex

/-- The order compares major indexes first. -/
theorem cmp_isLE {a b : SubIndex} :
    (a.cmp b).isLE = true ↔ a.major < b.major ∨ a.major = b.major ∧ a.minor ≤ b.minor := by
  unfold cmp
  cases h : compare a.major b.major with
  | lt =>
      have hlt : a.major < b.major := Std.compare_eq_lt.mp h
      simp [hlt]
  | eq =>
      have heq : a.major = b.major := Std.compare_eq_iff_eq.mp h
      simp [heq, Std.LawfulOrderOrd.isLE_compare, UInt32.lt_irrefl]
  | gt =>
      have hgt : b.major < a.major := Std.compare_eq_gt.mp h
      have hne : a.major ≠ b.major := fun heq => UInt32.lt_irrefl _ (heq ▸ hgt)
      simp [hne, UInt32.lt_asymm hgt]

/-- `Iterator::max`: of two equal ones the later. -/
def max (a b : SubIndex) : SubIndex :=
  match a.cmp b with
  | .gt => a
  | .lt | .eq => b

/-- The greatest of some sub indexes. -/
def maxOf : List SubIndex → Option SubIndex
  | [] => none
  | a :: rest => some (rest.foldl max a)

end SubIndex

/-! ## The cache -/

/-- Minimum number of available subaddresses. -/
def minAvailableSubaddresses : UInt32 := 100

/-- The available subaddresses of one account. -/
structure SubaddressCache where
  majorIndex : UInt32
  highestMinorIndex : UInt32
  availableSubaddresses : IndexMap SubIndex String
  viewpair : SubIndex → String
  rng : List ℕ

/-- The loop of `generate_range`: `fuel` bounds the number of minor indexes that are left. -/
def generateRangeFrom (viewpair : SubIndex → String) (stop : SubIndex) :
    ℕ → SubIndex → List (SubIndex × String)
  | 0, _ => []
  | fuel + 1, current =>
      if (current.cmp stop).isLE then
        (current, viewpair current) ::
          -- `checked_add` of the minor index: the loop ends here, and does not go on to the next
          -- account.
          if current.minor = u32Max then []
          else generateRangeFrom viewpair stop fuel { current with minor := current.minor + 1 }
      else []

/-- `generate_range`. The range ends where the minor index saturates. -/
def generateRange (start stop : SubIndex) (viewpair : SubIndex → String) :
    List (SubIndex × String) :=
  if (stop.cmp start).isLT then []
  else generateRangeFrom viewpair stop (UInt32.size - start.minor.toNat) start

namespace SubaddressCache

/-- `SubaddressCache::init`. A failing storage request would end it with an error before it has any
effect, and is left out. -/
def init (store : Store) (viewpair : SubIndex → String) (majorIndex : UInt32) (rng : List ℕ) :
    SubaddressCache :=
  let usedSubIndexes := store.invoices.map Invoice.index
  let maxUsed :=
    -- The maximum is over all accounts, whatever `majorIndex` is.
    match SubIndex.maxOf usedSubIndexes with
    | some maxSubIndex => maxSubIndex.minor
    | none => 0
  let highestMinorIndex := max (minAvailableSubaddresses - 1) maxUsed
  { majorIndex := majorIndex
    highestMinorIndex := highestMinorIndex
    availableSubaddresses :=
      -- All of the range, less what stored invoices use.
      (IndexMap.ofList (generateRange ⟨majorIndex, 0⟩ ⟨majorIndex, highestMinorIndex⟩ viewpair)).retain
        fun subIndex => !usedSubIndexes.contains subIndex
    viewpair := viewpair
    rng := rng }

/-- One round of `extend_by`: the index that is added, `none` at the greatest minor index. -/
def extendOne (self : SubaddressCache) : Option (SubIndex × SubaddressCache) :=
  if self.highestMinorIndex = u32Max then none
  else
    let subIndex : SubIndex := ⟨self.majorIndex, self.highestMinorIndex + 1⟩
    some (subIndex, { self with
      availableSubaddresses := self.availableSubaddresses.insert subIndex (self.viewpair subIndex)
      highestMinorIndex := subIndex.minor })

/-- `extend_by`, with the indexes it adds. The source returns their number. -/
def extendBy : ℕ → SubaddressCache → List SubIndex × SubaddressCache
  | 0, self => ([], self)
  | n + 1, self =>
      match self.extendOne with
      | none => ([], self)
      | some (subIndex, self') => (subIndex :: (extendBy n self').1, (extendBy n self').2)

/-- `gen_range(0..n)` for `n > 0`. -/
def genRange (self : SubaddressCache) (n : ℕ) : ℕ × SubaddressCache :=
  match self.rng with
  | [] => (0, self)
  | draw :: rest => (draw % n, { self with rng := rest })

/-- `remove_random`. With nothing available `gen_range` panics: `none`. -/
def removeRandom (self : SubaddressCache) : Option ((SubIndex × String) × SubaddressCache) :=
  -- `gen_range` of an empty range panics.
  if self.availableSubaddresses.entries.length = 0 then none
  else
    let (mapIndex, self) := self.genRange self.availableSubaddresses.entries.length
    match self.availableSubaddresses.shiftRemoveIndex mapIndex with
    | none => none
    | some (entry, available) =>
        let self := { self with availableSubaddresses := available }
        -- Few are left: extend the range.
        if available.entries.length ≤ minAvailableSubaddresses.toNat then
          some (entry, (self.extendBy minAvailableSubaddresses.toNat).2)
        else some (entry, self)

/-- `insert`. -/
def insert (self : SubaddressCache) (subIndex : SubIndex) (address : String) : SubaddressCache :=
  { self with availableSubaddresses := self.availableSubaddresses.insert subIndex address }

/-- The checker that `PaymentGateway::run` builds before each scan. -/
def subKeyChecker (self : SubaddressCache) : SubKeyChecker :=
  ⟨(self.majorIndex, U32.saturatingSucc self.majorIndex),
    (0, U32.saturatingSucc self.highestMinorIndex)⟩

/-- The available sub indexes. -/
abbrev keys (self : SubaddressCache) : List SubIndex := self.availableSubaddresses.keys

end SubaddressCache

/-! ## What the range holds -/

/-- The range holds the indexes of one account from the current one up to the last one, by induction on
the fuel, of which there is enough for all minor indexes. -/
theorem mem_generateRangeFrom {viewpair : SubIndex → String} {stop current k : SubIndex} {fuel : ℕ}
    (hfuel : UInt32.size ≤ fuel + current.minor.toNat) :
    k ∈ (generateRangeFrom viewpair stop fuel current).map Prod.fst ↔
      k.major = current.major ∧ current.minor ≤ k.minor ∧ (k.cmp stop).isLE = true := by
  induction fuel generalizing current with
  | zero =>
      -- A minor index is below `2 ^ 32`, so this fuel is never used up.
      have hlt := current.minor.toNat_lt
      rw [UInt32.size] at hfuel
      omega
  | succ fuel ih =>
      rw [generateRangeFrom]
      split
      · rename_i hle
        rw [List.map_cons, List.mem_cons]
        have hself : k.major = current.major → k.minor = current.minor → k = current := by
          intro hmajor hminor
          cases k
          cases current
          simp_all
        split
        · -- At the greatest minor index the loop ends, and no index of the account is left.
          rename_i hmax
          rw [List.map_nil]
          constructor
          · rintro (rfl | h)
            · exact ⟨rfl, UInt32.le_refl _, hle⟩
            · cases h
          · rintro ⟨hmajor, hminor, -⟩
            refine .inl (hself hmajor (UInt32.le_antisymm ?_ hminor))
            rw [hmax, UInt32.le_iff_toNat_le]
            exact Nat.le_of_lt_succ k.minor.toNat_lt
        · -- `k` is the current index, or is found from the next one on.
          rename_i hmax
          have hsucc := toNat_succ hmax
          rw [ih (by rw [hsucc]; omega)]
          simp only [UInt32.le_iff_toNat_le, hsucc]
          constructor
          · rintro (rfl | ⟨hmajor, hminor, hk⟩)
            · exact ⟨rfl, Nat.le_refl _, hle⟩
            · exact ⟨hmajor, by omega, hk⟩
          · rintro ⟨hmajor, hminor, hk⟩
            by_cases heq : k.minor.toNat = current.minor.toNat
            · exact .inl (hself hmajor (UInt32.toNat_inj.mp heq))
            · exact .inr ⟨hmajor, by omega, hk⟩
      · -- The loop stops at an index behind the range, and all that follow are behind it as well.
        rename_i hgt
        refine ⟨nofun, fun ⟨hmajor, hminor, hk⟩ => absurd ?_ hgt⟩
        rw [SubIndex.cmp_isLE] at hk ⊢
        rw [← hmajor]
        exact hk.imp_right fun h => ⟨h.1, UInt32.le_trans hminor h.2⟩

/-- **A range of one account** holds the minor indexes between its ends. -/
theorem mem_generateRange {viewpair : SubIndex → String} {major lowest highest : UInt32}
    {k : SubIndex} (h : lowest ≤ highest) :
    k ∈ (generateRange ⟨major, lowest⟩ ⟨major, highest⟩ viewpair).map Prod.fst ↔
      k.major = major ∧ lowest ≤ k.minor ∧ k.minor ≤ highest := by
  have hle : ((SubIndex.mk major lowest).cmp ⟨major, highest⟩).isLE = true :=
    SubIndex.cmp_isLE.mpr (.inr ⟨rfl, h⟩)
  have hnot : ¬ ((SubIndex.mk major highest).cmp ⟨major, lowest⟩).isLT = true := by
    intro hlt
    simp only [SubIndex.cmp, Std.compare_self, Ordering.isLT_iff_eq_lt, Std.compare_eq_lt] at hlt
    exact absurd hlt (UInt32.not_lt.mpr h)
  rw [generateRange, if_neg hnot, mem_generateRangeFrom (by
    have := lowest.toNat_lt
    rw [UInt32.size]
    omega)]
  refine and_congr_right fun hmajor => and_congr_right fun _ => ?_
  rw [SubIndex.cmp_isLE, hmajor]
  simp [UInt32.lt_irrefl]

/-! ## What is available at the start -/

namespace SubIndex

/-- The greater one of two indexes is one of them. -/
theorem max_eq_or (a b : SubIndex) : max a b = a ∧ (b.cmp a).isLE = true ∨
    max a b = b ∧ (a.cmp b).isLE = true := by
  unfold max
  cases h : a.cmp b with
  | gt =>
      refine .inl ⟨rfl, ?_⟩
      have hnot : ¬ (a.cmp b).isLE = true := by simp [h]
      rw [cmp_isLE, not_or, not_and] at hnot
      rw [cmp_isLE]
      rcases UInt32.lt_or_eq_of_le (UInt32.not_lt.mp hnot.1) with hlt | heq
      · exact .inl hlt
      · exact .inr ⟨heq, UInt32.le_of_lt (UInt32.not_le.mp (hnot.2 heq.symm))⟩
  | lt | eq => exact .inr ⟨rfl, rfl⟩

/-- The order of sub indexes is reflexive. -/
theorem isLE_refl (a : SubIndex) : (a.cmp a).isLE = true :=
  cmp_isLE.mpr (.inr ⟨rfl, UInt32.le_refl _⟩)

/-- It is transitive. -/
theorem isLE_trans {a b c : SubIndex} (hab : (a.cmp b).isLE = true) (hbc : (b.cmp c).isLE = true) :
    (a.cmp c).isLE = true := by
  rw [cmp_isLE] at hab hbc ⊢
  rcases hab with hab | ⟨hab, hab'⟩
  · rcases hbc with hbc | ⟨hbc, -⟩
    · exact .inl (UInt32.lt_trans hab hbc)
    · exact .inl (hbc ▸ hab)
  · rw [hab]
    exact hbc.imp_right fun h => ⟨h.1, UInt32.le_trans hab' h.2⟩

/-- It is antisymmetric. -/
theorem isLE_antisymm {a b : SubIndex} (hab : (a.cmp b).isLE = true)
    (hba : (b.cmp a).isLE = true) : a = b := by
  obtain ⟨major, minor⟩ := a
  obtain ⟨major', minor'⟩ := b
  rw [cmp_isLE] at hab hba
  rcases hab with hab | ⟨hmajor, hab⟩
  · rcases hba with hba | ⟨hmajor, -⟩
    · exact absurd hba (UInt32.lt_asymm hab)
    · exact absurd (hmajor ▸ hab) (UInt32.lt_irrefl _)
  · rcases hba with hba | ⟨-, hba⟩
    · exact absurd (hmajor ▸ hba) (UInt32.lt_irrefl _)
    · rw [SubIndex.mk.injEq]
      exact ⟨hmajor, UInt32.le_antisymm hab hba⟩

/-- The greatest one of some indexes is one of them, and none is greater. -/
theorem foldl_max_spec (l : List SubIndex) (a : SubIndex) :
    l.foldl max a ∈ a :: l ∧ ∀ k ∈ a :: l, (k.cmp (l.foldl max a)).isLE = true := by
  induction l generalizing a with
  | nil =>
      refine ⟨List.mem_cons_self, fun k hk => ?_⟩
      rw [List.mem_singleton.mp hk]
      exact isLE_refl a
  | cons b l ih =>
      rw [List.foldl_cons]
      obtain ⟨hmem, hle⟩ := ih (max a b)
      -- The rest is compared with the greater of the first two.
      have hboth : (a.cmp (max a b)).isLE = true ∧ (b.cmp (max a b)).isLE = true := by
        rcases max_eq_or a b with ⟨heq, h⟩ | ⟨heq, h⟩
        · exact ⟨by rw [heq]; exact isLE_refl a, by rw [heq]; exact h⟩
        · exact ⟨by rw [heq]; exact h, by rw [heq]; exact isLE_refl b⟩
      have htop := hle _ List.mem_cons_self
      refine ⟨?_, fun k hk => ?_⟩
      · rcases List.mem_cons.mp hmem with h | h
        · rw [h]
          rcases max_eq_or a b with ⟨heq, -⟩ | ⟨heq, -⟩
          · rw [heq]
            exact List.mem_cons_self
          · rw [heq]
            exact List.mem_cons_of_mem _ List.mem_cons_self
        · exact List.mem_cons_of_mem _ (List.mem_cons_of_mem _ h)
      · rcases List.mem_cons.mp hk with rfl | hk
        · exact isLE_trans hboth.1 htop
        · rcases List.mem_cons.mp hk with rfl | hk
          · exact isLE_trans hboth.2 htop
          · exact hle k (List.mem_cons_of_mem _ hk)

/-- Only of nothing there is no greatest. -/
theorem eq_nil_of_maxOf {l : List SubIndex} (h : maxOf l = none) : l = [] := by
  cases l with
  | nil => rfl
  | cons a l => cases h

/-- **The greatest sub index** is one of them, and none is greater. -/
theorem maxOf_spec {l : List SubIndex} {top : SubIndex} (h : maxOf l = some top) :
    top ∈ l ∧ ∀ k ∈ l, (k.cmp top).isLE = true := by
  cases l with
  | nil => cases h
  | cons a l =>
      cases h
      exact foldl_max_spec l a

end SubIndex

namespace SubaddressCache

variable {store : Store} {viewpair : SubIndex → String} {majorIndex : UInt32} {rng : List ℕ}

/-- The greatest stored sub index, by major index first. -/
def IsGreatestStored (store : Store) (top : SubIndex) : Prop :=
  top ∈ store.invoices.map Invoice.index ∧
    ∀ invoice ∈ store.invoices, (invoice.index.cmp top).isLE = true

/-- **The range at the start** ends at 99 or at the minor index of the greatest stored sub index. -/
theorem le_highest_init {m : UInt32} :
    m ≤ (init store viewpair majorIndex rng).highestMinorIndex ↔
      m < minAvailableSubaddresses ∨ ∃ top, IsGreatestStored store top ∧ m ≤ top.minor := by
  have hmax : ∀ a b : UInt32, m ≤ max a b ↔ m ≤ a ∨ m ≤ b := by
    intro a b
    rw [UInt32.max_def]
    simp only [UInt32.le_iff_toNat_le]
    split <;> omega
  have hmin : m ≤ minAvailableSubaddresses - 1 ↔ m < minAvailableSubaddresses := by
    rw [UInt32.le_iff_toNat_le, UInt32.lt_iff_toNat_lt]
    exact Nat.lt_succ_iff.symm
  simp only [init]
  rw [hmax, hmin]
  cases htop : SubIndex.maxOf (store.invoices.map Invoice.index) with
  | none =>
      -- With an empty store the bound is 0, which is below the first hundred anyway.
      simp only [IsGreatestStored, SubIndex.eq_nil_of_maxOf htop, List.not_mem_nil, false_and, exists_false, or_false]
      refine or_iff_left_of_imp fun h => ?_
      rw [UInt32.le_iff_toNat_le] at h
      exact UInt32.lt_iff_toNat_lt.mpr (Nat.lt_of_le_of_lt h (by decide))
  | some top =>
      obtain ⟨hmem, hgreatest⟩ := SubIndex.maxOf_spec htop
      refine or_congr_right ⟨fun h => ⟨top, ⟨hmem, fun invoice hi => ?_⟩, h⟩, ?_⟩
      · exact hgreatest _ (List.mem_map_of_mem hi)
      · -- There is only one greatest sub index.
        rintro ⟨top', ⟨hmem', hgreatest'⟩, hle⟩
        obtain ⟨invoice, hi, rfl⟩ := List.mem_map.mp hmem
        rw [SubIndex.isLE_antisymm (hgreatest' invoice hi) (hgreatest top' hmem')]
        exact hle

/-- The range at the start covers the stored invoices if all are of one account. -/
theorem index_le_highest_init (hmajor : ∀ invoice ∈ store.invoices, invoice.index.major = majorIndex)
    {invoice : Invoice} (hmem : invoice ∈ store.invoices) :
    invoice.index.minor ≤ (init store viewpair majorIndex rng).highestMinorIndex := by
  rw [le_highest_init]
  right
  have hindex : invoice.index ∈ store.invoices.map Invoice.index := List.mem_map_of_mem hmem
  cases htop : SubIndex.maxOf (store.invoices.map Invoice.index) with
  | none =>
      rw [SubIndex.eq_nil_of_maxOf htop] at hindex
      cases hindex
  | some top =>
      -- Within one account the order of sub indexes is that of their minor indexes.
      obtain ⟨htopMem, hgreatest⟩ := SubIndex.maxOf_spec htop
      refine ⟨top, ⟨htopMem, fun other hother => hgreatest _ (List.mem_map_of_mem hother)⟩, ?_⟩
      obtain ⟨highest, hhighest, rfl⟩ := List.mem_map.mp htopMem
      have hle := hgreatest _ hindex
      rw [SubIndex.cmp_isLE, hmajor _ hmem, hmajor _ hhighest] at hle
      exact (hle.resolve_left (UInt32.lt_irrefl _)).2

/-- **What is available at the start**: the range without what is in use. -/
theorem mem_keys_init {k : SubIndex} : k ∈ (init store viewpair majorIndex rng).keys ↔
    k.major = majorIndex ∧ k.minor ≤ (init store viewpair majorIndex rng).highestMinorIndex ∧
      k ∉ store.invoices.map Invoice.index := by
  simp only [keys, init, IndexMap.mem_keys_retain, IndexMap.mem_keys_ofList]
  rw [mem_generateRange (UInt32.le_iff_toNat_le.mpr (Nat.zero_le _))]
  simp [UInt32.le_iff_toNat_le, and_assoc]

/-! ## Extending the range -/

/-- Everything that an extension by one does: the next index is added, unless there is none. -/
theorem extendOne_cases {c c' : SubaddressCache} {k : SubIndex}
    (h : c.extendOne = some (k, c')) :
    k = ⟨c.majorIndex, c.highestMinorIndex + 1⟩ ∧
      c'.highestMinorIndex.toNat = c.highestMinorIndex.toNat + 1 ∧
      k.minor = c'.highestMinorIndex ∧ c'.majorIndex = c.majorIndex ∧
      ∀ k', k' ∈ c'.keys ↔ k' ∈ c.keys ∨ k' = k := by
  unfold extendOne at h
  split at h
  · cases h
  · rename_i hmax
    cases h
    exact ⟨rfl, toNat_succ hmax, rfl, rfl, fun k' => IndexMap.mem_keys_insert⟩

/-- What extending leaves as it was. -/
theorem extendBy_frame (n : ℕ) (c : SubaddressCache) :
    (extendBy n c).2.majorIndex = c.majorIndex ∧
      c.highestMinorIndex ≤ (extendBy n c).2.highestMinorIndex := by
  induction n generalizing c with
  | zero => exact ⟨rfl, UInt32.le_refl _⟩
  | succ n ih =>
      rw [extendBy]
      split
      · exact ⟨rfl, UInt32.le_refl _⟩
      · rename_i k c' hone
        obtain ⟨-, hhigh, -, hmajor, -⟩ := extendOne_cases hone
        refine ⟨(ih c').1.trans hmajor, UInt32.le_trans ?_ (ih c').2⟩
        rw [UInt32.le_iff_toNat_le]
        omega

/-- **The indexes that are added** are those above the old range up to the end of the new one. -/
theorem mem_extension {n : ℕ} {c : SubaddressCache} {k : SubIndex} :
    k ∈ (extendBy n c).1 ↔ k.major = c.majorIndex ∧ c.highestMinorIndex < k.minor ∧
      k.minor ≤ (extendBy n c).2.highestMinorIndex := by
  induction n generalizing c with
  | zero =>
      simp only [extendBy, List.not_mem_nil, false_iff]
      exact fun ⟨_, hlt, hle⟩ => UInt32.not_le.mpr hlt hle
  | succ n ih =>
      rw [extendBy]
      split
      · simp only [List.not_mem_nil, false_iff]
        exact fun ⟨_, hlt, hle⟩ => UInt32.not_le.mpr hlt hle
      · rename_i k' c' hone
        obtain ⟨hk', hhigh, hminor, hmajor, -⟩ := extendOne_cases hone
        have hrest := (extendBy_frame n c').2
        simp only [List.mem_cons, ih, hmajor]
        simp only [UInt32.le_iff_toNat_le, UInt32.lt_iff_toNat_lt, hhigh] at hrest ⊢
        -- One round adds the index right above the range, and the others add those above it.
        constructor
        · rintro (rfl | ⟨hm, hlt, hle⟩)
          · rw [hminor, hhigh]
            exact ⟨by rw [hk'], by omega, hrest⟩
          · exact ⟨hm, by omega, hle⟩
        · rintro ⟨hm, hlt, hle⟩
          by_cases heq : k.minor.toNat = k'.minor.toNat
          · left
            rw [hk'] at heq ⊢
            cases k
            simp only [SubIndex.mk.injEq]
            exact ⟨hm, UInt32.toNat_inj.mp heq⟩
          · rw [hminor, hhigh] at heq
            exact .inr ⟨hm, by omega, hle⟩

/-- **Extending** adds the new indexes to what is available. -/
theorem mem_keys_extendBy {n : ℕ} {c : SubaddressCache} {k : SubIndex} :
    k ∈ (extendBy n c).2.keys ↔ k ∈ c.keys ∨ k ∈ (extendBy n c).1 := by
  induction n generalizing c with
  | zero => simp [extendBy]
  | succ n ih =>
      rw [extendBy]
      split
      · simp
      · rename_i k' c' hone
        rw [ih, (extendOne_cases hone).2.2.2.2, List.mem_cons, or_assoc]

/-! ## Giving out a subaddress -/

/-- Drawing a random number leaves the subaddresses alone. -/
theorem genRange_frame (c : SubaddressCache) (n : ℕ) :
    (c.genRange n).2.majorIndex = c.majorIndex ∧
      (c.genRange n).2.highestMinorIndex = c.highestMinorIndex ∧
      (c.genRange n).2.availableSubaddresses = c.availableSubaddresses := by
  unfold genRange
  split <;> exact ⟨rfl, rfl, rfl⟩

/-- **Giving out a subaddress**: one that was available is not any more, and new ones above the
range may have been added. -/
structure Taken (c : SubaddressCache) (taken : SubIndex) (c' : SubaddressCache) : Prop where
  majorIndex : c'.majorIndex = c.majorIndex
  highest : c.highestMinorIndex ≤ c'.highestMinorIndex
  mem : taken ∈ c.keys
  keys : ∀ k, k ∈ c'.keys ↔ (k ∈ c.keys ∧ k ≠ taken) ∨
    (k.major = c.majorIndex ∧ c.highestMinorIndex < k.minor ∧ k.minor ≤ c'.highestMinorIndex)

/-- Everything that `remove_random` does if it does not panic. -/
theorem removeRandom_cases {c c' : SubaddressCache} {entry : SubIndex × String}
    (h : c.removeRandom = some (entry, c')) : Taken c entry.1 c' := by
  unfold removeRandom at h
  split at h
  · cases h
  · obtain ⟨hmajor, hhigh, havailable⟩ := genRange_frame c c.availableSubaddresses.entries.length
    dsimp only at h
    split at h
    · cases h
    · rename_i entry' available hremove
      rw [havailable] at hremove
      have hkeys := fun {k} => IndexMap.mem_keys_shiftRemoveIndex hremove (k := k)
      -- What is taken was available.
      have hmem : entry'.1 ∈ c.keys := by
        unfold IndexMap.shiftRemoveIndex at hremove
        split at hremove
        · cases hremove
        · rename_i hget
          cases hremove
          exact List.mem_map_of_mem (List.mem_of_getElem? hget)
      split at h
      · -- Few are left, and the range is extended.
        cases h
        obtain ⟨hmajor', hhigh'⟩ := extendBy_frame minAvailableSubaddresses.toNat
          { (c.genRange c.availableSubaddresses.entries.length).2 with
            availableSubaddresses := available }
        refine ⟨hmajor'.trans hmajor, by rw [← hhigh]; exact hhigh', hmem, fun k => ?_⟩
        rw [mem_keys_extendBy, mem_extension]
        simp only [hmajor, hhigh]
        exact or_congr_left hkeys
      · -- The range stays, and nothing lies above it.
        cases h
        refine ⟨hmajor, UInt32.le_of_eq hhigh.symm, hmem, fun k => ?_⟩
        rw [hhigh]
        refine hkeys.trans ⟨.inl, fun hor => hor.resolve_right fun ⟨_, hlt, hle⟩ => ?_⟩
        exact UInt32.not_le.mpr hlt hle

/-- Whether a sub index is of the cache's account and in its range. -/
def InRange (c : SubaddressCache) (k : SubIndex) : Prop :=
  k.major = c.majorIndex ∧ k.minor ≤ c.highestMinorIndex

/-- The range only grows. -/
theorem Taken.inRange {c c' : SubaddressCache} {taken k : SubIndex} (h : Taken c taken c')
    (hk : c.InRange k) : c'.InRange k :=
  ⟨hk.1.trans h.majorIndex.symm, UInt32.le_trans hk.2 h.highest⟩

/-- Without available subaddresses nothing is given out, and otherwise something is. -/
theorem removeRandom_eq_none_iff {c : SubaddressCache} :
    c.removeRandom = none ↔ c.availableSubaddresses.entries = [] := by
  unfold removeRandom
  split
  · rename_i hlen
    exact ⟨fun _ => List.length_eq_zero_iff.mp hlen, fun _ => rfl⟩
  · rename_i hlen
    obtain ⟨-, -, havailable⟩ := genRange_frame c c.availableSubaddresses.entries.length
    have hindex : (c.genRange c.availableSubaddresses.entries.length).1
        < c.availableSubaddresses.entries.length := by
      unfold genRange
      split
      · exact Nat.pos_of_ne_zero hlen
      · exact Nat.mod_lt _ (Nat.pos_of_ne_zero hlen)
    refine ⟨fun h => ?_, fun h => absurd (by rw [h]; rfl) hlen⟩
    dsimp only at h
    rw [havailable, IndexMap.shiftRemoveIndex, List.getElem?_eq_getElem hindex] at h
    dsimp only at h
    split at h <;> cases h

/-! ## What the scanner watches -/

/-- The range that ends with a saturating successor leaves out the greatest index. -/
theorem lt_saturatingSucc {a b : UInt32} : b < U32.saturatingSucc a ↔ b ≤ a ∧ b ≠ u32Max := by
  unfold U32.saturatingSucc
  have hb := b.toNat_lt
  have hne : b ≠ u32Max ↔ b.toNat ≠ 4294967295 := by
    rw [ne_eq, ← UInt32.toNat_inj]
    rfl
  split
  · -- At the greatest index the sum saturates, and that index itself is not below it.
    rename_i hmax
    rw [hne, hmax, UInt32.lt_iff_toNat_lt, UInt32.le_iff_toNat_le]
    show b.toNat < 4294967295 ↔ b.toNat ≤ 4294967295 ∧ _
    omega
  · rename_i hmax
    have ha := a.toNat_lt
    have hne' : a.toNat ≠ 4294967295 := fun heq => hmax (UInt32.toNat_inj.mp heq)
    rw [hne, UInt32.lt_iff_toNat_lt, UInt32.le_iff_toNat_le, toNat_succ hmax]
    omega

/-- **What the checker recognises**: its own account, up to the highest minor index. The ranges are
half open, so that nothing is recognised under the greatest major or minor index. -/
theorem covers_subKeyChecker {c : SubaddressCache} {k : SubIndex} :
    c.subKeyChecker.covers k = true ↔ k.major = c.majorIndex ∧ c.majorIndex ≠ u32Max ∧
      k.minor ≤ c.highestMinorIndex ∧ k.minor ≠ u32Max := by
  simp only [SubKeyChecker.covers, Bool.and_eq_true, decide_eq_true_eq]
  simp only [subKeyChecker, lt_saturatingSucc]
  constructor
  · rintro ⟨⟨⟨hge, hle, hne⟩, -⟩, hminor, hne'⟩
    have heq := UInt32.le_antisymm hle hge
    exact ⟨heq, heq ▸ hne, hminor, hne'⟩
  · rintro ⟨heq, hne, hminor, hne'⟩
    rw [heq]
    refine ⟨⟨⟨UInt32.le_refl _, UInt32.le_refl _, hne⟩, ?_⟩, hminor, hne'⟩
    exact UInt32.le_iff_toNat_le.mpr (Nat.zero_le _)

/-- What calls do with a cache: an address is given out or taken back. -/
inductive Step (c : SubaddressCache) : SubaddressCache → Prop where
  | removeRandom {entry : SubIndex × String} {c' : SubaddressCache}
      (h : c.removeRandom = some (entry, c')) : Step c c'
  | insert (subIndex : SubIndex) (address : String) : Step c (c.insert subIndex address)

/-- The range of a cache only grows. -/
theorem highest_le_of_steps {c c' : SubaddressCache} (h : Relation.ReflTransGen Step c c') :
    c'.majorIndex = c.majorIndex ∧ c.highestMinorIndex ≤ c'.highestMinorIndex := by
  induction h with
  | refl => exact ⟨rfl, UInt32.le_refl _⟩
  | tail _ hstep ih =>
      cases hstep with
      | removeRandom h =>
          have htaken := removeRandom_cases h
          exact ⟨htaken.majorIndex.trans ih.1, UInt32.le_trans ih.2 htaken.highest⟩
      | insert subIndex address => exact ih

/-- **When the stored invoices of an account stay watched.** After `init` the scanner recognises
payments to every stored invoice of the account, and the sub index of none is ever added again, if
and only if each of them is below the first hundred or not above the minor index of the greatest
stored sub index, which may be one of another account. -/
theorem init_watches_iff (store : Store) (viewpair : SubIndex → String) (majorIndex : UInt32)
    (rng : List ℕ) :
    ((∀ invoice ∈ store.invoices, invoice.index.major = majorIndex →
        invoice.index.minor ≤ (init store viewpair majorIndex rng).highestMinorIndex ∧
        (init store viewpair majorIndex rng).subKeyChecker.covers invoice.index = true) ∧
      ∀ c, Relation.ReflTransGen Step (init store viewpair majorIndex rng) c →
        ∀ n, ∀ invoice ∈ store.invoices, invoice.index ∉ (extendBy n c).1) ↔
    ∀ invoice ∈ store.invoices, invoice.index.major = majorIndex →
      majorIndex ≠ u32Max ∧ invoice.index.minor ≠ u32Max ∧
      (invoice.index.minor < minAvailableSubaddresses ∨
        ∃ top, IsGreatestStored store top ∧ invoice.index.minor ≤ top.minor) := by
  constructor
  · rintro ⟨hwatched, -⟩ invoice hmem heq
    obtain ⟨hle, hcovers⟩ := hwatched invoice hmem heq
    obtain ⟨-, hne, -, hne'⟩ := covers_subKeyChecker.mp hcovers
    exact ⟨hne, hne', le_highest_init.mp hle⟩
  · intro h
    refine ⟨fun invoice hmem heq => ?_, fun c hsteps n invoice hmem hadded => ?_⟩
    · obtain ⟨hne, hne', hle⟩ := h invoice hmem heq
      rw [← le_highest_init] at hle
      exact ⟨hle, covers_subKeyChecker.mpr ⟨heq, hne, hle, hne'⟩⟩
    · -- What is added later lies above the range at the start, which has only grown since.
      obtain ⟨hmajor', hgrown⟩ := highest_le_of_steps hsteps
      obtain ⟨heq, hlt, -⟩ := mem_extension.mp hadded
      obtain ⟨-, -, hle⟩ := h invoice hmem (heq.trans hmajor')
      rw [← le_highest_init] at hle
      exact UInt32.not_le.mpr hlt (UInt32.le_trans hle hgrown)

/-- Two stored invoices, the second of a later account. -/
def mixedStore : Store :=
  ⟨[Invoice.new "" ⟨0, 100⟩ 1 10 1 1 "", Invoice.new "" ⟨1, 0⟩ 1 10 1 1 ""], fun _ => none, none,
    by decide⟩

/-- **An invoice that is not watched**: the other account hides the hundredth subaddress, which is
not recognised and is the first to be added again. -/
theorem init_misses_stored :
    ¬ (100 : UInt32) ≤ (init mixedStore (fun _ => "") 0 []).highestMinorIndex ∧
    (init mixedStore (fun _ => "") 0 []).subKeyChecker.covers ⟨0, 100⟩ = false ∧
    (⟨0, 100⟩ : SubIndex) ∈ mixedStore.invoices.map Invoice.index ∧
    (⟨0, 100⟩ : SubIndex) ∈ (extendBy 1 (init mixedStore (fun _ => "") 0 [])).1 := by
  decide +kernel

end SubaddressCache

end AcceptXmr
