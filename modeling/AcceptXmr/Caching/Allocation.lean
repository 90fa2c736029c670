import AcceptXmr.Caching.SubaddressCache

/-! # Running out of subaddresses

`remove_random` draws a position below the number of available subaddresses, and drawing from none
panics. It tops the cache up after it has taken an address, not before: a cache that has an address
keeps one as long as its range can be extended, but one that starts without any never gets one. At
the start the range ends at the greatest stored minor index, or at 99, and pending invoices can take
all of it.

* **`keys_ne_nil_of_steps`** — a cache that has an address has one after any calls.
* **`allocation_never_panics_iff`** — when `remove_random` never panics. -/

namespace AcceptXmr

namespace SubaddressCache

/-! ## One call -/

theorem keys_eq_nil_iff {c : SubaddressCache} :
    c.keys = [] ↔ c.availableSubaddresses.entries = [] := List.map_eq_nil_iff

/-- Extending a range that has not come to its end makes something available. -/
theorem keys_extendBy_ne_nil {c : SubaddressCache} (h : c.highestMinorIndex ≠ u32Max) (n : ℕ) :
    (extendBy (n + 1) c).2.keys ≠ [] := by
  have hone : ∃ k c', c.extendOne = some (k, c') := by
    rw [extendOne, if_neg h]
    exact ⟨_, _, rfl⟩
  obtain ⟨k, c', hone⟩ := hone
  have hadded : k ∈ (extendBy (n + 1) c).1 := by
    rw [extendBy, hone]
    exact List.mem_cons_self
  exact List.ne_nil_of_mem (mem_keys_extendBy.mpr (.inr hadded))

/-- **Taking an address leaves one**: more than a hundred are left, or new ones are added. -/
theorem keys_ne_nil_of_removeRandom {c c' : SubaddressCache} {entry : SubIndex × String}
    (h : c.removeRandom = some (entry, c')) (hend : c.highestMinorIndex ≠ u32Max) :
    c'.keys ≠ [] := by
  unfold removeRandom at h
  split at h
  · cases h
  · obtain ⟨-, hhigh, -⟩ := genRange_frame c c.availableSubaddresses.entries.length
    dsimp only at h
    split at h
    · cases h
    · rename_i entry' available hremove
      split at h
      · cases h
        exact keys_extendBy_ne_nil (by rw [hhigh]; exact hend) 99
      · rename_i hmany
        cases h
        intro hnil
        rw [keys_eq_nil_iff] at hnil
        exact hmany (by rw [hnil]; exact Nat.zero_le _)

/-- An address that is taken back is available. -/
theorem keys_insert_ne_nil (c : SubaddressCache) (subIndex : SubIndex) (address : String) :
    (c.insert subIndex address).keys ≠ [] :=
  List.ne_nil_of_mem (IndexMap.mem_keys_insert.mpr (.inr rfl))

/-- **An address can be taken** if one is available. -/
theorem removeRandom_taken {c : SubaddressCache} (h : c.keys ≠ []) :
    ∃ entry c', c.removeRandom = some (entry, c') ∧ Taken c entry.1 c' := by
  have hsome : c.removeRandom ≠ none := by
    intro hnone
    exact h (keys_eq_nil_iff.mpr (removeRandom_eq_none_iff.mp hnone))
  obtain ⟨⟨entry, c'⟩, hremove⟩ := Option.ne_none_iff_exists'.mp hsome
  exact ⟨entry, c', hremove, removeRandom_cases hremove⟩

/-! ## Runs -/

/-- A call after which the range has not come to its end. -/
def StepBelow (c c' : SubaddressCache) : Prop := Step c c' ∧ c'.highestMinorIndex ≠ u32Max

/-- **A cache that has an address keeps one**, as long as its range can be extended. -/
theorem keys_ne_nil_of_steps {c c' : SubaddressCache} (hsteps : Relation.ReflTransGen StepBelow c c')
    (hend : c.highestMinorIndex ≠ u32Max) (h : c.keys ≠ []) : c'.keys ≠ [] := by
  have hboth : c'.highestMinorIndex ≠ u32Max ∧ c'.keys ≠ [] := by
    induction hsteps with
    | refl => exact ⟨hend, h⟩
    | tail _ hstep ih =>
        obtain ⟨hstep, hend'⟩ := hstep
        refine ⟨hend', ?_⟩
        cases hstep with
        | removeRandom hremove => exact keys_ne_nil_of_removeRandom hremove ih.1
        | insert subIndex address => exact keys_insert_ne_nil _ subIndex address
  exact hboth.2

section Start

variable {store : Store} {viewpair : SubIndex → String} {majorIndex : UInt32} {rng : List ℕ}

/-- The range at the start has not come to its end, unless the greatest stored index has. -/
theorem highest_init_ne (h : ∀ top, IsGreatestStored store top → top.minor ≠ u32Max) :
    (init store viewpair majorIndex rng).highestMinorIndex ≠ u32Max := by
  intro heq
  have hle : u32Max ≤ (init store viewpair majorIndex rng).highestMinorIndex :=
    UInt32.le_of_eq heq.symm
  rw [le_highest_init] at hle
  rcases hle with hlt | ⟨top, htop, hle⟩
  · exact absurd hlt (by decide)
  · refine h top htop (UInt32.le_antisymm ?_ hle)
    rw [UInt32.le_iff_toNat_le]
    exact Nat.le_of_lt_succ top.minor.toNat_lt

/-- Something is available at the start if the range has an index that no invoice uses. -/
theorem keys_init_ne_nil_iff :
    (init store viewpair majorIndex rng).keys ≠ [] ↔
      ∃ m : UInt32, (m < minAvailableSubaddresses ∨
          ∃ top, IsGreatestStored store top ∧ m ≤ top.minor) ∧
        (⟨majorIndex, m⟩ : SubIndex) ∉ store.invoices.map Invoice.index := by
  constructor
  · intro h
    obtain ⟨⟨major, minor⟩, hk⟩ := List.exists_mem_of_ne_nil _ h
    obtain ⟨rfl, hle, hunused⟩ := mem_keys_init.mp hk
    exact ⟨minor, le_highest_init.mp hle, hunused⟩
  · rintro ⟨m, hle, hunused⟩
    exact List.ne_nil_of_mem (mem_keys_init.mpr ⟨rfl, le_highest_init.mpr hle, hunused⟩)

end Start

/-- **When address allocation never panics.** Whatever calls came before, `remove_random` finds an
address and takes it away, if and only if at the start some index of the account is unused among the
first hundred and those up to the minor index of the greatest stored sub index. -/
theorem allocation_never_panics_iff (store : Store) (viewpair : SubIndex → String)
    (majorIndex : UInt32) (rng : List ℕ)
    (hend : ∀ top, IsGreatestStored store top → top.minor ≠ u32Max) :
    (∀ c, Relation.ReflTransGen StepBelow (init store viewpair majorIndex rng) c →
        c.keys ≠ [] ∧ ∃ entry c', c.removeRandom = some (entry, c') ∧ Taken c entry.1 c') ↔
      ∃ m : UInt32, (m < minAvailableSubaddresses ∨
          ∃ top, IsGreatestStored store top ∧ m ≤ top.minor) ∧
        (⟨majorIndex, m⟩ : SubIndex) ∉ store.invoices.map Invoice.index := by
  have hkeys := @keys_init_ne_nil_iff store viewpair majorIndex rng
  rw [← hkeys]
  constructor
  · intro h
    exact (h _ .refl).1
  · intro hstart c hsteps
    have hkeys := keys_ne_nil_of_steps hsteps (highest_init_ne hend) hstart
    exact ⟨hkeys, removeRandom_taken hkeys⟩

/-- A hundred pending invoices, for the first hundred subaddresses of an account. -/
def fullStore : Store :=
  ⟨(List.range 100).map fun m => Invoice.new "" ⟨0, UInt32.ofNat m⟩ 1 10 1 1 "", fun _ => none, none,
    by decide +kernel⟩

/-- All of these invoices but the last one. -/
def crowdedStore : Store :=
  ⟨(List.range 99).map fun m => Invoice.new "" ⟨0, UInt32.ofNat m⟩ 1 10 1 1 "", fun _ => none, none,
    by decide +kernel⟩

/-- The first indexes of an account. -/
theorem mem_firstIndexes {count : ℕ} (hcount : count ≤ 100) {k : SubIndex} :
    k ∈ (List.range count).map (fun m => (⟨0, UInt32.ofNat m⟩ : SubIndex)) ↔
      k.major = 0 ∧ k.minor.toNat < count := by
  constructor
  · intro hk
    obtain ⟨m, hm, rfl⟩ := List.mem_map.mp hk
    rw [List.mem_range] at hm
    refine ⟨rfl, ?_⟩
    show (UInt32.ofNat m).toNat < count
    rw [UInt32.toNat_ofNat_of_lt' (by rw [UInt32.size]; omega)]
    exact hm
  · obtain ⟨major, minor⟩ := k
    rintro ⟨rfl, hlt⟩
    refine List.mem_map.mpr ⟨minor.toNat, List.mem_range.mpr hlt, ?_⟩
    show (⟨0, UInt32.ofNat minor.toNat⟩ : SubIndex) = ⟨0, minor⟩
    rw [UInt32.ofNat_toNat]

/-- The invoices use the first hundred indexes and no others. -/
theorem mem_fullStore {k : SubIndex} :
    k ∈ fullStore.invoices.map Invoice.index ↔ k.major = 0 ∧ k.minor < minAvailableSubaddresses := by
  have hsize : minAvailableSubaddresses.toNat = 100 := rfl
  rw [UInt32.lt_iff_toNat_lt, hsize, fullStore, List.map_map]
  exact mem_firstIndexes (Nat.le_refl _)

/-- The invoices use the first ninety-nine indexes and no others. -/
theorem mem_crowdedStore {k : SubIndex} :
    k ∈ crowdedStore.invoices.map Invoice.index ↔ k.major = 0 ∧ k.minor.toNat < 99 := by
  rw [crowdedStore, List.map_map]
  exact mem_firstIndexes (by decide)

/-- With ninety-nine pending invoices one subaddress is left to begin with, and it is enough. -/
theorem allocation_never_panics_crowded :
    crowdedStore.invoices.length = 99 ∧
    (⟨0, 99⟩ : SubIndex) ∉ crowdedStore.invoices.map Invoice.index ∧
    ∀ c, Relation.ReflTransGen StepBelow (init crowdedStore (fun _ => "") 0 []) c →
      c.keys ≠ [] ∧ ∃ entry c', c.removeRandom = some (entry, c') ∧ Taken c entry.1 c' := by
  have hunused : (⟨0, 99⟩ : SubIndex) ∉ crowdedStore.invoices.map Invoice.index := by
    rw [mem_crowdedStore]
    rintro ⟨-, hlt⟩
    exact absurd hlt (by decide)
  refine ⟨rfl, hunused, (allocation_never_panics_iff crowdedStore (fun _ => "") 0 [] ?_).mpr
    ⟨99, .inl (by decide), hunused⟩⟩
  rintro top ⟨htop, -⟩ hmax
  have hlt := (mem_crowdedStore.mp htop).2
  rw [hmax] at hlt
  exact absurd hlt (by decide)

/-- **Allocation that panics**: a hundred pending invoices leave nothing to draw from. -/
theorem allocation_panics :
    (init fullStore (fun _ => "") 0 []).highestMinorIndex ≠ u32Max ∧
      (init fullStore (fun _ => "") 0 []).keys = [] ∧
      (init fullStore (fun _ => "") 0 []).removeRandom = none := by
  have hkeys : (init fullStore (fun _ => "") 0 []).keys = [] := by
    by_contra hne
    obtain ⟨m, hm, hunused⟩ := keys_init_ne_nil_iff.mp hne
    rw [mem_fullStore] at hunused
    rcases hm with hlt | ⟨top, ⟨htop, -⟩, hle⟩
    · exact hunused ⟨rfl, hlt⟩
    · exact hunused ⟨rfl, UInt32.lt_of_le_of_lt hle (mem_fullStore.mp htop).2⟩
  refine ⟨highest_init_ne ?_, hkeys, ?_⟩
  · rintro top ⟨htop, -⟩ hmax
    have hlt := (mem_fullStore.mp htop).2
    rw [hmax] at hlt
    exact absurd hlt (by decide)
  · exact removeRandom_eq_none_iff.mpr (keys_eq_nil_iff.mp hkeys)

end SubaddressCache

end AcceptXmr
