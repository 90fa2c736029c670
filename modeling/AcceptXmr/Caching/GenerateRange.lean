import AcceptXmr.Caching.SubaddressCache

/-! # Ranges of subaddresses

The loop of `generate_range` round by round. It compares whole indexes and increments the minor one,
and so it ends either behind the range or, where the range goes on into other accounts, at the
greatest minor index.

* **`generateRange_exact`** — the loop ends, and what it has generated then. -/

namespace AcceptXmr

/-- The `while` loop of `generate_range`, `none` if it has not ended within `fuel` rounds. -/
def generateRangeLoop (viewpair : SubIndex → String) (stop : SubIndex) :
    ℕ → SubIndex → List (SubIndex × String) → Option (List (SubIndex × String))
  | 0, _, _ => none
  | fuel + 1, current, subaddresses =>
      if (current.cmp stop).isLE then
        let subaddresses := subaddresses ++ [(current, viewpair current)]
        -- `break` where `checked_add` overflows.
        if current.minor = u32Max then some subaddresses
        else
          generateRangeLoop viewpair stop fuel { current with minor := current.minor + 1 }
            subaddresses
      else some subaddresses

/-- `generate_range` with a bound on the rounds of its loop. -/
def generateRangeWithin (fuel : ℕ) (start stop : SubIndex) (viewpair : SubIndex → String) :
    Option (List (SubIndex × String)) :=
  if (stop.cmp start).isLT then some [] else generateRangeLoop viewpair stop fuel start []

/-! ## The order -/

/-- The strict order compares major indexes first, too. -/
theorem SubIndex.cmp_eq_lt_iff {a b : SubIndex} :
    a.cmp b = .lt ↔ a.major < b.major ∨ a.major = b.major ∧ a.minor < b.minor := by
  unfold cmp
  cases h : compare a.major b.major with
  | lt => exact iff_of_true rfl (.inl (Std.compare_eq_lt.mp h))
  | eq =>
      have heq : a.major = b.major := Std.compare_eq_iff_eq.mp h
      simp [heq, UInt32.lt_irrefl, Std.compare_eq_lt]
  | gt =>
      have hgt : b.major < a.major := Std.compare_eq_gt.mp h
      have hne : a.major ≠ b.major := fun heq => UInt32.lt_irrefl _ (heq ▸ hgt)
      simp [hne, UInt32.lt_asymm hgt]

/-! ## The loop -/

section Loop

variable {viewpair : SubIndex → String} {start stop current : SubIndex} {fuel : ℕ}

/-- **The loop ends.** A round for every minor index that is left is enough. -/
theorem generateRangeLoop_eq (subaddresses : List (SubIndex × String))
    (h : UInt32.size - current.minor.toNat ≤ fuel) :
    generateRangeLoop viewpair stop fuel current subaddresses =
      some (subaddresses ++
        generateRangeFrom viewpair stop (UInt32.size - current.minor.toNat) current) := by
  have hlt : current.minor.toNat < UInt32.size := current.minor.toNat_lt
  induction fuel generalizing current subaddresses with
  | zero => omega
  | succ fuel ih =>
      have hleft : UInt32.size - current.minor.toNat
          = UInt32.size - (current.minor.toNat + 1) + 1 := by omega
      rw [generateRangeLoop, hleft, generateRangeFrom]
      by_cases hle : (current.cmp stop).isLE = true
      · rw [if_pos hle, if_pos hle]
        by_cases hmax : current.minor = u32Max
        · rw [if_pos hmax, if_pos hmax]
        · have hsucc := toNat_succ hmax
          have hnext : ({ current with minor := current.minor + 1 } : SubIndex).minor.toNat
              < UInt32.size := UInt32.toNat_lt _
          rw [if_neg hmax, if_neg hmax, ih _ (by rw [hsucc]; omega) hnext, hsucc,
            List.append_assoc]
          rfl
      · rw [if_neg hle, if_neg hle, List.append_nil]

/-- The loop goes upwards. -/
theorem pairwise_generateRangeFrom (hfuel : UInt32.size ≤ fuel + current.minor.toNat) :
    ((generateRangeFrom viewpair stop fuel current).map Prod.fst).Pairwise
      fun a b => a.cmp b = .lt := by
  induction fuel generalizing current with
  | zero => exact .nil
  | succ fuel ih =>
      rw [generateRangeFrom]
      split
      · rw [List.map_cons]
        split
        · exact List.pairwise_singleton _ _
        · rename_i hmax
          have hsucc := toNat_succ hmax
          have hrest : UInt32.size ≤ fuel + (current.minor + 1).toNat := by
            rw [hsucc]
            omega
          refine List.pairwise_cons.mpr ⟨fun k hk => ?_, ih hrest⟩
          obtain ⟨hmajor, hminor, -⟩ := (mem_generateRangeFrom hrest).mp hk
          rw [UInt32.le_iff_toNat_le, hsucc] at hminor
          exact SubIndex.cmp_eq_lt_iff.mpr (.inr ⟨hmajor.symm, UInt32.lt_iff_toNat_lt.mpr hminor⟩)
      · exact .nil

/-- Every index comes with its address. -/
theorem address_of_mem_generateRangeFrom {e : SubIndex × String}
    (he : e ∈ generateRangeFrom viewpair stop fuel current) : e.2 = viewpair e.1 := by
  induction fuel generalizing current with
  | zero => cases he
  | succ fuel ih =>
      rw [generateRangeFrom] at he
      split at he
      · rcases List.mem_cons.mp he with rfl | he
        · rfl
        · split at he
          · cases he
          · exact ih he
      · cases he

end Loop

/-! ## The range -/

section Range

variable (start stop : SubIndex) (viewpair : SubIndex → String)

/-- The fuel of `generateRange` is enough for every minor index that is left. -/
theorem size_le_left : UInt32.size ≤ UInt32.size - start.minor.toNat + start.minor.toNat := by
  have hlt : start.minor.toNat < UInt32.size := start.minor.toNat_lt
  omega

theorem pairwise_generateRange :
    ((generateRange start stop viewpair).map Prod.fst).Pairwise fun a b => a.cmp b = .lt := by
  unfold generateRange
  split
  · exact .nil
  · exact pairwise_generateRangeFrom (size_le_left start)

/-- A range goes to its end, or to the end of its account if it ends in a later one. -/
theorem mem_generateRange_iff {k : SubIndex} :
    k ∈ (generateRange start stop viewpair).map Prod.fst ↔
      k.major = start.major ∧ start.minor ≤ k.minor ∧
        (start.major = stop.major ∧ k.minor ≤ stop.minor ∨ start.major < stop.major) := by
  unfold generateRange
  split
  · -- Nothing is between an index and a smaller one.
    rename_i hbefore
    rw [Ordering.isLT_iff_eq_lt, SubIndex.cmp_eq_lt_iff] at hbefore
    refine iff_of_false List.not_mem_nil ?_
    rintro ⟨-, hstart, ⟨hsame, hstop⟩ | hlater⟩
    · rcases hbefore with hbefore | ⟨-, hbefore⟩
      · exact UInt32.lt_irrefl _ (hsame ▸ hbefore)
      · exact UInt32.not_le.mpr hbefore (UInt32.le_trans hstart hstop)
    · rcases hbefore with hbefore | ⟨hsame, -⟩
      · exact UInt32.lt_asymm hlater hbefore
      · exact UInt32.lt_irrefl _ (hsame ▸ hlater)
  · rw [mem_generateRangeFrom (size_le_left start), SubIndex.cmp_isLE]
    refine and_congr_right fun hmajor => and_congr_right fun _ => ?_
    rw [hmajor, or_comm]

end Range

/-- **Range generation is exact and ends.** From any index to any other, the loop ends, and what it
has generated are the indexes of the first one's account from there on, up to the second one if that
is in the same account and up to the greatest minor index if it is in a later one, in strictly
increasing order and each with its address. -/
theorem generateRange_exact (start stop : SubIndex) (viewpair : SubIndex → String) :
    (∀ fuel, UInt32.size ≤ fuel →
      generateRangeWithin fuel start stop viewpair = some (generateRange start stop viewpair)) ∧
    ((generateRange start stop viewpair).map Prod.fst).Pairwise (fun a b => a.cmp b = .lt) ∧
    ((generateRange start stop viewpair).map Prod.fst).Nodup ∧
    (∀ k, k ∈ (generateRange start stop viewpair).map Prod.fst ↔
      k.major = start.major ∧ start.minor ≤ k.minor ∧
        (start.major = stop.major ∧ k.minor ≤ stop.minor ∨ start.major < stop.major)) ∧
    ∀ e ∈ generateRange start stop viewpair, e.2 = viewpair e.1 := by
  have hsorted := pairwise_generateRange start stop viewpair
  refine ⟨fun fuel h => ?_, hsorted, ?_, fun k => mem_generateRange_iff start stop viewpair,
    fun e he => ?_⟩
  · unfold generateRangeWithin generateRange
    split
    · rfl
    · exact generateRangeLoop_eq [] (by omega)
  · refine hsorted.imp fun {a b} hab heq => ?_
    rw [heq, SubIndex.cmp, Std.compare_self] at hab
    exact absurd (Std.compare_eq_lt.mp hab) (UInt32.lt_irrefl _)
  · unfold generateRange at he
    split at he
    · cases he
    · exact address_of_mem_generateRangeFrom he

end AcceptXmr
