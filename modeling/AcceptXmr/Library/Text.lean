import Mathlib.Data.List.DropRight
import Mathlib.Data.List.Infix

/-! # Texts

A text is the list of its characters. The operations are those of a string slice that programs use
to take texts apart: replacing all occurrences of a pattern, trimming, and splitting.

* **`replace_singleton`** — replacing one character.
* **`replace_append_cons`** — a character that is not in the pattern keeps both sides apart.
* **`replace_eq_self`**, **`length_remove_lt`** — removing a pattern that does not occur, and one
  that does.
* **`dropWhile_append_cons`**, **`rdropWhile_append_cons`** — trimming stops at a character that
  stays. -/

namespace AcceptXmr

/-- A text, character by character. -/
abbrev Text := List Char

namespace Text

/-- The rest of `replace`, where `skip` characters of an occurrence are still to be passed. -/
def replaceFrom (pattern replacement : Text) : ℕ → Text → Text
  | _, [] => []
  | skip + 1, _ :: rest => replaceFrom pattern replacement skip rest
  | 0, c :: rest =>
      if pattern <+: c :: rest then
        replacement ++ replaceFrom pattern replacement (pattern.length - 1) rest
      else c :: replaceFrom pattern replacement 0 rest

/-- `replace`: every occurrence of a pattern, from left to right and without overlaps. The pattern
is not empty. -/
def replace (text pattern replacement : Text) : Text := replaceFrom pattern replacement 0 text

/-- **Replacing a character** replaces each of them on its own. -/
theorem replace_singleton (text : Text) (c : Char) (replacement : Text) :
    replace text [c] replacement = text.flatMap fun d => if d = c then replacement else [d] := by
  induction text with
  | nil => rfl
  | cons d text ih =>
      rw [replace] at ih
      rw [replace, replaceFrom, List.flatMap_cons, ← ih]
      by_cases h : d = c
      · subst h
        simp
      · have hno : ¬ [c] <+: d :: text := by
          rw [List.cons_prefix_cons]
          exact fun heq => h heq.1.symm
        rw [if_neg hno, if_neg h]
        rfl

/-! ## Replacing patterns -/

section Replace

variable {pattern replacement text front back : Text} {c : Char}

/-- A pattern without the character `c` that occurs before `c` ends before `c`. -/
theorem prefix_append_cons_iff (hc : c ∉ pattern) :
    pattern <+: front ++ c :: back ↔ pattern <+: front := by
  constructor
  · intro h
    by_cases hle : pattern.length ≤ front.length
    · exact List.prefix_of_prefix_length_le h (List.prefix_append front _) hle
    · have hfront : front ++ [c] <+: front ++ c :: back := by simp
      have hlen : (front ++ [c]).length ≤ pattern.length := by simp; omega
      have hsub := List.prefix_of_prefix_length_le hfront h hlen
      exact absurd (hsub.subset (by simp)) hc
  · exact fun h => h.trans (List.prefix_append front _)

theorem replaceFrom_append_cons (hc : c ∉ pattern) (hne : pattern ≠ []) (skip : ℕ)
    (hskip : skip ≤ front.length) :
    replaceFrom pattern replacement skip (front ++ c :: back) =
      replaceFrom pattern replacement skip front ++
        c :: replaceFrom pattern replacement 0 back := by
  induction front generalizing skip with
  | nil =>
      obtain rfl : skip = 0 := by simpa using hskip
      have hno : ¬ pattern <+: c :: back := by
        intro h
        have hnil : pattern <+: ([] : Text) := (prefix_append_cons_iff hc).mp h
        exact hne (List.prefix_nil.mp hnil)
      simp only [List.nil_append, replaceFrom, if_neg hno]
  | cons d front ih =>
      cases skip with
      | succ skip =>
          simp only [List.cons_append, replaceFrom]
          exact ih skip (by simpa using hskip)
      | zero =>
          have hiff : pattern <+: (d :: front) ++ c :: back ↔ pattern <+: d :: front :=
            prefix_append_cons_iff hc
          rw [List.cons_append] at hiff
          rw [List.cons_append, replaceFrom, replaceFrom]
          by_cases h : pattern <+: d :: front
          · have hlen : pattern.length - 1 ≤ front.length := by
              have := h.length_le
              simp at this
              omega
            rw [if_pos (hiff.mpr h), if_pos h, ih _ hlen, List.append_assoc]
          · rw [if_neg (hiff.not.mpr h), if_neg h, ih 0 (Nat.zero_le _), List.cons_append]

/-- **A character that is not in the pattern** keeps its two sides apart. -/
theorem replace_append_cons (hc : c ∉ pattern) (hne : pattern ≠ []) :
    replace (front ++ c :: back) pattern replacement =
      replace front pattern replacement ++ c :: replace back pattern replacement :=
  replaceFrom_append_cons hc hne 0 (Nat.zero_le _)

/-- A character that is not in the pattern stays. -/
theorem mem_replace (hc : c ∉ pattern) (hne : pattern ≠ []) (hmem : c ∈ text) :
    c ∈ replace text pattern replacement := by
  obtain ⟨front, back, rfl⟩ := List.append_of_mem hmem
  rw [replace_append_cons hc hne]
  simp

theorem replaceFrom_append (skipped : Text) :
    replaceFrom pattern replacement skipped.length (skipped ++ text) =
      replaceFrom pattern replacement 0 text := by
  induction skipped with
  | nil => rfl
  | cons d skipped ih => exact ih

/-- An occurrence at the start is replaced. -/
theorem replace_prefix (hne : pattern ≠ []) :
    replace (pattern ++ text) pattern replacement =
      replacement ++ replace text pattern replacement := by
  obtain ⟨d, pattern, rfl⟩ := List.exists_cons_of_ne_nil hne
  have hpre : d :: pattern <+: d :: (pattern ++ text) := List.prefix_append (d :: pattern) text
  rw [replace, List.cons_append, replaceFrom, if_pos hpre, List.length_cons, Nat.add_sub_cancel,
    replaceFrom_append]
  rfl

/-- A text that does not start with the pattern keeps its first character. -/
theorem replace_cons (h : ¬ pattern <+: c :: text) :
    replace (c :: text) pattern replacement = c :: replace text pattern replacement := by
  rw [replace, replaceFrom, if_neg h]
  rfl

/-- **A pattern that does not occur** is not replaced. -/
theorem replace_eq_self (h : ¬ pattern <:+: text) : replace text pattern replacement = text := by
  induction text with
  | nil => rfl
  | cons d text ih =>
      have hpre : ¬ pattern <+: d :: text := fun hp => h hp.isInfix
      have hrest : ¬ pattern <:+: text := fun hi => h (hi.trans (List.suffix_cons d text).isInfix)
      rw [replace_cons hpre, ih hrest]

theorem length_removeFrom_le (skip : ℕ) :
    (replaceFrom pattern [] skip text).length ≤ text.length := by
  induction text generalizing skip with
  | nil => simp [replaceFrom]
  | cons d text ih =>
      cases skip with
      | succ skip => exact (ih skip).trans (Nat.le_succ _)
      | zero =>
          rw [replaceFrom]
          split
          · exact (ih _).trans (Nat.le_succ _)
          · exact Nat.succ_le_succ (ih 0)

/-- Removing a pattern adds nothing. -/
theorem mem_of_mem_remove (h : c ∈ replace text pattern []) : c ∈ text := by
  have hsub : ∀ skip, replaceFrom pattern [] skip text ⊆ text := by
    clear h
    induction text with
    | nil => exact fun _ => List.Subset.refl []
    | cons d text ih =>
        intro skip
        cases skip with
        | succ skip => exact List.Subset.trans (ih skip) (List.subset_cons_self d text)
        | zero =>
            rw [replaceFrom]
            split
            · exact List.Subset.trans (ih _) (List.subset_cons_self d text)
            · exact List.cons_subset_cons d (ih 0)
  exact hsub 0 h

/-- **Removing a pattern that occurs** shortens the text. -/
theorem length_remove_lt (h : pattern <:+: text) (hne : pattern ≠ []) :
    (replace text pattern []).length < text.length := by
  induction text with
  | nil => exact absurd (List.infix_nil.mp h) hne
  | cons d text ih =>
      by_cases hpre : pattern <+: d :: text
      · rw [replace, replaceFrom, if_pos hpre]
        exact Nat.lt_succ_of_le (length_removeFrom_le _)
      · have hrest : pattern <:+: text := by
          rcases List.infix_cons_iff.mp h with h | h
          · exact absurd h hpre
          · exact h
        rw [replace_cons hpre]
        exact Nat.succ_lt_succ (ih hrest)

end Replace

/-! ## Trimming and splitting -/

/-- Unicode's white space. -/
def isWhitespace (c : Char) : Bool :=
  let n := c.toNat
  (0x9 ≤ n && n ≤ 0xd) || n == 0x20 || n == 0x85 || n == 0xa0 || n == 0x1680 ||
    (0x2000 ≤ n && n ≤ 0x200a) || n == 0x2028 || n == 0x2029 || n == 0x202f || n == 0x205f ||
    n == 0x3000

/-- `trim_start_matches`, of one character. -/
def trimStartMatches (text : Text) (c : Char) : Text := text.dropWhile (· == c)

/-- The rest of `trim_start_matches` with a text, for so many occurrences. -/
def trimStartMatchesFrom (pattern : Text) : ℕ → Text → Text
  | 0, text => text
  | fuel + 1, text =>
      if pattern <+: text then trimStartMatchesFrom pattern fuel (text.drop pattern.length) else text

/-- `trim_start_matches`, of a text that is not empty. -/
def trimStartMatchesText (text pattern : Text) : Text :=
  trimStartMatchesFrom pattern text.length text

/-- `trim_end_matches`, of one character. -/
def trimEndMatches (text : Text) (c : Char) : Text := text.rdropWhile (· == c)

/-- `trim_end`. -/
def trimEnd (text : Text) : Text := text.rdropWhile isWhitespace

/-- `trim`. -/
def trim (text : Text) : Text := trimEnd (text.dropWhile isWhitespace)

/-- `split`, at one character. -/
def split (text : Text) (separator : Char) : List Text := text.splitOn separator

section Trim

variable {p : Char → Bool} {front back text : Text} {c d : Char}

/-- What is dropped at the start ends before a character that stays. -/
theorem dropWhile_append_cons (h : p c = false) :
    (front ++ c :: back).dropWhile p = front.dropWhile p ++ c :: back := by
  rw [List.dropWhile_append, List.dropWhile_cons_of_neg (by simp [h])]
  split
  · next hnil => rw [List.isEmpty_iff.mp hnil, List.nil_append]
  · rfl

/-- What is dropped at the end starts after a character that stays. -/
theorem rdropWhile_append_cons (h : p c = false) :
    (front ++ c :: back).rdropWhile p = front ++ c :: back.rdropWhile p := by
  have hrev : (front ++ c :: back).reverse = back.reverse ++ c :: front.reverse := by simp
  rw [List.rdropWhile, hrev, dropWhile_append_cons h]
  simp [List.rdropWhile]

theorem trimEnd_append_cons (h : isWhitespace c = false) :
    trimEnd (front ++ c :: back) = front ++ c :: trimEnd back :=
  rdropWhile_append_cons h

/-- A first character that stays is the first one after trimming at both ends. -/
theorem trimmed_cons (h : p c = false) :
    ((c :: text).dropWhile p).rdropWhile p = c :: text.rdropWhile p := by
  rw [List.dropWhile_cons_of_neg (by simp [h])]
  have hkept : ([] ++ c :: text).rdropWhile p = [] ++ c :: text.rdropWhile p :=
    rdropWhile_append_cons h
  exact hkept

/-- A text without the character is not trimmed. -/
theorem trimStartMatches_eq_self (h : c ∉ text) : trimStartMatches text c = text := by
  cases text with
  | nil => rfl
  | cons d text =>
      have hd : d ≠ c := fun heq => h (by simp [heq])
      exact List.dropWhile_cons_of_neg (by simpa using hd)

/-- A pattern that begins with a text is dropped once if it contains a character that does not
follow. -/
theorem trimStartMatchesText_append {pattern : Text} (hc : c ∈ pattern) (h : c ∉ text) :
    trimStartMatchesText (pattern ++ text) pattern = text := by
  have hstop : ∀ fuel, trimStartMatchesFrom pattern fuel text = text := by
    intro fuel
    cases fuel with
    | zero => rfl
    | succ fuel =>
        rw [trimStartMatchesFrom, if_neg]
        exact fun hbegins => h (hbegins.subset hc)
  obtain ⟨d, rest, rfl⟩ := List.exists_cons_of_ne_nil (List.ne_nil_of_mem hc)
  rw [trimStartMatchesText, List.cons_append, List.length_cons, trimStartMatchesFrom, if_pos,
    ← List.cons_append, List.drop_left, hstop]
  exact ⟨text, rfl⟩

theorem trimEndMatches_eq_self (h : c ∉ text) : trimEndMatches text c = text := by
  rw [trimEndMatches, List.rdropWhile_eq_self_iff]
  intro hne heq
  rw [beq_iff_eq] at heq
  exact h (heq ▸ List.getLast_mem hne)

/-- Quotes around a text are trimmed. -/
theorem trimMatches_quoted (h : c ∉ text) :
    trimEndMatches (trimStartMatches (c :: (text ++ [c])) c) c = text := by
  have hstart : trimStartMatches (c :: (text ++ [c])) c = trimStartMatches (text ++ [c]) c :=
    List.dropWhile_cons_of_pos (beq_self_eq_true c)
  rw [hstart]
  cases text with
  | nil => simp [trimStartMatches, trimEndMatches]
  | cons d text =>
      have hd : (d == c) = false := beq_eq_false_iff_ne.mpr fun heq => h (heq ▸ List.mem_cons_self)
      rw [trimStartMatches, List.cons_append, List.dropWhile_cons_of_neg (by simp [hd]),
        ← List.cons_append, trimEndMatches,
        List.rdropWhile_concat_pos (· == c) _ c (beq_self_eq_true c)]
      exact trimEndMatches_eq_self h

/-- A character between others is not trimmed. -/
theorem mem_trimMatches {x y : Char} (hx : x ∈ front) (hxc : x ≠ c) (hy : y ∈ back) (hyc : y ≠ c) :
    c ∈ trimEndMatches (trimStartMatches (front ++ c :: back) c) c := by
  obtain ⟨front₁, front₂, rfl⟩ := List.append_of_mem hx
  obtain ⟨back₁, back₂, rfl⟩ := List.append_of_mem hy
  have hstart : trimStartMatches ((front₁ ++ x :: front₂) ++ c :: (back₁ ++ y :: back₂)) c
      = (front₁.dropWhile (· == c) ++ x :: (front₂ ++ c :: back₁)) ++ y :: back₂ := by
    rw [List.append_assoc, List.cons_append, trimStartMatches,
      dropWhile_append_cons (p := (· == c)) (beq_eq_false_iff_ne.mpr hxc)]
    simp
  rw [hstart, trimEndMatches,
    rdropWhile_append_cons (p := (· == c)) (beq_eq_false_iff_ne.mpr hyc)]
  simp

theorem split_cons (h : d ≠ c) :
    split (d :: text) c = (split text c).modifyHead (d :: ·) := by
  rw [split, List.splitOn_cons_eq_if_modifyHead, if_neg (by simpa using h)]
  rfl

end Trim

end Text

end AcceptXmr
