import AcceptXmr.MonerodClient.Authentication
import Mathlib.Data.Nat.Bits

/-! # Challenges and how they are split

A challenge is written as a list of parameters `name="value"` or `name=value`, separated by commas
and spaces. `split_header` of `library/src/monerod_client/authentication.rs` cuts such a text at the
commas that are outside of quotes, where an apostrophe toggles a quote of its own, also between
quotation marks.

* **`splitHeader_eq`** — the loop of `split_header` computes `segments`.
* **`splitHeader_render`** — with an even number of apostrophes in each, the parameters are the parts.
* **`splitHeader_render_odd`** — with an odd number in the first one, it is joined with others. -/

namespace AcceptXmr

open Text

/-! ## Challenges -/

/-- What can stand between quotation marks as it is. -/
abbrev QuotedText := {text : Text // doubleQuote ∉ text ∧ '\\' ∉ text}

/-- What can stand without quotation marks. -/
abbrev TokenText := {text : Text // text ≠ [] ∧
  ∀ c ∈ text, c ≠ ',' ∧ c ≠ doubleQuote ∧ isWhitespace c = false}

/-- The value of a parameter. -/
inductive ParamValue where
  | quoted (value : QuotedText)
  | token (value : TokenText)

/-- A parameter of a challenge. -/
structure Param where
  name : TokenText
  value : ParamValue
  no_equals : '=' ∉ name.val

/-- What is written after the equals sign. -/
def ParamValue.text : ParamValue → Text
  | .quoted value => doubleQuote :: (value.val ++ [doubleQuote])
  | .token value => value.val

/-- A parameter as it is written. -/
def Param.text (self : Param) : Text := self.name.val ++ '=' :: self.value.text

/-- The parameters that are read. -/
inductive Field where
  | realm
  | qop
  | algorithm
  | nonce
  | opaqueValue
  deriving DecidableEq, Repr

def Field.name : Field → Text
  | .realm => "realm".toList
  | .qop => "qop".toList
  | .algorithm => "algorithm".toList
  | .nonce => "nonce".toList
  | .opaqueValue => "opaque".toList

/-- The name of a field is not empty, and has no comma, no quote and no blank. -/
theorem Field.name_token (field : Field) :
    field.name ≠ [] ∧ ∀ c ∈ field.name, c ≠ ',' ∧ c ≠ doubleQuote ∧ isWhitespace c = false := by
  have hall : field.name.all (fun c => c != ',' && c != doubleQuote && !isWhitespace c) = true := by
    cases field <;> decide
  refine ⟨by cases field <;> decide, ?_⟩
  intro c hc
  simpa [and_assoc] using List.all_eq_true.mp hall c hc

/-- It has no equals sign. -/
theorem Field.equals_notMem_name (field : Field) : '=' ∉ field.name := by
  cases field <;> decide

/-- The parameter of a field. -/
def Field.param (self : Field) (value : QuotedText) : Param where
  name := ⟨self.name, self.name_token⟩
  value := .quoted value
  no_equals := self.equals_notMem_name

/-- The quality of protection that is offered. -/
def quotedQop : QuotedText := ⟨Qop.display .auth, by decide⟩

/-- The algorithm. -/
def Algorithm.quoted (self : Algorithm) : QuotedText :=
  ⟨self.display, by cases self <;> decide⟩

/-- **A challenge** with quality of protection `auth`, and other parameters that are not read. -/
structure Challenge where
  realm : QuotedText
  nonce : QuotedText
  opaqueValue : Option QuotedText
  algorithm : Algorithm
  others : List Param
  unrelated : ∀ p ∈ others, ∀ field : Field, p.name.val ≠ field.name

/-- The fields that are given, with their values. -/
def Challenge.fields (self : Challenge) : List (Field × QuotedText) :=
  [(.realm, self.realm), (.nonce, self.nonce), (.qop, quotedQop),
    (.algorithm, self.algorithm.quoted)] ++
    self.opaqueValue.toList.map fun value => (.opaqueValue, value)

/-- The parameters, in some order. -/
def Challenge.params (self : Challenge) : List Param :=
  (self.fields.map fun field => field.1.param field.2) ++ self.others

/-- What is to be parsed out of a challenge. -/
def Challenge.authParams (self : Challenge) : AuthParams where
  realm := self.realm.val
  qop := [.auth]
  algorithm := self.algorithm
  nonce := self.nonce.val
  opaqueValue := self.opaqueValue.map Subtype.val

/-- A parameter after a comma and a number of spaces. -/
def following (p : ℕ × Param) : Text := ',' :: (List.replicate p.1 ' ' ++ p.2.text)

/-- Parameters as a comma-separated list, each with the number of spaces that stand before it. -/
def render : List (ℕ × Param) → Text
  | [] => []
  | (_, first) :: rest => first.text ++ rest.flatMap following

/-! ## Segments -/

/-- Whether the number of apostrophes is odd. -/
def oddApostrophes (text : Text) : Bool := (text.count singleQuote).bodd

/-- A text, cut before the commas that are outside of quotes. -/
def segments : Bool → Bool → Text → List Text
  | _, _, [] => [[]]
  | single, double, c :: rest =>
      if c = ',' ∧ single = false ∧ double = false then
        [] :: (segments single double rest).modifyHead (c :: ·)
      else
        (segments (xor single (c == singleQuote)) (xor double (c == doubleQuote)) rest).modifyHead
          (c :: ·)

/-- Whether a text leaves a single quote open depends on its two parts. -/
theorem oddApostrophes_append (front back : Text) :
    oddApostrophes (front ++ back) = xor (oddApostrophes front) (oddApostrophes back) := by
  rw [oddApostrophes, List.count_append, Nat.bodd_add]
  rfl

/-- One more character matters only if it is a single quote. -/
theorem oddApostrophes_cons (c : Char) (text : Text) :
    oddApostrophes (c :: text) = xor (c == singleQuote) (oddApostrophes text) := by
  rw [← List.singleton_append, oddApostrophes_append]
  congr 1
  rw [oddApostrophes, List.count_singleton]
  cases c == singleQuote <;> rfl

/-- Nothing is cut within a text that has no quotation mark and no comma outside of quotes. -/
theorem segments_append {single double : Bool} {text : Text} (rest : Text)
    (hquote : doubleQuote ∉ text) (hcomma : double = true ∨ ',' ∉ text) :
    segments single double (text ++ rest) =
      (segments (xor single (oddApostrophes text)) double rest).modifyHead (text ++ ·) := by
  induction text generalizing single with
  | nil =>
      rw [show oddApostrophes [] = false from rfl, Bool.xor_false]
      show segments single double rest = (segments single double rest).modifyHead id
      rw [List.modifyHead_id]
      rfl
  | cons c text ih =>
      have hc : (c == doubleQuote) = false := by
        rw [beq_eq_false_iff_ne]
        exact fun heq => hquote (heq ▸ List.mem_cons_self)
      have hcut : ¬ (c = ',' ∧ single = false ∧ double = false) := by
        rintro ⟨rfl, -, rfl⟩
        rcases hcomma with h | h
        · cases h
        · exact h List.mem_cons_self
      rw [List.cons_append, segments, if_neg hcut, hc, Bool.xor_false,
        ih (fun h => hquote (List.mem_cons_of_mem c h))
          (hcomma.imp_right fun h hmem => h (List.mem_cons_of_mem c hmem)),
        List.modifyHead_modifyHead, oddApostrophes_cons, Bool.xor_assoc]
      rfl

/-! ## The loop of `split_header` -/

/-- The part that is being read when the loop stands at `i`. -/
theorem take_succ_drop {header rest : Text} {c : Char} {i last : ℕ}
    (hrest : header.drop i = c :: rest) (hlast : last ≤ i) :
    (header.take (i + 1)).drop last = (header.take i).drop last ++ [c] := by
  have hi : i < header.length := by
    by_contra hle
    rw [List.drop_eq_nil_of_le (Nat.le_of_not_lt hle)] at hrest
    cases hrest
  have hc : header[i] = c := by
    rw [List.drop_eq_getElem_cons hi] at hrest
    exact (List.cons.inj hrest).1
  have hlen : last ≤ (header.take i).length := by
    rw [List.length_take]
    omega
  rw [List.take_succ_eq_append_getElem hi, List.drop_append_of_le_length hlen, hc]

/-- The parts there are when the loop has read the rest of the header. -/
def partsFrom (header : Text) (i : ℕ) (rest : Text) (state : SplitState) : List Text :=
  state.parts ++ ((segments state.inSingleQuote state.inDoubleQuote rest).modifyHead
    ((header.take i).drop state.lastSplit ++ ·)).map cleanPart

/-- One character brings the loop closer to these parts. -/
theorem partsFrom_character {header rest : Text} {c : Char} {i : ℕ} {state : SplitState}
    (hrest : header.drop i = c :: rest) (hlast : state.lastSplit ≤ i) :
    partsFrom header (i + 1) rest (state.character header i c)
      = partsFrom header i (c :: rest) state := by
  obtain ⟨parts, single, double, last⟩ := state
  have hsingle : ',' ≠ singleQuote := by decide
  have hdouble : ',' ≠ doubleQuote := by decide
  by_cases hcut : c = ',' ∧ single = false ∧ double = false
  · -- the part is finished, and the comma starts the next one
    obtain ⟨rfl, rfl, rfl⟩ := hcut
    rw [partsFrom, partsFrom, segments, if_pos ⟨rfl, rfl, rfl⟩]
    simp only [SplitState.character, hsingle, hdouble, if_false, if_true, Bool.not_false,
      Bool.and_self, headerPart, take_succ_drop hrest (le_refl i)]
    have hnil : (header.take i).drop i = [] :=
      List.drop_eq_nil_of_le (List.length_take_le i header)
    rw [hnil]
    simp
  · -- the character belongs to the part, and may be a quote
    have hstate : SplitState.character header i c ⟨parts, single, double, last⟩
        = ⟨parts, xor single (c == singleQuote), xor double (c == doubleQuote), last⟩ := by
      rw [SplitState.character]
      by_cases h₁ : c = singleQuote
      · rw [if_pos h₁, h₁, beq_self_eq_true, Bool.xor_true,
          show (singleQuote == doubleQuote) = false from rfl, Bool.xor_false]
      rw [if_neg h₁, beq_eq_false_iff_ne.mpr h₁, Bool.xor_false]
      by_cases h₂ : c = doubleQuote
      · rw [if_pos h₂, h₂, beq_self_eq_true, Bool.xor_true]
      rw [if_neg h₂, beq_eq_false_iff_ne.mpr h₂, Bool.xor_false]
      by_cases h₃ : c = ','
      · have hquoted : ¬ (!single && !double) = true := by
          intro h
          rw [Bool.and_eq_true, Bool.not_eq_true', Bool.not_eq_true'] at h
          exact hcut ⟨h₃, h⟩
        rw [if_pos h₃, if_neg hquoted]
      · rw [if_neg h₃]
    rw [hstate, partsFrom, partsFrom, segments, if_neg hcut, List.modifyHead_modifyHead]
    simp only [take_succ_drop hrest hlast]
    congr 3
    funext text
    simp

/-- **What the loop does** from `i` on: it finishes the part it is reading and cuts the rest. -/
theorem splitLoop_parts (header : Text) {rest : Text} (hne : rest ≠ []) (i : ℕ) (state : SplitState)
    (hrest : header.drop i = rest) (hlast : state.lastSplit ≤ i) :
    (splitLoop header i rest state).parts = partsFrom header i rest state := by
  induction rest generalizing i state with
  | nil => exact absurd rfl hne
  | cons c rest ih =>
      have hnext : header.drop (i + 1) = rest := by
        rw [← List.drop_drop, hrest]
        rfl
      have hlast' : (state.character header i c).lastSplit ≤ i + 1 := by
        rw [SplitState.character]
        split_ifs
        all_goals first | exact Nat.le_succ i | exact Nat.le_succ_of_le hlast
      rw [← partsFrom_character hrest hlast, splitLoop]
      cases rest with
      | nil =>
          -- what has been read is all of the header
          have hall : header.take (i + 1) = header :=
            List.take_of_length_le (List.drop_eq_nil_iff.mp hnext)
          simp [partsFrom, segments, hall]
      | cons d rest => exact ih (by simp) (i + 1) _ hnext hlast'

/-- **The parts** of a header are its segments, without the comma and the spaces around. -/
theorem splitHeader_eq {header : Text} (hne : header ≠ []) :
    splitHeader header = (segments false false header).map cleanPart := by
  rw [splitHeader, splitLoop_parts header hne 0 {} rfl (le_refl 0), partsFrom]
  show [] ++ ((segments false false header).modifyHead id).map cleanPart = _
  rw [List.modifyHead_id]
  rfl

/-! ## Rendered parameters -/

/-- A token has no double quote. -/
theorem doubleQuote_notMem_token (text : TokenText) : doubleQuote ∉ text.val := fun h =>
  (text.property.2 _ h).2.1 rfl

/-- A token has no comma. -/
theorem comma_notMem_token (text : TokenText) : ',' ∉ text.val := fun h =>
  (text.property.2 _ h).1 rfl

/-- A double quote is kept, and what follows is inside quotes if it was outside before. -/
theorem segments_doubleQuote (single double : Bool) (rest : Text) :
    segments single double (doubleQuote :: rest) =
      (segments single (!double) rest).modifyHead (doubleQuote :: ·) := by
  have hcut : ¬ (doubleQuote = ',' ∧ single = false ∧ double = false) := fun h =>
    absurd h.1 (by decide)
  rw [segments, if_neg hcut, show (doubleQuote == singleQuote) = false from rfl,
    beq_self_eq_true, Bool.xor_false, Bool.xor_true]

/-- A parameter is not cut, and its apostrophes count. -/
theorem segments_param (single : Bool) (p : Param) (rest : Text) :
    segments single false (p.text ++ rest) =
      (segments (xor single (oddApostrophes p.text)) false rest).modifyHead (p.text ++ ·) := by
  have hname : doubleQuote ∉ p.name.val ++ ['='] := by
    rw [List.mem_append, not_or]
    exact ⟨doubleQuote_notMem_token p.name, by decide⟩
  have hcomma : ',' ∉ p.name.val ++ ['='] := by
    rw [List.mem_append, not_or]
    exact ⟨comma_notMem_token p.name, by decide⟩
  have htext : p.text = (p.name.val ++ ['=']) ++ p.value.text := by simp [Param.text]
  cases hvalue : p.value with
  | token value =>
      rw [hvalue] at htext
      apply segments_append
      · rw [htext, List.mem_append, not_or]
        exact ⟨hname, doubleQuote_notMem_token value⟩
      · rw [htext, List.mem_append, not_or]
        exact .inr ⟨hcomma, comma_notMem_token value⟩
  | quoted value =>
      rw [hvalue] at htext
      have hquoted : oddApostrophes (doubleQuote :: (value.val ++ [doubleQuote]))
          = oddApostrophes value.val := by
        rw [oddApostrophes_cons, oddApostrophes_append,
          show (doubleQuote == singleQuote) = false from rfl,
          show oddApostrophes [doubleQuote] = false from rfl, Bool.xor_false, Bool.false_xor]
      have hodd : oddApostrophes p.text =
          xor (oddApostrophes (p.name.val ++ ['='])) (oddApostrophes value.val) := by
        rw [htext, oddApostrophes_append]
        exact congrArg _ hquoted
      have hsplit : p.text ++ rest = (p.name.val ++ ['=']) ++
          doubleQuote :: (value.val ++ doubleQuote :: rest) := by
        rw [htext]
        simp [ParamValue.text]
      rw [hsplit, segments_append _ hname (.inr hcomma), segments_doubleQuote, Bool.not_false,
        segments_append _ value.property.1 (.inl rfl), segments_doubleQuote, hodd]
      simp only [List.modifyHead_modifyHead, Bool.not_true, Bool.xor_assoc]
      congr 1
      funext text
      simp [htext, ParamValue.text]

/-- Spaces are neither cut nor quotes. -/
theorem segments_spaces (single : Bool) (n : ℕ) (rest : Text) :
    segments single false (List.replicate n ' ' ++ rest) =
      (segments single false rest).modifyHead (List.replicate n ' ' ++ ·) := by
  have hmem : ∀ c ∈ List.replicate n ' ', c = ' ' := fun c hc => (List.mem_replicate.mp hc).2
  have hodd : oddApostrophes (List.replicate n ' ') = false := by
    rw [oddApostrophes, List.count_eq_zero.mpr fun h => absurd (hmem _ h) (by decide)]
    rfl
  have hquote : doubleQuote ∉ List.replicate n ' ' := fun h => absurd (hmem _ h) (by decide)
  have hcomma : ',' ∉ List.replicate n ' ' := fun h => absurd (hmem _ h) (by decide)
  rw [segments_append rest hquote (.inr hcomma), hodd, Bool.xor_false]

/-- A comma within an apostrophe's quote is not cut. -/
theorem segments_following_true (p : ℕ × Param) (rest : Text) :
    segments true false (following p ++ rest) =
      (segments (!oddApostrophes p.2.text) false rest).modifyHead (following p ++ ·) := by
  rw [following, List.cons_append, List.append_assoc, segments, if_neg (by simp),
    show (',' == singleQuote) = false from rfl, show (',' == doubleQuote) = false from rfl,
    Bool.xor_false, Bool.xor_false, segments_spaces, segments_param, Bool.true_xor,
    List.modifyHead_modifyHead, List.modifyHead_modifyHead]
  congr 1
  funext text
  simp

/-- A comma outside of quotes is. -/
theorem segments_following_false (p : ℕ × Param) (rest : Text) :
    segments false false (following p ++ rest) =
      [] :: (segments (oddApostrophes p.2.text) false rest).modifyHead (following p ++ ·) := by
  rw [following, List.cons_append, List.append_assoc, segments, if_pos ⟨rfl, rfl, rfl⟩,
    segments_spaces, segments_param, Bool.false_xor, List.modifyHead_modifyHead,
    List.modifyHead_modifyHead]
  congr 2
  funext text
  simp

/-- Parameters with an even number of apostrophes, outside of quotes. -/
theorem segments_flatMap_even {ps : List (ℕ × Param)}
    (heven : ∀ p ∈ ps, oddApostrophes p.2.text = false) :
    segments false false (ps.flatMap following) = [] :: ps.map following := by
  induction ps with
  | nil => rfl
  | cons p ps ih =>
      rw [List.flatMap_cons, segments_following_false, heven p List.mem_cons_self,
        ih fun q hq => heven q (List.mem_cons_of_mem p hq)]
      simp

/-- Within an apostrophe's quote they are not cut. -/
theorem segments_flatMap_kept {ps : List (ℕ × Param)} (rest : Text)
    (heven : ∀ p ∈ ps, oddApostrophes p.2.text = false) :
    segments true false (ps.flatMap following ++ rest) =
      (segments true false rest).modifyHead (ps.flatMap following ++ ·) := by
  induction ps with
  | nil =>
      show segments true false rest = (segments true false rest).modifyHead id
      rw [List.modifyHead_id]
      rfl
  | cons p ps ih =>
      rw [List.flatMap_cons, List.append_assoc, segments_following_true,
        heven p List.mem_cons_self, Bool.not_false,
        ih fun q hq => heven q (List.mem_cons_of_mem p hq), List.modifyHead_modifyHead]
      congr 1
      funext text
      simp

/-- **Every further segment** starts with some parameter. -/
theorem segments_tail (single : Bool) (ps : List (ℕ × Param)) :
    ∃ first more, segments single false (ps.flatMap following) = first :: more ∧
      ∀ part ∈ more, ∃ p ∈ ps, ∃ rest, part = following p ++ rest := by
  induction ps generalizing single with
  | nil => exact ⟨[], [], rfl, nofun⟩
  | cons p ps ih =>
      rw [List.flatMap_cons]
      cases single with
      | true =>
          obtain ⟨first, more, heq, hmore⟩ := ih (!oddApostrophes p.2.text)
          refine ⟨following p ++ first, more, ?_, ?_⟩
          · rw [segments_following_true, heq]
            rfl
          · intro part hpart
            obtain ⟨q, hq, h⟩ := hmore part hpart
            exact ⟨q, List.mem_cons_of_mem p hq, h⟩
      | false =>
          obtain ⟨first, more, heq, hmore⟩ := ih (oddApostrophes p.2.text)
          refine ⟨[], (following p ++ first) :: more, ?_, ?_⟩
          · rw [segments_following_false, heq]
            rfl
          · intro part hpart
            rcases List.mem_cons.mp hpart with rfl | hpart
            · exact ⟨p, List.mem_cons_self, first, rfl⟩
            · obtain ⟨q, hq, h⟩ := hmore part hpart
              exact ⟨q, List.mem_cons_of_mem p hq, h⟩

/-! ## The parts of a rendered challenge -/

/-- A parameter starts with a character that is not trimmed. -/
theorem Param.exists_cons (p : Param) :
    ∃ c rest, p.text = c :: rest ∧ (c == ',') = false ∧ isWhitespace c = false := by
  obtain ⟨c, rest, hname⟩ := List.exists_cons_of_ne_nil p.name.property.1
  have hc := p.name.property.2 c (hname ▸ List.mem_cons_self)
  refine ⟨c, rest ++ '=' :: p.value.text, ?_, beq_eq_false_iff_ne.mpr hc.1, hc.2.2⟩
  rw [Param.text, hname]
  rfl

/-- And it ends with one. -/
theorem Param.exists_concat (p : Param) :
    ∃ front c, p.text = front ++ [c] ∧ isWhitespace c = false := by
  cases hvalue : p.value with
  | quoted value =>
      refine ⟨p.name.val ++ '=' :: doubleQuote :: value.val, doubleQuote, ?_, by decide⟩
      simp [Param.text, hvalue, ParamValue.text]
  | token value =>
      have hlast := value.property.2 _ (List.getLast_mem value.property.1)
      refine ⟨p.name.val ++ '=' :: value.val.dropLast, value.val.getLast value.property.1, ?_,
        hlast.2.2⟩
      rw [Param.text, hvalue, ParamValue.text, List.append_assoc, List.cons_append,
        List.dropLast_concat_getLast]

/-- What is before a parameter is trimmed, and what is behind it is trimmed on its own. -/
theorem cleanPart_param (front : Text) (p : Param) (rest : Text)
    (hfront : (trimStartMatches front ',').dropWhile isWhitespace = []) :
    cleanPart (front ++ (p.text ++ rest)) = p.text ++ trimEnd rest := by
  obtain ⟨c, back, htext, hcomma, hspace⟩ := p.exists_cons
  have hstart : trimStartMatches (front ++ (p.text ++ rest)) ','
      = trimStartMatches front ',' ++ c :: (back ++ rest) := by
    rw [htext, List.cons_append]
    exact dropWhile_append_cons hcomma
  have hend : trimEnd (p.text ++ rest) = p.text ++ trimEnd rest := by
    obtain ⟨most, d, hmost, hlast⟩ := p.exists_concat
    rw [hmost, List.append_assoc, List.append_assoc]
    exact trimEnd_append_cons hlast
  rw [cleanPart, hstart, trim, dropWhile_append_cons hspace, hfront, List.nil_append,
    ← List.cons_append, ← htext, hend]

/-- The first parameter is cut out as it was written. -/
theorem cleanPart_first (p : Param) (rest : Text) :
    cleanPart (p.text ++ rest) = p.text ++ trimEnd rest :=
  cleanPart_param [] p rest rfl

/-- So are the others, without the comma and the blanks in front of them. -/
theorem cleanPart_following (p : ℕ × Param) (rest : Text) :
    cleanPart (following p ++ rest) = p.2.text ++ trimEnd rest := by
  have hfront : (trimStartMatches (',' :: List.replicate p.1 ' ') ',').dropWhile isWhitespace
      = [] := by
    have hmem : ∀ c ∈ List.replicate p.1 ' ', c = ' ' := fun c hc => (List.mem_replicate.mp hc).2
    show (trimStartMatches (List.replicate p.1 ' ') ',').dropWhile isWhitespace = []
    rw [trimStartMatches_eq_self fun h => absurd (hmem _ h) (by decide),
      List.dropWhile_eq_nil_iff]
    intro c hc
    rw [hmem c hc]
    decide
  rw [following, ← List.cons_append, List.append_assoc]
  exact cleanPart_param _ p.2 rest hfront

/-- A challenge with a parameter is not an empty text. -/
theorem render_ne_nil {first : ℕ × Param} {rest : List (ℕ × Param)} :
    render (first :: rest) ≠ [] := by
  obtain ⟨c, back, htext, -, -⟩ := first.2.exists_cons
  rw [render, htext]
  simp

/-- **With an even number of apostrophes in each**, the parameters are the parts. -/
theorem splitHeader_render {ps : List (ℕ × Param)} (hne : ps ≠ [])
    (heven : ∀ p ∈ ps, oddApostrophes p.2.text = false) :
    splitHeader (render ps) = ps.map fun p => p.2.text := by
  obtain ⟨first, rest, rfl⟩ := List.exists_cons_of_ne_nil hne
  rw [splitHeader_eq render_ne_nil, render, segments_param, Bool.false_xor,
    heven first List.mem_cons_self,
    segments_flatMap_even fun p hp => heven p (List.mem_cons_of_mem first hp)]
  have hfollowing : ∀ p ∈ rest, cleanPart (following p) = p.2.text := by
    intro p _
    have h := cleanPart_following p []
    rw [List.append_nil] at h
    rw [h]
    exact List.append_nil _
  have hfirst : cleanPart first.2.text = first.2.text := by
    have h := cleanPart_first first.2 []
    rw [List.append_nil] at h
    rw [h]
    exact List.append_nil _
  rw [List.modifyHead_cons, List.map_cons, List.map_cons, List.map_map, List.append_nil, hfirst]
  congr 1
  exact List.map_congr_left hfollowing

/-- **An odd number of apostrophes** in the first parameter joins it with those that follow, and
later parts start with later parameters. -/
theorem splitHeader_render_odd (first : ℕ × Param) (even rest : List (ℕ × Param))
    (hfirst : oddApostrophes first.2.text = true)
    (heven : ∀ p ∈ even, oddApostrophes p.2.text = false) :
    ∃ back more, splitHeader (render (first :: (even ++ rest)))
        = (first.2.text ++ trimEnd (even.flatMap following ++ back)) :: more ∧
      ∀ part ∈ more, ∃ p ∈ rest, ∃ text, part = p.2.text ++ text := by
  obtain ⟨back, more, heq, hmore⟩ := segments_tail true rest
  refine ⟨back, more.map cleanPart, ?_, ?_⟩
  · rw [splitHeader_eq render_ne_nil, render, segments_param, Bool.false_xor, hfirst,
      List.flatMap_append, segments_flatMap_kept _ heven, heq, List.modifyHead_cons,
      List.modifyHead_cons, List.map_cons, cleanPart_first]
  · intro part hpart
    obtain ⟨segment, hsegment, rfl⟩ := List.mem_map.mp hpart
    obtain ⟨p, hp, text, rfl⟩ := hmore segment hsegment
    exact ⟨p, hp, trimEnd text, cleanPart_following p text⟩

end AcceptXmr
