import AcceptXmr.MonerodClient.Challenge
import Mathlib.Algebra.Group.Nat.Even

/-! # Challenges parse back

Which challenges are read by `parse_header` as they were written, however their parameters are
ordered and spaced. A part is taken for a field if it starts with the field's name, and every `name=`
is taken out of it, also within the value.

* **`exists_order_lost`** — an odd number of apostrophes hides the nonce in some order.
* **`parses_back_iff`** — the challenges that parse back in every order. -/

namespace AcceptXmr

open Text

/-! ## Values -/

variable {self : Challenge} {field : Field} {value : QuotedText} {p : Param}

/-- What is searched for is not empty. -/
theorem Field.name_ne_nil (field : Field) : field.name ++ ['='] ≠ [] := by simp

/-- It has no double quote. -/
theorem doubleQuote_notMem_name (field : Field) : doubleQuote ∉ field.name ++ ['='] := by
  cases field <;> decide

/-- A parameter is taken for a field if its name starts with the field's. -/
theorem prefix_param_iff (rest : Text) :
    field.name <+: p.text ++ rest ↔ field.name <+: p.name.val := by
  rw [Param.text, List.append_assoc, List.cons_append]
  exact prefix_append_cons_iff field.equals_notMem_name

/-- No field's name starts with another's. -/
theorem prefix_name_iff {other : Field} : field.name <+: other.name ↔ field = other := by
  cases field <;> cases other <;> decide

/-- **The value of a field** without what looks like its name. -/
theorem stringValue_param :
    stringValue field.name (field.param value).text
      = replace value.val (field.name ++ ['=']) [] := by
  have hne := field.name_ne_nil
  have hquote := doubleQuote_notMem_name field
  have htext : (field.param value).text
      = (field.name ++ ['=']) ++ (doubleQuote :: (value.val ++ doubleQuote :: [])) := by
    simp [Param.text, Field.param, ParamValue.text]
  have hmem : doubleQuote ∉ replace value.val (field.name ++ ['=']) [] := fun h =>
    value.property.1 (mem_of_mem_remove h)
  have hvalue : replace (doubleQuote :: (value.val ++ doubleQuote :: [])) (field.name ++ ['=']) []
      = doubleQuote :: (replace value.val (field.name ++ ['=']) [] ++ [doubleQuote]) := by
    have h : replace ([] ++ doubleQuote :: (value.val ++ doubleQuote :: [])) (field.name ++ ['=']) []
        = doubleQuote :: replace (value.val ++ doubleQuote :: []) (field.name ++ ['=']) [] :=
      replace_append_cons hquote hne
    rw [List.nil_append] at h
    rw [h, replace_append_cons hquote hne]
    rfl
  rw [stringValue, htext, replace_prefix hne, List.nil_append, hvalue, trimMatches_quoted hmem]

/-- The value is read as it is exactly if the field's name and an equals sign do not occur in it. -/
theorem stringValue_param_eq_iff :
    stringValue field.name (field.param value).text = value.val ↔
      ¬ field.name ++ ['='] <:+: value.val := by
  rw [stringValue_param]
  constructor
  · intro heq hinfix
    have hlt := length_remove_lt hinfix field.name_ne_nil
    rw [heq] at hlt
    exact absurd hlt (lt_irrefl _)
  · exact replace_eq_self

/-- A quotation mark between other characters that are no part of the field's name is read. -/
theorem doubleQuote_mem_stringValue {front back : Text} {x y : Char} (hx : x ∈ front)
    (hxname : x ∉ field.name ++ ['=']) (hxquote : x ≠ doubleQuote) (hy : y ∈ back)
    (hyname : y ∉ field.name ++ ['=']) (hyquote : y ≠ doubleQuote) :
    doubleQuote ∈ stringValue field.name (front ++ doubleQuote :: back) := by
  have hne := field.name_ne_nil
  rw [stringValue, replace_append_cons (doubleQuote_notMem_name field) hne]
  exact mem_trimMatches (mem_replace hxname hne hx) hxquote (mem_replace hyname hne hy) hyquote

/-- Of a parameter with a longer name, the first letter of the name is read. -/
theorem stringValue_lookalike (hstarts : field.name <+: p.name.val)
    (hne : p.name.val ≠ field.name) (c : Char) (name : Text) (hname : field.name = c :: name)
    (hc : c ≠ doubleQuote) :
    ∃ rest, stringValue field.name p.text = c :: rest := by
  obtain ⟨more, hmore⟩ := hstarts
  have hmore_ne : more ≠ [] := by
    rintro rfl
    rw [List.append_nil] at hmore
    exact hne hmore.symm
  obtain ⟨d, more, rfl⟩ := List.exists_cons_of_ne_nil hmore_ne
  have hd : d ≠ '=' := by
    rintro rfl
    apply p.no_equals
    rw [← hmore]
    simp
  have hno : ¬ field.name ++ ['='] <+: p.text := by
    rw [Param.text, ← hmore, List.append_assoc, List.prefix_append_right_inj, List.cons_append,
      List.cons_prefix_cons]
    exact fun h => hd h.1.symm
  have htext : p.text = c :: (name ++ d :: more ++ '=' :: p.value.text) := by
    rw [Param.text, ← hmore, hname]
    rfl
  rw [htext] at hno ⊢
  rw [stringValue, replace_cons hno]
  exact ⟨_, trimmed_cons (p := (· == doubleQuote)) (beq_eq_false_iff_ne.mpr hc)⟩

/-! ## Fields -/

/-- The value that is read for a field, if all parts that could be taken for it agree. -/
theorem findStringValue_eq_some {parts : List Text} {name v : Text}
    (hexists : ∃ part ∈ parts, name <+: part)
    (hall : ∀ part ∈ parts, name <+: part → stringValue name part = v) :
    findStringValue parts name = some v := by
  obtain ⟨part, hmem, hstarts⟩ := hexists
  have hsome : (parts.find? fun part => name.isPrefixOf part).isSome := by
    rw [List.find?_isSome]
    exact ⟨part, hmem, List.isPrefixOf_iff_prefix.mpr hstarts⟩
  obtain ⟨found, hfound⟩ := Option.isSome_iff_exists.mp hsome
  rw [findStringValue, hfound, Option.map_some, hall found (List.mem_of_find?_eq_some hfound)
    (List.isPrefixOf_iff_prefix.mp (List.find?_some hfound))]

/-- No value is found if no part begins with the name. -/
theorem findStringValue_eq_none {parts : List Text} {name : Text}
    (hnone : ∀ part ∈ parts, ¬ name <+: part) : findStringValue parts name = none := by
  rw [findStringValue, Option.map_eq_none_iff, List.find?_eq_none]
  exact fun part hmem h => hnone part hmem (List.isPrefixOf_iff_prefix.mp h)

/-- The first part is taken if it can be. -/
theorem findStringValue_cons {parts : List Text} {name part : Text} (h : name <+: part) :
    findStringValue (part :: parts) name = some (stringValue name part) := by
  rw [findStringValue, List.find?_cons_of_pos (List.isPrefixOf_iff_prefix.mpr h)]
  rfl

/-- The parameters are the fields that the crate knows, and others. -/
theorem mem_params_iff :
    p ∈ self.params ↔
      (∃ field value, (field, value) ∈ self.fields ∧ p = field.param value) ∨ p ∈ self.others := by
  rw [Challenge.params, List.mem_append, List.mem_map]
  constructor
  · rintro (⟨⟨field, value⟩, hmem, rfl⟩ | h)
    · exact .inl ⟨field, value, hmem, rfl⟩
    · exact .inr h
  · rintro (⟨field, value, hmem, rfl⟩ | h)
    · exact .inl ⟨(field, value), hmem, rfl⟩
    · exact .inr h

/-- A field is given once. -/
theorem fields_unique {other : QuotedText} (h : (field, value) ∈ self.fields)
    (hother : (field, other) ∈ self.fields) : value = other := by
  cases field <;> simp_all [Challenge.fields]

/-! ## Reading the fields -/

section Members

variable (self)

/-- A challenge names the quality of protection. -/
theorem Challenge.qop_mem_fields : (.qop, quotedQop) ∈ self.fields :=
  List.mem_append_left _ (by simp)

/-- It names the algorithm. -/
theorem Challenge.algorithm_mem_fields : (.algorithm, self.algorithm.quoted) ∈ self.fields :=
  List.mem_append_left _ (by simp)

/-- It names the realm. -/
theorem Challenge.realm_mem_fields : (.realm, self.realm) ∈ self.fields :=
  List.mem_append_left _ (by simp)

/-- It names the nonce. -/
theorem Challenge.nonce_mem_fields : (.nonce, self.nonce) ∈ self.fields :=
  List.mem_append_left _ (by simp)

end Members

/-- The opaque value stands there if there is one. -/
theorem opaque_mem_fields_iff :
    (.opaqueValue, value) ∈ self.fields ↔ self.opaqueValue = some value := by
  simp [Challenge.fields]

/-- **If every field is read**, a challenge is parsed as it was written. -/
theorem parseHeader_of_reads {header : Text}
    (hreads : ∀ field value, (field, value) ∈ self.fields →
      findStringValue (splitHeader header) field.name = some value.val)
    (habsent : self.opaqueValue = none →
      findStringValue (splitHeader header) (Field.name .opaqueValue) = none) :
    parseHeader header = .ok self.authParams := by
  have hrealm : findStringValue (splitHeader header) "realm".toList = some self.realm.val :=
    hreads .realm _ self.realm_mem_fields
  have hqop : findStringValue (splitHeader header) "qop".toList = some "auth".toList :=
    hreads .qop _ self.qop_mem_fields
  have halgorithm : findStringValue (splitHeader header) "algorithm".toList
      = some self.algorithm.display := hreads .algorithm _ self.algorithm_mem_fields
  have hnonce : findStringValue (splitHeader header) "nonce".toList = some self.nonce.val :=
    hreads .nonce _ self.nonce_mem_fields
  have habsent' : self.opaqueValue.map Subtype.val
      = findStringValue (splitHeader header) "opaque".toList := by
    cases hvalue : self.opaqueValue with
    | none => exact (habsent hvalue).symm
    | some value => exact (hreads .opaqueValue value (opaque_mem_fields_iff.mpr hvalue)).symm
  rw [parseHeader_eq_ok_iff, hrealm, hqop, halgorithm, hnonce, ← habsent']
  refine ⟨rfl, ?_, ?_, rfl, rfl⟩
  · show (split "auth".toList ',').mapM parseQop = .ok [.auth]
    decide
  · show parseAlgorithm self.algorithm.display = .ok self.algorithm
    cases self.algorithm <;> decide

/-- The fields whose value is handed on as it is read. -/
theorem read_of_parseHeader {header read : Text} (h : parseHeader header = .ok self.authParams)
    (hread : findStringValue (splitHeader header) field.name = some read) :
    (field = .qop ∧ ∃ qop, (split read ',').mapM parseQop = .ok qop) ∨
    (field = .algorithm ∧ ∃ algorithm, parseAlgorithm read = .ok algorithm) ∨
    ∃ value, (field, value) ∈ self.fields ∧ read = value.val := by
  obtain ⟨hrealm, hqop, halgorithm, hnonce, habsent⟩ := parseHeader_eq_ok_iff.mp h
  cases field with
  | realm =>
      rw [show findStringValue (splitHeader header) "realm".toList = some read from hread,
        Option.getD_some] at hrealm
      exact .inr (.inr ⟨self.realm, self.realm_mem_fields, hrealm.symm⟩)
  | qop =>
      rw [show findStringValue (splitHeader header) "qop".toList = some read from hread,
        Option.getD_some] at hqop
      exact .inl ⟨rfl, self.authParams.qop, hqop⟩
  | algorithm =>
      rw [show findStringValue (splitHeader header) "algorithm".toList = some read from hread,
        Option.getD_some] at halgorithm
      exact .inr (.inl ⟨rfl, self.authParams.algorithm, halgorithm⟩)
  | nonce =>
      rw [show findStringValue (splitHeader header) "nonce".toList = some read from hread] at hnonce
      exact .inr (.inr ⟨self.nonce, self.nonce_mem_fields, Option.some.inj hnonce⟩)
  | opaqueValue =>
      rw [show findStringValue (splitHeader header) "opaque".toList = some read from hread]
        at habsent
      obtain ⟨value, hvalue, hval⟩ := Option.map_eq_some_iff.mp habsent
      exact .inr (.inr ⟨value, opaque_mem_fields_iff.mpr hvalue, hval.symm⟩)

/-- No quality of protection starts with the option's name. -/
theorem parseQop_lookalike (rest : Text) (qop : List Qop) :
    (split ('q' :: rest) ',').mapM parseQop ≠ .ok qop := by
  intro h
  obtain ⟨first, more, hsplit⟩ :=
    List.exists_cons_of_ne_nil (List.splitOn_ne_nil ',' rest)
  rw [split_cons (by decide), split, hsplit, List.modifyHead_cons,
    Collect.mapM_cons_eq_ok_iff] at h
  obtain ⟨b, rest', hb, -, -⟩ := h
  rw [parseQop, trim, trimEnd, trimmed_cons (by decide)] at hb
  simp at hb

/-- No algorithm does. -/
theorem parseAlgorithm_lookalike (rest : Text) (algorithm : Algorithm) :
    parseAlgorithm ('a' :: rest) ≠ .ok algorithm := by
  intro h
  rw [parseAlgorithm, trim, trimEnd, trimmed_cons (by decide)] at h
  simp at h

/-! ## Orders in which a challenge is not read -/

/-- A challenge has parameters. -/
theorem params_ne_nil : self.params ≠ [] := by simp [Challenge.params, Challenge.fields]

/-- The parameters in an order, without spaces. -/
def unspaced (ps : List Param) : List (ℕ × Param) := ps.map fun p => (0, p)

/-- Leaving out the blanks keeps the parameters. -/
theorem unspaced_map (ps : List Param) : (unspaced ps).map Prod.snd = ps := by
  rw [unspaced, List.map_map]
  exact List.map_id ps

/-- An order that starts with a given parameter with an odd number of apostrophes, and goes on with
all those with an even number. -/
theorem exists_odd_first (hp : p ∈ self.params) (hodd : oddApostrophes p.text = true) :
    ∃ even odd : List Param, (p :: (even ++ odd)).Perm self.params ∧
      (∀ q ∈ even, oddApostrophes q.text = false) ∧
      (∀ q ∈ self.params, oddApostrophes q.text = false → q ∈ even) ∧
      ∀ q ∈ odd, q ∈ self.params ∧ oddApostrophes q.text = true := by
  have hfilter : p ∈ self.params.filter fun q => oddApostrophes q.text :=
    List.mem_filter.mpr ⟨hp, hodd⟩
  obtain ⟨front, back, heq⟩ := List.append_of_mem hfilter
  refine ⟨self.params.filter fun q => !oddApostrophes q.text, front ++ back, ?_, ?_, ?_, ?_⟩
  · have hperm := List.filter_append_perm (fun q => oddApostrophes q.text) self.params
    rw [heq] at hperm
    refine List.Perm.trans ?_ hperm
    refine ((List.perm_append_comm.cons p).trans ?_)
    rw [← List.cons_append]
    exact List.perm_middle.symm.append_right _
  · intro q hq
    exact Bool.not_eq_true' _ ▸ (List.mem_filter.mp hq).2
  · intro q hq heven
    exact List.mem_filter.mpr ⟨hq, by rw [heven]; rfl⟩
  · intro q hq
    have hmem : q ∈ self.params.filter fun q => oddApostrophes q.text := by
      rw [heq]
      rcases List.mem_append.mp hq with h | h
      · exact List.mem_append_left _ h
      · exact List.mem_append_right _ (List.mem_cons_of_mem p h)
    exact List.mem_filter.mp hmem

/-- What is read for the nonce out of a part that goes on after a comma with a quoted value. -/
theorem doubleQuote_mem_nonce (first back : Text) {front value : Text} (hfront : ',' ∈ front)
    (hvalue : 't' ∈ value) :
    doubleQuote ∈ stringValue (Field.name .nonce)
      (first ++ trimEnd (front ++ doubleQuote :: (value ++ doubleQuote :: back))) := by
  rw [List.append_cons, ← List.append_assoc, trimEnd_append_cons (by decide), List.append_assoc,
    ← List.append_cons, ← List.append_assoc]
  apply doubleQuote_mem_stringValue (x := ',') (y := 't')
  · exact List.mem_append_right first hfront
  · decide
  · decide
  · exact List.mem_append_left _ hvalue
  · decide
  · decide

/-- The quality of protection, after a comma and spaces. -/
theorem following_qop (n : ℕ) :
    following (n, Field.param .qop quotedQop) =
      (',' :: (List.replicate n ' ' ++ "qop=".toList)) ++
        doubleQuote :: ("auth".toList ++ [doubleQuote]) := by
  have htext : Param.text (Field.param .qop quotedQop)
      = "qop=".toList ++ doubleQuote :: ("auth".toList ++ [doubleQuote]) := by decide
  rw [following, htext, List.cons_append, List.append_assoc]

/-- **An odd number of apostrophes** in some parameter hides the nonce in some order. -/
theorem exists_order_lost (hp : p ∈ self.params) (hodd : oddApostrophes p.text = true) :
    ∃ ps, (ps.map Prod.snd).Perm self.params ∧ parseHeader (render ps) ≠ .ok self.authParams := by
  -- a parameter that is taken for the nonce goes first, if there is one
  obtain ⟨first, hfirst, hfirstodd, hnonce⟩ : ∃ first ∈ self.params,
      oddApostrophes first.text = true ∧ (Field.name .nonce <+: first.name.val ∨
        ∀ q ∈ self.params, oddApostrophes q.text = true →
          ¬ Field.name .nonce <+: q.name.val) := by
    by_cases h : ∃ q ∈ self.params, oddApostrophes q.text = true ∧
        Field.name .nonce <+: q.name.val
    · obtain ⟨q, hq, hqodd, hstarts⟩ := h
      exact ⟨q, hq, hqodd, .inl hstarts⟩
    · exact ⟨p, hp, hodd, .inr fun q hq hqodd hstarts => h ⟨q, hq, hqodd, hstarts⟩⟩
  obtain ⟨even, odd, hperm, heven, hall, hrest⟩ := exists_odd_first hfirst hfirstodd
  refine ⟨unspaced (first :: (even ++ odd)), by rw [unspaced_map]; exact hperm, ?_⟩
  obtain ⟨back, more, hparts, hmore⟩ :=
    splitHeader_render_odd (0, first) (unspaced even) (unspaced odd) hfirstodd (by
        intro q hq
        obtain ⟨q, hq', rfl⟩ := List.mem_map.mp hq
        exact heven q hq')
  have hrender : unspaced (first :: (even ++ odd))
      = (0, first) :: (unspaced even ++ unspaced odd) := by
    simp [unspaced]
  rw [hrender]
  intro hparse
  have hread := (parseHeader_eq_ok_iff.mp hparse).2.2.2.1
  rw [hparts] at hread
  rcases hnonce with hstarts | hnone
  · -- the nonce is read out of everything up to the next odd parameter
    have hqop := hall _ (mem_params_iff.mpr (.inl ⟨.qop, _, self.qop_mem_fields, rfl⟩)) rfl
    have hmem : (0, Field.param .qop quotedQop) ∈ unspaced even := List.mem_map_of_mem hqop
    obtain ⟨before, after, hbefore⟩ := List.append_of_mem hmem
    have hcomma : ',' ∈ before.flatMap following ++
        ',' :: (List.replicate 0 ' ' ++ "qop=".toList) :=
      List.mem_append_right _ List.mem_cons_self
    have hauth : 't' ∈ "auth".toList := by decide
    have hquote := doubleQuote_mem_nonce first.text (after.flatMap following ++ back) hcomma hauth
    have hpart : (unspaced even).flatMap following ++ back
        = (before.flatMap following ++ ',' :: (List.replicate 0 ' ' ++ "qop=".toList)) ++
          doubleQuote :: ("auth".toList ++ doubleQuote :: (after.flatMap following ++ back)) := by
      rw [hbefore, List.flatMap_append, List.flatMap_cons, following_qop]
      simp only [List.append_assoc, List.cons_append, List.nil_append]
    rw [show "nonce".toList = Field.name .nonce from rfl,
      findStringValue_cons ((prefix_param_iff _).mpr hstarts), hpart] at hread
    rw [Option.some.inj hread] at hquote
    exact self.nonce.property.1 hquote
  · -- no part starts with the nonce
    rw [show "nonce".toList = Field.name .nonce from rfl, findStringValue_eq_none] at hread
    · cases hread
    · intro part hpart hstarts
      rcases List.mem_cons.mp hpart with rfl | hpart
      · exact hnone first hfirst hfirstodd ((prefix_param_iff _).mp hstarts)
      · obtain ⟨q, hq, text, rfl⟩ := hmore part hpart
        obtain ⟨q, hq', rfl⟩ := List.mem_map.mp hq
        exact hnone q (hrest q hq').1 (hrest q hq').2 ((prefix_param_iff _).mp hstarts)

/-! ## Challenges that parse back -/

/-- The number of apostrophes is even in every parameter, no value contains its own field's name and
an equals sign, and no name of another parameter starts with a field's, unless that parameter's text
without the field's name and the equals sign happens to be the field's value. -/
structure Challenge.Plain (challenge : Challenge) : Prop where
  apostrophes : ∀ p ∈ challenge.params, Even (p.text.count singleQuote)
  own : ∀ field value, (field, value) ∈ challenge.fields → ¬ field.name ++ ['='] <:+: value.val
  lookalike : ∀ p ∈ challenge.others, ∀ field : Field, field.name <+: p.name.val →
    ∃ value, (field, value) ∈ challenge.fields ∧ stringValue field.name p.text = value.val

/-- No single quote is left open if there is an even number of them. -/
theorem oddApostrophes_eq_false_iff {text : Text} :
    oddApostrophes text = false ↔ Even (text.count singleQuote) := by
  rw [oddApostrophes, Nat.even_iff, Nat.mod_two_of_bodd]
  cases (text.count singleQuote).bodd <;> decide

/-- What can be taken for a field has its value. -/
theorem Challenge.Plain.reads (h : self.Plain) (hp : p ∈ self.params)
    (hstarts : field.name <+: p.name.val) :
    ∃ value, (field, value) ∈ self.fields ∧ stringValue field.name p.text = value.val := by
  rcases mem_params_iff.mp hp with ⟨other, value, hmem, rfl⟩ | hother
  · obtain rfl : field = other := prefix_name_iff.mp hstarts
    exact ⟨value, hmem, stringValue_param_eq_iff.mpr (h.own field value hmem)⟩
  · exact h.lookalike p hother field hstarts

/-- **A plain challenge** parses back in every order. -/
theorem Challenge.Plain.parses (h : self.Plain) {ps : List (ℕ × Param)}
    (hperm : (ps.map Prod.snd).Perm self.params) :
    parseHeader (render ps) = .ok self.authParams := by
  have hne : ps ≠ [] := by
    rintro rfl
    exact params_ne_nil hperm.symm.eq_nil
  have hmem : ∀ p ∈ ps, p.2 ∈ self.params := fun p hp =>
    hperm.mem_iff.mp (List.mem_map_of_mem hp)
  have hparts := splitHeader_render hne fun p hp =>
    oddApostrophes_eq_false_iff.mpr (h.apostrophes p.2 (hmem p hp))
  -- a part that is taken for a field
  have htaken : ∀ {field : Field}, ∀ part ∈ splitHeader (render ps), field.name <+: part →
      ∃ value, (field, value) ∈ self.fields ∧ stringValue field.name part = value.val := by
    intro field part hpart hstarts
    rw [hparts] at hpart
    obtain ⟨p, hp, rfl⟩ := List.mem_map.mp hpart
    apply h.reads (hmem p hp)
    rw [← prefix_param_iff [], List.append_nil]
    exact hstarts
  apply parseHeader_of_reads
  · intro field value hvalue
    apply findStringValue_eq_some
    · have hparam : field.param value ∈ self.params :=
        mem_params_iff.mpr (.inl ⟨field, value, hvalue, rfl⟩)
      obtain ⟨p, hp, heq⟩ := List.mem_map.mp (hperm.mem_iff.mpr hparam)
      refine ⟨p.2.text, hparts ▸ List.mem_map_of_mem hp, ?_⟩
      rw [heq, Param.text]
      exact List.prefix_append _ _
    · intro part hpart hstarts
      obtain ⟨other, hother, hread⟩ := htaken part hpart hstarts
      rw [hread, fields_unique hvalue hother]
  · intro hnone
    apply findStringValue_eq_none
    intro part hpart hstarts
    obtain ⟨value, hvalue, -⟩ := htaken part hpart hstarts
    rw [opaque_mem_fields_iff.mp hvalue] at hnone
    cases hnone

/-- With a parameter first that can be taken for a field, it is. -/
theorem exists_order_first (heven : ∀ q ∈ self.params, oddApostrophes q.text = false)
    (hp : p ∈ self.params) (hstarts : field.name <+: p.name.val) :
    ∃ ps, (ps.map Prod.snd).Perm self.params ∧
      findStringValue (splitHeader (render ps)) field.name
        = some (stringValue field.name p.text) := by
  obtain ⟨front, back, heq⟩ := List.append_of_mem hp
  have hperm : (p :: (front ++ back)).Perm self.params := heq ▸ List.perm_middle.symm
  refine ⟨unspaced (p :: (front ++ back)), by rw [unspaced_map]; exact hperm, ?_⟩
  rw [splitHeader_render (by simp [unspaced])]
  · apply findStringValue_cons
    show field.name <+: p.text
    rw [← List.append_nil p.text]
    exact (prefix_param_iff []).mpr hstarts
  · intro q hq
    obtain ⟨q, hq', rfl⟩ := List.mem_map.mp hq
    exact heven q (hperm.mem_iff.mp hq')

/-- **Digest challenges parse back**, in every order and with any spaces, exactly if they are
plain. -/
theorem parses_back_iff (self : Challenge) :
    (∀ ps, (ps.map Prod.snd).Perm self.params →
      parseHeader (render ps) = .ok self.authParams) ↔ self.Plain := by
  constructor
  · intro hparses
    have heven : ∀ p ∈ self.params, oddApostrophes p.text = false := by
      intro p hp
      by_contra hodd
      obtain ⟨ps, hperm, hlost⟩ := exists_order_lost hp (Bool.not_eq_false _ ▸ hodd)
      exact hlost (hparses ps hperm)
    have hread : ∀ p ∈ self.params, ∀ field : Field, field.name <+: p.name.val →
        (field = .qop ∧ ∃ qop,
          (split (stringValue field.name p.text) ',').mapM parseQop = .ok qop) ∨
        (field = .algorithm ∧ ∃ algorithm,
          parseAlgorithm (stringValue field.name p.text) = .ok algorithm) ∨
        ∃ value, (field, value) ∈ self.fields ∧ stringValue field.name p.text = value.val := by
      intro p hp field hstarts
      obtain ⟨ps, hperm, hfind⟩ := exists_order_first heven hp hstarts
      exact read_of_parseHeader (hparses ps hperm) hfind
    constructor
    · intro p hp
      exact oddApostrophes_eq_false_iff.mp (heven p hp)
    · intro field value hvalue
      rw [← stringValue_param_eq_iff]
      have hparam : field.param value ∈ self.params :=
        mem_params_iff.mpr (.inl ⟨field, value, hvalue, rfl⟩)
      rcases hread _ hparam field (List.prefix_refl field.name) with ⟨rfl, -⟩ | ⟨rfl, -⟩ |
        ⟨other, hother, heq⟩
      · rw [fields_unique hvalue self.qop_mem_fields]
        decide
      · rw [fields_unique hvalue self.algorithm_mem_fields]
        cases self.algorithm <;> decide
      · rw [heq, fields_unique hvalue hother]
    · intro p hp field hstarts
      have hne : p.name.val ≠ field.name := self.unrelated p hp field
      rcases hread p (mem_params_iff.mpr (.inr hp)) field hstarts with ⟨rfl, qop, hqop⟩ |
        ⟨rfl, algorithm, halgorithm⟩ | h
      · obtain ⟨rest, hrest⟩ := stringValue_lookalike hstarts hne 'q' "op".toList rfl (by decide)
        rw [hrest] at hqop
        exact absurd hqop (parseQop_lookalike rest qop)
      · obtain ⟨rest, hrest⟩ :=
          stringValue_lookalike hstarts hne 'a' "lgorithm".toList rfl (by decide)
        rw [hrest] at halgorithm
        exact absurd halgorithm (parseAlgorithm_lookalike rest algorithm)
      · exact h
  · exact fun hplain ps hperm => hplain.parses hperm

/-- A challenge with an apostrophe in its realm. -/
def apostropheRealm : Challenge where
  realm := ⟨"it's".toList, by decide⟩
  nonce := ⟨"abc".toList, by decide⟩
  opaqueValue := none
  algorithm := .md5
  others := []
  unrelated := nofun

/-- It is refused in the order realm, nonce, quality of protection, algorithm: no nonce is found. -/
theorem apostrophe_realm_refused :
    ((unspaced apostropheRealm.params).map Prod.snd).Perm apostropheRealm.params ∧
      parseHeader (render (unspaced apostropheRealm.params))
        = .error (.invalidHeader "no nonce provided".toList) :=
  ⟨by rw [unspaced_map], by decide⟩

end AcceptXmr
