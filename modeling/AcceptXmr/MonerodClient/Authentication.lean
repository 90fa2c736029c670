import AcceptXmr.Library.Collect
import AcceptXmr.Library.Sorting
import AcceptXmr.Library.Text

/-! # Digest authentication

`library/src/monerod_client/authentication.rs`: the challenges of a response are parsed, the best of
them is kept, and later requests are authenticated with it. What the crates `http`, `hex`, `md5` and
`rand` do is a parameter, `crates`; how an unstable sort orders equal elements is one too.

One challenge that cannot be parsed, or a header that is not text, fails the whole response.

* **`authenticateWithResp_of_choices`** — the challenge that is chosen.
* **`uses_supported_iff`** — when a supported challenge is used. -/

namespace AcceptXmr

open Text

/-! ## Parameters of a challenge -/

/-- Quality of protection directives. -/
inductive Qop where
  | auth
  deriving DecidableEq, Repr, Ord

/-- `Ord::max`: of two equal values the second. -/
instance : Max Qop := ⟨fun a b => if compare a b = .gt then a else b⟩

/-- Digest algorithms in order of preference with the best option last. -/
inductive Algorithm where
  | md5
  | md5Sess
  deriving DecidableEq, Repr, Ord

/-- `Display`, in kebab case. -/
def Qop.display : Qop → Text
  | .auth => "auth".toList

def Algorithm.display : Algorithm → Text
  | .md5 => "MD5".toList
  | .md5Sess => "MD5-sess".toList

def Algorithm.isSess : Algorithm → Bool
  | .md5Sess => true
  | .md5 => false

/-- Parameters that may appear in the header of a challenge. -/
structure AuthParams where
  realm : Text
  qop : List Qop
  algorithm : Algorithm
  nonce : Text
  opaqueValue : Option Text
  deriving DecidableEq, Repr

inductive AuthError where
  | unauthorized
  | invalidHeader (message : Text)
  | headerConstruction
  | unsupported
  deriving DecidableEq, Repr

/-- `self.qop.iter().max()`. -/
def AuthParams.bestQop (self : AuthParams) : Option Qop := self.qop.max?

/-! ## Parsing a challenge -/

def singleQuote : Char := Char.ofNat 39

def doubleQuote : Char := Char.ofNat 34

/-- The variables of `split_header`'s loop. -/
structure SplitState where
  parts : List Text := []
  inSingleQuote : Bool := false
  inDoubleQuote : Bool := false
  lastSplit : ℕ := 0

/-- `trim_start_matches(',').trim()`. -/
def cleanPart (part : Text) : Text := trim (trimStartMatches part ',')

/-- `header_str[from..to]`, cleaned. -/
def headerPart (header : Text) (first last : ℕ) : Text :=
  cleanPart ((header.take last).drop first)

/-- The `match` of `split_header`, on the character at `i`. -/
def SplitState.character (header : Text) (i : ℕ) (c : Char) (self : SplitState) : SplitState :=
  if c = singleQuote then { self with inSingleQuote := !self.inSingleQuote }
  else if c = doubleQuote then { self with inDoubleQuote := !self.inDoubleQuote }
  else if c = ',' then
    if !self.inSingleQuote && !self.inDoubleQuote then
      { self with parts := self.parts ++ [headerPart header self.lastSplit i], lastSplit := i }
    else self
  else self

/-- The loop of `split_header`, over the characters from `i` on. -/
def splitLoop (header : Text) : ℕ → Text → SplitState → SplitState
  | _, [], state => state
  | i, c :: rest, state =>
      let state := state.character header i c
      -- `char_iterator.peek().is_none()`
      if rest.isEmpty then
        { state with parts := state.parts ++ [cleanPart (header.drop state.lastSplit)] }
      else splitLoop header (i + 1) rest state

def splitHeader (header : Text) : List Text := (splitLoop header 0 header {}).parts

/-- The value that `find_string_value` takes out of a part. -/
def stringValue (field part : Text) : Text :=
  trimEndMatches (trimStartMatches (replace part (field ++ ['=']) []) doubleQuote) doubleQuote

def findStringValue (parts : List Text) (field : Text) : Option Text :=
  (parts.find? fun part => field.isPrefixOf part).map (stringValue field)

/-- A directive of the option `qop`. -/
def parseQop (s : Text) : Except AuthError Qop :=
  let q := trim s
  if q = [] ∨ q = "auth".toList then .ok .auth
  else .error (.invalidHeader ("unknown QoP directive: ".toList ++ q))

def parseAlgorithm (s : Text) : Except AuthError Algorithm :=
  let a := trim s
  if a = [] ∨ a = "MD5".toList then .ok .md5
  else if a = "MD5-sess".toList then .ok .md5Sess
  else .error (.invalidHeader ("unknown algorithm: ".toList ++ a))

def parseHeader (header : Text) : Except AuthError AuthParams := do
  let parts := splitHeader header
  let realm := (findStringValue parts "realm".toList).getD []
  let qop ← (split ((findStringValue parts "qop".toList).getD []) ',').mapM parseQop
  let algorithm ← parseAlgorithm ((findStringValue parts "algorithm".toList).getD [])
  let nonce ← match findStringValue parts "nonce".toList with
    | some nonce => .ok nonce
    | none => .error (.invalidHeader "no nonce provided".toList)
  let opaqueValue := findStringValue parts "opaque".toList
  return { realm, qop, algorithm, nonce, opaqueValue }

/-- **What is parsed** out of a header. -/
theorem parseHeader_eq_ok_iff {header : Text} {params : AuthParams} :
    parseHeader header = .ok params ↔
      params.realm = (findStringValue (splitHeader header) "realm".toList).getD [] ∧
      (split ((findStringValue (splitHeader header) "qop".toList).getD []) ',').mapM parseQop
        = .ok params.qop ∧
      parseAlgorithm ((findStringValue (splitHeader header) "algorithm".toList).getD [])
        = .ok params.algorithm ∧
      findStringValue (splitHeader header) "nonce".toList = some params.nonce ∧
      params.opaqueValue = findStringValue (splitHeader header) "opaque".toList := by
  rw [parseHeader]
  obtain ⟨realm, qop, algorithm, nonce, opaqueValue⟩ := params
  cases (split ((findStringValue (splitHeader header) "qop".toList).getD []) ',').mapM parseQop with
  | error e => exact ⟨nofun, nofun⟩
  | ok qop' =>
      cases parseAlgorithm ((findStringValue (splitHeader header) "algorithm".toList).getD []) with
      | error e => exact ⟨nofun, nofun⟩
      | ok algorithm' =>
          cases findStringValue (splitHeader header) "nonce".toList with
          | none => exact ⟨nofun, nofun⟩
          | some nonce' =>
              constructor
              · intro h
                cases h
                exact ⟨rfl, rfl, rfl, rfl, rfl⟩
              · rintro ⟨rfl, h₁, h₂, h₃, rfl⟩
                cases h₁
                cases h₂
                cases h₃
                rfl

theorem parseQop_error {s : Text} {e : AuthError} (h : parseQop s = .error e) :
    ∃ message, e = .invalidHeader message := by
  rw [parseQop] at h
  split at h
  · cases h
  · cases h
    exact ⟨_, rfl⟩

theorem parseAlgorithm_error {s : Text} {e : AuthError} (h : parseAlgorithm s = .error e) :
    ∃ message, e = .invalidHeader message := by
  rw [parseAlgorithm] at h
  split at h
  · cases h
  · split at h
    · cases h
    · cases h
      exact ⟨_, rfl⟩

/-- Every error of parsing says that the header is invalid. -/
theorem parseHeader_error {header : Text} {e : AuthError} (h : parseHeader header = .error e) :
    ∃ message, e = .invalidHeader message := by
  rw [parseHeader] at h
  cases hqop : (split ((findStringValue (splitHeader header) "qop".toList).getD []) ',').mapM
      parseQop with
  | error e' =>
      rw [hqop] at h
      cases h
      obtain ⟨s, -, hs⟩ := Collect.error_of_mapM hqop
      exact parseQop_error hs
  | ok qop =>
      rw [hqop] at h
      cases halg : parseAlgorithm
          ((findStringValue (splitHeader header) "algorithm".toList).getD []) with
      | error e' =>
          rw [halg] at h
          cases h
          exact parseAlgorithm_error halg
      | ok algorithm =>
          rw [halg] at h
          cases hnonce : findStringValue (splitHeader header) "nonce".toList with
          | some nonce =>
              rw [hnonce] at h
              cases h
          | none =>
              rw [hnonce] at h
              cases h
              exact ⟨_, rfl⟩

/-- A parsed challenge offers some quality of protection. -/
theorem parseHeader_bestQop {header : Text} {params : AuthParams}
    (h : parseHeader header = .ok params) : ∃ qop, params.bestQop = some qop := by
  have hqop := (parseHeader_eq_ok_iff.mp h).2.1
  have hne : params.qop ≠ [] := by
    intro hnil
    have hlen := Collect.length_of_mapM hqop
    rw [hnil, List.length_nil, List.length_eq_zero_iff] at hlen
    exact List.splitOn_ne_nil _ _ hlen
  rw [AuthParams.bestQop, ← Option.isSome_iff_exists]
  exact List.isSome_max?_of_ne_nil hne

/-! ## Choosing among challenges -/

/-- `Ord` for `AuthParams`. -/
instance : Ord AuthParams where
  compare a b :=
    match compare a.bestQop b.bestQop with
    | .eq => compare a.algorithm b.algorithm
    | ord => ord

instance : Std.TransOrd Qop where
  eq_swap {a b} := by cases a; cases b; rfl
  isLE_trans {a b c} := by cases a; cases b; cases c; exact fun h _ => h

instance : Std.TransOrd Algorithm where
  eq_swap {a b} := by cases a <;> cases b <;> rfl
  isLE_trans {a b c} := by cases a <;> cases b <;> cases c <;> decide

/-- The order is the one of the best directive and the algorithm. -/
theorem AuthParams.compare_eq :
    (compare : AuthParams → AuthParams → Ordering) =
      compareLex (compareOn AuthParams.bestQop) (compareOn AuthParams.algorithm) := by
  funext a b
  simp only [compareLex, compareOn]
  show (match compare a.bestQop b.bestQop with
    | .eq => compare a.algorithm b.algorithm
    | ord => ord) = _
  cases compare a.bestQop b.bestQop <;> rfl

instance : Std.TransOrd AuthParams := by
  unfold Std.TransOrd
  rw [AuthParams.compare_eq]
  infer_instance

/-- What other crates do. -/
structure AuthCrates (HeaderValue Rng : Type) where
  /-- `HeaderValue::to_str`. -/
  toStr : HeaderValue → Option Text
  /-- `HeaderValue::from_str`. -/
  fromStr : Text → Option HeaderValue
  /-- The MD5 digest of a text's bytes. -/
  md5 : Text → List UInt8
  /-- `hex::encode`. -/
  hexEncode : List UInt8 → Text
  /-- `Rng::fill`, of 16 bytes. -/
  fill : Rng → List UInt8 × Rng

/-- What the code reads of a `Uri`. -/
structure Uri where
  path : Text
  pathAndQuery : Option Text

structure AuthInfo (Rng : Type) where
  username : Text
  password : Text
  counter : UInt32
  lastAuthParams : Option AuthParams
  rng : Rng

/-- The format `{:08x}`. -/
def lowerHex8 (n : UInt32) : Text :=
  (List.range 8).reverse.map fun i => Nat.digitChar (n.toNat >>> (4 * i) % 16)

section Authenticate

variable {HeaderValue Rng : Type} (crates : AuthCrates HeaderValue Rng)

def md5Str (input : Text) : Text := crates.hexEncode (crates.md5 input)

/-- `AuthInfo::new`, with the seeded or random generator. -/
def AuthInfo.new (username password : Text) (rng : Rng) : AuthInfo Rng :=
  { username, password, counter := 1, lastAuthParams := none, rng }

/-- The text of the header that `authenticate` builds. -/
def AuthInfo.authHeader (self : AuthInfo Rng) (authParams : AuthParams) (qop : Qop) (cnonce : Text)
    (uri : Uri) (method : Text) : Text :=
  let pathAndQuery := uri.pathAndQuery.getD uri.path
  let nc := lowerHex8 self.counter
  let ha1 := md5Str crates (self.username ++ [':'] ++ authParams.realm ++ [':'] ++ self.password)
  let ha1 :=
    if authParams.algorithm.isSess then
      md5Str crates (ha1 ++ [':'] ++ authParams.nonce ++ [':'] ++ cnonce)
    else ha1
  let ha2 := md5Str crates (method ++ [':'] ++ pathAndQuery)
  let response := md5Str crates (ha1 ++ [':'] ++ authParams.nonce ++ [':'] ++ nc ++ [':'] ++ cnonce
    ++ [':'] ++ qop.display ++ [':'] ++ ha2)
  let authHeader := "Digest username=\"".toList ++ self.username
    ++ "\", realm=\"".toList ++ authParams.realm
    ++ "\", nonce=\"".toList ++ authParams.nonce
    ++ "\", uri=\"".toList ++ pathAndQuery
    ++ "\", qop=".toList ++ qop.display
    ++ ", nc=".toList ++ nc
    ++ ", cnonce=\"".toList ++ cnonce
    ++ "\", response=\"".toList ++ response
    ++ "\", algorithm=".toList ++ authParams.algorithm.display
  match authParams.opaqueValue with
  | some opaqueVal => authHeader ++ ", opaque=".toList ++ opaqueVal
  | none => authHeader

/-- `AuthInfo::authenticate`. -/
def AuthInfo.authenticate (self : AuthInfo Rng) (uri : Uri) (method : Text) :
    Except AuthError (Option HeaderValue) × AuthInfo Rng :=
  match self.lastAuthParams with
  | none => (.ok none, self)
  | some authParams =>
      let (cnonceBytes, rng) := crates.fill self.rng
      match authParams.bestQop with
      | none => (.error .unsupported, { self with rng })
      | some qop =>
          let authHeader := self.authHeader crates authParams qop (crates.hexEncode cnonceBytes)
            uri method
          let self := { self with rng, counter := self.counter + 1 }
          match crates.fromStr authHeader with
          | some value => (.ok (some value), self)
          | none => (.error .headerConstruction, self)

/-- `strip_prefix("Digest ")`. -/
def digestChallenge (header : Text) : Option Text :=
  if "Digest ".toList.isPrefixOf header then some (header.drop 7) else none

/-- `to_str`, of one header. -/
def headerText (header : HeaderValue) : Except AuthError Text :=
  match crates.toStr header with
  | some text => .ok text
  | none => .error (.invalidHeader "header could not be parsed to String".toList)

/-- The parsed challenges of a response. -/
def authChoices (headers : List HeaderValue) : Except AuthError (List AuthParams) := do
  let authenticateHeaders ← headers.mapM (headerText crates)
  (authenticateHeaders.filterMap digestChallenge).mapM parseHeader

/-- The info after a challenge was chosen. -/
def AuthInfo.choose (self : AuthInfo Rng) (authParams : AuthParams) : AuthInfo Rng :=
  { self with lastAuthParams := some authParams, counter := 1 }

/-- `AuthInfo::authenticate_with_resp`, of a response with the given `WWW-Authenticate` headers. -/
def AuthInfo.authenticateWithResp (sorting : UnstableSort AuthParams) (self : AuthInfo Rng)
    (headers : List HeaderValue) (uri : Uri) (method : Text) :
    Except AuthError HeaderValue × AuthInfo Rng :=
  match authChoices crates headers with
  | .error e => (.error e, self)
  | .ok choices =>
      match (sorting.sort choices).getLast? with
      | none => (.error .unsupported, self)
      | some authParams =>
          match (self.choose authParams).authenticate crates uri method with
          | (.ok (some value), self) => (.ok value, self)
          | (.ok none, self) => (.error .unsupported, self)
          | (.error e, self) => (.error e, self)

/-! ## Supported challenges -/

/-- `params` was parsed out of a header that is a Digest challenge. -/
def AcceptedChallenge (headers : List HeaderValue) (params : AuthParams) : Prop :=
  ∃ header ∈ headers, ∃ text challenge, crates.toStr header = some text ∧
    digestChallenge text = some challenge ∧ parseHeader challenge = .ok params

/-- Every header is text, and every Digest challenge can be parsed. -/
def AllParse (headers : List HeaderValue) : Prop :=
  ∀ header ∈ headers, ∃ text, crates.toStr header = some text ∧
    ∀ challenge, digestChallenge text = some challenge →
      ∃ params, parseHeader challenge = .ok params

variable {crates} {headers : List HeaderValue} {choices : List AuthParams}

theorem headerText_eq_ok_iff {header : HeaderValue} {text : Text} :
    headerText crates header = .ok text ↔ crates.toStr header = some text := by
  rw [headerText]
  cases crates.toStr header with
  | none => exact ⟨nofun, nofun⟩
  | some text' =>
      constructor
      · exact fun h => congrArg some (Except.ok.inj h)
      · exact fun h => congrArg Except.ok (Option.some.inj h)

/-- Both steps succeed. -/
theorem authChoices_eq_ok_iff :
    authChoices crates headers = .ok choices ↔
      ∃ texts, headers.mapM (headerText crates) = .ok texts ∧
        (texts.filterMap digestChallenge).mapM parseHeader = .ok choices := by
  rw [authChoices]
  cases headers.mapM (headerText crates) with
  | error e => exact ⟨nofun, nofun⟩
  | ok texts =>
      constructor
      · intro h
        exact ⟨texts, rfl, h⟩
      · rintro ⟨texts', htexts, h⟩
        cases htexts
        exact h

/-- The choices are the accepted challenges. -/
theorem mem_authChoices (h : authChoices crates headers = .ok choices) (params : AuthParams) :
    params ∈ choices ↔ AcceptedChallenge crates headers params := by
  obtain ⟨texts, htexts, hparse⟩ := authChoices_eq_ok_iff.mp h
  rw [Collect.mem_of_mapM hparse]
  constructor
  · rintro ⟨challenge, hmem, hparams⟩
    obtain ⟨text, htext, hdigest⟩ := List.mem_filterMap.mp hmem
    obtain ⟨header, hheader, hstr⟩ := (Collect.mem_of_mapM htexts text).mp htext
    exact ⟨header, hheader, text, challenge, headerText_eq_ok_iff.mp hstr, hdigest, hparams⟩
  · rintro ⟨header, hheader, text, challenge, hstr, hdigest, hparams⟩
    have htext : text ∈ texts :=
      (Collect.mem_of_mapM htexts text).mpr ⟨header, hheader, headerText_eq_ok_iff.mpr hstr⟩
    exact ⟨challenge, List.mem_filterMap.mpr ⟨text, htext, hdigest⟩, hparams⟩

/-- There are choices if every header can be used. -/
theorem exists_authChoices_iff :
    (∃ choices, authChoices crates headers = .ok choices) ↔ AllParse crates headers := by
  constructor
  · rintro ⟨choices, h⟩ header hheader
    obtain ⟨texts, htexts, hparse⟩ := authChoices_eq_ok_iff.mp h
    obtain ⟨text, htext⟩ := Collect.exists_mapM_eq_ok_iff.mp ⟨texts, htexts⟩ header hheader
    refine ⟨text, headerText_eq_ok_iff.mp htext, ?_⟩
    intro challenge hdigest
    apply Collect.exists_mapM_eq_ok_iff.mp ⟨choices, hparse⟩
    apply List.mem_filterMap.mpr
    exact ⟨text, (Collect.mem_of_mapM htexts text).mpr ⟨header, hheader, htext⟩, hdigest⟩
  · intro h
    obtain ⟨texts, htexts⟩ : ∃ texts, headers.mapM (headerText crates) = .ok texts := by
      apply Collect.exists_mapM_eq_ok_iff.mpr
      intro header hheader
      obtain ⟨text, htext, -⟩ := h header hheader
      exact ⟨text, headerText_eq_ok_iff.mpr htext⟩
    obtain ⟨choices, hparse⟩ :
        ∃ choices, (texts.filterMap digestChallenge).mapM parseHeader = .ok choices := by
      apply Collect.exists_mapM_eq_ok_iff.mpr
      intro challenge hmem
      obtain ⟨text, htext, hdigest⟩ := List.mem_filterMap.mp hmem
      obtain ⟨header, hheader, hstr⟩ := (Collect.mem_of_mapM htexts text).mp htext
      obtain ⟨text', htext', hall⟩ := h header hheader
      have heq : text' = text :=
        Option.some.inj (htext'.symm.trans (headerText_eq_ok_iff.mp hstr))
      exact hall challenge (heq ▸ hdigest)
    exact ⟨choices, authChoices_eq_ok_iff.mpr ⟨texts, htexts, hparse⟩⟩

/-- A response of which there are no choices is invalid. -/
theorem authChoices_error {e : AuthError} (h : authChoices crates headers = .error e) :
    ∃ message, e = .invalidHeader message := by
  rw [authChoices] at h
  cases htexts : headers.mapM (headerText crates) with
  | error e' =>
      rw [htexts] at h
      cases h
      obtain ⟨header, -, herror⟩ := Collect.error_of_mapM htexts
      rw [headerText] at herror
      cases hstr : crates.toStr header with
      | some text =>
          rw [hstr] at herror
          cases herror
      | none =>
          rw [hstr] at herror
          cases herror
          exact ⟨_, rfl⟩
  | ok texts =>
      rw [htexts] at h
      obtain ⟨challenge, -, herror⟩ := Collect.error_of_mapM h
      exact parseHeader_error herror

/-! ## Using a supported challenge -/

variable {self : AuthInfo Rng} {uri : Uri} {method : Text} {params : AuthParams}

/-- With parameters that were just chosen, the header is built from them, as the first request. -/
theorem authenticate_choose {qop : Qop} (h : params.bestQop = some qop) :
    (self.choose params).authenticate crates uri method =
      let cnonce := crates.hexEncode (crates.fill self.rng).1
      let authHeader := (self.choose params).authHeader crates params qop cnonce uri method
      ((crates.fromStr authHeader).elim (.error .headerConstruction) fun value => .ok (some value),
        { self.choose params with rng := (crates.fill self.rng).2, counter := 2 }) := by
  simp only [AuthInfo.authenticate, AuthInfo.choose, h]
  cases crates.fromStr (AuthInfo.authHeader crates
    { self with counter := 1, lastAuthParams := some params } params qop
    (crates.hexEncode (crates.fill self.rng).1) uri method) <;> rfl

/-- With a chosen challenge, nothing fails but the construction of the header. -/
theorem authenticate_choose_error {qop : Qop} (h : params.bestQop = some qop) {e : AuthError}
    (herror : ((self.choose params).authenticate crates uri method).1 = .error e) :
    e = .headerConstruction := by
  rw [authenticate_choose h] at herror
  dsimp only at herror
  generalize crates.fromStr _ = value at herror
  cases value with
  | some value => cases herror
  | none => exact (Except.error.inj herror).symm

/-- **A chosen challenge** is a greatest one, and it is authenticated with. -/
theorem authenticateWithResp_of_choices (sorting : UnstableSort AuthParams) (self : AuthInfo Rng)
    (uri : Uri) (method : Text) (h : authChoices crates headers = .ok choices)
    (hne : choices ≠ []) :
    ∃ best ∈ choices, (∀ other ∈ choices, (compare other best).isLE) ∧
      (self.authenticateWithResp crates sorting headers uri method).2.lastAuthParams = some best ∧
      (self.choose best).authenticate crates uri method =
        ((self.authenticateWithResp crates sorting headers uri method).1.map some,
          (self.authenticateWithResp crates sorting headers uri method).2) := by
  cases hlast : (sorting.sort choices).getLast? with
  | none => exact absurd ((sorting.getLast?_eq_none_iff).mp hlast) hne
  | some best =>
      obtain ⟨hmem, hgreatest⟩ := sorting.getLast?_greatest hlast
      obtain ⟨header, -, text, challenge, -, -, hparse⟩ := (mem_authChoices h best).mp hmem
      obtain ⟨qop, hqop⟩ := parseHeader_bestQop hparse
      refine ⟨best, hmem, hgreatest, ?_⟩
      rw [AuthInfo.authenticateWithResp, h]
      simp only [hlast, authenticate_choose hqop]
      cases crates.fromStr ((self.choose best).authHeader crates best qop
        (crates.hexEncode (crates.fill self.rng).1) uri method) with
      | some value => exact ⟨rfl, rfl⟩
      | none => exact ⟨rfl, rfl⟩

/-- A supported challenge is used: the best of the accepted ones is stored and authenticated with.
Without any, there is an error, and the parameters and the counter are kept. -/
def UsesSupported (crates : AuthCrates HeaderValue Rng) (self : AuthInfo Rng)
    (headers : List HeaderValue) (uri : Uri) (method : Text)
    (result : Except AuthError HeaderValue × AuthInfo Rng) : Prop :=
  ((∃ params, AcceptedChallenge crates headers params) →
    ∃ best, AcceptedChallenge crates headers best ∧
      (∀ other, AcceptedChallenge crates headers other → (compare other best).isLE) ∧
      result.2.lastAuthParams = some best ∧
      (self.choose best).authenticate crates uri method = (result.1.map some, result.2)) ∧
  ((¬ ∃ params, AcceptedChallenge crates headers params) →
    (∃ e, result.1 = .error e) ∧ result.2.lastAuthParams = self.lastAuthParams ∧
      result.2.counter = self.counter)

/-- **A supported challenge is used**, whatever is offered beside it, exactly if all headers are
text and all Digest challenges can be parsed, or there is no supported challenge. -/
theorem uses_supported_iff (crates : AuthCrates HeaderValue Rng)
    (sorting : UnstableSort AuthParams) (self : AuthInfo Rng) (headers : List HeaderValue)
    (uri : Uri) (method : Text) :
    UsesSupported crates self headers uri method
        (self.authenticateWithResp crates sorting headers uri method) ↔
      AllParse crates headers ∨ ¬ ∃ params, AcceptedChallenge crates headers params := by
  cases hchoices : authChoices crates headers with
  | ok choices =>
      have hall : AllParse crates headers := exists_authChoices_iff.mp ⟨choices, hchoices⟩
      refine iff_of_true ⟨?_, ?_⟩ (.inl hall)
      · rintro ⟨params, hparams⟩
        have hne : choices ≠ [] :=
          List.ne_nil_of_mem ((mem_authChoices hchoices params).mpr hparams)
        obtain ⟨best, hmem, hgreatest, hstored, hused⟩ :=
          authenticateWithResp_of_choices sorting self uri method hchoices hne
        refine ⟨best, (mem_authChoices hchoices best).mp hmem, ?_, hstored, hused⟩
        intro other hother
        exact hgreatest other ((mem_authChoices hchoices other).mpr hother)
      · intro hnone
        have hnil : choices = [] := by
          apply List.eq_nil_iff_forall_not_mem.mpr
          intro params hmem
          exact hnone ⟨params, (mem_authChoices hchoices params).mp hmem⟩
        have hlast := sorting.getLast?_eq_none_iff.mpr hnil
        simp [AuthInfo.authenticateWithResp, hchoices, hlast]
  | error e =>
      -- the state is as it was, whatever was accepted
      have hresult : self.authenticateWithResp crates sorting headers uri method
          = (.error e, self) := by
        rw [AuthInfo.authenticateWithResp, hchoices]
      have hall : ¬ AllParse crates headers := by
        intro hall
        obtain ⟨choices, h⟩ := exists_authChoices_iff.mpr hall
        rw [hchoices] at h
        cases h
      rw [hresult]
      constructor
      · rintro ⟨hsupported, -⟩
        refine .inr ?_
        intro haccepted
        obtain ⟨best, ⟨header, -, text, challenge, -, -, hparse⟩, -, -, hused⟩ :=
          hsupported haccepted
        obtain ⟨qop, hqop⟩ := parseHeader_bestQop hparse
        obtain ⟨message, rfl⟩ := authChoices_error hchoices
        -- authenticating fails with another error, if at all
        have herror := authenticate_choose_error hqop (congrArg Prod.fst hused)
        cases herror
      · rintro (h | h)
        · exact absurd h hall
        · exact ⟨fun haccepted => absurd haccepted h, fun _ => ⟨⟨e, rfl⟩, rfl, rfl⟩⟩

end Authenticate

/-- Headers of visible ASCII text, for a server of which no digest is needed. -/
def textCrates : AuthCrates Text Unit where
  toStr text := if text.all fun c => ' ' ≤ c && c ≤ '~' then some text else none
  fromStr text := if text.all fun c => ' ' ≤ c && c ≤ '~' then some text else none
  md5 _ := List.replicate 16 0
  hexEncode bytes := bytes.flatMap fun b =>
    [Nat.digitChar (b.toNat / 16), Nat.digitChar (b.toNat % 16)]
  fill rng := (List.replicate 16 0, rng)

/-- An MD5 challenge is not used when one with the algorithm SHA-256 is offered beside it. -/
theorem sha256_refuses_md5 :
    let headers := ["Digest nonce=\"a\"".toList, "Digest algorithm=SHA-256,nonce=\"a\"".toList]
    let info := AuthInfo.new "user".toList "password".toList ()
    let uri : Uri := ⟨"/json_rpc".toList, some "/json_rpc".toList⟩
    (∃ params, AcceptedChallenge textCrates headers params) ∧
      ¬ UsesSupported textCrates info headers uri "POST".toList
        (info.authenticateWithResp textCrates (.insertion AuthParams) headers uri "POST".toList) := by
  intro headers info uri
  have haccepted : ∃ params, AcceptedChallenge textCrates headers params :=
    ⟨⟨[], [.auth], .md5, ['a'], none⟩, "Digest nonce=\"a\"".toList, List.mem_cons_self,
      "Digest nonce=\"a\"".toList, "nonce=\"a\"".toList, by decide, by decide, by decide⟩
  have hkept : (info.authenticateWithResp textCrates (.insertion AuthParams) headers uri
      "POST".toList).2.lastAuthParams = none := by decide
  refine ⟨haccepted, ?_⟩
  rintro ⟨hsupported, -⟩
  obtain ⟨best, -, -, hstored, -⟩ := hsupported haccepted
  rw [hkept] at hstored
  cases hstored

end AcceptXmr
