import AcceptXmr.Library.Codec
import AcceptXmr.Library.IndexMap
import AcceptXmr.Library.Replay
import AcceptXmr.MonerodClient.Authentication
import AcceptXmr.MonerodClient.Rpc
import Mathlib.Data.List.Perm.Subperm

/-! # Authenticated requests

`RpcClient::request` of `library/src/monerod_client/mod.rs`. All clones of a client share one
`AuthInfo` behind a mutex, and their requests run at once: the mutex is held while a header is
built, not while a request is on the wire. So headers may be built by one request between the two
messages of another, in any order.

* **`counts_never_repeat`** — no two requests on the wire carry the same nonce with the same
  count. -/

namespace AcceptXmr

/-! ## Requests -/

/-- An `AUTHORIZATION` header, with the challenge and the count that it was built from. Only the
value is sent. -/
structure Authorization (HeaderValue : Type) where
  params : AuthParams
  counter : UInt32
  value : HeaderValue

/-- A request, by the `POST` method. -/
structure HttpRequest (HeaderValue : Type) where
  uri : Text
  authorization : Option (Authorization HeaderValue)
  body : Text

/-- A response. -/
structure HttpResponse (HeaderValue : Type) where
  status : ℕ
  /-- The `WWW-AUTHENTICATE` headers. -/
  authenticate : List HeaderValue
  /-- None if the body cannot be read to its end. -/
  body : Option Bytes

/-- What becomes of a request that has been sent. -/
inductive HttpOutcome (HeaderValue : Type) where
  | elapsed
  | failed
  | response (response : HttpResponse HeaderValue)

/-- What other crates do with the texts of a request. -/
structure HttpCrates where
  /-- `Builder::uri`. -/
  parseUri : Text → Option Uri
  /-- `serde_json::from_slice`. -/
  fromSlice : Bytes → Option Value

/-- `StatusCode::UNAUTHORIZED`. -/
def unauthorized : ℕ := 401

/-- `Method::POST`, as it is displayed. -/
def methodPost : Text := "POST".toList

/-- Where a call of `RpcClient::request` is. The URI is the one that was parsed at its start. -/
inductive Exchange (HeaderValue : Type) where
  | start
  /-- The request has been built. -/
  | ready (uri : Uri) (authorization : Option (Authorization HeaderValue))
  | sent (uri : Uri)
  | received (uri : Uri) (response : HttpResponse HeaderValue)
  | returned (result : Except RpcError Value)

/-- A call of `RpcClient::request`. -/
structure RpcCall (HeaderValue : Type) where
  body : Text
  endpoint : Text
  exchange : Exchange HeaderValue

/-- What happens to the authentication info: a challenge is chosen, or a header is built, which may
fail after its count has been used. -/
inductive AuthEvent (HeaderValue : Type) where
  | chosen (params : AuthParams)
  | used (params : AuthParams) (counter : UInt32) (value : Option HeaderValue)

/-- An RPC client: its calls, the requests put on the wire and the events of its authentication
info, both oldest first. -/
structure RpcSession (HeaderValue Rng : Type) where
  url : Text
  authInfo : Option (AuthInfo Rng)
  calls : List (RpcCall HeaderValue)
  wire : List (HttpRequest HeaderValue)
  events : List (AuthEvent HeaderValue)

section Session

variable {HeaderValue Rng : Type} (crates : AuthCrates HeaderValue Rng) (http : HttpCrates)
  (sorting : UnstableSort AuthParams)

/-- The event of a header that is built with the info. Without a challenge that can be used, no count
is. -/
def AuthInfo.used (self : AuthInfo Rng) (value : Option HeaderValue) :
    List (AuthEvent HeaderValue) :=
  match self.lastAuthParams with
  | none => []
  | some params => if params.bestQop.isSome then [.used params self.counter value] else []

/-- A header that was built with the info. -/
def AuthInfo.authorization (self : AuthInfo Rng) (value : HeaderValue) :
    Option (Authorization HeaderValue) :=
  self.lastAuthParams.map fun params => ⟨params, self.counter, value⟩

/-- The challenge of a response that is chosen. -/
def chosenParams (headers : List HeaderValue) : Option AuthParams :=
  match authChoices crates headers with
  | .error _ => none
  | .ok choices => (sorting.sort choices).getLast?

/-- The events of an authentication with a response. -/
def AuthInfo.respEvents (self : AuthInfo Rng) (headers : List HeaderValue)
    (value : Option HeaderValue) : List (AuthEvent HeaderValue) :=
  match chosenParams crates sorting headers with
  | none => []
  | some params => .chosen params :: (self.choose params).used value

/-- The header of an authentication with a response. -/
def AuthInfo.respAuthorization (self : AuthInfo Rng) (headers : List HeaderValue)
    (value : HeaderValue) : Option (Authorization HeaderValue) :=
  (chosenParams crates sorting headers).bind fun params =>
    (self.choose params).authorization value

namespace RpcSession

/-- A new client. -/
def new (url : Text) (authInfo : Option (AuthInfo Rng)) : RpcSession HeaderValue Rng :=
  ⟨url, authInfo, [], [], []⟩

/-- A call starts. -/
def request (body endpoint : Text) (self : RpcSession HeaderValue Rng) :
    RpcSession HeaderValue Rng :=
  { self with calls := self.calls ++ [⟨body, endpoint, .start⟩] }

/-- The call goes on. -/
def goTo (self : RpcSession HeaderValue Rng) (i : ℕ) (call : RpcCall HeaderValue)
    (exchange : Exchange HeaderValue) : RpcSession HeaderValue Rng :=
  { self with calls := self.calls.set i { call with exchange } }

/-- The authentication info has been used. -/
def withAuth (self : RpcSession HeaderValue Rng) (info : AuthInfo Rng)
    (events : List (AuthEvent HeaderValue)) : RpcSession HeaderValue Rng :=
  { self with authInfo := some info, events := self.events ++ events }

/-- The first request of a call is built, with the most recent nonce if there is one. -/
def prepare (i : ℕ) (self : RpcSession HeaderValue Rng) : Option (RpcSession HeaderValue Rng) :=
  match self.calls[i]? with
  | some ⟨body, endpoint, .start⟩ =>
      let goTo := fun (self : RpcSession HeaderValue Rng) => self.goTo i ⟨body, endpoint, .start⟩
      match http.parseUri (self.url ++ endpoint), self.authInfo with
      | none, _ => some (goTo self (.returned (.error .invalidRequest)))
      | some uri, none => some (goTo self (.ready uri none))
      | some uri, some info =>
          match info.authenticate crates uri methodPost with
          | (.ok none, info') =>
              some (goTo (self.withAuth info' (info.used none)) (.ready uri none))
          | (.ok (some value), info') =>
              some (goTo (self.withAuth info' (info.used (some value)))
                (.ready uri (info.authorization value)))
          | (.error _, info') =>
              some (goTo (self.withAuth info' (info.used none)) (.returned (.error .auth)))
  | _ => none

/-- A request is put on the wire. -/
def send (i : ℕ) (self : RpcSession HeaderValue Rng) : Option (RpcSession HeaderValue Rng) :=
  match self.calls[i]? with
  | some ⟨body, endpoint, .ready uri authorization⟩ =>
      some { self.goTo i ⟨body, endpoint, .ready uri authorization⟩ (.sent uri) with
        wire := self.wire ++ [⟨self.url ++ endpoint, authorization, body⟩] }
  | _ => none

/-- A request that has been sent is answered, or not. -/
def receive (i : ℕ) (outcome : HttpOutcome HeaderValue) (self : RpcSession HeaderValue Rng) :
    Option (RpcSession HeaderValue Rng) :=
  match self.calls[i]? with
  | some ⟨body, endpoint, .sent uri⟩ =>
      let goTo := self.goTo i ⟨body, endpoint, .sent uri⟩
      match outcome with
      | .elapsed => some (goTo (.returned (.error .timeout)))
      | .failed => some (goTo (.returned (.error .request)))
      | .response response => some (goTo (.received uri response))
  | _ => none

/-- What is made of a response that asks for nothing. -/
def interpret (response : HttpResponse HeaderValue) : Except RpcError Value :=
  match response.body with
  | none => .error .request
  | some bytes =>
      match http.fromSlice bytes with
      | none => .error .invalidJson
      | some value => .ok value

/-- A response is looked at: a challenge is answered by another request, and everything else is
returned. -/
def answer (i : ℕ) (self : RpcSession HeaderValue Rng) : Option (RpcSession HeaderValue Rng) :=
  match self.calls[i]? with
  | some ⟨body, endpoint, .received uri response⟩ =>
      let goTo := fun (self : RpcSession HeaderValue Rng) =>
        self.goTo i ⟨body, endpoint, .received uri response⟩
      let headers := response.authenticate
      if response.status = unauthorized ∧ headers ≠ [] then
        match self.authInfo with
        -- `AuthError::Unauthorized`: there are no credentials.
        | none => some (goTo self (.returned (.error .auth)))
        | some info =>
            match info.authenticateWithResp crates sorting headers uri methodPost with
            | (.ok value, info') =>
                some (goTo (self.withAuth info' (info.respEvents crates sorting headers (some value)))
                  (.ready uri (info.respAuthorization crates sorting headers value)))
            | (.error _, info') =>
                some (goTo (self.withAuth info' (info.respEvents crates sorting headers none))
                  (.returned (.error .auth)))
      else some (goTo self (.returned (interpret http response)))
  | _ => none

/-- Who takes a turn. -/
inductive Turn (HeaderValue : Type) where
  | request (body endpoint : Text)
  | prepare (i : ℕ)
  | send (i : ℕ)
  | receive (i : ℕ) (outcome : HttpOutcome HeaderValue)
  | answer (i : ℕ)

/-- A turn, none where it is not possible. -/
def turn (self : RpcSession HeaderValue Rng) : Turn HeaderValue → Option (RpcSession HeaderValue Rng)
  | .request body endpoint => some (self.request body endpoint)
  | .prepare i => self.prepare crates http i
  | .send i => self.send i
  | .receive i outcome => self.receive i outcome
  | .answer i => self.answer crates http sorting i

/-- A step of a run. -/
abbrev Step : RpcSession HeaderValue Rng → RpcSession HeaderValue Rng → Prop :=
  TakesTurn (turn crates http sorting) fun _ _ => True

end RpcSession

/-! ## The events of an authentication info -/

variable {crates http sorting} {info info' : AuthInfo Rng}
  {events : List (AuthEvent HeaderValue)}

/-- Events as they follow each other: the counts of a challenge are 1, 2, 3 and so on, as far as 32
bits go. The second argument is the challenge in use and how often it has been used. -/
inductive Consistent : List (AuthEvent HeaderValue) → Option (AuthParams × ℕ) → Prop where
  | nil : Consistent [] none
  | chosen {events current} (params : AuthParams) (h : Consistent events current) :
      Consistent (events ++ [.chosen params]) (some (params, 0))
  | used {events params n} (value : Option HeaderValue) (h : Consistent events (some (params, n))) :
      Consistent (events ++ [.used params (UInt32.ofNat (n + 1)) value]) (some (params, n + 1))

/-- The info is the one that the events lead to. -/
def AuthInfo.After (self : AuthInfo Rng) (events : List (AuthEvent HeaderValue)) : Prop :=
  ∃ current, Consistent events current ∧ current.map Prod.fst = self.lastAuthParams ∧
    ∀ params n, current = some (params, n) → self.counter = UInt32.ofNat (n + 1)

/-- A new client has not chosen any challenge. -/
theorem AuthInfo.after_new (username password : Text) (rng : Rng) :
    (AuthInfo.new username password rng).After ([] : List (AuthEvent HeaderValue)) :=
  ⟨none, .nil, rfl, fun _ _ h => by cases h⟩

/-- Choosing a challenge begins its count anew. -/
theorem AuthInfo.After.choose (h : info.After events) (params : AuthParams) :
    (info.choose params).After (events ++ [.chosen params]) := by
  obtain ⟨current, hc, -, -⟩ := h
  refine ⟨_, hc.chosen params, rfl, fun params' n heq => ?_⟩
  cases heq
  rfl

/-- **What `authenticate` does to the info**: nothing but to its generator, or it uses a count. -/
theorem authenticate_cases (crates : AuthCrates HeaderValue Rng) (info : AuthInfo Rng) (uri : Uri)
    (method : Text) :
    ((∀ value, info.used value = ([] : List (AuthEvent HeaderValue))) ∧
        (info.authenticate crates uri method).2.lastAuthParams = info.lastAuthParams ∧
        (info.authenticate crates uri method).2.counter = info.counter ∧
        ∀ value, (info.authenticate crates uri method).1 ≠ .ok (some value)) ∨
      ∃ params, info.lastAuthParams = some params ∧
        (∀ value : Option HeaderValue, info.used value = [.used params info.counter value]) ∧
        (info.authenticate crates uri method).2.lastAuthParams = some params ∧
        (info.authenticate crates uri method).2.counter = info.counter + 1 := by
  cases hlast : info.lastAuthParams with
  | none =>
      refine .inl ⟨fun value => by rw [AuthInfo.used, hlast], ?_⟩
      simp only [AuthInfo.authenticate, hlast]
      exact ⟨trivial, trivial, fun value hv => by cases hv⟩
  | some params =>
      cases hqop : params.bestQop with
      | none =>
          refine .inl ⟨fun value => by simp [AuthInfo.used, hlast, hqop], ?_⟩
          simp only [AuthInfo.authenticate, hlast, hqop]
          exact ⟨trivial, trivial, fun value hv => by cases hv⟩
      | some qop =>
          refine .inr ⟨params, rfl, fun value => by simp [AuthInfo.used, hlast, hqop], ?_⟩
          simp only [AuthInfo.authenticate, hlast, hqop]
          split <;> exact ⟨rfl, rfl⟩

/-- A header that is built is one event later. -/
theorem AuthInfo.After.authenticate (h : info.After events)
    (crates : AuthCrates HeaderValue Rng) (uri : Uri) (method : Text) (value : Option HeaderValue) :
    (info.authenticate crates uri method).2.After (events ++ info.used value) := by
  obtain ⟨current, hc, hlast, hcounter⟩ := h
  rcases authenticate_cases crates info uri method with
    ⟨hused, hlast', hcounter', -⟩ | ⟨params, hparams, hused, hlast', hcounter'⟩
  · rw [hused, List.append_nil]
    exact ⟨current, hc, hlast.trans hlast'.symm, fun params n heq =>
      hcounter'.trans (hcounter params n heq)⟩
  · rw [hused]
    rw [hparams] at hlast
    obtain ⟨⟨params', n⟩, rfl, rfl⟩ := Option.map_eq_some_iff.mp hlast
    rw [hcounter _ n rfl]
    refine ⟨_, hc.used value, hlast'.symm, fun params'' n' heq => ?_⟩
    cases heq
    rw [hcounter', hcounter _ n rfl]
    exact (UInt32.ofNat_add (n + 1) 1).symm

/-- **What `authenticate_with_resp` does**: it chooses a challenge and authenticates with it, unless
there is none to choose. -/
theorem authenticateWithResp_eq (crates : AuthCrates HeaderValue Rng)
    (sorting : UnstableSort AuthParams) (info : AuthInfo Rng) (headers : List HeaderValue)
    (uri : Uri) (method : Text) :
    (chosenParams crates sorting headers = none ∧
        (info.authenticateWithResp crates sorting headers uri method).2 = info ∧
        ∃ e, (info.authenticateWithResp crates sorting headers uri method).1 = .error e) ∨
      ∃ params, chosenParams crates sorting headers = some params ∧
        (info.authenticateWithResp crates sorting headers uri method).2 =
          ((info.choose params).authenticate crates uri method).2 ∧
        ∀ value, (info.authenticateWithResp crates sorting headers uri method).1 = .ok value ↔
          ((info.choose params).authenticate crates uri method).1 = .ok (some value) := by
  rw [AuthInfo.authenticateWithResp, chosenParams]
  cases authChoices crates headers with
  | error e => exact .inl ⟨rfl, rfl, e, rfl⟩
  | ok choices =>
      cases hlast : (sorting.sort choices).getLast? with
      | none =>
          simp only [hlast]
          exact .inl ⟨trivial, trivial, _, rfl⟩
      | some params =>
          refine .inr ⟨params, hlast, ?_⟩
          simp only [hlast]
          rcases (info.choose params).authenticate crates uri method with ⟨_ | _ | value, info'⟩
          · exact ⟨rfl, fun value => by simp⟩
          · exact ⟨rfl, fun value => by simp⟩
          · exact ⟨rfl, fun value' => by simp⟩

/-- A challenge that is answered is two events later. -/
theorem AuthInfo.After.withResp (h : info.After events) (crates : AuthCrates HeaderValue Rng)
    (sorting : UnstableSort AuthParams) (headers : List HeaderValue) (uri : Uri) (method : Text)
    (value : Option HeaderValue) :
    (info.authenticateWithResp crates sorting headers uri method).2.After
      (events ++ info.respEvents crates sorting headers value) := by
  rcases authenticateWithResp_eq crates sorting info headers uri method with
    ⟨hnone, hinfo, -⟩ | ⟨params, hsome, hinfo, -⟩
  · rw [hinfo, AuthInfo.respEvents, hnone, List.append_nil]
    exact h
  · rw [hinfo, AuthInfo.respEvents, hsome]
    simpa using (h.choose params).authenticate crates uri method value

/-! ## The headers of a client -/

/-- The header that an event has built. -/
def AuthEvent.built : AuthEvent HeaderValue → Option (Authorization HeaderValue)
  | .used params counter (some value) => some ⟨params, counter, value⟩
  | _ => none

/-- The header is the one of some client, for its challenge and its count. -/
def Authorization.Made (crates : AuthCrates HeaderValue Rng)
    (self : Authorization HeaderValue) : Prop :=
  ∃ (info : AuthInfo Rng) (qop : Qop) (cnonce : Text) (uri : Uri), info.counter = self.counter ∧
    crates.fromStr (info.authHeader crates self.params qop cnonce uri methodPost) = some self.value

/-- The header that a call is about to send. -/
def RpcCall.held (self : RpcCall HeaderValue) : Option (Authorization HeaderValue) :=
  match self.exchange with
  | .ready _ authorization => authorization
  | _ => none

namespace RpcSession

variable {s s' : RpcSession HeaderValue Rng}

/-- The headers that are about to be sent, and those that have been. -/
def headers (self : RpcSession HeaderValue Rng) : List (Authorization HeaderValue) :=
  self.calls.filterMap RpcCall.held ++ self.wire.filterMap HttpRequest.authorization

/-- **What a client keeps**: the info follows its events, and every header comes from an event of
its own. -/
structure Sound (crates : AuthCrates HeaderValue Rng) (s : RpcSession HeaderValue Rng) : Prop where
  follows : ∀ info, s.authInfo = some info → info.After s.events
  built : s.headers.Subperm (s.events.filterMap AuthEvent.built)
  made : ∀ a ∈ s.events.filterMap AuthEvent.built, a.Made crates
  plain : s.authInfo = none → s.events = []

/-- One call goes on: what it held is replaced by what it holds. -/
theorem headers_goTo {i : ℕ} {call : RpcCall HeaderValue} (hcall : s.calls[i]? = some call)
    (exchange : Exchange HeaderValue) :
    ∃ others, s.headers.Perm (call.held.toList ++ others) ∧
      (s.goTo i call exchange).headers.Perm
        ((RpcCall.held { call with exchange }).toList ++ others) := by
  obtain ⟨hsplit, hlength⟩ := split_of_getElem? hcall
  have hset : s.calls.set i { call with exchange } =
      s.calls.take i ++ { call with exchange } :: s.calls.drop (i + 1) := by
    rw [List.set_eq_take_append_cons_drop, if_pos (List.getElem?_eq_some_iff.mp hcall).1]
  have hmove : ∀ (a : Option (Authorization HeaderValue)) (l m r : List (Authorization HeaderValue)),
      (l ++ (a.toList ++ m) ++ r).Perm (a.toList ++ (l ++ m ++ r)) := by
    intro a l m r
    cases a with
    | none => exact .refl _
    | some a => simp [List.perm_middle]
  refine ⟨(s.calls.take i).filterMap RpcCall.held ++ (s.calls.drop (i + 1)).filterMap RpcCall.held ++
    s.wire.filterMap HttpRequest.authorization, ?_, ?_⟩
  · have hheld : s.calls.filterMap RpcCall.held = (s.calls.take i).filterMap RpcCall.held ++
        (call.held.toList ++ (s.calls.drop (i + 1)).filterMap RpcCall.held) := by
      conv_lhs => rw [hsplit]
      cases hc : call.held <;> simp [hc]
    rw [headers, hheld]
    exact hmove _ _ _ _
  · rw [headers, goTo, hset, List.filterMap_append]
    have hheld : ({ call with exchange } :: s.calls.drop (i + 1)).filterMap RpcCall.held =
        (RpcCall.held { call with exchange }).toList ++
          (s.calls.drop (i + 1)).filterMap RpcCall.held := by
      cases hc : RpcCall.held { call with exchange } <;> simp [hc]
    rw [hheld]
    exact hmove _ _ _ _

/-- A call that goes on holds at most what has just been built for it. -/
theorem Sound.next (h : s.Sound crates) {i : ℕ} {call : RpcCall HeaderValue}
    (hcall : s.calls[i]? = some call) {exchange : Exchange HeaderValue}
    {new : List (AuthEvent HeaderValue)}
    (hheaders : s'.headers = (s.goTo i call exchange).headers)
    (hevents : s'.events = s.events ++ new)
    (hheld : (RpcCall.held { call with exchange }).toList.Subperm (new.filterMap AuthEvent.built))
    (hmade : ∀ a ∈ new.filterMap AuthEvent.built, a.Made crates)
    (hfollows : ∀ info, s'.authInfo = some info → info.After s'.events)
    (hplain : s'.authInfo = none → s'.events = []) : s'.Sound crates := by
  refine ⟨hfollows, ?_, fun a ha => ?_, hplain⟩
  swap
  · rw [hevents, List.filterMap_append] at ha
    exact (List.mem_append.mp ha).elim (h.made a) (hmade a)
  obtain ⟨others, hold, hnew⟩ := headers_goTo hcall exchange
  have hothers : others.Subperm (s.events.filterMap AuthEvent.built) :=
    ((List.sublist_append_right _ _).subperm.trans hold.symm.subperm).trans h.built
  rw [hheaders, hevents, List.filterMap_append]
  exact (hnew.trans List.perm_append_comm).subperm.trans (hothers.append hheld)

/-- A call that goes on without the authentication info. -/
theorem Sound.goTo (h : s.Sound crates) {i : ℕ} {call : RpcCall HeaderValue}
    (hcall : s.calls[i]? = some call) {exchange : Exchange HeaderValue}
    (hheld : RpcCall.held { call with exchange } = none) : (s.goTo i call exchange).Sound crates :=
  h.next hcall rfl (List.append_nil _).symm (by simp [hheld]) (fun a ha => by cases ha) h.follows
    h.plain

/-- The header that is built comes from the event of its building. -/
theorem authorization_subperm {info : AuthInfo Rng} {value : HeaderValue} {uri : Uri}
    {method : Text} (hvalue : (info.authenticate crates uri method).1 = .ok (some value)) :
    (info.authorization value).toList.Subperm
      ((info.used (some value)).filterMap AuthEvent.built) := by
  rcases authenticate_cases crates info uri method with ⟨-, -, -, hno⟩ | ⟨params, hparams, hused, -⟩
  · exact absurd hvalue (hno value)
  · rw [hused, AuthInfo.authorization, hparams]
    exact .refl _

/-- A header that is built is made for its challenge and its count. -/
theorem used_made {info : AuthInfo Rng} {value : HeaderValue} {uri : Uri}
    (hvalue : (info.authenticate crates uri methodPost).1 = .ok (some value)) :
    ∀ a ∈ (info.used (some value)).filterMap AuthEvent.built, a.Made crates := by
  intro a ha
  cases hlast : info.lastAuthParams with
  | none => simp [AuthInfo.used, hlast] at ha
  | some params =>
      cases hqop : params.bestQop with
      | none => simp [AuthInfo.used, hlast, hqop] at ha
      | some qop =>
          obtain rfl : a = ⟨params, info.counter, value⟩ := by
            simpa [AuthInfo.used, hlast, hqop, AuthEvent.built] using ha
          simp only [AuthInfo.authenticate, hlast, hqop] at hvalue
          split at hvalue
          · rename_i value' hfrom
            cases hvalue
            exact ⟨info, qop, _, uri, rfl, hfrom⟩
          · cases hvalue

/-- Nothing is made of a header that cannot be built. -/
theorem used_none (info : AuthInfo Rng) :
    (info.used none).filterMap (AuthEvent.built : AuthEvent HeaderValue → _) = [] := by
  rw [AuthInfo.used]
  split
  · rfl
  · split <;> rfl

/-- A header that answers a challenge is made for it, with the first count. -/
theorem respEvents_made {info : AuthInfo Rng} {value : HeaderValue} {uri : Uri}
    {headers : List HeaderValue}
    (hvalue : (info.authenticateWithResp crates sorting headers uri methodPost).1 = .ok value) :
    ∀ a ∈ (info.respEvents crates sorting headers (some value)).filterMap AuthEvent.built,
      a.Made crates := by
  rcases authenticateWithResp_eq crates sorting info headers uri methodPost with
    ⟨-, -, e, herror⟩ | ⟨params, hsome, -, hiff⟩
  · cases hvalue.symm.trans herror
  · rw [AuthInfo.respEvents, hsome]
    exact used_made ((hiff value).mp hvalue)

/-- Nothing is made of a challenge that cannot be answered. -/
theorem respEvents_none (info : AuthInfo Rng) (headers : List HeaderValue) :
    (info.respEvents crates sorting headers none).filterMap AuthEvent.built = [] := by
  rw [AuthInfo.respEvents]
  split
  · rfl
  · exact used_none _

/-- The header that answers a challenge comes from the event of its building. -/
theorem respAuthorization_subperm {info : AuthInfo Rng} {value : HeaderValue} {uri : Uri}
    {method : Text} {headers : List HeaderValue}
    (hvalue : (info.authenticateWithResp crates sorting headers uri method).1 = .ok value) :
    (info.respAuthorization crates sorting headers value).toList.Subperm
      ((info.respEvents crates sorting headers (some value)).filterMap AuthEvent.built) := by
  rcases authenticateWithResp_eq crates sorting info headers uri method with
    ⟨-, -, e, herror⟩ | ⟨params, hsome, -, hiff⟩
  · cases hvalue.symm.trans herror
  · rw [AuthInfo.respAuthorization, AuthInfo.respEvents, hsome]
    exact authorization_subperm ((hiff value).mp hvalue)

/-- A call that goes on with the authentication info. -/
theorem Sound.withAuth (h : s.Sound crates) {i : ℕ} {call : RpcCall HeaderValue}
    (hcall : s.calls[i]? = some call) {exchange : Exchange HeaderValue} {info : AuthInfo Rng}
    {new : List (AuthEvent HeaderValue)} (hafter : info.After (s.events ++ new))
    (hheld : (RpcCall.held { call with exchange }).toList.Subperm
      (new.filterMap AuthEvent.built))
    (hmade : ∀ a ∈ new.filterMap AuthEvent.built, a.Made crates) :
    ((s.withAuth info new).goTo i call exchange).Sound crates := by
  refine h.next hcall rfl rfl hheld hmade (fun info' heq => ?_) (fun hnone => by cases hnone)
  cases heq
  exact hafter

/-- Preparing a request keeps the session sound. -/
theorem Sound.prepare (h : s.Sound crates) {i : ℕ} (hs : s.prepare crates http i = some s') :
    s'.Sound crates := by
  unfold RpcSession.prepare at hs
  split at hs
  · rename_i body endpoint hcall
    dsimp only at hs
    split at hs
    · cases hs
      exact h.goTo hcall rfl
    · cases hs
      exact h.goTo hcall rfl
    · rename_i uri info _ hinfo
      have hafter := (h.follows info hinfo).authenticate crates uri methodPost
      split at hs
      · rename_i info' hauth
        cases hs
        exact h.withAuth hcall (by simpa only [hauth] using hafter none) List.nil_subperm
          (by simp [used_none])
      · rename_i value info' hauth
        cases hs
        exact h.withAuth hcall (by simpa only [hauth] using hafter (some value))
          (authorization_subperm (by rw [hauth])) (used_made (by rw [hauth]))
      · rename_i e info' hauth
        cases hs
        exact h.withAuth hcall (by simpa only [hauth] using hafter none) List.nil_subperm
          (by simp [used_none])
  · cases hs

/-- A header that is sent is held no longer. -/
theorem Sound.send (h : s.Sound crates) {i : ℕ} (hs : s.send i = some s') : s'.Sound crates := by
  unfold RpcSession.send at hs
  split at hs
  · rename_i body endpoint uri authorization hcall
    cases hs
    refine ⟨h.follows, ?_, h.made, h.plain⟩
    obtain ⟨others, hold, hnew⟩ := headers_goTo hcall (.sent uri)
    refine List.Perm.subperm ?_ |>.trans h.built
    have hmoved : ({ s.goTo i ⟨body, endpoint, .ready uri authorization⟩ (.sent uri) with
        wire := s.wire ++ [⟨s.url ++ endpoint, authorization, body⟩] } :
          RpcSession HeaderValue Rng).headers =
        (s.goTo i ⟨body, endpoint, .ready uri authorization⟩ (.sent uri)).headers ++
          authorization.toList := by
      cases authorization <;> simp [headers, RpcSession.goTo]
    rw [hmoved]
    exact (hnew.append_right _).trans (List.perm_append_comm.trans hold.symm)
  · cases hs

/-- What comes of a request keeps it sound. -/
theorem Sound.receive (h : s.Sound crates) {i : ℕ} {outcome : HttpOutcome HeaderValue}
    (hs : s.receive i outcome = some s') : s'.Sound crates := by
  unfold RpcSession.receive at hs
  split at hs
  · rename_i body endpoint uri hcall
    cases outcome with
    | elapsed =>
        cases hs
        exact h.goTo hcall rfl
    | failed =>
        cases hs
        exact h.goTo hcall rfl
    | response response =>
        cases hs
        exact h.goTo hcall rfl
  · cases hs

/-- So does the answer to it, which may be a challenge. -/
theorem Sound.answer (h : s.Sound crates) {i : ℕ} (hs : s.answer crates http sorting i = some s') :
    s'.Sound crates := by
  unfold RpcSession.answer at hs
  split at hs
  · rename_i body endpoint uri response hcall
    dsimp only at hs
    split at hs
    · split at hs
      · cases hs
        exact h.goTo hcall rfl
      · rename_i info hinfo
        have hafter := (h.follows info hinfo).withResp crates sorting response.authenticate uri
          methodPost
        split at hs
        · rename_i value info' hauth
          cases hs
          exact h.withAuth hcall (by simpa only [hauth] using hafter (some value))
            (respAuthorization_subperm (by rw [hauth])) (respEvents_made (by rw [hauth]))
        · rename_i e info' hauth
          cases hs
          exact h.withAuth hcall (by simpa only [hauth] using hafter none) List.nil_subperm
            (by simp [respEvents_none])
    · cases hs
      exact h.goTo hcall rfl
  · cases hs

/-- **What every turn keeps.** -/
theorem Sound.turn (h : s.Sound crates) {t : Turn HeaderValue}
    (hs : s.turn crates http sorting t = some s') : s'.Sound crates := by
  cases t with
  | request body endpoint =>
      cases hs
      refine ⟨h.follows, ?_, h.made, h.plain⟩
      have hsame : (s.request body endpoint).headers = s.headers := by
        simp [headers, RpcSession.request, RpcCall.held]
      rw [hsame]
      exact h.built
  | prepare i => exact h.prepare hs
  | send i => exact h.send hs
  | receive i outcome => exact h.receive hs
  | answer i => exact h.answer hs

/-- A new client, with or without credentials. -/
theorem Sound.new (url : Text) {authInfo : Option (AuthInfo Rng)}
    (hauth : ∀ info, authInfo = some info →
      ∃ username password rng, info = .new username password rng) :
    (new url authInfo : RpcSession HeaderValue Rng).Sound crates where
  follows info hinfo := by
    obtain ⟨username, password, rng, rfl⟩ := hauth info hinfo
    exact AuthInfo.after_new username password rng
  built := List.nil_subperm
  made a ha := by cases ha
  plain _ := rfl

end RpcSession

/-! ## Counts that do not repeat -/

/-- The nonces of the challenges that were chosen. -/
def chosenNonces (events : List (AuthEvent HeaderValue)) : List Text :=
  events.filterMap fun
    | .chosen params => some params.nonce
    | .used .. => none

/-- The nonces and the counts that were used. -/
def usedCounts (events : List (AuthEvent HeaderValue)) : List (Text × UInt32) :=
  events.filterMap fun
    | .chosen _ => none
    | .used params counter _ => some (params.nonce, counter)

/-- How often the challenge in use has been used. -/
def usesOfLast (events : List (AuthEvent HeaderValue)) : ℕ :=
  (events.reverse.takeWhile fun
    | .chosen _ => false
    | .used .. => true).length

/-- The number of values of a count. -/
def countSize : ℕ := 4294967296

/-- No challenge has been used more often than there are counts. -/
def InRange (events : List (AuthEvent HeaderValue)) : Prop :=
  ∀ start, start <+: events → usesOfLast start ≤ countSize

/-- A challenge is not used more often than anything happens. -/
theorem inRange_of_length (h : events.length ≤ countSize) : InRange events := by
  intro start hstart
  refine (List.IsPrefix.length_le (List.takeWhile_prefix _)).trans ?_
  rw [List.length_reverse]
  exact hstart.length_le.trans h

/-- The count is the number of uses of the last challenge. -/
theorem Consistent.usesOfLast {params : AuthParams} {n : ℕ}
    (h : Consistent events (some (params, n))) : usesOfLast events = n := by
  generalize hcurrent : some (params, n) = current at h
  induction h generalizing params n with
  | nil => cases hcurrent
  | chosen params' h ih =>
      cases hcurrent
      simp [AcceptXmr.usesOfLast]
  | used value h ih =>
      cases hcurrent
      have hrest := ih rfl
      simp only [AcceptXmr.usesOfLast, List.reverse_append, List.reverse_cons, List.reverse_nil,
        List.nil_append, List.singleton_append, List.takeWhile_cons, if_true,
        List.length_cons] at hrest ⊢
      rw [hrest]

/-- Counts below the limit are different as 32-bit numbers. -/
theorem ofNat_count_ne {k n : ℕ} (hk : k < n) (hn : n + 1 ≤ countSize) :
    UInt32.ofNat (n + 1) ≠ UInt32.ofNat (k + 1) := by
  intro heq
  have htoNat := congrArg UInt32.toNat heq
  simp only [UInt32.toNat_ofNat', countSize] at htoNat hn
  omega

/-- **The counts of a nonce are those up to the last one**, each used once. -/
theorem Consistent.counts {current : Option (AuthParams × ℕ)} (h : Consistent events current)
    (hnonces : (chosenNonces events).Nodup) (hrange : InRange events) :
    (usedCounts events).Nodup ∧ (∀ x ∈ usedCounts events, x.1 ∈ chosenNonces events) ∧
      ∀ params n, current = some (params, n) → params.nonce ∈ chosenNonces events ∧
        ∀ counter, (params.nonce, counter) ∈ usedCounts events →
          ∃ k < n, counter = UInt32.ofNat (k + 1) := by
  induction h with
  | nil =>
      refine ⟨List.nodup_nil, fun x hx => ?_, fun params n heq => ?_⟩
      · cases hx
      · cases heq
  | @chosen events current params h ih =>
      have hrange' : InRange events := fun start hstart =>
        hrange start (hstart.trans (List.prefix_append _ _))
      simp only [chosenNonces, usedCounts, List.filterMap_append, List.filterMap_cons,
        List.filterMap_nil, List.append_nil] at hnonces ih ⊢
      obtain ⟨hnodup, hmem, -⟩ := ih (List.nodup_append.mp hnonces).1 hrange'
      refine ⟨hnodup, fun x hx => List.mem_append_left _ (hmem x hx), fun params' n heq => ?_⟩
      cases heq
      refine ⟨List.mem_append_right _ (List.mem_singleton_self _), fun counter hcounter => ?_⟩
      exact absurd rfl ((List.nodup_append.mp hnonces).2.2 _ (hmem _ hcounter) _
        (List.mem_singleton_self _))
  | @used events params n value h ih =>
      have hrange' : InRange events := fun start hstart =>
        hrange start (hstart.trans (List.prefix_append _ _))
      have hn : n + 1 ≤ countSize := by
        have := hrange _ (List.prefix_refl _)
        rwa [(h.used value).usesOfLast] at this
      simp only [chosenNonces, usedCounts, List.filterMap_append, List.filterMap_cons,
        List.filterMap_nil, List.append_nil] at hnonces ih ⊢
      obtain ⟨hnodup, hmem, hcurrent⟩ := ih hnonces hrange'
      obtain ⟨hparams, hcounts⟩ := hcurrent params n rfl
      refine ⟨List.nodup_append.mpr ⟨hnodup, List.nodup_singleton _, fun x hx y hy => ?_⟩,
        fun x hx => ?_, fun params' n' heq => ?_⟩
      · -- The new count is none of those before it.
        rw [List.mem_singleton.mp hy]
        rintro rfl
        obtain ⟨k, hk, hcounter⟩ := hcounts _ hx
        exact ofNat_count_ne hk hn hcounter
      · rcases List.mem_append.mp hx with hx | hx
        · exact hmem x hx
        · rw [List.mem_singleton.mp hx]
          exact hparams
      · cases heq
        refine ⟨hparams, fun counter hcounter => ?_⟩
        rcases List.mem_append.mp hcounter with hcounter | hcounter
        · obtain ⟨k, hk, heq⟩ := hcounts counter hcounter
          exact ⟨k, Nat.lt_succ_of_lt hk, heq⟩
        · cases List.mem_singleton.mp hcounter
          exact ⟨n, Nat.lt_succ_self n, rfl⟩

/-! ## The count as it is written -/

/-- Different values have different hexadecimal digits. -/
theorem digitChar_inj {a b : ℕ} (ha : a < 16) (hb : b < 16)
    (h : Nat.digitChar a = Nat.digitChar b) : a = b := by
  have hall : ∀ a b : Fin 16, Nat.digitChar a = Nat.digitChar b → a = b := by decide
  exact congrArg Fin.val (hall ⟨a, ha⟩ ⟨b, hb⟩ h)

/-- Counts that are written alike are the same. -/
theorem lowerHex8_inj {a b : UInt32} (h : lowerHex8 a = lowerHex8 b) : a = b := by
  have hdigits : ∀ i < 8, a.toNat >>> (4 * i) % 16 = b.toNat >>> (4 * i) % 16 := by
    intro i hi
    have hmem : i ∈ (List.range 8).reverse := by simpa using hi
    exact digitChar_inj (Nat.mod_lt _ (by decide)) (Nat.mod_lt _ (by decide))
      (List.map_inj_left.mp h i hmem)
  have ha := a.toNat_lt
  have hb := b.toNat_lt
  have h0 := hdigits 0 (by decide)
  have h1 := hdigits 1 (by decide)
  have h2 := hdigits 2 (by decide)
  have h3 := hdigits 3 (by decide)
  have h4 := hdigits 4 (by decide)
  have h5 := hdigits 5 (by decide)
  have h6 := hdigits 6 (by decide)
  have h7 := hdigits 7 (by decide)
  simp only [Nat.shiftRight_eq_div_pow] at h0 h1 h2 h3 h4 h5 h6 h7
  apply UInt32.toNat_inj.mp
  omega

namespace RpcSession

/-- **What every run keeps.** -/
theorem Sound.run {s s' : RpcSession HeaderValue Rng} (h : s.Sound crates)
    (hrun : Relation.ReflTransGen (Step crates http sorting) s s') : s'.Sound crates :=
  TakesTurn.invariant (Sound crates) (fun _ _ _ h _ ht => h.turn ht) hrun h

/-- **No count is sent twice.** Whatever requests a client makes at once, and whatever the daemon
answers: if the challenges that were chosen have different nonces and none of them was used more
often than there are counts, then no two requests on the wire carry the same nonce with the same
count, and each of them is made for a challenge of the daemon's. -/
theorem counts_never_repeat (url : Text) {authInfo : Option (AuthInfo Rng)}
    (hauth : ∀ info, authInfo = some info →
      ∃ username password rng, info = .new username password rng)
    {s : RpcSession HeaderValue Rng}
    (hrun : Relation.ReflTransGen (Step crates http sorting) (new url authInfo) s)
    (hnonces : (chosenNonces s.events).Nodup) (hrange : InRange s.events) :
    ((s.wire.filterMap HttpRequest.authorization).map fun a =>
        (a.params.nonce, lowerHex8 a.counter)).Nodup ∧
      ∀ a ∈ s.wire.filterMap HttpRequest.authorization,
        a.Made crates ∧ a.params.nonce ∈ chosenNonces s.events := by
  have hs : s.Sound crates := (Sound.new url hauth).run hrun
  have hwire : (s.wire.filterMap HttpRequest.authorization).Subperm
      (s.events.filterMap AuthEvent.built) :=
    (List.sublist_append_right _ _).subperm.trans hs.built
  have hcounts : (usedCounts s.events).Nodup ∧
      ∀ x ∈ usedCounts s.events, x.1 ∈ chosenNonces s.events := by
    cases hinfo : s.authInfo with
    | none => simp [hs.plain hinfo, usedCounts]
    | some info =>
        obtain ⟨current, hc, -⟩ := hs.follows info hinfo
        obtain ⟨hnodup, hmem, -⟩ := hc.counts hnonces hrange
        exact ⟨hnodup, hmem⟩
  -- A header that was built is a count that was used.
  have hbuilt : ((s.events.filterMap AuthEvent.built).map fun a =>
      (a.params.nonce, a.counter)).Sublist (usedCounts s.events) := by
    rw [List.map_filterMap, usedCounts]
    generalize s.events = events
    induction events with
    | nil => exact .slnil
    | cons event events ih =>
        cases event with
        | chosen params => exact ih
        | used params counter value =>
            cases value with
            | none => exact ih.cons _
            | some value => exact ih.cons_cons _
  obtain ⟨l, hperm, hsub⟩ := hwire
  refine ⟨?_, fun a ha => ?_⟩
  · have hnodup : (l.map fun a => (a.params.nonce, a.counter)).Nodup :=
      ((hsub.map _).trans hbuilt).nodup hcounts.1
    have hpairs := ((hperm.map fun a => (a.params.nonce, a.counter)).nodup_iff).mp hnodup
    have hwritten := hpairs.map (f := fun x : Text × UInt32 => (x.1, lowerHex8 x.2)) (by
      rintro ⟨nonce, a⟩ ⟨nonce', b⟩ heq
      obtain ⟨rfl, heq⟩ := Prod.mk.inj heq
      exact congrArg (Prod.mk nonce) (lowerHex8_inj heq))
    rwa [List.map_map] at hwritten
  · have hmem := hsub.subset (hperm.symm.subset ha)
    exact ⟨hs.made a hmem, hcounts.2 _ (hbuilt.subset (List.mem_map_of_mem hmem))⟩

end RpcSession

end Session

namespace RpcSession

/-- Crates for which every text is a URI, and every body is null. -/
def anyCrates : HttpCrates where
  parseUri text := some ⟨text, some text⟩
  fromSlice _ := some .null

/-- Two requests, where the first is challenged once. -/
def challengedOnce : List (Turn Text) :=
  [.request [] [], .request [] [], .prepare 0, .send 0,
    .receive 0 (.response ⟨unauthorized, ["Digest nonce=\"a\"".toList], none⟩), .answer 0,
    .prepare 1, .send 1, .send 0]

/-- What they put on the wire. -/
def challenged : RpcSession Text Unit :=
  (replay (turn textCrates anyCrates (.insertion AuthParams)) (fun _ _ => true) challengedOnce
    (new [] (some (.new "user".toList "password".toList ())))).getD (new [] none)

/-- Two requests under one challenge have two counts. -/
theorem counts_never_repeat_challenged :
    (challenged.wire.filterMap HttpRequest.authorization).map (fun a =>
        (a.params.nonce, lowerHex8 a.counter)) =
      [("a".toList, "00000002".toList), ("a".toList, "00000001".toList)] ∧
    ((challenged.wire.filterMap HttpRequest.authorization).map fun a =>
        (a.params.nonce, lowerHex8 a.counter)).Nodup := by
  have hreplay : replay (turn textCrates anyCrates (.insertion AuthParams)) (fun _ _ => true)
      challengedOnce (new [] (some (.new "user".toList "password".toList ()))) =
        some challenged := by rfl
  have hrun : Relation.ReflTransGen (Step textCrates anyCrates (.insertion AuthParams))
      (new [] (some (.new "user".toList "password".toList ()))) challenged :=
    replay_run (fun _ _ _ => trivial) hreplay
  refine ⟨by decide, (counts_never_repeat [] (fun info hinfo => ?_) hrun ?_ ?_).1⟩
  · exact ⟨_, _, _, (Option.some.inj hinfo).symm⟩
  · have hnonces : chosenNonces challenged.events = ["a".toList] := by rfl
    rw [hnonces]
    exact List.nodup_singleton _
  · have hlength : challenged.events.length = 3 := by rfl
    exact inRange_of_length (hlength ▸ by decide)

end RpcSession

end AcceptXmr
