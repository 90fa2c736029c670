import AcceptXmr.Gateway.Terms
import AcceptXmr.Library.Linearization
import AcceptXmr.Server.Api

/-! # The server at work

The handlers of the HTTP API answer any number of requests at the same time, the watch loop removes
expired invoices, and the scanner scans: between two steps of one there are steps of the others. What
all this is for is a ledger of what has been promised to customers, and `Does` says what each request
does to the ledger in one moment.

* **`Serves.advance`** — a step of a call decides an answer exactly when it does to the ledger what goes
  with it.
* **`Reads.does`** — a read answers what the ledger says. -/

namespace AcceptXmr

open Linearization

/-- The requests for which the two APIs have a route to a handler. -/
inductive ApiRequest where
  | newInvoice (payload : NewInvoiceParams)
  | deleteInvoice (id : Base64InvoiceId)
  | invoiceIds
  | getInvoiceStatus (id : Base64InvoiceId)
  | pay (id : Base64InvoiceId)
  deriving DecidableEq

/-- The id in the query of a request. -/
def ApiRequest.query : ApiRequest → Option Base64InvoiceId
  | .deleteInvoice id | .getInvoiceStatus id | .pay id => some id
  | .newInvoice _ | .invoiceIds => none

/-- What the two servers are set up with. -/
structure ApiSetup where
  crates : ApiCrates
  internalToken : Option String
  externalToken : Option String

/-- The token of the server that a request is sent to. -/
def ApiSetup.token (setup : ApiSetup) : ApiRequest → Option String
  | .newInvoice _ | .deleteInvoice _ | .invoiceIds => setup.internalToken
  | .getInvoiceStatus _ | .pay _ => setup.externalToken

/-- What is asked of the server, and by whom. -/
inductive Asked where
  | http (authorization : Option String) (request : ApiRequest)
  /-- The watch loop stops tracking an invoice. -/
  | watch (id : InvoiceId)
  deriving DecidableEq

/-- What comes back. -/
inductive Answer where
  | response (response : ApiResponse)
  /-- The handler has panicked, and with it the task of the connection. -/
  | closed
  /-- The watch loop gets the result of its call. -/
  | removed (result : Except AcceptXmrError (Option Invoice))
  deriving DecidableEq

/-- Where a handler stands. -/
inductive Handling where
  /-- It waits for a call of the gateway. -/
  | calling (call : ℕ)
  | gettingStatus (id : InvoiceId)
  | gettingPage (id : InvoiceId)
  | listing
  | answered (answer : Answer)
  deriving DecidableEq

/-- A request and its handler. -/
@[ext] structure HttpExchange where
  asked : Asked
  handling : Handling
  deriving DecidableEq

/-- The gateway and all exchanges so far. -/
structure HttpServer where
  gateway : System
  exchanges : List HttpExchange

/-! ## The handlers, step by step -/

namespace ApiSetup

variable (setup : ApiSetup)

/-- What a handler does first. -/
inductive Opening where
  | refuse (response : ApiResponse)
  | newInvoice (args : InvoiceArgs)
  | removeInvoice (id : InvoiceId)
  | read (handling : Handling)

/-- The error response, or what is done with the value. -/
def opened {α : Type} (result : Except (ApiError setup.crates) α) (next : α → Opening) : Opening :=
  match result with
  | .ok a => next a
  | .error e => .refuse e.intoResponse

/-- The handlers up to where they wait for the gateway. -/
def route : ApiRequest → Opening
  | .newInvoice payload => setup.opened (newInvoiceCall setup.crates payload) .newInvoice
  | .deleteInvoice id => setup.opened (queryId setup.crates id) .removeInvoice
  | .invoiceIds => .read .listing
  | .getInvoiceStatus id =>
      setup.opened (queryId setup.crates id) fun id => .read (.gettingStatus id)
  | .pay id => setup.opened (queryId setup.crates id) fun id => .read (.gettingPage id)

/-- A request passes the token check before it is routed. -/
def opening : Asked → Opening
  | .watch id => .removeInvoice id
  | .http authorization request =>
      match MaybeBearer.validate (setup.token request) authorization with
      | .error response => .refuse response
      | .ok () => setup.route request

/-- What becomes of the result of a removal. -/
def removeAnswer (result : Except AcceptXmrError (Option Invoice)) : Asked → Answer
  | .watch _ => .removed result
  | .http _ _ => .response (.ofResult (deleteInvoiceAnswer setup.crates result))

/-- The answer to a call that has returned. -/
def returned (asked : Asked) : Call → Option Answer
  | .newInvoiceReturned result =>
      some (.response (.ofResult (newInvoiceAnswer setup.crates result)))
  | .panicked => some .closed
  | .removeInvoiceReturned result => some (setup.removeAnswer result asked)
  | _ => none

/-- The handlers from where they waited for the gateway. A fault may meet what they read. -/
def finish (S : Backend) (fault : Option StorageError) (gateway : System) (self : HttpExchange) :
    Option Answer :=
  match self.handling with
  | .calling call => gateway.calls[call]?.bind (setup.returned self.asked)
  | .gettingStatus id => some (.response (.ofResult
      (getInvoiceStatusAnswer setup.crates id (gateway.inner.getInvoice S fault id))))
  | .gettingPage id => some (.response (.ofResult
      (payAnswer setup.crates id (gateway.inner.getInvoice S fault id))))
  | .listing => some (.response (.ofResult
      (invoiceIdsAnswer setup.crates (gateway.inner.getInvoiceIds S fault))))
  | .answered _ => none

end ApiSetup

namespace HttpServer

/-- Before the first request. -/
def start (inner : PaymentGatewayInner) (scanner : Scanner) : HttpServer :=
  ⟨.start inner scanner, []⟩

/-- An exchange that calls the gateway. -/
def call (asked : Asked) (call : Call) (self : HttpServer) : HttpServer where
  gateway := { self.gateway with calls := self.gateway.calls ++ [call] }
  exchanges := self.exchanges ++ [⟨asked, .calling self.gateway.calls.length⟩]

/-- A request comes in. -/
def receive (setup : ApiSetup) (asked : Asked) (self : HttpServer) : HttpServer :=
  match setup.opening asked with
  | .refuse response =>
      { self with exchanges := self.exchanges ++ [⟨asked, .answered (.response response)⟩] }
  | .read handling => { self with exchanges := self.exchanges ++ [⟨asked, handling⟩] }
  | .newInvoice args => self.call asked (.newInvoice args)
  | .removeInvoice id => self.call asked (.removeInvoice id)

/-- Whose turn it is. -/
inductive Turn where
  | receive (asked : Asked)
  | finish (i : ℕ) (fault : Option StorageError)
  /-- A call of the gateway goes on. -/
  | call (c : ℕ) (env : CallEnv)
  | startScan (env : ScanEnv)
  | scanner

/-- **One step of the server.** -/
def turn (S : Backend) (setup : ApiSetup) (self : HttpServer) : Turn → Option HttpServer
  | .receive asked => some (self.receive setup asked)
  | .finish i fault =>
      self.exchanges[i]?.bind fun e =>
        (setup.finish S fault self.gateway e).map fun answer =>
          { self with exchanges := self.exchanges.set i ⟨e.asked, .answered answer⟩ }
  | .call c env => (self.gateway.callStep S env c).map fun gateway => { self with gateway := gateway }
  | .startScan env => (self.gateway.startScan env).map fun gateway => { self with gateway := gateway }
  | .scanner => (self.gateway.scanStep S).map fun gateway => { self with gateway := gateway }

/-- The daemon's heights are `u64`. -/
def HeightsFit (s : HttpServer) : Turn → Prop
  | .call _ env => ∀ height, env.daemonHeight = .ok height → height < u64Size
  | .startScan env => ∀ scanner, s.gateway.scanning = .between scanner →
      (scanner.updateCaches env.client).2.blockCache.daemonHeight < u64Size
  | _ => True

/-- **Whether a turn keeps out of the running scan**: it stores no invoice under an id that the scan
has still to save. -/
def KeepsOut (s : HttpServer) (t : Turn) : Prop :=
  s.HeightsFit t ∧ ∀ c env, t = .call c env → s.gateway.KeepsOut (.call c env)

/-- The runs in which every turn is allowed. -/
def Reaches (S : Backend) (setup : ApiSetup) (allowed : HttpServer → Turn → Prop) :
    HttpServer → HttpServer → Prop :=
  Relation.ReflTransGen (TakesTurn (turn S setup) allowed)

end HttpServer

/-! ## The ledger -/

/-- What an invoice promises. -/
@[ext] structure Terms where
  address : String
  amountRequested : ℕ
  confirmationsRequired : ℕ
  expirationHeight : ℕ
  order : String
  callback : Option String
  deriving DecidableEq

/-- The terms of an invoice. -/
def Terms.ofInvoice (crates : ApiCrates) (invoice : Invoice) : Terms where
  address := invoice.address
  amountRequested := invoice.amountRequested
  confirmationsRequired := invoice.confirmationsRequired
  expirationHeight := invoice.expirationHeight
  order := (InvoiceDescription.fromJsonOrAny crates invoice.description).order
  callback := (InvoiceDescription.fromJsonOrAny crates invoice.description).callback

/-- Terms as they were asked for. -/
structure Terms.Meets (payload : NewInvoiceParams) (id : InvoiceId) (terms : Terms) : Prop where
  amountRequested : terms.amountRequested = payload.piconerosDue
  confirmationsRequired : terms.confirmationsRequired = payload.confirmationsRequired
  expirationHeight : terms.expirationHeight = (id.creationHeight + payload.expirationIn) % u64Size
  order : terms.order = payload.order
  callback : terms.callback = payload.callback

/-- An update that shows the terms. Payments and heights may be any. -/
structure Terms.Shown (crates : ApiCrates) (invoiceId : InvoiceId) (terms : Terms)
    (update : InvoiceUpdate) : Prop where
  id : update.id = .ofId crates.engine invoiceId
  address : update.address = terms.address
  amountRequested : update.amountRequested = terms.amountRequested
  confirmationsRequired : update.confirmationsRequired = terms.confirmationsRequired
  expirationIn : update.expirationIn
    = terms.expirationHeight - max invoiceId.creationHeight update.currentHeight
  order : update.order = terms.order
  callback : update.callback = terms.callback

/-- The terms of the invoices that there are. -/
abbrev Ledger := InvoiceId → Option Terms

namespace ApiSetup

variable (setup : ApiSetup)

/-- The request carries the token, if one is set. -/
def Authorized (authorization : Option String) (request : ApiRequest) : Prop :=
  ∀ token, setup.token request = some token → authorization = some ("Bearer " ++ token)

/-- The response when the gateway has failed. -/
def failure : ApiResponse := ⟨.internalServerError, .text "Internal payment gateway error", false⟩

/-- **What a request does** to the ledger once it has passed the token check, and how it is
answered. -/
inductive Handled : ApiRequest → Answer → Ledger → Ledger → Prop where
  | invalidCallback {payload : NewInvoiceParams} {l : Ledger} {callback : String}
      (hcallback : payload.callback = some callback)
      (hinvalid : ∀ u, setup.crates.uriFromStr callback ≠ .ok u) :
      Handled (.newInvoice payload)
        (.response ⟨.badRequest, .text "Callback is not a valid URI", false⟩) l l
  | notSerialized {payload : NewInvoiceParams} {l : Ledger}
      (hjson : ∀ json, setup.crates.toJson ⟨payload.order, payload.callback⟩ ≠ .ok json) :
      Handled (.newInvoice payload)
        (.response ⟨.badRequest, .text "Failed to serialize invoice description", false⟩) l l
  | invalidId {request : ApiRequest} {l : Ledger} {query : Base64InvoiceId}
      (hquery : request.query = some query) (hid : ∀ id, query.toId setup.crates.engine ≠ .ok id) :
      Handled request (.response ⟨.badRequest, .text "Invalid invoice ID", false⟩) l l
  /-- The gateway has failed. -/
  | failed {request : ApiRequest} {l : Ledger} (hrequest : ∀ query, request ≠ .pay query) :
      Handled request (.response failure) l l
  /-- No subaddress is left. -/
  | closed {payload : NewInvoiceParams} {l : Ledger} : Handled (.newInvoice payload) .closed l l
  /-- The id is a new one, and it stands for what was asked for. -/
  | created {payload : NewInvoiceParams} {l : Ledger} {id : InvoiceId} {terms : Terms}
      (hcallback : ∀ callback, payload.callback = some callback →
        ∃ u, setup.crates.uriFromStr callback = .ok u)
      (hfits : id.Fits) (hnew : l id = none) (hterms : terms.Meets payload id) :
      Handled (.newInvoice payload)
        (.response ⟨.ok, .invoiceId (.ofId setup.crates.engine id), true⟩)
        l (Function.update l id (some terms))
  | deleted {query : Base64InvoiceId} {l : Ledger} {id : InvoiceId}
      (hid : query.toId setup.crates.engine = .ok id) (hfound : l id ≠ none) :
      Handled (.deleteInvoice query) (.response ⟨.ok, .empty, true⟩) l (Function.update l id none)
  | notDeleted {query : Base64InvoiceId} {l : Ledger} {id : InvoiceId}
      (hid : query.toId setup.crates.engine = .ok id) (hnone : l id = none) :
      Handled (.deleteInvoice query) (.response ⟨.notFound, .empty, true⟩) l l
  | listed {l : Ledger} {ids : List InvoiceId} (hnodup : ids.Nodup)
      (hmem : ∀ id, id ∈ ids ↔ l id ≠ none) :
      Handled .invoiceIds
        (.response ⟨.ok, .invoiceIds (ids.map (.ofId setup.crates.engine)), true⟩) l l
  | found {query : Base64InvoiceId} {l : Ledger} {id : InvoiceId} {terms : Terms}
      {update : InvoiceUpdate} (hid : query.toId setup.crates.engine = .ok id)
      (hfound : l id = some terms) (hshown : terms.Shown setup.crates id update) :
      Handled (.getInvoiceStatus query) (.response ⟨.ok, .update update, true⟩) l l
  | notFound {query : Base64InvoiceId} {l : Ledger} {id : InvoiceId}
      (hid : query.toId setup.crates.engine = .ok id) (hnone : l id = none) :
      Handled (.getInvoiceStatus query)
        (.response ⟨.notFound, .text "Invoice not found", false⟩) l l
  | page {query : Base64InvoiceId} {l : Ledger} {id : InvoiceId} {terms : Terms}
      {update : InvoiceUpdate} {html : String} (hid : query.toId setup.crates.engine = .ok id)
      (hfound : l id = some terms) (hshown : terms.Shown setup.crates id update)
      (hhtml : setup.crates.render (.pay update) = .ok html) :
      Handled (.pay query) (.response ⟨.ok, .html html, true⟩) l l
  | missingPage {query : Base64InvoiceId} {l : Ledger} {id : InvoiceId} {html : String}
      (hid : query.toId setup.crates.engine = .ok id) (hnone : l id = none)
      (hhtml : setup.crates.render (.missingInvoice (.ofId setup.crates.engine id)) = .ok html) :
      Handled (.pay query) (.response ⟨.notFound, .html html, true⟩) l l
  | errorPage {query : Base64InvoiceId} {l : Ledger} {e : AcceptXmrError} {html : String}
      (hhtml : setup.crates.render (.error e) = .ok html) :
      Handled (.pay query) (.response ⟨.internalServerError, .html html, true⟩) l l
  | notRendered {query : Base64InvoiceId} {l : Ledger} {page : Page}
      (hhtml : ∀ html, setup.crates.render page ≠ .ok html) :
      Handled (.pay query)
        (.response ⟨.internalServerError, .text "Failed to render template", false⟩) l l

/-- **What an exchange does.** Without the token a request is refused, whatever it asks for. -/
inductive Does : Asked × Answer → Ledger → Ledger → Prop where
  | unauthorized {authorization : Option String} {request : ApiRequest} {l : Ledger}
      (h : ¬ setup.Authorized authorization request) :
      Does (.http authorization request, .response ⟨.unauthorized, .empty, false⟩) l l
  | authorized {authorization : Option String} {request : ApiRequest} {answer : Answer}
      {l l' : Ledger} (h : setup.Authorized authorization request)
      (hhandled : setup.Handled request answer l l') :
      Does (.http authorization request, answer) l l'
  /-- The watch loop is handed what was stored. -/
  | expired {l : Ledger} {old : Invoice}
      (hfound : l old.id = some (.ofInvoice setup.crates old)) :
      Does (.watch old.id, .removed (.ok (some old))) l (Function.update l old.id none)
  | notExpired {l : Ledger} {id : InvoiceId} (hnone : l id = none) :
      Does (.watch id, .removed (.ok none)) l l
  | notRemoved {l : Ledger} {id : InvoiceId} {e : AcceptXmrError} :
      Does (.watch id, .removed (.error e)) l l

/-! ## What has been decided -/

/-- **The answer to a call once it has taken effect.** It may still have steps to make. -/
def decided (asked : Asked) : Call → Option Answer
  | .inserted id => some (.response (.ofResult (newInvoiceAnswer setup.crates (.ok id))))
  | .removed _ old | .putBack _ old => some (setup.removeAnswer (.ok (some old)) asked)
  | call => setup.returned asked call

/-- The answer of an exchange once it has taken effect. -/
def settled (calls : List Call) (self : HttpExchange) : Option Answer :=
  match self.handling with
  | .calling call => calls[call]?.bind (setup.decided self.asked)
  | .answered answer => some answer
  | _ => none

/-- What the exchanges have come to: nothing before they have taken effect. -/
def outcomes (calls : List Call) (exchanges : List HttpExchange) (i : ℕ) : Option (Asked × Answer) :=
  exchanges[i]?.bind fun e => (setup.settled calls e).map fun answer => (e.asked, answer)

/-- The terms of stored invoices. -/
def ledgerOf (store : Store) : Ledger := fun id =>
  (store.getInvoice id).map (.ofInvoice setup.crates)

/-! ## Handlers and their calls -/

/-- A request that has been let through to create an invoice. -/
inductive Creates : Asked → InvoiceArgs → Prop where
  | newInvoice {authorization : Option String} {payload : NewInvoiceParams} {args : InvoiceArgs}
      (h : setup.Authorized authorization (.newInvoice payload))
      (hargs : newInvoiceCall setup.crates payload = .ok args) :
      Creates (.http authorization (.newInvoice payload)) args

/-- What has been let through to remove an invoice. -/
inductive Removes : Asked → InvoiceId → Prop where
  | watch (id : InvoiceId) : Removes (.watch id) id
  | deleteInvoice {authorization : Option String} {query : Base64InvoiceId} {id : InvoiceId}
      (h : setup.Authorized authorization (.deleteInvoice query))
      (hid : query.toId setup.crates.engine = .ok id) :
      Removes (.http authorization (.deleteInvoice query)) id

/-- **Whether a call serves a request**, wherever it stands. -/
inductive Serves (asked : Asked) : Call → Prop where
  | newInvoice {args : InvoiceArgs} (h : setup.Creates asked args) : Serves asked (.newInvoice args)
  | addressed {args : InvoiceArgs} (h : setup.Creates asked args) (index : SubIndex)
      (address : String) : Serves asked (.addressed args index address)
  | created {args : InvoiceArgs} (h : setup.Creates asked args) (index : SubIndex)
      (address : String) {creationHeight : ℕ} (hheight : creationHeight < u64Size) :
      Serves asked (.created (Invoice.new address index creationHeight args.piconeros
        args.confirmationsRequired args.expirationIn args.description))
  | inserted {args : InvoiceArgs} (h : setup.Creates asked args) (id : InvoiceId) :
      Serves asked (.inserted id)
  | newInvoiceReturned {args : InvoiceArgs} (h : setup.Creates asked args)
      (result : Except AcceptXmrError InvoiceId) : Serves asked (.newInvoiceReturned result)
  | panicked {args : InvoiceArgs} (h : setup.Creates asked args) : Serves asked .panicked
  | removeInvoice {id : InvoiceId} (h : setup.Removes asked id) : Serves asked (.removeInvoice id)
  | removed {id : InvoiceId} (h : setup.Removes asked id) (old : Invoice) :
      Serves asked (.removed id old)
  | putBack {id : InvoiceId} (h : setup.Removes asked id) (old : Invoice) :
      Serves asked (.putBack id old)
  | removeInvoiceReturned {id : InvoiceId} (h : setup.Removes asked id)
      (result : Except AcceptXmrError (Option Invoice)) :
      Serves asked (.removeInvoiceReturned result)

/-- A request that has been let through to read. -/
inductive Reads : Asked → Handling → Prop where
  | gettingStatus {authorization : Option String} {query : Base64InvoiceId} {id : InvoiceId}
      (h : setup.Authorized authorization (.getInvoiceStatus query))
      (hid : query.toId setup.crates.engine = .ok id) :
      Reads (.http authorization (.getInvoiceStatus query)) (.gettingStatus id)
  | gettingPage {authorization : Option String} {query : Base64InvoiceId} {id : InvoiceId}
      (h : setup.Authorized authorization (.pay query))
      (hid : query.toId setup.crates.engine = .ok id) :
      Reads (.http authorization (.pay query)) (.gettingPage id)
  | listing {authorization : Option String} (h : setup.Authorized authorization .invoiceIds) :
      Reads (.http authorization .invoiceIds) .listing

/-- What a handler may do first. -/
inductive Opens (asked : Asked) : Opening → Prop where
  | refuse {response : ApiResponse} (h : ∀ l, setup.Does (asked, .response response) l l) :
      Opens asked (.refuse response)
  | newInvoice {args : InvoiceArgs} (h : setup.Creates asked args) : Opens asked (.newInvoice args)
  | removeInvoice {id : InvoiceId} (h : setup.Removes asked id) : Opens asked (.removeInvoice id)
  | read {handling : Handling} (h : setup.Reads asked handling) : Opens asked (.read handling)

variable {setup}

/-- **The token check** lets through who is authorized, and answers the others. -/
theorem validate_cases (authorization : Option String) (request : ApiRequest) :
    (MaybeBearer.validate (setup.token request) authorization = .ok () ∧
      setup.Authorized authorization request) ∨
    (MaybeBearer.validate (setup.token request) authorization
        = .error ⟨.unauthorized, .empty, false⟩ ∧ ¬ setup.Authorized authorization request) := by
  unfold MaybeBearer.validate Authorized
  cases setup.token request with
  | none => exact .inl ⟨rfl, nofun⟩
  | some token =>
      cases authorization with
      | none =>
          refine .inr ⟨rfl, fun h => ?_⟩
          cases h token rfl
      | some actual =>
          by_cases heq : actual = "Bearer " ++ token
          · refine .inl ⟨if_pos heq, fun token' htoken => ?_⟩
            cases htoken
            rw [heq]
          · exact .inr ⟨if_neg heq, fun h => heq (Option.some.inj (h token rfl))⟩

/-- A query that is not an id is answered. -/
theorem opens_queryId {authorization : Option String} {request : ApiRequest}
    {query : Base64InvoiceId} (h : setup.Authorized authorization request)
    (hquery : request.query = some query) {next : InvoiceId → Opening}
    (hnext : ∀ id, query.toId setup.crates.engine = .ok id →
      setup.Opens (.http authorization request) (next id)) :
    setup.Opens (.http authorization request) (setup.opened (queryId setup.crates query) next) := by
  unfold queryId
  cases hid : query.toId setup.crates.engine with
  | ok id => exact hnext id hid
  | error e => exact .refuse fun l => .authorized h (.invalidId hquery (by simp [hid]))

/-- A payload that cannot be used is answered. -/
theorem opens_newInvoiceCall {authorization : Option String} {payload : NewInvoiceParams}
    (h : setup.Authorized authorization (.newInvoice payload)) :
    setup.Opens (.http authorization (.newInvoice payload))
      (setup.opened (newInvoiceCall setup.crates payload) .newInvoice) := by
  cases hcall : newInvoiceCall setup.crates payload with
  | ok args => exact .newInvoice (.newInvoice h hcall)
  | error e =>
      refine .refuse fun l => .authorized h ?_
      unfold newInvoiceCall at hcall
      cases hcheck : checkCallback setup.crates payload.callback with
      | error e' =>
          rw [hcheck] at hcall
          cases hcall
          unfold checkCallback at hcheck
          cases hcallback : payload.callback with
          | none =>
              rw [hcallback] at hcheck
              cases hcheck
          | some callback =>
              rw [hcallback] at hcheck
              cases huri : setup.crates.uriFromStr callback with
              | ok u =>
                  simp only [huri, Except.mapError] at hcheck
                  cases hcheck
              | error e'' =>
                  simp only [huri, Except.mapError] at hcheck
                  cases hcheck
                  exact .invalidCallback hcallback (by simp [huri])
      | ok u =>
          rw [hcheck] at hcall
          cases hjson : setup.crates.toJson ⟨payload.order, payload.callback⟩ with
          | ok json =>
              rw [hjson] at hcall
              cases hcall
          | error e' =>
              rw [hjson] at hcall
              cases hcall
              exact .notSerialized (by simp [hjson])

/-- **How handlers open.** -/
theorem opens (asked : Asked) : setup.Opens asked (setup.opening asked) := by
  cases asked with
  | watch id => exact .removeInvoice (.watch id)
  | http authorization request =>
      obtain ⟨hvalid, h⟩ | ⟨hvalid, h⟩ := setup.validate_cases authorization request
      · simp only [opening, hvalid]
        cases request with
        | newInvoice payload => exact opens_newInvoiceCall h
        | deleteInvoice query =>
            exact opens_queryId h rfl fun id hid => .removeInvoice (.deleteInvoice h hid)
        | invoiceIds => exact .read (.listing h)
        | getInvoiceStatus query =>
            exact opens_queryId h rfl fun id hid => .read (.gettingStatus h hid)
        | pay query => exact opens_queryId h rfl fun id hid => .read (.gettingPage h hid)
      · simp only [opening, hvalid]
        exact .refuse fun l => .unauthorized h

/-! ## What calls and reads do to the ledger -/

/-- The invoice of a request has the terms that were asked for. -/
theorem Creates.meets {asked : Asked} {args : InvoiceArgs} (h : setup.Creates asked args)
    (hroundTrips : setup.crates.RoundTrips) (index : SubIndex) (address : String)
    (creationHeight : ℕ) :
    ∃ authorization payload, asked = .http authorization (.newInvoice payload) ∧
      setup.Authorized authorization (.newInvoice payload) ∧
      (∀ callback, payload.callback = some callback →
        ∃ u, setup.crates.uriFromStr callback = .ok u) ∧
      (Terms.ofInvoice setup.crates (Invoice.new address index creationHeight args.piconeros
        args.confirmationsRequired args.expirationIn args.description)).Meets payload
          ⟨index, creationHeight⟩ := by
  obtain @⟨authorization, payload, args, h, hargs⟩ := h
  obtain ⟨hpiconeros, hconfirmations, hexpiration, hjson, hcallback⟩ := newInvoiceCall_eq_ok hargs
  have hdescription := fromJsonOrAny_of_toJson hroundTrips hjson
  refine ⟨authorization, payload, rfl, h, hcallback, hpiconeros, hconfirmations, ?_, ?_, ?_⟩
  · simp only [Terms.ofInvoice, Invoice.new, hexpiration]
  · simp only [Terms.ofInvoice, Invoice.new, hdescription]
  · simp only [Terms.ofInvoice, Invoice.new, hdescription]

/-- A request to create an invoice may fail, and may panic. -/
theorem Creates.fails {asked : Asked} {args : InvoiceArgs} (h : setup.Creates asked args)
    (l : Ledger) :
    (∀ e, setup.Does (asked, .response (.ofResult (newInvoiceAnswer setup.crates (.error e)))) l l) ∧
      setup.Does (asked, .closed) l l := by
  cases h with
  | newInvoice h hargs => exact ⟨fun e => .authorized h (.failed nofun), .authorized h .closed⟩

/-- Whether there is something to remove decides what is done. -/
theorem Removes.does {asked : Asked} {id : InvoiceId} (h : setup.Removes asked id) (store : Store) :
    (∀ e, setup.Does (asked, setup.removeAnswer (.error e) asked) (setup.ledgerOf store)
      (setup.ledgerOf store)) ∧
    (store.getInvoice id = none → setup.Does (asked, setup.removeAnswer (.ok none) asked)
      (setup.ledgerOf store) (setup.ledgerOf store)) ∧
    ∀ old, store.getInvoice id = some old → setup.Does (asked, setup.removeAnswer (.ok (some old)) asked)
      (setup.ledgerOf store) (setup.ledgerOf (store.removeInvoice id)) := by
  have hremoved : setup.ledgerOf (store.removeInvoice id)
      = Function.update (setup.ledgerOf store) id none := by
    funext id'
    rw [ledgerOf, Store.getInvoice_removeInvoice]
    by_cases heq : id' = id
    · rw [heq, Function.update_self, Function.update_self, Option.map_none]
    · rw [Function.update_of_ne heq, Function.update_of_ne heq, ledgerOf]
  have hledger : ∀ found, store.getInvoice id = found →
      setup.ledgerOf store id = found.map (.ofInvoice setup.crates) := by
    rintro found rfl
    rfl
  cases h with
  | watch id =>
      refine ⟨fun e => .notRemoved, fun hnone => .notExpired (hledger none hnone),
        fun old hold => ?_⟩
      obtain ⟨-, rfl⟩ := Store.mem_of_getInvoice hold
      rw [hremoved]
      exact .expired (hledger _ hold)
  | deleteInvoice h hid =>
      refine ⟨fun e => .authorized h (.failed nofun),
        fun hnone => .authorized h (.notDeleted hid (hledger none hnone)), fun old hold => ?_⟩
      rw [hremoved]
      refine .authorized h (.deleted hid ?_)
      rw [hledger _ hold]
      simp

variable {S : Backend} {env : CallEnv} {inner inner' : PaymentGatewayInner} {asked : Asked}
  {call call' : Call}

/-- **What a step of a call does** on behalf of a request: nothing that can be seen, or it decides the
answer and does to the ledger what goes with it. -/
theorem Serves.advance (hserves : setup.Serves asked call) (hroundTrips : setup.crates.RoundTrips)
    (hheight : inner.cachedDaemonHeight < u64Size)
    (henv : ∀ height, env.daemonHeight = .ok height → height < u64Size)
    (h : call.advance S env inner = some (call', inner')) :
    setup.Serves asked call' ∧
    ((setup.decided asked call' = setup.decided asked call ∧
        setup.ledgerOf inner'.shared.store = setup.ledgerOf inner.shared.store) ∨
      (setup.decided asked call = none ∧ ∃ answer, setup.decided asked call' = some answer ∧
        setup.Does (asked, answer) (setup.ledgerOf inner.shared.store)
          (setup.ledgerOf inner'.shared.store))) := by
  cases hserves with
  | newInvoice hcreates =>
      simp only [Call.advance] at h
      split at h
      · cases h
        exact ⟨.panicked hcreates, .inr ⟨rfl, .closed, rfl, (hcreates.fails _).2⟩⟩
      · cases h
        exact ⟨.addressed hcreates _ _, .inl ⟨rfl, rfl⟩⟩
  | addressed hcreates index address =>
      simp only [Call.advance] at h
      split at h
      · cases h
        exact ⟨.created hcreates index address hheight, .inl ⟨rfl, rfl⟩⟩
      · split at h
        · cases h
          exact ⟨.newInvoiceReturned hcreates _, .inr ⟨rfl, _, rfl, (hcreates.fails _).1 _⟩⟩
        · rename_i creationHeight hok
          cases h
          exact ⟨.created hcreates index address (henv _ hok), .inl ⟨rfl, rfl⟩⟩
  | created hcreates index address hcreation =>
      rename_i args creationHeight
      simp only [Call.advance, handle, serve] at h
      split at h
      · cases h
        exact ⟨.newInvoiceReturned hcreates _, .inr ⟨rfl, _, rfl, (hcreates.fails _).1 _⟩⟩
      · cases hinsert : inner.shared.store.insertInvoice (Invoice.new address index creationHeight
            args.piconeros args.confirmationsRequired args.expirationIn args.description) with
        | error e =>
            simp only [hinsert, Except.mapError] at h
            cases h
            exact ⟨.newInvoiceReturned hcreates _, .inr ⟨rfl, _, rfl, (hcreates.fails _).1 _⟩⟩
        | ok store =>
            simp only [hinsert, Except.mapError] at h
            cases h
            obtain ⟨authorization, payload, rfl, hauthorized, hcallback, hmeets⟩ :=
              hcreates.meets hroundTrips index address creationHeight
            refine ⟨.inserted hcreates _, .inr ⟨rfl, _, rfl, .authorized hauthorized ?_⟩⟩
            have hnew := Store.getInvoice_eq_none_iff.mpr (Store.insertInvoice_ok hinsert).1
            have hledger : setup.ledgerOf store = Function.update
                (setup.ledgerOf inner.shared.store) ⟨index, creationHeight⟩
                (some (.ofInvoice setup.crates (Invoice.new address index creationHeight
                  args.piconeros args.confirmationsRequired args.expirationIn
                  args.description))) := by
              funext id
              rw [ledgerOf, Store.getInvoice_insertInvoice hinsert]
              by_cases heq : id = ⟨index, creationHeight⟩
              · subst heq
                rw [Function.update_self, Invoice.id, Invoice.new, Function.update_self]
                rfl
              · rw [Function.update_of_ne heq, Invoice.id, Invoice.new, Function.update_of_ne heq]
                rfl
            simp only [hledger]
            refine .created hcallback hcreation ?_ hmeets
            exact congrArg (Option.map _) hnew
  | inserted hcreates id =>
      cases h
      exact ⟨.newInvoiceReturned hcreates _, .inl ⟨rfl, rfl⟩⟩
  | newInvoiceReturned hcreates result => cases h
  | panicked hcreates => cases h
  | removeInvoice hremoves =>
      rename_i id
      obtain ⟨hfailed, hnone, hsome⟩ := hremoves.does inner.shared.store
      simp only [Call.advance, handle, serve] at h
      split at h
      · cases h
        exact ⟨.removeInvoiceReturned hremoves _, .inr ⟨rfl, _, rfl, hfailed _⟩⟩
      · cases hget : inner.shared.store.getInvoice id with
        | none =>
            simp only [hget, Except.mapError, Store.removeInvoice_of_getInvoice hget] at h
            cases h
            exact ⟨.removeInvoiceReturned hremoves _, .inr ⟨rfl, _, rfl, hnone hget⟩⟩
        | some old =>
            simp only [hget, Except.mapError] at h
            cases h
            exact ⟨.removed hremoves old, .inr ⟨rfl, _, rfl, hsome old hget⟩⟩
  | removed hremoves old =>
      cases h
      exact ⟨.putBack hremoves old, .inl ⟨rfl, rfl⟩⟩
  | putBack hremoves old =>
      cases h
      exact ⟨.removeInvoiceReturned hremoves _, .inl ⟨rfl, rfl⟩⟩
  | removeInvoiceReturned hremoves result => cases h

/-- An update shows the terms of the invoice it is made of. -/
theorem shown_ofInvoice (invoice : Invoice) :
    (Terms.ofInvoice setup.crates invoice).Shown setup.crates invoice.id
      (.ofInvoice setup.crates invoice) :=
  ⟨rfl, rfl, rfl, rfl, rfl, rfl, rfl⟩

/-- A page is rendered or it is not. -/
theorem payPage_cases (status : StatusCode) (page : Page) :
    (∃ html, setup.crates.render page = .ok html ∧
      ApiResponse.ofResult (payPage setup.crates status page) = ⟨status, .html html, true⟩) ∨
    ((∀ html, setup.crates.render page ≠ .ok html) ∧
      ApiResponse.ofResult (payPage setup.crates status page)
        = ⟨.internalServerError, .text "Failed to render template", false⟩) := by
  unfold payPage
  cases hrender : setup.crates.render page with
  | ok html => exact .inl ⟨html, rfl, rfl⟩
  | error e => exact .inr ⟨nofun, rfl⟩

/-- **What a read answers** is what the ledger says, unless the gateway has failed. -/
theorem Reads.does {handling : Handling} (h : setup.Reads asked handling)
    {fault : Option StorageError} {gateway : System} {answer : Answer}
    (hfinish : setup.finish S fault gateway ⟨asked, handling⟩ = some answer) :
    setup.Does (asked, answer) (setup.ledgerOf gateway.inner.shared.store)
      (setup.ledgerOf gateway.inner.shared.store) := by
  cases h with
  | @gettingStatus authorization query id h hid =>
      cases hfinish
      cases fault with
      | some e => exact .authorized h (.failed nofun)
      | none =>
          rw [getInvoice_eq]
          cases hget : gateway.inner.shared.store.getInvoice id with
          | none => exact .authorized h (.notFound hid (congrArg (Option.map _) hget))
          | some invoice =>
              obtain ⟨-, rfl⟩ := Store.mem_of_getInvoice hget
              exact .authorized h (.found hid (congrArg (Option.map _) hget) (shown_ofInvoice invoice))
  | @gettingPage authorization query id h hid =>
      cases hfinish
      cases fault with
      | some e =>
          obtain ⟨html, hhtml, heq⟩ | ⟨hhtml, heq⟩ :=
            setup.payPage_cases .internalServerError (.error (.storage e))
          · exact heq ▸ .authorized h (.errorPage hhtml)
          · exact heq ▸ .authorized h (.notRendered hhtml)
      | none =>
          rw [getInvoice_eq]
          cases hget : gateway.inner.shared.store.getInvoice id with
          | none =>
              obtain ⟨html, hhtml, heq⟩ | ⟨hhtml, heq⟩ :=
                setup.payPage_cases .notFound (.missingInvoice (.ofId setup.crates.engine id))
              · exact heq ▸ .authorized h
                  (.missingPage hid (congrArg (Option.map _) hget) hhtml)
              · exact heq ▸ .authorized h (.notRendered hhtml)
          | some invoice =>
              obtain ⟨-, rfl⟩ := Store.mem_of_getInvoice hget
              obtain ⟨html, hhtml, heq⟩ | ⟨hhtml, heq⟩ :=
                setup.payPage_cases .ok (.pay (.ofInvoice setup.crates invoice))
              · exact heq ▸ .authorized h
                  (.page hid (congrArg (Option.map _) hget) (shown_ofInvoice invoice) hhtml)
              · exact heq ▸ .authorized h (.notRendered hhtml)
  | listing h =>
      cases hfinish
      cases fault with
      | some e => exact .authorized h (.failed nofun)
      | none =>
          refine .authorized h (.listed gateway.inner.shared.store.nodupIds fun id => ?_)
          rw [ledgerOf, ne_eq, Option.map_eq_none_iff, Store.getInvoice_eq_none_iff, not_not]

end ApiSetup

end AcceptXmr
