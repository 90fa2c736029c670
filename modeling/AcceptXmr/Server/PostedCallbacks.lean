import AcceptXmr.Server.Callbacks
import AcceptXmr.Server.ExchangeRuns

/-! # From a posted invoice to its callbacks

The server at work with the watch loop and the callback queue behind it: `spawn_gateway` of
`server/src/lib.rs` and `CallbackClient` of `server/src/callbacks.rs`. An invoice is posted, a scan
reads, saves and publishes it, the watch loop puts the update on the queue, and a spawned task calls
the callback, again and again if it fails. All the while there are other requests, scans and updates.

* **`Upholds.turns`** — what scans leave alone holds of everything that is published if it holds of
  everything that is stored.
* **`callbacks_as_posted`** — callbacks are called as they were posted. -/

namespace AcceptXmr

/-! ## The callback client -/

/-- A request that the client sends. -/
structure CallbackRequest where
  uri : String
  body : InvoiceUpdate
  method : String := "POST"
  accept : String := "*/*"
  contentType : String := "application/json"
  deriving DecidableEq

/-- What comes of a request. -/
inductive HttpResult where
  | response (status : ℕ)
  /-- The request could not be built. -/
  | invalidRequest
  | failed
  | timedOut
  deriving DecidableEq

inductive CallbackError (crates : ApiCrates) where
  /-- HTTP request failed. -/
  | request
  /-- Failed to build HTTP request. -/
  | invalidRequest
  /-- Callback recipient returned an error. -/
  | response (status : ℕ)
  /-- HTTP request timed out. -/
  | timeout
  /-- Failed to deserialize invoice description. -/
  | invalidDescription (e : crates.JsonError)
  /-- Callback is not a valid URI. -/
  | invalidCallback (e : crates.InvalidUri)

/-- `StatusCode::is_server_error`. -/
def isServerError (status : ℕ) : Bool := decide (500 ≤ status ∧ status < 600)

/-- `StatusCode::is_client_error`. -/
def isClientError (status : ℕ) : Bool := decide (400 ≤ status ∧ status < 500)

namespace CallbackClient

variable (crates : ApiCrates) (http : CallbackRequest → HttpResult)

/-- `request`, by what comes of HTTP requests. -/
def request (body : InvoiceUpdate) (uri : String) : Except (CallbackError crates) ℕ :=
  match http { uri := uri, body := body } with
  | .response status =>
      if isServerError status || isClientError status then .error (.response status) else .ok status
  | .invalidRequest => .error .invalidRequest
  | .failed => .error .request
  | .timedOut => .error .timeout

/-- `callback`: true if the callback was called, false if there was no callback to call. -/
def callback (invoice : Invoice) : Except (CallbackError crates) Bool := do
  let description ← (crates.fromJson invoice.description).mapError .invalidDescription
  match description.callback with
  | none => pure false
  | some uri =>
      (crates.uriFromStr uri).mapError .invalidCallback
      let _ ← request crates http (.ofInvoice crates invoice) uri
      pure true

/-- Whether a call fails, and is retried. -/
def fails (invoice : Invoice) : Bool := !(callback crates http invoice).isOk

/-- **The callback of a serialized description** is called if there is one, and nothing but the HTTP
request can fail. -/
theorem callback_of_toJson {crates : ApiCrates} (hroundTrips : crates.RoundTrips)
    {invoice : Invoice} {description : InvoiceDescription}
    (hjson : crates.toJson description = .ok invoice.description)
    (huri : ∀ uri, description.callback = some uri → ∃ u, crates.uriFromStr uri = .ok u) :
    callback crates http invoice = match description.callback with
      | none => .ok false
      | some uri => (request crates http (.ofInvoice crates invoice) uri).map fun _ => true := by
  unfold callback
  rw [hroundTrips _ _ hjson]
  cases hcallback : description.callback with
  | none =>
      simp only [Except.mapError, bind, Except.bind, hcallback]
      rfl
  | some uri =>
      obtain ⟨u, hu⟩ := huri uri hcallback
      simp only [Except.mapError, bind, Except.bind, hcallback, hu]
      cases request crates http (.ofInvoice crates invoice) uri <;> rfl

end CallbackClient

/-! ## What scans hand on -/

namespace System

variable {S : Backend} {g g' : System}

/-- **The property** holds of what is stored, of what the running scan may still save or publish, and
of what has been published. -/
structure Upholds (P : Invoice → Prop) (g : System) : Prop where
  stored : ∀ invoice ∈ g.invoices, P invoice
  pending : Pending P g
  saved : ∀ program, g.scanning = .during program → ∃ saved,
    Program.PublishesSaved saved program ∧ ∀ invoice, saved = some invoice → P invoice
  published : ∀ invoice ∈ g.inner.shared.published, P invoice

/-- At the start it holds of what is stored, and nothing has been published. -/
theorem Upholds.start {P : Invoice → Prop} {inner : PaymentGatewayInner} {scanner : Scanner}
    (hstored : ∀ invoice ∈ inner.shared.store.invoices, P invoice)
    (hpublished : inner.shared.published = []) : Upholds P (start inner scanner) where
  stored := hstored
  pending := .start P inner scanner
  saved := nofun
  published invoice hmem := by
    rw [System.start, hpublished] at hmem
    cases hmem

/-- In particular, the running scan publishes what it has saved. -/
theorem Upholds.soundScan {P : Invoice → Prop} (hg : Upholds P g) : SoundScan g := by
  intro program hprogram
  obtain ⟨saved, hfollows, -⟩ := hg.saved program hprogram
  exact ⟨saved, hfollows⟩

/-- What is weaker is upheld as well. -/
theorem Upholds.mono {P Q : Invoice → Prop} (hg : Upholds P g) (h : ∀ invoice, P invoice → Q invoice) :
    Upholds Q g where
  stored invoice hmem := h invoice (hg.stored invoice hmem)
  pending program hprogram := by
    obtain ⟨known, hsaves, hP⟩ := hg.pending program hprogram
    exact ⟨known, hsaves, fun old hold hmay => h old (hP old hold hmay)⟩
  saved program hprogram := by
    obtain ⟨saved, hfollows, hP⟩ := hg.saved program hprogram
    exact ⟨saved, hfollows, fun invoice hsaved => h invoice (hP invoice hsaved)⟩
  published invoice hmem := h invoice (hg.published invoice hmem)

/-- **Every step upholds** what no scan changes and what holds of the invoice that the step stores. -/
theorem Upholds.turns {P : Invoice → Prop} (hg : Upholds P g)
    (hkeeps : ∀ old new : Invoice, old.Keeps new → P old → P new) {t : Turn}
    (hnew : ∀ invoice, g.stores t = some invoice → P invoice) (h : Turns S g t g') : Upholds P g' := by
  have hsaves : ∀ invoice next, g.scanning = .during (.call (.updateInvoice invoice) next) →
      P invoice := by
    intro invoice next hscanning
    obtain ⟨known, ⟨⟨old, hold, hkept⟩, -⟩, hP⟩ := hg.pending _ hscanning
    exact hkeeps old invoice hkept (hP old hold (.inl hkept.id))
  refine ⟨fun invoice hmem => ?_, hg.pending.turns h (fun _ _ _ _ hP => hP) fun _ => hg.stored, ?_, ?_⟩
  · obtain ⟨hold, -⟩ | hstores | ⟨-, -, next, hscanning⟩ := mem_invoices_of_turns hg.soundScan h hmem
    · exact hg.stored invoice hold
    · exact hnew invoice hstores
    · exact hsaves invoice next hscanning
  · intro program hprogram
    cases h with
    | newInvoice args => exact hg.saved program hprogram
    | removeInvoice id => exact hg.saved program hprogram
    | call hcalls hadvances => exact hg.saved program hprogram
    | startScan hscanning =>
        cases hprogram
        exact ⟨none, Scanner.scan_follows _ _, nofun⟩
    | finished hscanning => cases hprogram
    | @served req next hscanning =>
        cases hprogram
        obtain ⟨saved, ⟨hallowed, hnext⟩, -⟩ := hg.saved _ hscanning
        refine ⟨_, hnext _, fun invoice hsaved => ?_⟩
        obtain ⟨-, -, hnone⟩ | ⟨update, rfl, -, -, -, hsome⟩ | ⟨update, -, -, -, hnone⟩ :=
          handle_allowedAfter S g.inner.shared hallowed
        · rw [hnone] at hsaved
          cases hsaved
        · rw [hsome] at hsaved
          cases hsaved
          exact hsaves _ _ hscanning
        · rw [hnone] at hsaved
          cases hsaved
  · cases h with
    | newInvoice args => exact hg.published
    | removeInvoice id => exact hg.published
    | call hcalls hadvances => cases hadvances <;> exact hg.published
    | startScan hscanning => exact hg.published
    | finished hscanning => exact hg.published
    | @served req next hscanning =>
        obtain ⟨saved, ⟨hallowed, -⟩, hP⟩ := hg.saved _ hscanning
        obtain ⟨-, hpublished, -⟩ | ⟨update, -, -, -, hpublished, -⟩ |
          ⟨update, hsaved, -, hpublished, -⟩ := handle_allowedAfter S g.inner.shared hallowed
        · simp only [hpublished]
          exact hg.published
        · simp only [hpublished]
          exact hg.published
        · -- The scan publishes what it has saved.
          intro invoice hmem
          simp only [hpublished, List.mem_append, List.mem_singleton] at hmem
          rcases hmem with hmem | rfl
          · exact hg.published invoice hmem
          · exact hP invoice hsaved

end System

/-! ## Posted invoices -/

/-- An invoice with the terms and the description of a payload. Payments and heights may be any. -/
structure PostedAs (crates : ApiCrates) (payload : NewInvoiceParams) (invoice : Invoice) : Prop where
  amountRequested : invoice.amountRequested = payload.piconerosDue
  confirmationsRequired : invoice.confirmationsRequired = payload.confirmationsRequired
  expirationHeight : invoice.expirationHeight
    = (invoice.creationHeight + payload.expirationIn) % u64Size
  description : crates.toJson ⟨payload.order, payload.callback⟩ = .ok invoice.description
  callback : ∀ callback, payload.callback = some callback → ∃ u, crates.uriFromStr callback = .ok u

/-- An update of an invoice is still as it was posted. -/
theorem PostedAs.keeps {crates : ApiCrates} {payload : NewInvoiceParams} {old new : Invoice}
    (h : PostedAs crates payload old) (hkeeps : old.Keeps new) : PostedAs crates payload new where
  amountRequested := hkeeps.amountRequested.trans h.amountRequested
  confirmationsRequired := hkeeps.confirmationsRequired.trans h.confirmationsRequired
  expirationHeight := by
    rw [hkeeps.expirationHeight, hkeeps.creationHeight]
    exact h.expirationHeight
  description := by
    rw [hkeeps.description]
    exact h.description
  callback := h.callback

/-- The terms of a posted invoice are those that were asked for. -/
theorem PostedAs.meets {crates : ApiCrates} {payload : NewInvoiceParams} {invoice : Invoice}
    (h : PostedAs crates payload invoice) (hroundTrips : crates.RoundTrips) :
    (Terms.ofInvoice crates invoice).Meets payload invoice.id := by
  have hdescription := fromJsonOrAny_of_toJson hroundTrips h.description
  refine ⟨h.amountRequested, h.confirmationsRequired, h.expirationHeight, ?_, ?_⟩
  · simp only [Terms.ofInvoice, hdescription]
  · simp only [Terms.ofInvoice, hdescription]

namespace HttpServer

variable {setup : ApiSetup} {S : Backend} {s s' : HttpServer}

/-- **Whether an exchange has posted the invoice**, or an earlier state of it: who was authorized was
given its id. The response may still be on its way. -/
def Posted (setup : ApiSetup) (s : HttpServer) (invoice : Invoice) : Prop :=
  ∃ (i : ℕ) (authorization : Option String) (payload : NewInvoiceParams),
    s.outcome setup i = some (.http authorization (.newInvoice payload),
      .response ⟨.ok, .invoiceId (.ofId setup.crates.engine invoice.id), true⟩) ∧
    setup.Authorized authorization (.newInvoice payload) ∧
    PostedAs setup.crates payload invoice

/-- It still belongs to its exchange. -/
theorem Posted.keeps {old new : Invoice} (h : s.Posted setup old) (hkeeps : old.Keeps new) :
    s.Posted setup new := by
  obtain ⟨i, authorization, payload, houtcome, hauthorized, hposted⟩ := h
  exact ⟨i, authorization, payload, hkeeps.id ▸ houtcome, hauthorized, hposted.keeps hkeeps⟩

/-- What has been decided stays so. -/
theorem Matched.outcome_stays (hs : Matched setup s) (hroundTrips : setup.crates.RoundTrips)
    {t : Turn} (hfits : s.HeightsFit t) (h : s.turn S setup t = some s') {i : ℕ}
    {x : Asked × Answer} (hi : s.outcome setup i = some x) : s'.outcome setup i = some x := by
  obtain ⟨-, heffects | ⟨gateway, -, -, -, houtcome⟩⟩ := hs.turn hroundTrips hfits h
  · exact heffects.stays hi
  · rw [houtcome]
    exact hi

/-- **An invoice is stored for the exchange that has posted it.** -/
theorem Matched.posted_of_stores (hs : Matched setup s) {c : ℕ} {env : CallEnv} {invoice : Invoice}
    (hstores : s.gateway.stores (.call c env) = some invoice)
    (h : s.turn S setup (.call c env) = some s') : s'.Posted setup invoice := by
  obtain ⟨gateway, hstep, rfl⟩ := Option.map_eq_some_iff.mp h
  obtain ⟨call, call', inner, hget, hadvance, rfl⟩ := System.callStep_eq hstep
  -- The call has created the invoice, and nothing keeps it from being stored.
  have hcall : call = .created invoice ∧ env.fault = none ∧
      invoice.id ∉ s.gateway.inner.shared.store.getIds := by
    simp only [System.stores, hget] at hstores
    split at hstores
    · rename_i invoice' heq
      split at hstores
      · rename_i hfree
        cases hstores
        cases heq
        simp only [Bool.and_eq_true, Option.isNone_iff_eq_none, List.contains_eq_mem,
          Bool.not_eq_true', decide_eq_false_iff_not] at hfree
        exact ⟨rfl, hfree⟩
      · cases hstores
    · cases hstores
  obtain ⟨rfl, hfault, hfresh⟩ := hcall
  have hinserted : call' = .inserted invoice.id := by
    cases Call.advance_cases hadvance with
    | inserted hfault' hinsert => rfl
    | notInserted e hrefused =>
        obtain hfault' | hids := hrefused
        · exact absurd hfault hfault'
        · exact absurd hids hfresh
  subst hinserted
  obtain ⟨i, asked, hi⟩ := hs.owned c _ hget rfl
  have houtcome : setup.outcomes (s.gateway.calls.set c (.inserted invoice.id)) s.exchanges
      = Function.update (outcome setup s) i
          ((setup.decided asked (.inserted invoice.id)).map fun answer => (asked, answer)) :=
    ApiSetup.outcomes_setCall hi (List.getElem?_eq_some_iff.mp hget).1
      (fun j hj => hs.apart j i c hj ⟨asked, hi⟩) _
  have hserves := hs.serves hi hget
  generalize hcreated : Call.created invoice = created at hserves
  cases hserves with
  | created hcreates index address hheight =>
      cases hcreated
      obtain @⟨authorization, payload, args, hauthorized, hargs⟩ := hcreates
      obtain ⟨hpiconeros, hconfirmations, hexpiration, hjson, hcallback⟩ := newInvoiceCall_eq_ok hargs
      refine ⟨i, authorization, payload, ?_, hauthorized, hpiconeros, hconfirmations, ?_, hjson,
        hcallback⟩
      · exact (congrFun houtcome i).trans (Function.update_self ..)
      · simp only [Invoice.new, hexpiration]
  | _ => cases hcreated

/-- Whether an invoice comes from the store that the server was started on, or has been posted. -/
def Origin (setup : ApiSetup) (store : Store) (s : HttpServer) (invoice : Invoice) : Prop :=
  (∃ old ∈ store.invoices, old.Keeps invoice) ∨ s.Posted setup invoice

/-- It still has the same origin. -/
theorem Origin.keeps {store : Store} {old new : Invoice} (h : s.Origin setup store old)
    (hkeeps : old.Keeps new) : s.Origin setup store new := by
  obtain ⟨first, hfirst, hkept⟩ | hposted := h
  · exact .inl ⟨first, hfirst, hkept.trans hkeeps⟩
  · exact .inr (hposted.keeps hkeeps)

/-- **Every step** of the server keeps what is known of where invoices come from. -/
theorem Matched.origin_turn (hs : Matched setup s) (hroundTrips : setup.crates.RoundTrips)
    {store : Store} (hupholds : s.gateway.Upholds (s.Origin setup store)) {t : Turn}
    (hfits : s.HeightsFit t) (h : s.turn S setup t = some s') :
    s'.gateway.Upholds (s'.Origin setup store) ∧
      ∀ invoice, s.Origin setup store invoice → s'.Origin setup store invoice := by
  have hstays : ∀ invoice, s.Origin setup store invoice → s'.Origin setup store invoice := by
    rintro invoice (hfirst | ⟨i, authorization, payload, houtcome, hposted⟩)
    · exact .inl hfirst
    · exact .inr ⟨i, authorization, payload,
        hs.outcome_stays hroundTrips hfits h houtcome, hposted⟩
  refine ⟨?_, hstays⟩
  have hafter := hupholds.mono hstays
  obtain hsame | ⟨u, hcall, hturn⟩ := gateway_turn h
  · rw [hsame]
    exact hafter
  · refine hafter.turns (fun old new hkeeps hold => hold.keeps hkeeps) (fun invoice hstores => ?_)
      (System.turn_cases hturn)
    cases u with
    | call c env =>
        obtain rfl := hcall c env rfl
        exact .inr (hs.posted_of_stores hstores h)
    | _ => cases hstores

end HttpServer

/-! ## The watch loop and the queue behind the server -/

/-- The server with its watch loop and its callback queue. -/
structure CallbackServer where
  server : HttpServer
  /-- The number of updates received, once the watch loop has subscribed to all of them. -/
  received : Option ℕ := none
  queue : CallbackQueue := {}
  /-- The invoices whose callback was called, one entry for each call. -/
  called : List Invoice := []

namespace CallbackServer

/-- Whose turn it is. -/
inductive Turn where
  | server (t : HttpServer.Turn)
  /-- The watch loop subscribes. -/
  | subscribe
  /-- The watch loop receives an update and puts it on the queue. -/
  | put
  | receive
  /-- A spawned task goes on. If it calls the callback, this is what comes of the request. -/
  | deliver (i : ℕ) (http : CallbackRequest → HttpResult)

/-- The updates that have been published. -/
abbrev published (self : CallbackServer) : List Invoice := self.server.gateway.inner.shared.published

/-- The invoice that a task calls the callback of in its next step. -/
def calling : Delivery → List Invoice
  | .calling call => [call.invoice]
  | .sending _ => []

/-- **One step of the whole.** Of `callbacks` it takes the configuration and the delays: the invoices
are those that are published, and what comes of a request decides whether a call fails. -/
def turn (S : Backend) (setup : ApiSetup) (callbacks : Callbacks) (self : CallbackServer) :
    Turn → Option CallbackServer
  | .server t => (self.server.turn S setup t).map fun server => { self with server := server }
  | .subscribe =>
      match self.received with
      | none => some { self with received := some self.published.length }
      | some _ => none
  | .put =>
      self.received.bind fun received => self.published[received]?.bind fun invoice =>
        (self.queue.put { callbacks with invoice := fun _ => invoice } received).map fun queue =>
          { self with received := some (received + 1), queue := queue }
  | .receive => (self.queue.receive callbacks).map fun queue => { self with queue := queue }
  | .deliver i http =>
      self.queue.deliveries[i]?.bind fun delivery =>
        (self.queue.deliver { callbacks with
            fails := fun _ _ => CallbackClient.fails setup.crates http delivery.toCall.invoice } i).map
          fun queue => { self with queue := queue, called := self.called ++ calling delivery }

/-- The daemon's heights are `u64`. -/
def HeightsFit (s : CallbackServer) : Turn → Prop
  | .server t => s.server.HeightsFit t
  | _ => True

/-- The runs. -/
def Reaches (S : Backend) (setup : ApiSetup) (callbacks : Callbacks) :
    CallbackServer → CallbackServer → Prop :=
  Relation.ReflTransGen (TakesTurn (turn S setup callbacks) HeightsFit)

variable {S : Backend} {setup : ApiSetup} {callbacks : Callbacks} {store : Store}
  {s s' : CallbackServer}

/-- **The invariant**: what is on the queue, and what has been called, comes from where the stored
invoices come from. -/
structure Sourced (setup : ApiSetup) (callbacks : Callbacks) (store : Store) (s : CallbackServer) :
    Prop where
  matched : s.server.Matched setup
  upholds : s.server.gateway.Upholds (s.server.Origin setup store)
  serving : s.queue.Serving callbacks
  held : ∀ call ∈ s.queue.held, s.server.Origin setup store call.invoice
  called : ∀ invoice ∈ s.called, s.server.Origin setup store invoice

/-- A new server has called nothing back. -/
theorem Sourced.start {inner : PaymentGatewayInner} {scanner : Scanner}
    (hheight : inner.cachedDaemonHeight < u64Size) (hpublished : inner.shared.published = []) :
    Sourced setup callbacks inner.shared.store ⟨.start inner scanner, none, {}, []⟩ where
  matched := .start hheight
  upholds := .start (fun invoice hmem => .inl ⟨invoice, hmem, .refl invoice⟩) hpublished
  serving := .init
  held := nofun
  called := nofun

/-- What a spawned task leaves on the queue is of an invoice that was on it before. -/
theorem held_of_deliver {queue queue' : CallbackQueue} (hserving : queue.Serving callbacks) {i : ℕ}
    (h : queue.deliver callbacks i = some queue') {call : CallbackCall} (hmem : call ∈ queue'.held) :
    ∃ old ∈ queue.held, call.invoice = old.invoice := by
  have hchannel : ∀ call, call ∈ queue.channel.filterMap CallbackCommand.toCall → call ∈ queue.held :=
    fun call => List.mem_append_left _
  have hdelivery : ∀ delivery ∈ queue.deliveries, delivery.toCall ∈ queue.held := fun delivery hmem =>
    List.mem_append_right _ (List.mem_map_of_mem hmem)
  obtain ⟨called, hi, -, rfl⟩ | ⟨called, hi, -, rfl⟩ | ⟨called, hi, -, rfl⟩ :=
    CallbackQueue.deliver_cases hserving h
  · rcases List.mem_append.mp hmem with hmem | hmem
    · exact ⟨call, hchannel call hmem, rfl⟩
    · obtain ⟨delivery, hdel, rfl⟩ := List.mem_map.mp hmem
      exact ⟨_, hdelivery delivery (List.mem_of_mem_eraseIdx hdel), rfl⟩
  · rcases List.mem_append.mp hmem with hmem | hmem
    · exact ⟨call, hchannel call hmem, rfl⟩
    · obtain ⟨delivery, hdel, rfl⟩ := List.mem_map.mp hmem
      rcases List.mem_or_eq_of_mem_set hdel with hdel | rfl
      · exact ⟨_, hdelivery delivery hdel, rfl⟩
      · -- The call that has failed is retried for the same invoice.
        exact ⟨called, hdelivery _ (List.mem_of_getElem? hi), rfl⟩
  · rcases List.mem_append.mp hmem with hmem | hmem
    · rw [List.filterMap_append, List.mem_append] at hmem
      rcases hmem with hmem | hmem
      · exact ⟨call, hchannel call hmem, rfl⟩
      · rw [List.mem_singleton.mp hmem]
        exact ⟨called, hdelivery _ (List.mem_of_getElem? hi), rfl⟩
    · obtain ⟨delivery, hdel, rfl⟩ := List.mem_map.mp hmem
      exact ⟨_, hdelivery delivery (List.mem_of_mem_eraseIdx hdel), rfl⟩

/-- **Every step** keeps the invariant. -/
theorem Sourced.turn (hs : Sourced setup callbacks store s) (hroundTrips : setup.crates.RoundTrips)
    {t : Turn} (hfits : s.HeightsFit t) (h : s.turn S setup callbacks t = some s') :
    Sourced setup callbacks store s' := by
  cases t with
  | server t =>
      obtain ⟨server, hturn, rfl⟩ := Option.map_eq_some_iff.mp h
      obtain ⟨hmatched, -⟩ := hs.matched.turn hroundTrips hfits hturn
      obtain ⟨hupholds, hstays⟩ := hs.matched.origin_turn hroundTrips hs.upholds hfits hturn
      exact ⟨hmatched, hupholds, hs.serving, fun call hmem => hstays _ (hs.held call hmem),
        fun invoice hmem => hstays _ (hs.called invoice hmem)⟩
  | subscribe =>
      simp only [CallbackServer.turn] at h
      split at h
      · cases h
        exact ⟨hs.matched, hs.upholds, hs.serving, hs.held, hs.called⟩
      · cases h
  | put =>
      obtain ⟨received, -, h⟩ := Option.bind_eq_some_iff.mp h
      obtain ⟨invoice, hinvoice, h⟩ := Option.bind_eq_some_iff.mp h
      obtain ⟨queue, hput, rfl⟩ := Option.map_eq_some_iff.mp h
      obtain ⟨-, hroom, rfl⟩ := CallbackQueue.put_cases hput
      have hserving := hs.serving.send ⟨received, invoice, 0, 0⟩ hroom
      refine ⟨hs.matched, hs.upholds, ⟨hserving.running, hserving.no_shutdown, hserving.room⟩,
        fun call hmem => ?_, hs.called⟩
      rcases List.mem_append.mp hmem with hmem | hmem
      · rw [List.filterMap_append, List.mem_append] at hmem
        rcases hmem with hmem | hmem
        · exact hs.held call (List.mem_append_left _ hmem)
        · rw [List.mem_singleton.mp hmem]
          exact hs.upholds.published invoice (List.mem_of_getElem? hinvoice)
      · exact hs.held call (List.mem_append_right _ hmem)
  | receive =>
      obtain ⟨queue, hreceive, rfl⟩ := Option.map_eq_some_iff.mp h
      obtain ⟨hserving, -⟩ := CallbackQueue.step_cases hs.serving ⟨.receive, hreceive⟩
      obtain ⟨call, rest, warnings, hchannel, rfl⟩ := CallbackQueue.receive_cases hs.serving hreceive
      refine ⟨hs.matched, hs.upholds, hserving, fun other hmem => hs.held other ?_, hs.called⟩
      have hreceived : s.queue.channel.filterMap CallbackCommand.toCall
          = call :: rest.filterMap CallbackCommand.toCall := by
        rw [hchannel]
        rfl
      simp only [CallbackQueue.held, hreceived, List.map_append, List.mem_append] at hmem ⊢
      obtain hmem | hmem | hmem := hmem
      · exact .inl (List.mem_cons_of_mem _ hmem)
      · exact .inr hmem
      · rw [List.mem_singleton.mp hmem]
        exact .inl List.mem_cons_self
  | deliver i http =>
      obtain ⟨delivery, hi, h⟩ := Option.bind_eq_some_iff.mp h
      obtain ⟨queue, hdeliver, rfl⟩ := Option.map_eq_some_iff.mp h
      have hserving : s.queue.Serving { callbacks with
          fails := fun _ _ => CallbackClient.fails setup.crates http delivery.toCall.invoice } :=
        ⟨hs.serving.running, hs.serving.no_shutdown, hs.serving.room⟩
      obtain ⟨⟨hrunning, hshutdown, hroom⟩, -⟩ :=
        CallbackQueue.step_cases hserving ⟨.deliver i, hdeliver⟩
      refine ⟨hs.matched, hs.upholds, ⟨hrunning, hshutdown, hroom⟩, fun call hmem => ?_,
        fun invoice hmem => ?_⟩
      · obtain ⟨old, hold, heq⟩ := held_of_deliver hserving hdeliver hmem
        rw [heq]
        exact hs.held old hold
      · rcases List.mem_append.mp hmem with hmem | hmem
        · exact hs.called invoice hmem
        · have hheld := hs.held delivery.toCall
            (List.mem_append_right _ (List.mem_map_of_mem (List.mem_of_getElem? hi)))
          cases delivery with
          | calling call =>
              rw [List.mem_singleton.mp hmem]
              exact hheld
          | sending call => cases hmem

/-- **A whole run** keeps the invariant. -/
theorem Sourced.reaches (hs : Sourced setup callbacks store s)
    (hroundTrips : setup.crates.RoundTrips) (h : Reaches S setup callbacks s s') :
    Sourced setup callbacks store s' :=
  TakesTurn.invariant (Sourced setup callbacks store)
    (fun _ _ _ hs hfits hturn => hs.turn hroundTrips hfits hturn) h hs

/-- **Callbacks are called as they were posted.** Take any run of the server, with requests, scans, the
watch loop and the queue in any order. Whenever a callback has been called, it was for an update of an
invoice that had been stored before the start, or of one that was posted by somebody authorized, who is
answered the update's id. In the second case, whatever comes of HTTP requests: if no callback was
posted none is called, and otherwise the update is sent to the URI that was posted, with the terms that
were posted, and the call fails only if the request does. -/
theorem callbacks_as_posted (hroundTrips : setup.crates.RoundTrips) {inner : PaymentGatewayInner}
    {scanner : Scanner} (hheight : inner.cachedDaemonHeight < u64Size)
    (hpublished : inner.shared.published = [])
    (h : Reaches S setup callbacks ⟨.start inner scanner, none, {}, []⟩ s) {invoice : Invoice}
    (hcalled : invoice ∈ s.called) :
    (∃ old ∈ inner.shared.store.invoices, old.Keeps invoice) ∨
    ∃ (i : ℕ) (authorization : Option String) (payload : NewInvoiceParams) (update : InvoiceUpdate),
      s.server.outcome setup i = some (.http authorization (.newInvoice payload),
        .response ⟨.ok, .invoiceId update.id, true⟩) ∧
      setup.Authorized authorization (.newInvoice payload) ∧
      update.amountRequested = payload.piconerosDue ∧
      update.confirmationsRequired = payload.confirmationsRequired ∧
      update.order = payload.order ∧ update.callback = payload.callback ∧
      ∀ http, CallbackClient.callback setup.crates http invoice = match payload.callback with
        | none => .ok false
        | some uri => (CallbackClient.request setup.crates http update uri).map fun _ => true := by
  have hsourced := (Sourced.start hheight hpublished).reaches hroundTrips h
  obtain hfirst | ⟨i, authorization, payload, houtcome, hauthorized, hposted⟩ :=
    hsourced.called invoice hcalled
  · exact .inl hfirst
  · have hmeets := hposted.meets hroundTrips
    exact .inr ⟨i, authorization, payload, .ofInvoice setup.crates invoice, houtcome, hauthorized,
      hposted.amountRequested, hposted.confirmationsRequired, hmeets.order, hmeets.callback,
      fun http => CallbackClient.callback_of_toJson http hroundTrips hposted.description
        hposted.callback⟩

/-! ## An invoice with a callback -/

/-- A payload with a callback, and its description. -/
def paidPayload : NewInvoiceParams :=
  ⟨1000000, 2, 10, "large pizza", some "https://example.com/paid"⟩

def paidJson : String :=
  "\x7b\"order\":\"large pizza\",\"callback\":\"https://example.com/paid\"\x7d"

/-- Crates that serialize this description. -/
def paidCrates : ApiCrates where
  DecodeError := Unit
  InvalidUri := Unit
  JsonError := Unit
  TeraError := Unit
  engine := libraryEngine
  uriFromStr uri := if uri = "" then .error () else .ok ()
  toJson description :=
    if description = ⟨"large pizza", some "https://example.com/paid"⟩ then .ok paidJson else .error ()
  fromJson json :=
    if json = paidJson then .ok ⟨"large pizza", some "https://example.com/paid"⟩ else .error ()
  render _ := .ok ""

/-- The crates of the example read the description back. -/
theorem paidCrates_roundTrips : paidCrates.RoundTrips := by
  intro description json h
  simp only [paidCrates] at h ⊢
  split at h
  · rename_i hdescription
    cases h
    rw [if_pos rfl, hdescription]
  · cases h

/-- A server that asks for no token. -/
def paidSetup : ApiSetup := ⟨paidCrates, none, none⟩

/-- A queue whose delays do not grow. -/
def paidCallbacks : Callbacks where
  config := .default
  invoice _ := Invoice.new "" ⟨0, 99⟩ 5 1000000 2 10 paidJson
  fails _ _ := false
  longer := id

/-- A server with an empty store on a chain of five blocks. -/
def paidServer : CallbackServer :=
  ⟨.start (.build .empty (fun _ => "") 0 [99] .new 5)
    (Gateway.smallStart System.quietChain .empty).scanner, none, {}, []⟩

/-- Whether the daemon's heights are `u64`. -/
def heightsFit (s : CallbackServer) : Turn → Bool
  | .server (.call _ env) =>
      match env.daemonHeight with
      | .ok height => decide (height < u64Size)
      | .error _ => true
  | .server (.startScan env) =>
      match s.server.gateway.scanning with
      | .between scanner =>
          decide ((scanner.updateCaches env.client).2.blockCache.daemonHeight < u64Size)
      | .during _ => true
  | _ => true

/-- The check of a turn of the example says that its heights fit. -/
theorem heightsFit_iff {t : Turn} (h : s.heightsFit t = true) : s.HeightsFit t := by
  cases t with
  | server t =>
      cases t with
      | call c env =>
          intro height hok
          simp only [heightsFit, hok] at h
          exact of_decide_eq_true h
      | startScan env =>
          intro scanner hscanning
          simp only [heightsFit, hscanning] at h
          exact of_decide_eq_true h
      | _ => trivial
  | _ => trivial

/-- The invoice is posted, scanned and published, and its callback is called. -/
def paidTurns : List Turn :=
  .subscribe :: .server (.receive (.http none (.newInvoice paidPayload))) ::
    List.replicate 4 (.server (.call 0 {})) ++ .server (.startScan (plainEnv System.quietChain)) ::
    List.replicate 3 (.server .scanner) ++ [.put, .receive, .deliver 0 fun _ => .response 200]

/-- The run of the example ends with one callback. -/
theorem paid_run : ∃ s, Reaches .exact paidSetup paidCallbacks paidServer s ∧ s.called.length = 1 ∧
    s.server.exchanges.map HttpExchange.asked = [.http none (.newInvoice paidPayload)] := by
  have hend : (replay (turn .exact paidSetup paidCallbacks) heightsFit paidTurns paidServer).map
      (fun s => (s.called.length, s.server.exchanges.map HttpExchange.asked))
      = some (1, [.http none (.newInvoice paidPayload)]) := by decide +kernel
  obtain ⟨s, hs, heq⟩ := Option.map_eq_some_iff.mp hend
  obtain ⟨hlength, hasked⟩ := Prod.mk.inj heq
  exact ⟨s, replay_run (fun _ _ => heightsFit_iff) hs, hlength, hasked⟩

/-- The posted callback is called with what was posted. -/
theorem callbacks_as_posted_paid :
    ∃ s, Reaches .exact paidSetup paidCallbacks paidServer s ∧ ∃ invoice ∈ s.called,
      ∃ update : InvoiceUpdate, update.amountRequested = 1000000 ∧ update.order = "large pizza" ∧
        ∀ http, CallbackClient.callback paidCrates http invoice
          = (CallbackClient.request paidCrates http update "https://example.com/paid").map
            fun _ => true := by
  obtain ⟨s, hreaches, hlength, hasked⟩ := paid_run
  obtain ⟨invoice, hcalled⟩ := List.length_eq_one_iff.mp hlength
  have hmem : invoice ∈ s.called := by
    rw [hcalled]
    exact List.mem_singleton_self invoice
  obtain ⟨old, hold, -⟩ | ⟨i, authorization, payload, update, houtcome, -, hamount, -, horder, -, hcall⟩ :=
    callbacks_as_posted paidCrates_roundTrips (by decide) rfl hreaches hmem
  · cases hold
  · -- The only exchange is the one that has posted the invoice.
    obtain ⟨handling, hi⟩ := HttpServer.asked_of_outcome houtcome
    have hexchange := List.mem_map_of_mem (f := HttpExchange.asked) (List.mem_of_getElem? hi)
    rw [hasked, List.mem_singleton] at hexchange
    cases hexchange
    exact ⟨s, hreaches, invoice, hmem, update, hamount, horder, hcall⟩

end CallbackServer

end AcceptXmr
