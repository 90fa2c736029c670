import AcceptXmr.Gateway.Calls
import AcceptXmr.Invoice.Uri
import AcceptXmr.Server.Expiry
import AcceptXmr.Server.InvoiceId

/-! # The handlers of the HTTP API

`server/src/server/api` and `server/src/server/auth.rs`. A handler looks at the request, calls the
gateway and makes a response of the result: each is two functions here, one before and one after its
call. Requests come as routing and extraction hand them over.

* **`fromJsonOrAny_of_toJson`** — a description gives back the order and the callback it was made of. -/

namespace AcceptXmr

/-- What the description of an invoice holds. -/
structure InvoiceDescription where
  order : String
  callback : Option String
  deriving DecidableEq, Repr

/-- An invoice update meant to be sent over the HTTP API. -/
structure InvoiceUpdate where
  /-- The un-padded URL-safe base64 encoded id of the invoice. -/
  id : Base64InvoiceId
  address : String
  /-- The payment URI. -/
  uri : Text
  amountRequested : ℕ
  amountPaid : ℕ
  confirmationsRequired : ℕ
  /-- None if the invoice is not fully paid yet. -/
  confirmations : Option ℕ
  expirationIn : ℕ
  currentHeight : ℕ
  order : String
  callback : Option String
  deriving DecidableEq, Repr

/-- A template with what it is rendered from. -/
inductive Page where
  /-- `pay.html`. -/
  | pay (invoice : InvoiceUpdate)
  /-- `missing-invoice.html`. -/
  | missingInvoice (invoiceId : Base64InvoiceId)
  /-- `error.html`. -/
  | error (e : AcceptXmrError)
  deriving DecidableEq

/-- What the API uses of other crates, with their errors. -/
structure ApiCrates where
  DecodeError : Type
  InvalidUri : Type
  JsonError : Type
  TeraError : Type
  /-- `URL_SAFE_NO_PAD`. -/
  engine : Base64Engine DecodeError
  /-- `Uri::from_str`. -/
  uriFromStr : String → Except InvalidUri Unit
  /-- `serde_json::to_string`. -/
  toJson : InvoiceDescription → Except JsonError String
  /-- `serde_json::from_str`. -/
  fromJson : String → Except JsonError InvoiceDescription
  /-- `Tera::render`. -/
  render : Page → Except TeraError String

/-- What has been serialized is deserialized again. -/
def ApiCrates.RoundTrips (crates : ApiCrates) : Prop :=
  ∀ description json, crates.toJson description = .ok json → crates.fromJson json = .ok description

/-- The status codes that the handlers answer with. -/
inductive StatusCode where
  | ok
  | badRequest
  | unauthorized
  | notFound
  | internalServerError
  deriving DecidableEq, Repr

/-- The body of a response. -/
inductive ResponseBody where
  | empty
  | text (message : String)
  /-- `InvoiceIdPayload`. -/
  | invoiceId (invoiceId : Base64InvoiceId)
  | invoiceIds (invoiceIds : List Base64InvoiceId)
  | update (invoice : InvoiceUpdate)
  | html (page : String)
  deriving DecidableEq

/-- A response. -/
structure ApiResponse where
  status : StatusCode
  body : ResponseBody
  /-- `Cache-Control: no-store` is set. -/
  noStore : Bool := true
  deriving DecidableEq

/-- An error that can be sent back over the API to the client. -/
inductive ApiError (crates : ApiCrates) where
  /-- An error originating from the library. -/
  | acceptXmr (e : AcceptXmrError)
  /-- Failed to serialize the invoice description. -/
  | descriptionSerialization (e : crates.JsonError)
  /-- Invalid callback URI. -/
  | invalidCallback (e : crates.InvalidUri)
  /-- Failed to build HTTP response. -/
  | invalidResponse
  /-- Invoice not found. -/
  | invoiceNotFound (id : InvoiceId)
  /-- Invalid invoice ID. -/
  | invalidInvoiceId (e : InvoiceIdParseError crates.DecodeError)
  /-- Missing static resource. -/
  | missingResource
  /-- Templating error. -/
  | templatingError (e : crates.TeraError)

namespace ApiError

variable {crates : ApiCrates}

/-- `status_code`. -/
def statusCode : ApiError crates → StatusCode
  | .acceptXmr _ | .invalidResponse | .templatingError _ => .internalServerError
  | .invalidInvoiceId _ | .descriptionSerialization _ | .invalidCallback _ => .badRequest
  | .missingResource | .invoiceNotFound _ => .notFound

/-- `message`. -/
def message : ApiError crates → String
  | .acceptXmr _ => "Internal payment gateway error"
  | .descriptionSerialization _ => "Failed to serialize invoice description"
  | .invalidCallback _ => "Callback is not a valid URI"
  | .invalidResponse => "Failed to build HTTP response"
  | .invoiceNotFound _ => "Invoice not found"
  | .invalidInvoiceId _ => "Invalid invoice ID"
  | .missingResource => "Missing static resource"
  | .templatingError _ => "Failed to render template"

/-- `into_response`. -/
def intoResponse (self : ApiError crates) : ApiResponse where
  status := self.statusCode
  body := .text self.message
  noStore := false

end ApiError

/-- The response to a handler's result. -/
def ApiResponse.ofResult {crates : ApiCrates} : Except (ApiError crates) ApiResponse → ApiResponse
  | .ok response => response
  | .error e => e.intoResponse

/-- `MaybeBearer::validate`, on the token of the server and the header of the request. -/
def MaybeBearer.validate (token authorization : Option String) : Except ApiResponse Unit :=
  match token with
  | none => .ok ()
  | some token =>
      match authorization with
      | some actual =>
          if actual = "Bearer " ++ token then .ok () else .error ⟨.unauthorized, .empty, false⟩
      | none => .error ⟨.unauthorized, .empty, false⟩

variable (crates : ApiCrates)

/-- `InvoiceDescription::from_json_or_any`: what is not JSON is an order. -/
def InvoiceDescription.fromJsonOrAny (value : String) : InvoiceDescription :=
  match crates.fromJson value with
  | .ok description => description
  | .error _ => ⟨value, none⟩

/-- **A serialized description** is read back as it was. -/
theorem fromJsonOrAny_of_toJson {crates : ApiCrates} (h : crates.RoundTrips)
    {description : InvoiceDescription} {json : String} (hjson : crates.toJson description = .ok json) :
    InvoiceDescription.fromJsonOrAny crates json = description := by
  rw [InvoiceDescription.fromJsonOrAny, h description json hjson]

/-- `From<Invoice> for InvoiceUpdate`. -/
def InvoiceUpdate.ofInvoice (value : Invoice) : InvoiceUpdate :=
  let description := InvoiceDescription.fromJsonOrAny crates value.description
  { id := .ofId crates.engine value.id
    address := value.address
    uri := value.uri
    amountRequested := value.amountRequested
    amountPaid := value.amountPaid
    confirmationsRequired := value.confirmationsRequired
    confirmations := value.confirmations
    expirationIn := value.expirationIn
    currentHeight := value.currentHeight
    order := description.order
    callback := description.callback }

/-- `NewInvoiceParams`. -/
structure NewInvoiceParams where
  piconerosDue : ℕ
  confirmationsRequired : ℕ
  expirationIn : ℕ
  order : String
  callback : Option String
  deriving DecidableEq

/-! ## The internal API -/

/-- The callback check of `new_invoice`. -/
def checkCallback : Option String → Except (ApiError crates) Unit
  | none => .ok ()
  | some callback => (crates.uriFromStr callback).mapError .invalidCallback

/-- `new_invoice`, up to its call of the gateway. -/
def newInvoiceCall (payload : NewInvoiceParams) : Except (ApiError crates) InvoiceArgs := do
  checkCallback crates payload.callback
  let description ← (crates.toJson ⟨payload.order, payload.callback⟩).mapError
    .descriptionSerialization
  pure ⟨payload.piconerosDue, payload.confirmationsRequired, payload.expirationIn, description⟩

/-- `new_invoice`, from the gateway's result on. -/
def newInvoiceAnswer (result : Except AcceptXmrError InvoiceId) : Except (ApiError crates) ApiResponse :=
  match result with
  | .ok invoiceId => .ok ⟨.ok, .invoiceId (.ofId crates.engine invoiceId), true⟩
  | .error e => .error (.acceptXmr e)

/-- `InvoiceId::try_from`, of a handler's query. -/
def queryId (id : Base64InvoiceId) : Except (ApiError crates) InvoiceId :=
  (id.toId crates.engine).mapError .invalidInvoiceId

/-- `delete_invoice`, from the gateway's result on. -/
def deleteInvoiceAnswer (result : Except AcceptXmrError (Option Invoice)) :
    Except (ApiError crates) ApiResponse :=
  match result with
  | .ok (some _) => .ok ⟨.ok, .empty, true⟩
  | .ok none => .ok ⟨.notFound, .empty, true⟩
  | .error e => .error (.acceptXmr e)

/-- `invoice_ids`, from the gateway's result on. -/
def invoiceIdsAnswer (result : Except AcceptXmrError (List InvoiceId)) :
    Except (ApiError crates) ApiResponse :=
  match result with
  | .ok ids => .ok ⟨.ok, .invoiceIds (ids.map (.ofId crates.engine)), true⟩
  | .error e => .error (.acceptXmr e)

/-! ## The external API -/

/-- `get_invoice_status`, from the gateway's result on. -/
def getInvoiceStatusAnswer (invoiceId : InvoiceId) (result : Except AcceptXmrError (Option Invoice)) :
    Except (ApiError crates) ApiResponse :=
  match result with
  | .ok (some invoice) => .ok ⟨.ok, .update (.ofInvoice crates invoice), true⟩
  | .ok none => .error (.invoiceNotFound invoiceId)
  | .error e => .error (.acceptXmr e)

/-- A page that `pay` answers with. -/
def payPage (status : StatusCode) (page : Page) : Except (ApiError crates) ApiResponse :=
  match crates.render page with
  | .ok html => .ok ⟨status, .html html, true⟩
  | .error e => .error (.templatingError e)

/-- `pay`, from the gateway's result on. -/
def payAnswer (invoiceId : InvoiceId) (result : Except AcceptXmrError (Option Invoice)) :
    Except (ApiError crates) ApiResponse :=
  match result with
  | .ok (some invoice) => payPage crates .ok (.pay (.ofInvoice crates invoice))
  | .ok none => payPage crates .notFound (.missingInvoice (.ofId crates.engine invoiceId))
  | .error e => payPage crates .internalServerError (.error e)

/-! ## What the calls of the gateway read -/

/-- `PaymentGateway::get_invoice`. -/
def PaymentGatewayInner.getInvoice (S : Backend) (fault : Option StorageError) (id : InvoiceId)
    (self : PaymentGatewayInner) : Except AcceptXmrError (Option Invoice) :=
  match fault with
  | some e => .error (.storage e)
  | none => (handle S (.getInvoice id) self.shared).1.mapError .storage

/-- `PaymentGateway::get_invoice_ids`. -/
def PaymentGatewayInner.getInvoiceIds (S : Backend) (fault : Option StorageError)
    (self : PaymentGatewayInner) : Except AcceptXmrError (List InvoiceId) :=
  match fault with
  | some e => .error (.storage e)
  | none => (handle S .getInvoiceIds self.shared).1.mapError .storage

/-- A read that does not fail finds what is stored. -/
theorem getInvoice_eq (S : Backend) (id : InvoiceId) (self : PaymentGatewayInner) :
    self.getInvoice S none id = .ok (self.shared.store.getInvoice id) := rfl

/-- The calls that `new_invoice` makes ask for what the payload asks for. -/
theorem newInvoiceCall_eq_ok {crates : ApiCrates} {payload : NewInvoiceParams} {args : InvoiceArgs}
    (h : newInvoiceCall crates payload = .ok args) :
    args.piconeros = payload.piconerosDue ∧
      args.confirmationsRequired = payload.confirmationsRequired ∧
      args.expirationIn = payload.expirationIn ∧
      crates.toJson ⟨payload.order, payload.callback⟩ = .ok args.description ∧
      ∀ callback, payload.callback = some callback → ∃ u, crates.uriFromStr callback = .ok u := by
  unfold newInvoiceCall at h
  cases hcheck : checkCallback crates payload.callback with
  | error e =>
      rw [hcheck] at h
      cases h
  | ok u =>
      rw [hcheck] at h
      cases hjson : crates.toJson ⟨payload.order, payload.callback⟩ with
      | error e =>
          rw [hjson] at h
          cases h
      | ok json =>
          rw [hjson] at h
          cases h
          refine ⟨rfl, rfl, rfl, rfl, fun callback hcallback => ?_⟩
          rw [hcallback, checkCallback] at hcheck
          cases huri : crates.uriFromStr callback with
          | ok u => exact ⟨u, rfl⟩
          | error e =>
              rw [huri] at hcheck
              cases hcheck

end AcceptXmr
