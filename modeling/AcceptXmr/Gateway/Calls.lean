import AcceptXmr.Library.Replay
import AcceptXmr.Caching.SubaddressCache
import AcceptXmr.Pubsub.Publisher
import AcceptXmr.Scanner.Publishing

/-! # Calls on a running gateway

`new_invoice` and `remove_invoice` of `library/src/payment_gateway.rs`, called by any number of
clients while the scanner scans. A call takes a lock or sends a storage request, releases it and
goes on: it is a machine whose steps those of other calls and of the scan come between.

* **`Call.advance`** — one step of a call.
* **`System.turn`** — one step of a call or of the scanner.
* **`turn_cases`** — everything that a step can do. -/

namespace AcceptXmr

/-- What the calls on a gateway return besides their results. -/
inductive AcceptXmrError where
  /-- An error originating from a monero daemon RPC call. -/
  | rpc (e : RpcError)
  /-- An error storing or retrieving data from the storage layer. -/
  | storage (e : StorageError)
  /-- Blockchain scanner encountered an error. -/
  | scanner (e : ScannerError)
  /-- Payment gateway is already running. -/
  | alreadyRunning
  deriving DecidableEq, Repr

/-- What the clones of a gateway share. -/
structure PaymentGatewayInner where
  shared : Shared
  subaddresses : SubaddressCache
  publisher : Publisher
  /-- Zero before the first scanner is created. -/
  cachedDaemonHeight : ℕ

/-- A gateway on a store, with the subaddresses that `build` prepares. Publisher and daemon height
are empty and zero then; they are parameters since a `run` before the calls changes them. -/
def PaymentGatewayInner.build (store : Store) (viewpair : SubIndex → String) (majorIndex : UInt32)
    (rng : List ℕ) (publisher : Publisher) (cachedDaemonHeight : ℕ) : PaymentGatewayInner where
  shared := { store := store }
  subaddresses := SubaddressCache.init store viewpair majorIndex rng
  publisher := publisher
  cachedDaemonHeight := cachedDaemonHeight

/-- The arguments of `new_invoice`. -/
structure InvoiceArgs where
  piconeros : ℕ
  confirmationsRequired : ℕ
  expirationIn : ℕ
  description : String
  deriving DecidableEq

/-- Where a call stands. -/
inductive Call where
  | newInvoice (args : InvoiceArgs)
  /-- A subaddress has been taken. -/
  | addressed (args : InvoiceArgs) (subIndex : SubIndex) (subaddress : String)
  /-- The invoice object has been created. -/
  | created (invoice : Invoice)
  /-- The invoice has been stored. -/
  | inserted (id : InvoiceId)
  | newInvoiceReturned (result : Except AcceptXmrError InvoiceId)
  | removeInvoice (id : InvoiceId)
  /-- The invoice is not stored any more. -/
  | removed (id : InvoiceId) (old : Invoice)
  /-- The subaddress has been put back. -/
  | putBack (id : InvoiceId) (old : Invoice)
  | removeInvoiceReturned (result : Except AcceptXmrError (Option Invoice))
  /-- `new_invoice` found no available subaddress. -/
  | panicked
  deriving DecidableEq

/-- What a step of a call meets: the daemon's answer, and a storage request that fails. -/
structure CallEnv where
  daemonHeight : Except RpcError ℕ := .error .request
  fault : Option StorageError := none

namespace Call

/-- **One step of a call**; none if the call has returned. -/
def advance (S : Backend) (env : CallEnv) (inner : PaymentGatewayInner) :
    Call → Option (Call × PaymentGatewayInner)
  | .newInvoice args =>
      -- The lock on the subaddress cache is held for this step only.
      match inner.subaddresses.removeRandom with
      | none => some (.panicked, inner)
      | some ((subIndex, subaddress), subaddresses) =>
          some (.addressed args subIndex subaddress, { inner with subaddresses := subaddresses })
  | .addressed args subIndex subaddress =>
      let invoice := fun creationHeight => Invoice.new subaddress subIndex creationHeight
        args.piconeros args.confirmationsRequired args.expirationIn args.description
      -- A cached height of zero means that it is not known yet.
      if inner.cachedDaemonHeight ≠ 0 then
        some (.created (invoice inner.cachedDaemonHeight), inner)
      else
        match env.daemonHeight with
        | .error e => some (.newInvoiceReturned (.error (.rpc e)), inner)
        | .ok creationHeight => some (.created (invoice creationHeight), inner)
  | .created invoice =>
      match env.fault with
      | some e => some (.newInvoiceReturned (.error (.storage e)), inner)
      | none =>
          -- `?` returns at once: the subaddress that has been taken is not put back.
          match handle S (.insertInvoice invoice) inner.shared with
          | (.error e, shared) =>
              some (.newInvoiceReturned (.error (.storage e)), { inner with shared := shared })
          | (.ok _, shared) => some (.inserted invoice.id, { inner with shared := shared })
  | .inserted id =>
      some (.newInvoiceReturned (.ok id),
        { inner with publisher := inner.publisher.insertInvoice id })
  | .removeInvoice id =>
      match env.fault with
      | some e => some (.removeInvoiceReturned (.error (.storage e)), inner)
      | none =>
          match handle S (.removeInvoice id) inner.shared with
          | (.error e, shared) =>
              some (.removeInvoiceReturned (.error (.storage e)), { inner with shared := shared })
          -- No such invoice: subaddress and subscriptions are left alone.
          | (.ok none, shared) =>
              some (.removeInvoiceReturned (.ok none), { inner with shared := shared })
          | (.ok (some old), shared) => some (.removed id old, { inner with shared := shared })
  | .removed id old =>
      some (.putBack id old,
        { inner with subaddresses := inner.subaddresses.insert id.subIndex old.address })
  | .putBack id old =>
      some (.removeInvoiceReturned (.ok (some old)),
        { inner with publisher := inner.publisher.removeInvoice id })
  | .newInvoiceReturned _ | .removeInvoiceReturned _ | .panicked => none

/-- Whether a call is in progress. -/
def inProgress : Call → Bool
  | .newInvoiceReturned _ | .removeInvoiceReturned _ | .panicked => false
  | _ => true

/-- **Everything that a step of a call can do.** -/
inductive Advances (inner : PaymentGatewayInner) (env : CallEnv) :
    Call → Call → PaymentGatewayInner → Prop where
  | addressed {args : InvoiceArgs} {subIndex : SubIndex} {subaddress : String}
      {subaddresses : SubaddressCache}
      (h : inner.subaddresses.removeRandom = some ((subIndex, subaddress), subaddresses)) :
      Advances inner env (.newInvoice args) (.addressed args subIndex subaddress)
        { inner with subaddresses := subaddresses }
  | panicked {args : InvoiceArgs} : Advances inner env (.newInvoice args) .panicked inner
  | created {args : InvoiceArgs} {subIndex : SubIndex} {subaddress : String} (creationHeight : ℕ)
      (h : inner.cachedDaemonHeight ≠ 0 → creationHeight = inner.cachedDaemonHeight) :
      Advances inner env (.addressed args subIndex subaddress)
        (.created (Invoice.new subaddress subIndex creationHeight args.piconeros
          args.confirmationsRequired args.expirationIn args.description)) inner
  | unanswered {args : InvoiceArgs} {subIndex : SubIndex} {subaddress : String}
      (e : AcceptXmrError) :
      Advances inner env (.addressed args subIndex subaddress) (.newInvoiceReturned (.error e)) inner
  | inserted {invoice : Invoice} {store : Store}
      (hfault : env.fault = none) (h : inner.shared.store.insertInvoice invoice = .ok store) :
      Advances inner env (.created invoice) (.inserted invoice.id)
        { inner with shared := { inner.shared with store := store } }
  | notInserted {invoice : Invoice} (e : AcceptXmrError)
      (h : env.fault ≠ none ∨ invoice.id ∈ inner.shared.store.getIds) :
      Advances inner env (.created invoice) (.newInvoiceReturned (.error e)) inner
  | registered {id : InvoiceId} : Advances inner env (.inserted id) (.newInvoiceReturned (.ok id))
      { inner with publisher := inner.publisher.insertInvoice id }
  | removed {id : InvoiceId} {old : Invoice} (hfault : env.fault = none)
      (h : inner.shared.store.getInvoice id = some old) :
      Advances inner env (.removeInvoice id) (.removed id old)
        { inner with shared := { inner.shared with store := inner.shared.store.removeInvoice id } }
  | notRemoved {id : InvoiceId} (result : Except AcceptXmrError (Option Invoice)) :
      Advances inner env (.removeInvoice id) (.removeInvoiceReturned result) inner
  | putBack {id : InvoiceId} {old : Invoice} : Advances inner env (.removed id old) (.putBack id old)
      { inner with subaddresses := inner.subaddresses.insert id.subIndex old.address }
  | unregistered {id : InvoiceId} {old : Invoice} :
      Advances inner env (.putBack id old) (.removeInvoiceReturned (.ok (some old)))
        { inner with publisher := inner.publisher.removeInvoice id }

/-- A step of a call is one of those listed in `Advances`, which later proofs split instead of the code.
-/
theorem advance_cases {S : Backend} {env : CallEnv} {inner inner' : PaymentGatewayInner}
    {call call' : Call} (h : call.advance S env inner = some (call', inner')) :
    Advances inner env call call' inner' := by
  cases call with
  | newInvoice args =>
      simp only [advance] at h
      split at h
      · cases h
        exact .panicked
      · rename_i hremove
        cases h
        exact .addressed hremove
  | addressed args subIndex subaddress =>
      simp only [advance] at h
      split at h
      · cases h
        exact .created _ fun _ => rfl
      · rename_i hzero
        split at h
        · cases h
          exact .unanswered _
        · cases h
          exact .created _ fun hne => absurd hne hzero
  | created invoice =>
      simp only [advance, handle, serve] at h
      split at h
      · rename_i hfault
        cases h
        exact .notInserted _ (.inl (by simp [hfault]))
      · rename_i hfault
        cases hinsert : inner.shared.store.insertInvoice invoice with
        | error e =>
            simp only [hinsert, Except.mapError] at h
            cases h
            exact .notInserted _ (.inr (Store.mem_getIds_of_insertInvoice hinsert))
        | ok store =>
            simp only [hinsert, Except.mapError] at h
            cases h
            exact .inserted hfault hinsert
  | inserted id =>
      cases h
      exact .registered
  | removeInvoice id =>
      simp only [advance, handle, serve] at h
      split at h
      · cases h
        exact .notRemoved _
      · rename_i hfault
        cases hget : inner.shared.store.getInvoice id with
        | none =>
            -- Nothing is stored under the id, and removing it changes nothing.
            simp only [hget, Except.mapError, Store.removeInvoice_of_getInvoice hget] at h
            cases h
            exact .notRemoved _
        | some old =>
            simp only [hget, Except.mapError] at h
            cases h
            exact .removed hfault hget
  | removed id old =>
      cases h
      exact .putBack
  | putBack id old =>
      cases h
      exact .unregistered
  | newInvoiceReturned result => cases h
  | removeInvoiceReturned result => cases h
  | panicked => cases h

end Call

/-! ## Calls and scans at the same time -/

/-- A gateway with its scanner and the calls made on it so far. -/
structure System where
  inner : PaymentGatewayInner
  calls : List Call
  scanning : Scanning

/-- Whose turn it is. -/
inductive System.Turn where
  | newInvoice (args : InvoiceArgs)
  | removeInvoice (id : InvoiceId)
  | call (i : ℕ) (env : CallEnv)
  | startScan (env : ScanEnv)
  | scanner

namespace System

/-- A gateway before any call. -/
def start (inner : PaymentGatewayInner) (scanner : Scanner) : System :=
  ⟨inner, [], .between scanner⟩

/-- The stored invoices. -/
abbrev invoices (self : System) : List Invoice := self.inner.shared.store.invoices

/-- The next step of one of the calls. -/
def callStep (S : Backend) (env : CallEnv) (i : ℕ) (self : System) : Option System :=
  match self.calls[i]? with
  | none => none
  | some call =>
      match call.advance S env self.inner with
      | none => none
      | some (call', inner) => some { self with inner := inner, calls := self.calls.set i call' }

/-- The next scan. It first learns the daemon's height, which the calls see from then on. -/
def startScan (env : ScanEnv) (self : System) : Option System :=
  match self.scanning with
  | .during _ => none
  | .between scanner => some { self with
      inner := { self.inner with
        shared := { self.inner.shared with faults := env.faults }
        cachedDaemonHeight := (scanner.updateCaches env.client).2.blockCache.daemonHeight }
      scanning := .during (scanner.scan env) }

/-- The next step of a scan: a request is served. -/
def scanStep (S : Backend) (self : System) : Option System :=
  match self.scanning with
  | .between _ => none
  | .during (.done (.ok (_, scanner))) => some { self with scanning := .between scanner }
  | .during (.done (.error _)) => none
  | .during (.call req next) => some { self with
      inner := { self.inner with shared := (handle S req self.inner.shared).2 }
      scanning := .during (next (handle S req self.inner.shared).1) }

/-- **One step of the system.** -/
def turn (S : Backend) (self : System) : Turn → Option System
  | .newInvoice args => some { self with calls := self.calls ++ [.newInvoice args] }
  | .removeInvoice id => some { self with calls := self.calls ++ [.removeInvoice id] }
  | .call i env => self.callStep S env i
  | .startScan env => self.startScan env
  | .scanner => self.scanStep S

/-- **A step of a run** in which only turns are taken that are `allowed`. -/
def Step (S : Backend) (allowed : System → Turn → Prop) (s s' : System) : Prop :=
  ∃ t : Turn, allowed s t ∧ s.turn S t = some s'

/-- The runs in which every turn is allowed. -/
def Reaches (S : Backend) (allowed : System → Turn → Prop) : System → System → Prop :=
  Relation.ReflTransGen (Step S allowed)

/-- Every turn is allowed. -/
def anyTurn : System → Turn → Prop := fun _ _ => True

/-! ## Taking the steps apart -/

variable {S : Backend} {allowed : System → Turn → Prop} {s s' : System}

/-- **Everything that a step can do.** -/
inductive Turns (S : Backend) (s : System) : Turn → System → Prop where
  | newInvoice (args : InvoiceArgs) :
      Turns S s (.newInvoice args) { s with calls := s.calls ++ [.newInvoice args] }
  | removeInvoice (id : InvoiceId) :
      Turns S s (.removeInvoice id) { s with calls := s.calls ++ [.removeInvoice id] }
  | call {env : CallEnv} {front back : List Call} {call call' : Call} {inner : PaymentGatewayInner}
      (hcalls : s.calls = front ++ call :: back) (h : Call.Advances s.inner env call call' inner) :
      Turns S s (.call front.length env) ⟨inner, front ++ call' :: back, s.scanning⟩
  | startScan {env : ScanEnv} {scanner : Scanner} (hscanning : s.scanning = .between scanner) :
      Turns S s (.startScan env) { s with
        inner := { s.inner with
          shared := { s.inner.shared with faults := env.faults }
          cachedDaemonHeight := (scanner.updateCaches env.client).2.blockCache.daemonHeight }
        scanning := .during (scanner.scan env) }
  | finished {result : Except ScannerError Unit} {scanner : Scanner}
      (hscanning : s.scanning = .during (.done (.ok (result, scanner)))) :
      Turns S s .scanner { s with scanning := .between scanner }
  | served {req : Request}
      {next : req.Response → Program (Except ScannerError Unit × Scanner)}
      (hscanning : s.scanning = .during (.call req next)) :
      Turns S s .scanner { s with
        inner := { s.inner with shared := (handle S req s.inner.shared).2 }
        scanning := .during (next (handle S req s.inner.shared).1) }

/-- A call of the system that takes a step. -/
theorem callStep_cases {env : CallEnv} {i : ℕ} (h : s.callStep S env i = some s') :
    Turns S s (.call i env) s' := by
  unfold callStep at h
  split at h
  · cases h
  · rename_i call hget
    split at h
    · cases h
    · rename_i call' inner hadvance
      cases h
      -- The call stands behind the first `i` calls, and only its place in the list changes.
      obtain ⟨hlt, -⟩ := List.getElem?_eq_some_iff.mp hget
      obtain ⟨hsplit, hlen⟩ := split_of_getElem? hget
      have hturns : Turns S s (.call (s.calls.take i).length env) _ :=
        .call hsplit (Call.advance_cases hadvance)
      rw [hlen] at hturns
      rw [List.set_eq_take_append_cons_drop, if_pos hlt]
      exact hturns

/-- A turn of the system is one of those listed in `Turns`. -/
theorem turn_cases {t : Turn} (h : s.turn S t = some s') : Turns S s t s' := by
  cases t with
  | newInvoice args =>
      cases h
      exact .newInvoice args
  | removeInvoice id =>
      cases h
      exact .removeInvoice id
  | call i env => exact callStep_cases h
  | startScan env =>
      simp only [turn, startScan] at h
      split at h
      · cases h
      · rename_i scanner hscanning
        cases h
        exact .startScan hscanning
  | scanner =>
      simp only [turn, scanStep] at h
      split at h
      · cases h
      · rename_i result scanner hscanning
        cases h
        exact .finished hscanning
      · cases h
      · rename_i req next hscanning
        cases h
        exact .served hscanning

/-- What holds of all calls still does after a step of one of them. -/
theorem forall_calls_set {P : Call → Prop} {front back : List Call} {call call' : Call}
    (hcalls : s.calls = front ++ call :: back) (h : ∀ c ∈ s.calls, P c) (hnew : P call') :
    ∀ c ∈ front ++ call' :: back, P c := by
  intro c hc
  rw [List.mem_append, List.mem_cons] at hc
  rcases hc with hc | rfl | hc
  · exact h c (by rw [hcalls]; exact List.mem_append_left _ hc)
  · exact hnew
  · exact h c (by rw [hcalls]; exact List.mem_append_right _ (List.mem_cons_of_mem _ hc))

/-- What is known of the running scan: it publishes what it has saved, and neither creates nor
removes invoices. -/
def SoundScan (s : System) : Prop :=
  ∀ program, s.scanning = .during program → ∃ saved, Program.PublishesSaved saved program

/-- At the start no scan is running, so that there is nothing to know. -/
theorem SoundScan.start (inner : PaymentGatewayInner) (scanner : Scanner) :
    SoundScan (start inner scanner) := nofun

/-- Every turn keeps it: a new scan publishes only what it saves, and so does the rest of it after each answer. -/
theorem SoundScan.turns (hs : SoundScan s) {t : Turn} (h : Turns S s t s') : SoundScan s' := by
  intro program hprogram
  cases h with
  | newInvoice args => exact hs program hprogram
  | removeInvoice id => exact hs program hprogram
  | call hcalls hadvances => exact hs program hprogram
  | startScan hscanning =>
      cases hprogram
      exact ⟨none, Scanner.scan_follows _ _⟩
  | finished hscanning => cases hprogram
  | served hscanning =>
      cases hprogram
      obtain ⟨saved, -, hnext⟩ := hs _ hscanning
      exact ⟨_, hnext _⟩

/-- **A scan keeps the ids of the stored invoices.** -/
theorem SoundScan.getIds_served (hs : SoundScan s) {req : Request}
    {next : req.Response → Program (Except ScannerError Unit × Scanner)}
    (hscanning : s.scanning = .during (.call req next)) :
    (handle S req s.inner.shared).2.store.getIds = s.inner.shared.store.getIds := by
  obtain ⟨saved, hallowed, -⟩ := hs _ hscanning
  exact handle_getIds S s.inner.shared hallowed

/-- **Invariants of runs**: what a step preserves as long as the scan is sound holds at the end of
every run. -/
theorem Reaches.invariant {P : System → Prop}
    (hstep : ∀ s s' t, SoundScan s → P s → allowed s t → Turns S s t s' → P s')
    (h : Reaches S allowed s s') (hs : SoundScan s) (hP : P s) : SoundScan s' ∧ P s' := by
  have hrun : Relation.ReflTransGen (TakesTurn (turn S) allowed) s s' := h
  refine TakesTurn.invariant (fun s => SoundScan s ∧ P s) ?_ hrun ⟨hs, hP⟩
  intro s s' t ih ht hturn
  have hturns := turn_cases hturn
  exact ⟨ih.1.turns hturns, hstep _ _ t ih.1 ih.2 ht hturns⟩

/-! ## Runs by turns -/

/-- The end of a run by turns, which stops where a turn is not possible or fails the check. -/
def after (S : Backend) (check : System → Turn → Bool) : List Turn → System → Option System :=
  replay (turn S) check

/-- Turns that can be replayed and pass the check are a run in which they are allowed. -/
theorem after_reaches {check : System → Turn → Bool}
    (hcheck : ∀ s t, check s t = true → allowed s t) {turns : List Turn}
    (h : after S check turns s = some s') : Reaches S allowed s s' := replay_run hcheck h

/-- A scanner that has not seen anything. -/
def idleScanner : Scanner := ⟨⟨0, 0, []⟩, ⟨[], []⟩, true⟩

/-- A gateway for account 0 at daemon height 5, whose random draws are given. -/
def small (store : Store) (rng : List ℕ) : System :=
  start (.build store (fun _ => "") 0 rng .new 5) idleScanner

/-- An invoice to ask for. -/
def smallArgs : InvoiceArgs := ⟨10, 1, 100, ""⟩

end System

end AcceptXmr
