import AcceptXmr.Server.Exchanges

/-! # Runs of the server

Every exchange takes effect in one step, the one that decides its answer, and scans leave the ledger
alone as long as no invoice is stored under an id that the running scan has still to save.

* **`api_linearizes`** — the server answers as if it handled one request after the other.
* **`posted_until_removed`** — an invoice is served as it was posted until it is removed, and is not
  found afterwards. -/

namespace AcceptXmr

open Linearization

variable {setup : ApiSetup} {S : Backend}

/-! ## Scans and the ledger -/

/-- **Where the record stays, so does the ledger.** -/
theorem System.Recorded.KeepsTerms.ledgerOf_eq {r r' : System.Recorded} (hr : r.KeepsTerms)
    (hr' : r'.KeepsTerms) (hborn : r'.born = r.born)
    (hids : r'.system.inner.shared.store.getIds = r.system.inner.shared.store.getIds) :
    setup.ledgerOf r'.system.inner.shared.store = setup.ledgerOf r.system.inner.shared.store := by
  funext id
  unfold ApiSetup.ledgerOf
  cases hold : r.system.inner.shared.store.getInvoice id with
  | none =>
      rw [Store.getInvoice_eq_none_iff, ← hids] at hold
      rw [Store.getInvoice_eq_none_iff.mpr hold]
  | some old =>
      cases hnew : r'.system.inner.shared.store.getInvoice id with
      | none =>
          rw [Store.getInvoice_eq_none_iff, hids, ← Store.getInvoice_eq_none_iff, hold] at hnew
          cases hnew
      | some new =>
          -- Both are what was created under the id, up to what a scan recalculates.
          obtain ⟨hmem, rfl⟩ := Store.mem_of_getInvoice hold
          obtain ⟨hmem', hid⟩ := Store.mem_of_getInvoice hnew
          obtain ⟨created, hcreated, hkeeps⟩ := hr.stored old hmem
          obtain ⟨created', hcreated', hkeeps'⟩ := hr'.stored new hmem'
          rw [hborn, hid, hcreated] at hcreated'
          cases hcreated'
          refine congrArg some (Terms.ext ?_ ?_ ?_ ?_ ?_ ?_)
          · exact hkeeps'.address.trans hkeeps.address.symm
          · exact hkeeps'.amountRequested.trans hkeeps.amountRequested.symm
          · exact hkeeps'.confirmationsRequired.trans hkeeps.confirmationsRequired.symm
          · exact hkeeps'.expirationHeight.trans hkeeps.expirationHeight.symm
          · simp only [Terms.ofInvoice, hkeeps'.description, hkeeps.description]
          · simp only [Terms.ofInvoice, hkeeps'.description, hkeeps.description]

namespace System

variable {g g' : System}

/-- What is stored agrees with some record of what has been created. -/
def Recordable (g : System) : Prop := ∃ born, Recorded.KeepsTerms ⟨g, born⟩

theorem Recordable.turn (h : g.Recordable) {t : Turn} (hout : g.KeepsOut t)
    (hturn : g.turn S t = some g') : g'.Recordable := by
  obtain ⟨born, hr⟩ := h
  have hr' : Recorded.KeepsTerms ⟨g', Recorded.record ⟨g, born⟩ t⟩ :=
    hr.step ⟨t, hout, hturn, rfl⟩
  exact ⟨_, hr'⟩

/-- A turn that stores nothing keeps out of the running scan. -/
theorem keepsOut_of_stores {t : Turn} (h : g.stores t = none) : g.KeepsOut t := by
  intro invoice hstores
  rw [h] at hstores
  cases hstores

/-- **A scan leaves the ledger alone.** -/
theorem Recordable.ledgerOf_scanStep (h : g.Recordable) (hstep : g.scanStep S = some g') :
    setup.ledgerOf g'.inner.shared.store = setup.ledgerOf g.inner.shared.store := by
  obtain ⟨born, hr⟩ := h
  have hturn : g.turn S .scanner = some g' := hstep
  have hr' : Recorded.KeepsTerms ⟨g', born⟩ :=
    hr.step ⟨.scanner, keepsOut_of_stores rfl, hturn, rfl⟩
  refine hr.ledgerOf_eq hr' rfl ?_
  cases turn_cases hturn with
  | finished hscanning => rfl
  | served hscanning => exact hr.scan.getIds_served hscanning

/-- A step of a call, with what it leaves alone. -/
theorem callStep_eq {env : CallEnv} {c : ℕ} (h : g.callStep S env c = some g') :
    ∃ call call' inner, g.calls[c]? = some call ∧ call.advance S env g.inner = some (call', inner) ∧
      g' = ⟨inner, g.calls.set c call', g.scanning⟩ := by
  unfold callStep at h
  split at h
  · cases h
  · rename_i call hget
    split at h
    · cases h
    · rename_i call' inner hadvance
      cases h
      exact ⟨call, call', inner, hget, hadvance, rfl⟩

end System

/-- A call does not touch the cached height. -/
theorem Call.cachedDaemonHeight_of_advance {env : CallEnv} {inner inner' : PaymentGatewayInner}
    {call call' : Call} (h : call.advance S env inner = some (call', inner')) :
    inner'.cachedDaemonHeight = inner.cachedDaemonHeight := by
  cases Call.advance_cases h <;> rfl

/-- Only a call in progress has a next step. -/
theorem Call.inProgress_of_advance {env : CallEnv} {inner inner' : PaymentGatewayInner}
    {call call' : Call} (h : call.advance S env inner = some (call', inner')) :
    call.inProgress = true := by
  cases Call.advance_cases h <;> rfl

/-! ## Outcomes -/

namespace ApiSetup

variable {calls : List Call} {exchanges : List HttpExchange}

theorem outcomes_of_length_le {i : ℕ} (h : exchanges.length ≤ i) :
    setup.outcomes calls exchanges i = none := by
  rw [outcomes, List.getElem?_eq_none h]
  rfl

/-- A new exchange, as it comes in. -/
theorem outcomes_append (calls : List Call) (exchanges : List HttpExchange) (e : HttpExchange) :
    setup.outcomes calls (exchanges ++ [e])
      = Function.update (setup.outcomes calls exchanges) exchanges.length
          ((setup.settled calls e).map fun answer => (e.asked, answer)) := by
  funext i
  rcases Nat.lt_trichotomy i exchanges.length with hlt | rfl | hlt
  · rw [Function.update_of_ne hlt.ne, outcomes, outcomes, List.getElem?_append_left hlt]
  · rw [Function.update_self, outcomes, List.getElem?_append_right le_rfl, Nat.sub_self]
    rfl
  · rw [Function.update_of_ne hlt.ne', outcomes_of_length_le hlt.le, outcomes_of_length_le]
    rw [List.length_append, List.length_singleton]
    omega

/-- An exchange that is replaced. -/
theorem outcomes_set {i : ℕ} {e : HttpExchange} (h : exchanges[i]? = some e) (e' : HttpExchange) :
    setup.outcomes calls (exchanges.set i e')
      = Function.update (setup.outcomes calls exchanges) i
          ((setup.settled calls e').map fun answer => (e'.asked, answer)) := by
  obtain ⟨hlt, -⟩ := List.getElem?_eq_some_iff.mp h
  funext j
  by_cases heq : j = i
  · subst heq
    rw [Function.update_self, outcomes, List.getElem?_set_self hlt]
    rfl
  · rw [Function.update_of_ne heq, outcomes, outcomes, List.getElem?_set_ne (Ne.symm heq)]

/-- Calls that an exchange does not wait for do not settle it. -/
theorem settled_congr {calls' : List Call} {e : HttpExchange}
    (h : ∀ c, e.handling = .calling c → calls'[c]? = calls[c]?) :
    setup.settled calls' e = setup.settled calls e := by
  unfold settled
  split
  · rename_i c heq
    rw [h c heq]
  · rfl
  · rfl

/-- Whether an exchange waits for a call. -/
def Waits (exchanges : List HttpExchange) (i c : ℕ) : Prop :=
  ∃ asked, exchanges[i]? = some ⟨asked, .calling c⟩

theorem Waits.lt {i c : ℕ} (h : Waits exchanges i c) : i < exchanges.length := by
  obtain ⟨asked, h⟩ := h
  exact (List.getElem?_eq_some_iff.mp h).1

theorem waits_append {e : HttpExchange} {i c : ℕ} :
    Waits (exchanges ++ [e]) i c ↔
      Waits exchanges i c ∨ i = exchanges.length ∧ e.handling = .calling c := by
  rcases Nat.lt_trichotomy i exchanges.length with hlt | rfl | hlt
  · rw [Waits, List.getElem?_append_left hlt]
    exact (or_iff_left fun h => hlt.ne h.1).symm
  · rw [Waits, List.getElem?_append_right le_rfl, Nat.sub_self]
    refine ⟨?_, ?_⟩
    · rintro ⟨asked, h⟩
      cases h
      exact .inr ⟨rfl, rfl⟩
    · rintro (h | ⟨-, h⟩)
      · exact absurd h.lt (lt_irrefl _)
      · exact ⟨e.asked, congrArg some (HttpExchange.ext rfl h)⟩
  · refine iff_of_false (fun h => ?_) ?_
    · have := h.lt
      rw [List.length_append, List.length_singleton] at this
      omega
    · rintro (h | ⟨rfl, -⟩)
      · exact absurd h.lt hlt.le.not_gt
      · exact lt_irrefl _ hlt

/-- An answered exchange waits no more. -/
theorem waits_set {i j c : ℕ} {asked : Asked} {answer : Answer} :
    Waits (exchanges.set i ⟨asked, .answered answer⟩) j c ↔ j ≠ i ∧ Waits exchanges j c := by
  by_cases heq : j = i
  · subst heq
    refine iff_of_false ?_ fun h => h.1 rfl
    rintro ⟨asked', h⟩
    rw [List.getElem?_set_self'] at h
    cases hj : exchanges[j]? with
    | none =>
        rw [hj] at h
        cases h
    | some e =>
        rw [hj] at h
        cases h
  · rw [Waits, List.getElem?_set_ne (Ne.symm heq)]
    exact (and_iff_right heq).symm

/-- **A call settles its own exchange only.** -/
theorem outcomes_setCall {i c : ℕ} {asked : Asked} (hi : exchanges[i]? = some ⟨asked, .calling c⟩)
    (hlt : c < calls.length) (hapart : ∀ j, Waits exchanges j c → j = i) (call' : Call) :
    setup.outcomes (calls.set c call') exchanges
      = Function.update (setup.outcomes calls exchanges) i
          ((setup.decided asked call').map fun answer => (asked, answer)) := by
  funext j
  by_cases heq : j = i
  · subst heq
    rw [Function.update_self, outcomes, hi, Option.bind_some, settled]
    dsimp only
    rw [List.getElem?_set_self hlt, Option.bind_some]
  · rw [Function.update_of_ne heq, outcomes, outcomes]
    cases hj : exchanges[j]? with
    | none => rfl
    | some e =>
        refine congrArg (fun settled : Option Answer => settled.map fun answer => (e.asked, answer))
          (settled_congr fun c' hc' => List.getElem?_set_ne fun hcc => heq ?_)
        exact hapart j ⟨e.asked, hj.trans (congrArg some (HttpExchange.ext rfl (hcc ▸ hc')))⟩

/-- What has been returned has been decided. -/
theorem decided_of_returned {asked : Asked} {call : Call} {answer : Answer}
    (h : setup.returned asked call = some answer) :
    setup.decided asked call = some answer ∧ call.inProgress = false := by
  cases call with
  | newInvoiceReturned result => exact ⟨h, rfl⟩
  | removeInvoiceReturned result => exact ⟨h, rfl⟩
  | panicked => exact ⟨h, rfl⟩
  | _ => cases h

/-- **What an exchange rests on**: the call that serves it, or what it has been let through to read. -/
inductive Valid (setup : ApiSetup) (calls : List Call) : HttpExchange → Prop where
  | calling {asked : Asked} {c : ℕ} {call : Call} (hget : calls[c]? = some call)
      (h : setup.Serves asked call) : Valid setup calls ⟨asked, .calling c⟩
  | reading {asked : Asked} {handling : Handling} (h : setup.Reads asked handling) :
      Valid setup calls ⟨asked, handling⟩
  | answered (asked : Asked) (answer : Answer) : Valid setup calls ⟨asked, .answered answer⟩

theorem Valid.lt {e : HttpExchange} (h : setup.Valid calls e) {c : ℕ} (hc : e.handling = .calling c) :
    c < calls.length := by
  cases h with
  | calling hget h =>
      cases hc
      exact (List.getElem?_eq_some_iff.mp hget).1
  | reading h =>
      cases h <;> cases hc
  | answered asked answer => cases hc

theorem Valid.append {e : HttpExchange} (h : setup.Valid calls e) (call : Call) :
    setup.Valid (calls ++ [call]) e := by
  cases h with
  | calling hget h =>
      refine .calling ?_ h
      rw [List.getElem?_append_left (List.getElem?_eq_some_iff.mp hget).1]
      exact hget
  | reading h => exact .reading h
  | answered asked answer => exact .answered asked answer

end ApiSetup

/-! ## The invariant -/

namespace HttpServer

variable {s s' : HttpServer}

/-- What the exchanges have come to. -/
def outcome (setup : ApiSetup) (s : HttpServer) : ℕ → Option (Asked × Answer) :=
  setup.outcomes s.gateway.calls s.exchanges

/-- The terms of the stored invoices. -/
def ledger (setup : ApiSetup) (s : HttpServer) : Ledger := setup.ledgerOf s.gateway.inner.shared.store

/-- **The invariant**: every call in progress serves an exchange of its own. -/
structure Matched (setup : ApiSetup) (s : HttpServer) : Prop where
  height : s.gateway.inner.cachedDaemonHeight < u64Size
  valid : ∀ e ∈ s.exchanges, setup.Valid s.gateway.calls e
  apart : ∀ i j c, ApiSetup.Waits s.exchanges i c → ApiSetup.Waits s.exchanges j c → i = j
  owned : ∀ c (call : Call), s.gateway.calls[c]? = some call → call.inProgress = true →
    ∃ i, ApiSetup.Waits s.exchanges i c

theorem Matched.start {inner : PaymentGatewayInner} {scanner : Scanner}
    (hheight : inner.cachedDaemonHeight < u64Size) : Matched setup (start inner scanner) where
  height := hheight
  valid e he := by cases he
  apart i j c hi hj := by
    obtain ⟨asked, hi⟩ := hi
    cases hi
  owned c call hcall := by cases hcall

/-- What a step does to the ledger. -/
abbrev Effects (setup : ApiSetup) : HttpServer → HttpServer → Prop :=
  Effect setup.Does (ledger setup) (outcome setup)

/-! ## Requests coming in -/

/-- An exchange comes in that makes no call. -/
theorem Matched.append (hs : Matched setup s) {e : HttpExchange} (he : setup.Valid s.gateway.calls e)
    (hcall : ∀ c, e.handling ≠ .calling c) :
    Matched setup { s with exchanges := s.exchanges ++ [e] } where
  height := hs.height
  valid e' he' := by
    rcases List.mem_append.mp he' with he' | he'
    · exact hs.valid e' he'
    · rw [List.mem_singleton.mp he']
      exact he
  apart i j c hi hj := by
    rw [ApiSetup.waits_append, or_iff_left fun h => hcall c h.2] at hi hj
    exact hs.apart i j c hi hj
  owned c call hget hprogress := by
    obtain ⟨i, hi⟩ := hs.owned c call hget hprogress
    exact ⟨i, ApiSetup.waits_append.mpr (.inl hi)⟩

/-- An exchange comes in that makes a call. -/
theorem Matched.call (hs : Matched setup s) {asked : Asked} {call : Call}
    (h : setup.Serves asked call) : Matched setup (s.call asked call) where
  height := hs.height
  valid e he := by
    rcases List.mem_append.mp he with he | he
    · exact (hs.valid e he).append call
    · rw [List.mem_singleton.mp he]
      exact .calling (by simp [HttpServer.call]) h
  apart i j c hi hj := by
    -- The new call is waited for by the new exchange only.
    have hold : ∀ k, ApiSetup.Waits s.exchanges k s.gateway.calls.length → False := by
      rintro k ⟨asked', hk⟩
      exact absurd ((hs.valid _ (List.mem_of_getElem? hk)).lt rfl) (lt_irrefl _)
    simp only [HttpServer.call] at hi hj
    rw [ApiSetup.waits_append] at hi hj
    rcases hi with hi | ⟨rfl, hc⟩
    · rcases hj with hj | ⟨rfl, hc⟩
      · exact hs.apart i j c hi hj
      · cases hc
        exact (hold i hi).elim
    · cases hc
      rcases hj with hj | ⟨rfl, -⟩
      · exact (hold j hj).elim
      · rfl
  owned c call' hget hprogress := by
    simp only [HttpServer.call] at hget ⊢
    by_cases hlt : c < s.gateway.calls.length
    · rw [List.getElem?_append_left hlt] at hget
      obtain ⟨i, hi⟩ := hs.owned c call' hget hprogress
      exact ⟨i, ApiSetup.waits_append.mpr (.inl hi)⟩
    · have hlast := (List.getElem?_eq_some_iff.mp hget).1
      rw [List.length_append, List.length_singleton] at hlast
      obtain rfl : c = s.gateway.calls.length := by omega
      exact ⟨_, ApiSetup.waits_append.mpr (.inr ⟨rfl, rfl⟩)⟩

/-- Exchanges are not settled by a new call. -/
theorem Matched.outcomes_append (hs : Matched setup s) (call : Call) :
    setup.outcomes (s.gateway.calls ++ [call]) s.exchanges = outcome setup s := by
  funext i
  unfold outcome ApiSetup.outcomes
  cases hi : s.exchanges[i]? with
  | none => rfl
  | some e =>
      refine congrArg (fun settled : Option Answer => settled.map fun answer => (e.asked, answer))
        (ApiSetup.settled_congr fun c hc => ?_)
      exact List.getElem?_append_left ((hs.valid e (List.mem_of_getElem? hi)).lt hc)

/-- A call that has just been made has not been decided. -/
theorem Matched.effects_call (hs : Matched setup s) {asked : Asked} {call : Call}
    (h : setup.decided asked call = none) : Effects setup s (s.call asked call) := by
  refine .silent rfl ?_
  have hsettled : setup.settled (s.gateway.calls ++ [call])
      ⟨asked, .calling s.gateway.calls.length⟩ = none := by
    simp [ApiSetup.settled, h]
  rw [outcome, HttpServer.call, ApiSetup.outcomes_append, hsettled, hs.outcomes_append,
    Option.map_none]
  exact Function.update_eq_self_iff.mpr (ApiSetup.outcomes_of_length_le le_rfl).symm

/-- **A request comes in.** -/
theorem Matched.receive (hs : Matched setup s) (asked : Asked) :
    Matched setup (s.receive setup asked) ∧ Effects setup s (s.receive setup asked) := by
  have hopens : setup.Opens asked (setup.opening asked) := ApiSetup.opens asked
  unfold HttpServer.receive
  generalize setup.opening asked = opening at hopens
  cases hopens with
  | @refuse response hdoes =>
      refine ⟨hs.append (.answered asked (.response response)) nofun,
        .takes s.exchanges.length _ (ApiSetup.outcomes_of_length_le le_rfl) (hdoes _) ?_⟩
      exact ApiSetup.outcomes_append ..
  | @read handling hreads =>
      have hcall : ∀ c, handling ≠ .calling c := by
        cases hreads <;> nofun
      have hsettled : setup.settled s.gateway.calls ⟨asked, handling⟩ = none := by
        cases hreads <;> rfl
      refine ⟨hs.append (.reading hreads) hcall, .silent rfl ?_⟩
      rw [outcome, ApiSetup.outcomes_append, hsettled, Option.map_none]
      exact Function.update_eq_self_iff.mpr (ApiSetup.outcomes_of_length_le le_rfl).symm
  | @newInvoice args hcreates =>
      exact ⟨hs.call (.newInvoice hcreates), hs.effects_call rfl⟩
  | @removeInvoice id hremoves =>
      exact ⟨hs.call (.removeInvoice hremoves), hs.effects_call rfl⟩

/-! ## Answers going out -/

/-- **A handler goes on to its end.** -/
theorem Matched.finish (hs : Matched setup s) {i : ℕ} {fault : Option StorageError} {e : HttpExchange}
    {answer : Answer} (hi : s.exchanges[i]? = some e)
    (hfinish : setup.finish S fault s.gateway e = some answer) :
    Matched setup { s with exchanges := s.exchanges.set i ⟨e.asked, .answered answer⟩ } ∧
      Effects setup s { s with exchanges := s.exchanges.set i ⟨e.asked, .answered answer⟩ } := by
  -- No call in progress loses the exchange that waits for it.
  have howned : (∀ c (call : Call), s.gateway.calls[c]? = some call → call.inProgress = true →
      ¬ ApiSetup.Waits s.exchanges i c) →
      Matched setup { s with exchanges := s.exchanges.set i ⟨e.asked, .answered answer⟩ } := by
    refine fun hnot => ⟨hs.height, fun e' he' => ?_, fun j k c hj hk => ?_,
      fun c call hget hprogress => ?_⟩
    · rcases List.mem_or_eq_of_mem_set he' with he' | rfl
      · exact hs.valid e' he'
      · exact .answered e.asked answer
    · exact hs.apart j k c (ApiSetup.waits_set.mp hj).2 (ApiSetup.waits_set.mp hk).2
    · obtain ⟨j, hj⟩ := hs.owned c call hget hprogress
      refine ⟨j, ApiSetup.waits_set.mpr ⟨?_, hj⟩⟩
      rintro rfl
      exact hnot c call hget hprogress hj
  have houtcome : outcome setup { s with exchanges := s.exchanges.set i ⟨e.asked, .answered answer⟩ }
      = Function.update (outcome setup s) i (some (e.asked, answer)) :=
    ApiSetup.outcomes_set hi _
  have hbefore : outcome setup s i
      = (setup.settled s.gateway.calls e).map fun answer => (e.asked, answer) := by
    rw [outcome, ApiSetup.outcomes, hi]
    rfl
  cases hs.valid e (List.mem_of_getElem? hi) with
  | @calling asked c call hget hserves =>
      -- The call has returned, and its result has been decided before.
      simp only [ApiSetup.finish, hget, Option.bind_some] at hfinish
      obtain ⟨hdecided, hreturned⟩ := ApiSetup.decided_of_returned hfinish
      refine ⟨howned fun c' call' hget' hprogress hwaits => ?_, .silent rfl ?_⟩
      · obtain ⟨asked', hi'⟩ := hwaits
        rw [hi] at hi'
        cases hi'
        rw [hget] at hget'
        cases hget'
        rw [hreturned] at hprogress
        cases hprogress
      · rw [houtcome]
        refine Function.update_eq_self_iff.mpr ?_
        rw [hbefore, ApiSetup.settled]
        dsimp only
        rw [hget, Option.bind_some, hdecided]
        rfl
  | @reading asked handling hreads =>
      have hdoes := hreads.does hfinish
      have hnone : setup.settled s.gateway.calls ⟨asked, handling⟩ = none := by
        cases hreads <;> rfl
      refine ⟨howned fun c' call' hget' hprogress hwaits => ?_, .takes i _ ?_ hdoes houtcome⟩
      · obtain ⟨asked', hi'⟩ := hwaits
        rw [hi] at hi'
        cases hi'
        cases hreads
      · rw [hbefore, hnone]
        rfl
  | answered asked answer' => cases hfinish

/-! ## The gateway's own steps -/

/-- The call that an exchange waits for serves it. -/
theorem Matched.serves (hs : Matched setup s) {i c : ℕ} {asked : Asked} {call : Call}
    (hi : s.exchanges[i]? = some ⟨asked, .calling c⟩) (hget : s.gateway.calls[c]? = some call) :
    setup.Serves asked call := by
  cases hs.valid _ (List.mem_of_getElem? hi) with
  | calling hget' h =>
      rw [hget] at hget'
      cases hget'
      exact h
  | reading h => cases h

/-- **A call goes on.** -/
theorem Matched.callStep (hs : Matched setup s) (hroundTrips : setup.crates.RoundTrips) {c : ℕ}
    {env : CallEnv} (hfits : ∀ height, env.daemonHeight = .ok height → height < u64Size)
    {gateway : System} (h : s.gateway.callStep S env c = some gateway) :
    Matched setup { s with gateway := gateway } ∧ Effects setup s { s with gateway := gateway } := by
  obtain ⟨call, call', inner, hget, hadvance, rfl⟩ := System.callStep_eq h
  obtain ⟨i, asked, hi⟩ := hs.owned c call hget (Call.inProgress_of_advance hadvance)
  have hlt := (List.getElem?_eq_some_iff.mp hget).1
  obtain ⟨hserves', heffect⟩ := (hs.serves hi hget).advance hroundTrips hs.height hfits hadvance
  have hapart : ∀ j, ApiSetup.Waits s.exchanges j c → j = i := fun j hj =>
    hs.apart j i c hj ⟨asked, hi⟩
  have houtcome : setup.outcomes (s.gateway.calls.set c call') s.exchanges
      = Function.update (outcome setup s) i
          ((setup.decided asked call').map fun answer => (asked, answer)) :=
    ApiSetup.outcomes_setCall hi hlt hapart call'
  have hbefore : outcome setup s i
      = (setup.decided asked call).map fun answer => (asked, answer) := by
    rw [outcome, ApiSetup.outcomes, hi]
    simp [ApiSetup.settled, hget]
  refine ⟨⟨?_, fun e he => ?_, hs.apart, fun c' call'' hget' hprogress => ?_⟩, ?_⟩
  · exact (Call.cachedDaemonHeight_of_advance hadvance).trans_lt hs.height
  · cases hs.valid e he with
    | @calling asked' c' call'' hget' h =>
        by_cases heq : c' = c
        · subst heq
          obtain ⟨j, hj⟩ := List.mem_iff_getElem?.mp he
          obtain rfl := hapart j ⟨asked', hj⟩
          rw [hi] at hj
          cases hj
          exact .calling (List.getElem?_set_self hlt) hserves'
        · exact .calling ((List.getElem?_set_ne (Ne.symm heq)).trans hget') h
    | reading h => exact .reading h
    | answered asked' answer => exact .answered asked' answer
  · by_cases heq : c' = c
    · subst heq
      exact ⟨i, asked, hi⟩
    · rw [List.getElem?_set_ne (Ne.symm heq)] at hget'
      exact hs.owned c' call'' hget' hprogress
  · obtain ⟨hdecided, hledger⟩ | ⟨hnone, answer, hsome, hdoes⟩ := heffect
    · refine .silent hledger (houtcome.trans (Function.update_eq_self_iff.mpr ?_))
      rw [hdecided]
      exact hbefore.symm
    · refine .takes i (asked, answer) ?_ hdoes (houtcome.trans ?_)
      · rw [hbefore, hnone]
        rfl
      · rw [hsome]
        rfl

/-- A step of the scanner changes neither the calls nor the exchanges. -/
theorem Matched.gatewayStep (hs : Matched setup s) {gateway : System}
    (hheight : gateway.inner.cachedDaemonHeight < u64Size)
    (hcalls : gateway.calls = s.gateway.calls) :
    Matched setup { s with gateway := gateway } ∧
      outcome setup { s with gateway := gateway } = outcome setup s := by
  refine ⟨⟨hheight, ?_, hs.apart, ?_⟩, ?_⟩
  · rw [hcalls]
    exact hs.valid
  · rw [hcalls]
    exact hs.owned
  · rw [outcome, hcalls]
    rfl

/-- **Every step** keeps the invariant. At most one exchange takes effect in it, except that a step of
the scanner may change the ledger. -/
theorem Matched.turn (hs : Matched setup s) (hroundTrips : setup.crates.RoundTrips) {t : Turn}
    (hfits : s.HeightsFit t) (h : s.turn S setup t = some s') :
    Matched setup s' ∧
      (Effects setup s s' ∨
        ∃ gateway, t = .scanner ∧ s.gateway.scanStep S = some gateway ∧
          s' = { s with gateway := gateway } ∧ outcome setup s' = outcome setup s) := by
  cases t with
  | receive asked =>
      cases h
      obtain ⟨hmatched, heffects⟩ := hs.receive asked
      exact ⟨hmatched, .inl heffects⟩
  | finish i fault =>
      obtain ⟨e, hi, h⟩ := Option.bind_eq_some_iff.mp h
      obtain ⟨answer, hfinish, rfl⟩ := Option.map_eq_some_iff.mp h
      obtain ⟨hmatched, heffects⟩ := hs.finish hi hfinish
      exact ⟨hmatched, .inl heffects⟩
  | call c env =>
      obtain ⟨gateway, hstep, rfl⟩ := Option.map_eq_some_iff.mp h
      obtain ⟨hmatched, heffects⟩ := hs.callStep hroundTrips hfits hstep
      exact ⟨hmatched, .inl heffects⟩
  | startScan env =>
      obtain ⟨gateway, hstep, rfl⟩ := Option.map_eq_some_iff.mp h
      have hsame : gateway.inner.cachedDaemonHeight < u64Size ∧
          gateway.calls = s.gateway.calls ∧
          gateway.inner.shared.store = s.gateway.inner.shared.store := by
        unfold System.startScan at hstep
        split at hstep
        · cases hstep
        · rename_i scanner hscanning
          cases hstep
          exact ⟨hfits scanner hscanning, rfl, rfl⟩
      obtain ⟨hheight, hcalls, hstore⟩ := hsame
      obtain ⟨hmatched, houtcome⟩ := hs.gatewayStep hheight hcalls
      exact ⟨hmatched, .inl (.silent (congrArg setup.ledgerOf hstore) houtcome)⟩
  | scanner =>
      obtain ⟨gateway, hstep, rfl⟩ := Option.map_eq_some_iff.mp h
      have hsame : gateway.inner.cachedDaemonHeight = s.gateway.inner.cachedDaemonHeight ∧
          gateway.calls = s.gateway.calls := by
        cases System.turn_cases (t := .scanner) hstep with
        | finished hscanning => exact ⟨rfl, rfl⟩
        | served hscanning => exact ⟨rfl, rfl⟩
      obtain ⟨hmatched, houtcome⟩ := hs.gatewayStep (hsame.1.trans_lt hs.height) hsame.2
      exact ⟨hmatched, .inr ⟨gateway, rfl, hstep, rfl, houtcome⟩⟩

/-! ## Runs that keep out of the running scan -/

/-- **A gateway's step in a step of the server.** -/
theorem gateway_turn {t : Turn} (h : s.turn S setup t = some s') :
    s'.gateway = s.gateway ∨
      ∃ u, (∀ c env, u = .call c env → t = .call c env) ∧ s.gateway.turn S u = some s'.gateway := by
  cases t with
  | receive asked =>
      cases h
      unfold HttpServer.receive
      split
      · exact .inl rfl
      · exact .inl rfl
      · rename_i args hopening
        exact .inr ⟨.newInvoice args, nofun, rfl⟩
      · rename_i id hopening
        exact .inr ⟨.removeInvoice id, nofun, rfl⟩
  | finish i fault =>
      obtain ⟨e, hi, h⟩ := Option.bind_eq_some_iff.mp h
      obtain ⟨answer, hfinish, rfl⟩ := Option.map_eq_some_iff.mp h
      exact .inl rfl
  | call c env =>
      obtain ⟨gateway, hstep, rfl⟩ := Option.map_eq_some_iff.mp h
      refine .inr ⟨.call c env, fun c' env' heq => ?_, hstep⟩
      cases heq
      rfl
  | startScan env =>
      obtain ⟨gateway, hstep, rfl⟩ := Option.map_eq_some_iff.mp h
      exact .inr ⟨.startScan env, nofun, hstep⟩
  | scanner =>
      obtain ⟨gateway, hstep, rfl⟩ := Option.map_eq_some_iff.mp h
      exact .inr ⟨.scanner, nofun, hstep⟩

/-- **The invariant** of these runs. -/
structure Sound (setup : ApiSetup) (s : HttpServer) : Prop extends Matched setup s where
  recordable : s.gateway.Recordable

theorem Sound.start {inner : PaymentGatewayInner} {scanner : Scanner}
    (hheight : inner.cachedDaemonHeight < u64Size) : Sound setup (start inner scanner) :=
  ⟨.start hheight, _, System.Recorded.KeepsTerms.start inner scanner⟩

/-- **Every step** keeps the invariant, and at most one exchange takes effect in it. -/
theorem Sound.turn (hs : Sound setup s) (hroundTrips : setup.crates.RoundTrips) {t : Turn}
    (hout : s.KeepsOut t) (h : s.turn S setup t = some s') :
    Sound setup s' ∧ Effects setup s s' := by
  obtain ⟨hmatched, heffects⟩ := hs.toMatched.turn hroundTrips hout.1 h
  have hrecordable : s'.gateway.Recordable := by
    obtain hsame | ⟨u, hcall, hturn⟩ := gateway_turn h
    · rw [hsame]
      exact hs.recordable
    · refine hs.recordable.turn ?_ hturn
      cases u with
      | call c env => exact hout.2 c env (hcall c env rfl)
      | _ => exact System.keepsOut_of_stores rfl
  refine ⟨⟨hmatched, hrecordable⟩, ?_⟩
  obtain heffects | ⟨gateway, -, hstep, rfl, houtcome⟩ := heffects
  · exact heffects
  · exact .silent (hs.recordable.ledgerOf_scanStep hstep) houtcome

/-- **Every run** has a history. -/
theorem Sound.reaches (hs : Sound setup s) (hroundTrips : setup.crates.RoundTrips)
    (h : Reaches S setup KeepsOut s s') :
    Sound setup s' ∧
      ∃ history, History setup.Does (ledger setup) (outcome setup) s s' history := by
  refine linearizes (fun c c' hc hstep => ?_) hs h
  obtain ⟨t, hout, hturn⟩ := hstep
  exact hc.turn hroundTrips hout hturn

/-! ## What clients see -/

/-- What an exchange has been answered. -/
def Answered (s : HttpServer) (i : ℕ) (asked : Asked) (answer : Answer) : Prop :=
  s.exchanges[i]? = some ⟨asked, .answered answer⟩

theorem Answered.outcome_eq {i : ℕ} {asked : Asked} {answer : Answer} (h : s.Answered i asked answer) :
    outcome setup s i = some (asked, answer) := by
  rw [outcome, ApiSetup.outcomes, h]
  rfl

/-- What has come to something has been asked. -/
theorem asked_of_outcome {i : ℕ} {asked : Asked} {answer : Answer}
    (h : outcome setup s i = some (asked, answer)) :
    ∃ handling, s.exchanges[i]? = some ⟨asked, handling⟩ := by
  obtain ⟨e, hi, h⟩ := Option.bind_eq_some_iff.mp h
  obtain ⟨answer', -, heq⟩ := Option.map_eq_some_iff.mp h
  cases heq
  exact ⟨e.handling, hi⟩

/-- **The API linearizes.** Take any two points of a run of the server. What had been answered by the
first, and what was answered between the two, is what one request after the other would have been
answered from the ledger, each doing to the ledger what is said of it. In this order everything that
was answered by the first point comes before everything that was asked after it. -/
theorem api_linearizes (hroundTrips : setup.crates.RoundTrips) {inner : PaymentGatewayInner}
    {scanner : Scanner} (hheight : inner.cachedDaemonHeight < u64Size)
    (hs : Reaches S setup KeepsOut (start inner scanner) s) (hs' : Reaches S setup KeepsOut s s') :
    ∃ before later : List (ℕ × Asked × Answer),
      Sequential setup.Does (ledger setup (start inner scanner)) before (ledger setup s) ∧
      Sequential setup.Does (ledger setup s) later (ledger setup s') ∧
      ((before ++ later).map Prod.fst).Nodup ∧
      (∀ i asked answer, (i, asked, answer) ∈ before ++ later →
        ∃ handling, s'.exchanges[i]? = some ⟨asked, handling⟩) ∧
      (∀ p ∈ before, p.1 < s.exchanges.length) ∧
      (∀ i asked answer, s.Answered i asked answer → (i, asked, answer) ∈ before) ∧
      ∀ i asked answer, s'.Answered i asked answer → (i, asked, answer) ∈ before ++ later := by
  have hstart : Sound setup (start inner scanner) := .start hheight
  have hnothing : ∀ i, outcome setup (start inner scanner) i = none := fun i => rfl
  obtain ⟨hsound, before, hbefore⟩ := hstart.reaches hroundTrips hs
  obtain ⟨-, later, hlater⟩ := hsound.reaches hroundTrips hs'
  refine ⟨before, later, hbefore.sequential, hlater.sequential, (hbefore.append hlater).once,
    fun i asked answer hmem => ?_, fun p hp => ?_, fun i asked answer hi => ?_,
    fun i asked answer hi => ?_⟩
  · exact asked_of_outcome (((hbefore.append hlater).mem_iff i _).mp hmem).2
  · obtain ⟨handling, hi⟩ := asked_of_outcome ((hbefore.mem_iff p.1 p.2).mp hp).2
    exact (List.getElem?_eq_some_iff.mp hi).1
  · exact (hbefore.mem_iff i _).mpr ⟨hnothing i, hi.outcome_eq⟩
  · exact ((hbefore.append hlater).mem_iff i _).mpr ⟨hnothing i, hi.outcome_eq⟩

end HttpServer

/-! ## The last change of an invoice -/

/-- What a client is told of an invoice after a change of it: the terms as they were posted, or that
there is no such invoice. -/
def Tells (text : Base64InvoiceId) (response : ApiResponse) : Asked → Prop
  | .http _ (.newInvoice payload) => ∃ update, response = ⟨.ok, .update update, true⟩ ∧
      update.id = text ∧ update.amountRequested = payload.piconerosDue ∧
      update.confirmationsRequired = payload.confirmationsRequired ∧
      update.order = payload.order ∧ update.callback = payload.callback
  | _ => response = ⟨.notFound, .text "Invoice not found", false⟩

namespace ApiSetup

variable (setup)

/-- Whether an exchange has changed what the text of an id stands for. -/
def Changes (text : Base64InvoiceId) : Asked × Answer → Prop
  | (.http _ (.newInvoice _), .response response) => response.body = .invoiceId text
  | (.http _ (.deleteInvoice query), .response response) => query = text ∧ response.status = .ok
  | (.watch id, .removed (.ok (some _))) => text.toId setup.crates.engine = .ok id
  | _ => False

/-- What the text of an id stands for. -/
def lookup (text : Base64InvoiceId) (l : Ledger) : Option Terms :=
  match text.toId setup.crates.engine with
  | .ok id => l id
  | .error _ => none

variable {setup}

theorem lookup_of_toId {text : Base64InvoiceId} {id : InvoiceId}
    (h : text.toId setup.crates.engine = .ok id) (l : Ledger) : setup.lookup text l = l id := by
  rw [lookup, h]

/-- An entry that changes under another id is another one. -/
theorem lookup_update {text : Base64InvoiceId} {id : InvoiceId}
    (h : text.toId setup.crates.engine ≠ .ok id) (l : Ledger) (terms : Option Terms) :
    setup.lookup text (Function.update l id terms) = setup.lookup text l := by
  unfold lookup
  cases htext : text.toId setup.crates.engine with
  | error e => rfl
  | ok id' =>
      refine Function.update_of_ne ?_ ..
      rintro rfl
      exact h htext

/-- A refusal changes nothing. -/
theorem not_changes_of_refusal {text : Base64InvoiceId} {authorization : Option String}
    {request : ApiRequest} {response : ApiResponse} (hbody : response.body ≠ .invoiceId text)
    (hstatus : response.status ≠ .ok) :
    ¬ setup.Changes text (.http authorization request, .response response) := by
  intro h
  cases request with
  | newInvoice payload => exact hbody h
  | deleteInvoice query => exact hstatus h.2
  | _ => cases h

/-- **Only a change changes** what a text stands for. -/
theorem Does.lookup_eq (hurlSafe : setup.crates.engine.UrlSafeNoPad) {text : Base64InvoiceId}
    {x : Asked × Answer} (hnot : ¬ setup.Changes text x) {l l' : Ledger} (h : setup.Does x l l') :
    setup.lookup text l' = setup.lookup text l := by
  cases h with
  | authorized h hhandled =>
      cases hhandled with
      | @created payload _ id terms hcallback hfits hnew hterms =>
          refine lookup_update (fun htext => hnot ?_) _ _
          have heq := text_of_invoiceIdFromStr hurlSafe htext
          exact congrArg ResponseBody.invoiceId (congrArg Base64InvoiceId.mk heq)
      | @deleted query _ id hid hfound =>
          refine lookup_update (fun htext => hnot ⟨?_, rfl⟩) _ _
          have hquery := text_of_invoiceIdFromStr hurlSafe hid
          have heq := text_of_invoiceIdFromStr hurlSafe htext
          exact congrArg Base64InvoiceId.mk (hquery.symm.trans heq)
      | _ => rfl
  | expired hfound => exact lookup_update hnot _ _
  | _ => rfl

/-- **What a change leaves**, and what is told of it afterwards. -/
theorem Does.tells (hurlSafe : setup.crates.engine.UrlSafeNoPad) {text : Base64InvoiceId}
    {asked : Asked} {answer : Answer} (hchanges : setup.Changes text (asked, answer))
    {a a' b b' : Ledger} (h : setup.Does (asked, answer) a a') {authorization : Option String}
    (hauthorized : setup.Authorized authorization (.getInvoiceStatus text)) {response : ApiResponse}
    (hget : setup.Does (.http authorization (.getInvoiceStatus text), .response response) b b')
    (hsame : setup.lookup text b = setup.lookup text a') :
    response = failure ∨ Tells text response asked := by
  -- Either there is an id, and the look-up gives what the change has left under it.
  have hread : ∀ id, text.toId setup.crates.engine = .ok id → response = failure ∨
      (∃ terms update, a' id = some terms ∧ terms.Shown setup.crates id update ∧
        response = ⟨.ok, .update update, true⟩) ∨
      (a' id = none ∧ response = ⟨.notFound, .text "Invoice not found", false⟩) := by
    intro id htext
    rw [lookup_of_toId htext, lookup_of_toId htext] at hsame
    cases hget with
    | unauthorized hnot => exact absurd hauthorized hnot
    | authorized _ hhandled =>
        cases hhandled with
        | invalidId hquery hid =>
            cases hquery
            exact absurd htext (hid id)
        | failed hrequest => exact .inl rfl
        | found hid hfound hshown =>
            rw [htext] at hid
            cases hid
            exact .inr (.inl ⟨_, _, hsame.symm.trans hfound, hshown, rfl⟩)
        | notFound hid hnone =>
            rw [htext] at hid
            cases hid
            exact .inr (.inr ⟨hsame.symm.trans hnone, rfl⟩)
  cases h with
  | unauthorized hnot => exact absurd hchanges (not_changes_of_refusal nofun nofun)
  | authorized _ hhandled =>
      cases hhandled with
      | @created payload _ id terms hcallback hfits hnew hterms =>
          obtain rfl : Base64InvoiceId.ofId setup.crates.engine id = text :=
            ResponseBody.invoiceId.inj hchanges
          rcases hread id (toId_ofId hurlSafe hfits) with
            hfailed | ⟨terms', update, hfound, hshown, rfl⟩ | ⟨hnone, -⟩
          · exact .inl hfailed
          · rw [Function.update_self] at hfound
            cases hfound
            exact .inr ⟨update, rfl, hshown.id,
              hshown.amountRequested.trans hterms.amountRequested,
              hshown.confirmationsRequired.trans hterms.confirmationsRequired,
              hshown.order.trans hterms.order, hshown.callback.trans hterms.callback⟩
          · rw [Function.update_self] at hnone
            cases hnone
      | @deleted query _ id hid hfound =>
          obtain ⟨rfl, -⟩ := hchanges
          rcases hread id hid with hfailed | ⟨terms, update, hfound', -⟩ | ⟨-, hresponse⟩
          · exact .inl hfailed
          · rw [Function.update_self] at hfound'
            cases hfound'
          · exact .inr hresponse
      | notDeleted hid hnone => cases hchanges.2
      | invalidId hquery hid => exact absurd hchanges (not_changes_of_refusal nofun nofun)
      | failed hrequest => exact absurd hchanges (not_changes_of_refusal nofun nofun)
      | _ => cases hchanges
  | @expired _ old hfound =>
      rcases hread old.id hchanges with hfailed | ⟨terms, update, hfound', -⟩ | ⟨-, hresponse⟩
      · exact .inl hfailed
      · rw [Function.update_self] at hfound'
        cases hfound'
      · exact .inr hresponse
  | _ => cases hchanges

end ApiSetup

namespace HttpServer

/-- **An invoice is served as it was posted until it is removed**, and is not found afterwards. Suppose
exchange `j` has come in after some point of a run and has been answered by a later one, and it has
created or removed the invoice of an id; and that every other exchange that has created or removed it
had done so before. Then whoever asks for the invoice afterwards is told what `j` has left, however
requests, scans and the watch loop overlap, unless the gateway fails. -/
theorem posted_until_removed {s₀ s₁ s₂ : HttpServer} (hurlSafe : setup.crates.engine.UrlSafeNoPad)
    (hroundTrips : setup.crates.RoundTrips) {inner : PaymentGatewayInner} {scanner : Scanner}
    (hheight : inner.cachedDaemonHeight < u64Size)
    (h₀ : Reaches S setup KeepsOut (start inner scanner) s₀) (h₁ : Reaches S setup KeepsOut s₀ s₁)
    (h₂ : Reaches S setup KeepsOut s₁ s₂) {text : Base64InvoiceId} {j : ℕ}
    {asked : Asked} {answer : Answer} (hj : s₀.exchanges.length ≤ j)
    (hanswered : s₁.Answered j asked answer) (hchanges : setup.Changes text (asked, answer))
    (hothers : ∀ i x, s₂.outcome setup i = some x → setup.Changes text x → i ≠ j →
      s₀.outcome setup i ≠ none)
    {k : ℕ} {authorization : Option String} {response : ApiResponse} (hk : s₁.exchanges.length ≤ k)
    (hauthorized : setup.Authorized authorization (.getInvoiceStatus text))
    (hget : s₂.Answered k (.http authorization (.getInvoiceStatus text)) (.response response)) :
    response = ApiSetup.failure ∨ Tells text response asked := by
  obtain ⟨hsound₀, -⟩ := (Sound.start hheight).reaches hroundTrips h₀
  obtain ⟨hsound₁, before, hbefore⟩ := hsound₀.reaches hroundTrips h₁
  obtain ⟨-, later, hlater⟩ := hsound₁.reaches hroundTrips h₂
  obtain ⟨a, a', b, b', hdoes, hdoes', hsame⟩ := answers_last_change hbefore hlater
    (fun x hnot l l' h => ApiSetup.Does.lookup_eq hurlSafe hnot h)
    (ApiSetup.outcomes_of_length_le hj) hanswered.outcome_eq hothers
    (ApiSetup.outcomes_of_length_le hk) hget.outcome_eq
  exact hdoes.tells hurlSafe hchanges hauthorized hdoes' hsame

/-! ## A small server -/

/-- The turns that store an invoice only between scans, and start no scan. -/
def keepsBetween (s : HttpServer) : Turn → Bool
  | .call c env => s.gateway.storesBetween (.call c env) &&
      match env.daemonHeight with
      | .ok height => decide (height < u64Size)
      | .error _ => true
  | .startScan _ => false
  | _ => true

theorem keepsOut_of_keepsBetween {s : HttpServer} {t : Turn} (h : s.keepsBetween t = true) :
    s.KeepsOut t := by
  cases t with
  | call c env =>
      obtain ⟨hbetween, hheight⟩ := Bool.and_eq_true_iff.mp h
      refine ⟨fun height hok => ?_, fun c' env' heq => ?_⟩
      · rw [hok] at hheight
        exact of_decide_eq_true hheight
      · cases heq
        exact System.keepsOut_of_storesBetween hbetween
  | startScan env => cases h
  | _ => exact ⟨trivial, nofun⟩

/-- The end of a run by turns. -/
def after (S : Backend) (setup : ApiSetup) : List Turn → HttpServer → Option HttpServer :=
  replay (turn S setup) keepsBetween

/-- A payload, and its description as it is stored. -/
def smallPayload : NewInvoiceParams := ⟨1000000, 2, 10, "large pizza", none⟩

def smallJson : String := "\x7b\"order\":\"large pizza\",\"callback\":null\x7d"

/-- Crates that serialize the one description. -/
def smallCrates : ApiCrates where
  DecodeError := Unit
  InvalidUri := Unit
  JsonError := Unit
  TeraError := Unit
  engine := libraryEngine
  uriFromStr uri := if uri = "" then .error () else .ok ()
  toJson description :=
    if description = ⟨"large pizza", none⟩ then .ok smallJson else .error ()
  fromJson json := if json = smallJson then .ok ⟨"large pizza", none⟩ else .error ()
  render _ := .ok ""

theorem smallCrates_roundTrips : smallCrates.RoundTrips := by
  intro description json h
  simp only [smallCrates] at h ⊢
  split at h
  · rename_i hdescription
    cases h
    rw [if_pos rfl, hdescription]
  · cases h

/-- A server whose internal API asks for a token. -/
def smallSetup : ApiSetup := ⟨smallCrates, some "secret", none⟩

/-- A server with an empty store at height 2477657. -/
def smallServer : HttpServer :=
  start (.build .empty (fun _ => "") 0 [99] .new 2477657) System.idleScanner

/-- The text of the invoice's id. -/
def smallText : Base64InvoiceId := ⟨"AAAAAAAAAGMAAAAAACXOWQ".toList⟩

/-- The invoice before any scan. -/
def smallUpdate : InvoiceUpdate :=
  .ofInvoice smallCrates (Invoice.new "" ⟨0, 99⟩ 2477657 1000000 2 10 smallJson)

/-- An invoice is posted, and asked for afterwards. -/
theorem small_run : ∃ s₁ s₂, Reaches .exact smallSetup KeepsOut smallServer s₁ ∧
    Reaches .exact smallSetup KeepsOut s₁ s₂ ∧
    s₁.exchanges = [⟨.http (some "Bearer secret") (.newInvoice smallPayload),
      .answered (.response ⟨.ok, .invoiceId smallText, true⟩)⟩] ∧
    s₂.exchanges = [⟨.http (some "Bearer secret") (.newInvoice smallPayload),
      .answered (.response ⟨.ok, .invoiceId smallText, true⟩)⟩,
      ⟨.http none (.getInvoiceStatus smallText),
        .answered (.response ⟨.ok, .update smallUpdate, true⟩)⟩] := by
  have hend : ((after .exact smallSetup (.receive (.http (some "Bearer secret")
      (.newInvoice smallPayload)) :: List.replicate 4 (.call 0 {}) ++ [.finish 0 none])
        smallServer).bind fun s₁ => (after .exact smallSetup
          [.receive (.http none (.getInvoiceStatus smallText)), .finish 1 none] s₁).map fun s₂ =>
            (s₁.exchanges, s₂.exchanges))
      = some ([⟨.http (some "Bearer secret") (.newInvoice smallPayload),
          .answered (.response ⟨.ok, .invoiceId smallText, true⟩)⟩],
        [⟨.http (some "Bearer secret") (.newInvoice smallPayload),
          .answered (.response ⟨.ok, .invoiceId smallText, true⟩)⟩,
        ⟨.http none (.getInvoiceStatus smallText),
          .answered (.response ⟨.ok, .update smallUpdate, true⟩)⟩]) := by decide +kernel
  obtain ⟨s₁, hs₁, hend⟩ := Option.bind_eq_some_iff.mp hend
  obtain ⟨s₂, hs₂, hend⟩ := Option.map_eq_some_iff.mp hend
  obtain ⟨hexchanges₁, hexchanges₂⟩ := Prod.mk.inj hend
  exact ⟨s₁, s₂, replay_run (fun _ _ => keepsOut_of_keepsBetween) hs₁,
    replay_run (fun _ _ => keepsOut_of_keepsBetween) hs₂, hexchanges₁, hexchanges₂⟩

/-- A request for the ids of the invoices. -/
def smallListing : Asked := .http (some "Bearer secret") .invoiceIds

/-- Two lists are asked for while an invoice is being posted. One is answered before the invoice is
stored, and the other one behind that, though the posting has not been answered yet: both stand in the
history, and the posting as well. -/
theorem api_linearizes_overlapping : ∃ s₁ s₂, Reaches .exact smallSetup KeepsOut smallServer s₁ ∧
    Reaches .exact smallSetup KeepsOut s₁ s₂ ∧ ∃ before later,
      Sequential smallSetup.Does (ledger smallSetup smallServer) before (ledger smallSetup s₁) ∧
      Sequential smallSetup.Does (ledger smallSetup s₁) later (ledger smallSetup s₂) ∧
      (1, smallListing, .response ⟨.ok, .invoiceIds [], true⟩) ∈ before ∧
      (2, smallListing, .response ⟨.ok, .invoiceIds [smallText], true⟩) ∈ before ∧
      (0, .http (some "Bearer secret") (.newInvoice smallPayload),
        .response ⟨.ok, .invoiceId smallText, true⟩) ∈ before ++ later := by
  have hend : ((after .exact smallSetup
      [.receive (.http (some "Bearer secret") (.newInvoice smallPayload)), .call 0 {}, .call 0 {},
        .receive smallListing, .receive smallListing, .finish 1 none, .call 0 {}, .finish 2 none]
      smallServer).bind fun s₁ => (after .exact smallSetup [.call 0 {}, .finish 0 none] s₁).map
        fun s₂ => (s₁.exchanges[1]?, s₁.exchanges[2]?, s₂.exchanges[0]?))
      = some (some ⟨smallListing, .answered (.response ⟨.ok, .invoiceIds [], true⟩)⟩,
        some ⟨smallListing, .answered (.response ⟨.ok, .invoiceIds [smallText], true⟩)⟩,
        some ⟨.http (some "Bearer secret") (.newInvoice smallPayload),
          .answered (.response ⟨.ok, .invoiceId smallText, true⟩)⟩) := by decide +kernel
  obtain ⟨s₁, hs₁, hend⟩ := Option.bind_eq_some_iff.mp hend
  obtain ⟨s₂, hs₂, hend⟩ := Option.map_eq_some_iff.mp hend
  obtain ⟨hempty, hlisted, hposted⟩ : _ ∧ _ ∧ _ := by simpa only [Prod.mk.injEq] using hend
  have hreaches₁ : Reaches .exact smallSetup KeepsOut smallServer s₁ :=
    replay_run (fun _ _ => keepsOut_of_keepsBetween) hs₁
  have hreaches₂ : Reaches .exact smallSetup KeepsOut s₁ s₂ :=
    replay_run (fun _ _ => keepsOut_of_keepsBetween) hs₂
  obtain ⟨before, later, hbefore, hlater, -, -, -, hanswered, hall⟩ :=
    api_linearizes smallCrates_roundTrips (by decide) hreaches₁ hreaches₂
  exact ⟨s₁, s₂, hreaches₁, hreaches₂, before, later, hbefore, hlater, hanswered 1 _ _ hempty,
    hanswered 2 _ _ hlisted, hall 0 _ _ hposted⟩

/-- The posted invoice is served as it was posted. -/
theorem posted_until_removed_small :
    ∃ s₁ s₂, Reaches .exact smallSetup KeepsOut smallServer s₁ ∧ Reaches .exact smallSetup KeepsOut s₁ s₂ ∧
      s₂.Answered 1 (.http none (.getInvoiceStatus smallText))
        (.response ⟨.ok, .update smallUpdate, true⟩) ∧
      smallUpdate.amountRequested = 1000000 ∧ smallUpdate.order = "large pizza" := by
  obtain ⟨s₁, s₂, hreaches₁, hreaches₂, hexchanges₁, hexchanges₂⟩ := small_run
  have hanswered : s₁.Answered 0 (.http (some "Bearer secret") (.newInvoice smallPayload))
      (.response ⟨.ok, .invoiceId smallText, true⟩) := by
    rw [Answered, hexchanges₁]
    rfl
  have hget : s₂.Answered 1 (.http none (.getInvoiceStatus smallText))
      (.response ⟨.ok, .update smallUpdate, true⟩) := by
    rw [Answered, hexchanges₂]
    rfl
  have htells : (⟨.ok, .update smallUpdate, true⟩ : ApiResponse) = ApiSetup.failure ∨
      Tells smallText ⟨.ok, .update smallUpdate, true⟩
        (.http (some "Bearer secret") (.newInvoice smallPayload)) := by
    refine posted_until_removed libraryEngine_urlSafeNoPad smallCrates_roundTrips (by decide) .refl
      hreaches₁ hreaches₂ (Nat.zero_le _) hanswered rfl ?_ (by rw [hexchanges₁]; exact le_refl 1)
      nofun hget
    -- The other exchange has only read.
    intro i x hi hchanges hne
    obtain ⟨e, hget', hi⟩ := Option.bind_eq_some_iff.mp hi
    rw [hexchanges₂] at hget'
    match i, hne with
    | 1, _ =>
        cases hget'
        cases hi
        cases hchanges
    | _ + 2, _ => cases hget'
  refine ⟨s₁, s₂, hreaches₁, hreaches₂, hget, ?_⟩
  obtain hfailed | ⟨update, heq, -, hamount, -, horder, -⟩ := htells
  · cases hfailed
  · cases heq
    exact ⟨hamount, horder⟩

end HttpServer

end AcceptXmr
