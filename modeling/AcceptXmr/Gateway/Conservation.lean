import AcceptXmr.Gateway.Subaddresses

/-! # Where subaddresses get lost

`new_invoice` takes a subaddress from the cache before it asks for the daemon's height and before it
inserts the invoice. If one of these fails it returns the error, and the subaddress is neither put
back nor given to an invoice.

* **`newInvoice_failed`** — a failed call leaves store and publisher alone and loses the subaddress.
* **`subaddresses_conserved`** — a failed call never leaves the available subaddresses as they were,
  and as long as no call fails every index of the range is available or held by a stored invoice
  whenever no call is in progress. -/

namespace AcceptXmr

namespace PaymentGatewayInner

/-- The creation height of a new invoice: the cached daemon height, or else the daemon's answer. -/
def creationHeight (inner : PaymentGatewayInner) (env : CallEnv) : Option ℕ :=
  if inner.cachedDaemonHeight ≠ 0 then some inner.cachedDaemonHeight
  else env.daemonHeight.toOption

/-- **What makes `new_invoice` fail** once it has got a subaddress: there is no creation height, or
the request to insert fails, or an invoice is stored under the id. -/
def Refuses (inner : PaymentGatewayInner) (env : CallEnv) (subIndex : SubIndex) : Prop :=
  ∀ height, inner.creationHeight env = some height →
    env.fault ≠ none ∨ (⟨subIndex, height⟩ : InvoiceId) ∈ inner.shared.store.getIds

/-- **Whether `new_invoice` loses a subaddress**: it gets one and then fails. An index from above the
range, which is there only if an invoice of it was removed, may be added again at once when the
range is extended. -/
def Loses (inner : PaymentGatewayInner) (env : CallEnv) : Prop :=
  ∃ subIndex subaddress subaddresses,
    inner.subaddresses.removeRandom = some ((subIndex, subaddress), subaddresses) ∧
      subIndex ∉ subaddresses.keys ∧ inner.Refuses env subIndex

/-- **Whether a call has left everything as it was**: the store, the publisher and, apart from new
ones above the range, the available sub indexes. -/
structure Restored (inner inner' : PaymentGatewayInner) : Prop where
  store : inner'.shared.store = inner.shared.store
  publisher : inner'.publisher = inner.publisher
  kept : ∀ k ∈ inner.subaddresses.keys, k ∈ inner'.subaddresses.keys
  added : ∀ k ∈ inner'.subaddresses.keys,
    k ∈ inner.subaddresses.keys ∨ inner.subaddresses.highestMinorIndex < k.minor

end PaymentGatewayInner

namespace Call

/-- A call without others in between: at most `fuel` steps of it. -/
def finish (S : Backend) (env : CallEnv) :
    ℕ → Call → PaymentGatewayInner → Call × PaymentGatewayInner
  | 0, call, inner => (call, inner)
  | fuel + 1, call, inner =>
      match call.advance S env inner with
      | none => (call, inner)
      | some (call', inner') => finish S env fuel call' inner'

end Call

/-- **`new_invoice`** without other calls in between; it takes four steps. -/
def PaymentGatewayInner.newInvoice (S : Backend) (env : CallEnv) (args : InvoiceArgs)
    (inner : PaymentGatewayInner) : Call × PaymentGatewayInner :=
  Call.finish S env 4 (.newInvoice args) inner

/-! ## One call -/

namespace Call

variable {S : Backend} {env : CallEnv} {args : InvoiceArgs} {inner : PaymentGatewayInner}
  {subIndex : SubIndex} {subaddress : String}

theorem finish_of_advance {fuel : ℕ} {call call' : Call} {inner' : PaymentGatewayInner}
    (h : call.advance S env inner = some (call', inner')) :
    finish S env (fuel + 1) call inner = finish S env fuel call' inner' := by
  rw [finish, h]

/-- A call that has returned stays where it is. -/
theorem finish_returned (fuel : ℕ) (result : Except AcceptXmrError InvoiceId) :
    finish S env fuel (.newInvoiceReturned result) inner = (.newInvoiceReturned result, inner) := by
  cases fuel <;> rfl

/-- Without a creation height the call returns. -/
theorem advance_addressed_none (h : inner.creationHeight env = none) :
    ∃ e, (addressed args subIndex subaddress).advance S env inner
      = some (.newInvoiceReturned (.error e), inner) := by
  unfold PaymentGatewayInner.creationHeight at h
  split at h
  · cases h
  · rename_i hzero
    cases hanswer : env.daemonHeight with
    | ok height =>
        rw [hanswer] at h
        cases h
    | error e =>
        refine ⟨.rpc e, ?_⟩
        simp only [advance, if_neg hzero, hanswer]

/-- With a creation height the invoice object is created. -/
theorem advance_addressed_some {height : ℕ} (h : inner.creationHeight env = some height) :
    (addressed args subIndex subaddress).advance S env inner
      = some (.created (Invoice.new subaddress subIndex height args.piconeros
          args.confirmationsRequired args.expirationIn args.description), inner) := by
  unfold PaymentGatewayInner.creationHeight at h
  split at h
  · rename_i hne
    cases h
    simp only [advance, if_pos hne]
  · rename_i hzero
    cases hanswer : env.daemonHeight with
    | ok daemonHeight =>
        rw [hanswer] at h
        cases h
        simp only [advance, if_neg hzero, hanswer]
    | error e =>
        rw [hanswer] at h
        cases h

/-- An invoice that cannot be inserted. -/
theorem advance_created_refused (invoice : Invoice)
    (h : env.fault ≠ none ∨ invoice.id ∈ inner.shared.store.getIds) :
    ∃ e, (created invoice).advance S env inner
      = some (.newInvoiceReturned (.error e), inner) := by
  cases hfault : env.fault with
  | some e =>
      refine ⟨.storage e, ?_⟩
      simp only [advance, hfault]
  | none =>
      have hids := h.resolve_left fun hne => hne hfault
      have hinsert : inner.shared.store.insertInvoice invoice = .error .duplicateInvoice :=
        dif_pos hids
      simp only [advance, hfault, handle, serve, hinsert, Except.mapError]
      exact ⟨_, rfl⟩

/-- An invoice that is inserted. -/
theorem advance_created_inserted (invoice : Invoice) (hfault : env.fault = none)
    (hids : invoice.id ∉ inner.shared.store.getIds) :
    ∃ inner', (created invoice).advance S env inner = some (.inserted invoice.id, inner') := by
  cases hinsert : inner.shared.store.insertInvoice invoice with
  | error e => exact absurd (Store.mem_getIds_of_insertInvoice hinsert) hids
  | ok store =>
      simp only [advance, hfault, handle, serve, hinsert, Except.mapError]
      exact ⟨_, rfl⟩

/-- **When a call returns an error**: it has a subaddress and gets no height, or it has an invoice
that cannot be inserted. -/
theorem advance_error {call : Call} {e : AcceptXmrError} {inner' : PaymentGatewayInner}
    (h : call.advance S env inner = some (.newInvoiceReturned (.error e), inner')) :
    (∃ args subIndex subaddress, call = .addressed args subIndex subaddress ∧
      inner.creationHeight env = none) ∨
    ∃ invoice, call = .created invoice ∧
      (env.fault ≠ none ∨ invoice.id ∈ inner.shared.store.getIds) := by
  cases call with
  | addressed args subIndex subaddress =>
      refine .inl ⟨args, subIndex, subaddress, rfl, ?_⟩
      cases hheight : inner.creationHeight env with
      | none => rfl
      | some height =>
          rw [advance_addressed_some hheight] at h
          cases h
  | created invoice =>
      refine .inr ⟨invoice, rfl, ?_⟩
      by_contra hnot
      rw [not_or, not_not] at hnot
      obtain ⟨inner'', hinserted⟩ := advance_created_inserted (S := S) invoice hnot.1 hnot.2
      rw [hinserted] at h
      cases h
  | newInvoice args | inserted id | removeInvoice id | removed id old | putBack id old =>
      cases advance_cases h
  | newInvoiceReturned result | removeInvoiceReturned result | panicked => cases h

end Call

namespace PaymentGatewayInner

variable {S : Backend} {env : CallEnv} {args : InvoiceArgs} {inner : PaymentGatewayInner}
  {subIndex : SubIndex} {subaddress : String} {subaddresses : SubaddressCache}

/-- The first step of `new_invoice`. -/
theorem newInvoice_addressed
    (hremove : inner.subaddresses.removeRandom = some ((subIndex, subaddress), subaddresses)) :
    inner.newInvoice S env args = Call.finish S env 3 (.addressed args subIndex subaddress)
      { inner with subaddresses := subaddresses } := by
  simp only [newInvoice, Call.finish, Call.advance, hremove]

/-- **A failed call** has taken its subaddress, and changed nothing else. -/
theorem newInvoice_failed
    (hremove : inner.subaddresses.removeRandom = some ((subIndex, subaddress), subaddresses))
    (h : inner.Refuses env subIndex) :
    ∃ e, inner.newInvoice S env args
      = (.newInvoiceReturned (.error e), { inner with subaddresses := subaddresses }) := by
  rw [newInvoice_addressed hremove]
  generalize htaken : { inner with subaddresses := subaddresses } = taken
  have hrefuses : taken.Refuses env subIndex := htaken ▸ h
  cases hheight : taken.creationHeight env with
  | none =>
      obtain ⟨e, he⟩ : ∃ e, (Call.addressed args subIndex subaddress).advance S env taken
        = some (.newInvoiceReturned (.error e), taken) := Call.advance_addressed_none hheight
      exact ⟨e, by rw [Call.finish_of_advance he, Call.finish_returned]⟩
  | some height =>
      rw [Call.finish_of_advance (Call.advance_addressed_some hheight)]
      generalize hinvoice : Invoice.new subaddress subIndex height _ _ _ _ = invoice
      have hid : invoice.id = ⟨subIndex, height⟩ := by rw [← hinvoice]; rfl
      obtain ⟨e, he⟩ := Call.advance_created_refused (S := S) invoice
        (hid ▸ hrefuses height hheight)
      exact ⟨e, by rw [Call.finish_of_advance he, Call.finish_returned]⟩

/-- A call that is not refused returns the id of its invoice. -/
theorem newInvoice_succeeded
    (hremove : inner.subaddresses.removeRandom = some ((subIndex, subaddress), subaddresses))
    (h : ¬ inner.Refuses env subIndex) :
    ∃ id inner', inner.newInvoice S env args = (.newInvoiceReturned (.ok id), inner') := by
  rw [newInvoice_addressed hremove]
  generalize htaken : { inner with subaddresses := subaddresses } = taken
  have hrefuses : ¬ taken.Refuses env subIndex := htaken ▸ h
  simp only [Refuses, not_forall, not_or, not_not] at hrefuses
  obtain ⟨height, hheight, hfault, hids⟩ := hrefuses
  rw [Call.finish_of_advance (Call.advance_addressed_some hheight)]
  generalize hinvoice : Invoice.new subaddress subIndex height _ _ _ _ = invoice
  have hid : invoice.id = ⟨subIndex, height⟩ := by rw [← hinvoice]; rfl
  obtain ⟨inner', hinserted⟩ := Call.advance_created_inserted (S := S) invoice hfault (hid ▸ hids)
  rw [Call.finish_of_advance hinserted]
  exact ⟨_, _, rfl⟩

/-- **When a failed call restores everything**: `new_invoice` leaves everything as it was whenever it
returns an error if and only if it does not lose its subaddress. -/
theorem newInvoice_restores_iff (S : Backend) (env : CallEnv) (args : InvoiceArgs)
    (inner : PaymentGatewayInner) :
    (∀ e inner', inner.newInvoice S env args = (.newInvoiceReturned (.error e), inner') →
      Restored inner inner') ↔ ¬ inner.Loses env := by
  constructor
  · -- A call that loses its subaddress fails and does not restore it.
    rintro hrestores ⟨subIndex, subaddress, subaddresses, hremove, hlost, hrefuses⟩
    obtain ⟨e, hfailed⟩ : ∃ e, inner.newInvoice S env args
      = (.newInvoiceReturned (.error e), { inner with subaddresses := subaddresses }) :=
        newInvoice_failed hremove hrefuses
    have hmem := (SubaddressCache.removeRandom_cases hremove).mem
    exact hlost ((hrestores e _ hfailed).kept subIndex hmem)
  · intro hkeeps e inner' hreturned
    cases hremove : inner.subaddresses.removeRandom with
    | none =>
        -- Without a subaddress the call panics and returns nothing.
        simp only [newInvoice, Call.finish, Call.advance, hremove] at hreturned
        cases hreturned
    | some taken =>
        obtain ⟨⟨subIndex, subaddress⟩, subaddresses⟩ := taken
        by_cases hrefuses : inner.Refuses env subIndex
        · -- The call fails, and the index it has taken is available again.
          obtain ⟨e', hfailed⟩ : ∃ e, inner.newInvoice S env args
            = (.newInvoiceReturned (.error e), { inner with subaddresses := subaddresses }) :=
              newInvoice_failed hremove hrefuses
          rw [hfailed] at hreturned
          cases hreturned
          have htaken := SubaddressCache.removeRandom_cases hremove
          refine ⟨rfl, rfl, fun k hk => ?_, fun k hk => ?_⟩
          · by_cases heq : k = subIndex
            · by_contra hlost
              exact hkeeps ⟨subIndex, subaddress, subaddresses, hremove, heq ▸ hlost, hrefuses⟩
            · exact (htaken.keys k).mpr (.inl ⟨hk, heq⟩)
          · rcases (htaken.keys k).mp hk with ⟨hk, -⟩ | ⟨-, hlt, -⟩
            · exact .inl hk
            · exact .inr hlt
        · -- The call succeeds.
          obtain ⟨id, inner'', hsucceeded⟩ : ∃ id inner'', inner.newInvoice S env args
            = (.newInvoiceReturned (.ok id), inner'') := newInvoice_succeeded hremove hrefuses
          rw [hsucceeded] at hreturned
          cases hreturned

end PaymentGatewayInner

/-! ## Whole runs -/

namespace System

variable {S : Backend} {s s' : System}

/-- **Whether a turn goes on with a new invoice**: a call that has a subaddress gets a height, and a
call that has an invoice can insert it. -/
def goesOn (s : System) : Turn → Bool
  | .call i env =>
      match s.calls[i]? with
      | some (.addressed _ _ _) => (s.inner.creationHeight env).isSome
      | some (.created invoice) =>
          env.fault.isNone && !s.inner.shared.store.getIds.contains invoice.id
      | _ => true
  | _ => true

/-- **The invariant**: every sub index of the range has a holder. -/
def Conserved (s : System) : Prop :=
  ∀ k, s.inner.subaddresses.InRange k → k ∈ s.owners

/-- The holders when one call is singled out. -/
theorem mem_owners {front back : List Call} {call : Call} (hcalls : s.calls = front ++ call :: back)
    {k : SubIndex} : k ∈ s.owners ↔
      (k ∈ s.invoices.map Invoice.index ∨ k ∈ call.holds ∨ k ∈ s.inner.subaddresses.keys) ∨
        k ∈ (front ++ back).flatMap Call.holds := by
  simp only [owners, hcalls, List.flatMap_append, List.flatMap_cons, List.mem_append]
  tauto

/-- A turn that goes on does not end with an error. -/
theorem not_failed_of_goesOn {i : ℕ} {env : CallEnv} (h : s.turn S (.call i env) = some s')
    (hon : s.goesOn (.call i env) = true) (e : AcceptXmrError) :
    s'.calls[i]? ≠ some (.newInvoiceReturned (.error e)) := by
  intro hfailed
  simp only [turn, callStep] at h
  split at h
  · cases h
  · rename_i call hget
    split at h
    · cases h
    · rename_i call' inner hadvance
      cases h
      obtain ⟨hlt, -⟩ := List.getElem?_eq_some_iff.mp hget
      rw [List.getElem?_set_self hlt] at hfailed
      cases hfailed
      rcases Call.advance_error hadvance with ⟨args, k, a, rfl, hheight⟩ | ⟨invoice, rfl, hrefused⟩
      · simp only [goesOn, hget, hheight] at hon
        cases hon
      · simp only [goesOn, hget, Bool.and_eq_true, Option.isNone_iff_eq_none, List.contains_eq_mem,
          Bool.not_eq_true', decide_eq_false_iff_not] at hon
        rcases hrefused with hfault | hids
        · exact hfault hon.1
        · exact hon.2 hids

/-- **A step of a call** that does not end with an error keeps the invariant. -/
theorem Conserved.call (h : Conserved s) {front back : List Call} {call call' : Call}
    {env : CallEnv} {inner : PaymentGatewayInner} (hcalls : s.calls = front ++ call :: back)
    (hadvances : Call.Advances s.inner env call call' inner)
    (hgoes : ∀ e, call' ≠ .newInvoiceReturned (.error e)) :
    Conserved ⟨inner, front ++ call' :: back, s.scanning⟩ := by
  -- Where the range stays, it is enough that this call loses nothing.
  have hmoves : inner.subaddresses.majorIndex = s.inner.subaddresses.majorIndex →
      inner.subaddresses.highestMinorIndex = s.inner.subaddresses.highestMinorIndex →
      (∀ k, k ∈ s.invoices.map Invoice.index ∨ k ∈ call.holds ∨ k ∈ s.inner.subaddresses.keys →
        k ∈ inner.shared.store.invoices.map Invoice.index ∨ k ∈ call'.holds ∨
          k ∈ inner.subaddresses.keys) →
      Conserved ⟨inner, front ++ call' :: back, s.scanning⟩ := by
    intro hmajor hhighest hkept k hk
    rw [mem_owners rfl]
    refine ((mem_owners hcalls).mp (h k ⟨hk.1.trans hmajor, ?_⟩)).imp_left (hkept k)
    rw [← hhighest]
    exact hk.2
  cases hadvances with
  | @addressed args subIndex subaddress subaddresses hremove =>
      have htaken := SubaddressCache.removeRandom_cases hremove
      intro k hk
      rw [mem_owners rfl]
      by_cases hold : k.minor ≤ s.inner.subaddresses.highestMinorIndex
      · -- The index was in the range before: it is the one taken, or stays where it was.
        have howned := h k ⟨hk.1.trans htaken.majorIndex, hold⟩
        rw [mem_owners hcalls] at howned
        rcases howned with (hinvoice | hheld | hkey) | hother
        · exact .inl (.inl hinvoice)
        · cases hheld
        · by_cases heq : k = subIndex
          · exact .inl (.inr (.inl (heq ▸ List.mem_cons_self)))
          · exact .inl (.inr (.inr ((htaken.keys k).mpr (.inl ⟨hkey, heq⟩))))
        · exact .inr hother
      · -- The range has been extended to the index.
        refine .inl (.inr (.inr ((htaken.keys k).mpr (.inr ⟨?_, UInt32.not_le.mp hold, hk.2⟩))))
        exact hk.1.trans htaken.majorIndex
  | panicked => exact hmoves rfl rfl fun k hk => hk
  | created creationHeight hheight => exact hmoves rfl rfl fun k hk => hk
  | unanswered e => exact absurd rfl (hgoes e)
  | @inserted invoice store hfault hinsert =>
      refine hmoves rfl rfl fun k hk => ?_
      simp only [(Store.insertInvoice_ok hinsert).2, List.map_append, List.mem_append]
      rcases hk with hk | hk | hk
      · exact .inl (.inl hk)
      · exact .inl (.inr hk)
      · exact .inr (.inr hk)
  | notInserted e hrefused => exact absurd rfl (hgoes e)
  | registered => exact hmoves rfl rfl fun k hk => hk
  | @removed id old hfault hget =>
      refine hmoves rfl rfl fun k hk => ?_
      rcases hk with hk | hk | hk
      · -- The index of the removed invoice is held by the call from now on.
        obtain ⟨hold, hid⟩ := Store.mem_of_getInvoice hget
        have hperm := (Store.perm_removeInvoice hget).map Invoice.index
        rcases List.mem_cons.mp (hperm.mem_iff.mpr hk) with rfl | hk
        · refine .inr (.inl ?_)
          rw [← hid]
          exact List.mem_cons_self
        · exact .inl hk
      · cases hk
      · exact .inr (.inr hk)
  | notRemoved result => exact hmoves rfl rfl fun k hk => hk
  | @putBack id old =>
      refine hmoves rfl rfl fun k hk => ?_
      rcases hk with hk | hk | hk
      · exact .inl hk
      · rw [List.mem_singleton.mp hk]
        exact .inr (.inr (IndexMap.mem_keys_insert.mpr (.inr rfl)))
      · exact .inr (.inr (IndexMap.mem_keys_insert.mpr (.inl hk)))
  | unregistered => exact hmoves rfl rfl fun k hk => hk

/-- **Every step** in which no call ends with an error keeps the invariant. -/
theorem Conserved.turns (h : Conserved s) (hs : SoundScan s) {t : Turn} (hturn : s.turn S t = some s')
    (hon : s.goesOn t = true) : Conserved s' := by
  have hturns := turn_cases hturn
  cases hturns with
  | newInvoice args | removeInvoice id =>
      intro k hk
      have howned := h k hk
      simp only [owners, invoices, List.flatMap_append, List.mem_append] at howned ⊢
      exact howned.imp_left fun hclaimed => hclaimed.imp_right .inl
  | @call env front back call call' inner hcalls hadvances =>
      refine h.call hcalls hadvances fun e heq => ?_
      refine not_failed_of_goesOn hturn hon e ?_
      simp [heq]
  | startScan hscanning => exact h
  | finished hscanning => exact h
  | served hscanning =>
      intro k hk
      have howned := h k hk
      have hids := hs.getIds_served (S := S) hscanning
      simp only [Store.getIds] at hids
      simp only [owners, invoices, map_index_eq, hids] at howned ⊢
      exact howned

/-- The invariant holds at the start, whatever is stored. -/
theorem Conserved.start (store : Store) (viewpair : SubIndex → String) (majorIndex : UInt32)
    (rng : List ℕ) (publisher : Publisher) (cachedDaemonHeight : ℕ) (scanner : Scanner) :
    Conserved
      (start (.build store viewpair majorIndex rng publisher cachedDaemonHeight) scanner) := by
  intro k hk
  simp only [owners, System.start, List.flatMap_nil, List.append_nil, List.mem_append]
  by_cases hused : k ∈ store.invoices.map Invoice.index
  · exact .inl hused
  · exact .inr (SubaddressCache.mem_keys_init.mpr ⟨hk.1, hk.2, hused⟩)

/-- A call that has returned holds nothing. -/
theorem holds_of_returned {call : Call} (h : call.inProgress = false) : call.holds = [] := by
  cases call with
  | newInvoiceReturned result | removeInvoiceReturned result | panicked => rfl
  | newInvoice args | addressed args subIndex subaddress | created invoice | inserted id
  | removeInvoice id | removed id old | putBack id old => cases h

/-- **Subaddresses are conserved as long as no `new_invoice` fails.** A call that returns an error
leaves everything as it was if and only if it does not lose its subaddress. In every run of calls
and scans in which every `new_invoice` gets its height and can insert its invoice, every minor index
up to the highest one is available or held by a stored invoice whenever no call is in progress. -/
theorem subaddresses_conserved (store : Store) (viewpair : SubIndex → String) (majorIndex : UInt32)
    (rng : List ℕ) (publisher : Publisher) (cachedDaemonHeight : ℕ) (scanner : Scanner) :
    (∀ (inner : PaymentGatewayInner) env args,
      (∀ e inner', inner.newInvoice S env args = (.newInvoiceReturned (.error e), inner') →
        PaymentGatewayInner.Restored inner inner') ↔ ¬ inner.Loses env) ∧
    (∀ s, Reaches S (fun s t => s.goesOn t = true)
        (start (.build store viewpair majorIndex rng publisher cachedDaemonHeight) scanner) s →
      (∀ call ∈ s.calls, call.inProgress = false) →
      ∀ minor ≤ s.inner.subaddresses.highestMinorIndex,
        ⟨s.inner.subaddresses.majorIndex, minor⟩ ∈ s.inner.subaddresses.keys ∨
        ∃ invoice ∈ s.invoices, invoice.index = ⟨s.inner.subaddresses.majorIndex, minor⟩) := by
  refine ⟨fun inner env args => PaymentGatewayInner.newInvoice_restores_iff S env args inner, ?_⟩
  intro s hrun hreturned minor hminor
  obtain ⟨-, hconserved⟩ := TakesTurn.invariant (fun s => SoundScan s ∧ Conserved s)
    (fun s s' t hP hon hturn => ⟨hP.1.turns (turn_cases hturn), hP.2.turns hP.1 hturn hon⟩) hrun
    ⟨.start _ _, .start store viewpair majorIndex rng publisher cachedDaemonHeight scanner⟩
  have howned := hconserved ⟨_, minor⟩ ⟨rfl, hminor⟩
  rw [owners, List.mem_append, List.mem_append] at howned
  rcases howned with (hinvoice | hheld) | hkey
  · exact .inr (List.mem_map.mp hinvoice)
  · obtain ⟨call, hcall, hholds⟩ := List.mem_flatMap.mp hheld
    rw [holds_of_returned (hreturned call hcall)] at hholds
    cases hholds
  · exact .inl hkey

/-- One invoice is created and another is removed, and no index is lost. -/
theorem subaddresses_conserved_two :
    ∃ s, Reaches .exact (fun s t => s.goesOn t = true) (small smallStore []) s ∧
      s.calls = [.newInvoiceReturned (.ok ⟨⟨0, 0⟩, 5⟩), .removeInvoiceReturned
        (.ok (some (Invoice.new "" ⟨0, 1⟩ 1 10 1 100 "")))] ∧
      ∀ minor ≤ s.inner.subaddresses.highestMinorIndex,
        ⟨s.inner.subaddresses.majorIndex, minor⟩ ∈ s.inner.subaddresses.keys ∨
        ∃ invoice ∈ s.invoices, invoice.index = ⟨s.inner.subaddresses.majorIndex, minor⟩ := by
  have hend : (after .exact goesOn
      (.newInvoice smallArgs :: .removeInvoice ⟨⟨0, 1⟩, 1⟩ :: List.replicate 4 (.call 0 {}) ++
        List.replicate 3 (.call 1 {})) (small smallStore [])).map System.calls
      = some [.newInvoiceReturned (.ok ⟨⟨0, 0⟩, 5⟩), .removeInvoiceReturned
        (.ok (some (Invoice.new "" ⟨0, 1⟩ 1 10 1 100 "")))] := by decide +kernel
  obtain ⟨s, hs, hcalls⟩ := Option.map_eq_some_iff.mp hend
  have hreaches : Reaches .exact (fun s t => s.goesOn t = true) (small smallStore []) s :=
    after_reaches (fun _ _ h => h) hs
  refine ⟨s, hreaches, hcalls, ?_⟩
  refine (subaddresses_conserved smallStore _ _ _ _ _ _).2 s hreaches ?_
  rw [hcalls]
  decide

/-- A gateway that has not learned the daemon's height yet. -/
def unheard : System := start (.build smallStore (fun _ => "") 0 [] .new 0) idleScanner

/-- **A failed call loses a subaddress**: the daemon does not answer, `new_invoice` returns the error,
and index 0 is neither available any more nor held by an invoice. -/
theorem subaddress_lost :
    ∃ s, Reaches .exact anyTurn unheard s ∧
      s.calls = [.newInvoiceReturned (.error (.rpc .request))] ∧
      ⟨0, 0⟩ ∈ unheard.inner.subaddresses.keys ∧ s.inner.subaddresses.majorIndex = 0 ∧
      0 ≤ s.inner.subaddresses.highestMinorIndex ∧ ⟨0, 0⟩ ∉ s.inner.subaddresses.keys ∧
      ∀ invoice ∈ s.invoices, invoice.index ≠ ⟨0, 0⟩ := by
  have hend : (after .exact (fun _ _ => true) (.newInvoice smallArgs :: List.replicate 2 (.call 0 {}))
      unheard).map (fun s => (s.calls, s.inner.subaddresses.majorIndex,
        decide (⟨0, 0⟩ ∈ s.inner.subaddresses.keys), s.invoices.map Invoice.index))
      = some ([.newInvoiceReturned (.error (.rpc .request))], 0, false, [⟨0, 1⟩]) := by
    decide +kernel
  obtain ⟨s, hs, heq⟩ := Option.map_eq_some_iff.mp hend
  obtain ⟨hcalls, hmajor, hkeys, hindexes⟩ : _ ∧ _ ∧ _ ∧ _ := by
    simpa only [Prod.mk.injEq] using heq
  refine ⟨s, after_reaches (fun _ _ _ => trivial) hs, hcalls, by decide +kernel, hmajor, ?_,
    of_decide_eq_false hkeys, fun invoice hmem hindex => ?_⟩
  · exact UInt32.le_iff_toNat_le.mpr (Nat.zero_le _)
  · have hmem' : invoice.index ∈ s.invoices.map Invoice.index := List.mem_map_of_mem hmem
    rw [hindexes, hindex] at hmem'
    revert hmem'
    decide

end System

end AcceptXmr
