import AcceptXmr.Scanner.ScanTransactions
import AcceptXmr.Storage.Channel

/-! # Output keys are credited once

The protection against the burning bug: a one-time public key that occurs in two outputs can be
spent only once, so only one of them may count as received. The check of the scanner is a read and
a later write, sent by several scans at the same time; what makes it safe is that the store refuses
to record a key twice.

* **`received_once`** — over any run of any number of scans, started, interleaved, aborted and
  restarted in any way, the received amounts with one key stem from one output, a recorded id never
  changes, and the recorded output is accepted by every later scan. -/

namespace AcceptXmr

open AssocMap

/-- The amounts found by one output at a time are those of the resulting map. -/
theorem mem_amountsIn_pushEntry {m : List (Hash × List OwnedAmount)} {txHash : Hash}
    {a b : OwnedAmount} : b ∈ amountsIn (pushEntry m txHash a) ↔ b ∈ amountsIn m ∨ b = a := by
  rw [amountsIn, (flatMap_pushEntry_perm m txHash a).mem_iff, List.mem_append, List.mem_singleton,
    amountsIn]

/-- **Every request keeps recorded keys**, whoever sends it. -/
theorem handle_keysKept (S : Backend) (req : Request) (s : Shared) :
    KeysKept s (handle S req s).2 := by
  -- Only `insertOutputKey` writes to the record, and it does not overwrite.
  cases req with
  | insertInvoice invoice =>
      simp only [handle, serve, Store.insertInvoice]
      by_cases h : invoice.id ∈ s.store.invoices.map Invoice.id
      · rw [dif_pos h]
        exact .refl s
      · rw [dif_neg h]
        exact .refl s
  | updateInvoice invoice =>
      simp only [handle, serve]
      split <;> exact .refl s
  | containsSubIndex index => exact (handle_containsSubIndex_grows S index s).keysKept
  | forEachInvoice =>
      simp only [handle, serve]
      split <;> exact .refl s
  | upsertHeight height =>
      simp only [handle, serve]
      split <;> exact .refl s
  | getOutputKeyId key => exact (handle_getOutputKeyId_grows S key s).keysKept
  | insertOutputKey key outputId => exact (handle_insertOutputKey_grows S key outputId s).keysKept
  | flush =>
      simp only [handle, serve]
      split <;> exact .refl s
  | removeInvoice id => exact .refl s
  | getInvoice id => exact .refl s
  | getInvoiceIds => exact .refl s
  | lowestInvoiceHeight => exact .refl s
  | getHeight => exact .refl s
  | sendUpdates invoice => exact .refl s

section Interference

variable {S : Backend} {R : Shared → Shared → Prop}

/-- What scanning returns under interference that keeps recorded keys: amounts of accepted outputs
only, and those of every accepted output whose index stays tracked. -/
theorem scanOutputs_owned (hrefl : ∀ s, R s s) (htrans : ∀ a b c, R a b → R b c → R a c)
    (hgrows : ∀ s t, Grows s t → R s t) (hR : ∀ s t, R s t → KeysKept s t)
    (outputs : List (Hash × OwnedTxOut)) (amountsReceived : List (Hash × List OwnedAmount))
    (s : Shared) :
    (scanOutputs outputs amountsReceived).Sat (handle S) R Grows (fun r t => ∀ m, r = .ok m →
      (∀ a ∈ amountsIn m, a ∈ amountsIn amountsReceived ∨
        t.store.outputKeys a.key = some a.outputId) ∧
      (∀ a ∈ amountsIn amountsReceived, a ∈ amountsIn m) ∧
      ∀ p ∈ outputs, Accepted s.store.outputKeys p →
        (∀ u, R s u → S.containsSubIndex u.store.invoices p.2.subIndex = true) →
        ∃ a ∈ amountsIn m, receivedWith p = some (p.1, a)) s := by
  induction outputs generalizing amountsReceived s with
  | nil =>
      intro t _ m h
      cases h
      exact ⟨fun a ha => .inl ha, fun a ha => ha, fun p hp => absurd hp (by simp)⟩
  | cons p rest ih =>
      obtain ⟨txHash, output⟩ := p
      refine Resumption.Sat.bind hrefl ?_
      refine ((scanOutput_sat hrefl htrans hgrows hR txHash output s).track htrans
        (fun _ _ h => h) hgrows (hrefl s)).mono (fun _ _ h => h) (fun _ _ h => h) ?_
      rintro (e | got) t ⟨hgot, hst⟩
      · intro m h
        cases h
      · obtain ⟨-, hrec, u, hsu, hut, hgot⟩ := hgot got rfl
        -- What was accepted before is still accepted when the output is looked at.
        have hhead : Accepted s.store.outputKeys (txHash, output) →
            (∀ u, R s u → S.containsSubIndex u.store.invoices output.subIndex = true) →
            ∃ a, got = some a ∧ receivedWith (txHash, output) = some (txHash, a) := by
          intro hacc htracked
          rwa [if_pos ⟨hR _ _ hst _ _ hacc, htracked u hsu⟩] at hgot
        cases got with
        | none =>
            refine (ih amountsReceived t).mono (fun _ _ h => h) (fun _ _ h => h) ?_
            intro r v hv m hm
            obtain ⟨hsound, hkeep, hall⟩ := hv m hm
            refine ⟨hsound, hkeep, fun q hq hacc htracked => ?_⟩
            rcases List.mem_cons.mp hq with rfl | hq
            · obtain ⟨a, ha, -⟩ := hhead hacc htracked
              cases ha
            · exact hall q hq (hR _ _ hst _ _ hacc) fun w hw => htracked w (htrans _ _ _ hst hw)
        | some amount =>
            refine ((ih (pushEntry amountsReceived txHash amount) t).track htrans
              (fun _ _ h => h) hgrows (hrefl t)).mono (fun _ _ h => h) (fun _ _ h => h) ?_
            rintro r v ⟨hv, htv⟩ m hm
            obtain ⟨hsound, hkeep, hall⟩ := hv m hm
            refine ⟨fun a ha => ?_, fun a ha => hkeep a (mem_amountsIn_pushEntry.mpr (.inl ha)),
              fun q hq hacc htracked => ?_⟩
            · rcases hsound a ha with ha | ha
              · -- The amount of this output: its key is recorded, and stays so until the end.
                refine (mem_amountsIn_pushEntry.mp ha).imp id fun heq => ?_
                split at hgot
                · rename_i hreceived
                  obtain ⟨b, hb, hwith⟩ := hgot
                  cases hb
                  obtain ⟨-, -, -, hkey, hid⟩ := receivedWith_eq_some hwith
                  rw [heq, hkey, hid]
                  exact hR _ _ htv _ _ hreceived.1
                · cases hgot
              · exact .inr ha
            · rcases List.mem_cons.mp hq with rfl | hq
              · obtain ⟨a, ha, hwith⟩ := hhead hacc htracked
                cases ha
                exact ⟨amount, hkeep _ (mem_amountsIn_pushEntry.mpr (.inr rfl)), hwith⟩
              · exact hall q hq (hR _ _ hst _ _ hacc) fun w hw => htracked w (htrans _ _ _ hst hw)

end Interference

/-! ## Whole runs -/

/-- What may happen to the store between two requests of a scan: a request of anyone else is
served, or other requests start to fail. -/
inductive Interference (S : Backend) : Shared → Shared → Prop where
  | request (req : Request) (s : Shared) : Interference S s (handle S req s).2
  | faults (faults : Faults) (s : Shared) : Interference S s { s with faults := faults }

theorem Interference.keysKept {S : Backend} {s t : Shared} (h : Interference S s t) :
    KeysKept s t := by
  cases h with
  | request req => exact handle_keysKept S req s
  | faults faults => exact .refl s

/-- The programs whose requests are interleaved: calls of `scan_transactions` on arbitrary
transactions. -/
def IsScan (p : Program (List (Hash × List OwnedAmount))) : Prop :=
  ∃ checkFails transactions checker, p = scanTransactions checkFails transactions checker

/-- The scans in flight over one store, with what they have returned. -/
abbrev Scans := Pool Request Request.Response ScannerError (List (Hash × List OwnedAmount)) Shared

/-- A step of a run of scans. A restart is a number of aborts. -/
abbrev Scans.Step (S : Backend) : Scans → Scans → Prop := Pool.Step (handle S) (Interference S) IsScan

/-- All amounts that scans have returned so far. -/
def Scans.received (scans : Scans) : List OwnedAmount :=
  scans.returned.flatMap fun
    | .ok amountsReceived => amountsIn amountsReceived
    | .error _ => []

/-- Under interference that keeps recorded keys, a scan returns amounts whose keys are recorded
under their own ids. -/
theorem scanTransactions_owned (S : Backend) {p : Program (List (Hash × List OwnedAmount))}
    (hp : IsScan p) (s : Shared) :
    p.Sat (handle S) KeysKept KeysKept (fun r t => ∀ m, r = .ok m → ∀ a ∈ amountsIn m,
      t.store.outputKeys a.key = some a.outputId) s := by
  obtain ⟨checkFails, transactions, checker, rfl⟩ := hp
  unfold scanTransactions
  split
  · intro t _ m h
    cases h
  · refine (scanOutputs_owned KeysKept.refl (fun _ _ _ => KeysKept.trans)
      (fun _ _ h => h.keysKept) (fun _ _ h => h) _ [] s).mono (fun _ _ h => h)
      (fun _ _ h => h.keysKept) ?_
    intro r t hr m hm a ha
    obtain ⟨hsound, -, -⟩ := hr m hm
    exact (hsound a ha).resolve_left (by simp [amountsIn])

/-- Everything a run of scans has returned is recorded under its own id, and the run has kept the
ids recorded before. -/
theorem Scans.reachable {S : Backend} {s : Shared} {scans scans' : Scans}
    (hs : Relation.ReflTransGen (Scans.Step S) ⟨s, [], []⟩ scans)
    (hs' : Relation.ReflTransGen (Scans.Step S) scans scans') :
    (∀ a ∈ scans.received, scans.state.store.outputKeys a.key = some a.outputId) ∧
      KeysKept scans.state scans'.state := by
  have hmono : ∀ c c', Scans.Step S c c' → Pool.Step (handle S) KeysKept IsScan c c' :=
    fun _ _ h => h.mono fun _ _ hi => hi.keysKept
  have hstart : Pool.Ok (handle S) KeysKept (fun r t => ∀ m, r = .ok m → ∀ a ∈ amountsIn m,
      t.store.outputKeys a.key = some a.outputId) (⟨s, [], []⟩ : Scans) :=
    ⟨fun p hp => absurd hp (by simp), fun r hr => absurd hr (by simp)⟩
  have htrans : ∀ a b c, KeysKept a b → KeysKept b c → KeysKept a c := fun _ _ _ => KeysKept.trans
  obtain ⟨hok, -⟩ := hstart.reachable KeysKept.refl htrans (fun p hp => scanTransactions_owned S hp)
    (Relation.ReflTransGen.mono hmono _ _ hs)
  obtain ⟨-, hkept⟩ := hok.reachable KeysKept.refl htrans (fun p hp => scanTransactions_owned S hp)
    (Relation.ReflTransGen.mono hmono _ _ hs')
  refine ⟨fun a ha => ?_, hkept⟩
  obtain ⟨r, hr, ha⟩ := List.mem_flatMap.mp ha
  cases r with
  | error e => simp at ha
  | ok m => exact hok.returned _ hr _ (KeysKept.refl _) m rfl a ha

/-- Recorded keys are kept, and so is a tracked index. -/
def StaysTracked (S : Backend) (index : SubIndex) (s t : Shared) : Prop :=
  KeysKept s t ∧ (S.containsSubIndex s.store.invoices index = true →
    S.containsSubIndex t.store.invoices index = true)

/-- **Burning-bug protection.** Over any run of scans on one store, restarts included: amounts
received with the same key stem from the same output; recorded ids never change; and an output
recorded under its own id passes the check of every later scan, which returns its amount as long
as its index is tracked. -/
theorem received_once {S : Backend} {s : Shared} {scans scans' : Scans}
    (hs : Relation.ReflTransGen (Scans.Step S) ⟨s, [], []⟩ scans)
    (hs' : Relation.ReflTransGen (Scans.Step S) scans scans') :
    (∀ a ∈ scans.received, ∀ b ∈ scans.received, a.key = b.key → a.outputId = b.outputId) ∧
    (∀ key id, scans.state.store.outputKeys key = some id →
      scans'.state.store.outputKeys key = some id) ∧
    ∀ (tx : Transaction) (output : OwnedTxOut),
      scans.state.store.outputKeys output.key = some (tx.outputId output) →
      (outputKeyIsUnique output tx.hash).Sat (handle S) KeysKept KeysKept
          (fun r _ => r ≠ .ok false) scans'.state ∧
        ∀ checkFails transactions checker, tx ∈ transactions → tx.unlockTime = 0 →
          output ∈ tx.checkOutputsWith checker →
          S.containsSubIndex scans'.state.store.invoices output.subIndex = true →
          (scanTransactions checkFails transactions checker).Sat (handle S)
            (StaysTracked S output.subIndex) (StaysTracked S output.subIndex)
            (fun r _ => ∀ m, r = .ok m → ∃ a ∈ amountsIn m, a.key = output.key ∧
              a.outputId = tx.outputId output ∧ output.amount = some a.amount) scans'.state := by
  obtain ⟨hreceived, hkept⟩ := Scans.reachable hs hs'
  refine ⟨fun a ha b hb hkey => ?_, hkept, fun tx output hown => ⟨?_, ?_⟩⟩
  · -- Two received amounts of one key have been accepted under its one recorded id.
    have ha' := hreceived a ha
    rw [hkey, hreceived b hb] at ha'
    exact (Option.some.inj ha').symm
  · -- Later checks find the key recorded under its own id, however many of them interleave.
    have hown' := hkept _ _ hown
    have hcheck := (outputKeyIsUnique_sat (S := S) KeysKept.refl (fun _ _ h => h) output tx.hash
      scans'.state).track (M := KeysKept) (fun _ _ _ => KeysKept.trans) (fun _ _ h => h)
      (fun _ _ h => h.keysKept) (KeysKept.refl _)
    refine hcheck.mono (fun _ _ h => h) (fun _ _ h => h.keysKept) ?_
    rintro r t ⟨hr, hst⟩ hfalse
    obtain ⟨-, -, hiff⟩ := hr false hfalse
    exact absurd (hiff.mpr (hst _ _ hown')) (by simp)
  · intro checkFails transactions checker htx hlock hout htracked
    have hgrows : ∀ s t, Grows s t → StaysTracked S output.subIndex s t :=
      fun _ _ h => ⟨h.keysKept, fun hc => by rw [h.invoices]; exact hc⟩
    -- A scan of the transaction may fail, but it does not leave the output out.
    unfold scanTransactions
    split
    · intro t _ m h
      cases h
    · refine (scanOutputs_owned (fun s => ⟨.refl s, id⟩)
        (fun _ _ _ h h' => ⟨h.1.trans h'.1, h'.2 ∘ h.2⟩) hgrows (fun _ _ h => h.1) _ [] _).mono
        (fun _ _ h => h) hgrows ?_
      intro r t hr m hm
      obtain ⟨-, -, hall⟩ := hr m hm
      have hmem : (tx.hash, output) ∈ ownedOutputs checker transactions := by
        simp only [ownedOutputs, List.mem_flatMap, List.mem_filter, List.mem_map]
        exact ⟨tx, ⟨htx, by simpa using hlock⟩, output, hout, rfl⟩
      obtain ⟨a, ha, hwith⟩ := hall _ hmem (hkept _ _ hown) fun u hu => hu.2 htracked
      obtain ⟨-, -, hamount, hkey, hid⟩ := receivedWith_eq_some hwith
      exact ⟨a, ha, hkey, hid, hamount⟩

/-- Transaction `h` pays 5 piconeros to index 1, with the same key whatever `h` is. -/
def burningTx (h : Hash) : Transaction := ⟨h, 0, [⟨0, ⟨7⟩, ⟨0, 1⟩, some 5⟩]⟩

/-- A store that tracks index 1. -/
def burningStore : Shared where
  store := ⟨[Invoice.new "" ⟨0, 1⟩ 1 10 1 10 ""], fun _ => none, none, by decide⟩

/-- A scan of one of these transactions. -/
def burningScan (h : Hash) : Program (List (Hash × List OwnedAmount)) :=
  scanTransactions (fun _ => false) [burningTx h] ⟨(0, 1), (0, 2)⟩

/-- Two scans that meet the key in two transactions ask whether it is known before either of them
records it, so that one of them fails. The second transaction is scanned again while the first scan
still runs: the key is credited once. -/
theorem received_once_same_key :
    ∃ scans : Scans, scans.tasks = [] ∧ scans.returned.length = 3 ∧
      scans.received.map (fun a => (a.amount, a.outputId)) = [(5, ⟨1, 0⟩)] ∧
      ∀ a ∈ scans.received, ∀ b ∈ scans.received, a.key = b.key → a.outputId = b.outputId := by
  let goOn := replay (Pool.goOn (handle .exact)) fun (_ : Scans) _ => true
  have hend : ((goOn [0, 1, 0, 1, 1] ⟨burningStore, [burningScan 1, burningScan 2], []⟩).bind
      fun mid => (goOn [0, 1, 0, 0] ⟨mid.state, burningScan 2 :: mid.tasks, mid.returned⟩).map
        fun scans => (scans.tasks.length, scans.returned.length,
          (Scans.received scans).map fun a => (a.amount, a.outputId)))
      = some (0, 3, [(5, ⟨1, 0⟩)]) := by
    decide +kernel
  obtain ⟨mid, hmid, hend⟩ := Option.bind_eq_some_iff.mp hend
  obtain ⟨scans, hscans, heq⟩ := Option.map_eq_some_iff.mp hend
  obtain ⟨htasks, hreturned, hreceived⟩ : _ ∧ _ ∧ _ := by simpa only [Prod.mk.injEq] using heq
  have hscan : ∀ h, IsScan (burningScan h) := fun h => ⟨_, _, _, rfl⟩
  have hstarted : Relation.ReflTransGen (Scans.Step .exact) ⟨burningStore, [], []⟩
      ⟨burningStore, [burningScan 1, burningScan 2], []⟩ :=
    .tail (.single (.spawn _ (hscan 2))) (.spawn _ (hscan 1))
  have hrun := ((hstarted.trans (Pool.goOn_run hmid)).tail (.spawn _ (hscan 2))).trans
    (Pool.goOn_run hscans)
  exact ⟨scans, List.eq_nil_of_length_eq_zero htasks, hreturned, hreceived,
    (received_once hrun .refl).1⟩

/-! ## Over the channel -/

/-- What runs over the channel of the storage manager: scans, and anything else, which receives
nothing. -/
def IsClient (p : Program (List (Hash × List OwnedAmount))) : Prop :=
  IsScan p ∨ ∃ other : Program Unit, p = other.bind fun _ => .done (.ok [])

/-- Whatever a client asks for, and whatever others do meanwhile, recorded keys are kept. -/
theorem sat_keysKept (S : Backend) {α : Type} (p : Program α) (s : Shared) :
    p.Sat (handle S) KeysKept KeysKept (fun _ _ => True) s := by
  induction p generalizing s with
  | done r => exact fun _ _ => trivial
  | call req next ih => exact fun t _ => ⟨handle_keysKept S req t, ih _ _⟩

/-- What a client receives is recorded under its own id. -/
theorem client_owned (S : Backend) {p : Program (List (Hash × List OwnedAmount))}
    (hp : IsClient p) (s : Shared) :
    p.Sat (handle S) KeysKept KeysKept (fun r t => ∀ m, r = .ok m → ∀ a ∈ amountsIn m,
      t.store.outputKeys a.key = some a.outputId) s := by
  rcases hp with hscan | ⟨other, rfl⟩
  · exact scanTransactions_owned S hscan s
  · refine Resumption.Sat.bind KeysKept.refl ((sat_keysKept S other s).mono (fun _ _ h => h)
      (fun _ _ h => h) fun r t _ => ?_)
    cases r with
    | error e => exact fun m hm => by cases hm
    | ok u =>
        intro t' _ m hm a ha
        cases hm
        cases ha

/-- **Burning-bug protection, message by message.** However the messages of concurrent scans and of
all other clients of the storage manager are interleaved, and whichever clients are dropped with
messages in the channel: amounts received with the same key stem from the same output, and recorded
ids never change. -/
theorem channel_received_once {S : Backend} {s : Shared} {events events' : List (MailEvent Request)}
    {c c' : StorageChannel ScannerError (List (Hash × List OwnedAmount))}
    (hruns : Mailbox.Runs (manager S neverPanics) IsClient (.start s) events c)
    (hruns' : Mailbox.Runs (manager S neverPanics) IsClient c events' c') :
    (∀ a ∈ Scans.received c.seen, ∀ b ∈ Scans.received c.seen, a.key = b.key →
      a.outputId = b.outputId) ∧
      ∀ key id, c.state.store.outputKeys key = some id →
        c'.state.store.outputKeys key = some id := by
  have hsound : Mailbox.Sound (manager S neverPanics) c := (Mailbox.Sound.start s).runs hruns
  have hpool := (hruns.refines_pool (manager_neverPanics S) (.start s) rfl)
  have hpool' := hruns'.refines_pool (manager_neverPanics S) hsound
    (hruns.running (manager_neverPanics S) rfl)
  have hmono : ∀ a b : Scans, Pool.Step (handle S) (fun _ _ => False) IsClient a b →
      Pool.Step (handle S) KeysKept IsClient a b := fun _ _ h => h.mono fun _ _ hfalse => hfalse.elim
  have hstart : Pool.Ok (handle S) KeysKept (fun r t => ∀ m, r = .ok m → ∀ a ∈ amountsIn m,
      t.store.outputKeys a.key = some a.outputId) (Mailbox.seen (.start s) : Scans) :=
    ⟨fun p hp => absurd hp (by simp [Mailbox.seen, Mailbox.start]),
      fun r hr => absurd hr (by simp [Mailbox.seen, Mailbox.start])⟩
  have htrans : ∀ a b c, KeysKept a b → KeysKept b c → KeysKept a c := fun _ _ _ => KeysKept.trans
  obtain ⟨hok, -⟩ := hstart.reachable KeysKept.refl htrans (fun p hp => client_owned S hp)
    (Relation.ReflTransGen.mono hmono _ _ hpool)
  obtain ⟨-, hkept⟩ := hok.reachable KeysKept.refl htrans (fun p hp => client_owned S hp)
    (Relation.ReflTransGen.mono hmono _ _ hpool')
  have howned : ∀ a ∈ Scans.received c.seen, c.state.store.outputKeys a.key = some a.outputId := by
    intro a ha
    obtain ⟨r, hr, ha⟩ := List.mem_flatMap.mp ha
    cases r with
    | error e => simp at ha
    | ok m => exact hok.returned _ hr _ (KeysKept.refl _) m rfl a ha
  refine ⟨fun a ha b hb hkey => ?_, hkept⟩
  have ha' := howned a ha
  rw [hkey, howned b hb] at ha'
  exact (Option.some.inj ha').symm

/-- The two scans at once over the channel, where both ask for the key before either of them records
it. The scan whose message comes second fails. -/
theorem channel_received_once_same_key :
    ∃ events events' c c',
      Mailbox.Runs (manager .exact neverPanics) IsClient (.start burningStore) events c ∧
      Mailbox.Runs (manager .exact neverPanics) IsClient c events' c' ∧
      c.callers.length = 2 ∧ c'.callers = [] ∧ c'.returned.length = 2 ∧
      (Scans.received c'.seen).map (fun a => (a.amount, a.outputId)) = [(5, ⟨1, 0⟩)] ∧
      c'.state.store.outputKeys ⟨7⟩ = some ⟨1, 0⟩ ∧
      ∀ a ∈ Scans.received c'.seen, ∀ b ∈ Scans.received c'.seen, a.key = b.key →
        a.outputId = b.outputId := by
  have hscan : ∀ h, IsClient (burningScan h) := fun h => .inl ⟨_, _, _, rfl⟩
  have hT := manager_neverPanics .exact
  have hstarted : Mailbox.Runs (manager .exact neverPanics) IsClient (.start burningStore)
      [.other, .other]
      ⟨burningStore, true, [], [(1, .active (burningScan 1)), (0, .active (burningScan 2))], 2, []⟩ :=
    (Mailbox.Runs.refl.tail (.spawn _ (hscan 2))).tail (.spawn _ (hscan 1))
  -- The messages that ask for the key, and those that record it.
  have hcapacity : 1 < channelSize := by decide
  obtain ⟨asking, hasked⟩ := hstarted.twoMessages hT hcapacity rfl rfl rfl rfl
  obtain ⟨recording, hrecorded⟩ := hasked.twoMessages hT hcapacity rfl rfl rfl rfl
  have hfailed := hrecorded.onward.tail (.advance (.finish [(1, .active _)] rfl))
  obtain ⟨rest, hrest⟩ := hfailed.lastCaller hT (Nat.zero_lt_of_lt hcapacity)
  obtain ⟨-, hkept⟩ := channel_received_once hrecorded hrest
  exact ⟨_, _, _, _, hrecorded, hrest, rfl, rfl, rfl, rfl, hkept _ _ rfl,
    (channel_received_once (hrecorded.trans hrest) .refl).1⟩

end AcceptXmr
