import AcceptXmr.Library.Mailbox
import AcceptXmr.Storage.Manager

/-! # The channel of the storage manager

`library/src/storage/mod.rs`: `Client::new` moves the store into a task that takes messages from a
channel of 64 places. A method of `Client` sends its message and then awaits the answer on a
channel of its own; either fails when the task is gone. `Manager.lean` takes a request for one step
of the store, which is what this module proves:

* **`manager_refines`** — what clients see of the channel, they see of the store with atomic
  requests.
* **`manager_inOrder`** — requests reach the store once each, in the order in which they were sent.
* **`manager_live`** — every call comes back, also when the store panics. -/

namespace AcceptXmr

open Mailbox

/-- The requests that are messages: all but the publication of an update, which is no business of
the storage manager. -/
def Request.isMessage : Request → Bool
  | .sendUpdates _ => false
  | _ => true

/-- The error of a message that could not be sent, or was not answered. -/
def StorageError.ofRefusal : Refusal → StorageError
  | .send => .send
  | .receive => .receive

/-- What a method of `Client` returns without an answer of the manager. -/
def Request.refuse : (req : Request) → Refusal → req.Response
  | .insertInvoice _, why => .error (.ofRefusal why)
  | .removeInvoice _, why => .error (.ofRefusal why)
  | .updateInvoice _, why => .error (.ofRefusal why)
  | .getInvoice _, why => .error (.ofRefusal why)
  | .getInvoiceIds, why => .error (.ofRefusal why)
  | .containsSubIndex _, why => .error (.ofRefusal why)
  | .forEachInvoice, why => .error (.ofRefusal why)
  | .lowestInvoiceHeight, why => .error (.ofRefusal why)
  | .getHeight, why => .error (.ofRefusal why)
  | .upsertHeight _, why => .error (.ofRefusal why)
  | .getOutputKeyId _, why => .error (.ofRefusal why)
  | .insertOutputKey _ _, why => .error (.ofRefusal why)
  | .flush, why => .error (.ofRefusal why)
  | .sendUpdates _, _ => ()

/-- The places of the channel. -/
def channelSize : ℕ := 64

/-- The task of `Client::new`. A store may be of any make: `panics` says for which requests its
method panics, and what it leaves of the store. -/
def manager (S : Backend) (panics : Request → Shared → Option Shared) :
    Task Request Request.Response Shared where
  capacity := channelSize
  inPlace req := !req.isMessage
  handle req self :=
    match req.isMessage, panics req self with
    | true, some self' => (none, self')
    | _, _ => (some (handle S req self).1, (handle S req self).2)
  refuse := Request.refuse

/-- A store that never panics. -/
def neverPanics (_ : Request) (_ : Shared) : Option Shared := none

/-- The channel of the manager and its clients. -/
abbrev StorageChannel (ε α : Type) := Mailbox Request Request.Response ε α Shared

variable {S : Backend} {panics : Request → Shared → Option Shared} {ε α : Type}
  {mayStart : Resumption Request Request.Response ε α → Prop} {s : Shared}
  {events : List (MailEvent Request)} {c : StorageChannel ε α}

/-- `Client::insert_invoice`. -/
def StorageClient.insertInvoice (invoice : Invoice) :
    Resumption Request Request.Response StorageError Unit :=
  .call (.insertInvoice invoice) .done

/-- A message is handled as `Manager::handle` says. -/
theorem manager_neverPanics (S : Backend) (req : Request) (s : Shared) :
    (manager S neverPanics).handle req s = (some (handle S req s).1, (handle S req s).2) := by
  cases req <;> rfl

/-- Publishing an update is always answered. -/
theorem manager_inPlace {req : Request} (s : Shared) (h : (manager S panics).inPlace req = true) :
    (manager S panics).handle req s = (some (handle S req s).1, (handle S req s).2) := by
  cases req with
  | sendUpdates invoice => rfl
  | _ => cases h

/-- **The channel refines the atomic store.** Whatever clients run over the channel, in whatever
order their messages are sent, handled and answered, and whichever of them are dropped on the way:
what they have returned, what they have still to do and what the store holds is what a run gives in
which each request is one step of the store. -/
theorem manager_refines (hruns : Runs (manager S neverPanics) mayStart (.start s) events c) :
    Relation.ReflTransGen (Pool.Step (handle S) (fun _ _ => False) mayStart) ⟨s, [], []⟩ c.seen :=
  hruns.refines_pool (manager_neverPanics S) (.start s) rfl

/-- One invoice, inserted by two clients. The first is dropped while it waits, so that only the
second one learns of the first. -/
def droppedInsert : StorageChannel StorageError Unit :=
  let invoice := Invoice.new "" ⟨0, 3⟩ 1 10 1 10 ""
  ⟨{ store := ⟨[invoice], fun _ => none, none, List.nodup_singleton _⟩ }, true, [], [], 2,
    [.error (.internal .duplicateInvoice)]⟩

/-- What happens in the channel until then. -/
def droppedInsertEvents : List (MailEvent Request) :=
  let insert := Request.insertInvoice (Invoice.new "" ⟨0, 3⟩ 1 10 1 10 "")
  [.other, .other, .sent 0 insert, .sent 1 insert, .other, .handled 0 insert, .handled 1 insert,
    .other, .other]

/-- The run that leads there. -/
theorem droppedInsert_runs :
    Runs (manager .exact neverPanics) (fun _ => True) (.start { store := .empty })
      droppedInsertEvents droppedInsert := by
  let client := StorageClient.insertInvoice (Invoice.new "" ⟨0, 3⟩ 1 10 1 10 "")
  have started : Runs (manager .exact neverPanics) (fun _ => True) (.start { store := .empty })
      [.other, .other] ⟨{ store := .empty }, true, [], [(1, .active client), (0, .active client)],
        2, []⟩ :=
    (Runs.refl.tail (.spawn client trivial)).tail (.spawn client trivial)
  have sent := (started.tail (.advance (.send [(1, .active client)] rfl rfl rfl
    (Nat.succ_pos 63)))).tail (.advance (.send [] rfl rfl rfl (Nat.succ_lt_succ (Nat.succ_pos 62))))
  have dropped := sent.tail (.abandon [(1, .waiting _ _ .pending)] rfl)
  have handled := (dropped.tail (.advance (.discard [(1, .waiting _ _ .pending)] rfl rfl
    rfl))).tail (.advance (.answer [] rfl rfl rfl))
  exact (handled.tail (.advance (.receive [] rfl))).tail (.advance (.finish [] rfl))

/-- Seen from its clients, the dropped insertion is one that was carried out before the other one. -/
theorem manager_refines_droppedInsert :
    Relation.ReflTransGen (Pool.Step (handle .exact) (fun _ _ => False) (fun _ => True))
        ⟨{ store := .empty }, [], []⟩ droppedInsert.seen ∧
      droppedInsert.seen.tasks = [] ∧
      droppedInsert.seen.returned = [.error (.internal .duplicateInvoice)] :=
  ⟨manager_refines droppedInsert_runs, rfl, rfl⟩

/-- **Requests reach the store in order.** The requests handled are the oldest of those sent, each
once; while the manager runs the others are in the channel, at most 64, each with a client of its
own; and the store is that of the requests carried out so far, one after the other. -/
theorem manager_inOrder (hruns : Runs (manager S panics) mayStart (.start s) events c) :
    handledIn events ++ c.queue <+: sentIn events ∧
      (c.running = true → handledIn events ++ c.queue = sentIn events) ∧
      c.queue.length ≤ channelSize ∧
      c.queue.Perm (c.callers.filterMap Caller.message) ∧
      c.state = (requestsIn events).foldl (fun s req => ((manager S panics).handle req s).2) s := by
  have hstart : Sound (manager S panics) (.start s : StorageChannel ε α) := .start s
  have hsound := hstart.runs hruns
  obtain ⟨holdest, hall⟩ := hruns.inOrder hstart rfl
  exact ⟨holdest, hall, hsound.room, hsound.queued, hruns.state_eq⟩

/-- Both insertions have reached the store, in the order in which they were sent. -/
theorem manager_inOrder_droppedInsert :
    handledIn droppedInsertEvents ++ droppedInsert.queue = sentIn droppedInsertEvents ∧
      droppedInsert.state = (requestsIn droppedInsertEvents).foldl
        (fun s req => ((manager .exact neverPanics).handle req s).2) { store := .empty } :=
  ⟨(manager_inOrder droppedInsert_runs).2.1 rfl, (manager_inOrder droppedInsert_runs).2.2.2.2⟩

/-- **Every call comes back.** As long as there are clients, the manager or one of them can go on,
and without new clients there is no run without end. A store that panics makes no difference, except
that nothing reaches it from then on. -/
theorem manager_live (hruns : Runs (manager S panics) mayStart (.start s) events c) :
    (c.callers ≠ [] → ∃ event c', Advance (manager S panics) event c c') ∧
      (∀ run : ℕ → StorageChannel ε α, run 0 = c →
        ¬ ∀ n, ∃ event, Step (manager S panics) Nobody event (run n) (run (n + 1))) ∧
      (c.running = false → ∀ mayStart' events' c', Runs (manager S panics) mayStart' c events' c' →
        c'.state.store = c.state.store) := by
  have hsound := (Sound.start (T := manager S panics) s).runs hruns
  refine ⟨hsound.progress (Nat.succ_pos 63) fun req s hin => ?_,
    fun run h0 => no_endless_run run (h0 ▸ hsound), fun hrun mayStart' events' c' hruns' => ?_⟩
  · rw [manager_inPlace s hin]
    rfl
  · refine (hruns'.stopped hsound hrun (P := fun self => self.store = c.state.store) rfl
      fun req self hin hstore => ?_).2
    rw [manager_inPlace self hin]
    cases req with
    | sendUpdates invoice => exact hstore
    | _ => cases hin

/-- A store that panics over every insertion of an invoice. -/
def panicsOverInsert : Request → Shared → Option Shared
  | .insertInvoice _, self => some self
  | _, _ => none

/-- The manager has panicked over the message of one client, while another message was in the channel
and a third client had not sent its own yet. -/
theorem manager_live_panicked :
    ∃ events, ∃ c : StorageChannel StorageError Unit,
      Runs (manager .exact panicsOverInsert) (fun _ => True) (.start { store := .empty }) events c ∧
      c.callers.length = 3 ∧ c.running = false ∧
      (∃ event c', Advance (manager .exact panicsOverInsert) event c c') ∧
      (∀ run : ℕ → StorageChannel StorageError Unit, run 0 = c →
        ¬ ∀ n, ∃ event,
          Step (manager .exact panicsOverInsert) Nobody event (run n) (run (n + 1))) ∧
      ∀ mayStart' events' c', Runs (manager .exact panicsOverInsert) mayStart' c events' c' →
        c'.state.store = c.state.store := by
  let client := StorageClient.insertInvoice (Invoice.new "" ⟨0, 3⟩ 1 10 1 10 "")
  have started : Runs (manager .exact panicsOverInsert) (fun _ => True) (.start { store := .empty })
      [.other, .other, .other] ⟨{ store := .empty }, true, [],
        [(2, .active client), (1, .active client), (0, .active client)], 3, []⟩ :=
    ((Runs.refl.tail (.spawn client trivial)).tail (.spawn client trivial)).tail
      (.spawn client trivial)
  have sent := (started.tail (.advance (.send [(2, .active _), (1, .active _)] rfl rfl rfl
    (Nat.succ_pos 63)))).tail (.advance (.send [(2, .active _)] rfl rfl rfl
      (Nat.succ_lt_succ (Nat.succ_pos 62))))
  have panicked := sent.tail (.advance (.crash rfl rfl))
  obtain ⟨goesOn, ends, frozen⟩ := manager_live panicked
  exact ⟨_, _, panicked, rfl, rfl, goesOn nofun, ends, frozen rfl⟩

end AcceptXmr
