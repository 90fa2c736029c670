import AcceptXmr.Invoice
import Mathlib.Data.List.Nodup
import Mathlib.Data.List.Perm.Basic
import Mathlib.Logic.Relation

/-! # The callback queue

`CallbackQueue` of `server/src/callbacks.rs`: a task receives commands from a bounded channel and
spawns a delivery for each, which sleeps, calls the callback and, if that fails, puts the command
back with its retry count increased. The loop reads the maximum number of retries only to log a
warning.

Time is left out: a delivery may make its call at any step. Whether a call fails is given for every
update and every one of its calls.

* **`Tracked`** — where an update is, and which of its calls have been made, in every run.
* **`retries_bounded_iff`** — when the number of calls is bounded by the maximum of retries. -/

namespace AcceptXmr

/-- `CallbackConfig`, of a queue that was initialized: a channel without capacity panics. -/
structure CallbackConfig where
  queueSize : ℕ
  maxRetries : Option ℕ
  queueSize_pos : 0 < queueSize

/-- `Default` for `CallbackConfig`. -/
def CallbackConfig.default : CallbackConfig := ⟨1000, some 50, by decide⟩

/-- `usize::saturating_add`. -/
def saturatingAdd (a b : ℕ) : ℕ := min (a + b) (u64Size - 1)

/-- The fields of `CallbackCommand::Call`. `update` says which update of which invoice it is. -/
structure CallbackCall where
  update : ℕ
  invoice : Invoice
  retryCount : ℕ
  /-- In nanoseconds. -/
  delay : ℕ

inductive CallbackCommand where
  | shutdown
  | call (call : CallbackCall)

/-- The call of a command, if it has one. -/
def CallbackCommand.toCall : CallbackCommand → Option CallbackCall
  | .shutdown => none
  | .call c => some c

/-- A spawned task. -/
inductive Delivery where
  /-- It sleeps, or waits for the answer. -/
  | calling (call : CallbackCall)
  /-- The call has failed, and the task waits for room in the channel. -/
  | sending (call : CallbackCall)

/-- The call a task is about. -/
def Delivery.toCall : Delivery → CallbackCall
  | .calling c | .sending c => c

/-- What surrounds the queue. -/
structure Callbacks where
  config : CallbackConfig
  /-- The invoice of every update. -/
  invoice : ℕ → Invoice
  /-- Whether the call that follows so many calls for the update fails. -/
  fails : ℕ → ℕ → Bool
  /-- A duration multiplied by 1.5, in floating point. -/
  longer : ℕ → ℕ

/-- The channel, the receiving task and the spawned tasks, with a record of what has happened. -/
structure CallbackQueue where
  channel : List CallbackCommand := []
  /-- The receiving task has not ended. -/
  running : Bool := true
  deliveries : List Delivery := []
  /-- The updates that have been put on the queue. -/
  updates : List ℕ := []
  /-- The updates whose callback was called, one entry for each call. -/
  calls : List ℕ := []
  /-- The updates whose callback, it was logged, would not be retried. -/
  warnings : List ℕ := []

namespace CallbackQueue

variable (callbacks : Callbacks)

/-- `Sender::send`, when there is room in the channel of a running receiver. -/
def send (command : CallbackCommand) (self : CallbackQueue) : Option CallbackQueue :=
  if self.running && decide (self.channel.length < callbacks.config.queueSize) then
    some { self with channel := self.channel ++ [command] }
  else none

/-- The watch loop puts an update on the queue. -/
def put (update : ℕ) (self : CallbackQueue) : Option CallbackQueue :=
  if update ∈ self.updates then none
  else
    (self.send callbacks (.call ⟨update, callbacks.invoice update, 0, 0⟩)).map fun self =>
      { self with updates := update :: self.updates }

/-- One turn of the loop that `init` spawns. It holds a sender, so the channel is never closed. -/
def receive (self : CallbackQueue) : Option CallbackQueue :=
  if self.running then
    match self.channel with
    | [] => none
    | .shutdown :: _ => some { self with running := false, channel := [] }
    | .call call :: rest =>
        some { self with
          channel := rest
          warnings := if callbacks.config.maxRetries.any (· ≤ call.retryCount)
            then call.update :: self.warnings else self.warnings
          -- the delivery is spawned with or without the warning
          deliveries := self.deliveries ++ [.calling call] }
  else none

/-- The delay after a failed call, in nanoseconds: at most one hour. -/
def newDelay (delay : ℕ) : ℕ := min (callbacks.longer (max delay 1000000000)) (3600 * 1000000000)

/-- The command that is put back after a failed call. -/
def retry (call : CallbackCall) : CallbackCall :=
  { call with
    retryCount := saturatingAdd call.retryCount 1
    delay := newDelay callbacks call.delay }

/-- One step of a spawned task. -/
def deliver (i : ℕ) (self : CallbackQueue) : Option CallbackQueue :=
  match self.deliveries[i]? with
  | none => none
  | some (.calling call) =>
      let called := { self with calls := call.update :: self.calls }
      if callbacks.fails call.update (self.calls.count call.update) then
        some { called with deliveries := self.deliveries.set i (.sending (retry callbacks call)) }
      else some { called with deliveries := self.deliveries.eraseIdx i }
  | some (.sending call) =>
      let ended := { self with deliveries := self.deliveries.eraseIdx i }
      -- The task panics if the receiving task has ended.
      if self.running then ended.send callbacks (.call call) else some ended

/-- Whose turn it is. -/
inductive Turn where
  | put (update : ℕ)
  | receive
  | deliver (i : ℕ)

/-- **One step of the queue.** -/
def turn (self : CallbackQueue) : Turn → Option CallbackQueue
  | .put update => self.put callbacks update
  | .receive => self.receive callbacks
  | .deliver i => self.deliver callbacks i

/-- A step of a run. -/
def Step (c c' : CallbackQueue) : Prop := ∃ t : Turn, c.turn callbacks t = some c'

/-- **A run** from the start of the queue. -/
def Reachable (c : CallbackQueue) : Prop := Relation.ReflTransGen (Step callbacks) {} c

/-- The calls that are still to be made or repeated. -/
def held (self : CallbackQueue) : List CallbackCall :=
  self.channel.filterMap CallbackCommand.toCall ++ self.deliveries.map Delivery.toCall

/-! ## What a step does -/

variable {callbacks} {c c' : CallbackQueue}

/-- The receiving task runs, nobody has told it to end, and the channel keeps to its capacity. -/
structure Serving (callbacks : Callbacks) (c : CallbackQueue) : Prop where
  running : c.running = true
  no_shutdown : .shutdown ∉ c.channel
  room : c.channel.length ≤ callbacks.config.queueSize

/-- A command that is sent stands at the end of the channel. -/
theorem send_eq_some_iff {command : CallbackCommand} :
    c.send callbacks command = some c' ↔
      c.running = true ∧ c.channel.length < callbacks.config.queueSize ∧
        c' = { c with channel := c.channel ++ [command] } := by
  rw [send, Option.ite_none_right_eq_some, Bool.and_eq_true, decide_eq_true_eq, Option.some.injEq,
    and_assoc, eq_comm (a := c')]

theorem Serving.send (h : Serving callbacks c) (call : CallbackCall)
    (hroom : c.channel.length < callbacks.config.queueSize) :
    Serving callbacks { c with channel := c.channel ++ [.call call] } where
  running := h.running
  no_shutdown := by simpa using h.no_shutdown
  room := by
    rw [List.length_append]
    exact hroom

theorem put_cases {update : ℕ} (h : c.put callbacks update = some c') :
    update ∉ c.updates ∧ c.channel.length < callbacks.config.queueSize ∧
      c' = { c with
        channel := c.channel ++ [.call ⟨update, callbacks.invoice update, 0, 0⟩]
        updates := update :: c.updates } := by
  rw [put] at h
  split at h
  · cases h
  · next hnew =>
      obtain ⟨sent, hsent, rfl⟩ := Option.map_eq_some_iff.mp h
      obtain ⟨-, hroom, rfl⟩ := send_eq_some_iff.mp hsent
      exact ⟨hnew, hroom, rfl⟩

/-- The next call is received, with or without a warning. -/
theorem receive_cases (hserving : Serving callbacks c) (h : c.receive callbacks = some c') :
    ∃ call rest warnings, c.channel = .call call :: rest ∧
      c' = { c with
        channel := rest, deliveries := c.deliveries ++ [.calling call], warnings := warnings } := by
  rw [receive, if_pos hserving.running] at h
  cases hchannel : c.channel with
  | nil =>
      rw [hchannel] at h
      cases h
  | cons command rest =>
      rw [hchannel] at h
      cases command with
      | shutdown => exact absurd (hchannel ▸ List.mem_cons_self) hserving.no_shutdown
      | call call => exact ⟨call, rest, _, rfl, (Option.some.inj h).symm⟩

/-- What the call of a delivery does, by its outcome, and what its sending does. -/
theorem deliver_cases {i : ℕ} (hserving : Serving callbacks c)
    (h : c.deliver callbacks i = some c') :
    (∃ call, c.deliveries[i]? = some (.calling call) ∧
      callbacks.fails call.update (c.calls.count call.update) = false ∧
      c' = { c with calls := call.update :: c.calls, deliveries := c.deliveries.eraseIdx i }) ∨
    (∃ call, c.deliveries[i]? = some (.calling call) ∧
      callbacks.fails call.update (c.calls.count call.update) = true ∧
      c' = { c with
        calls := call.update :: c.calls
        deliveries := c.deliveries.set i (.sending (retry callbacks call)) }) ∨
    (∃ call, c.deliveries[i]? = some (.sending call) ∧
      c.channel.length < callbacks.config.queueSize ∧
      c' = { c with
        channel := c.channel ++ [.call call], deliveries := c.deliveries.eraseIdx i }) := by
  rw [deliver] at h
  cases hi : c.deliveries[i]? with
  | none =>
      rw [hi] at h
      cases h
  | some delivery =>
      rw [hi] at h
      cases delivery with
      | calling call =>
          cases hfails : callbacks.fails call.update (c.calls.count call.update) with
          | false =>
              simp only [hfails, Bool.false_eq_true, if_false, Option.some.injEq] at h
              exact .inl ⟨call, rfl, hfails, h.symm⟩
          | true =>
              simp only [hfails, if_true, Option.some.injEq] at h
              exact .inr (.inl ⟨call, rfl, hfails, h.symm⟩)
      | sending call =>
          simp only [hserving.running, if_true] at h
          obtain ⟨-, hroom, rfl⟩ := send_eq_some_iff.mp h
          exact .inr (.inr ⟨call, rfl, hroom, by simp [hserving.running]⟩)

/-- What stands first in the channel can be received. -/
theorem receive_of_cons (callbacks : Callbacks) {call : CallbackCall}
    {rest : List CallbackCommand} (hrunning : c.running = true) (hchannel : c.channel = .call call :: rest) :
    ∃ warnings, Step callbacks c { c with
      channel := rest, deliveries := c.deliveries ++ [.calling call], warnings := warnings } := by
  refine ⟨if callbacks.config.maxRetries.any (· ≤ call.retryCount)
    then call.update :: c.warnings else c.warnings, .receive, ?_⟩
  rw [turn, receive, if_pos hrunning, hchannel]

/-- A failed command is put back if there is room. -/
theorem deliver_of_sending {i : ℕ} (call : CallbackCall) (hrunning : c.running = true)
    (hi : c.deliveries[i]? = some (.sending call))
    (hroom : c.channel.length < callbacks.config.queueSize) :
    Step callbacks c { c with
      channel := c.channel ++ [.call call], deliveries := c.deliveries.eraseIdx i } := by
  refine ⟨.deliver i, ?_⟩
  simp only [turn, deliver, hi]
  rw [if_pos hrunning]
  exact send_eq_some_iff.mpr ⟨hrunning, hroom, rfl⟩

/-- A waiting call can be made. -/
theorem deliver_of_calling (callbacks : Callbacks) {i : ℕ} {call : CallbackCall}
    (hi : c.deliveries[i]? = some (.calling call)) :
    ∃ deliveries, Step callbacks c { c with
        calls := call.update :: c.calls, deliveries := deliveries } ∧
      (callbacks.fails call.update (c.calls.count call.update) = true →
        deliveries = c.deliveries.set i (.sending (retry callbacks call))) := by
  cases hfails : callbacks.fails call.update (c.calls.count call.update) with
  | true =>
      refine ⟨_, ⟨.deliver i, ?_⟩, fun _ => rfl⟩
      simp only [turn, deliver, hi, hfails, if_true]
  | false =>
      refine ⟨c.deliveries.eraseIdx i, ⟨.deliver i, ?_⟩, nofun⟩
      simp only [turn, deliver, hi, hfails, Bool.false_eq_true, if_false]

/-- **What a step does** to the updates, to the calls that were made and to those that are held: an
update is put on the queue, a call moves, a call succeeds, or it fails and is held again. -/
theorem step_cases (hserving : Serving callbacks c) (h : Step callbacks c c') :
    Serving callbacks c' ∧
      ((∃ update, update ∉ c.updates ∧ c'.updates = update :: c.updates ∧ c'.calls = c.calls ∧
          c'.held.Perm (⟨update, callbacks.invoice update, 0, 0⟩ :: c.held)) ∨
        (c'.updates = c.updates ∧ c'.calls = c.calls ∧ c'.held.Perm c.held) ∨
        (∃ call rest, callbacks.fails call.update (c.calls.count call.update) = false ∧
          c'.updates = c.updates ∧ c'.calls = call.update :: c.calls ∧
          c.held.Perm (call :: rest) ∧ c'.held.Perm rest) ∨
        (∃ call rest, callbacks.fails call.update (c.calls.count call.update) = true ∧
          c'.updates = c.updates ∧ c'.calls = call.update :: c.calls ∧
          c.held.Perm (call :: rest) ∧ c'.held.Perm (retry callbacks call :: rest))) := by
  obtain ⟨t, ht⟩ := h
  cases t with
  | put update =>
      obtain ⟨hnew, hroom, rfl⟩ := put_cases ht
      refine ⟨⟨hserving.running, (hserving.send _ hroom).no_shutdown,
        (hserving.send _ hroom).room⟩, .inl ⟨update, hnew, rfl, rfl, ?_⟩⟩
      simp only [held, List.filterMap_append, List.append_assoc]
      exact List.perm_middle
  | receive =>
      obtain ⟨call, rest, warnings, hchannel, rfl⟩ := receive_cases hserving ht
      refine ⟨⟨hserving.running, ?_, ?_⟩, .inr (.inl ⟨rfl, rfl, ?_⟩)⟩
      · exact fun hmem => hserving.no_shutdown (hchannel ▸ List.mem_cons_of_mem _ hmem)
      · have := hserving.room
        rw [hchannel, List.length_cons] at this
        exact Nat.le_of_succ_le this
      · simp only [held, hchannel, List.map_append]
        rw [← List.append_assoc]
        exact List.perm_append_comm
  | deliver i =>
      rcases deliver_cases hserving ht with ⟨call, hi, hfails, rfl⟩ | ⟨call, hi, hfails, rfl⟩ |
        ⟨call, hi, hroom, rfl⟩
      all_goals
        obtain ⟨hlen, hget⟩ := List.getElem?_eq_some_iff.mp hi
        have hperm := (List.getElem_cons_eraseIdx_perm hlen).symm
        rw [hget] at hperm
        have hheld := (List.perm_middle.symm.trans
          ((hperm.map Delivery.toCall).append_left (c.channel.filterMap
            CallbackCommand.toCall)).symm).symm
      · -- the call succeeds
        refine ⟨⟨hserving.running, hserving.no_shutdown, hserving.room⟩,
          .inr (.inr (.inl ⟨call, _, hfails, rfl, rfl, hheld, .refl _⟩))⟩
      · -- the call fails
        refine ⟨⟨hserving.running, hserving.no_shutdown, hserving.room⟩,
          .inr (.inr (.inr ⟨call, _, hfails, rfl, rfl, hheld, ?_⟩))⟩
        have hset := List.set_perm_cons_eraseIdx hlen (.sending (retry callbacks call))
        exact ((hset.map Delivery.toCall).append_left _).trans List.perm_middle
      · -- the command is put back
        refine ⟨⟨hserving.running, (hserving.send call hroom).no_shutdown,
          (hserving.send call hroom).room⟩, .inr (.inl ⟨rfl, rfl, ?_⟩)⟩
        refine List.Perm.trans ?_ hheld.symm
        simp only [held, List.filterMap_append, List.append_assoc]
        exact List.perm_middle

/-! ## Where the updates are -/

/-- **Where an update is**: on the queue once, after calls that have all failed, or gone after a
call that has succeeded. -/
structure Tracked (callbacks : Callbacks) (c : CallbackQueue) : Prop where
  nodup : (c.held.map CallbackCall.update).Nodup
  put : ∀ call ∈ c.held, call.update ∈ c.updates
  called : ∀ update ∈ c.calls, update ∈ c.updates
  failed : ∀ call ∈ c.held, ∀ k < c.calls.count call.update, callbacks.fails call.update k = true
  counted : ∀ call ∈ c.held,
    call.retryCount = min (c.calls.count call.update) (u64Size - 1)
  gone : ∀ update ∈ c.updates, (∀ call ∈ c.held, call.update ≠ update) →
    ∃ k, c.calls.count update = k + 1 ∧ callbacks.fails update k = false ∧
      ∀ j < k, callbacks.fails update j = true

theorem Tracked.init : Tracked callbacks {} where
  nodup := List.nodup_nil
  put := nofun
  called := nofun
  failed := nofun
  counted := nofun
  gone := nofun

theorem Serving.init : Serving callbacks {} where
  running := rfl
  no_shutdown := nofun
  room := Nat.zero_le _

/-- The order in which calls are held plays no part. -/
theorem Tracked.of_perm (h : Tracked callbacks c) (hupdates : c'.updates = c.updates)
    (hcalls : c'.calls = c.calls) (hperm : c'.held.Perm c.held) : Tracked callbacks c' where
  nodup := (hperm.map _).nodup_iff.mpr h.nodup
  put call hmem := hupdates ▸ h.put call (hperm.mem_iff.mp hmem)
  called update hmem := hupdates ▸ h.called update (hcalls ▸ hmem)
  failed call hmem := hcalls ▸ h.failed call (hperm.mem_iff.mp hmem)
  counted call hmem := hcalls ▸ h.counted call (hperm.mem_iff.mp hmem)
  gone update hmem hnone := hcalls ▸ h.gone update (hupdates ▸ hmem)
    fun call hcall => hnone call (hperm.mem_iff.mpr hcall)

/-- An update is put on the queue. -/
theorem Tracked.of_put {update : ℕ} (h : Tracked callbacks c) (hnew : update ∉ c.updates)
    (hupdates : c'.updates = update :: c.updates) (hcalls : c'.calls = c.calls)
    (hperm : c'.held.Perm (⟨update, callbacks.invoice update, 0, 0⟩ :: c.held)) :
    Tracked callbacks c' := by
  have hcount : c.calls.count update = 0 :=
    List.count_eq_zero.mpr fun hmem => hnew (h.called update hmem)
  constructor
  · apply (hperm.map _).nodup_iff.mpr
    rw [List.map_cons, List.nodup_cons]
    refine ⟨?_, h.nodup⟩
    intro hmem
    obtain ⟨call, hcall, heq⟩ := List.mem_map.mp hmem
    have hput := h.put call hcall
    rw [heq] at hput
    exact hnew hput
  · intro call hmem
    rw [hupdates]
    rcases List.mem_cons.mp (hperm.mem_iff.mp hmem) with rfl | hmem
    · exact List.mem_cons_self
    · exact List.mem_cons_of_mem _ (h.put call hmem)
  · intro other hmem
    rw [hupdates]
    exact List.mem_cons_of_mem _ (h.called other (hcalls ▸ hmem))
  · intro call hmem k hk
    rw [hcalls] at hk
    rcases List.mem_cons.mp (hperm.mem_iff.mp hmem) with rfl | hmem
    · rw [hcount] at hk
      exact absurd hk (Nat.not_lt_zero k)
    · exact h.failed call hmem k hk
  · intro call hmem
    rw [hcalls]
    rcases List.mem_cons.mp (hperm.mem_iff.mp hmem) with rfl | hmem
    · rw [hcount]
      rfl
    · exact h.counted call hmem
  · intro other hmem hnone
    rw [hcalls]
    rw [hupdates] at hmem
    rcases List.mem_cons.mp hmem with rfl | hmem
    · exact absurd rfl (hnone _ (hperm.mem_iff.mpr List.mem_cons_self))
    · exact h.gone other hmem fun call hcall =>
        hnone call (hperm.mem_iff.mpr (List.mem_cons_of_mem _ hcall))

/-- A call succeeds, and the update is gone. -/
theorem Tracked.of_success {call : CallbackCall} {rest : List CallbackCall}
    (h : Tracked callbacks c)
    (hfails : callbacks.fails call.update (c.calls.count call.update) = false)
    (hupdates : c'.updates = c.updates) (hcalls : c'.calls = call.update :: c.calls)
    (hheld : c.held.Perm (call :: rest)) (hperm : c'.held.Perm rest) : Tracked callbacks c' := by
  have hmem : ∀ {other}, other ∈ c'.held → other ∈ c.held := fun hother =>
    hheld.mem_iff.mpr (List.mem_cons_of_mem _ (hperm.mem_iff.mp hother))
  have hnodup := (hheld.map _).nodup_iff.mp h.nodup
  rw [List.map_cons, List.nodup_cons] at hnodup
  have hne : ∀ other ∈ c'.held, call.update ≠ other.update := by
    intro other hother heq
    exact hnodup.1 (heq ▸ List.mem_map_of_mem (hperm.mem_iff.mp hother))
  have hcall : call ∈ c.held := hheld.mem_iff.mpr List.mem_cons_self
  constructor
  · exact (hperm.map _).nodup_iff.mpr hnodup.2
  · intro other hother
    exact hupdates ▸ h.put other (hmem hother)
  · intro update hupdate
    rw [hupdates]
    rw [hcalls] at hupdate
    rcases List.mem_cons.mp hupdate with rfl | hupdate
    · exact h.put call hcall
    · exact h.called update hupdate
  · intro other hother k hk
    rw [hcalls, List.count_cons_of_ne (hne other hother)] at hk
    exact h.failed other (hmem hother) k hk
  · intro other hother
    rw [hcalls, List.count_cons_of_ne (hne other hother)]
    exact h.counted other (hmem hother)
  · intro update hupdate hnone
    rw [hcalls]
    by_cases heq : call.update = update
    · subst heq
      exact ⟨_, List.count_cons_self, hfails, h.failed call hcall⟩
    · rw [List.count_cons_of_ne heq]
      apply h.gone update (hupdates ▸ hupdate)
      intro other hother
      rcases List.mem_cons.mp (hheld.mem_iff.mp hother) with rfl | hother
      · exact heq
      · exact hnone other (hperm.mem_iff.mpr hother)

/-- A call fails, and is held with its retry count increased. -/
theorem Tracked.of_failure {call : CallbackCall} {rest : List CallbackCall}
    (h : Tracked callbacks c)
    (hfails : callbacks.fails call.update (c.calls.count call.update) = true)
    (hupdates : c'.updates = c.updates) (hcalls : c'.calls = call.update :: c.calls)
    (hheld : c.held.Perm (call :: rest)) (hperm : c'.held.Perm (retry callbacks call :: rest)) :
    Tracked callbacks c' := by
  have hnames : (c'.held.map CallbackCall.update).Perm (c.held.map CallbackCall.update) :=
    (hperm.map _).trans (hheld.map CallbackCall.update).symm
  have hnodup := (hheld.map _).nodup_iff.mp h.nodup
  rw [List.map_cons, List.nodup_cons] at hnodup
  have hne : ∀ other ∈ rest, call.update ≠ other.update := fun other hother heq =>
    hnodup.1 (heq ▸ List.mem_map_of_mem hother)
  have hcall : call ∈ c.held := hheld.mem_iff.mpr List.mem_cons_self
  have hrest : ∀ other ∈ rest, other ∈ c.held := fun other hother =>
    hheld.mem_iff.mpr (List.mem_cons_of_mem _ hother)
  constructor
  · exact hnames.nodup_iff.mpr h.nodup
  · intro other hother
    rw [hupdates]
    rcases List.mem_cons.mp (hperm.mem_iff.mp hother) with rfl | hother
    · exact h.put call hcall
    · exact h.put other (hrest other hother)
  · intro update hupdate
    rw [hupdates]
    rw [hcalls] at hupdate
    rcases List.mem_cons.mp hupdate with rfl | hupdate
    · exact h.put call hcall
    · exact h.called update hupdate
  · intro other hother k hk
    rw [hcalls] at hk
    rcases List.mem_cons.mp (hperm.mem_iff.mp hother) with rfl | hother
    · rw [show (retry callbacks call).update = call.update from rfl, List.count_cons_self] at hk
      rcases Nat.lt_succ_iff_lt_or_eq.mp hk with hk | rfl
      · exact h.failed call hcall k hk
      · exact hfails
    · rw [List.count_cons_of_ne (hne other hother)] at hk
      exact h.failed other (hrest other hother) k hk
  · intro other hother
    rw [hcalls]
    rcases List.mem_cons.mp (hperm.mem_iff.mp hother) with rfl | hother
    · rw [show (retry callbacks call).update = call.update from rfl, List.count_cons_self]
      simp only [retry, saturatingAdd, h.counted call hcall]
      omega
    · rw [List.count_cons_of_ne (hne other hother)]
      exact h.counted other (hrest other hother)
  · intro update hupdate hnone
    have hother : call.update ≠ update :=
      hnone (retry callbacks call) (hperm.mem_iff.mpr List.mem_cons_self)
    rw [hcalls, List.count_cons_of_ne hother]
    apply h.gone update (hupdates ▸ hupdate)
    intro other hmem
    rcases List.mem_cons.mp (hheld.mem_iff.mp hmem) with rfl | hmem
    · exact hother
    · exact hnone other (hperm.mem_iff.mpr (List.mem_cons_of_mem _ hmem))

/-- A step keeps track. -/
theorem Tracked.step (h : Tracked callbacks c) (hserving : Serving callbacks c)
    (hstep : Step callbacks c c') : Tracked callbacks c' := by
  rcases (step_cases hserving hstep).2 with ⟨update, hnew, hupdates, hcalls, hperm⟩ |
    ⟨hupdates, hcalls, hperm⟩ | ⟨call, rest, hfails, hupdates, hcalls, hheld, hperm⟩ |
    ⟨call, rest, hfails, hupdates, hcalls, hheld, hperm⟩
  · exact h.of_put hnew hupdates hcalls hperm
  · exact h.of_perm hupdates hcalls hperm
  · exact h.of_success hfails hupdates hcalls hheld hperm
  · exact h.of_failure hfails hupdates hcalls hheld hperm

/-- **Every run** keeps track of the updates. -/
theorem Reachable.tracked (h : Reachable callbacks c) :
    Serving callbacks c ∧ Tracked callbacks c := by
  induction h with
  | refl => exact ⟨.init, .init⟩
  | tail _ hstep ih => exact ⟨(step_cases ih.1 hstep).1, ih.2.step ih.1 hstep⟩

/-! ## The number of calls -/

/-- The callback of an update is called for one first attempt and `m` retries at most, and then the
update is dropped. -/
def Bounded (m update : ℕ) (c : CallbackQueue) : Prop :=
  c.calls.count update ≤ m + 1 ∧
    (c.calls.count update = m + 1 → ∀ call ∈ c.held, call.update ≠ update)

/-- An update whose calls have all failed is held, and what waits for room after a failure gets into
the channel. -/
def Requeued (callbacks : Callbacks) (c : CallbackQueue) : Prop :=
  (∀ update ∈ c.updates,
    (∀ k < c.calls.count update, callbacks.fails update k = true) →
      ∃ call ∈ c.held, call.update = update) ∧
  (∀ call, .sending call ∈ c.deliveries →
    ∃ c', Relation.ReflTransGen (Step callbacks) c c' ∧ .call call ∈ c'.channel)

/-- A success among the first attempts bounds the calls. -/
theorem Tracked.bounded {m update k : ℕ} (h : Tracked callbacks c) (hk : k ≤ m)
    (hsuccess : callbacks.fails update k = false) : Bounded m update c := by
  have hle : ∀ n, (∀ j < n, callbacks.fails update j = true) → n ≤ k := by
    intro n hn
    by_contra hlt
    rw [hn k (Nat.lt_of_not_le hlt)] at hsuccess
    cases hsuccess
  by_cases hheld : ∃ call ∈ c.held, call.update = update
  · obtain ⟨call, hcall, rfl⟩ := hheld
    have hcount := hle _ (h.failed call hcall)
    exact ⟨by omega, by omega⟩
  · have hnone : ∀ call ∈ c.held, call.update ≠ update := fun call hcall heq =>
      hheld ⟨call, hcall, heq⟩
    refine ⟨?_, fun _ => hnone⟩
    by_cases hput : update ∈ c.updates
    · obtain ⟨j, hcount, -, hfailed⟩ := h.gone update hput hnone
      have := hle j hfailed
      omega
    · rw [List.count_eq_zero.mpr fun hmem => hput (h.called update hmem)]
      exact Nat.zero_le _

/-- The channel has room after the receiver's turn, if not before. -/
theorem sending_requeued (hserving : Serving callbacks c) {call : CallbackCall}
    (hmem : .sending call ∈ c.deliveries) :
    ∃ c', Relation.ReflTransGen (Step callbacks) c c' ∧ .call call ∈ c'.channel := by
  obtain ⟨i, hi⟩ := List.mem_iff_getElem?.mp hmem
  rcases Nat.lt_or_eq_of_le hserving.room with hroom | hfull
  · exact ⟨_, .single (deliver_of_sending call hserving.running hi hroom),
      List.mem_append_right _ (List.mem_singleton_self _)⟩
  · -- the channel is full, so there is something to receive
    cases hchannel : c.channel with
    | nil =>
        have hpos := callbacks.config.queueSize_pos
        rw [hchannel, List.length_nil] at hfull
        omega
    | cons command rest =>
        cases command with
        | shutdown => exact absurd (hchannel ▸ List.mem_cons_self) hserving.no_shutdown
        | call next =>
            obtain ⟨warnings, hreceive⟩ :=
              receive_of_cons callbacks hserving.running hchannel
            have hi' : (c.deliveries ++ [.calling next])[i]? = some (.sending call) := by
              rw [List.getElem?_append_left (List.getElem?_eq_some_iff.mp hi).1]
              exact hi
            have hroom : rest.length < callbacks.config.queueSize := by
              rw [← hfull, hchannel]
              exact Nat.lt_succ_self _
            have hsend := deliver_of_sending call (c := { c with
              channel := rest, deliveries := c.deliveries ++ [.calling next], warnings := warnings })
              hserving.running hi' hroom
            exact ⟨_, .tail (.single hreceive) hsend,
              List.mem_append_right _ (List.mem_singleton_self _)⟩

/-- After every failure an update is put back, whatever the number of its calls. -/
theorem Reachable.requeued (h : Reachable callbacks c) : Requeued callbacks c := by
  obtain ⟨hserving, htracked⟩ := h.tracked
  refine ⟨?_, fun call hmem => sending_requeued hserving hmem⟩
  intro update hput hfailed
  by_contra hnone
  obtain ⟨k, hcount, hsuccess, -⟩ := htracked.gone update hput fun call hcall heq =>
    hnone ⟨call, hcall, heq⟩
  rw [hfailed k (by omega)] at hsuccess
  cases hsuccess

/-- A call that is alone on the queue can be made. -/
theorem exists_call (callbacks : Callbacks) {call : CallbackCall} (hrunning : c.running = true)
    (hchannel : c.channel = [.call call]) (hdeliveries : c.deliveries = []) :
    ∃ c', Relation.ReflTransGen (Step callbacks) c c' ∧ c'.running = true ∧ c'.channel = [] ∧
      c'.calls = call.update :: c.calls ∧
      (callbacks.fails call.update (c.calls.count call.update) = true →
        c'.deliveries = [.sending (retry callbacks call)]) := by
  obtain ⟨warnings, hreceive⟩ := receive_of_cons callbacks hrunning hchannel
  have hcalling : (c.deliveries ++ [.calling call])[0]? = some (.calling call) := by
    rw [hdeliveries]
    rfl
  obtain ⟨deliveries, hcall, hfailure⟩ := deliver_of_calling callbacks (c := { c with
    channel := [], deliveries := c.deliveries ++ [.calling call], warnings := warnings }) hcalling
  refine ⟨_, .tail (.single hreceive) hcall, hrunning, rfl, rfl, ?_⟩
  intro hfails
  rw [hfailure hfails, hdeliveries]
  rfl

/-- A run in which an update has failed `n` times and waits in the channel. -/
theorem exists_failing_run {update n : ℕ}
    (hfails : ∀ k < n, callbacks.fails update k = true) :
    ∃ c call, Reachable callbacks c ∧ call.update = update ∧ c.running = true ∧
      c.channel = [.call call] ∧ c.deliveries = [] ∧ c.calls.count update = n := by
  have hpos := callbacks.config.queueSize_pos
  induction n with
  | zero =>
      let first : CallbackCall := ⟨update, callbacks.invoice update, 0, 0⟩
      have hput : Step callbacks {} { channel := [.call first], updates := [update] } := by
        refine ⟨.put update, ?_⟩
        simp [turn, put, send, hpos, first]
      exact ⟨_, first, .single hput, rfl, rfl, rfl, rfl, rfl⟩
  | succ n ih =>
      obtain ⟨c, call, hreach, rfl, hrunning, hchannel, hdeliveries, hcount⟩ :=
        ih fun k hk => hfails k (Nat.lt_succ_of_lt hk)
      obtain ⟨d, hrun, hrunning', hempty, hcalls, hsending⟩ :=
        exists_call callbacks hrunning hchannel hdeliveries
      have hfail := hsending (hcount ▸ hfails n (Nat.lt_succ_self n))
      have hsend := deliver_of_sending (i := 0) (retry callbacks call) hrunning'
        (by rw [hfail]; rfl) (by rw [hempty]; exact hpos)
      refine ⟨_, retry callbacks call, (hreach.trans hrun).tail hsend, rfl, hrunning', ?_, ?_, ?_⟩
      · simp only [hempty, List.nil_append]
      · rw [hfail]
        rfl
      · rw [hcalls, List.count_cons_self, hcount]

/-- One more call than the attempts that fail. -/
theorem exists_calls (update n : ℕ) (hfails : ∀ k < n, callbacks.fails update k = true) :
    ∃ c, Reachable callbacks c ∧ c.calls.count update = n + 1 := by
  obtain ⟨c, call, hreach, rfl, hrunning, hchannel, hdeliveries, hcount⟩ :=
    exists_failing_run hfails
  obtain ⟨d, hrun, -, -, hcalls, -⟩ :=
    exists_call callbacks hrunning hchannel hdeliveries
  refine ⟨d, hreach.trans hrun, ?_⟩
  rw [hcalls, List.count_cons_self, hcount]

/-- **Retries are bounded** by a maximum exactly for the updates of which one of the first attempts
succeeds. Without a maximum every failure is followed by a retry. -/
theorem retries_bounded_iff (callbacks : Callbacks) :
    (∀ m update, callbacks.config.maxRetries = some m →
      ((∀ c, Reachable callbacks c → Bounded m update c) ↔
        ∃ k ≤ m, callbacks.fails update k = false)) ∧
    (callbacks.config.maxRetries = none → ∀ c, Reachable callbacks c → Requeued callbacks c) := by
  refine ⟨?_, fun _ c hreach => hreach.requeued⟩
  intro m update _
  constructor
  · intro hbounded
    by_contra hnone
    have hfails : ∀ k < m + 1, callbacks.fails update k = true := by
      intro k hk
      by_contra hsuccess
      exact hnone ⟨k, Nat.lt_succ_iff.mp hk, Bool.eq_false_iff.mpr hsuccess⟩
    obtain ⟨c, hreach, hcount⟩ := exists_calls update (m + 1) hfails
    have := (hbounded c hreach).1
    omega
  · rintro ⟨k, hk, hsuccess⟩ c hreach
    exact hreach.tracked.2.bounded hk hsuccess

/-- With the default configuration, a callback that always fails is called more than 51 times. -/
theorem default_retries_exceeded :
    let callbacks : Callbacks :=
      ⟨.default, fun _ => .new "" ⟨0, 1⟩ 1 10 1 100 "", fun _ _ => true, fun delay => delay * 3 / 2⟩
    callbacks.config.maxRetries = some 50 ∧ ∃ c, Reachable callbacks c ∧ ¬ Bounded 50 0 c := by
  intro callbacks
  obtain ⟨c, hreach, hcount⟩ :=
    @exists_calls callbacks 0 51 fun _ _ => rfl
  refine ⟨rfl, c, hreach, ?_⟩
  rintro ⟨hle, -⟩
  omega

end CallbackQueue

end AcceptXmr
