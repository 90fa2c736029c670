import AcceptXmr.Pubsub.Publisher

/-! # Delivery of updates

What a call of `send_updates` delivers while subscribers come and go. The loop walks a map by
position; between fetching a sender and removing it the map may grow at its end, and a removal moves
the last sender, which may be a new one, to the current position. Neither makes the call skip a
subscriber or come to it twice: those still to be visited are the senders from the current position
on.

* **`Delivering`** — the invariant of a call that runs beside others.
* **`potential_call`** — every step of the call brings it closer to its end.
* **`updates_delivered_once`** — every subscriber that is there at the start and stays gets the
  update once, nobody gets it twice, and the call only ever waits for a full channel. -/

namespace AcceptXmr

open scoped List

/-! ## Channels belong to one subscriber -/

/-- **Every channel is registered at most once**, and new channels are unused. -/
structure Pubsub.Registered (s : Pubsub) : Prop where
  nodup : ∀ target, ((s.senders target).map Prod.snd).Nodup
  apart : ∀ target target', target ≠ target' →
    ∀ e ∈ s.senders target, ∀ e' ∈ s.senders target', e.2 ≠ e'.2
  below : ∀ target, ∀ e ∈ s.senders target, e.2 < s.created
  fresh : ∀ sender, s.created ≤ sender → (s.channels sender).sent = []

namespace Pubsub.Registered

variable {s s' : Pubsub}

/-- A publisher without subscribers. -/
theorem new (publisher : Publisher) (h : ∀ target, publisher.senders target = []) :
    (Pubsub.mk publisher (fun _ => {}) 0).Registered := by
  refine ⟨fun target => ?_, fun target target' _ e he => ?_, fun target e he => ?_, fun _ _ => rfl⟩
  · simp only [Pubsub.senders, h]
    exact List.nodup_nil
  · simp only [Pubsub.senders, h] at he
    cases he
  · simp only [Pubsub.senders, h] at he
    cases he

/-- Registering a new channel. -/
theorem registers (hr : s.Registered) {target : Option InvoiceId}
    {added : List (SenderId × Sender)} (h : Registers s s' target added) : s'.Registered := by
  refine ⟨fun target' => ?_, fun target₁ target₂ hne e he e' he' => ?_, fun target' e he => ?_,
    fun sender hle => ?_⟩
  · -- Of one target: no channel twice.
    rw [h.senders, List.map_append]
    refine (hr.nodup target').append ?_ fun x hx hx' => ?_
    · split
      · rcases h.added with hnil | ⟨id, hone⟩
        · rw [hnil]
          exact List.nodup_nil
        · rw [hone]
          exact List.nodup_singleton _
      · exact List.nodup_nil
    · -- The channels in use are below the new one.
      obtain ⟨e, he, rfl⟩ := List.mem_map.mp hx
      obtain ⟨e', he', heq⟩ := List.mem_map.mp hx'
      have hlt := hr.below target' e he
      rw [← heq, (h.sender_eq he').2] at hlt
      exact Nat.lt_irrefl _ hlt
  · -- Of two targets: no channel in common, since the new one is in one of them only.
    rcases h.mem_senders he with hold | ⟨h₁, hnew⟩
    · rcases h.mem_senders he' with hold' | ⟨-, hnew'⟩
      · exact hr.apart _ _ hne e hold e' hold'
      · rw [hnew']
        exact Nat.ne_of_lt (hr.below _ e hold)
    · rcases h.mem_senders he' with hold' | ⟨h₂, -⟩
      · rw [hnew]
        exact (Nat.ne_of_lt (hr.below _ e' hold')).symm
      · exact absurd (h₁.trans h₂.symm) hne
  · rw [h.created]
    rcases h.mem_senders he with hold | ⟨-, hnew⟩
    · exact Nat.lt_succ_of_lt (hr.below _ e hold)
    · rw [hnew]
      exact Nat.lt_succ_self _
  · rw [h.created] at hle
    rw [h.channels]
    exact hr.fresh sender (Nat.le_of_succ_le hle)

/-- Senders may go, and channels in use may change. -/
theorem of_subset (hr : s.Registered)
    (hnodup : ∀ target, ((s'.senders target).map Prod.snd).Nodup)
    (hsub : ∀ target, s'.senders target ⊆ s.senders target) (hcreated : s'.created = s.created)
    (hfresh : ∀ sender, s.created ≤ sender →
      (s'.channels sender).sent = (s.channels sender).sent) : s'.Registered where
  nodup := hnodup
  apart target target' hne e he e' he' :=
    hr.apart target target' hne e (hsub target he) e' (hsub target' he')
  below target e he := hcreated ▸ hr.below target e (hsub target he)
  fresh sender hle := by
    rw [hcreated] at hle
    rw [hfresh sender hle, hr.fresh sender hle]

/-- Maps may be emptied. -/
theorem emptied (hr : s.Registered) {publisher : Publisher}
    (hsenders : ∀ target, publisher.senders target = [] ∨
      publisher.senders target = s.senders target) :
    (Pubsub.mk publisher s.channels s.created).Registered := by
  refine hr.of_subset (fun target => ?_) (fun target => ?_) rfl fun _ _ => rfl
  · rcases hsenders target with hnil | hsame
    · simp only [Pubsub.senders, hnil]
      exact List.nodup_nil
    · simp only [Pubsub.senders, hsame]
      exact hr.nodup target
  · rcases hsenders target with hnil | hsame
    · simp only [Pubsub.senders, hnil]
      exact List.nil_subset _
    · simp only [Pubsub.senders, hsame]
      exact List.Subset.refl _

/-- A change of a channel that sends nothing into it. -/
theorem onChannel (hr : s.Registered) (sender : Sender) {f : Channel → Channel}
    (hsent : ∀ channel, (f channel).sent = channel.sent) : (s.onChannel sender f).Registered := by
  refine hr.of_subset hr.nodup (fun _ => List.Subset.refl _) rfl fun sender' _ => ?_
  by_cases heq : sender' = sender
  · rw [heq, onChannel_self, hsent]
  · rw [onChannel_of_ne _ _ heq]

/-- Removing a sender. -/
theorem removeSender (hr : s.Registered) {target : Option InvoiceId}
    {front back : List (SenderId × Sender)} {id : SenderId} {sender : Sender}
    (h : s.senders target = front ++ (id, sender) :: back) :
    ({ s with publisher := s.publisher.removeSender target id } : Pubsub).Registered := by
  obtain ⟨rest, hperm, hsenders⟩ := Publisher.senders_removeSender h
  have hother : ∀ target', target' ≠ target →
      (s.publisher.removeSender target id).senders target' = s.senders target' :=
    fun target' hne => Publisher.senders_modify_of_ne _ _ hne
  refine hr.of_subset (fun target' => ?_) (fun target' => ?_) rfl fun _ _ => rfl
  · simp only [Pubsub.senders]
    by_cases heq : target' = target
    · have hnodup := hr.nodup target
      rw [h] at hnodup
      rw [heq, hsenders, ((hperm.append_left front).map Prod.snd).nodup_iff]
      exact hnodup.sublist (((List.sublist_cons_self _ _).append_left front).map _)
    · rw [hother target' heq]
      exact hr.nodup target'
  · simp only [Pubsub.senders]
    by_cases heq : target' = target
    · rw [heq, hsenders]
      intro e he
      have hmem := (hperm.append_left front).mem_iff.mp he
      show e ∈ s.senders target
      rw [h]
      exact ((List.sublist_cons_self _ _).append_left front).subset hmem
    · rw [hother target' heq]
      exact List.Subset.refl _

end Pubsub.Registered

/-! ## Who is still to be visited -/

namespace Sending

/-- The senders of the loop that follows. -/
def following (c : Sending) : Option InvoiceId → List (SenderId × Sender)
  | some _ => c.pubsub.senders none
  | none => []

/-- The channels from a position of one loop on, those of the loop that follows included. -/
def rest (c : Sending) (target : Option InvoiceId) (index : ℕ) : List Sender :=
  ((c.pubsub.senders target).drop index ++ c.following target).map Prod.snd

/-- The channels to which the call has not sent yet. -/
def toVisit (c : Sending) : List Sender :=
  match c.phase with
  | .fetch target index _ | .send target index _ _ _ => c.rest target index
  | .settle target index _ _ => c.rest target (index + 1)
  | .done => []

/-- The two maps through which a call goes. -/
def IsTarget (invoice : Invoice) (target : Option InvoiceId) : Prop :=
  target = some invoice.id ∨ target = none

/-- The call knows where it stands: the sender in hand is at the current position. -/
def Placed (invoice : Invoice) (c : Sending) : Prop :=
  match c.phase with
  | .fetch target index _ => IsTarget invoice target ∧ index ≤ (c.pubsub.senders target).length
  | .send target index _ id sender =>
      IsTarget invoice target ∧ (c.pubsub.senders target)[index]? = some (id, sender)
  | .settle target index _ id =>
      IsTarget invoice target ∧ ∃ sender, (c.pubsub.senders target)[index]? = some (id, sender)
  | .done => True

section Rest

variable {c c' : Sending} {target : Option InvoiceId} {index : ℕ}

/-- Who is to be visited is read off the maps. -/
theorem rest_congr (h : c'.pubsub.publisher = c.pubsub.publisher) (target : Option InvoiceId)
    (index : ℕ) : c'.rest target index = c.rest target index := by
  cases target <;> simp only [rest, following, Pubsub.senders, h]

/-- The sender at the current position is the first to be visited. -/
theorem rest_eq_cons {id : SenderId} {sender : Sender}
    (h : (c.pubsub.senders target)[index]? = some (id, sender)) :
    c.rest target index = sender :: c.rest target (index + 1) := by
  obtain ⟨hlt, hget⟩ := List.getElem?_eq_some_iff.mp h
  rw [rest, rest, List.drop_eq_getElem_cons hlt, hget]
  rfl

/-- No channel is to be visited twice. -/
theorem rest_nodup (hr : c.pubsub.Registered) : (c.rest target index).Nodup := by
  rw [rest, List.map_append]
  refine ((hr.nodup target).sublist ((List.drop_sublist _ _).map _)).append ?_ ?_
  · cases target with
    | none => exact List.nodup_nil
    | some id => exact hr.nodup none
  · intro x hx hx'
    obtain ⟨e, he, rfl⟩ := List.mem_map.mp hx
    obtain ⟨e', he', heq⟩ := List.mem_map.mp hx'
    cases target with
    | none => cases he'
    | some id =>
        exact hr.apart (some id) none (by simp) e (List.mem_of_mem_drop he) e' he' heq.symm

/-- A subscriber that comes is to be visited, unless it is one of another invoice. -/
theorem rest_registers {registeredIn : Option InvoiceId} {added : List (SenderId × Sender)}
    (h : Pubsub.Registers c.pubsub c'.pubsub registeredIn added)
    (hindex : index ≤ (c.pubsub.senders target).length) :
    (∀ sender ∈ c.rest target index, sender ∈ c'.rest target index) ∧
      (∀ sender ∈ c'.rest target index,
        sender ∈ c.rest target index ∨ sender = c.pubsub.created) ∧
      (c'.rest target index).length ≤ (c.rest target index).length + 1 := by
  have hlength := h.length_le
  -- New senders come last, behind the position of the loop.
  have hdrop : (c'.pubsub.senders target).drop index = (c.pubsub.senders target).drop index ++
      if target = registeredIn then added else [] := by
    rw [h.senders, List.drop_append_of_le_length hindex]
  cases target with
  | none =>
      simp only [rest, following, hdrop, List.append_nil, List.map_append, List.mem_append,
        List.length_append, List.length_map]
      refine ⟨fun sender hs => .inl hs, fun sender hs => hs.imp id fun hs => ?_, ?_⟩
      · obtain ⟨e, he, rfl⟩ := List.mem_map.mp hs
        exact (h.sender_eq he).2
      · split
        · exact Nat.add_le_add_left hlength _
        · exact Nat.le_succ _
  | some id =>
      simp only [rest, following, hdrop, h.senders none, List.map_append, List.mem_append,
        List.length_append, List.length_map]
      refine ⟨fun sender hs => hs.imp .inl .inl, fun sender hs => ?_, ?_⟩
      · rcases hs with (hs | hs) | (hs | hs)
        · exact .inl (.inl hs)
        · obtain ⟨e, he, rfl⟩ := List.mem_map.mp hs
          exact .inr (h.sender_eq he).2
        · exact .inl (.inr hs)
        · obtain ⟨e, he, rfl⟩ := List.mem_map.mp hs
          exact .inr (h.sender_eq he).2
      · -- The new channel is registered for the invoice or for all of them, not for both.
        by_cases h₁ : some id = registeredIn
        · have h₂ : ¬ none = registeredIn := fun h => by rw [← h] at h₁; cases h₁
          rw [if_pos h₁, if_neg h₂, List.length_nil]
          omega
        · rw [if_neg h₁, List.length_nil]
          split
          · omega
          · simp

/-- **A removal does not change who is to be visited**: the last sender comes to the current
position. -/
theorem rest_removeSender {id : SenderId} {sender : Sender} (phase : Phase)
    (h : (c.pubsub.senders target)[index]? = some (id, sender)) :
    ((Sending.mk { c.pubsub with publisher := c.pubsub.publisher.removeSender target id }
        phase).rest target index).Perm (c.rest target (index + 1)) ∧
      index ≤ ((c.pubsub.publisher.removeSender target id).senders target).length := by
  obtain ⟨hsplit, hfront⟩ := split_of_getElem? h
  obtain ⟨rest', hperm, hsenders⟩ := Publisher.senders_removeSender hsplit
  refine ⟨?_, by rw [hsenders, List.length_append, hfront]; exact Nat.le_add_right _ _⟩
  have hdrop : ((c.pubsub.publisher.removeSender target id).senders target).drop index = rest' := by
    rw [hsenders]
    exact List.drop_left' hfront
  have hfollowing : (Sending.mk { c.pubsub with
      publisher := c.pubsub.publisher.removeSender target id } phase).following target
        = c.following target := by
    cases target with
    | none => rfl
    | some invoiceId =>
        exact Publisher.senders_modify_of_ne _ _ (nofun : none ≠ some invoiceId)
  simp only [rest, hfollowing, Pubsub.senders, hdrop]
  exact (hperm.append_right _).map _

end Rest

/-! ## The invariant -/

/-- **A call in progress**, begun in `s₀`. Nobody has got the update twice; those still to be
visited and the subscribers of other invoices have not got it; and whoever was to be visited at the
start is still to be visited, has got the update, or is closed. -/
structure Delivering (invoice : Invoice) (s₀ : Pubsub) (c : Sending) : Prop where
  registered : c.pubsub.Registered
  placed : c.Placed invoice
  created : s₀.created ≤ c.pubsub.created
  atMostOnce : ∀ sender, (c.pubsub.channels sender).sent = (s₀.channels sender).sent ∨
    (c.pubsub.channels sender).sent = (s₀.channels sender).sent ++ [invoice]
  ahead : ∀ sender ∈ c.toVisit, (c.pubsub.channels sender).sent = (s₀.channels sender).sent
  elsewhere : ∀ id, id ≠ invoice.id → ∀ e ∈ c.pubsub.senders (some id),
    (c.pubsub.channels e.2).sent = (s₀.channels e.2).sent
  kept : ∀ id, id ≠ invoice.id → ∀ e ∈ s₀.senders (some id), e ∈ c.pubsub.senders (some id)
  covered : ∀ sender ∈ (start s₀ invoice).toVisit, sender ∈ c.toVisit ∨
    (c.pubsub.channels sender).sent = (s₀.channels sender).sent ++ [invoice] ∨
    (c.pubsub.channels sender).isOpen = false

section Delivering

variable {invoice : Invoice} {s₀ : Pubsub} {c c' : Sending}

/-- A call begins. -/
theorem Delivering.start (h : s₀.Registered) : Delivering invoice s₀ (start s₀ invoice) where
  registered := h
  placed := ⟨.inl rfl, Nat.zero_le _⟩
  created := Nat.le_refl _
  atMostOnce _ := .inl rfl
  ahead _ _ := rfl
  elsewhere _ _ _ _ := rfl
  kept _ _ _ he := he
  covered _ h := .inl h

/-- Steps of the call that change neither maps nor channels. -/
theorem Delivering.of_phase (hd : Delivering invoice s₀ c) {phase : Phase}
    (hplaced : Placed invoice ⟨c.pubsub, phase⟩)
    (hsub : ∀ sender ∈ toVisit ⟨c.pubsub, phase⟩, sender ∈ c.toVisit)
    (hleft : ∀ sender ∈ c.toVisit, sender ∈ toVisit ⟨c.pubsub, phase⟩ ∨
      (c.pubsub.channels sender).isOpen = false) :
    Delivering invoice s₀ ⟨c.pubsub, phase⟩ where
  registered := hd.registered
  placed := hplaced
  created := hd.created
  atMostOnce := hd.atMostOnce
  ahead sender h := hd.ahead sender (hsub sender h)
  elsewhere := hd.elsewhere
  kept := hd.kept
  covered sender h := by
    rcases hd.covered sender h with h | h
    · exact (hleft sender h).imp id .inr
    · exact .inr h

/-- **Sending** to the subscriber at the current position. -/
theorem Delivering.sent (hd : Delivering invoice s₀ c) {target : Option InvoiceId} {index : ℕ}
    {closed : Bool} {id : SenderId} {sender : Sender}
    (hphase : c.phase = .send target index closed id sender) :
    Delivering invoice s₀ ⟨c.pubsub.onChannel sender fun channel => channel.push invoice,
      .settle target index closed id⟩ := by
  obtain ⟨htarget, hget⟩ : IsTarget invoice target ∧
      (c.pubsub.senders target)[index]? = some (id, sender) := by
    have hplaced := hd.placed
    rwa [Placed, hphase] at hplaced
  have htoVisit : c.toVisit = sender :: c.rest target (index + 1) := by
    rw [toVisit, hphase]
    exact rest_eq_cons hget
  -- The channel is to be visited once: it has not had the update, and will not have it again.
  have hnodup : (sender :: c.rest target (index + 1)).Nodup := by
    rw [← rest_eq_cons hget]
    exact rest_nodup hd.registered
  have hbefore := hd.ahead sender (by rw [htoVisit]; exact List.mem_cons_self)
  have hafter : ((c.pubsub.onChannel sender fun channel => channel.push invoice).channels
      sender).sent = (s₀.channels sender).sent ++ [invoice] := by
    rw [Pubsub.onChannel_self, Channel.push, hbefore]
  have hother : ∀ {sender'}, sender' ≠ sender →
      (c.pubsub.onChannel sender fun channel => channel.push invoice).channels sender'
        = c.pubsub.channels sender' := fun h => Pubsub.onChannel_of_ne _ _ h
  have hsender : (id, sender) ∈ c.pubsub.senders target := List.mem_of_getElem? hget
  refine ⟨hd.registered.of_subset hd.registered.nodup (fun _ => List.Subset.refl _) rfl ?_,
    ⟨htarget, sender, hget⟩, hd.created, fun sender' => ?_, fun sender' h => ?_,
    fun id' hid e he => ?_, hd.kept, fun sender' h => ?_⟩
  · intro sender' hle
    rw [hother]
    exact fun heq => Nat.not_le.mpr (hd.registered.below target _ hsender) (heq ▸ hle)
  · by_cases heq : sender' = sender
    · rw [heq]
      exact .inr hafter
    · rw [hother heq]
      exact hd.atMostOnce sender'
  · have hne : sender' ≠ sender := fun heq => (List.nodup_cons.mp hnodup).1 (heq ▸ h)
    rw [hother hne]
    exact hd.ahead sender' (by rw [htoVisit]; exact List.mem_cons_of_mem _ h)
  · -- A subscriber of another invoice has another channel.
    have hne : some id' ≠ target := by
      rcases htarget with rfl | rfl
      · exact fun h => hid (Option.some.inj h)
      · exact nofun
    rw [hother (hd.registered.apart _ _ hne e he _ hsender)]
    exact hd.elsewhere id' hid e he
  · by_cases heq : sender' = sender
    · rw [heq]
      exact .inr (.inl hafter)
    · rw [hother heq]
      refine (hd.covered sender' h).imp_left fun h => ?_
      rw [htoVisit] at h
      exact (List.mem_cons.mp h).resolve_left heq

/-- **Removing** the subscriber at the current position. -/
theorem Delivering.removed (hd : Delivering invoice s₀ c) {target : Option InvoiceId} {index : ℕ}
    {id : SenderId} (hphase : c.phase = .settle target index true id) :
    Delivering invoice s₀
      ⟨{ c.pubsub with publisher := c.pubsub.publisher.removeSender target id },
        .fetch target index true⟩ := by
  obtain ⟨htarget, sender, hget⟩ : IsTarget invoice target ∧
      ∃ sender, (c.pubsub.senders target)[index]? = some (id, sender) := by
    have hplaced := hd.placed
    rwa [Placed, hphase] at hplaced
  obtain ⟨front, back, hsplit⟩ := List.append_of_mem (List.mem_of_getElem? hget)
  obtain ⟨hperm, hindex⟩ := rest_removeSender (.fetch target index true) hget
  have hmem : ∀ sender', sender' ∈ toVisit
      ⟨{ c.pubsub with publisher := c.pubsub.publisher.removeSender target id },
        .fetch target index true⟩ ↔ sender' ∈ c.toVisit := by
    intro sender'
    simp only [toVisit, hphase]
    exact hperm.mem_iff
  -- Subscribers of other invoices are not touched.
  have hother : ∀ id', id' ≠ invoice.id →
      (c.pubsub.publisher.removeSender target id).senders (some id') = c.pubsub.senders (some id') := by
    intro id' hid
    refine Publisher.senders_modify_of_ne _ _ ?_
    rcases htarget with rfl | rfl
    · exact fun h => hid (Option.some.inj h)
    · exact nofun
  refine ⟨hd.registered.removeSender hsplit, ⟨htarget, hindex⟩, hd.created, hd.atMostOnce,
    fun sender' h => hd.ahead sender' ((hmem sender').mp h), fun id' hid e he => ?_,
    fun id' hid e he => ?_, fun sender' h => ?_⟩
  · simp only [Pubsub.senders, hother id' hid] at he
    exact hd.elsewhere id' hid e he
  · simp only [Pubsub.senders, hother id' hid]
    exact hd.kept id' hid e he
  · exact (hd.covered sender' h).imp_left (hmem sender').mpr

/-- **Every step of the call keeps the invariant.** -/
theorem Delivering.call (hd : Delivering invoice s₀ c) (h : Advances invoice c c') :
    Delivering invoice s₀ c' := by
  have hplaced := hd.placed
  cases h with
  -- The sender at the position is the first one that is still to be visited.
  | @fetched target index closed id sender hphase hget =>
      rw [Placed, hphase] at hplaced
      have hsame : c.toVisit = toVisit { c with phase := .send target index closed id sender } := by
        rw [toVisit, hphase]
        rfl
      exact hd.of_phase ⟨hplaced.1, hget⟩ (fun _ h => hsame ▸ h) fun _ h => .inl (hsame ▸ h)
  -- Behind the last sender of the invoice, the ones of all invoices are left.
  | invoiceDone hphase hend =>
      have hsame : c.toVisit = toVisit { c with phase := .fetch none 0 false } := by
        simp only [toVisit, hphase, rest, following, List.drop_eq_nil_of_le hend, List.nil_append,
          List.drop_zero, List.append_nil]
      exact hd.of_phase ⟨.inr rfl, Nat.zero_le _⟩ (fun _ h => hsame ▸ h) fun _ h => .inl (hsame ▸ h)
  | globalDone hphase hend =>
      have hnil : c.toVisit = [] := by
        simp only [toVisit, hphase, rest, following, List.drop_eq_nil_of_le hend, List.append_nil,
          List.map_nil]
      exact hd.of_phase trivial (fun _ h => nomatch h) fun _ h => by rw [hnil] at h; cases h
  -- A closed channel gets nothing, and nothing is owed to it.
  | @refused target index closed id sender hphase hclosed =>
      rw [Placed, hphase] at hplaced
      have hcons : c.toVisit = sender :: toVisit { c with phase := .settle target index true id } := by
        rw [toVisit, hphase]
        exact rest_eq_cons hplaced.2
      refine hd.of_phase ⟨hplaced.1, _, hplaced.2⟩
        (fun _ h => by rw [hcons]; exact List.mem_cons_of_mem _ h) fun sender' h => ?_
      rw [hcons, List.mem_cons] at h
      rcases h with rfl | h
      · exact .inr hclosed
      · exact .inl h
  | sent hphase hopen => exact hd.sent hphase
  | removed hphase => exact hd.removed hphase
  | @next target index id hphase =>
      rw [Placed, hphase] at hplaced
      obtain ⟨htarget, sender, hget⟩ := hplaced
      have hsame : c.toVisit = toVisit { c with phase := .fetch target (index + 1) false } := by
        rw [toVisit, hphase]
        rfl
      exact hd.of_phase ⟨htarget, (List.getElem?_eq_some_iff.mp hget).1⟩ (fun _ h => hsame ▸ h)
        fun _ h => .inl (hsame ▸ h)

/-- Subscribers that come during a call may have to be visited, one each. -/
theorem toVisit_registers (hplaced : c.Placed invoice) (hphase : c'.phase = c.phase)
    {target : Option InvoiceId} {added : List (SenderId × Sender)}
    (h : Pubsub.Registers c.pubsub c'.pubsub target added) :
    (∀ sender ∈ c.toVisit, sender ∈ c'.toVisit) ∧
      (∀ sender ∈ c'.toVisit, sender ∈ c.toVisit ∨ sender = c.pubsub.created) ∧
      c'.toVisit.length ≤ c.toVisit.length + 1 := by
  unfold Placed at hplaced
  unfold toVisit
  rw [hphase]
  cases hcase : c.phase with
  | fetch target' index closed =>
      rw [hcase] at hplaced
      exact rest_registers h hplaced.2
  | send target' index closed id sender =>
      rw [hcase] at hplaced
      exact rest_registers h (Nat.le_of_lt (List.getElem?_eq_some_iff.mp hplaced.2).1)
  | settle target' index closed id =>
      rw [hcase] at hplaced
      obtain ⟨-, sender, hget⟩ := hplaced
      exact rest_registers h (List.getElem?_eq_some_iff.mp hget).1
  | done => exact ⟨fun _ h => h, fun _ h => .inl h, Nat.zero_le _⟩

/-- **Subscribing** during the call. -/
theorem Delivering.registers (hd : Delivering invoice s₀ c) (hs₀ : s₀.Registered)
    (hphase : c'.phase = c.phase) {target : Option InvoiceId} {added : List (SenderId × Sender)}
    (h : Pubsub.Registers c.pubsub c'.pubsub target added) : Delivering invoice s₀ c' := by
  -- Nothing is on the new channel, now or at the start of the call.
  have hnew : (c.pubsub.channels c.pubsub.created).sent
      = (s₀.channels c.pubsub.created).sent := by
    rw [hd.registered.fresh _ (Nat.le_refl _), hs₀.fresh _ hd.created]
  obtain ⟨hkeep, hadd, -⟩ := toVisit_registers hd.placed hphase h
  have hmem : ∀ {target' e}, e ∈ c.pubsub.senders target' → e ∈ c'.pubsub.senders target' := by
    intro target' e he
    rw [h.senders]
    exact List.mem_append_left _ he
  refine ⟨hd.registered.registers h, ?_, by rw [h.created]; exact Nat.le_succ_of_le hd.created,
    fun sender => ?_, fun sender hv => ?_, fun id hid e he => ?_,
    fun id hid e he => hmem (hd.kept id hid e he), fun sender hv => ?_⟩
  · -- Senders are added at the end, so that the position still is in the list.
    have hplaced := hd.placed
    unfold Placed at hplaced ⊢
    rw [hphase]
    cases hcase : c.phase with
    | fetch target' index closed =>
        rw [hcase] at hplaced
        refine ⟨hplaced.1, Nat.le_trans hplaced.2 ?_⟩
        rw [h.senders, List.length_append]
        exact Nat.le_add_right _ _
    | send target' index closed id sender =>
        rw [hcase] at hplaced
        refine ⟨hplaced.1, ?_⟩
        rw [h.senders, List.getElem?_append_left (List.getElem?_eq_some_iff.mp hplaced.2).1]
        exact hplaced.2
    | settle target' index closed id =>
        rw [hcase] at hplaced
        obtain ⟨htarget, sender, hget⟩ := hplaced
        refine ⟨htarget, sender, ?_⟩
        rw [h.senders, List.getElem?_append_left (List.getElem?_eq_some_iff.mp hget).1]
        exact hget
    | done => trivial
  · rw [h.channels]
    exact hd.atMostOnce sender
  · rw [h.channels]
    rcases hadd sender hv with hold | rfl
    · exact hd.ahead sender hold
    · exact hnew
  · rw [h.channels]
    rcases h.mem_senders he with he | ⟨-, heq⟩
    · exact hd.elsewhere id hid e he
    · rw [heq]
      exact hnew
  · rw [h.channels]
    exact (hd.covered sender hv).imp_left (hkeep sender)

/-- What the subscribers do does not change who is to be visited. -/
theorem toVisit_onChannel {label : Label} (h : Step invoice label c c')
    (hlabel : label = .recv ∨ label = .close) : c'.toVisit = c.toVisit := by
  obtain ⟨hphase, hpublisher, -, -⟩ := h.onChannel hlabel
  unfold toVisit
  rw [hphase]
  cases c.phase with
  | fetch target _ _ | send target _ _ _ _ | settle target _ _ _ => exact rest_congr hpublisher _ _
  | done => rfl

/-- The subscribers receive updates and close their channels. -/
theorem Delivering.onChannel (hd : Delivering invoice s₀ c) {label : Label}
    (h : Step invoice label c c') (hlabel : label = .recv ∨ label = .close) :
    Delivering invoice s₀ c' := by
  obtain ⟨hphase, hpublisher, hcreated, hchannels⟩ := h.onChannel hlabel
  have hsenders : ∀ target, c'.pubsub.senders target = c.pubsub.senders target := by
    intro target
    rw [Pubsub.senders, hpublisher]
  have htoVisit : c'.toVisit = c.toVisit := toVisit_onChannel h hlabel
  -- Receiving and closing leave the senders alone and add nothing to what has been sent.
  refine ⟨hd.registered.of_subset (fun target => by rw [hsenders]; exact hd.registered.nodup target)
      (fun target => by rw [hsenders]; exact List.Subset.refl _) hcreated
      fun sender _ => (hchannels sender).1, ?_, by rw [hcreated]; exact hd.created,
    fun sender => ?_, fun sender hv => ?_, fun id hid e he => ?_, fun id hid e he => ?_,
    fun sender hv => ?_⟩
  · have hplaced := hd.placed
    unfold Placed at hplaced ⊢
    simp only [hphase, hsenders]
    exact hplaced
  · rw [(hchannels sender).1]
    exact hd.atMostOnce sender
  · rw [(hchannels sender).1]
    exact hd.ahead sender (htoVisit ▸ hv)
  · rw [hsenders] at he
    rw [(hchannels e.2).1]
    exact hd.elsewhere id hid e he
  · rw [hsenders]
    exact hd.kept id hid e he
  · rw [(hchannels sender).1, htoVisit]
    refine (hd.covered sender hv).imp_right fun hor => hor.imp_right fun hclosed => ?_
    by_contra hopen
    have hwas := (hchannels sender).2.1 (by simpa using hopen)
    exact absurd (hclosed.symm.trans hwas) (by simp)

/-- **Every step keeps the invariant.** -/
theorem Delivering.step (hd : Delivering invoice s₀ c) (hs₀ : s₀.Registered) {label : Label}
    (h : Step invoice label c c') : Delivering invoice s₀ c' := by
  cases label with
  | call =>
      cases h with
      | call h => exact hd.call (advance_cases h)
  | subscribe =>
      obtain ⟨hphase, target, added, hregisters⟩ := h.registers
      exact hd.registers hs₀ hphase hregisters
  | recv => exact hd.onChannel h (.inl rfl)
  | close => exact hd.onChannel h (.inr rfl)

/-- When the call is over, whoever was to be visited and is still open has got the update. -/
theorem Delivering.delivered (hd : Delivering invoice s₀ c) (hdone : c.phase = .done)
    {e : SenderId × Sender} (he : e ∈ s₀.senders (some invoice.id) ++ s₀.senders none)
    (hopen : (c.pubsub.channels e.2).isOpen = true) :
    (c.pubsub.channels e.2).sent = (s₀.channels e.2).sent ++ [invoice] := by
  have hnil : c.toVisit = [] := by rw [toVisit, hdone]
  rcases hd.covered e.2 (List.mem_map_of_mem he) with h | h | h
  · rw [hnil] at h
    cases h
  · exact h
  · exact absurd (hopen.symm.trans h) (by simp)

end Delivering

/-! ## The end of the call -/

/-- How far a phase is from its next visit. -/
def weight : Phase → ℕ
  | .fetch (some _) _ _ => 3
  | .fetch none _ _ => 2
  | .send (some _) _ _ _ _ => 2
  | .send none _ _ _ _ => 1
  | .settle (some _) _ _ _ => 4
  | .settle none _ _ _ => 3
  | .done => 0

/-- A bound for the steps that the call still makes if nobody subscribes. -/
def potential (c : Sending) : ℕ := 3 * c.toVisit.length + weight c.phase

section Potential

variable {invoice : Invoice} {c c' : Sending}

/-- **Every step of the call brings it closer to its end.** -/
theorem potential_call (hplaced : c.Placed invoice) (h : Advances invoice c c') :
    c'.potential < c.potential := by
  -- Either a subscriber is done with, or the phase comes closer to that.
  unfold potential
  cases h with
  | @fetched target index closed id sender hphase hget =>
      simp only [toVisit, hphase]
      cases target <;> exact Nat.lt_succ_self _
  | invoiceDone hphase hend =>
      simp only [toVisit, hphase, rest, following, List.drop_eq_nil_of_le hend, List.nil_append,
        List.drop_zero, List.append_nil]
      exact Nat.lt_succ_self _
  | globalDone hphase hend =>
      simp only [toVisit, hphase, weight, List.length_nil]
      omega
  | @refused target index closed id sender hphase hclosed =>
      rw [Placed, hphase] at hplaced
      have hrest : (Sending.mk c.pubsub (.settle target index true id)).rest target (index + 1)
          = c.rest target (index + 1) := rest_congr rfl target (index + 1)
      simp only [toVisit, hphase, rest_eq_cons hplaced.2, List.length_cons, hrest]
      cases target <;> simp only [weight] <;> omega
  | @sent target index closed id sender hphase hopen =>
      rw [Placed, hphase] at hplaced
      have hrest : (Sending.mk (c.pubsub.onChannel sender fun channel => channel.push invoice)
          (.settle target index closed id)).rest target (index + 1) = c.rest target (index + 1) :=
        rest_congr rfl target (index + 1)
      simp only [toVisit, hphase, rest_eq_cons hplaced.2, List.length_cons, hrest]
      cases target <;> simp only [weight] <;> omega
  | @removed target index id hphase =>
      rw [Placed, hphase] at hplaced
      obtain ⟨-, sender, hget⟩ := hplaced
      have hlength := (rest_removeSender (.fetch target index true) hget).1.length_eq
      simp only [toVisit, hphase, hlength]
      cases target <;> exact Nat.lt_succ_self _
  | @next target index id hphase =>
      simp only [toVisit, hphase]
      cases target <;> exact Nat.lt_succ_self _

/-- The call waits for room in the channel of an open subscriber. -/
def Waiting (c : Sending) : Prop :=
  ∃ target index closed id sender, c.phase = .send target index closed id sender ∧
    (c.pubsub.channels sender).isOpen = true ∧ (c.pubsub.channels sender).isFull = true

/-- A call that is not over goes on or waits. -/
theorem advance_or_waiting (invoice : Invoice) (c : Sending) :
    c.phase = .done ∨ (∃ c', Step invoice .call c c') ∨ c.Waiting := by
  cases h : c.advance invoice with
  | some c' => exact .inr (.inl ⟨c', .call h⟩)
  | none =>
      unfold advance at h
      split at h
      · split at h
        · cases h
        · split at h <;> cases h
      · rename_i hphase
        split at h
        · cases h
        · rename_i hopen
          split at h
          · rename_i hfull
            exact .inr (.inr ⟨_, _, _, _, _, hphase, by simpa using hopen, hfull⟩)
          · cases h
      · split at h <;> cases h
      · rename_i hphase
        exact .inl hphase

end Potential

/-! ## Whole calls -/

/-- **A run beside which others run**, with the numbers of steps of the call and of subscriptions.
-/
inductive Runs (invoice : Invoice) (c₀ : Sending) : ℕ → ℕ → Sending → Prop where
  | refl : Runs invoice c₀ 0 0 c₀
  | step {k m : ℕ} {c c' : Sending} {label : Label} (h : Runs invoice c₀ k m c)
      (hstep : Step invoice label c c') :
      Runs invoice c₀ (k + if label = .call then 1 else 0)
        (m + if label = .subscribe then 1 else 0) c'

section Run

variable {invoice : Invoice} {s₀ : Pubsub} {c : Sending} {k m : ℕ}

/-- Every state of the run satisfies the invariant. -/
theorem Runs.delivering (hs₀ : s₀.Registered) (h : Runs invoice (start s₀ invoice) k m c) :
    Delivering invoice s₀ c := by
  induction h with
  | refl => exact .start hs₀
  | step _ hstep ih => exact ih.step hs₀ hstep

/-- The steps of the call are used up, and each subscription brings at most three. -/
theorem Runs.potential_add_le (hs₀ : s₀.Registered) (h : Runs invoice (start s₀ invoice) k m c) :
    c.potential + k ≤ (start s₀ invoice).potential + 3 * m := by
  induction h with
  | refl => exact Nat.le_refl _
  | @step k m c c' label h hstep ih =>
      have hd := h.delivering hs₀
      cases label with
      | call =>
          cases hstep with
          | call hadvance =>
              have := potential_call hd.placed (advance_cases hadvance)
              simp only [if_true, reduceCtorEq, if_false]
              omega
      | subscribe =>
          obtain ⟨hphase, target, added, hregisters⟩ := hstep.registers
          have hlength := (toVisit_registers hd.placed hphase hregisters).2.2
          simp only [potential, hphase, if_true, reduceCtorEq, if_false] at ih ⊢
          omega
      | recv =>
          have hsame := toVisit_onChannel hstep (.inl rfl)
          simp only [potential, hsame, (hstep.onChannel (.inl rfl)).1, reduceCtorEq, if_false] at ih ⊢
          omega
      | close =>
          have hsame := toVisit_onChannel hstep (.inr rfl)
          simp only [potential, hsame, (hstep.onChannel (.inr rfl)).1, reduceCtorEq, if_false] at ih ⊢
          omega

/-- **Exactly-once delivery.** At every moment of a call of `send_updates` that runs beside other
calls, nobody has got the update twice and no subscriber of another invoice has got it; when the
call is over, everybody who was subscribed at its start and is still open has got it once. The call
makes at most three steps for each subscriber, and only ever waits for a full channel. -/
theorem updates_delivered_once (hs₀ : s₀.Registered)
    (hrun : Runs invoice (start s₀ invoice) k m c) :
    (c.phase = .done → ∀ e ∈ s₀.senders (some invoice.id) ++ s₀.senders none,
      (c.pubsub.channels e.2).isOpen = true →
        (c.pubsub.channels e.2).sent = (s₀.channels e.2).sent ++ [invoice]) ∧
    (∀ e ∈ s₀.senders (some invoice.id) ++ s₀.senders none,
      (c.pubsub.channels e.2).sent = (s₀.channels e.2).sent ∨
        (c.pubsub.channels e.2).sent = (s₀.channels e.2).sent ++ [invoice]) ∧
    (∀ sender, s₀.created ≤ sender →
      (c.pubsub.channels sender).sent = [] ∨ (c.pubsub.channels sender).sent = [invoice]) ∧
    (∀ id, id ≠ invoice.id → ∀ e ∈ s₀.senders (some id) ++ c.pubsub.senders (some id),
      (c.pubsub.channels e.2).sent = (s₀.channels e.2).sent) ∧
    k ≤ 3 * ((s₀.senders (some invoice.id)).length + (s₀.senders none).length) + 3 + 3 * m ∧
    (c.phase = .done ∨ (∃ c', Step invoice .call c c') ∨ c.Waiting) := by
  -- All but the bound and the last part are read off the invariant.
  have hd := hrun.delivering hs₀
  have hstart : (start s₀ invoice).toVisit
      = (s₀.senders (some invoice.id) ++ s₀.senders none).map Prod.snd := rfl
  refine ⟨fun hdone e he hopen => hd.delivered hdone he hopen, fun e _ => hd.atMostOnce e.2,
    fun sender hle => ?_, fun id hid e he => ?_, ?_, advance_or_waiting invoice c⟩
  · have hsent := hd.atMostOnce sender
    rwa [hs₀.fresh sender hle] at hsent
  · rcases List.mem_append.mp he with he | he
    · exact hd.elsewhere id hid e (hd.kept id hid e he)
    · exact hd.elsewhere id hid e he
  · have hpotential : (start s₀ invoice).potential
        = 3 * ((s₀.senders (some invoice.id)).length + (s₀.senders none).length) + 3 := by
      rw [potential, hstart, List.length_map, List.length_append]
      rfl
    have := hrun.potential_add_le hs₀
    omega

end Run

/-- Some steps of the call in a row. -/
def advances (invoice : Invoice) : ℕ → Sending → Option Sending
  | 0, c => some c
  | n + 1, c => (c.advance invoice).bind (advances invoice n)

theorem Runs.advances {invoice : Invoice} {c₀ c c' : Sending} {k m n : ℕ}
    (h : Runs invoice c₀ k m c) (hn : Sending.advances invoice n c = some c') :
    Runs invoice c₀ (k + n) m c' := by
  induction n generalizing c k with
  | zero =>
      cases hn
      exact h
  | succ n ih =>
      obtain ⟨d, hd, hn⟩ := Option.bind_eq_some_iff.mp hn
      have hrun := ih (h.step (.call hd)) hn
      rwa [Nat.add_comm n 1, ← Nat.add_assoc]

/-- An update of an invoice for index 1. -/
def someUpdate : Invoice := Invoice.new "" ⟨0, 1⟩ 1 10 1 100 ""

/-- A publisher that knows the invoice. -/
def noSubscribers : Pubsub := ⟨Publisher.new.insertInvoice someUpdate.id, fun _ => {}, 0⟩

/-- One subscriber of the invoice, with channel 0. -/
def oneSubscriber : Pubsub := noSubscribers.register (some someUpdate.id) 7

/-- One more of all invoices, with channel 1. -/
def twoSubscribers : Pubsub := oneSubscriber.register none 8

theorem oneSubscriber_registered : oneSubscriber.Registered := by
  have hnone : noSubscribers.Registered := by
    refine .new _ fun target => ?_
    cases target with
    | none => rfl
    | some id =>
        by_cases h : id = someUpdate.id
        · subst h
          rfl
        · simp [Publisher.senders, Publisher.subs, Publisher.insertInvoice, Publisher.new, h]
  exact hnone.registers (Pubsub.register_registers (by decide) rfl)

theorem twoSubscribers_registered : twoSubscribers.Registered :=
  oneSubscriber_registered.registers (Pubsub.register_registers (by decide) rfl)

/-- Both subscribers get the update. -/
theorem updates_delivered_once_two :
    ∃ c, Runs someUpdate (start twoSubscribers someUpdate) 8 0 c ∧ c.phase = .done ∧
      ∀ e ∈ twoSubscribers.senders (some someUpdate.id) ++ twoSubscribers.senders none,
        (c.pubsub.channels e.2).sent = [someUpdate] := by
  have hend : (advances someUpdate 8 (start twoSubscribers someUpdate)).map (fun c => (c.phase,
      (c.pubsub.channels 0).isOpen, (c.pubsub.channels 1).isOpen)) = some (.done, true, true) := rfl
  obtain ⟨c, hc, heq⟩ := Option.map_eq_some_iff.mp hend
  simp only [Prod.mk.injEq] at heq
  have hrun : Runs someUpdate (start twoSubscribers someUpdate) 8 0 c :=
    Runs.refl.advances hc
  refine ⟨c, hrun, heq.1, fun e he => ?_⟩
  refine (updates_delivered_once twoSubscribers_registered hrun).1 heq.1 e he ?_
  have hmem : e ∈ [((7 : SenderId), (0 : Sender)), (8, 1)] := he
  simp only [List.mem_cons, List.not_mem_nil, or_false] at hmem
  rcases hmem with rfl | rfl
  · exact heq.2.1
  · exact heq.2.2

/-- The subscriber's channel is full. -/
def backlogged : Pubsub :=
  oneSubscriber.onChannel 0 fun channel =>
    { channel with sent := List.replicate subscriptionBufferLen someUpdate }

/-- **A subscriber that does not receive blocks the call**: with a full channel, no run of the call
beside any number of subscriptions comes to an end, and the subscriber does not get the update. -/
theorem full_channel_blocks :
    backlogged.Registered ∧ (7, 0) ∈ backlogged.senders (some someUpdate.id) ∧
    ∀ c, Relation.ReflTransGen
        (fun c c' => Step someUpdate .call c c' ∨ Step someUpdate .subscribe c c')
        (start backlogged someUpdate) c →
      c.phase ≠ .done ∧ (c.pubsub.channels 0).isOpen = true ∧
        (c.pubsub.channels 0).sent = (backlogged.channels 0).sent := by
  refine ⟨oneSubscriber_registered.of_subset oneSubscriber_registered.nodup
    (fun _ => List.Subset.refl _) rfl fun sender hle => ?_, List.mem_singleton.mpr rfl,
    fun c hrun => ?_⟩
  · rw [backlogged, Pubsub.onChannel_of_ne]
    exact fun h => absurd (h ▸ hle) (by decide)
  · -- The sender stays in front, and the call comes as far as the send.
    have hinv : (c.pubsub.senders (some someUpdate.id))[0]? = some (7, 0) ∧
        c.pubsub.channels 0 = backlogged.channels 0 ∧
        (c.phase = .fetch (some someUpdate.id) 0 false ∨
          c.phase = .send (some someUpdate.id) 0 false 7 0) := by
      induction hrun with
      | refl => exact ⟨rfl, rfl, .inl rfl⟩
      | tail _ hstep ih =>
          obtain ⟨hget, hchannel, hphase⟩ := ih
          rcases hstep with hcall | hsub
          · cases hcall with
            | call h =>
                rcases hphase with hphase | hphase
                · rw [advance, hphase] at h
                  simp only [Publisher.getSenderByIndex_eq, hget] at h
                  cases h
                  exact ⟨hget, hchannel, .inr rfl⟩
                · rw [advance, hphase] at h
                  simp [hchannel, backlogged, Channel.isFull, oneSubscriber, noSubscribers,
                    Pubsub.register] at h
          · -- New subscribers come behind, and fill no channel.
            obtain ⟨hsame, target, added, hregisters⟩ := hsub.registers
            refine ⟨?_, by rw [hregisters.channels, hchannel], by rw [hsame]; exact hphase⟩
            rw [hregisters.senders, List.getElem?_append_left
              (List.getElem?_eq_some_iff.mp hget).1]
            exact hget
    obtain ⟨-, hchannel, hphase⟩ := hinv
    refine ⟨fun h => ?_, by rw [hchannel]; rfl, by rw [hchannel]⟩
    rcases hphase with hphase | hphase
    · rw [h] at hphase
      cases hphase
    · rw [h] at hphase
      cases hphase

end Sending

end AcceptXmr
