import AcceptXmr.Pubsub.Delivery
import Mathlib.Data.List.TakeWhile

/-! # Who stays subscribed

A call of `send_updates` removes the senders whose receiver is closed. The flag that says so is set
by the first of them and not reset within the loop, so that everybody behind it is removed as well:
what stays is the senders in front of the first closed one.

* **`Sends.senders_eq`** — what a call leaves in the maps.
* **`open_subscribers_stay`** — a call removes exactly the closed senders if and only if no open
  sender stands behind a closed one; and in a run in which this is always so, a subscriber that does
  not close receives every update of its invoice. -/

namespace AcceptXmr

open scoped List

/-! ## Sweeping a list -/

section Sweep

variable {α : Type} {p : α → Bool} {L l : List α} {i : ℕ} {closed : Bool}

/-- **Where the loop stands** in a list that was `L` at its start: in front of the position
everybody is open and in place; before the first closed one the list is unchanged, and from then on
the position is that of the first closed one. -/
structure SweptTo (p : α → Bool) (L l : List α) (i : ℕ) (closed : Bool) : Prop where
  front : l.take i = L.take i
  isOpen : ∀ e ∈ L.take i, p e = true
  before : closed = false → l = L
  since : closed = true → L.take i = L.takeWhile p

theorem SweptTo.start (p : α → Bool) (L : List α) : SweptTo p L L 0 false :=
  ⟨rfl, fun _ h => (by rw [List.take_zero] at h; cases h), fun _ => rfl, nofun⟩

/-- The list in front of a closed element is its open start. -/
theorem take_eq_takeWhile {e : α} (hopen : ∀ e ∈ L.take i, p e = true) (hget : L[i]? = some e)
    (he : p e = false) : L.take i = L.takeWhile p := by
  obtain ⟨hsplit, -⟩ := split_of_getElem? hget
  have hwhile : (L.take i ++ e :: L.drop (i + 1)).takeWhile p = L.take i := by
    rw [List.takeWhile_append_of_pos hopen, List.takeWhile_cons_of_neg (by simp [he]),
      List.append_nil]
  rw [← hsplit] at hwhile
  exact hwhile.symm

/-- At a closed element the flag is set. -/
theorem SweptTo.refused (h : SweptTo p L l i closed) {e : α} (hget : l[i]? = some e)
    (he : p e = false) : SweptTo p L l i true := by
  refine ⟨h.front, h.isOpen, nofun, fun _ => ?_⟩
  cases hclosed : closed with
  | true => exact h.since hclosed
  | false =>
      rw [h.before hclosed] at hget
      exact take_eq_takeWhile h.isOpen hget he

/-- Past an open element. -/
theorem SweptTo.next (h : SweptTo p L l i false) {e : α} (hget : l[i]? = some e)
    (he : p e = true) : SweptTo p L l (i + 1) false := by
  have hL := h.before rfl
  subst hL
  refine ⟨rfl, fun x hx => ?_, fun _ => rfl, nofun⟩
  rw [List.take_add_one, hget, List.mem_append] at hx
  rcases hx with hx | hx
  · exact h.isOpen x hx
  · rw [Option.toList_some, List.mem_singleton] at hx
    rw [hx]
    exact he

/-- Removing the element at the position. -/
theorem SweptTo.removed (h : SweptTo p L l i true) {rest : List α} (hi : i ≤ l.length) :
    SweptTo p L (l.take i ++ rest) i true := by
  refine ⟨?_, h.isOpen, nofun, h.since⟩
  rw [List.take_left' (List.length_take_of_le hi), h.front]

/-- **At the end** the open start of the list is left. -/
theorem SweptTo.final (h : SweptTo p L l i closed) (hend : l.length ≤ i) : l = L.takeWhile p := by
  have hall : l = L.take i := by rw [← h.front, List.take_of_length_le hend]
  cases hclosed : closed with
  | true => rw [hall, h.since hclosed]
  | false =>
      have hL := h.before hclosed
      subst hL
      refine (List.takeWhile_eq_self_iff.mpr fun e he => ?_).symm
      rw [hall] at he
      exact h.isOpen e he

/-- The open start of a list consists of its open elements if and only if no open one stands behind
a closed one. -/
theorem mem_takeWhile_iff_pairwise (hL : L.Nodup) :
    (∀ e, e ∈ L.takeWhile p ↔ e ∈ L ∧ p e = true)
      ↔ L.Pairwise fun a b => p b = true → p a = true := by
  induction L with
  | nil => simp
  | cons a L ih =>
      rw [List.nodup_cons] at hL
      rw [List.pairwise_cons]
      cases ha : p a with
      | false =>
          -- A closed one in front: nothing is taken, so none of the rest may be open.
          rw [List.takeWhile_cons_of_neg (by simp [ha])]
          refine ⟨fun h => ?_, fun h e => ⟨nofun, fun ⟨hmem, hp⟩ => ?_⟩⟩
          · have hnone : ∀ b ∈ L, p b = true → False := fun b hb hp =>
              List.not_mem_nil ((h b).mpr ⟨List.mem_cons_of_mem a hb, hp⟩)
            exact ⟨fun b hb hp => (hnone b hb hp).elim,
              List.pairwise_of_forall_mem_list fun b _ c hc hp => (hnone c hc hp).elim⟩
          · rcases List.mem_cons.mp hmem with rfl | hmem
            · exact absurd (ha.symm.trans hp) (by simp)
            · exact absurd (h.1 e hmem hp) (by simp)
      | true =>
          -- An open one in front is taken, and the rest decides.
          rw [List.takeWhile_cons_of_pos ha, ← ih hL.2]
          refine ⟨fun h => ⟨fun _ _ _ => rfl, fun e => ?_⟩, fun h e => ?_⟩
          · have he := h e
            simp only [List.mem_cons] at he
            refine ⟨fun hmem => ?_, fun ⟨hmem, hp⟩ => ?_⟩
            · exact ⟨(List.takeWhile_prefix p).subset hmem, (he.mp (.inr hmem)).2⟩
            · have hne : e ≠ a := fun heq => hL.1 (heq ▸ hmem)
              exact (he.mpr ⟨.inr hmem, hp⟩).resolve_left hne
          · simp only [List.mem_cons, h.2 e]
            refine ⟨fun hor => ?_, fun ⟨hor, hp⟩ => hor.imp_right fun hmem => ⟨hmem, hp⟩⟩
            rcases hor with rfl | ⟨hmem, hp⟩
            · exact ⟨.inl rfl, ha⟩
            · exact ⟨.inr hmem, hp⟩

end Sweep

namespace Sending

/-! ## What a call leaves in the maps -/

/-- A call proceeds, or a subscriber receives. -/
def Proceeds (invoice : Invoice) (c c' : Sending) : Prop :=
  Step invoice .call c c' ∨ Step invoice .recv c c'

/-- **A whole call** of `send_updates`, during which the subscribers go on receiving. -/
def Sends (invoice : Invoice) (s s' : Pubsub) : Prop :=
  Relation.ReflTransGen (Proceeds invoice) (start s invoice) ⟨s', .done⟩

/-- What has been swept when the call, begun in `s₀`, stands at a position of one of its loops. -/
structure SweptAt (invoice : Invoice) (s₀ s : Pubsub) (target : Option InvoiceId) (index : ℕ)
    (closed : Bool) : Prop where
  here : SweptTo s₀.IsOpen (s₀.senders target) (s.senders target) index closed
  earlier : target = none →
    s.senders (some invoice.id) = (s₀.senders (some invoice.id)).takeWhile s₀.IsOpen
  later : target ≠ none → s.senders none = s₀.senders none

/-- What has been swept in a phase. Without the flag the sender that is settled is an open one. -/
def SweptIn (invoice : Invoice) (s₀ s : Pubsub) : Phase → Prop
  | .fetch target index closed | .send target index closed _ _ =>
      SweptAt invoice s₀ s target index closed
  | .settle target index closed _ => SweptAt invoice s₀ s target index closed ∧
      (closed = false → ∃ e, (s.senders target)[index]? = some e ∧ s₀.IsOpen e = true)
  | .done => ∀ target, IsTarget invoice target →
      s.senders target = (s₀.senders target).takeWhile s₀.IsOpen

/-- **A call that removes senders**, begun in `s₀`. -/
structure Sweeping (invoice : Invoice) (s₀ : Pubsub) (c : Sending) : Prop where
  isOpen : c.pubsub.IsOpen = s₀.IsOpen
  elsewhere : ∀ target, ¬ IsTarget invoice target →
    c.pubsub.senders target = s₀.senders target
  swept : SweptIn invoice s₀ c.pubsub c.phase

section Sweeping

variable {invoice : Invoice} {s₀ s s' : Pubsub} {c c' : Sending}

theorem Sweeping.start (invoice : Invoice) (s₀ : Pubsub) :
    Sweeping invoice s₀ (start s₀ invoice) where
  isOpen := rfl
  elsewhere _ _ := rfl
  swept := ⟨.start _ _, nofun, fun _ => rfl⟩

/-- **Every step of the call** keeps the invariant. -/
theorem Sweeping.call (hsw : Sweeping invoice s₀ c) (hplaced : c.Placed invoice)
    (h : Advances invoice c c') : Sweeping invoice s₀ c' := by
  have hswept := hsw.swept
  cases h with
  | fetched hphase hget =>
      rw [hphase] at hswept
      exact ⟨hsw.isOpen, hsw.elsewhere, hswept⟩
  | invoiceDone hphase hend =>
      rw [Placed, hphase] at hplaced
      rw [hphase] at hswept
      -- The global subscribers have not been visited, and are as they were.
      obtain rfl := Option.some.inj (hplaced.1.resolve_right (Option.some_ne_none _))
      refine ⟨hsw.isOpen, hsw.elsewhere, ?_, fun _ => hswept.here.final hend,
        fun hne => absurd rfl hne⟩
      rw [hswept.later (Option.some_ne_none _)]
      exact .start _ _
  | globalDone hphase hend =>
      rw [hphase] at hswept
      refine ⟨hsw.isOpen, hsw.elsewhere, fun target htarget => ?_⟩
      rcases htarget with rfl | rfl
      · exact hswept.earlier rfl
      · exact hswept.here.final hend
  | refused hphase hclosed =>
      rw [Placed, hphase] at hplaced
      rw [hphase] at hswept
      refine ⟨hsw.isOpen, hsw.elsewhere, ⟨?_, hswept.earlier, hswept.later⟩,
        fun htrue => absurd htrue (by decide)⟩
      refine hswept.here.refused hplaced.2 ?_
      rw [← hsw.isOpen]
      exact hclosed
  | @sent target index closed id sender hphase hopen =>
      rw [Placed, hphase] at hplaced
      rw [hphase] at hswept
      refine ⟨?_, hsw.elsewhere, ⟨hswept.here, hswept.earlier, hswept.later⟩,
        fun _ => ⟨_, hplaced.2, ?_⟩⟩
      · -- Sending closes no channel.
        rw [← hsw.isOpen]
        funext e
        by_cases he : e.2 = sender
        · simp only [Pubsub.IsOpen, he, Pubsub.onChannel_self, Channel.push]
        · simp only [Pubsub.IsOpen, Pubsub.onChannel_of_ne _ _ he]
      · rw [← hsw.isOpen]
        exact hopen
  | @removed target index id hphase =>
      rw [Placed, hphase] at hplaced
      rw [hphase] at hswept
      obtain ⟨htarget, sender, hget⟩ := hplaced
      obtain ⟨hlt, -⟩ := List.getElem?_eq_some_iff.mp hget
      have hother : ∀ target', target' ≠ target →
          (c.pubsub.publisher.removeSender target id).senders target'
            = c.pubsub.senders target' :=
        fun target' hne => Publisher.senders_modify_of_ne _ _ hne
      -- The last sender of the target takes the place of the removed one; the others stay.
      obtain ⟨hsplit, -⟩ := split_of_getElem? hget
      obtain ⟨rest', -, hsenders⟩ := Publisher.senders_removeSender hsplit
      refine ⟨hsw.isOpen, fun target' hne => ?_, ?_, fun hnone => ?_, fun hsome => ?_⟩
      · rw [← hsw.elsewhere target' hne]
        exact hother target' fun heq => hne (heq ▸ htarget)
      · show SweptTo _ _ ((c.pubsub.publisher.removeSender target id).senders target) index true
        rw [hsenders]
        exact hswept.1.here.removed (Nat.le_of_lt hlt)
      · rw [← hswept.1.earlier hnone]
        exact hother _ (by rw [hnone]; exact Option.some_ne_none _)
      · rw [← hswept.1.later hsome]
        exact hother _ hsome.symm
  | @next target index id hphase =>
      rw [hphase] at hswept
      obtain ⟨e, hget, he⟩ := hswept.2 rfl
      exact ⟨hsw.isOpen, hsw.elsewhere, hswept.1.here.next hget he, hswept.1.earlier,
        hswept.1.later⟩

/-- Receiving keeps the invariant. -/
theorem Sweeping.recv (hsw : Sweeping invoice s₀ c) (h : Step invoice .recv c c') :
    Sweeping invoice s₀ c' := by
  obtain ⟨hphase, hpublisher, -, hchannels⟩ := h.onChannel (.inl rfl)
  have hsenders : c'.pubsub.senders = c.pubsub.senders := by
    funext target
    rw [Pubsub.senders, hpublisher]
  refine ⟨?_, fun target htarget => by rw [hsenders, hsw.elsewhere target htarget], ?_⟩
  · rw [← hsw.isOpen]
    funext e
    exact (hchannels e.2).2.2 rfl
  · have hswept := hsw.swept
    rw [hphase]
    cases hcase : c.phase with
    | fetch target index closed | send target index closed id sender =>
        rw [hcase] at hswept
        obtain ⟨hhere, hearlier, hlater⟩ := hswept
        rw [← hsenders] at hhere hearlier hlater
        exact ⟨hhere, hearlier, hlater⟩
    | settle target index closed id =>
        rw [hcase] at hswept
        obtain ⟨⟨hhere, hearlier, hlater⟩, hopen⟩ := hswept
        rw [← hsenders] at hhere hearlier hlater hopen
        exact ⟨⟨hhere, hearlier, hlater⟩, hopen⟩
    | done =>
        rw [hcase] at hswept
        rw [SweptIn, hsenders]
        exact hswept

/-- Both invariants hold all along a call. -/
theorem Sends.invariants (hs : s.Registered)
    (h : Relation.ReflTransGen (Proceeds invoice) (Sending.start s invoice) c) :
    Delivering invoice s c ∧ Sweeping invoice s c := by
  induction h with
  | refl => exact ⟨.start hs, .start invoice s⟩
  | tail _ hstep ih =>
      obtain ⟨hd, hsw⟩ := ih
      rcases hstep with hstep | hstep
      · refine ⟨hd.step hs hstep, ?_⟩
        cases hstep with
        | call h => exact hsw.call hd.placed (advance_cases h)
      · exact ⟨hd.step hs hstep, hsw.recv hstep⟩

/-- **What a call leaves**: in its two maps the senders in front of the first closed one. -/
theorem Sends.senders_eq (hs : s.Registered) (h : Sends invoice s s')
    {target : Option InvoiceId} (htarget : IsTarget invoice target) :
    s'.senders target = (s.senders target).takeWhile s.IsOpen :=
  (Sends.invariants hs h).2.swept target htarget

end Sweeping

/-! ## Every call comes to its end -/

section Ends

variable {invoice : Invoice} {s₀ : Pubsub} {c : Sending}

/-- If its receiver goes on receiving, there is room in a channel at some time. -/
theorem recv_until_room (invoice : Invoice) (c : Sending) {sender : Sender}
    (hsender : sender < c.pubsub.created) :
    ∃ c', Relation.ReflTransGen (Step invoice .recv) c c' ∧ c'.phase = c.phase ∧
      (c'.pubsub.channels sender).isFull = false := by
  -- Induction on the number of updates that are still in the channel.
  generalize hunread : (c.pubsub.channels sender).sent.length
    - (c.pubsub.channels sender).received = n
  induction n generalizing c with
  | zero =>
      refine ⟨c, .refl, rfl, ?_⟩
      rw [Channel.isFull, hunread]
      rfl
  | succ n ih =>
      have hlt : (c.pubsub.channels sender).received < (c.pubsub.channels sender).sent.length := by
        omega
      obtain ⟨c', hsteps, hphase, hroom⟩ :=
        ih { c with pubsub := c.pubsub.onChannel sender Channel.recv } hsender
          (by rw [Pubsub.onChannel_self, Channel.recv, if_pos hlt]; simp only; omega)
      exact ⟨c', .head (.recv sender hsender) hsteps, hphase, hroom⟩

/-- **Every call comes to its end**, if the subscribers receive while it waits. -/
theorem Delivering.ends (hs₀ : s₀.Registered) (hd : Delivering invoice s₀ c) :
    ∃ s', Relation.ReflTransGen (Proceeds invoice) c ⟨s', .done⟩ := by
  -- A step of the call lowers the potential; receiving keeps it, and makes way for such a step.
  generalize hn : c.potential = n
  induction n using Nat.strongRecOn generalizing c with
  | ind n ih =>
      have hcall : ∀ {d d'}, Delivering invoice s₀ d → d.potential = n → Step invoice .call d d' →
          ∃ s', Relation.ReflTransGen (Proceeds invoice) d ⟨s', .done⟩ := by
        intro d d' hd hn hstep
        have hd' := hd.step hs₀ hstep
        have hlt : d'.potential < n := by
          cases hstep with
          | call h =>
              rw [← hn]
              exact potential_call hd.placed (advance_cases h)
        obtain ⟨s', hsteps⟩ := ih _ hlt hd' rfl
        exact ⟨s', .head (.inl hstep) hsteps⟩
      rcases advance_or_waiting invoice c with hdone | ⟨c', hstep⟩ | hwaiting
      · refine ⟨c.pubsub, ?_⟩
        rw [← hdone]
      · exact hcall hd hn hstep
      · obtain ⟨target, index, closed, id, sender, hphase, hopen, -⟩ := hwaiting
        have hplaced := hd.placed
        rw [Placed, hphase] at hplaced
        have hsender := hd.registered.below _ _ (List.mem_of_getElem? hplaced.2)
        obtain ⟨d, hsteps, hphase', hroom⟩ := recv_until_room invoice c hsender
        have hd' : Delivering invoice s₀ d ∧ d.potential = n := by
          clear hphase' hroom
          induction hsteps with
          | refl => exact ⟨hd, hn⟩
          | tail _ hstep ih =>
              refine ⟨ih.1.step hs₀ hstep, ?_⟩
              rw [← ih.2, potential, potential, toVisit_onChannel hstep (.inl rfl),
                (hstep.onChannel (.inl rfl)).1]
        have hsteps' : Relation.ReflTransGen (Proceeds invoice) c d :=
          Relation.ReflTransGen.mono (fun _ _ h => Or.inr h) _ _ hsteps
        rcases advance_or_waiting invoice d with hdone | ⟨d', hstep⟩ | hwaiting'
        · rw [hphase', hphase] at hdone
          cases hdone
        · obtain ⟨s', hrest⟩ := hcall hd'.1 hd'.2 hstep
          exact ⟨s', hsteps'.trans hrest⟩
        · obtain ⟨target', index', closed', id', sender', hphase'', -, hfull⟩ := hwaiting'
          rw [hphase', hphase] at hphase''
          cases hphase''
          exact absurd (hfull.symm.trans hroom) (by simp)

theorem exists_sends (hs₀ : s₀.Registered) (invoice : Invoice) :
    ∃ s', Sends invoice s₀ s' :=
  (Delivering.start hs₀).ends hs₀

end Ends

/-! ## Runs of the publisher -/

/-- No open sender stands behind a closed one in the maps through which a call goes. -/
def NoneBehindClosed (s : Pubsub) (invoice : Invoice) : Prop :=
  ∀ target, IsTarget invoice target →
    (s.senders target).Pairwise fun e e' => s.IsOpen e' = true → s.IsOpen e = true

/-- **A run of the publisher** and its subscribers, with the updates sent in it; `allowed` says in
which states `send_updates` is called for which invoices. -/
inductive Operates (allowed : Pubsub → Invoice → Prop) (s₀ : Pubsub) :
    List Invoice → Pubsub → Prop where
  | refl : Operates allowed s₀ [] s₀
  | subscribe {updates : List Invoice} {s : Pubsub} (h : Operates allowed s₀ updates s)
      (invoiceId : InvoiceId) (senderId : SenderId)
      (hfresh : senderId ∉ (s.senders (some invoiceId)).map Prod.fst) :
      Operates allowed s₀ updates (s.subscribe invoiceId senderId).2
  | subscribeAll {updates : List Invoice} {s : Pubsub} (h : Operates allowed s₀ updates s)
      (senderId : SenderId) (hfresh : senderId ∉ (s.senders none).map Prod.fst) :
      Operates allowed s₀ updates (s.subscribeAll senderId).2
  | recv {updates : List Invoice} {s : Pubsub} (h : Operates allowed s₀ updates s)
      (sender : Sender) (hsender : sender < s.created) :
      Operates allowed s₀ updates (s.onChannel sender Channel.recv)
  | close {updates : List Invoice} {s : Pubsub} (h : Operates allowed s₀ updates s)
      (sender : Sender) (hsender : sender < s.created) :
      Operates allowed s₀ updates (s.onChannel sender Channel.close)
  | sendUpdates {updates : List Invoice} {s s' : Pubsub} (h : Operates allowed s₀ updates s)
      (invoice : Invoice) (hallowed : allowed s invoice) (hsends : Sends invoice s s') :
      Operates allowed s₀ (updates ++ [invoice]) s'

/-- The updates for the subscribers of one invoice, or with `none` for those of all invoices. -/
def updatesFor (target : Option InvoiceId) (updates : List Invoice) : List Invoice :=
  updates.filter fun invoice => target = some invoice.id ∨ target = none

section Operates

variable {invoice : Invoice} {s₀ s s' : Pubsub} {target : Option InvoiceId}
  {e : SenderId × Sender}

/-- A call keeps the open senders in front of which nobody is closed. -/
theorem Sends.mem_iff (hs : s.Registered) (h : Sends invoice s s') :
    (∀ target, IsTarget invoice target →
        ∀ e, e ∈ s'.senders target ↔ e ∈ s.senders target ∧ s.IsOpen e = true) ↔
      NoneBehindClosed s invoice := by
  refine forall_congr' fun target => forall_congr' fun htarget => ?_
  rw [h.senders_eq hs htarget]
  exact mem_takeWhile_iff_pairwise (hs.nodup target).of_map

/-- Registered channels stay so in a run. -/
theorem Sends.registered (hs : s.Registered) (h : Sends invoice s s') : s'.Registered :=
  (Sends.invariants hs h).1.registered

/-- **A call that nobody's closing disturbs**: an open subscriber stays and gets its update. -/
theorem Sends.keeps (hs : s.Registered) (h : Sends invoice s s') (hnone : NoneBehindClosed s invoice)
    (he : e ∈ s.senders target) (hopen : s'.IsOpen e = true) :
    e ∈ s'.senders target ∧
      (s'.channels e.2).sent = (s.channels e.2).sent ++ updatesFor target [invoice] := by
  obtain ⟨hd, hsw⟩ := Sends.invariants hs h
  have hwas : s.IsOpen e = true := by
    rw [← hsw.isOpen]
    exact hopen
  -- Who is visited stays since no closed one stands before it; who is not visited is not touched.
  by_cases htarget : IsTarget invoice target
  · refine ⟨((h.mem_iff hs).mpr hnone target htarget e).mpr ⟨he, hwas⟩, ?_⟩
    have hupdates : updatesFor target [invoice] = [invoice] :=
      List.filter_cons_of_pos (by rw [decide_eq_true_eq]; exact htarget)
    rw [hupdates]
    refine hd.delivered rfl ?_ hopen
    rcases htarget with rfl | rfl
    · exact List.mem_append_left _ he
    · exact List.mem_append_right _ he
  · have hupdates : updatesFor target [invoice] = [] :=
      List.filter_cons_of_neg (by rw [decide_eq_true_eq]; exact htarget)
    refine ⟨?_, ?_⟩
    · have hsame := hsw.elsewhere target htarget
      simp only at hsame
      rw [hsame]
      exact he
    · cases target with
      | none => exact absurd (.inr rfl) htarget
      | some id =>
          have hid : id ≠ invoice.id := fun heq => htarget (.inl (by rw [heq]))
          rw [hupdates, List.append_nil]
          exact hd.elsewhere id hid e (hd.kept id hid e he)

/-- **The subscribers of `s₀` after some updates**: who is open is registered and has got its
updates. -/
structure Kept (s₀ : Pubsub) (updates : List Invoice) (s : Pubsub) : Prop where
  registered : s.Registered
  kept : ∀ target, ∀ e ∈ s₀.senders target, s.IsOpen e = true → e ∈ s.senders target ∧
    (s.channels e.2).sent = (s₀.channels e.2).sent ++ updatesFor target updates

/-- Others subscribe. -/
theorem Kept.registers {updates : List Invoice} (hk : Kept s₀ updates s)
    {added : List (SenderId × Sender)} (h : Pubsub.Registers s s' target added) :
    Kept s₀ updates s' := by
  refine ⟨hk.registered.registers h, fun target' e he hopen => ?_⟩
  rw [Pubsub.IsOpen, h.channels] at hopen
  obtain ⟨hmem, hsent⟩ := hk.kept target' e he hopen
  rw [h.senders, h.channels]
  exact ⟨List.mem_append_left _ hmem, hsent⟩

/-- A subscriber receives or closes its channel: nothing is sent, and nothing is opened. -/
theorem channels_onChannel (s : Pubsub) (sender : Sender) {f : Channel → Channel}
    (hsent : ∀ channel, (f channel).sent = channel.sent)
    (hopen : ∀ channel, (f channel).isOpen = true → channel.isOpen = true) (sender' : Sender) :
    ((s.onChannel sender f).channels sender').sent = (s.channels sender').sent ∧
      (((s.onChannel sender f).channels sender').isOpen = true →
        (s.channels sender').isOpen = true) := by
  by_cases heq : sender' = sender
  · rw [heq, Pubsub.onChannel_self]
    exact ⟨hsent _, hopen _⟩
  · rw [Pubsub.onChannel_of_ne _ _ heq]
    exact ⟨rfl, id⟩

theorem Kept.onChannel {updates : List Invoice} (hk : Kept s₀ updates s) (sender : Sender)
    {f : Channel → Channel} (hsent : ∀ channel, (f channel).sent = channel.sent)
    (hopen : ∀ channel, (f channel).isOpen = true → channel.isOpen = true) :
    Kept s₀ updates (s.onChannel sender f) := by
  refine ⟨hk.registered.onChannel sender hsent, fun target e he hopen' => ?_⟩
  obtain ⟨hsame, hwas⟩ := channels_onChannel s sender hsent hopen e.2
  rw [hsame]
  exact hk.kept target e he (hwas hopen')

/-- **A run** in which nobody's closing disturbs the calls. -/
theorem Operates.kept (hs₀ : s₀.Registered) {updates : List Invoice}
    (h : Operates NoneBehindClosed s₀ updates s) : Kept s₀ updates s := by
  induction h with
  | refl => exact ⟨hs₀, fun target e he _ => ⟨he, (List.append_nil _).symm⟩⟩
  | subscribe _ invoiceId senderId hfresh ih =>
      obtain ⟨added, hregisters⟩ := Pubsub.subscribe_registers hfresh
      exact ih.registers hregisters
  | subscribeAll _ senderId hfresh ih =>
      exact ih.registers (Pubsub.register_registers hfresh rfl)
  | recv _ sender hsender ih =>
      exact ih.onChannel sender Channel.recv_sent fun channel h => channel.recv_isOpen ▸ h
  | close _ sender hsender ih => exact ih.onChannel sender (fun _ => rfl) fun _ h => nomatch h
  | @sendUpdates updates s s' _ invoice hnone hsends ih =>
      refine ⟨hsends.registered ih.registered, fun target e he hopen => ?_⟩
      have hwas : s.IsOpen e = true := by
        rw [← (Sends.invariants ih.registered hsends).2.isOpen]
        exact hopen
      obtain ⟨hmem, hsent⟩ := ih.kept target e he hwas
      obtain ⟨hmem', hsent'⟩ := hsends.keeps ih.registered hnone hmem hopen
      refine ⟨hmem', ?_⟩
      rw [hsent', hsent, List.append_assoc, updatesFor, updatesFor, updatesFor, List.filter_append]

/-- **Open subscribers stay.** A call of `send_updates` comes to its end and removes exactly the
closed senders from its two maps if and only if no open sender stands behind a closed one; and in a
run in which this is so whenever an update is sent, a subscriber is registered and has got all its
updates as long as it is open. -/
theorem open_subscribers_stay (hs₀ : s₀.Registered) :
    (∀ invoice, (∃ s', Sends invoice s₀ s') ∧ ∀ s', Sends invoice s₀ s' →
      ((∀ target, IsTarget invoice target →
          ∀ e, e ∈ s'.senders target ↔ e ∈ s₀.senders target ∧ s₀.IsOpen e = true) ↔
        NoneBehindClosed s₀ invoice)) ∧
    (∀ updates s, Operates NoneBehindClosed s₀ updates s →
      ∀ target, ∀ e ∈ s₀.senders target, s.IsOpen e = true → e ∈ s.senders target ∧
        (s.channels e.2).sent = (s₀.channels e.2).sent ++ updatesFor target updates) :=
  ⟨fun invoice => ⟨exists_sends hs₀ invoice, fun _ h => h.mem_iff hs₀⟩,
    fun _ _ h => (h.kept hs₀).kept⟩

end Operates

/-- Two subscribers of the invoice, with channels 0 and 1. -/
def subscribedTwice : Pubsub := oneSubscriber.register (some someUpdate.id) 8

theorem subscribedTwice_registered : subscribedTwice.Registered :=
  oneSubscriber_registered.registers (Pubsub.register_registers (by decide) rfl)

/-- With the second one closed, the first one stays. -/
theorem open_subscribers_stay_front :
    ∃ s', Sends someUpdate (subscribedTwice.onChannel 1 Channel.close) s' ∧
      (7, 0) ∈ s'.senders (some someUpdate.id) ∧ (8, 1) ∉ s'.senders (some someUpdate.id) := by
  have hregistered : (subscribedTwice.onChannel 1 Channel.close).Registered :=
    subscribedTwice_registered.onChannel 1 fun _ => rfl
  have hnone : NoneBehindClosed (subscribedTwice.onChannel 1 Channel.close) someUpdate := by
    rintro target (rfl | rfl)
    · show List.Pairwise _ [((7 : SenderId), (0 : Sender)), (8, 1)]
      simp [Pubsub.IsOpen, Pubsub.onChannel, subscribedTwice, oneSubscriber, noSubscribers,
        Pubsub.register]
    · exact List.Pairwise.nil
  obtain ⟨⟨s', hsends⟩, hexact⟩ := (open_subscribers_stay hregistered).1 someUpdate
  have hmem := (hexact s' hsends).mpr hnone (some someUpdate.id) (.inl rfl)
  refine ⟨s', hsends, (hmem _).mpr ⟨?_, rfl⟩, fun h => ?_⟩
  · show _ ∈ [((7 : SenderId), (0 : Sender)), (8, 1)]
    exact List.mem_cons_self
  · exact absurd ((hmem _).mp h).2 (by decide)

theorem proceeds_advances {invoice : Invoice} {c c' : Sending} {n : ℕ}
    (h : advances invoice n c = some c') : Relation.ReflTransGen (Proceeds invoice) c c' := by
  induction n generalizing c with
  | zero =>
      cases h
      exact .refl
  | succ n ih =>
      obtain ⟨d, hd, h⟩ := Option.bind_eq_some_iff.mp h
      exact .head (.inl (.call hd)) (ih h)

/-- **With the first one closed, the second one is removed**, open as it is, and does not get the
next update. -/
theorem open_subscriber_removed :
    (subscribedTwice.onChannel 0 Channel.close).Registered ∧
    (8, 1) ∈ (subscribedTwice.onChannel 0 Channel.close).senders (some someUpdate.id) ∧
    ∃ s s', Sends someUpdate (subscribedTwice.onChannel 0 Channel.close) s ∧
      s.senders (some someUpdate.id) = [] ∧ Sends someUpdate s s' ∧
      s'.IsOpen (8, 1) = true ∧ (s'.channels 1).sent = [someUpdate] := by
  refine ⟨subscribedTwice_registered.onChannel 0 fun _ => rfl, ?_, ?_⟩
  · show _ ∈ [((7 : SenderId), (0 : Sender)), (8, 1)]
    exact List.mem_cons_of_mem _ List.mem_cons_self
  · have hfirst : (advances someUpdate 8
        (start (subscribedTwice.onChannel 0 Channel.close) someUpdate)).map
          (fun c => (c.phase, c.pubsub.senders (some someUpdate.id))) = some (.done, []) := rfl
    obtain ⟨⟨s, phase⟩, hs, heq⟩ := Option.map_eq_some_iff.mp hfirst
    simp only [Prod.mk.injEq] at heq
    obtain ⟨rfl, hempty⟩ := heq
    have hsecond : ((advances someUpdate 8
        (start (subscribedTwice.onChannel 0 Channel.close) someUpdate)).bind fun c =>
          advances someUpdate 2 (start c.pubsub someUpdate)).map
            (fun c => (c.phase, c.pubsub.IsOpen (8, 1), (c.pubsub.channels 1).sent))
          = some (.done, true, [someUpdate]) := rfl
    rw [hs, Option.bind_some] at hsecond
    obtain ⟨⟨s', phase⟩, hs', heq⟩ := Option.map_eq_some_iff.mp hsecond
    simp only [Prod.mk.injEq] at heq
    obtain ⟨rfl, hopen, hsent⟩ := heq
    exact ⟨s, s', proceeds_advances hs, hempty, proceeds_advances hs', hopen, hsent⟩

end Sending

end AcceptXmr
