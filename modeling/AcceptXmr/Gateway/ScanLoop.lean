import AcceptXmr.Gateway.Subaddresses
import AcceptXmr.Library.Mailbox
import Mathlib.Data.List.Dedup

/-! # The loop of the scanning task

The task that `PaymentGateway::run` spawns (`library/src/payment_gateway.rs`). It keeps its checker
from scan to scan, and replaces it when its table has become too short for the range of the
subaddresses. It reads the end of that range without a lock, while a call extends the range index by
index: what it reads is at least what it was before the extension. Where its scan sends an update, it
waits as long as the channel of an open subscriber is full.

* **`checker_covers`** — a scan misses no invoice that was stored when its checker was compared.
* **`stop_ends_loop`** — after a stop signal at most one more scan starts, and the loop ends unless a
  subscriber keeps it waiting. -/

namespace AcceptXmr

/-! ## The table of a checker -/

/-- `r.1..r.2`. -/
def u32Range (r : UInt32 × UInt32) : List UInt32 :=
  (List.range' r.1.toNat (r.2.toNat - r.1.toNat)).map UInt32.ofNat

/-- The indexes for which a checker has keys. -/
def SubKeyChecker.indexes (self : SubKeyChecker) : List SubIndex :=
  (u32Range self.majors).flatMap fun major => (u32Range self.minors).map fun minor => ⟨major, minor⟩

section Loop

variable {PublicKey : Type} [DecidableEq PublicKey] (spendKey : SubIndex → PublicKey)

/-- The length of the table of a checker, which has each public spend key once. -/
def SubKeyChecker.tableLen (self : SubKeyChecker) : ℕ :=
  (self.indexes.map spendKey).dedup.length

/-- A table has at most as many keys as its ranges have indexes, fewer if two indexes had the same key.
-/
theorem SubKeyChecker.tableLen_le (self : SubKeyChecker) :
    self.tableLen spendKey ≤
      (self.majors.2.toNat - self.majors.1.toNat) * (self.minors.2.toNat - self.minors.1.toNat) := by
  refine (List.dedup_sublist _).length_le.trans (le_of_eq ?_)
  simp [indexes, u32Range, List.length_flatMap, Function.comp_def]

/-- The checker of an account up to a minor index. -/
def SubKeyChecker.upTo (majorIndex highest : UInt32) : SubKeyChecker :=
  ⟨(majorIndex, U32.saturatingSucc majorIndex), (0, U32.saturatingSucc highest)⟩

/-- Such a checker covers the indexes of its account up to the last one, but never the greatest `u32`,
as its ranges are half-open. -/
theorem SubKeyChecker.covers_upTo {majorIndex highest : UInt32} {k : SubIndex} :
    (upTo majorIndex highest).covers k = true ↔ k.major = majorIndex ∧ majorIndex ≠ u32Max ∧
      k.minor ≤ highest ∧ k.minor ≠ u32Max :=
  SubaddressCache.covers_subKeyChecker (c := ⟨majorIndex, highest, .empty, fun _ => "", []⟩)

/-- **A table that is long enough** is one of a checker that goes far enough. -/
theorem SubKeyChecker.le_of_lt_tableLen {majorIndex highest number : UInt32}
    (h : number.toNat < (upTo majorIndex highest).tableLen spendKey) : number ≤ highest := by
  have hlen := h.trans_le (tableLen_le spendKey _)
  simp only [upTo, U32.saturatingSucc] at hlen
  rw [UInt32.le_iff_toNat_le]
  have hzero : (0 : UInt32).toNat = 0 := rfl
  have hmajor : (if majorIndex = u32Max then majorIndex else majorIndex + 1).toNat
      - majorIndex.toNat ≤ 1 := by
    split
    · omega
    · rename_i hne
      rw [toNat_succ hne]
      omega
  have hminor : (if highest = u32Max then highest else highest + 1).toNat ≤ highest.toNat + 1 := by
    split
    · omega
    · rename_i hne
      rw [toNat_succ hne]
  have hbound := Nat.mul_le_mul hmajor (Nat.le_refl
    ((if highest = u32Max then highest else highest + 1).toNat - (0 : UInt32).toNat))
  omega

/-! ## The loop -/

/-- What the loop does next. -/
inductive LoopPhase where
  /-- It looks for a signal. -/
  | receiving
  /-- It compares the length of the table. -/
  | comparing
  /-- The table is too short. -/
  | rebuilding
  | ready
  | scanning
  | stopped
  deriving DecidableEq, Repr

/-- How many phases may follow in an ending loop. -/
def LoopPhase.left : LoopPhase → ℕ
  | .stopped => 0
  | .receiving => 1
  | .scanning => 2
  | .ready => 3
  | .rebuilding => 4
  | .comparing => 5

/-- How many scans may start before the loop looks for a signal. -/
def LoopPhase.scansLeft : LoopPhase → ℕ
  | .comparing | .rebuilding | .ready => 1
  | .receiving | .scanning | .stopped => 0

/-- The scanning task and what it works on. -/
structure ScanLoop where
  system : System
  checker : SubKeyChecker
  phase : LoopPhase
  /-- The stop signals in the channel. -/
  signals : ℕ
  /-- There is no clone of the gateway any more. -/
  dropped : Bool
  /-- The channel of an open subscriber to whom updates go is full. -/
  full : Bool

/-- Whether a turn is one of a client. -/
def System.Turn.isClient : System.Turn → Bool
  | .startScan _ | .scanner => false
  | _ => true

namespace ScanLoop

/-- The task as it is spawned. -/
def start (inner : PaymentGatewayInner) (scanner : Scanner) (highest : UInt32) : ScanLoop where
  system := .start inner scanner
  checker := .upTo inner.subaddresses.majorIndex highest
  phase := .receiving
  signals := 0
  dropped := false
  full := false

/-- The greatest minor index of the gateway. -/
abbrev highestMinorIndex (self : ScanLoop) : UInt32 :=
  self.system.inner.subaddresses.highestMinorIndex

/-- Whose turn it is, with the minor index that the loop reads. -/
inductive Turn where
  | client (t : System.Turn)
  | stop
  | drop
  /-- A subscriber's channel has become full. -/
  | fill
  /-- The subscriber has read from it, or has gone. -/
  | read
  | receive
  | compare (highest : UInt32)
  | rebuild (highest : UInt32)
  | scan (env : ScanEnv)
  | scanner

/-- `try_recv`, at the start of a round. Without a sender, what has been sent is still received. -/
def receive (self : ScanLoop) : ScanLoop :=
  if self.signals ≠ 0 then { self with phase := .stopped, signals := self.signals - 1 }
  else if self.dropped then { self with phase := .stopped }
  else { self with phase := .comparing }

/-- The round is over when the scan is. -/
def scanned (self : ScanLoop) (system : System) : ScanLoop :=
  match system.scanning with
  | .between _ => { self with system := system, phase := .receiving }
  | .during _ => { self with system := system }

/-- The scan is sending an update, and there is no room for it. -/
def waiting (self : ScanLoop) : Bool :=
  match self.system.scanning with
  | .during (.call (.sendUpdates _) _) => self.full
  | _ => false

/-- **One step of the loop or of a client.** -/
def turn (S : Backend) (self : ScanLoop) : Turn → Option ScanLoop
  | .client t =>
      if self.dropped || !t.isClient then none
      else (self.system.turn S t).map fun system => { self with system := system }
  | .stop => if self.dropped then none else some { self with signals := self.signals + 1 }
  | .drop =>
      -- A call has a gateway.
      if self.system.calls.any Call.inProgress then none else some { self with dropped := true }
  | .fill => some { self with full := true }
  | .read => some { self with full := false }
  | .receive => if self.phase = .receiving then some self.receive else none
  | .compare highest =>
      if self.phase = .comparing then
        some { self with phase :=
          if self.checker.tableLen spendKey ≤ highest.toNat then .rebuilding else .ready }
      else none
  | .rebuild highest =>
      if self.phase = .rebuilding then
        some { self with
          checker := .upTo self.system.inner.subaddresses.majorIndex highest
          phase := .ready }
      else none
  | .scan env =>
      if self.phase = .ready then
        (self.system.startScan { env with checker := self.checker }).map fun system =>
          { self with system := system, phase := .scanning }
      else none
  | .scanner =>
      if self.phase = .scanning ∧ self.waiting = false then
        (self.system.scanStep S).map self.scanned
      else none

/-- What the loop reads is the greatest index, or one that a call is about to reach. -/
def reads (s : ScanLoop) : Turn → Bool
  | .compare highest | .rebuild highest => decide (s.highestMinorIndex ≤ highest)
  | _ => true

/-- Whether a turn is the comparison of a round. -/
def Turn.compares : Turn → Bool
  | .compare _ => true
  | _ => false

/-- Whether a turn is the start of a scan. -/
def Turn.scans : Turn → Bool
  | .scan _ => true
  | _ => false

/-- Whether a turn is one of the loop. -/
def Turn.ofLoop : Turn → Bool
  | .client _ | .stop | .drop | .fill | .read => false
  | _ => true

/-- A turn before the next comparison. -/
def inRound (s : ScanLoop) (t : Turn) : Bool := s.reads t && !t.compares

/-! ## Taking the steps apart -/

/-- A step of a run in which every turn is allowed. -/
abbrev Step (S : Backend) (allowed : ScanLoop → Turn → Prop) : ScanLoop → ScanLoop → Prop :=
  TakesTurn (turn spendKey S) allowed

variable {S : Backend} {s s' : ScanLoop}

/-- **Everything that a step can do.** -/
inductive Turns (S : Backend) (s : ScanLoop) : Turn → ScanLoop → Prop where
  | client {t : System.Turn} {system : System} (hclient : t.isClient = true)
      (h : s.system.turn S t = some system) : Turns S s (.client t) { s with system := system }
  | stop : Turns S s .stop { s with signals := s.signals + 1 }
  | drop : Turns S s .drop { s with dropped := true }
  | fill : Turns S s .fill { s with full := true }
  | read : Turns S s .read { s with full := false }
  | receive (hphase : s.phase = .receiving) : Turns S s .receive s.receive
  | tooShort {highest : UInt32} (hphase : s.phase = .comparing)
      (h : s.checker.tableLen spendKey ≤ highest.toNat) :
      Turns S s (.compare highest) { s with phase := .rebuilding }
  | longEnough {highest : UInt32} (hphase : s.phase = .comparing)
      (h : highest.toNat < s.checker.tableLen spendKey) :
      Turns S s (.compare highest) { s with phase := .ready }
  | rebuild {highest : UInt32} (hphase : s.phase = .rebuilding) :
      Turns S s (.rebuild highest) { s with
        checker := .upTo s.system.inner.subaddresses.majorIndex highest
        phase := .ready }
  | scan {env : ScanEnv} {system : System} (hphase : s.phase = .ready)
      (h : s.system.turn S (.startScan { env with checker := s.checker }) = some system) :
      Turns S s (.scan env) { s with system := system, phase := .scanning }
  | scanner {system : System} (hphase : s.phase = .scanning) (hroom : s.waiting = false)
      (h : s.system.turn S .scanner = some system) : Turns S s .scanner (s.scanned system)

variable {spendKey}

/-- A turn is one of those listed in `Turns`. -/
theorem turn_cases {t : Turn} (h : s.turn spendKey S t = some s') : Turns spendKey S s t s' := by
  cases t with
  | client t =>
      simp only [turn] at h
      split at h
      · cases h
      · rename_i hclient
        rw [Bool.or_eq_true, not_or, Bool.not_eq_true, Bool.not_eq_true, Bool.not_eq_false'] at hclient
        obtain ⟨system, hsystem, rfl⟩ := Option.map_eq_some_iff.mp h
        exact .client hclient.2 hsystem
  | stop =>
      simp only [turn] at h
      split at h
      · cases h
      · cases h
        exact .stop
  | drop =>
      simp only [turn] at h
      split at h
      · cases h
      · cases h
        exact .drop
  | fill =>
      cases h
      exact .fill
  | read =>
      cases h
      exact .read
  | receive =>
      simp only [turn] at h
      split at h
      · rename_i hphase
        cases h
        exact .receive hphase
      · cases h
  | compare highest =>
      simp only [turn] at h
      split at h
      · rename_i hphase
        cases h
        split
        · rename_i hshort
          exact .tooShort hphase hshort
        · rename_i hlong
          exact .longEnough hphase (Nat.lt_of_not_le hlong)
      · cases h
  | rebuild highest =>
      simp only [turn] at h
      split at h
      · rename_i hphase
        cases h
        exact .rebuild hphase
      · cases h
  | scan env =>
      simp only [turn] at h
      split at h
      · rename_i hphase
        obtain ⟨system, hsystem, rfl⟩ := Option.map_eq_some_iff.mp h
        exact .scan hphase hsystem
      · cases h
  | scanner =>
      simp only [turn] at h
      split at h
      · rename_i hturn
        obtain ⟨system, hsystem, rfl⟩ := Option.map_eq_some_iff.mp h
        exact .scanner hturn.1 hturn.2 hsystem
      · cases h

/-- Looking for a signal touches neither the gateway nor the checker. -/
theorem receive_system (s : ScanLoop) :
    s.receive.system = s.system ∧ s.receive.checker = s.checker := by
  unfold receive
  split
  · exact ⟨rfl, rfl⟩
  · split <;> exact ⟨rfl, rfl⟩

/-- Nor does the end of a round change the checker. -/
theorem scanned_system (s : ScanLoop) (system : System) :
    (s.scanned system).system = system ∧ (s.scanned system).checker = s.checker := by
  unfold scanned
  split <;> exact ⟨rfl, rfl⟩

/-- The gateway takes a step in every turn, or stands still. -/
theorem Turns.system {t : Turn} (h : Turns spendKey S s t s') :
    System.Reaches S System.anyTurn s.system s'.system := by
  have hstep : ∀ {t : System.Turn} {system : System}, s.system.turn S t = some system →
      System.Reaches S System.anyTurn s.system system := fun h =>
    .single ⟨_, trivial, h⟩
  cases h with
  | client _ h | scan _ h => exact hstep h
  | stop | drop | fill | read | tooShort | longEnough | rebuild => exact .refl
  | receive hphase =>
      rw [(receive_system s).1]
      exact .refl
  | scanner hphase hroom h =>
      rw [(scanned_system s _).1]
      exact hstep h

/-- **The gateway under the loop** runs as any gateway does. -/
theorem system_run {allowed : ScanLoop → Turn → Prop}
    (h : Relation.ReflTransGen (Step spendKey S allowed) s s') :
    System.Reaches S System.anyTurn s.system s'.system := by
  induction h with
  | refl => exact .refl
  | tail _ hlast ih =>
      obtain ⟨t, -, hturn⟩ := hlast
      exact ih.trans (turn_cases hturn).system

/-! ## What a round has compared -/

/-- A gateway keeps its account, and its range only grows. -/
theorem system_range {system system' : System} (h : System.Reaches S System.anyTurn system system') :
    system'.inner.subaddresses.majorIndex = system.inner.subaddresses.majorIndex ∧
      system.inner.subaddresses.highestMinorIndex ≤
        system'.inner.subaddresses.highestMinorIndex := by
  induction h with
  | refl => exact ⟨rfl, UInt32.le_refl _⟩
  | tail _ hlast ih =>
      obtain ⟨t, -, hturn⟩ := hlast
      cases System.turn_cases hturn with
      | newInvoice | removeInvoice | startScan | finished | served => exact ih
      | call hcalls hadvances =>
          cases hadvances with
          | addressed hremove =>
              have htaken := SubaddressCache.removeRandom_cases hremove
              exact ⟨htaken.majorIndex.trans ih.1, UInt32.le_trans ih.2 htaken.highest⟩
          | _ => exact ih

/-- The checker is one of the account, up to some index. -/
def Built (s : ScanLoop) : Prop :=
  ∃ highest, s.checker = .upTo s.system.inner.subaddresses.majorIndex highest

/-- Every checker that replaces another one is of that kind. -/
theorem Built.turns (h : Built s) {t : Turn} (hturns : Turns spendKey S s t s') : Built s' := by
  obtain ⟨highest, hchecker⟩ := h
  have hmajor := (system_range hturns.system).1
  unfold Built
  rw [hmajor]
  cases hturns with
  | rebuild => exact ⟨_, rfl⟩
  | receive =>
      rw [(receive_system s).2]
      exact ⟨highest, hchecker⟩
  | scanner =>
      rw [(scanned_system s _).2]
      exact ⟨highest, hchecker⟩
  | _ => exact ⟨highest, hchecker⟩

/-- **The invariant of a round**: unless it is still too short, the checker goes up to the number
that has been compared. -/
structure Compared (number : UInt32) (s : ScanLoop) : Prop where
  highest : number ≤ s.highestMinorIndex
  checker : s.phase ≠ .rebuilding →
    ∃ highest, s.checker = .upTo s.system.inner.subaddresses.majorIndex highest ∧ number ≤ highest

/-- The comparison. -/
theorem Compared.compare (h : Built s) {number : UInt32}
    (hread : s.reads (.compare number) = true)
    (hturns : Turns spendKey S s (.compare number) s') : Compared s.highestMinorIndex s' := by
  obtain ⟨highest, hchecker⟩ := h
  have hle : s.highestMinorIndex ≤ number := of_decide_eq_true hread
  cases hturns with
  | tooShort hphase hshort => exact ⟨UInt32.le_refl _, fun h => absurd rfl h⟩
  | longEnough hphase hlong =>
      refine ⟨UInt32.le_refl _, fun _ => ⟨highest, hchecker, UInt32.le_trans hle ?_⟩⟩
      rw [hchecker] at hlong
      exact SubKeyChecker.le_of_lt_tableLen spendKey hlong

/-- The rest of the round. -/
theorem Compared.turns {number : UInt32} (h : Compared number s) {t : Turn}
    (ht : s.inRound t = true) (hturns : Turns spendKey S s t s') : Compared number s' := by
  obtain ⟨hmajor, hgrown⟩ := system_range hturns.system
  have hhighest := UInt32.le_trans h.highest hgrown
  have hsame : s'.checker = s.checker → (s'.phase ≠ .rebuilding → s.phase ≠ .rebuilding) →
      Compared number s' := by
    intro hchecker hphase
    refine ⟨hhighest, fun hne => ?_⟩
    rw [hchecker, hmajor]
    exact h.checker (hphase hne)
  cases hturns with
  | client | stop | drop | fill | read => exact hsame rfl id
  | receive hphase =>
      refine hsame (receive_system s).2 fun _ => ?_
      rw [hphase]
      nofun
  | tooShort | longEnough =>
      rw [inRound, Turn.compares, Bool.not_true, Bool.and_false] at ht
      cases ht
  | @rebuild highest hphase =>
      have hread : s.highestMinorIndex ≤ highest := by
        rw [inRound, Bool.and_eq_true] at ht
        exact of_decide_eq_true ht.1
      exact ⟨hhighest, fun _ => ⟨highest, rfl, UInt32.le_trans h.highest hread⟩⟩
  | scan hphase | scanner hphase =>
      refine hsame ?_ fun _ => ?_
      · first | rfl | exact (scanned_system s _).2
      · rw [hphase]
        nofun

/-- **No stored invoice is missed.** In every run of calls and of the loop, from a store whose
invoices have distinct sub indexes of the gateway's account: when a scan starts, its checker covers
every invoice that was stored when the checker was compared in that round, whatever calls do in
between. -/
theorem checker_covers {store : Store} {viewpair : SubIndex → String} {majorIndex : UInt32}
    {rng : List ℕ} {publisher : Publisher} {cachedDaemonHeight : ℕ} {scanner : Scanner}
    {highest number : UInt32} {env : ScanEnv} {compared ready scanning : ScanLoop}
    (hdistinct : (store.invoices.map Invoice.index).Nodup)
    (hmajor : ∀ invoice ∈ store.invoices, invoice.index.major = majorIndex)
    (hmax : majorIndex ≠ u32Max)
    (hrun : Relation.ReflTransGen (Step spendKey S fun s t => s.reads t = true)
      (start (.build store viewpair majorIndex rng publisher cachedDaemonHeight) scanner highest) s)
    (hread : s.reads (.compare number) = true)
    (hcompare : s.turn spendKey S (.compare number) = some compared)
    (hround : Relation.ReflTransGen (Step spendKey S fun s t => s.inRound t = true) compared ready)
    (hscan : ready.turn spendKey S (.scan env) = some scanning) :
    ∃ scanner : Scanner, scanning.system.scanning =
        .during (scanner.scan { env with checker := ready.checker }) ∧
      ∀ invoice ∈ s.system.invoices, invoice.index.minor ≠ u32Max →
        ready.checker.covers invoice.index = true := by
  have hreaches := system_run hrun
  have hrange : ∀ k ∈ s.system.owners, k.major = majorIndex ∧ k.minor ≤ s.highestMinorIndex := by
    obtain ⟨-, hexclusive⟩ := hreaches.invariant
      (fun _ _ _ hs hP _ hturns => System.Exclusive.turns hP hs hturns) (.start _ _)
      (System.Exclusive.start hdistinct hmajor)
    intro k hk
    exact ⟨(hexclusive.major k hk).trans (system_range hreaches).1, hexclusive.minor k hk⟩
  have hbuilt : Built s := TakesTurn.invariant Built
    (fun _ _ _ h _ ht => h.turns (turn_cases ht)) hrun ⟨highest, rfl⟩
  have hcompared : Compared s.highestMinorIndex ready := TakesTurn.invariant _
    (fun _ _ _ h hin ht => h.turns hin (turn_cases ht)) hround
    (.compare hbuilt hread (turn_cases hcompare))
  have hmajor' : ready.system.inner.subaddresses.majorIndex = majorIndex :=
    (system_range (hreaches.trans ((turn_cases hcompare).system.trans (system_run hround)))).1
  cases turn_cases hscan with
  | scan hphase hsystem =>
      obtain ⟨highest', hchecker, hle⟩ := hcompared.checker (by rw [hphase]; nofun)
      cases System.turn_cases hsystem with
      | startScan hscanning =>
        refine ⟨_, rfl, fun invoice hinvoice hminor => ?_⟩
        obtain ⟨hown, hbound⟩ := hrange invoice.index
          (List.mem_append_left _ (List.mem_append_left _ (List.mem_map_of_mem hinvoice)))
        rw [hchecker, SubKeyChecker.covers_upTo, hmajor']
        exact ⟨hown, hmax, UInt32.le_trans hbound hle, hminor⟩

/-! ## The end of the loop -/

/-- The loop is about to end: it has ended, or finds a signal when it looks for one. -/
def Ending (s : ScanLoop) : Prop := s.signals ≠ 0 ∨ s.dropped = true ∨ s.phase = .stopped

/-- A loop that is about to end finds its signal. -/
theorem receive_of_ending (h : s.Ending) (hphase : s.phase = .receiving) :
    s.receive.phase = .stopped := by
  unfold receive
  split
  · rfl
  · rename_i hsignals
    have hdropped : s.dropped = true := by
      rcases h with h | h | h
      · exact absurd h hsignals
      · exact h
      · rw [hphase] at h
        cases h
    rw [if_pos hdropped]

/-- The end of a round takes no signal out of the channel. -/
theorem scanned_frame (s : ScanLoop) (system : System) :
    (s.scanned system).signals = s.signals ∧ (s.scanned system).dropped = s.dropped := by
  unfold scanned
  split <;> exact ⟨rfl, rfl⟩

/-- Nothing keeps the loop from ending any more: a signal stays in the channel until it is found. -/
theorem Ending.turns (h : s.Ending) {t : Turn} (hturns : Turns spendKey S s t s') :
    s'.Ending := by
  have hframe : s.phase ≠ .stopped → s'.signals = s.signals → s'.dropped = s.dropped →
      s'.Ending := by
    intro hphase hsignals hdropped
    rw [Ending, hsignals, hdropped]
    exact h.imp_right fun h => .inl (h.resolve_right hphase)
  cases hturns with
  | client | fill | read => exact h
  | stop => exact .inl (Nat.succ_ne_zero _)
  | drop => exact .inr (.inl rfl)
  | receive hphase => exact .inr (.inr (receive_of_ending h hphase))
  | tooShort hphase | longEnough hphase | rebuild hphase | scan hphase =>
      exact hframe (by rw [hphase]; nofun) rfl rfl
  | scanner hphase =>
      exact hframe (by rw [hphase]; nofun) (scanned_frame s _).1 (scanned_frame s _).2

/-- What is left to do: the phases, and the rest of the scan. -/
def toDo (s : ScanLoop) : ℕ × Program (Except ScannerError Unit × Scanner) :=
  (s.phase.left,
    match s.system.scanning with
    | .between scanner => .done (.ok (.ok (), scanner))
    | .during program => program)

/-- Less is left to do. -/
def Less : ℕ × Program (Except ScannerError Unit × Scanner) →
    ℕ × Program (Except ScannerError Unit × Scanner) → Prop :=
  Prod.Lex (· < ·) Resumption.Child

/-- There is always only finitely much left to do. -/
theorem wellFounded_less : WellFounded Less :=
  WellFounded.prod_lex Nat.lt_wfRel.wf Resumption.wellFounded_child

/-- A later phase leaves less to do, whatever the scan has still to do. -/
theorem less_of_phase (h : s'.phase.left < s.phase.left) : Less s'.toDo s.toDo := .left _ _ h

/-- What a client does leaves the loop where it is. -/
theorem toDo_client {t : Turn} (ht : t.ofLoop = false) (hturns : Turns spendKey S s t s') :
    s'.toDo = s.toDo := by
  cases hturns with
  | @client t system hclient h =>
      cases System.turn_cases h with
      | newInvoice | removeInvoice | call => rfl
      | startScan | finished | served => cases hclient
  | stop | drop | fill | read => rfl
  | _ => cases ht

/-- **Near its end, every step of the loop** brings it nearer. -/
theorem Less.turns (h : s.Ending) {t : Turn} (ht : t.ofLoop = true)
    (hturns : Turns spendKey S s t s') : Less s'.toDo s.toDo := by
  cases hturns with
  | client | stop | drop | fill | read => cases ht
  | receive hphase =>
      refine less_of_phase ?_
      rw [receive_of_ending h hphase, hphase]
      decide
  | tooShort hphase | longEnough hphase | rebuild hphase | scan hphase =>
      refine less_of_phase ?_
      rw [hphase]
      dsimp only
      decide
  | scanner hphase hroom hsystem =>
      cases System.turn_cases hsystem with
      | finished hscanning =>
          refine less_of_phase ?_
          rw [hphase, scanned]
          dsimp only
          decide
      | served hscanning =>
          rw [toDo, toDo, scanned, hscanning]
          exact .right _ (.next _ _ _)

/-- In an ending loop, a scan that starts uses up the one that is left. -/
theorem scansLeft_turns (h : s.Ending) {t : Turn} (hturns : Turns spendKey S s t s') :
    (if t.scans then 1 else 0) + s'.phase.scansLeft ≤ s.phase.scansLeft := by
  cases hturns with
  | client | stop | drop | fill | read => simp [Turn.scans]
  | receive hphase => simp [Turn.scans, LoopPhase.scansLeft, receive_of_ending h hphase]
  | tooShort hphase | longEnough hphase | rebuild hphase | scan hphase =>
      simp [Turn.scans, LoopPhase.scansLeft, hphase]
  | @scanner system hphase hroom hsystem =>
      have hleft : (s.scanned system).phase.scansLeft = 0 := by
        unfold scanned
        cases system.scanning with
        | between scanner => rfl
        | during program => simp [hphase, LoopPhase.scansLeft]
      simp [Turn.scans, hleft]

/-- At most that many do. -/
theorem scans_le (h : s.Ending) {turns : List Turn}
    (hrun : replay (turn spendKey S) (fun _ _ => true) turns s = some s') :
    turns.countP Turn.scans ≤ s.phase.scansLeft := by
  induction turns generalizing s with
  | nil => exact Nat.zero_le _
  | cons t turns ih =>
      rw [replay, if_pos rfl] at hrun
      obtain ⟨mid, hmid, hrest⟩ := Option.bind_eq_some_iff.mp hrun
      have hturns := turn_cases hmid
      have hle := ih (h.turns hturns) hrest
      have hstep := scansLeft_turns h hturns
      rw [List.countP_cons]
      omega

/-- In a run without end, the loop ends at some turn. -/
theorem loop_ends {run : ℕ → ScanLoop} {turns : ℕ → Turn} (h : (run 0).Ending)
    (hsteps : ∀ n, (run n).turn spendKey S (turns n) = some (run (n + 1))) :
    ∃ n, ∀ m ≥ n, (turns m).ofLoop = false := by
  have hending : ∀ n, (run n).Ending := by
    intro n
    induction n with
    | zero => exact h
    | succ n ih => exact ih.turns (turn_cases (hsteps n))
  -- From where the least is left to do, only clients take turns.
  obtain ⟨_, ⟨n, rfl⟩, hleast⟩ := wellFounded_less.has_min
    (Set.range fun n => (run n).toDo) (Set.range_nonempty _)
  have hclient : ∀ m, (run m).toDo = (run n).toDo → (turns m).ofLoop = false := by
    intro m hm
    cases hloop : (turns m).ofLoop with
    | false => rfl
    | true =>
        have hless := Less.turns (hending m) hloop (turn_cases (hsteps m))
        rw [hm] at hless
        exact absurd hless (hleast _ ⟨m + 1, rfl⟩)
  refine ⟨n, fun m hm => hclient m ?_⟩
  induction m, hm using Nat.le_induction with
  | base => rfl
  | succ m hm ih => exact (toDo_client (hclient m ih) (turn_cases (hsteps m))).trans ih

/-- The loop is scanning if and only if the scanner is. -/
def Phased (s : ScanLoop) : Prop :=
  match s.system.scanning with
  | .between _ => s.phase ≠ .scanning
  | .during _ => s.phase = .scanning

/-- Every turn keeps the phase in step with the scanner. -/
theorem Phased.turns (h : s.Phased) {t : Turn} (hturns : Turns spendKey S s t s') :
    s'.Phased := by
  unfold Phased at h
  cases hturns with
  | @client t system hclient hsystem =>
      cases System.turn_cases hsystem with
      | newInvoice | removeInvoice | call => exact h
      | startScan | finished | served => cases hclient
  | stop | drop | fill | read => exact h
  | receive hphase =>
      unfold Phased
      rw [(receive_system s).1]
      cases hscanning : s.system.scanning with
      | between scanner =>
          simp only [receive]
          split
          · nofun
          · split <;> nofun
      | during program =>
          rw [hscanning, hphase] at h
          cases h
  | tooShort hphase | longEnough hphase | rebuild hphase =>
      unfold Phased
      cases hscanning : s.system.scanning with
      | between scanner => simp
      | during program =>
          rw [hscanning, hphase] at h
          cases h
  | scan hphase hsystem =>
      cases System.turn_cases hsystem with
      | startScan hscanning => exact rfl
  | scanner hphase hroom hsystem =>
      cases System.turn_cases hsystem with
      | finished hscanning =>
          unfold Phased scanned
          nofun
      | served hscanning => exact hphase

/-- The scan has panicked, and the task with it. -/
def Panicked (s : ScanLoop) : Prop := ∃ e, s.system.scanning = .during (.done (.error e))

/-- The loop can take a turn. -/
def GoesOn (spendKey : SubIndex → PublicKey) (S : Backend) (s : ScanLoop) : Prop :=
  ∃ t s', t.ofLoop = true ∧ s.reads t = true ∧ s.turn spendKey S t = some s'

/-- **The loop goes on** until it has ended, its scan panics, or it waits for room in a channel. -/
theorem loop_goes_on (spendKey : SubIndex → PublicKey) (S : Backend) (h : s.Phased) :
    s.phase = .stopped ∨ s.Panicked ∨ s.waiting = true ∨ s.GoesOn spendKey S := by
  unfold Phased at h
  by_cases hroom : s.waiting = true
  · exact .inr (.inr (.inl hroom))
  rw [Bool.not_eq_true] at hroom
  cases hphase : s.phase with
  | stopped => exact .inl rfl
  | receiving => exact .inr (.inr (.inr ⟨.receive, _, rfl, rfl, if_pos hphase⟩))
  | comparing =>
      exact .inr (.inr (.inr ⟨.compare s.highestMinorIndex, _, rfl,
        decide_eq_true (UInt32.le_refl _), if_pos hphase⟩))
  | rebuilding =>
      exact .inr (.inr (.inr ⟨.rebuild s.highestMinorIndex, _, rfl,
        decide_eq_true (UInt32.le_refl _), if_pos hphase⟩))
  | ready =>
      cases hscanning : s.system.scanning with
      | during program =>
          rw [hscanning, hphase] at h
          cases h
      | between scanner =>
          refine .inr (.inr (.inr ⟨.scan (plainEnv ⟨[], []⟩), ?_⟩))
          simp [turn, hphase, System.startScan, hscanning, Turn.ofLoop, reads]
  | scanning =>
      cases hscanning : s.system.scanning with
      | between scanner =>
          rw [hscanning] at h
          exact absurd hphase h
      | during program =>
          cases program with
          | call req next =>
              refine .inr (.inr (.inr ⟨.scanner, ?_⟩))
              simp [turn, hphase, hroom, System.scanStep, hscanning, Turn.ofLoop, reads]
          | done result =>
              cases result with
              | error e => exact .inr (.inl ⟨e, hscanning⟩)
              | ok result =>
                  refine .inr (.inr (.inr ⟨.scanner, ?_⟩))
                  simp [turn, hphase, hroom, System.scanStep, hscanning, Turn.ofLoop, reads]

/-- With room in the channels nobody waits. -/
theorem waiting_of_room (h : s.full = false) : s.waiting = false := by
  unfold waiting
  split
  · exact h
  · rfl

/-- **A waiting loop** goes on once the subscriber has read, or has gone. -/
theorem goesOn_read (spendKey : SubIndex → PublicKey) (S : Backend) (h : s.Phased)
    (hwaiting : s.waiting = true) :
    ∃ s', s.turn spendKey S .read = some s' ∧ s'.GoesOn spendKey S := by
  refine ⟨_, rfl, ?_⟩
  unfold waiting at hwaiting
  split at hwaiting
  · rename_i invoice next hscanning
    rw [Phased, hscanning] at h
    have hroom : ({ s with full := false } : ScanLoop).waiting = false := waiting_of_room rfl
    have hstep : (s.system.scanStep S).isSome = true := by
      rw [System.scanStep, hscanning]
      rfl
    obtain ⟨system, hsystem⟩ := Option.isSome_iff_exists.mp hstep
    refine ⟨.scanner, scanned { s with full := false } system, rfl, rfl, ?_⟩
    exact (if_pos ⟨h, hroom⟩).trans (Option.map_eq_some_iff.mpr ⟨system, hsystem, rfl⟩)
  · cases hwaiting

/-- **A stop signal ends the loop.** Once one has been sent, or the last gateway has been dropped, at
most one more scan starts, and in a run without end the loop takes only finitely many turns. Until it
has ended it has another turn to take, unless its scan panics or waits for room in the channel of an
open subscriber; then it has one as soon as the subscriber has read, or has gone. -/
theorem stop_ends_loop (inner : PaymentGatewayInner) (scanner : Scanner) (highest : UInt32)
    (hrun : Relation.ReflTransGen (Step spendKey S fun s t => s.reads t = true)
      (start inner scanner highest) s) (hending : s.Ending) :
    (∀ turns s', replay (turn spendKey S) (fun _ _ => true) turns s = some s' →
      turns.countP Turn.scans ≤ 1) ∧
    (∀ (run : ℕ → ScanLoop) (turns : ℕ → Turn), run 0 = s →
      (∀ n, (run n).turn spendKey S (turns n) = some (run (n + 1))) →
      ∃ n, ∀ m ≥ n, (turns m).ofLoop = false) ∧
    (s.phase = .stopped ∨ s.Panicked ∨ s.waiting = true ∨ s.GoesOn spendKey S) ∧
    (s.waiting = true → ∃ s', s.turn spendKey S .read = some s' ∧ s'.GoesOn spendKey S) := by
  have hphased : s.Phased := TakesTurn.invariant Phased
    (fun _ _ _ h _ ht => h.turns (turn_cases ht)) hrun nofun
  refine ⟨fun turns s' h => ?_, fun run turns hzero hsteps => ?_, loop_goes_on spendKey S hphased,
    goesOn_read spendKey S hphased⟩
  · refine (scans_le hending h).trans ?_
    cases s.phase <;> decide
  · exact loop_ends (hzero ▸ hending) hsteps

end ScanLoop

/-! ## A small loop to evaluate -/

namespace ScanLoop

/-- The keys of a table in which the minor indexes differ. -/
def minorKey (k : SubIndex) : ℕ := k.minor.toNat

/-- A loop whose checker has been built before the first address was given out. -/
def small : ScanLoop :=
  start (.build smallStore (fun _ => "") 0 [] .new 5) System.idleScanner 99

/-- A new invoice, which extends the range, and the loop as far as the comparison. -/
def untilCompared : List Turn :=
  .client (.newInvoice System.smallArgs) :: List.replicate 4 (.client (.call 0 {})) ++ [.receive]

/-- The invoice with the new range is covered by the scan of the round, after another one has been
asked for and the checker has been built again. -/
theorem checker_covers_extended :
    ∃ s ready : ScanLoop, s.system.invoices.map Invoice.index = [⟨0, 1⟩, ⟨0, 0⟩] ∧
      ∀ invoice ∈ s.system.invoices, invoice.index.minor ≠ u32Max →
        ready.checker.covers invoice.index = true := by
  have hend : ((replay (turn minorKey .exact) reads untilCompared small).bind fun s =>
      (s.turn minorKey .exact (.compare 199)).bind fun compared =>
      (replay (turn minorKey .exact) inRound
        [.client (.newInvoice System.smallArgs), .rebuild 199] compared).bind fun ready =>
      (ready.turn minorKey .exact (.scan (plainEnv ⟨[], []⟩))).map fun _ =>
        (s.system.invoices.map Invoice.index, s.reads (.compare 199)))
          = some ([⟨0, 1⟩, ⟨0, 0⟩], true) := by decide +kernel
  obtain ⟨s, hs, hend⟩ := Option.bind_eq_some_iff.mp hend
  obtain ⟨compared, hcompared, hend⟩ := Option.bind_eq_some_iff.mp hend
  obtain ⟨ready, hready, hend⟩ := Option.bind_eq_some_iff.mp hend
  obtain ⟨scanning, hscanning, heq⟩ := Option.map_eq_some_iff.mp hend
  obtain ⟨hindexes, hread⟩ := Prod.mk.inj heq
  obtain ⟨-, -, hcovers⟩ := checker_covers (by decide) (by decide) (by decide)
    (replay_run (fun _ _ h => h) hs) hread hcompared (replay_run (fun _ _ h => h) hready) hscanning
  exact ⟨s, ready, hindexes, hcovers⟩

/-- A stop signal that is sent after the comparison. -/
theorem stop_ends_loop_compared :
    ∃ s : ScanLoop, s.signals = 1 ∧ s.phase = .rebuilding ∧
      ∀ turns s', replay (turn minorKey .exact) (fun _ _ => true) turns s = some s' →
        turns.countP Turn.scans ≤ 1 := by
  have hend : (replay (turn minorKey .exact) reads (untilCompared ++ [.compare 199, .stop]) small).map
      (fun s => (s.signals, s.phase)) = some (1, .rebuilding) := by decide +kernel
  obtain ⟨s, hs, heq⟩ := Option.map_eq_some_iff.mp hend
  obtain ⟨hsignals, hphase⟩ := Prod.mk.inj heq
  have hending : s.Ending := .inl (by rw [hsignals]; decide)
  exact ⟨s, hsignals, hphase,
    (stop_ends_loop _ _ _ (replay_run (fun _ _ h => h) hs) hending).1⟩

end ScanLoop
end Loop
end AcceptXmr
