import AcceptXmr.Gateway.Calls

/-! # The scanner's handle

`run`, `stop` and `status` of `library/src/payment_gateway.rs`, called at the same time by clones of
one gateway. The handle of the scanning task is behind a mutex that is not re-entrant; all tasks
share one channel for the stop signal. `run` looks at the handle and releases the mutex while it
creates the scanner; `stop` keeps it until the task has ended; `status` keeps it while it locks it
again.

* **`Handles.turn`** — one step of a call or of a scanning task.
* **`locked_turn`** — the lock is with the call whose guard it is.
* **`no_self_blocking`** — no call waits for a lock that it has, as long as no `status` looks at the
  handle of a task that has ended. -/

namespace AcceptXmr

/-- A scanning task. -/
inductive TaskState where
  | unborn
  | alive
  /-- The task has returned. -/
  | finished
  | panicked
  deriving DecidableEq, Repr

/-- `ScannerHandle::join`, none while the task is alive. -/
def TaskState.join : TaskState → Option (Except ScannerError Unit)
  | .unborn | .alive => none
  | .finished => some (.ok ())
  | .panicked => some (.error .threading)

/-- `ScannerHandle::is_finished`. -/
def TaskState.isFinished (self : TaskState) : Bool := self.join.isSome

/-- A finished task is not alive. -/
theorem TaskState.ne_alive_of_isFinished {s : TaskState} (h : s.isFinished = true) :
    s ≠ .alive := by
  rintro rfl
  cases h

/-- A task that has been spawned and is not finished is alive. -/
theorem TaskState.eq_alive {s : TaskState} (h : s.isFinished = false) (hborn : s ≠ .unborn) :
    s = .alive := by
  cases s with
  | unborn => exact absurd rfl hborn
  | alive => rfl
  | finished | panicked => cases h

/-- What `status` returns. -/
inductive PaymentGatewayStatus where
  | running
  | notRunning
  | error (e : AcceptXmrError)
  deriving DecidableEq, Repr

/-- Where a call stands. -/
inductive HandleCall where
  /-- The call has not been made. -/
  | idle
  | run
  /-- `run` has the lock and looks at the handle. -/
  | runChecking
  /-- `run` creates the scanner, without the lock. -/
  | runCreating
  /-- The scanner has been created. -/
  | runSpawning
  /-- The task has been spawned, and `run` waits for the lock. -/
  | runStoring (task : ℕ)
  | runStored (task : ℕ)
  | runReturned (result : Except AcceptXmrError Unit)
  | stop
  | stopTaking
  /-- The task had not ended, and is to be sent the signal. -/
  | stopSending (task : ℕ)
  | stopJoining (task : ℕ)
  /-- With the task that was found. -/
  | stopReturned (found : Option ℕ) (result : Except AcceptXmrError Unit)
  | status
  | statusChecking
  /-- The task had ended, and `status` waits for the lock that it has. -/
  | statusWaiting
  | statusJoining (task : ℕ)
  | statusReturned (status : PaymentGatewayStatus)
  deriving DecidableEq, Repr

namespace HandleCall

/-- Whether the call has the lock. The guard of `stop` lives as long as its `match`, that of
`status` to the end of the function. -/
def holdsLock : HandleCall → Bool
  | .runChecking | .runStored _ | .stopTaking | .stopSending _ | .stopJoining _ | .statusChecking
  | .statusWaiting | .statusJoining _ => true
  | _ => false

/-- Whether the call waits for the lock. -/
def waitsForLock : HandleCall → Bool
  | .run | .runStoring _ | .stop | .status | .statusWaiting => true
  | _ => false

/-- Whether a `run` is between its look at the handle and the storing of its own. -/
def isStarting : HandleCall → Bool
  | .runCreating | .runSpawning | .runStoring _ | .runStored _ => true
  | _ => false

/-- The task whose handle the call has. -/
def task : HandleCall → Option ℕ
  | .runStoring t | .runStored t | .stopSending t | .stopJoining t | .statusJoining t => some t
  | _ => none

/-- Whether the call is stopping a task. -/
def isStopping (t : ℕ) : HandleCall → Bool
  | .stopSending t' | .stopJoining t' => decide (t' = t)
  | _ => false

/-- A call that has a handle has the lock or is starting a scanner. -/
theorem holdsLock_or_isStarting {c : HandleCall} {t : ℕ} (h : c.task = some t) :
    c.holdsLock = true ∨ c.isStarting = true := by
  cases c with
  | runStoring | runStored => exact .inr rfl
  | stopSending | stopJoining | statusJoining => exact .inl rfl
  | _ => cases h

end HandleCall

/-- The handle behind its mutex, the stop signals in the channel, the tasks and the calls. -/
structure Handles where
  /-- The call that has the lock. -/
  lock : Option ℕ := none
  scannerHandle : Option ℕ := none
  /-- The number of `Stop` messages. -/
  commands : ℕ := 0
  tasks : ℕ → TaskState := fun _ => .unborn
  spawned : ℕ := 0
  calls : ℕ → HandleCall := fun _ => .idle
  /-- The number of calls that have been made. -/
  made : ℕ := 0

namespace Handles

/-- A call goes on. -/
def goTo (self : Handles) (i : ℕ) (call : HandleCall) : Handles :=
  { self with calls := Function.update self.calls i call }

/-- The lock is taken, if it is free. -/
def acquire (self : Handles) (i : ℕ) (call : HandleCall) : Option Handles :=
  match self.lock with
  | none => some { self.goTo i call with lock := some i }
  | some _ => none

/-- The lock is released. -/
def release (self : Handles) (i : ℕ) (call : HandleCall) : Handles :=
  { self.goTo i call with lock := none }

/-- **One step of a call.** `created` is what `Scanner::new` returns, if the step is that of
creating a scanner. None if the call has to wait or has returned. -/
def advance (created : Except ScannerError Unit) (i : ℕ) (self : Handles) : Option Handles :=
  match self.calls i with
  | .idle => none
  | .run => self.acquire i .runChecking
  | .runChecking =>
      match self.scannerHandle with
      | none => some (self.release i .runCreating)
      | some t =>
          if (self.tasks t).isFinished then some (self.release i .runCreating)
          else some (self.release i (.runReturned (.error .alreadyRunning)))
  | .runCreating =>
      match created with
      | .error e => some (self.goTo i (.runReturned (.error (.scanner e))))
      | .ok _ => some (self.goTo i .runSpawning)
  | .runSpawning =>
      -- The right-hand side of the assignment is evaluated before the lock is taken.
      some { self.goTo i (.runStoring self.spawned) with
        tasks := Function.update self.tasks self.spawned .alive
        spawned := self.spawned + 1 }
  | .runStoring t => self.acquire i (.runStored t)
  | .runStored t => some { self.release i (.runReturned (.ok ())) with scannerHandle := some t }
  | .stop => self.acquire i .stopTaking
  | .stopTaking =>
      match self.scannerHandle with
      | none => some (self.release i (.stopReturned none (.ok ())))
      | some t =>
          if (self.tasks t).isFinished then
            some { self.goTo i (.stopJoining t) with scannerHandle := none }
          else some { self.goTo i (.stopSending t) with scannerHandle := none }
  | .stopSending t => some { self.goTo i (.stopJoining t) with commands := self.commands + 1 }
  | .stopJoining t =>
      match (self.tasks t).join with
      | none => none
      | some result => some (self.release i (.stopReturned (some t) (result.mapError .scanner)))
  | .status => self.acquire i .statusChecking
  | .statusChecking =>
      match self.scannerHandle with
      | none => some (self.release i (.statusReturned .notRunning))
      | some t =>
          if (self.tasks t).isFinished then some (self.goTo i .statusWaiting)
          else some (self.release i (.statusReturned .running))
  | .statusWaiting =>
      match self.lock with
      | some _ => none
      | none =>
          match self.scannerHandle with
          | none => some (self.goTo i (.statusReturned .notRunning))
          | some t => some { self.goTo i (.statusJoining t) with scannerHandle := none }
  | .statusJoining t =>
      match (self.tasks t).join with
      | none => none
      | some (.ok _) => some (self.release i (.statusReturned .notRunning))
      | some (.error e) => some (self.release i (.statusReturned (.error (.scanner e))))
  | .runReturned _ | .stopReturned _ _ | .statusReturned _ => none

/-- Whose turn it is. -/
inductive Turn where
  | run
  | stop
  | status
  | call (i : ℕ) (created : Except ScannerError Unit)
  /-- A task looks for a stop signal at the head of its loop. -/
  | scanner (task : ℕ)
  | panic (task : ℕ)

/-- A new call. -/
def begin (self : Handles) (call : HandleCall) : Handles :=
  { self.goTo self.made call with made := self.made + 1 }

/-- **One step** of a call or of a scanning task. -/
def turn (self : Handles) : Turn → Option Handles
  | .run => some (self.begin .run)
  | .stop => some (self.begin .stop)
  | .status => some (self.begin .status)
  | .call i created => self.advance created i
  -- A scanner looks for a command before each scan, and ends if there is one.
  | .scanner t =>
      if self.tasks t ≠ .alive then none
      else if self.commands = 0 then some self
      else some { self with
        commands := self.commands - 1
        tasks := Function.update self.tasks t .finished }
  -- A task may panic at any time.
  | .panic t =>
      if self.tasks t ≠ .alive then none
      else some { self with tasks := Function.update self.tasks t .panicked }

/-- **A step of a run** in which only turns are taken that are `allowed`. -/
def Step (allowed : Handles → Turn → Bool) (s s' : Handles) : Prop :=
  ∃ t : Turn, allowed s t = true ∧ s.turn t = some s'

/-- The states that calls on a new gateway reach. -/
def Reachable (allowed : Handles → Turn → Bool) (s : Handles) : Prop :=
  Relation.ReflTransGen (Step allowed) {} s

/-! ## What a step does -/

/-- The calls that take the lock, and where they are then. -/
inductive Locks : HandleCall → HandleCall → Prop
  | run : Locks .run .runChecking
  | store {t : ℕ} : Locks (.runStoring t) (.runStored t)
  | stop : Locks .stop .stopTaking
  | status : Locks .status .statusChecking

/-- **What a step of a call does.** -/
inductive Advances (s : Handles) (i : ℕ) : Handles → Prop
  | lock {c c' : HandleCall} (hc : s.calls i = c) (hnext : Locks c c') (hfree : s.lock = none) :
      Advances s i { s.goTo i c' with lock := some i }
  | refuse {t : ℕ} (hc : s.calls i = .runChecking) (hhandle : s.scannerHandle = some t)
      (hrunning : (s.tasks t).isFinished = false) :
      Advances s i (s.release i (.runReturned (.error .alreadyRunning)))
  | pass (hc : s.calls i = .runChecking)
      (hended : ∀ t, s.scannerHandle = some t → (s.tasks t).isFinished = true) :
      Advances s i (s.release i .runCreating)
  | fail {e : ScannerError} (hc : s.calls i = .runCreating) :
      Advances s i (s.goTo i (.runReturned (.error (.scanner e))))
  | create (hc : s.calls i = .runCreating) : Advances s i (s.goTo i .runSpawning)
  | spawn (hc : s.calls i = .runSpawning) :
      Advances s i { s.goTo i (.runStoring s.spawned) with
        tasks := Function.update s.tasks s.spawned .alive
        spawned := s.spawned + 1 }
  | store {t : ℕ} (hc : s.calls i = .runStored t) :
      Advances s i { s.release i (.runReturned (.ok ())) with scannerHandle := some t }
  | stopNothing (hc : s.calls i = .stopTaking) (hhandle : s.scannerHandle = none) :
      Advances s i (s.release i (.stopReturned none (.ok ())))
  | takeEnded {t : ℕ} (hc : s.calls i = .stopTaking) (hhandle : s.scannerHandle = some t)
      (hended : (s.tasks t).isFinished = true) :
      Advances s i { s.goTo i (.stopJoining t) with scannerHandle := none }
  | take {t : ℕ} (hc : s.calls i = .stopTaking) (hhandle : s.scannerHandle = some t)
      (hrunning : (s.tasks t).isFinished = false) :
      Advances s i { s.goTo i (.stopSending t) with scannerHandle := none }
  | send {t : ℕ} (hc : s.calls i = .stopSending t) :
      Advances s i { s.goTo i (.stopJoining t) with commands := s.commands + 1 }
  | stopped {t : ℕ} {result : Except ScannerError Unit} (hc : s.calls i = .stopJoining t)
      (hjoin : (s.tasks t).join = some result) :
      Advances s i (s.release i (.stopReturned (some t) (result.mapError .scanner)))
  | answer {status : PaymentGatewayStatus} (hc : s.calls i = .statusChecking) :
      Advances s i (s.release i (.statusReturned status))
  | lockAgain {t : ℕ} (hc : s.calls i = .statusChecking) (hhandle : s.scannerHandle = some t)
      (hended : (s.tasks t).isFinished = true) : Advances s i (s.goTo i .statusWaiting)
  -- Without the lock, which `status` never is here.
  | unlocked {s' : Handles} (hc : s.calls i = .statusWaiting) (hfree : s.lock = none) :
      Advances s i s'
  | joined {t : ℕ} {status : PaymentGatewayStatus} (hc : s.calls i = .statusJoining t)
      (hended : (s.tasks t).isFinished = true) : Advances s i (s.release i (.statusReturned status))

/-- **The steps of a call** are these. -/
theorem advance_cases {created : Except ScannerError Unit} {i : ℕ} {s s' : Handles}
    (h : s.advance created i = some s') : Advances s i s' := by
  -- The four calls that wait for the lock go on in the same way.
  have hacquire : ∀ c c' : HandleCall, s.calls i = c → Locks c c' → s.acquire i c' = some s' →
      Advances s i s' := by
    intro c c' hc hnext hacquire
    unfold acquire at hacquire
    cases hlock : s.lock with
    | some j => simp [hlock] at hacquire
    | none =>
        simp only [hlock, Option.some.injEq] at hacquire
        exact hacquire ▸ .lock hc hnext hlock
  unfold advance at h
  cases hc : s.calls i with
  | idle => simp [hc] at h
  | run =>
      simp only [hc] at h
      exact hacquire _ _ hc .run h
  | runChecking =>
      simp only [hc] at h
      split at h
      · rename_i hhandle
        cases h
        exact .pass hc (by simp [hhandle])
      · rename_i t hhandle
        split at h
        · rename_i hended
          cases h
          refine .pass hc fun t' ht' => ?_
          rw [hhandle] at ht'
          exact Option.some.inj ht' ▸ hended
        · rename_i hended
          cases h
          exact .refuse hc hhandle (by simpa using hended)
  | runCreating =>
      simp only [hc] at h
      split at h
      · cases h
        exact .fail hc
      · cases h
        exact .create hc
  | runSpawning =>
      simp only [hc, Option.some.injEq] at h
      exact h ▸ .spawn hc
  | runStoring t =>
      simp only [hc] at h
      exact hacquire _ _ hc .store h
  | runStored t =>
      simp only [hc, Option.some.injEq] at h
      exact h ▸ .store hc
  | runReturned result => simp [hc] at h
  | stop =>
      simp only [hc] at h
      exact hacquire _ _ hc .stop h
  | stopTaking =>
      simp only [hc] at h
      split at h
      · rename_i hhandle
        cases h
        exact .stopNothing hc hhandle
      · rename_i t hhandle
        split at h
        · rename_i hended
          cases h
          exact .takeEnded hc hhandle hended
        · rename_i hended
          cases h
          exact .take hc hhandle (by simpa using hended)
  | stopSending t =>
      simp only [hc, Option.some.injEq] at h
      exact h ▸ .send hc
  | stopJoining t =>
      simp only [hc] at h
      split at h
      · cases h
      · rename_i result hjoin
        cases h
        exact .stopped hc hjoin
  | stopReturned found result => simp [hc] at h
  | status =>
      simp only [hc] at h
      exact hacquire _ _ hc .status h
  | statusChecking =>
      simp only [hc] at h
      split at h
      · cases h
        exact .answer hc
      · rename_i t hhandle
        split at h
        · rename_i hended
          cases h
          exact .lockAgain hc hhandle hended
        · cases h
          exact .answer hc
  | statusWaiting =>
      simp only [hc] at h
      split at h
      · cases h
      · rename_i hfree
        exact .unlocked hc hfree
  | statusJoining t =>
      simp only [hc] at h
      split at h
      · cases h
      · rename_i hjoin
        cases h
        exact .joined hc (by simp [TaskState.isFinished, hjoin])
      · rename_i hjoin
        cases h
        exact .joined hc (by simp [TaskState.isFinished, hjoin])
  | statusReturned status => simp [hc] at h

/-- **What a turn does.** -/
inductive Turns (s : Handles) : Turn → Handles → Prop
  | begin {turn : Turn} {c : HandleCall} (hholds : c.holdsLock = false) (htask : c.task = none)
      (hstarting : c.isStarting = false) (hstop : ∀ t, c.isStopping t = false) :
      Turns s turn (s.begin c)
  | advance {i : ℕ} {created : Except ScannerError Unit} {s' : Handles} (h : Advances s i s') :
      Turns s (.call i created) s'
  | idle {t : ℕ} (halive : s.tasks t = .alive) (hnone : s.commands = 0) : Turns s (.scanner t) s
  | stop {t : ℕ} (halive : s.tasks t = .alive) (hsome : s.commands ≠ 0) :
      Turns s (.scanner t) { s with
        commands := s.commands - 1
        tasks := Function.update s.tasks t .finished }
  | panic {t : ℕ} (halive : s.tasks t = .alive) :
      Turns s (.panic t) { s with tasks := Function.update s.tasks t .panicked }

/-- **The turns** are these. -/
theorem turn_cases {t : Turn} {s s' : Handles} (h : s.turn t = some s') : Turns s t s' := by
  cases t with
  | run | stop | status =>
      simp only [turn, Option.some.injEq] at h
      exact h ▸ .begin rfl rfl rfl fun _ => rfl
  | call i created => exact .advance (advance_cases h)
  | scanner t =>
      simp only [turn] at h
      split at h
      · cases h
      · rename_i halive
        split at h
        · rename_i hnone
          cases h
          exact .idle (not_not.mp halive) hnone
        · rename_i hsome
          cases h
          exact .stop (not_not.mp halive) hsome
  | panic t =>
      simp only [turn] at h
      split at h
      · cases h
      · rename_i halive
        cases h
        exact .panic (not_not.mp halive)

/-! ## The lock -/

/-- **The lock** is had by the call whose guard it is. A call that has not been made is idle. -/
structure Locked (s : Handles) : Prop where
  made : ∀ i, s.made ≤ i → s.calls i = .idle
  holds : ∀ i, (s.calls i).holdsLock = true ↔ s.lock = some i

/-- Whoever holds the lock is a call that has been made. -/
theorem Locked.lt_made {s : Handles} {i : ℕ} (h : s.Locked) (hne : s.calls i ≠ .idle) :
    i < s.made := by
  by_contra hge
  exact hne (h.made i (not_lt.mp hge))

/-- Two calls never hold the lock together. -/
theorem Locked.unique {s : Handles} {i j : ℕ} (h : s.Locked) (hi : (s.calls i).holdsLock = true)
    (hj : (s.calls j).holdsLock = true) : i = j :=
  Option.some.inj (((h.holds i).mp hi).symm.trans ((h.holds j).mp hj))

/-- A call goes on, and nothing changes for the others. -/
theorem Locked.goes {s s' : Handles} {i : ℕ} {c : HandleCall} (h : s.Locked)
    (hcalls : s'.calls = Function.update s.calls i c) (hmade : s'.made = s.made)
    (hne : s.calls i ≠ .idle) (hheld : c.holdsLock = true ↔ s'.lock = some i)
    (hothers : ∀ j, j ≠ i → (s'.lock = some j ↔ s.lock = some j)) : s'.Locked := by
  constructor
  · intro j hj
    rw [hmade] at hj
    rw [hcalls, Function.update_of_ne (by rintro rfl; exact hne (h.made j hj))]
    exact h.made j hj
  · intro j
    by_cases heq : j = i
    · rw [heq, hcalls, Function.update_self]
      exact hheld
    · rw [hcalls, Function.update_of_ne heq, hothers j heq]
      exact h.holds j

/-- A step of a call keeps the lock with one call at most. -/
theorem locked_advance {s s' : Handles} {i : ℕ} (h : s.Locked) (hstep : Advances s i s') :
    s'.Locked := by
  cases hstep with
  | lock hc hnext hfree =>
      have hothers : ∀ j, j ≠ i → (some i = some j ↔ s.lock = some j) := by
        intro j hj
        simp [hfree, Ne.symm hj]
      cases hnext <;> exact h.goes rfl rfl (by simp [hc]) (by simp [HandleCall.holdsLock]) hothers
  | refuse hc | pass hc | stopNothing hc | stopped hc | answer hc | joined hc | store hc =>
      -- The guard is dropped.
      have hlock := (h.holds i).mp (by simp [hc, HandleCall.holdsLock])
      exact h.goes rfl rfl (by simp [hc]) (by simp [release, HandleCall.holdsLock])
        fun j hj => by simp [release, hlock, Ne.symm hj]
  | fail hc | create hc | spawn hc =>
      have hlock := mt (h.holds i).mpr (by simp [hc, HandleCall.holdsLock])
      exact h.goes rfl rfl (by simp [hc]) (by simp [goTo, HandleCall.holdsLock, hlock])
        fun j hj => Iff.rfl
  | takeEnded hc | take hc | send hc | lockAgain hc =>
      have hlock := (h.holds i).mp (by simp [hc, HandleCall.holdsLock])
      exact h.goes rfl rfl (by simp [hc]) (by simp [goTo, HandleCall.holdsLock, hlock])
        fun j hj => Iff.rfl
  | unlocked hc hfree =>
      have hlock := (h.holds i).mp (by simp [hc, HandleCall.holdsLock])
      simp [hfree] at hlock

/-- **Every turn** keeps the lock with the call whose guard it is. -/
theorem locked_turn {s s' : Handles} {t : Turn} (h : s.Locked) (hstep : Turns s t s') :
    s'.Locked := by
  cases hstep with
  | @begin _ c hholds =>
      constructor
      · intro j hj
        have hj' : s.made + 1 ≤ j := hj
        refine (Function.update_of_ne (by omega) _ _).trans (h.made j (by omega))
      · intro j
        by_cases heq : j = s.made
        · have hidle : (s.calls j).holdsLock = false := by rw [h.made j heq.ge]; rfl
          have hlock := mt (h.holds j).mpr (by simp [hidle])
          subst heq
          simp [begin, goTo, hholds, hlock]
        · simpa [begin, goTo, Function.update_of_ne heq] using h.holds j
  | advance hadvance => exact locked_advance h hadvance
  | idle => exact h
  | stop => exact ⟨h.made, h.holds⟩
  | panic => exact ⟨h.made, h.holds⟩

/-- At the start nobody holds the lock. -/
theorem locked_init : ({} : Handles).Locked :=
  ⟨fun _ _ => rfl, fun _ => by simp [HandleCall.holdsLock]⟩

/-- The state after some allowed turns. -/
def after (allowed : Handles → Turn → Bool) : List Turn → Handles → Option Handles :=
  replay turn allowed

/-- Turns that can be replayed are a run. -/
theorem after_reaches {allowed : Handles → Turn → Bool} {turns : List Turn} {s s' : Handles}
    (h : after allowed turns s = some s') : Relation.ReflTransGen (Step allowed) s s' :=
  replay_run (fun _ _ hallowed => hallowed) h

/-- **What every allowed turn preserves** holds in every reachable state. -/
theorem Reachable.invariant {allowed : Handles → Turn → Bool} {P : Handles → Prop} {s : Handles}
    (hstart : P {})
    (hstep : ∀ t s s', s.Locked → P s → allowed s t = true → Turns s t s' → P s')
    (h : Reachable allowed s) : s.Locked ∧ P s := by
  have hrun : Relation.ReflTransGen (TakesTurn turn fun s t => allowed s t = true) {} s := h
  refine TakesTurn.invariant (fun s => s.Locked ∧ P s) ?_ hrun ⟨locked_init, hstart⟩
  intro s s' t ih hallowed hturn
  exact ⟨locked_turn ih.1 (turn_cases hturn), hstep t _ _ ih.1 ih.2 hallowed (turn_cases hturn)⟩

/-! ## The lock that is taken twice -/

/-- No `status` looks at the handle of a task that has ended. -/
def unended (s : Handles) : Turn → Bool
  | .call i _ =>
      !(decide (s.calls i = .statusChecking) && s.scannerHandle.any fun t => (s.tasks t).isFinished)
  | _ => true

/-- No `status` is taking the lock a second time, or has. -/
def LocksOnce (s : Handles) : Prop :=
  ∀ i, s.calls i ≠ .statusWaiting ∧ ∀ t, s.calls i ≠ .statusJoining t

/-- A call goes on. -/
theorem LocksOnce.goes {s s' : Handles} {i : ℕ} {c : HandleCall} (h : s.LocksOnce)
    (hcalls : s'.calls = Function.update s.calls i c) (hwaiting : c ≠ .statusWaiting)
    (hjoining : ∀ t, c ≠ .statusJoining t) : s'.LocksOnce := by
  intro j
  by_cases heq : j = i
  · rw [hcalls, heq, Function.update_self]
    exact ⟨hwaiting, hjoining⟩
  · rw [hcalls, Function.update_of_ne heq]
    exact h j

/-- As long as no `status` looks at the handle of an ended task, none takes the lock twice. -/
theorem locksOnce_turn {t : Turn} {s s' : Handles} (h : s.LocksOnce)
    (hunended : s.unended t = true) (hstep : Turns s t s') : s'.LocksOnce := by
  cases hstep with
  | begin hholds htask =>
      refine h.goes rfl ?_ ?_
      · rintro rfl
        cases hholds
      · rintro t rfl
        cases htask
  | @advance i created _ hadvance =>
      cases hadvance with
      | lock _ hnext => cases hnext <;> exact h.goes rfl (by simp) (by simp)
      | lockAgain hc hhandle hended => simp [unended, hc, hhandle, hended] at hunended
      | unlocked hc => exact absurd hc (h i).1
      | _ => exact h.goes rfl (by simp) (by simp)
  | idle => exact h
  | stop => exact h
  | panic => exact h

/-- A call that has the lock and does not wait for it goes on, unless it joins a task. -/
theorem advance_of_holdsLock {s : Handles} {i : ℕ} (hholds : (s.calls i).holdsLock = true)
    (h : s.LocksOnce) :
    (∃ t, s.calls i = .stopJoining t ∧ (s.tasks t).isFinished = false) ∨
      ∃ s', s.advance (.ok ()) i = some s' := by
  refine or_iff_not_imp_left.mpr fun hjoins => ?_
  rw [← Option.isSome_iff_exists]
  -- Only the places where a call has the lock are left.
  cases hc : s.calls i with
  | statusWaiting => exact absurd hc (h i).1
  | statusJoining t => exact absurd hc ((h i).2 t)
  | stopJoining t =>
      have hended : (s.tasks t).isFinished = true := by
        by_contra hrunning
        exact hjoins ⟨t, hc, by simpa using hrunning⟩
      obtain ⟨result, hjoin⟩ := Option.isSome_iff_exists.mp hended
      simp [advance, hc, hjoin]
  | runChecking | stopTaking | statusChecking =>
      simp only [advance, hc]
      split
      · rfl
      · split <;> rfl
  | runStored t | stopSending t => simp [advance, hc]
  | _ =>
      rw [hc] at hholds
      cases hholds

/-- **No call waits for a lock that it has**, and no `status` keeps the lock: it returns from its
look at the handle, and the call that has the lock can go on unless it is a `stop` whose task is
running. -/
theorem no_self_blocking {s : Handles} (h : Reachable unended s) :
    (∀ i, ¬ ((s.calls i).waitsForLock = true ∧ (s.calls i).holdsLock = true)) ∧
    (∀ i created, s.calls i = .statusChecking → s.unended (.call i created) = true →
      ∃ s', s.turn (.call i created) = some s' ∧ s'.lock = none ∧
        s'.calls i = .statusReturned (if s.scannerHandle = none then .notRunning else .running)) ∧
    (∀ i, s.lock = some i →
      (∃ t, s.calls i = .stopJoining t ∧ (s.tasks t).isFinished = false) ∨
        ∃ s', s.turn (.call i (.ok ())) = some s') := by
  have hstart : ({} : Handles).LocksOnce := fun i => ⟨by simp, by simp⟩
  obtain ⟨hlocked, honce⟩ := h.invariant hstart
    (fun t s s' hlocked h hunended hstep => locksOnce_turn h hunended hstep)
  refine ⟨?_, ?_, ?_⟩
  · rintro i ⟨hwaits, hholds⟩
    cases hc : s.calls i with
    | statusWaiting => exact (honce i).1 hc
    | run | runStoring | stop | status =>
        rw [hc] at hholds
        cases hholds
    | _ =>
        rw [hc] at hwaits
        cases hwaits
  · intro i created hc hunended
    cases hhandle : s.scannerHandle with
    | none => exact ⟨_, by simp only [turn, advance, hc, hhandle]; rfl, rfl, by simp [release, goTo]⟩
    | some t =>
        have hrunning : (s.tasks t).isFinished = false := by
          simpa [unended, hc, hhandle] using hunended
        refine ⟨_, by simp only [turn, advance, hc, hhandle, hrunning]; rfl, rfl, ?_⟩
        simp [release, goTo]
  · intro i hlock
    exact advance_of_holdsLock ((hlocked.holds i).mpr hlock) honce

/-- `status` while the scanner is running. -/
theorem no_self_blocking_running : ∃ s : Handles, Reachable unended s ∧
    s.tasks 0 = .alive ∧ ∃ s', s.turn (.call 1 (.ok ())) = some s' ∧ s'.lock = none ∧
      s'.calls 1 = .statusReturned .running := by
  let first : List Turn := .run :: List.replicate 6 (.call 0 (.ok ()))
  have hreach := after_reaches
    (show after unended (first ++ [.status, .call 1 (.ok ())]) {} = some _ from rfl)
  exact ⟨_, hreach, rfl, (no_self_blocking hreach).2.1 1 (.ok ()) rfl rfl⟩

/-- A step of a call leaves the other calls where they are. -/
theorem Advances.calls_of_ne {s s' : Handles} {i j : ℕ} (hlocked : s.Locked) (h : Advances s i s')
    (hne : j ≠ i) : s'.calls j = s.calls j := by
  cases h with
  | unlocked hc hfree =>
      have hlock := (hlocked.holds i).mp (by rw [hc]; rfl)
      rw [hfree] at hlock
      cases hlock
  | _ => exact Function.update_of_ne hne _ _

/-- **A `status` that takes the lock a second time** waits for it for ever. -/
theorem blocked_for_ever {s s' : Handles} {i : ℕ} (hlocked : s.Locked)
    (hc : s.calls i = .statusWaiting) (h : Relation.ReflTransGen (Step fun _ _ => true) s s') :
    s'.calls i = .statusWaiting ∧ s'.lock = some i := by
  suffices hall : s'.Locked ∧ s'.calls i = .statusWaiting from
    ⟨hall.2, (hall.1.holds i).mp (by rw [hall.2]; rfl)⟩
  induction h with
  | refl => exact ⟨hlocked, hc⟩
  | tail _ hlast ih =>
      obtain ⟨t, -, hturn⟩ := hlast
      obtain ⟨hmid, hwaiting⟩ := ih
      refine ⟨locked_turn hmid (turn_cases hturn), ?_⟩
      cases turn_cases hturn with
      | begin =>
          have hmade := hmid.lt_made (i := i) (by simp [hwaiting])
          exact (Function.update_of_ne hmade.ne _ _).trans hwaiting
      | @advance j _ _ hadvance =>
          by_cases heq : i = j
          · subst heq
            -- The lock it waits for is its own.
            have hlock := (hmid.holds i).mp (by rw [hwaiting]; rfl)
            simp [turn, advance, hwaiting, hlock] at hturn
          · exact (hadvance.calls_of_ne hmid heq).trans hwaiting
      | idle | stop | panic => exact hwaiting

/-- **The scanner panics, and `status` is called.** It has the lock, waits for it, and will for
ever. -/
theorem status_blocks : ∃ s : Handles, Reachable (fun _ _ => true) s ∧
    (s.calls 1).waitsForLock = true ∧ (s.calls 1).holdsLock = true ∧
    ∀ s', Relation.ReflTransGen (Step fun _ _ => true) s s' →
      s'.calls 1 = .statusWaiting ∧ s'.lock = some 1 := by
  let first : List Turn := .run :: List.replicate 6 (.call 0 (.ok ()))
  have hreach := after_reaches (show after (fun _ _ => true)
    (first ++ [.panic 0, .status, .call 1 (.ok ()), .call 1 (.ok ())]) {} = some _ from rfl)
  have hlocked := (Reachable.invariant trivial (fun _ _ _ _ _ _ _ => trivial) hreach).1
  exact ⟨_, hreach, rfl, rfl, fun s' h => blocked_for_ever hlocked rfl h⟩

end Handles

end AcceptXmr
