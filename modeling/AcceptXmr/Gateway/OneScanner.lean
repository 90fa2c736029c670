import AcceptXmr.Gateway.ScannerHandle

/-! # At most one scanner

Calls of `run` and `stop` at the same time, with the scanning tasks that they start and stop.
Between its look at the handle and the storing of its own, a `run` does not have the lock; a second
one that looks in between starts a second scanner. All scanners receive from one channel, so that a
stop signal that its task does not receive is left for the next.

* **`Exclusive`** — what holds of the tasks, the handle and the channel.
* **`at_most_one_scanner`** — as long as no `run` looks at the handle while another is starting a
  scanner, and no task panics while it is being stopped. -/

namespace AcceptXmr.Handles

/-- No `run` looks at the handle while another is between its look and the storing of its handle,
and no task panics while it is being stopped. -/
def serial (s : Handles) : Turn → Bool
  | .call i _ =>
      decide (s.calls i ≠ .runChecking) ||
        (List.range s.made).all fun j => !(s.calls j).isStarting
  | .panic t => (List.range s.made).all fun j => !(s.calls j).isStopping t
  | _ => true

/-- What `serial` says of the calls, made or not. -/
theorem all_calls {s : Handles} {p : HandleCall → Bool} (hlocked : s.Locked) (hidle : p .idle = false)
    (h : ((List.range s.made).all fun j => !p (s.calls j)) = true) (j : ℕ) :
    p (s.calls j) = false := by
  by_cases hj : j < s.made
  · simpa using List.all_eq_true.mp h j (List.mem_range.mpr hj)
  · rw [hlocked.made j (not_lt.mp hj)]
    exact hidle

/-- **At most one task is alive**, and where its handle is. -/
structure Exclusive (s : Handles) : Prop where
  /-- At most one `run` starts a scanner. -/
  starting : ∀ i j, (s.calls i).isStarting = true → (s.calls j).isStarting = true → i = j
  /-- While it does, no task is alive but its own. -/
  own : ∀ i t, (s.calls i).isStarting = true → s.tasks t = .alive → (s.calls i).task = some t
  /-- The handle it replaces is not that of a live task. -/
  replaced : ∀ i t, (s.calls i).isStarting = true → s.scannerHandle = some t → s.tasks t ≠ .alive
  one : ∀ t t', s.tasks t = .alive → s.tasks t' = .alive → t = t'
  /-- The handle of a live task is behind the mutex or with a call. -/
  located : ∀ t, s.tasks t = .alive → s.scannerHandle = some t ∨ ∃ i, (s.calls i).task = some t
  unborn : ∀ t, s.tasks t = .unborn ↔ s.spawned ≤ t
  known : ∀ t, s.scannerHandle = some t → t < s.spawned
  hand : ∀ i t, (s.calls i).task = some t → t < s.spawned
  sending : ∀ i t, s.calls i = .stopSending t → s.tasks t = .alive
  /-- A stop signal is on its way to the task that is being stopped. -/
  commands : s.commands = 0 ∨
    s.commands = 1 ∧ ∃ i t, s.calls i = .stopJoining t ∧ s.tasks t = .alive

theorem exclusive_init : ({} : Handles).Exclusive := by
  constructor <;> simp [HandleCall.isStarting, HandleCall.task]

section Update

variable {calls : ℕ → HandleCall} {i j : ℕ} {c : HandleCall} {P : HandleCall → Prop}

/-- What holds of a call when one of them has gone on held before, if it did of that one. -/
theorem of_update (himp : P c → P (calls i)) (h : P (Function.update calls i c j)) :
    P (calls j) := by
  by_cases heq : j = i
  · subst heq
    rw [Function.update_self] at h
    exact himp h
  · rwa [Function.update_of_ne heq] at h

/-- What holds of a call still holds when one of them has gone on, if it does of that one. -/
theorem update_of (himp : P (calls i) → P c) (h : P (calls j)) :
    P (Function.update calls i c j) := by
  by_cases heq : j = i
  · subst heq
    rw [Function.update_self]
    exact himp h
  · rwa [Function.update_of_ne heq]

end Update

/-- A call goes on and neither starts nor stops a task. -/
theorem Exclusive.goes {s s' : Handles} {i : ℕ} {c : HandleCall} (h : s.Exclusive)
    (hcalls : s'.calls = Function.update s.calls i c) (htasks : s'.tasks = s.tasks)
    (hhandle : s'.scannerHandle = s.scannerHandle) (hspawned : s'.spawned = s.spawned)
    (hcommands : s'.commands = s.commands)
    (hstarting : c.isStarting = true → (s.calls i).isStarting = true)
    (hhand : ∀ t, c.task = some t → (s.calls i).task = some t)
    (htask : ∀ t, (s.calls i).task = some t → s.tasks t = .alive → c.task = some t)
    (hsending : ∀ t, c ≠ .stopSending t)
    (hjoining : ∀ t, s.calls i = .stopJoining t → s.tasks t ≠ .alive) : s'.Exclusive := by
  have hstarts : ∀ j, (s'.calls j).isStarting = true → (s.calls j).isStarting = true := by
    intro j hj
    rw [hcalls] at hj
    exact of_update (P := fun c => c.isStarting = true) hstarting hj
  -- A call keeps the handle of a live task.
  have hkeeps : ∀ j t, (s.calls j).task = some t → s.tasks t = .alive →
      (s'.calls j).task = some t := by
    intro j t hj ht
    rw [hcalls]
    exact update_of (P := fun c => c.task = some t) (fun hi => htask t hi ht) hj
  constructor
  case starting => exact fun j k hj hk => h.starting j k (hstarts j hj) (hstarts k hk)
  case own =>
    rw [htasks]
    exact fun j t hj ht => hkeeps j t (h.own j t (hstarts j hj) ht) ht
  case replaced =>
    rw [htasks, hhandle]
    exact fun j t hj => h.replaced j t (hstarts j hj)
  case one =>
    rw [htasks]
    exact h.one
  case located =>
    rw [htasks, hhandle]
    exact fun t ht => (h.located t ht).imp_right fun ⟨j, hj⟩ => ⟨j, hkeeps j t hj ht⟩
  case unborn =>
    rw [htasks, hspawned]
    exact h.unborn
  case known =>
    rw [hhandle, hspawned]
    exact h.known
  case hand =>
    intro j t hj
    rw [hcalls] at hj
    rw [hspawned]
    exact h.hand j t (of_update (P := fun c => c.task = some t) (hhand t) hj)
  case sending =>
    intro j t hj
    rw [hcalls] at hj
    rw [htasks]
    refine h.sending j t (of_update (P := fun c => c = .stopSending t) (fun hi => ?_) hj)
    exact absurd hi (hsending t)
  case commands =>
    rw [hcommands, htasks]
    refine h.commands.imp_right ?_
    rintro ⟨hone, j, t, hj, ht⟩
    refine ⟨hone, j, t, ?_, ht⟩
    rw [hcalls]
    refine update_of (P := fun c => c = .stopJoining t) (fun hi => ?_) hj
    exact absurd ht (hjoining t hi)

/-- The other calls, while one is starting a scanner. -/
theorem Exclusive.others {s : Handles} {i j : ℕ} (h : s.Exclusive)
    (hi : (s.calls i).isStarting = true) (hne : j ≠ i) : (s.calls j).isStarting = false := by
  by_contra hstarting
  exact hne (h.starting j i (by simpa using hstarting) hi)

/-- **A `run` that passes its look finds no task alive.** -/
theorem Exclusive.not_alive {s : Handles} {i : ℕ} (hlocked : s.Locked) (h : s.Exclusive)
    (hc : s.calls i = .runChecking) (hserial : ∀ j, (s.calls j).isStarting = false)
    (hended : ∀ t, s.scannerHandle = some t → (s.tasks t).isFinished = true) (t : ℕ) :
    s.tasks t ≠ .alive := by
  intro ht
  rcases h.located t ht with hhandle | ⟨j, hj⟩
  · exact TaskState.ne_alive_of_isFinished (hended t hhandle) ht
  · rcases HandleCall.holdsLock_or_isStarting hj with hheld | hstarting
    · -- The lock is with the `run`, which has no handle.
      obtain rfl : i = j := hlocked.unique (by rw [hc]; rfl) hheld
      rw [hc] at hj
      cases hj
    · rw [hserial j] at hstarting
      cases hstarting

/-- A `run` passes its look. -/
theorem exclusive_pass {s : Handles} {i : ℕ} (hlocked : s.Locked) (h : s.Exclusive)
    (hc : s.calls i = .runChecking) (hserial : ∀ j, (s.calls j).isStarting = false)
    (hended : ∀ t, s.scannerHandle = some t → (s.tasks t).isFinished = true) :
    (s.release i .runCreating).Exclusive := by
  have hnone := h.not_alive hlocked hc hserial hended
  obtain ⟨hstarting, hown, hreplaced, hone, hlocated, hunborn, hknown, hhand, hsending, hcommands⟩ := h
  constructor <;> simp only [release, goTo] <;> grind [Function.update_apply, HandleCall.task]

/-- A `run` spawns its task. -/
theorem exclusive_spawn {s : Handles} {i : ℕ} (h : s.Exclusive) (hc : s.calls i = .runSpawning) :
    ({ s.goTo i (.runStoring s.spawned) with
        tasks := Function.update s.tasks s.spawned .alive
        spawned := s.spawned + 1 } : Handles).Exclusive := by
  have hstarts : (s.calls i).isStarting = true := by rw [hc]; rfl
  -- It has no handle yet, and while it starts a scanner only its own task is alive.
  have hnone : ∀ t, s.tasks t ≠ .alive := by
    intro t ht
    have hown := h.own i t hstarts ht
    rw [hc] at hown
    cases hown
  have hothers := fun j => h.others (j := j) hstarts
  obtain ⟨hstarting, hown, hreplaced, hone, hlocated, hunborn, hknown, hhand, hsending, hcommands⟩ := h
  have hnew : ∀ t, Function.update s.tasks s.spawned .alive t = .alive → t = s.spawned := by
    intro t ht
    by_contra hne
    rw [Function.update_of_ne hne] at ht
    exact hnone t ht
  constructor
  case located => exact fun t ht => .inr ⟨i, by simp [goTo, HandleCall.task, hnew t ht]⟩
  case hand =>
    intro j t hj
    simp only [goTo] at hj ⊢
    by_cases heq : j = i
    · subst heq
      rw [Function.update_self] at hj
      cases hj
      exact Nat.lt_succ_self _
    · rw [Function.update_of_ne heq] at hj
      exact Nat.lt_succ_of_lt (hhand j t hj)
  all_goals
    simp only [goTo]
    grind [Function.update_apply, HandleCall.task]

/-- A `run` stores its handle. -/
theorem exclusive_store {s : Handles} {i t : ℕ} (h : s.Exclusive) (hc : s.calls i = .runStored t) :
    ({ s.release i (.runReturned (.ok ())) with scannerHandle := some t } : Handles).Exclusive := by
  have hstarts : (s.calls i).isStarting = true := by rw [hc]; rfl
  have hothers := fun j => h.others (j := j) hstarts
  obtain ⟨hstarting, hown, hreplaced, hone, hlocated, hunborn, hknown, hhand, hsending, hcommands⟩ := h
  constructor
  case located =>
    -- A live task is the one whose handle is stored.
    intro t' ht'
    refine .inl ?_
    have htask := hown i t' hstarts ht'
    rwa [hc] at htask
  case commands =>
    refine hcommands.imp_right ?_
    rintro ⟨hpending, j, t', hj, ht'⟩
    refine ⟨hpending, j, t', update_of (P := fun c => c = .stopJoining t') (fun hi => ?_) hj, ht'⟩
    rw [hc] at hi
    cases hi
  all_goals
    simp only [release, goTo]
    grind [Function.update_apply, HandleCall.task, HandleCall.isStarting]

/-- `stop` takes the handle. -/
theorem exclusive_take {s : Handles} {i t : ℕ} {c : HandleCall} (h : s.Exclusive)
    (hc : s.calls i = .stopTaking) (hhandle : s.scannerHandle = some t)
    (hnext : c = .stopSending t ∧ s.tasks t = .alive ∨ c = .stopJoining t) :
    ({ s.goTo i c with scannerHandle := none } : Handles).Exclusive := by
  have htask : c.task = some t := by rcases hnext with ⟨rfl, -⟩ | rfl <;> rfl
  have hstarts : c.isStarting = false := by rcases hnext with ⟨rfl, -⟩ | rfl <;> rfl
  obtain ⟨hstarting, hown, hreplaced, hone, hlocated, hunborn, hknown, hhand, hsending, hcommands⟩ := h
  have hnotask : ∀ t', (s.calls i).task ≠ some t' := by
    rw [hc]
    exact fun t' hcon => by cases hcon
  constructor
  case located =>
    -- The handle of a live task goes from the mutex to the call, or is where it was.
    intro t' ht'
    rcases hlocated t' ht' with hmutex | ⟨j, hj⟩
    · refine .inr ⟨i, ?_⟩
      rw [hhandle] at hmutex
      simpa [goTo, htask] using hmutex
    · have hne : j ≠ i := by
        rintro rfl
        exact hnotask t' hj
      exact .inr ⟨j, by simpa [goTo, Function.update_of_ne hne] using hj⟩
  case commands =>
    refine hcommands.imp_right ?_
    rintro ⟨hpending, j, t', hj, ht'⟩
    refine ⟨hpending, j, t', update_of (P := fun c => c = .stopJoining t') (fun hi => ?_) hj, ht'⟩
    rw [hc] at hi
    cases hi
  all_goals
    simp only [goTo]
    grind [Function.update_apply]

/-- `stop` sends its signal. -/
theorem exclusive_send {s : Handles} {i t : ℕ} (hlocked : s.Locked) (h : s.Exclusive)
    (hc : s.calls i = .stopSending t) :
    ({ s.goTo i (.stopJoining t) with commands := s.commands + 1 } : Handles).Exclusive := by
  have halive := h.sending i t hc
  have hnone : s.commands = 0 := by
    rcases h.commands with hzero | ⟨-, j, t', hj, -⟩
    · exact hzero
    · -- Another `stop` would have the lock.
      obtain rfl : i = j := hlocked.unique (by rw [hc]; rfl) (by rw [hj]; rfl)
      rw [hc] at hj
      cases hj
  obtain ⟨hstarting, hown, hreplaced, hone, hlocated, hunborn, hknown, hhand, hsending, hcommands⟩ := h
  -- A call that joins has the same handle as one that sends, and neither starts a scanner.
  have htasks : ∀ j, (Function.update s.calls i (.stopJoining t) j).task = (s.calls j).task := by
    intro j
    by_cases heq : j = i
    · subst heq
      rw [Function.update_self, hc]
      rfl
    · rw [Function.update_of_ne heq]
  have hstarts : ∀ j, (Function.update s.calls i (.stopJoining t) j).isStarting
      = (s.calls j).isStarting := by
    intro j
    by_cases heq : j = i
    · subst heq
      rw [Function.update_self, hc]
      rfl
    · rw [Function.update_of_ne heq]
  constructor
  case commands => exact .inr ⟨by simp [hnone], i, t, by simp [goTo], halive⟩
  all_goals
    simp only [goTo, htasks, hstarts]
    grind [Function.update_apply]

/-- A task ends, and no stop signal is left for it. -/
theorem exclusive_end {s : Handles} {t : ℕ} {ended : TaskState} (h : s.Exclusive)
    (halive : s.tasks t = .alive) (hended : ended ≠ .alive) (hborn : ended ≠ .unborn)
    (hstop : ∀ i, s.calls i ≠ .stopSending t) :
    ({ s with commands := 0, tasks := Function.update s.tasks t ended } : Handles).Exclusive := by
  obtain ⟨hstarting, hown, hreplaced, hone, hlocated, hunborn, hknown, hhand, hsending, hcommands⟩ := h
  constructor <;> simp only <;> grind [Function.update_apply]

/-- **Every step of a call** keeps at most one task alive. -/
theorem exclusive_advance {s s' : Handles} {i : ℕ} (hlocked : s.Locked) (h : s.Exclusive)
    (hserial : s.calls i = .runChecking → ∀ j, (s.calls j).isStarting = false)
    (hstep : Advances s i s') : s'.Exclusive := by
  cases hstep with
  | lock hc hnext hfree =>
      cases hnext <;> refine h.goes rfl rfl rfl rfl rfl ?_ ?_ ?_ ?_ ?_ <;>
        simp [hc, HandleCall.isStarting, HandleCall.task]
  | refuse hc | fail hc | create hc | stopNothing hc | answer hc | lockAgain hc =>
      refine h.goes rfl rfl rfl rfl rfl ?_ ?_ ?_ ?_ ?_ <;>
        simp [hc, HandleCall.isStarting, HandleCall.task]
  | pass hc hended => exact exclusive_pass hlocked h hc (hserial hc) hended
  | spawn hc => exact exclusive_spawn h hc
  | store hc => exact exclusive_store h hc
  | takeEnded hc hhandle hended => exact exclusive_take h hc hhandle (.inr rfl)
  | @take t hc hhandle hrunning =>
      -- The handle is that of a task that was spawned and has not ended.
      have hborn : s.tasks t ≠ .unborn := by
        rw [Ne, h.unborn]
        exact not_le.mpr (h.known t hhandle)
      exact exclusive_take h hc hhandle (.inl ⟨rfl, TaskState.eq_alive hrunning hborn⟩)
  | send hc => exact exclusive_send hlocked h hc
  | @stopped t result hc hjoin =>
      have hended := TaskState.ne_alive_of_isFinished
        (show (s.tasks t).isFinished = true by rw [TaskState.isFinished, hjoin]; rfl)
      refine h.goes rfl rfl rfl rfl rfl ?_ ?_ ?_ ?_ ?_ <;>
        simp [hc, HandleCall.isStarting, HandleCall.task, hended]
  | joined hc hended =>
      have hended := TaskState.ne_alive_of_isFinished hended
      refine h.goes rfl rfl rfl rfl rfl ?_ ?_ ?_ ?_ ?_ <;>
        simp [hc, HandleCall.isStarting, HandleCall.task, hended]
  | unlocked hc hfree =>
      -- A `status` that waits has the lock itself.
      have hlock := (hlocked.holds i).mp (by simp [hc, HandleCall.holdsLock])
      simp [hfree] at hlock

/-- **Every serial turn** keeps at most one task alive. -/
theorem exclusive_turn {t : Turn} {s s' : Handles} (hlocked : s.Locked) (h : s.Exclusive)
    (hserial : s.serial t = true) (hstep : Turns s t s') : s'.Exclusive := by
  cases hstep with
  | @begin _ c hholds htask hstarting hstop =>
      have hidle := hlocked.made s.made le_rfl
      refine h.goes rfl rfl rfl rfl rfl ?_ ?_ ?_ ?_ ?_
      · simp [hstarting]
      · simp [htask]
      · simp [hidle, HandleCall.task]
      · rintro t rfl
        simpa [HandleCall.isStopping] using hstop t
      · simp [hidle]
  | @advance i created _ hadvance =>
      refine exclusive_advance hlocked h (fun hc => ?_) hadvance
      simp only [serial, hc, ne_eq, not_true_eq_false, decide_false, Bool.false_or] at hserial
      exact all_calls hlocked rfl hserial
  | idle => exact h
  | @stop t halive hsome =>
      -- The signal is for this task, the only one alive.
      obtain ⟨hone, i, t', hjoining, -⟩ := h.commands.resolve_left hsome
      rw [show s.commands - 1 = 0 by omega]
      refine exclusive_end h halive (by decide) (by decide) fun j hsending => ?_
      obtain rfl : i = j := hlocked.unique (by rw [hjoining]; rfl) (by rw [hsending]; rfl)
      rw [hjoining] at hsending
      cases hsending
  | @panic t halive =>
      have hnot := fun j => all_calls hlocked (p := HandleCall.isStopping t) rfl hserial j
      -- A signal that is on its way is for another task, and there is none.
      have hnone : s.commands = 0 := by
        rcases h.commands with hzero | ⟨-, j, t', hjoining, ht'⟩
        · exact hzero
        · obtain rfl := h.one t t' halive ht'
          simpa [hjoining, HandleCall.isStopping] using hnot j
      rw [hnone]
      refine exclusive_end h halive (by decide) (by decide) fun j hsending => ?_
      simpa [hsending, HandleCall.isStopping] using hnot j

/-- **At most one scanner.** A `run` that looks at the handle while a task is alive returns
`AlreadyRunning`; one that goes on meets no live task but its own until its handle is stored. When a
`stop` that found a task returns, that task has ended and no stop signal is left. -/
theorem at_most_one_scanner {s : Handles} (h : Reachable serial s) :
    (∀ t t', s.tasks t = .alive → s.tasks t' = .alive → t = t') ∧
    (∀ i created t s', s.calls i = .runChecking → s.tasks t = .alive →
      s.serial (.call i created) = true → s.turn (.call i created) = some s' →
      s'.calls i = .runReturned (.error .alreadyRunning)) ∧
    (∀ i t, (s.calls i).isStarting = true → s.tasks t = .alive → (s.calls i).task = some t) ∧
    (∀ i created t result s', s.turn (.call i created) = some s' →
      s'.calls i = .stopReturned (some t) result → (s'.tasks t).isFinished = true ∧ s'.commands = 0) := by
  obtain ⟨hlocked, hexclusive⟩ := h.invariant exclusive_init
    (fun t s s' hlocked h hserial hstep => exclusive_turn hlocked h hserial hstep)
  refine ⟨hexclusive.one, ?_, hexclusive.own, ?_⟩
  · intro i created t s' hc ht hserial hturn
    simp only [serial, hc, ne_eq, not_true_eq_false, decide_false, Bool.false_or] at hserial
    have hstarting := all_calls hlocked rfl hserial
    cases advance_cases hturn with
    | refuse => simp [release, goTo]
    | pass _ hended => exact absurd ht (hexclusive.not_alive hlocked hc hstarting hended t)
    | lock hc' hnext =>
        obtain rfl := hc'.symm.trans hc
        cases hnext
    | _ => simp_all
  · intro i created t result s' hturn hreturned
    cases advance_cases hturn with
    | @stopped t' result' hc hjoin =>
        simp only [release, goTo, Function.update_self, HandleCall.stopReturned.injEq,
          Option.some.injEq] at hreturned
        obtain ⟨rfl, -⟩ := hreturned
        have hended : (s.tasks t').isFinished = true := by
          rw [TaskState.isFinished, hjoin]
          rfl
        -- A signal that is left would be for a live task that another `stop` is joining.
        refine ⟨hended, hexclusive.commands.resolve_right ?_⟩
        rintro ⟨-, j, t, hj, ht⟩
        obtain rfl : i = j := hlocked.unique (by rw [hc]; rfl) (by rw [hj]; rfl)
        rw [hc] at hj
        cases hj
        exact TaskState.ne_alive_of_isFinished hended ht
    | lock _ hnext =>
        obtain rfl := (Function.update_self i _ s.calls).symm.trans hreturned
        cases hnext
    | unlocked hc hfree =>
        have hlock := (hlocked.holds i).mp (by rw [hc]; rfl)
        rw [hfree] at hlock
        cases hlock
    | _ => simp [release, goTo] at hreturned

/-- A second `run` looks at the handle of the first. -/
theorem at_most_one_scanner_second : ∃ s : Handles, Reachable serial s ∧
    s.tasks 0 = .alive ∧ s.calls 1 = .runChecking ∧
    ∀ created s', s.turn (.call 1 created) = some s' →
      s'.calls 1 = .runReturned (.error .alreadyRunning) := by
  let first : List Turn := .run :: List.replicate 6 (.call 0 (.ok ()))
  have hreach := after_reaches
    (show after serial (first ++ [.run, .call 1 (.ok ())]) {} = some _ from rfl)
  refine ⟨_, hreach, rfl, rfl, fun created s' hturn => ?_⟩
  exact (at_most_one_scanner hreach).2.1 1 created 0 s' rfl rfl rfl hturn

/-- **Two scanners.** Both calls look at the handle before one of them stores its own, and both
start a scanner. -/
theorem two_scanners : ∃ s : Handles, Reachable (fun _ _ => true) s ∧
    s.tasks 0 = .alive ∧ s.tasks 1 = .alive ∧
    s.calls 0 = .runReturned (.ok ()) ∧ s.calls 1 = .runReturned (.ok ()) := by
  let first : List Turn := List.replicate 4 (.call 0 (.ok ()))
  let second : List Turn := List.replicate 4 (.call 1 (.ok ()))
  let looks : List Turn :=
    [.run, .run, .call 0 (.ok ()), .call 0 (.ok ()), .call 1 (.ok ()), .call 1 (.ok ())]
  have hreach := after_reaches
    (show after (fun _ _ => true) (looks ++ first ++ second) {} = some _ from rfl)
  exact ⟨_, hreach, rfl, rfl, rfl, rfl⟩

end AcceptXmr.Handles
