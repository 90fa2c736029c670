import Mathlib.Data.Nat.Notation
import Mathlib.Logic.Basic

/-! # Connections to a transactional database

A connection sees tables that are on disk only once they are committed. Outside an explicit
transaction every statement commits on its own; inside one, nothing is committed before `COMMIT`.
A failing statement may make the database roll the transaction back on its own, or leave it open.

The connection counts the rows that its last statement that writes has changed. A statement counts
when it ends: with the count of its rows if it succeeds, and with none if it fails. A statement that
has not even begun, because another connection holds a lock, has not ended before it is dropped, and
until then the count is that of an earlier statement.

* **`Related`** — two connections in step, and what keeps them so.
* **`along_iff`** — two properties of steps that agree in good states, and keep them good, agree
  along every run from a good state. -/

namespace AcceptXmr

/-! ## Connections -/

/-- A failing statement. -/
structure Failure (ε : Type) where
  error : ε
  /-- The database has rolled the transaction back on its own. -/
  rollsBack : Bool := false
  /-- The statement has not begun, because another connection holds a lock. -/
  locked : Bool := false
  deriving DecidableEq, Repr

/-- A connection: the tables on disk, the tables as its statements see them, whether an explicit
transaction is open, and how many rows the last statement that writes has changed. -/
structure Connection (σ : Type) where
  committed : σ
  working : σ
  inTransaction : Bool
  changes : ℕ

namespace Connection

variable {σ ε : Type}

/-- Between calls nothing is pending. -/
structure Settled (c : Connection σ) : Prop where
  closed : c.inTransaction = false
  saved : c.working = c.committed

/-- A connection with everything committed. -/
def ofTables (s : σ) (changes : ℕ) : Connection σ := ⟨s, s, false, changes⟩

/-- `COMMIT`. -/
def commit (c : Connection σ) : Connection σ := ofTables c.working c.changes

/-- `ROLLBACK`. -/
def rollBack (c : Connection σ) : Connection σ := ofTables c.committed c.changes

/-- `BEGIN`. It is an error inside an open transaction. -/
def beginTransaction (c : Connection σ) : Option (Connection σ) :=
  if c.inTransaction then none else some { c with inTransaction := true }

/-- What a statement does to the tables. -/
def write (f : σ → σ) (c : Connection σ) : Connection σ := { c with working := f c.working }

/-- A statement that writes has changed so many rows. -/
def counted (rows : ℕ) (c : Connection σ) : Connection σ := { c with changes := rows }

/-- The end of a statement. Without an open transaction it commits. -/
def finish (c : Connection σ) : Connection σ := if c.inTransaction then c else c.commit

/-- What a failing statement leaves. -/
def fail (failure : Failure ε) (c : Connection σ) : Connection σ :=
  if failure.rollsBack then c.rollBack else c

/-- What a failing statement that writes leaves, before it is dropped. -/
def failWrite (failure : Failure ε) (c : Connection σ) : Connection σ :=
  if failure.locked then c.fail failure else (c.fail failure).counted 0

/-- Outside a transaction there is nothing that a failure could roll back. -/
@[simp] theorem fail_ofTables (failure : Failure ε) (s : σ) (changes : ℕ) :
    (ofTables s changes).fail failure = ofTables s changes := by
  unfold fail
  split <;> rfl

/-- A write outside a transaction is counted. -/
@[simp] theorem counted_ofTables (s : σ) (changes rows : ℕ) :
    (ofTables s changes).counted rows = ofTables s rows := rfl

/-- A failure does not look at the count. -/
theorem counted_fail (failure : Failure ε) (c : Connection σ) (rows : ℕ) :
    (c.fail failure).counted rows = (c.counted rows).fail failure := by
  unfold fail
  split <;> rfl

/-- Once a failing statement has been dropped, no row has changed. -/
@[simp] theorem counted_failWrite (failure : Failure ε) (c : Connection σ) (rows : ℕ) :
    (c.failWrite failure).counted rows = (c.counted rows).fail failure := by
  unfold failWrite
  split <;> exact counted_fail failure c rows

/-- A statement kept from beginning by a lock leaves the count of the one before; any other one that
fails has changed no rows. -/
@[simp] theorem changes_failWrite (failure : Failure ε) (c : Connection σ) :
    (c.failWrite failure).changes = if failure.locked then c.changes else 0 := by
  unfold failWrite fail
  split <;> split <;> rfl

/-- A transaction begins on the committed tables. -/
@[simp] theorem beginTransaction_ofTables (s : σ) (changes : ℕ) :
    (ofTables s changes).beginTransaction = some ⟨s, s, true, changes⟩ := rfl

/-- A connection outside a transaction is settled. -/
theorem settled_ofTables (s : σ) (changes : ℕ) : (ofTables s changes).Settled := ⟨rfl, rfl⟩

/-- A settled connection is given by its tables and its count. -/
theorem Settled.eq_ofTables {c : Connection σ} (h : c.Settled) :
    c = ofTables c.committed c.changes := by
  obtain ⟨committed, working, inTransaction, changes⟩ := c
  obtain ⟨hclosed, hsaved⟩ := h
  dsimp only at hclosed hsaved
  rw [hclosed, hsaved, ofTables]

/-- A failure inside a transaction settles the connection exactly if it rolls back. -/
theorem settled_fail_iff {failure : Failure ε} {c : Connection σ} (h : c.inTransaction = true) :
    (c.fail failure).Settled ↔ failure.rollsBack = true := by
  unfold fail
  split
  · rename_i hback
    exact ⟨fun _ => hback, fun _ => settled_ofTables _ _⟩
  · rename_i hback
    exact ⟨fun hs => absurd (h.symm.trans hs.closed) (by simp), fun hb => absurd hb hback⟩

/-! ### Connections in step -/

section Related

variable {τ : Type} {R : σ → τ → Prop} {c : Connection σ} {d : Connection τ}

/-- **Two connections in step**: their tables are related, both have a transaction open or neither,
and the same number of rows has changed. -/
structure Related (R : σ → τ → Prop) (c : Connection σ) (d : Connection τ) : Prop where
  committed : R c.committed d.committed
  working : R c.working d.working
  inTransaction : c.inTransaction = d.inTransaction
  changes : c.changes = d.changes

/-- Connections with nothing pending are in step if their tables and counts are. -/
theorem related_ofTables {s : σ} {t : τ} (h : R s t) (changes : ℕ) :
    Related R (ofTables s changes) (ofTables t changes) :=
  ⟨h, h, rfl, rfl⟩

/-- Both connections commit. -/
theorem Related.commit (h : Related R c d) : Related R c.commit d.commit :=
  ⟨h.working, h.working, rfl, h.changes⟩

/-- Both connections roll back. -/
theorem Related.rollBack (h : Related R c d) : Related R c.rollBack d.rollBack :=
  ⟨h.committed, h.committed, rfl, h.changes⟩

/-- Statements that keep the tables related, as their transactions see them, keep the connections in
step. -/
theorem Related.write (h : Related R c d) {f : σ → σ} {g : τ → τ} (hw : R (f c.working) (g d.working)) :
    Related R (c.write f) (d.write g) := ⟨h.committed, hw, h.inTransaction, h.changes⟩

/-- On both connections the same number of rows has changed. -/
theorem Related.counted (h : Related R c d) (rows : ℕ) : Related R (c.counted rows) (d.counted rows) :=
  ⟨h.committed, h.working, h.inTransaction, rfl⟩

/-- Statements end on both connections, and commit on both or on neither. -/
theorem Related.finish (h : Related R c d) : Related R c.finish d.finish := by
  unfold Connection.finish
  rw [h.inTransaction]
  split
  · exact h
  · exact h.commit

/-- The same failure rolls both transactions back, or leaves both as they are. -/
theorem Related.fail (h : Related R c d) (failure : Failure ε) :
    Related R (c.fail failure) (d.fail failure) := by
  unfold Connection.fail
  split
  · exact h.rollBack
  · exact h

/-- So does a failure of statements that write. -/
theorem Related.failWrite (h : Related R c d) (failure : Failure ε) :
    Related R (c.failWrite failure) (d.failWrite failure) := by
  unfold Connection.failWrite
  split
  · exact h.fail failure
  · exact (h.fail failure).counted 0

/-- Both connections begin a transaction, or both refuse to. -/
theorem Related.beginTransaction (h : Related R c d) :
    (c.beginTransaction = none ∧ d.beginTransaction = none) ∨
    ∃ c' d', c.beginTransaction = some c' ∧ d.beginTransaction = some d' ∧ Related R c' d' := by
  unfold Connection.beginTransaction
  rw [h.inTransaction]
  split
  · exact .inl ⟨rfl, rfl⟩
  · exact .inr ⟨_, _, rfl, rfl, ⟨h.committed, h.working, rfl, h.changes⟩⟩

end Related

end Connection

/-! ## Properties along a run -/

section Along

variable {σ ι : Type}

/-- A property of every step of the run of a machine on some inputs. -/
def Along (step : σ → ι → σ) (P : σ → ι → Prop) : σ → List ι → Prop
  | _, [] => True
  | s, i :: rest => P s i ∧ Along step P (step s i) rest

/-- **Properties that agree in good states agree along runs**, if they keep the states good. -/
theorem along_iff {step : σ → ι → σ} {P Q : σ → ι → Prop} {G : σ → Prop}
    (hstep : ∀ s i, G s → P s i → G (step s i)) (hiff : ∀ s i, G s → (P s i ↔ Q s i))
    {s : σ} (hs : G s) (inputs : List ι) : Along step P s inputs ↔ Along step Q s inputs := by
  induction inputs generalizing s with
  | nil => exact Iff.rfl
  | cons i rest ih =>
      rw [Along, Along, ← hiff s i hs]
      exact and_congr_right fun hP => ih (hstep s i hs hP)

variable {step : σ → ι → σ} {P : σ → ι → Prop} {s : σ}

/-- A property along a run in two parts. -/
theorem along_append_iff {first rest : List ι} :
    Along step P s (first ++ rest) ↔ Along step P s first ∧ Along step P (first.foldl step s) rest := by
  induction first generalizing s with
  | nil => exact (and_iff_right trivial).symm
  | cons i first ih =>
      rw [List.cons_append, Along, Along, ih, List.foldl_cons, and_assoc]

/-- Steps that keep the states good lead to a good state. -/
theorem Along.good {G : σ → Prop} (hstep : ∀ s i, G s → P s i → G (step s i)) {inputs : List ι}
    (h : Along step P s inputs) (hs : G s) : G (inputs.foldl step s) := by
  induction inputs generalizing s with
  | nil => exact hs
  | cons i inputs ih => exact ih h.2 (hstep s i hs h.1)

end Along

end AcceptXmr
