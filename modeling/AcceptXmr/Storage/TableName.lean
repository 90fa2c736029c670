import AcceptXmr.Library.Text

/-! # Table names

`TableName` of `library/src/storage/stores/sqlite.rs`, the statements it is formatted into, and the
reader of SQL for which it is made: what follows a quotation mark is an identifier up to the first
quotation mark that is not doubled.

* **`readIdentifier_tableName`** — a table name is read back, whatever follows it.
* **`tableName_safe`** — reading a statement gives the table's name and the statement's own text. -/

namespace AcceptXmr

open Text

/-- The quotation mark of SQL identifiers. -/
def quotationMark : Char := '"'

/-- The character that ends the text of a statement. -/
def nul : Char := Char.ofNat 0

/-- A table's name, as it stands in statements. -/
structure TableName where
  text : Text
  deriving DecidableEq, Repr

/-- `TableName::new`. -/
def TableName.new (table : Text) : TableName where
  text := quotationMark :: replace table [quotationMark] [quotationMark, quotationMark]
    ++ [quotationMark]

/-! ## The statements -/

/-- A statement about one table: the text before the table's name and the text after it. -/
structure Statement where
  before : Text
  after : Text

/-- `format!`. -/
def Statement.format (self : Statement) (table : TableName) : Text :=
  self.before ++ table.text ++ self.after

namespace Sqlite

/-- A text that is written in pieces. -/
def pieces (texts : List String) : Text := texts.flatMap String.toList

/-- The statements of the store, in the order of the source. The character behind the table's name
stands apart. -/
def statements : List Statement := [
  -- `new`
  ⟨"CREATE TABLE IF NOT EXISTS ".toList, ' ' :: pieces ["(\n                ",
      "major_subindex  INTEGER NOT NULL,\n                ",
      "minor_subindex  INTEGER NOT NULL,\n                ",
      "creation_height BLOB NOT NULL,\n                ",
      "invoice         BLOB NOT NULL,\n                ",
      "PRIMARY KEY (major_subindex, minor_subindex, creation_height)\n            );"]⟩,
  ⟨"CREATE TABLE IF NOT EXISTS ".toList, ' ' :: pieces ["(\n                ",
      "output_key BLOB NOT NULL,\n                ",
      "output_id  BLOB NOT NULL,\n                ",
      "PRIMARY KEY (output_key)\n            );"]⟩,
  ⟨"CREATE TABLE IF NOT EXISTS ".toList, ' ' :: pieces ["(\n                ",
      "id INTEGER NOT NULL PRIMARY KEY,\n                ",
      "height BLOB NOT NULL,\n                ",
      "CHECK (id = 0)\n            );"]⟩,
  -- `InvoiceStorage`
  ⟨"INSERT INTO ".toList,
    ' ' :: pieces ["(major_subindex, minor_subindex, creation_height, invoice) \n            ",
      "VALUES (:major, :minor, :height, :invoice);"]⟩,
  ⟨"DELETE FROM ".toList, '\n' :: pieces ["                    ",
      "WHERE major_subindex = :major AND minor_subindex = :minor AND creation_height = :height ",
      "RETURNING invoice"]⟩,
  ⟨"UPDATE ".toList, ' ' :: pieces ["SET invoice = :invoice \n                    ",
      "WHERE major_subindex = :major AND minor_subindex = :minor AND creation_height = :height"]⟩,
  ⟨"SELECT invoice FROM ".toList, '\n' :: pieces ["            ",
      "WHERE major_subindex = :major AND minor_subindex = :minor AND creation_height = :height"]⟩,
  ⟨"SELECT major_subindex, minor_subindex, creation_height FROM ".toList, []⟩,
  ⟨"SELECT COUNT(*) FROM ".toList, '\n' :: pieces ["            ",
      "WHERE major_subindex = :major AND minor_subindex = :minor"]⟩,
  ⟨"SELECT invoice FROM ".toList, []⟩,
  ⟨"SELECT EXISTS (SELECT 1 FROM ".toList, [')']⟩,
  -- `OutputKeyStorage`
  ⟨"INSERT INTO ".toList, ' ' :: pieces ["(output_key, output_id) \n            ",
      "VALUES (:output_key, :output_id);"]⟩,
  ⟨"SELECT output_id FROM ".toList, '\n' :: pieces ["            ",
      "WHERE output_key = :output_key"]⟩,
  -- `HeightStorage`
  ⟨"INSERT INTO ".toList, ' ' :: pieces ["(id, height) \n                ",
      "VALUES (0, :height)\n                ",
      "ON CONFLICT (id) DO UPDATE SET height=:height;"]⟩,
  ⟨"SELECT height FROM ".toList, '\n' :: pieces ["            ",
      "WHERE id = 0"]⟩]

end Sqlite

/-! ## Reading identifiers -/

/-- Read an identifier after its opening quotation mark: the identifier and the text behind it. -/
def readQuoted : Text → Option (Text × Text)
  | [] => none
  | [c] => if c = quotationMark then some ([], []) else none
  | c :: d :: rest =>
      if c = nul then none
      else if c = quotationMark then
        -- One character of look-ahead: a doubled mark stands for one.
        if d = quotationMark then (readQuoted rest).map fun r => (quotationMark :: r.1, r.2)
        else some ([], d :: rest)
      else (readQuoted (d :: rest)).map fun r => (c :: r.1, r.2)

/-- Read a quoted identifier from the front of a text. -/
def readIdentifier : Text → Option (Text × Text)
  | [] => none
  | c :: rest => if c = quotationMark then readQuoted rest else none

/-- The first quoted identifier of a statement: its text, and the text behind it. -/
def firstIdentifier (statement : Text) : Option (Text × Text) :=
  readIdentifier (statement.dropWhile fun c => decide (c ≠ quotationMark))

/-- The end of an identifier. -/
theorem readQuoted_end {rest : Text} (h : rest.head? ≠ some quotationMark) :
    readQuoted (quotationMark :: rest) = some ([], rest) := by
  cases rest with
  | nil => rfl
  | cons d rest =>
      have hd : d ≠ quotationMark := fun heq => h (congrArg some heq)
      rw [readQuoted, if_neg (by decide), if_pos rfl, if_neg hd]

/-- An ordinary character is read as it is. -/
theorem readQuoted_cons {c : Char} {rest : Text} (hnul : c ≠ nul) (hc : c ≠ quotationMark)
    (hrest : rest ≠ []) :
    readQuoted (c :: rest) = (readQuoted rest).map fun r => (c :: r.1, r.2) := by
  obtain ⟨d, rest, rfl⟩ := List.exists_cons_of_ne_nil hrest
  rw [readQuoted, if_neg hnul, if_neg hc]

/-- **What has been escaped is read back**, whatever follows the closing quotation mark. -/
theorem readQuoted_escaped {table rest : Text} (htable : nul ∉ table)
    (hrest : rest.head? ≠ some quotationMark) :
    readQuoted (replace table [quotationMark] [quotationMark, quotationMark] ++
      quotationMark :: rest) = some (table, rest) := by
  rw [replace_singleton]
  induction table with
  | nil => exact readQuoted_end hrest
  | cons c table ih =>
      rw [List.mem_cons, not_or] at htable
      have hread := ih htable.2
      rw [List.flatMap_cons, List.append_assoc]
      by_cases hc : c = quotationMark
      · subst hc
        rw [if_pos rfl, List.cons_append, List.cons_append, List.nil_append, readQuoted,
          if_neg (by decide), if_pos rfl, if_pos rfl, hread]
        rfl
      · rw [if_neg hc, List.singleton_append,
          readQuoted_cons (Ne.symm htable.1) hc (by simp), hread]
        rfl

/-- **A table name is read back**: the reader consumes all of it and no more. -/
theorem readIdentifier_tableName {table rest : Text} (htable : nul ∉ table)
    (hrest : rest.head? ≠ some quotationMark) :
    readIdentifier ((TableName.new table).text ++ rest) = some (table, rest) := by
  have hread := readQuoted_escaped htable hrest
  simp only [TableName.new, List.cons_append, List.append_assoc, List.nil_append, readIdentifier,
    if_true]
  exact hread

/-- In every statement the first quotation mark is that of the table's name, and the name is not
followed by another one. -/
theorem statements_surround :
    ∀ statement ∈ Sqlite.statements,
      quotationMark ∉ statement.before ∧ statement.after.head? ≠ some quotationMark := by
  decide +kernel

/-- **Table names are safe and lossless.** Reading a table name as a quoted identifier consumes all of
it and gives the table; in every statement the first identifier is the table, and what follows is the
statement's own text; and different tables have different names. -/
theorem tableName_safe {table : Text} (htable : nul ∉ table) :
    readIdentifier (TableName.new table).text = some (table, []) ∧
    (∀ statement ∈ Sqlite.statements,
      firstIdentifier (statement.format (TableName.new table)) = some (table, statement.after)) ∧
    ∀ table', nul ∉ table' → TableName.new table = TableName.new table' → table = table' := by
  have hread : ∀ table, nul ∉ table →
      readIdentifier (TableName.new table).text = some (table, []) := by
    intro table htable
    have hwhole : readIdentifier ((TableName.new table).text ++ []) = some (table, []) :=
      readIdentifier_tableName htable nofun
    rwa [List.append_nil] at hwhole
  refine ⟨hread table htable, fun statement hstatement => ?_, fun table' htable' heq => ?_⟩
  · obtain ⟨hbefore, hafter⟩ := statements_surround statement hstatement
    have hskip : (statement.format (TableName.new table)).dropWhile
        (fun c => decide (c ≠ quotationMark)) = (TableName.new table).text ++ statement.after := by
      rw [Statement.format, List.append_assoc, List.dropWhile_append_of_pos]
      · simp [TableName.new]
      · intro c hc
        exact decide_eq_true fun heq => hbefore (heq ▸ hc)
    rw [firstIdentifier, hskip, readIdentifier_tableName htable hafter]
  · have hsame := hread table htable
    rw [heq, hread table' htable'] at hsame
    exact (Prod.mk.inj (Option.some.inj hsame)).1.symm

/-- A table whose name has quotation marks at its ends and in its middle. -/
theorem tableName_safe_quotes :
    readIdentifier (TableName.new "\"a\"\"b\"".toList).text = some ("\"a\"\"b\"".toList, []) ∧
    (∀ statement ∈ Sqlite.statements,
      firstIdentifier (statement.format (TableName.new "\"a\"\"b\"".toList))
        = some ("\"a\"\"b\"".toList, statement.after)) ∧
    ∀ table', nul ∉ table' → TableName.new "\"a\"\"b\"".toList = TableName.new table' →
      "\"a\"\"b\"".toList = table' :=
  tableName_safe (by decide)

end AcceptXmr
