/-
Statements that change a schema.

A catalog holds tables, each with the text of its definition and its rows, and
indexes. A batch runs its statements in order until one is refused. What a row must
satisfy to be stored under a definition is a parameter, so nothing here depends on
what the rows are.

The messages are SQLite's, with foreign keys on. `INSERT … SELECT *` copies the rows in
the order they are stored; a row that violates a constraint of its own stops the copy
there, while foreign keys are looked up once all rows are in. `DROP TABLE` drops the
indexes of the table with it. SQLite would also delete the rows that refer to the table,
or refuse; that is left out here, so a batch may only drop tables no other refers to.
-/
import Mathlib.Data.List.Basic

set_option autoImplicit false

namespace Ddl

/-- A table: its name, its columns as they were declared, and its rows. -/
structure Table (ρ : Type) where
  name : String
  columns : String
  rows : List ρ
deriving DecidableEq

/-- An index, of which only the name and the table matter here. -/
structure Index where
  name : String
  table : String
  columns : String
deriving DecidableEq

/-- What a schema consists of. -/
structure Catalog (ρ : Type) where
  tables : List (Table ρ)
  indexes : List Index
deriving DecidableEq

/-- The statements of a migration, as far as it uses them. -/
inductive Statement where
  | create_table (name columns : String)
  | create_index (name table columns : String)
  | insert_select (target source : String)
  | drop_table (name : String)
  | rename_table (name target : String)
deriving DecidableEq

/-- The statement as it is written, on a line of its own. -/
def Statement.text : Statement → String
  | .create_table name columns => "CREATE TABLE " ++ name ++ " (" ++ columns ++ ");\n"
  | .create_index name table columns =>
    "CREATE INDEX " ++ name ++ " ON " ++ table ++ "(" ++ columns ++ ");\n"
  | .insert_select target source => "INSERT INTO " ++ target ++ " SELECT * FROM " ++ source ++ ";\n"
  | .drop_table name => "DROP TABLE " ++ name ++ ";\n"
  | .rename_table name target => "ALTER TABLE " ++ name ++ " RENAME TO " ++ target ++ ";\n"

section Execute

variable {ρ : Type}

/-- What a definition demands of the rows stored under it. -/
structure Constraints (ρ κ : Type) where
  /-- The message with which a row is refused under a definition. -/
  check : String → ρ → Option String
  /-- What a row refers to under a definition: a table, and the key of a row in it. A foreign key
  that is NULL refers to nothing. -/
  foreign_keys : String → ρ → List (String × κ)
  /-- The key by which a row is referred to. -/
  key : ρ → κ

namespace Catalog

/-- A file without a schema. -/
def empty : Catalog ρ := ⟨[], []⟩

/-- A table by its name. -/
def table (c : Catalog ρ) (name : String) : Option (Table ρ) :=
  c.tables.find? fun t => t.name = name

/-- An index by its name. -/
def index (c : Catalog ρ) (name : String) : Option Index :=
  c.indexes.find? fun i => i.name = name

/-- The rows of a table, none if there is no such table. -/
def rows (c : Catalog ρ) (name : String) : List ρ := ((c.table name).map Table.rows).getD []

/-- Rows are added to a table. -/
def insert (c : Catalog ρ) (target : String) (rows : List ρ) : Catalog ρ :=
  { c with tables := c.tables.map fun u =>
      if u.name = target then { u with rows := u.rows ++ rows } else u }

/-- A row, stored under this definition, refers to a row that is not there. -/
def dangling {κ : Type} [DecidableEq κ] (constraints : Constraints ρ κ) (c : Catalog ρ)
    (columns : String) (row : ρ) : Bool :=
  (constraints.foreign_keys columns row).any fun k =>
    !(c.rows k.1).any fun r => constraints.key r = k.2

end Catalog

variable {κ : Type} [DecidableEq κ]

/-- One statement. -/
def execute (constraints : Constraints ρ κ) : Statement → Catalog ρ → Except String (Catalog ρ)
  | .create_table name columns, c =>
    if (c.table name).isSome then .error ("table " ++ name ++ " already exists")
    else if (c.index name).isSome then .error ("there is already an index named " ++ name)
    else .ok { c with tables := c.tables ++ [⟨name, columns, []⟩] }
  | .create_index name table columns, c =>
    if (c.table table).isNone then .error ("no such table: main." ++ table)
    else if (c.table name).isSome then .error ("there is already a table named " ++ name)
    else if (c.index name).isSome then .error ("index " ++ name ++ " already exists")
    else .ok { c with indexes := c.indexes ++ [⟨name, table, columns⟩] }
  | .insert_select target source, c =>
    match c.table target, c.table source with
    | none, _ => .error ("no such table: " ++ target)
    | some _, none => .error ("no such table: " ++ source)
    | some t, some s =>
      match s.rows.findSome? (constraints.check t.columns) with
      | some refused => .error refused
      | none =>
        -- The rows copied may refer to each other, so this is the last thing the statement does.
        if s.rows.any ((c.insert target s.rows).dangling constraints t.columns) then
          .error "FOREIGN KEY constraint failed"
        else .ok (c.insert target s.rows)
  | .drop_table name, c =>
    if (c.table name).isNone then .error ("no such table: " ++ name)
    else .ok ⟨c.tables.filter fun t => t.name ≠ name, c.indexes.filter fun i => i.table ≠ name⟩
  | .rename_table name target, c =>
    if (c.table name).isNone then .error ("no such table: " ++ name)
    else if (c.table target).isSome ∨ (c.index target).isSome then
      .error ("there is already another table or index with this name: " ++ target)
    else .ok ⟨c.tables.map fun t => if t.name = name then { t with name := target } else t,
      c.indexes.map fun i => if i.table = name then { i with table := target } else i⟩

/-- A batch, up to the first statement that is refused. -/
def execute_batch (constraints : Constraints ρ κ) (statements : List Statement) (c : Catalog ρ) :
    Except String (Catalog ρ) :=
  statements.foldlM (fun c s => execute constraints s c) c

variable {constraints : Constraints ρ κ} {c : Catalog ρ} {s : Statement} {after : List Statement}

/-- No statements change nothing. -/
@[simp] theorem execute_batch_nil : execute_batch constraints [] c = .ok c := rfl

/-- A batch is executed statement by statement, up to the first that is refused. -/
@[simp] theorem execute_batch_cons : execute_batch constraints (s :: after) c =
    (execute constraints s c).bind (execute_batch constraints after) := rfl

/-- A copy between two tables that are there. -/
theorem execute_insert_select {target source : String} {t s : Table ρ}
    (ht : c.table target = some t) (hs : c.table source = some s) :
    execute constraints (.insert_select target source) c
      = match s.rows.findSome? (constraints.check t.columns) with
        | some refused => .error refused
        | none =>
          if s.rows.any ((c.insert target s.rows).dangling constraints t.columns) then
            .error "FOREIGN KEY constraint failed"
          else .ok (c.insert target s.rows) := by
  simp only [execute, ht, hs]

end Execute

end Ddl
