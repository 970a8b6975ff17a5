import Clboss.SqlValueProofs

/-! # SQL tables with named columns — what schema changes do to rows

    A table is a list of columns and a list of rows, each a cell for each
    column in their order.  Statements name columns, so a row is read by NAME;
    what matters about a schema change is which names read the same cells after
    it.  A statement that SQLite refuses is `none`; the enclosing transaction is
    then rolled back.

    Texts are kept abstract: nothing is asked of them but whether two are
    equal. -/

namespace Sql

variable {T : Type}

/-! ## Tables -/

/-- The types of columns that are used. -/
inductive Affinity where
  | text
  | integer
  | real

/-- A column of a `CREATE TABLE`. -/
structure ColumnDef where
  name     : String
  affinity : Affinity
  notNull  : Bool

/-- A stored or computed value that may be a text. -/
inductive Cell (T : Type) where
  | text (t : T)
  | num (v : Value)
deriving DecidableEq

/-- How a number is stored in a column; a text stays one. -/
def Affinity.store : Affinity → Cell T → Cell T
  | .integer, .num v      => .num v.integerAffinity
  | .real, .num (.int n)  => .num (.real (Double.ofInt n))
  | _, c                  => c

/-- A table: its columns, which of them are the key, and its rows. -/
structure RawTable (T : Type) where
  columns    : List ColumnDef
  primaryKey : List String
  rows       : List (List (Cell T))

namespace RawTable

def names (t : RawTable T) : List String := t.columns.map ColumnDef.name

/-- The cell of a row in the column of that name. -/
def cell (t : RawTable T) (row : List (Cell T)) (name : String) : Option (Cell T) :=
  (t.names.zip row).lookup name

/-- The cells of the primary key. -/
def key (t : RawTable T) (row : List (Cell T)) : List (Option (Cell T)) :=
  t.primaryKey.map (t.cell row)

/-- A row of the cells named, in the order of the columns; `NULL` for the rest. -/
def arrange (t : RawTable T) (cells : List (String × Cell T)) : List (Cell T) :=
  t.columns.map (fun c => c.affinity.store ((cells.lookup c.name).getD (.num .null)))

/-- `INSERT INTO`, refused for an unknown column, a `NULL` in a `NOT NULL`
    column and a key that is taken. -/
def insert [DecidableEq T] (t : RawTable T) (cells : List (String × Cell T)) :
    Option (RawTable T) :=
  let row := t.arrange cells
  if (∀ c ∈ cells, c.1 ∈ t.names)
      ∧ (∀ c ∈ t.columns.zip row, c.1.notNull = true → c.2 ≠ .num .null)
      ∧ t.key row ∉ t.rows.map t.key then
    some { t with rows := t.rows ++ [row] }
  else none

/-- An expression of a `SELECT`. -/
inductive Expr (T : Type) where
  | column (name : String)
  | const (c : Cell T)

/-- Its value in a row. -/
def Expr.eval (t : RawTable T) (row : List (Cell T)) : Expr T → Option (Cell T)
  | .column name => t.cell row name
  | .const c     => some c

/-- The column is there. -/
def Expr.known (t : RawTable T) : Expr T → Bool
  | .column name => decide (name ∈ t.names)
  | .const _     => true

/-- `SELECT`, refused for an unknown column. -/
def select (t : RawTable T) (exprs : List (Expr T)) : Option (List (List (Cell T))) :=
  if exprs.all (Expr.known t) then t.rows.mapM (fun row => exprs.mapM (Expr.eval t row)) else none

/-- `ALTER TABLE … ADD COLUMN … DEFAULT`. -/
def addColumn (t : RawTable T) (c : ColumnDef) (dflt : Cell T) : Option (RawTable T) :=
  if c.name ∈ t.names then none
  else some { t with columns := t.columns ++ [c], rows := t.rows.map (· ++ [dflt]) }

/-- Every row has a cell for each column, and no two columns have one name. -/
structure Shaped (t : RawTable T) : Prop where
  names_nodup : t.names.Nodup
  width       : ∀ row ∈ t.rows, row.length = t.names.length

/-! ## Reading by name -/

/-- A row has a cell in each column. -/
theorem cell_isSome {t : RawTable T} {row : List (Cell T)} (hw : row.length = t.names.length)
    {name : String} (h : name ∈ t.names) : ∃ c, t.cell row name = some c := by
  have hmem : name ∈ (t.names.zip row).map Prod.fst := by
    rw [List.map_fst_zip (Nat.le_of_eq hw.symm)]
    exact h
  cases hc : t.cell row name with
  | some c => exact ⟨c, rfl⟩
  | none =>
      obtain ⟨e, he, rfl⟩ := List.mem_map.mp hmem
      exact absurd (List.lookup_eq_none_iff.mp hc e he) (by simp)

/-- And in no other. -/
theorem cell_eq_none {t : RawTable T} {row : List (Cell T)} {name : String}
    (h : name ∉ t.names) : t.cell row name = none := by
  refine List.lookup_eq_none_iff.mpr (fun e he => ?_)
  have hmem := List.of_mem_zip he
  refine bne_iff_ne.mpr ?_
  rintro rfl
  exact h hmem.1

/-- The columns and cells that were there read as before, and the new ones
    after them. -/
theorem cell_append {t t' : RawTable T} {row : List (Cell T)} {added : List String}
    {cells : List (Cell T)} (hw : row.length = t.names.length)
    (hnames : t'.names = t.names ++ added) (name : String) :
    t'.cell (row ++ cells) name = (t.cell row name).or ((added.zip cells).lookup name) := by
  unfold cell
  rw [hnames, List.zip_append hw.symm, List.lookup_append]

end RawTable

/-! ## Databases -/

/-- The tables by name, and the indexes with the tables they are of. -/
structure Database (T : Type) where
  tables  : String → Option (RawTable T)
  indexes : List (String × String)

namespace Database

def set (db : Database T) (name : String) (t : Option (RawTable T)) : Database T :=
  { db with tables := fun n => if n = name then t else db.tables n }

@[simp] theorem tables_set_self (db : Database T) (name : String) (t : Option (RawTable T)) :
    (db.set name t).tables name = t := by
  simp [set]

@[simp] theorem tables_set_ne (db : Database T) {name n : String} (t : Option (RawTable T))
    (h : n ≠ name) : (db.set name t).tables n = db.tables n := by
  simp [set, h]

/-- `pragma_table_info`: the columns; none for a table there is not. -/
def tableInfo (db : Database T) (name : String) : List String :=
  match db.tables name with
  | none   => []
  | some t => t.names

/-- `CREATE TABLE IF NOT EXISTS`. -/
def createTableIfNotExists (db : Database T) (name : String) (t : RawTable T) : Database T :=
  match db.tables name with
  | none   => db.set name (some t)
  | some _ => db

/-- `INSERT INTO … SELECT`. -/
def insertSelect [DecidableEq T] (db : Database T) (into : String) (cols : List String)
    (source : String) (exprs : List (RawTable.Expr T)) : Option (Database T) :=
  (db.tables into).bind (fun t =>
    (db.tables source).bind (fun t' =>
      (t'.select exprs).bind (fun rows =>
        (rows.foldlM (fun (t : RawTable T) row => t.insert (cols.zip row)) t).map (fun t =>
          db.set into (some t)))))

/-- `DROP TABLE`, with its indexes. -/
def dropTable (db : Database T) (name : String) : Option (Database T) :=
  (db.tables name).map (fun _ =>
    { db.set name none with indexes := db.indexes.filter (fun i => i.2 ≠ name) })

/-- `ALTER TABLE … RENAME TO`; its indexes follow. -/
def renameTable (db : Database T) (name name' : String) : Option (Database T) :=
  match db.tables name, db.tables name' with
  | some t, none => some
      { (db.set name none).set name' (some t) with
        indexes := db.indexes.map (fun i => if i.2 = name then (i.1, name') else i) }
  | _, _ => none

def addColumn (db : Database T) (name : String) (c : ColumnDef) (dflt : Cell T) :
    Option (Database T) :=
  (db.tables name).bind (fun t => (t.addColumn c dflt).map (fun t => db.set name (some t)))

/-- `CREATE INDEX IF NOT EXISTS`. -/
def createIndexIfNotExists (db : Database T) (index table : String) : Option (Database T) :=
  (db.tables table).map (fun _ =>
    if index ∈ db.indexes.map Prod.fst then db
    else { db with indexes := db.indexes ++ [(index, table)] })

/-! ## What the statements do -/

/-- A table is made where there was none. -/
theorem createTableIfNotExists_of_none {db : Database T} {name : String}
    (h : db.tables name = none) (t : RawTable T) :
    db.createTableIfNotExists name t = db.set name (some t) := by
  unfold createTableIfNotExists
  rw [h]

theorem tableInfo_of_some {db : Database T} {name : String} {t : RawTable T}
    (h : db.tables name = some t) : db.tableInfo name = t.names := by
  unfold tableInfo
  rw [h]

/-- Rows are read from one table and put into another. -/
theorem insertSelect_eq [DecidableEq T] {db : Database T} {into source : String}
    {cols : List String} {exprs : List (RawTable.Expr T)} {t t' t'' : RawTable T}
    {rows : List (List (Cell T))} (hinto : db.tables into = some t)
    (hsource : db.tables source = some t') (hselect : t'.select exprs = some rows)
    (hinsert : rows.foldlM (fun (t : RawTable T) row => t.insert (cols.zip row)) t = some t'') :
    db.insertSelect into cols source exprs = some (db.set into (some t'')) := by
  unfold insertSelect
  rw [hinto, hsource]
  simp only [Option.bind_some, hselect, hinsert, Option.map_some]

/-- **DROP**: the table is gone, the others stay. -/
theorem dropTable_spec {db : Database T} {name : String} {t : RawTable T}
    (h : db.tables name = some t) :
    ∃ db', db.dropTable name = some db' ∧ db'.tables name = none
      ∧ ∀ n, n ≠ name → db'.tables n = db.tables n := by
  refine ⟨_, by rw [dropTable, h, Option.map_some], ?_, fun n hn => ?_⟩
  · exact tables_set_self db name none
  · exact tables_set_ne db none hn

/-- **RENAME**: the table is there under the new name. -/
theorem renameTable_spec {db : Database T} {name name' : String} {t : RawTable T}
    (h : db.tables name = some t) (h' : db.tables name' = none) :
    ∃ db', db.renameTable name name' = some db' ∧ db'.tables name' = some t := by
  unfold renameTable
  rw [h, h']
  exact ⟨_, rfl, tables_set_self _ name' (some t)⟩

/-- **INDEX**: no table changes. -/
theorem createIndexIfNotExists_spec {db : Database T} {table : String} {t : RawTable T}
    (h : db.tables table = some t) (index : String) :
    ∃ db', db.createIndexIfNotExists index table = some db' ∧ db'.tables = db.tables := by
  refine ⟨_, by rw [createIndexIfNotExists, h, Option.map_some], ?_⟩
  split
  · rfl
  · rfl

end Database

end Sql
