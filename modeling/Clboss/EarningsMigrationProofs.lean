import Clboss.EarningsTrackerProofs
import Clboss.SqlSchemaProofs

/-! # EarningsTracker — starting on an older database

    `init` runs at every start.  It finds no table, the LEGACY one with one row
    for a node, or a BUCKET table, maybe without the columns added last.  The
    queries of `EarningsTrackerProofs` read the table it leaves behind; what
    they report is compared here with what the table before it held. -/

namespace EarningsTracker

open Sql Ln UniqueTable

variable {N : Type} [DecidableEq N]

/-! ## The statements -/

/-- The name of a column. -/
def Column.name : Column → String
  | .inEarnings      => "in_earnings"
  | .inForwarded     => "in_forwarded"
  | .inExpenditures  => "in_expenditures"
  | .inRebalanced    => "in_rebalanced"
  | .outEarnings     => "out_earnings"
  | .outForwarded    => "out_forwarded"
  | .outExpenditures => "out_expenditures"
  | .outRebalanced   => "out_rebalanced"

/-- `CREATE TABLE IF NOT EXISTS EarningsTracker_New`. -/
def newTable : RawTable N where
  columns :=
    [ ⟨"node", .text, true⟩
    , ⟨"time_bucket", .real, true⟩
    , ⟨"in_earnings", .integer, true⟩
    , ⟨"in_forwarded", .integer, true⟩
    , ⟨"in_expenditures", .integer, true⟩
    , ⟨"in_rebalanced", .integer, true⟩
    , ⟨"out_earnings", .integer, true⟩
    , ⟨"out_forwarded", .integer, true⟩
    , ⟨"out_expenditures", .integer, true⟩
    , ⟨"out_rebalanced", .integer, true⟩ ]
  primaryKey := ["node", "time_bucket"]
  rows := []

/-- The columns of the `INSERT` that migrates. -/
def migratedColumns : List String :=
  [ "node", "time_bucket", "in_earnings", "in_expenditures"
  , "out_earnings", "out_expenditures", "in_forwarded"
  , "in_rebalanced", "out_forwarded", "out_rebalanced" ]

/-- Its `SELECT`. -/
def migratedExprs : List (RawTable.Expr N) :=
  [ .column "node", .const (.num (.int 0)), .column "in_earnings", .column "in_expenditures"
  , .column "out_earnings", .column "out_expenditures", .const (.num (.int 0))
  , .const (.num (.int 0)), .const (.num (.int 0)), .const (.num (.int 0)) ]

/-- `have_bucket_table`. -/
def haveBucketTable (db : Database N) : Bool :=
  decide ("time_bucket" ∈ db.tableInfo "EarningsTracker")

/-- `have_legacy_table`. -/
def haveLegacyTable (db : Database N) : Bool :=
  decide ("node" ∈ db.tableInfo "EarningsTracker")

/-- `columns_to_check`. -/
def columnsToCheck : List String :=
  ["in_forwarded", "in_rebalanced", "out_forwarded", "out_rebalanced"]

/-- `INTEGER NOT NULL DEFAULT 0`. -/
def addedColumn (name : String) : ColumnDef := ⟨name, .integer, true⟩

/-- `add_missing_columns`. -/
def addMissingColumns (db : Database N) : Option (Database N) :=
  let existingColumns := db.tableInfo "EarningsTracker"
  columnsToCheck.foldlM (fun (db : Database N) name =>
    if name ∈ existingColumns then some db
    else db.addColumn "EarningsTracker" (addedColumn name) (.num (.int 0))) db

/-- `init`, one transaction. -/
def init (db : Database N) : Option (Database N) :=
  if haveBucketTable db then addMissingColumns db
  else do
    let db := db.createTableIfNotExists "EarningsTracker_New" newTable
    let db ← if haveLegacyTable db then do
        let db ← db.insertSelect "EarningsTracker_New" migratedColumns
          "EarningsTracker" migratedExprs
        db.dropTable "EarningsTracker"
      else some db
    let db ← db.renameTable "EarningsTracker_New" "EarningsTracker"
    let db ← db.createIndexIfNotExists "idx_earnings_tracker_node_time" "EarningsTracker"
    db.createIndexIfNotExists "idx_earnings_tracker_time_node" "EarningsTracker"

/-! ## What a table holds -/

/-- The number in a cell. -/
def value? : Option (Cell N) → Option Value
  | some (.num v) => some v
  | _             => none

/-- What a column of type `INTEGER NOT NULL` can hold. -/
def Stored : Value → Prop
  | .null   => False
  | .int n  => InRange n
  | .real x => x ≠ .nan ∧ (∀ q, x = .finite q → Double.ofRat q = x)
      ∧ (Value.real x).integerAffinity = .real x

/-- The columns every schema has. -/
def baseColumns : List Column := [.inEarnings, .inExpenditures, .outEarnings, .outExpenditures]

/-- A table of any of the schemas. -/
structure Held (t : RawTable N) : Prop extends RawTable.Shaped t where
  node_mem : "node" ∈ t.names
  base_mem : ∀ c ∈ baseColumns, c.name ∈ t.names
  node     : ∀ row ∈ t.rows, ∃ n, t.cell row "node" = some (.text n)
  cells    : ∀ row ∈ t.rows, ∀ c : Column, c.name ∈ t.names →
    ∃ v, t.cell row c.name = some (.num v) ∧ Stored v
  keys     : (t.rows.map t.key).Nodup

/-- The legacy table: one row for a node. -/
structure Legacy (t : RawTable N) : Prop extends Held t where
  primaryKey : t.primaryKey = ["node"]
  no_bucket  : "time_bucket" ∉ t.names
  no_newer   : ∀ name ∈ columnsToCheck, name ∉ t.names

/-- A bucket table, with any of the columns added last. -/
structure Bucketed (t : RawTable N) : Prop extends Held t where
  primaryKey : t.primaryKey = ["node", "time_bucket"]
  bucket_mem : "time_bucket" ∈ t.names
  bucket     : ∀ row ∈ t.rows, ∃ x, t.cell row "time_bucket" = some (.num (.real x))

/-- A database `init` may find; the table with the temporary name only exists
    within its transaction. -/
structure Recognised (db : Database N) : Prop where
  no_temporary : db.tables "EarningsTracker_New" = none
  schema       : ∀ t, db.tables "EarningsTracker" = some t → Legacy t ∨ Bucketed t

/-! ## What is stored -/

/-- The rows of a node. -/
def rowsOf (t : RawTable N) (node : N) : List (List (Cell N)) :=
  t.rows.filter (fun row => t.cell row "node" = some (.text node))

/-- What the rows of a node hold in a column; nothing if there is no such
    column. -/
def held (t : RawTable N) (node : N) (c : Column) : List Value :=
  (rowsOf t node).filterMap (fun row => value? (t.cell row c.name))

/-- The lifetime total of a node: the sum over the buckets, or what the one
    legacy row holds. -/
def storedTotal (t : RawTable N) (node : N) (c : Column) : Except Overflow Value :=
  if "time_bucket" ∈ t.names then Sql.sum (held t node c)
  else .ok ((held t node c).head?.getD .null)

/-- All of them. -/
def storedData (db : Database N) (node : N) : Except Overflow EarningsData :=
  match db.tables "EarningsTracker" with
  | none   => .ok EarningsData.zero
  | some t => (selected.mapM (storedTotal t node)).map (fun vs => EarningsData.fromRow vs 0)

/-- The text in a cell. -/
def text? : Option (Cell N) → Option N
  | some (.text n) => some n
  | _              => none

/-- The nodes that have rows. -/
def storedNodes (db : Database N) : List N :=
  match db.tables "EarningsTracker" with
  | none   => []
  | some t => (t.rows.filterMap (fun row => text? (t.cell row "node"))).dedup

/-- The same as a report. -/
def storedReport (db : Database N) : Except Overflow (Report N) := do
  let entries ← (storedNodes db).mapM (fun n => do
    let d ← storedData db n
    return (n, d))
  return Report.of entries

/-! ## How the queries read a table -/

/-- A row as the queries see it. -/
def readRow (t : RawTable N) (row : List (Cell N)) : Option (Row N) :=
  match t.cell row "node", t.cell row "time_bucket" with
  | some (.text n), some (.num (.real x)) =>
      some ⟨n, x, fun c => (value? (t.cell row c.name)).getD .null⟩
  | _, _ => none

/-- The rows of the table are those of `b`, with a number in every column. -/
structure Reads (t : RawTable N) (b : Buckets N) : Prop where
  bucket : "time_bucket" ∈ t.names
  cells  : ∀ row ∈ t.rows, ∀ c : Column, ∃ v, t.cell row c.name = some (.num v)
  rows   : t.rows.map (readRow t) = b.rows.map some

/-! ## Totals are words -/

/-- `EarningsData` of eight words. -/
def ofWords (ws : List UInt64) : EarningsData where
  inEarnings      := ws.getD 0 0
  inForwarded     := ws.getD 1 0
  inExpenditures  := ws.getD 2 0
  inRebalanced    := ws.getD 3 0
  outEarnings     := ws.getD 4 0
  outForwarded    := ws.getD 5 0
  outExpenditures := ws.getD 6 0
  outRebalanced   := ws.getD 7 0

theorem fromRow_eq (vs : List Value) :
    EarningsData.fromRow vs 0 = ofWords (vs.map Value.getUInt64) := by
  have hget : ∀ i, (vs.getD i .null).getUInt64 = (vs.map Value.getUInt64).getD i 0 := by
    intro i
    rw [List.getD_eq_getElem?_getD, List.getD_eq_getElem?_getD, List.getElem?_map]
    cases vs[i]? with
    | none => rfl
    | some v => rfl
  simp only [EarningsData.fromRow, ofWords, hget, Nat.zero_add]

theorem mapM_map_words (f : Column → Except Overflow Value) (l : List Column) :
    (l.mapM f).map (List.map Value.getUInt64)
      = l.mapM (fun c => (f c).map Value.getUInt64) := by
  induction l with
  | nil => rfl
  | cons c l ih =>
      rw [List.mapM_cons, List.mapM_cons, ← ih]
      cases f c with
      | error e => rfl
      | ok v =>
          cases l.mapM f with
          | error e => rfl
          | ok vs => rfl

/-- Totals that are read as the same words make the same data. -/
theorem data_congr {f g : Column → Except Overflow Value}
    (h : ∀ c, (f c).map Value.getUInt64 = (g c).map Value.getUInt64) :
    (selected.mapM f).map (fun vs => EarningsData.fromRow vs 0)
      = (selected.mapM g).map (fun vs => EarningsData.fromRow vs 0) := by
  have hwords : ∀ f : Column → Except Overflow Value,
      (selected.mapM f).map (fun vs => EarningsData.fromRow vs 0)
        = (selected.mapM (fun c => (f c).map Value.getUInt64)).map ofWords := by
    intro f
    rw [← mapM_map_words]
    cases selected.mapM f with
    | error e => rfl
    | ok vs => exact congrArg Except.ok (fromRow_eq vs)
  rw [hwords f, hwords g, funext h]

/-- The sum of zeros is read as zero, also if there are none. -/
theorem sum_zeros {α : Type} (l : List α) :
    (Sql.sum (l.map (fun _ => Value.int 0))).map Value.getUInt64 = .ok 0 := by
  cases l with
  | nil => rfl
  | cons a l =>
      have hzero : ∀ l : List α, (l.map (fun _ => (0 : ℕ))).sum = 0 := by
        intro l
        simp
      have hsmall : ((a :: l).map (fun _ => (0 : ℕ))).sum < 2 ^ 63 := by
        rw [hzero]
        norm_num
      have hsum := sum_natCast (by simp) hsmall
      rw [List.map_map, hzero] at hsum
      rw [show (fun _ : α => Value.int 0)
        = (fun n : ℕ => Value.int (n : ℤ)) ∘ (fun _ => 0) from rfl, hsum]
      rfl

/-- A stored value is its own sum. -/
theorem sum_stored {v : Value} (h : Stored v) : Sql.sum [v] = .ok v := by
  cases v with
  | null => exact h.elim
  | int n =>
      have hin : InRange n := h
      have hints : Sql.sum [.int n] = (sumInts 0 [n]).map .int := rfl
      rw [hints]
      simp only [sumInts, zero_add, if_pos hin]
      rfl
  | real x =>
      have hreal : Sql.sum [.real x] = .ok (.real ((Double.finite 0).add x)) := rfl
      rw [hreal]
      obtain ⟨hnan, hdouble, -⟩ := h
      cases x with
      | finite q =>
          show Except.ok (Value.real (Double.ofRat (0 + q))) = _
          rw [zero_add, hdouble q rfl]
      | posInf => rfl
      | negInf => rfl
      | nan => exact absurd rfl hnan

/-! ## Reports are of what is stored -/

omit [DecidableEq N] in
theorem node_readRow {t : RawTable N} {row : List (Cell N)} {r : Row N}
    (h : readRow t row = some r) : t.cell row "node" = some (.text r.node) := by
  unfold readRow at h
  split at h
  · rename_i n x hn hx
    cases h
    exact hn
  · cases h

omit [DecidableEq N] in
theorem cell_readRow {t : RawTable N} {row : List (Cell N)} {r : Row N}
    (h : readRow t row = some r) (c : Column) :
    r.cell c = (value? (t.cell row c.name)).getD .null := by
  unfold readRow at h
  split at h
  · cases h
    rfl
  · cases h

/-- The rows of a node, as the queries see them. -/
theorem held_eq {t : RawTable N} {b : Buckets N} (h : Reads t b) (node : N) (c : Column) :
    (b.rows.filter (fun r => r.node = node)).map (fun r => r.cell c) = held t node c := by
  have hall : ∀ (rows : List (List (Cell N))) (brows : List (Row N)),
      (∀ row ∈ rows, ∃ v, t.cell row c.name = some (.num v)) →
      rows.map (readRow t) = brows.map some →
      (brows.filter (fun r => r.node = node)).map (fun r => r.cell c)
        = (rows.filter (fun row => t.cell row "node" = some (.text node))).filterMap
          (fun row => value? (t.cell row c.name)) := by
    intro rows
    induction rows with
    | nil =>
        intro brows _ hmap
        rw [List.map_eq_nil_iff.mp hmap.symm]
        rfl
    | cons row rows ih =>
        intro brows hcells hmap
        obtain ⟨r, brows', rfl, hr, hrest⟩ := List.map_eq_cons_iff.mp hmap.symm
        have hrow : readRow t row = some r := hr.symm
        obtain ⟨v, hv⟩ := hcells row (List.mem_cons_self)
        have hcell : r.cell c = v := by
          rw [cell_readRow hrow, hv]
          rfl
        have hrec := ih brows' (fun row' hmem => hcells row' (List.mem_cons_of_mem _ hmem))
          hrest.symm
        have hnode := node_readRow hrow
        by_cases hn : r.node = node
        · rw [List.filter_cons_of_pos (by simpa using hn),
            List.filter_cons_of_pos (by simp [hnode, hn]), List.map_cons, List.filterMap_cons, hv,
            hrec, hcell]
          rfl
        · rw [List.filter_cons_of_neg (by simpa using hn),
            List.filter_cons_of_neg (by simpa [hnode] using hn), hrec]
  exact hall t.rows b.rows (fun row hmem => h.cells row hmem c) h.rows

/-- **SPEC**: after `init` the queries report the totals of the table. -/
theorem selectSums_reads {t : RawTable N} {b : Buckets N} (h : Reads t b) (node : N) :
    selectSums (b.rows.filter (fun r => r.node = node)) = selected.mapM (storedTotal t node) := by
  have hsum : (fun c => Sql.sum ((b.rows.filter (fun r => r.node = node)).map (fun r => r.cell c)))
      = storedTotal t node := by
    funext c
    rw [held_eq h, storedTotal, if_pos h.bucket]
  unfold selectSums
  rw [hsum]

omit [DecidableEq N] in
theorem nodes_reads {t : RawTable N} {b : Buckets N} (h : Reads t b) :
    b.rows.map Row.node = t.rows.filterMap (fun row => text? (t.cell row "node")) := by
  have hall : ∀ (rows : List (List (Cell N))) (brows : List (Row N)),
      rows.map (readRow t) = brows.map some →
      brows.map Row.node = rows.filterMap (fun row => text? (t.cell row "node")) := by
    intro rows
    induction rows with
    | nil =>
        intro brows hmap
        rw [List.map_eq_nil_iff.mp hmap.symm]
        rfl
    | cons row rows ih =>
        intro brows hmap
        obtain ⟨r, brows', rfl, hr, hrest⟩ := List.map_eq_cons_iff.mp hmap.symm
        rw [List.map_cons, ih brows' hrest.symm, List.filterMap_cons,
          node_readRow (show readRow t row = some r from hr.symm)]
        rfl
  exact hall t.rows b.rows h.rows

theorem storedData_some {db : Database N} {t : RawTable N}
    (ht : db.tables "EarningsTracker" = some t) (node : N) :
    storedData db node
      = (selected.mapM (storedTotal t node)).map (fun vs => EarningsData.fromRow vs 0) := by
  unfold storedData
  rw [ht]

/-- `request_earnings_info` reports what is stored. -/
theorem requestEarningsInfo_reads {db : Database N} {t : RawTable N} {b : Buckets N}
    (ht : db.tables "EarningsTracker" = some t) (h : Reads t b) (node : N) :
    (requestEarningsInfo b node).map ResponseEarningsInfo.get
      = (storedData db node).map (fun d c => .msat (d.get c)) := by
  unfold requestEarningsInfo
  rw [storedData_some ht, selectSums_reads h]
  cases selected.mapM (storedTotal t node) with
  | error e => rfl
  | ok vs =>
      have hget : ∀ (d : EarningsData) (c : Column),
          ResponseEarningsInfo.get ⟨node, .msat d.inEarnings, .msat d.inExpenditures,
            .msat d.outEarnings, .msat d.outExpenditures, .msat d.inForwarded,
            .msat d.inRebalanced, .msat d.outForwarded, .msat d.outRebalanced⟩ c
          = .msat (d.get c) := by
        intro d c
        cases c with
        | _ => rfl
      exact congrArg Except.ok (funext (hget (EarningsData.fromRow vs 0)))

/-- `status` reports what is stored. -/
theorem status_reads {db : Database N} {t : RawTable N} {b : Buckets N}
    (ht : db.tables "EarningsTracker" = some t) (h : Reads t b) :
    status b = storedReport db := by
  have hnodes : (b.rows.map Row.node).dedup = storedNodes db := by
    unfold storedNodes
    rw [nodes_reads h, ht]
  have hentry : (fun n => do
        let r ← selectSums (b.rows.filter (fun r => r.node = n))
        return (n, EarningsData.fromRow r 0))
      = (fun n => do
        let d ← storedData db n
        return (n, d)) := by
    funext n
    rw [selectSums_reads h, storedData_some ht]
    cases selected.mapM (storedTotal t n) with
    | error e => rfl
    | ok vs => rfl
  unfold status groupBy storedReport
  rw [hnodes, hentry]

omit [DecidableEq N] in
/-- A table of numbers with the key of buckets can be read. -/
theorem exists_reads {t : RawTable N} (hkey : t.primaryKey = ["node", "time_bucket"])
    (hbucket : "time_bucket" ∈ t.names)
    (hrow : ∀ row ∈ t.rows, ∃ n x, t.cell row "node" = some (.text n)
      ∧ t.cell row "time_bucket" = some (.num (.real x)))
    (hcells : ∀ row ∈ t.rows, ∀ c : Column, ∃ v, t.cell row c.name = some (.num v))
    (hkeys : (t.rows.map t.key).Nodup) : ∃ b, Reads t b := by
  have hread : ∀ rows : List (List (Cell N)), (∀ row ∈ rows, row ∈ t.rows) →
      ∃ brows : List (Row N), rows.map (readRow t) = brows.map some
        ∧ rows.map t.key
          = brows.map (fun r => [some (.text r.node), some (.num (.real r.timeBucket))]) := by
    intro rows
    induction rows with
    | nil =>
        intro _
        exact ⟨[], rfl, rfl⟩
    | cons row rows ih =>
        intro hsub
        obtain ⟨brows, hmap, hmapkey⟩ := ih (fun row' hmem => hsub row' (List.mem_cons_of_mem _ hmem))
        obtain ⟨n, x, hn, hx⟩ := hrow row (hsub row List.mem_cons_self)
        refine ⟨⟨n, x, fun c => (value? (t.cell row c.name)).getD .null⟩ :: brows, ?_, ?_⟩
        · rw [List.map_cons, List.map_cons, hmap]
          simp only [readRow, hn, hx]
        · rw [List.map_cons, List.map_cons, hmapkey]
          simp only [RawTable.key, hkey, List.map_cons, List.map_nil, hn, hx]
  obtain ⟨brows, hmap, hmapkey⟩ := hread t.rows (fun _ hmem => hmem)
  have hnodup : (brows.map Row.key).Nodup := by
    rw [hmapkey, show (fun r : Row N => [some (Cell.text r.node), some (.num (.real r.timeBucket))])
      = (fun k : N × Double => [some (.text k.1), some (.num (.real k.2))]) ∘ Row.key from rfl,
      ← List.map_map] at hkeys
    exact List.Nodup.of_map _ hkeys
  exact ⟨⟨brows, hnodup⟩, hbucket, hcells, hmap⟩

/-! ## Columns are added -/

/-- A table after `ADD COLUMN`s that give zeros. -/
structure Widened (t : RawTable N) (added : List String) (t' : RawTable N) : Prop where
  primaryKey : t'.primaryKey = t.primaryKey
  names      : t'.names = t.names ++ added
  rows       : t'.rows = t.rows.map (· ++ added.map (fun _ => .num (.int 0)))

omit [DecidableEq N] in
/-- **STEP**: one more column. -/
theorem Widened.addColumn {t t' : RawTable N} {added : List String} (h : Widened t added t')
    {name : String} (hnew : name ∉ t'.names) :
    ∃ t'', t'.addColumn (addedColumn name) (.num (.int 0)) = some t''
      ∧ Widened t (added ++ [name]) t'' := by
  refine ⟨_, if_neg hnew, h.primaryKey, ?_, ?_⟩
  · show (t'.columns ++ [addedColumn name]).map ColumnDef.name = _
    rw [List.map_append, ← List.append_assoc]
    exact congrArg (· ++ [name]) h.names
  · show t'.rows.map (· ++ [Cell.num (.int 0)]) = _
    rw [h.rows, List.map_map]
    refine List.map_congr_left (fun row _ => ?_)
    simp

omit [DecidableEq N] in
/-- **RUN**: the loop of `add_missing_columns` adds the columns that are not
    there, and touches no other table. -/
theorem addColumns_fold {t : RawTable N} (l : List String) (hl : l.Nodup) :
    ∀ (db : Database N) (added : List String) (t₁ : RawTable N),
      (∀ name ∈ l, name ∉ added) → db.tables "EarningsTracker" = some t₁ → Widened t added t₁ →
      ∃ db' t', l.foldlM (fun (db : Database N) name =>
            if name ∈ t.names then some db
            else db.addColumn "EarningsTracker" (addedColumn name) (.num (.int 0))) db = some db'
        ∧ db'.tables "EarningsTracker" = some t'
        ∧ Widened t (added ++ l.filter (fun name => name ∉ t.names)) t' := by
  induction l with
  | nil =>
      intro db added t₁ _ ht hw
      refine ⟨db, t₁, rfl, ht, ?_⟩
      rw [List.filter_nil, List.append_nil]
      exact hw
  | cons name l ih =>
      intro db added t₁ hfresh ht hw
      obtain ⟨hnot, hl'⟩ := List.nodup_cons.mp hl
      have hfresh' : ∀ name' ∈ l, name' ∉ added := fun name' hmem =>
        hfresh name' (List.mem_cons_of_mem _ hmem)
      rw [List.foldlM_cons]
      by_cases hin : name ∈ t.names
      · rw [if_pos hin, List.filter_cons_of_neg (by simpa using hin)]
        exact ih hl' db added t₁ hfresh' ht hw
      · have hnew : name ∉ t₁.names := by
          rw [hw.names, List.mem_append]
          rintro (hmem | hmem)
          · exact hin hmem
          · exact hfresh name List.mem_cons_self hmem
        obtain ⟨t₂, hadd, hw₂⟩ := hw.addColumn hnew
        have hdb : db.addColumn "EarningsTracker" (addedColumn name) (.num (.int 0))
            = some (db.set "EarningsTracker" (some t₂)) := by
          unfold Database.addColumn
          rw [ht, Option.bind_some, hadd]
          rfl
        have hfresh₂ : ∀ name' ∈ l, name' ∉ added ++ [name] := by
          intro name' hmem
          rw [List.mem_append, List.mem_singleton]
          rintro (hmem' | rfl)
          · exact hfresh' name' hmem hmem'
          · exact hnot hmem
        rw [if_neg hin, hdb, List.filter_cons_of_pos (by simpa using hin)]
        obtain ⟨db', t', hfold, ht', hw'⟩ := ih hl' _ _ t₂ hfresh₂
          (Database.tables_set_self _ _ _) hw₂
        refine ⟨db', t', hfold, ht', ?_⟩
        rw [List.append_cons]
        exact hw'

omit [DecidableEq N] in
theorem lookup_zeros {added : List String} {name : String} (h : name ∈ added) :
    (added.zip (added.map (fun _ => (Cell.num (.int 0) : Cell N)))).lookup name
      = some (.num (.int 0)) := by
  induction added with
  | nil => cases h
  | cons a added ih =>
      rw [List.map_cons, List.zip_cons_cons, List.lookup_cons]
      by_cases heq : name = a
      · simp [heq]
      · rw [beq_false_of_ne heq]
        exact ih ((List.mem_cons.mp h).resolve_left heq)

section Widened

variable {t t' : RawTable N} {added : List String} (hheld : Held t) (hw : Widened t added t')

include hheld hw

omit [DecidableEq N] in
/-- A column that was there reads as before. -/
theorem Widened.cell_old {row : List (Cell N)} (hrow : row ∈ t.rows) {name : String}
    (hname : name ∈ t.names) :
    t'.cell (row ++ added.map (fun _ => .num (.int 0))) name = t.cell row name := by
  have hwidth := hheld.width row hrow
  obtain ⟨c, hc⟩ := RawTable.cell_isSome hwidth hname
  rw [RawTable.cell_append hwidth hw.names, hc]
  rfl

omit [DecidableEq N] in
/-- A new one reads zero. -/
theorem Widened.cell_added {row : List (Cell N)} (hrow : row ∈ t.rows) {name : String}
    (hname : name ∉ t.names) (hadded : name ∈ added) :
    t'.cell (row ++ added.map (fun _ => .num (.int 0))) name = some (.num (.int 0)) := by
  rw [RawTable.cell_append (hheld.width row hrow) hw.names, RawTable.cell_eq_none hname,
    lookup_zeros hadded]
  rfl

theorem Widened.rowsOf (node : N) :
    rowsOf t' node = (rowsOf t node).map (· ++ added.map (fun _ => .num (.int 0))) := by
  unfold EarningsTracker.rowsOf
  rw [hw.rows, List.filter_map]
  refine congrArg (List.map _) (List.filter_congr (fun row hrow => ?_))
  show decide (t'.cell (row ++ _) "node" = some (.text node)) = _
  rw [hw.cell_old hheld hrow hheld.node_mem]

/-- **SPEC**: the totals are read as the same words, zero for the new columns. -/
theorem Widened.storedTotal (hbucket : "time_bucket" ∈ t.names) {c : Column}
    (hc : c.name ∈ t.names ∨ c.name ∈ added) (node : N) :
    (storedTotal t' node c).map Value.getUInt64 = (storedTotal t node c).map Value.getUInt64 := by
  have hbucket' : "time_bucket" ∈ t'.names := by
    rw [hw.names]
    exact List.mem_append_left _ hbucket
  unfold EarningsTracker.storedTotal
  rw [if_pos hbucket, if_pos hbucket']
  by_cases hname : c.name ∈ t.names
  · have hsame : held t' node c = held t node c := by
      unfold held
      rw [hw.rowsOf hheld, List.filterMap_map]
      refine List.filterMap_congr (fun row hrow => ?_)
      show value? (t'.cell (row ++ _) c.name) = _
      rw [hw.cell_old hheld (List.mem_of_mem_filter hrow) hname]
    rw [hsame]
  · have hadded := hc.resolve_left hname
    have hnone : held t node c = [] := by
      refine List.filterMap_eq_nil_iff.mpr (fun row _ => ?_)
      rw [RawTable.cell_eq_none hname]
      rfl
    have hzeros : held t' node c = (EarningsTracker.rowsOf t node).map (fun _ => Value.int 0) := by
      unfold held
      rw [hw.rowsOf hheld, List.filterMap_map]
      refine Eq.trans (List.filterMap_congr (fun row hrow => ?_))
        (congrFun (List.filterMap_eq_map (f := fun _ => Value.int 0)) _)
      show value? (t'.cell (row ++ _) c.name) = some (.int 0)
      rw [hw.cell_added hheld (List.mem_of_mem_filter hrow) hname hadded]
      rfl
    rw [hnone, hzeros, sum_zeros]
    rfl

omit [DecidableEq N] in
theorem Widened.nodes :
    t'.rows.filterMap (fun row => text? (t'.cell row "node"))
      = t.rows.filterMap (fun row => text? (t.cell row "node")) := by
  rw [hw.rows, List.filterMap_map]
  refine List.filterMap_congr (fun row hrow => ?_)
  show text? (t'.cell (row ++ _) "node") = _
  rw [hw.cell_old hheld hrow hheld.node_mem]

end Widened

omit [DecidableEq N] in
/-- A widened bucket table can be read. -/
theorem Widened.reads {t t' : RawTable N} {added : List String} (hb : Bucketed t)
    (hw : Widened t added t') (hall : ∀ c : Column, c.name ∈ t.names ∨ c.name ∈ added) :
    ∃ b, Reads t' b := by
  have hmem : ∀ row' ∈ t'.rows, ∃ row ∈ t.rows,
      row' = row ++ added.map (fun _ => .num (.int 0)) := by
    intro row' hrow'
    rw [hw.rows] at hrow'
    obtain ⟨row, hrow, rfl⟩ := List.mem_map.mp hrow'
    exact ⟨row, hrow, rfl⟩
  refine exists_reads (hw.primaryKey.trans hb.primaryKey) ?_ ?_ ?_ ?_
  · rw [hw.names]
    exact List.mem_append_left _ hb.bucket_mem
  · intro row' hrow'
    obtain ⟨row, hrow, rfl⟩ := hmem row' hrow'
    obtain ⟨n, hn⟩ := hb.node row hrow
    obtain ⟨x, hx⟩ := hb.bucket row hrow
    refine ⟨n, x, ?_, ?_⟩
    · rw [hw.cell_old hb.toHeld hrow hb.node_mem, hn]
    · rw [hw.cell_old hb.toHeld hrow hb.bucket_mem, hx]
  · intro row' hrow' c
    obtain ⟨row, hrow, rfl⟩ := hmem row' hrow'
    by_cases hname : c.name ∈ t.names
    · obtain ⟨v, hv, -⟩ := hb.cells row hrow c hname
      exact ⟨v, by rw [hw.cell_old hb.toHeld hrow hname, hv]⟩
    · exact ⟨.int 0, hw.cell_added hb.toHeld hrow hname ((hall c).resolve_left hname)⟩
  · have hkeys : t'.rows.map t'.key = t.rows.map t.key := by
      rw [hw.rows, List.map_map]
      refine List.map_congr_left (fun row hrow => ?_)
      simp only [Function.comp, RawTable.key, hw.primaryKey, hb.primaryKey, List.map_cons,
        List.map_nil, hw.cell_old hb.toHeld hrow hb.node_mem,
        hw.cell_old hb.toHeld hrow hb.bucket_mem]
    rw [hkeys]
    exact hb.keys

/-! ## The legacy table is copied -/

/-- A row of the legacy table. -/
structure LegacyRow (N : Type) where
  node            : N
  inEarnings      : Value
  inExpenditures  : Value
  outEarnings     : Value
  outExpenditures : Value

/-- What it becomes in a column. -/
def LegacyRow.value (l : LegacyRow N) : Column → Value
  | .inEarnings      => l.inEarnings
  | .inExpenditures  => l.inExpenditures
  | .outEarnings     => l.outEarnings
  | .outExpenditures => l.outExpenditures
  | _                => .int 0

/-- As it is selected. -/
def LegacyRow.selected (l : LegacyRow N) : List (Cell N) :=
  [ .text l.node, .num (.int 0), .num l.inEarnings, .num l.inExpenditures, .num l.outEarnings
  , .num l.outExpenditures, .num (.int 0), .num (.int 0), .num (.int 0), .num (.int 0) ]

/-- As it is inserted. -/
def LegacyRow.inserted (l : LegacyRow N) : List (Cell N) :=
  [ .text l.node, .num (.real (Double.ofInt 0)), .num l.inEarnings, .num (.int 0)
  , .num l.inExpenditures, .num (.int 0), .num l.outEarnings, .num (.int 0)
  , .num l.outExpenditures, .num (.int 0) ]

/-- The new table with some legacy rows in it. -/
def copied (ls : List (LegacyRow N)) : RawTable N :=
  { (newTable : RawTable N) with rows := ls.map LegacyRow.inserted }

/-- What a row of the legacy table holds. -/
structure HoldsRow (t : RawTable N) (row : List (Cell N)) (l : LegacyRow N) : Prop where
  node   : t.cell row "node" = some (.text l.node)
  cells  : ∀ c ∈ baseColumns, t.cell row c.name = some (.num (l.value c))
  stored : ∀ c ∈ baseColumns, Stored (l.value c)

omit [DecidableEq N] in
theorem Legacy.rows {t : RawTable N} (h : Legacy t) :
    ∃ ls : List (LegacyRow N), List.Forall₂ (HoldsRow t) t.rows ls ∧ (ls.map LegacyRow.node).Nodup := by
  have hrows : ∀ rows : List (List (Cell N)), (∀ row ∈ rows, row ∈ t.rows) →
      ∃ ls : List (LegacyRow N), List.Forall₂ (HoldsRow t) rows ls
        ∧ rows.map t.key = ls.map (fun l => [some (Cell.text l.node)]) := by
    intro rows
    induction rows with
    | nil =>
        intro _
        exact ⟨[], List.Forall₂.nil, rfl⟩
    | cons row rows ih =>
        intro hsub
        have hrow := hsub row List.mem_cons_self
        obtain ⟨ls, hls, hkeys⟩ := ih (fun row' hmem => hsub row' (List.mem_cons_of_mem _ hmem))
        obtain ⟨n, hn⟩ := h.node row hrow
        have hcell : ∀ c ∈ baseColumns, ∃ v, t.cell row c.name = some (.num v) ∧ Stored v :=
          fun c hc => h.cells row hrow c (h.base_mem c hc)
        obtain ⟨ie, hie, hsie⟩ := hcell .inEarnings (by decide)
        obtain ⟨ix, hix, hsix⟩ := hcell .inExpenditures (by decide)
        obtain ⟨oe, hoe, hsoe⟩ := hcell .outEarnings (by decide)
        obtain ⟨ox, hox, hsox⟩ := hcell .outExpenditures (by decide)
        refine ⟨⟨n, ie, ix, oe, ox⟩ :: ls, List.Forall₂.cons ⟨hn, ?_, ?_⟩ hls, ?_⟩
        · intro c hc
          simp only [baseColumns, List.mem_cons, List.not_mem_nil, or_false] at hc
          rcases hc with rfl | rfl | rfl | rfl
          · exact hie
          · exact hix
          · exact hoe
          · exact hox
        · intro c hc
          simp only [baseColumns, List.mem_cons, List.not_mem_nil, or_false] at hc
          rcases hc with rfl | rfl | rfl | rfl
          · exact hsie
          · exact hsix
          · exact hsoe
          · exact hsox
        · rw [List.map_cons, List.map_cons, hkeys]
          simp only [RawTable.key, h.primaryKey, List.map_cons, List.map_nil, hn]
  obtain ⟨ls, hls, hkeys⟩ := hrows t.rows (fun _ hmem => hmem)
  refine ⟨ls, hls, ?_⟩
  have hnodup := h.keys
  rw [hkeys, show (fun l : LegacyRow N => [some (Cell.text l.node)])
    = (fun n => [some (.text n)]) ∘ LegacyRow.node from rfl, ← List.map_map] at hnodup
  exact List.Nodup.of_map _ hnodup

omit [DecidableEq N] in
theorem stored_of_holds {t : RawTable N} {rows : List (List (Cell N))} {ls : List (LegacyRow N)}
    (hls : List.Forall₂ (HoldsRow t) rows ls) :
    ∀ l ∈ ls, ∀ c ∈ baseColumns, Stored (l.value c) := by
  induction hls with
  | nil =>
      intro l hl
      cases hl
  | cons hrow _ ih =>
      intro l hl
      rcases List.mem_cons.mp hl with rfl | hl
      · exact hrow.stored
      · exact ih l hl

omit [DecidableEq N] in
/-- The `SELECT` of the migration. -/
theorem Legacy.select {t : RawTable N} (h : Legacy t) {ls : List (LegacyRow N)}
    (hls : List.Forall₂ (HoldsRow t) t.rows ls) :
    t.select migratedExprs = some (ls.map LegacyRow.selected) := by
  have hknown : migratedExprs.all (RawTable.Expr.known t) = true := by
    have hbase : ∀ c ∈ baseColumns, decide (c.name ∈ t.names) = true := fun c hc =>
      decide_eq_true (h.base_mem c hc)
    have hie := hbase .inEarnings (by decide)
    have hix := hbase .inExpenditures (by decide)
    have hoe := hbase .outEarnings (by decide)
    have hox := hbase .outExpenditures (by decide)
    simp only [Column.name] at hie hix hoe hox
    simp [migratedExprs, RawTable.Expr.known, h.node_mem, of_decide_eq_true hie,
      of_decide_eq_true hix, of_decide_eq_true hoe, of_decide_eq_true hox]
  have hrows : ∀ (rows : List (List (Cell N))) (ls : List (LegacyRow N)),
      List.Forall₂ (HoldsRow t) rows ls →
      rows.mapM (fun row => migratedExprs.mapM (RawTable.Expr.eval t row))
        = some (ls.map LegacyRow.selected) := by
    intro rows ls hall
    induction hall with
    | nil => rfl
    | @cons row l rows ls hrow _ ih =>
        have hie := hrow.cells .inEarnings (by decide)
        have hix := hrow.cells .inExpenditures (by decide)
        have hoe := hrow.cells .outEarnings (by decide)
        have hox := hrow.cells .outExpenditures (by decide)
        simp only [Column.name, LegacyRow.value] at hie hix hoe hox
        have hsel : migratedExprs.mapM (RawTable.Expr.eval t row) = some l.selected := by
          simp [migratedExprs, RawTable.Expr.eval, hrow.node, hie, hix, hoe, hox,
            LegacyRow.selected]
        rw [List.mapM_cons, hsel, ih]
        rfl
  unfold RawTable.select
  rw [if_pos hknown]
  exact hrows t.rows ls hls

theorem integerAffinity_stored {v : Value} (h : Stored v) : v.integerAffinity = v := by
  cases v with
  | null => rfl
  | int n => rfl
  | real x => exact h.2.2

omit [DecidableEq N] in
/-- The order of the columns differs, and the bucket becomes a REAL. -/
theorem arrange_selected (ls : List (LegacyRow N)) {l : LegacyRow N}
    (hl : ∀ c ∈ baseColumns, Stored (l.value c)) :
    (copied ls).arrange (migratedColumns.zip l.selected) = l.inserted := by
  have hie := integerAffinity_stored (hl .inEarnings (by decide))
  have hix := integerAffinity_stored (hl .inExpenditures (by decide))
  have hoe := integerAffinity_stored (hl .outEarnings (by decide))
  have hox := integerAffinity_stored (hl .outExpenditures (by decide))
  have hzero : (Value.int 0).integerAffinity = .int 0 := rfl
  simp only [LegacyRow.value] at hie hix hoe hox
  simp [RawTable.arrange, copied, newTable, migratedColumns, LegacyRow.selected,
    LegacyRow.inserted, List.lookup_cons, List.lookup_nil, Affinity.store, hie, hix, hoe, hox, hzero]

omit [DecidableEq N] in
theorem cell_inserted (ls : List (LegacyRow N)) (l : LegacyRow N) (c : Column) :
    (copied ls).cell l.inserted c.name = some (.num (l.value c)) := by
  cases c with
  | _ => simp [RawTable.cell, RawTable.names, copied, newTable, LegacyRow.inserted, List.lookup_cons,
      Column.name, LegacyRow.value]

omit [DecidableEq N] in
theorem node_inserted (ls : List (LegacyRow N)) (l : LegacyRow N) :
    (copied ls).cell l.inserted "node" = some (.text l.node)
      ∧ (copied ls).cell l.inserted "time_bucket" = some (.num (.real (Double.ofInt 0))) := by
  constructor
  · simp [RawTable.cell, RawTable.names, copied, newTable, LegacyRow.inserted]
  · simp [RawTable.cell, RawTable.names, copied, newTable, LegacyRow.inserted, List.lookup_cons]

omit [DecidableEq N] in
theorem key_inserted (ls : List (LegacyRow N)) (l : LegacyRow N) :
    (copied ls).key l.inserted
      = [some (.text l.node), some (.num (.real (Double.ofInt 0)))] := by
  obtain ⟨hn, hx⟩ := node_inserted ls l
  simp only [RawTable.key, copied, newTable, List.map_cons, List.map_nil]
  exact congrArg₂ (fun a b => [a, b]) hn hx

/-- **STEP**: a row of a node that is not there yet is inserted. -/
theorem insert_copied {ls : List (LegacyRow N)} {l : LegacyRow N}
    (hl : ∀ c ∈ baseColumns, Stored (l.value c)) (hnew : l.node ∉ ls.map LegacyRow.node) :
    (copied ls).insert (migratedColumns.zip l.selected) = some (copied (ls ++ [l])) := by
  have hne : ∀ c ∈ baseColumns, l.value c ≠ .null := by
    intro c hc h0
    have hs := hl c hc
    rw [h0] at hs
    exact hs
  have hie := hne .inEarnings (by decide)
  have hix := hne .inExpenditures (by decide)
  have hoe := hne .outEarnings (by decide)
  have hox := hne .outExpenditures (by decide)
  simp only [LegacyRow.value] at hie hix hoe hox
  have hcond : (∀ c ∈ migratedColumns.zip l.selected, c.1 ∈ (copied ls).names)
      ∧ (∀ c ∈ (copied ls).columns.zip l.inserted, c.1.notNull = true → c.2 ≠ .num .null)
      ∧ (copied ls).key l.inserted ∉ (copied ls).rows.map (copied ls).key := by
    refine ⟨?_, ?_, ?_⟩
    · intro c hc
      have hnames : ∀ name ∈ migratedColumns, name ∈ (copied ls).names := by
        simp [migratedColumns, RawTable.names, copied, newTable]
      exact hnames c.1 (List.of_mem_zip hc).1
    · simp [copied, newTable, LegacyRow.inserted, hie, hix, hoe, hox]
    · intro hmem
      obtain ⟨row, hrow, hkey⟩ := List.mem_map.mp hmem
      obtain ⟨l', hl', rfl⟩ := List.mem_map.mp (show row ∈ ls.map LegacyRow.inserted from hrow)
      rw [key_inserted, key_inserted] at hkey
      injection hkey with hnode _
      injection hnode with hnode
      injection hnode with hnode
      exact hnew (hnode ▸ List.mem_map_of_mem hl')
  unfold RawTable.insert
  rw [arrange_selected ls hl, if_pos hcond]
  simp [copied]

/-- **RUN**: all rows are. -/
theorem insert_all (ls : List (LegacyRow N)) :
    ∀ acc : List (LegacyRow N), (∀ l ∈ ls, ∀ c ∈ baseColumns, Stored (l.value c)) →
      ((acc ++ ls).map LegacyRow.node).Nodup →
      (ls.map LegacyRow.selected).foldlM
        (fun (t : RawTable N) row => t.insert (migratedColumns.zip row)) (copied acc)
        = some (copied (acc ++ ls)) := by
  induction ls with
  | nil =>
      intro acc _ _
      rw [List.append_nil]
      rfl
  | cons l ls ih =>
      intro acc hstored hnodup
      have hnew : l.node ∉ acc.map LegacyRow.node := by
        rw [List.map_append, List.map_cons] at hnodup
        intro hmem
        exact (List.nodup_append.mp hnodup).2.2 _ hmem _ List.mem_cons_self rfl
      have happ : acc ++ l :: ls = (acc ++ [l]) ++ ls := List.append_cons _ _ _
      rw [happ] at hnodup ⊢
      rw [List.map_cons, List.foldlM_cons, insert_copied (hstored l List.mem_cons_self) hnew]
      exact ih (acc ++ [l]) (fun l' hl' => hstored l' (List.mem_cons_of_mem _ hl')) hnodup

theorem rowsOf_copied (ls : List (LegacyRow N)) (node : N) :
    rowsOf (copied ls) node
      = (ls.filter (fun l => decide (l.node = node))).map LegacyRow.inserted := by
  unfold rowsOf
  rw [show (copied ls).rows = ls.map LegacyRow.inserted from rfl, List.filter_map]
  refine congrArg (List.map _) (List.filter_congr (fun l _ => ?_))
  show decide ((copied ls).cell l.inserted "node" = some (.text node)) = _
  rw [(node_inserted ls l).1]
  simp

theorem held_copied (ls : List (LegacyRow N)) (node : N) (c : Column) :
    held (copied ls) node c
      = (ls.filter (fun l => decide (l.node = node))).map (fun l => l.value c) := by
  unfold held
  rw [rowsOf_copied, List.filterMap_map]
  refine Eq.trans (List.filterMap_congr (fun l _ => ?_))
    (congrFun (List.filterMap_eq_map (f := fun l : LegacyRow N => l.value c)) _)
  show value? ((copied ls).cell l.inserted c.name) = some (l.value c)
  rw [cell_inserted]
  rfl

theorem held_legacy {t : RawTable N} {ls : List (LegacyRow N)}
    (hls : List.Forall₂ (HoldsRow t) t.rows ls) (node : N) {c : Column} (hc : c ∈ baseColumns) :
    held t node c
      = (ls.filter (fun l => decide (l.node = node))).map (fun l => l.value c) := by
  have hall : ∀ (rows : List (List (Cell N))) (ls : List (LegacyRow N)),
      List.Forall₂ (HoldsRow t) rows ls →
      (rows.filter (fun row => t.cell row "node" = some (.text node))).filterMap
          (fun row => value? (t.cell row c.name))
        = (ls.filter (fun l => decide (l.node = node))).map (fun l => l.value c) := by
    intro rows ls hall
    induction hall with
    | nil => rfl
    | @cons row l rows ls hrow _ ih =>
        by_cases hn : l.node = node
        · rw [List.filter_cons_of_pos (by simp [hrow.node, hn]),
            List.filter_cons_of_pos (by simpa using hn), List.filterMap_cons, hrow.cells c hc,
            List.map_cons, ih]
          rfl
        · rw [List.filter_cons_of_neg (by simpa [hrow.node] using hn),
            List.filter_cons_of_neg (by simpa using hn), ih]
  exact hall t.rows ls hls

omit [DecidableEq N] in
/-- A column is one of the old ones, or a copied row has a zero there. -/
theorem Column.base_or_zero (c : Column) :
    c ∈ baseColumns ∨ c.name ∈ columnsToCheck ∧ ∀ l : LegacyRow N, l.value c = .int 0 := by
  cases c with
  | inEarnings | inExpenditures | outEarnings | outExpenditures => exact Or.inl (by decide)
  | inForwarded | inRebalanced | outForwarded | outRebalanced =>
      exact Or.inr ⟨by decide, fun l => rfl⟩

/-- **SPEC**: the totals of the copy are read as the words of the legacy rows. -/
theorem Legacy.storedTotal {t : RawTable N} (h : Legacy t) {ls : List (LegacyRow N)}
    (hls : List.Forall₂ (HoldsRow t) t.rows ls) (hnodup : (ls.map LegacyRow.node).Nodup)
    (hstored : ∀ l ∈ ls, ∀ c ∈ baseColumns, Stored (l.value c)) (node : N) (c : Column) :
    (storedTotal (copied ls) node c).map Value.getUInt64
      = (storedTotal t node c).map Value.getUInt64 := by
  have hbucket : "time_bucket" ∈ (copied ls).names := by
    simp [RawTable.names, copied, newTable]
  unfold EarningsTracker.storedTotal
  rw [if_pos hbucket, if_neg h.no_bucket, held_copied]
  rcases Column.base_or_zero (N := N) c with hc | ⟨hc, hzero⟩
  · rw [held_legacy hls node hc]
    -- one row for a node, or none
    let T : Table (LegacyRow.node (N := N)) := ⟨ls, hnodup⟩
    cases hget : T.get node with
    | none =>
        have hempty : ls.filter (fun l => decide (l.node = node)) = [] := by
          refine List.filter_eq_nil_iff.mpr (fun l hl => ?_)
          simpa using (Table.get_eq_none_iff T node).mp hget l hl
        rw [hempty]
        rfl
    | some l =>
        have hone : ls.filter (fun l => decide (l.node = node)) = [l] := Table.filter_key hget
        rw [hone, List.map_singleton, sum_stored (hstored l (Table.mem_of_get hget) c hc)]
        rfl
  · have hnone : held t node c = [] := by
      refine List.filterMap_eq_nil_iff.mpr (fun row _ => ?_)
      rw [RawTable.cell_eq_none (h.no_newer c.name hc)]
      rfl
    rw [hnone, List.map_congr_left (fun l _ => hzero l), sum_zeros]
    rfl

omit [DecidableEq N] in
theorem nodes_copied (ls : List (LegacyRow N)) :
    (copied ls).rows.filterMap (fun row => text? ((copied ls).cell row "node"))
      = ls.map LegacyRow.node := by
  rw [show (copied ls).rows = ls.map LegacyRow.inserted from rfl, List.filterMap_map]
  refine Eq.trans (List.filterMap_congr (fun l _ => ?_))
    (congrFun (List.filterMap_eq_map (f := LegacyRow.node)) _)
  show text? ((copied ls).cell l.inserted "node") = some l.node
  rw [(node_inserted ls l).1]
  rfl

omit [DecidableEq N] in
theorem nodes_legacy {t : RawTable N} {rows : List (List (Cell N))} {ls : List (LegacyRow N)}
    (hls : List.Forall₂ (HoldsRow t) rows ls) :
    rows.filterMap (fun row => text? (t.cell row "node")) = ls.map LegacyRow.node := by
  induction hls with
  | nil => rfl
  | cons hrow _ ih =>
      rw [List.filterMap_cons, hrow.node, List.map_cons, ih]
      rfl

omit [DecidableEq N] in
/-- The copy can be read. -/
theorem reads_copied {ls : List (LegacyRow N)} (hnodup : (ls.map LegacyRow.node).Nodup) :
    ∃ b, Reads (copied ls) b := by
  have hmem : ∀ row ∈ (copied ls).rows, ∃ l ∈ ls, l.inserted = row := fun row hrow =>
    List.mem_map.mp hrow
  refine exists_reads rfl ?_ ?_ ?_ ?_
  · simp [RawTable.names, copied, newTable]
  · intro row hrow
    obtain ⟨l, -, rfl⟩ := hmem row hrow
    obtain ⟨hn, hx⟩ := node_inserted ls l
    exact ⟨l.node, _, hn, hx⟩
  · intro row hrow c
    obtain ⟨l, -, rfl⟩ := hmem row hrow
    exact ⟨l.value c, cell_inserted ls l c⟩
  · have hkeys : (copied ls).rows.map (copied ls).key
        = (ls.map LegacyRow.node).map
          (fun n => [some (.text n), some (.num (.real (Double.ofInt 0)))]) := by
      rw [show (copied ls).rows = ls.map LegacyRow.inserted from rfl, List.map_map, List.map_map]
      exact List.map_congr_left (fun l _ => key_inserted ls l)
    rw [hkeys]
    refine hnodup.map (fun n n' heq => ?_)
    injection heq with hnode _
    injection hnode with hnode
    injection hnode

/-! ## What `init` leaves behind -/

/-- Nothing is done to a table that has all columns. -/
theorem init_of_full {db : Database N} {t : RawTable N}
    (ht : db.tables "EarningsTracker" = some t) (hbucket : "time_bucket" ∈ t.names)
    (hall : ∀ name ∈ columnsToCheck, name ∈ t.names) : init db = some db := by
  have hnames := Database.tableInfo_of_some ht
  have hloop : ∀ l : List String, (∀ name ∈ l, name ∈ t.names) →
      l.foldlM (fun (db : Database N) name =>
        if name ∈ t.names then some db
        else db.addColumn "EarningsTracker" (addedColumn name) (.num (.int 0))) db = some db := by
    intro l
    induction l with
    | nil => exact fun _ => rfl
    | cons name l ih =>
        intro hl
        rw [List.foldlM_cons, if_pos (hl name List.mem_cons_self)]
        exact ih (fun name' hmem => hl name' (List.mem_cons_of_mem _ hmem))
  unfold init
  rw [if_pos (by simp [haveBucketTable, hnames, hbucket]), addMissingColumns, hnames]
  exact hloop columnsToCheck hall

/-- A bucket table is widened by what it lacks. -/
theorem init_of_bucketed {db : Database N} {t : RawTable N}
    (ht : db.tables "EarningsTracker" = some t) (hb : Bucketed t) :
    ∃ db' t', init db = some db' ∧ db'.tables "EarningsTracker" = some t'
      ∧ Widened t (columnsToCheck.filter (fun name => name ∉ t.names)) t' := by
  have hnames := Database.tableInfo_of_some ht
  have hstart : Widened t [] t := by
    refine ⟨rfl, (List.append_nil _).symm, ?_⟩
    simp
  obtain ⟨db', t', hfold, ht', hw⟩ := addColumns_fold columnsToCheck (by decide) db [] t
    (fun _ _ => List.not_mem_nil) ht hstart
  refine ⟨db', t', ?_, ht', hw⟩
  unfold init
  rw [if_pos (by simp [haveBucketTable, hnames, hb.bucket_mem]), addMissingColumns, hnames]
  exact hfold

omit [DecidableEq N] in
/-- The new table takes the official name. -/
theorem renamed {db : Database N} {t : RawTable N}
    (hnew : db.tables "EarningsTracker_New" = some t)
    (hold : db.tables "EarningsTracker" = none) :
    ∃ db', (do
        let db ← db.renameTable "EarningsTracker_New" "EarningsTracker"
        let db ← db.createIndexIfNotExists "idx_earnings_tracker_node_time" "EarningsTracker"
        db.createIndexIfNotExists "idx_earnings_tracker_time_node" "EarningsTracker") = some db'
      ∧ db'.tables "EarningsTracker" = some t := by
  obtain ⟨db₁, hrename, ht₁⟩ := Database.renameTable_spec hnew hold
  obtain ⟨db₂, hindex, htables₂⟩ :=
    Database.createIndexIfNotExists_spec ht₁ "idx_earnings_tracker_node_time"
  have ht₂ : db₂.tables "EarningsTracker" = some t := by rw [htables₂, ht₁]
  obtain ⟨db₃, hindex', htables₃⟩ :=
    Database.createIndexIfNotExists_spec ht₂ "idx_earnings_tracker_time_node"
  refine ⟨db₃, ?_, by rw [htables₃, ht₂]⟩
  simp only [hrename, hindex, hindex', Option.bind_eq_bind, Option.bind_some]

/-- Without a table, a new one. -/
theorem init_of_none {db : Database N} (hnone : db.tables "EarningsTracker" = none)
    (hnew : db.tables "EarningsTracker_New" = none) :
    ∃ db', init db = some db' ∧ db'.tables "EarningsTracker" = some (copied []) := by
  have hinfo : db.tableInfo "EarningsTracker" = [] := by
    unfold Database.tableInfo
    rw [hnone]
  have hnone₁ : (db.set "EarningsTracker_New" (some (copied []))).tables "EarningsTracker"
      = none := by
    rw [Database.tables_set_ne _ _ (by decide), hnone]
  have hinfo₁ : (db.set "EarningsTracker_New" (some (copied []))).tableInfo "EarningsTracker"
      = [] := by
    unfold Database.tableInfo
    rw [hnone₁]
  obtain ⟨db', hrest, ht'⟩ := renamed (Database.tables_set_self db _ _) hnone₁
  refine ⟨db', ?_, ht'⟩
  unfold init
  rw [if_neg (by simp [haveBucketTable, hinfo]),
    Database.createTableIfNotExists_of_none hnew newTable,
    show (newTable : RawTable N) = copied [] from rfl]
  simp only [haveLegacyTable, hinfo₁, List.not_mem_nil, decide_false, Bool.false_eq_true, if_false,
    Option.bind_eq_bind, Option.bind_some]
  exact hrest

/-- A legacy table is copied row by row. -/
theorem init_of_legacy {db : Database N} {t : RawTable N}
    (ht : db.tables "EarningsTracker" = some t) (hnew : db.tables "EarningsTracker_New" = none)
    (h : Legacy t) {ls : List (LegacyRow N)} (hls : List.Forall₂ (HoldsRow t) t.rows ls)
    (hnodup : (ls.map LegacyRow.node).Nodup)
    (hstored : ∀ l ∈ ls, ∀ c ∈ baseColumns, Stored (l.value c)) :
    ∃ db', init db = some db' ∧ db'.tables "EarningsTracker" = some (copied ls) := by
  have hinfo := Database.tableInfo_of_some ht
  have ht₁ : (db.set "EarningsTracker_New" (some (copied []))).tables "EarningsTracker"
      = some t := by
    rw [Database.tables_set_ne _ _ (by decide), ht]
  have hinfo₁ := Database.tableInfo_of_some ht₁
  have hinsert := Database.insertSelect_eq (Database.tables_set_self db "EarningsTracker_New" _) ht₁
    (h.select hls) (insert_all ls [] hstored hnodup)
  have ht₂ : ((db.set "EarningsTracker_New" (some (copied []))).set "EarningsTracker_New"
      (some (copied ls))).tables "EarningsTracker" = some t := by
    rw [Database.tables_set_ne _ _ (by decide), ht₁]
  obtain ⟨db₃, hdrop, hgone, hkeep⟩ := Database.dropTable_spec ht₂
  have hnew₃ : db₃.tables "EarningsTracker_New" = some (copied ls) := by
    rw [hkeep _ (by decide), Database.tables_set_self]
  obtain ⟨db', hrest, ht'⟩ := renamed hnew₃ hgone
  refine ⟨db', ?_, ht'⟩
  unfold init
  rw [if_neg (by simp [haveBucketTable, hinfo, h.no_bucket]),
    Database.createTableIfNotExists_of_none hnew newTable,
    show (newTable : RawTable N) = copied [] from rfl]
  simp only [haveLegacyTable, hinfo₁, h.node_mem, decide_true, if_true, hinsert, List.nil_append,
    hdrop, Option.bind_eq_bind, Option.bind_some]
  exact hrest

/-! ## Nothing is lost -/

/-- What holds of a database that `init` made of another one. -/
structure Migrated (db db' : Database N) (t : RawTable N) : Prop where
  table   : db'.tables "EarningsTracker" = some t
  reads   : ∃ b, Reads t b
  columns : ∀ c : Column, c.name ∈ t.names
  data    : ∀ node, storedData db' node = storedData db node
  nodes   : storedNodes db' = storedNodes db

theorem Migrated.report {db db' : Database N} {t : RawTable N} (h : Migrated db db' t) :
    storedReport db' = storedReport db := by
  unfold storedReport
  rw [h.nodes]
  simp only [h.data]

theorem Migrated.again {db db' : Database N} {t : RawTable N} (h : Migrated db db' t) :
    init db' = some db' := by
  obtain ⟨b, hb⟩ := h.reads
  refine init_of_full h.table hb.bucket (fun name hname => ?_)
  simp only [columnsToCheck, List.mem_cons, List.not_mem_nil, or_false] at hname
  rcases hname with rfl | rfl | rfl | rfl
  · exact h.columns .inForwarded
  · exact h.columns .inRebalanced
  · exact h.columns .outForwarded
  · exact h.columns .outRebalanced

omit [DecidableEq N] in
theorem columns_copied (ls : List (LegacyRow N)) (c : Column) : c.name ∈ (copied ls).names := by
  cases c with
  | _ => simp [RawTable.names, copied, newTable, Column.name]

theorem migrated_of_none {db : Database N} (hnone : db.tables "EarningsTracker" = none)
    (hnew : db.tables "EarningsTracker_New" = none) :
    ∃ db' t, init db = some db' ∧ Migrated db db' t := by
  obtain ⟨db', hinit, ht'⟩ := init_of_none hnone hnew
  refine ⟨db', copied [], hinit, ht', reads_copied List.nodup_nil, columns_copied [], ?_, ?_⟩
  · intro node
    have htotal : storedTotal (copied ([] : List (LegacyRow N))) node = fun _ => .ok .null := by
      funext c
      unfold storedTotal
      rw [held_copied]
      split
      · rfl
      · rfl
    rw [storedData_some ht', htotal]
    unfold storedData
    rw [hnone]
    rfl
  · unfold storedNodes
    rw [hnone, ht']
    simp only [nodes_copied]
    rfl

theorem migrated_of_legacy {db : Database N} {t : RawTable N}
    (ht : db.tables "EarningsTracker" = some t) (hnew : db.tables "EarningsTracker_New" = none)
    (h : Legacy t) : ∃ db' t', init db = some db' ∧ Migrated db db' t' := by
  obtain ⟨ls, hls, hnodup⟩ := h.rows
  have hstored := stored_of_holds hls
  obtain ⟨db', hinit, ht'⟩ := init_of_legacy ht hnew h hls hnodup hstored
  refine ⟨db', copied ls, hinit, ht', reads_copied hnodup, columns_copied ls, ?_, ?_⟩
  · intro node
    rw [storedData_some ht', storedData_some ht]
    exact data_congr (fun c => h.storedTotal hls hnodup hstored node c)
  · unfold storedNodes
    rw [ht, ht']
    simp only [nodes_copied, nodes_legacy hls]

theorem migrated_of_bucketed {db : Database N} {t : RawTable N}
    (ht : db.tables "EarningsTracker" = some t) (h : Bucketed t) :
    ∃ db' t', init db = some db' ∧ Migrated db db' t'
      ∧ Widened t (columnsToCheck.filter (fun name => name ∉ t.names)) t' := by
  obtain ⟨db', t', hinit, ht', hw⟩ := init_of_bucketed ht h
  have hall : ∀ c : Column, c.name ∈ t.names
      ∨ c.name ∈ columnsToCheck.filter (fun name => name ∉ t.names) := by
    intro c
    by_cases hin : c.name ∈ t.names
    · exact Or.inl hin
    · rcases Column.base_or_zero (N := N) c with hc | ⟨hc, -⟩
      · exact Or.inl (h.base_mem c hc)
      · exact Or.inr (List.mem_filter.mpr ⟨hc, by simpa using hin⟩)
  refine ⟨db', t', hinit, ⟨ht', hw.reads h hall, ?_, ?_, ?_⟩, hw⟩
  · intro c
    rw [hw.names]
    exact List.mem_append.mpr (hall c)
  · intro node
    rw [storedData_some ht', storedData_some ht]
    exact data_congr (fun c => hw.storedTotal h.toHeld h.bucket_mem (hall c) node)
  · unfold storedNodes
    rw [ht, ht']
    simp only [hw.nodes h.toHeld]

/-- **HEADLINE**: on every database it recognises `init` succeeds.  The table it
    leaves behind reports, for each node and in the status, the totals stored
    before; the rows of a bucket table are only widened, by zeros in the columns
    it lacked; and running it again changes nothing. -/
theorem init_keeps_totals {db : Database N} (h : Recognised db) :
    ∃ db' t b, init db = some db' ∧ db'.tables "EarningsTracker" = some t ∧ Reads t b
      ∧ (∀ node, (requestEarningsInfo b node).map ResponseEarningsInfo.get
        = (storedData db node).map (fun d c => .msat (d.get c)))
      ∧ status b = storedReport db
      ∧ (∀ old, db.tables "EarningsTracker" = some old → "time_bucket" ∈ old.names →
        Widened old (columnsToCheck.filter (fun name => name ∉ old.names)) t)
      ∧ init db' = some db' := by
  have hmain : ∃ db' t, init db = some db' ∧ Migrated db db' t
      ∧ ∀ old, db.tables "EarningsTracker" = some old → "time_bucket" ∈ old.names →
        Widened old (columnsToCheck.filter (fun name => name ∉ old.names)) t := by
    cases ht : db.tables "EarningsTracker" with
    | none =>
        obtain ⟨db', t, hinit, hm⟩ := migrated_of_none ht h.no_temporary
        exact ⟨db', t, hinit, hm, fun old hold => by cases hold⟩
    | some t =>
        rcases h.schema t ht with hl | hb
        · obtain ⟨db', t', hinit, hm⟩ := migrated_of_legacy ht h.no_temporary hl
          refine ⟨db', t', hinit, hm, fun old hold hbucket => ?_⟩
          cases hold
          exact absurd hbucket hl.no_bucket
        · obtain ⟨db', t', hinit, hm, hw⟩ := migrated_of_bucketed ht hb
          refine ⟨db', t', hinit, hm, fun old hold _ => ?_⟩
          cases hold
          exact hw
  obtain ⟨db', t, hinit, hm, hrows⟩ := hmain
  obtain ⟨b, hb⟩ := hm.reads
  refine ⟨db', t, b, hinit, hm.table, hb, fun node => ?_, ?_, hrows, hm.again⟩
  · rw [requestEarningsInfo_reads hm.table hb, hm.data]
  · rw [status_reads hm.table hb, hm.report]

/-- A legacy table with a row for node 7. -/
def legacyTable : RawTable Nat where
  columns :=
    [ ⟨"node", .text, false⟩, ⟨"in_earnings", .integer, true⟩, ⟨"in_expenditures", .integer, true⟩
    , ⟨"out_earnings", .integer, true⟩, ⟨"out_expenditures", .integer, true⟩ ]
  primaryKey := ["node"]
  rows := [[.text 7, .num (.int 100), .num (.int 20), .num (.int 300), .num (.int 40)]]

/-- A bucket table without the columns added last. -/
def earlyTable : RawTable Nat where
  columns :=
    [ ⟨"node", .text, true⟩, ⟨"time_bucket", .real, true⟩, ⟨"in_earnings", .integer, true⟩
    , ⟨"in_expenditures", .integer, true⟩, ⟨"out_earnings", .integer, true⟩
    , ⟨"out_expenditures", .integer, true⟩ ]
  primaryKey := ["node", "time_bucket"]
  rows :=
    [[ .text 7, .num (.real (.finite 86400)), .num (.int 100), .num (.int 20), .num (.int 300)
     , .num (.int 40) ]]

def onlyTable (t : RawTable Nat) : Database Nat :=
  ⟨fun name => if name = "EarningsTracker" then some t else none, []⟩

theorem stored_int {n : ℤ} (h : InRange n) : Stored (.int n) := h

theorem legacyTable_legacy : Legacy legacyTable where
  names_nodup := by decide
  width := by simp [legacyTable, RawTable.names]
  node_mem := by decide
  base_mem := by decide
  node := by simp [legacyTable, RawTable.cell, RawTable.names]
  cells := by
    intro row hrow c hc
    rw [List.mem_singleton.mp hrow]
    cases c with
    | inEarnings => exact ⟨.int 100, rfl, stored_int (by decide)⟩
    | inExpenditures => exact ⟨.int 20, rfl, stored_int (by decide)⟩
    | outEarnings => exact ⟨.int 300, rfl, stored_int (by decide)⟩
    | outExpenditures => exact ⟨.int 40, rfl, stored_int (by decide)⟩
    | _ => exact absurd hc (by decide)
  keys := by decide
  primaryKey := rfl
  no_bucket := by decide
  no_newer := by decide

theorem earlyTable_bucketed : Bucketed earlyTable where
  names_nodup := by decide
  width := by simp [earlyTable, RawTable.names]
  node_mem := by decide
  base_mem := by decide
  node := by simp [earlyTable, RawTable.cell, RawTable.names]
  cells := by
    intro row hrow c hc
    rw [List.mem_singleton.mp hrow]
    cases c with
    | inEarnings => exact ⟨.int 100, rfl, stored_int (by decide)⟩
    | inExpenditures => exact ⟨.int 20, rfl, stored_int (by decide)⟩
    | outEarnings => exact ⟨.int 300, rfl, stored_int (by decide)⟩
    | outExpenditures => exact ⟨.int 40, rfl, stored_int (by decide)⟩
    | _ => exact absurd hc (by decide)
  keys := by decide
  primaryKey := rfl
  bucket_mem := by decide
  bucket := by simp [earlyTable, RawTable.cell, RawTable.names, List.lookup_cons]

theorem onlyTable_recognised {t : RawTable Nat} (h : Legacy t ∨ Bucketed t) :
    Recognised (onlyTable t) where
  no_temporary := rfl
  schema := by
    intro t' ht'
    cases ht'
    exact h

/-- Both report for node 7 what was stored for it. -/
theorem init_keeps_totals_onlyTable :
    (∃ db' t b, init (onlyTable legacyTable) = some db' ∧ db'.tables "EarningsTracker" = some t
      ∧ Reads t b ∧ (requestEarningsInfo b 7).map ResponseEarningsInfo.get
        = .ok (fun c => .msat (EarningsData.get ⟨100, 0, 20, 0, 300, 0, 40, 0⟩ c)))
    ∧ ∃ db' t b, init (onlyTable earlyTable) = some db' ∧ db'.tables "EarningsTracker" = some t
      ∧ Reads t b ∧ (requestEarningsInfo b 7).map ResponseEarningsInfo.get
        = .ok (fun c => .msat (EarningsData.get ⟨100, 0, 20, 0, 300, 0, 40, 0⟩ c))
      ∧ t.rows = [[ .text 7, .num (.real (.finite 86400)), .num (.int 100), .num (.int 20)
        , .num (.int 300), .num (.int 40), .num (.int 0), .num (.int 0), .num (.int 0)
        , .num (.int 0) ]] := by
  constructor
  · obtain ⟨db', t, b, hinit, ht, hb, hinfo, -⟩ :=
      init_keeps_totals (onlyTable_recognised (Or.inl legacyTable_legacy))
    refine ⟨db', t, b, hinit, ht, hb, ?_⟩
    rw [hinfo 7]
    rfl
  · obtain ⟨db', t, b, hinit, ht, hb, hinfo, -, hrows, -⟩ :=
      init_keeps_totals (onlyTable_recognised (Or.inr earlyTable_bucketed))
    refine ⟨db', t, b, hinit, ht, hb, ?_, ?_⟩
    · rw [hinfo 7]
      rfl
    · exact (hrows earlyTable rfl (by decide)).rows

end EarningsTracker
