import Clboss.AmountProofs
import Clboss.SqlValueProofs
import Clboss.UniqueTableProofs
import Mathlib.Data.List.Dedup
import Mathlib.Algebra.BigOperators.Group.List.Lemmas
import Mathlib.Algebra.BigOperators.Ring.Finset

/-! # EarningsTracker — what is booked is what is reported

    The tracker keeps one row for each node and day, with eight running sums,
    and answers four queries over those rows.  Bookings and queries share no
    code: each names its columns by itself, and the bucket of a booking and the
    cutoff of a query are computed apart.

    The specification is `booked`: what the events put into a column, over the
    nodes and buckets selected by a predicate `Q`.  One STEP lemma for each SQL
    statement says how `tableSum`, the same sum over the rows, moves; the RUN
    lemma `balanced_run` is that the two agree for every `Q` at once, and every
    query is then one choice of `Q`.

    Columns are 64-bit in SQLite, so all of this holds while the sum of each
    column fits in 63 bits, which is more than four times the supply in msat. -/

namespace EarningsTracker

open UniqueTable Sql Ln

variable {N : Type} [DecidableEq N]

/-! ## The table and its statements -/

/-- The integer columns of `"EarningsTracker"`. -/
inductive Column where
  | inEarnings
  | inForwarded
  | inExpenditures
  | inRebalanced
  | outEarnings
  | outForwarded
  | outExpenditures
  | outRebalanced
deriving DecidableEq, Repr

/-- A row; `node` and `time_bucket` are the primary key. -/
structure Row (N : Type) where
  node       : N
  timeBucket : Double
  cell       : Column → Value

/-- The primary key. -/
def Row.key (r : Row N) : N × Double := (r.node, r.timeBucket)

/-- The table. -/
abbrev Buckets (N : Type) := Table (Row.key (N := N))

/-- What `get_now` returns: a number, as a `nan` would be bound as `NULL` and equal no key. -/
structure Time where
  now    : Double
  ne_nan : now ≠ .nan

/-- `bucket_time`: the start of the day. -/
def bucketTime (inputTime : Double) : Double :=
  (inputTime.div (Double.ofInt (24 * 60 * 60))).floor.mul (Double.ofInt (24 * 60 * 60))

/-- `ensure`: a row of zeros, unless there is a row. -/
def ensure (t : Buckets N) (node : N) (bucket : Double) : Buckets N :=
  t.insertOrIgnore ⟨node, bucket, fun _ => .int 0⟩

/-- `SET feeCol = feeCol + :fee, amountCol = amountCol + :amount` on one row. -/
def Row.book (feeCol amountCol : Column) (fee amount : Amount) (r : Row N) : Row N :=
  { r with cell := fun c =>
      if c = feeCol then ((r.cell c).add (.bind fee.toMsat)).integerAffinity
      else if c = amountCol then ((r.cell c).add (.bind amount.toMsat)).integerAffinity
      else r.cell c }

omit [DecidableEq N] in
/-- The key columns are not set. -/
theorem Row.key_book (feeCol amountCol : Column) (fee amount : Amount) (r : Row N) :
    (r.book feeCol amountCol fee amount).key = r.key := rfl

/-- `UPDATE "EarningsTracker" SET … WHERE node = :node AND time_bucket = :bucket`. -/
def book (t : Buckets N) (feeCol amountCol : Column) (node : N) (bucket : Double)
    (fee amount : Amount) : Buckets N :=
  t.update (node, bucket) (Row.book feeCol amountCol fee amount)
    (Row.key_book feeCol amountCol fee amount)

/-! ## The events -/

/-- The messages the tracker books. -/
inductive Event (N : Type) where
  | forwardFee (inId outId : N) (fee amount : Amount)
  | xrebalanceAttribution (source destination : Option N) (amountMoved feeSpent : Amount)

/-- `forward_fee`, one transaction. -/
def forwardFee (t : Buckets N) (now : Time) (inId outId : N) (fee amount : Amount) : Buckets N :=
  let bucket := bucketTime now.now
  let t := ensure t inId bucket
  let t := ensure t outId bucket
  let t := book t .inEarnings .inForwarded inId bucket fee amount
  book t .outEarnings .outForwarded outId bucket fee amount

/-- One side of `xrebalance_attribution`; an unknown peer is not booked. -/
def attributeSide (t : Buckets N) (feeCol amountCol : Column) (peer : Option N) (bucket : Double)
    (fee amount : Amount) : Buckets N :=
  match peer with
  | none      => t
  | some node => book (ensure t node bucket) feeCol amountCol node bucket fee amount

/-- `xrebalance_attribution`, one transaction. -/
def xrebalanceAttribution (t : Buckets N) (now : Time) (source destination : Option N)
    (amountMoved feeSpent : Amount) : Buckets N :=
  let bucket := bucketTime now.now
  let t := attributeSide t .inExpenditures .inRebalanced source bucket feeSpent amountMoved
  attributeSide t .outExpenditures .outRebalanced destination bucket feeSpent amountMoved

/-- One event at one time. -/
def step (t : Buckets N) (now : Time) : Event N → Buckets N
  | .forwardFee inId outId fee amount => forwardFee t now inId outId fee amount
  | .xrebalanceAttribution source destination amountMoved feeSpent =>
      xrebalanceAttribution t now source destination amountMoved feeSpent

/-- The table after a sequence of events, at any times. -/
def run (evs : List (Time × Event N)) : Buckets N :=
  evs.foldl (fun t e => step t e.1 e.2) Table.empty

/-! ## The queries -/

/-- `EarningsData`. -/
structure EarningsData where
  inEarnings      : UInt64
  inForwarded     : UInt64
  inExpenditures  : UInt64
  inRebalanced    : UInt64
  outEarnings     : UInt64
  outForwarded    : UInt64
  outExpenditures : UInt64
  outRebalanced   : UInt64
deriving DecidableEq, Repr

namespace EarningsData

/-- `EarningsData()`. -/
def zero : EarningsData := ⟨0, 0, 0, 0, 0, 0, 0, 0⟩

/-- `operator+=`. -/
def add (a b : EarningsData) : EarningsData where
  inEarnings      := a.inEarnings + b.inEarnings
  inForwarded     := a.inForwarded + b.inForwarded
  inExpenditures  := a.inExpenditures + b.inExpenditures
  inRebalanced    := a.inRebalanced + b.inRebalanced
  outEarnings     := a.outEarnings + b.outEarnings
  outForwarded    := a.outForwarded + b.outForwarded
  outExpenditures := a.outExpenditures + b.outExpenditures
  outRebalanced   := a.outRebalanced + b.outRebalanced

/-- `from_row`: eight columns, by position from `ndx` on. -/
def fromRow (r : List Value) (ndx : ℕ) : EarningsData where
  inEarnings      := (r.getD ndx .null).getUInt64
  inForwarded     := (r.getD (ndx + 1) .null).getUInt64
  inExpenditures  := (r.getD (ndx + 2) .null).getUInt64
  inRebalanced    := (r.getD (ndx + 3) .null).getUInt64
  outEarnings     := (r.getD (ndx + 4) .null).getUInt64
  outForwarded    := (r.getD (ndx + 5) .null).getUInt64
  outExpenditures := (r.getD (ndx + 6) .null).getUInt64
  outRebalanced   := (r.getD (ndx + 7) .null).getUInt64

/-- The field a column is for. -/
def get (d : EarningsData) : Column → UInt64
  | .inEarnings      => d.inEarnings
  | .inForwarded     => d.inForwarded
  | .inExpenditures  => d.inExpenditures
  | .inRebalanced    => d.inRebalanced
  | .outEarnings     => d.outEarnings
  | .outForwarded    => d.outForwarded
  | .outExpenditures => d.outExpenditures
  | .outRebalanced   => d.outRebalanced

end EarningsData

/-- The columns in the order every `SELECT` lists them. -/
def selected : List Column :=
  [ .inEarnings, .inForwarded, .inExpenditures, .inRebalanced
  , .outEarnings, .outForwarded, .outExpenditures, .outRebalanced ]

/-- `SELECT SUM(in_earnings), …, SUM(out_rebalanced)` over some rows. -/
def selectSums (rows : List (Row N)) : Except Overflow (List Value) :=
  selected.mapM fun c => Sql.sum (rows.map fun r => r.cell c)

/-- What a query reports: its entries in no particular order, and their total. -/
structure Report (κ : Type) where
  entries : List (κ × EarningsData)
  total   : EarningsData

/-- The total accumulates in the loop over the rows fetched. -/
def Report.of {κ : Type} (entries : List (κ × EarningsData)) : Report κ :=
  ⟨entries, entries.foldl (fun total e => total.add e.2) EarningsData.zero⟩

/-- One summed entry for each value of the grouping expression `g`. -/
def groupBy {κ : Type} [DecidableEq κ] (g : Row N → κ) (rows : List (Row N)) :
    Except Overflow (Report κ) := do
  let entries ← ((rows.map g).dedup).mapM fun k => do
    let r ← selectSums (rows.filter fun r => g r = k)
    return (k, EarningsData.fromRow r 0)
  return Report.of entries

/-- One entry for each row, without sums. -/
def eachRow {κ : Type} (g : Row N → κ) (rows : List (Row N)) : Report κ :=
  Report.of (rows.map fun r => (g r, EarningsData.fromRow (selected.map r.cell) 0))

/-- `status`. -/
def status (t : Buckets N) : Except Overflow (Report N) := groupBy Row.node t.rows

/-- The cutoff of the recent report. -/
def cutoff (now : Time) (days : Double) : Double :=
  (bucketTime now.now).sub
    (((days.mul (Double.ofInt 24)).mul (Double.ofInt 60)).mul (Double.ofInt 60))

/-- `recent_earnings_report`. -/
def recentEarningsReport (t : Buckets N) (now : Time) (days : Double) :
    Except Overflow (Report N) :=
  groupBy Row.node (t.rows.filter fun r => (cutoff now days).le r.timeBucket)

/-- `earnings_history_report` with `nodeid` absent. -/
def historyAll (t : Buckets N) : Except Overflow (Report Double) := groupBy Row.timeBucket t.rows

/-- `earnings_history_report` of one node. -/
def historyOf (t : Buckets N) (nodeid : N) : Report Double :=
  eachRow Row.timeBucket (t.rows.filter fun r => r.node = nodeid)

/-- `earnings_history_report` with `nodeid=all`. -/
def historyByNode (t : Buckets N) : Report (N × Double) := eachRow Row.key t.rows

/-- The message `ResponseEarningsInfo`. -/
structure ResponseEarningsInfo (N : Type) where
  node            : N
  inEarnings      : Amount
  inExpenditures  : Amount
  outEarnings     : Amount
  outExpenditures : Amount
  inForwarded     : Amount
  inRebalanced    : Amount
  outForwarded    : Amount
  outRebalanced   : Amount

/-- The field a column is for. -/
def ResponseEarningsInfo.get (m : ResponseEarningsInfo N) : Column → Amount
  | .inEarnings      => m.inEarnings
  | .inForwarded     => m.inForwarded
  | .inExpenditures  => m.inExpenditures
  | .inRebalanced    => m.inRebalanced
  | .outEarnings     => m.outEarnings
  | .outForwarded    => m.outForwarded
  | .outExpenditures => m.outExpenditures
  | .outRebalanced   => m.outRebalanced

/-- `request_earnings_info`. -/
def requestEarningsInfo (t : Buckets N) (node : N) : Except Overflow (ResponseEarningsInfo N) := do
  let r ← selectSums (t.rows.filter fun r => r.node = node)
  let earnings := EarningsData.fromRow r 0
  return { node            := node
           inEarnings      := .msat earnings.inEarnings
           inExpenditures  := .msat earnings.inExpenditures
           outEarnings     := .msat earnings.outEarnings
           outExpenditures := .msat earnings.outExpenditures
           inForwarded     := .msat earnings.inForwarded
           inRebalanced    := .msat earnings.inRebalanced
           outForwarded    := .msat earnings.outForwarded
           outRebalanced   := .msat earnings.outRebalanced }

/-! ## The specification -/

/-- What an event puts into a column, and for which node. -/
def Event.share : Event N → Column → Option (N × ℕ)
  | .forwardFee inId _ fee _, .inEarnings           => some (inId, fee.toMsat.toNat)
  | .forwardFee inId _ _ amount, .inForwarded       => some (inId, amount.toMsat.toNat)
  | .forwardFee _ outId fee _, .outEarnings         => some (outId, fee.toMsat.toNat)
  | .forwardFee _ outId _ amount, .outForwarded     => some (outId, amount.toMsat.toNat)
  | .xrebalanceAttribution source _ _ fee, .inExpenditures =>
      source.map fun n => (n, fee.toMsat.toNat)
  | .xrebalanceAttribution source _ amount _, .inRebalanced =>
      source.map fun n => (n, amount.toMsat.toNat)
  | .xrebalanceAttribution _ destination _ fee, .outExpenditures =>
      destination.map fun n => (n, fee.toMsat.toNat)
  | .xrebalanceAttribution _ destination amount _, .outRebalanced =>
      destination.map fun n => (n, amount.toMsat.toNat)
  | _, _ => none

/-- The nodes an event is about. -/
def Event.nodes : Event N → List N
  | .forwardFee inId outId _ _ => [inId, outId]
  | .xrebalanceAttribution source destination _ _ => source.toList ++ destination.toList

/-- The part of a share whose node and bucket are selected. -/
def shareIn (Q : N → Double → Bool) (bucket : Double) : Option (N × ℕ) → ℕ
  | none        => 0
  | some (n, v) => if Q n bucket then v else 0

/-- What the events put into a column, over the selected nodes and buckets. -/
def booked (evs : List (Time × Event N)) (Q : N → Double → Bool) (c : Column) : ℕ :=
  (evs.map fun e => shareIn Q (bucketTime e.1.now) (e.2.share c)).sum

/-- Every node and bucket. -/
def everything : N → Double → Bool := fun _ _ => true

/-- One node, in every bucket. -/
def ofNode (node : N) : N → Double → Bool := fun n _ => n = node

/-- The fee of a forward. -/
def Event.fee : Event N → ℕ
  | .forwardFee _ _ fee _ => fee.toMsat.toNat
  | _ => 0

/-- The amount of a forward. -/
def Event.forwarded : Event N → ℕ
  | .forwardFee _ _ _ amount => amount.toMsat.toNat
  | _ => 0

/-- What was spent on a rebalance, by a known peer on the side `side`. -/
def Event.spent (side : Option N → Option N → Option N) : Event N → ℕ
  | .xrebalanceAttribution source destination _ fee =>
      if (side source destination).isSome then fee.toMsat.toNat else 0
  | _ => 0

/-- What was moved by a rebalance, by a known peer on the side `side`. -/
def Event.moved (side : Option N → Option N → Option N) : Event N → ℕ
  | .xrebalanceAttribution source destination amount _ =>
      if (side source destination).isSome then amount.toMsat.toNat else 0
  | _ => 0

/-- The sum of a column over all nodes and buckets. -/
def columnSum (t : Buckets N) (c : Column) : ℤ :=
  (t.rows.map fun r => (r.cell c).columnInt64).sum

/-- The sum of each column fits in SQLite's integers. -/
def Fits (evs : List (Time × Event N)) : Prop := ∀ c, booked evs everything c < 2 ^ 63

/-! ## Rows of amounts -/

/-- A cell as an amount. -/
def Row.amount (r : Row N) (c : Column) : ℕ := (r.cell c).columnInt64.toNat

/-- Every cell of the row is an integer that is not negative. -/
def Row.Exact (r : Row N) : Prop := ∀ c, r.cell c = .int (r.amount c)

/-- The sum of a column over the selected rows. -/
def tableSum (rows : List (Row N)) (Q : N → Double → Bool) (c : Column) : ℕ :=
  (rows.map fun r => if Q r.node r.timeBucket then r.amount c else 0).sum

omit [DecidableEq N] in
theorem tableSum_cons (r : Row N) (rows : List (Row N)) (Q : N → Double → Bool) (c : Column) :
    tableSum (r :: rows) Q c
      = (if Q r.node r.timeBucket then r.amount c else 0) + tableSum rows Q c := rfl

omit [DecidableEq N] in
theorem tableSum_perm {rows rows' : List (Row N)} (h : rows.Perm rows') (Q : N → Double → Bool)
    (c : Column) : tableSum rows Q c = tableSum rows' Q c :=
  (h.map _).sum_eq

omit [DecidableEq N] in
/-- A selection is at most everything. -/
theorem tableSum_le_everything (rows : List (Row N)) (Q : N → Double → Bool) (c : Column) :
    tableSum rows Q c ≤ tableSum rows everything c := by
  refine List.sum_le_sum fun r _ => ?_
  show (if Q r.node r.timeBucket then r.amount c else 0) ≤ r.amount c
  split
  · exact Nat.le_refl _
  · exact Nat.zero_le _

omit [DecidableEq N] in
/-- One row is at most everything. -/
theorem amount_le_everything {rows : List (Row N)} {r : Row N} (h : r ∈ rows) (c : Column) :
    r.amount c ≤ tableSum rows everything c :=
  List.single_le_sum (fun _ _ => Nat.zero_le _) _ (List.mem_map_of_mem (f := fun r => r.amount c) h)

/-- The part of a booking that goes into a column. -/
def increment (feeCol amountCol : Column) (fee amount : Amount) (c : Column) : ℕ :=
  if c = feeCol then fee.toMsat.toNat
  else if c = amountCol then amount.toMsat.toNat
  else 0

omit [DecidableEq N] in
/-- Adding an amount to a cell is exact while it fits. -/
theorem add_exact {a : ℕ} {v : UInt64} (h : a + v.toNat < 2 ^ 63) :
    ((Value.int a).add (.bind v)).integerAffinity = .int ((a + v.toNat : ℕ) : ℤ) := by
  have hsum : (a : ℤ) + (v.toNat : ℤ) = ((a + v.toNat : ℕ) : ℤ) := (Nat.cast_add _ _).symm
  rw [Value.bind_of_lt (by omega), Value.add_int (by rw [hsum]; exact inRange_natCast h), hsum]
  rfl

omit [DecidableEq N] in
/-- A booking on an exact row, cell by cell. -/
theorem cell_book {r : Row N} (hr : r.Exact) {feeCol amountCol : Column} {fee amount : Amount}
    (hfit : ∀ c, r.amount c + increment feeCol amountCol fee amount c < 2 ^ 63) (c : Column) :
    (r.book feeCol amountCol fee amount).cell c
      = .int ((r.amount c + increment feeCol amountCol fee amount c : ℕ) : ℤ) := by
  have hc := hfit c
  unfold increment at hc ⊢
  show (if c = feeCol then ((r.cell c).add (.bind fee.toMsat)).integerAffinity
    else if c = amountCol then ((r.cell c).add (.bind amount.toMsat)).integerAffinity
    else r.cell c) = _
  rw [hr c]
  by_cases h1 : c = feeCol
  · rw [if_pos h1] at hc ⊢
    rw [if_pos h1]
    exact add_exact hc
  rw [if_neg h1] at hc ⊢
  rw [if_neg h1]
  by_cases h2 : c = amountCol
  · rw [if_pos h2] at hc ⊢
    rw [if_pos h2]
    exact add_exact hc
  rw [if_neg h2, if_neg h2, Nat.add_zero]

omit [DecidableEq N] in
theorem amount_book {r : Row N} (hr : r.Exact) {feeCol amountCol : Column} {fee amount : Amount}
    (hfit : ∀ c, r.amount c + increment feeCol amountCol fee amount c < 2 ^ 63) (c : Column) :
    (r.book feeCol amountCol fee amount).amount c
      = r.amount c + increment feeCol amountCol fee amount c := by
  unfold Row.amount
  rw [cell_book hr hfit c]
  exact Int.toNat_natCast _

/-! ## What one statement does to the sums -/

/-- A table whose cells are exact and whose column sums are `W`, whatever is selected. -/
structure Holds (t : Buckets N) (W : (N → Double → Bool) → Column → ℕ) : Prop where
  exact : ∀ r ∈ t.rows, r.Exact
  sums  : ∀ Q c, tableSum t.rows Q c = W Q c

variable {t : Buckets N} {W : (N → Double → Bool) → Column → ℕ}

/-- STEP: `ensure` adds at most a row of zeros. -/
theorem Holds.ensure (h : Holds t W) (node : N) (bucket : Double) :
    Holds (ensure t node bucket) W := by
  unfold EarningsTracker.ensure Table.insertOrIgnore
  by_cases hnone : t.get (Row.key ⟨node, bucket, fun _ => .int 0⟩) = none
  · rw [dif_pos hnone]
    refine ⟨?_, ?_⟩
    · intro r hr
      rcases List.mem_append.mp hr with hr | hr
      · exact h.exact r hr
      · rw [List.mem_singleton.mp hr]
        intro c
        rfl
    · intro Q c
      show tableSum (t.rows ++ [_]) Q c = W Q c
      rw [tableSum_perm (List.perm_append_singleton _ _), tableSum_cons, h.sums Q c]
      show (if Q node bucket then 0 else 0) + W Q c = W Q c
      rw [ite_self, Nat.zero_add]
  · rw [dif_neg hnone]
    exact h

/-- STEP: a booking on a row that is there adds its amounts to that row. -/
theorem Holds.book (h : Holds t W) (feeCol amountCol : Column) {node : N} {bucket : Double}
    (fee amount : Amount) (hkey : t.get (node, bucket) ≠ none)
    (hfit : ∀ c, W everything c + increment feeCol amountCol fee amount c < 2 ^ 63) :
    Holds (book t feeCol amountCol node bucket fee amount)
      (fun Q c => W Q c
        + if Q node bucket then increment feeCol amountCol fee amount c else 0) := by
  obtain ⟨r, hr⟩ := Option.ne_none_iff_exists'.mp hkey
  have hmem := Table.mem_of_get hr
  have hexact := h.exact r hmem
  have hrfit : ∀ c, r.amount c + increment feeCol amountCol fee amount c < 2 ^ 63 := by
    intro c
    have h1 := amount_le_everything hmem c
    have h2 := hfit c
    rw [h.sums everything c] at h1
    omega
  have hperm := Table.update_rows_perm (Row.key_book feeCol amountCol fee amount) hr
  refine ⟨?_, ?_⟩
  · intro r' hr'
    obtain ⟨r₀, hr₀, rfl⟩ := List.mem_map.mp hr'
    by_cases hk : Row.key r₀ = (node, bucket)
    · rw [if_pos hk]
      have hsame : r₀ = r := by
        have := Table.get_of_mem hr₀
        rw [hk, hr] at this
        exact (Option.some.inj this).symm
      rw [hsame]
      intro c
      rw [cell_book hexact hrfit c, amount_book hexact hrfit c]
    · rw [if_neg hk]
      exact h.exact r₀ hr₀
  · intro Q c
    have hbefore := h.sums Q c
    rw [tableSum_perm (Table.rows_perm hr), tableSum_cons] at hbefore
    have hcond : Row.key r = (node, bucket) := Table.key_of_get hr
    obtain ⟨rfl, rfl⟩ := Prod.mk.inj (show (r.node, r.timeBucket) = (node, bucket) from hcond)
    show tableSum (t.update _ _ _).rows Q c = _
    rw [tableSum_perm hperm, tableSum_cons, ← hbefore]
    show (if Q r.node r.timeBucket then (r.book feeCol amountCol fee amount).amount c else 0) + _ = _
    rw [amount_book hexact hrfit c]
    split <;> omega

/-! ## Keys -/

theorem get_ensure_self (t : Buckets N) (node : N) (bucket : Double) :
    (ensure t node bucket).get (node, bucket) ≠ none := by
  have h := Table.get_insertOrIgnore_self t ⟨node, bucket, fun _ => .int 0⟩
  intro h0
  rw [show (ensure t node bucket).get (node, bucket) = _ from h] at h0
  exact nomatch h0

/-- `ensure` adds its key and keeps the others. -/
theorem get_ensure_iff (t : Buckets N) (node : N) (bucket : Double) (k : N × Double) :
    (ensure t node bucket).get k ≠ none ↔ t.get k ≠ none ∨ k = (node, bucket) := by
  by_cases hk : k = (node, bucket)
  · rw [hk]
    exact ⟨fun _ => .inr rfl, fun _ => get_ensure_self t node bucket⟩
  · have h := Table.get_insertOrIgnore_ne t ⟨node, bucket, fun _ => .int 0⟩ (k := k) hk
    rw [show (ensure t node bucket).get k = _ from h]
    exact ⟨.inl, fun h => h.resolve_right hk⟩

/-- A booking keeps the keys. -/
theorem get_book_iff (t : Buckets N) (feeCol amountCol : Column) (node : N) (bucket : Double)
    (fee amount : Amount) (k : N × Double) :
    (book t feeCol amountCol node bucket fee amount).get k ≠ none ↔ t.get k ≠ none := by
  unfold book
  by_cases hk : k = (node, bucket)
  · rw [hk, Table.get_update_self]
    exact not_congr Option.map_eq_none_iff
  · rw [Table.get_update_ne _ _ _ _ hk]

/-! ## What one event does -/

omit [DecidableEq N] in
theorem Holds.congr {W' : (N → Double → Bool) → Column → ℕ} (h : Holds t W)
    (hW : ∀ Q c, W Q c = W' Q c) : Holds t W' :=
  ⟨h.exact, fun Q c => (h.sums Q c).trans (hW Q c)⟩

/-- A side that may be unknown. -/
theorem Holds.attributeSide (h : Holds t W) (feeCol amountCol : Column) (peer : Option N)
    (bucket : Double) (fee amount : Amount)
    (hfit : ∀ c, W everything c + shareIn everything bucket
      (peer.map fun n => (n, increment feeCol amountCol fee amount c)) < 2 ^ 63) :
    Holds (attributeSide t feeCol amountCol peer bucket fee amount)
      (fun Q c => W Q c
        + shareIn Q bucket (peer.map fun n => (n, increment feeCol amountCol fee amount c))) := by
  cases peer with
  | none => exact h
  | some node => exact (h.ensure node bucket).book _ _ _ _ (get_ensure_self t node bucket) hfit

omit [DecidableEq N] in
/-- A forward is two bookings, one for each peer. -/
theorem shareIn_forwardFee (Q : N → Double → Bool) (bucket : Double) (inId outId : N)
    (fee amount : Amount) (c : Column) :
    shareIn Q bucket ((Event.forwardFee inId outId fee amount).share c)
      = (if Q inId bucket then increment .inEarnings .inForwarded fee amount c else 0)
        + (if Q outId bucket then increment .outEarnings .outForwarded fee amount c else 0) := by
  cases c <;> simp [increment, Event.share, shareIn]

omit [DecidableEq N] in
/-- An attribution is a booking for each known peer. -/
theorem shareIn_xrebalanceAttribution (Q : N → Double → Bool) (bucket : Double)
    (source destination : Option N) (amountMoved feeSpent : Amount) (c : Column) :
    shareIn Q bucket
        ((Event.xrebalanceAttribution source destination amountMoved feeSpent).share c)
      = shareIn Q bucket (source.map fun n =>
          (n, increment .inExpenditures .inRebalanced feeSpent amountMoved c))
        + shareIn Q bucket (destination.map fun n =>
          (n, increment .outExpenditures .outRebalanced feeSpent amountMoved c)) := by
  cases c <;> cases source <;> cases destination <;> simp [increment, Event.share, shareIn]

/-- STEP: an event adds its shares, whatever is selected. -/
theorem Holds.step (h : Holds t W) (now : Time) (e : Event N)
    (hfit : ∀ c, W everything c
      + shareIn everything (bucketTime now.now) (e.share c) < 2 ^ 63) :
    Holds (step t now e)
      (fun Q c => W Q c + shareIn Q (bucketTime now.now) (e.share c)) := by
  cases e with
  | forwardFee inId outId fee amount =>
      have hsum : ∀ c, W everything c + (increment .inEarnings .inForwarded fee amount c
          + increment .outEarnings .outForwarded fee amount c) < 2 ^ 63 := by
        intro c
        have hc := hfit c
        rw [shareIn_forwardFee] at hc
        exact hc
      -- both rows are there before the first booking
      have hout := get_ensure_self (EarningsTracker.ensure t inId (bucketTime now.now)) outId
        (bucketTime now.now)
      have hin := (get_ensure_iff (EarningsTracker.ensure t inId (bucketTime now.now)) outId
        (bucketTime now.now) _).mpr (.inl (get_ensure_self t inId (bucketTime now.now)))
      have h1 := ((h.ensure inId (bucketTime now.now)).ensure outId (bucketTime now.now)).book
        .inEarnings .inForwarded fee amount hin fun c => by
          have := hsum c
          omega
      have h2 := h1.book .outEarnings .outForwarded fee amount
        ((get_book_iff _ _ _ _ _ _ _ _).mpr hout) fun c => by
          have hc := hsum c
          rw [← Nat.add_assoc] at hc
          exact hc
      refine h2.congr fun Q c => ?_
      rw [shareIn_forwardFee, Nat.add_assoc]
  | xrebalanceAttribution source destination amountMoved feeSpent =>
      have hsum := hfit
      simp only [shareIn_xrebalanceAttribution] at hsum
      have h1 := h.attributeSide .inExpenditures .inRebalanced source
        (bucketTime now.now) feeSpent amountMoved fun c => by
          have := hsum c
          omega
      have h2 := h1.attributeSide .outExpenditures .outRebalanced destination
        (bucketTime now.now) feeSpent amountMoved fun c => by
          have := hsum c
          omega
      refine h2.congr fun Q c => ?_
      rw [shareIn_xrebalanceAttribution, Nat.add_assoc]

theorem get_attributeSide_iff (t : Buckets N) (feeCol amountCol : Column) (peer : Option N)
    (bucket : Double) (fee amount : Amount) (k : N × Double) :
    (attributeSide t feeCol amountCol peer bucket fee amount).get k ≠ none
      ↔ t.get k ≠ none ∨ ∃ n ∈ peer.toList, k = (n, bucket) := by
  cases peer with
  | none => simp [attributeSide]
  | some node => simp only [attributeSide, get_book_iff, get_ensure_iff, Option.toList_some,
      List.mem_singleton, exists_eq_left]

/-- STEP: the keys an event leaves behind. -/
theorem get_step_iff (t : Buckets N) (now : Time) (e : Event N) (k : N × Double) :
    (step t now e).get k ≠ none
      ↔ t.get k ≠ none ∨ ∃ n ∈ e.nodes, k = (n, bucketTime now.now) := by
  cases e with
  | forwardFee inId outId fee amount =>
      simp only [step, forwardFee, get_book_iff, get_ensure_iff, Event.nodes, List.mem_cons,
        List.not_mem_nil, or_false, exists_eq_or_imp, exists_eq_left, or_assoc]
  | xrebalanceAttribution source destination amountMoved feeSpent =>
      simp only [step, xrebalanceAttribution, get_attributeSide_iff, Event.nodes,
        List.mem_append, or_and_right, exists_or, or_assoc]

/-! ## What a run does -/

/-- The table agrees with the events. -/
structure Balanced (evs : List (Time × Event N)) (t : Buckets N) : Prop where
  holds : Holds t (booked evs)
  keys  : ∀ k, t.get k ≠ none ↔ ∃ e ∈ evs, ∃ n ∈ e.2.nodes, k = (n, bucketTime e.1.now)

omit [DecidableEq N] in
theorem booked_append (evs : List (Time × Event N)) (e : Time × Event N)
    (Q : N → Double → Bool) (c : Column) :
    booked (evs ++ [e]) Q c
      = booked evs Q c + shareIn Q (bucketTime e.1.now) (e.2.share c) := by
  unfold booked
  rw [List.map_append, List.sum_append, List.map_singleton, List.sum_singleton]

/-- RUN: after any events at any times the table agrees with them. -/
theorem balanced_run (evs : List (Time × Event N)) (hfit : Fits evs) : Balanced evs (run evs) := by
  induction evs using List.reverseRecOn with
  | nil =>
      refine ⟨⟨?_, ?_⟩, ?_⟩
      · intro r hr
        exact nomatch hr
      · intro Q c
        rfl
      · intro k
        constructor
        · intro h
          exact absurd rfl h
        · rintro ⟨e, he, _⟩
          exact nomatch he
  | append_singleton evs e ih =>
      have hfit' : ∀ c, booked evs everything c
          + shareIn everything (bucketTime e.1.now) (e.2.share c) < 2 ^ 63 := by
        intro c
        rw [← booked_append]
        exact hfit c
      have hbal := ih fun c => Nat.lt_of_le_of_lt (Nat.le_add_right _ _) (hfit' c)
      have hrun : run (evs ++ [e]) = step (run evs) e.1 e.2 := by
        unfold run
        rw [List.foldl_append, List.foldl_cons, List.foldl_nil]
      rw [hrun]
      refine ⟨(hbal.holds.step e.1 e.2 hfit').congr fun Q c => (booked_append evs e Q c).symm, ?_⟩
      intro k
      rw [get_step_iff, hbal.keys]
      constructor
      · rintro (⟨e', he', h⟩ | h)
        · exact ⟨e', List.mem_append_left _ he', h⟩
        · exact ⟨e, List.mem_append_right _ (List.mem_singleton.mpr rfl), h⟩
      · rintro ⟨e', he', h⟩
        rcases List.mem_append.mp he' with he' | he'
        · exact .inl ⟨e', he', h⟩
        · rw [List.mem_singleton.mp he'] at h
          exact .inr h

/-! ## What a query reports -/

omit [DecidableEq N] in
/-- Selecting rows and summing is summing over the selection. -/
theorem sum_filter (rows : List (Row N)) (Q : N → Double → Bool) (c : Column) :
    ((rows.filter fun r => Q r.node r.timeBucket).map fun r => r.amount c).sum
      = tableSum rows Q c := by
  induction rows with
  | nil => rfl
  | cons r rows ih =>
      rw [tableSum_cons, ← ih]
      by_cases h : Q r.node r.timeBucket = true
      · rw [if_pos h, List.filter_cons_of_pos (by exact h), List.map_cons, List.sum_cons]
      · rw [if_neg h, List.filter_cons_of_neg (by exact h), Nat.zero_add]

/-- A list of successes is a success. -/
theorem mapM_ok {ε α β : Type} {f : α → Except ε β} {g : α → β} :
    ∀ {l : List α}, (∀ x ∈ l, f x = .ok (g x)) → l.mapM f = .ok (l.map g) := by
  intro l
  induction l with
  | nil =>
      intro _
      rfl
  | cons x l ih =>
      intro h
      rw [List.mapM_cons, h x (List.mem_cons_self ..),
        ih fun y hy => h y (List.mem_cons_of_mem _ hy)]
      rfl

/-- The positions of `from_row` are those of the `SELECT`. -/
theorem get_fromRow (v : Column → Value) (c : Column) :
    (EarningsData.fromRow (selected.map v) 0).get c = (v c).getUInt64 := by
  cases c <;> rfl

omit [DecidableEq N] in
/-- Summing exact rows, at least one of them, gives the sums. -/
theorem selectSums_ok {rows : List (Row N)} (hexact : ∀ r ∈ rows, r.Exact) (hne : rows ≠ [])
    (hfit : ∀ c, (rows.map fun r => r.amount c).sum < 2 ^ 63) :
    selectSums rows
      = .ok (selected.map fun c => Value.int ((rows.map fun r => r.amount c).sum : ℕ)) := by
  refine mapM_ok fun c _ => ?_
  have hcells : rows.map (fun r => r.cell c)
      = (rows.map fun r => r.amount c).map fun n : ℕ => Value.int (n : ℤ) := by
    rw [List.map_map]
    exact List.map_congr_left fun r hr => hexact r hr c
  rw [hcells]
  exact Sql.sum_natCast (fun h => hne (List.map_eq_nil_iff.mp h)) (hfit c)

/-- The total accumulates field by field. -/
theorem toNat_total {κ : Type} (c : Column) :
    ∀ (entries : List (κ × EarningsData)) (acc : EarningsData),
      (acc.get c).toNat + (entries.map fun e => (e.2.get c).toNat).sum < 2 ^ 64 →
      ((entries.foldl (fun total e => total.add e.2) acc).get c).toNat
        = (acc.get c).toNat + (entries.map fun e => (e.2.get c).toNat).sum := by
  intro entries
  induction entries with
  | nil =>
      intro acc _
      rfl
  | cons e entries ih =>
      intro acc h
      rw [List.map_cons, List.sum_cons] at h
      have hadd : ((acc.add e.2).get c).toNat = (acc.get c).toNat + (e.2.get c).toNat := by
        have hget : (acc.add e.2).get c = acc.get c + e.2.get c := by cases c <;> rfl
        rw [hget, UInt64.toNat_add]
        exact Nat.mod_eq_of_lt (by omega)
      rw [List.foldl_cons, ih (acc.add e.2) (by omega), hadd, List.map_cons, List.sum_cons,
        Nat.add_assoc]

theorem toNat_total_of {κ : Type} (entries : List (κ × EarningsData)) (c : Column)
    (h : (entries.map fun e => (e.2.get c).toNat).sum < 2 ^ 64) :
    ((Report.of entries).total.get c).toNat = (entries.map fun e => (e.2.get c).toNat).sum := by
  have hzero : (EarningsData.zero.get c).toNat = 0 := by cases c <;> rfl
  have := toNat_total c entries EarningsData.zero (by rwa [hzero, Nat.zero_add])
  rwa [hzero, Nat.zero_add] at this

omit [DecidableEq N] in
/-- The groups together are the selection. -/
theorem sum_groups {κ : Type} [DecidableEq κ] (P : N → Double → Bool) (G : N → Double → κ)
    (c : Column) {ks : List κ} (hks : ks.Nodup) :
    ∀ {rows : List (Row N)},
      (∀ r ∈ rows, P r.node r.timeBucket = true → G r.node r.timeBucket ∈ ks) →
      (ks.map fun k => tableSum rows (fun n b => P n b && decide (G n b = k)) c).sum
        = tableSum rows P c := by
  intro rows
  induction rows with
  | nil =>
      intro _
      exact List.sum_eq_zero fun n hn => by
        obtain ⟨k, _, rfl⟩ := List.mem_map.mp hn
        rfl
  | cons r rows ih =>
      intro h
      have hrest := ih fun r' hr' => h r' (List.mem_cons_of_mem _ hr')
      simp only [tableSum_cons]
      rw [List.sum_map_add, hrest]
      congr 1
      by_cases hP : P r.node r.timeBucket = true
      · -- the row is in exactly one group
        have hmem := h r (List.mem_cons_self ..) hP
        simp only [hP, Bool.true_and, decide_eq_true_eq, if_true]
        rw [List.sum_map_eq_nsmul_single (G r.node r.timeBucket) _
            (fun k hk _ => if_neg (Ne.symm hk)),
          List.count_eq_one_of_mem hks hmem, one_nsmul, if_pos rfl]
      · simp [hP]

/-- What a query claims of its report: one entry for each group of the selected
    buckets that has an event, each entry the sums over exactly the events of
    that group, and the total over exactly the selected events. -/
structure Covers {κ : Type} [DecidableEq κ] (evs : List (Time × Event N))
    (P : N → Double → Bool) (G : N → Double → κ) (rep : Report κ) : Prop where
  nodup : (rep.entries.map Prod.fst).Nodup
  keys  : ∀ k, k ∈ rep.entries.map Prod.fst ↔ ∃ e ∈ evs, ∃ n ∈ e.2.nodes,
    P n (bucketTime e.1.now) = true ∧ G n (bucketTime e.1.now) = k
  entry : ∀ k d, (k, d) ∈ rep.entries →
    ∀ c, (d.get c).toNat = booked evs (fun n b => P n b && decide (G n b = k)) c
  total : ∀ c, (rep.total.get c).toNat = booked evs P c

section Queries

variable {κ : Type} [DecidableEq κ] {evs : List (Time × Event N)}

omit [DecidableEq κ] in
/-- The keys of a selection of rows are those of the selected events. -/
theorem Balanced.exists_row_iff (h : Balanced evs t) (P : N → Double → Bool)
    (G : N → Double → κ) (k : κ) :
    (∃ r ∈ t.rows, P r.node r.timeBucket = true ∧ G r.node r.timeBucket = k)
      ↔ ∃ e ∈ evs, ∃ n ∈ e.2.nodes,
        P n (bucketTime e.1.now) = true ∧ G n (bucketTime e.1.now) = k := by
  constructor
  · rintro ⟨r, hr, hP, hG⟩
    have hkey : t.get (Row.key r) ≠ none := by
      rw [Table.get_of_mem hr]
      exact Option.some_ne_none r
    obtain ⟨e, he, n, hn, hk⟩ := (h.keys _).mp hkey
    obtain ⟨h1, h2⟩ := Prod.mk.inj (show (r.node, r.timeBucket) = _ from hk)
    rw [h1, h2] at hP hG
    exact ⟨e, he, n, hn, hP, hG⟩
  · rintro ⟨e, he, n, hn, hP, hG⟩
    have hkey := (h.keys (n, bucketTime e.1.now)).mpr ⟨e, he, n, hn, rfl⟩
    obtain ⟨r, hr⟩ := Option.ne_none_iff_exists'.mp hkey
    have hcond : Row.key r = (n, bucketTime e.1.now) := Table.key_of_get hr
    obtain ⟨h1, h2⟩ := Prod.mk.inj (show (r.node, r.timeBucket) = _ from hcond)
    rw [← h1, ← h2] at hP hG
    exact ⟨r, Table.mem_of_get hr, hP, hG⟩

/-- No selection of a balanced table overflows. -/
theorem Balanced.tableSum_lt (h : Balanced evs t) (hfit : Fits evs) (Q : N → Double → Bool)
    (c : Column) : tableSum t.rows Q c < 2 ^ 63 := by
  refine Nat.lt_of_le_of_lt (tableSum_le_everything t.rows Q c) ?_
  rw [h.holds.sums]
  exact hfit c

/-- A report whose entries are the sums of the groups covers the events. -/
theorem Balanced.covers_of_entries (h : Balanced evs t) (hfit : Fits evs)
    (P : N → Double → Bool) (G : N → Double → κ) {entries : List (κ × EarningsData)}
    (hnodup : (entries.map Prod.fst).Nodup)
    (hkeys : ∀ k, k ∈ entries.map Prod.fst
      ↔ ∃ r ∈ t.rows, P r.node r.timeBucket = true ∧ G r.node r.timeBucket = k)
    (hentry : ∀ e ∈ entries, ∀ c, (e.2.get c).toNat
      = tableSum t.rows (fun n b => P n b && decide (G n b = e.1)) c) :
    Covers evs P G (Report.of entries) where
  nodup := hnodup
  keys := fun k => (hkeys k).trans (h.exists_row_iff P G k)
  entry := by
    intro k d hmem c
    rw [hentry (k, d) hmem c, h.holds.sums]
  total := by
    intro c
    have hgroups : (entries.map fun e => (e.2.get c).toNat).sum = tableSum t.rows P c := by
      rw [List.map_congr_left fun e he => hentry e he c,
        ← sum_groups P G c hnodup fun r hr hP => (hkeys _).mpr ⟨r, hr, hP, rfl⟩, List.map_map]
      rfl
    have hlt := h.tableSum_lt hfit P c
    rw [toNat_total_of entries c (by rw [hgroups]; omega), hgroups, h.holds.sums]

/-- Summing a selection that is not empty. -/
theorem Balanced.selectSums_filter (h : Balanced evs t) (hfit : Fits evs)
    (Q : N → Double → Bool) (hne : ∃ r ∈ t.rows, Q r.node r.timeBucket = true) :
    selectSums (t.rows.filter fun r => Q r.node r.timeBucket)
      = .ok (selected.map fun c => Value.int (tableSum t.rows Q c : ℕ)) := by
  have hsums := fun c => sum_filter t.rows Q c
  rw [selectSums_ok, List.map_congr_left fun c _ => by rw [hsums c]]
  · intro r hr
    exact h.holds.exact r (List.mem_of_mem_filter hr)
  · obtain ⟨r, hr, hQ⟩ := hne
    exact List.ne_nil_of_mem (List.mem_filter.mpr ⟨hr, hQ⟩)
  · intro c
    rw [hsums c]
    exact h.tableSum_lt hfit Q c

omit [DecidableEq N] in
/-- When every group can be summed, the query reports those sums. -/
theorem groupBy_eq {g : Row N → κ} {rows : List (Row N)} {S : κ → Column → ℕ}
    (h : ∀ k ∈ (rows.map g).dedup, selectSums (rows.filter fun r => g r = k)
      = .ok (selected.map fun c => Value.int (S k c))) :
    groupBy g rows = .ok (Report.of ((rows.map g).dedup.map fun k =>
      (k, EarningsData.fromRow (selected.map fun c => Value.int (S k c)) 0))) := by
  unfold groupBy
  rw [mapM_ok (g := fun k =>
    (k, EarningsData.fromRow (selected.map fun c => Value.int (S k c)) 0)) fun k hk => by
      rw [h k hk]
      rfl]
  rfl

/-- GROUPED QUERIES. -/
theorem Balanced.groupBy (h : Balanced evs t) (hfit : Fits evs) (P : N → Double → Bool)
    (G : N → Double → κ) :
    ∃ rep, groupBy (fun r => G r.node r.timeBucket)
        (t.rows.filter fun r => P r.node r.timeBucket) = .ok rep ∧ Covers evs P G rep := by
  have hmem : ∀ k, k ∈ ((t.rows.filter fun r => P r.node r.timeBucket).map
        fun r => G r.node r.timeBucket).dedup
      ↔ ∃ r ∈ t.rows, P r.node r.timeBucket = true ∧ G r.node r.timeBucket = k := by
    intro k
    rw [List.mem_dedup, List.mem_map]
    simp only [List.mem_filter, and_assoc]
  have hfst : ∀ ks : List κ, (ks.map fun k => (k, EarningsData.fromRow (selected.map fun c =>
      Value.int (tableSum t.rows (fun n b => P n b && decide (G n b = k)) c : ℕ)) 0)).map Prod.fst
        = ks := by
    intro ks
    rw [List.map_map]
    exact List.map_id _
  refine ⟨_, groupBy_eq (S := fun k c =>
    tableSum t.rows (fun n b => P n b && decide (G n b = k)) c) ?_, ?_⟩
  · -- every group is the selection `P` and `G = k`, and has a row
    intro k hk
    have hgroup : (t.rows.filter fun r => P r.node r.timeBucket).filter
          (fun r => decide (G r.node r.timeBucket = k))
        = t.rows.filter fun r => P r.node r.timeBucket && decide (G r.node r.timeBucket = k) := by
      rw [List.filter_filter]
      exact List.filter_congr fun r _ => Bool.and_comm _ _
    obtain ⟨r, hr, hP, hG⟩ := (hmem k).mp hk
    rw [hgroup]
    exact h.selectSums_filter hfit (fun n b => P n b && decide (G n b = k))
      ⟨r, hr, by rw [hP, decide_eq_true hG]; rfl⟩
  · refine h.covers_of_entries hfit P G ?_ ?_ ?_
    · rw [hfst]
      exact List.nodup_dedup _
    · intro k
      rw [hfst]
      exact hmem k
    · intro e he c
      obtain ⟨k, _, rfl⟩ := List.mem_map.mp he
      rw [get_fromRow, Value.toNat_getUInt64 (h.tableSum_lt hfit _ c)]

/-- UNGROUPED QUERIES: the listed rows are told apart by what is listed. -/
theorem Balanced.eachRow (h : Balanced evs t) (hfit : Fits evs) (P : N → Double → Bool)
    (G : N → Double → κ)
    (hinj : ∀ r ∈ t.rows, ∀ r' ∈ t.rows, P r.node r.timeBucket = true →
      P r'.node r'.timeBucket = true → G r.node r.timeBucket = G r'.node r'.timeBucket → r = r') :
    Covers evs P G (eachRow (fun r => G r.node r.timeBucket)
      (t.rows.filter fun r => P r.node r.timeBucket)) := by
  have hrows : t.rows.Nodup := List.Nodup.of_map _ t.nodup
  refine h.covers_of_entries hfit P G ?_ ?_ ?_
  · rw [List.map_map]
    refine List.Nodup.map_on ?_ (hrows.filter _)
    intro r hr r' hr' heq
    obtain ⟨hr, hP⟩ := List.mem_filter.mp hr
    obtain ⟨hr', hP'⟩ := List.mem_filter.mp hr'
    exact hinj r hr r' hr' hP hP' heq
  · intro k
    rw [List.map_map, List.mem_map]
    simp only [List.mem_filter, and_assoc]
    rfl
  · intro e he c
    obtain ⟨r, hr, rfl⟩ := List.mem_map.mp he
    obtain ⟨hr, hP⟩ := List.mem_filter.mp hr
    -- the group of one row is that row
    have hone : tableSum t.rows
        (fun n b => P n b && decide (G n b = G r.node r.timeBucket)) c = r.amount c := by
      rw [tableSum_perm (Table.rows_perm (Table.get_of_mem hr)), tableSum_cons,
        if_pos (by simp [hP])]
      refine Nat.add_eq_left.mpr (List.sum_eq_zero ?_)
      intro n hn
      obtain ⟨r', hr', rfl⟩ := List.mem_map.mp hn
      refine if_neg ?_
      rw [Bool.and_eq_true, decide_eq_true_eq]
      rintro ⟨hP', hG'⟩
      obtain ⟨hmem', hne⟩ := List.mem_filter.mp hr'
      rw [hinj r' hmem' r hr hP' hP hG'] at hne
      exact of_decide_eq_true hne rfl
    have hlt := h.tableSum_lt hfit (fun n b => P n b && decide (G n b = G r.node r.timeBucket)) c
    rw [hone] at hlt
    show ((EarningsData.fromRow (selected.map r.cell) 0).get c).toNat = _
    rw [get_fromRow, h.holds.exact r hr c, Value.toNat_getUInt64 hlt, hone]

/-- The message repeats the sums of the node, which are zeros when it has no row. -/
theorem Balanced.requestEarningsInfo (h : Balanced evs t) (hfit : Fits evs) (node : N) :
    ∃ info, requestEarningsInfo t node = .ok info ∧ info.node = node
      ∧ ∀ c, (info.get c).toMsat.toNat = booked evs (ofNode node) c := by
  have hread : ∀ v : Column → Value, selectSums (t.rows.filter fun r => r.node = node)
        = .ok (selected.map v) →
      (∀ c, ((v c).getUInt64).toNat = booked evs (ofNode node) c) →
      ∃ info, EarningsTracker.requestEarningsInfo t node = .ok info ∧ info.node = node
        ∧ ∀ c, (info.get c).toMsat.toNat = booked evs (ofNode node) c := by
    intro v hv hb
    unfold EarningsTracker.requestEarningsInfo
    rw [hv]
    refine ⟨_, rfl, rfl, fun c => ?_⟩
    rw [← hb c]
    cases c <;> rfl
  by_cases hne : ∃ r ∈ t.rows, ofNode node r.node r.timeBucket = true
  · refine hread _ (h.selectSums_filter hfit (ofNode node) hne) fun c => ?_
    rw [Value.toNat_getUInt64 (h.tableSum_lt hfit _ c), h.holds.sums]
  · have hnil : t.rows.filter (fun r => ofNode node r.node r.timeBucket) = [] := by
      rw [List.filter_eq_nil_iff]
      intro r hr hq
      exact hne ⟨r, hr, hq⟩
    refine hread (fun _ => .null) ?_ fun c => ?_
    · rw [show t.rows.filter (fun r => r.node = node) = [] from hnil]
      rfl
    · rw [← h.holds.sums, ← sum_filter, hnil]
      rfl

/-- The column sums over everything, in the words of the events. -/
theorem Balanced.columnSum_eq (h : Balanced evs t) {c : Column} {f : Event N → ℕ}
    (hf : ∀ e : Event N, ∀ b, shareIn everything b (e.share c) = f e) :
    columnSum t c = ((evs.map fun e => f e.2).sum : ℕ) := by
  have hcells : columnSum t c = (tableSum t.rows everything c : ℕ) := by
    unfold columnSum tableSum
    rw [Nat.cast_list_sum, List.map_map]
    congr 1
    refine List.map_congr_left fun r hr => ?_
    rw [h.holds.exact r hr c]
    rfl
  have hbooked : booked evs everything c = (evs.map fun e => f e.2).sum := by
    unfold booked
    congr 1
    exact List.map_congr_left fun e _ => hf e.2 _
  rw [hcells, h.holds.sums, hbooked]

end Queries

omit [DecidableEq N] in
/-- Every row is selected by `everything`. -/
theorem filter_everything (rows : List (Row N)) :
    rows.filter (fun r => everything r.node r.timeBucket) = rows :=
  List.filter_eq_self.mpr fun _ _ => rfl

/-- **CONSERVATION**: after any forwards and attributions at any times, each
    column sums to what the events say, and each query reports, for every
    group and in total, the sums over exactly the events in the buckets it
    covers. -/
theorem conserves (evs : List (Time × Event N)) (hfit : Fits evs) :
    (columnSum (run evs) .inEarnings = ((evs.map fun e => e.2.fee).sum : ℕ)
      ∧ columnSum (run evs) .outEarnings = ((evs.map fun e => e.2.fee).sum : ℕ)
      ∧ columnSum (run evs) .inForwarded = ((evs.map fun e => e.2.forwarded).sum : ℕ)
      ∧ columnSum (run evs) .outForwarded = ((evs.map fun e => e.2.forwarded).sum : ℕ)
      ∧ columnSum (run evs) .inExpenditures
        = ((evs.map fun e => e.2.spent fun source _ => source).sum : ℕ)
      ∧ columnSum (run evs) .inRebalanced
        = ((evs.map fun e => e.2.moved fun source _ => source).sum : ℕ)
      ∧ columnSum (run evs) .outExpenditures
        = ((evs.map fun e => e.2.spent fun _ destination => destination).sum : ℕ)
      ∧ columnSum (run evs) .outRebalanced
        = ((evs.map fun e => e.2.moved fun _ destination => destination).sum : ℕ))
    ∧ (∃ rep, status (run evs) = .ok rep ∧ Covers evs everything (fun n _ => n) rep)
    ∧ (∀ now days, ∃ rep, recentEarningsReport (run evs) now days = .ok rep
        ∧ Covers evs (fun _ b => (cutoff now days).le b) (fun n _ => n) rep)
    ∧ (∃ rep, historyAll (run evs) = .ok rep ∧ Covers evs everything (fun _ b => b) rep)
    ∧ (∀ nodeid, Covers evs (ofNode nodeid) (fun _ b => b) (historyOf (run evs) nodeid))
    ∧ Covers evs everything (fun n b => (n, b)) (historyByNode (run evs))
    ∧ (∀ node, ∃ info, requestEarningsInfo (run evs) node = .ok info ∧ info.node = node
        ∧ ∀ c, (info.get c).toMsat.toNat = booked evs (ofNode node) c) := by
  have h := balanced_run evs hfit
  have hkey : ∀ r ∈ (run evs).rows, ∀ r' ∈ (run evs).rows,
      r.node = r'.node → r.timeBucket = r'.timeBucket → r = r' := by
    intro r hr r' hr' hn hb
    exact List.inj_on_of_nodup_map (run evs).nodup hr hr' (Prod.ext hn hb)
  refine ⟨⟨?_, ?_, ?_, ?_, ?_, ?_, ?_, ?_⟩, ?_, ?_, ?_, ?_, ?_, ?_⟩
  · exact h.columnSum_eq fun e _ => by cases e <;> rfl
  · exact h.columnSum_eq fun e _ => by cases e <;> rfl
  · exact h.columnSum_eq fun e _ => by cases e <;> rfl
  · exact h.columnSum_eq fun e _ => by cases e <;> rfl
  · refine h.columnSum_eq fun e _ => ?_
    rcases e with _ | ⟨_ | _, _⟩ <;> rfl
  · refine h.columnSum_eq fun e _ => ?_
    rcases e with _ | ⟨_ | _, _⟩ <;> rfl
  · refine h.columnSum_eq fun e _ => ?_
    rcases e with _ | ⟨_, _ | _⟩ <;> rfl
  · refine h.columnSum_eq fun e _ => ?_
    rcases e with _ | ⟨_, _ | _⟩ <;> rfl
  · have key := h.groupBy hfit everything (fun n _ => n)
    rwa [filter_everything] at key
  · intro now days
    exact h.groupBy hfit (fun _ b => (cutoff now days).le b) (fun n _ => n)
  · have key := h.groupBy hfit everything (fun _ b => b)
    rwa [filter_everything] at key
  · intro nodeid
    refine h.eachRow hfit (ofNode nodeid) (fun _ b => b) ?_
    intro r hr r' hr' hP hP' hb
    exact hkey r hr r' hr' ((of_decide_eq_true hP).trans (of_decide_eq_true hP').symm) hb
  · have key := h.eachRow hfit everything (fun n b => (n, b)) fun r hr r' hr' _ _ hG =>
      hkey r hr r' hr' (congrArg Prod.fst hG) (congrArg Prod.snd hG)
    rwa [filter_everything] at key
  · exact h.requestEarningsInfo hfit

/-- The epoch. -/
def epoch : Time := ⟨.finite 0, Double.noConfusion⟩

/-- Two forwards on different days, the later one booked first, and a rebalance
    whose source is unknown. -/
def sampleEvents : List (Time × Event ℕ) :=
  [ (⟨.finite 100000, Double.noConfusion⟩, .forwardFee 1 2 ⟨1000⟩ ⟨500000⟩)
  , (epoch, .forwardFee 2 1 ⟨2000⟩ ⟨700000⟩)
  , (epoch, .xrebalanceAttribution none (some 2) ⟨90000⟩ ⟨30⟩) ]

theorem fits_sampleEvents : Fits sampleEvents := by
  intro c
  cases c <;> decide

/-- The sample: two of its column sums and the history of one of its nodes. -/
theorem conserves_sampleEvents :
    Fits sampleEvents
    ∧ columnSum (run sampleEvents) .inEarnings = 3000
    ∧ columnSum (run sampleEvents) .outExpenditures = 30
    ∧ Covers sampleEvents (ofNode 2) (fun _ b => b) (historyOf (run sampleEvents) 2) := by
  have h := conserves sampleEvents fits_sampleEvents
  exact ⟨fits_sampleEvents, h.1.1, h.1.2.2.2.2.2.2.1, h.2.2.2.2.1 2⟩

/-- Two forwards of half the range, from one node on one day. -/
def hugeForwards : List (Time × Event ℕ) :=
  [ (epoch, .forwardFee 1 2 ⟨0⟩ ⟨0x4000000000000000⟩)
  , (epoch, .forwardFee 1 2 ⟨0⟩ ⟨0x4000000000000000⟩) ]

/-- OVERFLOW: the forwarded amounts sum to `2 ^ 63`, which is no integer for
    SQLite: the column becomes a REAL and reads as one millisatoshi less. -/
theorem overflow_hugeForwards :
    (hugeForwards.map fun e => e.2.forwarded).sum = 2 ^ 63
    ∧ columnSum (run hugeForwards) .inForwarded = 2 ^ 63 - 1
    ∧ columnSum (run hugeForwards) .outForwarded = 2 ^ 63 - 1 := by
  refine ⟨?_, ?_, ?_⟩ <;> decide +kernel

end EarningsTracker
