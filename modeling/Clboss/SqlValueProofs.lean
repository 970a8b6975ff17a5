import Clboss.DoubleProofs

/-! # SQLite values — 64-bit integers that turn into reals

    A column of integer affinity holds a signed 64-bit integer until an addition
    does not fit; then the sum is a REAL and stays one unless it is a whole
    number that fits again.  `sum` is the aggregate: over integers it is exact
    or an error, over anything else it is a REAL.

    Everything a program wants to know about sums of amounts is `sum_natCast`:
    while the total stays below `2 ^ 63` nothing of this shows. -/

namespace Sql

/-- A stored or computed value. -/
inductive Value where
  | null
  | int (v : ℤ)
  | real (x : Double)
deriving DecidableEq

/-- The range of a signed 64-bit integer. -/
def InRange (n : ℤ) : Prop := -2 ^ 63 ≤ n ∧ n < 2 ^ 63

instance (n : ℤ) : Decidable (InRange n) := inferInstanceAs (Decidable (_ ∧ _))

theorem inRange_natCast {n : ℕ} (h : n < 2 ^ 63) : InRange (n : ℤ) :=
  ⟨by omega, by exact_mod_cast h⟩

namespace Value

/-- `sqlite3_bind_int64` of an unsigned 64-bit value: the upper half is negative. -/
def bind (v : UInt64) : Value :=
  .int (if v.toNat < 2 ^ 63 then v.toNat else (v.toNat : ℤ) - 2 ^ 64)

/-- The value in a floating-point expression. -/
def toDouble : Value → Double
  | .null   => .finite 0
  | .int n  => Double.ofInt n
  | .real x => x

/-- `a + b`: exact while it fits, a REAL after that. -/
def add : Value → Value → Value
  | .null, _ => .null
  | _, .null => .null
  | .int a, .int b =>
      if InRange (a + b) then .int (a + b)
      else .real ((Double.ofInt a).add (Double.ofInt b))
  | a, b => .real (a.toDouble.add b.toDouble)

/-- Storing into a column of integer affinity: a REAL that is a whole number
    within the range becomes that integer. -/
def integerAffinity : Value → Value
  | .real (.finite q) =>
      if q.den = 1 ∧ -2 ^ 63 < q.num ∧ q.num < 2 ^ 63 - 1 then .int q.num
      else .real (.finite q)
  | v => v

/-- `sqlite3_column_int64`: a REAL is truncated and clamped to the range. -/
def columnInt64 : Value → ℤ
  | .null  => 0
  | .int n => n
  | .real (.finite q) =>
      max (-2 ^ 63) (min (2 ^ 63 - 1) (if 0 ≤ q then ⌊q⌋ else ⌈q⌉))
  | .real .posInf => 2 ^ 63 - 1
  | .real .negInf => -2 ^ 63
  | .real .nan    => 0

/-- Reading a column into an unsigned 64-bit variable. -/
def getUInt64 (v : Value) : UInt64 := UInt64.ofNat (v.columnInt64 % 2 ^ 64).toNat

/-- The order of `ORDER BY`: `NULL` first, then numbers by what they are, integers
    and reals alike.  A NaN is stored as `NULL`. -/
def rank : Value → WithBot (WithBot (WithTop ℚ))
  | .null             => ⊥
  | .int n            => ((n : ℚ) : WithTop ℚ)
  | .real (.finite q) => (q : WithTop ℚ)
  | .real .posInf     => ⊤
  | .real .negInf     => (⊥ : WithBot (WithTop ℚ))
  | .real .nan        => ⊥

theorem rank_int_le {a b : ℤ} : (Value.int a).rank ≤ (Value.int b).rank ↔ a ≤ b := by
  show (((a : ℚ) : WithTop ℚ) : WithBot (WithBot (WithTop ℚ))) ≤ (((b : ℚ) : WithTop ℚ)) ↔ _
  rw [WithBot.coe_le_coe, WithBot.coe_le_coe, WithTop.coe_le_coe, Int.cast_le]

theorem bind_of_lt {v : UInt64} (h : v.toNat < 2 ^ 63) : bind v = .int v.toNat := by
  unfold bind
  rw [if_pos h]

theorem add_int {a b : ℤ} (h : InRange (a + b)) : add (.int a) (.int b) = .int (a + b) := by
  show (if InRange (a + b) then Value.int (a + b) else _) = _
  rw [if_pos h]

theorem toNat_getUInt64 {n : ℕ} (h : n < 2 ^ 63) : (getUInt64 (.int n)).toNat = n := by
  have hmod : ((n : ℤ) % 2 ^ 64).toNat = n := by omega
  show (UInt64.ofNat ((n : ℤ) % 2 ^ 64).toNat).toNat = n
  rw [hmod]
  exact Nat.mod_eq_of_lt (by omega)

end Value

/-! ## The aggregate -/

/-- The error "integer overflow". -/
inductive Overflow where
  | integerOverflow
deriving DecidableEq, Repr

/-- Integers are added one by one; leaving the range is an error. -/
def sumInts (acc : ℤ) : List ℤ → Except Overflow ℤ
  | []      => .ok acc
  | n :: ns => if InRange (acc + n) then sumInts (acc + n) ns else .error .integerOverflow

/-- The integers among values that are all integers. -/
def allInts : List Value → Option (List ℤ)
  | []           => some []
  | .int n :: vs => (allInts vs).map (n :: ·)
  | _            => none

/-- `SUM`: no row is `NULL`; integers give an integer or an error; a REAL among
    them gives a REAL. -/
def sum (vs : List Value) : Except Overflow Value :=
  let vs := vs.filter (· ≠ .null)
  if vs = [] then .ok .null
  else match allInts vs with
    | some ns => (sumInts 0 ns).map .int
    | none    => .ok (.real (vs.foldl (fun x v => x.add v.toDouble) (.finite 0)))

/-- Non-negative integers whose total fits never leave the range on the way. -/
theorem sumInts_natCast : ∀ (ns : List ℕ) (acc : ℕ), acc + ns.sum < 2 ^ 63 →
    sumInts acc (ns.map (Nat.cast : ℕ → ℤ)) = .ok ((acc + ns.sum : ℕ) : ℤ) := by
  intro ns
  induction ns with
  | nil =>
      intro acc _
      rfl
  | cons n ns ih =>
      intro acc h
      rw [List.sum_cons] at h
      have hin : InRange ((acc : ℤ) + (n : ℤ)) := by
        rw [← Nat.cast_add]
        exact inRange_natCast (by omega)
      show (if InRange ((acc : ℤ) + (n : ℤ)) then sumInts ((acc : ℤ) + (n : ℤ)) _ else _) = _
      rw [if_pos hin, ← Nat.cast_add, ih (acc + n) (by omega), List.sum_cons, Nat.add_assoc]

theorem allInts_natCast (ns : List ℕ) :
    allInts (ns.map fun n : ℕ => Value.int (n : ℤ)) = some (ns.map (Nat.cast : ℕ → ℤ)) := by
  induction ns with
  | nil => rfl
  | cons n ns ih =>
      show (allInts (ns.map fun n : ℕ => Value.int (n : ℤ))).map _ = _
      rw [ih]
      rfl

/-- **EXACT SUMS**: over at least one row the aggregate of amounts whose total
    fits is that total. -/
theorem sum_natCast {ns : List ℕ} (hne : ns ≠ []) (h : ns.sum < 2 ^ 63) :
    sum (ns.map fun n : ℕ => Value.int (n : ℤ)) = .ok (.int ns.sum) := by
  have hfilter : (ns.map fun n : ℕ => Value.int (n : ℤ)).filter (· ≠ .null)
      = ns.map fun n : ℕ => Value.int (n : ℤ) := by
    rw [List.filter_eq_self]
    intro v hv
    obtain ⟨n, _, rfl⟩ := List.mem_map.mp hv
    rfl
  have hmap : (ns.map fun n : ℕ => Value.int (n : ℤ)) ≠ [] := fun h0 => hne (List.map_eq_nil_iff.mp h0)
  unfold sum
  simp only [hfilter, if_neg hmap, allInts_natCast]
  have := sumInts_natCast ns 0 (by rwa [Nat.zero_add])
  rw [Nat.zero_add, Nat.cast_zero] at this
  rw [this]
  rfl

end Sql
