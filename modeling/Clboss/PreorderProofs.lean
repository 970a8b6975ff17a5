import Mathlib.Data.List.Basic

/-! # Trees in a row

    A tree is written into a row with its root first and, at every node, the
    number of its children.  Nothing else tells where a subtree ends: to go past
    one is to count down its children, and theirs (`skip`).

    Whatever the nesting, the count comes out right (`skip_laid`), and every
    place it reads is a place of the row. -/

namespace Preorder

variable {α : Type*}

/-- A tree whose nodes have any number of children, in order. -/
inductive Tree (α : Type*) where
  | node (a : α) (children : List (Tree α))

mutual

/-- The row of a tree: its nodes, each with the number of its children. -/
def Tree.row : Tree α → List (α × ℕ)
  | .node a ts => (a, ts.length) :: rows ts

/-- The rows of some trees, one after the other. -/
def rows : List (Tree α) → List (α × ℕ)
  | []      => []
  | t :: ts => t.row ++ rows ts

end

/-- The number of nodes. -/
def Tree.size (t : Tree α) : ℕ := t.row.length

theorem size_node (a : α) (ts : List (Tree α)) :
    (Tree.node a ts).size = (rows ts).length + 1 := by
  rw [Tree.size, Tree.row, List.length_cons]

theorem size_pos (t : Tree α) : 0 < t.size := by
  obtain ⟨a, ts⟩ := t
  rw [size_node]
  exact Nat.succ_pos _

theorem length_rows_cons (t : Tree α) (ts : List (Tree α)) :
    (rows (t :: ts)).length = t.size + (rows ts).length := by
  rw [rows, List.length_append, Tree.size]

/-! ## Going past a subtree -/

/-- `n` steps. -/
def steps (next : ℕ → Option ℕ) : ℕ → ℕ → Option ℕ
  | 0, i     => some i
  | n + 1, i => (next i).bind (steps next n)

/-- Past the subtree at `i`: past its root, and once more for every child of the
    root.  `none` is a place that has no count; `fuel` bounds the nesting. -/
def skip (count : ℕ → Option ℕ) : ℕ → ℕ → Option ℕ
  | 0, _        => none
  | fuel + 1, i => (count i).bind (fun n => steps (skip count fuel) n (i + 1))

/-! ## Layouts -/

/-- The row has the tree at `i`. -/
def Laid (row : List (α × ℕ)) (i : ℕ) (t : Tree α) : Prop := t.row <+: row.drop i

/-- The row has the trees from `i` on. -/
def LaidAll (row : List (α × ℕ)) (i : ℕ) (ts : List (Tree α)) : Prop := rows ts <+: row.drop i

theorem prefix_drop {l l' row : List (α × ℕ)} {i : ℕ} (h : l ++ l' <+: row.drop i) :
    l <+: row.drop i ∧ l' <+: row.drop (i + l.length) := by
  obtain ⟨rest, hrest⟩ := h
  rw [List.append_assoc] at hrest
  refine ⟨⟨l' ++ rest, hrest⟩, rest, ?_⟩
  rw [← List.drop_drop, ← hrest, List.drop_left]

section

variable {row : List (α × ℕ)} {i : ℕ}

theorem Laid.self (t : Tree α) : Laid t.row 0 t := List.prefix_refl _

theorem Laid.root {a : α} {ts : List (Tree α)} (h : Laid row i (.node a ts)) :
    row[i]? = some (a, ts.length) := by
  obtain ⟨rest, hrest⟩ := h
  have := congrArg (fun l : List (α × ℕ) => l[0]?) hrest
  simpa [Tree.row] using this.symm

theorem Laid.below {a : α} {ts : List (Tree α)} (h : Laid row i (.node a ts)) :
    LaidAll row (i + 1) ts := by
  unfold Laid at h
  rw [Tree.row, ← List.singleton_append] at h
  exact (prefix_drop h).2

theorem LaidAll.cons {t : Tree α} {ts : List (Tree α)} (h : LaidAll row i (t :: ts)) :
    Laid row i t ∧ LaidAll row (i + t.size) ts := by
  unfold LaidAll at h
  rw [rows] at h
  exact prefix_drop h

/-- A tree ends in the row. -/
theorem Laid.le {t : Tree α} (h : Laid row i t) : i + t.size ≤ row.length := by
  have hlen : t.size ≤ row.length - i := by
    have := List.IsPrefix.length_le h
    rwa [List.length_drop] at this
  have := size_pos t
  omega

/-! ## The walk -/

/-- The counts that stand in the row. -/
def counts (row : List (α × ℕ)) (i : ℕ) : Option ℕ := row[i]?.map Prod.snd

mutual

/-- **STEP**: `skip` goes exactly past the tree. -/
theorem skip_laid {fuel i : ℕ} : (t : Tree α) → Laid row i t → t.size ≤ fuel →
    skip (counts row) fuel i = some (i + t.size)
  | .node a ts, h, hf => by
      rw [size_node] at hf ⊢
      obtain ⟨fuel, rfl⟩ : ∃ n, fuel = n + 1 := ⟨fuel - 1, by omega⟩
      rw [skip, counts, h.root, Option.map_some, Option.bind_some,
        steps_laid ts h.below (by omega), Nat.add_assoc, Nat.add_comm 1]

/-- **RUN**: as many steps as there are trees go exactly past them. -/
theorem steps_laid {fuel i : ℕ} : (ts : List (Tree α)) → LaidAll row i ts →
    (rows ts).length ≤ fuel →
    steps (skip (counts row) fuel) ts.length i = some (i + (rows ts).length)
  | [], _, _ => rfl
  | t :: ts, h, hf => by
      rw [length_rows_cons] at hf ⊢
      rw [List.length_cons, steps, skip_laid t h.cons.1 (by omega), Option.bind_some,
        steps_laid ts h.cons.2 (by omega), Nat.add_assoc]

end

/-! ## Places -/

variable {β : Type*} {tree : β → Tree α}

/-- What has these trees, each with its place from `i` on. -/
def placed (tree : β → Tree α) : ℕ → List β → List (ℕ × β)
  | _, []      => []
  | i, b :: bs => (i, b) :: placed tree (i + (tree b).size) bs

theorem length_placed (i : ℕ) (bs : List β) : (placed tree i bs).length = bs.length := by
  induction bs generalizing i with
  | nil => rfl
  | cons b bs ih => rw [placed, List.length_cons, ih, List.length_cons]

theorem le_of_mem_placed {i k : ℕ} {b : β} {bs : List β} (h : (k, b) ∈ placed tree i bs) :
    i ≤ k := by
  induction bs generalizing i with
  | nil => exact nomatch h
  | cons b' bs ih =>
      rcases List.mem_cons.mp h with heq | h
      · cases heq
        exact Nat.le_refl _
      · exact Nat.le_trans (Nat.le_add_right _ _) (ih h)

/-- The places go up. -/
theorem pairwise_placed (i : ℕ) (bs : List β) :
    (placed tree i bs).Pairwise (fun c c' => c.1 < c'.1) := by
  induction bs generalizing i with
  | nil => exact .nil
  | cons b bs ih =>
      refine .cons ?_ (ih _)
      rintro ⟨k, b'⟩ hk
      have := le_of_mem_placed hk
      have := size_pos (tree b)
      show i < k
      omega

/-- At its place there is the tree. -/
theorem LaidAll.of_mem {bs : List β} {k : ℕ} {b : β} (h : LaidAll row i (bs.map tree))
    (hb : (k, b) ∈ placed tree i bs) : Laid row k (tree b) := by
  induction bs generalizing i with
  | nil => exact nomatch hb
  | cons b' bs ih =>
      obtain ⟨ht, hts⟩ := h.cons
      rcases List.mem_cons.mp hb with heq | hb
      · cases heq
        exact ht
      · exact ih hts hb

/-- `n` steps go to the place of tree `n`. -/
theorem steps_placed {fuel n k : ℕ} {bs : List β} {b : β} (h : LaidAll row i (bs.map tree))
    (hf : (rows (bs.map tree)).length ≤ fuel) (hb : (placed tree i bs)[n]? = some (k, b)) :
    steps (skip (counts row) fuel) n i = some k := by
  induction bs generalizing i n with
  | nil => exact nomatch hb
  | cons b' bs ih =>
      rw [List.map_cons, length_rows_cons] at hf
      cases n with
      | zero =>
          cases hb
          rfl
      | succ n =>
          rw [steps, skip_laid (tree b') h.cons.1 (by omega), Option.bind_some]
          exact ih h.cons.2 (by omega) hb

end

end Preorder
