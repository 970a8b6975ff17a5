import Clboss.UniqueTableProofs

/-! # Tables linked by a foreign key

    A table of children whose key is a foreign key into a table of parents, with
    `ON DELETE CASCADE`: a child has a parent, which is the field `referenced`,
    and goes with it.  What replaces a parent deletes it first, so that its child
    goes then, too: `INSERT OR REPLACE` of a parent leaves it without one
    (`child_replace_self`). -/

namespace LinkedTable

open UniqueTable

variable {κ α β : Type} [DecidableEq κ]

/-- Parents and their children, by the same key. -/
structure Linked (key : α → κ) (childKey : β → κ) where
  parents    : Table key
  children   : Table childKey
  referenced : ∀ c ∈ children.rows, (parents.get (childKey c)).isSome = true

namespace Linked

variable {key : α → κ} {childKey : β → κ}

/-- The tables without rows. -/
def empty : Linked key childKey := ⟨Table.empty, Table.empty, nofun⟩

/-- `DELETE FROM parents WHERE p`. -/
def delete (l : Linked key childKey) (p : α → Bool) : Linked key childKey where
  parents    := l.parents.deleteWhere p
  children   := l.children.deleteWhere
    (fun c => ((l.parents.deleteWhere p).get (childKey c)).isNone)
  referenced := by
    intro c hc
    have hstays := (List.mem_filter.mp hc).2
    rwa [Bool.not_eq_true', Option.isNone_eq_false_iff] at hstays

variable (l : Linked key childKey)

theorem parent_delete (p : α → Bool) (k : κ) :
    (l.delete p).parents.get k = (l.parents.get k).filter (fun r => !p r) :=
  l.parents.get_deleteWhere p k

/-- A child stays if its parent does. -/
theorem child_delete (p : α → Bool) (k : κ) :
    (l.delete p).children.get k
      = (l.children.get k).filter (fun _ => ((l.delete p).parents.get k).isSome) := by
  show (l.children.deleteWhere _).get k = _
  rw [Table.get_deleteWhere]
  cases hc : l.children.get k with
  | none => rfl
  | some c =>
      rw [Option.filter_some, Option.filter_some, Table.key_of_get hc]
      show (if (!((l.delete p).parents.get k).isNone) = true then some c else none) = _
      rw [Option.not_isNone]

/-- The parents other than that of a key. -/
theorem parent_delete_key (k k' : κ) :
    (l.delete (fun x => decide (key x = k))).parents.get k'
      = if k' = k then none else l.parents.get k' := by
  rw [parent_delete]
  cases hx : l.parents.get k' with
  | none => split <;> rfl
  | some x =>
      rw [Option.filter_some, Table.key_of_get hx]
      by_cases hk : k' = k
      · simp [hk]
      · simp [hk]

/-- `INSERT OR REPLACE INTO parents`. -/
def replace (r : α) : Linked key childKey where
  parents    := (l.delete (fun x => decide (key x = key r))).parents.insert r
    ((l.parent_delete_key (key r) (key r)).trans (if_pos rfl))
  children   := (l.delete (fun x => decide (key x = key r))).children
  referenced := by
    intro c hc
    have hsome := (l.delete (fun x => decide (key x = key r))).referenced c hc
    by_cases hk : childKey c = key r
    · rw [hk, Table.get_insert_self]
      rfl
    · rw [Table.get_insert_ne _ _ _ hk]
      exact hsome

theorem parent_replace_self (r : α) : (l.replace r).parents.get (key r) = some r := by
  unfold replace
  rw [Table.get_insert_self]

theorem parent_replace_ne {r : α} {k : κ} (hk : k ≠ key r) :
    (l.replace r).parents.get k = l.parents.get k := by
  unfold replace
  rw [Table.get_insert_ne _ _ _ hk, parent_delete_key, if_neg hk]

/-- The child of the parent that was replaced is gone. -/
theorem child_replace_self (r : α) : (l.replace r).children.get (key r) = none := by
  show (l.delete _).children.get (key r) = none
  rw [child_delete, parent_delete_key, if_pos rfl]
  cases l.children.get (key r) <;> rfl

theorem child_replace_ne {r : α} {k : κ} (hk : k ≠ key r) :
    (l.replace r).children.get k = l.children.get k := by
  show (l.delete _).children.get k = _
  rw [child_delete, parent_delete_key, if_neg hk]
  cases hc : l.children.get k with
  | none => rfl
  | some c =>
      have hparent := l.referenced c (Table.mem_of_get hc)
      rw [Table.key_of_get hc] at hparent
      rw [Option.filter_some, if_pos hparent]

/-- `INSERT OR REPLACE INTO children`, of a parent that is there. -/
def replaceChild (c : β) (h : (l.parents.get (childKey c)).isSome = true) :
    Linked key childKey where
  parents    := l.parents
  children   := l.children.insertOrReplace c
  referenced := by
    intro c' hc'
    rcases List.mem_append.mp hc' with hc' | hc'
    · exact l.referenced c' (List.mem_of_mem_filter hc')
    · obtain rfl := List.mem_singleton.mp hc'
      exact h

theorem child_replaceChild_self (c : β) (h : (l.parents.get (childKey c)).isSome = true) :
    (l.replaceChild c h).children.get (childKey c) = some c :=
  Table.get_insertOrReplace_self _ _

theorem child_replaceChild_ne {c : β} (h : (l.parents.get (childKey c)).isSome = true) {k : κ}
    (hk : k ≠ childKey c) : (l.replaceChild c h).children.get k = l.children.get k :=
  Table.get_insertOrReplace_ne _ _ hk

end Linked

end LinkedTable
