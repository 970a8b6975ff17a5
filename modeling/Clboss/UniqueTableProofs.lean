import Mathlib.Data.List.Perm.Basic
import Mathlib.Data.List.Nodup

/-! # Tables with a unique column

    A table is a list of rows in insertion order in which no two rows share
    their key: the field `nodup` is the `UNIQUE` constraint.  The statements a
    program issues against such a table are here, each with one lemma that says
    what a later lookup returns, and the permutations by which the rows before
    and after a statement are compared. -/

namespace UniqueTable

/-- A table whose rows have pairwise distinct keys. -/
structure Table {κ α : Type} (key : α → κ) where
  rows  : List α
  nodup : (rows.map key).Nodup

namespace Table

variable {κ α β : Type} [DecidableEq κ] {key : α → κ}

/-- The table without rows. -/
def empty : Table key := ⟨[], List.nodup_nil⟩

/-- The row with key `k`. -/
def get (t : Table key) (k : κ) : Option α := t.rows.find? (fun r => decide (key r = k))

/-- `DELETE … WHERE key = k`. -/
def delete (t : Table key) (k : κ) : Table key where
  rows  := t.rows.filter (fun r => decide (key r ≠ k))
  nodup := t.nodup.sublist (List.filter_sublist.map key)

/-- `UPDATE … WHERE key = k`; the key column is not updated. -/
def update (t : Table key) (k : κ) (f : α → α) (hf : ∀ r, key (f r) = key r) : Table key where
  rows  := t.rows.map (fun r => if key r = k then f r else r)
  nodup := by
    have hkey : key ∘ (fun r => if key r = k then f r else r) = key := by
      funext r
      show key (if key r = k then f r else r) = key r
      by_cases hk : key r = k
      · rw [if_pos hk, hf]
      · rw [if_neg hk]
    rw [List.map_map, hkey]
    exact t.nodup

/-- `INSERT` of a row whose key is not there. -/
def insert (t : Table key) (r : α) (h : t.get (key r) = none) : Table key where
  rows  := t.rows ++ [r]
  nodup := by
    rw [List.map_append, List.map_singleton]
    refine List.nodup_append'.mpr ⟨t.nodup, List.nodup_singleton _, ?_⟩
    intro k hk hr
    obtain ⟨r', hmem, hkey⟩ := List.mem_map.mp hk
    have hno := List.find?_eq_none.mp h r' hmem
    rw [List.mem_singleton] at hr
    rw [hkey, hr] at hno
    exact hno (decide_eq_true rfl)

/-- `INSERT OR IGNORE`. -/
def insertOrIgnore (t : Table key) (r : α) : Table key :=
  if h : t.get (key r) = none then t.insert r h else t

theorem get_eq_none_iff (t : Table key) (k : κ) :
    t.get k = none ↔ ∀ r ∈ t.rows, key r ≠ k := by
  unfold get
  rw [List.find?_eq_none]
  simp only [decide_eq_true_eq, ne_eq]

theorem key_of_get {t : Table key} {k : κ} {r : α} (h : t.get k = some r) : key r = k :=
  of_decide_eq_true (List.find?_some (p := fun r => decide (key r = k)) h)

theorem mem_of_get {t : Table key} {k : κ} {r : α} (h : t.get k = some r) : r ∈ t.rows :=
  List.mem_of_find?_eq_some h

/-- The lookup finds exactly the row with that key. -/
theorem get_of_mem {t : Table key} {r : α} (h : r ∈ t.rows) : t.get (key r) = some r := by
  cases hg : t.get (key r) with
  | none => exact absurd rfl ((get_eq_none_iff t (key r)).mp hg r h)
  | some r' =>
      have hkey := key_of_get hg
      rw [List.inj_on_of_nodup_map t.nodup (mem_of_get hg) h hkey]

theorem get_eq_some_iff (t : Table key) (k : κ) (r : α) :
    t.get k = some r ↔ r ∈ t.rows ∧ key r = k := by
  constructor
  · intro h
    exact ⟨mem_of_get h, key_of_get h⟩
  · rintro ⟨hmem, rfl⟩
    exact get_of_mem hmem

@[simp] theorem get_delete_self (t : Table key) (k : κ) : (t.delete k).get k = none := by
  rw [get_eq_none_iff]
  intro r hr
  exact of_decide_eq_true (List.mem_filter.mp hr).2

/-- `INSERT OR REPLACE`. -/
def insertOrReplace (t : Table key) (r : α) : Table key :=
  (t.delete (key r)).insert r (get_delete_self t (key r))

theorem get_delete_ne (t : Table key) {k k' : κ} (h : k' ≠ k) :
    (t.delete k).get k' = t.get k' := by
  apply Option.ext
  intro r
  rw [get_eq_some_iff, get_eq_some_iff]
  constructor
  · rintro ⟨hmem, hkey⟩
    exact ⟨List.mem_of_mem_filter hmem, hkey⟩
  · rintro ⟨hmem, hkey⟩
    refine ⟨List.mem_filter.mpr ⟨hmem, decide_eq_true ?_⟩, hkey⟩
    rw [hkey]
    exact h

/-- `DELETE … WHERE p`. -/
def deleteWhere (t : Table key) (p : α → Bool) : Table key where
  rows  := t.rows.filter (fun r => !p r)
  nodup := t.nodup.sublist (List.filter_sublist.map key)

theorem get_deleteWhere (t : Table key) (p : α → Bool) (k : κ) :
    (t.deleteWhere p).get k = (t.get k).filter (fun r => !p r) := by
  apply Option.ext
  intro r
  rw [Option.filter_eq_some_iff, get_eq_some_iff, get_eq_some_iff]
  show r ∈ t.rows.filter _ ∧ _ ↔ _
  rw [List.mem_filter]
  exact and_right_comm

/-- `UPDATE … WHERE p`; the key column is not updated. -/
def updateWhere (t : Table key) (p : α → Bool) (f : α → α) (hf : ∀ r, key (f r) = key r) :
    Table key where
  rows  := t.rows.map (fun r => if p r then f r else r)
  nodup := by
    have hkey : key ∘ (fun r => if p r then f r else r) = key := by
      funext r
      show key (if p r then f r else r) = key r
      split
      · exact hf r
      · rfl
    rw [List.map_map, hkey]
    exact t.nodup

section Update

variable (t : Table key) (k : κ) (f : α → α) (hf : ∀ r, key (f r) = key r)

theorem get_update_self : (t.update k f hf).get k = (t.get k).map f := by
  cases hg : t.get k with
  | none =>
      rw [Option.map_none, get_eq_none_iff]
      intro r hr
      obtain ⟨r', hmem, rfl⟩ := List.mem_map.mp hr
      have hne := (get_eq_none_iff t k).mp hg r' hmem
      rw [if_neg hne]
      exact hne
  | some r =>
      rw [Option.map_some, get_eq_some_iff]
      have hkey := key_of_get hg
      refine ⟨List.mem_map.mpr ⟨r, mem_of_get hg, if_pos hkey⟩, ?_⟩
      rw [hf, hkey]

theorem get_update_ne {k' : κ} (h : k' ≠ k) : (t.update k f hf).get k' = t.get k' := by
  apply Option.ext
  intro r
  rw [get_eq_some_iff, get_eq_some_iff]
  constructor
  · rintro ⟨hmem, hkey⟩
    obtain ⟨r', hr', rfl⟩ := List.mem_map.mp hmem
    by_cases hk : key r' = k
    · rw [if_pos hk, hf] at hkey
      exact absurd (hkey.symm.trans hk) h
    · rw [if_neg hk] at hkey ⊢
      exact ⟨hr', hkey⟩
  · rintro ⟨hmem, hkey⟩
    refine ⟨List.mem_map.mpr ⟨r, hmem, ?_⟩, hkey⟩
    refine if_neg ?_
    rw [hkey]
    exact h

end Update

section Insert

variable (t : Table key) (r : α) (h : t.get (key r) = none)

theorem get_insert_self : (t.insert r h).get (key r) = some r :=
  get_of_mem (List.mem_append_right _ (List.mem_singleton.mpr rfl))

theorem get_insert_ne {k : κ} (hk : k ≠ key r) : (t.insert r h).get k = t.get k := by
  apply Option.ext
  intro r'
  rw [get_eq_some_iff, get_eq_some_iff]
  constructor
  · rintro ⟨hmem, hkey⟩
    rcases List.mem_append.mp hmem with hl | hr
    · exact ⟨hl, hkey⟩
    · rw [List.mem_singleton.mp hr] at hkey
      exact absurd hkey.symm hk
  · rintro ⟨hmem, hkey⟩
    exact ⟨List.mem_append_left _ hmem, hkey⟩

end Insert

theorem get_insertOrIgnore_self (t : Table key) (r : α) :
    (t.insertOrIgnore r).get (key r) = some ((t.get (key r)).getD r) := by
  unfold insertOrIgnore
  by_cases h : t.get (key r) = none
  · rw [dif_pos h, get_insert_self, h, Option.getD_none]
  · rw [dif_neg h]
    obtain ⟨r', hr'⟩ := Option.ne_none_iff_exists'.mp h
    rw [hr', Option.getD_some]

theorem get_insertOrIgnore_ne (t : Table key) (r : α) {k : κ} (hk : k ≠ key r) :
    (t.insertOrIgnore r).get k = t.get k := by
  unfold insertOrIgnore
  by_cases h : t.get (key r) = none
  · rw [dif_pos h, get_insert_ne t r h hk]
  · rw [dif_neg h]

theorem get_insertOrReplace_self (t : Table key) (r : α) :
    (t.insertOrReplace r).get (key r) = some r :=
  get_insert_self (t.delete (key r)) r (get_delete_self t (key r))

theorem get_insertOrReplace_ne (t : Table key) (r : α) {k : κ} (hk : k ≠ key r) :
    (t.insertOrReplace r).get k = t.get k :=
  (get_insert_ne (t.delete (key r)) r (get_delete_self t (key r)) hk).trans
    (get_delete_ne t hk)

/-! ## The rows before and after -/

/-- Selecting by the key returns one row. -/
theorem filter_key {t : Table key} {k : κ} {r : α} (h : t.get k = some r) :
    t.rows.filter (fun r => decide (key r = k)) = [r] := by
  obtain ⟨hmem, hkey⟩ := (get_eq_some_iff t k r).mp h
  have hn := t.nodup
  revert hmem hn
  generalize t.rows = rows
  intro hmem hn
  induction rows with
  | nil => exact nomatch hmem
  | cons x xs ih =>
      rw [List.map_cons, List.nodup_cons] at hn
      rcases List.mem_cons.mp hmem with heq | hmem
      · subst heq
        rw [List.filter_cons_of_pos (p := fun r => decide (key r = k)) (decide_eq_true hkey)]
        have hnone : xs.filter (fun r => decide (key r = k)) = [] := by
          rw [List.filter_eq_nil_iff]
          intro y hy hyk
          apply hn.1
          rw [hkey, ← of_decide_eq_true hyk]
          exact List.mem_map_of_mem hy
        rw [hnone]
      · have hx : ¬ decide (key x = k) = true := by
          intro hxk
          apply hn.1
          rw [of_decide_eq_true hxk, ← hkey]
          exact List.mem_map_of_mem hmem
        rw [List.filter_cons_of_neg (p := fun r => decide (key r = k)) hx]
        exact ih hmem hn.2

/-- The found row, then all others. -/
theorem rows_perm {t : Table key} {k : κ} {r : α} (h : t.get k = some r) :
    t.rows.Perm (r :: (t.delete k).rows) := by
  have hsplit := List.filter_append_perm (fun r => decide (key r = k)) t.rows
  rw [filter_key h, List.singleton_append] at hsplit
  refine hsplit.symm.trans (List.Perm.cons r ?_)
  refine List.Perm.of_eq (List.filter_congr ?_)
  intro x _
  exact (decide_not (p := key x = k)).symm

/-- An update of a key that is not there does nothing. -/
theorem update_of_none {t : Table key} {k : κ} {f : α → α} {hf : ∀ r, key (f r) = key r}
    (h : t.get k = none) : t.update k f hf = t := by
  have hid : t.rows.map (fun r => if key r = k then f r else r) = t.rows := by
    refine (List.map_congr_left ?_).trans (List.map_id t.rows)
    intro r hr
    exact if_neg ((get_eq_none_iff t k).mp h r hr)
  cases t
  simp only [update, mk.injEq]
  exact hid

/-- The updated row, then all others. -/
theorem update_rows_perm {t : Table key} {k : κ} {r : α} {f : α → α}
    (hf : ∀ r, key (f r) = key r) (h : t.get k = some r) :
    (t.update k f hf).rows.Perm (f r :: (t.delete k).rows) := by
  have hmap := (rows_perm h).map (fun r => if key r = k then f r else r)
  rw [List.map_cons, if_pos (key_of_get h)] at hmap
  refine hmap.trans (List.Perm.cons _ (List.Perm.of_eq ?_))
  refine (List.map_congr_left ?_).trans (List.map_id _)
  intro x hx
  exact if_neg (of_decide_eq_true (List.mem_filter.mp hx).2)

/-! ## Counting rows -/

section Count

variable {t : Table key} {k : κ} {r : α} (p : α → Bool)

/-- A deletion removes the found row from the count, and only that. -/
theorem countP_delete (h : t.get k = some r) :
    (t.delete k).rows.countP p + (if p r then 1 else 0) = t.rows.countP p := by
  rw [(rows_perm h).countP_eq p, List.countP_cons]

theorem countP_delete_le (t : Table key) (k : κ) : (t.delete k).rows.countP p ≤ t.rows.countP p :=
  List.filter_sublist.countP_le

/-- An update adds at most the updated row. -/
theorem countP_update_le {f : α → α} (hf : ∀ r, key (f r) = key r) (h : t.get k = some r) :
    (t.update k f hf).rows.countP p ≤ t.rows.countP p + (if p (f r) then 1 else 0) := by
  rw [(update_rows_perm hf h).countP_eq p, List.countP_cons]
  exact Nat.add_le_add_right (countP_delete_le p t k) _

/-- An update that makes no row count that did not count before. -/
theorem countP_update_of_imp (t : Table key) (k : κ) {f : α → α} (hf : ∀ r, key (f r) = key r)
    (himp : ∀ r, p (f r) → p r) : (t.update k f hf).rows.countP p ≤ t.rows.countP p := by
  show (t.rows.map _).countP p ≤ _
  rw [List.countP_map]
  refine List.countP_mono_left ?_
  intro r _ hr
  by_cases hk : key r = k
  · rw [Function.comp_apply, if_pos hk] at hr
    exact himp r hr
  · rw [Function.comp_apply, if_neg hk] at hr
    exact hr

end Count

/-! ## Integer primary keys -/

section Auto

variable {key : α → ℕ}

/-- The key SQLite generates: one more than the largest in use. -/
def nextKey (t : Table key) : ℕ := (t.rows.map key).foldr max 0 + 1

theorem le_foldr_max {l : List ℕ} {n : ℕ} (h : n ∈ l) : n ≤ l.foldr max 0 := by
  induction l with
  | nil => exact nomatch h
  | cons m l ih =>
      rcases List.mem_cons.mp h with rfl | h
      · exact Nat.le_max_left _ _
      · exact Nat.le_trans (ih h) (Nat.le_max_right _ _)

theorem get_nextKey (t : Table key) : t.get t.nextKey = none := by
  rw [get_eq_none_iff]
  intro r hr
  have := le_foldr_max (List.mem_map_of_mem (f := key) hr)
  exact Nat.ne_of_lt (Nat.lt_succ_of_le this)

/-- `INSERT` with the key left to SQLite. -/
def insertNext (t : Table key) (r : ℕ → α) (hr : ∀ n, key (r n) = n) : Table key :=
  t.insert (r t.nextKey) (by rw [hr]; exact get_nextKey t)

end Auto

end Table

end UniqueTable
