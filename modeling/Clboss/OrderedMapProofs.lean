import Mathlib.Data.List.Nodup
import Mathlib.Order.Lattice

/-! # Ordered maps

    A `std::map`: entries in the order of their keys, one for each key.  The
    order is part of the value, since code that walks a map depends on it; what
    most proofs need is only which entries there are (`mem_assign`, `mem_erase`,
    `find_eq_some_iff`). -/

/-- Entries in the order of their keys. -/
structure OrderedMap (K V : Type) [LinearOrder K] where
  entries : List (K × V)
  sorted  : entries.Pairwise (fun a b => a.1 < b.1)

namespace OrderedMap

variable {K V W : Type} [LinearOrder K]

def empty : OrderedMap K V := ⟨[], List.Pairwise.nil⟩

def size (m : OrderedMap K V) : ℕ := m.entries.length

/-- `find`. -/
def find (m : OrderedMap K V) (k : K) : Option V :=
  (m.entries.find? (fun e => e.1 = k)).map Prod.snd

/-- The place of a key: the entry there is replaced, or a new one put in. -/
def insertEntry (k : K) (v : V) : List (K × V) → List (K × V)
  | []     => [(k, v)]
  | e :: l =>
      if k < e.1 then (k, v) :: e :: l
      else if k = e.1 then (k, v) :: l
      else e :: insertEntry k v l

/-! ## Entries -/

theorem mem_of_mem_insertEntry {k : K} {v : V} {l : List (K × V)} {x : K × V}
    (h : x ∈ insertEntry k v l) : x = (k, v) ∨ x ∈ l := by
  induction l with
  | nil => exact Or.inl (List.mem_singleton.mp h)
  | cons e l ih =>
      unfold insertEntry at h
      split at h
      · exact List.mem_cons.mp h
      · split at h
        · rcases List.mem_cons.mp h with h | h
          · exact Or.inl h
          · exact Or.inr (List.mem_cons_of_mem _ h)
        · rcases List.mem_cons.mp h with rfl | h
          · exact Or.inr List.mem_cons_self
          · rcases ih h with h | h
            · exact Or.inl h
            · exact Or.inr (List.mem_cons_of_mem _ h)

theorem sorted_insertEntry {k : K} {v : V} {l : List (K × V)}
    (h : l.Pairwise (fun a b => a.1 < b.1)) :
    (insertEntry k v l).Pairwise (fun a b => a.1 < b.1) := by
  induction l with
  | nil => exact List.pairwise_singleton _ _
  | cons e l ih =>
      obtain ⟨he, hl⟩ := List.pairwise_cons.mp h
      unfold insertEntry
      split
      · rename_i hlt
        refine List.pairwise_cons.mpr ⟨fun x hx => ?_, h⟩
        rcases List.mem_cons.mp hx with rfl | hx
        · exact hlt
        · exact hlt.trans (he x hx)
      · rename_i hge
        split
        · rename_i heq
          refine List.pairwise_cons.mpr ⟨fun x hx => ?_, hl⟩
          exact heq ▸ he x hx
        · rename_i hne
          refine List.pairwise_cons.mpr ⟨fun x hx => ?_, ih hl⟩
          rcases mem_of_mem_insertEntry hx with rfl | hx
          · exact lt_of_le_of_ne (not_lt.mp hge) (Ne.symm hne)
          · exact he x hx

/-- `operator[]`, assigned to. -/
def assign (m : OrderedMap K V) (k : K) (v : V) : OrderedMap K V :=
  ⟨insertEntry k v m.entries, sorted_insertEntry m.sorted⟩

/-- `erase`. -/
def erase (m : OrderedMap K V) (k : K) : OrderedMap K V :=
  ⟨m.entries.filter (fun e => e.1 ≠ k), m.sorted.filter _⟩

/-- `emplace`: an entry that is there stays. -/
def emplace (m : OrderedMap K V) (k : K) (v : V) : OrderedMap K V :=
  if (m.find k).isSome then m else m.assign k v

/-- The values changed, in their places. -/
def mapValues (m : OrderedMap K V) (f : K → V → W) : OrderedMap K W :=
  ⟨m.entries.map (fun e => (e.1, f e.1 e.2)), by
    rw [List.pairwise_map]
    exact m.sorted⟩

/-- Other entries, with the same keys. -/
def withEntries (m : OrderedMap K V) (l : List (K × W))
    (h : l.map Prod.fst = m.entries.map Prod.fst) : OrderedMap K W :=
  ⟨l, by
    have hkeys : (l.map Prod.fst).Pairwise (· < ·) := by
      rw [h, List.pairwise_map]
      exact m.sorted
    exact List.pairwise_map.mp hkeys⟩

/-- One value changed. -/
def modify (m : OrderedMap K V) (k : K) (f : V → V) : OrderedMap K V :=
  m.mapValues (fun k' v => if k' = k then f v else v)

section Lemmas

variable (m : OrderedMap K V)

@[simp] theorem entries_empty : (empty : OrderedMap K V).entries = [] := rfl

theorem nodup_keys : (m.entries.map Prod.fst).Nodup := by
  rw [List.nodup_iff_pairwise_ne, List.pairwise_map]
  exact m.sorted.imp (fun h => h.ne)

/-- One entry for each key. -/
theorem value_unique {k : K} {v v' : V} (h : (k, v) ∈ m.entries) (h' : (k, v') ∈ m.entries) :
    v = v' := by
  have hinj := List.inj_on_of_nodup_map m.nodup_keys h h' rfl
  exact congrArg Prod.snd hinj

theorem find_eq_some_iff {k : K} {v : V} : m.find k = some v ↔ (k, v) ∈ m.entries := by
  unfold find
  constructor
  · intro h
    obtain ⟨⟨k', v'⟩, hfind, rfl⟩ := Option.map_eq_some_iff.mp h
    have hk := List.find?_some hfind
    simp only [decide_eq_true_eq] at hk
    subst hk
    exact List.mem_of_find?_eq_some hfind
  · intro h
    cases hfind : m.entries.find? (fun e => e.1 = k) with
    | none =>
        have := List.find?_eq_none.mp hfind (k, v) h
        simp at this
    | some e =>
        obtain ⟨k', v'⟩ := e
        have hk := List.find?_some hfind
        simp only [decide_eq_true_eq] at hk
        subst hk
        exact congrArg some (m.value_unique (List.mem_of_find?_eq_some hfind) h)

theorem find_eq_none_iff {k : K} : m.find k = none ↔ ∀ v, (k, v) ∉ m.entries := by
  constructor
  · intro h v hv
    rw [m.find_eq_some_iff.mpr hv] at h
    cases h
  · intro h
    cases hfind : m.find k with
    | none => rfl
    | some v => exact absurd (m.find_eq_some_iff.mp hfind) (h v)

theorem mem_erase {k : K} {x : K × V} :
    x ∈ (m.erase k).entries ↔ x ∈ m.entries ∧ x.1 ≠ k := by
  unfold erase
  rw [List.mem_filter, decide_eq_true_eq]

theorem mem_mapValues {f : K → V → W} {x : K × W} :
    x ∈ (m.mapValues f).entries ↔ ∃ v, (x.1, v) ∈ m.entries ∧ x.2 = f x.1 v := by
  unfold mapValues
  constructor
  · intro h
    obtain ⟨⟨k, v⟩, hmem, rfl⟩ := List.mem_map.mp h
    exact ⟨v, hmem, rfl⟩
  · rintro ⟨v, hmem, heq⟩
    exact List.mem_map.mpr ⟨(x.1, v), hmem, Prod.ext rfl heq.symm⟩

theorem find_mapValues (f : K → V → W) (k : K) : (m.mapValues f).find k = (m.find k).map (f k) := by
  cases hfind : m.find k with
  | none =>
      rw [Option.map_none, find_eq_none_iff]
      intro w hw
      obtain ⟨v, hv, -⟩ := m.mem_mapValues.mp hw
      exact m.find_eq_none_iff.mp hfind v hv
  | some v =>
      rw [Option.map_some, find_eq_some_iff]
      exact m.mem_mapValues.mpr ⟨v, m.find_eq_some_iff.mp hfind, rfl⟩

theorem isSome_find_iff {k : K} : (m.find k).isSome ↔ k ∈ m.entries.map Prod.fst := by
  rw [Option.isSome_iff_exists, List.mem_map]
  constructor
  · rintro ⟨v, hv⟩
    exact ⟨(k, v), m.find_eq_some_iff.mp hv, rfl⟩
  · rintro ⟨⟨k', v⟩, hmem, rfl⟩
    exact ⟨v, m.find_eq_some_iff.mpr hmem⟩

/-- A new key adds an entry. -/
theorem perm_assign {k : K} (v : V) (h : ∀ v', (k, v') ∉ m.entries) :
    (m.assign k v).entries.Perm ((k, v) :: m.entries) := by
  obtain ⟨l, hl⟩ := m
  show (insertEntry k v l).Perm ((k, v) :: l)
  replace h : ∀ v', (k, v') ∉ l := h
  clear hl
  induction l with
  | nil => exact List.Perm.refl _
  | cons e l ih =>
      unfold insertEntry
      split
      · exact List.Perm.refl _
      · split
        · rename_i heq
          exact absurd List.mem_cons_self (heq ▸ h e.2)
        · refine (List.Perm.cons e (ih (fun v' hv => h v' (List.mem_cons_of_mem _ hv)))).trans ?_
          exact List.Perm.swap _ _ _

theorem mem_assign {k : K} {v : V} {x : K × V} :
    x ∈ (m.assign k v).entries ↔ x = (k, v) ∨ x ∈ m.entries ∧ x.1 ≠ k := by
  have hsorted := (m.assign k v).nodup_keys
  have hself : (k, v) ∈ (m.assign k v).entries := by
    obtain ⟨l, hl⟩ := m
    show (k, v) ∈ insertEntry k v l
    clear hl hsorted
    induction l with
    | nil => exact List.mem_singleton_self _
    | cons e l ih =>
        unfold insertEntry
        split
        · exact List.mem_cons_self
        · split
          · exact List.mem_cons_self
          · exact List.mem_cons_of_mem _ ih
  have hother : ∀ x : K × V, x ∈ m.entries → x.1 ≠ k → x ∈ (m.assign k v).entries := by
    intro x hx hne
    obtain ⟨l, hl⟩ := m
    show x ∈ insertEntry k v l
    replace hx : x ∈ l := hx
    clear hl hsorted hself
    induction l with
    | nil => cases hx
    | cons e l ih =>
        unfold insertEntry
        split
        · exact List.mem_cons_of_mem _ hx
        · split
          · rename_i heq
            rcases List.mem_cons.mp hx with rfl | hx
            · exact absurd heq.symm hne
            · exact List.mem_cons_of_mem _ hx
          · rcases List.mem_cons.mp hx with rfl | hx
            · exact List.mem_cons_self
            · exact List.mem_cons_of_mem _ (ih hx)
  constructor
  · intro hx
    by_cases hk : x.1 = k
    · -- the new entry is the only one of its key
      subst hk
      have := (m.assign x.1 v).value_unique hself hx
      exact Or.inl (Prod.ext rfl this.symm)
    · rcases mem_of_mem_insertEntry hx with hx | hx
      · exact absurd (congrArg Prod.fst hx) hk
      · exact Or.inr ⟨hx, hk⟩
  · rintro (rfl | ⟨hx, hk⟩)
    · exact hself
    · exact hother x hx hk

theorem find_assign (k k' : K) (v : V) :
    (m.assign k v).find k' = if k' = k then some v else m.find k' := by
  refine Option.ext fun w => ?_
  rw [(m.assign k v).find_eq_some_iff, mem_assign]
  split
  · rename_i heq
    simp [heq, eq_comm]
  · rename_i hne
    rw [m.find_eq_some_iff]
    simp [hne]

theorem find_erase (k k' : K) : (m.erase k).find k' = if k' = k then none else m.find k' := by
  refine Option.ext fun w => ?_
  rw [(m.erase k).find_eq_some_iff, mem_erase]
  split
  · rename_i heq
    simp [heq]
  · rename_i hne
    rw [m.find_eq_some_iff]
    simp [hne]

theorem find_emplace (k k' : K) (v : V) :
    (m.emplace k v).find k' = if k' = k then some ((m.find k).getD v) else m.find k' := by
  unfold emplace
  cases hfind : m.find k with
  | none =>
      rw [Option.isSome_none, if_neg Bool.false_ne_true, find_assign]
      rfl
  | some w =>
      rw [Option.isSome_some, if_pos rfl]
      split
      · rename_i heq
        rw [heq, hfind]
        rfl
      · rfl

theorem mem_modify {k : K} {f : V → V} {x : K × V} :
    x ∈ (m.modify k f).entries
      ↔ ∃ v, (x.1, v) ∈ m.entries ∧ x.2 = if x.1 = k then f v else v :=
  m.mem_mapValues

theorem forall_modify {k : K} {f : V → V} {P : K × V → Prop} (h : ∀ e ∈ m.entries, P e)
    (hk : ∀ v, (k, v) ∈ m.entries → P (k, f v)) : ∀ e ∈ (m.modify k f).entries, P e := by
  rintro ⟨k', v'⟩ he
  obtain ⟨v, hv, heq⟩ := m.mem_modify.mp he
  replace heq : v' = if k' = k then f v else v := heq
  rw [heq]
  by_cases hkey : k' = k
  · subst hkey
    rw [if_pos rfl]
    exact hk v hv
  · rw [if_neg hkey]
    exact h _ hv

/-- Changing a value changes that entry alone. -/
theorem perm_modify {k : K} {v : V} (f : V → V) (h : (k, v) ∈ m.entries) :
    ∃ rest, m.entries.Perm ((k, v) :: rest) ∧ (m.modify k f).entries.Perm ((k, f v) :: rest) := by
  obtain ⟨before, after, hsplit⟩ := List.append_of_mem h
  have hkeys := m.nodup_keys
  rw [hsplit, List.map_append, List.map_cons, List.nodup_middle, List.nodup_cons,
    ← List.map_append] at hkeys
  have hother : ∀ l : List (K × V), (∀ e ∈ l, e ∈ before ++ after) →
      l.map (fun e => (e.1, if e.1 = k then f e.2 else e.2)) = l := by
    intro l hl
    refine (List.map_congr_left (fun e he => ?_)).trans (List.map_id l)
    have hne : e.1 ≠ k := fun heq => hkeys.1 (List.mem_map.mpr ⟨e, hl e he, heq⟩)
    rw [if_neg hne]
    rfl
  refine ⟨before ++ after, hsplit ▸ List.perm_middle, ?_⟩
  have hentries : (m.modify k f).entries = before ++ (k, f v) :: after := by
    show m.entries.map (fun e => (e.1, if e.1 = k then f e.2 else e.2)) = _
    rw [hsplit, List.map_append, List.map_cons,
      hother before (fun _ => List.mem_append_left _),
      hother after (fun _ => List.mem_append_right _), if_pos rfl]
  rw [hentries]
  exact List.perm_middle

/-- Erasing a key takes away its entry alone. -/
theorem perm_erase {k : K} {v : V} (h : (k, v) ∈ m.entries) :
    m.entries.Perm ((k, v) :: (m.erase k).entries) := by
  obtain ⟨before, after, hsplit⟩ := List.append_of_mem h
  have hkeys := m.nodup_keys
  rw [hsplit, List.map_append, List.map_cons, List.nodup_middle, List.nodup_cons,
    ← List.map_append] at hkeys
  have hother : (before ++ after).filter (fun e => e.1 ≠ k) = before ++ after := by
    refine List.filter_eq_self.mpr (fun e he => decide_eq_true ?_)
    exact fun heq => hkeys.1 (List.mem_map.mpr ⟨e, he, heq⟩)
  have hentries : (m.erase k).entries = before ++ after := by
    show m.entries.filter (fun e => e.1 ≠ k) = _
    rw [hsplit, List.filter_append, List.filter_cons_of_neg (by simp), ← List.filter_append, hother]
  rw [hentries, hsplit]
  exact List.perm_middle

/-- Erasing many keys. -/
theorem entries_foldl_erase (ks : List K) :
    ∀ m : OrderedMap K V, (ks.foldl OrderedMap.erase m).entries
      = m.entries.filter (fun e => e.1 ∉ ks) := by
  induction ks with
  | nil =>
      intro m
      exact (List.filter_eq_self.mpr (fun _ _ => by simp)).symm
  | cons k ks ih =>
      intro m
      rw [List.foldl_cons, ih (m.erase k)]
      show (m.entries.filter (fun e => e.1 ≠ k)).filter (fun e => e.1 ∉ ks) = _
      rw [List.filter_filter]
      refine List.filter_congr (fun e _ => ?_)
      simp only [List.mem_cons, not_or, ne_eq, Bool.decide_and, Bool.and_comm]

/-- The keys of the entries with a property erased, the others are left. -/
theorem entries_erase_keys (P : K × V → Bool) :
    (((m.entries.filter P).map Prod.fst).foldl OrderedMap.erase m).entries
      = m.entries.filter (fun e => !P e) := by
  rw [entries_foldl_erase]
  refine List.filter_congr (fun e he => ?_)
  have hmem : e.1 ∈ (m.entries.filter P).map Prod.fst ↔ P e = true := by
    constructor
    · intro h
      obtain ⟨⟨k, v⟩, hk, rfl⟩ := List.mem_map.mp h
      obtain ⟨hk, hP⟩ := List.mem_filter.mp hk
      obtain rfl : v = e.2 := m.value_unique hk he
      exact hP
    · intro h
      exact List.mem_map_of_mem (List.mem_filter.mpr ⟨he, h⟩)
  rw [Bool.eq_iff_iff, decide_eq_true_eq, hmem, Bool.not_eq_true', Bool.not_eq_true]

/-- A key above all others comes last. -/
theorem entries_assign_last {k : K} (v : V) (h : ∀ e ∈ m.entries, e.1 < k) :
    (m.assign k v).entries = m.entries ++ [(k, v)] := by
  obtain ⟨l, hl⟩ := m
  show insertEntry k v l = l ++ [(k, v)]
  replace h : ∀ e ∈ l, e.1 < k := h
  clear hl
  induction l with
  | nil => rfl
  | cons e l ih =>
      have he := h e List.mem_cons_self
      unfold insertEntry
      rw [if_neg (not_lt_of_gt he), if_neg he.ne',
        ih (fun x hx => h x (List.mem_cons_of_mem _ hx))]
      rfl

/-- The first keys erased, the entries behind them are left. -/
theorem entries_erase_first (n : ℕ) :
    (((m.entries.take n).map Prod.fst).foldl OrderedMap.erase m).entries = m.entries.drop n := by
  have hsplit := List.take_append_drop n m.entries
  have hkeys := m.nodup_keys
  rw [← hsplit, List.map_append] at hkeys
  have hdisj := List.disjoint_of_nodup_append hkeys
  have htake : (m.entries.take n).filter (fun e => e.1 ∉ (m.entries.take n).map Prod.fst) = [] :=
    List.filter_eq_nil_iff.mpr (fun e he => by
      rw [decide_eq_true_eq, not_not]
      exact List.mem_map_of_mem he)
  have hdrop : (m.entries.drop n).filter (fun e => e.1 ∉ (m.entries.take n).map Prod.fst)
      = m.entries.drop n :=
    List.filter_eq_self.mpr (fun e he => decide_eq_true
      (fun hmem => hdisj hmem (List.mem_map_of_mem he)))
  calc (((m.entries.take n).map Prod.fst).foldl OrderedMap.erase m).entries
      = m.entries.filter (fun e => e.1 ∉ (m.entries.take n).map Prod.fst) :=
        m.entries_foldl_erase _
    _ = (m.entries.take n ++ m.entries.drop n).filter
          (fun e => e.1 ∉ (m.entries.take n).map Prod.fst) := by rw [hsplit]
    _ = m.entries.drop n := by rw [List.filter_append, htake, hdrop, List.nil_append]

/-- New keys, all with one value. -/
theorem perm_foldl_assign (v : V) {ks : List K} (hnodup : ks.Nodup) :
    ∀ {m : OrderedMap K V}, (∀ k ∈ ks, ∀ v', (k, v') ∉ m.entries) →
      (ks.foldl (fun m k => m.assign k v) m).entries.Perm
        (ks.map (fun k => (k, v)) ++ m.entries) := by
  induction ks with
  | nil =>
      intro m _
      exact List.Perm.refl _
  | cons k ks ih =>
      intro m hfresh
      obtain ⟨hk, hks⟩ := List.nodup_cons.mp hnodup
      have hassign := m.perm_assign v (hfresh k List.mem_cons_self)
      have hfresh' : ∀ k' ∈ ks, ∀ v', (k', v') ∉ (m.assign k v).entries := by
        intro k' hk' v' hv'
        rcases m.mem_assign.mp hv' with heq | ⟨hmem, -⟩
        · obtain ⟨rfl, -⟩ := Prod.ext_iff.mp heq
          exact hk hk'
        · exact hfresh k' (List.mem_cons_of_mem _ hk') v' hmem
      refine (ih hks hfresh').trans ?_
      exact (List.Perm.append_left _ hassign).trans List.perm_middle

end Lemmas

end OrderedMap
