import Mathlib.Data.List.Nodup
import Mathlib.Data.List.Perm.Subperm
import Mathlib.Order.Lattice

/-! # `Stats::ReservoirSampler` — the largest keys are kept

    Every sample comes with a key, and the reservoir holds the samples with the
    LARGEST keys in two parallel vectors.  A full reservoir replaces its smallest key,
    found by a linear scan, when a larger one arrives.

    What was not kept is no part of the sampler, so the invariant (`Keeps`) brings it
    back: kept and dropped pairs together are the stream, and no dropped key exceeds a
    kept one.  When keys are distinct this leaves ONE possible set (`Keeps.perm`), in
    whatever order the stream arrived.

    Keys are compared as `double`s in the code; a NaN is no key here. -/

namespace Stats

/-! ## The sampler -/

structure ReservoirSampler (Key Sample : Type) where
  maxSelected : ℕ
  selected    : List Sample
  /-- the key that admitted the sample at the same index -/
  keys        : List Key
  parallel    : keys.length = selected.length

namespace ReservoirSampler

variable {Key Sample : Type} [LinearOrder Key]

/-- The constructor. -/
def init (maxSelected : ℕ) : ReservoirSampler Key Sample := ⟨maxSelected, [], [], rfl⟩

/-- The scan from position `i` on; `minI` is the position of the smallest key `m` so far. -/
def scan (i minI : ℕ) (m : Key) : List Key → ℕ × Key
  | []      => (minI, m)
  | k :: ks => if k < m then scan (i + 1) i k ks else scan (i + 1) minI m ks

/-- `min_i`, and the key there. -/
def minKey : List Key → Option (ℕ × Key)
  | []      => none
  | k :: ks => some (scan 1 0 k ks)

/-- `add`, with the key that was drawn. -/
def add (r : ReservoirSampler Key Sample) (e : Key × Sample) : ReservoirSampler Key Sample :=
  if r.maxSelected = 0 then r
  else if r.selected.length < r.maxSelected then
    { r with
      selected := r.selected ++ [e.2]
      keys     := r.keys ++ [e.1]
      parallel := by simp only [List.length_append, List.length_singleton, r.parallel] }
  else
    match minKey r.keys with
    | none           => r
    | some (minI, m) =>
        if m < e.1 then
          { r with
            selected := r.selected.set minI e.2
            keys     := r.keys.set minI e.1
            parallel := by simp only [List.length_set, r.parallel] }
        else r

/-- The samples with their keys. -/
def entries (r : ReservoirSampler Key Sample) : List (Key × Sample) := r.keys.zip r.selected

/-- A stream of samples. -/
def addAll (r : ReservoirSampler Key Sample) (stream : List (Key × Sample)) :
    ReservoirSampler Key Sample := stream.foldl add r

omit [LinearOrder Key] in
theorem length_entries (r : ReservoirSampler Key Sample) : r.entries.length = r.selected.length := by
  rw [entries, List.length_zip, r.parallel, Nat.min_self]

omit [LinearOrder Key] in
theorem map_fst_entries (r : ReservoirSampler Key Sample) : r.entries.map Prod.fst = r.keys :=
  List.map_fst_zip r.parallel.le

omit [LinearOrder Key] in
theorem map_snd_entries (r : ReservoirSampler Key Sample) : r.entries.map Prod.snd = r.selected :=
  List.map_snd_zip r.parallel.ge

/-! ## The scan -/

/-- What the scan ends with is the smallest key, and at its position. -/
theorem scan_spec {before : List Key} {m : Key} {minI : ℕ} (ks : List Key)
    (hm : before[minI]? = some m) (hle : ∀ k ∈ before, m ≤ k) :
    (before ++ ks)[(scan before.length minI m ks).1]? = some (scan before.length minI m ks).2
      ∧ ∀ k ∈ before ++ ks, (scan before.length minI m ks).2 ≤ k := by
  induction ks generalizing before m minI with
  | nil =>
      rw [List.append_nil]
      exact ⟨hm, hle⟩
  | cons k ks ih =>
      have happend : before ++ k :: ks = before ++ [k] ++ ks := by simp
      have hlength : before.length + 1 = (before ++ [k]).length := by simp
      rw [happend, scan, hlength]
      by_cases hk : k < m
      · rw [if_pos hk]
        refine ih (by simp) (fun k' hk' => ?_)
        rcases List.mem_append.mp hk' with hold | hnew
        · exact hk.le.trans (hle k' hold)
        · exact (List.mem_singleton.mp hnew).ge
      · rw [if_neg hk]
        refine ih ?_ (fun k' hk' => ?_)
        · have hlt := (List.getElem?_eq_some_iff.mp hm).1
          rw [List.getElem?_append_left hlt, hm]
        · rcases List.mem_append.mp hk' with hold | hnew
          · exact hle k' hold
          · exact (not_lt.mp hk).trans (List.mem_singleton.mp hnew).ge

theorem minKey_spec {ks : List Key} {minI : ℕ} {m : Key} (h : minKey ks = some (minI, m)) :
    ks[minI]? = some m ∧ ∀ k ∈ ks, m ≤ k := by
  cases ks with
  | nil => cases h
  | cons k ks =>
      have hscan : scan 1 0 k ks = (minI, m) := Option.some.inj h
      have hfirst : [k][0]? = some k := rfl
      have hspec := scan_spec ks hfirst (fun k' hk' => (List.mem_singleton.mp hk').ge)
      rw [List.length_singleton, hscan] at hspec
      exact hspec

/-! ## The invariant -/

/-- Kept and dropped samples are the stream; keys are dropped by a full reservoir only,
    and none that exceeds a kept one. -/
structure Keeps (r : ReservoirSampler Key Sample) (stream dropped : List (Key × Sample)) : Prop where
  perm : (r.entries ++ dropped).Perm stream
  size : r.selected.length ≤ r.maxSelected
  full : dropped ≠ [] → r.selected.length = r.maxSelected
  top  : ∀ d ∈ dropped, ∀ e ∈ r.entries, d.1 ≤ e.1

theorem keeps_init (maxSelected : ℕ) :
    Keeps (init maxSelected : ReservoirSampler Key Sample) [] [] :=
  ⟨List.Perm.nil, Nat.zero_le _, fun h => absurd rfl h, fun d hd => by cases hd⟩

/-- Replacing one entry of a list. -/
theorem set_perm {α : Type} {l : List α} {i : ℕ} {a : α} (x : α) (h : l[i]? = some a) :
    (a :: l.set i x).Perm (x :: l) := by
  obtain ⟨hlt, rfl⟩ := List.getElem?_eq_some_iff.mp h
  induction l generalizing i with
  | nil => cases hlt
  | cons b l ih =>
      cases i with
      | zero => exact List.Perm.swap _ _ _
      | succ i =>
          have hi : i < l.length := Nat.lt_of_succ_lt_succ hlt
          have hrest := ih hi (List.getElem?_eq_getElem hi)
          exact ((List.Perm.swap _ _ _).trans (hrest.cons b)).trans (List.Perm.swap _ _ _)

omit [LinearOrder Key] in
theorem zip_set (ks : List Key) (xs : List Sample) (i : ℕ) (k : Key) (x : Sample) :
    (ks.set i k).zip (xs.set i x) = (ks.zip xs).set i (k, x) := by
  induction ks generalizing xs i with
  | nil => rfl
  | cons k' ks ih =>
      cases xs with
      | nil => cases i <;> rfl
      | cons x' xs =>
          cases i with
          | zero => rfl
          | succ i => exact congrArg _ (ih xs i)

/-- **STEP**. -/
theorem Keeps.add {r : ReservoirSampler Key Sample} {stream dropped : List (Key × Sample)}
    (h : Keeps r stream dropped) (e : Key × Sample) :
    ∃ dropped', Keeps (r.add e) (stream ++ [e]) dropped' := by
  have hdrop : ∀ l : List (Key × Sample), (r.entries ++ e :: l).Perm (e :: (r.entries ++ l)) :=
    fun _ => List.perm_middle
  have hstream : (e :: (r.entries ++ dropped)).Perm (stream ++ [e]) :=
    (h.perm.cons e).trans (List.perm_append_singleton e stream).symm
  unfold ReservoirSampler.add
  by_cases hzero : r.maxSelected = 0
  · -- nothing is ever kept
    rw [if_pos hzero]
    have hnone : r.entries = [] := by
      have := h.size
      rw [← r.length_entries, hzero] at this
      exact List.length_eq_zero_iff.mp (Nat.le_zero.mp this)
    refine ⟨e :: dropped, (hdrop dropped).trans hstream, h.size, fun _ => ?_, ?_⟩
    · rw [← r.length_entries, hnone, hzero]
      rfl
    · rw [hnone]
      exact fun _ _ _ he => by cases he
  · rw [if_neg hzero]
    by_cases hroom : r.selected.length < r.maxSelected
    · rw [if_pos hroom]
      have hempty : dropped = [] := by
        by_contra hne
        exact absurd (h.full hne) hroom.ne
      subst hempty
      refine ⟨[], ?_, ?_, fun hne => absurd rfl hne, fun d hd => by cases hd⟩
      · have hentries : (r.keys ++ [e.1]).zip (r.selected ++ [e.2]) = r.entries ++ [e] :=
          List.zip_append r.parallel
        show ((r.keys ++ [e.1]).zip (r.selected ++ [e.2]) ++ []).Perm _
        rw [hentries, List.append_nil]
        have hperm := h.perm
        rw [List.append_nil] at hperm
        exact hperm.append_right [e]
      · show (r.selected ++ [e.2]).length ≤ r.maxSelected
        rw [List.length_append, List.length_singleton]
        exact hroom
    · rw [if_neg hroom]
      have hfull : r.selected.length = r.maxSelected := Nat.le_antisymm h.size (not_lt.mp hroom)
      cases hmin : minKey r.keys with
      | none =>
          -- a full reservoir has keys
          have hkeys : r.keys = [] := by
            cases hk : r.keys with
            | nil => rfl
            | cons k ks =>
                rw [hk] at hmin
                cases hmin
          have hlen := r.parallel
          rw [hkeys, hfull] at hlen
          exact absurd hlen.symm hzero
      | some res =>
          obtain ⟨minI, m⟩ := res
          obtain ⟨hm, hmle⟩ := minKey_spec hmin
          have hkey : ∀ x ∈ r.entries, m ≤ x.1 := by
            intro x hx
            refine hmle x.1 ?_
            rw [← r.map_fst_entries]
            exact List.mem_map_of_mem hx
          simp only
          by_cases hlt : m < e.1
          · -- the smallest key is replaced, and dropped
            rw [if_pos hlt]
            have hfst : r.entries[minI]?.map Prod.fst = some m := by
              rw [← List.getElem?_map, r.map_fst_entries, hm]
            obtain ⟨out, hout, houtm⟩ := Option.map_eq_some_iff.mp hfst
            have hset : (r.keys.set minI e.1).zip (r.selected.set minI e.2) = r.entries.set minI e :=
              zip_set _ _ _ _ _
            have hswap : (out :: r.entries.set minI e).Perm (e :: r.entries) := set_perm e hout
            refine ⟨out :: dropped, ?_, ?_, fun _ => ?_, fun d hd x hx => ?_⟩
            · show ((r.keys.set minI e.1).zip (r.selected.set minI e.2) ++ out :: dropped).Perm _
              rw [hset]
              exact (List.perm_middle.trans (hswap.append_right dropped)).trans hstream
            · show (r.selected.set minI e.2).length ≤ r.maxSelected
              rw [List.length_set]
              exact h.size
            · show (r.selected.set minI e.2).length = r.maxSelected
              rw [List.length_set, hfull]
            · replace hx : x ∈ (r.keys.set minI e.1).zip (r.selected.set minI e.2) := hx
              rw [hset] at hx
              have hxm : m ≤ x.1 := by
                rcases List.mem_cons.mp (hswap.subset (List.mem_cons_of_mem out hx)) with rfl | hx
                · exact hlt.le
                · exact hkey x hx
              rcases List.mem_cons.mp hd with rfl | hd
              · rw [houtm]
                exact hxm
              · have hle : d.1 ≤ m := by
                  rw [← houtm]
                  exact h.top d hd out (List.mem_of_getElem? hout)
                exact hle.trans hxm
          · -- the new key is dropped
            rw [if_neg hlt]
            refine ⟨e :: dropped, (hdrop dropped).trans hstream, h.size, fun _ => hfull, ?_⟩
            intro d hd x hx
            rcases List.mem_cons.mp hd with rfl | hd
            · exact (not_lt.mp hlt).trans (hkey x hx)
            · exact h.top d hd x hx

omit [LinearOrder Key] in
theorem maxSelected_add [LinearOrder Key] (r : ReservoirSampler Key Sample) (e : Key × Sample) :
    (r.add e).maxSelected = r.maxSelected := by
  unfold ReservoirSampler.add
  split
  · rfl
  · split
    · rfl
    · split
      · rfl
      · split
        · rfl
        · rfl

/-- **RUN**. -/
theorem keeps_addAll {r : ReservoirSampler Key Sample} {before dropped : List (Key × Sample)}
    (h : Keeps r before dropped) (stream : List (Key × Sample)) :
    ∃ dropped', Keeps (r.addAll stream) (before ++ stream) dropped' := by
  induction stream generalizing r before dropped with
  | nil =>
      rw [List.append_nil]
      exact ⟨dropped, h⟩
  | cons e stream ih =>
      obtain ⟨dropped', h'⟩ := h.add e
      have happend : before ++ e :: stream = before ++ [e] ++ stream := by simp
      rw [happend]
      exact ih h'

theorem maxSelected_addAll (r : ReservoirSampler Key Sample) (stream : List (Key × Sample)) :
    (r.addAll stream).maxSelected = r.maxSelected := by
  induction stream generalizing r with
  | nil => rfl
  | cons e stream ih => exact (ih (r.add e)).trans (maxSelected_add r e)

/-- How many are kept. -/
theorem Keeps.length {r : ReservoirSampler Key Sample} {stream dropped : List (Key × Sample)}
    (h : Keeps r stream dropped) : r.selected.length = min r.maxSelected stream.length := by
  have hlen := h.perm.length_eq
  rw [List.length_append, r.length_entries] at hlen
  have hsize := h.size
  by_cases hd : dropped = []
  · rw [hd, List.length_nil] at hlen
    omega
  · have hfull := h.full hd
    omega

/-! ## Distinct keys -/

/-- Nothing else has keys as large: one of two reservoirs of the same size, over the
    same stream with distinct keys, is a part of the other. -/
theorem Keeps.subset {r r' : ReservoirSampler Key Sample}
    {stream stream' dropped dropped' : List (Key × Sample)} (h : Keeps r stream dropped)
    (h' : Keeps r' stream' dropped') (hperm : stream'.Perm stream)
    (hlen : r.selected.length = r'.selected.length) (hnodup : (stream.map Prod.fst).Nodup) :
    r.entries ⊆ r'.entries := by
  have hstream : stream.Nodup := List.Nodup.of_map _ hnodup
  have hkept : r.entries.Nodup := (List.nodup_append.mp (h.perm.nodup_iff.mpr hstream)).1
  have hkept' : r'.entries.Nodup :=
    (List.nodup_append.mp ((h'.perm.trans hperm).nodup_iff.mpr hstream)).1
  intro e he
  by_contra hnot
  -- The other reservoir has an entry that this one dropped.
  obtain ⟨e', he', hnot'⟩ : ∃ e' ∈ r'.entries, e' ∉ r.entries := by
    by_contra hall
    have hsub : r'.entries ⊆ r.entries := fun x hx => by
      by_contra hx'
      exact hall ⟨x, hx, hx'⟩
    have hlen' : r.entries.length ≤ r'.entries.length := by
      rw [length_entries, length_entries, hlen]
    exact hnot (((hkept'.subperm hsub).perm_of_length_le hlen').symm.subset he)
  have hmem : e ∈ stream := h.perm.subset (List.mem_append_left _ he)
  have hmem' : e' ∈ stream := (h'.perm.trans hperm).subset (List.mem_append_left _ he')
  have hdrop : e ∈ dropped' :=
    (List.mem_append.mp ((h'.perm.trans hperm).symm.subset hmem)).resolve_left hnot
  have hdrop' : e' ∈ dropped :=
    (List.mem_append.mp (h.perm.symm.subset hmem')).resolve_left hnot'
  have hkey : e.1 = e'.1 := le_antisymm (h'.top e hdrop e' he') (h.top e' hdrop' e he)
  have heq : e = e' := List.inj_on_of_nodup_map hnodup hmem hmem' hkey
  exact hnot (heq ▸ he')

/-- With distinct keys the stream alone decides what is kept. -/
theorem Keeps.perm_entries {r r' : ReservoirSampler Key Sample}
    {stream stream' dropped dropped' : List (Key × Sample)} (h : Keeps r stream dropped)
    (h' : Keeps r' stream' dropped') (hperm : stream'.Perm stream)
    (hlen : r.selected.length = r'.selected.length) (hnodup : (stream.map Prod.fst).Nodup) :
    r.entries.Perm r'.entries := by
  have hstream : stream.Nodup := List.Nodup.of_map _ hnodup
  have hkept : r.entries.Nodup := (List.nodup_append.mp (h.perm.nodup_iff.mpr hstream)).1
  have hlen' : r'.entries.length ≤ r.entries.length := by
    rw [length_entries, length_entries, hlen]
  exact (hkept.subperm (h.subset h' hperm hlen hnodup)).perm_of_length_le hlen'

/-- A new sampler, once it was fed a stream. -/
def fed (maxSelected : ℕ) (stream : List (Key × Sample)) : ReservoirSampler Key Sample :=
  (init maxSelected).addAll stream

/-- **HEADLINE**: after any stream the samples with the largest keys are selected, each
    beside its key, and for distinct keys they do not depend on the order of arrival. -/
theorem keeps_best (maxSelected : ℕ) (stream : List (Key × Sample)) :
    (fed maxSelected stream).selected.length = min maxSelected stream.length
      ∧ (fed maxSelected stream).keys.length = (fed maxSelected stream).selected.length
      ∧ (∀ (i : ℕ) k x, (fed maxSelected stream).keys[i]? = some k →
        (fed maxSelected stream).selected[i]? = some x → (k, x) ∈ stream)
      ∧ (∃ dropped, ((fed maxSelected stream).keys.zip (fed maxSelected stream).selected
          ++ dropped).Perm stream
        ∧ ∀ d ∈ dropped, ∀ k ∈ (fed maxSelected stream).keys, d.1 ≤ k)
      ∧ ((stream.map Prod.fst).Nodup → ∀ stream' : List (Key × Sample), stream'.Perm stream →
        ((fed maxSelected stream').selected).Perm (fed maxSelected stream).selected) := by
  set r := fed maxSelected stream
  obtain ⟨dropped, h⟩ := keeps_addAll (keeps_init maxSelected) stream
  rw [List.nil_append] at h
  have hmax : r.maxSelected = maxSelected := maxSelected_addAll _ stream
  have hlength : r.selected.length = min maxSelected stream.length := by
    rw [← hmax]
    exact h.length
  refine ⟨hlength, r.parallel, ?_, ⟨dropped, h.perm, ?_⟩, ?_⟩
  · intro i k x hk hx
    have hzip : r.entries[i]? = some (k, x) := by
      rw [entries, List.getElem?_zip_eq_some]
      exact ⟨hk, hx⟩
    exact h.perm.subset (List.mem_append_left _ (List.mem_of_getElem? hzip))
  · intro d hd k hk
    rw [← r.map_fst_entries] at hk
    obtain ⟨e, he, rfl⟩ := List.mem_map.mp hk
    exact h.top d hd e he
  · intro hnodup stream' hperm
    obtain ⟨dropped', h'⟩ := keeps_addAll (keeps_init maxSelected) stream'
    rw [List.nil_append] at h'
    have hlen : r.selected.length = (fed maxSelected stream').selected.length := by
      rw [fed, h'.length, maxSelected_addAll, hlength, hperm.length_eq]
      rfl
    rw [← map_snd_entries, ← map_snd_entries]
    exact (h.perm_entries h' hperm hlen hnodup).symm.map _

end ReservoirSampler

end Stats
