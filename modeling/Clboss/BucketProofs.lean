import Clboss.OrderedMapProofs
import Mathlib.Data.List.Count
import Mathlib.Data.List.Flatten
import Mathlib.Data.List.Perm.Basic

/-! # Tallies and buckets — counting keys, and putting things under keys

    A tally counts how often a key came.  Buckets keep under each key what came
    with it, in the order in which it came; walked in the order of the keys they
    are a sort, and a STABLE one (`Buckets.stablySorted`). -/

namespace OrderedMap

variable {K V : Type} [LinearOrder K]

/-! ## Tallies -/

/-- One more of a key. -/
def increment (m : OrderedMap K ℕ) (k : K) : OrderedMap K ℕ :=
  match m.find k with
  | none   => m.assign k 1
  | some n => m.assign k (n + 1)

/-- The map counts the keys of the list. -/
def Tally (m : OrderedMap K ℕ) (ks : List K) : Prop := ∀ k, (m.find k).getD 0 = ks.count k

theorem tally_empty : (empty : OrderedMap K ℕ).Tally [] := fun _ => rfl

/-- One count is one more. -/
theorem find_increment (m : OrderedMap K ℕ) (k k' : K) :
    (m.increment k).find k' = if k' = k then some ((m.find k).getD 0 + 1) else m.find k' := by
  unfold increment
  cases m.find k <;> exact m.find_assign k k' _

/-- A tally counts one more. -/
theorem Tally.increment {m : OrderedMap K ℕ} {ks : List K} (h : m.Tally ks) (k : K) :
    (m.increment k).Tally (ks ++ [k]) := by
  intro k'
  rw [m.find_increment, List.count_append, ← h k', List.count_singleton]
  by_cases heq : k' = k
  · subst heq
    simp
  · rw [if_neg heq, if_neg (fun hbeq => heq (beq_iff_eq.mp hbeq).symm), Nat.add_zero]

/-! ## Buckets -/

/-- One more thing under a key. -/
def push (m : OrderedMap K (List V)) (k : K) (v : V) : OrderedMap K (List V) :=
  match m.find k with
  | none   => m.assign k [v]
  | some l => m.assign k (l ++ [v])

/-- Everything, in the order of the keys. -/
def concat (m : OrderedMap K (List V)) : List V := m.entries.flatMap Prod.snd

/-- Under each key is what came with it, in the order of the list. -/
def Buckets (m : OrderedMap K (List V)) (l : List (V × K)) : Prop :=
  ∀ k, (m.find k).getD [] = (l.filter (fun x => x.2 = k)).map Prod.fst

theorem buckets_empty : (empty : OrderedMap K (List V)).Buckets [] := fun _ => rfl

/-- One bucket has one more at its end. -/
theorem find_push (m : OrderedMap K (List V)) (k k' : K) (v : V) :
    (m.push k v).find k' = if k' = k then some ((m.find k).getD [] ++ [v]) else m.find k' := by
  unfold push
  cases m.find k <;> exact m.find_assign k k' _

/-- Buckets keep one more. -/
theorem Buckets.push {m : OrderedMap K (List V)} {l : List (V × K)} (h : m.Buckets l) (k : K)
    (v : V) : (m.push k v).Buckets (l ++ [(v, k)]) := by
  intro k'
  rw [m.find_push, List.filter_append, List.map_append, ← h k']
  by_cases heq : k' = k
  · subst heq
    simp
  · rw [if_neg heq, List.filter_cons_of_neg (by simpa using Ne.symm heq)]
    exact (List.append_nil _).symm

end OrderedMap

/-- The list in the order of the keys, with the order of the list within one key. -/
def StablySorted {K V : Type} [LinearOrder K] (l : List (V × K)) (out : List V) : Prop :=
  ∃ l' : List (V × K), l'.map Prod.fst = out ∧ l'.Pairwise (fun a b => a.2 ≤ b.2)
    ∧ ∀ k, l'.filter (fun x => x.2 = k) = l.filter (fun x => x.2 = k)

/-- It has what the list has. -/
theorem StablySorted.perm {K V : Type} [LinearOrder K] {l : List (V × K)} {out : List V}
    (h : StablySorted l out) : out.Perm (l.map Prod.fst) := by
  classical
  obtain ⟨l', rfl, -, hfilter⟩ := h
  refine List.Perm.map _ (List.perm_iff_count.mpr (fun x => ?_))
  calc l'.count x
      = (l'.filter (fun y => y.2 = x.2)).count x := (List.count_filter (by simp)).symm
    _ = (l.filter (fun y => y.2 = x.2)).count x := by rw [hfilter]
    _ = l.count x := List.count_filter (by simp)

namespace OrderedMap

variable {K V : Type} [LinearOrder K]

/-- Each thing with the key it is under. -/
def tagged (m : OrderedMap K (List V)) : List (V × K) :=
  m.entries.flatMap (fun e => e.2.map (fun v => (v, e.1)))

/-- Without the keys it is the buckets one after the other. -/
theorem map_fst_tagged (m : OrderedMap K (List V)) : m.tagged.map Prod.fst = m.concat := by
  unfold tagged concat
  rw [List.map_flatMap]
  congr 1
  funext e
  rw [List.map_map]
  exact List.map_id _

/-- The keys do not fall. -/
theorem sorted_tagged (m : OrderedMap K (List V)) :
    m.tagged.Pairwise (fun a b => a.2 ≤ b.2) := by
  refine List.pairwise_flatMap.mpr ⟨fun e _ => ?_, m.sorted.imp (fun hlt x hx y hy => ?_)⟩
  · rw [List.pairwise_map]
    exact List.pairwise_of_forall (fun _ _ => le_refl _)
  · obtain ⟨v, -, rfl⟩ := List.mem_map.mp hx
    obtain ⟨w, -, rfl⟩ := List.mem_map.mp hy
    exact hlt.le

/-- Under one key stands its bucket. -/
theorem filter_tagged (m : OrderedMap K (List V)) (k : K) :
    m.tagged.filter (fun x => x.2 = k) = ((m.find k).getD []).map (fun v => (v, k)) := by
  have hother : ∀ es : List (K × List V), (∀ e ∈ es, e.1 ≠ k) →
      (es.flatMap (fun e => e.2.map (fun v => (v, e.1)))).filter (fun x => x.2 = k) = [] := by
    intro es hes
    refine List.filter_eq_nil_iff.mpr (fun x hx => ?_)
    obtain ⟨e, he, hx⟩ := List.mem_flatMap.mp hx
    obtain ⟨v, -, rfl⟩ := List.mem_map.mp hx
    simpa using hes e he
  unfold tagged
  cases hfind : m.find k with
  | none =>
      refine hother _ (fun e he heq => ?_)
      exact m.find_eq_none_iff.mp hfind e.2 (heq ▸ he)
  | some vs =>
      obtain ⟨before, after, hsplit⟩ := List.append_of_mem (m.find_eq_some_iff.mp hfind)
      have hkeys := m.nodup_keys
      rw [hsplit, List.map_append, List.map_cons, List.nodup_middle, List.nodup_cons,
        ← List.map_append] at hkeys
      have hne : ∀ e ∈ before ++ after, e.1 ≠ k := by
        intro e he heq
        exact hkeys.1 (List.mem_map.mpr ⟨e, he, heq⟩)
      have hself : (vs.map (fun v => (v, k))).filter (fun x => x.2 = k)
          = vs.map (fun v => (v, k)) := by
        refine List.filter_eq_self.mpr (fun x hx => ?_)
        obtain ⟨v, -, rfl⟩ := List.mem_map.mp hx
        exact decide_eq_true rfl
      rw [hsplit, List.flatMap_append, List.flatMap_cons, List.filter_append, List.filter_append,
        hother before (fun e he => hne e (List.mem_append_left _ he)),
        hother after (fun e he => hne e (List.mem_append_right _ he)), hself, List.append_nil]
      rfl

/-- Walking the buckets is a stable sort. -/
theorem Buckets.stablySorted {m : OrderedMap K (List V)} {l : List (V × K)} (h : m.Buckets l) :
    StablySorted l m.concat := by
  refine ⟨m.tagged, m.map_fst_tagged, m.sorted_tagged, fun k => ?_⟩
  rw [m.filter_tagged, h k, List.map_map]
  refine (List.map_congr_left (fun x hx => ?_)).trans (List.map_id _)
  have hk := of_decide_eq_true (List.mem_filter.mp hx).2
  exact Prod.ext rfl hk.symm

end OrderedMap
