import Mathlib.Data.List.Count
import Mathlib.Data.List.Sort

/-! # Ranks in a sorted list

    A list that falls: what stands at an index, told by how many entries are above it.
    Equal entries may stand in any order, so nothing else can be told. -/

namespace Rank

variable {α : Type} [LinearOrder α]

/-- From the largest to the smallest. -/
def Falling (l : List α) : Prop := l.Pairwise (fun a b => b ≤ a)

/-- How many entries are above. -/
def above (l : List α) (x : α) : ℕ := l.countP (fun y => x < y)

theorem above_perm {l l' : List α} (h : l.Perm l') (x : α) : above l x = above l' x :=
  h.countP_eq _

/-- Everything after the head is at most the head. -/
theorem Falling.le_head {a b : α} {l : List α} (h : Falling (a :: l)) (hb : b ∈ l) : b ≤ a :=
  (List.pairwise_cons.mp h).1 b hb

/-- **THRESHOLD**: no more than `i` entries are above what is at least the entry at `i`. -/
theorem getElem_le_iff {l : List α} (h : Falling l) {i : ℕ} {a : α} (hi : l[i]? = some a) (x : α) :
    a ≤ x ↔ above l x ≤ i := by
  induction l generalizing i with
  | nil => cases hi
  | cons b l ih =>
      cases i with
      | zero =>
          cases hi
          unfold above
          rw [Nat.le_zero, List.countP_eq_zero]
          constructor
          · intro hle y hy
            rw [decide_eq_true_eq, not_lt]
            rcases List.mem_cons.mp hy with rfl | hy
            · exact hle
            · exact (h.le_head hy).trans hle
          · intro hnone
            have hhead := hnone a List.mem_cons_self
            rwa [decide_eq_true_eq, not_lt] at hhead
      | succ i =>
          have hmem : a ∈ l := List.mem_of_getElem? hi
          rw [ih (List.pairwise_cons.mp h).2 hi]
          unfold above
          rw [List.countP_cons]
          by_cases hx : x < b
          · rw [if_pos (decide_eq_true hx), Nat.add_le_add_iff_right]
          · -- then nothing is above
            rw [if_neg (by rwa [decide_eq_true_eq]), Nat.add_zero]
            have hzero : l.countP (fun y => x < y) = 0 := by
              rw [List.countP_eq_zero]
              intro y hy
              rw [decide_eq_true_eq, not_lt]
              exact (h.le_head hy).trans (not_lt.mp hx)
            rw [hzero]
            exact ⟨fun _ => Nat.zero_le _, fun _ => Nat.zero_le _⟩

/-- The same of what is at most the entry at `i`. -/
theorem le_getElem_iff {l : List α} (h : Falling l) {i : ℕ} {a : α} (hi : l[i]? = some a) (x : α) :
    x ≤ a ↔ i < l.countP (fun y => x ≤ y) := by
  induction l generalizing i with
  | nil => cases hi
  | cons b l ih =>
      rw [List.countP_cons]
      by_cases hx : x ≤ b
      · rw [if_pos (decide_eq_true hx)]
        cases i with
        | zero =>
            cases hi
            exact ⟨fun _ => Nat.succ_pos _, fun _ => hx⟩
        | succ i =>
            rw [ih (List.pairwise_cons.mp h).2 hi]
            exact Nat.succ_lt_succ_iff.symm
      · -- then nothing is as high
        rw [if_neg (by rwa [decide_eq_true_eq]), Nat.add_zero]
        have hlow : ∀ y ∈ b :: l, ¬x ≤ y := by
          intro y hy
          rcases List.mem_cons.mp hy with rfl | hy
          · exact hx
          · exact fun hle => hx (hle.trans (h.le_head hy))
        have hzero : l.countP (fun y => x ≤ y) = 0 := by
          rw [List.countP_eq_zero]
          intro y hy
          rw [decide_eq_true_eq]
          exact hlow y (List.mem_cons_of_mem _ hy)
        rw [hzero]
        exact ⟨fun hle => absurd hle (hlow a (List.mem_of_getElem? hi)),
          fun hlt => absurd hlt (Nat.not_lt_zero i)⟩

/-- In a list that falls, of distinct entries, the first `k` have fewer than `k` above them. -/
theorem Falling.countP_above_lt {l : List α} (h : Falling l) (hnodup : l.Nodup) (k : ℕ) :
    l.countP (fun x => above l x < k) = min k l.length := by
  induction l generalizing k with
  | nil => rw [List.countP_nil, List.length_nil, Nat.min_zero]
  | cons a l ih =>
      obtain ⟨ha, hl⟩ := List.nodup_cons.mp hnodup
      have hhead : above (a :: l) a = 0 := by
        unfold above
        rw [List.countP_eq_zero]
        intro y hy
        rw [decide_eq_true_eq, not_lt]
        rcases List.mem_cons.mp hy with rfl | hy
        · exact le_refl _
        · exact h.le_head hy
      -- the head is above every other entry
      have htail : ∀ x ∈ l, above (a :: l) x = above l x + 1 := by
        intro x hx
        have hlt : x < a := lt_of_le_of_ne (h.le_head hx) (fun heq => ha (heq ▸ hx))
        unfold above
        rw [List.countP_cons, if_pos (decide_eq_true hlt)]
      rw [List.countP_cons, hhead]
      cases k with
      | zero =>
          have hnone : l.countP (fun x => above (a :: l) x < 0) = 0 := by
            rw [List.countP_eq_zero]
            exact fun x _ => by simp
          rw [hnone, Nat.zero_min]
          simp
      | succ k =>
          have hcongr : l.countP (fun x => above (a :: l) x < k + 1)
              = l.countP (fun x => above l x < k) := by
            refine List.countP_congr fun x hx => ?_
            rw [htail x hx, decide_eq_true_eq, decide_eq_true_eq, Nat.succ_lt_succ_iff]
          rw [hcongr, ih (List.pairwise_cons.mp h).2 hl, List.length_cons,
            if_pos (decide_eq_true (Nat.succ_pos k)), Nat.succ_min_succ]

/-- **TOP**: of distinct entries as many have fewer than `k` above them as there can be. -/
theorem countP_above_lt {l : List α} (h : l.Nodup) (k : ℕ) :
    l.countP (fun x => above l x < k) = min k l.length := by
  have hperm := List.perm_insertionSort (· ≥ ·) l
  have hfalling : Falling (l.insertionSort (· ≥ ·)) := List.pairwise_insertionSort _ l
  have habove : (fun x => decide (above (l.insertionSort (· ≥ ·)) x < k))
      = fun x => decide (above l x < k) := by
    funext x
    rw [above_perm hperm]
  rw [← hperm.countP_eq, ← hperm.length_eq, ← hfalling.countP_above_lt (hperm.nodup_iff.mpr h) k,
    habove]

end Rank
