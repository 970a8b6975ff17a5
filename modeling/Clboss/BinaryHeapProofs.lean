import Mathlib.Data.List.Perm.Basic
import Mathlib.Order.Lattice
import Mathlib.Tactic.Common

/-! # Binary heaps

    A `std::priority_queue` on a `std::vector`, as `push_heap` and `pop_heap` of the standard
    library keep it: the top stands first, and the parent of position `i` is `(i - 1) / 2`.

    Both functions carry a HOLE through the vector, and put the value in at the end.  Read
    with the value already in the hole, a move of the hole is a swap of two positions
    (`Swapped`), and the heap is in order but for the edges at the hole: `Rising` when it can
    only be too low, `Sinking` when nothing is known about the value.

    The standard leaves open which of two equal elements comes first.  Here the value passes
    an element only if that is BELOW it, so one that is not above the top leaves it where it
    is (`top_push`). -/

namespace BinaryHeap

variable {α : Type} {lt : α → α → Bool}

/-- `parent`. -/
def parent (i : ℕ) : ℕ := (i - 1) / 2

section Code

variable (lt : α → α → Bool)

/-- `__push_heap`. -/
def pushHeap (v : List α) (hole : ℕ) (value : α) : List α :=
  match v[parent hole]? with
  | some p =>
      if 0 < hole ∧ lt p value = true then pushHeap (v.set hole p) (parent hole) value
      else v.set hole value
  | none => v.set hole value
termination_by hole
decreasing_by
  unfold parent
  omega

/-- The loop of `__adjust_heap`: the greater child moves up until the hole is at a leaf. -/
def sink (v : List α) (hole : ℕ) : List α × ℕ :=
  if h : 2 * hole + 2 < v.length then
    if lt v[2 * hole + 2] v[2 * hole + 1] then
      sink (v.set hole v[2 * hole + 1]) (2 * hole + 1)
    else
      sink (v.set hole v[2 * hole + 2]) (2 * hole + 2)
  else if h : 2 * hole + 2 = v.length then
    (v.set hole v[2 * hole + 1], 2 * hole + 1)
  else
    (v, hole)
termination_by v.length - hole

/-- `__adjust_heap`. -/
def adjustHeap (v : List α) (hole : ℕ) (value : α) : List α :=
  pushHeap lt (sink lt v hole).1 (sink lt v hole).2 value

/-- `top`. -/
def top (v : List α) : Option α := v[0]?

/-- `push`. -/
def push (v : List α) (x : α) : List α := pushHeap lt (v ++ [x]) v.length x

/-- `pop`: the last element goes where the top was. -/
def pop (v : List α) : List α :=
  match v.getLast? with
  | some value => adjustHeap lt v.dropLast 0 value
  | none       => []

end Code

/-! ## The order -/

/-- What is required of the comparison. -/
structure WeakOrder (lt : α → α → Bool) : Prop where
  asymm : ∀ {a b}, lt a b = true → lt b a = false
  trans : ∀ {a b c}, lt a b = false → lt b c = false → lt a c = false

namespace WeakOrder

theorem refl (hlt : WeakOrder lt) (a : α) : lt a a = false := by
  cases h : lt a a with
  | false => rfl
  | true  => exact h.symm.trans (hlt.asymm h)

end WeakOrder

/-- What stands at two positions is in order, when something stands at both. -/
def Over (lt : α → α → Bool) (above below : Option α) : Prop :=
  ∀ a b, above = some a → below = some b → lt a b = false

theorem Over.trans (hlt : WeakOrder lt) {o p r : Option α} {a : α} (ha : p = some a)
    (hop : Over lt o p) (hpr : Over lt p r) : Over lt o r :=
  fun x y hx hy => hlt.trans (hop x a hx ha) (hpr a y ha hy)

theorem Over.none (o : Option α) : Over lt o none := fun _ _ _ h => nomatch h

/-- A heap: every position is below its parent. -/
def IsHeap (lt : α → α → Bool) (v : List α) : Prop :=
  ∀ c, 0 < c → Over lt v[parent c]? v[c]?

/-- What stands at each position, with the hole filled, when the hole can only be too low. -/
structure Rising (lt : α → α → Bool) (f : ℕ → Option α) (hole : ℕ) : Prop where
  edges : ∀ c, 0 < c → c ≠ hole → Over lt (f (parent c)) (f c)
  grand : 0 < hole → ∀ c, 0 < c → parent c = hole → Over lt (f (parent hole)) (f c)

/-- The same when the hole may be too high as well. -/
structure Sinking (lt : α → α → Bool) (f : ℕ → Option α) (hole : ℕ) : Prop where
  edges : ∀ c, 0 < c → c ≠ hole → parent c ≠ hole → Over lt (f (parent c)) (f c)
  grand : 0 < hole → ∀ c, 0 < c → parent c = hole → Over lt (f (parent hole)) (f c)

/-- Two positions were exchanged. -/
structure Swapped (f g : ℕ → Option α) (i j : ℕ) : Prop where
  left  : g i = f j
  right : g j = f i
  other : ∀ k, k ≠ i → k ≠ j → g k = f k

theorem parent_lt {i : ℕ} (h : 0 < i) : parent i < i := by
  unfold parent
  omega

theorem eq_child {c i : ℕ} (hc : 0 < c) (h : parent c = i) : c = 2 * i + 1 ∨ c = 2 * i + 2 := by
  unfold parent at h
  omega

theorem parent_left (i : ℕ) : parent (2 * i + 1) = i := by
  unfold parent
  omega

theorem parent_right (i : ℕ) : parent (2 * i + 2) = i := by
  unfold parent
  omega

/-! ## Moves of the hole -/

/-- STEP: a value above its parent moves up. -/
theorem Rising.move (hlt : WeakOrder lt) {f g : ℕ → Option α} {hole : ℕ} (h : Rising lt f hole)
    (hpos : 0 < hole) {p x : α} (hp : f (parent hole) = some p) (hx : f hole = some x)
    (hpx : lt p x = true) (hswap : Swapped f g hole (parent hole)) :
    Rising lt g (parent hole) := by
  have hup := parent_lt hpos
  constructor
  · intro c hc hne
    by_cases hhole : c = hole
    · subst hhole
      rw [hswap.left, hswap.right, hx, hp]
      rintro a b ⟨⟩ ⟨⟩
      exact hlt.asymm hpx
    · rw [hswap.other c hhole hne]
      by_cases hchild : parent c = hole
      · rw [hchild, hswap.left]
        exact h.grand hpos c hc hchild
      · by_cases hsibling : parent c = parent hole
        · have hedge := h.edges c hc hhole
          rw [hsibling, hp] at hedge
          rw [hsibling, hswap.right, hx]
          rintro a b ⟨⟩ hb
          -- `b` is below the old parent, and that is below the value
          have hpb : lt p b = false := hedge p b rfl hb
          exact hlt.trans (hlt.asymm hpx) hpb
        · rw [hswap.other _ hchild hsibling]
          exact h.edges c hc hhole
  · intro hpos' c hc hchild
    have hup' := parent_lt hpos'
    have hchildUp := parent_lt hc
    have habove := h.edges (parent hole) hpos' (by omega)
    rw [hswap.other (parent (parent hole)) (by omega) (by omega)]
    by_cases hhole : c = hole
    · rw [hhole, hswap.left]
      exact habove
    · rw [hswap.other c hhole (by omega)]
      have hedge := h.edges c hc hhole
      rw [hchild] at hedge
      exact habove.trans hlt hp hedge

/-- At rest, the heap is in order. -/
theorem Rising.rest {f : ℕ → Option α} {hole : ℕ} (h : Rising lt f hole)
    (hrest : 0 < hole → Over lt (f (parent hole)) (f hole)) :
    ∀ c, 0 < c → Over lt (f (parent c)) (f c) := by
  intro c hc
  by_cases hhole : c = hole
  · subst hhole
    exact hrest hc
  · exact h.edges c hc hhole

/-- STEP: the greater child moves up. -/
theorem Sinking.move {f g : ℕ → Option α} {hole child : ℕ}
    (h : Sinking lt f hole) (hpos : 0 < child) (hchild : parent child = hole)
    (hgreatest : ∀ c, 0 < c → parent c = hole → Over lt (f child) (f c))
    (hswap : Swapped f g hole child) : Sinking lt g child := by
  have hup := parent_lt hpos
  constructor
  · intro c hc hne hparent
    by_cases hhole : c = hole
    · subst hhole
      have hup' := parent_lt hc
      rw [hswap.left, hswap.other (parent c) (by omega) (by omega)]
      exact h.grand hc child hpos hchild
    · rw [hswap.other c hhole hne]
      by_cases hsibling : parent c = hole
      · rw [hsibling, hswap.left]
        exact hgreatest c hc hsibling
      · rw [hswap.other _ hsibling hparent]
        exact h.edges c hc hhole hsibling
  · intro _ c hc hparent
    have hup' := parent_lt hc
    have hedge := h.edges c hc (by omega) (by omega)
    rw [hparent] at hedge
    rw [hchild, hswap.left, hswap.other c (by omega) (by omega)]
    exact hedge

/-- At a leaf, it can only be too low. -/
theorem Sinking.leaf {f : ℕ → Option α} {hole : ℕ} (h : Sinking lt f hole)
    (hleaf : ∀ c, 0 < c → parent c = hole → f c = none) : Rising lt f hole := by
  constructor
  · intro c hc hne
    by_cases hchild : parent c = hole
    · rw [hleaf c hc hchild]
      exact Over.none _
    · exact h.edges c hc hne hchild
  · intro _ c hc hchild
    rw [hleaf c hc hchild]
    exact Over.none _

/-- The hole of a vector moves from `i` to `j`. -/
theorem swapped_set {v : List α} {i j : ℕ} {p x : α} (hi : i < v.length)
    (hj : v[j]? = some p) (hne : i ≠ j) :
    Swapped (fun k => (v.set i x)[k]?) (fun k => ((v.set i p).set j x)[k]?) i j := by
  have hjlt : j < v.length := (List.getElem?_eq_some_iff.mp hj).1
  constructor
  · show ((v.set i p).set j x)[i]? = (v.set i x)[j]?
    rw [List.getElem?_set_ne hne.symm, List.getElem?_set_self hi, List.getElem?_set_ne hne, hj]
  · show ((v.set i p).set j x)[j]? = (v.set i x)[i]?
    rw [List.getElem?_set_self (by rwa [List.length_set]), List.getElem?_set_self hi]
  · intro k hki hkj
    show ((v.set i p).set j x)[k]? = (v.set i x)[k]?
    rw [List.getElem?_set_ne hkj.symm, List.getElem?_set_ne hki.symm,
      List.getElem?_set_ne hki.symm]

theorem perm_set {v : List α} {i j : ℕ} {p x : α} (hi : i < v.length)
    (hj : v[j]? = some p) (hne : i ≠ j) : ((v.set i p).set j x).Perm (v.set i x) := by
  obtain ⟨hjlt, rfl⟩ := List.getElem?_eq_some_iff.mp hj
  have hset := @List.set_set_perm _ (v.set i x) i j (by rwa [List.length_set])
    (by rwa [List.length_set])
  rw [List.getElem_set_ne hne, List.getElem_set_self, List.set_set] at hset
  exact hset

/-! ## `__push_heap` -/

theorem pushHeap_isHeap (hlt : WeakOrder lt) {v : List α} {hole : ℕ} {x : α}
    (hhole : hole < v.length) (h : Rising lt (fun k => (v.set hole x)[k]?) hole) :
    IsHeap lt (pushHeap lt v hole x) := by
  induction hole using Nat.strong_induction_on generalizing v with
  | _ hole ih =>
      have hx : (v.set hole x)[hole]? = some x := List.getElem?_set_self hhole
      have hparent : parent hole < v.length := by
        unfold parent
        omega
      obtain ⟨p, hp⟩ : ∃ p, v[parent hole]? = some p := ⟨_, List.getElem?_eq_getElem hparent⟩
      rw [pushHeap, hp]
      by_cases hmove : 0 < hole ∧ lt p x = true
      · obtain ⟨hpos, hpx⟩ := hmove
        have hne : hole ≠ parent hole := (parent_lt hpos).ne'
        have hp' : (v.set hole x)[parent hole]? = some p := by
          rw [List.getElem?_set_ne hne, hp]
        have hmoved := h.move hlt hpos hp' hx hpx (swapped_set hhole hp hne)
        simp only [hpos, hpx, and_self, if_true]
        exact ih _ (parent_lt hpos) (by rwa [List.length_set]) hmoved
      · simp only [hmove, if_false]
        refine h.rest fun hpos => ?_
        have hne : hole ≠ parent hole := (parent_lt hpos).ne'
        rintro a b ha hb
        rw [List.getElem?_set_ne hne, hp] at ha
        rw [hx] at hb
        cases ha
        cases hb
        exact Bool.eq_false_iff.mpr fun hpx => hmove ⟨hpos, hpx⟩

theorem pushHeap_perm {v : List α} {hole : ℕ} {x : α} (hhole : hole < v.length) :
    (pushHeap lt v hole x).Perm (v.set hole x) := by
  induction hole using Nat.strong_induction_on generalizing v with
  | _ hole ih =>
      rw [pushHeap]
      split
      · rename_i p hp
        split
        · rename_i hmove
          have hup := parent_lt hmove.1
          exact (ih _ hup (by rw [List.length_set]; omega)).trans (perm_set hhole hp hup.ne')
        · exact List.Perm.refl _
      · exact List.Perm.refl _

/-- The first element stays where it is unless it is below the value. -/
theorem pushHeap_top {v : List α} {hole : ℕ} {t x : α} (hpos : 0 < hole) (ht : v[0]? = some t)
    (hle : lt t x = false) : (pushHeap lt v hole x)[0]? = some t := by
  induction hole using Nat.strong_induction_on generalizing v with
  | _ hole ih =>
      have hset : ∀ y, (v.set hole y)[0]? = some t := fun y => by
        rw [List.getElem?_set_ne hpos.ne', ht]
      rw [pushHeap]
      split
      · rename_i p hp
        split
        · rename_i hmove
          by_cases hroot : parent hole = 0
          · rw [hroot, ht] at hp
            cases hp
            rw [hle] at hmove
            exact absurd hmove.2 Bool.false_ne_true
          · exact ih _ (parent_lt hpos) (Nat.pos_of_ne_zero hroot) (hset p)
        · exact hset x
      · exact hset x

/-! ## `__adjust_heap` -/

/-- What the loop leaves: a hole at a leaf, above nothing. -/
theorem sink_spec (hlt : WeakOrder lt) {v : List α} {hole : ℕ} (x : α) (hhole : hole < v.length)
    (h : Sinking lt (fun k => (v.set hole x)[k]?) hole) :
    (sink lt v hole).2 < (sink lt v hole).1.length
      ∧ Rising lt (fun k => ((sink lt v hole).1.set (sink lt v hole).2 x)[k]?) (sink lt v hole).2
      ∧ ((sink lt v hole).1.set (sink lt v hole).2 x).Perm (v.set hole x) := by
  induction hmeasure : v.length - hole using Nat.strong_induction_on generalizing v hole with
  | _ n ih =>
      -- what a child, greater than the other, makes of the hole
      have hstep : ∀ child c, 0 < child → parent child = hole → v[child]? = some c →
          (∀ k, 0 < k → parent k = hole → Over lt (some c) v[k]?) →
          Sinking lt (fun k => ((v.set hole c).set child x)[k]?) child := by
        intro child c hpos hchild hc hgreatest
        have hup := parent_lt hpos
        have hne : hole ≠ child := by omega
        refine h.move hpos hchild ?_ (swapped_set hhole hc hne)
        intro k hk hparent
        have hkne : hole ≠ k := by
          have := parent_lt hk
          omega
        show Over lt (v.set hole x)[child]? (v.set hole x)[k]?
        rw [List.getElem?_set_ne hne, List.getElem?_set_ne hkne, hc]
        exact hgreatest k hk hparent
      rw [sink]
      split
      · rename_i hboth
        have hl : v[2 * hole + 1]? = some v[2 * hole + 1] := List.getElem?_eq_getElem _
        have hr : v[2 * hole + 2]? = some v[2 * hole + 2] := List.getElem?_eq_getElem _
        split
        · rename_i hlt'
          obtain ⟨hlen, hrising, hperm⟩ := ih _ (by rw [List.length_set]; omega)
            (by rw [List.length_set]; omega)
            (hstep _ _ (by omega) (parent_left hole) hl (by
              rintro k hk hparent a b ⟨⟩ hb
              rcases eq_child hk hparent with rfl | rfl
              · rw [hl] at hb
                cases hb
                exact hlt.refl _
              · rw [hr] at hb
                cases hb
                exact hlt.asymm hlt')) rfl
          exact ⟨hlen, hrising, hperm.trans (perm_set hhole hl (by omega))⟩
        · rename_i hge
          obtain ⟨hlen, hrising, hperm⟩ := ih _ (by rw [List.length_set]; omega)
            (by rw [List.length_set]; omega)
            (hstep _ _ (by omega) (parent_right hole) hr (by
              rintro k hk hparent a b ⟨⟩ hb
              rcases eq_child hk hparent with rfl | rfl
              · rw [hl] at hb
                cases hb
                exact Bool.eq_false_iff.mpr hge
              · rw [hr] at hb
                cases hb
                exact hlt.refl _)) rfl
          exact ⟨hlen, hrising, hperm.trans (perm_set hhole hr (by omega))⟩
      · rename_i hboth
        split
        · rename_i hone
          have hl : v[2 * hole + 1]? = some v[2 * hole + 1] := List.getElem?_eq_getElem _
          have hnone : v[2 * hole + 2]? = none := List.getElem?_eq_none (by omega)
          have hsinking := hstep _ _ (by omega) (parent_left hole) hl (by
            rintro k hk hparent a b ⟨⟩ hb
            rcases eq_child hk hparent with rfl | rfl
            · rw [hl] at hb
              cases hb
              exact hlt.refl _
            · rw [hnone] at hb
              cases hb)
          refine ⟨by rw [List.length_set]; omega, hsinking.leaf ?_, perm_set hhole hl (by omega)⟩
          intro c hc hparent
          have := eq_child hc hparent
          exact List.getElem?_eq_none (by rw [List.length_set, List.length_set]; omega)
        · rename_i hnone
          refine ⟨hhole, h.leaf ?_, List.Perm.refl _⟩
          intro c hc hparent
          have := eq_child hc hparent
          exact List.getElem?_eq_none (by rw [List.length_set]; omega)

/-! ## Lengths -/

theorem length_pushHeap (v : List α) (hole : ℕ) (x : α) :
    (pushHeap lt v hole x).length = v.length := by
  induction hole using Nat.strong_induction_on generalizing v with
  | _ hole ih =>
      rw [pushHeap]
      split
      · split
        · rename_i hmove
          rw [ih _ (parent_lt hmove.1), List.length_set]
        · exact List.length_set
      · exact List.length_set

theorem length_sink (v : List α) (hole : ℕ) : (sink lt v hole).1.length = v.length := by
  fun_induction sink lt v hole with
  | case1 v hole h hlt ih => rw [ih, List.length_set]
  | case2 v hole h hlt ih => rw [ih, List.length_set]
  | case3 v hole h hone   => exact List.length_set
  | case4 v hole h hone   => rfl

theorem length_pop (v : List α) : (pop lt v).length = v.length - 1 := by
  unfold pop
  split
  · rw [adjustHeap, length_pushHeap, length_sink, List.length_dropLast]
  · rename_i hnone
    rw [List.getLast?_eq_none_iff.mp hnone]
    rfl

/-! ## The queue -/

theorem isHeap_nil : IsHeap lt [] := fun _ _ _ _ _ h => nomatch h

theorem isHeap_singleton (x : α) : IsHeap lt [x] := by
  intro c hc a b _ hb
  rw [List.getElem?_eq_none (by rw [List.length_singleton]; omega)] at hb
  exact nomatch hb

theorem isHeap_push (hlt : WeakOrder lt) {v : List α} (h : IsHeap lt v) (x : α) :
    IsHeap lt (push lt v x) := by
  have hset : (v ++ [x]).set v.length x = v ++ [x] := by simp
  have hout : ∀ c, v.length < c → (v ++ [x])[c]? = none := fun c hc =>
    List.getElem?_eq_none (by rw [List.length_append, List.length_singleton]; omega)
  refine pushHeap_isHeap hlt (by simp) ?_
  rw [hset]
  constructor
  · intro c hc hne
    have hup := parent_lt hc
    rcases lt_or_gt_of_ne hne with hin | hin
    · rw [List.getElem?_append_left (by omega), List.getElem?_append_left hin]
      exact h c hc
    · rw [hout c hin]
      exact Over.none _
  · intro _ c hc hchild
    rw [hout c (hchild ▸ parent_lt hc)]
    exact Over.none _

theorem push_perm (v : List α) (x : α) : (push lt v x).Perm (x :: v) := by
  have hset : (v ++ [x]).set v.length x = v ++ [x] := by simp
  have hperm : (push lt v x).Perm ((v ++ [x]).set v.length x) := pushHeap_perm (by simp)
  rw [hset] at hperm
  exact hperm.trans (List.perm_append_singleton x v)

/-- **SPEC.** A push does not displace a top that is not below the new element. -/
theorem top_push {v : List α} {t x : α} (ht : top v = some t) (hle : lt t x = false) :
    top (push lt v x) = some t := by
  have hpos : 0 < v.length := (List.getElem?_eq_some_iff.mp ht).1
  refine pushHeap_top hpos ?_ hle
  rw [List.getElem?_append_left hpos]
  exact ht

theorem adjustHeap_spec (hlt : WeakOrder lt) {v : List α} (h : IsHeap lt v) (x : α) :
    IsHeap lt (adjustHeap lt v 0 x) ∧ (adjustHeap lt v 0 x).Perm (v.set 0 x) := by
  cases v with
  | nil =>
      have hempty : adjustHeap lt [] 0 x = [] := by
        simp [adjustHeap, sink, pushHeap]
      rw [hempty]
      exact ⟨isHeap_nil, List.Perm.refl _⟩
  | cons t v =>
      have hsinking : Sinking lt (fun k => ((t :: v).set 0 x)[k]?) 0 := by
        constructor
        · intro c hc hne hparent
          show Over lt ((t :: v).set 0 x)[parent c]? ((t :: v).set 0 x)[c]?
          rw [List.getElem?_set_ne (Ne.symm hne), List.getElem?_set_ne (Ne.symm hparent)]
          exact h c hc
        · intro hpos
          exact absurd hpos (lt_irrefl 0)
      obtain ⟨hlen, hrising, hperm⟩ := sink_spec hlt x (by simp) hsinking
      exact ⟨pushHeap_isHeap hlt hlen hrising, (pushHeap_perm hlen).trans hperm⟩

theorem IsHeap.dropLast {v : List α} (h : IsHeap lt v) : IsHeap lt v.dropLast := by
  intro c hc a b ha hb
  have hmono : ∀ {i : ℕ} {y : α}, v.dropLast[i]? = some y → v[i]? = some y := by
    intro i y hy
    rw [List.getElem?_dropLast] at hy
    split at hy
    · exact hy
    · exact nomatch hy
  exact h c hc a b (hmono ha) (hmono hb)

theorem isHeap_pop (hlt : WeakOrder lt) {v : List α} (h : IsHeap lt v) : IsHeap lt (pop lt v) := by
  unfold pop
  split
  · exact (adjustHeap_spec hlt h.dropLast _).1
  · exact isHeap_nil

/-- **SPEC.** A pop takes the top, and nothing else. -/
theorem perm_pop (hlt : WeakOrder lt) {v : List α} (h : IsHeap lt v) {t : α}
    (ht : top v = some t) : v.Perm (t :: pop lt v) := by
  obtain ⟨w, rfl⟩ : ∃ w, v = t :: w := by
    cases v with
    | nil      => exact nomatch ht
    | cons a w =>
        cases ht
        exact ⟨w, rfl⟩
  rcases List.eq_nil_or_concat' w with rfl | ⟨u, last, rfl⟩
  · have hpop : pop lt [t] = [] := List.Perm.eq_nil ((adjustHeap_spec hlt isHeap_nil t).2)
    rw [hpop]
  · have hlast : (t :: (u ++ [last])).getLast? = some last := by
      rw [← List.cons_append, List.getLast?_concat]
    have hdrop : (t :: (u ++ [last])).dropLast = t :: u := by
      rw [← List.cons_append, List.dropLast_concat]
    have hpop : (pop lt (t :: (u ++ [last]))).Perm (last :: u) := by
      have hspec := (adjustHeap_spec hlt h.dropLast last).2
      unfold pop
      rw [hlast]
      rw [hdrop] at hspec ⊢
      exact hspec
    exact List.Perm.cons t ((List.perm_append_singleton last u).trans hpop.symm)

/-- **SPEC.** Nothing is above the top. -/
theorem le_top (hlt : WeakOrder lt) {v : List α} (h : IsHeap lt v) {t x : α}
    (ht : top v = some t) (hx : x ∈ v) : lt t x = false := by
  have hat : ∀ (i : ℕ) (y : α), v[i]? = some y → lt t y = false := by
    intro i
    induction i using Nat.strong_induction_on with
    | _ i ih =>
        intro y hy
        rcases Nat.eq_zero_or_pos i with rfl | hpos
        · rw [show v[0]? = some t from ht] at hy
          cases hy
          exact hlt.refl t
        · have hup := parent_lt hpos
          have hin : i < v.length := (List.getElem?_eq_some_iff.mp hy).1
          have hp : v[parent i]? = some v[parent i] := List.getElem?_eq_getElem _
          exact hlt.trans (ih _ hup _ hp) (h i hpos _ _ hp hy)
  obtain ⟨i, hi⟩ := List.getElem?_of_mem hx
  exact hat i x hi

end BinaryHeap
