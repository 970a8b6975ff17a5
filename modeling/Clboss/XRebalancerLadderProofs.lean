import Mathlib.Algebra.Order.Archimedean.Basic
import Mathlib.Data.List.Chain
import Mathlib.Data.List.Destutter
import Mathlib.Data.List.TakeWhile
import Clboss.XRebalancerProofs

/-! # `XRebalancer::derive_ladder` — floors between the ceiling and the noise

    The ladder is built in three moves.  Targets fall by a fixed RATIO from the
    joint rate of the first row to that of the last useful one; each target is
    SNAPPED to the last row that still reaches it; and a row is left out if it is
    already there, or closer than a GAP to the rung before.  The last useful row is
    appended if the loop did not end with it.

    The code is written once, over numbers with the operations that it uses.  With
    `double` it is the code of the planner (`deriveLadder_eq`).  With exact numbers
    the targets end, since a geometric sequence does, and snapping is monotone:
    this is what makes a ladder of the list (`derive_ladder_sound`). -/

namespace Ladder

/-! ## The code, over any numbers -/

/-- Numbers, and the constants of the ladder among them. -/
structure Arith (K : Type) where
  lt       : K → K → Bool
  le       : K → K → Bool
  div      : K → K → K
  zero     : K
  minusOne : K
  ratio    : K
  noise    : K
  gap      : K

/-- What is read of a row. -/
structure View (R K : Type) where
  n        : R → ℤ
  fillPpm  : R → K
  drainPpm : R → K
  joint    : R → K

section Code

variable {R K : Type} (A : Arith K) (V : View R K)

/-- The length of the first stretch of rows with both sides above the noise. -/
def usefulLength (curve : List R) : ℕ :=
  (curve.takeWhile (fun pt => A.le A.noise (V.fillPpm pt) && A.le A.noise (V.drainPpm pt))).length

/-- `useful_idx`. -/
def usefulIdx (curve : List R) : ℕ := usefulLength A V curve - 1

/-- The rows up to `useful_idx`. -/
def usefulRows (curve : List R) : List R := curve.take (usefulIdx A V curve + 1)

/-- The loop that divides, with `fuel` rounds at most. -/
def targets (usefulJoint : K) : ℕ → K → Option (List K)
  | 0, _        => none
  | fuel + 1, t =>
      if A.lt usefulJoint t then
        (targets usefulJoint fuel (A.div t A.ratio)).map (t :: ·)
      else some []

/-- Snap a target to the row a floor of `tgt` would select. -/
def snap (first : R) (rows : List R) (tgt : K) : R :=
  (rows.takeWhile (fun pt => A.le tgt (V.joint pt))).getLast?.getD first

/-- One target of the ladder loop. -/
def addRung (first : R) (rows : List R) (st : List R × K) (tgt : K) : List R × K :=
  let pick := snap A V first rows tgt
  if st.1.any (fun p => V.n p = V.n pick) then st
  else if A.lt A.zero st.2 ∧ A.lt (A.div st.2 A.gap) (V.joint pick) then st
  else (st.1 ++ [pick], V.joint pick)

/-- `derive_ladder`. -/
def derive (fuel : ℕ) : List R → Option (List R)
  | []            => some []
  | first :: rest =>
      let rows := usefulRows A V (first :: rest)
      let useful := rows.getLast?.getD first
      (targets A (V.joint useful) fuel (V.joint first)).map (fun ts =>
        let ladder :=
          ((ts ++ [V.joint useful]).foldl (addRung A V first rows) ([], A.minusOne)).1
        if ladder.any (fun p => V.n p = V.n useful) then ladder else ladder ++ [useful])

/-- The loop that selects the cut, starting from `best`. -/
def selectCut (floor : K) (best : R) : List R → R
  | []          => best
  | pt :: curve => if A.le floor (V.joint pt) then selectCut floor pt curve else best

end Code

/-! ## The code of the planner -/

/-- The numbers of the planner. -/
def doubles : Arith Double where
  lt       := Double.lt
  le       := Double.le
  div      := Double.div
  zero     := .finite 0
  minusOne := .finite (-1)
  ratio    := XRebalancer.ladderRatio
  noise    := XRebalancer.noisePpm
  gap      := XRebalancer.minGap

/-- The rows of the planner. -/
def curvePoints : View XRebalancer.CurvePoint Double where
  n        := XRebalancer.CurvePoint.n
  fillPpm  := XRebalancer.CurvePoint.fillPpm
  drainPpm := XRebalancer.CurvePoint.drainPpm
  joint    := XRebalancer.CurvePoint.joint

theorem targets_eq (usefulJoint t : Double) (fuel : ℕ) :
    XRebalancer.targets usefulJoint fuel t = targets doubles usefulJoint fuel t := by
  induction fuel generalizing t with
  | zero => rfl
  | succ fuel ih =>
      rw [XRebalancer.targets, targets, ih]
      rfl

/-- **THE PLANNER'S LADDER** is this code with `double`. -/
theorem deriveLadder_eq (fuel : ℕ) (curve : List XRebalancer.CurvePoint) :
    XRebalancer.deriveLadder fuel curve = derive doubles curvePoints fuel curve := by
  cases curve with
  | nil => rfl
  | cons first rest =>
      rw [XRebalancer.deriveLadder, derive, targets_eq]
      rfl

/-- The planner's cut likewise. -/
theorem selectCut_eq (floor : Double) (best : XRebalancer.CurvePoint)
    (curve : List XRebalancer.CurvePoint) :
    XRebalancer.selectCut floor best curve = selectCut doubles curvePoints floor best curve := by
  induction curve generalizing best with
  | nil => rfl
  | cons pt curve ih =>
      rw [XRebalancer.selectCut, selectCut, ih]
      rfl

section Volumes

open XRebalancer

variable {Node : Type}

theorem cum_pos {pool : List (PoolItem Node)} (h : ∀ it ∈ pool, 0 < it.deficit) {acc : ℤ}
    (hacc : 0 ≤ acc) : ∀ e ∈ cum acc pool, 0 < e.1 := by
  induction pool generalizing acc with
  | nil => exact fun e he => by cases he
  | cons it pool ih =>
      have hit := h it List.mem_cons_self
      intro e he
      rcases List.mem_cons.mp he with rfl | he
      · exact Int.add_pos_of_nonneg_of_pos hacc hit
      · exact ih (fun it hit => h it (List.mem_cons_of_mem _ hit)) (by omega) e he

theorem mem_of_mem_curve {fc dc : List (ℤ × Double)} {bps : List ℤ} {pt : CurvePoint}
    (h : pt ∈ curve fc dc bps) : pt.n ∈ bps := by
  induction bps with
  | nil => cases h
  | cons n bps ih =>
      unfold curve at h
      dsimp only at h
      split at h
      · cases h
      · rcases List.mem_cons.mp h with rfl | h
        · exact List.mem_cons_self
        · exact List.mem_cons_of_mem _ (ih h)

/-- The planner's volumes are positive: they add up deficits. -/
theorem curve_volume_pos {fill drain : List (PoolItem Node)} (hfill : ∀ it ∈ fill, 0 < it.deficit)
    (hdrain : ∀ it ∈ drain, 0 < it.deficit) {pt : CurvePoint}
    (h : pt ∈ curve (cum 0 fill) (cum 0 drain) (breakpoints (cum 0 fill) (cum 0 drain))) :
    0 < pt.n := by
  have hmem := (List.destutter_sublist _ _).subset (mem_of_mem_curve h)
  rw [List.mem_insertionSort] at hmem
  rcases List.mem_append.mp hmem with hmem | hmem
  · obtain ⟨e, he, hn⟩ := List.mem_map.mp hmem
    exact hn ▸ cum_pos hfill le_rfl e he
  · obtain ⟨e, he, hn⟩ := List.mem_map.mp hmem
    exact hn ▸ cum_pos hdrain le_rfl e he

end Volumes

/-! ## Exact numbers -/

/-- The same constants, exactly. -/
def exact : Arith ℚ where
  lt a b   := decide (a < b)
  le a b   := decide (a ≤ b)
  div      := (· / ·)
  zero     := 0
  minusOne := -1
  ratio    := 16 / 10
  noise    := 10
  gap      := 125 / 100

/-- A row with exact rates. -/
structure Row where
  n        : ℤ
  fillPpm  : ℚ
  drainPpm : ℚ
  joint    : ℚ
deriving DecidableEq

def Row.view : View Row ℚ := ⟨Row.n, Row.fillPpm, Row.drainPpm, Row.joint⟩

/-- A curve as the planner makes them: cumulative volumes, and marginal rates that do not rise. -/
structure Curve where
  rows       : List Row
  nonempty   : rows ≠ []
  volume_pos : ∀ r ∈ rows, 0 < r.n
  volumes    : rows.Pairwise (fun a b => a.n < b.n)
  fill_pos   : ∀ r ∈ rows, 0 < r.fillPpm
  fills      : rows.Pairwise (fun a b => b.fillPpm ≤ a.fillPpm)
  drain_pos  : ∀ r ∈ rows, 0 < r.drainPpm
  drains     : rows.Pairwise (fun a b => b.drainPpm ≤ a.drainPpm)
  joint_eq   : ∀ r ∈ rows, r.joint = r.fillPpm + r.drainPpm

/-! ## Targets -/

/-- **THE TARGETS END**: a sequence that is divided by the ratio falls below any rate. -/
theorem exists_targets {u : ℚ} (hu : 0 < u) (t : ℚ) :
    ∃ bound ts, (∀ fuel, bound ≤ fuel → targets exact u fuel t = some ts)
      ∧ (ts ++ [u]).Pairwise (fun a b => b ≤ a)
      ∧ (u ≤ t → (ts ++ [u]).head? = some t) ∧ ∀ x ∈ ts, x ≤ t := by
  obtain ⟨k, hk⟩ := pow_unbounded_of_one_lt (t / u) (by norm_num : (1 : ℚ) < 16 / 10)
  have hle : t ≤ u * (16 / 10) ^ k := by
    rw [div_lt_iff₀ hu] at hk
    linarith
  clear hk
  induction k generalizing t with
  | zero =>
      have htu : ¬ u < t := by
        rw [pow_zero, mul_one] at hle
        exact not_lt.mpr hle
      refine ⟨1, [], fun fuel hfuel => ?_, by simp, fun h => ?_, by simp⟩
      · obtain ⟨fuel, rfl⟩ := Nat.exists_eq_add_of_le' hfuel
        exact if_neg (by simpa [exact] using htu)
      · rw [le_antisymm h (not_lt.mp htu)]
        rfl
  | succ k ih =>
      by_cases htu : u < t
      · have hdiv : t / (16 / 10) ≤ u * (16 / 10) ^ k := by
          rw [div_le_iff₀ (by norm_num)]
          calc t ≤ u * (16 / 10) ^ (k + 1) := hle
            _ = u * (16 / 10) ^ k * (16 / 10) := by ring
        obtain ⟨bound, ts, hts, hsorted, -, hbound⟩ := ih (t / (16 / 10)) hdiv
        have hsmaller : t / (16 / 10) ≤ t := by
          rw [div_le_iff₀ (by norm_num)]
          linarith
        refine ⟨bound + 1, t :: ts, fun fuel hfuel => ?_, ?_, fun _ => rfl, ?_⟩
        · obtain ⟨fuel, rfl⟩ := Nat.exists_eq_add_of_le' hfuel
          have hlt : exact.lt u t = true := decide_eq_true htu
          rw [← Nat.add_assoc, targets, if_pos hlt]
          show (targets exact u (fuel + bound) (t / (16 / 10))).map _ = _
          rw [hts (fuel + bound) (Nat.le_add_left _ _)]
          rfl
        · rw [List.cons_append, List.pairwise_cons]
          refine ⟨fun x hx => ?_, hsorted⟩
          rcases List.mem_append.mp hx with hx | hx
          · exact (hbound x hx).trans hsmaller
          · rw [List.mem_singleton.mp hx]
            exact htu.le
        · intro x hx
          rcases List.mem_cons.mp hx with rfl | hx
          · exact le_rfl
          · exact (hbound x hx).trans hsmaller
      · refine ⟨1, [], fun fuel hfuel => ?_, by simp, fun h => ?_, by simp⟩
        · obtain ⟨fuel, rfl⟩ := Nat.exists_eq_add_of_le' hfuel
          exact if_neg (by simpa [exact] using htu)
        · rw [le_antisymm h (not_lt.mp htu)]
          rfl

/-! ## Snapping -/

/-- Rows that go up in volume and down in rate, beginning with `first`. -/
structure Slope (first : Row) (rows : List Row) : Prop where
  head    : rows.head? = some first
  volumes : rows.Pairwise (fun a b => a.n < b.n)
  joints  : rows.Pairwise (fun a b => b.joint ≤ a.joint)
  pos     : ∀ r ∈ rows, 0 < r.joint

variable {first : Row} {rows : List Row}

theorem Slope.first_mem (h : Slope first rows) : first ∈ rows := List.mem_of_head? h.head

/-- The more volume, the lower the rate. -/
theorem Slope.joint_le (h : Slope first rows) {p q : Row} (hp : p ∈ rows) (hq : q ∈ rows)
    (hn : p.n ≤ q.n) : q.joint ≤ p.joint := by
  obtain ⟨i, hi, rfl⟩ := List.getElem_of_mem hp
  obtain ⟨j, hj, rfl⟩ := List.getElem_of_mem hq
  rcases lt_trichotomy i j with hlt | rfl | hgt
  · exact List.pairwise_iff_getElem.mp h.joints i j hi hj hlt
  · exact le_rfl
  · have := List.pairwise_iff_getElem.mp h.volumes j i hj hi hgt
    omega

/-- A row is known by its volume. -/
theorem Slope.eq_of_n (h : Slope first rows) {p q : Row} (hp : p ∈ rows) (hq : q ∈ rows)
    (hn : p.n = q.n) : p = q := by
  obtain ⟨i, hi, rfl⟩ := List.getElem_of_mem hp
  obtain ⟨j, hj, rfl⟩ := List.getElem_of_mem hq
  rcases lt_trichotomy i j with hlt | rfl | hgt
  · have := List.pairwise_iff_getElem.mp h.volumes i j hi hj hlt
    omega
  · rfl
  · have := List.pairwise_iff_getElem.mp h.volumes j i hj hi hgt
    omega

theorem Slope.first_n_le (h : Slope first rows) {p : Row} (hp : p ∈ rows) : first.n ≤ p.n := by
  obtain ⟨rest, rfl⟩ := List.head?_eq_some_iff.mp h.head
  rcases List.mem_cons.mp hp with rfl | hrest
  · exact le_rfl
  · exact (List.rel_of_pairwise_cons h.volumes hrest).le

/-- The last of a list that goes up in volume has the most. -/
theorem n_le_of_getLast {ps : List Row} (h : ps.Pairwise (fun a b => a.n < b.n)) {p q : Row}
    (hlast : ps.getLast? = some p) (hq : q ∈ ps) : q.n ≤ p.n := by
  obtain ⟨before, rfl⟩ := List.getLast?_eq_some_iff.mp hlast
  rcases List.mem_append.mp hq with hbefore | hself
  · exact ((List.pairwise_append.mp h).2.2 q hbefore p (List.mem_singleton_self _)).le
  · exact (congrArg Row.n (List.mem_singleton.mp hself)).le

/-- **SPEC** of a snap: the row of most volume that still reaches the target. -/
structure Snapped (rows : List Row) (tgt : ℚ) (p : Row) : Prop where
  mem     : p ∈ rows
  reaches : tgt ≤ p.joint
  most    : ∀ r ∈ rows, tgt ≤ r.joint → r.n ≤ p.n

theorem snap_spec (h : Slope first rows) {tgt : ℚ} (htgt : tgt ≤ first.joint) :
    Snapped rows tgt (snap exact Row.view first rows tgt) := by
  have hsplit : rows.takeWhile (fun pt => exact.le tgt (Row.view.joint pt))
      ++ rows.dropWhile (fun pt => exact.le tgt (Row.view.joint pt)) = rows :=
    List.takeWhile_append_dropWhile
  have hall : ∀ r ∈ rows.takeWhile (fun pt => exact.le tgt (Row.view.joint pt)),
      tgt ≤ r.joint := by
    intro r hr
    have hreach := List.mem_takeWhile_imp hr
    exact of_decide_eq_true hreach
  -- rates do not rise, so a row after the first that misses the target misses it too
  have hrest : ∀ r ∈ rows.dropWhile (fun pt => exact.le tgt (Row.view.joint pt)),
      r.joint < tgt := by
    intro r hr
    have hjoints := h.joints
    rw [← hsplit] at hjoints
    have hdropped := (List.pairwise_append.mp hjoints).2.1
    cases hdrop : rows.dropWhile (fun pt => exact.le tgt (Row.view.joint pt)) with
    | nil =>
        rw [hdrop] at hr
        cases hr
    | cons q qs =>
        have hq : q.joint < tgt := by
          have hne : rows.dropWhile (fun pt => exact.le tgt (Row.view.joint pt)) ≠ [] := by
            rw [hdrop]
            exact List.cons_ne_nil q qs
          have hnot := List.head_dropWhile_not
            (fun pt : Row => exact.le tgt (Row.view.joint pt)) hne
          simp only [hdrop, List.head_cons] at hnot
          exact not_le.mp (of_decide_eq_false hnot)
        rw [hdrop] at hr hdropped
        rcases List.mem_cons.mp hr with rfl | hr
        · exact hq
        · exact (List.rel_of_pairwise_cons hdropped hr).trans_lt hq
  have hfirst : first ∈ rows.takeWhile (fun pt => exact.le tgt (Row.view.joint pt)) := by
    have hmem := h.first_mem
    rw [← hsplit] at hmem
    rcases List.mem_append.mp hmem with hmem | hmem
    · exact hmem
    · exact absurd (hrest first hmem) (not_lt.mpr htgt)
  obtain ⟨p, hp⟩ : ∃ p, (rows.takeWhile (fun pt => exact.le tgt (Row.view.joint pt))).getLast?
      = some p := by
    rw [← Option.isSome_iff_exists, List.getLast?_isSome]
    exact List.ne_nil_of_mem hfirst
  have hsnap : snap exact Row.view first rows tgt = p := by
    unfold snap
    rw [hp]
    rfl
  have hmem := List.mem_of_getLast? hp
  rw [hsnap]
  constructor
  · exact (List.takeWhile_sublist _).subset hmem
  · exact hall p hmem
  · intro r hr hreach
    rw [← hsplit] at hr
    rcases List.mem_append.mp hr with hr | hr
    · exact n_le_of_getLast (h.volumes.sublist (List.takeWhile_sublist _)) hp hr
    · exact absurd (hrest r hr) (not_lt.mpr hreach)

/-- **SNAPPING IS MONOTONE**: a lower target snaps to no less volume. -/
theorem Snapped.mono {tgt tgt' : ℚ} {p p' : Row} (h : Snapped rows tgt p)
    (h' : Snapped rows tgt' p') (hle : tgt' ≤ tgt) : p.n ≤ p'.n :=
  h'.most p h.mem (hle.trans h.reaches)

/-! ## Rungs -/

/-- The rungs so far, and the rate of the last one. -/
structure Rungs (rows : List Row) (st : List Row × ℚ) : Prop where
  mem     : ∀ p ∈ st.1, p ∈ rows
  volumes : st.1.Pairwise (fun a b => a.n < b.n)
  gaps    : st.1.Pairwise (fun a b => 125 / 100 * b.joint ≤ a.joint)
  last    : ∀ p, st.1.getLast? = some p → st.2 = p.joint

/-- **STEP.** A target keeps the rungs, if it snaps to no less volume than they have. -/
theorem Rungs.addRung (hslope : Slope first rows) {st : List Row × ℚ} (h : Rungs rows st) {tgt : ℚ}
    {pick : Row} (hpick : snap exact Row.view first rows tgt = pick) (hmem : pick ∈ rows)
    (hbelow : ∀ p ∈ st.1, p.n ≤ pick.n) :
    Rungs rows (Ladder.addRung exact Row.view first rows st tgt)
      ∧ (∀ p ∈ (Ladder.addRung exact Row.view first rows st tgt).1, p.n ≤ pick.n)
      ∧ st.1 <+: (Ladder.addRung exact Row.view first rows st tgt).1 := by
  have hadd : Ladder.addRung exact Row.view first rows st tgt
      = if st.1.any (fun p => p.n = pick.n) then st
        else if exact.lt 0 st.2 ∧ exact.lt (st.2 / (125 / 100)) pick.joint then st
        else (st.1 ++ [pick], pick.joint) := by
    rw [← hpick]
    rfl
  rw [hadd]
  by_cases halready : st.1.any (fun p => p.n = pick.n) = true
  · rw [if_pos halready]
    exact ⟨h, hbelow, List.prefix_rfl⟩
  rw [if_neg halready]
  by_cases hclose : exact.lt 0 st.2 = true ∧ exact.lt (st.2 / (125 / 100)) pick.joint = true
  · rw [if_pos hclose]
    exact ⟨h, hbelow, List.prefix_rfl⟩
  rw [if_neg hclose]
  have hstrict : ∀ p ∈ st.1, p.n < pick.n := by
    intro p hp
    refine lt_of_le_of_ne (hbelow p hp) (fun hsame => halready ?_)
    exact List.any_eq_true.mpr ⟨p, hp, decide_eq_true hsame⟩
  have hgap : ∀ p ∈ st.1, 125 / 100 * pick.joint ≤ p.joint := by
    intro p hp
    obtain ⟨q, hq⟩ : ∃ q, st.1.getLast? = some q := by
      rw [← Option.isSome_iff_exists, List.getLast?_isSome]
      exact List.ne_nil_of_mem hp
    have hqmem := h.mem q (List.mem_of_getLast? hq)
    have hlast := h.last q hq
    have hfar : pick.joint ≤ q.joint / (125 / 100) := by
      rw [hlast] at hclose
      by_contra hnear
      exact hclose ⟨decide_eq_true (hslope.pos q hqmem), decide_eq_true (not_le.mp hnear)⟩
    have hpq := hslope.joint_le (h.mem p hp) hqmem (n_le_of_getLast h.volumes hq hp)
    rw [le_div_iff₀ (by norm_num)] at hfar
    linarith
  refine ⟨⟨fun p hp => ?_, ?_, ?_, fun p hp => ?_⟩, fun p hp => ?_, List.prefix_append _ _⟩
  · rcases List.mem_append.mp hp with hp | hp
    · exact h.mem p hp
    · rw [List.mem_singleton.mp hp]
      exact hmem
  · refine List.pairwise_append.mpr ⟨h.volumes, List.pairwise_singleton _ _, fun p hp q hq => ?_⟩
    rw [List.mem_singleton.mp hq]
    exact hstrict p hp
  · refine List.pairwise_append.mpr ⟨h.gaps, List.pairwise_singleton _ _, fun p hp q hq => ?_⟩
    rw [List.mem_singleton.mp hq]
    exact hgap p hp
  · rw [List.getLast?_concat] at hp
    cases hp
    rfl
  · rcases List.mem_append.mp hp with hp | hp
    · exact hbelow p hp
    · exact (congrArg Row.n (List.mem_singleton.mp hp)).le

/-- **RUN.** Falling targets keep the rungs. -/
theorem Rungs.foldl (hslope : Slope first rows) {tgts : List ℚ} {st : List Row × ℚ}
    (h : Rungs rows st) (hsorted : tgts.Pairwise (fun a b => b ≤ a))
    (hle : ∀ t ∈ tgts, t ≤ first.joint)
    (hbelow : ∀ p ∈ st.1, ∀ t ∈ tgts, p.n ≤ (snap exact Row.view first rows t).n) :
    Rungs rows (tgts.foldl (Ladder.addRung exact Row.view first rows) st)
      ∧ st.1 <+: (tgts.foldl (Ladder.addRung exact Row.view first rows) st).1 := by
  induction tgts generalizing st with
  | nil => exact ⟨h, List.prefix_rfl⟩
  | cons tgt tgts ih =>
      obtain ⟨hfalling, hsorted⟩ := List.pairwise_cons.mp hsorted
      have hsnap := snap_spec hslope (hle tgt List.mem_cons_self)
      obtain ⟨hstep, hbelowStep, hfront⟩ := h.addRung hslope rfl hsnap.mem
        (fun p hp => hbelow p hp tgt List.mem_cons_self)
      have hbelowRest : ∀ p ∈ (Ladder.addRung exact Row.view first rows st tgt).1, ∀ t ∈ tgts,
          p.n ≤ (snap exact Row.view first rows t).n := by
        intro p hp t ht
        have hsnap' := snap_spec hslope (hle t (List.mem_cons_of_mem _ ht))
        exact (hbelowStep p hp).trans (hsnap.mono hsnap' (hfalling t ht))
      obtain ⟨hrest, hfrontRest⟩ := ih hstep hsorted
        (fun t ht => hle t (List.mem_cons_of_mem _ ht)) hbelowRest
      exact ⟨hrest, hfront.trans hfrontRest⟩

/-! ## The useful range -/

theorem Curve.slope (c : Curve) {first : Row} {rest : List Row} (hrows : c.rows = first :: rest)
    (k : ℕ) : Slope first ((first :: rest).take (k + 1)) := by
  have hsub : ((first :: rest).take (k + 1)).Sublist c.rows := by
    rw [hrows]
    exact List.take_sublist _ _
  constructor
  · rfl
  · exact c.volumes.sublist hsub
  · have hjoints : c.rows.Pairwise (fun a b => b.joint ≤ a.joint) := by
      refine (c.fills.and c.drains).imp_of_mem (fun {a b} ha hb hab => ?_)
      rw [c.joint_eq a ha, c.joint_eq b hb]
      exact add_le_add hab.1 hab.2
    exact hjoints.sublist hsub
  · intro r hr
    have hmem := hsub.subset hr
    rw [c.joint_eq r hmem]
    exact add_pos (c.fill_pos r hmem) (c.drain_pos r hmem)

/-- Both sides are above the noise. -/
def Row.Clear (r : Row) : Prop := 10 ≤ r.fillPpm ∧ 10 ≤ r.drainPpm

theorem clear_iff (r : Row) : (exact.le exact.noise (Row.view.fillPpm r)
    && exact.le exact.noise (Row.view.drainPpm r)) = true ↔ r.Clear := by
  rw [Bool.and_eq_true]
  exact and_congr decide_eq_true_iff decide_eq_true_iff

/-- **THE USEFUL RANGE** is the rows above the noise, and the first one in any case. -/
theorem mem_usefulRows (c : Curve) {first : Row} {rest : List Row} (hrows : c.rows = first :: rest)
    {r : Row} (hr : r ∈ c.rows) :
    r ∈ usefulRows exact Row.view c.rows ↔ r = first ∨ r.Clear := by
  have hslope := c.fills.and c.drains
  generalize hp : (fun pt : Row => exact.le exact.noise (Row.view.fillPpm pt)
    && exact.le exact.noise (Row.view.drainPpm pt)) = p
  have hclear : ∀ q : Row, p q = true ↔ q.Clear := by
    intro q
    rw [← hp]
    exact clear_iff q
  have hlength : usefulLength exact Row.view c.rows = (c.rows.takeWhile p).length := by
    rw [← hp]
    rfl
  have hsplit : c.rows.takeWhile p ++ c.rows.dropWhile p = c.rows :=
    List.takeWhile_append_dropWhile
  have htake : c.rows.take (c.rows.takeWhile p).length = c.rows.takeWhile p :=
    List.prefix_iff_eq_take.mp (List.takeWhile_prefix p) |>.symm
  unfold usefulRows usefulIdx
  rw [hlength]
  by_cases hfirst : first.Clear
  · have hpos : 0 < (c.rows.takeWhile p).length := by
      rw [hrows, List.takeWhile_cons_of_pos ((hclear first).mpr hfirst)]
      exact Nat.succ_pos _
    rw [Nat.sub_add_cancel hpos, htake]
    constructor
    · intro hmem
      exact Or.inr ((hclear r).mp (List.mem_takeWhile_imp hmem))
    · intro h
      have hr' : r.Clear := by
        rcases h with rfl | h
        · exact hfirst
        · exact h
      rw [← hsplit] at hr
      rcases List.mem_append.mp hr with hr | hr
      · exact hr
      · -- a row that clears the noise has only such rows before it
        exfalso
        rw [← hsplit] at hslope
        have hdropped := (List.pairwise_append.mp hslope).2.1
        cases hdrop : c.rows.dropWhile p with
        | nil =>
            rw [hdrop] at hr
            cases hr
        | cons q qs =>
            have hne : c.rows.dropWhile p ≠ [] := by
              rw [hdrop]
              exact List.cons_ne_nil q qs
            have hnot := List.head_dropWhile_not p hne
            simp only [hdrop, List.head_cons] at hnot
            have hq : ¬ q.Clear := by
              rw [← hclear q, hnot]
              exact Bool.false_ne_true
            rw [hdrop] at hr hdropped
            rcases List.mem_cons.mp hr with rfl | hr
            · exact hq hr'
            · obtain ⟨hfill, hdrain⟩ := List.rel_of_pairwise_cons hdropped hr
              exact hq ⟨hr'.1.trans hfill, hr'.2.trans hdrain⟩
  · have hzero : (c.rows.takeWhile p).length = 0 := by
      rw [hrows, List.takeWhile_cons_of_neg (fun h => hfirst ((hclear first).mp h))]
      rfl
    rw [hzero, hrows]
    show r ∈ [first] ↔ _
    rw [List.mem_singleton]
    constructor
    · exact Or.inl
    · rintro (h | h)
      · exact h
      · -- the first row has the highest rates
        exfalso
        rw [hrows] at hr hslope
        rcases List.mem_cons.mp hr with rfl | hr
        · exact hfirst h
        · obtain ⟨hfill, hdrain⟩ := List.rel_of_pairwise_cons hslope hr
          exact hfirst ⟨h.1.trans hfill, h.2.trans hdrain⟩

/-! ## The ladder -/

/-- The cut before the first row is read. -/
def noCut : Row := ⟨0, 0, 0, 0⟩

/-- What a ladder promises. -/
structure LadderSound (c : Curve) (ladder : List Row) : Prop where
  nonempty : ladder ≠ []
  rows     : ∀ r ∈ ladder, r ∈ usefulRows exact Row.view c.rows
  volumes  : ladder.Pairwise (fun a b => a.n < b.n)
  joints   : ladder.Pairwise (fun a b => b.joint ≤ a.joint)
  /-- only the last rung may be close to the one before -/
  gaps     : ladder.dropLast.IsChain (fun a b => 125 / 100 * b.joint ≤ a.joint)
  ceiling  : ladder.head?.map Row.joint = c.rows.head?.map Row.joint
  useful   : ladder.getLast? = (usefulRows exact Row.view c.rows).getLast?
  /-- as a floor, any rung cuts the curve at a row with something to move -/
  cut      : ∀ r ∈ ladder, selectCut exact Row.view r.joint noCut c.rows ∈ c.rows
    ∧ 0 < (selectCut exact Row.view r.joint noCut c.rows).n

/-- A cut that the first row reaches is a row. -/
theorem selectCut_mem (floor : ℚ) (best : Row) (curve : List Row) :
    selectCut exact Row.view floor best curve = best
      ∨ selectCut exact Row.view floor best curve ∈ curve := by
  induction curve generalizing best with
  | nil => exact Or.inl rfl
  | cons pt curve ih =>
      unfold selectCut
      by_cases hle : exact.le floor (Row.view.joint pt) = true
      · rw [if_pos hle]
        rcases ih pt with heq | hmem
        · rw [heq]
          exact Or.inr List.mem_cons_self
        · exact Or.inr (List.mem_cons_of_mem _ hmem)
      · rw [if_neg hle]
        exact Or.inl rfl

theorem selectCut_of_first {floor : ℚ} {best first : Row} {rest : List Row}
    (h : floor ≤ first.joint) : selectCut exact Row.view floor best (first :: rest) ∈ first :: rest := by
  have hle : exact.le floor (Row.view.joint first) = true := decide_eq_true h
  rw [selectCut, if_pos hle]
  rcases selectCut_mem floor first rest with heq | hmem
  · rw [heq]
    exact List.mem_cons_self
  · exact List.mem_cons_of_mem _ hmem

/-- The ladder, once the loop over the targets is done: the useful row ends it. -/
theorem Rungs.finish (hslope : Slope first rows) {st : List Row × ℚ} (h : Rungs rows st)
    {useful : Row} (huseful : rows.getLast? = some useful) {ladder : List Row}
    (hladder : ladder = if st.1.any (fun p => p.n = useful.n) then st.1 else st.1 ++ [useful]) :
    (∀ p ∈ ladder, p ∈ rows) ∧ ladder.Pairwise (fun a b => a.n < b.n)
      ∧ ladder.dropLast.Pairwise (fun a b => 125 / 100 * b.joint ≤ a.joint)
      ∧ ladder.getLast? = some useful ∧ st.1 <+: ladder := by
  have humem := List.mem_of_getLast? huseful
  have hmost : ∀ p ∈ st.1, p.n ≤ useful.n :=
    fun p hp => n_le_of_getLast hslope.volumes huseful (h.mem p hp)
  by_cases halready : st.1.any (fun p => p.n = useful.n) = true
  · rw [if_pos halready] at hladder
    obtain ⟨p, hp, hn⟩ := List.any_eq_true.mp halready
    have hpu : p = useful := hslope.eq_of_n (h.mem p hp) humem (of_decide_eq_true hn)
    obtain ⟨q, hq⟩ : ∃ q, st.1.getLast? = some q := by
      rw [← Option.isSome_iff_exists, List.getLast?_isSome]
      exact List.ne_nil_of_mem hp
    have hqmem := List.mem_of_getLast? hq
    have hqu : q = useful := by
      refine hslope.eq_of_n (h.mem q hqmem) humem (le_antisymm (hmost q hqmem) ?_)
      rw [← hpu]
      exact n_le_of_getLast h.volumes hq hp
    rw [hladder, hq, hqu]
    exact ⟨h.mem, h.volumes, h.gaps.sublist (List.dropLast_sublist _), rfl, List.prefix_rfl⟩
  · rw [if_neg halready] at hladder
    rw [hladder]
    refine ⟨fun p hp => ?_, ?_, ?_, List.getLast?_concat, List.prefix_append _ _⟩
    · rcases List.mem_append.mp hp with hp | hp
      · exact h.mem p hp
      · rw [List.mem_singleton.mp hp]
        exact humem
    · refine List.pairwise_append.mpr ⟨h.volumes, List.pairwise_singleton _ _, fun p hp q hq => ?_⟩
      rw [List.mem_singleton.mp hq]
      refine lt_of_le_of_ne (hmost p hp) (fun hsame => halready ?_)
      exact List.any_eq_true.mpr ⟨p, hp, decide_eq_true hsame⟩
    · rw [List.dropLast_concat]
      exact h.gaps

/-- **HEADLINE**: the ladder is found, and it is one. -/
theorem derive_ladder_sound (c : Curve) : ∃ bound ladder,
    (∀ fuel, bound ≤ fuel → derive exact Row.view fuel c.rows = some ladder)
      ∧ LadderSound c ladder := by
  obtain ⟨first, rest, hrows⟩ := List.exists_cons_of_ne_nil c.nonempty
  have hslope := c.slope hrows (usefulIdx exact Row.view (first :: rest))
  generalize huse : (first :: rest).take (usefulIdx exact Row.view (first :: rest) + 1) = rows
    at hslope
  have hrange : usefulRows exact Row.view c.rows = rows := by
    rw [hrows]
    exact huse
  obtain ⟨useful, huseful⟩ : ∃ useful, rows.getLast? = some useful := by
    rw [← Option.isSome_iff_exists, List.getLast?_isSome]
    exact List.ne_nil_of_mem hslope.first_mem
  have humem := List.mem_of_getLast? huseful
  have hceiling : useful.joint ≤ first.joint :=
    hslope.joint_le hslope.first_mem humem (hslope.first_n_le humem)
  obtain ⟨bound, ts, hts, hsorted, hhead, hle⟩ := exists_targets (hslope.pos useful humem) first.joint
  -- the ladder loop, beginning with the ceiling
  obtain ⟨tgts, htgts⟩ := List.head?_eq_some_iff.mp (hhead hceiling)
  rw [htgts] at hsorted
  obtain ⟨hfalling, hsortedRest⟩ := List.pairwise_cons.mp hsorted
  have hsnap := snap_spec hslope (le_refl first.joint)
  generalize hpick : snap exact Row.view first rows first.joint = pick at hsnap
  have hfirstRung : addRung exact Row.view first rows ([], -1) first.joint = ([pick], pick.joint) := by
    rw [← hpick]
    rfl
  have hsingle : Rungs rows ([pick], pick.joint) := by
    refine ⟨fun p hp => ?_, List.pairwise_singleton _ _, List.pairwise_singleton _ _,
      fun p hp => ?_⟩
    · rw [List.mem_singleton.mp hp]
      exact hsnap.mem
    · cases hp
      rfl
  obtain ⟨hrungs, hstart⟩ := hsingle.foldl hslope hsortedRest hfalling (fun p hp t ht => by
    rw [List.mem_singleton.mp hp]
    exact hsnap.mono (snap_spec hslope (hfalling t ht)) (hfalling t ht))
  generalize hst : tgts.foldl (addRung exact Row.view first rows) ([pick], pick.joint) = st
    at hrungs hstart
  obtain ⟨hmem, hvolumes, hgaps, hlast, hfront⟩ := hrungs.finish hslope huseful rfl
  generalize hladder : (if st.1.any (fun p => p.n = useful.n) then st.1 else st.1 ++ [useful])
    = ladder at hmem hvolumes hgaps hlast hfront
  have hhead' : ladder.head? = some pick := by
    obtain ⟨more, hmore⟩ := hstart.trans hfront
    rw [← hmore]
    rfl
  have hderive : ∀ fuel, bound ≤ fuel → derive exact Row.view fuel c.rows = some ladder := by
    intro fuel hfuel
    have huseRows : usefulRows exact Row.view (first :: rest) = rows := huse
    have hsome : (some useful).getD first = useful := rfl
    rw [hrows, derive]
    simp only [huseRows, huseful, hsome]
    have hview : Row.view.joint useful = useful.joint := rfl
    have hviewFirst : Row.view.joint first = first.joint := rfl
    rw [hview, hviewFirst, hts fuel hfuel, Option.map_some, htgts, List.foldl_cons]
    have hminus : exact.minusOne = -1 := rfl
    rw [hminus, hfirstRung, hst]
    exact congrArg some hladder
  have hjoints : ladder.Pairwise (fun a b => b.joint ≤ a.joint) :=
    hvolumes.imp_of_mem (fun {a b} ha hb hab => hslope.joint_le (hmem a ha) (hmem b hb) hab.le)
  refine ⟨bound, ladder, hderive, ?_⟩
  constructor
  · rintro hnil
    rw [hnil] at hhead'
    cases hhead'
  · rw [hrange]
    exact hmem
  · exact hvolumes
  · exact hjoints
  · exact hgaps.isChain
  · rw [hhead', hrows]
    have hpickLe := hslope.joint_le hslope.first_mem hsnap.mem (hslope.first_n_le hsnap.mem)
    exact congrArg some (le_antisymm hpickLe hsnap.reaches)
  · rw [hlast, hrange, huseful]
  · intro r hr
    have hreach := hslope.joint_le hslope.first_mem (hmem r hr) (hslope.first_n_le (hmem r hr))
    have hcut : selectCut exact Row.view r.joint noCut c.rows ∈ c.rows := by
      rw [hrows]
      exact selectCut_of_first hreach
    exact ⟨hcut, c.volume_pos _ hcut⟩

/-- The second row is close to the first, the last one is in the noise. -/
def sampleCurve : Curve where
  rows       :=
    [ ⟨100, 800, 200, 1000⟩
    , ⟨250, 700, 200, 900⟩
    , ⟨400, 300, 100, 400⟩
    , ⟨900, 20, 15, 35⟩
    , ⟨950, 9, 15, 24⟩ ]
  nonempty   := List.cons_ne_nil _ _
  volume_pos := by decide
  volumes    := by decide
  fill_pos   := by decide +kernel
  fills      := by decide +kernel
  drain_pos  := by decide +kernel
  drains     := by decide +kernel
  joint_eq   := by decide +kernel

example : (derive exact Row.view 20 sampleCurve.rows).map (List.map Row.n) = some [100, 400, 900] := by
  decide +kernel

end Ladder
