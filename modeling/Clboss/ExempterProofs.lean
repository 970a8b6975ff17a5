import Clboss.OrderedMapProofs
import Clboss.PeerMetricianProofs
import Clboss.RankProofs

/-! # `Boss::Mod::PeerComplaintsDesk::Exempter` — who is not complained about

    Young channels, the top earners of incoming and of outgoing fees, and what the operator
    took out of management.  The top earners are found in a list sorted by score: everyone
    who scores at least what the entry at an INDEX does.  The index is the number of nodes
    to be exempted, and indices start at zero, so that entry is the first one too many.

    It does no harm where that entry shares its score with the one before it, or where it is
    the first zero, which has a branch of its own (`exempts_top_iff`). -/

namespace PeerComplaintsDesk.Exempter

open PeerMetrician Rank

/-! ## The source -/

/-- `min_age`. -/
def minAge : Double := .finite (2 * 24 * 60 * 60)

/-- `high_earner_percentile`. -/
def highEarnerPercentile : Double := .finite 40

/-- The fees that make an earner. -/
inductive Side where
  | incoming
  | outgoing
deriving DecidableEq

/-- `scorer`. -/
def Side.scorer : Side → PeerMetrics → Double
  | .incoming => PeerMetrics.inFeeMsatPerDay
  | .outgoing => PeerMetrics.outFeeMsatPerDay

/-- Why a node is exempted. -/
inductive Reason where
  | young
  | earner (side : Side)
  | unmanaged
deriving DecidableEq

variable {N : Type} [LinearOrder N]

/-- `rv`, with the reasons instead of the text that is made of them. -/
abbrev Exemptions (N : Type) [LinearOrder N] : Type := OrderedMap N (List Reason)

/-- `add_exempt`. -/
def addExempt (rv : Exemptions N) (nid : N) (reason : Reason) : Exemptions N :=
  match rv.find nid with
  | none    => rv.assign nid [reason]
  | some rs => rv.assign nid (rs ++ [reason])

/-- `std::sort` by falling scores.  A `nan` leaves no weak order, and the list in any. -/
structure Sorting (N : Type) where
  sort   : List (N × Double) → List (N × Double)
  perm   : ∀ l, (sort l).Perm l
  sorted : ∀ l, (∀ e ∈ l, e.2 ≠ .nan) → (sort l).Pairwise (fun a b => a.2.lt b.2 = false)

/-- Sorting is possible. -/
def Sorting.insertion (N : Type) : Sorting N where
  sort l   := l.insertionSort (fun a b => b.2.key ≤ a.2.key)
  perm l   := List.perm_insertionSort _ l
  sorted l hnum := by
    have htotal : Std.Total (fun a b : N × Double => b.2.key ≤ a.2.key) :=
      ⟨fun a b => le_total b.2.key a.2.key⟩
    have htrans : IsTrans (N × Double) (fun a b => b.2.key ≤ a.2.key) :=
      ⟨fun a b c hab hbc => hbc.trans hab⟩
    have hmem : ∀ e ∈ l.insertionSort (fun a b => b.2.key ≤ a.2.key), e.2 ≠ .nan := fun e he =>
      hnum e ((List.mem_insertionSort _).mp he)
    refine List.Pairwise.imp_of_mem (fun {a b} ha hb hab => ?_) (List.pairwise_insertionSort _ l)
    rw [← Bool.not_eq_true, Double.lt_iff_key (hmem a ha) (hmem b hb), not_lt]
    exact hab

/-- `ind`, of so many peers. -/
def percentileIndex (size : ℕ) : ℕ :=
  let ind := ((highEarnerPercentile.mul (Double.ofInt size)).div (.finite 100)).ceil.toSize
  if ind = size then size - 1 else ind

/-- What a score needs, once the minimum is found. -/
def passes (minScore score : Double) : Bool :=
  if minScore = .finite 0 then !score.le (.finite 0) else !score.lt minScore

/-- `exempt_top_earner`; `none` where the index is not one of the list. -/
def exemptTopEarner (sorting : Sorting N) (metrics : OrderedMap N PeerMetrics) (side : Side)
    (rv : Exemptions N) : Option (Exemptions N) :=
  if metrics.size = 0 then some rv
  else
    let peers := sorting.sort (metrics.entries.map (fun m => (m.1, side.scorer m.2)))
    match peers[percentileIndex peers.length]? with
    | none   => none
    | some p => some ((peers.filter (fun q => passes p.2 q.2)).foldl
        (fun rv q => addExempt rv q.1 (.earner side)) rv)

/-- `has_nonzero_in` and `has_nonzero_out`. -/
def hasNonzero (metrics : OrderedMap N PeerMetrics) (side : Side) : Bool :=
  metrics.entries.any (fun m => (Double.finite 0).lt (side.scorer m.2))

/-- The call of `exempt_top_earner`, if any. -/
def exemptSide (sorting : Sorting N) (metrics : OrderedMap N PeerMetrics) (side : Side)
    (rv : Exemptions N) : Option (Exemptions N) :=
  if hasNonzero metrics side then exemptTopEarner sorting metrics side rv else some rv

/-- The loop that gathers data. -/
def exemptYoung (metrics : OrderedMap N PeerMetrics) (rv : Exemptions N) : Exemptions N :=
  metrics.entries.foldl
    (fun rv m => if m.2.age.lt minAge then addExempt rv m.1 .young else rv) rv

/-- `get_exemptions`, from the metrics of three days and `get_unmanaged`. -/
def getExemptions (sorting : Sorting N) (metrics : OrderedMap N PeerMetrics)
    (unmanaged : List N) : Option (Exemptions N) := do
  let rv := exemptYoung metrics .empty
  let rv ← exemptSide sorting metrics .incoming rv
  let rv ← exemptSide sorting metrics .outgoing rv
  return unmanaged.foldl (fun rv n => addExempt rv n .unmanaged) rv

/-- The reason is among those of the node. -/
def exempted (rv : Exemptions N) (n : N) (r : Reason) : Bool :=
  r ∈ (rv.find n).getD []

/-! ## Purpose -/

/-- 40 percent of so many nodes, rounded up. -/
def share (size : ℕ) : ℕ := (40 * size + 99) / 100

/-- How many nodes score strictly higher. -/
def higher (metrics : OrderedMap N PeerMetrics) (side : Side) (score : Double) : ℕ :=
  metrics.entries.countP (fun m => score.lt (side.scorer m.2))

/-- In the top 40 percent, with a positive score. -/
def Top (metrics : OrderedMap N PeerMetrics) (side : Side) (n : N) : Prop :=
  ∃ m, metrics.find n = some m ∧ (Double.finite 0).lt (side.scorer m) = true ∧
    higher metrics side (side.scorer m) < share metrics.size

/-- Who is exempted for earnings is in the top 40 percent, and whoever is in it is. -/
structure ExemptsTop (metrics : OrderedMap N PeerMetrics) (side : Side) (rv : Exemptions N) :
    Prop where
  exact : ∀ n, exempted rv n (.earner side) = true ↔ Top metrics side n
  count : (∀ m ∈ metrics.entries, (Double.finite 0).lt (side.scorer m.2) = true) →
    (metrics.entries.map (fun m => side.scorer m.2)).Nodup →
    metrics.entries.countP (fun m => exempted rv m.1 (.earner side)) = share metrics.size

/-- No score is positive; or all of them are numbers, the share does not end between two
    positive scores, and it ends before the negative ones. -/
def Fair (metrics : OrderedMap N PeerMetrics) (side : Side) : Prop :=
  (∀ m ∈ metrics.entries, (Double.finite 0).lt (side.scorer m.2) = false) ∨
  ((∀ m ∈ metrics.entries, side.scorer m.2 ≠ .nan) ∧
    (∀ m ∈ metrics.entries, (Double.finite 0).lt (side.scorer m.2) = true →
      higher metrics side (side.scorer m.2) ≠ share metrics.size) ∧
    (metrics.size = 1 ∨
      share metrics.size
        < metrics.entries.countP (fun m => (Double.finite 0).le (side.scorer m.2))))

instance (metrics : OrderedMap N PeerMetrics) (side : Side) : Decidable (Fair metrics side) :=
  inferInstanceAs (Decidable (_ ∨ _ ∧ _ ∧ _))

/-! ## The index -/

/-- 40 percent in doubles. -/
theorem percentile_eq {n : ℕ} (h0 : n ≠ 0) (h : n < 2 ^ 64) :
    ((highEarnerPercentile.mul (Double.ofInt n)).div (.finite 100)).ceil.toSize
      = ⌈Double.round (Double.round (40 * Double.round n) / 100)⌉.toNat ∧
    Double.round (Double.round (40 * Double.round n) / 100) ≤ n := by
  have hn : (1 : ℚ) ≤ n := by exact_mod_cast Nat.one_le_iff_ne_zero.mpr h0
  have hn64 : (n : ℚ) < 2 ^ 64 := by exact_mod_cast h
  have hu : ((1 : ℚ) + 2 ^ (-53 : ℤ)) ≤ 1.01 := by norm_num
  have hsmall : (2 : ℚ) ^ (-1022 : ℤ) ≤ 1 / 5 := by
    refine le_trans (zpow_le_zpow_right₀ (by norm_num) (by norm_num : (-1022 : ℤ) ≤ -3)) ?_
    norm_num
  have hp1 : (1 : ℚ) ≤ Double.round n := by
    have := Double.round_mono (by norm_num) hn
    have hone := Double.round_natCast (n := 1) (by norm_num)
    rw [Nat.cast_one] at hone
    rwa [hone] at this
  have hp : Double.round n ≤ n * 1.01 :=
    (Double.round_le (hsmall.trans (by linarith))).trans
      (mul_le_mul_of_nonneg_left hu (by linarith))
  have hquot := Double.round_round_mul_div_le (a := 40) (b := Double.round n) (c := 100)
    (m := Double.round n * (2 / 5)) (by linarith) (by norm_num) (by linarith)
    (hsmall.trans (by linarith))
  have hsq : ((1 : ℚ) + 2 ^ (-53 : ℤ)) ^ 2 ≤ 1.01 := by norm_num
  have hle : Double.round (Double.round (40 * Double.round n) / 100) ≤ n := by
    have hmul : Double.round n * (2 / 5) * (1 + 2 ^ (-53 : ℤ)) ^ 2
        ≤ Double.round n * (2 / 5) * 1.01 := mul_le_mul_of_nonneg_left hsq (by linarith)
    linarith
  have hprod0 : 0 ≤ Double.round (40 * Double.round n) := Double.round_nonneg (by linarith)
  have hprod : Double.round (40 * Double.round n) < 2 ^ 128 := by
    have hlt : (40 : ℚ) * Double.round n < 2 ^ 70 := by
      have : (2 : ℚ) ^ 70 = 2 ^ 64 * 64 := by norm_num
      linarith
    exact lt_of_le_of_lt (Double.round_le_two_pow (by linarith) hlt) (by norm_num)
  refine ⟨?_, hle⟩
  rw [Double.ofInt_of_lt h]
  have hmul : highEarnerPercentile.mul (.finite (Double.round n))
      = .finite (Double.round (40 * Double.round n)) := by
    show Double.ofRat (40 * Double.round n) = _
    refine Double.ofRat_eq (by linarith) ?_
    have : (2 : ℚ) ^ 128 = 2 ^ 64 * 2 ^ 64 := by norm_num
    linarith
  have hdiv : (Double.finite (Double.round (40 * Double.round n))).div (.finite 100)
      = .finite (Double.round (Double.round (40 * Double.round n) / 100)) := by
    unfold Double.div
    simp only
    rw [if_neg (by norm_num)]
    exact Double.ofRat_eq (by positivity) (by linarith)
  rw [hmul, hdiv]
  have hceil : (⌈Double.round (Double.round (40 * Double.round n) / 100)⌉ : ℚ) < 2 ^ 64 := by
    have : ⌈Double.round (Double.round (40 * Double.round n) / 100)⌉ ≤ (n : ℤ) :=
      Int.ceil_le.mpr (by exact_mod_cast hle)
    have hcast : (⌈Double.round (Double.round (40 * Double.round n) / 100)⌉ : ℚ) ≤ n := by
      exact_mod_cast this
    linarith
  show Double.toSize (.finite _) = _
  rw [Double.toSize_eq hceil, Int.floor_intCast]

/-- **INSIDE**: the index is one of the list. -/
theorem percentileIndex_lt {n : ℕ} (h0 : n ≠ 0) : percentileIndex n < n := by
  unfold percentileIndex
  dsimp only
  split
  · exact Nat.sub_lt (Nat.pos_of_ne_zero h0) Nat.one_pos
  · rename_i hne
    refine lt_of_le_of_ne ?_ hne
    by_cases h : n < 2 ^ 64
    · obtain ⟨heq, hle⟩ := percentile_eq h0 h
      rw [heq, Int.toNat_le]
      exact Int.ceil_le.mpr (by exact_mod_cast hle)
    · -- an index is a 64-bit number
      refine le_trans ?_ (not_lt.mp h)
      unfold Double.toSize
      split
      · exact (Nat.mod_lt _ (by norm_num)).le
      · exact Nat.zero_le _

/-- The doubles round up as they should. -/
theorem percentileIndex_eq {n : ℕ} (h0 : n ≠ 0) (h : n < 2 ^ 50) :
    percentileIndex n = min (share n) (n - 1) := by
  obtain ⟨heq, -⟩ := percentile_eq h0 (lt_trans h (by norm_num))
  -- the product is exact: eight times five times the number
  have hn : Double.round n = n := Double.round_natCast (lt_trans h (by norm_num))
  have hfive : Double.round ((5 * n : ℕ) : ℚ) = (5 * n : ℕ) :=
    Double.round_natCast (by omega)
  have hge : (1 : ℚ) ≤ ((5 * n : ℕ) : ℚ) := by
    have : 1 ≤ 5 * n := by omega
    exact_mod_cast this
  have hprod : Double.round (40 * n) = 40 * n := by
    have hsplit : (40 : ℚ) * n = 2 * (2 * (2 * ((5 * n : ℕ) : ℚ))) := by
      push_cast
      ring
    rw [hsplit, Double.round_two_mul (by linarith), Double.round_two_mul (by linarith),
      Double.round_two_mul hge, hfive]
  rw [hn, hprod] at heq
  -- the quotient errs by less than the fifth that it is off an integer
  have hround : ⌈Double.round ((40 : ℚ) * n / 100)⌉ = (share n : ℤ) := by
    obtain ⟨a, b, hb, hab⟩ : ∃ a b : ℕ, b < 5 ∧ 2 * n = 5 * a + b :=
      ⟨2 * n / 5, 2 * n % 5, Nat.mod_lt _ (by norm_num), (Nat.div_add_mod _ _).symm⟩
    have hq : (40 : ℚ) * n / 100 = a + b / 5 := by
      have : (2 : ℚ) * n = 5 * a + b := by exact_mod_cast hab
      linarith
    have ha : a < 2 ^ 49 := by omega
    have hshare : share n = if b = 0 then a else a + 1 := by
      unfold share
      split
      · omega
      · omega
    rw [hq, hshare]
    split
    · rename_i hb0
      rw [hb0, Nat.cast_zero, zero_div, add_zero, Double.round_natCast (lt_trans ha (by norm_num)),
        Int.ceil_natCast]
    · rename_i hb0
      have hb1 : (1 : ℚ) ≤ b := by exact_mod_cast Nat.one_le_iff_ne_zero.mpr hb0
      have hb4 : (b : ℚ) ≤ 4 := by exact_mod_cast Nat.le_of_lt_succ hb
      have ha49 : (a : ℚ) + 1 ≤ 2 ^ 49 := by exact_mod_cast ha
      have ha0 : (0 : ℚ) ≤ a := Nat.cast_nonneg a
      have habs : |(a : ℚ) + b / 5| < 2 ^ (49 : ℤ) := by
        rw [abs_of_nonneg (by linarith)]
        have : (2 : ℚ) ^ (49 : ℤ) = 2 ^ 49 := by norm_num
        linarith
      have herr := abs_le.mp (Double.abs_round_sub_le_of_lt (by norm_num) habs)
      have hunit : (2 : ℚ) ^ ((49 : ℤ) - 53) / 2 < 1 / 5 := by norm_num
      rw [Int.ceil_eq_iff]
      push_cast
      constructor
      · linarith [herr.1]
      · linarith [herr.2]
  rw [hround, Int.toNat_natCast] at heq
  unfold percentileIndex
  dsimp only
  rw [heq]
  split
  · omega
  · have : share n ≤ n := by
      unfold share
      omega
    omega

/-! ## What is added to the map -/

theorem exempted_empty (n : N) (r : Reason) : exempted .empty n r = false := rfl

theorem exempted_addExempt (rv : Exemptions N) (nid n : N) (r r' : Reason) :
    exempted (addExempt rv nid r) n r' = true ↔ exempted rv n r' = true ∨ r' = r ∧ n = nid := by
  unfold exempted addExempt
  rw [decide_eq_true_eq, decide_eq_true_eq]
  by_cases hn : n = nid
  · subst hn
    cases hfind : rv.find n with
    | none => simp [OrderedMap.find_assign]
    | some rs => simp [OrderedMap.find_assign]
  · cases hfind : rv.find nid with
    | none => simp [OrderedMap.find_assign, hn]
    | some rs => simp [OrderedMap.find_assign, hn]

/-- **RUN**: a loop exempts the nodes it comes by, and for its own reason. -/
theorem exempted_foldl {α : Type} (f : α → N) (r r' : Reason) (l : List α) (rv : Exemptions N)
    (n : N) : exempted (l.foldl (fun rv a => addExempt rv (f a) r) rv) n r' = true ↔
      exempted rv n r' = true ∨ r' = r ∧ n ∈ l.map f := by
  induction l generalizing rv with
  | nil => simp
  | cons a l ih =>
      rw [List.foldl_cons, ih, exempted_addExempt, List.map_cons, List.mem_cons]
      tauto

theorem exempted_exemptYoung (metrics : OrderedMap N PeerMetrics) (rv : Exemptions N) (n : N)
    (r : Reason) : exempted (exemptYoung metrics rv) n r = true ↔
      exempted rv n r = true ∨
        r = .young ∧ ∃ m, metrics.find n = some m ∧ m.age.lt minAge = true := by
  unfold exemptYoung
  rw [← List.foldl_filter, exempted_foldl]
  refine or_congr_right (and_congr_right fun _ => ?_)
  rw [List.mem_map]
  constructor
  · rintro ⟨⟨n', m⟩, hm, rfl⟩
    obtain ⟨hmem, hage⟩ := List.mem_filter.mp hm
    exact ⟨m, metrics.find_eq_some_iff.mpr hmem, hage⟩
  · rintro ⟨m, hfind, hage⟩
    exact ⟨(n, m), List.mem_filter.mpr ⟨metrics.find_eq_some_iff.mp hfind, hage⟩, rfl⟩

/-- The peers with their scores. -/
def scores (metrics : OrderedMap N PeerMetrics) (side : Side) : List (N × Double) :=
  metrics.entries.map (fun m => (m.1, side.scorer m.2))

/-- The node gets the reason of the top earners. -/
def Chosen (sorting : Sorting N) (metrics : OrderedMap N PeerMetrics) (side : Side) (n : N) :
    Prop :=
  hasNonzero metrics side = true ∧ ∃ m p, metrics.find n = some m ∧
    (sorting.sort (scores metrics side))[percentileIndex metrics.size]? = some p ∧
    passes p.2 (side.scorer m) = true

theorem length_sort (sorting : Sorting N) (metrics : OrderedMap N PeerMetrics) (side : Side) :
    (sorting.sort (scores metrics side)).length = metrics.size := by
  rw [(sorting.perm _).length_eq]
  exact List.length_map _

theorem mem_sort {sorting : Sorting N} {metrics : OrderedMap N PeerMetrics} {side : Side}
    {q : N × Double} : q ∈ sorting.sort (scores metrics side) ↔
      ∃ m, metrics.find q.1 = some m ∧ q.2 = side.scorer m := by
  rw [(sorting.perm _).mem_iff]
  unfold scores
  rw [List.mem_map]
  constructor
  · rintro ⟨⟨n, m⟩, hm, rfl⟩
    exact ⟨m, metrics.find_eq_some_iff.mpr hm, rfl⟩
  · rintro ⟨m, hfind, hq⟩
    exact ⟨(q.1, m), metrics.find_eq_some_iff.mp hfind, Prod.ext rfl hq.symm⟩

theorem exemptTopEarner_of_get {sorting : Sorting N} {metrics : OrderedMap N PeerMetrics}
    {side : Side} {p : N × Double} (hsize : metrics.size ≠ 0)
    (hp : (sorting.sort (scores metrics side))[percentileIndex metrics.size]? = some p)
    (rv : Exemptions N) : exemptTopEarner sorting metrics side rv
      = some (((sorting.sort (scores metrics side)).filter (fun q => passes p.2 q.2)).foldl
        (fun rv q => addExempt rv q.1 (.earner side)) rv) := by
  have hlen := length_sort sorting metrics side
  unfold scores at hlen hp ⊢
  unfold exemptTopEarner
  rw [if_neg hsize]
  simp only [hlen, hp]

/-- Who passes, by the metrics. -/
theorem mem_passing {sorting : Sorting N} {metrics : OrderedMap N PeerMetrics} {side : Side}
    {p : N × Double} {n : N} :
    n ∈ ((sorting.sort (scores metrics side)).filter (fun q => passes p.2 q.2)).map Prod.fst
      ↔ ∃ m, metrics.find n = some m ∧ passes p.2 (side.scorer m) = true := by
  rw [List.mem_map]
  constructor
  · rintro ⟨q, hq, rfl⟩
    obtain ⟨hmem, hpasses⟩ := List.mem_filter.mp hq
    obtain ⟨m, hfind, hscore⟩ := mem_sort.mp hmem
    exact ⟨m, hfind, hscore ▸ hpasses⟩
  · rintro ⟨m, hfind, hpasses⟩
    exact ⟨(n, side.scorer m), List.mem_filter.mpr ⟨mem_sort.mpr ⟨m, hfind, rfl⟩, hpasses⟩, rfl⟩

/-- **SPEC** of a side: the threshold is found, and who passes it is exempted. -/
theorem exemptSide_spec (sorting : Sorting N) (metrics : OrderedMap N PeerMetrics) (side : Side)
    (rv : Exemptions N) : ∃ rv', exemptSide sorting metrics side rv = some rv' ∧
      ∀ n r, exempted rv' n r = true ↔
        exempted rv n r = true ∨ r = .earner side ∧ Chosen sorting metrics side n := by
  unfold exemptSide
  by_cases hpos : hasNonzero metrics side = true
  · rw [if_pos hpos]
    have hsize : metrics.size ≠ 0 := by
      obtain ⟨m, hm, -⟩ := List.any_eq_true.mp hpos
      exact (List.length_pos_of_mem hm).ne'
    have hind : percentileIndex metrics.size < (sorting.sort (scores metrics side)).length := by
      rw [length_sort]
      exact percentileIndex_lt hsize
    have hget := List.getElem?_eq_getElem hind
    refine ⟨_, exemptTopEarner_of_get hsize hget rv, fun n r => ?_⟩
    rw [exempted_foldl Prod.fst, mem_passing]
    refine or_congr_right (and_congr_right fun _ => ?_)
    constructor
    · rintro ⟨m, hfind, hpasses⟩
      exact ⟨hpos, m, _, hfind, hget, hpasses⟩
    · rintro ⟨-, m, p, hfind, hp, hpasses⟩
      cases Option.some.inj (hget.symm.trans hp)
      exact ⟨m, hfind, hpasses⟩
  · rw [if_neg hpos]
    refine ⟨rv, rfl, fun n r => ?_⟩
    constructor
    · exact Or.inl
    · rintro (h | ⟨-, h⟩)
      · exact h
      · exact absurd h.1 hpos

/-- What speaks for a node. -/
def Applies (sorting : Sorting N) (metrics : OrderedMap N PeerMetrics) (unmanaged : List N)
    (n : N) : Reason → Prop
  | .young       => ∃ m, metrics.find n = some m ∧ m.age.lt minAge = true
  | .earner side => Chosen sorting metrics side n
  | .unmanaged   => n ∈ unmanaged

/-- **SPEC**: the exemptions are there, and every one for the reasons that apply. -/
theorem getExemptions_spec (sorting : Sorting N) (metrics : OrderedMap N PeerMetrics)
    (unmanaged : List N) : ∃ rv, getExemptions sorting metrics unmanaged = some rv ∧
      ∀ n r, exempted rv n r = true ↔ Applies sorting metrics unmanaged n r := by
  obtain ⟨rv₁, h₁, hrv₁⟩ :=
    exemptSide_spec sorting metrics .incoming (exemptYoung metrics .empty)
  obtain ⟨rv₂, h₂, hrv₂⟩ := exemptSide_spec sorting metrics .outgoing rv₁
  refine ⟨unmanaged.foldl (fun rv n => addExempt rv n .unmanaged) rv₂, ?_, fun n r => ?_⟩
  · unfold getExemptions
    simp only [h₁, h₂, Option.bind_eq_bind, Option.bind_some]
    rfl
  · rw [exempted_foldl (fun n => n), hrv₂, hrv₁, exempted_exemptYoung, exempted_empty, List.map_id']
    cases r with
    | young => simp [Applies]
    | unmanaged => simp [Applies]
    | earner side => cases side <;> simp [Applies]

/-! ## The threshold -/

section Threshold

variable {sorting : Sorting N} {metrics : OrderedMap N PeerMetrics} {side : Side}

theorem mem_of_find {n : N} {m : PeerMetrics} (h : metrics.find n = some m) :
    (n, m) ∈ metrics.entries := metrics.find_eq_some_iff.mp h

/-- A `nan` passes whatever the minimum is. -/
theorem passes_nan (minScore : Double) : passes minScore .nan = true := by
  unfold passes
  split
  · rfl
  · rfl

/-- Counting keys in the sorted list is counting nodes. -/
theorem countP_keys (P : WithBot (WithTop ℚ) → Bool) :
    ((sorting.sort (scores metrics side)).map (fun q => q.2.key)).countP P
      = metrics.entries.countP (fun m => P (side.scorer m.2).key) := by
  rw [List.countP_map, (sorting.perm _).countP_eq]
  unfold scores
  rw [List.countP_map]
  rfl

variable (hnum : ∀ m ∈ metrics.entries, side.scorer m.2 ≠ .nan)

include hnum

theorem ne_nan_of_mem_sort {q : N × Double} (h : q ∈ sorting.sort (scores metrics side)) :
    q.2 ≠ .nan := by
  obtain ⟨m, hfind, hq⟩ := mem_sort.mp h
  rw [hq]
  exact hnum _ (mem_of_find hfind)

theorem falling_keys :
    Falling ((sorting.sort (scores metrics side)).map (fun q => q.2.key)) := by
  have hall : ∀ e ∈ scores metrics side, e.2 ≠ .nan := fun e he =>
    ne_nan_of_mem_sort hnum ((sorting.perm _).mem_iff.mpr he)
  refine List.pairwise_map.mpr (List.Pairwise.imp_of_mem ?_ (sorting.sorted _ hall))
  intro a b ha hb hab
  have hne := (Double.lt_iff_key (ne_nan_of_mem_sort hnum ha) (ne_nan_of_mem_sort hnum hb)).not
  exact not_lt.mp (hne.mp (by rw [hab]; exact Bool.false_ne_true))

theorem above_keys {x : Double} (hx : x ≠ .nan) :
    above ((sorting.sort (scores metrics side)).map (fun q => q.2.key)) x.key
      = higher metrics side x := by
  unfold above
  rw [countP_keys]
  refine List.countP_congr fun m hm => ?_
  rw [decide_eq_true_eq, Double.lt_iff_key hx (hnum m hm)]

/-- **THRESHOLD**: a score reaches that of the entry at an index if no more than that many
    nodes score higher. -/
theorem key_le_iff {i : ℕ} {p : N × Double}
    (hp : (sorting.sort (scores metrics side))[i]? = some p) {x : Double} (hx : x ≠ .nan) :
    p.2.key ≤ x.key ↔ higher metrics side x ≤ i := by
  have hget : ((sorting.sort (scores metrics side)).map (fun q => q.2.key))[i]? = some p.2.key := by
    rw [List.getElem?_map, hp]
    rfl
  rw [getElem_le_iff (falling_keys hnum) hget, above_keys hnum hx]

/-- It is not negative if more nodes than that are not. -/
theorem zero_le_key_iff {i : ℕ} {p : N × Double}
    (hp : (sorting.sort (scores metrics side))[i]? = some p) :
    (Double.finite 0).key ≤ p.2.key ↔
      i < metrics.entries.countP (fun m => (Double.finite 0).le (side.scorer m.2)) := by
  have hget : ((sorting.sort (scores metrics side)).map (fun q => q.2.key))[i]? = some p.2.key := by
    rw [List.getElem?_map, hp]
    rfl
  rw [le_getElem_iff (falling_keys hnum) hget, countP_keys]
  have hcount : metrics.entries.countP (fun m => decide ((Double.finite 0).key ≤ (side.scorer m.2).key))
      = metrics.entries.countP (fun m => (Double.finite 0).le (side.scorer m.2)) := by
    refine List.countP_congr fun m hm => ?_
    have hzero : Double.finite 0 ≠ .nan := nofun
    rw [decide_eq_true_eq, Double.le_iff_key hzero (hnum m hm)]
  rw [hcount]

end Threshold

/-! ## The top earners -/

/-- What a score needs, in order. -/
theorem passes_iff {y x : Double} (hy : y ≠ .nan) (hx : x ≠ .nan) : passes y x = true ↔
    y = .finite 0 ∧ (Double.finite 0).lt x = true ∨ y ≠ .finite 0 ∧ y.key ≤ x.key := by
  have hzero : Double.finite 0 ≠ .nan := nofun
  unfold passes
  by_cases h0 : y = .finite 0
  · rw [if_pos h0, Bool.not_eq_true', ← Bool.not_eq_true, Double.le_iff_key hx hzero, not_le,
      Double.lt_iff_key hzero hx]
    simp [h0]
  · rw [if_neg h0, Bool.not_eq_true', ← Bool.not_eq_true, Double.lt_iff_key hx hy, not_lt]
    simp [h0]

section Top

variable {sorting : Sorting N} {metrics : OrderedMap N PeerMetrics} {side : Side}

/-- Nobody scores higher than nobody else. -/
theorem higher_lt {n : N} {m : PeerMetrics} (h : metrics.find n = some m)
    (hm : side.scorer m ≠ .nan) : higher metrics side (side.scorer m) < metrics.size := by
  refine lt_of_le_of_ne List.countP_le_length fun heq => ?_
  have hall := List.countP_eq_length.mp heq (n, m) (mem_of_find h)
  exact lt_irrefl _ ((Double.lt_iff_key hm hm).mp hall)

theorem exists_positive (h : hasNonzero metrics side = true) :
    ∃ n m, metrics.find n = some m ∧ (Double.finite 0).lt (side.scorer m) = true := by
  obtain ⟨⟨n, m⟩, hm, hpos⟩ := List.any_eq_true.mp h
  exact ⟨n, m, metrics.find_eq_some_iff.mpr hm, hpos⟩

theorem hasNonzero_of_find {n : N} {m : PeerMetrics} (h : metrics.find n = some m)
    (hm : (Double.finite 0).lt (side.scorer m) = true) : hasNonzero metrics side = true :=
  List.any_eq_true.mpr ⟨(n, m), mem_of_find h, hm⟩

theorem share_pos {n : ℕ} (h : n ≠ 0) : 0 < share n := by
  unfold share
  omega

theorem share_lt {n : ℕ} (h : 2 ≤ n) : share n < n := by
  unfold share
  omega

/-- The entry that sets the minimum. -/
theorem exists_threshold (sorting : Sorting N) (h : metrics.size ≠ 0) (side : Side) :
    ∃ p, (sorting.sort (scores metrics side))[percentileIndex metrics.size]? = some p :=
  ⟨_, List.getElem?_eq_getElem (by
    rw [length_sort]
    exact percentileIndex_lt h)⟩

/-- **FAIR IS ENOUGH**. -/
theorem chosen_iff_of_fair (hsize : metrics.size < 2 ^ 50) (hfair : Fair metrics side) (n : N) :
    Chosen sorting metrics side n ↔ Top metrics side n := by
  rcases hfair with hnone | ⟨hnum, hgap, hnonneg⟩
  · constructor
    · rintro ⟨hpos, -⟩
      obtain ⟨n', m, hfind, hm⟩ := exists_positive hpos
      exact absurd (hnone _ (mem_of_find hfind)) (by rw [hm]; exact Bool.noConfusion)
    · rintro ⟨m, hfind, hm, -⟩
      exact absurd (hnone _ (mem_of_find hfind)) (by rw [hm]; exact Bool.noConfusion)
  -- a node there is, its score a number and positive
  have hone : ∀ m, metrics.find n = some m → metrics.size ≠ 0 := fun m hfind =>
    (List.length_pos_of_mem (mem_of_find hfind)).ne'
  have hmain : ∀ m p, metrics.find n = some m →
      (sorting.sort (scores metrics side))[percentileIndex metrics.size]? = some p →
      hasNonzero metrics side = true →
      (passes p.2 (side.scorer m) = true ↔ (Double.finite 0).lt (side.scorer m) = true ∧
        higher metrics side (side.scorer m) < share metrics.size) := by
    intro m p hfind hp hpos
    have hm := hnum _ (mem_of_find hfind)
    have hpne := ne_nan_of_mem_sort hnum (List.mem_of_getElem? hp)
    have hzero : Double.finite 0 ≠ .nan := nofun
    have hhigh := higher_lt hfind hm
    have hle := key_le_iff hnum hp hm
    have hge := zero_le_key_iff hnum hp
    rw [percentileIndex_eq (hone m hfind) hsize] at hle hge
    -- more than the index score zero at least, so the minimum is not negative
    have hmin : (Double.finite 0).key ≤ p.2.key := by
      refine hge.mpr ?_
      rcases hnonneg with hsingle | hmore
      · obtain ⟨n', m', hfind', hm'⟩ := exists_positive hpos
        have hmem : 0 < metrics.entries.countP
            (fun m => (Double.finite 0).le (side.scorer m.2)) := by
          refine List.countP_pos_iff.mpr ⟨_, mem_of_find hfind', ?_⟩
          rw [Double.le_iff_key hzero (hnum _ (mem_of_find hfind'))]
          exact ((Double.lt_iff_key hzero (hnum _ (mem_of_find hfind'))).mp hm').le
        omega
      · omega
    have hshare : (Double.finite 0).lt (side.scorer m) = true →
        (higher metrics side (side.scorer m) ≤ min (share metrics.size) (metrics.size - 1) ↔
          higher metrics side (side.scorer m) < share metrics.size) := by
      intro hposm
      have hne : higher metrics side (side.scorer m) ≠ share metrics.size :=
        hgap _ (mem_of_find hfind) hposm
      have hlt := share_pos (hone m hfind)
      omega
    rw [passes_iff hpne hm]
    constructor
    · rintro (⟨h0, hposm⟩ | ⟨h0, hkey⟩)
      · refine ⟨hposm, (hshare hposm).mp (hle.mp ?_)⟩
        rw [h0]
        exact ((Double.lt_iff_key hzero hm).mp hposm).le
      · have hposm : (Double.finite 0).lt (side.scorer m) = true := by
          rw [Double.lt_iff_key hzero hm]
          refine lt_of_lt_of_le (lt_of_le_of_ne hmin fun heq => h0 ?_) hkey
          exact (Double.key_injOn hzero hpne heq).symm
        exact ⟨hposm, (hshare hposm).mp (hle.mp hkey)⟩
    · rintro ⟨hposm, hlt⟩
      by_cases h0 : p.2 = .finite 0
      · exact Or.inl ⟨h0, hposm⟩
      · exact Or.inr ⟨h0, hle.mpr ((hshare hposm).mpr hlt)⟩
  constructor
  · rintro ⟨hpos, m, p, hfind, hp, hpasses⟩
    exact ⟨m, hfind, (hmain m p hfind hp hpos).mp hpasses⟩
  · rintro ⟨m, hfind, hposm, hlt⟩
    obtain ⟨p, hp⟩ := exists_threshold sorting (hone m hfind) side
    have hpos := hasNonzero_of_find hfind hposm
    exact ⟨hpos, m, p, hfind, hp, (hmain m p hfind hp hpos).mpr ⟨hposm, hlt⟩⟩

/-- **FAIR IS NEEDED**. -/
theorem fair_of_chosen_iff (hsize : metrics.size < 2 ^ 50)
    (hexact : ∀ n, Chosen sorting metrics side n ↔ Top metrics side n) : Fair metrics side := by
  by_cases hpos : hasNonzero metrics side = true
  swap
  · left
    intro m hm
    exact Bool.eq_false_iff.mpr fun hlt => hpos (List.any_eq_true.mpr ⟨m, hm, hlt⟩)
  right
  have hzero : Double.finite 0 ≠ .nan := nofun
  obtain ⟨n₀, m₀, hfind₀, -⟩ := exists_positive hpos
  have hone : metrics.size ≠ 0 := (List.length_pos_of_mem (mem_of_find hfind₀)).ne'
  obtain ⟨p, hp⟩ := exists_threshold sorting hone side
  have hnum : ∀ m ∈ metrics.entries, side.scorer m.2 ≠ .nan := by
    intro m hm heq
    have hfind := metrics.find_eq_some_iff.mpr hm
    obtain ⟨m', hfind', hposm, -⟩ := (hexact m.1).mp
      ⟨hpos, m.2, p, hfind, hp, by rw [heq]; exact passes_nan _⟩
    cases Option.some.inj (hfind.symm.trans hfind')
    rw [heq] at hposm
    exact Bool.noConfusion hposm
  have hpne := ne_nan_of_mem_sort hnum (List.mem_of_getElem? hp)
  have hind := percentileIndex_eq hone hsize
  refine ⟨hnum, fun m hm hposm hgap => ?_, ?_⟩
  · -- the first one below the share passes
    have hfind := metrics.find_eq_some_iff.mpr hm
    have hhigh := higher_lt hfind (hnum m hm)
    have hkey := (key_le_iff hnum hp (hnum m hm)).mpr (by rw [hind]; omega)
    have hpasses : passes p.2 (side.scorer m.2) = true := by
      rw [passes_iff hpne (hnum m hm)]
      by_cases h0 : p.2 = .finite 0
      · exact Or.inl ⟨h0, hposm⟩
      · exact Or.inr ⟨h0, hkey⟩
    obtain ⟨m', hfind', -, hlt⟩ := (hexact m.1).mp ⟨hpos, m.2, p, hfind, hp, hpasses⟩
    cases Option.some.inj (hfind.symm.trans hfind')
    omega
  · by_cases hsingle : metrics.size = 1
    · exact Or.inl hsingle
    right
    have hlt := share_lt (n := metrics.size) (by omega)
    by_contra hfew
    -- the minimum is negative, and its own node passes
    have hneg : p.2.key < (Double.finite 0).key := by
      refine not_le.mp fun hmin => hfew ?_
      have := (zero_le_key_iff hnum hp).mp hmin
      rw [hind] at this
      omega
    obtain ⟨m, hfind, hscore⟩ := mem_sort.mp (List.mem_of_getElem? hp)
    have hpasses : passes p.2 (side.scorer m) = true := by
      rw [← hscore, passes_iff hpne hpne]
      refine Or.inr ⟨fun h0 => ?_, le_refl _⟩
      rw [h0] at hneg
      exact lt_irrefl _ hneg
    obtain ⟨m', hfind', hposm, -⟩ := (hexact p.1).mp ⟨hpos, m, p, hfind, hp, hpasses⟩
    cases Option.some.inj (hfind.symm.trans hfind')
    rw [← hscore, Double.lt_iff_key hzero hpne] at hposm
    exact lt_irrefl _ (hposm.trans hneg)

/-- Of distinct positive scores as many are in the top as should be. -/
theorem countP_top (hpos : ∀ m ∈ metrics.entries, (Double.finite 0).lt (side.scorer m.2) = true)
    (hnodup : (metrics.entries.map (fun m => side.scorer m.2)).Nodup) :
    metrics.entries.countP (fun m => higher metrics side (side.scorer m.2) < share metrics.size)
      = share metrics.size := by
  have hzero : Double.finite 0 ≠ .nan := nofun
  have hnum : ∀ m ∈ metrics.entries, side.scorer m.2 ≠ .nan := by
    intro m hm heq
    have := hpos m hm
    rw [heq] at this
    exact Bool.noConfusion this
  have hkeys : (metrics.entries.map (fun m => (side.scorer m.2).key)).Nodup := by
    have hmap : metrics.entries.map (fun m => (side.scorer m.2).key)
        = (metrics.entries.map (fun m => side.scorer m.2)).map Double.key := by
      rw [List.map_map]
      rfl
    rw [hmap]
    refine hnodup.map_on fun x hx y hy heq => ?_
    obtain ⟨m, hm, rfl⟩ := List.mem_map.mp hx
    obtain ⟨m', hm', rfl⟩ := List.mem_map.mp hy
    exact Double.key_injOn (hnum m hm) (hnum m' hm') heq
  have habove : ∀ m ∈ metrics.entries,
      above (metrics.entries.map (fun m => (side.scorer m.2).key)) (side.scorer m.2).key
        = higher metrics side (side.scorer m.2) := by
    intro m hm
    unfold above
    rw [List.countP_map]
    refine List.countP_congr fun m' hm' => ?_
    rw [Function.comp_apply, decide_eq_true_eq, Double.lt_iff_key (hnum m hm) (hnum m' hm')]
  have htop := countP_above_lt hkeys (share metrics.size)
  rw [List.countP_map, List.length_map] at htop
  refine (List.countP_congr fun m hm => ?_).trans (htop.trans ?_)
  · rw [Function.comp_apply, habove m hm]
  · show min (share metrics.size) metrics.size = _
    refine Nat.min_eq_left ?_
    unfold share
    omega

end Top

/-- **HEADLINE**: the exemptions are there, the index is inside the list, and the nodes
    exempted as top earners are the top 40 percent exactly if the scores are fair.  (An
    address space does not hold `2 ^ 50` nodes.) -/
theorem exempts_top_iff (sorting : Sorting N) (metrics : OrderedMap N PeerMetrics)
    (unmanaged : List N) (side : Side) :
    (metrics.size ≠ 0 → percentileIndex metrics.size
      < (sorting.sort (scores metrics side)).length) ∧
    ∃ rv, getExemptions sorting metrics unmanaged = some rv ∧
      (metrics.size < 2 ^ 50 → (ExemptsTop metrics side rv ↔ Fair metrics side)) := by
  refine ⟨fun h0 => ?_, ?_⟩
  · rw [length_sort]
    exact percentileIndex_lt h0
  obtain ⟨rv, hrv, hspec⟩ := getExemptions_spec sorting metrics unmanaged
  refine ⟨rv, hrv, fun hsize => ⟨fun h => ?_, fun hfair => ?_⟩⟩
  · exact fair_of_chosen_iff hsize fun n => (hspec n (.earner side)).symm.trans (h.exact n)
  · have hexact : ∀ n, exempted rv n (.earner side) = true ↔ Top metrics side n := fun n =>
      (hspec n (.earner side)).trans (chosen_iff_of_fair hsize hfair n)
    refine ⟨hexact, fun hpos hnodup => ?_⟩
    rw [← countP_top hpos hnodup]
    refine List.countP_congr fun m hm => ?_
    have hfind := metrics.find_eq_some_iff.mpr hm
    rw [hexact, decide_eq_true_eq]
    constructor
    · rintro ⟨m', hfind', -, hlt⟩
      cases Option.some.inj (hfind.symm.trans hfind')
      exact hlt
    · exact fun hlt => ⟨m.2, hfind, hpos m hm, hlt⟩

/-- Rates that are numbers and not negative leave one way to be unfair. -/
theorem fair_iff_of_sound {metrics : OrderedMap N PeerMetrics} {side : Side}
    (hsound : SoundMetrics metrics.entries) : Fair metrics side ↔
      ∀ m ∈ metrics.entries, (Double.finite 0).lt (side.scorer m.2) = true →
        higher metrics side (side.scorer m.2) ≠ share metrics.size := by
  have hnonneg : ∀ m ∈ metrics.entries, FiniteNonneg (side.scorer m.2) := by
    intro m hm
    cases side with
    | incoming => exact (hsound m hm).inFee
    | outgoing => exact (hsound m hm).outFee
  constructor
  · rintro (hnone | ⟨-, hgap, -⟩) m hm hpos
    · exact absurd (hnone m hm) (by rw [hpos]; exact Bool.noConfusion)
    · exact hgap m hm hpos
  · intro hgap
    by_cases hnone : ∀ m ∈ metrics.entries, (Double.finite 0).lt (side.scorer m.2) = false
    · exact Or.inl hnone
    refine Or.inr ⟨fun m hm heq => ?_, hgap, ?_⟩
    · obtain ⟨q, hq, -⟩ := hnonneg m hm
      exact Double.noConfusion (hq.symm.trans heq)
    · have hall : metrics.entries.countP (fun m => (Double.finite 0).le (side.scorer m.2))
          = metrics.size := by
        refine List.countP_eq_length.mpr fun m hm => ?_
        obtain ⟨q, hq, h0⟩ := hnonneg m hm
        rw [hq]
        exact decide_eq_true h0
      rw [hall]
      by_cases hsingle : metrics.size = 1
      · exact Or.inl hsingle
      · right
        obtain ⟨m, hm, -⟩ : ∃ m ∈ metrics.entries, True := by
          by_contra hempty
          exact hnone fun m hm => absurd ⟨m, hm, True.intro⟩ hempty
        have hpos : 0 < metrics.size := List.length_pos_of_mem hm
        exact share_lt (by omega)

/-- The metrics of a peer with a channel of three days that earned so much a day. -/
def earning (inFee : ℚ) : PeerMetrics where
  age               := .finite (3 * 24 * 60 * 60)
  secondsPerAttempt := .finite 0
  successPerAttempt := none
  successPerDay     := .finite 0
  connectRate       := none
  inFeeMsatPerDay   := .finite inFee
  outFeeMsatPerDay  := .finite 0

/-- Four peers, two of which earn the same. -/
def fourPeers : OrderedMap ℕ PeerMetrics :=
  ⟨[(1, earning 30), (2, earning 20), (3, earning 20), (4, earning 0)], by decide⟩

/-- Five peers that earn more and more. -/
def fivePeers : OrderedMap ℕ PeerMetrics :=
  ⟨[(1, earning 10), (2, earning 20), (3, earning 30), (4, earning 40), (5, earning 50)], by decide⟩

theorem exempts_top_iff_fourPeers : Fair fourPeers .incoming ∧
    ∃ rv, getExemptions (Sorting.insertion ℕ) fourPeers [4] = some rv ∧
      rv.entries = [(1, [.earner .incoming]), (2, [.earner .incoming]), (3, [.earner .incoming]),
        (4, [.unmanaged])] ∧ ExemptsTop fourPeers .incoming rv := by
  have hfair : Fair fourPeers .incoming := by decide
  have hentries : (getExemptions (Sorting.insertion ℕ) fourPeers [4]).map (fun rv => rv.entries)
      = some [(1, [.earner .incoming]), (2, [.earner .incoming]), (3, [.earner .incoming]),
        (4, [.unmanaged])] := by
    decide +kernel
  obtain ⟨-, rv, hrv, hiff⟩ :=
    exempts_top_iff (Sorting.insertion ℕ) fourPeers [4] .incoming
  rw [hrv] at hentries
  exact ⟨hfair, rv, hrv, Option.some.inj hentries, (hiff (by decide)).mpr hfair⟩

/-- **SLIP**: three peers of five are exempted, and 40 percent are two. -/
theorem three_of_five : share fivePeers.size = 2 ∧
    ∃ rv, getExemptions (Sorting.insertion ℕ) fivePeers [] = some rv ∧
      rv.entries = [(3, [.earner .incoming]), (4, [.earner .incoming]), (5, [.earner .incoming])] ∧
      ¬ ExemptsTop fivePeers .incoming rv := by
  have hentries : (getExemptions (Sorting.insertion ℕ) fivePeers []).map (fun rv => rv.entries)
      = some [(3, [.earner .incoming]), (4, [.earner .incoming]), (5, [.earner .incoming])] := by
    decide +kernel
  obtain ⟨rv, hrv, hrows⟩ := Option.map_eq_some_iff.mp hentries
  refine ⟨by decide, rv, hrv, hrows, fun h => ?_⟩
  have hcount := h.count (by decide) (by decide)
  unfold exempted OrderedMap.find at hcount
  rw [hrows] at hcount
  exact absurd hcount (by decide)

end PeerComplaintsDesk.Exempter
