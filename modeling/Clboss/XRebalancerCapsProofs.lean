import Clboss.XRebalancerProofs

/-! # `Boss::Mod::XRebalancer` — caps do not add up to more than the deficit

    `distribute_caps` computes in doubles.  Each cap is the exact share of the
    deficit with two rounding errors on it, then truncated, and an error may
    well carry a share over the next integer.  The SUM is safe nevertheless:
    the shares add up to the deficit, the errors to less than one satoshi, and
    the sum of the caps is an integer. -/

namespace XRebalancer

open Double

variable {Node : Type} [LinearOrder Node]

/-! ## Peers are sums of their channels -/

omit [LinearOrder Node] in
/-- The aggregation loop, over channels of one node. -/
theorem foldl_add {cs : List (Chan Node)} {p : Peer Node} (h : ∀ c ∈ cs, c.node = p.node) :
    cs.foldl Peer.add p = { p with
      chans := p.chans ++ cs
      capSat := p.capSat + (cs.map Chan.capSat).sum
      localSat := p.localSat + (cs.map Chan.localSat).sum
      online := p.online || cs.any Chan.online } := by
  induction cs generalizing p with
  | nil => simp
  | cons c cs ih =>
      have hc : (p.add c).node = p.node := h c List.mem_cons_self
      rw [List.foldl_cons, ih]
      · simp [Peer.add, h c List.mem_cons_self, add_assoc, Bool.or_assoc]
      · intro c' hc'
        rw [hc]
        exact h c' (List.mem_cons_of_mem _ hc')

/-- The channels of a node. -/
def chansOf (rows : List (Chan Node)) (n : Node) : List (Chan Node) :=
  rows.filter (fun c => c.node = n)

theorem mem_chansOf {rows : List (Chan Node)} {n : Node} {c : Chan Node} :
    c ∈ chansOf rows n ↔ c ∈ rows ∧ c.node = n := by
  simp [chansOf]

theorem byNode_eq (rows : List (Chan Node)) (n : Node) :
    byNode rows n = ⟨n, chansOf rows n, ((chansOf rows n).map Chan.capSat).sum,
      ((chansOf rows n).map Chan.localSat).sum, (chansOf rows n).any Chan.online,
      .finite 0, 0, 0⟩ := by
  have hnode : ∀ c ∈ chansOf rows n, c.node = (Peer.empty n).node :=
    fun c hc => (mem_chansOf.mp hc).2
  show (chansOf rows n).foldl Peer.add (Peer.empty n) = _
  rw [foldl_add hnode]
  simp [Peer.empty]

theorem byNode_node (rows : List (Chan Node)) (n : Node) : (byNode rows n).node = n := by
  rw [byNode_eq]

/-- A peer of the plan, and the channels it is made of. -/
theorem mem_peers {s : Settings} {rows : List (Chan Node)} {p : Peer Node}
    (h : p ∈ peers s rows) : p = (byNode rows p.node).aim s ∧ 0 < p.capSat := by
  obtain ⟨p', hp', rfl⟩ := List.mem_map.mp h
  obtain ⟨hmem, hcap⟩ := List.mem_filter.mp hp'
  obtain ⟨n, -, rfl⟩ := List.mem_map.mp hmem
  refine ⟨?_, of_decide_eq_true hcap⟩
  show (byNode rows n).aim s = (byNode rows (byNode rows n).node).aim s
  rw [byNode_node]

theorem peer_chans {s : Settings} {rows : List (Chan Node)} {p : Peer Node}
    (h : p ∈ peers s rows) : p.chans = chansOf rows p.node := by
  have hp := (mem_peers h).1
  have : ((byNode rows p.node).aim s).chans = chansOf rows p.node := by
    rw [byNode_eq]
    rfl
  rwa [← hp] at this

/-- Channels of a set that may exist: a peer's, say. -/
structure Funded (cs : List (Chan Node)) : Prop where
  cap_pos   : ∀ c ∈ cs, 0 < c.capSat
  local_nn  : ∀ c ∈ cs, 0 ≤ c.localSat
  local_le  : ∀ c ∈ cs, c.localSat ≤ c.capSat
  cap_money : (cs.map Chan.capSat).sum ≤ maxMoney

omit [LinearOrder Node] in
theorem Funded.tail {c : Chan Node} {cs : List (Chan Node)} (h : Funded (c :: cs)) :
    Funded cs := by
  have hc := h.cap_pos c List.mem_cons_self
  have hsum := h.cap_money
  rw [List.map_cons, List.sum_cons] at hsum
  exact ⟨fun x hx => h.cap_pos x (List.mem_cons_of_mem _ hx),
    fun x hx => h.local_nn x (List.mem_cons_of_mem _ hx),
    fun x hx => h.local_le x (List.mem_cons_of_mem _ hx), by omega⟩

omit [LinearOrder Node] in
theorem Funded.local_sum {cs : List (Chan Node)} (h : Funded cs) :
    0 ≤ (cs.map Chan.localSat).sum
      ∧ (cs.map Chan.localSat).sum ≤ (cs.map Chan.capSat).sum := by
  induction cs with
  | nil => exact ⟨le_refl _, le_refl _⟩
  | cons c cs ih =>
      obtain ⟨h₁, h₂⟩ := ih h.tail
      have h₃ := h.local_nn c List.mem_cons_self
      have h₄ := h.local_le c List.mem_cons_self
      simp only [List.map_cons, List.sum_cons]
      omega

omit [LinearOrder Node] in
theorem Channels.funded_filter (chans : Channels Node) (f : Chan Node → Bool) :
    Funded (chans.rows.filter f) := by
  refine ⟨fun c hc => chans.cap_pos c (List.mem_filter.mp hc).1,
    fun c hc => chans.local_nn c (List.mem_filter.mp hc).1,
    fun c hc => chans.local_le c (List.mem_filter.mp hc).1, ?_⟩
  refine le_trans ?_ chans.cap_money
  refine List.Sublist.sum_le_sum (List.Sublist.map _ List.filter_sublist) ?_
  intro x hx
  obtain ⟨c, hc, rfl⟩ := List.mem_map.mp hx
  exact (chans.cap_pos c hc).le

/-- The two rounding errors on an amount of bitcoin. -/
theorem money_error {m : ℚ} (h0 : 0 ≤ m) (h : m ≤ maxMoney) :
    m * (1 + 2 ^ (-53 : ℤ)) ^ 2 < m + 1 := by
  have hu : ((1 : ℚ) + 2 ^ (-53 : ℤ)) ^ 2 ≤ 1 + 1 / (4 * 10 ^ 15) := by norm_num
  have hm : m * (1 / (4 * 10 ^ 15)) < 1 := by
    have : (maxMoney : ℚ) = 21 * 10 ^ 14 := by norm_num [maxMoney]
    rw [this] at h
    linarith
  calc m * (1 + 2 ^ (-53 : ℤ)) ^ 2 ≤ m * (1 + 1 / (4 * 10 ^ 15)) :=
        mul_le_mul_of_nonneg_left hu h0
    _ < m + 1 := by linarith

/-- Rounding never carries a band edge past the capacity. -/
theorem bandEdge_bounds {cap : Int} (h0 : 0 < cap) (h : cap ≤ maxMoney) (band : Band) :
    0 ≤ bandEdge cap band ∧ bandEdge cap band ≤ cap := by
  obtain ⟨n, rfl⟩ := Int.eq_ofNat_of_zero_le h0.le
  have hn : n < 2 ^ 53 := by
    unfold maxMoney at h
    omega
  have hq0 : (1 : ℚ) ≤ n := by exact_mod_cast h0
  have hle : ((n : ℤ) : ℚ) ≤ maxMoney := by exact_mod_cast h
  have hbig : (n : ℚ) < 2 ^ 62 := by
    have : (n : ℚ) < 2 ^ 53 := by exact_mod_cast hn
    linarith
  have hnorm : (2 : ℚ) ^ (-1022 : ℤ) ≤ n := by
    refine le_trans ?_ hq0
    exact zpow_le_one_of_nonpos₀ (by norm_num) (by norm_num)
  have hprod : (n : ℚ) * band.pct ≤ n * 100 :=
    mul_le_mul_of_nonneg_left band.le_cent (by linarith)
  have hedge := toInt64_mul_div (mul_nonneg (by linarith : (0 : ℚ) ≤ n) band.nonneg)
    (by norm_num : (1 : ℚ) ≤ 100) hprod hnorm hbig (by norm_num)
  unfold bandEdge
  rw [ofInt_natCast hn]
  refine ⟨hedge.1, ?_⟩
  have herr := money_error (m := n) (by linarith) (by exact_mod_cast h)
  have hlt : ((toInt64 ((mul (.finite n) (.finite band.pct)).div (.finite 100)) : ℤ) : ℚ)
      < ((n + 1 : ℤ) : ℚ) := by
    push_cast
    linarith [hedge.2]
  have := Int.cast_lt.mp hlt
  omega

/-! ## The distribution -/

omit [LinearOrder Node] in
theorem headroom_bounds {cs : List (Chan Node)} (hf : Funded cs) {c : Chan Node} (hc : c ∈ cs)
    (band : Band) (fillSide : Bool) :
    0 ≤ headroom band fillSide c ∧ headroom band fillSide c ≤ c.capSat := by
  have hpos := hf.cap_pos c hc
  have hcap : c.capSat ≤ maxMoney := by
    refine le_trans ?_ hf.cap_money
    refine List.single_le_sum ?_ _ (List.mem_map_of_mem hc)
    intro x hx
    obtain ⟨c', hc', rfl⟩ := List.mem_map.mp hx
    exact (hf.cap_pos c' hc').le
  obtain ⟨h₁, h₂⟩ := bandEdge_bounds hpos hcap band
  have h₃ := hf.local_nn c hc
  have h₄ := hf.local_le c hc
  unfold headroom
  split <;> omega

omit [LinearOrder Node] in
/-- The headrooms of a peer's channels add up to bitcoin. -/
theorem headroom_sum {cs : List (Chan Node)} (hf : Funded cs) (band : Band) (fillSide : Bool) :
    (cs.map (headroom band fillSide)).sum ≤ (cs.map Chan.capSat).sum := by
  refine List.sum_le_sum ?_
  intro c hc
  exact (headroom_bounds hf hc band fillSide).2

omit [LinearOrder Node] in
/-- `total` is exact. -/
theorem foldl_headroom {cs : List (Chan Node)} (band : Band) (fillSide : Bool)
    (hnn : ∀ c ∈ cs, 0 ≤ headroom band fillSide c) (acc : ℕ)
    (hlt : acc + (cs.map (headroom band fillSide)).sum < 2 ^ 53) :
    cs.foldl (fun (total : Double) c => total.add (.ofInt (headroom band fillSide c)))
        (.finite acc)
      = .finite ((acc + (cs.map (headroom band fillSide)).sum : ℤ) : ℚ) := by
  induction cs generalizing acc with
  | nil => simp
  | cons c cs ih =>
      have hc := hnn c List.mem_cons_self
      have htail : 0 ≤ (cs.map (headroom band fillSide)).sum := by
        refine List.sum_nonneg ?_
        intro x hx
        obtain ⟨c', hc', rfl⟩ := List.mem_map.mp hx
        exact hnn c' (List.mem_cons_of_mem _ hc')
      rw [List.map_cons, List.sum_cons] at hlt
      obtain ⟨k, hk⟩ := Int.eq_ofNat_of_zero_le hc
      rw [List.foldl_cons, hk, ofInt_natCast (by omega), add_natCast (by omega),
        ih (fun c' hc' => hnn c' (List.mem_cons_of_mem _ hc')) (acc + k) (by push_cast; omega)]
      rw [List.map_cons, List.sum_cons, hk]
      push_cast
      rw [add_assoc]

omit [LinearOrder Node] in
theorem totalHeadroom_eq {cs : List (Chan Node)} (hf : Funded cs) (band : Band)
    (fillSide : Bool) : totalHeadroom band fillSide cs
      = .finite (((cs.map (headroom band fillSide)).sum : ℤ) : ℚ) := by
  have hsum := headroom_sum hf band fillSide
  have hmoney := hf.cap_money
  have := foldl_headroom band fillSide (fun c hc => (headroom_bounds hf hc band fillSide).1) 0
    (by unfold maxMoney at hmoney; push_cast; omega)
  unfold totalHeadroom
  simpa using this

omit [LinearOrder Node] in
/-- A cap is the exact share of the deficit, give or take the rounding. -/
theorem channelCap_le {band : Band} {fillSide : Bool} {deficit total : ℤ} {c : Chan Node}
    {cap : ScidCap} (hd0 : 0 < deficit) (hd : deficit ≤ maxMoney) (ht0 : 0 < total)
    (ht : total ≤ maxMoney) (hh : headroom band fillSide c ≤ total)
    (h : channelCap band fillSide deficit (.finite total) c = some cap) :
    minCapSat ≤ cap.maxSat ∧ cap.scid = c.scid ∧
      (cap.maxSat : ℚ) ≤ (deficit : ℚ) * (1 + 2 ^ (-53 : ℤ)) ^ 2 / total
        * headroom band fillSide c := by
  unfold channelCap at h
  simp only at h
  by_cases hpos : headroom band fillSide c ≤ 0
  · rw [if_pos hpos] at h
    exact nomatch h
  rw [if_neg hpos] at h
  generalize hhr : headroom band fillSide c = hr at *
  split at h
  · exact nomatch h
  rename_i hcap
  cases h
  refine ⟨not_lt.mp hcap, rfl, ?_⟩
  obtain ⟨d, rfl⟩ := Int.eq_ofNat_of_zero_le hd0.le
  obtain ⟨k, rfl⟩ := Int.eq_ofNat_of_zero_le (not_le.mp hpos).le
  unfold maxMoney at hd ht
  have hdq : (1 : ℚ) ≤ d := by exact_mod_cast hd0
  have hkq : (1 : ℚ) ≤ k := by exact_mod_cast not_le.mp hpos
  have htq : (1 : ℚ) ≤ total := by exact_mod_cast ht0
  have htb : (total : ℚ) < 2 ^ 53 := by
    have : total < 2 ^ 53 := by omega
    exact_mod_cast this
  have hkt : (k : ℚ) ≤ total := by exact_mod_cast hh
  have hdb : (d : ℚ) < 2 ^ 53 := by
    have : d < 2 ^ 53 := by omega
    exact_mod_cast this
  have ht0q : (0 : ℚ) < total := by linarith
  have hshare : (d : ℚ) * k = (d * k / total) * total := (div_mul_cancel₀ _ ht0q.ne').symm
  have hsmall : (d : ℚ) * k / total ≤ d := by
    rw [div_le_iff₀ ht0q]
    exact mul_le_mul_of_nonneg_left hkt (by linarith)
  have hnorm : (2 : ℚ) ^ (-1022 : ℤ) ≤ d * k / total := by
    have h₁ : (2 : ℚ) ^ (-1022 : ℤ) ≤ 2 ^ (-53 : ℤ) :=
      zpow_le_zpow_right₀ (by norm_num) (by norm_num)
    have h₂ : (2 : ℚ) ^ (-53 : ℤ) = 1 / 2 ^ 53 := by norm_num
    rw [le_div_iff₀ ht0q]
    have h₃ : (1 : ℚ) ≤ d * k := one_le_mul_of_one_le_of_one_le hdq hkq
    have h₄ : (2 : ℚ) ^ (-53 : ℤ) * total ≤ 1 := by
      rw [h₂]
      linarith
    have h₅ : (2 : ℚ) ^ (-1022 : ℤ) * total ≤ 2 ^ (-53 : ℤ) * total :=
      mul_le_mul_of_nonneg_right h₁ ht0q.le
    linarith
  have hdk : (0 : ℚ) ≤ d * k := by positivity
  have hcast := (toInt64_mul_div hdk htq hshare.le hnorm (by linarith) (by linarith)).2
  rw [ofInt_natCast (by omega), ofInt_natCast (by omega)]
  refine hcast.trans (le_of_eq ?_)
  push_cast
  field_simp

omit [LinearOrder Node] in
/-- The caps of some channels, against the sum of their shares. -/
theorem sum_channelCap_le {band : Band} {fillSide : Bool} {deficit total : ℤ}
    {cs : List (Chan Node)} (hd0 : 0 < deficit) (hd : deficit ≤ maxMoney) (ht0 : 0 < total)
    (ht : total ≤ maxMoney) (hnn : ∀ c ∈ cs, 0 ≤ headroom band fillSide c)
    (hh : ∀ c ∈ cs, headroom band fillSide c ≤ total) :
    ((((cs.filterMap (channelCap band fillSide deficit (.finite total))).map
        ScidCap.maxSat).sum : ℤ) : ℚ)
      ≤ (deficit : ℚ) * (1 + 2 ^ (-53 : ℤ)) ^ 2 / total
        * ((cs.map (headroom band fillSide)).sum : ℤ) := by
  induction cs with
  | nil => simp
  | cons c cs ih =>
      have htail := ih (fun x hx => hnn x (List.mem_cons_of_mem _ hx))
        (fun x hx => hh x (List.mem_cons_of_mem _ hx))
      have hc := hnn c List.mem_cons_self
      have hrate : (0 : ℚ) ≤ (deficit : ℚ) * (1 + 2 ^ (-53 : ℤ)) ^ 2 / total := by
        have : (0 : ℚ) < deficit := by exact_mod_cast hd0
        have : (0 : ℚ) < total := by exact_mod_cast ht0
        positivity
      rw [List.map_cons, List.sum_cons, Int.cast_add, mul_add]
      cases hcap : channelCap band fillSide deficit (.finite total) c with
      | none =>
          rw [List.filterMap_cons_none hcap]
          have : (0 : ℚ) ≤ headroom band fillSide c := by exact_mod_cast hc
          linarith [mul_nonneg hrate this]
      | some cap =>
          rw [List.filterMap_cons_some hcap, List.map_cons, List.sum_cons]
          have := (channelCap_le hd0 hd ht0 ht (hh c List.mem_cons_self) hcap).2.2
          rw [Int.cast_add]
          linarith

omit [LinearOrder Node] in
/-- **THE CAPS OF A PEER** are worth having, are for channels of the peer, and
    add up to at most its deficit. -/
theorem distributeCaps_spec {p : Peer Node} (hf : Funded p.chans) (band : Band)
    (fillSide : Bool) {deficit : ℤ} (hd : deficit ≤ maxMoney) :
    (∀ cap ∈ distributeCaps p band fillSide deficit,
        minCapSat ≤ cap.maxSat ∧ ∃ c ∈ p.chans, c.scid = cap.scid)
      ∧ (0 < deficit → ((distributeCaps p band fillSide deficit).map ScidCap.maxSat).sum
        ≤ deficit) := by
  have htotal := totalHeadroom_eq hf band fillSide
  have hmoney := (headroom_sum hf band fillSide).trans hf.cap_money
  have hnn : ∀ c ∈ p.chans, 0 ≤ headroom band fillSide c :=
    fun c hc => (headroom_bounds hf hc band fillSide).1
  have hle : ∀ c ∈ p.chans, headroom band fillSide c
      ≤ (p.chans.map (headroom band fillSide)).sum := by
    intro c hc
    refine List.single_le_sum ?_ _ (List.mem_map_of_mem hc)
    intro x hx
    obtain ⟨c', hc', rfl⟩ := List.mem_map.mp hx
    exact hnn c' hc'
  unfold distributeCaps
  simp only [htotal]
  generalize hsum : (p.chans.map (headroom band fillSide)).sum = total at *
  by_cases hout : (Double.finite (total : ℚ)).le (.finite 0) = true ∨ deficit ≤ 0
  · rw [if_pos hout]
    exact ⟨fun cap hcap => (nomatch hcap), fun hd0 => hd0.le⟩
  · rw [if_neg hout]
    rw [not_or, not_le] at hout
    obtain ⟨ht, hd0⟩ := hout
    have ht0 : 0 < total := by simpa [Double.le] using ht
    constructor
    · intro cap hcap
      obtain ⟨c, hc, hcap⟩ := List.mem_filterMap.mp hcap
      obtain ⟨h₁, h₂, -⟩ := channelCap_le hd0 hd ht0 hmoney (hle c hc) hcap
      exact ⟨h₁, c, hc, h₂.symm⟩
    · intro _
      have hcaps := sum_channelCap_le hd0 hd ht0 hmoney hnn hle
      have htq : (total : ℚ) ≠ 0 := by exact_mod_cast ht0.ne'
      rw [hsum, div_mul_cancel₀ _ htq] at hcaps
      have herr := money_error (m := deficit) (by exact_mod_cast hd0.le) (by exact_mod_cast hd)
      have hlt := lt_of_le_of_lt hcaps herr
      exact Int.lt_add_one_iff.mp (by exact_mod_cast hlt)

/-- The deficits of a peer are amounts of bitcoin. -/
theorem peer_money {s : Settings} (chans : Channels Node) {p : Peer Node}
    (h : p ∈ peers s chans.rows) :
    Funded p.chans ∧ p.tgtFillSat ≤ maxMoney ∧ p.tgtDrainSat ≤ maxMoney := by
  obtain ⟨hp, hcap⟩ := mem_peers h
  have hf : Funded (chansOf chans.rows p.node) := chans.funded_filter _
  have heq : p = Peer.aim s ⟨p.node, chansOf chans.rows p.node,
      ((chansOf chans.rows p.node).map Chan.capSat).sum,
      ((chansOf chans.rows p.node).map Chan.localSat).sum,
      (chansOf chans.rows p.node).any Chan.online, .finite 0, 0, 0⟩ := by
    rw [← byNode_eq]
    exact hp
  have hc : p.capSat = ((chansOf chans.rows p.node).map Chan.capSat).sum := by rw [heq]; rfl
  have hl : p.localSat = ((chansOf chans.rows p.node).map Chan.localSat).sum := by rw [heq]; rfl
  have htf : p.tgtFillSat = max 0 (bandEdge p.capSat s.fillBand - p.localSat) := by rw [heq]; rfl
  have htd : p.tgtDrainSat = max 0 (p.localSat - bandEdge p.capSat s.drainBand) := by
    rw [heq]; rfl
  have hmoney : p.capSat ≤ maxMoney := by rw [hc]; exact hf.cap_money
  obtain ⟨hl0, hlc⟩ := hf.local_sum
  rw [← hl] at hl0 hlc
  rw [← hc] at hlc
  obtain ⟨-, he₁⟩ := bandEdge_bounds hcap hmoney s.fillBand
  obtain ⟨he₂, -⟩ := bandEdge_bounds hcap hmoney s.drainBand
  refine ⟨by rw [peer_chans h]; exact hf, by omega, by omega⟩

end XRebalancer
