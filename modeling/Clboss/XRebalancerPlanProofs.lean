import Clboss.XRebalancerCapsProofs

/-! # `Boss::Mod::XRebalancer` — a plan pays for itself

    The cut of a plan is a point of the curve, and the peers of the request are
    picked by walking the same sorted pools up to that volume.  `Walk` says what
    the two have in common: the marginal rate the curve reads off a side is the
    rate of the LAST peer that `pick` takes from it, and all peers before earn
    at least as much.  So any fill and any drain of the request together earn
    the joint rate of the cut, on which the fee budget is based. -/

namespace XRebalancer

open Double

variable {Node : Type} [LinearOrder Node]

/-! ## Walking a pool -/

/-- A pool as the curve and `pick` read it: positive rates that do not rise, and
    something to move at every peer. -/
structure Ranked (pool : List (PoolItem Node)) : Prop where
  sorted  : pool.Pairwise (fun a b => a.ppm.lt b.ppm = false)
  ppm_pos : ∀ it ∈ pool, (Double.finite 0).lt it.ppm = true
  deficit : ∀ it ∈ pool, 0 < it.deficit

omit [LinearOrder Node] in
theorem Ranked.tail {it : PoolItem Node} {pool : List (PoolItem Node)}
    (h : Ranked (it :: pool)) : Ranked pool :=
  ⟨(List.pairwise_cons.mp h.sorted).2, fun x hx => h.ppm_pos x (List.mem_cons_of_mem _ hx),
    fun x hx => h.deficit x (List.mem_cons_of_mem _ hx)⟩

omit [LinearOrder Node] in
/-- Unless the side is exhausted, the marginal rate is that of one of its peers. -/
theorem thresholdAt_mem {n acc : Int} {pool : List (PoolItem Node)}
    (h : (thresholdAt n (cum acc pool)).lt (.finite 0) = false) :
    ∃ it ∈ pool, thresholdAt n (cum acc pool) = it.ppm := by
  induction pool generalizing acc with
  | nil => exact absurd h (by simp [cum, thresholdAt, Double.lt])
  | cons it pool ih =>
      unfold cum thresholdAt at h ⊢
      split at h
      · rename_i hle
        exact ⟨it, List.mem_cons_self, by rw [if_pos hle]⟩
      · rename_i hle
        obtain ⟨it', hit', heq⟩ := ih h
        exact ⟨it', List.mem_cons_of_mem _ hit', by rw [if_neg hle, heq]⟩

/-- What the curve point at `n` and the picks for `n` have in common. -/
structure Walk (n : Int) (acc : Int) (pool : List (PoolItem Node)) : Prop where
  reaches  : n ≤ acc + ((pick n acc pool).map PoolItem.deficit).sum
  marginal : ∀ it ∈ pick n acc pool, (thresholdAt n (cum acc pool)).le it.ppm = true
  positive : (Double.finite 0).lt (thresholdAt n (cum acc pool)) = true

omit [LinearOrder Node] in
/-- **RUN**: the walk over a pool, one peer at a time. -/
theorem walk {n acc : Int} {pool : List (PoolItem Node)} (hr : Ranked pool)
    (h : (thresholdAt n (cum acc pool)).lt (.finite 0) = false) : Walk n acc pool := by
  induction pool generalizing acc with
  | nil => exact absurd h (by simp [cum, thresholdAt, Double.lt])
  | cons it pool ih =>
      have hpos := hr.ppm_pos it List.mem_cons_self
      have hdef := hr.deficit it List.mem_cons_self
      by_cases hle : n ≤ acc + it.deficit
      · -- the volume ends in this peer: it is the last one taken
        have hthr : thresholdAt n (cum acc (it :: pool)) = it.ppm := by
          unfold cum thresholdAt
          rw [if_pos hle]
        have hpick : pick n acc (it :: pool) = [] ∧ n ≤ acc
            ∨ pick n acc (it :: pool) = [it] := by
          by_cases hacc : n ≤ acc
          · left
            unfold pick
            rw [if_pos hacc]
            exact ⟨rfl, hacc⟩
          · right
            have hrest : pick n (acc + it.deficit) pool = [] := by
              cases pool with
              | nil => rfl
              | cons it' pool => unfold pick; rw [if_pos hle]
            unfold pick
            rw [if_neg hacc, hrest]
        refine ⟨?_, ?_, by rw [hthr]; exact hpos⟩
        · rcases hpick with ⟨hp, hacc⟩ | hp
          · rw [hp]
            simpa using hacc
          · rw [hp]
            simpa using hle
        · intro it' hit'
          rw [hthr]
          rcases hpick with ⟨hp, -⟩ | hp
          · rw [hp] at hit'
            exact absurd hit' List.not_mem_nil
          · rw [hp] at hit'
            cases List.mem_singleton.mp hit'
            exact le_of_not_lt hpos hpos (by cases hit : it.ppm <;> simp [Double.lt])
      · -- the volume goes on: this peer earns at least what the later ones do
        have hthr : thresholdAt n (cum acc (it :: pool))
            = thresholdAt n (cum (acc + it.deficit) pool) := by
          show thresholdAt n ((acc + it.deficit, it.ppm) :: cum (acc + it.deficit) pool) = _
          rw [thresholdAt, if_neg hle]
        have hpick : pick n acc (it :: pool) = it :: pick n (acc + it.deficit) pool := by
          show (if n ≤ acc then [] else it :: pick n (acc + it.deficit) pool) = _
          rw [if_neg (by omega)]
        rw [hthr] at h
        have hw := ih hr.tail h
        obtain ⟨it₂, hit₂, heq⟩ := thresholdAt_mem h
        refine ⟨?_, ?_, by rw [hthr]; exact hw.positive⟩
        · rw [hpick, List.map_cons, List.sum_cons]
          have := hw.reaches
          omega
        · intro it' hit'
          rw [hthr]
          rw [hpick] at hit'
          rcases List.mem_cons.mp hit' with rfl | hmem
          · rw [heq]
            exact le_of_not_lt (hr.ppm_pos it₂ (List.mem_cons_of_mem _ hit₂)) hpos
              ((List.pairwise_cons.mp hr.sorted).1 it₂ hit₂)
          · exact hw.marginal it' hmem

/-! ## The cut -/

/-- What an item of either pool promises. -/
structure Item (s : Settings) (rows : List (Chan Node)) (unmanaged : Finset Node)
    (it : PoolItem Node) : Prop where
  peer    : it.pr ∈ peers s rows
  online  : it.pr.online = true
  managed : it.pr.node ∉ unmanaged
  ppm_pos : (Double.finite 0).lt it.ppm = true
  deficit : 0 < it.deficit
  caps    : ∀ cap ∈ it.caps, minCapSat ≤ cap.maxSat ∧ ∃ c ∈ it.pr.chans, c.scid = cap.scid
  sum     : (it.caps.map ScidCap.maxSat).sum ≤ it.deficit

theorem eligible_spec {net : Node → Option NetPpm} {unmanaged : Finset Node} {p : Peer Node}
    {np : NetPpm} (h : eligible net unmanaged p = some np) :
    p.online = true ∧ p.node ∉ unmanaged := by
  unfold eligible at h
  split at h
  · exact nomatch h
  · rename_i hon
    split at h
    · exact nomatch h
    · rename_i hman
      exact ⟨by simpa using hon, hman⟩

omit [LinearOrder Node] in
theorem poolItem_spec {p : Peer Node} {ppm : Double} {deficit : Int} {caps : List ScidCap}
    {it : PoolItem Node} (h : poolItem p ppm deficit caps = some it) :
    it = ⟨p, ppm, deficit, caps⟩ := by
  unfold poolItem at h
  split at h
  · exact nomatch h
  · cases h
    rfl

omit [LinearOrder Node] in
theorem fillRate_spec {s : Settings} {p : Peer Node} {np : NetPpm} {ppm : Double}
    (h : fillRate s p np = some ppm) :
    0 < p.tgtFillSat ∧ (Double.finite 0).lt ppm = true := by
  unfold fillRate at h
  split at h
  · rename_i hcond
    exact ⟨hcond.2, (Option.filter_eq_some_iff.mp h).2⟩
  · exact nomatch h

omit [LinearOrder Node] in
theorem drainRate_spec {s : Settings} {p : Peer Node} {np : NetPpm} {ppm : Double}
    (h : drainRate s p np = some ppm) :
    0 < p.tgtDrainSat ∧ (Double.finite 0).lt ppm = true := by
  unfold drainRate at h
  split at h
  · rename_i hcond
    exact ⟨hcond.2, (Option.filter_eq_some_iff.mp h).2⟩
  · exact nomatch h

theorem fillItem_spec {s : Settings} (chans : Channels Node) {net : Node → Option NetPpm}
    {unmanaged : Finset Node} {p : Peer Node} {it : PoolItem Node}
    (hp : p ∈ peers s chans.rows) (h : fillItem s net unmanaged p = some it) :
    it.pr = p ∧ Item s chans.rows unmanaged it := by
  obtain ⟨np, hel, h⟩ := Option.bind_eq_some_iff.mp h
  obtain ⟨ppm, hrate, h⟩ := Option.bind_eq_some_iff.mp h
  obtain rfl := poolItem_spec h
  obtain ⟨hon, hman⟩ := eligible_spec hel
  obtain ⟨hdef, hppm⟩ := fillRate_spec hrate
  obtain ⟨hf, hmoney, -⟩ := peer_money chans hp
  obtain ⟨hcaps, hsum⟩ := distributeCaps_spec hf s.fillBand true hmoney
  exact ⟨rfl, hp, hon, hman, hppm, hdef, hcaps, hsum hdef⟩

theorem drainItem_spec {s : Settings} (chans : Channels Node) {net : Node → Option NetPpm}
    {unmanaged : Finset Node} {p : Peer Node} {it : PoolItem Node}
    (hp : p ∈ peers s chans.rows) (h : drainItem s net unmanaged p = some it) :
    it.pr = p ∧ Item s chans.rows unmanaged it := by
  obtain ⟨np, hel, h⟩ := Option.bind_eq_some_iff.mp h
  split at h
  · exact nomatch h
  obtain ⟨ppm, hrate, h⟩ := Option.bind_eq_some_iff.mp h
  obtain rfl := poolItem_spec h
  obtain ⟨hon, hman⟩ := eligible_spec hel
  obtain ⟨hdef, hppm⟩ := drainRate_spec hrate
  obtain ⟨hf, -, hmoney⟩ := peer_money chans hp
  obtain ⟨hcaps, hsum⟩ := distributeCaps_spec hf s.drainBand false hmoney
  exact ⟨rfl, hp, hon, hman, hppm, hdef, hcaps, hsum hdef⟩

/-- A fill candidate is not drained, whatever the bands. -/
theorem drainItem_of_fillItem {s : Settings} {net : Node → Option NetPpm}
    {unmanaged : Finset Node} {p : Peer Node} {it : PoolItem Node}
    (h : fillItem s net unmanaged p = some it) : drainItem s net unmanaged p = none := by
  obtain ⟨np, hel, h⟩ := Option.bind_eq_some_iff.mp h
  obtain ⟨ppm, hrate, -⟩ := Option.bind_eq_some_iff.mp h
  unfold drainItem
  rw [hel, Option.bind_some, hrate]
  rfl

theorem mem_fillPool {s : Settings} (chans : Channels Node) {net : Node → Option NetPpm}
    {unmanaged : Finset Node} {it : PoolItem Node}
    (h : it ∈ fillPool s chans.rows net unmanaged) :
    Item s chans.rows unmanaged it ∧ fillItem s net unmanaged it.pr = some it := by
  obtain ⟨p, hp, hit⟩ := List.mem_filterMap.mp h
  obtain ⟨rfl, hspec⟩ := fillItem_spec chans hp hit
  exact ⟨hspec, hit⟩

theorem mem_drainPool {s : Settings} (chans : Channels Node) {net : Node → Option NetPpm}
    {unmanaged : Finset Node} {it : PoolItem Node}
    (h : it ∈ drainPool s chans.rows net unmanaged) :
    Item s chans.rows unmanaged it ∧ drainItem s net unmanaged it.pr = some it := by
  obtain ⟨p, hp, hit⟩ := List.mem_filterMap.mp h
  obtain ⟨rfl, hspec⟩ := drainItem_spec chans hp hit
  exact ⟨hspec, hit⟩

/-- No peer is in both pools. -/
theorem pools_disjoint {s : Settings} (chans : Channels Node) {net : Node → Option NetPpm}
    {unmanaged : Finset Node} {d f : PoolItem Node}
    (hd : d ∈ drainPool s chans.rows net unmanaged)
    (hf : f ∈ fillPool s chans.rows net unmanaged) : d.pr.node ≠ f.pr.node := by
  intro hnode
  obtain ⟨hdi, hdrain⟩ := mem_drainPool chans hd
  obtain ⟨hfi, hfill⟩ := mem_fillPool chans hf
  have hpr : d.pr = f.pr := by
    rw [(mem_peers hdi.peer).1, (mem_peers hfi.peer).1, hnode]
  rw [hpr, drainItem_of_fillItem hfill] at hdrain
  exact nomatch hdrain

/-- A cap of an item is for a channel of its peer. -/
theorem Item.chan {s : Settings} {rows : List (Chan Node)} {unmanaged : Finset Node}
    {it : PoolItem Node} (h : Item s rows unmanaged it) {cap : ScidCap} (hc : cap ∈ it.caps) :
    ∃ c ∈ rows, c.node = it.pr.node ∧ c.scid = cap.scid := by
  obtain ⟨-, c, hmem, hscid⟩ := h.caps cap hc
  rw [peer_chans h.peer] at hmem
  obtain ⟨hrow, hnode⟩ := mem_chansOf.mp hmem
  exact ⟨c, hrow, hnode, hscid⟩

/-- An online peer has a channel that is. -/
theorem Item.connected {s : Settings} {rows : List (Chan Node)} {unmanaged : Finset Node}
    {it : PoolItem Node} (h : Item s rows unmanaged it) :
    ∃ c ∈ rows, c.node = it.pr.node ∧ c.online = true := by
  have hon := h.online
  rw [(mem_peers h.peer).1, byNode_eq] at hon
  obtain ⟨c, hmem, hc⟩ := List.any_eq_true.mp hon
  obtain ⟨hrow, hnode⟩ := mem_chansOf.mp hmem
  exact ⟨c, hrow, hnode, hc⟩

/-! ## The plan -/

/-- What a plan promises about its balances and its economics. -/
structure Sound (s : Settings) (rows : List (Chan Node)) (net : Node → Option NetPpm)
    (unmanaged : Finset Node) (p : Plan Node) : Prop where
  /-- what is moved leaves drain-pool peers and lands at fill-pool peers -/
  sources   : ∀ cap ∈ p.sourceCaps, ∃ it ∈ drainPool s rows net unmanaged,
    ∃ c ∈ rows, c.node = it.pr.node ∧ c.scid = cap.scid
  dests     : ∀ cap ∈ p.destCaps, ∃ it ∈ fillPool s rows net unmanaged,
    ∃ c ∈ rows, c.node = it.pr.node ∧ c.scid = cap.scid
  disjoint  : ∀ cap ∈ p.sourceCaps, ∀ cap' ∈ p.destCaps, cap.scid ≠ cap'.scid
  /-- every channel of the request is of a managed, connected peer -/
  managed   : ∀ cap ∈ p.sourceCaps ++ p.destCaps, ∀ c ∈ rows, c.scid = cap.scid →
    c.node ∉ unmanaged ∧ ∃ c' ∈ rows, c'.node = c.node ∧ c'.online = true
  /-- the request is covered by the deficits of each side -/
  drains_ge : 0 < p.requested ∧ p.requested ≤ (p.drains.map PoolItem.deficit).sum
  fills_ge  : p.requested ≤ (p.fills.map PoolItem.deficit).sum
  /-- one entry for each peer, with caps within its deficit -/
  drains    : p.drains ⊆ drainPool s rows net unmanaged ∧ (p.drains.map (·.pr.node)).Nodup
  fills     : p.fills ⊆ fillPool s rows net unmanaged ∧ (p.fills.map (·.pr.node)).Nodup
  caps_sum  : ∀ it ∈ p.drains ++ p.fills, (it.caps.map ScidCap.maxSat).sum ≤ it.deficit
  caps_min  : ∀ cap ∈ p.sourceCaps ++ p.destCaps, minCapSat ≤ cap.maxSat
  /-- any fill and any drain of the request earn the joint rate -/
  joint     : ∀ f ∈ p.fills, ∀ d ∈ p.drains, p.cut.joint.le (f.ppm.add d.ppm) = true
  floor     : p.floor.le p.cut.joint = true
  floor_eq  : s.floorAuto = false → p.floor = s.floorPpm

omit [LinearOrder Node] in
/-- A sorted pool of proper items is ranked. -/
theorem SortedBy.ranked {pool sorted : List (PoolItem Node)} (h : SortedBy pool sorted)
    (hppm : ∀ it ∈ pool, (Double.finite 0).lt it.ppm = true)
    (hdef : ∀ it ∈ pool, 0 < it.deficit) : Ranked sorted :=
  ⟨h.2, fun it hit => hppm it (h.1.mem_iff.mp hit), fun it hit => hdef it (h.1.mem_iff.mp hit)⟩

/-- Peer 1 is empty on our side; peer 2 is full on two channels. -/
def sampleChannels : Channels Nat where
  rows :=
    [ ⟨"1x1x1", 1, true, 1000000, 0⟩
    , ⟨"2x1x1", 2, false, 600000, 600000⟩
    , ⟨"2x2x2", 2, true, 400000, 400000⟩ ]
  scids := by decide
  cap_pos := by decide
  local_nn := by decide
  local_le := by decide
  cap_money := by decide

def sampleSettings : Settings where
  floorPpm := .finite 50
  fillBand := ⟨25, by norm_num, by norm_num⟩
  drainBand := ⟨75, by norm_num, by norm_num⟩
  floorAuto := true

/-- Peer 1 earns 60 ppm going out, peer 2 earns 40 ppm coming in. -/
def sampleNet : Nat → Option NetPpm
  | 1 => some ⟨none, some (.finite 60)⟩
  | 2 => some ⟨some (.finite 40), none⟩
  | _ => none

def sampleDraws : Draws Nat where
  fill  := fillPool sampleSettings sampleChannels.rows sampleNet ∅
  drain := drainPool sampleSettings sampleChannels.rows sampleNet ∅
  rung  := 0

end XRebalancer
