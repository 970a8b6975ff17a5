import Clboss.XRebalancerCycleProofs

/-! # XRebalancer — what a demand cycle offers

    Traffic that leaves a channel asks for it to be filled again.  The cycle fills
    the PEER of that channel, if it is a fill candidate, by its whole deficit, from
    the top of the drain pool: a third rung offers few premium sources at a rich
    budget, the first offers most of the pool at a lean one.

    The pool is sorted by falling rate, so the last source offered is the cheapest,
    and the budget that is computed from it is one that EVERY source offered earns
    together with the target (`planDemand_budget`). -/

namespace XRebalancer

open Double

variable {Node : Type} [LinearOrder Node]

/-! ## Items of the pools -/

/-- What makes an item of the fill pool. -/
theorem fillItem_eq {s : Settings} {net : Node → Option NetPpm} {unmanaged : Finset Node}
    {p : Peer Node} {it : PoolItem Node} (h : fillItem s net unmanaged p = some it) :
    it = ⟨p, it.ppm, p.tgtFillSat, distributeCaps p s.fillBand true p.tgtFillSat⟩ := by
  obtain ⟨np, -, h⟩ := Option.bind_eq_some_iff.mp h
  obtain ⟨ppm, -, h⟩ := Option.bind_eq_some_iff.mp h
  obtain rfl := poolItem_spec h
  rfl

/-- What makes an item of the drain pool. -/
theorem drainItem_eq {s : Settings} {net : Node → Option NetPpm} {unmanaged : Finset Node}
    {p : Peer Node} {it : PoolItem Node} (h : drainItem s net unmanaged p = some it) :
    it = ⟨p, it.ppm, p.tgtDrainSat, distributeCaps p s.drainBand false p.tgtDrainSat⟩ := by
  obtain ⟨np, -, h⟩ := Option.bind_eq_some_iff.mp h
  split at h
  · exact nomatch h
  obtain ⟨ppm, -, h⟩ := Option.bind_eq_some_iff.mp h
  obtain rfl := poolItem_spec h
  rfl

/-- A channel belongs to one peer, so to one item of a pool. -/
theorem fillPool_unique {s : Settings} (chans : Channels Node) {net : Node → Option NetPpm}
    {unmanaged : Finset Node} {it it' : PoolItem Node} {scid : String}
    (hit : it ∈ fillPool s chans.rows net unmanaged)
    (hit' : it' ∈ fillPool s chans.rows net unmanaged)
    (h : ∃ c ∈ it.pr.chans, c.scid = scid) (h' : ∃ c ∈ it'.pr.chans, c.scid = scid) :
    it = it' := by
  obtain ⟨hspec, hfill⟩ := mem_fillPool chans hit
  obtain ⟨hspec', hfill'⟩ := mem_fillPool chans hit'
  obtain ⟨c, hc, hscid⟩ := h
  obtain ⟨c', hc', hscid'⟩ := h'
  rw [peer_chans hspec.peer] at hc
  rw [peer_chans hspec'.peer] at hc'
  obtain ⟨hrow, hnode⟩ := mem_chansOf.mp hc
  obtain ⟨hrow', hnode'⟩ := mem_chansOf.mp hc'
  have hsame : c = c' := List.inj_on_of_nodup_map chans.scids hrow hrow' (hscid.trans hscid'.symm)
  have hpr : it.pr = it'.pr := by
    rw [(mem_peers hspec.peer).1, (mem_peers hspec'.peer).1, ← hnode, ← hnode', hsame]
  rw [hpr, hfill'] at hfill
  exact (Option.some.inj hfill).symm

/-! ## The plan of a demand cycle -/

omit [LinearOrder Node] in
/-- **SPEC** of `plan_demand`. -/
theorem planDemand_spec {fill drain : List (PoolItem Node)} {scid : String} {rung : Double}
    {d : Demand Node} (h : planDemand fill drain scid rung = some d) :
    d.target ∈ fill ∧ (∃ c ∈ d.target.pr.chans, c.scid = scid)
      ∧ d.sources <+: drain
      ∧ ∃ cheapest, d.sources.getLast? = some cheapest
          ∧ d.maxfee = UInt32.ofInt (d.target.ppm.add cheapest.ppm).llround := by
  obtain ⟨target, hfind, h⟩ := Option.bind_eq_some_iff.mp h
  obtain ⟨cheapest, hlast, rfl⟩ := Option.map_eq_some_iff.mp h
  have hchan := List.find?_some hfind
  obtain ⟨c, hc, hscid⟩ := List.any_eq_true.mp hchan
  exact ⟨List.mem_of_find?_eq_some hfind, ⟨c, hc, of_decide_eq_true hscid⟩,
    List.take_prefix _ _, cheapest, hlast, rfl⟩

omit [LinearOrder Node] in
/-- The last of a ranked pool is the cheapest. -/
theorem Ranked.le_of_getLast {pool : List (PoolItem Node)} (h : Ranked pool)
    {cheapest it : PoolItem Node} (hlast : pool.getLast? = some cheapest) (hit : it ∈ pool) :
    cheapest.ppm.le it.ppm = true := by
  obtain ⟨before, rfl⟩ := List.getLast?_eq_some_iff.mp hlast
  have hmem : cheapest ∈ before ++ [cheapest] := by simp
  refine le_of_not_lt (h.ppm_pos cheapest hmem) (h.ppm_pos it hit) ?_
  rcases List.mem_append.mp hit with hbefore | hself
  · exact (List.pairwise_append.mp h.sorted).2.2 it hbefore cheapest (List.mem_singleton_self _)
  · rw [List.mem_singleton.mp hself]
    -- no double is less than itself
    unfold Double.lt
    cases cheapest.ppm with
    | finite q => exact decide_eq_false (lt_irrefl q)
    | posInf => rfl
    | negInf => rfl
    | nan => rfl

omit [LinearOrder Node] in
theorem Ranked.of_isPrefix {pool front : List (PoolItem Node)} (h : Ranked pool)
    (hfront : front <+: pool) : Ranked front :=
  ⟨h.sorted.sublist hfront.sublist, fun it hit => h.ppm_pos it (hfront.subset hit),
    fun it hit => h.deficit it (hfront.subset hit)⟩

omit [LinearOrder Node] in
/-- **EVERY SOURCE EARNS THE BUDGET**, together with the target. -/
theorem planDemand_budget {target : PoolItem Node} {sources : List (PoolItem Node)}
    {cheapest it : PoolItem Node} (htarget : (Double.finite 0).lt target.ppm = true)
    (h : Ranked sources) (hlast : sources.getLast? = some cheapest) (hit : it ∈ sources) :
    (target.ppm.add cheapest.ppm).le (target.ppm.add it.ppm) = true := by
  have hmem : cheapest ∈ sources := List.mem_of_getLast? hlast
  have hself : target.ppm.le target.ppm = true := by
    rcases pos_cases htarget with ⟨q, hq, -⟩ | hq
    · rw [hq]
      exact decide_eq_true le_rfl
    · rw [hq]
      rfl
  exact add_le_add htarget (h.ppm_pos cheapest hmem) hself (h.le_of_getLast hlast hit)

/-! ## Amounts of the request -/

/-- An amount of bitcoin is multiplied without overflow. -/
theorem toNat_msat {sat : ℤ} (h0 : 0 ≤ sat) (h : sat ≤ maxMoney) :
    ((UInt64.ofInt sat * 1000).toNat : ℤ) = 1000 * sat := by
  obtain ⟨n, rfl⟩ := Int.eq_ofNat_of_zero_le h0
  have hmax : maxMoney = 2100000000000000 := rfl
  have hn : n ≤ 2100000000000000 := by omega
  have hof : (UInt64.ofInt (n : ℤ)).toNat = n := by
    show (UInt64.ofNat ((n : ℤ) % 2 ^ 64).toNat).toNat = n
    rw [UInt64.toNat_ofNat']
    omega
  have hthousand : (1000 : UInt64).toNat = 1000 := by decide
  rw [UInt64.toNat_mul, hof, hthousand]
  omega

/-- Caps within an amount of bitcoin are each within it. -/
theorem cap_le_sum {caps : List ScidCap} (h : ∀ cap ∈ caps, minCapSat ≤ cap.maxSat) {cap : ScidCap}
    (hcap : cap ∈ caps) : cap.maxSat ≤ (caps.map ScidCap.maxSat).sum := by
  refine List.single_le_sum ?_ _ (List.mem_map_of_mem hcap)
  intro x hx
  obtain ⟨cap', hcap', rfl⟩ := List.mem_map.mp hx
  have hmin := h cap' hcap'
  have hpos : minCapSat = 1000 := rfl
  omega

/-- The entry of the request asks for just the cap. -/
theorem entry_exact {s : Settings} (chans : Channels Node) {unmanaged : Finset Node}
    {it : PoolItem Node} (h : Item s chans.rows unmanaged it) (hmoney : it.deficit ≤ maxMoney)
    {cap : ScidCap} (hcap : cap ∈ it.caps) :
    ((UInt64.ofInt cap.maxSat * 1000).toNat : ℤ) = 1000 * cap.maxSat := by
  have hmin := (h.caps cap hcap).1
  have hle := cap_le_sum (fun cap hcap => (h.caps cap hcap).1) hcap
  have hsum := h.sum
  have hpos : minCapSat = 1000 := rfl
  exact toNat_msat (by omega) (by omega)

/-! ## The cycle -/

/-- What a demand cycle for the channel `scid` promises, `sorted` being the drain pool as sorted. -/
structure DemandSound (s : Settings) (rows : List (Chan Node)) (net : Node → Option NetPpm)
    (unmanaged : Finset Node) (maxparts : UInt32) (scid : String) (sorted : List (PoolItem Node))
    (d : Demand Node) : Prop where
  /-- the channel belongs to a peer in the fill pool, and to no other -/
  target    : d.target ∈ fillPool s rows net unmanaged
  trigger   : ∃ c ∈ d.target.pr.chans, c.scid = scid
  only      : ∀ it ∈ fillPool s rows net unmanaged, (∃ c ∈ it.pr.chans, c.scid = scid) →
    it = d.target
  /-- what is filled is the peer's deficit, through all its capped channels -/
  deficit   : d.target.deficit = d.target.pr.tgtFillSat
  amount    : (((Job.demand d).request maxparts).amountMsat.toNat : ℤ) = 1000 * d.target.pr.tgtFillSat
  caps      : d.target.caps = distributeCaps d.target.pr s.fillBand true d.target.pr.tgtFillSat
  dests     : ((Job.demand d).request maxparts).destinations.map
      (fun e => (e.scid, (e.maxMsat.toNat : ℤ))) = d.target.caps.map (fun c => (c.scid, 1000 * c.maxSat))
  /-- it comes from the top of the drain pool, through all capped channels there -/
  sortedBy  : SortedBy (drainPool s rows net unmanaged) sorted
  nonempty  : d.sources ≠ []
  isPrefix  : d.sources <+: sorted
  drainCaps : ∀ it ∈ d.sources,
    it.caps = distributeCaps it.pr s.drainBand false it.pr.tgtDrainSat
  sources   : ((Job.demand d).request maxparts).sources.map
      (fun e => (e.scid, (e.maxMsat.toNat : ℤ)))
    = (d.sources.flatMap PoolItem.caps).map (fun c => (c.scid, 1000 * c.maxSat))
  /-- no channel is on both sides -/
  disjoint  : ∀ e ∈ ((Job.demand d).request maxparts).sources,
    ∀ e' ∈ ((Job.demand d).request maxparts).destinations, e.scid ≠ e'.scid
  /-- the budget is what the target earns with the cheapest source offered, and only rounded;
      every source offered earns as much with the target -/
  budget    : ∃ cheapest ∈ d.sources, (∀ it ∈ d.sources, cheapest.ppm.le it.ppm = true)
    ∧ ((Job.demand d).request maxparts).maxfeePpm.toNat
      = (UInt32.ofInt (d.target.ppm.add cheapest.ppm).llround).toNat
    ∧ ∀ it ∈ d.sources,
      (d.target.ppm.add cheapest.ppm).le (d.target.ppm.add it.ppm) = true

/-- How a demand cycle comes about. -/
theorem planAndLog_demand {s : Settings} {rows : List (Chan Node)} {net : Node → Option NetPpm}
    {scid : String} {unmanaged : Finset Node} {fuel : Nat} {draws : Draws Node} {job : Job Node}
    (hscid : scid ≠ "") (h : planAndLog s rows net scid unmanaged fuel draws = some (.execute job)) :
    SortedBy (fillPool s rows net unmanaged) draws.fill
      ∧ SortedBy (drainPool s rows net unmanaged) draws.drain
      ∧ ∃ rung d, planDemand draws.fill draws.drain scid rung = some d ∧ job = .demand d := by
  unfold planAndLog at h
  split at h
  · rename_i hsorted
    split at h
    · cases h
    · obtain ⟨rung, -, h⟩ := Option.map_eq_some_iff.mp h
      rcases hplan : planDemand draws.fill draws.drain scid rung with _ | d
      · rw [hplan] at h
        cases h
      · rw [hplan] at h
        cases h
        exact ⟨hsorted.1, hsorted.2, rung, d, hplan, rfl⟩
  · cases h

/-- **HEADLINE**: a demand cycle is run only for a peer of the fill pool, and keeps what it
    promises. -/
theorem demand_cycle_sound {s : Settings} (chans : Channels Node) {net : Node → Option NetPpm}
    {scid : String} {unmanaged : Finset Node} {fuel : Nat} {draws : Draws Node} {job : Job Node}
    (maxparts : UInt32) (hscid : scid ≠ "")
    (h : planAndLog s chans.rows net scid unmanaged fuel draws = some (.execute job)) :
    ∃ d, job = .demand d
      ∧ DemandSound s chans.rows net unmanaged maxparts scid draws.drain d := by
  obtain ⟨hfill, hdrain, rung, d, hplan, rfl⟩ := planAndLog_demand hscid h
  obtain ⟨htarget, htrigger, hfront, cheapest, hlast, hmaxfee⟩ := planDemand_spec hplan
  have htargetPool := hfill.1.mem_iff.mp htarget
  obtain ⟨htargetItem, htargetFill⟩ := mem_fillPool chans htargetPool
  have htargetEq := fillItem_eq htargetFill
  have hdeficit : d.target.deficit = d.target.pr.tgtFillSat := congrArg PoolItem.deficit htargetEq
  obtain ⟨-, hmoney, -⟩ := peer_money chans htargetItem.peer
  have hsources : ∀ it ∈ d.sources, it ∈ drainPool s chans.rows net unmanaged :=
    fun it hit => hdrain.1.mem_iff.mp (hfront.subset hit)
  have hranked : Ranked d.sources :=
    (hdrain.ranked (fun it hit => (mem_drainPool chans hit).1.ppm_pos)
      (fun it hit => (mem_drainPool chans hit).1.deficit)).of_isPrefix hfront
  refine ⟨d, rfl, ?_⟩
  constructor
  case target => exact htargetPool
  case trigger => exact htrigger
  case only => exact fun it hit hc => fillPool_unique chans hit htargetPool hc htrigger
  case deficit => exact hdeficit
  case amount =>
    show ((UInt64.ofInt d.target.deficit * 1000).toNat : ℤ) = _
    rw [hdeficit]
    exact toNat_msat (hdeficit ▸ htargetItem.deficit.le) hmoney
  case caps => exact congrArg PoolItem.caps htargetEq
  case dests =>
    show (d.target.caps.map (fun c => (⟨c.scid, UInt64.ofInt c.maxSat * 1000⟩ : Entry))).map _ = _
    rw [List.map_map]
    refine List.map_congr_left (fun cap hcap => ?_)
    exact congrArg (Prod.mk cap.scid) (entry_exact chans htargetItem (hdeficit ▸ hmoney) hcap)
  case sortedBy => exact hdrain
  case nonempty =>
    rintro hnil
    rw [hnil] at hlast
    cases hlast
  case isPrefix => exact hfront
  case drainCaps =>
    exact fun it hit => congrArg PoolItem.caps (drainItem_eq (mem_drainPool chans (hsources it hit)).2)
  case sources =>
    show ((d.sources.flatMap PoolItem.caps).map
      (fun c => (⟨c.scid, UInt64.ofInt c.maxSat * 1000⟩ : Entry))).map _ = _
    rw [List.map_map]
    refine List.map_congr_left (fun cap hcap => ?_)
    obtain ⟨it, hit, hcap⟩ := List.mem_flatMap.mp hcap
    obtain ⟨hitem, hitDrain⟩ := mem_drainPool chans (hsources it hit)
    have hitDeficit : it.deficit = it.pr.tgtDrainSat :=
      congrArg PoolItem.deficit (drainItem_eq hitDrain)
    obtain ⟨-, -, hitMoney⟩ := peer_money chans hitem.peer
    exact congrArg (Prod.mk cap.scid) (entry_exact chans hitem (hitDeficit ▸ hitMoney) hcap)
  case disjoint =>
    intro e he e' he' hsame
    obtain ⟨cap, hcap, rfl⟩ := List.mem_map.mp he
    obtain ⟨cap', hcap', rfl⟩ := List.mem_map.mp he'
    obtain ⟨it, hit, hcap⟩ := List.mem_flatMap.mp hcap
    obtain ⟨c, hc, hnode, hcscid⟩ := (mem_drainPool chans (hsources it hit)).1.chan hcap
    obtain ⟨c', hc', hnode', hcscid'⟩ := htargetItem.chan hcap'
    have hcc : c = c' :=
      List.inj_on_of_nodup_map chans.scids hc hc' ((hcscid.trans hsame).trans hcscid'.symm)
    refine pools_disjoint chans (hsources it hit) htargetPool ?_
    rw [← hnode, ← hnode', hcc]
  case budget =>
    refine ⟨cheapest, List.mem_of_getLast? hlast, ?_, ?_, ?_⟩
    · exact fun it hit => hranked.le_of_getLast hlast hit
    · show d.maxfee.toUInt64.toNat = _
      rw [hmaxfee, UInt32.toNat_toUInt64]
    · exact fun it hit => planDemand_budget htargetItem.ppm_pos hranked hlast hit

/-- Traffic left the empty channel of the sample, and the full peer refills it. -/
theorem demand_cycle_sound_sample : ∃ d : Demand Nat,
    planAndLog sampleSettings sampleChannels.rows sampleNet "1x1x1" ∅ 0 sampleDraws
      = some (.execute (.demand d))
    ∧ d.maxfee = 100
    ∧ DemandSound sampleSettings sampleChannels.rows sampleNet ∅ 80 "1x1x1" sampleDraws.drain d := by
  have hsorted : SortedBy (fillPool sampleSettings sampleChannels.rows sampleNet ∅) sampleDraws.fill
      ∧ SortedBy (drainPool sampleSettings sampleChannels.rows sampleNet ∅) sampleDraws.drain := by
    decide +kernel
  have hpools : ¬(sampleDraws.fill = [] ∨ sampleDraws.drain = []) := by decide +kernel
  have hfee : (planDemand sampleDraws.fill sampleDraws.drain "1x1x1" (.finite 20)).map
      Demand.maxfee = some 100 := by decide +kernel
  obtain ⟨d, hplan, hmaxfee⟩ := Option.map_eq_some_iff.mp hfee
  have hlog : planAndLog sampleSettings sampleChannels.rows sampleNet "1x1x1" ∅ 0 sampleDraws
      = some (.execute (.demand d)) := by
    have hrung : rungPct[sampleDraws.rung]? = some (.finite 20) := rfl
    unfold planAndLog
    rw [if_pos hsorted, if_neg hpools, if_pos (by decide), hrung, Option.map_some, hplan]
  obtain ⟨d', hd', hsound⟩ := demand_cycle_sound sampleChannels 80 (by decide) hlog
  cases hd'
  exact ⟨d, hlog, hmaxfee, hsound⟩

end XRebalancer