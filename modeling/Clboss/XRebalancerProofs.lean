import Clboss.DoubleProofs
import Mathlib.Data.Finset.Basic
import Mathlib.Data.List.Dedup
import Mathlib.Data.List.Sort

/-! # `Boss::Mod::XRebalancer` — the planner of matched cycles

    A cycle moves funds from peers that hold too much of them on our side (the
    DRAIN pool) to peers that hold too little (the FILL pool).  The planner
    joins the live channels into peers, computes how far each is from its band
    edge, sorts both pools by what their peers earn, and walks the matched
    volume up along both until the marginal pair earns less than the floor.

    Where the source leaves a choice (the order `std::sort` gives to equal
    elements, the rung the random engine draws) the choice is an argument. -/

namespace XRebalancer

/-! ## Channels and settings -/

/-- All the bitcoin there will ever be, in satoshis. -/
def maxMoney : Int := 21 * 10 ^ 14

/-- `Chan`: one `CHANNELD_NORMAL` channel. -/
structure Chan (Node : Type) where
  scid     : String
  node     : Node
  online   : Bool
  capSat   : Int
  localSat : Int
deriving DecidableEq

/-- What `build_chans` makes of `listpeerchannels`. -/
structure Channels (Node : Type) where
  rows      : List (Chan Node)
  /-- `lightningd` gives each channel a `short_channel_id` of its own -/
  scids     : (rows.map Chan.scid).Nodup
  /-- `build_chans` skips channels without capacity -/
  cap_pos   : ∀ c ∈ rows, 0 < c.capSat
  /-- our share of a channel is a part of it -/
  local_nn  : ∀ c ∈ rows, 0 ≤ c.localSat
  local_le  : ∀ c ∈ rows, c.localSat ≤ c.capSat
  /-- the channels hold bitcoin -/
  cap_money : (rows.map Chan.capSat).sum ≤ maxMoney

/-- A band edge, in percent. -/
structure Band where
  pct     : ℚ
  nonneg  : 0 ≤ pct
  le_cent : pct ≤ 100

/-- How `handle_option` stores a band: clamped, and only if it is finite. -/
def Band.ofOption : Double → Option Band
  | .finite v =>
      some (if h : v < 0 then ⟨0, by norm_num, by norm_num⟩
        else if h' : 100 < v then ⟨100, by norm_num, by norm_num⟩
        else ⟨v, not_lt.mp h, not_lt.mp h'⟩)
  | _ => none

/-- The settings a plan reads. -/
structure Settings where
  floorPpm  : Double
  fillBand  : Band
  drainBand : Band
  floorAuto : Bool

/-- `NetPpm`; a side is absent without forwards in the window. -/
structure NetPpm where
  inNet  : Option Double
  outNet : Option Double

/-! ## Peers -/

/-- `Peer`: the aggregate over the peer's channels. -/
structure Peer (Node : Type) where
  node        : Node
  chans       : List (Chan Node)
  capSat      : Int
  localSat    : Int
  online      : Bool
  pctLocal    : Double
  tgtFillSat  : Int
  tgtDrainSat : Int
deriving DecidableEq

variable {Node : Type} [LinearOrder Node]

/-- A fresh entry of `by_node`. -/
def Peer.empty (node : Node) : Peer Node := ⟨node, [], 0, 0, false, .finite 0, 0, 0⟩

/-- Add a channel to its peer. -/
def Peer.add (p : Peer Node) (c : Chan Node) : Peer Node := { p with
  node     := c.node
  chans    := p.chans ++ [c]
  capSat   := p.capSat + c.capSat
  localSat := p.localSat + c.localSat
  online   := p.online || c.online }

/-- The peer `by_node[node]` after all channels are added. -/
def byNode (rows : List (Chan Node)) (node : Node) : Peer Node :=
  (rows.filter (fun c => c.node = node)).foldl Peer.add (Peer.empty node)

/-- `std::int64_t(double(sat) * band / 100.0)`. -/
def bandEdge (sat : Int) (band : Band) : Int :=
  (((Double.ofInt sat).mul (.finite band.pct)).div (.finite 100)).toInt64

/-- The peer's deficits aim at the band edges. -/
def Peer.aim (s : Settings) (p : Peer Node) : Peer Node := { p with
  pctLocal    := ((Double.mul (.finite 100) (.ofInt p.localSat)).div (.ofInt p.capSat))
  tgtFillSat  := max 0 (bandEdge p.capSat s.fillBand - p.localSat)
  tgtDrainSat := max 0 (p.localSat - bandEdge p.capSat s.drainBand) }

/-- `peers`, in the order of the map. -/
def peers (s : Settings) (rows : List (Chan Node)) : List (Peer Node) :=
  ((((rows.map Chan.node).dedup.insertionSort (· ≤ ·)).map (byNode rows)).filter
    (fun p => 0 < p.capSat)).map (Peer.aim s)

/-! ## Caps -/

/-- `ScidCap`: the most a cycle may move through a channel. -/
structure ScidCap where
  scid   : String
  maxSat : Int
deriving DecidableEq

/-- `min_cap_sat`. -/
def minCapSat : Int := 1000

/-- `h[i]`: how far the channel is past the band edge. -/
def headroom (band : Band) (fillSide : Bool) (c : Chan Node) : Int :=
  max 0 (if fillSide then bandEdge c.capSat band - c.localSat
    else c.localSat - bandEdge c.capSat band)

/-- `total`. -/
def totalHeadroom (band : Band) (fillSide : Bool) (chans : List (Chan Node)) : Double :=
  chans.foldl (fun total c => total.add (.ofInt (headroom band fillSide c))) (.finite 0)

/-- The cap of one channel, if it is worth having. -/
def channelCap (band : Band) (fillSide : Bool) (deficitSat : Int) (total : Double)
    (c : Chan Node) : Option ScidCap :=
  let h := headroom band fillSide c
  if h ≤ 0 then none
  else
    let cap := (((Double.ofInt deficitSat).mul (.ofInt h)).div total).toInt64
    if cap < minCapSat then none else some ⟨c.scid, cap⟩

/-- `distribute_caps`. -/
def distributeCaps (p : Peer Node) (band : Band) (fillSide : Bool) (deficitSat : Int) :
    List ScidCap :=
  let total := totalHeadroom band fillSide p.chans
  if total.le (.finite 0) ∨ deficitSat ≤ 0 then []
  else p.chans.filterMap (channelCap band fillSide deficitSat total)

/-! ## Pools -/

/-- `PoolItem`. -/
structure PoolItem (Node : Type) where
  pr      : Peer Node
  ppm     : Double
  deficit : Int
  caps    : List ScidCap
deriving DecidableEq

/-- An item is only made for a peer with caps. -/
def poolItem (p : Peer Node) (ppm : Double) (deficit : Int) (caps : List ScidCap) :
    Option (PoolItem Node) :=
  if caps = [] then none else some ⟨p, ppm, deficit, caps⟩

/-- `p.pct_local <= fill_band && np.has_out && ...`: the rate of a fill candidate. -/
def fillRate (s : Settings) (p : Peer Node) (np : NetPpm) : Option Double :=
  if p.pctLocal.le (.finite s.fillBand.pct) ∧ 0 < p.tgtFillSat then
    np.outNet.filter (fun r => (Double.finite 0).lt r)
  else none

/-- The rate of a drain candidate. -/
def drainRate (s : Settings) (p : Peer Node) (np : NetPpm) : Option Double :=
  if (Double.finite s.drainBand.pct).le p.pctLocal ∧ 0 < p.tgtDrainSat then
    np.inNet.filter (fun r => (Double.finite 0).lt r)
  else none

/-- Online, managed and with a record. -/
def eligible (net : Node → Option NetPpm) (unmanaged : Finset Node) (p : Peer Node) :
    Option NetPpm :=
  if p.online = false then none
  else if p.node ∈ unmanaged then none
  else net p.node

/-- The peer's item in the fill pool. -/
def fillItem (s : Settings) (net : Node → Option NetPpm) (unmanaged : Finset Node)
    (p : Peer Node) : Option (PoolItem Node) :=
  (eligible net unmanaged p).bind (fun np =>
    (fillRate s p np).bind (fun ppm =>
      poolItem p ppm p.tgtFillSat (distributeCaps p s.fillBand true p.tgtFillSat)))

/-- The peer's item in the drain pool; a fill candidate has none. -/
def drainItem (s : Settings) (net : Node → Option NetPpm) (unmanaged : Finset Node)
    (p : Peer Node) : Option (PoolItem Node) :=
  (eligible net unmanaged p).bind (fun np =>
    if (fillRate s p np).isSome then none
    else (drainRate s p np).bind (fun ppm =>
      poolItem p ppm p.tgtDrainSat (distributeCaps p s.drainBand false p.tgtDrainSat)))

/-- `fill`, before it is sorted. -/
def fillPool (s : Settings) (rows : List (Chan Node)) (net : Node → Option NetPpm)
    (unmanaged : Finset Node) : List (PoolItem Node) :=
  (peers s rows).filterMap (fillItem s net unmanaged)

/-- `drain`, before it is sorted. -/
def drainPool (s : Settings) (rows : List (Chan Node)) (net : Node → Option NetPpm)
    (unmanaged : Finset Node) : List (PoolItem Node) :=
  (peers s rows).filterMap (drainItem s net unmanaged)

/-- What `std::sort` by falling `ppm` may make of `pool`. -/
def SortedBy (pool sorted : List (PoolItem Node)) : Prop :=
  sorted.Perm pool ∧ sorted.Pairwise (fun a b => a.ppm.lt b.ppm = false)

instance (pool sorted : List (PoolItem Node)) : Decidable (SortedBy pool sorted) :=
  inferInstanceAs (Decidable (_ ∧ _))

/-! ## The curve -/

/-- `cum`: cumulative deficit and marginal rate, starting from `acc`. -/
def cum (acc : Int) : List (PoolItem Node) → List (Int × Double)
  | []         => []
  | it :: pool => (acc + it.deficit, it.ppm) :: cum (acc + it.deficit) pool

/-- `threshold_at`. -/
def thresholdAt (target : Int) : List (Int × Double) → Double
  | []     => .finite (-1)
  | e :: c => if target ≤ e.1 then e.2 else thresholdAt target c

/-- `CurvePoint`. -/
structure CurvePoint where
  n        : Int
  fillPpm  : Double
  drainPpm : Double
  joint    : Double
deriving DecidableEq

/-- `bps`: every cumulative volume on either side, sorted, without duplicates. -/
def breakpoints (fc dc : List (Int × Double)) : List Int :=
  ((fc.map Prod.fst ++ dc.map Prod.fst).insertionSort (· ≤ ·)).destutter (· ≠ ·)

/-- `curve`: up to where one side is exhausted. -/
def curve (fc dc : List (Int × Double)) : List Int → List CurvePoint
  | []       => []
  | n :: bps =>
      let f := thresholdAt n fc
      let d := thresholdAt n dc
      if f.lt (.finite 0) ∨ d.lt (.finite 0) then []
      else ⟨n, f, d, f.add d⟩ :: curve fc dc bps

/-! ## The floor ladder -/

/-- `LADDER_RATIO`. -/
def ladderRatio : Double := .ofRat (16 / 10)

/-- `NOISE_PPM`. -/
def noisePpm : Double := .ofRat 10

/-- `MIN_GAP`. -/
def minGap : Double := .ofRat (125 / 100)

/-- The length of the first stretch of `curve` with both sides above the noise. -/
def usefulLength (curve : List CurvePoint) : Nat :=
  (curve.takeWhile (fun pt => noisePpm.le pt.fillPpm && noisePpm.le pt.drainPpm)).length

/-- `useful_idx`. -/
def usefulIdx (curve : List CurvePoint) : Nat := usefulLength curve - 1

/-- The loop `for (t = ceiling_joint; t > useful_joint; t /= LADDER_RATIO)`, with
    `fuel` rounds at most. -/
def targets (usefulJoint : Double) : Nat → Double → Option (List Double)
  | 0, _        => none
  | fuel + 1, t =>
      if usefulJoint.lt t then
        (targets usefulJoint fuel (t.div ladderRatio)).map (t :: ·)
      else some []

/-- Snap a target to the row a floor of `tgt` would select. -/
def snap (first : CurvePoint) (rows : List CurvePoint) (tgt : Double) : CurvePoint :=
  (rows.takeWhile (fun pt => tgt.le pt.joint)).getLast?.getD first

/-- One target of the ladder loop. -/
def addRung (first : CurvePoint) (rows : List CurvePoint)
    (st : List CurvePoint × Double) (tgt : Double) : List CurvePoint × Double :=
  let pick := snap first rows tgt
  if st.1.any (fun p => p.n = pick.n) then st
  else if (Double.finite 0).lt st.2 ∧ (st.2.div minGap).lt pick.joint then st
  else (st.1 ++ [pick], pick.joint)

/-- `derive_ladder`. -/
def deriveLadder (fuel : Nat) : List CurvePoint → Option (List CurvePoint)
  | []            => some []
  | first :: rest =>
      let rows := (first :: rest).take (usefulIdx (first :: rest) + 1)
      let useful := rows.getLast?.getD first
      (targets useful.joint fuel first.joint).map (fun ts =>
        let ladder :=
          ((ts ++ [useful.joint]).foldl (addRung first rows) ([], .finite (-1))).1
        if ladder.any (fun p => p.n = useful.n) then ladder else ladder ++ [useful])

/-! ## The plan -/

/-- What is left to chance. -/
structure Draws (Node : Type) where
  /-- `fill` and `drain` as `std::sort` leaves them -/
  fill  : List (PoolItem Node)
  drain : List (PoolItem Node)
  /-- the rung drawn -/
  rung  : Nat

/-- `effective_floor`. -/
def effectiveFloor (s : Settings) (ladder : List CurvePoint) (rung : Nat) : Option Double :=
  if s.floorAuto ∧ ladder ≠ [] then (ladder[rung]?).map CurvePoint.joint
  else some s.floorPpm

/-- The loop that selects the cut, starting from `best`. -/
def selectCut (floor : Double) (best : CurvePoint) : List CurvePoint → CurvePoint
  | []          => best
  | pt :: curve => if floor.le pt.joint then selectCut floor pt curve else best

/-- `pick`: the peers accumulated to reach `bestN`, starting from `acc`. -/
def pick (bestN acc : Int) : List (PoolItem Node) → List (PoolItem Node)
  | []         => []
  | it :: pool => if bestN ≤ acc then [] else it :: pick bestN (acc + it.deficit) pool

/-- A cycle that is executed. -/
structure Plan (Node : Type) where
  floor   : Double
  cut     : CurvePoint
  fills   : List (PoolItem Node)
  drains  : List (PoolItem Node)
deriving DecidableEq

/-- `source_caps`. -/
def Plan.sourceCaps (p : Plan Node) : List ScidCap := p.drains.flatMap PoolItem.caps

/-- `dest_caps`. -/
def Plan.destCaps (p : Plan Node) : List ScidCap := p.fills.flatMap PoolItem.caps

/-- `requested`. -/
def Plan.requested (p : Plan Node) : Int := p.cut.n

/-- `maxfee`. -/
def Plan.maxfee (p : Plan Node) : UInt32 := UInt32.ofInt p.cut.joint.llround

/-- `plan_and_log` for a matched cycle: the plan it executes, if any. -/
def planMatched (s : Settings) (rows : List (Chan Node)) (net : Node → Option NetPpm)
    (unmanaged : Finset Node) (fuel : Nat) (d : Draws Node) : Option (Plan Node) :=
  if SortedBy (fillPool s rows net unmanaged) d.fill
      ∧ SortedBy (drainPool s rows net unmanaged) d.drain then
    if d.fill = [] ∨ d.drain = [] then none
    else
      let fc := cum 0 d.fill
      let dc := cum 0 d.drain
      let points := curve fc dc (breakpoints fc dc)
      (deriveLadder fuel points).bind (fun ladder =>
        (effectiveFloor s ladder d.rung).bind (fun floor =>
          let cut := selectCut floor ⟨0, .finite 0, .finite 0, .finite 0⟩ points
          if cut.n ≤ 0 then none
          else some ⟨floor, cut, pick cut.n 0 d.fill, pick cut.n 0 d.drain⟩))
  else none

/-- An entry of the `xrebalance` call, in millisatoshis. -/
structure Entry where
  scid    : String
  maxMsat : UInt64

/-- The parameters of the `xrebalance` call. -/
structure Request where
  sources      : List Entry
  destinations : List Entry
  amountMsat   : UInt64
  maxfeePpm    : UInt64
  maxparts     : UInt32

/-- `execute_cycle`, up to the call. -/
def executeCycle (maxparts : UInt32) (p : Plan Node) : Request where
  sources      := p.sourceCaps.map (fun c => ⟨c.scid, UInt64.ofInt c.maxSat * 1000⟩)
  destinations := p.destCaps.map (fun c => ⟨c.scid, UInt64.ofInt c.maxSat * 1000⟩)
  amountMsat   := UInt64.ofInt p.requested * 1000
  maxfeePpm    := p.maxfee.toUInt64
  maxparts     := maxparts

end XRebalancer
