import Clboss.BucketProofs
import Clboss.CarpenterProofs
import Clboss.EvMapProofs
import Mathlib.Data.List.Sort

/-! # ChannelCreator — from the candidates to the planner

    A cycle of channel creation hands its candidates through four stages: those
    with a channel are dropped, each three are put in the order of their
    capacities, all of them in the order of how crowded their address bins are,
    and all of them again by their track record.  Every stage asks others, some
    of them many at once, and takes the answers as they come.

    What a stage makes of its list is a PERMUTATION of it, the first one apart;
    the second one does not move a proposal out of its three (`InGroups`), the
    third is a stable sort (`Reprioritized`), and the fourth a partition that
    keeps the order (`Tiered`).  Nothing of this depends on the order in which
    the answers come: the maps keep them by place (`EvMap.Going`), the tally of
    the bins counts, and the proposals are asked for one after the other. -/

namespace CreationPipeline

open Ln Jsmn Machine

/-! ## The code -/

/-- A node, and the patron it was proposed with. -/
abbrev Proposal := NodeId × NodeId

/-- What a lookup fails with. -/
inductive Exc where
  | rpcError
  | failure (f : Failure)
  | other
deriving DecidableEq

/-- `Net::IPAddr`: `is_ipv4`, and `raw_data`. -/
structure IPAddr where
  isIpv4  : Bool
  rawData : List UInt8

/-- `Net::IPAddrOrOnion`. -/
inductive IPAddrOrOnion where
  | ip (addr : IPAddr)
  | onion (onion : List UInt8)

/-- `Net::IPBin`. -/
abbrev IPBin := UInt64

/-- The keys of a `std::map`. -/
scoped instance binOrder : LinearOrder IPBin where
  le_refl          := UInt64.le_refl
  le_trans _ _ _   := UInt64.le_trans
  le_antisymm _ _  := UInt64.le_antisymm
  le_total         := UInt64.le_total
  lt_iff_le_not_ge _ _ := by
    rw [UInt64.not_le]
    exact ⟨fun h => ⟨UInt64.le_of_lt h, h⟩, fun h => h.2⟩
  toDecidableLE    := inferInstance
  toDecidableEq    := inferInstance

/-- `IPBinnerBySubnet::get_bin_of`. -/
def IPBinnerBySubnet.getBinOf (ip : IPAddr) : IPBin :=
  (List.range (if ip.isIpv4 then 2 else 3)).foldl
    (fun rv i => rv <<< 8 + ((ip.rawData[i]?).getD 0).toUInt64) 0

inductive TrackRecordVerdict where
  | keeper
  | noRecord
  | underperformer
deriving DecidableEq

/-- `std::sort` of proposals by their capacities, largest first. -/
structure Sorting where
  sort   : List (Proposal × Amount) → List (Proposal × Amount)
  perm   : ∀ l, (sort l).Perm l
  sorted : ∀ l, (sort l).Pairwise (fun a b => a.2.lt b.2 = false)

/-- Sorting is possible. -/
def Sorting.insertion : Sorting where
  sort l   := l.insertionSort (fun a b => a.2.lt b.2 = false)
  perm l   := List.perm_insertionSort _ l
  sorted l := by
    have htotal : Std.Total (fun a b : Proposal × Amount => a.2.lt b.2 = false) :=
      ⟨fun a b => by
        simp only [Amount.lt, decide_eq_false_iff_not, UInt64.not_lt]
        exact UInt64.le_total _ _⟩
    have htrans : IsTrans (Proposal × Amount) (fun a b => a.2.lt b.2 = false) :=
      ⟨fun a b c hab hbc => by
        simp only [Amount.lt, decide_eq_false_iff_not, UInt64.not_lt] at hab hbc ⊢
        exact UInt64.le_trans hbc hab⟩
    exact List.pairwise_insertionSort _ l

/-- What the pipeline is constructed with: the binner of IP addresses, the first byte of
    the salted hash of an onion, and the sort of the standard library. -/
structure Tools where
  binner    : IPAddr → IPBin
  tweakHash : List UInt8 → UInt8
  sorting   : Sorting

/-- `Net::get_bin_of_onion`. -/
def getBinOfOnion (tweakHash : List UInt8 → UInt8) (onion : List UInt8) : IPBin :=
  0xFFFFFFFFFFFFFFFC + (tweakHash onion &&& 3).toUInt64

/-- `get_bin_of`, from what `get_node_addr` says. -/
def Tools.getBinOf (w : Tools) : Option IPAddrOrOnion → IPBin
  | none                => 0
  | some (.onion onion) => getBinOfOnion w.tweakHash onion
  | some (.ip ip)       => w.binner ip

/-- `Ln::feature_bit`. -/
def featureBit (featuresHex : List UInt8) (bit : ℕ) : Bool :=
  match Util.Str.hexread featuresHex with
  | .error _  => false
  | .ok bytes =>
      if bit / 8 ≥ bytes.length then false
      else bytes.getD (bytes.length - 1 - bit / 8) 0 >>> UInt8.ofNat (bit % 8) &&& 1 ≠ 0

/-- What an answer of `listnodes` says of splicing. -/
def announcesSplice (res : Object) : Except Failure Bool := do
  let ns ← res.index "nodes"
  if (← ns.size) = 0 then return false
  let n ← ns.nth 0
  if !(← n.has "features") then return false
  let f ← (← n.index "features").str
  return featureBit f 62 || featureBit f 63

/-- `lookup` of `get_spliceable_nodes`. -/
def lookupSpliceable (n : NodeId) : Except Exc Object → Except Exc (NodeId × Bool)
  | .ok res =>
      match announcesSplice res with
      | .ok spliceable    => .ok (n, spliceable)
      | .error .typeError => .ok (n, false)
      | .error .assertion => .error (.failure .assertion)
  | .error .rpcError => .ok (n, false)
  | .error x         => .error x

/-- `func` of `rearrange_by_size`, after the dowser. -/
def measure (p : Proposal) (r : Except Exc Amount) : Except Exc (Proposal × Amount) :=
  r.map (fun a => (p, a))

/-- `update_bin` of the Reprioritizer, after the lookup: the bin to count. -/
def Tools.updateBin (w : Tools) (n : NodeId) (r : Except Exc (Option IPAddrOrOnion)) :
    Except Exc (NodeId × IPBin) :=
  r.map (fun addr => (n, w.getBinOf addr))

/-- The sorts of `rearrange_by_size`, `group_by` = 3 at a time. -/
def sortGroups (sort : List (Proposal × Amount) → List (Proposal × Amount)) :
    List (Proposal × Amount) → List (Proposal × Amount)
  | a :: b :: c :: rest => sort [a, b, c] ++ sortGroups sort rest
  | rest                => sort rest

/-- The verdict on a node; without a record there is none. -/
def verdict (records : OrderedMap NodeId TrackRecordVerdict) (n : NodeId) : TrackRecordVerdict :=
  (records.find n).getD .noRecord

/-- The proposals whose nodes got the verdict. -/
def tier (records : OrderedMap NodeId TrackRecordVerdict) (v : TrackRecordVerdict)
    (proposals : List Proposal) : List Proposal :=
  proposals.filter (fun p => verdict records p.1 = v)

/-- `std::stable_partition`. -/
def stablePartition {α : Type} (p : α → Bool) (l : List α) : List α :=
  l.filter p ++ l.filter (fun a => !p a)

/-- Where a cycle is. -/
inductive Stage where
  /-- `drop_channeled` awaits `listpeerchannels`. -/
  | dropping (proposals : List Proposal)
  /-- `rearrange_by_size` is in `Ev::map`. -/
  | rearranging (map : EvMap.State Proposal (Proposal × Amount) Exc)
  /-- The Reprioritizer awaits `get_peers`, … -/
  | peers (origProposals : List Proposal)
  /-- … is in `Ev::foreach`, … -/
  | counting (origProposals : List Proposal) (nodesPerBin : OrderedMap IPBin ℕ)
      (map : EvMap.State NodeId (NodeId × IPBin) Exc)
  /-- … or in `get_bin_of` the first proposal that is left. -/
  | reprioritizing (nodesPerBin : OrderedMap IPBin ℕ)
      (nodesPerBinsize : OrderedMap ℕ (List Proposal)) (left : List Proposal)
  /-- `prioritize_by_track_record` awaits the records, … -/
  | records (proposals : List Proposal)
  /-- … or is in `get_spliceable_nodes`. -/
  | splicing (keepers noRecords underperformers : List Proposal)
      (map : EvMap.State NodeId (NodeId × Bool) Exc)
  | ended

structure State where
  preferSpliceable : Bool
  stage            : Stage

def start (preferSpliceable : Bool) (candidates : List Proposal) : State :=
  ⟨preferSpliceable, .dropping candidates⟩

/-- What is answered; one of many lookups is an event of their map, with the node whose
    lookup it is about. -/
inductive Event where
  | listpeerchannels (r : Except Exc Object)
  | dowser (e : EvMap.Event Amount Exc)
  | getPeers (r : Except Exc (List NodeId))
  | peerAddr (n : Option NodeId) (e : EvMap.Event (Option IPAddrOrOnion) Exc)
  | proposalAddr (r : Except Exc (Option IPAddrOrOnion))
  | trackRecord (r : Except Exc (OrderedMap NodeId TrackRecordVerdict))
  | listnodes (n : Option NodeId) (e : EvMap.Event Object Exc)
  /-- `clboss-candidate-prefer-spliceable` is set. -/
  | option (prefer : Bool)

/-- What is learned, and what the stages make of it. -/
inductive Output where
  /-- The peers with a channel; without them the cycle is emptied. -/
  | channeled (peers : Option (List NodeId))
  | kept (proposals : List Proposal)
  | measured (p : Proposal) (a : Amount)
  | rearranged (proposals : List Proposal)
  | peers (ns : List NodeId)
  | peerBin (n : NodeId) (bin : IPBin)
  | proposalBin (p : Proposal) (bin : IPBin)
  | reprioritized (proposals : List Proposal)
  /-- The records, and the preference when they were read. -/
  | judged (records : OrderedMap NodeId TrackRecordVerdict) (prefer : Bool)
  | flag (n : NodeId) (spliceable : Bool)
  /-- What the planner gets. -/
  | planned (proposals : List Proposal)
  | failed (x : Exc)
  | abandoned (x : Exc)

/-- An exception nobody catches. -/
def abandon (x : Exc) : Stage × List Output := (.ended, [.failed x, .abandoned x])

/-- `drop_channeled`. -/
def dropChanneled (proposals : List Proposal) (r : Except Exc Object) : Stage × List Output :=
  match r with
  | .ok res =>
      match ChanneledPeers.channeledPeers res with
      | .ok channeled =>
          let kept := proposals.filter (fun p => p.1 ∉ channeled)
          (.rearranging (EvMap.create kept), [.channeled (some channeled), .kept kept])
      | .error f => abandon (.failure f)
  | .error .rpcError =>
      (.rearranging (EvMap.create []), [.channeled none, .kept []])
  | .error x => abandon x

/-- What one lookup of many told. -/
def learned {B : Type} (told : B → Output) : Option (ℕ × Except Exc B) → List Output
  | none               => []
  | some (_, .ok b)    => [told b]
  | some (_, .error x) => [.failed x]

/-- Going on after a map. -/
def afterMap {B : Type} (going : Stage) (next : List B → Stage × List Output) :
    Option (Except Exc (List B)) → Stage × List Output
  | none            => (going, [])
  | some (.ok bs)   => next bs
  | some (.error x) => (.ended, [.abandoned x])

/-- `rearrange_by_size`, after the map. -/
def rearranged (w : Tools) (capacities : List (Proposal × Amount)) : Stage × List Output :=
  let ret := (sortGroups w.sorting.sort capacities).map Prod.fst
  (.peers ret, [.rearranged ret])

/-- The beginning of `prioritize_by_track_record`. -/
def prioritize (proposals : List Proposal) : Stage × List Output :=
  if proposals = [] then (.ended, [.planned proposals]) else (.records proposals, [])

/-- `reprioritize_loop`, with `build_final_proposals`. -/
def reprioritizeLoop (nodesPerBin : OrderedMap IPBin ℕ)
    (nodesPerBinsize : OrderedMap ℕ (List Proposal)) : List Proposal → Stage × List Output
  | []      =>
      let final := nodesPerBinsize.concat
      let (stage, out) := prioritize final
      (stage, .reprioritized final :: out)
  | p :: ps => (.reprioritizing nodesPerBin nodesPerBinsize (p :: ps), [])

/-- The count of a bin that was looked up. -/
def counted (nodesPerBin : OrderedMap IPBin ℕ) :
    Option (ℕ × Except Exc (NodeId × IPBin)) → OrderedMap IPBin ℕ
  | some (_, .ok (_, bin)) => nodesPerBin.increment bin
  | _                      => nodesPerBin

/-- `reprioritize_step`. -/
def reprioritizeStep (nodesPerBin : OrderedMap IPBin ℕ)
    (nodesPerBinsize : OrderedMap ℕ (List Proposal)) (p : Proposal) (left : List Proposal)
    (bin : IPBin) : Stage × List Output :=
  let binsize := (nodesPerBin.find bin).getD 0
  let (stage, out) := reprioritizeLoop (nodesPerBin.increment bin)
    (nodesPerBinsize.push binsize p) left
  (stage, .proposalBin p bin :: out)

/-- `prioritize_by_track_record`, with the records. -/
def judge (prefer : Bool) (records : OrderedMap NodeId TrackRecordVerdict)
    (proposals : List Proposal) : Stage × List Output :=
  let noRecords := tier records .noRecord proposals
  let nodes := if prefer then noRecords.map Prod.fst else []
  (.splicing (tier records .keeper proposals) noRecords (tier records .underperformer proposals)
    (EvMap.create nodes), [.judged records prefer])

/-- `prioritize_by_track_record`, with the flags; their `true`s are the set. -/
def plan (keepers noRecords underperformers : List Proposal) (flags : List (NodeId × Bool)) :
    Stage × List Output :=
  let noRecords := stablePartition (fun p => decide ((p.1, true) ∈ flags)) noRecords
  (.ended, [.planned (keepers ++ noRecords ++ underperformers)])

def Stage.step (w : Tools) (prefer : Bool) : Stage → Event → Option (Stage × List Output)
  | .dropping proposals, .listpeerchannels r => some (dropChanneled proposals r)
  | .rearranging map, .dowser e => do
      let (map, fin, ret) ← map.feed measure e
      let (stage, out) := afterMap (.rearranging map) (rearranged w) ret
      return (stage, learned (fun c => .measured c.1 c.2) fin ++ out)
  | .peers orig, .getPeers r =>
      match r with
      | .ok ns   => some (.counting orig .empty (EvMap.create ns), [.peers ns])
      | .error x => some (abandon x)
  | .counting orig nodesPerBin map, .peerAddr n e =>
      if map.asked e = n then do
        let (map, fin, ret) ← map.feed w.updateBin e
        let nodesPerBin := counted nodesPerBin fin
        let (stage, out) := afterMap (.counting orig nodesPerBin map)
          (fun _ => reprioritizeLoop nodesPerBin .empty orig) ret
        return (stage, learned (fun b => .peerBin b.1 b.2) fin ++ out)
      else none
  | .reprioritizing nodesPerBin nodesPerBinsize (p :: left), .proposalAddr r =>
      match r with
      | .ok addr => some (reprioritizeStep nodesPerBin nodesPerBinsize p left (w.getBinOf addr))
      | .error x => some (abandon x)
  | .records proposals, .trackRecord r =>
      match r with
      | .ok rs   => some (judge prefer rs proposals)
      | .error x => some (abandon x)
  | .splicing keepers noRecords underperformers map, .listnodes n e =>
      if map.asked e = n then do
        let (map, fin, ret) ← map.feed lookupSpliceable e
        let (stage, out) := afterMap (.splicing keepers noRecords underperformers map)
          (plan keepers noRecords underperformers) ret
        return (stage, learned (fun f => .flag f.1 f.2) fin ++ out)
      else none
  | _, _ => none

def step (w : Tools) (s : State) : Event → Option (State × List Output)
  | .option prefer => some (⟨prefer, s.stage⟩, [])
  | e => do
      let (stage, out) ← s.stage.step w s.preferSpliceable e
      return (⟨s.preferSpliceable, stage⟩, out)

/-! ## What reaches the planner -/

/-- What the stages say of themselves. -/
def Output.inJournal : Output → Bool
  | .measured _ _ | .peerBin _ _ | .proposalBin _ _ | .flag _ _ | .failed _ | .abandoned _ => false
  | _ => true

def Output.ofPeer : Output → Option (NodeId × IPBin)
  | .peerBin n bin => some (n, bin)
  | _              => none

def Output.ofProposal : Output → Option (Proposal × IPBin)
  | .proposalBin p bin => some (p, bin)
  | _                  => none

def Output.ofFlag : Output → Option (NodeId × Bool)
  | .flag n spliceable => some (n, spliceable)
  | _                  => none

def journal (tr : List Output) : List Output := tr.filter Output.inJournal
def peerBins (tr : List Output) : List (NodeId × IPBin) := tr.filterMap Output.ofPeer
def proposalBins (tr : List Output) : List (Proposal × IPBin) := tr.filterMap Output.ofProposal
def flags (tr : List Output) : List (NodeId × Bool) := tr.filterMap Output.ofFlag

/-- The candidates without a channel, or none if nobody could say. -/
def Dropped (candidates : List Proposal) : Option (List NodeId) → List Proposal → Prop
  | some channeled, kept => kept = candidates.filter (fun p => p.1 ∉ channeled)
  | none,           kept => kept = []

/-- Nobody leaves his three. -/
def InGroups {α : Type} (l l' : List α) : Prop :=
  ∀ k, ((l'.drop (3 * k)).take 3).Perm ((l.drop (3 * k)).take 3)

/-- Each proposal with how many of those before it are in its bin. -/
def sharing : List IPBin → List (Proposal × IPBin) → List (Proposal × ℕ)
  | _,    []                  => []
  | bins, (p, bin) :: binned => (p, bins.count bin) :: sharing (bins ++ [bin]) binned

/-- Every peer and every proposal was binned, and the proposals are in the order of how many
    peers and proposals before them share their bins. -/
structure Reprioritized (peers : List NodeId) (peerBins : List (NodeId × IPBin))
    (proposalBins : List (Proposal × IPBin)) (l l' : List Proposal) : Prop where
  peers     : (peerBins.map Prod.fst).Perm peers
  proposals : proposalBins.map Prod.fst = l
  sorted    : StablySorted (sharing (peerBins.map Prod.snd) proposalBins) l'

/-- Keepers, those without a record, underperformers; in the second tier the spliceable ones
    first, if that is preferred and by what was asked of each of them.  An empty list is not
    judged. -/
def Tiered (flags : List (NodeId × Bool)) (l l' : List Proposal) :
    Option (OrderedMap NodeId TrackRecordVerdict × Bool) → Prop
  | none => l = [] ∧ l' = []
  | some (records, prefer) =>
      let keepers := l.filter (fun p => records.find p.1 = some .keeper)
      let underperformers := l.filter (fun p => records.find p.1 = some .underperformer)
      let noRecords := l.filter (fun p =>
        records.find p.1 ≠ some .keeper ∧ records.find p.1 ≠ some .underperformer)
      let spliceable := noRecords.filter (fun p => (p.1, true) ∈ flags)
      let others := noRecords.filter (fun p => (p.1, true) ∉ flags)
      l' = keepers ++ (if prefer then spliceable ++ others else noRecords) ++ underperformers
        ∧ (flags.map Prod.fst).Perm (if prefer then noRecords.map Prod.fst else [])

/-- The stages, one after the other, and what each of them made of its list. -/
def Funneled (candidates : List Proposal) (tr : List Output) (planned : List Proposal) : Prop :=
  ∃ channeled kept rearranged peers reprioritized judged,
    journal tr = [.channeled channeled, .kept kept, .rearranged rearranged, .peers peers,
        .reprioritized reprioritized] ++ (judged.map fun j => Output.judged j.1 j.2).toList
          ++ [.planned planned]
      ∧ planned.Perm kept
      ∧ Dropped candidates channeled kept
      ∧ InGroups kept rearranged
      ∧ Reprioritized peers (peerBins tr) (proposalBins tr) rearranged reprioritized
      ∧ Tiered (flags tr) reprioritized planned judged

/-! ## Lists -/

theorem sortGroups_perm {sort : List (Proposal × Amount) → List (Proposal × Amount)}
    (hsort : ∀ l, (sort l).Perm l) (l : List (Proposal × Amount)) :
    (sortGroups sort l).Perm l := by
  fun_induction sortGroups sort l with
  | case1 a b c rest ih => exact (hsort [a, b, c]).append ih
  | case2 rest _        => exact hsort rest

/-- The groups are sorted each for itself. -/
theorem sortGroups_inGroups {sort : List (Proposal × Amount) → List (Proposal × Amount)}
    (hsort : ∀ l, (sort l).Perm l) (l : List (Proposal × Amount)) :
    InGroups l (sortGroups sort l) := by
  fun_induction sortGroups sort l with
  | case1 a b c rest ih =>
      have hlength : (sort [a, b, c]).length = 3 := (hsort [a, b, c]).length_eq
      intro k
      cases k with
      | zero =>
          rw [Nat.mul_zero, List.drop_zero, List.drop_zero, List.take_left' hlength]
          exact hsort [a, b, c]
      | succ k =>
          have hdrop : (sort [a, b, c] ++ sortGroups sort rest).drop (3 * (k + 1))
              = (sortGroups sort rest).drop (3 * k) := by
            rw [show 3 * (k + 1) = 3 + 3 * k by omega, ← List.drop_drop,
              List.drop_left' hlength]
          rw [hdrop]
          exact ih k
  | case2 rest hrest =>
      have hshort : rest.length < 3 := by
        rcases rest with _ | ⟨a, _ | ⟨b, _ | ⟨c, rest⟩⟩⟩
        · exact Nat.succ_pos _
        · exact Nat.succ_lt_succ (Nat.succ_pos _)
        · exact Nat.succ_lt_succ (Nat.succ_lt_succ (Nat.succ_pos _))
        · exact absurd rfl (hrest a b c rest)
      have hlength := (hsort rest).length_eq
      intro k
      cases k with
      | zero =>
          rw [Nat.mul_zero, List.drop_zero, List.drop_zero, List.take_of_length_le (by omega),
            List.take_of_length_le (by omega)]
          exact hsort rest
      | succ k =>
          rw [List.drop_eq_nil_of_le (by omega), List.drop_eq_nil_of_le (by omega)]

theorem InGroups.map {α β : Type} {l l' : List α} (h : InGroups l l') (f : α → β) :
    InGroups (l.map f) (l'.map f) := by
  intro k
  rw [← List.map_drop, ← List.map_take, ← List.map_drop, ← List.map_take]
  exact (h k).map f

/-- One more proposal shares with all before it. -/
theorem sharing_snoc (bins : List IPBin) (binned : List (Proposal × IPBin)) (p : Proposal)
    (bin : IPBin) : sharing bins (binned ++ [(p, bin)])
      = sharing bins binned ++ [(p, (bins ++ binned.map Prod.snd).count bin)] := by
  induction binned generalizing bins with
  | nil => simp [sharing]
  | cons b binned ih =>
      obtain ⟨q, bin'⟩ := b
      simp only [List.cons_append, sharing, ih (bins ++ [bin']), List.map_cons,
        List.append_assoc, List.nil_append]

theorem map_fst_sharing (bins : List IPBin) (binned : List (Proposal × IPBin)) :
    (sharing bins binned).map Prod.fst = binned.map Prod.fst := by
  induction binned generalizing bins with
  | nil => rfl
  | cons b binned ih =>
      obtain ⟨p, bin⟩ := b
      exact congrArg (p :: ·) (ih _)

theorem stablePartition_perm {α : Type} (p : α → Bool) (l : List α) :
    (stablePartition p l).Perm l := List.filter_append_perm p l

/-- Without a flag nobody goes first. -/
theorem stablePartition_false {α : Type} {p : α → Bool} {l : List α} (h : ∀ a ∈ l, p a = false) :
    stablePartition p l = l := by
  unfold stablePartition
  rw [List.filter_eq_nil_iff.mpr (fun a ha => by rw [h a ha]; exact Bool.false_ne_true),
    List.filter_eq_self.mpr (fun a ha => by rw [h a ha]; rfl), List.nil_append]

/-- The three tiers are everybody. -/
theorem tiers_perm (records : OrderedMap NodeId TrackRecordVerdict) (l : List Proposal) :
    (tier records .keeper l ++ tier records .noRecord l ++ tier records .underperformer l).Perm
      l := by
  induction l with
  | nil => exact List.Perm.refl _
  | cons p l ih =>
      unfold tier at ih ⊢
      cases hv : verdict records p.1 with
      | keeper =>
          simp only [List.filter_cons, hv, decide_true, reduceCtorEq, decide_false, if_true,
            Bool.false_eq_true, if_false]
          exact ih.cons p
      | noRecord =>
          simp only [List.filter_cons, hv, decide_true, reduceCtorEq, decide_false, if_true,
            Bool.false_eq_true, if_false]
          rw [List.append_assoc, List.cons_append]
          refine List.perm_middle.trans ?_
          rw [← List.append_assoc]
          exact ih.cons p
      | underperformer =>
          simp only [List.filter_cons, hv, decide_true, reduceCtorEq, decide_false, if_true,
            Bool.false_eq_true, if_false]
          exact List.perm_middle.trans (ih.cons p)

/-! ## The tiers -/

theorem tier_keeper (records : OrderedMap NodeId TrackRecordVerdict) (l : List Proposal) :
    tier records .keeper l = l.filter (fun p => records.find p.1 = some .keeper) := by
  refine List.filter_congr fun p _ => decide_eq_decide.mpr ?_
  unfold verdict
  cases records.find p.1 <;> simp

theorem tier_underperformer (records : OrderedMap NodeId TrackRecordVerdict) (l : List Proposal) :
    tier records .underperformer l
      = l.filter (fun p => records.find p.1 = some .underperformer) := by
  refine List.filter_congr fun p _ => decide_eq_decide.mpr ?_
  unfold verdict
  cases records.find p.1 <;> simp

/-- A node without a record has none that says anything of it. -/
theorem tier_noRecord (records : OrderedMap NodeId TrackRecordVerdict) (l : List Proposal) :
    tier records .noRecord l = l.filter (fun p =>
      records.find p.1 ≠ some .keeper ∧ records.find p.1 ≠ some .underperformer) := by
  refine List.filter_congr fun p _ => decide_eq_decide.mpr ?_
  unfold verdict
  cases records.find p.1 with
  | none   => simp
  | some v => cases v <;> simp

theorem tiered_of_tiers {flags : List (NodeId × Bool)} {l l' : List Proposal}
    {records : OrderedMap NodeId TrackRecordVerdict} {prefer : Bool}
    (h : l' = tier records .keeper l
      ++ (if prefer then stablePartition (fun p => decide ((p.1, true) ∈ flags))
            (tier records .noRecord l) else tier records .noRecord l)
      ++ tier records .underperformer l)
    (hflags : (flags.map Prod.fst).Perm
      (if prefer then (tier records .noRecord l).map Prod.fst else [])) :
    Tiered flags l l' (some (records, prefer)) := by
  rw [tier_keeper, tier_noRecord, tier_underperformer] at h
  rw [tier_noRecord] at hflags
  refine ⟨?_, hflags⟩
  unfold stablePartition at h
  simp only [decide_not]
  exact h

/-! ## How far a cycle has come -/

def Output.ofAbandoned : Output → Option Exc
  | .abandoned x => some x
  | _            => none

def abandoneds (tr : List Output) : List Exc := tr.filterMap Output.ofAbandoned

/-- What there is to read in the outputs. -/
structure Log (tr js : List Output) (ps : List (NodeId × IPBin)) (qs : List (Proposal × IPBin))
    (fs : List (NodeId × Bool)) (xs : List Exc) : Prop where
  journal      : journal tr = js
  peerBins     : peerBins tr = ps
  proposalBins : proposalBins tr = qs
  flags        : flags tr = fs
  abandoneds   : abandoneds tr = xs

/-- The journal of the first stage. -/
def KeptBy (candidates kept : List Proposal) (js : List Output) : Prop :=
  ∃ channeled, Dropped candidates channeled kept ∧ js = [.channeled channeled, .kept kept]

/-- … of the first two, … -/
def RearrangedBy (candidates l : List Proposal) (js : List Output) : Prop :=
  ∃ kept js', KeptBy candidates kept js' ∧ l.Perm kept ∧ InGroups kept l
    ∧ js = js' ++ [.rearranged l]

/-- … and of the first three. -/
def ReprioritizedBy (candidates : List Proposal) (ps : List (NodeId × IPBin))
    (qs : List (Proposal × IPBin)) (l' : List Proposal) (js : List Output) : Prop :=
  ∃ l ns js', RearrangedBy candidates l js' ∧ Reprioritized ns ps qs l l'
    ∧ js = js' ++ [.peers ns, .reprioritized l']

/-- A map whose results carry their elements, and whose failures were told. -/
structure Under {A C : Type} (tr : List Output) (as : List A) (rs : List (ℕ × Except Exc (A × C)))
    (map : EvMap.State A (A × C) Exc) : Prop where
  going   : EvMap.Going as rs map
  element : ∀ i b, (i, .ok b) ∈ rs → as[i]? = some b.1
  failed  : ∀ i x, (i, .error x) ∈ rs → .failed x ∈ tr

/-- The Reprioritizer is through with some proposals. -/
def Looping (candidates : List Proposal) (tr : List Output) (nodesPerBin : OrderedMap IPBin ℕ)
    (nodesPerBinsize : OrderedMap ℕ (List Proposal)) (left : List Proposal) : Prop :=
  ∃ ns ps qs l js, RearrangedBy candidates l js ∧ Log tr (js ++ [.peers ns]) ps qs [] []
    ∧ (ps.map Prod.fst).Perm ns ∧ l = qs.map Prod.fst ++ left
    ∧ nodesPerBin.Tally (ps.map Prod.snd ++ qs.map Prod.snd)
    ∧ nodesPerBinsize.Buckets (sharing (ps.map Prod.snd) qs)

/-- **INVARIANT**, of the stages. -/
def Stage.Inv (candidates : List Proposal) (tr : List Output) : Stage → Prop
  | .dropping proposals => proposals = candidates ∧ Log tr [] [] [] [] []
  | .rearranging map =>
      ∃ kept js rs, KeptBy candidates kept js ∧ Log tr js [] [] [] [] ∧ Under tr kept rs map
  | .peers l => ∃ js, RearrangedBy candidates l js ∧ Log tr js [] [] [] []
  | .counting l nodesPerBin map =>
      ∃ ns js rs, RearrangedBy candidates l js
        ∧ Log tr (js ++ [.peers ns]) (EvMap.passed rs) [] [] [] ∧ Under tr ns rs map
        ∧ nodesPerBin.Tally ((EvMap.passed rs).map Prod.snd)
  | .reprioritizing nodesPerBin nodesPerBinsize left =>
      left ≠ [] ∧ Looping candidates tr nodesPerBin nodesPerBinsize left
  | .records l =>
      l ≠ [] ∧ ∃ ps qs js, ReprioritizedBy candidates ps qs l js ∧ Log tr js ps qs [] []
  | .splicing keepers noRecords underperformers map =>
      ∃ l ps qs js records prefer rs, ReprioritizedBy candidates ps qs l js
        ∧ Log tr (js ++ [.judged records prefer]) ps qs (EvMap.passed rs) []
        ∧ keepers = tier records .keeper l ∧ noRecords = tier records .noRecord l
        ∧ underperformers = tier records .underperformer l
        ∧ Under tr (if prefer then noRecords.map Prod.fst else []) rs map
  | .ended => (∃ x, abandoneds tr = [x] ∧ .failed x ∈ tr ∧ ∀ p, .planned p ∉ tr)
      ∨ ∃ planned, abandoneds tr = [] ∧ Funneled candidates tr planned

variable {candidates : List Proposal} {tr out js js' : List Output}
  {ps ps' : List (NodeId × IPBin)} {qs qs' : List (Proposal × IPBin)}
  {fs fs' : List (NodeId × Bool)} {xs xs' : List Exc}

theorem Log.append (h : Log tr js ps qs fs xs) (h' : Log out js' ps' qs' fs' xs') :
    Log (tr ++ out) (js ++ js') (ps ++ ps') (qs ++ qs') (fs ++ fs') (xs ++ xs') where
  journal      := (List.filter_append ..).trans (congrArg₂ _ h.journal h'.journal)
  peerBins     := List.filterMap_append.trans (congrArg₂ _ h.peerBins h'.peerBins)
  proposalBins := List.filterMap_append.trans (congrArg₂ _ h.proposalBins h'.proposalBins)
  flags        := List.filterMap_append.trans (congrArg₂ _ h.flags h'.flags)
  abandoneds   := List.filterMap_append.trans (congrArg₂ _ h.abandoneds h'.abandoneds)

/-- Outputs of the stages themselves. -/
theorem Log.journaled (h : Log tr js ps qs fs []) (h' : Log out out [] [] [] []) :
    Log (tr ++ out) (js ++ out) ps qs fs [] := by
  have := h.append h'
  rwa [List.append_nil, List.append_nil, List.append_nil] at this

theorem mem_journal {o : Output} (h : o.inJournal = true) : o ∈ tr ↔ o ∈ journal tr := by
  unfold journal
  rw [List.mem_filter, and_iff_left h]

theorem KeptBy.unplanned {kept : List Proposal} (h : KeptBy candidates kept js)
    (p : List Proposal) : .planned p ∉ js := by
  obtain ⟨channeled, -, rfl⟩ := h
  simp

theorem RearrangedBy.unplanned {l : List Proposal} (h : RearrangedBy candidates l js)
    (p : List Proposal) : .planned p ∉ js := by
  obtain ⟨kept, js', hkept, -, -, rfl⟩ := h
  simpa using hkept.unplanned p

theorem ReprioritizedBy.unplanned {l' : List Proposal}
    (h : ReprioritizedBy candidates ps qs l' js) (p : List Proposal) : .planned p ∉ js := by
  obtain ⟨l, ns, js', hl, -, rfl⟩ := h
  simpa using hl.unplanned p

/-! ## One stage after the other -/

/-- The invariant, of a stage and what was put out on the way to it. -/
def Holds (candidates : List Proposal) (tr : List Output) (p : Stage × List Output) : Prop :=
  p.1.Inv candidates (tr ++ p.2)

/-- Somebody failed, and nobody has caught it. -/
theorem holds_abandoned {x : Exc} (h : Log tr js ps qs fs []) (hjs : ∀ p, .planned p ∉ js)
    (hfailed : .failed x ∈ tr) : Holds candidates tr (.ended, [.abandoned x]) := by
  have hlog := h.append (⟨rfl, rfl, rfl, rfl, rfl⟩ : Log [.abandoned x] [] [] [] [] [x])
  refine .inl ⟨x, hlog.abandoneds, List.mem_append_left _ hfailed, fun p hp => ?_⟩
  have hmem := (mem_journal rfl).mp hp
  rw [hlog.journal, List.append_nil] at hmem
  exact hjs p hmem

theorem holds_abandon {x : Exc} (h : Log tr js ps qs fs []) (hjs : ∀ p, .planned p ∉ js) :
    Holds candidates tr (abandon x) := by
  have hlog := h.append (⟨rfl, rfl, rfl, rfl, rfl⟩ : Log [.failed x] [] [] [] [] [])
  rw [List.append_nil, List.append_nil, List.append_nil, List.append_nil] at hlog
  have : Holds candidates (tr ++ [.failed x]) (.ended, [.abandoned x]) :=
    holds_abandoned hlog hjs (List.mem_append_right tr (List.mem_singleton_self _))
  unfold Holds at this ⊢
  rwa [List.append_assoc] at this

/-- **SPEC (drop_channeled)**. -/
theorem holds_dropChanneled (h : Log tr [] [] [] [] []) (r : Except Exc Object) :
    Holds candidates tr (dropChanneled candidates r) := by
  have hkeep : ∀ channeled kept, Dropped candidates channeled kept →
      Holds candidates tr
        (.rearranging (EvMap.create kept), [.channeled channeled, .kept kept]) := by
    intro channeled kept hdropped
    exact ⟨kept, _, [], ⟨channeled, hdropped, rfl⟩, h.journaled ⟨rfl, rfl, rfl, rfl, rfl⟩,
      EvMap.going_create kept, nofun, nofun⟩
  unfold dropChanneled
  split
  · split
    · exact hkeep (some _) _ rfl
    · exact holds_abandon h (fun _ => List.not_mem_nil)
  · exact hkeep none [] rfl
  · exact holds_abandon h (fun _ => List.not_mem_nil)

section Maps

variable {A C Y : Type} {as : List A} {rs : List (ℕ × Except Exc (A × C))}
  {map map' : EvMap.State A (A × C) Exc} {f : A → Except Exc Y → Except Exc (A × C)}
  {e : EvMap.Event Y Exc} {fin : Option (ℕ × Except Exc (A × C))}
  {ret : Option (Except Exc (List (A × C)))}

/-- **SPEC (feed)**: a map goes on, fails with what was told, or returns a result for each
    element. -/
theorem Under.feed (h : Under tr as rs map) (hf : ∀ a y b, f a y = .ok b → b.1 = a)
    (hs : map.feed f e = some (map', fin, ret)) (told : A × C → Output) :
    (ret = none → Under (tr ++ learned told fin) as (rs ++ fin.toList) map')
      ∧ (∀ x, ret = some (.error x) → .failed x ∈ tr ++ learned told fin)
      ∧ ∀ bs, ret = some (.ok bs) →
          bs.map Prod.fst = as ∧ (EvMap.passed (rs ++ fin.toList)).Perm bs := by
  obtain ⟨hfin, hnone, hsome⟩ := h.going.feed hs
  have helement : ∀ i b, (i, .ok b) ∈ rs ++ fin.toList → as[i]? = some b.1 := by
    intro i b hb
    rcases List.mem_append.mp hb with hb | hb
    · exact h.element i b hb
    · rcases hfin i _ (Option.mem_toList.mp hb) with ⟨a, y, ha, hb⟩ | ⟨x, hx⟩
      · rw [hf a y b hb.symm]
        exact ha
      · cases hx
  have hfailed : ∀ i x, (i, .error x) ∈ rs ++ fin.toList → .failed x ∈ tr ++ learned told fin := by
    intro i x hx
    rcases List.mem_append.mp hx with hx | hx
    · exact List.mem_append_left _ (h.failed i x hx)
    · rw [Option.mem_toList.mp hx]
      exact List.mem_append_right _ (List.mem_singleton_self _)
  refine ⟨fun hret => ⟨hnone hret, helement, hfailed⟩, fun x hx => ?_, fun bs hbs => ?_⟩
  · obtain ⟨-, i, hi⟩ := hsome _ hx
    exact hfailed i x hi
  · exact ⟨(hsome _ hbs).map_fst helement, (hsome _ hbs).perm⟩

/-- **SPEC (afterMap)**. -/
theorem holds_afterMap {going : Stage} {next : List (A × C) → Stage × List Output}
    (hgoing : ret = none → going.Inv candidates tr)
    (herror : ∀ x, ret = some (.error x) → Holds candidates tr (.ended, [.abandoned x]))
    (hnext : ∀ bs, ret = some (.ok bs) → Holds candidates tr (next bs)) :
    Holds candidates tr (afterMap going next ret) := by
  cases ret with
  | none =>
      show going.Inv candidates (tr ++ [])
      rw [List.append_nil]
      exact hgoing rfl
  | some r =>
      cases r with
      | ok bs   => exact hnext bs rfl
      | error x => exact herror x rfl

end Maps

theorem log_measured (fin : Option (ℕ × Except Exc (Proposal × Amount))) :
    Log (learned (fun c => .measured c.1 c.2) fin) [] [] [] [] [] := by
  rcases fin with _ | ⟨i, x | b⟩ <;> exact ⟨rfl, rfl, rfl, rfl, rfl⟩

theorem log_peerBin (fin : Option (ℕ × Except Exc (NodeId × IPBin))) :
    Log (learned (fun b => .peerBin b.1 b.2) fin) [] (EvMap.passed fin.toList) [] [] [] := by
  rcases fin with _ | ⟨i, x | b⟩ <;> exact ⟨rfl, rfl, rfl, rfl, rfl⟩

theorem log_flag (fin : Option (ℕ × Except Exc (NodeId × Bool))) :
    Log (learned (fun f => .flag f.1 f.2) fin) [] [] [] (EvMap.passed fin.toList) [] := by
  rcases fin with _ | ⟨i, x | b⟩ <;> exact ⟨rfl, rfl, rfl, rfl, rfl⟩

theorem measure_fst (p : Proposal) (y : Except Exc Amount) (b : Proposal × Amount)
    (h : measure p y = .ok b) : b.1 = p := by
  cases y <;> cases h
  rfl

theorem updateBin_fst (w : Tools) (n : NodeId) (y : Except Exc (Option IPAddrOrOnion))
    (b : NodeId × IPBin) (h : w.updateBin n y = .ok b) : b.1 = n := by
  cases y <;> cases h
  rfl

theorem lookupSpliceable_fst (n : NodeId) (y : Except Exc Object) (b : NodeId × Bool)
    (h : lookupSpliceable n y = .ok b) : b.1 = n := by
  unfold lookupSpliceable at h
  split at h
  · split at h <;> cases h <;> rfl
  · cases h
    rfl
  · cases h

/-- **SPEC (rearrange_by_size)**: whatever the capacities, each three stay together. -/
theorem holds_rearranged (w : Tools) {kept : List Proposal} {bs : List (Proposal × Amount)}
    (hkept : KeptBy candidates kept js) (h : Log tr js [] [] [] [])
    (hbs : bs.map Prod.fst = kept) : Holds candidates tr (rearranged w bs) := by
  refine ⟨_, ⟨kept, js, hkept, ?_, ?_, rfl⟩, h.journaled ⟨rfl, rfl, rfl, rfl, rfl⟩⟩
  · rw [← hbs]
    exact (sortGroups_perm w.sorting.perm bs).map _
  · rw [← hbs]
    exact (sortGroups_inGroups w.sorting.perm bs).map _

theorem RearrangedBy.perm {l : List Proposal} (h : RearrangedBy candidates l js) :
    ∃ channeled kept, Dropped candidates channeled kept ∧ l.Perm kept ∧ InGroups kept l
      ∧ js = [.channeled channeled, .kept kept, .rearranged l] := by
  obtain ⟨kept, _, ⟨channeled, hdropped, rfl⟩, hperm, hgroups, rfl⟩ := h
  exact ⟨channeled, kept, hdropped, hperm, hgroups, rfl⟩

theorem Reprioritized.perm {ns : List NodeId} {l l' : List Proposal}
    (h : Reprioritized ns ps qs l l') : l'.Perm l := by
  have hperm := h.sorted.perm
  rwa [map_fst_sharing, h.proposals] at hperm

/-- What reaches the planner is what the last stage made of the third one's list. -/
theorem funneled_of {l planned : List Proposal}
    (judged : Option (OrderedMap NodeId TrackRecordVerdict × Bool))
    (hl : ReprioritizedBy candidates ps qs l js)
    (h : Log tr (js ++ (judged.map fun j => Output.judged j.1 j.2).toList) ps qs fs [])
    (hperm : planned.Perm l) (htiered : Tiered fs l planned judged) :
    Holds candidates tr (.ended, [.planned planned]) := by
  have hlog := h.journaled (⟨rfl, rfl, rfl, rfl, rfl⟩ : Log [.planned planned] _ [] [] [] [])
  obtain ⟨l₀, ns, _, hl₀, hsorted, rfl⟩ := hl
  obtain ⟨channeled, kept, hdropped, hperm₀, hgroups, rfl⟩ := hl₀.perm
  refine .inr ⟨planned, hlog.abandoneds, channeled, kept, l₀, ns, l, judged, hlog.journal,
    hperm.trans (hsorted.perm.trans hperm₀), hdropped, hgroups, ?_, ?_⟩
  · rw [hlog.peerBins, hlog.proposalBins]
    exact hsorted
  · rw [hlog.flags]
    exact htiered

/-- **SPEC (prioritize_by_track_record)**, of its beginning: an empty list is passed on. -/
theorem holds_prioritize {l : List Proposal} (hl : ReprioritizedBy candidates ps qs l js)
    (h : Log tr js ps qs [] []) : Holds candidates tr (prioritize l) := by
  unfold prioritize
  split
  · rename_i hempty
    exact funneled_of none hl (by simpa using h) (List.Perm.refl l) ⟨hempty, hempty⟩
  · rename_i hl'
    refine ⟨hl', ps, qs, js, hl, ?_⟩
    rwa [List.append_nil]

/-- **SPEC (reprioritize_loop)**: at its end the buckets are a stable sort. -/
theorem holds_reprioritizeLoop {nodesPerBin : OrderedMap IPBin ℕ}
    {nodesPerBinsize : OrderedMap ℕ (List Proposal)} {left : List Proposal}
    (h : Looping candidates tr nodesPerBin nodesPerBinsize left) :
    Holds candidates tr (reprioritizeLoop nodesPerBin nodesPerBinsize left) := by
  cases left with
  | cons p left =>
      refine ⟨List.cons_ne_nil p left, ?_⟩
      show Looping candidates (tr ++ []) nodesPerBin nodesPerBinsize (p :: left)
      rwa [List.append_nil]
  | nil =>
      obtain ⟨ns, ps, qs, l, js, hl, hlog, hps, hqs, -, hbuckets⟩ := h
      have hsorted : Reprioritized ns ps qs l nodesPerBinsize.concat :=
        ⟨hps, by rw [hqs, List.append_nil], hbuckets.stablySorted⟩
      have hlog' := hlog.journaled
        (⟨rfl, rfl, rfl, rfl, rfl⟩ : Log [.reprioritized nodesPerBinsize.concat] _ [] [] [] [])
      rw [List.append_assoc] at hlog'
      have hprioritize := holds_prioritize ⟨l, ns, js, hl, hsorted, rfl⟩ hlog'
      unfold Holds at hprioritize ⊢
      rwa [List.append_assoc] at hprioritize

/-- **STEP (reprioritize_step)**: the bin size is the number of peers and proposals before. -/
theorem holds_reprioritizeStep {nodesPerBin : OrderedMap IPBin ℕ}
    {nodesPerBinsize : OrderedMap ℕ (List Proposal)} {p : Proposal} {left : List Proposal}
    (h : Looping candidates tr nodesPerBin nodesPerBinsize (p :: left)) (bin : IPBin) :
    Holds candidates tr (reprioritizeStep nodesPerBin nodesPerBinsize p left bin) := by
  obtain ⟨ns, ps, qs, l, js, hl, hlog, hps, hqs, htally, hbuckets⟩ := h
  have hlog' := hlog.append
    (⟨rfl, rfl, rfl, rfl, rfl⟩ : Log [.proposalBin p bin] [] [] [(p, bin)] [] [])
  rw [List.append_nil, List.append_nil] at hlog'
  have hloop : Looping candidates (tr ++ [.proposalBin p bin]) (nodesPerBin.increment bin)
      (nodesPerBinsize.push ((nodesPerBin.find bin).getD 0) p) left := by
    refine ⟨ns, ps, qs ++ [(p, bin)], l, js, hl, hlog', hps, ?_, ?_, ?_⟩
    · rw [hqs, List.map_append, List.append_assoc]
      rfl
    · rw [List.map_append, ← List.append_assoc]
      exact htally.increment bin
    · rw [sharing_snoc, htally bin]
      exact hbuckets.push _ p
  have hholds := holds_reprioritizeLoop hloop
  unfold Holds at hholds ⊢
  rwa [List.append_assoc] at hholds

/-- **SPEC (prioritize_by_track_record)**, of the records. -/
theorem holds_judge {l : List Proposal} (hl : ReprioritizedBy candidates ps qs l js)
    (h : Log tr js ps qs [] []) (prefer : Bool)
    (records : OrderedMap NodeId TrackRecordVerdict) :
    Holds candidates tr (judge prefer records l) :=
  ⟨l, ps, qs, js, records, prefer, [], hl, h.journaled ⟨rfl, rfl, rfl, rfl, rfl⟩, rfl, rfl, rfl,
    EvMap.going_create _, nofun, nofun⟩

/-- **SPEC (prioritize_by_track_record)**, of the flags. -/
theorem holds_plan {l : List Proposal} {records : OrderedMap NodeId TrackRecordVerdict}
    {prefer : Bool} {bs : List (NodeId × Bool)} (hl : ReprioritizedBy candidates ps qs l js)
    (h : Log tr (js ++ [.judged records prefer]) ps qs fs [])
    (hnodes : bs.map Prod.fst = if prefer then (tier records .noRecord l).map Prod.fst else [])
    (hperm : fs.Perm bs) :
    Holds candidates tr (plan (tier records .keeper l) (tier records .noRecord l)
      (tier records .underperformer l) bs) := by
  have hpartition := stablePartition_perm (fun p => decide ((p.1, true) ∈ bs))
    (tier records .noRecord l)
  refine funneled_of (some (records, prefer)) hl h ?_ (tiered_of_tiers ?_ ?_)
  · exact ((hpartition.append_left _).append_right _).trans (tiers_perm records l)
  · cases prefer with
    | true =>
        have hflags : ∀ p : Proposal, (p.1, true) ∈ bs ↔ (p.1, true) ∈ fs :=
          fun p => hperm.mem_iff.symm
        simp only [if_true, hflags]
    | false =>
        have hnone : bs = [] := List.map_eq_nil_iff.mp hnodes
        have hfirst : ∀ p ∈ tier records .noRecord l, decide ((p.1, true) ∈ bs) = false := by
          intro p _
          rw [hnone]
          rfl
        rw [stablePartition_false hfirst]
        rfl
  · rw [← hnodes]
    exact hperm.map _

/-! ## Runs -/

/-- What a lookup told, and what comes after it. -/
theorem holds_learned {p : Stage × List Output} (h : Holds candidates (tr ++ out) p) :
    Holds candidates tr (p.1, out ++ p.2) := by
  unfold Holds at h ⊢
  rwa [List.append_assoc] at h

/-- **STEP (rearrange_by_size)**. -/
theorem holds_rearranging {w : Tools} {map map' : EvMap.State Proposal (Proposal × Amount) Exc}
    {e : EvMap.Event Amount Exc} {fin : Option (ℕ × Except Exc (Proposal × Amount))}
    {ret : Option (Except Exc (List (Proposal × Amount)))}
    (h : (Stage.rearranging map).Inv candidates tr)
    (hfeed : map.feed measure e = some (map', fin, ret)) :
    Holds candidates (tr ++ learned (fun c => .measured c.1 c.2) fin)
      (afterMap (.rearranging map') (rearranged w) ret) := by
  obtain ⟨kept, js, rs, hkept, hlog, hunder⟩ := h
  have hlog' := hlog.append (log_measured fin)
  rw [List.append_nil] at hlog'
  obtain ⟨hgoing, herror, hreturned⟩ := hunder.feed measure_fst hfeed (fun c => .measured c.1 c.2)
  refine holds_afterMap (fun hret => ?_) (fun x hx => ?_) (fun bs hbs => ?_)
  · exact ⟨kept, js, _, hkept, hlog', hgoing hret⟩
  · exact holds_abandoned hlog' hkept.unplanned (herror x hx)
  · exact holds_rearranged w hkept hlog' (hreturned bs hbs).1

/-- A bin that was looked up is counted. -/
theorem tally_counted {nodesPerBin : OrderedMap IPBin ℕ}
    {rs : List (ℕ × Except Exc (NodeId × IPBin))}
    (h : nodesPerBin.Tally ((EvMap.passed rs).map Prod.snd))
    (fin : Option (ℕ × Except Exc (NodeId × IPBin))) :
    (counted nodesPerBin fin).Tally ((EvMap.passed (rs ++ fin.toList)).map Prod.snd) := by
  rw [EvMap.passed_append, List.map_append]
  rcases fin with _ | ⟨i, x | ⟨n, bin⟩⟩
  · simpa [counted, EvMap.passed] using h
  · simpa [counted, EvMap.passed, Except.toOption] using h
  · exact h.increment bin

/-- **STEP (core_run)**, of the Reprioritizer: a peer is binned, or all are. -/
theorem holds_counting {w : Tools} {l : List Proposal} {nodesPerBin : OrderedMap IPBin ℕ}
    {map map' : EvMap.State NodeId (NodeId × IPBin) Exc}
    {e : EvMap.Event (Option IPAddrOrOnion) Exc} {fin : Option (ℕ × Except Exc (NodeId × IPBin))}
    {ret : Option (Except Exc (List (NodeId × IPBin)))}
    (h : (Stage.counting l nodesPerBin map).Inv candidates tr)
    (hfeed : map.feed w.updateBin e = some (map', fin, ret)) :
    Holds candidates (tr ++ learned (fun b => .peerBin b.1 b.2) fin)
      (afterMap (.counting l (counted nodesPerBin fin) map')
        (fun _ => reprioritizeLoop (counted nodesPerBin fin) .empty l) ret) := by
  obtain ⟨ns, js, rs, hl, hlog, hunder, htally⟩ := h
  have hlog' := hlog.append (log_peerBin fin)
  rw [List.append_nil, ← EvMap.passed_append] at hlog'
  obtain ⟨hgoing, herror, hreturned⟩ := hunder.feed (updateBin_fst w) hfeed
    (fun b => .peerBin b.1 b.2)
  have htally' := tally_counted htally fin
  refine holds_afterMap (fun hret => ?_) (fun x hx => ?_) (fun bs hbs => ?_)
  · exact ⟨ns, js, _, hl, hlog', hgoing hret, htally'⟩
  · exact holds_abandoned hlog' (by simpa using hl.unplanned) (herror x hx)
  · obtain ⟨hns, hperm⟩ := hreturned bs hbs
    refine holds_reprioritizeLoop ⟨ns, _, [], l, js, hl, hlog', ?_, rfl, ?_,
      OrderedMap.buckets_empty⟩
    · rw [← hns]
      exact hperm.map _
    · rw [List.map_nil, List.append_nil]
      exact htally'

/-- **STEP (get_spliceable_nodes)**. -/
theorem holds_splicing {keepers noRecords underperformers : List Proposal}
    {map map' : EvMap.State NodeId (NodeId × Bool) Exc} {e : EvMap.Event Object Exc}
    {fin : Option (ℕ × Except Exc (NodeId × Bool))}
    {ret : Option (Except Exc (List (NodeId × Bool)))}
    (h : (Stage.splicing keepers noRecords underperformers map).Inv candidates tr)
    (hfeed : map.feed lookupSpliceable e = some (map', fin, ret)) :
    Holds candidates (tr ++ learned (fun f => .flag f.1 f.2) fin)
      (afterMap (.splicing keepers noRecords underperformers map')
        (plan keepers noRecords underperformers) ret) := by
  obtain ⟨l, ps, qs, js, records, prefer, rs, hl, hlog, rfl, rfl, rfl, hunder⟩ := h
  have hlog' := hlog.append (log_flag fin)
  rw [List.append_nil, List.append_nil, List.append_nil, ← EvMap.passed_append] at hlog'
  obtain ⟨hgoing, herror, hreturned⟩ := hunder.feed lookupSpliceable_fst hfeed
    (fun f => .flag f.1 f.2)
  refine holds_afterMap (fun hret => ?_) (fun x hx => ?_) (fun bs hbs => ?_)
  · exact ⟨l, ps, qs, js, records, prefer, _, hl, hlog', rfl, rfl, rfl, hgoing hret⟩
  · exact holds_abandoned hlog' (by simpa using hl.unplanned) (herror x hx)
  · obtain ⟨hnodes, hperm⟩ := hreturned bs hbs
    exact holds_plan hl hlog' hnodes hperm

/-- **STEP**, of the stages. -/
theorem holds_step {w : Tools} {prefer : Bool} {stage : Stage} {e : Event}
    {p : Stage × List Output} (h : stage.Inv candidates tr) (hs : stage.step w prefer e = some p) :
    Holds candidates tr p := by
  unfold Stage.step at hs
  split at hs
  · rename_i proposals r
    cases hs
    obtain ⟨rfl, hlog⟩ := h
    exact holds_dropChanneled hlog r
  · obtain ⟨⟨map', fin, ret⟩, hfeed, hs⟩ := Option.bind_eq_some_iff.mp hs
    cases hs
    exact holds_learned (holds_rearranging h hfeed)
  · rename_i l r
    obtain ⟨js, hl, hlog⟩ := h
    split at hs
    · rename_i ns
      cases hs
      exact ⟨ns, js, [], hl, hlog.journaled ⟨rfl, rfl, rfl, rfl, rfl⟩,
        ⟨EvMap.going_create ns, nofun, nofun⟩, OrderedMap.tally_empty⟩
    · cases hs
      exact holds_abandon hlog hl.unplanned
  · split at hs
    · obtain ⟨⟨map', fin, ret⟩, hfeed, hs⟩ := Option.bind_eq_some_iff.mp hs
      cases hs
      exact holds_learned (holds_counting h hfeed)
    · cases hs
  · obtain ⟨-, hloop⟩ := h
    split at hs
    · cases hs
      exact holds_reprioritizeStep hloop _
    · cases hs
      obtain ⟨ns, ps, qs, l, js, hl, hlog, -⟩ := hloop
      exact holds_abandon hlog (by simpa using hl.unplanned)
  · obtain ⟨-, ps, qs, js, hl, hlog⟩ := h
    split at hs
    · cases hs
      exact holds_judge hl hlog prefer _
    · cases hs
      exact holds_abandon hlog hl.unplanned
  · split at hs
    · obtain ⟨⟨map', fin, ret⟩, hfeed, hs⟩ := Option.bind_eq_some_iff.mp hs
      cases hs
      exact holds_learned (holds_splicing h hfeed)
    · cases hs
  · cases hs

/-- **STEP**. -/
theorem inv_step {w : Tools} {s s' : State} {e : Event} (h : s.stage.Inv candidates tr)
    (hs : step w s e = some (s', out)) : s'.stage.Inv candidates (tr ++ out) := by
  unfold step at hs
  split at hs
  · cases hs
    rwa [List.append_nil]
  · obtain ⟨p, hp, hs⟩ := Option.bind_eq_some_iff.mp hs
    cases hs
    exact holds_step h hp

/-- **RUN**. -/
theorem inv_run {w : Tools} {prefer : Bool} {s : State} {es : List Event}
    (h : run (step w) (start prefer candidates) es = some (s, tr)) : s.stage.Inv candidates tr :=
  run_invariant (I := fun _ tr s => s.stage.Inv candidates tr)
    ⟨rfl, rfl, rfl, rfl, rfl, rfl⟩ (fun _ _ _ _ _ _ hinv _ hs => inv_step hinv hs)
    (along_true _ _) h

/-- A stage that awaits something can be answered. -/
theorem exists_step {w : Tools} {prefer : Bool} {stage : Stage} (h : stage.Inv candidates tr)
    (hended : stage ≠ .ended) : ∃ e, (stage.step w prefer e).isSome := by
  have hfeed : ∀ {A B Y : Type} {map : EvMap.State A B Exc} {rs : List (ℕ × Except Exc B)}
      {as : List A} (f : A → Except Exc Y → Except Exc B), EvMap.Going as rs map →
      ∃ e : EvMap.Event Y Exc, ∃ r, map.feed f e = some r := by
    intro A B Y map rs as f hgoing
    obtain ⟨e, he⟩ := hgoing.feed_some f ⟨.error .other⟩
    exact ⟨e, Option.isSome_iff_exists.mp he⟩
  cases stage with
  | dropping proposals => exact ⟨.listpeerchannels (.error .other), rfl⟩
  | rearranging map =>
      obtain ⟨kept, js, rs, -, -, hunder⟩ := h
      obtain ⟨e, r, he⟩ := hfeed measure hunder.going
      exact ⟨.dowser e, by simp [Stage.step, he]⟩
  | peers l => exact ⟨.getPeers (.error .other), rfl⟩
  | counting l nodesPerBin map =>
      obtain ⟨ns, js, rs, -, -, hunder, -⟩ := h
      obtain ⟨e, r, he⟩ := hfeed w.updateBin hunder.going
      exact ⟨.peerAddr (map.asked e) e, by simp [Stage.step, he]⟩
  | reprioritizing nodesPerBin nodesPerBinsize left =>
      obtain ⟨hleft, -⟩ := h
      cases left with
      | nil         => exact absurd rfl hleft
      | cons p left => exact ⟨.proposalAddr (.error .other), rfl⟩
  | records l => exact ⟨.trackRecord (.error .other), rfl⟩
  | splicing keepers noRecords underperformers map =>
      obtain ⟨l, ps, qs, js, records, prefer, rs, -, -, -, -, -, hunder⟩ := h
      obtain ⟨e, r, he⟩ := hfeed lookupSpliceable hunder.going
      exact ⟨.listnodes (map.asked e) e, by simp [Stage.step, he]⟩
  | ended => exact absurd rfl hended

/-- Before its end a cycle has put out neither of its ends. -/
theorem Stage.Inv.log {stage : Stage} (h : stage.Inv candidates tr) (hended : stage ≠ .ended) :
    ∃ js ps qs fs, Log tr js ps qs fs [] ∧ ∀ p, .planned p ∉ js := by
  cases stage with
  | dropping proposals => exact ⟨_, _, _, _, h.2, fun _ => List.not_mem_nil⟩
  | rearranging map =>
      obtain ⟨kept, js, rs, hkept, hlog, -⟩ := h
      exact ⟨_, _, _, _, hlog, hkept.unplanned⟩
  | peers l =>
      obtain ⟨js, hl, hlog⟩ := h
      exact ⟨_, _, _, _, hlog, hl.unplanned⟩
  | counting l nodesPerBin map =>
      obtain ⟨ns, js, rs, hl, hlog, -⟩ := h
      exact ⟨_, _, _, _, hlog, by simpa using hl.unplanned⟩
  | reprioritizing nodesPerBin nodesPerBinsize left =>
      obtain ⟨-, ns, ps, qs, l, js, hl, hlog, -⟩ := h
      exact ⟨_, _, _, _, hlog, by simpa using hl.unplanned⟩
  | records l =>
      obtain ⟨-, ps, qs, js, hl, hlog⟩ := h
      exact ⟨_, _, _, _, hlog, hl.unplanned⟩
  | splicing keepers noRecords underperformers map =>
      obtain ⟨l, ps, qs, js, records, prefer, rs, hl, hlog, -⟩ := h
      exact ⟨_, _, _, _, hlog, by simpa using hl.unplanned⟩
  | ended => exact absurd rfl hended

/-- Only one list reaches the planner. -/
theorem Funneled.unique {planned p : List Proposal} (h : Funneled candidates tr planned)
    (hp : .planned p ∈ tr) : p = planned := by
  obtain ⟨channeled, kept, rearranged, peers, reprioritized, judged, hjournal, -⟩ := h
  have hmem := (mem_journal rfl).mp hp
  rw [hjournal] at hmem
  cases judged <;> simpa using hmem

/-- **RUN**, to the planner: its list is what the four stages are to make of the candidates;
    a cycle in which no lookup fails does not end without it, and one that has not ended
    awaits an answer. -/
theorem planned_run {w : Tools} {prefer : Bool} {s : State} {es : List Event}
    (h : run (step w) (start prefer candidates) es = some (s, tr)) :
    (∀ planned, .planned planned ∈ tr → Funneled candidates tr planned)
      ∧ (s.stage = .ended → (∃ planned, .planned planned ∈ tr) ∨ ∃ x, .failed x ∈ tr)
      ∧ (s.stage ≠ .ended → ∃ e, (s.stage.step w s.preferSpliceable e).isSome) := by
  have hinv := inv_run h
  refine ⟨fun planned hp => ?_, fun hended => ?_, fun hended => ?_⟩
  · by_cases hended : s.stage = .ended
    · rw [hended] at hinv
      rcases hinv with ⟨x, -, -, hnone⟩ | ⟨planned', -, hfunneled⟩
      · exact absurd hp (hnone planned)
      · exact hfunneled.unique hp ▸ hfunneled
    · obtain ⟨js, ps, qs, fs, hlog, hjs⟩ := hinv.log hended
      have hmem := (mem_journal rfl).mp hp
      rw [hlog.journal] at hmem
      exact absurd hmem (hjs planned)
  · rw [hended] at hinv
    rcases hinv with ⟨x, -, hfailed, -⟩ | ⟨planned, -, hfunneled⟩
    · exact .inr ⟨x, hfailed⟩
    · obtain ⟨channeled, kept, rearranged, peers, reprioritized, judged, hjournal, -⟩ := hfunneled
      refine .inl ⟨planned, (mem_journal rfl).mpr ?_⟩
      rw [hjournal]
      exact List.mem_append_right _ (List.mem_singleton_self _)
  · exact exists_step hinv hended

end CreationPipeline
