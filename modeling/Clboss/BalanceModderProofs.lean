import Clboss.AmountArithProofs
import Clboss.MachineProofs
import Clboss.OrderedMapProofs

/-! # `Boss::Mod::FeeModderByBalance` — a bin for each peer

    Fees follow the balance of a channel, but only by BINS, and only loosely:
    when the balance has left its bin, a draw decides between the bin it is in
    now and the one before it on the way there.  So the stored bin lags behind
    the balance, and what keeps the lag to one bin is that a sample is
    forgotten only if it falls in the stored bin.

    The bin of a balance is the one `get_bin` computes in `double`.  A full
    balance would be in a bin behind the last. -/

namespace FeeModderByBalance

open Ln Machine

variable {N : Type} [LinearOrder N]

/-! ## Bins -/

/-- `preferred_bin_size`. -/
def preferredBinSize : Amount := Amount.btc (Double.ofRat (2 / 1000))

/-- `min_bins`. -/
def minBins : ℕ := 4

/-- `max_bins`. -/
def maxBins : ℕ := 50

/-- `get_num_bins`. -/
def getNumBins (channelSize : Amount) : ℕ :=
  let rawNumBins := (channelSize.ratio preferredBinSize).roundAway.toSize
  if rawNumBins < minBins then minBins
  else if maxBins < rawNumBins then maxBins
  else rawNumBins

/-- `get_bin`: the index and the fraction within the bin. -/
def getBin (toUs channelSize : Amount) (numBins : ℕ) : Double :=
  (toUs.ratio channelSize).mul (Double.ofInt numBins)

/-- The mathematics library. -/
structure Libm where
  exp : Double → Double
  log : Double → Double

/-- `get_ratio`. -/
def getRatio (lib : Libm) (ourPercentage : Double) : Double :=
  lib.exp ((lib.log (.finite 50)).mul ((Double.finite (1 / 2)).sub ourPercentage))

/-- `get_ratio_by_bin`; `none` if the assertion fails. -/
def getRatioByBin (lib : Libm) (bin numBins : ℕ) : Option Double :=
  if bin < numBins then
    some (getRatio lib ((Double.ofInt (1 + bin * 2 : ℕ)).div (Double.ofInt (numBins * 2 : ℕ))))
  else none

/-! ## Samples -/

/-- `ChannelSpecs`. -/
structure ChannelSpecs where
  toUs  : Amount
  total : Amount
deriving DecidableEq

/-- One of the `channels` of a peer; what throws when it is read is `none`. -/
structure Channel where
  state   : Option String
  balance : Option ChannelSpecs

/-- `get_channel_specs`: of the first channel in use.  A failure on the way there counts
    as no channel. -/
def getChannelSpecs : List Channel → Option ChannelSpecs
  | []      => none
  | c :: cs =>
      c.state.bind fun state =>
        if state ≠ "CHANNELD_NORMAL" ∧ state ≠ "CHANNELD_AWAITING_SPLICE" then getChannelSpecs cs
        else c.balance

/-! ## The stored information -/

/-- `Info`. -/
structure Info where
  bin     : ℕ
  numBins : ℕ
  toUs    : Amount
  total   : Amount
deriving DecidableEq

/-- `set_starting_info`. -/
def startingInfo (cs : ChannelSpecs) : Info :=
  let numBins := getNumBins cs.total
  let bin := (getBin cs.toUs cs.total numBins).floor.toSize
  { bin := if numBins ≤ bin then numBins - 1 else bin
    numBins := numBins
    toUs := cs.toUs
    total := cs.total }

/-- The bin that the draw decides for: `targetBin` or the one before it. -/
def drawnBin (bin numBins targetBin : ℕ) (actualBin draw : Double) : ℕ :=
  let fraction := actualBin.sub (Double.ofInt targetBin)
  if targetBin < bin then
    if draw.lt ((Double.finite 1).sub fraction) then targetBin else targetBin + 1
  else
    let bin' := if draw.lt fraction then targetBin else targetBin - 1
    if numBins ≤ bin' then numBins - 1 else bin'

/-- What `get_multiplier` stores for a known balance, if anything. -/
def newInfo (info : Info) (cs : ChannelSpecs) (draw : Double) : Option Info :=
  if info.toUs = cs.toUs ∧ info.total = cs.total then none
  else if info.total ≠ cs.total then some (startingInfo cs)
  else
    let actualBin := getBin cs.toUs cs.total info.numBins
    let targetBin := actualBin.floor.toSize
    if targetBin = info.bin then none
    else
      some { info with
        toUs := cs.toUs
        bin := drawnBin info.bin info.numBins targetBin actualBin draw }

/-! ## The module -/

structure State (N : Type) [LinearOrder N] where
  infomap : OrderedMap N Info := OrderedMap.empty

inductive Event (N : Type) where
  /-- A multiplier is asked for: the answer of `listpeerchannels`, or `none` where it has
      no `channels` to walk, and the draw, for when one is made. -/
  | evaluate (node : N) (channels : Option (List Channel)) (draw : Double)
  /-- `Msg::ChannelDestruction`. -/
  | channelDestruction (peer : N)

/-- What an evaluation sees. -/
def known (channels : Option (List Channel)) : Option ChannelSpecs :=
  channels.bind getChannelSpecs

inductive Output (N : Type) where
  | multiplier (node : N) (mult : Double)
  /-- `Msg::MonitorFeeByBalance`. -/
  | monitorFeeByBalance (node : N) (mult : Double) (toUs total : UInt64)
  /-- The assertion of `get_ratio_by_bin`. -/
  | assertFailed
deriving DecidableEq

/-- The multiplier of information that stays as it is. -/
def cached (lib : Libm) (node : N) (info : Info) : List (Output N) :=
  (getRatioByBin lib info.bin info.numBins).elim [.assertFailed] fun mult =>
    [.multiplier node mult]

/-- The multiplier of new information, which the fee monitor is told first. -/
def announced (lib : Libm) (node : N) (info : Info) : List (Output N) :=
  (getRatioByBin lib info.bin info.numBins).elim [.assertFailed] fun mult =>
    [.monitorFeeByBalance node mult info.toUs.toMsat info.total.toMsat, .multiplier node mult]

/-- `get_multiplier`. -/
def getMultiplier (lib : Libm) (s : State N) (node : N) (specs : Option ChannelSpecs)
    (draw : Double) : State N × List (Output N) :=
  match s.infomap.find node, specs with
  | none, none      => (s, [.multiplier node (.finite 1)])
  | none, some cs   =>
      ({ s with infomap := s.infomap.assign node (startingInfo cs) },
        announced lib node (startingInfo cs))
  | some info, none => (s, cached lib node info)
  | some info, some cs =>
      match newInfo info cs draw with
      | none       => (s, cached lib node info)
      | some info' =>
          ({ s with infomap := s.infomap.assign node info' }, announced lib node info')

def step (lib : Libm) (s : State N) : Event N → Option (State N × List (Output N))
  | .evaluate node channels draw => some (getMultiplier lib s node (known channels) draw)
  | .channelDestruction peer     => some ({ s with infomap := s.infomap.erase peer }, [])

/-! ## The bin of a balance -/

/-- A sample that a channel can have: it has a capacity, and we own part of it at most. -/
def ChannelSpecs.Valid (cs : ChannelSpecs) : Prop :=
  0 < cs.total.v.toNat ∧ cs.toUs.le cs.total = true

/-- The bin of a balance, the full balance in the last bin. -/
def balanceBin (cs : ChannelSpecs) : ℕ :=
  min (getBin cs.toUs cs.total (getNumBins cs.total)).floor.toSize (getNumBins cs.total - 1)

/-- One bin apart at most. -/
def Near (bin bin' : ℕ) : Prop := bin ≤ bin' + 1 ∧ bin' ≤ bin + 1

theorem getNumBins_bounds (channelSize : Amount) :
    minBins ≤ getNumBins channelSize ∧ getNumBins channelSize ≤ maxBins := by
  unfold getNumBins minBins maxBins
  simp only
  split
  · omega
  · split <;> omega

/-- Our part of the capacity. -/
theorem ratio_finite {cs : ChannelSpecs} (h : cs.Valid) :
    ∃ q : ℚ, cs.toUs.ratio cs.total = .finite q ∧ 0 ≤ q ∧ q ≤ 1 := by
  obtain ⟨hpos, hle⟩ := h
  have hround : Double.round (cs.toUs.v.toNat : ℚ) ≤ Double.round (cs.total.v.toNat : ℚ) :=
    Double.round_mono (Nat.cast_nonneg _) (by exact_mod_cast (Amount.le_iff _ _).mp hle)
  have hone : (1 : ℚ) ≤ Double.round (cs.total.v.toNat : ℚ) := by
    have := Double.round_mono (p := 1) (by norm_num)
      (show (1 : ℚ) ≤ cs.total.v.toNat by exact_mod_cast hpos)
    rwa [show Double.round 1 = 1 by exact_mod_cast Double.round_natCast (n := 1) (by norm_num)]
      at this
  have hnonneg := Double.round_nonneg (Nat.cast_nonneg (α := ℚ) cs.toUs.v.toNat)
  have hquot0 : 0 ≤ Double.round (cs.toUs.v.toNat : ℚ) / Double.round (cs.total.v.toNat : ℚ) :=
    div_nonneg hnonneg (by linarith)
  have hquot1 : Double.round (cs.toUs.v.toNat : ℚ) / Double.round (cs.total.v.toNat : ℚ) ≤ 1 :=
    div_le_one_of_le₀ hround (by linarith)
  refine ⟨_, ?_, Double.round_nonneg hquot0, ?_⟩
  · unfold Amount.ratio
    rw [Double.ofInt_of_lt cs.toUs.v.toNat_lt, Double.ofInt_of_lt cs.total.v.toNat_lt]
    unfold Double.div
    simp only
    rw [if_neg (by linarith), Double.ofRat_eq hquot0 (by linarith)]
  · have := Double.round_mono hquot0 hquot1
    rwa [show Double.round 1 = 1 by exact_mod_cast Double.round_natCast (n := 1) (by norm_num)]
      at this

/-- **RANGE**: the bin of a possible sample is a number up to the number of bins. -/
theorem getBin_finite {cs : ChannelSpecs} (h : cs.Valid) {numBins : ℕ} (hn : numBins < 2 ^ 53) :
    ∃ g : ℚ, getBin cs.toUs cs.total numBins = .finite g ∧ 0 ≤ g ∧ g ≤ numBins := by
  obtain ⟨q, hq, h0, h1⟩ := ratio_finite h
  have hcast : (numBins : ℚ) < 2 ^ 53 := by exact_mod_cast hn
  have hprod0 : 0 ≤ q * numBins := mul_nonneg h0 (Nat.cast_nonneg _)
  have hprod1 : q * numBins ≤ numBins := mul_le_of_le_one_left (Nat.cast_nonneg _) h1
  refine ⟨_, ?_, Double.round_nonneg hprod0, ?_⟩
  · unfold getBin
    rw [hq, Double.ofInt_natCast hn]
    unfold Double.mul
    simp only
    rw [Double.ofRat_eq hprod0 (by linarith)]
  · have := Double.round_mono hprod0 hprod1
    rwa [Double.round_natCast hn] at this

/-! ## What is stored -/

/-- Stored information: a bin there is, and near the one of the stored sample. -/
structure Info.Sound (info : Info) : Prop where
  binned  : info.bin < info.numBins
  counted : info.numBins = getNumBins info.total
  near    : Near info.bin (balanceBin ⟨info.toUs, info.total⟩)

theorem sound_startingInfo (cs : ChannelSpecs) : (startingInfo cs).Sound := by
  have hmin := (getNumBins_bounds cs.total).1
  unfold minBins at hmin
  have hbin : (startingInfo cs).bin = balanceBin cs := by
    unfold startingInfo balanceBin
    simp only
    split <;> omega
  refine ⟨?_, rfl, ?_⟩
  · rw [hbin]
    show balanceBin cs < getNumBins cs.total
    unfold balanceBin
    omega
  · show Near (startingInfo cs).bin (balanceBin cs)
    rw [hbin]
    exact ⟨by omega, by omega⟩

/-- The draw leaves the bin next to the target, and below the number of bins. -/
theorem drawnBin_near {bin numBins : ℕ} (targetBin : ℕ) (actualBin draw : Double)
    (hbin : bin < numBins) :
    drawnBin bin numBins targetBin actualBin draw < numBins
      ∧ Near (drawnBin bin numBins targetBin actualBin draw) (min targetBin (numBins - 1)) := by
  unfold drawnBin Near
  simp only
  split
  · split <;> omega
  · split <;> split <;> omega

theorem sound_newInfo {info info' : Info} {cs : ChannelSpecs} {draw : Double} (h : info.Sound)
    (hnew : newInfo info cs draw = some info') :
    info'.Sound ∧ (⟨info'.toUs, info'.total⟩ : ChannelSpecs) = cs := by
  unfold newInfo at hnew
  split at hnew
  · cases hnew
  · split at hnew
    · cases hnew
      exact ⟨sound_startingInfo cs, rfl⟩
    · rename_i htotal
      have htotal : info.total = cs.total := not_not.mp htotal
      simp only at hnew
      split at hnew
      · cases hnew
      · cases hnew
        have hdrawn := drawnBin_near (getBin cs.toUs cs.total info.numBins).floor.toSize
          (getBin cs.toUs cs.total info.numBins) draw h.binned
        refine ⟨⟨hdrawn.1, h.counted, ?_⟩, by rw [htotal]⟩
        have hcount := h.counted
        rw [htotal] at hcount
        simp only [htotal, balanceBin, ← hcount]
        exact hdrawn.2

/-- A sample that is not stored falls in the stored bin, or is the stored one. -/
theorem near_of_newInfo_none {info : Info} {cs : ChannelSpecs} {draw : Double} (h : info.Sound)
    (hnew : newInfo info cs draw = none) :
    info.total = cs.total ∧ Near info.bin (balanceBin cs) := by
  unfold newInfo at hnew
  split at hnew
  · rename_i heq
    obtain ⟨htoUs, htotal⟩ := heq
    have hnear := h.near
    rw [htoUs, htotal] at hnear
    exact ⟨htotal, hnear⟩
  · split at hnew
    · cases hnew
    · rename_i htotal
      have htotal : info.total = cs.total := not_not.mp htotal
      simp only at hnew
      split at hnew
      · rename_i hbin
        have hcount := h.counted
        rw [htotal] at hcount
        have hlt := h.binned
        refine ⟨htotal, ?_⟩
        unfold balanceBin Near
        rw [← hcount, hbin]
        omega
      · cases hnew

/-! ## Steps -/

omit [LinearOrder N] in
theorem assertFailed_notMem_cached (lib : Libm) (node : N) {info : Info} (h : info.Sound) :
    Output.assertFailed ∉ cached lib node info := by
  unfold cached getRatioByBin
  rw [if_pos h.binned]
  simp

omit [LinearOrder N] in
theorem assertFailed_notMem_announced (lib : Libm) (node : N) {info : Info} (h : info.Sound) :
    Output.assertFailed ∉ announced lib node info := by
  unfold announced getRatioByBin
  rw [if_pos h.binned]
  simp

/-- All that is stored is sound. -/
def State.Sound (s : State N) : Prop := ∀ node info, s.infomap.find node = some info → info.Sound

/-- What is stored of a node agrees with a sample of it. -/
def State.Agrees (s : State N) (node : N) (cs : ChannelSpecs) : Prop :=
  ∃ info, s.infomap.find node = some info ∧ info.total = cs.total
    ∧ Near info.bin (balanceBin cs)

theorem State.Sound.assign {s : State N} (h : s.Sound) (node : N) {info : Info}
    (hinfo : info.Sound) : State.Sound { s with infomap := s.infomap.assign node info } := by
  intro node' info' hfind
  simp only [OrderedMap.find_assign] at hfind
  split at hfind
  · cases hfind
    exact hinfo
  · exact h node' info' hfind

theorem agrees_assign (s : State N) (node : N) {info : Info} {cs : ChannelSpecs}
    (hinfo : info.Sound) (hcs : (⟨info.toUs, info.total⟩ : ChannelSpecs) = cs) :
    State.Agrees { s with infomap := s.infomap.assign node info } node cs := by
  subst hcs
  refine ⟨info, ?_, rfl, hinfo.near⟩
  simp only [OrderedMap.find_assign, if_true]

/-- **STEP**: an evaluation keeps everything sound, trips no assertion, and what is stored
    then agrees with what it saw. -/
theorem sound_getMultiplier (lib : Libm) {s s' : State N} {node : N}
    {specs : Option ChannelSpecs} {draw : Double} {out : List (Output N)} (h : s.Sound)
    (hs : getMultiplier lib s node specs draw = (s', out)) :
    s'.Sound ∧ Output.assertFailed ∉ out ∧ ∀ cs, specs = some cs → s'.Agrees node cs := by
  unfold getMultiplier at hs
  split at hs
  · cases hs
    exact ⟨h, by simp, nofun⟩
  · rename_i cs _
    cases hs
    have hstart := sound_startingInfo cs
    refine ⟨h.assign node hstart, assertFailed_notMem_announced lib node hstart, ?_⟩
    intro cs' hcs
    cases hcs
    exact agrees_assign s node hstart rfl
  · rename_i info hfind
    cases hs
    exact ⟨h, assertFailed_notMem_cached lib node (h node info hfind), nofun⟩
  · rename_i info cs hfind
    have hinfo := h node info hfind
    split at hs
    · rename_i hnew
      cases hs
      refine ⟨h, assertFailed_notMem_cached lib node hinfo, ?_⟩
      intro cs' hcs
      cases hcs
      exact ⟨info, hfind, near_of_newInfo_none hinfo hnew⟩
    · rename_i info' hnew
      cases hs
      obtain ⟨hinfo', hcs'⟩ := sound_newInfo hinfo hnew
      refine ⟨h.assign node hinfo', assertFailed_notMem_announced lib node hinfo', ?_⟩
      intro cs' hcs
      cases hcs
      exact agrees_assign s node hinfo' hcs'

theorem sound_step (lib : Libm) {s s' : State N} {e : Event N} {out : List (Output N)}
    (h : s.Sound) (hs : step lib s e = some (s', out)) :
    s'.Sound ∧ Output.assertFailed ∉ out ∧
      ∀ node channels draw cs, e = .evaluate node channels draw → known channels = some cs →
        s'.Agrees node cs := by
  cases e with
  | evaluate node channels draw =>
      obtain ⟨hsound, hout, hagrees⟩ := sound_getMultiplier lib h (Option.some.inj hs)
      refine ⟨hsound, hout, ?_⟩
      intro node' channels' draw' cs he hcs
      cases he
      exact hagrees cs hcs
  | channelDestruction peer =>
      cases hs
      refine ⟨?_, by simp, nofun⟩
      intro node info hfind
      simp only [OrderedMap.find_erase] at hfind
      split at hfind
      · cases hfind
      · exact h node info hfind

/-! ## Runs -/

/-- The samples that an event brings are possible ones. -/
def Event.Valid (e : Event N) : Prop :=
  ∀ node channels draw cs, e = .evaluate node channels draw → known channels = some cs → cs.Valid

/-- **RUN**. -/
theorem sound_run (lib : Libm) {es : List (Event N)} {s : State N} {tr : List (Output N)}
    (h : run (step lib) {} es = some (s, tr)) :
    s.Sound ∧ Output.assertFailed ∉ tr ∧
      ∀ es' node channels draw cs, es = es' ++ [.evaluate node channels draw] →
        known channels = some cs → s.Agrees node cs := by
  refine run_invariant (I := fun es tr s => s.Sound ∧ Output.assertFailed ∉ tr ∧
      ∀ es' node channels draw cs, es = es' ++ [.evaluate node channels draw] →
        known channels = some cs → s.Agrees node cs) ⟨nofun, by simp, ?_⟩ ?_ (along_true _ _) h
  · intro es' node channels draw cs hes
    exact absurd hes (by simp)
  · intro es tr s e s' out hI _ hs
    obtain ⟨hsound, hassert, -⟩ := hI
    obtain ⟨hsound', hout, hagrees⟩ := sound_step lib hsound hs
    refine ⟨hsound', ?_, ?_⟩
    · rw [List.mem_append, not_or]
      exact ⟨hassert, hout⟩
    · intro es' node channels draw cs hes
      obtain ⟨-, he⟩ := List.append_inj' hes rfl
      exact hagrees node channels draw cs (List.singleton_inj.mp he)

/-- **HEADLINE**: in every run every stored bin is one of the bins of the stored capacity, no
    assertion fails, and an evaluation leaves a bin that is next to the balance's at most. -/
theorem binned_run (lib : Libm) {es : List (Event N)} {s : State N} {tr : List (Output N)}
    (hvalid : ∀ e ∈ es, e.Valid) (h : run (step lib) {} es = some (s, tr)) :
    (∀ node info, s.infomap.find node = some info →
        info.bin < info.numBins ∧ info.numBins = getNumBins info.total)
      ∧ Output.assertFailed ∉ tr
      ∧ ∀ es' node channels draw cs, es = es' ++ [.evaluate node channels draw] →
          known channels = some cs →
            ∃ info g, s.infomap.find node = some info ∧ info.total = cs.total
              ∧ getBin cs.toUs cs.total info.numBins = .finite g ∧ 0 ≤ g ∧ g ≤ info.numBins
              ∧ Near info.bin (min ⌊g⌋.toNat (info.numBins - 1)) := by
  obtain ⟨hsound, hassert, hagrees⟩ := sound_run lib h
  refine ⟨fun node info hfind => ?_, hassert, ?_⟩
  · have hinfo := hsound node info hfind
    exact ⟨hinfo.binned, hinfo.counted⟩
  · intro es' node channels draw cs hes hcs
    obtain ⟨info, hfind, htotal, hnear⟩ := hagrees es' node channels draw cs hes hcs
    have hcount := (hsound node info hfind).counted
    rw [htotal] at hcount
    have hmax := (getNumBins_bounds cs.total).2
    unfold maxBins at hmax
    have hmem : Event.evaluate node channels draw ∈ es := by
      rw [hes]
      exact List.mem_append_right _ (List.mem_singleton_self _)
    have hbins : info.numBins < 2 ^ 53 := by omega
    obtain ⟨g, hg, h0, hle⟩ := getBin_finite (hvalid _ hmem node channels draw cs rfl hcs) hbins
    refine ⟨info, g, hfind, htotal, hg, h0, hle, ?_⟩
    have hlt : g < 2 ^ 64 := by
      have : (info.numBins : ℚ) ≤ 50 := by exact_mod_cast hcount ▸ hmax
      linarith
    unfold balanceBin at hnear
    rw [← hcount, hg, show (Double.finite g).floor = .finite ⌊g⌋ from rfl,
      Double.toSize_eq (by exact_mod_cast lt_of_le_of_lt (Int.floor_le g) hlt),
      Int.floor_intCast] at hnear
    exact hnear

/-- The balance goes from bin 2 of 5 to bin 3, and the draw leaves the stored bin where it
    was: in the middle, where the multiplier is 1. -/
theorem binned_run_three :
    ∃ s tr, run (step ⟨fun _ => .finite 1, fun _ => Double.ofRat (3912023005428146 / 10 ^ 15)⟩) {}
        [.evaluate 7
            (some [⟨some "ONCHAIN", none⟩,
              ⟨some "CHANNELD_NORMAL", some ⟨⟨500000000⟩, ⟨1000000000⟩⟩⟩]) (.finite 0),
          .evaluate 7 (some []) (.finite 0),
          .evaluate 7 (some [⟨some "CHANNELD_NORMAL", some ⟨⟨650000000⟩, ⟨1000000000⟩⟩⟩])
            (.finite (1 / 2))] = some (s, tr)
      ∧ s.infomap.entries = [(7, ⟨2, 5, ⟨650000000⟩, ⟨1000000000⟩⟩)]
      ∧ tr = [.monitorFeeByBalance 7 (.finite 1) 500000000 1000000000, .multiplier 7 (.finite 1),
          .multiplier 7 (.finite 1), .monitorFeeByBalance 7 (.finite 1) 650000000 1000000000,
          .multiplier 7 (.finite 1)]
      ∧ Output.assertFailed ∉ tr := by
  have hrun : (run (step ⟨fun _ => .finite 1,
        fun _ => Double.ofRat (3912023005428146 / 10 ^ 15)⟩) {}
        [.evaluate 7
            (some [⟨some "ONCHAIN", none⟩,
              ⟨some "CHANNELD_NORMAL", some ⟨⟨500000000⟩, ⟨1000000000⟩⟩⟩]) (.finite 0),
          .evaluate 7 (some []) (.finite 0),
          .evaluate 7 (some [⟨some "CHANNELD_NORMAL", some ⟨⟨650000000⟩, ⟨1000000000⟩⟩⟩])
            (.finite (1 / 2))]).map (fun p => (p.1.infomap.entries, p.2))
      = some ([(7, ⟨2, 5, ⟨650000000⟩, ⟨1000000000⟩⟩)],
        [.monitorFeeByBalance 7 (.finite 1) 500000000 1000000000, .multiplier 7 (.finite 1),
          .multiplier 7 (.finite 1), .monitorFeeByBalance 7 (.finite 1) 650000000 1000000000,
          (.multiplier 7 (.finite 1) : Output ℕ)]) := by decide +kernel
  obtain ⟨⟨s, tr⟩, h, heq⟩ := Option.map_eq_some_iff.mp hrun
  obtain ⟨hs, htr⟩ := Prod.ext_iff.mp heq
  have hvalid : ∀ cs : ChannelSpecs,
      cs = ⟨⟨500000000⟩, ⟨1000000000⟩⟩ ∨ cs = ⟨⟨650000000⟩, ⟨1000000000⟩⟩ → cs.Valid := by
    rintro cs (rfl | rfl) <;> exact ⟨by decide, by decide⟩
  refine ⟨s, tr, h, hs, htr, (binned_run _ ?_ h).2.1⟩
  intro e he node channels draw cs heq hcs
  simp only [List.mem_cons, List.not_mem_nil, or_false] at he
  rcases he with rfl | rfl | rfl <;> cases heq
  · exact hvalid cs (.inl (Option.some.inj hcs).symm)
  · cases hcs
  · exact hvalid cs (.inr (Option.some.inj hcs).symm)

end FeeModderByBalance
