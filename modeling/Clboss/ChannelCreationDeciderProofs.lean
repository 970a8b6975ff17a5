import Clboss.AmountValidateProofs
import Clboss.ChannelCreatorProofs

/-! # ChannelCreationDecider — when onchain funds go into channels

    Three messages are collected: the funds in channels, whether fees are low,
    and the funds onchain.  The last one is consumed, so that each announcement
    of onchain funds is decided about once.

    The funds must reach a TARGET: a tenth of everything, at least `min_amount`,
    at most one bitcoin, and the reserve on top.  The bound of one bitcoin is
    applied last, so it also cuts a larger `min_amount`; and the reserve is added
    by a sum that saturates.  `requests_sound_iff` says for which settings neither
    matters. -/

namespace ChannelCreationDecider

open Ln AmountSettingsHandler

/-! ## The code -/

def needsReserve : Amount := .sat 30000
def maxNeedsOnchain : Amount := .btc (Double.ofRat (1 / 10))
def onchainPercentMin : Double := .finite 10
def onchainPercentMax : Double := .finite 33
def maxOnchainHoldoff : Amount := .sat 100000000

/-- What is decided about some onchain funds. -/
inductive Decision where
  | doNothingSilently
  /-- The funds are short of the target by so much. -/
  | tooLow (more : Amount)
  | create
  | highFees
deriving DecidableEq, Repr

/-- The target before the reserve: a tenth of the total within its bounds. -/
def target (minAmount total : Amount) : Amount :=
  let target := total.mul (onchainPercentMin.div (.finite 100))
  let target := if target.lt minAmount then minAmount else target
  if maxOnchainHoldoff.lt target then maxOnchainHoldoff else target

/-- The decision of `run`. -/
def decision (reserve minAmount channels onchain : Amount) (lowFee : Bool) : Decision :=
  let total := channels.add onchain
  if onchain.le reserve then .doNothingSilently
  else
    let target := (target minAmount total).add reserve
    if onchain.lt target then .tooLow ((target.add needsReserve).sub onchain)
    else if lowFee then .create
    else if onchainPercentMax.lt ((onchain.ratio total).mul (.finite 100)) then .create
    else .highFees

/-- `Impl`. -/
structure Decider where
  lowFee       : Option Bool
  channels     : Option Amount
  savedOnchain : Option Amount
  reserve      : Amount
  minAmount    : Amount

def Decider.init : Decider := ⟨none, none, none, ⟨0⟩, ⟨0⟩⟩

inductive Event where
  | channelFunds (total : Amount)
  | onchainFee (feesLow : Bool)
  | onchainFunds (onchain : Amount)
  | amountSettings (s : AmountSettings)

inductive Out where
  | needsOnchainFunds (needed : Amount)
  /-- With the funds and the minimum it was decided by. -/
  | requestChannelCreation (onchain minAmount amount : Amount)
deriving DecidableEq, Repr

/-- `run`. -/
def Decider.run (d : Decider) : Decider × List Out :=
  match d.lowFee, d.channels, d.savedOnchain with
  | some lowFee, some channels, some onchain =>
      ({ d with savedOnchain := none },
        match decision d.reserve d.minAmount channels onchain lowFee with
        | .doNothingSilently => []
        | .tooLow more =>
            if maxNeedsOnchain.lt more then [] else [.needsOnchainFunds more]
        | .create =>
            [.requestChannelCreation onchain d.minAmount (onchain.sub d.reserve)]
        | .highFees => [])
  | _, _, _ => (d, [])

def step (d : Decider) : Event → Decider × List Out
  | .channelFunds total   => { d with channels := some total }.run
  | .onchainFee feesLow   => { d with lowFee := some feesLow }.run
  | .onchainFunds onchain => { d with savedOnchain := some onchain }.run
  | .amountSettings s     => ({ d with reserve := s.reserve, minAmount := s.minAmount }, [])

/-- What is raised in a run. -/
def outs : Decider → List Event → List Out
  | _, []      => []
  | d, e :: es => (step d e).2 ++ outs (step d e).1 es

/-! ## What is promised -/

/-- A request is for no more than there is, and for what the decider requires. -/
def Out.Sound : Out → Prop
  | .requestChannelCreation onchain minAmount amount =>
      amount.v.toNat ≤ onchain.v.toNat ∧ minAmount.v.toNat ≤ amount.v.toNat
  | .needsOnchainFunds _ => True

instance (o : Out) : Decidable o.Sound :=
  match o with
  | .requestChannelCreation onchain minAmount amount =>
      inferInstanceAs (Decidable
        (amount.v.toNat ≤ onchain.v.toNat ∧ minAmount.v.toNat ≤ amount.v.toNat))
  | .needsOnchainFunds _ => inferInstanceAs (Decidable True)

/-- The minimum is no more than a bitcoin and can be added to the reserve; or the
    reserve is all there can be. -/
def Affordable (reserve minAmount : Amount) : Prop :=
  reserve.v.toNat = 2 ^ 64 - 1
    ∨ minAmount.v.toNat ≤ maxOnchainHoldoff.v.toNat
      ∧ reserve.v.toNat + minAmount.v.toNat < 2 ^ 64

instance (reserve minAmount : Amount) : Decidable (Affordable reserve minAmount) :=
  inferInstanceAs (Decidable (_ ∨ _ ∧ _))

theorem toNat_maxOnchainHoldoff : maxOnchainHoldoff.v.toNat = 100000000000 := rfl

theorem affordable_init : Affordable Decider.init.reserve Decider.init.minAmount := by decide

theorem toNat_target (minAmount total : Amount) :
    (target minAmount total).v.toNat
      = min (max (total.mul (onchainPercentMin.div (.finite 100))).v.toNat minAmount.v.toNat)
        maxOnchainHoldoff.v.toNat := by
  unfold target
  rw [Amount.toNat_capped, Amount.toNat_raised]

/-- The target is no more than a bitcoin. -/
theorem target_le (minAmount total : Amount) :
    (target minAmount total).v.toNat ≤ maxOnchainHoldoff.v.toNat := by
  rw [toNat_target]
  exact Nat.min_le_right _ _

/-- And no less than a minimum that is not. -/
theorem le_target {minAmount : Amount} (total : Amount)
    (h : minAmount.v.toNat ≤ maxOnchainHoldoff.v.toNat) :
    minAmount.v.toNat ≤ (target minAmount total).v.toNat := by
  rw [toNat_target]
  exact Nat.le_min.mpr ⟨Nat.le_max_right _ _, h⟩

/-- **SPEC**: what a decision to create says of the funds. -/
theorem of_decision_create {reserve minAmount channels onchain : Amount} {lowFee : Bool}
    (h : decision reserve minAmount channels onchain lowFee = .create) :
    reserve.v.toNat < onchain.v.toNat
      ∧ min (2 ^ 64 - 1) ((target minAmount (channels.add onchain)).v.toNat + reserve.v.toNat)
        ≤ onchain.v.toNat := by
  unfold decision at h
  simp only at h
  split at h
  · cases h
  · rename_i hreserve
    split at h
    · cases h
    · rename_i htarget
      have hreserve' : ¬ onchain.v.toNat ≤ reserve.v.toNat :=
        fun hle => hreserve ((Amount.le_iff _ _).mpr hle)
      have htarget' : ¬ onchain.v.toNat
          < ((target minAmount (channels.add onchain)).add reserve).v.toNat :=
        fun hlt => htarget ((Amount.lt_iff _ _).mpr hlt)
      rw [Amount.toNat_add] at htarget'
      exact ⟨Nat.lt_of_not_le hreserve', Nat.le_of_not_lt htarget'⟩

/-- With low fees, funds that reach the target are enough. -/
theorem decision_create {reserve minAmount channels onchain : Amount}
    (hreserve : reserve.v.toNat < onchain.v.toNat)
    (htarget : min (2 ^ 64 - 1)
        ((target minAmount (channels.add onchain)).v.toNat + reserve.v.toNat)
      ≤ onchain.v.toNat) :
    decision reserve minAmount channels onchain true = .create := by
  have hle : onchain.le reserve = false := by
    rw [Bool.eq_false_iff]
    intro h
    have := (Amount.le_iff _ _).mp h
    omega
  have hlt : onchain.lt ((target minAmount (channels.add onchain)).add reserve) = false := by
    rw [Bool.eq_false_iff]
    intro h
    have := (Amount.lt_iff _ _).mp h
    rw [Amount.toNat_add] at this
    omega
  unfold decision
  simp only [hle, hlt, Bool.false_eq_true, if_false, if_true]

/-! ## Runs -/

/-- **STEP**: from affordable settings `run` raises sound requests. -/
theorem run_sound {d : Decider} (h : Affordable d.reserve d.minAmount) :
    ∀ o ∈ d.run.2, o.Sound := by
  intro o ho
  unfold Decider.run at ho
  split at ho
  · rename_i lowFee channels onchain _ _ _
    simp only at ho
    split at ho
    · cases ho
    · split at ho
      · cases ho
      · cases List.mem_singleton.mp ho
        exact True.intro
    · rename_i hcreate
      obtain ⟨hreserve, htarget⟩ := of_decision_create hcreate
      cases List.mem_singleton.mp ho
      have hsub := Amount.toNat_sub onchain d.reserve
      have hmax := onchain.v.toNat_lt
      refine ⟨by omega, ?_⟩
      rcases h with hall | ⟨hmin, hsum⟩
      · omega
      · have hle := le_target (channels.add onchain) hmin
        omega
    · cases ho
  · cases ho

theorem run_settings (d : Decider) :
    d.run.1.reserve = d.reserve ∧ d.run.1.minAmount = d.minAmount := by
  unfold Decider.run
  split
  · exact ⟨rfl, rfl⟩
  · exact ⟨rfl, rfl⟩

/-- **RUN**: while all settings are affordable, all requests are sound. -/
theorem outs_sound (es : List Event)
    (hes : ∀ s, .amountSettings s ∈ es → Affordable s.reserve s.minAmount) :
    ∀ d : Decider, Affordable d.reserve d.minAmount → ∀ o ∈ outs d es, o.Sound := by
  induction es with
  | nil =>
      intro d _ o ho
      cases ho
  | cons e es ih =>
      intro d hd o ho
      have ih' := ih (fun s hs => hes s (List.mem_cons_of_mem _ hs))
      rcases List.mem_append.mp ho with ho | ho
      · cases e with
        | amountSettings s => cases ho
        | channelFunds total => exact run_sound (d := { d with channels := some total }) hd o ho
        | onchainFee feesLow => exact run_sound (d := { d with lowFee := some feesLow }) hd o ho
        | onchainFunds onchain =>
            exact run_sound (d := { d with savedOnchain := some onchain }) hd o ho
      · refine ih' _ ?_ o ho
        cases e with
        | amountSettings s => exact hes s List.mem_cons_self
        | channelFunds total | onchainFee feesLow | onchainFunds onchain =>
            simp only [step, (run_settings _).1, (run_settings _).2]
            exact hd

/-- The funds that are requested too little of. -/
def shortFunds (reserve minAmount : Amount) : Amount :=
  if maxOnchainHoldoff.lt minAmount then reserve.add maxOnchainHoldoff
  else ⟨0xFFFFFFFFFFFFFFFF⟩

/-- Settings, low fees, and onchain funds only. -/
def shortRun (s : AmountSettings) : List Event :=
  [.amountSettings s, .onchainFee true, .channelFunds ⟨0⟩,
    .onchainFunds (shortFunds s.reserve s.minAmount)]

/-- **STEP**: settings that are not affordable make a request that is too small. -/
theorem shortRun_unsound {s : AmountSettings} (h : ¬ Affordable s.reserve s.minAmount) :
    ∃ o ∈ outs .init (shortRun s), ¬ o.Sound := by
  have hreserve := s.reserve.v.toNat_lt
  have hmin := s.minAmount.v.toNat_lt
  have hfunds : (shortFunds s.reserve s.minAmount).v.toNat
      = if maxOnchainHoldoff.v.toNat < s.minAmount.v.toNat then
          min (2 ^ 64 - 1) (s.reserve.v.toNat + maxOnchainHoldoff.v.toNat)
        else 2 ^ 64 - 1 := by
    unfold shortFunds
    by_cases hlt : maxOnchainHoldoff.v.toNat < s.minAmount.v.toNat
    · rw [if_pos ((Amount.lt_iff _ _).mpr hlt), if_pos hlt, Amount.toNat_add]
    · rw [if_neg (fun h => hlt ((Amount.lt_iff _ _).mp h)), if_neg hlt]
      rfl
  unfold Affordable at h
  rw [toNat_maxOnchainHoldoff] at h hfunds
  have htarget := target_le s.minAmount
    ((⟨0⟩ : Amount).add (shortFunds s.reserve s.minAmount))
  rw [toNat_maxOnchainHoldoff] at htarget
  have hcreate : decision s.reserve s.minAmount ⟨0⟩ (shortFunds s.reserve s.minAmount) true
      = .create := by
    refine decision_create ?_ ?_
    · split at hfunds
      · omega
      · omega
    · split at hfunds
      · omega
      · omega
  refine ⟨.requestChannelCreation (shortFunds s.reserve s.minAmount) s.minAmount
    ((shortFunds s.reserve s.minAmount).sub s.reserve), ?_, ?_⟩
  · simp only [outs, shortRun, step, Decider.run, Decider.init, hcreate, List.nil_append,
      List.append_nil]
    exact List.mem_singleton_self _
  · rintro ⟨-, hle⟩
    rw [Amount.toNat_sub] at hle
    split at hfunds
    · omega
    · omega

/-- The Manager refuses as too small only what is. -/
theorem not_belowTwice {m : ChannelCreator.Manager} {amount : Amount}
    (h : amount.lt (m.minAmount.mul (.finite 2)) = false) :
    .skipped .belowTwice ∉ (m.onRequestChannelCreation amount).2 := by
  intro hmem
  unfold ChannelCreator.Manager.onRequestChannelCreation ChannelCreator.Manager.skip at hmem
  rw [h] at hmem
  split at hmem
  · cases hmem
  split at hmem
  · cases List.mem_singleton.mp hmem
  split at hmem
  · cases List.mem_singleton.mp hmem
  rw [if_neg Bool.false_ne_true] at hmem
  split at hmem
  · cases List.mem_singleton.mp hmem
  · cases hmem

/-- **HEADLINE (requests)**: for all published settings and all funds, requests are
    sound exactly if the settings are affordable; and the Manager refuses as too
    small no amount that the decider requires. -/
theorem requests_sound_iff {S : AmountSettings → Prop}
    (hS : ∀ s, S s → ∃ t, s = (validate t).1) :
    ((∀ es, (∀ s, .amountSettings s ∈ es → S s) → ∀ o ∈ outs .init es, o.Sound)
      ↔ ∀ s, S s → Affordable s.reserve s.minAmount)
    ∧ ∀ s, S s → ∀ amount : Amount, s.minAmount.v.toNat ≤ amount.v.toNat →
      ∀ m : ChannelCreator.Manager, .skipped .belowTwice
        ∉ ((m.onAmountSettings s).onRequestChannelCreation amount).2 := by
  constructor
  · constructor
    · intro hsound s hs
      by_contra hnot
      obtain ⟨o, ho, hbad⟩ := shortRun_unsound hnot
      refine hbad (hsound (shortRun s) ?_ o ho)
      intro s' hs'
      simp only [shortRun, List.mem_cons, Event.amountSettings.injEq, reduceCtorEq,
        List.not_mem_nil, or_false] at hs'
      rw [hs']
      exact hs
    · intro hS' es hes o ho
      exact outs_sound es (fun s hs => hS' s (hes s hs)) .init affordable_init o ho
  · intro s hs amount hle m hmem
    obtain ⟨t, ht⟩ := hS s hs
    have hminAmount : s.minAmount = s.minChannel.mul (.finite 2) := by
      rw [ht, minAmount_validate, triggerFactor]
    have hnot : amount.lt (s.minChannel.mul (.finite 2)) = false := by
      rw [← hminAmount, Bool.eq_false_iff]
      intro hlt
      have := (Amount.lt_iff _ _).mp hlt
      omega
    have hmember : (m.onAmountSettings s).minAmount = s.minChannel := rfl
    rw [← hmember] at hnot
    exact not_belowTwice hnot hmem

theorem requests_sound_iff_defaults :
    (∀ o ∈ outs .init [.amountSettings (validate .defaults).1, .onchainFee true,
        .channelFunds ⟨0⟩, .onchainFunds (.sat 5000000)], o.Sound)
      ∧ .requestChannelCreation (.sat 5000000) (.sat 1000000) (.sat 4900000)
        ∈ outs .init [.amountSettings (validate .defaults).1, .onchainFee true,
          .channelFunds ⟨0⟩, .onchainFunds (.sat 5000000)] := by
  have hsettings : ∀ s, s = (validate .defaults).1 → Affordable s.reserve s.minAmount := by
    intro s hs
    rw [hs]
    decide +kernel
  refine ⟨(requests_sound_iff (S := (· = (validate .defaults).1))
    (fun s hs => ⟨.defaults, hs⟩)).1.mpr hsettings _ ?_, by decide +kernel⟩
  intro s hs
  simpa using hs

/-- A smallest channel of more than half a bitcoin. -/
def largeSettings : AmountSettings :=
  (validate { AmountSettings.defaults with
    minChannel := .sat 60000000, maxChannel := .sat 300000000 }).1

/-- **COUNTEREXAMPLE**: 1.1 bitcoin are requested where 1.2 are required, and the
    Manager refuses. -/
theorem too_small_largeSettings :
    outs .init [.amountSettings largeSettings, .onchainFee true, .channelFunds ⟨0⟩,
        .onchainFunds (.sat 110100000)]
      = [.requestChannelCreation (.sat 110100000) (.sat 120000000) (.sat 110000000)]
    ∧ (((⟨true, false, ⟨0⟩, ⟨0⟩, ⟨0⟩, none⟩ : ChannelCreator.Manager).onAmountSettings
        largeSettings).onRequestChannelCreation (.sat 110000000)).2 = [.skipped .belowTwice] := by
  decide +kernel

end ChannelCreationDecider
