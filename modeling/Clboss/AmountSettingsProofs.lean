import Clboss.AmountArithProofs

/-! # AmountSettingsHandler — which channel sizes are in effect

    Three options, in satoshis, and two amounts derived from them.  At startup
    values that make no sense are forced to ones that do; later, through
    `setconfig`, a value that would have to be forced is REFUSED.

    What the rest relies on is `fits_of_no_notes`: settings that pass without a
    note leave room for a channel between the limits.  Forced ones need not: the
    lowering rounds up to satoshis and multiplies in `double`. -/

namespace AmountSettingsHandler

open Ln

/-! ## The options -/

/-- `Msg::AmountSettings`. -/
structure AmountSettings where
  minChannel   : Amount
  maxChannel   : Amount
  reserve      : Amount
  minAmount    : Amount
  minRemaining : Amount
deriving DecidableEq, Repr

def defaultMinChannel : Amount := .sat 500000
def defaultMaxChannel : Amount := .sat 100000000
def defaultReserve : Amount := .sat 100000
def minMinChannel : Amount := .sat 500000
def triggerFactor : Double := .finite 2
def additionalRemaining : Amount := .sat 50000

def minUsableMaxChannel : Amount :=
  (minMinChannel.mul ((Double.finite 1).add triggerFactor)).add additionalRemaining

def minUsableReserve : Amount := .sat 30000

/-- White space as `std::ws` skips it. -/
def isSpace (c : Char) : Bool := c = ' ' || ('\t' ≤ c && c ≤ '\r')

/-- `operator>>` into an unsigned 64-bit integer where no minus stands: an optional
    plus and digits.  `none` when there are no digits or they do not fit. -/
def readUInt64 (s : List Char) : Option (UInt64 × List Char) :=
  let s := if s.head? = some '+' then s.tail else s
  let digits := s.takeWhile Char.isDigit
  let n := digits.foldl (fun n c => 10 * n + (c.toNat - '0'.toNat)) 0
  if digits = [] ∨ 2 ^ 64 ≤ n then none
  else some (UInt64.ofNat n, s.dropWhile Char.isDigit)

/-- `parse_sats`: whether the text was a clean amount, and the amount. -/
def parseSats (value : String) : Bool × Amount :=
  let s := value.toList.dropWhile isSpace
  if s.head? = some '-' then (false, .sat 0)
  else
    match readUInt64 s with
    | none           => (false, .sat 0)
    | some (n, rest) => (rest.dropWhile isSpace = [], .sat n)

/-- The amount in a message: satoshis in an `unsigned int`. -/
def satText (a : Amount) : String := toString a.toSat.toUInt32

inductive LogLevel where
  | info
  | warn
deriving DecidableEq, Repr

/-- One adjustment the validation made. -/
structure Note where
  level   : LogLevel
  problem : String
  fix     : String
deriving DecidableEq, Repr

/-- The amounts computed from `min_channel`. -/
def AmountSettings.derive (s : AmountSettings) : AmountSettings :=
  let minAmount := s.minChannel.mul triggerFactor
  { s with minAmount := minAmount, minRemaining := minAmount.add additionalRemaining }

def minChannelNote (amount : Amount) : Note :=
  ⟨.info, "--clboss-min-channel " ++ satText amount ++ " is below the floor "
    ++ satText minMinChannel, "forced to " ++ satText minMinChannel⟩

def maxChannelNote (amount : Amount) : Note :=
  ⟨.warn, "--clboss-max-channel " ++ satText amount
    ++ " is too low for any allowed --clboss-min-channel (at least "
    ++ satText minUsableMaxChannel ++ ")", "forced to " ++ satText minUsableMaxChannel⟩

def reserveNote (amount : Amount) : Note :=
  ⟨.warn, "clboss-min-onchain " ++ satText amount ++ " is below " ++ satText minUsableReserve
    ++ " sat, CLN's default min-emergency-msat plus funding fees; every channel open would fail",
    "using " ++ satText minUsableReserve⟩

def conflictNote (s : AmountSettings) (lowered : Amount) : Note :=
  ⟨.warn, "--clboss-min-channel " ++ satText s.minChannel
    ++ " and --clboss-max-channel " ++ satText s.maxChannel
    ++ " conflict (max must be at least " ++ satText (s.minChannel.add s.minRemaining) ++ ")",
    "--clboss-min-channel forced to " ++ satText lowered⟩

/-- A floor for one of the amounts. -/
def floorAmount (amount floor : Amount) (note : Amount → Note) : Amount × List Note :=
  if amount.lt floor then (floor, [note amount]) else (amount, [])

/-- The floors, each with its note, and what is computed from them. -/
def floored (s : AmountSettings) : AmountSettings × List Note :=
  let minChannel := floorAmount s.minChannel minMinChannel minChannelNote
  let maxChannel := floorAmount s.maxChannel minUsableMaxChannel maxChannelNote
  let reserve := floorAmount s.reserve minUsableReserve reserveNote
  ({ s with minChannel := minChannel.1, maxChannel := maxChannel.1, reserve := reserve.1 }.derive,
    minChannel.2 ++ maxChannel.2 ++ reserve.2)

/-- The largest smallest channel for the largest one. -/
def loweredMinChannel (s : AmountSettings) : Amount :=
  .sat ((s.maxChannel.sub additionalRemaining).toSat / 3)

/-- `validate`: the settings as forced, and a note of every change. -/
def validate (s : AmountSettings) : AmountSettings × List Note :=
  let forced := (floored s).1
  let notes := (floored s).2
  if (forced.minChannel.add forced.minRemaining).le forced.maxChannel then (forced, notes)
  else
    let lowered := loweredMinChannel forced
    ({ forced with minChannel := lowered }.derive, notes ++ [conflictNote forced lowered])

/-- The amounts an option can set. -/
inductive Field where
  | reserve
  | minChannel
  | maxChannel
deriving DecidableEq, Repr

/-- `field_of`, by the name of the option. -/
def fieldOf (name : String) : Option Field :=
  if name = "clboss-min-onchain" then some .reserve
  else if name = "clboss-min-channel" then some .minChannel
  else if name = "clboss-max-channel" then some .maxChannel
  else none

def AmountSettings.set (s : AmountSettings) (amount : Amount) : Field → AmountSettings
  | .reserve    => { s with reserve := amount }
  | .minChannel => { s with minChannel := amount }
  | .maxChannel => { s with maxChannel := amount }

/-- The settings before any option is read. -/
def AmountSettings.defaults : AmountSettings :=
  ⟨defaultMinChannel, defaultMaxChannel, defaultReserve, ⟨0⟩, ⟨0⟩⟩

/-- `on_startup_option`: the value is taken, clean or not. -/
def onStartupOption (s : AmountSettings) (field : Field) (value : String) : AmountSettings :=
  s.set (parseSats value).2 field

/-- `on_dynamic_option`: the new settings, or the reason to refuse the value. -/
def onDynamicOption (s : AmountSettings) (name value : String) (field : Field) :
    Except String AmountSettings :=
  if (parseSats value).1 then
    match validate (s.set (parseSats value).2 field) with
    | (candidate, [])  => .ok candidate
    | (_, note :: _)   => .error note.problem
  else .error (name ++ ": not a valid amount in satoshis")

/-! ## What the settings promise -/

/-- The Planner's second condition: a channel and what is to remain fit under the
    largest channel. -/
def AmountSettings.Fits (s : AmountSettings) : Prop :=
  (s.minChannel.add s.minRemaining).le s.maxChannel = true

instance (s : AmountSettings) : Decidable s.Fits := inferInstanceAs (Decidable (_ = true))

theorem floorAmount_nil {amount floor : Amount} {note : Amount → Note}
    (h : (floorAmount amount floor note).2 = []) : (floorAmount amount floor note).1 = amount := by
  unfold floorAmount at h ⊢
  by_cases hlt : amount.lt floor = true
  · rw [if_pos hlt] at h
    exact nomatch h
  · rw [if_neg hlt]

theorem floored_nil {s : AmountSettings} (h : (floored s).2 = []) : (floored s).1 = s.derive := by
  obtain ⟨h, h₃⟩ := List.append_eq_nil_iff.mp h
  obtain ⟨h₁, h₂⟩ := List.append_eq_nil_iff.mp h
  unfold floored
  dsimp only
  rw [floorAmount_nil h₁, floorAmount_nil h₂, floorAmount_nil h₃]

/-- Settings that pass without a note are taken as they are, and fit. -/
theorem fits_of_no_notes {s s' : AmountSettings} (h : validate s = (s', [])) :
    s' = s.derive ∧ s'.Fits := by
  unfold validate at h
  by_cases hfits : ((floored s).1.minChannel.add (floored s).1.minRemaining).le
      (floored s).1.maxChannel = true
  · dsimp only at h
    rw [if_pos hfits, Prod.mk.injEq] at h
    obtain ⟨rfl, hnotes⟩ := h
    exact ⟨floored_nil hnotes, hfits⟩
  · -- a conflict is always noted
    dsimp only at h
    rw [if_neg hfits, Prod.mk.injEq] at h
    exact absurd h.2 (List.append_ne_nil_of_right_ne_nil _ (List.cons_ne_nil _ _))

/-- A change through `setconfig` takes effect as written or not at all. -/
theorem fits_of_onDynamicOption {s s' : AmountSettings} {name value : String} {field : Field}
    (h : onDynamicOption s name value field = .ok s') :
    s' = (s.set (parseSats value).2 field).derive ∧ s'.Fits := by
  unfold onDynamicOption at h
  by_cases hclean : (parseSats value).1 = true
  · rw [if_pos hclean] at h
    rcases hv : validate (s.set (parseSats value).2 field) with ⟨candidate, _ | ⟨note, notes⟩⟩
    · rw [hv] at h
      cases h
      exact fits_of_no_notes hv
    · rw [hv] at h
      cases h
  · rw [if_neg hclean] at h
    cases h

end AmountSettingsHandler
