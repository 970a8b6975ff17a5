import Clboss.AmountArithProofs

/-! # Dowser — the search between a probe that passes and one that fails

    A probe of the full amount is tried first, then one of the floor, and between
    the two the search halves until the gap is within the resolution, which is a
    thirty-second of the full amount.  A gap shrinks by halves, rounded up, so
    that six halvings are always enough (`gap_half`), whatever the probes say; and
    with a capacity behind them it stays between the ends (`Between`).

    The midpoint is taken of a SUM IN 64 BITS.  Where the ends add up to `2 ^ 64`
    it falls below both of them, and the gap grows again: for the probe amounts
    from `2 ^ 68 / 31` on there is a search without an end (`endless`), and up to
    `2 ^ 63` the sum always fits (`fits_of_le`). -/

namespace Dowser

open Ln

/-! ## The code -/

def reserveFactor : Double := .ofRat (985 / 1000)

def defaultProbeAmount : Amount := .sat 1000000

/-- The probe amount of a `Run`. -/
def probeAmount (probeTarget : Amount) : Amount :=
  if (Amount.sat 0).lt probeTarget then
    (probeTarget.mul ((Double.finite 1).div reserveFactor)).add (.sat 1)
  else defaultProbeAmount

def resolution (probeAmount : Amount) : Amount := .msat (probeAmount.toMsat / 32)

/-- `floor_probe_amount`. -/
def floorProbeAmount (probeAmount floorTarget : Amount) : Amount :=
  let resolution := resolution probeAmount
  if floorTarget = .sat 0 then .msat (resolution.toMsat + 1)
  else
    let scaled := (floorTarget.mul ((Double.finite 1).div reserveFactor)).add (.sat 1)
    if scaled.lt resolution then .msat (scaled.toMsat + 1)
    else .msat (resolution.toMsat + 1)

/-- What comes of a probe: an amount, zero where there is no flow, or another failure. -/
inductive Answer where
  | delivered (d : Amount)
  | failed

/-- Where a run is: in the probe of the full amount, of the floor, or of the middle between
    `lo` and `hi`; or at its end, with the raw result and the amount, or without. -/
inductive State where
  | full
  | floor
  | refining (lo hi loDelivered : Amount)
  | done (raw amount : Amount)
  | aborted
deriving DecidableEq

/-- `finish_probe`. -/
def finishProbe (delivered : Amount) : State := .done delivered (delivered.mul reserveFactor)

def mid (lo hi : Amount) : Amount := .msat ((lo.toMsat + hi.toMsat) / 2)

/-- `refine`, up to its probe. -/
def refine (lo hi loDelivered resolution : Amount) : State :=
  if hi.le lo || (hi.sub lo).le resolution then finishProbe loDelivered
  else .refining lo hi loDelivered

/-- `probe` and `refine`, from one probe to the next. -/
def State.step (probeAmount floorTarget : Amount) (probeFlow : Amount → Answer) : State → State
  | .full =>
      match probeFlow probeAmount with
      | .failed      => .aborted
      | .delivered d => if d ≠ .sat 0 then finishProbe d else .floor
  | .floor =>
      let floorAmt := floorProbeAmount probeAmount floorTarget
      match probeFlow floorAmt with
      | .failed       => .aborted
      | .delivered lo =>
          if lo = .sat 0 then .done (.sat 0) (.sat 0)
          else refine floorAmt probeAmount lo (resolution probeAmount)
  | .refining lo hi loDelivered =>
      match probeFlow (mid lo hi) with
      | .failed      => .aborted
      | .delivered d =>
          if d ≠ .sat 0 then refine (mid lo hi) hi d (resolution probeAmount)
          else refine lo (mid lo hi) loDelivered (resolution probeAmount)
  | .done raw amount => .done raw amount
  | .aborted         => .aborted

/-- The run after so many probes; `o` is what comes of each of them. -/
def after (probeAmount floorTarget : Amount) (o : ℕ → Amount → Answer) : ℕ → State
  | 0     => .full
  | n + 1 => (after probeAmount floorTarget o n).step probeAmount floorTarget (o n)

/-! ## What the search is to do -/

def State.Ended : State → Prop
  | .done _ _ | .aborted => True
  | _                    => False

/-- A probe of an all-or-nothing capacity. -/
def deliver (capacity a : Amount) : Answer :=
  .delivered (if a.le capacity then a else .sat 0)

/-- What the raw result is to be. -/
structure Measures (probeAmount floorTarget capacity raw : Amount) : Prop where
  full  : probeAmount.v.toNat ≤ capacity.v.toNat → raw = probeAmount
  none  : capacity.v.toNat < (floorProbeAmount probeAmount floorTarget).v.toNat → raw = .sat 0
  among : (floorProbeAmount probeAmount floorTarget).v.toNat ≤ capacity.v.toNat →
    capacity.v.toNat < probeAmount.v.toNat →
    raw.v.toNat ≤ capacity.v.toNat
      ∧ capacity.v.toNat - raw.v.toNat < probeAmount.v.toNat / 32 + 1

/-- The search ends, and if a capacity answers it measures it. -/
def Searched (probeAmount floorTarget : Amount) (o : ℕ → Amount → Answer) : Prop :=
  (∃ n, (after probeAmount floorTarget o n).Ended)
    ∧ ∀ capacity, o = (fun _ => deliver capacity) →
        ∃ n raw amount, after probeAmount floorTarget o n = .done raw amount
          ∧ Measures probeAmount floorTarget capacity raw

/-- The sum of the ends that are halved is one of 64 bits. -/
def State.Fits : State → Prop
  | .refining lo hi _ => lo.v.toNat + hi.v.toNat < 2 ^ 64
  | _                 => True

/-! ## Amounts -/

variable {p t lo hi d : Amount} {o : ℕ → Amount → Answer} {s : State} {n : ℕ}

theorem toNat_resolution (p : Amount) : (resolution p).v.toNat = p.v.toNat / 32 :=
  UInt64.toNat_div _ _

theorem toNat_mid (h : lo.v.toNat + hi.v.toNat < 2 ^ 64) :
    (mid lo hi).v.toNat = (lo.v.toNat + hi.v.toNat) / 2 := by
  show ((lo.v + hi.v) / 2).toNat = _
  rw [UInt64.toNat_div, UInt64.toNat_add, Nat.mod_eq_of_lt h]
  rfl

/-- Beyond 64 bits the midpoint is too low. -/
theorem toNat_mid_wrapped (h : 2 ^ 64 ≤ lo.v.toNat + hi.v.toNat) :
    (mid lo hi).v.toNat = (lo.v.toNat + hi.v.toNat - 2 ^ 64) / 2 := by
  have hlo := lo.v.toNat_lt
  have hhi := hi.v.toNat_lt
  have hmod : (lo.v.toNat + hi.v.toNat) % 2 ^ 64 = lo.v.toNat + hi.v.toNat - 2 ^ 64 := by omega
  show ((lo.v + hi.v) / 2).toNat = _
  rw [UInt64.toNat_div, UInt64.toNat_add, hmod]
  rfl

theorem toNat_succ {a : Amount} (h : a.v.toNat + 1 < 2 ^ 64) :
    (Amount.msat (a.toMsat + 1)).v.toNat = a.v.toNat + 1 := by
  show (a.v + 1).toNat = _
  rw [UInt64.toNat_add]
  exact Nat.mod_eq_of_lt h

theorem ne_sat_zero {a : Amount} (h : 0 < a.v.toNat) : a ≠ .sat 0 := by
  rintro rfl
  exact Nat.lt_irrefl 0 h

/-- **SPEC (floor_probe_amount)**: it is above zero, and at most just above the resolution. -/
theorem floor_bounds (p t : Amount) : 1 ≤ (floorProbeAmount p t).v.toNat
    ∧ (floorProbeAmount p t).v.toNat ≤ p.v.toNat / 32 + 1 := by
  have hp := p.v.toNat_lt
  have hresolution := toNat_resolution p
  have hbase : (Amount.msat ((resolution p).toMsat + 1)).v.toNat = p.v.toNat / 32 + 1 := by
    rw [toNat_succ (by omega), hresolution]
  unfold floorProbeAmount
  simp only
  split
  · omega
  · split
    · rename_i hlt
      rw [Amount.lt_iff] at hlt
      rw [toNat_succ (by omega)]
      omega
    · omega

/-- A run probes for at least 32 msat. -/
theorem le_probeAmount (target : Amount) : 32 ≤ (probeAmount target).v.toNat := by
  unfold probeAmount
  split
  · rw [Amount.toNat_add]
    have hsat : (Amount.sat 1).v.toNat = 1000 := rfl
    omega
  · decide

/-! ## The search ends -/

/-- **SPEC (refine)**: it goes on while the gap is above the resolution. -/
theorem refine_eq (lo hi d r : Amount) :
    refine lo hi d r
      = if r.v.toNat < hi.v.toNat - lo.v.toNat then .refining lo hi d else finishProbe d := by
  have hstop : (hi.le lo || (hi.sub lo).le r) = true ↔ hi.v.toNat - lo.v.toNat ≤ r.v.toNat := by
    rw [Bool.or_eq_true, Amount.le_iff, Amount.le_iff, Amount.toNat_sub]
    omega
  unfold refine
  by_cases h : r.v.toNat < hi.v.toNat - lo.v.toNat
  · rw [if_pos h, if_neg (fun hs => absurd (hstop.mp hs) (Nat.not_le_of_lt h))]
  · rw [if_neg h, if_pos (hstop.mpr (Nat.le_of_not_lt h))]

/-- A gap, less one, halves. -/
theorem gap_half (h : lo.v.toNat + hi.v.toNat < 2 ^ 64) (hlt : lo.v.toNat < hi.v.toNat) :
    hi.v.toNat - (mid lo hi).v.toNat - 1 ≤ (hi.v.toNat - lo.v.toNat - 1) / 2
      ∧ (mid lo hi).v.toNat - lo.v.toNat - 1 ≤ (hi.v.toNat - lo.v.toNat - 1) / 2 := by
  rw [toNat_mid h]
  omega

/-- What a probe can lead to. -/
theorem step_cases (p t : Amount) (f : Amount → Answer) (s : State) :
    (s.step p t f).Ended
      ∨ s = .full ∧ s.step p t f = .floor
      ∨ s = .floor ∧ (∃ d, s.step p t f = refine (floorProbeAmount p t) p d (resolution p))
      ∨ ∃ lo hi d, s = .refining lo hi d
          ∧ ((∃ d', s.step p t f = refine (mid lo hi) hi d' (resolution p))
            ∨ s.step p t f = refine lo (mid lo hi) d (resolution p)) := by
  cases s with
  | full =>
      cases hd : f p with
      | failed => exact .inl (by simp only [State.step, hd, State.Ended])
      | delivered d =>
          simp only [State.step, hd]
          split
          · exact .inl True.intro
          · exact .inr (.inl ⟨trivial, rfl⟩)
  | floor =>
      cases hd : f (floorProbeAmount p t) with
      | failed => exact .inl (by simp only [State.step, hd, State.Ended])
      | delivered d =>
          simp only [State.step, hd]
          split
          · exact .inl True.intro
          · exact .inr (.inr (.inl ⟨trivial, d, rfl⟩))
  | refining lo hi d =>
      cases hd : f (mid lo hi) with
      | failed => exact .inl (by simp only [State.step, hd, State.Ended])
      | delivered d' =>
          refine .inr (.inr (.inr ⟨lo, hi, d, rfl, ?_⟩))
          simp only [State.step, hd]
          split
          · exact .inl ⟨d', rfl⟩
          · exact .inr rfl
  | done raw amount => exact .inl True.intro
  | aborted         => exact .inl True.intro

/-- So many probes, and so small a gap. -/
def Shrinking (p : Amount) (n : ℕ) : State → Prop
  | .full             => n = 0
  | .floor            => n = 1
  | .refining lo hi _ => p.v.toNat / 32 < hi.v.toNat - lo.v.toNat
      ∧ ∃ k, n = k + 2 ∧ (hi.v.toNat - lo.v.toNat - 1) * 2 ^ k ≤ p.v.toNat
  | _                 => True

theorem shrinking_refine {k : ℕ} (hn : n = k + 2)
    (hgap : (hi.v.toNat - lo.v.toNat - 1) * 2 ^ k ≤ p.v.toNat) :
    Shrinking p n (refine lo hi d (resolution p)) := by
  rw [refine_eq, toNat_resolution]
  split
  · rename_i hlt
    exact ⟨hlt, k, hn, hgap⟩
  · exact True.intro

theorem shrinking_of_ended (h : s.Ended) : Shrinking p n s := by
  cases s with
  | done raw amount => exact True.intro
  | aborted         => exact True.intro
  | _               => exact h.elim

/-- **STEP**. -/
theorem shrinking_step (t : Amount) (f : Amount → Answer) (hfits : s.Fits)
    (h : Shrinking p n s) : Shrinking p (n + 1) (s.step p t f) := by
  rcases step_cases p t f s with hended | ⟨rfl, heq⟩ | ⟨rfl, d, heq⟩ | ⟨lo, hi, d, rfl, hstep⟩
  · exact shrinking_of_ended hended
  · rw [heq]
    exact congrArg (· + 1) h
  · rw [heq]
    refine shrinking_refine (k := 0) (congrArg (· + 1) h) ?_
    omega
  · obtain ⟨hres, k, rfl, hgap⟩ := h
    obtain ⟨hup, hdown⟩ := gap_half hfits (by omega)
    have hhalf : (hi.v.toNat - lo.v.toNat - 1) / 2 * 2 ^ (k + 1) ≤ p.v.toNat := by
      calc (hi.v.toNat - lo.v.toNat - 1) / 2 * 2 ^ (k + 1)
          = (hi.v.toNat - lo.v.toNat - 1) / 2 * 2 * 2 ^ k := by ring
        _ ≤ (hi.v.toNat - lo.v.toNat - 1) * 2 ^ k :=
            Nat.mul_le_mul_right _ (Nat.div_mul_le_self _ 2)
        _ ≤ p.v.toNat := hgap
    rcases hstep with ⟨d', heq⟩ | heq
    · rw [heq]
      exact shrinking_refine rfl ((Nat.mul_le_mul_right _ hup).trans hhalf)
    · rw [heq]
      exact shrinking_refine rfl ((Nat.mul_le_mul_right _ hdown).trans hhalf)

/-- **RUN**. -/
theorem shrinking_after (hfits : ∀ n, (after p t o n).Fits) (n : ℕ) :
    Shrinking p n (after p t o n) := by
  induction n with
  | zero      => exact rfl
  | succ n ih => exact shrinking_step t (o n) (hfits n) ih

/-- Eight probes are enough: two, and six halvings. -/
theorem ended_of_fits (hp : 32 ≤ p.v.toNat) (hfits : ∀ n, (after p t o n).Fits) :
    (after p t o 8).Ended := by
  have h := shrinking_after hfits 8
  revert h
  cases after p t o 8 with
  | full  => exact nofun
  | floor => exact nofun
  | refining lo hi d =>
      rintro ⟨hres, k, hk, hgap⟩
      obtain rfl : k = 6 := by omega
      exfalso
      omega
  | done raw amount => exact fun _ => True.intro
  | aborted         => exact fun _ => True.intro

/-! ## A capacity is measured -/

/-- The capacity is between the ends, and what the lower one delivered is itself. -/
def Between (p t c : Amount) : State → Prop
  | .full             => True
  | .floor            => c.v.toNat < p.v.toNat
  | .refining lo hi d => (floorProbeAmount p t).v.toNat ≤ c.v.toNat ∧ c.v.toNat < p.v.toNat
      ∧ lo.v.toNat ≤ c.v.toNat ∧ c.v.toNat < hi.v.toNat ∧ d = lo
      ∧ p.v.toNat / 32 < hi.v.toNat - lo.v.toNat
  | .done raw _       => Measures p t c raw
  | .aborted          => False

variable {c : Amount}

/-- **SPEC (refine)**: it stops near the capacity. -/
theorem between_refine (hfloor : (floorProbeAmount p t).v.toNat ≤ c.v.toNat)
    (hc : c.v.toNat < p.v.toNat) (hlo : lo.v.toNat ≤ c.v.toNat) (hhi : c.v.toNat < hi.v.toNat) :
    Between p t c (refine lo hi lo (resolution p)) := by
  rw [refine_eq, toNat_resolution]
  split
  · rename_i hlt
    exact ⟨hfloor, hc, hlo, hhi, rfl, hlt⟩
  · exact ⟨fun h => absurd hc (Nat.not_lt_of_le h), fun h => absurd hfloor (Nat.not_le_of_lt h),
      fun _ _ => ⟨hlo, by omega⟩⟩

/-- **SPEC (deliver)**: a probe above zero shows on which side of the capacity it is. -/
theorem deliver_eq {a : Amount} (ha : 0 < a.v.toNat) :
    ∃ d, deliver c a = .delivered d
      ∧ (d ≠ .sat 0 ∧ d = a ∧ a.v.toNat ≤ c.v.toNat ∨ d = .sat 0 ∧ c.v.toNat < a.v.toNat) := by
  refine ⟨_, rfl, ?_⟩
  by_cases h : a.v.toNat ≤ c.v.toNat
  · rw [if_pos ((Amount.le_iff a c).mpr h)]
    exact .inl ⟨ne_sat_zero ha, rfl, h⟩
  · rw [if_neg (fun hle => h ((Amount.le_iff a c).mp hle))]
    exact .inr ⟨rfl, Nat.lt_of_not_le h⟩

/-- **STEP**. -/
theorem between_step (hp : 32 ≤ p.v.toNat) (hfits : s.Fits) (h : Between p t c s) :
    Between p t c (s.step p t (deliver c)) := by
  obtain ⟨hone, hfloor⟩ := floor_bounds p t
  cases s with
  | full =>
      obtain ⟨d, hd, ⟨hne, rfl, hle⟩ | ⟨rfl, hlt⟩⟩ := deliver_eq (c := c) (a := p) (by omega)
      · simp only [State.step, hd, if_pos hne]
        exact ⟨fun _ => rfl, fun h => by omega, fun _ h => by omega⟩
      · simp only [State.step, hd, ne_eq, not_true_eq_false, if_false]
        exact hlt
  | floor =>
      obtain ⟨d, hd, ⟨hne, rfl, hle⟩ | ⟨rfl, hlt⟩⟩ := deliver_eq (c := c) hone
      · simp only [State.step, hd, if_neg hne]
        exact between_refine hle h hle h
      · simp only [State.step, hd, if_true]
        exact ⟨fun h' => absurd h (Nat.not_lt_of_le h'), fun _ => rfl, fun h' => by omega⟩
  | refining lo hi d =>
      obtain ⟨hf, hc, hlo, hhi, rfl, hgap⟩ := h
      have hmid := toNat_mid hfits
      obtain ⟨d', hd, ⟨hne, rfl, hle⟩ | ⟨rfl, hlt⟩⟩ :=
        deliver_eq (c := c) (a := mid d hi) (by omega)
      · simp only [State.step, hd, if_pos hne]
        exact between_refine hf hc hle hhi
      · simp only [State.step, hd, ne_eq, not_true_eq_false, if_false]
        exact between_refine hf hc hlo hlt
  | done raw amount => exact h
  | aborted         => exact h

/-- **RUN**. -/
theorem between_after (hp : 32 ≤ p.v.toNat)
    (hfits : ∀ n, (after p t (fun _ => deliver c) n).Fits) (n : ℕ) :
    Between p t c (after p t (fun _ => deliver c) n) := by
  induction n with
  | zero      => exact True.intro
  | succ n ih => exact between_step hp (hfits n) ih

theorem searched_of_fits (hp : 32 ≤ p.v.toNat) (hfits : ∀ n, (after p t o n).Fits) :
    Searched p t o := by
  have hended := ended_of_fits hp hfits
  refine ⟨⟨8, hended⟩, ?_⟩
  rintro c rfl
  have hbetween := between_after hp hfits 8
  revert hended hbetween
  cases hs : after p t (fun _ => deliver c) 8 with
  | full             => exact nofun
  | floor            => exact nofun
  | refining lo hi d => exact nofun
  | done raw amount  => exact fun _ hmeasures => ⟨8, raw, amount, hs, hmeasures⟩
  | aborted          => exact fun _ => nofun

/-! ## Where the sum fits, and where it does not -/

/-- The ends are in order and not above the probe amount. -/
def Within (p : Amount) : State → Prop
  | .refining lo hi _ => lo.v.toNat < hi.v.toNat ∧ hi.v.toNat ≤ p.v.toNat
  | _                 => True

theorem Within.fits (hp : p.v.toNat ≤ 2 ^ 63) (h : Within p s) : s.Fits := by
  cases s with
  | refining lo hi d =>
      obtain ⟨hlt, hle⟩ := h
      show lo.v.toNat + hi.v.toNat < 2 ^ 64
      omega
  | _ => exact True.intro

theorem within_refine (r : Amount) (hle : hi.v.toNat ≤ p.v.toNat) :
    Within p (refine lo hi d r) := by
  rw [refine_eq]
  split
  · exact ⟨by omega, hle⟩
  · exact True.intro

theorem within_of_ended (h : s.Ended) : Within p s := by
  cases s with
  | refining lo hi d => exact h.elim
  | _                => exact True.intro

/-- **STEP**. -/
theorem within_step (t : Amount) (f : Amount → Answer) (hp : p.v.toNat ≤ 2 ^ 63)
    (h : Within p s) : Within p (s.step p t f) := by
  rcases step_cases p t f s with hended | ⟨rfl, heq⟩ | ⟨rfl, d, heq⟩ | ⟨lo, hi, d, rfl, hstep⟩
  · exact within_of_ended hended
  · rw [heq]
    exact True.intro
  · rw [heq]
    exact within_refine _ (Nat.le_refl _)
  · have hmid := toNat_mid (h.fits hp)
    obtain ⟨hlt, hle⟩ := h
    rcases hstep with ⟨d', heq⟩ | heq
    · rw [heq]
      exact within_refine _ hle
    · rw [heq]
      exact within_refine _ (by omega)

/-- Up to `2 ^ 63` there is room for every sum. -/
theorem fits_of_le (hp : p.v.toNat ≤ 2 ^ 63) (t : Amount) (o : ℕ → Amount → Answer) (n : ℕ) :
    (after p t o n).Fits := by
  have hwithin : Within p (after p t o n) := by
    induction n with
    | zero      => exact True.intro
    | succ n ih => exact within_step t (o n) hp ih
  exact hwithin.fits hp

/-- Every probe passes, but the first. -/
def allButFirst (n : ℕ) (_ : Amount) : Answer := .delivered ⟨if n = 0 then 0 else 1⟩

/-- The bracket is open, up to the probe amount. -/
def Open (p : Amount) (s : State) : Prop :=
  ∃ lo d, s = .refining lo p d ∧ p.v.toNat / 32 < p.v.toNat - lo.v.toNat

theorem open_refine (h : p.v.toNat / 32 < p.v.toNat - lo.v.toNat) :
    Open p (refine lo p d (resolution p)) := by
  rw [refine_eq, toNat_resolution, if_pos h]
  exact ⟨lo, d, rfl, h⟩

/-- **STEP**: a gap that is as wide as to be halved within 64 bits stays above the
    resolution, and any other one grows. -/
theorem open_step (hp : 2 ^ 68 ≤ 31 * p.v.toNat) (n : ℕ) (h : Open p s) :
    Open p (s.step p t (allButFirst (n + 1))) := by
  obtain ⟨lo, d, rfl, hgap⟩ := h
  have hlt := p.v.toNat_lt
  have hmid : p.v.toNat / 32 < p.v.toNat - (mid lo p).v.toNat := by
    by_cases hsum : lo.v.toNat + p.v.toNat < 2 ^ 64
    · rw [toNat_mid hsum]
      omega
    · rw [toNat_mid_wrapped (Nat.le_of_not_lt hsum)]
      omega
  exact open_refine hmid

/-- From `2 ^ 68 / 31` on, there is a search without an end. -/
theorem endless (hp : 2 ^ 68 ≤ 31 * p.v.toNat) (t : Amount) (n : ℕ) :
    ¬ (after p t allButFirst n).Ended := by
  obtain ⟨-, hfloor⟩ := floor_bounds p t
  have hopen : ∀ k, Open p (after p t allButFirst (k + 2)) := by
    intro k
    induction k with
    | zero      => exact open_refine (by omega)
    | succ k ih => exact open_step hp _ ih
  rcases n with _ | _ | n
  · exact id
  · exact id
  · obtain ⟨lo, d, heq, -⟩ := hopen n
    rw [heq]
    exact id

/-- **HEADLINE**: where the sums fit, the search ends and measures a capacity; they all fit
    up to `2 ^ 63`, and from `2 ^ 68 / 31` on some search does not end. -/
theorem searched_run (hp : 32 ≤ p.v.toNat) (t : Amount) :
    (∀ o, (∀ n, (after p t o n).Fits) → Searched p t o)
      ∧ (p.v.toNat ≤ 2 ^ 63 → ∀ o n, (after p t o n).Fits)
      ∧ (2 ^ 68 ≤ 31 * p.v.toNat → ∃ o, ¬ Searched p t o) := by
  refine ⟨fun o hfits => searched_of_fits hp hfits, fun hle o n => fits_of_le hle t o n,
    fun hlarge => ⟨allButFirst, fun hsearched => ?_⟩⟩
  obtain ⟨n, hn⟩ := hsearched.1
  exact endless hlarge t n hn

/-- A capacity that takes six halvings is measured, 26562 msat short. -/
theorem searched_run_six :
    Searched ⟨1000000⟩ (.sat 0) (fun _ => deliver ⟨300000⟩)
      ∧ after ⟨1000000⟩ (.sat 0) (fun _ => deliver ⟨300000⟩) 7
        = finishProbe ⟨273438⟩ := by
  obtain ⟨hsearched, hfits, -⟩ := searched_run (p := ⟨1000000⟩) (by decide) (.sat 0)
  refine ⟨hsearched _ (fun n => hfits (by decide) _ n), ?_⟩
  decide +kernel

/-- The probe amount of a target that is a number of satoshis, and whose brackets do
    not fit. -/
def wide : Amount := probeAmount (.sat 12800000000000000)

theorem wide_eq : wide = ⟨12994923857868020712⟩ := by decide +kernel

/-- A capacity a little below it. -/
def ample : Amount := ⟨12000000000000000000⟩

/-- The lower end is about 7e17 or about 68e17, and from each it comes to the other. -/
def Swinging (s : State) : Prop :=
  ∃ lo, s = .refining lo wide lo
    ∧ (400000000000000000 ≤ lo.v.toNat ∧ lo.v.toNat ≤ 710000000000000000
      ∨ 6690000000000000000 ≤ lo.v.toNat ∧ lo.v.toNat ≤ 6860000000000000000)

theorem swinging_step (h : Swinging s) :
    Swinging (s.step wide (.sat 0) (deliver ample)) := by
  obtain ⟨lo, rfl, hlo⟩ := h
  have hwide : wide.v.toNat = 12994923857868020712 := congrArg (fun a => a.v.toNat) wide_eq
  have hample : ample.v.toNat = 12000000000000000000 := rfl
  have hmid : 400000000000000000 ≤ (mid lo wide).v.toNat
        ∧ (mid lo wide).v.toNat ≤ 710000000000000000
      ∨ 6690000000000000000 ≤ (mid lo wide).v.toNat
        ∧ (mid lo wide).v.toNat ≤ 6860000000000000000 := by
    by_cases hsum : lo.v.toNat + wide.v.toNat < 2 ^ 64
    · rw [toNat_mid hsum]
      omega
    · rw [toNat_mid_wrapped (Nat.le_of_not_lt hsum)]
      omega
  obtain ⟨d, hd, ⟨hne, rfl, -⟩ | ⟨-, hlt⟩⟩ :=
    deliver_eq (c := ample) (a := mid lo wide) (by omega)
  · simp only [State.step, hd, if_pos hne]
    rw [refine_eq, toNat_resolution, if_pos (by omega)]
    exact ⟨_, rfl, hmid⟩
  · omega

/-- The lower end falls back below itself, again and again. -/
theorem wide_unsearched : 32 ≤ wide.v.toNat
    ∧ ¬ Searched wide (.sat 0) (fun _ => deliver ample) := by
  have hswinging : ∀ k, Swinging (after wide (.sat 0) (fun _ => deliver ample) (k + 2)) := by
    intro k
    induction k with
    | zero =>
        rw [wide_eq]
        exact ⟨⟨406091370558375648⟩, by rw [wide_eq]; decide +kernel, .inl (by decide)⟩
    | succ k ih => exact swinging_step ih
  refine ⟨le_probeAmount _, fun hsearched => ?_⟩
  obtain ⟨n, hn⟩ := hsearched.1
  rcases n with _ | _ | n
  · exact hn
  · have hfloor : after wide (.sat 0) (fun _ => deliver ample) 1 = .floor := by decide +kernel
    rw [hfloor] at hn
    exact hn
  · obtain ⟨lo, heq, -⟩ := hswinging n
    rw [heq] at hn
    exact hn

end Dowser
