import Clboss.XRebalancerCycleProofs

/-! # XRebalancer — an option is taken whole or not at all

    Ten options go through one function.  A value that is no finite number is
    rejected, numbers outside the range of their option are clamped into it, and no
    other setting is touched.

    One option is a number AND a mode: the floor.  Its mode is left before its number
    is read, so a value that is rejected still ends the automatic floor, and the
    reply does not show it.  `allOrNothing_iff` says that this is the only leak. -/

namespace XRebalancer

/-! ## The settings one by one -/

/-- A setting that an option names. -/
inductive Setting where
  | knob (knob : Knob)
  | maxparts
deriving DecidableEq

def Setting.ofName (name : String) : Option Setting :=
  if name = optMaxparts then some .maxparts else (Knob.ofName name).map .knob

/-- What a setting holds. -/
inductive Held where
  | real (x : Double)
  | floor (ppm : Double) (auto : Bool)
  | band (b : Band)
  | count (n : UInt32)

def Knobs.held (k : Knobs) : Setting → Held
  | .knob .perHour     => .real k.perHour
  | .knob .floor       => .floor k.floorPpm k.floorAuto
  | .knob .windowDays  => .real k.windowDays
  | .knob .fillLoc     => .band k.fillBand
  | .knob .drainLoc    => .band k.drainBand
  | .knob .grant       => .real k.grantPpm
  | .knob .grantWeight => .real k.grantWeight
  | .knob .gain        => .real k.gain
  | .maxparts          => .count k.maxparts

/-- There is no more to the settings. -/
theorem Knobs.ext_held {k k' : Knobs} (h : ∀ s, k.held s = k'.held s) : k = k' := by
  have hperHour := h (.knob .perHour)
  have hfloor := h (.knob .floor)
  have hwindowDays := h (.knob .windowDays)
  have hfill := h (.knob .fillLoc)
  have hdrain := h (.knob .drainLoc)
  have hgrant := h (.knob .grant)
  have hweight := h (.knob .grantWeight)
  have hgain := h (.knob .gain)
  have hmaxparts := h .maxparts
  obtain ⟨⟨floorPpm, fillBand, drainBand, floorAuto⟩, perHour, windowDays, maxparts, grantPpm,
    grantWeight, gain⟩ := k
  cases hperHour
  cases hfloor
  cases hwindowDays
  cases hfill
  cases hdrain
  cases hgrant
  cases hweight
  cases hgain
  cases hmaxparts
  rfl

/-- A finite number that `P` holds of. -/
def FiniteAnd (P : ℚ → Prop) (x : Double) : Prop := ∃ q, x = .finite q ∧ P q

/-- The setting is finite and in the range of its option. -/
def Knobs.InRange (k : Knobs) : Setting → Prop
  | .knob .perHour     => FiniteAnd (0 ≤ ·) k.perHour
  | .knob .floor       => k.floorAuto = true ∨ FiniteAnd (0 ≤ ·) k.floorPpm
  | .knob .windowDays  => FiniteAnd (0 ≤ ·) k.windowDays
  | .knob .fillLoc     => 0 ≤ k.fillBand.pct ∧ k.fillBand.pct ≤ 100
  | .knob .drainLoc    => 0 ≤ k.drainBand.pct ∧ k.drainBand.pct ≤ 100
  | .knob .grant       => FiniteAnd (0 ≤ ·) k.grantPpm
  | .knob .grantWeight => FiniteAnd (0 < ·) k.grantWeight
  | .knob .gain        => FiniteAnd (0 < ·) k.gain
  | .maxparts          => 1 ≤ k.maxparts.toNat ∧ k.maxparts.toNat ≤ 1000000

/-- Rejected, a value changes nothing; accepted, it changes the setting that the option names, to
    something in range. -/
structure AllOrNothing (stod : String → Option Double) (k : Knobs) (name value : String) :
    Prop where
  rejected : ∀ reason, (handleOption stod k name value).2 = some reason →
    (handleOption stod k name value).1 = k
  accepted : (handleOption stod k name value).2 = none →
    match Setting.ofName name with
    | none   => (handleOption stod k name value).1 = k
    | some s => (handleOption stod k name value).1.InRange s
        ∧ ∀ s', s' ≠ s → (handleOption stod k name value).1.held s' = k.held s'

/-! ## One value -/

/-- **SPEC**: a number is stored in range... -/
theorem Knobs.inRange_set (k : Knobs) {v : ℚ} (knob : Knob)
    (hpos : knob = .gain ∨ knob = .grantWeight → 0 < v) : (k.set v knob).InRange (.knob knob) := by
  cases knob with
  | perHour     => exact ⟨max 0 v, rfl, le_max_left 0 v⟩
  | floor       => exact Or.inr ⟨max 0 v, rfl, le_max_left 0 v⟩
  | windowDays  => exact ⟨max 0 v, rfl, le_max_left 0 v⟩
  | fillLoc     => exact ⟨(k.set v .fillLoc).fillBand.nonneg, (k.set v .fillLoc).fillBand.le_cent⟩
  | drainLoc    =>
      exact ⟨(k.set v .drainLoc).drainBand.nonneg, (k.set v .drainLoc).drainBand.le_cent⟩
  | grant       => exact ⟨max 0 v, rfl, le_max_left 0 v⟩
  | grantWeight => exact ⟨v, rfl, hpos (Or.inr rfl)⟩
  | gain        => exact ⟨v, rfl, hpos (Or.inl rfl)⟩

/-- ...and nowhere else. -/
theorem Knobs.held_set (k : Knobs) (v : ℚ) {knob : Knob} {s : Setting} (h : s ≠ .knob knob) :
    (k.set v knob).held s = k.held s := by
  rcases s with knob' | _
  · cases knob <;> cases knob' <;> first | rfl | exact absurd rfl h
  · cases knob <;> rfl

/-- Only the floor has a mode. -/
theorem Knobs.held_floorAuto (k : Knobs) (auto : Bool) {s : Setting} (h : s ≠ .knob .floor) :
    ({ k with floorAuto := auto } : Knobs).held s = k.held s := by
  rcases s with knob | _
  · cases knob <;> first | rfl | exact absurd rfl h
  · rfl

theorem maxparts_range (v : ℚ) :
    1 ≤ (UInt32.ofInt (min 1000000 (max 1 (roundAway v)))).toNat
      ∧ (UInt32.ofInt (min 1000000 (max 1 (roundAway v)))).toNat ≤ 1000000 := by
  have hlow : 1 ≤ min 1000000 (max 1 (roundAway v)) := le_min (by norm_num) (le_max_left _ _)
  have hhigh : min 1000000 (max 1 (roundAway v)) ≤ 1000000 := min_le_left _ _
  obtain ⟨n, hn⟩ := Int.eq_ofNat_of_zero_le (le_trans (by norm_num) hlow)
  rw [hn] at hlow hhigh ⊢
  have hto : (UInt32.ofInt (n : ℤ)).toNat = n := by
    show (UInt32.ofNat ((n : ℤ) % 2 ^ 32).toNat).toNat = n
    rw [UInt32.toNat_ofNat']
    omega
  rw [hto]
  omega

/-! ## All or nothing -/

variable {stod : String → Option Double} {k : Knobs} {name value : String}

/-- Another option than the floor is all or nothing. -/
theorem allOrNothing_of_ne (h : name ≠ optFloor) : AllOrNothing stod k name value := by
  have hauto : ¬(name = optFloor ∧ value = "auto") := fun hand => h hand.1
  by_cases hmaxparts : name = optMaxparts
  · have hname : Setting.ofName name = some .maxparts := if_pos hmaxparts
    rcases hvalue : finiteValue stod value with _ | v
    · have hhandle : handleOption stod k name value
          = (k, some (name ++ ": not a valid number")) := by
        simp only [handleOption, if_neg hauto, if_neg h, if_pos hmaxparts, hvalue]
      refine ⟨fun _ _ => by rw [hhandle], fun haccepted => ?_⟩
      rw [hhandle] at haccepted
      cases haccepted
    · have hhandle : handleOption stod k name value
          = ({ k with maxparts := UInt32.ofInt (min 1000000 (max 1 (roundAway v))) }, none) := by
        simp only [handleOption, if_neg hauto, if_neg h, if_pos hmaxparts, hvalue]
      refine ⟨fun _ hrejected => ?_, fun _ => ?_⟩
      · rw [hhandle] at hrejected
        cases hrejected
      · rw [hhandle, hname]
        refine ⟨maxparts_range v, fun s' hne => ?_⟩
        rcases s' with knob | _
        · cases knob <;> rfl
        · exact absurd rfl hne
  · have hname : Setting.ofName name = (Knob.ofName name).map .knob := if_neg hmaxparts
    rcases hknob : Knob.ofName name with _ | knob
    · have hhandle : handleOption stod k name value = (k, none) := by
        simp only [handleOption, if_neg hauto, if_neg h, if_neg hmaxparts, hknob]
      rw [hknob] at hname
      refine ⟨fun _ _ => by rw [hhandle], fun _ => ?_⟩
      rw [hname, hhandle]
      rfl
    · rw [hknob] at hname
      rcases hvalue : finiteValue stod value with _ | v
      · have hhandle : handleOption stod k name value
            = (k, some (name ++ ": not a valid number")) := by
          simp only [handleOption, if_neg hauto, if_neg h, if_neg hmaxparts, hknob, hvalue]
        refine ⟨fun _ _ => by rw [hhandle], fun haccepted => ?_⟩
        rw [hhandle] at haccepted
        cases haccepted
      · by_cases hout : (knob = .gain ∨ knob = .grantWeight) ∧ v ≤ 0
        · have hhandle : handleOption stod k name value
              = (k, some (name ++ ": must be > 0")) := by
            simp only [handleOption, if_neg hauto, if_neg h, if_neg hmaxparts, hknob, hvalue,
              if_pos hout]
          refine ⟨fun _ _ => by rw [hhandle], fun haccepted => ?_⟩
          rw [hhandle] at haccepted
          cases haccepted
        · have hhandle : handleOption stod k name value = (k.set v knob, none) := by
            simp only [handleOption, if_neg hauto, if_neg h, if_neg hmaxparts, hknob, hvalue,
              if_neg hout]
          refine ⟨fun _ hrejected => ?_, fun _ => ?_⟩
          · rw [hhandle] at hrejected
            cases hrejected
          · rw [hhandle, hname]
            exact ⟨k.inRange_set knob (fun hk => not_le.mp (fun hle => hout ⟨hk, hle⟩)),
              fun s' hne => k.held_set v hne⟩

/-- **SPEC** of the floor. -/
theorem handleOption_floor (stod : String → Option Double) (k : Knobs) (value : String) :
    handleOption stod k optFloor value
      = if value = "auto" then ({ k with floorAuto := true }, none)
        else match finiteValue stod value with
          | none   => ({ k with floorAuto := false }, some (optFloor ++ ": not a valid number"))
          | some v => (({ k with floorAuto := false } : Knobs).set v .floor, none) := by
  have hmaxparts : optFloor ≠ optMaxparts := by decide
  have hknob : Knob.ofName optFloor = some .floor := by decide
  have hpos : ∀ v : ℚ, ¬((Knob.floor = .gain ∨ Knob.floor = .grantWeight) ∧ v ≤ 0) := by
    rintro v ⟨h | h, -⟩
    · cases h
    · cases h
  unfold handleOption
  by_cases hauto : value = "auto"
  · rw [if_pos ⟨rfl, hauto⟩, if_pos hauto]
  · rw [if_neg (fun h => hauto h.2), if_neg hauto, if_pos rfl, hknob]
    simp only [if_neg hmaxparts]
    rcases finiteValue stod value with _ | v
    · rfl
    · simp only [if_neg (hpos v)]

/-- **HEADLINE**: an option is all or nothing, unless it is the floor, set to what is neither
    automatic nor a finite number while the automatic floor is on. -/
theorem allOrNothing_iff (stod : String → Option Double) (k : Knobs) (name value : String) :
    AllOrNothing stod k name value
      ↔ (name = optFloor → value ≠ "auto" → finiteValue stod value = none → k.floorAuto = false) := by
  by_cases hname : name = optFloor
  · subst hname
    have hhandle := handleOption_floor stod k value
    have hsetting : Setting.ofName optFloor = some (.knob .floor) := by decide
    by_cases hauto : value = "auto"
    · rw [if_pos hauto] at hhandle
      refine iff_of_true ⟨fun _ hrejected => ?_, fun _ => ?_⟩ (fun _ hne => absurd hauto hne)
      · rw [hhandle] at hrejected
        cases hrejected
      · rw [hhandle, hsetting]
        exact ⟨Or.inl rfl, fun s' hne => k.held_floorAuto true hne⟩
    · rw [if_neg hauto] at hhandle
      rcases hvalue : finiteValue stod value with _ | v
      · rw [hvalue] at hhandle
        constructor
        · intro h _ _ _
          have hsame := h.rejected _ (by rw [hhandle])
          rw [hhandle] at hsame
          have hheld := congrArg (fun k : Knobs => k.floorAuto) hsame
          exact hheld.symm
        · intro h
          have hoff := h rfl hauto rfl
          refine ⟨fun _ _ => ?_, fun haccepted => ?_⟩
          · rw [hhandle]
            refine Knobs.ext_held (fun s => ?_)
            by_cases hs : s = .knob .floor
            · rw [hs]
              exact congrArg (Held.floor k.floorPpm) hoff.symm
            · exact k.held_floorAuto false hs
          · rw [hhandle] at haccepted
            cases haccepted
      · rw [hvalue] at hhandle
        refine iff_of_true ⟨fun _ hrejected => ?_, fun _ => ?_⟩ (fun _ _ hnone => by cases hnone)
        · rw [hhandle] at hrejected
          cases hrejected
        · rw [hhandle, hsetting]
          refine ⟨Knobs.inRange_set _ .floor (fun h => ?_), fun s' hne => ?_⟩
          · rcases h with h | h
            · cases h
            · cases h
          · exact (Knobs.held_set _ v hne).trans (k.held_floorAuto false hne)
  · exact iff_of_true (allOrNothing_of_ne hname) (fun h => absurd h hname)

/-- **COUNTEREXAMPLE**: `"abc"` is rejected as a floor, and the automatic floor is off. -/
theorem floor_abc_not_allOrNothing :
    (handleOption sampleStod .start optFloor "abc").2 = some (optFloor ++ ": not a valid number")
      ∧ ¬ AllOrNothing sampleStod .start optFloor "abc" := by
  have hvalue : finiteValue sampleStod "abc" = none := by decide
  have hhandle := handleOption_floor sampleStod .start "abc"
  rw [if_neg (by decide), hvalue] at hhandle
  refine ⟨by rw [hhandle], fun h => ?_⟩
  have hsame := h.rejected _ (by rw [hhandle])
  rw [hhandle] at hsame
  have hauto := congrArg (fun k : Knobs => k.floorAuto) hsame
  cases hauto

end XRebalancer
