import Clboss.AmountValidateProofs
import Clboss.OrderedMapProofs

/-! # `ChannelCreator::Planner` — sharing out the funds

    Proposals are dowsed in turn and get what the dowser says, within the limits
    and what is left, until less than a minimum is left.  What remains then is
    left onchain if it is enough to matter, and otherwise DIVIDED among the
    channels; where that would exceed a maximum, one channel gives up what is
    missing to a minimum channel, or to the least that may remain.

    That there is a channel to take it from is an assertion of the source.  It
    holds because the channel that could not take its share is nearly as large
    as the maximum, which leaves room for a minimum and what has to remain
    (`deductible`).  The sum of everything is the invariant (`Balanced`). -/

namespace ChannelPlanner

open Ln

variable {N : Type} [LinearOrder N]

/-! ## The code -/

/-- The limits a Planner is constructed with. -/
structure Limits where
  minAmount    : Amount
  maxAmount    : Amount
  minRemaining : Amount

/-- `Impl`.  The last three fields are what happened: what was dowsed, and what was
    subtracted from what. -/
structure Impl (N : Type) [LinearOrder N] where
  remaining    : Amount
  proposals    : List (N × N)
  atLeast2     : Bool
  result       : OrderedMap N Amount
  rejected     : List N
  dowsed       : List (N × Amount)
  subtractions : List (Amount × Amount)

def Impl.init (total : Amount) (proposals : List (N × N)) (existingChannels : ℕ) : Impl N :=
  ⟨total, proposals, existingChannels < 2, .empty, [], [], []⟩

/-- The amount for a proposal that was not rejected.  Halving is taken to the msat. -/
def Impl.amount (p : Limits) (s : Impl N) (amt : Amount) : Amount :=
  let amt := if p.maxAmount.lt amt then p.maxAmount else amt
  let amt := if s.remaining.lt amt then s.remaining else amt
  if s.atLeast2 ∧ s.result.size = 0 ∧ s.remaining.half.lt amt then s.remaining.half else amt

/-- One proposal, with what the dowser says. -/
def Impl.propose (p : Limits) (s : Impl N) (node : N) (amt : Amount) : Impl N :=
  if amt.lt p.minAmount then
    { s with rejected := s.rejected ++ [node], dowsed := s.dowsed ++ [(node, amt)] }
  else
    let given := s.amount p amt
    { s with
      result := s.result.assign node given
      remaining := s.remaining.sub given
      dowsed := s.dowsed ++ [(node, amt)]
      subtractions := s.subtractions ++ [(s.remaining, given)] }

/-- `core_run`, over the proposals still to come. -/
def coreRun (p : Limits) (dowser : N → N → Amount) : List (N × N) → Impl N → Impl N
  | [], s => { s with proposals := [] }
  | (node, patron) :: proposals, s =>
      if s.remaining.lt p.minAmount then { s with proposals := (node, patron) :: proposals }
      else coreRun p dowser proposals (s.propose p node (dowser node patron))

/-- The share of the entry in a place: one msat more for the first `remainder`. -/
def share (divided remainder i : ℕ) : Amount :=
  let share := Amount.msat (UInt64.ofNat divided)
  if i < remainder then share.add (.msat 1) else share

/-- The dry run of the division; `none` when someone would exceed the maximum. -/
def divide (p : Limits) (divided remainder : ℕ) :
    ℕ → List (N × Amount) → Option (List (N × Amount))
  | _, [] => some []
  | i, r :: rs =>
      let sum := r.2.add (share divided remainder i)
      if p.maxAmount.lt sum then none
      else (divide p divided remainder (i + 1) rs).map ((r.1, sum) :: ·)

omit [LinearOrder N] in
theorem divide_cons {p : Limits} {divided remainder i : ℕ} {r : N × Amount}
    {rs rs' : List (N × Amount)} (h : divide p divided remainder i (r :: rs) = some rs') :
    p.maxAmount.lt (r.2.add (share divided remainder i)) = false
      ∧ ∃ tail, divide p divided remainder (i + 1) rs = some tail
        ∧ rs' = (r.1, r.2.add (share divided remainder i)) :: tail := by
  unfold divide at h
  simp only at h
  split at h
  · cases h
  · rename_i hmax
    obtain ⟨tail, htail, rfl⟩ := Option.map_eq_some_iff.mp h
    exact ⟨Bool.eq_false_iff.mpr hmax, tail, htail, rfl⟩

omit [LinearOrder N] in
theorem keys_divide {p : Limits} {divided remainder : ℕ} {rs : List (N × Amount)} :
    ∀ {i : ℕ} {rs' : List (N × Amount)}, divide p divided remainder i rs = some rs' →
      rs'.map Prod.fst = rs.map Prod.fst := by
  induction rs with
  | nil =>
      intro i rs' h
      cases h
      rfl
  | cons r rs ih =>
      intro i rs' h
      obtain ⟨-, tail, htail, rfl⟩ := divide_cons h
      rw [List.map_cons, List.map_cons, ih htail]

/-- One channel gives up what is missing to the target, and the target goes to the
    next proposal, or remains. -/
def Impl.deduct (s : Impl N) (target needed : Amount) (toDeduct : N) : Impl N :=
  let result := s.result.modify toDeduct (fun a => a.sub needed)
  let subtractions := s.subtractions ++ [(target, s.remaining)]
    ++ (s.result.entries.filter (fun r => r.1 = toDeduct)).map (fun r => (r.2, needed))
  match s.proposals with
  | []                     => { s with result, subtractions, remaining := target }
  | (node, _) :: proposals =>
      { s with
        result := result.assign node target
        proposals, subtractions
        remaining := .sat 0 }

/-- `check_results`; `none` when the assertion fails.  `dist n` is the choice of one
    of `n + 1`. -/
def checkResults (p : Limits) (dist : (n : ℕ) → Fin (n + 1)) (s : Impl N) : Option (Impl N) :=
  if s.atLeast2 ∧ s.result.size < 2 then some { s with result := .empty }
  else if !(Amount.sat 0).lt s.remaining then some s
  else if s.result.size = 0 then some s
  else if p.minRemaining.le s.remaining then some s
  else
    let divided := s.remaining.toMsat.toNat / s.result.size
    let remainder := s.remaining.toMsat.toNat % s.result.size
    match h : divide p divided remainder 0 s.result.entries with
    | some entries =>
        some { s with result := s.result.withEntries entries (keys_divide h) }
    | none =>
        let target := if s.proposals.isEmpty then p.minRemaining else p.minAmount
        let needed := target.sub s.remaining
        let forDeduct := (s.result.entries.filter
          (fun r : N × Amount => (p.minAmount.add needed).le r.2)).map Prod.fst
        match forDeduct[(dist (forDeduct.length - 1)).val]? with
        | none          => none
        | some toDeduct => some (s.deduct target needed toDeduct)

/-- `add_rejected`. -/
def Impl.addRejected (s : Impl N) : Impl N :=
  { s with result := s.rejected.foldl (fun result n => result.assign n (.sat 0)) s.result }

/-- `run`. -/
def run (p : Limits) (total : Amount) (proposals : List (N × N)) (existingChannels : ℕ)
    (dowser : N → N → Amount) (dist : (n : ℕ) → Fin (n + 1)) : Option (Impl N) :=
  (checkResults p dist (coreRun p dowser proposals (.init total proposals existingChannels))).map
    Impl.addRejected

/-! ## Amounts given -/

/-- What the constructor asserts, and `AmountSettingsHandler` publishes. -/
structure Limits.Published (p : Limits) : Prop where
  min  : p.minAmount.v.toNat ≤ p.minRemaining.v.toNat
  room : p.minAmount.v.toNat + p.minRemaining.v.toNat ≤ p.maxAmount.v.toNat

/-- The limits that settings give. -/
def Limits.ofSettings (s : AmountSettingsHandler.AmountSettings) : Limits :=
  ⟨s.minChannel, s.maxChannel, s.minRemaining⟩

theorem Limits.published_of_ready {s : AmountSettingsHandler.AmountSettings} (h : s.Ready) :
    (Limits.ofSettings s).Published ∧ 0 < (Limits.ofSettings s).minAmount.v.toNat := by
  have hfloor := h.min_channel
  have hamount := h.min_amount
  have hremaining := h.min_remaining
  rw [AmountSettingsHandler.toNat_minMinChannel] at hfloor
  unfold Limits.ofSettings
  refine ⟨⟨?_, h.fits⟩, ?_⟩
  · simp only
    rw [hremaining, hamount]
    omega
  · exact Nat.lt_of_lt_of_le (by decide) hfloor

/-- An amount within the limits. -/
def Limits.Within (p : Limits) (a : Amount) : Prop :=
  p.minAmount.v.toNat ≤ a.v.toNat ∧ a.v.toNat ≤ p.maxAmount.v.toNat

omit [LinearOrder N] in
theorem Limits.Published.min_le_max {p : Limits} (h : p.Published) :
    p.minAmount.v.toNat ≤ p.maxAmount.v.toNat :=
  (Nat.le_add_right _ _).trans h.room

/-- **SPEC**: what is given is within the limits, and there. -/
theorem amount_within {p : Limits} {s : Impl N} {amt : Amount} (hp : p.Published)
    (hamt : p.minAmount.v.toNat ≤ amt.v.toNat) (hrem : p.minAmount.v.toNat ≤ s.remaining.v.toNat)
    (hfirst : s.result.size = 0 → 2 * p.minAmount.v.toNat ≤ s.remaining.v.toNat) :
    p.Within (s.amount p amt) ∧ (s.amount p amt).v.toNat ≤ s.remaining.v.toNat := by
  have hroom := hp.min_le_max
  have hcap := Amount.toNat_capped amt p.maxAmount
  unfold Impl.amount
  simp only
  generalize (if p.maxAmount.lt amt then p.maxAmount else amt) = capped at hcap ⊢
  have hleft := Amount.toNat_capped capped s.remaining
  generalize (if s.remaining.lt capped then s.remaining else capped) = left at hleft ⊢
  unfold Limits.Within
  split
  · rename_i hhalf
    have hlt := (Amount.lt_iff _ _).mp hhalf.2.2
    rw [Amount.toNat_half] at hlt ⊢
    have := hfirst hhalf.2.1
    omega
  · omega

/-! ## The invariant -/

/-- What the entries come to. -/
def planned (m : OrderedMap N Amount) : ℕ := (m.entries.map (fun e => e.2.v.toNat)).sum

theorem planned_perm {m : OrderedMap N Amount} {l : List (N × Amount)} (h : m.entries.Perm l) :
    planned m = (l.map (fun e => e.2.v.toNat)).sum :=
  (h.map _).sum_eq

theorem planned_assign {m : OrderedMap N Amount} {n : N} (a : Amount)
    (h : ∀ v, (n, v) ∉ m.entries) : planned (m.assign n a) = a.v.toNat + planned m := by
  rw [planned_perm (m.perm_assign a h), List.map_cons, List.sum_cons]
  rfl

theorem planned_modify {m : OrderedMap N Amount} {n : N} {a : Amount} (f : Amount → Amount)
    (h : (n, a) ∈ m.entries) :
    planned (m.modify n f) + a.v.toNat = planned m + (f a).v.toNat := by
  obtain ⟨rest, hm, hmod⟩ := m.perm_modify f h
  rw [planned_perm hm, planned_perm hmod, List.map_cons, List.map_cons, List.sum_cons,
    List.sum_cons, Nat.add_right_comm, Nat.add_comm (f a).v.toNat, Nat.add_right_comm]

/-- Every amount is in the plan or remains, and nothing was subtracted from less. -/
structure Balanced (p : Limits) (total : Amount) (s : Impl N) : Prop where
  sum      : planned s.result + s.remaining.v.toNat = total.v.toNat
  within   : ∀ e ∈ s.result.entries, p.Within e.2
  exact    : ∀ x ∈ s.subtractions, x.2.v.toNat ≤ x.1.v.toNat
  nodup    : s.rejected.Nodup
  rejected : ∀ n ∈ s.rejected, ∀ a, (n, a) ∉ s.result.entries
  dowsed   : ∀ x ∈ s.dowsed, x.2.v.toNat < p.minAmount.v.toNat → x.1 ∈ s.rejected

/-- A node nothing was decided about. -/
def Undecided (s : Impl N) (n : N) : Prop := n ∉ s.rejected ∧ ∀ a, (n, a) ∉ s.result.entries

theorem balanced_init (p : Limits) (total : Amount) (proposals : List (N × N))
    (existingChannels : ℕ) : Balanced p total (.init total proposals existingChannels) where
  sum      := Nat.zero_add _
  within e h := by cases h
  exact x h  := by cases h
  nodup    := List.nodup_nil
  rejected n h := by cases h
  dowsed x h := by cases h

/-- **STEP**. -/
theorem balanced_propose {p : Limits} {total : Amount} {s : Impl N} {node : N} (amt : Amount)
    (hp : p.Published) (htotal : 2 * p.minAmount.v.toNat ≤ total.v.toNat)
    (h : Balanced p total s) (hnode : Undecided s node)
    (hrem : p.minAmount.v.toNat ≤ s.remaining.v.toNat) :
    Balanced p total (s.propose p node amt) := by
  unfold Impl.propose
  split
  · rename_i hlt
    refine { h with nodup := ?_, rejected := ?_, dowsed := ?_ }
    · exact List.nodup_append.mpr ⟨h.nodup, List.nodup_singleton _, fun n hn n' hn' heq =>
        hnode.1 (List.mem_singleton.mp hn' ▸ heq ▸ hn)⟩
    · intro n hn a ha
      rcases List.mem_append.mp hn with hn | hn
      · exact h.rejected n hn a ha
      · exact hnode.2 a (List.mem_singleton.mp hn ▸ ha)
    · intro x hx hx'
      rcases List.mem_append.mp hx with hx | hx
      · exact List.mem_append_left _ (h.dowsed x hx hx')
      · rw [List.mem_singleton.mp hx]
        exact List.mem_append_right _ (List.mem_singleton_self _)
  · rename_i hge
    have hamt : p.minAmount.v.toNat ≤ amt.v.toNat :=
      Nat.le_of_not_lt (fun hlt => hge ((Amount.lt_iff _ _).mpr hlt))
    have hfirst : s.result.size = 0 → 2 * p.minAmount.v.toNat ≤ s.remaining.v.toNat := by
      intro hsize
      have hsum := h.sum
      unfold planned at hsum
      rw [List.length_eq_zero_iff.mp hsize, List.map_nil, List.sum_nil, Nat.zero_add] at hsum
      rwa [hsum]
    obtain ⟨hwithin, hgiven⟩ := amount_within hp hamt hrem hfirst
    have hmem := fun e => s.result.mem_assign (x := e) (k := node) (v := s.amount p amt)
    refine ⟨?_, ?_, ?_, h.nodup, ?_, ?_⟩
    · have hsum := h.sum
      show planned (s.result.assign node (s.amount p amt))
        + (s.remaining.sub (s.amount p amt)).v.toNat = _
      rw [planned_assign _ hnode.2, Amount.toNat_sub]
      omega
    · intro e he
      rcases (hmem e).mp he with rfl | ⟨he, -⟩
      · exact hwithin
      · exact h.within e he
    · intro x hx
      rcases List.mem_append.mp hx with hx | hx
      · exact h.exact x hx
      · rw [List.mem_singleton.mp hx]
        exact hgiven
    · intro n hn a ha
      rcases (hmem (n, a)).mp ha with heq | ⟨ha, -⟩
      · obtain ⟨rfl, -⟩ := Prod.ext_iff.mp heq
        exact hnode.1 hn
      · exact h.rejected n hn a ha
    · intro x hx hx'
      rcases List.mem_append.mp hx with hx | hx
      · exact h.dowsed x hx hx'
      · rw [List.mem_singleton.mp hx] at hx'
        exact absurd hx' (Nat.not_lt.mpr hamt)

theorem undecided_propose {p : Limits} {s : Impl N} {node n : N} (amt : Amount)
    (h : Undecided s n) (hne : n ≠ node) : Undecided (s.propose p node amt) n := by
  unfold Impl.propose
  split
  · refine ⟨fun hn => ?_, h.2⟩
    rcases List.mem_append.mp hn with hn | hn
    · exact h.1 hn
    · exact hne (List.mem_singleton.mp hn)
  · refine ⟨h.1, fun a ha => ?_⟩
    rcases s.result.mem_assign.mp ha with heq | ⟨ha, -⟩
    · exact hne (Prod.ext_iff.mp heq).1
    · exact h.2 a ha

/-- What the dowsing ends with: less than a minimum, or nobody left to ask. -/
structure Dowsed (p : Limits) (total : Amount) (s : Impl N) : Prop
    extends Balanced p total s where
  rest      : s.proposals = [] ∨ s.remaining.v.toNat < p.minAmount.v.toNat
  undecided : ∀ x ∈ s.proposals, Undecided s x.1

/-- **RUN**. -/
theorem dowsed_coreRun {p : Limits} {total : Amount} (dowser : N → N → Amount)
    (hp : p.Published) (htotal : 2 * p.minAmount.v.toNat ≤ total.v.toNat)
    {proposals : List (N × N)} (hnodup : (proposals.map Prod.fst).Nodup) :
    ∀ {s : Impl N}, Balanced p total s → (∀ x ∈ proposals, Undecided s x.1) →
      Dowsed p total (coreRun p dowser proposals s)
        ∧ (coreRun p dowser proposals s).atLeast2 = s.atLeast2 := by
  induction proposals with
  | nil =>
      intro s h _
      exact ⟨{ h with rest := Or.inl rfl, undecided := fun x hx => by cases hx }, rfl⟩
  | cons x proposals ih =>
      obtain ⟨node, patron⟩ := x
      obtain ⟨hnode, hrest⟩ := List.nodup_cons.mp hnodup
      intro s h hundecided
      unfold coreRun
      split
      · rename_i hlt
        exact ⟨{ h with
          rest := Or.inr ((Amount.lt_iff _ _).mp hlt)
          undecided := hundecided }, rfl⟩
      · rename_i hge
        have hrem : p.minAmount.v.toNat ≤ s.remaining.v.toNat :=
          Nat.le_of_not_lt (fun hlt => hge ((Amount.lt_iff _ _).mpr hlt))
        have hstep := balanced_propose (dowser node patron) hp htotal h
          (hundecided _ List.mem_cons_self) hrem
        obtain ⟨hrun, htwo⟩ := ih hrest hstep (fun x hx => undecided_propose _
          (hundecided x (List.mem_cons_of_mem _ hx))
          (fun heq => hnode (heq ▸ List.mem_map_of_mem hx)))
        refine ⟨hrun, htwo.trans ?_⟩
        unfold Impl.propose
        split <;> rfl

/-! ## Dividing what remains -/

theorem toNat_share {divided remainder : ℕ} (h : divided + remainder < 2 ^ 64) (i : ℕ) :
    (share divided remainder i).v.toNat = if i < remainder then divided + 1 else divided := by
  have hdivided : (Amount.msat (UInt64.ofNat divided)).v.toNat = divided :=
    UInt64.toNat_ofNat_of_lt (by show divided < 2 ^ 64; omega)
  have hone : (Amount.msat 1).v.toNat = 1 := rfl
  unfold share
  split
  · rw [Amount.toNat_add, hdivided, hone]
    omega
  · exact hdivided

/-- The shares of `n` entries, from a place on. -/
def shares (divided remainder : ℕ) : ℕ → ℕ → ℕ
  | _, 0     => 0
  | i, n + 1 => (share divided remainder i).v.toNat + shares divided remainder (i + 1) n

theorem shares_eq {divided remainder : ℕ} (h : divided + remainder < 2 ^ 64) (n : ℕ) :
    ∀ i, shares divided remainder i n
      = n * divided + (min remainder (i + n) - min remainder i) := by
  induction n with
  | zero =>
      intro i
      simp [shares]
  | succ n ih =>
      intro i
      unfold shares
      rw [ih, toNat_share h, Nat.succ_mul]
      generalize n * divided = rest
      split <;> omega

/-- All that remains is given out. -/
theorem shares_all {divided remainder n : ℕ} (h : divided + remainder < 2 ^ 64)
    (hn : remainder < n) : shares divided remainder 0 n = n * divided + remainder := by
  rw [shares_eq h, Nat.zero_add, Nat.min_zero, Nat.sub_zero, Nat.min_eq_left hn.le]

omit [LinearOrder N] in
/-- **SPEC**: a division gives out the shares, and nobody exceeds the maximum. -/
theorem divide_some {p : Limits} {divided remainder : ℕ} {rs : List (N × Amount)} :
    ∀ {i : ℕ} {rs' : List (N × Amount)}, divide p divided remainder i rs = some rs' →
      (rs.map (fun e => e.2.v.toNat)).sum + shares divided remainder i rs.length < 2 ^ 64 →
      (∀ e ∈ rs, p.Within e.2) →
      (rs'.map (fun e => e.2.v.toNat)).sum
          = (rs.map (fun e => e.2.v.toNat)).sum + shares divided remainder i rs.length
        ∧ ∀ e ∈ rs', p.Within e.2 := by
  induction rs with
  | nil =>
      intro i rs' h _ _
      cases h
      exact ⟨rfl, fun e he => by cases he⟩
  | cons r rs ih =>
      intro i rs' h hsum hwithin
      obtain ⟨hmax, tail, htail, rfl⟩ := divide_cons h
      have hadd := Amount.toNat_add r.2 (share divided remainder i)
      have hr := hwithin r List.mem_cons_self
      have hle : (r.2.add (share divided remainder i)).v.toNat ≤ p.maxAmount.v.toNat :=
        Nat.le_of_not_lt (fun hlt => Bool.eq_false_iff.mp hmax ((Amount.lt_iff _ _).mpr hlt))
      rw [List.map_cons, List.sum_cons, List.length_cons, shares] at hsum
      rw [List.map_cons, List.sum_cons, List.map_cons, List.sum_cons, List.length_cons, shares]
      obtain ⟨htailSum, htailWithin⟩ := ih htail (by omega)
        (fun e he => hwithin e (List.mem_cons_of_mem _ he))
      generalize r.2.add (share divided remainder i) = given at hadd hle ⊢
      unfold Limits.Within at hr
      refine ⟨by simp only; omega, fun e he => ?_⟩
      rcases List.mem_cons.mp he with rfl | he
      · exact ⟨by simp only; omega, hle⟩
      · exact htailWithin e he

omit [LinearOrder N] in
/-- **SPEC**: it fails for an entry that its share takes beyond the maximum. -/
theorem divide_none {p : Limits} {divided remainder : ℕ} (h : divided + remainder < 2 ^ 64)
    {rs : List (N × Amount)} :
    ∀ {i : ℕ}, divide p divided remainder i rs = none →
      ∃ e ∈ rs, p.maxAmount.v.toNat < e.2.v.toNat + (divided + remainder) := by
  induction rs with
  | nil =>
      intro i hnone
      cases hnone
  | cons r rs ih =>
      intro i hnone
      unfold divide at hnone
      simp only at hnone
      split at hnone
      · rename_i hmax
        have hlt := (Amount.lt_iff _ _).mp hmax
        rw [Amount.toNat_add, toNat_share h] at hlt
        refine ⟨r, List.mem_cons_self, ?_⟩
        split at hlt <;> omega
      · obtain ⟨e, he, hlt⟩ := ih (Option.map_eq_none_iff.mp hnone)
        exact ⟨e, List.mem_cons_of_mem _ he, hlt⟩

/-! ## Deducting -/

/-- Whoever could not take its share has a minimum more than what is missing. -/
theorem deductible {p : Limits} {remaining target needed a : ℕ}
    (hneeded : remaining + needed = target) (ha : p.maxAmount.v.toNat < a + remaining)
    (hroom : p.minAmount.v.toNat + target ≤ p.maxAmount.v.toNat) :
    p.minAmount.v.toNat + needed ≤ a := by
  omega

/-- The target of a deduction leaves room below the maximum, and is more than remains. -/
theorem target_room {p : Limits} {total : Amount} {s : Impl N} (hp : p.Published)
    (h : Dowsed p total s) (hrem : s.remaining.v.toNat < p.minRemaining.v.toNat) :
    let target := if s.proposals.isEmpty then p.minRemaining else p.minAmount
    s.remaining.v.toNat ≤ target.v.toNat
      ∧ p.minAmount.v.toNat + target.v.toNat ≤ p.maxAmount.v.toNat := by
  have hmin := hp.min
  have hroom := hp.room
  cases hproposals : s.proposals with
  | nil => exact ⟨hrem.le, hroom⟩
  | cons x proposals =>
      have hlt : s.remaining.v.toNat < p.minAmount.v.toNat := by
        rcases h.rest with hnil | hlt
        · rw [hnil] at hproposals
          cases hproposals
        · exact hlt
      exact ⟨hlt.le, (Nat.add_le_add_left hmin _).trans hroom⟩

/-! ## The plan -/

/-- What the checks leave: the plan before the rejected nodes are put in. -/
structure Checked (p : Limits) (total : Amount) (s : Impl N) : Prop where
  sum      : planned s.result ≤ total.v.toNat
  leftover : s.result.entries ≠ [] → planned s.result = total.v.toNat
    ∨ p.minRemaining.v.toNat ≤ total.v.toNat - planned s.result
  within   : ∀ e ∈ s.result.entries, p.Within e.2
  exact    : ∀ x ∈ s.subtractions, x.2.v.toNat ≤ x.1.v.toNat
  nodup    : s.rejected.Nodup
  rejected : ∀ n ∈ s.rejected, ∀ a, (n, a) ∉ s.result.entries
  dowsed   : ∀ x ∈ s.dowsed, x.2.v.toNat < p.minAmount.v.toNat → x.1 ∈ s.rejected
  two      : s.atLeast2 = true → s.result.entries = [] ∨ 2 ≤ s.result.entries.length

theorem checked_kept {p : Limits} {total : Amount} {s : Impl N} (h : Balanced p total s)
    (htwo : ¬ (s.atLeast2 ∧ s.result.size < 2))
    (hrem : s.remaining.v.toNat = 0 ∨ s.result.size = 0
      ∨ p.minRemaining.v.toNat ≤ s.remaining.v.toNat) : Checked p total s := by
  have hsum := h.sum
  refine { h with sum := by omega, leftover := fun hne => ?_, two := fun hatLeast2 => ?_ }
  · rcases hrem with hzero | hsize | hrem
    · exact Or.inl (by omega)
    · exact absurd (List.length_eq_zero_iff.mp hsize) hne
    · exact Or.inr (by omega)
  · exact Or.inr (Nat.le_of_not_lt (fun hlt => htwo ⟨hatLeast2, hlt⟩))

/-- **SPEC**: everyone has a share, and nothing is left. -/
theorem checked_divided {p : Limits} {total : Amount} {s : Impl N} {divided remainder : ℕ}
    {entries : List (N × Amount)} (h : Balanced p total s)
    (htwo : ¬ (s.atLeast2 ∧ s.result.size < 2))
    (hshare : divided + remainder < 2 ^ 64) (hremainder : remainder < s.result.size)
    (hremaining : s.result.size * divided + remainder = s.remaining.v.toNat)
    (hdivide : divide p divided remainder 0 s.result.entries = some entries) :
    Checked p total
      { s with result := s.result.withEntries entries (keys_divide hdivide) } := by
  have hall : shares divided remainder 0 s.result.entries.length = s.remaining.v.toNat :=
    (shares_all hshare hremainder).trans hremaining
  have hsum : (s.result.entries.map (fun e => e.2.v.toNat)).sum + s.remaining.v.toNat
      = total.v.toNat := h.sum
  have htotal := total.v.toNat_lt
  obtain ⟨hsum', hwithin'⟩ := divide_some hdivide (by rw [hall]; omega) h.within
  have hplanned : (entries.map (fun e => e.2.v.toNat)).sum = total.v.toNat := by
    rw [hsum', hall, hsum]
  have hlength : entries.length = s.result.size := by
    have := congrArg List.length (keys_divide hdivide)
    rwa [List.length_map, List.length_map] at this
  refine ⟨hplanned.le, fun _ => Or.inl hplanned, hwithin', h.exact, h.nodup, ?_, h.dowsed, ?_⟩
  · intro n hn a ha
    have hkey : n ∈ s.result.entries.map Prod.fst :=
      keys_divide hdivide ▸ List.mem_map_of_mem (f := Prod.fst) ha
    obtain ⟨e, he, rfl⟩ := List.mem_map.mp hkey
    exact h.rejected _ hn e.2 he
  · intro hatLeast2
    refine Or.inr (Nat.le_of_not_lt (fun hlt => htwo ⟨hatLeast2, ?_⟩))
    rwa [← hlength]

/-- What a channel gives up it has, and what it keeps is within the limits. -/
theorem deduct_exact {p : Limits} {total target needed a : Amount} {s : Impl N} {n : N}
    (h : Balanced p total s) (hneeded : s.remaining.v.toNat + needed.v.toNat = target.v.toNat)
    (hn : (n, a) ∈ s.result.entries)
    (ha : p.minAmount.v.toNat + needed.v.toNat ≤ a.v.toNat) :
    (∀ e ∈ (s.result.modify n (fun a => a.sub needed)).entries, p.Within e.2)
      ∧ ∀ x ∈ s.subtractions ++ [(target, s.remaining)]
          ++ (s.result.entries.filter (fun r => r.1 = n)).map (fun r => (r.2, needed)),
        x.2.v.toNat ≤ x.1.v.toNat := by
  have hone : ∀ v, (n, v) ∈ s.result.entries → v = a := fun v hv => s.result.value_unique hv hn
  constructor
  · refine s.result.forall_modify h.within (fun v hv => ?_)
    have hsub := Amount.toNat_sub a needed
    have hwithin := h.within _ hn
    rw [hone v hv]
    unfold Limits.Within at hwithin ⊢
    simp only at hwithin ⊢
    omega
  · intro x hx
    rcases List.mem_append.mp hx with hx | hx
    · rcases List.mem_append.mp hx with hx | hx
      · exact h.exact x hx
      · rw [List.mem_singleton.mp hx]
        exact hneeded ▸ Nat.le_add_right _ _
    · obtain ⟨⟨n', v⟩, hr, rfl⟩ := List.mem_map.mp hx
      obtain ⟨hr, hn'⟩ := List.mem_filter.mp hr
      have hn' : n' = n := of_decide_eq_true hn'
      rw [hone v (hn' ▸ hr)]
      exact (Nat.le_add_left _ _).trans ha

/-- **SPEC**: the target is there, for the next proposal or to remain. -/
theorem checked_deduct {p : Limits} {total target needed a : Amount} {s : Impl N} {n : N}
    (hp : p.Published) (h : Dowsed p total s) (htwo : ¬ (s.atLeast2 ∧ s.result.size < 2))
    (htarget : target = if s.proposals.isEmpty then p.minRemaining else p.minAmount)
    (hneeded : s.remaining.v.toNat + needed.v.toNat = target.v.toNat)
    (hn : (n, a) ∈ s.result.entries)
    (ha : p.minAmount.v.toNat + needed.v.toNat ≤ a.v.toNat) :
    Checked p total (s.deduct target needed n) := by
  obtain ⟨hwithin, hexact⟩ := deduct_exact h.toBalanced hneeded hn ha
  have hplanned : planned (s.result.modify n (fun a => a.sub needed)) + target.v.toNat
      = total.v.toNat := by
    have hmodify := planned_modify (fun a => a.sub needed) hn
    have hsum := h.sum
    rw [Amount.toNat_sub] at hmodify
    omega
  have hkeys : ∀ {n' v}, (n', v) ∈ (s.result.modify n (fun a => a.sub needed)).entries →
      ∃ v', (n', v') ∈ s.result.entries := by
    intro n' v hv
    obtain ⟨v', hv', -⟩ := s.result.mem_modify.mp hv
    exact ⟨v', hv'⟩
  have hlength : (s.result.modify n (fun a => a.sub needed)).entries.length
      = s.result.entries.length := List.length_map _
  have hatLeast2 : s.atLeast2 = true → 2 ≤ s.result.entries.length :=
    fun hatLeast2 => Nat.le_of_not_lt (fun hlt => htwo ⟨hatLeast2, hlt⟩)
  have hundecided := h.undecided
  unfold Impl.deduct
  cases hproposals : s.proposals with
  | nil =>
      rw [hproposals] at htarget
      replace htarget : target = p.minRemaining := htarget
      refine ⟨(Nat.le_add_right _ _).trans hplanned.le, fun _ => Or.inr ?_, hwithin, hexact,
        h.nodup, ?_, h.dowsed, fun htwo => Or.inr (hlength ▸ hatLeast2 htwo)⟩
      · rw [← htarget]
        show _ ≤ _ - planned (s.result.modify n (fun a => a.sub needed))
        omega
      · intro n' hn' v hv
        obtain ⟨v', hv'⟩ := hkeys hv
        exact h.rejected n' hn' v' hv'
  | cons x proposals =>
      obtain ⟨node, patron⟩ := x
      rw [hproposals] at htarget hundecided
      replace htarget : target = p.minAmount := htarget
      obtain ⟨hrejected, hnew⟩ := hundecided _ List.mem_cons_self
      have hnew' : ∀ v, (node, v) ∉ (s.result.modify n (fun a => a.sub needed)).entries := by
        intro v hv
        obtain ⟨v', hv'⟩ := hkeys hv
        exact hnew v' hv'
      have hmem := fun e => (s.result.modify n (fun a => a.sub needed)).mem_assign
        (x := e) (k := node) (v := target)
      have hall : planned ((s.result.modify n (fun a => a.sub needed)).assign node target)
          = total.v.toNat := by
        rw [planned_assign _ hnew', Nat.add_comm]
        exact hplanned
      refine ⟨hall.le, fun _ => Or.inl hall, fun e he => ?_, hexact, h.nodup, ?_, h.dowsed,
        fun htwo => Or.inr ?_⟩
      · rcases (hmem e).mp he with rfl | ⟨he, -⟩
        · rw [htarget]
          exact ⟨le_refl _, hp.min_le_max⟩
        · exact hwithin e he
      · intro n' hn' v hv
        rcases (hmem (n', v)).mp hv with heq | ⟨hv, -⟩
        · obtain ⟨rfl, -⟩ := Prod.ext_iff.mp heq
          exact hrejected hn'
        · obtain ⟨v', hv'⟩ := hkeys hv
          exact h.rejected n' hn' v' hv'
      · have hcount := (OrderedMap.perm_assign _ target hnew').length_eq
        rw [List.length_cons, hlength] at hcount
        show 2 ≤ (OrderedMap.assign _ node target).entries.length
        rw [hcount]
        exact (hatLeast2 htwo).trans (Nat.le_succ _)

theorem checked_dropped {p : Limits} {total : Amount} {s : Impl N} (h : Balanced p total s) :
    Checked p total { s with result := .empty } where
  sum      := Nat.zero_le _
  leftover hne := absurd rfl hne
  within e he := by cases he
  exact    := h.exact
  nodup    := h.nodup
  rejected n _ a ha := by cases ha
  dowsed   := h.dowsed
  two _    := Or.inl rfl

omit [LinearOrder N] in
/-- Of those that can be deducted from, one is chosen. -/
theorem exists_chosen {p : Limits} {needed a : Amount} {n : N} {rs : List (N × Amount)}
    (dist : (n : ℕ) → Fin (n + 1)) (hn : (n, a) ∈ rs) (ha : (p.minAmount.add needed).le a) :
    let forDeduct := (rs.filter (fun r : N × Amount => (p.minAmount.add needed).le r.2)).map Prod.fst
    ∃ n' a', forDeduct[(dist (forDeduct.length - 1)).val]? = some n'
      ∧ (n', a') ∈ rs ∧ (p.minAmount.add needed).le a' := by
  intro forDeduct
  have hmem : n ∈ forDeduct :=
    List.mem_map.mpr ⟨(n, a), List.mem_filter.mpr ⟨hn, ha⟩, rfl⟩
  have hlt : (dist (forDeduct.length - 1)).val < forDeduct.length := by
    have := (dist (forDeduct.length - 1)).isLt
    have := List.length_pos_of_mem hmem
    omega
  have hchosen := List.getElem?_eq_getElem hlt
  obtain ⟨⟨n', a'⟩, hr, heq⟩ := List.mem_map.mp (List.getElem_mem hlt)
  obtain ⟨hr, hle⟩ := List.mem_filter.mp hr
  exact ⟨n', a', by rw [hchosen, ← heq], hr, hle⟩

/-- **CHECKS**: there is a channel to deduct from. -/
theorem checkResults_checked {p : Limits} {total : Amount} {s : Impl N}
    (dist : (n : ℕ) → Fin (n + 1)) (hp : p.Published) (h : Dowsed p total s) :
    ∃ s', checkResults p dist s = some s' ∧ Checked p total s' ∧ s'.atLeast2 = s.atLeast2 := by
  unfold checkResults
  split
  · exact ⟨_, rfl, checked_dropped h.toBalanced, rfl⟩
  rename_i htwo
  split
  · rename_i hzero
    have hle := (Amount.le_iff _ _).mp (Amount.not_lt _ _ ▸ hzero)
    exact ⟨s, rfl, checked_kept h.toBalanced htwo (Or.inl (Nat.le_zero.mp hle)), rfl⟩
  split
  · rename_i hsize
    exact ⟨s, rfl, checked_kept h.toBalanced htwo (Or.inr (Or.inl hsize)), rfl⟩
  rename_i hsize
  split
  · rename_i hrem
    have hle := (Amount.le_iff _ _).mp hrem
    exact ⟨s, rfl, checked_kept h.toBalanced htwo (Or.inr (Or.inr hle)), rfl⟩
  rename_i hrem
  -- what is shared out is what remains
  have hremaining := Nat.div_add_mod s.remaining.toMsat.toNat s.result.size
  have hremainder := Nat.mod_lt s.remaining.toMsat.toNat (Nat.pos_of_ne_zero hsize)
  have hshare : s.remaining.toMsat.toNat / s.result.size
      + s.remaining.toMsat.toNat % s.result.size ≤ s.remaining.v.toNat :=
    (Nat.add_le_add_right (Nat.le_mul_of_pos_left _ (Nat.pos_of_ne_zero hsize)) _).trans
      hremaining.le
  have hshare' := hshare.trans_lt s.remaining.v.toNat_lt
  simp only
  split
  · rename_i entries hdivide
    exact ⟨_, rfl, checked_divided h.toBalanced htwo hshare' hremainder hremaining hdivide, rfl⟩
  · rename_i hdivide
    obtain ⟨⟨n, a⟩, hn, ha⟩ := divide_none hshare' hdivide
    have hlow : s.remaining.v.toNat < p.minRemaining.v.toNat :=
      Nat.lt_of_not_le (fun hle => hrem ((Amount.le_iff _ _).mpr hle))
    obtain ⟨htarget, hroom⟩ := target_room hp h hlow
    generalize htargetEq : (if s.proposals.isEmpty then p.minRemaining else p.minAmount) = target
      at htarget hroom ⊢
    have hneeded : s.remaining.v.toNat + (target.sub s.remaining).v.toNat = target.v.toNat := by
      rw [Amount.toNat_sub, Nat.add_sub_cancel' htarget]
    have hadd := Amount.toNat_add p.minAmount (target.sub s.remaining)
    have hle := fun a => Amount.le_iff (p.minAmount.add (target.sub s.remaining)) a
    have hmax := p.maxAmount.v.toNat_lt
    have hexact : (p.minAmount.add (target.sub s.remaining)).v.toNat
        = p.minAmount.v.toNat + (target.sub s.remaining).v.toNat := by omega
    have hcan := deductible hneeded (ha.trans_le (Nat.add_le_add_left hshare _)) hroom
    obtain ⟨n', a', hchosen, hn', ha'⟩ := exists_chosen dist hn ((hle a).mpr (hexact ▸ hcan))
    rw [hchosen]
    refine ⟨_, rfl, checked_deduct hp h htwo htargetEq.symm hneeded hn'
      (hexact ▸ (hle a').mp ha'), ?_⟩
    unfold Impl.deduct
    split <;> rfl

/-! ## The run -/

/-- What a plan is. -/
structure Sound (p : Limits) (total : Amount) (existingChannels : ℕ) (s : Impl N) : Prop where
  exact    : ∀ x ∈ s.subtractions, x.2.v.toNat ≤ x.1.v.toNat
  within   : ∀ e ∈ s.result.entries, e.2 ≠ .sat 0 → p.Within e.2
  sum      : planned s.result ≤ total.v.toNat
  leftover : (∃ e ∈ s.result.entries, e.2 ≠ .sat 0) → planned s.result = total.v.toNat
    ∨ p.minRemaining.v.toNat ≤ total.v.toNat - planned s.result
  two      : existingChannels < 2 → 0 < p.minAmount.v.toNat →
    (∀ e ∈ s.result.entries, e.2 = .sat 0)
      ∨ 2 ≤ (s.result.entries.filter (fun e => e.2 ≠ .sat 0)).length
  rejected : ∀ x ∈ s.dowsed, x.2.v.toNat < p.minAmount.v.toNat →
    (x.1, .sat 0) ∈ s.result.entries

omit [LinearOrder N] in
theorem sum_rejected (l : List N) :
    ((l.map (fun n => (n, Amount.sat 0))).map (fun e => e.2.v.toNat)).sum = 0 := by
  induction l with
  | nil => rfl
  | cons n l ih =>
      rw [List.map_cons, List.map_cons, List.sum_cons, ih]
      rfl

theorem sound_addRejected {p : Limits} {total : Amount} {existingChannels : ℕ} {s : Impl N}
    (h : Checked p total s) (hatLeast2 : existingChannels < 2 → s.atLeast2 = true) :
    Sound p total existingChannels s.addRejected := by
  have hperm : s.addRejected.result.entries.Perm
      (s.rejected.map (fun n => (n, Amount.sat 0)) ++ s.result.entries) :=
    OrderedMap.perm_foldl_assign _ h.nodup h.rejected
  have hplanned : planned s.addRejected.result = planned s.result := by
    rw [planned_perm hperm, List.map_append, List.sum_append, sum_rejected, Nat.zero_add]
    rfl
  have hnonzero : ∀ e ∈ s.addRejected.result.entries, e.2 ≠ .sat 0 → e ∈ s.result.entries := by
    intro e he hne
    rcases List.mem_append.mp (hperm.mem_iff.mp he) with he | he
    · obtain ⟨n, -, rfl⟩ := List.mem_map.mp he
      exact absurd rfl hne
    · exact he
  refine ⟨h.exact, fun e he hne => h.within e (hnonzero e he hne), hplanned ▸ h.sum, ?_, ?_, ?_⟩
  · rintro ⟨e, he, hne⟩
    rw [hplanned]
    exact h.leftover (List.ne_nil_of_mem (hnonzero e he hne))
  · intro hexisting hpos
    rcases h.two (hatLeast2 hexisting) with hnil | htwo
    · refine Or.inl (fun e he => ?_)
      by_contra hne
      have := hnonzero e he hne
      rw [hnil] at this
      cases this
    · refine Or.inr ?_
      rw [(hperm.filter _).length_eq, List.filter_append, List.length_append]
      have hall : s.result.entries.filter (fun e => e.2 ≠ .sat 0) = s.result.entries := by
        refine List.filter_eq_self.mpr (fun e he => decide_eq_true (fun hzero => ?_))
        have hwithin := (h.within e he).1
        rw [hzero] at hwithin
        exact Nat.not_lt.mpr hwithin hpos
      rw [hall]
      exact htwo.trans (Nat.le_add_left _ _)
  · intro x hx hlt
    exact hperm.mem_iff.mpr (List.mem_append_left _
      (List.mem_map.mpr ⟨x.1, h.dowsed x hx hlt, rfl⟩))

/-- **HEADLINE**: a plan is made, and it is sound. -/
theorem plan_sound {p : Limits} {total : Amount} {proposals : List (N × N)}
    (existingChannels : ℕ) (dowser : N → N → Amount) (dist : (n : ℕ) → Fin (n + 1))
    (htotal : 2 * p.minAmount.v.toNat ≤ total.v.toNat) (hp : p.Published)
    (hnodup : (proposals.map Prod.fst).Nodup) :
    ∃ s, run p total proposals existingChannels dowser dist = some s
      ∧ Sound p total existingChannels s := by
  have hundecided : ∀ x ∈ proposals,
      Undecided (Impl.init total proposals existingChannels) x.1 :=
    fun _ _ => ⟨List.not_mem_nil, fun _ => List.not_mem_nil⟩
  obtain ⟨hdowsed, htwo⟩ := dowsed_coreRun dowser hp htotal hnodup
    (balanced_init p total proposals existingChannels) hundecided
  obtain ⟨s, hcheck, hchecked, htwo'⟩ := checkResults_checked dist hp hdowsed
  refine ⟨s.addRejected, ?_, sound_addRejected hchecked (fun hexisting => ?_)⟩
  · unfold run
    rw [hcheck]
    rfl
  · rw [htwo', htwo]
    exact decide_eq_true hexisting

/-- Two proposals share out everything: the limits in millisatoshi are 10, 100 and 25. -/
theorem plan_sound_two :
    2 * 10 ≤ 150 ∧ (∃ s, run ⟨⟨10⟩, ⟨100⟩, ⟨25⟩⟩ ⟨150⟩ [(1, 7), (2, 7), (3, 7)] 0
        (fun node _ => if node = 2 then ⟨4⟩ else ⟨70⟩) (fun _ => 0) = some s
      ∧ Sound ⟨⟨10⟩, ⟨100⟩, ⟨25⟩⟩ ⟨150⟩ 0 s) :=
  ⟨by decide, plan_sound (N := ℕ) 0 _ _ (by decide) ⟨by decide, by decide⟩ (by decide)⟩

end ChannelPlanner
