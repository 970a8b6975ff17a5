import Clboss.SwapManagerProofs

/-! # The life of a swap — the protocol behind `SwapManager`

    What matters for one swap is little: the state of its row, how often it is
    in the hands of the invoice loop, how often a reduction of it was noticed
    and is still pending, how often it waits for an address, and whether an
    invoice of it is out.  That is a `View`, and `Life` is the protocol one swap
    follows; in it an invoice is paid only when none is out (`Ok.paid`).

    Nothing here knows how the module keeps its queues and greenthreads. -/

namespace SwapManager

open Bitcoin Ln

/-! ## The protocol of one swap -/

/-- What the module holds about one swap. -/
structure View where
  row         : Option SwapState
  /-- entries of it in the hands of the invoice loop -/
  negotiating : Nat
  /-- noticed failures of it, not yet acted upon -/
  noticed     : Nat
  /-- entries of it in `needs_address` -/
  addressing  : Nat
  /-- the hash of the invoice that is out -/
  unpaid      : Option Hash

/-- What can happen to one swap in a step; `asked` says whether the step is a
    request for it. -/
inductive Life (asked : Prop) (v v' : View) : Prop
  /-- entries disappear -/
  | fades (hr : v'.row = v.row) (hn : v'.negotiating ≤ v.negotiating)
      (hm : v'.noticed ≤ v.noticed) (ha : v'.addressing ≤ v.addressing)
      (hu : v'.unpaid = v.unpaid)
  /-- it is loaded into `needs_address` -/
  | addressed (hrow : v.row = some .needsOnchainAddress) (hr : v'.row = v.row)
      (hn : v'.negotiating = v.negotiating) (hm : v'.noticed = v.noticed)
      (ha : v'.addressing ≤ 1) (hu : v'.unpaid = v.unpaid)
  /-- it gets an address -/
  | located (hr : v.row = some .needsOnchainAddress → v'.row = some .needsInvoice)
      (hn : v'.negotiating ≤ v.negotiating + 1) (hm : v'.noticed = v.noticed)
      (ha : v'.addressing + 1 = v.addressing) (hu : v'.unpaid = v.unpaid)
  /-- it is loaded into `needs_invoice` -/
  | queued (hrow : v.row = some .needsInvoice) (h0 : v.negotiating + v.noticed = 0)
      (hr : v'.row = v.row) (hn : v'.negotiating ≤ 1) (hm : v'.noticed = v.noticed)
      (ha : v'.addressing = v.addressing) (hu : v'.unpaid = v.unpaid)
  /-- its invoice is paid -/
  | paid {h : Hash} {t : UInt32} (hrow : v.row ≠ none)
      (hr : v'.row = some (.awaitingResult h t)) (hn : v'.negotiating + 1 = v.negotiating)
      (hm : v'.noticed = v.noticed) (ha : v'.addressing = v.addressing)
      (hu : v'.unpaid = some h)
  /-- a failure or timeout of the payment is noticed -/
  | notices {h : Hash} {t : UInt32} (hrow : v.row = some (.awaitingResult h t))
      (h0 : v.noticed = 0) (hr : v'.row = v.row) (hn : v'.negotiating = v.negotiating)
      (hm : v'.noticed = 1) (ha : v'.addressing = v.addressing)
      (hu : ∀ h', v'.unpaid = some h' → v.unpaid = some h' ∧ h' ≠ h)
  /-- it is failed -/
  | fails (hpos : 0 < v.negotiating + v.noticed) (hr : v'.row = none)
      (hn : v'.negotiating ≤ v.negotiating) (hm : v'.noticed ≤ v.noticed)
      (ha : v'.addressing = v.addressing) (hu : v'.unpaid = v.unpaid)
  /-- it is reduced and put back -/
  | requeues (hpos : 0 < v.negotiating + v.noticed) (hr : v'.row = some .needsInvoice)
      (hn : v'.negotiating + v'.noticed ≤ v.negotiating + v.noticed)
      (ha : v'.addressing = v.addressing) (hu : v'.unpaid = v.unpaid)
  /-- its funds arrive -/
  | arrives {h : Hash} {t : UInt32} (hrow : v.row = some (.awaitingResult h t))
      (hr : v'.row = none) (hn : v'.negotiating = v.negotiating) (hm : v'.noticed = v.noticed)
      (ha : v'.addressing = v.addressing) (hu : v'.unpaid = v.unpaid)
  /-- it is requested -/
  | requested (hask : asked) (hrow : v.row = none) (h0 : v.negotiating + v.noticed = 0)
      (hout : v.unpaid = none) (hr : v'.row = some .needsOnchainAddress)
      (hn : v'.negotiating = v.negotiating) (hm : v'.noticed = v.noticed)
      (ha : v'.addressing = v.addressing + 1) (hu : v'.unpaid = v.unpaid)

/-- The invariant of one swap. -/
structure View.Ok (v : View) : Prop where
  once       : v.negotiating + v.noticed ≤ 1
  fresh      : v.row = some .needsOnchainAddress → v.negotiating + v.noticed = 0
  awaiting   : ∀ h t, v.row = some (.awaitingResult h t) → v.negotiating = 0
  addressing : 0 < v.addressing → v.addressing = 1 ∧ v.row = some .needsOnchainAddress
  unpaid     : ∀ h, v.unpaid = some h → v.negotiating + v.noticed = 0
    ∧ (v.row = none ∨ ∃ t, v.row = some (.awaitingResult h t))

/-- In the invariant, whatever is negotiated has a row that needs an invoice,
    or none at all; and no invoice of it is out. -/
theorem View.Ok.paid {v : View} (ok : v.Ok) (hn : 0 < v.negotiating) (hr : v.row ≠ none) :
    v.row = some .needsInvoice ∧ v.unpaid = none := by
  refine ⟨?_, ?_⟩
  · cases hrow : v.row with
    | none => exact absurd hrow hr
    | some st =>
        cases st with
        | needsOnchainAddress =>
            have := ok.fresh hrow
            omega
        | needsInvoice => rfl
        | awaitingResult h t =>
            have := ok.awaiting h t hrow
            omega
  · cases hu : v.unpaid with
    | none => rfl
    | some h =>
        have := (ok.unpaid h hu).1
        omega

/-- A swap with an entry anywhere but in `needs_address` is not in there. -/
theorem View.Ok.not_addressing {v : View} (ok : v.Ok) (hp : 0 < v.negotiating + v.noticed) :
    v.addressing = 0 := by
  by_contra hne
  have := ok.fresh (ok.addressing (Nat.pos_of_ne_zero hne)).2
  omega

/-- Nor is one in there whose row no longer needs an address. -/
theorem View.Ok.addressing_eq_zero {v : View} (ok : v.Ok)
    (hrow : v.row ≠ some .needsOnchainAddress) : v.addressing = 0 := by
  by_contra hne
  exact hrow (ok.addressing (Nat.pos_of_ne_zero hne)).2

/-- No invoice is out while the row does not await a result. -/
theorem View.Ok.unpaid_eq_none {v : View} (ok : v.Ok) {st : SwapState} (hrow : v.row = some st)
    (hst : ∀ h t, st ≠ .awaitingResult h t) : v.unpaid = none := by
  cases hu : v.unpaid with
  | none => rfl
  | some h =>
      obtain ⟨-, hnone | ⟨t, ht⟩⟩ := ok.unpaid h hu
      · cases hrow.symm.trans hnone
      · cases hrow.symm.trans ht
        exact absurd rfl (hst h t)

/-- A swap that is gone or needs an invoice: nothing to check but the counts and
    the invoice. -/
theorem View.Ok.of_row {v : View} (hrow : v.row = none ∨ v.row = some .needsInvoice)
    (honce : v.negotiating + v.noticed ≤ 1) (ha : v.addressing = 0)
    (hu : ∀ h, v.unpaid = some h → v.negotiating + v.noticed = 0 ∧ v.row = none) : v.Ok where
  once := honce
  fresh := by
    intro hc
    rcases hrow with hr | hr
    · cases hr.symm.trans hc
    · cases hr.symm.trans hc
  awaiting := by
    intro h t hc
    rcases hrow with hr | hr
    · cases hr.symm.trans hc
    · cases hr.symm.trans hc
  addressing := by
    intro hpos
    omega
  unpaid := by
    intro h hout
    obtain ⟨h0, hnone⟩ := hu h hout
    exact ⟨h0, .inl hnone⟩

/-- **ABSTRACT STEP**: the protocol keeps the invariant. -/
theorem View.Ok.step {asked : Prop} {v v' : View} (ok : v.Ok) (h : Life asked v v') : v'.Ok := by
  have honce := ok.once
  cases h with
  | fades hr hn hm ha hu =>
      refine ⟨by omega, ?_, ?_, ?_, ?_⟩
      · intro hrow
        have := ok.fresh (hr.symm.trans hrow)
        omega
      · intro h t hrow
        have := ok.awaiting h t (hr.symm.trans hrow)
        omega
      · intro hpos
        have := ok.addressing (Nat.lt_of_lt_of_le hpos ha)
        exact ⟨by omega, hr.trans this.2⟩
      · intro h hout
        obtain ⟨h0, hrow⟩ := ok.unpaid h (hu.symm.trans hout)
        rw [hr]
        exact ⟨by omega, hrow⟩
  | addressed hrow hr hn hm ha hu =>
      refine ⟨by omega, ?_, ?_, ?_, ?_⟩
      · intro _
        have := ok.fresh hrow
        omega
      · intro h t hc
        exact nomatch hrow.symm.trans (hr.symm.trans hc)
      · intro hpos
        exact ⟨by omega, hr.trans hrow⟩
      · intro h hout
        rw [hr, hn, hm]
        exact ok.unpaid h (hu.symm.trans hout)
  | located hr hn hm ha hu =>
      obtain ⟨hone, hrow⟩ := ok.addressing (by omega)
      have h0 := ok.fresh hrow
      have hout := ok.unpaid_eq_none hrow (fun _ _ => SwapState.noConfusion)
      refine .of_row (.inr (hr hrow)) (by omega) (by omega) ?_
      intro h hc
      exact nomatch hout.symm.trans (hu.symm.trans hc)
  | queued hrow h0 hr hn hm ha hu =>
      have hna := ok.addressing_eq_zero (by rw [hrow]; exact nofun)
      have hout := ok.unpaid_eq_none hrow (fun _ _ => SwapState.noConfusion)
      refine .of_row (.inr (hr.trans hrow)) (by omega) (by omega) ?_
      intro h hc
      exact nomatch hout.symm.trans (hu.symm.trans hc)
  | @paid h t hrow hr hn hm ha hu =>
      have hna := ok.not_addressing (by omega)
      refine ⟨by omega, ?_, ?_, by omega, ?_⟩
      · intro hc
        exact nomatch hr.symm.trans hc
      · intro _ _ _
        omega
      · intro h' hout
        have hh : h = h' := Option.some.inj (hu.symm.trans hout)
        exact ⟨by omega, Or.inr ⟨t, hh ▸ hr⟩⟩
  | @notices h t hrow h0 hr hn hm ha hu =>
      have hneg := ok.awaiting h t hrow
      have hna := ok.addressing_eq_zero (by rw [hrow]; exact nofun)
      refine ⟨by omega, ?_, ?_, by omega, ?_⟩
      · intro hc
        exact nomatch hrow.symm.trans (hr.symm.trans hc)
      · intro _ _ _
        omega
      · intro h' hout
        -- the invoice that was out is the noticed one
        obtain ⟨hout', hne⟩ := hu h' hout
        obtain ⟨-, hnone | ⟨t', ht'⟩⟩ := ok.unpaid h' hout'
        · exact nomatch hrow.symm.trans hnone
        · cases hrow.symm.trans ht'
          exact absurd rfl hne
  | fails hpos hr hn hm ha hu =>
      have hna := ok.not_addressing hpos
      refine .of_row (.inl hr) (by omega) (by omega) ?_
      intro h hout
      have := (ok.unpaid h (hu.symm.trans hout)).1
      omega
  | requeues hpos hr hn ha hu =>
      have hna := ok.not_addressing hpos
      refine .of_row (.inr hr) (by omega) (by omega) ?_
      -- what is negotiated or noticed has no invoice out
      intro h hout
      have := (ok.unpaid h (hu.symm.trans hout)).1
      omega
  | arrives hrow hr hn hm ha hu =>
      have hna := ok.addressing_eq_zero (by rw [hrow]; exact nofun)
      refine .of_row (.inl hr) (by omega) (by omega) ?_
      intro h hout
      have := (ok.unpaid h (hu.symm.trans hout)).1
      exact ⟨by omega, hr⟩
  | requested _ hrow h0 hout hr hn hm ha hu =>
      have hna := ok.addressing_eq_zero (by rw [hrow]; exact nofun)
      refine ⟨by omega, by omega, ?_, ?_, ?_⟩
      · intro h t hc
        exact nomatch hr.symm.trans hc
      · intro _
        exact ⟨by omega, hr⟩
      · intro h hc
        exact nomatch hout.symm.trans (hu.symm.trans hc)

/-- A request must bring an id that nothing is known of. -/
def Unknown (v : View) : Prop := v.row = none ∧ v.negotiating + v.noticed = 0 ∧ v.unpaid = none

/-- Nothing becomes known of a swap that is not requested. -/
theorem Unknown.step {asked : Prop} {v v' : View} (ok : v.Ok) (hu : Unknown v)
    (hask : ¬ asked) (h : Life asked v v') : Unknown v' := by
  obtain ⟨hrow, h0, hout⟩ := hu
  cases h with
  | fades hr hn hm ha hu => exact ⟨hr.trans hrow, by omega, hu.trans hout⟩
  | addressed hr => exact nomatch hrow.symm.trans hr
  | located hr hn hm ha hu =>
      have := (ok.addressing (by omega)).2
      exact nomatch hrow.symm.trans this
  | queued hr => exact nomatch hrow.symm.trans hr
  | paid hr => exact absurd hrow hr
  | notices hr => exact nomatch hrow.symm.trans hr
  | fails hpos => omega
  | requeues hpos => omega
  | arrives hr => exact nomatch hrow.symm.trans hr
  | requested hyes => exact absurd hyes hask

end SwapManager
