import Clboss.SwapResponseProofs

/-! # `Boss::Mod::SwapManager` — amounts and refusals

    A swap asks for its maximum first.  Every refusal (no quotation left, a
    failed payment, a timeout) runs `swap_reduce_or_fail`, which draws a LOWER
    amount, never below the minimum, and fails the swap once the minimum itself
    is refused.  So the amount is a variant: `Bounded` holds in every state,
    and `responded_of_refusals` counts the refusals a swap survives. -/

namespace SwapManager

open Bitcoin Ln UniqueTable

/-! ## One row over one step -/

/-- Where a row after a step comes from. -/
def RowFrom (s : State) (e : Event) (uuid : Uuid) (row' : Swap) : Prop :=
  (∃ minAmount maxAmount, e = .swapRequest uuid minAmount maxAmount
      ∧ row' = ⟨uuid, maxAmount.toMsat, minAmount.toMsat, .needsOnchainAddress, none⟩)
    ∨ ∃ row, s.db.swaps.get uuid = some row ∧ row'.minAmount = row.minAmount
      ∧ (row'.amount = row.amount ∨ reduction s e = some uuid)

section Row

variable {s : State} {e : Event} {uuid : Uuid} {row' : Swap} {t : Table Swap.uuid}

theorem rowFrom_same (h : s.db.swaps.get uuid = some row') : RowFrom s e uuid row' :=
  Or.inr ⟨row', h, rfl, Or.inl rfl⟩

/-- An update that leaves both amounts alone. -/
theorem rowFrom_update {k : Uuid} {f : Swap → Swap} (hf : ∀ r, (f r).uuid = r.uuid)
    (ha : ∀ r, (f r).amount = r.amount ∧ (f r).minAmount = r.minAmount)
    (h : (s.db.swaps.update k f hf).get uuid = some row') : RowFrom s e uuid row' := by
  by_cases hk : uuid = k
  · subst hk
    rw [Table.get_update_self] at h
    obtain ⟨row, hrow, rfl⟩ := Option.map_eq_some_iff.mp h
    exact Or.inr ⟨row, hrow, (ha row).2, Or.inl (ha row).1⟩
  · rw [Table.get_update_ne _ _ _ _ hk] at h
    exact rowFrom_same h

theorem rowFrom_delete {k : Uuid} (h : (s.db.swaps.delete k).get uuid = some row') :
    RowFrom s e uuid row' := by
  by_cases hk : uuid = k
  · subst hk
    rw [Table.get_delete_self] at h
    cases h
  · rw [Table.get_delete_ne _ hk] at h
    exact rowFrom_same h

/-- A reduction touches the amount of its own swap only. -/
theorem rowFrom_requeue {k : Uuid} {amount : UInt64} (hred : reduction s e = some k)
    (h : (s.db.swaps.update k (Swap.reduce amount) (Swap.reduce_uuid amount)).get uuid
      = some row') : RowFrom s e uuid row' := by
  by_cases hk : uuid = k
  · subst hk
    rw [Table.get_update_self] at h
    obtain ⟨row, hrow, rfl⟩ := Option.map_eq_some_iff.mp h
    exact Or.inr ⟨row, hrow, rfl, Or.inr hred⟩
  · rw [Table.get_update_ne _ _ _ _ hk] at h
    exact rowFrom_same h

end Row

theorem Swap.giveAddress_amounts (a : String) (r : Swap) :
    (r.giveAddress a).amount = r.amount ∧ (r.giveAddress a).minAmount = r.minAmount := by
  unfold Swap.giveAddress
  by_cases h : r.state = .needsOnchainAddress
  · rw [if_pos h]
    exact ⟨rfl, rfl⟩
  · rw [if_neg h]
    exact ⟨rfl, rfl⟩

theorem AddressMove.rowFrom {s s' : State} {e : Event} {out : List Out} {uuid : Uuid}
    {row' : Swap} (m : AddressMove s s' out) (h : s'.db.swaps.get uuid = some row') :
    RowFrom s e uuid row' := by
  cases m with
  | cached hl hq ha => exact rowFrom_update (Swap.giveAddress_uuid _) (Swap.giveAddress_amounts _) h
  | asked hl hq => exact rowFrom_same h
  | loaded hl hq => exact rowFrom_update (Swap.giveAddress_uuid _) (Swap.giveAddress_amounts _) h
  | started hl hi => exact rowFrom_same h
  | resumed hl ha => exact rowFrom_same h

theorem InvoiceMove.rowFrom {s s' : State} {d : Draws} {out : List Out} {uuid : Uuid}
    {row' : Swap} (m : InvoiceMove s s' out) (h : s'.db.swaps.get uuid = some row') :
    RowFrom s (.invoice d) uuid row' := by
  cases m with
  | solicited hl hq => exact rowFrom_same h
  | exhausted hl hq => exact rowFrom_same h
  | accepted hl => exact rowFrom_same h
  | orphaned hl hq hr => exact rowFrom_same h
  | created hl hq hr => exact rowFrom_update (Swap.await_uuid _ _) (fun _ => ⟨rfl, rfl⟩) h
  | paid hl hi => exact rowFrom_same h
  | failed hl ha => exact rowFrom_delete h
  | requeued hl hr =>
      refine rowFrom_requeue ?_ h
      unfold reduction
      simp only [hl]
  | next hl hi => exact rowFrom_same h

/-- A pooled greenthread, with the event that resumes it. -/
theorem TaskMove.rowFrom {s s' : State} {n : Nat} {pick : UInt64} {t : Task} {out : List Out}
    {uuid : Uuid} {row' : Swap} (ht : s.tasks[n]? = some t)
    (m : TaskMove { s with tasks := s.tasks.eraseIdx n } t s' out)
    (h : s'.db.swaps.get uuid = some row') : RowFrom s (.task n pick) uuid row' := by
  cases m with
  | loadAddress hl => exact rowFrom_same h
  | loadInvoice hl => exact rowFrom_same h
  | checkPayments => exact rowFrom_same h
  | startAddress hl => exact rowFrom_same h
  | startInvoice hl => exact rowFrom_same h
  | paidSecond hc => exact rowFrom_same h
  | paidFirst hc => exact rowFrom_same h
  | payUnknown => exact rowFrom_same h
  | payFailed hr hh => exact rowFrom_same h
  | failed ha => exact rowFrom_delete h
  | @requeued k row amount hr =>
      refine rowFrom_requeue ?_ h
      show (s.tasks[n]?).bind Task.reduces = some k
      rw [ht]
      rfl
  | fundsIgnored hts => exact rowFrom_same h
  | fundsFound hr hh ha => exact rowFrom_delete h
  | seenSecond hc => exact rowFrom_same h
  | seenFirst hc => exact rowFrom_same h
  | block height => exact rowFrom_same h

/-- **STEP**: a row is as requested, or was there with the same minimum; and
    only a reduction gives it another amount. -/
theorem step_rowFrom {s s' : State} {e : Event} {out : List Out} {uuid : Uuid} {row' : Swap}
    (hs : step s e = some (s', out)) (h : s'.db.swaps.get uuid = some row') :
    RowFrom s e uuid row' := by
  cases step_move hs with
  | told ht => exact rowFrom_same h
  | newaddr hl => exact rowFrom_same h
  | quoted hl => exact rowFrom_same h
  | refused hl => exact rowFrom_same h
  | agreed hl => exact rowFrom_same h
  | @requested k minAmount maxAmount hn =>
      by_cases hk : uuid = k
      · subst hk
        have hself := Table.get_insert_self s.db.swaps
          ⟨uuid, maxAmount.toMsat, minAmount.toMsat, .needsOnchainAddress, none⟩ hn
        exact Or.inl ⟨minAmount, maxAmount, rfl, (Option.some.inj (hself.symm.trans h)).symm⟩
      · have hne := Table.get_insert_ne s.db.swaps
          ⟨k, maxAmount.toMsat, minAmount.toMsat, .needsOnchainAddress, none⟩ hn hk
        exact rowFrom_same (hne.symm.trans h)
  | address m => exact m.rowFrom h
  | invoice m => exact m.rowFrom h
  | task ht m => exact TaskMove.rowFrom ht m h
  | restart => exact rowFrom_same h

/-! ## A reduction -/

/-- The lowered amount: a draw from the middle half, but at least the minimum. -/
def lowered (pick minAmount : UInt64) : UInt64 := if pick < minAmount then minAmount else pick

/-- It is strictly lower, also where `amount * 3` wraps. -/
theorem lowered_lt {pick minAmount amount : UInt64} (hmin : minAmount ≤ amount)
    (hne : amount ≠ minAmount) (hpick : pick ≤ amount * 3 / 4) :
    minAmount ≤ lowered pick minAmount ∧ lowered pick minAmount < amount := by
  have hlt : minAmount < amount := UInt64.lt_of_le_of_ne hmin (Ne.symm hne)
  unfold lowered
  by_cases hp : pick < minAmount
  · rw [if_pos hp]
    exact ⟨UInt64.le_refl _, hlt⟩
  · rw [if_neg hp]
    have hwrap := Nat.mod_le (amount.toNat * 3) (2 ^ 64)
    simp only [UInt64.le_iff_toNat_le, UInt64.lt_iff_toNat_lt, UInt64.toNat_div, UInt64.toNat_mul,
      UInt64.reduceToNat] at *
    omega

/-- What a refusal does to a row: at the minimum the swap is failed and the row
    deleted, else the amount is lowered. -/
def Refused (s' : State) (out : List Out) (row : Swap) : Prop :=
  (row.amount = row.minAmount ∧ s'.db.swaps.get row.uuid = none
      ∧ out = [.swapResponse row.uuid false ⟨0⟩])
    ∨ (row.amount ≠ row.minAmount ∧ out = [] ∧ ∃ amount, s'.db.swaps.get row.uuid
        = some (row.reduce amount) ∧ row.minAmount ≤ amount ∧ amount < row.amount)

theorem swapReduceOrFail_refused {s : State} {pick : UInt64} {r : State × List Out × Bool}
    {row : Swap} (hrow : s.db.swaps.get row.uuid = some row) (hmin : row.minAmount ≤ row.amount)
    (h : swapReduceOrFail s row.uuid pick = some r) : Refused r.1 r.2.1 row := by
  have ha : amounts s row.uuid = (row.amount, row.minAmount) := by
    unfold amounts
    rw [hrow]
  unfold swapReduceOrFail at h
  simp only [ha] at h
  by_cases heq : row.amount = row.minAmount
  · rw [if_pos heq] at h
    cases h
    refine Or.inl ⟨heq, ?_, rfl⟩
    show (s.db.swaps.delete row.uuid).get row.uuid = none
    exact Table.get_delete_self _ _
  · rw [if_neg heq] at h
    split at h
    · rename_i hp
      cases h
      refine Or.inr ⟨heq, rfl, lowered pick row.minAmount, ?_, lowered_lt hmin heq hp.2⟩
      show (s.db.swaps.update row.uuid (Swap.reduce _) (Swap.reduce_uuid _)).get row.uuid = _
      rw [Table.get_update_self, hrow]
      rfl
    · cases h

/-- **STEP**: a refusal lowers the amount or fails the swap. -/
theorem step_refused {s s' : State} {e : Event} {out : List Out} {row : Swap}
    (hs : step s e = some (s', out)) (hred : reduction s e = some row.uuid)
    (hrow : s.db.swaps.get row.uuid = some row) (hmin : row.minAmount ≤ row.amount) :
    Refused s' out row := by
  obtain ⟨s₀, pick, r, hdb, hr, hdb', rfl⟩ := reduction_eq hs hred
  have := swapReduceOrFail_refused (s := s₀) (by rw [hdb]; exact hrow) hmin hr
  unfold Refused at this ⊢
  rwa [hdb']

/-! ## The amounts over a run -/

/-- A request asks for a minimum of at most its maximum, as `ModG::Swapper` does. -/
def Event.Ordered : Event → Prop
  | .swapRequest _ minAmount maxAmount => minAmount.toMsat ≤ maxAmount.toMsat
  | _                                  => True

instance (e : Event) : Decidable e.Ordered :=
  match e with
  | .swapRequest _ minAmount maxAmount =>
      inferInstanceAs (Decidable (minAmount.toMsat ≤ maxAmount.toMsat))
  | .timer10Minutes | .responseNewaddr _ | .provideSwapQuotation .. | .swapCreation _
  | .responseListpays .. | .listfundsResult _ | .block _ | .address | .invoice _ | .task ..
  | .restart => inferInstanceAs (Decidable True)

/-- Every swap is between the minimum and the maximum of a request for it. -/
def Bounded (es : List Event) (s : State) : Prop :=
  ∀ uuid row, s.db.swaps.get uuid = some row → ∃ minAmount maxAmount,
    Event.swapRequest uuid minAmount maxAmount ∈ es ∧ row.minAmount = minAmount.toMsat
      ∧ minAmount.toMsat ≤ row.amount ∧ row.amount ≤ maxAmount.toMsat

theorem Bounded.min_le {es : List Event} {s : State} {uuid : Uuid} {row : Swap}
    (hb : Bounded es s) (h : s.db.swaps.get uuid = some row) : row.minAmount ≤ row.amount := by
  obtain ⟨minAmount, maxAmount, -, hmin, hle, -⟩ := hb uuid row h
  rwa [hmin]

theorem Bounded.step {es : List Event} {s s' : State} {e : Event} {out : List Out}
    (hb : Bounded es s) (he : e.Ordered) (hs : step s e = some (s', out)) :
    Bounded (es ++ [e]) s' := by
  intro uuid row' hrow'
  rcases step_rowFrom hs hrow' with ⟨minAmount, maxAmount, rfl, rfl⟩ | ⟨row, hrow, hmin, hamount⟩
  · exact ⟨minAmount, maxAmount, List.mem_append_right _ List.mem_cons_self, rfl, he,
      UInt64.le_refl _⟩
  · obtain ⟨minAmount, maxAmount, hmem, hm, hle, hmax⟩ := hb uuid row hrow
    refine ⟨minAmount, maxAmount, List.mem_append_left _ hmem, hmin.trans hm, ?_⟩
    have huuid := Table.key_of_get hrow
    rcases hamount with ha | hred
    · rw [ha]
      exact ⟨hle, hmax⟩
    · subst huuid
      rcases step_refused hs hred hrow (hb.min_le hrow) with ⟨-, hnone, -⟩ | ⟨-, -, a, ha, hlo, hlt⟩
      · rw [hnone] at hrow'
        cases hrow'
      · rw [ha] at hrow'
        cases hrow'
        rw [← hm]
        exact ⟨hlo, UInt64.le_trans (UInt64.le_of_lt hlt) hmax⟩

/-- **RUN**: the amounts stay between what was asked for. -/
theorem run_bounded {es : List Event} {s : State} {tr : List Out}
    (hord : ∀ e ∈ es, e.Ordered) (hrun : run es = some (s, tr)) : Bounded es s := by
  refine Machine.run_invariant (P := fun _ _ => True)
    (I := fun es _ s => (∀ e ∈ es, e.Ordered) → Bounded es s) ?_ ?_ (Machine.along_true _ _)
    hrun hord
  · intro _ uuid row hrow
    cases hrow
  · intro es tr s e s' out hI _ hs hord
    refine (hI (fun e' he' => hord e' (List.mem_append_left _ he'))).step ?_ hs
    exact hord e (List.mem_append_right _ List.mem_cons_self)

/-- What a step does to the amount of a swap: nothing unless it is a refusal,
    and a refusal lowers it or fails the swap. -/
def LowersOnly (s : State) (e : Event) : Prop :=
  ∀ s' out row, step s e = some (s', out) → s.db.swaps.get row.uuid = some row →
    (reduction s e = some row.uuid → Refused s' out row)
      ∧ (reduction s e ≠ some row.uuid → ∀ row', s'.db.swaps.get row.uuid = some row' →
        row'.amount = row.amount ∧ row'.minAmount = row.minAmount)

theorem Bounded.lowersOnly {es : List Event} {s : State} (hb : Bounded es s) (e : Event) :
    LowersOnly s e := by
  intro s' out row hs hrow
  constructor
  · intro hred
    exact step_refused hs hred hrow (hb.min_le hrow)
  · intro hred row' hrow'
    rcases step_rowFrom hs hrow' with ⟨minAmount, maxAmount, rfl, -⟩ | ⟨row₀, hrow₀, hmin, ha⟩
    · -- a request for a swap that is there is ignored
      cases hs
      unfold onSwapRequest at hrow'
      rw [dif_neg (by rw [hrow]; exact Option.some_ne_none _), hrow] at hrow'
      cases hrow'
      exact ⟨rfl, rfl⟩
    · rw [hrow] at hrow₀
      cases hrow₀
      exact ⟨ha.resolve_right hred, hmin⟩

/-! ## Refusals are finite -/

/-- How often the swap is refused in the run. -/
def refusals (uuid : Uuid) : State → List Event → Nat
  | _, []      => 0
  | s, e :: es =>
      (if reduction s e = some uuid then 1 else 0) + match step s e with
        | none         => 0
        | some (s', _) => refusals uuid s' es

theorem mem_of_responses_pos {uuid : Uuid} {tr : List Out} (h : 0 < responses uuid tr) :
    ∃ success amount, .swapResponse uuid success amount ∈ tr := by
  obtain ⟨o, ho, hu⟩ := List.countP_pos_iff.mp h
  have hu := of_decide_eq_true hu
  cases o with
  | swapResponse u success amount =>
      cases hu
      exact ⟨success, amount, ho⟩
  | _ => simp [Out.respondsTo] at hu

/-- A swap survives at most as many refusals as its amount is above its
    minimum. -/
theorem responded_of_refusals {uuid : Uuid} (es : List Event) :
    ∀ (es₀ : List Event) (s s' : State) (tr : List Out) (row : Swap), Bounded es₀ s →
      (∀ e ∈ es, e.Ordered) → Machine.run step s es = some (s', tr) →
      s.db.swaps.get uuid = some row → (row.amount - row.minAmount).toNat < refusals uuid s es →
      0 < responses uuid tr := by
  induction es with
  | nil =>
      intro es₀ s s' tr row _ _ _ _ hlt
      exact absurd hlt (Nat.not_lt_zero _)
  | cons e es ih =>
      intro es₀ s s₂ tr row hb hord hrun hrow hlt
      obtain ⟨s', out, tr', hs, hr, rfl⟩ := Machine.run_cons hrun
      have happ : responses uuid (out ++ tr') = responses uuid out + responses uuid tr' :=
        List.countP_append
      rw [happ]
      have hb' := hb.step (hord e List.mem_cons_self) hs
      have hrest : ∀ row', s'.db.swaps.get uuid = some row' →
          (row'.amount - row'.minAmount).toNat < refusals uuid s' es → 0 < responses uuid tr' :=
        fun row' => ih _ s' s₂ tr' row' hb' (fun e' he' => hord e' (List.mem_cons_of_mem _ he')) hr
      unfold refusals at hlt
      rw [hs] at hlt
      simp only at hlt
      have huuid := Table.key_of_get hrow
      subst huuid
      obtain ⟨hlow, hsame⟩ := hb.lowersOnly e s' out row hs hrow
      have hmin := hb.min_le hrow
      by_cases hred : reduction s e = some row.uuid
      · rw [if_pos hred] at hlt
        rcases hlow hred with ⟨-, -, rfl⟩ | ⟨-, -, a, ha, hlo, hla⟩
        · have : responses row.uuid [.swapResponse row.uuid false ⟨0⟩] = 1 := by
            simp [responses, Out.respondsTo]
          omega
        · -- the distance to the minimum went down
          have := hrest _ ha (by
            show (a - row.minAmount).toNat < _
            rw [UInt64.toNat_sub_of_le _ _ hlo]
            rw [UInt64.toNat_sub_of_le _ _ hmin] at hlt
            rw [UInt64.lt_iff_toNat_lt] at hla
            rw [UInt64.le_iff_toNat_le] at hlo
            omega)
          omega
      · rw [if_neg hred, Nat.zero_add] at hlt
        have hsome : s.db.swaps.get row.uuid ≠ none := by
          rw [hrow]
          exact Option.some_ne_none _
        rcases step_row_or_response hs hsome with hlive | hresp
        · obtain ⟨row', hrow'⟩ := Option.ne_none_iff_exists'.mp hlive
          obtain ⟨ha, hm⟩ := hsame hred row' hrow'
          have := hrest row' hrow' (by rw [ha, hm]; exact hlt)
          omega
        · omega

/-- In every continuation of the run, a swap that is refused more often than
    its amount is above its minimum, and does not succeed, is failed. -/
def FailsFinally (s : State) : Prop :=
  ∀ es s' tr row, (∀ e ∈ es, e.Ordered) → Machine.run step s es = some (s', tr) →
    s.db.swaps.get row.uuid = some row →
    (row.amount - row.minAmount).toNat < refusals row.uuid s es →
    (∀ amount, .swapResponse row.uuid true amount ∉ tr) →
    ∃ amount, .swapResponse row.uuid false amount ∈ tr

theorem Bounded.failsFinally {es : List Event} {s : State} (hb : Bounded es s) :
    FailsFinally s := by
  intro es' s' tr row hord hrun hrow hlt hnot
  obtain ⟨success, amount, hmem⟩ := mem_of_responses_pos
    (responded_of_refusals es' es s s' tr row hb hord hrun hrow hlt)
  cases success with
  | true => exact absurd hmem (hnot amount)
  | false => exact ⟨amount, hmem⟩

end SwapManager
