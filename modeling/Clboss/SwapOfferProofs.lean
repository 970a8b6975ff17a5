import Clboss.SwapAmountProofs

/-! # `Boss::Mod::SwapManager` — what is offered to the providers

    `amount` and `address` are members: `loop_needs_invoice` reads them from the
    row at the front of the queue once, and every `AcceptSwapQuotation` of the
    following rounds carries them.  `Negotiates` is the invariant that ties them
    to that row.  It holds as long as nothing else touches a row while it waits
    for its invoice, and TWO greenthreads may:

    * a failed payment and a reached timeout each start a `swap_reduce_or_fail`
      for the same swap, and the later one finds it already back in the queue;
    * `on_periodic` refills an empty queue from the table, although the swap
      that was just popped for its reduction is still marked as needing one.

    `Clean` excludes exactly these two. -/

namespace SwapManager

open Bitcoin Ln UniqueTable

/-! ## The invariant -/

/-- The swap has a row in the given state. -/
def InState (s : State) (uuid : Uuid) (state : SwapState) : Prop :=
  ∃ row, s.db.swaps.get uuid = some row ∧ row.state = state

/-- The swap `loop_needs_invoice` popped for its reduction. -/
def InvoiceLoop.reduces : InvoiceLoop → Option Uuid
  | .reducing uuid => some uuid
  | _              => none

/-- The swaps that wait for an invoice: the queue, with the popped swap before
    its reduction and without the paid one before it is popped. -/
def waiting (s : State) : List Uuid :=
  match s.invoiceLoop with
  | .paying        => s.needsInvoice.tail
  | .reducing uuid => uuid :: s.needsInvoice
  | _              => s.needsInvoice

/-- The loop has read the members for the front of the queue. -/
def InvoiceLoop.Offers : InvoiceLoop → Prop
  | .collecting | .choosing | .accepting => True
  | _                                    => False

/-- The members are those of the row at the front of the queue. -/
def OffersFront (s : State) : Prop :=
  ∃ uuid rest row, s.needsInvoice = uuid :: rest ∧ s.db.swaps.get uuid = some row
    ∧ s.amount = ⟨row.amount⟩ ∧ row.address = some s.address

/-- Both queues hold swaps in their own state, each once, and the members are
    up to date. -/
structure Negotiates (s : State) : Prop where
  addressed  : ∀ uuid row, s.db.swaps.get uuid = some row → row.state ≠ .needsOnchainAddress →
    row.address ≠ none
  asking     : ∀ uuid ∈ s.needsAddress, InState s uuid .needsOnchainAddress
  asksOnce   : s.needsAddress.Nodup
  waits      : ∀ uuid ∈ waiting s, InState s uuid .needsInvoice
  waitsOnce  : (waiting s).Nodup
  paysFront  : s.invoiceLoop = .paying → s.needsInvoice ≠ []
  offered    : s.invoiceLoop.Offers → OffersFront s

/-! ## Frames -/

/-- The invariant reads the swaps, the queues, the loop and the members. -/
theorem Negotiates.frame {s s' : State} (h : Negotiates s) (hdb : s'.db.swaps = s.db.swaps)
    (hna : s'.needsAddress = s.needsAddress) (hni : s'.needsInvoice = s.needsInvoice)
    (hl : s'.invoiceLoop = s.invoiceLoop) (ham : s'.amount = s.amount)
    (had : s'.address = s.address) : Negotiates s' := by
  have hw : waiting s' = waiting s := by
    unfold waiting
    rw [hl, hni]
  have hin : ∀ uuid state, InState s' uuid state ↔ InState s uuid state := by
    intro uuid state
    unfold InState
    rw [hdb]
  refine ⟨?_, ?_, ?_, ?_, ?_, ?_, ?_⟩
  · rw [hdb]; exact h.addressed
  · intro uuid hu
    rw [hna] at hu
    exact (hin uuid _).mpr (h.asking uuid hu)
  · rw [hna]; exact h.asksOnce
  · intro uuid hu
    rw [hw] at hu
    exact (hin uuid _).mpr (h.waits uuid hu)
  · rw [hw]; exact h.waitsOnce
  · rw [hl, hni]; exact h.paysFront
  · intro ho
    rw [hl] at ho
    unfold OffersFront
    rw [hdb, hni, ham, had]
    exact h.offered ho

/-- The loop moves on while the same swaps wait. -/
theorem Negotiates.moved {s s' : State} (h : Negotiates s) (hdb : s'.db.swaps = s.db.swaps)
    (hna : s'.needsAddress = s.needsAddress) (hw : waiting s' = waiting s)
    (hp : s'.invoiceLoop = .paying → s'.needsInvoice ≠ [])
    (ho : s'.invoiceLoop.Offers → OffersFront s') : Negotiates s' := by
  refine ⟨?_, ?_, ?_, ?_, ?_, hp, ho⟩
  · rw [hdb]; exact h.addressed
  · intro uuid hu
    rw [hna] at hu
    unfold InState
    rw [hdb]
    exact h.asking uuid hu
  · rw [hna]; exact h.asksOnce
  · intro uuid hu
    rw [hw] at hu
    unfold InState
    rw [hdb]
    exact h.waits uuid hu
  · rw [hw]; exact h.waitsOnce

/-- The same members, while the loop stays where it was or leaves the rounds. -/
theorem offersFront_of_eq {s s' : State} (h : OffersFront s) (hdb : s'.db.swaps = s.db.swaps)
    (hni : s'.needsInvoice = s.needsInvoice) (ham : s'.amount = s.amount)
    (had : s'.address = s.address) : OffersFront s' := by
  unfold OffersFront
  rw [hdb, hni, ham, had]
  exact h

section OneRow

variable {s s' : State} {k : Uuid}

/-- Another swap's row is as it was. -/
theorem InState.keep {uuid : Uuid} {state : SwapState} (h : InState s uuid state)
    (hk : ∀ u, u ≠ k → s'.db.swaps.get u = s.db.swaps.get u) (hne : uuid ≠ k) :
    InState s' uuid state := by
  unfold InState
  rw [hk uuid hne]
  exact h

/-- A swap in another state is not this one. -/
theorem InState.ne {uuid : Uuid} {state : SwapState} (h : InState s uuid state)
    (hk : ¬ InState s k state) : uuid ≠ k := by
  rintro rfl
  exact hk h

/-- A swap in one state is in no other. -/
theorem InState.not {state state' : SwapState} (h : InState s k state) (hne : state ≠ state') :
    ¬ InState s k state' := by
  rintro ⟨row', hrow', hstate'⟩
  obtain ⟨row, hrow, hstate⟩ := h
  rw [hrow] at hrow'
  cases hrow'
  exact hne (hstate.symm.trans hstate')

/-- The front's row is another one, and the queue only grew. -/
theorem OffersFront.keep {new : List Uuid} (h : OffersFront s)
    (hw : ∀ uuid ∈ s.needsInvoice, InState s uuid .needsInvoice)
    (hk : ∀ u, u ≠ k → s'.db.swaps.get u = s.db.swaps.get u)
    (hkw : ¬ InState s k .needsInvoice) (hni : s'.needsInvoice = s.needsInvoice ++ new)
    (ham : s'.amount = s.amount) (had : s'.address = s.address) : OffersFront s' := by
  obtain ⟨uuid, rest, row, hq, hrow, ha, hb⟩ := h
  have hne : uuid ≠ k := (hw uuid (by rw [hq]; exact List.mem_cons_self)).ne hkw
  refine ⟨uuid, rest ++ new, row, ?_, ?_, ham.trans ha, ?_⟩
  · rw [hni, hq, List.cons_append]
  · rw [hk uuid hne]
    exact hrow
  · rw [had]
    exact hb

/-- In the rounds, all of the queue waits. -/
theorem waiting_of_offers (ho : s.invoiceLoop.Offers) : waiting s = s.needsInvoice := by
  unfold waiting
  cases hl : s.invoiceLoop with
  | paying => rw [hl] at ho; cases ho
  | reducing uuid => rw [hl] at ho; cases ho
  | _ => rfl

/-- What is pushed to the queue waits, too. -/
theorem waiting_append {new : List Uuid} (hp : s.invoiceLoop = .paying → s.needsInvoice ≠ [])
    (hl : s'.invoiceLoop = s.invoiceLoop) (hni : s'.needsInvoice = s.needsInvoice ++ new) :
    waiting s' = waiting s ++ new := by
  unfold waiting
  rw [hl, hni]
  cases hloop : s.invoiceLoop with
  | paying => exact List.tail_append_of_ne_nil (hp hloop)
  | _ => rfl

/-- ONE row changes, of a swap that does not wait for an invoice; it may begin
    to. -/
theorem Negotiates.touch (new : List Uuid) (h : Negotiates s)
    (hk : ∀ u, u ≠ k → s'.db.swaps.get u = s.db.swaps.get u)
    (hkw : ¬ InState s k .needsInvoice)
    (hka : ∀ row, s'.db.swaps.get k = some row → row.state ≠ .needsOnchainAddress →
      row.address ≠ none)
    (hask : ∀ uuid ∈ s'.needsAddress, InState s' uuid .needsOnchainAddress)
    (honce : s'.needsAddress.Nodup)
    (hni : s'.needsInvoice = s.needsInvoice ++ new)
    (hnew : new = [] ∨ new = [k] ∧ InState s' k .needsInvoice)
    (hl : s'.invoiceLoop = s.invoiceLoop) (ham : s'.amount = s.amount)
    (had : s'.address = s.address) : Negotiates s' := by
  have hw := waiting_append h.paysFront hl hni
  have hkmem : k ∉ waiting s := fun hmem => hkw (h.waits k hmem)
  refine ⟨?_, hask, honce, ?_, ?_, ?_, ?_⟩
  · intro uuid row hrow hstate
    by_cases hu : uuid = k
    · subst hu
      exact hka row hrow hstate
    · rw [hk uuid hu] at hrow
      exact h.addressed uuid row hrow hstate
  · intro uuid hu
    rw [hw] at hu
    rcases List.mem_append.mp hu with hu | hu
    · have hin := h.waits uuid hu
      exact hin.keep hk (hin.ne hkw)
    · rcases hnew with rfl | ⟨rfl, hin⟩
      · cases hu
      · rw [List.mem_singleton.mp hu]
        exact hin
  · rw [hw]
    rcases hnew with rfl | ⟨rfl, -⟩
    · rw [List.append_nil]
      exact h.waitsOnce
    · exact (List.nodup_append_comm.mp (List.nodup_cons.mpr ⟨hkmem, h.waitsOnce⟩))
  · intro hpay
    rw [hl] at hpay
    rw [hni]
    exact List.append_ne_nil_of_left_ne_nil (h.paysFront hpay) new
  · intro ho
    rw [hl] at ho
    refine (h.offered ho).keep ?_ hk hkw hni ham had
    rw [← waiting_of_offers ho]
    exact h.waits

end OneRow

/-! ## The address loop -/

/-- `load_address` moves the front of one queue to the end of the other. -/
theorem Negotiates.loadAddress {s : State} {uuid : Uuid} {rest : List Uuid} {a : String}
    (h : Negotiates s) (hq : s.needsAddress = uuid :: rest) :
    Negotiates (loadAddress s uuid a) := by
  have hk : ∀ u, u ≠ uuid →
      (SwapManager.loadAddress s uuid a).db.swaps.get u = s.db.swaps.get u :=
    fun u hu => Table.get_update_ne _ _ _ (Swap.giveAddress_uuid a) hu
  have hin := h.asking uuid (by rw [hq]; exact List.mem_cons_self)
  have honce := h.asksOnce
  rw [hq, List.nodup_cons] at honce
  obtain ⟨row, hrow, hstate⟩ := hin
  have hrow' : (SwapManager.loadAddress s uuid a).db.swaps.get uuid
      = some { row with address := some a, state := .needsInvoice } := by
    show (s.db.swaps.update uuid (Swap.giveAddress a) (Swap.giveAddress_uuid a)).get uuid = _
    rw [Table.get_update_self, hrow, Option.map_some, Swap.giveAddress, if_pos hstate]
  have htail : (SwapManager.loadAddress s uuid a).needsAddress = rest := by
    show s.needsAddress.tail = rest
    rw [hq]
    rfl
  refine h.touch _ hk (InState.not ⟨row, hrow, hstate⟩ (by decide)) ?_ ?_ ?_ rfl
    (Or.inr ⟨rfl, _, hrow', rfl⟩) rfl rfl rfl
  · intro r hr _
    rw [hrow'] at hr
    cases hr
    exact Option.some_ne_none _
  · intro u hu
    rw [htail] at hu
    have hmem : u ∈ s.needsAddress := by rw [hq]; exact List.mem_cons_of_mem _ hu
    refine (h.asking u hmem).keep hk ?_
    rintro rfl
    exact honce.1 hu
  · rw [htail]
    exact honce.2

/-- The invoice loop is at most started. -/
theorem Negotiates.started {s s' : State} {q : Prop} (h : Negotiates s)
    (hdb : s'.db.swaps = s.db.swaps) (hna : s'.needsAddress = s.needsAddress)
    (hni : s'.needsInvoice = s.needsInvoice) (ham : s'.amount = s.amount)
    (had : s'.address = s.address)
    (hl : s'.invoiceLoop = s.invoiceLoop
      ∨ s.invoiceLoop = .idle ∧ s'.invoiceLoop = .soliciting ∧ q) : Negotiates s' := by
  rcases hl with hl | ⟨hidle, hl, -⟩
  · exact h.frame hdb hna hni hl ham had
  · refine h.moved hdb hna ?_ (fun hc => ?_) (fun ho => ?_)
    · unfold waiting
      rw [hidle, hl, hni]
    · rw [hl] at hc
      cases hc
    · rw [hl] at ho
      cases ho

theorem AddressMove.negotiates {s s' : State} {out : List Out} (m : AddressMove s s' out)
    (h : Negotiates s) : Negotiates s' := by
  cases m with
  | cached hl hq ha =>
      refine Negotiates.loadAddress (s := { s with db := { s.db with
        addrcache := s.db.addrcache.eraseP (· ≠ "") } }) ?_ hq
      exact h.frame rfl rfl rfl rfl rfl rfl
  | asked hl hq => exact h.frame rfl rfl rfl rfl rfl rfl
  | loaded hl hq => exact h.loadAddress hq
  | started hl hi => exact h.started rfl rfl rfl rfl rfl hi
  | resumed hl ha => exact h.frame rfl rfl rfl rfl rfl rfl

/-! ## The invoice loop -/

/-- The row of the FRONT changes as the loop is done with it; the swap may join
    the queue again. -/
theorem Negotiates.release {s s' : State} {k : Uuid} {rest : List Uuid} (new : List Uuid)
    (h : Negotiates s) (hw : waiting s = k :: rest) (hk : ∀ u, u ≠ k → s'.db.swaps.get u = s.db.swaps.get u)
    (hka : ∀ row, s'.db.swaps.get k = some row → row.state ≠ .needsOnchainAddress →
      row.address ≠ none)
    (hna : s'.needsAddress = s.needsAddress) (hw' : waiting s' = rest ++ new)
    (hnew : new = [] ∨ new = [k] ∧ InState s' k .needsInvoice)
    (hp : s'.invoiceLoop = .paying → s'.needsInvoice ≠ [])
    (ho : ¬ s'.invoiceLoop.Offers) : Negotiates s' := by
  have hin := h.waits k (by rw [hw]; exact List.mem_cons_self)
  have honce := h.waitsOnce
  rw [hw, List.nodup_cons] at honce
  refine ⟨?_, ?_, ?_, ?_, ?_, hp, fun hc => absurd hc ho⟩
  · intro uuid row hrow hstate
    by_cases hu : uuid = k
    · subst hu
      exact hka row hrow hstate
    · rw [hk uuid hu] at hrow
      exact h.addressed uuid row hrow hstate
  · intro uuid hu
    rw [hna] at hu
    have hask := h.asking uuid hu
    exact hask.keep hk (hask.ne (hin.not (by decide)))
  · rw [hna]
    exact h.asksOnce
  · intro uuid hu
    rw [hw'] at hu
    rcases List.mem_append.mp hu with hu | hu
    · have hwait := h.waits uuid (by rw [hw]; exact List.mem_cons_of_mem _ hu)
      refine hwait.keep hk ?_
      rintro rfl
      exact honce.1 hu
    · rcases hnew with rfl | ⟨rfl, hin'⟩
      · cases hu
      · rw [List.mem_singleton.mp hu]
        exact hin'
  · rw [hw']
    rcases hnew with rfl | ⟨rfl, -⟩
    · rw [List.append_nil]
      exact honce.2
    · exact List.nodup_append_comm.mp (List.nodup_cons.mpr honce)

/-- The transaction of `loop_needs_invoice` reads the members from the front's
    row. -/
theorem Negotiates.solicit {s : State} {uuid : Uuid} {rest : List Uuid} (h : Negotiates s)
    (hl : s.invoiceLoop = .soliciting) (hq : s.needsInvoice = uuid :: rest) :
    Negotiates (solicit s uuid).1 := by
  have hw : waiting s = s.needsInvoice := by
    unfold waiting
    rw [hl]
  obtain ⟨row, hrow, hstate⟩ := h.waits uuid (by rw [hw, hq]; exact List.mem_cons_self)
  obtain ⟨a, ha⟩ := Option.ne_none_iff_exists'.mp
    (h.addressed uuid row hrow (by rw [hstate]; decide))
  have heq : (SwapManager.solicit s uuid).1
      = { s with amount := ⟨row.amount⟩, address := a, invoiceLoop := .collecting } := by
    unfold SwapManager.solicit
    rw [hrow]
    simp only [ha, Option.getD_some]
  rw [heq]
  refine h.moved rfl rfl hw.symm (fun hc => by cases hc) (fun _ => ?_)
  exact ⟨uuid, rest, row, hq, hrow, rfl, ha⟩

theorem waiting_exhausted {s : State} (hl : s.invoiceLoop = .collecting ∨ s.invoiceLoop = .choosing) :
    waiting s = s.needsInvoice := by
  refine waiting_of_offers ?_
  rcases hl with hl | hl
  · rw [hl]; trivial
  · rw [hl]; trivial

theorem InvoiceMove.negotiates {s s' : State} {d : Draws} {out : List Out}
    (hs : stepInvoice s d = some (s', out)) (m : InvoiceMove s s' out) (h : Negotiates s) :
    Negotiates s' := by
  cases m with
  | solicited hl hq =>
      unfold stepInvoice at hs
      simp only [hl] at hs
      obtain ⟨uuid, hu, heq⟩ := Option.map_eq_some_iff.mp hs
      obtain ⟨rest, hq'⟩ := List.head?_eq_some_iff.mp hu
      have := h.solicit hl hq'
      rwa [heq] at this
  | exhausted hl hq =>
      refine h.moved rfl rfl ?_ (fun hc => by cases hc) (fun hc => by cases hc)
      rw [waiting_exhausted hl, hq]
      rfl
  | accepted hl =>
      refine h.moved rfl rfl (waiting_exhausted hl).symm (fun hc => by cases hc) (fun _ => ?_)
      have ho : s.invoiceLoop.Offers := by
        rcases hl with hl | hl
        · rw [hl]; trivial
        · rw [hl]; trivial
      exact offersFront_of_eq (h.offered ho) rfl rfl rfl rfl
  | orphaned hl hq hr =>
      refine h.moved rfl rfl ?_ (fun hc => by cases hc) (fun hc => by cases hc)
      unfold waiting
      rw [hl]
  | @created c name uuid rest row hl hq hr =>
      have hw : waiting s = uuid :: rest := by
        unfold waiting
        rw [hl]
        exact hq
      obtain ⟨row', hrow', hstate⟩ := h.waits uuid (by rw [hw]; exact List.mem_cons_self)
      rw [hr] at hrow'
      cases hrow'
      refine h.release [] hw (fun u hu => Table.get_update_ne _ _ _ (Swap.await_uuid _ _) hu)
        ?_ rfl ?_ (Or.inl rfl) (fun _ => ?_) (fun hc => by cases hc)
      · intro r hr' _
        have hnew : (s.db.swaps.update uuid (Swap.await c.hash c.timeout)
            (Swap.await_uuid c.hash c.timeout)).get uuid = some (row.await c.hash c.timeout) := by
          rw [Table.get_update_self, hr]
          rfl
        rw [show r = row.await c.hash c.timeout from Option.some.inj (hr'.symm.trans hnew)]
        exact h.addressed uuid row hr (by rw [hstate]; decide)
      · show s.needsInvoice.tail = rest ++ []
        rw [hq, List.append_nil]
        rfl
      · show s.needsInvoice ≠ []
        rw [hq]
        exact List.cons_ne_nil uuid rest
  | paid hl hi =>
      have hw : waiting s = s.needsInvoice.tail := by
        unfold waiting
        rw [hl]
      rcases hi with rfl | ⟨rfl, -⟩
      · exact h.moved rfl rfl hw.symm (fun hc => by cases hc) (fun hc => by cases hc)
      · exact h.moved rfl rfl hw.symm (fun hc => by cases hc) (fun hc => by cases hc)
  | @failed uuid hl ha =>
      have hw : waiting s = uuid :: s.needsInvoice := by
        unfold waiting
        rw [hl]
      refine h.release [] hw (fun u hu => Table.get_delete_ne _ hu) ?_ rfl
        (List.append_nil _).symm (Or.inl rfl) (fun hc => by cases hc) (fun hc => by cases hc)
      intro r hr
      exact absurd ((Table.get_delete_self s.db.swaps uuid).symm.trans hr)
        (Option.some_ne_none r).symm
  | @requeued uuid row amount hl hr =>
      have hw : waiting s = uuid :: s.needsInvoice := by
        unfold waiting
        rw [hl]
      obtain ⟨row', hrow', hstate⟩ := h.waits uuid (by rw [hw]; exact List.mem_cons_self)
      rw [hr] at hrow'
      cases hrow'
      have hnew : (s.db.swaps.update uuid (Swap.reduce amount) (Swap.reduce_uuid amount)).get uuid
          = some (row.reduce amount) := by
        rw [Table.get_update_self, hr]
        rfl
      refine h.release [uuid] hw
        (fun u hu => Table.get_update_ne _ _ _ (Swap.reduce_uuid _) hu) ?_ rfl rfl
        (Or.inr ⟨rfl, _, hnew, rfl⟩) (fun hc => by cases hc) (fun hc => by cases hc)
      intro r hr' _
      rw [show r = row.reduce amount from Option.some.inj (hr'.symm.trans hnew)]
      exact h.addressed uuid row hr (by rw [hstate]; decide)
  | next hl hi =>
      have hw : waiting s = s.needsInvoice := by
        unfold waiting
        rw [hl]
      rcases hi with rfl | ⟨rfl, -⟩
      · exact h.moved rfl rfl hw.symm (fun hc => by cases hc) (fun hc => by cases hc)
      · exact h.moved rfl rfl hw.symm (fun hc => by cases hc) (fun hc => by cases hc)

/-! ## The other greenthreads -/

/-- Nobody but the invoice loop works on the swap: it has no row, or awaits its
    result. -/
def Awaits (s : State) (uuid : Uuid) : Prop :=
  match s.db.swaps.get uuid with
  | none     => True
  | some row => row.paymentHash ≠ none

instance (s : State) (uuid : Uuid) : Decidable (Awaits s uuid) :=
  match h : s.db.swaps.get uuid with
  | none     => isTrue (by simp only [Awaits, h])
  | some row => decidable_of_iff (row.paymentHash ≠ none) (by simp only [Awaits, h])

/-- A pooled `swap_reduce_or_fail` finds its swap awaiting a result, and an
    empty queue is not refilled while the popped swap is about to be reduced. -/
def Clean (s : State) : Event → Prop
  | .task n _ =>
      match s.tasks[n]? with
      | some (.reduce uuid) => Awaits s uuid
      | some .loadInvoice   => s.needsInvoice = [] → s.invoiceLoop.reduces = none
      | _                   => True
  | _ => True

instance (s : State) (e : Event) : Decidable (Clean s e) :=
  match e with
  | .task n _ =>
      match h : s.tasks[n]? with
      | some (.reduce uuid) => decidable_of_iff (Awaits s uuid) (by simp only [Clean, h])
      | some .loadInvoice   =>
          decidable_of_iff (s.needsInvoice = [] → s.invoiceLoop.reduces = none)
            (by simp only [Clean, h])
      | some .loadAddress | some .checkPayments | some .startAddress | some .startInvoice
      | some (.paySuccess ..) | some (.payFailed _) | some .fundsLoop | some (.onchainSeen ..)
      | some (.block _) | none => isTrue (by simp only [Clean, h])
  | .swapRequest .. | .timer10Minutes | .responseNewaddr _ | .provideSwapQuotation ..
  | .swapCreation _ | .responseListpays .. | .listfundsResult _ | .block _ | .address | .invoice _
  | .restart => isTrue (by simp only [Clean])

theorem Awaits.not_inState {s : State} {uuid : Uuid} (h : Awaits s uuid) {state : SwapState}
    (hs : state = .needsOnchainAddress ∨ state = .needsInvoice) : ¬ InState s uuid state := by
  rintro ⟨row, hrow, hstate⟩
  unfold Awaits at h
  rw [hrow] at h
  simp only [Swap.paymentHash, hstate] at h
  rcases hs with rfl | rfl
  · exact h rfl
  · exact h rfl

/-- The queue `load_queue` fills holds each swap in the state once. -/
theorem loadQueue_nodup (db : Db) (column : Nat) : (loadQueue db [] column).Nodup := by
  unfold loadQueue
  rw [if_pos rfl]
  exact db.swaps.nodup.sublist (List.filter_sublist.map _)

theorem inState_loadQueue {s : State} {uuid : Uuid} {column : Nat}
    (h : uuid ∈ loadQueue s.db [] column) :
    ∃ row, s.db.swaps.get uuid = some row ∧ row.state.column = column := by
  unfold loadQueue at h
  rw [if_pos rfl] at h
  obtain ⟨row, hrow, rfl⟩ := List.mem_map.mp h
  obtain ⟨hmem, hcol⟩ := List.mem_filter.mp hrow
  exact ⟨row, Table.get_of_mem hmem, of_decide_eq_true hcol⟩

theorem SwapState.column_zero {state : SwapState} (h : state.column = 0) :
    state = .needsOnchainAddress := by
  cases state with
  | needsOnchainAddress => rfl
  | needsInvoice => cases h
  | awaitingResult hash timeout => cases h

theorem SwapState.column_one {state : SwapState} (h : state.column = 1) :
    state = .needsInvoice := by
  cases state with
  | needsOnchainAddress => cases h
  | needsInvoice => rfl
  | awaitingResult hash timeout => cases h

/-- `load_queue` for the addresses. -/
theorem Negotiates.loadAsking {s : State} (h : Negotiates s) :
    Negotiates { s with needsAddress := loadQueue s.db s.needsAddress 0 } := by
  by_cases hq : s.needsAddress = []
  · refine ⟨h.addressed, ?_, ?_, h.waits, h.waitsOnce, h.paysFront, h.offered⟩
    · intro uuid hu
      rw [hq] at hu
      obtain ⟨row, hrow, hcol⟩ := inState_loadQueue hu
      exact ⟨row, hrow, SwapState.column_zero hcol⟩
    · rw [hq]
      exact loadQueue_nodup s.db 0
  · have : loadQueue s.db s.needsAddress 0 = s.needsAddress := by
      unfold loadQueue
      rw [if_neg hq]
    rw [this]
    exact h

/-- `load_queue` for the invoices: nobody waits outside of an empty queue. -/
theorem Negotiates.loadWaiting {s : State} (h : Negotiates s)
    (hc : s.needsInvoice = [] → s.invoiceLoop.reduces = none) :
    Negotiates { s with needsInvoice := loadQueue s.db s.needsInvoice 1 } := by
  by_cases hq : s.needsInvoice = []
  · have hw : waiting { s with needsInvoice := loadQueue s.db s.needsInvoice 1 }
        = loadQueue s.db [] 1 := by
      unfold waiting
      rw [hq]
      cases hl : s.invoiceLoop with
      | paying => exact absurd hq (h.paysFront hl)
      | reducing uuid =>
          have := hc hq
          rw [hl] at this
          cases this
      | _ => rfl
    refine ⟨h.addressed, h.asking, h.asksOnce, ?_, ?_, ?_, ?_⟩
    · intro uuid hu
      rw [hw] at hu
      obtain ⟨row, hrow, hcol⟩ := inState_loadQueue hu
      exact ⟨row, hrow, SwapState.column_one hcol⟩
    · rw [hw]
      exact loadQueue_nodup s.db 1
    · intro hl
      exact absurd hq (h.paysFront hl)
    · intro ho
      obtain ⟨uuid, rest, row, hfront, -⟩ := h.offered ho
      rw [hq] at hfront
      cases hfront
  · have : loadQueue s.db s.needsInvoice 1 = s.needsInvoice := by
      unfold loadQueue
      rw [if_neg hq]
    rw [this]
    exact h

/-- A swap that awaits its result is deleted. -/
theorem Negotiates.delete {s s' : State} {uuid : Uuid} (h : Negotiates s) (hw : Awaits s uuid)
    (hdb : s'.db.swaps = s.db.swaps.delete uuid) (hna : s'.needsAddress = s.needsAddress)
    (hni : s'.needsInvoice = s.needsInvoice) (hl : s'.invoiceLoop = s.invoiceLoop)
    (ham : s'.amount = s.amount) (had : s'.address = s.address) : Negotiates s' := by
  have hk : ∀ u, u ≠ uuid → s'.db.swaps.get u = s.db.swaps.get u := by
    intro u hu
    rw [hdb]
    exact Table.get_delete_ne _ hu
  refine h.touch [] hk (hw.not_inState (Or.inr rfl)) ?_ ?_ ?_ ?_ (Or.inl rfl) hl ham had
  · intro row hrow
    rw [hdb, Table.get_delete_self] at hrow
    cases hrow
  · intro u hu
    rw [hna] at hu
    have hask := h.asking u hu
    exact hask.keep hk (hask.ne (hw.not_inState (Or.inl rfl)))
  · rw [hna]
    exact h.asksOnce
  · rw [hni, List.append_nil]

/-- A swap that awaited its result joins the queue again. -/
theorem Negotiates.requeue {s : State} {uuid : Uuid} {row : Swap} (amount : UInt64)
    (h : Negotiates s) (hw : Awaits s uuid) (hrow : s.db.swaps.get uuid = some row) :
    Negotiates (requeue s uuid amount) := by
  have hk : ∀ u, u ≠ uuid → (SwapManager.requeue s uuid amount).db.swaps.get u
      = s.db.swaps.get u :=
    fun u hu => Table.get_update_ne _ _ _ (Swap.reduce_uuid _) hu
  have hnew : (SwapManager.requeue s uuid amount).db.swaps.get uuid = some (row.reduce amount) := by
    show (s.db.swaps.update uuid (Swap.reduce amount) (Swap.reduce_uuid amount)).get uuid = _
    rw [Table.get_update_self, hrow]
    rfl
  refine h.touch _ hk (hw.not_inState (Or.inr rfl)) ?_ ?_ h.asksOnce rfl
    (Or.inr ⟨rfl, _, hnew, rfl⟩) rfl rfl rfl
  · intro r hr _
    rw [hnew] at hr
    cases hr
    refine h.addressed uuid row hrow ?_
    intro hstate
    exact hw.not_inState (Or.inl rfl) ⟨row, hrow, hstate⟩
  · intro u hu
    have hask := h.asking u hu
    exact hask.keep hk (hask.ne (hw.not_inState (Or.inl rfl)))

theorem awaits_of_paymentHash {s : State} {row : Swap} {hash : Hash}
    (hr : row ∈ s.db.swaps.rows) (hh : row.paymentHash = some hash) : Awaits s row.uuid := by
  unfold Awaits
  rw [Table.get_of_mem hr]
  simp only [hh]
  exact Option.some_ne_none _

theorem TaskMove.negotiates {s s' : State} {n : Nat} {pick : UInt64} {t : Task} {out : List Out}
    (ht : s.tasks[n]? = some t) (hc : Clean s (.task n pick))
    (m : TaskMove { s with tasks := s.tasks.eraseIdx n } t s' out) (h : Negotiates s) :
    Negotiates s' := by
  have h₀ : Negotiates { s with tasks := s.tasks.eraseIdx n } := h.frame rfl rfl rfl rfl rfl rfl
  unfold Clean at hc
  simp only [ht] at hc
  cases m with
  | loadAddress hl => exact h.loadAsking.frame rfl rfl rfl rfl rfl rfl
  | loadInvoice hl => exact (h.loadWaiting hc).started rfl rfl rfl rfl rfl hl
  | checkPayments => exact h₀
  | startAddress hl => exact h.frame rfl rfl rfl rfl rfl rfl
  | startInvoice hl => exact h.started rfl rfl rfl rfl rfl hl
  | paidSecond _ => exact h.frame rfl rfl rfl rfl rfl rfl
  | paidFirst _ => exact h.frame rfl rfl rfl rfl rfl rfl
  | payUnknown => exact h₀
  | payFailed hr hh => exact h.frame rfl rfl rfl rfl rfl rfl
  | failed ha => exact h.delete hc rfl rfl rfl rfl rfl rfl
  | requeued hr => exact (h₀.requeue _ hc hr).frame rfl rfl rfl rfl rfl rfl
  | fundsIgnored hts => exact h.frame rfl rfl rfl rfl rfl rfl
  | fundsFound hr hh ha =>
      exact h.delete (awaits_of_paymentHash hr hh) rfl rfl rfl rfl rfl rfl
  | seenSecond _ => exact h.frame rfl rfl rfl rfl rfl rfl
  | seenFirst _ => exact h.frame rfl rfl rfl rfl rfl rfl
  | block height => exact h.frame rfl rfl rfl rfl rfl rfl

/-! ## Steps and runs -/

theorem negotiates_boot (db : Db)
    (ha : ∀ uuid row, db.swaps.get uuid = some row → row.state ≠ .needsOnchainAddress →
      row.address ≠ none) : Negotiates (boot db) where
  addressed := ha
  asking    := fun _ hu => by cases hu
  asksOnce  := List.nodup_nil
  waits     := fun _ hu => by cases hu
  waitsOnce := List.nodup_nil
  paysFront := fun hl => by cases hl
  offered   := fun ho => by cases ho

/-- A fresh swap joins the queue for addresses. -/
theorem Negotiates.requested {s : State} {uuid : Uuid} {minAmount maxAmount : Amount}
    {ts : List Task} (h : Negotiates s) (hn : s.db.swaps.get uuid = none) :
    Negotiates { s with
      db := { s.db with
        swaps := s.db.swaps.insert
          ⟨uuid, maxAmount.toMsat, minAmount.toMsat, .needsOnchainAddress, none⟩ hn }
      needsAddress := s.needsAddress ++ [uuid]
      tasks := ts } := by
  have hk := fun u (hu : u ≠ uuid) => Table.get_insert_ne s.db.swaps
    ⟨uuid, maxAmount.toMsat, minAmount.toMsat, .needsOnchainAddress, none⟩ hn hu
  have hself := Table.get_insert_self s.db.swaps
    ⟨uuid, maxAmount.toMsat, minAmount.toMsat, .needsOnchainAddress, none⟩ hn
  have hnot : ∀ state, ¬ InState s uuid state := by
    rintro state ⟨row, hrow, -⟩
    rw [hn] at hrow
    cases hrow
  refine h.touch [] hk (hnot _) ?_ ?_ ?_ (List.append_nil _).symm (Or.inl rfl) rfl rfl rfl
  · intro row hrow hstate
    rw [← Option.some.inj (hself.symm.trans hrow)] at hstate
    exact absurd rfl hstate
  · intro u hu
    rcases List.mem_append.mp hu with hu | hu
    · exact (h.asking u hu).keep hk ((h.asking u hu).ne (hnot _))
    · rw [List.mem_singleton.mp hu]
      exact ⟨_, hself, rfl⟩
  · refine List.nodup_append_comm.mp (List.nodup_cons.mpr ⟨?_, h.asksOnce⟩)
    intro hmem
    exact hnot _ (h.asking uuid hmem)

/-- **STEP**: a clean step keeps the members tied to the front. -/
theorem Negotiates.step {s s' : State} {e : Event} {out : List Out} (h : Negotiates s)
    (hc : Clean s e) (hs : step s e = some (s', out)) : Negotiates s' := by
  cases step_move hs with
  | told ht => exact h.frame rfl rfl rfl rfl rfl rfl
  | newaddr hl => exact h.frame rfl rfl rfl rfl rfl rfl
  | quoted hl => exact h.frame rfl rfl rfl rfl rfl rfl
  | refused hl =>
      have ho : s.invoiceLoop.Offers := by rw [hl]; trivial
      refine h.moved rfl rfl (waiting_of_offers ho).symm (fun hc => by cases hc) (fun _ => ?_)
      exact offersFront_of_eq (h.offered ho) rfl rfl rfl rfl
  | agreed hl =>
      have ho : s.invoiceLoop.Offers := by rw [hl]; trivial
      exact h.moved rfl rfl (waiting_of_offers ho).symm (fun hc => by cases hc)
        (fun hc => by cases hc)
  | requested hn => exact h.requested hn
  | address m => exact m.negotiates h
  | invoice m => exact m.negotiates hs h
  | task ht m => exact TaskMove.negotiates ht hc m h
  | restart => exact negotiates_boot s.db h.addressed

/-- **RUN**: so does a clean run. -/
theorem run_negotiates {es : List Event} {s : State} {tr : List Out}
    (hc : Machine.Along step Clean (boot Db.empty) es) (hrun : run es = some (s, tr)) :
    Negotiates s := by
  refine Machine.run_invariant (I := fun _ _ s => Negotiates s) ?_ ?_ hc hrun
  · exact negotiates_boot Db.empty (fun uuid row hrow => by cases hrow)
  · intro es tr s e s' out hI hP hs
    exact hI.step hP hs

/-- An `AcceptSwapQuotation` is raised in the rounds and carries the members. -/
theorem accepts_members {s s' : State} {e : Event} {out : List Out} {amount : Amount}
    {address : String} {provider : Nat} (hs : step s e = some (s', out))
    (hmem : .acceptSwapQuotation amount address provider ∈ out) :
    s.invoiceLoop.Offers ∧ amount = s.amount ∧ address = s.address := by
  cases step_move hs with
  | address m => cases m <;> simp at hmem
  | invoice m =>
      cases m with
      | accepted hl =>
          obtain ⟨rfl, rfl, -⟩ : amount = s.amount ∧ address = s.address ∧ _ := by simpa using hmem
          refine ⟨?_, rfl, rfl⟩
          rcases hl with hl | hl
          · rw [hl]; trivial
          · rw [hl]; trivial
      | failed hl ha => simp [failSwap] at hmem
      | _ => simp at hmem
  | task ht m =>
      cases m with
      | failed ha => simp [failSwap] at hmem
      | _ => simp at hmem
  | _ => simp at hmem

/-- Every `AcceptSwapQuotation` carries the amount and the address in the row of
    the swap at the front of the queue. -/
def AcceptsFront (s : State) (e : Event) : Prop :=
  ∀ s' out amount address provider, step s e = some (s', out) →
    .acceptSwapQuotation amount address provider ∈ out →
    ∃ uuid rest row, s.needsInvoice = uuid :: rest ∧ s.db.swaps.get uuid = some row
      ∧ amount = ⟨row.amount⟩ ∧ row.address = some address

theorem Negotiates.acceptsFront {s : State} (h : Negotiates s) (e : Event) : AcceptsFront s e := by
  intro s' out amount address provider hs hmem
  obtain ⟨ho, rfl, rfl⟩ := accepts_members hs hmem
  exact h.offered ho

/-- **HEADLINE**: in every state a run reaches, each swap's amount is between
    the minimum and the maximum asked for; a step changes it only by a refusal,
    which lowers it strictly or, at the minimum, fails the swap; and a swap that
    is refused often enough is failed.  If the run is CLEAN, whatever is offered
    next is what the row at the front of the queue says. -/
theorem amounts_lowered_and_front_offered {es : List Event} {s : State} {tr : List Out}
    (hord : ∀ e ∈ es, e.Ordered) (hrun : run es = some (s, tr)) :
    Bounded es s ∧ (∀ e, LowersOnly s e) ∧ FailsFinally s
      ∧ (Machine.Along step Clean (boot Db.empty) es → ∀ e, AcceptsFront s e) := by
  have hb := run_bounded hord hrun
  refine ⟨hb, hb.lowersOnly, hb.failsFinally, ?_⟩
  intro hc e
  exact (run_negotiates hc hrun).acceptsFront e

/-- A swap of 1 to 4 satoshis, up to the offer of the reduced amount after its
    payment failed. -/
def sampleOfferRun : List Event :=
  [.swapRequest ⟨1⟩ ⟨1000⟩ ⟨4000⟩, .task 1 0, .address, .responseNewaddr "bc1pa",
    .address, .address, .address,
    .invoice ⟨[], [], 0⟩, .provideSwapQuotation ⟨10⟩ 1 "boltz",
    .invoice ⟨[5], [⟨5, 1, "boltz"⟩], 0⟩,
    .swapCreation (some ⟨"lnbc1", sampleHash, 100⟩), .invoice ⟨[], [], 0⟩, .invoice ⟨[], [], 0⟩,
    .responseListpays sampleHash .failed ⟨0⟩, .task 1 0, .task 1 2000,
    .task 1 0, .invoice ⟨[], [], 0⟩, .provideSwapQuotation ⟨10⟩ 1 "boltz"]

theorem amounts_lowered_and_front_offered_sampleOfferRun :
    (run sampleOfferRun).isSome ∧ ∀ s tr, run sampleOfferRun = some (s, tr) →
      Bounded sampleOfferRun s ∧ (∀ e, LowersOnly s e) ∧ FailsFinally s
        ∧ ∀ e, AcceptsFront s e := by
  refine ⟨by decide +kernel, ?_⟩
  intro s tr h
  obtain ⟨hb, hl, hf, ha⟩ := amounts_lowered_and_front_offered (by decide +kernel) h
  exact ⟨hb, hl, hf, ha (by decide +kernel)⟩

/-- The same swap, but its timeout is reached as the payment fails: of the two
    `swap_reduce_or_fail` the second runs while the reduced amount is being
    negotiated. -/
def staleOfferRun : List Event :=
  [.swapRequest ⟨1⟩ ⟨1000⟩ ⟨4000⟩, .task 1 0, .address, .responseNewaddr "bc1pa",
    .address, .address, .address,
    .invoice ⟨[], [], 0⟩, .provideSwapQuotation ⟨10⟩ 1 "boltz",
    .invoice ⟨[5], [⟨5, 1, "boltz"⟩], 0⟩,
    .swapCreation (some ⟨"lnbc1", sampleHash, 100⟩), .invoice ⟨[], [], 0⟩, .invoice ⟨[], [], 0⟩,
    .responseListpays sampleHash .failed ⟨0⟩, .block 100, .task 1 0, .task 1 0, .task 1 2000,
    .task 2 0, .invoice ⟨[], [], 0⟩, .provideSwapQuotation ⟨10⟩ 1 "boltz", .task 1 1000]

/-- **SLIP**: the next offer is of 2 satoshis, the row says 1. -/
theorem stale_offer_staleOfferRun :
    (∀ e ∈ staleOfferRun, e.Ordered) ∧ ∃ s tr, run staleOfferRun = some (s, tr)
      ∧ ¬ ∀ e, AcceptsFront s e := by
  refine ⟨by decide +kernel, ?_⟩
  have hobs : (run staleOfferRun).map (fun p => (p.1.needsInvoice,
      (p.1.db.swaps.get ⟨1⟩).map Swap.amount,
      (step p.1 (.invoice ⟨[5], [⟨5, 1, "boltz"⟩], 0⟩)).map (fun q => q.2)))
      = some ([⟨1⟩, ⟨1⟩], some 1000, some [.acceptSwapQuotation ⟨2000⟩ "bc1pa" 1]) := by
    decide +kernel
  obtain ⟨⟨s, tr⟩, hrun, heq⟩ := Option.map_eq_some_iff.mp hobs
  refine ⟨s, tr, hrun, fun hfront => ?_⟩
  simp only [Prod.mk.injEq] at heq
  obtain ⟨hq, hamount, hstep⟩ := heq
  obtain ⟨⟨s', out⟩, hs, hout⟩ := Option.map_eq_some_iff.mp hstep
  simp only at hout
  subst hout
  obtain ⟨uuid, rest, row, hfr, hrow, ha, -⟩ := hfront _ s' _ ⟨2000⟩ "bc1pa" 1 hs
    List.mem_cons_self
  rw [hq] at hfr
  cases hfr
  rw [hrow] at hamount
  rw [show row.amount = 1000 from Option.some.inj hamount] at ha
  exact absurd ha (by decide)

end SwapManager
