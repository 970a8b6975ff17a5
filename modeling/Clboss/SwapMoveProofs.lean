import Clboss.SwapManagerProofs

/-! # `Boss::Mod::SwapManager` — every step, once

    The step function branches over two program counters, a pool of tasks and
    a dozen messages.  This file takes it apart ONCE: `step_move` says that
    every step is one of the moves of `Move`, each with the guard under which
    the code takes it and the state it leaves.  The invariants of the module
    are case analyses over these moves. -/

namespace SwapManager

open Bitcoin Ln UniqueTable

/-! ## Frames -/

/-- A loop that is getting nothing is idle. -/
theorem addressLoop_idle {s : State} (h : ¬ s.gettingAddress) : s.addressLoop = .idle := by
  unfold State.gettingAddress at h
  split at h
  · assumption
  · exact absurd rfl h

theorem invoiceLoop_idle {s : State} (h : ¬ s.gettingInvoice) : s.invoiceLoop = .idle := by
  unfold State.gettingInvoice at h
  split at h
  · assumption
  · exact absurd rfl h

/-- The address loop touches nothing but its own program counter when it is
    started. -/
theorem loopNeedsAddress_frame (s : State) :
    ∃ l, loopNeedsAddress s = { s with addressLoop := l }
      ∧ (l = .idle ∨ l = .fetching ∧ s.needsAddress ≠ []) := by
  unfold loopNeedsAddress
  by_cases hq : s.needsAddress = []
  · exact ⟨.idle, if_pos hq, Or.inl rfl⟩
  · exact ⟨.fetching, if_neg hq, Or.inr ⟨rfl, hq⟩⟩

/-- Neither does `process_needs_address`, and a loop that runs is left to itself. -/
theorem processNeedsAddress_frame (s : State) :
    ∃ l, processNeedsAddress s = { s with addressLoop := l }
      ∧ (l = s.addressLoop ∨ s.addressLoop = .idle ∧ l = .fetching ∧ s.needsAddress ≠ []) := by
  unfold processNeedsAddress
  by_cases hg : s.gettingAddress
  · rw [if_pos hg]
    exact ⟨s.addressLoop, rfl, Or.inl rfl⟩
  · rw [if_neg hg]
    have hidle := addressLoop_idle hg
    obtain ⟨l, heq, hl | ⟨hl, hq⟩⟩ := loopNeedsAddress_frame s
    · exact ⟨l, heq, Or.inl (hl.trans hidle.symm)⟩
    · exact ⟨l, heq, Or.inr ⟨hidle, hl, hq⟩⟩

/-- `loop_needs_invoice` goes idle on an empty queue and solicits for the front
    of any other. -/
theorem loopNeedsInvoice_frame (s : State) :
    ∃ l q, loopNeedsInvoice s = { s with invoiceLoop := l, quotations := q }
      ∧ (l = .idle ∨ l = .soliciting ∧ s.needsInvoice ≠ []) := by
  unfold loopNeedsInvoice
  by_cases hq : s.needsInvoice = []
  · exact ⟨.idle, s.quotations, if_pos hq, Or.inl rfl⟩
  · exact ⟨.soliciting, [], if_neg hq, Or.inr ⟨rfl, hq⟩⟩

/-- And `process_needs_invoice` starts an idle loop only. -/
theorem processNeedsInvoice_frame (s : State) :
    ∃ l q, processNeedsInvoice s = { s with invoiceLoop := l, quotations := q }
      ∧ (l = s.invoiceLoop
        ∨ s.invoiceLoop = .idle ∧ l = .soliciting ∧ s.needsInvoice ≠ []) := by
  unfold processNeedsInvoice
  by_cases hg : s.gettingInvoice
  · rw [if_pos hg]
    exact ⟨s.invoiceLoop, s.quotations, rfl, Or.inl rfl⟩
  · rw [if_neg hg]
    have hidle := invoiceLoop_idle hg
    obtain ⟨l, q, heq, hl | ⟨hl, hq⟩⟩ := loopNeedsInvoice_frame s
    · exact ⟨l, q, heq, Or.inl (hl.trans hidle.symm)⟩
    · exact ⟨l, q, heq, Or.inr ⟨hidle, hl, hq⟩⟩

/-- The two ends of `swap_reduce_or_fail`. -/
theorem swapReduceOrFail_cases {s : State} {uuid : Uuid} {pick : UInt64}
    {r : State × List Out × Bool} (h : swapReduceOrFail s uuid pick = some r) :
    ((amounts s uuid).1 = (amounts s uuid).2
        ∧ r = ((failSwap s uuid).1, (failSwap s uuid).2, false))
      ∨ (∃ row amount, s.db.swaps.get uuid = some row
        ∧ r = (requeue s uuid amount, [], true)) := by
  unfold swapReduceOrFail at h
  simp only at h
  by_cases heq : (amounts s uuid).1 = (amounts s uuid).2
  · rw [if_pos heq] at h
    exact Or.inl ⟨heq, (Option.some.inj h).symm⟩
  · rw [if_neg heq] at h
    have hrow : ∃ row, s.db.swaps.get uuid = some row := by
      cases hg : s.db.swaps.get uuid with
      | none =>
          unfold amounts at heq
          rw [hg] at heq
          exact absurd rfl heq
      | some row => exact ⟨row, rfl⟩
    obtain ⟨row, hrow⟩ := hrow
    split at h
    · exact Or.inr ⟨row, _, hrow, (Option.some.inj h).symm⟩
    · exact nomatch h

/-- The two ends of `loop_quotations`. -/
theorem loopQuotations_cases {s s' : State} {out : List Out}
    (h : loopQuotations s = some (s', out)) :
    (∃ uuid rest, s.needsInvoice = uuid :: rest ∧ out = []
        ∧ s' = { s with needsInvoice := rest, invoiceLoop := .reducing uuid })
      ∨ (∃ q, out = [.acceptSwapQuotation s.amount s.address q]
        ∧ s' = { s with invoiceLoop := .accepting }) := by
  unfold loopQuotations at h
  cases hq : s.quotations.getLast? with
  | none =>
      rw [hq] at h
      simp only at h
      cases hn : s.needsInvoice with
      | nil => rw [hn] at h; exact nomatch h
      | cons uuid rest =>
          rw [hn] at h
          simp only [Option.some.injEq, Prod.mk.injEq] at h
          exact Or.inl ⟨uuid, rest, rfl, h.2.symm, h.1.symm⟩
  | some q =>
      rw [hq] at h
      simp only [Option.some.injEq, Prod.mk.injEq] at h
      exact Or.inr ⟨q.provider, h.2.symm, h.1.symm⟩

/-! ## What one step of a loop can do -/

/-- Every way the address loop can be resumed. -/
inductive AddressMove (s : State) : State → List Out → Prop
  | cached {uuid : Uuid} {rest : List Uuid} {address : String}
      (hl : s.addressLoop = .fetching) (hq : s.needsAddress = uuid :: rest)
      (ha : s.db.addrcache.find? (· ≠ "") = some address) :
      AddressMove s (loadAddress { s with db := { s.db with
        addrcache := s.db.addrcache.eraseP (· ≠ "") } } uuid address) []
  | asked (hl : s.addressLoop = .fetching) (hq : s.needsAddress ≠ []) :
      AddressMove s { s with addressLoop := .asked } [.requestNewaddr]
  | loaded {uuid : Uuid} {rest : List Uuid} {address : String}
      (hl : s.addressLoop = .loading address) (hq : s.needsAddress = uuid :: rest) :
      AddressMove s (loadAddress s uuid address) []
  | started {b : Bool} {l : InvoiceLoop} {q : List Quotation}
      (hl : s.addressLoop = .loaded b)
      (hi : l = s.invoiceLoop ∨ s.invoiceLoop = .idle ∧ l = .soliciting ∧ s.needsInvoice ≠ []) :
      AddressMove s { s with addressLoop := .resuming, invoiceLoop := l, quotations := q } []
  | resumed {l : AddressLoop} (hl : s.addressLoop = .resuming)
      (ha : l = .idle ∨ l = .fetching ∧ s.needsAddress ≠ []) :
      AddressMove s { s with addressLoop := l } []

/-- **THE ADDRESS LOOP**: every round is one of its moves. -/
theorem stepAddress_move {s s' : State} {out : List Out}
    (h : stepAddress s = some (s', out)) : AddressMove s s' out := by
  unfold stepAddress at h
  cases hl : s.addressLoop with
  | idle => rw [hl] at h; exact nomatch h
  | asked => rw [hl] at h; exact nomatch h
  | fetching =>
      rw [hl] at h
      cases hq : s.needsAddress with
      | nil => simp [hq] at h
      | cons uuid rest =>
          simp only [hq, List.head?_cons, Option.map_some, Option.some.injEq] at h
          unfold fetchAddress at h
          cases ha : s.db.addrcache.find? (· ≠ "") with
          | none =>
              rw [ha] at h
              cases h
              exact .asked hl (by rw [hq]; exact List.cons_ne_nil uuid rest)
          | some a => rw [ha] at h; cases h; exact .cached hl hq ha
  | loading a =>
      rw [hl] at h
      cases hq : s.needsAddress with
      | nil => simp [hq] at h
      | cons uuid rest =>
          simp only [hq, List.head?_cons, Option.map_some, Option.some.injEq] at h
          cases h
          exact .loaded hl hq
  | loaded b =>
      rw [hl] at h
      simp only [Option.some.injEq, Prod.mk.injEq] at h
      obtain ⟨rfl, rfl⟩ := h
      cases b with
      | false => exact .started hl (Or.inl rfl)
      | true =>
          obtain ⟨l, q, heq, hi⟩ := processNeedsInvoice_frame s
          rw [if_pos rfl, heq]
          exact .started hl hi
  | resuming =>
      rw [hl] at h
      simp only [Option.some.injEq, Prod.mk.injEq] at h
      obtain ⟨rfl, rfl⟩ := h
      obtain ⟨l, heq, ha⟩ := loopNeedsAddress_frame s
      rw [heq]
      exact .resumed hl ha

/-- Every way the invoice loop can be resumed. -/
inductive InvoiceMove (s : State) : State → List Out → Prop
  | solicited {amount : Amount} {address : String}
      (hl : s.invoiceLoop = .soliciting) (hq : s.needsInvoice ≠ []) :
      InvoiceMove s { s with invoiceLoop := .collecting, amount := amount, address := address }
        [.solicitSwapQuotation amount]
  | exhausted {uuid : Uuid} {rest : List Uuid} {q : List Quotation}
      (hl : s.invoiceLoop = .collecting ∨ s.invoiceLoop = .choosing)
      (hq : s.needsInvoice = uuid :: rest) :
      InvoiceMove s { s with
        needsInvoice := rest, invoiceLoop := .reducing uuid, quotations := q } []
  | accepted {provider : Nat} {q : List Quotation}
      (hl : s.invoiceLoop = .collecting ∨ s.invoiceLoop = .choosing) :
      InvoiceMove s { s with invoiceLoop := .accepting, quotations := q }
        [.acceptSwapQuotation s.amount s.address provider]
  | orphaned {c : Creation} {name : String} {uuid : Uuid} {rest : List Uuid}
      (hl : s.invoiceLoop = .creating c name) (hq : s.needsInvoice = uuid :: rest)
      (hr : s.db.swaps.get uuid = none) :
      InvoiceMove s { s with invoiceLoop := .dead } []
  | created {c : Creation} {name : String} {uuid : Uuid} {rest : List Uuid} {row : Swap}
      (hl : s.invoiceLoop = .creating c name) (hq : s.needsInvoice = uuid :: rest)
      (hr : s.db.swaps.get uuid = some row) :
      InvoiceMove s { s with
        db := { s.db with
          swaps := s.db.swaps.update uuid (Swap.await c.hash c.timeout)
            (Swap.await_uuid c.hash c.timeout)
          provider := s.db.provider.insertOrReplace ⟨uuid, name⟩ }
        invoiceLoop := .paying } [.payInvoice uuid c.hash c.invoice]
  | paid {l : InvoiceLoop} {q : List Quotation} (hl : s.invoiceLoop = .paying)
      (hi : l = .idle ∨ l = .soliciting ∧ s.needsInvoice.tail ≠ []) :
      InvoiceMove s { s with
        needsInvoice := s.needsInvoice.tail, invoiceLoop := l, quotations := q } []
  | failed {uuid : Uuid} (hl : s.invoiceLoop = .reducing uuid)
      (ha : (amounts s uuid).1 = (amounts s uuid).2) :
      InvoiceMove s { (failSwap s uuid).1 with invoiceLoop := .reduced } (failSwap s uuid).2
  | requeued {uuid : Uuid} {row : Swap} {amount : UInt64} (hl : s.invoiceLoop = .reducing uuid)
      (hr : s.db.swaps.get uuid = some row) :
      InvoiceMove s { requeue s uuid amount with invoiceLoop := .reduced } []
  | next {l : InvoiceLoop} {q : List Quotation} (hl : s.invoiceLoop = .reduced)
      (hi : l = .idle ∨ l = .soliciting ∧ s.needsInvoice ≠ []) :
      InvoiceMove s { s with invoiceLoop := l, quotations := q } []

/-- Solicitation goes on with the swap or without it. -/
theorem solicit_move {s s' : State} {uuid : Uuid} {rest : List Uuid} {out : List Out}
    (hl : s.invoiceLoop = .soliciting) (hq : s.needsInvoice = uuid :: rest)
    (h : solicit s uuid = (s', out)) : InvoiceMove s s' out := by
  have hne : s.needsInvoice ≠ [] := by rw [hq]; exact List.cons_ne_nil uuid rest
  unfold solicit at h
  cases hg : s.db.swaps.get uuid with
  | none => rw [hg] at h; cases h; exact .solicited hl hne
  | some r => rw [hg] at h; cases h; exact .solicited hl hne

/-- The loop over the quotations takes one, or puts the swap at the back of the queue. -/
theorem loopQuotations_move {s s' : State} {q : List Quotation} {out : List Out}
    (hl : s.invoiceLoop = .collecting ∨ s.invoiceLoop = .choosing)
    (h : loopQuotations { s with quotations := q } = some (s', out)) : InvoiceMove s s' out := by
  obtain ⟨uuid, rest, hq, rfl, rfl⟩ | ⟨p, rfl, rfl⟩ := loopQuotations_cases h
  · exact .exhausted hl hq
  · exact .accepted hl

/-- The swap is created on a row that is there, or given up. -/
theorem createSwap_move {s s' : State} {uuid : Uuid} {rest : List Uuid} {c : Creation}
    {name : String} {out : List Out} (hl : s.invoiceLoop = .creating c name)
    (hq : s.needsInvoice = uuid :: rest) (h : createSwap s uuid c name = (s', out)) :
    InvoiceMove s s' out := by
  unfold createSwap at h
  cases hr : s.db.swaps.get uuid with
  | none => rw [hr] at h; cases h; exact .orphaned hl hq hr
  | some row => rw [hr] at h; cases h; exact .created hl hq hr

/-- **THE INVOICE LOOP**: every round is one of its moves. -/
theorem stepInvoice_move {s s' : State} {d : Draws} {out : List Out}
    (h : stepInvoice s d = some (s', out)) : InvoiceMove s s' out := by
  unfold stepInvoice at h
  cases hl : s.invoiceLoop with
  | idle => rw [hl] at h; exact nomatch h
  | accepting => rw [hl] at h; exact nomatch h
  | dead => rw [hl] at h; exact nomatch h
  | soliciting =>
      rw [hl] at h
      obtain ⟨uuid, hu, hs⟩ := Option.map_eq_some_iff.mp h
      obtain ⟨rest, hq⟩ := List.head?_eq_some_iff.mp hu
      exact solicit_move hl hq hs
  | collecting =>
      rw [hl] at h
      simp only at h
      split at h
      · exact loopQuotations_move (Or.inl hl) h
      · exact nomatch h
  | choosing => rw [hl] at h; exact loopQuotations_move (Or.inr hl) h
  | creating c name =>
      rw [hl] at h
      obtain ⟨uuid, hu, hs⟩ := Option.map_eq_some_iff.mp h
      obtain ⟨rest, hq⟩ := List.head?_eq_some_iff.mp hu
      exact createSwap_move hl hq hs
  | paying =>
      obtain ⟨l, q, heq, hi⟩ := loopNeedsInvoice_frame { s with needsInvoice := s.needsInvoice.tail }
      rw [hl] at h
      simp only [← hl, heq, Option.some.injEq, Prod.mk.injEq] at h
      obtain ⟨rfl, rfl⟩ := h
      exact .paid hl hi
  | reducing uuid =>
      rw [hl] at h
      obtain ⟨r, hr, hs⟩ := Option.map_eq_some_iff.mp h
      obtain ⟨ha, rfl⟩ | ⟨row, amount, hrow, rfl⟩ := swapReduceOrFail_cases hr
      · cases hs; exact .failed hl ha
      · cases hs; exact .requeued hl hrow
  | reduced =>
      rw [hl] at h
      simp only [Option.some.injEq, Prod.mk.injEq] at h
      obtain ⟨rfl, rfl⟩ := h
      obtain ⟨l, q, heq, hi⟩ := loopNeedsInvoice_frame s
      rw [heq]
      exact .next hl hi

/-- Every way a pooled greenthread can be resumed. -/
inductive TaskMove (s : State) : Task → State → List Out → Prop
  | loadAddress {l : AddressLoop}
      (hl : l = s.addressLoop ∨ s.addressLoop = .idle ∧ l = .fetching
        ∧ loadQueue s.db s.needsAddress 0 ≠ []) :
      TaskMove s .loadAddress { s with
        needsAddress := loadQueue s.db s.needsAddress 0
        addressLoop := l
        tasks := s.tasks ++ [.loadInvoice] } []
  | loadInvoice {l : InvoiceLoop} {q : List Quotation}
      (hl : l = s.invoiceLoop ∨ s.invoiceLoop = .idle ∧ l = .soliciting
        ∧ loadQueue s.db s.needsInvoice 1 ≠ []) :
      TaskMove s .loadInvoice { s with
        needsInvoice := loadQueue s.db s.needsInvoice 1
        invoiceLoop := l
        quotations := q
        tasks := s.tasks ++ [.checkPayments] } []
  | checkPayments :
      TaskMove s .checkPayments s
        ((s.db.swaps.rows.filterMap Swap.paymentHash).map .requestListpays)
  | startAddress {l : AddressLoop}
      (hl : l = s.addressLoop ∨ s.addressLoop = .idle ∧ l = .fetching ∧ s.needsAddress ≠ []) :
      TaskMove s .startAddress { s with addressLoop := l } []
  | startInvoice {l : InvoiceLoop} {q : List Quotation}
      (hl : l = s.invoiceLoop ∨ s.invoiceLoop = .idle ∧ l = .soliciting ∧ s.needsInvoice ≠ []) :
      TaskMove s .startInvoice { s with invoiceLoop := l, quotations := q } []
  | paidSecond {h : Hash} {amount : Amount} {c : CompOnchain}
      (hc : s.db.compOnchain.get h = some c) :
      TaskMove s (.paySuccess h amount)
        { s with db := { s.db with compOnchain := s.db.compOnchain.delete h } }
        [.paySucceeded h amount, .swapCompleted h amount c.amountReceived c.providerName]
  | paidFirst {h : Hash} {amount : Amount} (hc : s.db.compOnchain.get h = none) :
      TaskMove s (.paySuccess h amount)
        { s with db := { s.db with compPay := s.db.compPay.insertOrIgnore ⟨h, amount⟩ } }
        [.paySucceeded h amount]
  | payUnknown {h : Hash} : TaskMove s (.payFailed h) s []
  | payFailed {h : Hash} {row : Swap} (hr : row ∈ s.db.swaps.rows)
      (hh : row.paymentHash = some h) :
      TaskMove s (.payFailed h) { s with tasks := s.tasks ++ [.reduce row.uuid] }
        [.payFailure row.uuid h]
  | failed {uuid : Uuid} (ha : (amounts s uuid).1 = (amounts s uuid).2) :
      TaskMove s (.reduce uuid) (failSwap s uuid).1 (failSwap s uuid).2
  | requeued {uuid : Uuid} {row : Swap} {amount : UInt64} (hr : s.db.swaps.get uuid = some row) :
      TaskMove s (.reduce uuid) { requeue s uuid amount with tasks := s.tasks ++ [.startInvoice] } []
  | fundsIgnored {funds : List (String × Amount)} {ts : List Task} (ht : ts ⊆ [.fundsLoop]) :
      TaskMove s .fundsLoop { s with onchainFunds := funds, tasks := s.tasks ++ ts } []
  | fundsFound {fund : String × Amount} {rest : List (String × Amount)} {row : Swap} {h : Hash}
      {name : String} (hr : row ∈ s.db.swaps.rows) (hh : row.paymentHash = some h)
      (ha : row.address = some fund.1) :
      TaskMove s .fundsLoop
        { s with
          db := s.db.deleteSwap row.uuid
          onchainFunds := rest
          tasks := s.tasks ++ [.onchainSeen h fund.2 name, .fundsLoop] }
        [.swapResponse row.uuid true fund.2]
  | seenSecond {h : Hash} {amount : Amount} {name : String} {c : CompPay}
      (hc : s.db.compPay.get h = some c) :
      TaskMove s (.onchainSeen h amount name)
        { s with db := { s.db with compPay := s.db.compPay.delete h } }
        [.onchainArrived h amount, .swapCompleted h c.amountSent amount name]
  | seenFirst {h : Hash} {amount : Amount} {name : String} (hc : s.db.compPay.get h = none) :
      TaskMove s (.onchainSeen h amount name)
        { s with db := { s.db with
            compOnchain := s.db.compOnchain.insertOrIgnore ⟨h, amount, name⟩ } }
        [.onchainArrived h amount]
  | block (height : UInt32) :
      TaskMove s (.block height)
        { s with tasks := s.tasks
          ++ (s.db.swaps.rows.filterMap (timedOutAt height)).map (fun p => .reduce p.1) }
        ((s.db.swaps.rows.filterMap (timedOutAt height)).map (fun p => .timedOut p.1 p.2))

/-- The two ends of a swap are reported in either order. -/
theorem onPaySuccess_move (s : State) (h : Hash) (amount : Amount) :
    TaskMove s (.paySuccess h amount) (onPaySuccess s h amount).1
      (onPaySuccess s h amount).2 := by
  unfold onPaySuccess
  cases hc : s.db.compOnchain.get h with
  | none => exact .paidFirst hc
  | some c => exact .paidSecond hc

/-- A failure takes the last row with the hash, which is one that waits for it. -/
theorem onPayFailed_move (s : State) (h : Hash) :
    TaskMove s (.payFailed h) (onPayFailed s h).1 (onPayFailed s h).2 := by
  unfold onPayFailed
  cases hr : (s.db.swaps.rows.filter (fun r => r.paymentHash = some h)).getLast? with
  | none => exact .payUnknown
  | some row =>
      obtain ⟨hmem, hh⟩ := List.mem_filter.mp (List.mem_of_getLast? hr)
      exact .payFailed hmem (of_decide_eq_true hh)

/-- What is read off a row that waits at an address. -/
theorem awaitingAt_eq {a : String} {r : Swap} {p : Uuid × Hash} (h : awaitingAt a r = some p) :
    r.uuid = p.1 ∧ r.paymentHash = some p.2 ∧ r.address = some a := by
  unfold awaitingAt at h
  unfold Swap.paymentHash
  cases hs : r.state with
  | needsOnchainAddress => rw [hs] at h; exact nomatch h
  | needsInvoice => rw [hs] at h; exact nomatch h
  | awaitingResult h' t =>
      rw [hs] at h
      simp only at h
      split at h
      · cases h; exact ⟨rfl, rfl, by assumption⟩
      · exact nomatch h

/-- And off one whose time is over. -/
theorem timedOutAt_eq {height : UInt32} {r : Swap} {p : Uuid × Hash}
    (h : timedOutAt height r = some p) : r.uuid = p.1 ∧ r.paymentHash = some p.2 := by
  unfold timedOutAt at h
  unfold Swap.paymentHash
  cases hs : r.state with
  | needsOnchainAddress => rw [hs] at h; exact nomatch h
  | needsInvoice => rw [hs] at h; exact nomatch h
  | awaitingResult h' t =>
      rw [hs] at h
      simp only at h
      split at h
      · cases h; exact ⟨rfl, rfl⟩
      · exact nomatch h

/-- A transaction output settles the swaps at its address, or none. -/
theorem loopOnchainFunds_move (s : State) :
    TaskMove s .fundsLoop (loopOnchainFunds s).1 (loopOnchainFunds s).2 := by
  unfold loopOnchainFunds
  cases hf : s.onchainFunds with
  | nil =>
      have : TaskMove s .fundsLoop { s with tasks := s.tasks ++ [] } [] :=
        .fundsIgnored (List.nil_subset _)
      rwa [List.append_nil] at this
  | cons fund rest =>
      simp only
      cases hr : (s.db.swaps.rows.filterMap (awaitingAt fund.1)).getLast? with
      | none => exact .fundsIgnored (List.Subset.refl _)
      | some p =>
          obtain ⟨row, hmem, hp⟩ := List.mem_filterMap.mp (List.mem_of_getLast? hr)
          obtain ⟨hu, hh, ha⟩ := awaitingAt_eq hp
          simp only [← hu]
          exact .fundsFound hmem hh ha

/-- Funds that are seen are the first or the second end. -/
theorem onOnchainFundsSeen_move (s : State) (h : Hash) (amount : Amount) (name : String) :
    TaskMove s (.onchainSeen h amount name) (onOnchainFundsSeen s h amount name).1
      (onOnchainFundsSeen s h amount name).2 := by
  unfold onOnchainFundsSeen
  cases hc : s.db.compPay.get h with
  | none => exact .seenFirst hc
  | some c => exact .seenSecond hc

/-- **THE TASKS**: what each of them does is one of their moves. -/
theorem stepTask_move {s s' : State} {pick : UInt64} {t : Task} {out : List Out}
    (h : stepTask s pick t = some (s', out)) : TaskMove s t s' out := by
  cases t with
  | loadAddress =>
      cases h
      obtain ⟨l, heq, hl⟩ := processNeedsAddress_frame
        { s with needsAddress := loadQueue s.db s.needsAddress 0 }
      rw [heq]
      exact .loadAddress hl
  | loadInvoice =>
      cases h
      obtain ⟨l, q, heq, hl⟩ := processNeedsInvoice_frame
        { s with needsInvoice := loadQueue s.db s.needsInvoice 1 }
      rw [heq]
      exact .loadInvoice hl
  | checkPayments => cases h; exact .checkPayments
  | startAddress =>
      cases h
      obtain ⟨l, heq, hl⟩ := processNeedsAddress_frame s
      rw [heq]
      exact .startAddress hl
  | startInvoice =>
      cases h
      obtain ⟨l, q, heq, hl⟩ := processNeedsInvoice_frame s
      rw [heq]
      exact .startInvoice hl
  | paySuccess hash amount =>
      have := onPaySuccess_move s hash amount
      rwa [show onPaySuccess s hash amount = (s', out) from Option.some.inj h] at this
  | payFailed hash =>
      have := onPayFailed_move s hash
      rwa [show onPayFailed s hash = (s', out) from Option.some.inj h] at this
  | reduce uuid =>
      obtain ⟨r, hr, hs⟩ := Option.map_eq_some_iff.mp h
      obtain ⟨ha, rfl⟩ | ⟨row, amount, hrow, rfl⟩ := swapReduceOrFail_cases hr
      · cases hs; exact .failed ha
      · cases hs; exact .requeued hrow
  | fundsLoop =>
      have := loopOnchainFunds_move s
      rwa [show loopOnchainFunds s = (s', out) from Option.some.inj h] at this
  | onchainSeen hash amount name =>
      have := onOnchainFundsSeen_move s hash amount name
      rwa [show onOnchainFundsSeen s hash amount name = (s', out) from Option.some.inj h] at this
  | block height => cases h; exact .block height

/-- The swap a greenthread is about to reduce or fail. -/
def Task.reduces : Task → Option Uuid
  | .reduce uuid => some uuid
  | _            => none

/-- Only one kind of task reduces. -/
theorem Task.eq_reduce {t : Task} {uuid : Uuid} (h : t.reduces = some uuid) : t = .reduce uuid := by
  cases t with
  | reduce u =>
      cases h
      rfl
  | _ => simp [Task.reduces] at h

/-- The hash whose onchain arrival a greenthread is about to process. -/
def Task.arrives : Task → Option Hash
  | .onchainSeen h _ _ => some h
  | _                  => none

/-- A greenthread that will neither. -/
def Task.Fresh (t : Task) : Prop := t.reduces = none ∧ t.arrives = none

/-- Every step. -/
inductive Move (s : State) : Event → State → List Out → Prop
  | told {e : Event} {funds : List (String × Amount)} {ts : List Task}
      (ht : ∀ t ∈ ts, t.Fresh) :
      Move s e { s with onchainFunds := funds, tasks := s.tasks ++ ts } []
  | newaddr {address : String} (hl : s.addressLoop = .asked) :
      Move s (.responseNewaddr address) { s with addressLoop := .loading address } []
  | quoted {e : Event} {q : List Quotation} (hl : s.invoiceLoop = .collecting) :
      Move s e { s with quotations := q } []
  | refused {q : List Quotation} (hl : s.invoiceLoop = .accepting) :
      Move s (.swapCreation none) { s with quotations := q, invoiceLoop := .choosing } []
  | agreed {c : Creation} {name : String} (hl : s.invoiceLoop = .accepting) :
      Move s (.swapCreation (some c)) { s with invoiceLoop := .creating c name } []
  | requested {uuid : Uuid} {minAmount maxAmount : Amount} (hn : s.db.swaps.get uuid = none) :
      Move s (.swapRequest uuid minAmount maxAmount)
        { s with
          db := { s.db with
            swaps := s.db.swaps.insert
              ⟨uuid, maxAmount.toMsat, minAmount.toMsat, .needsOnchainAddress, none⟩ hn }
          needsAddress := s.needsAddress ++ [uuid]
          tasks := s.tasks ++ [.startAddress] } []
  | address {s' : State} {out : List Out} (m : AddressMove s s' out) : Move s .address s' out
  | invoice {d : Draws} {s' : State} {out : List Out} (m : InvoiceMove s s' out) :
      Move s (.invoice d) s' out
  | task {n : Nat} {pick : UInt64} {t : Task} {s' : State} {out : List Out}
      (ht : s.tasks[n]? = some t) (m : TaskMove { s with tasks := s.tasks.eraseIdx n } t s' out) :
      Move s (.task n pick) s' out
  | restart : Move s .restart (boot s.db) []

theorem Move.spawn (s : State) (e : Event) (t : Task) (ht : t.Fresh) :
    Move s e (s.spawn t) [] :=
  .told (fun _ ht' => List.mem_singleton.mp ht' ▸ ht)

/-- A step that changes nothing. -/
theorem Move.refl (s : State) (e : Event) : Move s e s [] := by
  have : Move s e { s with tasks := s.tasks ++ [] } [] := .told (fun t ht => nomatch ht)
  rwa [List.append_nil] at this

/-- A listing queues its outputs, up to the first that is malformed. -/
theorem onListfundsResult_move (s : State) (e : Event)
    (outputs : List (Option (String × Amount))) : Move s e (onListfundsResult s outputs) [] := by
  unfold onListfundsResult
  simp only
  split
  · exact .told (fun t ht => List.mem_singleton.mp ht ▸ ⟨rfl, rfl⟩)
  · have : Move s e { s with
        onchainFunds := s.onchainFunds ++ (outputs.takeWhile Option.isSome).filterMap id
        tasks := s.tasks ++ [] } [] := .told (fun t ht => nomatch ht)
    rwa [List.append_nil] at this

/-- An answer of the service is taken while it is awaited. -/
theorem onSwapCreation_move {s s' : State} {creation : Option Creation} {out : List Out}
    (h : onSwapCreation s creation = some (s', out)) : Move s (.swapCreation creation) s' out := by
  unfold onSwapCreation at h
  split at h
  · rename_i q hl _
    cases creation with
    | none => cases h; exact .refused hl
    | some c => cases h; exact .agreed hl
  · exact nomatch h

/-- The step function makes exactly these moves. -/
theorem step_move {s s' : State} {e : Event} {out : List Out}
    (h : step s e = some (s', out)) : Move s e s' out := by
  cases e with
  | timer10Minutes => cases h; exact .spawn s _ _ ⟨rfl, rfl⟩
  | responseNewaddr a =>
      obtain ⟨s₁, h₁, heq⟩ := Option.map_eq_some_iff.mp h
      cases heq
      unfold onResponseNewaddr at h₁
      split at h₁
      · cases h₁; exact .newaddr (by assumption)
      · exact nomatch h₁
  | provideSwapQuotation fee provider name =>
      obtain ⟨s₁, h₁, heq⟩ := Option.map_eq_some_iff.mp h
      cases heq
      unfold onProvideSwapQuotation at h₁
      split at h₁
      · cases h₁; exact .quoted (by assumption)
      · exact nomatch h₁
  | swapCreation creation => exact onSwapCreation_move h
  | responseListpays hash status amount =>
      cases h
      cases status with
      | nonexistent => exact .refl s _
      | pending => exact .refl s _
      | success => exact .spawn s _ _ ⟨rfl, rfl⟩
      | failed => exact .spawn s _ _ ⟨rfl, rfl⟩
  | listfundsResult outputs => cases h; exact onListfundsResult_move s _ outputs
  | swapRequest uuid minAmount maxAmount =>
      cases h
      unfold onSwapRequest
      split
      · exact .requested (by assumption)
      · exact .refl s _
  | block height => cases h; exact .spawn s _ _ ⟨rfl, rfl⟩
  | address => exact .address (stepAddress_move h)
  | invoice draws => exact .invoice (stepInvoice_move h)
  | task n pick =>
      obtain ⟨t, ht, hs⟩ := Option.bind_eq_some_iff.mp h
      exact .task ht (stepTask_move hs)
  | restart => cases h; exact .restart

end SwapManager
