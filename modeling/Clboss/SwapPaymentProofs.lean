import Clboss.SwapViewProofs

/-! # `Boss::Mod::SwapManager` — never paying twice

    Along a run without overlaps the view of every swap stays `Ok`, so whenever
    an invoice is paid no other of the swap is out (`pays_once`).  WITH an overlap
    the swap is negotiated twice, and both invoices are paid. -/

namespace SwapManager

open Bitcoin Ln UniqueTable

/-! ## Runs -/

/-- Every invoice of `uuid` was paid while none of it was out. -/
def PaidOnce (uuid : Uuid) (tr : List Out) : Prop :=
  ∀ l₁ h i l₂, tr = l₁ ++ .payInvoice uuid h i :: l₂ → unpaid uuid l₁ = none

/-- The one transaction that pays: the front of the queue gets its hash. -/
theorem step_pays {s s' : State} {e : Event} {out : List Out} {uuid : Uuid} {h : Hash}
    {i : String} (hs : step s e = some (s', out)) (hp : .payInvoice uuid h i ∈ out) :
    out = [.payInvoice uuid h i] ∧ 0 < (s.invoiceLoop.hand s.needsInvoice).count uuid
      ∧ ∃ row t, s.db.swaps.get uuid = some row
        ∧ s'.db.swaps.get uuid = some (row.await h t) := by
  cases step_move hs with
  | told ht => exact nomatch hp
  | newaddr hl => exact nomatch hp
  | quoted hl => exact nomatch hp
  | refused hl => exact nomatch hp
  | agreed hl => exact nomatch hp
  | requested hn => exact nomatch hp
  | address m =>
      cases m with
      | cached hl hq ha => exact nomatch hp
      | asked hl hq => exact nomatch List.mem_singleton.mp hp
      | loaded hl hq => exact nomatch hp
      | started hl hi => exact nomatch hp
      | resumed hl ha => exact nomatch hp
  | invoice m =>
      cases m with
      | solicited hl hq => exact nomatch List.mem_singleton.mp hp
      | exhausted hl hq => exact nomatch hp
      | accepted hl => exact nomatch List.mem_singleton.mp hp
      | orphaned hl hq hr => exact nomatch hp
      | @created c name k rest row hl hq hr =>
          cases List.mem_singleton.mp hp
          refine ⟨rfl, ?_, row, c.timeout, hr, ?_⟩
          · rw [hl, hq]
            exact List.count_pos_iff.mpr (List.mem_cons_self ..)
          · show (s.db.swaps.update uuid (Swap.await c.hash c.timeout)
              (Swap.await_uuid c.hash c.timeout)).get uuid = _
            rw [Table.get_update_self, hr]
            rfl
      | paid hl hi => exact nomatch hp
      | failed hl ha => exact nomatch List.mem_singleton.mp hp
      | requeued hl hr => exact nomatch hp
      | next hl hi => exact nomatch hp
  | task ht m =>
      cases m with
      | checkPayments =>
          obtain ⟨h', _, heq⟩ := List.mem_map.mp hp
          exact nomatch heq
      | paidSecond hc =>
          rcases List.mem_pair.mp hp with heq | heq
          · exact nomatch heq
          · exact nomatch heq
      | paidFirst hc => exact nomatch List.mem_singleton.mp hp
      | payFailed hr hh => exact nomatch List.mem_singleton.mp hp
      | failed ha => exact nomatch List.mem_singleton.mp hp
      | fundsFound hr hh ha => exact nomatch List.mem_singleton.mp hp
      | seenSecond hc =>
          rcases List.mem_pair.mp hp with heq | heq
          · exact nomatch heq
          · exact nomatch heq
      | seenFirst hc => exact nomatch List.mem_singleton.mp hp
      | block height =>
          obtain ⟨q, _, heq⟩ := List.mem_map.mp hp
          exact nomatch heq
      | _ => exact nomatch hp
  | restart => exact nomatch hp

/-- In the invariant, the paying transaction finds a row that needs an invoice,
    and none of its invoices out. -/
theorem step_pays_ok {s s' : State} {e : Event} {tr out : List Out} {uuid : Uuid} {h : Hash}
    {i : String} (hs : step s e = some (s', out)) (hp : .payInvoice uuid h i ∈ out)
    (ok : (view uuid tr s).Ok) :
    unpaid uuid tr = none ∧ ∃ row row' t, s.db.swaps.get uuid = some row
      ∧ row.state = .needsInvoice ∧ s'.db.swaps.get uuid = some row'
      ∧ row'.state = .awaitingResult h t := by
  obtain ⟨-, hpos, row, t, hr, hr'⟩ := step_pays hs hp
  have hrow : (view uuid tr s).row = some row.state := congrArg (Option.map Swap.state) hr
  obtain ⟨hst, hu⟩ := ok.paid hpos (by rw [hrow]; exact Option.some_ne_none _)
  exact ⟨hu, row, row.await h t, t, hr, Option.some.inj (hrow.symm.trans hst), hr', rfl⟩

theorem PaidOnce.step {s s' : State} {e : Event} {tr out : List Out} {uuid : Uuid}
    (hp : PaidOnce uuid tr) (hs : step s e = some (s', out)) (ok : (view uuid tr s).Ok) :
    PaidOnce uuid (tr ++ out) := by
  intro l₁ h i l₂ heq
  rcases List.append_eq_append_iff.mp heq with ⟨l, rfl, hout⟩ | ⟨l, rfl, hcons⟩
  · -- the payment is among the new outputs, and is the only one
    have hmem : Out.payInvoice uuid h i ∈ out := by
      rw [hout]
      exact List.mem_append_right _ (List.mem_cons_self ..)
    have hone := (step_pays hs hmem).1
    rw [hone] at hout
    have hl : l = [] := by
      cases l with
      | nil => rfl
      | cons x xs =>
          have := congrArg List.length hout
          simp at this
    rw [hl, List.append_nil]
    exact (step_pays_ok hs hmem ok).1
  · cases l with
    | nil =>
        rw [List.nil_append] at hcons
        have hmem : Out.payInvoice uuid h i ∈ out := by
          rw [← hcons]
          exact List.mem_cons_self ..
        have := (step_pays_ok hs hmem ok).1
        rwa [List.append_nil] at this
    | cons x xs =>
        rw [List.cons_append, List.cons.injEq] at hcons
        obtain ⟨rfl, -⟩ := hcons
        exact hp l₁ h i xs rfl

/-- Between a payment and the next there is a notice of the first. -/
theorem notice_between {uuid : Uuid} {h : Hash} (l pre : List Out)
    (hpre : unpaid uuid pre = some h)
    (hpaid : ∀ a h' i b, l = a ++ .payInvoice uuid h' i :: b → unpaid uuid (pre ++ a) = none)
    (hpost : unpaid uuid (pre ++ l) = none) :
    .payFailure uuid h ∈ l ∨ .timedOut uuid h ∈ l := by
  induction l generalizing pre with
  | nil =>
      rw [List.append_nil, hpre] at hpost
      exact nomatch hpost
  | cons o os ih =>
      by_cases hkeep : unpaidAfter uuid (some h) o = some h
      · have hpre' : unpaid uuid (pre ++ [o]) = some h := by
          rw [unpaid_snoc, hpre, hkeep]
        have hsnoc : ∀ a, (pre ++ [o]) ++ a = pre ++ o :: a := by
          intro a
          rw [List.append_assoc, List.singleton_append]
        have hrest : .payFailure uuid h ∈ os ∨ .timedOut uuid h ∈ os := by
          refine ih (pre ++ [o]) hpre' ?_ ?_
          · intro a h' i b heq
            rw [hsnoc]
            exact hpaid (o :: a) h' i b (congrArg (o :: ·) heq)
          · rw [hsnoc]
            exact hpost
        rcases hrest with hm | hm
        · exact Or.inl (List.mem_cons_of_mem _ hm)
        · exact Or.inr (List.mem_cons_of_mem _ hm)
      · -- the output that changed it is a notice of this invoice
        cases o with
        | payInvoice k h' i =>
            by_cases hk : k = uuid
            · subst hk
              have := hpaid [] h' i os rfl
              rw [List.append_nil, hpre] at this
              exact nomatch this
            · exact absurd (if_neg hk) hkeep
        | payFailure k h' =>
            by_cases hc : k = uuid ∧ some h = some h'
            · obtain ⟨rfl, hh⟩ := hc
              rw [Option.some.inj hh]
              exact Or.inl (List.mem_cons_self ..)
            · exact absurd (if_neg hc) hkeep
        | timedOut k h' =>
            by_cases hc : k = uuid ∧ some h = some h'
            · obtain ⟨rfl, hh⟩ := hc
              rw [Option.some.inj hh]
              exact Or.inr (List.mem_cons_self ..)
            · exact absurd (if_neg hc) hkeep
        | _ => exact absurd rfl hkeep

/-- **RUN**: in a run without overlaps and with unique ids every swap is in the
    invariant, and nothing is known of a swap not requested. -/
theorem run_ok {es : List Event} {s : State} {tr : List Out}
    (hrun : run es = some (s, tr)) (hids : (es.filterMap Event.requestedId).Nodup)
    (hcond : Machine.Along step NoOverlap (boot Db.empty) es) (uuid : Uuid) :
    (view uuid tr s).Ok ∧ PaidOnce uuid tr := by
  have hinv : (es.filterMap Event.requestedId).count uuid ≤ 1 →
      (view uuid tr s).Ok ∧ PaidOnce uuid tr
        ∧ ((es.filterMap Event.requestedId).count uuid = 0 → Unknown (view uuid tr s)) := by
    refine Machine.run_invariant (P := NoOverlap)
      (I := fun es tr s => (es.filterMap Event.requestedId).count uuid ≤ 1 →
        (view uuid tr s).Ok ∧ PaidOnce uuid tr
          ∧ ((es.filterMap Event.requestedId).count uuid = 0 → Unknown (view uuid tr s)))
      ?_ ?_ hcond hrun
    · intro _
      refine ⟨⟨Nat.zero_le _, fun _ => rfl, fun _ _ _ => rfl, ?_, ?_⟩, ?_, fun _ => ⟨rfl, rfl, rfl⟩⟩
      · intro hpos
        exact absurd hpos (Nat.lt_irrefl 0)
      · intro h hu
        exact nomatch hu
      · intro l₁ h i l₂ heq
        have := congrArg List.length heq
        simp at this
    · intro es tr s e s' out hI hP hs hcount
      rw [Machine.count_filterMap_snoc] at hcount ⊢
      obtain ⟨ok, hpaid, hunk⟩ := hI (by omega)
      have hnew : e.requestedId = some uuid → Unknown (view uuid tr s) := by
        intro he
        rw [if_pos he] at hcount
        exact hunk (by omega)
      have hlife := step_life uuid tr hs hP hnew
      refine ⟨ok.step hlife, hpaid.step hs ok, fun h0 => ?_⟩
      have hno : ¬ e.requestedId = some uuid := by
        intro he
        rw [if_pos he] at h0
        omega
      exact (hunk (by omega)).step ok hno hlife
  obtain ⟨ok, hpaid, -⟩ := hinv (List.nodup_iff_count_le_one.mp hids uuid)
  exact ⟨ok, hpaid⟩

/-- **HEADLINE**: in every run with unique request ids in which no step picks
    up a swap whose reduction is still pending, `PayInvoice` is raised only by
    a transaction that moves the swap's row from `NeedsInvoice` to
    `AwaitingResult`, and between two `PayInvoice` of one swap a failure or
    timeout of the earlier invoice is processed. -/
theorem pays_once {es : List Event} {s : State} {tr : List Out}
    (hrun : run es = some (s, tr)) (hids : (es.filterMap Event.requestedId).Nodup)
    (hcond : Machine.Along step NoOverlap (boot Db.empty) es) :
    (∀ e s' out uuid h i, step s e = some (s', out) → .payInvoice uuid h i ∈ out →
        ∃ row row' t, s.db.swaps.get uuid = some row ∧ row.state = .needsInvoice
          ∧ s'.db.swaps.get uuid = some row' ∧ row'.state = .awaitingResult h t)
    ∧ (∀ uuid l₁ h₁ i₁ l₂ h₂ i₂ l₃,
        tr = l₁ ++ .payInvoice uuid h₁ i₁ :: (l₂ ++ .payInvoice uuid h₂ i₂ :: l₃) →
          .payFailure uuid h₁ ∈ l₂ ∨ .timedOut uuid h₁ ∈ l₂) := by
  refine ⟨?_, ?_⟩
  · intro e s' out uuid h i hs hp
    exact (step_pays_ok hs hp (run_ok hrun hids hcond uuid).1).2
  · intro uuid l₁ h₁ i₁ l₂ h₂ i₂ l₃ heq
    have hpaid := (run_ok hrun hids hcond uuid).2
    have hsnoc : ∀ a, (l₁ ++ [Out.payInvoice uuid h₁ i₁]) ++ a
        = l₁ ++ .payInvoice uuid h₁ i₁ :: a := by
      intro a
      rw [List.append_assoc, List.singleton_append]
    refine notice_between l₂ (l₁ ++ [.payInvoice uuid h₁ i₁]) ?_ ?_ ?_
    · rw [unpaid_snoc]
      exact if_pos rfl
    · intro a h' i b hl
      rw [hsnoc]
      refine hpaid _ h' i (b ++ .payInvoice uuid h₂ i₂ :: l₃) ?_
      rw [heq, hl]
      simp
    · rw [hsnoc]
      refine hpaid _ h₂ i₂ l₃ ?_
      rw [heq]
      simp

/-- A second payment hash. -/
def otherHash : Hash := ⟨List.replicate 32 8, rfl⟩

/-- A payment, or a notice that one failed. -/
def Out.isPayment : Out → Bool
  | .payInvoice _ _ _ => true
  | .payFailure _ _   => true
  | .timedOut _ _     => true
  | _                 => false

/-- The payment fails, so the swap is reduced, negotiated and paid again. -/
def sampleRepaidRun : List Event :=
  samplePaidRun ++
  [.responseListpays sampleHash .failed ⟨0⟩, .task 1 0, .task 1 2000, .task 1 0,
    .invoice ⟨[], [], 0⟩, .provideSwapQuotation ⟨10⟩ 1 "boltz",
    .invoice ⟨[5], [⟨5, 1, "boltz"⟩], 0⟩,
    .swapCreation (some ⟨"lnbc2", otherHash, 100⟩), .invoice ⟨[], [], 0⟩]

theorem pays_once_sampleRepaidRun :
    (run sampleRepaidRun).map (fun p => p.2.filter Out.isPayment)
      = some [.payInvoice ⟨1⟩ sampleHash "lnbc1", .payFailure ⟨1⟩ sampleHash,
          .payInvoice ⟨1⟩ otherHash "lnbc2"]
    ∧ ∀ s tr, run sampleRepaidRun = some (s, tr) →
      ∀ uuid l₁ h₁ i₁ l₂ h₂ i₂ l₃,
        tr = l₁ ++ .payInvoice uuid h₁ i₁ :: (l₂ ++ .payInvoice uuid h₂ i₂ :: l₃) →
          .payFailure uuid h₁ ∈ l₂ ∨ .timedOut uuid h₁ ∈ l₂ := by
  refine ⟨by decide, ?_⟩
  intro s tr h
  exact (pays_once h (by decide) (by decide)).2

/-- Nobody quotes for the swap, so it is popped to be reduced; before its
    reduction begins, `load_queue` finds the queue empty and its row unchanged. -/
def doublyPaidRun : List Event :=
  [.swapRequest ⟨1⟩ ⟨1000⟩ ⟨4000⟩, .task 1 0, .address, .responseNewaddr "bc1pa",
    .address, .address, .address, .invoice ⟨[], [], 0⟩, .invoice ⟨[], [], 0⟩,
    -- `on_periodic` comes in between
    .task 0 0, .task 0 0,
    -- the reduction queues the swap a second time
    .invoice ⟨[], [], 2000⟩, .invoice ⟨[], [], 0⟩,
    .invoice ⟨[], [], 0⟩, .provideSwapQuotation ⟨10⟩ 1 "boltz",
    .invoice ⟨[5], [⟨5, 1, "boltz"⟩], 0⟩,
    .swapCreation (some ⟨"lnbc1", sampleHash, 100⟩), .invoice ⟨[], [], 0⟩, .invoice ⟨[], [], 0⟩,
    .invoice ⟨[], [], 0⟩, .provideSwapQuotation ⟨10⟩ 1 "boltz",
    .invoice ⟨[5], [⟨5, 1, "boltz"⟩], 0⟩,
    .swapCreation (some ⟨"lnbc2", otherHash, 100⟩), .invoice ⟨[], [], 0⟩]

/-- It is paid twice, with nothing in between. -/
theorem paid_twice_doublyPaidRun :
    (doublyPaidRun.filterMap Event.requestedId).Nodup
    ∧ (run doublyPaidRun).map (fun p => p.2.filter Out.isPayment)
      = some [.payInvoice ⟨1⟩ sampleHash "lnbc1", .payInvoice ⟨1⟩ otherHash "lnbc2"] := by
  decide

end SwapManager
