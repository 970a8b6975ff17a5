import Clboss.SwapResponseProofs
import Clboss.SwapLifeProofs

/-! # `Boss::Mod::SwapManager` — every step is one in the life of each swap

    The `view` of a swap is read off the queues, the loops and the pooled
    greenthreads.  The code follows the protocol (`step_life`) in every step that
    does not pick up a swap whose reduction is still pending.  That condition,
    `NoOverlap`, is not met by itself: `load_queue` and the two notices of a
    failure look at the database alone, and the row of a swap about to be reduced
    still says `NeedsInvoice` or `AwaitingResult`. -/

namespace SwapManager

open Bitcoin Ln UniqueTable

/-! ## The view of a swap -/

/-- The entries in the hands of the invoice loop: the queue, without the entry
    already paid for and with the one popped to be reduced. -/
def InvoiceLoop.hand (q : List Uuid) : InvoiceLoop → List Uuid
  | .paying        => q.tail
  | .reducing uuid => uuid :: q
  | _              => q

/-- The effect of an output on the invoice that is out for `uuid`. -/
def unpaidAfter (uuid : Uuid) (u : Option Hash) : Out → Option Hash
  | .payInvoice k h _ => if k = uuid then some h else u
  | .payFailure k h   => if k = uuid ∧ u = some h then none else u
  | .timedOut k h     => if k = uuid ∧ u = some h then none else u
  | _                 => u

/-- The invoice of `uuid` that was paid without a processed failure or timeout
    of it since. -/
def unpaid (uuid : Uuid) (tr : List Out) : Option Hash := tr.foldl (unpaidAfter uuid) none

/-- The view of `uuid` in a state of the module. -/
def view (uuid : Uuid) (tr : List Out) (s : State) : View where
  row         := (s.db.swaps.get uuid).map Swap.state
  negotiating := (s.invoiceLoop.hand s.needsInvoice).count uuid
  noticed     := (s.tasks.filterMap Task.reduces).count uuid
  addressing  := s.needsAddress.count uuid
  unpaid      := unpaid uuid tr

/-- The reductions not yet done. -/
def pendingReductions (s : State) : List Uuid :=
  (match s.invoiceLoop with
    | .reducing uuid => [uuid]
    | _              => []) ++ s.tasks.filterMap Task.reduces

/-- The swaps a greenthread picks up for another round of negotiation: those it
    loads into an empty `needs_invoice`, and those whose failure or timeout it
    notices. -/
def pickedBy (s : State) : Task → List Uuid
  | .loadInvoice  => if s.needsInvoice = [] then loadQueue s.db [] 1 else []
  | .payFailed h  => (s.db.swaps.rows.filter (fun r => r.paymentHash = some h)).map Swap.uuid
  | .block height => (s.db.swaps.rows.filterMap (timedOutAt height)).map Prod.fst
  | _             => []

/-- The swaps a step picks up. -/
def pickedUp (s : State) : Event → List Uuid
  | .task n _ => (s.tasks[n]?).elim [] (pickedBy s)
  | _         => []

/-- No swap is picked up whose reduction is still pending. -/
def NoOverlap (s : State) (e : Event) : Prop := ∀ uuid ∈ pickedUp s e, uuid ∉ pendingReductions s

instance (s : State) (e : Event) : Decidable (NoOverlap s e) :=
  inferInstanceAs (Decidable (∀ uuid ∈ pickedUp s e, uuid ∉ pendingReductions s))

/-! ### Outputs -/

/-- An output that pays nothing and reports no failure. -/
def Out.Silent (o : Out) : Prop := ∀ uuid u, unpaidAfter uuid u o = u

theorem unpaid_silent {uuid : Uuid} {out : List Out} (hout : ∀ o ∈ out, o.Silent)
    (tr : List Out) : unpaid uuid (tr ++ out) = unpaid uuid tr := by
  unfold unpaid
  rw [List.foldl_append]
  generalize tr.foldl (unpaidAfter uuid) none = u
  induction out with
  | nil => rfl
  | cons o os ih =>
      rw [List.foldl_cons, hout o (List.mem_cons_self ..)]
      exact ih (fun o ho => hout o (List.mem_cons_of_mem _ ho))

theorem unpaid_append_nil (uuid : Uuid) (tr : List Out) :
    unpaid uuid (tr ++ []) = unpaid uuid tr := by
  rw [List.append_nil]

theorem unpaid_snoc (uuid : Uuid) (tr : List Out) (o : Out) :
    unpaid uuid (tr ++ [o]) = unpaidAfter uuid (unpaid uuid tr) o := by
  unfold unpaid
  rw [List.foldl_append]
  rfl

/-- Timeouts that say nothing of `uuid` leave its invoice out. -/
theorem unpaid_timedOut_other {uuid : Uuid} (l : List (Uuid × Hash)) (tr : List Out)
    (hl : uuid ∉ l.map Prod.fst) :
    unpaid uuid (tr ++ l.map (fun p => .timedOut p.1 p.2)) = unpaid uuid tr := by
  unfold unpaid
  rw [List.foldl_append]
  generalize tr.foldl (unpaidAfter uuid) none = u
  induction l with
  | nil => rfl
  | cons p ps ih =>
      rw [List.map_cons, List.mem_cons, not_or] at hl
      rw [List.map_cons, List.foldl_cons]
      have hp : unpaidAfter uuid u (.timedOut p.1 p.2) = u :=
        if_neg (fun hc => hl.1 hc.1.symm)
      rw [hp]
      exact ih hl.2

/-- A timeout never puts an invoice out. -/
theorem timedOut_keeps {uuid : Uuid} {h : Hash} (l : List (Uuid × Hash)) (u : Option Hash)
    (hu : (l.map (fun p => Out.timedOut p.1 p.2)).foldl (unpaidAfter uuid) u = some h) :
    u = some h := by
  induction l generalizing u with
  | nil => exact hu
  | cons p ps ih =>
      rw [List.map_cons, List.foldl_cons] at hu
      have hif : (if p.1 = uuid ∧ u = some p.2 then none else u) = some h := ih _ hu
      split at hif
      · exact nomatch hif
      · exact hif

/-- A timeout of the invoice that is out takes it back. -/
theorem unpaid_timedOut_self {uuid : Uuid} {h h' : Hash} (l : List (Uuid × Hash)) (tr : List Out)
    (hl : (uuid, h) ∈ l)
    (hout : unpaid uuid (tr ++ l.map (fun p => .timedOut p.1 p.2)) = some h') :
    unpaid uuid tr = some h' ∧ h' ≠ h := by
  unfold unpaid at hout ⊢
  rw [List.foldl_append] at hout
  refine ⟨timedOut_keeps l _ hout, ?_⟩
  rintro rfl
  revert hout
  generalize tr.foldl (unpaidAfter uuid) none = u
  intro hout
  induction l generalizing u with
  | nil => exact nomatch hl
  | cons p ps ih =>
      have hu := timedOut_keeps (p :: ps) u hout
      rw [List.map_cons, List.foldl_cons] at hout
      rcases List.mem_cons.mp hl with rfl | hmem
      · have hnone : unpaidAfter uuid u (.timedOut uuid h') = none := if_pos ⟨rfl, hu⟩
        rw [hnone] at hout
        exact nomatch timedOut_keeps ps none hout
      · exact ih hmem _ hout

/-! ### Queues -/

/-- The loop's own entry comes before those of the queue. -/
theorem count_hand_append_le (uuid : Uuid) (q q' : List Uuid) (l : InvoiceLoop) :
    (l.hand (q ++ q')).count uuid ≤ (l.hand q).count uuid + q'.count uuid := by
  have happ : (q ++ q').count uuid = q.count uuid + q'.count uuid := List.count_append
  cases l with
  | paying =>
      cases q with
      | nil =>
          refine Nat.le_trans ?_ (Nat.le_add_left _ _)
          exact (List.tail_sublist q').count_le uuid
      | cons x xs => exact Nat.le_of_eq List.count_append
  | reducing u =>
      show (u :: (q ++ q')).count uuid ≤ (u :: q).count uuid + _
      rw [List.count_cons, List.count_cons, happ]
      omega
  | idle => exact Nat.le_of_eq happ
  | soliciting => exact Nat.le_of_eq happ
  | collecting => exact Nat.le_of_eq happ
  | choosing => exact Nat.le_of_eq happ
  | accepting => exact Nat.le_of_eq happ
  | creating c n => exact Nat.le_of_eq happ
  | reduced => exact Nat.le_of_eq happ
  | dead => exact Nat.le_of_eq happ

/-- With an empty queue only the entry popped to be reduced is in hand. -/
theorem pendingReductions_eq (s : State) :
    pendingReductions s = s.invoiceLoop.hand [] ++ s.tasks.filterMap Task.reduces := by
  unfold pendingReductions
  congr 1
  cases s.invoiceLoop with
  | _ => rfl

theorem count_of_not_pending {s : State} {uuid : Uuid} (h : uuid ∉ pendingReductions s) :
    (s.invoiceLoop.hand []).count uuid = 0
      ∧ (s.tasks.filterMap Task.reduces).count uuid = 0 := by
  rw [pendingReductions_eq, List.mem_append, not_or] at h
  exact ⟨List.count_eq_zero_of_not_mem h.1, List.count_eq_zero_of_not_mem h.2⟩

/-- Starting the invoice loop moves no entry. -/
theorem hand_started {l l' : InvoiceLoop} {q : List Uuid} {p : Prop}
    (hl : l' = l ∨ l = .idle ∧ l' = .soliciting ∧ p) : l'.hand q = l.hand q := by
  rcases hl with rfl | ⟨rfl, rfl, _⟩
  · rfl
  · rfl

theorem hand_next {l : InvoiceLoop} {q : List Uuid} {p : Prop}
    (hl : l = .idle ∨ l = .soliciting ∧ p) : l.hand q = q := by
  rcases hl with rfl | ⟨rfl, _⟩
  · rfl
  · rfl

theorem count_singleton_of_ne {uuid k : Uuid} (hk : uuid ≠ k) : [k].count uuid = 0 :=
  List.count_eq_zero_of_not_mem (by simpa using hk)

theorem count_reduces_append (ts : List Task) (hts : ∀ t ∈ ts, t.reduces = none) (uuid : Uuid)
    (tasks : List Task) :
    ((tasks ++ ts).filterMap Task.reduces).count uuid
      = (tasks.filterMap Task.reduces).count uuid := by
  rw [List.filterMap_append, List.filterMap_eq_nil_iff.mpr hts, List.append_nil]

/-! ## The code follows the protocol -/

section Refinement

variable {asked : Prop}

/-- `load_address`, for the swap at the front and for all others. -/
theorem life_loadAddress {s : State} {k : Uuid} {rest : List Uuid} (a : String) (uuid : Uuid)
    (tr : List Out) (hq : s.needsAddress = k :: rest) :
    Life asked (view uuid tr s) (view uuid (tr ++ []) (loadAddress s k a)) := by
  have hneg := count_hand_append_le uuid s.needsInvoice [k] s.invoiceLoop
  have hadd : s.needsAddress.count uuid = s.needsAddress.tail.count uuid + [k].count uuid := by
    rw [hq, List.tail_cons, List.count_cons, List.count_singleton]
  rw [List.append_nil]
  by_cases hk : uuid = k
  · subst hk
    rw [List.count_singleton_self] at hneg hadd
    refine Life.located ?_ hneg rfl hadd.symm rfl
    intro hrow
    obtain ⟨r, hr, hst⟩ := Option.map_eq_some_iff.mp hrow
    show ((s.db.swaps.update uuid (Swap.giveAddress a) (Swap.giveAddress_uuid a)).get uuid).map
      Swap.state = _
    rw [Table.get_update_self, hr]
    simp [Swap.giveAddress, hst]
  · have hne := count_singleton_of_ne hk
    rw [hne, Nat.add_zero] at hneg hadd
    refine Life.fades ?_ hneg (Nat.le_refl _) (Nat.le_of_eq hadd.symm) rfl
    show ((s.db.swaps.update k (Swap.giveAddress a) (Swap.giveAddress_uuid a)).get uuid).map
      Swap.state = _
    rw [Table.get_update_ne _ _ _ _ hk]
    rfl

theorem AddressMove.life {s s' : State} {out : List Out} (uuid : Uuid) (tr : List Out)
    (m : AddressMove s s' out) : Life asked (view uuid tr s) (view uuid (tr ++ out) s') := by
  cases m with
  | cached hl hq ha =>
      exact life_loadAddress (s := { s with db := { s.db with
        addrcache := s.db.addrcache.eraseP (· ≠ "") } }) _ uuid tr hq
  | asked hl hq =>
      exact Life.fades rfl (Nat.le_refl _) (Nat.le_refl _) (Nat.le_refl _)
        (unpaid_silent (fun o ho => List.mem_singleton.mp ho ▸ fun _ _ => rfl) tr)
  | loaded hl hq => exact life_loadAddress _ uuid tr hq
  | @started b l q hl hi =>
      refine Life.fades rfl (Nat.le_of_eq ?_) (Nat.le_refl _) (Nat.le_refl _)
        (unpaid_append_nil uuid tr)
      show (l.hand s.needsInvoice).count uuid = _
      rw [hand_started hi]
      rfl
  | resumed hl ha =>
      exact Life.fades rfl (Nat.le_refl _) (Nat.le_refl _) (Nat.le_refl _)
        (unpaid_append_nil uuid tr)

/-- `fail_swap`: the swap itself, whose entry `hn` or `hm` says is used up, and
    all others. -/
theorem life_failSwap {s s' : State} {v : View} (k uuid : Uuid) (tr : List Out)
    (hrow : v.row = (view uuid tr s).row) (hu : v.unpaid = (view uuid tr s).unpaid)
    (hdb : s'.db = (failSwap s k).1.db) (hadd : s'.needsAddress.count uuid = v.addressing)
    (hn : (s'.invoiceLoop.hand s'.needsInvoice).count uuid ≤ v.negotiating)
    (hm : (s'.tasks.filterMap Task.reduces).count uuid ≤ v.noticed)
    (hpos : uuid = k → 0 < v.negotiating + v.noticed) :
    Life asked v (view uuid (tr ++ (failSwap s k).2) s') := by
  have hout : unpaid uuid (tr ++ (failSwap s k).2) = v.unpaid := by
    rw [hu]
    exact unpaid_silent (fun o ho => List.mem_singleton.mp ho ▸ fun _ _ => rfl) tr
  have hget : s'.db.swaps = s.db.swaps.delete k := by
    rw [hdb]
    rfl
  by_cases hk : uuid = k
  · refine Life.fails (hpos hk) ?_ hn hm hadd hout
    show (s'.db.swaps.get uuid).map Swap.state = none
    rw [hget, hk, Table.get_delete_self]
    rfl
  · refine Life.fades ?_ hn hm (Nat.le_of_eq hadd) hout
    show (s'.db.swaps.get uuid).map Swap.state = v.row
    rw [hget, Table.get_delete_ne _ hk, hrow]
    rfl

/-- A requeue, likewise: the entry used up comes back to the queue. -/
theorem life_requeue {s s' : State} {v : View} {row : Swap} (k uuid : Uuid) (amount : UInt64)
    (tr : List Out) (hrow : v.row = (view uuid tr s).row)
    (hu : v.unpaid = (view uuid tr s).unpaid) (hr : s.db.swaps.get k = some row)
    (hdb : s'.db = (requeue s k amount).db) (hadd : s'.needsAddress.count uuid = v.addressing)
    (hself : uuid = k → 0 < v.negotiating + v.noticed
      ∧ (s'.invoiceLoop.hand s'.needsInvoice).count uuid
          + (s'.tasks.filterMap Task.reduces).count uuid ≤ v.negotiating + v.noticed)
    (hother : uuid ≠ k → (s'.invoiceLoop.hand s'.needsInvoice).count uuid ≤ v.negotiating
      ∧ (s'.tasks.filterMap Task.reduces).count uuid ≤ v.noticed) :
    Life asked v (view uuid (tr ++ []) s') := by
  have hout : unpaid uuid (tr ++ []) = v.unpaid := by
    rw [hu]
    exact unpaid_append_nil uuid tr
  have hget : s'.db.swaps = s.db.swaps.update k (Swap.reduce amount) (Swap.reduce_uuid amount) := by
    rw [hdb]
    rfl
  by_cases hk : uuid = k
  · refine Life.requeues (hself hk).1 ?_ (hself hk).2 hadd hout
    show (s'.db.swaps.get uuid).map Swap.state = _
    rw [hget, hk, Table.get_update_self, hr]
    rfl
  · refine Life.fades ?_ (hother hk).1 (hother hk).2 (Nat.le_of_eq hadd) hout
    show (s'.db.swaps.get uuid).map Swap.state = v.row
    rw [hget, Table.get_update_ne _ _ _ _ hk, hrow]
    rfl

/-- Nothing happens to the swap, or entries of it disappear. -/
theorem life_fades {s s' : State} {out : List Out} (uuid : Uuid) (tr : List Out)
    (hdb : s'.db.swaps = s.db.swaps)
    (hn : (s'.invoiceLoop.hand s'.needsInvoice).count uuid
      ≤ (s.invoiceLoop.hand s.needsInvoice).count uuid)
    (hm : (s'.tasks.filterMap Task.reduces).count uuid
      ≤ (s.tasks.filterMap Task.reduces).count uuid)
    (ha : s'.needsAddress.count uuid ≤ s.needsAddress.count uuid)
    (hout : ∀ o ∈ out, o.Silent) : Life asked (view uuid tr s) (view uuid (tr ++ out) s') := by
  refine Life.fades ?_ hn hm ha (unpaid_silent hout tr)
  show (s'.db.swaps.get uuid).map Swap.state = (s.db.swaps.get uuid).map Swap.state
  rw [hdb]

/-- The invoice of the swap at the front is paid; all others are left alone. -/
theorem life_created {s : State} {c : Creation} {name : String} {k : Uuid} {rest : List Uuid}
    {row : Swap} (uuid : Uuid) (tr : List Out) (hl : s.invoiceLoop = .creating c name)
    (hq : s.needsInvoice = k :: rest) (hr : s.db.swaps.get k = some row) :
    Life asked (view uuid tr s) (view uuid (tr ++ [.payInvoice k c.hash c.invoice]) { s with
      db := { s.db with
        swaps := s.db.swaps.update k (Swap.await c.hash c.timeout)
          (Swap.await_uuid c.hash c.timeout)
        provider := s.db.provider.insertOrReplace ⟨k, name⟩ }
      invoiceLoop := .paying }) := by
  have hneg : (s.invoiceLoop.hand s.needsInvoice).count uuid
      = rest.count uuid + [k].count uuid := by
    rw [hl, hq]
    show (k :: rest).count uuid = _
    rw [List.count_cons, List.count_singleton]
  by_cases hk : uuid = k
  · subst hk
    rw [List.count_singleton_self] at hneg
    refine Life.paid (h := c.hash) (t := c.timeout) ?_ ?_ ?_ rfl rfl ?_
    · show (s.db.swaps.get uuid).map Swap.state ≠ none
      rw [hr]
      exact Option.some_ne_none _
    · show ((s.db.swaps.update uuid (Swap.await c.hash c.timeout)
        (Swap.await_uuid c.hash c.timeout)).get uuid).map _ = _
      rw [Table.get_update_self, hr]
      rfl
    · show s.needsInvoice.tail.count uuid + 1 = _
      rw [hq]
      exact hneg.symm
    · show unpaid uuid (tr ++ [_]) = _
      rw [unpaid_snoc]
      exact if_pos rfl
  · have hne := count_singleton_of_ne hk
    refine Life.fades ?_ ?_ (Nat.le_refl _) (Nat.le_refl _) ?_
    · show ((s.db.swaps.update k (Swap.await c.hash c.timeout)
        (Swap.await_uuid c.hash c.timeout)).get uuid).map _ = _
      rw [Table.get_update_ne _ _ _ _ hk]
      rfl
    · show s.needsInvoice.tail.count uuid ≤ (s.invoiceLoop.hand s.needsInvoice).count uuid
      rw [hneg, hq]
      exact Nat.le_add_right _ _
    · show unpaid uuid (tr ++ [_]) = _
      rw [unpaid_snoc]
      exact if_neg (fun hc => hk hc.symm)

theorem InvoiceMove.life {s s' : State} {out : List Out} (uuid : Uuid) (tr : List Out)
    (m : InvoiceMove s s' out) : Life asked (view uuid tr s) (view uuid (tr ++ out) s') := by
  cases m with
  | solicited hl hq =>
      refine life_fades uuid tr rfl (Nat.le_of_eq ?_) (Nat.le_refl _) (Nat.le_refl _)
        (fun o ho => List.mem_singleton.mp ho ▸ fun _ _ => rfl)
      rw [hl]
      rfl
  | @exhausted k rest q hl hq =>
      refine life_fades uuid tr rfl (Nat.le_of_eq ?_) (Nat.le_refl _) (Nat.le_refl _)
        (fun o ho => nomatch ho)
      show (k :: rest).count uuid = _
      rw [hq]
      rcases hl with hl | hl
      · rw [hl]; rfl
      · rw [hl]; rfl
  | accepted hl =>
      refine life_fades uuid tr rfl (Nat.le_of_eq ?_) (Nat.le_refl _) (Nat.le_refl _)
        (fun o ho => List.mem_singleton.mp ho ▸ fun _ _ => rfl)
      rcases hl with hl | hl
      · rw [hl]; rfl
      · rw [hl]; rfl
  | orphaned hl hq hr =>
      refine life_fades uuid tr rfl (Nat.le_of_eq ?_) (Nat.le_refl _) (Nat.le_refl _)
        (fun o ho => nomatch ho)
      rw [hl]
      rfl
  | created hl hq hr => exact life_created uuid tr hl hq hr
  | paid hl hi =>
      refine life_fades uuid tr rfl (Nat.le_of_eq ?_) (Nat.le_refl _) (Nat.le_refl _)
        (fun o ho => nomatch ho)
      simp only
      rw [hand_next hi, hl]
      rfl
  | @failed k hl ha =>
      have hneg : (s.invoiceLoop.hand s.needsInvoice).count uuid
          = s.needsInvoice.count uuid + [k].count uuid := by
        rw [hl]
        show (k :: s.needsInvoice).count uuid = _
        rw [List.count_cons, List.count_singleton]
      refine life_failSwap k uuid tr rfl rfl rfl rfl ?_ (Nat.le_refl _) ?_
      · show s.needsInvoice.count uuid ≤ (s.invoiceLoop.hand s.needsInvoice).count uuid
        omega
      · intro hk
        show 0 < (s.invoiceLoop.hand s.needsInvoice).count uuid + _
        rw [hneg, hk, List.count_singleton_self]
        omega
  | @requeued k row amount hl hr =>
      have hneg : (s.invoiceLoop.hand s.needsInvoice).count uuid
          = s.needsInvoice.count uuid + [k].count uuid := by
        rw [hl]
        show (k :: s.needsInvoice).count uuid = _
        rw [List.count_cons, List.count_singleton]
      have hnew : (s.needsInvoice ++ [k]).count uuid
          = (s.invoiceLoop.hand s.needsInvoice).count uuid := by
        rw [hneg]
        exact List.count_append
      refine life_requeue k uuid amount tr rfl rfl hr rfl rfl ?_ ?_
      · intro hk
        refine ⟨?_, Nat.le_of_eq (congrArg (· + _) hnew)⟩
        show 0 < (s.invoiceLoop.hand s.needsInvoice).count uuid + _
        rw [hneg, hk, List.count_singleton_self]
        omega
      · intro _
        exact ⟨Nat.le_of_eq hnew, Nat.le_refl _⟩
  | next hl hi =>
      refine life_fades uuid tr rfl (Nat.le_of_eq ?_) (Nat.le_refl _) (Nat.le_refl _)
        (fun o ho => nomatch ho)
      simp only
      rw [hand_next hi, hl]
      rfl

/-- The view with the greenthread `t` still in the pool. -/
def viewBefore (uuid : Uuid) (tr : List Out) (s : State) (t : Task) : View :=
  { view uuid tr s with noticed := (view uuid tr s).noticed + t.reduces.toList.count uuid }

/-- Resuming a greenthread that reduces nothing: entries may disappear. -/
theorem life_task {s s' : State} {t : Task} {out : List Out} (uuid : Uuid) (tr : List Out)
    (hdb : s'.db.swaps = s.db.swaps)
    (hn : (s'.invoiceLoop.hand s'.needsInvoice).count uuid
      ≤ (s.invoiceLoop.hand s.needsInvoice).count uuid)
    (hm : (s'.tasks.filterMap Task.reduces).count uuid
      ≤ (s.tasks.filterMap Task.reduces).count uuid)
    (ha : s'.needsAddress.count uuid ≤ s.needsAddress.count uuid)
    (hout : ∀ o ∈ out, o.Silent) : Life asked (viewBefore uuid tr s t) (view uuid (tr ++ out) s') := by
  refine Life.fades ?_ hn (Nat.le_add_right_of_le hm) ha (unpaid_silent hout tr)
  show (s'.db.swaps.get uuid).map Swap.state = (s.db.swaps.get uuid).map Swap.state
  rw [hdb]

theorem viewBefore_noticed {uuid : Uuid} {tr : List Out} {s : State} {t : Task}
    (ht : t.reduces = none) : viewBefore uuid tr s t = view uuid tr s := by
  unfold viewBefore
  rw [ht]
  rfl

/-- A swap of the given state has one entry in a queue loaded from the
    database, and any other swap none. -/
theorem count_loaded (db : Db) (column : Nat) (uuid : Uuid) :
    (loadQueue db [] column).count uuid ≤ 1
      ∧ (0 < (loadQueue db [] column).count uuid →
        ∃ r, db.swaps.get uuid = some r ∧ r.state.column = column) := by
  have hq : loadQueue db [] column
      = (db.swaps.rows.filter (fun r => r.state.column = column)).map Swap.uuid := if_pos rfl
  rw [hq]
  refine ⟨?_, ?_⟩
  · exact List.nodup_iff_count_le_one.mp
      (db.swaps.nodup.sublist (List.filter_sublist.map Swap.uuid)) uuid
  · intro hpos
    obtain ⟨r, hr, rfl⟩ := List.mem_map.mp (List.count_pos_iff.mp hpos)
    obtain ⟨hmem, hcol⟩ := List.mem_filter.mp hr
    exact ⟨r, Table.get_of_mem hmem, of_decide_eq_true hcol⟩

theorem loadQueue_of_ne {db : Db} {q : List Uuid} {column : Nat} (hq : q ≠ []) :
    loadQueue db q column = q := if_neg hq

/-- `load_queue` for `needs_address`. -/
theorem life_loadAddresses {s s' : State} {t : Task} (uuid : Uuid) (tr : List Out)
    (ht : t.reduces = none) (hdb : s'.db.swaps = s.db.swaps)
    (hn : (s'.invoiceLoop.hand s'.needsInvoice).count uuid
      = (s.invoiceLoop.hand s.needsInvoice).count uuid)
    (hm : (s'.tasks.filterMap Task.reduces).count uuid
      = (s.tasks.filterMap Task.reduces).count uuid)
    (ha : s'.needsAddress = loadQueue s.db s.needsAddress 0) :
    Life asked (viewBefore uuid tr s t) (view uuid (tr ++ []) s') := by
  rw [viewBefore_noticed ht]
  by_cases hq : s.needsAddress = []
  · rw [hq] at ha
    obtain ⟨hone, hrow⟩ := count_loaded s.db 0 uuid
    rw [← ha] at hone hrow
    by_cases hpos : 0 < s'.needsAddress.count uuid
    · obtain ⟨r, hr, hcol⟩ := hrow hpos
      refine Life.addressed ?_ ?_ hn hm hone (unpaid_append_nil uuid tr)
      · show (s.db.swaps.get uuid).map Swap.state = _
        rw [hr, Option.map_some]
        cases hst : r.state with
        | needsOnchainAddress => rfl
        | needsInvoice => rw [hst] at hcol; exact nomatch hcol
        | awaitingResult h t => rw [hst] at hcol; exact nomatch hcol
      · show (s'.db.swaps.get uuid).map Swap.state = (s.db.swaps.get uuid).map Swap.state
        rw [hdb]
    · exact life_fades uuid tr hdb (Nat.le_of_eq hn) (Nat.le_of_eq hm) (by omega)
        (fun o ho => nomatch ho)
  · rw [loadQueue_of_ne hq] at ha
    refine life_fades uuid tr hdb (Nat.le_of_eq hn) (Nat.le_of_eq hm) ?_ (fun o ho => nomatch ho)
    rw [ha]

/-- `load_queue` for `needs_invoice`: a swap it queues must have no reduction
    pending. -/
theorem life_loadInvoices {s s' : State} {t : Task} {l : InvoiceLoop} (uuid : Uuid)
    (tr : List Out) (ht : t.reduces = none) (hdb : s'.db.swaps = s.db.swaps)
    (hl : s'.invoiceLoop = l) (hl' : ∀ q, l.hand q = s.invoiceLoop.hand q)
    (hq' : s'.needsInvoice = loadQueue s.db s.needsInvoice 1)
    (hm : (s'.tasks.filterMap Task.reduces).count uuid
      = (s.tasks.filterMap Task.reduces).count uuid)
    (ha : s'.needsAddress = s.needsAddress)
    (hcond : ∀ k ∈ (if s.needsInvoice = [] then loadQueue s.db [] 1 else []),
      k ∉ pendingReductions s) :
    Life asked (viewBefore uuid tr s t) (view uuid (tr ++ []) s') := by
  rw [viewBefore_noticed ht]
  have hrow : (s'.db.swaps.get uuid).map Swap.state = (s.db.swaps.get uuid).map Swap.state := by
    rw [hdb]
  have hhand : s'.invoiceLoop.hand s'.needsInvoice
      = s.invoiceLoop.hand (loadQueue s.db s.needsInvoice 1) := by
    rw [hl, hl', hq']
  by_cases hq : s.needsInvoice = []
  · rw [hq] at hhand
    rw [if_pos hq] at hcond
    have hle := count_hand_append_le uuid [] (loadQueue s.db [] 1) s.invoiceLoop
    rw [List.nil_append] at hle
    by_cases hpos : 0 < (loadQueue s.db [] 1).count uuid
    · -- it is queued, so nothing of it was in hand and no reduction pending
      obtain ⟨hone, hr⟩ := count_loaded s.db 1 uuid
      obtain ⟨r, hr, hcol⟩ := hr hpos
      obtain ⟨hh0, hm0⟩ := count_of_not_pending (hcond uuid (List.count_pos_iff.mp hpos))
      refine Life.queued ?_ ?_ hrow ?_ hm (congrArg (List.count uuid) ha)
        (unpaid_append_nil uuid tr)
      · show (s.db.swaps.get uuid).map Swap.state = _
        rw [hr, Option.map_some]
        cases hst : r.state with
        | needsOnchainAddress => rw [hst] at hcol; exact nomatch hcol
        | needsInvoice => rfl
        | awaitingResult h t => rw [hst] at hcol; exact nomatch hcol
      · show (s.invoiceLoop.hand s.needsInvoice).count uuid + _ = 0
        rw [hq, hh0]
        exact (Nat.zero_add _).trans hm0
      · show (s'.invoiceLoop.hand s'.needsInvoice).count uuid ≤ 1
        rw [hhand]
        omega
    · refine life_fades uuid tr hdb ?_ (Nat.le_of_eq hm) (Nat.le_of_eq (congrArg _ ha))
        (fun o ho => nomatch ho)
      rw [hhand, hq]
      omega
  · rw [loadQueue_of_ne hq] at hhand
    refine life_fades uuid tr hdb ?_ (Nat.le_of_eq hm) (Nat.le_of_eq (congrArg _ ha))
      (fun o ho => nomatch ho)
    rw [hhand]

theorem state_of_paymentHash {r : Swap} {h : Hash} (hh : r.paymentHash = some h) :
    ∃ timeout, r.state = .awaitingResult h timeout := by
  unfold Swap.paymentHash at hh
  cases hs : r.state with
  | needsOnchainAddress => rw [hs] at hh; exact nomatch hh
  | needsInvoice => rw [hs] at hh; exact nomatch hh
  | awaitingResult h' timeout =>
      rw [hs] at hh
      cases hh
      exact ⟨timeout, rfl⟩

/-- A failure or timeout of `uuid` is noticed; no reduction of it may be pending. -/
theorem life_notices {s s' : State} {t : Task} {r : Swap} {h : Hash} {out : List Out}
    (uuid : Uuid) (tr : List Out) (ht : t.reduces = none) (hdb : s'.db.swaps = s.db.swaps)
    (hr : s.db.swaps.get uuid = some r) (hh : r.paymentHash = some h)
    (hn : s'.invoiceLoop.hand s'.needsInvoice = s.invoiceLoop.hand s.needsInvoice)
    (h0 : (s.tasks.filterMap Task.reduces).count uuid = 0)
    (hm : (s'.tasks.filterMap Task.reduces).count uuid = 1)
    (ha : s'.needsAddress = s.needsAddress)
    (hu : ∀ h', unpaid uuid (tr ++ out) = some h' → unpaid uuid tr = some h' ∧ h' ≠ h) :
    Life asked (viewBefore uuid tr s t) (view uuid (tr ++ out) s') := by
  rw [viewBefore_noticed ht]
  obtain ⟨timeout, hst⟩ := state_of_paymentHash hh
  refine Life.notices (h := h) (t := timeout) ?_ h0 ?_
    (congrArg (List.count uuid) hn) hm (congrArg (List.count uuid) ha) hu
  · show (s.db.swaps.get uuid).map Swap.state = _
    rw [hr, Option.map_some, hst]
  · show (s'.db.swaps.get uuid).map Swap.state = (s.db.swaps.get uuid).map Swap.state
    rw [hdb]

theorem count_reduce_snoc (uuid k : Uuid) (tasks : List Task) :
    ((tasks ++ [Task.reduce k]).filterMap Task.reduces).count uuid
      = (tasks.filterMap Task.reduces).count uuid + [k].count uuid := by
  rw [List.filterMap_append, List.count_append]
  rfl

/-- The swaps that time out are distinct. -/
theorem nodup_timedOut (t : Table Swap.uuid) (height : UInt32) :
    ((t.rows.filterMap (timedOutAt height)).map Prod.fst).Nodup := by
  refine t.nodup.sublist ?_
  generalize t.rows = rows
  induction rows with
  | nil => exact List.Sublist.refl _
  | cons r rs ih =>
      cases hr : timedOutAt height r with
      | none =>
          rw [List.filterMap_cons_none hr]
          exact ih.cons _
      | some p =>
          rw [List.filterMap_cons_some hr, List.map_cons, List.map_cons, (timedOutAt_eq hr).1]
          exact ih.cons_cons _

theorem count_reduce_append (uuid : Uuid) (tasks : List Task) (l : List (Uuid × Hash)) :
    ((tasks ++ l.map (fun p => Task.reduce p.1)).filterMap Task.reduces).count uuid
      = (tasks.filterMap Task.reduces).count uuid + (l.map Prod.fst).count uuid := by
  rw [List.filterMap_append, List.count_append, List.filterMap_map]
  congr 2
  exact congrFun (List.filterMap_eq_map (f := Prod.fst)) l

/-- `on_block`, for the swaps that time out and for all others. -/
theorem life_block {s : State} (height : UInt32) (uuid : Uuid) (tr : List Out)
    (hcond : ∀ k ∈ pickedBy s (.block height), k ∉ pendingReductions s) :
    Life asked (viewBefore uuid tr s (.block height))
      (view uuid
        (tr ++ (s.db.swaps.rows.filterMap (timedOutAt height)).map (fun p => .timedOut p.1 p.2))
        { s with tasks := s.tasks
          ++ (s.db.swaps.rows.filterMap (timedOutAt height)).map (fun p => .reduce p.1) }) := by
  have hcount := count_reduce_append uuid s.tasks (s.db.swaps.rows.filterMap (timedOutAt height))
  by_cases hmem : uuid ∈ (s.db.swaps.rows.filterMap (timedOutAt height)).map Prod.fst
  · obtain ⟨⟨k, h⟩, hp, hk⟩ := List.mem_map.mp hmem
    have hk' : k = uuid := hk
    subst hk'
    obtain ⟨r, hr, hto⟩ := List.mem_filterMap.mp hp
    obtain ⟨hu, hh⟩ := timedOutAt_eq hto
    have h0 := (count_of_not_pending (hcond k hmem)).2
    have hone := List.count_eq_one_of_mem (nodup_timedOut s.db.swaps height) hmem
    rw [h0, hone] at hcount
    refine life_notices k tr rfl rfl ?_ hh rfl h0 hcount rfl ?_
    · rw [← show r.uuid = k from hu]
      exact Table.get_of_mem hr
    · intro h' hout
      exact unpaid_timedOut_self _ tr hp hout
  · rw [List.count_eq_zero_of_not_mem hmem, Nat.add_zero] at hcount
    rw [viewBefore_noticed rfl]
    exact Life.fades rfl (Nat.le_refl _) (Nat.le_of_eq hcount) (Nat.le_refl _)
      (unpaid_timedOut_other _ tr hmem)

/-- `on_response_listpays` finds the row of a failed payment. -/
theorem life_payFailed {s : State} {h : Hash} {row : Swap} (uuid : Uuid) (tr : List Out)
    (hr : row ∈ s.db.swaps.rows) (hh : row.paymentHash = some h)
    (hcond : ∀ k ∈ pickedBy s (.payFailed h), k ∉ pendingReductions s) :
    Life asked (viewBefore uuid tr s (.payFailed h)) (view uuid (tr ++ [.payFailure row.uuid h])
      { s with tasks := s.tasks ++ [.reduce row.uuid] }) := by
  have hmem : row.uuid ∈ pickedBy s (.payFailed h) :=
    List.mem_map_of_mem (List.mem_filter.mpr ⟨hr, decide_eq_true hh⟩)
  have hcount := count_reduce_snoc uuid row.uuid s.tasks
  by_cases hk : uuid = row.uuid
  · subst hk
    have h0 := (count_of_not_pending (hcond _ hmem)).2
    rw [h0, List.count_singleton_self] at hcount
    refine life_notices row.uuid tr rfl rfl (Table.get_of_mem hr) hh rfl h0 hcount rfl ?_
    intro h' hout
    rw [unpaid_snoc] at hout
    have hif : (if row.uuid = row.uuid ∧ unpaid row.uuid tr = some h then none
        else unpaid row.uuid tr) = some h' := hout
    split at hif
    · exact nomatch hif
    · rename_i hne
      exact ⟨hif, fun heq => hne ⟨rfl, heq ▸ hif⟩⟩
  · have hne := count_singleton_of_ne hk
    rw [hne, Nat.add_zero] at hcount
    rw [viewBefore_noticed rfl]
    refine Life.fades rfl (Nat.le_refl _) (Nat.le_of_eq hcount) (Nat.le_refl _) ?_
    show unpaid uuid (tr ++ [_]) = _
    rw [unpaid_snoc]
    exact if_neg (fun hc => hk hc.1.symm)

/-- `swap_reduce_or_fail` of a noticed failure: the notice becomes an entry. -/
theorem life_noticeRequeued {s : State} {k : Uuid} {row : Swap} {amount : UInt64} (uuid : Uuid)
    (tr : List Out) (hr : s.db.swaps.get k = some row) :
    Life asked (viewBefore uuid tr s (.reduce k)) (view uuid (tr ++ [])
      { requeue s k amount with tasks := s.tasks ++ [.startInvoice] }) := by
  have hneg := count_hand_append_le uuid s.needsInvoice [k] s.invoiceLoop
  have htasks := count_reduces_append [.startInvoice]
    (fun t ht => List.mem_singleton.mp ht ▸ rfl) uuid s.tasks
  refine life_requeue k uuid amount tr rfl rfl hr rfl rfl ?_ ?_
  · intro hk
    subst hk
    rw [List.count_singleton_self] at hneg
    have hself : (Task.reduce uuid).reduces.toList.count uuid = 1 :=
      List.count_singleton_self
    have hbefore : (viewBefore uuid tr s (.reduce uuid)).noticed
        = (s.tasks.filterMap Task.reduces).count uuid + 1 := congrArg (_ + ·) hself
    have hbefore' : (viewBefore uuid tr s (.reduce uuid)).negotiating
        = (s.invoiceLoop.hand s.needsInvoice).count uuid := rfl
    rw [hbefore, hbefore']
    refine ⟨by omega, ?_⟩
    show (s.invoiceLoop.hand (s.needsInvoice ++ [uuid])).count uuid
      + ((s.tasks ++ [Task.startInvoice]).filterMap Task.reduces).count uuid ≤ _
    omega
  · intro hk
    have hne := count_singleton_of_ne hk
    rw [hne, Nat.add_zero] at hneg
    exact ⟨hneg, Nat.le_add_right_of_le (Nat.le_of_eq htasks)⟩

/-- The funds of a swap have arrived: its row goes. -/
theorem life_fundsFound {s : State} {fund : String × Amount} {rest : List (String × Amount)}
    {row : Swap} {h : Hash} {name : String} (uuid : Uuid) (tr : List Out)
    (hr : row ∈ s.db.swaps.rows) (hh : row.paymentHash = some h) :
    Life asked (viewBefore uuid tr s .fundsLoop)
      (view uuid (tr ++ [.swapResponse row.uuid true fund.2]) { s with
        db := s.db.deleteSwap row.uuid
        onchainFunds := rest
        tasks := s.tasks ++ [.onchainSeen h fund.2 name, .fundsLoop] }) := by
  have htasks := count_reduces_append [.onchainSeen h fund.2 name, .fundsLoop]
    (fun t ht => by rcases List.mem_pair.mp ht with rfl | rfl <;> rfl) uuid s.tasks
  have hout : unpaid uuid (tr ++ [.swapResponse row.uuid true fund.2]) = unpaid uuid tr :=
    unpaid_silent (fun o ho => List.mem_singleton.mp ho ▸ fun _ _ => rfl) tr
  rw [viewBefore_noticed rfl]
  by_cases hk : uuid = row.uuid
  · subst hk
    obtain ⟨timeout, hst⟩ := state_of_paymentHash hh
    refine Life.arrives (h := h) (t := timeout) ?_ ?_ rfl htasks rfl hout
    · show (s.db.swaps.get row.uuid).map Swap.state = _
      rw [Table.get_of_mem hr, Option.map_some, hst]
    · show ((s.db.swaps.delete row.uuid).get row.uuid).map Swap.state = none
      rw [Table.get_delete_self]
      rfl
  · refine Life.fades ?_ (Nat.le_refl _) (Nat.le_of_eq htasks) (Nat.le_refl _) hout
    show ((s.db.swaps.delete row.uuid).get uuid).map Swap.state = _
    rw [Table.get_delete_ne _ hk]
    rfl

/-- The view with `t` taken from the pool. -/
theorem view_eq_viewBefore {s : State} {n : Nat} {t : Task} (uuid : Uuid) (tr : List Out)
    (ht : s.tasks[n]? = some t) :
    view uuid tr s = viewBefore uuid tr { s with tasks := s.tasks.eraseIdx n } t := by
  have hpool := ((Machine.pool_perm ht).filterMap Task.reduces).count_eq uuid
  unfold viewBefore view
  simp only [View.mk.injEq, true_and, and_true]
  rw [hpool]
  cases hr : t.reduces with
  | none =>
      rw [List.filterMap_cons_none hr]
      rfl
  | some k =>
      rw [List.filterMap_cons_some hr, List.count_cons]
      simp [List.count_singleton]

theorem TaskMove.life {s s' : State} {t : Task} {out : List Out} (uuid : Uuid) (tr : List Out)
    (m : TaskMove s t s' out) (hcond : ∀ k ∈ pickedBy s t, k ∉ pendingReductions s) :
    Life asked (viewBefore uuid tr s t) (view uuid (tr ++ out) s') := by
  cases m with
  | loadAddress hl =>
      refine life_loadAddresses uuid tr rfl rfl rfl ?_ rfl
      exact count_reduces_append _ (fun t ht => List.mem_singleton.mp ht ▸ rfl) uuid s.tasks
  | loadInvoice hl =>
      refine life_loadInvoices uuid tr rfl rfl rfl (fun q => hand_started hl) rfl ?_ rfl hcond
      exact count_reduces_append _ (fun t ht => List.mem_singleton.mp ht ▸ rfl) uuid s.tasks
  | checkPayments =>
      refine life_task uuid tr rfl (Nat.le_refl _) (Nat.le_refl _) (Nat.le_refl _) (fun o ho => ?_)
      obtain ⟨h, _, rfl⟩ := List.mem_map.mp ho
      exact fun _ _ => rfl
  | startAddress hl =>
      exact life_task uuid tr rfl (Nat.le_refl _) (Nat.le_refl _) (Nat.le_refl _)
        (fun o ho => nomatch ho)
  | startInvoice hl =>
      refine life_task uuid tr rfl (Nat.le_of_eq ?_) (Nat.le_refl _) (Nat.le_refl _)
        (fun o ho => nomatch ho)
      simp only
      rw [hand_started hl]
  | paidSecond hc =>
      refine life_task uuid tr rfl (Nat.le_refl _) (Nat.le_refl _) (Nat.le_refl _) (fun o ho => ?_)
      rcases List.mem_pair.mp ho with rfl | rfl
      · exact fun _ _ => rfl
      · exact fun _ _ => rfl
  | paidFirst hc =>
      exact life_task uuid tr rfl (Nat.le_refl _) (Nat.le_refl _) (Nat.le_refl _)
        (fun o ho => List.mem_singleton.mp ho ▸ fun _ _ => rfl)
  | payUnknown =>
      exact life_task uuid tr rfl (Nat.le_refl _) (Nat.le_refl _) (Nat.le_refl _)
        (fun o ho => nomatch ho)
  | payFailed hr hh => exact life_payFailed uuid tr hr hh hcond
  | @failed k ha =>
      refine life_failSwap k uuid tr rfl rfl rfl rfl (Nat.le_refl _) (Nat.le_add_right _ _) ?_
      intro hk
      have hself : (Task.reduce k).reduces.toList.count uuid = 1 := by
        rw [hk]
        exact List.count_singleton_self
      show 0 < _ + (_ + (Task.reduce k).reduces.toList.count uuid)
      rw [hself]
      omega
  | requeued hr => exact life_noticeRequeued uuid tr hr
  | fundsIgnored ht =>
      refine life_task uuid tr rfl (Nat.le_refl _) (Nat.le_of_eq ?_) (Nat.le_refl _)
        (fun o ho => nomatch ho)
      exact count_reduces_append _ (fun t hmem => List.mem_singleton.mp (ht hmem) ▸ rfl) uuid s.tasks
  | fundsFound hr hh ha => exact life_fundsFound uuid tr hr hh
  | seenSecond hc =>
      refine life_task uuid tr rfl (Nat.le_refl _) (Nat.le_refl _) (Nat.le_refl _) (fun o ho => ?_)
      rcases List.mem_pair.mp ho with rfl | rfl
      · exact fun _ _ => rfl
      · exact fun _ _ => rfl
  | seenFirst hc =>
      exact life_task uuid tr rfl (Nat.le_refl _) (Nat.le_refl _) (Nat.le_refl _)
        (fun o ho => List.mem_singleton.mp ho ▸ fun _ _ => rfl)
  | block height => exact life_block height uuid tr hcond

/-- A request makes the row of its swap and touches no other. -/
theorem life_requested {s : State} {k : Uuid} {minAmount maxAmount : Amount} (uuid : Uuid)
    (tr : List Out) (hn : s.db.swaps.get k = none) (hask : uuid = k → asked)
    (hnew : uuid = k → Unknown (view uuid tr s)) :
    Life asked (view uuid tr s) (view uuid (tr ++ []) { s with
      db := { s.db with
        swaps := s.db.swaps.insert
          ⟨k, maxAmount.toMsat, minAmount.toMsat, .needsOnchainAddress, none⟩ hn }
      needsAddress := s.needsAddress ++ [k]
      tasks := s.tasks ++ [.startAddress] }) := by
  have htasks := count_reduces_append [.startAddress]
    (fun t ht => List.mem_singleton.mp ht ▸ rfl) uuid s.tasks
  have hadd : (s.needsAddress ++ [k]).count uuid
      = s.needsAddress.count uuid + [k].count uuid := List.count_append
  by_cases hk : uuid = k
  · subst hk
    obtain ⟨hrow, h0, hu⟩ := hnew rfl
    rw [List.count_singleton_self] at hadd
    refine Life.requested (hask rfl) hrow h0 hu ?_ rfl htasks hadd (unpaid_append_nil uuid tr)
    show ((s.db.swaps.insert ⟨uuid, maxAmount.toMsat, minAmount.toMsat,
      .needsOnchainAddress, none⟩ hn).get uuid).map Swap.state = _
    have hself := Table.get_insert_self s.db.swaps
      ⟨uuid, maxAmount.toMsat, minAmount.toMsat, .needsOnchainAddress, none⟩ hn
    simp only at hself
    rw [hself]
    rfl
  · have hne := count_singleton_of_ne hk
    rw [hne, Nat.add_zero] at hadd
    refine Life.fades ?_ (Nat.le_refl _) (Nat.le_of_eq htasks) (Nat.le_of_eq hadd)
      (unpaid_append_nil uuid tr)
    show ((s.db.swaps.insert ⟨k, maxAmount.toMsat, minAmount.toMsat,
      .needsOnchainAddress, none⟩ hn).get uuid).map Swap.state = _
    rw [Table.get_insert_ne _ _ _ hk]
    rfl

end Refinement

/-- **REFINEMENT**: every step of the code that picks up no swap with a pending
    reduction is, for each swap, a step of the protocol. -/
theorem step_life {s s' : State} {e : Event} {out : List Out} (uuid : Uuid) (tr : List Out)
    (hs : step s e = some (s', out)) (hcond : NoOverlap s e)
    (hnew : e.requestedId = some uuid → Unknown (view uuid tr s)) :
    Life (e.requestedId = some uuid) (view uuid tr s) (view uuid (tr ++ out) s') := by
  cases step_move hs with
  | told ht =>
      refine life_fades uuid tr rfl (Nat.le_refl _) (Nat.le_of_eq ?_) (Nat.le_refl _)
        (fun o ho => nomatch ho)
      exact count_reduces_append _ (fun t hmem => (ht t hmem).1) uuid s.tasks
  | newaddr hl =>
      exact life_fades uuid tr rfl (Nat.le_refl _) (Nat.le_refl _) (Nat.le_refl _)
        (fun o ho => nomatch ho)
  | quoted hl =>
      exact life_fades uuid tr rfl (Nat.le_refl _) (Nat.le_refl _) (Nat.le_refl _)
        (fun o ho => nomatch ho)
  | refused hl =>
      refine life_fades uuid tr rfl (Nat.le_of_eq ?_) (Nat.le_refl _) (Nat.le_refl _)
        (fun o ho => nomatch ho)
      rw [hl]
      rfl
  | agreed hl =>
      refine life_fades uuid tr rfl (Nat.le_of_eq ?_) (Nat.le_refl _) (Nat.le_refl _)
        (fun o ho => nomatch ho)
      rw [hl]
      rfl
  | requested hn =>
      refine life_requested uuid tr hn ?_ ?_
      · rintro rfl
        rfl
      · rintro rfl
        exact hnew rfl
  | address m => exact m.life uuid tr
  | invoice m => exact m.life uuid tr
  | @task n pick t _ _ ht m =>
      rw [view_eq_viewBefore uuid tr ht]
      refine m.life uuid tr (fun k hk hmem => ?_)
      have hpick : pickedUp s (.task n pick) = pickedBy s t := by
        show (s.tasks[n]?).elim [] (pickedBy s) = pickedBy s t
        rw [ht]
        rfl
      have hk' : k ∈ pickedBy s t := by
        cases t with
        | _ => exact hk
      refine hcond k (hpick ▸ hk') ?_
      -- what is pending without `t` is pending with it
      rw [pendingReductions_eq] at hmem ⊢
      refine List.mem_append.mpr ((List.mem_append.mp hmem).imp_right (fun h => ?_))
      exact ((List.eraseIdx_sublist ..).filterMap Task.reduces).subset h
  | restart =>
      exact life_fades uuid tr rfl (Nat.zero_le _) (Nat.zero_le _) (Nat.zero_le _)
        (fun o ho => nomatch ho)

end SwapManager
