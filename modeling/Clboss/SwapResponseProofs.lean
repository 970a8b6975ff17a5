import Clboss.SwapCompletionProofs

/-! # `Boss::Mod::SwapManager` — one response per request

    Four paths end a swap.  Each raises `SwapResponse` and deletes the row in
    one transaction, and all but one of them first find the row.  The exception
    is `swap_reduce_or_fail`: without a row both amounts it compares stay 0,
    which reads as "cannot go lower", and the swap is failed AGAIN.

    `responses_iff` says that this is the only way to respond twice: a run
    responds at most once to every swap EXACTLY when each of its calls of
    `swap_reduce_or_fail` finds its row. -/

namespace SwapManager

open Bitcoin Ln UniqueTable

/-- The swap a message responds to. -/
def Out.respondsTo : Out → Option Uuid
  | .swapResponse uuid _ _ => some uuid
  | _                      => none

/-- How often `uuid` was responded to. -/
def responses (uuid : Uuid) (tr : List Out) : Nat := tr.countP (fun o => o.respondsTo = some uuid)

/-- The id of a request. -/
def Event.requestedId : Event → Option Uuid
  | .swapRequest uuid _ _ => some uuid
  | _                     => none

/-- The swap whose `swap_reduce_or_fail` transaction the event runs. -/
def reduction (s : State) : Event → Option Uuid
  | .invoice _ =>
      match s.invoiceLoop with
      | .reducing uuid => some uuid
      | _              => none
  | .task n _ => (s.tasks[n]?).bind Task.reduces
  | _ => none

/-- Whatever is reduced or failed has a row. -/
def ReducesLive (s : State) (e : Event) : Prop :=
  ∀ uuid, reduction s e = some uuid → s.db.swaps.get uuid ≠ none

/-! ## Responses are bounded by requests -/

/-- 1 while the swap has a row. -/
def live (uuid : Uuid) (db : Db) : Nat := if db.swaps.get uuid = none then 0 else 1

theorem live_update {db db' : Db} (uuid : Uuid) {k : Uuid} {f : Swap → Swap}
    (hf : ∀ r, (f r).uuid = r.uuid) (h : db'.swaps = db.swaps.update k f hf) :
    live uuid db' = live uuid db := by
  unfold live
  rw [h]
  by_cases hk : uuid = k
  · subst hk
    simp only [Table.get_update_self, Option.map_eq_none_iff]
  · rw [Table.get_update_ne _ _ _ _ hk]

/-- A response whose row is deleted with it. -/
theorem live_delete {db db' : Db} (uuid : Uuid) {k : Uuid} {success : Bool} {amount : Amount}
    (h : db'.swaps = db.swaps.delete k) (hk : db.swaps.get k ≠ none) :
    live uuid db' + responses uuid [.swapResponse k success amount] = live uuid db := by
  unfold live responses
  rw [h]
  by_cases heq : uuid = k
  · subst heq
    rw [Table.get_delete_self, if_pos rfl, if_neg hk]
    simp [Out.respondsTo]
  · rw [Table.get_delete_ne _ heq]
    simp [Out.respondsTo, Ne.symm heq]

theorem AddressMove.live_eq {s s' : State} {out : List Out} (uuid : Uuid)
    (m : AddressMove s s' out) : live uuid s'.db + responses uuid out = live uuid s.db := by
  cases m with
  | cached hl hq ha => exact live_update uuid (Swap.giveAddress_uuid _) rfl
  | asked hl hq => rfl
  | loaded hl hq => exact live_update uuid (Swap.giveAddress_uuid _) rfl
  | started hl hi => rfl
  | resumed hl ha => rfl

/-- `fail_swap` without a row: it responds all the same. -/
def FailsAgain (s s' : State) (out : List Out) (uuid : Uuid) : Prop :=
  s.db.swaps.get uuid = none ∧ s'.db.swaps = s.db.swaps.delete uuid
    ∧ out = [.swapResponse uuid false ⟨0⟩]

theorem failSwap_live (s : State) {s' : State} (k : Uuid)
    (hdb : s'.db = (failSwap s k).1.db) :
    (∀ uuid, live uuid s'.db + responses uuid (failSwap s k).2 = live uuid s.db)
      ∨ FailsAgain s s' (failSwap s k).2 k := by
  by_cases hk : s.db.swaps.get k = none
  · refine Or.inr ⟨hk, ?_, rfl⟩
    rw [hdb]
    rfl
  · refine Or.inl (fun uuid => live_delete uuid ?_ hk)
    rw [hdb]
    rfl

theorem InvoiceMove.live_or {s s' : State} {out : List Out} (m : InvoiceMove s s' out) :
    (∀ uuid, live uuid s'.db + responses uuid out = live uuid s.db)
      ∨ ∃ k, s.invoiceLoop = .reducing k ∧ FailsAgain s s' out k := by
  cases m with
  | solicited hl hq => exact Or.inl (fun _ => rfl)
  | exhausted hl hq => exact Or.inl (fun _ => rfl)
  | accepted hl => exact Or.inl (fun _ => rfl)
  | orphaned hl hq hr => exact Or.inl (fun _ => rfl)
  | created hl hq hr =>
      exact Or.inl (fun uuid => live_update uuid (Swap.await_uuid _ _) rfl)
  | paid hl hi => exact Or.inl (fun _ => rfl)
  | failed hl ha => exact (failSwap_live s _ rfl).imp_right (fun h => ⟨_, hl, h⟩)
  | requeued hl hr =>
      exact Or.inl (fun uuid => live_update uuid (Swap.reduce_uuid _) rfl)
  | next hl hi => exact Or.inl (fun _ => rfl)

theorem responses_map_eq_zero {α : Type} (uuid : Uuid) (f : α → Out) (l : List α)
    (hf : ∀ a, (f a).respondsTo = none) : responses uuid (l.map f) = 0 := by
  refine List.countP_eq_zero.mpr ?_
  intro o ho
  obtain ⟨a, _, rfl⟩ := List.mem_map.mp ho
  rw [hf a]
  simp

theorem TaskMove.live_or {s s' : State} {t : Task} {out : List Out} (m : TaskMove s t s' out) :
    (∀ uuid, live uuid s'.db + responses uuid out = live uuid s.db)
      ∨ ∃ k, t.reduces = some k ∧ FailsAgain s s' out k := by
  cases m with
  | loadAddress hl => exact Or.inl (fun _ => rfl)
  | loadInvoice hl => exact Or.inl (fun _ => rfl)
  | checkPayments =>
      refine Or.inl (fun uuid => ?_)
      rw [responses_map_eq_zero uuid _ _ (fun _ => rfl)]
      rfl
  | startAddress hl => exact Or.inl (fun _ => rfl)
  | startInvoice hl => exact Or.inl (fun _ => rfl)
  | paidSecond hc => exact Or.inl (fun _ => rfl)
  | paidFirst hc => exact Or.inl (fun _ => rfl)
  | payUnknown => exact Or.inl (fun _ => rfl)
  | payFailed hr hh => exact Or.inl (fun _ => rfl)
  | failed ha => exact (failSwap_live s _ rfl).imp_right (fun h => ⟨_, rfl, h⟩)
  | requeued hr =>
      exact Or.inl (fun uuid => live_update uuid (Swap.reduce_uuid _) rfl)
  | fundsIgnored ht => exact Or.inl (fun _ => rfl)
  | fundsFound hr hh ha =>
      refine Or.inl (fun uuid => live_delete uuid rfl ?_)
      rw [Table.get_of_mem hr]
      exact Option.some_ne_none _
  | seenSecond hc => exact Or.inl (fun _ => rfl)
  | seenFirst hc => exact Or.inl (fun _ => rfl)
  | block height =>
      refine Or.inl (fun uuid => ?_)
      rw [responses_map_eq_zero uuid _ _ (fun _ => rfl)]
      rfl

theorem live_requested {s : State} (uuid k : Uuid) (minAmount maxAmount : Amount)
    (hn : s.db.swaps.get k = none) :
    live uuid { s.db with
        swaps := s.db.swaps.insert
          ⟨k, maxAmount.toMsat, minAmount.toMsat, .needsOnchainAddress, none⟩ hn }
      = live uuid s.db
        + (if (Event.swapRequest k minAmount maxAmount).requestedId = some uuid then 1 else 0) := by
  unfold live
  by_cases hk : k = uuid
  · subst hk
    have hself := Table.get_insert_self s.db.swaps
      ⟨k, maxAmount.toMsat, minAmount.toMsat, .needsOnchainAddress, none⟩ hn
    simp only at hself
    simp only [hself, hn, Event.requestedId, reduceCtorEq, if_true, if_false]
  · have hne := Table.get_insert_ne s.db.swaps
      ⟨k, maxAmount.toMsat, minAmount.toMsat, .needsOnchainAddress, none⟩ hn (Ne.symm hk)
    simp only [hne, Event.requestedId, Option.some.injEq, hk, if_false, Nat.add_zero]

/-- **STEP**: a response uses up the row and only a request makes one, unless
    the step fails a swap without a row. -/
theorem step_live {s s' : State} {e : Event} {out : List Out} (hs : step s e = some (s', out)) :
    (∀ uuid, live uuid s.db ≤ live uuid s'.db + responses uuid out
        ∧ live uuid s'.db + responses uuid out
          ≤ live uuid s.db + (if e.requestedId = some uuid then 1 else 0))
      ∨ ∃ k, reduction s e = some k ∧ FailsAgain s s' out k := by
  have heq : (∀ uuid, live uuid s'.db + responses uuid out = live uuid s.db) →
      ∀ uuid, live uuid s.db ≤ live uuid s'.db + responses uuid out
        ∧ live uuid s'.db + responses uuid out
          ≤ live uuid s.db + (if e.requestedId = some uuid then 1 else 0) := by
    intro h uuid
    rw [h uuid]
    exact ⟨Nat.le_refl _, Nat.le_add_right _ _⟩
  cases step_move hs with
  | told ht => exact Or.inl (heq (fun _ => rfl))
  | newaddr hl => exact Or.inl (heq (fun _ => rfl))
  | quoted hl => exact Or.inl (heq (fun _ => rfl))
  | refused hl => exact Or.inl (heq (fun _ => rfl))
  | agreed hl => exact Or.inl (heq (fun _ => rfl))
  | @requested k minAmount maxAmount hn =>
      refine Or.inl (fun uuid => ?_)
      have hlive := live_requested uuid k minAmount maxAmount hn
      show live uuid s.db ≤ live uuid _ + 0 ∧ live uuid _ + 0 ≤ _
      rw [hlive]
      exact ⟨Nat.le_add_right _ _, Nat.le_refl _⟩
  | address m => exact Or.inl (heq (fun uuid => m.live_eq uuid))
  | invoice m =>
      rcases m.live_or with h | ⟨k, hl, hfail⟩
      · exact Or.inl (heq h)
      · refine Or.inr ⟨k, ?_, hfail⟩
        unfold reduction
        simp only [hl]
  | @task n pick t _ _ ht m =>
      rcases m.live_or with h | ⟨k, hl, hfail⟩
      · exact Or.inl (heq h)
      · refine Or.inr ⟨k, ?_, hfail⟩
        show (s.tasks[n]?).bind Task.reduces = some k
        rw [ht]
        exact hl
  | restart => exact Or.inl (heq (fun _ => rfl))

/-- **RUN**: a run that only reduces live swaps responds at most as often as it
    was asked. -/
theorem run_responses_le {es : List Event} {s : State} {tr : List Out} (uuid : Uuid)
    (hlive : Machine.Along step ReducesLive (boot Db.empty) es)
    (hrun : run es = some (s, tr)) :
    live uuid s.db + responses uuid tr ≤ (es.filterMap Event.requestedId).count uuid := by
  refine Machine.run_invariant (P := ReducesLive)
    (I := fun es tr s =>
      live uuid s.db + responses uuid tr ≤ (es.filterMap Event.requestedId).count uuid)
    (Nat.le_refl _) ?_ hlive hrun
  intro es tr s e s' out hI hP hs
  have hstep : live uuid s'.db + responses uuid out
      ≤ live uuid s.db + (if e.requestedId = some uuid then 1 else 0) := by
    rcases step_live hs with h | ⟨k, hk, hfail⟩
    · exact (h uuid).2
    · exact absurd hfail.1 (hP k hk)
  have happ : responses uuid (tr ++ out) = responses uuid tr + responses uuid out :=
    List.countP_append
  rw [happ, Machine.count_filterMap_snoc]
  omega

/-! ## A reduction without a row responds again -/

/-- The swaps on the module's mind: queued, or about to be reduced or failed. -/
def onMind (s : State) (uuid : Uuid) : Prop :=
  uuid ∈ s.needsAddress ∨ uuid ∈ s.needsInvoice ∨ s.invoiceLoop = .reducing uuid
    ∨ ∃ t ∈ s.tasks, t.reduces = some uuid

/-- Each of them has a row, or was responded to. -/
def Remembered (tr : List Out) (s : State) : Prop :=
  ∀ uuid, onMind s uuid → s.db.swaps.get uuid ≠ none ∨ 0 < responses uuid tr

/-- The queued swaps come from rows. -/
theorem mem_loadQueue {db : Db} {q : List Uuid} {column : Nat} {uuid : Uuid}
    (h : uuid ∈ loadQueue db q column) : uuid ∈ q ∨ db.swaps.get uuid ≠ none := by
  unfold loadQueue at h
  split at h
  · obtain ⟨r, hr, rfl⟩ := List.mem_map.mp h
    refine Or.inr ?_
    rw [Table.get_of_mem (List.mem_filter.mp hr).1]
    exact Option.some_ne_none _
  · exact Or.inl h

/-- A queue that is its old self, or has grown by a swap on the module's mind. -/
theorem onMind_of {s s' : State} {uuid : Uuid} {p : Prop} (h : onMind s' uuid)
    (ha : uuid ∈ s'.needsAddress → onMind s uuid ∨ p)
    (hi : uuid ∈ s'.needsInvoice → onMind s uuid ∨ p)
    (hl : s'.invoiceLoop = .reducing uuid → onMind s uuid ∨ p)
    (ht : ∀ t ∈ s'.tasks, t.reduces = some uuid → onMind s uuid ∨ p) : onMind s uuid ∨ p := by
  rcases h with h | h | h | ⟨t, hmem, hr⟩
  · exact ha h
  · exact hi h
  · exact hl h
  · exact ht t hmem hr

section Mind

variable {s s' : State} {uuid : Uuid} {p : Prop}

theorem onMind_needsAddress (s : State) (h : uuid ∈ s.needsAddress) : onMind s uuid ∨ p := Or.inl (Or.inl h)

theorem onMind_needsInvoice (s : State) (h : uuid ∈ s.needsInvoice) : onMind s uuid ∨ p :=
  Or.inl (Or.inr (Or.inl h))

theorem onMind_reducing (s : State) (h : s.invoiceLoop = .reducing uuid) : onMind s uuid ∨ p :=
  Or.inl (Or.inr (Or.inr (Or.inl h)))

theorem onMind_task (s : State) (t : Task) (ht : t ∈ s.tasks) (h : t.reduces = some uuid) :
    onMind s uuid ∨ p :=
  Or.inl (Or.inr (Or.inr (Or.inr ⟨t, ht, h⟩)))

/-- New greenthreads that reduce nothing. -/
theorem onMind_task_append (s : State) {ts : List Task} (hts : ∀ t ∈ ts, t.reduces = none) (t : Task)
    (ht : t ∈ s.tasks ++ ts) (h : t.reduces = some uuid) : onMind s uuid ∨ p := by
  rcases List.mem_append.mp ht with hl | hr
  · exact onMind_task s t hl h
  · rw [hts t hr] at h
    exact nomatch h

/-- Greenthreads that reduce swaps with a row. -/
theorem onMind_task_rows (s : State) {ts : List Task}
    (hts : ∀ t ∈ ts, ∀ u, t.reduces = some u → s.db.swaps.get u ≠ none) (t : Task)
    (ht : t ∈ s.tasks ++ ts) (h : t.reduces = some uuid) :
    onMind s uuid ∨ s.db.swaps.get uuid ≠ none := by
  rcases List.mem_append.mp ht with hl | hr
  · exact onMind_task s t hl h
  · exact Or.inr (hts t hr uuid h)

/-- The invoice loop was at most started. -/
theorem onMind_started (s : State) {l : InvoiceLoop} {q : Prop}
    (hl : l = s.invoiceLoop ∨ s.invoiceLoop = .idle ∧ l = .soliciting ∧ q)
    (h : l = .reducing uuid) : onMind s uuid ∨ p := by
  rcases hl with rfl | ⟨_, rfl, _⟩
  · exact onMind_reducing s h
  · exact nomatch h

theorem onMind_next (s : State) {l : InvoiceLoop} {q : Prop} (hl : l = .idle ∨ l = .soliciting ∧ q)
    (h : l = .reducing uuid) : onMind s uuid ∨ p := by
  rcases hl with rfl | ⟨rfl, _⟩
  · exact nomatch h
  · exact nomatch h

theorem onMind_loadAddress {a : String} {k : Uuid} {rest : List Uuid}
    (hq : s.needsAddress = k :: rest) (h : onMind (loadAddress s k a) uuid) :
    onMind s uuid ∨ p := by
  refine onMind_of h ?_ ?_ (onMind_reducing s) (onMind_task s)
  · intro hmem
    exact onMind_needsAddress s (List.mem_of_mem_tail hmem)
  · intro hmem
    rcases List.mem_append.mp hmem with hl | hr
    · exact onMind_needsInvoice s hl
    · refine onMind_needsAddress s ?_
      rw [hq, List.mem_singleton.mp hr]
      exact List.mem_cons_self ..

end Mind

theorem AddressMove.onMind {s s' : State} {out : List Out} {uuid : Uuid} {p : Prop}
    (m : AddressMove s s' out) (h : onMind s' uuid) : SwapManager.onMind s uuid ∨ p := by
  cases m with
  | cached hl hq ha =>
      exact onMind_loadAddress (s := { s with db := { s.db with
        addrcache := s.db.addrcache.eraseP (· ≠ "") } }) hq h
  | asked hl hq => exact Or.inl h
  | loaded hl hq => exact onMind_loadAddress hq h
  | started hl hi =>
      exact onMind_of h (onMind_needsAddress s) (onMind_needsInvoice s) (onMind_started s hi) (onMind_task s)
  | resumed hl ha => exact Or.inl h

theorem InvoiceMove.onMind {s s' : State} {out : List Out} {uuid : Uuid} {p : Prop}
    (m : InvoiceMove s s' out) (h : onMind s' uuid) : SwapManager.onMind s uuid ∨ p := by
  cases m with
  | solicited hl hq =>
      exact onMind_of h (onMind_needsAddress s) (onMind_needsInvoice s) (fun hc => nomatch hc) (onMind_task s)
  | exhausted hl hq =>
      refine onMind_of h (onMind_needsAddress s) ?_ ?_ (onMind_task s)
      · intro hmem
        refine onMind_needsInvoice s ?_
        rw [hq]
        exact List.mem_cons_of_mem _ hmem
      · intro hc
        refine onMind_needsInvoice s ?_
        rw [hq, InvoiceLoop.reducing.inj hc]
        exact List.mem_cons_self ..
  | accepted hl =>
      exact onMind_of h (onMind_needsAddress s) (onMind_needsInvoice s) (fun hc => nomatch hc) (onMind_task s)
  | orphaned hl hq hr =>
      exact onMind_of h (onMind_needsAddress s) (onMind_needsInvoice s) (fun hc => nomatch hc) (onMind_task s)
  | created hl hq hr =>
      exact onMind_of h (onMind_needsAddress s) (onMind_needsInvoice s) (fun hc => nomatch hc) (onMind_task s)
  | paid hl hi =>
      refine onMind_of h (onMind_needsAddress s) ?_ (onMind_next s hi) (onMind_task s)
      intro hmem
      exact onMind_needsInvoice s (List.mem_of_mem_tail hmem)
  | failed hl ha =>
      exact onMind_of h (onMind_needsAddress s) (onMind_needsInvoice s) (fun hc => nomatch hc) (onMind_task s)
  | requeued hl hr =>
      refine onMind_of h (onMind_needsAddress s) ?_ (fun hc => nomatch hc) (onMind_task s)
      intro hmem
      rcases List.mem_append.mp hmem with hm | hm
      · exact onMind_needsInvoice s hm
      · refine onMind_reducing s ?_
        rw [hl, List.mem_singleton.mp hm]
  | next hl hi =>
      exact onMind_of h (onMind_needsAddress s) (onMind_needsInvoice s) (onMind_next s hi) (onMind_task s)

theorem TaskMove.onMind {s s' : State} {t : Task} {out : List Out} {uuid : Uuid}
    (m : TaskMove s t s' out) (h : onMind s' uuid) :
    SwapManager.onMind s uuid ∨ t.reduces = some uuid ∨ s.db.swaps.get uuid ≠ none := by
  cases m with
  | loadAddress hl =>
      refine onMind_of h ?_ (onMind_needsInvoice s) (onMind_reducing s)
        (onMind_task_append s (fun t ht => List.mem_singleton.mp ht ▸ rfl))
      intro hmem
      rcases mem_loadQueue hmem with hq | hrow
      · exact onMind_needsAddress s hq
      · exact Or.inr (Or.inr hrow)
  | loadInvoice hl =>
      refine onMind_of h (onMind_needsAddress s) ?_ (onMind_started s hl)
        (onMind_task_append s (fun t ht => List.mem_singleton.mp ht ▸ rfl))
      intro hmem
      rcases mem_loadQueue hmem with hq | hrow
      · exact onMind_needsInvoice s hq
      · exact Or.inr (Or.inr hrow)
  | checkPayments => exact Or.inl h
  | startAddress hl => exact Or.inl h
  | startInvoice hl =>
      exact onMind_of h (onMind_needsAddress s) (onMind_needsInvoice s) (onMind_started s hl) (onMind_task s)
  | paidSecond hc => exact Or.inl h
  | paidFirst hc => exact Or.inl h
  | payUnknown => exact Or.inl h
  | payFailed hr hh =>
      refine Or.imp_right (b := s.db.swaps.get uuid ≠ none) Or.inr (onMind_of h
        (onMind_needsAddress s) (onMind_needsInvoice s) (onMind_reducing s)
        (onMind_task_rows s (fun t ht u hu => ?_)))
      rw [List.mem_singleton.mp ht] at hu
      rw [← Option.some.inj hu, Table.get_of_mem hr]
      exact Option.some_ne_none _
  | failed ha =>
      exact onMind_of h (onMind_needsAddress s) (onMind_needsInvoice s) (onMind_reducing s) (onMind_task s)
  | requeued hr =>
      refine onMind_of h (onMind_needsAddress s) ?_ (onMind_reducing s)
        (onMind_task_append s (fun t ht => List.mem_singleton.mp ht ▸ rfl))
      intro hmem
      rcases List.mem_append.mp hmem with hm | hm
      · exact onMind_needsInvoice s hm
      · rw [List.mem_singleton.mp hm]
        exact Or.inr (Or.inl rfl)
  | fundsIgnored ht =>
      exact onMind_of h (onMind_needsAddress s) (onMind_needsInvoice s) (onMind_reducing s)
        (onMind_task_append s (fun t hmem => List.mem_singleton.mp (ht hmem) ▸ rfl))
  | fundsFound hr hh ha =>
      refine onMind_of h (onMind_needsAddress s) (onMind_needsInvoice s) (onMind_reducing s)
        (onMind_task_append s (fun t ht => ?_))
      rcases List.mem_pair.mp ht with rfl | rfl
      · rfl
      · rfl
  | seenSecond hc => exact Or.inl h
  | seenFirst hc => exact Or.inl h
  | block height =>
      refine Or.imp_right (b := s.db.swaps.get uuid ≠ none) Or.inr (onMind_of h
        (onMind_needsAddress s) (onMind_needsInvoice s) (onMind_reducing s)
        (onMind_task_rows s (fun t ht u hu => ?_)))
      obtain ⟨q, hq, rfl⟩ := List.mem_map.mp ht
      obtain ⟨row, hrow, hp⟩ := List.mem_filterMap.mp hq
      rw [← Option.some.inj hu, ← (timedOutAt_eq hp).1, Table.get_of_mem hrow]
      exact Option.some_ne_none _

/-- **STEP**: nothing comes to mind without a row. -/
theorem step_onMind {s s' : State} {e : Event} {out : List Out} {uuid : Uuid}
    (hs : step s e = some (s', out)) (h : onMind s' uuid) :
    onMind s uuid ∨ s.db.swaps.get uuid ≠ none ∨ s'.db.swaps.get uuid ≠ none := by
  cases step_move hs with
  | told ht =>
      exact onMind_of h (onMind_needsAddress s) (onMind_needsInvoice s) (onMind_reducing s)
        (onMind_task_append s (fun t hmem => (ht t hmem).1))
  | newaddr hl => exact Or.inl h
  | quoted hl => exact Or.inl h
  | refused hl =>
      exact onMind_of h (onMind_needsAddress s) (onMind_needsInvoice s) (fun hc => nomatch hc)
        (onMind_task s)
  | agreed hl =>
      exact onMind_of h (onMind_needsAddress s) (onMind_needsInvoice s) (fun hc => nomatch hc)
        (onMind_task s)
  | @requested k minAmount maxAmount hn =>
      refine onMind_of h ?_ (onMind_needsInvoice s) (onMind_reducing s)
        (onMind_task_append s (fun t ht => List.mem_singleton.mp ht ▸ rfl))
      intro hmem
      rcases List.mem_append.mp hmem with hm | hm
      · exact onMind_needsAddress s hm
      · refine Or.inr (Or.inr ?_)
        rw [List.mem_singleton.mp hm]
        have hself := Table.get_insert_self s.db.swaps
          ⟨k, maxAmount.toMsat, minAmount.toMsat, .needsOnchainAddress, none⟩ hn
        intro hnone
        exact nomatch hself.symm.trans hnone
  | address m => exact m.onMind h
  | invoice m => exact m.onMind h
  | @task n pick t _ _ ht m =>
      have hmem := List.mem_of_getElem? ht
      rcases m.onMind h with hm | hr | hrow
      · refine onMind_of hm (onMind_needsAddress s) (onMind_needsInvoice s) (onMind_reducing s) ?_
        intro t' ht' hr
        exact onMind_task s t' (List.mem_of_mem_eraseIdx ht') hr
      · exact onMind_task s t hmem hr
      · exact Or.inr (Or.inl hrow)
  | restart =>
      rcases h with h | h | h | ⟨t, ht, hr⟩
      · exact nomatch h
      · exact nomatch h
      · exact nomatch h
      · rw [List.mem_singleton.mp ht] at hr
        exact nomatch hr

theorem live_pos {uuid : Uuid} {db : Db} : 0 < live uuid db ↔ db.swaps.get uuid ≠ none := by
  unfold live
  by_cases h : db.swaps.get uuid = none
  · simp [h]
  · simp [h]

/-- A row only goes away with a response. -/
theorem step_row_or_response {s s' : State} {e : Event} {out : List Out} {uuid : Uuid}
    (hs : step s e = some (s', out)) (h : s.db.swaps.get uuid ≠ none) :
    s'.db.swaps.get uuid ≠ none ∨ 0 < responses uuid out := by
  rcases step_live hs with hle | ⟨k, -, hfail⟩
  · have hpos := (hle uuid).1
    have := live_pos.mpr h
    rcases Nat.eq_zero_or_pos (live uuid s'.db) with hz | hz
    · exact Or.inr (by omega)
    · exact Or.inl (live_pos.mp hz)
  · by_cases hk : uuid = k
    · subst hk
      exact absurd hfail.1 h
    · refine Or.inl ?_
      rw [hfail.2.1, Table.get_delete_ne _ hk]
      exact h

theorem Remembered.step {s s' : State} {e : Event} {tr out : List Out}
    (hs : step s e = some (s', out)) (hr : Remembered tr s) : Remembered (tr ++ out) s' := by
  intro uuid hmind
  have happ : responses uuid (tr ++ out) = responses uuid tr + responses uuid out :=
    List.countP_append
  have hrow : s.db.swaps.get uuid ≠ none →
      s'.db.swaps.get uuid ≠ none ∨ 0 < responses uuid (tr ++ out) := by
    intro h
    rcases step_row_or_response hs h with h' | h'
    · exact Or.inl h'
    · exact Or.inr (by omega)
  rcases step_onMind hs hmind with hm | hm | hm
  · rcases hr uuid hm with h | h
    · exact hrow h
    · exact Or.inr (by omega)
  · exact hrow hm
  · exact Or.inl hm

/-- What is reduced was on the module's mind. -/
theorem onMind_of_reduction {s : State} {e : Event} {uuid : Uuid}
    (h : reduction s e = some uuid) : onMind s uuid := by
  unfold reduction at h
  split at h
  · split at h
    · rename_i u hl
      cases h
      exact Or.inr (Or.inr (Or.inl hl))
    · exact nomatch h
  · obtain ⟨t, ht, hr⟩ := Option.bind_eq_some_iff.mp h
    exact Or.inr (Or.inr (Or.inr ⟨t, List.mem_of_getElem? ht, hr⟩))
  · exact nomatch h

/-- A step that runs `swap_reduce_or_fail` leaves its database and its messages. -/
theorem reduction_eq {s s' : State} {e : Event} {out : List Out} {uuid : Uuid}
    (hs : step s e = some (s', out)) (hred : reduction s e = some uuid) :
    ∃ s₀ pick r, s₀.db = s.db ∧ swapReduceOrFail s₀ uuid pick = some r ∧ s'.db = r.1.db
      ∧ out = r.2.1 := by
  unfold reduction at hred
  split at hred
  · rename_i d
    split at hred
    · rename_i u hl
      cases hred
      unfold step stepInvoice at hs
      simp only [hl] at hs
      obtain ⟨r, hr, heq⟩ := Option.map_eq_some_iff.mp hs
      cases heq
      exact ⟨s, d.pick, r, rfl, hr, rfl, rfl⟩
    · cases hred
  · rename_i n pick
    obtain ⟨t, ht, hr⟩ := Option.bind_eq_some_iff.mp hred
    obtain ⟨t', ht', hstep⟩ := Option.bind_eq_some_iff.mp hs
    rw [ht] at ht'
    cases ht'
    cases Task.eq_reduce hr
    obtain ⟨r, hr, heq⟩ := Option.map_eq_some_iff.mp hstep
    cases heq
    refine ⟨{ s with tasks := s.tasks.eraseIdx n }, pick, r, rfl, hr, ?_, rfl⟩
    cases r.2.2 with
    | true => rfl
    | false => rfl
  · cases hred

/-- A reduction without a row fails the swap again. -/
theorem responses_of_reduction {s s' : State} {e : Event} {out : List Out} {uuid : Uuid}
    (hs : step s e = some (s', out)) (hred : reduction s e = some uuid)
    (hnone : s.db.swaps.get uuid = none) : responses uuid out = 1 := by
  obtain ⟨s₀, pick, r, hdb, hr, -, rfl⟩ := reduction_eq hs hred
  obtain ⟨-, rfl⟩ | ⟨row, amount, hrow, -⟩ := swapReduceOrFail_cases hr
  · simp [failSwap, responses, Out.respondsTo]
  · rw [hdb, hnone] at hrow
    cases hrow

/-- A run that responds at most once to each swap only reduces live ones: a
    reduction without a row adds a response to one already there. -/
theorem along_of_responses_le (es : List Event) : ∀ (s s' : State) (tr₀ tr : List Out),
    Remembered tr₀ s → Machine.run step s es = some (s', tr) →
    (∀ uuid, responses uuid (tr₀ ++ tr) ≤ 1) → Machine.Along step ReducesLive s es := by
  induction es with
  | nil => intro s s' tr₀ tr _ _ _; exact True.intro
  | cons e es ih =>
      intro s s' tr₀ tr hrem hrun hone
      obtain ⟨s₁, out, tr', hs, hr, rfl⟩ := Machine.run_cons hrun
      have hcount : ∀ uuid, responses uuid (tr₀ ++ (out ++ tr'))
          = responses uuid tr₀ + responses uuid out + responses uuid tr' := by
        intro uuid
        unfold responses
        rw [List.countP_append, List.countP_append, Nat.add_assoc]
      refine ⟨?_, ?_⟩
      · intro uuid hred hnone
        have hseen : 0 < responses uuid tr₀ := by
          rcases hrem uuid (onMind_of_reduction hred) with h | h
          · exact absurd hnone h
          · exact h
        have hresp := responses_of_reduction hs hred hnone
        have := hone uuid
        rw [hcount] at this
        omega
      · rw [hs]
        refine ih s₁ s' (tr₀ ++ out) tr' (hrem.step hs) hr (fun uuid => ?_)
        rw [List.append_assoc]
        exact hone uuid

/-- **HEADLINE**: for every run in which no two requests share their id, at
    most one `SwapResponse` is raised for each swap EXACTLY when each
    `swap_reduce_or_fail` of the run finds its row. -/
theorem responses_iff {es : List Event} {s : State} {tr : List Out}
    (hrun : run es = some (s, tr)) (hids : (es.filterMap Event.requestedId).Nodup) :
    (∀ uuid, responses uuid tr ≤ 1) ↔ Machine.Along step ReducesLive (boot Db.empty) es := by
  constructor
  · intro hone
    refine along_of_responses_le es (boot Db.empty) s [] tr ?_ hrun hone
    rintro uuid (h | h | h | ⟨t, ht, hr⟩)
    · exact nomatch h
    · exact nomatch h
    · exact nomatch h
    · rw [List.mem_singleton.mp ht] at hr
      exact nomatch hr
  · intro hlive uuid
    have hle := run_responses_le uuid hlive hrun
    have hcount := List.nodup_iff_count_le_one.mp hids uuid
    omega

/-- A swap that cannot go lower; its payment fails, and the failure is
    processed before the next block. -/
def sampleFailedRun : List Event :=
  [.swapRequest ⟨1⟩ ⟨4000⟩ ⟨4000⟩, .task 1 0, .address, .responseNewaddr "bc1pa",
    .address, .address, .address,
    .invoice ⟨[], [], 0⟩, .provideSwapQuotation ⟨10⟩ 1 "boltz",
    .invoice ⟨[5], [⟨5, 1, "boltz"⟩], 0⟩,
    .swapCreation (some ⟨"lnbc1", sampleHash, 100⟩), .invoice ⟨[], [], 0⟩, .invoice ⟨[], [], 0⟩,
    .responseListpays sampleHash .failed ⟨0⟩, .task 1 0, .task 1 0]

theorem responses_iff_sampleFailedRun :
    (run sampleFailedRun).isSome ∧ ∀ s tr, run sampleFailedRun = some (s, tr) →
      ((∀ uuid, responses uuid tr ≤ 1)
        ↔ Machine.Along step ReducesLive (boot Db.empty) sampleFailedRun) := by
  refine ⟨by decide, ?_⟩
  intro s tr h
  exact responses_iff h (by decide)

/-- The same swap, but the payment fails just as its timeout is reached: the
    listpays response and the block each start a `swap_reduce_or_fail`. -/
def doublyFailedRun : List Event :=
  [.swapRequest ⟨1⟩ ⟨4000⟩ ⟨4000⟩, .task 1 0, .address, .responseNewaddr "bc1pa",
    .address, .address, .address,
    .invoice ⟨[], [], 0⟩, .provideSwapQuotation ⟨10⟩ 1 "boltz",
    .invoice ⟨[5], [⟨5, 1, "boltz"⟩], 0⟩,
    .swapCreation (some ⟨"lnbc1", sampleHash, 100⟩), .invoice ⟨[], [], 0⟩, .invoice ⟨[], [], 0⟩,
    .responseListpays sampleHash .failed ⟨0⟩, .block 100, .task 1 0, .task 1 0,
    .task 1 0, .task 1 0]

/-- It is failed twice. -/
theorem two_failures_doublyFailedRun :
    (doublyFailedRun.filterMap Event.requestedId).Nodup
    ∧ (run doublyFailedRun).map (fun p => responses ⟨1⟩ p.2) = some 2 := by
  decide

end SwapManager
