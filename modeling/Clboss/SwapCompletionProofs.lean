import Clboss.SwapMoveProofs

/-! # `Boss::Mod::SwapManager` — completions

    A swap is complete when two facts about its payment hash have been
    processed: the payment succeeded, and its funds arrived onchain.  Either
    may come first, and the success may be reported again and again.  Two
    tables remember the half that came first.

    The argument has two layers.  COUNTING: a payment hash enters the module
    with a successful `SwapCreation` and then is in one place only (the
    greenthread that carries it, a row, or an arrival not yet processed), so a
    hash agreed on once arrives at most once.  BOOKS: given that, the two
    tables are determined by the reports processed so far, and so are the
    completions. -/

namespace SwapManager

open Bitcoin Ln UniqueTable

/-! ## Reports -/

/-- The successes processed for `h`, with the amounts sent. -/
def sentReports (h : Hash) (tr : List Out) : List Amount :=
  tr.filterMap fun
    | .paySucceeded h' a => if h' = h then some a else none
    | _                  => none

/-- The arrivals processed for `h`, with the amounts received. -/
def arrivals (h : Hash) (tr : List Out) : List Amount :=
  tr.filterMap fun
    | .onchainArrived h' a => if h' = h then some a else none
    | _                    => none

/-- The completions raised for `h`, with the amounts sent and received. -/
def completions (h : Hash) (tr : List Out) : List (Amount × Amount) :=
  tr.filterMap fun
    | .swapCompleted h' a b _ => if h' = h then some (a, b) else none
    | _                       => none

/-- What should have been raised: one completion once there are both, with the
    amount of the first success. -/
def due : List Amount → List Amount → List (Amount × Amount)
  | sent :: _, received :: _ => [(sent, received)]
  | _, _                     => []

/-- An output that is none of the three. -/
def Out.Mute (o : Out) : Prop :=
  match o with
  | .paySucceeded _ _      => False
  | .onchainArrived _ _    => False
  | .swapCompleted _ _ _ _ => False
  | _                      => True

theorem Out.Mute.reports {out : List Out} (hout : ∀ o ∈ out, o.Mute) (h : Hash) :
    sentReports h out = [] ∧ arrivals h out = [] ∧ completions h out = [] := by
  refine ⟨?_, ?_, ?_⟩
  · refine List.filterMap_eq_nil_iff.mpr ?_
    intro o ho
    have := hout o ho
    cases o <;> first | rfl | exact this.elim
  · refine List.filterMap_eq_nil_iff.mpr ?_
    intro o ho
    have := hout o ho
    cases o <;> first | rfl | exact this.elim
  · refine List.filterMap_eq_nil_iff.mpr ?_
    intro o ho
    have := hout o ho
    cases o <;> first | rfl | exact this.elim

/-! ## Counting -/

/-- The hash of a successful `SwapCreation`. -/
def Event.agreedHash : Event → Option Hash
  | .swapCreation (some c) => some c.hash
  | _                      => none

/-- The hash carried by `on_swap_creation`. -/
def InvoiceLoop.carriedHash : InvoiceLoop → Option Hash
  | .creating c _ => some c.hash
  | _             => none

/-- How often the invoice loop carries `h`. -/
def InvoiceLoop.place (h : Hash) (l : InvoiceLoop) : Nat :=
  if l.carriedHash = some h then 1 else 0

/-- How often a pooled greenthread does. -/
def Task.place (h : Hash) (t : Task) : Nat := if t.arrives = some h then 1 else 0

/-- How often `h` is about in the module. -/
def places (h : Hash) (s : State) : Nat :=
  s.db.swaps.rows.countP (fun r => r.paymentHash = some h)
    + s.tasks.countP (fun t => t.arrives = some h)
    + s.invoiceLoop.place h

/-- A greenthread that was only started carries nothing. -/
theorem place_started_le (h : Hash) {l l' : InvoiceLoop} {p : Prop}
    (hl : l' = l ∨ l = .idle ∧ l' = .soliciting ∧ p) : l'.place h ≤ l.place h := by
  rcases hl with rfl | ⟨_, rfl, _⟩
  · exact Nat.le_refl _
  · exact Nat.zero_le _

theorem countP_no_arrival {ts : List Task} (ht : ∀ t ∈ ts, t.arrives = none) (h : Hash) :
    ts.countP (fun t => t.arrives = some h) = 0 := by
  rw [List.countP_eq_zero]
  intro t hmem hd
  rw [ht t hmem] at hd
  exact absurd (of_decide_eq_true hd) (by simp)

/-- Giving an address or reducing never gives a row a hash. -/
theorem paymentHash_giveAddress {a : String} {h : Hash} (r : Swap)
    (hp : (r.giveAddress a).paymentHash = some h) : r.paymentHash = some h := by
  unfold Swap.giveAddress at hp
  by_cases hs : r.state = .needsOnchainAddress
  · rw [if_pos hs] at hp
    exact nomatch hp
  · rwa [if_neg hs] at hp

theorem places_loadAddress (h : Hash) (s : State) (uuid : Uuid) (a : String) :
    places h (loadAddress s uuid a) ≤ places h s := by
  have hrows := Table.countP_update_of_imp
    (fun r : Swap => decide (r.paymentHash = some h)) s.db.swaps uuid
    (Swap.giveAddress_uuid a)
    (fun r hr => decide_eq_true (paymentHash_giveAddress r (of_decide_eq_true hr)))
  show _ + _ + _ ≤ _ + _ + _
  exact Nat.add_le_add_right (Nat.add_le_add_right hrows _) _

/-- The address loop carries no hash. -/
theorem AddressMove.places_le {s s' : State} {out : List Out} (h : Hash)
    (m : AddressMove s s' out) : places h s' ≤ places h s ∧ ∀ o ∈ out, o.Mute := by
  cases m with
  | cached hl hq ha => exact ⟨places_loadAddress h _ _ _, fun o ho => nomatch ho⟩
  | asked hl hq =>
      exact ⟨Nat.le_refl _, fun o ho => List.mem_singleton.mp ho ▸ True.intro⟩
  | loaded hl hq => exact ⟨places_loadAddress h _ _ _, fun o ho => nomatch ho⟩
  | started hl hi =>
      exact ⟨Nat.add_le_add_left (place_started_le h hi) _, fun o ho => nomatch ho⟩
  | resumed hl ha => exact ⟨Nat.le_refl _, fun o ho => nomatch ho⟩

/-- `fail_swap` and a requeue never add a hash. -/
theorem rows_failSwap_le (h : Hash) (s : State) (uuid : Uuid) :
    (failSwap s uuid).1.db.swaps.rows.countP (fun r => r.paymentHash = some h)
      ≤ s.db.swaps.rows.countP (fun r => r.paymentHash = some h) :=
  Table.countP_delete_le _ s.db.swaps uuid

theorem rows_requeue_le (h : Hash) (s : State) (uuid : Uuid) (amount : UInt64) :
    (requeue s uuid amount).db.swaps.rows.countP (fun r => r.paymentHash = some h)
      ≤ s.db.swaps.rows.countP (fun r => r.paymentHash = some h) :=
  Table.countP_update_of_imp (fun r : Swap => decide (r.paymentHash = some h)) s.db.swaps uuid
    (Swap.reduce_uuid amount)
    (fun _ hr => nomatch (of_decide_eq_true hr : (none : Option Hash) = some h))

/-- In `on_swap_creation` the carried hash becomes that of the row. -/
theorem rows_create_le (h : Hash) {t : Table Swap.uuid} {uuid : Uuid} {row : Swap} (c : Creation)
    (hr : t.get uuid = some row) :
    (t.update uuid (Swap.await c.hash c.timeout) (Swap.await_uuid c.hash c.timeout)).rows.countP
        (fun r => r.paymentHash = some h)
      ≤ t.rows.countP (fun r => r.paymentHash = some h)
        + (if some c.hash = some h then 1 else 0) := by
  have hle := Table.countP_update_le (fun r : Swap => decide (r.paymentHash = some h))
    (Swap.await_uuid c.hash c.timeout) hr
  refine hle.trans (Nat.add_le_add_left ?_ _)
  show (if decide (some c.hash = some h) = true then 1 else 0) ≤ _
  by_cases hc : some c.hash = some h
  · rw [if_pos hc, if_pos (decide_eq_true hc)]
  · rw [if_neg hc, if_neg (by simpa using hc)]

theorem InvoiceMove.places_le {s s' : State} {out : List Out} (h : Hash)
    (m : InvoiceMove s s' out) : places h s' ≤ places h s ∧ ∀ o ∈ out, o.Mute := by
  cases m with
  | solicited hl hq =>
      refine ⟨?_, fun o ho => List.mem_singleton.mp ho ▸ True.intro⟩
      exact Nat.add_le_add_left (Nat.zero_le _) _
  | exhausted hl hq =>
      exact ⟨Nat.add_le_add_left (Nat.zero_le _) _, fun o ho => nomatch ho⟩
  | accepted hl =>
      refine ⟨?_, fun o ho => List.mem_singleton.mp ho ▸ True.intro⟩
      exact Nat.add_le_add_left (Nat.zero_le _) _
  | orphaned hl hq hr =>
      exact ⟨Nat.add_le_add_left (Nat.zero_le _) _, fun o ho => nomatch ho⟩
  | @created c name uuid rest row hl hq hr =>
      refine ⟨?_, fun o ho => List.mem_singleton.mp ho ▸ True.intro⟩
      have hrows := rows_create_le h c hr
      unfold places
      rw [hl]
      show _ + _ + 0 ≤ _ + _ + (if some c.hash = some h then 1 else 0)
      simp only
      omega
  | paid hl hi =>
      refine ⟨?_, fun o ho => nomatch ho⟩
      rcases hi with rfl | ⟨rfl, _⟩
      · exact Nat.add_le_add_left (Nat.zero_le _) _
      · exact Nat.add_le_add_left (Nat.zero_le _) _
  | failed hl ha =>
      refine ⟨?_, fun o ho => List.mem_singleton.mp ho ▸ True.intro⟩
      exact Nat.add_le_add (Nat.add_le_add_right (rows_failSwap_le h s _) _) (Nat.zero_le _)
  | requeued hl hr =>
      refine ⟨?_, fun o ho => nomatch ho⟩
      exact Nat.add_le_add (Nat.add_le_add_right (rows_requeue_le h s _ _) _) (Nat.zero_le _)
  | next hl hi =>
      refine ⟨?_, fun o ho => nomatch ho⟩
      rcases hi with rfl | ⟨rfl, _⟩
      · exact Nat.add_le_add_left (Nat.zero_le _) _
      · exact Nat.add_le_add_left (Nat.zero_le _) _

/-- New greenthreads that will process no arrival. -/
theorem places_append (h : Hash) (s : State) (ts : List Task)
    (ht : ∀ t ∈ ts, t.arrives = none) :
    places h { s with tasks := s.tasks ++ ts } = places h s := by
  unfold places
  rw [List.countP_append, countP_no_arrival ht, Nat.add_zero]

theorem arrivals_single (h h' : Hash) (a : Amount) (l : List Out) (hl : ∀ o ∈ l, ∃ x y z w,
    o = .swapCompleted x y z w) :
    (arrivals h (.onchainArrived h' a :: l)).length = (if some h' = some h then 1 else 0) := by
  have hnil : arrivals h l = [] := by
    refine List.filterMap_eq_nil_iff.mpr ?_
    intro o ho
    obtain ⟨x, y, z, w, rfl⟩ := hl o ho
    rfl
  have hcons : arrivals h (.onchainArrived h' a :: l)
      = (if h' = h then some a else none).toList ++ arrivals h l := by
    unfold arrivals
    by_cases hh : h' = h
    · rw [if_pos hh, List.filterMap_cons_some (b := a) (by simp [hh])]
      rfl
    · rw [if_neg hh, List.filterMap_cons_none (by simp [hh])]
      rfl
  rw [hcons, hnil, List.append_nil]
  by_cases hh : h' = h
  · rw [if_pos hh, if_pos (congrArg some hh)]; rfl
  · rw [if_neg hh, if_neg (fun heq => hh (Option.some.inj heq))]; rfl

/-- A pooled greenthread turns a row into an arrival to come, and that into an
    arrival. -/
theorem TaskMove.places_le {s s' : State} {t : Task} {out : List Out} (h : Hash)
    (m : TaskMove s t s' out) :
    places h s' + (arrivals h out).length ≤ places h s + t.place h := by
  cases m with
  | loadAddress hl =>
      refine Nat.le_add_right_of_le (Nat.le_of_eq ?_)
      exact places_append h s _ (fun t ht => List.mem_singleton.mp ht ▸ rfl)
  | @loadInvoice l q hl =>
      refine Nat.le_add_right_of_le (Nat.le_trans ?_ (Nat.le_of_eq (places_append h s
        [.checkPayments] (fun t ht => List.mem_singleton.mp ht ▸ rfl))))
      exact Nat.add_le_add_left (place_started_le h hl) _
  | checkPayments =>
      have hmute : ∀ o ∈ (s.db.swaps.rows.filterMap Swap.paymentHash).map Out.requestListpays,
          o.Mute := by
        intro o ho
        obtain ⟨h', _, rfl⟩ := List.mem_map.mp ho
        exact True.intro
      rw [(Out.Mute.reports hmute h).2.1]
      exact Nat.le_add_right _ _
  | startAddress hl => exact Nat.le_add_right _ _
  | startInvoice hl =>
      exact Nat.le_add_right_of_le (Nat.add_le_add_left (place_started_le h hl) _)
  | paidSecond hc => exact Nat.le_add_right _ _
  | paidFirst hc => exact Nat.le_add_right _ _
  | payUnknown => exact Nat.le_add_right _ _
  | payFailed hr hh =>
      refine Nat.le_add_right_of_le (Nat.le_of_eq ?_)
      exact places_append h s _ (fun t ht => List.mem_singleton.mp ht ▸ rfl)
  | failed ha =>
      refine Nat.le_add_right_of_le ?_
      exact Nat.add_le_add_right (Nat.add_le_add_right (rows_failSwap_le h s _) _) _
  | @requeued uuid row amount hr =>
      refine Nat.le_add_right_of_le (Nat.le_trans ?_ (Nat.le_of_eq (places_append h s
        [.startInvoice] (fun t ht => List.mem_singleton.mp ht ▸ rfl))))
      exact Nat.add_le_add_right (Nat.add_le_add_right (rows_requeue_le h s uuid amount) _) _
  | fundsIgnored ht =>
      refine Nat.le_add_right_of_le (Nat.le_of_eq ?_)
      exact places_append h s _ (fun t hmem => List.mem_singleton.mp (ht hmem) ▸ rfl)
  | @fundsFound fund rest row h' name hr hh ha =>
      -- the row's place becomes that of the arrival to come
      have hrows := Table.countP_delete (fun r : Swap => decide (r.paymentHash = some h))
        (Table.get_of_mem hr)
      have htasks : (s.tasks ++ [Task.onchainSeen h' fund.2 name, Task.fundsLoop]).countP
          (fun t => t.arrives = some h)
          = s.tasks.countP (fun t => t.arrives = some h) + (if some h' = some h then 1 else 0) := by
        rw [List.countP_append]
        by_cases heq : h' = h
        · simp [Task.arrives, heq]
        · simp [Task.arrives, heq]
      simp only [hh, decide_eq_true_eq] at hrows
      refine Nat.le_add_right_of_le ?_
      show ((s.db.swaps.delete row.uuid).rows.countP _ + _ + _) + 0 ≤ _ + _ + _
      rw [htasks]
      simp only
      omega
  | @seenSecond h' amount name c hc =>
      rw [arrivals_single h h' amount _ (fun o ho => ⟨_, _, _, _, List.mem_singleton.mp ho⟩)]
      exact Nat.le_refl _
  | @seenFirst h' amount name hc =>
      rw [arrivals_single h h' amount [] (fun o ho => nomatch ho)]
      exact Nat.le_refl _
  | block height =>
      have hmute : ∀ o ∈ (s.db.swaps.rows.filterMap (timedOutAt height)).map
          (fun p => Out.timedOut p.1 p.2), o.Mute := by
        intro o ho
        obtain ⟨p, _, rfl⟩ := List.mem_map.mp ho
        exact True.intro
      rw [(Out.Mute.reports hmute h).2.1]
      refine Nat.le_add_right_of_le (Nat.le_of_eq ?_)
      refine places_append h s _ (fun t ht => ?_)
      obtain ⟨p, _, rfl⟩ := List.mem_map.mp ht
      rfl

/-- **STEP** (counting): a step moves hashes about, and only an agreement adds
    one. -/
theorem step_places {s s' : State} {e : Event} {out : List Out} (h : Hash)
    (hs : step s e = some (s', out)) :
    places h s' + (arrivals h out).length
      ≤ places h s + (if e.agreedHash = some h then 1 else 0) := by
  cases step_move hs with
  | told ht =>
      refine Nat.le_add_right_of_le (Nat.le_of_eq ?_)
      exact places_append h s _ (fun t hmem => (ht t hmem).2)
  | newaddr hl => exact Nat.le_add_right _ _
  | quoted hl => exact Nat.le_add_right _ _
  | refused hl => exact Nat.le_add_right_of_le (Nat.add_le_add_left (Nat.zero_le _) _)
  | @agreed c name hl =>
      show _ + _ + (if some c.hash = some h then 1 else 0) + 0
        ≤ _ + _ + _ + (if some c.hash = some h then 1 else 0)
      simp only
      omega
  | requested hn =>
      refine Nat.le_add_right_of_le (Nat.le_of_eq ?_)
      refine Eq.trans ?_ (places_append h s [.startAddress]
        (fun t ht => List.mem_singleton.mp ht ▸ rfl))
      show (s.db.swaps.rows ++ [_]).countP _ + _ + _ = _
      rw [List.countP_append]
      rfl
  | address m =>
      obtain ⟨hle, hmute⟩ := m.places_le h
      rw [(Out.Mute.reports hmute h).2.1]
      exact Nat.le_add_right_of_le hle
  | invoice m =>
      obtain ⟨hle, hmute⟩ := m.places_le h
      rw [(Out.Mute.reports hmute h).2.1]
      exact Nat.le_add_right_of_le hle
  | @task n pick t _ _ ht m =>
      have hle := m.places_le h
      have hpool := (Machine.pool_perm ht).countP_eq (fun t => decide (t.arrives = some h))
      refine Nat.le_add_right_of_le (Nat.le_trans hle ?_)
      unfold places Task.place
      rw [hpool, List.countP_cons]
      simp only [decide_eq_true_eq]
      omega
  | restart =>
      refine Nat.le_add_right_of_le ?_
      show _ + 0 + 0 + 0 ≤ _ + _ + _
      simp only [boot]
      omega

/-! ## Books -/

/-- What the two tables hold for `h` after the reports of `tr`, and what was
    raised. -/
structure Books (h : Hash) (tr : List Out) (db : Db) : Prop where
  completed : completions h tr = due (sentReports h tr) (arrivals h tr)
  /-- without an arrival the first success is remembered -/
  pay : arrivals h tr = [] →
    (db.compPay.get h).map CompPay.amountSent = (sentReports h tr).head?
  /-- an arrival is remembered until the first success -/
  onchain : (db.compOnchain.get h).map CompOnchain.amountReceived
    = if sentReports h tr = [] then (arrivals h tr).head? else none
  unpaid : sentReports h tr = [] → db.compPay.get h = none

/-- Reports on other hashes, and steps without a report, change nothing. -/
theorem Books.frame {h : Hash} {tr out : List Out} {db db' : Db} (hb : Books h tr db)
    (hs : sentReports h out = []) (ha : arrivals h out = []) (hc : completions h out = [])
    (hpay : db'.compPay.get h = db.compPay.get h)
    (hon : db'.compOnchain.get h = db.compOnchain.get h) : Books h (tr ++ out) db' := by
  have hs' : sentReports h (tr ++ out) = sentReports h tr := by
    refine List.filterMap_append.trans ?_
    exact (congrArg _ hs).trans (List.append_nil _)
  have ha' : arrivals h (tr ++ out) = arrivals h tr := by
    refine List.filterMap_append.trans ?_
    exact (congrArg _ ha).trans (List.append_nil _)
  have hc' : completions h (tr ++ out) = completions h tr := by
    refine List.filterMap_append.trans ?_
    exact (congrArg _ hc).trans (List.append_nil _)
  refine ⟨?_, ?_, ?_, ?_⟩
  · rw [hc', hs', ha']; exact hb.completed
  · rw [hs', ha', hpay]; exact hb.pay
  · rw [hs', ha', hon]; exact hb.onchain
  · rw [hs', hpay]; exact hb.unpaid

theorem due_snoc_sent (s a : Amount) (ss as : List Amount) :
    due (s :: ss ++ [a]) as = due (s :: ss) as := by
  cases as with
  | nil => rfl
  | cons b bs => rfl

/-- A success after the arrival completes the swap. -/
theorem Books.paidSecond {h : Hash} {tr : List Out} {db : Db} {c : CompOnchain} {a : Amount}
    (hb : Books h tr db) (hc : db.compOnchain.get h = some c) :
    Books h (tr ++ [.paySucceeded h a, .swapCompleted h a c.amountReceived c.providerName])
      { db with compOnchain := db.compOnchain.delete h } := by
  have hs : sentReports h (tr ++ [.paySucceeded h a,
      .swapCompleted h a c.amountReceived c.providerName]) = sentReports h tr ++ [a] := by
    simp [sentReports]
  have ha : arrivals h (tr ++ [.paySucceeded h a,
      .swapCompleted h a c.amountReceived c.providerName]) = arrivals h tr := by
    simp [arrivals]
  have hcomp : completions h (tr ++ [.paySucceeded h a,
      .swapCompleted h a c.amountReceived c.providerName])
      = completions h tr ++ [(a, c.amountReceived)] := by
    simp [completions]
  have hon := hb.onchain
  rw [hc, Option.map_some] at hon
  -- the arrival is only remembered while there was no success
  have hnil : sentReports h tr = [] := by
    by_contra hne
    rw [if_neg hne] at hon
    exact nomatch hon
  rw [if_pos hnil] at hon
  obtain ⟨as, has⟩ := List.head?_eq_some_iff.mp hon.symm
  refine ⟨?_, ?_, ?_, ?_⟩
  · rw [hcomp, hs, ha, hb.completed, hnil, has]
    rfl
  · intro harr
    rw [ha, has] at harr
    exact nomatch harr
  · show ((db.compOnchain.delete h).get h).map _ = _
    rw [Table.get_delete_self, hs, if_neg (by simp)]
    rfl
  · intro hsent
    rw [hs] at hsent
    exact absurd hsent (by simp)

/-- A success before the arrival is remembered if it is the first. -/
theorem Books.paidFirst {h : Hash} {tr : List Out} {db : Db} {a : Amount}
    (hb : Books h tr db) (hc : db.compOnchain.get h = none) :
    Books h (tr ++ [.paySucceeded h a])
      { db with compPay := db.compPay.insertOrIgnore ⟨h, a⟩ } := by
  have hs : sentReports h (tr ++ [.paySucceeded h a]) = sentReports h tr ++ [a] := by
    simp [sentReports]
  have ha : arrivals h (tr ++ [.paySucceeded h a]) = arrivals h tr := by simp [arrivals]
  have hcomp : completions h (tr ++ [.paySucceeded h a]) = completions h tr := by
    simp [completions]
  have hget : (db.compPay.insertOrIgnore ⟨h, a⟩).get h
      = some ((db.compPay.get h).getD ⟨h, a⟩) := Table.get_insertOrIgnore_self db.compPay ⟨h, a⟩
  have hon := hb.onchain
  rw [hc, Option.map_none] at hon
  refine ⟨?_, ?_, ?_, ?_⟩
  · rw [hcomp, hs, ha, hb.completed]
    cases hsent : sentReports h tr with
    | nil =>
        rw [if_pos hsent] at hon
        rw [List.head?_eq_none_iff.mp hon.symm]
        rfl
    | cons s ss => exact (due_snoc_sent s a ss _).symm
  · intro harr
    rw [ha] at harr
    have hpay := hb.pay harr
    show ((db.compPay.insertOrIgnore ⟨h, a⟩).get h).map _ = _
    rw [hget, hs, Option.map_some]
    cases hsent : sentReports h tr with
    | nil => rw [hb.unpaid hsent]; rfl
    | cons s ss =>
        rw [hsent] at hpay
        obtain ⟨c, hc', hcs⟩ := Option.map_eq_some_iff.mp hpay
        rw [hc', Option.getD_some, hcs]
        rfl
  · show (db.compOnchain.get h).map _ = _
    rw [hc, hs, if_neg (by simp)]
    rfl
  · intro hsent
    rw [hs] at hsent
    exact absurd hsent (by simp)

/-- An arrival after a success completes the swap. -/
theorem Books.seenSecond {h : Hash} {tr : List Out} {db : Db} {c : CompPay} {a : Amount}
    {name : String} (hb : Books h tr db) (hfirst : arrivals h tr = [])
    (hc : db.compPay.get h = some c) :
    Books h (tr ++ [.onchainArrived h a, .swapCompleted h c.amountSent a name])
      { db with compPay := db.compPay.delete h } := by
  have hs : sentReports h (tr ++ [.onchainArrived h a, .swapCompleted h c.amountSent a name])
      = sentReports h tr := by simp [sentReports]
  have ha : arrivals h (tr ++ [.onchainArrived h a, .swapCompleted h c.amountSent a name])
      = [a] := by
    have : arrivals h (tr ++ [.onchainArrived h a, .swapCompleted h c.amountSent a name])
        = arrivals h tr ++ [a] := by simp [arrivals]
    rw [this, hfirst, List.nil_append]
  have hcomp : completions h (tr ++ [.onchainArrived h a, .swapCompleted h c.amountSent a name])
      = completions h tr ++ [(c.amountSent, a)] := by simp [completions]
  have hpay := hb.pay hfirst
  rw [hc, Option.map_some] at hpay
  obtain ⟨ss, hss⟩ := List.head?_eq_some_iff.mp hpay.symm
  have hon := hb.onchain
  refine ⟨?_, ?_, ?_, ?_⟩
  · rw [hcomp, hs, ha, hb.completed, hss, hfirst]
    rfl
  · intro harr
    rw [ha] at harr
    exact nomatch harr
  · show (db.compOnchain.get h).map _ = _
    rw [hon, hs, hss]
    rfl
  · intro hsent
    rw [hs, hss] at hsent
    exact nomatch hsent

/-- An arrival before any success is remembered. -/
theorem Books.seenFirst {h : Hash} {tr : List Out} {db : Db} {a : Amount} {name : String}
    (hb : Books h tr db) (hfirst : arrivals h tr = []) (hc : db.compPay.get h = none) :
    Books h (tr ++ [.onchainArrived h a])
      { db with compOnchain := db.compOnchain.insertOrIgnore ⟨h, a, name⟩ } := by
  have hs : sentReports h (tr ++ [.onchainArrived h a]) = sentReports h tr := by
    simp [sentReports]
  have ha : arrivals h (tr ++ [.onchainArrived h a]) = [a] := by
    have : arrivals h (tr ++ [.onchainArrived h a]) = arrivals h tr ++ [a] := by simp [arrivals]
    rw [this, hfirst, List.nil_append]
  have hcomp : completions h (tr ++ [.onchainArrived h a]) = completions h tr := by
    simp [completions]
  have hpay := hb.pay hfirst
  rw [hc, Option.map_none] at hpay
  have hnil : sentReports h tr = [] := List.head?_eq_none_iff.mp hpay.symm
  have hon := hb.onchain
  rw [if_pos hnil, hfirst, List.head?_nil, Option.map_eq_none_iff] at hon
  refine ⟨?_, ?_, ?_, ?_⟩
  · rw [hcomp, hs, ha, hb.completed, hnil]
    rfl
  · intro harr
    rw [ha] at harr
    exact nomatch harr
  · show ((db.compOnchain.insertOrIgnore ⟨h, a, name⟩).get h).map _ = _
    have hget := Table.get_insertOrIgnore_self db.compOnchain ⟨h, a, name⟩
    simp only at hget
    rw [hget, hon, hs, ha, if_pos hnil]
    rfl
  · intro _
    exact hc

/-- The loops leave the two tables alone. -/
theorem AddressMove.comp_eq {s s' : State} {out : List Out} (m : AddressMove s s' out) :
    s'.db.compPay = s.db.compPay ∧ s'.db.compOnchain = s.db.compOnchain := by
  cases m with
  | cached hl hq ha => exact ⟨rfl, rfl⟩
  | asked hl hq => exact ⟨rfl, rfl⟩
  | loaded hl hq => exact ⟨rfl, rfl⟩
  | started hl hi => exact ⟨rfl, rfl⟩
  | resumed hl ha => exact ⟨rfl, rfl⟩

theorem InvoiceMove.comp_eq {s s' : State} {out : List Out} (m : InvoiceMove s s' out) :
    s'.db.compPay = s.db.compPay ∧ s'.db.compOnchain = s.db.compOnchain := by
  cases m with
  | solicited hl hq => exact ⟨rfl, rfl⟩
  | exhausted hl hq => exact ⟨rfl, rfl⟩
  | accepted hl => exact ⟨rfl, rfl⟩
  | orphaned hl hq hr => exact ⟨rfl, rfl⟩
  | created hl hq hr => exact ⟨rfl, rfl⟩
  | paid hl hi => exact ⟨rfl, rfl⟩
  | failed hl ha => exact ⟨rfl, rfl⟩
  | requeued hl hr => exact ⟨rfl, rfl⟩
  | next hl hi => exact ⟨rfl, rfl⟩

/-- A step without a report keeps the books. -/
theorem Books.mute {h : Hash} {tr out : List Out} {db db' : Db} (hb : Books h tr db)
    (hout : ∀ o ∈ out, o.Mute) (hpay : db'.compPay = db.compPay)
    (hon : db'.compOnchain = db.compOnchain) : Books h (tr ++ out) db' := by
  obtain ⟨hs, ha, hc⟩ := Out.Mute.reports hout h
  exact hb.frame hs ha hc (by rw [hpay]) (by rw [hon])

/-- A pooled greenthread keeps the books of `h`, as long as `h` has not arrived
    yet when its arrival is processed. -/
theorem TaskMove.books {s s' : State} {t : Task} {tr out : List Out} {h : Hash}
    (m : TaskMove s t s' out) (hb : Books h tr s.db)
    (hfirst : t.arrives = some h → arrivals h tr = []) : Books h (tr ++ out) s'.db := by
  cases m with
  | loadAddress hl => exact hb.mute (fun o ho => nomatch ho) rfl rfl
  | loadInvoice hl => exact hb.mute (fun o ho => nomatch ho) rfl rfl
  | checkPayments =>
      refine hb.mute (fun o ho => ?_) rfl rfl
      obtain ⟨h', _, rfl⟩ := List.mem_map.mp ho
      exact True.intro
  | startAddress hl => exact hb.mute (fun o ho => nomatch ho) rfl rfl
  | startInvoice hl => exact hb.mute (fun o ho => nomatch ho) rfl rfl
  | @paidSecond h' a c hc =>
      by_cases hh : h' = h
      · subst hh
        exact hb.paidSecond hc
      · refine hb.frame ?_ ?_ ?_ rfl (Table.get_delete_ne _ (Ne.symm hh))
        · simp [sentReports, hh]
        · simp [arrivals]
        · simp [completions, hh]
  | @paidFirst h' a hc =>
      by_cases hh : h' = h
      · subst hh
        exact hb.paidFirst hc
      · refine hb.frame ?_ ?_ ?_ (Table.get_insertOrIgnore_ne _ _ (Ne.symm hh)) rfl
        · simp [sentReports, hh]
        · simp [arrivals]
        · simp [completions]
  | payUnknown => exact hb.mute (fun o ho => nomatch ho) rfl rfl
  | payFailed hr hh => exact hb.mute (fun o ho => List.mem_singleton.mp ho ▸ True.intro) rfl rfl
  | failed ha => exact hb.mute (fun o ho => List.mem_singleton.mp ho ▸ True.intro) rfl rfl
  | requeued hr => exact hb.mute (fun o ho => nomatch ho) rfl rfl
  | fundsIgnored ht => exact hb.mute (fun o ho => nomatch ho) rfl rfl
  | fundsFound hr hh ha =>
      exact hb.mute (fun o ho => List.mem_singleton.mp ho ▸ True.intro) rfl rfl
  | @seenSecond h' a name c hc =>
      by_cases hh : h' = h
      · subst hh
        exact hb.seenSecond (hfirst rfl) hc
      · refine hb.frame ?_ ?_ ?_ (Table.get_delete_ne _ (Ne.symm hh)) rfl
        · simp [sentReports]
        · simp [arrivals, hh]
        · simp [completions, hh]
  | @seenFirst h' a name hc =>
      by_cases hh : h' = h
      · subst hh
        exact hb.seenFirst (hfirst rfl) hc
      · refine hb.frame ?_ ?_ ?_ rfl (Table.get_insertOrIgnore_ne _ _ (Ne.symm hh))
        · simp [sentReports]
        · simp [arrivals, hh]
        · simp [completions]
  | block height =>
      refine hb.mute (fun o ho => ?_) rfl rfl
      obtain ⟨p, _, rfl⟩ := List.mem_map.mp ho
      exact True.intro

/-- **STEP** (books): every step keeps the books of a hash that is in one place
    at most. -/
theorem step_books {s s' : State} {e : Event} {tr out : List Out} {h : Hash}
    (hs : step s e = some (s', out)) (hb : Books h tr s.db)
    (hone : places h s + (arrivals h tr).length ≤ 1) : Books h (tr ++ out) s'.db := by
  cases step_move hs with
  | told ht => exact hb.mute (fun o ho => nomatch ho) rfl rfl
  | newaddr hl => exact hb.mute (fun o ho => nomatch ho) rfl rfl
  | quoted hl => exact hb.mute (fun o ho => nomatch ho) rfl rfl
  | refused hl => exact hb.mute (fun o ho => nomatch ho) rfl rfl
  | agreed hl => exact hb.mute (fun o ho => nomatch ho) rfl rfl
  | requested hn => exact hb.mute (fun o ho => nomatch ho) rfl rfl
  | address m => exact hb.mute (m.places_le h).2 m.comp_eq.1 m.comp_eq.2
  | invoice m => exact hb.mute (m.places_le h).2 m.comp_eq.1 m.comp_eq.2
  | @task n pick t _ _ ht m =>
      refine m.books hb (fun harr => ?_)
      -- the arrival about to be processed already fills the one place
      have hpos : 0 < s.tasks.countP (fun t => decide (t.arrives = some h)) :=
        List.countP_pos_iff.mpr ⟨t, List.mem_of_getElem? ht, decide_eq_true harr⟩
      have hlen : (arrivals h tr).length = 0 := by
        unfold places at hone
        omega
      exact List.length_eq_zero_iff.mp hlen
  | restart => exact hb.mute (fun o ho => nomatch ho) rfl rfl

/-- **HEADLINE**: for every run, and every payment hash that at most one
    `SwapCreation` agreed on, `SwapCompleted` was raised EXACTLY once if both a
    success and the arrival were processed, with the amount sent of the first
    success and the amount received of the arrival; and not at all otherwise.
    The order of the two and repeated successes do not matter. -/
theorem completions_eq_due {es : List Event} {s : State} {tr : List Out} (h : Hash)
    (hrun : run es = some (s, tr)) (hfresh : (es.filterMap Event.agreedHash).count h ≤ 1) :
    completions h tr = due (sentReports h tr) (arrivals h tr)
      ∧ (arrivals h tr).length ≤ 1 := by
  have hinv : places h s + (arrivals h tr).length ≤ (es.filterMap Event.agreedHash).count h
      ∧ ((es.filterMap Event.agreedHash).count h ≤ 1 → Books h tr s.db) := by
    refine Machine.run_invariant (P := fun _ _ => True)
      (I := fun es tr s =>
        places h s + (arrivals h tr).length ≤ (es.filterMap Event.agreedHash).count h
          ∧ ((es.filterMap Event.agreedHash).count h ≤ 1 → Books h tr s.db))
      ⟨Nat.le_refl _, fun _ => ⟨rfl, fun _ => rfl, rfl, fun _ => rfl⟩⟩ ?_
      (Machine.along_true _ _) hrun
    rintro es tr s e s' out ⟨hplaces, hbooks⟩ _ hs
    have hstep := step_places h hs
    have harr : arrivals h (tr ++ out) = arrivals h tr ++ arrivals h out := List.filterMap_append
    rw [harr, List.length_append, Machine.count_filterMap_snoc]
    refine ⟨by omega, fun hone => ?_⟩
    exact step_books hs (hbooks (by omega)) (by omega)
  refine ⟨(hinv.2 hfresh).completed, ?_⟩
  omega

/-- A payment hash. -/
def sampleHash : Hash := ⟨List.replicate 32 7, rfl⟩

/-- One swap from request to payment. -/
def samplePaidRun : List Event :=
  [.swapRequest ⟨1⟩ ⟨1000⟩ ⟨4000⟩, .task 1 0, .address, .responseNewaddr "bc1pa",
    .address, .address, .address,
    .invoice ⟨[], [], 0⟩, .provideSwapQuotation ⟨10⟩ 1 "boltz",
    .invoice ⟨[5], [⟨5, 1, "boltz"⟩], 0⟩,
    .swapCreation (some ⟨"lnbc1", sampleHash, 100⟩), .invoice ⟨[], [], 0⟩, .invoice ⟨[], [], 0⟩]

/-- Its success is reported twice, then its funds arrive. -/
def sampleCompletedRun : List Event :=
  samplePaidRun ++
  [.responseListpays sampleHash .success ⟨4000⟩, .task 1 0,
    .responseListpays sampleHash .success ⟨4000⟩, .task 1 0,
    .listfundsResult [some ("bc1pa", ⟨3000⟩)], .task 1 0, .task 1 0]

theorem completions_eq_due_sampleCompletedRun :
    (run sampleCompletedRun).map (fun p => completions sampleHash p.2) = some [(⟨4000⟩, ⟨3000⟩)]
    ∧ ∀ s tr, run sampleCompletedRun = some (s, tr) →
      completions sampleHash tr = due (sentReports sampleHash tr) (arrivals sampleHash tr)
        ∧ (arrivals sampleHash tr).length ≤ 1 := by
  refine ⟨by decide, ?_⟩
  intro s tr h
  exact completions_eq_due sampleHash h (by decide)

end SwapManager
