import Clboss.SwapMoveProofs

/-! # `Boss::Mod::SwapManager` — where the addresses are

    An address comes out of `newaddr` once and from then on moves between three
    places: the greenthread that carries the response, a swap's row, and the
    address cache.  `step_pendingAddresses` says that a step never doubles one:
    what is held after it is, up to order, PART of what was held before and
    what it was given.  So everything held is part of everything `newaddr` ever
    returned, and the distinctness of the latter is all that is needed. -/

namespace SwapManager

open Bitcoin Ln UniqueTable List

/-- The addresses in swap rows and in the cache. -/
def heldAddresses (db : Db) : List String :=
  db.swaps.rows.filterMap Swap.address ++ db.addrcache

/-- The address carried by the address loop. -/
def AddressLoop.carried : AddressLoop → List String
  | .loading address => [address]
  | _                => []

/-- All addresses the module has its hands on. -/
def pendingAddresses (s : State) : List String := s.addressLoop.carried ++ heldAddresses s.db

/-- The addresses `newaddr` returned. -/
def Event.newaddr : Event → List String
  | .responseNewaddr a => [a]
  | _                  => []

/-! ## The tables -/

/-- The addresses of the swaps, the one of `uuid` first. -/
theorem rowAddresses_perm {t : Table Swap.uuid} {uuid : Uuid} {r : Swap}
    (h : t.get uuid = some r) :
    (t.rows.filterMap Swap.address).Perm
      (r.address.toList ++ (t.delete uuid).rows.filterMap Swap.address) := by
  refine ((Table.rows_perm h).filterMap _).trans (Perm.of_eq ?_)
  cases ha : r.address with
  | none => rw [filterMap_cons_none ha]; rfl
  | some a => rw [filterMap_cons_some ha]; rfl

theorem rowAddresses_delete_sublist (t : Table Swap.uuid) (uuid : Uuid) :
    ((t.delete uuid).rows.filterMap Swap.address).Sublist (t.rows.filterMap Swap.address) :=
  filter_sublist.filterMap _

/-- An update that keeps the address keeps the addresses. -/
theorem rowAddresses_update (t : Table Swap.uuid) (uuid : Uuid) (f : Swap → Swap)
    (hf : ∀ r, (f r).uuid = r.uuid) (ha : ∀ r, (f r).address = r.address) :
    (t.update uuid f hf).rows.filterMap Swap.address = t.rows.filterMap Swap.address := by
  show (t.rows.map _).filterMap Swap.address = _
  rw [filterMap_map]
  refine filterMap_congr ?_
  intro r _
  show Swap.address (if r.uuid = uuid then f r else r) = r.address
  by_cases hu : r.uuid = uuid
  · rw [if_pos hu, ha]
  · rw [if_neg hu]

theorem pendingAddresses_update {s s' : State} {uuid : Uuid} {f : Swap → Swap}
    (hf : ∀ r, (f r).uuid = r.uuid) (ha : ∀ r, (f r).address = r.address)
    (hswaps : s'.db.swaps = s.db.swaps.update uuid f hf)
    (hcache : s'.db.addrcache = s.db.addrcache) (hl : s'.addressLoop = s.addressLoop) :
    pendingAddresses s' = pendingAddresses s := by
  unfold pendingAddresses heldAddresses
  rw [hl, hswaps, hcache, rowAddresses_update s.db.swaps uuid f hf ha]

/-- Giving a swap an address adds at most that one. -/
theorem rowAddresses_giveAddress (t : Table Swap.uuid) (uuid : Uuid) (a : String) :
    ((t.update uuid (Swap.giveAddress a) (Swap.giveAddress_uuid a)).rows.filterMap
      Swap.address).Subperm (a :: t.rows.filterMap Swap.address) := by
  cases hg : t.get uuid with
  | none =>
      rw [Table.update_of_none hg]
      exact (sublist_cons_self ..).subperm
  | some r =>
      have hnew := ((Table.update_rows_perm (Swap.giveAddress_uuid a) hg).filterMap
        Swap.address).subperm
      refine hnew.trans ?_
      -- the row now holds `a`, or is as it was
      have hor : (r.giveAddress a).address = some a ∨ r.giveAddress a = r := by
        unfold Swap.giveAddress
        by_cases hs : r.state = .needsOnchainAddress
        · rw [if_pos hs]; exact Or.inl rfl
        · rw [if_neg hs]; exact Or.inr rfl
      rcases hor with ha | heq
      · rw [filterMap_cons_some ha]
        exact (subperm_cons a).mpr (rowAddresses_delete_sublist t uuid).subperm
      · rw [heq]
        refine (((Table.rows_perm hg).filterMap Swap.address).symm.subperm).trans ?_
        exact (sublist_cons_self ..).subperm

/-- `load_address` gives the row the address and takes no other. -/
theorem pendingAddresses_loadAddress (s : State) (uuid : Uuid) (a : String) :
    (pendingAddresses (loadAddress s uuid a)).Subperm (a :: heldAddresses s.db) := by
  show (heldAddresses _).Subperm _
  exact (subperm_append_right _).mpr (rowAddresses_giveAddress s.db.swaps uuid a)

/-- A cached address and the cache without it. -/
theorem addrcache_perm {cache : List String} {a : String} (h : cache.find? (· ≠ "") = some a) :
    cache.Perm (a :: cache.eraseP (· ≠ "")) := by
  induction cache with
  | nil => exact nomatch h
  | cons x xs ih =>
      by_cases hx : x ≠ ""
      · rw [find?_cons_of_pos (p := fun x => decide (x ≠ "")) (decide_eq_true hx)] at h
        rw [eraseP_cons_of_pos (p := fun x => decide (x ≠ "")) (decide_eq_true hx), Option.some.inj h]
      · have hx' : ¬ decide (x ≠ "") = true := by simpa using hx
        rw [find?_cons_of_neg (p := fun x => decide (x ≠ "")) hx'] at h
        rw [eraseP_cons_of_neg (p := fun x => decide (x ≠ "")) hx']
        exact ((ih h).cons x).trans (Perm.swap ..)

/-- `fail_swap` moves the address from the row to the cache. -/
theorem heldAddresses_failSwap (s : State) (uuid : Uuid) :
    (heldAddresses (failSwap s uuid).1.db).Subperm (heldAddresses s.db) := by
  have hdel := rowAddresses_delete_sublist s.db.swaps uuid
  show ((s.db.swaps.delete uuid).rows.filterMap Swap.address ++ (failSwap s uuid).1.db.addrcache).Subperm _
  cases hg : s.db.swaps.get uuid with
  | none =>
      have hcache : (failSwap s uuid).1.db.addrcache = s.db.addrcache := by
        simp [failSwap, hg]
      rw [hcache]
      exact (hdel.append_right _).subperm
  | some r =>
      cases ha : r.address with
      | none =>
          have hcache : (failSwap s uuid).1.db.addrcache = s.db.addrcache := by
            simp [failSwap, hg, ha]
          rw [hcache]
          exact (hdel.append_right _).subperm
      | some a =>
          by_cases hne : a = ""
          · have hcache : (failSwap s uuid).1.db.addrcache = s.db.addrcache := by
              simp [failSwap, hg, ha, hne]
            rw [hcache]
            exact (hdel.append_right _).subperm
          · have hcache : (failSwap s uuid).1.db.addrcache = s.db.addrcache ++ [a] := by
              simp [failSwap, hg, ha, hne]
            rw [hcache]
            have hperm := (rowAddresses_perm hg).append_right s.db.addrcache
            rw [ha] at hperm
            refine Perm.subperm (Perm.trans ?_ hperm.symm)
            show Perm (_ ++ (s.db.addrcache ++ [a])) (a :: (_ ++ s.db.addrcache))
            rw [← append_assoc]
            exact perm_append_singleton ..

theorem heldAddresses_deleteSwap (db : Db) (uuid : Uuid) :
    (heldAddresses (db.deleteSwap uuid)).Subperm (heldAddresses db) :=
  ((rowAddresses_delete_sublist db.swaps uuid).append_right _).subperm

/-! ## Steps and runs -/

/-- The address loop moves addresses, and makes none. -/
theorem AddressMove.pendingAddresses_le {s s' : State} {out : List Out}
    (m : AddressMove s s' out) : (pendingAddresses s').Subperm (pendingAddresses s) := by
  cases m with
  | cached hl hq ha =>
      refine (pendingAddresses_loadAddress _ _ _).trans (Perm.subperm ?_)
      unfold pendingAddresses
      rw [hl]
      refine Perm.trans ?_ ((addrcache_perm ha).append_left _).symm
      exact perm_middle.symm
  | asked hl hq => unfold pendingAddresses; rw [hl]; exact Subperm.refl _
  | loaded hl hq =>
      unfold pendingAddresses
      rw [hl]
      exact pendingAddresses_loadAddress _ _ _
  | started hl hi => unfold pendingAddresses; rw [hl]; exact Subperm.refl _
  | resumed hl ha =>
      unfold pendingAddresses
      rcases ha with rfl | ⟨rfl, _⟩
      · rw [hl]; exact Subperm.refl _
      · rw [hl]; exact Subperm.refl _

/-- The invoice loop at most moves one from a row to the cache. -/
theorem InvoiceMove.pendingAddresses_le {s s' : State} {out : List Out}
    (m : InvoiceMove s s' out) : (pendingAddresses s').Subperm (pendingAddresses s) := by
  cases m with
  | solicited hl hq => exact Subperm.refl _
  | exhausted hl hq => exact Subperm.refl _
  | accepted hl => exact Subperm.refl _
  | orphaned hl hq hr => exact Subperm.refl _
  | created hl hq hr =>
      refine Perm.subperm (Perm.of_eq ?_)
      exact pendingAddresses_update (Swap.await_uuid _ _)
        (fun _ => rfl) rfl rfl rfl
  | paid hl hi => exact Subperm.refl _
  | failed hl ha => exact (subperm_append_left _).mpr (heldAddresses_failSwap s _)
  | requeued hl hr =>
      refine Perm.subperm (Perm.of_eq ?_)
      exact pendingAddresses_update (Swap.reduce_uuid _)
        (fun _ => rfl) rfl rfl rfl
  | next hl hi => exact Subperm.refl _

/-- So do the other greenthreads. -/
theorem TaskMove.pendingAddresses_le {s s' : State} {t : Task} {out : List Out}
    (m : TaskMove s t s' out) : (pendingAddresses s').Subperm (pendingAddresses s) := by
  cases m with
  | loadAddress hl =>
      unfold pendingAddresses
      rcases hl with rfl | ⟨hidle, rfl, _⟩
      · exact Subperm.refl _
      · rw [hidle]; exact Subperm.refl _
  | loadInvoice hl => exact Subperm.refl _
  | checkPayments => exact Subperm.refl _
  | startAddress hl =>
      unfold pendingAddresses
      rcases hl with rfl | ⟨hidle, rfl, _⟩
      · exact Subperm.refl _
      · rw [hidle]; exact Subperm.refl _
  | startInvoice hl => exact Subperm.refl _
  | paidSecond hc => exact Subperm.refl _
  | paidFirst hc => exact Subperm.refl _
  | payUnknown => exact Subperm.refl _
  | payFailed hr hh => exact Subperm.refl _
  | failed ha => exact (subperm_append_left _).mpr (heldAddresses_failSwap s _)
  | requeued hr =>
      refine Perm.subperm (Perm.of_eq ?_)
      exact pendingAddresses_update (Swap.reduce_uuid _)
        (fun _ => rfl) rfl rfl rfl
  | fundsIgnored ht => exact Subperm.refl _
  | fundsFound hr hh ha => exact (subperm_append_left _).mpr (heldAddresses_deleteSwap s.db _)
  | seenSecond hc => exact Subperm.refl _
  | seenFirst hc => exact Subperm.refl _
  | block height => exact Subperm.refl _

/-- **STEP**: only a response of `newaddr` adds an address. -/
theorem step_pendingAddresses {s s' : State} {e : Event} {out : List Out}
    (h : step s e = some (s', out)) :
    (pendingAddresses s').Subperm (e.newaddr ++ pendingAddresses s) := by
  have hle : ∀ {l : List String}, l.Subperm (pendingAddresses s) →
      l.Subperm (e.newaddr ++ pendingAddresses s) :=
    fun hl => hl.trans (sublist_append_right _ _).subperm
  cases step_move h with
  | told ht => exact hle (Subperm.refl _)
  | newaddr hl =>
      unfold pendingAddresses
      rw [hl]
      exact Subperm.refl _
  | quoted hl => exact hle (Subperm.refl _)
  | refused hl => exact hle (Subperm.refl _)
  | agreed hl => exact hle (Subperm.refl _)
  | requested hn =>
      refine hle ?_
      show (s.addressLoop.carried ++ ((s.db.swaps.rows ++ [_]).filterMap Swap.address
        ++ s.db.addrcache)).Subperm _
      rw [filterMap_append, filterMap_cons_none rfl, filterMap_nil, append_nil]
      exact Subperm.refl _
  | address m => exact hle m.pendingAddresses_le
  | invoice m => exact hle m.pendingAddresses_le
  | task ht m => exact hle m.pendingAddresses_le
  | restart =>
      refine hle (Sublist.subperm ?_)
      show Sublist ([] ++ (_ ++ s.db.addrcache.filter _)) (s.addressLoop.carried ++ (_ ++ _))
      exact (nil_sublist _).append (filter_sublist.append_left _)

/-- **RUN**: whatever is held was returned by `newaddr`, and no more often. -/
theorem run_pendingAddresses {es : List Event} {s : State} {tr : List Out}
    (h : run es = some (s, tr)) :
    (pendingAddresses s).Subperm (es.flatMap Event.newaddr) := by
  refine Machine.run_invariant (P := fun _ _ => True)
    (I := fun es _ s => (pendingAddresses s).Subperm (es.flatMap Event.newaddr))
    (Subperm.refl _) ?_ (Machine.along_true _ _) h
  intro es tr s e s' out hI _ hstep
  rw [flatMap_append, flatMap_singleton]
  refine (step_pendingAddresses hstep).trans ?_
  refine ((subperm_append_left _).mpr hI).trans (Perm.subperm ?_)
  exact perm_append_comm

/-- **HEADLINE**: in every reachable state the addresses in swap rows and in
    the cache are pairwise distinct and non-empty, as long as `newaddr` returns
    non-empty addresses and none of them twice. -/
theorem heldAddresses_nodup {es : List Event} {s : State} {tr : List Out}
    (h : run es = some (s, tr)) (hfresh : (es.flatMap Event.newaddr).Nodup)
    (hne : "" ∉ es.flatMap Event.newaddr) :
    (heldAddresses s.db).Nodup ∧ "" ∉ heldAddresses s.db := by
  have hsub : (heldAddresses s.db).Subperm (es.flatMap Event.newaddr) :=
    (sublist_append_right _ _).subperm.trans (run_pendingAddresses h)
  refine ⟨?_, fun hmem => hne (hsub.subset hmem)⟩
  obtain ⟨l, hperm, hsubl⟩ := hsub
  exact (hperm.nodup_iff).mp (hfresh.sublist hsubl)

/-- Two swaps are requested; the first takes a fresh address and the second
    asks for another. -/
def sampleAddressRun : List Event :=
  [.task 0 0, .swapRequest ⟨1⟩ ⟨1000⟩ ⟨4000⟩, .swapRequest ⟨2⟩ ⟨1000⟩ ⟨4000⟩, .task 1 0,
    .address, .responseNewaddr "bc1pa", .address, .address, .address, .address,
    .responseNewaddr "bc1pb", .address]

theorem heldAddresses_nodup_sampleAddressRun :
    (run sampleAddressRun).map (fun p => heldAddresses p.1.db) = some ["bc1pa", "bc1pb"]
    ∧ ∀ s tr, run sampleAddressRun = some (s, tr) →
      (heldAddresses s.db).Nodup ∧ "" ∉ heldAddresses s.db := by
  refine ⟨by decide, ?_⟩
  intro s tr h
  exact heldAddresses_nodup h (by decide) (by decide)

end SwapManager
