import Clboss.SwapResponseProofs
import Clboss.SwapperProofs

/-! # `Boss::ModG::Swapper` and `Boss::Mod::SwapManager` on one database

    A swap is known in two tables: the swapper's row names it and the
    `SwapManager` has a row of it.  Neither module sees the other's table.  They
    share TRANSACTIONS: the swapper's goes along with its request and is
    committed by the `SwapManager`, the `SwapManager`'s goes along with its
    response and every swapper writes to it before it is committed.

    Here both machines run on one database that has one open transaction at a
    time.  What is committed and what is open are kept apart, so that the process
    may die at any point and lose exactly what is open.  `linked` says that the
    two tables agree whatever happens. -/

namespace SwapManager

open Bitcoin Ln UniqueTable

/-! ## Which steps run a transaction -/

/-- The step begins with `db.transact()`. -/
def transacts (s : State) : Event → Bool
  | .address =>
      match s.addressLoop with
      | .fetching | .loading _ => true
      | _                      => false
  | .invoice _ =>
      match s.invoiceLoop with
      | .soliciting | .creating _ _ | .reducing _ => true
      | _                                         => false
  | .task n _ =>
      match s.tasks[n]? with
      | some .startAddress | some .startInvoice => false
      | _                                       => true
  | _ => false

/-- The swap that the outputs of a step respond to. -/
def responded (out : List Out) : Option Uuid := out.findSome? Out.respondsTo

/-- What a step leaves of the swaps: it responds to none, or to one and deletes it. -/
inductive Swaps (db db' : Db) (out : List Out) : Prop where
  | kept (hnone : responded out = none)
  | ended {uuid : Uuid} (hsome : responded out = some uuid)
      (hswaps : db'.swaps = db.swaps.delete uuid)

theorem Swaps.map {db db' : Db} {α : Type} {f : α → Out} (l : List α)
    (hf : ∀ a, (f a).respondsTo = none) : Swaps db db' (l.map f) := by
  refine .kept (List.findSome?_eq_none_iff.mpr fun x hx => ?_)
  obtain ⟨a, _, rfl⟩ := List.mem_map.mp hx
  exact hf a

theorem AddressMove.swaps {s s' : State} {out : List Out} (m : AddressMove s s' out) :
    Swaps s.db s'.db out := by
  cases m with
  | cached => exact .kept rfl
  | asked => exact .kept rfl
  | loaded => exact .kept rfl
  | started => exact .kept rfl
  | resumed => exact .kept rfl

theorem InvoiceMove.swaps {s s' : State} {out : List Out} (m : InvoiceMove s s' out) :
    Swaps s.db s'.db out := by
  cases m with
  | solicited => exact .kept rfl
  | exhausted => exact .kept rfl
  | accepted => exact .kept rfl
  | orphaned => exact .kept rfl
  | created => exact .kept rfl
  | paid => exact .kept rfl
  | failed => exact .ended rfl rfl
  | requeued => exact .kept rfl
  | next => exact .kept rfl

theorem TaskMove.swaps {s s' : State} {t : Task} {out : List Out} (m : TaskMove s t s' out) :
    Swaps s.db s'.db out := by
  cases m with
  | loadAddress => exact .kept rfl
  | loadInvoice => exact .kept rfl
  | checkPayments => exact .map _ (fun _ => rfl)
  | startAddress => exact .kept rfl
  | startInvoice => exact .kept rfl
  | paidSecond => exact .kept rfl
  | paidFirst => exact .kept rfl
  | payUnknown => exact .kept rfl
  | payFailed => exact .kept rfl
  | failed => exact .ended rfl rfl
  | requeued => exact .kept rfl
  | fundsIgnored => exact .kept rfl
  | fundsFound => exact .ended rfl rfl
  | seenSecond => exact .kept rfl
  | seenFirst => exact .kept rfl
  | block height => exact .map _ (fun _ => rfl)

/-- A step ends at most one swap. -/
theorem step_swaps {s s' : State} {e : Event} {out : List Out} (hs : step s e = some (s', out)) :
    Swaps s.db s'.db out := by
  cases step_move hs with
  | told => exact .kept rfl
  | newaddr => exact .kept rfl
  | quoted => exact .kept rfl
  | refused => exact .kept rfl
  | agreed => exact .kept rfl
  | requested => exact .kept rfl
  | address m => exact m.swaps
  | invoice m => exact m.swaps
  | task _ m => exact m.swaps
  | restart => exact .kept rfl

/-- Without a response every swap stays, and without a request none comes. -/
theorem step_kept {s s' : State} {e : Event} {out : List Out} (hs : step s e = some (s', out))
    (hreq : e.requestedId = none) (hnone : responded out = none) (uuid : Uuid) :
    s'.db.swaps.get uuid = none ↔ s.db.swaps.get uuid = none := by
  have hzero : responses uuid out = 0 := by
    refine List.countP_eq_zero.mpr fun o ho => ?_
    rw [List.findSome?_eq_none_iff.mp hnone o ho]
    simp
  rcases step_live hs with h | ⟨k, _, _, _, rfl⟩
  · have hlive := h uuid
    rw [hzero, hreq] at hlive
    have heq : live uuid s'.db = live uuid s.db := by
      simp only [reduceCtorEq, if_false] at hlive
      omega
    have hpos : 0 < live uuid s'.db ↔ s'.db.swaps.get uuid ≠ none := live_pos
    rw [heq, live_pos] at hpos
    exact not_iff_not.mp hpos.symm
  · cases hnone

section Request

variable {s : State} {uuid : Uuid} (minAmount maxAmount : Amount)

theorem get_onSwapRequest_self (hnew : s.db.swaps.get uuid = none) :
    (onSwapRequest s uuid minAmount maxAmount).db.swaps.get uuid ≠ none := by
  unfold onSwapRequest
  rw [dif_pos hnew]
  have hself := Table.get_insert_self s.db.swaps
    ⟨uuid, maxAmount.toMsat, minAmount.toMsat, .needsOnchainAddress, none⟩ hnew
  intro hnone
  cases hnone.symm.trans hself

theorem get_onSwapRequest_ne (hnew : s.db.swaps.get uuid = none) (u : Uuid) (hne : u ≠ uuid) :
    (onSwapRequest s uuid minAmount maxAmount).db.swaps.get u = s.db.swaps.get u := by
  unfold onSwapRequest
  rw [dif_pos hnew]
  exact Table.get_insert_ne s.db.swaps
    ⟨uuid, maxAmount.toMsat, minAmount.toMsat, .needsOnchainAddress, none⟩ hnew hne

end Request

/-! ## A step without a transaction leaves the tables and responds to none -/

section Transact

variable {s s' : State} {out : List Out}

theorem AddressMove.quiet (m : AddressMove s s' out) (h : transacts s .address = false) :
    s'.db = s.db ∧ responded out = none := by
  unfold transacts at h
  cases m with
  | cached hl =>
      rw [hl] at h
      cases h
  | asked => exact ⟨rfl, rfl⟩
  | loaded hl =>
      rw [hl] at h
      cases h
  | started => exact ⟨rfl, rfl⟩
  | resumed => exact ⟨rfl, rfl⟩

theorem InvoiceMove.quiet {d : Draws} (m : InvoiceMove s s' out)
    (h : transacts s (.invoice d) = false) : s'.db = s.db ∧ responded out = none := by
  unfold transacts at h
  cases m with
  | solicited => exact ⟨rfl, rfl⟩
  | exhausted => exact ⟨rfl, rfl⟩
  | accepted => exact ⟨rfl, rfl⟩
  | orphaned => exact ⟨rfl, rfl⟩
  | created hl =>
      rw [hl] at h
      cases h
  | paid => exact ⟨rfl, rfl⟩
  | failed hl =>
      rw [hl] at h
      cases h
  | requeued hl =>
      rw [hl] at h
      cases h
  | next => exact ⟨rfl, rfl⟩

theorem TaskMove.quiet {t : Task} (m : TaskMove s t s' out)
    (h : t = .startAddress ∨ t = .startInvoice) : s'.db = s.db ∧ responded out = none := by
  rcases h with rfl | rfl
  · cases m with
    | startAddress => exact ⟨rfl, rfl⟩
  · cases m with
    | startInvoice => exact ⟨rfl, rfl⟩

theorem quiet_of_not_transacts {e : Event} (hs : step s e = some (s', out))
    (hreq : e.requestedId = none) (he : e ≠ .restart) (h : transacts s e = false) :
    s'.db = s.db ∧ responded out = none := by
  cases step_move hs with
  | told => exact ⟨rfl, rfl⟩
  | newaddr => exact ⟨rfl, rfl⟩
  | quoted => exact ⟨rfl, rfl⟩
  | refused => exact ⟨rfl, rfl⟩
  | agreed => exact ⟨rfl, rfl⟩
  | requested => cases hreq
  | address m => exact m.quiet h
  | invoice m => exact m.quiet h
  | task ht m =>
      refine m.quiet ?_
      simp only [transacts, ht] at h
      split at h
      next heq => exact .inl (Option.some.inj heq)
      next heq => exact .inr (Option.some.inj heq)
      · cases h
  | restart => exact absurd rfl he

end Transact

end SwapManager

namespace SwapLink

open SwapManager (Uuid)
open Swapper (Row)

/-! ## The modules on one database -/

/-- The modules that are a `Swapper`. -/
inductive Client where
  | needsOnchainFundsSwapper
  | nodeBalanceSwapper
deriving DecidableEq

namespace Client

def all : List Client := [.needsOnchainFundsSwapper, .nodeBalanceSwapper]

theorem mem_all (c : Client) : c ∈ all := by
  cases c with
  | needsOnchainFundsSwapper => exact List.mem_cons_self
  | nodeBalanceSwapper => exact List.mem_cons_of_mem _ List.mem_cons_self

/-- The key of its row. -/
def name : Client → String
  | .needsOnchainFundsSwapper => "NeedsOnchainFundsSwapper"
  | .nodeBalanceSwapper       => "NodeBalanceSwapper"

end Client

/-- The open transaction of the `SwapManager` that ends a swap, with the tables as it
    leaves them. -/
structure Ending where
  uuid : Uuid
  db   : SwapManager.Db

/-- The modules.  `manager.db` and the clients' rows are what is COMMITTED; what is open
    is `ending`, and the `tx` of the clients. -/
structure State where
  manager : SwapManager.State
  clients : Client → Swapper.State
  ending  : Option Ending

/-- No transaction is open. -/
def State.idle (s : State) : Bool :=
  s.ending.isNone && Client.all.all (fun c => (s.clients c).tx.isNone)

/-- The start of the process on the given tables. -/
def State.start (db : SwapManager.Db) (rows : Client → Row) : State where
  manager := SwapManager.boot db
  clients := fun c => Swapper.State.start (rows c)
  ending  := none

/-- What can happen. -/
inductive Event where
  /-- A swapper does something on its own. -/
  | client (c : Client) (e : Swapper.Event)
  /-- The `SwapManager` does something, other than about a request. -/
  | manager (e : SwapManager.Event)
  /-- `on_swap_request`, for the request of the swapper. -/
  | swapRequest (c : Client)
  /-- `on_swap_response` of the swapper. -/
  | swapResponse (c : Client)
  /-- Every swapper has seen the response; the `SwapManager` commits. -/
  | commit
  /-- Whoever holds the open transaction throws: it is rolled back. -/
  | abort
  /-- The process dies, and is started again. -/
  | restart

/-- What shows. -/
inductive Out where
  | client (c : Client) (o : Swapper.Out)
  /-- The end of the swap is committed. -/
  | ended (uuid : Uuid)
deriving DecidableEq

/-- What a swapper does on its own; the rest it does in a transaction of others. -/
def own : Swapper.Event → Bool
  | .swapResponse _ | .commit | .rollback => false
  | _                                     => true

/-- It begins with `db.transact()`. -/
def transacts : Swapper.Event → Bool
  | .onBlock | .continueSwap _ _ _ => true
  | _                              => false

/-- A step of one swapper. -/
def State.hand (s : State) (c : Client) (e : Swapper.Event) : Option (State × List Out) :=
  (Swapper.step (s.clients c) e).map fun p =>
    ({ s with clients := Function.update s.clients c p.1 }, p.2.map (.client c))

/-- A step of the `SwapManager`.  Where it responds, what it wrote is not committed yet. -/
def managerStep (s : State) (e : SwapManager.Event) : Option (State × List Out) :=
  if SwapManager.transacts s.manager e && !s.idle then none
  else (SwapManager.step s.manager e).map fun p =>
    match SwapManager.responded p.2 with
    | none      => ({ s with manager := p.1 }, [])
    | some uuid =>
        ({ s with manager := { p.1 with db := s.manager.db }, ending := some ⟨uuid, p.1.db⟩ }, [])

/-- `on_swap_request`: a duplicate is rolled back. -/
def onSwapRequest (s : State) (c : Client) : Option (State × List Out) :=
  match (s.clients c).tx with
  | some (.request uuid _ amount true) =>
      if (s.manager.db.swaps.get uuid).isSome then s.hand c .rollback
      else State.hand { s with
        manager := SwapManager.onSwapRequest s.manager uuid Swapper.minAmount amount } c .commit
  | _ => none

/-- The swapper has seen the response of the open transaction. -/
def heard (x : Swapper.State) : Bool :=
  match x.tx with
  | some (.response _ _) => true
  | _                    => false

/-- What the commit leaves of a swapper. -/
def settle (x : Swapper.State) : Swapper.State × List Swapper.Out :=
  (Swapper.step x .commit).getD (x, [])

/-- The commit of a response. -/
def commit (s : State) : Option (State × List Out) :=
  match s.ending with
  | none   => none
  | some p =>
      if Client.all.all (fun c => heard (s.clients c)) then
        some ({ manager := { s.manager with db := p.db }
                clients := fun c => (settle (s.clients c)).1
                ending  := none },
          .ended p.uuid :: Client.all.flatMap fun c => (settle (s.clients c)).2.map (.client c))
      else none

def step (s : State) : Event → Option (State × List Out)
  | .client c e =>
      if own e && (!transacts e || s.idle) then s.hand c e else none
  | .manager e =>
      match e with
      | .restart | .swapRequest _ _ _ => none
      | e                             => managerStep s e
  | .swapRequest c => onSwapRequest s c
  | .swapResponse c =>
      match s.ending with
      | none   => none
      | some p => s.hand c (.swapResponse p.uuid)
  | .commit => commit s
  | .abort =>
      if s.idle then none
      else some ({ s with
        clients := fun c => { s.clients c with tx := none }
        ending := none }, [])
  | .restart => some (State.start s.manager.db (fun c => (s.clients c).row), [])

/-- A life on a fresh database, through any number of crashes. -/
def run (es : List Event) : Option (State × List Out) :=
  Machine.run step (State.start .empty (fun c => Row.init c.name)) es

/-! ## What is promised -/

/-- The end of the swap is committed, and no later request is. -/
def Ended (uuid : Uuid) (tr : List Out) : Prop :=
  Machine.Since (· = .ended uuid) (fun o => ∃ c height, o = .client c (.requested uuid height)) tr

/-- Every swap that a row names has a row of the `SwapManager`. -/
def Referenced (s : State) : Prop :=
  ∀ c uuid, (s.clients c).row.swapUuid = some uuid → s.manager.db.swaps.get uuid ≠ none

/-- The `forget_after` rule lets the swapper drop the swap it names. -/
def Forgets (s : State) (c : Client) : Prop :=
  ∃ height, (s.clients c).blockheight = some height ∧ (s.clients c).row.forgetAfter < height

/-! ## What a step does -/

/-- What a step can do to the tables and the open transactions. -/
inductive Move (s : State) : State → List Out → Prop where
  | client {c : Client} {e : Swapper.Event} {x : Swapper.State} {out : List Swapper.Out}
      (hown : own e = true) (hfree : transacts e = true → s.idle = true)
      (hs : Swapper.step (s.clients c) e = some (x, out)) :
      Move s { s with clients := Function.update s.clients c x } (out.map (.client c))
  | manager {m : SwapManager.State}
      (hkept : ∀ uuid, m.db.swaps.get uuid = none ↔ s.manager.db.swaps.get uuid = none)
      (hdb : s.idle = false → m.db = s.manager.db) : Move s { s with manager := m } []
  | ending {m : SwapManager.State} {p : Ending} (hidle : s.idle = true)
      (hdb : m.db = s.manager.db) (hp : p.db.swaps = s.manager.db.swaps.delete p.uuid) :
      Move s { s with manager := m, ending := some p } []
  | duplicate {c : Client} :
      Move s { s with
        clients := Function.update s.clients c { s.clients c with tx := none } } []
  | requested {c : Client} {uuid : Uuid} {height : UInt32} {amount : Ln.Amount}
      (htx : (s.clients c).tx = some (.request uuid height amount true))
      (hnew : s.manager.db.swaps.get uuid = none) :
      Move s { s with
        manager := SwapManager.onSwapRequest s.manager uuid Swapper.minAmount amount
        clients := Function.update s.clients c { s.clients c with
          row := (s.clients c).row.request uuid height, tx := none } }
        [.client c (.requested uuid height)]
  | heard {c : Client} {p : Ending} (hp : s.ending = some p) :
      Move s { s with
        clients := Function.update s.clients c { s.clients c with
          tx := some (.response p.uuid (s.clients c).blockheight) } } []
  | ended {p : Ending} (hp : s.ending = some p)
      (hheard : ∀ c, ∃ uuid height, (s.clients c).tx = some (.response uuid height)) :
      Move s
        { manager := { s.manager with db := p.db }
          clients := fun c => (settle (s.clients c)).1
          ending  := none }
        (.ended p.uuid :: Client.all.flatMap fun c => (settle (s.clients c)).2.map (.client c))
  | aborted :
      Move s { s with clients := fun c => { s.clients c with tx := none }, ending := none } []
  | restart : Move s (State.start s.manager.db (fun c => (s.clients c).row)) []

theorem hand_eq {s s' : State} {c : Client} {e : Swapper.Event} {out : List Out}
    (h : s.hand c e = some (s', out)) :
    ∃ x o, Swapper.step (s.clients c) e = some (x, o)
      ∧ s' = { s with clients := Function.update s.clients c x } ∧ out = o.map (.client c) := by
  obtain ⟨⟨x, o⟩, hx, heq⟩ := Option.map_eq_some_iff.mp h
  cases heq
  exact ⟨x, o, hx, rfl, rfl⟩

theorem managerStep_move {s s' : State} {e : SwapManager.Event} {out : List Out}
    (hreq : e.requestedId = none) (he : e ≠ .restart) (h : managerStep s e = some (s', out)) :
    Move s s' out := by
  unfold managerStep at h
  cases hbusy : SwapManager.transacts s.manager e && !s.idle with
  | true =>
      rw [hbusy] at h
      cases h
  | false =>
      rw [hbusy] at h
      obtain ⟨⟨m, o⟩, hm, heq⟩ := Option.map_eq_some_iff.mp h
      dsimp only at heq
      have hquiet : s.idle = false →
          m.db = s.manager.db ∧ SwapManager.responded o = none := by
        intro hidle
        rw [hidle, Bool.not_false, Bool.and_true] at hbusy
        exact SwapManager.quiet_of_not_transacts hm hreq he hbusy
      cases hr : SwapManager.responded o with
      | none =>
          rw [hr] at heq
          cases heq
          exact .manager (SwapManager.step_kept hm hreq hr) (fun hidle => (hquiet hidle).1)
      | some uuid =>
          rw [hr] at heq
          cases heq
          refine .ending ?_ rfl ?_
          · cases hidle : s.idle with
            | true => rfl
            | false => cases (hquiet hidle).2.symm.trans hr
          · cases SwapManager.step_swaps hm with
            | kept hnone => cases hnone.symm.trans hr
            | ended hsome hswaps =>
                cases hsome.symm.trans hr
                exact hswaps

theorem onSwapRequest_move {s s' : State} {c : Client} {out : List Out}
    (h : onSwapRequest s c = some (s', out)) : Move s s' out := by
  unfold onSwapRequest at h
  split at h
  next uuid height amount htx =>
    by_cases hdup : (s.manager.db.swaps.get uuid).isSome
    · rw [if_pos hdup] at h
      obtain ⟨x, o, hx, rfl, rfl⟩ := hand_eq h
      simp only [Swapper.step, htx] at hx
      cases hx
      exact .duplicate
    · rw [if_neg hdup] at h
      obtain ⟨x, o, hx, rfl, rfl⟩ := hand_eq h
      simp only [Swapper.step, htx, Swapper.commit] at hx
      cases hx
      exact .requested htx (by simpa using hdup)
  · cases h

theorem commit_move {s s' : State} {out : List Out} (h : commit s = some (s', out)) :
    Move s s' out := by
  unfold commit at h
  cases hp : s.ending with
  | none =>
      rw [hp] at h
      cases h
  | some p =>
      rw [hp] at h
      dsimp only at h
      by_cases hall : Client.all.all (fun c => heard (s.clients c)) = true
      · rw [if_pos hall] at h
        cases h
        refine .ended hp fun c => ?_
        have hc := List.all_eq_true.mp hall c (Client.mem_all c)
        unfold heard at hc
        split at hc
        next uuid height htx => exact ⟨uuid, height, htx⟩
        · cases hc
      · rw [if_neg hall] at h
        cases h

/-- The step function makes exactly these moves. -/
theorem step_move {s s' : State} {e : Event} {out : List Out} (h : step s e = some (s', out)) :
    Move s s' out := by
  cases e with
  | client c e =>
      simp only [step] at h
      split at h
      next hown =>
        obtain ⟨x, o, hx, rfl, rfl⟩ := hand_eq h
        obtain ⟨hown, hfree⟩ := Bool.and_eq_true_iff.mp hown
        refine .client hown (fun ht => ?_) hx
        rwa [ht, Bool.not_true, Bool.false_or] at hfree
      · cases h
  | manager e =>
      cases e with
      | restart => cases h
      | swapRequest uuid minAmount maxAmount => cases h
      | _ => exact managerStep_move rfl (by simp) h
  | swapRequest c => exact onSwapRequest_move h
  | swapResponse c =>
      simp only [step] at h
      split at h
      · cases h
      next p hp =>
        obtain ⟨x, o, hx, rfl, rfl⟩ := hand_eq h
        simp only [Swapper.step] at hx
        split at hx
        · cases hx
          exact .heard hp
        · cases hx
  | commit => exact commit_move h
  | abort =>
      simp only [step] at h
      split at h
      · cases h
      · cases h
        exact .aborted
  | restart =>
      cases h
      exact .restart

/-! ## One swapper -/

section Client

variable {x x' : Swapper.State} {e : Swapper.Event} {out : List Swapper.Out}

/-- A request is only open while the row names no swap. -/
def Fresh (x : Swapper.State) : Prop :=
  ∀ uuid height amount raised,
    x.tx = some (.request uuid height amount raised) → x.row.swapUuid = none

/-- Nothing of the swapper is open but the response to the swap. -/
def Hears (uuid : Uuid) (x : Swapper.State) : Prop :=
  x.tx = none ∨ ∃ height, x.tx = some (.response uuid height)

theorem fresh_none (h : x.tx = none) : Fresh x := by
  intro uuid height amount raised htx
  cases h.symm.trans htx

theorem fresh_step (hf : Fresh x) (h : Swapper.step x e = some (x', out)) : Fresh x' := by
  cases Swapper.step_move h with
  | idle hrow _ htx =>
      intro uuid height amount raised hreq
      rw [hrow]
      exact hf uuid height amount raised (htx ▸ hreq)
  | block hrow _ htx =>
      intro uuid height amount raised hreq
      rw [hrow]
      exact hf uuid height amount raised (htx ▸ hreq)
  | begun hfree _ hrow =>
      intro _ _ _ _ _
      rw [hrow]
      exact hfree.1
  | raised htx =>
      intro _ _ _ _ _
      exact hf _ _ _ _ htx
  | heard =>
      intro _ _ _ _ hreq
      cases hreq
  | delayed _ _ _ _ htx => exact fresh_none htx
  | requested => exact fresh_none rfl
  | answered => exact fresh_none rfl
  | closed => exact fresh_none rfl
  | forgot _ _ _ _ htx => exact fresh_none htx

/-- On its own a swapper drops a swap only by the `forget_after` rule. -/
theorem own_row (hown : own e = true) (h : Swapper.step x e = some (x', out)) :
    x'.row.swapUuid = x.row.swapUuid
      ∨ ∃ uuid height, x.row.swapUuid = some uuid ∧ x.blockheight = some height
        ∧ x.row.forgetAfter < height ∧ x'.row.swapUuid = none ∧ out = [.forgot uuid] := by
  cases Swapper.step_move h with
  | idle hrow => exact .inl (by rw [hrow])
  | block hrow => exact .inl (by rw [hrow])
  | begun _ _ hrow => exact .inl (by rw [hrow])
  | delayed _ _ hrow =>
      left
      rw [hrow]
      rfl
  | raised => exact .inl rfl
  | heard => cases hown
  | requested => cases hown
  | answered => cases hown
  | closed => exact .inl rfl
  | @forgot _ height hold hnow hrow =>
      have hnone : x'.row.swapUuid = none := by
        rw [hrow, Row.forget, if_pos hold]
      cases huuid : x.row.swapUuid with
      | none => exact .inl hnone
      | some uuid => exact .inr ⟨uuid, height, rfl, hnow, hold, hnone, rfl⟩

/-- While it may not begin a transaction, it stays with what it has heard. -/
theorem own_hears {uuid : Uuid} (hown : own e = true) (hno : transacts e = false)
    (hh : Hears uuid x) (h : Swapper.step x e = some (x', out)) : Hears uuid x' := by
  cases Swapper.step_move h with
  | idle _ _ htx =>
      unfold Hears
      rwa [htx]
  | block _ _ htx =>
      unfold Hears
      rwa [htx]
  | begun => cases hno
  | delayed _ _ _ _ htx => exact .inl htx
  | raised htx =>
      rcases hh with hh | ⟨height, hh⟩
      · cases hh.symm.trans htx
      · cases hh.symm.trans htx
  | heard => cases hown
  | requested => cases hown
  | answered => cases hown
  | closed => exact .inl rfl
  | forgot _ _ _ _ htx => exact .inl htx

/-- The commit of a response. -/
theorem settle_row {uuid : Uuid} {height : Option UInt32}
    (htx : x.tx = some (.response uuid height)) :
    (settle x).1.tx = none ∧ (settle x).1.row = x.row.respond uuid height := by
  have hs : settle x = ({ x with row := x.row.respond uuid height, tx := none },
      if x.row.swapUuid = some uuid then [.answered uuid (x.row.bump height)] else []) := by
    unfold settle
    simp only [Swapper.step, htx, Swapper.commit, Option.getD_some]
  rw [hs]
  exact ⟨rfl, rfl⟩

/-- The answered swap is not named any more, and no other is dropped. -/
theorem respond_swapUuid (r : Row) (uuid : Uuid) (height : Option UInt32) (u : Uuid) :
    (r.respond uuid height).swapUuid = some u ↔ r.swapUuid = some u ∧ u ≠ uuid := by
  unfold Row.respond
  split_ifs with h
  · constructor
    · intro hu
      cases hu
    · rintro ⟨hu, hne⟩
      exact absurd (Option.some.inj (hu.symm.trans h)) hne
  · constructor
    · intro hu
      refine ⟨hu, ?_⟩
      rintro rfl
      exact h hu
    · exact And.left

end Client

/-! ## Runs -/

/-- The invariant. -/
structure Linked (tr : List Out) (s : State) : Prop where
  named  : Referenced s
  fresh  : ∀ c, Fresh (s.clients c)
  /-- What an ending has left, while the swappers have only its response open. -/
  ending : ∀ p, s.ending = some p →
    p.db.swaps = s.manager.db.swaps.delete p.uuid ∧ ∀ c, Hears p.uuid (s.clients c)
  gone   : ∀ uuid, Ended uuid tr → s.manager.db.swaps.get uuid = none

theorem linked_start : Linked [] (State.start .empty (fun c => Row.init c.name)) where
  named  := fun _ _ h => by cases h
  fresh  := fun _ => fresh_none rfl
  ending := fun _ h => by cases h
  gone   := fun _ h => absurd h Machine.not_since_nil

theorem busy_of_ending {s : State} {p : Ending} (h : s.ending = some p) : s.idle = false := by
  unfold State.idle
  rw [h]
  rfl

theorem tx_of_idle {s : State} (h : s.idle = true) (c : Client) : (s.clients c).tx = none := by
  have hall := List.all_eq_true.mp (Bool.and_eq_true_iff.mp h).2 c (Client.mem_all c)
  exact Option.isNone_iff_eq_none.mp hall

variable {tr : List Out} {s : State}

/-- A swap whose end does not show has ended before. -/
theorem Linked.still {out : List Out} {uuid : Uuid} (hl : Linked tr s)
    (hquiet : .ended uuid ∉ out) (h : Ended uuid (tr ++ out)) :
    s.manager.db.swaps.get uuid = none := by
  rcases Machine.since_append h with ⟨l₁, o, l₂, rfl, rfl, _⟩ | ⟨h, _⟩
  · exact absurd (List.mem_append_right _ List.mem_cons_self) hquiet
  · exact hl.gone uuid h

/-- What holds of every swapper and of the one that has moved. -/
theorem forall_update {P : Swapper.State → Prop} {clients : Client → Swapper.State} {c : Client}
    {x : Swapper.State} (hx : P x) (h : ∀ c, P (clients c)) (c' : Client) :
    P (Function.update clients c x c') :=
  (Function.forall_update_iff clients (fun _ y => P y)).mpr ⟨hx, fun c' _ => h c'⟩ c'

theorem linked_client {c : Client} {e : Swapper.Event} {x : Swapper.State}
    {out : List Swapper.Out} (hl : Linked tr s) (hown : own e = true)
    (hfree : transacts e = true → s.idle = true)
    (hs : Swapper.step (s.clients c) e = some (x, out)) :
    Linked (tr ++ out.map (.client c)) { s with clients := Function.update s.clients c x } where
  named  := by
    intro c' uuid
    refine forall_update (P := fun y => y.row.swapUuid = some uuid → _) ?_
      (fun c => hl.named c uuid) c'
    intro hx
    rcases own_row hown hs with heq | ⟨_, _, _, _, _, hnone, _⟩
    · exact hl.named c uuid (heq ▸ hx)
    · cases hnone.symm.trans hx
  fresh  := forall_update (fresh_step (hl.fresh c) hs) hl.fresh
  ending := by
    intro p hp
    obtain ⟨hdb, hhears⟩ := hl.ending p hp
    refine ⟨hdb, forall_update (own_hears hown ?_ (hhears c) hs) hhears⟩
    cases ht : transacts e with
    | false => rfl
    | true => cases (hfree ht).symm.trans (busy_of_ending hp)
  gone   := by
    intro uuid h
    refine hl.still (fun hu => ?_) h
    obtain ⟨_, _, ho⟩ := List.mem_map.mp hu
    cases ho

theorem linked_requested {c : Client} {uuid : Uuid} {height : UInt32} {amount : Ln.Amount}
    (hl : Linked tr s) (htx : (s.clients c).tx = some (.request uuid height amount true))
    (hnew : s.manager.db.swaps.get uuid = none) :
    Linked (tr ++ [.client c (.requested uuid height)]) { s with
      manager := SwapManager.onSwapRequest s.manager uuid Swapper.minAmount amount
      clients := Function.update s.clients c { s.clients c with
        row := (s.clients c).row.request uuid height, tx := none } } := by
  have hself := SwapManager.get_onSwapRequest_self Swapper.minAmount amount hnew
  have hother := SwapManager.get_onSwapRequest_ne Swapper.minAmount amount hnew
  constructor
  case named =>
    intro c' u
    refine forall_update (P := fun y => y.row.swapUuid = some u → _) ?_ (fun c hc => ?_) c'
    · intro hu
      cases hu
      exact hself
    · by_cases hne : u = uuid
      · rw [hne]
        exact hself
      · rw [hother u hne]
        exact hl.named c u hc
  case fresh => exact forall_update (fresh_none rfl) hl.fresh
  case ending =>
    -- the request would not be open
    intro p hp
    rcases (hl.ending p hp).2 c with hnone | ⟨_, hresp⟩
    · cases hnone.symm.trans htx
    · cases hresp.symm.trans htx
  case gone =>
    intro u h
    rcases Machine.since_snoc h with ho | ⟨h, ho⟩
    · cases ho
    · have hne : u ≠ uuid := by
        rintro rfl
        exact ho ⟨c, height, rfl⟩
      rw [hother u hne]
      exact hl.gone u h

theorem linked_ended {p : Ending} (hl : Linked tr s) (hp : s.ending = some p)
    (hheard : ∀ c, ∃ uuid height, (s.clients c).tx = some (.response uuid height)) :
    Linked
      (tr ++ .ended p.uuid ::
        Client.all.flatMap fun c => (settle (s.clients c)).2.map (.client c))
      { manager := { s.manager with db := p.db }
        clients := fun c => (settle (s.clients c)).1
        ending  := none } := by
  obtain ⟨hdb, hhears⟩ := hl.ending p hp
  have htx : ∀ c, ∃ height, (s.clients c).tx = some (.response p.uuid height) := by
    intro c
    obtain ⟨uuid, height, hresp⟩ := hheard c
    rcases hhears c with hnone | h
    · cases hnone.symm.trans hresp
    · exact h
  constructor
  case named =>
    intro c u hu
    obtain ⟨height, hc⟩ := htx c
    rw [(settle_row hc).2, respond_swapUuid] at hu
    show p.db.swaps.get u ≠ none
    rw [hdb, UniqueTable.Table.get_delete_ne _ hu.2]
    exact hl.named c u hu.1
  case fresh =>
    intro c
    obtain ⟨height, hc⟩ := htx c
    exact fresh_none (settle_row hc).1
  case ending =>
    intro q hq
    cases hq
  case gone =>
    intro u h
    show p.db.swaps.get u = none
    by_cases hu : u = p.uuid
    · rw [hdb, hu, UniqueTable.Table.get_delete_self]
    · rw [hdb, UniqueTable.Table.get_delete_ne _ hu]
      refine hl.still (fun hmem => ?_) h
      rcases List.mem_cons.mp hmem with heq | hmem
      · exact hu (Out.ended.inj heq)
      · obtain ⟨_, _, hmem⟩ := List.mem_flatMap.mp hmem
        obtain ⟨_, _, ho⟩ := List.mem_map.mp hmem
        cases ho

/-- Nothing shows, the rows are the same and so are the swaps that there are. -/
theorem Linked.frame {s' : State} (hl : Linked tr s)
    (hkept : ∀ uuid, s'.manager.db.swaps.get uuid = none ↔ s.manager.db.swaps.get uuid = none)
    (hrow : ∀ c, (s'.clients c).row = (s.clients c).row) (hfresh : ∀ c, Fresh (s'.clients c))
    (hending : ∀ p, s'.ending = some p →
      p.db.swaps = s'.manager.db.swaps.delete p.uuid ∧ ∀ c, Hears p.uuid (s'.clients c)) :
    Linked (tr ++ []) s' where
  named  := by
    intro c uuid hc hnone
    rw [hrow] at hc
    exact hl.named c uuid hc ((hkept uuid).mp hnone)
  fresh  := hfresh
  ending := hending
  gone   := by
    rw [List.append_nil]
    exact fun uuid he => (hkept uuid).mpr (hl.gone uuid he)

/-- The row of the one that has moved is the same. -/
theorem update_row {clients : Client → Swapper.State} {c : Client} {x : Swapper.State}
    (hx : x.row = (clients c).row) (c' : Client) :
    (Function.update clients c x c').row = (clients c').row := by
  by_cases hc : c' = c
  · rw [hc, Function.update_self, hx]
  · rw [Function.update_of_ne hc]

/-- **STEP** -/
theorem linked_step {s' : State} {e : Event} {out : List Out} (hl : Linked tr s)
    (h : step s e = some (s', out)) : Linked (tr ++ out) s' := by
  cases step_move h with
  | client hown hfree hs => exact linked_client hl hown hfree hs
  | requested htx hnew => exact linked_requested hl htx hnew
  | ended hp hheard => exact linked_ended hl hp hheard
  | manager hkept hdb =>
      refine hl.frame hkept (fun _ => rfl) hl.fresh fun p hp => ?_
      rw [hdb (busy_of_ending hp)]
      exact hl.ending p hp
  | ending hidle hdb hp =>
      refine hl.frame (fun uuid => by rw [hdb]) (fun _ => rfl) hl.fresh fun q hq => ?_
      cases hq
      rw [hdb]
      exact ⟨hp, fun c => .inl (tx_of_idle hidle c)⟩
  | duplicate =>
      refine hl.frame (fun _ => .rfl) (update_row rfl) (forall_update (fresh_none rfl) hl.fresh) ?_
      intro p hp
      obtain ⟨hswaps, hhears⟩ := hl.ending p hp
      exact ⟨hswaps, forall_update (.inl rfl) hhears⟩
  | @heard c p hp =>
      refine hl.frame (fun _ => .rfl) (update_row rfl) (forall_update ?_ hl.fresh) ?_
      · intro _ _ _ _ hreq
        cases hreq
      · intro q hq
        obtain ⟨hswaps, hhears⟩ := hl.ending q hq
        cases hp.symm.trans hq
        exact ⟨hswaps, forall_update (.inr ⟨_, rfl⟩) hhears⟩
  | aborted =>
      refine hl.frame (fun _ => .rfl) (fun _ => rfl) (fun _ => fresh_none rfl) ?_
      intro p hp
      cases hp
  | restart =>
      refine hl.frame (fun _ => .rfl) (fun _ => rfl) (fun _ => fresh_none rfl) ?_
      intro p hp
      cases hp

/-- **RUN** -/
theorem linked_run {es : List Event} {s : State} {tr : List Out} (hrun : run es = some (s, tr)) :
    Linked tr s := by
  refine Machine.run_invariant (P := fun _ _ => True) (I := fun _ tr s => Linked tr s)
    linked_start ?_ (Machine.along_true _ es) hrun
  intro _ tr s e s' out hl _ h
  exact linked_step hl h

/-- A swap only goes away with its end. -/
theorem ended_of_swap {s' : State} {e : Event} {out : List Out} {uuid : Uuid} (hl : Linked tr s)
    (h : step s e = some (s', out)) (hswap : s.manager.db.swaps.get uuid ≠ none)
    (hgone : s'.manager.db.swaps.get uuid = none) : .ended uuid ∈ out := by
  cases step_move h with
  | client => exact absurd hgone hswap
  | manager hkept => exact absurd ((hkept uuid).mp hgone) hswap
  | ending _ hdb =>
      rw [hdb] at hgone
      exact absurd hgone hswap
  | duplicate => exact absurd hgone hswap
  | @requested _ u _ amount _ hnew =>
      have hne : uuid ≠ u := by
        rintro rfl
        exact hswap hnew
      rw [SwapManager.get_onSwapRequest_ne Swapper.minAmount amount hnew uuid hne] at hgone
      exact absurd hgone hswap
  | heard => exact absurd hgone hswap
  | @ended p hp =>
      by_cases hu : uuid = p.uuid
      · rw [hu]
        exact List.mem_cons_self
      · rw [(hl.ending p hp).1, UniqueTable.Table.get_delete_ne _ hu] at hgone
        exact absurd hgone hswap
  | aborted => exact absurd hgone hswap
  | restart => exact absurd hgone hswap

/-- A row drops a swap with its end, or by the `forget_after` rule. -/
theorem ended_or_forgot {s' : State} {e : Event} {out : List Out} {c : Client} {uuid : Uuid}
    (hl : Linked tr s) (h : step s e = some (s', out))
    (hrow : (s.clients c).row.swapUuid = some uuid)
    (hdrop : (s'.clients c).row.swapUuid ≠ some uuid) :
    .ended uuid ∈ out ∨ Forgets s c ∧ .client c (.forgot uuid) ∈ out := by
  have hmoved : (s'.clients c).row ≠ (s.clients c).row := by
    intro heq
    rw [heq] at hdrop
    exact hdrop hrow
  cases step_move h with
  | @client c' _ x o hown _ hs =>
      by_cases hc : c = c'
      · subst hc
        simp only [Function.update_self] at hdrop
        rcases own_row hown hs with heq | ⟨u, height, hu, hnow, hold, _, rfl⟩
        · exact absurd (heq.trans hrow) hdrop
        · cases hu.symm.trans hrow
          exact .inr ⟨⟨height, hnow, hold⟩, List.mem_singleton_self _⟩
      · simp only [Function.update_of_ne hc, ne_eq, not_true_eq_false] at hmoved
  | manager => exact absurd rfl hmoved
  | ending => exact absurd rfl hmoved
  | duplicate => exact (hmoved (update_row (by rfl) c)).elim
  | @requested c' u height amount htx =>
      have hc : c ≠ c' := by
        rintro rfl
        cases hrow.symm.trans (hl.fresh c u height amount true htx)
      simp only [Function.update_of_ne hc, ne_eq, not_true_eq_false] at hmoved
  | heard => exact (hmoved (update_row (by rfl) c)).elim
  | @ended p hp hheard =>
      obtain ⟨u, height, hresp⟩ := hheard c
      have hu : u = p.uuid := by
        rcases (hl.ending p hp).2 c with hnone | ⟨height', hresp'⟩
        · cases hnone.symm.trans hresp
        · cases hresp'.symm.trans hresp
          rfl
      by_cases heq : uuid = p.uuid
      · rw [heq]
        exact .inl List.mem_cons_self
      · refine absurd ?_ hdrop
        rw [(settle_row hresp).2, respond_swapUuid]
        exact ⟨hrow, hu ▸ heq⟩
  | aborted => exact absurd rfl hmoved
  | restart => exact absurd rfl hmoved

/-- **HEADLINE** — whatever is requested, answered, forgotten, rolled back or lost in a
    crash: at every commit the swaps named by the swappers' rows are swaps of the
    `SwapManager`; a swap that has ended is named by no row; and a swap leaves the one
    table only with its end, and the other only with its end or by being forgotten. -/
theorem linked (es : List Event) (s : State) (tr : List Out) (hrun : run es = some (s, tr)) :
    Referenced s
      ∧ (∀ uuid, Ended uuid tr → s.manager.db.swaps.get uuid = none
        ∧ ∀ c, (s.clients c).row.swapUuid ≠ some uuid)
      ∧ ∀ e s' out, step s e = some (s', out) →
        (∀ uuid, s.manager.db.swaps.get uuid ≠ none → s'.manager.db.swaps.get uuid = none →
          .ended uuid ∈ out)
        ∧ ∀ c uuid, (s.clients c).row.swapUuid = some uuid →
          (s'.clients c).row.swapUuid ≠ some uuid →
            .ended uuid ∈ out ∨ Forgets s c ∧ .client c (.forgot uuid) ∈ out := by
  have hl := linked_run hrun
  refine ⟨hl.named, fun uuid he => ⟨hl.gone uuid he, fun c hc => ?_⟩, fun e s' out h => ⟨?_, ?_⟩⟩
  · exact hl.named c uuid hc (hl.gone uuid he)
  · exact fun uuid => ended_of_swap hl h
  · exact fun c uuid => ended_or_forgot hl h

/-- A swap is requested, and the process dies.  The swap fails, and the process dies again
    when both swappers have seen the response but it is not committed.  The third life
    fails the swap once more and commits. -/
def sampleRun : List Event :=
  [.client .nodeBalanceSwapper .dbResource, .client .nodeBalanceSwapper (.block 100),
    .client .nodeBalanceSwapper .triggerSwap, .client .nodeBalanceSwapper (.ignoreFlag false),
    .client .nodeBalanceSwapper (.continueSwap ⟨1⟩ true (.sat 1)),
    .client .nodeBalanceSwapper .raise, .swapRequest .nodeBalanceSwapper, .restart,
    .manager (.task 0 0), .manager .address, .manager (.responseNewaddr "bc1pa"),
    .manager .address, .manager .address, .manager (.invoice ⟨[], [], 0⟩),
    .manager (.invoice ⟨[], [], 0⟩), .manager (.invoice ⟨[], [], 0⟩),
    .swapResponse .nodeBalanceSwapper, .swapResponse .needsOnchainFundsSwapper, .restart,
    .manager (.task 0 0), .manager (.task 0 0), .manager (.invoice ⟨[], [], 0⟩),
    .manager (.invoice ⟨[], [], 0⟩), .manager (.invoice ⟨[], [], 0⟩),
    .swapResponse .nodeBalanceSwapper, .swapResponse .needsOnchainFundsSwapper, .commit]

theorem linked_sampleRun :
    ∃ s, run sampleRun = some (s, [
        .client .nodeBalanceSwapper
          (.swapRequest ⟨1⟩ 100 Swapper.minAmount Swapper.minAmount),
        .client .nodeBalanceSwapper (.requested ⟨1⟩ 100), .ended ⟨1⟩,
        .client .nodeBalanceSwapper (.answered ⟨1⟩ 112)])
      ∧ Referenced s ∧ s.manager.db.swaps.get ⟨1⟩ = none
      ∧ ∀ c, (s.clients c).row.swapUuid ≠ some ⟨1⟩ := by
  have htr : (run sampleRun).map Prod.snd = some [
      .client .nodeBalanceSwapper (.swapRequest ⟨1⟩ 100 Swapper.minAmount Swapper.minAmount),
      .client .nodeBalanceSwapper (.requested ⟨1⟩ 100), .ended ⟨1⟩,
      .client .nodeBalanceSwapper (.answered ⟨1⟩ 112)] := by
    decide +kernel
  obtain ⟨⟨s, tr⟩, hrun, rfl⟩ := Option.map_eq_some_iff.mp htr
  obtain ⟨hnamed, hended, _⟩ := linked _ _ _ hrun
  refine ⟨s, hrun, hnamed, hended ⟨1⟩ ⟨[_, _], _, [_], rfl, rfl, ?_⟩⟩
  rintro x hx ⟨c, height, rfl⟩
  cases List.mem_singleton.mp hx

end SwapLink
