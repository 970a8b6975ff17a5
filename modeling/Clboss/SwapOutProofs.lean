import Clboss.SwapMoveProofs
import Clboss.SwapSetupProofs

/-! # Swapping out — from the server's answer to the payment

    Four components see a part each of an offchain-to-onchain swap: the
    `SwapManager` picks a service and an amount, the service's `SwapSetupHandler`
    asks its server and checks the answer, the `ServiceModule` reports success
    when there is an invoice, and the `InvoicePayer` pays it.

    NOBODY decodes the invoice to compare it.  Everything that is paid comes from
    an answer that passed the handler's checks; that it is an invoice for our hash
    and our amount is the server's word (`pays_agreed`). -/

namespace SwapManager

open Bitcoin Ln

/-- A creation is taken up only from the message that brings it. -/
theorem step_creating {s s' : State} {e : Event} {out : List Out} {c : Creation} {name : String}
    (h : step s e = some (s', out)) (hc : s'.invoiceLoop = .creating c name) :
    s.invoiceLoop = .creating c name ∨ e = .swapCreation (some c) := by
  cases step_move h with
  | refused hl => cases hc
  | agreed hl =>
      cases hc
      exact .inr rfl
  | address m =>
      cases m with
      | started hl hi =>
          rcases hi with hi | ⟨_, hi, _⟩
          · exact .inl (hi.symm.trans hc)
          · cases hi.symm.trans hc
      | _ => exact .inl hc
  | invoice m =>
      cases m with
      | paid hl hi =>
          rcases hi with hi | ⟨hi, _⟩
          · cases hi.symm.trans hc
          · cases hi.symm.trans hc
      | next hl hi =>
          rcases hi with hi | ⟨hi, _⟩
          · cases hi.symm.trans hc
          · cases hi.symm.trans hc
      | _ => cases hc
  | task ht m =>
      cases m with
      | loadInvoice hl =>
          rcases hl with hl | ⟨_, hl, _⟩
          · exact .inl (hl.symm.trans hc)
          · cases hl.symm.trans hc
      | startInvoice hl =>
          rcases hl with hl | ⟨_, hl, _⟩
          · exact .inl (hl.symm.trans hc)
          · cases hl.symm.trans hc
      | _ => exact .inl hc
  | restart => cases hc
  | _ => exact .inl hc

/-- What is raised for payment is the invoice of the creation. -/
theorem step_payInvoice {s s' : State} {e : Event} {out : List Out} {uuid : Uuid} {hash : Hash}
    {invoice : String} (h : step s e = some (s', out)) (hp : .payInvoice uuid hash invoice ∈ out) :
    ∃ c name, s.invoiceLoop = .creating c name ∧ hash = c.hash ∧ invoice = c.invoice := by
  cases step_move h with
  | address m => cases m <;> simp at hp
  | invoice m =>
      cases m with
      | @created c name k rest row hl hq hr =>
          cases List.mem_singleton.mp hp
          exact ⟨c, name, hl, rfl, rfl⟩
      | failed hl ha => cases List.mem_singleton.mp hp
      | _ => simp at hp
  | task ht m =>
      cases m with
      | failed ha => cases List.mem_singleton.mp hp
      | _ => simp at hp
  | _ => simp at hp

/-- A creation raises nothing, and becomes the one that is worked on. -/
theorem step_swapCreation {s s' : State} {creation : Option Creation} {out : List Out}
    (h : step s (.swapCreation creation) = some (s', out)) :
    out = [] ∧ ∀ c name, s'.invoiceLoop = .creating c name → creation = some c := by
  simp only [step, onSwapCreation] at h
  split at h
  · cases creation with
    | none =>
        cases h
        exact ⟨rfl, fun _ _ hc => by cases hc⟩
    | some c =>
        cases h
        exact ⟨rfl, fun _ _ hc => by cases hc; rfl⟩
  · cases h

end SwapManager

namespace SwapOut

open Bitcoin Ln Boltz
open Util.Str (bytes)

variable {K : Type}

/-! ## The components together -/

/-- A swap as it was asked for and answered. -/
structure Deal (K : Type) where
  handler : SwapSetupHandler K
  answer  : Answer

/-- A payment, with the deal behind it. -/
structure Payment (K : Type) where
  invoice : String
  deal    : Option (Deal K)

/-- A `ServiceModule`. -/
structure Service where
  apiEndpoint : String
  blockheight : Option UInt32
deriving DecidableEq

/-- What shows. -/
inductive Out (K : Type) where
  /-- `PayInvoice`, for the swap and with the hash that was recorded for it. -/
  | payInvoice (uuid : SwapManager.Uuid) (hash : Hash) (p : Payment K)
  /-- The `xpay` command. -/
  | xpay (p : Payment K) (retryFor : Nat) (maxfee : UInt64)

structure State (K : Type) where
  manager         : SwapManager.State
  services        : List Service
  /-- `AcceptSwapQuotation`, until the service gets it. -/
  accepted        : Option (Amount × String × Nat)
  /-- The handler that runs. -/
  setup           : Option (SwapSetupHandler K)
  table           : Table
  /-- The deal behind the last creation. -/
  deal            : Option (Deal K)
  /-- The `InvoicePayer` has its `rpc`. -/
  rpc             : Bool
  pendingInvoices : List (Payment K)
  /-- In `pay`, before the invoice is decoded. -/
  paying          : List (Payment K)

/-- A start on the given databases. -/
def State.boot (manager : SwapManager.State) (services : List Service) (table : Table) : State K :=
  ⟨manager, services.map fun v => { v with blockheight := none }, none, none, table, none, false,
    [], []⟩

/-- What can happen. -/
inductive Event (K : Type) where
  /-- Any event of the manager but the two below. -/
  | manager (e : SwapManager.Event)
  /-- A block reaches a service. -/
  | block (provider : Nat) (height : UInt32)
  /-- The acceptance reaches the service, which draws the secrets of the swap. -/
  | accept (tweak : K) (preimage : Hash)
  /-- The handler ends, and its result is reported to the manager. -/
  | setUp (o : SetupOutcomes)
  /-- The payer gets its `rpc`. -/
  | init
  /-- A payment goes on; `false` when the `decode` command fails. -/
  | pay (n : Nat) (decoded : Bool)
  /-- The process ends and is started again. -/
  | restart

/-- The manager's own events. -/
def IsOwn : SwapManager.Event → Bool
  | .swapCreation _ => false
  | .restart        => false
  | _               => true

/-- What the other components do with a message of the manager. -/
def hear (s : State K) : SwapManager.Out → State K × List (Out K)
  | .acceptSwapQuotation amount address provider =>
      ({ s with accepted := some (amount, address, provider) }, [])
  | .payInvoice uuid hash invoice =>
      let p : Payment K := ⟨invoice, s.deal⟩
      (if s.rpc then { s with paying := s.paying ++ [p] }
        else { s with pendingInvoices := s.pendingInvoices ++ [p] },
        [.payInvoice uuid hash p])
  | _ => (s, [])

def hearAll : State K → List SwapManager.Out → State K × List (Out K)
  | s, []      => (s, [])
  | s, o :: os =>
      let (s', out) := hear s o
      let (s'', out') := hearAll s' os
      (s'', out ++ out')

/-- A step of the manager, heard by the others. -/
def manage (s : State K) (e : SwapManager.Event) : Option (State K × List (Out K)) :=
  match SwapManager.step s.manager e with
  | none          => none
  | some (m, out) => some (hearAll { s with manager := m } out)

/-- `SwapCreation`: success is an invoice that is not empty. -/
def creationOf (info : SwapInfo) : Option SwapManager.Creation :=
  if info.invoice ≠ "" then some ⟨info.invoice, info.hash, info.timeout⟩ else none

/-- `maxfee_msat`. -/
def maxfee (amount : Amount) : UInt64 :=
  if amount.toMsat / 100 < 5000 then 5000 else amount.toMsat / 100

section

variable (c : SetupCrypto K) (decode : String → Option (Hash × Amount))

/-- The answer in a reply. -/
def answerOf (reply : Reply) : Option Answer :=
  match reply.read c.numbers with
  | .answer a => some a
  | _         => none

/-- The service gets the acceptance. -/
def accept (s : State K) (tweak : K) (preimage : Hash) : Option (State K × List (Out K)) :=
  match s.accepted with
  | none                             => none
  | some (amount, address, provider) =>
      match s.services[provider]? with
      | none   => none
      | some v =>
          match v.blockheight with
          | none        => manage { s with accepted := none } (.swapCreation none)
          | some height => some ({ s with
              accepted := none
              setup := some ⟨v.apiEndpoint, address, amount, height, tweak, preimage⟩ }, [])

/-- The handler ends: an exception is reported to nobody, and a failed assertion ends the
    program. -/
def setUp (s : State K) (o : SetupOutcomes) : Option (State K × List (Out K)) :=
  match s.setup with
  | none   => none
  | some h =>
      match h.run c o ⟨s.table, [], 0⟩ with
      | (.error .assertion, _) => none
      | (.error _, w) => some ({ s with setup := none, table := w.store }, [])
      | (.ok info, w) =>
          manage { s with
            setup := none, table := w.store, deal := (answerOf c o.reply).map (⟨h, ·⟩) }
            (.swapCreation (creationOf info))

/-- `pay`, from the `decode` command on: what decodes to no bolt11 invoice with an
    amount is not paid. -/
def pay (p : Payment K) (decoded : Bool) : List (Out K) :=
  match decoded, decode p.invoice with
  | true, some (_, amount) => [.xpay p 1000 (maxfee amount)]
  | _, _                   => []

def step (s : State K) : Event K → Option (State K × List (Out K))
  | .manager e => if IsOwn e then manage s e else none
  | .block provider height =>
      some ({ s with services := s.services.modify provider fun v =>
        { v with blockheight := some height } }, [])
  | .accept tweak preimage => accept s tweak preimage
  | .setUp o => setUp c s o
  | .init =>
      if s.rpc then none
      else some ({ s with
        rpc := true, paying := s.paying ++ s.pendingInvoices, pendingInvoices := [] }, [])
  | .pay n decoded =>
      match s.paying[n]? with
      | none   => none
      | some p => some ({ s with paying := s.paying.eraseIdx n }, pay decode p decoded)
  | .restart => some (.boot (SwapManager.boot s.manager.db) s.services s.table, [])

/-- Runs from the first start, with the given services. -/
def run (services : List Service) (es : List (Event K)) : Option (State K × List (Out K)) :=
  Machine.run (step c decode) (.boot (SwapManager.boot .empty) services UniqueTable.Table.empty) es

/-! ## What is promised -/

/-- The invoice, if it is one, is for the hash and the amount that were asked for. -/
def Deal.Agreed (d : Deal K) : Prop :=
  ∀ t ∈ decode d.answer.invoice, t.1 = (d.handler.request c).preimageHash ∧
    t.2 = .sat (d.handler.request c).invoiceAmount

/-- The answer passed the handler's checks. -/
def Deal.Valid (d : Deal K) : Prop := (d.handler.validate c d.answer).isOk = true

/-- The payment is for the invoice of a valid deal with `Q`. -/
def Payment.Good (Q : Deal K → Prop) (p : Payment K) : Prop :=
  ∃ d, p.deal = some d ∧ p.invoice = d.answer.invoice ∧ d.Valid c ∧ Q d

/-- What shows is for a good payment, recorded under the hash of our preimage. -/
def Out.Good (Q : Deal K → Prop) : Out K → Prop
  | .payInvoice _ hash p => ∃ d, p.deal = some d ∧ p.invoice = d.answer.invoice ∧ d.Valid c ∧ Q d
      ∧ hash = d.handler.preimageHash c
  | .xpay p _ _          => p.Good c Q

/-- An answer that passes the checks brings an invoice for what was asked for. -/
def Clean (s : State K) : Event K → Prop
  | .setUp o => ∀ h ∈ s.setup, ∀ a ∈ answerOf c o.reply,
      (Deal.mk h a).Valid c → (Deal.mk h a).Agreed c decode
  | _        => True

instance (d : Deal K) : Decidable (d.Agreed c decode) :=
  inferInstanceAs (Decidable (∀ t ∈ decode d.answer.invoice, _ ∧ _))

instance (d : Deal K) : Decidable (d.Valid c) := inferInstanceAs (Decidable (_ = true))

instance (s : State K) (e : Event K) : Decidable (Clean c decode s e) :=
  match e with
  | .setUp o     => inferInstanceAs (Decidable (∀ h ∈ s.setup, ∀ a ∈ answerOf c o.reply,
      (Deal.mk h a).Valid c → (Deal.mk h a).Agreed c decode))
  | .manager _   => inferInstanceAs (Decidable True)
  | .block _ _   => inferInstanceAs (Decidable True)
  | .accept _ _  => inferInstanceAs (Decidable True)
  | .init        => inferInstanceAs (Decidable True)
  | .pay _ _     => inferInstanceAs (Decidable True)
  | .restart     => inferInstanceAs (Decidable True)

/-! ## Steps and runs -/

/-- What is worked on and what is to be paid comes from a good deal. -/
structure Sound (Q : Deal K → Prop) (s : State K) : Prop where
  creating : ∀ cr name, s.manager.invoiceLoop = .creating cr name →
    ∃ d, s.deal = some d ∧ cr.invoice = d.answer.invoice
      ∧ cr.hash = d.handler.preimageHash c ∧ d.Valid c ∧ Q d
  pending  : ∀ p ∈ s.pendingInvoices, p.Good c Q
  paying   : ∀ p ∈ s.paying, p.Good c Q

variable {c decode} {Q : Deal K → Prop}

theorem sound_boot (db : SwapManager.Db) (services : List Service) (table : Table) :
    Sound c Q (.boot (SwapManager.boot db) services table : State K) :=
  ⟨fun _ _ h => (by cases h), fun _ h => absurd h List.not_mem_nil,
    fun _ h => absurd h List.not_mem_nil⟩

/-- The other components, where the payment raised is a good one. -/
theorem hear_sound {s : State K} {o : SwapManager.Out} (hs : Sound c Q s)
    (ho : ∀ uuid hash invoice, o = .payInvoice uuid hash invoice →
      ∃ d, s.deal = some d ∧ invoice = d.answer.invoice ∧ d.Valid c ∧ Q d
        ∧ hash = d.handler.preimageHash c) :
    Sound c Q (hear s o).1 ∧ (∀ out ∈ (hear s o).2, out.Good c Q)
      ∧ (hear s o).1.deal = s.deal := by
  cases o with
  | acceptSwapQuotation amount address provider =>
      exact ⟨⟨hs.creating, hs.pending, hs.paying⟩, fun _ h => absurd h List.not_mem_nil, rfl⟩
  | payInvoice uuid hash invoice =>
      obtain ⟨d, hd, hinvoice, hvalid, hQ, hhash⟩ := ho uuid hash invoice rfl
      have hp : (⟨invoice, s.deal⟩ : Payment K).Good c Q := ⟨d, hd, hinvoice, hvalid, hQ⟩
      refine ⟨?_, fun out hout => ?_, ?_⟩
      · unfold hear
        dsimp only
        by_cases hrpc : s.rpc = true
        · rw [if_pos hrpc]
          refine ⟨hs.creating, hs.pending, fun p hmem => ?_⟩
          rcases List.mem_append.mp hmem with hmem | hmem
          · exact hs.paying p hmem
          · rw [List.mem_singleton.mp hmem]
            exact hp
        · rw [if_neg hrpc]
          refine ⟨hs.creating, fun p hmem => ?_, hs.paying⟩
          rcases List.mem_append.mp hmem with hmem | hmem
          · exact hs.pending p hmem
          · rw [List.mem_singleton.mp hmem]
            exact hp
      · rw [List.mem_singleton.mp hout]
        exact ⟨d, hd, hinvoice, hvalid, hQ, hhash⟩
      · unfold hear
        dsimp only
        split_ifs <;> rfl
  | _ => exact ⟨hs, fun _ h => absurd h List.not_mem_nil, rfl⟩

theorem hearAll_sound (os : List SwapManager.Out) : ∀ s : State K, Sound c Q s →
    (∀ uuid hash invoice, .payInvoice uuid hash invoice ∈ os →
      ∃ d, s.deal = some d ∧ invoice = d.answer.invoice ∧ d.Valid c ∧ Q d
        ∧ hash = d.handler.preimageHash c) →
    Sound c Q (hearAll s os).1 ∧ ∀ out ∈ (hearAll s os).2, out.Good c Q := by
  induction os with
  | nil => exact fun s hs _ => ⟨hs, fun _ h => absurd h List.not_mem_nil⟩
  | cons o os ih =>
      intro s hs ho
      obtain ⟨hs', hout, hdeal⟩ := hear_sound hs fun uuid hash invoice h =>
        ho uuid hash invoice (h ▸ List.mem_cons_self ..)
      obtain ⟨hs'', hout'⟩ := ih (hear s o).1 hs' fun uuid hash invoice h => by
        rw [hdeal]
        exact ho uuid hash invoice (List.mem_cons_of_mem o h)
      refine ⟨hs'', fun out hmem => ?_⟩
      rcases List.mem_append.mp hmem with hmem | hmem
      · exact hout out hmem
      · exact hout' out hmem

/-- An event of the manager's own. -/
theorem manage_own_sound {s s' : State K} {e : SwapManager.Event} {out : List (Out K)}
    (hs : Sound c Q s) (he : IsOwn e = true) (h : manage s e = some (s', out)) :
    Sound c Q s' ∧ ∀ o ∈ out, o.Good c Q := by
  unfold manage at h
  cases hm : SwapManager.step s.manager e with
  | none => simp [hm] at h
  | some r =>
      obtain ⟨m, mout⟩ := r
      rw [hm] at h
      have := hearAll_sound (c := c) (Q := Q) mout { s with manager := m } ?_ ?_
      · simp only [Option.some.injEq] at h
        rw [h] at this
        exact this
      · refine ⟨fun cr name hcr => ?_, hs.pending, hs.paying⟩
        rcases SwapManager.step_creating hm hcr with hcr | rfl
        · exact hs.creating cr name hcr
        · cases he
      · intro uuid hash invoice hp
        obtain ⟨cr, name, hcr, rfl, rfl⟩ := SwapManager.step_payInvoice hm hp
        obtain ⟨d, hd, hinvoice, hhash, hvalid, hQ⟩ := hs.creating cr name hcr
        exact ⟨d, hd, hinvoice, hvalid, hQ, hhash⟩

/-- A creation, with the deal it comes from. -/
theorem manage_creation_sound {s s' : State K} {creation : Option SwapManager.Creation}
    {out : List (Out K)} (h : manage s (.swapCreation creation) = some (s', out))
    (hpending : ∀ p ∈ s.pendingInvoices, p.Good c Q) (hpaying : ∀ p ∈ s.paying, p.Good c Q)
    (hcr : ∀ cr, creation = some cr → ∃ d, s.deal = some d ∧ cr.invoice = d.answer.invoice
      ∧ cr.hash = d.handler.preimageHash c ∧ d.Valid c ∧ Q d) :
    Sound c Q s' ∧ ∀ o ∈ out, o.Good c Q := by
  unfold manage at h
  cases hm : SwapManager.step s.manager (.swapCreation creation) with
  | none => simp [hm] at h
  | some r =>
      obtain ⟨m, mout⟩ := r
      obtain ⟨rfl, hcreating⟩ := SwapManager.step_swapCreation hm
      rw [hm] at h
      cases h
      refine ⟨⟨fun cr name hc => hcr cr (hcreating cr name hc), hpending, hpaying⟩, ?_⟩
      exact fun _ h => absurd h List.not_mem_nil

/-- **STEP**: where a valid answer gives a deal with `Q`, everything stays good. -/
theorem step_sound {s s' : State K} {e : Event K} {out : List (Out K)} (hs : Sound c Q s)
    (hQ : ∀ o, e = .setUp o → ∀ h ∈ s.setup, ∀ a ∈ answerOf c o.reply,
      (Deal.mk h a).Valid c → Q ⟨h, a⟩)
    (h : step c decode s e = some (s', out)) : Sound c Q s' ∧ ∀ o ∈ out, o.Good c Q := by
  have hnil : ∀ o ∈ ([] : List (Out K)), o.Good c Q := fun _ h => absurd h List.not_mem_nil
  cases e with
  | manager e =>
      simp only [step] at h
      split_ifs at h with he
      exact manage_own_sound hs he h
  | block provider height =>
      cases h
      exact ⟨⟨hs.creating, hs.pending, hs.paying⟩, hnil⟩
  | accept tweak preimage =>
      simp only [step, accept] at h
      split at h
      · cases h
      · split at h
        · cases h
        · split at h
          · exact manage_creation_sound h hs.pending hs.paying (fun _ hcr => by cases hcr)
          · cases h
            exact ⟨⟨hs.creating, hs.pending, hs.paying⟩, hnil⟩
  | setUp o =>
      simp only [step, setUp] at h
      cases hsetup : s.setup with
      | none => simp [hsetup] at h
      | some handler =>
          have hspec := handler.setup_accepts c o ⟨s.table, [], 0⟩ True.intro
          rw [hsetup] at h
          dsimp only at h
          cases hrun : handler.run c o ⟨s.table, [], 0⟩ with
          | mk res w =>
              rw [hrun] at h hspec
              cases res with
              | error e =>
                  cases e with
                  | assertion => cases h
                  | _ =>
                      cases h
                      exact ⟨⟨hs.creating, hs.pending, hs.paying⟩, hnil⟩
              | ok info =>
                  dsimp only at h
                  refine manage_creation_sound h hs.pending hs.paying ?_
                  intro cr hcr
                  unfold creationOf at hcr
                  split_ifs at hcr with hne
                  cases hcr
                  obtain ⟨a, script, hreply, hvalidate, rfl⟩ := hspec hne
                  have ha : answerOf c o.reply = some a := by
                    unfold answerOf
                    rw [hreply]
                  have hvalid : (Deal.mk handler a).Valid c := by
                    unfold Deal.Valid
                    rw [hvalidate]
                    rfl
                  refine ⟨⟨handler, a⟩, ?_, rfl, rfl, hvalid, hQ o rfl handler hsetup a ha hvalid⟩
                  rw [ha]
                  rfl
  | init =>
      simp only [step] at h
      split_ifs at h
      cases h
      refine ⟨⟨hs.creating, fun _ h => absurd h List.not_mem_nil, fun p hp => ?_⟩, hnil⟩
      rcases List.mem_append.mp hp with hp | hp
      · exact hs.paying p hp
      · exact hs.pending p hp
  | pay n decoded =>
      simp only [step] at h
      split at h
      · cases h
      next p hp =>
        cases h
        refine ⟨⟨hs.creating, hs.pending, fun q hq => hs.paying q (List.mem_of_mem_eraseIdx hq)⟩, ?_⟩
        intro o ho
        unfold pay at ho
        split at ho
        · rw [List.mem_singleton.mp ho]
          exact hs.paying p (List.mem_of_getElem? hp)
        · exact absurd ho List.not_mem_nil
  | restart =>
      cases h
      exact ⟨sound_boot _ _ _, hnil⟩

/-- **HEADLINE**: as long as every answer that passes the checks brings an invoice for
    what was asked for, nothing else is ever handed to the payer or paid. -/
theorem pays_agreed (c : SetupCrypto K) (decode : String → Option (Hash × Amount))
    {services : List Service} {es : List (Event K)} {s : State K} {tr : List (Out K)}
    (hclean : Machine.Along (step c decode) (Clean c decode)
      (.boot (SwapManager.boot .empty) services UniqueTable.Table.empty) es)
    (hrun : run c decode services es = some (s, tr)) :
    ∀ o ∈ tr, o.Good c (Deal.Agreed c decode) := by
  refine (Machine.run_invariant
    (I := fun _ tr s => Sound c (Deal.Agreed c decode) s ∧ ∀ o ∈ tr, o.Good c (Deal.Agreed c decode))
    ⟨sound_boot _ _ _, fun _ h => absurd h List.not_mem_nil⟩ ?_ hclean hrun).2
  intro _ tr s e s' out hI hclean hstep
  obtain ⟨hs, htr⟩ := hI
  obtain ⟨hs', hout⟩ := step_sound hs (fun o he => by subst he; exact hclean) hstep
  refine ⟨hs', fun o ho => ?_⟩
  rcases List.mem_append.mp ho with ho | ho
  · exact htr o ho
  · exact hout o ho

/-- **SLIP**: whatever invoice comes with a valid answer, it is handed to the payer when
    the swap is still there. -/
theorem pays_of_valid {s : State K} {h : SwapSetupHandler K} {reply : Reply} {a : Answer}
    {uuid : SwapManager.Uuid}
    {rest : List SwapManager.Uuid} {row : SwapManager.Swap} {q : SwapManager.Quotation}
    (hsetup : s.setup = some h) (hread : reply.read c.numbers = .answer a)
    (hvalid : (Deal.mk h a).Valid c) (hne : a.invoice ≠ "")
    (hid : s.table.get (h.apiEndpoint, a.id) = none)
    (hloop : s.manager.invoiceLoop = .accepting) (hq : s.manager.quotations.getLast? = some q)
    (hfront : s.manager.needsInvoice = uuid :: rest)
    (hrow : s.manager.db.swaps.get uuid = some row) (d : SwapManager.Draws) :
    ∃ s', Machine.run (step c decode) s
        [.setUp ⟨⟨fun _ t => t, fun _ => none⟩, reply, true⟩, .manager (.invoice d)]
      = some (s', [.payInvoice uuid (h.preimageHash c) ⟨a.invoice, some ⟨h, a⟩⟩]) := by
  obtain ⟨script, hscript⟩ : ∃ script, h.validate c a = .ok script := by
    unfold Deal.Valid at hvalid
    cases hv : h.validate c a with
    | error msg =>
        rw [show (Deal.mk h a).handler.validate c (Deal.mk h a).answer = .error msg from hv] at hvalid
        cases hvalid
    | ok script => exact ⟨script, rfl⟩
  have hok := SwapSetupHandler.run_of_valid hread hscript hid
  cases hrun : h.run c ⟨⟨fun _ t => t, fun _ => none⟩, reply, true⟩ ⟨s.table, [], 0⟩ with
  | mk res w =>
      rw [hrun] at hok
      cases hok
      let creation : SwapManager.Creation := ⟨a.invoice, h.preimageHash c, a.timeoutBlockHeight⟩
      let s₁ : State K := { s with
        manager := { s.manager with invoiceLoop := .creating creation q.providerName },
        setup := none, table := w.store, deal := some ⟨h, a⟩ }
      have hset : step c decode s (.setUp ⟨⟨fun _ t => t, fun _ => none⟩, reply, true⟩)
          = some (s₁, []) := by
        simp [s₁, creation, step, setUp, hsetup, hrun, manage, creationOf, hne, SwapManager.step,
          SwapManager.onSwapCreation, hloop, hq, hearAll, answerOf, hread]
      have hpay : ∃ s', step c decode s₁ (.manager (.invoice d))
          = some (s', [.payInvoice uuid (h.preimageHash c) ⟨a.invoice, some ⟨h, a⟩⟩]) := by
        simp [s₁, creation, step, IsOwn, manage, SwapManager.step, SwapManager.stepInvoice, hfront,
          SwapManager.createSwap, hrow, hearAll, hear]
      obtain ⟨s', hpay⟩ := hpay
      have hdone : Machine.run (step c decode) s' [] = some (s', []) := rfl
      exact ⟨s', Machine.run_step hset (Machine.run_step hpay hdone)⟩

end

/-! ## An answer nobody refuses -/

/-- The key `1`, of which the public key is the generator. -/
def sampleKey : Hash := sampleCrypto.privKeyInit

/-- The hash of 32 zero bytes. -/
def sampleHash : Hash :=
  ⟨[ 0x66, 0x68, 0x7a, 0xad, 0xf8, 0x62, 0xbd, 0x77, 0x6c, 0x8f, 0xc1, 0x8b, 0x8e, 0x9f, 0x8e, 0x20,
      0x08, 0x97, 0x14, 0x85, 0x6e, 0xe2, 0x33, 0xb3, 0x90, 0x2a, 0x59, 0x1d, 0x0d, 0x5f, 0x29, 0x25 ],
    rfl⟩

/-- The generator and its double. -/
def sampleKeys : PubKey × PubKey :=
  (⟨[ 0x02, 0x79, 0xbe, 0x66, 0x7e, 0xf9, 0xdc, 0xbb, 0xac, 0x55, 0xa0, 0x62, 0x95, 0xce, 0x87, 0x0b,
      0x07, 0x02, 0x9b, 0xfc, 0xdb, 0x2d, 0xce, 0x28, 0xd9, 0x59, 0xf2, 0x81, 0x5b, 0x16, 0xf8, 0x17,
      0x98 ], rfl⟩,
    ⟨[ 0x02, 0xc6, 0x04, 0x7f, 0x94, 0x41, 0xed, 0x7d, 0x6d, 0x30, 0x45, 0x40, 0x6e, 0x95, 0xc0, 0x7c,
      0xd8, 0x5c, 0x77, 0x8e, 0x4b, 0x8c, 0xef, 0x3c, 0xa7, 0xab, 0xac, 0x09, 0xb9, 0x5c, 0x70, 0x9e,
      0xe5 ], rfl⟩)

def sampleSha256 (bs : List UInt8) : Hash :=
  if bs = List.replicate 32 0 then sampleHash else sampleCrypto.sha256 bs

/-- The functions at the values of the sample. -/
def sampleSetupCrypto : SetupCrypto Hash where
  toCrypto := { sampleCrypto with sha256 := sampleSha256 }
  ripemd160 bs :=
    if bs = sampleHash.d then
      ⟨[ 0xb8, 0xbc, 0xb0, 0x7f, 0x63, 0x44, 0xb4, 0x2a, 0xb0, 0x42, 0x50, 0xc8, 0x6a, 0x6e, 0x8b, 0x75,
          0xd3, 0xfd, 0xbb, 0xc6 ], rfl⟩
    else ⟨List.replicate 20 0, rfl⟩
  pubkeyTweak _ := sampleKeys.1
  isPubKey k := k = sampleKeys.1 || k = sampleKeys.2
  privKeyText k := hexdump k.d
  numbers :=
    ⟨fun t => UInt32.ofNat (Decimals.value t), fun t => UInt64.ofNat (Decimals.value t)⟩

/-- One invoice for what is asked for, and one for the hash of nothing and twice the
    amount. -/
def sampleDecode (invoice : String) : Option (Hash × Amount) :=
  if invoice = "lnbc10m1" then some (sampleHash, .sat 1000000)
  else if invoice = "lnbc20m1" then some (sampleCrypto.sha256 [], .sat 2000000)
  else none

/-- Our lockscript, with a timeout at block 840144. -/
def sampleScript : List UInt8 :=
  [0x82, 0x01, 0x20, 0x87, 0x63, 0xa9, 0x14]
    ++ (sampleSetupCrypto.ripemd160 sampleHash.d).d ++ [0x88, 0x21] ++ sampleKeys.1.d
    ++ [0x67, 0x75, 0x03, 0xd0, 0xd1, 0x0c, 0xb1, 0x75, 0x21] ++ sampleKeys.2.d ++ [0x68, 0xac]

/-- Our lockscript, and the given invoice. -/
def sampleAnswer (invoice : String) : Answer where
  id := "swap"
  redeemScript := Util.Str.hexdump sampleScript
  invoice := invoice
  timeoutBlockHeight := 840144
  onchainAmount := 950000

/-- The JSON of it. -/
def sampleReply (invoice : String) : Reply :=
  let key (s : String) := s.toUTF8.toList
  .result (some (.obj [(key "id", .str (bytes "swap")),
    (key "redeemScript", .str (sampleAnswer invoice).redeemScript),
    (key "invoice", .str (bytes invoice)),
    (key "timeoutBlockHeight", .prim (key "840144")),
    (key "onchainAmount", .prim (key "950000"))]))

/-- A swap of 1,000,000 satoshis at block 840000, answered with the given invoice. -/
def sampleRun (invoice : String) : List (Event Hash) :=
  [.init, .block 0 840000, .manager (.swapRequest ⟨1⟩ (.sat 100000) (.sat 1000000)),
    .manager (.task 1 0), .manager .address, .manager (.responseNewaddr "bc1pa"),
    .manager .address, .manager .address, .manager .address, .manager (.invoice ⟨[], [], 0⟩),
    .manager (.provideSwapQuotation ⟨10⟩ 0 "boltz"),
    .manager (.invoice ⟨[5], [⟨5, 0, "boltz"⟩], 0⟩), .accept sampleKey Hash.zero,
    .setUp ⟨⟨fun _ t => t, fun _ => none⟩, sampleReply invoice, true⟩,
    .manager (.invoice ⟨[], [], 0⟩), .pay 0 true]

/-- Whether it is the payment itself, the invoice, and what was asked for. -/
def Out.terms : Out Hash → Bool × String × Option CreateSwap
  | .payInvoice _ _ p => (false, p.invoice, p.deal.map (·.handler.request sampleSetupCrypto))
  | .xpay p _ _       => (true, p.invoice, p.deal.map (·.handler.request sampleSetupCrypto))

/-- The invoice handed over and paid for the swap of the sample. -/
def sampleTerms (invoice : String) : List (Bool × String × Option CreateSwap) :=
  [(false, invoice, some ⟨1000000, sampleHash, sampleKeys.1⟩),
    (true, invoice, some ⟨1000000, sampleHash, sampleKeys.1⟩)]

def sampleServices : List Service := [⟨"https://boltz.exchange/api", none⟩]

theorem pays_agreed_sampleRun :
    ∃ s tr, run sampleSetupCrypto sampleDecode sampleServices (sampleRun "lnbc10m1") = some (s, tr) ∧
      tr.map Out.terms = sampleTerms "lnbc10m1" ∧
      ∀ o ∈ tr, o.Good sampleSetupCrypto (Deal.Agreed sampleSetupCrypto sampleDecode) := by
  have h : (run sampleSetupCrypto sampleDecode sampleServices (sampleRun "lnbc10m1")).map
        (fun r => r.2.map Out.terms)
        = some (sampleTerms "lnbc10m1") ∧
      Machine.Along (step sampleSetupCrypto sampleDecode) (Clean sampleSetupCrypto sampleDecode)
        (.boot (SwapManager.boot .empty) sampleServices UniqueTable.Table.empty)
        (sampleRun "lnbc10m1") := by
    decide +kernel
  obtain ⟨⟨s, tr⟩, hrun, htr⟩ := Option.map_eq_some_iff.mp h.1
  exact ⟨s, tr, hrun, htr, pays_agreed sampleSetupCrypto sampleDecode h.2 hrun⟩

/-- **SLIP**: an invoice for another hash and twice the amount is paid. -/
theorem pays_other_sampleRun :
    (run sampleSetupCrypto sampleDecode sampleServices (sampleRun "lnbc20m1")).map
        (fun r => r.2.map Out.terms)
      = some (sampleTerms "lnbc20m1") ∧
    sampleDecode "lnbc20m1" = some (sampleCrypto.sha256 [], .sat 2000000) ∧
    sampleCrypto.sha256 [] ≠ sampleHash := by
  decide +kernel

end SwapOut
