import Clboss.AmountProofs
import Clboss.MachineProofs
import Clboss.TxCodecProofs
import Clboss.UniqueTableProofs

/-! # `Boss::Mod::SwapManager` — the swap state machine

    The module keeps its swaps in a database and works on them with several
    greenthreads: one fetches onchain addresses, one negotiates invoices, and
    every message from the bus starts another.  A greenthread gives up control
    at each `db.transact()`, `bus.raise`, log line and `Ev::yield`, and only
    there; so ONE STEP of the model is what runs between two such points.

    The two long-lived greenthreads are program counters (`AddressLoop`,
    `InvoiceLoop`): `getting_address` and `getting_invoice` are set exactly
    while they are not idle.  All other greenthreads wait in a pool of tasks,
    and a run may resume any of them at any time. -/

namespace SwapManager

open Bitcoin Ln UniqueTable

/-! ## The database -/

/-- `Uuid`. -/
structure Uuid where
  bits : BitVec 128
deriving DecidableEq

/-- The `state` column.  `payment_hash` and `timeout` are set together with
    `AwaitingResult` and cleared together with `NeedsInvoice`, so they are data
    of the state. -/
inductive SwapState where
  | needsOnchainAddress
  | needsInvoice
  | awaitingResult (paymentHash : Hash) (timeout : UInt32)
deriving DecidableEq

/-- The number stored in the column. -/
def SwapState.column : SwapState → Nat
  | .needsOnchainAddress => 0
  | .needsInvoice        => 1
  | .awaitingResult _ _  => 2

/-- A row of `"SwapManager"`; amounts are in millisatoshis. -/
structure Swap where
  uuid      : Uuid
  amount    : UInt64
  minAmount : UInt64
  state     : SwapState
  address   : Option String
deriving DecidableEq

/-- The `payment_hash` column. -/
def Swap.paymentHash (r : Swap) : Option Hash :=
  match r.state with
  | .awaitingResult h _ => some h
  | _                   => none

/-- A row of `"SwapManager_comp_onchain"`. -/
structure CompOnchain where
  paymentHash    : Hash
  amountReceived : Amount
  providerName   : String

/-- A row of `"SwapManager_comp_pay"`. -/
structure CompPay where
  paymentHash : Hash
  amountSent  : Amount

/-- A row of `"SwapManager_provider"`. -/
structure Provider where
  uuid : Uuid
  name : String

/-- The tables.  The ids of the address cache only order its rows, so it is
    the list of its addresses. -/
structure Db where
  swaps       : Table Swap.uuid
  addrcache   : List String
  provider    : Table Provider.uuid
  compOnchain : Table CompOnchain.paymentHash
  compPay     : Table CompPay.paymentHash

/-- The database of a first start. -/
def Db.empty : Db := ⟨Table.empty, [], Table.empty, Table.empty, Table.empty⟩

/-- Deleting a swap cascades to its provider. -/
def Db.deleteSwap (db : Db) (uuid : Uuid) : Db :=
  { db with swaps := db.swaps.delete uuid, provider := db.provider.delete uuid }

/-- The `UPDATE` of `load_address`: only a swap that still needs an address. -/
def Swap.giveAddress (address : String) (r : Swap) : Swap :=
  if r.state = .needsOnchainAddress then
    { r with address := some address, state := .needsInvoice }
  else r

/-- The `UPDATE` of `swap_reduce_or_fail`. -/
def Swap.reduce (amount : UInt64) (r : Swap) : Swap :=
  { r with state := .needsInvoice, amount := amount }

/-- The `UPDATE` of `on_swap_creation`. -/
def Swap.await (hash : Hash) (timeout : UInt32) (r : Swap) : Swap :=
  { r with state := .awaitingResult hash timeout }

theorem Swap.giveAddress_uuid (a : String) (r : Swap) : (r.giveAddress a).uuid = r.uuid := by
  unfold Swap.giveAddress
  by_cases h : r.state = .needsOnchainAddress
  · rw [if_pos h]
  · rw [if_neg h]

theorem Swap.reduce_uuid (amount : UInt64) (r : Swap) : (r.reduce amount).uuid = r.uuid := rfl

theorem Swap.await_uuid (h : Hash) (t : UInt32) (r : Swap) : (r.await h t).uuid = r.uuid := rfl

/-! ## The greenthreads -/

/-- `Quotation`; providers are told apart by their pointer. -/
structure Quotation where
  score        : UInt64
  provider     : Nat
  providerName : String
deriving DecidableEq

/-- A successful `Msg::SwapCreation`. -/
structure Creation where
  invoice : String
  hash    : Hash
  timeout : UInt32

/-- Where `loop_needs_address` is. -/
inductive AddressLoop where
  /-- not running: `getting_address` is clear -/
  | idle
  /-- waiting for its transaction -/
  | fetching
  /-- `RequestNewaddr` raised -/
  | asked
  /-- `on_response_newaddr` waiting for its transaction -/
  | loading (address : String)
  /-- `load_address` done, `true` if the invoice loop is to be started -/
  | loaded (startInvoice : Bool)
  /-- about to loop -/
  | resuming

/-- Where `loop_needs_invoice` is. -/
inductive InvoiceLoop where
  /-- not running: `getting_invoice` is clear -/
  | idle
  /-- waiting for its transaction -/
  | soliciting
  /-- `SolicitSwapQuotation` raised -/
  | collecting
  /-- about to enter `loop_quotations` again -/
  | choosing
  /-- `AcceptSwapQuotation` raised -/
  | accepting
  /-- `on_swap_creation` waiting for its transaction -/
  | creating (creation : Creation) (providerName : String)
  /-- `PayInvoice` raised, the entry not popped yet -/
  | paying
  /-- no quotation left: entry popped, `swap_reduce_or_fail` not begun -/
  | reducing (uuid : Uuid)
  /-- about to go to the next swap -/
  | reduced
  /-- stopped by an exception, `getting_invoice` left set -/
  | dead

/-- Any other greenthread, by what it does when it is resumed. -/
inductive Task where
  | loadAddress
  | loadInvoice
  | checkPayments
  | startAddress
  | startInvoice
  | paySuccess (hash : Hash) (amountSent : Amount)
  | payFailed (hash : Hash)
  | reduce (uuid : Uuid)
  | fundsLoop
  | onchainSeen (hash : Hash) (amountReceived : Amount) (providerName : String)
  | block (height : UInt32)

/-- What the module shows: the messages it raises (with the swap or hash they
    are about), and the reports on a payment it has processed. -/
inductive Out where
  | requestNewaddr
  | solicitSwapQuotation (amount : Amount)
  | acceptSwapQuotation (amount : Amount) (address : String) (provider : Nat)
  | payInvoice (uuid : Uuid) (hash : Hash) (invoice : String)
  | swapResponse (uuid : Uuid) (success : Bool) (onchainAmount : Amount)
  | requestListpays (hash : Hash)
  | swapCompleted (hash : Hash) (amountSent amountReceived : Amount) (providerName : String)
  | payFailure (uuid : Uuid) (hash : Hash)
  | timedOut (uuid : Uuid) (hash : Hash)
  | paySucceeded (hash : Hash) (amountSent : Amount)
  | onchainArrived (hash : Hash) (amountReceived : Amount)
deriving DecidableEq

/-- The module: database, members, greenthreads. -/
structure State where
  db           : Db
  needsAddress : List Uuid
  needsInvoice : List Uuid
  addressLoop  : AddressLoop
  invoiceLoop  : InvoiceLoop
  quotations   : List Quotation
  amount       : Amount
  address      : String
  onchainFunds : List (String × Amount)
  tasks        : List Task

/-- `getting_address`. -/
def State.gettingAddress (s : State) : Bool :=
  match s.addressLoop with
  | .idle => false
  | _     => true

/-- `getting_invoice`. -/
def State.gettingInvoice (s : State) : Bool :=
  match s.invoiceLoop with
  | .idle => false
  | _     => true

/-- `Boss::concurrent`. -/
def State.spawn (s : State) (t : Task) : State := { s with tasks := s.tasks ++ [t] }

/-- `on_init`: nothing in memory, blank cached addresses removed, and
    `on_periodic` started. -/
def boot (db : Db) : State where
  db           := { db with addrcache := db.addrcache.filter (· ≠ "") }
  needsAddress := []
  needsInvoice := []
  addressLoop  := .idle
  invoiceLoop  := .idle
  quotations   := []
  amount       := ⟨0⟩
  address      := ""
  onchainFunds := []
  tasks        := [.loadAddress]

/-! ## Getting addresses -/

/-- `loop_needs_address`, up to its transaction. -/
def loopNeedsAddress (s : State) : State :=
  if s.needsAddress = [] then { s with addressLoop := .idle }
  else { s with addressLoop := .fetching }

/-- `process_needs_address`. -/
def processNeedsAddress (s : State) : State :=
  if s.gettingAddress then s else loopNeedsAddress s

/-- `loop_needs_invoice`, up to its transaction. -/
def loopNeedsInvoice (s : State) : State :=
  if s.needsInvoice = [] then { s with invoiceLoop := .idle }
  else { s with invoiceLoop := .soliciting, quotations := [] }

/-- `process_needs_invoice`. -/
def processNeedsInvoice (s : State) : State :=
  if s.gettingInvoice then s else loopNeedsInvoice s

/-- `load_queue`: an empty queue is filled with the swaps in the given state. -/
def loadQueue (db : Db) (q : List Uuid) (column : Nat) : List Uuid :=
  if q = [] then (db.swaps.rows.filter (fun r => r.state.column = column)).map Swap.uuid
  else q

/-- `load_address`, up to its log line. -/
def loadAddress (s : State) (uuid : Uuid) (address : String) : State :=
  { s with
    db := { s.db with
      swaps := s.db.swaps.update uuid (Swap.giveAddress address) (Swap.giveAddress_uuid address) }
    needsAddress := s.needsAddress.tail
    addressLoop  := .loaded s.needsInvoice.isEmpty
    needsInvoice := s.needsInvoice ++ [uuid] }

/-- The transaction of `loop_needs_address`: a cached address if there is one,
    else a new one is asked for. -/
def fetchAddress (s : State) (uuid : Uuid) : State × List Out :=
  match s.db.addrcache.find? (· ≠ "") with
  | some address =>
      (loadAddress { s with db := { s.db with
          addrcache := s.db.addrcache.eraseP (· ≠ "") } } uuid address, [])
  | none => ({ s with addressLoop := .asked }, [.requestNewaddr])

/-- Resume the address loop.  The front of an empty queue is never read. -/
def stepAddress (s : State) : Option (State × List Out) :=
  match s.addressLoop with
  | .idle            => none
  | .fetching        => s.needsAddress.head?.map (fetchAddress s)
  | .asked           => none
  | .loading address => s.needsAddress.head?.map (fun uuid => (loadAddress s uuid address, []))
  | .loaded start    =>
      some ({ (if start then processNeedsInvoice s else s) with addressLoop := .resuming }, [])
  | .resuming        => some (loopNeedsAddress s, [])

/-! ## Negotiating invoices -/

/-- The draws of the random engine, and the order `std::sort` leaves the
    quotations in. -/
structure Draws where
  scores : List UInt64
  sorted : List Quotation
  pick   : UInt64

/-- `sorted` is what randomising each score down and sorting, highest score
    first, can produce. -/
def RandomSort (quotations : List Quotation) (d : Draws) : Prop :=
  List.Forall₂ (fun score (q : Quotation) => score ≤ q.score) d.scores quotations
    ∧ d.sorted.Perm (List.zipWith (fun score (q : Quotation) => { q with score := score })
        d.scores quotations)
    ∧ d.sorted.Pairwise (fun a b => b.score ≤ a.score)

instance (quotations : List Quotation) (d : Draws) : Decidable (RandomSort quotations d) :=
  inferInstanceAs (Decidable (_ ∧ _ ∧ _))

/-- The transaction of `loop_needs_invoice`.  Without a row the members keep
    what they held. -/
def solicit (s : State) (uuid : Uuid) : State × List Out :=
  let s' := match s.db.swaps.get uuid with
    | none   => s
    | some r => { s with amount := ⟨r.amount⟩, address := r.address.getD "" }
  ({ s' with invoiceLoop := .collecting }, [.solicitSwapQuotation s'.amount])

/-- `loop_quotations`. -/
def loopQuotations (s : State) : Option (State × List Out) :=
  match s.quotations.getLast? with
  | none   =>
      match s.needsInvoice with
      | []           => none
      | uuid :: rest => some ({ s with needsInvoice := rest, invoiceLoop := .reducing uuid }, [])
  | some q =>
      some ({ s with invoiceLoop := .accepting },
        [.acceptSwapQuotation s.amount s.address q.provider])

/-- `on_swap_creation`, up to its transaction; `none` is a refusal. -/
def onSwapCreation (s : State) (creation : Option Creation) : Option (State × List Out) :=
  match s.invoiceLoop, s.quotations.getLast? with
  | .accepting, some q =>
      match creation with
      | none   =>
          some ({ s with quotations := s.quotations.dropLast, invoiceLoop := .choosing }, [])
      | some c => some ({ s with invoiceLoop := .creating c q.providerName }, [])
  | _, _ => none

/-- The transaction of `on_swap_creation`.  Without the swap's row the insert
    violates the foreign key, which rolls back and ends the greenthread. -/
def createSwap (s : State) (uuid : Uuid) (c : Creation) (providerName : String) :
    State × List Out :=
  match s.db.swaps.get uuid with
  | none   => ({ s with invoiceLoop := .dead }, [])
  | some _ =>
      ({ s with
        db := { s.db with
          swaps := s.db.swaps.update uuid (Swap.await c.hash c.timeout)
            (Swap.await_uuid c.hash c.timeout)
          provider := s.db.provider.insertOrReplace ⟨uuid, providerName⟩ }
        invoiceLoop := .paying }, [.payInvoice uuid c.hash c.invoice])

/-- `fail_swap`: the address goes to the cache, the row goes away. -/
def failSwap (s : State) (uuid : Uuid) : State × List Out :=
  let address := ((s.db.swaps.get uuid).bind Swap.address).getD ""
  ({ s with
    db := { s.db.deleteSwap uuid with
      addrcache := if address ≠ "" then s.db.addrcache ++ [address] else s.db.addrcache } },
    [.swapResponse uuid false ⟨0⟩])

/-- Put the swap back into negotiation with a lower amount. -/
def requeue (s : State) (uuid : Uuid) (amount : UInt64) : State :=
  { s with
    db := { s.db with
      swaps := s.db.swaps.update uuid (Swap.reduce amount) (Swap.reduce_uuid amount) }
    needsInvoice := s.needsInvoice ++ [uuid] }

/-- The columns `swap_reduce_or_fail` reads; both stay 0 without a row. -/
def amounts (s : State) (uuid : Uuid) : UInt64 × UInt64 :=
  match s.db.swaps.get uuid with
  | none   => (0, 0)
  | some r => (r.amount, r.minAmount)

/-- The transaction of `swap_reduce_or_fail`; `pick` is the draw from
    `[amount / 4, amount * 3 / 4]`.  The flag says whether it was requeued. -/
def swapReduceOrFail (s : State) (uuid : Uuid) (pick : UInt64) :
    Option (State × List Out × Bool) :=
  let amount := (amounts s uuid).1
  let minAmount := (amounts s uuid).2
  if amount = minAmount then
    some ((failSwap s uuid).1, (failSwap s uuid).2, false)
  else if amount / 4 ≤ pick ∧ pick ≤ amount * 3 / 4 then
    some (requeue s uuid (if pick < minAmount then minAmount else pick), [], true)
  else none

/-- Resume the invoice loop. -/
def stepInvoice (s : State) (d : Draws) : Option (State × List Out) :=
  match s.invoiceLoop with
  | .idle            => none
  | .soliciting      => s.needsInvoice.head?.map (solicit s)
  | .collecting      =>
      if RandomSort s.quotations d then loopQuotations { s with quotations := d.sorted }
      else none
  | .choosing        => loopQuotations s
  | .accepting       => none
  | .creating c name => s.needsInvoice.head?.map (fun uuid => createSwap s uuid c name)
  | .paying          => some (loopNeedsInvoice { s with needsInvoice := s.needsInvoice.tail }, [])
  | .reducing uuid   =>
      (swapReduceOrFail s uuid d.pick).map
        (fun r => ({ r.1 with invoiceLoop := .reduced }, r.2.1))
  | .reduced         => some (loopNeedsInvoice s, [])
  | .dead            => none

/-! ## Payments, blocks and onchain funds -/

/-- The body of `on_pay_success`. -/
def onPaySuccess (s : State) (hash : Hash) (amountSent : Amount) : State × List Out :=
  match s.db.compOnchain.get hash with
  | some c =>
      ({ s with db := { s.db with compOnchain := s.db.compOnchain.delete hash } },
        [.paySucceeded hash amountSent,
          .swapCompleted hash amountSent c.amountReceived c.providerName])
  | none   =>
      ({ s with db := { s.db with compPay := s.db.compPay.insertOrIgnore ⟨hash, amountSent⟩ } },
        [.paySucceeded hash amountSent])

/-- The body of `on_onchain_funds_seen`. -/
def onOnchainFundsSeen (s : State) (hash : Hash) (amountReceived : Amount)
    (providerName : String) : State × List Out :=
  match s.db.compPay.get hash with
  | some c =>
      ({ s with db := { s.db with compPay := s.db.compPay.delete hash } },
        [.onchainArrived hash amountReceived,
          .swapCompleted hash c.amountSent amountReceived providerName])
  | none   =>
      ({ s with db := { s.db with
          compOnchain := s.db.compOnchain.insertOrIgnore ⟨hash, amountReceived, providerName⟩ } },
        [.onchainArrived hash amountReceived])

/-- The transaction of `on_response_listpays` for a failed payment: the last
    row with that hash. -/
def onPayFailed (s : State) (hash : Hash) : State × List Out :=
  match (s.db.swaps.rows.filter (fun r => r.paymentHash = some hash)).getLast? with
  | none   => (s, [])
  | some r => (s.spawn (.reduce r.uuid), [.payFailure r.uuid hash])

/-- A swap that awaits its result past its timeout, with its hash. -/
def timedOutAt (height : UInt32) (r : Swap) : Option (Uuid × Hash) :=
  match r.state with
  | .awaitingResult h t => if t ≤ height then some (r.uuid, h) else none
  | _                   => none

/-- The transaction of `on_block`; the found swaps are processed in
    greenthreads of their own. -/
def onBlock (s : State) (height : UInt32) : State × List Out :=
  let remove := s.db.swaps.rows.filterMap (timedOutAt height)
  ({ s with tasks := s.tasks ++ remove.map (fun p => .reduce p.1) },
    remove.map (fun p => .timedOut p.1 p.2))

/-- A swap that awaits funds at `address`, with its hash. -/
def awaitingAt (address : String) (r : Swap) : Option (Uuid × Hash) :=
  match r.state with
  | .awaitingResult h _ => if r.address = some address then some (r.uuid, h) else none
  | _                   => none

/-- One round of `loop_onchain_funds`. -/
def loopOnchainFunds (s : State) : State × List Out :=
  match s.onchainFunds with
  | []           => (s, [])
  | fund :: rest =>
      match (s.db.swaps.rows.filterMap (awaitingAt fund.1)).getLast? with
      | none   => ({ s with onchainFunds := rest, tasks := s.tasks ++ [.fundsLoop] }, [])
      | some p =>
          let name := ((s.db.provider.get p.1).map Provider.name).getD "<Unknown>"
          ({ s with
            db := s.db.deleteSwap p.1
            onchainFunds := rest
            tasks := s.tasks ++ [.onchainSeen p.2 fund.2 name, .fundsLoop] },
            [.swapResponse p.1 true fund.2])

/-- `on_listfunds_result`.  A malformed output throws: what was read before it
    stays queued and no loop is started. -/
def onListfundsResult (s : State) (outputs : List (Option (String × Amount))) : State :=
  let s' := { s with
    onchainFunds := s.onchainFunds ++ (outputs.takeWhile Option.isSome).filterMap id }
  if outputs.all Option.isSome ∧ s.onchainFunds = [] then s'.spawn .fundsLoop else s'

/-- `on_swap_request`. -/
def onSwapRequest (s : State) (uuid : Uuid) (minAmount maxAmount : Amount) : State :=
  if h : s.db.swaps.get uuid = none then
    { s with
      db := { s.db with
        swaps := s.db.swaps.insert
          ⟨uuid, maxAmount.toMsat, minAmount.toMsat, .needsOnchainAddress, none⟩ h }
      needsAddress := s.needsAddress ++ [uuid]
      tasks := s.tasks ++ [.startAddress] }
  else s

/-- Resume a greenthread of the pool (already taken out of it). -/
def stepTask (s : State) (pick : UInt64) : Task → Option (State × List Out)
  | .loadAddress =>
      some ((processNeedsAddress { s with
        needsAddress := loadQueue s.db s.needsAddress 0 }).spawn .loadInvoice, [])
  | .loadInvoice =>
      some ((processNeedsInvoice { s with
        needsInvoice := loadQueue s.db s.needsInvoice 1 }).spawn .checkPayments, [])
  | .checkPayments =>
      some (s, (s.db.swaps.rows.filterMap Swap.paymentHash).map .requestListpays)
  | .startAddress => some (processNeedsAddress s, [])
  | .startInvoice => some (processNeedsInvoice s, [])
  | .paySuccess hash amountSent => some (onPaySuccess s hash amountSent)
  | .payFailed hash => some (onPayFailed s hash)
  | .reduce uuid =>
      (swapReduceOrFail s uuid pick).map
        (fun r => (if r.2.2 then r.1.spawn .startInvoice else r.1, r.2.1))
  | .fundsLoop => some (loopOnchainFunds s)
  | .onchainSeen hash amountReceived name => some (onOnchainFundsSeen s hash amountReceived name)
  | .block height => some (onBlock s height)

/-! ## The machine -/

/-- `StatusListpays`. -/
inductive StatusListpays where
  | nonexistent
  | pending
  | success
  | failed

/-- What can happen next. -/
inductive Event where
  /-- a message from the bus -/
  | timer10Minutes
  | responseNewaddr (address : String)
  | provideSwapQuotation (fee : Amount) (provider : Nat) (providerName : String)
  | swapCreation (creation : Option Creation)
  | responseListpays (hash : Hash) (status : StatusListpays) (amountSent : Amount)
  | listfundsResult (outputs : List (Option (String × Amount)))
  | swapRequest (uuid : Uuid) (minAmount maxAmount : Amount)
  | block (height : UInt32)
  /-- a greenthread is resumed -/
  | address
  | invoice (draws : Draws)
  | task (n : Nat) (pick : UInt64)
  /-- the process ends and is started again on the same database -/
  | restart

/-- `on_response_listpays`, up to its transaction. -/
def onResponseListpays (s : State) (hash : Hash) (amountSent : Amount) :
    StatusListpays → State
  | .success => s.spawn (.paySuccess hash amountSent)
  | .failed  => s.spawn (.payFailed hash)
  | _        => s

/-- `ResponseNewaddr` answers a `RequestNewaddr`. -/
def onResponseNewaddr (s : State) (address : String) : Option State :=
  match s.addressLoop with
  | .asked => some { s with addressLoop := .loading address }
  | _      => none

/-- `on_provide_swap_quotation`: providers reply while the solicitation is
    being raised. -/
def onProvideSwapQuotation (s : State) (q : Quotation) : Option State :=
  match s.invoiceLoop with
  | .collecting => some { s with quotations := s.quotations ++ [q] }
  | _           => none

/-- One step. -/
def step (s : State) : Event → Option (State × List Out)
  | .timer10Minutes => some (s.spawn .loadAddress, [])
  | .responseNewaddr address => (onResponseNewaddr s address).map (·, [])
  | .provideSwapQuotation fee provider name =>
      (onProvideSwapQuotation s ⟨fee.toMsat, provider, name⟩).map (·, [])
  | .swapCreation creation => onSwapCreation s creation
  | .responseListpays hash status amountSent =>
      some (onResponseListpays s hash amountSent status, [])
  | .listfundsResult outputs => some (onListfundsResult s outputs, [])
  | .swapRequest uuid minAmount maxAmount => some (onSwapRequest s uuid minAmount maxAmount, [])
  | .block height => some (s.spawn (.block height), [])
  | .address => stepAddress s
  | .invoice draws => stepInvoice s draws
  | .task n pick =>
      (s.tasks[n]?).bind (stepTask { s with tasks := s.tasks.eraseIdx n } pick)
  | .restart => some (boot s.db, [])

/-- Runs from the first start. -/
def run (es : List Event) : Option (State × List Out) := Machine.run step (boot Db.empty) es

end SwapManager
