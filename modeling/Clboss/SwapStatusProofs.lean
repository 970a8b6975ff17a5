import Clboss.ClaimTxProofs
import Clboss.JsmnObjectProofs
import Clboss.MachineProofs

/-! # `Boltz::Detail::ServiceImpl::on_block` — what a server can do to the loop

    On every block each ongoing swap is asked for at the server.  The answers
    are looked at in four layers: the connection, the JSON accessors, the
    transaction parser and the claim handler.  `swap_on_block` catches what the
    first two throw by contract, `ApiError` and `TypeError`; what the parser
    throws, a body that is no JSON, and an assertion in the accessors pass
    through `Ev::foreach` and the bus into the loop of `BlockTracker`, which
    ends.

    `Harmless` says of one answer that none of this happens.  The headline
    `loops_on_iff_harmless` is about the loop: as long as our own side does its
    part, it goes on EXACTLY while every answer is harmless. -/

namespace Boltz

open ByteStream Bitcoin Ln Await

variable {K : Type}

/-! ## Reading an answer -/

/-- What the connection makes of an answer: `ApiError`, the parser's exception,
    or an object, the positions in whose text are `int`s. -/
inductive StatusReply where
  | apiError
  | parseError
  | object (sres : Jsmn.Object) (length_lt : sres.length < 2 ^ 31)

/-- A string field. -/
def stringField (o : Jsmn.Object) (key : String) : Except Jsmn.Failure (List UInt8) := do
  let v ← o.index key
  v.str

/-- The states `swap_on_block` tells apart. -/
inductive Status where
  | pending
  | gone
  | settled
  | confirmed
  | unknown
deriving DecidableEq

/-- The comparisons with `status`. -/
def Status.ofText (status : List UInt8) : Status :=
  if status = "swap.created".toUTF8.toList ∨ status = "transaction.mempool".toUTF8.toList then
    .pending
  else if status = "transaction.failed".toUTF8.toList
      ∨ status = "transaction.refunded".toUTF8.toList
      ∨ status = "swap.expired".toUTF8.toList then .gone
  else if status = "invoice.settled".toUTF8.toList then .settled
  else if status = "transaction.confirmed".toUTF8.toList then .confirmed
  else .unknown

/-- What the `try` block returns. -/
inductive Kont where
  | serverError (err : List UInt8)
  | nothing
  | errored
  | finished
  | onchain (tx : Tx)

/-- What ends the `try` block. -/
inductive Thrown where
  | access (f : Jsmn.Failure)
  | tx (e : Tx.Error)

/-- The transaction of a confirmed swap. -/
def readTransaction (junk : Nat → UInt8) (sres : Jsmn.Object) : Except Thrown Kont := do
  let transaction ← (sres.index "transaction").mapError .access
  let txhex ← (stringField transaction "hex").mapError .access
  let tx ← (Tx.ofHex junk txhex).mapError .tx
  return .onchain tx

/-- The `try` block of `swap_on_block`. -/
def readStatus (junk : Nat → UInt8) (sres : Jsmn.Object) : Except Thrown Kont := do
  let hasError ← (sres.has "error").mapError .access
  if hasError then
    let err ← (stringField sres "error").mapError .access
    return .serverError err
  else
    let status ← (stringField sres "status").mapError .access
    match Status.ofText status with
    | .pending   => return .nothing
    | .gone      => return .errored
    | .settled   => return .finished
    | .confirmed => readTransaction junk sres
    | .unknown   => return .nothing

/-! ## Handling a swap -/

/-- `prefixlog`. -/
def prefixlog (label msg : String) : String := "Boltz::Service(\"" ++ label ++ "\"): " ++ msg

/-- `ServiceImpl::logd`. -/
def serviceLogd (label : String) (o : Outcomes) (msg : String) : Run Unit := do
  Io.emit (.logd (prefixlog label msg))
  Io.await o.toScript

/-- `ServiceImpl::loge`. -/
def serviceLoge (label : String) (o : Outcomes) (msg : String) : Run Unit := do
  Io.emit (.loge (prefixlog label msg))
  Io.await o.toScript

/-- `delete_swap`. -/
def deleteSwap (label : String) (o : Outcomes) (swapId : String) : Run Unit := do
  Io.await o.toScript
  if o.commitOk then Io.write (fun t => t.delete (label, swapId)) else Io.throw .other

/-- `swap_errored`. -/
def swapErrored (label : String) (o : Outcomes) (swapId : String) : Run Unit := do
  serviceLoge label o ("\"" ++ swapId ++ "\": Server will no longer swap.")
  deleteSwap label o swapId

/-- `swap_finished`. -/
def swapFinished (label : String) (o : Outcomes) (swapId : String) : Run Unit := do
  serviceLogd label o ("\"" ++ swapId ++ "\": Done.")
  deleteSwap label o swapId

/-- `swap_onchain`; a transaction with more outputs does not fit into an
    answer. -/
def swapOnchain (c : Crypto K) (label : String) (height : UInt32) (o : Outcomes) (swapId : String)
    (tx : Tx) : Run Unit :=
  if h : tx.outputs.toList.length < 2 ^ 31 then coreRun c ⟨label, swapId, height, tx, h⟩ o
  else Io.throw .other

/-- The continuation. -/
def Kont.run (c : Crypto K) (label : String) (height : UInt32) (o : Outcomes) (swapId : String) :
    Kont → Run Unit
  | .serverError err => do
      serviceLoge label o ("\"" ++ swapId ++ "\": Server error: "
        ++ String.ofList (err.map (fun b => Char.ofNat b.toNat)))
      swapErrored label o swapId
  | .nothing    => pure ()
  | .errored    => swapErrored label o swapId
  | .finished   => swapFinished label o swapId
  | .onchain tx => swapOnchain c label height o swapId tx

/-- What follows the connection's answer in `swap_on_block`.  The log line prints
    the object first; what is not caught ends the handling. -/
def onReply (c : Crypto K) (junk : Nat → UInt8) (label : String) (height : UInt32) (o : Outcomes)
    (swapId : String) : StatusReply → Run Unit
  | .apiError => serviceLoge label o ("/swapstatus \"" ++ swapId ++ "\" not accessible.")
  | .parseError => Io.throw .other
  | .object sres _ => do
      if sres.prints then
        serviceLogd label o ("/swapstatus \"" ++ swapId ++ "\" => ")
        match readStatus junk sres with
        | .ok kont => kont.run c label height o swapId
        | .error (.access .typeError) =>
            serviceLoge label o ("/swapstatus \"" ++ swapId ++ "\" returned invalid JSON: ")
        | .error _ => Io.throw .other
      else Io.throw .other

/-- `swap_on_block`. -/
def swapOnBlock (c : Crypto K) (junk : Nat → UInt8) (label : String) (height : UInt32)
    (reply : String → StatusReply) (swap : String → Outcomes) (swapId : String) : Run Unit := do
  Io.await (swap swapId).toScript
  onReply c junk label height (swap swapId) swapId (reply swapId)

/-! ## A block -/

/-- The rows whose locktime is over. -/
def timedOut (label : String) (height : UInt32) (r : Rsub) : Bool :=
  r.apiAccess = label && decide (r.timeoutBlockheight ≤ height)

/-- The swaps still ongoing. -/
def ongoing (label : String) (height : UInt32) (t : Table) : List String :=
  ((t.deleteWhere (timedOut label height)).rows.filter (fun r => r.apiAccess = label)).map
    Rsub.swapId

/-- The log line, unless there is nothing to log. -/
def logSwaps (label : String) (o : Outcomes) (swapIds : List String) : Run Unit :=
  if swapIds.isEmpty then pure ()
  else serviceLogd label o
    ("Swaps: " ++ String.intercalate ", " (swapIds.map (fun id => "\"" ++ id ++ "\"")))

/-- `on_block` up to the end of every swap's handling. -/
def handleSwaps (c : Crypto K) (junk : Nat → UInt8) (label : String) (height : UInt32)
    (o : Outcomes) (reply : String → StatusReply) (swap : String → Outcomes) :
    Run (List (Except Exn Unit)) := do
  Io.await o.toScript
  let t ← Io.read
  if o.commitOk then
    Io.write (fun t => t.deleteWhere (timedOut label height))
    logSwaps label o (ongoing label height t)
    Io.forEach (swapOnBlock c junk label height reply swap) (ongoing label height t)
  else Io.throw .other

/-- One of the exceptions, if there is any. -/
def raised : List (Except Exn Unit) → Option Exn
  | []             => none
  | .ok _ :: rs    => raised rs
  | .error e :: rs => some ((raised rs).getD e)

/-- `on_block`. -/
def onBlock (c : Crypto K) (junk : Nat → UInt8) (label : String) (height : UInt32) (o : Outcomes)
    (reply : String → StatusReply) (swap : String → Outcomes) : Run Unit := do
  let rs ← handleSwaps c junk label height o reply swap
  match raised rs with
  | none   => pure ()
  | some e => Io.throw e

/-! ## Harmless answers -/

/-- The answer reports a confirmed transaction and gives it as `txhex`. -/
def Confirms (sres : Jsmn.Object) (txhex : List UInt8) : Prop :=
  sres.has "error" = .ok false
    ∧ (∃ status, stringField sres "status" = .ok status ∧ Status.ofText status = .confirmed)
    ∧ ∃ transaction, sres.index "transaction" = .ok transaction
      ∧ stringField transaction "hex" = .ok txhex

/-- The connection fails as it should or delivers JSON without the escape of a
    slash, and the transaction of a confirmed swap is one. -/
def Harmless (junk : Nat → UInt8) : StatusReply → Prop
  | .apiError      => True
  | .parseError    => False
  | .object sres _ => sres.prints = true
      ∧ ∀ txhex, Confirms sres txhex → ∃ tx, Tx.ofHex junk txhex = .ok tx

theorem stringField_of_prints {o : Jsmn.Object} (h : o.prints = true) (key : String) :
    stringField o key = .error .typeError ∨ ∃ s, stringField o key = .ok s := by
  unfold stringField
  rcases Jsmn.Object.index_of_prints h key with hindex | ⟨v, hindex, hv⟩
  · rw [hindex]
    exact Or.inl rfl
  · rw [hindex]
    exact Jsmn.Object.str_of_prints hv

theorem length_stringField {o : Jsmn.Object} {key : String} {s : List UInt8}
    (h : stringField o key = .ok s) : s.length ≤ 2 * o.length := by
  unfold stringField at h
  cases hindex : o.index key with
  | error f =>
      rw [hindex] at h
      cases h
  | ok v =>
      rw [hindex] at h
      have := Jsmn.Object.length_index hindex
      have := Jsmn.Object.length_str (o := v) h
      omega

/-- What reading an answer comes to: a type error, a continuation, or an
    exception of the transaction parser. -/
inductive Reading (junk : Nat → UInt8) (sres : Jsmn.Object) : Except Thrown Kont → Prop
  | typeError (h : ∀ txhex, ¬ Confirms sres txhex) :
      Reading junk sres (.error (.access .typeError))
  | other (k : Kont) (hk : ∀ tx, k ≠ .onchain tx) (h : ∀ txhex, ¬ Confirms sres txhex) :
      Reading junk sres (.ok k)
  | onchain (txhex : List UInt8) (tx : Tx) (h : Confirms sres txhex)
      (htx : Tx.ofHex junk txhex = .ok tx) : Reading junk sres (.ok (.onchain tx))
  | badTx (txhex : List UInt8) (e : Tx.Error) (h : Confirms sres txhex)
      (htx : Tx.ofHex junk txhex = .error e) : Reading junk sres (.error (.tx e))

/-- A confirmed swap comes with one transaction text at most. -/
theorem Confirms.unique {sres : Jsmn.Object} {txhex txhex' : List UInt8} (h : Confirms sres txhex)
    (h' : Confirms sres txhex') : txhex = txhex' := by
  obtain ⟨-, -, t, ht, hhex⟩ := h
  obtain ⟨-, -, t', ht', hhex'⟩ := h'
  rw [ht] at ht'
  cases ht'
  rw [hhex] at hhex'
  exact Except.ok.inj hhex'

/-- The transaction part of the reading. -/
theorem readTransaction_reading {junk : Nat → UInt8} {sres : Jsmn.Object} (h : sres.prints = true)
    (herr : sres.has "error" = .ok false) {status : List UInt8}
    (hstatus : stringField sres "status" = .ok status) (hconf : Status.ofText status = .confirmed) :
    Reading junk sres (readTransaction junk sres) := by
  unfold readTransaction
  rcases Jsmn.Object.index_of_prints h "transaction" with htr | ⟨transaction, htr, hprints⟩
  · rw [htr]
    refine Reading.typeError ?_
    rintro txhex ⟨-, -, t, ht, -⟩
    rw [htr] at ht
    cases ht
  · rw [htr]
    rcases stringField_of_prints hprints "hex" with hhex | ⟨txhex, hhex⟩
    · show Reading junk sres (((stringField transaction "hex").mapError Thrown.access) >>= _)
      rw [hhex]
      refine Reading.typeError ?_
      rintro txhex ⟨-, -, t, ht, hs⟩
      rw [htr] at ht
      cases ht
      rw [hhex] at hs
      cases hs
    · show Reading junk sres (((stringField transaction "hex").mapError Thrown.access) >>= _)
      rw [hhex]
      have hc : Confirms sres txhex := ⟨herr, ⟨status, hstatus, hconf⟩, transaction, htr, hhex⟩
      show Reading junk sres (((Tx.ofHex junk txhex).mapError Thrown.tx) >>= _)
      cases htx : Tx.ofHex junk txhex with
      | error e => exact Reading.badTx txhex e hc htx
      | ok tx => exact Reading.onchain txhex tx hc htx

/-- **SPEC**: every answer that prints is read in one of these ways. -/
theorem readStatus_reading (junk : Nat → UInt8) {sres : Jsmn.Object} (h : sres.prints = true) :
    Reading junk sres (readStatus junk sres) := by
  have hhas : sres.has "error" = .error .typeError ∨ ∃ b, sres.has "error" = .ok b := by
    unfold Jsmn.Object.has
    rcases Jsmn.Object.index_of_prints h "error" with hindex | ⟨v, hindex, -⟩
    · rw [hindex]
      exact Or.inl rfl
    · rw [hindex]
      exact Or.inr ⟨v.isSome, rfl⟩
  unfold readStatus
  rcases hhas with herr | ⟨b, herr⟩
  · rw [herr]
    refine Reading.typeError ?_
    rintro txhex ⟨hfalse, -⟩
    rw [herr] at hfalse
    cases hfalse
  · rw [herr]
    cases b with
    | true =>
        have hno : ∀ txhex, ¬ Confirms sres txhex := by
          rintro txhex ⟨hfalse, -⟩
          rw [herr] at hfalse
          cases hfalse
        show Reading junk sres (((stringField sres "error").mapError Thrown.access) >>= _)
        rcases stringField_of_prints h "error" with hs | ⟨err, hs⟩
        · rw [hs]
          exact Reading.typeError hno
        · rw [hs]
          exact Reading.other (.serverError err) (fun _ hk => by cases hk) hno
    | false =>
        show Reading junk sres (((stringField sres "status").mapError Thrown.access) >>= _)
        rcases stringField_of_prints h "status" with hs | ⟨status, hs⟩
        · rw [hs]
          refine Reading.typeError ?_
          rintro txhex ⟨-, ⟨status, hstatus, -⟩, -⟩
          rw [hs] at hstatus
          cases hstatus
        · rw [hs]
          have hno : Status.ofText status ≠ .confirmed → ∀ txhex, ¬ Confirms sres txhex := by
            rintro hne txhex ⟨-, ⟨status', hstatus, hconf⟩, -⟩
            rw [hs] at hstatus
            cases hstatus
            exact hne hconf
          show Reading junk sres (match Status.ofText status with
            | .pending   => .ok .nothing
            | .gone      => .ok .errored
            | .settled   => .ok .finished
            | .confirmed => readTransaction junk sres
            | .unknown   => .ok .nothing)
          cases hst : Status.ofText status with
          | confirmed => exact readTransaction_reading h herr hs hst
          | pending => exact Reading.other .nothing (fun _ hk => by cases hk) (hno (by simp [hst]))
          | gone => exact Reading.other .errored (fun _ hk => by cases hk) (hno (by simp [hst]))
          | settled => exact Reading.other .finished (fun _ hk => by cases hk) (hno (by simp [hst]))
          | unknown => exact Reading.other .nothing (fun _ hk => by cases hk) (hno (by simp [hst]))

/-! ## Our own side -/

/-- A row as `SwapSetupHandler` writes it: its texts are what they should be. -/
structure RowOk (c : Crypto K) (r : Rsub) : Prop where
  tweak        : (c.privKey r.tweak).isSome = true
  preimage     : (preimageOfText r.preimage).isSome = true
  redeemScript : (hexread r.redeemScript).isSome = true
  destination  : (c.addrToScriptPubKey r.destinationAddress).isSome = true

/-- All rows are. -/
def RowsOk (c : Crypto K) (t : Table) : Prop := ∀ r ∈ t.rows, RowOk c r

/-- Database and node do their part: no await throws, commits are accepted, and
    others write proper rows. -/
structure Quiet (c : Crypto K) (o : Outcomes) : Prop where
  throws        : ∀ n, o.throws n = none
  checkCommitOk : o.checkCommitOk = true
  commitOk      : o.commitOk = true
  others        : ∀ n t, RowsOk c t → RowsOk c (o.others n t)

/-- The invariant of all programs here. -/
def Kept (c : Crypto K) (w : World Table Act) : Prop := RowsOk c w.store

theorem RowsOk.delete {c : Crypto K} {t : Table} (h : RowsOk c t) (k : String × String) :
    RowsOk c (t.delete k) := fun r hr => h r (List.mem_of_mem_filter hr)

theorem RowsOk.deleteWhere {c : Crypto K} {t : Table} (h : RowsOk c t) (p : Rsub → Bool) :
    RowsOk c (t.deleteWhere p) := fun r hr => h r (List.mem_of_mem_filter hr)

theorem RowsOk.markLockedUp {c : Crypto K} {t : Table} (h : RowsOk c t) (hd : ClaimTxHandler)
    (out : Nat) (fees : Amount) : RowsOk c (markLockedUp c hd out fees t) := by
  intro r hr
  obtain ⟨r', hr', rfl⟩ := List.mem_map.mp hr
  have := h r' hr'
  split
  · exact ⟨this.tweak, this.preimage, this.redeemScript, this.destination⟩
  · exact this

section OwnSide

variable {c : Crypto K} {o : Outcomes}

theorem keeps_await (ho : Quiet c o) {E : Exn → World Table Act → Prop} :
    Spec (Kept c) (Io.await o.toScript) (fun _ => Kept c) E :=
  Spec.await_quiet ho.throws (fun w hw => ho.others w.awaits w.store hw)

theorem keeps_emit (a : Act) {E : Exn → World Table Act → Prop} :
    Spec (Kept c) (Io.emit a) (fun _ => Kept c) E := Spec.emit (fun _ hw => hw)

theorem keeps_log (ho : Quiet c o) (a : Act) {E : Exn → World Table Act → Prop} :
    Spec (Kept c) (Io.emit a >>= fun _ => Io.await o.toScript) (fun _ => Kept c) E :=
  Spec.bind (keeps_emit a) (fun _ => keeps_await ho)

/-- The handler's own way out, which `core_run` catches. -/
def Ended (c : Crypto K) (e : Exn) (w : World Table Act) : Prop := e = .endRun ∧ Kept c w

theorem keeps_endAfter {α : Type} {log : Run Unit} {Q : α → World Table Act → Prop}
    (h : Spec (Kept c) log (fun _ => Kept c) (Ended c)) :
    Spec (Kept c) (endAfter log) Q (Ended c) :=
  Spec.bind h (fun _ => Spec.throw (fun _ hw => ⟨rfl, hw⟩))

/-- The fetched row pays to an address. -/
def Pays (c : Crypto K) (f : Fetched K) : Prop :=
  (c.addrToScriptPubKey f.destinationAddress).isSome = true

theorem keeps_ofOption {α : Type} {x : Option α} (h : x.isSome = true)
    {E : Exn → World Table Act → Prop} :
    Spec (Kept c) (Io.ofOption .other x) (fun _ => Kept c) E := by
  refine Spec.ofOption (fun _ _ _ hw => hw) (fun w hx _ => ?_)
  rw [hx] at h
  cases h

/-- Proper rows are fetched without an exception. -/
theorem keeps_fetchRow {r : Rsub} (hr : RowOk c r) {E : Exn → World Table Act → Prop} :
    Spec (Kept c) (fetchRow c r) (fun f w => Kept c w ∧ Pays c f) E := by
  refine Spec.bind (keeps_ofOption hr.tweak) (fun tweak => ?_)
  refine Spec.bind (keeps_ofOption hr.preimage) (fun preimage => ?_)
  refine Spec.bind (keeps_ofOption hr.redeemScript) (fun script => ?_)
  exact Spec.pure (fun w hw => ⟨hw, hr.destination⟩)

theorem keeps_checkAndFetch (ho : Quiet c o) (h : ClaimTxHandler) :
    Spec (Kept c) (checkAndFetch c h o) (fun f w => Kept c w ∧ Pays c f) (Ended c) := by
  refine Spec.bind (Q := fun s w => Kept c w ∧ RowsOk c s) (Spec.read (fun w hw => ⟨hw, hw⟩)) ?_
  intro s w hw
  obtain ⟨hw, hs⟩ := hw
  revert w
  cases hf : s.get h.key with
  | none =>
      intro w hw
      exact keeps_endAfter (keeps_log ho _) w hw
  | some r =>
      intro w hw
      refine Spec.ite (fun _ => keeps_endAfter (keeps_log ho _)) (fun _ => ?_) w hw
      refine Spec.ite (fun _ => keeps_endAfter (keeps_log ho _)) (fun _ => ?_)
      rw [UniqueTable.Table.filter_key hf]
      refine Spec.bind (Q := fun f w => Kept c w ∧ Pays c f) ?_ (fun f => ?_)
      · refine Spec.bind (keeps_fetchRow (hs r (UniqueTable.Table.mem_of_get hf))) (fun f => ?_)
        exact Spec.pure (fun _ hw => hw)
      · rw [if_pos ho.checkCommitOk]
        exact Spec.pure (fun _ hw => hw)

theorem keeps_checkLockup (ho : Quiet c o) (h : ClaimTxHandler) (f : Fetched K) :
    Spec (Kept c) (checkLockup c h o f) (fun _ => Kept c) (Ended c) := by
  refine Spec.ite (fun _ => keeps_endAfter (keeps_log ho _)) (fun _ => ?_)
  refine Spec.ite (fun _ => keeps_endAfter (keeps_log ho _)) (fun _ => ?_)
  refine Spec.ite (fun _ => keeps_endAfter (keeps_log ho _)) (fun _ => ?_)
  exact Spec.pure (fun _ hw => hw)

theorem keeps_broadcastAndMark (ho : Quiet c o) (h : ClaimTxHandler) {f : Fetched K}
    (hf : Pays c f) (out : Nat) :
    Spec (Kept c) (broadcastAndMark c h o f out) (fun _ => Kept c) (Ended c) := by
  have hbuilt : (initialClaimTx c (claimArgs c h o f out) f.destinationAddress).isSome = true := by
    unfold initialClaimTx
    rw [Option.isSome_map]
    exact hf
  refine Spec.bind (keeps_await ho) (fun _ => ?_)
  refine Spec.bind (keeps_ofOption hbuilt) (fun built => ?_)
  refine Spec.bind (keeps_emit _) (fun _ => ?_)
  refine Spec.bind (keeps_log ho _) (fun _ => ?_)
  refine Spec.bind (keeps_emit _) (fun _ => ?_)
  refine Spec.bind (keeps_await ho) (fun _ => ?_)
  refine Spec.ite (fun _ => ?_) (fun _ => keeps_endAfter (keeps_log ho _))
  refine Spec.bind (keeps_emit _) (fun _ => ?_)
  refine Spec.bind (keeps_await ho) (fun _ => ?_)
  rw [if_pos ho.commitOk]
  refine Spec.bind (Q := fun _ => Kept c) (Spec.write (fun w hw => ?_)) (fun _ => keeps_emit _)
  exact RowsOk.markLockedUp hw h out built.2

/-- **SPEC**: the claim handler ends normally, whatever transaction it is given. -/
theorem keeps_coreRun (ho : Quiet c o) (h : ClaimTxHandler) {E : Exn → World Table Act → Prop} :
    Spec (Kept c) (coreRun c h o) (fun _ => Kept c) E := by
  refine Spec.catching (F := Ended c) ?_ ?_ ?_
  · refine Spec.bind (keeps_await ho) (fun _ => ?_)
    refine Spec.bind (keeps_checkAndFetch ho h) (fun f => ?_)
    intro w hw
    refine Spec.bind (keeps_checkLockup ho h f) (fun out => ?_) w hw.1
    exact keeps_broadcastAndMark ho h hw.2 out
  · intro e k hk
    by_cases he : e = .endRun
    · rw [if_pos he] at hk
      rw [← Option.some.inj hk]
      exact Spec.pure (fun _ hw => hw.2)
    · rw [if_neg he] at hk
      cases hk
  · intro e w hnone hended
    rw [if_pos hended.1] at hnone
    cases hnone

theorem keeps_deleteSwap (ho : Quiet c o) (label swapId : String)
    {E : Exn → World Table Act → Prop} :
    Spec (Kept c) (deleteSwap label o swapId) (fun _ => Kept c) E := by
  refine Spec.bind (keeps_await ho) (fun _ => ?_)
  rw [if_pos ho.commitOk]
  exact Spec.write (fun w hw => RowsOk.delete hw _)

theorem keeps_swapErrored (ho : Quiet c o) (label swapId : String)
    {E : Exn → World Table Act → Prop} :
    Spec (Kept c) (swapErrored label o swapId) (fun _ => Kept c) E :=
  Spec.bind (keeps_log ho _) (fun _ => keeps_deleteSwap ho label swapId)

theorem keeps_kont (ho : Quiet c o) (label : String) (height : UInt32) (swapId : String) {k : Kont}
    (hk : ∀ tx, k = .onchain tx → tx.outputs.toList.length < 2 ^ 31)
    {E : Exn → World Table Act → Prop} :
    Spec (Kept c) (k.run c label height o swapId) (fun _ => Kept c) E := by
  cases k with
  | serverError err =>
      exact Spec.bind (keeps_log ho _) (fun _ => keeps_swapErrored ho label swapId)
  | nothing => exact Spec.pure (fun _ hw => hw)
  | errored => exact keeps_swapErrored ho label swapId
  | finished => exact Spec.bind (keeps_log ho _) (fun _ => keeps_deleteSwap ho label swapId)
  | onchain tx =>
      show Spec (Kept c) (swapOnchain c label height o swapId tx) (fun _ => Kept c) E
      unfold swapOnchain
      rw [dif_pos (hk tx rfl)]
      exact keeps_coreRun ho _

/-- A transaction out of an answer fits the handler. -/
theorem Confirms.outputs_lt {sres : Jsmn.Object} {txhex : List UInt8} {junk : Nat → UInt8} {tx : Tx}
    (h : Confirms sres txhex) (hlen : sres.length < 2 ^ 31) (htx : Tx.ofHex junk txhex = .ok tx) :
    tx.outputs.toList.length < 2 ^ 31 := by
  obtain ⟨-, -, transaction, hindex, hhex⟩ := h
  have := Jsmn.Object.length_index hindex
  have := length_stringField hhex
  have := Tx.length_of_ofHex htx
  omega

/-- **SPEC**: the handling of an answer ends normally exactly if it is harmless. -/
theorem keeps_onReply (ho : Quiet c o) (junk : Nat → UInt8) (label : String) (height : UInt32)
    (swapId : String) (reply : StatusReply) :
    Spec (Kept c) (onReply c junk label height o swapId reply)
      (fun _ w => Kept c w ∧ Harmless junk reply) (fun _ w => Kept c w ∧ ¬ Harmless junk reply) := by
  cases reply with
  | apiError => exact (keeps_log ho _).mono (fun _ _ hw => ⟨hw, trivial⟩) (fun _ _ hw => hw)
  | parseError => exact Spec.throw (fun _ hw => ⟨hw, fun h => h⟩)
  | object sres hlen =>
      refine Spec.ite (fun hprints => ?_) (fun hprints => ?_)
      · refine Spec.bind (keeps_log ho _) (fun _ => ?_)
        have hreading := readStatus_reading junk hprints
        revert hreading
        generalize readStatus junk sres = reading
        intro hreading
        cases hreading with
        | typeError h =>
            refine (keeps_log ho _).mono (fun _ _ hw => ⟨hw, hprints, ?_⟩) (fun _ _ hw => hw)
            exact fun txhex hc => absurd hc (h txhex)
        | other k hk h =>
            refine (keeps_kont ho label height swapId ?_).mono
              (fun _ _ hw => ⟨hw, hprints, fun txhex hc => absurd hc (h txhex)⟩) (fun _ _ hw => hw)
            exact fun tx heq => absurd heq (hk tx)
        | onchain txhex tx h htx =>
            refine (keeps_kont ho label height swapId ?_).mono
              (fun _ _ hw => ⟨hw, hprints, fun txhex' hc => ⟨tx, ?_⟩⟩) (fun _ _ hw => hw)
            · intro tx' heq
              cases heq
              exact h.outputs_lt hlen htx
            · rw [← h.unique hc]
              exact htx
        | badTx txhex e h htx =>
            refine Spec.throw (fun w hw => ⟨hw, fun hharmless => ?_⟩)
            obtain ⟨tx, hok⟩ := hharmless.2 txhex h
            rw [htx] at hok
            cases hok
      · exact Spec.throw (fun w hw => ⟨hw, fun hharmless => hprints hharmless.1⟩)

theorem keeps_swapOnBlock (junk : Nat → UInt8) (label : String) (height : UInt32)
    (reply : String → StatusReply) {swap : String → Outcomes} (hswap : ∀ id, Quiet c (swap id))
    (swapId : String) :
    Spec (Kept c) (swapOnBlock c junk label height reply swap swapId)
      (fun _ w => Kept c w ∧ Harmless junk (reply swapId))
      (fun _ w => Kept c w ∧ ¬ Harmless junk (reply swapId)) :=
  Spec.bind (keeps_await (hswap swapId))
    (fun _ => keeps_onReply (hswap swapId) junk label height swapId (reply swapId))

/-- Every swap that is ongoing when the block's transaction runs is handled, and
    well exactly if its own answer is harmless. -/
def Handled (junk : Nat → UInt8) (reply : String → StatusReply) (swapIds : List String)
    (rs : List (Except Exn Unit)) : Prop :=
  List.Forall₂ (fun id r => (∃ u, r = .ok u) ↔ Harmless junk (reply id)) swapIds rs

theorem keeps_handleSwaps (ho : Quiet c o) (junk : Nat → UInt8) (label : String) (height : UInt32)
    (reply : String → StatusReply) {swap : String → Outcomes} (hswap : ∀ id, Quiet c (swap id))
    {t : Table} {E : Exn → World Table Act → Prop} :
    Spec (fun w => Kept c w ∧ o.others w.awaits w.store = t)
      (handleSwaps c junk label height o reply swap)
      (fun rs w => Kept c w ∧ Handled junk reply (ongoing label height t) rs) E := by
  refine Spec.bind (Q := fun _ w => Kept c w ∧ w.store = t)
    (Spec.await_quiet ho.throws (fun w hw => ⟨ho.others _ _ hw.1, hw.2⟩)) (fun _ => ?_)
  refine Spec.bind (Q := fun s w => Kept c w ∧ s = t) (Spec.read (fun w hw => hw)) ?_
  intro s w hw
  obtain ⟨hw, rfl⟩ := hw
  revert w
  rw [if_pos ho.commitOk]
  refine Spec.bind (Q := fun _ => Kept c) (Spec.write (fun w hw => RowsOk.deleteWhere hw _))
    (fun _ => ?_)
  refine Spec.bind (Q := fun _ => Kept c) ?_ (fun _ => ?_)
  · exact Spec.ite (fun _ => Spec.pure (fun _ hw => hw)) (fun _ => keeps_log ho _)
  · exact Spec.forEach (fun id _ => keeps_swapOnBlock junk label height reply hswap id)

/-- Nothing is raised exactly if every handling ended well. -/
theorem raised_eq_none {rs : List (Except Exn Unit)} :
    raised rs = none ↔ ∀ r ∈ rs, ∃ u, r = .ok u := by
  induction rs with
  | nil => simp [raised]
  | cons r rs ih =>
      cases r with
      | ok u => simp [raised, ih]
      | error e => simp [raised]

theorem Handled.raised_eq_none {junk : Nat → UInt8} {reply : String → StatusReply}
    {swapIds : List String} {rs : List (Except Exn Unit)} (h : Handled junk reply swapIds rs) :
    raised rs = none ↔ ∀ id ∈ swapIds, Harmless junk (reply id) := by
  rw [Boltz.raised_eq_none]
  induction h with
  | nil => simp
  | cons hr _ ih => simp only [List.forall_mem_cons, hr, ih]

/-- **SPEC**: `on_block` completes exactly if every answer is harmless. -/
theorem keeps_onBlock (ho : Quiet c o) (junk : Nat → UInt8) (label : String) (height : UInt32)
    (reply : String → StatusReply) {swap : String → Outcomes} (hswap : ∀ id, Quiet c (swap id))
    {t : Table} :
    Spec (fun w => Kept c w ∧ o.others w.awaits w.store = t)
      (onBlock c junk label height o reply swap)
      (fun _ w => Kept c w ∧ ∀ id ∈ ongoing label height t, Harmless junk (reply id))
      (fun _ w => Kept c w ∧ ¬ ∀ id ∈ ongoing label height t, Harmless junk (reply id)) := by
  refine Spec.bind (keeps_handleSwaps ho junk label height reply hswap) (fun rs => ?_)
  intro w hw
  have hiff := hw.2.raised_eq_none
  cases hr : raised rs with
  | none => exact ⟨hw.1, hiff.mp hr⟩
  | some e =>
      refine ⟨hw.1, fun hall => ?_⟩
      rw [hiff.mpr hall] at hr
      cases hr

end OwnSide

end Boltz

/-! ## The loop over the blocks -/

namespace BlockTracker

open Boltz Await

variable {K : Type}

/-- What `waitblockheight` comes to. -/
inductive Waited where
  | height (h : UInt32)
  | rpcError
  | malformed
  | exception

/-- One turn of `loop`: the wait, the awaits of the service's own transaction,
    each swap's answer and awaits, and whether the other subscribers of the
    `Block` message complete. -/
structure Round where
  waited   : Waited
  outcomes : Outcomes
  reply    : String → StatusReply
  swap     : String → Outcomes
  othersOk : Bool

/-- The height, the service's table, and whether the loop goes on. -/
structure State where
  height : UInt32
  table  : Boltz.Table
  loops  : Bool

/-- At the start. -/
def State.init : State := ⟨0, UniqueTable.Table.empty, true⟩

/-- What is shown: a block whose message completed, or the end of the loop. -/
inductive Out where
  | block (height : UInt32)
  | ended
deriving DecidableEq

section Machine

variable (c : Crypto K) (junk : Nat → UInt8) (label : String)

/-- One turn. -/
def step (s : State) (r : Round) : Option (State × List Out) :=
  if s.loops then
    match r.waited with
    | .rpcError  => some (s, [])
    | .malformed => some ({ s with loops := false }, [.ended])
    | .exception => some ({ s with loops := false }, [.ended])
    | .height h  =>
        match onBlock c junk label h r.outcomes r.reply r.swap (start s.table) with
        | (.ok _, w)    =>
            if r.othersOk then some (⟨h, w.store, true⟩, [.block h])
            else some (⟨h, w.store, false⟩, [.ended])
        | (.error _, w) => some (⟨h, w.store, false⟩, [.ended])
  else none

/-- Turns from the start. -/
def run (rs : List Round) : Option (State × List Out) :=
  Machine.run (step c junk label) State.init rs

end Machine

/-- Node, database and the other subscribers do their part. -/
structure OwnSide (c : Crypto K) (r : Round) : Prop where
  waited   : r.waited ≠ .malformed ∧ r.waited ≠ .exception
  outcomes : Quiet c r.outcomes
  swap     : ∀ id, Quiet c (r.swap id)
  othersOk : r.othersOk = true

/-- The answer for every swap of the block is harmless. -/
def Served (junk : Nat → UInt8) (label : String) (s : State) (r : Round) : Prop :=
  ∀ h, r.waited = .height h →
    ∀ id ∈ ongoing label h (r.outcomes.others 0 s.table), Harmless junk (r.reply id)

section Proofs

variable {c : Crypto K} {junk : Nat → UInt8} {label : String}

/-- **STEP**: the loop goes on exactly if the server behaves. -/
theorem step_loops {s s' : State} {r : Round} {out : List Out} (hrows : RowsOk c s.table)
    (hown : OwnSide c r) (hs : step c junk label s r = some (s', out)) :
    s.loops = true ∧ RowsOk c s'.table ∧ (s'.loops = true ↔ Served junk label s r) := by
  have hloops : s.loops = true := by
    by_contra hne
    unfold step at hs
    rw [if_neg hne] at hs
    cases hs
  refine ⟨hloops, ?_⟩
  unfold step at hs
  rw [if_pos hloops] at hs
  cases hw : r.waited with
  | rpcError =>
      rw [hw] at hs
      cases hs
      refine ⟨hrows, fun _ h hh => ?_, fun _ => hloops⟩
      rw [hw] at hh
      cases hh
  | malformed => exact absurd hw hown.waited.1
  | exception => exact absurd hw hown.waited.2
  | height h =>
      simp only [hw] at hs
      have hserved : Served junk label s r
          ↔ ∀ id ∈ ongoing label h (r.outcomes.others 0 s.table), Harmless junk (r.reply id) := by
        refine ⟨fun hsv => hsv h hw, fun hall h' hh' => ?_⟩
        rw [hw] at hh'
        cases hh'
        exact hall
      have hspec := keeps_onBlock hown.outcomes junk label h r.reply hown.swap (start s.table)
        ⟨hrows, rfl⟩
      cases hrun : onBlock c junk label h r.outcomes r.reply r.swap (start s.table) with
      | mk res w =>
          rw [hrun] at hs hspec
          rw [hserved]
          cases res with
          | ok u =>
              simp only [if_pos hown.othersOk] at hs
              cases hs
              exact ⟨hspec.1, fun _ => hspec.2, fun _ => rfl⟩
          | error e =>
              cases hs
              exact ⟨hspec.1, (fun hf => by cases hf), fun hall => absurd hall hspec.2⟩

/-- **HEADLINE**: while our own side does its part, the loop over the blocks goes
    on exactly as long as every answer is harmless; and on the next block every
    ongoing swap is handled to its end, well exactly if its own answer is. -/
theorem loops_on_iff_harmless {rs : List Round} {s : State} {tr : List Out}
    (hown : Machine.Along (step c junk label) (fun _ r => OwnSide c r) State.init rs)
    (hrun : run c junk label rs = some (s, tr)) :
    (s.loops = true ↔ Machine.Along (step c junk label) (Served junk label) State.init rs)
      ∧ ∀ r h, OwnSide c r → r.waited = .height h →
        ∃ results w, handleSwaps c junk label h r.outcomes r.reply r.swap (start s.table)
            = (.ok results, w)
          ∧ Handled junk r.reply (ongoing label h (r.outcomes.others 0 s.table)) results := by
  have hinv := Machine.run_invariant
    (I := fun rs tr s => Machine.run (step c junk label) State.init rs = some (s, tr)
      ∧ RowsOk c s.table
      ∧ (s.loops = true ↔ Machine.Along (step c junk label) (Served junk label) State.init rs))
    ?_ ?_ hown hrun
  · obtain ⟨-, hrows, hiff⟩ := hinv
    refine ⟨hiff, fun r h hr _ => ?_⟩
    have hspec := keeps_handleSwaps (E := fun _ _ => False) hr.outcomes junk label h r.reply hr.swap
      (start s.table) ⟨hrows, rfl⟩
    cases hres : handleSwaps c junk label h r.outcomes r.reply r.swap (start s.table) with
    | mk res w =>
        rw [hres] at hspec
        cases res with
        | ok results => exact ⟨results, w, rfl, hspec.2⟩
        | error e => exact hspec.elim
  · exact ⟨rfl, fun r hr => (by cases hr), fun _ => trivial, fun _ => rfl⟩
  · intro es tr s r s' out ⟨hr, hrows, hiff⟩ hown hs
    obtain ⟨hloops, hrows', hstep⟩ := step_loops hrows hown hs
    refine ⟨Machine.run_snoc hr hs, hrows', ?_⟩
    rw [Machine.along_snoc hr hs, hstep]
    exact ⟨fun hserved => ⟨hiff.mp hloops, hserved⟩, fun hboth => hboth.2⟩

end Proofs

/-- The functions of the world outside at the texts of the row below. -/
def sampleCrypto : Crypto Unit where
  sha256             := fun _ => Bitcoin.Hash.zero
  sighash            := fun _ _ _ => Bitcoin.Hash.zero
  privKeyInit        := ()
  privKey            := fun s => if s = "01".pushn '0' 62 then some () else none
  signatureTweak     := fun _ _ => ⟨[], Nat.zero_le _⟩
  privkeySaltedHash  := fun h => h
  addrToScriptPubKey := fun s =>
    if s = "bc1qw508d6qejxtdg4y5r3zarvary0c5xw7kv8f3t4" then
      some ⟨[0x00, 0x14, 0x75, 0x1e, 0x76, 0xe8, 0x19, 0x91, 0x96, 0xd4, 0x54, 0x94, 0x1c, 0x45,
        0xd1, 0xb3, 0xa3, 0x23, 0xf1, 0x43, 0x3b, 0xd6], by decide⟩
    else none

/-- An ongoing swap. -/
def sampleRow (swapId : String) : Rsub :=
  { lateRow ("01".pushn '0' 62) "bc1qw508d6qejxtdg4y5r3zarvary0c5xw7kv8f3t4" with
    apiAccess := "boltz", swapId := swapId, timeoutBlockheight := 108 }

theorem sampleRow_ok (swapId : String) : RowOk sampleCrypto (sampleRow swapId) where
  tweak        := by simp [sampleCrypto, sampleRow, lateRow]
  preimage     := by
    show (preimageOfText zeroText).isSome = true
    rw [preimageOfText_zeroText]
    rfl
  redeemScript := by
    show (hexread "").isSome = true
    decide
  destination  := by simp [sampleCrypto, sampleRow, lateRow]

/-- Somebody sets up two swaps, and nothing fails. -/
def sampleOutcomes : Outcomes :=
  { allWell with
    others := fun _ t => (t.insertOrIgnore (sampleRow "a")).insertOrIgnore (sampleRow "b") }

theorem rowsOk_insertOrIgnore {c : Crypto K} {t : Boltz.Table} {r : Rsub} (h : RowsOk c t)
    (hr : RowOk c r) : RowsOk c (t.insertOrIgnore r) := by
  unfold UniqueTable.Table.insertOrIgnore
  split
  · intro r' hr'
    rcases List.mem_append.mp hr' with hmem | hnew
    · exact h r' hmem
    · rw [List.mem_singleton.mp hnew]
      exact hr
  · exact h

theorem sampleOutcomes_quiet : Quiet sampleCrypto sampleOutcomes where
  throws        := fun _ => rfl
  checkCommitOk := rfl
  commitOk      := rfl
  others        := fun _ _ h =>
    rowsOk_insertOrIgnore (rowsOk_insertOrIgnore h (sampleRow_ok "a")) (sampleRow_ok "b")

/-- A block at height 100 on which the swaps get these answers. -/
def sampleRound (reply : String → StatusReply) : Round :=
  ⟨.height 100, sampleOutcomes, reply, fun _ => sampleOutcomes, true⟩

theorem sampleRound_ownSide (reply : String → StatusReply) : OwnSide sampleCrypto (sampleRound reply) where
  waited   := ⟨(by intro h; cases h), (by intro h; cases h)⟩
  outcomes := sampleOutcomes_quiet
  swap     := fun _ => sampleOutcomes_quiet
  othersOk := rfl

/-- A confirmed swap with the given transaction text. -/
def confirmed (txhex : List UInt8) : Jsmn.Object :=
  some (.obj [("status".toUTF8.toList, .str "transaction.confirmed".toUTF8.toList),
    ("transaction".toUTF8.toList, .obj [("hex".toUTF8.toList, .str txhex)])])

/-- A transaction for one swap, an answer without fields for the other. -/
def sampleReply (swapId : String) : StatusReply :=
  if swapId = "a" then .object (confirmed Bitcoin.sampleTx.toHex) (by decide +kernel)
  else .object (some (.obj [])) (by decide +kernel)

theorem loops_on_iff_harmless_sampleRounds :
    ∃ s tr, run sampleCrypto (fun _ => 0) "boltz"
        [sampleRound sampleReply, sampleRound (fun _ => .apiError)] = some (s, tr)
      ∧ tr = [.block 100, .block 100]
      ∧ Machine.Along (step sampleCrypto (fun _ => 0) "boltz") (Served (fun _ => 0) "boltz")
          State.init [sampleRound sampleReply, sampleRound (fun _ => .apiError)] := by
  have hrun : (run sampleCrypto (fun _ => 0) "boltz"
      [sampleRound sampleReply, sampleRound (fun _ => .apiError)]).map
        (fun r => (r.1.loops, r.2)) = some (true, [.block 100, .block 100]) := by decide +kernel
  obtain ⟨⟨s, tr⟩, hrun, heq⟩ := Option.map_eq_some_iff.mp hrun
  obtain ⟨hloops, rfl⟩ := Prod.mk.inj heq
  refine ⟨s, _, hrun, rfl, (loops_on_iff_harmless ?_ hrun).1.mp hloops⟩
  refine Machine.along_of_forall ?_ _
  intro r hr
  rcases List.mem_cons.mp hr with rfl | hr
  · exact sampleRound_ownSide _
  · rw [List.mem_singleton.mp hr]
    exact sampleRound_ownSide _

/-- One answer whose transaction is not even hex ends the loop. -/
theorem ended_by_bad_hex :
    OwnSide sampleCrypto
        (sampleRound (fun _ => .object (confirmed "zz".toUTF8.toList) (by decide +kernel)))
      ∧ (run sampleCrypto (fun _ => 0) "boltz"
          [sampleRound (fun _ => .object (confirmed "zz".toUTF8.toList) (by decide +kernel))]).map
        (fun r => (r.1.loops, r.2)) = some (false, [.ended]) := by
  refine ⟨sampleRound_ownSide _, ?_⟩
  decide +kernel

end BlockTracker
