import Clboss.AwaitProofs
import Clboss.HexProofs
import Clboss.TxCodecProofs
import Clboss.UniqueTableProofs

/-! # `Boltz::Detail::ClaimTxHandler` — when is the preimage revealed?

    Broadcasting the claim transaction reveals the swap preimage for good, so
    everything the handler checks it must check BEFORE.  This file embeds
    `core_run` with all its early exits as an awaiting program: each database
    transaction, log line, feerate lookup and broadcast is awaited, may throw,
    and may find that others changed the table meanwhile.

    The guard on the timeout is `timeoutBlockheight <= blockheight + 10` in
    32-bit arithmetic.  Where that sum does not wrap, `runSafe_coreRun` says
    that the handler is safe against every row, every lockup transaction as the
    parser returns it and every outcome.  What that means for the text the
    server sent is the matter of `LockupTxProofs`. -/

namespace Boltz

open ByteStream Bitcoin Ln Await

/-! ## Hexadecimal text -/

/-- `Util::Str::hexread`, or an exception; the result is a vector, so its size is a
    `size_t`. -/
def hexreadVec (s : List UInt8) : Option (Vec UInt8) := do
  let bs ← (Util.Str.hexread s).toOption
  if h : bs.length < 2 ^ 64 then some ⟨bs, h⟩ else none

/-- The same of a column of the table. -/
def hexread (s : String) : Option (Vec UInt8) := hexreadVec (Util.Str.bytes s)

/-- `Util::Str::hexdump`. -/
def hexdump (bs : List UInt8) : String := Util.Str.ofBytes (Util.Str.hexdump bs)

/-! ## The world outside -/

/-- The cryptography and address parsing that the handler calls. -/
structure Crypto (K : Type) where
  /-- `Sha256::fun` -/
  sha256 : List UInt8 → Hash
  /-- `Bitcoin::sighash` of input 0 under `SIGHASH_ALL` -/
  sighash : Tx → Amount → List UInt8 → Hash
  /-- `PrivKey()` -/
  privKeyInit : K
  /-- `PrivKey(std::string)`, or an exception -/
  privKey : String → Option K
  /-- `get_signature_tweak(..).der_encode()` -/
  signatureTweak : K → Hash → { l : List UInt8 // l.length ≤ 72 }
  /-- `get_privkey_salted_hash` -/
  privkeySaltedHash : Hash → Hash
  /-- `Bitcoin::addr_to_scriptPubKey`, or an exception -/
  addrToScriptPubKey : String → Option (Vec UInt8)

variable {K : Type}

/-- `TxId(Sha256::Hash)`: reverses the bytes. -/
def txIdOfHash (h : Hash) : TxId :=
  ⟨⟨h.d.reverse, by rw [List.length_reverse, h.length]⟩⟩

/-- The transaction with all witnesses stripped. -/
def stripWitnesses (tx : Tx) : Tx :=
  { tx with inputs := ⟨tx.inputs.toList.map TxIn.clearWitness, by
      rw [List.length_map]; exact tx.inputs.size_lt⟩ }

/-- `Tx::get_txid`. -/
def getTxid (c : Crypto K) (tx : Tx) : TxId :=
  txIdOfHash (c.sha256 (c.sha256 (writeTx (stripWitnesses tx))).d)

/-- `Tx::operator std::string`. -/
def txText (tx : Tx) : String := hexdump (writeTx tx)

/-- `Preimage(std::string)`: exactly 32 bytes of hex, or an exception. -/
def preimageOfText (s : String) : Option Hash := do
  let bs ← hexread s
  if h : bs.toList.length = 32 then some ⟨bs.toList, h⟩ else none

/-- `compute_preimage`. -/
def computePreimage (c : Crypto K) (base : Hash) : Hash := c.privkeySaltedHash base

/-- The P2WSH output script of a witness script. -/
def p2wsh (c : Crypto K) (script : List UInt8) : List UInt8 :=
  [0x00, 0x20] ++ (c.sha256 script).d

/-- `find_lockup_outnum`: the first output that pays to the script, or `-1`. -/
def findLockupOutnum (c : Crypto K) (tx : Tx) (redeemScript : Vec UInt8) : Int :=
  match tx.outputs.toList.findIdx?
      (fun out => out.scriptPubKey.toList == p2wsh c redeemScript.toList) with
  | some i => (i : Int)
  | none   => -1

/-! ## The claim transaction -/

/-- `dust_limit`. -/
def dustLimit : Amount := Amount.sat 547

/-- The arguments of `initial_claim_tx` apart from the signer. -/
structure ClaimArgs (K : Type) where
  feerate       : UInt32
  blockheight   : UInt32
  lockupTxid    : TxId
  lockupOutnum  : UInt32
  lockupAmount  : Amount
  tweak         : K
  preimage      : Hash
  witnessScript : Vec UInt8

/-- The transaction before its fee is known: one final input spending the
    lockup with three empty witness items, one output to `script`. -/
def claimSkeleton (a : ClaimArgs K) (script : Vec UInt8) : Tx where
  nVersion  := 2
  inputs    := Vec.single ⟨a.lockupTxid, a.lockupOutnum, Vec.nil, 0xFFFFFFFF,
    ⟨Vec.triple Vec.nil Vec.nil Vec.nil⟩⟩
  outputs   := Vec.single ⟨⟨0⟩, script⟩
  nLockTime := a.blockheight + 1

/-- The weight `initial_claim_tx` budgets for, in 64-bit arithmetic. -/
def claimWeight (a : ClaimArgs K) (skeleton : Tx) : UInt64 :=
  UInt64.ofNat (writeTx skeleton).length * 4
    + (1 + 73 + 1 + 32 + 1 + a.witnessScript.size + 2) + 12

/-- The unspendable output script used when the fee would eat the amount. -/
def opReturnScript : Vec UInt8 :=
  ⟨[0x6a, 0x14] ++ List.replicate 20 0x00, by decide⟩

/-- The fee and the single output `initial_claim_tx` settles on. -/
def claimFeeOutput (a : ClaimArgs K) (script : Vec UInt8) : Amount × TxOut :=
  let fees := Amount.sat
    ((claimWeight a (claimSkeleton a script) * a.feerate.toUInt64) / 1000)
  if (fees.add dustLimit).v > a.lockupAmount.v then
    (a.lockupAmount, ⟨Amount.sat 0, opReturnScript⟩)
  else
    (fees, ⟨a.lockupAmount.sub fees, script⟩)

/-- The witness stack: signature, preimage, witness script. -/
def claimWitness (c : Crypto K) (a : ClaimArgs K) (unsigned : Tx) : WitnessField :=
  let scriptCode := UInt8.ofNat a.witnessScript.toList.length :: a.witnessScript.toList
  let sig := c.signatureTweak a.tweak (c.sighash unsigned a.lockupAmount scriptCode)
  ⟨Vec.triple
    ⟨sig.1 ++ [0x01], by
      have := sig.2
      rw [List.length_append, List.length_singleton]
      omega⟩
    ⟨a.preimage.d, by rw [a.preimage.length]; decide⟩
    a.witnessScript⟩

/-- `initial_claim_tx` once the destination script is known. -/
def claimTxTo (c : Crypto K) (a : ClaimArgs K) (script : Vec UInt8) : Tx × Amount :=
  let feeOut := claimFeeOutput a script
  let unsigned := { claimSkeleton a script with outputs := Vec.single feeOut.2 }
  ({ unsigned with
      inputs := Vec.single ⟨a.lockupTxid, a.lockupOutnum, Vec.nil, 0xFFFFFFFF,
        claimWitness c a unsigned⟩ }, feeOut.1)

/-- `initial_claim_tx`: the claim transaction and its fee, or the exception of
    an address it cannot pay to. -/
def initialClaimTx (c : Crypto K) (a : ClaimArgs K) (outputAddr : String) :
    Option (Tx × Amount) :=
  (c.addrToScriptPubKey outputAddr).map (claimTxTo c a)

/-- Whatever fee is settled on, the claim transaction spends exactly the given
    outpoint. -/
theorem claimTxTo_spends (c : Crypto K) (a : ClaimArgs K) (script : Vec UInt8) :
    (claimTxTo c a script).1.inputs.toList.map (fun i => (i.prevTxid, i.prevOut))
      = [(a.lockupTxid, a.lockupOutnum)] := rfl

/-! ## The handler -/

/-- A row of `BoltzServiceFactory_rsub` (text columns hold hex). -/
structure Rsub where
  apiAccess             : String
  tweak                 : String
  preimage              : String
  destinationAddress    : String
  swapId                : String
  redeemScript          : String
  timeoutBlockheight    : UInt32
  onchainAmount         : UInt64
  lockedUp              : Bool
  lockupTxid            : Option TxId
  lockupOut             : Option Nat
  lockupConfirmedHeight : Option UInt32
  lockupClaimFees       : Option UInt64
deriving DecidableEq

/-- The column pair every query selects by. -/
def Rsub.key (r : Rsub) : String × String := (r.apiAccess, r.swapId)

/-- The table.  `SwapSetupHandler` inserts a swap only after checking that its
    key is not there yet. -/
abbrev Table := UniqueTable.Table Rsub.key

/-- What can stop a run: the handler's own `End`, or any other exception. -/
inductive Exn where
  | endRun
  | other
deriving DecidableEq

/-- What others can see of a run. -/
inductive Act where
  | logd (msg : String)
  | loge (msg : String)
  | built (tx : Tx)
  | broadcast (tx : Tx)
  | accepted (tx : Tx)
  | marked
deriving DecidableEq

/-- The outcomes of the awaited steps: what others do and what throws, whether
    the two `COMMIT`s are accepted, the feerate, and the result of the
    broadcast. -/
structure Outcomes extends Script Table Exn where
  checkCommitOk : Bool
  feerate       : UInt32
  broadcastOk   : Bool
  commitOk      : Bool

/-- The handler's parameters.  The lockup transaction was parsed out of a JSON
    text whose positions are `int`s, so its outputs are counted by an `int`. -/
structure ClaimTxHandler where
  apiEndpoint : String
  swapId      : String
  blockheight : UInt32
  lockupTx    : Tx
  outputs_lt  : lockupTx.outputs.toList.length < 2 ^ 31

/-- The handler's key. -/
def ClaimTxHandler.key (h : ClaimTxHandler) : String × String := (h.apiEndpoint, h.swapId)

/-- The members filled in from the table. -/
structure Fetched (K : Type) where
  tweak              : K
  preimage           : Hash
  destinationAddress : String
  redeemScript       : Vec UInt8
  timeoutBlockheight : UInt32
  onchainAmount      : Amount

/-- Programs of the handler. -/
abbrev Run (α : Type) := Io Table Act Exn α

/-- `logprefix`. -/
def logprefix (h : ClaimTxHandler) (msg : String) : String :=
  "Boltz::Service(\"" ++ h.apiEndpoint ++ "\"): " ++ " \"" ++ h.swapId ++ "\": " ++ msg

/-- `logd`. -/
def logd (h : ClaimTxHandler) (o : Outcomes) (msg : String) : Run Unit := do
  Io.emit (.logd <| logprefix h msg)
  Io.await o.toScript

/-- `loge`. -/
def loge (h : ClaimTxHandler) (o : Outcomes) (msg : String) : Run Unit := do
  Io.emit (.loge <| logprefix h msg)
  Io.await o.toScript

/-- A log line, then `throw End()`. -/
def endAfter {α : Type} (log : Run Unit) : Run α := do
  log
  Io.throw .endRun

/-- One row of the second query, each column parsed. -/
def fetchRow (c : Crypto K) (r : Rsub) : Run (Fetched K) := do
  let tweak ← Io.ofOption .other (c.privKey r.tweak)
  let preimage ← Io.ofOption .other (preimageOfText r.preimage)
  let redeemScript ← Io.ofOption .other (hexread r.redeemScript)
  return ⟨tweak, preimage, r.destinationAddress, redeemScript, r.timeoutBlockheight,
    Amount.sat r.onchainAmount⟩

/-- The loop over the second query: the last row's values stay. -/
def fetchRows (c : Crypto K) (f : Fetched K) : List Rsub → Run (Fetched K)
  | []      => pure f
  | r :: rs => do
      let f' ← fetchRow c r
      fetchRows c f' rs

/-- The members before the second query. -/
def Fetched.init (c : Crypto K) : Fetched K :=
  ⟨c.privKeyInit, Hash.zero, "", Vec.nil, 0, ⟨0⟩⟩

/-- The first transaction: the quick check of the first matching row, then the
    fetch. -/
def checkAndFetch (c : Crypto K) (h : ClaimTxHandler) (o : Outcomes) : Run (Fetched K) := do
  let t ← Io.read
  match t.get h.key with
  | none   => endAfter (loge h o "Swap ID not in table.")
  | some r =>
      if r.lockedUp then
        endAfter (logd h o "Already broadcasted claim tx.")
      else if r.destinationAddress = "" then
        endAfter (loge h o "Swap destination address is empty??")
      else
        let f ← fetchRows c (Fetched.init c) (t.rows.filter (fun r => r.key = h.key))
        if o.checkCommitOk then return f else Io.throw .other

/-- The checks on the fetched row and the lockup transaction; the result is the
    output to spend. -/
def checkLockup (c : Crypto K) (h : ClaimTxHandler) (o : Outcomes) (f : Fetched K) :
    Run Nat := do
  if f.timeoutBlockheight ≤ h.blockheight + 10 then
    endAfter (logd h o ("Timeout " ++ toString f.timeoutBlockheight
      ++ " too near to current time " ++ toString h.blockheight))
  else
    let outnum := findLockupOutnum c h.lockupTx f.redeemScript
    if outnum < 0 then
      endAfter (loge h o ("Service lockup tx " ++ txText h.lockupTx ++ " "
        ++ "does not pay to lockscript."))
    else if (h.lockupTx.outputs.toList.map TxOut.amount)[outnum.toNat]?
        ≠ some f.onchainAmount then
      endAfter (loge h o ("Service lockup tx " ++ txText h.lockupTx ++ " "
        ++ "does not pay expected amount."))
    else
      return outnum.toNat

/-- The arguments passed to `initial_claim_tx`. -/
def claimArgs (c : Crypto K) (h : ClaimTxHandler) (o : Outcomes) (f : Fetched K)
    (lockupOut : Nat) : ClaimArgs K :=
  ⟨o.feerate, h.blockheight, getTxid c h.lockupTx, UInt32.ofNat lockupOut,
    f.onchainAmount, f.tweak, computePreimage c f.preimage, f.redeemScript⟩

/-- The final `UPDATE`, on the row of this swap. -/
def markLockedUp (c : Crypto K) (h : ClaimTxHandler) (lockupOut : Nat) (fees : Amount)
    (t : Table) : Table :=
  t.update h.key
    (fun r => { r with
      lockedUp := true
      lockupTxid := some (getTxid c h.lockupTx)
      lockupOut := some lockupOut
      lockupConfirmedHeight := some h.blockheight
      lockupClaimFees := some fees.toSat })
    (fun _ => rfl)

/-- From the feerate lookup on: build, broadcast, and record. -/
def broadcastAndMark (c : Crypto K) (h : ClaimTxHandler) (o : Outcomes) (f : Fetched K)
    (lockupOut : Nat) : Run Unit := do
  Io.await o.toScript
  let (claimTx, fees) ← Io.ofOption .other
    (initialClaimTx c (claimArgs c h o f lockupOut) f.destinationAddress)
  Io.emit (.built claimTx)
  logd h o ("Broadcasting claim tx: " ++ txText claimTx)
  Io.emit (.broadcast claimTx)
  Io.await o.toScript
  if o.broadcastOk then
    Io.emit (.accepted claimTx)
    Io.await o.toScript
    -- a refused `COMMIT` rolls the update back and throws
    if o.commitOk then
      Io.write (markLockedUp c h lockupOut fees)
      Io.emit .marked
    else
      Io.throw .other
  else
    endAfter (loge h o ("Broadcast failed! " ++ txText claimTx))

/-- `core_run`. -/
def coreRun (c : Crypto K) (h : ClaimTxHandler) (o : Outcomes) : Run Unit :=
  Io.catching
    (do
      Io.await o.toScript
      let f ← checkAndFetch c h o
      let lockupOut ← checkLockup c h o f
      broadcastAndMark c h o f lockupOut)
    (fun e => if e = .endRun then some (pure ()) else none)

/-- The world in which a run starts. -/
def start (t : Table) : World Table Act := ⟨t, [], 0⟩

/-! ## Safety of a run -/

/-- A claim transaction that may be shown to the world, judged by the table `t`
    the check saw: the row is there and not locked up, its timeout is more than
    ten blocks away, and the transaction spends an output of the lockup that
    pays the row's script exactly the row's amount. -/
def Claimable (c : Crypto K) (h : ClaimTxHandler) (t : Table) (tx : Tx) : Prop :=
  ∃ row ∈ t.rows, row.key = h.key ∧ row.lockedUp = false
    ∧ h.blockheight.toNat + 10 < row.timeoutBlockheight.toNat
    ∧ ∃ (script : Vec UInt8) (i : Nat) (out : TxOut),
        hexread row.redeemScript = some script
        ∧ h.lockupTx.outputs.toList[i]? = some out
        ∧ out.scriptPubKey.toList = p2wsh c script.toList
        ∧ out.amount = Amount.sat row.onchainAmount
        ∧ tx.inputs.toList.map (fun n => (n.prevTxid, n.prevOut.toNat))
            = [(getTxid c h.lockupTx, i)]

/-- What a run of the handler from table `t` must have done when it ends, in
    world `w`: `P` judges the transactions it may show. -/
structure RunSafe (P : Tx → Prop) (o : Outcomes) (t : Table) (w : World Table Act) : Prop where
  /-- Only transactions with the property are built or broadcast. -/
  claimable : ∀ tx, Act.built tx ∈ w.trace ∨ Act.broadcast tx ∈ w.trace →
    P tx
  /-- The row is marked only after a broadcast succeeded. -/
  marked_after : ∀ l₁ l₂, w.trace = l₁ ++ Act.marked :: l₂ →
    ∃ tx, Act.broadcast tx ∈ l₁ ∧ Act.accepted tx ∈ l₁
  /-- A run that ends earlier changes nothing: the table is what the others
      alone made of it. -/
  unmarked : Act.marked ∉ w.trace → w.store = othersOnly o.toScript t w.awaits

/-- A world in which the handler has changed nothing yet and shown nothing it
    should not. -/
structure Clean (P : Tx → Prop) (o : Outcomes) (t : Table) (w : World Table Act) : Prop where
  store     : w.store = othersOnly o.toScript t w.awaits
  unmarked  : Act.marked ∉ w.trace
  claimable : ∀ tx, Act.built tx ∈ w.trace ∨ Act.broadcast tx ∈ w.trace →
    P tx

section Safety

variable {c : Crypto K} {h : ClaimTxHandler} {P : Tx → Prop} {o : Outcomes} {t : Table}

theorem Clean.start (P : Tx → Prop) (o : Outcomes) (t : Table) :
    Clean P o t (start t) := by
  refine ⟨rfl, List.not_mem_nil, ?_⟩
  intro tx hm
  rcases hm with hm | hm
  · exact nomatch hm
  · exact nomatch hm

theorem Clean.runSafe {w : World Table Act} (hw : Clean P o t w) :
    RunSafe P o t w := by
  refine ⟨hw.claimable, ?_, fun _ => hw.store⟩
  intro l₁ l₂ heq
  refine absurd ?_ hw.unmarked
  rw [heq]
  exact List.mem_append_right l₁ (List.mem_cons_self ..)

theorem Clean.await {w : World Table Act} (hw : Clean P o t w) :
    Clean P o t { w with
      store := o.others w.awaits w.store, awaits := w.awaits + 1 } := by
  refine ⟨?_, hw.unmarked, hw.claimable⟩
  show o.others w.awaits w.store = o.others w.awaits (othersOnly o.toScript t w.awaits)
  rw [hw.store]

/-- Showing an act keeps the world clean when it is neither the mark nor a
    transaction that is not claimable. -/
theorem Clean.emit {w : World Table Act} (hw : Clean P o t w) (a : Act)
    (hm : a ≠ .marked)
    (hc : ∀ tx, a = .built tx ∨ a = .broadcast tx → P tx) :
    Clean P o t { w with trace := w.trace ++ [a] } := by
  refine ⟨hw.store, ?_, ?_⟩
  · intro hmem
    rcases List.mem_append.mp hmem with hl | hr
    · exact hw.unmarked hl
    · exact hm (List.mem_singleton.mp hr).symm
  · intro tx hmem
    rcases hmem with hb | hb
    · rcases List.mem_append.mp hb with hl | hr
      · exact hw.claimable tx (Or.inl hl)
      · exact hc tx (Or.inl (List.mem_singleton.mp hr).symm)
    · rcases List.mem_append.mp hb with hl | hr
      · exact hw.claimable tx (Or.inr hl)
      · exact hc tx (Or.inr (List.mem_singleton.mp hr).symm)

/-- Awaiting keeps a clean world clean, however it ends. -/
theorem spec_await : Spec (Clean P o t) (Io.await o.toScript)
    (fun _ => Clean P o t) (fun _ => Clean P o t) :=
  Spec.await (fun _ hw => hw.await) (fun _ _ hw => hw.await)

/-- So does showing an act that is allowed to be shown. -/
theorem spec_emit (a : Act) (hm : a ≠ .marked)
    (hc : ∀ tx, a = .built tx ∨ a = .broadcast tx → P tx)
    {E : Exn → World Table Act → Prop} :
    Spec (Clean P o t) (Io.emit a) (fun _ => Clean P o t) E :=
  Spec.emit (fun _ hw => hw.emit a hm hc)

theorem spec_logd (msg : String) : Spec (Clean P o t) (logd h o msg)
    (fun _ => Clean P o t) (fun _ => Clean P o t) := by
  refine Spec.bind (spec_emit _ (by simp) ?_) (fun _ => spec_await)
  intro tx hbad
  rcases hbad with hbad | hbad
  · exact nomatch hbad
  · exact nomatch hbad

theorem spec_loge (msg : String) : Spec (Clean P o t) (loge h o msg)
    (fun _ => Clean P o t) (fun _ => Clean P o t) := by
  refine Spec.bind (spec_emit _ (by simp) ?_) (fun _ => spec_await)
  intro tx hbad
  rcases hbad with hbad | hbad
  · exact nomatch hbad
  · exact nomatch hbad

/-- Every early exit leaves a clean world. -/
theorem spec_endAfter {α : Type} {log : Run Unit} {Q : α → World Table Act → Prop}
    (hlog : Spec (Clean P o t) log (fun _ => Clean P o t) (fun _ => Clean P o t)) :
    Spec (Clean P o t) (endAfter log : Run α) Q (fun _ => Clean P o t) :=
  Spec.bind hlog (fun _ => Spec.throw (fun _ hw => hw))

/-- The fetched members describe a row of table `t'` that is not locked up. -/
def FetchedFrom (h : ClaimTxHandler) (t' : Table) (f : Fetched K) : Prop :=
  ∃ row ∈ t'.rows, row.key = h.key ∧ row.lockedUp = false
    ∧ hexread row.redeemScript = some f.redeemScript
    ∧ f.timeoutBlockheight = row.timeoutBlockheight
    ∧ f.onchainAmount = Amount.sat row.onchainAmount

/-- The first transaction ends clean, and what it fetches describes a row of
    the table it read. -/
theorem spec_checkAndFetch {t' : Table} :
    Spec (fun w => Clean P o t w ∧ w.store = t') (checkAndFetch c h o)
      (fun f w => Clean P o t w ∧ FetchedFrom h t' f) (fun _ => Clean P o t) := by
  refine Spec.bind (Q := fun s w => Clean P o t w ∧ s = t')
    (Spec.read (fun w hw => hw)) ?_
  intro s w hw
  obtain ⟨hclean, rfl⟩ := hw
  revert w
  cases hf : s.get h.key with
  | none => intro w hw; exact spec_endAfter (spec_loge _) w hw
  | some r =>
      obtain ⟨hmem, hkey⟩ := (UniqueTable.Table.get_eq_some_iff s h.key r).mp hf
      intro w hw
      refine Spec.ite (fun _ => spec_endAfter (spec_logd _)) (fun hlock => ?_) w hw
      refine Spec.ite (fun _ => spec_endAfter (spec_loge _)) (fun _ => ?_)
      rw [UniqueTable.Table.filter_key hf]
      refine Spec.bind (Q := fun f w => Clean P o t w ∧ FetchedFrom h s f) ?_ ?_
      · -- the loop runs once, on the checked row
        refine Spec.bind (Q := fun f w => Clean P o t w ∧ FetchedFrom h s f) ?_
          (fun f => Spec.pure (fun _ hw => hw))
        refine Spec.bind (Q := fun _ => Clean P o t)
          (Spec.ofOption (fun _ _ _ hw => hw) (fun _ _ hw => hw)) (fun tweak => ?_)
        refine Spec.bind (Q := fun _ => Clean P o t)
          (Spec.ofOption (fun _ _ _ hw => hw) (fun _ _ hw => hw)) (fun preimage => ?_)
        refine Spec.bind (Q := fun script w => Clean P o t w
            ∧ hexread r.redeemScript = some script)
          (Spec.ofOption (fun _ _ hs hw => ⟨hw, hs⟩) (fun _ _ hw => hw)) (fun script => ?_)
        refine Spec.pure (fun w hw => ⟨hw.1, r, hmem, hkey, ?_, hw.2, rfl, rfl⟩)
        exact Bool.eq_false_iff.mpr hlock
      · intro f
        exact Spec.ite (fun _ => Spec.pure (fun _ hw => hw))
          (fun _ => Spec.throw (fun _ hw => hw.1))

/-- The guard on the timeout does what it says when `blockheight + 10` does
    not wrap around. -/
theorem timeout_guard {height timeout : UInt32} (hh : height.toNat + 10 < 2 ^ 32)
    (hg : ¬ timeout ≤ height + 10) : height.toNat + 10 < timeout.toNat := by
  rw [UInt32.le_iff_toNat_le, UInt32.toNat_add] at hg
  simp only [UInt32.reduceToNat] at hg
  omega

/-- `find_lockup_outnum` returns the index of an output paying to the script. -/
theorem findLockupOutnum_spec {tx : Tx} {script : Vec UInt8}
    (hi : ¬ findLockupOutnum c tx script < 0) :
    ∃ out, tx.outputs.toList[(findLockupOutnum c tx script).toNat]? = some out
      ∧ out.scriptPubKey.toList = p2wsh c script.toList := by
  unfold findLockupOutnum at hi ⊢
  cases hf : tx.outputs.toList.findIdx?
      (fun out => out.scriptPubKey.toList == p2wsh c script.toList) with
  | none =>
      rw [hf] at hi
      exact absurd (by decide) hi
  | some i =>
      obtain ⟨hlt, hp, -⟩ := List.findIdx?_eq_some_iff_getElem.mp hf
      exact ⟨tx.outputs.toList[i], by simp [hlt], beq_iff_eq.mp hp⟩

/-- The last step: appending the mark to a trace that shows the accepted
    broadcast. -/
theorem runSafe_marked {w : World Table Act} {tx₀ : Tx} (hm : Act.marked ∉ w.trace)
    (hb : Act.broadcast tx₀ ∈ w.trace) (ha : Act.accepted tx₀ ∈ w.trace)
    (hc : ∀ tx, Act.built tx ∈ w.trace ∨ Act.broadcast tx ∈ w.trace →
      P tx) :
    RunSafe P o t { w with trace := w.trace ++ [Act.marked] } := by
  refine ⟨?_, ?_, ?_⟩
  · intro tx hmem
    refine hc tx ?_
    rcases hmem with hmem | hmem
    · rcases List.mem_append.mp hmem with hl | hr
      · exact Or.inl hl
      · exact nomatch List.mem_singleton.mp hr
    · rcases List.mem_append.mp hmem with hl | hr
      · exact Or.inr hl
      · exact nomatch List.mem_singleton.mp hr
  · intro l₁ l₂ heq
    -- the mark is the last act, so everything before it is the old trace
    have hpre : l₁ = w.trace := by
      rcases List.eq_nil_or_concat l₂ with rfl | ⟨l₂', a, rfl⟩
      · exact (List.append_inj_left' heq rfl).symm
      · have heq' : w.trace ++ [Act.marked] = (l₁ ++ Act.marked :: l₂') ++ [a] := by
          refine Eq.trans heq ?_
          simp
        have hw := List.append_inj_left' heq' rfl
        refine absurd ?_ hm
        rw [hw]
        exact List.mem_append_right _ (List.mem_cons_self ..)
    rw [hpre]
    exact ⟨tx₀, hb, ha⟩
  · intro hno
    exact absurd (List.mem_append_right _ (List.mem_singleton.mpr rfl)) hno

/-- The checks on the lockup end clean; past them, a transaction spending the
    returned output is claimable. -/
theorem spec_checkLockup {f : Fetched K} {t' : Table} (hh : h.blockheight.toNat + 10 < 2 ^ 32)
    (hf : FetchedFrom h t' f) :
    Spec (Clean P o t) (checkLockup c h o f)
      (fun i w => Clean P o t w ∧ ∀ tx : Tx,
        tx.inputs.toList.map (fun n => (n.prevTxid, n.prevOut))
          = [(getTxid c h.lockupTx, UInt32.ofNat i)] → Claimable c h t' tx)
      (fun _ => Clean P o t) := by
  refine Spec.ite (fun _ => spec_endAfter (spec_logd _)) (fun hguard => ?_)
  refine Spec.ite (fun _ => spec_endAfter (spec_loge _)) (fun hout => ?_)
  refine Spec.ite (fun _ => spec_endAfter (spec_loge _)) (fun hamt => ?_)
  refine Spec.pure (fun w hw => ⟨hw, ?_⟩)
  intro tx hspend
  obtain ⟨row, hmem, hkey, hlock, hscript, htimeout, hamount⟩ := hf
  obtain ⟨out, hget, hpays⟩ := findLockupOutnum_spec hout
  have hlt : (findLockupOutnum c h.lockupTx f.redeemScript).toNat < 2 ^ 31 := by
    have := (List.getElem?_eq_some_iff.mp hget).1
    have := h.outputs_lt
    omega
  refine ⟨row, hmem, hkey, hlock, ?_, f.redeemScript, _, out, hscript, hget, hpays, ?_, ?_⟩
  · rw [← htimeout]
    exact timeout_guard hh hguard
  · rw [not_not, List.getElem?_map, hget, Option.map_some] at hamt
    rw [Option.some.inj hamt, hamount]
  · have hmap := congrArg (List.map (fun p : TxId × UInt32 => (p.1, p.2.toNat))) hspend
    rw [List.map_map] at hmap
    refine Eq.trans hmap ?_
    rw [List.map_singleton]
    have hnat : (UInt32.ofNat (findLockupOutnum c h.lockupTx f.redeemScript).toNat).toNat
        = (findLockupOutnum c h.lockupTx f.redeemScript).toNat :=
      Nat.mod_eq_of_lt (Nat.lt_trans hlt (by decide))
    rw [hnat]

/-- From the feerate lookup on, a run is safe if the transaction it builds is
    claimable. -/
theorem spec_broadcastAndMark {f : Fetched K} {i : Nat}
    (hclaim : ∀ tx : Tx, tx.inputs.toList.map (fun n => (n.prevTxid, n.prevOut))
      = [(getTxid c h.lockupTx, UInt32.ofNat i)] → P tx) :
    Spec (Clean P o t) (broadcastAndMark c h o f i)
      (fun _ => RunSafe P o t) (fun _ => Clean P o t) := by
  refine Spec.bind spec_await (fun _ => ?_)
  refine Spec.bind (Q := fun p w => Clean P o t w
      ∧ P p.1)
    (Spec.ofOption ?_ (fun _ _ hw => hw)) ?_
  · intro p w hp hw
    refine ⟨hw, hclaim p.1 ?_⟩
    obtain ⟨script, -, rfl⟩ := Option.map_eq_some_iff.mp hp
    exact claimTxTo_spends c _ script
  · rintro ⟨claimTx, fees⟩ w ⟨hw, hcl⟩
    have hshow : ∀ a : Act, a = .built claimTx ∨ a = .broadcast claimTx →
        ∀ tx, a = .built tx ∨ a = .broadcast tx → P tx := by
      intro a ha tx hatx
      rcases ha with rfl | rfl
      · rcases hatx with heq | heq
        · injection heq with heq
          rwa [← heq]
        · exact nomatch heq
      · rcases hatx with heq | heq
        · exact nomatch heq
        · injection heq with heq
          rwa [← heq]
    refine Spec.bind (spec_emit (.built claimTx) (by simp) (hshow _ (Or.inl rfl)))
      (fun _ => ?_) w hw
    refine Spec.bind (spec_logd _) (fun _ => ?_)
    refine Spec.bind (Q := fun _ w => Clean P o t w ∧ Act.broadcast claimTx ∈ w.trace)
      (Spec.emit ?_) (fun _ => ?_)
    · intro w hw
      exact ⟨hw.emit _ (by simp) (hshow _ (Or.inr rfl)),
        List.mem_append_right _ (List.mem_singleton.mpr rfl)⟩
    refine Spec.bind (Q := fun _ w => Clean P o t w ∧ Act.broadcast claimTx ∈ w.trace)
      (Spec.await (fun _ hw => ⟨hw.1.await, hw.2⟩) (fun _ _ hw => hw.1.await)) (fun _ => ?_)
    refine Spec.ite (fun _ => ?_)
      (fun _ => (spec_endAfter (spec_loge _)).weaken (fun _ hw => hw.1))
    refine Spec.bind (Q := fun _ w => Clean P o t w
        ∧ Act.broadcast claimTx ∈ w.trace ∧ Act.accepted claimTx ∈ w.trace)
      (Spec.emit ?_) (fun _ => ?_)
    · intro w hw
      refine ⟨hw.1.emit _ (by simp) ?_, List.mem_append_left _ hw.2,
        List.mem_append_right _ (List.mem_singleton.mpr rfl)⟩
      intro tx hbad
      rcases hbad with hbad | hbad
      · exact nomatch hbad
      · exact nomatch hbad
    refine Spec.bind (Q := fun _ w => Clean P o t w
        ∧ Act.broadcast claimTx ∈ w.trace ∧ Act.accepted claimTx ∈ w.trace)
      (Spec.await (fun _ hw => ⟨hw.1.await, hw.2⟩) (fun _ _ hw => hw.1.await)) (fun _ => ?_)
    refine Spec.ite (fun _ => ?_) (fun _ => Spec.throw (fun _ hw => hw.1))
    refine Spec.bind (Q := fun _ w => Act.marked ∉ w.trace
        ∧ Act.broadcast claimTx ∈ w.trace ∧ Act.accepted claimTx ∈ w.trace
        ∧ ∀ tx, Act.built tx ∈ w.trace ∨ Act.broadcast tx ∈ w.trace →
          P tx)
      (Spec.write (fun _ hw => ⟨hw.1.unmarked, hw.2.1, hw.2.2, hw.1.claimable⟩)) (fun _ => ?_)
    exact Spec.emit (fun w hw => runSafe_marked hw.1 hw.2.1 hw.2.2.1 hw.2.2.2)

/-- `core_run`, at a height where `blockheight + 10` does not wrap, is safe
    whether it returns or throws. -/
theorem spec_coreRun (hh : h.blockheight.toNat + 10 < 2 ^ 32) :
    Spec (fun w => w = start t) (coreRun c h o)
      (fun _ => RunSafe (Claimable c h (o.others 0 t)) o t)
      (fun _ => RunSafe (Claimable c h (o.others 0 t)) o t) := by
  refine Spec.catching (F := fun _ => Clean (Claimable c h (o.others 0 t)) o t) ?_ ?_
    (fun _ _ _ hw => hw.runSafe)
  · refine Spec.bind (Q := fun _ w => Clean (Claimable c h (o.others 0 t)) o t w
        ∧ w.store = o.others 0 t)
      (Spec.await ?_ ?_) (fun _ => ?_)
    · rintro w rfl
      exact ⟨(Clean.start _ o t).await, rfl⟩
    · rintro e w rfl
      exact (Clean.start _ o t).await
    refine Spec.bind spec_checkAndFetch (fun f => ?_)
    intro w hw
    refine Spec.bind (spec_checkLockup hh hw.2) (fun i => ?_) w hw.1
    intro w' hw'
    exact spec_broadcastAndMark hw'.2 w' hw'.1
  · intro e k hk
    by_cases he : e = .endRun
    · rw [if_pos he] at hk
      rw [← Option.some.inj hk]
      exact Spec.pure (fun _ hw => hw.runSafe)
    · rw [if_neg he] at hk
      exact nomatch hk

/-- **HEADLINE**: where the guard does not wrap, EVERY run is safe, for every
    table, every lockup transaction as parsed and every outcome of the awaited
    steps. -/
theorem runSafe_coreRun (c : Crypto K) (h : ClaimTxHandler) (o : Outcomes) (t : Table)
    (hh : h.blockheight.toNat + 10 < 2 ^ 32) :
    RunSafe (Claimable c h (o.others 0 t)) o t (coreRun c h o (start t)).2 := by
  have hspec := spec_coreRun (c := c) (o := o) (t := t) hh (start t) rfl
  cases hrun : coreRun c h o (start t) with
  | mk res w =>
      rw [hrun] at hspec
      cases res with
      | ok u => exact hspec
      | error e => exact hspec

end Safety

/-! ## A world to run in -/

/-- 32 zero bytes in hex. -/
def zeroText : String := "0000000000000000000000000000000000000000000000000000000000000000"

theorem preimageOfText_zeroText : preimageOfText zeroText = some Hash.zero := by decide

/-- A row that passes every check at a height where `blockheight + 10` wraps:
    its timeout is the highest there is, its script the empty one. -/
def lateRow (tweak addr : String) : Rsub where
  apiAccess             := ""
  tweak                 := tweak
  preimage              := zeroText
  destinationAddress    := addr
  swapId                := ""
  redeemScript          := ""
  timeoutBlockheight    := 0xFFFFFFFF
  onchainAmount         := 0
  lockedUp              := false
  lockupTxid            := none
  lockupOut             := none
  lockupConfirmedHeight := none
  lockupClaimFees       := none

/-- Outcomes where nothing throws, nobody interferes, and all is accepted. -/
def allWell : Outcomes where
  others        := fun _ t => t
  throws        := fun _ => none
  checkCommitOk := true
  feerate       := 253
  broadcastOk   := true
  commitOk      := true

/-- The key `1` in hex. -/
def oneText : String := "0000000000000000000000000000000000000000000000000000000000000001"

/-- Private keys as 32 nonzero bytes, one known address, and the hash of the
    empty script. -/
def sampleCrypto : Crypto Hash where
  sha256 bs :=
    if bs = [] then
      ⟨[ 0xe3, 0xb0, 0xc4, 0x42, 0x98, 0xfc, 0x1c, 0x14,
          0x9a, 0xfb, 0xf4, 0xc8, 0x99, 0x6f, 0xb9, 0x24,
          0x27, 0xae, 0x41, 0xe4, 0x64, 0x9b, 0x93, 0x4c,
          0xa4, 0x95, 0x99, 0x1b, 0x78, 0x52, 0xb8, 0x55 ], rfl⟩
    else Hash.zero
  sighash _ _ _ := Hash.zero
  privKeyInit := ⟨List.replicate 31 0 ++ [1], rfl⟩
  privKey s := (preimageOfText s).filter (· ≠ Hash.zero)
  signatureTweak _ _ := ⟨[], by decide⟩
  privkeySaltedHash h := h
  addrToScriptPubKey addr :=
    if addr = "bc1qw508d6qejxtdg4y5r3zarvary0c5xw7kv8f3t4" then
      hexread "0014751e76e8199196d454941c45d1b3a323f1433bd6"
    else none

end Boltz
