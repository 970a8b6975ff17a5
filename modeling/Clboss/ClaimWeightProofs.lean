import Clboss.AmountArithProofs
import Clboss.Bech32Proofs
import Clboss.ClaimTxProofs

/-! # `initial_claim_tx` — is the fee enough for the transaction that is sent?

    The fee is fixed before the witness exists.  Its weight is added up by hand on
    top of four times a serialization that has the marker, the flag and three empty
    witness items in it already, so the framing of the witness is counted twice over.

    The lengths below say what each serialization really takes; the headline
    `initialClaimTx_accounts` says that the sum by hand is never too small and that
    fee and output make up the lockup amount. -/

namespace Bitcoin

open ByteStream

/-! ## Lengths -/

theorem length_writeVarint {v : UInt64} (h : v.toNat ≤ 252) : (writeVarint v).length = 1 := by
  have hlt : v < 0xFD := by
    rw [UInt64.lt_iff_toNat_lt]
    exact Nat.lt_succ_of_le h
  unfold writeVarint
  rw [if_pos hlt, List.length_singleton]

theorem length_writeVarint_size {α : Type} {v : Vec α} (h : v.toList.length ≤ 252) :
    (writeVarint v.size).length = 1 := by
  refine length_writeVarint ?_
  rw [Vec.toNat_size]
  exact h

theorem length_writeTxIn {i : TxIn} (h : i.scriptSig = Vec.nil) : (writeTxIn i).length = 41 := by
  have hsize : (writeVarint (Vec.nil : Vec UInt8).size).length = 1 :=
    length_writeVarint_size (Nat.zero_le _)
  unfold writeTxIn
  rw [h]
  simp only [List.length_append, length_writeTxId, length_writeLe32, hsize]
  rfl

theorem length_writeTxOut_short {o : TxOut} (h : o.scriptPubKey.toList.length ≤ 252) :
    (writeTxOut o).length = 9 + o.scriptPubKey.toList.length := by
  unfold writeTxOut writeLeAmount
  rw [List.length_append, List.length_append, length_writeLe64, length_writeVarint_size h]
  omega

theorem length_writeWitnessItem {w : Vec UInt8} (h : w.toList.length ≤ 252) :
    (writeWitnessItem w).length = 1 + w.toList.length := by
  unfold writeWitnessItem
  rw [List.length_append, length_writeVarint_size h]

/-- Three short witness items. -/
theorem length_writeWitnessField {x y z : Vec UInt8} (hx : x.toList.length ≤ 252)
    (hy : y.toList.length ≤ 252) (hz : z.toList.length ≤ 252) :
    (writeWitnessField ⟨Vec.triple x y z⟩).length
      = 4 + x.toList.length + y.toList.length + z.toList.length := by
  have hsize : (writeVarint (Vec.triple x y z).size).length = 1 :=
    length_writeVarint_size (Nat.le_add_left 3 249)
  unfold writeWitnessField
  rw [List.length_append, hsize]
  show 1 + ([x, y, z].flatMap writeWitnessItem).length = _
  rw [List.flatMap_cons, List.flatMap_cons, List.flatMap_cons, List.flatMap_nil, List.append_nil,
    List.length_append, List.length_append, length_writeWitnessItem hx, length_writeWitnessItem hy,
    length_writeWitnessItem hz]
  omega

/-- One input, one output: marker, flag and witness only where there is a witness. -/
theorem length_writeTx_single {i : TxIn} {o : TxOut} (nVersion nLockTime : UInt32)
    (hi : i.scriptSig = Vec.nil) (ho : o.scriptPubKey.toList.length ≤ 252) :
    (writeTx ⟨nVersion, Vec.single i, Vec.single o, nLockTime⟩).length
      = 60 + o.scriptPubKey.toList.length
        + (if i.witness.empty then 0 else 2 + (writeWitnessField i.witness).length) := by
  have hsegwit : (⟨nVersion, Vec.single i, Vec.single o, nLockTime⟩ : Tx).segwit
      = !i.witness.empty := Bool.or_false _
  have hin : (writeVarint (Vec.single i).size).length = 1 :=
    length_writeVarint_size (Nat.le_add_left 1 251)
  have hout : (writeVarint (Vec.single o).size).length = 1 :=
    length_writeVarint_size (Nat.le_add_left 1 251)
  have hinputs : ((Vec.single i).toList.flatMap writeTxIn).length = 41 := by
    show ([i].flatMap writeTxIn).length = 41
    rw [List.flatMap_singleton, length_writeTxIn hi]
  have houtputs : ((Vec.single o).toList.flatMap writeTxOut).length
      = 9 + o.scriptPubKey.toList.length := by
    show ([o].flatMap writeTxOut).length = _
    rw [List.flatMap_singleton, length_writeTxOut_short ho]
  have hwitness : ((Vec.single i).toList.flatMap (fun i => writeWitnessField i.witness)).length
      = (writeWitnessField i.witness).length := by
    show ([i].flatMap (fun i => writeWitnessField i.witness)).length = _
    rw [List.flatMap_singleton]
  unfold writeTx
  rw [hsegwit]
  cases i.witness.empty with
  | true =>
      simp only [Bool.not_true, Bool.false_eq_true, if_false, if_true, List.length_append,
        List.length_nil, length_writeLe32, hin, hout, hinputs, houtputs]
      omega
  | false =>
      simp only [Bool.not_false, if_true, Bool.false_eq_true, if_false, List.length_append,
        List.length_cons, List.length_nil, length_writeLe32, hin, hout, hinputs, houtputs, hwitness]
      omega

/-- The weight of a transaction: three times what it takes without witnesses, and once
    what it takes with them. -/
def Tx.weight (tx : Tx) : ℕ :=
  3 * (writeTx (Boltz.stripWitnesses tx)).length + (writeTx tx).length

end Bitcoin

namespace Boltz

open ByteStream Bitcoin Ln

variable {K : Type}

/-! ## Addresses -/

/-- `addr_to_scriptPubKey` of a text. -/
def addrScript (addr : String) : Option (Vec UInt8) :=
  (addrToScriptPubKey addr.toUTF8.toList).bind fun rv =>
    if h : rv.length < 2 ^ 64 then some ⟨rv, h⟩ else none

/-- The signer and the hashes of `c`, with the addresses of this repository. -/
def Crypto.atAddresses (c : Crypto K) : Crypto K := { c with addrToScriptPubKey := addrScript }

theorem length_addrScript {addr : String} {script : Vec UInt8} (h : addrScript addr = some script) :
    script.toList.length ≤ 42 := by
  obtain ⟨rv, hrv, h⟩ := Option.bind_eq_some_iff.mp h
  split at h
  · cases h
    exact length_addrToScriptPubKey hrv
  · cases h

/-! ## The budget -/

section Budget

variable {a : ClaimArgs K} {script : Vec UInt8}

/-- The framing of three empty witness items is in the measured serialization. -/
theorem length_claimSkeleton (a : ClaimArgs K) (h : script.toList.length ≤ 42) :
    (writeTx (claimSkeleton a script)).length = 66 + script.toList.length := by
  have hlength := length_writeTx_single
    (i := ⟨a.lockupTxid, a.lockupOutnum, Vec.nil, 0xFFFFFFFF,
      ⟨Vec.triple Vec.nil Vec.nil Vec.nil⟩⟩)
    (o := ⟨⟨0⟩, script⟩) 2 (a.blockheight + 1) rfl (Nat.le_trans h (Nat.le_add_left 42 210))
  refine hlength.trans ?_
  show 60 + script.toList.length + (2 + (writeWitnessField _).length) = _
  rw [length_writeWitnessField (Nat.zero_le _) (Nat.zero_le _) (Nat.zero_le _)]
  show 60 + script.toList.length + (2 + 4) = _
  omega

/-- The budget, without wrapping. -/
theorem toNat_claimWeight (h : script.toList.length ≤ 42)
    (hsize : a.witnessScript.toList.length ≤ 252) :
    (claimWeight a (claimSkeleton a script)).toNat
      = 4 * (66 + script.toList.length) + 110 + a.witnessScript.toList.length + 12 := by
  unfold claimWeight
  rw [length_claimSkeleton a h]
  simp only [UInt64.toNat_add, UInt64.toNat_mul, UInt64.toNat_ofNat', Vec.toNat_size,
    UInt64.reduceToNat]
  omega

/-- The fee of the budget. -/
def budgetFee (a : ClaimArgs K) (script : Vec UInt8) : Amount :=
  Amount.sat ((claimWeight a (claimSkeleton a script) * a.feerate.toUInt64) / 1000)

/-- The fee of the budget, without wrapping. -/
theorem toNat_budgetFee (h : script.toList.length ≤ 42)
    (hsize : a.witnessScript.toList.length ≤ 252) :
    (budgetFee a script).v.toNat
      = 1000 * ((claimWeight a (claimSkeleton a script)).toNat * a.feerate.toNat / 1000) := by
  have hweight := toNat_claimWeight h hsize
  have hbudget : (claimWeight a (claimSkeleton a script)).toNat ≤ 1000 := by omega
  have hfeerate := a.feerate.toNat_lt
  have hproduct : (claimWeight a (claimSkeleton a script)).toNat * a.feerate.toNat
      ≤ 1000 * 2 ^ 32 := Nat.mul_le_mul hbudget hfeerate.le
  unfold budgetFee Amount.sat
  simp only [UInt64.toNat_mul, UInt64.toNat_div, UInt32.toNat_toUInt64, UInt64.reduceToNat]
  rw [Nat.mod_eq_of_lt (show (claimWeight a (claimSkeleton a script)).toNat * a.feerate.toNat
    < 2 ^ 64 by omega)]
  omega

/-- Too little for fee and dust. -/
theorem claimFeeOutput_burnt (h : a.lockupAmount.v < ((budgetFee a script).add dustLimit).v) :
    claimFeeOutput a script = (a.lockupAmount, ⟨Amount.sat 0, opReturnScript⟩) := by
  unfold claimFeeOutput
  exact if_pos h

/-- Enough for fee and dust. -/
theorem claimFeeOutput_paid (h : ¬ a.lockupAmount.v < ((budgetFee a script).add dustLimit).v) :
    claimFeeOutput a script
      = (budgetFee a script, ⟨a.lockupAmount.sub (budgetFee a script), script⟩) := by
  unfold claimFeeOutput
  exact if_neg h

theorem toNat_dustLimit : dustLimit.v.toNat = 547000 :=
  Amount.toNat_sat (UInt64.le_iff_toNat_le.mpr (by decide))

end Budget

/-! ## The transaction -/

section Claim

variable {c : Crypto K} {a : ClaimArgs K} {script : Vec UInt8}

/-- A signature of at most 73 bytes, a preimage of 32, and the script. -/
theorem length_claimWitness (c : Crypto K) (unsigned : Tx)
    (hsize : a.witnessScript.toList.length ≤ 252) :
    (writeWitnessField (claimWitness c a unsigned)).length
      ≤ 109 + a.witnessScript.toList.length := by
  have hsig : ∀ sig : { l : List UInt8 // l.length ≤ 72 }, (sig.1 ++ [0x01]).length ≤ 73 := by
    intro sig
    have := sig.2
    rw [List.length_append, List.length_singleton]
    omega
  have hpreimage := a.preimage.length
  unfold claimWitness
  dsimp only
  rw [length_writeWitnessField _ _ hsize]
  · have := hsig (c.signatureTweak a.tweak (c.sighash unsigned a.lockupAmount
      (UInt8.ofNat a.witnessScript.toList.length :: a.witnessScript.toList)))
    dsimp only
    omega
  · exact Nat.le_trans (hsig _) (Nat.le_add_left 73 179)
  · exact Nat.le_trans (Nat.le_of_eq hpreimage) (Nat.le_add_left 32 220)

/-- **THE WEIGHT** of the signed transaction, where the requested address is paid. -/
theorem weight_claimTxTo (h : script.toList.length ≤ 42)
    (hsize : a.witnessScript.toList.length ≤ 252)
    (hscript : (claimFeeOutput a script).2.scriptPubKey = script) :
    (claimTxTo c a script).1.weight
      ≤ 351 + 4 * script.toList.length + a.witnessScript.toList.length := by
  have hout : (claimFeeOutput a script).2.scriptPubKey.toList.length ≤ 252 := by
    rw [hscript]
    omega
  have hbase : (writeTx (stripWitnesses (claimTxTo c a script).1)).length
      = 60 + script.toList.length := by
    have := length_writeTx_single
      (i := ⟨a.lockupTxid, a.lockupOutnum, Vec.nil, 0xFFFFFFFF, ⟨Vec.nil⟩⟩)
      2 (a.blockheight + 1) rfl hout
    rwa [hscript] at this
  have htotal := length_writeTx_single
    (i := ⟨a.lockupTxid, a.lockupOutnum, Vec.nil, 0xFFFFFFFF, claimWitness c a
      { claimSkeleton a script with outputs := Vec.single (claimFeeOutput a script).2 }⟩)
    2 (a.blockheight + 1) rfl hout
  have hwitness := length_claimWitness c
    { claimSkeleton a script with outputs := Vec.single (claimFeeOutput a script).2 } hsize
  unfold Tx.weight
  rw [hbase]
  have hfull : (writeTx (claimTxTo c a script).1).length
      ≤ 171 + script.toList.length + a.witnessScript.toList.length := by
    refine (Nat.le_of_eq htotal).trans ?_
    rw [hscript]
    show 60 + script.toList.length + (2 + (writeWitnessField (claimWitness c a _)).length) ≤ _
    omega
  omega

/-! ## The money -/

/-- Rounding up to a satoshi, where nothing wraps. -/
theorem toNat_toSat {v : Amount} (h : v.v.toNat + 999 < 2 ^ 64) :
    v.toSat.toNat = (v.v.toNat + 999) / 1000 := by
  unfold Amount.toSat
  rw [UInt64.toNat_div, UInt64.toNat_add]
  simp only [UInt64.reduceToNat]
  rw [Nat.mod_eq_of_lt h]

/-- The lockup does not pay for fee and dust: all of it is the fee. -/
structure Burnt (a : ClaimArgs K) (fee : Amount) (out : TxOut) : Prop where
  all         : fee = a.lockupAmount
  nothing     : out.amount.v = 0
  -- `OP_RETURN`
  unspendable : out.scriptPubKey.toList.head? = some 0x6a

/-- The requested address is paid, and the fee is that of the budget, rounded down to
    a satoshi; the budget is at least the weight. -/
structure Paid (a : ClaimArgs K) (script : Vec UInt8) (tx : Tx) (fee : Amount) (out : TxOut) :
    Prop where
  dust      : dustLimit.v.toNat ≤ out.amount.v.toNat
  requested : out.scriptPubKey = script
  weight    : tx.weight ≤ (claimWeight a (claimSkeleton a script)).toNat
  feerate   : fee.v.toNat
    = 1000 * ((claimWeight a (claimSkeleton a script)).toNat * a.feerate.toNat / 1000)
  effective : 1000 * (tx.weight * a.feerate.toNat / 1000) ≤ fee.v.toNat

/-- Fee and output make up the lockup. -/
structure Accounts (a : ClaimArgs K) (script : Vec UInt8) (tx : Tx) (fee : Amount) (out : TxOut) :
    Prop where
  outputs : tx.outputs.toList = [out]
  total   : fee.v.toNat + out.amount.v.toNat = a.lockupAmount.v.toNat
  -- a lockup in satoshi is made up in satoshi, which is what is serialized
  satoshi : a.lockupAmount.WholeSat →
    fee.toSat.toNat + out.amount.toSat.toNat = a.lockupAmount.toSat.toNat
  settled : Burnt a fee out ∨ Paid a script tx fee out

theorem claimTxTo_outputs (c : Crypto K) (a : ClaimArgs K) (script : Vec UInt8) :
    (claimTxTo c a script).1.outputs.toList = [(claimFeeOutput a script).2] := rfl

-- `feeOut` is a variable: checking the equation would evaluate the fee otherwise
theorem claimTxTo_fee (c : Crypto K) {feeOut : Amount × TxOut}
    (h : claimFeeOutput a script = feeOut) : (claimTxTo c a script).2 = feeOut.1 := by
  unfold claimTxTo
  rw [h]

theorem accounts_claimTxTo (h : script.toList.length ≤ 42)
    (hsize : a.witnessScript.toList.length ≤ 252) :
    Accounts a script (claimTxTo c a script).1 (claimTxTo c a script).2
      (claimFeeOutput a script).2 := by
  have hbudget := toNat_claimWeight h hsize
  have hfee := toNat_budgetFee h hsize
  rw [claimTxTo_fee c rfl]
  by_cases hburnt : a.lockupAmount.v < ((budgetFee a script).add dustLimit).v
  · have hout := claimFeeOutput_burnt hburnt
    refine ⟨claimTxTo_outputs c a script, ?_, fun _ => ?_, Or.inl ?_⟩
    · rw [hout]
      exact Nat.add_zero _
    · rw [hout]
      dsimp only
      rw [Amount.toSat_sat (UInt64.zero_le)]
      exact Nat.add_zero _
    · rw [hout]
      exact ⟨rfl, rfl, rfl⟩
  · have hout := claimFeeOutput_paid hburnt
    -- the sum of fee and dust is far from where it would saturate
    have henough : (budgetFee a script).v.toNat + 547000 ≤ a.lockupAmount.v.toNat := by
      have hle := Nat.not_lt.mp (fun hlt => hburnt (UInt64.lt_iff_toNat_lt.mpr hlt))
      rw [Amount.toNat_add, toNat_dustLimit] at hle
      have hfeerate := a.feerate.toNat_lt
      have hproduct : (claimWeight a (claimSkeleton a script)).toNat * a.feerate.toNat
          ≤ 1000 * 2 ^ 32 := Nat.mul_le_mul (by omega) hfeerate.le
      omega
    have hweight : (claimTxTo c a script).1.weight
        ≤ (claimWeight a (claimSkeleton a script)).toNat := by
      have := weight_claimTxTo (c := c) h hsize (by rw [hout])
      omega
    have hamount : (a.lockupAmount.sub (budgetFee a script)).v.toNat
        = a.lockupAmount.v.toNat - (budgetFee a script).v.toNat := Amount.toNat_sub _ _
    refine ⟨claimTxTo_outputs c a script, ?_, fun hwhole => ?_, Or.inr ⟨?_, ?_, hweight, ?_, ?_⟩⟩
    · rw [hout]
      dsimp only
      rw [hamount]
      omega
    · obtain ⟨s, hs, hlockup⟩ := hwhole
      have hv := Amount.toNat_sat hs
      rw [← hlockup] at hv
      have hs' : s.toNat ≤ 2100000000000000 := UInt64.le_iff_toNat_le.mp hs
      rw [hout]
      dsimp only
      rw [toNat_toSat (by omega), toNat_toSat (by omega), toNat_toSat (by omega), hamount]
      omega
    · rw [hout, hamount, toNat_dustLimit]
      omega
    · rw [hout]
    · rw [hout, hfee]
    · rw [hout, hfee]
      exact Nat.mul_le_mul_left _ (Nat.div_le_div_right (Nat.mul_le_mul_right _ hweight))

/-- **HEADLINE**: for every lockup amount, feerate, witness script of at most 252 bytes
    and signature, fee and output of the claim transaction make up the lockup, and
    where the requested address is paid the fee is that of at least the weight sent. -/
theorem initialClaimTx_accounts (c : Crypto K) (a : ClaimArgs K) (addr : String)
    (script : Vec UInt8) (haddr : addrScript addr = some script)
    (hsize : a.witnessScript.toList.length ≤ 252) :
    ∃ tx fee out, initialClaimTx c.atAddresses a addr = some (tx, fee)
      ∧ Accounts a script tx fee out := by
  refine ⟨_, _, _, ?_, accounts_claimTxTo (c := c.atAddresses) (length_addrScript haddr) hsize⟩
  unfold initialClaimTx Crypto.atAddresses
  dsimp only
  rw [haddr, Option.map_some, Prod.mk.eta]

end Claim

/-- The script of a swap: a hash, our key, a timeout at block 840144 and the server's key. -/
def sampleWitnessScript : Vec UInt8 where
  toList  := [0x82, 0x01, 0x20, 0x87, 0x63, 0xa9, 0x14] ++ List.replicate 20 0x11
    ++ [0x88, 0x21, 0x02] ++ List.replicate 32 0x22
    ++ [0x67, 0x75, 0x03, 0xd0, 0xd1, 0x0c, 0xb1, 0x75, 0x21, 0x03]
    ++ List.replicate 32 0x33 ++ [0x68, 0xac]
  size_lt := by decide

/-- A lockup of 100000 satoshi at the lowest feerate. -/
def sampleClaimArgs : ClaimArgs Hash where
  feerate       := 253
  blockheight   := 840000
  lockupTxid    := ⟨⟨List.replicate 32 0x44, rfl⟩⟩
  lockupOutnum  := 1
  lockupAmount  := Amount.sat 100000
  tweak         := ⟨List.replicate 32 0x55, rfl⟩
  preimage      := ⟨List.replicate 32 0x66, rfl⟩
  witnessScript := sampleWitnessScript

theorem initialClaimTx_sample :
    ∃ tx fee out, initialClaimTx sampleCrypto.atAddresses sampleClaimArgs
        "bc1qw508d6qejxtdg4y5r3zarvary0c5xw7kv8f3t4" = some (tx, fee)
      ∧ Accounts sampleClaimArgs ⟨[0x00, 0x14, 0x75, 0x1e, 0x76, 0xe8, 0x19, 0x91, 0x96, 0xd4, 0x54,
        0x94, 0x1c, 0x45, 0xd1, 0xb3, 0xa3, 0x23, 0xf1, 0x43, 0x3b, 0xd6], by decide⟩ tx fee out :=
  initialClaimTx_accounts sampleCrypto sampleClaimArgs _ _ (by decide +kernel) (by decide)

end Boltz
