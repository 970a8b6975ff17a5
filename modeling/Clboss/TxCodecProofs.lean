import Clboss.ByteStreamProofs
import Clboss.LittleEndianProofs
import Clboss.AmountProofs

/-! # The Bitcoin transaction codec

    `Bitcoin/Tx.cpp` and its parts as writers (byte lists) and readers
    (`ByteStream.Reader`).  The writer inspects every input to choose between
    the legacy and the segwit layout; the reader must recover that choice from
    one byte, which is either the marker `0x00` or the first byte of the input
    count.  A transaction WITH AN INPUT never starts its count with `0x00`, and
    that is the whole of the disambiguation (`varint_ne_zero`).

    The headline is `readTx_writeTx`: reading what was written gives the same
    transaction and leaves the stream good and empty. -/

namespace Bitcoin

open ByteStream LittleEndian Ln

/-! ## Fixed-width and variable-width integers -/

/-- `Le32Const`: the four bytes of a word, least significant first. -/
def writeLe32 (v : UInt32) : List UInt8 :=
  [ ((v >>> 0) &&& 0xFF).toUInt8
  , ((v >>> 8) &&& 0xFF).toUInt8
  , ((v >>> 16) &&& 0xFF).toUInt8
  , ((v >>> 24) &&& 0xFF).toUInt8 ]

@[simp] theorem length_writeLe32 (v : UInt32) : (writeLe32 v).length = 4 := rfl

/-- `Le32`: `junk i` is what byte `i` of the uninitialized buffer held. -/
def readLe32 (junk : Nat → UInt8) : Reader UInt32 := do
  let c0 ← get (junk 0)
  let c1 ← get (junk 1)
  let c2 ← get (junk 2)
  let c3 ← get (junk 3)
  return (c0.toUInt32 <<< 0) ||| (c1.toUInt32 <<< 8)
    ||| (c2.toUInt32 <<< 16) ||| (c3.toUInt32 <<< 24)

/-- `Le64Const`. -/
def writeLe64 (v : UInt64) : List UInt8 :=
  [ ((v >>> 0) &&& 0xFF).toUInt8
  , ((v >>> 8) &&& 0xFF).toUInt8
  , ((v >>> 16) &&& 0xFF).toUInt8
  , ((v >>> 24) &&& 0xFF).toUInt8
  , ((v >>> 32) &&& 0xFF).toUInt8
  , ((v >>> 40) &&& 0xFF).toUInt8
  , ((v >>> 48) &&& 0xFF).toUInt8
  , ((v >>> 56) &&& 0xFF).toUInt8 ]

@[simp] theorem length_writeLe64 (v : UInt64) : (writeLe64 v).length = 8 := rfl

/-- `Le64`. -/
def readLe64 (junk : Nat → UInt8) : Reader UInt64 := do
  let c0 ← get (junk 0)
  let c1 ← get (junk 1)
  let c2 ← get (junk 2)
  let c3 ← get (junk 3)
  let c4 ← get (junk 4)
  let c5 ← get (junk 5)
  let c6 ← get (junk 6)
  let c7 ← get (junk 7)
  return (c0.toUInt64 <<< 0) ||| (c1.toUInt64 <<< 8)
    ||| (c2.toUInt64 <<< 16) ||| (c3.toUInt64 <<< 24)
    ||| (c4.toUInt64 <<< 32) ||| (c5.toUInt64 <<< 40)
    ||| (c6.toUInt64 <<< 48) ||| (c7.toUInt64 <<< 56)

/-- A 32-bit field reads back. -/
theorem decodes_le32 (junk : Nat → UInt8) (v : UInt32) :
    Decodes (readLe32 junk) (writeLe32 v) v := by
  intro rest
  refine Prod.ext ?_ rfl
  apply UInt32.toNat_inj.mp
  refine (toNat_combine32 _ _ _ _).trans ?_
  rw [toNat_byte32 v 0 (by decide), toNat_byte32 v 8 (by decide),
    toNat_byte32 v 16 (by decide), toNat_byte32 v 24 (by decide)]
  have hv := v.toNat_lt
  simp only [UInt32.reduceToNat]
  omega

/-- A 64-bit field reads back. -/
theorem decodes_le64 (junk : Nat → UInt8) (v : UInt64) :
    Decodes (readLe64 junk) (writeLe64 v) v := by
  intro rest
  refine Prod.ext ?_ rfl
  apply UInt64.toNat_inj.mp
  refine (toNat_combine64 _ _ _ _ _ _ _ _).trans ?_
  rw [toNat_byte64 v 0 (by decide), toNat_byte64 v 8 (by decide),
    toNat_byte64 v 16 (by decide), toNat_byte64 v 24 (by decide),
    toNat_byte64 v 32 (by decide), toNat_byte64 v 40 (by decide),
    toNat_byte64 v 48 (by decide), toNat_byte64 v 56 (by decide)]
  have hv := v.toNat_lt
  simp only [UInt64.reduceToNat]
  omega

/-- `LeAmountConst`: amounts travel as satoshi. -/
def writeLeAmount (a : Amount) : List UInt8 := writeLe64 a.toSat

/-- `LeAmount`. -/
def readLeAmount (junk : Nat → UInt8) : Reader Amount := do
  let sats ← readLe64 junk
  return Amount.sat sats

/-- `VarIntConst`: the CompactSize encoding. -/
def writeVarint (v : UInt64) : List UInt8 :=
  if v < 0xFD then
    [v.toUInt8]
  else if v ≤ 0xFFFF then
    [ 0xFD
    , ((v >>> 0) &&& 0xFF).toUInt8
    , ((v >>> 8) &&& 0xFF).toUInt8 ]
  else if v ≤ 0xFFFFFFFF then
    [ 0xFE
    , ((v >>> 0) &&& 0xFF).toUInt8
    , ((v >>> 8) &&& 0xFF).toUInt8
    , ((v >>> 16) &&& 0xFF).toUInt8
    , ((v >>> 24) &&& 0xFF).toUInt8 ]
  else
    [ 0xFF
    , ((v >>> 0) &&& 0xFF).toUInt8
    , ((v >>> 8) &&& 0xFF).toUInt8
    , ((v >>> 16) &&& 0xFF).toUInt8
    , ((v >>> 24) &&& 0xFF).toUInt8
    , ((v >>> 32) &&& 0xFF).toUInt8
    , ((v >>> 40) &&& 0xFF).toUInt8
    , ((v >>> 48) &&& 0xFF).toUInt8
    , ((v >>> 56) &&& 0xFF).toUInt8 ]

/-- The two-byte tail of a `VarInt`. -/
def readTail16 (junk : Nat → UInt8) : Reader UInt64 := do
  let c0 ← get (junk 0)
  let c1 ← get (junk 1)
  return (c0.toUInt64 <<< 0) ||| (c1.toUInt64 <<< 8)

/-- The four-byte tail of a `VarInt`. -/
def readTail32 (junk : Nat → UInt8) : Reader UInt64 := do
  let c0 ← get (junk 0)
  let c1 ← get (junk 1)
  let c2 ← get (junk 2)
  let c3 ← get (junk 3)
  return (c0.toUInt64 <<< 0) ||| (c1.toUInt64 <<< 8)
    ||| (c2.toUInt64 <<< 16) ||| (c3.toUInt64 <<< 24)

/-- `VarInt` after its prefix byte. -/
def readVarintTail (junk : Nat → UInt8) (t : UInt8) : Reader UInt64 :=
  if t < 0xFD then pure t.toUInt64
  else if t = 0xFD then readTail16 junk
  else if t = 0xFE then readTail32 junk
  else readLe64 junk

/-- `VarInt`: the prefix byte starts as `char()`, the rest is uninitialized. -/
def readVarint (junk : Nat → UInt8) : Reader UInt64 := do
  let t ← get 0
  readVarintTail junk t

/-- An amount reads back as the whole satoshi that were sent for it. -/
theorem decodes_leAmount (junk : Nat → UInt8) (a : Amount) :
    Decodes (readLeAmount junk) (writeLeAmount a) (Amount.sat a.toSat) :=
  (decodes_le64 junk a.toSat).map Amount.sat

/-- A two-byte tail reads back. -/
theorem decodes_tail16 (junk : Nat → UInt8) {v : UInt64} (hv : v.toNat ≤ 0xFFFF) :
    Decodes (readTail16 junk)
      [((v >>> 0) &&& 0xFF).toUInt8, ((v >>> 8) &&& 0xFF).toUInt8] v := by
  intro rest
  refine Prod.ext ?_ rfl
  apply UInt64.toNat_inj.mp
  refine (toNat_combine64_two _ _).trans ?_
  rw [toNat_byte64 v 0 (by decide), toNat_byte64 v 8 (by decide)]
  simp only [UInt64.reduceToNat]
  omega

/-- A four-byte tail reads back. -/
theorem decodes_tail32 (junk : Nat → UInt8) {v : UInt64} (hv : v.toNat ≤ 0xFFFFFFFF) :
    Decodes (readTail32 junk)
      [((v >>> 0) &&& 0xFF).toUInt8, ((v >>> 8) &&& 0xFF).toUInt8,
        ((v >>> 16) &&& 0xFF).toUInt8, ((v >>> 24) &&& 0xFF).toUInt8] v := by
  intro rest
  refine Prod.ext ?_ rfl
  apply UInt64.toNat_inj.mp
  refine (toNat_combine64_four _ _ _ _).trans ?_
  rw [toNat_byte64 v 0 (by decide), toNat_byte64 v 8 (by decide),
    toNat_byte64 v 16 (by decide), toNat_byte64 v 24 (by decide)]
  simp only [UInt64.reduceToNat]
  omega

/-- A CompactSize integer reads back, in each of its four widths. -/
theorem decodes_varint (junk : Nat → UInt8) (v : UInt64) :
    Decodes (readVarint junk) (writeVarint v) v := by
  unfold writeVarint
  by_cases h1 : v < 0xFD
  · rw [if_pos h1]
    have hv : v.toNat < 253 := UInt64.lt_iff_toNat_lt.mp h1
    have ht : v.toUInt8 < 0xFD := by
      rw [UInt8.lt_iff_toNat_lt, UInt64.toNat_toUInt8]
      simp only [UInt8.reduceToNat]
      omega
    have hback : v.toUInt8.toUInt64 = v := by
      apply UInt64.toNat_inj.mp
      rw [UInt8.toNat_toUInt64, UInt64.toNat_toUInt8]
      omega
    have htail : Decodes (readVarintTail junk v.toUInt8) [] v := by
      unfold readVarintTail
      rw [if_pos ht, hback]
      exact Decodes.pure v
    exact (Decodes.get 0 v.toUInt8).bind htail
  rw [if_neg h1]
  by_cases h2 : v ≤ 0xFFFF
  · rw [if_pos h2]
    exact (Decodes.get 0 0xFD).bind (k := readVarintTail junk)
      (decodes_tail16 junk (UInt64.le_iff_toNat_le.mp h2))
  rw [if_neg h2]
  by_cases h3 : v ≤ 0xFFFFFFFF
  · rw [if_pos h3]
    exact (Decodes.get 0 0xFE).bind (k := readVarintTail junk)
      (decodes_tail32 junk (UInt64.le_iff_toNat_le.mp h3))
  rw [if_neg h3]
  exact (Decodes.get 0 0xFF).bind (k := readVarintTail junk) (decodes_le64 junk v)

/-- A nonzero count never starts with the byte that marks the segwit layout:
    the reader's test `len == 0` fails on it. -/
theorem varint_ne_zero {α : Type} (v : Vec α) (h : v.toList ≠ []) : v.size ≠ 0 := by
  intro h0
  have hs := v.toNat_size
  rw [h0] at hs
  exact h (List.length_eq_zero_iff.mp hs.symm)

/-! ## Transactions -/

/-- `Sha256::Hash`: 32 bytes (an absent hash compares equal to zeros). -/
structure Hash where
  d      : List UInt8
  length : d.length = 32
deriving DecidableEq

/-- The all-zero hash, `Hash()`. -/
def Hash.zero : Hash := ⟨List.replicate 32 0, rfl⟩

/-- `Bitcoin::TxId`: the hash is already stored in reverse order. -/
structure TxId where
  hash : Hash
deriving DecidableEq

/-- `Bitcoin::WitnessField`. -/
structure WitnessField where
  witnesses : Vec (Vec UInt8)
deriving DecidableEq

/-- `WitnessField::empty`. -/
def WitnessField.empty (w : WitnessField) : Bool := w.witnesses.toList.isEmpty

/-- `Bitcoin::TxIn`. -/
structure TxIn where
  prevTxid  : TxId
  prevOut   : UInt32
  scriptSig : Vec UInt8
  nSequence : UInt32
  witness   : WitnessField
deriving DecidableEq

/-- `TxIn()`. -/
def TxIn.init : TxIn :=
  ⟨⟨Hash.zero⟩, 0xFFFFFFFF, Vec.nil, 0xFFFFFFFF, ⟨Vec.nil⟩⟩

/-- `Bitcoin::TxOut`. -/
structure TxOut where
  amount       : Amount
  scriptPubKey : Vec UInt8
deriving DecidableEq

/-- `TxOut()`. -/
def TxOut.init : TxOut := ⟨⟨0⟩, Vec.nil⟩

/-- `Bitcoin::Tx`. -/
structure Tx where
  nVersion  : UInt32
  inputs    : Vec TxIn
  outputs   : Vec TxOut
  nLockTime : UInt32
deriving DecidableEq

/-- `Tx()`. -/
def Tx.init : Tx := ⟨2, Vec.nil, Vec.nil, 0⟩

/-- `operator<<` for `TxId`: reversed back to hash order. -/
def writeTxId (id : TxId) : List UInt8 := id.hash.d.reverse

@[simp] theorem length_writeTxId (i : TxId) : (writeTxId i).length = 32 := by
  rw [writeTxId, List.length_reverse, i.hash.length]

/-- `operator>>` for `TxId`: byte `i` lands at index `31 - i`. -/
def readTxId : Reader TxId := do
  let p ← readArray 32
  return ⟨⟨p.1.reverse, by rw [List.length_reverse, p.2]⟩⟩

/-- `operator<<` for `TxIn`; the witness is serialized separately. -/
def writeTxIn (v : TxIn) : List UInt8 :=
  writeTxId v.prevTxid
    ++ (writeLe32 v.prevOut
    ++ (writeVarint v.scriptSig.size
    ++ (v.scriptSig.toList
    ++ writeLe32 v.nSequence)))

/-- `operator>>` for `TxIn`; the witness is left as it was. -/
def readTxIn (junk : Nat → UInt8) (v : TxIn) : Reader TxIn := do
  let prevTxid ← readTxId
  let prevOut ← readLe32 junk
  let scriptSigLen ← readVarint junk
  let scriptSig ← Vec.forEach (fun _ => getByte) (v.scriptSig.resize scriptSigLen 0)
  let nSequence ← readLe32 junk
  return ⟨prevTxid, prevOut, scriptSig, nSequence, v.witness⟩

/-- `operator<<` for `TxOut`. -/
def writeTxOut (v : TxOut) : List UInt8 :=
  writeLeAmount v.amount
    ++ (writeVarint v.scriptPubKey.size
    ++ v.scriptPubKey.toList)

/-- `operator>>` for `TxOut`. -/
def readTxOut (junk : Nat → UInt8) (v : TxOut) : Reader TxOut := do
  let amount ← readLeAmount junk
  let len ← readVarint junk
  let scriptPubKey ← Vec.forEach (fun _ => getByte) (v.scriptPubKey.resize len 0)
  return { amount := amount, scriptPubKey := scriptPubKey }

/-- One stack item of a witness: its length, then its bytes. -/
def writeWitnessItem (w : Vec UInt8) : List UInt8 :=
  writeVarint w.size ++ w.toList

/-- Reading one stack item. -/
def readWitnessItem (junk : Nat → UInt8) (w : Vec UInt8) : Reader (Vec UInt8) := do
  let len ← readVarint junk
  Vec.forEach (fun _ => getByte) (w.resize len 0)

/-- `operator<<` for `WitnessField`. -/
def writeWitnessField (v : WitnessField) : List UInt8 :=
  writeVarint v.witnesses.size ++ v.witnesses.toList.flatMap writeWitnessItem

/-- `operator>>` for `WitnessField`. -/
def readWitnessField (junk : Nat → UInt8) (v : WitnessField) : Reader WitnessField := do
  let len ← readVarint junk
  let witnesses ← Vec.forEach (readWitnessItem junk) (v.witnesses.resize len Vec.nil)
  return ⟨witnesses⟩

/-- Should a transaction be serialized as segwit?  Some input has a witness. -/
def Tx.segwit (v : Tx) : Bool := v.inputs.toList.any (fun i => !i.witness.empty)

/-- `operator<<` for `Tx`. -/
def writeTx (v : Tx) : List UInt8 :=
  writeLe32 v.nVersion
    ++ ((if v.segwit then [0x00, 0x01] else [])
    ++ (writeVarint v.inputs.size
    ++ (v.inputs.toList.flatMap writeTxIn
    ++ (writeVarint v.outputs.size
    ++ (v.outputs.toList.flatMap writeTxOut
    ++ ((if v.segwit then v.inputs.toList.flatMap (fun i => writeWitnessField i.witness)
          else [])
    ++ writeLe32 v.nLockTime))))))

/-- `is >> i.witness`. -/
def readTxInWitness (junk : Nat → UInt8) (i : TxIn) : Reader TxIn := do
  let w ← readWitnessField junk i.witness
  return { i with witness := w }

/-- `i.witness.witnesses.clear()`. -/
def TxIn.clearWitness (i : TxIn) : TxIn := { i with witness := ⟨Vec.nil⟩ }

/-- The witness part of `operator>>` for `Tx`: read each input's witness in the
    segwit layout, clear them in the legacy one. -/
def readWitnesses (junk : Nat → UInt8) (segwit : Bool) (inputs : Vec TxIn) :
    Reader (Vec TxIn) :=
  if segwit then Vec.forEach (readTxInWitness junk) inputs
  else Vec.forEach (fun i => pure i.clearWitness) inputs

/-- `operator>>` for `Tx` once the layout and the input count are known. -/
def readTxBody (junk : Nat → UInt8) (v : Tx) (segwit : Bool) (len : UInt64) : Reader Tx := do
  let inputs ← Vec.forEach (readTxIn junk) (v.inputs.resize len TxIn.init)
  let len ← readVarint junk
  let outputs ← Vec.forEach (readTxOut junk) (v.outputs.resize len TxOut.init)
  let inputs ← readWitnesses junk segwit inputs
  let nLockTime ← readLe32 junk
  return { v with inputs := inputs, outputs := outputs, nLockTime := nLockTime }

/-- `operator>>` for `Tx`, reading over the transaction `v`: a zero count is
    the segwit marker, to be followed by the flag and the actual count. -/
def readTx (junk : Nat → UInt8) (v : Tx) : Reader Tx := do
  let nVersion ← readLe32 junk
  let len ← readVarint junk
  if len = 0 then
    let flag ← getInt
    if flag ≠ some 0x01 then
      setFail
      return { v with nVersion := nVersion }
    else
      let len ← readVarint junk
      readTxBody junk { v with nVersion := nVersion } true len
  else
    readTxBody junk { v with nVersion := nVersion } false len

/-- An output as it travels: the amount in whole satoshi. -/
def TxOut.asSent (o : TxOut) : TxOut := { o with amount := Amount.sat o.amount.toSat }

/-- A transaction as it travels. -/
def Tx.asSent (v : Tx) : Tx := { v with outputs := v.outputs.map TxOut.asSent }

/-- Whole amounts travel as they are. -/
theorem Tx.asSent_eq {v : Tx} (ha : ∀ o ∈ v.outputs.toList, o.amount.WholeSat) :
    v.asSent = v := by
  have hout : v.outputs.map TxOut.asSent = v.outputs := by
    apply Vec.ext_toList
    show v.outputs.toList.map TxOut.asSent = v.outputs.toList
    refine (List.map_congr_left fun o ho => ?_).trans (List.map_id _)
    show ({ o with amount := Amount.sat o.amount.toSat } : TxOut) = o
    rw [Amount.sat_toSat (ha o ho)]
  unfold Tx.asSent
  rw [hout]

/-! ## The round trip, part by part -/

theorem decodes_txId (id : TxId) : Decodes readTxId (writeTxId id) id := by
  have hlen : id.hash.d.reverse.length = 32 := by
    rw [List.length_reverse, id.hash.length]
  have h := (Decodes.readArray 32 id.hash.d.reverse hlen).map
    (fun p => (⟨⟨p.1.reverse, by rw [List.length_reverse, p.2]⟩⟩ : TxId))
  simp only [List.reverse_reverse] at h
  exact h

/-- An input reads back over any old input, whose witness stays. -/
theorem decodes_txIn (junk : Nat → UInt8) (x y : TxIn) :
    Decodes (readTxIn junk x) (writeTxIn y) { y with witness := x.witness } := by
  unfold readTxIn writeTxIn
  refine (decodes_txId y.prevTxid).bind ?_
  refine (decodes_le32 junk y.prevOut).bind ?_
  refine (decodes_varint junk y.scriptSig.size).bind ?_
  refine (Decodes.resize_bytes x.scriptSig y.scriptSig).bind ?_
  exact (decodes_le32 junk y.nSequence).map _

/-- An output reads back over any old output, in whole satoshi. -/
theorem decodes_txOut (junk : Nat → UInt8) (x y : TxOut) :
    Decodes (readTxOut junk x) (writeTxOut y) y.asSent := by
  unfold readTxOut writeTxOut
  refine (decodes_leAmount junk y.amount).bind ?_
  refine (decodes_varint junk y.scriptPubKey.size).bind ?_
  exact (Decodes.resize_bytes x.scriptPubKey y.scriptPubKey).map _

theorem decodes_witnessItem (junk : Nat → UInt8) (x y : Vec UInt8) :
    Decodes (readWitnessItem junk x) (writeWitnessItem y) y :=
  (decodes_varint junk y.size).bind (Decodes.resize_bytes x y)

/-- A witness stack reads back over any old one. -/
theorem decodes_witnessField (junk : Nat → UInt8) (x y : WitnessField) :
    Decodes (readWitnessField junk x) (writeWitnessField y) y := by
  have h := Decodes.resize_forEach (f := readWitnessItem junk) (e := writeWitnessItem)
    (g := fun _ w => w) x.witnesses y.witnesses Vec.nil
    (fun w w' _ => decodes_witnessItem junk w w')
  rw [Vec.zipWith_right (by rw [Vec.length_resize, Vec.toNat_size])] at h
  unfold readWitnessField writeWitnessField
  refine (decodes_varint junk y.witnesses.size).bind ?_
  exact h.map _

theorem decodes_txInWitness (junk : Nat → UInt8) (x y : TxIn) :
    Decodes (readTxInWitness junk x) (writeWitnessField y.witness)
      { x with witness := y.witness } := by
  unfold readTxInWitness
  exact (decodes_witnessField junk x.witness y.witness).map _

/-- Every old element is overwritten: an input read over any old input and then
    given its own witness is the input itself. -/
theorem zipWith_inputs (v w : Vec TxIn) (hlen : v.toList.length = w.toList.length) :
    Vec.zipWith (fun (x y : TxIn) => ({ x with witness := y.witness } : TxIn))
      (Vec.zipWith (fun (x y : TxIn) => ({ y with witness := x.witness } : TxIn)) v w) w
      = w := by
  apply Vec.ext_toList
  have key : ∀ (xs ys : List TxIn), xs.length = ys.length →
      List.zipWith (fun (x y : TxIn) => ({ x with witness := y.witness } : TxIn))
        (List.zipWith (fun (x y : TxIn) => ({ y with witness := x.witness } : TxIn))
          xs ys) ys = ys := by
    intro xs
    induction xs with
    | nil =>
        intro ys h
        rw [List.length_eq_zero_iff.mp h.symm]
        rfl
    | cons x xs ih =>
        intro ys h
        cases ys with
        | nil => exact nomatch h
        | cons y ys =>
            simp only [List.zipWith_cons_cons]
            rw [ih ys (Nat.succ.inj h)]
  exact key v.toList w.toList hlen

/-- Reading the witnesses recovers them in either layout: in the legacy one
    every witness is empty, which is what clearing restores. -/
theorem decodes_witnesses (junk : Nat → UInt8) (v : Vec TxIn) (tx : Tx)
    (hlen : v.toList.length = tx.inputs.toList.length) :
    Decodes
      (readWitnesses junk tx.segwit
        (Vec.zipWith (fun x y => { y with witness := x.witness }) v tx.inputs))
      (if tx.segwit then
        tx.inputs.toList.flatMap (fun i => writeWitnessField i.witness) else [])
      tx.inputs := by
  have hz : (Vec.zipWith (fun (x y : TxIn) => ({ y with witness := x.witness } : TxIn))
      v tx.inputs).toList.length = tx.inputs.toList.length := by
    show (List.zipWith _ v.toList tx.inputs.toList).length = _
    rw [List.length_zipWith, hlen, Nat.min_self]
  unfold readWitnesses
  by_cases hs : tx.segwit = true
  · rw [if_pos hs, if_pos hs]
    have h := Decodes.vec_forEach (f := readTxInWitness junk)
      (e := fun i : TxIn => writeWitnessField i.witness)
      (g := fun x y => { x with witness := y.witness }) _ tx.inputs hz
      (fun x y _ => decodes_txInWitness junk x y)
    rwa [zipWith_inputs v tx.inputs hlen] at h
  · rw [if_neg hs, if_neg hs]
    have hempty : ∀ i ∈ tx.inputs.toList, i.witness = ⟨Vec.nil⟩ := by
      intro i hi
      have hn : ¬ (!i.witness.empty) = true := fun h =>
        hs (List.any_eq_true.mpr ⟨i, hi, h⟩)
      have he : i.witness.witnesses.toList = [] := by
        cases hw : i.witness.witnesses.toList with
        | nil => rfl
        | cons a l => exact absurd (by simp [WitnessField.empty, hw]) hn
      cases i with
      | mk a b c d w =>
          cases w with
          | mk ws => exact congrArg WitnessField.mk (Vec.ext_toList he)
    have h := Decodes.vec_forEach (f := fun i : TxIn => pure i.clearWitness)
      (e := fun _ : TxIn => [])
      (g := fun x y => { x with witness := y.witness }) _ tx.inputs hz
      (fun x y hy => by
        show Decodes _ [] ({ x with witness := y.witness } : TxIn)
        rw [hempty y hy]
        exact Decodes.pure _)
    rw [zipWith_inputs v tx.inputs hlen] at h
    have hnil : tx.inputs.toList.flatMap (fun _ => ([] : List UInt8)) = [] := by
      rw [List.flatMap_eq_nil_iff]
      intro _ _
      rfl
    rwa [hnil] at h

/-- The part after the layout choice reads back. -/
theorem decodes_txBody (junk : Nat → UInt8) (v tx : Tx) (hver : v.nVersion = tx.nVersion) :
    Decodes (readTxBody junk v tx.segwit tx.inputs.size)
      (tx.inputs.toList.flatMap writeTxIn
        ++ (writeVarint tx.outputs.size
        ++ (tx.outputs.toList.flatMap writeTxOut
        ++ ((if tx.segwit then
              tx.inputs.toList.flatMap (fun i => writeWitnessField i.witness) else [])
        ++ writeLe32 tx.nLockTime)))) tx.asSent := by
  unfold readTxBody
  refine (Decodes.resize_forEach (g := fun x y => { y with witness := x.witness })
    v.inputs tx.inputs TxIn.init (fun x y _ => decodes_txIn junk x y)).bind ?_
  refine (decodes_varint junk tx.outputs.size).bind ?_
  refine (Decodes.resize_forEach (g := fun _ y => y.asSent) v.outputs tx.outputs TxOut.init
    (fun x y _ => decodes_txOut junk x y)).bind ?_
  rw [Vec.zipWith_map TxOut.asSent (by rw [Vec.length_resize, Vec.toNat_size])]
  refine (decodes_witnesses junk (v.inputs.resize tx.inputs.size TxIn.init) tx
    (by rw [Vec.length_resize, Vec.toNat_size])).bind ?_
  have h := (decodes_le32 junk tx.nLockTime).map
    (fun n => ({ v with inputs := tx.inputs, outputs := tx.asSent.outputs, nLockTime := n } : Tx))
  have hv : (⟨v.nVersion, tx.inputs, tx.asSent.outputs, tx.nLockTime⟩ : Tx) = tx.asSent := by
    rw [hver]
    rfl
  rwa [hv] at h

/-- Reading over any transaction `v` what was written for `tx` gives `tx` as it
    travels, in front of any further bytes. -/
theorem decodes_tx (junk : Nat → UInt8) (v tx : Tx) (hin : tx.inputs.toList ≠ []) :
    Decodes (readTx junk v) (writeTx tx) tx.asSent := by
  unfold readTx writeTx
  refine (decodes_le32 junk tx.nVersion).bind ?_
  have hbody := decodes_txBody junk { v with nVersion := tx.nVersion } tx rfl
  by_cases hs : tx.segwit = true
  · -- the marker is a zero count, the flag follows, then the real count
    rw [if_pos hs, List.cons_append, List.singleton_append]
    rw [hs] at hbody ⊢
    refine Decodes.bind_cons (decodes_varint junk 0) ?_
    rw [if_pos rfl]
    refine Decodes.bind_cons (Decodes.getInt 0x01) ?_
    rw [if_neg (by decide)]
    exact (decodes_varint junk tx.inputs.size).bind hbody
  · -- a transaction with an input never has a zero count
    have hs' : tx.segwit = false := Bool.eq_false_iff.mpr hs
    rw [if_neg hs]
    rw [hs'] at hbody ⊢
    refine (decodes_varint junk tx.inputs.size).bind ?_
    rw [if_neg (varint_ne_zero tx.inputs hin)]
    exact hbody

/-- **THE ROUND TRIP**: reading the bytes written for a transaction with an
    input and whole amounts gives an equal transaction, and leaves the stream
    good with nothing unread. -/
theorem readTx_writeTx (junk : Nat → UInt8) (v tx : Tx) (hin : tx.inputs.toList ≠ [])
    (ha : ∀ o ∈ tx.outputs.toList, o.amount.WholeSat) :
    (readTx junk v).run (IStream.ofBytes (writeTx tx))
      = (tx, IStream.ofBytes []) := by
  have h := decodes_tx junk v tx hin []
  rwa [List.append_nil, Tx.asSent_eq ha] at h

/-- A one-input, one-output transaction; the input has a two-item witness. -/
def sampleTx : Tx where
  nVersion  := 2
  inputs    := ⟨[⟨⟨Hash.zero⟩, 1, Vec.nil, 0xFFFFFFFE,
    ⟨⟨[⟨[0x30], by decide⟩, Vec.nil], by decide⟩⟩⟩], by decide⟩
  outputs   := ⟨[⟨Amount.sat 547, ⟨[0x6A, 0x00], by decide⟩⟩], by decide⟩
  nLockTime := 700000

theorem readTx_writeTx_sampleTx :
    sampleTx.segwit = true ∧
      (readTx (fun _ => 0) Tx.init).run (IStream.ofBytes (writeTx sampleTx))
        = (sampleTx, IStream.ofBytes []) := by
  refine ⟨by decide, readTx_writeTx (fun _ => 0) Tx.init sampleTx (by decide) ?_⟩
  intro o ho
  exact ⟨547, by decide, by rw [List.mem_singleton.mp ho]⟩

end Bitcoin
