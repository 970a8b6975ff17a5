import Clboss.TxHexProofs

/-! # Transactions as they are sent

    `Bitcoin::Tx` keeps an output's value as an `Ln::Amount`: `Amount::sat`
    multiplies by 1000 in 64 bits when it is read, `to_sat` divides when it is
    written back.  So what the program holds is not what the peer sent, as soon
    as a value is large enough to wrap.

    `WireTx` is a transaction with its values as they stand in the bytes, and
    `wireFormat` says which bytes spell it.  `image_tx` says that the parser
    accepts exactly these spellings and returns the image `toTx`, and
    `writeTx_toTx` that the image is written back as it was sent where every
    value is below 18446744073709551 sat. -/

namespace Bitcoin

open ByteStream LittleEndian Ln

/-! ## The transaction and its image -/

/-- An output with the value that stands in the bytes, in satoshi. -/
structure WireOut where
  value        : UInt64
  scriptPubKey : Vec UInt8
deriving DecidableEq

/-- A transaction with its values as sent. -/
structure WireTx where
  nVersion  : UInt32
  inputs    : Vec TxIn
  outputs   : Vec WireOut
  nLockTime : UInt32
deriving DecidableEq

/-- The output that is read: its value in millisatoshi, in 64-bit arithmetic. -/
def WireOut.toTxOut (o : WireOut) : TxOut := ⟨Amount.sat o.value, o.scriptPubKey⟩

/-- The transaction that is read. -/
def WireTx.toTx (w : WireTx) : Tx :=
  ⟨w.nVersion, w.inputs, w.outputs.map WireOut.toTxOut, w.nLockTime⟩

/-! ## The format -/

/-- A value and a script. -/
def wireOutFormat : Format WireOut := do
  let value ← le64Format
  let len ← varintFormat
  let scriptPubKey ← Format.array len Format.byte
  return ⟨value, scriptPubKey⟩

/-- A transaction after its version and its input count. -/
def wireBodyFormat (nVersion : UInt32) (segwit : Bool) (len : UInt64) : Format WireTx := do
  let inputs ← Format.array len (txInFormat ⟨Vec.nil⟩)
  let len ← varintFormat
  let outputs ← Format.array len wireOutFormat
  let inputs ← witnessesFormat segwit inputs
  let nLockTime ← le32Format
  return ⟨nVersion, inputs, outputs, nLockTime⟩

/-- A transaction as sent, in either layout. -/
def wireFormat : Format WireTx := do
  let nVersion ← le32Format
  let len ← varintFormat
  if len = 0 then
    let flag ← Format.byte
    if flag ≠ 0x01 then Format.fail
    else
      let len ← varintFormat
      wireBodyFormat nVersion true len
  else
    wireBodyFormat nVersion false len

/-- The text is the hex of a spelling of the transaction. -/
def Spells (text : List UInt8) (w : WireTx) : Prop :=
  ∃ bs, Util.Str.hexread text = .ok bs ∧ wireFormat bs w

/-! ## What is read is the image of what was sent -/

theorem image_txOut : Image WireOut.toTxOut wireOutFormat txOutFormat := by
  have hvalue : Image Amount.sat le64Format leAmountFormat := by
    intro bs a
    constructor
    · rintro ⟨us, _, value, rfl, hvalue, rfl, rfl⟩
      exact ⟨value, by rwa [List.append_nil], rfl⟩
    · rintro ⟨value, hvalue, rfl⟩
      exact ⟨bs, [], value, (List.append_nil bs).symm, hvalue, rfl, rfl⟩
  refine hvalue.bind fun value => ?_
  refine (Image.refl varintFormat).bind fun len => ?_
  refine (Image.refl (Format.array len Format.byte)).bind fun scriptPubKey => ?_
  exact Image.pure WireOut.toTxOut ⟨value, scriptPubKey⟩

theorem image_txBody (nVersion : UInt32) (segwit : Bool) (len : UInt64) :
    Image WireTx.toTx (wireBodyFormat nVersion segwit len) (txBodyFormat nVersion segwit len) := by
  refine (Image.refl (Format.array len (txInFormat ⟨Vec.nil⟩))).bind fun inputs => ?_
  refine (Image.refl varintFormat).bind fun len => ?_
  refine (image_txOut.array len).bind fun outputs => ?_
  refine (Image.refl (witnessesFormat segwit inputs)).bind fun inputs => ?_
  refine (Image.refl le32Format).bind fun nLockTime => ?_
  exact Image.pure WireTx.toTx ⟨nVersion, inputs, outputs, nLockTime⟩

/-- THE PARSER reads the image of what was sent, and nothing else. -/
theorem image_tx : Image WireTx.toTx wireFormat txFormat := by
  refine (Image.refl le32Format).bind fun nVersion => ?_
  refine (Image.refl varintFormat).bind fun len => ?_
  refine Image.ite ?_ (image_txBody nVersion false len)
  refine (Image.refl Format.byte).bind fun flag => ?_
  refine Image.ite (Image.fail WireTx.toTx) ?_
  exact (Image.refl varintFormat).bind fun len => image_txBody nVersion true len

/-- The constructor accepts a text exactly when some transaction was sent by it. -/
theorem Tx.ofHex_iff (junk : Nat → UInt8) (text : List UInt8) (tx : Tx) :
    Tx.ofHex junk text = .ok tx ↔ ∃ w, Spells text w ∧ w.toTx = tx := by
  constructor
  · intro h
    obtain ⟨bs, hread, hF⟩ := Tx.format_of_ofHex h
    obtain ⟨w, hw, htx⟩ := (image_tx bs tx).mp hF
    exact ⟨w, ⟨bs, hread, hw⟩, htx⟩
  · rintro ⟨w, ⟨bs, hread, hw⟩, rfl⟩
    exact Tx.ofHex_of_format hread ((image_tx bs _).mpr ⟨w, hw, rfl⟩)

/-! ## Writing it without witnesses -/

/-- An output, as sent. -/
def writeWireOut (o : WireOut) : List UInt8 :=
  writeLe64 o.value ++ (writeVarint o.scriptPubKey.size ++ o.scriptPubKey.toList)

/-- The transaction as sent, in the legacy layout: the bytes its txid is the hash of. -/
def writeStripped (w : WireTx) : List UInt8 :=
  writeLe32 w.nVersion
    ++ (writeVarint w.inputs.size
    ++ (w.inputs.toList.flatMap writeTxIn
    ++ (writeVarint w.outputs.size
    ++ (w.outputs.toList.flatMap writeWireOut
    ++ writeLe32 w.nLockTime))))

/-- A script, by its bytes. -/
theorem bytesFormat (v : Vec UInt8) : Format.array v.size Format.byte v.toList v := by
  have h := Format.array_flatMap (F := Format.byte) (e := fun b => [b]) v fun _ _ => rfl
  rwa [List.flatMap_singleton'] at h

theorem wireOutFormat_write (o : WireOut) : wireOutFormat (writeWireOut o) o := by
  refine ⟨_, _, o.value, rfl, (parses_le64 fun _ => 0).format_of_decodes (decodes_le64 _ _), ?_⟩
  refine ⟨_, _, o.scriptPubKey.size, rfl,
    (parses_varint fun _ => 0).format_of_decodes (decodes_varint _ _), ?_⟩
  exact ⟨_, [], o.scriptPubKey, (List.append_nil _).symm, bytesFormat o.scriptPubKey, rfl, rfl⟩

/-- A transaction with an input and without witnesses is spelled by its legacy layout. -/
theorem wireFormat_stripped (w : WireTx) (hin : w.inputs.toList ≠ [])
    (hwit : ∀ i ∈ w.inputs.toList, i.witness = ⟨Vec.nil⟩) :
    wireFormat (writeStripped w) w := by
  have hsize := varint_ne_zero w.inputs hin
  refine ⟨_, _, w.nVersion, rfl,
    (parses_le32 fun _ => 0).format_of_decodes (decodes_le32 _ _), ?_⟩
  refine ⟨_, _, w.inputs.size, rfl,
    (parses_varint fun _ => 0).format_of_decodes (decodes_varint _ _), ?_⟩
  show (if w.inputs.size = 0 then _ else _ : Format WireTx) _ w
  rw [if_neg hsize]
  refine ⟨_, _, w.inputs, rfl, Format.array_flatMap w.inputs fun i hi => ?_, ?_⟩
  · have hd := decodes_txIn (fun _ => 0) TxIn.init i
    have heq : ({ i with witness := TxIn.init.witness } : TxIn) = i := by
      rw [show TxIn.init.witness = i.witness from (hwit i hi).symm]
    rw [heq] at hd
    exact (parses_txIn (fun _ => 0) TxIn.init).format_of_decodes hd
  refine ⟨_, _, w.outputs.size, rfl,
    (parses_varint fun _ => 0).format_of_decodes (decodes_varint _ _), ?_⟩
  refine ⟨_, _, w.outputs, rfl, Format.array_flatMap w.outputs fun o _ => wireOutFormat_write o, ?_⟩
  refine ⟨[], _, w.inputs, rfl, ?_, ?_⟩
  · -- the witnesses of the legacy layout take no bytes
    have key : ∀ xs : List TxIn, (∀ i ∈ xs, i.witness = ⟨Vec.nil⟩) →
        Format.each (fun i => pure i.clearWitness) xs [] xs := by
      intro xs
      induction xs with
      | nil => exact fun _ => ⟨rfl, rfl⟩
      | cons i xs ih =>
          intro h
          have hi : i.clearWitness = i := by
            unfold TxIn.clearWitness
            rw [← h i (List.mem_cons_self ..)]
          exact ⟨[], [], i, rfl, ⟨rfl, hi.symm⟩, [], [], xs, rfl,
            ih fun j hj => h j (List.mem_cons_of_mem _ hj), rfl, rfl⟩
    exact key w.inputs.toList hwit
  · exact ⟨_, [], w.nLockTime, (List.append_nil _).symm,
      (parses_le32 fun _ => 0).format_of_decodes (decodes_le32 _ _), rfl, rfl⟩

/-- So the hex of that layout is a text that sends it. -/
theorem spells_stripped (w : WireTx) (hin : w.inputs.toList ≠ [])
    (hwit : ∀ i ∈ w.inputs.toList, i.witness = ⟨Vec.nil⟩) :
    Spells (Util.Str.hexdump (writeStripped w)) w :=
  ⟨_, Util.Str.hexread_hexdump _, wireFormat_stripped w hin hwit⟩

end Bitcoin
