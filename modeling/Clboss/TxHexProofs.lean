import Clboss.ByteFormatProofs
import Clboss.HexProofs
import Clboss.TxCodecProofs

/-! # `Bitcoin::Tx(hex)` — exactly one serialization, nothing less, nothing more

    The constructor undoes the hex, runs the stream reader over a default
    transaction and looks at the stream ONCE at the end: still good, and
    nothing left.  Whether that single look is enough is a question about every
    field reader at once, since each of them goes on after the bytes have run
    out.

    `txFormat` says which bytes spell which transaction, without streams, and
    `parses_tx` says that the reader accepts exactly that format.  The rest
    follows from `ByteFormatProofs`: what is accepted spells one transaction,
    a strict prefix leaves the stream bad, an extension leaves bytes over.

    One spelling is missing from the format: a transaction WITHOUT INPUTS in the
    legacy layout, whose zero count reads as the segwit marker.

    Memory is not bounded here: a `resize` to an announced length that does not
    fit throws in the source, which refuses a text that the model refuses too,
    since the bytes run out before that length is reached. -/

namespace Bitcoin

open ByteStream LittleEndian Ln Util.Str

/-! ## The format -/

/-- Four bytes, least significant first. -/
def le32Format : Format UInt32 := do
  let c0 ← Format.byte
  let c1 ← Format.byte
  let c2 ← Format.byte
  let c3 ← Format.byte
  return (c0.toUInt32 <<< 0) ||| (c1.toUInt32 <<< 8)
    ||| (c2.toUInt32 <<< 16) ||| (c3.toUInt32 <<< 24)

/-- Eight bytes, least significant first. -/
def le64Format : Format UInt64 := do
  let c0 ← Format.byte
  let c1 ← Format.byte
  let c2 ← Format.byte
  let c3 ← Format.byte
  let c4 ← Format.byte
  let c5 ← Format.byte
  let c6 ← Format.byte
  let c7 ← Format.byte
  return (c0.toUInt64 <<< 0) ||| (c1.toUInt64 <<< 8)
    ||| (c2.toUInt64 <<< 16) ||| (c3.toUInt64 <<< 24)
    ||| (c4.toUInt64 <<< 32) ||| (c5.toUInt64 <<< 40)
    ||| (c6.toUInt64 <<< 48) ||| (c7.toUInt64 <<< 56)

/-- Two bytes of a 64-bit value. -/
def tail16Format : Format UInt64 := do
  let c0 ← Format.byte
  let c1 ← Format.byte
  return (c0.toUInt64 <<< 0) ||| (c1.toUInt64 <<< 8)

/-- Four bytes of a 64-bit value. -/
def tail32Format : Format UInt64 := do
  let c0 ← Format.byte
  let c1 ← Format.byte
  let c2 ← Format.byte
  let c3 ← Format.byte
  return (c0.toUInt64 <<< 0) ||| (c1.toUInt64 <<< 8)
    ||| (c2.toUInt64 <<< 16) ||| (c3.toUInt64 <<< 24)

/-- CompactSize: one byte below `0xFD`, or a marker and 2, 4 or 8 bytes.  A value
    may be spelled wider than it needs. -/
def varintFormat : Format UInt64 := do
  let t ← Format.byte
  if t < 0xFD then return t.toUInt64
  else if t = 0xFD then tail16Format
  else if t = 0xFE then tail32Format
  else le64Format

/-- A hash in reverse byte order. -/
def txIdFormat : Format TxId := fun bs id => bs = id.hash.d.reverse

/-- An outpoint, a script and a sequence number; the witness `w` is not spelled here. -/
def txInFormat (w : WitnessField) : Format TxIn := do
  let prevTxid ← txIdFormat
  let prevOut ← le32Format
  let scriptSigLen ← varintFormat
  let scriptSig ← Format.array scriptSigLen Format.byte
  let nSequence ← le32Format
  return ⟨prevTxid, prevOut, scriptSig, nSequence, w⟩

/-- An amount, in satoshi. -/
def leAmountFormat : Format Amount := do
  let sats ← le64Format
  return Amount.sat sats

/-- An amount and a script. -/
def txOutFormat : Format TxOut := do
  let amount ← leAmountFormat
  let len ← varintFormat
  let scriptPubKey ← Format.array len Format.byte
  return ⟨amount, scriptPubKey⟩

/-- One stack item. -/
def witnessItemFormat : Format (Vec UInt8) := do
  let len ← varintFormat
  Format.array len Format.byte

/-- A stack of items. -/
def witnessFieldFormat : Format WitnessField := do
  let len ← varintFormat
  let witnesses ← Format.array len witnessItemFormat
  return ⟨witnesses⟩

/-- The witnesses of the inputs: one each in the segwit layout, none in the legacy one. -/
def witnessesFormat (segwit : Bool) (inputs : Vec TxIn) : Format (Vec TxIn) :=
  if segwit then
    Format.vecEach (fun i => do
      let w ← witnessFieldFormat
      return { i with witness := w }) inputs
  else Format.vecEach (fun i => pure i.clearWitness) inputs

/-- A transaction after its version and its input count. -/
def txBodyFormat (nVersion : UInt32) (segwit : Bool) (len : UInt64) : Format Tx := do
  let inputs ← Format.array len (txInFormat ⟨Vec.nil⟩)
  let len ← varintFormat
  let outputs ← Format.array len txOutFormat
  let inputs ← witnessesFormat segwit inputs
  let nLockTime ← le32Format
  return ⟨nVersion, inputs, outputs, nLockTime⟩

/-- A transaction: a zero count marks the segwit layout, the flag and the actual
    count follow. -/
def txFormat : Format Tx := do
  let nVersion ← le32Format
  let len ← varintFormat
  if len = 0 then
    let flag ← Format.byte
    if flag ≠ 0x01 then Format.fail
    else
      let len ← varintFormat
      txBodyFormat nVersion true len
  else
    txBodyFormat nVersion false len

/-! ## The readers accept exactly the format -/

theorem parses_le32 (junk : Nat → UInt8) : Parses (readLe32 junk) le32Format :=
  (Parses.get _).bind fun _ => (Parses.get _).bind fun _ =>
    (Parses.get _).bind fun _ => (Parses.get _).bind fun _ => Parses.pure _

theorem parses_le64 (junk : Nat → UInt8) : Parses (readLe64 junk) le64Format :=
  (Parses.get _).bind fun _ => (Parses.get _).bind fun _ =>
    (Parses.get _).bind fun _ => (Parses.get _).bind fun _ =>
      (Parses.get _).bind fun _ => (Parses.get _).bind fun _ =>
        (Parses.get _).bind fun _ => (Parses.get _).bind fun _ => Parses.pure _

theorem parses_tail16 (junk : Nat → UInt8) : Parses (readTail16 junk) tail16Format :=
  (Parses.get _).bind fun _ => (Parses.get _).bind fun _ => Parses.pure _

theorem parses_tail32 (junk : Nat → UInt8) : Parses (readTail32 junk) tail32Format :=
  (Parses.get _).bind fun _ => (Parses.get _).bind fun _ =>
    (Parses.get _).bind fun _ => (Parses.get _).bind fun _ => Parses.pure _

/-- The count is read in whichever width its first byte announces. -/
theorem parses_varint (junk : Nat → UInt8) : Parses (readVarint junk) varintFormat := by
  refine (Parses.get 0).bind fun t => ?_
  refine Parses.ite (fun _ => Parses.pure _) fun _ => ?_
  refine Parses.ite (fun _ => parses_tail16 junk) fun _ => ?_
  exact Parses.ite (fun _ => parses_tail32 junk) fun _ => parses_le64 junk

/-- A script: whatever the vector held is read over. -/
theorem parses_bytes (v : Vec UInt8) (len : UInt64) :
    Parses (Vec.forEach (fun _ => getByte) (v.resize len 0)) (Format.array len Format.byte) :=
  Parses.resize_forEach v len 0 fun _ _ => Parses.getByte

theorem parses_txId : Parses readTxId txIdFormat := by
  have key := (Parses.readArray 32).bind fun p =>
    Parses.pure (⟨⟨p.1.reverse, by rw [List.length_reverse, p.2]⟩⟩ : TxId)
  refine key.congr fun bs id => ⟨?_, ?_⟩
  · rintro ⟨us, vs, p, rfl, hp, rfl, rfl⟩
    show us ++ [] = p.1.reverse.reverse
    rw [List.append_nil, List.reverse_reverse]
    exact hp
  · intro h
    refine ⟨bs, [], ⟨bs, ?_⟩, (List.append_nil bs).symm, rfl, rfl, ?_⟩
    · rw [show bs = id.hash.d.reverse from h, List.length_reverse, id.hash.length]
    · obtain ⟨⟨d, hd⟩⟩ := id
      have hbs : bs = d.reverse := h
      subst hbs
      simp only [List.reverse_reverse]

/-- An input is read over any old one, whose witness stays. -/
theorem parses_txIn (junk : Nat → UInt8) (v : TxIn) :
    Parses (readTxIn junk v) (txInFormat v.witness) := by
  refine parses_txId.bind fun prevTxid => ?_
  refine (parses_le32 junk).bind fun prevOut => ?_
  refine (parses_varint junk).bind fun scriptSigLen => ?_
  refine (parses_bytes v.scriptSig scriptSigLen).bind fun scriptSig => ?_
  exact (parses_le32 junk).bind fun nSequence => Parses.pure _

theorem parses_leAmount (junk : Nat → UInt8) : Parses (readLeAmount junk) leAmountFormat :=
  (parses_le64 junk).bind fun _ => Parses.pure _

theorem parses_txOut (junk : Nat → UInt8) (v : TxOut) : Parses (readTxOut junk v) txOutFormat := by
  refine (parses_leAmount junk).bind fun amount => ?_
  refine (parses_varint junk).bind fun len => ?_
  exact (parses_bytes v.scriptPubKey len).bind fun scriptPubKey => Parses.pure _

theorem parses_witnessItem (junk : Nat → UInt8) (w : Vec UInt8) :
    Parses (readWitnessItem junk w) witnessItemFormat :=
  (parses_varint junk).bind fun len => parses_bytes w len

theorem parses_witnessField (junk : Nat → UInt8) (v : WitnessField) :
    Parses (readWitnessField junk v) witnessFieldFormat := by
  refine (parses_varint junk).bind fun len => ?_
  refine (Parses.resize_forEach v.witnesses len Vec.nil
    fun w _ => parses_witnessItem junk w).bind fun witnesses => ?_
  exact Parses.pure _

theorem parses_witnesses (junk : Nat → UInt8) (segwit : Bool) (inputs : Vec TxIn) :
    Parses (readWitnesses junk segwit inputs) (witnessesFormat segwit inputs) := by
  refine Parses.ite (fun _ => ?_) fun _ => ?_
  · refine Parses.vec_forEach fun i _ => ?_
    exact (parses_witnessField junk i.witness).bind fun w => Parses.pure _
  · exact Parses.vec_forEach fun i _ => Parses.pure _

/-- The body is read over a transaction without inputs, so every input is read
    over a default one. -/
theorem parses_txBody (junk : Nat → UInt8) (v : Tx) (hv : v.inputs = Vec.nil) (segwit : Bool)
    (len : UInt64) : Parses (readTxBody junk v segwit len) (txBodyFormat v.nVersion segwit len) := by
  have hinit : ∀ x ∈ (v.inputs.resize len TxIn.init).toList,
      Parses (readTxIn junk x) (txInFormat ⟨Vec.nil⟩) := by
    intro x hx
    have hx' : x = TxIn.init := by
      rw [hv] at hx
      have hx' : x ∈ [].take len.toNat ++ List.replicate (len.toNat - 0) TxIn.init := hx
      rw [List.take_nil, List.nil_append] at hx'
      exact List.eq_of_mem_replicate hx'
    rw [hx']
    exact parses_txIn junk TxIn.init
  refine (Parses.resize_forEach v.inputs len TxIn.init hinit).bind fun inputs => ?_
  refine (parses_varint junk).bind fun len => ?_
  refine (Parses.resize_forEach v.outputs len TxOut.init
    fun o _ => parses_txOut junk o).bind fun outputs => ?_
  refine (parses_witnesses junk segwit inputs).bind fun inputs => ?_
  exact (parses_le32 junk).bind fun nLockTime => Parses.pure _

/-- `setstate(failbit)` leaves a bad stream. -/
theorem setFail_not_good (s : IStream) : ({ s with failbit := true } : IStream).good = false := by
  simp [IStream.good]

/-- `operator>>` over a default transaction accepts exactly the format. -/
theorem parses_tx (junk : Nat → UInt8) : Parses (readTx junk Tx.init) txFormat := by
  refine (parses_le32 junk).bind fun nVersion => ?_
  refine (parses_varint junk).bind fun len => ?_
  refine Parses.ite (fun _ => ?_) fun _ => parses_txBody junk _ rfl false len
  refine Parses.getInt_bind (fun flag => ?_) ?_
  · by_cases h : flag = 0x01
    · rw [if_neg (by simp [h]), if_neg (by simp [h])]
      exact (parses_varint junk).bind fun len => parses_txBody junk _ rfl true len
    · rw [if_pos (by simpa using h), if_pos h]
      exact Parses.fail fun s => setFail_not_good s
  · exact fun s _ => setFail_not_good s

/-! ## The constructor -/

/-- What the constructor throws. -/
inductive Tx.Error where
  | hex (e : HexParseFailure)
  | invalid
  | tooLong
deriving DecidableEq, Repr

/-- The message of the exception. -/
def Tx.Error.what : Tx.Error → List UInt8
  | .hex e   => e.what
  | .invalid => "Bitcoin::Tx: invalid hex string input.".toUTF8.toList
  | .tooLong => "Bitcoin::Tx: input string too long.".toUTF8.toList

/-- The two checks after `is >> *this`. -/
def Tx.checkEnd (tx : Tx) (is : IStream) : Except Tx.Error Tx :=
  if !is.good then .error .invalid
  else if (getInt is).1 ≠ none then .error .tooLong
  else .ok tx

/-- `Tx::Tx(std::string const&)`. -/
def Tx.ofHex (junk : Nat → UInt8) (s : List UInt8) : Except Tx.Error Tx :=
  match hexread s with
  | .error e => .error (.hex e)
  | .ok buf  =>
      let r := readTx junk Tx.init (IStream.ofBytes buf)
      Tx.checkEnd r.1 r.2

/-- `Tx::operator std::string`. -/
def Tx.toHex (v : Tx) : List UInt8 := hexdump (writeTx v)

/-- The outcome, from what the reader leaves of the bytes. -/
theorem Tx.ofHex_ok {junk : Nat → UInt8} {s buf : List UInt8} {tx : Tx} {is : IStream}
    (h : hexread s = .ok buf) (hr : readTx junk Tx.init (IStream.ofBytes buf) = (tx, is)) :
    Tx.ofHex junk s = Tx.checkEnd tx is := by
  unfold Tx.ofHex
  simp only [h, hr]

theorem Tx.checkEnd_bad (tx : Tx) {is : IStream} (h : is.good = false) :
    Tx.checkEnd tx is = .error .invalid := by
  unfold Tx.checkEnd
  rw [h]
  rfl

/-- Acceptance means a good stream with nothing left. -/
theorem Tx.checkEnd_ok {tx tx' : Tx} {is : IStream} (h : Tx.checkEnd tx is = .ok tx') :
    is = IStream.ofBytes [] ∧ tx = tx' := by
  by_cases hgood : is.good = true
  · rw [IStream.eq_ofBytes hgood] at h ⊢
    cases hrest : is.rest with
    | nil =>
        rw [hrest] at h
        cases h
        exact ⟨rfl, rfl⟩
    | cons b rest =>
        rw [hrest] at h
        exact nomatch h
  · rw [Tx.checkEnd_bad tx (Bool.eq_false_iff.mpr hgood)] at h
    exact nomatch h

/-- An encoding of one transaction is accepted. -/
theorem Tx.ofHex_of_format {junk : Nat → UInt8} {s bs : List UInt8} {tx : Tx}
    (h : hexread s = .ok bs) (hF : txFormat bs tx) : Tx.ofHex junk s = .ok tx :=
  Tx.ofHex_ok h ((parses_tx junk).run_eq hF)

/-- What is accepted encodes one transaction: the stream is good and has nothing
    left, so its one spelling is the whole text. -/
theorem Tx.format_of_ofHex {junk : Nat → UInt8} {s : List UInt8} {tx : Tx}
    (h : Tx.ofHex junk s = .ok tx) : ∃ bs, hexread s = .ok bs ∧ txFormat bs tx := by
  cases hread : hexread s with
  | error e =>
      unfold Tx.ofHex at h
      rw [hread] at h
      exact nomatch h
  | ok bs =>
      obtain ⟨tx', is, hr⟩ : ∃ tx' is, readTx junk Tx.init (IStream.ofBytes bs) = (tx', is) :=
        ⟨_, _, rfl⟩
      rw [Tx.ofHex_ok hread hr] at h
      obtain ⟨rfl, rfl⟩ := Tx.checkEnd_ok h
      obtain ⟨us, hus, hF⟩ := (parses_tx junk).spells hr rfl
      have hbs : bs = us := hus.trans (List.append_nil us)
      exact ⟨bs, rfl, hbs ▸ hF⟩

/-- Every output takes a byte of the encoding. -/
theorem length_txBodyFormat {nVersion : UInt32} {segwit : Bool} {len : UInt64} {bs : List UInt8}
    {tx : Tx} (h : txBodyFormat nVersion segwit len bs tx) :
    tx.outputs.toList.length ≤ bs.length := by
  obtain ⟨_, _, _, rfl, -, _, _, _, rfl, -, us, _, outs, rfl, houts, _, _, _, rfl, -, _, _, _, rfl,
    -, rfl, rfl⟩ := h
  have hout : ∀ (u : Unit) bs o, txOutFormat bs o → 1 ≤ bs.length := by
    rintro u bs o ⟨_, _, _, rfl, ⟨_, _, _, rfl, ⟨_, _, b, rfl, rfl, -⟩, -⟩, -⟩
    simp only [List.length_append, List.length_singleton]
    omega
  have := Format.length_each hout houts
  simp only [List.length_append]
  omega

theorem length_txFormat {bs : List UInt8} {tx : Tx} (h : txFormat bs tx) :
    tx.outputs.toList.length ≤ bs.length := by
  obtain ⟨_, _, v, rfl, -, _, _, len, rfl, -, h⟩ := h
  simp only [List.length_append]
  by_cases hlen : len = 0
  · rw [if_pos hlen] at h
    obtain ⟨_, _, flag, rfl, -, h⟩ := h
    by_cases hflag : flag ≠ 0x01
    · rw [if_pos hflag] at h
      exact h.elim
    · rw [if_neg hflag] at h
      obtain ⟨_, _, len', rfl, -, h⟩ := h
      have := length_txBodyFormat h
      simp only [List.length_append]
      omega
  · rw [if_neg hlen] at h
    have := length_txBodyFormat h
    omega

/-- Every output takes two digits of the text. -/
theorem Tx.length_of_ofHex {junk : Nat → UInt8} {s : List UInt8} {tx : Tx}
    (h : Tx.ofHex junk s = .ok tx) : 2 * tx.outputs.toList.length ≤ s.length := by
  obtain ⟨bs, hread, hF⟩ := Tx.format_of_ofHex h
  have := length_txFormat hF
  have := length_hexread hread
  omega

/-- TRUNCATION: a strict prefix of an encoding is rejected. -/
theorem Tx.ofHex_shorter {junk : Nat → UInt8} {s us vs : List UInt8} {tx : Tx}
    (h : hexread s = .ok us) (hF : txFormat (us ++ vs) tx) (hvs : vs ≠ []) :
    Tx.ofHex junk s = .error .invalid := by
  rw [Tx.ofHex_ok h rfl]
  exact Tx.checkEnd_bad _ ((parses_tx junk).not_good_of_proper hF hvs)

/-- EXTENSION: bytes after an encoding are rejected. -/
theorem Tx.ofHex_extension {junk : Nat → UInt8} {s bs vs : List UInt8} {tx : Tx}
    (h : hexread s = .ok (bs ++ vs)) (hF : txFormat bs tx) (hvs : vs ≠ []) :
    Tx.ofHex junk s = .error .tooLong := by
  rw [Tx.ofHex_ok h ((parses_tx junk).decodes hF vs)]
  cases vs with
  | nil => exact absurd rfl hvs
  | cons b vs => rfl

/-- The serialization of a transaction with an input is in the format. -/
theorem txFormat_writeTx (tx : Tx) (hin : tx.inputs.toList ≠ []) :
    txFormat (writeTx tx) tx.asSent :=
  (parses_tx fun _ => 0).format_of_decodes (decodes_tx _ Tx.init tx hin)

/-- **ACCEPTS EXACTLY**: the constructor accepts a text if and only if it is the
    hex of one complete encoding; and of the serialization of a transaction with
    an input it accepts the whole, refuses every strict prefix as invalid and
    every extension as too long. -/
theorem Tx.ofHex_exact (junk : Nat → UInt8) :
    (∀ s tx, Tx.ofHex junk s = .ok tx ↔ ∃ bs, hexread s = .ok bs ∧ txFormat bs tx)
    ∧ (∀ bs tx s us vs, txFormat bs tx → vs ≠ [] →
        (bs = us ++ vs → hexread s = .ok us → Tx.ofHex junk s = .error .invalid)
        ∧ (hexread s = .ok (bs ++ vs) → Tx.ofHex junk s = .error .tooLong))
    ∧ (∀ tx, tx.inputs.toList ≠ [] →
        Tx.ofHex junk tx.toHex = .ok tx.asSent
        ∧ (∀ s us vs, writeTx tx = us ++ vs → vs ≠ [] → hexread s = .ok us →
            Tx.ofHex junk s = .error .invalid)
        ∧ (∀ s vs, vs ≠ [] → hexread s = .ok (writeTx tx ++ vs) →
            Tx.ofHex junk s = .error .tooLong)) := by
  refine ⟨?_, ?_, ?_⟩
  · intro s tx
    constructor
    · exact Tx.format_of_ofHex
    · rintro ⟨bs, hread, hF⟩
      exact Tx.ofHex_of_format hread hF
  · intro bs tx s us vs hF hvs
    constructor
    · intro hbs hread
      rw [hbs] at hF
      exact Tx.ofHex_shorter hread hF hvs
    · intro hread
      exact Tx.ofHex_extension hread hF hvs
  · intro tx hin
    have hF := txFormat_writeTx tx hin
    refine ⟨Tx.ofHex_of_format (hexread_hexdump _) hF, ?_, ?_⟩
    · intro s us vs hw hvs hread
      rw [hw] at hF
      exact Tx.ofHex_shorter hread hF hvs
    · intro s vs hvs hread
      exact Tx.ofHex_extension hread hF hvs

/-- The sample transaction: accepted whole, refused one byte short, refused with
    one byte more. -/
theorem Tx.ofHex_exact_sampleTx :
    Tx.ofHex (fun _ => 0) sampleTx.toHex = .ok sampleTx.asSent
    ∧ Tx.ofHex (fun _ => 0) (hexdump (writeTx sampleTx).dropLast) = .error .invalid
    ∧ Tx.ofHex (fun _ => 0) (hexdump (writeTx sampleTx ++ [0x00])) = .error .tooLong := by
  obtain ⟨hwhole, hprefix, hext⟩ := (Tx.ofHex_exact (fun _ => 0)).2.2 sampleTx (by decide)
  refine ⟨hwhole, ?_, ?_⟩
  · have hne : writeTx sampleTx ≠ [] := by decide
    exact hprefix _ _ [_] (List.dropLast_append_getLast hne).symm (List.cons_ne_nil _ _)
      (hexread_hexdump _)
  · exact hext _ [0x00] (List.cons_ne_nil _ _) (hexread_hexdump _)

/-- No inputs and one empty output. -/
def noInputTx : Tx where
  nVersion  := 2
  inputs    := Vec.nil
  outputs   := Vec.single ⟨Amount.sat 0, Vec.nil⟩
  nLockTime := 0

/-- The first twelve bytes of its serialization, in hex. -/
def noInputText : List UInt8 := "020000000001000000000000".toUTF8.toList

/-- THE MARKER: without inputs the zero count is taken for the segwit marker and
    the output count for the flag, so a strict prefix is accepted and the
    serialization itself is refused. -/
theorem ofHex_noInputTx :
    hexread noInputText = .ok ((writeTx noInputTx).take 12)
    ∧ (writeTx noInputTx).length = 19
    ∧ Tx.ofHex (fun _ => 0) noInputText = .ok Tx.init
    ∧ Tx.ofHex (fun _ => 0) noInputTx.toHex = .error .tooLong := by
  refine ⟨?_, ?_, ?_, ?_⟩ <;> decide +kernel

end Bitcoin
