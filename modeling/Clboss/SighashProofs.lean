import Clboss.TxCodecProofs
import Mathlib.Data.Set.Function

/-! # `Bitcoin::sighash` — the bytes that are signed

    `sighash_core` writes the ten items of BIP-143 into a hasher.  Three of them are
    double hashes of parts of the transaction, or zero, under conditions on the
    flags; here they are compared item by item with what BIP-143 says
    (`bip143`), which counts in whole satoshi.

    Only the script code has no fixed length, and there is only one, so
    the ten items can be told apart in what was written (`items_inj`).  Inside the
    hashes inputs have a fixed length, and an output says how long it is
    (`writeTxOut_append_inj`).

    What is written of an amount is `to_sat`, which adds 999 millisatoshi before it divides.
    For the LARGEST whole number of satoshi that 64 bits of millisatoshi hold this
    overflows, and zero is signed in its place. -/

namespace Bitcoin

open ByteStream Ln

/-! ## The code -/

/-- `SighashFlags`. -/
def sighashAll : UInt32 := 1
def sighashNone : UInt32 := 2
def sighashSingle : UInt32 := 3
def sighashAnyoneCanPay : UInt32 := 0x80

/-- The arguments of `sighash`. -/
structure SighashCall where
  tx         : Tx
  flags      : UInt32
  nIn        : ℕ
  amount     : Amount
  scriptCode : List UInt8

/-- `hasher << i.prevTxid << le(i.prevOut)`. -/
def writeOutpoint (i : TxIn) : List UInt8 := writeTxId i.prevTxid ++ writeLe32 i.prevOut

namespace SighashCall

def loflags (c : SighashCall) : UInt32 := c.flags &&& 0x1F

def hiflags (c : SighashCall) : UInt32 := c.flags &&& 0xE0

def hashPrevouts (sha256d : List UInt8 → Hash) (c : SighashCall) : Hash :=
  if c.hiflags &&& sighashAnyoneCanPay = 0 then
    sha256d (c.tx.inputs.toList.flatMap writeOutpoint)
  else Hash.zero

def hashSequence (sha256d : List UInt8 → Hash) (c : SighashCall) : Hash :=
  if c.hiflags &&& sighashAnyoneCanPay = 0 ∧ c.loflags ≠ sighashSingle
      ∧ c.loflags ≠ sighashNone then
    sha256d (c.tx.inputs.toList.flatMap (fun i => writeLe32 i.nSequence))
  else Hash.zero

def hashOutputs (sha256d : List UInt8 → Hash) (c : SighashCall) : Hash :=
  if c.loflags ≠ sighashSingle ∧ c.loflags ≠ sighashNone then
    sha256d (c.tx.outputs.toList.flatMap writeTxOut)
  else if c.loflags = sighashSingle then
    match c.tx.outputs.toList[c.nIn]? with
    | some o => sha256d (writeTxOut o)
    | none   => Hash.zero
  else Hash.zero

/-- `sighash_core`: what it writes into the hasher, or the text of its `InvalidSighash`. -/
def sighashCore (sha256d : List UInt8 → Hash) (c : SighashCall) : Except String (List UInt8) :=
  if c.loflags ≠ sighashAll ∧ c.loflags ≠ sighashNone ∧ c.loflags ≠ sighashSingle then
    .error "Invalid SIGHASH flag"
  else if c.hiflags ≠ 0 ∧ c.hiflags ≠ sighashAnyoneCanPay then
    .error "Invalid SIGHASH flag"
  else
    match c.tx.inputs.toList[c.nIn]? with
    | none   => .error "nIn out of range"
    | some i =>
        .ok (writeLe32 c.tx.nVersion
          ++ ((c.hashPrevouts sha256d).d
          ++ ((c.hashSequence sha256d).d
          -- Input being signed.
          ++ (writeOutpoint i
          ++ (c.scriptCode
          ++ (writeLeAmount c.amount
          ++ (writeLe32 i.nSequence
          ++ ((c.hashOutputs sha256d).d
          ++ (writeLe32 c.tx.nLockTime
          ++ writeLe32 c.flags)))))))))

/-- `sighash`. -/
def sighash (sha256d : List UInt8 → Hash) (c : SighashCall) : Except String Hash :=
  (c.sighashCore sha256d).map sha256d

end SighashCall

/-! ## What BIP-143 says -/

/-- A whole number of satoshi. -/
def IsSatoshi (a : Amount) : Prop := a.v.toNat % 1000 = 0

/-- How many. -/
def satoshis (a : Amount) : UInt64 := a.v / 1000

/-- An output as it is hashed: the value in satoshi, and the script with its length. -/
def outputBytes (o : TxOut) : List UInt8 :=
  writeLe64 (satoshis o.amount) ++ (writeVarint o.scriptPubKey.size ++ o.scriptPubKey.toList)

/-- The items of the preimage; the script code is given as it is serialized inside of an output. -/
structure Bip143 where
  nVersion     : UInt32
  hashPrevouts : Hash
  hashSequence : Hash
  outpoint     : TxId × UInt32
  scriptCode   : List UInt8
  value        : UInt64
  nSequence    : UInt32
  hashOutputs  : Hash
  nLockTime    : UInt32
  sighashType  : UInt32

/-- The preimage. -/
def Bip143.bytes (p : Bip143) : List UInt8 :=
  writeLe32 p.nVersion
    ++ (p.hashPrevouts.d
    ++ (p.hashSequence.d
    ++ ((writeTxId p.outpoint.1 ++ writeLe32 p.outpoint.2)
    ++ (p.scriptCode
    ++ (writeLe64 p.value
    ++ (writeLe32 p.nSequence
    ++ (p.hashOutputs.d
    ++ (writeLe32 p.nLockTime
    ++ writeLe32 p.sighashType))))))))

namespace SighashCall

/-- Which outputs are signed, if they are: all, or the one with the index of the input. -/
def signedOutputs (c : SighashCall) : Option (List TxOut) :=
  if c.flags &&& 0x1F = sighashNone then none
  else if c.flags &&& 0x1F = sighashSingle then (c.tx.outputs.toList[c.nIn]?).map (fun o => [o])
  else some c.tx.outputs.toList

/-- A hash, or the zero hash for what is not signed. -/
def hashOrZero (sha256d : List UInt8 → Hash) (bytes : Option (List UInt8)) : Hash :=
  (bytes.map sha256d).getD Hash.zero

/-- BIP-143, for the input `i`. -/
def bip143 (sha256d : List UInt8 → Hash) (c : SighashCall) (i : TxIn) : Bip143 where
  nVersion     := c.tx.nVersion
  hashPrevouts := hashOrZero sha256d
    (if c.flags &&& 0x80 ≠ 0 then none else some (c.tx.inputs.toList.flatMap writeOutpoint))
  hashSequence := hashOrZero sha256d
    (if c.flags &&& 0x80 ≠ 0 ∨ c.flags &&& 0x1F = sighashSingle
        ∨ c.flags &&& 0x1F = sighashNone then none
      else some (c.tx.inputs.toList.flatMap (fun i => writeLe32 i.nSequence)))
  outpoint     := (i.prevTxid, i.prevOut)
  scriptCode   := c.scriptCode
  value        := satoshis c.amount
  nSequence    := i.nSequence
  hashOutputs  := hashOrZero sha256d (c.signedOutputs.map (fun os => os.flatMap outputBytes))
  nLockTime    := c.tx.nLockTime
  sighashType  := c.flags

/-- The flags are among those that `sighash` takes. -/
def Supported (c : SighashCall) : Prop :=
  (c.flags &&& 0x1F = sighashAll ∨ c.flags &&& 0x1F = sighashNone
    ∨ c.flags &&& 0x1F = sighashSingle)
    ∧ (c.flags &&& 0xE0 = 0 ∨ c.flags &&& 0xE0 = sighashAnyoneCanPay)

/-- What is hashed is the preimage of BIP-143. -/
def Digests (sha256d : List UInt8 → Hash) (c : SighashCall) : Prop :=
  ∃ i, c.tx.inputs.toList[c.nIn]? = some i ∧ c.sighashCore sha256d = .ok (c.bip143 sha256d i).bytes

end SighashCall

/-! ## Telling the items apart -/

/-- What one reader undoes is told from what follows it. -/
theorem append_inj_of_decodes {α : Type} {r : Reader α} {bs bs' rest rest' : List UInt8} {a a' : α}
    (h : Decodes r bs a) (h' : Decodes r bs' a') (heq : bs ++ rest = bs' ++ rest') :
    a = a' ∧ rest = rest' := by
  have hread := h rest
  rw [heq, h' rest'] at hread
  obtain ⟨ha, hs⟩ := Prod.mk.inj hread
  exact ⟨ha.symm, (IStream.mk.inj hs).1.symm⟩

theorem writeLe32_injective : Function.Injective writeLe32 := fun v w h =>
  (append_inj_of_decodes (decodes_le32 0 v) (decodes_le32 0 w) (congrArg (· ++ []) h)).1

theorem writeLe64_injective : Function.Injective writeLe64 := fun v w h =>
  (append_inj_of_decodes (decodes_le64 0 v) (decodes_le64 0 w) (congrArg (· ++ []) h)).1

theorem writeTxId_injective : Function.Injective writeTxId := fun v w h =>
  (append_inj_of_decodes (decodes_txId v) (decodes_txId w) (congrArg (· ++ []) h)).1

theorem Hash.d_injective : Function.Injective Hash.d := fun v w h => by
  cases v
  cases w
  cases h
  rfl

/-- **UNAMBIGUOUS**: the bytes of a preimage are those of no other items. -/
theorem Bip143.bytes_injective : Function.Injective Bip143.bytes := by
  intro p q h
  unfold Bip143.bytes at h
  obtain ⟨hversion, h⟩ := List.append_inj h rfl
  obtain ⟨hprevouts, h⟩ := List.append_inj h
    (p.hashPrevouts.length.trans q.hashPrevouts.length.symm)
  obtain ⟨hsequence, h⟩ := List.append_inj h
    (p.hashSequence.length.trans q.hashSequence.length.symm)
  obtain ⟨houtpoint, h⟩ := List.append_inj h (by
    rw [List.length_append, List.length_append, length_writeTxId, length_writeTxId,
      length_writeLe32, length_writeLe32])
  obtain ⟨htxid, hout⟩ := List.append_inj houtpoint (by rw [length_writeTxId, length_writeTxId])
  -- what is left of the script code has a fixed length
  obtain ⟨hcode, h⟩ := List.append_inj' h (by
    simp only [List.length_append, length_writeLe64, length_writeLe32, Hash.length])
  obtain ⟨hvalue, h⟩ := List.append_inj h rfl
  obtain ⟨hseq, h⟩ := List.append_inj h rfl
  obtain ⟨houtputs, h⟩ := List.append_inj h (p.hashOutputs.length.trans q.hashOutputs.length.symm)
  obtain ⟨hlocktime, htype⟩ := List.append_inj h rfl
  obtain ⟨_, _, _, ⟨_, _⟩, _, _, _, _, _, _⟩ := p
  obtain ⟨_, _, _, ⟨_, _⟩, _, _, _, _, _, _⟩ := q
  cases writeLe32_injective hversion
  cases Hash.d_injective hprevouts
  cases Hash.d_injective hsequence
  cases writeTxId_injective htxid
  cases writeLe32_injective hout
  cases hcode
  cases writeLe64_injective hvalue
  cases writeLe32_injective hseq
  cases Hash.d_injective houtputs
  cases writeLe32_injective hlocktime
  cases writeLe32_injective htype
  rfl

/-! ## What is written -/

namespace SighashCall

/-- The items as they are written, for the input `i`. -/
def written (sha256d : List UInt8 → Hash) (c : SighashCall) (i : TxIn) : Bip143 :=
  { c.bip143 sha256d i with
    value       := c.amount.toSat
    hashOutputs := hashOrZero sha256d (c.signedOutputs.map (fun os => os.flatMap writeTxOut)) }

theorem hiflags_and (c : SighashCall) : c.hiflags &&& sighashAnyoneCanPay = c.flags &&& 0x80 := by
  unfold hiflags
  rw [UInt32.and_assoc]
  rfl

theorem hashPrevouts_eq (sha256d : List UInt8 → Hash) (c : SighashCall) (i : TxIn) :
    c.hashPrevouts sha256d = (c.bip143 sha256d i).hashPrevouts := by
  unfold hashPrevouts bip143
  rw [hiflags_and]
  by_cases h : c.flags &&& 0x80 = 0
  · rw [if_pos h]
    dsimp only
    rw [if_neg (not_not.mpr h)]
    rfl
  · rw [if_neg h]
    dsimp only
    rw [if_pos h]
    rfl

theorem hashSequence_eq (sha256d : List UInt8 → Hash) (c : SighashCall) (i : TxIn) :
    c.hashSequence sha256d = (c.bip143 sha256d i).hashSequence := by
  unfold hashSequence bip143 loflags
  rw [hiflags_and]
  dsimp only
  by_cases h : c.flags &&& 0x80 = 0 ∧ c.flags &&& 0x1F ≠ sighashSingle
    ∧ c.flags &&& 0x1F ≠ sighashNone
  · rw [if_pos h, if_neg (by
      rintro (hany | hsingle | hnone)
      · exact hany h.1
      · exact h.2.1 hsingle
      · exact h.2.2 hnone)]
    rfl
  · rw [if_neg h, if_pos (by
      by_contra hor
      rw [not_or, not_or, not_not] at hor
      exact h hor)]
    rfl

theorem hashOutputs_eq (sha256d : List UInt8 → Hash) (c : SighashCall) (i : TxIn) :
    c.hashOutputs sha256d = (c.written sha256d i).hashOutputs := by
  show c.hashOutputs sha256d
    = hashOrZero sha256d (c.signedOutputs.map (fun os => os.flatMap writeTxOut))
  unfold hashOutputs signedOutputs loflags
  by_cases hnone : c.flags &&& 0x1F = sighashNone
  · have hne : sighashNone ≠ sighashSingle := by decide
    rw [hnone, if_neg (fun h => h.2 rfl), if_neg hne, if_pos rfl]
    rfl
  · rw [if_neg hnone]
    by_cases hsingle : c.flags &&& 0x1F = sighashSingle
    · rw [if_neg (fun h => h.1 hsingle), if_pos hsingle, if_pos hsingle]
      cases c.tx.outputs.toList[c.nIn]? with
      | none   => rfl
      | some o =>
          show sha256d (writeTxOut o) = sha256d ([o].flatMap writeTxOut)
          rw [List.flatMap_singleton]
    · rw [if_pos ⟨hsingle, hnone⟩, if_neg hsingle]
      rfl

/-- **SPEC** of `sighash_core`: the ten items. -/
theorem sighashCore_eq {sha256d : List UInt8 → Hash} {c : SighashCall} {i : TxIn}
    (hs : c.Supported) (hi : c.tx.inputs.toList[c.nIn]? = some i) :
    c.sighashCore sha256d = .ok (c.written sha256d i).bytes := by
  obtain ⟨hlo, hhi⟩ := hs
  unfold sighashCore
  rw [if_neg (by
    rintro ⟨hall, hnone, hsingle⟩
    rcases hlo with h | h | h
    · exact hall h
    · exact hnone h
    · exact hsingle h), if_neg (by
    rintro ⟨hzero, hany⟩
    rcases hhi with h | h
    · exact hzero h
    · exact hany h), hi, hashPrevouts_eq sha256d c i, hashSequence_eq sha256d c i,
    hashOutputs_eq sha256d c i]
  rfl

end SighashCall

/-! ## Whole satoshi -/

/-- Rounding up to satoshi does not overflow. -/
def Fits (a : Amount) : Prop := a.v.toNat + 999 < 2 ^ 64

/-- **EXACTLY** where nothing overflows, `to_sat` is the number of satoshi. -/
theorem toSat_eq_satoshis_iff {a : Amount} (h : IsSatoshi a) : a.toSat = satoshis a ↔ Fits a := by
  have hlt := a.v.toNat_lt
  have hsum : (a.v + 999).toNat = (a.v.toNat + 999) % 2 ^ 64 := UInt64.toNat_add a.v 999
  have hsat : a.toSat.toNat = (a.v.toNat + 999) % 2 ^ 64 / 1000 := by
    rw [← hsum]
    exact UInt64.toNat_div _ _
  have hspec : (satoshis a).toNat = a.v.toNat / 1000 := UInt64.toNat_div _ _
  rw [← UInt64.toNat_inj, hsat, hspec]
  unfold IsSatoshi at h
  unfold Fits
  constructor
  · intro heq
    by_contra hover
    rw [Nat.mod_eq_sub_mod (Nat.not_lt.mp hover), Nat.mod_eq_of_lt (by omega)] at heq
    omega
  · intro hfits
    rw [Nat.mod_eq_of_lt hfits]
    omega

/-- The number of satoshi is the amount. -/
theorem satoshis_inj {a b : Amount} (ha : IsSatoshi a) (hb : IsSatoshi b)
    (h : satoshis a = satoshis b) : a = b := by
  have hnat : a.v.toNat / 1000 = b.v.toNat / 1000 := by
    have := congrArg UInt64.toNat h
    rwa [satoshis, satoshis, UInt64.toNat_div, UInt64.toNat_div] at this
  unfold IsSatoshi at ha hb
  obtain ⟨v⟩ := a
  obtain ⟨w⟩ := b
  refine congrArg Amount.mk (UInt64.toNat_inj.mp ?_)
  dsimp only at ha hb hnat
  omega

theorem writeTxOut_eq_iff {o : TxOut} (h : IsSatoshi o.amount) :
    writeTxOut o = outputBytes o ↔ Fits o.amount := by
  rw [← toSat_eq_satoshis_iff h]
  constructor
  · intro heq
    unfold writeTxOut outputBytes writeLeAmount at heq
    refine writeLe64_injective (List.append_inj heq ?_).1
    rw [length_writeLe64, length_writeLe64]
  · intro heq
    unfold writeTxOut outputBytes writeLeAmount
    rw [heq]

theorem length_writeTxOut (o : TxOut) : (writeTxOut o).length = (outputBytes o).length := by
  unfold writeTxOut outputBytes writeLeAmount
  simp only [List.length_append, length_writeLe64]

/-- Outputs are written right if each of them is. -/
theorem flatMap_writeTxOut_eq_iff {os : List TxOut} (h : ∀ o ∈ os, IsSatoshi o.amount) :
    os.flatMap writeTxOut = os.flatMap outputBytes ↔ ∀ o ∈ os, Fits o.amount := by
  induction os with
  | nil =>
      rw [List.flatMap_nil, List.flatMap_nil]
      exact ⟨fun _ o ho => absurd ho List.not_mem_nil, fun _ => rfl⟩
  | cons o os ih =>
      obtain ⟨ho, hos⟩ := List.forall_mem_cons.mp h
      rw [List.flatMap_cons, List.flatMap_cons, List.forall_mem_cons, ← writeTxOut_eq_iff ho,
        ← ih hos]
      constructor
      · intro heq
        exact List.append_inj heq (length_writeTxOut o)
      · rintro ⟨heq, heqs⟩
        rw [heq, heqs]

/-! ## The preimage -/

namespace SighashCall

/-- Every amount is a whole number of satoshi. -/
def InSatoshi (c : SighashCall) : Prop :=
  IsSatoshi c.amount ∧ ∀ o ∈ c.tx.outputs.toList, IsSatoshi o.amount

/-- No signed amount overflows. -/
def FitsAll (c : SighashCall) : Prop :=
  Fits c.amount ∧ ∀ os, c.signedOutputs = some os → ∀ o ∈ os, Fits o.amount

theorem mem_of_signedOutputs {c : SighashCall} {os : List TxOut} (h : c.signedOutputs = some os) :
    ∀ o ∈ os, o ∈ c.tx.outputs.toList := by
  unfold signedOutputs at h
  split at h
  · cases h
  split at h
  · obtain ⟨o, ho, rfl⟩ := Option.map_eq_some_iff.mp h
    intro o' ho'
    rw [List.mem_singleton.mp ho']
    exact List.mem_of_getElem? ho
  · cases h
    exact fun _ => id

/-- The texts that are hashed for the outputs: as they are written, and as they should be. -/
def outputTexts (c : SighashCall) : Set (List UInt8) :=
  { t | ∃ os, c.signedOutputs = some os
      ∧ (t = os.flatMap writeTxOut ∨ t = os.flatMap outputBytes) }

/-- **EXACTLY WHEN** the bytes hashed are those of BIP-143. -/
theorem digests_iff_fits {sha256d : List UInt8 → Hash} {c : SighashCall} (hs : c.Supported)
    (hn : c.nIn < c.tx.inputs.toList.length) (ha : c.InSatoshi)
    (hinj : Set.InjOn sha256d c.outputTexts) : c.Digests sha256d ↔ c.FitsAll := by
  have hi := List.getElem?_eq_getElem hn
  have hdigests : c.Digests sha256d ↔
      c.written sha256d (c.tx.inputs.toList[c.nIn])
        = c.bip143 sha256d (c.tx.inputs.toList[c.nIn]) := by
    unfold Digests
    rw [hi]
    constructor
    · rintro ⟨i, hi', hcore⟩
      cases hi'
      rw [sighashCore_eq hs hi] at hcore
      exact Bip143.bytes_injective (Except.ok.inj hcore)
    · intro h
      exact ⟨_, rfl, by rw [sighashCore_eq hs hi, h]⟩
  have hitems : c.written sha256d (c.tx.inputs.toList[c.nIn])
        = c.bip143 sha256d (c.tx.inputs.toList[c.nIn]) ↔
      c.amount.toSat = satoshis c.amount
        ∧ hashOrZero sha256d (c.signedOutputs.map (fun os => os.flatMap writeTxOut))
          = hashOrZero sha256d (c.signedOutputs.map (fun os => os.flatMap outputBytes)) := by
    constructor
    · intro h
      exact ⟨congrArg Bip143.value h, congrArg Bip143.hashOutputs h⟩
    · rintro ⟨hvalue, houtputs⟩
      unfold written
      rw [hvalue, houtputs]
      rfl
  rw [hdigests, hitems, toSat_eq_satoshis_iff ha.1, FitsAll]
  refine and_congr_right fun _ => ?_
  cases hos : c.signedOutputs with
  | none =>
      rw [Option.map_none, Option.map_none]
      exact ⟨fun _ os h => absurd h.symm (Option.some_ne_none os), fun _ => rfl⟩
  | some os =>
      have hmem := mem_of_signedOutputs hos
      have heq : os.flatMap writeTxOut = os.flatMap outputBytes ↔ ∀ o ∈ os, Fits o.amount :=
        flatMap_writeTxOut_eq_iff (fun o ho => ha.2 o (hmem o ho))
      constructor
      · intro h os' hos'
        cases hos'
        exact heq.mp (hinj ⟨os, hos, Or.inl rfl⟩ ⟨os, hos, Or.inr rfl⟩ h)
      · intro h
        show sha256d (os.flatMap writeTxOut) = sha256d (os.flatMap outputBytes)
        rw [heq.mpr (h os rfl)]

end SighashCall

/-! ## Two preimages -/

/-- The parts of two calls that `SIGHASH_ALL` signs are the same. -/
structure SameSigned (c c' : SighashCall) (i i' : TxIn) : Prop where
  version    : c.tx.nVersion = c'.tx.nVersion
  prevouts   : c.tx.inputs.toList.map (fun i => (i.prevTxid, i.prevOut))
    = c'.tx.inputs.toList.map (fun i => (i.prevTxid, i.prevOut))
  sequences  : c.tx.inputs.toList.map TxIn.nSequence = c'.tx.inputs.toList.map TxIn.nSequence
  outputs    : c.tx.outputs = c'.tx.outputs
  locktime   : c.tx.nLockTime = c'.tx.nLockTime
  outpoint   : (i.prevTxid, i.prevOut) = (i'.prevTxid, i'.prevOut)
  scriptCode : c.scriptCode = c'.scriptCode
  amount     : c.amount = c'.amount

/-- Rows of pieces are the same if every piece says where it ends. -/
theorem map_eq_of_flatMap_eq {α β : Type} {f : α → List UInt8} {g : α → β} {P : α → Prop}
    (hne : ∀ a, f a ≠ [])
    (hf : ∀ a b rest rest', P a → P b → f a ++ rest = f b ++ rest' → g a = g b ∧ rest = rest') :
    ∀ {as bs : List α}, (∀ a ∈ as, P a) → (∀ b ∈ bs, P b) → as.flatMap f = bs.flatMap f →
      as.map g = bs.map g := by
  intro as
  induction as with
  | nil =>
      intro bs _ _ h
      cases bs with
      | nil       => rfl
      | cons b bs => exact absurd (List.append_eq_nil_iff.mp h.symm).1 (hne b)
  | cons a as ih =>
      intro bs ha hb h
      cases bs with
      | nil       => exact absurd (List.append_eq_nil_iff.mp h).1 (hne a)
      | cons b bs =>
          obtain ⟨haa, has⟩ := List.forall_mem_cons.mp ha
          obtain ⟨hbb, hbs⟩ := List.forall_mem_cons.mp hb
          rw [List.flatMap_cons, List.flatMap_cons] at h
          obtain ⟨hg, hrest⟩ := hf a b _ _ haa hbb h
          rw [List.map_cons, List.map_cons, hg, ih has hbs hrest]

theorem writeOutpoint_append_inj {i j : TxIn} {rest rest' : List UInt8}
    (h : writeOutpoint i ++ rest = writeOutpoint j ++ rest') :
    (i.prevTxid, i.prevOut) = (j.prevTxid, j.prevOut) ∧ rest = rest' := by
  unfold writeOutpoint at h
  rw [List.append_assoc, List.append_assoc] at h
  obtain ⟨htxid, h⟩ := append_inj_of_decodes (decodes_txId _) (decodes_txId _) h
  obtain ⟨hout, h⟩ := append_inj_of_decodes (decodes_le32 0 _) (decodes_le32 0 _) h
  exact ⟨Prod.ext htxid hout, h⟩

/-- An output that fits says what it is, and where it ends. -/
theorem writeTxOut_append_inj {o p : TxOut} {rest rest' : List UInt8}
    (ho : IsSatoshi o.amount ∧ Fits o.amount) (hp : IsSatoshi p.amount ∧ Fits p.amount)
    (h : writeTxOut o ++ rest = writeTxOut p ++ rest') : o = p ∧ rest = rest' := by
  unfold writeTxOut writeLeAmount at h
  rw [(toSat_eq_satoshis_iff ho.1).mpr ho.2, (toSat_eq_satoshis_iff hp.1).mpr hp.2] at h
  simp only [List.append_assoc] at h
  obtain ⟨hamount, h⟩ := append_inj_of_decodes (decodes_le64 0 _) (decodes_le64 0 _) h
  obtain ⟨hsize, h⟩ := append_inj_of_decodes (decodes_varint 0 _) (decodes_varint 0 _) h
  obtain ⟨hscript, hrest⟩ := List.append_inj h (by
    have := congrArg UInt64.toNat hsize
    rwa [Vec.toNat_size, Vec.toNat_size] at this)
  obtain ⟨oa, os⟩ := o
  obtain ⟨pa, ps⟩ := p
  cases satoshis_inj ho.1 hp.1 hamount
  cases Vec.ext_toList hscript
  exact ⟨rfl, hrest⟩

namespace SighashCall

/-- The texts that `SIGHASH_ALL` hashes. -/
def innerTexts (c : SighashCall) : Set (List UInt8) :=
  {c.tx.inputs.toList.flatMap writeOutpoint,
    c.tx.inputs.toList.flatMap (fun i => writeLe32 i.nSequence),
    c.tx.outputs.toList.flatMap writeTxOut}

theorem supported_of_all {c : SighashCall} (h : c.flags = sighashAll) : c.Supported := by
  unfold Supported
  rw [h]
  exact ⟨Or.inl rfl, Or.inl rfl⟩

theorem signedOutputs_of_all {c : SighashCall} (h : c.flags = sighashAll) :
    c.signedOutputs = some c.tx.outputs.toList := by
  unfold signedOutputs
  rw [h, if_neg (by decide), if_neg (by decide)]

/-- What is hashed under `SIGHASH_ALL`. -/
theorem written_of_all (sha256d : List UInt8 → Hash) {c : SighashCall} (i : TxIn)
    (h : c.flags = sighashAll) :
    (c.written sha256d i).hashPrevouts = sha256d (c.tx.inputs.toList.flatMap writeOutpoint)
      ∧ (c.written sha256d i).hashSequence
        = sha256d (c.tx.inputs.toList.flatMap (fun i => writeLe32 i.nSequence))
      ∧ (c.written sha256d i).hashOutputs = sha256d (c.tx.outputs.toList.flatMap writeTxOut) := by
  have hany : ¬ sighashAll &&& 0x80 ≠ 0 := by decide
  have hseq : ¬ (sighashAll &&& 0x80 ≠ 0 ∨ sighashAll &&& 0x1F = sighashSingle
      ∨ sighashAll &&& 0x1F = sighashNone) := by decide
  refine ⟨?_, ?_, ?_⟩
  · show hashOrZero sha256d (if c.flags &&& 0x80 ≠ 0 then none else _) = _
    rw [h, if_neg hany]
    rfl
  · show hashOrZero sha256d (if c.flags &&& 0x80 ≠ 0 ∨ _ ∨ _ then none else _) = _
    rw [h, if_neg hseq]
    rfl
  · show hashOrZero sha256d (c.signedOutputs.map _) = _
    rw [signedOutputs_of_all h]
    rfl

/-- **UNAMBIGUOUS**: calls with `SIGHASH_ALL` that sign the same bytes sign the same. -/
theorem sameSigned_of_eq {sha256d : List UInt8 → Hash} {c c' : SighashCall} {i i' : TxIn}
    (hall : c.flags = sighashAll) (hall' : c'.flags = sighashAll)
    (hi : c.tx.inputs.toList[c.nIn]? = some i) (hi' : c'.tx.inputs.toList[c'.nIn]? = some i')
    (ha : c.InSatoshi) (ha' : c'.InSatoshi) (hfits : c.FitsAll) (hfits' : c'.FitsAll)
    (hinj : Set.InjOn sha256d (c.innerTexts ∪ c'.innerTexts))
    (heq : c.sighashCore sha256d = c'.sighashCore sha256d) : SameSigned c c' i i' := by
  rw [sighashCore_eq (supported_of_all hall) hi, sighashCore_eq (supported_of_all hall') hi'] at heq
  have hitems := Bip143.bytes_injective (Except.ok.inj heq)
  obtain ⟨hprevouts, hsequence, houtputs⟩ := written_of_all sha256d i hall
  obtain ⟨hprevouts', hsequence', houtputs'⟩ := written_of_all sha256d i' hall'
  have hfitsOut : ∀ o ∈ c.tx.outputs.toList, IsSatoshi o.amount ∧ Fits o.amount :=
    fun o ho => ⟨ha.2 o ho, hfits.2 _ (signedOutputs_of_all hall) o ho⟩
  have hfitsOut' : ∀ o ∈ c'.tx.outputs.toList, IsSatoshi o.amount ∧ Fits o.amount :=
    fun o ho => ⟨ha'.2 o ho, hfits'.2 _ (signedOutputs_of_all hall') o ho⟩
  -- the texts under the three hashes
  have hprevoutsText : c.tx.inputs.toList.flatMap writeOutpoint
      = c'.tx.inputs.toList.flatMap writeOutpoint :=
    hinj (Or.inl (Or.inl rfl)) (Or.inr (Or.inl rfl))
      (hprevouts.symm.trans ((congrArg Bip143.hashPrevouts hitems).trans hprevouts'))
  have hsequenceText : c.tx.inputs.toList.flatMap (fun i => writeLe32 i.nSequence)
      = c'.tx.inputs.toList.flatMap (fun i => writeLe32 i.nSequence) :=
    hinj (Or.inl (Or.inr (Or.inl rfl))) (Or.inr (Or.inr (Or.inl rfl)))
      (hsequence.symm.trans ((congrArg Bip143.hashSequence hitems).trans hsequence'))
  have houtputsText : c.tx.outputs.toList.flatMap writeTxOut
      = c'.tx.outputs.toList.flatMap writeTxOut :=
    hinj (Or.inl (Or.inr (Or.inr rfl))) (Or.inr (Or.inr (Or.inr rfl)))
      (houtputs.symm.trans ((congrArg Bip143.hashOutputs hitems).trans houtputs'))
  constructor
  case version => exact congrArg Bip143.nVersion hitems
  case prevouts =>
      exact map_eq_of_flatMap_eq (P := fun _ => True)
        (fun i hnil => absurd (congrArg List.length hnil) (by
          rw [writeOutpoint, List.length_append, length_writeTxId]
          exact Nat.succ_ne_zero _))
        (fun _ _ _ _ _ _ => writeOutpoint_append_inj) (fun _ _ => trivial) (fun _ _ => trivial)
        hprevoutsText
  case sequences =>
      exact map_eq_of_flatMap_eq (P := fun _ => True) (fun _ => List.cons_ne_nil _ _)
        (fun _ _ _ _ _ _ => append_inj_of_decodes (decodes_le32 0 _) (decodes_le32 0 _))
        (fun _ _ => trivial) (fun _ _ => trivial) hsequenceText
  case outputs =>
      have hmap := map_eq_of_flatMap_eq (g := id) (P := fun o => IsSatoshi o.amount ∧ Fits o.amount)
        (fun o => List.append_ne_nil_of_left_ne_nil (List.cons_ne_nil _ _) _)
        (fun _ _ _ _ => writeTxOut_append_inj) hfitsOut hfitsOut' houtputsText
      rw [List.map_id, List.map_id] at hmap
      exact Vec.ext_toList hmap
  case locktime => exact congrArg Bip143.nLockTime hitems
  case outpoint => exact congrArg Bip143.outpoint hitems
  case scriptCode => exact congrArg Bip143.scriptCode hitems
  case amount =>
      have hvalue : c.amount.toSat = c'.amount.toSat := congrArg Bip143.value hitems
      rw [(toSat_eq_satoshis_iff ha.1).mpr hfits.1, (toSat_eq_satoshis_iff ha'.1).mpr hfits'.1]
        at hvalue
      exact satoshis_inj ha.1 ha'.1 hvalue

/-- **HEADLINE**: the bytes hashed are those of BIP-143 exactly where no amount overflows,
    and there `SIGHASH_ALL` tells any two calls apart. -/
theorem preimage_of_bip143 {sha256d : List UInt8 → Hash} :
    (∀ c : SighashCall, c.Supported → c.nIn < c.tx.inputs.toList.length → c.InSatoshi →
        Set.InjOn sha256d c.outputTexts → (c.Digests sha256d ↔ c.FitsAll))
      ∧ ∀ (c c' : SighashCall) (i i' : TxIn), c.flags = sighashAll → c'.flags = sighashAll →
        c.tx.inputs.toList[c.nIn]? = some i → c'.tx.inputs.toList[c'.nIn]? = some i' →
        c.InSatoshi → c'.InSatoshi → c.FitsAll → c'.FitsAll →
        Set.InjOn sha256d (c.innerTexts ∪ c'.innerTexts) →
        c.sighashCore sha256d = c'.sighashCore sha256d → SameSigned c c' i i' :=
  ⟨fun _ => digests_iff_fits, fun _ _ _ _ => sameSigned_of_eq⟩

/-! ## One call -/

/-- One input and one output of one satoshi, with `SIGHASH_ALL`. -/
def toyCall (amount : Amount) : SighashCall :=
  ⟨⟨2, Vec.single TxIn.init, Vec.single ⟨⟨1000⟩, Vec.nil⟩, 0⟩, sighashAll, 0, amount, [1, 0x51]⟩

/-- The first bytes, in place of a hash. -/
def toyHash (bs : List UInt8) : Hash :=
  ⟨(bs ++ List.replicate 32 0).take 32, by
    rw [List.length_take, List.length_append, List.length_replicate]
    omega⟩

theorem toyCall_inSatoshi {a : Amount} (h : IsSatoshi a) : (toyCall a).InSatoshi :=
  ⟨h, fun o ho => by rw [List.mem_singleton.mp ho]; rfl⟩

theorem toyCall_fits {a : Amount} (h : Fits a) : (toyCall a).FitsAll := by
  refine ⟨h, fun os hos o ho => ?_⟩
  rw [signedOutputs_of_all rfl] at hos
  cases hos
  rw [List.mem_singleton.mp ho]
  show 1000 + 999 < 2 ^ 64
  decide

/-- The preimage of the call with an amount of two satoshi. -/
theorem toyCall_digests : (toyCall ⟨2000⟩).Digests toyHash
    ∧ SameSigned (toyCall ⟨2000⟩) (toyCall ⟨2000⟩) TxIn.init TxIn.init := by
  have ha : (toyCall ⟨2000⟩).InSatoshi := toyCall_inSatoshi rfl
  have hfits : (toyCall ⟨2000⟩).FitsAll := toyCall_fits (by
    show 2000 + 999 < 2 ^ 64
    decide)
  have houter : Set.InjOn toyHash (toyCall ⟨2000⟩).outputTexts := by
    rintro x ⟨os, hos, hx⟩ y ⟨os', hos', hy⟩ -
    rw [hos] at hos'
    cases hos'
    have heq : os.flatMap writeTxOut = os.flatMap outputBytes :=
      (flatMap_writeTxOut_eq_iff (fun o ho => ha.2 o (mem_of_signedOutputs hos o ho))).mpr
        (hfits.2 os hos)
    rcases hx with rfl | rfl <;> rcases hy with rfl | rfl
    · rfl
    · exact heq
    · exact heq.symm
    · rfl
  have hinner : Set.InjOn toyHash ((toyCall ⟨2000⟩).innerTexts ∪ (toyCall ⟨2000⟩).innerTexts) := by
    rw [Set.union_self]
    have hdistinct : ∀ {x y : List UInt8},
        toyHash x = toyHash y → (toyHash x ≠ toyHash y) → x = y :=
      fun h hne => absurd h hne
    rintro x (rfl | rfl | rfl) y (rfl | rfl | rfl) h
    · rfl
    · exact hdistinct h (by decide)
    · exact hdistinct h (by decide)
    · exact hdistinct h (by decide)
    · rfl
    · exact hdistinct h (by decide)
    · exact hdistinct h (by decide)
    · exact hdistinct h (by decide)
    · rfl
  exact ⟨(preimage_of_bip143.1 _ (supported_of_all rfl) Nat.one_pos ha houter).mpr hfits,
    preimage_of_bip143.2 _ _ _ _ rfl rfl rfl rfl ha ha hfits hfits hinner rfl⟩

/-- **COUNTEREXAMPLE**: of `18446744073709551` satoshi nothing is signed. -/
theorem amount_overflows :
    writeLeAmount ⟨18446744073709551000⟩ = writeLe64 0
      ∧ ¬ ∀ (sha256d : List UInt8 → Hash) (c : SighashCall), c.Supported →
        c.nIn < c.tx.inputs.toList.length → c.InSatoshi → c.Digests sha256d := by
  have hsat : Amount.toSat ⟨18446744073709551000⟩ = 0 := by decide
  refine ⟨congrArg writeLe64 hsat, fun h => ?_⟩
  have hcall := toyCall_inSatoshi (a := ⟨18446744073709551000⟩) rfl
  obtain ⟨i, hi, hcore⟩ := h toyHash (toyCall ⟨18446744073709551000⟩) (supported_of_all rfl)
    Nat.one_pos hcall
  rw [sighashCore_eq (supported_of_all rfl) hi] at hcore
  have hvalue := congrArg Bip143.value (Bip143.bytes_injective (Except.ok.inj hcore))
  exact absurd
    (show Amount.toSat ⟨18446744073709551000⟩ = satoshis ⟨18446744073709551000⟩ from hvalue)
    (by decide)

end SighashCall

end Bitcoin
