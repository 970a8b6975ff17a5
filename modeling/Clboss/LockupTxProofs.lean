import Clboss.ClaimTxProofs
import Clboss.WireTxProofs

/-! # The claim against the lockup as the server sent it

    `ClaimTxHandler` compares amounts and computes the txid on the transaction
    its parser returned.  The swap is lost or won on the chain, where the values
    are those of the TEXT and the txid is the hash of its own bytes.

    Three sums of the program wrap: `blockheight + 10`, the millisatoshi of an
    output when it is written back for the txid, and those of the row's amount
    when the two are compared.  The headline `claim_safe_iff` says that these
    are all: for a bound on each, EVERY run within the bounds is safe against
    the text exactly when none of them can wrap. -/

namespace Boltz

open ByteStream Bitcoin Ln Await

variable {K : Type}

/-! ## The txid of what was sent -/

/-- The txid of the transaction as sent: the hash of its legacy layout. -/
def sentTxid (c : Crypto K) (w : WireTx) : TxId :=
  txIdOfHash (c.sha256 (c.sha256 (writeStripped w)).d)

/-- Without witnesses the image is written back as it was sent, when no value
    wraps on the way. -/
theorem writeTx_toTx {w : WireTx}
    (hvalues : ∀ out ∈ w.outputs.toList, out.value.toNat ≤ 18446744073709550) :
    writeTx (stripWitnesses w.toTx) = writeStripped w := by
  have hsegwit : (stripWitnesses w.toTx).segwit = false := by
    unfold Tx.segwit stripWitnesses
    rw [List.any_eq_false]
    intro i hi
    obtain ⟨j, -, rfl⟩ := List.mem_map.mp hi
    simp [TxIn.clearWitness, WitnessField.empty, Vec.nil]
  have hsize : (stripWitnesses w.toTx).inputs.size = w.inputs.size := by
    unfold Vec.size stripWitnesses
    rw [List.length_map]
    rfl
  have hins : (stripWitnesses w.toTx).inputs.toList.flatMap writeTxIn
      = w.inputs.toList.flatMap writeTxIn := by
    show (w.inputs.toList.map TxIn.clearWitness).flatMap writeTxIn = _
    rw [List.flatMap_map]
    rfl
  have houtSize : w.toTx.outputs.size = w.outputs.size := by
    show UInt64.ofNat (w.outputs.toList.map WireOut.toTxOut).length = _
    rw [List.length_map]
    rfl
  have houts : w.toTx.outputs.toList.flatMap writeTxOut
      = w.outputs.toList.flatMap writeWireOut := by
    show (w.outputs.toList.map WireOut.toTxOut).flatMap writeTxOut = _
    rw [List.flatMap_map]
    refine List.flatMap_congr fun out hout => ?_
    show writeLe64 (Amount.sat out.value).toSat ++ _ = _
    rw [(Amount.toSat_sat_eq_iff out.value).mpr (hvalues out hout)]
    rfl
  unfold writeTx writeStripped
  rw [hsegwit, hsize, hins]
  show writeLe32 w.nVersion ++ ([] ++ (writeVarint w.inputs.size
    ++ (w.inputs.toList.flatMap writeTxIn ++ (writeVarint w.toTx.outputs.size
    ++ (w.toTx.outputs.toList.flatMap writeTxOut ++ ([] ++ writeLe32 w.nLockTime)))))) = _
  rw [houtSize, houts, List.nil_append, List.nil_append]

/-- So the handler's txid is the one on the chain. -/
theorem getTxid_toTx (c : Crypto K) {w : WireTx}
    (hvalues : ∀ out ∈ w.outputs.toList, out.value.toNat ≤ 18446744073709550) :
    getTxid c w.toTx = sentTxid c w := by
  unfold getTxid sentTxid
  rw [writeTx_toTx hvalues]

/-! ## What a claim may be shown for -/

/-- A claim transaction that may be shown to the world, judged by the table `t`
    the check saw and the lockup `w` as sent: the row is there and not locked
    up, its timeout is more than ten blocks away, and the transaction spends an
    output of the lockup that pays the row's script exactly the row's amount. -/
def Claims (c : Crypto K) (h : ClaimTxHandler) (w : WireTx) (t : Table) (tx : Tx) : Prop :=
  ∃ row ∈ t.rows, row.key = h.key ∧ row.lockedUp = false
    ∧ h.blockheight.toNat + 10 < row.timeoutBlockheight.toNat
    ∧ ∃ (script : Vec UInt8) (i : Nat) (out : WireOut),
        hexread row.redeemScript = some script
        ∧ w.outputs.toList[i]? = some out
        ∧ out.scriptPubKey.toList = p2wsh c script.toList
        ∧ out.value = row.onchainAmount
        ∧ tx.inputs.toList.map (fun n => (n.prevTxid, n.prevOut.toNat)) = [(sentTxid c w, i)]

/-- Below the bounds, what is claimable of the parsed transaction is claimable of
    the one that was sent. -/
theorem Claimable.claims {c : Crypto K} {h : ClaimTxHandler} {w : WireTx} {t : Table} {tx : Tx}
    (hcl : Claimable c h t tx) (hlockup : h.lockupTx = w.toTx)
    (hvalues : ∀ out ∈ w.outputs.toList, out.value.toNat ≤ 18446744073709550)
    (hamount : ∀ row ∈ t.rows, row.key = h.key → row.onchainAmount.toNat < 2 ^ 61) :
    Claims c h w t tx := by
  obtain ⟨row, hrow, hkey, hlocked, htimeout, script, i, out, hscript, hout, hpays, heq,
    hspends⟩ := hcl
  rw [hlockup] at hout hspends
  have hmap : (w.outputs.toList.map WireOut.toTxOut)[i]? = some out := hout
  rw [List.getElem?_map] at hmap
  obtain ⟨sent, hsent, rfl⟩ := Option.map_eq_some_iff.mp hmap
  have hle := hvalues sent (List.mem_of_getElem? hsent)
  refine ⟨row, hrow, hkey, hlocked, htimeout, script, i, sent, hscript, hsent, hpays, ?_, ?_⟩
  · exact Amount.sat_inj (by omega) (hamount row hrow hkey) heq
  · rw [getTxid_toTx c hvalues] at hspends
    exact hspends

theorem RunSafe.mono {P Q : Tx → Prop} {o : Outcomes} {t : Table} {w : World Table Act}
    (h : RunSafe P o t w) (hPQ : ∀ tx, P tx → Q tx) : RunSafe Q o t w :=
  ⟨fun tx hm => hPQ tx (h.claimable tx hm), h.marked_after, h.unmarked⟩

/-! ## Where one of the sums wraps -/

/-- An output that pays the empty script. -/
def payingOut (c : Crypto K) : WireOut :=
  ⟨0, ⟨p2wsh c [], by
    show ([0x00, 0x20] ++ (c.sha256 []).d).length < 2 ^ 64
    rw [List.length_append, (c.sha256 []).length]
    decide⟩⟩

/-- A lockup that pays it nothing, beside an output of any value. -/
def sentLockup (c : Crypto K) (value : UInt64) : WireTx where
  nVersion  := 2
  inputs    := Vec.single TxIn.init
  outputs   := ⟨[payingOut c, ⟨value, Vec.nil⟩], by
    show 2 < 2 ^ 64
    decide⟩
  nLockTime := 0

theorem sentLockup_spells (c : Crypto K) (value : UInt64) :
    Spells (Util.Str.hexdump (writeStripped (sentLockup c value))) (sentLockup c value) := by
  refine spells_stripped _ (by simp [sentLockup, Vec.single]) ?_
  intro i hi
  rw [List.mem_singleton.mp hi]
  rfl

/-- The table holding just the late row, for some amount. -/
def lateTable (tweak addr : String) (amount : UInt64) : Table :=
  ⟨[{ lateRow tweak addr with onchainAmount := amount }], by simp⟩

/-- The handler for that lockup. -/
def lateHandler (c : Crypto K) (height : UInt32) (value : UInt64) : ClaimTxHandler where
  apiEndpoint := ""
  swapId      := ""
  blockheight := height
  lockupTx    := (sentLockup c value).toTx
  outputs_lt  := by
    show 2 < 2 ^ 31
    decide

/-- What the first transaction fetches of that row. -/
def lateFetched (key : K) (addr : String) (amount : UInt64) : Fetched K :=
  ⟨key, Hash.zero, addr, Vec.nil, 0xFFFFFFFF, Amount.sat amount⟩

section Late

variable {c : Crypto K} {height : UInt32} {value amount : UInt64} {tweak addr : String} {key : K}
  {script : Vec UInt8}

theorem checkAndFetch_late (hkey : c.privKey tweak = some key) (haddr : addr ≠ "")
    (w : World Table Act) (hw : w.store = lateTable tweak addr amount) :
    checkAndFetch c (lateHandler c height value) allWell w
      = (.ok (lateFetched key addr amount), w) := by
  have hread : (Io.read : Run Table) w = (.ok (lateTable tweak addr amount), w) := by
    rw [← hw]
    rfl
  refine (Io.bind_eq hread).trans ?_
  show (if addr = "" then _ else _ : Run (Fetched K)) w = _
  rw [if_neg haddr]
  refine (Io.bind_eq (a := lateFetched key addr amount) (v := w) ?_).trans rfl
  refine (Io.bind_eq (a := lateFetched key addr amount) (v := w) ?_).trans rfl
  refine (Io.bind_eq (Io.ofOption_eq hkey w)).trans ?_
  exact (Io.bind_eq (Io.ofOption_eq preimageOfText_zeroText w)).trans rfl

/-- The checks let the row through wherever the guard does and its amount comes to
    nothing in millisatoshi. -/
theorem checkLockup_late (hguard : ¬ (0xFFFFFFFF : UInt32) ≤ height + 10)
    (hamount : Amount.sat amount = Amount.sat 0) :
    checkLockup c (lateHandler c height value) allWell (lateFetched key addr amount) = pure 0 := by
  have hout : findLockupOutnum c (lateHandler c height value).lockupTx
      (lateFetched key addr amount).redeemScript = 0 := by
    have hfind : (sentLockup c value).toTx.outputs.toList.findIdx?
        (fun out => out.scriptPubKey.toList == p2wsh c Vec.nil.toList) = some 0 := by
      simp [sentLockup, WireTx.toTx, Vec.map, WireOut.toTxOut, payingOut, Vec.nil,
        List.findIdx?_cons]
    show findLockupOutnum c (sentLockup c value).toTx Vec.nil = 0
    unfold findLockupOutnum
    rw [hfind]
    rfl
  unfold checkLockup
  refine (if_neg hguard).trans ?_
  simp only [hout]
  rw [if_neg (by decide)]
  exact if_neg (not_not.mpr (congrArg some hamount.symm))

variable (height value amount) in
/-- The trace of that run shows a claim transaction. -/
theorem built_late (hguard : ¬ (0xFFFFFFFF : UInt32) ≤ height + 10)
    (hamount : Amount.sat amount = Amount.sat 0) (hkey : c.privKey tweak = some key)
    (haddr : addr ≠ "") (hscript : c.addrToScriptPubKey addr = some script) :
    ∃ tx, Act.built tx ∈ (coreRun c (lateHandler c height value) allWell
      (start (lateTable tweak addr amount))).2.trace := by
  have hclaim : initialClaimTx c
      (claimArgs c (lateHandler c height value) allWell (lateFetched key addr amount) 0)
      (lateFetched key addr amount).destinationAddress
      = some (claimTxTo c (claimArgs c (lateHandler c height value) allWell
          (lateFetched key addr amount) 0) script) := by
    show (c.addrToScriptPubKey addr).map _ = _
    rw [hscript]
    rfl
  refine ⟨(claimTxTo c (claimArgs c (lateHandler c height value) allWell
    (lateFetched key addr amount) 0) script).1, ?_⟩
  have hawait : ∀ n, (Io.await allWell.toScript : Run Unit) ⟨lateTable tweak addr amount, [], n⟩
      = (.ok (), ⟨lateTable tweak addr amount, [], n + 1⟩) := fun _ => rfl
  have hrun : coreRun c (lateHandler c height value) allWell (start (lateTable tweak addr amount))
      = Io.catching (broadcastAndMark c (lateHandler c height value) allWell
          (lateFetched key addr amount) 0)
          (fun e => if e = .endRun then some (pure ()) else none)
          ⟨lateTable tweak addr amount, [], 1⟩ := by
    unfold coreRun Io.catching start
    rw [Io.bind_eq (hawait 0), Io.bind_eq (checkAndFetch_late hkey haddr _ rfl),
      checkLockup_late hguard hamount]
    rfl
  rw [hrun]
  unfold broadcastAndMark Io.catching
  rw [Io.bind_eq (hawait 1), Io.bind_eq (Io.ofOption_eq hclaim _)]
  exact List.mem_cons_self ..

/-- A late row at a height where the guard wraps. -/
theorem not_runSafe_height (hguard : ¬ (0xFFFFFFFF : UInt32) ≤ height + 10)
    (hh : ¬ height.toNat + 10 < 2 ^ 32) (hkey : c.privKey tweak = some key) (haddr : addr ≠ "")
    (hscript : c.addrToScriptPubKey addr = some script) :
    ¬ RunSafe (Claims c (lateHandler c height 0) (sentLockup c 0) (lateTable tweak addr 0))
      allWell (lateTable tweak addr 0)
      (coreRun c (lateHandler c height 0) allWell (start (lateTable tweak addr 0))).2 := by
  intro hsafe
  obtain ⟨tx, hb⟩ := built_late height 0 0 hguard rfl hkey haddr hscript
  obtain ⟨row, -, -, -, hlate, -⟩ := hsafe.claimable tx (Or.inl hb)
  have hlt := row.timeoutBlockheight.toNat_lt
  have hlate' : height.toNat + 10 < row.timeoutBlockheight.toNat := hlate
  omega

/-- An output whose value is written back as another: the claim spends a txid that is
    not the one of what was sent. -/
theorem not_runSafe_value
    (hsha : getTxid c (sentLockup c value).toTx ≠ sentTxid c (sentLockup c value))
    (hkey : c.privKey tweak = some key) (haddr : addr ≠ "")
    (hscript : c.addrToScriptPubKey addr = some script) :
    ¬ RunSafe (Claims c (lateHandler c 0 value) (sentLockup c value) (lateTable tweak addr 0))
      allWell (lateTable tweak addr 0)
      (coreRun c (lateHandler c 0 value) allWell (start (lateTable tweak addr 0))).2 := by
  intro hsafe
  obtain ⟨tx, hb⟩ := built_late 0 value 0 (by decide) rfl hkey haddr hscript
  obtain ⟨row, -, -, -, -, _, i, out, -, -, -, -, hsent⟩ := hsafe.claimable tx (Or.inl hb)
  -- the run is safe for the transaction as parsed, so this is the txid it spends
  obtain ⟨row', -, -, -, -, _, j, out', -, -, -, -, hparsed⟩ :=
    (runSafe_coreRun c (lateHandler c 0 value) allWell (lateTable tweak addr 0) (by
      show 0 + 10 < 2 ^ 32
      decide)).claimable tx (Or.inl hb)
  rw [hsent] at hparsed
  exact hsha (congrArg Prod.fst (List.singleton_inj.mp hparsed)).symm

/-- `2^61` satoshi, which come to no millisatoshi at all. -/
def hugeAmount : UInt64 := 2305843009213693952

/-- A row of that amount: an output that pays nothing will do. -/
theorem not_runSafe_amount (hkey : c.privKey tweak = some key) (haddr : addr ≠ "")
    (hscript : c.addrToScriptPubKey addr = some script) :
    ¬ RunSafe (Claims c (lateHandler c 0 0) (sentLockup c 0) (lateTable tweak addr hugeAmount))
      allWell (lateTable tweak addr hugeAmount)
      (coreRun c (lateHandler c 0 0) allWell (start (lateTable tweak addr hugeAmount))).2 := by
  intro hsafe
  obtain ⟨tx, hb⟩ := built_late 0 0 hugeAmount (by decide) (by decide) hkey haddr
    hscript
  obtain ⟨row, hrow, -, -, -, _, i, out, -, hout, -, hamount, -⟩ :=
    hsafe.claimable tx (Or.inl hb)
  have hrow' : row.onchainAmount = hugeAmount := by
    rw [List.mem_singleton.mp hrow]
  have hout' : out.value = 0 := by
    have hmem : out ∈ [payingOut c, ⟨0, Vec.nil⟩] := List.mem_of_getElem? hout
    rcases List.mem_pair.mp hmem with rfl | rfl
    · rfl
    · rfl
  rw [hrow', hout'] at hamount
  exact absurd hamount (by decide)

end Late

/-- The least value that is not written back as it was sent. -/
def heavyValue : UInt64 := 18446744073709551

/-- **HEADLINE**: bound the block height, the values of the lockup as sent and the
    amount of the row.  The handler reveals the preimage safely in EVERY run
    within the bounds — for every text the server sends, every table and every
    outcome of the awaited steps — exactly when none of the three can wrap.

    The hypotheses say that the signer accepts some key, that some address can be
    paid to, and that the hash tells one transaction from what it is written back
    as; they are needed for the runs that go wrong. -/
theorem claim_safe_iff (c : Crypto K) (hkey : ∃ tweak, (c.privKey tweak).isSome)
    (haddr : ∃ addr, addr ≠ "" ∧ (c.addrToScriptPubKey addr).isSome)
    (hsha : getTxid c (sentLockup c heavyValue).toTx ≠ sentTxid c (sentLockup c heavyValue))
    (height value amount : Nat) :
    (∀ (junk : Nat → UInt8) (text : List UInt8) (w : WireTx) (h : ClaimTxHandler) (o : Outcomes)
        (t : Table),
        Spells text w → Tx.ofHex junk text = .ok h.lockupTx →
        h.blockheight.toNat ≤ height →
        (∀ out ∈ w.outputs.toList, out.value.toNat ≤ value) →
        (∀ row ∈ (o.others 0 t).rows, row.key = h.key → row.onchainAmount.toNat ≤ amount) →
        RunSafe (Claims c h w (o.others 0 t)) o t (coreRun c h o (start t)).2)
      ↔ height + 10 < 2 ^ 32 ∧ value ≤ 18446744073709550 ∧ amount < 2 ^ 61 := by
  constructor
  · intro hsafe
    obtain ⟨tweak, htweak⟩ := hkey
    obtain ⟨addr, hne, hscript⟩ := haddr
    obtain ⟨key, hkey⟩ := Option.isSome_iff_exists.mp htweak
    obtain ⟨script, hscript⟩ := Option.isSome_iff_exists.mp hscript
    have hrun : ∀ (ht : UInt32) (v a : UInt64), ht.toNat ≤ height → v.toNat ≤ value →
        a.toNat ≤ amount →
        RunSafe (Claims c (lateHandler c ht v) (sentLockup c v) (lateTable tweak addr a)) allWell
          (lateTable tweak addr a)
          (coreRun c (lateHandler c ht v) allWell (start (lateTable tweak addr a))).2 := by
      intro ht v a hht hv ha
      have hspells := sentLockup_spells c v
      refine hsafe (fun _ => 0) _ (sentLockup c v) (lateHandler c ht v) allWell
        (lateTable tweak addr a) hspells ((Tx.ofHex_iff _ _ _).mpr ⟨_, hspells, rfl⟩) hht ?_ ?_
      · intro out hout
        rcases List.mem_pair.mp hout with rfl | rfl
        · exact Nat.zero_le _
        · exact hv
      · intro row hrow _
        rw [List.mem_singleton.mp hrow]
        exact ha
    refine ⟨?_, ?_, ?_⟩
    · by_contra hh
      exact not_runSafe_height (by decide) (by decide) hkey hne hscript
        (hrun 4294967286 0 0 (by simp only [UInt32.reduceToNat]; omega) (Nat.zero_le _)
          (Nat.zero_le _))
    · by_contra hv
      refine not_runSafe_value hsha hkey hne hscript
        (hrun 0 heavyValue 0 (Nat.zero_le _) ?_ (Nat.zero_le _))
      show 18446744073709551 ≤ value
      omega
    · by_contra ha
      refine not_runSafe_amount hkey hne hscript
        (hrun 0 0 hugeAmount (Nat.zero_le _) (Nat.zero_le _) ?_)
      show 2305843009213693952 ≤ amount
      omega
  · rintro ⟨hh, hv, ha⟩ junk text w h o t hspells hparsed hheight hvalues hamount
    -- the text has one image
    have hlockup : h.lockupTx = w.toTx := by
      have himage := (Tx.ofHex_iff junk text w.toTx).mpr ⟨w, hspells, rfl⟩
      rw [hparsed] at himage
      exact Except.ok.inj himage
    refine (runSafe_coreRun c h o t (by omega)).mono fun tx hcl => ?_
    refine hcl.claims hlockup (fun out hout => ?_) fun row hrow hk => ?_
    · exact (hvalues out hout).trans hv
    · exact (hamount row hrow hk).trans_lt ha

/-- `Sha256::fun` on the bytes the witness needs, and elsewhere as in the sample world. -/
def lockupSha256 (bs : List UInt8) : Hash :=
  let once : Hash :=
    ⟨[ 0x9a, 0x78, 0xcf, 0x69, 0x82, 0x5f, 0x50, 0xf1,
      0x50, 0xef, 0x5c, 0xa3, 0xf9, 0x35, 0x9d, 0xef,
      0xb8, 0xa0, 0xba, 0xbe, 0x4c, 0x4a, 0x37, 0xe7,
      0xe9, 0x0e, 0x15, 0xeb, 0xe5, 0xa6, 0xcf, 0xcb ], rfl⟩
  let twice : Hash :=
    ⟨[ 0xea, 0x30, 0x9d, 0x5d, 0xc9, 0x27, 0xad, 0x0d,
      0xfb, 0x01, 0x15, 0x96, 0x51, 0x85, 0x35, 0xb1,
      0xd9, 0xf5, 0xc7, 0x49, 0x1e, 0xd6, 0xfe, 0xd0,
      0xb5, 0x97, 0x23, 0xa0, 0x48, 0x4f, 0x79, 0xf4 ], rfl⟩
  let backOnce : Hash :=
    ⟨[ 0x62, 0xcb, 0x69, 0xac, 0x45, 0x34, 0xf4, 0x79,
      0x1e, 0xc3, 0xab, 0x5b, 0x3e, 0x10, 0xc2, 0xa3,
      0xfa, 0x6d, 0x64, 0x28, 0x25, 0x35, 0x79, 0xef,
      0xc8, 0xcf, 0xa1, 0x3f, 0xe0, 0x8d, 0x1d, 0x73 ], rfl⟩
  let backTwice : Hash :=
    ⟨[ 0xa2, 0xf6, 0x9a, 0x52, 0x4b, 0x95, 0xe8, 0x43,
      0xc8, 0xbf, 0x0f, 0x0a, 0x77, 0xd4, 0x0d, 0x3b,
      0xd3, 0x67, 0x18, 0xf1, 0xf9, 0x84, 0x87, 0x5d,
      0x72, 0xf9, 0x61, 0x68, 0x9d, 0x28, 0x7c, 0x0c ], rfl⟩
  if bs = writeStripped (sentLockup sampleCrypto heavyValue) then once
  else if bs = once.d then twice
  else if bs = writeTx (stripWitnesses (sentLockup sampleCrypto heavyValue).toTx) then backOnce
  else if bs = backOnce.d then backTwice
  else sampleCrypto.sha256 bs

/-- The sample world with that hash. -/
def lockupCrypto : Crypto Hash := { sampleCrypto with sha256 := lockupSha256 }

theorem lockupCrypto_key :
    lockupCrypto.privKey oneText = some ⟨List.replicate 31 0 ++ [1], rfl⟩ := by
  decide

/-- An address of the sample world. -/
def sampleAddr : String := "bc1qw508d6qejxtdg4y5r3zarvary0c5xw7kv8f3t4"

theorem lockupCrypto_addr : lockupCrypto.addrToScriptPubKey sampleAddr
    = some ⟨[0x00, 0x14, 0x75, 0x1e, 0x76, 0xe8, 0x19, 0x91, 0x96, 0xd4, 0x54, 0x94,
        0x1c, 0x45, 0xd1, 0xb3, 0xa3, 0x23, 0xf1, 0x43, 0x3b, 0xd6], by decide⟩ := by
  decide

theorem lockupCrypto_sha : getTxid lockupCrypto (sentLockup lockupCrypto heavyValue).toTx
    ≠ sentTxid lockupCrypto (sentLockup lockupCrypto heavyValue) := by
  decide +kernel

theorem claim_safe_iff_sample :
    (∃ tweak, (lockupCrypto.privKey tweak).isSome)
    ∧ (∃ addr, addr ≠ "" ∧ (lockupCrypto.addrToScriptPubKey addr).isSome)
    ∧ getTxid lockupCrypto (sentLockup lockupCrypto heavyValue).toTx
      ≠ sentTxid lockupCrypto (sentLockup lockupCrypto heavyValue)
    ∧ ∀ (junk : Nat → UInt8) (text : List UInt8) (w : WireTx) (h : ClaimTxHandler) (o : Outcomes)
        (t : Table),
        Spells text w → Tx.ofHex junk text = .ok h.lockupTx →
        h.blockheight.toNat ≤ 840000 →
        (∀ out ∈ w.outputs.toList, out.value.toNat ≤ 2100000000000000) →
        (∀ row ∈ (o.others 0 t).rows, row.key = h.key →
          row.onchainAmount.toNat ≤ 2100000000000000) →
        RunSafe (Claims lockupCrypto h w (o.others 0 t)) o t
          (coreRun lockupCrypto h o (start t)).2 := by
  have hkey : ∃ tweak, (lockupCrypto.privKey tweak).isSome := by
    refine ⟨oneText, ?_⟩
    rw [lockupCrypto_key]
    rfl
  have haddr : ∃ addr, addr ≠ "" ∧ (lockupCrypto.addrToScriptPubKey addr).isSome := by
    refine ⟨sampleAddr, by decide, ?_⟩
    rw [lockupCrypto_addr]
    rfl
  exact ⟨hkey, haddr, lockupCrypto_sha, (claim_safe_iff lockupCrypto hkey haddr lockupCrypto_sha
    840000 2100000000000000 2100000000000000).mpr ⟨by decide, by decide, by decide⟩⟩

/-- At the last block height the guard compares against 9, so a claim is built
    for a row that times out right then. -/
theorem claim_unsafe_at_last_height :
    Spells (Util.Str.hexdump (writeStripped (sentLockup sampleCrypto 0)))
      (sentLockup sampleCrypto 0)
    ∧ Tx.ofHex (fun _ => 0) (Util.Str.hexdump (writeStripped (sentLockup sampleCrypto 0)))
      = .ok (lateHandler sampleCrypto 4294967295 0).lockupTx
    ∧ ¬ RunSafe (Claims sampleCrypto (lateHandler sampleCrypto 4294967295 0)
          (sentLockup sampleCrypto 0) (lateTable oneText sampleAddr 0)) allWell
        (lateTable oneText sampleAddr 0)
        (coreRun sampleCrypto (lateHandler sampleCrypto 4294967295 0) allWell
          (start (lateTable oneText sampleAddr 0))).2 := by
  have hspells := sentLockup_spells sampleCrypto 0
  refine ⟨hspells, (Tx.ofHex_iff _ _ _).mpr ⟨_, hspells, rfl⟩, ?_⟩
  exact not_runSafe_height (by decide) (by decide) lockupCrypto_key (by decide) lockupCrypto_addr

end Boltz
