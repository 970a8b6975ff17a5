import Clboss.AmountArithProofs
import Clboss.ClaimTxProofs
import Clboss.SurveyorProofs

/-! # `Boltz::Detail::SwapSetupHandler` — what is agreed with the server

    The handler picks a preimage, asks the server for a swap of its hash, reads
    the JSON it is answered and checks what it has read: the redeem script must be
    OUR lockscript, the onchain amount at least nine tenths of the offchain amount,
    the timeout neither too near nor too far.  Of the INVOICE it looks at nothing:
    `setup_accepts` is all that a non-empty invoice says. -/

namespace Ln.Amount

/-- `operator std::string`. -/
def text (a : Amount) : String := ToString.toString a.v ++ "msat"

end Ln.Amount

namespace Boltz

open ByteStream Bitcoin Ln Await Jsmn
open Surveyor (Exc lift number Numbers)
open Util.Str (ishex ofBytes)

/-! ## The lockscript -/

/-- `Ripemd160::Hash`. -/
structure Hash160 where
  d      : List UInt8
  length : d.length = 20
deriving DecidableEq

/-- The 33 bytes of a `Secp256k1::PubKey`. -/
structure PubKey where
  d      : List UInt8
  length : d.length = 33
deriving DecidableEq

/-- What the handler calls beside the `Crypto` of a claim. -/
structure SetupCrypto (K : Type) extends Crypto K where
  /-- `Ripemd160::Hasher` over all of its input -/
  ripemd160 : List UInt8 → Hash160
  /-- `get_pubkey_tweak` -/
  pubkeyTweak : K → PubKey
  /-- `PubKey::from_buffer` accepts the bytes -/
  isPubKey : PubKey → Bool
  /-- `PrivKey::operator std::string` -/
  privKeyText : K → String
  /-- the casts of a JSON number -/
  numbers : Numbers

variable {K : Type}

/-- What `match_lockscript` finds in a script. -/
structure Lockscript where
  hash           : Hash160
  pubkeyHash     : PubKey
  locktime       : UInt32
  pubkeyLocktime : PubKey
deriving DecidableEq

/-- The `Reader` of `match_lockscript`; both exceptions are `none`. -/
abbrev ScriptReader := StateT (List UInt8) Option

/-- `get`, `n` times. -/
def ScriptReader.get (n : Nat) : ScriptReader { l : List UInt8 // l.length = n } := fun bs =>
  if h : n ≤ bs.length then some (⟨bs.take n, by rw [List.length_take]; omega⟩, bs.drop n)
  else none

/-- `expect`, for one byte after the other. -/
def ScriptReader.expect (v : List UInt8) : ScriptReader Unit := do
  let bs ← ScriptReader.get v.length
  if bs.1 = v then pure () else failure

/-- `get` into a buffer and `PubKey::from_buffer`. -/
def ScriptReader.pubKey (c : SetupCrypto K) : ScriptReader PubKey := do
  let bs ← ScriptReader.get 33
  if c.isPubKey ⟨bs.1, bs.2⟩ then pure ⟨bs.1, bs.2⟩ else failure

/-- Three bytes, little-endian. -/
def locktimeOf (bs : List UInt8) : UInt32 :=
  (bs.getD 0 0).toUInt32 ||| ((bs.getD 1 0).toUInt32 <<< 8) ||| ((bs.getD 2 0).toUInt32 <<< 16)

/-- The body of `match_lockscript`. -/
def lockscript (c : SetupCrypto K) : ScriptReader Lockscript := do
  .expect [0x82, 0x01, 0x20, 0x87, 0x63, 0xa9, 0x14]
  let hash ← .get 20
  .expect [0x88, 0x21]
  let pubkeyHash ← .pubKey c
  .expect [0x67, 0x75, 0x03]
  let locktime ← .get 3
  .expect [0xb1, 0x75, 0x21]
  let pubkeyLocktime ← .pubKey c
  .expect [0x68, 0xac]
  return ⟨⟨hash.1, hash.2⟩, pubkeyHash, locktimeOf locktime.1, pubkeyLocktime⟩

/-- `match_lockscript`, with `expect_end`. -/
def matchLockscript (c : SetupCrypto K) (script : List UInt8) : Option Lockscript :=
  match lockscript c script with
  | some (found, []) => some found
  | _                => none

/-! ## The handler -/

/-- The members given to or drawn by the constructor. -/
structure SwapSetupHandler (K : Type) where
  apiEndpoint        : String
  destinationAddress : String
  offchainAmount     : Amount
  currentBlockheight : UInt32
  tweak              : K
  preimage           : Hash

namespace SwapSetupHandler

/-- `preimageHash`, of the real preimage. -/
def preimageHash (c : SetupCrypto K) (h : SwapSetupHandler K) : Hash :=
  c.sha256 (computePreimage c.toCrypto h.preimage).d

/-- `preimageHash160`. -/
def preimageHash160 (c : SetupCrypto K) (h : SwapSetupHandler K) : Hash160 :=
  c.ripemd160 (h.preimageHash c).d

end SwapSetupHandler

/-- The parameters of `/createswap` that are not constant. -/
structure CreateSwap where
  invoiceAmount  : UInt64
  preimageHash   : Hash
  claimPublicKey : PubKey
deriving DecidableEq

/-- What the handler asks for, in WHOLE satoshis. -/
def SwapSetupHandler.request (c : SetupCrypto K) (h : SwapSetupHandler K) : CreateSwap :=
  ⟨h.offchainAmount.toSat, h.preimageHash c, c.pubkeyTweak h.tweak⟩

/-- What is read of the server's answer. -/
structure Answer where
  id                 : String
  /-- The text of the script. -/
  redeemScript       : List UInt8
  invoice            : String
  timeoutBlockHeight : UInt32
  onchainAmount      : UInt64
deriving DecidableEq

/-- A text of the answer. -/
def readText (res : Object) (key : String) : Except Exc (List UInt8) := do
  let o ← lift (res.index key)
  lift o.str

/-- A number of the answer, before the casts. -/
def readNumber (res : Object) (key : String) : Except Exc (List UInt8) := do
  let o ← lift (res.index key)
  number o

/-- The `try` block: the fields that are read of the result. -/
def readAnswer (N : Numbers) (res : Object) : Except Exc Answer := do
  let id ← readText res "id"
  let redeemScript ← readText res "redeemScript"
  let invoice ← readText res "invoice"
  let timeoutBlockHeight ← readNumber res "timeoutBlockHeight"
  let onchainAmount ← readNumber res "onchainAmount"
  return ⟨ofBytes id, redeemScript, ofBytes invoice, N.uint32 timeoutBlockHeight,
    N.uint64 onchainAmount⟩

/-- What `/createswap` gives: `ApiError`, or the result. -/
inductive Reply where
  | apiError
  | result (res : Object)

/-- What is made of a reply: no answer, a result without some field or with one of another
    type, a failed assertion, or an answer. -/
inductive Reply.Reading where
  | apiError
  | malformed (res : Object)
  | assertion
  | answer (a : Answer)

/-- A `TypeError` is caught, and its handler prints the result; what the strings of the
    result can reach besides is an assertion. -/
def Reply.read (N : Numbers) : Reply → Reply.Reading
  | .apiError   => .apiError
  | .result res =>
      match readAnswer N res with
      | .ok a             => .answer a
      | .error .typeError => if res.prints then .malformed res else .assertion
      | .error _          => .assertion

theorem readText_of_prints {res : Object} (h : res.prints = true) (key : String) :
    readText res key = .error .typeError ∨ ∃ s, readText res key = .ok s := by
  unfold readText
  rcases Object.index_of_prints h key with hindex | ⟨o, hindex, ho⟩
  · left
    rw [hindex]
    rfl
  · rw [hindex]
    rcases Object.str_of_prints ho with hstr | ⟨s, hstr⟩
    · left
      show lift o.str = _
      rw [hstr]
      rfl
    · right
      refine ⟨s, ?_⟩
      show lift o.str = _
      rw [hstr]
      rfl

theorem readNumber_of_prints {res : Object} (h : res.prints = true) (key : String) :
    readNumber res key = .error .typeError ∨ ∃ s, readNumber res key = .ok s := by
  unfold readNumber
  rcases Object.index_of_prints h key with hindex | ⟨o, hindex, -⟩
  · left
    rw [hindex]
    rfl
  · rw [hindex]
    show number o = _ ∨ ∃ s, number o = _
    unfold number
    split
    · split
      · exact Or.inl rfl
      · exact Or.inr ⟨_, rfl⟩
    · exact Or.inl rfl

/-- **SPEC**: a result whose strings can be printed is read without an assertion. -/
theorem read_of_prints (N : Numbers) {res : Object} (h : res.prints = true) :
    (Reply.result res).read N ≠ .assertion := by
  have hread : readAnswer N res = .error .typeError ∨ ∃ a, readAnswer N res = .ok a := by
    unfold readAnswer
    rcases readText_of_prints h "id" with h1 | ⟨id, h1⟩
    · exact Or.inl (by rw [h1]; rfl)
    rcases readText_of_prints h "redeemScript" with h2 | ⟨redeemScript, h2⟩
    · exact Or.inl (by rw [h1, h2]; rfl)
    rcases readText_of_prints h "invoice" with h3 | ⟨invoice, h3⟩
    · exact Or.inl (by rw [h1, h2, h3]; rfl)
    rcases readNumber_of_prints h "timeoutBlockHeight" with h4 | ⟨timeout, h4⟩
    · exact Or.inl (by rw [h1, h2, h3, h4]; rfl)
    rcases readNumber_of_prints h "onchainAmount" with h5 | ⟨onchain, h5⟩
    · exact Or.inl (by rw [h1, h2, h3, h4, h5]; rfl)
    · exact Or.inr ⟨_, by rw [h1, h2, h3, h4, h5]; rfl⟩
  unfold Reply.read
  rcases hread with hread | ⟨a, hread⟩
  · simp [hread, h]
  · simp [hread]

/-- `min_timeout`. -/
def minTimeout : UInt32 := 12

/-- `max_timeout`. -/
def maxTimeout : UInt32 := 288

/-- The script is our lockscript: our hash, our key, the timeout of the answer. -/
def SwapSetupHandler.locks (c : SetupCrypto K) (h : SwapSetupHandler K) (a : Answer)
    (script : List UInt8) : Bool :=
  match matchLockscript c script with
  | none   => false
  | some l => l.hash = h.preimageHash160 c && l.pubkeyHash = c.pubkeyTweak h.tweak
      && l.locktime = a.timeoutBlockHeight

/-- The checks on the amount and the timeout, with the text logged for the first that
    fails. -/
def SwapSetupHandler.checkTerms (h : SwapSetupHandler K) (a : Answer) : Option String :=
  if ((Amount.sat a.onchainAmount).ratio h.offchainAmount).lt (.ofRat (9 / 10)) then
    some ("Onchain amount " ++ toString a.onchainAmount
      ++ " too low compared to offchain amount " ++ h.offchainAmount.text)
  else if h.currentBlockheight + minTimeout > a.timeoutBlockHeight
      || h.currentBlockheight + maxTimeout < a.timeoutBlockHeight then
    some ("Timeout " ++ toString a.timeoutBlockHeight ++ " " ++ "is not within "
      ++ toString minTimeout ++ " -> " ++ toString maxTimeout ++ " "
      ++ "blocks of current height " ++ toString h.currentBlockheight ++ ".")
  else none

/-- All the checks on an answer: its script, or the text logged.  `hexread` does not
    throw where `ishex` holds. -/
def SwapSetupHandler.validate (c : SetupCrypto K) (h : SwapSetupHandler K) (a : Answer) :
    Except String (Vec UInt8) :=
  match ishex a.redeemScript, hexreadVec a.redeemScript with
  | true, some script =>
      if h.locks c a script.toList then
        match h.checkTerms a with
        | none     => .ok script
        | some msg => .error msg
      else .error ("invalid redeemScript: " ++ ofBytes a.redeemScript)
  | _, _ => .error ("invalid redeemScript: " ++ ofBytes a.redeemScript)

/-- `SwapInfo`. -/
structure SwapInfo where
  invoice : String
  hash    : Hash
  timeout : UInt32
deriving DecidableEq

/-- What can stop the handler: its own `Fail`, `ApiError`, any other exception, or a failed
    assertion, with which the program ends. -/
inductive SetupExn where
  | fail
  | apiError
  | other
  | assertion
deriving DecidableEq

/-- What others can see of it. -/
inductive SetupAct where
  | createswap (request : CreateSwap)
  | logd (msg : String)
  | loge (msg : String)
  /-- A `loge`, with the result printed behind the message. -/
  | logeResult (msg : String) (res : Object)

/-- The outcomes of its awaited steps. -/
structure SetupOutcomes extends Script Table SetupExn where
  reply    : Reply
  commitOk : Bool

/-- Programs of the handler. -/
abbrev SetupRun (α : Type) := Io Table SetupAct SetupExn α

namespace SwapSetupHandler

/-- `prefixlog`; the id of the swap is known once the answer is validated. -/
def prefixlog (h : SwapSetupHandler K) (swapId : Option String) (msg : String) : String :=
  "Boltz::Service(\"" ++ h.apiEndpoint ++ "\"): "
    ++ (match swapId with
      | none    => ""
      | some id => "\"" ++ id ++ "\": ")
    ++ msg

def logd (h : SwapSetupHandler K) (o : SetupOutcomes) (swapId : Option String) (msg : String) :
    SetupRun Unit := do
  Io.emit (.logd <| h.prefixlog swapId msg)
  Io.await o.toScript

def loge (h : SwapSetupHandler K) (o : SetupOutcomes) (swapId : Option String) (msg : String) :
    SetupRun Unit := do
  Io.emit (.loge <| h.prefixlog swapId msg)
  Io.await o.toScript

def logeResult (h : SwapSetupHandler K) (o : SetupOutcomes) (res : Object) : SetupRun Unit := do
  Io.emit (.logeResult (h.prefixlog none "Unexpected result from service: ") res)
  Io.await o.toScript

/-- A log line, then `throw Fail()`. -/
def failAfter {α : Type} (log : SetupRun Unit) : SetupRun α := do
  log
  Io.throw .fail

/-- The row to insert. -/
def row (c : SetupCrypto K) (h : SwapSetupHandler K) (a : Answer) (script : Vec UInt8) : Rsub where
  apiAccess             := h.apiEndpoint
  tweak                 := c.privKeyText h.tweak
  preimage              := hexdump h.preimage.d
  destinationAddress    := h.destinationAddress
  swapId                := a.id
  redeemScript          := hexdump script.toList
  timeoutBlockheight    := a.timeoutBlockHeight
  onchainAmount         := (Amount.sat a.onchainAmount).toSat
  lockedUp              := false
  lockupTxid            := none
  lockupOut             := none
  lockupConfirmedHeight := none
  lockupClaimFees       := none

/-- The transaction that saves the swap. -/
def save (c : SetupCrypto K) (h : SwapSetupHandler K) (o : SetupOutcomes) (a : Answer)
    (script : Vec UInt8) : SetupRun Unit := do
  Io.await o.toScript
  let t ← Io.read
  if t.get (h.apiEndpoint, a.id) ≠ none then
    failAfter (h.loge o (some a.id) "id already exists??")
  else if o.commitOk then
    Io.write (·.insertOrIgnore (h.row c a script))
    h.logd o (some a.id) ("Swap created: " ++ a.invoice)
  else
    -- a refused `COMMIT` rolls the insertion back and throws
    Io.throw .other

/-- What the handler does with the reply. -/
def onReply (c : SetupCrypto K) (h : SwapSetupHandler K) (o : SetupOutcomes) : SetupRun SwapInfo :=
  match o.reply.read c.numbers with
  | .apiError      => Io.throw .apiError
  | .malformed res => failAfter (h.logeResult o res)
  | .assertion     => Io.throw .assertion
  | .answer a      =>
      match h.validate c a with
      | .error msg => failAfter (h.loge o none msg)
      | .ok script => do
          h.save c o a script
          return ⟨a.invoice, h.preimageHash c, a.timeoutBlockHeight⟩

/-- `run`. -/
def run (c : SetupCrypto K) (h : SwapSetupHandler K) (o : SetupOutcomes) : SetupRun SwapInfo :=
  Io.catching
    (do
      Io.emit (.createswap (h.request c))
      Io.await o.toScript
      h.onReply c o)
    (fun
      | .fail      => some (pure ⟨"", h.preimageHash c, 0⟩)
      | .apiError  => some (do
          h.loge o none "Failed to access API endpoint."
          return ⟨"", h.preimageHash c, 0⟩)
      | .other     => none
      | .assertion => none)

/-! ## What a non-empty invoice says -/

/-- The answer passed every check, and this is what came of it. -/
def Accepts (c : SetupCrypto K) (h : SwapSetupHandler K) (o : SetupOutcomes) (info : SwapInfo) :
    Prop :=
  ∃ a script, o.reply.read c.numbers = .answer a ∧ h.validate c a = .ok script
    ∧ info = ⟨a.invoice, h.preimageHash c, a.timeoutBlockHeight⟩

theorem failAfter_accepts (c : SetupCrypto K) (h : SwapSetupHandler K) (o : SetupOutcomes)
    (log : SetupRun Unit) : Spec (fun _ => True) (failAfter log : SetupRun SwapInfo)
      (fun info _ => Accepts c h o info) (fun _ _ => True) := by
  exact Spec.bind (Spec.trivial log) (fun _ => Spec.throw fun _ _ => True.intro)

theorem onReply_accepts (c : SetupCrypto K) (h : SwapSetupHandler K) (o : SetupOutcomes) :
    Spec (fun _ => True) (h.onReply c o) (fun info _ => Accepts c h o info)
      (fun _ _ => True) := by
  unfold onReply
  split
  · exact Spec.throw fun _ _ => True.intro
  · exact failAfter_accepts c h o _
  · exact Spec.throw fun _ _ => True.intro
  next a ha =>
    split
    · exact failAfter_accepts c h o _
    next script hv =>
      exact Spec.bind (Spec.trivial _) (fun _ => Spec.pure fun _ _ => ⟨a, script, ha, hv, rfl⟩)

/-- A run that returns an invoice has validated the answer, apart from the invoice. -/
theorem setup_accepts (c : SetupCrypto K) (h : SwapSetupHandler K) (o : SetupOutcomes) :
    Spec (fun _ => True) (h.run c o) (fun info _ => info.invoice ≠ "" → Accepts c h o info)
      (fun _ _ => True) := by
  refine Spec.catching (F := fun _ _ => True) ?_ ?_ (fun _ _ _ _ => True.intro)
  · refine Spec.bind (Spec.trivial _) (fun _ => ?_)
    refine Spec.bind (Spec.trivial _) (fun _ => ?_)
    intro w hw
    have := onReply_accepts c h o w hw
    split at this
    · exact fun _ => this
    · exact True.intro
  · intro e handler he
    cases e with
    | fail =>
        cases he
        exact Spec.pure fun _ _ hne => absurd rfl hne
    | apiError =>
        cases he
        exact Spec.bind (Spec.trivial _) (fun _ => Spec.pure fun _ _ hne => absurd rfl hne)
    | other     => cases he
    | assertion => cases he

/-- Where nothing throws and nobody interferes, a valid answer is all it takes. -/
theorem run_of_valid {c : SetupCrypto K} {h : SwapSetupHandler K} {reply : Reply} {a : Answer}
    {t : Table} {script : Vec UInt8} (hread : reply.read c.numbers = .answer a)
    (hv : h.validate c a = .ok script) (hid : t.get (h.apiEndpoint, a.id) = none) :
    (h.run c ⟨⟨fun _ t => t, fun _ => none⟩, reply, true⟩ ⟨t, [], 0⟩).1
      = .ok ⟨a.invoice, h.preimageHash c, a.timeoutBlockHeight⟩ := by
  simp [run, onReply, hread, hv, save, hid, logd, Io.catching, Io.emit, Io.await, Io.read, Io.write,
    bind, Io.bind, pure, Io.pure]

end SwapSetupHandler

end Boltz
