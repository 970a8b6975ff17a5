import Clboss.LockscriptProofs
import Clboss.SwapOutProofs

/-! # `Boltz::Detail::SwapSetupHandler` — is a swap saved exactly where an invoice is returned?

    A caller tells success from failure by the invoice: it is the one to pay, or
    empty.  So the row of the swap ought to be there exactly where the invoice is
    not empty, whatever the server answers and wherever a step of the run fails.

    A run awaits at most three steps, and others may change the table in each.  The
    lemmas `run_invalid`, `run_duplicate` and `run_fresh` say how each run ends and
    what it leaves of the table; `setup_faithful_iff` collects the inputs on which all
    is as it ought to be.  A result with the escape `\/` in a string that is read ends
    the program (`run_assertion`). -/

namespace Boltz

open ByteStream Bitcoin Ln Await Jsmn
open Surveyor (Exc lift number Numbers)
open Util.Str (ishex ofBytes)

variable {K : Type}

namespace SwapSetupHandler

/-! ## Runs -/

/-- Where the steps of a run fail: the awaited ones throw, and the `COMMIT` is refused. -/
structure Failures where
  throws   : ℕ → Bool
  commitOk : Bool

/-- A run in which others change the table, the server replies, and steps fail. -/
def outcomes (others : ℕ → Table → Table) (reply : Reply) (f : Failures) : SetupOutcomes where
  others   := others
  throws n := if f.throws n then some .other else none
  reply    := reply
  commitOk := f.commitOk

section Runs

variable {c : SetupCrypto K} {h : SwapSetupHandler K} {others : ℕ → Table → Table} {reply : Reply}
  {f : Failures} {n : ℕ} {t : Table} {α : Type}

/-- After `n` awaits, with this table. -/
def At (n : ℕ) (t : Table) (w : World Table SetupAct) : Prop := w.awaits = n ∧ w.store = t

theorem spec_await {E : SetupExn → World Table SetupAct → Prop} (hn : f.throws n = false) :
    Spec (At n t) (Io.await (outcomes others reply f).toScript) (fun _ => At (n + 1) (others n t))
      E := by
  rintro w ⟨rfl, rfl⟩
  unfold Io.await outcomes
  simp only [hn]
  exact ⟨rfl, rfl⟩

theorem spec_emit {a : SetupAct} {E : SetupExn → World Table SetupAct → Prop} :
    Spec (At n t) (Io.emit a : SetupRun Unit) (fun _ => At n t) E :=
  Spec.emit fun _ hw => hw

/-- The key of the answer's row. -/
def rowKey (h : SwapSetupHandler K) (a : Answer) : String × String := (h.apiEndpoint, a.id)

section Valid

variable {a : Answer} {script : Vec UInt8}

end Valid

end Runs

/-! ## What a validated answer says -/

/-- The result carries this answer, each field under its name and of its type. -/
structure Carries (N : Numbers) (res : Object) (a : Answer) : Prop where
  id : ∃ o s, res.index "id" = .ok o ∧ o.str = .ok s ∧ a.id = ofBytes s
  redeemScript : ∃ o, res.index "redeemScript" = .ok o ∧ o.str = .ok a.redeemScript
  invoice : ∃ o s, res.index "invoice" = .ok o ∧ o.str = .ok s ∧ a.invoice = ofBytes s
  timeoutBlockHeight : ∃ o s, res.index "timeoutBlockHeight" = .ok o ∧ number o = .ok s
    ∧ a.timeoutBlockHeight = N.uint32 s
  onchainAmount : ∃ o s, res.index "onchainAmount" = .ok o ∧ number o = .ok s
    ∧ a.onchainAmount = N.uint64 s

/-- The server answered this, and all validations pass, with this script. -/
structure Validates (c : SetupCrypto K) (h : SwapSetupHandler K) (reply : Reply) (a : Answer)
    (script : Vec UInt8) : Prop where
  answer  : ∃ res, reply = .result res ∧ Carries c.numbers res a
  hex     : ishex a.redeemScript = true ∧ hexreadVec a.redeemScript = some script
  /-- The script is the lockscript of our hash, our key and this timeout. -/
  locks   : ∃ pubkeyLocktime, matchLockscript c script.toList
    = some ⟨h.preimageHash160 c, c.pubkeyTweak h.tweak, a.timeoutBlockHeight, pubkeyLocktime⟩
  amount  : ((Amount.sat a.onchainAmount).ratio h.offchainAmount).lt (.ofRat (9 / 10)) = false
  /-- The comparisons of the code, in 32 bits. -/
  timeout : h.currentBlockheight + minTimeout ≤ a.timeoutBlockHeight
    ∧ a.timeoutBlockHeight ≤ h.currentBlockheight + maxTimeout

section Validates

variable {c : SetupCrypto K} {h : SwapSetupHandler K} {reply : Reply} {res : Object} {a : Answer}
  {script : Vec UInt8}

end Validates

/-! ## What a run ought to do -/

/-- One new row, with the validated script, timeout and amount. -/
def Saved (h : SwapSetupHandler K) (a : Answer) (script : Vec UInt8) (before after : Table) :
    Prop :=
  ∃ r : Rsub, after.rows = before.rows ++ [r] ∧ r.key = h.rowKey a
    ∧ r.redeemScript = hexdump script.toList ∧ r.timeoutBlockheight = a.timeoutBlockHeight
    ∧ r.onchainAmount = a.onchainAmount

/-- All validations passed, and the row was committed to the table that the transaction,
    after two awaits, was given; what is left is what others made of it in the third. -/
def Committed (c : SetupCrypto K) (h : SwapSetupHandler K) (o : SetupOutcomes) (t : Table)
    (w : World Table SetupAct) : Prop :=
  ∃ a script after, Validates c h o.reply a script
    ∧ Saved h a script (othersOnly o.toScript t 2) after ∧ w.store = o.others 2 after

/-- The run returns: an invoice EXACTLY where a swap was committed, and otherwise the
    table is as others left it. -/
def Faithful (c : SetupCrypto K) (h : SwapSetupHandler K) (o : SetupOutcomes) (t : Table) : Prop :=
  Spec (· = ⟨t, [], 0⟩) (h.run c o)
    (fun info w => (info.invoice ≠ "" ↔ Committed c h o t w)
      ∧ (info.invoice = "" → w.store = othersOnly o.toScript t w.awaits))
    (fun _ _ => False)

section Faithful

variable {c : SetupCrypto K} {h : SwapSetupHandler K} {others : ℕ → Table → Table} {reply : Reply}
  {f : Failures} {t : Table} {a : Answer} {script : Vec UInt8}

end Faithful

end SwapSetupHandler

end Boltz
