import Clboss.DecimalProofs
import Clboss.JsmnObjectProofs
import Clboss.NodeIdProofs
import Clboss.WeightedMedianProofs

/-! # `Surveyor` — the fees that others charge towards a peer

    One `listchannels` answer is walked channel by channel; the fees of every channel
    that is not our own go into two weighted medians.  A channel that throws
    `TypeError` ends the walk with a line in the log, and what was sampled before it
    is reported.

    `one_channel` counts its sample BEFORE it has read one.  So a first channel
    whose fees do not read is a sample that no median has, and `finalize` throws
    what nobody catches.  Neither does anybody catch the node id that is none, the
    amount that is none, and the total weight that nothing exceeds.  `Regular` lists
    the answers without any of this, and the survey is right for exactly those. -/

open Decimals (isDigit)
open Jsmn Ln Stats WeightedMedian

namespace Surveyor

/-- Fees are compared by value. -/
instance feeOrder : LinearOrder UInt32 where
  le_refl          := UInt32.le_refl
  le_trans _ _ _   := UInt32.le_trans
  le_antisymm _ _  := UInt32.le_antisymm
  le_total         := UInt32.le_total
  lt_iff_le_not_ge _ _ := by
    rw [UInt32.not_le]
    exact ⟨fun h => ⟨UInt32.le_of_lt h, h⟩, fun h => h.2⟩
  toDecidableLE    := inferInstance

/-! ## What can go wrong -/

/-- What leaves a function by another way than its result. -/
inductive Exc where
  | typeError
  /-- `std::range_error`, of a text that is no node id. -/
  | rangeError
  /-- `std::invalid_argument`, of a value that is no amount. -/
  | invalidArgument
  | noSamples
  /-- A failed assertion: the program ends. -/
  | assertion
deriving DecidableEq

/-- An accessor's failure as an exception. -/
def lift {α : Type} : Except Failure α → Except Exc α
  | .ok a             => .ok a
  | .error .typeError => .error .typeError
  | .error .assertion => .error .assertion

/-! ## Numbers and amounts -/

/-- How the text of a number is read: `double`, cast to an integer. -/
structure Numbers where
  uint32 : List UInt8 → UInt32
  uint64 : List UInt8 → UInt64

/-- `operator double` up to the conversion: the text of a number. -/
def number (o : Object) : Except Exc (List UInt8) :=
  match o with
  | some (.prim t) =>
      if t.head? = some 'n'.toUInt8 ∨ t.head? = some 'f'.toUInt8 ∨ t.head? = some 't'.toUInt8 then
        .error .typeError
      else .ok t
  | _ => .error .typeError

/-- `Amount::valid_string`. -/
def validString (s : List UInt8) : Bool :=
  if s.length < 5 then false
  else if s.drop (s.length - 4) ≠ "msat".toUTF8.toList then false
  else if !(s.take (s.length - 4)).all isDigit then false
  else if 13 + 4 < s.length then false
  else true

/-- The digits that `operator>>` reads. -/
def digitsValue (s : List UInt8) : UInt64 := s.foldl (fun v c => 10 * v + (c - 48).toUInt64) 0

/-- `Amount(std::string const&)`. -/
def amountOfString (s : List UInt8) : Except Exc Amount :=
  if validString s then .ok ⟨digitsValue (s.take (s.length - 4))⟩ else .error .invalidArgument

/-- `Amount::object`. -/
def amountOfObject (N : Numbers) (o : Object) : Except Exc Amount :=
  if o.isNumber then do
    let t ← number o
    return Amount.msat (N.uint64 t)
  else if o.isString then do
    let s ← lift o.str
    amountOfString s
  else .error .invalidArgument

/-! ## One channel -/

/-- What is sampled of a channel. -/
structure Fees where
  base         : UInt32
  proportional : UInt32
  weight       : Amount

/-- The node under a key. -/
def node (key : String) (c : Object) : Except Exc NodeId := do
  let o ← lift (c.index key)
  let s ← lift o.str
  match NodeId.ofString s with
  | none      => .error .rangeError
  | some node => .ok node

/-- The node on the other side. -/
def source (c : Object) : Except Exc NodeId := node "source" c

def fees (N : Numbers) (c : Object) : Except Exc Fees := do
  let base ← lift (c.index "base_fee_millisatoshi")
  let base ← number base
  let proportional ← lift (c.index "fee_per_millionth")
  let proportional ← number proportional
  let weight ← lift (c.index "amount_msat")
  let weight ← amountOfObject N weight
  return ⟨N.uint32 base, N.uint32 proportional, weight⟩

end Surveyor

structure Surveyor where
  selfId        : NodeId
  peerId        : NodeId
  samples       : ℕ
  bases         : WeightedMedian UInt32 Amount
  proportionals : WeightedMedian UInt32 Amount

namespace Surveyor

/-- `create`. -/
def create (selfId peerId : NodeId) : Surveyor := ⟨selfId, peerId, 0, ⟨[], ⟨0⟩⟩, ⟨[], ⟨0⟩⟩⟩

/-- The handler for `TypeError` around a channel: the text to log shows the channel. -/
def caught (c : Object) (e : Exc) : Except Exc (Option Object) :=
  if e = .typeError then
    if c.prints then .ok (some c) else .error .assertion
  else .error e

/-- `one_channel`; its error text, empty for a channel that is fine, is about a channel. -/
def oneChannel (N : Numbers) (s : Surveyor) (c : Object) :
    Surveyor × Except Exc (Option Object) :=
  match source c with
  | .error e   => (s, caught c e)
  | .ok source =>
      if source = s.selfId then (s, .ok none)
      else
        let s := { s with samples := s.samples + 1 }
        match fees N c with
        | .error e => (s, caught c e)
        | .ok f    =>
            ({ s with
                bases         := s.bases.add amountWeights f.base f.weight
                proportionals := s.proportionals.add amountWeights f.proportional f.weight },
              .ok none)

/-! ## The walk -/

def batchSize : ℕ := 50

/-- One batch, with the channels that are left. -/
def batch (N : Numbers) :
    ℕ → Surveyor → List Object → Surveyor × List Object × Except Exc (Option Object)
  | 0, s, cs         => (s, cs, .ok none)
  | _ + 1, s, []     => (s, [], .ok none)
  | n + 1, s, c :: cs =>
      match oneChannel N s c with
      | (s, .ok none) => batch N n s cs
      | (s, r)        => (s, cs, r)

theorem length_batch (N : Numbers) (n : ℕ) (s : Surveyor) (c : Object) (cs : List Object) :
    (batch N (n + 1) s (c :: cs)).2.1.length ≤ cs.length := by
  induction n generalizing s c cs with
  | zero =>
      unfold batch
      split
      · exact le_of_eq rfl
      · exact le_rfl
  | succ n ih =>
      unfold batch
      split
      · rename_i s' _
        cases cs with
        | nil => exact le_rfl
        | cons c' cs => exact (ih s' c' cs).trans (Nat.le_succ _)
      · exact le_rfl

/-- `loop`: batch after batch, until the channels end or one of them is logged. -/
def loop (N : Numbers) (s : Surveyor) : List Object → Surveyor × Except Exc (Option Object)
  | []      => (s, .ok none)
  | c :: cs =>
      match (batch N batchSize s (c :: cs)).2.2 with
      | .ok none =>
          loop N (batch N batchSize s (c :: cs)).1 (batch N batchSize s (c :: cs)).2.1
      | r => ((batch N batchSize s (c :: cs)).1, r)
  termination_by cs => cs.length
  decreasing_by exact Nat.lt_succ_of_le (length_batch N 49 s c cs)

/-- The `channels` of an answer; an answer without is logged. -/
def channels (answer : Object) : Except Exc (Option (List Object)) :=
  match answer.index "channels" with
  | .ok (some (.arr es)) => .ok (some (es.map some))
  | .error .assertion    => .error .assertion
  | _                    => if answer.prints then .ok none else .error .assertion

/-- `core_run`, from the outcome of `listchannels` on; a failure comes with the error object
    that is logged. -/
def coreRun (N : Numbers) (s : Surveyor) (outcome : Except Object Object) :
    Surveyor × Except Exc Unit :=
  match outcome with
  | .error e   => (s, if e.prints then .ok () else .error .assertion)
  | .ok answer =>
      match channels answer with
      | .error e        => (s, .error e)
      | .ok none        => (s, .ok ())
      | .ok (some cs)   => ((loop N s cs).1, (loop N s cs).2.map (fun _ => ()))

structure Result where
  peerId             : NodeId
  medianBase         : UInt32
  medianProportional : UInt32

/-- `extract`; there may be nothing to report. -/
def extract (sorting : Sorting UInt32 Amount) (s : Surveyor) : Except Exc (Option Result) :=
  if s.samples = 0 then .ok none
  else
    match s.bases.finalize amountWeights sorting with
    | none            => .error .noSamples
    | some medianBase =>
        match s.proportionals.finalize amountWeights sorting with
        | none                    => .error .noSamples
        | some medianProportional => .ok (some ⟨s.peerId, medianBase, medianProportional⟩)

/-- `run`. -/
def run (N : Numbers) (sorting : Sorting UInt32 Amount) (s : Surveyor)
    (outcome : Except Object Object) : Except Exc (Option Result) :=
  match coreRun N s outcome with
  | (_, .error e) => .error e
  | (s, .ok ())   => extract sorting s

/-! ## Without batches -/

/-- The walk in one go. -/
def each (N : Numbers) : Surveyor → List Object → Surveyor × Except Exc (Option Object)
  | s, []      => (s, .ok none)
  | s, c :: cs =>
      match oneChannel N s c with
      | (s, .ok none) => each N s cs
      | r             => r

theorem each_batch (N : Numbers) (n : ℕ) (s : Surveyor) (cs : List Object) :
    each N s cs = match (batch N n s cs).2.2 with
      | .ok none => each N (batch N n s cs).1 (batch N n s cs).2.1
      | r        => ((batch N n s cs).1, r) := by
  induction n generalizing s cs with
  | zero => rfl
  | succ n ih =>
      cases cs with
      | nil => rfl
      | cons c cs =>
          rw [each, batch]
          rcases oneChannel N s c with ⟨s', e | _ | c'⟩
          · rfl
          · exact ih s' cs
          · rfl

/-- The batches make no difference. -/
theorem loop_eq_each (N : Numbers) (s : Surveyor) (cs : List Object) : loop N s cs = each N s cs := by
  induction s, cs using loop.induct N with
  | case1 s => rw [loop, each]
  | case2 s c cs hok ih =>
      rw [loop, each_batch N batchSize s (c :: cs), hok]
      exact ih
  | case3 s c cs hne =>
      rw [loop, each_batch N batchSize s (c :: cs)]
      rcases hr : (batch N batchSize s (c :: cs)).2.2 with e | _ | c'
      · rfl
      · exact absurd hr hne
      · rfl

/-! ## The channels of an answer -/

/-- What a channel is to the survey. -/
inductive Kind where
  | own
  | foreign (f : Fees)
  /-- The other side does not read. -/
  | unread (e : Exc)
  /-- The other side is foreign, and the fees do not read. -/
  | unpriced (e : Exc)

def kind (N : Numbers) (selfId : NodeId) (c : Object) : Kind :=
  match source c with
  | .error e   => .unread e
  | .ok source =>
      if source = selfId then .own
      else
        match fees N c with
        | .error e => .unpriced e
        | .ok f    => .foreign f

/-- The fees of the well-formed foreign channels before the first that is not well-formed. -/
def processed (N : Numbers) (selfId : NodeId) : List Object → List Fees
  | []      => []
  | c :: cs =>
      match kind N selfId c with
      | .own        => processed N selfId cs
      | .foreign f  => f :: processed N selfId cs
      | .unread _   => []
      | .unpriced _ => []

/-- The first channel that is not well-formed, whether it was counted as a sample, and how it
    failed. -/
def stop (N : Numbers) (selfId : NodeId) : List Object → Option (Object × Bool × Exc)
  | []      => none
  | c :: cs =>
      match kind N selfId c with
      | .own        => stop N selfId cs
      | .foreign _  => stop N selfId cs
      | .unread e   => some (c, false, e)
      | .unpriced e => some (c, true, e)

/-- The channels that are walked; none where there is no answer to walk. -/
def listed (outcome : Except Object Object) : List Object :=
  match outcome with
  | .error _   => []
  | .ok answer =>
      match answer.index "channels" with
      | .ok (some (.arr es)) => es.map some
      | _                    => []

/-- The base fees with their weights, to be sampled. -/
def baseEntries (fs : List Fees) : List (Entry UInt32 Amount) := fs.map (fun f => ⟨f.base, f.weight⟩)

/-- The proportional fees with their weights, to be sampled. -/
def proportionalEntries (fs : List Fees) : List (Entry UInt32 Amount) :=
  fs.map (fun f => ⟨f.proportional, f.weight⟩)

/-- The weight of the channels. -/
def weightOf (fs : List Fees) : ℕ := (fs.map (fun f => f.weight.v.toNat)).sum

/-- What there is to report of the fees `fs`: their medians, or nothing if there are none. -/
def Reports (peerId : NodeId) (fs : List Fees) (res : Option Result) : Prop :=
  match res with
  | none   => fs = []
  | some r => r.peerId = peerId
      ∧ IsMedian (weighed amountWeights (baseEntries fs)) r.medianBase
      ∧ IsMedian (weighed amountWeights (proportionalEntries fs)) r.medianProportional

/-- What the survey is for: it comes to its end, with a report of just the well-formed foreign
    channels that were processed. -/
def Surveys (N : Numbers) (sorting : Sorting UInt32 Amount) (selfId peerId : NodeId)
    (outcome : Except Object Object) : Prop :=
  ∃ res, run N sorting (create selfId peerId) outcome = .ok res
    ∧ Reports peerId (processed N selfId (listed outcome)) res

/-- An answer that is logged, if it has to be. -/
def Loggable (outcome : Except Object Object) : Prop :=
  match outcome with
  | .error e   => e.prints = true
  | .ok answer =>
      match answer.index "channels" with
      | .ok (some (.arr _)) => True
      | .error .assertion   => False
      | _                   => answer.prints = true

/-- No answer out of the ordinary. -/
structure Regular (N : Numbers) (selfId : NodeId) (outcome : Except Object Object) : Prop where
  loggable : Loggable outcome
  /-- What ends the walk is a `TypeError` about a channel that can be shown; and if the channel
      was counted, there is another one behind the count. -/
  stops    : ∀ c counted e, stop N selfId (listed outcome) = some (c, counted, e) →
    e = .typeError ∧ c.prints = true
      ∧ (counted = true → processed N selfId (listed outcome) ≠ [])
  /-- There is weight, and less than the largest amount. -/
  weight   : processed N selfId (listed outcome) ≠ [] →
    0 < weightOf (processed N selfId (listed outcome))
      ∧ weightOf (processed N selfId (listed outcome)) < 2 ^ 64 - 1

/-! ## The walk, channel by channel -/

/-- One more sample. -/
def sample (s : Surveyor) (f : Fees) : Surveyor :=
  { s with
    samples       := s.samples + 1
    bases         := s.bases.add amountWeights f.base f.weight
    proportionals := s.proportionals.add amountWeights f.proportional f.weight }

/-- **SPEC** of `one_channel`. -/
theorem oneChannel_eq (N : Numbers) (s : Surveyor) (c : Object) :
    oneChannel N s c = match kind N s.selfId c with
      | .own        => (s, .ok none)
      | .foreign f  => (sample s f, .ok none)
      | .unread e   => (s, caught c e)
      | .unpriced e => ({ s with samples := s.samples + 1 }, caught c e) := by
  unfold oneChannel kind
  rcases source c with e | source
  · rfl
  · show (if source = s.selfId then _ else _) = _
    by_cases hown : source = s.selfId
    · simp only [if_pos hown]
    · simp only [if_neg hown]
      rcases fees N c with e | f
      · rfl
      · rfl

/-- A caught failure ends the walk. -/
theorem each_caught (N : Numbers) {s s' : Surveyor} {c : Object} {e : Exc} (cs : List Object)
    (h : oneChannel N s c = (s', caught c e)) : each N s (c :: cs) = (s', caught c e) := by
  rw [each, h]
  unfold caught
  by_cases htype : e = .typeError
  · rw [if_pos htype]
    cases c.prints with
    | true  => rfl
    | false => rfl
  · rw [if_neg htype]

/-- Both medians hold the fees `fs`. -/
structure Sampled (s : Surveyor) (fs : List Fees) : Prop where
  bases         : Holds amountWeights s.bases (baseEntries fs)
  proportionals : Holds amountWeights s.proportionals (proportionalEntries fs)

theorem Sampled.create (selfId peerId : NodeId) : Sampled (create selfId peerId) [] :=
  ⟨Holds.nil _, Holds.nil _⟩

/-- **STEP.** -/
theorem Sampled.sample {s : Surveyor} {fs : List Fees} (h : Sampled s fs) (f : Fees) :
    Sampled (sample s f) (fs ++ [f]) where
  bases := by
    unfold baseEntries
    rw [List.map_append]
    exact h.bases.add ⟨f.base, f.weight⟩
  proportionals := by
    unfold proportionalEntries
    rw [List.map_append]
    exact h.proportionals.add ⟨f.proportional, f.weight⟩

/-- A channel that is counted and not sampled. -/
def miscounted : Option (Object × Bool × Exc) → ℕ
  | some (_, true, _) => 1
  | _                 => 0

/-- How a walk over `cs` that began with `fs` ends. -/
structure Walked (N : Numbers) (s : Surveyor) (fs : List Fees) (cs : List Object)
    (p : Surveyor × Except Exc (Option Object)) : Prop where
  sampled : Sampled p.1 (fs ++ processed N s.selfId cs)
  peerId  : p.1.peerId = s.peerId
  samples : p.1.samples
    = s.samples + (processed N s.selfId cs).length + miscounted (stop N s.selfId cs)
  result  : p.2 = match stop N s.selfId cs with
    | none           => .ok none
    | some (c, _, e) => caught c e

/-- **RUN.** -/
theorem each_spec (N : Numbers) {s : Surveyor} {fs : List Fees} (h : Sampled s fs)
    (cs : List Object) : Walked N s fs cs (each N s cs) := by
  induction cs generalizing s fs with
  | nil => exact ⟨by simpa [each, processed] using h, rfl, rfl, rfl⟩
  | cons c cs ih =>
      have hone := oneChannel_eq N s c
      cases hkind : kind N s.selfId c with
      | own =>
          rw [hkind] at hone
          obtain ⟨hsampled, hpeer, hsamples, hresult⟩ := ih h
          constructor
          · rw [each, hone, processed, hkind]
            exact hsampled
          · rw [each, hone]
            exact hpeer
          · rw [each, hone, processed, stop, hkind]
            exact hsamples
          · rw [each, hone, stop, hkind]
            exact hresult
      | foreign f =>
          rw [hkind] at hone
          obtain ⟨hsampled, hpeer, hsamples, hresult⟩ := ih (h.sample f)
          constructor
          · rw [each, hone, processed, hkind]
            rw [List.append_assoc] at hsampled
            exact hsampled
          · rw [each, hone]
            exact hpeer
          · rw [each, hone, processed, stop, hkind]
            refine hsamples.trans ?_
            simp only [sample, List.length_cons]
            omega
          · rw [each, hone, stop, hkind]
            exact hresult
      | unread e =>
          rw [hkind] at hone
          rw [each_caught N cs hone]
          constructor
          · rw [processed, hkind, List.append_nil]
            exact h
          · rfl
          · rw [processed, stop, hkind]
            rfl
          · rw [stop, hkind]
      | unpriced e =>
          rw [hkind] at hone
          rw [each_caught N cs hone]
          constructor
          · rw [processed, hkind, List.append_nil]
            exact ⟨h.bases, h.proportionals⟩
          · rfl
          · rw [processed, stop, hkind]
            rfl
          · rw [stop, hkind]

/-! ## The end of the walk -/

/-- What a caught failure needs to be logged. -/
theorem map_caught (c : Object) (e : Exc) :
    (caught c e).map (fun _ => ()) = .ok () ↔ e = .typeError ∧ c.prints = true := by
  unfold caught
  by_cases htype : e = .typeError
  · rw [if_pos htype]
    cases hprints : c.prints with
    | true  => exact iff_of_true rfl ⟨htype, rfl⟩
    | false => exact iff_of_false (fun h => by cases h) (fun h => by cases h.2)
  · rw [if_neg htype]
    exact iff_of_false (fun h => by cases h) (fun h => htype h.1)

/-- How `core_run` ends. -/
structure Ran (N : Numbers) (selfId peerId : NodeId) (outcome : Except Object Object)
    (p : Surveyor × Except Exc Unit) : Prop where
  sampled : Sampled p.1 (processed N selfId (listed outcome))
  peerId  : p.1.peerId = peerId
  samples : p.1.samples = (processed N selfId (listed outcome)).length
    + miscounted (stop N selfId (listed outcome))
  ok_iff  : p.2 = .ok () ↔ Loggable outcome
    ∧ ∀ c counted e, stop N selfId (listed outcome) = some (c, counted, e) →
        e = .typeError ∧ c.prints = true

/-- Nothing is walked. -/
theorem Ran.of_listed_nil {N : Numbers} {selfId peerId : NodeId} {outcome : Except Object Object}
    {r : Except Exc Unit} (hlisted : listed outcome = []) (hr : r = .ok () ↔ Loggable outcome) :
    Ran N selfId peerId outcome (create selfId peerId, r) where
  sampled := by
    rw [hlisted]
    exact Sampled.create selfId peerId
  peerId  := rfl
  samples := by
    rw [hlisted]
    rfl
  ok_iff  := by
    rw [hlisted, hr]
    exact ⟨fun h => ⟨h, fun _ _ _ hstop => by cases hstop⟩, And.left⟩

/-- A choice on a `Bool`, as an answer is logged. -/
theorem ite_ok_iff {α : Type} (b : Bool) (a : α) (e : Exc) :
    (if b = true then Except.ok a else Except.error e) = .ok a ↔ b = true := by
  cases b with
  | true  => exact iff_of_true rfl rfl
  | false => exact iff_of_false (fun h => by cases h) (fun h => by cases h)

theorem coreRun_spec (N : Numbers) (selfId peerId : NodeId) (outcome : Except Object Object) :
    Ran N selfId peerId outcome (coreRun N (create selfId peerId) outcome) := by
  cases outcome with
  | error e => exact .of_listed_nil rfl (ite_ok_iff e.prints () .assertion)
  | ok answer =>
      have hlisted : listed (.ok answer) = match answer.index "channels" with
        | .ok (some (.arr es)) => es.map some
        | _                    => [] := rfl
      have hloggable : Loggable (.ok answer) ↔ match answer.index "channels" with
        | .ok (some (.arr _)) => True
        | .error .assertion   => False
        | _                   => answer.prints = true := Iff.rfl
      -- an answer without channels is logged, and that is all
      have hlogged : channels answer = (if answer.prints = true then .ok none else .error .assertion)
          → listed (.ok answer) = [] → (Loggable (.ok answer) ↔ answer.prints = true) →
          Ran N selfId peerId (.ok answer) (coreRun N (create selfId peerId) (.ok answer)) := by
        intro hchannels hnil hlog
        have hrun : coreRun N (create selfId peerId) (.ok answer)
            = (create selfId peerId, if answer.prints = true then .ok () else .error .assertion) := by
          unfold coreRun
          simp only [hchannels]
          cases answer.prints with
          | true  => rfl
          | false => rfl
        rw [hrun]
        exact .of_listed_nil hnil ((ite_ok_iff answer.prints () .assertion).trans hlog.symm)
      rcases hindex : answer.index "channels" with ⟨_ | _⟩ | _ | ⟨t⟩ | ⟨raw⟩ | ⟨es⟩ | ⟨ms⟩
      case error.typeError | ok.none | ok.some.prim | ok.some.str | ok.some.obj =>
        refine hlogged ?_ ?_ ?_
        · unfold channels
          rw [hindex]
        · rw [hlisted, hindex]
        · rw [hloggable, hindex]
      case error.assertion =>
        have hrun : coreRun N (create selfId peerId) (.ok answer)
            = (create selfId peerId, .error .assertion) := by
          unfold coreRun channels
          simp only [hindex]
        rw [hrun]
        refine .of_listed_nil (by rw [hlisted, hindex]) (iff_of_false (fun h => by cases h) ?_)
        rw [hloggable, hindex]
        exact id
      case ok.some.arr =>
        have hcs : listed (.ok answer) = es.map some := by rw [hlisted, hindex]
        have hrun : coreRun N (create selfId peerId) (.ok answer)
            = ((loop N (create selfId peerId) (es.map some)).1,
                (loop N (create selfId peerId) (es.map some)).2.map (fun _ => ())) := by
          unfold coreRun channels
          simp only [hindex]
        have hwalk := each_spec N (Sampled.create selfId peerId) (es.map some)
        rw [hrun, loop_eq_each]
        constructor
        · rw [hcs]
          exact hwalk.sampled
        · exact hwalk.peerId
        · rw [hcs]
          refine hwalk.samples.trans ?_
          simp only [create, Nat.zero_add]
        · rw [hcs, hloggable, hindex, hwalk.result]
          show _ ↔ True ∧ _
          rw [true_and]
          show Except.map _ (match stop N selfId (es.map some) with
            | none           => .ok none
            | some (c, _, e) => caught c e) = _ ↔ _
          rcases stop N selfId (es.map some) with _ | ⟨c, counted, e⟩
          · exact iff_of_true rfl (fun _ _ _ h => by cases h)
          · refine (map_caught c e).trans ⟨fun h c' counted' e' heq => ?_, fun h => h c counted e rfl⟩
            cases heq
            exact h

/-! ## The report -/

theorem totalWeight_baseEntries (fs : List Fees) :
    Stats.totalWeight (weighed amountWeights (baseEntries fs)) = weightOf fs := by
  unfold Stats.totalWeight weighed baseEntries weightOf
  rw [List.map_map, List.map_map]
  rfl

theorem totalWeight_proportionalEntries (fs : List Fees) :
    Stats.totalWeight (weighed amountWeights (proportionalEntries fs)) = weightOf fs := by
  unfold Stats.totalWeight weighed proportionalEntries weightOf
  rw [List.map_map, List.map_map]
  rfl

/-- **SPEC** of `extract`: a sample has to be one, and the weight has to have a middle. -/
theorem extract_iff {s : Surveyor} {fs : List Fees} {missed : ℕ} (sorting : Sorting UInt32 Amount)
    (hsampled : Sampled s fs) (hsamples : s.samples = fs.length + missed) :
    (∃ res, extract sorting s = .ok res ∧ Reports s.peerId fs res)
      ↔ (missed ≠ 0 → fs ≠ []) ∧ (fs ≠ [] → 0 < weightOf fs ∧ weightOf fs < 2 ^ 64 - 1) := by
  by_cases hzero : s.samples = 0
  · have hextract : extract sorting s = .ok none := if_pos hzero
    have hmissed : missed = 0 := by omega
    have hfs : fs = [] := List.length_eq_zero_iff.mp (by omega)
    exact iff_of_true ⟨none, hextract, hfs⟩ ⟨fun h => absurd hmissed h, fun h => absurd hfs h⟩
  · by_cases hweight : 0 < weightOf fs ∧ weightOf fs < 2 ^ 64 - 1
    · have hfs : fs ≠ [] := by
        rintro rfl
        exact absurd hweight.1 (lt_irrefl _)
      obtain ⟨b, hb, hbase⟩ := finalize_isMedian hsampled.bases sorting
        ((totalWeight_baseEntries fs).symm ▸ hweight.1)
        ((totalWeight_baseEntries fs).symm ▸ hweight.2)
      obtain ⟨p, hp, hproportional⟩ := finalize_isMedian hsampled.proportionals sorting
        ((totalWeight_proportionalEntries fs).symm ▸ hweight.1)
        ((totalWeight_proportionalEntries fs).symm ▸ hweight.2)
      have hextract : extract sorting s = .ok (some ⟨s.peerId, b, p⟩) := by
        unfold extract
        rw [if_neg hzero, hb, hp]
      exact iff_of_true ⟨_, hextract, rfl, hbase, hproportional⟩
        ⟨fun _ => hfs, fun _ => hweight⟩
    · have hnone := finalize_eq_none hsampled.bases sorting
        (by rw [totalWeight_baseEntries]; exact hweight)
      have hextract : extract sorting s = .error .noSamples := by
        unfold extract
        rw [if_neg hzero, hnone]
      refine iff_of_false ?_ (fun ⟨hmissed, hfs⟩ => ?_)
      · rintro ⟨res, hres, _⟩
        rw [hextract] at hres
        cases hres
      · by_cases hnil : fs = []
        · refine hmissed (fun hm => hzero ?_) hnil
          rw [hsamples, hm, hnil]
          rfl
        · exact hweight (hfs hnil)

/-- The survey is right exactly for the regular answers. -/
theorem surveys_iff_regular (N : Numbers) (sorting : Sorting UInt32 Amount) (selfId peerId : NodeId)
    (outcome : Except Object Object) :
    Surveys N sorting selfId peerId outcome ↔ Regular N selfId outcome := by
  have hran := coreRun_spec N selfId peerId outcome
  rcases hcore : coreRun N (create selfId peerId) outcome with ⟨s, e | _⟩
  · rw [hcore] at hran
    refine iff_of_false ?_ (fun hregular => ?_)
    · rintro ⟨res, hres, _⟩
      unfold run at hres
      rw [hcore] at hres
      cases hres
    · have hok := hran.ok_iff.mpr ⟨hregular.loggable,
        fun c counted e hstop => ⟨(hregular.stops c counted e hstop).1,
          (hregular.stops c counted e hstop).2.1⟩⟩
      cases hok
  · rw [hcore] at hran
    have hrun : run N sorting (create selfId peerId) outcome = extract sorting s := by
      unfold run
      rw [hcore]
    have hextract := extract_iff sorting hran.sampled hran.samples
    have hpeer : s.peerId = peerId := hran.peerId
    rw [hpeer] at hextract
    obtain ⟨hloggable, hstops⟩ := hran.ok_iff.mp rfl
    unfold Surveys
    rw [hrun, hextract]
    constructor
    · rintro ⟨hmissed, hweight⟩
      refine ⟨hloggable, fun c counted e hstop => ?_, hweight⟩
      obtain ⟨htype, hprints⟩ := hstops c counted e hstop
      refine ⟨htype, hprints, fun hcounted => hmissed ?_⟩
      rw [hstop, hcounted]
      exact Nat.one_ne_zero
    · intro hregular
      refine ⟨fun hmissed => ?_, hregular.weight⟩
      rcases hstop : stop N selfId (listed outcome) with _ | ⟨c, _ | _, e⟩
      · rw [hstop] at hmissed
        exact absurd rfl hmissed
      · rw [hstop] at hmissed
        exact absurd rfl hmissed
      · exact (hregular.stops c true e hstop).2.2 rfl

/-- **HEADLINE**: the survey is right exactly for the regular answers; and a median comes out
    just where there is some weight, and less than the largest amount. -/
theorem survey_iff {Sample : Type} [LinearOrder Sample] (N : Numbers)
    (sorting : Sorting UInt32 Amount) (selfId peerId : NodeId) (outcome : Except Object Object)
    (es : List (Entry Sample Amount)) :
    (Surveys N sorting selfId peerId outcome ↔ Regular N selfId outcome)
      ∧ (FindsMedian es ↔ (es ≠ [] → 0 < Stats.totalWeight (weighed amountWeights es)
        ∧ Stats.totalWeight (weighed amountWeights es) < 2 ^ 64 - 1)) :=
  ⟨surveys_iff_regular N sorting selfId peerId outcome, findsMedian_iff es⟩

/-! ## A channel without fees -/

def nodeA : NodeId := ⟨2 :: List.replicate 32 2, by decide⟩

def nodeB : NodeId := ⟨3 :: List.replicate 32 3, by decide⟩

/-- Plain decimal numbers. -/
def decimals : Numbers := ⟨fun t => (digitsValue t).toUInt32, digitsValue⟩

/-- The source of this channel is all there is of it. -/
def unpricedChannel : Json.Value := .obj [("source".toUTF8.toList, .str nodeB.toString)]

def unpricedAnswer : Object := some (.obj [("channels".toUTF8.toList, .arr [unpricedChannel])])

/-- **COUNTEREXAMPLE**: no well-formed channel was seen, and the survey throws. -/
theorem unpricedAnswer_throws :
    ¬ Surveys decimals (Sorting.merge UInt32 Amount) nodeA nodeB (.ok unpricedAnswer) := by
  rw [surveys_iff_regular]
  intro hregular
  have hlisted : listed (.ok unpricedAnswer) = [some unpricedChannel] := by
    have hkey : fromEscaped "channels".toUTF8.toList = some "channels".toUTF8.toList := by
      decide +kernel
    have hindex : unpricedAnswer.index "channels" = .ok (some (.arr [unpricedChannel])) := by
      simp only [unpricedAnswer, Object.index, lookup, hkey, if_true]
    unfold listed
    simp only [hindex]
    rfl
  have hkind : kind decimals nodeA (some unpricedChannel) = .unpriced .typeError := by
    have hsource : source (some unpricedChannel) = .ok nodeB := by decide +kernel
    have hfees : fees decimals (some unpricedChannel) = .error .typeError := by
      have hkey : fromEscaped "source".toUTF8.toList = some "source".toUTF8.toList := by
        decide +kernel
      have hne : "source".toUTF8.toList ≠ "base_fee_millisatoshi".toUTF8.toList := by
        decide +kernel
      have hbase : Object.index (some unpricedChannel) "base_fee_millisatoshi" = .ok none := by
        simp only [unpricedChannel, Object.index, lookup, hkey, if_neg hne]
      unfold fees
      rw [hbase]
      rfl
    unfold kind
    rw [hsource, hfees]
    exact if_neg (by decide)
  have hstop : stop decimals nodeA (listed (.ok unpricedAnswer))
      = some (some unpricedChannel, true, .typeError) := by
    rw [hlisted, stop, hkind]
  have hprocessed : processed decimals nodeA (listed (.ok unpricedAnswer)) = [] := by
    rw [hlisted, processed, hkind]
  exact (hregular.stops _ _ _ hstop).2.2 rfl hprocessed

end Surveyor
