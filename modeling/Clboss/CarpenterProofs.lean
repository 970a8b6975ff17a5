import Clboss.AmountArithProofs
import Clboss.ChanneledPeersProofs
import Clboss.OrderedMapProofs

/-! # Carpenter — what is funded, and what is reported of it

    A plan loses nodes at three places: what it values at zero, what has a channel
    by the time of funding, and what the funding command cannot open.  Each of them
    goes into a queue, and the queues are reported at the END of the chain, after
    its two handlers.

    An answer of the funding command is read into the queues entry by entry
    (`readAnswer_eq`), so an entry that cannot be read leaves them half filled, and
    the handler of that only writes a log: the nodes not yet read are never
    reported.  Worse is an id that is no node id: it is a `std::range_error`, the
    handler is one of `std::invalid_argument`, and NOTHING is reported
    (`strangeId_silent`).  `Complete` says which answers are read to the last
    requested node, and `consistent_iff` that exactly these are reported well. -/

namespace Carpenter

open Ln Jsmn ChanneledPeers

/-! ## The code -/

/-- The commands sent to `lightningd`. -/
inductive Command where
  | connect (node : NodeId)
  | listpeerchannels
  | multifundchannel (destinations : List (NodeId × Amount))
deriving DecidableEq

/-- What is thrown on the way. -/
inductive Exc where
  | skipConstruction
  | rpcError
  /-- `std::range_error`, of a text that is no node id. -/
  | rangeError
  /-- `std::invalid_argument`, of which `TypeError` is one. -/
  | invalidArgument
  /-- A failed assertion: the program ends. -/
  | assertion
deriving DecidableEq

def Exc.ofFailure : Failure → Exc
  | .typeError => .invalidArgument
  | .assertion => .assertion

/-- What the parts of the chain share. -/
structure State where
  plan     : OrderedMap NodeId Amount
  fails    : List NodeId
  passes   : List NodeId
  commands : List Command
  /-- The `ChannelCreateResult`s raised. -/
  reports  : List (NodeId × Bool)

/-- The plan, and the answers there will be; `none` is an `RpcError`. -/
structure Input where
  plan             : OrderedMap NodeId Amount
  nonempty         : plan.entries ≠ []
  connect          : NodeId → Option Object
  listpeerchannels : Option Object
  multifundchannel : Option Object

/-- A throw leaves the queues as they are. -/
abbrev Io := EStateM Exc State

/-- `catching`. -/
def catching {α : Type} (e : Exc) (m h : Io α) : Io α := fun s =>
  match m s with
  | .ok a s'     => .ok a s'
  | .error e' s' => if e' = e then h s' else .error e' s'

/-- What reads an object. -/
def reading {α : Type} (r : Except Failure α) : Io α := fun s =>
  match r with
  | .ok a    => .ok a s
  | .error f => .error (Exc.ofFailure f) s

/-- `rpc->command`. -/
def command (c : Command) (answer : Option Object) : Io Object := fun s =>
  let s := { s with commands := s.commands ++ [c] }
  match answer with
  | some res => .ok res s
  | none     => .error .rpcError s

/-- `rounddown_to_sat`. -/
def rounddownToSat (a : Amount) : Amount := Amount.msat (a.toMsat / 1000 * 1000)

/-- Nodes move from the plan to the failures. -/
def State.drop (s : State) (nodes : List NodeId) : State :=
  { s with plan := nodes.foldl OrderedMap.erase s.plan, fails := s.fails ++ nodes }

/-- The entries marked with value 0. -/
def dropZeros : Io Unit :=
  modify (fun s => s.drop ((s.plan.entries.filter (fun e => e.2 = Amount.sat 0)).map Prod.fst))

def skipIfEmpty : Io Unit := fun s =>
  if s.plan.entries = [] then .error .skipConstruction s else .ok () s

/-- `connect_1`. -/
def connect1 (inp : Input) (node : NodeId) : Io Unit :=
  catching .rpcError (do
    let _ ← command (.connect node) (inp.connect node)
    return ()) (pure ())

/-- `Ev::foreach`. -/
def foreach (f : NodeId → Io Unit) : List NodeId → Io Unit
  | []      => pure ()
  | n :: ns => do
      f n
      foreach f ns

def connectAll (inp : Input) : Io Unit := do
  let s ← get
  foreach (connect1 inp) (s.plan.entries.map Prod.fst)

/-- The check right before funding. -/
def recheck (inp : Input) : Io Object :=
  catching .rpcError (command .listpeerchannels inp.listpeerchannels) (throw .skipConstruction)

def dropChanneled (channeled : List NodeId) : Io Unit :=
  modify (fun s => s.drop ((s.plan.entries.filter (fun e => e.1 ∈ channeled)).map Prod.fst))

/-- `multifundchannel`, with every amount rounded down. -/
def fund (inp : Input) : Io Object := fun s =>
  let s := { s with plan := s.plan.mapValues (fun _ a => rounddownToSat a) }
  command (.multifundchannel s.plan.entries) inp.multifundchannel s

/-- What a range-for goes through. -/
def elements : Object → Except Failure (List Object)
  | none           => .error .typeError
  | some (.arr es) => .ok (es.map some)
  | some _         => .ok []

/-- A node goes to the passes, or to the failures. -/
def State.push (s : State) (ok : Bool) (node : NodeId) : State :=
  if ok then { s with passes := s.passes ++ [node] } else { s with fails := s.fails ++ [node] }

/-- The id in an entry of the answer. -/
def readId (c : Object) : Except Failure (List UInt8) := do
  let id ← c.index "id"
  id.str

/-- The body of the two loops over the answer. -/
def readEntry (ok : Bool) (c : Object) : Io Unit := do
  let text ← reading (readId c)
  match NodeId.ofString text with
  | none      => throw .rangeError
  | some node => modify (fun s => s.push ok node)

/-- What the first loop goes through. -/
def chans (res : Object) : Except Failure (List Object) := do
  let chans ← res.index "channel_ids"
  elements chans

/-- What the second one goes through; their number is asked for first. -/
def bads (res : Object) : Except Failure (List Object) := do
  let bads ← res.index "failed"
  let _ ← bads.size
  elements bads

/-- The two loops. -/
def readEntries (res : Object) : Io Unit := do
  let cs ← reading (chans res)
  cs.forM (readEntry true)
  let bs ← reading (bads res)
  bs.forM (readEntry false)

/-- The answer of `multifundchannel`; a malformed one is printed to the log. -/
def readAnswer (res : Object) : Io Unit :=
  catching .invalidArgument (readEntries res)
    (if res.prints then pure () else throw .assertion)

/-- An `RpcError` means all failed. -/
def failAll : Io Unit :=
  modify (fun s => { s with fails := s.fails ++ s.plan.entries.map Prod.fst })

/-- `report_channelings`, until its queue is empty. -/
def reportChannelings (nodes : List NodeId) (ok : Bool) : Io Unit :=
  modify (fun s => { s with reports := s.reports ++ nodes.map (fun n => (n, ok)) })

/-- The chain up to its handlers. -/
def build (inp : Input) : Io Unit := do
  dropZeros
  skipIfEmpty
  connectAll inp
  let res ← recheck inp
  let channeled ← reading (channeledPeers res)
  dropChanneled channeled
  skipIfEmpty
  let res ← fund inp
  readAnswer res

/-- `construct`. -/
def construct (inp : Input) : Io Unit := do
  catching .skipConstruction (catching .rpcError (build inp) failAll) (pure ())
  let s ← get
  reportChannelings s.fails false
  reportChannelings s.passes true

def Input.start (inp : Input) : State := ⟨inp.plan, [], [], [], []⟩

/-- What there is when the chain has ended, one way or the other. -/
def Input.run (inp : Input) : State :=
  match construct inp inp.start with
  | .ok _ s    => s
  | .error _ s => s

/-! ## The plan and the answers -/

/-- The nodes planned with zero amount. -/
def Input.zeros (inp : Input) : List NodeId :=
  (inp.plan.entries.filter (fun e => e.2 = Amount.sat 0)).map Prod.fst

def Input.worthy (inp : Input) : List (NodeId × Amount) :=
  inp.plan.entries.filter (fun e => e.2 ≠ Amount.sat 0)

/-- The peers with a channel, as the check finds them. -/
def Input.channeled (inp : Input) : Option (List NodeId) :=
  inp.listpeerchannels.bind (fun res => (channeledPeers res).toOption)

/-- The nodes found to have a channel at the last check. -/
def Input.found (inp : Input) : List NodeId :=
  match inp.channeled with
  | none       => []
  | some peers => (inp.worthy.filter (fun e => e.1 ∈ peers)).map Prod.fst

/-- The planned nodes that are left after it. -/
def Input.remaining (inp : Input) : List (NodeId × Amount) :=
  match inp.channeled with
  | none       => []
  | some peers => inp.worthy.filter (fun e => e.1 ∉ peers)

/-- An entry of the answer of `multifundchannel`. -/
inductive Entry where
  /-- A node in `channel_ids`, or in `failed`. -/
  | listed (node : NodeId) (ok : Bool)
  | malformed (f : Failure)
  /-- An id that is no node id. -/
  | strange
deriving DecidableEq

/-- What is in an entry. -/
def entryOf (ok : Bool) (c : Object) : Entry :=
  match readId c with
  | .error f => .malformed f
  | .ok text =>
      match NodeId.ofString text with
      | none      => .strange
      | some node => .listed node ok

def entriesOf (ok : Bool) : Except Failure (List Object) → List Entry
  | .error f => [.malformed f]
  | .ok es   => es.map (entryOf ok)

/-- The answer as a list: `channel_ids`, and then `failed`. -/
def entries (res : Object) : List Entry :=
  entriesOf true (chans res) ++ entriesOf false (bads res)

def Entry.node : Entry → Option (NodeId × Bool)
  | .listed n ok => some (n, ok)
  | _            => none

/-- The nodes listed before the first entry that lists none. -/
def listedBefore (es : List Entry) : List (NodeId × Bool) :=
  (es.takeWhile (fun e => e.node.isSome)).filterMap Entry.node

/-- The first entry that lists no node. -/
def firstBad (es : List Entry) : Option Entry := es.find? (fun e => e.node.isNone)

/-! ## The law -/

/-- The reports and the commands are consistent; `created` are the channels that the
    funding command has made. -/
structure Consistent (inp : Input) (created : NodeId → Prop) (commands : List Command)
    (reports : List (NodeId × Bool)) : Prop where
  /-- No node gets two results. -/
  once      : (reports.map Prod.fst).Nodup
  zeros     : ∀ n ∈ inp.zeros, (n, false) ∈ reports
  channeled : ∀ n ∈ inp.found, (n, false) ∈ reports
  request   : ∀ ds, .multifundchannel ds ∈ commands → ∀ d ∈ ds, d.1 ∉ inp.zeros ∧ d.1 ∉ inp.found
    ∧ ∃ a, (d.1, a) ∈ inp.plan.entries ∧ d.2.v.toNat = a.v.toNat / 1000 * 1000
  settled   : ∀ ds, .multifundchannel ds ∈ commands → ∀ d ∈ inp.remaining,
    (reports.map Prod.fst).count d.1 = 1 ∧ ∀ ok, (d.1, ok) ∈ reports → (ok = true ↔ created d.1)

/-- What the answer says of a requested node is true, and an error means that none of
    them was created. -/
def Truthful (inp : Input) (created : NodeId → Prop) : Prop :=
  ∀ d ∈ inp.remaining,
    match inp.multifundchannel with
    | none     => ¬created d.1
    | some res => ∀ ok, .listed d.1 ok ∈ entries res → (ok = true ↔ created d.1)

/-- The answer lists nodes only, up to an entry of the wrong type if there is one; it
    prints then. -/
def Readable (res : Object) : Prop :=
  ∀ e, firstBad (entries res) = some e → e = .malformed .typeError ∧ res.prints = true

/-- The answers are read to the last requested node. -/
structure Complete (inp : Input) : Prop where
  /-- An answer of `listpeerchannels` that fails an assertion is fatal to the zeros. -/
  check  : inp.worthy ≠ [] → inp.listpeerchannels ≠ none → inp.channeled = none → inp.zeros = []
  stop   : inp.remaining ≠ [] → ∀ res, inp.multifundchannel = some res → Readable res
  /-- Every requested node is listed before the first entry that lists none. -/
  listed : ∀ res, inp.multifundchannel = some res → ∀ d ∈ inp.remaining,
    d.1 ∈ (listedBefore (entries res)).map Prod.fst
  /-- What is listed before it is listed once, and was not dropped earlier. -/
  once   : inp.remaining ≠ [] → ∀ res, inp.multifundchannel = some res →
    (inp.zeros ++ inp.found ++ (listedBefore (entries res)).map Prod.fst).Nodup

/-! ## The chain -/

section

variable {α β : Type} {s s' : State}

theorem bind_ok {m : Io α} {f : α → Io β} {a : α} (h : m s = .ok a s') : (m >>= f) s = f a s' := by
  show EStateM.bind m f s = f a s'
  unfold EStateM.bind
  rw [h]

theorem bind_error {m : Io α} {f : α → Io β} {e : Exc} (h : m s = .error e s') :
    (m >>= f) s = .error e s' := by
  show EStateM.bind m f s = .error e s'
  unfold EStateM.bind
  rw [h]

theorem catching_ok {e : Exc} {m h : Io α} {a : α} (hm : m s = .ok a s') :
    catching e m h s = .ok a s' := by
  unfold catching
  rw [hm]

theorem catching_caught {e : Exc} {m h : Io α} (hm : m s = .error e s') :
    catching e m h s = h s' := by
  unfold catching
  rw [hm]
  exact if_pos rfl

theorem catching_other {e e' : Exc} {m h : Io α} (hm : m s = .error e' s') (hne : e' ≠ e) :
    catching e m h s = .error e' s' := by
  unfold catching
  rw [hm]
  exact if_neg hne

end

/-- The handlers of the chain, by how it ends. -/
theorem run_of_ok {inp : Input} {s : State} (h : build inp inp.start = .ok () s) :
    inp.run = { s with
      reports := s.reports ++ s.fails.map (fun n => (n, false)) ++ s.passes.map (fun n => (n, true)) } := by
  have hcatch := catching_ok (e := .skipConstruction) (h := pure ())
    (catching_ok (e := .rpcError) (h := failAll) h)
  unfold Input.run construct
  rw [bind_ok hcatch]
  rfl

theorem run_of_skip {inp : Input} {s : State} (h : build inp inp.start = .error .skipConstruction s) :
    inp.run = { s with
      reports := s.reports ++ s.fails.map (fun n => (n, false)) ++ s.passes.map (fun n => (n, true)) } := by
  have hcatch : catching .skipConstruction (catching .rpcError (build inp) failAll) (pure ()) inp.start
      = .ok () s :=
    catching_caught (catching_other h (by decide))
  unfold Input.run construct
  rw [bind_ok hcatch]
  rfl

theorem run_of_rpcError {inp : Input} {s : State} (h : build inp inp.start = .error .rpcError s) :
    inp.run = { s with
      fails   := s.fails ++ s.plan.entries.map Prod.fst
      reports := s.reports ++ (s.fails ++ s.plan.entries.map Prod.fst).map (fun n => (n, false))
        ++ s.passes.map (fun n => (n, true)) } := by
  have hcatch : catching .skipConstruction (catching .rpcError (build inp) failAll) (pure ()) inp.start
      = .ok () { s with fails := s.fails ++ s.plan.entries.map Prod.fst } :=
    catching_ok (catching_caught h)
  unfold Input.run construct
  rw [bind_ok hcatch]
  rfl

/-- Any other exception skips the reports. -/
theorem run_of_error {inp : Input} {s : State} {e : Exc} (h : build inp inp.start = .error e s)
    (hskip : e ≠ .skipConstruction) (hrpc : e ≠ .rpcError) : inp.run = s := by
  have hcatch : catching .skipConstruction (catching .rpcError (build inp) failAll) (pure ()) inp.start
      = .error e s :=
    catching_other (catching_other h hrpc) hskip
  unfold Input.run construct
  rw [bind_error hcatch]

/-! ## The parts of the chain -/

/-- The state when the check is made: the zeros are dropped, the rest was connected to. -/
def Input.checked (inp : Input) : State where
  plan     := inp.zeros.foldl OrderedMap.erase inp.plan
  fails    := inp.zeros
  passes   := []
  commands := inp.worthy.map (fun e => .connect e.1) ++ [.listpeerchannels]
  reports  := []

theorem entries_checked (inp : Input) : inp.checked.plan.entries = inp.worthy := by
  show (inp.zeros.foldl OrderedMap.erase inp.plan).entries = inp.worthy
  unfold Input.zeros Input.worthy
  rw [OrderedMap.entries_erase_keys]
  refine List.filter_congr (fun e _ => ?_)
  simp only [ne_eq, decide_not]

theorem foreach_connect (inp : Input) (ns : List NodeId) :
    ∀ s : State, foreach (connect1 inp) ns s
      = .ok () { s with commands := s.commands ++ ns.map .connect } := by
  induction ns with
  | nil =>
      intro s
      rw [List.map_nil, List.append_nil]
      rfl
  | cons n ns ih =>
      intro s
      have hone : connect1 inp n s = .ok () { s with commands := s.commands ++ [.connect n] } := by
        cases hc : inp.connect n with
        | some res =>
            have hcmd : command (.connect n) (inp.connect n) s
                = .ok res { s with commands := s.commands ++ [.connect n] } := by
              simp only [command, hc]
            exact catching_ok (bind_ok hcmd)
        | none =>
            have hcmd : command (.connect n) (inp.connect n) s
                = .error .rpcError { s with commands := s.commands ++ [.connect n] } := by
              simp only [command, hc]
            exact catching_caught (bind_error hcmd)
      show (connect1 inp n >>= fun _ => foreach (connect1 inp) ns) s = _
      rw [bind_ok hone, ih]
      simp only [List.map_cons, List.append_assoc, List.singleton_append]

/-- STEP: up to the check. -/
theorem prepare_ok {β : Type} {inp : Input} (h : inp.worthy ≠ []) (f : Object → Io β) :
    (do dropZeros; skipIfEmpty; connectAll inp; let res ← recheck inp; f res) inp.start
      = match inp.listpeerchannels with
        | some res => f res inp.checked
        | none     => .error .skipConstruction inp.checked := by
  have hplan : (inp.start.drop inp.zeros).plan.entries = inp.worthy := entries_checked inp
  have hdrop : dropZeros inp.start = .ok () (inp.start.drop inp.zeros) := rfl
  have hskip : skipIfEmpty (inp.start.drop inp.zeros) = .ok () (inp.start.drop inp.zeros) := by
    unfold skipIfEmpty
    rw [hplan, if_neg h]
  have hconnect : connectAll inp (inp.start.drop inp.zeros)
      = .ok () { inp.start.drop inp.zeros with
          commands := inp.worthy.map (fun e => .connect e.1) } := by
    show foreach (connect1 inp) ((inp.start.drop inp.zeros).plan.entries.map Prod.fst) _ = _
    rw [foreach_connect, hplan, List.map_map]
    rfl
  rw [bind_ok hdrop, bind_ok hskip, bind_ok hconnect]
  cases hl : inp.listpeerchannels with
  | some res =>
      refine bind_ok (catching_ok ?_)
      simp only [command, hl]
      rfl
  | none =>
      have hcmd : command .listpeerchannels inp.listpeerchannels { inp.start.drop inp.zeros with
          commands := inp.worthy.map (fun e => .connect e.1) } = .error .rpcError inp.checked := by
        simp only [command, hl]
        rfl
      exact bind_error (catching_caught hcmd)

theorem entries_drop_checked (inp : Input) (peers : List NodeId) :
    (inp.checked.drop ((inp.worthy.filter (fun e => e.1 ∈ peers)).map Prod.fst)).plan.entries
      = inp.worthy.filter (fun e => e.1 ∉ peers) := by
  show (List.foldl OrderedMap.erase inp.checked.plan _).entries = _
  rw [← entries_checked, OrderedMap.entries_erase_keys]
  refine List.filter_congr (fun e _ => ?_)
  simp only [decide_not]

/-! ## The answer -/

/-- One entry of the list. -/
def take : Entry → Io Unit
  | .listed n ok => modify (fun s => s.push ok n)
  | .malformed f => throw (Exc.ofFailure f)
  | .strange     => throw .rangeError

theorem readEntry_eq (ok : Bool) (c : Object) : readEntry ok c = take (entryOf ok c) := by
  funext s
  unfold readEntry entryOf
  cases hid : readId c with
  | error f => rfl
  | ok text =>
      rw [bind_ok (show reading (Except.ok text) s = .ok text s from rfl)]
      simp only
      cases NodeId.ofString text with
      | none => rfl
      | some node => rfl

theorem forM_readEntry (ok : Bool) (es : List Object) :
    es.forM (readEntry ok) = (es.map (entryOf ok)).forM take := by
  induction es with
  | nil => rfl
  | cons c es ih =>
      show (do readEntry ok c; es.forM (readEntry ok)) = _
      rw [readEntry_eq, ih]
      rfl

/-- What a list of entries does to the queues. -/
def State.took (s : State) (ns : List (NodeId × Bool)) : State :=
  { s with
    fails  := s.fails ++ (ns.filter (fun n => !n.2)).map Prod.fst
    passes := s.passes ++ (ns.filter (fun n => n.2)).map Prod.fst }

def Entry.exc : Entry → Exc
  | .malformed f => Exc.ofFailure f
  | _            => .rangeError

theorem State.took_push (s : State) (ok : Bool) (n : NodeId) (ns : List (NodeId × Bool)) :
    (s.push ok n).took ns = s.took ((n, ok) :: ns) := by
  cases ok with
  | true =>
      simp [State.push, State.took]
  | false =>
      simp [State.push, State.took]

/-- RUN: the entries are taken up to the first that lists no node. -/
theorem forM_take (es : List Entry) : ∀ s : State, es.forM take s =
    match firstBad es with
    | none   => .ok () (s.took (listedBefore es))
    | some e => .error e.exc (s.took (listedBefore es)) := by
  induction es with
  | nil =>
      intro s
      show EStateM.Result.ok () s = .ok () (s.took [])
      simp only [State.took, List.filter_nil, List.map_nil, List.append_nil]
  | cons e es ih =>
      intro s
      have hnone : s.took [] = s := by
        simp only [State.took, List.filter_nil, List.map_nil, List.append_nil]
      match e with
      | .listed n ok =>
          show es.forM take (s.push ok n) = match firstBad es with
            | none   => .ok () (s.took ((n, ok) :: listedBefore es))
            | some e => .error e.exc (s.took ((n, ok) :: listedBefore es))
          rw [ih, State.took_push]
      | .malformed f =>
          show EStateM.Result.error (Exc.ofFailure f) s = .error (Exc.ofFailure f) (s.took [])
          rw [hnone]
      | .strange =>
          show EStateM.Result.error Exc.rangeError s = .error .rangeError (s.took [])
          rw [hnone]

/-- The two loops walk through the list. -/
theorem readEntries_eq (res : Object) : readEntries res = (entries res).forM take := by
  have hpart : ∀ (ok : Bool) (r : Except Failure (List Object)),
      (do let cs ← reading r; cs.forM (readEntry ok) : Io Unit) = (entriesOf ok r).forM take := by
    intro ok r
    cases r with
    | error f => rfl
    | ok es => exact forM_readEntry ok es
  show _ = forM (entriesOf true (chans res) ++ entriesOf false (bads res)) take
  rw [List.forM_append]
  show _ = ((entriesOf true (chans res)).forM take >>= fun _ => (entriesOf false (bads res)).forM take)
  rw [← hpart true, ← hpart false]
  exact (bind_assoc (reading (chans res)) (fun cs => cs.forM (readEntry true)) _).symm

/-- SPEC: a readable answer goes to the queues. -/
theorem readAnswer_ok {res : Object} (h : Readable res) (s : State) :
    readAnswer res s = .ok () (s.took (listedBefore (entries res))) := by
  have hread := (congrFun (readEntries_eq res) s).trans (forM_take _ s)
  unfold readAnswer
  cases hbad : firstBad (entries res) with
  | none =>
      simp only [hbad] at hread
      exact catching_ok hread
  | some e =>
      obtain ⟨rfl, hprints⟩ := h e hbad
      simp only [hbad] at hread
      rw [catching_caught (e := .invalidArgument) hread, if_pos hprints]
      rfl

/-- SPEC: any other answer ends the chain. -/
theorem readAnswer_error {res : Object} (h : ¬Readable res) (s : State) :
    ∃ e, e ≠ .skipConstruction ∧ e ≠ .rpcError
      ∧ readAnswer res s = .error e (s.took (listedBefore (entries res))) := by
  have hread := (congrFun (readEntries_eq res) s).trans (forM_take _ s)
  unfold readAnswer
  cases hbad : firstBad (entries res) with
  | none => exact absurd (fun e he => by rw [hbad] at he; cases he) h
  | some e =>
      simp only [hbad] at hread
      match e with
      | .malformed .typeError =>
          have hprints : res.prints ≠ true := by
            intro hp
            refine h (fun e he => ?_)
            rw [hbad] at he
            exact ⟨(Option.some.inj he).symm, hp⟩
          refine ⟨.assertion, by decide, by decide, ?_⟩
          rw [catching_caught (e := .invalidArgument) hread, if_neg hprints]
          rfl
      | .malformed .assertion =>
          exact ⟨.assertion, by decide, by decide, catching_other hread (by decide)⟩
      | .strange =>
          exact ⟨.rangeError, by decide, by decide, catching_other hread (by decide)⟩
      | .listed n ok =>
          have hnone := List.find?_some hbad
          cases hnone

/-! ## The endings of a run -/

theorem relabel (ns : List (NodeId × Bool)) (ok : Bool) (h : ∀ n ∈ ns, n.2 = ok) :
    (ns.map Prod.fst).map (fun n => (n, ok)) = ns := by
  rw [List.map_map]
  refine (List.map_congr_left (fun n hn => ?_)).trans (List.map_id _)
  exact Prod.ext rfl (h n hn).symm

/-- The nodes that are dropped before funding, reported. -/
def Input.dropped (inp : Input) : List (NodeId × Bool) :=
  (inp.zeros ++ inp.found).map (fun n => (n, false))

theorem build_eq {inp : Input} (h : inp.worthy ≠ []) : build inp inp.start =
    match inp.listpeerchannels with
    | some res => (do
        let channeled ← reading (channeledPeers res)
        dropChanneled channeled
        skipIfEmpty
        let res ← fund inp
        readAnswer res : Io Unit) inp.checked
    | none     => .error .skipConstruction inp.checked :=
  prepare_ok h _

theorem not_funding_connects {inp : Input} {ds : List (NodeId × Amount)} :
    .multifundchannel ds ∉ inp.checked.commands := by
  intro h
  rcases List.mem_append.mp h with h | h
  · obtain ⟨e, -, he⟩ := List.mem_map.mp h
    cases he
  · cases List.mem_singleton.mp h

/-- No node is worth a channel, or the check fails: only the zeros are reported. -/
theorem run_skipped {inp : Input} (h : inp.worthy = [] ∨ inp.listpeerchannels = none) :
    inp.run.reports = inp.dropped ∧ ∀ ds, .multifundchannel ds ∉ inp.run.commands := by
  by_cases hworthy : inp.worthy = []
  · have hfound : inp.found = [] := by
      unfold Input.found
      rw [hworthy]
      cases inp.channeled with
      | none => rfl
      | some peers => rfl
    have hbuild : build inp inp.start = .error .skipConstruction (inp.start.drop inp.zeros) := by
      have hplan : (inp.start.drop inp.zeros).plan.entries = [] := (entries_checked inp).trans hworthy
      have hdrop : dropZeros inp.start = .ok () (inp.start.drop inp.zeros) := rfl
      unfold build
      rw [bind_ok hdrop]
      refine bind_error ?_
      unfold skipIfEmpty
      rw [if_pos hplan]
    rw [run_of_skip hbuild, Input.dropped, hfound, List.append_nil]
    exact ⟨List.append_nil _, fun ds hds => by cases hds⟩
  · have hnone : inp.listpeerchannels = none := h.resolve_left hworthy
    have hfound : inp.found = [] := by
      unfold Input.found Input.channeled
      rw [hnone]
      rfl
    have hbuild := build_eq hworthy
    rw [hnone] at hbuild
    rw [run_of_skip hbuild, Input.dropped, hfound, List.append_nil]
    exact ⟨List.append_nil _, fun ds hds => not_funding_connects hds⟩

/-- The answer of the check cannot be read. -/
theorem run_unread {inp : Input} {res : Object} {f : Failure} (h : inp.worthy ≠ [])
    (hres : inp.listpeerchannels = some res) (hf : channeledPeers res = .error f) :
    inp.run.reports = [] ∧ ∀ ds, .multifundchannel ds ∉ inp.run.commands := by
  have hbuild := build_eq h
  simp only [hres, hf] at hbuild
  rw [bind_error (show reading (Except.error f : Except Failure (List NodeId)) inp.checked
    = .error (Exc.ofFailure f) inp.checked from rfl)] at hbuild
  have hskip : Exc.ofFailure f ≠ .skipConstruction := by
    cases f with
    | typeError => decide
    | assertion => decide
  have hrpc : Exc.ofFailure f ≠ .rpcError := by
    cases f with
    | typeError => decide
    | assertion => decide
  rw [run_of_error hbuild hskip hrpc]
  exact ⟨rfl, fun ds hds => not_funding_connects hds⟩

section

variable {inp : Input} {res : Object} {peers : List NodeId} (hres : inp.listpeerchannels = some res)
  (hpeers : channeledPeers res = .ok peers)

include hres hpeers

theorem found_eq : inp.found = (inp.worthy.filter (fun e => e.1 ∈ peers)).map Prod.fst := by
  simp only [Input.found, Input.channeled, hres, hpeers, Option.bind_some, Except.toOption]

theorem remaining_eq : inp.remaining = inp.worthy.filter (fun e => e.1 ∉ peers) := by
  simp only [Input.remaining, Input.channeled, hres, hpeers, Option.bind_some, Except.toOption]

/-- STEP: after the check. -/
theorem build_checked (h : inp.worthy ≠ []) : build inp inp.start =
    (do skipIfEmpty; let res ← fund inp; readAnswer res : Io Unit) (inp.checked.drop inp.found) := by
  have hbuild := build_eq h
  simp only [hres, hpeers] at hbuild
  have hdrop : dropChanneled peers inp.checked = .ok () (inp.checked.drop inp.found) := by
    rw [found_eq hres hpeers, ← entries_checked]
    rfl
  rw [hbuild, bind_ok (show reading (Except.ok peers) inp.checked = .ok peers inp.checked from rfl),
    bind_ok hdrop]

theorem entries_dropped : (inp.checked.drop inp.found).plan.entries = inp.remaining := by
  rw [found_eq hres hpeers, remaining_eq hres hpeers]
  exact entries_drop_checked inp peers

/-- Every node is found to have a channel. -/
theorem run_channeled (h : inp.worthy ≠ []) (hnone : inp.remaining = []) :
    inp.run.reports = inp.dropped ∧ ∀ ds, .multifundchannel ds ∉ inp.run.commands := by
  have hskip : skipIfEmpty (inp.checked.drop inp.found)
      = .error .skipConstruction (inp.checked.drop inp.found) := by
    unfold skipIfEmpty
    rw [if_pos ((entries_dropped hres hpeers).trans hnone)]
  have hbuild := (build_checked hres hpeers h).trans (bind_error hskip)
  rw [run_of_skip hbuild]
  exact ⟨List.append_nil _, fun ds hds => not_funding_connects hds⟩

omit hres hpeers in
/-- The state when the command is sent. -/
def Input.funded (inp : Input) : State :=
  let s := inp.checked.drop inp.found
  let plan := s.plan.mapValues (fun _ a => rounddownToSat a)
  { s with plan := plan, commands := s.commands ++ [.multifundchannel plan.entries] }

/-- STEP: the command is sent. -/
theorem build_funded (h : inp.worthy ≠ []) (hleft : inp.remaining ≠ []) : build inp inp.start =
    match inp.multifundchannel with
    | some ans => readAnswer ans inp.funded
    | none     => .error .rpcError inp.funded := by
  have hskip : skipIfEmpty (inp.checked.drop inp.found) = .ok () (inp.checked.drop inp.found) := by
    unfold skipIfEmpty
    rw [entries_dropped hres hpeers, if_neg hleft]
  rw [build_checked hres hpeers h, bind_ok hskip]
  cases hans : inp.multifundchannel with
  | some ans =>
      refine bind_ok ?_
      unfold fund command
      rw [hans]
      rfl
  | none =>
      refine bind_error ?_
      unfold fund command
      rw [hans]
      rfl

theorem plan_funded : inp.funded.plan.entries
    = inp.remaining.map (fun e => (e.1, rounddownToSat e.2)) := by
  rw [← entries_dropped hres hpeers]
  rfl

/-- What was asked for: the remaining nodes, with their amounts rounded down. -/
theorem funding_eq {ds : List (NodeId × Amount)} (h : .multifundchannel ds ∈ inp.funded.commands) :
    ds = inp.remaining.map (fun e => (e.1, rounddownToSat e.2)) := by
  rw [← plan_funded hres hpeers]
  rcases List.mem_append.mp h with h | h
  · exact absurd h not_funding_connects
  · cases List.mem_singleton.mp h
    rfl

/-- The command fails. -/
theorem run_failed (h : inp.worthy ≠ []) (hleft : inp.remaining ≠ [])
    (hnone : inp.multifundchannel = none) :
    inp.run.reports = inp.dropped ++ inp.remaining.map (fun e => (e.1, false))
      ∧ inp.run.commands = inp.funded.commands := by
  have hbuild := build_funded hres hpeers h hleft
  simp only [hnone] at hbuild
  rw [run_of_rpcError hbuild, plan_funded hres hpeers]
  refine ⟨?_, rfl⟩
  show [] ++ (inp.zeros ++ inp.found ++ _).map _ ++ [] = _
  rw [List.append_nil, List.nil_append, List.map_append, List.map_map, List.map_map]
  rfl

/-- The answer is read, up to its end or to an entry of the wrong type. -/
theorem run_answered (h : inp.worthy ≠ []) (hleft : inp.remaining ≠ []) {ans : Object}
    (hans : inp.multifundchannel = some ans) (hread : Readable ans) :
    inp.run.reports.Perm (inp.dropped ++ listedBefore (entries ans))
      ∧ inp.run.commands = inp.funded.commands := by
  have hbuild := build_funded hres hpeers h hleft
  simp only [hans] at hbuild
  rw [readAnswer_ok hread] at hbuild
  rw [run_of_ok hbuild]
  refine ⟨?_, rfl⟩
  have hfails := relabel ((listedBefore (entries ans)).filter (fun n => !n.2)) false
    (fun n hn => by simpa using (List.mem_filter.mp hn).2)
  have hpasses := relabel ((listedBefore (entries ans)).filter (fun n => n.2)) true
    (fun n hn => (List.mem_filter.mp hn).2)
  show ([] ++ (inp.zeros ++ inp.found ++ _).map _ ++ ([] ++ _).map _).Perm _
  rw [List.nil_append, List.nil_append, List.map_append, hfails, hpasses, List.append_assoc]
  refine List.Perm.append_left _ ?_
  exact List.perm_append_comm.trans (List.filter_append_perm (fun n : NodeId × Bool => n.2) _)

/-- The answer cannot be read: nothing is reported. -/
theorem run_silent (h : inp.worthy ≠ []) (hleft : inp.remaining ≠ []) {ans : Object}
    (hans : inp.multifundchannel = some ans) (hread : ¬Readable ans) :
    inp.run.reports = [] ∧ inp.run.commands = inp.funded.commands := by
  have hbuild := build_funded hres hpeers h hleft
  simp only [hans] at hbuild
  obtain ⟨e, hskip, hrpc, he⟩ := readAnswer_error hread inp.funded
  rw [he] at hbuild
  rw [run_of_error hbuild hskip hrpc]
  exact ⟨rfl, rfl⟩

end

/-! ## The headline -/

/-- How a run ends, and the condition under which it does. -/
inductive Ending (inp : Input) : Prop where
  | dropped (hleft : inp.remaining = [])
      (hcheck : inp.worthy ≠ [] → inp.listpeerchannels ≠ none → inp.channeled ≠ none)
      (hreports : inp.run.reports = inp.dropped)
      (hcommands : ∀ ds, .multifundchannel ds ∉ inp.run.commands)
  | unread (hleft : inp.remaining = []) (hfound : inp.found = [])
      (hcheck : inp.worthy ≠ [] ∧ inp.listpeerchannels ≠ none ∧ inp.channeled = none)
      (hreports : inp.run.reports = [])
      (hcommands : ∀ ds, .multifundchannel ds ∉ inp.run.commands)
  | funded (hleft : inp.remaining ≠ [])
      (hcheck : inp.channeled ≠ none)
      (hreports : (∃ ans, inp.multifundchannel = some ans ∧ ¬Readable ans ∧ inp.run.reports = [])
        ∨ (∃ ans, inp.multifundchannel = some ans ∧ Readable ans
          ∧ inp.run.reports.Perm (inp.dropped ++ listedBefore (entries ans)))
        ∨ (inp.multifundchannel = none
          ∧ inp.run.reports = inp.dropped ++ inp.remaining.map (fun e => (e.1, false))))
      (hcommands : ∀ ds, .multifundchannel ds ∈ inp.run.commands
        ↔ ds = inp.remaining.map (fun e => (e.1, rounddownToSat e.2)))

/-- RUN: every run ends in one of these ways. -/
theorem ending (inp : Input) : Ending inp := by
  by_cases hskip : inp.worthy = [] ∨ inp.listpeerchannels = none
  · obtain ⟨hreports, hcommands⟩ := run_skipped hskip
    refine .dropped ?_ (fun hw hl => absurd hskip (not_or.mpr ⟨hw, hl⟩)) hreports hcommands
    unfold Input.remaining Input.channeled
    rcases hskip with hw | hl
    · rw [hw]
      split
      · rfl
      · rfl
    · rw [hl]
      rfl
  · obtain ⟨hworthy, hlist⟩ := not_or.mp hskip
    obtain ⟨res, hres⟩ := Option.ne_none_iff_exists'.mp hlist
    cases hpeers : channeledPeers res with
    | error f =>
        have hnone : inp.channeled = none := by
          simp only [Input.channeled, hres, hpeers, Option.bind_some, Except.toOption]
        obtain ⟨hreports, hcommands⟩ := run_unread hworthy hres hpeers
        refine .unread ?_ ?_ ⟨hworthy, hlist, hnone⟩ hreports hcommands
        · simp only [Input.remaining, hnone]
        · simp only [Input.found, hnone]
    | ok peers =>
        have hsome : inp.channeled ≠ none := by
          simp only [Input.channeled, hres, hpeers, Option.bind_some, Except.toOption]
          exact Option.some_ne_none peers
        by_cases hleft : inp.remaining = []
        · obtain ⟨hreports, hcommands⟩ := run_channeled hres hpeers hworthy hleft
          exact .dropped hleft (fun _ _ => hsome) hreports hcommands
        · have hds : ∀ ds, .multifundchannel ds ∈ inp.funded.commands
              ↔ ds = inp.remaining.map (fun e => (e.1, rounddownToSat e.2)) := by
            intro ds
            refine ⟨funding_eq hres hpeers, ?_⟩
            rintro rfl
            rw [← plan_funded hres hpeers]
            exact List.mem_append_right _ (List.mem_singleton.mpr rfl)
          cases hans : inp.multifundchannel with
          | none =>
              obtain ⟨hreports, hcommands⟩ := run_failed hres hpeers hworthy hleft hans
              exact .funded hleft hsome (.inr (.inr ⟨hans, hreports⟩)) (hcommands ▸ hds)
          | some ans =>
              by_cases hread : Readable ans
              · obtain ⟨hreports, hcommands⟩ := run_answered hres hpeers hworthy hleft hans hread
                exact .funded hleft hsome (.inr (.inl ⟨ans, hans, hread, hreports⟩)) (hcommands ▸ hds)
              · obtain ⟨hreports, hcommands⟩ := run_silent hres hpeers hworthy hleft hans hread
                exact .funded hleft hsome (.inl ⟨ans, hans, hread, hreports⟩) (hcommands ▸ hds)

/-- The zeros, the nodes found and the remaining ones are different nodes. -/
theorem nodup_nodes (inp : Input) :
    (inp.zeros ++ inp.found ++ inp.remaining.map Prod.fst).Nodup := by
  have hparts : (inp.zeros ++ inp.worthy.map Prod.fst).Nodup := by
    refine List.Perm.nodup ?_ inp.plan.nodup_keys
    refine (List.Perm.map Prod.fst (List.filter_append_perm (fun e => e.2 = Amount.sat 0) _).symm).trans ?_
    rw [List.map_append]
    refine List.Perm.append_left _ (List.Perm.of_eq ?_)
    refine congrArg (List.map Prod.fst) (List.filter_congr (fun e _ => ?_))
    simp only [ne_eq, decide_not]
  rw [List.append_assoc]
  cases hch : inp.channeled with
  | none =>
      simp only [Input.found, Input.remaining, hch, List.map_nil, List.append_nil]
      exact (List.nodup_append.mp hparts).1
  | some peers =>
      refine List.Perm.nodup (List.Perm.append_left _ ?_) hparts
      simp only [Input.found, Input.remaining, hch]
      rw [← List.map_append]
      refine (List.Perm.map Prod.fst (List.filter_append_perm (fun e => e.1 ∈ peers) _).symm).trans ?_
      rw [List.map_append, List.map_append]
      refine List.Perm.append_left _ (List.Perm.of_eq ?_)
      refine congrArg (List.map Prod.fst) (List.filter_congr (fun e _ => ?_))
      simp only [decide_not]

theorem Input.not_dropped {inp : Input} {d : NodeId × Amount} (h : d ∈ inp.remaining) :
    d.1 ∉ inp.zeros ∧ d.1 ∉ inp.found := by
  have hnodup := List.nodup_append.mp (nodup_nodes inp)
  have hkey : d.1 ∈ inp.remaining.map Prod.fst := List.mem_map_of_mem h
  refine ⟨fun hz => ?_, fun hf => ?_⟩
  · exact hnodup.2.2 d.1 (List.mem_append_left _ hz) d.1 hkey rfl
  · exact hnodup.2.2 d.1 (List.mem_append_right _ hf) d.1 hkey rfl

theorem Input.mem_plan {inp : Input} {d : NodeId × Amount} (h : d ∈ inp.remaining) :
    d ∈ inp.plan.entries := by
  unfold Input.remaining at h
  cases hch : inp.channeled with
  | none =>
      rw [hch] at h
      cases h
  | some peers =>
      rw [hch] at h
      exact (List.mem_filter.mp (List.mem_filter.mp h).1).1

theorem toNat_rounddownToSat (a : Amount) :
    (rounddownToSat a).v.toNat = a.v.toNat / 1000 * 1000 := by
  have ha := a.v.toNat_lt
  show (a.v / 1000 * 1000).toNat = _
  rw [UInt64.toNat_mul, UInt64.toNat_div]
  show a.v.toNat / 1000 * 1000 % 2 ^ 64 = _
  exact Nat.mod_eq_of_lt (by omega)

/-- What is asked for is consistent, however the run ends. -/
theorem request_ok {inp : Input} {ds : List (NodeId × Amount)}
    (hds : ds = inp.remaining.map (fun e => (e.1, rounddownToSat e.2))) :
    ∀ d ∈ ds, d.1 ∉ inp.zeros ∧ d.1 ∉ inp.found
      ∧ ∃ a, (d.1, a) ∈ inp.plan.entries ∧ d.2.v.toNat = a.v.toNat / 1000 * 1000 := by
  intro d hd
  rw [hds] at hd
  obtain ⟨e, he, rfl⟩ := List.mem_map.mp hd
  obtain ⟨hz, hf⟩ := Input.not_dropped he
  exact ⟨hz, hf, e.2, Input.mem_plan he, toNat_rounddownToSat e.2⟩

theorem Input.keys_dropped (inp : Input) : inp.dropped.map Prod.fst = inp.zeros ++ inp.found := by
  unfold Input.dropped
  rw [List.map_map]
  exact List.map_id _

theorem Input.mem_dropped {inp : Input} {n : NodeId} {ok : Bool} :
    (n, ok) ∈ inp.dropped ↔ (n ∈ inp.zeros ∨ n ∈ inp.found) ∧ ok = false := by
  unfold Input.dropped
  constructor
  · intro h
    obtain ⟨m, hm, heq⟩ := List.mem_map.mp h
    cases heq
    exact ⟨List.mem_append.mp hm, rfl⟩
  · rintro ⟨hn, rfl⟩
    exact List.mem_map_of_mem (List.mem_append.mpr hn)

/-- A listed node is in the answer. -/
theorem mem_entries_of_listedBefore {es : List Entry} {n : NodeId} {ok : Bool}
    (h : (n, ok) ∈ listedBefore es) : .listed n ok ∈ es := by
  obtain ⟨e, he, hnode⟩ := List.mem_filterMap.mp h
  have hmem := List.takeWhile_sublist _ |>.subset he
  match e with
  | .listed m ok' =>
      cases hnode
      exact hmem
  | .malformed _ => cases hnode
  | .strange => cases hnode

/-- Funded, and nothing of what was sent is settled twice: the law for reports that are
    the drops and a list of settlements. -/
theorem Consistent.of_funded {inp : Input} {created : NodeId → Prop}
    {reports settled : List (NodeId × Bool)} {commands : List Command}
    (hcommands : ∀ ds, .multifundchannel ds ∈ commands →
      ds = inp.remaining.map (fun e => (e.1, rounddownToSat e.2)))
    (hreports : reports.Perm (inp.dropped ++ settled))
    (honce : (inp.zeros ++ inp.found ++ settled.map Prod.fst).Nodup)
    (hlisted : ∀ d ∈ inp.remaining, d.1 ∈ settled.map Prod.fst)
    (htrue : ∀ d ∈ inp.remaining, ∀ ok, (d.1, ok) ∈ settled → (ok = true ↔ created d.1)) :
    Consistent inp created commands reports := by
  have hkeys : (reports.map Prod.fst).Perm (inp.zeros ++ inp.found ++ settled.map Prod.fst) := by
    refine (hreports.map Prod.fst).trans (List.Perm.of_eq ?_)
    rw [List.map_append, Input.keys_dropped]
  have hnodup := hkeys.symm.nodup honce
  refine ⟨hnodup, ?_, ?_, fun ds hds => request_ok (hcommands ds hds), ?_⟩
  · intro n hn
    exact hreports.mem_iff.mpr (List.mem_append_left _ (Input.mem_dropped.mpr ⟨Or.inl hn, rfl⟩))
  · intro n hn
    exact hreports.mem_iff.mpr (List.mem_append_left _ (Input.mem_dropped.mpr ⟨Or.inr hn, rfl⟩))
  · intro ds _ d hd
    refine ⟨List.count_eq_one_of_mem hnodup (hkeys.mem_iff.mpr
      (List.mem_append_right _ (hlisted d hd))), fun ok hok => ?_⟩
    rcases List.mem_append.mp (hreports.mem_iff.mp hok) with hdrop | hset
    · obtain ⟨hz, hf⟩ := Input.not_dropped hd
      rcases (Input.mem_dropped.mp hdrop).1 with h | h
      · exact absurd h hz
      · exact absurd h hf
    · exact htrue d hd ok hset

/-- Not funded: the law for reports that are the drops. -/
theorem Consistent.of_dropped {inp : Input} {created : NodeId → Prop}
    {reports : List (NodeId × Bool)} {commands : List Command}
    (hleft : inp.remaining = []) (hcommands : ∀ ds, .multifundchannel ds ∉ commands)
    (hreports : reports.Perm inp.dropped) : Consistent inp created commands reports := by
  have hnil : reports.Perm (inp.dropped ++ []) := by rwa [List.append_nil]
  refine .of_funded (fun ds hds => absurd hds (hcommands ds)) hnil ?_ ?_ ?_
  · have := nodup_nodes inp
    rwa [hleft] at this
  · rw [hleft]
    exact fun d hd => by cases hd
  · rw [hleft]
    exact fun d hd => by cases hd

/-- **HEADLINE**: the reports are consistent exactly when the answers are read to the
    last requested node. -/
theorem consistent_iff {inp : Input} {created : NodeId → Prop} (htruth : Truthful inp created)
    {reports : List (NodeId × Bool)} (hperm : reports.Perm inp.run.reports) :
    Consistent inp created inp.run.commands reports ↔ Complete inp := by
  cases ending inp with
  | dropped hleft hcheck hreports hcommands =>
      constructor
      · intro _
        refine ⟨fun hw hl hnone => absurd hnone (hcheck hw hl), fun h => absurd hleft h, ?_,
          fun h => absurd hleft h⟩
        intro res _ d hd
        rw [hleft] at hd
        cases hd
      · intro _
        exact .of_dropped hleft hcommands (hreports ▸ hperm)
  | unread hleft hfound hcheck hreports hcommands =>
      rw [hreports, List.perm_nil] at hperm
      subst hperm
      constructor
      · intro h
        refine ⟨fun _ _ _ => ?_, fun h => absurd hleft h, ?_, fun h => absurd hleft h⟩
        · refine List.eq_nil_iff_forall_not_mem.mpr (fun n hn => ?_)
          cases h.zeros n hn
        · intro res _ d hd
          rw [hleft] at hd
          cases hd
      · intro h
        have hzeros := h.check hcheck.1 hcheck.2.1 hcheck.2.2
        refine .of_dropped hleft hcommands ?_
        rw [Input.dropped, hzeros, hfound]
        exact List.Perm.nil
  | funded hleft hcheck hreports hcommands =>
      obtain ⟨d₀, hd₀⟩ := List.exists_mem_of_ne_nil _ hleft
      rcases hreports with ⟨ans, hans, hread, hreports⟩ | ⟨ans, hans, hread, hreports⟩ | ⟨hans, hreports⟩
      · rw [hreports, List.perm_nil] at hperm
        subst hperm
        constructor
        · intro h
          -- The first requested node is in no report.
          have hcount := (h.settled _ ((hcommands _).mpr rfl) d₀ hd₀).1
          cases hcount
        · intro h
          exact absurd (h.stop hleft ans hans) hread
      · constructor
        · intro h
          have hkeys : (reports.map Prod.fst).Perm
              (inp.zeros ++ inp.found ++ (listedBefore (entries ans)).map Prod.fst) := by
            refine ((hperm.trans hreports).map Prod.fst).trans (List.Perm.of_eq ?_)
            rw [List.map_append, Input.keys_dropped]
          refine ⟨fun _ _ hnone => absurd hnone hcheck, ?_, ?_, ?_⟩
          · rintro _ res hres
            obtain rfl : ans = res := Option.some.inj (hans.symm.trans hres)
            exact hread
          · intro res hres d hd
            obtain rfl : ans = res := Option.some.inj (hans.symm.trans hres)
            have hcount := (h.settled _ ((hcommands _).mpr rfl) d hd).1
            have hmem : d.1 ∈ reports.map Prod.fst := List.count_pos_iff.mp (by omega)
            obtain ⟨hz, hf⟩ := Input.not_dropped hd
            rcases List.mem_append.mp (hkeys.mem_iff.mp hmem) with hdrop | hlisted
            · rcases List.mem_append.mp hdrop with hdrop | hdrop
              · exact absurd hdrop hz
              · exact absurd hdrop hf
            · exact hlisted
          · rintro _ res hres
            obtain rfl : ans = res := Option.some.inj (hans.symm.trans hres)
            exact hkeys.nodup h.once
        · intro h
          refine .of_funded (fun ds => (hcommands ds).mp) (hperm.trans hreports) (h.once hleft ans hans)
            (h.listed ans hans) (fun d hd ok hok => ?_)
          have htrue := htruth d hd
          simp only [hans] at htrue
          exact htrue ok (mem_entries_of_listedBefore hok)
      · constructor
        · intro _
          refine ⟨fun _ _ hnone => absurd hnone hcheck, ?_, ?_, ?_⟩
          · rintro _ res hres
            cases hans.symm.trans hres
          · rintro res hres
            cases hans.symm.trans hres
          · rintro _ res hres
            cases hans.symm.trans hres
        · intro _
          have hkeys : (inp.remaining.map (fun e => (e.1, false))).map Prod.fst
              = inp.remaining.map Prod.fst := by
            rw [List.map_map]
            rfl
          refine .of_funded (fun ds => (hcommands ds).mp) (hreports ▸ hperm) ?_ ?_ ?_
          · rw [hkeys]
            exact nodup_nodes inp
          · rw [hkeys]
            exact fun d hd => List.mem_map_of_mem hd
          · intro d hd ok hok
            obtain ⟨e, -, heq⟩ := List.mem_map.mp hok
            obtain rfl : false = ok := congrArg Prod.snd heq
            have htrue := htruth d hd
            simp only [hans] at htrue
            exact ⟨fun h => absurd h (by decide), fun h => absurd h htrue⟩

/-! ## An ordinary answer -/

/-- An entry with the id of a node. -/
def idEntry (n : NodeId) : Json.Value := .obj [("id".toUTF8.toList, .str n.toString)]

/-- The answer that lists these nodes. -/
def answer (passes fails : List NodeId) : Object :=
  some (.obj [("channel_ids".toUTF8.toList, .arr (passes.map idEntry)),
    ("failed".toUTF8.toList, .arr (fails.map idEntry))])

/-- Without a backslash there is nothing to unescape. -/
theorem fromEscaped_plain {s : List UInt8} (h : ∀ c ∈ s, c ≠ '\\'.toUInt8) :
    fromEscaped s = some s := by
  induction s with
  | nil => rfl
  | cons c s ih =>
      unfold fromEscaped
      rw [if_pos (h c List.mem_cons_self), ih (fun c' hc' => h c' (List.mem_cons_of_mem _ hc'))]
      rfl

theorem entryOf_idEntry (ok : Bool) (n : NodeId) : entryOf ok (some (idEntry n)) = .listed n ok := by
  have hplain : fromEscaped n.toString = some n.toString := by
    refine fromEscaped_plain (fun c hc => ?_)
    rintro rfl
    exact absurd (Util.Str.isHexDigit_of_mem_hexdump hc) (by decide)
  have hid : readId (some (idEntry n)) = .ok n.toString := by
    have hkey : fromEscaped "id".toUTF8.toList = some "id".toUTF8.toList := by decide +kernel
    simp only [readId, idEntry, Object.index, lookup, hkey, if_true, bind, Except.bind, Object.str,
      hplain]
  simp only [entryOf, hid, NodeId.ofString_toString]

theorem entries_answer (passes fails : List NodeId) :
    entries (answer passes fails)
      = passes.map (fun n => .listed n true) ++ fails.map (fun n => .listed n false) := by
  have hids : fromEscaped "channel_ids".toUTF8.toList = some "channel_ids".toUTF8.toList := by
    decide +kernel
  have hfailed : fromEscaped "failed".toUTF8.toList = some "failed".toUTF8.toList := by
    decide +kernel
  have hne : "channel_ids".toUTF8.toList ≠ "failed".toUTF8.toList := by decide +kernel
  have hchans : chans (answer passes fails) = .ok ((passes.map idEntry).map some) := by
    simp only [chans, answer, Object.index, lookup, hids, if_true, bind, Except.bind, elements]
  have hbads : bads (answer passes fails) = .ok ((fails.map idEntry).map some) := by
    simp only [bads, answer, Object.index, lookup, hids, hfailed, if_neg hne, if_true, bind,
      Except.bind, Object.size, elements]
  have hpart : ∀ (ok : Bool) (ns : List NodeId),
      entriesOf ok (.ok ((ns.map idEntry).map some)) = ns.map (fun n => .listed n ok) := by
    intro ok ns
    simp only [entriesOf, List.map_map]
    exact List.map_congr_left (fun n _ => entryOf_idEntry ok n)
  rw [entries, hchans, hbads, hpart, hpart]

theorem listedBefore_listed (ns : List (NodeId × Bool)) :
    listedBefore (ns.map (fun n => .listed n.1 n.2)) = ns
      ∧ firstBad (ns.map (fun n => .listed n.1 n.2)) = none := by
  induction ns with
  | nil => exact ⟨rfl, rfl⟩
  | cons n ns ih => exact ⟨congrArg (n :: ·) ih.1, ih.2⟩

/-- When the answer lists every requested node, once, the condition holds. -/
theorem Complete.of_answer {inp : Input} {passes fails : List NodeId} (hch : inp.channeled ≠ none)
    (hans : inp.multifundchannel = some (answer passes fails))
    (hperm : (passes ++ fails).Perm (inp.remaining.map Prod.fst)) : Complete inp := by
  have hentries : entries (answer passes fails)
      = (passes.map (fun n => (n, true)) ++ fails.map (fun n => (n, false))).map
        (fun n => .listed n.1 n.2) := by
    rw [entries_answer, List.map_append, List.map_map, List.map_map]
    rfl
  obtain ⟨hlisted, hbad⟩ := listedBefore_listed
    (passes.map (fun n => (n, true)) ++ fails.map (fun n => (n, false)))
  rw [← hentries] at hlisted hbad
  have hkeys : (listedBefore (entries (answer passes fails))).map Prod.fst = passes ++ fails := by
    rw [hlisted, List.map_append, List.map_map, List.map_map]
    exact congrArg₂ _ (List.map_id _) (List.map_id _)
  refine ⟨fun _ _ h => absurd h hch, ?_, ?_, ?_⟩
  · rintro _ res hres e he
    obtain rfl : answer passes fails = res := Option.some.inj (hans.symm.trans hres)
    rw [hbad] at he
    cases he
  · intro res hres d hd
    obtain rfl : answer passes fails = res := Option.some.inj (hans.symm.trans hres)
    rw [hkeys]
    exact hperm.mem_iff.mpr (List.mem_map_of_mem hd)
  · rintro _ res hres
    obtain rfl : answer passes fails = res := Option.some.inj (hans.symm.trans hres)
    rw [hkeys]
    exact (List.Perm.append_left _ hperm.symm).nodup (nodup_nodes inp)

/-! ## An id that is no node id -/

/-- Two nodes; the first is planned with zero amount. -/
def nodeA : NodeId := ⟨2 :: List.replicate 32 1, by decide⟩
def nodeB : NodeId := ⟨3 :: List.replicate 32 1, by decide⟩

/-- The second is planned with half a satoshi too much, and the answer names nobody. -/
def strangeId : Input where
  plan             := ⟨[(nodeA, Amount.sat 0), (nodeB, Amount.msat 1000500)], by decide⟩
  nonempty         := List.cons_ne_nil _ _
  connect          := fun _ => none
  listpeerchannels := some (some (.obj [("channels".toUTF8.toList, .arr [])]))
  multifundchannel := some (some (.obj [("channel_ids".toUTF8.toList,
    .arr [.obj [("id".toUTF8.toList, .str "xyz".toUTF8.toList)]]), ("failed".toUTF8.toList, .arr [])]))

/-- The same plan, with the answer it should have. -/
def ordinary : Input := { strangeId with multifundchannel := some (answer [nodeB] []) }

theorem consistent_iff_ordinary :
    Consistent ordinary (fun n => n = nodeB) ordinary.run.commands
      [(nodeB, true), (nodeA, false)] ↔ Complete ordinary :=
  consistent_iff
    (by
      have hleft : ordinary.remaining = [(nodeB, Amount.msat 1000500)] := by decide +kernel
      intro d hd
      rw [hleft] at hd
      obtain rfl := List.mem_singleton.mp hd
      intro ok hok
      have hentries : entries (answer [nodeB] []) = [.listed nodeB true] := entries_answer _ _
      rw [hentries] at hok
      cases List.mem_singleton.mp hok
      exact iff_of_true rfl rfl)
    (by
      have hreports : ordinary.run.reports = [(nodeA, false), (nodeB, true)] := by decide +kernel
      rw [hreports]
      exact List.Perm.swap _ _ _)

/-- **COUNTEREXAMPLE**: the funding command was issued, and nobody hears of any node. -/
theorem strangeId_silent : ∃ (inp : Input) (created : NodeId → Prop) (reports : List (NodeId × Bool)),
    inp = strangeId ∧ Truthful inp created ∧ reports.Perm inp.run.reports
      ∧ ¬Consistent inp created inp.run.commands reports := by
  have hreports : strangeId.run.reports = [] := by decide +kernel
  refine ⟨strangeId, fun _ => False, [], rfl, ?_, hreports ▸ List.Perm.nil, fun h => ?_⟩
  · have hentries : entries (some (.obj [("channel_ids".toUTF8.toList,
        .arr [.obj [("id".toUTF8.toList, .str "xyz".toUTF8.toList)]]),
        ("failed".toUTF8.toList, .arr [])])) = [.strange] := by decide +kernel
    intro d _ ok hok
    have hok : Entry.listed d.1 ok ∈ entries _ := hok
    rw [hentries] at hok
    cases List.mem_singleton.mp hok
  · have hzero : nodeA ∈ strangeId.zeros := by decide +kernel
    cases h.zeros nodeA hzero

end Carpenter
