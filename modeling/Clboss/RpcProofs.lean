import Clboss.DecimalProofs
import Clboss.JsonOutProofs
import Clboss.JsmnObjectProofs
import Clboss.JsmnValueProofs
import Clboss.MachineProofs
import Clboss.OrderedMapProofs
import Mathlib.Data.List.TakeWhile

/-! # `Boss::Mod::Rpc` — commands and their responses

    A command takes the next id, leaves its continuations in `pendings` and goes
    out to the socket; a response finds them by its id.  Everything shared is
    touched by both loops, that over the responses of a buffer and that over the
    commands that a shutdown fails, and every round of either hands control to a
    continuation that may call `core_command` again or raise `Shutdown`.  What is
    left of the loops is therefore part of the state (`Frame`), and calls and
    shutdowns come between any two rounds.

    A call has a number here that the program does not have: it stands for the
    pair of continuations.  The one invariant is that the calls so far are the
    pending ones, the ones that a loop has still to fail and the completed ones,
    EACH ONCE (`Inv.perm`). -/

namespace Rpc

open Decimals (isDigit)
open Jsmn

/-! ## Responses -/

/-- `is >> num` of a `std::uint64_t`: a sign and the digits, as far as they go. -/
def stringToU64 (s : List UInt8) : ℕ :=
  let negative := s.head? = some '-'.toUInt8
  let signed := negative ∨ s.head? = some '+'.toUInt8
  let digits := (if signed then s.tail else s).takeWhile isDigit
  let n := Decimals.value digits
  if UInt64.size ≤ n then UInt64.size - 1
  else if negative then (UInt64.size - n) % UInt64.size
  else n

/-- The id of a response, if it has one. -/
def idOf (resp : Object) : Except Failure (Option ℕ) := do
  if !resp.isObject then return none
  if !(← resp.has "id") then return none
  let id ← resp.index "id"
  if !id.isNumber then return none
  return some (stringToU64 (id.directText.getD []))

/-- **ROUND TRIP**: the id in the text of a request is read back. -/
theorem stringToU64_text {k : ℕ} (h : k < UInt64.size) : stringToU64 (Decimals.text k) = k := by
  obtain ⟨-, hall⟩ := Decimals.isDecimal_text k
  have hdigits : (Decimals.text k).takeWhile isDigit = Decimals.text k :=
    List.takeWhile_eq_self_iff.mpr hall
  have hsign : ∀ sign : UInt8, isDigit sign = false → (Decimals.text k).head? ≠ some sign := by
    intro sign hsign hhead
    rw [hall sign (List.mem_of_mem_head? hhead)] at hsign
    cases hsign
  unfold stringToU64
  simp only [hsign '-'.toUInt8 (by decide), hsign '+'.toUInt8 (by decide), or_self, if_false,
    hdigits, Decimals.value_text, Nat.not_le_of_lt h]

/-- What has an id is an object, and its id is a number. -/
theorem idOf_eq_some {resp : Object} {id : ℕ} (h : idOf resp = .ok (some id)) :
    ∃ number, resp.index "id" = .ok (some (.prim number)) ∧ stringToU64 number = id := by
  unfold idOf at h
  cases hobj : resp.isObject with
  | false =>
      rw [hobj] at h
      cases h
  | true =>
      cases hindex : resp.index "id" with
      | error f =>
          simp [hobj, Object.has, hindex, bind, Except.bind] at h
      | ok o =>
          cases o with
          | none => simp [hobj, Object.has, hindex, bind, Except.bind, pure, Except.pure] at h
          | some v =>
              cases v with
              | prim number =>
                  cases hnumber : Object.isNumber (some (.prim number)) with
                  | false =>
                      simp [hobj, Object.has, hindex, hnumber, bind, Except.bind, pure,
                        Except.pure] at h
                  | true =>
                      simp [hobj, Object.has, hindex, hnumber, bind, Except.bind, pure,
                        Except.pure, Object.directText] at h
                      exact ⟨number, rfl, h⟩
              | _ =>
                  simp [hobj, Object.has, hindex, Object.isNumber, bind, Except.bind, pure,
                    Except.pure] at h

/-- A decimal is a response's id. -/
theorem idOf_of_text {resp : Object} {k : ℕ} (h : k < UInt64.size)
    (hid : resp.index "id" = .ok (some (.prim (Decimals.text k)))) :
    idOf resp = .ok (some k) := by
  obtain ⟨-, hall⟩ := Decimals.isDecimal_text k
  have hletter : ∀ c : UInt8, isDigit c = false → (Decimals.text k).head? ≠ some c := by
    intro c hc hhead
    rw [hall c (List.mem_of_mem_head? hhead)] at hc
    cases hc
  have hnumber : Object.isNumber (some (.prim (Decimals.text k))) = true := by
    simp [Object.isNumber, hletter 't'.toUInt8 (by decide), hletter 'f'.toUInt8 (by decide),
      hletter 'n'.toUInt8 (by decide)]
  have hobj : resp.isObject = true := by
    cases resp with
    | none => cases hid
    | some v =>
        cases v with
        | obj ms => rfl
        | _ => cases hid
  simp [idOf, hobj, Object.has, hid, hnumber, bind, Except.bind, pure, Except.pure,
    Object.directText, stringToU64_text h]

/-- How a command is completed. -/
inductive Outcome where
  | result (o : Object)
  | error (command : List UInt8) (e : Object)
  | shutdown

/-- What a response says; an `RpcError` prints the error object. -/
def outcomeOf (resp : Object) (command : List UInt8) : Except Failure (Option Outcome) := do
  if ← resp.has "result" then
    return some (.result (← resp.index "result"))
  if ← resp.has "error" then
    let e ← resp.index "error"
    if e.prints then return some (.error command e) else throw .assertion
  return none

/-- The result or the error that a response has. -/
inductive Says (resp : Object) (command : List UInt8) : Outcome → Prop
  | result {o : Object} (hhas : resp.has "result" = .ok true)
      (hindex : resp.index "result" = .ok o) : Says resp command (.result o)
  | error {e : Object} (hno : resp.has "result" = .ok false) (hhas : resp.has "error" = .ok true)
      (hindex : resp.index "error" = .ok e) (hprints : e.prints = true) :
      Says resp command (.error command e)

theorem Says.outcomeOf_eq {resp : Object} {command : List UInt8} {o : Outcome}
    (h : Says resp command o) : outcomeOf resp command = .ok (some o) := by
  cases h with
  | result hhas hindex => simp [outcomeOf, hhas, hindex, bind, Except.bind, pure, Except.pure]
  | error hno hhas hindex hprints =>
      simp [outcomeOf, hno, hhas, hindex, hprints, bind, Except.bind, pure, Except.pure]

/-- **INVERSION**: a result comes first, an error only without one. -/
theorem says_of_outcomeOf {resp : Object} {command : List UInt8} {o : Outcome}
    (h : outcomeOf resp command = .ok (some o)) : Says resp command o := by
  unfold outcomeOf at h
  cases hresult : resp.has "result" with
  | error e =>
      rw [hresult] at h
      cases h
  | ok b =>
      rw [hresult] at h
      cases b with
      | true =>
          cases hindex : resp.index "result" with
          | error e =>
              rw [hindex] at h
              cases h
          | ok r =>
              rw [hindex] at h
              cases h
              exact .result hresult hindex
      | false =>
          cases herror : resp.has "error" with
          | error e =>
              rw [herror] at h
              cases h
          | ok b =>
              rw [herror] at h
              cases b with
              | false => cases h
              | true =>
                  cases hindex : resp.index "error" with
                  | error e =>
                      rw [hindex] at h
                      cases h
                  | ok e =>
                      rw [hindex] at h
                      cases hprints : e.prints with
                      | false =>
                          simp [bind, Except.bind, hprints, throw, throwThe, MonadExceptOf.throw]
                            at h
                      | true =>
                          simp [bind, Except.bind, hprints, pure, Except.pure] at h
                          subst h
                          exact .error hresult herror hindex hprints

/-! ## The object -/

/-- `Pending`; `call` stands for its `pass` and `fail`. -/
structure Pending where
  command : List UInt8
  call    : ℕ

/-- What a loop has still to go through. -/
inductive Frame where
  /-- `responses`, in `on_read_parse`. -/
  | responses (rs : List Object)
  /-- `pendings_copy`, in `shutdown`. -/
  | failures (ps : List Pending)

structure State where
  parser          : Impl
  isShuttingDown  : Bool
  nextId          : ℕ
  pendings        : OrderedMap ℕ Pending
  toWrite         : List UInt8
  readParseActive : Bool
  /-- `write_event` is there. -/
  writeEvent      : Bool
  /-- The loops that are running, the innermost first. -/
  work            : List Frame
  /-- Calls of `core_command` so far. -/
  calls           : ℕ

def State.init : State := ⟨.init, false, 0, .empty, [], false, false, [], 0⟩

/-- What others see. -/
inductive Output where
  /-- A call got an id, and its text is to be written. -/
  | requested (call id : ℕ) (command : List UInt8) (text : List UInt8)
  | wrote (bytes : List UInt8)
  | received (resp : Object)
  /-- `pass` or `fail` of a call. -/
  | completed (call : ℕ) (outcome : Outcome)

inductive Event where
  /-- A call of `core_command`; `sizes` are what its `write`s take. -/
  | command (command : List UInt8) (params : Json.Out) (sizes : List ℕ)
  /-- The socket has these pieces to read. -/
  | readable (pieces : List (List UInt8))
  | writable (sizes : List ℕ)
  /-- `read_parse_event`. -/
  | parse
  /-- A message `Shutdown`, or the destructor. -/
  | shutdown
  /-- The innermost loop goes on. -/
  | next

/-- The calls that build a request. -/
def requestCalls (id : ℕ) (command : List UInt8) (params : Json.Out) : List Json.Call :=
  [.startObject none,
    .field "jsonrpc".toUTF8.toList (.str "2.0".toUTF8.toList),
    .field "id".toUTF8.toList (.int id),
    .field "method".toUTF8.toList (.str command),
    .field "params".toUTF8.toList (.out params),
    .endObject]

def requestText (id : ℕ) (command : List UInt8) (params : Json.Out) : List UInt8 :=
  ((Json.Builder.run .init (requestCalls id command params)).elim [] Json.Builder.content)
    ++ ['\n', '\n'].map Char.toUInt8

/-- The `write`s of `on_write`: what goes out and what is left. -/
def writeLoop : List ℕ → List UInt8 → List UInt8 × List UInt8
  | [], buffer            => ([], buffer)
  | size :: sizes, buffer =>
      let n := Nat.min size (Nat.min 512 buffer.length)
      (buffer.take n ++ (writeLoop sizes (buffer.drop n)).1, (writeLoop sizes (buffer.drop n)).2)

/-- `on_write`. -/
def State.onWrite (s : State) (sizes : List ℕ) : State × List Output :=
  let out := writeLoop sizes s.toWrite
  ({ s with toWrite := out.2, writeEvent := !out.2.isEmpty }, [.wrote out.1])

/-- `core_command`. -/
def State.coreCommand (s : State) (command : List UInt8) (params : Json.Out) (sizes : List ℕ) :
    State × List Output :=
  if s.isShuttingDown then ({ s with calls := s.calls + 1 }, [.completed s.calls .shutdown])
  else
    let text := requestText s.nextId command params
    let out := State.onWrite { s with
      nextId   := s.nextId + 1
      toWrite  := s.toWrite ++ text
      pendings := s.pendings.assign s.nextId ⟨command, s.calls⟩
      calls    := s.calls + 1 } sizes
    (out.1, .requested s.calls s.nextId command text :: out.2)

/-- `process_response`; `none` is a failed assertion. -/
def State.processResponse (s : State) (resp : Object) : Option (State × List Output) :=
  match idOf resp with
  | .error _      => none
  | .ok none      => some (s, [])
  | .ok (some id) =>
      match s.pendings.find id with
      | none   => some (s, [])
      | some p =>
          match outcomeOf resp p.command with
          | .error _     => none
          | .ok none     => some (s, [])
          | .ok (some o) =>
              some ({ s with pendings := s.pendings.erase id }, [.completed p.call o])

/-- `shutdown`, up to its loop. -/
def State.shutdown (s : State) : State :=
  { s with
    isShuttingDown := true
    writeEvent     := false
    pendings       := .empty
    work           := .failures (s.pendings.entries.map Prod.snd) :: s.work }

/-- A round of the innermost loop. -/
def State.next (s : State) : Option (State × List Output) :=
  match s.work with
  | []                         => none
  | .responses [] :: work      => some ({ s with work := work }, [])
  | .responses (r :: rs) :: work =>
      (State.processResponse { s with work := .responses rs :: work } r).map
        (fun out => (out.1, .received r :: out.2))
  | .failures [] :: work       => some ({ s with work := work }, [])
  | .failures (p :: ps) :: work =>
      some ({ s with work := .failures ps :: work }, [.completed p.call .shutdown])

/-- One event.  The event loop is reached when no loop is running. -/
def step (s : State) : Event → Option (State × List Output)
  | .command command params sizes => some (s.coreCommand command params sizes)
  | .readable pieces =>
      if s.work.isEmpty ∧ s.isShuttingDown = false then
        let parser := pieces.foldl Impl.loadBuffer s.parser
        some ({ s with
          parser          := parser
          readParseActive := s.readParseActive || parser.canParseBuffer }, [])
      else none
  | .writable sizes =>
      if s.work.isEmpty ∧ s.writeEvent = true then some (s.onWrite sizes) else none
  | .parse =>
      if s.work.isEmpty ∧ s.readParseActive = true then
        match s.parser.parseBuffer with
        | (.objects rs, parser) =>
            some ({ s with
              parser          := parser
              readParseActive := false
              work            := [.responses (rs.map ParseResult.value)] }, [])
        | _ => none
      else none
  | .shutdown => some (s.shutdown, [])
  | .next => s.next

/-! ## What the outputs say -/

/-- The completed calls. -/
def completedCalls (tr : List Output) : List ℕ :=
  tr.filterMap (fun o => match o with
    | .completed call _ => some call
    | _                 => none)

/-- The calls with their ids. -/
def requests (tr : List Output) : List (ℕ × ℕ) :=
  tr.filterMap (fun o => match o with
    | .requested call id _ _ => some (call, id)
    | _                      => none)

theorem completedCalls_append (tr tr' : List Output) :
    completedCalls (tr ++ tr') = completedCalls tr ++ completedCalls tr' :=
  List.filterMap_append

theorem requests_append (tr tr' : List Output) :
    requests (tr ++ tr') = requests tr ++ requests tr' :=
  List.filterMap_append

theorem mem_completedCalls {tr : List Output} {call : ℕ} :
    call ∈ completedCalls tr ↔ ∃ o, .completed call o ∈ tr := by
  constructor
  · intro h
    obtain ⟨out, hmem, hout⟩ := List.mem_filterMap.mp h
    cases out with
    | completed call' o =>
        cases hout
        exact ⟨o, hmem⟩
    | _ => cases hout
  · rintro ⟨o, hmem⟩
    exact List.mem_filterMap.mpr ⟨_, hmem, rfl⟩

/-- The response has `number` for its id. -/
def HasId (resp : Object) (number : List UInt8) : Prop :=
  resp.index "id" = .ok (some (.prim number))

/-- The response is to the request with this id: if its own id is a decimal, it is the one in
    the text of the request, and what else is taken for an id reads as it. -/
def RespondsTo (resp : Object) (id : ℕ) : Prop :=
  ∃ number, HasId resp number ∧ stringToU64 number = id
    ∧ ∀ k < UInt64.size, number = Decimals.text k → k = id

theorem respondsTo_of_idOf {resp : Object} {id : ℕ} (h : idOf resp = .ok (some id)) :
    RespondsTo resp id := by
  obtain ⟨number, hnumber, hid⟩ := idOf_eq_some h
  refine ⟨number, hnumber, hid, ?_⟩
  rintro k hk rfl
  rw [← hid, stringToU64_text hk]

/-- An outcome that a response with the call's id has brought. -/
def Owed (tr : List Output) (call : ℕ) (o : Outcome) : Prop :=
  ∃ id command text resp, .requested call id command text ∈ tr ∧ .received resp ∈ tr
    ∧ RespondsTo resp id ∧ Says resp command o

theorem Owed.append {tr : List Output} {call : ℕ} {o : Outcome} (h : Owed tr call o)
    (tr' : List Output) : Owed (tr ++ tr') call o := by
  obtain ⟨id, command, text, resp, hreq, hrec, hresp⟩ := h
  exact ⟨id, command, text, resp, List.mem_append_left _ hreq, List.mem_append_left _ hrec, hresp⟩

/-! ## The invariant -/

/-- The calls that a loop has still to fail. -/
def Frame.calls : Frame → List ℕ
  | .responses _ => []
  | .failures ps => ps.map Pending.call

/-- The calls in `pendings`. -/
def State.pendingCalls (s : State) : List ℕ := s.pendings.entries.map (fun e => e.2.call)

structure Inv (tr : List Output) (s : State) : Prop where
  /-- Every call is pending, to be failed or completed, and one of these only. -/
  perm    : (s.pendingCalls ++ (s.work.flatMap Frame.calls ++ completedCalls tr)).Perm
    (List.range s.calls)
  ids     : (requests tr).map Prod.snd = List.range s.nextId
  calls   : ((requests tr).map Prod.fst).Pairwise (· < ·)
  known   : ∀ r ∈ requests tr, r.1 < s.calls
  pending : ∀ id p, (id, p) ∈ s.pendings.entries → id < s.nextId
    ∧ ∃ text, .requested p.call id p.command text ∈ tr
  owed    : ∀ call o, .completed call o ∈ tr → Owed tr call o ∨ o = .shutdown
  down    : s.isShuttingDown = true → s.pendings = .empty

theorem inv_init : Inv [] .init where
  perm := List.Perm.refl _
  ids := rfl
  calls := List.Pairwise.nil
  known := nofun
  pending := nofun
  owed := nofun
  down := nofun

/-- Nothing that the invariant speaks of has changed. -/
theorem Inv.quiet {tr out : List Output} {s s' : State} (h : Inv tr s)
    (hpend : s'.pendings = s.pendings) (hwork : s'.work.flatMap Frame.calls
      = s.work.flatMap Frame.calls) (hcalls : s'.calls = s.calls) (hid : s'.nextId = s.nextId)
    (hdown : s'.isShuttingDown = s.isShuttingDown) (hcompleted : completedCalls out = [])
    (hreq : requests out = []) : Inv (tr ++ out) s' where
  perm := by
    unfold State.pendingCalls
    rw [hpend, hwork, hcalls, completedCalls_append, hcompleted, List.append_nil]
    exact h.perm
  ids := by
    rw [requests_append, hreq, List.append_nil, hid]
    exact h.ids
  calls := by
    rw [requests_append, hreq, List.append_nil]
    exact h.calls
  known := by
    rw [requests_append, hreq, List.append_nil, hcalls]
    exact h.known
  pending := by
    intro id p hp
    rw [hpend] at hp
    obtain ⟨hlt, text, htext⟩ := h.pending id p hp
    exact ⟨hid ▸ hlt, text, List.mem_append_left _ htext⟩
  owed := by
    intro call o hmem
    rcases List.mem_append.mp hmem with hmem | hmem
    · exact (h.owed call o hmem).imp_left (fun ho => ho.append out)
    · have hcall := mem_completedCalls.mpr ⟨o, hmem⟩
      rw [hcompleted] at hcall
      cases hcall
  down := by
    intro hs
    rw [hpend]
    exact h.down (hdown ▸ hs)

/-- A call is completed that was pending or to be failed. -/
theorem Inv.complete (call : ℕ) {tr out : List Output} {s s' : State} (h : Inv tr s)
    (hperm : (s.pendingCalls ++ s.work.flatMap Frame.calls).Perm
      (call :: (s'.pendingCalls ++ s'.work.flatMap Frame.calls)))
    (hpend : ∀ id p, (id, p) ∈ s'.pendings.entries → (id, p) ∈ s.pendings.entries)
    (hcalls : s'.calls = s.calls) (hid : s'.nextId = s.nextId)
    (hdown : s'.isShuttingDown = true → s'.pendings = .empty)
    (hcompleted : completedCalls out = [call]) (hreq : requests out = [])
    (howed : ∀ call o, .completed call o ∈ out → Owed (tr ++ out) call o ∨ o = .shutdown) :
    Inv (tr ++ out) s' where
  perm := by
    have hall := h.perm
    rw [← List.append_assoc] at hall
    rw [hcalls, completedCalls_append, hcompleted, ← List.append_assoc, ← List.append_assoc]
    exact ((List.perm_append_singleton _ _).trans (hperm.append_right _).symm).trans hall
  ids := by
    rw [requests_append, hreq, List.append_nil, hid]
    exact h.ids
  calls := by
    rw [requests_append, hreq, List.append_nil]
    exact h.calls
  known := by
    rw [requests_append, hreq, List.append_nil, hcalls]
    exact h.known
  pending := by
    intro id p hp
    obtain ⟨hlt, text, htext⟩ := h.pending id p (hpend id p hp)
    exact ⟨hid ▸ hlt, text, List.mem_append_left _ htext⟩
  owed := by
    intro call o hmem
    rcases List.mem_append.mp hmem with hmem | hmem
    · exact (h.owed call o hmem).imp_left (fun ho => ho.append out)
    · exact howed call o hmem
  down := hdown

/-! ## Steps -/

theorem inv_onWrite {tr : List Output} {s : State} (h : Inv tr s) (sizes : List ℕ) :
    Inv (tr ++ (s.onWrite sizes).2) (s.onWrite sizes).1 :=
  h.quiet rfl rfl rfl rfl rfl rfl rfl

/-- A call after the shutdown is completed at once. -/
theorem inv_refused {tr : List Output} {s : State} (h : Inv tr s) :
    Inv (tr ++ [.completed s.calls .shutdown]) { s with calls := s.calls + 1 } where
  perm := by
    rw [completedCalls_append, List.range_succ]
    have := h.perm.append_right [s.calls]
    simpa [State.pendingCalls, completedCalls] using this
  ids := by
    rw [requests_append]
    simpa [requests] using h.ids
  calls := by
    rw [requests_append]
    simpa [requests] using h.calls
  known := by
    intro r hr
    rw [requests_append] at hr
    rcases List.mem_append.mp hr with hr | hr
    · exact Nat.lt_succ_of_lt (h.known r hr)
    · cases hr
  pending := by
    intro id p hp
    obtain ⟨hlt, text, htext⟩ := h.pending id p hp
    exact ⟨hlt, text, List.mem_append_left _ htext⟩
  owed := by
    intro call o hmem
    rcases List.mem_append.mp hmem with hmem | hmem
    · exact (h.owed call o hmem).imp_left (fun ho => ho.append _)
    · cases List.mem_singleton.mp hmem
      exact Or.inr rfl
  down := h.down

/-- A call gets the next id, which is not pending. -/
theorem inv_requested {tr : List Output} {s : State} (h : Inv tr s) (hs : s.isShuttingDown = false)
    (command text : List UInt8) :
    Inv (tr ++ [.requested s.calls s.nextId command text]) { s with
      nextId   := s.nextId + 1
      toWrite  := s.toWrite ++ text
      pendings := s.pendings.assign s.nextId ⟨command, s.calls⟩
      calls    := s.calls + 1 } where
  perm := by
-- the assignment replaces nothing, as ids in use are below the next one
    have hfresh : ∀ p, (s.nextId, p) ∉ s.pendings.entries :=
      fun p hp => Nat.lt_irrefl _ (h.pending _ p hp).1
    have hassign := (s.pendings.perm_assign ⟨command, s.calls⟩ hfresh).map
      (fun e : ℕ × Pending => e.2.call)
    rw [completedCalls_append, List.range_succ]
    refine ((hassign.append_right _).trans ?_).trans (h.perm.append_right [s.calls])
    rw [List.map_cons, List.cons_append]
    refine (List.perm_append_singleton _ _).symm.trans ?_
    simp [State.pendingCalls, completedCalls]
  ids := by
    rw [requests_append, List.map_append, h.ids, List.range_succ]
    rfl
  calls := by
    rw [requests_append, List.map_append, List.pairwise_append]
    refine ⟨h.calls, List.pairwise_singleton _ _, ?_⟩
    intro call hcall call' hcall'
    obtain ⟨r, hr, rfl⟩ := List.mem_map.mp hcall
    cases List.mem_singleton.mp hcall'
    exact h.known r hr
  known := by
    intro r hr
    rw [requests_append] at hr
    rcases List.mem_append.mp hr with hr | hr
    · exact Nat.lt_succ_of_lt (h.known r hr)
    · cases List.mem_singleton.mp hr
      exact Nat.lt_succ_self _
  pending := by
    intro id p hp
    rcases s.pendings.mem_assign.mp hp with heq | ⟨hp, -⟩
    · cases heq
      exact ⟨Nat.lt_succ_self _, text, List.mem_append_right _ (List.mem_singleton_self _)⟩
    · obtain ⟨hlt, text', htext⟩ := h.pending id p hp
      exact ⟨Nat.lt_succ_of_lt hlt, text', List.mem_append_left _ htext⟩
  owed := by
    intro call o hmem
    rcases List.mem_append.mp hmem with hmem | hmem
    · exact (h.owed call o hmem).imp_left (fun ho => ho.append _)
    · cases List.mem_singleton.mp hmem
  down := by
    intro hdown
    rw [hs] at hdown
    cases hdown

theorem inv_coreCommand {tr : List Output} {s : State} (h : Inv tr s) (command : List UInt8)
    (params : Json.Out) (sizes : List ℕ) :
    Inv (tr ++ (s.coreCommand command params sizes).2) (s.coreCommand command params sizes).1 := by
  unfold State.coreCommand
  split
  · exact inv_refused h
  · rename_i hs
    have hreq := inv_requested h (Bool.eq_false_iff.mpr hs) command
      (requestText s.nextId command params)
    have hwrite := inv_onWrite hreq sizes
    rw [List.append_assoc] at hwrite
    exact hwrite

/-- **INVERSION**: a response completes at most the call that is pending under its id. -/
theorem processResponse_cases {s s' : State} {resp : Object} {out : List Output}
    (h : s.processResponse resp = some (s', out)) :
    (s' = s ∧ out = []) ∨ ∃ id p o, idOf resp = .ok (some id) ∧ (id, p) ∈ s.pendings.entries
      ∧ outcomeOf resp p.command = .ok (some o)
      ∧ s' = { s with pendings := s.pendings.erase id } ∧ out = [.completed p.call o] := by
  unfold State.processResponse at h
  split at h
  · cases h
  · cases h
    exact Or.inl ⟨rfl, rfl⟩
  · rename_i id hid
    split at h
    · cases h
      exact Or.inl ⟨rfl, rfl⟩
    · rename_i p hp
      split at h
      · cases h
      · cases h
        exact Or.inl ⟨rfl, rfl⟩
      · rename_i o ho
        cases h
        exact Or.inr ⟨id, p, o, hid, s.pendings.find_eq_some_iff.mp hp, ho, rfl, rfl⟩

/-- An outcome from a response is owed. -/
theorem owed_of_response {tr : List Output} {call id : ℕ} {command text : List UInt8}
    {resp : Object} {o : Outcome} (hreq : .requested call id command text ∈ tr)
    (hrec : .received resp ∈ tr) (hid : idOf resp = .ok (some id))
    (ho : outcomeOf resp command = .ok (some o)) : Owed tr call o :=
  ⟨id, command, text, resp, hreq, hrec, respondsTo_of_idOf hid, says_of_outcomeOf ho⟩

theorem inv_processResponse {tr out : List Output} {s s' : State} {resp : Object} (h : Inv tr s)
    (hrec : .received resp ∈ tr) (hproc : s.processResponse resp = some (s', out)) :
    Inv (tr ++ out) s' := by
  rcases processResponse_cases hproc with ⟨rfl, rfl⟩ | ⟨id, p, o, hid, hp, ho, rfl, rfl⟩
  · rw [List.append_nil]
    exact h
  · obtain ⟨-, text, htext⟩ := h.pending id p hp
    refine h.complete p.call ?_ ?_ rfl rfl ?_ rfl rfl ?_
    · have herase := (s.pendings.perm_erase hp).map (fun e : ℕ × Pending => e.2.call)
      exact herase.append_right _
    · intro id' p' hp'
      exact (s.pendings.mem_erase.mp hp').1
    · intro hdown
-- after a shutdown nothing is pending, so the response finds no call
      have hempty := h.down hdown
      rw [hempty] at hp
      cases hp
    · intro call o' hmem
      cases List.mem_singleton.mp hmem
      exact Or.inl ((owed_of_response htext hrec hid ho).append _)

/-- A round of a loop. -/
theorem inv_next {tr out : List Output} {s s' : State} (h : Inv tr s)
    (hnext : s.next = some (s', out)) : Inv (tr ++ out) s' := by
  unfold State.next at hnext
  split at hnext
  · cases hnext
  · rename_i work hwork
    cases hnext
    refine h.quiet rfl ?_ rfl rfl rfl rfl rfl
    rw [hwork]
    rfl
  · rename_i r rs work hwork
    obtain ⟨⟨s₁, out₁⟩, hproc, heq⟩ := Option.map_eq_some_iff.mp hnext
    cases heq
    have hreceived : Inv (tr ++ [.received r]) { s with work := .responses rs :: work } := by
      refine h.quiet rfl ?_ rfl rfl rfl rfl rfl
      rw [hwork]
      rfl
    have := inv_processResponse hreceived
      (List.mem_append_right _ (List.mem_singleton_self _)) hproc
    rw [List.append_assoc] at this
    exact this
  · rename_i work hwork
    cases hnext
    refine h.quiet rfl ?_ rfl rfl rfl rfl rfl
    rw [hwork]
    rfl
  · rename_i p ps work hwork
    cases hnext
    refine h.complete p.call ?_ (fun _ _ hp => hp) rfl rfl h.down rfl rfl ?_
    · rw [hwork]
      exact List.perm_middle
    · intro call o hmem
      cases List.mem_singleton.mp hmem
      exact Or.inr rfl

/-- What was pending is to be failed now. -/
theorem inv_shutdown {tr : List Output} {s : State} (h : Inv tr s) : Inv tr s.shutdown where
  perm := by
    refine List.Perm.trans ?_ h.perm
    show ([] ++ (((s.pendings.entries.map Prod.snd).map Pending.call
      ++ s.work.flatMap Frame.calls) ++ completedCalls tr)).Perm _
    rw [List.nil_append, List.map_map, List.append_assoc]
    exact List.Perm.refl _
  ids := h.ids
  calls := h.calls
  known := h.known
  pending := nofun
  owed := h.owed
  down := fun _ => rfl

/-- **STEP**. -/
theorem inv_step {tr out : List Output} {s s' : State} {e : Event} (h : Inv tr s)
    (hs : step s e = some (s', out)) : Inv (tr ++ out) s' := by
  cases e with
  | command command params sizes =>
      obtain ⟨rfl, rfl⟩ := Prod.ext_iff.mp (Option.some.inj hs)
      exact inv_coreCommand h command params sizes
  | readable pieces =>
      obtain ⟨-, heq⟩ := Option.ite_none_right_eq_some.mp hs
      cases heq
      exact h.quiet rfl rfl rfl rfl rfl rfl rfl
  | writable sizes =>
      obtain ⟨-, heq⟩ := Option.ite_none_right_eq_some.mp hs
      cases heq
      exact inv_onWrite h sizes
  | parse =>
      obtain ⟨⟨hwork, -⟩, heq⟩ := Option.ite_none_right_eq_some.mp hs
      split at heq
      · cases heq
        refine h.quiet rfl ?_ rfl rfl rfl rfl rfl
        rw [List.isEmpty_iff.mp hwork]
        rfl
      · cases heq
  | shutdown =>
      cases hs
      rw [List.append_nil]
      exact inv_shutdown h
  | next => exact inv_next h hs

/-- **RUN**. -/
theorem inv_run {es : List Event} {s : State} {tr : List Output}
    (hrun : Machine.run step .init es = some (s, tr)) : Inv tr s :=
  Machine.run_invariant (P := fun _ _ => True) (I := fun _ tr s => Inv tr s) inv_init
    (fun _ _ _ _ _ _ h _ hs => inv_step h hs) (Machine.along_true _ _) hrun

theorem Inv.nodup {tr : List Output} {s : State} (h : Inv tr s) :
    (s.pendingCalls ++ (s.work.flatMap Frame.calls ++ completedCalls tr)).Nodup :=
  h.perm.nodup_iff.mpr List.nodup_range

theorem Inv.nodup_completedCalls {tr : List Output} {s : State} (h : Inv tr s) :
    (completedCalls tr).Nodup :=
  (List.nodup_append.mp (List.nodup_append.mp h.nodup).2.1).2.1

/-! ## After a shutdown -/

/-- Since a shutdown nothing is pending and everything fails. -/
structure Down (tr : List Output) (s : State) : Prop where
  shutdown : s.isShuttingDown = true
  pendings : s.pendings = .empty
  failed   : ∀ call o, .completed call o ∈ tr → o = .shutdown

theorem Down.quiet {tr out : List Output} {s s' : State} (h : Down tr s)
    (hshutdown : s'.isShuttingDown = s.isShuttingDown) (hpendings : s'.pendings = s.pendings)
    (hout : ∀ call o, .completed call o ∈ out → o = .shutdown) : Down (tr ++ out) s' where
  shutdown := hshutdown.trans h.shutdown
  pendings := hpendings.trans h.pendings
  failed := by
    intro call o hmem
    rcases List.mem_append.mp hmem with hmem | hmem
    · exact h.failed call o hmem
    · exact hout call o hmem

/-- A response finds nothing. -/
theorem processResponse_down {tr out : List Output} {s s' : State} {resp : Object} (h : Down tr s)
    (hproc : s.processResponse resp = some (s', out)) : s' = s ∧ out = [] := by
  rcases processResponse_cases hproc with hsame | ⟨id, p, o, -, hp, -⟩
  · exact hsame
  · rw [h.pendings] at hp
    cases hp

theorem down_next {tr out : List Output} {s s' : State} (h : Down tr s)
    (hnext : s.next = some (s', out)) : Down (tr ++ out) s' := by
  unfold State.next at hnext
  split at hnext
  · cases hnext
  · cases hnext
    exact h.quiet rfl rfl nofun
  · rename_i r rs work hwork
    obtain ⟨⟨s₁, out₁⟩, hproc, heq⟩ := Option.map_eq_some_iff.mp hnext
    cases heq
    have hpopped : Down (tr ++ []) { s with work := .responses rs :: work } :=
      h.quiet rfl rfl nofun
    obtain ⟨rfl, rfl⟩ := processResponse_down hpopped hproc
    refine h.quiet rfl rfl ?_
    intro call o hmem
    cases List.mem_singleton.mp hmem
  · cases hnext
    exact h.quiet rfl rfl nofun
  · cases hnext
    refine h.quiet rfl rfl ?_
    intro call o hmem
    cases List.mem_singleton.mp hmem
    rfl

theorem down_step {tr out : List Output} {s s' : State} {e : Event} (h : Down tr s)
    (hs : step s e = some (s', out)) : Down (tr ++ out) s' := by
  cases e with
  | command command params sizes =>
      obtain ⟨rfl, rfl⟩ := Prod.ext_iff.mp (Option.some.inj hs)
      unfold State.coreCommand
      rw [if_pos h.shutdown]
      refine h.quiet rfl rfl ?_
      intro call o hmem
      cases List.mem_singleton.mp hmem
      rfl
  | readable pieces =>
      obtain ⟨-, heq⟩ := Option.ite_none_right_eq_some.mp hs
      cases heq
      exact h.quiet rfl rfl nofun
  | writable sizes =>
      obtain ⟨-, heq⟩ := Option.ite_none_right_eq_some.mp hs
      cases heq
      refine h.quiet rfl rfl ?_
      intro call o hmem
      cases List.mem_singleton.mp hmem
  | parse =>
      obtain ⟨-, heq⟩ := Option.ite_none_right_eq_some.mp hs
      split at heq
      · cases heq
        exact h.quiet rfl rfl nofun
      · cases heq
  | shutdown =>
      cases hs
      exact h.quiet h.shutdown.symm h.pendings.symm nofun
  | next => exact down_next h hs

/-- **RUN**: whatever happens since a shutdown. -/
theorem down_run {es : List Event} {s s' : State} {tr : List Output}
    (hrun : Machine.run step s (.shutdown :: es) = some (s', tr)) : Down tr s' := by
  obtain ⟨s₁, out, tr', hs, hrest, rfl⟩ := Machine.run_cons hrun
  cases hs
  have hdown : Down [] s.shutdown := ⟨rfl, rfl, nofun⟩
  exact Machine.run_invariant (P := fun _ _ => True) (I := fun _ tr s => Down tr s) hdown
    (fun _ _ _ _ _ _ h _ hs => down_step h hs) (Machine.along_true _ _) hrest

/-- The loop of a shutdown that nothing interrupts. -/
theorem run_failures (s : State) (work : List Frame) (ps : List Pending) :
    Machine.run step { s with work := .failures ps :: work } (List.replicate (ps.length + 1) .next)
      = some ({ s with work := work }, ps.map (fun p => .completed p.call .shutdown)) := by
  induction ps with
  | nil => rfl
  | cons p ps ih =>
      have hround : step { s with work := .failures (p :: ps) :: work } .next
          = some ({ s with work := .failures ps :: work }, [.completed p.call .shutdown]) := rfl
      exact Machine.run_step hround ih

/-! ## Before a shutdown -/

/-- Until a shutdown nothing fails with one. -/
structure Up (tr : List Output) (s : State) : Prop where
  running : s.isShuttingDown = false
  loops   : ∀ f ∈ s.work, ∃ rs, f = .responses rs
  failed  : ∀ call, .completed call .shutdown ∉ tr

theorem Up.quiet {tr out : List Output} {s s' : State} (h : Up tr s)
    (hrunning : s'.isShuttingDown = s.isShuttingDown)
    (hloops : ∀ f ∈ s'.work, ∃ rs, f = .responses rs)
    (hout : ∀ call, .completed call .shutdown ∉ out) : Up (tr ++ out) s' where
  running := hrunning.trans h.running
  loops := hloops
  failed := by
    intro call hmem
    rcases List.mem_append.mp hmem with hmem | hmem
    · exact h.failed call hmem
    · exact hout call hmem

/-- No response is a shutdown. -/
theorem ne_shutdown_of_outcomeOf {resp : Object} {command : List UInt8} {o : Outcome}
    (h : outcomeOf resp command = .ok (some o)) : o ≠ .shutdown := by
  cases says_of_outcomeOf h with
  | result _ _ => exact nofun
  | error _ _ _ _ => exact nofun

theorem up_next {tr out : List Output} {s s' : State} (h : Up tr s)
    (hnext : s.next = some (s', out)) : Up (tr ++ out) s' := by
  have hloops := h.loops
  unfold State.next at hnext
  split at hnext
  · cases hnext
  · rename_i work hwork
    cases hnext
    rw [hwork] at hloops
    exact h.quiet rfl (fun f hf => hloops f (List.mem_cons_of_mem _ hf)) nofun
  · rename_i r rs work hwork
    obtain ⟨⟨s₁, out₁⟩, hproc, heq⟩ := Option.map_eq_some_iff.mp hnext
    cases heq
    rw [hwork] at hloops
    have hrest : ∀ f ∈ Frame.responses rs :: work, ∃ rs, f = .responses rs := by
      intro f hf
      rcases List.mem_cons.mp hf with rfl | hf
      · exact ⟨rs, rfl⟩
      · exact hloops f (List.mem_cons_of_mem _ hf)
    rcases processResponse_cases hproc with ⟨rfl, rfl⟩ | ⟨id, p, o, -, -, ho, rfl, rfl⟩
    · refine h.quiet rfl hrest ?_
      intro call hmem
      cases List.mem_singleton.mp hmem
    · refine h.quiet rfl hrest ?_
      intro call hmem
      rcases List.mem_cons.mp hmem with hmem | hmem
      · cases hmem
      · cases List.mem_singleton.mp hmem
        exact ne_shutdown_of_outcomeOf ho rfl
  · rename_i work hwork
    obtain ⟨rs, hrs⟩ := hloops (.failures []) (hwork ▸ List.mem_cons_self)
    cases hrs
  · rename_i p ps work hwork
    obtain ⟨rs, hrs⟩ := hloops (.failures (p :: ps)) (hwork ▸ List.mem_cons_self)
    cases hrs

theorem up_step {tr out : List Output} {s s' : State} {e : Event} (h : Up tr s)
    (he : e ≠ .shutdown) (hs : step s e = some (s', out)) : Up (tr ++ out) s' := by
  cases e with
  | command command params sizes =>
      obtain ⟨rfl, rfl⟩ := Prod.ext_iff.mp (Option.some.inj hs)
      unfold State.coreCommand
      rw [if_neg (by rw [h.running]; decide)]
      refine h.quiet rfl h.loops ?_
      intro call hmem
      rcases List.mem_cons.mp hmem with hmem | hmem
      · cases hmem
      · cases List.mem_singleton.mp hmem
  | readable pieces =>
      obtain ⟨-, heq⟩ := Option.ite_none_right_eq_some.mp hs
      cases heq
      exact h.quiet rfl h.loops nofun
  | writable sizes =>
      obtain ⟨-, heq⟩ := Option.ite_none_right_eq_some.mp hs
      cases heq
      refine h.quiet rfl h.loops ?_
      intro call hmem
      cases List.mem_singleton.mp hmem
  | parse =>
      obtain ⟨-, heq⟩ := Option.ite_none_right_eq_some.mp hs
      split at heq
      · cases heq
        refine h.quiet rfl ?_ nofun
        intro f hf
        exact ⟨_, List.mem_singleton.mp hf⟩
      · cases heq
  | shutdown => exact absurd rfl he
  | next => exact up_next h hs

/-- **RUN**: a call fails with a shutdown only once there was one. -/
theorem shutdown_mem_of_run {es : List Event} {s : State} {tr : List Output}
    (hrun : Machine.run step .init es = some (s, tr)) {call : ℕ}
    (hcall : .completed call .shutdown ∈ tr) : .shutdown ∈ es := by
  by_contra hnone
  have hinit : Up [] .init := ⟨rfl, nofun, nofun⟩
  have hes : ∀ e ∈ es, e ≠ .shutdown := by
    rintro e he rfl
    exact hnone he
  have hup := Machine.run_invariant (P := fun _ e => e ≠ .shutdown) (I := fun _ tr s => Up tr s)
    hinit (fun _ _ _ _ _ _ h he hs => up_step h he hs) (Machine.along_of_forall hes _) hrun
  exact hup.failed call hcall

/-! ## The bytes -/

/-- The tree of a request. -/
def requestTree (id : ℕ) (command : List UInt8) (params : Json.Out) : Json.Tree :=
  .obj [("jsonrpc".toUTF8.toList, .str "2.0".toUTF8.toList), ("id".toUTF8.toList, .int id),
    ("method".toUTF8.toList, .str command), ("params".toUTF8.toList, params.tree)]

/-- **SPEC** of a request's text: the id in it is the decimal of the request's id. -/
theorem requestText_eq (id : ℕ) (command : List UInt8) (params : Json.Out) :
    requestText id command params
        = (requestTree id command params).text ++ ['\n', '\n'].map Char.toUInt8
      ∧ Json.Tree.text (.int id) = Decimals.text id := by
  constructor
  · have hbuilds : Json.builds (requestCalls id command params)
        = some (requestTree id command params) := rfl
    unfold requestText
    rw [Json.build_content hbuilds]
    rfl
  · simp [Json.Tree.text, Json.intText]

/-- Every request is written as it should be. -/
def Written (tr : List Output) : Prop :=
  ∀ call id command text, .requested call id command text ∈ tr →
    ∃ params, text = (requestTree id command params).text ++ ['\n', '\n'].map Char.toUInt8

theorem written_step {s s' : State} {e : Event} {out : List Output}
    (hs : step s e = some (s', out)) : Written out := by
  intro call id command text hmem
  cases e with
  | command command' params sizes =>
      obtain ⟨-, rfl⟩ := Prod.ext_iff.mp (Option.some.inj hs)
      unfold State.coreCommand at hmem
      split at hmem
      · cases List.mem_singleton.mp hmem
      · rcases List.mem_cons.mp hmem with heq | hmem
        · cases heq
          exact ⟨params, (requestText_eq _ _ _).1⟩
        · cases List.mem_singleton.mp hmem
  | readable pieces =>
      obtain ⟨-, heq⟩ := Option.ite_none_right_eq_some.mp hs
      cases heq
      cases hmem
  | writable sizes =>
      obtain ⟨-, heq⟩ := Option.ite_none_right_eq_some.mp hs
      cases heq
      cases List.mem_singleton.mp hmem
  | parse =>
      obtain ⟨-, heq⟩ := Option.ite_none_right_eq_some.mp hs
      split at heq
      · cases heq
        cases hmem
      · cases heq
  | shutdown =>
      cases hs
      cases hmem
  | next =>
      have hnext : s.next = some (s', out) := hs
      unfold State.next at hnext
      split at hnext
      · cases hnext
      · cases hnext
        cases hmem
      · obtain ⟨⟨s₁, out₁⟩, hproc, heq⟩ := Option.map_eq_some_iff.mp hnext
        cases heq
        rcases processResponse_cases hproc with ⟨-, rfl⟩ | ⟨id, p, o, -, -, -, -, rfl⟩
        · cases List.mem_singleton.mp hmem
        · rcases List.mem_cons.mp hmem with heq | hmem
          · cases heq
          · cases List.mem_singleton.mp hmem
      · cases hnext
        cases hmem
      · cases hnext
        cases List.mem_singleton.mp hmem

theorem written_run {es : List Event} {s : State} {tr : List Output}
    (hrun : Machine.run step .init es = some (s, tr)) : Written tr := by
  refine Machine.run_invariant (P := fun _ _ => True) (I := fun _ tr _ => Written tr) nofun ?_
    (Machine.along_true _ _) hrun
  intro _ tr s e s' out h _ hs call id command text hmem
  rcases List.mem_append.mp hmem with hmem | hmem
  · exact h call id command text hmem
  · exact written_step hs call id command text hmem

/-- What the socket took. -/
def writtenBytes (tr : List Output) : List UInt8 :=
  tr.flatMap (fun o => match o with
    | .wrote bytes => bytes
    | _            => [])

/-- The texts of the requests. -/
def requestBytes (tr : List Output) : List UInt8 :=
  tr.flatMap (fun o => match o with
    | .requested _ _ _ text => text
    | _                     => [])

theorem writeLoop_append (sizes : List ℕ) (buffer : List UInt8) :
    (writeLoop sizes buffer).1 ++ (writeLoop sizes buffer).2 = buffer := by
  induction sizes generalizing buffer with
  | nil => rfl
  | cons size sizes ih =>
      unfold writeLoop
      simp only [List.append_assoc, ih, List.take_append_drop]

/-- The requests go out in order, in whatever pieces. -/
def Flows (tr : List Output) (s : State) : Prop := writtenBytes tr ++ s.toWrite = requestBytes tr

theorem Flows.quiet {tr out : List Output} {s s' : State} (h : Flows tr s)
    (hwritten : writtenBytes out = []) (hrequested : requestBytes out = [])
    (hwrite : s'.toWrite = s.toWrite) : Flows (tr ++ out) s' := by
  unfold Flows writtenBytes requestBytes at *
  rw [List.flatMap_append, List.flatMap_append, hwritten, hrequested, hwrite, List.append_nil,
    List.append_nil]
  exact h

theorem flows_onWrite {tr : List Output} {s : State} (h : Flows tr s) (sizes : List ℕ) :
    Flows (tr ++ (s.onWrite sizes).2) (s.onWrite sizes).1 := by
  have hsplit := writeLoop_append sizes s.toWrite
  unfold Flows writtenBytes requestBytes at *
  rw [List.flatMap_append, List.flatMap_append, ← h]
  simp [State.onWrite, hsplit]

theorem flows_coreCommand {tr : List Output} {s : State} (h : Flows tr s) (command : List UInt8)
    (params : Json.Out) (sizes : List ℕ) :
    Flows (tr ++ (s.coreCommand command params sizes).2)
      (s.coreCommand command params sizes).1 := by
  unfold State.coreCommand
  split
  · exact h.quiet rfl rfl rfl
  · have hrequested : Flows
        (tr ++ [.requested s.calls s.nextId command (requestText s.nextId command params)])
        { s with
          nextId   := s.nextId + 1
          toWrite  := s.toWrite ++ requestText s.nextId command params
          pendings := s.pendings.assign s.nextId ⟨command, s.calls⟩
          calls    := s.calls + 1 } := by
      unfold Flows writtenBytes requestBytes at *
      rw [List.flatMap_append, List.flatMap_append, ← h]
      simp
    have hwrite := flows_onWrite hrequested sizes
    rw [List.append_assoc] at hwrite
    exact hwrite

theorem flows_next {tr out : List Output} {s s' : State} (h : Flows tr s)
    (hnext : s.next = some (s', out)) : Flows (tr ++ out) s' := by
  unfold State.next at hnext
  split at hnext
  · cases hnext
  · cases hnext
    exact h.quiet rfl rfl rfl
  · obtain ⟨⟨s₁, out₁⟩, hproc, heq⟩ := Option.map_eq_some_iff.mp hnext
    cases heq
    rcases processResponse_cases hproc with ⟨rfl, rfl⟩ | ⟨id, p, o, -, -, -, rfl, rfl⟩
    · exact h.quiet rfl rfl rfl
    · exact h.quiet rfl rfl rfl
  · cases hnext
    exact h.quiet rfl rfl rfl
  · cases hnext
    exact h.quiet rfl rfl rfl

/-- **RUN**: what was written is a beginning of the requests, in the order of their ids. -/
theorem flows_run {es : List Event} {s : State} {tr : List Output}
    (hrun : Machine.run step .init es = some (s, tr)) : Flows tr s := by
  have hinit : Flows [] .init := rfl
  refine Machine.run_invariant (P := fun _ _ => True) (I := fun _ tr s => Flows tr s) hinit ?_
    (Machine.along_true _ _) hrun
  intro _ tr s e s' out h _ hs
  cases e with
  | command command params sizes =>
      obtain ⟨rfl, rfl⟩ := Prod.ext_iff.mp (Option.some.inj hs)
      exact flows_coreCommand h command params sizes
  | readable pieces =>
      obtain ⟨-, heq⟩ := Option.ite_none_right_eq_some.mp hs
      cases heq
      exact h.quiet rfl rfl rfl
  | writable sizes =>
      obtain ⟨-, heq⟩ := Option.ite_none_right_eq_some.mp hs
      cases heq
      exact flows_onWrite h sizes
  | parse =>
      obtain ⟨-, heq⟩ := Option.ite_none_right_eq_some.mp hs
      split at heq
      · cases heq
        exact h.quiet rfl rfl rfl
      · cases heq
  | shutdown =>
      cases hs
      exact h.quiet rfl rfl rfl
  | next => exact flows_next h hs

/-! ## All runs -/

/-- What a response with a pending call's id says, that call is completed with. -/
theorem next_of_response {s : State} {r : Object} {rs : List Object} {work : List Frame} {id : ℕ}
    {p : Pending} {o : Outcome} (hwork : s.work = .responses (r :: rs) :: work)
    (hp : (id, p) ∈ s.pendings.entries) (hlt : id < UInt64.size)
    (hid : HasId r (Decimals.text id)) (ho : outcomeOf r p.command = .ok (some o)) :
    ∃ s', step s .next = some (s', [.received r, .completed p.call o]) := by
  have hfind := s.pendings.find_eq_some_iff.mpr hp
  show ∃ s', s.next = _
  unfold State.next
  rw [hwork]
  unfold State.processResponse
  simp only [idOf_of_text hlt hid, hfind, ho, Option.map_some]
  exact ⟨_, rfl⟩

/-- **HEADLINE**: in every run every call is completed at most once, with a result
    or an error only from a response with the id that the call alone has, and with
    a failure only once there was a shutdown; a response with the id that stands in
    a pending call's request completes it with what it says.  From a
    shutdown on nothing is pending and every completion is a failure, and when
    its loop has ended every call was completed, those then pending once since;
    later on only later calls complete.  Left alone, the loop ends. -/
theorem calls_sound {es : List Event} {s : State} {tr : List Output}
    (hrun : Machine.run step .init es = some (s, tr)) :
    (completedCalls tr).Nodup
      ∧ (∀ call o, .completed call o ∈ tr →
          Owed tr call o ∨ o = .shutdown ∧ .shutdown ∈ es)
      ∧ (∀ r rs work id p o, s.work = .responses (r :: rs) :: work →
          (id, p) ∈ s.pendings.entries → id < UInt64.size → HasId r (Decimals.text id) →
          Says r p.command o →
          ∃ s', step s .next = some (s', [.received r, .completed p.call o]))
      ∧ Written tr ∧ writtenBytes tr ++ s.toWrite = requestBytes tr
      ∧ ((requests tr).map Prod.fst).Nodup ∧ ((requests tr).map Prod.snd).Nodup
      ∧ (∀ es' s' tr', Machine.run step s (.shutdown :: es') = some (s', tr') →
          s'.pendings = .empty ∧ (∀ call o, .completed call o ∈ tr' → o = .shutdown)
          ∧ (s'.work = [] → (∀ call < s'.calls, call ∈ completedCalls (tr ++ tr'))
              ∧ ∀ call ∈ s.pendingCalls, (completedCalls tr').count call = 1))
      ∧ (s.isShuttingDown = true → s.work = [] → ∀ es' s' tr',
          Machine.run step s es' = some (s', tr') → ∀ call ∈ completedCalls tr', s.calls ≤ call)
      ∧ Machine.run step s (.shutdown :: List.replicate (s.pendings.entries.length + 1) .next)
          = some ({ s.shutdown with work := s.work },
            s.pendings.entries.map (fun e => .completed e.2.call .shutdown)) := by
  have h := inv_run hrun
  refine ⟨h.nodup_completedCalls, ?_, ?_, written_run hrun, flows_run hrun, ?_, ?_, ?_, ?_, ?_⟩
  · intro call o hmem
    rcases h.owed call o hmem with ho | rfl
    · exact Or.inl ho
    · exact Or.inr ⟨rfl, shutdown_mem_of_run hrun hmem⟩
  · intro r rs work id p o hwork hp hlt hid ho
    exact next_of_response hwork hp hlt hid ho.outcomeOf_eq
  · exact h.calls.imp (fun hlt => Nat.ne_of_lt hlt)
  · rw [h.ids]
    exact List.nodup_range
  · intro es' s' tr' hrun'
    have hdown := down_run hrun'
    have h' := inv_run (Machine.run_append hrun hrun')
    refine ⟨hdown.pendings, hdown.failed, fun hwork => ?_⟩
    -- nothing is left but what is completed
    have hall := h'.perm
    unfold State.pendingCalls at hall
    rw [hdown.pendings, hwork] at hall
    simp only [OrderedMap.entries_empty, List.map_nil, List.flatMap_nil, List.nil_append] at hall
    refine ⟨fun call hcall => hall.mem_iff.mpr (List.mem_range.mpr hcall), ?_⟩
    intro call hcall
    obtain ⟨⟨id, p⟩, hp, rfl⟩ := List.mem_map.mp hcall
    obtain ⟨-, text, htext⟩ := h.pending id p hp
    have hlt : p.call < s'.calls := h'.known (p.call, id)
      (List.mem_filterMap.mpr ⟨_, List.mem_append_left _ htext, rfl⟩)
    have hmem := hall.mem_iff.mpr (List.mem_range.mpr hlt)
    have hnodup := h'.nodup_completedCalls
    rw [completedCalls_append] at hmem hnodup
    have hnot : p.call ∉ completedCalls tr := by
      have hdisjoint := (List.nodup_append.mp h.nodup).2.2
      exact fun hin => hdisjoint _ hcall _ (List.mem_append_right _ hin) rfl
    exact List.count_eq_one_of_mem (List.nodup_append.mp hnodup).2.1
      ((List.mem_append.mp hmem).resolve_left hnot)
  · intro hs hwork es' s' tr' hrun' call hcall
    have hall := h.perm
    unfold State.pendingCalls at hall
    rw [h.down hs, hwork] at hall
    have hnodup := (inv_run (Machine.run_append hrun hrun')).nodup_completedCalls
    rw [completedCalls_append] at hnodup
    refine Nat.le_of_not_lt (fun hlt => ?_)
    exact (List.nodup_append.mp hnodup).2.2 _ (hall.mem_iff.mpr (List.mem_range.mpr hlt)) _ hcall
      rfl
  · have hloop := run_failures s.shutdown s.work (s.pendings.entries.map Prod.snd)
    rw [List.length_map, List.map_map] at hloop
    have hstep : step s .shutdown = some (s.shutdown, []) := rfl
    exact Machine.run_step hstep hloop

/-- No parameters. -/
def sampleParams : Json.Out := Json.Out.emptyObject

/-- Two commands, the second one answered in two pieces; what it leads to is a
    third command, and a shutdown in whose loop there is a fourth. -/
def sampleRun : List Event :=
  [.command [0x61] sampleParams [20], .command [0x62] sampleParams [],
    .readable [['\x7b', '"', 'i', 'd', '"', ':', '1', ','].map Char.toUInt8],
    .readable [['"', 'r', 'e', 's', 'u', 'l', 't', '"', ':', '[', ']', '\x7d'].map Char.toUInt8],
    .parse, .next, .command [0x63] sampleParams [600], .shutdown, .next,
    .command [0x64] sampleParams [], .next, .next, .next]

/-- How the calls of the sample end: with an empty array, or with a failure. -/
def sampleOutcomes (tr : List Output) : List (ℕ × Bool) :=
  tr.filterMap (fun o => match o with
    | .completed call (.result (some (.arr []))) => some (call, true)
    | .completed call .shutdown                  => some (call, false)
    | _                                          => none)

theorem calls_sound_sample :
    ∃ s tr, Machine.run step .init sampleRun = some (s, tr) ∧ completedCalls tr = [1, 0, 3, 2]
      ∧ sampleOutcomes tr = [(1, true), (0, false), (3, false), (2, false)]
      ∧ (completedCalls tr).Nodup ∧ Owed tr 1 (.result (some (.arr []))) := by
  have hdone : (Machine.run step .init sampleRun).map
      (fun p => (completedCalls p.2, sampleOutcomes p.2))
        = some ([1, 0, 3, 2], [(1, true), (0, false), (3, false), (2, false)]) := by
    decide +kernel
  obtain ⟨⟨s, tr⟩, hrun, hcalls⟩ := Option.map_eq_some_iff.mp hdone
  obtain ⟨hcalls, houtcomes⟩ := Prod.mk.inj hcalls
  obtain ⟨hnodup, howed, -⟩ := calls_sound hrun
  refine ⟨s, tr, hrun, hcalls, houtcomes, hnodup, ?_⟩
  -- the first of them is in the trace
  have hfirst : (1, true) ∈ sampleOutcomes tr := by
    rw [show sampleOutcomes tr = _ from houtcomes]
    exact List.mem_cons_self
  obtain ⟨o, hmem, ho⟩ := List.mem_filterMap.mp hfirst
  split at ho
  · cases ho
    rcases howed _ _ hmem with h | ⟨h, -⟩
    · exact h
    · cases h
  · cases ho
  · cases ho

end Rpc
