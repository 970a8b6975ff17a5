import Clboss.LatchProofs
import Clboss.RpcProofs
import Clboss.JsonNumberProofs
import Clboss.JsonRoundTripProofs
import Mathlib.Data.Finset.Basic

/-! # `Boss::Mod::CommandReceiver` — commands from the node and their answers

    What comes in on the standard input is a notification, the hook
    `rpc_command` or a command; whatever is none of them is dropped without a
    word.  A command's id goes into `pendings`, the other modules raise
    responses and failures for it, at any time and any number of them, and only
    one that finds its id in `pendings` is written out.

    So an answer to a command is the FIRST thing raised for its id after it
    arrived, and everything else raised for this id until it is used again is
    dropped (`run_answers`).  The answer carries the id as `CommandId` keeps
    it, which is not always what the node wrote (`echoes_iff`). -/

namespace CommandReceiver

open Jsmn

/-! ## Ids -/

/-- `Ln::CommandId`. -/
inductive CommandId where
  | left (n : ℕ)
  | right (s : List UInt8)
deriving DecidableEq

/-- `command_id_from_jsmn_object`. -/
def commandIdFromJsmnObject (j : Object) : Except Failure (Option CommandId) := do
  if j.isNumber then
    return some (.left (Rpc.stringToU64 (j.directText.getD [])))
  else if j.isString then
    return some (.right (← j.str))
  return none

/-- What `Serializer` takes of an id. -/
def CommandId.arg : CommandId → Json.Arg
  | .left n  => .int n
  | .right s => .str s

/-! ## What comes in -/

/-- What an object on the standard input is taken for. -/
inductive Message where
  | ignored
  | notification (method : List UInt8) (params : Object)
  | rpcCommand (id params : Object)
  | command (method : List UInt8) (params : Object) (id : CommandId)

/-- The handler of `JsonCin`, up to what it raises; a failure is an assertion. -/
def onJsonCin (inp : Object) : Except Failure Message := do
  if !inp.isObject then return .ignored
  if !(← inp.has "method") then return .ignored
  if !(← inp.index "method").isString then return .ignored
  if !(← inp.has "params") then return .ignored
  let method ← (← inp.index "method").str
  let params ← inp.index "params"
  if !(← inp.has "id") then return .notification method params
  let id ← inp.index "id"
  if method = "rpc_command".toUTF8.toList then
    -- the answer prints the id
    if id.prints then return .rpcCommand id params else throw .assertion
  match ← commandIdFromJsmnObject id with
  | none    => return .ignored
  | some id => return .command method params id

/-! ## What is a hook, and what a command -/

/-- An object with a method, with parameters and with an id. -/
structure Request (inp : Object) (method : List UInt8) (params id : Object) : Prop where
  method : ∃ o, inp.index "method" = .ok o ∧ o.str = .ok method
  params : inp.index "params" = .ok params ∧ params.isSome = true
  id     : inp.index "id" = .ok id ∧ id.isSome = true

theorem has_eq_ok {o : Object} {key : String} {b : Bool} :
    o.has key = .ok b ↔ ∃ v, o.index key = .ok v ∧ v.isSome = b := by
  unfold Object.has
  rw [bind_eq_ok]
  simp [pure, Except.pure]

/-- What a request is taken for. -/
theorem onJsonCin_of_request {inp params id : Object} {method : List UInt8}
    (h : Request inp method params id) :
    onJsonCin inp = if method = "rpc_command".toUTF8.toList then
        (if id.prints then .ok (.rpcCommand id params) else .error .assertion)
      else (commandIdFromJsmnObject id).map fun
        | none    => .ignored
        | some id => .command method params id := by
  obtain ⟨⟨o, ho, hmethod⟩, ⟨hparams, hparams'⟩, ⟨hid, hid'⟩⟩ := h
  have hobject := Object.isObject_of_index ho
  have hstring := Object.isString_of_str hmethod
  have hsome : o.isSome = true := by
    cases o with
    | none => cases hmethod
    | some v => rfl
  have hhasm : inp.has "method" = .ok true := has_eq_ok.mpr ⟨o, ho, hsome⟩
  have hhasp : inp.has "params" = .ok true := has_eq_ok.mpr ⟨params, hparams, hparams'⟩
  have hhasi : inp.has "id" = .ok true := has_eq_ok.mpr ⟨id, hid, hid'⟩
  unfold onJsonCin
  simp only [hobject, hhasm, ho, hstring, hhasp, hmethod, hparams, hhasi, hid, bind, Except.bind,
    pure, Except.pure, throw, throwThe, MonadExceptOf.throw, Bool.not_true, Bool.false_eq_true,
    if_false]
  split
  · rfl
  · cases commandIdFromJsmnObject id with
    | error e => rfl
    | ok i => cases i <;> rfl

/-- Only a request is a hook or a command. -/
theorem request_of_onJsonCin {inp : Object} {m : Message} (h : onJsonCin inp = .ok m) :
    m = .ignored ∨ (∃ method params, m = .notification method params)
      ∨ ∃ method params id, Request inp method params id := by
  unfold onJsonCin at h
  split at h
  · cases h
    exact Or.inl rfl
  obtain ⟨b, -, h⟩ := bind_eq_ok.mp h
  split at h
  · cases h
    exact Or.inl rfl
  obtain ⟨o, ho, h⟩ := bind_eq_ok.mp h
  split at h
  · cases h
    exact Or.inl rfl
  obtain ⟨hasp, hhasp, h⟩ := bind_eq_ok.mp h
  split at h
  · cases h
    exact Or.inl rfl
  rename_i hp
  obtain ⟨o', ho', h⟩ := bind_eq_ok.mp h
  cases ho.symm.trans ho'
  obtain ⟨method, hmethod, h⟩ := bind_eq_ok.mp h
  obtain ⟨params, hparams, h⟩ := bind_eq_ok.mp h
  obtain ⟨hasi, hhasi, h⟩ := bind_eq_ok.mp h
  split at h
  · cases h
    exact Or.inr (Or.inl ⟨method, params, rfl⟩)
  rename_i hi
  obtain ⟨id, hid, h⟩ := bind_eq_ok.mp h
  obtain ⟨v, hv, hsome⟩ := has_eq_ok.mp hhasp
  cases hparams.symm.trans hv
  obtain ⟨w, hw, hsome'⟩ := has_eq_ok.mp hhasi
  cases hid.symm.trans hw
  refine Or.inr (Or.inr ⟨method, params, id, ⟨o, ho, hmethod⟩, ⟨hparams, ?_⟩, hid, ?_⟩)
  · simpa [hsome] using hp
  · simpa [hsome'] using hi

/-- **EXACTLY** the requests of this method whose id prints are hooks. -/
theorem onJsonCin_rpcCommand_iff {inp id params : Object} :
    onJsonCin inp = .ok (.rpcCommand id params)
      ↔ Request inp "rpc_command".toUTF8.toList params id ∧ id.prints = true := by
  constructor
  · intro h
    obtain hm | ⟨method, params', hm⟩ | ⟨method, params', id', hrequest⟩ := request_of_onJsonCin h
    · cases hm
    · cases hm
    · rw [onJsonCin_of_request hrequest] at h
      split at h
      · rename_i hmethod
        split at h
        · rename_i hprints
          cases h
          subst hmethod
          exact ⟨hrequest, hprints⟩
        · cases h
      · cases hcommand : commandIdFromJsmnObject id' with
        | error e =>
            rw [hcommand] at h
            cases h
        | ok i =>
            rw [hcommand] at h
            cases i <;> cases h
  · rintro ⟨hrequest, hprints⟩
    rw [onJsonCin_of_request hrequest, if_pos rfl, if_pos hprints]

/-- **EXACTLY** the requests of other methods, with an id of some sort, are commands. -/
theorem onJsonCin_command_iff {inp params : Object} {method : List UInt8} {id : CommandId} :
    onJsonCin inp = .ok (.command method params id)
      ↔ method ≠ "rpc_command".toUTF8.toList ∧ ∃ j, Request inp method params j
        ∧ commandIdFromJsmnObject j = .ok (some id) := by
  constructor
  · intro h
    obtain hm | ⟨method', params', hm⟩ | ⟨method', params', j, hrequest⟩ := request_of_onJsonCin h
    · cases hm
    · cases hm
    · rw [onJsonCin_of_request hrequest] at h
      split at h
      · split at h
        · cases h
        · cases h
      · rename_i hmethod
        cases hcommand : commandIdFromJsmnObject j with
        | error e =>
            rw [hcommand] at h
            cases h
        | ok i =>
            rw [hcommand] at h
            cases i with
            | none    => cases h
            | some id' =>
                cases h
                exact ⟨hmethod, j, hrequest, hcommand⟩
  · rintro ⟨hmethod, j, hrequest, hcommand⟩
    rw [onJsonCin_of_request hrequest, if_neg hmethod, hcommand]
    rfl

/-! ## What goes out -/

/-- What a command is answered. -/
inductive Reply where
  | result (response : Json.Out)
  | error (code : ℤ) (message : List UInt8) (data : Json.Out)

/-- The calls that build the answer to a command. -/
def Reply.calls (id : CommandId) : Reply → List Json.Call
  | .result response         =>
      [.startObject none,
        .field "jsonrpc".toUTF8.toList (.str "2.0".toUTF8.toList),
        .field "id".toUTF8.toList id.arg,
        .field "result".toUTF8.toList (.out response),
        .endObject]
  | .error code message data =>
      [.startObject none,
        .field "jsonrpc".toUTF8.toList (.str "2.0".toUTF8.toList),
        .field "id".toUTF8.toList id.arg,
        .startObject (some "error".toUTF8.toList),
        .field "code".toUTF8.toList (.int code),
        .field "message".toUTF8.toList (.str message),
        .field "data".toUTF8.toList (.out data),
        .endObject,
        .endObject]

inductive Event where
  | jsonCin (inp : Object)
  /-- A `CommandResponse` or a `CommandFail`. -/
  | commandResponse (id : CommandId) (response : Json.Out)
  | commandFail (id : CommandId) (code : ℤ) (message : List UInt8) (data : Json.Out)
  | manifestation

inductive Output where
  /-- A `JsonCout`: the answer to the hook, which is to go on at once, or to a command. -/
  | proceed (id : Object)
  | answer (id : CommandId) (reply : Reply)
  | notification (method : List UInt8) (params : Object)
  | rpcCommandHook (params : Object)
  | commandRequest (method : List UInt8) (params : Object) (id : CommandId)
  | manifestHook (name : String)

structure State where
  pendings : Finset CommandId
deriving DecidableEq

def State.init : State := ⟨∅⟩

/-- The handlers of `CommandResponse` and `CommandFail`. -/
def State.answer (s : State) (id : CommandId) (reply : Reply) : State × List Output :=
  if id ∈ s.pendings then (⟨s.pendings.erase id⟩, [.answer id reply]) else (s, [])

/-- What the handler of `JsonCin` does with what it has read. -/
def State.receive (s : State) : Message → State × List Output
  | .ignored                    => (s, [])
  | .notification method params => (s, [.notification method params])
  | .rpcCommand id params       => (s, [.proceed id, .rpcCommandHook params])
  | .command method params id   => (⟨insert id s.pendings⟩, [.commandRequest method params id])

/-- What a message raises; a failed assertion ends the program. -/
def step (s : State) : Event → Option (State × List Output)
  | .jsonCin inp                      => (onJsonCin inp).toOption.map s.receive
  | .commandResponse id response      => some (s.answer id (.result response))
  | .commandFail id code message data => some (s.answer id (.error code message data))
  | .manifestation                    => some (s, [.manifestHook "rpc_command"])

abbrev run := Machine.run step

/-! ## Commands and answers -/

/-- The id of the command that an event brings. -/
def Event.accepts : Event → Option CommandId
  | .jsonCin inp =>
      match onJsonCin inp with
      | .ok (.command _ _ id) => some id
      | _                     => none
  | _ => none

/-- What an event has to say about an id. -/
def Event.utters (id : CommandId) : Event → Option Reply
  | .commandResponse id' response      => if id' = id then some (.result response) else none
  | .commandFail id' code message data =>
      if id' = id then some (.error code message data) else none
  | _ => none

/-- What is written to a command's id. -/
def Output.answers (id : CommandId) : Output → Option Reply
  | .answer id' reply => if id' = id then some reply else none
  | _                 => none

/-- The ids of hooks, and of the answers to them. -/
def Event.hook : Event → Option Object
  | .jsonCin inp =>
      match onJsonCin inp with
      | .ok (.rpcCommand id _) => some id
      | _                      => none
  | _ => none

def Output.proceeds : Output → Option Object
  | .proceed id => some id
  | _           => none

theorem hook_iff {inp id : Object} :
    (Event.jsonCin inp).hook = some id
      ↔ id.prints = true ∧ ∃ params, Request inp "rpc_command".toUTF8.toList params id := by
  simp only [Event.hook]
  constructor
  · intro h
    split at h
    · rename_i params hread
      cases h
      obtain ⟨hrequest, hprints⟩ := onJsonCin_rpcCommand_iff.mp hread
      exact ⟨hprints, params, hrequest⟩
    · cases h
  · rintro ⟨hprints, params, hrequest⟩
    rw [onJsonCin_rpcCommand_iff.mpr ⟨hrequest, hprints⟩]

theorem accepts_iff {inp : Object} {id : CommandId} :
    (Event.jsonCin inp).accepts = some id
      ↔ ∃ method params j, Request inp method params j ∧ method ≠ "rpc_command".toUTF8.toList
        ∧ commandIdFromJsmnObject j = .ok (some id) := by
  simp only [Event.accepts]
  constructor
  · intro h
    split at h
    · rename_i method params id' hread
      cases h
      obtain ⟨hmethod, j, hrequest, hcommand⟩ := onJsonCin_command_iff.mp hread
      exact ⟨method, params, j, hrequest, hmethod, hcommand⟩
    · cases h
  · rintro ⟨method, params, j, hrequest, hmethod, hcommand⟩
    rw [onJsonCin_command_iff.mpr ⟨hmethod, j, hrequest, hcommand⟩]

/-- What comes in is read before anything else is done. -/
theorem receive_of_step {s s' : State} {inp : Object} {out : List Output}
    (h : step s (.jsonCin inp) = some (s', out)) :
    ∃ m, onJsonCin inp = .ok m ∧ s.receive m = (s', out) := by
  obtain ⟨m, hm, h⟩ := Option.map_eq_some_iff.mp h
  cases hread : onJsonCin inp with
  | error f => rw [hread] at hm; cases hm
  | ok m' =>
      rw [hread] at hm
      cases hm
      exact ⟨m, rfl, h⟩

/-- What `answer` does to each id. -/
theorem answer_slot (s : State) (id : CommandId) (reply : Reply) (k : CommandId) :
    (s.answer id reply).2.filterMap (Output.answers k)
        = (if k ∈ s.pendings then (if id = k then [reply] else []) else [])
      ∧ (k ∈ (s.answer id reply).1.pendings ↔ k ∈ s.pendings ∧ id ≠ k) := by
  unfold State.answer
  by_cases hid : id ∈ s.pendings
  · rw [if_pos hid]
    by_cases hk : id = k
    · subst hk
      simp [Output.answers, hid]
    · simp [Output.answers, hk, Ne.symm hk]
  · rw [if_neg hid]
    refine ⟨?_, ?_⟩
    · by_cases hk : id = k
      · subst hk
        simp [hid]
      · simp [hk]
    · constructor
      · intro h
        exact ⟨h, fun hk => hid (hk ▸ h)⟩
      · exact And.left

/-- **STEP**: the ids in `pendings` are slots that commands open and answers close. -/
theorem law : Latch.Law step (fun s id => decide (id ∈ s.pendings))
    (fun _ e id => decide (e.accepts = some id)) (fun _ e id => e.utters id) Output.answers := by
  have hstep : ∀ {s e s' out}, step s e = some (s', out) → ∀ k,
      out.filterMap (Output.answers k)
          = (if k ∈ s.pendings ∨ e.accepts = some k then (e.utters k).toList else [])
        ∧ (k ∈ s'.pendings ↔ (k ∈ s.pendings ∨ e.accepts = some k) ∧ e.utters k = none) := by
    intro s e s' out h k
    cases e with
    | jsonCin inp =>
        obtain ⟨m, hread, h⟩ := receive_of_step h
        cases m with
        | command method params id =>
            cases h
            by_cases hk : k = id
            · simp [Output.answers, Event.accepts, Event.utters, hread, hk]
            · simp [Output.answers, Event.accepts, Event.utters, hread, hk, Ne.symm hk]
        | _ =>
            cases h
            simp [Output.answers, Event.accepts, Event.utters, hread]
    | manifestation =>
        cases h
        simp [Output.answers, Event.accepts, Event.utters]
    | commandResponse id response =>
        obtain ⟨hout, hs⟩ := answer_slot s id (.result response) k
        rw [Option.some.inj h] at hout hs
        rw [hout, hs]
        by_cases hk : id = k
        · simp [Event.accepts, Event.utters, hk]
        · simp [Event.accepts, Event.utters, hk]
    | commandFail id code message data =>
        obtain ⟨hout, hs⟩ := answer_slot s id (.error code message data) k
        rw [Option.some.inj h] at hout hs
        rw [hout, hs]
        by_cases hk : id = k
        · simp [Event.accepts, Event.utters, hk]
        · simp [Event.accepts, Event.utters, hk]
  constructor
  · intro s e s' out h k
    rw [(hstep h k).1]
    simp
  · intro s e s' out h k
    rw [Bool.eq_iff_iff]
    simp [(hstep h k).2]

/-- The answer to a hook prints its id, so a hook whose id does not print ends the run. -/
theorem prints_of_step {s s' : State} {inp params id : Object} {out : List Output}
    (h : step s (.jsonCin inp) = some (s', out))
    (hrequest : Request inp "rpc_command".toUTF8.toList params id) : id.prints = true := by
  obtain ⟨m, hread, -⟩ := receive_of_step h
  rw [onJsonCin_of_request hrequest, if_pos rfl] at hread
  split at hread
  · rename_i hprints
    exact hprints
  · cases hread

theorem answer_proceeds (s : State) (id : CommandId) (reply : Reply) :
    (s.answer id reply).2.filterMap Output.proceeds = [] := by
  unfold State.answer
  split
  · rfl
  · rfl

/-- Each hook is answered on the spot. -/
theorem step_proceeds {s s' : State} {e : Event} {out : List Output}
    (h : step s e = some (s', out)) : out.filterMap Output.proceeds = e.hook.toList := by
  cases e with
  | jsonCin inp =>
      obtain ⟨m, hread, h⟩ := receive_of_step h
      cases m with
      | _ =>
          cases h
          simp [Output.proceeds, Event.hook, hread]
  | manifestation =>
      cases h
      rfl
  | commandResponse id response =>
      have hout := answer_proceeds s id (.result response)
      rw [Option.some.inj h] at hout
      exact hout
  | commandFail id code message data =>
      have hout := answer_proceeds s id (.error code message data)
      rw [Option.some.inj h] at hout
      exact hout

/-! ## Runs -/

theorem run_proceeds {s s' : State} {es : List Event} {tr : List Output}
    (hrun : run s es = some (s', tr)) :
    tr.filterMap Output.proceeds = es.filterMap Event.hook := by
  induction es generalizing s tr with
  | nil =>
      cases hrun
      rfl
  | cons e es ih =>
      obtain ⟨s₁, out, tr', hs, hr, rfl⟩ := Machine.run_cons hrun
      rw [List.filterMap_append, ih hr, step_proceeds hs, List.filterMap_cons]
      cases e.hook with
      | none => rfl
      | some id => rfl

/-- How often an id came with a command. -/
theorem length_accepted (id : CommandId) (es : List Event) :
    (es.filterMap (fun e => if decide (e.accepts = some id) then some () else none)).length
      = (es.filterMap Event.accepts).count id := by
  induction es with
  | nil => rfl
  | cons e es ih =>
      cases he : e.accepts with
      | none =>
          rw [List.filterMap_cons_none (by simp [he]), List.filterMap_cons_none he]
          exact ih
      | some id' =>
          rw [List.filterMap_cons_some he, List.count_cons, ← ih]
          by_cases hid : id' = id
          · rw [List.filterMap_cons_some (b := ()) (by simp [he, hid])]
            simp [hid]
          · rw [List.filterMap_cons_none (by simp [he, hid])]
            simp [hid]

/-- **HEADLINE**: an id is answered no more often than commands came with it; after a
    command, and until its id is used again, what is written to it is the first thing
    that is said about it; and each hook is told to go on, its id being one that prints.
    Commands and hooks are the requests of `onJsonCin`, apart by their method. -/
theorem run_answers {es : List Event} {s : State} {tr : List Output}
    (hrun : run .init es = some (s, tr)) :
    (∀ id, (tr.filterMap (Output.answers id)).length ≤ (es.filterMap Event.accepts).count id)
      ∧ (∀ id es₁ e es₂, es = es₁ ++ e :: es₂ → e.accepts = some id →
          (∀ e' ∈ es₂, e'.accepts ≠ some id) →
          ∃ s₁ tr₁ tr₂, run .init es₁ = some (s₁, tr₁) ∧ tr = tr₁ ++ tr₂
            ∧ tr₂.filterMap (Output.answers id) = (es₂.filterMap (Event.utters id)).take 1)
      ∧ tr.filterMap Output.proceeds = es.filterMap Event.hook
      ∧ (∀ inp params id, .jsonCin inp ∈ es →
          Request inp "rpc_command".toUTF8.toList params id → id.prints = true)
      ∧ (∀ inp id, (Event.jsonCin inp).hook = some id
          ↔ id.prints = true ∧ ∃ params, Request inp "rpc_command".toUTF8.toList params id)
      ∧ ∀ inp id, (Event.jsonCin inp).accepts = some id
          ↔ ∃ method params j, Request inp method params j
            ∧ method ≠ "rpc_command".toUTF8.toList
            ∧ commandIdFromJsmnObject j = .ok (some id) := by
  refine ⟨fun id => ?_, ?_, run_proceeds hrun, ?_, fun _ _ => hook_iff, fun _ _ => accepts_iff⟩
  · have hle := Latch.length_shown_le law id hrun
    rw [Latch.along_of_events
      (f := fun e : Event => if decide (e.accepts = some id) then some () else none) hrun,
      length_accepted] at hle
    have hinit : (decide (id ∈ State.init.pendings)).toNat = 0 := by
      simp [State.init]
    omega
  · rintro id es₁ e es₂ rfl he hes₂
    obtain ⟨s₁, tr₁, tr₂, h₁, h₂, rfl⟩ := Machine.run_of_append hrun
    refine ⟨s₁, tr₁, tr₂, h₁, rfl, ?_⟩
    obtain ⟨s₂, out, tr₃, hs, hr, rfl⟩ := Machine.run_cons h₂
    -- the command itself says nothing about its id, and leaves it in `pendings`
    have hutters : e.utters id = none := by
      cases e with
      | jsonCin inp => rfl
      | _ => cases he
    have hout := law.shown hs id
    have hopen := law.kept hs id
    rw [hutters] at hout hopen
    have hshown := (Latch.shown_of_run law hr (k := id)
      (Machine.along_of_forall (fun e' he' => decide_eq_false (hes₂ e' he')) s₂)).1
    rw [Latch.along_of_events hr, hopen] at hshown
    rw [List.filterMap_append, hout, hshown]
    simp [he]
  · intro inp params id hmem hrequest
    obtain ⟨es₁, es₂, rfl⟩ := List.append_of_mem hmem
    obtain ⟨s₁, tr₁, tr₂, -, h₂, -⟩ := Machine.run_of_append hrun
    obtain ⟨s₂, out, tr₃, hs, -, -⟩ := Machine.run_cons h₂
    exact prints_of_step hs hrequest

/-- A command, two responses to it, a notification and the hook. -/
def sampleEvents : List Event :=
  let field (key : String) (v : Json.Value) := (key.toUTF8.toList, v)
  let method (name : String) := field "method" (.str name.toUTF8.toList)
  let params := field "params" (.obj [])
  let id := field "id" (.prim "7".toUTF8.toList)
  [.jsonCin (some (.obj [method "clboss-status", params, id])),
    .commandResponse (.left 7) Json.Out.emptyObject,
    .commandFail (.left 7) (-1) [] Json.Out.emptyObject,
    .jsonCin (some (.obj [method "block_added", params])),
    .jsonCin (some (.obj [method "rpc_command", params, id]))]

theorem run_answers_sample :
    ∃ s tr, run .init sampleEvents = some (s, tr)
      ∧ (∀ id, (tr.filterMap (Output.answers id)).length
          ≤ (sampleEvents.filterMap Event.accepts).count id)
      ∧ tr.filterMap (Output.answers (.left 7)) = [.result Json.Out.emptyObject]
      ∧ tr.filterMap Output.proceeds = sampleEvents.filterMap Event.hook := by
  have hrun : (run .init sampleEvents).isSome = true := by decide +kernel
  obtain ⟨⟨s, tr⟩, hrun⟩ := Option.isSome_iff_exists.mp hrun
  obtain ⟨hle, hfirst, hproceeds, -⟩ := run_answers hrun
  refine ⟨s, tr, hrun, hle, ?_, hproceeds⟩
  have hcommand : (sampleEvents.head?.bind Event.accepts) = some (.left 7) := by decide +kernel
  have hlater : ∀ e ∈ sampleEvents.tail, e.accepts ≠ some (.left 7) := by decide +kernel
  obtain ⟨s₁, tr₁, tr₂, h₁, rfl, h₂⟩ := hfirst (.left 7) [] _ _ rfl hcommand hlater
  cases h₁
  exact h₂

/-! ## The ids of answers -/

/-- What the calls of an answer build. -/
def Reply.tree (id : CommandId) : Reply → Json.Tree
  | .result response         =>
      .obj [("jsonrpc".toUTF8.toList, .str "2.0".toUTF8.toList),
        ("id".toUTF8.toList, id.arg.tree), ("result".toUTF8.toList, response.tree)]
  | .error code message data =>
      .obj [("jsonrpc".toUTF8.toList, .str "2.0".toUTF8.toList),
        ("id".toUTF8.toList, id.arg.tree),
        ("error".toUTF8.toList, .obj [("code".toUTF8.toList, .int code),
          ("message".toUTF8.toList, .str message), ("data".toUTF8.toList, data.tree)])]

theorem builds_calls (id : CommandId) (reply : Reply) :
    Json.builds (reply.calls id) = some (reply.tree id) := by
  cases reply with
  | result response => rfl
  | error code message data => rfl

/-- The digits of a number without leading zeros are what the number prints as. -/
theorem text_value (i : Json.IntPart) : Decimals.text (Decimals.value i.text) = i.text := by
  have hdigit : ∀ d : Fin 10, Decimals.digit (Json.digit d) = d :=
    fun d => Decimals.digit_ofDigit d.isLt
  cases i with
  | zero => rfl
  | digits first more =>
      have hmap : (Json.IntPart.digits first more).text.map Decimals.digit
          = (first.succ :: more).map Fin.val := by
        show (Json.digit first.succ :: more.map Json.digit).map Decimals.digit = _
        rw [← List.map_cons, List.map_map]
        exact List.map_congr_left (fun d _ => hdigit d)
      have hvalue : Decimals.value (Json.IntPart.digits first more).text
          = Nat.ofDigits 10 ((first.succ :: more).map Fin.val).reverse := by
        rw [Decimals.value_eq_ofDigits, List.map_reverse, hmap]
      have hdigits : Nat.digits 10 (Decimals.value (Json.IntPart.digits first more).text)
          = ((first.succ :: more).map Fin.val).reverse := by
        rw [hvalue]
        refine Nat.digits_ofDigits 10 (by decide) _ ?_ ?_
        · intro d hd
          obtain ⟨d', -, rfl⟩ := List.mem_map.mp (List.mem_reverse.mp hd)
          exact d'.isLt
        · intro hne
          rw [List.getLast_reverse]
          simp
      unfold Decimals.text
      rw [if_neg, hdigits, List.reverse_reverse, List.map_map]
      · rfl
      · intro hzero
        rw [hzero] at hdigits
        simp at hdigits

/-- What is read of a number: its integer part, and not even that if it is negative or
    does not fit. -/
theorem stringToU64_text (n : Json.Number) :
    Rpc.stringToU64 n.text
      = if UInt64.size ≤ Decimals.value n.int.text then UInt64.size - 1
        else if n.negative then (UInt64.size - Decimals.value n.int.text) % UInt64.size
        else Decimals.value n.int.text := by
  have htake := Json.takeWhile_digits (Json.isDigit_int n.int) (Json.stops_fractionText n)
  obtain ⟨d, cs, hint⟩ := Json.int_text_cons n.int
  have hsign : Json.digit d ≠ '-'.toUInt8 ∧ Json.digit d ≠ '+'.toUInt8 := by
    clear hint
    revert d
    decide
  unfold Rpc.stringToU64
  rw [Json.text_eq]
  cases hneg : n.negative with
  | true =>
      simp only [if_true, List.singleton_append, List.head?_cons, true_or, List.tail_cons, htake]
  | false =>
      rw [hint] at htake
      simp only [Bool.false_eq_true, if_false, List.nil_append, hint, List.cons_append,
        List.head?_cons, Option.some.injEq, hsign.1, hsign.2, or_false]
      rw [← List.cons_append, htake]

/-- A number that is written as a `std::uint64_t` would be. -/
def Canonical (n : Json.Number) : Prop :=
  n.negative = false ∧ n.frac = none ∧ n.exp = none ∧ Decimals.value n.int.text < UInt64.size

/-- The digits of an integer part are its text, if the text has nothing else. -/
theorem canonical_iff (n : Json.Number) :
    Decimals.text (Rpc.stringToU64 n.text) = n.text ↔ Canonical n := by
  constructor
  · intro h
    have hall : ∀ c ∈ n.text, Decimals.isDigit c = true := by
      rw [← h]
      exact (Decimals.isDecimal_text _).2
    rw [Json.text_eq] at hall
    have hneg : n.negative = false := by
      cases hneg : n.negative with
      | false => rfl
      | true =>
          rw [hneg] at hall
          exact absurd (hall '-'.toUInt8 (by simp)) (by decide)
    have hfrac : n.frac = none := by
      cases hfrac : n.frac with
      | none => rfl
      | some ds =>
          refine absurd (hall '.'.toUInt8 ?_) (by decide)
          simp [Json.Number.fractionText, hfrac]
    have hexp : n.exp = none := by
      cases hexp : n.exp with
      | none => rfl
      | some e =>
          have hletter := hall (if e.capital then 'E'.toUInt8 else 'e'.toUInt8)
            (by simp [Json.Number.exponentText, hexp, Json.Exponent.text])
          cases hcapital : e.capital with
          | true =>
              rw [hcapital] at hletter
              exact absurd hletter (by decide)
          | false =>
              rw [hcapital] at hletter
              exact absurd hletter (by decide)
    refine ⟨hneg, hfrac, hexp, ?_⟩
    by_contra hbig
    -- the largest `std::uint64_t` is printed instead
    have htext : n.text = n.int.text := by
      rw [Json.text_eq, hneg]
      simp [Json.Number.fractionText, Json.Number.exponentText, hfrac, hexp]
    rw [stringToU64_text, if_pos (Nat.le_of_not_lt hbig), htext] at h
    have hvalue := congrArg Decimals.value h
    rw [Decimals.value_text] at hvalue
    have : 0 < UInt64.size := by decide
    omega
  · rintro ⟨hneg, hfrac, hexp, hlt⟩
    have htext : n.text = n.int.text := by
      rw [Json.text_eq, hneg]
      simp [Json.Number.fractionText, Json.Number.exponentText, hfrac, hexp]
    rw [stringToU64_text, if_neg (Nat.not_le_of_lt hlt), hneg, if_neg Bool.false_ne_true,
      text_value, htext]

/-- The node reads an answer: it is as it was built, and `c` is under `id`. -/
def ReadBack (id : CommandId) (reply : Reply) (c : Handle) : Prop :=
  ∃ b r, Json.Builder.run .init (reply.calls id) = some b ∧ Json.extract b.content = some r
    ∧ Json.Agrees (some ⟨r.origString, r.tokens⟩) (reply.tree id)
    ∧ Handle.get (some ⟨r.origString, r.tokens⟩) "id".toUTF8.toList = .ok c

/-- The names in an answer are ASCII, and its first is not the `id`. -/
theorem names_ascii :
    "jsonrpc".toUTF8.toList ≠ "id".toUTF8.toList
      ∧ ∀ name ∈ ["jsonrpc", "2.0", "id", "result", "error", "code", "message", "data"],
        ∀ c ∈ name.toUTF8.toList, c < 0x80 := by
  decide +kernel

theorem firstMember_second {key name : List UInt8} (h : key ≠ name) (t t' : Json.Tree)
    (ms : List (List UInt8 × Json.Tree)) :
    Json.firstMember name ((key, t) :: (name, t') :: ms) = some t' := by
  simp [Json.firstMember, h]

/-- What is read back as the id. -/
theorem readBack_of_ascii {id : CommandId} {reply : Reply} (h : (reply.tree id).Ascii) :
    ∃ c, ReadBack id reply c ∧ Json.Agrees c id.arg.tree := by
  obtain ⟨b, r, hb, hr, hagrees⟩ := Json.extract_build (builds_calls id reply) h
  obtain ⟨ms, hms, hfirst⟩ : ∃ ms, reply.tree id = .obj ms
      ∧ Json.firstMember "id".toUTF8.toList ms = some id.arg.tree := by
    cases reply with
    | result response => exact ⟨_, rfl, firstMember_second names_ascii.1 _ _ _⟩
    | error code message data => exact ⟨_, rfl, firstMember_second names_ascii.1 _ _ _⟩
  have hobj := hagrees
  rw [hms] at hobj
  cases hobj with
  | obj child htype hsize hkeys hget hbeyond hchild =>
      exact ⟨child _, ⟨b, r, hb, hr, hagrees, hget _⟩, hchild _ _ hfirst⟩

/-- Every string of an answer is ASCII, leaving its id aside. -/
def Reply.Ascii : Reply → Prop
  | .result response         => response.tree.Ascii
  | .error _ message data    => (∀ c ∈ message, c < 0x80) ∧ data.tree.Ascii

theorem ascii_tree {id : CommandId} {reply : Reply} (hid : id.arg.tree.Ascii)
    (h : reply.Ascii) : (reply.tree id).Ascii := by
  have hname : ∀ name, name ∈ ["jsonrpc", "2.0", "id", "result", "error", "code", "message",
      "data"] → ∀ c ∈ name.toUTF8.toList, c < 0x80 := names_ascii.2
  cases reply with
  | result response =>
      exact ⟨⟨hname "jsonrpc" (by simp), hname "2.0" (by simp)⟩, ⟨hname "id" (by simp), hid⟩,
        ⟨hname "result" (by simp), h⟩, True.intro⟩
  | error code message data =>
      exact ⟨⟨hname "jsonrpc" (by simp), hname "2.0" (by simp)⟩, ⟨hname "id" (by simp), hid⟩,
        ⟨hname "error" (by simp), ⟨hname "code" (by simp), True.intro⟩,
          ⟨hname "message" (by simp), h.1⟩, ⟨hname "data" (by simp), h.2⟩, True.intro⟩, True.intro⟩

/-- **HEADLINE**: what is read back under `id` is the string that the node gave, if it
    gave one; a number is read back as it was given exactly when it was given the way a
    `std::uint64_t` is printed. -/
theorem answer_echoes {reply : Reply} (hreply : reply.Ascii) :
    (∀ raw s, fromEscaped raw = some s → (∀ c ∈ s, c < 0x80) →
      ∃ id c, commandIdFromJsmnObject (some (.str raw)) = .ok (some id) ∧ ReadBack id reply c
        ∧ c.isString = true ∧ c.str = .ok s)
    ∧ ∀ n : Json.Number,
      ∃ id c, commandIdFromJsmnObject (some (.prim n.text)) = .ok (some id) ∧ ReadBack id reply c
        ∧ c.isNumber = true ∧ (c.directText = n.text ↔ Canonical n) := by
  constructor
  · intro raw s hraw hascii
    have hread : commandIdFromJsmnObject (some (.str raw)) = .ok (some (.right s)) := by
      simp [commandIdFromJsmnObject, Object.isNumber, Object.isString, Object.str, hraw]
    have htree : (reply.tree (.right s)).Ascii := ascii_tree hascii hreply
    obtain ⟨c, hback, hc⟩ := readBack_of_ascii htree
    cases hc with
    | str htype hstr => exact ⟨_, c, hread, hback, htype, hstr⟩
  · intro n
    have hread : commandIdFromJsmnObject (some (.prim n.text))
        = .ok (some (.left (Rpc.stringToU64 n.text))) := by
      simp [commandIdFromJsmnObject, Json.isNumber_text, Object.directText, pure, Except.pure]
    have htree : (reply.tree (.left (Rpc.stringToU64 n.text))).Ascii :=
      ascii_tree True.intro hreply
    obtain ⟨c, hback, hc⟩ := readBack_of_ascii htree
    cases hc with
    | int htype htext =>
        refine ⟨_, c, hread, hback, htype, ?_⟩
        have hnat :
            Json.intText (Rpc.stringToU64 n.text) = Decimals.text (Rpc.stringToU64 n.text) := by
          simp [Json.intText]
        rw [htext, hnat]
        exact canonical_iff n

/-- A text as the id, and the number `1.0`. -/
theorem answer_echoes_sample :
    (∃ id c, commandIdFromJsmnObject (some (.str [0x61])) = .ok (some id)
        ∧ ReadBack id (.result Json.Out.emptyObject) c ∧ c.isString = true ∧ c.str = .ok [0x61])
      ∧ ∃ id c, commandIdFromJsmnObject (some (.prim [0x31, 0x2e, 0x30])) = .ok (some id)
        ∧ ReadBack id (.result Json.Out.emptyObject) c ∧ c.directText ≠ [0x31, 0x2e, 0x30] := by
  have hreply : (Reply.result Json.Out.emptyObject).Ascii := True.intro
  obtain ⟨hstr, hnum⟩ := answer_echoes hreply
  constructor
  · have hascii : ∀ c ∈ ([0x61] : List UInt8), c < 0x80 := by
      intro c hc
      rw [List.mem_singleton.mp hc]
      decide
    exact hstr [0x61] [0x61] rfl hascii
  · obtain ⟨id, c, hread, hback, -, hc⟩ := hnum ⟨false, .digits 0 [], some ⟨0, []⟩, none⟩
    have htext : Json.Number.text ⟨false, .digits 0 [], some ⟨0, []⟩, none⟩
        = [0x31, 0x2e, 0x30] := by decide
    rw [htext] at hread hc
    refine ⟨id, c, hread, hback, fun h => ?_⟩
    exact nomatch (hc.mp h).2.1

end CommandReceiver
