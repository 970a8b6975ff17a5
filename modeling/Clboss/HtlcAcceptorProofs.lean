import Clboss.HexProofs
import Clboss.MachineProofs
import Mathlib.Data.Finset.Basic

/-! # `Boss::Mod::HtlcAcceptor` — every deferred HTLC is answered once

    `lightningd` hands every incoming HTLC to the `htlc_accepted` hook and waits
    for the answer.  The acceptor asks its deferrers in parallel (`Ev::map`);
    the id of the command is in `deferring` while they decide and in `deferred`
    while a timer runs for those who asked for time.  Whoever takes the id out
    of either set answers the command.

    The books are kept per id.  A LEDGER counts the greenthreads that still
    work for the id and says in which set it is; `step_entry` lists what one
    step can do to it.  Two facts carry the result: an id whose deferrers were
    asked is in exactly one place (deciding, deferred, or answered), and an id
    in a set has a greenthread that will take it out.  The second one fails at
    ONE point: when a deferrer throws, `Ev::map` fails, its continuation is
    skipped and the id stays in `deferring`, unless it was released before. -/

namespace HtlcAcceptor

open Util.Str (ofBytes hexdump)

/-! ## The messages -/

/-- `Ln::CommandId`, an `Util::Either<std::uint64_t, std::string>`. -/
inductive CommandId where
  | left (nid : UInt64)
  | right (sid : String)
deriving DecidableEq

/-- `Ln::HtlcAccepted::Response`. -/
inductive Response where
  | cont (id : CommandId)
  | fail (id : CommandId) (message : List UInt8)
  | resolve (id : CommandId) (preimage : Vector UInt8 32)
deriving DecidableEq

/-- `Response::id`. -/
def Response.id : Response → CommandId
  | .cont id      => id
  | .fail id _    => id
  | .resolve id _ => id

/-- The fields of the hook result. -/
def Response.result : Response → List (String × String)
  | .cont _             => [("result", "continue")]
  | .fail _ message     => [("result", "fail"), ("failure_message", ofBytes (hexdump message))]
  | .resolve _ preimage =>
      [("result", "resolve"), ("payment_key", ofBytes (hexdump preimage.toList))]

/-! ## `Ev::map` -/

/-- One of the parallel executions. -/
inductive Slot where
  | running
  | returned (value : Bool)
  | threw
deriving DecidableEq

/-- `Ev::Detail::MapRun`. -/
abbrev MapRun := List Slot

/-- `finish`: the `i`-th execution ends, with a value or an exception. -/
def MapRun.finish (m : MapRun) (i : Nat) (value : Option Bool) : Option MapRun :=
  if m[i]? = some .running then
    some (m.set i (match value with
      | some b => .returned b
      | none   => .threw))
  else none

/-- The number of executions that still run. -/
def MapRun.pending (m : MapRun) : Nat := m.count .running

/-- `extract`: one exception makes the whole map fail. -/
def MapRun.extract (m : MapRun) : Option (List Bool) :=
  if .threw ∈ m then none
  else some (m.filterMap (fun
    | .returned b => some b
    | _           => none))

/-! ## The module -/

/-- A greenthread at one of its yields. -/
inductive Task where
  /-- at the `Ev::yield` of `solicit` -/
  | solicit (id : CommandId)
  /-- raises `SolicitHtlcAcceptedDeferrer` -/
  | soliciting (id : CommandId)
  /-- logs the arrival of the HTLC -/
  | arrived (id : CommandId)
  /-- waits for the deferrers -/
  | deciding (id : CommandId) (m : MapRun)
  /-- waits for `defer_time` -/
  | waiting (id : CommandId)
  /-- its timer was stopped by a `Shutdown` and will never fire -/
  | stopped (id : CommandId)
  /-- raises the `ReleaseHtlcAccepted` of `finish` -/
  | finishing (id : CommandId)
  /-- logs the result, then raises the `CommandResponse` -/
  | responding (id : CommandId) (result : List (String × String))
deriving DecidableEq

/-- `HtlcAcceptor::Impl`, the `Waiter`'s flag and the greenthreads.  Of the
    deferrer functions only their number matters: what they do is in the
    events. -/
structure State where
  deferrers      : Nat
  soliciting     : Bool
  solicited      : Bool
  deferring      : Finset CommandId
  deferred       : Finset CommandId
  isShuttingDown : Bool
  tasks          : List Task
deriving DecidableEq

/-- What the rest of the node sees. -/
inductive Out where
  /-- the deferrers are being asked about the HTLC -/
  | informed (id : CommandId)
  | commandResponse (id : CommandId) (result : List (String × String))
deriving DecidableEq

/-- The constructor of `Impl`. -/
def boot : State := ⟨0, false, false, ∅, ∅, false, []⟩

/-- Start a greenthread. -/
def State.spawn (s : State) (t : Task) : State := { s with tasks := s.tasks ++ [t] }

/-- `release_htlc_accepted`. -/
def releaseHtlcAccepted (s : State) (resp : Response) : State :=
  if resp.id ∈ s.deferred then
    { s with deferred := s.deferred.erase resp.id }.spawn (.responding resp.id resp.result)
  else if resp.id ∈ s.deferring then
    { s with deferring := s.deferring.erase resp.id }.spawn (.responding resp.id resp.result)
  else s

/-- `finish`. -/
def finish (s : State) (id : CommandId) : State :=
  if id ∈ s.deferred then s.spawn (.finishing id) else s

/-- `solicit`, after its yield. -/
def solicit (s : State) (id : CommandId) : State :=
  if s.solicited then s.spawn (.arrived id)
  else if s.soliciting then s.spawn (.solicit id)
  else { s with soliciting := true }.spawn (.soliciting id)

/-- `waiter.wait(defer_time)` in a greenthread of its own. -/
def wait (s : State) (id : CommandId) : State :=
  s.spawn (if s.isShuttingDown then .stopped id else .waiting id)

/-- The continuation of `Ev::map` in `htlc_accepted`. -/
def decided (s : State) (id : CommandId) (results : List Bool) : State :=
  if id ∈ s.deferring then
    let s' := { s with
      deferring := s.deferring.erase id
      deferred := insert id s.deferred }
    if results.any (fun x => x) then wait s' id else finish s' id
  else s

/-- Resume a greenthread of the pool (already taken out of it). -/
def stepTask (s : State) : Task → Option (State × List Out)
  | .solicit id => some (solicit s id, [])
  | .soliciting id =>
      some ({ s with soliciting := false, solicited := true }.spawn (.arrived id), [])
  | .arrived id =>
      some ({ s with deferring := insert id s.deferring }.spawn
        (.deciding id (List.replicate s.deferrers .running)), [.informed id])
  | .deciding id m =>
      if m.pending = 0 then
        match m.extract with
        | none         => some (s, [])
        | some results => some (decided s id results, [])
      else none
  | .waiting id => some (finish s id, [])
  | .stopped _ => none
  | .finishing id => some (releaseHtlcAccepted s (.cont id), [])
  | .responding id result => some (s, [.commandResponse id result])

/-- `Waiter::shutdown` makes the waits fail. -/
def Task.shutdown : Task → Task
  | .waiting id => .stopped id
  | t           => t

/-- What can happen next. -/
inductive Event where
  /-- `CommandRequest`, with whether `parse_payload` can read its payload -/
  | commandRequest (command : String) (id : CommandId) (parses : Bool)
  /-- `ProvideHtlcAcceptedDeferrer` -/
  | provideDeferrer
  /-- `ReleaseHtlcAccepted`, raised by another module -/
  | release (resp : Response)
  | shutdown
  /-- a greenthread is resumed -/
  | task (n : Nat)
  /-- a subscriber of `SolicitHtlcAcceptedDeferrer` throws -/
  | solicitThrows (n : Nat)
  /-- a deferrer the greenthread waits for returns, or throws -/
  | deferrer (n i : Nat) (value : Option Bool)
deriving DecidableEq

/-- One of the deferrers of a greenthread ends. -/
def stepDeferrer (s : State) (i : Nat) (value : Option Bool) : Task → Option State
  | .deciding id m => (m.finish i value).map (fun m' => s.spawn (.deciding id m'))
  | _              => none

/-- An exception out of `solicit`: `soliciting` stays set. -/
def stepSolicitThrows (s : State) : Task → Option State
  | .soliciting _ => some s
  | _             => none

/-- Take the `n`-th greenthread out of the pool. -/
def State.without (s : State) (n : Nat) : State := { s with tasks := s.tasks.eraseIdx n }

/-- One step. -/
def step (s : State) : Event → Option (State × List Out)
  | .commandRequest command id parses =>
      some (if command = "htlc_accepted" ∧ parses then s.spawn (.solicit id) else s, [])
  | .provideDeferrer =>
      some (if s.soliciting then { s with deferrers := s.deferrers + 1 } else s, [])
  | .release resp => some (releaseHtlcAccepted s resp, [])
  | .shutdown =>
      some ({ s with isShuttingDown := true, tasks := s.tasks.map Task.shutdown }, [])
  | .task n => (s.tasks[n]?).bind (stepTask (s.without n))
  | .solicitThrows n =>
      ((s.tasks[n]?).bind (stepSolicitThrows (s.without n))).map (·, [])
  | .deferrer n i value =>
      ((s.tasks[n]?).bind (stepDeferrer (s.without n) i value)).map (·, [])

/-- Runs from the start of the plugin. -/
def run (es : List Event) : Option (State × List Out) := Machine.run step boot es

/-! ## What is to hold -/

/-- The id of a command the acceptor takes up. -/
def Event.requestedId : Event → Option CommandId
  | .commandRequest command id parses =>
      if command = "htlc_accepted" ∧ parses then some id else none
  | _ => none

/-- The ids of the hook calls. -/
def requests (es : List Event) : List CommandId := es.filterMap Event.requestedId

@[simp]
def Out.informs (id : CommandId) : Out → Bool
  | .informed id' => id' = id
  | _             => false

@[simp]
def Out.answers (id : CommandId) : Out → Bool
  | .commandResponse id' _ => id' = id
  | _                      => false

/-- How often the deferrers were asked about `id`. -/
def informed (id : CommandId) (tr : List Out) : Nat := tr.countP (Out.informs id)

/-- How often `id` was answered. -/
def answers (id : CommandId) (tr : List Out) : Nat := tr.countP (Out.answers id)

/-- The greenthread runs before the deferrers are asked. -/
@[simp]
def Task.opens (id : CommandId) : Task → Bool
  | .solicit id'    => id' = id
  | .soliciting id' => id' = id
  | .arrived id'    => id' = id
  | _               => false

@[simp]
def Task.decides (id : CommandId) : Task → Bool
  | .deciding id' _ => id' = id
  | _               => false

/-- The greenthread has a timer for the id, or acts on one. -/
@[simp]
def Task.times (id : CommandId) : Task → Bool
  | .waiting id'   => id' = id
  | .stopped id'   => id' = id
  | .finishing id' => id' = id
  | _              => false

@[simp]
def Task.responds (id : CommandId) : Task → Bool
  | .responding id' _ => id' = id
  | _                 => false

/-- Every deferrer of `id` has finished, and so has what followed: no timer is
    left to fire and nothing it raised is on its way. -/
def Quiet (s : State) (id : CommandId) : Prop :=
  ∀ t ∈ s.tasks, ¬t.decides id ∧ ¬t.times id ∧ ¬t.responds id

/-- What the acceptor promises of the state `s` reached with the outputs `tr`. -/
structure Proper (tr : List Out) (s : State) : Prop where
  once     : ∀ id, answers id tr ≤ 1
  disjoint : Disjoint s.deferring s.deferred
  answered : ∀ id, informed id tr ≠ 0 → Quiet s id →
    id ∉ s.deferring ∧ id ∉ s.deferred ∧ answers id tr = 1

/-- The id whose `Ev::map` ends with an exception in this step. -/
def mapThrows (s : State) : Event → Option CommandId
  | .task n =>
      match s.tasks[n]? with
      | some (.deciding id m) => if m.pending = 0 ∧ m.extract = none then some id else none
      | _                     => none
  | _ => none

/-- Deferrers only throw away what somebody has released before. -/
def ThrowsReleased (s : State) (e : Event) : Prop :=
  ∀ id ∈ mapThrows s e, id ∉ s.deferring

instance (s : State) (e : Event) : Decidable (ThrowsReleased s e) :=
  inferInstanceAs (Decidable (∀ id ∈ mapThrows s e, id ∉ s.deferring))

/-! ## The ledger of an id -/

/-- The greenthreads that work for an id, and the sets it is in. -/
@[ext]
structure Ledger where
  opening    : Nat
  deciding   : Nat
  timing     : Nat
  responding : Nat
  deferring  : Bool
  deferred   : Bool

def ledger (s : State) (id : CommandId) : Ledger where
  opening    := s.tasks.countP (Task.opens id)
  deciding   := s.tasks.countP (Task.decides id)
  timing     := s.tasks.countP (Task.times id)
  responding := s.tasks.countP (Task.responds id)
  deferring  := id ∈ s.deferring
  deferred   := id ∈ s.deferred

/-- The ledger with one more greenthread. -/
def Ledger.add (l : Ledger) (id : CommandId) (t : Task) : Ledger := { l with
  opening    := l.opening + if t.opens id then 1 else 0
  deciding   := l.deciding + if t.decides id then 1 else 0
  timing     := l.timing + if t.times id then 1 else 0
  responding := l.responding + if t.responds id then 1 else 0 }

theorem ledger_spawn (s : State) (t : Task) (id : CommandId) :
    ledger (s.spawn t) id = (ledger s id).add id t := by
  refine Ledger.ext ?_ ?_ ?_ ?_ rfl rfl <;>
    simp [ledger, State.spawn, Ledger.add, List.countP_append, List.countP_singleton]

theorem ledger_without {s : State} {n : Nat} {t : Task} (h : s.tasks[n]? = some t)
    (id : CommandId) : ledger s id = (ledger (s.without n) id).add id t := by
  have hpool := Machine.pool_perm h
  refine Ledger.ext ?_ ?_ ?_ ?_ rfl rfl <;>
    simp [ledger, State.without, Ledger.add, hpool.countP_eq, List.countP_cons]

/-- A greenthread for another id does not show. -/
theorem Ledger.add_other (l : Ledger) {id : CommandId} {t : Task} (h₁ : t.opens id = false)
    (h₂ : t.decides id = false) (h₃ : t.times id = false) (h₄ : t.responds id = false) :
    l.add id t = l := by
  unfold Ledger.add
  rw [h₁, h₂, h₃, h₄]
  rfl

/-- What a `ReleaseHtlcAccepted` does to the ledger of its id. -/
inductive Release : Ledger → Ledger → Prop
  | deferred {l : Ledger} (h : l.deferred = true) :
      Release l { l with deferred := false, responding := l.responding + 1 }
  | deferring {l : Ledger} (h : l.deferring = true) (hd : l.deferred = false) :
      Release l { l with deferring := false, responding := l.responding + 1 }
  | ignored {l : Ledger} (h : l.deferring = false) (hd : l.deferred = false) : Release l l

/-- What a step does to the ledger of an id: `req`, `inf` and `ans` count the
    requests, informations and answers, and `lost` says that the deferrers
    threw before anybody released the id. -/
inductive Entry (lost : Prop) : (req inf ans : Nat) → Ledger → Ledger → Prop
  | stay {l : Ledger} : Entry lost 0 0 0 l l
  | requested {l : Ledger} : Entry lost 1 0 0 l { l with opening := l.opening + 1 }
  | dropped {l : Ledger} : Entry lost 0 0 0 { l with opening := l.opening + 1 } l
  | asked {l : Ledger} : Entry lost 0 1 0 { l with opening := l.opening + 1 }
      { l with deciding := l.deciding + 1, deferring := true }
  | released {l l' : Ledger} (h : Release l l') : Entry lost 0 0 0 l l'
  | late {l : Ledger} (h : l.deferring = false) :
      Entry lost 0 0 0 { l with deciding := l.deciding + 1 } l
  | decided {l : Ledger} (h : l.deferring = true) :
      Entry lost 0 0 0 { l with deciding := l.deciding + 1 }
        { l with deferring := false, deferred := true, timing := l.timing + 1 }
  | lost {l : Ledger} (h : lost) : Entry lost 0 0 0 { l with deciding := l.deciding + 1 } l
  | expired {l : Ledger} (h : l.deferred = false) :
      Entry lost 0 0 0 { l with timing := l.timing + 1 } l
  | finished {l l' : Ledger} (h : Release l l') :
      Entry lost 0 0 0 { l with timing := l.timing + 1 } l'
  | answered {l : Ledger} : Entry lost 0 0 1 { l with responding := l.responding + 1 } l

/-! ## What one step does to the ledgers -/

theorem releaseHtlcAccepted_release (s : State) (resp : Response) :
    Release (ledger s resp.id) (ledger (releaseHtlcAccepted s resp) resp.id) := by
  unfold releaseHtlcAccepted
  by_cases hd : resp.id ∈ s.deferred
  · rw [if_pos hd, ledger_spawn]
    have := Release.deferred (l := ledger s resp.id) (by simpa [ledger] using hd)
    simpa [ledger, Ledger.add] using this
  · rw [if_neg hd]
    by_cases hg : resp.id ∈ s.deferring
    · rw [if_pos hg, ledger_spawn]
      have := Release.deferring (l := ledger s resp.id) (by simpa [ledger] using hg)
        (by simpa [ledger] using hd)
      simpa [ledger, Ledger.add] using this
    · rw [if_neg hg]
      exact .ignored (by simpa [ledger] using hg) (by simpa [ledger] using hd)

theorem releaseHtlcAccepted_other (s : State) (resp : Response) {id : CommandId}
    (h : resp.id ≠ id) : ledger (releaseHtlcAccepted s resp) id = ledger s id := by
  unfold releaseHtlcAccepted
  split
  · rw [ledger_spawn]
    simp [ledger, Ledger.add, h, Ne.symm h]
  · split
    · rw [ledger_spawn]
      simp [ledger, Ledger.add, h, Ne.symm h]
    · rfl

theorem decided_other (s : State) {id' id : CommandId} (results : List Bool) (h : id' ≠ id) :
    ledger (decided s id' results) id = ledger s id := by
  unfold decided
  split
  · simp only
    split
    · unfold wait
      rw [ledger_spawn]
      split <;>
        simp [ledger, Ledger.add, h, Ne.symm h]
    · unfold finish
      rw [if_pos (Finset.mem_insert_self ..), ledger_spawn]
      simp [ledger, Ledger.add, h, Ne.symm h]
  · rfl

/-- The continuation of the map moves the id to `deferred`, with a greenthread
    that will take it out: the timer's, or `finish` itself. -/
theorem decided_ledger (s : State) (id : CommandId) (results : List Bool)
    (h : id ∈ s.deferring) :
    ledger (decided s id results) id = { ledger s id with
      deferring := false, deferred := true, timing := (ledger s id).timing + 1 } := by
  unfold decided
  rw [if_pos h]
  simp only
  split
  · unfold wait
    rw [ledger_spawn]
    split <;> simp [ledger, Ledger.add]
  · unfold finish
    rw [if_pos (Finset.mem_insert_self ..), ledger_spawn]
    simp [ledger, Ledger.add]

/-- The map of `id` ends with an exception and nobody has released the id. -/
def Strands (s : State) (id : CommandId) (t : Task) : Prop :=
  (∃ m : MapRun, t = .deciding id m ∧ m.pending = 0 ∧ m.extract = none) ∧ id ∈ s.deferring

/-- Resuming a greenthread. -/
theorem stepTask_entry {s s' : State} {t : Task} {out : List Out} (id : CommandId)
    (h : stepTask s t = some (s', out)) :
    Entry (Strands s id t) 0 (informed id out) (answers id out)
      ((ledger s id).add id t) (ledger s' id) := by
  cases t with
  | solicit id' =>
      cases h
      -- whichever way, the greenthread goes on as one of the opening kind
      have : ledger (solicit s id') id = (ledger s id).add id (.solicit id') := by
        unfold solicit
        split
        · rw [ledger_spawn]; simp [Ledger.add]
        · split
          · rw [ledger_spawn]
          · rw [ledger_spawn]; simp [ledger, Ledger.add]
      rw [this]
      exact .stay
  | soliciting id' =>
      cases h
      rw [ledger_spawn]
      exact .stay
  | arrived id' =>
      cases h
      rw [ledger_spawn]
      by_cases hid : id' = id
      · subst hid
        have : Entry (Strands s id' (Task.arrived id')) _ _ _ _ _ :=
          .asked (l := ledger s id')
        simpa [informed, answers, ledger, Ledger.add] using this
      · simpa [informed, answers, ledger, Ledger.add, hid, Ne.symm hid] using Entry.stay
  | deciding id' m =>
      simp only [stepTask] at h
      by_cases hp : m.pending = 0
      · rw [if_pos hp] at h
        by_cases hid : id' = id
        · subst hid
          have hadd : (ledger s id').add id' (.deciding id' m)
              = { ledger s id' with deciding := (ledger s id').deciding + 1 } := by
            simp [Ledger.add]
          rw [hadd]
          cases hx : m.extract with
          | none =>
              rw [hx] at h
              cases h
              by_cases hg : id' ∈ s.deferring
              · exact .lost ⟨⟨m, rfl, hp, hx⟩, hg⟩
              · exact .late (by simpa [ledger] using hg)
          | some results =>
              rw [hx] at h
              cases h
              by_cases hg : id' ∈ s.deferring
              · rw [decided_ledger s id' results hg]
                exact .decided (by simpa [ledger] using hg)
              · unfold decided
                rw [if_neg hg]
                exact .late (by simpa [ledger] using hg)
        · rw [Ledger.add_other _ rfl (by simp [hid]) rfl rfl]
          cases hx : m.extract with
          | none =>
              rw [hx] at h
              cases h
              exact .stay
          | some results =>
              rw [hx] at h
              cases h
              rw [decided_other s results hid]
              exact .stay
      · rw [if_neg hp] at h
        exact nomatch h
  | waiting id' =>
      cases h
      unfold finish
      by_cases hd : id' ∈ s.deferred
      · rw [if_pos hd, ledger_spawn]
        exact .stay
      · rw [if_neg hd]
        by_cases hid : id' = id
        · subst hid
          have : Entry (Strands s id' (Task.waiting id')) _ _ _ _ _ :=
            .expired (l := ledger s id') (by simpa [ledger] using hd)
          simpa [informed, answers, Ledger.add] using this
        · rw [Ledger.add_other _ rfl rfl (by simp [hid]) rfl]
          exact .stay
  | stopped id' => exact nomatch h
  | finishing id' =>
      cases h
      by_cases hid : id' = id
      · subst hid
        have : Entry (Strands s id' (Task.finishing id')) _ _ _ _ _ :=
          .finished (releaseHtlcAccepted_release s (.cont id'))
        simpa [informed, answers, Ledger.add, Response.id] using this
      · rw [Ledger.add_other _ rfl rfl (by simp [hid]) rfl,
          releaseHtlcAccepted_other s (.cont id') hid]
        exact .stay
  | responding id' result =>
      cases h
      by_cases hid : id' = id
      · subst hid
        have : Entry (Strands s id' (Task.responding id' result)) _ _ _ _ _ :=
          .answered (l := ledger s id')
        simpa [informed, answers, Ledger.add] using this
      · rw [Ledger.add_other _ rfl rfl rfl (by simp [hid])]
        simpa [informed, answers, hid] using Entry.stay

theorem Entry.imp {lost lost' : Prop} {req inf ans : Nat} {l l' : Ledger} (hl : lost → lost')
    (m : Entry lost req inf ans l l') : Entry lost' req inf ans l l' := by
  cases m with
  | stay => exact .stay
  | requested => exact .requested
  | dropped => exact .dropped
  | asked => exact .asked
  | released h => exact .released h
  | late h => exact .late h
  | decided h => exact .decided h
  | lost h => exact .lost (hl h)
  | expired h => exact .expired h
  | finished h => exact .finished h
  | answered => exact .answered

/-- A shutdown stops timers, it does not lose them. -/
theorem ledger_shutdown (s : State) (id : CommandId) :
    ledger { s with isShuttingDown := true, tasks := s.tasks.map Task.shutdown } id
      = ledger s id := by
  have hcount : ∀ p : Task → Bool, (∀ t : Task, p t.shutdown = p t) →
      (s.tasks.map Task.shutdown).countP p = s.tasks.countP p := by
    intro p hp
    rw [List.countP_map]
    exact List.countP_congr (fun t _ => by rw [Function.comp_apply, hp t])
  refine Ledger.ext (hcount _ ?_) (hcount _ ?_) (hcount _ ?_) (hcount _ ?_) rfl rfl
  all_goals intro t; cases t <;> rfl

/-- **STEP**: what any step does to the ledger of any id. -/
theorem step_entry {s s' : State} {e : Event} {out : List Out}
    (h : step s e = some (s', out)) (id : CommandId) :
    Entry (mapThrows s e = some id ∧ id ∈ s.deferring)
      (if e.requestedId = some id then 1 else 0) (informed id out) (answers id out)
      (ledger s id) (ledger s' id) := by
  cases e with
  | commandRequest command id' parses =>
      cases h
      by_cases hc : command = "htlc_accepted" ∧ parses
      · rw [if_pos hc, ledger_spawn]
        by_cases hid : id' = id
        · subst hid
          have : Entry (mapThrows s (.commandRequest command id' parses) = some id' ∧ id' ∈ s.deferring)
              _ _ _ _ _ := .requested (l := ledger s id')
          simpa [Event.requestedId, hc, informed, answers, Ledger.add] using this
        · rw [Ledger.add_other _ (by simp [hid]) rfl rfl rfl]
          simpa [Event.requestedId, hc, hid, informed, answers] using Entry.stay
      · rw [if_neg hc]
        simpa [Event.requestedId, hc, informed, answers] using Entry.stay
  | provideDeferrer =>
      cases h
      by_cases hs : s.soliciting
      · rw [if_pos hs]; exact .stay
      · rw [if_neg hs]; exact .stay
  | release resp =>
      cases h
      by_cases hid : resp.id = id
      · subst hid
        exact .released (releaseHtlcAccepted_release s resp)
      · rw [releaseHtlcAccepted_other s resp hid]
        exact .stay
  | shutdown =>
      cases h
      rw [ledger_shutdown]
      exact .stay
  | task n =>
      obtain ⟨t, ht, h⟩ := Option.bind_eq_some_iff.mp h
      rw [ledger_without ht id]
      refine (stepTask_entry id h).imp ?_
      rintro ⟨⟨m, rfl, hp, hx⟩, hg⟩
      refine ⟨?_, hg⟩
      simp [mapThrows, ht, hp, hx]
  | solicitThrows n =>
      obtain ⟨s₁, h, hs⟩ := Option.map_eq_some_iff.mp h
      obtain ⟨t, ht, h⟩ := Option.bind_eq_some_iff.mp h
      cases hs
      rw [ledger_without ht id]
      cases t with
      | soliciting id' =>
          cases h
          by_cases hid : id' = id
          · subst hid
            have : Entry (mapThrows s (.solicitThrows n) = some id' ∧ id' ∈ s.deferring) _ _ _ _ _ :=
              .dropped (l := ledger (s.without n) id')
            simpa [Event.requestedId, informed, answers, Ledger.add] using this
          · rw [Ledger.add_other _ (by simp [hid]) rfl rfl rfl]
            exact .stay
      | _ => exact nomatch h
  | deferrer n i value =>
      obtain ⟨s₁, h, hs⟩ := Option.map_eq_some_iff.mp h
      obtain ⟨t, ht, h⟩ := Option.bind_eq_some_iff.mp h
      cases hs
      rw [ledger_without ht id]
      cases t with
      | deciding id' m =>
          obtain ⟨m', -, rfl⟩ := Option.map_eq_some_iff.mp h
          rw [ledger_spawn]
          exact .stay
      | _ => exact nomatch h

/-! ## The invariant -/

/-- The books of an id balance: once its deferrers were asked, it is in exactly
    one place, and a deferred id has a greenthread to end the deferral. -/
structure Balanced (req inf ans : Nat) (l : Ledger) : Prop where
  opened : l.opening + inf ≤ req
  placed : ans + l.responding + l.deferring.toNat + l.deferred.toNat = inf
  busy   : l.deciding + l.timing ≤ inf
  timed  : l.deferred.toNat ≤ l.timing

/-- The id is still being decided as long as it is in `deferring`. -/
def Ledger.Kept (l : Ledger) : Prop := l.deferring.toNat ≤ l.deciding

/-- A release moves the id from its set to the responding greenthreads; nothing
    stays deferred. -/
theorem Release.spec {l l' : Ledger} (m : Release l l') :
    l'.opening = l.opening ∧ l'.deciding = l.deciding ∧ l'.timing = l.timing
      ∧ l'.responding + l'.deferring.toNat + l'.deferred.toNat
        = l.responding + l.deferring.toNat + l.deferred.toNat
      ∧ l'.deferred.toNat = 0 ∧ l'.deferring.toNat ≤ l.deferring.toNat := by
  cases m with
  | deferred h =>
      refine ⟨rfl, rfl, rfl, ?_, rfl, Nat.le_refl _⟩
      simp only [h, Bool.toNat_true, Bool.toNat_false]
      omega
  | deferring h hd =>
      refine ⟨rfl, rfl, rfl, ?_, by simp only [hd, Bool.toNat_false], Nat.zero_le _⟩
      simp only [h, hd, Bool.toNat_true, Bool.toNat_false]
  | ignored h hd => exact ⟨rfl, rfl, rfl, rfl, by rw [hd]; rfl, Nat.le_refl _⟩

/-- **STEP**: the books stay balanced as long as no id is used twice. -/
theorem Entry.balanced {lost : Prop} {req inf ans r i a : Nat} {l l' : Ledger}
    (m : Entry lost r i a l l') (hreq : req + r ≤ 1) (hb : Balanced req inf ans l) :
    Balanced (req + r) (inf + i) (ans + a) l' := by
  obtain ⟨h₁, h₂, h₃, h₄⟩ := hb
  cases m with
  | stay => exact ⟨h₁, h₂, h₃, h₄⟩
  | requested => exact ⟨by dsimp only; omega, h₂, by dsimp only; omega, h₄⟩
  | dropped =>
      dsimp only at h₁ h₂ h₃ h₄
      exact ⟨by omega, h₂, h₃, h₄⟩
  | asked =>
      -- the id was not asked about before, so it is in neither set
      dsimp only at h₁ h₂ h₃ h₄
      exact ⟨by dsimp only; omega, by simp only [Bool.toNat_true]; omega,
        by dsimp only; omega, h₄⟩
  | released h =>
      obtain ⟨ho, hg, ht, hsum, hd, -⟩ := h.spec
      exact ⟨by omega, by omega, by omega, by omega⟩
  | late h =>
      dsimp only at h₁ h₂ h₃ h₄
      exact ⟨h₁, h₂, by omega, h₄⟩
  | decided h =>
      dsimp only at h₁ h₂ h₃ h₄
      rw [h, Bool.toNat_true] at h₂
      exact ⟨h₁, by simp only [Bool.toNat_true, Bool.toNat_false]; omega,
        by dsimp only; omega, by simp only [Bool.toNat_true]; omega⟩
  | lost h =>
      dsimp only at h₁ h₂ h₃ h₄
      exact ⟨h₁, h₂, by omega, h₄⟩
  | expired h =>
      dsimp only at h₁ h₂ h₃ h₄
      exact ⟨h₁, h₂, by omega, by rw [h]; exact Nat.zero_le _⟩
  | finished h =>
      obtain ⟨ho, hg, ht, hsum, hd, -⟩ := h.spec
      dsimp only at h₁ h₂ h₃ h₄
      exact ⟨by omega, by omega, by omega, by omega⟩
  | answered =>
      dsimp only at h₁ h₂ h₃ h₄
      exact ⟨h₁, by omega, h₃, h₄⟩

/-- **STEP**: only a stranded id leaves its map while it is in `deferring`. -/
theorem Entry.kept {lost : Prop} {r i a : Nat} {l l' : Ledger} (m : Entry lost r i a l l')
    (hlost : ¬lost) (hk : l.Kept) : l'.Kept := by
  unfold Ledger.Kept at hk ⊢
  cases m with
  | stay => exact hk
  | requested => exact hk
  | dropped => exact hk
  | asked => exact Nat.succ_le_succ (Nat.zero_le _)
  | released h =>
      obtain ⟨-, hg, -, -, -, hle⟩ := h.spec
      omega
  | late h => rw [h]; exact Nat.zero_le _
  | decided h => exact Nat.zero_le _
  | lost h => exact absurd h hlost
  | expired h => exact hk
  | finished h =>
      obtain ⟨-, hg, -, -, -, hle⟩ := h.spec
      dsimp only at hk
      omega
  | answered => exact hk

/-- The number of requests for `id`. -/
theorem count_requests_snoc (es : List Event) (e : Event) (id : CommandId) :
    (requests (es ++ [e])).count id
      = (requests es).count id + if e.requestedId = some id then 1 else 0 :=
  Machine.count_filterMap_snoc Event.requestedId es e id

theorem informed_append (id : CommandId) (tr out : List Out) :
    informed id (tr ++ out) = informed id tr + informed id out := List.countP_append

theorem answers_append (id : CommandId) (tr out : List Out) :
    answers id (tr ++ out) = answers id tr + answers id out := List.countP_append

/-- **RUN**: the books of every id balance, in every run. -/
theorem run_balanced {es : List Event} {s : State} {tr : List Out} (h : run es = some (s, tr))
    (id : CommandId) (hid : (requests es).count id ≤ 1) :
    Balanced ((requests es).count id) (informed id tr) (answers id tr) (ledger s id) := by
  have hinv := Machine.run_invariant (P := fun _ _ => True)
    (I := fun es tr s => (requests es).count id ≤ 1 →
      Balanced ((requests es).count id) (informed id tr) (answers id tr) (ledger s id))
    ?_ ?_ (Machine.along_true _ _) h
  · exact hinv hid
  · intro _
    exact ⟨Nat.le_refl 0, rfl, Nat.le_refl 0, Nat.le_refl 0⟩
  · intro es tr s e s' out hI _ hs hreq
    rw [count_requests_snoc] at hreq ⊢
    rw [informed_append, answers_append]
    exact (step_entry hs id).balanced hreq (hI (by omega))

/-- **RUN**: where every throw comes after a release, every id in `deferring`
    has its map still running. -/
theorem run_kept {es : List Event} {s : State} {tr : List Out} (h : run es = some (s, tr))
    (hthrow : Machine.Along step ThrowsReleased boot es) (id : CommandId) :
    (ledger s id).Kept := by
  refine Machine.run_invariant (P := ThrowsReleased) (I := fun _ _ s => (ledger s id).Kept)
    ?_ ?_ hthrow h
  · exact Nat.le_refl 0
  · intro _ _ s e s' _ hI hP hs
    refine (step_entry hs id).kept ?_ hI
    rintro ⟨hmap, hin⟩
    exact hP id hmap hin

/-! ## The promise -/

/-- The greenthreads of a quiet id. -/
theorem quiet_iff (s : State) (id : CommandId) :
    Quiet s id ↔ (ledger s id).deciding = 0 ∧ (ledger s id).timing = 0
      ∧ (ledger s id).responding = 0 := by
  unfold Quiet ledger
  simp only [List.countP_eq_zero]
  exact ⟨fun h => ⟨fun t ht => (h t ht).1, fun t ht => (h t ht).2.1, fun t ht => (h t ht).2.2⟩,
    fun h t ht => ⟨h.1 t ht, h.2.1 t ht, h.2.2 t ht⟩⟩

theorem deferring_iff (s : State) (id : CommandId) :
    id ∈ s.deferring ↔ (ledger s id).deferring.toNat = 1 := by
  simp [ledger]

theorem deferred_iff (s : State) (id : CommandId) :
    id ∈ s.deferred ↔ (ledger s id).deferred.toNat = 1 := by
  simp [ledger]

/-- Whatever the deferrers do, no id is answered twice. -/
theorem answers_le_one {es : List Event} {s : State} {tr : List Out} (h : run es = some (s, tr))
    (hfresh : (requests es).Nodup) (id : CommandId) : answers id tr ≤ 1 := by
  have hid := List.nodup_iff_count_le_one.mp hfresh id
  obtain ⟨hopen, hplace, -, -⟩ := run_balanced h id hid
  omega

/-- Whatever the deferrers do, no id is in both sets. -/
theorem deferring_disjoint_deferred {es : List Event} {s : State} {tr : List Out}
    (h : run es = some (s, tr)) (hfresh : (requests es).Nodup) :
    Disjoint s.deferring s.deferred := by
  rw [Finset.disjoint_left]
  intro id hg hd
  have hid := List.nodup_iff_count_le_one.mp hfresh id
  obtain ⟨hopen, hplace, -, -⟩ := run_balanced h id hid
  have hg' := (deferring_iff s id).mp hg
  have hd' := (deferred_iff s id).mp hd
  omega

/-- Every state of a run keeps the promise, if throws come after releases. -/
theorem run_proper {es : List Event} {s : State} {tr : List Out} (h : run es = some (s, tr))
    (hfresh : (requests es).Nodup) (hthrow : Machine.Along step ThrowsReleased boot es) :
    Proper tr s := by
  refine ⟨answers_le_one h hfresh, deferring_disjoint_deferred h hfresh, ?_⟩
  intro id hinf hq
  have hid := List.nodup_iff_count_le_one.mp hfresh id
  obtain ⟨hopen, hplace, -, htime⟩ := run_balanced h id hid
  have hkept : (ledger s id).deferring.toNat ≤ (ledger s id).deciding := run_kept h hthrow id
  obtain ⟨hg, ht, hr⟩ := (quiet_iff s id).mp hq
  rw [deferring_iff, deferred_iff]
  exact ⟨by omega, by omega, by omega⟩

/-- A map that throws ends without any further trace of its id. -/
theorem mapThrows_step {s s' : State} {e : Event} {out : List Out} {id : CommandId}
    (hmap : mapThrows s e = some id) (hs : step s e = some (s', out)) :
    out = [] ∧ s'.deferring = s.deferring
      ∧ ledger s id = { ledger s' id with deciding := (ledger s' id).deciding + 1 } := by
  cases e with
  | task n =>
      obtain ⟨t, ht, hs⟩ := Option.bind_eq_some_iff.mp hs
      simp only [mapThrows, ht] at hmap
      cases t with
      | deciding id' m =>
          simp only at hmap
          by_cases hx : m.pending = 0 ∧ m.extract = none
          · rw [if_pos hx] at hmap
            cases hmap
            simp only [stepTask, if_pos hx.1, hx.2] at hs
            cases hs
            refine ⟨rfl, rfl, ?_⟩
            rw [ledger_without ht id]
            simp [Ledger.add]
          · rw [if_neg hx] at hmap
            exact nomatch hmap
      | _ => exact nomatch hmap
  | _ => exact nomatch hmap

/-- A throw before any release breaks the promise in the very next state. -/
theorem stranded_not_proper {es : List Event} {s s' : State} {e : Event} {tr out : List Out}
    {id : CommandId} (h : run es = some (s, tr)) (hid : (requests es).count id ≤ 1)
    (hs : step s e = some (s', out)) (hmap : mapThrows s e = some id) (hin : id ∈ s.deferring) :
    ¬Proper (tr ++ out) s' := by
  intro hproper
  obtain ⟨rfl, hset, hled⟩ := mapThrows_step hmap hs
  obtain ⟨hopen, hplace, hbusy, -⟩ := run_balanced h id hid
  have hg := (deferring_iff s id).mp hin
  rw [hled] at hopen hplace hbusy hg
  dsimp only at hopen hplace hbusy hg
  have hquiet : Quiet s' id := (quiet_iff s' id).mpr ⟨by omega, by omega, by omega⟩
  have hinf : informed id (tr ++ []) ≠ 0 := by
    rw [List.append_nil]
    omega
  apply (hproper.answered id hinf hquiet).1
  rw [hset]
  exact hin

/-- **EVERY HTLC IS ANSWERED ONCE**, in every state of a run, exactly when no
    deferrer of the run throws while its id still waits for a decision. -/
theorem proper_iff {es : List Event} {s : State} {tr : List Out} (h : run es = some (s, tr))
    (hfresh : (requests es).Nodup) :
    (∀ es₁ es₂ s₁ tr₁, es = es₁ ++ es₂ → run es₁ = some (s₁, tr₁) → Proper tr₁ s₁)
      ↔ Machine.Along step ThrowsReleased boot es := by
  have hpre : ∀ es₁ es₂, es = es₁ ++ es₂ → (requests es₁).Nodup := by
    intro es₁ es₂ hes
    rw [hes, requests, List.filterMap_append] at hfresh
    exact hfresh.of_append_left
  constructor
  · intro hall
    refine Machine.along_of_steps h ?_
    intro es₁ e es₂ s' tr' s'' out hes hrun hs id hmap hin
    refine stranded_not_proper hrun ?_ hs hmap hin ?_
    · exact List.nodup_iff_count_le_one.mp (hpre es₁ (e :: es₂) hes) id
    · exact hall (es₁ ++ [e]) es₂ s'' (tr' ++ out) (by rw [hes, List.append_assoc]; rfl)
        (Machine.run_snoc hrun hs)
  · intro hthrow es₁ es₂ s₁ tr₁ hes hrun
    refine run_proper hrun (hpre es₁ es₂ hes) ?_
    rw [hes] at hthrow
    exact Machine.along_append hthrow

/-- Two deferrers; the first one asks for time and releases the HTLC, the
    second one throws after that. -/
def sampleReleasedRun : List Event :=
  [ .commandRequest "htlc_accepted" (.left 7) true
  , .task 0, .provideDeferrer, .provideDeferrer, .task 0, .task 0
  , .deferrer 0 0 (some true)
  , .release (.fail (.left 7) [0x20, 0x02])
  , .deferrer 0 1 none
  , .task 1
  , .task 0 ]

def sampleReleasedState : State := ⟨2, false, true, ∅, ∅, false, []⟩

theorem proper_iff_sampleReleasedRun :
    run sampleReleasedRun = some (sampleReleasedState, [.informed (.left 7),
        .commandResponse (.left 7) [("result", "fail"), ("failure_message", "2002")]])
      ∧ (requests sampleReleasedRun).Nodup
      ∧ ∀ es₁ es₂ s₁ tr₁, sampleReleasedRun = es₁ ++ es₂ → run es₁ = some (s₁, tr₁) →
        Proper tr₁ s₁ := by
  have hrun : run sampleReleasedRun = some (sampleReleasedState, [.informed (.left 7),
      .commandResponse (.left 7) [("result", "fail"), ("failure_message", "2002")]]) := by
    decide
  have hfresh : (requests sampleReleasedRun).Nodup := by decide
  exact ⟨hrun, hfresh, (proper_iff hrun hfresh).mpr (by decide)⟩

/-- The only deferrer throws. -/
def strandedRun : List Event :=
  [ .commandRequest "htlc_accepted" (.left 7) true
  , .task 0, .provideDeferrer, .task 0, .task 0
  , .deferrer 0 0 none
  , .task 0 ]

/-- All deferrers have finished and there is no timer, but the HTLC is neither
    released nor answered: nothing will ever happen to it. -/
theorem stranded_strandedRun :
    (requests strandedRun).Nodup ∧ ∃ s tr, run strandedRun = some (s, tr) ∧ s.tasks = []
      ∧ informed (.left 7) tr = 1 ∧ Quiet s (.left 7) ∧ .left 7 ∈ s.deferring
      ∧ answers (.left 7) tr = 0 ∧ ¬Proper tr s := by
  refine ⟨by decide, ⟨1, false, true, {.left 7}, ∅, false, []⟩, [.informed (.left 7)],
    by decide, rfl, by decide, ?_, by decide, by decide, ?_⟩
  · intro t ht
    exact nomatch ht
  · intro hproper
    have := hproper.answered (.left 7) (by decide) (fun t ht => nomatch ht)
    exact absurd this.2.2 (by decide)

end HtlcAcceptor
