import Clboss.AmountSettingsProofs
import Clboss.MachineProofs

/-! # ChannelCreator — a cycle of channel creation and a change of the settings

    The Manager compares the amount with the settings ONCE, when the request for
    a cycle arrives.  Seven awaits later it constructs the Planner, which asserts
    the same two conditions, from whatever the settings are then.

    The second condition is safe: every message there can be by then fits
    (`limits_hold`).  The first is not: a larger `clboss-min-channel` that arrives
    between the check and the Planner ABORTS the plugin. -/

namespace ChannelCreator

open Ln AmountSettingsHandler

/-! ## The code -/

/-- What a cycle awaits: the log of why it is skipped, its `then`s in their order, or
    the log of an error. -/
inductive Stage where
  | skipLog
  | triggered
  | getinfo
  | getChannelCandidates
  | dropChanneled
  | rearrangeBySize
  | reprioritize
  | prioritizeByTrackRecord
  | plannerRun
  | yield
  | report
  | construct
  | errorLog
deriving DecidableEq, Repr

/-- What is awaited next; after the last one `cycle_running` is cleared. -/
def Stage.next : Stage → Option Stage
  | .skipLog                 => none
  | .triggered               => some .getinfo
  | .getinfo                 => some .getChannelCandidates
  | .getChannelCandidates    => some .dropChanneled
  | .dropChanneled           => some .rearrangeBySize
  | .rearrangeBySize         => some .reprioritize
  | .reprioritize            => some .prioritizeByTrackRecord
  | .prioritizeByTrackRecord => some .plannerRun
  | .plannerRun              => some .yield
  | .yield                   => some .report
  | .report                  => some .construct
  | .construct               => none
  | .errorLog                => none

/-- How many awaits are left before the Planner; `none` when there will be none. -/
def Stage.awaits : Stage → Option Nat
  | .triggered               => some 7
  | .getinfo                 => some 6
  | .getChannelCandidates    => some 5
  | .dropChanneled           => some 4
  | .rearrangeBySize         => some 3
  | .reprioritize            => some 2
  | .prioritizeByTrackRecord => some 1
  | _                        => none

/-- The amounts the constructor of a Planner gets. -/
structure Planner where
  total        : Amount
  minAmount    : Amount
  maxAmount    : Amount
  minRemaining : Amount
deriving DecidableEq, Repr

/-- The first assertion of the constructor. -/
def Planner.enough (p : Planner) : Bool := (p.minAmount.mul (.finite 2)).le p.total

/-- The second one. -/
def Planner.fits (p : Planner) : Bool := (p.minAmount.add p.minRemaining).le p.maxAmount

/-- Why no cycle was started. -/
inductive Skip where
  | cycleRunning
  | offline
  | belowTwice
  | limits
deriving DecidableEq, Repr

/-- What shows. -/
inductive Out where
  /-- `setconfig` fails with this reason. -/
  | rejected (reason : String)
  | skipped (why : Skip)
  /-- The constructor of a Planner is entered. -/
  | planner (p : Planner)
deriving DecidableEq, Repr

/-- `Manager`. -/
structure Manager where
  /-- `rpc` is set. -/
  rpc          : Bool
  offline      : Bool
  minAmount    : Amount
  maxAmount    : Amount
  minRemaining : Amount
  /-- The cycle that runs: its amount and what it awaits. -/
  cycle        : Option (Amount × Stage)
deriving DecidableEq, Repr

/-- The Planner the members would give now. -/
def Manager.planner (m : Manager) (amount : Amount) : Planner :=
  ⟨amount, m.minAmount, m.maxAmount, m.minRemaining⟩

/-- The subscription to `AmountSettings`. -/
def Manager.onAmountSettings (m : Manager) (msg : AmountSettings) : Manager :=
  { m with
    minAmount := msg.minChannel, maxAmount := msg.maxChannel, minRemaining := msg.minRemaining }

/-- A cycle that only logs. -/
def Manager.skip (m : Manager) (amount : Amount) (why : Skip) : Manager × List Out :=
  ({ m with cycle := some (amount, .skipLog) }, [.skipped why])

/-- The subscription to `RequestChannelCreation`, with what `on_request_channel_creation`
    does before its first await. -/
def Manager.onRequestChannelCreation (m : Manager) (amount : Amount) : Manager × List Out :=
  if m.rpc = false then (m, [])
  else if m.cycle ≠ none then (m, [.skipped .cycleRunning])
  else if m.offline = true then m.skip amount .offline
  else if amount.lt (m.minAmount.mul (.finite 2)) then m.skip amount .belowTwice
  else if !(m.minAmount.add m.minRemaining).le m.maxAmount then m.skip amount .limits
  else ({ m with cycle := some (amount, .triggered) }, [])

/-- The settings and the Manager. -/
structure State where
  settings     : AmountSettings
  optionsEnded : Bool
  /-- The message raised at the end of the options, until it is delivered. -/
  startup      : Option AmountSettings
  /-- How many changes are logged but their message not raised yet. -/
  raising      : Nat
  /-- Raised, but not delivered to the Manager yet. -/
  inFlight     : List AmountSettings
  manager      : Manager
  /-- An assertion has failed. -/
  aborted      : Bool
deriving DecidableEq, Repr

def State.init : State :=
  ⟨.defaults, false, none, 0, [], ⟨false, false, ⟨0⟩, ⟨0⟩, ⟨0⟩, none⟩, false⟩

/-- What can happen. -/
inductive Event where
  /-- An option, at startup or through `setconfig`. -/
  | option (name value : String)
  | endOfOptions
  /-- The message raised at the end of the options reaches the Manager. -/
  | deliverStartup
  /-- The Initiator raises this after it awaited the end of the options. -/
  | init (offline : Bool)
  /-- A change has been logged, and the settings are raised AS THEY ARE NOW. -/
  | raise
  /-- A message reaches the Manager. -/
  | deliver (n : Nat)
  | requestChannelCreation (amount : Amount)
  /-- What the cycle awaits completes. -/
  | advance
  /-- What the cycle awaits throws. -/
  | throws
deriving DecidableEq, Repr

/-- The subscription to `Option`. -/
def onOption (s : State) (name value : String) : State × List Out :=
  match fieldOf name with
  | none       => (s, [])
  | some field =>
      if s.optionsEnded then
        match onDynamicOption s.settings name value field with
        | .error reason => (s, [.rejected reason])
        | .ok settings  => ({ s with settings, raising := s.raising + 1 }, [])
      else ({ s with settings := onStartupOption s.settings field value }, [])

/-- A cycle goes on: past the track records it constructs the Planner. -/
def advance (s : State) (amount : Amount) (stage : Stage) : State × List Out :=
  let manager := { s.manager with cycle := stage.next.map (amount, ·) }
  if stage = .prioritizeByTrackRecord then
    let p := s.manager.planner amount
    ({ s with manager, aborted := !(p.enough && p.fits) }, [.planner p])
  else ({ s with manager }, [])

/-- What an event does while the process lives. -/
def handle (s : State) : Event → Option (State × List Out)
  | .option name value => some (onOption s name value)
  | .endOfOptions =>
      if s.optionsEnded then none
      else
        let settings := (validate s.settings).1
        some ({ s with settings, optionsEnded := true, startup := some settings }, [])
  | .deliverStartup =>
      match s.startup with
      | none     => none
      | some msg => some ({ s with startup := none, manager := s.manager.onAmountSettings msg }, [])
  | .init offline =>
      if s.optionsEnded && s.startup.isNone && !s.manager.rpc then
        some ({ s with manager := { s.manager with rpc := true, offline } }, [])
      else none
  | .raise =>
      match s.raising with
      | 0     => none
      | n + 1 => some ({ s with raising := n, inFlight := s.inFlight ++ [s.settings] }, [])
  | .deliver n =>
      match s.inFlight[n]? with
      | none     => none
      | some msg => some ({ s with
          inFlight := s.inFlight.eraseIdx n, manager := s.manager.onAmountSettings msg }, [])
  | .requestChannelCreation amount =>
      let (manager, out) := s.manager.onRequestChannelCreation amount
      some ({ s with manager }, out)
  | .advance =>
      match s.manager.cycle with
      | none                 => none
      | some (amount, stage) => some (advance s amount stage)
  | .throws =>
      match s.manager.cycle with
      | none                 => none
      -- the log of the error itself is taken not to fail
      | some (_, .errorLog)  => none
      | some (amount, _)     =>
          some ({ s with manager := { s.manager with cycle := some (amount, .errorLog) } }, [])

def step (s : State) (e : Event) : Option (State × List Out) :=
  if s.aborted then none else handle s e

def run (es : List Event) : Option (State × List Out) := Machine.run step State.init es

/-! ## What is promised -/

/-- The amount of a cycle that is past the check and before its Planner. -/
def Manager.checked (m : Manager) : Option Amount :=
  match m.cycle with
  | none                 => none
  | some (amount, stage) => stage.awaits.map fun _ => amount

/-- A message delivered to a checked cycle leaves its amount enough for two channels. -/
def Clean (s : State) : Event → Prop
  | .deliver n => ∀ msg ∈ s.inFlight[n]?, ∀ amount ∈ s.manager.checked,
      (msg.minChannel.mul (.finite 2)).le amount = true
  | _          => True

instance (s : State) (e : Event) : Decidable (Clean s e) :=
  match e with
  | .deliver n => inferInstanceAs (Decidable (∀ msg ∈ s.inFlight[n]?, ∀ amount ∈ s.manager.checked,
      (msg.minChannel.mul (.finite 2)).le amount = true))
  | .option _ _               => inferInstanceAs (Decidable True)
  | .endOfOptions             => inferInstanceAs (Decidable True)
  | .deliverStartup           => inferInstanceAs (Decidable True)
  | .init _                   => inferInstanceAs (Decidable True)
  | .raise                    => inferInstanceAs (Decidable True)
  | .requestChannelCreation _ => inferInstanceAs (Decidable True)
  | .advance                  => inferInstanceAs (Decidable True)
  | .throws                   => inferInstanceAs (Decidable True)

/-! ## What a step does -/

/-- A checked cycle would give a Planner with `Q` now. -/
def Holds (Q : Planner → Prop) (m : Manager) : Prop :=
  ∀ amount ∈ m.checked, Q (m.planner amount)

/-- A request starts a cycle that passes both checks, or nothing that plans. -/
theorem onRequestChannelCreation_cases (m : Manager) (amount : Amount) :
    (∀ p, .planner p ∉ (m.onRequestChannelCreation amount).2) ∧
    ((m.onRequestChannelCreation amount).1 = m ∨
      m.rpc = true ∧ ∃ stage, (m.onRequestChannelCreation amount).1
          = { m with cycle := some (amount, stage) } ∧
        (stage.awaits ≠ none →
          (m.planner amount).enough = true ∧ (m.planner amount).fits = true)) := by
  unfold Manager.onRequestChannelCreation Manager.skip
  by_cases hrpc : m.rpc = false
  · rw [if_pos hrpc]
    exact ⟨fun p => by simp, .inl rfl⟩
  rw [if_neg hrpc]
  by_cases hcycle : m.cycle ≠ none
  · rw [if_pos hcycle]
    exact ⟨fun p => by simp, .inl rfl⟩
  rw [if_neg hcycle]
  refine ⟨fun p => by split_ifs <;> simp, .inr ⟨by simpa using hrpc, ?_⟩⟩
  by_cases hoffline : m.offline = true
  · rw [if_pos hoffline]
    exact ⟨.skipLog, rfl, fun h => absurd rfl h⟩
  rw [if_neg hoffline]
  by_cases henough : amount.lt (m.minAmount.mul (.finite 2)) = true
  · rw [if_pos henough]
    exact ⟨.skipLog, rfl, fun h => absurd rfl h⟩
  rw [if_neg henough]
  by_cases hfits : (!(m.minAmount.add m.minRemaining).le m.maxAmount) = true
  · rw [if_pos hfits]
    exact ⟨.skipLog, rfl, fun h => absurd rfl h⟩
  · rw [if_neg hfits]
    refine ⟨.triggered, rfl, fun _ => ⟨?_, ?_⟩⟩
    · show (m.minAmount.mul (.finite 2)).le amount = true
      rw [← Amount.not_lt]
      simpa using henough
    · show (m.minAmount.add m.minRemaining).le m.maxAmount = true
      simpa using hfits

theorem checked_cycle (m : Manager) (amount : Amount) (stage : Stage) :
    { m with cycle := some (amount, stage) }.checked = stage.awaits.map fun _ => amount := rfl

/-- An await that completes brings no cycle back before its Planner. -/
theorem checked_next (m : Manager) (amount : Amount) (stage : Stage) :
    ∀ a ∈ { m with cycle := stage.next.map (amount, ·) }.checked,
      a ∈ { m with cycle := some (amount, stage) }.checked := by
  intro a ha
  cases stage <;> first | exact ha | cases ha

/-- Only an await that completes constructs a Planner, and only there an assertion fails. -/
theorem handle_quiet {s s' : State} {e : Event} {out : List Out} (he : e ≠ .advance)
    (h : handle s e = some (s', out)) : s'.aborted = s.aborted ∧ ∀ p, .planner p ∉ out := by
  cases e with
  | option name value =>
      simp only [handle, onOption, Option.some.injEq] at h
      split at h
      · cases h
        exact ⟨rfl, fun p => by simp⟩
      · split_ifs at h
        · split at h
          · cases h
            exact ⟨rfl, fun p => by simp⟩
          · cases h
            exact ⟨rfl, fun p => by simp⟩
        · cases h
          exact ⟨rfl, fun p => by simp⟩
  | endOfOptions =>
      simp only [handle] at h
      split_ifs at h
      rw [Option.some.injEq, Prod.mk.injEq] at h
      obtain ⟨rfl, rfl⟩ := h
      exact ⟨rfl, fun p => by simp⟩
  | init offline =>
      simp only [handle] at h
      split_ifs at h
      cases h
      exact ⟨rfl, fun p => by simp⟩
  | requestChannelCreation amount =>
      cases h
      exact ⟨rfl, (onRequestChannelCreation_cases s.manager amount).1⟩
  | advance => exact absurd rfl he
  | throws =>
      simp only [handle] at h
      split at h
      · cases h
      · cases h
      · cases h
        exact ⟨rfl, fun p => by simp⟩
  | _ =>
      simp only [handle] at h
      split at h
      · cases h
      · cases h
        exact ⟨rfl, fun p => by simp⟩

/-- The await that completes, and the Planner if it was the last one before it. -/
theorem handle_advance {s s' : State} {out : List Out} (h : handle s .advance = some (s', out)) :
    ∃ amount stage aborted, s.manager.cycle = some (amount, stage) ∧
      s' = { s with manager := { s.manager with cycle := stage.next.map (amount, ·) }, aborted } ∧
      ((stage = .prioritizeByTrackRecord ∧ out = [.planner (s.manager.planner amount)] ∧
        aborted = !((s.manager.planner amount).enough && (s.manager.planner amount).fits)) ∨
      (stage ≠ .prioritizeByTrackRecord ∧ out = [] ∧ aborted = s.aborted)) := by
  cases hc : s.manager.cycle with
  | none => simp [handle, hc] at h
  | some c =>
      obtain ⟨amount, stage⟩ := c
      simp only [handle, hc, Option.some.injEq, advance] at h
      by_cases hlast : stage = .prioritizeByTrackRecord
      · rw [if_pos hlast] at h
        cases h
        exact ⟨amount, stage, _, rfl, rfl, .inl ⟨hlast, rfl, rfl⟩⟩
      · rw [if_neg hlast] at h
        cases h
        exact ⟨amount, stage, _, rfl, rfl, .inr ⟨hlast, rfl, rfl⟩⟩

/-- What the check gives and every message delivered meanwhile keeps, a cycle keeps. -/
theorem handle_holds {Q : Planner → Prop} {s s' : State} {e : Event} {out : List Out}
    (hcheck : ∀ p : Planner, p.enough = true → p.fits = true → Q p)
    (hstartup : s.startup ≠ none → s.manager.checked = none)
    (hdeliver : ∀ n msg, e = .deliver n → s.inFlight[n]? = some msg →
      Holds Q (s.manager.onAmountSettings msg))
    (hQ : Holds Q s.manager) (h : handle s e = some (s', out)) : Holds Q s'.manager := by
  cases e with
  | option name value =>
      simp only [handle, onOption, Option.some.injEq] at h
      split at h
      · cases h
        exact hQ
      · split_ifs at h
        · split at h
          · cases h
            exact hQ
          · cases h
            exact hQ
        · cases h
          exact hQ
  | endOfOptions =>
      simp only [handle] at h
      split_ifs at h
      rw [Option.some.injEq, Prod.mk.injEq] at h
      obtain ⟨rfl, rfl⟩ := h
      exact hQ
  | deliverStartup =>
      cases hs : s.startup with
      | none => simp [handle, hs] at h
      | some msg =>
          simp only [handle, hs] at h
          cases h
          intro amount ha
          -- there is no cycle yet
          have hnone := hstartup (by rw [hs]; exact Option.some_ne_none _)
          exact absurd (hnone ▸ ha : amount ∈ (none : Option Amount)) (by simp)
  | init offline =>
      simp only [handle] at h
      split_ifs at h
      cases h
      exact hQ
  | raise =>
      simp only [handle] at h
      split at h
      · cases h
      · cases h
        exact hQ
  | deliver n =>
      cases hs : s.inFlight[n]? with
      | none => simp [handle, hs] at h
      | some msg =>
          simp only [handle, hs] at h
          cases h
          exact hdeliver n msg rfl hs
  | requestChannelCreation amount =>
      simp only [handle, Option.some.injEq, Prod.mk.injEq] at h
      obtain ⟨rfl, _⟩ := h
      obtain ⟨_, hm | ⟨_, stage, hm, hpassed⟩⟩ := onRequestChannelCreation_cases s.manager amount
      · rw [hm]
        exact hQ
      · rw [hm]
        intro a ha
        rw [checked_cycle] at ha
        obtain ⟨_, hawaits, rfl⟩ := Option.map_eq_some_iff.mp ha
        obtain ⟨henough, hfits⟩ := hpassed (by rw [hawaits]; exact Option.some_ne_none _)
        exact hcheck _ henough hfits
  | advance =>
      obtain ⟨amount, stage, _, hc, rfl, _⟩ := handle_advance h
      intro a ha
      have := checked_next s.manager amount stage a ha
      rw [← hc] at this
      exact hQ a this
  | throws =>
      simp only [handle] at h
      split at h
      · cases h
      · cases h
      · cases h
        intro a ha
        rw [checked_cycle] at ha
        simp [Stage.awaits] at ha

/-- The Planner is constructed from a cycle that was checked. -/
theorem handle_planner {Q : Planner → Prop} {s s' : State} {e : Event} {out : List Out}
    (hQ : Holds Q s.manager) (h : handle s e = some (s', out)) : ∀ p, .planner p ∈ out → Q p := by
  intro p hp
  by_cases he : e = .advance
  · subst he
    obtain ⟨amount, stage, _, hc, _, ⟨rfl, rfl, _⟩ | ⟨_, rfl, _⟩⟩ := handle_advance h
    · cases List.mem_singleton.mp hp
      refine hQ amount ?_
      unfold Manager.checked
      rw [hc]
      rfl
    · simp at hp
  · exact absurd hp ((handle_quiet he h).2 p)

/-- What holds of the settings and their messages. -/
structure Settled (s : State) : Prop where
  /-- A change that was accepted fits, and so do later ones. -/
  raising  : s.raising ≠ 0 → s.optionsEnded = true ∧ s.settings.Fits
  inFlight : ∀ msg ∈ s.inFlight, msg.Fits
  ended    : s.manager.rpc = true → s.optionsEnded = true ∧ s.startup = none
  cycle    : s.manager.cycle ≠ none → s.manager.rpc = true

theorem settled_init : Settled State.init := by
  refine ⟨fun h => absurd rfl h, fun _ h => ?_, fun h => ?_, fun h => absurd rfl h⟩
  · simp [State.init] at h
  · cases h

/-- A cycle that goes on. -/
theorem Settled.cycling {s : State} (hs : Settled s) (hrpc : s.manager.rpc = true)
    (cycle : Option (Amount × Stage)) (aborted : Bool) :
    Settled { s with manager := { s.manager with cycle }, aborted } :=
  ⟨hs.raising, hs.inFlight, hs.ended, fun _ => hrpc⟩

/-- No message but the first need not fit, and that one comes before any cycle. -/
theorem handle_settled {s s' : State} {e : Event} {out : List Out} (hs : Settled s)
    (h : handle s e = some (s', out)) : Settled s' := by
  cases e with
  | option name value =>
      simp only [handle, onOption, Option.some.injEq] at h
      split at h
      · cases h
        exact hs
      · split_ifs at h with hended
        · split at h
          · cases h
            exact hs
          next settings hok =>
            cases h
            exact ⟨fun _ => ⟨hended, (fits_of_onDynamicOption hok).2⟩, hs.inFlight, hs.ended,
              hs.cycle⟩
        · cases h
          refine ⟨fun hr => absurd (hs.raising hr).1 hended, hs.inFlight, hs.ended, hs.cycle⟩
  | endOfOptions =>
      simp only [handle] at h
      split_ifs at h with hended
      rw [Option.some.injEq, Prod.mk.injEq] at h
      obtain ⟨rfl, rfl⟩ := h
      exact ⟨fun hr => absurd (hs.raising hr).1 hended, hs.inFlight,
        fun hrpc => absurd (hs.ended hrpc).1 hended, hs.cycle⟩
  | deliverStartup =>
      cases hmsg : s.startup with
      | none => simp [handle, hmsg] at h
      | some msg =>
          simp only [handle, hmsg] at h
          cases h
          exact ⟨hs.raising, hs.inFlight, fun hrpc => ⟨(hs.ended hrpc).1, rfl⟩, hs.cycle⟩
  | init offline =>
      simp only [handle] at h
      split_ifs at h with hready
      cases h
      simp only [Bool.and_eq_true, Option.isNone_iff_eq_none] at hready
      exact ⟨hs.raising, hs.inFlight, fun _ => hready.1, fun _ => rfl⟩
  | raise =>
      simp only [handle] at h
      split at h
      · cases h
      next n hn =>
        cases h
        obtain ⟨hended, hfits⟩ := hs.raising (by rw [hn]; exact Nat.succ_ne_zero n)
        refine ⟨fun _ => ⟨hended, hfits⟩, ?_, hs.ended, hs.cycle⟩
        intro msg hmsg
        rcases List.mem_append.mp hmsg with hmsg | hmsg
        · exact hs.inFlight msg hmsg
        · rw [List.mem_singleton.mp hmsg]
          exact hfits
  | deliver n =>
      simp only [handle] at h
      split at h
      · cases h
      · cases h
        exact ⟨hs.raising, fun msg hmsg => hs.inFlight msg (List.mem_of_mem_eraseIdx hmsg),
          hs.ended, hs.cycle⟩
  | requestChannelCreation amount =>
      simp only [handle, Option.some.injEq, Prod.mk.injEq] at h
      obtain ⟨rfl, _⟩ := h
      obtain ⟨_, hm | ⟨hrpc, stage, hm, _⟩⟩ := onRequestChannelCreation_cases s.manager amount
      · rw [hm]
        exact hs
      · rw [hm]
        exact hs.cycling hrpc _ s.aborted
  | advance =>
      obtain ⟨amount, stage, aborted, hc, rfl, _⟩ := handle_advance h
      exact hs.cycling (hs.cycle (by rw [hc]; exact Option.some_ne_none _)) _ aborted
  | throws =>
      cases hc : s.manager.cycle with
      | none => simp [handle, hc] at h
      | some c =>
          have hrpc := hs.cycle (by rw [hc]; exact Option.some_ne_none c)
          simp only [handle, hc] at h
          split at h
          · cases h
          · cases h
          · cases h
            exact hs.cycling hrpc _ s.aborted

/-- The first message is delivered before any cycle. -/
theorem Settled.checked {s : State} (hs : Settled s) (h : s.startup ≠ none) :
    s.manager.checked = none := by
  have hcycle : s.manager.cycle = none := by
    by_contra hc
    exact h (hs.ended (hs.cycle hc)).2
  unfold Manager.checked
  rw [hcycle]

theorem handle_of_step {s s' : State} {e : Event} {out : List Out}
    (h : step s e = some (s', out)) : s.aborted = false ∧ handle s e = some (s', out) := by
  unfold step at h
  split_ifs at h with ha
  exact ⟨by simpa using ha, h⟩

/-! ## The runs -/

/-- What every run keeps: the settings are in order, and a checked cycle still fits. -/
structure Fitting (tr : List Out) (s : State) : Prop where
  settled : Settled s
  checked : Holds (fun p => p.fits = true) s.manager
  planned : ∀ p, .planner p ∈ tr → p.fits = true

theorem holds_init (Q : Planner → Prop) : Holds Q State.init.manager := by
  intro amount ha
  cases ha

theorem fitting_init : Fitting [] State.init :=
  ⟨settled_init, holds_init _, fun _ hp => absurd hp List.not_mem_nil⟩

/-- **STEP** -/
theorem fitting_step {tr out : List Out} {s s' : State} {e : Event} (hs : Fitting tr s)
    (h : step s e = some (s', out)) : Fitting (tr ++ out) s' := by
  obtain ⟨_, h⟩ := handle_of_step h
  refine ⟨handle_settled hs.settled h, ?_, fun p hp => ?_⟩
  · refine handle_holds (fun p _ hfits => hfits) hs.settled.checked ?_ hs.checked h
    intro n msg _ hmsg amount _
    exact hs.settled.inFlight msg (List.mem_of_getElem? hmsg)
  · rcases List.mem_append.mp hp with hp | hp
    · exact hs.planned p hp
    · exact handle_planner hs.checked h p hp

/-- **RUN**: the second assertion never fails. -/
theorem limits_hold {es : List Event} {s : State} {tr : List Out}
    (hrun : run es = some (s, tr)) : Fitting tr s := by
  refine Machine.run_invariant (I := fun _ tr s => Fitting tr s) ?_ ?_
    (Machine.along_true State.init es) hrun
  · exact fitting_init
  · intro _ tr s e s' out hs _ h
    exact fitting_step hs h

/-- What a clean run keeps. -/
structure Sound (tr : List Out) (s : State) : Prop where
  fitting : Fitting tr s
  alive   : s.aborted = false
  checked : Holds (fun p => p.enough = true) s.manager
  planned : ∀ p, .planner p ∈ tr → p.enough = true

/-- **STEP** -/
theorem sound_step {tr out : List Out} {s s' : State} {e : Event} (hs : Sound tr s)
    (hclean : Clean s e) (h : step s e = some (s', out)) : Sound (tr ++ out) s' := by
  have hfitting := fitting_step hs.fitting h
  obtain ⟨_, h⟩ := handle_of_step h
  refine ⟨hfitting, ?_, ?_, fun p hp => ?_⟩
  · by_cases he : e = .advance
    · subst he
      have henough := handle_planner hs.checked h
      have hfits := handle_planner hs.fitting.checked h
      obtain ⟨amount, stage, _, _, rfl, ⟨_, rfl, rfl⟩ | ⟨_, _, rfl⟩⟩ := handle_advance h
      · rw [henough _ (List.mem_singleton_self _), hfits _ (List.mem_singleton_self _)]
        rfl
      · exact hs.alive
    · exact (handle_quiet he h).1.trans hs.alive
  · refine handle_holds (fun p henough _ => henough) hs.fitting.settled.checked ?_ hs.checked h
    rintro n msg rfl hmsg amount ha
    exact hclean msg hmsg amount ha
  · rcases List.mem_append.mp hp with hp | hp
    · exact hs.planned p hp
    · exact handle_planner hs.checked h p hp

/-- **RUN** -/
theorem sound_of_clean {es : List Event} {s : State} {tr : List Out}
    (hclean : Machine.Along step Clean State.init es) (hrun : run es = some (s, tr)) :
    Sound tr s := by
  refine Machine.run_invariant (I := fun _ tr s => Sound tr s) ?_ ?_ hclean hrun
  · exact ⟨fitting_init, rfl, holds_init _, fun _ hp => absurd hp List.not_mem_nil⟩
  · intro _ tr s e s' out hs hclean h
    exact sound_step hs hclean h

/-! ## The condition is the right one -/

theorem awaits_next {stage : Stage} {n : Nat} (h : stage.awaits = some (n + 1)) :
    (stage = .prioritizeByTrackRecord ∧ n = 0) ∨
      (stage ≠ .prioritizeByTrackRecord ∧ ∃ next, stage.next = some next ∧ next.awaits = some n) := by
  cases stage <;> cases h <;> first | exact .inl ⟨rfl, rfl⟩ | exact .inr ⟨nofun, _, rfl, rfl⟩

/-- Left alone, a checked cycle gets to its Planner. -/
theorem run_advance (n : Nat) : ∀ (s : State) (amount : Amount) (stage : Stage),
    s.aborted = false → s.manager.cycle = some (amount, stage) → stage.awaits = some n →
      ∃ s', Machine.run step s (List.replicate n .advance)
          = some (s', [.planner (s.manager.planner amount)]) ∧
        s'.aborted = !((s.manager.planner amount).enough && (s.manager.planner amount).fits) := by
  induction n with
  | zero =>
      intro s amount stage _ _ hn
      cases stage <;> cases hn
  | succ n ih =>
      intro s amount stage ha hc hn
      have hstep : step s .advance = some (advance s amount stage) := by
        simp only [step, ha, handle, hc]
        rfl
      rcases awaits_next hn with ⟨rfl, rfl⟩ | ⟨hlast, next, hnext, hn'⟩
      · rw [advance, if_pos rfl] at hstep
        exact ⟨_, Machine.run_step hstep rfl, rfl⟩
      · rw [advance, if_neg hlast, hnext] at hstep
        obtain ⟨s', hrun, ha'⟩ := ih
          { s with manager := { s.manager with cycle := some (amount, next) } } amount next ha rfl hn'
        exact ⟨s', Machine.run_step hstep hrun, ha'⟩

/-- A message that is not clean aborts the plugin, unless something else happens. -/
theorem aborts_of_not_clean {s : State} {n : Nat} (ha : s.aborted = false)
    (hbad : ¬ Clean s (.deliver n)) : ∃ k s' tr,
      Machine.run step s (.deliver n :: List.replicate k .advance) = some (s', tr) ∧
      s'.aborted = true := by
  simp only [Clean, not_forall] at hbad
  obtain ⟨msg, hmsg, amount, hamount, hbad⟩ := hbad
  unfold Manager.checked at hamount
  cases hc : s.manager.cycle with
  | none =>
      rw [hc] at hamount
      cases hamount
  | some c =>
      obtain ⟨amount', stage⟩ := c
      rw [hc] at hamount
      obtain ⟨k, hk, rfl⟩ := Option.map_eq_some_iff.mp hamount
      obtain ⟨s', hrun, ha'⟩ := run_advance k
        { s with inFlight := s.inFlight.eraseIdx n, manager := s.manager.onAmountSettings msg }
        amount' stage ha hc hk
      have hstep : step s (.deliver n) = some ({ s with
          inFlight := s.inFlight.eraseIdx n, manager := s.manager.onAmountSettings msg }, []) := by
        simp only [step, ha, handle, Option.mem_def.mp hmsg]
        rfl
      refine ⟨k, s', _, Machine.run_step hstep hrun, ?_⟩
      have hpoor : ((s.manager.onAmountSettings msg).planner amount').enough = false :=
        Bool.eq_false_iff.mpr hbad
      rw [ha', hpoor]
      rfl

/-- **HEADLINE**: in a clean run every Planner is constructed with both assertions true,
    and a message that is not clean is all it takes to abort. -/
theorem asserts_hold_of_clean {es : List Event} {s : State} {tr : List Out}
    (hrun : run es = some (s, tr)) :
    (Machine.Along step Clean State.init es →
      s.aborted = false ∧ ∀ p, .planner p ∈ tr → p.enough = true ∧ p.fits = true) ∧
    (s.aborted = false → ∀ n, ¬ Clean s (.deliver n) → ∃ k s' tr',
      run (es ++ .deliver n :: List.replicate k .advance) = some (s', tr') ∧
        s'.aborted = true) := by
  constructor
  · intro hclean
    have hsound := sound_of_clean hclean hrun
    exact ⟨hsound.alive, fun p hp => ⟨hsound.planned p hp, hsound.fitting.planned p hp⟩⟩
  · intro ha n hbad
    obtain ⟨k, s', tr', hrun', ha'⟩ := aborts_of_not_clean ha hbad
    exact ⟨k, s', tr ++ tr', Machine.run_append hrun hrun', ha'⟩

/-- A cycle over 1,200,000 satoshis, checked against the default of 500,000, while
    `clboss-min-channel` is set to `value`. -/
def changeRun (value : String) : List Event :=
  [.endOfOptions, .deliverStartup, .init false, .requestChannelCreation (.sat 1200000),
    .option "clboss-min-channel" value, .raise, .advance, .advance, .deliver 0]
    ++ List.replicate 5 .advance

theorem asserts_hold_of_clean_changeRun :
    ∃ s, run (changeRun "600000")
        = some (s, [.planner ⟨.sat 1200000, .sat 600000, .sat 100000000, .sat 1250000⟩]) ∧
      s.aborted = false := by
  have h : (run (changeRun "600000")).map Prod.snd
        = some [.planner ⟨.sat 1200000, .sat 600000, .sat 100000000, .sat 1250000⟩] ∧
      Machine.Along step Clean State.init (changeRun "600000") := by
    decide +kernel
  obtain ⟨⟨s, tr⟩, hrun, rfl⟩ := Option.map_eq_some_iff.mp h.1
  exact ⟨s, hrun, ((asserts_hold_of_clean hrun).1 h.2).1⟩

/-- **SLIP**: one million is refused by nobody, and is more than half the amount. -/
theorem aborts_changeRun :
    ((run (changeRun "1000000")).map fun r => (r.2, r.1.aborted))
        = some ([.planner ⟨.sat 1200000, .sat 1000000, .sat 100000000, .sat 2050000⟩], true) ∧
      Planner.enough ⟨.sat 1200000, .sat 1000000, .sat 100000000, .sat 2050000⟩ = false := by
  decide +kernel

end ChannelCreator
