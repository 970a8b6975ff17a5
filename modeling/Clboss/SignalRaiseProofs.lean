import Clboss.MachineProofs

/-! # `S::Signal` — raising a value

    The nodes are walked with a yield before each, and every callback is called
    in a concurrent task of its own.  `running` counts the tasks from when they
    are made; a callback that finishes takes itself off the count, and when the
    walk is done and the count is zero the value is destroyed and the raise
    completes.

    A callback that THROWS instead of returning an action is not taken off the
    count: the exception ends in the handler of the concurrent task, and the
    raise never completes.  Counting those that threw is what the invariant
    needs (`Counted.running`), and all that goes wrong. -/

namespace SignalRaise

open Machine

variable {C V X : Type}

/-! ## The code -/

/-- What a callback does when called. -/
inductive Called (X : Type) where
  | throws (x : X)
  | finishes (r : Except X Unit)
  | later
deriving DecidableEq

inductive Event (X : Type) where
  | walk
  | start (i : ℕ) (r : Called X)
  | finish (i : ℕ) (r : Except X Unit)
  | resume

inductive Output (C V X : Type) where
  | called (c : C) (value : Option V)
  | finished (c : C) (r : Except X Unit)
  | unhandled (c : C) (x : X)
  | raised (r : Except X Unit)

/-- `RaiseData`, with the nodes still to be walked, the tasks not started, the
    actions not finished, and whether the yield after the raise is pending. -/
structure State (C V X : Type) where
  value    : Option V
  exc      : Option X
  starting : Bool
  running  : ℕ
  it       : List C
  tasks    : List C
  pending  : List C
  yielding : Bool

/-- `trigger`. -/
def State.trigger (s : State C V X) : State C V X × List (Output C V X) :=
  let s := { s with value := none }
  match s.exc with
  | some x => (s, [.raised (.error x)])
  | none   => ({ s with yielding := true }, [])

/-- `finish_startup`. -/
def State.finishStartup (s : State C V X) : State C V X × List (Output C V X) :=
  let s := { s with starting := false }
  if s.running = 0 then s.trigger else (s, [])

/-- `finish_raise`. -/
def State.finishRaise (s : State C V X) : State C V X × List (Output C V X) :=
  let s := { s with running := s.running - 1 }
  if s.starting = false ∧ s.running = 0 then s.trigger else (s, [])

/-- The action of a callback finishes. -/
def State.complete (s : State C V X) (r : Except X Unit) : State C V X × List (Output C V X) :=
  match r with
  | .ok _    => s.finishRaise
  | .error x => { s with exc := some x }.finishRaise

/-- `raise_loop`: it goes on at once at the end, and after a yield before that. -/
def State.raiseLoop (s : State C V X) : State C V X × List (Output C V X) :=
  match s.it with
  | []     => s.finishStartup
  | _ :: _ => (s, [])

/-- `raise`. -/
def raise (subscribers : List C) (v : V) : State C V X :=
  (State.raiseLoop ⟨some v, none, true, 0, subscribers, [], [], false⟩).1

def step (s : State C V X) : Event X → Option (State C V X × List (Output C V X))
  | .walk =>
      match s.it with
      | []      => none
      | c :: it =>
          some { s with running := s.running + 1, tasks := s.tasks ++ [c], it }.raiseLoop
  | .start i r =>
      match s.tasks[i]? with
      | none   => none
      | some c =>
          let s' := { s with tasks := s.tasks.eraseIdx i }
          match r with
          | .throws x   => some (s', [.called c s.value, .unhandled c x])
          | .later      => some ({ s' with pending := s.pending ++ [c] }, [.called c s.value])
          | .finishes r =>
              let (s', out) := s'.complete r
              some (s', .called c s.value :: .finished c r :: out)
  | .finish i r =>
      match s.pending[i]? with
      | none   => none
      | some c =>
          let (s', out) := { s with pending := s.pending.eraseIdx i }.complete r
          some (s', .finished c r :: out)
  | .resume =>
      if s.yielding then some ({ s with yielding := false }, [.raised (.ok ())]) else none

/-! ## What a raise is to do -/

def Output.call : Output C V X → Option C
  | .called c _ => some c
  | _           => none

def Output.finish : Output C V X → Option C
  | .finished c _ => some c
  | _             => none

def Output.throw : Output C V X → Option C
  | .unhandled c _ => some c
  | _              => none

def Output.completion : Output C V X → Option (Except X Unit)
  | .raised r => some r
  | _         => none

def calls (tr : List (Output C V X)) : List C := tr.filterMap Output.call
def finishes (tr : List (Output C V X)) : List C := tr.filterMap Output.finish
def throws (tr : List (Output C V X)) : List C := tr.filterMap Output.throw
def completions (tr : List (Output C V X)) : List (Except X Unit) :=
  tr.filterMap Output.completion

/-- Nothing is left to happen. -/
def State.Done (s : State C V X) : Prop :=
  s.it = [] ∧ s.tasks = [] ∧ s.pending = [] ∧ s.yielding = false

/-- The raise does what it is to do, as far as it has come. -/
structure Raised (subscribers : List C) (v : V) (tr : List (Output C V X)) (s : State C V X) :
    Prop where
  once     : (calls tr).Subperm subscribers
  value    : ∀ c o, .called c o ∈ tr → o = some v
  single   : (completions tr).length ≤ 1
  finished : completions tr ≠ [] → (finishes tr).Perm subscribers
  passed   : .ok () ∈ completions tr → ∀ c x, .finished c (.error x) ∉ tr
  failed   : ∀ x, .error x ∈ completions tr → ∃ c, .finished c (.error x) ∈ tr
  kept     : s.value = none → (finishes tr).Perm subscribers
  done     : s.Done → (calls tr).Perm subscribers ∧ (completions tr).length = 1

/-- The callback throws when called. -/
def Event.Throws : Event X → Prop
  | .start _ (.throws _) => True
  | _                    => False

/-! ## The count -/

/-- Every subscriber is to be walked, in a task or called, every one called is pending,
    finished or threw, and the count is of the tasks, the pending and those that threw. -/
structure Counted (subscribers : List C) (v : V) (tr : List (Output C V X)) (s : State C V X) :
    Prop where
  calls   : (calls tr ++ s.tasks ++ s.it).Perm subscribers
  ends    : (finishes tr ++ throws tr ++ s.pending).Perm (SignalRaise.calls tr)
  running : s.running = s.tasks.length + s.pending.length + (throws tr).length
  value   : ∀ c o, .called c o ∈ tr → o = some v
  passed  : s.exc = none → ∀ c x, .finished c (.error x) ∉ tr
  failed  : ∀ x, s.exc = some x → ∃ c, .finished c (.error x) ∈ tr

def verdict : Option X → Except X Unit
  | none   => .ok ()
  | some x => .error x

/-- The raise has not completed, and the value is there. -/
structure Waiting (v : V) (tr : List (Output C V X)) (s : State C V X) : Prop where
  value       : s.value = some v
  yielding    : s.yielding = false
  completions : completions tr = []

/-- `trigger` was called, and the raise has completed or is about to. -/
structure Triggered (tr : List (Output C V X)) (s : State C V X) : Prop where
  running  : s.running = 0
  starting : s.starting = false
  outcome  : s.yielding = true ∧ s.exc = none ∧ completions tr = []
    ∨ s.yielding = false ∧ completions tr = [verdict s.exc]

/-- **INVARIANT**. -/
structure Inv (subscribers : List C) (v : V) (tr : List (Output C V X)) (s : State C V X) : Prop
    extends Counted subscribers v tr s where
  starting : s.starting = true ↔ s.it ≠ []
  stage    : Waiting v tr s ∧ (s.starting = true ∨ 0 < s.running) ∨ Triggered tr s

variable {subscribers : List C} {v : V} {tr : List (Output C V X)} {s s' : State C V X}
  {out : List (Output C V X)} {e : Event X}

/-- Everyone has finished when the count is zero. -/
theorem Counted.all_finished (h : Counted subscribers v tr s) (hrunning : s.running = 0)
    (hit : s.it = []) :
    (finishes tr).Perm subscribers ∧ s.tasks = [] ∧ s.pending = [] ∧ throws tr = [] := by
  have hcount := h.running
  have htasks : s.tasks = [] := List.length_eq_zero_iff.mp (by omega)
  have hpending : s.pending = [] := List.length_eq_zero_iff.mp (by omega)
  have hthrows : throws tr = [] := List.length_eq_zero_iff.mp (by omega)
  have hcalls := h.calls
  have hends := h.ends
  rw [htasks, hit, List.append_nil, List.append_nil] at hcalls
  rw [hthrows, hpending, List.append_nil, List.append_nil] at hends
  exact ⟨hends.trans hcalls, htasks, hpending, hthrows⟩

theorem calls_append : calls (tr ++ out) = calls tr ++ calls out := List.filterMap_append

theorem finishes_append : finishes (tr ++ out) = finishes tr ++ finishes out :=
  List.filterMap_append

theorem throws_append : throws (tr ++ out) = throws tr ++ throws out := List.filterMap_append

theorem completions_append : completions (tr ++ out) = completions tr ++ completions out :=
  List.filterMap_append

theorem mem_of_mem_snoc {o o' : Output C V X} (h : o ∈ tr ++ [o']) (hne : o ≠ o') : o ∈ tr := by
  rcases List.mem_append.mp h with h | h
  · exact h
  · exact absurd (List.mem_singleton.mp h) hne

/-- A node is walked. -/
theorem Counted.walk {c : C} {it : List C} (h : Counted subscribers v tr s) (hit : s.it = c :: it) :
    Counted subscribers v tr
      { s with running := s.running + 1, tasks := s.tasks ++ [c], it } where
  calls   := by
    have hcalls := h.calls
    rw [hit] at hcalls
    simpa using hcalls
  ends    := h.ends
  running := by
    have hrunning := h.running
    simp only [List.length_append, List.length_singleton]
    omega
  value   := h.value
  passed  := h.passed
  failed  := h.failed

/-- A task calls its callback. -/
theorem Counted.call {c : C} {i : ℕ} (h : Counted subscribers v tr s)
    (hvalue : s.value = some v) (hi : s.tasks[i]? = some c) :
    Counted subscribers v (tr ++ [.called c s.value])
      { s with tasks := s.tasks.eraseIdx i, pending := s.pending ++ [c] } := by
  have hperm := pool_perm hi
  have hcalls : SignalRaise.calls (tr ++ [.called c s.value]) = SignalRaise.calls tr ++ [c] :=
    calls_append
  have hfinishes : finishes (tr ++ [.called c s.value]) = finishes tr :=
    finishes_append.trans (List.append_nil _)
  have hthrows : throws (tr ++ [.called c s.value]) = throws tr :=
    throws_append.trans (List.append_nil _)
  refine ⟨?_, ?_, ?_, fun c' o ho => ?_, fun he c x hx => h.passed he c x
    (mem_of_mem_snoc hx nofun), fun x hx => ?_⟩
  · rw [hcalls, List.append_assoc _ [c]]
    exact ((hperm.symm.append_left _).append_right _).trans h.calls
  · rw [hcalls, hfinishes, hthrows, ← List.append_assoc]
    exact h.ends.append_right _
  · have hrunning := h.running
    have hlength := hperm.length_eq
    rw [List.length_cons] at hlength
    simp only [hthrows, List.length_append, List.length_singleton]
    omega
  · rcases List.mem_append.mp ho with ho | ho
    · exact h.value c' o ho
    · cases List.mem_singleton.mp ho
      exact hvalue
  · obtain ⟨c, hc⟩ := h.failed x hx
    exact ⟨c, List.mem_append_left _ hc⟩

/-- Which of the pending actions is next does not matter. -/
theorem Counted.pick {c : C} {i : ℕ} (h : Counted subscribers v tr s)
    (hi : s.pending[i]? = some c) :
    Counted subscribers v tr { s with pending := s.pending.eraseIdx i ++ [c] } := by
  have hperm : (s.pending.eraseIdx i ++ [c]).Perm s.pending :=
    (List.perm_append_singleton _ _).trans (pool_perm hi).symm
  refine ⟨h.calls, (hperm.append_left _).trans h.ends, ?_, h.value, h.passed, h.failed⟩
  rw [hperm.length_eq]
  exact h.running

/-- A callback threw. -/
theorem Counted.throw {c : C} (x : X)
    (h : Counted subscribers v tr { s with pending := s.pending ++ [c] }) :
    Counted subscribers v (tr ++ [.unhandled c x]) s := by
  have hcalls : SignalRaise.calls (tr ++ [.unhandled c x]) = SignalRaise.calls tr :=
    calls_append.trans (List.append_nil _)
  have hfinishes : finishes (tr ++ [.unhandled c x]) = finishes tr :=
    finishes_append.trans (List.append_nil _)
  have hthrows : throws (tr ++ [.unhandled c x]) = throws tr ++ [c] := throws_append
  refine ⟨?_, ?_, ?_, fun c o ho => h.value c o (mem_of_mem_snoc ho nofun),
    fun he c x hx => h.passed he c x (mem_of_mem_snoc hx nofun), fun x hx => ?_⟩
  · rw [hcalls]
    exact h.calls
  · have hends := h.ends
    rw [hcalls, hfinishes, hthrows]
    refine List.Perm.trans ?_ hends
    simp only [List.append_assoc]
    exact (List.perm_append_comm.append_left _).append_left _
  · have hrunning := h.running
    simp only [List.length_append, List.length_singleton] at hrunning
    rw [hthrows, List.length_append, List.length_singleton]
    omega
  · obtain ⟨c, hc⟩ := h.failed x hx
    exact ⟨c, List.mem_append_left _ hc⟩

/-- The exception kept when an action finishes. -/
def noted (r : Except X Unit) (exc : Option X) : Option X :=
  match r with
  | .ok _    => exc
  | .error x => some x

/-- An action finished. -/
theorem Counted.finish {c : C} (r : Except X Unit)
    (h : Counted subscribers v tr { s with pending := s.pending ++ [c] }) :
    Counted subscribers v (tr ++ [.finished c r])
      { s with exc := noted r s.exc, running := s.running - 1 } := by
  have hcalls : SignalRaise.calls (tr ++ [.finished c r]) = SignalRaise.calls tr :=
    calls_append.trans (List.append_nil _)
  have hfinishes : finishes (tr ++ [.finished c r]) = finishes tr ++ [c] := finishes_append
  have hthrows : throws (tr ++ [.finished c r]) = throws tr :=
    throws_append.trans (List.append_nil _)
  refine ⟨?_, ?_, ?_, fun c o ho => h.value c o (mem_of_mem_snoc ho nofun), ?_, ?_⟩
  · rw [hcalls]
    exact h.calls
  · have hends := h.ends
    rw [hcalls, hfinishes, hthrows]
    refine List.Perm.trans ?_ hends
    simp only [List.append_assoc]
    exact (List.perm_append_comm.trans (by simp)).append_left _
  · have hrunning := h.running
    simp only [List.length_append, List.length_singleton] at hrunning
    rw [hthrows]
    simp only
    omega
  · intro he c' x hx
    cases r with
    | ok u => exact h.passed he c' x (mem_of_mem_snoc hx nofun)
    | error x' => cases he
  · intro x hx
    cases r with
    | ok u =>
        obtain ⟨c', hc'⟩ := h.failed x hx
        exact ⟨c', List.mem_append_left _ hc'⟩
    | error x' =>
        cases hx
        exact ⟨c, List.mem_append_right _ (List.mem_singleton_self _)⟩

/-- Completing the raise counts nobody. -/
theorem Counted.raised (r : Except X Unit) (h : Counted subscribers v tr s) :
    Counted subscribers v (tr ++ [.raised r]) s := by
  have hcalls : SignalRaise.calls (tr ++ [.raised r]) = SignalRaise.calls tr :=
    calls_append.trans (List.append_nil _)
  have hfinishes : finishes (tr ++ [.raised r]) = finishes tr :=
    finishes_append.trans (List.append_nil _)
  have hthrows : throws (tr ++ [.raised r]) = throws tr :=
    throws_append.trans (List.append_nil _)
  refine ⟨?_, ?_, ?_, fun c o ho => h.value c o (mem_of_mem_snoc ho nofun),
    fun he c x hx => h.passed he c x (mem_of_mem_snoc hx nofun), fun x hx => ?_⟩
  · rw [hcalls]
    exact h.calls
  · rw [hcalls, hfinishes, hthrows]
    exact h.ends
  · rw [hthrows]
    exact h.running
  · obtain ⟨c, hc⟩ := h.failed x hx
    exact ⟨c, List.mem_append_left _ hc⟩

/-! ## Steps -/

theorem trigger_some {x : X} (h : s.exc = some x) :
    s.trigger = ({ s with value := none }, [.raised (.error x)]) := by
  unfold State.trigger
  simp only
  split
  · rename_i heq
    rw [h] at heq
    cases heq
    rfl
  · rename_i heq
    rw [h] at heq
    cases heq

theorem trigger_none (h : s.exc = none) :
    s.trigger = ({ s with value := none, yielding := true }, []) := by
  unfold State.trigger
  simp only
  split
  · rename_i heq
    rw [h] at heq
    cases heq
  · rfl

/-- **SPEC (trigger)**. -/
theorem inv_trigger (h : Counted subscribers v tr s) (hcompletions : completions tr = [])
    (hyielding : s.yielding = false) (hstarting : s.starting = false) (hit : s.it = [])
    (hrunning : s.running = 0) : Inv subscribers v (tr ++ s.trigger.2) s.trigger.1 := by
  have hiff : s.starting = true ↔ s.it ≠ [] := by simp [hstarting, hit]
  cases hexc : s.exc with
  | some x =>
      rw [trigger_some hexc]
      have hverdict : completions (tr ++ [Output.raised (.error x)]) = [verdict s.exc] := by
        rw [completions_append, hcompletions, hexc]
        rfl
      exact ⟨{ h.raised _ with }, hiff, Or.inr ⟨hrunning, hstarting, Or.inr ⟨hyielding, hverdict⟩⟩⟩
  | none =>
      rw [trigger_none hexc, List.append_nil]
      exact ⟨{ h with }, hiff, Or.inr ⟨hrunning, hstarting, Or.inl ⟨rfl, hexc, hcompletions⟩⟩⟩

/-- **SPEC (finish_raise)**: one task less. -/
theorem inv_finishRaise (h : Counted subscribers v tr { s with running := s.running - 1 })
    (hwait : Waiting v tr s) (hstarting : s.starting = true ↔ s.it ≠ []) :
    Inv subscribers v (tr ++ s.finishRaise.2) s.finishRaise.1 := by
  unfold State.finishRaise
  simp only
  split
  · rename_i hzero
    have hit : s.it = [] := by
      by_contra hne
      rw [hstarting.mpr hne] at hzero
      cases hzero.1
    exact inv_trigger h hwait.completions hwait.yielding hzero.1 hit hzero.2
  · rename_i hmore
    rw [List.append_nil]
    refine ⟨h, hstarting, Or.inl ⟨⟨hwait.value, hwait.yielding, hwait.completions⟩, ?_⟩⟩
    by_contra hnone
    rw [not_or, Bool.not_eq_true, Nat.not_lt, Nat.le_zero] at hnone
    exact hmore hnone

/-- **SPEC**: a pending action finishes. -/
theorem inv_complete {c : C} {r : Except X Unit} (hstarting : s.starting = true ↔ s.it ≠ [])
    (hwait : Waiting v tr s)
    (h : Counted subscribers v tr { s with pending := s.pending ++ [c] }) :
    Inv subscribers v (tr ++ .finished c r :: (s.complete r).2) (s.complete r).1 := by
  have hcomplete : s.complete r = { s with exc := noted r s.exc }.finishRaise := by
    cases r <;> rfl
  have hcompletions : completions (tr ++ [Output.finished c r]) = completions tr :=
    completions_append.trans (List.append_nil _)
  rw [hcomplete, ← List.singleton_append, ← List.append_assoc]
  exact inv_finishRaise (h.finish r)
    ⟨hwait.value, hwait.yielding, hcompletions.trans hwait.completions⟩ hstarting

/-- Nothing has completed while someone is counted. -/
theorem Inv.waiting (h : Inv subscribers v tr s) (hbusy : s.it ≠ [] ∨ 0 < s.running) :
    Waiting v tr s := by
  rcases h.stage with ⟨hwait, -⟩ | htriggered
  · exact hwait
  · rcases hbusy with hit | hrunning
    · have hstarting := h.starting.mpr hit
      rw [htriggered.starting] at hstarting
      cases hstarting
    · rw [htriggered.running] at hrunning
      cases hrunning

/-- **SPEC (raise_loop)**: with a task counted the end of the walk triggers nothing. -/
theorem inv_raiseLoop (h : Counted subscribers v tr s) (hwait : Waiting v tr s)
    (hstarting : s.starting = true) :
    Inv subscribers v (tr ++ s.raiseLoop.2) s.raiseLoop.1 := by
  unfold State.raiseLoop
  split
  · rename_i hit
    unfold State.finishStartup
    simp only
    split
    · rename_i hzero
      exact inv_trigger { h with } hwait.completions hwait.yielding rfl hit hzero
    · rename_i hmore
      rw [List.append_nil]
      refine ⟨{ h with }, by simp [hit], Or.inl ⟨⟨hwait.value, hwait.yielding,
        hwait.completions⟩, Or.inr (Nat.pos_of_ne_zero hmore)⟩⟩
  · rename_i hit
    rw [List.append_nil]
    exact ⟨h, by simp [hit, hstarting], Or.inl ⟨hwait, Or.inl hstarting⟩⟩

theorem inv_raise (subscribers : List C) (v : V) :
    Inv subscribers v [] (raise subscribers v : State C V X) := by
  have hcounted : Counted subscribers v []
      (⟨some v, none, true, 0, subscribers, [], [], false⟩ : State C V X) :=
    ⟨List.Perm.refl _, List.Perm.refl _, rfl, nofun, fun _ => nofun, nofun⟩
  have hinv := inv_raiseLoop hcounted ⟨rfl, rfl, rfl⟩ rfl
  -- nothing failed before anyone was called
  have hout : (State.raiseLoop
      (⟨some v, none, true, 0, subscribers, [], [], false⟩ : State C V X)).2 = [] := by
    cases subscribers <;> rfl
  rwa [hout, List.append_nil] at hinv

/-- **STEP**. -/
theorem inv_step (h : Inv subscribers v tr s) (hs : step s e = some (s', out)) :
    Inv subscribers v (tr ++ out) s' := by
  cases e with
  | walk =>
      simp only [step] at hs
      split at hs
      · cases hs
      · rename_i c it hit
        have hne : s.it ≠ [] := by simp [hit]
        have hwait := h.waiting (Or.inl hne)
        have hinv := inv_raiseLoop (h.toCounted.walk hit)
          ⟨hwait.value, hwait.yielding, hwait.completions⟩ (h.starting.mpr hne)
        rw [Option.some.inj hs] at hinv
        exact hinv
  | start i r =>
      simp only [step] at hs
      split at hs
      · cases hs
      · rename_i c hc
        have hpos : 0 < s.running := by
          have hcount := h.running
          have hlength := (pool_perm hc).length_eq
          rw [List.length_cons] at hlength
          omega
        have hwait := h.waiting (Or.inr hpos)
        have hcalled := h.toCounted.call hwait.value hc
        have hwait' : Waiting v (tr ++ [.called c s.value])
            { s with tasks := s.tasks.eraseIdx i } :=
          ⟨hwait.value, hwait.yielding,
            (completions_append.trans (List.append_nil _)).trans hwait.completions⟩
        cases r with
        | throws x =>
            cases hs
            have hthrown := Counted.throw (s := { s with tasks := s.tasks.eraseIdx i }) x hcalled
            rw [List.append_assoc] at hthrown
            have hcompletions : completions (tr ++ [.called c s.value, .unhandled c x]) = [] :=
              (completions_append.trans (List.append_nil _)).trans hwait.completions
            exact ⟨hthrown, h.starting,
              Or.inl ⟨⟨hwait.value, hwait.yielding, hcompletions⟩, Or.inr hpos⟩⟩
        | later =>
            cases hs
            exact ⟨hcalled, h.starting,
              Or.inl ⟨⟨hwait.value, hwait.yielding, hwait'.completions⟩, Or.inr hpos⟩⟩
        | finishes r =>
            cases hs
            have hinv := inv_complete (s := { s with tasks := s.tasks.eraseIdx i }) (r := r)
              h.starting hwait' hcalled
            rw [List.append_assoc] at hinv
            exact hinv
  | finish i r =>
      simp only [step] at hs
      split at hs
      · cases hs
      · rename_i c hc
        have hpos : 0 < s.running := by
          have hcount := h.running
          have hlength := (pool_perm hc).length_eq
          rw [List.length_cons] at hlength
          omega
        have hwait := h.waiting (Or.inr hpos)
        cases hs
        exact inv_complete h.starting ⟨hwait.value, hwait.yielding, hwait.completions⟩
          (h.toCounted.pick hc)
  | resume =>
      simp only [step] at hs
      split at hs
      · rename_i hyielding
        cases hs
        rcases h.stage with ⟨hwait, -⟩ | htriggered
        · rw [hwait.yielding] at hyielding
          cases hyielding
        · rcases htriggered.outcome with ⟨-, hexc, hnone⟩ | ⟨hno, -⟩
          · have hverdict : completions (tr ++ [.raised (.ok ())]) = [verdict s.exc] := by
              rw [completions_append, hnone, hexc]
              rfl
            exact ⟨{ h.toCounted.raised _ with }, h.starting,
              Or.inr ⟨htriggered.running, htriggered.starting, Or.inr ⟨rfl, hverdict⟩⟩⟩
          · rw [hno] at hyielding
            cases hyielding
      · cases hs

/-! ## Runs -/

/-- **RUN**. -/
theorem inv_run {es : List (Event X)} (h : run step (raise subscribers v) es = some (s, tr)) :
    Inv subscribers v tr s :=
  run_invariant (I := fun _ tr s => Inv subscribers v tr s) (inv_raise subscribers v)
    (fun _ _ _ _ _ _ hinv _ hs => inv_step hinv hs) (along_true _ _) h

theorem throws_complete (s : State C V X) (r : Except X Unit) : throws (s.complete r).2 = [] := by
  have htrigger : ∀ s : State C V X, throws s.trigger.2 = [] := by
    intro s
    cases hexc : s.exc with
    | none => rw [trigger_none hexc]; rfl
    | some x => rw [trigger_some hexc]; rfl
  have hfinish : ∀ s : State C V X, throws s.finishRaise.2 = [] := by
    intro s
    unfold State.finishRaise
    simp only
    split
    · exact htrigger _
    · rfl
  cases r <;> exact hfinish _

/-- What throws is what the events say. -/
theorem throws_step (hs : step s e = some (s', out)) : throws out = [] ↔ ¬ e.Throws := by
  cases e with
  | walk =>
      simp only [step] at hs
      split at hs
      · cases hs
      · have hout : throws out = [] := by
          have hloop : ∀ s : State C V X, 0 < s.running → throws s.raiseLoop.2 = [] := by
            intro s hpos
            unfold State.raiseLoop
            split
            · unfold State.finishStartup
              simp only
              rw [if_neg (Nat.pos_iff_ne_zero.mp hpos)]
              rfl
            · rfl
          obtain ⟨-, rfl⟩ := Prod.ext_iff.mp (Option.some.inj hs)
          exact hloop _ (Nat.succ_pos _)
        simp [hout, Event.Throws]
  | start i r =>
      simp only [step] at hs
      split at hs
      · cases hs
      · cases r with
        | throws x =>
            cases hs
            simp [throws, Output.throw, Event.Throws]
        | later =>
            cases hs
            simp [throws, Output.throw, Event.Throws]
        | finishes r =>
            cases hs
            have := throws_complete { s with tasks := s.tasks.eraseIdx i } r
            simp only [throws, Output.throw, Event.Throws, List.filterMap_cons] at this ⊢
            simpa using this
  | finish i r =>
      simp only [step] at hs
      split at hs
      · cases hs
      · cases hs
        have := throws_complete { s with pending := s.pending.eraseIdx i } r
        simp only [throws, Output.throw, Event.Throws, List.filterMap_cons] at this ⊢
        simpa using this
  | resume =>
      simp only [step] at hs
      split at hs
      · cases hs
        simp [throws, Output.throw, Event.Throws]
      · cases hs

theorem throws_run {es : List (Event X)} :
    ∀ {s : State C V X} {tr : List (Output C V X)}, run step s es = some (s', tr) →
      (throws tr = [] ↔ ∀ e ∈ es, ¬ e.Throws) := by
  induction es with
  | nil =>
      intro s tr h
      cases h
      simp [throws]
  | cons e es ih =>
      intro s tr h
      obtain ⟨s₁, out, tr', hs, hr, rfl⟩ := run_cons h
      rw [throws_append, List.append_eq_nil_iff, throws_step hs, ih hr, List.forall_mem_cons]

/-- As long as something is left to happen, something can. -/
theorem step_of_not_done (h : ¬ s.Done) :
    ∃ (e : Event X) (p : State C V X × List (Output C V X)), step s e = some p := by
  cases hit : s.it with
  | cons c it => exact ⟨.walk, _, by simp only [step, hit]; rfl⟩
  | nil =>
      cases htasks : s.tasks with
      | cons c tasks => exact ⟨.start 0 .later, _, by simp only [step, htasks]; rfl⟩
      | nil =>
          cases hpending : s.pending with
          | cons c pending => exact ⟨.finish 0 (.ok ()), _, by simp only [step, hpending]; rfl⟩
          | nil =>
              have hyielding : s.yielding = true := by
                by_contra hno
                exact h ⟨hit, htasks, hpending, Bool.eq_false_iff.mpr hno⟩
              exact ⟨.resume, _, if_pos hyielding⟩

/-- Once triggered, everyone has finished and nobody threw. -/
theorem Inv.all_finished (h : Inv subscribers v tr s) (htriggered : Triggered tr s) :
    (finishes tr).Perm subscribers ∧ throws tr = [] := by
  have hit : s.it = [] := by
    by_contra hne
    have hstarting := h.starting.mpr hne
    rw [htriggered.starting] at hstarting
    cases hstarting
  obtain ⟨hperm, -, -, hthrows⟩ := h.toCounted.all_finished htriggered.running hit
  exact ⟨hperm, hthrows⟩

/-- The raise completes only from `trigger`. -/
theorem Inv.of_completed (h : Inv subscribers v tr s) (hne : completions tr ≠ []) :
    Triggered tr s ∧ completions tr = [verdict s.exc] := by
  rcases h.stage with ⟨hwait, -⟩ | htriggered
  · exact absurd hwait.completions hne
  · rcases htriggered.outcome with ⟨-, -, hnone⟩ | ⟨-, hone⟩
    · exact absurd hnone hne
    · exact ⟨htriggered, hone⟩

/-- Nobody threw, so nothing is missing. -/
theorem raised_of_inv (h : Inv subscribers v tr s) (hthrows : throws tr = []) :
    Raised subscribers v tr s := by
  refine ⟨?_, h.value, ?_, fun hne => (h.all_finished (h.of_completed hne).1).1,
    ?_, ?_, ?_, ?_⟩
  · have hsub : (calls tr).Subperm (calls tr ++ s.tasks ++ s.it) := by
      rw [List.append_assoc]
      exact (List.sublist_append_left _ _).subperm
    exact hsub.trans h.calls.subperm
  · by_cases hne : completions tr = []
    · rw [hne]
      exact Nat.zero_le _
    · rw [(h.of_completed hne).2]
      exact Nat.le_refl _
  · intro hmem
    have hone := (h.of_completed (List.ne_nil_of_mem hmem)).2
    rw [hone, List.mem_singleton] at hmem
    cases hexc : s.exc with
    | none => exact h.passed hexc
    | some x =>
        rw [hexc] at hmem
        cases hmem
  · intro x hmem
    have hone := (h.of_completed (List.ne_nil_of_mem hmem)).2
    rw [hone, List.mem_singleton] at hmem
    cases hexc : s.exc with
    | none =>
        rw [hexc] at hmem
        cases hmem
    | some x' =>
        rw [hexc] at hmem
        cases hmem
        exact h.failed x hexc
  · intro hvalue
    rcases h.stage with ⟨hwait, -⟩ | htriggered
    · rw [hwait.value] at hvalue
      cases hvalue
    · exact (h.all_finished htriggered).1
  · rintro ⟨hit, htasks, hpending, hyielding⟩
    have hcalls := h.calls
    have hcount := h.running
    rw [htasks, hit, List.append_nil, List.append_nil] at hcalls
    rw [htasks, hpending, hthrows] at hcount
    refine ⟨hcalls, ?_⟩
    rcases h.stage with ⟨-, hstarting | hpos⟩ | htriggered
    · exact absurd hit (h.starting.mp hstarting)
    · rw [hcount] at hpos
      cases hpos
    · rcases htriggered.outcome with ⟨hyes, -⟩ | ⟨-, hone⟩
      · rw [hyielding] at hyes
        cases hyes
      · rw [hone]
        rfl

/-- **HEADLINE**: every raise does what it is to do unless a callback throws when called,
    and if one does, the raise does not complete. -/
theorem raised_iff {es : List (Event X)} (h : run step (raise subscribers v) es = some (s, tr)) :
    ((∀ e ∈ es, ¬ e.Throws) → Raised subscribers v tr s)
      ∧ (s.Done → Raised subscribers v tr s → ∀ e ∈ es, ¬ e.Throws) := by
  have hinv := inv_run h
  rw [← throws_run h]
  constructor
  · exact raised_of_inv hinv
  · intro hdone hraised
    have hone := (hraised.done hdone).2
    have hne : completions tr ≠ [] := by
      intro hnil
      rw [hnil] at hone
      cases hone
    exact (hinv.all_finished (hinv.of_completed hne).1).2

/-- The first callback is called and finishes while the walk goes on, the second fails later. -/
theorem raised_iff_two :
    run step (raise [1, 2] 0)
        [.walk, .start 0 (.finishes (.ok ())), .walk, .start 0 .later, .finish 0 (.error 7)]
      = some (⟨none, some 7, false, 0, [], [], [], false⟩,
        [.called 1 (some 0), .finished 1 (.ok ()), .called 2 (some 0), .finished 2 (.error 7),
          .raised (.error 7)])
      ∧ Raised [1, 2] 0
        [.called 1 (some 0), .finished 1 (.ok ()), .called 2 (some 0), .finished 2 (.error 7),
          .raised (.error 7)]
        (⟨none, some 7, false, 0, [], [], [], false⟩ : State ℕ ℕ ℕ) := by
  have h : run step (raise [1, 2] 0)
        [.walk, .start 0 (.finishes (.ok ())), .walk, .start 0 .later, .finish 0 (.error 7)]
      = some ((⟨none, some 7, false, 0, [], [], [], false⟩ : State ℕ ℕ ℕ),
        [.called 1 (some 0), .finished 1 (.ok ()), .called 2 (some 0), .finished 2 (.error 7),
          .raised (.error 7)]) := rfl
  refine ⟨h, (raised_iff h).1 ?_⟩
  simp [Event.Throws]

/-- **COUNTEREXAMPLE**: the only callback throws when called.  Nothing is left to happen, and
    the raise has not completed. -/
theorem raise_lost :
    ∃ (s : State ℕ ℕ ℕ) (tr : List (Output ℕ ℕ ℕ)),
      run step (raise [1] 0) [.walk, .start 0 (.throws 7)] = some (s, tr)
        ∧ s.Done ∧ completions tr = [] ∧ ¬ Raised [1] 0 tr s := by
  refine ⟨_, _, rfl, ⟨rfl, rfl, rfl, rfl⟩, rfl, fun h => ?_⟩
  have hone := (h.done ⟨rfl, rfl, rfl, rfl⟩).2
  cases hone

end SignalRaise
