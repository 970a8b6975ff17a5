import Clboss.MachineProofs

/-! # `Ev::Semaphore` — slots that are handed over

    A process that finishes hands its slot to the one blocked longest, and only
    if none is blocked gives it back to `remaining`.  So `remaining` is zero
    whenever somebody is blocked, which is what `unblock` asserts, and the slots
    in use and `remaining` always add up to the number configured (`Counted`).

    A process STARTS when it is given its slot: that is when its action is run.
    The action itself begins with a yield, put there by `core_run`, so what it
    does is ENTERED later and cannot finish while a slot is being handed over;
    and after a success the caller goes on after one more yield. -/

namespace Semaphore

open Machine

variable {P R X : Type}

/-! ## The code -/

inductive Event (P R X : Type) where
  | call (p : P)
  /-- The yield at the beginning of an action is over; `r` is what the action throws or
      finishes with at once. -/
  | enter (i : ℕ) (r : Option (Except X R))
  | finish (i : ℕ) (r : Except X R)
  | resume (i : ℕ)

inductive Output (P R X : Type) where
  | called (p : P)
  | started (p : P)
  | entered (p : P)
  | ended (p : P) (r : Except X R)
  | delivered (p : P) (r : Except X R)
  | assertFailed

/-- `Semaphore::Impl`, with the processes that were started and not entered, those that
    have not finished, and the callers in the yield after a success. -/
structure State (P R : Type) where
  remaining : ℕ
  blocked   : List P
  starting  : List P
  running   : List P
  passing   : List (P × R)

/-- The constructor. -/
def create (max : ℕ) : State P R := ⟨max, [], [], [], []⟩

/-- `handle`. -/
def State.handle (s : State P R) (p : P) : State P R × List (Output P R X) :=
  ({ s with starting := s.starting ++ [p] }, [.started p])

/-- `unblock`. -/
def State.unblock (s : State P R) : State P R × List (Output P R X) :=
  match s.blocked with
  | next :: blocked =>
      if s.remaining = 0 then { s with blocked }.handle next else (s, [.assertFailed])
  | [] => ({ s with remaining := s.remaining + 1 }, [])

/-- `run`. -/
def State.call (s : State P R) (p : P) : State P R × List (Output P R X) :=
  if 0 < s.remaining then { s with remaining := s.remaining - 1 }.handle p
  else ({ s with blocked := s.blocked ++ [p] }, [])

/-- The two callbacks in `handle`. -/
def State.ended (s : State P R) (p : P) (r : Except X R) : State P R × List (Output P R X) :=
  let (s', out) := s.unblock
  match r with
  | .ok rv   => ({ s' with passing := s'.passing ++ [(p, rv)] }, .ended p r :: out)
  | .error _ => (s', .ended p r :: out ++ [.delivered p r])

def step (s : State P R) : Event P R X → Option (State P R × List (Output P R X))
  | .call p =>
      let (s', out) := s.call p
      some (s', .called p :: out)
  | .enter i r =>
      match s.starting[i]? with
      | none   => none
      | some p =>
          let s' := { s with starting := s.starting.eraseIdx i }
          match r with
          | none   => some ({ s' with running := s'.running ++ [p] }, [.entered p])
          | some r =>
              let (s', out) := s'.ended p r
              some (s', .entered p :: out)
  | .finish i r =>
      match s.running[i]? with
      | none   => none
      | some p => some ({ s with running := s.running.eraseIdx i }.ended p r)
  | .resume i =>
      match s.passing[i]? with
      | none         => none
      | some (p, rv) =>
          some ({ s with passing := s.passing.eraseIdx i }, [.delivered p (.ok rv)])

/-! ## What a semaphore is to do -/

def Output.call : Output P R X → Option P
  | .called p => some p
  | _         => none

def Output.start : Output P R X → Option P
  | .started p => some p
  | _          => none

def Output.enter : Output P R X → Option P
  | .entered p => some p
  | _          => none

def Output.outcome : Output P R X → Option (P × Except X R)
  | .ended p r => some (p, r)
  | _          => none

def Output.delivery : Output P R X → Option (P × Except X R)
  | .delivered p r => some (p, r)
  | _              => none

def calls (tr : List (Output P R X)) : List P := tr.filterMap Output.call
def starts (tr : List (Output P R X)) : List P := tr.filterMap Output.start
def enters (tr : List (Output P R X)) : List P := tr.filterMap Output.enter
def outcomes (tr : List (Output P R X)) : List (P × Except X R) := tr.filterMap Output.outcome
def deliveries (tr : List (Output P R X)) : List (P × Except X R) :=
  tr.filterMap Output.delivery

/-- The slots in use. -/
def State.inUse (s : State P R) : ℕ := s.starting.length + s.running.length

/-- Nothing is going on. -/
def State.Done (s : State P R) : Prop := s.starting = [] ∧ s.running = [] ∧ s.passing = []

/-- The semaphore does what it is to do, as far as it has come. -/
structure Orderly (max : ℕ) (tr : List (Output P R X)) (s : State P R) : Prop where
  atMost    : s.inUse ≤ max
  order     : starts tr ++ s.blocked = calls tr
  once      : (enters tr).Subperm (calls tr)
  ended     : ((outcomes tr).map Prod.fst).Subperm (enters tr)
  delivered : (deliveries tr).Subperm (outcomes tr)
  busy      : s.blocked ≠ [] → s.inUse = max
  asserted  : .assertFailed ∉ tr
  done      : 0 < max → s.Done → (enters tr).Perm (calls tr)
    ∧ ((outcomes tr).map Prod.fst).Perm (calls tr) ∧ (deliveries tr).Perm (outcomes tr)

/-! ## The count -/

/-- **INVARIANT**: every slot is in use or remaining, and everybody called is somewhere;
    the outcomes `owed` are about to be passed on. -/
structure Counted (max : ℕ) (owed : List (P × Except X R)) (tr : List (Output P R X))
    (s : State P R) : Prop where
  slots    : s.remaining + s.inUse = max
  blocked  : s.blocked ≠ [] → s.remaining = 0
  order    : starts tr ++ s.blocked = calls tr
  entering : (enters tr ++ s.starting).Perm (starts tr)
  ending   : ((outcomes tr).map Prod.fst ++ s.running).Perm (enters tr)
  owing    : (deliveries tr ++ s.passing.map (fun x : P × R => (x.1, Except.ok x.2)) ++ owed).Perm
    (outcomes tr)
  asserted : .assertFailed ∉ tr

variable {max : ℕ} {owed : List (P × Except X R)} {tr out : List (Output P R X)}
  {s s' : State P R} {e : Event P R X} {p : P}

theorem calls_append : calls (tr ++ out) = calls tr ++ calls out := List.filterMap_append

theorem starts_append : starts (tr ++ out) = starts tr ++ starts out := List.filterMap_append

theorem enters_append : enters (tr ++ out) = enters tr ++ enters out := List.filterMap_append

theorem outcomes_append : outcomes (tr ++ out) = outcomes tr ++ outcomes out :=
  List.filterMap_append

theorem deliveries_append : deliveries (tr ++ out) = deliveries tr ++ deliveries out :=
  List.filterMap_append

/-- Giving back a slot says nothing but who starts. -/
structure Unblocked (s : State P R) (u : State P R × List (Output P R X)) : Prop where
  slots      : u.1.remaining + u.1.inUse = s.remaining + s.inUse + 1
  blocked    : u.1.blocked ≠ [] → u.1.remaining = 0
  order      : starts u.2 ++ u.1.blocked = s.blocked
  starting   : u.1.starting = s.starting ++ starts u.2
  running    : u.1.running = s.running
  passing    : u.1.passing = s.passing
  calls      : calls u.2 = []
  enters     : enters u.2 = []
  outcomes   : outcomes u.2 = []
  deliveries : deliveries u.2 = []
  asserted   : .assertFailed ∉ u.2

/-- **SPEC (unblock)**: the slot goes to the one blocked longest, or is left over. -/
theorem unblocked_unblock (h : s.blocked ≠ [] → s.remaining = 0) :
    Unblocked s (s.unblock : State P R × List (Output P R X)) := by
  unfold State.unblock
  split
  · rename_i next blocked hb
    have hzero : s.remaining = 0 := h (by rw [hb]; exact List.cons_ne_nil _ _)
    rw [if_pos hzero]
    refine ⟨?_, fun _ => hzero, hb.symm, rfl, rfl, rfl, rfl, rfl, rfl, rfl, ?_⟩
    · simp only [State.handle, State.inUse, List.length_append, List.length_singleton]
      omega
    · intro hmem
      cases List.mem_singleton.mp hmem
  · rename_i hb
    refine ⟨?_, fun hne => absurd hb hne, rfl, (List.append_nil _).symm, rfl, rfl, rfl, rfl, rfl,
      rfl, nofun⟩
    simp only [State.inUse]
    omega

/-- A running process ends, and its slot is given back. -/
theorem Counted.release {u : State P R × List (Output P R X)} (r : Except X R)
    (h : Counted max [] tr { s with running := s.running ++ [p] }) (hun : Unblocked s u) :
    Counted max [(p, r)] (tr ++ .ended p r :: u.2) u.1 := by
  have hslots := h.slots
  have howing := h.owing
  have hcalls : calls (tr ++ .ended p r :: u.2) = calls tr :=
    calls_append.trans ((congrArg (calls tr ++ ·) hun.calls).trans (List.append_nil _))
  have hstarts : starts (tr ++ .ended p r :: u.2) = starts tr ++ starts u.2 := starts_append
  have henters : enters (tr ++ .ended p r :: u.2) = enters tr :=
    enters_append.trans ((congrArg (enters tr ++ ·) hun.enters).trans (List.append_nil _))
  have houtcomes : outcomes (tr ++ .ended p r :: u.2) = outcomes tr ++ [(p, r)] :=
    outcomes_append.trans (congrArg (fun l => outcomes tr ++ (p, r) :: l) hun.outcomes)
  have hdeliveries : deliveries (tr ++ .ended p r :: u.2) = deliveries tr :=
    deliveries_append.trans ((congrArg (deliveries tr ++ ·) hun.deliveries).trans
      (List.append_nil _))
  refine ⟨?_, hun.blocked, ?_, ?_, ?_, ?_, ?_⟩
  · have hslots' := hun.slots
    simp only [State.inUse, List.length_append, List.length_singleton] at hslots hslots' ⊢
    omega
  · rw [hcalls, hstarts, List.append_assoc, hun.order]
    exact h.order
  · rw [henters, hstarts, hun.starting, ← List.append_assoc]
    exact h.entering.append_right _
  · rw [henters, houtcomes, hun.running, List.map_append, List.append_assoc]
    exact (List.perm_append_comm.append_left _).trans h.ending
  · rw [hdeliveries, houtcomes, hun.passing]
    rw [List.append_nil] at howing
    exact howing.append_right _
  · intro hmem
    rcases List.mem_append.mp hmem with hmem | hmem
    · exact h.asserted hmem
    · rcases List.mem_cons.mp hmem with hmem | hmem
      · cases hmem
      · exact hun.asserted hmem

/-- An outcome that is owed is delivered. -/
theorem Counted.deliver {r : Except X R} (h : Counted max [(p, r)] tr s) :
    Counted max [] (tr ++ [.delivered p r]) s := by
  have hcalls : calls (tr ++ [.delivered p r]) = calls tr :=
    calls_append.trans (List.append_nil _)
  have hstarts : starts (tr ++ [.delivered p r]) = starts tr :=
    starts_append.trans (List.append_nil _)
  have henters : enters (tr ++ [.delivered p r]) = enters tr :=
    enters_append.trans (List.append_nil _)
  have houtcomes : outcomes (tr ++ [.delivered p r]) = outcomes tr :=
    outcomes_append.trans (List.append_nil _)
  have hdeliveries : deliveries (tr ++ [.delivered p r]) = deliveries tr ++ [(p, r)] :=
    deliveries_append
  refine ⟨h.slots, h.blocked, ?_, ?_, ?_, ?_, ?_⟩
  · rw [hcalls, hstarts]
    exact h.order
  · rw [henters, hstarts]
    exact h.entering
  · rw [henters, houtcomes]
    exact h.ending
  · have howing := h.owing
    rw [hdeliveries, houtcomes, List.append_nil, List.append_assoc]
    rw [List.append_assoc] at howing
    exact (List.perm_append_comm.append_left _).trans howing
  · intro hmem
    rcases List.mem_append.mp hmem with hmem | hmem
    · exact h.asserted hmem
    · cases List.mem_singleton.mp hmem

/-- **SPEC (ended)**. -/
theorem counted_ended (h : Counted max [] tr { s with running := s.running ++ [p] })
    (r : Except X R) : Counted max [] (tr ++ (s.ended p r).2) (s.ended p r).1 := by
  have hrelease := h.release r (unblocked_unblock h.blocked)
  unfold State.ended
  generalize (s.unblock : State P R × List (Output P R X)) = u at hrelease ⊢
  obtain ⟨s', out⟩ := u
  cases r with
  | ok rv =>
      refine { hrelease with owing := ?_ }
      have howing := hrelease.owing
      simp only [List.map_append, List.map_cons, List.map_nil, List.append_nil]
      rw [← List.append_assoc]
      exact howing
  | error x =>
      have hdeliver := hrelease.deliver
      rw [List.append_assoc] at hdeliver
      exact hdeliver

/-- **SPEC (run)**. -/
theorem counted_call (h : Counted max [] tr s) (p : P) :
    Counted max [] (tr ++ .called p :: (s.call p : State P R × List (Output P R X)).2)
      (s.call p : State P R × List (Output P R X)).1 := by
  have hslots := h.slots
  have horder := h.order
  unfold State.call
  split
  · rename_i hpos
    have hnone : s.blocked = [] := by
      by_contra hne
      exact Nat.ne_of_gt hpos (h.blocked hne)
    rw [hnone, List.append_nil] at horder
    refine ⟨?_, fun hne => absurd hnone hne, ?_, ?_, ?_, ?_, ?_⟩
    · simp only [State.handle, State.inUse, List.length_append, List.length_singleton] at hslots ⊢
      omega
    · simpa [State.handle, hnone, starts, calls, Output.start, Output.call, List.filterMap_cons]
        using horder
    · have hentering := h.entering.append_right [p]
      simpa [State.handle, enters, starts, Output.enter, Output.start, List.filterMap_cons]
        using hentering
    · simpa [State.handle, enters, outcomes, Output.enter, Output.outcome, List.filterMap_cons]
        using h.ending
    · simpa [State.handle, deliveries, outcomes, Output.delivery, Output.outcome,
        List.filterMap_cons] using h.owing
    · simpa [State.handle] using h.asserted
  · rename_i hzero
    refine ⟨hslots, fun _ => Nat.eq_zero_of_not_pos hzero, ?_, ?_, ?_, ?_, ?_⟩
    · have hcalled := congrArg (· ++ [p]) horder
      simpa [starts, calls, Output.start, Output.call, List.filterMap_cons] using hcalled
    · simpa [enters, starts, Output.enter, Output.start, List.filterMap_cons] using h.entering
    · simpa [enters, outcomes, Output.enter, Output.outcome, List.filterMap_cons] using h.ending
    · simpa [deliveries, outcomes, Output.delivery, Output.outcome, List.filterMap_cons]
        using h.owing
    · simpa using h.asserted

/-- A process whose yield is over is entered. -/
theorem Counted.enter {i : ℕ} (h : Counted max [] tr s) (hi : s.starting[i]? = some p) :
    Counted max [] (tr ++ [.entered p])
      { s with starting := s.starting.eraseIdx i, running := s.running ++ [p] } := by
  have hperm := pool_perm hi
  have hslots := h.slots
  have hlength := hperm.length_eq
  rw [List.length_cons] at hlength
  refine ⟨?_, h.blocked, ?_, ?_, ?_, ?_, ?_⟩
  · simp only [State.inUse, List.length_append, List.length_singleton] at hslots ⊢
    omega
  · simpa [starts, calls, Output.start, Output.call, List.filterMap_cons] using h.order
  · have hentering := (hperm.symm.append_left _).trans h.entering
    simpa [enters, starts, Output.enter, Output.start, List.filterMap_cons] using hentering
  · have hending := h.ending.append_right [p]
    simpa [enters, outcomes, Output.enter, Output.outcome, List.filterMap_cons] using hending
  · simpa [deliveries, outcomes, Output.delivery, Output.outcome, List.filterMap_cons]
      using h.owing
  · simpa using h.asserted

/-- Which of the running processes is next does not matter. -/
theorem Counted.pick {i : ℕ} (h : Counted max [] tr s) (hi : s.running[i]? = some p) :
    Counted max [] tr { s with running := s.running.eraseIdx i ++ [p] } := by
  have hperm : (s.running.eraseIdx i ++ [p]).Perm s.running :=
    (List.perm_append_singleton _ _).trans (pool_perm hi).symm
  have hslots := h.slots
  refine { h with slots := ?_, ending := (hperm.append_left _).trans h.ending }
  simp only [State.inUse, hperm.length_eq] at hslots ⊢
  exact hslots

/-- **STEP**. -/
theorem counted_step (h : Counted max [] tr s) (hs : step s e = some (s', out)) :
    Counted max [] (tr ++ out) s' := by
  cases e with
  | call p =>
      obtain ⟨rfl, rfl⟩ := Prod.ext_iff.mp (Option.some.inj hs)
      exact counted_call h p
  | enter i r =>
      simp only [step] at hs
      split at hs
      · cases hs
      · rename_i p hi
        have hentered := h.enter hi
        cases r with
        | none =>
            cases hs
            exact hentered
        | some r =>
            obtain ⟨rfl, rfl⟩ := Prod.ext_iff.mp (Option.some.inj hs)
            have hended := counted_ended (s := { s with starting := s.starting.eraseIdx i })
              hentered r
            rw [List.append_assoc] at hended
            exact hended
  | finish i r =>
      simp only [step] at hs
      split at hs
      · cases hs
      · rename_i p hi
        obtain ⟨rfl, rfl⟩ := Prod.ext_iff.mp (Option.some.inj hs)
        exact counted_ended (h.pick hi) r
  | resume i =>
      simp only [step] at hs
      split at hs
      · cases hs
      · rename_i p rv hi
        cases hs
        have hperm := (pool_perm hi).map (fun x : P × R => (x.1, (Except.ok x.2 : Except X R)))
        have howing : Counted max [(p, .ok rv)] tr { s with passing := s.passing.eraseIdx i } := by
          refine { h with owing := ?_ }
          have hold := h.owing
          rw [List.append_nil] at hold
          refine List.Perm.trans ?_ hold
          rw [List.append_assoc]
          refine List.Perm.append_left _ ?_
          exact (List.perm_append_singleton _ _).trans hperm.symm
        exact howing.deliver

/-! ## Runs -/

/-- **RUN**. -/
theorem counted_run {es : List (Event P R X)} (h : run step (create max) es = some (s, tr)) :
    Counted max [] tr s := by
  have hinit : Counted max [] ([] : List (Output P R X)) (create max) :=
    ⟨rfl, fun hne => absurd rfl hne, rfl, List.Perm.refl _, List.Perm.refl _, List.Perm.refl _,
      nofun⟩
  exact run_invariant (I := fun _ tr s => Counted max [] tr s) hinit
    (fun _ _ _ _ _ _ hI _ hs => counted_step hI hs) (along_true _ _) h

theorem orderly_of_counted (h : Counted max [] tr s) : Orderly max tr s := by
  have hslots := h.slots
  have hcalled : (starts tr).Sublist (calls tr) := h.order ▸ List.sublist_append_left _ _
  have hentered : (enters tr).Subperm (starts tr) :=
    (List.sublist_append_left _ _).subperm.trans h.entering.subperm
  have howing := h.owing
  rw [List.append_nil] at howing
  refine ⟨by omega, h.order, hentered.trans hcalled.subperm,
    (List.sublist_append_left _ _).subperm.trans h.ending.subperm,
    (List.sublist_append_left _ _).subperm.trans howing.subperm, fun hne => ?_, h.asserted,
    fun hpos hdone => ?_⟩
  · have hzero := h.blocked hne
    omega
  · obtain ⟨hstarting, hrunning, hpassing⟩ := hdone
    -- with no slot in use nobody is blocked
    have hblocked : s.blocked = [] := by
      by_contra hne
      have hzero := h.blocked hne
      simp only [State.inUse, hstarting, hrunning, List.length_nil] at hslots
      omega
    have horder := h.order
    have hentering := h.entering
    have hending := h.ending
    rw [hblocked, List.append_nil] at horder
    rw [hstarting, List.append_nil, horder] at hentering
    rw [hrunning, List.append_nil] at hending
    rw [hpassing, List.map_nil, List.append_nil] at howing
    exact ⟨hentering, hending.trans hentering, howing⟩

/-- As long as somebody has a slot or an outcome to pass on, something can happen. -/
theorem step_of_not_done (hdone : ¬ s.Done) (hr : Nonempty (Except X R)) :
    ∃ e : Event P R X, (step s e).isSome := by
  obtain ⟨r⟩ := hr
  cases hstarting : s.starting with
  | cons p l => exact ⟨.enter 0 none, by simp [step, hstarting]⟩
  | nil =>
      cases hrunning : s.running with
      | cons p l => exact ⟨.finish 0 r, by simp [step, hrunning]⟩
      | nil =>
          cases hpassing : s.passing with
          | cons x l => exact ⟨.resume 0, by simp [step, hpassing]⟩
          | nil => exact absurd ⟨hstarting, hrunning, hpassing⟩ hdone

/-- **HEADLINE**: every run of a semaphore is orderly, and gets stuck nowhere. -/
theorem orderly_run {es : List (Event P R X)} (h : run step (create max) es = some (s, tr)) :
    Orderly max tr s
      ∧ (¬ s.Done → Nonempty (Except X R) → ∃ e : Event P R X, (step s e).isSome) :=
  ⟨orderly_of_counted (counted_run h), step_of_not_done⟩

/-- One slot: the first process fails at once when entered and the slot goes to the second,
    not to the third. -/
theorem orderly_run_three :
    run step (create 1)
        [.call 1, .call 2, .call 3, .enter 0 (some (.error 7)), .enter 0 none, .finish 0 (.ok 5),
          .resume 0]
      = some (⟨0, [], [3], [], []⟩,
        [.called 1, .started 1, .called 2, .called 3, .entered 1, .ended 1 (.error 7), .started 2,
          .delivered 1 (.error 7), .entered 2, .ended 2 (.ok 5), .started 3,
          .delivered 2 (.ok 5)])
      ∧ Orderly 1
        [.called 1, .started 1, .called 2, .called 3, .entered 1, .ended 1 (.error 7), .started 2,
          .delivered 1 (.error 7), .entered 2, .ended 2 (.ok 5), .started 3,
          (.delivered 2 (.ok 5) : Output ℕ ℕ ℕ)] ⟨0, [], [3], [], []⟩ := by
  have h : run step (create 1)
        [.call 1, .call 2, .call 3, .enter 0 (some (.error 7)), .enter 0 none, .finish 0 (.ok 5),
          .resume 0]
      = some (⟨0, [], [3], [], []⟩,
        [.called 1, .started 1, .called 2, .called 3, .entered 1, .ended 1 (.error 7), .started 2,
          .delivered 1 (.error 7), .entered 2, .ended 2 (.ok 5), .started 3,
          (.delivered 2 (.ok 5) : Output ℕ ℕ ℕ)]) := rfl
  exact ⟨h, (orderly_run h).1⟩

/-! ## One slot

    With one slot the holder and the blocked ones are a line: who calls joins it at
    the end, and only its head leaves. -/

/-- The holder of the slot, and who waits for it. -/
def State.line (s : State P R) : List P := s.starting ++ s.running ++ s.blocked

/-- Given to the next in line, the slot has one holder and the others wait. -/
theorem ended_line {r : Except X R} {u : State P R × List (Output P R X)}
    (hblocked : s.blocked ≠ [] → s.remaining = 0) (hfree : s.inUse = 0)
    (hu : s.ended p r = u) :
    u.1.line = s.blocked ∧ u.1.running = []
      ∧ u.1.passing = s.passing ++ (r.toOption.map (fun rv => (p, rv))).toList := by
  have hun := unblocked_unblock (X := X) hblocked
  unfold State.inUse at hfree
  have hstarting : s.starting = [] := List.eq_nil_of_length_eq_zero (by omega)
  have hrunning : s.running = [] := List.eq_nil_of_length_eq_zero (by omega)
  have hline : (s.unblock : State P R × List (Output P R X)).1.line = s.blocked := by
    unfold State.line
    rw [hun.starting, hun.running, hstarting, hrunning, List.nil_append, List.append_nil]
    exact hun.order
  subst hu
  cases r with
  | ok rv => exact ⟨hline, hun.running.trans hrunning, congrArg (· ++ [(p, rv)]) hun.passing⟩
  | error x =>
      exact ⟨hline, hun.running.trans hrunning, hun.passing.trans (List.append_nil _).symm⟩

theorem running_call (s : State P R) (p : P) :
    (s.call p : State P R × List (Output P R X)).1.running = s.running := by
  unfold State.call
  split <;> rfl

theorem passing_call (s : State P R) (p : P) :
    (s.call p : State P R × List (Output P R X)).1.passing = s.passing := by
  unfold State.call
  split <;> rfl

/-- A resumed caller leaves the yield, and nothing else changes. -/
theorem resume_cases {i : ℕ} (hs : step s (.resume i : Event P R X) = some (s', out)) :
    s'.line = s.line ∧ s'.running = s.running ∧ s'.starting = s.starting
      ∧ ∃ x, s.passing[i]? = some x ∧ s'.passing = s.passing.eraseIdx i := by
  simp only [step] at hs
  split at hs
  · cases hs
  · rename_i hi
    cases hs
    exact ⟨rfl, rfl, rfl, _, hi, rfl⟩

section Single

variable (h : Counted 1 [] tr s)
include h

theorem line_call (p : P) :
    (s.call p : State P R × List (Output P R X)).1.line = s.line ++ [p] := by
  have hslots := h.slots
  unfold State.inUse at hslots
  unfold State.call State.line
  split
  · have hstarting : s.starting = [] := List.eq_nil_of_length_eq_zero (by omega)
    have hrunning : s.running = [] := List.eq_nil_of_length_eq_zero (by omega)
    have hblocked : s.blocked = [] := by
      by_contra hne
      have := h.blocked hne
      omega
    simp only [State.handle, hstarting, hrunning, hblocked, List.nil_append, List.append_nil]
  · simp only [List.append_assoc]

/-- Who is entered was starting, alone. -/
theorem enter_holder {r : Option (Except X R)} {i : ℕ} (hs : step s (.enter i r) = some (s', out)) :
    ∃ p, s.starting = [p] ∧ s.running = [] ∧ i = 0 := by
  have hslots := h.slots
  unfold State.inUse at hslots
  simp only [step] at hs
  split at hs
  · cases hs
  · rename_i p hi
    obtain ⟨hlt, -⟩ := List.getElem?_eq_some_iff.mp hi
    obtain ⟨q, hq⟩ := List.length_eq_one_iff.mp (show s.starting.length = 1 by omega)
    exact ⟨q, hq, List.eq_nil_of_length_eq_zero (by omega), by omega⟩

omit h in
/-- Entered, the holder stays the holder. -/
theorem enter_later {p : P} (hp : s.starting = [p]) (hrunning : s.running = [])
    (hs : step s (.enter 0 none : Event P R X) = some (s', out)) :
    s'.line = s.line ∧ s'.starting = [] ∧ s'.running = [p] ∧ s'.passing = s.passing := by
  simp only [step, hp, List.getElem?_cons_zero, hrunning] at hs
  cases hs
  unfold State.line
  simp only [hp, hrunning, List.eraseIdx_cons_zero, List.nil_append, List.append_nil,
    and_self]

/-- Entered and finished at once, it leaves the line. -/
theorem enter_finish {p : P} {r : Except X R} (hp : s.starting = [p])
    (hs : step s (.enter 0 (some r)) = some (s', out)) :
    s.line = p :: s'.line ∧ s'.running = []
      ∧ s'.passing = s.passing ++ (r.toOption.map (fun rv => (p, rv))).toList := by
  have hslots := h.slots
  unfold State.inUse at hslots
  rw [hp, List.length_singleton] at hslots
  have hrunning : s.running = [] := List.eq_nil_of_length_eq_zero (by omega)
  simp only [step, hp, List.getElem?_cons_zero, List.eraseIdx_cons_zero] at hs
  obtain ⟨rfl, -⟩ := Prod.ext_iff.mp (Option.some.inj hs)
  obtain ⟨hline, hrun, hpass⟩ := ended_line (r := r) (p := p)
    (s := { s with starting := [] }) h.blocked
    (by simp only [State.inUse, hrunning, List.length_nil]) rfl
  refine ⟨?_, hrun, hpass⟩
  rw [hline]
  unfold State.line
  rw [hp, hrunning]
  rfl

/-- Who finishes was running, alone, and leaves the line. -/
theorem finish_holder {r : Except X R} {i : ℕ} (hs : step s (.finish i r) = some (s', out)) :
    ∃ p, s.running = [p] ∧ i = 0 ∧ s.line = p :: s'.line ∧ s'.running = []
      ∧ s'.passing = s.passing ++ (r.toOption.map (fun rv => (p, rv))).toList := by
  have hslots := h.slots
  unfold State.inUse at hslots
  simp only [step] at hs
  split at hs
  · cases hs
  · rename_i p hi
    obtain ⟨hlt, hget⟩ := List.getElem?_eq_some_iff.mp hi
    obtain ⟨q, hq⟩ := List.length_eq_one_iff.mp (show s.running.length = 1 by omega)
    have hstarting : s.starting = [] := List.eq_nil_of_length_eq_zero (by omega)
    have hzero : i = 0 := by omega
    subst hzero
    have hqp : q = p := by
      rw [hq] at hi
      exact Option.some.inj hi
    subst hqp
    obtain ⟨rfl, -⟩ := Prod.ext_iff.mp (Option.some.inj hs)
    obtain ⟨hline, hrun, hpass⟩ := ended_line (r := r) (p := q)
      (s := { s with running := s.running.eraseIdx 0 }) h.blocked
      (by simp only [State.inUse, hq, hstarting, List.eraseIdx_cons_zero, List.length_nil]) rfl
    refine ⟨q, hq, rfl, ?_, hrun, hpass⟩
    rw [hline]
    unfold State.line
    rw [hq, hstarting]
    rfl

end Single

end Semaphore
