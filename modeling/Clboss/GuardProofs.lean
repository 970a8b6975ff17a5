import Clboss.MachineProofs

/-! # Run guards — a flag around a chain of awaits

    A module that must not run twice at a time sets a flag before its first
    await and clears it after its last one.  In between it is a PROGRAM: at each
    await it may go on, reach the reset, or end in an exception that nothing
    catches on the way to the reset.

    Check and set have no await between them, so there is never more than one
    run.  The flag is back in its idle value after the run EXACTLY when no
    exception escaped: `guarded` says so for every run of the module, and the
    modules below only have to say which answers let one escape. -/

namespace Guard

variable {ι π α : Type}

/-- What a resumed run does. -/
inductive Next (π : Type) where
  /-- await the next answer -/
  | await (pc : π)
  /-- come to the reset -/
  | release
  /-- end in an exception that passes the reset by -/
  | escape

/-- The code between set and reset: where a trigger starts it, and what an
    answer makes of it (`none` where that answer cannot come). -/
structure Program (ι π α : Type) where
  start   : ι → π
  resume  : π → α → Option (Next π)
  /-- a trigger that finds the flag set waits for its turn -/
  retries : Bool

/-- The flag, the runs between set and reset, and the triggers that wait. -/
structure State (ι π : Type) where
  flag    : Bool
  runs    : List π
  waiting : List ι

/-- Idle. -/
def State.init : State ι π := ⟨false, [], []⟩

/-- What can happen next. -/
inductive Event (ι α : Type) where
  | trigger (i : ι)
  | retry (n : Nat)
  | resume (n : Nat) (answer : α)

/-- What is shown. -/
inductive Out (ι : Type) where
  | started (i : ι)
  | released
  | escaped
deriving DecidableEq

def Out.isStart : Out ι → Bool
  | .started _ => true
  | _          => false

def Out.isEnd : Out ι → Bool
  | .started _ => false
  | _          => true

section Machine

variable (P : Program ι π α)

/-- Set the flag and start a run. -/
def State.launch (s : State ι π) (i : ι) : State ι π :=
  { s with flag := true, runs := s.runs ++ [P.start i] }

/-- One step. -/
def step (s : State ι π) : Event ι α → Option (State ι π × List (Out ι))
  | .trigger i =>
      if s.flag then some (if P.retries then { s with waiting := s.waiting ++ [i] } else s, [])
      else some (s.launch P i, [.started i])
  | .retry n => (s.waiting[n]?).map (fun i =>
      if s.flag then (s, [])
      else ({ s.launch P i with waiting := s.waiting.eraseIdx n }, [.started i]))
  | .resume n answer => (s.runs[n]?).bind (fun pc =>
      (P.resume pc answer).map (fun next => match next with
        | .await pc' => ({ s with runs := s.runs.eraseIdx n ++ [pc'] }, [])
        | .release   => ({ s with flag := false, runs := s.runs.eraseIdx n }, [.released])
        | .escape    => ({ s with runs := s.runs.eraseIdx n }, [.escaped])))

/-- Runs from the idle state. -/
def run (es : List (Event ι α)) : Option (State ι π × List (Out ι)) :=
  Machine.run (step P) State.init es

end Machine

/-- At most one run, and the flag is set while there is one. -/
def Exclusive (s : State ι π) : Prop := s.runs.length ≤ 1 ∧ (s.runs ≠ [] → s.flag = true)

/-- Once no run is left the flag is idle, and the next trigger, or one that
    waits for its turn, starts a run. -/
def Ready (P : Program ι π α) (s : State ι π) : Prop :=
  s.runs = [] → s.flag = false
    ∧ (∀ i, step P s (.trigger i) = some (s.launch P i, [.started i]))
    ∧ ∀ n i, s.waiting[n]? = some i → step P s (.retry n)
      = some ({ s.launch P i with waiting := s.waiting.eraseIdx n }, [.started i])

/-- The step lets no exception of the program escape. -/
def Contained (P : Program ι π α) (s : State ι π) : Event ι α → Prop
  | .resume n answer => ∀ pc, s.runs[n]? = some pc → P.resume pc answer ≠ some .escape
  | _                => True

/-- No run gets an answer that is fatal to it. -/
def Avoids (fatal : π → α → Bool) (s : State ι π) : Event ι α → Prop
  | .resume n answer => ∀ pc, s.runs[n]? = some pc → fatal pc answer = false
  | _                => True

instance (fatal : π → α → Bool) (s : State ι π) (e : Event ι α) : Decidable (Avoids fatal s e) :=
  match e with
  | .resume n answer =>
      match h : s.runs[n]? with
      | none    => isTrue (by simp [Avoids, h])
      | some pc => decidable_of_iff (fatal pc answer = false) (by simp [Avoids, h])
  | .trigger _ => isTrue trivial
  | .retry _   => isTrue trivial

section Proofs

variable {P : Program ι π α}

/-- An idle flag is all it takes. -/
theorem ready_iff {s : State ι π} : Ready P s ↔ (s.runs = [] → s.flag = false) := by
  constructor
  · intro h hr
    exact (h hr).1
  · intro h hr
    have hf := h hr
    refine ⟨hf, fun i => ?_, fun n i hi => ?_⟩
    · simp [step, hf]
    · simp [step, hf, hi]

/-- A run is removed from a pool of one. -/
theorem eraseIdx_of_length {l : List π} {n : Nat} {pc : π} (hl : l.length ≤ 1)
    (h : l[n]? = some pc) : l.eraseIdx n = [] := by
  obtain ⟨hn, -⟩ := List.getElem?_eq_some_iff.mp h
  refine List.length_eq_zero_iff.mp ?_
  rw [List.length_eraseIdx_of_lt hn]
  omega

/-- What a step makes of the runs and the flag. -/
theorem step_cases {s s' : State ι π} {e : Event ι α} {out : List (Out ι)} (hx : Exclusive s)
    (hs : step P s e = some (s', out)) :
    (s'.flag = s.flag ∧ s'.runs = s.runs ∧ Contained P s e)
      ∨ (s.flag = false ∧ s'.flag = true ∧ s.runs = [] ∧ s'.runs.length = 1 ∧ Contained P s e)
      ∨ (s'.flag = s.flag ∧ s.runs ≠ [] ∧ s'.runs.length = 1 ∧ Contained P s e)
      ∨ (s'.flag = false ∧ s'.runs = [] ∧ s.runs ≠ [] ∧ Contained P s e)
      ∨ (s'.flag = s.flag ∧ s'.runs = [] ∧ s.runs ≠ [] ∧ ¬ Contained P s e) := by
  have hidle : s.flag = false → s.runs = [] := by
    intro hf
    by_contra hne
    rw [hx.2 hne] at hf
    cases hf
  have hlaunch : ∀ i, s.flag = false → (s.launch P i).runs.length = 1 := by
    intro i hf
    simp [State.launch, hidle hf]
  cases e with
  | trigger i =>
      simp only [step] at hs
      cases hf : s.flag with
      | true =>
          rw [if_pos hf] at hs
          cases hs
          refine Or.inl ⟨?_, ?_, trivial⟩
          · split
            · exact hf
            · exact hf
          · split
            · rfl
            · rfl
      | false =>
          rw [if_neg (by rw [hf]; exact Bool.false_ne_true)] at hs
          cases hs
          exact Or.inr (Or.inl ⟨rfl, rfl, hidle hf, hlaunch i hf, trivial⟩)
  | retry n =>
      obtain ⟨i, hi, hs⟩ := Option.map_eq_some_iff.mp hs
      cases hf : s.flag with
      | true =>
          rw [if_pos hf] at hs
          cases hs
          exact Or.inl ⟨hf, rfl, trivial⟩
      | false =>
          rw [if_neg (by rw [hf]; exact Bool.false_ne_true)] at hs
          cases hs
          exact Or.inr (Or.inl ⟨rfl, rfl, hidle hf, hlaunch i hf, trivial⟩)
  | resume n answer =>
      obtain ⟨pc, hpc, hs⟩ := Option.bind_eq_some_iff.mp hs
      obtain ⟨next, hnext, hs⟩ := Option.map_eq_some_iff.mp hs
      have hne : s.runs ≠ [] := by
        intro hnil
        rw [hnil] at hpc
        cases hpc
      have hgone := eraseIdx_of_length hx.1 hpc
      have hok : next ≠ .escape → Contained P s (.resume n answer) := by
        intro hn pc' hpc' hesc
        rw [hpc] at hpc'
        cases hpc'
        rw [hnext] at hesc
        exact hn (Option.some.inj hesc)
      cases next with
      | await pc' =>
          cases hs
          refine Or.inr (Or.inr (Or.inl ⟨rfl, hne, ?_, hok (by simp)⟩))
          simp [hgone]
      | release =>
          cases hs
          exact Or.inr (Or.inr (Or.inr (Or.inl ⟨rfl, hgone, hne, hok (by simp)⟩)))
      | escape =>
          cases hs
          exact Or.inr (Or.inr (Or.inr (Or.inr ⟨rfl, hgone, hne, fun hc => hc pc hpc hnext⟩)))

/-- **STEP**: the runs are what was started less what ended. -/
theorem balance_step {s s' : State ι π} {e : Event ι α} {out : List (Out ι)}
    (hs : step P s e = some (s', out)) :
    s.runs.length + out.countP Out.isStart = s'.runs.length + out.countP Out.isEnd := by
  cases e with
  | trigger i =>
      simp only [step] at hs
      split at hs
      · cases hs
        split
        · rfl
        · rfl
      · cases hs
        simp [State.launch, Out.isStart, Out.isEnd]
  | retry n =>
      obtain ⟨i, hi, hs⟩ := Option.map_eq_some_iff.mp hs
      split at hs
      · cases hs
        rfl
      · cases hs
        simp [State.launch, Out.isStart, Out.isEnd]
  | resume n answer =>
      obtain ⟨pc, hpc, hs⟩ := Option.bind_eq_some_iff.mp hs
      obtain ⟨next, hnext, hs⟩ := Option.map_eq_some_iff.mp hs
      obtain ⟨hn, -⟩ := List.getElem?_eq_some_iff.mp hpc
      have hgone : (s.runs.eraseIdx n).length + 1 = s.runs.length := by
        rw [List.length_eraseIdx_of_lt hn]
        omega
      cases next with
      | await pc' =>
          cases hs
          simpa using hgone.symm
      | release =>
          cases hs
          simpa [Out.isStart, Out.isEnd] using hgone.symm
      | escape =>
          cases hs
          simpa [Out.isStart, Out.isEnd] using hgone.symm

/-- **RUN**: so at every moment. -/
theorem balanced {es : List (Event ι α)} {s : State ι π} {tr : List (Out ι)}
    (hrun : run P es = some (s, tr)) :
    tr.countP Out.isStart = s.runs.length + tr.countP Out.isEnd := by
  refine Machine.run_invariant (P := fun _ _ => True)
    (I := fun _ tr s => tr.countP Out.isStart = s.runs.length + tr.countP Out.isEnd)
    rfl ?_ (Machine.along_true _ _) hrun
  intro es tr s e s' out h _ hs
  have hb := balance_step hs
  rw [List.countP_append, List.countP_append]
  omega

/-- **STEP**: never two runs. -/
theorem Exclusive.step {s s' : State ι π} {e : Event ι α} {out : List (Out ι)} (h : Exclusive s)
    (hs : step P s e = some (s', out)) : Exclusive s' := by
  rcases step_cases h hs with ⟨hf, hr, -⟩ | ⟨-, hf, -, hl, -⟩ | ⟨hf, hne, hl, -⟩ | ⟨-, hr, -, -⟩
    | ⟨-, hr, -, -⟩
  · unfold Exclusive
    rw [hf, hr]
    exact h
  · exact ⟨Nat.le_of_eq hl, fun _ => hf⟩
  · exact ⟨Nat.le_of_eq hl, fun _ => hf.trans (h.2 hne)⟩
  · exact ⟨by rw [hr]; exact Nat.zero_le _, fun hne => absurd hr hne⟩
  · exact ⟨by rw [hr]; exact Nat.zero_le _, fun hne => absurd hr hne⟩

/-- **STEP**: a module that is ready stays so exactly if nothing escapes, and
    one that is not never is again. -/
theorem ready_step {s s' : State ι π} {e : Event ι α} {out : List (Out ι)} (h : Exclusive s)
    (hs : step P s e = some (s', out)) : Ready P s' ↔ Ready P s ∧ Contained P s e := by
  rw [ready_iff, ready_iff]
  rcases step_cases h hs with ⟨hf, hr, hc⟩ | ⟨hidle, -, -, hl, hc⟩ | ⟨-, hne, hl, hc⟩
    | ⟨hf, -, hne, hc⟩ | ⟨hf, hr, hne, hc⟩
  · rw [hf, hr]
    exact ⟨fun h => ⟨h, hc⟩, fun h => h.1⟩
  · refine ⟨fun _ => ⟨fun _ => hidle, hc⟩, fun _ hr => ?_⟩
    rw [hr] at hl
    cases hl
  · refine ⟨fun _ => ⟨fun hr => absurd hr hne, hc⟩, fun _ hr => ?_⟩
    rw [hr] at hl
    cases hl
  · exact ⟨fun _ => ⟨fun hr => absurd hr hne, hc⟩, fun _ _ => hf⟩
  · refine ⟨fun hready => ?_, fun hboth => absurd hboth.2 hc⟩
    have hidle := hready hr
    rw [hf, h.2 hne] at hidle
    cases hidle

/-- **RUN**: there is never more than one run, and the module is ready for the
    next one exactly if no exception escaped so far. -/
theorem guarded {es : List (Event ι α)} {s : State ι π} {tr : List (Out ι)}
    (hrun : run P es = some (s, tr)) :
    Exclusive s ∧ (Ready P s ↔ Machine.Along (step P) (Contained P) State.init es) := by
  have hall := Machine.run_invariant (P := fun _ _ => True)
    (I := fun es tr s => Machine.run (step P) State.init es = some (s, tr) ∧ Exclusive s
      ∧ (Ready P s ↔ Machine.Along (step P) (Contained P) State.init es))
    ?_ ?_ (Machine.along_true _ _) hrun
  · exact hall.2
  · refine ⟨rfl, ⟨Nat.zero_le _, fun hne => absurd rfl hne⟩, ?_⟩
    rw [ready_iff]
    exact ⟨fun _ => trivial, fun _ _ => rfl⟩
  · intro es tr s e s' out ⟨hr, hx, hiff⟩ _ hs
    refine ⟨Machine.run_snoc hr hs, hx.step hs, ?_⟩
    rw [ready_step hx hs, Machine.along_snoc hr hs, hiff]

/-- **RUN**: the same, with the answers that let an exception escape spelled
    out. -/
theorem guarded_iff_avoids {fatal : π → α → Bool}
    (hfatal : ∀ pc a, P.resume pc a = some .escape ↔ fatal pc a = true)
    {es : List (Event ι α)} {s : State ι π} {tr : List (Out ι)} (hrun : run P es = some (s, tr)) :
    Exclusive s ∧ (Ready P s ↔ Machine.Along (step P) (Avoids fatal) State.init es) := by
  have heq : Contained P = Avoids fatal := by
    funext s e
    cases e with
    | resume n answer => simp only [Contained, Avoids, ne_eq, hfatal, Bool.not_eq_true]
    | _ => rfl
  rw [← heq]
  exact guarded hrun

end Proofs

end Guard
