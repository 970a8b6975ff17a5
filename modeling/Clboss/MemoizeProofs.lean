import Clboss.MachineProofs
import Clboss.OrderedMapProofs

/-! # `Ev::memoize` — a table that is filled when the function finishes

    A call looks its arguments up, and if they are not there it runs the
    function and puts the result in when the run finishes.  In between the
    table is as it was: a second call with the same arguments does not find
    them and runs the function AGAIN, and its caller gets what that second run
    returns, whatever is in the table by then.

    So what holds of all runs is that only results of successful runs are
    remembered and returned (`Honest`); that the function runs successfully
    once, and that all callers see one result, holds of the runs in which no
    call is made while an earlier one with the same arguments is still running
    (`Apart`), and a call that is breaks it as soon as both finish. -/

namespace Memoize

open Machine

variable {K R X : Type} [LinearOrder K]

/-! ## The code -/

inductive Event (K R X : Type) where
  /-- A call; `r` is what the function, if it is run, throws or finishes with at once. -/
  | call (k : K) (r : Option (Except X R))
  | finish (i : ℕ) (r : Except X R)

inductive Output (K R X : Type) where
  | ran (k : K)
  | ended (k : K) (r : Except X R)
  | returned (k : K) (r : Except X R)

/-- The table, and the arguments of the runs that have not finished. -/
structure State (K R : Type) [LinearOrder K] where
  table   : OrderedMap K R
  running : List K

def init : State K R := ⟨.empty, []⟩

/-- What follows a run of the function. -/
def State.ended (s : State K R) (k : K) : Except X R → State K R × List (Output K R X)
  | .ok result => ({ s with table := s.table.emplace k result },
      [.ended k (.ok result), .returned k (.ok result)])
  | .error x   => (s, [.ended k (.error x), .returned k (.error x)])

/-- `operator()`. -/
def State.call (s : State K R) (k : K) (r : Option (Except X R)) :
    State K R × List (Output K R X) :=
  match s.table.find k with
  | some result => (s, [.returned k (.ok result)])
  | none        =>
      match r with
      | none   => ({ s with running := s.running ++ [k] }, [.ran k])
      | some r =>
          let (s', out) := s.ended k r
          (s', .ran k :: out)

def step (s : State K R) : Event K R X → Option (State K R × List (Output K R X))
  | .call k r   => some (s.call k r)
  | .finish i r =>
      match s.running[i]? with
      | none   => none
      | some k => some ({ s with running := s.running.eraseIdx i }.ended k r)

/-! ## What memoizing is to do -/

/-- The arguments of a successful run. -/
def Output.success : Output K R X → Option K
  | .ended k (.ok _) => some k
  | _                => none

/-- The failure of a run. -/
def Output.failure : Output K R X → Option (K × X)
  | .ended k (.error x) => some (k, x)
  | _                   => none

/-- The failure a caller gets. -/
def Output.refused : Output K R X → Option (K × X)
  | .returned k (.error x) => some (k, x)
  | _                      => none

def successes (tr : List (Output K R X)) : List K := tr.filterMap Output.success
def failures (tr : List (Output K R X)) : List (K × X) := tr.filterMap Output.failure
def refusals (tr : List (Output K R X)) : List (K × X) := tr.filterMap Output.refused

/-- A result is that of a successful run, and a failure goes to the caller of the run
    that failed. -/
structure Honest (tr : List (Output K R X)) (s : State K R) : Prop where
  remembered : ∀ k v, s.table.find k = some v → .ended k (.ok v) ∈ tr
  result     : ∀ k v, .returned k (.ok v) ∈ tr → .ended k (.ok v) ∈ tr
  refused    : refusals tr = failures tr

/-- Besides, the function runs successfully once, and there is one result. -/
structure Memoized (tr : List (Output K R X)) (s : State K R) : Prop
    extends Honest tr s where
  once : ∀ k, (successes tr).count k ≤ 1
  same : ∀ k v w, .returned k (.ok v) ∈ tr → .returned k (.ok w) ∈ tr → v = w

/-- Arguments not in the table are not called with while a run with them is going on. -/
def Apart (s : State K R) : Event K R X → Prop
  | .call k _   => s.table.find k = none → k ∉ s.running
  | .finish _ _ => True

instance (s : State K R) : (e : Event K R X) → Decidable (Apart s e)
  | .call k _   => inferInstanceAs (Decidable (s.table.find k = none → k ∉ s.running))
  | .finish _ _ => inferInstanceAs (Decidable True)

variable {k : K} {r : Except X R} {e : Event K R X} {tr out : List (Output K R X)}
  {s s' : State K R}

omit [LinearOrder K] in
theorem successes_append : successes (tr ++ out) = successes tr ++ successes out :=
  List.filterMap_append

omit [LinearOrder K] in
theorem failures_append : failures (tr ++ out) = failures tr ++ failures out :=
  List.filterMap_append

omit [LinearOrder K] in
theorem refusals_append : refusals (tr ++ out) = refusals tr ++ refusals out :=
  List.filterMap_append

/-! ## Every run -/

/-- **SPEC (ended)**. -/
theorem honest_ended (h : Honest tr s) (k : K) (r : Except X R) :
    Honest (tr ++ (s.ended k r).2) (s.ended k r).1 := by
  cases r with
  | ok result =>
      refine ⟨fun k' v hv => ?_, fun k' v hv => ?_, ?_⟩
      · have hfind : (s.table.emplace k result).find k' = some v := hv
        rw [OrderedMap.find_emplace] at hfind
        split at hfind
        · rename_i heq
          cases hold : s.table.find k with
          | none =>
              rw [hold] at hfind
              cases hfind
              rw [heq]
              exact List.mem_append_right _ List.mem_cons_self
          | some w =>
              rw [hold] at hfind
              cases hfind
              rw [heq]
              exact List.mem_append_left _ (h.remembered k _ hold)
        · exact List.mem_append_left _ (h.remembered k' v hfind)
      · rcases List.mem_append.mp hv with hv | hv
        · exact List.mem_append_left _ (h.result k' v hv)
        · refine List.mem_append_right _ ?_
          simp only [State.ended, List.mem_cons, Output.returned.injEq, reduceCtorEq,
            Except.ok.injEq, List.not_mem_nil, or_false, false_or] at hv
          rw [hv.1, hv.2]
          exact List.mem_cons_self
      · rw [refusals_append, failures_append, h.refused]
        rfl
  | error x =>
      refine ⟨fun k' v hv => List.mem_append_left _ (h.remembered k' v hv), fun k' v hv => ?_, ?_⟩
      · rcases List.mem_append.mp hv with hv | hv
        · exact List.mem_append_left _ (h.result k' v hv)
        · simp [State.ended] at hv
      · rw [refusals_append, failures_append, h.refused]
        rfl

/-- Starting a run says nothing. -/
theorem honest_ran (h : Honest tr s) (k : K) : Honest (tr ++ [.ran k]) s := by
  refine ⟨fun k' v hv => List.mem_append_left _ (h.remembered k' v hv), fun k' v hv => ?_, ?_⟩
  · rcases List.mem_append.mp hv with hv | hv
    · exact List.mem_append_left _ (h.result k' v hv)
    · cases List.mem_singleton.mp hv
  · rw [refusals_append, failures_append, h.refused]
    rfl

/-- What is in the table is returned. -/
theorem honest_found {result : R} (h : Honest tr s) (hk : s.table.find k = some result) :
    Honest (tr ++ [.returned k (.ok result)]) s := by
  refine ⟨fun k' v hv => List.mem_append_left _ (h.remembered k' v hv), fun k' v hv => ?_, ?_⟩
  · rcases List.mem_append.mp hv with hv | hv
    · exact List.mem_append_left _ (h.result k' v hv)
    · cases List.mem_singleton.mp hv
      exact List.mem_append_left _ (h.remembered k result hk)
  · rw [refusals_append, failures_append, h.refused]
    rfl

/-- **STEP**. -/
theorem honest_step (h : Honest tr s) (hs : step s e = some (s', out)) :
    Honest (tr ++ out) s' := by
  cases e with
  | call k r =>
      obtain ⟨rfl, rfl⟩ := Prod.ext_iff.mp (Option.some.inj hs)
      unfold State.call
      split
      · rename_i result hk
        exact honest_found h hk
      · cases r with
        | none => exact { honest_ran h k with }
        | some r =>
            have hended := honest_ended (honest_ran h k) k r
            rw [List.append_assoc] at hended
            exact hended
  | finish i r =>
      simp only [step] at hs
      split at hs
      · cases hs
      · rename_i k hk
        obtain ⟨rfl, rfl⟩ := Prod.ext_iff.mp (Option.some.inj hs)
        exact honest_ended (s := { s with running := s.running.eraseIdx i }) { h with } k r

/-! ## The runs without overlap -/

/-- Nothing runs twice or is in the table when it runs, a success is in the table, and
    what was returned still is. -/
structure Single (tr : List (Output K R X)) (s : State K R) : Prop where
  nodup    : s.running.Nodup
  absent   : ∀ k ∈ s.running, s.table.find k = none
  count    : ∀ k, (successes tr).count k = if (s.table.find k).isSome then 1 else 0
  returned : ∀ k v, .returned k (.ok v) ∈ tr → s.table.find k = some v

/-- **SPEC (ended)**: of arguments that are not in the table. -/
theorem single_ended (h : Single tr s) (hk : s.table.find k = none) (hrun : k ∉ s.running)
    (r : Except X R) : Single (tr ++ (s.ended k r).2) (s.ended k r).1 := by
  cases r with
  | ok result =>
      have hfind : ∀ k', (s.table.emplace k result).find k'
          = if k' = k then some result else s.table.find k' := by
        intro k'
        rw [OrderedMap.find_emplace, hk]
        rfl
      have hsuccesses : successes (tr ++ [.ended k (.ok result), .returned k (.ok result)])
          = successes tr ++ [k] := successes_append
      refine ⟨h.nodup, fun k' hk' => ?_, fun k' => ?_, fun k' v hv => ?_⟩
      · have hne : k' ≠ k := fun heq => hrun (heq ▸ hk')
        show (s.table.emplace k result).find k' = none
        rw [hfind, if_neg hne]
        exact h.absent k' hk'
      · show (successes (tr ++ [.ended k (.ok result), .returned k (.ok result)])).count k'
          = if ((s.table.emplace k result).find k').isSome then 1 else 0
        rw [hsuccesses, hfind, List.count_append, h.count, List.count_singleton]
        by_cases heq : k' = k
        · simp [heq, hk]
        · simp [heq, Ne.symm heq]
      · show (s.table.emplace k result).find k' = some v
        rw [hfind]
        rcases List.mem_append.mp hv with hv | hv
        · have hold := h.returned k' v hv
          have hne : k' ≠ k := by
            intro heq
            rw [heq, hk] at hold
            cases hold
          rw [if_neg hne]
          exact hold
        · simp only [State.ended, List.mem_cons, Output.returned.injEq, reduceCtorEq,
            Except.ok.injEq, List.not_mem_nil, or_false, false_or] at hv
          rw [if_pos hv.1, hv.2]
  | error x =>
      refine ⟨h.nodup, h.absent, fun k' => ?_, fun k' v hv => ?_⟩
      · rw [successes_append]
        exact (congrArg (List.count k') (List.append_nil _)).trans (h.count k')
      · rcases List.mem_append.mp hv with hv | hv
        · exact h.returned k' v hv
        · simp [State.ended] at hv

/-- **STEP**. -/
theorem single_step (h : Single tr s) (hapart : Apart s e) (hs : step s e = some (s', out)) :
    Single (tr ++ out) s' := by
  cases e with
  | call k r =>
      obtain ⟨rfl, rfl⟩ := Prod.ext_iff.mp (Option.some.inj hs)
      unfold State.call
      split
      · rename_i result hk
        refine ⟨h.nodup, h.absent, fun k' => ?_, fun k' v hv => ?_⟩
        · rw [successes_append]
          exact (congrArg (List.count k') (List.append_nil _)).trans (h.count k')
        · rcases List.mem_append.mp hv with hv | hv
          · exact h.returned k' v hv
          · cases List.mem_singleton.mp hv
            exact hk
      · rename_i hk
        have hran : Single (tr ++ [.ran k]) s := by
          refine ⟨h.nodup, h.absent, fun k' => ?_, fun k' v hv => ?_⟩
          · rw [successes_append]
            exact (congrArg (List.count k') (List.append_nil _)).trans (h.count k')
          · rcases List.mem_append.mp hv with hv | hv
            · exact h.returned k' v hv
            · cases List.mem_singleton.mp hv
        cases r with
        | none =>
            refine ⟨?_, fun k' hk' => ?_, hran.count, hran.returned⟩
            · refine List.nodup_append.mpr
                ⟨h.nodup, List.nodup_singleton k, fun a ha b hb heq => ?_⟩
              rw [heq, List.mem_singleton.mp hb] at ha
              exact hapart hk ha
            · rcases List.mem_append.mp hk' with hk' | hk'
              · exact h.absent k' hk'
              · rw [List.mem_singleton.mp hk']
                exact hk
        | some r =>
            have hended := single_ended hran hk (hapart hk) r
            rw [List.append_assoc] at hended
            exact hended
  | finish i r =>
      simp only [step] at hs
      split at hs
      · cases hs
      · rename_i k hi
        have hperm := pool_perm hi
        have hnodup := hperm.nodup_iff.mp h.nodup
        rw [List.nodup_cons] at hnodup
        have hk := h.absent k (hperm.mem_iff.mpr List.mem_cons_self)
        obtain ⟨rfl, rfl⟩ := Prod.ext_iff.mp (Option.some.inj hs)
        refine single_ended (s := { s with running := s.running.eraseIdx i })
          ⟨hnodup.2, fun k' hk' => ?_, h.count, h.returned⟩ hk hnodup.1 r
        exact h.absent k' (hperm.mem_iff.mpr (List.mem_cons_of_mem _ hk'))

/-! ## Runs -/

/-- **RUN**. -/
theorem honest_run {es : List (Event K R X)} (h : run step init es = some (s, tr)) :
    Honest tr s := by
  have hinit : Honest ([] : List (Output K R X)) init := ⟨nofun, nofun, rfl⟩
  exact run_invariant (I := fun _ tr s => Honest tr s) hinit
    (fun _ _ _ _ _ _ hI _ hs => honest_step hI hs) (along_true _ _) h

/-- **RUN**: no call overlaps an earlier one with the same arguments. -/
theorem single_run {es : List (Event K R X)} (hapart : Along step Apart init es)
    (h : run step init es = some (s, tr)) : Single tr s := by
  have hinit : Single ([] : List (Output K R X)) init :=
    ⟨List.nodup_nil, nofun, fun _ => rfl, nofun⟩
  exact run_invariant (I := fun _ tr s => Single tr s) hinit
    (fun _ _ _ _ _ _ hI hP hs => single_step hI hP hs) hapart h

theorem step_finish {i : ℕ} (hi : s.running[i]? = some k) (r : Except X R) :
    step s (.finish i r) = some ({ s with running := s.running.eraseIdx i }.ended k r) := by
  simp only [step, hi]

/-- Of two runs with the same arguments both can succeed. -/
theorem overlap (hk : k ∈ s.running) (hfind : s.table.find k = none) (v : R) :
    ∃ (es : List (Event K R X)) (s' : State K R) (out : List (Output K R X)),
      run step s (.call k none :: es) = some (s', out) ∧ 1 < (successes out).count k := by
  obtain ⟨i, hi⟩ := List.mem_iff_getElem?.mp hk
  have hlt : i < s.running.length := (List.getElem?_eq_some_iff.mp hi).1
  have hcall : step s (.call k none : Event K R X)
      = some ({ s with running := s.running ++ [k] }, [.ran k]) := by
    simp only [step, State.call, hfind]
  have hi' : (s.running ++ [k])[i]? = some k := by
    rw [List.getElem?_append_left hlt]
    exact hi
  have hlast : ((s.running ++ [k]).eraseIdx i)[(s.running.eraseIdx i).length]? = some k := by
    rw [List.eraseIdx_append_of_lt_length hlt]
    exact List.getElem?_concat_length
  have hfirst := step_finish (s := { s with running := s.running ++ [k] }) hi'
    (.ok v : Except X R)
  have hsecond := step_finish (s := { s with table := s.table.emplace k v,
                                             running := (s.running ++ [k]).eraseIdx i })
    hlast (.ok v : Except X R)
  refine ⟨[.finish i (.ok v), .finish (s.running.eraseIdx i).length (.ok v)], _, _,
    run_step hcall (run_step hfirst (run_step hsecond rfl)), ?_⟩
  have hsuccesses : successes ([.ran k] ++ ([.ended k (.ok v), .returned k (.ok v)]
      ++ ([.ended k (.ok v), .returned k (.ok v)] ++ []) : List (Output K R X))) = [k, k] := rfl
  exact Nat.lt_of_lt_of_eq Nat.one_lt_two (by rw [hsuccesses]; simp)

/-- **HEADLINE**: memoizing does what it is to do in every run in which no call overlaps an
    earlier one with the same arguments; and where a call does, it is undone by letting both
    finish. -/
theorem memoized_of_apart {es : List (Event K R X)} (h : run step init es = some (s, tr)) :
    Honest tr s ∧ (Along step Apart init es → Memoized tr s)
      ∧ ∀ k, ¬ Apart s (.call k none : Event K R X) → Nonempty R →
        ∃ (es' : List (Event K R X)) (s' : State K R) (out : List (Output K R X)),
          run step init (es ++ .call k none :: es') = some (s', tr ++ out)
            ∧ ¬ Memoized (tr ++ out) s' := by
  have hhonest := honest_run h
  refine ⟨hhonest, fun hapart => ?_, fun k hnot ⟨v⟩ => ?_⟩
  · have hsingle := single_run hapart h
    refine { hhonest with once := fun k => ?_, same := fun k v w hv hw => ?_ }
    · rw [hsingle.count]
      split
      · exact Nat.le_refl _
      · exact Nat.zero_le _
    · have hboth := (hsingle.returned k v hv).symm.trans (hsingle.returned k w hw)
      exact Option.some.inj hboth
  · obtain ⟨hfind, hk⟩ := Classical.not_imp.mp hnot
    obtain ⟨es', s', out, hrun, htwo⟩ := overlap (Classical.not_not.mp hk) hfind v
    refine ⟨es', s', out, run_append h hrun, fun hmemo => ?_⟩
    have hone := hmemo.once k
    rw [successes_append, List.count_append] at hone
    omega

/-- A call that fails, one that runs the function again, and one that finds the result. -/
theorem memoized_of_apart_three :
    run step (init : State ℕ ℕ)
        [.call 1 none, .finish 0 (.error 7), .call 1 (some (.ok 5)), .call 1 none]
      = some (⟨OrderedMap.empty.assign 1 5, []⟩,
        [.ran 1, .ended 1 (.error 7), .returned 1 (.error 7), .ran 1, .ended 1 (.ok 5),
          .returned 1 (.ok 5), .returned 1 (.ok 5)])
      ∧ Memoized [.ran 1, .ended 1 (.error 7), .returned 1 (.error 7), .ran 1,
          .ended 1 (.ok 5), .returned 1 (.ok 5), (.returned 1 (.ok 5) : Output ℕ ℕ ℕ)]
        ⟨OrderedMap.empty.assign 1 5, []⟩ := by
  have h : run step (init : State ℕ ℕ)
        [.call 1 none, .finish 0 (.error 7), .call 1 (some (.ok 5)), .call 1 none]
      = some (⟨OrderedMap.empty.assign 1 5, []⟩,
        [.ran 1, .ended 1 (.error 7), .returned 1 (.error 7), .ran 1, .ended 1 (.ok 5),
          .returned 1 (.ok 5), (.returned 1 (.ok 5) : Output ℕ ℕ ℕ)]) := rfl
  exact ⟨h, (memoized_of_apart h).2.1 (by decide)⟩

/-- **COUNTEREXAMPLE**: the second call is made while the first runs.  The function succeeds
    twice, and the callers get different results. -/
theorem overlapping_calls :
    run step (init : State ℕ ℕ)
        [.call 1 none, .call 1 none, .finish 0 (.ok 5), .finish 0 (.ok 6)]
      = some (⟨OrderedMap.empty.assign 1 5, []⟩,
        [.ran 1, .ran 1, .ended 1 (.ok 5), .returned 1 (.ok 5), .ended 1 (.ok 6),
          (.returned 1 (.ok 6) : Output ℕ ℕ ℕ)])
      ∧ ¬ Memoized [.ran 1, .ran 1, .ended 1 (.ok 5), .returned 1 (.ok 5), .ended 1 (.ok 6),
          (.returned 1 (.ok 6) : Output ℕ ℕ ℕ)] ⟨OrderedMap.empty.assign 1 5, []⟩ := by
  refine ⟨rfl, fun h => ?_⟩
  have hsame := h.same 1 5 6 (by simp) (by simp)
  cases hsame

end Memoize
