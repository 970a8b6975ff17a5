import Mathlib.Data.List.Induction
import Mathlib.Data.List.Perm.Basic

/-! # Machines — runs of a step function, and what holds along them

    A machine reads events and shows outputs; an event that cannot happen in a
    state is refused.  A RUN is a list of events, none of them refused.  The
    one induction over runs is done here: `run_invariant` turns what a single
    step preserves into what every run preserves, where the invariant may speak
    of the events and outputs so far and each step may be assumed to meet a
    condition on the state it starts from (`Along`). -/

namespace Machine

variable {σ ε τ : Type}

/-- Run the events in order, collecting the outputs. -/
def run (step : σ → ε → Option (σ × List τ)) : σ → List ε → Option (σ × List τ)
  | s, []      => some (s, [])
  | s, e :: es =>
      match step s e with
      | none           => none
      | some (s', out) =>
          match run step s' es with
          | none            => none
          | some (s'', out') => some (s'', out ++ out')

/-- The condition `P` holds of every step of the run. -/
def Along (step : σ → ε → Option (σ × List τ)) (P : σ → ε → Prop) : σ → List ε → Prop
  | _, []      => True
  | s, e :: es =>
      P s e ∧ match step s e with
        | none         => True
        | some (s', _) => Along step P s' es

instance Along.decidable (step : σ → ε → Option (σ × List τ)) (P : σ → ε → Prop)
    [hP : ∀ s e, Decidable (P s e)] : ∀ s es, Decidable (Along step P s es)
  | _, []      => inferInstanceAs (Decidable True)
  | s, e :: es =>
      match hs : step s e with
      | none => decidable_of_iff (P s e) (by simp [Along, hs])
      | some (s', _) =>
          have := Along.decidable step P s' es
          decidable_of_iff (P s e ∧ Along step P s' es) (by simp [Along, hs])

variable {step : σ → ε → Option (σ × List τ)}

/-- A run of one more event is a step followed by a run. -/
theorem run_cons {s s'' : σ} {e : ε} {es : List ε} {tr : List τ}
    (h : run step s (e :: es) = some (s'', tr)) :
    ∃ s' out tr', step s e = some (s', out) ∧ run step s' es = some (s'', tr')
      ∧ tr = out ++ tr' := by
  unfold run at h
  cases hs : step s e with
  | none => rw [hs] at h; exact nomatch h
  | some p =>
      obtain ⟨s', out⟩ := p
      rw [hs] at h
      simp only at h
      cases hr : run step s' es with
      | none => rw [hr] at h; exact nomatch h
      | some q =>
          obtain ⟨s₂, tr'⟩ := q
          rw [hr] at h
          simp only [Option.some.injEq, Prod.mk.injEq] at h
          obtain ⟨rfl, rfl⟩ := h
          exact ⟨s', out, tr', rfl, hr, rfl⟩

/-- A step followed by a run is a run. -/
theorem run_step {s s' s'' : σ} {e : ε} {es : List ε} {out tr : List τ}
    (hs : step s e = some (s', out)) (hr : run step s' es = some (s'', tr)) :
    run step s (e :: es) = some (s'', out ++ tr) := by
  unfold run
  rw [hs]
  simp only
  rw [hr]

/-- What one step preserves, every run preserves. -/
theorem run_invariant_from {P : σ → ε → Prop} {I : List ε → List τ → σ → Prop}
    (hstep : ∀ es tr s e s' out, I es tr s → P s e → step s e = some (s', out) →
      I (es ++ [e]) (tr ++ out) s')
    (es : List ε) : ∀ (es₀ : List ε) (tr₀ : List τ) (s s' : σ) (tr : List τ),
      I es₀ tr₀ s → Along step P s es → run step s es = some (s', tr) →
        I (es₀ ++ es) (tr₀ ++ tr) s' := by
  induction es with
  | nil =>
      intro es₀ tr₀ s s' tr hI _ hrun
      simp only [run, Option.some.injEq, Prod.mk.injEq] at hrun
      obtain ⟨rfl, rfl⟩ := hrun
      rw [List.append_nil, List.append_nil]
      exact hI
  | cons e es ih =>
      intro es₀ tr₀ s s'' tr hI hP hrun
      obtain ⟨s', out, tr', hs, hr, rfl⟩ := run_cons hrun
      have hP' : Along step P s' es := by
        have := hP.2
        rw [hs] at this
        exact this
      have := ih (es₀ ++ [e]) (tr₀ ++ out) s' s'' tr' (hstep _ _ _ _ _ _ hI hP.1 hs) hP' hr
      rw [List.append_assoc, List.append_assoc, List.singleton_append] at this
      exact this

/-- The invariant rule: it holds initially and every step preserves it. -/
theorem run_invariant {P : σ → ε → Prop} {I : List ε → List τ → σ → Prop} {s₀ : σ}
    (h0 : I [] [] s₀)
    (hstep : ∀ es tr s e s' out, I es tr s → P s e → step s e = some (s', out) →
      I (es ++ [e]) (tr ++ out) s')
    {es : List ε} {s' : σ} {tr : List τ} (hP : Along step P s₀ es)
    (hrun : run step s₀ es = some (s', tr)) : I es tr s' := by
  have := run_invariant_from hstep es [] [] s₀ s' tr h0 hP hrun
  rwa [List.nil_append, List.nil_append] at this

/-- Without a condition, every run qualifies. -/
theorem along_true (s : σ) (es : List ε) : Along step (fun _ _ => True) s es := by
  induction es generalizing s with
  | nil => exact True.intro
  | cons e es ih =>
      refine ⟨True.intro, ?_⟩
      cases step s e with
      | none => exact True.intro
      | some p => exact ih p.1

/-- A condition on the events alone. -/
theorem along_of_forall {P : ε → Prop} {es : List ε} (h : ∀ e ∈ es, P e) (s : σ) :
    Along step (fun _ e => P e) s es := by
  induction es generalizing s with
  | nil => exact True.intro
  | cons e es ih =>
      refine ⟨h e List.mem_cons_self, ?_⟩
      cases step s e with
      | none => exact True.intro
      | some p => exact ih (fun e' he' => h e' (List.mem_cons_of_mem _ he')) p.1

/-- A run can be continued by a run. -/
theorem run_append {s s' s'' : σ} {es es' : List ε} {tr tr' : List τ}
    (hrun : run step s es = some (s', tr)) (hrun' : run step s' es' = some (s'', tr')) :
    run step s (es ++ es') = some (s'', tr ++ tr') := by
  induction es generalizing s tr with
  | nil =>
      simp only [run, Option.some.injEq, Prod.mk.injEq] at hrun
      obtain ⟨rfl, rfl⟩ := hrun
      exact hrun'
  | cons x xs ih =>
      obtain ⟨s₁, out₁, tr₁, h₁, hr, rfl⟩ := run_cons hrun
      rw [List.cons_append, List.append_assoc]
      exact run_step h₁ (ih hr)

/-- A run ends where its beginning and then its rest end. -/
theorem run_of_append {s s'' : σ} {es es' : List ε} {tr : List τ}
    (hrun : run step s (es ++ es') = some (s'', tr)) :
    ∃ s' tr₁ tr₂, run step s es = some (s', tr₁) ∧ run step s' es' = some (s'', tr₂)
      ∧ tr = tr₁ ++ tr₂ := by
  induction es generalizing s tr with
  | nil => exact ⟨s, [], tr, rfl, hrun, rfl⟩
  | cons x xs ih =>
      obtain ⟨s₁, out, tr', hs, hr, rfl⟩ := run_cons hrun
      obtain ⟨s', tr₁, tr₂, h₁, h₂, rfl⟩ := ih hr
      exact ⟨s', out ++ tr₁, tr₂, run_step hs h₁, h₂, (List.append_assoc ..).symm⟩

/-- A run can be continued by a step. -/
theorem run_snoc {s s' s'' : σ} {es : List ε} {e : ε} {tr out : List τ}
    (hrun : run step s es = some (s', tr)) (hs : step s' e = some (s'', out)) :
    run step s (es ++ [e]) = some (s'', tr ++ out) := by
  refine run_append hrun ?_
  simp [run, hs]

/-- Where the invariant lets no event be refused, every list of events is a run. -/
theorem run_total {I : List ε → List τ → σ → Prop} {s₀ : σ} (h0 : I [] [] s₀)
    (hstep : ∀ es tr s e, I es tr s → ∃ s' out, step s e = some (s', out)
      ∧ I (es ++ [e]) (tr ++ out) s') (es : List ε) :
    ∃ s tr, run step s₀ es = some (s, tr) ∧ I es tr s := by
  induction es using List.reverseRecOn with
  | nil => exact ⟨s₀, [], rfl, h0⟩
  | append_singleton es e ih =>
      obtain ⟨s, tr, hrun, hI⟩ := ih
      obtain ⟨s', out, hs, hI'⟩ := hstep es tr s e hI
      exact ⟨s', tr ++ out, run_snoc hrun hs, hI'⟩

/-- A condition along a run holds along its beginning. -/
theorem along_append {P : σ → ε → Prop} {s : σ} {es es' : List ε}
    (h : Along step P s (es ++ es')) : Along step P s es := by
  induction es generalizing s with
  | nil => exact True.intro
  | cons e es ih =>
      obtain ⟨hP, hrest⟩ := h
      refine ⟨hP, ?_⟩
      cases hs : step s e with
      | none => exact True.intro
      | some p =>
          rw [hs] at hrest
          exact ih hrest

/-- A condition holds along one more step. -/
theorem along_snoc {P : σ → ε → Prop} {s s' s'' : σ} {es : List ε} {e : ε} {tr out : List τ}
    (hrun : run step s es = some (s', tr)) (hs : step s' e = some (s'', out)) :
    Along step P s (es ++ [e]) ↔ Along step P s es ∧ P s' e := by
  induction es generalizing s tr with
  | nil =>
      simp only [run, Option.some.injEq, Prod.mk.injEq] at hrun
      obtain ⟨rfl, rfl⟩ := hrun
      simp [Along, hs]
  | cons x xs ih =>
      obtain ⟨s₁, out₁, tr₁, h₁, hr, rfl⟩ := run_cons hrun
      simp only [List.cons_append, Along, h₁, ih hr, and_assoc]

/-- A condition on every step of a run holds along it. -/
theorem along_of_steps {P : σ → ε → Prop} {s s₁ : σ} {es : List ε} {tr₁ : List τ}
    (hrun : run step s es = some (s₁, tr₁))
    (h : ∀ es₁ e es₂ s' tr s'' out, es = es₁ ++ e :: es₂ → run step s es₁ = some (s', tr) →
      step s' e = some (s'', out) → P s' e) : Along step P s es := by
  induction es generalizing s tr₁ with
  | nil => exact True.intro
  | cons e es ih =>
      obtain ⟨s', out, tr', hs, hr, rfl⟩ := run_cons hrun
      refine ⟨h [] e es s [] s' out rfl rfl hs, ?_⟩
      rw [hs]
      refine ih hr ?_
      intro es₁ e₁ es₂ t tr t' out₁ hes hr₁ hs₁
      exact h (e :: es₁) e₁ es₂ t (out ++ tr) t' out₁ (by rw [hes]; rfl) (run_step hs hr₁) hs₁

/-- A condition whose failure would show holds along a run that does not show it. -/
theorem along_of_outputs {P : σ → ε → Prop} {I : σ → Prop} {Bad : τ → Prop}
    (hstep : ∀ s e s' out, I s → step s e = some (s', out) → I s')
    (hbad : ∀ s e s' out, I s → step s e = some (s', out) → ¬ P s e → ∃ o ∈ out, Bad o)
    {s s₁ : σ} {es : List ε} {tr : List τ} (h0 : I s) (hrun : run step s es = some (s₁, tr))
    (h : ∀ o ∈ tr, ¬ Bad o) : Along step P s es := by
  induction es generalizing s tr with
  | nil => exact True.intro
  | cons e es ih =>
      obtain ⟨s', out, tr', hs, hr, rfl⟩ := run_cons hrun
      refine ⟨?_, ?_⟩
      · by_contra hP
        obtain ⟨o, ho, hBad⟩ := hbad s e s' out h0 hs hP
        exact h o (List.mem_append_left _ ho) hBad
      · rw [hs]
        exact ih (hstep s e s' out h0 hs) hr (fun o ho => h o (List.mem_append_right _ ho))

/-- Conditions that an invariant makes equivalent, if one of them keeps it. -/
theorem along_iff {P Q : σ → ε → Prop} {I : σ → Prop} (hPQ : ∀ s e, I s → (P s e ↔ Q s e))
    (hstep : ∀ s e s' out, I s → Q s e → step s e = some (s', out) → I s') {s : σ} (h0 : I s)
    (es : List ε) : Along step P s es ↔ Along step Q s es := by
  induction es generalizing s with
  | nil => exact Iff.rfl
  | cons e es ih =>
      unfold Along
      rw [hPQ s e h0]
      refine and_congr_right (fun hQ => ?_)
      cases hs : step s e with
      | none => exact Iff.rfl
      | some p => exact ih (hstep s e p.1 p.2 h0 hQ hs)

/-! ## What happened since -/

/-- An output of kind `P` was shown, and none of kind `Q` after it. -/
def Since (P Q : τ → Prop) (tr : List τ) : Prop :=
  ∃ l₁ o l₂, tr = l₁ ++ o :: l₂ ∧ P o ∧ ∀ x ∈ l₂, ¬ Q x

theorem not_since_nil {P Q : τ → Prop} : ¬ Since P Q [] := by
  rintro ⟨l₁, o, l₂, h, _⟩
  exact absurd h (by simp)

/-- It stays so while nothing undoes it. -/
theorem Since.append {P Q : τ → Prop} {tr out : List τ} (h : Since P Q tr)
    (hout : ∀ x ∈ out, ¬ Q x) : Since P Q (tr ++ out) := by
  obtain ⟨l₁, o, l₂, rfl, hP, hQ⟩ := h
  refine ⟨l₁, o, l₂ ++ out, by rw [List.append_assoc, List.cons_append], hP, ?_⟩
  intro x hx
  rcases List.mem_append.mp hx with hx | hx
  · exact hQ x hx
  · exact hout x hx

/-- It happened among the new outputs, or before and nothing undid it. -/
theorem since_append {P Q : τ → Prop} {tr out : List τ} (h : Since P Q (tr ++ out)) :
    Since P Q out ∨ Since P Q tr ∧ ∀ x ∈ out, ¬ Q x := by
  obtain ⟨l₁, o, l₂, heq, hP, hQ⟩ := h
  rcases List.append_eq_append_iff.mp heq with ⟨mid, rfl, hout⟩ | ⟨mid, htr, hmid⟩
  · exact .inl ⟨mid, o, l₂, hout, hP, hQ⟩
  · cases mid with
    | nil => exact .inl ⟨[], o, l₂, by simpa using hmid.symm, hP, hQ⟩
    | cons o' mid =>
        obtain ⟨rfl, rfl⟩ := List.cons.inj hmid
        refine .inr ⟨⟨l₁, o, mid, htr, hP, fun x hx => ?_⟩, fun x hx => ?_⟩
        · exact hQ x (List.mem_append_left _ hx)
        · exact hQ x (List.mem_append_right _ hx)

/-- One more output. -/
theorem since_snoc {P Q : τ → Prop} {tr : List τ} {o : τ} (h : Since P Q (tr ++ [o])) :
    P o ∨ Since P Q tr ∧ ¬ Q o := by
  rcases since_append h with ⟨l₁, o', l₂, heq, hP, _⟩ | ⟨h, hQ⟩
  · have ho : o' ∈ [o] := heq ▸ List.mem_append_right _ List.mem_cons_self
    exact .inl (List.mem_singleton.mp ho ▸ hP)
  · exact .inr ⟨h, hQ o (List.mem_singleton_self o)⟩

/-! ## A pool of tasks -/

/-- The resumed task and the rest of the pool. -/
theorem pool_perm {α : Type} {tasks : List α} {n : Nat} {t : α} (h : tasks[n]? = some t) :
    tasks.Perm (t :: tasks.eraseIdx n) := by
  obtain ⟨hn, rfl⟩ := List.getElem?_eq_some_iff.mp h
  exact (List.getElem_cons_eraseIdx_perm hn).symm

/-! ## Counting events -/

/-- One more event counts once if it is of the counted kind. -/
theorem count_filterMap_snoc {α : Type} [DecidableEq α] (f : ε → Option α) (es : List ε) (e : ε)
    (a : α) : ((es ++ [e]).filterMap f).count a
      = (es.filterMap f).count a + (if f e = some a then 1 else 0) := by
  rw [List.filterMap_append, List.count_append]
  congr 1
  cases hf : f e with
  | none => rw [List.filterMap_cons_none hf]; rfl
  | some b =>
      rw [List.filterMap_cons_some hf, List.filterMap_nil, List.count_singleton]
      by_cases hb : b = a
      · simp [hb]
      · simp [hb]

end Machine
