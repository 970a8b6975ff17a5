import Mathlib.Data.List.Basic

/-! # Awaiting programs — exceptions, a trace, and interference

    A greenthread over a shared store.  Every awaited step hands control away:
    other greenthreads may change the store before it is resumed, and the step
    may end in an exception.  What the program itself does that others can see
    is recorded in a trace.

    `Spec P m Q E` is the usual triple with one postcondition for a normal end
    and one for an exception; its rules (`Spec.bind`, `Spec.catching`,
    `Spec.await`, …) are all that proofs about such programs use. -/

namespace Await

/-- The store, the trace so far (oldest first), and the number of awaits. -/
structure World (σ τ : Type) where
  store  : σ
  trace  : List τ
  awaits : Nat

/-- What happens while the `n`-th await is pending: what others do to the
    store, and the exception the step ends in, if any. -/
structure Script (σ ε : Type) where
  others : Nat → σ → σ
  throws : Nat → Option ε

/-- An awaiting program. -/
def Io (σ τ ε α : Type) := World σ τ → Except ε α × World σ τ

variable {σ τ ε α β : Type}

namespace Io

/-- Lift a value. -/
protected def pure (a : α) : Io σ τ ε α := fun w => (.ok a, w)

/-- Sequencing: an exception skips the continuation. -/
protected def bind (m : Io σ τ ε α) (k : α → Io σ τ ε β) : Io σ τ ε β := fun w =>
  match m w with
  | (.ok a, w')    => k a w'
  | (.error e, w') => (.error e, w')

instance : Monad (Io σ τ ε) where
  pure := Io.pure
  bind := Io.bind

/-- Raise an exception. -/
def throw (e : ε) : Io σ τ ε α := fun w => (.error e, w)

/-- Handle the exceptions `handler` returns a program for. -/
def catching (m : Io σ τ ε α) (handler : ε → Option (Io σ τ ε α)) : Io σ τ ε α :=
  fun w =>
    match m w with
    | (.ok a, w')    => (.ok a, w')
    | (.error e, w') =>
        match handler e with
        | some h => h w'
        | none   => (.error e, w')

/-- Wait for an external step. -/
def await (env : Script σ ε) : Io σ τ ε Unit := fun w =>
  (match env.throws w.awaits with
    | some e => .error e
    | none   => .ok (),
    { w with store := env.others w.awaits w.store, awaits := w.awaits + 1 })

/-- Read the store. -/
def read : Io σ τ ε σ := fun w => (.ok w.store, w)

/-- Change the store. -/
def write (f : σ → σ) : Io σ τ ε Unit := fun w => (.ok (), { w with store := f w.store })

/-- Do something others can see. -/
def emit (t : τ) : Io σ τ ε Unit := fun w => (.ok (), { w with trace := w.trace ++ [t] })

/-- A value, or an exception in its absence. -/
def ofOption (e : ε) : Option α → Io σ τ ε α
  | some a => Io.pure a
  | none   => Io.throw e

/-- Run a program and keep how it ended. -/
def attempt (m : Io σ τ ε α) : Io σ τ ε (Except ε α) := fun w => (.ok (m w).1, (m w).2)

/-- Every program is run to its end, however the others ended. -/
def forEach (f : α → Io σ τ ε β) : List α → Io σ τ ε (List (Except ε β))
  | []      => pure []
  | x :: xs => do
      let r ← attempt (f x)
      let rs ← forEach f xs
      return r :: rs

/-- Evaluation of a sequence whose first half returns. -/
theorem bind_eq {m : Io σ τ ε α} {k : α → Io σ τ ε β} {w v : World σ τ} {a : α}
    (h : m w = (.ok a, v)) : (m >>= k) w = k a v := by
  show Io.bind m k w = k a v
  unfold Io.bind
  rw [h]

/-- Evaluation of a sequence whose first half throws. -/
theorem bind_eq_error {m : Io σ τ ε α} {k : α → Io σ τ ε β} {w v : World σ τ} {e : ε}
    (h : m w = (.error e, v)) : (m >>= k) w = (.error e, v) := by
  show Io.bind m k w = (.error e, v)
  unfold Io.bind
  rw [h]

/-- A sequence returns only after its first half. -/
theorem of_bind_eq {m : Io σ τ ε α} {k : α → Io σ τ ε β} {w v : World σ τ} {b : β}
    (h : (m >>= k) w = (.ok b, v)) : ∃ a u, m w = (.ok a, u) ∧ k a u = (.ok b, v) := by
  change Io.bind m k w = _ at h
  unfold Io.bind at h
  cases hm : m w with
  | mk r u =>
      rw [hm] at h
      cases r with
      | ok a => exact ⟨a, u, rfl, h⟩
      | error e => cases h

theorem ofOption_eq {e : ε} {o : Option α} {a : α} (h : o = some a) (w : World σ τ) :
    (Io.ofOption e o : Io σ τ ε α) w = (.ok a, w) := by
  rw [h]
  rfl

end Io

/-! ## Triples -/

/-- From a world satisfying `P`, a normal end satisfies `Q` and an exception
    leaves a world satisfying `E`. -/
def Spec (P : World σ τ → Prop) (m : Io σ τ ε α) (Q : α → World σ τ → Prop)
    (E : ε → World σ τ → Prop) : Prop :=
  ∀ w, P w → match m w with
    | (.ok a, w')    => Q a w'
    | (.error e, w') => E e w'

namespace Spec

variable {P : World σ τ → Prop} {Q : α → World σ τ → Prop}
variable {R : β → World σ τ → Prop} {E : ε → World σ τ → Prop}

theorem pure {a : α} (h : ∀ w, P w → Q a w) :
    Spec P (Pure.pure a : Io σ τ ε α) Q E := fun w hw => h w hw

theorem bind {m : Io σ τ ε α} {k : α → Io σ τ ε β} (h1 : Spec P m Q E)
    (h2 : ∀ a, Spec (Q a) (k a) R E) : Spec P (m >>= k) R E := by
  intro w hw
  have hm := h1 w hw
  show match Io.bind m k w with
    | (.ok a, w')    => R a w'
    | (.error e, w') => E e w'
  unfold Io.bind
  cases hres : m w with
  | mk res w' =>
      rw [hres] at hm
      cases res with
      | ok a => exact h2 a w' hm
      | error e => exact hm

/-- Any program, where nothing is asked of its ends. -/
theorem trivial (m : Io σ τ ε α) : Spec P m (fun _ _ => True) (fun _ _ => True) := by
  intro w _
  split <;> exact True.intro

theorem throw {e : ε} (h : ∀ w, P w → E e w) :
    Spec P (Io.throw e : Io σ τ ε α) Q E := fun w hw => h w hw

theorem catching {m : Io σ τ ε α} {handler : ε → Option (Io σ τ ε α)}
    {F : ε → World σ τ → Prop} (h1 : Spec P m Q F)
    (h2 : ∀ e h, handler e = some h → Spec (F e) h Q E)
    (h3 : ∀ e w, handler e = none → F e w → E e w) :
    Spec P (Io.catching m handler) Q E := by
  intro w hw
  have hm := h1 w hw
  unfold Io.catching
  cases hres : m w with
  | mk res w' =>
      rw [hres] at hm
      cases res with
      | ok a => exact hm
      | error e =>
          simp only
          cases hh : handler e with
          | none => exact h3 e w' hh hm
          | some h => exact h2 e h hh w' hm

/-- An await moves to the world others leave, whether or not it throws. -/
theorem await {env : Script σ ε} {Q : Unit → World σ τ → Prop}
    (hq : ∀ w, P w → Q () { w with
      store := env.others w.awaits w.store, awaits := w.awaits + 1 })
    (he : ∀ e w, P w → E e { w with
      store := env.others w.awaits w.store, awaits := w.awaits + 1 }) :
    Spec P (Io.await env) Q E := by
  intro w hw
  unfold Io.await
  cases env.throws w.awaits with
  | none => exact hq w hw
  | some e => exact he e w hw

/-- An await that does not throw. -/
theorem await_quiet {env : Script σ ε} {Q : Unit → World σ τ → Prop}
    (henv : ∀ n, env.throws n = none)
    (hq : ∀ w, P w → Q () { w with
      store := env.others w.awaits w.store, awaits := w.awaits + 1 }) :
    Spec P (Io.await env) Q E := by
  intro w hw
  unfold Io.await
  rw [henv]
  exact hq w hw

theorem read {Q : σ → World σ τ → Prop} (h : ∀ w, P w → Q w.store w) :
    Spec P (Io.read : Io σ τ ε σ) Q E := fun w hw => h w hw

theorem write {f : σ → σ} {Q : Unit → World σ τ → Prop}
    (h : ∀ w, P w → Q () { w with store := f w.store }) :
    Spec P (Io.write f : Io σ τ ε Unit) Q E := fun w hw => h w hw

theorem emit {t : τ} {Q : Unit → World σ τ → Prop}
    (h : ∀ w, P w → Q () { w with trace := w.trace ++ [t] }) :
    Spec P (Io.emit t : Io σ τ ε Unit) Q E := fun w hw => h w hw

theorem ofOption {e : ε} {o : Option α} (hs : ∀ a w, o = some a → P w → Q a w)
    (hn : ∀ w, o = none → P w → E e w) : Spec P (Io.ofOption e o) Q E := by
  intro w hw
  cases o with
  | none => exact hn w rfl hw
  | some a => exact hs a w rfl hw

/-- Branching on a decidable condition. -/
theorem ite {c : Prop} [Decidable c] {m n : Io σ τ ε α}
    (ht : c → Spec P m Q E) (hf : ¬ c → Spec P n Q E) :
    Spec P (if c then m else n) Q E := by
  by_cases h : c
  · rw [if_pos h]; exact ht h
  · rw [if_neg h]; exact hf h

/-- Both ends of a program are normal ends of the attempt. -/
theorem attempt {m : Io σ τ ε α} {F : ε → World σ τ → Prop} (h : Spec P m Q E) :
    Spec P (Io.attempt m) (fun r w => match r with
      | .ok a    => Q a w
      | .error e => E e w) F := by
  intro w hw
  have hm := h w hw
  unfold Io.attempt
  cases hres : m w with
  | mk res w' =>
      rw [hres] at hm
      cases res with
      | ok a => exact hm
      | error e => exact hm

/-- Where each program ends well exactly if its argument is good, and keeps an
    invariant either way, the results say which arguments were good. -/
theorem forEach {f : α → Io σ τ ε β} {I : World σ τ → Prop} {Good : α → Prop} {xs : List α}
    (h : ∀ x ∈ xs, Spec I (f x) (fun _ w => I w ∧ Good x) (fun _ w => I w ∧ ¬ Good x)) :
    Spec I (Io.forEach f xs)
      (fun rs w => I w ∧ List.Forall₂ (fun x r => (∃ b, r = .ok b) ↔ Good x) xs rs) E := by
  induction xs with
  | nil => exact Spec.pure (fun w hw => ⟨hw, List.Forall₂.nil⟩)
  | cons x xs ih =>
      refine Spec.bind (Q := fun r w => I w ∧ ((∃ b, r = .ok b) ↔ Good x)) ?_ (fun r => ?_)
      · intro w hw
        have hr := attempt (F := E) (h x List.mem_cons_self) w hw
        unfold Io.attempt at hr ⊢
        cases hres : (f x w).1 with
        | ok b =>
            rw [hres] at hr
            exact ⟨hr.1, fun _ => hr.2, fun _ => ⟨b, rfl⟩⟩
        | error e =>
            rw [hres] at hr
            exact ⟨hr.1, fun hb => (by obtain ⟨b, hb⟩ := hb; cases hb), fun hg => absurd hg hr.2⟩
      · intro w hw
        have hrest := ih (fun y hy => h y (List.mem_cons_of_mem _ hy))
        refine Spec.bind hrest (fun rs => Spec.pure (fun w hw' => ?_)) w hw.1
        exact ⟨hw'.1, List.Forall₂.cons hw.2 hw'.2⟩

/-- Weaken both postconditions. -/
theorem mono {Q' : α → World σ τ → Prop} {E' : ε → World σ τ → Prop} {m : Io σ τ ε α}
    (h : Spec P m Q E) (hq : ∀ a w, Q a w → Q' a w) (he : ∀ e w, E e w → E' e w) :
    Spec P m Q' E' := by
  intro w hw
  have hm := h w hw
  cases hres : m w with
  | mk res w' =>
      rw [hres] at hm
      cases res with
      | ok a => exact hq a w' hm
      | error e => exact he e w' hm

/-- Strengthen the precondition. -/
theorem weaken {P' : World σ τ → Prop} {m : Io σ τ ε α} (h : Spec P m Q E)
    (hp : ∀ w, P' w → P w) : Spec P' m Q E := fun w hw => h w (hp w hw)

end Spec

/-- The store after the first `n` awaits of a program that writes nothing:
    only the others' changes. -/
def othersOnly (env : Script σ ε) (s : σ) : Nat → σ
  | 0     => s
  | n + 1 => env.others n (othersOnly env s n)

end Await
