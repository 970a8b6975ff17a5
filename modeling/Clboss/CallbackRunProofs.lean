import Mathlib.Data.List.Basic

/-! # Callback runs — exceptions on a stack that comes and goes

    A chain of callbacks, each the last thing its caller does, seen as the run
    it causes: what it does in order, when it returns to the event loop to be
    called back LATER, and whether an exception leaves it.

    `tryCatch` is a `try` block around such a run.  It catches what is raised
    before the run returns to the loop and nothing after: by then the block has
    been left.  `plug ms r` is a run that does `ms` and goes on as `r`; moving a
    `tryCatch` inside is `tryCatch_plug`, and the difference between before and
    after a `later` is all there is to it. -/

namespace Callback

/-- A run of callbacks, doing things of type `τ` and raising exceptions of type `ε`. -/
inductive Run (τ ε : Type) where
  /-- Everything has returned. -/
  | done
  /-- An exception leaves the run. -/
  | raised (x : ε)
  /-- Something is done, then the run goes on. -/
  | log (ev : τ) (r : Run τ ε)
  /-- Everything returns; the event loop calls back and the run goes on. -/
  | later (r : Run τ ε)

variable {τ ε : Type}

/-- `try { r } catch (...) { h }`. -/
def tryCatch : Run τ ε → (ε → Run τ ε) → Run τ ε
  | .done, _     => .done
  | .raised x, h => h x
  | .log ev r, h => .log ev (tryCatch r h)
  | .later r, _  => .later r

/-- Do the marks in order (`none`: return to the event loop), then go on as `r`. -/
def plug : List (Option τ) → Run τ ε → Run τ ε
  | [], r           => r
  | some ev :: ms, r => .log ev (plug ms r)
  | none :: ms, r    => .later (plug ms r)

/-- No exception leaves the run before it returns to the event loop. -/
def Quiet : Run τ ε → Prop
  | .done     => True
  | .raised _ => False
  | .log _ r  => Quiet r
  | .later _  => True

theorem plug_append (ms ms' : List (Option τ)) (r : Run τ ε) :
    plug (ms ++ ms') r = plug ms (plug ms' r) := by
  induction ms with
  | nil => rfl
  | cons m ms ih =>
      cases m with
      | none => exact congrArg Run.later ih
      | some ev => exact congrArg (Run.log ev) ih

/-- A `try` block around a quiet run does nothing. -/
theorem tryCatch_of_quiet {r : Run τ ε} (h : ε → Run τ ε) (hr : Quiet r) : tryCatch r h = r := by
  induction r with
  | done => rfl
  | raised x => exact hr.elim
  | log ev r ih => exact congrArg (Run.log ev) (ih hr)
  | later r => rfl

/-- A `try` block whose handler is quiet makes a run quiet. -/
theorem quiet_tryCatch (r : Run τ ε) {h : ε → Run τ ε} (hh : ∀ x, Quiet (h x)) :
    Quiet (tryCatch r h) := by
  induction r with
  | done => exact True.intro
  | raised x => exact hh x
  | log ev r ih => exact ih
  | later r => exact True.intro

/-- The inner of two `try` blocks decides, when its handler is quiet. -/
theorem tryCatch_tryCatch (r : Run τ ε) {f : ε → Run τ ε} (h : ε → Run τ ε)
    (hf : ∀ x, Quiet (f x)) : tryCatch (tryCatch r f) h = tryCatch r f :=
  tryCatch_of_quiet h (quiet_tryCatch r hf)

/-- BEFORE a return to the event loop a `try` block reaches what follows. -/
theorem tryCatch_plug_sync {ms : List (Option τ)} (r : Run τ ε) (h : ε → Run τ ε)
    (hms : none ∉ ms) : tryCatch (plug ms r) h = plug ms (tryCatch r h) := by
  induction ms with
  | nil => rfl
  | cons m ms ih =>
      cases m with
      | none => exact absurd (List.mem_cons_self ..) hms
      | some ev => exact congrArg (Run.log ev) (ih fun hm => hms (List.mem_cons_of_mem _ hm))

/-- AFTER it, a `try` block reaches nothing. -/
theorem tryCatch_plug_later {ms : List (Option τ)} (r : Run τ ε) (h : ε → Run τ ε)
    (hms : none ∈ ms) : tryCatch (plug ms r) h = plug ms r := by
  induction ms with
  | nil => exact nomatch hms
  | cons m ms ih =>
      cases m with
      | none => rfl
      | some ev =>
          refine congrArg (Run.log ev) (ih ?_)
          rcases List.mem_cons.mp hms with h0 | h0
          · exact nomatch h0
          · exact h0

/-- Around a continuation that is itself in a `try` block with a quiet handler
    it makes no difference. -/
theorem tryCatch_plug_tryCatch (ms : List (Option τ)) (r : Run τ ε) {f : ε → Run τ ε}
    (h : ε → Run τ ε) (hf : ∀ x, Quiet (f x)) :
    tryCatch (plug ms (tryCatch r f)) h = plug ms (tryCatch r f) := by
  by_cases hms : none ∈ ms
  · exact tryCatch_plug_later _ h hms
  · rw [tryCatch_plug_sync _ h hms, tryCatch_tryCatch r h hf]

/-- The same around a quiet continuation. -/
theorem tryCatch_plug_quiet (ms : List (Option τ)) {r : Run τ ε} (h : ε → Run τ ε)
    (hr : Quiet r) : tryCatch (plug ms r) h = plug ms r := by
  by_cases hms : none ∈ ms
  · exact tryCatch_plug_later _ h hms
  · rw [tryCatch_plug_sync _ h hms, tryCatch_of_quiet h hr]

/-! ## What shows -/

/-- The things a run does. -/
def logs : Run τ ε → List τ
  | .done     => []
  | .raised _ => []
  | .log ev r => ev :: logs r
  | .later r  => logs r

/-- An exception leaves the run while the event loop is its caller. -/
def Escapes : Run τ ε → Prop
  | .done     => False
  | .raised _ => False
  | .log _ r  => Escapes r
  | .later r  => Escapes r ∨ ¬ Quiet r

theorem logs_plug (ms : List (Option τ)) (r : Run τ ε) :
    logs (plug ms r) = ms.filterMap id ++ logs r := by
  induction ms with
  | nil => rfl
  | cons m ms ih =>
      cases m with
      | none => exact ih
      | some ev => exact congrArg (ev :: ·) ih

/-- A `try` block takes back nothing that was done. -/
theorem mem_logs_tryCatch {r : Run τ ε} {ev : τ} (h : ε → Run τ ε) (hev : ev ∈ logs r) :
    ev ∈ logs (tryCatch r h) := by
  induction r with
  | done => exact nomatch hev
  | raised x => exact nomatch hev
  | log ev' r ih =>
      rcases List.mem_cons.mp hev with h0 | h0
      · exact List.mem_cons.mpr (.inl h0)
      · exact List.mem_cons.mpr (.inr (ih h0))
  | later r => exact hev

/-- Nor does it reach an exception that escapes to the event loop. -/
theorem escapes_tryCatch {r : Run τ ε} (h : ε → Run τ ε) (hr : Escapes r) :
    Escapes (tryCatch r h) := by
  induction r with
  | done => exact hr.elim
  | raised x => exact hr.elim
  | log ev r ih => exact ih hr
  | later r => exact hr

theorem escapes_plug (ms : List (Option τ)) {r : Run τ ε} (hr : Escapes r) :
    Escapes (plug ms r) := by
  induction ms with
  | nil => exact hr
  | cons m ms ih =>
      cases m with
      | none => exact .inl ih
      | some ev => exact ih

theorem not_quiet_plug {ms : List (Option τ)} {r : Run τ ε} (hms : none ∉ ms)
    (hr : ¬ Quiet r) : ¬ Quiet (plug ms r) := by
  induction ms with
  | nil => exact hr
  | cons m ms ih =>
      cases m with
      | none => exact absurd (List.mem_cons_self ..) hms
      | some ev => exact ih fun hm => hms (List.mem_cons_of_mem _ hm)

/-- What is raised after a return to the event loop escapes to it. -/
theorem escapes_plug_later {ms : List (Option τ)} {r : Run τ ε} (hms : none ∈ ms)
    (hr : ¬ Quiet r) : Escapes (plug ms r) := by
  induction ms with
  | nil => exact nomatch hms
  | cons m ms ih =>
      cases m with
      | none =>
          by_cases h0 : none ∈ ms
          · exact .inl (ih h0)
          · exact .inr (not_quiet_plug h0 hr)
      | some ev =>
          rcases List.mem_cons.mp hms with h0 | h0
          · exact nomatch h0
          · exact ih h0

end Callback
