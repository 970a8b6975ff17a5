import Clboss.CallbackRunProofs

/-! # `Ev::Io` — an exception monad made of callbacks

    An `Io<a>` is a function of two callbacks, `pass` and `fail`.  `core` below
    is that function for every expression built from `lift`, primitive actions,
    `then` and `catching`, with the `try` blocks where the source has them:
    `then` on a VOID action has one around the call of its function, `then` on
    a VALUE has not and relies on whichever block happens to be on the stack.

    The specification is `monad`: exceptions without a stack.  `Lawful` says that
    a run shows what the monad shows, `WellCaught` says of an expression that
    each exception thrown by a function after a value meets the right block, and
    `core_follows` that such an expression runs as the monad does. -/

namespace EvIo

open Callback

/-! ## Expressions -/

/-- The type of an action, as far as `then` looks at it. -/
inductive Ty where
  | void
  | value
deriving DecidableEq, Repr

/-- What an action passes. -/
def Val (V : Type) : Ty → Type
  | .void  => Unit
  | .value => V

mutual

/-- Actions over values `V` and exceptions `X`. -/
inductive Expr (V X : Type) : Ty → Type where
  /-- `Ev::lift`. -/
  | lift {t : Ty} (v : Val V t) : Expr V X t
  /-- An action that completes once, at once or from the event loop. -/
  | prim {t : Ty} (later : Bool) (outcome : Except X (Val V t)) : Expr V X t
  /-- `action.then(func)`. -/
  | andThen {a b : Ty} (action : Expr V X a) (func : Val V a → Body V X b) : Expr V X b
  /-- `action.catching<e>(handler)`; `catches` tells the exceptions of type `e`. -/
  | catching {t : Ty} (action : Expr V X t) (catches : X → Bool) (handler : X → Body V X t) :
      Expr V X t

/-- What calling a function does. -/
inductive Body (V X : Type) : Ty → Type where
  | throws {t : Ty} (x : X) : Body V X t
  | returns {t : Ty} (io : Expr V X t) : Body V X t

end

/-- Where a subexpression stands in its parent. -/
inductive Place where
  /-- The action of a `then` or a `catching`. -/
  | action
  /-- What its function or handler returned. -/
  | body
deriving DecidableEq, Repr

/-- Where a subexpression stands in the whole. -/
abbrev Path := List Place

/-- What shows of a run. -/
inductive Event (V X : Type) where
  /-- The function of the `then` at `path` is called. -/
  | called (path : Path)
  /-- The handler of the `catching` at `path` is called. -/
  | handled (path : Path) (x : X)
  /-- The `pass` given to `run` is called. -/
  | passed {t : Ty} (v : Val V t)
  /-- The `fail` given to `run` is called. -/
  | failed (x : X)
  /-- An exception reaches the code that completed an action. -/
  | escaped (x : X)

variable {V X : Type} {t : Ty}

/-! ## The code -/

/-- The block around the call of a function: there on a void action only. -/
def callBlock (a : Ty) (r : Run (Event V X) X) (fail : X → Run (Event V X) X) :
    Run (Event V X) X :=
  match a with
  | .void  => tryCatch r fail
  | .value => r

mutual

/-- The `core` of an action. -/
def Expr.core {t : Ty} : Expr V X t → Path → (Val V t → Run (Event V X) X) →
    (X → Run (Event V X) X) → Run (Event V X) X
  | .lift v, _, pass, _ => pass v
  | .prim later outcome, _, pass, fail =>
      let r := match outcome with
        | .ok v    => pass v
        | .error x => fail x
      if later then .later r else r
  | .andThen (a := a) action func, path, pass, fail =>
      -- the block around `(*pcore)(sub_pass, fail)`
      tryCatch
        (action.core (path ++ [.action])
          (fun v => callBlock a
            (.log (.called path) ((func v).core (path ++ [.body]) pass fail)) fail)
          fail)
        fail
  | .catching action catches handler, path, pass, fail =>
      action.core (path ++ [.action]) pass fun x =>
        if catches x then
          tryCatch (.log (.handled path x) ((handler x).core (path ++ [.body]) pass fail)) fail
        else fail x

/-- The call of a function and of the `core` it returned. -/
def Body.core {t : Ty} : Body V X t → Path → (Val V t → Run (Event V X) X) →
    (X → Run (Event V X) X) → Run (Event V X) X
  | .throws x, _, _, _ => .raised x
  | .returns io, path, pass, fail => io.core path pass fail

end

/-- Whether an event completes the run. -/
def Event.completes : Event V X → Bool
  | .passed _ => true
  | .failed _ => true
  | _         => false

/-- What shows, with the flag that lets only the first completion through. -/
def observe (completed : Bool) : Run (Event V X) X → List (Event V X)
  | .done     => []
  | .raised x => [.escaped x]
  | .later r  => observe completed r
  | .log ev r =>
      if ev.completes then
        if completed then observe completed r else ev :: observe true r
      else ev :: observe completed r

/-- `run`. -/
def Expr.run (e : Expr V X t) : List (Event V X) :=
  let fail := fun x => .log (.failed x) .done
  observe false (tryCatch (e.core [] (fun v => .log (.passed v) .done) fail) fail)

/-! ## The specification -/

mutual

/-- The exception monad: what is done on the way (`none`: a return to the event
    loop) and the outcome. -/
def Expr.monad {t : Ty} : Expr V X t → Path → List (Option (Event V X)) × Except X (Val V t)
  | .lift v, _ => ([], .ok v)
  | .prim later outcome, _ => (if later then [none] else [], outcome)
  | .andThen action func, path =>
      match action.monad (path ++ [.action]) with
      | (ms, .error x) => (ms, .error x)
      | (ms, .ok v)    =>
          let r := (func v).monad (path ++ [.body])
          (ms ++ some (.called path) :: r.1, r.2)
  | .catching action catches handler, path =>
      match action.monad (path ++ [.action]) with
      | (ms, .ok v)    => (ms, .ok v)
      | (ms, .error x) =>
          if catches x then
            let r := (handler x).monad (path ++ [.body])
            (ms ++ some (.handled path x) :: r.1, r.2)
          else (ms, .error x)

/-- A function that throws ends in its exception. -/
def Body.monad {t : Ty} : Body V X t → Path → List (Option (Event V X)) × Except X (Val V t)
  | .throws x, _ => ([], .error x)
  | .returns io, path => io.monad path

end

/-- The completion that belongs to an outcome. -/
def completion : Except X (Val V t) → Event V X
  | .ok v    => .passed v
  | .error x => .failed x

/-- What the monad shows. -/
def Expr.monadLog (e : Expr V X t) : List (Event V X) :=
  (e.monad []).1.filterMap id ++ [completion (e.monad []).2]

/-- Whether an event is the call of the function at `path`. -/
def Event.calls (path : Path) : Event V X → Bool
  | .called p => p = path
  | _         => false

/-- Whether an event is an escape. -/
def Event.escapes : Event V X → Bool
  | .escaped _ => true
  | _          => false

/-- The run of an expression is that of the monad: exceptions go where the monad
    sends them, one completion is called once, each function at most once, and
    nothing escapes. -/
structure Lawful (e : Expr V X t) : Prop where
  delivers  : e.run = e.monadLog
  completes : e.run.countP Event.completes = 1
  calls     : ∀ path, e.run.countP (Event.calls path) ≤ 1
  contained : e.run.countP Event.escapes = 0

/-! ## Which block meets an exception -/

/-- Whether the marks return to the event loop. -/
def goesLater (ms : List (Option (Event V X))) : Bool := ms.any Option.isNone

/-- The innermost block when the function of a `then` is called, by the exceptions
    that the `catching`s between that block and the failure of the `then` catch;
    `none` is the event loop.  `inner` is the block the action leaves, if any. -/
def block (a : Ty) (later : Bool) (inner : Option (List (X → Bool))) :
    Option (List (X → Bool)) :=
  match a, inner with
  | .void, _        => some []
  | .value, some cs => some cs
  | .value, none    => if later then none else some []

/-- The block that what a function returned leaves, in a block `outer`. -/
def innermost (later : Bool) (inner outer : Option (List (X → Bool))) :
    Option (List (X → Bool)) :=
  match inner with
  | some cs => some cs
  | none    => if later then none else outer

mutual

/-- The innermost block inside an action when it passes its value. -/
def Expr.trap {t : Ty} : Expr V X t → Path → Option (List (X → Bool))
  | .lift _, _ => none
  | .prim _ _, _ => none
  | .andThen (a := a) action func, path =>
      match action.monad (path ++ [.action]) with
      | (_, .error _) => none
      | (ms, .ok v)   =>
          innermost (goesLater ((func v).monad (path ++ [.body])).1)
            ((func v).trap (path ++ [.body]))
            (block a (goesLater ms) (action.trap (path ++ [.action])))
  | .catching action catches handler, path =>
      match action.monad (path ++ [.action]) with
      | (_, .ok _)    => (action.trap (path ++ [.action])).map (· ++ [catches])
      | (_, .error x) =>
          innermost (goesLater ((handler x).monad (path ++ [.body])).1)
            ((handler x).trap (path ++ [.body])) (some [])

/-- The block inside what a function returned. -/
def Body.trap {t : Ty} : Body V X t → Path → Option (List (X → Bool))
  | .throws _, _ => none
  | .returns io, path => io.trap path

end

/-- The block leads an exception to the failure of the `then`: it is there, and no
    `catching` on the way catches it. -/
def Admits (b : Option (List (X → Bool))) (x : X) : Prop :=
  match b with
  | none    => False
  | some cs => ∀ c ∈ cs, c x = false

mutual

/-- Each exception that a function throws on the way meets the right block. -/
def Expr.WellCaught {t : Ty} : Expr V X t → Path → Prop
  | .lift _, _ => True
  | .prim _ _, _ => True
  | .andThen (a := a) action func, path =>
      action.WellCaught (path ++ [.action]) ∧
        match action.monad (path ++ [.action]) with
        | (_, .error _) => True
        | (ms, .ok v)   => (func v).WellCaught (path ++ [.body])
            (Admits (block a (goesLater ms) (action.trap (path ++ [.action]))))
  | .catching action catches handler, path =>
      action.WellCaught (path ++ [.action]) ∧
        match action.monad (path ++ [.action]) with
        | (_, .ok _)    => True
        | (_, .error x) => catches x = true →
            (handler x).WellCaught (path ++ [.body]) fun _ => True

/-- A function may throw what its block admits. -/
def Body.WellCaught {t : Ty} : Body V X t → Path → (X → Prop) → Prop
  | .throws x, _, admits => admits x
  | .returns io, path, _ => io.WellCaught path

end

/-! ## Induction over expressions -/

/-- A property of what a function returns. -/
def Body.Returns (P : ∀ {t : Ty}, Expr V X t → Prop) {t : Ty} : Body V X t → Prop
  | .throws _   => True
  | .returns io => P io

/-- The induction principle: functions and handlers by what they return. -/
theorem Expr.induct {P : ∀ {t : Ty}, Expr V X t → Prop}
    (lift : ∀ {t : Ty} (v : Val V t), P (.lift v))
    (prim : ∀ {t : Ty} (later : Bool) (outcome : Except X (Val V t)), P (.prim later outcome))
    (andThen : ∀ {a b : Ty} (action : Expr V X a) (func : Val V a → Body V X b),
      P action → (∀ v, (func v).Returns P) → P (.andThen action func))
    (catching : ∀ {t : Ty} (action : Expr V X t) (catches : X → Bool) (handler : X → Body V X t),
      P action → (∀ x, (handler x).Returns P) → P (.catching action catches handler)) :
    ∀ {t : Ty} (e : Expr V X t), P e := by
  intro t e
  refine @Expr.rec V X (fun _ e => P e) (fun _ b => b.Returns P) lift prim ?_ ?_ ?_ ?_ t e
  · intro a b action func hA hF
    exact andThen action func hA hF
  · intro t action catches handler hA hH
    exact catching action catches handler hA hH
  · intro t x
    exact True.intro
  · intro t io h
    exact h

/-! ## Where things happen -/

/-- Where an event of the code happens. -/
def Event.path : Event V X → Option Path
  | .called p    => some p
  | .handled p _ => some p
  | _            => none

/-- Events at or below `path`. -/
def Below (path : Path) (ev : Event V X) : Prop := ∃ p, ev.path = some p ∧ path <+: p

theorem Below.mono {path path' : Path} {ev : Event V X} (h : Below path' ev)
    (hp : path <+: path') : Below path ev := by
  obtain ⟨p, hev, hpre⟩ := h
  exact ⟨p, hev, hp.trans hpre⟩

/-- Nothing happens in the action and in the body. -/
theorem not_below_both {path : Path} {ev : Event V X} (h1 : Below (path ++ [Place.action]) ev)
    (h2 : Below (path ++ [Place.body]) ev) : False := by
  obtain ⟨p, hp, h1⟩ := h1
  obtain ⟨p', hp', h2⟩ := h2
  rw [hp] at hp'
  cases hp'
  have := List.prefix_of_prefix_length_le h1 h2 (by simp)
  rw [List.prefix_append_right_inj] at this
  simp at this

/-- Nothing happens at the expression and below one of its parts. -/
theorem not_below_self {path : Path} {place : Place} {ev : Event V X} (hev : ev.path = some path)
    (h : Below (path ++ [place]) ev) : False := by
  obtain ⟨p, hp, hpre⟩ := h
  rw [hev] at hp
  cases hp
  have hlen := hpre.length_le
  rw [List.length_append, List.length_singleton] at hlen
  omega

/-- The monad does what it does at or below the expression. -/
theorem Expr.below_monad (e : Expr V X t) :
    ∀ path ev, some ev ∈ (e.monad path).1 → Below path ev := by
  refine Expr.induct (P := fun e => ∀ path ev, some ev ∈ (e.monad path).1 → Below path ev)
    ?_ ?_ ?_ ?_ e
  · intro t v path ev h
    exact nomatch h
  · intro t later outcome path ev h
    cases later with
    | true => exact absurd (List.mem_singleton.mp h) (by simp)
    | false => exact nomatch h
  · intro a b action func ihA ihF path ev h
    have hA := ihA (path ++ [Place.action]) ev
    unfold Expr.monad at h
    cases hm : action.monad (path ++ [Place.action]) with
    | mk ms res =>
        rw [hm] at h hA
        cases res with
        | error x => exact (hA h).mono (List.prefix_append _ _)
        | ok v =>
            rcases List.mem_append.mp h with h | h
            · exact (hA h).mono (List.prefix_append _ _)
            · rcases List.mem_cons.mp h with h | h
              · cases h
                exact ⟨path, rfl, List.prefix_refl _⟩
              · cases hf : func v with
                | throws x =>
                    rw [hf] at h
                    exact nomatch h
                | returns io =>
                    have hio := ihF v
                    rw [hf] at h hio
                    have hbelow : Below (path ++ [Place.body]) ev := hio (path ++ [Place.body]) ev h
                    exact hbelow.mono (List.prefix_append _ _)
  · intro t action catches handler ihA ihH path ev h
    have hA := ihA (path ++ [Place.action]) ev
    unfold Expr.monad at h
    cases hm : action.monad (path ++ [Place.action]) with
    | mk ms res =>
        rw [hm] at h hA
        cases res with
        | ok v => exact (hA h).mono (List.prefix_append _ _)
        | error x =>
            simp only at h
            split at h
            · rcases List.mem_append.mp h with h | h
              · exact (hA h).mono (List.prefix_append _ _)
              · rcases List.mem_cons.mp h with h | h
                · cases h
                  exact ⟨path, rfl, List.prefix_refl _⟩
                · cases hf : handler x with
                  | throws y =>
                      rw [hf] at h
                      exact nomatch h
                  | returns io =>
                      have hio := ihH x
                      rw [hf] at h hio
                      have hbelow : Below (path ++ [Place.body]) ev :=
                        hio (path ++ [Place.body]) ev h
                      exact hbelow.mono (List.prefix_append _ _)
            · exact (hA h).mono (List.prefix_append _ _)

theorem Body.below_monad (body : Body V X t) (path : Path) (ev : Event V X)
    (h : some ev ∈ (body.monad path).1) : Below path ev := by
  cases body with
  | throws x => exact nomatch h
  | returns io => exact io.below_monad path ev h

section Parts

variable {path : Path} {ev ev' : Event V X} {ms ms' : List (Option (Event V X))}

/-- Of the marks of a whole, those below its action are the action's. -/
theorem mem_action_part (hev : ev.path = some path)
    (hms' : ∀ ev, some ev ∈ ms' → Below (path ++ [Place.body]) ev)
    (hb : Below (path ++ [Place.action]) ev') (hmem : some ev' ∈ ms ++ some ev :: ms') :
    some ev' ∈ ms := by
  rcases List.mem_append.mp hmem with hmem | hmem
  · exact hmem
  · rcases List.mem_cons.mp hmem with hmem | hmem
    · cases hmem
      exact (not_below_self hev hb).elim
    · exact (not_below_both hb (hms' ev' hmem)).elim

/-- Those below its body are the body's. -/
theorem mem_body_part (hev : ev.path = some path)
    (hms : ∀ ev, some ev ∈ ms → Below (path ++ [Place.action]) ev)
    (hb : Below (path ++ [Place.body]) ev') (hmem : some ev' ∈ ms ++ some ev :: ms') :
    some ev' ∈ ms' := by
  rcases List.mem_append.mp hmem with hmem | hmem
  · exact (not_below_both (hms ev' hmem) hb).elim
  · rcases List.mem_cons.mp hmem with hmem | hmem
    · cases hmem
      exact (not_below_self hev hb).elim
    · exact hmem

end Parts

/-! ## The code follows the monad -/

/-- The handler of a block: it is quiet, what no `catching` on the way catches goes
    to `fail`, and what one catches goes to a `catching` below `path` that the
    marks `ms` of the monad do not have. -/
structure Handler (path : Path) (ms : List (Option (Event V X))) (cs : List (X → Bool))
    (fail F : X → Run (Event V X) X) : Prop where
  quiet   : ∀ x, Quiet (F x)
  skips   : ∀ x, (∀ c ∈ cs, c x = false) → F x = fail x
  catches : ∀ x, (∃ c ∈ cs, c x = true) →
    ∃ p r, F x = .log (.handled p x) r ∧ path <+: p ∧ ∀ y, some (.handled p y) ∉ ms

/-- The run does `ms` and goes on as `r₁`, in the block `b`. -/
def InBlock (path : Path) (ms : List (Option (Event V X))) (b : Option (List (X → Bool)))
    (fail : X → Run (Event V X) X) (r r₁ : Run (Event V X) X) : Prop :=
  match b with
  | none    => r = plug ms r₁
  | some cs => ∃ F, Handler path ms cs fail F ∧ r = plug ms (tryCatch r₁ F)

/-- The run does what the monad does and then passes, in the block `b`, or fails. -/
def Follows (path : Path) (m : List (Option (Event V X)) × Except X (Val V t))
    (b : Option (List (X → Bool))) (pass : Val V t → Run (Event V X) X)
    (fail : X → Run (Event V X) X) (r : Run (Event V X) X) : Prop :=
  match m.2 with
  | .error x => r = plug m.1 (fail x)
  | .ok v    => InBlock path m.1 b fail r (pass v)

theorem goesLater_iff (ms : List (Option (Event V X))) : goesLater ms = true ↔ none ∈ ms := by
  unfold goesLater
  rw [List.any_eq_true]
  constructor
  · rintro ⟨m, hm, hnone⟩
    rwa [Option.isNone_iff_eq_none.mp hnone] at hm
  · intro h
    exact ⟨none, h, rfl⟩

theorem not_goesLater {ms : List (Option (Event V X))} (h : ¬ goesLater ms = true) : none ∉ ms :=
  fun hm => h ((goesLater_iff ms).mpr hm)

/-- The handler of one's own block. -/
theorem Handler.own (path : Path) (ms : List (Option (Event V X)))
    {fail : X → Run (Event V X) X} (hfail : ∀ x, Quiet (fail x)) :
    Handler path ms [] fail fail :=
  ⟨hfail, fun _ _ => rfl, fun _ h => by
    obtain ⟨c, hc, _⟩ := h
    exact nomatch hc⟩

/-- What the marks of a longer path add does not bring a `catching` of a shorter one. -/
theorem Handler.extend {path path' : Path} {ms ms' : List (Option (Event V X))}
    {cs : List (X → Bool)} {fail F : X → Run (Event V X) X} (h : Handler path' ms cs fail F)
    (hpath : path <+: path')
    (hms : ∀ ev, Below path' ev → some ev ∈ ms' → some ev ∈ ms) :
    Handler path ms' cs fail F := by
  refine ⟨h.quiet, h.skips, ?_⟩
  intro x hx
  obtain ⟨p, r, hF, hp, hnot⟩ := h.catches x hx
  refine ⟨p, r, hF, hpath.trans hp, fun y hy => hnot y ?_⟩
  exact hms _ ⟨p, rfl, hp⟩ hy

/-- A `catching` around the block takes its own exceptions out of `fail`. -/
theorem Handler.catching {path : Path} {ms : List (Option (Event V X))} {cs : List (X → Bool)}
    {fail F : X → Run (Event V X) X} {catches : X → Bool} {caught : X → Run (Event V X) X}
    (hbelow : ∀ ev, some ev ∈ ms → Below (path ++ [Place.action]) ev)
    (h : Handler (path ++ [Place.action]) ms cs
      (fun x => if catches x then tryCatch (.log (.handled path x) (caught x)) fail else fail x) F) :
    Handler path ms (cs ++ [catches]) fail F := by
  refine ⟨h.quiet, ?_, ?_⟩
  · intro x hx
    rw [h.skips x fun c hc => hx c (List.mem_append_left _ hc)]
    have hc : catches x = false := hx catches (by simp)
    exact if_neg (by simp [hc])
  · rintro x ⟨c, hc, hcx⟩
    by_cases hcs : ∃ c ∈ cs, c x = true
    · obtain ⟨p, r, hF, hp, hnot⟩ := h.catches x hcs
      exact ⟨p, r, hF, (List.prefix_append _ _).trans hp, hnot⟩
    · -- it is the new one that catches
      have hskip : ∀ c ∈ cs, c x = false := by
        intro c hc
        by_contra hne
        exact hcs ⟨c, hc, by simpa using hne⟩
      have hcx' : catches x = true := by
        rcases List.mem_append.mp hc with hc | hc
        · exact absurd ⟨c, hc, hcx⟩ hcs
        · rwa [List.mem_singleton.mp hc] at hcx
      refine ⟨path, tryCatch (caught x) fail, ?_, List.prefix_refl _, ?_⟩
      · rw [h.skips x hskip]
        exact if_pos hcx'
      · intro y hy
        exact not_below_self rfl (hbelow _ hy)

/-- One's own block admits everything. -/
theorem Body.wellCaught_own (body : Body V X t) {path : Path} :
    body.WellCaught path (Admits (some [])) ↔ body.WellCaught path fun _ => True := by
  cases body with
  | returns io => exact Iff.rfl
  | throws x =>
      refine iff_of_true ?_ True.intro
      intro c hc
      exact nomatch hc

section Follow

variable {path : Path} {ms : List (Option (Event V X))} {fail : X → Run (Event V X) X}

/-- `then`: its function is called in the block `block` says. -/
theorem inBlock_then {a : Ty} {b : Option (List (X → Bool))} {r r₁ : Run (Event V X) X}
    (hfail : ∀ x, Quiet (fail x)) (h : InBlock path ms b fail r (callBlock a r₁ fail)) :
    InBlock path ms (block a (goesLater ms) b) fail (tryCatch r fail) r₁ := by
  cases a with
  | void =>
      refine ⟨fail, Handler.own path ms hfail, ?_⟩
      cases b with
      | none =>
          rw [show r = plug ms (tryCatch r₁ fail) from h]
          exact tryCatch_plug_tryCatch ms r₁ fail hfail
      | some cs =>
          obtain ⟨F, hF, hr⟩ := h
          rw [hr, tryCatch_plug_tryCatch ms _ fail hF.quiet]
          exact congrArg (plug ms) (tryCatch_tryCatch r₁ F hfail)
  | value =>
      cases b with
      | none =>
          have hr : r = plug ms r₁ := h
          unfold block
          by_cases hl : goesLater ms = true
          · rw [if_pos hl, hr]
            exact tryCatch_plug_later r₁ fail ((goesLater_iff ms).mp hl)
          · rw [if_neg hl, hr]
            exact ⟨fail, Handler.own path ms hfail,
              tryCatch_plug_sync r₁ fail (not_goesLater hl)⟩
      | some cs =>
          obtain ⟨F, hF, hr⟩ := h
          refine ⟨F, hF, ?_⟩
          rw [hr]
          exact tryCatch_plug_tryCatch ms r₁ fail hF.quiet

/-- What a function or handler returned follows the monad, when it is called in a
    block that admits what it throws. -/
theorem follows_body {ev : Event V X} {b : Option (List (X → Bool))} {body : Body V X t}
    {pass : Val V t → Run (Event V X) X} {r : Run (Event V X) X}
    (hfail : ∀ x, Quiet (fail x)) (hev : ev.path = some path)
    (hms : ∀ ev, some ev ∈ ms → Below (path ++ [Place.action]) ev)
    (hbody : body.WellCaught (path ++ [Place.body]) (Admits b))
    (ih : ∀ io, body = .returns io → Follows (path ++ [Place.body])
      (io.monad (path ++ [Place.body])) (io.trap (path ++ [Place.body])) pass fail (io.core (path ++ [Place.body]) pass fail))
    (h : InBlock (path ++ [Place.action]) ms b fail r
      (.log ev (body.core (path ++ [Place.body]) pass fail))) :
    Follows path (ms ++ some ev :: (body.monad (path ++ [Place.body])).1,
        (body.monad (path ++ [Place.body])).2)
      (innermost (goesLater (body.monad (path ++ [Place.body])).1)
        (body.trap (path ++ [Place.body])) b) pass fail r := by
  cases body with
  | throws x =>
      -- the block is there and hands the exception to `fail`
      cases b with
      | none => exact hbody.elim
      | some cs =>
          obtain ⟨F, hF, hr⟩ := h
          show r = plug (ms ++ [some ev]) (fail x)
          rw [hr, plug_append, ← hF.skips x hbody]
          rfl
  | returns io =>
      have hio := ih io rfl
      have hbelow := io.below_monad (path ++ [Place.body])
      show Follows path (ms ++ some ev :: (io.monad (path ++ [Place.body])).1,
        (io.monad (path ++ [Place.body])).2)
        (innermost (goesLater (io.monad (path ++ [Place.body])).1)
          (io.trap (path ++ [Place.body])) b) pass fail r
      have h' : InBlock (path ++ [Place.action]) ms b fail r
        (.log ev (io.core (path ++ [Place.body]) pass fail)) := h
      revert hio hbelow
      generalize io.monad (path ++ [Place.body]) = m
      generalize io.trap (path ++ [Place.body]) = b'
      intro hio hbelow
      obtain ⟨ms', res⟩ := m
      have hplug (r' : Run (Event V X) X) :
          plug (ms ++ some ev :: ms') r' = plug ms (.log ev (plug ms' r')) :=
        plug_append ms (some ev :: ms') r'
      cases res with
      | error y =>
          have hcore : io.core (path ++ [Place.body]) pass fail = plug ms' (fail y) := hio
          show r = plug (ms ++ some ev :: ms') (fail y)
          rw [hcore] at h'
          rw [hplug]
          cases b with
          | none => exact h'
          | some cs =>
              obtain ⟨F, hF, hr⟩ := h'
              rw [hr]
              exact congrArg (plug ms) (tryCatch_plug_quiet (some ev :: ms') F (hfail y))
      | ok w =>
          cases b' with
          | some cs' =>
              obtain ⟨F', hF', hcore⟩ := hio
              refine ⟨F', ?_, ?_⟩
              · exact hF'.extend (List.prefix_append _ _) fun _ => mem_body_part hev hms
              · rw [hcore] at h'
                rw [hplug]
                cases b with
                | none => exact h'
                | some cs =>
                    obtain ⟨F, hF, hr⟩ := h'
                    rw [hr]
                    exact congrArg (plug ms)
                      (tryCatch_plug_tryCatch (some ev :: ms') (pass w) F hF'.quiet)
          | none =>
              have hcore : io.core (path ++ [Place.body]) pass fail = plug ms' (pass w) := hio
              rw [hcore] at h'
              show InBlock path (ms ++ some ev :: ms') (innermost (goesLater ms') none b) fail r
                (pass w)
              unfold innermost
              by_cases hl : goesLater ms' = true
              · rw [if_pos hl]
                show r = plug (ms ++ some ev :: ms') (pass w)
                rw [hplug]
                cases b with
                | none => exact h'
                | some cs =>
                    obtain ⟨F, hF, hr⟩ := h'
                    rw [hr]
                    exact congrArg (plug ms) (tryCatch_plug_later (pass w) F
                      (List.mem_cons_of_mem (some ev) ((goesLater_iff ms').mp hl)))
              · rw [if_neg hl]
                cases b with
                | none =>
                    show r = plug (ms ++ some ev :: ms') (pass w)
                    rw [hplug]
                    exact h'
                | some cs =>
                    obtain ⟨F, hF, hr⟩ := h'
                    refine ⟨F, ?_, ?_⟩
                    · exact hF.extend (List.prefix_append _ _) fun _ => mem_action_part hev hbelow
                    · have hnone : none ∉ some ev :: ms' := by
                        intro hm
                        rcases List.mem_cons.mp hm with hm | hm
                        · exact nomatch hm
                        · exact not_goesLater hl hm
                      rw [hr, hplug]
                      exact congrArg (plug ms) (tryCatch_plug_sync (pass w) F hnone)

end Follow

/-- The `sub_fail` of a `catching` is quiet. -/
theorem quiet_subFail {fail : X → Run (Event V X) X} (path : Path) (catches : X → Bool)
    (handler : X → Body V X t) (pass : Val V t → Run (Event V X) X)
    (hfail : ∀ x, Quiet (fail x)) (x : X) :
    Quiet (if catches x then
      tryCatch (.log (.handled path x) ((handler x).core (path ++ [Place.body]) pass fail)) fail
      else fail x) := by
  split
  · exact quiet_tryCatch _ hfail
  · exact hfail x

/-- **RUN**: the code of a well-caught expression follows the monad. -/
theorem Expr.core_follows (e : Expr V X t) : ∀ path (pass : Val V t → Run (Event V X) X)
    (fail : X → Run (Event V X) X), (∀ x, Quiet (fail x)) → e.WellCaught path →
    Follows path (e.monad path) (e.trap path) pass fail (e.core path pass fail) := by
  refine Expr.induct (P := fun {t} e => ∀ path (pass : Val V t → Run (Event V X) X)
    (fail : X → Run (Event V X) X), (∀ x, Quiet (fail x)) → e.WellCaught path →
    Follows path (e.monad path) (e.trap path) pass fail (e.core path pass fail)) ?_ ?_ ?_ ?_ e
  · intro t v path pass fail _ _
    exact rfl
  · intro t later outcome path pass fail _ _
    cases later <;> cases outcome <;> exact rfl
  · intro a b action func ihA ihF path pass fail hfail hw
    have hA := ihA (path ++ [Place.action])
      (fun v => callBlock a
        (.log (.called path) ((func v).core (path ++ [Place.body]) pass fail)) fail) fail hfail hw.1
    have hbelow := action.below_monad (path ++ [Place.action])
    have hbody := hw.2
    unfold Expr.monad Expr.trap Expr.core
    revert hA hbelow hbody
    generalize action.monad (path ++ [Place.action]) = m
    obtain ⟨ms, res⟩ := m
    intro hA hbelow hbody
    cases res with
    | error x =>
        have hcore : action.core (path ++ [Place.action]) _ fail = plug ms (fail x) := hA
        show tryCatch _ fail = plug ms (fail x)
        rw [hcore]
        exact tryCatch_plug_quiet ms fail (hfail x)
    | ok v =>
        have hbody' : (func v).WellCaught (path ++ [Place.body])
          (Admits (block a (goesLater ms) (action.trap (path ++ [Place.action])))) := hbody
        refine follows_body hfail rfl hbelow hbody' ?_ (inBlock_then hfail hA)
        intro io hio
        have hF := ihF v
        rw [hio] at hF hbody'
        exact hF (path ++ [Place.body]) pass fail hfail hbody'
  · intro t action catches handler ihA ihH path pass fail hfail hw
    have hsub := quiet_subFail path catches handler pass hfail
    have hA := ihA (path ++ [Place.action]) pass _ hsub hw.1
    have hbelow := action.below_monad (path ++ [Place.action])
    have hbody := hw.2
    unfold Expr.monad Expr.trap Expr.core
    revert hA hbelow hbody
    generalize action.monad (path ++ [Place.action]) = m
    generalize action.trap (path ++ [Place.action]) = b
    obtain ⟨ms, res⟩ := m
    intro hA hbelow hbody
    cases res with
    | ok v =>
        cases b with
        | none => exact hA
        | some cs =>
            obtain ⟨F, hF, hcore⟩ := hA
            exact ⟨F, hF.catching hbelow, hcore⟩
    | error x =>
        have hcore : action.core (path ++ [Place.action]) pass _ = plug ms _ := hA
        rw [hcore]
        by_cases hx : catches x = true
        · simp only [if_pos hx]
          refine follows_body hfail rfl hbelow (b := some []) ?_ ?_
            ⟨fail, Handler.own _ ms hfail, rfl⟩
          · exact (handler x).wellCaught_own.mpr (hbody hx)
          · intro io hio
            have hH := ihH x
            have hw := hbody hx
            rw [hio] at hH hw
            exact hH (path ++ [Place.body]) pass fail hfail hw
        · simp only [if_neg hx]
          exact rfl

end EvIo
