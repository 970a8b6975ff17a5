import Mathlib.Data.List.Nodup
import Clboss.EvIoProofs

/-! # When `Ev::Io` is a lawful exception monad

    A well-caught expression runs as the monad does (`core_follows`), so its run
    has what the monad's log has: one completion, no function called twice,
    nothing escaped.  An expression that is NOT well caught strays: its run lets
    an exception escape, or enters a `catching` that the monad does not enter.
    Together they are `lawful_iff`. -/

namespace EvIo

open Callback

variable {V X : Type} {t : Ty}

/-! ## What the monad's log has -/

theorem Below.not_completes {path : Path} {ev : Event V X} (h : Below path ev) :
    ev.completes = false := by
  obtain ⟨p, hp, _⟩ := h
  cases ev with
  | called p' => rfl
  | handled p' x => rfl
  | passed v => exact nomatch hp
  | failed x => exact nomatch hp
  | escaped x => rfl

theorem Below.not_escapes {path : Path} {ev : Event V X} (h : Below path ev) :
    ev.escapes = false := by
  obtain ⟨p, hp, _⟩ := h
  cases ev with
  | escaped x => exact nomatch hp
  | _ => rfl

/-- Where the marks of the monad happen. -/
def markPath (m : Option (Event V X)) : Option Path := m.bind Event.path

/-- A place in the marks of the monad is at or below the expression. -/
theorem Expr.path_markPath {e : Expr V X t} {path p : Path}
    (h : p ∈ (e.monad path).1.filterMap markPath) : path <+: p := by
  obtain ⟨m, hm, hp⟩ := List.mem_filterMap.mp h
  cases m with
  | none => exact nomatch hp
  | some ev =>
      obtain ⟨p', hp', hpre⟩ := e.below_monad path ev hm
      have hp : ev.path = some p := hp
      rw [hp'] at hp
      cases hp
      exact hpre

/-- A path below the action is not below the body. -/
theorem not_prefix_both {path p : Path} (h1 : path ++ [Place.action] <+: p)
    (h2 : path ++ [Place.body] <+: p) : False := by
  have hA : Below (path ++ [Place.action]) (Event.called (V := Unit) (X := Unit) p) := ⟨p, rfl, h1⟩
  exact not_below_both hA ⟨p, rfl, h2⟩

/-- The marks of an action, of its parent and of a body happen at different places. -/
theorem nodup_parts {path : Path} {ev : Event V X} {a : Ty} {action : Expr V X a}
    {body : Body V X t} (hev : ev.path = some path)
    (hA : ((action.monad (path ++ [Place.action])).1.filterMap markPath).Nodup)
    (hB : body.Returns fun e => ∀ path, ((e.monad path).1.filterMap markPath).Nodup) :
    (((action.monad (path ++ [Place.action])).1 ++
      some ev :: (body.monad (path ++ [Place.body])).1).filterMap markPath).Nodup := by
  have hself {place : Place} : ¬ path ++ [place] <+: path :=
    fun h => not_below_self hev ⟨path, hev, h⟩
  have hmark : markPath (some ev) = some path := hev
  rw [List.filterMap_append, List.filterMap_cons_some hmark, List.nodup_append]
  cases body with
  | throws x =>
      refine ⟨hA, List.nodup_cons.mpr ⟨List.not_mem_nil, List.nodup_nil⟩, ?_⟩
      rintro p hp q hq rfl
      cases List.mem_singleton.mp hq
      exact hself (Expr.path_markPath hp)
  | returns io =>
      refine ⟨hA, List.nodup_cons.mpr ⟨fun h => hself (Expr.path_markPath h), hB _⟩, ?_⟩
      rintro p hp q hq rfl
      rcases List.mem_cons.mp hq with rfl | hq
      · exact hself (Expr.path_markPath hp)
      · exact not_prefix_both (Expr.path_markPath hp) (Expr.path_markPath hq)

/-- In the monad nothing happens twice at one place. -/
theorem Expr.nodup_monad (e : Expr V X t) :
    ∀ path, ((e.monad path).1.filterMap markPath).Nodup := by
  refine Expr.induct (P := fun e => ∀ path, ((e.monad path).1.filterMap markPath).Nodup)
    ?_ ?_ ?_ ?_ e
  · intro t v path
    exact List.nodup_nil
  · intro t later outcome path
    cases later <;> exact List.nodup_nil
  · intro a b action func ihA ihF path
    have hA := ihA (path ++ [Place.action])
    have hparts (v : Val V a) := nodup_parts (show (Event.called path).path = some path from rfl)
      hA (ihF v)
    unfold Expr.monad
    revert hA hparts
    generalize action.monad (path ++ [Place.action]) = m
    obtain ⟨ms, res⟩ := m
    intro hA hparts
    cases res with
    | error x => exact hA
    | ok v => exact hparts v
  · intro t action catches handler ihA ihH path
    have hA := ihA (path ++ [Place.action])
    have hparts (x : X) := nodup_parts (show (Event.handled path x).path = some path from rfl)
      hA (ihH x)
    unfold Expr.monad
    revert hA hparts
    generalize action.monad (path ++ [Place.action]) = m
    obtain ⟨ms, res⟩ := m
    intro hA hparts
    cases res with
    | ok v => exact hA
    | error x =>
        by_cases hx : catches x = true
        · simp only [if_pos hx]
          exact hparts x
        · simp only [if_neg hx]
          exact hA

/-- An event on the way to the outcome is a mark. -/
theorem mem_marks {ms : List (Option (Event V X))} {ev : Event V X}
    (h : ev ∈ ms.filterMap id) : some ev ∈ ms := by
  obtain ⟨m, hm, hev⟩ := List.mem_filterMap.mp h
  rwa [show m = some ev from hev] at hm

/-- The monad's log has ONE completion, its last event. -/
theorem Expr.completes_monadLog (e : Expr V X t) :
    e.monadLog.countP Event.completes = 1 := by
  have hmarks : ((e.monad []).1.filterMap id).countP Event.completes = 0 := by
    refine List.countP_eq_zero.mpr ?_
    intro ev hev
    simp [(e.below_monad [] ev (mem_marks hev)).not_completes]
  unfold Expr.monadLog
  rw [List.countP_append, hmarks]
  cases (e.monad []).2 <;> rfl

/-- Nothing escapes in the monad's log. -/
theorem Expr.escapes_monadLog (e : Expr V X t) :
    e.monadLog.countP Event.escapes = 0 := by
  refine List.countP_eq_zero.mpr ?_
  intro ev hev
  rcases List.mem_append.mp hev with hev | hev
  · simp [(e.below_monad [] ev (mem_marks hev)).not_escapes]
  · rw [List.mem_singleton.mp hev]
    cases (e.monad []).2 <;> simp [completion, Event.escapes]

/-- No event of a list calls the function at `path` twice when no mark's place is there twice. -/
theorem countP_calls_le (ms : List (Option (Event V X))) (path : Path) :
    (ms.filterMap id).countP (Event.calls path) ≤ (ms.filterMap markPath).count path := by
  induction ms with
  | nil => exact Nat.le_refl 0
  | cons m ms ih =>
      cases m with
      | none => exact ih
      | some ev =>
          cases ev with
          | called p =>
              show List.countP _ (.called p :: ms.filterMap id) ≤
                List.count path (p :: ms.filterMap markPath)
              rw [List.countP_cons, List.count_cons]
              by_cases hp : p = path
              · simpa [Event.calls, hp] using ih
              · simpa [Event.calls, hp] using ih
          | handled p x =>
              show List.countP _ (ms.filterMap id) ≤ List.count path (p :: ms.filterMap markPath)
              rw [List.count_cons]
              omega
          | passed v => exact ih
          | failed x => exact ih
          | escaped x => exact ih

/-- The monad's log calls each function at most once. -/
theorem Expr.calls_monadLog (e : Expr V X t) (path : Path) :
    e.monadLog.countP (Event.calls path) ≤ 1 := by
  have hmarks := countP_calls_le (e.monad []).1 path
  have honce := List.nodup_iff_count_le_one.mp (e.nodup_monad []) path
  have hlast : [completion (e.monad []).2].countP (Event.calls path) = 0 := by
    cases (e.monad []).2 <;> rfl
  unfold Expr.monadLog
  rw [List.countP_append, hlast]
  omega

/-! ## A well-caught expression -/

/-- Marks show, and complete nothing. -/
theorem observe_plug {path : Path} {ms : List (Option (Event V X))} (r : Run (Event V X) X)
    (hms : ∀ ev, some ev ∈ ms → Below path ev) :
    observe false (plug ms r) = ms.filterMap id ++ observe false r := by
  induction ms with
  | nil => rfl
  | cons m ms ih =>
      have ih := ih fun ev hev => hms ev (List.mem_cons_of_mem _ hev)
      cases m with
      | none => exact ih
      | some ev =>
          have hev : ev.completes = false := (hms ev (List.mem_cons_self ..)).not_completes
          show (if ev.completes then _ else ev :: observe false (plug ms r)) = _
          rw [hev, ih]
          rfl

/-- Around a completion a block does nothing, whichever it is. -/
theorem Follows.eq_plug {path : Path} {m : List (Option (Event V X)) × Except X (Val V t)}
    {b : Option (List (X → Bool))} {r : Run (Event V X) X}
    (h : Follows path m b (fun v => .log (.passed v) .done) (fun x => .log (.failed x) .done) r) :
    r = plug m.1 (.log (completion m.2) .done) := by
  obtain ⟨ms, res⟩ := m
  cases res with
  | error x => exact h
  | ok v =>
      cases b with
      | none => exact h
      | some cs =>
          obtain ⟨F, _, hr⟩ := h
          exact hr

/-- A well-caught expression runs as the monad does. -/
theorem Expr.run_eq_monadLog {e : Expr V X t} (h : e.WellCaught []) : e.run = e.monadLog := by
  have hcore := (e.core_follows [] (fun v => .log (.passed v) .done)
    (fun x => .log (.failed x) .done) (fun _ => True.intro) h).eq_plug
  show observe false (tryCatch (e.core [] (fun v => .log (.passed v) .done)
    fun x => .log (.failed x) .done) fun x => .log (.failed x) .done) = _
  have hquiet : Quiet (Run.log (completion (e.monad []).2) (.done : Run (Event V X) X)) :=
    True.intro
  rw [hcore, tryCatch_plug_quiet _ _ hquiet, observe_plug _ (e.below_monad [])]
  unfold Expr.monadLog
  cases (e.monad []).2 <;> rfl

/-- A run of the monad is lawful. -/
theorem Lawful.of_delivers {e : Expr V X t} (h : e.run = e.monadLog) : Lawful e where
  delivers  := h
  completes := by rw [h]; exact e.completes_monadLog
  calls     := fun path => by rw [h]; exact e.calls_monadLog path
  contained := by rw [h]; exact e.escapes_monadLog

/-! ## An expression that is not well caught -/

/-- The run lets an exception escape, or enters a `catching` below `path` that the
    marks `ms` of the monad do not have. -/
def Strays (path : Path) (ms : List (Option (Event V X))) (r : Run (Event V X) X) : Prop :=
  Escapes r ∨ ∃ p x, .handled p x ∈ logs r ∧ path <+: p ∧ ∀ y, some (.handled p y) ∉ ms

section Stray

variable {path : Path} {ms : List (Option (Event V X))} {r : Run (Event V X) X}

theorem Strays.tryCatch (h : Strays path ms r) (f : X → Run (Event V X) X) :
    Strays path ms (Callback.tryCatch r f) := by
  rcases h with h | ⟨p, x, hmem, hp, hnot⟩
  · exact .inl (escapes_tryCatch f h)
  · exact .inr ⟨p, x, mem_logs_tryCatch f hmem, hp, hnot⟩

theorem Strays.plug (h : Strays path ms r) (ms' : List (Option (Event V X))) :
    Strays path ms (Callback.plug ms' r) := by
  rcases h with h | ⟨p, x, hmem, hp, hnot⟩
  · exact .inl (escapes_plug ms' h)
  · refine .inr ⟨p, x, ?_, hp, hnot⟩
    rw [logs_plug]
    exact List.mem_append_right _ hmem

/-- Marks from elsewhere do not bring the `catching` back. -/
theorem Strays.extend {path' : Path} {ms' : List (Option (Event V X))} (h : Strays path' ms r)
    (hpath : path <+: path') (hms : ∀ ev, Below path' ev → some ev ∈ ms' → some ev ∈ ms) :
    Strays path ms' r := by
  rcases h with h | ⟨p, x, hmem, hp, hnot⟩
  · exact .inl h
  · exact .inr ⟨p, x, hmem, hpath.trans hp, fun y hy => hnot y (hms _ ⟨p, rfl, hp⟩ hy)⟩

/-- What a function or handler does strays, if its block does not admit what it
    throws or if what it returned strays. -/
theorem strays_body {ev : Event V X} {b : Option (List (X → Bool))} {body : Body V X t}
    {pass : Val V t → Run (Event V X) X} {fail : X → Run (Event V X) X}
    (hev : ev.path = some path) (hms : ∀ ev, some ev ∈ ms → Below (path ++ [Place.action]) ev)
    (hlater : b = none → none ∈ ms) (hbody : ¬ body.WellCaught (path ++ [Place.body]) (Admits b))
    (ih : ∀ io, body = .returns io → Strays (path ++ [Place.body])
      (io.monad (path ++ [Place.body])).1 (io.core (path ++ [Place.body]) pass fail))
    (h : InBlock (path ++ [Place.action]) ms b fail r
      (.log ev (body.core (path ++ [Place.body]) pass fail))) :
    Strays path (ms ++ some ev :: (body.monad (path ++ [Place.body])).1) r := by
  cases body with
  | returns io =>
      have hio : Strays path (ms ++ some ev :: (io.monad (path ++ [Place.body])).1)
          (.log ev (io.core (path ++ [Place.body]) pass fail)) :=
        ((ih io rfl).plug [some ev]).extend (List.prefix_append _ _) fun _ => mem_body_part hev hms
      cases b with
      | none =>
          rw [show r = Callback.plug ms (.log ev (io.core (path ++ [Place.body]) pass fail)) from h]
          exact hio.plug ms
      | some cs =>
          obtain ⟨F, _, hr⟩ := h
          rw [hr]
          exact (hio.tryCatch F).plug ms
  | throws x =>
      cases b with
      | none =>
          -- the event loop called: nothing is there to catch it
          rw [show r = Callback.plug ms (.log ev (.raised x)) from h]
          exact .inl (escapes_plug_later (hlater rfl) fun hq => hq)
      | some cs =>
          -- a `catching` inside the action gets it
          obtain ⟨F, hF, hr⟩ := h
          have hcs : ∃ c ∈ cs, c x = true := by
            by_contra hne
            refine hbody fun c hc => ?_
            exact Bool.eq_false_iff.mpr fun hcx => hne ⟨c, hc, hcx⟩
          obtain ⟨p, r', hFx, hp, hnot⟩ := hF.catches x hcs
          have hstray : Strays (path ++ [Place.action]) ms (F x) := by
            refine .inr ⟨p, x, ?_, hp, hnot⟩
            rw [hFx]
            exact List.mem_cons_self ..
          have hrun : r = Callback.plug (ms ++ [some ev]) (F x) := by
            rw [hr, plug_append]
            rfl
          rw [hrun]
          refine (hstray.plug _).extend (List.prefix_append _ _) fun _ => mem_action_part hev ?_
          intro ev' hev'
          exact nomatch hev'

end Stray

/-- No block is left only when the event loop called. -/
theorem goesLater_of_block {a : Ty} {later : Bool} {inner : Option (List (X → Bool))}
    (h : block a later inner = none) : later = true := by
  cases a with
  | void => exact nomatch h
  | value =>
      cases inner with
      | some cs => exact nomatch h
      | none =>
          cases later with
          | true => rfl
          | false => exact nomatch h

/-- **RUN**: the code of an expression that is not well caught strays. -/
theorem Expr.core_strays (e : Expr V X t) : ∀ path (pass : Val V t → Run (Event V X) X)
    (fail : X → Run (Event V X) X), (∀ x, Quiet (fail x)) → ¬ e.WellCaught path →
    Strays path (e.monad path).1 (e.core path pass fail) := by
  refine Expr.induct (P := fun {t} e => ∀ path (pass : Val V t → Run (Event V X) X)
    (fail : X → Run (Event V X) X), (∀ x, Quiet (fail x)) → ¬ e.WellCaught path →
    Strays path (e.monad path).1 (e.core path pass fail)) ?_ ?_ ?_ ?_ e
  · intro t v path pass fail _ hw
    exact absurd True.intro hw
  · intro t later outcome path pass fail _ hw
    exact absurd True.intro hw
  · intro a b action func ihA ihF path pass fail hfail hw
    have hbelow := action.below_monad (path ++ [Place.action])
    have hF (v : Val V a) := (func v).below_monad (path ++ [Place.body])
    by_cases hA : action.WellCaught (path ++ [Place.action])
    · have hfollow := action.core_follows (path ++ [Place.action])
        (fun v => callBlock a
          (.log (.called path) ((func v).core (path ++ [Place.body]) pass fail)) fail) fail hfail hA
      have hbody := fun h => hw ⟨hA, h⟩
      unfold Expr.monad Expr.core
      revert hfollow hbelow hbody
      generalize action.monad (path ++ [Place.action]) = m
      obtain ⟨ms, res⟩ := m
      intro hbelow hfollow hbody
      cases res with
      | error x => exact absurd True.intro hbody
      | ok v =>
          have hbody' : ¬ (func v).WellCaught (path ++ [Place.body])
            (Admits (block a (goesLater ms) (action.trap (path ++ [Place.action])))) := hbody
          refine strays_body rfl hbelow ?_ hbody' ?_ (inBlock_then hfail hfollow)
          · intro hnone
            exact (goesLater_iff ms).mp (goesLater_of_block hnone)
          · intro io hio
            have hF := ihF v
            rw [hio] at hF hbody'
            exact hF (path ++ [Place.body]) pass fail hfail hbody'
    · have hstray := ihA (path ++ [Place.action])
        (fun v => callBlock a
          (.log (.called path) ((func v).core (path ++ [Place.body]) pass fail)) fail) fail hfail hA
      unfold Expr.monad Expr.core
      refine (hstray.tryCatch fail).extend (List.prefix_append _ _) ?_
      generalize action.monad (path ++ [Place.action]) = m
      obtain ⟨ms, res⟩ := m
      intro ev hb hmem
      cases res with
      | error x => exact hmem
      | ok v => exact mem_action_part rfl (hF v) hb hmem
  · intro t action catches handler ihA ihH path pass fail hfail hw
    have hsub := quiet_subFail path catches handler pass hfail
    have hbelow := action.below_monad (path ++ [Place.action])
    have hH (x : X) := (handler x).below_monad (path ++ [Place.body])
    by_cases hA : action.WellCaught (path ++ [Place.action])
    · have hfollow := action.core_follows (path ++ [Place.action]) pass _ hsub hA
      have hbody := fun h => hw ⟨hA, h⟩
      unfold Expr.monad Expr.core
      revert hfollow hbelow hbody
      generalize action.monad (path ++ [Place.action]) = m
      obtain ⟨ms, res⟩ := m
      intro hbelow hfollow hbody
      cases res with
      | ok v => exact absurd True.intro hbody
      | error x =>
          have hcore : action.core (path ++ [Place.action]) pass _ = plug ms _ := hfollow
          rw [hcore]
          have hx : catches x = true := by
            by_contra hx
            exact hbody fun h => absurd h hx
          have hbody' : ¬ (handler x).WellCaught (path ++ [Place.body]) fun _ => True :=
            fun h => hbody fun _ => h
          simp only [if_pos hx]
          refine strays_body rfl hbelow (b := some []) ?_ ?_ ?_
            ⟨fail, Handler.own _ ms hfail, rfl⟩
          · intro hnone
            cases hnone
          · exact fun h => hbody' ((handler x).wellCaught_own.mp h)
          · intro io hio
            have hH := ihH x
            rw [hio] at hH hbody'
            exact hH (path ++ [Place.body]) pass fail hfail hbody'
    · have hstray := ihA (path ++ [Place.action]) pass _ hsub hA
      unfold Expr.monad Expr.core
      refine hstray.extend (List.prefix_append _ _) ?_
      generalize action.monad (path ++ [Place.action]) = m
      obtain ⟨ms, res⟩ := m
      intro ev hb hmem
      cases res with
      | ok v => exact hmem
      | error x =>
          by_cases hx : catches x = true
          · simp only [if_pos hx] at hmem
            exact mem_action_part rfl (hH x) hb hmem
          · simp only [if_neg hx] at hmem
            exact hmem

/-! ## The law -/

/-- What is done shows, completions apart. -/
theorem mem_observe {r : Run (Event V X) X} {ev : Event V X} (hev : ev ∈ logs r)
    (hc : ev.completes = false) : ∀ completed, ev ∈ observe completed r := by
  induction r with
  | done => exact nomatch hev
  | raised x => exact nomatch hev
  | later r ih => exact ih hev
  | log ev' r ih =>
      intro completed
      unfold observe
      rcases List.mem_cons.mp hev with rfl | hev
      · rw [hc]
        exact List.mem_cons_self ..
      · split
        · split
          · exact ih hev completed
          · exact List.mem_cons_of_mem _ (ih hev true)
        · exact List.mem_cons_of_mem _ (ih hev completed)

/-- So does an exception that leaves the run. -/
theorem escaped_observe_of_not_quiet {r : Run (Event V X) X} (h : ¬ Quiet r) :
    ∀ completed, ∃ x, .escaped x ∈ observe completed r := by
  induction r with
  | done => exact absurd True.intro h
  | raised x => exact fun _ => ⟨x, List.mem_cons_self ..⟩
  | later r => exact absurd True.intro h
  | log ev r ih =>
      intro completed
      unfold observe
      split
      · split
        · exact ih h completed
        · exact (ih h true).imp fun _ => List.mem_cons_of_mem _
      · exact (ih h completed).imp fun _ => List.mem_cons_of_mem _

theorem escaped_observe {r : Run (Event V X) X} (h : Escapes r) :
    ∀ completed, ∃ x, .escaped x ∈ observe completed r := by
  induction r with
  | done => exact h.elim
  | raised x => exact h.elim
  | later r ih =>
      intro completed
      rcases h with h | h
      · exact ih h completed
      · obtain ⟨x, hx⟩ := escaped_observe_of_not_quiet h completed
        exact ⟨x, hx⟩
  | log ev r ih =>
      intro completed
      unfold observe
      split
      · split
        · exact ih h completed
        · exact (ih h true).imp fun _ => List.mem_cons_of_mem _
      · exact (ih h completed).imp fun _ => List.mem_cons_of_mem _

/-- A run that strays is not the monad's. -/
theorem Expr.run_ne_monadLog {e : Expr V X t} (h : ¬ e.WellCaught []) : e.run ≠ e.monadLog := by
  intro heq
  have hstray := (e.core_strays [] (fun v => .log (.passed v) .done)
    (fun x => .log (.failed x) .done) (fun _ => True.intro) h).tryCatch
      fun x => .log (.failed x) .done
  rcases hstray with hesc | ⟨p, x, hmem, _, hnot⟩
  · obtain ⟨x, hx⟩ := escaped_observe hesc false
    have hx : Event.escaped x ∈ e.monadLog := by
      rw [← heq]
      exact hx
    exact List.countP_eq_zero.mp e.escapes_monadLog _ hx rfl
  · have hx : Event.handled p x ∈ e.monadLog := by
      rw [← heq]
      exact mem_observe hmem rfl false
    rcases List.mem_append.mp hx with hx | hx
    · exact hnot x (mem_marks hx)
    · have hx := List.mem_singleton.mp hx
      cases hres : (e.monad []).2 with
      | ok v =>
          rw [hres] at hx
          exact nomatch hx
      | error y =>
          rw [hres] at hx
          exact nomatch hx

/-- **HEADLINE**: an expression runs lawfully EXACTLY WHEN it is well caught. -/
theorem lawful_iff (e : Expr V X t) : Lawful e ↔ e.WellCaught [] := by
  constructor
  · intro h
    by_contra hw
    exact Expr.run_ne_monadLog hw h.delivers
  · intro h
    exact Lawful.of_delivers (Expr.run_eq_monadLog h)

/-- `action.then(g)` where the value comes from the event loop and `g` throws. -/
def lateThrow : Expr Nat Nat .value :=
  .andThen (.prim (t := .value) true (.ok (0 : Nat))) fun _ => .throws 1

/-- `lift(0).then(f).catching(h).then(g)` where `g` throws. -/
def strayThrow : Expr Nat Nat .value :=
  .andThen
    (.catching (.andThen (.lift (t := .value) (0 : Nat)) fun v => .returns (.lift v))
      (fun _ => true) fun _ => .returns (.lift (t := .value) (2 : Nat)))
    fun _ => .throws 1

/-- The exception escapes to the event loop and NOTHING completes; or the handler
    inside the action gets it, and `g` runs twice. -/
theorem unlawful_strayThrow :
    lateThrow.run = [.called [], .escaped 1] ∧
      strayThrow.run = [.called [.action, .action], .called [], .handled [Place.action] 1,
        .called [], .failed 1] ∧
      ¬ Lawful lateThrow ∧ ¬ Lawful strayThrow := by
  have hlate : lateThrow.run = [.called [], .escaped 1] := rfl
  have hstray : strayThrow.run = [.called [.action, .action], .called [], .handled [Place.action] 1,
      .called [], .failed 1] := rfl
  refine ⟨hlate, hstray, ?_, ?_⟩
  · intro h
    have hc := h.contained
    rw [hlate] at hc
    exact absurd hc (by decide)
  · intro h
    have hc := h.calls []
    rw [hstray] at hc
    exact absurd hc (by decide)

end EvIo
