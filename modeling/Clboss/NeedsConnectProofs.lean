import Clboss.MachineProofs
import Mathlib.Data.List.Nodup
import Mathlib.Logic.Function.Basic

/-! # `NeedsConnectSolicitor` — two queues, and answers without an address

    A run solicits candidates, deals them onto two queues and asks for a connect
    to the front of each.  A response that names the node at a front moves that
    queue on: to the next candidate after a failure, to the end of the run after
    a success.

    A response carries the node and nothing else, so one that answers a request
    of an EARLIER run, or of another module, is taken for the run's own.  Some
    things survive this: a run ends once, is never stuck, and never asks for the
    same candidate twice.  Others do not: `OwnAnswers` is the condition under
    which a reported failure means that every candidate was tried, and under
    which no more than two requests are ever outstanding. -/

namespace NeedsConnectSolicitor

variable {N : Type}

/-! ## The module -/

/-- The two queues. -/
inductive Side where
  | one
  | two
deriving DecidableEq

/-- The other queue. -/
def Side.other : Side → Side
  | .one => .two
  | .two => .one

theorem Side.other_ne (side : Side) : side.other ≠ side := by
  cases side <;> decide

theorem Side.eq_other {side side' : Side} (h : side' ≠ side) : side' = side.other := by
  revert h
  cases side <;> cases side' <;> decide

/-- A greenthread of run `r`, by what it awaits: `solicit` its log line and the
    answers to the solicitation, `finish` and `fail` their log line and the
    completion. -/
inductive Task where
  | logging (r : Nat)
  | soliciting (r : Nat)
  | ending (r : Nat) (failed : Bool)
  | completing (r : Nat) (failed : Bool)
deriving DecidableEq

/-- What is shown: the candidates of a run, a connect request, a response with
    the run that asked for it (`none` for other modules), the completion. -/
inductive Out (N : Type) where
  | solicited (r : Nat) (deck : List N)
  | asked (r : Nat) (node : N)
  | answered (owner : Option Nat) (node : N) (success : Bool)
  | completed (r : Nat) (failed : Bool)
deriving DecidableEq

/-- The members, the number of runs so far, the greenthreads, and the connect
    requests not yet answered, with who asked. -/
structure State (N : Type) where
  candidates  : List N
  connects    : Side → List N
  running     : Bool
  offline     : Bool
  runs        : Nat
  tasks       : List Task
  outstanding : List (Option Nat × N)

/-- At the start. -/
def State.init : State N := ⟨[], fun _ => [], false, false, 0, [], []⟩

/-- What can happen next. -/
inductive Event (N : Type) where
  | init (offline : Bool)
  | needsConnect
  | proposeConnectCandidates (candidates : List N)
  /-- another module raises `RequestConnect` -/
  | requestConnect (node : N)
  /-- the `k`-th outstanding request is answered -/
  | responseConnect (k : Nat) (success : Bool)
  /-- the `k`-th greenthread goes on; a shuffle gives `deck` -/
  | task (k : Nat) (deck : List N)

/-- `fail`, and `finish` after the queues are cleared, up to the log line. -/
def State.stop (s : State N) (failed : Bool) : State N :=
  { s with running := false, tasks := s.tasks ++ [.ending s.runs failed] }

/-- `finish`. -/
def State.finish (s : State N) : State N := { s with connects := fun _ => [] }.stop false

/-- `bus.raise(RequestConnect)` for the front of a queue, if there is one. -/
def State.ask (s : State N) (side : Side) : State N × List (Out N) :=
  match (s.connects side).head? with
  | none      => (s, [])
  | some node =>
      ({ s with outstanding := s.outstanding ++ [(some s.runs, node)] }, [.asked s.runs node])

/-- The deck, distributed to the two queues. -/
def halves (deck : List N) : Side → List N
  | .one => deck.take (deck.length / 2)
  | .two => deck.drop (deck.length / 2)

section Module

variable [DecidableEq N]

/-- `candidates.insert`. -/
def State.propose (s : State N) (cs : List N) : State N :=
  { s with candidates := cs.foldl (fun acc c => acc.insert c) s.candidates }

/-- The last part of `solicit`. -/
def State.deal (s : State N) (deck : List N) : State N × List (Out N) :=
  if deck = [] then (s.stop true, [.solicited s.runs deck])
  else
    let dealt := { s with candidates := [], connects := halves deck }
    let first := dealt.ask .one
    let second := first.1.ask .two
    (second.1, .solicited s.runs deck :: (first.2 ++ second.2))

/-- `response_connect1` and `response_connect2`. -/
def State.responseConnect (s : State N) (side : Side) (success : Bool) : State N × List (Out N) :=
  if success then (s.finish, [])
  else
    let popped := { s with connects := Function.update s.connects side (s.connects side).tail }
    if popped.connects side = [] then
      if popped.connects side.other = [] then (popped.stop true, []) else (popped, [])
    else popped.ask side

/-- The handler of `ResponseConnect`. -/
def State.onResponse (s : State N) (node : N) (success : Bool) : State N × List (Out N) :=
  if s.running then
    if (s.connects .one).head? = some node then s.responseConnect .one success
    else if (s.connects .two).head? = some node then s.responseConnect .two success
    else (s, [])
  else (s, [])

/-- Resume a greenthread (already taken out of the pool). -/
def State.onTask (s : State N) (deck : List N) : Task → Option (State N × List (Out N))
  | .logging r => some ({ s with tasks := s.tasks ++ [.soliciting r] }, [])
  | .soliciting _ => if deck.Perm s.candidates then some (s.deal deck) else none
  | .ending r failed => some ({ s with tasks := s.tasks ++ [.completing r failed] }, [])
  | .completing r failed => some (s, [.completed r failed])

/-- One step. -/
def step (s : State N) : Event N → Option (State N × List (Out N))
  | .init offline => some ({ s with offline := offline }, [])
  | .needsConnect =>
      if s.offline || s.running then some (s, [])
      else some ({ s with
        running := true, runs := s.runs + 1, candidates := [], connects := fun _ => []
        tasks := s.tasks ++ [.logging (s.runs + 1)] }, [])
  | .proposeConnectCandidates cs => some (s.propose cs, [])
  | .requestConnect node =>
      some ({ s with outstanding := s.outstanding ++ [(none, node)] }, [])
  | .responseConnect k success => (s.outstanding[k]?).map (fun req =>
      let r := State.onResponse { s with outstanding := s.outstanding.eraseIdx k } req.2 success
      (r.1, .answered req.1 req.2 success :: r.2))
  | .task k deck =>
      (s.tasks[k]?).bind (State.onTask { s with tasks := s.tasks.eraseIdx k } deck)

/-- Runs from the start. -/
def run (es : List (Event N)) : Option (State N × List (Out N)) := Machine.run step State.init es

end Module

/-! ## What a step can do -/

/-- The run of a greenthread, and how it ends if that is settled. -/
def Task.kind : Task → Nat × Option Bool
  | .logging r | .soliciting r                   => (r, none)
  | .ending r failed | .completing r failed => (r, some failed)

/-- The fronts of both queues. -/
def fronts (connects : Side → List N) : List N :=
  (connects .one).head?.toList ++ (connects .two).head?.toList

/-- A response that moves a queue on answers a request of this run. -/
def OwnAnswers (s : State N) : Event N → Prop
  | .responseConnect k _ => ∀ req, s.outstanding[k]? = some req → s.running = true →
      req.2 ∈ fronts s.connects → req.1 = some s.runs
  | _                    => True

instance [DecidableEq N] (s : State N) (e : Event N) : Decidable (OwnAnswers s e) :=
  match e with
  | .responseConnect k _ =>
      match h : s.outstanding[k]? with
      | none     => isTrue (by simp [OwnAnswers, h])
      | some req => decidable_of_iff
          (s.running = true → req.2 ∈ fronts s.connects → req.1 = some s.runs)
          (by simp [OwnAnswers, h])
  | .init _ | .needsConnect | .proposeConnectCandidates _ | .requestConnect _ | .task _ _ =>
      isTrue trivial

section Change

variable [DecidableEq N]

/-- What a step can do; `own` is what is assumed of a response that moves a
    queue on. -/
inductive Change (own : Prop) (s : State N) : State N → List (Out N) → Prop where
  /-- greenthreads move within their run, candidates are proposed -/
  | quiet (cs : List N) (offline : Bool) (ts : List Task) (hcs : s.candidates.Nodup → cs.Nodup)
      (hk : (ts.map Task.kind).Perm (s.tasks.map Task.kind)) :
      Change own s { s with candidates := cs, offline := offline, tasks := ts } []
  | others (node : N) : Change own s { s with outstanding := s.outstanding ++ [(none, node)] } []
  | begun (h : s.running = false) : Change own s { s with
      running := true, runs := s.runs + 1, candidates := [], connects := fun _ => []
      tasks := s.tasks ++ [.logging (s.runs + 1)] } []
  | completed (r : Nat) (failed : Bool) (ts : List Task)
      (hk : (s.tasks.map Task.kind).Perm ((r, some failed) :: ts.map Task.kind)) :
      Change own s { s with tasks := ts } [.completed r failed]
  /-- the solicitation brings no candidates, or some -/
  | barren (r : Nat) (ts : List Task)
      (hk : (s.tasks.map Task.kind).Perm ((r, none) :: ts.map Task.kind)) :
      Change own s (State.stop { s with tasks := ts } true) [.solicited s.runs []]
  | dealt (r : Nat) (ts : List Task) (deck : List N) (hdeck : deck ≠ [])
      (hperm : deck.Perm s.candidates)
      (hk : (s.tasks.map Task.kind).Perm ((r, none) :: ts.map Task.kind)) :
      Change own s { s with
        candidates := [], connects := halves deck, tasks := ts
        outstanding := s.outstanding ++ (fronts (halves deck)).map (fun n => (some s.runs, n)) }
        (.solicited s.runs deck :: (fronts (halves deck)).map (.asked s.runs ·))
  /-- a response that names no front -/
  | ignored (k : Nat) (req : Option Nat × N) (success : Bool) (hreq : s.outstanding[k]? = some req)
      (hno : s.running = true → req.2 ∉ fronts s.connects) :
      Change own s { s with outstanding := s.outstanding.eraseIdx k }
        [.answered req.1 req.2 success]
  /-- one that does -/
  | finished (k : Nat) (req : Option Nat × N) (hreq : s.outstanding[k]? = some req)
      (hrun : s.running = true) (hfront : req.2 ∈ fronts s.connects)
      (hown : own → req.1 = some s.runs) :
      Change own s (State.finish { s with outstanding := s.outstanding.eraseIdx k })
        [.answered req.1 req.2 true]
  | advanced (k : Nat) (req : Option Nat × N) (side : Side) (node : N) (rest : List N)
      (hreq : s.outstanding[k]? = some req) (hrun : s.running = true)
      (hfront : s.connects side = req.2 :: node :: rest) (hown : own → req.1 = some s.runs) :
      Change own s { s with
        connects := Function.update s.connects side (node :: rest)
        outstanding := s.outstanding.eraseIdx k ++ [(some s.runs, node)] }
        [.answered req.1 req.2 false, .asked s.runs node]
  | drained (k : Nat) (req : Option Nat × N) (side : Side)
      (hreq : s.outstanding[k]? = some req) (hrun : s.running = true)
      (hfront : s.connects side = [req.2]) (hother : s.connects side.other ≠ [])
      (hown : own → req.1 = some s.runs) :
      Change own s { s with
        connects := Function.update s.connects side []
        outstanding := s.outstanding.eraseIdx k }
        [.answered req.1 req.2 false]
  | exhausted (k : Nat) (req : Option Nat × N) (side : Side)
      (hreq : s.outstanding[k]? = some req) (hrun : s.running = true)
      (hfront : s.connects side = [req.2]) (hother : s.connects side.other = [])
      (hown : own → req.1 = some s.runs) :
      Change own s (State.stop { s with
        connects := Function.update s.connects side []
        outstanding := s.outstanding.eraseIdx k } true)
        [.answered req.1 req.2 false]

omit [DecidableEq N] in
theorem mem_fronts {connects : Side → List N} {n : N} :
    n ∈ fronts connects ↔ ∃ side, (connects side).head? = some n := by
  unfold fronts
  rw [List.mem_append, Option.mem_toList, Option.mem_toList]
  constructor
  · rintro (h | h)
    · exact ⟨.one, h⟩
    · exact ⟨.two, h⟩
  · rintro ⟨side, h⟩
    cases side with
    | one => exact Or.inl h
    | two => exact Or.inr h

omit [DecidableEq N] in
/-- The deal asks for both fronts. -/
theorem ask_ask (s : State N) :
    ((s.ask .one).1.ask .two).1 = { s with
        outstanding := s.outstanding ++ (fronts s.connects).map (fun n => (some s.runs, n)) }
      ∧ (s.ask .one).2 ++ ((s.ask .one).1.ask .two).2
        = (fronts s.connects).map (.asked s.runs ·) := by
  unfold State.ask fronts
  cases (s.connects .one).head? with
  | none => cases (s.connects .two).head? <;> simp
  | some m => cases (s.connects .two).head? <;> simp

omit [DecidableEq N] in
/-- A response that names the front of a queue. -/
theorem responseConnect_change {s : State N} {k : Nat} {req : Option Nat × N} {side : Side}
    {success : Bool} {own : Prop} (hreq : s.outstanding[k]? = some req) (hrun : s.running = true)
    (hfront : (s.connects side).head? = some req.2) (hown : own → req.1 = some s.runs) :
    Change own s
      (State.responseConnect { s with outstanding := s.outstanding.eraseIdx k } side success).1
      (.answered req.1 req.2 success
        :: (State.responseConnect { s with outstanding := s.outstanding.eraseIdx k } side success).2)
      := by
  unfold State.responseConnect
  cases success with
  | true =>
      rw [if_pos rfl]
      exact Change.finished k req hreq hrun (mem_fronts.mpr ⟨side, hfront⟩) hown
  | false =>
      rw [if_neg Bool.false_ne_true]
      obtain ⟨tail, htail⟩ := List.head?_eq_some_iff.mp hfront
      simp only [htail, List.tail_cons, Function.update_self]
      cases tail with
      | nil =>
          rw [if_pos rfl]
          have hne : Function.update s.connects side [] side.other = s.connects side.other :=
            Function.update_of_ne side.other_ne _ _
          by_cases hother : s.connects side.other = []
          · rw [if_pos (hne.trans hother)]
            exact Change.exhausted k req side hreq hrun htail hother hown
          · rw [if_neg (fun h => hother (hne.symm.trans h))]
            exact Change.drained k req side hreq hrun htail hother hown
      | cons node rest =>
          rw [if_neg (List.cons_ne_nil _ _)]
          unfold State.ask
          simp only [Function.update_self, List.head?_cons]
          exact Change.advanced k req side node rest hreq hrun htail hown

/-- **INVERSION**: every step is one of these. -/
theorem step_change {s s' : State N} {e : Event N} {out : List (Out N)}
    (hs : step s e = some (s', out)) : Change (OwnAnswers s e) s s' out := by
  cases e with
  | init offline =>
      cases hs
      exact Change.quiet s.candidates offline s.tasks id (List.Perm.refl _)
  | needsConnect =>
      simp only [step] at hs
      split at hs
      · cases hs
        exact Change.quiet s.candidates s.offline s.tasks id (List.Perm.refl _)
      · rename_i hcond
        cases hs
        rw [Bool.not_eq_true, Bool.or_eq_false_iff] at hcond
        exact Change.begun hcond.2
  | proposeConnectCandidates cs =>
      cases hs
      refine Change.quiet _ s.offline s.tasks ?_ (List.Perm.refl _)
      generalize s.candidates = acc
      induction cs generalizing acc with
      | nil => exact id
      | cons c cs ih => exact fun h => ih (acc.insert c) (h.insert)
  | requestConnect node =>
      cases hs
      exact Change.others node
  | responseConnect k success =>
      obtain ⟨req, hreq, hs⟩ := Option.map_eq_some_iff.mp hs
      cases hs
      unfold State.onResponse
      have hown : s.running = true → req.2 ∈ fronts s.connects →
          OwnAnswers s (.responseConnect k success) → req.1 = some s.runs :=
        fun hrun hfront hown => hown req hreq hrun hfront
      by_cases hrun : s.running = true
      · rw [if_pos hrun]
        by_cases h1 : (s.connects .one).head? = some req.2
        · rw [if_pos h1]
          exact responseConnect_change hreq hrun h1 (hown hrun (mem_fronts.mpr ⟨.one, h1⟩))
        · rw [if_neg h1]
          by_cases h2 : (s.connects .two).head? = some req.2
          · rw [if_pos h2]
            exact responseConnect_change hreq hrun h2 (hown hrun (mem_fronts.mpr ⟨.two, h2⟩))
          · rw [if_neg h2]
            refine Change.ignored k req success hreq (fun _ hmem => ?_)
            obtain ⟨side, hside⟩ := mem_fronts.mp hmem
            cases side with
            | one => exact h1 hside
            | two => exact h2 hside
      · rw [if_neg hrun]
        exact Change.ignored k req success hreq (fun hr => absurd hr hrun)
  | task k deck =>
      obtain ⟨t, ht, hs⟩ := Option.bind_eq_some_iff.mp hs
      have hperm : (s.tasks.map Task.kind).Perm (t.kind :: (s.tasks.eraseIdx k).map Task.kind) :=
        (Machine.pool_perm ht).map Task.kind
      have hsnoc : ∀ t' : Task, t'.kind = t.kind →
          ((s.tasks.eraseIdx k ++ [t']).map Task.kind).Perm (s.tasks.map Task.kind) := by
        intro t' ht'
        rw [List.map_append, List.map_singleton, ht']
        exact (List.perm_append_singleton _ _).trans hperm.symm
      cases t with
      | logging r =>
          cases hs
          exact Change.quiet s.candidates s.offline _ id (hsnoc (.soliciting r) rfl)
      | ending r failed =>
          cases hs
          exact Change.quiet s.candidates s.offline _ id (hsnoc (.completing r failed) rfl)
      | completing r failed =>
          cases hs
          exact Change.completed r failed _ hperm
      | soliciting r =>
          simp only [State.onTask] at hs
          split at hs
          · rename_i hdeck
            have heq := Option.some.inj hs
            by_cases hnil : deck = []
            · rw [State.deal, if_pos hnil, hnil] at heq
              cases heq
              exact Change.barren r _ hperm
            · obtain ⟨hstate, hout⟩ := ask_ask { s with
                tasks := s.tasks.eraseIdx k, candidates := [], connects := halves deck }
              rw [State.deal, if_neg hnil] at heq
              simp only [hstate, hout] at heq
              cases heq
              exact Change.dealt r _ deck hnil hdeck hperm
          · cases hs

end Change

/-! ## Every run ends once, and is not stuck before -/

/-- The runs that solicit. -/
def solicits (ts : List Task) : List Nat :=
  (ts.map Task.kind).filterMap (fun k => if k.2 = none then some k.1 else none)

/-- The completions of a run that are on their way. -/
def ends (r : Nat) (ts : List Task) : Nat :=
  (ts.map Task.kind).countP (fun k => decide (k.1 = r) && k.2.isSome)

/-- The completion of a run. -/
def Out.completes (r : Nat) : Out N → Bool
  | .completed r' _ => decide (r' = r)
  | _               => false

/-- Where the current run is. -/
inductive Phase (s : State N) : Prop
  | idle (hrun : s.running = false) (hq : ∀ side, s.connects side = []) (hk : solicits s.tasks = [])
  | soliciting (hrun : s.running = true) (hpos : 1 ≤ s.runs) (hq : ∀ side, s.connects side = [])
      (hk : solicits s.tasks = [s.runs])
  | connecting (hrun : s.running = true) (hpos : 1 ≤ s.runs) (side : Side)
      (hq : s.connects side ≠ []) (hk : solicits s.tasks = [])

/-- The current run is somewhere, and every other one has ended once. -/
structure Ends (tr : List (Out N)) (s : State N) : Prop where
  phase : Phase s
  once  : ∀ r, tr.countP (Out.completes r) + ends r s.tasks
    = if 1 ≤ r ∧ r ≤ s.runs ∧ (r = s.runs → s.running = false) then 1 else 0

theorem solicits_perm {ts ts' : List Task} (h : (ts.map Task.kind).Perm (ts'.map Task.kind)) :
    (solicits ts).Perm (solicits ts') := h.filterMap _

theorem ends_perm {ts ts' : List Task} (h : (ts.map Task.kind).Perm (ts'.map Task.kind)) (r : Nat) :
    ends r ts = ends r ts' := h.countP_eq _

/-- A greenthread of `solicit` ends. -/
theorem solicits_done {r : Nat} {ts ts' : List Task}
    (h : (ts.map Task.kind).Perm ((r, none) :: ts'.map Task.kind)) :
    (solicits ts).Perm (r :: solicits ts') ∧ ∀ r', ends r' ts = ends r' ts' := by
  refine ⟨h.filterMap _, fun r' => ?_⟩
  unfold ends
  rw [h.countP_eq, List.countP_cons]
  simp

/-- A completion is raised. -/
theorem ends_done {r : Nat} {failed : Bool} {ts ts' : List Task}
    (h : (ts.map Task.kind).Perm ((r, some failed) :: ts'.map Task.kind)) :
    (solicits ts).Perm (solicits ts')
      ∧ ∀ r', ends r' ts = ends r' ts' + if r = r' then 1 else 0 := by
  refine ⟨h.filterMap _, fun r' => ?_⟩
  unfold ends
  rw [h.countP_eq, List.countP_cons]
  simp

theorem solicits_snoc (ts : List Task) (r : Nat) (failed : Bool) :
    solicits (ts ++ [.ending r failed]) = solicits ts := by
  unfold solicits
  rw [List.map_append, List.filterMap_append]
  exact List.append_nil _

theorem ends_snoc (ts : List Task) (r : Nat) (failed : Bool) (r' : Nat) :
    ends r' (ts ++ [.ending r failed]) = ends r' ts + if r = r' then 1 else 0 := by
  unfold ends
  rw [List.map_append, List.countP_append]
  congr 1
  simp [Task.kind]

/-- Whoever stops the running run leaves it ended. -/
theorem Ends.stop {tr out : List (Out N)} {s : State N} {connects : Side → List N}
    {outstanding : List (Option Nat × N)} {ts : List Task} (h : Ends tr s) (hrun : s.running = true)
    (failed : Bool) (hq : ∀ side, connects side = []) (hk : solicits ts = [])
    (hends : ∀ r, ends r s.tasks = ends r ts)
    (hout : ∀ r, out.countP (Out.completes r) = 0) :
    Ends (tr ++ out) (State.stop { s with
      connects := connects, outstanding := outstanding, tasks := ts } failed) := by
  have hpos : 1 ≤ s.runs := by
    cases h.phase with
    | idle hidle => rw [hrun] at hidle; cases hidle
    | soliciting _ hpos => exact hpos
    | connecting _ hpos => exact hpos
  refine ⟨Phase.idle rfl hq ?_, fun r => ?_⟩
  · show solicits (ts ++ [.ending s.runs failed]) = []
    rw [solicits_snoc, hk]
  · have hold := h.once r
    rw [hends] at hold
    show (tr ++ out).countP (Out.completes r) + ends r (ts ++ [.ending s.runs failed])
      = if 1 ≤ r ∧ r ≤ s.runs ∧ (r = s.runs → false = false) then 1 else 0
    rw [List.countP_append, hout, ends_snoc]
    simp only [hrun, reduceCtorEq, implies_true, and_true] at hold ⊢
    by_cases hr : s.runs = r
    · subst hr
      simp only [if_true, Nat.le_refl, hpos, and_self] at hold ⊢
      simp only [not_true, imp_false, and_false, if_false] at hold
      omega
    · have hr' : ¬ r = s.runs := fun heq => hr heq.symm
      simp only [hr, hr', if_false, false_imp_iff, and_true] at hold ⊢
      omega

/-- A front makes the run one that connects. -/
theorem Ends.connecting {tr : List (Out N)} {s : State N} (h : Ends tr s) {side : Side}
    (hq : s.connects side ≠ []) : s.running = true ∧ 1 ≤ s.runs ∧ solicits s.tasks = [] := by
  cases h.phase with
  | idle _ hnil => exact absurd (hnil side) hq
  | soliciting _ _ hnil => exact absurd (hnil side) hq
  | connecting hrun hpos _ _ hk => exact ⟨hrun, hpos, hk⟩

/-- A greenthread of `solicit` belongs to the current run, and is the only one. -/
theorem Ends.soliciting {tr : List (Out N)} {s : State N} (h : Ends tr s) {r : Nat} {rest : List Nat}
    (hk : (solicits s.tasks).Perm (r :: rest)) :
    s.running = true ∧ 1 ≤ s.runs ∧ (∀ side, s.connects side = []) ∧ rest = [] := by
  cases h.phase with
  | idle _ _ hnil =>
      rw [hnil] at hk
      exact absurd hk.nil_eq (by simp)
  | connecting _ _ _ _ hnil =>
      rw [hnil] at hk
      exact absurd hk.nil_eq (by simp)
  | soliciting hrun hpos hq hone =>
      rw [hone] at hk
      have hlen := hk.length_eq
      simp only [List.length_cons, List.length_nil] at hlen
      exact ⟨hrun, hpos, hq, List.length_eq_zero_iff.mp (by omega)⟩

/-- Greenthreads that move within their run change no phase. -/
theorem Phase.congr {s s' : State N} (h : Phase s) (hrun : s'.running = s.running)
    (hruns : s'.runs = s.runs) (hq : s'.connects = s.connects)
    (hk : (solicits s'.tasks).Perm (solicits s.tasks)) : Phase s' := by
  cases h with
  | idle hidle hnil hnone =>
      rw [hnone] at hk
      exact Phase.idle (hrun.trans hidle) (fun side => by rw [hq]; exact hnil side) hk.eq_nil
  | soliciting hr hpos hnil hone =>
      rw [hone] at hk
      refine Phase.soliciting (hrun.trans hr) (by omega) (fun side => by rw [hq]; exact hnil side) ?_
      rw [List.perm_singleton.mp hk, hruns]
  | connecting hr hpos side hne hnone =>
      rw [hnone] at hk
      exact Phase.connecting (hrun.trans hr) (by omega) side (by rw [hq]; exact hne) hk.eq_nil

/-- **STEP**: a run begins, and solicits. -/
theorem Ends.begun {tr : List (Out N)} {s : State N} (h : Ends tr s) (hidle : s.running = false) :
    Ends (tr ++ []) { s with
      running := true, runs := s.runs + 1, candidates := [], connects := fun _ => []
      tasks := s.tasks ++ [.logging (s.runs + 1)] } := by
  have hphase := h.phase
  refine ⟨Phase.soliciting rfl (Nat.le_add_left 1 s.runs) (fun _ => rfl) ?_, fun r => ?_⟩
  · have hnone : solicits s.tasks = [] := by
      cases hphase with
      | idle _ _ hk => exact hk
      | soliciting hr => rw [hidle] at hr; cases hr
      | connecting hr => rw [hidle] at hr; cases hr
    show solicits (s.tasks ++ [.logging (s.runs + 1)]) = [s.runs + 1]
    unfold solicits at hnone ⊢
    rw [List.map_append, List.filterMap_append, hnone]
    rfl
  · have hold := h.once r
    have hends : ends r (s.tasks ++ [.logging (s.runs + 1)]) = ends r s.tasks := by
      unfold ends
      rw [List.map_append, List.countP_append]
      simp [Task.kind]
    rw [List.append_nil]
    show _ + ends r (s.tasks ++ [.logging (s.runs + 1)])
      = if 1 ≤ r ∧ r ≤ s.runs + 1 ∧ (r = s.runs + 1 → true = false) then 1 else 0
    rw [hends]
    simp only [hidle, implies_true, and_true] at hold
    rw [hold]
    simp only [reduceCtorEq, imp_false]
    split <;> split <;> omega

/-- **STEP**: the candidates are dealt, and the run connects. -/
theorem Ends.dealt {tr : List (Out N)} {s : State N} {r : Nat} {ts : List Task} {deck : List N}
    (h : Ends tr s) (hdeck : deck ≠ [])
    (hk : (s.tasks.map Task.kind).Perm ((r, none) :: ts.map Task.kind)) :
    Ends (tr ++ (.solicited s.runs deck :: (fronts (halves deck)).map (.asked s.runs ·))) { s with
      candidates := [], connects := halves deck, tasks := ts
      outstanding := s.outstanding
        ++ (fronts (halves deck)).map (fun n => (some s.runs, n)) } := by
  obtain ⟨hsol, hends⟩ := solicits_done hk
  obtain ⟨hrun, hpos, hq, hnil⟩ := h.soliciting hsol
  refine ⟨Phase.connecting hrun hpos .two ?_ hnil, fun r' => ?_⟩
  · show deck.drop (deck.length / 2) ≠ []
    intro hd
    have := List.drop_eq_nil_iff.mp hd
    have := List.length_pos_iff.mpr hdeck
    omega
  · have hold := h.once r'
    rw [hends] at hold
    rw [List.countP_append]
    have hzero : (Out.solicited s.runs deck :: (fronts (halves deck)).map (.asked s.runs ·)).countP
        (Out.completes r') = 0 := by
      refine List.countP_eq_zero.mpr (fun o ho => ?_)
      rcases List.mem_cons.mp ho with rfl | ho
      · exact Bool.false_ne_true
      · obtain ⟨n, -, rfl⟩ := List.mem_map.mp ho
        exact Bool.false_ne_true
    rw [hzero]
    exact hold

/-- **STEP**: runs end once. -/
theorem Ends.step {tr out : List (Out N)} {s s' : State N} {own : Prop} (h : Ends tr s)
    (hs : Change own s s' out) : Ends (tr ++ out) s' := by
  cases hs with
  | quiet cs offline ts hcs hk =>
      refine ⟨h.phase.congr rfl rfl rfl (solicits_perm hk), fun r => ?_⟩
      rw [List.append_nil]
      show _ + ends r ts = _
      rw [ends_perm hk]
      exact h.once r
  | others node =>
      refine ⟨h.phase.congr rfl rfl rfl (List.Perm.refl _), fun r => ?_⟩
      rw [List.append_nil]
      exact h.once r
  | begun hidle =>
      exact h.begun hidle
  | completed r failed ts hk =>
      obtain ⟨hsol, hends⟩ := ends_done hk
      refine ⟨h.phase.congr rfl rfl rfl hsol.symm, fun r' => ?_⟩
      have hold := h.once r'
      rw [hends] at hold
      show (tr ++ [Out.completed r failed]).countP (Out.completes r') + ends r' ts = _
      rw [List.countP_append, ← hold]
      by_cases hr : r = r'
      · simp [Out.completes, hr]
        omega
      · simp [Out.completes, hr]
  | barren r ts hk =>
      obtain ⟨hsol, hends⟩ := solicits_done hk
      obtain ⟨hrun, hpos, hq, hnil⟩ := h.soliciting hsol
      exact h.stop hrun true hq hnil hends (fun _ => rfl)
  | dealt r ts deck hdeck hperm hk =>
      exact h.dealt hdeck hk
  | ignored k req success hreq hno =>
      refine ⟨h.phase.congr rfl rfl rfl (List.Perm.refl _), fun r => ?_⟩
      rw [List.countP_append]
      exact h.once r
  | finished k req hreq hrun hfront hown =>
      obtain ⟨side, hside⟩ := mem_fronts.mp hfront
      have hne : s.connects side ≠ [] := by
        intro hnil
        rw [hnil] at hside
        cases hside
      exact h.stop hrun false (fun _ => rfl) (h.connecting hne).2.2 (fun _ => rfl) (fun _ => rfl)
  | advanced k req side node rest hreq hrun hfront hown =>
      have hne : s.connects side ≠ [] := by
        rw [hfront]
        exact List.cons_ne_nil _ _
      have hc := h.connecting hne
      refine ⟨Phase.connecting hrun hc.2.1 side ?_ hc.2.2, fun r => ?_⟩
      · show Function.update s.connects side (node :: rest) side ≠ []
        rw [Function.update_self]
        exact List.cons_ne_nil _ _
      · rw [List.countP_append]
        exact h.once r
  | drained k req side hreq hrun hfront hother hown =>
      have hc := h.connecting hother
      refine ⟨Phase.connecting hrun hc.2.1 side.other ?_ hc.2.2, fun r => ?_⟩
      · show Function.update s.connects side [] side.other ≠ []
        rw [Function.update_of_ne side.other_ne]
        exact hother
      · rw [List.countP_append]
        exact h.once r
  | exhausted k req side hreq hrun hfront hother hown =>
      have hne : s.connects side ≠ [] := by
        rw [hfront]
        exact List.cons_ne_nil _ _
      have hc := h.connecting hne
      refine h.stop hrun true (fun side' => ?_) hc.2.2 (fun _ => rfl) (fun _ => rfl)
      by_cases heq : side' = side
      · rw [heq, Function.update_self]
      · rw [Function.update_of_ne heq, Side.eq_other heq]
        exact hother

/-! ## No candidate is asked for twice -/

/-- The queues hold a candidate at most once. -/
def Distinct (connects : Side → List N) : Prop := (connects .one ++ connects .two).Nodup

theorem Distinct.sublist {c c' : Side → List N} (h : Distinct c)
    (hsub : ∀ side, (c' side).Sublist (c side)) : Distinct c' :=
  List.Nodup.sublist ((hsub .one).append (hsub .two)) h

theorem fronts_sublist (c : Side → List N) : (fronts c).Sublist (c .one ++ c .two) := by
  have hhead : ∀ l : List N, l.head?.toList.Sublist l := by
    intro l
    cases l with
    | nil => exact List.Sublist.refl _
    | cons x l => exact List.Sublist.cons_cons x (List.nil_sublist l)
  exact (hhead _).append (hhead _)

/-- What comes after a front is no front. -/
theorem Distinct.not_front {c : Side → List N} (h : Distinct c) {side : Side} {n : N}
    (hn : n ∈ (c side).tail) : n ∉ fronts c := by
  obtain ⟨h1, h2, hdisj⟩ := List.nodup_append.mp h
  intro hmem
  obtain ⟨side', hside'⟩ := mem_fronts.mp hmem
  have hin : n ∈ c side := List.mem_of_mem_tail hn
  have hin' : n ∈ c side' := List.mem_of_head? hside'
  by_cases heq : side' = side
  · subst heq
    have hnodup : (c side').Nodup := by
      cases side' with
      | one => exact h1
      | two => exact h2
    obtain ⟨tl, htl⟩ := List.head?_eq_some_iff.mp hside'
    rw [htl] at hn hnodup
    exact (List.nodup_cons.mp hnodup).1 hn
  · cases side with
    | one =>
        cases side' with
        | one => exact heq rfl
        | two => exact hdisj n hin n hin' rfl
    | two =>
        cases side' with
        | one => exact hdisj n hin' n hin rfl
        | two => exact heq rfl

/-- Popping a front leaves sublists. -/
theorem update_sublist {c : Side → List N} {side : Side} {n : N} {rest : List N}
    (h : c side = n :: rest) (side' : Side) :
    (Function.update c side rest side').Sublist (c side') := by
  by_cases heq : side' = side
  · rw [heq, Function.update_self, h]
    exact List.sublist_cons_self n rest
  · rw [Function.update_of_ne heq]

/-- A request other than the one answered stays. -/
theorem mem_eraseIdx {α : Type} {l : List α} {k : Nat} {a b : α} (hb : l[k]? = some b) (ha : a ∈ l)
    (hne : a ≠ b) : a ∈ l.eraseIdx k := by
  have hmem := (Machine.pool_perm hb).mem_iff.mp ha
  exact (List.mem_cons.mp hmem).resolve_left hne

section Asks

variable [DecidableEq N]

/-- A connect request of a run. -/
def Out.asks (r : Nat) (n : N) : Out N → Bool
  | .asked r' n' => decide (r' = r ∧ n' = n)
  | _            => false

/-- A run asks for a candidate when it comes to the front of its queue, and the
    request of a front is outstanding. -/
structure Asks (tr : List (Out N)) (s : State N) : Prop where
  nodup       : s.candidates.Nodup
  distinct    : Distinct s.connects
  once        : ∀ r n, tr.countP (Out.asks r n) ≤ 1
  later       : ∀ r n, s.runs < r → tr.countP (Out.asks r n) = 0
  behind      : ∀ side, ∀ n ∈ (s.connects side).tail, tr.countP (Out.asks s.runs n) = 0
  before      : (∀ side, s.connects side = []) → s.running = true →
    ∀ n, tr.countP (Out.asks s.runs n) = 0
  outstanding : ∀ n ∈ fronts s.connects, (some s.runs, n) ∈ s.outstanding

/-- Only the requests matter. -/
theorem countP_asks_append {tr out : List (Out N)} {r : Nat} {n : N}
    (h : ∀ o ∈ out, o.asks r n = false) :
    (tr ++ out).countP (Out.asks r n) = tr.countP (Out.asks r n) := by
  have hzero : out.countP (Out.asks r n) = 0 := by
    refine List.countP_eq_zero.mpr (fun o ho => ?_)
    rw [h o ho]
    exact Bool.false_ne_true
  rw [List.countP_append, hzero]
  exact Nat.add_zero _

/-- The counts where nothing is asked for. -/
theorem Asks.silent {tr out : List (Out N)} {s s' : State N} (h : Asks tr s)
    (hout : ∀ o ∈ out, ∀ r n, o.asks r n = false) (hruns : s'.runs = s.runs)
    (hcand : s'.candidates.Nodup) (hsub : ∀ side, (s'.connects side).Sublist (s.connects side))
    (hbefore : (∀ side, s'.connects side = []) → s'.running = true →
      (∀ side, s.connects side = []) ∧ s.running = true)
    (houtst : ∀ n ∈ fronts s'.connects, (some s.runs, n) ∈ s'.outstanding) :
    Asks (tr ++ out) s' := by
  have hcount : ∀ r n, (tr ++ out).countP (Out.asks r n) = tr.countP (Out.asks r n) :=
    fun r n => countP_asks_append (fun o ho => hout o ho r n)
  refine ⟨hcand, h.distinct.sublist hsub, fun r n => ?_, fun r n hr => ?_, fun side n hn => ?_,
    fun hq hrun n => ?_, fun n hn => ?_⟩
  · rw [hcount]
    exact h.once r n
  · rw [hcount]
    exact h.later r n (by omega)
  · rw [hcount, hruns]
    exact h.behind side n ((hsub side).tail.subset hn)
  · obtain ⟨hq', hrun'⟩ := hbefore hq hrun
    rw [hcount, hruns]
    exact h.before hq' hrun' n
  · rw [hruns]
    exact houtst n hn

/-- Asking for distinct nodes that were not asked for. -/
theorem countP_asks_map {tr : List (Out N)} {run : Nat} {ns : List N} (hn : ns.Nodup) (r : Nat)
    (n : N) : (tr ++ ns.map (Out.asked run ·)).countP (Out.asks r n)
      = tr.countP (Out.asks r n) + if run = r ∧ n ∈ ns then 1 else 0 := by
  rw [List.countP_append]
  congr 1
  rw [List.countP_map]
  by_cases hr : run = r
  · have heq : (Out.asks r n ∘ fun m => Out.asked run m) = fun m => decide (m = n) := by
      funext m
      simp [Out.asks, hr]
    rw [heq]
    simp only [hr, true_and]
    have hcount : ns.countP (fun m => decide (m = n)) = ns.count n := by
      unfold List.count
      congr 1
    rw [hcount]
    by_cases hmem : n ∈ ns
    · rw [if_pos hmem, List.count_eq_one_of_mem hn hmem]
    · rw [if_neg hmem, List.count_eq_zero_of_not_mem hmem]
  · simp only [hr, false_and, if_false]
    refine List.countP_eq_zero.mpr (fun m _ => ?_)
    simp [Out.asks, hr]

omit [DecidableEq N] in
theorem fronts_of_nil {c : Side → List N} (h : ∀ side, c side = []) : fronts c = [] := by
  unfold fronts
  rw [h, h]
  rfl

omit [DecidableEq N] in
/-- The fronts left when one is popped are others, and still fronts. -/
theorem Distinct.front_other {c : Side → List N} (h : Distinct c) {side : Side} {x : N}
    {rest : List N} (hside : c side = x :: rest) {n : N}
    (hn : (c side.other).head? = some n) : n ∈ fronts c ∧ n ≠ x := by
  refine ⟨mem_fronts.mpr ⟨_, hn⟩, ?_⟩
  rintro rfl
  have hother : n ∈ c side.other := List.mem_of_head? hn
  have hmine : n ∈ c side := by
    rw [hside]
    exact List.mem_cons_self
  obtain ⟨-, -, hdisj⟩ := List.nodup_append.mp h
  cases side with
  | one => exact hdisj n hmine n hother rfl
  | two => exact hdisj n hother n hmine rfl

omit [DecidableEq N] in
/-- The fronts after one queue has changed. -/
theorem mem_fronts_update {c : Side → List N} {side : Side} {l : List N} {n : N}
    (h : n ∈ fronts (Function.update c side l)) :
    l.head? = some n ∨ (c side.other).head? = some n := by
  obtain ⟨side', hside'⟩ := mem_fronts.mp h
  by_cases heq : side' = side
  · rw [heq, Function.update_self] at hside'
    exact Or.inl hside'
  · rw [Function.update_of_ne heq] at hside'
    rw [Side.eq_other heq] at hside'
    exact Or.inr hside'

omit [DecidableEq N] in
/-- The request of the other front stays when this one is answered. -/
theorem request_other {s : State N} {k : Nat} {req : Option Nat × N} {side : Side} {rest : List N}
    (hd : Distinct s.connects)
    (hout : ∀ n ∈ fronts s.connects, (some s.runs, n) ∈ s.outstanding)
    (hreq : s.outstanding[k]? = some req) (hfront : s.connects side = req.2 :: rest) {n : N}
    (hn : (s.connects side.other).head? = some n) :
    (some s.runs, n) ∈ s.outstanding.eraseIdx k := by
  obtain ⟨hmem, hne⟩ := hd.front_other hfront hn
  refine mem_eraseIdx hreq (hout n hmem) (fun heq => hne ?_)
  rw [← heq]

/-- **STEP**: the fronts of the deal are asked for. -/
theorem Asks.dealt {tr : List (Out N)} {s : State N} {r : Nat} {ts : List Task} {deck : List N}
    (h : Asks tr s) (hends : Ends tr s) (hdeck : deck ≠ []) (hperm : deck.Perm s.candidates)
    (hk : (s.tasks.map Task.kind).Perm ((r, none) :: ts.map Task.kind)) :
    Asks (tr ++ (.solicited s.runs deck :: (fronts (halves deck)).map (.asked s.runs ·))) { s with
      candidates := [], connects := halves deck, tasks := ts
      outstanding := s.outstanding
        ++ (fronts (halves deck)).map (fun n => (some s.runs, n)) } := by
-- the queues are empty while it solicits, and nobody was asked for in this run
  obtain ⟨hrun, hpos, hq, -⟩ := hends.soliciting (solicits_done hk).1
  have hdist : Distinct (halves deck) := by
    show (deck.take (deck.length / 2) ++ deck.drop (deck.length / 2)).Nodup
    rw [List.take_append_drop]
    exact hperm.nodup_iff.mpr h.nodup
  have hfronts : (fronts (halves deck)).Nodup := List.Nodup.sublist (fronts_sublist _) hdist
  have hzero := h.before hq hrun
  have hcount : ∀ r' n, (tr ++ (Out.solicited s.runs deck
        :: (fronts (halves deck)).map (.asked s.runs ·))).countP (Out.asks r' n)
      = tr.countP (Out.asks r' n) + if s.runs = r' ∧ n ∈ fronts (halves deck) then 1 else 0 := by
    intro r' n
    rw [← List.singleton_append, ← List.append_assoc, countP_asks_map hfronts]
    congr 1
    refine countP_asks_append (fun o ho => ?_)
    rw [List.mem_singleton.mp ho]
    rfl
  refine ⟨List.nodup_nil, hdist, fun r' n => ?_, fun r' n hr => ?_, fun side n hn => ?_,
    fun hnil _ => ?_, fun n hn => ?_⟩
  · rw [hcount]
    have := h.once r' n
    split
    · rename_i hcond
      exact Nat.le_of_eq (by rw [← hcond.1, hzero n])
    · exact this
  · have hr' : s.runs < r' := hr
    rw [hcount, h.later r' n hr, if_neg (fun hcond => by omega)]
  · rw [hcount, hzero n, if_neg (fun hcond => hdist.not_front hn hcond.2)]
  · have hd : deck.drop (deck.length / 2) = [] := hnil .two
    have := List.drop_eq_nil_iff.mp hd
    have := List.length_pos_iff.mpr hdeck
    omega
  · exact List.mem_append_right _ (List.mem_map.mpr ⟨n, hn, rfl⟩)

/-- **STEP**: behind a front that failed comes the next one. -/
theorem Asks.advanced {tr : List (Out N)} {s : State N} {k : Nat} {req : Option Nat × N}
    {side : Side} {node : N} {rest : List N} (h : Asks tr s)
    (hreq : s.outstanding[k]? = some req) (hfront : s.connects side = req.2 :: node :: rest) :
    Asks (tr ++ [.answered req.1 req.2 false, .asked s.runs node]) { s with
      connects := Function.update s.connects side (node :: rest)
      outstanding := s.outstanding.eraseIdx k ++ [(some s.runs, node)] } := by
-- the new front was behind one before, so it was not asked for yet
  have hsub : ∀ side', (Function.update s.connects side (node :: rest) side').Sublist
      (s.connects side') := update_sublist hfront
  have hdist := h.distinct.sublist hsub
  have hnode : tr.countP (Out.asks s.runs node) = 0 := by
    refine h.behind side node ?_
    rw [hfront]
    exact List.mem_cons_self
  have hcount : ∀ r n, (tr ++ [Out.answered req.1 req.2 false, Out.asked s.runs node]).countP
      (Out.asks r n) = tr.countP (Out.asks r n) + if s.runs = r ∧ n ∈ [node] then 1 else 0 := by
    intro r n
    rw [← List.singleton_append, ← List.append_assoc]
    rw [show [Out.asked s.runs node] = [node].map (Out.asked s.runs ·) from rfl,
      countP_asks_map (List.nodup_singleton node)]
    congr 1
    refine countP_asks_append (fun o ho => ?_)
    rw [List.mem_singleton.mp ho]
    rfl
  refine ⟨h.nodup, hdist, fun r n => ?_, fun r n hr => ?_, fun side' n hn => ?_,
    fun hnil _ => ?_, fun n hn => ?_⟩
  · rw [hcount]
    have := h.once r n
    split
    · rename_i hcond
      exact Nat.le_of_eq (by rw [← hcond.1, List.mem_singleton.mp hcond.2, hnode])
    · exact this
  · have hr' : s.runs < r := hr
    rw [hcount, h.later r n hr, if_neg (fun hcond => by omega)]
  · -- what is behind a front now was behind one before, and is not the new front
    have hne : n ≠ node := by
      rintro rfl
      refine hdist.not_front hn (mem_fronts.mpr ⟨side, ?_⟩)
      rw [Function.update_self]
      rfl
    rw [hcount, if_neg (fun hcond => hne (List.mem_singleton.mp hcond.2))]
    exact h.behind side' n ((hsub side').tail.subset hn)
  · have hs : Function.update s.connects side (node :: rest) side = [] := hnil side
    rw [Function.update_self] at hs
    cases hs
  · rcases mem_fronts_update hn with hnew | hother
    · cases hnew
      exact List.mem_append_right _ (List.mem_singleton.mpr rfl)
    · exact List.mem_append_left _ (request_other h.distinct h.outstanding hreq hfront hother)

/-- **STEP**: no candidate is asked for twice. -/
theorem Asks.step {tr out : List (Out N)} {s s' : State N} {own : Prop} (h : Asks tr s)
    (hends : Ends tr s) (hs : Change own s s' out) : Asks (tr ++ out) s' := by
  have hanswered : ∀ (o : Option Nat) (m : N) (b : Bool),
      ∀ x ∈ [Out.answered o m b], ∀ r n, x.asks r n = false := by
    intro o m b x hx r n
    rw [List.mem_singleton.mp hx]
    rfl
  cases hs with
  | quiet cs offline ts hcs hk =>
      exact h.silent (fun o ho => by cases ho) rfl (hcs h.nodup) (fun _ => List.Sublist.refl _)
        (fun hq hrun => ⟨hq, hrun⟩) h.outstanding
  | others node =>
      exact h.silent (fun o ho => by cases ho) rfl h.nodup (fun _ => List.Sublist.refl _)
        (fun hq hrun => ⟨hq, hrun⟩) (fun n hn => List.mem_append_left _ (h.outstanding n hn))
  | begun hidle =>
      rw [List.append_nil]
      refine ⟨List.nodup_nil, List.nodup_nil, h.once, fun r n hr => h.later r n ?_,
        fun side n hn => (by cases hn), fun _ _ n => h.later _ n (Nat.lt_succ_self _),
        fun n hn => (by cases hn)⟩
      exact Nat.lt_of_succ_lt hr
  | completed r failed ts hk =>
      refine h.silent (fun o ho r' n => ?_) rfl h.nodup (fun _ => List.Sublist.refl _)
        (fun hq hrun => ⟨hq, hrun⟩) h.outstanding
      rw [List.mem_singleton.mp ho]
      rfl
  | barren r ts hk =>
      refine h.silent (fun o ho r' n => ?_) rfl h.nodup (fun _ => List.Sublist.refl _)
        (fun _ hrun => by cases hrun) h.outstanding
      rw [List.mem_singleton.mp ho]
      rfl
  | dealt r ts deck hdeck hperm hk =>
      exact h.dealt hends hdeck hperm hk
  | ignored k req success hreq hno =>
      refine h.silent (hanswered _ _ _) rfl h.nodup (fun _ => List.Sublist.refl _)
        (fun hq hrun => ⟨hq, hrun⟩) (fun n hn => ?_)
      have hrun : s.running = true := by
        obtain ⟨side, hside⟩ := mem_fronts.mp hn
        have hne : s.connects side ≠ [] := by
          intro hnil
          rw [hnil] at hside
          cases hside
        exact (hends.connecting hne).1
      refine mem_eraseIdx hreq (h.outstanding n hn) (fun heq => hno hrun ?_)
      rw [← heq]
      exact hn
  | finished k req hreq hrun hfront hown =>
      exact h.silent (hanswered _ _ _) rfl h.nodup (fun _ => List.nil_sublist _)
        (fun _ hrun => by cases hrun) (fun n hn => by cases hn)
  | advanced k req side node rest hreq hrun hfront hown =>
      exact h.advanced hreq hfront
  | drained k req side hreq hrun hfront hother hown =>
      refine h.silent (hanswered _ _ _) rfl h.nodup (update_sublist hfront) (fun hnil _ => ?_)
        (fun n hn => ?_)
      · have hs : Function.update s.connects side [] side.other = [] := hnil side.other
        rw [Function.update_of_ne side.other_ne] at hs
        exact absurd hs hother
      · rcases mem_fronts_update hn with hnew | hn'
        · cases hnew
        · exact request_other h.distinct h.outstanding hreq hfront hn'
  | exhausted k req side hreq hrun hfront hother hown =>
      refine h.silent (hanswered _ _ _) rfl h.nodup (update_sublist hfront)
        (fun _ hrun => by cases hrun) (fun n hn => ?_)
      rcases mem_fronts_update hn with hnew | hn'
      · cases hnew
      · rw [hother] at hn'
        cases hn'

end Asks

/-! ## Where responses are the run's own -/

/-- The nodes a run has asked for and not heard of. -/
def own (r : Nat) (outstanding : List (Option Nat × N)) : List N :=
  (outstanding.filter (fun q => q.1 = some r)).map Prod.snd

theorem own_append (r : Nat) (l l' : List (Option Nat × N)) :
    own r (l ++ l') = own r l ++ own r l' := by
  unfold own
  rw [List.filter_append, List.map_append]

theorem own_map (r run : Nat) (ns : List N) :
    own r (ns.map (fun n => (some run, n))) = if run = r then ns else [] := by
  unfold own
  by_cases h : run = r
  · rw [if_pos h, List.filter_eq_self.mpr, List.map_map]
    · exact List.map_id ns
    · intro q hq
      obtain ⟨n, -, rfl⟩ := List.mem_map.mp hq
      simp [h]
  · rw [if_neg h, List.filter_eq_nil_iff.mpr]
    · rfl
    · intro q hq
      obtain ⟨n, -, rfl⟩ := List.mem_map.mp hq
      simp [h]

/-- The request answered was one's own or not. -/
theorem own_erase {l : List (Option Nat × N)} {k : Nat} {req : Option Nat × N}
    (h : l[k]? = some req) (r : Nat) :
    (own r l).Perm ((if req.1 = some r then [req.2] else []) ++ own r (l.eraseIdx k)) := by
  have hperm := ((Machine.pool_perm h).filter (fun q => decide (q.1 = some r))).map Prod.snd
  refine hperm.trans ?_
  rw [List.filter_cons]
  by_cases hr : req.1 = some r
  · simp [hr, own]
  · simp [hr, own]

theorem length_own_erase {l : List (Option Nat × N)} {k : Nat} {req : Option Nat × N}
    (h : l[k]? = some req) (r : Nat) : (own r (l.eraseIdx k)).length ≤ (own r l).length := by
  rw [(own_erase h r).length_eq, List.length_append]
  exact Nat.le_add_left _ _

theorem length_fronts (c : Side → List N) : (fronts c).length ≤ 2 := by
  unfold fronts
  rw [List.length_append]
  cases (c .one).head? <;> cases (c .two).head? <;> simp

theorem fronts_perm (c : Side → List N) (side : Side) :
    (fronts c).Perm ((c side).head?.toList ++ (c side.other).head?.toList) := by
  cases side with
  | one => exact List.Perm.refl _
  | two => exact List.perm_append_comm

theorem fronts_update (c : Side → List N) (side : Side) (l : List N) :
    (fronts (Function.update c side l)).Perm (l.head?.toList ++ (c side.other).head?.toList) := by
  have h := fronts_perm (Function.update c side l) side
  rwa [Function.update_self, Function.update_of_ne side.other_ne] at h

/-- Every candidate of the run was asked for by the run and failed. -/
def Tried (tr : List (Out N)) (r : Nat) : Prop :=
  (∃ deck, .solicited r deck ∈ tr)
    ∧ ∀ deck, .solicited r deck ∈ tr → ∀ n ∈ deck, .answered (some r) n false ∈ tr

/-- A run that failed, its completion raised or on its way. -/
def Failing (tr : List (Out N)) (s : State N) (r : Nat) : Prop :=
  (r, some true) ∈ s.tasks.map Task.kind ∨ .completed r true ∈ tr

/-- What holds where responses are the run's own. -/
structure Faithful (tr : List (Out N)) (s : State N) : Prop where
  current : s.running = true → (own s.runs s.outstanding).Perm (fronts s.connects)
  two     : ∀ r, (own r s.outstanding).length ≤ 2
  later   : ∀ r, s.runs < r → own r s.outstanding = [] ∧ ∀ deck, .solicited r deck ∉ tr
  before  : (∀ side, s.connects side = []) → s.running = true →
    ∀ deck, .solicited s.runs deck ∉ tr
  dealt   : ∀ side, s.connects side ≠ [] → ∃ deck, .solicited s.runs deck ∈ tr
  trying  : s.running = true → ∀ deck, .solicited s.runs deck ∈ tr → ∀ n ∈ deck,
    (∃ side, n ∈ s.connects side) ∨ .answered (some s.runs) n false ∈ tr
  failed  : ∀ r, Failing tr s r → Tried tr r

theorem Tried.append {tr out : List (Out N)} {r : Nat} (h : Tried tr r)
    (hout : ∀ deck, .solicited r deck ∉ out) : Tried (tr ++ out) r := by
  obtain ⟨⟨deck, hdeck⟩, hall⟩ := h
  refine ⟨⟨deck, List.mem_append_left _ hdeck⟩, fun deck' hdeck' n hn => ?_⟩
  rcases List.mem_append.mp hdeck' with hold | hnew
  · exact List.mem_append_left _ (hall deck' hold n hn)
  · exact absurd hnew (hout deck')

/-- The running run has not failed. -/
theorem Ends.not_failing {tr : List (Out N)} {s : State N} (h : Ends tr s) (hrun : s.running = true)
    {r : Nat} (hf : Failing tr s r) : r ≠ s.runs := by
  rintro rfl
  have honce := h.once s.runs
  rw [if_neg (by rw [hrun]; simp)] at honce
  rcases hf with hkind | hdone
  · have : 0 < ends s.runs s.tasks := by
      refine List.countP_pos_iff.mpr ⟨_, hkind, ?_⟩
      simp
    omega
  · have : 0 < tr.countP (Out.completes s.runs) := by
      refine List.countP_pos_iff.mpr ⟨_, hdone, ?_⟩
      simp [Out.completes]
    omega

/-- A candidate in a queue is the one popped, or still there. -/
theorem mem_update {c : Side → List N} {side side' : Side} {x n : N} {rest : List N}
    (hside : c side = x :: rest) (h : n ∈ c side') :
    n = x ∨ n ∈ Function.update c side rest side' := by
  by_cases heq : side' = side
  · subst heq
    rw [hside] at h
    rw [Function.update_self]
    exact List.mem_cons.mp h
  · rw [Function.update_of_ne heq]
    exact Or.inr h

/-- The own requests left when the request of a front is answered. -/
theorem Faithful.popped {tr : List (Out N)} {s : State N} (h : Faithful tr s)
    (hrun : s.running = true) {k : Nat} {req : Option Nat × N} {side : Side} {rest : List N}
    (hreq : s.outstanding[k]? = some req) (hfront : s.connects side = req.2 :: rest)
    (hown : req.1 = some s.runs) :
    (own s.runs (s.outstanding.eraseIdx k)).Perm (s.connects side.other).head?.toList := by
  have hbefore := own_erase hreq s.runs
  rw [if_pos hown, List.singleton_append] at hbefore
  have hfronts := fronts_perm s.connects side
  rw [hfront] at hfronts
  exact ((hbefore.symm.trans (h.current hrun)).trans hfronts).cons_inv

/-- A step within a run, or past its end, that shows no new candidates. -/
theorem Faithful.carry {tr out : List (Out N)} {s s' : State N} (h : Faithful tr s)
    (hruns : s'.runs = s.runs) (hsol : ∀ r deck, .solicited r deck ∉ out)
    (hcur : s'.running = true → (own s.runs s'.outstanding).Perm (fronts s'.connects))
    (htwo : ∀ r, (own r s'.outstanding).length ≤ 2)
    (hlater : ∀ r, s.runs < r → own r s'.outstanding = [])
    (hbefore : (∀ side, s'.connects side = []) → s'.running = true →
      (∀ side, s.connects side = []) ∧ s.running = true)
    (hdealt : ∀ side, s'.connects side ≠ [] → ∃ side', s.connects side' ≠ [])
    (htry : s'.running = true → s.running = true ∧ ∀ n side, n ∈ s.connects side →
      (∃ side', n ∈ s'.connects side') ∨ .answered (some s.runs) n false ∈ out)
    (hfail : ∀ r, Failing (tr ++ out) s' r → Failing tr s r ∨ Tried (tr ++ out) r) :
    Faithful (tr ++ out) s' := by
  have hmem : ∀ r deck, .solicited r deck ∈ tr ++ out → .solicited r deck ∈ tr := by
    intro r deck hd
    exact (List.mem_append.mp hd).resolve_right (hsol r deck)
  refine ⟨fun hrun => ?_, htwo, fun r hr => ?_, fun hq hrun deck hd => ?_, fun side hq => ?_,
    fun hrun deck hd n hn => ?_, fun r hf => ?_⟩
  · rw [hruns]
    exact hcur hrun
  · rw [hruns] at hr
    exact ⟨hlater r hr, fun deck hd => (h.later r hr).2 deck (hmem r deck hd)⟩
  · obtain ⟨hq', hrun'⟩ := hbefore hq hrun
    rw [hruns] at hd
    exact h.before hq' hrun' deck (hmem _ deck hd)
  · obtain ⟨side', hq'⟩ := hdealt side hq
    obtain ⟨deck, hd⟩ := h.dealt side' hq'
    rw [hruns]
    exact ⟨deck, List.mem_append_left _ hd⟩
  · rw [hruns] at hd ⊢
    obtain ⟨hrun', hpop⟩ := htry hrun
    rcases h.trying hrun' deck (hmem _ deck hd) n hn with ⟨side, hside⟩ | hans
    · rcases hpop n side hside with hin | hans
      · exact Or.inl hin
      · exact Or.inr (List.mem_append_right _ hans)
    · exact Or.inr (List.mem_append_left _ hans)
  · rcases hfail r hf with hold | htried
    · exact (h.failed r hold).append (hsol r)
    · exact htried

/-- A completion not just shown was shown before. -/
theorem failing_of_append {tr out : List (Out N)} {s s' : State N} {r : Nat}
    (hout : .completed r true ∉ out)
    (hkind : (r, some true) ∈ s'.tasks.map Task.kind → (r, some true) ∈ s.tasks.map Task.kind)
    (hf : Failing (tr ++ out) s' r) : Failing tr s r := by
  rcases hf with hk | hdone
  · exact Or.inl (hkind hk)
  · exact Or.inr ((List.mem_append.mp hdone).resolve_right hout)

/-- A step that shows new candidates does not touch the runs that failed. -/
theorem Faithful.failed_dealt {tr out : List (Out N)} {s : State N} (h : Faithful tr s)
    (hends : Ends tr s) (hrun : s.running = true)
    (hout : ∀ r deck, .solicited r deck ∈ out → r = s.runs) {r : Nat} (hf : Failing tr s r) :
    Tried (tr ++ out) r :=
  (h.failed r hf).append (fun deck hd => hends.not_failing hrun hf (hout r deck hd))

section Events

variable {tr : List (Out N)} {s : State N} (h : Faithful tr s)

include h

/-- Greenthreads move within their run. -/
theorem Faithful.quiet (cs : List N) (offline : Bool) {ts : List Task}
    (hk : (ts.map Task.kind).Perm (s.tasks.map Task.kind)) :
    Faithful (tr ++ []) { s with candidates := cs, offline := offline, tasks := ts } := by
  refine h.carry rfl (fun r deck hd => by cases hd) h.current h.two
    (fun r hr => (h.later r hr).1) (fun hq hrun => ⟨hq, hrun⟩) (fun side hq => ⟨side, hq⟩)
    (fun hrun => ⟨hrun, fun n side hn => Or.inl ⟨side, hn⟩⟩) (fun r hf => Or.inl ?_)
  exact failing_of_append (fun hd => by cases hd) hk.mem_iff.mp hf

/-- Somebody else asks for a connection. -/
theorem Faithful.others (node : N) :
    Faithful (tr ++ []) { s with outstanding := s.outstanding ++ [(none, node)] } := by
  have hown : ∀ r, own r (s.outstanding ++ [(none, node)]) = own r s.outstanding := by
    intro r
    rw [own_append]
    exact List.append_nil _
  refine h.carry rfl (fun r deck hd => by cases hd) (fun hrun => ?_) (fun r => ?_)
    (fun r hr => ?_) (fun hq hrun => ⟨hq, hrun⟩) (fun side hq => ⟨side, hq⟩)
    (fun hrun => ⟨hrun, fun n side hn => Or.inl ⟨side, hn⟩⟩) (fun r hf => Or.inl ?_)
  · rw [hown]
    exact h.current hrun
  · rw [hown]
    exact h.two r
  · rw [hown]
    exact (h.later r hr).1
  · exact failing_of_append (fun hd => by cases hd) id hf

/-- A run begins. -/
theorem Faithful.begun : Faithful (tr ++ []) { s with
    running := true, runs := s.runs + 1, candidates := [], connects := fun _ => []
    tasks := s.tasks ++ [.logging (s.runs + 1)] } := by
  obtain ⟨hfresh, hnew⟩ := h.later (s.runs + 1) (Nat.lt_succ_self _)
  rw [List.append_nil]
  refine ⟨fun _ => ?_, h.two, fun r hr => h.later r (Nat.lt_of_succ_lt hr), fun _ _ => hnew,
    fun side hq => absurd rfl hq, fun _ deck hd => absurd hd (hnew deck), fun r hf => ?_⟩
  · show (own (s.runs + 1) s.outstanding).Perm []
    rw [hfresh]
  · refine h.failed r (hf.imp_left (fun hk => ?_))
    rw [List.map_append] at hk
    refine (List.mem_append.mp hk).resolve_right (fun hlast => ?_)
    cases List.mem_singleton.mp hlast

/-- It is reported how a run ended. -/
theorem Faithful.completed (r : Nat) (failed : Bool) {ts : List Task}
    (hk : (s.tasks.map Task.kind).Perm ((r, some failed) :: ts.map Task.kind)) :
    Faithful (tr ++ [.completed r failed]) { s with tasks := ts } := by
  refine h.carry rfl (fun r' deck hd => by cases List.mem_singleton.mp hd) h.current h.two
    (fun r hr => (h.later r hr).1) (fun hq hrun => ⟨hq, hrun⟩) (fun side hq => ⟨side, hq⟩)
    (fun hrun => ⟨hrun, fun n side hn => Or.inl ⟨side, hn⟩⟩) (fun r' hf => Or.inl ?_)
  rcases hf with hkind | hdone
  · exact Or.inl (hk.mem_iff.mpr (List.mem_cons_of_mem _ hkind))
  · rcases List.mem_append.mp hdone with hold | hnew
    · exact Or.inr hold
    · cases List.mem_singleton.mp hnew
      exact Or.inl (hk.mem_iff.mpr List.mem_cons_self)

/-- The solicitation brings no candidates: there were none to try. -/
theorem Faithful.barren (hends : Ends tr s) {r : Nat} {ts : List Task}
    (hk : (s.tasks.map Task.kind).Perm ((r, none) :: ts.map Task.kind)) :
    Faithful (tr ++ [.solicited s.runs []]) (State.stop { s with tasks := ts } true) := by
  obtain ⟨hrun, hpos, hq, -⟩ := hends.soliciting (solicits_done hk).1
  have hold := h.before hq hrun
  have hsol : ∀ r deck, Out.solicited r deck ∈ [(.solicited s.runs [] : Out N)] → r = s.runs := by
    intro r deck hd
    cases List.mem_singleton.mp hd
    rfl
  refine ⟨fun hr => (by cases hr), h.two, fun r hr => ⟨(h.later r hr).1, fun deck hd => ?_⟩,
    fun _ hr => (by cases hr), fun side hne => absurd (hq side) hne, fun hr => (by cases hr),
    fun r' hf => ?_⟩
  · rcases List.mem_append.mp hd with hd | hd
    · exact (h.later r hr).2 deck hd
    · exact absurd (hsol r deck hd) (Nat.ne_of_gt hr)
  · by_cases hr : r' = s.runs
    · subst hr
      refine ⟨⟨[], List.mem_append_right _ (List.mem_singleton.mpr rfl)⟩, fun deck hd n hn => ?_⟩
      rcases List.mem_append.mp hd with hd | hd
      · exact absurd hd (hold deck)
      · cases List.mem_singleton.mp hd
        cases hn
    · refine h.failed_dealt hends hrun hsol (failing_of_append ?_ (fun hkind => ?_) hf)
      · intro hd
        cases List.mem_singleton.mp hd
      · rw [show (State.stop { s with tasks := ts } true).tasks.map Task.kind
          = ts.map Task.kind ++ [(s.runs, some true)] from List.map_append] at hkind
        rcases List.mem_append.mp hkind with hin | hlast
        · exact hk.mem_iff.mpr (List.mem_cons_of_mem _ hin)
        · cases List.mem_singleton.mp hlast
          exact absurd rfl hr

/-- It brings some, and both fronts are asked for. -/
theorem Faithful.deal (hends : Ends tr s) {r : Nat} {ts : List Task} {deck : List N}
    (hdeck : deck ≠ []) (hk : (s.tasks.map Task.kind).Perm ((r, none) :: ts.map Task.kind)) :
    Faithful (tr ++ .solicited s.runs deck :: (fronts (halves deck)).map (.asked s.runs ·)) { s with
      candidates := [], connects := halves deck, tasks := ts
      outstanding := s.outstanding ++ (fronts (halves deck)).map (fun n => (some s.runs, n)) } := by
  obtain ⟨hrun, hpos, hq, -⟩ := hends.soliciting (solicits_done hk).1
  have hold := h.before hq hrun
  have hempty : own s.runs s.outstanding = [] := by
    have hcur := h.current hrun
    rw [fronts_of_nil hq] at hcur
    exact hcur.eq_nil
  have hown : ∀ r', own r' (s.outstanding ++ (fronts (halves deck)).map (fun n => (some s.runs, n)))
      = own r' s.outstanding ++ if s.runs = r' then fronts (halves deck) else [] := by
    intro r'
    rw [own_append, own_map]
  have hmem : ∀ r' deck', Out.solicited r' deck' ∈ (Out.solicited s.runs deck
      :: (fronts (halves deck)).map (.asked s.runs ·)) → r' = s.runs ∧ deck' = deck := by
    intro r' deck' hd
    rcases List.mem_cons.mp hd with heq | hd
    · cases heq
      exact ⟨rfl, rfl⟩
    · obtain ⟨n, -, hn⟩ := List.mem_map.mp hd
      cases hn
  refine ⟨fun _ => ?_, fun r' => ?_, fun r' hr => ⟨?_, fun deck' hd => ?_⟩, fun hnil _ => ?_,
    fun side _ => ⟨deck, List.mem_append_right _ List.mem_cons_self⟩, fun _ deck' hd n hn => ?_,
    fun r' hf => ?_⟩
  · show (own s.runs (s.outstanding ++ _)).Perm (fronts (halves deck))
    rw [hown, hempty, if_pos rfl, List.nil_append]
  · rw [hown]
    by_cases hr : s.runs = r'
    · rw [if_pos hr, ← hr, hempty, List.nil_append]
      exact length_fronts _
    · rw [if_neg hr, List.append_nil]
      exact h.two r'
  · rw [hown, (h.later r' hr).1, if_neg (Nat.ne_of_lt hr)]
    rfl
  · rcases List.mem_append.mp hd with hd | hd
    · exact (h.later r' hr).2 deck' hd
    · exact absurd (hmem r' deck' hd).1 (Nat.ne_of_gt hr)
  · have hd : deck.drop (deck.length / 2) = [] := hnil .two
    have := List.drop_eq_nil_iff.mp hd
    have := List.length_pos_iff.mpr hdeck
    omega
  · rcases List.mem_append.mp hd with hd | hd
    · exact absurd hd (hold deck')
    · obtain ⟨-, rfl⟩ := hmem _ deck' hd
      left
      rw [← List.take_append_drop (deck'.length / 2) deck'] at hn
      rcases List.mem_append.mp hn with h1 | h2
      · exact ⟨.one, h1⟩
      · exact ⟨.two, h2⟩
  · refine h.failed_dealt hends hrun (fun r deck' hd => (hmem r deck' hd).1)
      (failing_of_append ?_ (fun hkind => ?_) hf)
    · intro hd
      rcases List.mem_cons.mp hd with heq | hd
      · cases heq
      · obtain ⟨n, -, hn⟩ := List.mem_map.mp hd
        cases hn
    · exact hk.mem_iff.mpr (List.mem_cons_of_mem _ hkind)

variable {k : Nat} {req : Option Nat × N} (hreq : s.outstanding[k]? = some req)

include hreq

theorem Faithful.later_erase (r : Nat) (hr : s.runs < r) :
    own r (s.outstanding.eraseIdx k) = [] := by
  have := length_own_erase hreq r
  rw [(h.later r hr).1] at this
  exact List.length_eq_zero_iff.mp (Nat.le_zero.mp this)

theorem Faithful.two_erase (r : Nat) : (own r (s.outstanding.eraseIdx k)).length ≤ 2 :=
  Nat.le_trans (length_own_erase hreq r) (h.two r)

/-- A response names no front, and so is no answer to an own request of this run. -/
theorem Faithful.ignored (success : Bool) (hno : s.running = true → req.2 ∉ fronts s.connects) :
    Faithful (tr ++ [.answered req.1 req.2 success])
      { s with outstanding := s.outstanding.eraseIdx k } := by
  refine h.carry rfl (fun r deck hd => by cases List.mem_singleton.mp hd) (fun hrun => ?_)
    (h.two_erase hreq) (h.later_erase hreq) (fun hq hrun => ⟨hq, hrun⟩) (fun side hq => ⟨side, hq⟩)
    (fun hrun => ⟨hrun, fun n side hn => Or.inl ⟨side, hn⟩⟩) (fun r hf => Or.inl ?_)
  · -- an own request would be one of the fronts
    have hcur := h.current hrun
    have herase := own_erase hreq s.runs
    by_cases hmine : req.1 = some s.runs
    · rw [if_pos hmine] at herase
      exact absurd (hcur.mem_iff.mp (herase.mem_iff.mpr (List.mem_append_left _
        (List.mem_singleton.mpr rfl)))) (hno hrun)
    · rw [if_neg hmine, List.nil_append] at herase
      exact herase.symm.trans hcur
  · exact failing_of_append (fun hd => by cases List.mem_singleton.mp hd) id hf

/-- A front is connected, and the run is done. -/
theorem Faithful.finished : Faithful (tr ++ [.answered req.1 req.2 true])
    (State.finish { s with outstanding := s.outstanding.eraseIdx k }) := by
  refine h.carry rfl (fun r deck hd => by cases List.mem_singleton.mp hd)
    (fun hr => by cases hr) (h.two_erase hreq) (h.later_erase hreq) (fun _ hr => by cases hr)
    (fun side hne => absurd rfl hne) (fun hr => by cases hr) (fun r hf => Or.inl ?_)
  refine failing_of_append (fun hd => by cases List.mem_singleton.mp hd) (fun hkind => ?_) hf
  rw [show (State.finish { s with outstanding := s.outstanding.eraseIdx k }).tasks.map Task.kind
    = s.tasks.map Task.kind ++ [(s.runs, some false)] from List.map_append] at hkind
  rcases List.mem_append.mp hkind with hin | hlast
  · exact hin
  · cases List.mem_singleton.mp hlast

/-- A front is not, and the next candidate of its queue is asked for. -/
theorem Faithful.advanced {side : Side} {node : N} {rest : List N} (hrun : s.running = true)
    (hfront : s.connects side = req.2 :: node :: rest) (hown : req.1 = some s.runs) :
    Faithful (tr ++ [.answered req.1 req.2 false, .asked s.runs node]) { s with
      connects := Function.update s.connects side (node :: rest)
      outstanding := s.outstanding.eraseIdx k ++ [(some s.runs, node)] } := by
  have hpop := h.popped hrun hreq hfront hown
  have hother : ∀ r, own r (s.outstanding.eraseIdx k ++ [(some s.runs, node)])
      = own r (s.outstanding.eraseIdx k) ++ if s.runs = r then [node] else [] := by
    intro r
    rw [own_append]
    congr 1
    exact own_map r s.runs [node]
  have hcur : (own s.runs (s.outstanding.eraseIdx k ++ [(some s.runs, node)])).Perm
      (fronts (Function.update s.connects side (node :: rest))) := by
    rw [hother, if_pos rfl]
    refine ((hpop.append_right [node]).trans List.perm_append_comm).trans ?_
    exact (fronts_update s.connects side (node :: rest)).symm
  refine h.carry rfl (fun r deck hd => ?_) (fun _ => hcur) (fun r => ?_) (fun r hr => ?_)
    (fun hnil _ => ?_) (fun _ _ => ⟨side, by rw [hfront]; exact List.cons_ne_nil _ _⟩)
    (fun _ => ⟨hrun, fun n side' hn => ?_⟩) (fun r hf => Or.inl ?_)
  · simp at hd
  · by_cases hr : s.runs = r
    · subst hr
      show (own s.runs (s.outstanding.eraseIdx k ++ [(some s.runs, node)])).length ≤ 2
      rw [hcur.length_eq]
      exact length_fronts _
    · show (own r (s.outstanding.eraseIdx k ++ [(some s.runs, node)])).length ≤ 2
      rw [hother, if_neg hr, List.append_nil]
      exact h.two_erase hreq r
  · show own r (s.outstanding.eraseIdx k ++ [(some s.runs, node)]) = []
    rw [hother, if_neg (Nat.ne_of_lt hr), h.later_erase hreq r hr]
    rfl
  · have hs : Function.update s.connects side (node :: rest) side = [] := hnil side
    rw [Function.update_self] at hs
    cases hs
  · rcases mem_update hfront hn with rfl | hin
    · right
      rw [hown]
      exact List.mem_cons_self
    · exact Or.inl ⟨side', hin⟩
  · exact failing_of_append (fun hd => by simp at hd) id hf

/-- Its queue has no further one, but the other queue goes on. -/
theorem Faithful.drained {side : Side} (hrun : s.running = true)
    (hfront : s.connects side = [req.2]) (hother : s.connects side.other ≠ [])
    (hown : req.1 = some s.runs) : Faithful (tr ++ [.answered req.1 req.2 false]) { s with
      connects := Function.update s.connects side []
      outstanding := s.outstanding.eraseIdx k } := by
  have hpop := h.popped hrun hreq hfront hown
  refine h.carry rfl (fun r deck hd => by cases List.mem_singleton.mp hd) (fun _ => ?_)
    (h.two_erase hreq) (h.later_erase hreq) (fun hnil _ => ?_)
    (fun _ _ => ⟨side.other, hother⟩) (fun _ => ⟨hrun, fun n side' hn => ?_⟩)
    (fun r hf => Or.inl ?_)
  · exact hpop.trans (fronts_update s.connects side []).symm
  · have hs : Function.update s.connects side [] side.other = [] := hnil side.other
    rw [Function.update_of_ne side.other_ne] at hs
    exact absurd hs hother
  · rcases mem_update hfront hn with rfl | hin
    · right
      rw [hown]
      exact List.mem_singleton.mpr rfl
    · exact Or.inl ⟨side', hin⟩
  · exact failing_of_append (fun hd => by cases List.mem_singleton.mp hd) id hf

/-- Neither has the other queue: the run failed, and all its candidates were tried. -/
theorem Faithful.exhausted {side : Side} (hrun : s.running = true)
    (hfront : s.connects side = [req.2]) (hother : s.connects side.other = [])
    (hown : req.1 = some s.runs) :
    Faithful (tr ++ [.answered req.1 req.2 false]) (State.stop { s with
      connects := Function.update s.connects side []
      outstanding := s.outstanding.eraseIdx k } true) := by
  have hlast : ∀ side' n, n ∈ s.connects side' → n = req.2 := by
    intro side' n hn
    by_cases heq : side' = side
    · rw [heq, hfront] at hn
      exact List.mem_singleton.mp hn
    · rw [Side.eq_other heq, hother] at hn
      cases hn
  refine h.carry rfl (fun r deck hd => by cases List.mem_singleton.mp hd)
    (fun hr => by cases hr) (h.two_erase hreq) (h.later_erase hreq) (fun _ hr => by cases hr)
    (fun _ _ => ⟨side, by rw [hfront]; exact List.cons_ne_nil _ _⟩) (fun hr => by cases hr)
    (fun r hf => ?_)
  by_cases hr : r = s.runs
  · subst hr
    right
    obtain ⟨deck, hd⟩ := h.dealt side (by rw [hfront]; exact List.cons_ne_nil _ _)
    refine ⟨⟨deck, List.mem_append_left _ hd⟩, fun deck' hd' n hn => ?_⟩
    have hin := (List.mem_append.mp hd').resolve_right
      (fun hnew => by cases List.mem_singleton.mp hnew)
    rcases h.trying hrun deck' hin n hn with ⟨side', hside'⟩ | hans
    · rw [hlast side' n hside', hown]
      exact List.mem_append_right _ (List.mem_singleton.mpr rfl)
    · exact List.mem_append_left _ hans
  · left
    refine failing_of_append (fun hd => by cases List.mem_singleton.mp hd) (fun hkind => ?_) hf
    rw [show (State.stop { s with
        connects := Function.update s.connects side []
        outstanding := s.outstanding.eraseIdx k } true).tasks.map Task.kind
      = s.tasks.map Task.kind ++ [(s.runs, some true)] from List.map_append] at hkind
    rcases List.mem_append.mp hkind with hin | hl
    · exact hin
    · cases List.mem_singleton.mp hl
      exact absurd rfl hr

end Events

/-- **STEP**: failures are earned, and no more than two requests are out. -/
theorem Faithful.step {tr out : List (Out N)} {s s' : State N} (h : Faithful tr s)
    (hends : Ends tr s) (hs : Change True s s' out) : Faithful (tr ++ out) s' := by
  cases hs with
  | quiet cs offline ts hcs hk                          => exact h.quiet cs offline hk
  | others node                                         => exact h.others node
  | begun hidle                                         => exact h.begun
  | completed r failed ts hk                            => exact h.completed r failed hk
  | barren r ts hk                                      => exact h.barren hends hk
  | dealt r ts deck hdeck hperm hk                      => exact h.deal hends hdeck hk
  | ignored k req success hreq hno                      => exact h.ignored hreq success hno
  | finished k req hreq hrun hfront hown                => exact h.finished hreq
  | advanced k req side node rest hreq hrun hfront hown =>
      exact h.advanced hreq hrun hfront (hown trivial)
  | drained k req side hreq hrun hfront hother hown     =>
      exact h.drained hreq hrun hfront hother (hown trivial)
  | exhausted k req side hreq hrun hfront hother hown   =>
      exact h.exhausted hreq hrun hfront hother (hown trivial)

section Run

variable [DecidableEq N]

/-- **RUN**: runs end once and ask once, whatever the responses. -/
theorem run_ends_asks {es : List (Event N)} {s : State N} {tr : List (Out N)}
    (hrun : run es = some (s, tr)) : Ends tr s ∧ Asks tr s := by
  refine Machine.run_invariant (P := fun _ _ => True) (I := fun _ tr s => Ends tr s ∧ Asks tr s)
    ⟨?_, ?_⟩ ?_ (Machine.along_true _ _) hrun
  · refine ⟨Phase.idle rfl (fun _ => rfl) rfl, fun r => ?_⟩
    rw [if_neg (fun hcond => absurd (Nat.le_trans hcond.1 hcond.2.1) (Nat.not_succ_le_zero 0))]
    rfl
  · exact ⟨List.nodup_nil, List.nodup_nil, fun _ _ => Nat.zero_le _, fun _ _ _ => rfl,
      fun _ n hn => (by cases hn), fun _ _ _ => rfl, fun n hn => (by cases hn)⟩
  · intro es tr s e s' out ⟨hends, hasks⟩ _ hs
    exact ⟨hends.step (step_change hs), hasks.step hends (step_change hs)⟩

/-- **RUN**: where responses are the run's own, failures are earned. -/
theorem run_faithful {es : List (Event N)} {s : State N} {tr : List (Out N)}
    (hown : Machine.Along step OwnAnswers State.init es) (hrun : run es = some (s, tr)) :
    Faithful tr s := by
  have hboth := Machine.run_invariant (P := OwnAnswers)
    (I := fun es tr s => Machine.run step State.init es = some (s, tr) ∧ Faithful tr s)
    ⟨rfl, ?_⟩ ?_ hown hrun
  · exact hboth.2
  · refine ⟨fun hr => (by cases hr), fun _ => Nat.zero_le _,
      fun _ _ => ⟨rfl, fun _ hd => (by cases hd)⟩, fun _ hr => (by cases hr),
      fun _ hq => absurd rfl hq, fun hr => (by cases hr), fun r hf => ?_⟩
    rcases hf with hk | hd
    · cases hk
    · cases hd
  · intro es tr s e s' out ⟨hr, hf⟩ hown hs
    refine ⟨Machine.run_snoc hr hs, hf.step (run_ends_asks hr).1 ?_⟩
    have hchange := step_change hs
    rwa [eq_true hown] at hchange

/-- **HEADLINE**: every run ends exactly once, is not stuck before, and asks for
    no candidate twice; and where a response that moves a queue on answers a
    request of the run, a failure is reported only after every candidate was
    tried, and no run has more than two requests outstanding. -/
theorem runs_end_and_ask_once {es : List (Event N)} {s : State N} {tr : List (Out N)}
    (hrun : run es = some (s, tr)) :
    (∀ r, 1 ≤ r → r ≤ s.runs → tr.countP (Out.completes r) + ends r s.tasks
        = if r = s.runs ∧ s.running = true then 0 else 1)
      ∧ (s.running = true → solicits s.tasks = [s.runs] ∨ (fronts s.connects ≠ []
        ∧ ∀ n ∈ fronts s.connects, (some s.runs, n) ∈ s.outstanding))
      ∧ (∀ r n, tr.countP (Out.asks r n) ≤ 1)
      ∧ (Machine.Along step OwnAnswers State.init es →
        (∀ r, .completed r true ∈ tr → Tried tr r) ∧ ∀ r, (own r s.outstanding).length ≤ 2) := by
  obtain ⟨hends, hasks⟩ := run_ends_asks hrun
  refine ⟨fun r h1 h2 => ?_, fun hr => ?_, hasks.once, fun hown => ?_⟩
  · rw [hends.once r]
    by_cases hcur : r = s.runs ∧ s.running = true
    · rw [if_pos hcur, if_neg]
      rintro ⟨-, -, himp⟩
      rw [himp hcur.1] at hcur
      cases hcur.2
    · rw [if_neg hcur, if_pos]
      refine ⟨h1, h2, fun heq => ?_⟩
      cases hrunning : s.running with
      | false => rfl
      | true => exact absurd ⟨heq, hrunning⟩ hcur
  · cases hends.phase with
    | idle hidle =>
        rw [hr] at hidle
        cases hidle
    | soliciting _ _ _ hk => exact Or.inl hk
    | connecting _ _ side hq _ =>
        refine Or.inr ⟨fun hnil => ?_, hasks.outstanding⟩
        obtain ⟨n, rest, hn⟩ := List.exists_cons_of_ne_nil hq
        have hmem : n ∈ fronts s.connects := mem_fronts.mpr ⟨side, by rw [hn]; rfl⟩
        rw [hnil] at hmem
        cases hmem
  · have hf := run_faithful hown hrun
    exact ⟨fun r hd => hf.failed r (Or.inr hd), hf.two⟩

end Run

/-- The first of two candidates connects; the request for the other stays. -/
def firstRun : List (Event Nat) :=
  [.needsConnect, .task 0 [], .proposeConnectCandidates [1, 2], .task 0 [1, 2],
    .responseConnect 0 true, .task 0 [], .task 0 []]

/-- A run on its own: three candidates, all of which fail. -/
def ownRun : List (Event Nat) :=
  [.needsConnect, .task 0 [], .proposeConnectCandidates [3, 2, 4], .task 0 [3, 2, 4],
    .responseConnect 0 false, .responseConnect 0 false, .responseConnect 0 false,
    .task 0 [], .task 0 []]

theorem runs_end_and_ask_once_ownRun :
    ∃ s tr, run ownRun = some (s, tr) ∧ .completed 1 true ∈ tr ∧ Tried tr 1
      ∧ ∀ r, (own r s.outstanding).length ≤ 2 := by
  have hrun : (run ownRun).map (fun r => decide (.completed 1 true ∈ r.2)) = some true := by decide
  obtain ⟨⟨s, tr⟩, hrun, hdone⟩ := Option.map_eq_some_iff.mp hrun
  have hdone : .completed 1 true ∈ tr := of_decide_eq_true hdone
  obtain ⟨-, -, -, hown⟩ := runs_end_and_ask_once hrun
  obtain ⟨htried, htwo⟩ := hown (by decide)
  exact ⟨s, tr, hrun, hdone, htried 1 hdone, htwo⟩

/-- The late response to the first run's request for 2 is taken for the second
    run's own: it then has three requests outstanding, and reports a failure
    without having heard of its own request for 2. -/
theorem late_response_taken_as_own :
    (run (firstRun ++ [.needsConnect, .task 0 [], .proposeConnectCandidates [3, 2, 4],
          .task 0 [3, 2, 4], .responseConnect 0 false])).map (fun r => own 2 r.1.outstanding)
        = some [3, 2, 4]
      ∧ (run (firstRun ++ [.needsConnect, .task 0 [], .proposeConnectCandidates [3, 2, 4],
          .task 0 [3, 2, 4], .responseConnect 0 false, .responseConnect 0 false,
          .responseConnect 1 false, .task 0 [], .task 0 []])).map
        (fun r => (own 2 r.1.outstanding, decide (.completed 2 true ∈ r.2),
          decide (.answered (some 2) 2 false ∈ r.2))) = some ([2], true, false) := by
  decide

end NeedsConnectSolicitor
