import Clboss.MachineProofs
import Mathlib.Data.List.Count
import Mathlib.Logic.Function.Basic

/-! # `Gumshoe` — investigations and the connections they make

    An investigation asks whether its node is connected, and if not has it
    connected and waits for the answer.  A request for a connection is a message
    anybody may send, and the answer names the NODE only: the cases are a set of
    nodes, and whichever answer comes first concludes the case.

    Who asked for a connection, and who made it, is part of the state here
    (`Requester`, `Link`); the code knows neither.  Three things go wrong without it:
    two investigations of a node share one case, an answer to another requester
    concludes a case, and a connection made by a probe may be used by others before
    it is dropped (`foreign_drop`).  `Undisturbed` excludes these steps, and
    `cases_sound` is the law of every other run. -/

namespace Gumshoe

/-- Who sent a `RequestConnect`. -/
inductive Requester where
  /-- This object, in its `k`-th investigation. -/
  | probe (k : ℕ)
  /-- Another module; `plain` says that it named the node by its id alone. -/
  | other (plain : Bool)
deriving DecidableEq

/-- `valid_string` of the node in the answer. -/
def Requester.plain : Requester → Bool
  | .probe _     => true
  | .other plain => plain

/-- A connection. -/
inductive Link where
  /-- Made by the request of this investigation, and nobody else asked for it. -/
  | probe (k : ℕ)
  | foreign
deriving DecidableEq

/-- A `RequestConnect` that the connector works on. -/
structure Request (Node : Type) where
  who  : Requester
  node : Node
deriving DecidableEq

/-- The `ResponseConnect` to come; `made` says that the request made the connection. -/
structure Response (Node : Type) where
  who     : Requester
  node    : Node
  success : Bool
  made    : Bool
deriving DecidableEq

/-- The investigation whose request made the connection. -/
def Response.maker {Node : Type} (r : Response Node) : Option ℕ :=
  match r.who with
  | .probe k => if r.made then some k else none
  | .other _ => none

inductive Task (Node : Type) where
  /-- `is_connected`. -/
  | listing (k : ℕ) (n : Node)
  /-- The report of a connection that is there. -/
  | online (n : Node)
  /-- `on_response_connect`, before its report. -/
  | concluded (n : Node) (success : Bool) (maker : Option ℕ)
  | disconnect (n : Node) (maker : Option ℕ)
deriving DecidableEq

structure State (Node : Type) where
  cases     : List Node
  tasks     : List (Task Node)
  requests  : List (Request Node)
  responses : List (Response Node)
  /-- The peers. -/
  links     : Node → Option Link
  /-- Investigations so far. -/
  count     : ℕ

inductive Event (Node : Type) where
  | investigate (n : Node)
  /-- The answer of `listpeers`; a failure counts as `false`. -/
  | listed (i : ℕ) (connected : Bool)
  /-- A report or a disconnection is carried out. -/
  | proceed (i : ℕ)
  /-- Another module sends a `RequestConnect`. -/
  | request (n : Node) (plain : Bool)
  /-- The command `connect` ends. -/
  | connected (j : ℕ) (success : Bool)
  /-- The connector sends its `ResponseConnect`. -/
  | respond (j : ℕ)
  /-- The node connects to us. -/
  | incoming (n : Node)
  | dropped (n : Node)
deriving DecidableEq

inductive Output (Node : Type) where
  | investigation (n : Node)
  | report (n : Node) (success : Bool)
  /-- The command `disconnect`; `own` says that the connection was made by the
      investigation's request, and nobody else has one or asked for it. -/
  | disconnect (n : Node) (own : Bool)
deriving DecidableEq

section

variable {Node : Type} [DecidableEq Node]

omit [DecidableEq Node] in
/-- No case. -/
def State.init : State Node := ⟨[], [], [], [], fun _ => none, 0⟩

omit [DecidableEq Node] in
def State.start (s : State Node) (t : Task Node) : State Node := { s with tasks := s.tasks ++ [t] }

/-- What `connect` makes of the connection. -/
def Link.after : Option Link → Requester → Link
  | none, .probe k   => .probe k
  | none, .other _   => .foreign
  | some l, .probe _ => l
  | some _, .other _ => .foreign

/-- There is no connection but that of the maker. -/
def ownLink (link : Option Link) (maker : Option ℕ) : Bool :=
  match maker with
  | none   => false
  | some k => link = none ∨ link = some (.probe k)

/-- `on_response_connect`, up to its report. -/
def State.onResponseConnect (s : State Node) (r : Response Node) : State Node :=
  if r.who.plain = true ∧ r.node ∈ s.cases then
    { s with cases := s.cases.filter (fun n => n ≠ r.node) }.start
      (.concluded r.node r.success r.maker)
  else s

/-- A task goes on. -/
def State.proceed (s : State Node) : Task Node → Option (State Node × List (Output Node))
  | .listing _ _       => none
  | .online n          => some (s, [.report n true])
  | .concluded n success maker =>
      some (if success then s.start (.disconnect n maker) else s, [.report n success])
  | .disconnect n maker => some (s, [.disconnect n (ownLink (s.links n) maker)])

/-- One step. -/
def step (s : State Node) : Event Node → Option (State Node × List (Output Node))
  | .investigate n =>
      some ({ s with count := s.count + 1 }.start (.listing s.count n), [.investigation n])
  | .listed i connected =>
      match s.tasks[i]? with
      | some (.listing k n) =>
          let s := { s with tasks := s.tasks.eraseIdx i }
          if connected then (if (s.links n).isSome then some (s.start (.online n), []) else none)
          else some ({ s with
            cases    := s.cases.insert n
            requests := s.requests ++ [⟨.probe k, n⟩] }, [])
      | _ => none
  | .proceed i =>
      (s.tasks[i]?).bind (fun t => { s with tasks := s.tasks.eraseIdx i }.proceed t)
  | .request n plain => some ({ s with requests := s.requests ++ [⟨.other plain, n⟩] }, [])
  | .connected j success =>
      (s.requests[j]?).map (fun r =>
        ({ s with
          requests  := s.requests.eraseIdx j
          responses := s.responses ++ [⟨r.who, r.node, success, success && (s.links r.node).isNone⟩]
          links     :=
            if success then Function.update s.links r.node (some (Link.after (s.links r.node) r.who))
            else s.links }, []))
  | .respond j =>
      (s.responses[j]?).map (fun r =>
        ({ s with responses := s.responses.eraseIdx j }.onResponseConnect r, []))
  | .incoming n =>
      some ({ s with links := Function.update s.links n (some ((s.links n).getD .foreign)) }, [])
  | .dropped n => some ({ s with links := Function.update s.links n none }, [])

/-! ## The condition -/

/-- The disconnection of a node is yet to come. -/
def Task.drops (n : Node) : Task Node → Bool
  | .concluded m success _ => success && m = n
  | .disconnect m _        => m = n
  | _                      => false

omit [DecidableEq Node] in
/-- The node whose case is opened. -/
def State.opens (s : State Node) : Event Node → Option Node
  | .listed i false =>
      match s.tasks[i]? with
      | some (.listing _ n) => some n
      | _                   => none
  | _ => none

/-- The success that concludes a case. -/
def State.concludes (s : State Node) : Event Node → Option (Response Node)
  | .respond j => (s.responses[j]?).filter
      (fun r => r.success && r.who.plain && decide (r.node ∈ s.cases))
  | _          => none

/-- The node to which a connection is made, or one asked for by others. -/
def State.relinks (s : State Node) : Event Node → Option Node
  | .connected j true => ((s.requests[j]?).filter
      (fun r => s.links r.node ≠ some (Link.after (s.links r.node) r.who))).map Request.node
  | .incoming n       => if s.links n = none then some n else none
  | _                 => none

/-- **THE CONDITION**: no case is opened twice; a success that concludes a case answers
    the request of an investigation, which made the connection, and nobody else has
    asked for it; and until it is dropped nobody else connects to the node. -/
def Undisturbed (s : State Node) (e : Event Node) : Prop :=
  (∀ n ∈ s.opens e, n ∉ s.cases)
    ∧ (∀ r ∈ s.concludes e, ownLink (s.links r.node) r.maker = true)
    ∧ ∀ n ∈ s.relinks e, ∀ t ∈ s.tasks, t.drops n = false

instance Undisturbed.decidable (s : State Node) (e : Event Node) : Decidable (Undisturbed s e) :=
  inferInstanceAs (Decidable (_ ∧ _ ∧ _))

/-! ## Counting reports -/

/-- The investigations of a node. -/
def investigations (n : Node) (tr : List (Output Node)) : ℕ :=
  tr.countP (fun o => match o with
    | .investigation m => m = n
    | _                => false)

/-- Its reports. -/
def reports (n : Node) (tr : List (Output Node)) : ℕ :=
  tr.countP (fun o => match o with
    | .report m _ => m = n
    | _           => false)

/-- A report of the node is yet to come from the task. -/
def Task.owes (n : Node) : Task Node → Bool
  | .listing _ m     => m = n
  | .online m        => m = n
  | .concluded m _ _ => m = n
  | .disconnect _ _  => false

/-- The reports yet to come. -/
def State.owed (s : State Node) (n : Node) : ℕ :=
  s.tasks.countP (Task.owes n) + if n ∈ s.cases then 1 else 0

theorem owed_start (s : State Node) (t : Task Node) (n : Node) :
    (s.start t).owed n = s.owed n + if t.owes n then 1 else 0 := by
  unfold State.owed State.start
  rw [List.countP_append, List.countP_singleton, Nat.add_right_comm]

/-- A task that goes on leaves the others. -/
theorem owed_eraseIdx {s : State Node} {i : ℕ} {t : Task Node} (ht : s.tasks[i]? = some t)
    (n : Node) : s.owed n
      = State.owed { s with tasks := s.tasks.eraseIdx i } n + if t.owes n then 1 else 0 := by
  unfold State.owed
  rw [(Machine.pool_perm ht).countP_eq, List.countP_cons, Nat.add_right_comm]

/-- Every investigation has been reported, or will be. -/
def Counted (tr : List (Output Node)) (s : State Node) : Prop :=
  ∀ n, reports n tr + s.owed n = investigations n tr

/-- The reports and what is owed change together. -/
theorem Counted.step {tr out : List (Output Node)} {s s' : State Node} (h : Counted tr s)
    (hout : ∀ n, reports n out + s'.owed n = s.owed n + investigations n out) :
    Counted (tr ++ out) s' := by
  intro n
  have h := h n
  have hout := hout n
  unfold reports investigations at *
  rw [List.countP_append, List.countP_append]
  omega

theorem owed_onResponseConnect (s : State Node) (r : Response Node) (n : Node) :
    (s.onResponseConnect r).owed n = s.owed n := by
  unfold State.onResponseConnect
  split
  · rename_i hr
    rw [owed_start]
    unfold State.owed
    by_cases hn : r.node = n
    · subst hn
      simp [Task.owes, hr.2]
    · simp [Task.owes, hn, Ne.symm hn]
  · rfl

/-- **STEP**: reports. -/
theorem counted_step {tr out : List (Output Node)} {s s' : State Node} {e : Event Node}
    (h : Counted tr s) (hcond : Undisturbed s e) (hs : step s e = some (s', out)) :
    Counted (tr ++ out) s' := by
  refine h.step (fun n => ?_)
  cases e with
  | investigate m =>
      cases hs
      rw [owed_start]
      simp only [reports, investigations, Task.owes, List.countP_singleton, Bool.false_eq_true,
        if_false, Nat.zero_add]
      rfl
  | listed i connected =>
      simp only [Gumshoe.step] at hs
      split at hs
      · rename_i k m ht
        rw [owed_eraseIdx ht n]
        cases connected with
        | true =>
            simp only [if_true] at hs
            obtain ⟨-, heq⟩ := Option.ite_none_right_eq_some.mp hs
            cases heq
            rw [owed_start]
            simp [reports, investigations, Task.owes]
        | false =>
            cases hs
            have hnew : m ∉ s.cases := by
              refine hcond.1 m ?_
              simp only [State.opens, ht]
              rfl
            unfold State.owed
            by_cases hm : m = n
            · subst hm
              simp [Task.owes, hnew, reports, investigations]
            · simp [Task.owes, hm, Ne.symm hm, reports, investigations]
      · cases hs
  | proceed i =>
      obtain ⟨t, ht, hproc⟩ := Option.bind_eq_some_iff.mp hs
      rw [owed_eraseIdx ht n]
      cases t with
      | listing k m => cases hproc
      | online m =>
          cases hproc
          simp [reports, investigations, Task.owes, Nat.add_comm]
      | concluded m success maker =>
          cases hproc
          cases success with
          | true =>
              simp only [if_true]
              rw [owed_start]
              simp [reports, investigations, Task.owes, Nat.add_comm]
          | false => simp [reports, investigations, Task.owes, Nat.add_comm]
      | disconnect m maker =>
          cases hproc
          simp [reports, investigations, Task.owes]
  | request m plain =>
      cases hs
      exact Nat.add_comm _ _
  | connected j success =>
      obtain ⟨r, -, heq⟩ := Option.map_eq_some_iff.mp hs
      cases heq
      exact Nat.add_comm _ _
  | respond j =>
      obtain ⟨r, -, heq⟩ := Option.map_eq_some_iff.mp hs
      cases heq
      rw [owed_onResponseConnect]
      exact Nat.add_comm _ _
  | incoming m =>
      cases hs
      exact Nat.add_comm _ _
  | dropped m =>
      cases hs
      exact Nat.add_comm _ _

/-! ## Cases have a request under way -/

/-- A case waits for the answer to a request of its own. -/
def Waited (s : State Node) : Prop :=
  ∀ n ∈ s.cases, (∃ k, ⟨.probe k, n⟩ ∈ s.requests)
    ∨ ∃ k success made, ⟨.probe k, n, success, made⟩ ∈ s.responses

omit [DecidableEq Node] in
theorem Waited.mono {s s' : State Node} (h : Waited s) (hcases : ∀ n ∈ s'.cases, n ∈ s.cases)
    (hrequests : ∀ r ∈ s.requests, r ∈ s'.requests)
    (hresponses : ∀ r ∈ s.responses, r ∈ s'.responses) : Waited s' := by
  intro n hn
  rcases h n (hcases n hn) with ⟨k, hk⟩ | ⟨k, success, made, hk⟩
  · exact Or.inl ⟨k, hrequests _ hk⟩
  · exact Or.inr ⟨k, success, made, hresponses _ hk⟩

/-- An answer concludes the case that waits for it. -/
theorem waited_onResponseConnect {s : State Node} {j : ℕ} {r : Response Node} (h : Waited s)
    (hr : s.responses[j]? = some r) :
    Waited (State.onResponseConnect { s with responses := s.responses.eraseIdx j } r) := by
  have hrest : ∀ n ∈ s.cases, r.node ≠ n ∨ r.who.plain = false →
      (∃ k, ⟨.probe k, n⟩ ∈ s.requests)
        ∨ ∃ k success made, ⟨.probe k, n, success, made⟩ ∈ s.responses.eraseIdx j := by
    intro n hn hother
    rcases h n hn with hrequest | ⟨k, success, made, hmem⟩
    · exact Or.inl hrequest
    · rcases List.mem_cons.mp ((Machine.pool_perm hr).mem_iff.mp hmem) with rfl | hmem
      · exact hother.elim (fun hne => absurd rfl hne) nofun
      · exact Or.inr ⟨k, success, made, hmem⟩
  unfold State.onResponseConnect
  split
  · intro n hn
    obtain ⟨hn, hne⟩ := List.mem_filter.mp hn
    exact hrest n hn (Or.inl (Ne.symm (of_decide_eq_true hne)))
  · rename_i hnot
    intro n hn
    refine hrest n hn ?_
    by_cases hnode : r.node = n
    · subst hnode
      exact Or.inr (Bool.eq_false_iff.mpr (fun hplain => hnot ⟨hplain, hn⟩))
    · exact Or.inl hnode

theorem waited_step {s s' : State Node} {out : List (Output Node)} {e : Event Node}
    (h : Waited s) (hs : step s e = some (s', out)) : Waited s' := by
  cases e with
  | investigate m =>
      cases hs
      exact h
  | listed i connected =>
      simp only [Gumshoe.step] at hs
      split at hs
      · rename_i k m ht
        cases connected with
        | true =>
            simp only [if_true] at hs
            obtain ⟨-, heq⟩ := Option.ite_none_right_eq_some.mp hs
            cases heq
            exact h
        | false =>
            cases hs
            intro n hn
            rcases List.mem_insert_iff.mp hn with rfl | hn
            · exact Or.inl ⟨k, List.mem_append_right _ (List.mem_singleton_self _)⟩
            · exact (h n hn).imp (fun ⟨k, hk⟩ => ⟨k, List.mem_append_left _ hk⟩) id
      · cases hs
  | proceed i =>
      obtain ⟨t, ht, hproc⟩ := Option.bind_eq_some_iff.mp hs
      cases t with
      | listing k m => cases hproc
      | online m =>
          cases hproc
          exact h
      | concluded m success maker =>
          cases hproc
          cases success with
          | true => exact h
          | false => exact h
      | disconnect m maker =>
          cases hproc
          exact h
  | request m plain =>
      cases hs
      exact h.mono (fun _ hn => hn) (fun _ hr => List.mem_append_left _ hr) (fun _ hr => hr)
  | connected j success =>
      obtain ⟨r, hr, heq⟩ := Option.map_eq_some_iff.mp hs
      cases heq
      intro n hn
      rcases h n hn with ⟨k, hk⟩ | ⟨k, success', made, hk⟩
      · rcases List.mem_cons.mp ((Machine.pool_perm hr).mem_iff.mp hk) with rfl | hk
        · exact Or.inr ⟨k, success, _, List.mem_append_right _ (List.mem_singleton_self _)⟩
        · exact Or.inl ⟨k, hk⟩
      · exact Or.inr ⟨k, success', made, List.mem_append_left _ hk⟩
  | respond j =>
      obtain ⟨r, hr, heq⟩ := Option.map_eq_some_iff.mp hs
      cases heq
      exact waited_onResponseConnect h hr
  | incoming m =>
      cases hs
      exact h
  | dropped m =>
      cases hs
      exact h

/-! ## Disconnections -/

/-- A disconnection to come is of an own connection. -/
def Task.fair (links : Node → Option Link) : Task Node → Bool
  | .concluded n success maker => !success || ownLink (links n) maker
  | .disconnect n maker        => ownLink (links n) maker
  | _                          => true

theorem fair_congr {links links' : Node → Option Link} {t : Task Node} {n : Node}
    (h : ∀ m, m ≠ n → links' m = links m) (ht : t.drops n = false) :
    t.fair links' = t.fair links := by
  cases t with
  | listing k m => rfl
  | online m => rfl
  | concluded m success maker =>
      cases success with
      | false => rfl
      | true =>
          have hne : m ≠ n := by simpa [Task.drops] using ht
          simp only [Task.fair, h m hne]
  | disconnect m maker =>
      have hne : m ≠ n := by simpa [Task.drops] using ht
      simp only [Task.fair, h m hne]

/-- The connections whose disconnection is to come are nobody else's. -/
def Owned (s : State Node) : Prop := ∀ t ∈ s.tasks, t.fair s.links = true

omit [DecidableEq Node] in
theorem Owned.start {s : State Node} {t : Task Node} (h : Owned s) (ht : t.fair s.links = true) :
    Owned (s.start t) := by
  intro t' ht'
  rcases List.mem_append.mp ht' with ht' | ht'
  · exact h t' ht'
  · cases List.mem_singleton.mp ht'
    exact ht

omit [DecidableEq Node] in
theorem Owned.eraseIdx {s : State Node} (h : Owned s) (i : ℕ) :
    Owned { s with tasks := s.tasks.eraseIdx i } :=
  fun t ht => h t (List.mem_of_mem_eraseIdx ht)

/-- A connection changes whose disconnection is not to come. -/
theorem Owned.update {s : State Node} (h : Owned s) {n : Node} {link : Option Link}
    (hlink : s.links n ≠ link → ∀ t ∈ s.tasks, t.drops n = false) :
    Owned { s with links := Function.update s.links n link } := by
  by_cases hsame : s.links n = link
  · rw [← hsame, Function.update_eq_self]
    exact h
  · intro t ht
    rw [← h t ht]
    exact fair_congr (fun m hm => Function.update_of_ne hm _ _) (hlink hsame t ht)

/-- Losing the connection does not make it anybody else's. -/
theorem Owned.dropped {s : State Node} (h : Owned s) (n : Node) :
    Owned { s with links := Function.update s.links n none } := by
  have hgone : ∀ m maker, ownLink (s.links m) maker = true →
      ownLink (Function.update s.links n none m) maker = true := by
    intro m maker hown
    by_cases hm : m = n
    · subst hm
      rw [Function.update_self]
      cases maker with
      | none => cases hown
      | some k => simp [ownLink]
    · rw [Function.update_of_ne hm]
      exact hown
  intro t ht
  have hfair := h t ht
  cases t with
  | listing k m => rfl
  | online m => rfl
  | concluded m success maker =>
      cases success with
      | false => rfl
      | true => exact hgone m maker hfair
  | disconnect m maker => exact hgone m maker hfair

/-- **STEP**: a disconnection is of an own connection. -/
theorem owned_step {s s' : State Node} {out : List (Output Node)} {e : Event Node} (h : Owned s)
    (hcond : Undisturbed s e) (hs : step s e = some (s', out)) :
    Owned s' ∧ ∀ n own, .disconnect n own ∈ out → own = true := by
  obtain ⟨-, hconcludes, hrelinks⟩ := hcond
  cases e with
  | investigate m =>
      cases hs
      refine ⟨Owned.start (s := { s with count := s.count + 1 }) h rfl, ?_⟩
      rintro n own (_ | ⟨_, ⟨⟩⟩)
  | listed i connected =>
      simp only [Gumshoe.step] at hs
      split at hs
      · rename_i k m ht
        cases connected with
        | true =>
            simp only [if_true] at hs
            obtain ⟨-, heq⟩ := Option.ite_none_right_eq_some.mp hs
            cases heq
            exact ⟨(h.eraseIdx i).start rfl, nofun⟩
        | false =>
            cases hs
            exact ⟨h.eraseIdx i, nofun⟩
      · cases hs
  | proceed i =>
      obtain ⟨t, ht, hproc⟩ := Option.bind_eq_some_iff.mp hs
      have hfair := h t (List.mem_of_getElem? ht)
      cases t with
      | listing k m => cases hproc
      | online m =>
          cases hproc
          refine ⟨h.eraseIdx i, ?_⟩
          rintro n own (_ | ⟨_, ⟨⟩⟩)
      | concluded m success maker =>
          cases hproc
          cases success with
          | true =>
              refine ⟨(h.eraseIdx i).start hfair, ?_⟩
              rintro n own (_ | ⟨_, ⟨⟩⟩)
          | false =>
              refine ⟨h.eraseIdx i, ?_⟩
              rintro n own (_ | ⟨_, ⟨⟩⟩)
      | disconnect m maker =>
          cases hproc
          refine ⟨h.eraseIdx i, ?_⟩
          intro n own hmem
          cases List.mem_singleton.mp hmem
          exact hfair
  | request m plain =>
      cases hs
      exact ⟨h, nofun⟩
  | connected j success =>
      obtain ⟨r, hr, heq⟩ := Option.map_eq_some_iff.mp hs
      cases heq
      cases success with
      | false => exact ⟨h, nofun⟩
      | true =>
          refine ⟨h.update (fun hchanged => hrelinks r.node ?_), nofun⟩
          simp only [State.relinks, hr, Option.filter_some, decide_eq_true hchanged, if_true,
            Option.map_some]
          rfl
  | respond j =>
      obtain ⟨r, hr, heq⟩ := Option.map_eq_some_iff.mp hs
      cases heq
      refine ⟨?_, nofun⟩
      unfold State.onResponseConnect
      split
      · rename_i htaken
        refine Owned.start (s := { s with
          cases := s.cases.filter (fun n => n ≠ r.node)
          responses := s.responses.eraseIdx j }) h ?_
        cases hsuccess : r.success with
        | false => rfl
        | true =>
            refine hconcludes r ?_
            simp only [State.concludes, hr, Option.filter_some, hsuccess, htaken.1, Bool.true_and,
              decide_eq_true htaken.2, if_true]
            rfl
      · exact h
  | incoming m =>
      cases hs
      refine ⟨h.update (fun hchanged => hrelinks m ?_), nofun⟩
      cases hm : s.links m with
      | none =>
          simp only [State.relinks, hm, if_true]
          rfl
      | some l =>
          rw [hm] at hchanged
          exact absurd rfl hchanged
  | dropped m =>
      cases hs
      exact ⟨h.dropped m, nofun⟩

/-! ## All runs -/

omit [DecidableEq Node] in
/-- Everything under way has come to its end. -/
def State.AtRest (s : State Node) : Prop := s.tasks = [] ∧ s.requests = [] ∧ s.responses = []

/-- Only own connections are dropped; a node has no more reports than investigations,
    and as many when all is at rest. -/
def Sound (tr : List (Output Node)) (s : State Node) : Prop :=
  (∀ n own, .disconnect n own ∈ tr → own = true)
    ∧ (∀ n, reports n tr ≤ investigations n tr)
    ∧ (s.AtRest → ∀ n, reports n tr = investigations n tr)

/-- **HEADLINE**: an undisturbed run drops its own connections only and reports each
    investigation once. -/
theorem cases_sound {es : List (Event Node)} {s : State Node} {tr : List (Output Node)}
    (hcond : Machine.Along step Undisturbed State.init es)
    (hrun : Machine.run step State.init es = some (s, tr)) : Sound tr s := by
  have hinv : Counted tr s ∧ Waited s ∧ Owned s ∧ ∀ n own, .disconnect n own ∈ tr → own = true := by
    have howned : Owned (State.init : State Node) := by
      intro t ht
      cases ht
    refine Machine.run_invariant (I := fun _ tr s => Counted tr s ∧ Waited s ∧ Owned s
      ∧ ∀ n own, .disconnect n own ∈ tr → own = true)
      ⟨fun _ => rfl, nofun, howned, nofun⟩ ?_ hcond hrun
    rintro _ tr s e s' out ⟨hcounted, hwaited, howned, hhonest⟩ hcond hs
    obtain ⟨howned', hout⟩ := owned_step howned hcond hs
    refine ⟨counted_step hcounted hcond hs, waited_step hwaited hs, howned', ?_⟩
    intro n own hmem
    exact (List.mem_append.mp hmem).elim (hhonest n own) (hout n own)
  obtain ⟨hcounted, hwaited, -, hhonest⟩ := hinv
  refine ⟨hhonest, fun n => Nat.le.intro (hcounted n), ?_⟩
  rintro ⟨htasks, hrequests, hresponses⟩ n
  have hcases : n ∉ s.cases := by
    intro hn
    rcases hwaited n hn with ⟨k, hk⟩ | ⟨k, success, made, hk⟩
    · rw [hrequests] at hk
      cases hk
    · rw [hresponses] at hk
      cases hk
  have hcount := hcounted n
  unfold State.owed at hcount
  rw [htasks, if_neg hcases] at hcount
  exact hcount

end

/-- Another module asks for a connection to node 1 while it is being investigated, and
    gets it first. -/
def foreignRun : List (Event ℕ) :=
  [.investigate 1, .listed 0 false, .request 1 true, .connected 1 true, .respond 0, .proceed 0,
    .proceed 0, .connected 0 true, .respond 0]

/-- Two investigations of a node at a time. -/
def twiceRun : List (Event ℕ) :=
  [.investigate 1, .investigate 1, .listed 0 false, .listed 0 false, .connected 0 false,
    .connected 0 false, .respond 0, .respond 0, .proceed 0]

/-- **COUNTEREXAMPLE**: a connection that another module asked for is dropped; and two
    investigations have one report. -/
theorem foreign_drop :
    (¬ ∀ (es : List (Event ℕ)) (s : State ℕ) (tr : List (Output ℕ)),
        Machine.run step State.init es = some (s, tr) →
          ∀ n own, .disconnect n own ∈ tr → own = true)
      ∧ ¬ ∀ (es : List (Event ℕ)) (s : State ℕ) (tr : List (Output ℕ)),
        Machine.run step State.init es = some (s, tr) → s.AtRest →
          ∀ n, reports n tr = investigations n tr := by
  constructor
  · intro h
    have hview : (Machine.run step State.init foreignRun).map Prod.snd
        = some [.investigation 1, .report 1 true, .disconnect 1 false] := by
      decide
    obtain ⟨⟨s, tr⟩, hrun, rfl⟩ := Option.map_eq_some_iff.mp hview
    exact Bool.false_ne_true (h foreignRun s _ hrun 1 false (by decide))
  · intro h
    have hview : (Machine.run step State.init twiceRun).map
        (fun p => (p.1.tasks, p.1.requests, p.1.responses, p.2))
        = some ([], [], [], [.investigation 1, .investigation 1, .report 1 false]) := by
      decide
    obtain ⟨⟨s, tr⟩, hrun, hs⟩ := Option.map_eq_some_iff.mp hview
    simp only [Prod.mk.injEq] at hs
    obtain ⟨htasks, hrequests, hresponses, rfl⟩ := hs
    exact absurd (h twiceRun s _ hrun ⟨htasks, hrequests, hresponses⟩ 1) (by decide)

/-- A node that is connected already, one that is found and dropped, after which
    another module connects to it, and one that is offline. -/
def undisturbedRun : List (Event ℕ) :=
  [.investigate 1, .investigate 2, .investigate 3, .incoming 1, .listed 0 true, .listed 0 false,
    .listed 0 false, .connected 0 true, .request 2 true, .respond 0, .connected 0 false, .proceed 0,
    .proceed 0, .respond 0, .proceed 0, .dropped 2, .connected 0 true, .respond 0, .proceed 0]

theorem cases_sound_undisturbedRun :
    Machine.Along step Undisturbed State.init undisturbedRun
      ∧ ∃ s, Machine.run step State.init undisturbedRun
          = some (s, [.investigation 1, .investigation 2, .investigation 3, .report 1 true,
            .report 2 true, .disconnect 2 true, .report 3 false])
        ∧ Sound [.investigation 1, .investigation 2, .investigation 3, .report 1 true,
            .report 2 true, .disconnect 2 true, .report 3 false] s := by
  have hcond : Machine.Along step Undisturbed State.init undisturbedRun := by
    decide
  have hview : (Machine.run step State.init undisturbedRun).map Prod.snd
      = some [.investigation 1, .investigation 2, .investigation 3, .report 1 true,
        .report 2 true, .disconnect 2 true, .report 3 false] := by
    decide
  obtain ⟨⟨s, tr⟩, hrun, rfl⟩ := Option.map_eq_some_iff.mp hview
  exact ⟨hcond, s, hrun, cases_sound hcond hrun⟩

end Gumshoe
