import Clboss.MachineProofs
import Mathlib.Data.List.Nodup
import Mathlib.Data.List.Range

/-! # `Ev::map` — one task per element, and whoever is last goes on

    The loop makes a concurrent task for each element and yields after each;
    every task runs the function on its element, writes what comes of it into
    the place of the element and takes itself off `pending`.  After the loop
    the caller either finds `pending` at zero or leaves itself behind as the
    `waiter`, and then the task that brings `pending` to zero goes on with it.

    `pending` counts ALL elements from the beginning, so it is zero only when
    all of them have finished, however far the loop has come (`Counted`); and
    the two ways of going on exclude each other (`Stage`). -/

namespace EvMap

open Machine

variable {A B X : Type}

/-! ## The code -/

/-- What running the function on an element does. -/
inductive Called (B X : Type) where
  /-- It throws when called. -/
  | throws (x : X)
  /-- The action it returned finishes at once. -/
  | finishes (r : Except X B)
  /-- The action goes on later. -/
  | later
deriving DecidableEq

inductive Event (B X : Type) where
  | run
  | resume
  | start (k : ℕ) (r : Called B X)
  | finish (k : ℕ) (r : Except X B)

inductive Output (A B X : Type) where
  | called (i : ℕ) (a : A)
  | finished (i : ℕ) (r : Except X B)
  | completed (r : Except X (List B))
  /-- A result that is not there is dereferenced. -/
  | undefined

/-- Where the caller of `run` is. -/
inductive Caller where
  | before
  /-- In the yield after making the task of an element. -/
  | looping (i : ℕ)
  /-- It has left `waiter` behind, or has gone on. -/
  | left
deriving DecidableEq

/-- `MapRun`, with the caller, the tasks that were made and not started, and the
    elements whose actions have started and not finished. -/
structure State (A B X : Type) where
  actions : List A
  results : List (Option B)
  exc     : Option X
  pending : ℕ
  waiter  : Bool
  caller  : Caller
  tasks   : List ℕ
  running : List ℕ

/-- `MapRun::create`. -/
def create (actions : List A) : State A B X :=
  ⟨actions, List.replicate actions.length none, none, actions.length, false, .before, [], []⟩

/-- `extract`. -/
def State.extract (s : State A B X) : List (Output A B X) :=
  match s.exc with
  | some x => [.completed (.error x)]
  | none   =>
      match s.results.mapM id with
      | some rv => [.completed (.ok rv)]
      | none    => [.undefined]

/-- `wait_completion`. -/
def State.waitCompletion (s : State A B X) : State A B X × List (Output A B X) :=
  if s.pending = 0 then (s, s.extract) else ({ s with waiter := true }, [])

/-- `loop`. -/
def State.loop (s : State A B X) (i : ℕ) : State A B X × List (Output A B X) :=
  if i = s.actions.length then { s with caller := .left }.waitCompletion
  else ({ s with caller := .looping i, tasks := s.tasks ++ [i] }, [])

/-- `finish`, in `background`. -/
def State.finish (s : State A B X) : State A B X × List (Output A B X) :=
  let s := { s with pending := s.pending - 1 }
  if s.pending = 0 ∧ s.waiter = true then ({ s with waiter := false }, s.extract) else (s, [])

/-- The two callbacks in `background`. -/
def State.background (s : State A B X) (i : ℕ) (r : Except X B) :
    State A B X × List (Output A B X) :=
  match r with
  | .ok val  => { s with results := s.results.set i (some val) }.finish
  | .error x => { s with exc := some x }.finish

def step (s : State A B X) : Event B X → Option (State A B X × List (Output A B X))
  | .run =>
      match s.caller with
      | .before => some (s.loop 0)
      | _       => none
  | .resume =>
      match s.caller with
      | .looping i => some (s.loop (i + 1))
      | _          => none
  | .start k r =>
      match s.tasks[k]? with
      | none   => none
      | some i =>
          match s.actions[i]? with
          | none   => none
          | some a =>
              let s' := { s with tasks := s.tasks.eraseIdx k }
              match r with
              | .later      => some ({ s' with running := s'.running ++ [i] }, [.called i a])
              | .throws x   =>
                  let (s', out) := s'.background i (.error x)
                  some (s', .called i a :: .finished i (.error x) :: out)
              | .finishes r =>
                  let (s', out) := s'.background i r
                  some (s', .called i a :: .finished i r :: out)
  | .finish k r =>
      match s.running[k]? with
      | none   => none
      | some i =>
          let (s', out) := { s with running := s.running.eraseIdx k }.background i r
          some (s', .finished i r :: out)

/-! ## What a map is to do -/

def Output.call : Output A B X → Option ℕ
  | .called i _ => some i
  | _           => none

def Output.finish : Output A B X → Option ℕ
  | .finished i _ => some i
  | _             => none

def Output.completion : Output A B X → Option (Except X (List B))
  | .completed r => some r
  | _            => none

def calls (tr : List (Output A B X)) : List ℕ := tr.filterMap Output.call
def finishes (tr : List (Output A B X)) : List ℕ := tr.filterMap Output.finish
def completions (tr : List (Output A B X)) : List (Except X (List B)) :=
  tr.filterMap Output.completion

/-- Nothing is left to happen. -/
def State.Done (s : State A B X) : Prop :=
  s.caller = .left ∧ s.tasks = [] ∧ s.running = []

/-- The map does what it is to do, as far as it has come. -/
structure Mapped (as : List A) (tr : List (Output A B X)) (s : State A B X) : Prop where
  once     : (calls tr).Subperm (List.range as.length)
  argument : ∀ i a, .called i a ∈ tr → as[i]? = some a
  single   : (completions tr).length ≤ 1
  after    : ∀ tr₁ r tr₂, tr = tr₁ ++ .completed r :: tr₂ →
    (finishes tr₁).Perm (List.range as.length)
  passed   : ∀ bs, .completed (.ok bs) ∈ tr → bs.length = as.length
    ∧ ∀ i b, bs[i]? = some b → .finished i (.ok b) ∈ tr
  failed   : ∀ x, .completed (.error x) ∈ tr → ∃ i, .finished i (.error x) ∈ tr
  exact    : ∀ bs, .completed (.ok bs) ∈ tr → ∀ i x, .finished i (.error x) ∉ tr
  defined  : .undefined ∉ tr
  done     : s.Done → (calls tr).Perm (List.range as.length) ∧ (completions tr).length = 1

/-! ## The count -/

/-- How many tasks were made. -/
def Caller.made (n : ℕ) : Caller → ℕ
  | .before    => 0
  | .looping i => i + 1
  | .left      => n

/-- Every element a task was made for is in a task or called, every one called is running
    or finished, and `pending` counts all that have not finished. -/
structure Counted (as : List A) (tr : List (Output A B X)) (s : State A B X) : Prop where
  actions  : s.actions = as
  looping  : ∀ i, s.caller = .looping i → i < as.length
  calls    : (calls tr ++ s.tasks).Perm (List.range (s.caller.made as.length))
  ends     : (finishes tr ++ s.running).Perm (EvMap.calls tr)
  pending  : s.pending + (finishes tr).length = as.length
  argument : ∀ i a, .called i a ∈ tr → as[i]? = some a
  length   : s.results.length = as.length
  results  : ∀ i b, s.results[i]? = some (some b) → .finished i (.ok b) ∈ tr
  written  : s.exc = none → ∀ i ∈ finishes tr, ∃ b, s.results[i]? = some (some b)
  passed   : s.exc = none → ∀ i x, .finished i (.error x) ∉ tr
  failed   : ∀ x, s.exc = some x → ∃ i, .finished i (.error x) ∈ tr
  defined  : .undefined ∉ tr

/-- What a completion is to say, of what has finished. -/
def Verdict (as : List A) (tr : List (Output A B X)) : Except X (List B) → Prop
  | .ok bs   => bs.length = as.length ∧ (∀ i b, bs[i]? = some b → .finished i (.ok b) ∈ tr)
      ∧ ∀ i x, .finished i (.error x) ∉ tr
  | .error x => ∃ i, .finished i (.error x) ∈ tr

/-- The map has not gone on; if its caller waits, somebody is left to call it. -/
structure Waiting (tr : List (Output A B X)) (s : State A B X) : Prop where
  completions : completions tr = []
  waiter      : s.waiter = true ↔ s.caller = .left
  pending     : s.caller = .left → 0 < s.pending

/-- The map has gone on, as the last thing. -/
def Completed (as : List A) (tr : List (Output A B X)) (s : State A B X) : Prop :=
  s.Done ∧ ∃ tr₁ r, tr = tr₁ ++ [.completed r] ∧ completions tr₁ = []
    ∧ (finishes tr₁).Perm (List.range as.length) ∧ Verdict as tr₁ r

/-- **INVARIANT**. -/
structure Inv (as : List A) (tr : List (Output A B X)) (s : State A B X) : Prop
    extends Counted as tr s where
  stage : Waiting tr s ∨ Completed as tr s

variable {as : List A} {tr : List (Output A B X)} {s s' : State A B X}
  {out : List (Output A B X)} {e : Event B X} {i k : ℕ}

theorem calls_append : calls (tr ++ out) = calls tr ++ calls out := List.filterMap_append

theorem finishes_append : finishes (tr ++ out) = finishes tr ++ finishes out :=
  List.filterMap_append

theorem completions_append : completions (tr ++ out) = completions tr ++ completions out :=
  List.filterMap_append

theorem calls_called (a : A) : calls (.called i a :: out) = i :: calls out := rfl

theorem finishes_finished (r : Except X B) :
    finishes (.finished i r :: out : List (Output A B X)) = i :: finishes out := rfl

theorem mem_of_mem_snoc {o o' : Output A B X} (h : o ∈ tr ++ [o']) (hne : o ≠ o') : o ∈ tr := by
  rcases List.mem_append.mp h with h | h
  · exact h
  · exact absurd (List.mem_singleton.mp h) hne

theorem Counted.made_le (h : Counted as tr s) : s.caller.made as.length ≤ as.length := by
  cases hc : s.caller with
  | before    => exact Nat.zero_le _
  | looping i => exact h.looping i hc
  | left      => exact Nat.le_refl _

/-- What was called or is in a task is an element. -/
theorem Counted.lt (h : Counted as tr s) (hi : i ∈ EvMap.calls tr ++ s.tasks) :
    i < as.length :=
  Nat.lt_of_lt_of_le (List.mem_range.mp (h.calls.mem_iff.mp hi)) h.made_le

/-- With `pending` at zero everybody has finished. -/
theorem Counted.all_finished (h : Counted as tr s) (hpending : s.pending = 0) :
    (finishes tr).Perm (List.range as.length) ∧ s.tasks = [] ∧ s.running = [] := by
  have hcount := h.pending
  have hcalls := h.calls.length_eq
  have hends := h.ends.length_eq
  have hmade := h.made_le
  rw [List.length_append, List.length_range] at hcalls
  rw [List.length_append] at hends
  have htasks : s.tasks = [] := List.length_eq_zero_iff.mp (by omega)
  have hrunning : s.running = [] := List.length_eq_zero_iff.mp (by omega)
  have hall : s.caller.made as.length = as.length := by omega
  refine ⟨?_, htasks, hrunning⟩
  have hperm := h.calls
  rw [htasks, List.append_nil, hall] at hperm
  have hends' := h.ends
  rw [hrunning, List.append_nil] at hends'
  exact hends'.trans hperm

/-- The task of an element is made. -/
theorem Counted.make (h : Counted as tr s) (hi : s.caller.made as.length = i)
    (hlt : i < as.length) :
    Counted as tr { s with caller := .looping i, tasks := s.tasks ++ [i] } :=
  { h with
    looping := fun j hj => by
      cases hj
      exact hlt
    calls := by
      have hcalls := h.calls
      rw [hi] at hcalls
      show (EvMap.calls tr ++ (s.tasks ++ [i])).Perm (List.range (i + 1))
      rw [List.range_succ, ← List.append_assoc]
      exact hcalls.append_right _ }

/-- The loop comes to its end. -/
theorem Counted.leave (h : Counted as tr s) (hi : s.caller.made as.length = as.length) :
    Counted as tr { s with caller := .left } :=
  { h with
    looping := nofun
    calls   := by
      have hcalls := h.calls
      rw [hi] at hcalls
      exact hcalls }

/-- A task runs the function on its element. -/
theorem Counted.call {a : A} (h : Counted as tr s) (hk : s.tasks[k]? = some i)
    (ha : as[i]? = some a) :
    Counted as (tr ++ [.called i a])
      { s with tasks := s.tasks.eraseIdx k, running := s.running ++ [i] } := by
  have hperm := pool_perm hk
  have hcalls : EvMap.calls (tr ++ [.called i a]) = EvMap.calls tr ++ [i] := calls_append
  have hfinishes : finishes (tr ++ [.called i a]) = finishes tr :=
    finishes_append.trans (List.append_nil _)
  refine ⟨h.actions, h.looping, ?_, ?_, ?_, fun j a' hj => ?_, h.length, fun j b hj => ?_,
    fun he j hj => ?_, fun he j x hj => h.passed he j x (mem_of_mem_snoc hj nofun),
    fun x hx => ?_, fun hu => h.defined (mem_of_mem_snoc hu nofun)⟩
  · rw [hcalls, List.append_assoc]
    exact (hperm.symm.append_left _).trans h.calls
  · rw [hcalls, hfinishes, ← List.append_assoc]
    exact h.ends.append_right _
  · rw [hfinishes]
    exact h.pending
  · rcases List.mem_append.mp hj with hj | hj
    · exact h.argument j a' hj
    · cases List.mem_singleton.mp hj
      exact ha
  · exact List.mem_append_left _ (h.results j b hj)
  · rw [hfinishes] at hj
    exact h.written he j hj
  · obtain ⟨j, hj⟩ := h.failed x hx
    exact ⟨j, List.mem_append_left _ hj⟩

/-- Which of the running actions is next does not matter. -/
theorem Counted.pick (h : Counted as tr s) (hk : s.running[k]? = some i) :
    Counted as tr { s with running := s.running.eraseIdx k ++ [i] } := by
  have hperm : (s.running.eraseIdx k ++ [i]).Perm s.running :=
    (List.perm_append_singleton _ _).trans (pool_perm hk).symm
  exact { h with ends := (hperm.append_left _).trans h.ends }

/-- The results after an action has finished. -/
def stored (r : Except X B) (i : ℕ) (results : List (Option B)) : List (Option B) :=
  match r with
  | .ok val  => results.set i (some val)
  | .error _ => results

/-- The exception kept after an action has finished. -/
def noted (r : Except X B) (exc : Option X) : Option X :=
  match r with
  | .ok _    => exc
  | .error x => some x

theorem background_eq (s : State A B X) (i : ℕ) (r : Except X B) :
    s.background i r
      = { s with results := stored r i s.results, exc := noted r s.exc }.finish := by
  cases r <;> rfl

/-- An action has finished. -/
theorem Counted.finish (r : Except X B)
    (h : Counted as tr { s with running := s.running ++ [i] }) :
    Counted as (tr ++ [.finished i r])
      { s with results := stored r i s.results, exc := noted r s.exc,
               pending := s.pending - 1 } := by
  have hcalls : EvMap.calls (tr ++ [.finished i r]) = EvMap.calls tr :=
    calls_append.trans (List.append_nil _)
  have hfinishes : finishes (tr ++ [.finished i r]) = finishes tr ++ [i] := finishes_append
  have hi : i < as.length := by
    refine h.lt (List.mem_append_left _ (h.ends.mem_iff.mp ?_))
    exact List.mem_append_right _ (List.mem_append_right _ (List.mem_singleton_self i))
  have hlength : s.results.length = as.length := h.length
  refine ⟨h.actions, h.looping, ?_, ?_, ?_,
    fun j a hj => h.argument j a (mem_of_mem_snoc hj nofun), ?_, fun j b hj => ?_,
    fun he j hj => ?_, fun he j x hj => ?_, fun x hx => ?_,
    fun hu => h.defined (mem_of_mem_snoc hu nofun)⟩
  · rw [hcalls]
    exact h.calls
  · rw [hcalls, hfinishes, List.append_assoc]
    exact (List.perm_append_comm.append_left _).trans h.ends
  · have hpending : s.pending + (finishes tr).length = as.length := h.pending
    have hends := h.ends.length_eq
    have hall := h.calls.length_eq
    have hmade : s.caller.made as.length ≤ as.length := h.made_le
    simp only [List.length_append, List.length_singleton, List.length_range] at hends hall
    rw [hfinishes, List.length_append, List.length_singleton]
    simp only
    omega
  · cases r with
    | ok val  => exact (List.length_set ..).trans hlength
    | error x => exact hlength
  · cases r with
    | ok val =>
        have hj' : (s.results.set i (some val))[j]? = some (some b) := hj
        by_cases hij : i = j
        · rw [← hij, List.getElem?_set_self (hlength ▸ hi)] at hj'
          cases hj'
          rw [hij]
          exact List.mem_append_right _ (List.mem_singleton_self _)
        · rw [List.getElem?_set_ne hij] at hj'
          exact List.mem_append_left _ (h.results j b hj')
    | error x => exact List.mem_append_left _ (h.results j b hj)
  · cases r with
    | ok val =>
        rw [hfinishes] at hj
        by_cases hij : i = j
        · exact ⟨val, hij ▸ List.getElem?_set_self (hlength ▸ hi)⟩
        · rcases List.mem_append.mp hj with hj | hj
          · obtain ⟨b, hb⟩ := h.written he j hj
            exact ⟨b, (List.getElem?_set_ne hij).trans hb⟩
          · exact absurd (List.mem_singleton.mp hj).symm hij
    | error x => cases he
  · cases r with
    | ok val   => exact h.passed he j x (mem_of_mem_snoc hj nofun)
    | error x' => cases he
  · cases r with
    | ok val =>
        obtain ⟨j, hj⟩ := h.failed x hx
        exact ⟨j, List.mem_append_left _ hj⟩
    | error x' =>
        cases hx
        exact ⟨i, List.mem_append_right _ (List.mem_singleton_self _)⟩

/-! ## Going on -/

/-- Results that are all there. -/
theorem mapM_id_eq {l : List (Option B)} (h : ∀ i < l.length, ∃ b, l[i]? = some (some b)) :
    ∃ bs, l.mapM id = some bs ∧ l = bs.map some := by
  induction l with
  | nil => exact ⟨[], rfl, rfl⟩
  | cons o l ih =>
      obtain ⟨b, hb⟩ := h 0 (Nat.succ_pos _)
      obtain ⟨bs, hbs, hl⟩ := ih fun i hi => h (i + 1) (Nat.succ_lt_succ hi)
      cases hb
      refine ⟨b :: bs, ?_, by rw [hl]; rfl⟩
      rw [List.mapM_cons, hbs]
      rfl

/-- **SPEC (extract)**: when all have finished it completes, with what finished. -/
theorem Counted.extract (h : Counted as tr s) (hpending : s.pending = 0) :
    ∃ r, s.extract = [.completed r] ∧ Verdict as tr r := by
  obtain ⟨hall, -, -⟩ := h.all_finished hpending
  unfold State.extract
  cases hexc : s.exc with
  | some x => exact ⟨.error x, rfl, h.failed x hexc⟩
  | none =>
      obtain ⟨bs, hbs, heq⟩ := mapM_id_eq fun i hi =>
        h.written hexc i (hall.mem_iff.mpr (List.mem_range.mpr (h.length ▸ hi)))
      refine ⟨.ok bs, by rw [hbs], ?_, fun i b hb => h.results i b ?_, h.passed hexc⟩
      · rw [← h.length, heq, List.length_map]
      · rw [heq, List.getElem?_map, hb]
        rfl

/-- Completing counts nobody. -/
theorem Counted.completed (r : Except X (List B)) (h : Counted as tr s) :
    Counted as (tr ++ [.completed r]) s := by
  have hcalls : EvMap.calls (tr ++ [.completed r]) = EvMap.calls tr :=
    calls_append.trans (List.append_nil _)
  have hfinishes : finishes (tr ++ [.completed r]) = finishes tr :=
    finishes_append.trans (List.append_nil _)
  refine ⟨h.actions, h.looping, by rw [hcalls]; exact h.calls,
    by rw [hcalls, hfinishes]; exact h.ends, by rw [hfinishes]; exact h.pending,
    fun j a hj => h.argument j a (mem_of_mem_snoc hj nofun), h.length,
    fun j b hj => List.mem_append_left _ (h.results j b hj),
    fun he j hj => h.written he j (hfinishes ▸ hj),
    fun he j x hj => h.passed he j x (mem_of_mem_snoc hj nofun), fun x hx => ?_,
    fun hu => h.defined (mem_of_mem_snoc hu nofun)⟩
  obtain ⟨j, hj⟩ := h.failed x hx
  exact ⟨j, List.mem_append_left _ hj⟩

/-- **SPEC**: the caller goes on, and leaves no waiter behind. -/
theorem inv_extract (h : Counted as tr s) (hpending : s.pending = 0) (hleft : s.caller = .left)
    (hcompletions : completions tr = []) (waiter : Bool) :
    Inv as (tr ++ s.extract) { s with waiter } := by
  obtain ⟨hall, htasks, hrunning⟩ := h.all_finished hpending
  obtain ⟨r, heq, hverdict⟩ := h.extract hpending
  rw [heq]
  exact ⟨{ h.completed r with },
    .inr ⟨⟨hleft, htasks, hrunning⟩, tr, r, rfl, hcompletions, hall, hverdict⟩⟩

/-- **SPEC (loop)**. -/
theorem inv_loop (h : Counted as tr s) (hmade : s.caller.made as.length = i)
    (hle : i ≤ as.length) (hcompletions : completions tr = []) (hwaiter : s.waiter = false) :
    Inv as (tr ++ (s.loop i).2) (s.loop i).1 := by
  have hlength : s.actions.length = as.length := congrArg List.length h.actions
  unfold State.loop
  split
  · rename_i hi
    have hleave := h.leave (hmade.trans (hi.trans hlength))
    unfold State.waitCompletion
    simp only
    split
    · rename_i hzero
      exact inv_extract hleave hzero rfl hcompletions s.waiter
    · rename_i hmore
      rw [List.append_nil]
      exact ⟨{ hleave with }, .inl ⟨hcompletions, ⟨fun _ => rfl, fun _ => rfl⟩,
        fun _ => Nat.pos_of_ne_zero hmore⟩⟩
  · rename_i hi
    rw [List.append_nil]
    refine ⟨h.make hmade (Nat.lt_of_le_of_ne hle fun heq => hi (heq.trans hlength.symm)),
      .inl ⟨hcompletions, ?_, nofun⟩⟩
    simp [hwaiter]

/-- **SPEC (background)**: an action finishes. -/
theorem inv_background {r : Except X B} (hwait : Waiting tr s)
    (h : Counted as tr { s with running := s.running ++ [i] }) :
    Inv as (tr ++ .finished i r :: (s.background i r).2) (s.background i r).1 := by
  have hcounted := h.finish r
  have hcompletions : completions (tr ++ [Output.finished i r]) = [] :=
    (completions_append.trans (List.append_nil _)).trans hwait.completions
  rw [background_eq, ← List.singleton_append, ← List.append_assoc]
  unfold State.finish
  simp only
  split
  · rename_i hlast
    exact inv_extract hcounted hlast.1 (hwait.waiter.mp hlast.2) hcompletions false
  · rename_i hmore
    rw [List.append_nil]
    refine ⟨hcounted, .inl ⟨hcompletions, hwait.waiter, fun hleft => ?_⟩⟩
    by_contra hzero
    exact hmore ⟨Nat.eq_zero_of_not_pos hzero, hwait.waiter.mpr hleft⟩

theorem inv_create (as : List A) : Inv as [] (create as : State A B X) where
  actions  := rfl
  looping  := nofun
  calls    := List.Perm.refl _
  ends     := List.Perm.refl _
  pending  := rfl
  argument := nofun
  length   := List.length_replicate
  results  := fun i b hb => by
    rw [create, List.getElem?_replicate] at hb
    split at hb <;> cases hb
  written  := fun _ => nofun
  passed   := fun _ => nofun
  failed   := nofun
  defined  := nofun
  stage    := .inl ⟨rfl, ⟨nofun, nofun⟩, nofun⟩

/-- While somebody is left to finish, nothing has completed. -/
theorem Inv.waiting (h : Inv as tr s) (hdone : ¬ s.Done) : Waiting tr s :=
  h.stage.resolve_right fun hcompleted => hdone hcompleted.1

/-- Nor while the caller is in the loop, and it is no waiter. -/
theorem Inv.not_left (h : Inv as tr s) (hcaller : s.caller ≠ .left) :
    completions tr = [] ∧ s.waiter = false := by
  have hwait := h.waiting fun hdone => hcaller hdone.1
  exact ⟨hwait.completions, Bool.eq_false_iff.mpr fun hw => hcaller (hwait.waiter.mp hw)⟩

/-- **STEP**. -/
theorem inv_step (h : Inv as tr s) (hs : step s e = some (s', out)) : Inv as (tr ++ out) s' := by
  cases e with
  | run =>
      simp only [step] at hs
      split at hs
      · rename_i hcaller
        obtain ⟨hcompletions, hwaiter⟩ := h.not_left (by rw [hcaller]; exact nofun)
        obtain ⟨rfl, rfl⟩ := Prod.ext_iff.mp (Option.some.inj hs)
        exact inv_loop h.toCounted (by rw [hcaller]; rfl) (Nat.zero_le _) hcompletions hwaiter
      · cases hs
  | resume =>
      simp only [step] at hs
      split at hs
      · rename_i i hcaller
        obtain ⟨hcompletions, hwaiter⟩ := h.not_left (by rw [hcaller]; exact nofun)
        obtain ⟨rfl, rfl⟩ := Prod.ext_iff.mp (Option.some.inj hs)
        exact inv_loop h.toCounted (by rw [hcaller]; rfl) (h.toCounted.looping i hcaller)
          hcompletions hwaiter
      · cases hs
  | start k r =>
      simp only [step] at hs
      split at hs
      · cases hs
      · rename_i i hi
        split at hs
        · cases hs
        · rename_i a ha
          rw [h.actions] at ha
          have hwait := h.waiting fun hdone => by
            rw [hdone.2.1] at hi
            cases hi
          have hcalled := h.toCounted.call hi ha
          have hwait' : Waiting (tr ++ [.called i a]) { s with tasks := s.tasks.eraseIdx k } :=
            ⟨(completions_append.trans (List.append_nil _)).trans hwait.completions,
              hwait.waiter, hwait.pending⟩
          cases r with
          | later =>
              cases hs
              exact ⟨hcalled, .inl ⟨hwait'.completions, hwait.waiter, hwait.pending⟩⟩
          | throws x =>
              cases hs
              have hinv := inv_background (r := .error x) hwait' hcalled
              rw [List.append_assoc] at hinv
              exact hinv
          | finishes r =>
              cases hs
              have hinv := inv_background (r := r) hwait' hcalled
              rw [List.append_assoc] at hinv
              exact hinv
  | finish k r =>
      simp only [step] at hs
      split at hs
      · cases hs
      · rename_i i hi
        have hwait := h.waiting fun hdone => by
          rw [hdone.2.2] at hi
          cases hi
        cases hs
        exact inv_background ⟨hwait.completions, hwait.waiter, hwait.pending⟩
          (h.toCounted.pick hi)

/-! ## A map under way

    What a program with a map in it has to know of it: the results so far, in the
    order in which they came, and what the map returns from them. -/

def Output.result : Output A B X → Option (ℕ × Except X B)
  | .finished i r => some (i, r)
  | _             => none

def results (tr : List (Output A B X)) : List (ℕ × Except X B) := tr.filterMap Output.result

/-- The element an event lets finish, and with what. -/
def State.finishing (s : State A B X) : Event B X → Option (ℕ × Except X B)
  | .start k (.throws x)   => s.tasks[k]?.map (fun i => (i, .error x))
  | .start k (.finishes r) => s.tasks[k]?.map (fun i => (i, r))
  | .finish k r            => s.running[k]?.map (fun i => (i, r))
  | _                      => none

/-- The map has not returned. -/
def Going (as : List A) (rs : List (ℕ × Except X B)) (s : State A B X) : Prop :=
  ∃ tr, Inv as tr s ∧ completions tr = [] ∧ results tr = rs

/-- It returns `r`. -/
def Returned (as : List A) (rs : List (ℕ × Except X B)) (r : Except X (List B)) : Prop :=
  (rs.map Prod.fst).Perm (List.range as.length) ∧ match r with
    | .ok bs   => bs.length = as.length ∧ (∀ i b, bs[i]? = some b → (i, .ok b) ∈ rs)
        ∧ ∀ i x, (i, .error x) ∉ rs
    | .error x => ∃ i, (i, .error x) ∈ rs

theorem results_append : results (tr ++ out) = results tr ++ results out :=
  List.filterMap_append

theorem mem_results {r : Except X B} : (i, r) ∈ results tr ↔ .finished i r ∈ tr := by
  unfold results
  rw [List.mem_filterMap]
  constructor
  · rintro ⟨o, ho, heq⟩
    cases o with
    | finished j r' =>
        cases heq
        exact ho
    | called j a   => cases heq
    | completed r' => cases heq
    | undefined    => cases heq
  · intro h
    exact ⟨_, h, rfl⟩

theorem map_fst_results : (results tr).map Prod.fst = finishes tr := by
  unfold results finishes
  rw [List.map_filterMap]
  refine List.filterMap_congr (fun o _ => ?_)
  cases o <;> rfl

theorem results_extract (s : State A B X) : results s.extract = [] := by
  unfold State.extract
  split
  · rfl
  · split <;> rfl

theorem results_loop (s : State A B X) (i : ℕ) : results (s.loop i).2 = [] := by
  unfold State.loop State.waitCompletion
  split
  · split
    · exact results_extract _
    · rfl
  · rfl

theorem results_background (s : State A B X) (i : ℕ) (r : Except X B) :
    results (s.background i r).2 = [] := by
  rw [background_eq]
  unfold State.finish
  simp only
  split
  · exact results_extract _
  · rfl

/-- **SPEC (step)**: an event lets one element finish, or none. -/
theorem results_step (hs : step s e = some (s', out)) : results out = (s.finishing e).toList := by
  cases e with
  | run =>
      simp only [step] at hs
      split at hs
      · obtain ⟨-, rfl⟩ := Prod.ext_iff.mp (Option.some.inj hs)
        exact results_loop s 0
      · cases hs
  | resume =>
      simp only [step] at hs
      split at hs
      · rename_i i hcaller
        obtain ⟨-, rfl⟩ := Prod.ext_iff.mp (Option.some.inj hs)
        exact results_loop s (i + 1)
      · cases hs
  | start k r =>
      simp only [step] at hs
      split at hs
      · cases hs
      · rename_i i hi
        split at hs
        · cases hs
        · cases r with
          | later =>
              cases hs
              rfl
          | throws x =>
              cases hs
              simp only [State.finishing, hi, Option.map_some, Option.toList]
              exact congrArg _ (results_background _ i _)
          | finishes r =>
              cases hs
              simp only [State.finishing, hi, Option.map_some, Option.toList]
              exact congrArg _ (results_background _ i r)
  | finish k r =>
      simp only [step] at hs
      split at hs
      · cases hs
      · rename_i i hi
        cases hs
        simp only [State.finishing, hi, Option.map_some, Option.toList]
        exact congrArg _ (results_background _ i r)

theorem going_create (as : List A) : Going as [] (create as : State A B X) :=
  ⟨[], inv_create as, rfl, rfl⟩

/-- **STEP**: the map stays under way, or returns as its last thing. -/
theorem Going.step {rs : List (ℕ × Except X B)} (h : Going as rs s)
    (hs : step s e = some (s', out)) :
    completions out = [] ∧ Going as (rs ++ (s.finishing e).toList) s'
      ∨ ∃ r, completions out = [r] ∧ Returned as (rs ++ (s.finishing e).toList) r := by
  obtain ⟨tr, hinv, hcompletions, rfl⟩ := h
  have hresults : results (tr ++ out) = results tr ++ (s.finishing e).toList := by
    rw [results_append, results_step hs]
  have hinv' := inv_step hinv hs
  have hout : completions (tr ++ out) = completions out := by
    rw [completions_append, hcompletions, List.nil_append]
  rcases hinv'.stage with hwait | ⟨-, tr₁, r, heq, hnone, hperm, hverdict⟩
  · exact .inl ⟨hout.symm.trans hwait.completions, tr ++ out, hinv', hwait.completions, hresults⟩
  · have hresults₁ : results tr ++ (s.finishing e).toList = results tr₁ := by
      rw [← hresults, heq, results_append]
      exact List.append_nil _
    refine .inr ⟨r, ?_, ?_, ?_⟩
    · rw [← hout, heq, completions_append, hnone]
      rfl
    · rw [hresults₁, map_fst_results]
      exact hperm
    · rw [hresults₁]
      cases r with
      | ok bs =>
          obtain ⟨hlength, hmem, hpassed⟩ := hverdict
          exact ⟨hlength, fun i b hb => mem_results.mpr (hmem i b hb),
            fun i x hx => hpassed i x (mem_results.mp hx)⟩
      | error x =>
          obtain ⟨i, hi⟩ := hverdict
          exact ⟨i, mem_results.mpr hi⟩

/-- What is under way concerns an element. -/
theorem Going.element {rs : List (ℕ × Except X B)} {r : Except X B} (h : Going as rs s)
    (hr : s.finishing e = some (i, r)) : ∃ a, as[i]? = some a ∧ s.actions[i]? = some a := by
  obtain ⟨tr, hinv, -, -⟩ := h
  have hmem : i ∈ s.tasks ∨ i ∈ s.running := by
    cases e with
    | run    => cases hr
    | resume => cases hr
    | start k r' =>
        cases r' with
        | later => cases hr
        | throws x =>
            obtain ⟨j, hj, heq⟩ := Option.map_eq_some_iff.mp hr
            cases heq
            exact .inl (List.mem_of_getElem? hj)
        | finishes r' =>
            obtain ⟨j, hj, heq⟩ := Option.map_eq_some_iff.mp hr
            cases heq
            exact .inl (List.mem_of_getElem? hj)
    | finish k r' =>
        obtain ⟨j, hj, heq⟩ := Option.map_eq_some_iff.mp hr
        cases heq
        exact .inr (List.mem_of_getElem? hj)
  have hlt : i < as.length := by
    refine hinv.toCounted.lt ?_
    rcases hmem with hmem | hmem
    · exact List.mem_append_right _ hmem
    · exact List.mem_append_left _
        (hinv.ends.mem_iff.mp (List.mem_append_right _ hmem))
  exact ⟨as[i], List.getElem?_eq_getElem hlt, by
    rw [hinv.actions]
    exact List.getElem?_eq_getElem hlt⟩

/-- What came of the elements that passed. -/
def passed (rs : List (ℕ × Except X B)) : List B := rs.filterMap (fun r => r.2.toOption)

theorem passed_append (rs rs' : List (ℕ × Except X B)) :
    passed (rs ++ rs') = passed rs ++ passed rs' := List.filterMap_append

/-- What is returned is what came, by place and not in the order in which it came. -/
theorem Returned.perm {rs : List (ℕ × Except X B)} {bs : List B} (h : Returned as rs (.ok bs)) :
    (EvMap.passed rs).Perm bs := by
  obtain ⟨hperm, hlength, hmem, hnone⟩ := h
  have hfst : (bs.zipIdx.map (fun x => (x.2, Except.ok x.1) : B × ℕ → ℕ × Except X B)).map
      Prod.fst = List.range bs.length := by
    rw [List.map_map, List.range_eq_range', ← List.zipIdx_map_snd 0 bs]
    rfl
  have hnodup : (rs.map Prod.fst).Nodup := hperm.nodup_iff.mpr List.nodup_range
  have hrs : rs.Perm (bs.zipIdx.map (fun x => (x.2, Except.ok x.1))) := by
    refine (List.perm_ext_iff_of_nodup (List.Nodup.of_map _ hnodup)
      (List.Nodup.of_map Prod.fst (hfst ▸ List.nodup_range))).mpr (fun ⟨i, r⟩ => ?_)
    rw [List.mem_map]
    constructor
    · intro hi
      have hlt : i < bs.length := by
        rw [hlength, ← List.mem_range, ← hperm.mem_iff]
        exact List.mem_map_of_mem (f := Prod.fst) hi
      have hb := List.getElem?_eq_getElem hlt
      have heq := List.inj_on_of_nodup_map hnodup (hmem i bs[i] hb) hi rfl
      exact ⟨(bs[i], i), List.mem_zipIdx_iff_getElem?.mpr hb, heq⟩
    · rintro ⟨⟨b, j⟩, hj, heq⟩
      cases heq
      exact hmem j b (List.mem_zipIdx_iff_getElem?.mp hj)
  refine (hrs.filterMap _).trans (List.Perm.of_eq ?_)
  rw [List.filterMap_map]
  calc bs.zipIdx.filterMap (fun x => some x.1)
      = bs.zipIdx.map Prod.fst := congrFun List.filterMap_eq_map' _
    _ = bs                     := List.zipIdx_map_fst 0 bs

/-- Results that carry their elements are returned in the order of the elements. -/
theorem Returned.map_fst {C : Type} {rs : List (ℕ × Except X (A × C))} {bs : List (A × C)}
    (h : Returned as rs (.ok bs)) (hrs : ∀ i b, (i, .ok b) ∈ rs → as[i]? = some b.1) :
    bs.map Prod.fst = as := by
  obtain ⟨-, hlength, hmem, -⟩ := h
  refine List.ext_getElem? (fun i => ?_)
  rw [List.getElem?_map]
  cases hb : bs[i]? with
  | none =>
      rw [Option.map_none, eq_comm, List.getElem?_eq_none_iff, ← hlength]
      exact List.getElem?_eq_none_iff.mp hb
  | some b => exact (hrs i b (hmem i b hb)).symm

/-- The event, with what `f` makes of the answer for an element. -/
def State.through {Y : Type} (f : A → Except X Y → Except X B) (s : State A B X) :
    Event Y X → Option (Event B X)
  | .run                   => some .run
  | .resume                => some .resume
  | .start k .later        => some (.start k .later)
  | .start k (.throws x)   => some (.start k (.throws x))
  | .start k (.finishes r) => do
      let i ← s.tasks[k]?
      let a ← s.actions[i]?
      return .start k (.finishes (f a r))
  | .finish k r => do
      let i ← s.running[k]?
      let a ← s.actions[i]?
      return .finish k (f a r)

/-- The element whose task an event is about. -/
def State.asked {Y : Type} (s : State A B X) : Event Y X → Option A
  | .start k _  => s.tasks[k]?.bind (s.actions[·]?)
  | .finish k _ => s.running[k]?.bind (s.actions[·]?)
  | _           => none

/-- What an event answers; a call that throws asks nothing. -/
def Event.answer {Y : Type} : Event Y X → Option (Except X Y)
  | .start _ (.finishes r) => some r
  | .finish _ r            => some r
  | _                      => none

/-- A step of a map whose function asks something and goes on with `f`: the map
    afterwards, which element finished, and what the map returned. -/
def State.feed {Y : Type} (f : A → Except X Y → Except X B) (s : State A B X) (e : Event Y X) :
    Option (State A B X × Option (ℕ × Except X B) × Option (Except X (List B))) := do
  let e ← s.through f e
  let (s', out) ← step s e
  return (s', s.finishing e, (completions out).head?)

variable {Y : Type} {f : A → Except X Y → Except X B}

/-- What finishes was made by `f`, or is what the function threw. -/
theorem finishing_through {e : Event Y X} {e' : Event B X} {r : Except X B}
    (he : s.through f e = some e') (hr : s.finishing e' = some (i, r)) :
    (∃ a y, s.actions[i]? = some a ∧ r = f a y) ∨ ∃ x, r = .error x := by
  cases e with
  | run =>
      cases he
      cases hr
  | resume =>
      cases he
      cases hr
  | start k r' =>
      cases r' with
      | later =>
          cases he
          cases hr
      | throws x =>
          cases he
          obtain ⟨j, -, heq⟩ := Option.map_eq_some_iff.mp hr
          cases heq
          exact .inr ⟨x, rfl⟩
      | finishes y =>
          obtain ⟨j, hj, he⟩ := Option.bind_eq_some_iff.mp he
          obtain ⟨a, ha, he⟩ := Option.bind_eq_some_iff.mp he
          cases he
          obtain ⟨j', hj', heq⟩ := Option.map_eq_some_iff.mp hr
          cases heq
          cases hj.symm.trans hj'
          exact .inl ⟨a, y, ha, rfl⟩
  | finish k y =>
      obtain ⟨j, hj, he⟩ := Option.bind_eq_some_iff.mp he
      obtain ⟨a, ha, he⟩ := Option.bind_eq_some_iff.mp he
      cases he
      obtain ⟨j', hj', heq⟩ := Option.map_eq_some_iff.mp hr
      cases heq
      cases hj.symm.trans hj'
      exact .inl ⟨a, y, ha, rfl⟩

/-- An element finishes with what `f` makes of the answer, or it threw. -/
theorem feed_answer {e : Event Y X} {fin : Option (ℕ × Except X B)}
    {ret : Option (Except X (List B))} (hs : s.feed f e = some (s', fin, ret)) :
    (e.answer = none → ∀ i r, fin = some (i, r) → ∃ x, r = .error x)
      ∧ ∀ y, e.answer = some y → ∃ i a, s.asked e = some a ∧ fin = some (i, f a y) := by
  obtain ⟨e', he, hs⟩ := Option.bind_eq_some_iff.mp hs
  obtain ⟨⟨t, out⟩, hstep, heq⟩ := Option.bind_eq_some_iff.mp hs
  cases heq
  cases e with
  | run =>
      cases he
      exact ⟨fun _ _ _ h => (nomatch h), nofun⟩
  | resume =>
      cases he
      exact ⟨fun _ _ _ h => (nomatch h), nofun⟩
  | start k r =>
      cases r with
      | later =>
          cases he
          exact ⟨fun _ _ _ h => (nomatch h), nofun⟩
      | throws x =>
          cases he
          refine ⟨fun _ i r h => ?_, nofun⟩
          obtain ⟨j, -, heq⟩ := Option.map_eq_some_iff.mp h
          cases heq
          exact ⟨x, rfl⟩
      | finishes y =>
          obtain ⟨i, hi, he⟩ := Option.bind_eq_some_iff.mp he
          obtain ⟨a, ha, he⟩ := Option.bind_eq_some_iff.mp he
          cases he
          refine ⟨nofun, fun y' hy => ⟨i, a, Option.bind_eq_some_iff.mpr ⟨i, hi, ha⟩, ?_⟩⟩
          cases hy
          exact Option.map_eq_some_iff.mpr ⟨i, hi, rfl⟩
  | finish k y =>
      obtain ⟨i, hi, he⟩ := Option.bind_eq_some_iff.mp he
      obtain ⟨a, ha, he⟩ := Option.bind_eq_some_iff.mp he
      cases he
      refine ⟨nofun, fun y' hy => ⟨i, a, Option.bind_eq_some_iff.mpr ⟨i, hi, ha⟩, ?_⟩⟩
      cases hy
      exact Option.map_eq_some_iff.mpr ⟨i, hi, rfl⟩

/-- **SPEC (feed)**. -/
theorem Going.feed {rs : List (ℕ × Except X B)} {e : Event Y X} {fin : Option (ℕ × Except X B)}
    {ret : Option (Except X (List B))} (h : Going as rs s)
    (hs : s.feed f e = some (s', fin, ret)) :
    (∀ i r, fin = some (i, r) → (∃ a y, as[i]? = some a ∧ r = f a y) ∨ ∃ x, r = .error x)
      ∧ (ret = none → Going as (rs ++ fin.toList) s')
      ∧ ∀ r, ret = some r → Returned as (rs ++ fin.toList) r := by
  obtain ⟨e', he, hs⟩ := Option.bind_eq_some_iff.mp hs
  obtain ⟨⟨t, out⟩, hstep, heq⟩ := Option.bind_eq_some_iff.mp hs
  cases heq
  refine ⟨fun i r hr => ?_, ?_⟩
  · obtain ⟨a, ha, haction⟩ := h.element hr
    rcases finishing_through he hr with ⟨a', y, ha', rfl⟩ | hx
    · cases haction.symm.trans ha'
      exact .inl ⟨a, y, ha, rfl⟩
    · exact .inr hx
  · rcases h.step hstep with ⟨hnone, hgoing⟩ | ⟨r, hone, hreturned⟩
    · rw [hnone]
      exact ⟨fun _ => hgoing, nofun⟩
    · rw [hone]
      refine ⟨nofun, fun r' hr' => ?_⟩
      cases hr'
      exact hreturned

/-! ## Runs -/

/-- **RUN**. -/
theorem inv_run {es : List (Event B X)} (h : run step (create as) es = some (s, tr)) :
    Inv as tr s :=
  run_invariant (I := fun _ tr s => Inv as tr s) (inv_create as)
    (fun _ _ _ _ _ _ hinv _ hs => inv_step hinv hs) (along_true _ _) h

/-- As long as something is left to happen, it is up to the caller, a task or an action. -/
theorem Inv.left_to_happen (h : Inv as tr s) (hdone : ¬ s.Done) :
    s.caller = .before ∨ (∃ i, s.caller = .looping i)
      ∨ (∃ i a, s.tasks[0]? = some i ∧ s.actions[i]? = some a)
      ∨ ∃ i a, s.running[0]? = some i ∧ s.actions[i]? = some a := by
  have helement : ∀ i ∈ calls tr ++ s.tasks, ∃ a, s.actions[i]? = some a := by
    intro i hi
    have hlt : i < s.actions.length := h.actions ▸ h.lt hi
    exact ⟨_, List.getElem?_eq_getElem hlt⟩
  cases hcaller : s.caller with
  | before    => exact .inl rfl
  | looping i => exact .inr (.inl ⟨i, rfl⟩)
  | left =>
      refine .inr (.inr ?_)
      cases htasks : s.tasks with
      | cons i tasks =>
          obtain ⟨a, ha⟩ := helement i (List.mem_append_right _ (htasks ▸ List.mem_cons_self))
          exact .inl ⟨i, a, rfl, ha⟩
      | nil =>
          cases hrunning : s.running with
          | cons i running =>
              have hi : i ∈ calls tr := h.ends.mem_iff.mp
                (List.mem_append_right _ (hrunning ▸ List.mem_cons_self))
              obtain ⟨a, ha⟩ := helement i (List.mem_append_left _ hi)
              exact .inr ⟨i, a, rfl, ha⟩
          | nil => exact absurd ⟨hcaller, htasks, hrunning⟩ hdone

/-- So something can. -/
theorem Inv.step_of_not_done (h : Inv as tr s) (hdone : ¬ s.Done)
    (hr : Nonempty (Except X B)) : ∃ e : Event B X, (step s e).isSome := by
  obtain ⟨r⟩ := hr
  rcases h.left_to_happen hdone with hcaller | ⟨i, hcaller⟩ | ⟨i, a, hi, ha⟩ | ⟨i, a, hi, ha⟩
  · exact ⟨.run, by simp only [step, hcaller, Option.isSome_some]⟩
  · exact ⟨.resume, by simp only [step, hcaller, Option.isSome_some]⟩
  · exact ⟨.start 0 .later, by simp only [step, hi, ha, Option.isSome_some]⟩
  · exact ⟨.finish 0 r, by simp only [step, hi, Option.isSome_some]⟩

/-- The steps of the caller so far. -/
def Caller.steps (n : ℕ) : Caller → ℕ
  | .before    => 0
  | .looping i => i + 1
  | .left      => n + 1

/-- Every step is one of the caller, or calls or finishes an element. -/
def Bounded (as : List A) (es : List (Event B X)) (tr : List (Output A B X)) (s : State A B X) :
    Prop :=
  es.length ≤ s.caller.steps as.length + (calls tr).length + (finishes tr).length

theorem caller_loop (s : State A B X) (i : ℕ) :
    (s.loop i).1.caller = if i = s.actions.length then .left else .looping i := by
  unfold State.loop State.waitCompletion
  split
  · split <;> rfl
  · rfl

theorem caller_background (s : State A B X) (i : ℕ) (r : Except X B) :
    (s.background i r).1.caller = s.caller := by
  rw [background_eq]
  unfold State.finish
  simp only
  split <;> rfl

/-- **STEP**. -/
theorem bounded_step {es : List (Event B X)} (h : Counted as tr s) (hb : Bounded as es tr s)
    (hs : step s e = some (s', out)) : Bounded as (es ++ [e]) (tr ++ out) s' := by
  have hactions : s.actions.length = as.length := congrArg List.length h.actions
  unfold Bounded at hb ⊢
  rw [calls_append, finishes_append, List.length_append, List.length_append, List.length_append,
    List.length_singleton]
  cases e with
  | run =>
      simp only [step] at hs
      split at hs
      · rename_i hcaller
        obtain ⟨rfl, -⟩ := Prod.ext_iff.mp (Option.some.inj hs)
        rw [hcaller] at hb
        rw [caller_loop, hactions]
        split <;> simp only [Caller.steps] at hb ⊢ <;> omega
      · cases hs
  | resume =>
      simp only [step] at hs
      split at hs
      · rename_i i hcaller
        obtain ⟨rfl, -⟩ := Prod.ext_iff.mp (Option.some.inj hs)
        rw [hcaller] at hb
        rw [caller_loop, hactions]
        split <;> simp only [Caller.steps] at hb ⊢ <;> omega
      · cases hs
  | start k r =>
      simp only [step] at hs
      split at hs
      · cases hs
      · rename_i i hi
        split at hs
        · cases hs
        · rename_i a ha
          cases r with
          | later =>
              cases hs
              rw [calls_called, List.length_cons]
              simp only
              omega
          | throws x =>
              cases hs
              rw [caller_background, calls_called, List.length_cons]
              simp only
              omega
          | finishes r =>
              cases hs
              rw [caller_background, calls_called, List.length_cons]
              simp only
              omega
  | finish k r =>
      simp only [step] at hs
      split at hs
      · cases hs
      · cases hs
        rw [caller_background, finishes_finished, List.length_cons]
        simp only
        omega

/-- A run is finite, and how long it can be is known. -/
theorem length_run {es : List (Event B X)} (h : run step (create as) es = some (s, tr)) :
    es.length ≤ 3 * as.length + 1 := by
  have hinit : Inv as [] (create as : State A B X) ∧ Bounded as [] [] (create as : State A B X) :=
    ⟨inv_create as, Nat.zero_le _⟩
  obtain ⟨hinv, hbounded⟩ := run_invariant
    (I := fun (es : List (Event B X)) tr s => Inv as tr s ∧ Bounded as es tr s) hinit
    (fun _ _ _ _ _ _ hI _ hs => ⟨inv_step hI.1 hs, bounded_step hI.1.toCounted hI.2 hs⟩)
    (along_true _ _) h
  have hcaller : s.caller.steps as.length ≤ as.length + 1 := by
    cases hc : s.caller with
    | before    => exact Nat.zero_le _
    | looping i => exact Nat.succ_le_succ (Nat.le_of_lt (hinv.toCounted.looping i hc))
    | left      => exact Nat.le_refl _
  have hcalls := hinv.calls.length_eq
  have hends := hinv.ends.length_eq
  have hmade := hinv.made_le
  rw [List.length_append, List.length_range] at hcalls
  rw [List.length_append] at hends
  unfold Bounded at hbounded
  omega

/-- A completion is the last output, and says what it is to say. -/
theorem Inv.of_completed {r : Except X (List B)} {tr₁ tr₂ : List (Output A B X)}
    (h : Inv as tr s) (htr : tr = tr₁ ++ .completed r :: tr₂) :
    tr₂ = [] ∧ (finishes tr₁).Perm (List.range as.length) ∧ Verdict as tr₁ r := by
  have hmem : .completed r ∈ tr := htr ▸ List.mem_append_right _ List.mem_cons_self
  rcases h.stage with hwait | ⟨-, t, r', heq, hnone, hperm, hverdict⟩
  · have hr : r ∈ completions tr := List.mem_filterMap.mpr ⟨_, hmem, rfl⟩
    rw [hwait.completions] at hr
    cases hr
  · rw [htr] at heq
    rcases List.eq_nil_or_concat tr₂ with rfl | ⟨l, o, rfl⟩
    · obtain ⟨rfl, hlast⟩ := List.append_inj' heq rfl
      cases hlast
      exact ⟨rfl, hperm, hverdict⟩
    · -- a second completion would be among the outputs before the last
      rw [List.concat_eq_append, ← List.cons_append, ← List.append_assoc] at heq
      obtain ⟨rfl, -⟩ := List.append_inj' heq rfl
      have hr : r ∈ completions (tr₁ ++ .completed r :: l) :=
        List.mem_filterMap.mpr ⟨_, List.mem_append_right _ List.mem_cons_self, rfl⟩
      rw [hnone] at hr
      cases hr

/-- When nothing is left to happen the map has gone on. -/
theorem Inv.completed (h : Inv as tr s) (hdone : s.Done) : (completions tr).length = 1 := by
  rcases h.stage with hwait | ⟨-, tr₁, r, rfl, hnone, -⟩
  · have hpos := hwait.pending hdone.1
    have hpending := h.pending
    have hcalls := h.calls.length_eq
    have hends := h.ends.length_eq
    rw [hdone.2.1, hdone.1, List.append_nil, List.length_range] at hcalls
    rw [hdone.2.2, List.append_nil] at hends
    simp only [Caller.made] at hcalls
    omega
  · rw [completions_append, hnone]
    rfl

/-- A map under way can be fed. -/
theorem Going.feed_some {rs : List (ℕ × Except X B)} (h : Going as rs s)
    (f : A → Except X Y → Except X B) (hr : Nonempty (Except X Y)) :
    ∃ e : Event Y X, (s.feed f e).isSome := by
  obtain ⟨r⟩ := hr
  obtain ⟨tr, hinv, hcompletions, -⟩ := h
  have hdone : ¬ s.Done := fun hdone => by
    have := hinv.completed hdone
    rw [hcompletions] at this
    cases this
  rcases hinv.left_to_happen hdone with hcaller | ⟨i, hcaller⟩ | ⟨i, a, hi, ha⟩ | ⟨i, a, hi, ha⟩
  · exact ⟨.run, by simp [State.feed, State.through, EvMap.step, hcaller]⟩
  · exact ⟨.resume, by simp [State.feed, State.through, EvMap.step, hcaller]⟩
  · exact ⟨.start 0 .later, by simp [State.feed, State.through, EvMap.step, hi, ha]⟩
  · exact ⟨.finish 0 r, by simp [State.feed, State.through, EvMap.step, hi, ha]⟩

theorem mapped_of_inv (h : Inv as tr s) : Mapped as tr s := by
  refine ⟨?_, h.argument, ?_, fun tr₁ r tr₂ htr => (h.of_completed htr).2.1, ?_, ?_, ?_,
    h.defined, fun hdone => ⟨?_, h.completed hdone⟩⟩
  · have hsub : (calls tr).Subperm (calls tr ++ s.tasks) :=
      (List.sublist_append_left _ _).subperm
    refine hsub.trans (h.calls.subperm.trans ?_)
    exact (List.range_sublist.mpr h.made_le).subperm
  · rcases h.stage with hwait | ⟨-, tr₁, r, rfl, hnone, -⟩
    · rw [hwait.completions]
      exact Nat.zero_le _
    · rw [completions_append, hnone]
      exact Nat.le_refl _
  · intro bs hbs
    obtain ⟨tr₁, tr₂, htr⟩ := List.append_of_mem hbs
    obtain ⟨-, -, hlength, hresults, -⟩ := h.of_completed htr
    exact ⟨hlength, fun i b hb => htr ▸ List.mem_append_left _ (hresults i b hb)⟩
  · intro x hx
    obtain ⟨tr₁, tr₂, htr⟩ := List.append_of_mem hx
    obtain ⟨-, -, i, hi⟩ := h.of_completed htr
    exact ⟨i, htr ▸ List.mem_append_left _ hi⟩
  · intro bs hbs i x hx
    obtain ⟨tr₁, tr₂, htr⟩ := List.append_of_mem hbs
    obtain ⟨rfl, -, -, -, hnone⟩ := h.of_completed htr
    rw [htr] at hx
    exact hnone i x (mem_of_mem_snoc hx nofun)
  · have hcalls := h.calls
    rw [hdone.2.1, hdone.1, List.append_nil] at hcalls
    exact hcalls

/-- **HEADLINE**: every map does what it is to do, and comes to its end if the actions do. -/
theorem mapped_run {es : List (Event B X)} (h : run step (create as) es = some (s, tr)) :
    Mapped as tr s ∧ es.length ≤ 3 * as.length + 1
      ∧ (¬ s.Done → Nonempty (Except X B) → ∃ e : Event B X, (step s e).isSome) :=
  ⟨mapped_of_inv (inv_run h), length_run h, (inv_run h).step_of_not_done⟩

/-- The second element finishes first, while the loop is at the third; the third throws
    when called, and the first finishes last. -/
theorem mapped_run_three :
    run step (create [10, 20, 30])
        [.run, .start 0 .later, .resume, .start 0 (.finishes (.ok 21)), .resume,
          .start 0 (.throws 7), .resume, .finish 0 (.ok 11)]
      = some (⟨[10, 20, 30], [some 11, some 21, none], some 7, 0, false, .left, [], []⟩,
        [.called 0 10, .called 1 20, .finished 1 (.ok 21), .called 2 30,
          .finished 2 (.error 7), .finished 0 (.ok 11), .completed (.error 7)])
      ∧ Mapped [10, 20, 30]
        [.called 0 10, .called 1 20, .finished 1 (.ok 21), .called 2 30,
          .finished 2 (.error 7), .finished 0 (.ok 11), .completed (.error 7)]
        (⟨[10, 20, 30], [some 11, some 21, none], some 7, 0, false, .left, [], []⟩ :
          State ℕ ℕ ℕ) := by
  have h : run step (create [10, 20, 30])
        [.run, .start 0 .later, .resume, .start 0 (.finishes (.ok 21)), .resume,
          .start 0 (.throws 7), .resume, .finish 0 (.ok 11)]
      = some ((⟨[10, 20, 30], [some 11, some 21, none], some 7, 0, false, .left, [], []⟩ :
          State ℕ ℕ ℕ),
        [.called 0 10, .called 1 20, .finished 1 (.ok 21), .called 2 30,
          .finished 2 (.error 7), .finished 0 (.ok 11), .completed (.error 7)]) := rfl
  exact ⟨h, (mapped_run h).1⟩

end EvMap
