import Clboss.MachineProofs
import Mathlib.Data.List.Count

/-! # `Boss::Mod::Waiter` — timers, timeouts and the shutdown

    `wait` starts a timer and leaves its two continuations with it; the timer
    passes it, or a `Shutdown` fails it.  `timed_core` runs an action beside a
    wait, and both call the same two continuations, which share a flag: the
    first of them gets through, all others return at once.  A timer whose action
    was first is not stopped, it fires into the flag later.

    The loop in `shutdown` hands control to a continuation in every round, which
    may call `wait` again, end an action or even raise another `Shutdown`; so
    what is left of the loop is part of the state, and other events come between
    any two rounds.  In whatever order all this happens, each timer is used
    once, each call is resumed by the FIRST that calls it back, and once a
    shutdown has run its loop nobody waits any more (`run_resumed`). -/

namespace Waiter

variable {α ε : Type}

/-- A call of `wait`, or of `timed_core`; the number tells it from the others. -/
inductive Call where
  | wait (n : ℕ)
  | timed (n : ℕ)
deriving DecidableEq

def Call.number : Call → ℕ
  | .wait n  => n
  | .timed n => n

/-- What a continuation is called with. -/
inductive Result (α ε : Type) where
  /-- The time is over, for `wait`. -/
  | elapsed
  /-- The action's value, or its exception. -/
  | value (a : α)
  | error (e : ε)
  | timedOut
  | shutdown

/-- `Impl`, with the `flag`s of `TimedCoreData` and the actions that have not ended. -/
structure State where
  isShuttingDown : Bool
  timers         : List Call
  /-- What is left of `timers_copy`, the innermost `shutdown` first. -/
  loops          : List (List Call)
  /-- The calls of `timed_core` whose `flag` is set. -/
  flags          : List ℕ
  actions        : List ℕ
  calls          : ℕ

def State.init : State := ⟨false, [], [], [], [], 0⟩

inductive Event (α ε : Type) where
  | wait
  | timed
  /-- The action of a call of `timed_core` ends. -/
  | finish (n : ℕ) (r : Except ε α)
  /-- `timer_static_handler`. -/
  | fire (c : Call)
  | shutdown
  /-- The innermost loop of `shutdown` goes on. -/
  | next

inductive Output (α ε : Type) where
  | started (c : Call)
  /-- A call is called back, by its timer (or for want of one) or by its action. -/
  | called (c : Call) (byTimer : Bool) (r : Result α ε)
  /-- The continuation of its caller is called. -/
  | resumed (c : Call) (r : Result α ε)

/-- `pass` and `fail` of a call of `wait`, `sub_pass` and `sub_fail` of one of `timed_core`. -/
def State.call (s : State) (c : Call) (byTimer : Bool) (r : Result α ε) :
    State × List (Output α ε) :=
  match c with
  | .wait n  => (s, [.called (.wait n) byTimer r, .resumed (.wait n) r])
  | .timed n =>
      if n ∈ s.flags then (s, [.called (.timed n) byTimer r])
      else ({ s with flags := n :: s.flags },
        [.called (.timed n) byTimer r, .resumed (.timed n) r])

/-- What the timer's `pass` comes to. -/
def Call.timeout : Call → Result α ε
  | .wait _  => .elapsed
  | .timed _ => .timedOut

def Result.ofExcept : Except ε α → Result α ε
  | .ok a    => .value a
  | .error e => .error e

/-- `wait`, and its `run`. -/
def State.wait (s : State) (c : Call) : State × List (Output α ε) :=
  if s.isShuttingDown then
    ((s.call c true (.shutdown : Result α ε)).1, .started c :: (s.call c true .shutdown).2)
  else ({ s with timers := c :: s.timers }, [.started c])

/-- One event; an event is refused if there is no such timer, action or loop. -/
def step (s : State) : Event α ε → Option (State × List (Output α ε))
  | .wait       => some ({ s with calls := s.calls + 1 }.wait (.wait s.calls))
  | .timed      =>
      some ({ s with calls := s.calls + 1, actions := s.calls :: s.actions }.wait (.timed s.calls))
  | .finish n r =>
      if n ∈ s.actions then
        some ({ s with actions := s.actions.erase n }.call (.timed n) false (.ofExcept r))
      else none
  | .fire c     =>
      if c ∈ s.timers then
        some ({ s with timers := s.timers.erase c }.call c true c.timeout)
      else none
  | .shutdown   =>
      some ({ s with isShuttingDown := true, timers := [], loops := s.timers :: s.loops }, [])
  | .next       =>
      match s.loops with
      | []            => none
      | [] :: ls      => some ({ s with loops := ls }, [])
      | (c :: cs) :: ls => some ({ s with loops := cs :: ls }.call c true .shutdown)

abbrev run := Machine.run (step (α := α) (ε := ε))

/-! ## What shows -/

def Output.starts : Output α ε → Option Call
  | .started c => some c
  | _          => none

def Output.calls (c : Call) : Output α ε → Option (Result α ε)
  | .called c' _ r => if c' = c then some r else none
  | _              => none

/-- The call whose timer called it back. -/
def Output.byTimer : Output α ε → Option Call
  | .called c true _ => some c
  | _                => none

def Output.resumes (c : Call) : Output α ε → Option (Result α ε)
  | .resumed c' r => if c' = c then some r else none
  | _             => none

/-- The timers that are still to be used. -/
def State.pending (s : State) : List Call := s.timers ++ s.loops.flatten

/-- The `flag`s say who was called back, and the first to call back got through. -/
structure Books (tr : List (Output α ε)) (flags : List ℕ) : Prop where
  plain   : ∀ n, tr.filterMap (Output.resumes (.wait n)) = tr.filterMap (Output.calls (.wait n))
  alone   : ∀ n, (tr.filterMap (Output.calls (.wait n))).length
    = (tr.filterMap Output.byTimer).count (.wait n)
  flagged : ∀ n, n ∈ flags ↔ tr.filterMap (Output.calls (.timed n)) ≠ []
  first   : ∀ n, tr.filterMap (Output.resumes (.timed n))
    = (tr.filterMap (Output.calls (.timed n))).take 1

structure Ledger (tr : List (Output α ε)) (s : State) : Prop where
  books : Books tr s.flags
  /-- Every timer was used, or is still there. -/
  timer : ∀ c, (tr.filterMap Output.starts).count c
    = (tr.filterMap Output.byTimer).count c + s.pending.count c
  fresh : ∀ c, (tr.filterMap Output.starts).count c ≤ if c.number < s.calls then 1 else 0

/-- And no timer is started any more once the waiter shuts down. -/
structure Inv (tr : List (Output α ε)) (s : State) : Prop extends Ledger tr s where
  down : s.isShuttingDown = true → s.timers = []

section Call

variable {tr : List (Output α ε)} {s : State} {c : Call} {b : Bool} {r : Result α ε}

theorem call_timed (n : ℕ) : s.call (.timed n) b r = if n ∈ s.flags then
      (s, [.called (.timed n) b r])
    else ({ s with flags := n :: s.flags }, [.called (.timed n) b r, .resumed (.timed n) r]) := rfl

theorem call_frame : (s.call c b r).1 = { s with flags := (s.call c b r).1.flags } := by
  cases c with
  | wait n => rfl
  | timed n =>
      rw [call_timed]
      split
      · rfl
      · rfl

theorem call_starts : (s.call c b r).2.filterMap Output.starts = [] := by
  cases c with
  | wait n => rfl
  | timed n =>
      rw [call_timed]
      split
      · rfl
      · rfl

theorem call_byTimer : (s.call c b r).2.filterMap Output.byTimer = if b then [c] else [] := by
  cases c with
  | wait n => cases b <;> rfl
  | timed n =>
      rw [call_timed]
      split
      · cases b <;> rfl
      · cases b <;> rfl

/-- A trace in which no call was called back or resumed. -/
theorem Books.append_quiet {out : List (Output α ε)} {flags : List ℕ} (h : Books tr flags)
    (hout : ∀ o ∈ out, ∃ c, o = .started c) : Books (tr ++ out) flags := by
  have hnone : ∀ {β : Type} (f : Output α ε → Option β), (∀ c, f (.started c) = none) →
      (tr ++ out).filterMap f = tr.filterMap f := by
    intro β f hf
    refine (List.filterMap_append ..).trans ?_
    rw [show out.filterMap f = [] from ?_, List.append_nil]
    refine List.filterMap_eq_nil_iff.mpr (fun o ho => ?_)
    obtain ⟨c, rfl⟩ := hout o ho
    exact hf c
  constructor
  · intro n
    rw [hnone _ (fun _ => rfl), hnone _ (fun _ => rfl)]
    exact h.plain n
  · intro n
    rw [hnone _ (fun _ => rfl), hnone _ (fun _ => rfl)]
    exact h.alone n
  · intro n
    rw [hnone _ (fun _ => rfl)]
    exact h.flagged n
  · intro n
    rw [hnone _ (fun _ => rfl), hnone _ (fun _ => rfl)]
    exact h.first n

/-- **SPEC** of the continuations: only those of `timed_core` are called by others than
    the timer, and its flag lets the first through. -/
theorem Books.call (h : Books tr s.flags) (hb : b = false → ∃ n, c = .timed n) :
    Books (tr ++ (s.call c b r).2) (s.call c b r).1.flags := by
  cases c with
  | wait n =>
      have hb' : b = true := by
        cases b with
        | true => rfl
        | false => obtain ⟨m, hm⟩ := hb rfl; cases hm
      subst hb'
      constructor
      · intro m
        rw [List.filterMap_append, List.filterMap_append, h.plain m]
        by_cases hm : n = m
        · simp [List.filterMap_cons, State.call, Output.resumes, Output.calls, hm]
        · simp [List.filterMap_cons, State.call, Output.resumes, Output.calls, hm]
      · intro m
        rw [List.filterMap_append, List.filterMap_append, List.length_append, List.count_append,
          h.alone m]
        by_cases hm : n = m
        · simp [List.filterMap_cons, State.call, Output.byTimer, Output.calls, hm]
        · simp [List.filterMap_cons, State.call, Output.byTimer, Output.calls, hm]
      · intro m
        rw [List.filterMap_append]
        simpa [List.filterMap_cons, State.call, Output.calls] using h.flagged m
      · intro m
        rw [List.filterMap_append, List.filterMap_append]
        simpa [List.filterMap_cons, State.call, Output.calls, Output.resumes] using h.first m
  | timed n =>
      by_cases hn : n ∈ s.flags
      · simp only [State.call, if_pos hn]
        constructor
        · intro m
          rw [List.filterMap_append, List.filterMap_append]
          simpa [List.filterMap_cons, Output.calls, Output.resumes] using h.plain m
        · intro m
          rw [List.filterMap_append, List.filterMap_append, List.count_append]
          cases b with
          | true => simpa [List.filterMap_cons, Output.calls, Output.byTimer] using h.alone m
          | false => simpa [List.filterMap_cons, Output.calls, Output.byTimer] using h.alone m
        · intro m
          rw [List.filterMap_append, h.flagged m]
          by_cases hm : n = m
          · subst hm
            simp [(h.flagged n).mp hn]
          · simp [Output.calls, hm]
        · intro m
          rw [List.filterMap_append, List.filterMap_append, h.first m]
          by_cases hm : n = m
          · subst hm
            have hne := (h.flagged n).mp hn
            rw [List.take_append_of_le_length (List.length_pos_iff.mpr hne)]
            simp [List.filterMap_cons, Output.resumes]
          · simp [List.filterMap_cons, Output.calls, Output.resumes, hm]
      · have hnil : tr.filterMap (Output.calls (.timed n)) = [] := by
          by_contra hne
          exact hn ((h.flagged n).mpr hne)
        simp only [State.call, if_neg hn]
        constructor
        · intro m
          rw [List.filterMap_append, List.filterMap_append]
          simpa [List.filterMap_cons, Output.calls, Output.resumes] using h.plain m
        · intro m
          rw [List.filterMap_append, List.filterMap_append, List.count_append]
          cases b with
          | true => simpa [List.filterMap_cons, Output.calls, Output.byTimer] using h.alone m
          | false => simpa [List.filterMap_cons, Output.calls, Output.byTimer] using h.alone m
        · intro m
          rw [List.filterMap_append, List.mem_cons, h.flagged m]
          by_cases hm : n = m
          · simp [List.filterMap_cons, Output.calls, hm]
          · simp [List.filterMap_cons, Output.calls, hm, Ne.symm hm]
        · intro m
          rw [List.filterMap_append, List.filterMap_append, h.first m]
          by_cases hm : n = m
          · subst hm
            simp [hnil, List.filterMap_cons, Output.calls, Output.resumes]
          · simp [List.filterMap_cons, Output.calls, Output.resumes, hm]

end Call

/-! ## Steps -/

theorem inv_init : Inv ([] : List (Output α ε)) .init := by
  refine ⟨⟨⟨fun _ => rfl, fun _ => rfl, fun _ => ?_, fun _ => rfl⟩, fun c => ?_, fun c => ?_⟩,
    fun _ => rfl⟩
  · simp [State.init]
  · simp [State.pending, State.init]
  · simp

/-- A call back by a timer that was pending, or by an action. -/
theorem Ledger.call {tr : List (Output α ε)} {s s₀ : State} {c : Call} {b : Bool} {r : Result α ε}
    (h : Ledger tr s₀) (hflags : s.flags = s₀.flags) (hcalls : s.calls = s₀.calls)
    (hpending : s₀.pending.Perm ((if b then [c] else []) ++ s.pending))
    (hb : b = false → ∃ n, c = .timed n) :
    Ledger (tr ++ (s.call c b r).2) (s.call c b r).1 := by
  have hframe := call_frame (s := s) (c := c) (b := b) (r := r)
  constructor
  · exact Books.call (hflags ▸ h.books) hb
  · intro k
    have hcount := hpending.count_eq k
    have hpend : (s.call c b r).1.pending = s.pending := by
      rw [hframe]
      rfl
    rw [List.count_append] at hcount
    rw [List.filterMap_append, List.filterMap_append, call_starts, call_byTimer, List.append_nil,
      List.count_append, hpend, h.timer k]
    omega
  · intro k
    rw [List.filterMap_append, call_starts, List.append_nil, hframe]
    show _ ≤ if k.number < s.calls then 1 else 0
    rw [hcalls]
    exact h.fresh k

theorem Inv.call {tr : List (Output α ε)} {s s₀ : State} {c : Call} {b : Bool} {r : Result α ε}
    (h : Ledger tr s₀) (hflags : s.flags = s₀.flags) (hcalls : s.calls = s₀.calls)
    (hpending : s₀.pending.Perm ((if b then [c] else []) ++ s.pending))
    (hb : b = false → ∃ n, c = .timed n) (hdown : s.isShuttingDown = true → s.timers = []) :
    Inv (tr ++ (s.call c b r).2) (s.call c b r).1 := by
  refine ⟨h.call hflags hcalls hpending hb, ?_⟩
  rw [call_frame]
  exact hdown

/-- A timer is started for a new call. -/
theorem Ledger.start {tr : List (Output α ε)} {s s₀ : State} {c : Call} (h : Ledger tr s₀)
    (hc : c.number = s₀.calls) (hflags : s.flags = s₀.flags) (hcalls : s.calls = s₀.calls + 1)
    (hpending : s.pending = c :: s₀.pending) : Ledger (tr ++ [.started c]) s := by
  have hcount : ∀ k : Call, ((tr ++ [Output.started c]).filterMap Output.starts).count k
      = (tr.filterMap Output.starts).count k + if c = k then 1 else 0 := by
    intro k
    rw [List.filterMap_append, List.count_append]
    by_cases hk : c = k
    · simp [Output.starts, hk]
    · simp [Output.starts, hk]
  constructor
  · rw [hflags]
    refine h.books.append_quiet (fun o ho => ⟨c, List.mem_singleton.mp ho⟩)
  · intro k
    have hnone : [Output.started c (α := α) (ε := ε)].filterMap Output.byTimer = [] := rfl
    rw [hcount k, h.timer k, hpending, List.count_cons, List.filterMap_append, hnone,
      List.append_nil]
    by_cases hk : c = k
    · simp [hk, Nat.add_assoc]
    · simp [hk]
  · intro k
    have hold := h.fresh k
    rw [hcount k, hcalls]
    by_cases hk : c = k
    · subst hk
      rw [if_neg (by omega)] at hold
      rw [if_pos rfl, if_pos (by omega)]
      omega
    · rw [if_neg hk]
      split at hold
      · rw [if_pos (by omega)]
        exact hold
      · omega

/-- A new call, while the waiter runs or shuts down. -/
theorem Inv.wait {tr : List (Output α ε)} {s s₀ : State} {c : Call} (h : Inv tr s₀)
    (hc : c.number = s₀.calls) (hflags : s.flags = s₀.flags) (hcalls : s.calls = s₀.calls + 1)
    (hpending : s.pending = s₀.pending) (htimers : s.timers = s₀.timers)
    (hdown : s.isShuttingDown = s₀.isShuttingDown) :
    Inv (tr ++ (s.wait c : State × List (Output α ε)).2)
      (s.wait c : State × List (Output α ε)).1 := by
  have hstart : Ledger (tr ++ [.started c]) { s with timers := c :: s.timers } :=
    h.toLedger.start hc hflags hcalls (by rw [← hpending]; rfl)
  unfold State.wait
  by_cases hs : s.isShuttingDown
  · rw [if_pos hs]
    rw [← List.singleton_append, ← List.append_assoc]
    exact Inv.call hstart rfl rfl (List.Perm.refl _) (fun hb => nomatch hb)
      (fun _ => htimers.trans (h.down (hdown ▸ hs)))
  · rw [if_neg hs]
    exact ⟨hstart, fun hs' => absurd hs' hs⟩

/-- **STEP**. -/
theorem inv_step {tr out : List (Output α ε)} {s s' : State} {e : Event α ε} (h : Inv tr s)
    (hstep : step s e = some (s', out)) : Inv (tr ++ out) s' := by
  cases e with
  | wait =>
      have hnew := h.wait (s := { s with calls := s.calls + 1 }) (c := .wait s.calls) rfl rfl rfl rfl
        rfl rfl
      rw [Option.some.inj hstep] at hnew
      exact hnew
  | timed =>
      have hnew := h.wait
        (s := { s with calls := s.calls + 1, actions := s.calls :: s.actions })
        (c := .timed s.calls) rfl rfl rfl rfl rfl rfl
      rw [Option.some.inj hstep] at hnew
      exact hnew
  | finish n r =>
      simp only [step] at hstep
      split at hstep
      · have hcall := Inv.call (s := { s with actions := s.actions.erase n }) (c := .timed n)
          (b := false) (r := .ofExcept r) h.toLedger rfl rfl (List.Perm.refl _) (fun _ => ⟨n, rfl⟩)
          h.down
        rw [Option.some.inj hstep] at hcall
        exact hcall
      · cases hstep
  | fire c =>
      simp only [step] at hstep
      split at hstep
      · rename_i hc
        have hdown : s.isShuttingDown = true → s.timers.erase c = [] := by
          intro hs
          rw [h.down hs]
          rfl
        have hcall := Inv.call (s := { s with timers := s.timers.erase c }) (c := c) (b := true)
          (r := c.timeout) h.toLedger rfl rfl ((List.perm_cons_erase hc).append_right _)
          (fun hb => nomatch hb) hdown
        rw [Option.some.inj hstep] at hcall
        exact hcall
      · cases hstep
  | shutdown =>
      cases hstep
      rw [List.append_nil]
      refine ⟨⟨h.books, fun c => ?_, h.fresh⟩, fun _ => rfl⟩
      rw [h.timer c]
      rfl
  | next =>
      simp only [step] at hstep
      cases hloops : s.loops with
      | nil => rw [hloops] at hstep; cases hstep
      | cons l ls =>
          rw [hloops] at hstep
          cases l with
          | nil =>
              cases hstep
              rw [List.append_nil]
              refine ⟨⟨h.books, fun c => ?_, h.fresh⟩, h.down⟩
              rw [h.timer c]
              simp [State.pending, hloops]
          | cons c cs =>
              have hpending : s.pending.Perm ([c] ++ { s with loops := cs :: ls }.pending) := by
                simp only [State.pending, hloops, List.flatten_cons, List.cons_append]
                exact List.perm_middle
              have hcall := Inv.call (s := { s with loops := cs :: ls }) (c := c) (b := true)
                (r := .shutdown) h.toLedger rfl rfl hpending (fun hb => nomatch hb) h.down
              rw [Option.some.inj hstep] at hcall
              exact hcall

/-! ## Runs -/

theorem inv_of_run {es : List (Event α ε)} {s : State} {tr : List (Output α ε)}
    (hrun : run .init es = some (s, tr)) : Inv tr s :=
  Machine.run_invariant (P := fun _ _ => True) (I := fun _ tr s => Inv tr s) inv_init
    (fun _ _ _ _ _ _ h _ hs => inv_step h hs) (Machine.along_true _ _) hrun

/-- **HEADLINE**: a call is resumed once at most, and with what the first to call it back
    calls it with; its timer calls it back exactly once, now or later; and after a shutdown
    has gone through its loop, all that ever called are resumed. -/
theorem run_resumed {es : List (Event α ε)} {s : State} {tr : List (Output α ε)}
    (hrun : run .init es = some (s, tr)) (c : Call) :
    tr.filterMap (Output.resumes c) = (tr.filterMap (Output.calls c)).take 1
      ∧ (.started c ∈ tr → (tr.filterMap Output.byTimer).count c + s.pending.count c = 1)
      ∧ (.started c ∈ tr → s.isShuttingDown = true → s.loops.flatten = [] →
        ∃ r, tr.filterMap (Output.resumes c) = [r]) := by
  have h := inv_of_run hrun
  have hstarted : .started c ∈ tr → 1 ≤ (tr.filterMap Output.starts).count c := by
    intro hmem
    exact List.one_le_count_iff.mpr (List.mem_filterMap.mpr ⟨_, hmem, rfl⟩)
  have hle : (tr.filterMap Output.starts).count c ≤ 1 := by
    refine Nat.le_trans (h.fresh c) ?_
    split
    · exact Nat.le_refl 1
    · exact Nat.zero_le 1
  have hfirst : tr.filterMap (Output.resumes c) = (tr.filterMap (Output.calls c)).take 1 := by
    cases c with
    | wait n =>
        have hlen := h.books.alone n
        have htimer := h.timer (.wait n)
        rw [h.books.plain n, List.take_of_length_le (by omega)]
    | timed n => exact h.books.first n
  refine ⟨hfirst, ?_, ?_⟩
  · intro hmem
    have := h.timer c
    have := hstarted hmem
    omega
  · intro hmem hdown hloops
    have hpending : s.pending = [] := by
      unfold State.pending
      rw [h.down hdown, hloops]
      rfl
    have htimer := h.timer c
    rw [hpending, List.count_nil, Nat.add_zero] at htimer
    have hcalled : tr.filterMap (Output.calls c) ≠ [] := by
      have hpos : 1 ≤ (tr.filterMap Output.byTimer).count c := by
        have := hstarted hmem
        omega
      obtain ⟨o, ho, hby⟩ := List.mem_filterMap.mp (List.one_le_count_iff.mp hpos)
      cases o with
      | called c' b r =>
          cases b with
          | true =>
              have hc : c' = c := Option.some.inj hby
              refine List.ne_nil_of_mem (a := r) (List.mem_filterMap.mpr ⟨_, ho, ?_⟩)
              simp [Output.calls, hc]
          | false => cases hby
      | _ => cases hby
    rw [hfirst]
    cases hl : tr.filterMap (Output.calls c) with
    | nil => exact absurd hl hcalled
    | cons r rs => exact ⟨r, rfl⟩

/-- A timeout, an action that ends too late, and a wait that a shutdown cuts short. -/
def sampleEvents : List (Event ℕ ℕ) :=
  [.timed, .wait, .fire (.timed 0), .finish 0 (.ok 7), .shutdown, .next, .wait, .next]

theorem run_resumed_sample :
    ∃ s tr, run .init sampleEvents = some (s, tr)
      ∧ tr.filterMap (Output.resumes (.timed 0)) = (tr.filterMap (Output.calls (.timed 0))).take 1
      ∧ ∃ r, tr.filterMap (Output.resumes (.wait 1)) = [r] := by
  have hrun : run .init sampleEvents = some (⟨true, [], [], [0], [], 3⟩,
      [.started (.timed 0), .started (.wait 1), .called (.timed 0) true .timedOut,
        .resumed (.timed 0) .timedOut, .called (.timed 0) false (.value 7),
        .called (.wait 1) true .shutdown, .resumed (.wait 1) .shutdown, .started (.wait 2),
        .called (.wait 2) true .shutdown, .resumed (.wait 2) .shutdown]) := rfl
  exact ⟨_, _, hrun, (run_resumed hrun _).1, (run_resumed hrun _).2.2 (by simp) rfl rfl⟩

end Waiter
