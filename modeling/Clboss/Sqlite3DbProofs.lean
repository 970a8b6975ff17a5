import Clboss.MachineProofs

/-! # The transaction queue of `Sqlite3::Db`

    One connection, one transaction at a time: `transact` starts a transaction or
    queues its caller, and whoever ends one lets the next caller go.  SQLite may
    refuse any `BEGIN` and any `COMMIT`; a refused `BEGIN` is an exception in the
    constructor of the `Tx`, which lets the next caller go first.

    In every run at most one transaction is active and the `BEGIN`s come in the
    order of the calls.  What can go wrong is a `BEGIN` refused to a caller that
    was QUEUED: the exception ends in the `catch (...)` of `release` and the
    caller, already taken off the queue, never hears of it.  `proper_iff` is that
    nothing else goes wrong. -/

namespace Sqlite3Db

/-! ## The code -/

/-- A call of `transact`, numbered in the order of the calls. -/
abbrev Call := Nat

/-- `Tx::Impl`. -/
structure Impl where
  call     : Call
  /-- `BEGIN` succeeded and neither `COMMIT` nor `ROLLBACK` has run since. -/
  active   : Bool
  /-- The next caller has been let go. -/
  released : Bool
deriving DecidableEq, Repr

/-- What shows: the statements, with SQLite's answer, and what the callers get. -/
inductive Out where
  | begin (call : Call) (accepted : Bool)
  | commit (call : Call) (accepted : Bool)
  | rollback (call : Call)
  /-- The action of `transact` completes, with a `Tx` or (`none`) an error. -/
  | completed (call : Call) (tx : Option Impl)
  /-- `commit` throws. -/
  | commitThrew (call : Call)
deriving DecidableEq, Repr

/-- `Db::Impl`, the transactions on their way to a caller and those with one. -/
structure State where
  inTransaction : Bool
  blocked       : List Call
  /-- Begun, and waiting for the event loop after the `yield` of `transact`. -/
  yielding      : List Impl
  /-- With its caller. -/
  held          : List Impl
  /-- How often `transact` was called. -/
  calls         : Nat
deriving DecidableEq, Repr

def State.init : State := ⟨false, [], [], [], 0⟩

/-- `pass` of a caller: the `Tx` is kept while the greenthread yields. -/
def State.pass (s : State) (tx : Impl) : State := { s with yielding := s.yielding ++ [tx] }

/-- What running a function does; `thrown` when an exception leaves it. -/
structure Ran where
  state  : State
  out    : List Out
  thrown : Bool

/-- `transaction_finish`, with the queue as an argument of its own.  The answers are
    what SQLite says to the `BEGIN`s to come; it accepts where nothing is said. -/
def transactionFinish : List Call → List Bool → State → Ran
  | [], _, s => ⟨{ s with blocked := [], inTransaction := false }, [], false⟩
  | c :: blocked, answers, s =>
      if answers.headD true then
        ⟨{ s with blocked := blocked }.pass ⟨c, true, false⟩, [.begin c true], false⟩
      else
        -- the constructor releases, dropping what that throws, and throws itself
        let r := transactionFinish blocked answers.tail s
        ⟨r.state, .begin c false :: r.out, true⟩

/-- `release`: what `transaction_finish` throws goes nowhere. -/
def Impl.release (tx : Impl) (answers : List Bool) (s : State) : Impl × State × List Out :=
  if tx.released then (tx, s, [])
  else
    let r := transactionFinish s.blocked answers s
    ({ tx with released := true }, r.state, r.out)

/-- The constructor of `Tx::Impl`; `none` when it throws. -/
def construct (c : Call) (answers : List Bool) (s : State) : Option Impl × State × List Out :=
  let tx : Impl := ⟨c, false, false⟩
  if answers.headD true then (some { tx with active := true }, s, [.begin c true])
  else
    let (_, s, out) := tx.release answers.tail s
    (none, s, .begin c false :: out)

/-- The destructor of `Tx::Impl`. -/
def Impl.destroy (tx : Impl) (answers : List Bool) (s : State) : State × List Out :=
  let (tx, out) := if tx.active then ({ tx with active := false }, [.rollback tx.call]) else (tx, [])
  let (_, s, out') := tx.release answers s
  (s, out ++ out')

/-- `Tx::commit`: the object is destroyed at its end, whether or not it throws. -/
def Impl.commit (tx : Impl) (accepted : Bool) (answers : List Bool) (s : State) :
    State × List Out :=
  let (tx', s, out) := { tx with active := false }.release answers s
  let (s, out') := tx'.destroy [] s
  if accepted then (s, .commit tx.call true :: out ++ out')
  else (s, [.commit tx.call false, .rollback tx.call] ++ out ++ out' ++ [.commitThrew tx.call])

/-- What can happen. -/
inductive Event where
  /-- The action of `transact` is run. -/
  | transact (answers : List Bool)
  /-- The event loop resumes a greenthread that yielded. -/
  | resume (n : Nat)
  | commit (n : Nat) (accepted : Bool) (answers : List Bool)
  /-- `rollback`, which destroys the `Impl`. -/
  | rollback (n : Nat) (answers : List Bool)
  /-- The destructor of a `Tx`. -/
  | destruct (n : Nat) (answers : List Bool)
deriving DecidableEq, Repr

def step (s : State) : Event → Option (State × List Out)
  | .transact answers =>
      let c := s.calls
      let s := { s with calls := c + 1 }
      if s.inTransaction then some ({ s with blocked := s.blocked ++ [c] }, [])
      else
        match construct c answers { s with inTransaction := true } with
        | (some tx, s, out) => some (s.pass tx, out)
        -- the block of `then` hands the exception to `fail`
        | (none, s, out)    => some (s, out ++ [.completed c none])
  | .resume n =>
      match s.yielding[n]? with
      | none    => none
      | some tx => some ({ s with yielding := s.yielding.eraseIdx n, held := s.held ++ [tx] },
          [.completed tx.call (some tx)])
  | .commit n accepted answers =>
      match s.held[n]? with
      | none    => none
      | some tx => some (tx.commit accepted answers { s with held := s.held.eraseIdx n })
  | .rollback n answers =>
      match s.held[n]? with
      | none    => none
      | some tx => some (tx.destroy answers { s with held := s.held.eraseIdx n })
  | .destruct n answers =>
      match s.held[n]? with
      | none    => none
      | some tx => some (tx.destroy answers { s with held := s.held.eraseIdx n })

def run (es : List Event) : Option (State × List Out) := Machine.run step State.init es

/-! ## What is promised -/

/-- The active transactions after one more output. -/
def activeNext (active : List Call) : Out → List Call
  | .begin c true  => active ++ [c]
  | .commit c true => active.erase c
  | .rollback c    => active.erase c
  | _              => active

/-- The transactions that are active after the outputs. -/
def activeAfter (active : List Call) (out : List Out) : List Call := out.foldl activeNext active

/-- The call whose `BEGIN` an output is. -/
def Out.served : Out → Option Call
  | .begin c _ => some c
  | _          => none

/-- The call whose completion an output is. -/
def Out.answered : Out → Option Call
  | .completed c _ => some c
  | _              => none

/-- The steps that can still be taken, when nobody calls `transact` any more. -/
def State.work (s : State) : Nat := 3 * s.blocked.length + 2 * s.yielding.length + s.held.length

/-- Whether an event is a call of `transact`. -/
def Event.isTransact : Event → Bool
  | .transact _ => true
  | _           => false

/-- What the queue promises after the outputs `tr`. -/
structure Proper (tr : List Out) (s : State) : Prop where
  /-- At ANY time, also in the middle of a step, at most one transaction is active. -/
  exclusive : ∀ tr₁, tr₁ <+: tr → (activeAfter [] tr₁).length ≤ 1
  /-- The `BEGIN`s come in the order of the calls. -/
  ordered   : tr.filterMap Out.served <+: List.range s.calls
  /-- Every call has been completed once, or is about to be, or is queued; in this order. -/
  accounted : List.range s.calls =
    tr.filterMap Out.answered ++ s.yielding.map Impl.call ++ s.blocked
  /-- A `Tx` that completes a call is live. -/
  live      : ∀ tr₁ c tx, tr₁ ++ [.completed c (some tx)] <+: tr →
    tx = ⟨c, true, false⟩ ∧ activeAfter [] tr₁ = [c]
  /-- Nobody is queued with no transaction left to end. -/
  awake     : s.yielding = [] → s.held = [] → s.blocked = []
  /-- Nothing goes on forever. -/
  prompt    : ∀ es s' tr', (∀ e ∈ es, e.isTransact = false) →
    Machine.run step s es = some (s', tr') → es.length ≤ s.work

/-- The answers to the `BEGIN`s that follow the end of a transaction. -/
def Event.wakes : Event → Option (List Bool)
  | .transact _         => none
  | .resume _           => none
  | .commit _ _ answers => some answers
  | .rollback _ answers => some answers
  | .destruct _ answers => some answers

/-- SQLite does not refuse the `BEGIN` of the caller that was queued first. -/
def Clean (s : State) (e : Event) : Prop :=
  s.blocked ≠ [] → e.wakes.bind List.head? ≠ some false

instance (s : State) (e : Event) : Decidable (Clean s e) :=
  inferInstanceAs (Decidable (s.blocked ≠ [] → e.wakes.bind List.head? ≠ some false))

/-! ## What a step does -/

/-- The queue in the state is overwritten. -/
theorem transactionFinish_blocked (blocked blocked' : List Call) (answers : List Bool)
    (s : State) : transactionFinish blocked answers { s with blocked := blocked' }
      = transactionFinish blocked answers s := by
  induction blocked generalizing answers with
  | nil => rfl
  | cons c blocked ih =>
      unfold transactionFinish
      rw [ih]

/-- The mutual recursion of the source: a queued caller is passed a constructed `Tx`. -/
theorem transactionFinish_cons (c : Call) (blocked : List Call) (answers : List Bool) (s : State) :
    transactionFinish (c :: blocked) answers s =
      match construct c answers { s with blocked := blocked } with
      | (some tx, s, out) => ⟨s.pass tx, out, false⟩
      | (none, s, out)    => ⟨s, out, true⟩ := by
  unfold transactionFinish construct
  split
  · rfl
  · rw [← transactionFinish_blocked blocked blocked]
    rfl

/-- Some callers are refused; then one is served, or none is left. -/
theorem transactionFinish_cases (blocked : List Call) (answers : List Bool) (s : State) :
    ∃ refused, (blocked ≠ [] → (answers.head? = some false ↔ refused ≠ [])) ∧
      ((∃ c rest, blocked = refused ++ c :: rest ∧
        (transactionFinish blocked answers s).state
          = { s with blocked := rest }.pass ⟨c, true, false⟩ ∧
        (transactionFinish blocked answers s).out
          = refused.map (Out.begin · false) ++ [.begin c true]) ∨
      (blocked = refused ∧
        (transactionFinish blocked answers s).state
          = { s with blocked := [], inTransaction := false } ∧
        (transactionFinish blocked answers s).out = refused.map (Out.begin · false))) := by
  induction blocked generalizing answers with
  | nil =>
      exact ⟨[], fun h => absurd rfl h, .inr ⟨rfl, rfl, rfl⟩⟩
  | cons c blocked ih =>
      by_cases ha : answers.headD true = true
      · refine ⟨[], fun _ => ?_, .inl ⟨c, blocked, rfl, ?_, ?_⟩⟩
        · cases answers with
          | nil => simp
          | cons a answers => simp_all
        · simp only [transactionFinish, if_pos ha]
        · simp only [transactionFinish, if_pos ha, List.map_nil, List.nil_append]
      · obtain ⟨refused, _, h⟩ := ih answers.tail
        have hout : (transactionFinish (c :: blocked) answers s).out
            = .begin c false :: (transactionFinish blocked answers.tail s).out := by
          simp only [transactionFinish, if_neg ha]
        have hstate : (transactionFinish (c :: blocked) answers s).state
            = (transactionFinish blocked answers.tail s).state := by
          simp only [transactionFinish, if_neg ha]
        refine ⟨c :: refused, fun _ => ?_, ?_⟩
        · cases answers with
          | nil => exact absurd rfl ha
          | cons a answers => simp_all
        · rw [hout, hstate]
          rcases h with ⟨d, rest, hb, hs, ho⟩ | ⟨hb, hs, ho⟩
          · exact .inl ⟨d, rest, by rw [hb]; rfl, hs, by rw [ho]; rfl⟩
          · exact .inr ⟨by rw [hb], hs, by rw [ho]; rfl⟩

/-- A transaction that was begun and not yet ended. -/
abbrev begun (c : Call) : Impl := ⟨c, true, false⟩

/-- The shapes of a state between steps: idle, with a transaction on its way to the
    caller, or with one at the caller. -/
inductive Phase : State → Prop where
  | idle (n : Nat) : Phase ⟨false, [], [], [], n⟩
  | yielding (c : Call) (blocked : List Call) (n : Nat) :
      Phase ⟨true, blocked, [begun c], [], n⟩
  | held (c : Call) (blocked : List Call) (n : Nat) : Phase ⟨true, blocked, [], [begun c], n⟩

/-- How the transaction of `c` ends: what is done before the next caller is let go
    and what after that. -/
inductive Ending (c : Call) : List Out → List Out → Prop where
  | commit : Ending c [.commit c true] []
  | refused : Ending c [.commit c false, .rollback c] [.commitThrew c]
  | rollback : Ending c [.rollback c] []

/-- What a step can do. -/
inductive Move : State → Event → State → List Out → Prop where
  | start (n : Nat) (answers : List Bool) :
      Move ⟨false, [], [], [], n⟩ (.transact answers) ⟨true, [], [begun n], [], n + 1⟩
        [.begin n true]
  | refuse (n : Nat) (answers : List Bool) :
      Move ⟨false, [], [], [], n⟩ (.transact answers) ⟨false, [], [], [], n + 1⟩
        [.begin n false, .completed n none]
  | queue (blocked : List Call) (ys hs : List Impl) (n : Nat) (answers : List Bool) :
      Move ⟨true, blocked, ys, hs, n⟩ (.transact answers)
        ⟨true, blocked ++ [n], ys, hs, n + 1⟩ []
  | resume (c : Call) (blocked : List Call) (n i : Nat) :
      Move ⟨true, blocked, [begun c], [], n⟩ (.resume i) ⟨true, blocked, [], [begun c], n⟩
        [.completed c (some (begun c))]
  /-- The next caller that is not refused is served. -/
  | next {c d : Call} {refused rest : List Call} {n : Nat} {e : Event} {out out' : List Out}
      (hend : Ending c out out') (he : e.isTransact = false)
      (hclean : Clean ⟨true, refused ++ d :: rest, [], [begun c], n⟩ e ↔ refused = []) :
      Move ⟨true, refused ++ d :: rest, [], [begun c], n⟩ e ⟨true, rest, [begun d], [], n⟩
        (out ++ (refused.map (Out.begin · false) ++ [.begin d true]) ++ out')
  /-- There is none. -/
  | last {c : Call} {refused : List Call} {n : Nat} {e : Event} {out out' : List Out}
      (hend : Ending c out out') (he : e.isTransact = false)
      (hclean : Clean ⟨true, refused, [], [begun c], n⟩ e ↔ refused = []) :
      Move ⟨true, refused, [], [begun c], n⟩ e ⟨false, [], [], [], n⟩
        (out ++ refused.map (Out.begin · false) ++ out')

theorem destroy_begun (c : Call) (answers : List Bool) (s : State) :
    (begun c).destroy answers s = ((transactionFinish s.blocked answers s).state,
      [.rollback c] ++ (transactionFinish s.blocked answers s).out ++ []) := by
  rw [List.append_nil]
  rfl

theorem commit_begun (c : Call) (accepted : Bool) (answers : List Bool) (s : State) :
    ∃ out out', Ending c out out' ∧
      (begun c).commit accepted answers s = ((transactionFinish s.blocked answers s).state,
        out ++ (transactionFinish s.blocked answers s).out ++ out') := by
  cases accepted with
  | true => exact ⟨_, _, .commit, rfl⟩
  | false =>
      refine ⟨_, _, .refused, ?_⟩
      show (_, _ ++ [] ++ _) = _
      rw [List.append_nil]

/-- The end of a transaction lets the next caller go. -/
theorem move_finish {c : Call} {blocked : List Call} {n : Nat} {e : Event} {out out' : List Out}
    {answers : List Bool} (hend : Ending c out out') (hwakes : e.wakes = some answers) :
    Move ⟨true, blocked, [], [begun c], n⟩ e
      (transactionFinish blocked answers ⟨true, blocked, [], [], n⟩).state
      (out ++ (transactionFinish blocked answers ⟨true, blocked, [], [], n⟩).out ++ out') := by
  have he : e.isTransact = false := by
    cases e with
    | transact a => exact nomatch hwakes
    | _ => rfl
  obtain ⟨refused, hrefused, h⟩ :=
    transactionFinish_cases blocked answers ⟨true, blocked, [], [], n⟩
  have hclean : Clean ⟨true, blocked, [], [begun c], n⟩ e ↔ refused = [] := by
    unfold Clean
    rw [hwakes]
    by_cases hb : blocked = []
    · refine iff_of_true (fun h => absurd hb h) ?_
      rcases h with ⟨d, rest, hb', _⟩ | ⟨hb', _⟩
      · rw [hb] at hb'
        exact absurd hb'.symm (by simp)
      · rw [← hb', hb]
    · have := hrefused hb
      constructor
      · intro h
        by_contra hne
        exact h hb (this.mpr hne)
      · intro h _ hfalse
        exact this.mp hfalse h
  rcases h with ⟨d, rest, rfl, hs, ho⟩ | ⟨rfl, hs, ho⟩
  · rw [hs, ho]
    exact .next hend he hclean
  · rw [hs, ho]
    exact .last hend he hclean

/-- **STEP**: from a state between steps, a step is a `Move`. -/
theorem step_move {s s' : State} {e : Event} {out : List Out} (hs : Phase s)
    (h : step s e = some (s', out)) : Move s e s' out := by
  cases hs with
  | idle n =>
      cases e with
      | transact answers =>
          by_cases ha : answers.headD true = true
          · simp only [step, construct, if_pos ha] at h
            cases h
            exact .start n answers
          · simp only [step, construct, if_neg ha] at h
            cases h
            exact .refuse n answers
      | _ => cases h
  | yielding c blocked n =>
      cases e with
      | transact answers =>
          cases h
          exact .queue blocked _ _ n answers
      | resume i =>
          cases i with
          | zero =>
              cases h
              exact .resume c blocked n 0
          | succ i => cases h
      | _ => cases h
  | held c blocked n =>
      cases e with
      | transact answers =>
          cases h
          exact .queue blocked _ _ n answers
      | resume i => cases h
      | commit i accepted answers =>
          cases i with
          | succ i => cases h
          | zero =>
              obtain ⟨out₁, out₂, hend, hc⟩ :=
                commit_begun c accepted answers ⟨true, blocked, [], [], n⟩
              have h' := (congrArg some hc).symm.trans h
              cases h'
              exact move_finish hend rfl
      | rollback i answers =>
          cases i with
          | succ i => cases h
          | zero =>
              have hd := destroy_begun c answers ⟨true, blocked, [], [], n⟩
              have h' := (congrArg some hd).symm.trans h
              cases h'
              exact move_finish .rollback rfl
      | destruct i answers =>
          cases i with
          | succ i => cases h
          | zero =>
              have hd := destroy_begun c answers ⟨true, blocked, [], [], n⟩
              have h' := (congrArg some hd).symm.trans h
              cases h'
              exact move_finish .rollback rfl

theorem Move.phase {s s' : State} {e : Event} {out : List Out} (hs : Phase s)
    (h : Move s e s' out) : Phase s' := by
  cases h with
  | start n answers => exact .yielding _ _ _
  | refuse n answers => exact .idle _
  | queue blocked ys hs n answers =>
      cases hs with
      | yielding c => exact .yielding c _ _
      | held c => exact .held c _ _
  | resume c blocked n i => exact .held _ _ _
  | next hend he hclean => exact .yielding _ _ _
  | last hend he hclean => exact .idle _

/-- Each step but a call of `transact` takes work off. -/
theorem Move.work_lt {s s' : State} {e : Event} {out : List Out} (h : Move s e s' out)
    (he : e.isTransact = false) : s'.work < s.work := by
  cases h with
  | start n answers => cases he
  | refuse n answers => cases he
  | queue blocked ys hs n answers => cases he
  | resume c blocked n i =>
      simp only [State.work, List.length_singleton, List.length_nil]
      omega
  | next hend he hclean =>
      simp only [State.work, List.length_nil, List.length_append, List.length_cons]
      omega
  | last hend he hclean =>
      simp only [State.work, List.length_singleton, List.length_nil]
      omega

/-- **RUN**: a run without calls is at most as long as the work there is. -/
theorem length_le_work (es : List Event) : ∀ (s s' : State) (tr : List Out), Phase s →
    (∀ e ∈ es, e.isTransact = false) → Machine.run step s es = some (s', tr) →
      es.length ≤ s.work := by
  induction es with
  | nil =>
      intro s s' tr _ _ _
      exact Nat.zero_le _
  | cons e es ih =>
      intro s s' tr hs hes hrun
      obtain ⟨s₁, out, tr', hstep, hrun', _⟩ := Machine.run_cons hrun
      have hmove := step_move hs hstep
      have hrest := ih s₁ s' tr' (hmove.phase hs)
        (fun e' he' => hes e' (List.mem_cons_of_mem _ he')) hrun'
      have hlt := hmove.work_lt (hes e (List.mem_cons_self ..))
      rw [List.length_cons]
      omega

/-! ## What holds along a run -/

/-- The beginning of `x ++ y` is a beginning of `x`, or `x` and a beginning of `y`. -/
theorem prefix_append_cases {α : Type} {l x y : List α} (h : l <+: x ++ y) :
    l <+: x ∨ ∃ l', l = x ++ l' ∧ l' <+: y := by
  rcases List.prefix_or_prefix_of_prefix h (List.prefix_append x y) with hx | ⟨l', rfl⟩
  · exact .inl hx
  · exact .inr ⟨l', rfl, (List.prefix_append_right_inj x).mp h⟩

theorem activeAfter_append (active : List Call) (x y : List Out) :
    activeAfter active (x ++ y) = activeAfter (activeAfter active x) y :=
  List.foldl_append

/-- At most one transaction is active, all along the outputs. -/
def Exclusive (active : List Call) (out : List Out) : Prop :=
  ∀ out₁, out₁ <+: out → (activeAfter active out₁).length ≤ 1

theorem Exclusive.nil {active : List Call} (h : active.length ≤ 1) : Exclusive active [] := by
  intro out₁ hpre
  rw [List.prefix_nil.mp hpre]
  exact h

theorem Exclusive.append {active : List Call} {x y : List Out} (hx : Exclusive active x)
    (hy : Exclusive (activeAfter active x) y) : Exclusive active (x ++ y) := by
  intro out₁ hpre
  rcases prefix_append_cases hpre with hpre | ⟨out₂, rfl, hpre'⟩
  · exact hx out₁ hpre
  · rw [activeAfter_append]
    exact hy out₂ hpre'

/-- Outputs that begin and end nothing. -/
theorem activeAfter_idle {active : List Call} {out : List Out}
    (hout : ∀ o ∈ out, activeNext active o = active) : activeAfter active out = active := by
  induction out with
  | nil => rfl
  | cons o out ih =>
      show activeAfter (activeNext active o) out = active
      rw [hout o (List.mem_cons_self ..)]
      exact ih fun o' ho' => hout o' (List.mem_cons_of_mem _ ho')

theorem Exclusive.idle {active : List Call} {out : List Out} (h : active.length ≤ 1)
    (hout : ∀ o ∈ out, activeNext active o = active) : Exclusive active out := by
  intro out₁ hpre
  rw [activeAfter_idle fun o ho => hout o (hpre.subset ho)]
  exact h

theorem Exclusive.cons {active : List Call} {o : Out} {out : List Out} (h : active.length ≤ 1)
    (hout : Exclusive (activeNext active o) out) : Exclusive active (o :: out) := by
  intro out₁ hpre
  rcases List.prefix_cons_iff.mp hpre with rfl | ⟨out₂, rfl, hpre'⟩
  · exact h
  · exact hout out₂ hpre'

/-- The end of a transaction leaves none active. -/
theorem Ending.active {c : Call} {out out' : List Out} (h : Ending c out out') :
    activeAfter [c] out = [] ∧ Exclusive [c] out ∧
      ∀ active, ∀ o ∈ out', activeNext active o = active := by
  have hc : [c].erase c = [] := List.erase_cons_head c []
  have hone : [c].length ≤ 1 := Nat.le_refl 1
  have hend : Exclusive ([c].erase c) [] := .nil (by rw [hc]; exact Nat.zero_le 1)
  cases h with
  | commit => exact ⟨hc, .cons hone hend, fun _ _ h => nomatch h⟩
  | rollback => exact ⟨hc, .cons hone hend, fun _ _ h => nomatch h⟩
  | refused =>
      refine ⟨hc, .cons hone (.cons hone hend), fun active o ho => ?_⟩
      rw [List.mem_singleton.mp ho]
      rfl

theorem activeNext_refused (refused active : List Call) :
    ∀ o ∈ refused.map (Out.begin · false), activeNext active o = active := by
  intro o ho
  obtain ⟨c, _, rfl⟩ := List.mem_map.mp ho
  rfl

/-- The calls whose transaction is active. -/
def State.active (s : State) : List Call := (s.yielding ++ s.held).map Impl.call

/-- **STEP**: the active transactions are those in the state, and at most one all along. -/
theorem Move.active {s s' : State} {e : Event} {out : List Out} (hs : Phase s)
    (h : Move s e s' out) : activeAfter s.active out = s'.active ∧ Exclusive s.active out := by
  have hone {c : Call} : [c].length ≤ 1 := Nat.le_refl 1
  have hnone : ([] : List Call).length ≤ 1 := Nat.zero_le 1
  cases h with
  | start n answers => exact ⟨rfl, .cons hnone (.nil hone)⟩
  | refuse n answers => exact ⟨rfl, .cons hnone (.cons hnone (.nil hnone))⟩
  | queue blocked ys hs n answers =>
      cases hs with
      | yielding c => exact ⟨rfl, .nil hone⟩
      | held c => exact ⟨rfl, .nil hone⟩
  | resume c blocked n i => exact ⟨rfl, .cons hone (.nil hone)⟩
  | @next c d refused rest n e out out' hend he hclean =>
      obtain ⟨hc, hex, hrest⟩ := hend.active
      have hrefused := activeAfter_idle (activeNext_refused refused [])
      have hbegin : activeAfter [c] (out ++ (refused.map (Out.begin · false) ++ [.begin d true]))
          = [d] := by
        rw [activeAfter_append, hc, activeAfter_append, hrefused]
        rfl
      refine ⟨?_, (Exclusive.append hex ?_).append ?_⟩
      · show activeAfter [c] _ = [d]
        rw [activeAfter_append, hbegin]
        exact activeAfter_idle (hrest [d])
      · rw [hc]
        refine (Exclusive.idle hnone (activeNext_refused refused [])).append ?_
        rw [hrefused]
        exact .cons hnone (.nil hone)
      · show Exclusive (activeAfter [c] _) out'
        rw [hbegin]
        exact .idle hone (hrest [d])
  | @last c refused n e out out' hend he hclean =>
      obtain ⟨hc, hex, hrest⟩ := hend.active
      have hrefused := activeAfter_idle (activeNext_refused refused [])
      have hall : activeAfter [c] (out ++ refused.map (Out.begin · false)) = [] := by
        rw [activeAfter_append, hc, hrefused]
      refine ⟨?_, (Exclusive.append hex ?_).append ?_⟩
      · show activeAfter [c] _ = []
        rw [activeAfter_append, hall]
        exact activeAfter_idle (hrest [])
      · rw [hc]
        exact .idle hnone (activeNext_refused refused [])
      · show Exclusive (activeAfter [c] _) out'
        rw [hall]
        exact .idle hnone (hrest [])

/-- The end of a transaction serves and answers nobody. -/
theorem Ending.silent {c : Call} {out out' : List Out} (h : Ending c out out') :
    ∀ o ∈ out ++ out', o.served = none ∧ o.answered = none := by
  cases h <;> simp [Out.served, Out.answered]

theorem filterMap_silent {out : List Out} {f : Out → Option Call} (h : ∀ o ∈ out, f o = none) :
    out.filterMap f = [] :=
  List.filterMap_eq_nil_iff.mpr h

/-- Around what serves and answers, silent outputs do not count. -/
theorem filterMap_between {out out' : List Out} (mid : List Out) {f : Out → Option Call}
    (hf : ∀ o ∈ out ++ out', f o = none) :
    (out ++ mid ++ out').filterMap f = mid.filterMap f := by
  rw [List.filterMap_append, List.filterMap_append,
    filterMap_silent fun o ho => hf o (List.mem_append_left _ ho),
    filterMap_silent fun o ho => hf o (List.mem_append_right _ ho), List.append_nil]
  rfl

theorem served_refused (refused : List Call) :
    (refused.map (Out.begin · false)).filterMap Out.served = refused := by
  rw [List.filterMap_map]
  exact List.filterMap_some

theorem answered_refused (refused : List Call) :
    (refused.map (Out.begin · false)).filterMap Out.answered = [] :=
  filterMap_silent fun o ho => by
    obtain ⟨c, _, rfl⟩ := List.mem_map.mp ho
    rfl

/-- **STEP**: the calls are those served and those queued, in order. -/
theorem Move.served {s s' : State} {e : Event} {out tr : List Out} (h : Move s e s' out)
    (hs : List.range s.calls = tr.filterMap Out.served ++ s.blocked) :
    List.range s'.calls = (tr ++ out).filterMap Out.served ++ s'.blocked := by
  rw [List.filterMap_append]
  cases h with
  | start n answers =>
      rw [List.range_succ, hs]
      simp [Out.served]
  | refuse n answers =>
      rw [List.range_succ, hs]
      simp [Out.served]
  | queue blocked ys hs' n answers =>
      rw [List.range_succ, hs]
      simp
  | resume c blocked n i =>
      rw [hs]
      simp [Out.served]
  | next hend he hclean =>
      rw [filterMap_between _ fun o ho => (hend.silent o ho).1, List.filterMap_append,
        served_refused, hs]
      simp [Out.served]
  | last hend he hclean =>
      rw [filterMap_between _ fun o ho => (hend.silent o ho).1, served_refused, hs]
      simp

/-- The calls that were served have been answered or are about to be. -/
def Kept (tr : List Out) (s : State) : Prop :=
  tr.filterMap Out.served = tr.filterMap Out.answered ++ s.yielding.map Impl.call

/-- **STEP**: a step keeps that exactly when it is clean. -/
theorem Move.kept_iff {s s' : State} {e : Event} {out tr : List Out} (h : Move s e s' out)
    (hk : Kept tr s) : Kept (tr ++ out) s' ↔ Clean s e := by
  unfold Kept at hk ⊢
  rw [List.filterMap_append, List.filterMap_append]
  cases h with
  | start n answers =>
      refine iff_of_true ?_ fun h => absurd rfl h
      rw [hk]
      simp [Out.served, Out.answered, List.filterMap_cons]
  | refuse n answers =>
      refine iff_of_true ?_ fun h => absurd rfl h
      rw [hk]
      simp [Out.served, Out.answered, List.filterMap_cons]
  | queue blocked ys hs n answers =>
      refine iff_of_true ?_ fun _ h => nomatch h
      rw [hk]
      simp
  | resume c blocked n i =>
      refine iff_of_true ?_ fun _ h => nomatch h
      rw [hk]
      simp [Out.served, Out.answered, List.filterMap_cons]
  | next hend he hclean =>
      rw [hclean, filterMap_between _ fun o ho => (hend.silent o ho).1,
        filterMap_between _ fun o ho => (hend.silent o ho).2, List.filterMap_append,
        List.filterMap_append, served_refused, answered_refused, hk]
      simp [Out.served, Out.answered, List.filterMap_cons]
  | last hend he hclean =>
      rw [hclean, filterMap_between _ fun o ho => (hend.silent o ho).1,
        filterMap_between _ fun o ho => (hend.silent o ho).2, served_refused, answered_refused, hk]
      simp

/-- A `Tx` that completes a call is live at that moment. -/
def Live (tr : List Out) : Prop :=
  ∀ tr₁ c tx, tr₁ ++ [.completed c (some tx)] <+: tr →
    tx = begun c ∧ activeAfter [] tr₁ = [c]

/-- One more output on its own, if it is no completion with a `Tx`. -/
theorem Live.append {tr out : List Out} (h : Live tr)
    (hout : ∀ c tx, .completed c (some tx) ∉ out) : Live (tr ++ out) := by
  intro tr₁ c tx hpre
  rcases prefix_append_cases hpre with hpre | ⟨out₁, heq, hpre'⟩
  · exact h tr₁ c tx hpre
  · rcases List.eq_nil_or_concat out₁ with rfl | ⟨out₂, o, rfl⟩
    · rw [List.append_nil] at heq
      exact h tr₁ c tx (heq ▸ List.prefix_refl _)
    · -- the completion would be among the new outputs
      rw [List.concat_eq_append] at heq hpre'
      rw [← List.append_assoc] at heq
      have ho : Out.completed c (some tx) = o :=
        List.singleton_inj.mp (List.append_inj' heq rfl).2
      refine absurd (hpre'.subset (List.mem_append_right _ (List.mem_singleton.mpr rfl))) ?_
      rw [← ho]
      exact hout c tx

/-- A completion with the active `Tx`. -/
theorem Live.snoc {tr : List Out} {c : Call} (h : Live tr) (hactive : activeAfter [] tr = [c]) :
    Live (tr ++ [.completed c (some (begun c))]) := by
  intro tr₁ d tx hpre
  rcases List.prefix_concat_iff.mp hpre with heq | hpre
  · obtain ⟨rfl, ho⟩ := List.append_inj' heq rfl
    cases ho
    exact ⟨rfl, hactive⟩
  · exact h tr₁ d tx hpre

/-- No completion with a `Tx` but in a resumption. -/
theorem Ending.no_completion {c : Call} {out out' : List Out} (h : Ending c out out')
    {mid : List Out} (hmid : ∀ d tx, .completed d (some tx) ∉ mid) :
    ∀ d tx, .completed d (some tx) ∉ out ++ mid ++ out' := by
  intro d tx hmem
  rcases List.mem_append.mp hmem with hmem | hmem
  · rcases List.mem_append.mp hmem with hmem | hmem
    · exact nomatch (h.silent _ (List.mem_append_left _ hmem)).2
    · exact hmid d tx hmem
  · exact nomatch (h.silent _ (List.mem_append_right _ hmem)).2

theorem Move.live {s s' : State} {e : Event} {out tr : List Out} (h : Move s e s' out)
    (hactive : activeAfter [] tr = s.active) (hl : Live tr) : Live (tr ++ out) := by
  cases h with
  | start n answers => exact hl.append (by simp)
  | refuse n answers => exact hl.append (by simp)
  | queue blocked ys hs n answers => exact hl.append (by simp)
  | resume c blocked n i => exact hl.snoc hactive
  | next hend he hclean => exact hl.append (hend.no_completion (by simp))
  | last hend he hclean => exact hl.append (hend.no_completion (by simp))

/-- What holds in every run. -/
structure Inv (tr : List Out) (s : State) : Prop where
  phase     : Phase s
  served    : List.range s.calls = tr.filterMap Out.served ++ s.blocked
  active    : activeAfter [] tr = s.active
  exclusive : Exclusive [] tr
  live      : Live tr

theorem Inv.init : Inv [] State.init :=
  ⟨.idle 0, rfl, rfl, .nil (Nat.zero_le 1), fun _ _ _ h => absurd (List.prefix_nil.mp h) (by simp)⟩

/-- **STEP**. -/
theorem Inv.step {tr out : List Out} {s s' : State} {e : Event} (h : Inv tr s)
    (hs : Sqlite3Db.step s e = some (s', out)) : Inv (tr ++ out) s' := by
  have hmove := step_move h.phase hs
  obtain ⟨hactive, hex⟩ := hmove.active h.phase
  refine ⟨hmove.phase h.phase, hmove.served h.served, ?_, ?_, hmove.live h.active h.live⟩
  · rw [activeAfter_append, h.active, hactive]
  · refine h.exclusive.append ?_
    rw [h.active]
    exact hex

/-- **RUN**: it holds in every run, whatever SQLite refuses. -/
theorem inv_run {es : List Event} {s : State} {tr : List Out} (h : run es = some (s, tr)) :
    Inv tr s :=
  Machine.run_invariant (P := fun _ _ => True) (I := fun _ tr s => Inv tr s) Inv.init
    (fun _ _ _ _ _ _ hI _ hs => hI.step hs) (Machine.along_true _ _) h

/-- In a clean run every call that was served is kept. -/
theorem kept_run {es : List Event} {s : State} {tr : List Out}
    (hclean : Machine.Along step Clean State.init es) (h : run es = some (s, tr)) : Kept tr s := by
  refine (Machine.run_invariant (I := fun _ tr s => Inv tr s ∧ Kept tr s) ⟨Inv.init, rfl⟩
    ?_ hclean h).2
  rintro _ tr s e s' out ⟨hI, hk⟩ hclean hs
  exact ⟨hI.step hs, ((step_move hI.phase hs).kept_iff hk).mpr hclean⟩

/-- Given the invariant, the promise is that the calls served are kept. -/
theorem Inv.proper_iff_kept {tr : List Out} {s : State} (h : Inv tr s) :
    Proper tr s ↔ Kept tr s := by
  constructor
  · intro hp
    have hserved := h.served
    rw [hp.accounted] at hserved
    exact (List.append_cancel_right hserved).symm
  · intro hk
    refine ⟨h.exclusive, ?_, ?_, h.live, ?_, ?_⟩
    · rw [h.served]
      exact List.prefix_append _ _
    · rw [h.served, hk]
    · intro hy hh
      have hphase := h.phase
      cases hphase with
      | idle n => rfl
      | yielding c blocked n => exact nomatch hy
      | held c blocked n => exact nomatch hh
    · intro es s' tr' hes hrun
      exact length_le_work es s s' tr' h.phase hes hrun

/-- **HEADLINE**: a run keeps the promise all along EXACTLY WHEN no queued caller has
    its `BEGIN` refused. -/
theorem proper_iff_clean {es : List Event} {s : State} {tr : List Out}
    (h : run es = some (s, tr)) :
    (∀ es₁ es₂ s₁ tr₁, es = es₁ ++ es₂ → run es₁ = some (s₁, tr₁) → Proper tr₁ s₁) ↔
      Machine.Along step Clean State.init es := by
  constructor
  · intro hall
    refine Machine.along_of_steps h ?_
    intro es₁ e es₂ s' tr' s'' out hes hrun hs
    have hI := inv_run hrun
    have hk := hI.proper_iff_kept.mp (hall es₁ (e :: es₂) s' tr' hes hrun)
    have hrun' := Machine.run_snoc hrun hs
    have hes' : es = (es₁ ++ [e]) ++ es₂ := by
      rw [hes, List.append_assoc]
      rfl
    have hk' := (inv_run hrun').proper_iff_kept.mp (hall (es₁ ++ [e]) es₂ _ _ hes' hrun')
    exact ((step_move hI.phase hs).kept_iff hk).mp hk'
  · intro hclean es₁ es₂ s₁ tr₁ hes hrun
    rw [hes] at hclean
    exact (inv_run hrun).proper_iff_kept.mpr (kept_run (Machine.along_append hclean) hrun)

/-- Three callers, the last two queued; a `COMMIT` is refused, then a rollback, a
    destruction and a caller whose own `BEGIN` is refused. -/
def sampleRun : List Event :=
  [ .transact [], .transact [], .transact [], .resume 0, .commit 0 false [], .resume 0
  , .rollback 0 [], .resume 0, .destruct 0 [], .transact [false] ]

theorem proper_iff_clean_sampleRun :
    ∃ tr, run sampleRun = some (⟨false, [], [], [], 4⟩, tr)
      ∧ tr.filterMap Out.answered = [0, 1, 2, 3]
      ∧ ∀ es₁ es₂ s₁ tr₁, sampleRun = es₁ ++ es₂ → run es₁ = some (s₁, tr₁) →
        Proper tr₁ s₁ :=
  ⟨_, rfl, rfl, (proper_iff_clean rfl).mpr (by decide)⟩

/-- Three callers, the last two queued; SQLite accepts the `COMMIT` and refuses the
    `BEGIN` of the second caller. -/
def droppedRun : List Event :=
  [ .transact [], .transact [], .transact [], .resume 0, .commit 0 true [false], .resume 0
  , .destruct 0 [] ]

/-- DROPPED: everything has been ended, and the second call was never completed. -/
theorem dropped_droppedRun :
    ∃ tr, run droppedRun = some (⟨false, [], [], [], 3⟩, tr)
      ∧ tr.filterMap Out.served = [0, 1, 2] ∧ tr.filterMap Out.answered = [0, 2]
      ∧ ¬ Proper tr ⟨false, [], [], [], 3⟩ := by
  refine ⟨_, rfl, rfl, rfl, ?_⟩
  intro h
  exact absurd h.accounted (by decide)

end Sqlite3Db
