import Clboss.MachineProofs

/-! # ReqResp — requests matched by the address of a heap object

    `execute` returns an action that refers to the object it was called on; when
    it is run it allocates an entry, annotates the request with the entry's
    address, has it broadcast and suspends.  `on_response` looks the annotation
    up, waits out a yield, and resumes whoever owns the entry it found.

    Handing control away happens at the yields only: `Ev::concurrent` completes
    at once, so the continuation is installed in the same turn in which the
    entry is made.  What the response handler keeps across ITS yield is an
    iterator and a reference, which die with the entry.

    A request is told apart here by its number, which the program does not
    have: it is the `owner` of a response, the code sees the `annotation`.
    Three things can go wrong (`rerouted_reusedRun`).  An address comes back: the
    late second answer of an ended request resumes the request that got its
    address.  An entry dies while a handler waits, by the handler of a second answer
    or by destruction: that handler then uses freed memory (`undefined`).  And the
    object dies between the call of `execute` and the run of what it returned.
    `Clean` excludes exactly these steps, and `routed` is the routing law for every
    run of clean steps. -/

namespace ReqResp

/-! ## The object -/

/-- A response message; `owner` is the request it answers (`none`: one of another
    requester), which is not part of the message. -/
structure Message (ρ : Type) where
  owner      : Option Nat
  annotation : Nat
  body       : ρ
deriving DecidableEq, Repr

/-- `Entry`, with the address it was allocated at; its continuations `pass` and
    `fail` are those of the request `req`. -/
structure Entry where
  req   : Nat
  addr  : Nat
  ready : Bool
deriving DecidableEq, Repr

/-- A suspended greenthread. -/
inductive Task (ρ : Type) where
  /-- `on_response` behind the yield of `wait_entry_ready`, with its reference to the
      entry of request `req`. -/
  | waitEntryReady (req : Nat) (response : Message ρ)
  /-- `execute` behind its last yield, with the response it was resumed with. -/
  | yieldResponse (req : Nat) (response : Message ρ)
deriving DecidableEq, Repr

/-- The object and the greenthreads it started. -/
structure State (ρ : Type) where
  /-- What `execute` returned and nobody has run yet, with whether the object it was called
      on is still there. -/
  calls     : List Bool
  /-- `entries`. -/
  entries   : List Entry
  tasks     : List (Task ρ)
  /-- The annotation given to each request so far. -/
  annotated : List Nat
deriving Repr

/-- How an `execute` ends. -/
inductive Outcome (ρ : Type) where
  | response (m : Message ρ)
  | shutdown
deriving DecidableEq, Repr

/-- What happens that others can see. -/
inductive Output (ρ : Type) where
  | resumed (req : Nat) (outcome : Outcome ρ)
  /-- A use of freed memory: anything may follow. -/
  | undefined
  /-- An empty `fail` called from the destructor. -/
  | terminate
deriving DecidableEq, Repr

/-- What can happen. -/
inductive Event (ρ : Type) where
  /-- A call of `execute`; there is an object from then on. -/
  | call
  /-- What a call returned is run, and its entry allocated at `addr`. -/
  | execute (n addr : Nat)
  /-- A response message is broadcast. -/
  | response (m : Message ρ)
  /-- The event loop resumes a suspended greenthread. -/
  | resume (n : Nat)
  /-- `~ReqRespBase`. -/
  | destroy
deriving DecidableEq, Repr

variable {ρ : Type}

/-- Nothing requested yet. -/
def State.init : State ρ := ⟨[], [], [], []⟩

/-- `execute` up to its broadcast: the new entry goes into the map, not ready. -/
def makeEntry (s : State ρ) (addr : Nat) : State ρ :=
  { s with
      entries   := s.entries ++ [⟨s.annotated.length, addr, false⟩]
      annotated := s.annotated ++ [addr] }

/-- The continuation after the broadcast was started: `pass` and `fail` are set
    and the entry is ready. -/
def install (s : State ρ) (req : Nat) : State ρ :=
  { s with entries := s.entries.map fun e =>
      if e.req = req then { e with ready := true } else e }

/-- A message carries the annotation of the request it answers. -/
def genuine (s : State ρ) (m : Message ρ) : Bool :=
  match m.owner with
  | none   => true
  | some q => s.annotated[q]? == some m.annotation

/-- `on_response` up to its yield. -/
def onResponse (s : State ρ) (m : Message ρ) : State ρ :=
  match s.entries.find? fun e => e.addr == m.annotation with
  | none   => s
  | some e => { s with tasks := s.tasks ++ [.waitEntryReady e.req m] }

/-- A greenthread taken off the pool goes on. -/
def resumeTask (s : State ρ) : Task ρ → State ρ × List (Output ρ)
  | .waitEntryReady req m =>
      match s.entries.find? fun e => e.req == req with
      | none   => (s, [.undefined])
      | some e =>
          if e.ready then
            ({ s with
                entries := s.entries.filter fun e => e.req != req
                tasks   := s.tasks ++ [.yieldResponse req m] }, [])
          else ({ s with tasks := s.tasks ++ [.waitEntryReady req m] }, [])
  | .yieldResponse req m => (s, [.resumed req (.response m)])

/-- `~ReqRespBase`: the entries are moved off and each `fail` is called. -/
def destroy (s : State ρ) : State ρ × List (Output ρ) :=
  ({ s with calls := s.calls.map fun _ => false, entries := [] },
    s.entries.map fun e => if e.ready then .resumed e.req .shutdown else .terminate)

/-- One step.  The allocator does not hand out the address of a live entry; a
    response exists only for a request that was made. -/
def step (s : State ρ) : Event ρ → Option (State ρ × List (Output ρ))
  | .call => some ({ s with calls := s.calls ++ [true] }, [])
  | .execute n addr =>
      match s.calls[n]? with
      | none       => none
      | some false => some ({ s with calls := s.calls.eraseIdx n }, [.undefined])
      | some true  =>
          if s.entries.any fun e => e.addr == addr then none
          else some (install (makeEntry { s with calls := s.calls.eraseIdx n } addr)
            s.annotated.length, [])
  | .response m => if genuine s m then some (onResponse s m, []) else none
  | .resume n =>
      match s.tasks[n]? with
      | none   => none
      | some t => some (resumeTask { s with tasks := s.tasks.eraseIdx n } t)
  | .destroy => some (destroy s)

/-- A run of the object from its beginning. -/
def run (es : List (Event ρ)) : Option (State ρ × List (Output ρ)) :=
  Machine.run step State.init es

/-! ## Clean steps -/

/-- The request whose entry a handler refers to. -/
def Task.waitsOn : Task ρ → Option Nat
  | .waitEntryReady req _ => some req
  | .yieldResponse _ _    => none

/-- The annotation of a response belongs to no live entry but that of its own
    request, for which no other response is being handled; nothing is destroyed
    while a response is being handled; and what a call returned is run only while
    the object it was called on is there. -/
def Clean (s : State ρ) : Event ρ → Prop
  | .execute n _ => s.calls[n]? ≠ some false
  | .response m => ∀ e ∈ s.entries, e.addr = m.annotation →
      m.owner = some e.req ∧ ∀ t ∈ s.tasks, t.waitsOn ≠ some e.req
  | .destroy => ∀ t ∈ s.tasks, t.waitsOn = none
  | _ => True

instance (s : State ρ) : (e : Event ρ) → Decidable (Clean s e)
  | .response m => inferInstanceAs (Decidable (∀ e ∈ s.entries, e.addr = m.annotation →
      m.owner = some e.req ∧ ∀ t ∈ s.tasks, t.waitsOn ≠ some e.req))
  | .destroy => inferInstanceAs (Decidable (∀ t ∈ s.tasks, t.waitsOn = none))
  | .execute n _ => inferInstanceAs (Decidable (s.calls[n]? ≠ some false))
  | .call => inferInstanceAs (Decidable True)
  | .resume _ => inferInstanceAs (Decidable True)

/-! ## What is counted -/

/-- The entries of a request. -/
def live (s : State ρ) (q : Nat) : Nat := s.entries.countP fun e => e.req == q

/-- The handlers that wait on the entry of a request. -/
def waiting (s : State ρ) (q : Nat) : Nat := s.tasks.countP fun t => t.waitsOn == some q

/-- Whether a greenthread is about to resume the request. -/
def Task.delivers (q : Nat) : Task ρ → Bool
  | .waitEntryReady _ _  => false
  | .yieldResponse req _ => req == q

/-- The greenthreads about to resume a request. -/
def delivering (s : State ρ) (q : Nat) : Nat := s.tasks.countP (Task.delivers q)

/-- A greenthread that carries a response of its own request. -/
def Task.Owned (es : List (Event ρ)) : Task ρ → Prop
  | .waitEntryReady req m => m.owner = some req ∧ .response m ∈ es
  | .yieldResponse req m  => m.owner = some req ∧ .response m ∈ es

/-- Whether an output resumes the request. -/
def Output.resumes (q : Nat) : Output ρ → Bool
  | .resumed req _ => req == q
  | _              => false

/-- How often a request was resumed. -/
def resumed (tr : List (Output ρ)) (q : Nat) : Nat := tr.countP (Output.resumes q)

/-- A response for the request was broadcast. -/
def Answered (es : List (Event ρ)) (q : Nat) : Prop :=
  ∃ m, Event.response m ∈ es ∧ m.owner = some q

/-- The requests made so far, and those of them made before the last destruction. -/
def census (es : List (Event ρ)) : Nat × Nat :=
  es.foldl (fun c e => match e with
    | .execute _ _ => (c.1 + 1, c.2)
    | .destroy     => (c.1, c.1)
    | _            => c) (0, 0)

/-- How many requests were made. -/
def executed (es : List (Event ρ)) : Nat := (census es).1

/-- How many of them were made before the last destruction. -/
def shut (es : List (Event ρ)) : Nat := (census es).2

/-- An output that is well defined and resumes a request with its own response, or with the
    shutdown of a destruction that came after it. -/
def Output.Proper (es : List (Event ρ)) : Output ρ → Prop
  | .resumed req (.response m) => m.owner = some req ∧ .response m ∈ es
  | .resumed req .shutdown     => req < shut es
  | .undefined                 => False
  | .terminate                 => False

/-! ## The invariant -/

/-- What holds after every run of clean steps. -/
structure Inv (es : List (Event ρ)) (tr : List (Output ρ)) (s : State ρ) : Prop where
  /-- Every request is in exactly one place. -/
  account  : ∀ q, live s q + delivering s q + resumed tr q
    = if q < s.annotated.length then 1 else 0
  /-- Entries are ready and lie at the address their request was annotated with. -/
  entry    : ∀ e ∈ s.entries, e.ready = true ∧ s.annotated[e.req]? = some e.addr
  /-- Handlers refer to live entries, one handler to an entry. -/
  waits    : ∀ q, waiting s q ≤ live s q
  /-- Greenthreads carry the response of their own request. -/
  owned    : ∀ t ∈ s.tasks, t.Owned es
  proper   : ∀ o ∈ tr, o.Proper es
  /-- A request that was answered is live only while its answer is handled. -/
  answered : ∀ q, Answered es q → q < s.annotated.length ∧ live s q ≤ waiting s q
  shut     : ∀ q, q < shut es → live s q = 0
  census   : executed es = s.annotated.length

theorem inv_init : Inv ([] : List (Event ρ)) [] State.init where
  account  := fun _ => rfl
  entry    := fun _ h => nomatch h
  waits    := fun _ => Nat.le_refl 0
  owned    := fun _ h => nomatch h
  proper   := fun _ h => nomatch h
  answered := fun _ ⟨_, h, _⟩ => nomatch h
  shut     := fun _ h => absurd h (Nat.not_lt_zero _)
  census   := rfl

/-! ## Counting -/

theorem countP_live_zero {s : State ρ} {q : Nat} (h : ∀ e ∈ s.entries, e.req ≠ q) :
    live s q = 0 := by
  unfold live
  rw [List.countP_eq_zero]
  intro e he heq
  exact h e he (eq_of_beq heq)

theorem live_pos {s : State ρ} {e : Entry} (h : e ∈ s.entries) : 0 < live s e.req :=
  List.countP_pos_iff.mpr ⟨e, h, beq_self_eq_true _⟩

theorem waiting_pos {s : State ρ} {t : Task ρ} {q : Nat} (h : t ∈ s.tasks)
    (hq : t.waitsOn = some q) : 0 < waiting s q :=
  List.countP_pos_iff.mpr ⟨t, h, by rw [hq]; exact beq_self_eq_true _⟩

theorem waiting_zero {s : State ρ} {q : Nat} (h : ∀ t ∈ s.tasks, t.waitsOn ≠ some q) :
    waiting s q = 0 := by
  unfold waiting
  rw [List.countP_eq_zero]
  intro t ht heq
  exact h t ht (eq_of_beq heq)

/-- The pool before a greenthread was taken off it. -/
theorem countP_eraseIdx {tasks : List (Task ρ)} {n : Nat} {t : Task ρ} (p : Task ρ → Bool)
    (h : tasks[n]? = some t) :
    tasks.countP p = (tasks.eraseIdx n).countP p + (if p t then 1 else 0) := by
  rw [(Machine.pool_perm h).countP_eq p, List.countP_cons]

theorem live_filter_self (entries : List Entry) (q : Nat) :
    (entries.filter fun e => e.req != q).countP (fun e => e.req == q) = 0 := by
  rw [List.countP_filter, List.countP_eq_zero]
  intro e _
  simp

theorem live_filter_ne (entries : List Entry) {q q' : Nat} (h : q' ≠ q) :
    (entries.filter fun e => e.req != q).countP (fun e => e.req == q')
      = entries.countP fun e => e.req == q' := by
  rw [List.countP_filter]
  refine List.countP_congr fun e _ => ?_
  constructor
  · intro he
    exact (Bool.and_eq_true _ _ ▸ he).1
  · intro he
    rw [Bool.and_eq_true]
    refine ⟨he, ?_⟩
    rw [eq_of_beq he]
    exact bne_iff_ne.mpr h

theorem census_snoc (es : List (Event ρ)) (e : Event ρ) :
    census (es ++ [e]) = match e with
      | .execute _ _ => ((census es).1 + 1, (census es).2)
      | .destroy     => ((census es).1, (census es).1)
      | _            => census es := by
  unfold census
  rw [List.foldl_append, List.foldl_cons, List.foldl_nil]

theorem executed_execute (es : List (Event ρ)) (n addr : Nat) :
    executed (es ++ [.execute n addr]) = executed es + 1 := by
  unfold executed
  rw [census_snoc]

theorem shut_execute (es : List (Event ρ)) (n addr : Nat) :
    shut (es ++ [.execute n addr]) = shut es := by
  unfold shut
  rw [census_snoc]

theorem executed_destroy (es : List (Event ρ)) : executed (es ++ [.destroy]) = executed es := by
  unfold executed
  rw [census_snoc]

theorem shut_destroy (es : List (Event ρ)) : shut (es ++ [.destroy]) = executed es := by
  unfold shut executed
  rw [census_snoc]

theorem executed_response (es : List (Event ρ)) (m : Message ρ) :
    executed (es ++ [.response m]) = executed es := by
  unfold executed
  rw [census_snoc]

theorem shut_response (es : List (Event ρ)) (m : Message ρ) :
    shut (es ++ [.response m]) = shut es := by
  unfold shut
  rw [census_snoc]

theorem executed_resume (es : List (Event ρ)) (n : Nat) :
    executed (es ++ [.resume n]) = executed es := by
  unfold executed
  rw [census_snoc]

theorem shut_resume (es : List (Event ρ)) (n : Nat) :
    shut (es ++ [.resume n]) = shut es := by
  unfold shut
  rw [census_snoc]

theorem executed_call (es : List (Event ρ)) : executed (es ++ [.call]) = executed es := by
  unfold executed
  rw [census_snoc]

theorem shut_call (es : List (Event ρ)) : shut (es ++ [.call]) = shut es := by
  unfold shut
  rw [census_snoc]

theorem shut_le_executed (es : List (Event ρ)) : shut es ≤ executed es := by
  induction es using List.reverseRecOn with
  | nil => exact Nat.le_refl 0
  | append_singleton es e ih =>
      unfold shut executed at ih ⊢
      rw [census_snoc]
      cases e with
      | execute n addr => exact Nat.le_succ_of_le ih
      | destroy        => exact Nat.le_refl _
      | _              => exact ih

/-- A request that was shut stays shut. -/
theorem shut_le_snoc (es : List (Event ρ)) (e : Event ρ) : shut es ≤ shut (es ++ [e]) := by
  have hle := shut_le_executed es
  unfold shut executed at hle
  unfold shut
  rw [census_snoc]
  cases e with
  | destroy => exact hle
  | _       => exact Nat.le_refl _

theorem Output.Proper.snoc {es : List (Event ρ)} {o : Output ρ} (h : o.Proper es) (e : Event ρ) :
    o.Proper (es ++ [e]) := by
  cases o with
  | resumed req outcome =>
      cases outcome with
      | response m => exact ⟨h.1, List.mem_append_left _ h.2⟩
      | shutdown   => exact Nat.lt_of_lt_of_le h (shut_le_snoc es e)
  | undefined => exact h
  | terminate => exact h

theorem Task.Owned.snoc {es : List (Event ρ)} {t : Task ρ} (h : t.Owned es) (e : Event ρ) :
    t.Owned (es ++ [e]) := by
  cases t with
  | waitEntryReady req m => exact ⟨h.1, List.mem_append_left _ h.2⟩
  | yieldResponse req m  => exact ⟨h.1, List.mem_append_left _ h.2⟩

theorem answered_snoc {es : List (Event ρ)} {e : Event ρ} {q : Nat}
    (h : Answered (es ++ [e]) q) :
    Answered es q ∨ ∃ m, e = .response m ∧ m.owner = some q := by
  obtain ⟨m, hmem, hm⟩ := h
  rcases List.mem_append.mp hmem with h | h
  · exact .inl ⟨m, h, hm⟩
  · exact .inr ⟨m, (List.mem_singleton.mp h).symm, hm⟩

theorem resumed_append (tr out : List (Output ρ)) (q : Nat) :
    resumed (tr ++ out) q = resumed tr q + resumed out q := List.countP_append

/-! ## Steps -/

variable {es : List (Event ρ)} {tr : List (Output ρ)} {s : State ρ}

/-- Who is still to run what `execute` returned is nothing to the others. -/
theorem Inv.withCalls (h : Inv es tr s) (calls : List Bool) :
    Inv es tr { s with calls := calls } :=
  ⟨h.account, h.entry, h.waits, h.owned, h.proper, h.answered, h.shut, h.census⟩

/-- STEP: `execute` is called. -/
theorem Inv.call (h : Inv es tr s) :
    Inv (es ++ [.call]) (tr ++ []) { s with calls := s.calls ++ [true] } := by
  rw [List.append_nil]
  refine ⟨h.account, h.entry, h.waits, fun t ht => (h.owned t ht).snoc _,
    fun o ho => (h.proper o ho).snoc _, ?_, ?_, ?_⟩
  · intro q hq
    rcases answered_snoc hq with hq | ⟨m, hm, _⟩
    · exact h.answered q hq
    · exact nomatch hm
  · intro q hq
    rw [shut_call] at hq
    exact h.shut q hq
  · rw [executed_call]
    exact h.census

/-- The state after a run of `execute`: one more entry, ready. -/
theorem install_makeEntry (h : Inv es tr s) (addr : Nat) :
    install (makeEntry s addr) s.annotated.length
      = { s with
            entries   := s.entries ++ [⟨s.annotated.length, addr, true⟩]
            annotated := s.annotated ++ [addr] } := by
  have hold : s.entries.map (fun e =>
      if e.req = s.annotated.length then { e with ready := true } else e) = s.entries := by
    refine (List.map_congr_left fun e he => if_neg ?_).trans (List.map_id _)
    intro heq
    have := (h.entry e he).2
    rw [heq, List.getElem?_eq_none (Nat.le_refl _)] at this
    exact nomatch this
  unfold install makeEntry
  simp only [List.map_append, List.map_singleton, if_true, hold]

/-- STEP: what `execute` returned is run. -/
theorem Inv.execute (h : Inv es tr s) (n addr : Nat) :
    Inv (es ++ [.execute n addr]) (tr ++ [])
      (install (makeEntry s addr) s.annotated.length) := by
  rw [install_makeEntry h addr, List.append_nil]
  have hlive : ∀ q, live { s with
        entries   := s.entries ++ [⟨s.annotated.length, addr, true⟩]
        annotated := s.annotated ++ [addr] } q
      = live s q + if s.annotated.length = q then 1 else 0 := by
    intro q
    unfold live
    rw [List.countP_append, List.countP_singleton]
    congr 1
    simp only [beq_iff_eq]
  refine ⟨?_, ?_, ?_, fun t ht => (h.owned t ht).snoc _, fun o ho => (h.proper o ho).snoc _,
    ?_, ?_, ?_⟩
  · intro q
    have hq := h.account q
    rw [hlive]
    show live s q + _ + delivering s q + resumed tr q = _
    rw [List.length_append, List.length_singleton]
    split at hq <;> split <;> split <;> omega
  · intro e he
    rcases List.mem_append.mp he with he | he
    · obtain ⟨hr, ha⟩ := h.entry e he
      refine ⟨hr, ?_⟩
      rw [List.getElem?_append_left (List.getElem?_eq_some_iff.mp ha).1]
      exact ha
    · rw [List.mem_singleton.mp he]
      exact ⟨rfl, List.getElem?_concat_length⟩
  · intro q
    rw [hlive]
    exact Nat.le_trans (h.waits q) (Nat.le_add_right _ _)
  · intro q hq
    rcases answered_snoc hq with hq | ⟨m, hm, _⟩
    · obtain ⟨hlt, hle⟩ := h.answered q hq
      rw [hlive, if_neg (Nat.ne_of_gt hlt), Nat.add_zero, List.length_append]
      exact ⟨Nat.lt_of_lt_of_le hlt (Nat.le_add_right _ _), hle⟩
    · exact nomatch hm
  · intro q hq
    rw [shut_execute] at hq
    have hlt : q < s.annotated.length := by
      rw [← h.census]
      exact Nat.lt_of_lt_of_le hq (shut_le_executed es)
    rw [hlive, h.shut q hq, if_neg (Nat.ne_of_gt hlt)]
  · rw [executed_execute, List.length_append, List.length_singleton]
    exact congrArg (· + 1) h.census

theorem annotation_of_genuine {m : Message ρ} {q : Nat} (h : genuine s m = true)
    (hq : m.owner = some q) : s.annotated[q]? = some m.annotation := by
  unfold genuine at h
  rw [hq] at h
  exact eq_of_beq h

/-- STEP: `on_response`. -/
theorem Inv.onResponse (h : Inv es tr s) {m : Message ρ} (hgen : genuine s m = true)
    (hclean : Clean s (.response m)) :
    Inv (es ++ [.response m]) (tr ++ []) (onResponse s m) := by
  rw [List.append_nil]
  have hlt : ∀ q, m.owner = some q → q < s.annotated.length := fun q hq =>
    (List.getElem?_eq_some_iff.mp (annotation_of_genuine hgen hq)).1
  unfold ReqResp.onResponse
  cases hfind : s.entries.find? fun e => e.addr == m.annotation with
  | none =>
      -- no live entry has this annotation, so its request is not live
      refine ⟨h.account, h.entry, h.waits, fun t ht => (h.owned t ht).snoc _,
        fun o ho => (h.proper o ho).snoc _, ?_, ?_, ?_⟩
      · intro q hq
        rcases answered_snoc hq with hq | ⟨m', hm', hq⟩
        · exact h.answered q hq
        · cases hm'
          refine ⟨hlt q hq, ?_⟩
          rw [countP_live_zero fun e he heq => ?_]
          · exact Nat.zero_le _
          · have haddr := (h.entry e he).2
            rw [heq, annotation_of_genuine hgen hq] at haddr
            have := List.find?_eq_none.mp hfind e he
            exact this (by rw [Option.some.inj haddr]; exact beq_self_eq_true _)
      · intro q hq
        rw [shut_response] at hq
        exact h.shut q hq
      · rw [executed_response]
        exact h.census
  | some e =>
      have he := List.mem_of_find?_eq_some hfind
-- the entry found is that of the message's own request, which no handler waits on yet
      obtain ⟨howner, hnone⟩ := hclean e he
        (eq_of_beq (List.find?_some (p := fun e : Entry => e.addr == m.annotation) hfind))
      have hwaiting : ∀ q, waiting { s with tasks := s.tasks ++ [.waitEntryReady e.req m] } q
          = waiting s q + if e.req = q then 1 else 0 := by
        intro q
        unfold waiting
        rw [List.countP_append, List.countP_singleton]
        congr 1
        simp only [Task.waitsOn, beq_iff_eq, Option.some.injEq]
      have hdeliv : ∀ q, delivering { s with tasks := s.tasks ++ [.waitEntryReady e.req m] } q
          = delivering s q := by
        intro q
        unfold delivering
        rw [List.countP_append, List.countP_singleton]
        rfl
      refine ⟨?_, h.entry, ?_, ?_, fun o ho => (h.proper o ho).snoc _, ?_, ?_, ?_⟩
      · intro q
        rw [hdeliv]
        exact h.account q
      · intro q
        rw [hwaiting]
        by_cases hq : e.req = q
        · rw [if_pos hq, ← hq, waiting_zero hnone]
          exact live_pos he
        · rw [if_neg hq]
          exact h.waits q
      · intro t ht
        rcases List.mem_append.mp ht with ht | ht
        · exact (h.owned t ht).snoc _
        · rw [List.mem_singleton.mp ht]
          exact ⟨howner, List.mem_append_right _ (List.mem_singleton_self _)⟩
      · intro q hq
        rw [hwaiting]
        rcases answered_snoc hq with hq | ⟨m', hm', hq⟩
        · obtain ⟨h1, h2⟩ := h.answered q hq
          exact ⟨h1, Nat.le_trans h2 (Nat.le_add_right _ _)⟩
        · cases hm'
          rw [howner] at hq
          cases hq
          rw [if_pos rfl]
          have := h.account e.req
          rw [if_pos (hlt e.req howner)] at this
          refine ⟨hlt e.req howner, ?_⟩
          show live s e.req ≤ _
          omega
      · intro q hq
        rw [shut_response] at hq
        exact h.shut q hq
      · rw [executed_response]
        exact h.census

/-- A handler that waits has a live entry, which is ready. -/
theorem Inv.find_of_waiting (h : Inv es tr s) {t : Task ρ} {q : Nat} (ht : t ∈ s.tasks)
    (hq : t.waitsOn = some q) :
    ∃ e, s.entries.find? (fun e => e.req == q) = some e ∧ e.ready = true := by
  have hpos : 0 < live s q := Nat.lt_of_lt_of_le (waiting_pos ht hq) (h.waits q)
  obtain ⟨e, he, hreq⟩ := List.countP_pos_iff.mp hpos
  cases hfind : s.entries.find? fun e => e.req == q with
  | none => exact absurd hreq (List.find?_eq_none.mp hfind e he)
  | some e' => exact ⟨e', rfl, (h.entry e' (List.mem_of_find?_eq_some hfind)).1⟩

/-- The state after the handler at `n` has resumed its request. -/
def handled (s : State ρ) (n req : Nat) (m : Message ρ) : State ρ :=
  { s with
      entries := s.entries.filter fun e => e.req != req
      tasks   := s.tasks.eraseIdx n ++ [.yieldResponse req m] }

/-- STEP: a handler resumes: its entry goes, the request is on its way. -/
theorem Inv.resumeWaiting (h : Inv es tr s) {n req : Nat} {m : Message ρ}
    (hn : s.tasks[n]? = some (.waitEntryReady req m)) :
    Inv (es ++ [.resume n]) (tr ++ []) (handled s n req m) := by
  rw [List.append_nil]
  have hmem := List.mem_of_getElem? hn
  have hlivepos : 0 < live s req := Nat.lt_of_lt_of_le (waiting_pos hmem rfl) (h.waits req)
  have hw := fun q => countP_eraseIdx (fun t => t.waitsOn == some q) hn
  have hd := fun q => countP_eraseIdx (Task.delivers q) hn
  -- the counts of a request other than `req` do not change
  have hlive : ∀ q, live (handled s n req m) q = if req = q then 0 else live s q := by
    intro q
    by_cases hq : req = q
    · rw [if_pos hq, ← hq]
      exact live_filter_self s.entries req
    · rw [if_neg hq]
      exact live_filter_ne s.entries (Ne.symm hq)
  have hwaiting : ∀ q, waiting (handled s n req m) q + (if req = q then 1 else 0)
      = waiting s q := by
    intro q
    have hout : (Task.waitEntryReady req m).waitsOn = some req := rfl
    have hin : (Task.yieldResponse req m).waitsOn = none := rfl
    unfold waiting handled
    rw [List.countP_append, List.countP_singleton, hw q, hout, hin]
    simp
  have hdelivering : ∀ q, delivering (handled s n req m) q
      = delivering s q + (if req = q then 1 else 0) := by
    intro q
    have hout : (Task.waitEntryReady req m).delivers q = false := rfl
    have hin : (Task.yieldResponse req m).delivers q = (req == q) := rfl
    unfold delivering handled
    rw [List.countP_append, List.countP_singleton, hd q, hout, hin]
    simp
  refine ⟨?_, ?_, ?_, ?_, fun o ho => (h.proper o ho).snoc _, ?_, ?_, ?_⟩
  · intro q
    have hq := h.account q
    show _ = if q < s.annotated.length then 1 else 0
    rw [hlive, hdelivering]
    by_cases heq : req = q
    · subst heq
      rw [if_pos rfl, if_pos rfl, ← hq]
      have : live s req ≤ 1 := by
        split at hq <;> omega
      omega
    · rw [if_neg heq, if_neg heq]
      exact hq
  · intro e he
    exact h.entry e (List.mem_of_mem_filter he)
  · intro q
    have h1 := hwaiting q
    have h2 := h.waits q
    rw [hlive]
    by_cases heq : req = q
    · subst heq
      have h3 := h.account req
      rw [if_pos rfl] at h1 ⊢
      split at h3 <;> omega
    · rw [if_neg heq] at h1 ⊢
      omega
  · intro t ht
    rcases List.mem_append.mp ht with ht | ht
    · exact (h.owned t (List.mem_of_mem_eraseIdx ht)).snoc _
    · rw [List.mem_singleton.mp ht]
      have howned : (Task.waitEntryReady req m).Owned es := h.owned _ hmem
      exact Task.Owned.snoc (t := .yieldResponse req m) howned _
  · intro q hq
    rcases answered_snoc hq with hq | ⟨m', hm', _⟩
    · obtain ⟨h1, h2⟩ := h.answered q hq
      refine ⟨h1, ?_⟩
      have h3 := hwaiting q
      rw [hlive]
      by_cases heq : req = q
      · rw [if_pos heq]
        exact Nat.zero_le _
      · rw [if_neg heq] at h3 ⊢
        omega
    · exact nomatch hm'
  · intro q hq
    rw [shut_resume] at hq
    rw [hlive, h.shut q hq, ite_self]
  · rw [executed_resume]
    exact h.census

/-- STEP: a request is resumed with its response. -/
theorem Inv.resumeDelivering (h : Inv es tr s) {n req : Nat} {m : Message ρ}
    (hn : s.tasks[n]? = some (.yieldResponse req m)) :
    Inv (es ++ [.resume n]) (tr ++ [.resumed req (.response m)])
      { s with tasks := s.tasks.eraseIdx n } := by
  have hmem := List.mem_of_getElem? hn
  have hwaiting : ∀ q, (s.tasks.eraseIdx n).countP (fun t => t.waitsOn == some q)
      = waiting s q := by
    intro q
    have hout : (Task.yieldResponse req m).waitsOn = none := rfl
    unfold waiting
    rw [countP_eraseIdx (fun t => t.waitsOn == some q) hn, hout]
    simp
  refine ⟨?_, h.entry, ?_, ?_, ?_, ?_, ?_, ?_⟩
  · intro q
    have hq := h.account q
    have hd := countP_eraseIdx (Task.delivers q) hn
    rw [resumed_append]
    have hout : resumed [Output.resumed req (.response m)] q = if req == q then 1 else 0 := by
      unfold resumed
      rw [List.countP_singleton]
      rfl
    have hdel : (Task.yieldResponse req m).delivers q = (req == q) := rfl
    rw [hout, ← hq]
    show live s q + (s.tasks.eraseIdx n).countP (Task.delivers q) + _ = _
    unfold delivering
    rw [hd, hdel]
    omega
  · intro q
    show List.countP _ _ ≤ live s q
    rw [hwaiting]
    exact h.waits q
  · intro t ht
    exact (h.owned t (List.mem_of_mem_eraseIdx ht)).snoc _
  · intro o ho
    rcases List.mem_append.mp ho with ho | ho
    · exact (h.proper o ho).snoc _
    · rw [List.mem_singleton.mp ho]
      have howned : (Task.yieldResponse req m).Owned es := h.owned _ hmem
      exact Output.Proper.snoc (o := .resumed req (.response m)) howned _
  · intro q hq
    rcases answered_snoc hq with hq | ⟨m', hm', _⟩
    · obtain ⟨h1, h2⟩ := h.answered q hq
      refine ⟨h1, ?_⟩
      show live s q ≤ List.countP _ _
      rw [hwaiting]
      exact h2
    · exact nomatch hm'
  · intro q hq
    rw [shut_resume] at hq
    exact h.shut q hq
  · rw [executed_resume]
    exact h.census

/-- Every entry is ready, so destruction fails each of them with `Shutdown`. -/
theorem Inv.destroy_eq (h : Inv es tr s) :
    destroy s = ({ s with calls := s.calls.map fun _ => false, entries := [] },
      s.entries.map fun e => .resumed e.req .shutdown) := by
  unfold destroy
  congr 1
  exact List.map_congr_left fun e he => if_pos (h.entry e he).1

/-- STEP: destruction while no response is being handled. -/
theorem Inv.destroy (h : Inv es tr s) (hclean : Clean s .destroy) :
    Inv (es ++ [.destroy]) (tr ++ (destroy s).2) (destroy s).1 := by
  rw [h.destroy_eq]
  have hwaiting : ∀ q, waiting { s with
      calls := s.calls.map fun _ => false, entries := [] } q = 0 :=
    fun q => waiting_zero fun t ht hq => by
      rw [hclean t ht] at hq
      exact nomatch hq
  have hresumed : ∀ q, resumed (s.entries.map fun e =>
      (Output.resumed e.req .shutdown : Output ρ)) q = live s q := by
    intro q
    unfold resumed live
    rw [List.countP_map]
    rfl
  refine ⟨?_, ?_, ?_, fun t ht => (h.owned t ht).snoc _, ?_, ?_, ?_, ?_⟩
  · intro q
    have hq := h.account q
    rw [resumed_append, hresumed]
    show 0 + delivering s q + _ = _
    rw [← hq]
    omega
  · intro e he
    exact nomatch he
  · intro q
    rw [hwaiting]
    exact Nat.zero_le _
  · intro o ho
    rcases List.mem_append.mp ho with ho | ho
    · exact (h.proper o ho).snoc _
    · obtain ⟨e, he, rfl⟩ := List.mem_map.mp ho
      -- every request with an entry was made before
      show e.req < ReqResp.shut (es ++ [.destroy])
      rw [shut_destroy, h.census]
      exact (List.getElem?_eq_some_iff.mp (h.entry e he).2).1
  · intro q hq
    rcases answered_snoc hq with hq | ⟨m', hm', _⟩
    · exact ⟨(h.answered q hq).1, Nat.zero_le _⟩
    · exact nomatch hm'
  · intro q _
    rfl
  · rw [executed_destroy]
    exact h.census

/-- STEP: every clean step. -/
theorem inv_step {e : Event ρ} {s' : State ρ} {out : List (Output ρ)} (h : Inv es tr s)
    (hclean : Clean s e) (hstep : step s e = some (s', out)) :
    Inv (es ++ [e]) (tr ++ out) s' := by
  cases e with
  | call =>
      cases hstep
      exact h.call
  | execute n addr =>
      simp only [step] at hstep
      split at hstep
      · exact nomatch hstep
      · exact absurd ‹_› hclean
      · split at hstep
        · exact nomatch hstep
        · cases hstep
          exact (h.withCalls _).execute n addr
  | response m =>
      simp only [step] at hstep
      split at hstep
      · cases hstep
        exact h.onResponse ‹_› hclean
      · exact nomatch hstep
  | resume n =>
      simp only [step] at hstep
      cases hn : s.tasks[n]? with
      | none =>
          rw [hn] at hstep
          exact nomatch hstep
      | some t =>
          rw [hn] at hstep
          cases t with
          | waitEntryReady req m =>
-- its entry is there and ready, so the handler is not put back and nothing is undefined
              obtain ⟨e, hfind, hready⟩ := h.find_of_waiting (List.mem_of_getElem? hn) rfl
              simp only [resumeTask, hfind, hready, if_true, Option.some.injEq,
                Prod.mk.injEq] at hstep
              obtain ⟨rfl, rfl⟩ := hstep
              exact h.resumeWaiting hn
          | yieldResponse req m =>
              simp only [resumeTask, Option.some.injEq, Prod.mk.injEq] at hstep
              obtain ⟨rfl, rfl⟩ := hstep
              exact h.resumeDelivering hn
  | destroy =>
      have heq : (s', out) = destroy s := (Option.some.inj hstep).symm
      obtain ⟨rfl, rfl⟩ := Prod.mk.inj heq
      exact h.destroy hclean

/-! ## Runs -/

/-- RUN: the invariant along every run of clean steps. -/
theorem inv_run (hclean : Machine.Along step Clean State.init es)
    (hrun : run es = some (s, tr)) : Inv es tr s :=
  Machine.run_invariant inv_init (fun _ _ _ _ _ _ h hc hs => inv_step h hc hs) hclean hrun

/-- A response for a request that is not live changes nothing. -/
theorem onResponse_ignored {m : Message ρ} {q : Nat} (hq : m.owner = some q)
    (hlive : live s q = 0) (hclean : Clean s (.response m)) : ReqResp.onResponse s m = s := by
  unfold ReqResp.onResponse
  cases hfind : s.entries.find? fun e => e.addr == m.annotation with
  | none => rfl
  | some e =>
      have he := List.mem_of_find?_eq_some hfind
      obtain ⟨howner, _⟩ :=
        hclean e he (eq_of_beq (List.find?_some (p := fun e : Entry => e.addr == m.annotation) hfind))
      rw [hq] at howner
      cases howner
      exact absurd hlive (Nat.ne_of_gt (live_pos he))

/-- **ROUTING**: in every run of clean steps nothing undefined happens and each
    request is resumed at most once, with a response that was broadcast for it or with
    the shutdown of a destruction that came after it; when no greenthread is left every
    request that was answered or made before a destruction has been resumed exactly
    once; and a response for a request that is not waiting any more changes nothing. -/
theorem routed (hclean : Machine.Along step Clean State.init es)
    (hrun : run es = some (s, tr)) :
    (∀ o ∈ tr, o.Proper es)
    ∧ (∀ q, resumed tr q ≤ 1)
    ∧ (∀ q, q < executed es → live s q + delivering s q + resumed tr q = 1)
    ∧ (s.tasks = [] → ∀ q, Answered es q ∨ q < shut es → resumed tr q = 1)
    ∧ (∀ m q, m.owner = some q → live s q = 0 → Clean s (.response m) →
        genuine s m = true → step s (.response m) = some (s, [])) := by
  have h := inv_run hclean hrun
  refine ⟨h.proper, ?_, ?_, ?_, ?_⟩
  · intro q
    have := h.account q
    split at this <;> omega
  · intro q hq
    rw [h.census] at hq
    rw [h.account q, if_pos hq]
  · intro hdone q hq
    have hdel : delivering s q = 0 := by
      unfold delivering
      rw [hdone]
      rfl
    have hwait : waiting s q = 0 := by
      unfold waiting
      rw [hdone]
      rfl
-- with no greenthread left a request is live or resumed, and live is excluded both ways
    have hacc := h.account q
    rcases hq with hq | hq
    · obtain ⟨hlt, hle⟩ := h.answered q hq
      rw [if_pos hlt] at hacc
      omega
    · have hlt : q < s.annotated.length := by
        rw [← h.census]
        exact Nat.lt_of_lt_of_le hq (shut_le_executed es)
      rw [if_pos hlt, h.shut q hq, hdel] at hacc
      omega
  · intro m q hq hlive hc hgen
    show (if genuine s m = true then some (ReqResp.onResponse s m, []) else none) = _
    rw [if_pos hgen, onResponse_ignored hq hlive hc]

/-- Two requests at different addresses, run in the other order than called: the second is
    answered, also late and for another requester's address, the first is pending at the
    destruction. -/
def sampleRun : List (Event Bool) :=
  [ .call, .call, .execute 1 16, .execute 0 32
  , .response ⟨some 1, 32, true⟩, .response ⟨none, 48, true⟩, .resume 0, .resume 0
  , .response ⟨some 1, 32, false⟩, .destroy ]

/-- The sample: one request each way, nothing left. -/
theorem routed_sampleRun :
    Machine.Along step Clean (State.init : State Bool) sampleRun
    ∧ ∃ s tr, run sampleRun = some (s, tr)
      ∧ tr = [.resumed 1 (.response ⟨some 1, 32, true⟩), .resumed 0 .shutdown]
      ∧ s.tasks = [] ∧ resumed tr 0 = 1 ∧ resumed tr 1 = 1 := by
  have hclean : Machine.Along step Clean (State.init : State Bool) sampleRun := by decide
  refine ⟨hclean, _, _, rfl, rfl, rfl, ?_, ?_⟩
  · exact (routed hclean rfl).2.2.2.1 rfl 0 (.inr (by decide))
  · exact (routed hclean rfl).2.2.2.1 rfl 1 (.inr (by decide))

/-- A request is answered, the next one gets its address, and the answer comes
    once more. -/
def reusedRun : List (Event Bool) :=
  [ .call, .execute 0 16, .response ⟨some 0, 16, true⟩, .resume 0, .resume 0
  , .call, .execute 0 16, .response ⟨some 0, 16, false⟩, .resume 0, .resume 0 ]

/-- A second answer reaches the object while the first is being handled. -/
def repeatedRun : List (Event Bool) :=
  [ .call, .execute 0 16, .response ⟨some 0, 16, true⟩, .response ⟨some 0, 16, true⟩
  , .resume 0, .resume 0 ]

/-- The object is destroyed while an answer is being handled. -/
def destroyedRun : List (Event Bool) :=
  [ .call, .execute 0 16, .response ⟨some 0, 16, true⟩, .destroy, .resume 0 ]

/-- The object is destroyed before what a call returned is run. -/
def staleRun : List (Event Bool) := [ .call, .destroy, .execute 0 16 ]

/-- REROUTED: the second request is resumed with the answer to the first; a
    handler left behind by a second answer or by the destruction uses an entry
    that is gone; and a request made after the destruction uses an object that is. -/
theorem rerouted_reusedRun :
    (∃ s, run reusedRun = some (s,
      [ .resumed 0 (.response ⟨some 0, 16, true⟩), .resumed 1 (.response ⟨some 0, 16, false⟩) ]))
    ∧ (∃ s, run repeatedRun = some (s, [.undefined]))
    ∧ (∃ s, run destroyedRun = some (s, [.resumed 0 .shutdown, .undefined]))
    ∧ (∃ s, run staleRun = some (s, [.undefined])) :=
  ⟨⟨_, rfl⟩, ⟨_, rfl⟩, ⟨_, rfl⟩, ⟨_, rfl⟩⟩

end ReqResp
