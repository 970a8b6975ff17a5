import Clboss.MachineProofs
import Mathlib.Data.List.Nodup
import Mathlib.Logic.Function.Basic

/-! # `ChannelCandidatePreinvestigator` — many batches behind one connect

    A batch tries its candidates one after the other: it registers on the node
    of its front entry and waits for the outcome of a connect.  The FIRST to
    register on a node asks for the connect; a response, whoever asked for it,
    answers all who are registered there.

    Answering happens in two parts.  `on_connect` calls every waiting case at
    once, so a case that failed is registered on its next node immediately; what
    the cases still have to raise is strung together and done one after the
    other.  A request can therefore be a while in coming after the case is
    registered, but it is never lost: it stands in an unfinished string of
    actions (`Asked`).

    Each batch lives its own life (`Place`): it loops, waits, is answered,
    proposes, loops again, or has ended.  `Sound` ties its place to what it has
    shown, and every action moves ONE batch (`Inv.move`). -/

namespace ChannelCandidatePreinvestigator

variable {N : Type}

/-! ## The module -/

/-- `Msg::ProposeChannelCandidates`. -/
structure Candidate (N : Type) where
  proposal : N
  patron   : N

/-- `Case`; `next` entries have been popped from the queue. -/
structure Case (N : Type) where
  candidates    : List (Candidate N)
  maxCandidates : Nat
  next          : Nat
  remaining     : Nat

/-- The entry being tried. -/
def Case.front (c : Case N) : Option (Candidate N) := c.candidates[c.next]?

/-- Something still to be done, by the batch it belongs to. -/
inductive Item (N : Type) where
  /-- `bus.raise(RequestConnect)` -/
  | request (node : N)
  /-- `on_connect_response` -/
  | answer (b : Nat) (success : Bool)
  /-- `on_success`: the log line, the proposal, and `loop` -/
  | log (b i : Nat)
  | propose (b i : Nat)
  | loop (b : Nat)

/-- What is shown: entry `i` of batch `b` is decided, or proposed. -/
inductive Out where
  | decided (b i : Nat) (success : Bool)
  | proposed (b i : Nat)
deriving DecidableEq

/-- The batches so far, who waits on which node, and the connect requests not
    yet answered, those of other modules included. -/
structure Core (N : Type) where
  batches     : List (Case N)
  cases       : N → List Nat
  outstanding : List N

section Module

variable [DecidableEq N]

/-- `add_case`; whether it was the first is for the caller to see. -/
def Core.addCase (s : Core N) (node : N) (b : Nat) : Core N :=
  { s with cases := Function.update s.cases node (s.cases node ++ [b]) }

/-- `Case::loop`. -/
def Core.loop (s : Core N) (b : Nat) : Core N × List (Item N) :=
  match s.batches[b]? with
  | none   => (s, [])
  | some c =>
      match c.front with
      | none      => (s, [])
      | some curr =>
          if c.remaining = 0 then (s, [])
          else
            (s.addCase curr.proposal b,
              if s.cases curr.proposal = [] then [.request curr.proposal] else [])

/-- The entry is popped and, if it was a success, counted. -/
def Core.pop (s : Core N) (b : Nat) (success : Bool) : Core N :=
  { s with batches := s.batches.modify b (fun c =>
      { c with next := c.next + 1, remaining := if success then c.remaining - 1 else c.remaining }) }

/-- The number of entries a batch has popped. -/
def Core.next (s : Core N) (b : Nat) : Nat := ((s.batches[b]?).map Case.next).getD 0

/-- One action: what it leaves to do and what it shows. -/
def Core.exec (s : Core N) : Item N → Core N × List (Item N) × List Out
  | .request node => ({ s with outstanding := s.outstanding ++ [node] }, [], [])
  | .answer b true => (s.pop b true, [.log b (s.next b)], [.decided b (s.next b) true])
  | .answer b false =>
      let r := (s.pop b false).loop b
      (r.1, r.2, [.decided b (s.next b) false])
  | .log b i => (s, [.propose b i], [])
  | .propose b i => (s, [.loop b], [.proposed b i])
  | .loop b =>
      let r := s.loop b
      (r.1, r.2, [])

/-- The loop of `on_connect`: every item is begun at once, what is left is
    strung together. -/
def Core.execAll (s : Core N) : List (Item N) → Core N × List (Item N) × List Out
  | []          => (s, [], [])
  | it :: items =>
      let r := s.exec it
      let rs := Core.execAll r.1 items
      (rs.1, r.2.1 ++ rs.2.1, r.2.2 ++ rs.2.2)

/-- The module and its unfinished actions; a finished one is an empty list. -/
structure State (N : Type) where
  core    : Core N
  acts    : List (List (Item N))
  offline : Bool

/-- At the start. -/
def State.init : State N := ⟨⟨[], fun _ => [], []⟩, [], false⟩

/-- What can happen next. -/
inductive Event (N : Type) where
  | init (offline : Bool)
  | preinvestigate (candidates : List (Candidate N)) (maxCandidates : Nat)
  /-- another module raises `RequestConnect` -/
  | requestConnect (node : N)
  /-- an outstanding request is answered -/
  | responseConnect (node : N) (success : Bool)
  /-- the `n`-th act goes on -/
  | act (n : Nat)

/-- `on_preinv`. -/
def onPreinv (s : State N) (candidates : List (Candidate N)) (maxCandidates : Nat) : State N :=
  if s.offline then s
  else
    let b := s.core.batches.length
    let r := Core.loop { s.core with
      batches := s.core.batches ++ [⟨candidates, maxCandidates, 0, maxCandidates⟩] } b
    { s with core := r.1, acts := s.acts ++ [r.2] }

/-- The cases waiting on the node are detached. -/
def Core.detach (s : Core N) (node : N) : Core N :=
  { s with cases := Function.update s.cases node [], outstanding := s.outstanding.erase node }

/-- `on_connect`. -/
def onConnect (s : State N) (node : N) (success : Bool) : State N × List Out :=
  let r := (s.core.detach node).execAll ((s.core.cases node).map (.answer · success))
  ({ s with core := r.1, acts := s.acts ++ [r.2.1] }, r.2.2)

/-- The next action of an act. -/
def onAct (s : State N) (n : Nat) : Option (State N × List Out) :=
  match s.acts[n]? with
  | some (it :: rest) =>
      let r := s.core.exec it
      some ({ s with core := r.1, acts := s.acts.set n (r.2.1 ++ rest) }, r.2.2)
  | _ => none

/-- One step. -/
def step (s : State N) : Event N → Option (State N × List Out)
  | .init offline => some ({ s with offline := offline }, [])
  | .preinvestigate candidates maxCandidates => some (onPreinv s candidates maxCandidates, [])
  | .requestConnect node =>
      some ({ s with core := { s.core with outstanding := s.core.outstanding ++ [node] } }, [])
  | .responseConnect node success =>
      if node ∈ s.core.outstanding then some (onConnect s node success) else none
  | .act n => onAct s n

/-- Runs from the start. -/
def run (es : List (Event N)) : Option (State N × List Out) := Machine.run step State.init es

end Module

/-! ## The life of a batch -/

/-- The batch an item belongs to. -/
def Item.owner : Item N → Option Nat
  | .request _  => none
  | .answer b _ => some b
  | .log b _    => some b
  | .propose b _ => some b
  | .loop b     => some b

/-- A proposal that is still to be raised. -/
def Item.isPending : Item N → Bool
  | .log _ _ | .propose _ _ => true
  | _                       => false

/-- The batch an output is about. -/
def Out.batch : Out → Nat
  | .decided b _ _ => b
  | .proposed b _  => b

/-- The decision of entry `i`. -/
def Out.decides (i : Nat) : Out → Bool
  | .decided _ j _ => decide (j = i)
  | _              => false

/-- The entry proposed. -/
def Out.proposal : Out → Option Nat
  | .proposed _ i => some i
  | _             => none

/-- What a batch has to do. -/
def mine (b : Nat) (items : List (Item N)) : List (Item N) :=
  items.filter (fun it => it.owner = some b)

/-- What a batch has shown. -/
def shown (b : Nat) (tr : List Out) : List Out := tr.filter (fun o => o.batch = b)

/-- The entries proposed, in order. -/
def proposals (tr : List Out) : List Nat := tr.filterMap Out.proposal

/-- The entry just decided: the last one popped, a success, later than all that
    were proposed. -/
structure Newest (b : Nat) (c : Case N) (tr : List Out) (i : Nat) : Prop where
  popped  : i + 1 = c.next
  success : .decided b i true ∈ tr
  later   : ∀ j ∈ proposals tr, j < i

/-- Where a batch is, by what it has to do and on which nodes it waits. -/
inductive Place (b : Nat) (c : Case N) (waits : N → Prop) (tr : List Out) : List (Item N) → Prop
  | ended (hat : ∀ y, ¬ waits y) (h : c.front = none ∨ c.remaining = 0) : Place b c waits tr []
  | waiting (e : Candidate N) (hf : c.front = some e) (hr : c.remaining ≠ 0)
      (hat : ∀ y, waits y ↔ y = e.proposal) : Place b c waits tr []
  | answering (e : Candidate N) (success : Bool) (hf : c.front = some e) (hr : c.remaining ≠ 0)
      (hat : ∀ y, ¬ waits y) : Place b c waits tr [.answer b success]
  | logging (i : Nat) (hi : Newest b c tr i) (hat : ∀ y, ¬ waits y) : Place b c waits tr [.log b i]
  | proposing (i : Nat) (hi : Newest b c tr i) (hat : ∀ y, ¬ waits y) :
      Place b c waits tr [.propose b i]
  | looping (hat : ∀ y, ¬ waits y) : Place b c waits tr [.loop b]

/-- A batch is somewhere, and has shown what took it there. -/
structure Sound (b : Nat) (c : Case N) (waits : N → Prop) (tr : List Out)
    (items : List (Item N)) : Prop where
  place    : Place b c waits tr items
  next_le  : c.next ≤ c.candidates.length
  decided  : ∀ i, tr.countP (Out.decides i) = if i < c.next then 1 else 0
  sorted   : (proposals tr).Pairwise (· < ·)
  proposed : ∀ i ∈ proposals tr, i < c.next ∧ .decided b i true ∈ tr
  budget   : (proposals tr).length + items.countP Item.isPending + c.remaining = c.maxCandidates

/-- A node somebody waits on is asked for, or will be. -/
def Asked (s : Core N) (items : List (Item N)) : Prop :=
  ∀ y, s.cases y ≠ [] → y ∈ s.outstanding ∨ .request y ∈ items

/-- The invariant of all batches, with everything that is still to be done. -/
structure Inv (tr : List Out) (s : Core N) (items : List (Item N)) : Prop where
  sound : ∀ b c, s.batches[b]? = some c →
    Sound b c (fun y => b ∈ s.cases y) (shown b tr) (mine b items)
  fresh : ∀ b, s.batches.length ≤ b → mine b items = [] ∧ (∀ y, b ∉ s.cases y) ∧ shown b tr = []
  nodup : ∀ y, (s.cases y).Nodup
  asked : Asked s items

theorem mine_append (b : Nat) (xs ys : List (Item N)) :
    mine b (xs ++ ys) = mine b xs ++ mine b ys := List.filter_append xs ys

theorem shown_append (b : Nat) (xs ys : List Out) :
    shown b (xs ++ ys) = shown b xs ++ shown b ys := List.filter_append xs ys

theorem proposals_append (xs ys : List Out) :
    proposals (xs ++ ys) = proposals xs ++ proposals ys := List.filterMap_append

theorem Place.length {b : Nat} {c : Case N} {waits : N → Prop} {tr : List Out}
    {items : List (Item N)} (h : Place b c waits tr items) : items.length ≤ 1 := by
  cases h with
  | ended => exact Nat.zero_le _
  | waiting => exact Nat.zero_le _
  | _ => exact Nat.le_refl _

/-- The item of a batch that has something to do is the only one. -/
theorem Sound.only {b : Nat} {c : Case N} {waits : N → Prop} {tr : List Out}
    {pre post : List (Item N)} {it : Item N}
    (h : Sound b c waits tr (mine b (pre ++ it :: post))) (ho : it.owner = some b) :
    mine b pre = [] ∧ mine b post = [] ∧ Sound b c waits tr [it] := by
  have heq : mine b (pre ++ it :: post) = mine b pre ++ it :: mine b post := by
    rw [mine_append]
    unfold mine
    rw [List.filter_cons_of_pos (by simpa using ho)]
  rw [heq] at h
  have hlen := h.place.length
  rw [List.length_append, List.length_cons] at hlen
  have hpre : mine b pre = [] := List.length_eq_zero_iff.mp (by omega)
  have hpost : mine b post = [] := List.length_eq_zero_iff.mp (by omega)
  rw [hpre, hpost] at h
  exact ⟨hpre, hpost, h⟩

/-- An item of another batch, or of none, is not one's own. -/
theorem mine_of_owner {b : Nat} {items : List (Item N)} (h : ∀ it ∈ items, it.owner ≠ some b) :
    mine b items = [] := by
  refine List.filter_eq_nil_iff.mpr (fun it hit => ?_)
  simpa using h it hit

/-- Outputs of another batch. -/
theorem shown_of_batch {b : Nat} {tr : List Out} (h : ∀ o ∈ tr, o.batch ≠ b) : shown b tr = [] := by
  refine List.filter_eq_nil_iff.mpr (fun o ho => ?_)
  simpa using h o ho

/-- All outputs are one's own. -/
theorem shown_self {b : Nat} {tr : List Out} (h : ∀ o ∈ tr, o.batch = b) : shown b tr = tr := by
  refine List.filter_eq_self.mpr (fun o ho => ?_)
  simpa using h o ho

/-- **STEP**: an action of batch `b` leaves the other batches alone, so only its
    own new place has to be shown. -/
theorem Inv.move {tr : List Out} {s : Core N} {pre post : List (Item N)} {it : Item N} {b : Nat}
    {c : Case N} (out : List Out) (s' : Core N) (new : List (Item N))
    (h : Inv tr s (pre ++ it :: post)) (ho : it.owner = some b)
    (hc : s.batches[b]? = some c) (hlen : s'.batches.length = s.batches.length)
    (hbatches : ∀ b', b' ≠ b → s'.batches[b']? = s.batches[b']?)
    (hcases : ∀ b' y, b' ≠ b → (b' ∈ s'.cases y ↔ b' ∈ s.cases y))
    (hnew : ∀ x ∈ new, x.owner = none ∨ x.owner = some b) (hout : ∀ o ∈ out, o.batch = b)
    (hnodup : ∀ y, (s'.cases y).Nodup) (hasked : Asked s' (pre ++ new ++ post))
    (hsound : Sound b c (fun y => b ∈ s.cases y) (shown b tr) [it] → ∀ c', s'.batches[b]? = some c' →
      Sound b c' (fun y => b ∈ s'.cases y) (shown b tr ++ out) (mine b new)) :
    Inv (tr ++ out) s' (pre ++ new ++ post) := by
  obtain ⟨hpre, hpost, hold⟩ := (h.sound b c hc).only ho
  have hother : ∀ b', b' ≠ b → mine b' (pre ++ new ++ post) = mine b' (pre ++ it :: post)
      ∧ shown b' (tr ++ out) = shown b' tr := by
    intro b' hne
    constructor
    · have hn : mine b' new = [] := by
        refine mine_of_owner (fun x hx heq => ?_)
        rcases hnew x hx with hnone | hb
        · rw [hnone] at heq
          cases heq
        · rw [hb] at heq
          exact hne (Option.some.inj heq).symm
      have hit : mine b' [it] = [] := by
        refine mine_of_owner (fun x hx heq => ?_)
        rw [List.mem_singleton.mp hx, ho] at heq
        exact hne (Option.some.inj heq).symm
      rw [← List.singleton_append, ← List.append_assoc]
      simp only [mine_append, hn, hit]
    · have hnone : shown b' out = [] :=
        shown_of_batch (fun o hmem heq => hne (heq.symm.trans (hout o hmem)))
      rw [shown_append, hnone, List.append_nil]
  refine ⟨?_, ?_, hnodup, hasked⟩
  · intro b' c' hc'
    by_cases hb : b' = b
    · subst hb
      have hmine : mine b' (pre ++ new ++ post) = mine b' new := by
        rw [mine_append, mine_append, hpre, hpost, List.nil_append, List.append_nil]
      rw [hmine, shown_append, shown_self hout]
      exact hsound hold c' hc'
    · rw [hbatches b' hb] at hc'
      obtain ⟨hm, hsh⟩ := hother b' hb
      have heq : (fun y => b' ∈ s'.cases y) = fun y => b' ∈ s.cases y := by
        funext y
        exact propext (hcases b' y hb)
      rw [hm, hsh, heq]
      exact h.sound b' c' hc'
  · intro b' hle
    have hb : b' ≠ b := by
      rintro rfl
      obtain ⟨hlt, -⟩ := List.getElem?_eq_some_iff.mp hc
      omega
    obtain ⟨hm, hsh⟩ := hother b' hb
    obtain ⟨h1, h2, h3⟩ := h.fresh b' (by omega)
    rw [hm, hsh]
    exact ⟨h1, fun y hy => h2 y ((hcases b' y hb).mp hy), h3⟩

/-- A batch number is that of a batch, or of none yet. -/
theorem Core.batch_or_fresh (s : Core N) (b : Nat) :
    (∃ c, s.batches[b]? = some c) ∨ s.batches.length ≤ b := by
  rcases Nat.lt_or_ge b s.batches.length with hlt | hge
  · exact Or.inl ⟨_, List.getElem?_eq_getElem hlt⟩
  · exact Or.inr hge

/-- The batch an item belongs to is there. -/
theorem Inv.owned {tr : List Out} {s : Core N} {pre post : List (Item N)} {it : Item N} {b : Nat}
    (h : Inv tr s (pre ++ it :: post)) (ho : it.owner = some b) : ∃ c, s.batches[b]? = some c := by
  refine (s.batch_or_fresh b).resolve_right (fun hle => ?_)
  have hmem : it ∈ mine b (pre ++ it :: post) := by
    refine List.mem_filter.mpr ⟨?_, by simpa using ho⟩
    exact List.mem_append_right _ List.mem_cons_self
  rw [(h.fresh b hle).1] at hmem
  cases hmem

/-- Dropping an item that is no request keeps every node asked for. -/
theorem Asked.replace {s : Core N} {pre post new : List (Item N)} {it : Item N}
    (h : Asked s (pre ++ it :: post)) (hit : ∀ y, it ≠ .request y) :
    Asked s (pre ++ new ++ post) := by
  intro y hy
  rcases h y hy with hout | hmem
  · exact Or.inl hout
  · refine Or.inr ?_
    rcases List.mem_append.mp hmem with hpre | hrest
    · exact List.mem_append_left _ (List.mem_append_left _ hpre)
    · rcases List.mem_cons.mp hrest with heq | hpost
      · exact absurd heq.symm (hit y)
      · exact List.mem_append_right _ hpost

/-- **STEP**: a request is raised. -/
theorem Inv.request {tr : List Out} {s : Core N} {pre post : List (Item N)} {node : N}
    (h : Inv tr s (pre ++ .request node :: post)) :
    Inv tr { s with outstanding := s.outstanding ++ [node] } (pre ++ post) := by
  have hmine : ∀ b, mine b (pre ++ post) = mine b (pre ++ .request node :: post) := by
    intro b
    have hit : mine b [(.request node : Item N)] = [] :=
      mine_of_owner (fun it hit heq => by rw [List.mem_singleton.mp hit] at heq; cases heq)
    rw [← List.singleton_append (x := Item.request node)]
    simp only [mine_append, hit, List.nil_append]
  refine ⟨fun b c hc => ?_, fun b hle => ?_, h.nodup, fun y hy => ?_⟩
  · rw [hmine]
    exact h.sound b c hc
  · rw [hmine]
    exact h.fresh b hle
  · rcases h.asked y hy with hout | hmem
    · exact Or.inl (List.mem_append_left _ hout)
    · rcases List.mem_append.mp hmem with hpre | hrest
      · exact Or.inr (List.mem_append_left _ hpre)
      · rcases List.mem_cons.mp hrest with heq | hpost
        · cases heq
          exact Or.inl (List.mem_append_right _ (List.mem_singleton.mpr rfl))
        · exact Or.inr (List.mem_append_right _ hpost)

/-- **STEP**: a success is logged. -/
theorem Inv.log {tr : List Out} {s : Core N} {pre post : List (Item N)} {b i : Nat}
    (h : Inv tr s (pre ++ .log b i :: post)) : Inv tr s (pre ++ [.propose b i] ++ post) := by
  obtain ⟨c, hc⟩ := h.owned rfl
  have hmove := h.move [] s [.propose b i] rfl hc rfl (fun _ _ => rfl)
    (fun _ _ _ => Iff.rfl) (fun x hx => by rw [List.mem_singleton.mp hx]; exact Or.inr rfl)
    (fun o ho => by cases ho) h.nodup (h.asked.replace (fun y hy => by cases hy)) ?_
  · rwa [List.append_nil] at hmove
  · intro hold c' hc'
    rw [hc] at hc'
    cases hc'
    have hnew : mine b [(.propose b i : Item N)] = [.propose b i] := by simp [mine, Item.owner]
    rw [List.append_nil, hnew]
    refine ⟨?_, hold.next_le, hold.decided, hold.sorted, hold.proposed, hold.budget⟩
    cases hold.place with
    | logging _ hi hat => exact Place.proposing i hi hat

/-- **STEP**: a proposal is raised. -/
theorem Inv.propose {tr : List Out} {s : Core N} {pre post : List (Item N)} {b i : Nat}
    (h : Inv tr s (pre ++ .propose b i :: post)) :
    Inv (tr ++ [.proposed b i]) s (pre ++ [.loop b] ++ post) := by
  obtain ⟨c, hc⟩ := h.owned rfl
  refine h.move _ _ _ rfl hc rfl (fun _ _ => rfl) (fun _ _ _ => Iff.rfl)
    (fun x hx => by rw [List.mem_singleton.mp hx]; exact Or.inr rfl)
    (fun o ho => by rw [List.mem_singleton.mp ho]; rfl) h.nodup
    (h.asked.replace (fun y hy => by cases hy)) ?_
  intro hold c' hc'
  rw [hc] at hc'
  cases hc'
  have hnew : mine b [(.loop b : Item N)] = [.loop b] := by simp [mine, Item.owner]
  have hprop : proposals (shown b tr ++ [.proposed b i]) = proposals (shown b tr) ++ [i] :=
    proposals_append _ _
  rw [hnew]
  cases hold.place with
  | proposing _ hi hat =>
      refine ⟨Place.looping hat, hold.next_le, ?_, ?_, ?_, ?_⟩
      · intro j
        rw [List.countP_append, hold.decided]
        rfl
      · rw [hprop]
        refine List.pairwise_append.mpr ⟨hold.sorted, List.pairwise_singleton _ _, ?_⟩
        intro j hj k hk
        rw [List.mem_singleton.mp hk]
        exact hi.later j hj
      · intro j hj
        rw [hprop] at hj
        rcases List.mem_append.mp hj with hold' | hnew'
        · obtain ⟨hlt, hd⟩ := hold.proposed j hold'
          exact ⟨hlt, List.mem_append_left _ hd⟩
        · rw [List.mem_singleton.mp hnew']
          have := hi.popped
          exact ⟨by omega, List.mem_append_left _ hi.success⟩
      · have hb := hold.budget
        have h1 : List.countP Item.isPending [(.propose b i : Item N)] = 1 := rfl
        have h0 : List.countP Item.isPending [(.loop b : Item N)] = 0 := rfl
        rw [hprop, List.length_append, List.length_singleton, h0]
        omega

section Loop

variable [DecidableEq N]

theorem Core.cases_addCase_self (s : Core N) (node : N) (b : Nat) :
    (s.addCase node b).cases node = s.cases node ++ [b] := Function.update_self _ _ _

theorem Core.cases_addCase_ne (s : Core N) (node : N) (b : Nat) {y : N} (hy : y ≠ node) :
    (s.addCase node b).cases y = s.cases y := Function.update_of_ne hy _ _

theorem Core.mem_addCase (s : Core N) (node : N) (b b' : Nat) (y : N) :
    b' ∈ (s.addCase node b).cases y ↔ b' ∈ s.cases y ∨ (b' = b ∧ y = node) := by
  by_cases hy : y = node
  · rw [hy, Core.cases_addCase_self]
    simp
  · rw [Core.cases_addCase_ne s node b hy]
    simp [hy]

/-- **STEP**: the next entry is registered on its node, or the batch ends. -/
theorem Inv.loop {tr : List Out} {s : Core N} {pre post : List (Item N)} {b : Nat}
    (h : Inv tr s (pre ++ .loop b :: post)) : Inv tr (s.loop b).1 (pre ++ (s.loop b).2 ++ post) := by
  obtain ⟨c, hc⟩ := h.owned rfl
  -- nothing is left to do
  have hend : (c.front = none ∨ c.remaining = 0) → Inv tr s (pre ++ [] ++ post) := by
    intro hdone
    have hmove := h.move [] s [] rfl hc rfl (fun _ _ => rfl)
      (fun _ _ _ => Iff.rfl) (fun x hx => by cases hx) (fun o ho => by cases ho) h.nodup
      (h.asked.replace (fun y hy => by cases hy)) ?_
    · rwa [List.append_nil] at hmove
    · intro hold c' hc'
      rw [hc] at hc'
      cases hc'
      rw [List.append_nil]
      refine ⟨?_, hold.next_le, hold.decided, hold.sorted, hold.proposed, hold.budget⟩
      cases hold.place with
      | looping hat => exact Place.ended hat hdone
  unfold Core.loop
  simp only [hc]
  cases hf : c.front with
  | none => exact hend (Or.inl hf)
  | some curr =>
      simp only
      by_cases hr : c.remaining = 0
      · rw [if_pos hr]
        exact hend (Or.inr hr)
      · rw [if_neg hr]
        have hb : ∀ y, b ∉ s.cases y := by
          cases ((h.sound b c hc).only rfl).2.2.place with
          | looping hat => exact hat
        have hmove := h.move [] (s.addCase curr.proposal b)
          (if s.cases curr.proposal = [] then [.request curr.proposal] else []) rfl hc rfl
          (fun _ _ => rfl) ?_ ?_ (fun o ho => by cases ho) ?_ ?_ ?_
        · rwa [List.append_nil] at hmove
        · intro b' y hne
          rw [Core.mem_addCase]
          exact ⟨fun hor => hor.elim id (fun hb' => absurd hb'.1 hne), Or.inl⟩
        · intro x hx
          split at hx
          · rw [List.mem_singleton.mp hx]
            exact Or.inl rfl
          · cases hx
        · intro y
          by_cases hy : y = curr.proposal
          · rw [hy, Core.cases_addCase_self]
            refine List.nodup_append.mpr ⟨h.nodup _, List.nodup_singleton _, ?_⟩
            intro a ha a' ha' heq
            rw [List.mem_singleton.mp ha'] at heq
            rw [heq] at ha
            exact hb _ ha
          · rw [Core.cases_addCase_ne s _ b hy]
            exact h.nodup y
        · -- the first on a node asks for it; whoever comes later finds it asked for
          intro y hy
          by_cases hyc : y = curr.proposal
          · by_cases hfirst : s.cases curr.proposal = []
            · rw [if_pos hfirst, hyc]
              refine Or.inr (List.mem_append_left _ (List.mem_append_right _ ?_))
              exact List.mem_singleton.mpr rfl
            · rw [if_neg hfirst, hyc]
              exact h.asked.replace (fun y hy => by cases hy) _ hfirst
          · rw [Core.cases_addCase_ne s _ b hyc] at hy
            exact h.asked.replace (fun y hy => by cases hy) y hy
        · intro hold c' hc'
          rw [show s.batches[b]? = some c' from hc'] at hc
          cases hc
          have hnew : mine b (if s.cases curr.proposal = [] then [Item.request curr.proposal]
              else []) = [] := by
            split
            · rfl
            · rfl
          rw [List.append_nil, hnew]
          refine ⟨?_, hold.next_le, hold.decided, hold.sorted, hold.proposed, hold.budget⟩
          refine Place.waiting curr hf hr (fun y => ?_)
          rw [Core.mem_addCase]
          exact ⟨fun hor => hor.elim (fun hin => absurd hin (hb y)) And.right,
            fun hy => Or.inr ⟨rfl, hy⟩⟩

end Loop

/-- The popped case. -/
theorem Core.getElem?_pop {s : Core N} {b : Nat} {c : Case N} (hc : s.batches[b]? = some c)
    (success : Bool) : (s.pop b success).batches[b]? = some { c with
      next := c.next + 1, remaining := if success then c.remaining - 1 else c.remaining } := by
  unfold Core.pop
  rw [List.getElem?_modify_eq, hc]
  rfl

theorem Core.next_eq {s : Core N} {b : Nat} {c : Case N} (hc : s.batches[b]? = some c) :
    s.next b = c.next := by
  unfold Core.next
  rw [hc]
  rfl

/-- The counts of decisions after one more. -/
theorem countP_decided {tr : List Out} {n : Nat}
    (h : ∀ i, tr.countP (Out.decides i) = if i < n then 1 else 0) (b : Nat) (success : Bool) (i : Nat) :
    (tr ++ [Out.decided b n success]).countP (Out.decides i) = if i < n + 1 then 1 else 0 := by
  rw [List.countP_append, h, List.countP_singleton]
  simp only [Out.decides, decide_eq_true_eq]
  split <;> split <;> split <;> omega

/-- **STEP**: the front entry is decided; a success is to be logged, a failure
    to loop. -/
theorem Inv.answer {tr : List Out} {s : Core N} {pre post : List (Item N)} {b : Nat} {success : Bool}
    (h : Inv tr s (pre ++ .answer b success :: post)) :
    Inv (tr ++ [.decided b (s.next b) success]) (s.pop b success)
      (pre ++ [if success then .log b (s.next b) else .loop b] ++ post) := by
  obtain ⟨c, hc⟩ := h.owned rfl
  rw [Core.next_eq hc]
  refine h.move _ _ _ rfl hc (List.length_modify _ _ _) ?_ (fun _ _ _ => Iff.rfl) ?_
    (fun o ho => by rw [List.mem_singleton.mp ho]; rfl) h.nodup ?_ ?_
  · intro b' hne
    exact List.getElem?_modify_ne _ _ (Ne.symm hne)
  · intro x hx
    rw [List.mem_singleton.mp hx]
    cases success with
    | true => exact Or.inr rfl
    | false => exact Or.inr rfl
  · exact h.asked.replace (fun y hy => by cases hy)
  · intro hold c' hc'
    rw [Core.getElem?_pop hc] at hc'
    cases hc'
    cases hold.place with
    | answering e _ hf hr hat =>
        have hlt : c.next < c.candidates.length := (List.getElem?_eq_some_iff.mp hf).1
        have hprop : proposals (shown b tr ++ [.decided b c.next success])
            = proposals (shown b tr) := by
          rw [proposals_append]
          exact List.append_nil _
        have hproposed : ∀ i ∈ proposals (shown b tr ++ [.decided b c.next success]),
            i < c.next + 1 ∧ .decided b i true ∈ shown b tr ++ [.decided b c.next success] := by
          intro i hi
          rw [hprop] at hi
          obtain ⟨hi, hd⟩ := hold.proposed i hi
          exact ⟨by omega, List.mem_append_left _ hd⟩
        have hbudget := hold.budget
        have h0 : List.countP Item.isPending [(.answer b success : Item N)] = 0 := rfl
        rw [h0] at hbudget
        cases success with
        | true =>
            have hnew : mine b [if true = true then (.log b c.next : Item N) else .loop b]
                = [.log b c.next] := by simp [mine, Item.owner]
            have h1 : List.countP Item.isPending [(.log b c.next : Item N)] = 1 := rfl
            rw [hnew]
            refine ⟨Place.logging c.next ⟨rfl, ?_, ?_⟩ hat, hlt,
              countP_decided hold.decided b true, ?_, hproposed, ?_⟩
            · exact List.mem_append_right _ (List.mem_singleton.mpr rfl)
            · intro j hj
              rw [hprop] at hj
              exact (hold.proposed j hj).1
            · rw [hprop]
              exact hold.sorted
            · rw [hprop, h1, if_pos rfl]
              show _ + 1 + (c.remaining - 1) = c.maxCandidates
              omega
        | false =>
            have hnew : mine b [if false = true then (.log b c.next : Item N) else .loop b]
                = [.loop b] := by simp [mine, Item.owner]
            have h1 : List.countP Item.isPending [(.loop b : Item N)] = 0 := rfl
            rw [hnew]
            refine ⟨Place.looping hat, hlt, countP_decided hold.decided b false, ?_, hproposed, ?_⟩
            · rw [hprop]
              exact hold.sorted
            · rw [hprop, h1, if_neg Bool.false_ne_true]
              exact hbudget

section Steps

variable [DecidableEq N]

/-- **STEP**: every action keeps the invariant. -/
theorem Inv.exec {tr : List Out} {s : Core N} {pre post : List (Item N)} {it : Item N}
    (h : Inv tr s (pre ++ it :: post)) :
    Inv (tr ++ (s.exec it).2.2) (s.exec it).1 (pre ++ (s.exec it).2.1 ++ post) := by
  cases it with
  | request node =>
      show Inv (tr ++ []) _ (pre ++ [] ++ post)
      rw [List.append_nil, List.append_nil]
      exact h.request
  | log b i =>
      show Inv (tr ++ []) s _
      rw [List.append_nil]
      exact h.log
  | propose b i => exact h.propose
  | loop b =>
      show Inv (tr ++ []) _ _
      rw [List.append_nil]
      exact h.loop
  | answer b success =>
      have hpop := h.answer
      cases success with
      | true => exact hpop
      | false =>
          rw [List.append_assoc, if_neg Bool.false_ne_true, List.singleton_append] at hpop
          exact hpop.loop

/-- **STEP**: so does a string of them, begun one after the other. -/
theorem Inv.execAll {items : List (Item N)} : ∀ {tr : List Out} {s : Core N} {pre : List (Item N)},
    Inv tr s (pre ++ items) →
      Inv (tr ++ (s.execAll items).2.2) (s.execAll items).1 (pre ++ (s.execAll items).2.1) := by
  induction items with
  | nil =>
      intro tr s pre h
      show Inv (tr ++ []) s (pre ++ [])
      rw [List.append_nil]
      exact h
  | cons it items ih =>
      intro tr s pre h
      have hrest := ih h.exec
      simp only [List.append_assoc] at hrest
      exact hrest

omit [DecidableEq N] in
/-- Each of the cases answered has one answer to handle. -/
theorem mine_answers (success : Bool) (b : Nat) {ids : List Nat} (h : ids.Nodup) :
    mine b (ids.map (fun b' => (.answer b' success : Item N)))
      = if b ∈ ids then [.answer b success] else [] := by
  induction ids with
  | nil => rfl
  | cons b' ids ih =>
      obtain ⟨hnot, hn⟩ := List.nodup_cons.mp h
      have hrest := ih hn
      unfold mine at hrest ⊢
      rw [List.map_cons, List.filter_cons, hrest]
      by_cases hb : b' = b
      · subst hb
        simp [Item.owner, hnot]
      · simp [Item.owner, hb, Ne.symm hb]

/-- **STEP**: all who wait on a node are detached and have an answer to handle. -/
theorem Inv.detach {tr : List Out} {s : Core N} {items : List (Item N)} (h : Inv tr s items)
    (node : N) (success : Bool) :
    Inv tr (s.detach node) (items ++ (s.cases node).map (.answer · success)) := by
  have hself : (s.detach node).cases node = [] := Function.update_self _ _ _
  have hne : ∀ y, y ≠ node → (s.detach node).cases y = s.cases y :=
    fun y hy => Function.update_of_ne hy _ _
  have hmine : ∀ b, mine b (items ++ (s.cases node).map (.answer · success))
      = mine b items ++ if b ∈ s.cases node then [.answer b success] else [] := by
    intro b
    rw [mine_append, mine_answers success b (h.nodup node)]
  refine ⟨fun b c hc => ?_, fun b hle => ?_, fun y => ?_, fun y hy => ?_⟩
  · have hold := h.sound b c hc
    rw [hmine]
    by_cases hb : b ∈ s.cases node
    · rw [if_pos hb]
      cases hitems : mine b items with
      | cons it rest =>
          rw [hitems] at hold
          -- a batch that has something to do waits nowhere
          cases hold.place with
          | answering _ _ _ _ hat => exact absurd hb (hat node)
          | logging _ _ hat => exact absurd hb (hat node)
          | proposing _ _ hat => exact absurd hb (hat node)
          | looping hat => exact absurd hb (hat node)
      | nil =>
          rw [hitems] at hold
          cases hold.place with
          | ended hat _ => exact absurd hb (hat node)
          | waiting e hf hr hat =>
              refine ⟨Place.answering e success hf hr (fun y hy => ?_), hold.next_le, hold.decided,
                hold.sorted, hold.proposed, hold.budget⟩
              by_cases hyn : y = node
              · rw [hyn, hself] at hy
                cases hy
              · rw [hne y hyn] at hy
                exact hyn (((hat y).mp hy).trans ((hat node).mp hb).symm)
    · rw [if_neg hb, List.append_nil]
      have heq : (fun y => b ∈ (s.detach node).cases y) = fun y => b ∈ s.cases y := by
        funext y
        by_cases hyn : y = node
        · rw [hyn, hself]
          simp [hb]
        · rw [hne y hyn]
      rw [heq]
      exact hold
  · obtain ⟨h1, h2, h3⟩ := h.fresh b hle
    rw [hmine, h1, if_neg (h2 node)]
    refine ⟨rfl, fun y hy => ?_, h3⟩
    by_cases hyn : y = node
    · rw [hyn, hself] at hy
      cases hy
    · rw [hne y hyn] at hy
      exact h2 y hy
  · by_cases hyn : y = node
    · rw [hyn, hself]
      exact List.nodup_nil
    · rw [hne y hyn]
      exact h.nodup y
  · have hyn : y ≠ node := by
      rintro rfl
      exact hy hself
    rw [hne y hyn] at hy
    rcases h.asked y hy with hout | hreq
    · exact Or.inl ((List.mem_erase_of_ne hyn).mpr hout)
    · exact Or.inr (List.mem_append_left _ hreq)

omit [DecidableEq N] in
/-- **STEP**: a batch arrives and has to loop. -/
theorem Inv.arrive {tr : List Out} {s : Core N} {items : List (Item N)} (h : Inv tr s items)
    (candidates : List (Candidate N)) (maxCandidates : Nat) :
    Inv tr { s with batches := s.batches ++ [⟨candidates, maxCandidates, 0, maxCandidates⟩] }
      (items ++ [.loop s.batches.length]) := by
  have hmine : ∀ b, mine b (items ++ [.loop s.batches.length])
      = mine b items ++ if b = s.batches.length then [.loop b] else [] := by
    intro b
    rw [mine_append]
    congr 1
    by_cases hb : b = s.batches.length
    · rw [if_pos hb, hb]
      simp [mine, Item.owner]
    · rw [if_neg hb]
      simp [mine, Item.owner, Ne.symm hb]
  obtain ⟨hnone, hnowhere, hsilent⟩ := h.fresh s.batches.length (Nat.le_refl _)
  refine ⟨fun b c hc => ?_, fun b hle => ?_, h.nodup, fun y hy => ?_⟩
  · rw [hmine]
    by_cases hb : b = s.batches.length
    · subst hb
      rw [List.getElem?_concat_length] at hc
      cases hc
      rw [if_pos rfl, hnone, hsilent, List.nil_append]
      refine ⟨Place.looping hnowhere, Nat.zero_le _, fun i => rfl, List.Pairwise.nil,
        (fun i hi => by cases hi), ?_⟩
      show 0 + 0 + maxCandidates = maxCandidates
      omega
    · have hlt : b < s.batches.length := by
        have := (List.getElem?_eq_some_iff.mp hc).1
        rw [List.length_append, List.length_singleton] at this
        omega
      rw [List.getElem?_append_left hlt] at hc
      rw [if_neg hb, List.append_nil]
      exact h.sound b c hc
  · rw [List.length_append, List.length_singleton] at hle
    obtain ⟨h1, h2, h3⟩ := h.fresh b (by omega)
    rw [hmine, h1, if_neg (by omega)]
    exact ⟨rfl, h2, h3⟩
  · rcases h.asked y hy with hout | hreq
    · exact Or.inl hout
    · exact Or.inr (List.mem_append_left _ hreq)

omit [DecidableEq N] in
/-- **STEP**: another module asks for a node. -/
theorem Inv.others {tr : List Out} {s : Core N} {items : List (Item N)} (h : Inv tr s items)
    (node : N) : Inv tr { s with outstanding := s.outstanding ++ [node] } items :=
  ⟨h.sound, h.fresh, h.nodup, fun y hy => (h.asked y hy).imp_left (List.mem_append_left _)⟩

/-- **STEP**: every event keeps the invariant. -/
theorem Inv.step {tr out : List Out} {s s' : State N} {e : Event N}
    (h : Inv tr s.core s.acts.flatten) (hs : step s e = some (s', out)) :
    Inv (tr ++ out) s'.core s'.acts.flatten := by
  cases e with
  | init offline =>
      cases hs
      rw [List.append_nil]
      exact h
  | preinvestigate candidates maxCandidates =>
      cases hs
      rw [List.append_nil]
      unfold onPreinv
      split
      · exact h
      · have harrive : Inv tr _ (s.acts.flatten ++ .loop s.core.batches.length :: []) :=
          h.arrive candidates maxCandidates
        have hloop := harrive.loop
        rw [List.append_nil] at hloop
        simpa only [List.flatten_append, List.flatten_singleton] using hloop
  | requestConnect node =>
      cases hs
      rw [List.append_nil]
      exact h.others node
  | responseConnect node success =>
      simp only [ChannelCandidatePreinvestigator.step] at hs
      split at hs
      · cases hs
        have hall := (h.detach node success).execAll
        simpa only [onConnect, List.flatten_append, List.flatten_singleton] using hall
      · cases hs
  | act n =>
      simp only [ChannelCandidatePreinvestigator.step, onAct] at hs
      split at hs
      · rename_i it rest hact
        cases hs
        obtain ⟨hlt, hget⟩ := List.getElem?_eq_some_iff.mp hact
        have hsplit : s.acts = s.acts.take n ++ (it :: rest) :: s.acts.drop (n + 1) := by
          rw [← hget, ← List.drop_eq_getElem_cons hlt, List.take_append_drop]
        rw [hsplit] at h
        simp only [List.flatten_append, List.flatten_cons, List.cons_append] at h
        have hexec := h.exec
        rw [List.set_eq_take_append_cons_drop, if_pos hlt]
        simpa only [List.flatten_append, List.flatten_cons, List.append_assoc] using hexec
      · cases hs

/-- **RUN**: so does every run. -/
theorem run_inv {es : List (Event N)} {s : State N} {tr : List Out} (hrun : run es = some (s, tr)) :
    Inv tr s.core s.acts.flatten := by
  refine Machine.run_invariant (P := fun _ _ => True)
    (I := fun _ tr s => Inv tr s.core s.acts.flatten) ?_ (fun _ _ _ _ _ _ h _ hs => h.step hs)
    (Machine.along_true _ _) hrun
  exact ⟨fun b c hc => (by cases hc), fun b _ => ⟨rfl, fun y hy => (by cases hy), rfl⟩,
    fun y => List.nodup_nil, fun y hy => absurd rfl hy⟩

/-! ## Who decides an entry -/

/-- Answers are handled at once: none is left to do. -/
def Item.isAnswer : Item N → Bool
  | .answer _ _ => true
  | _           => false

theorem loop_frame (s : Core N) (b : Nat) : (s.loop b).1.batches = s.batches
    ∧ ∀ it ∈ (s.loop b).2, it.isAnswer = false := by
  unfold Core.loop
  split
  · exact ⟨rfl, fun it hit => (by cases hit)⟩
  · split
    · exact ⟨rfl, fun it hit => (by cases hit)⟩
    · split
      · exact ⟨rfl, fun it hit => (by cases hit)⟩
      · refine ⟨rfl, fun it hit => ?_⟩
        split at hit
        · rw [List.mem_singleton.mp hit]
          rfl
        · cases hit

theorem exec_not_answer (s : Core N) (it : Item N) : ∀ it' ∈ (s.exec it).2.1, it'.isAnswer = false := by
  intro it' hit'
  cases it with
  | request node => cases hit'
  | log b i =>
      rw [List.mem_singleton.mp hit']
      rfl
  | propose b i =>
      rw [List.mem_singleton.mp hit']
      rfl
  | loop b => exact (loop_frame s b).2 it' hit'
  | answer b success =>
      cases success with
      | true =>
          rw [List.mem_singleton.mp hit']
          rfl
      | false => exact (loop_frame (s.pop b false) b).2 it' hit'

theorem execAll_not_answer (items : List (Item N)) :
    ∀ (s : Core N), ∀ it' ∈ (s.execAll items).2.1, it'.isAnswer = false := by
  induction items with
  | nil =>
      intro s it' hit'
      cases hit'
  | cons it items ih =>
      intro s it' hit'
      rcases List.mem_append.mp hit' with hfirst | hrest
      · exact exec_not_answer s it it' hfirst
      · exact ih _ it' hrest

/-- **RUN**: no answer is ever put off. -/
theorem run_no_answers {es : List (Event N)} {s : State N} {tr : List Out}
    (hrun : run es = some (s, tr)) : ∀ it ∈ s.acts.flatten, it.isAnswer = false := by
  refine Machine.run_invariant (P := fun _ _ => True)
    (I := fun _ _ s => ∀ it ∈ s.acts.flatten, it.isAnswer = false) (fun it hit => (by cases hit)) ?_
    (Machine.along_true _ _) hrun
  intro es tr s e s' out h _ hs
  cases e with
  | init offline =>
      cases hs
      exact h
  | preinvestigate candidates maxCandidates =>
      cases hs
      unfold onPreinv
      split
      · exact h
      · intro it hit
        rw [List.flatten_append, List.flatten_singleton] at hit
        rcases List.mem_append.mp hit with hold | hnew
        · exact h it hold
        · exact (loop_frame _ _).2 it hnew
  | requestConnect node =>
      cases hs
      exact h
  | responseConnect node success =>
      simp only [ChannelCandidatePreinvestigator.step] at hs
      split at hs
      · cases hs
        intro it hit
        simp only [List.flatten_append, List.flatten_singleton] at hit
        rcases List.mem_append.mp hit with hold | hnew
        · exact h it hold
        · exact execAll_not_answer _ _ it hnew
      · cases hs
  | act n =>
      simp only [ChannelCandidatePreinvestigator.step, onAct] at hs
      split at hs
      · rename_i it rest hact
        cases hs
        intro it' hit'
        obtain ⟨act, hmem, hin⟩ := List.mem_flatten.mp hit'
        rcases List.mem_or_eq_of_mem_set hmem with hold | rfl
        · exact h it' (List.mem_flatten.mpr ⟨act, hold, hin⟩)
        · rcases List.mem_append.mp hin with hnew | hrest
          · exact exec_not_answer _ it it' hnew
          · refine h it' (List.mem_flatten.mpr ⟨it :: rest, ?_, List.mem_cons_of_mem _ hrest⟩)
            exact List.mem_of_getElem? hact
      · cases hs

/-- Answering one case leaves the queues of the others. -/
theorem next_answer_ne (s : Core N) {b b' : Nat} (hne : b' ≠ b) (success : Bool) :
    (s.exec (.answer b success)).1.next b' = s.next b' := by
  have hpop : (s.pop b success).next b' = s.next b' := by
    unfold Core.next Core.pop
    rw [List.getElem?_modify_ne _ _ (Ne.symm hne)]
  cases success with
  | true => exact hpop
  | false =>
      rw [← hpop]
      unfold Core.next
      rw [show (s.exec (.answer b false)).1 = ((s.pop b false).loop b).1 from rfl,
        (loop_frame (s.pop b false) b).1]

/-- A response decides the front entries of those who waited, nothing else. -/
theorem execAll_answers (success : Bool) {ids : List Nat} (hn : ids.Nodup) : ∀ (s : Core N),
    (s.execAll (ids.map (.answer · success))).2.2
      = ids.map (fun b => .decided b (s.next b) success) := by
  induction ids with
  | nil =>
      intro s
      rfl
  | cons b ids ih =>
      intro s
      obtain ⟨hnot, hn⟩ := List.nodup_cons.mp hn
      have hout : (s.exec (.answer b success)).2.2 = [.decided b (s.next b) success] := by
        cases success with
        | true => rfl
        | false => rfl
      have hnext : ids.map (fun b' => Out.decided b' ((s.exec (.answer b success)).1.next b') success)
          = ids.map (fun b' => .decided b' (s.next b') success) := by
        refine List.map_congr_left (fun b' hb' => ?_)
        have hne : b' ≠ b := by
          rintro rfl
          exact hnot hb'
        rw [next_answer_ne s hne success]
      show (s.exec (.answer b success)).2.2 ++ (Core.execAll _ _).2.2 = _
      rw [hout, ih hn, hnext]
      rfl

/-- **STEP**: an entry is decided only by a response for its node, while the
    batch waits there with the entry in front. -/
theorem decided_by_response {es : List (Event N)} {s s' : State N} {tr out : List Out} {e : Event N}
    (hrun : run es = some (s, tr)) (hs : step s e = some (s', out)) {b i : Nat} {success : Bool}
    (hd : .decided b i success ∈ out) :
    ∃ node c curr, e = .responseConnect node success ∧ b ∈ s.core.cases node
      ∧ s.core.batches[b]? = some c ∧ c.next = i ∧ c.front = some curr ∧ curr.proposal = node := by
  have hinv := run_inv hrun
  cases e with
  | init offline =>
      cases hs
      cases hd
  | preinvestigate candidates maxCandidates =>
      cases hs
      cases hd
  | requestConnect node =>
      cases hs
      cases hd
  | act n =>
      simp only [ChannelCandidatePreinvestigator.step, onAct] at hs
      split at hs
      · rename_i it rest hact
        cases hs
        have hno : it.isAnswer = false := by
          refine run_no_answers hrun it (List.mem_flatten.mpr ⟨it :: rest, ?_, List.mem_cons_self⟩)
          exact List.mem_of_getElem? hact
        cases it with
        | answer b' success' => cases hno
        | request node => cases hd
        | log b' i' => cases hd
        | loop b' => cases hd
        | propose b' i' => cases List.mem_singleton.mp hd
      · cases hs
  | responseConnect node success' =>
      simp only [ChannelCandidatePreinvestigator.step] at hs
      split at hs
      · cases hs
        have hdec : Out.decided b i success ∈ (s.core.cases node).map
            (fun b => .decided b ((s.core.detach node).next b) success') := by
          rw [← execAll_answers success' (hinv.nodup node)]
          exact hd
        obtain ⟨b', hb', heq⟩ := List.mem_map.mp hdec
        cases heq
        -- who waits on a node waits there for its front entry
        obtain ⟨c, hc⟩ := (s.core.batch_or_fresh b).resolve_right
          (fun hle => (hinv.fresh b hle).2.1 node hb')
        have hplace := (hinv.sound b c hc).place
        have hnext : (s.core.detach node).next b = c.next := Core.next_eq hc
        generalize mine b s.acts.flatten = items at hplace
        cases hplace with
        | waiting curr hf hr hat =>
            exact ⟨node, c, curr, rfl, hb', hc, hnext.symm, hf, ((hat node).mp hb').symm⟩
        | ended hat => exact absurd hb' (hat node)
        | answering _ _ _ _ hat => exact absurd hb' (hat node)
        | logging _ _ hat => exact absurd hb' (hat node)
        | proposing _ _ hat => exact absurd hb' (hat node)
        | looping hat => exact absurd hb' (hat node)
      · cases hs

/-! ## All batches -/

/-- What a batch has done so far: proposals in batch order, no more than it may
    make, each after a success; every entry decided at most once. -/
structure Served (b : Nat) (c : Case N) (tr : List Out) : Prop where
  sorted  : (proposals (shown b tr)).Pairwise (· < ·)
  most    : (proposals (shown b tr)).length ≤ c.maxCandidates
  success : ∀ i ∈ proposals (shown b tr), i < c.candidates.length ∧ .decided b i true ∈ tr
  once    : ∀ i, (shown b tr).countP (Out.decides i) ≤ 1

/-- A batch with entries left and proposals to make waits on a node or has
    something to do, and a node it waits on is asked for or will be. -/
structure NotLost (s : State N) (b : Nat) (c : Case N) : Prop where
  somewhere : c.front ≠ none → c.remaining ≠ 0 →
    (∃ node, b ∈ s.core.cases node) ∨ mine b s.acts.flatten ≠ []
  asked     : ∀ node, b ∈ s.core.cases node →
    node ∈ s.core.outstanding ∨ .request node ∈ s.acts.flatten

/-- **HEADLINE**: whatever the interleaving, every batch is served and none is
    lost; and an entry is decided by a response for its node, at a moment when
    its batch waits there for it. -/
theorem served_and_not_lost {es : List (Event N)} {s : State N} {tr : List Out}
    (hrun : run es = some (s, tr)) :
    (∀ b c, s.core.batches[b]? = some c → Served b c tr ∧ NotLost s b c)
      ∧ ∀ e s' out, step s e = some (s', out) → ∀ b i success, .decided b i success ∈ out →
        ∃ node c curr, e = .responseConnect node success ∧ b ∈ s.core.cases node
          ∧ s.core.batches[b]? = some c ∧ c.next = i ∧ c.front = some curr
          ∧ curr.proposal = node := by
  have hinv := run_inv hrun
  refine ⟨fun b c hc => ⟨?_, ?_⟩, fun e s' out hs b i success hd => decided_by_response hrun hs hd⟩
  · have hs := hinv.sound b c hc
    have hb := hs.budget
    refine ⟨hs.sorted, by omega, fun i hi => ?_, fun i => ?_⟩
    · obtain ⟨hlt, hd⟩ := hs.proposed i hi
      exact ⟨Nat.lt_of_lt_of_le hlt hs.next_le, List.mem_of_mem_filter hd⟩
    · rw [hs.decided]
      split
      · exact Nat.le_refl _
      · exact Nat.zero_le _
  · refine ⟨fun hf hr => ?_, fun node hb => ?_⟩
    · have hplace := (hinv.sound b c hc).place
      generalize mine b s.acts.flatten = items at hplace
      cases hplace with
      | ended _ hdone => exact absurd hdone (not_or.mpr ⟨hf, hr⟩)
      | waiting e _ _ hat => exact Or.inl ⟨e.proposal, (hat _).mpr rfl⟩
      | _ => exact Or.inr (List.cons_ne_nil _ _)
    · refine hinv.asked node (fun hnil => ?_)
      rw [hnil] at hb
      cases hb

end Steps

/-- Two batches of two candidates each, which share the first. -/
def sampleRun : List (Event Nat) :=
  [.preinvestigate [⟨1, 10⟩, ⟨2, 10⟩] 1, .act 0, .preinvestigate [⟨1, 20⟩, ⟨3, 20⟩] 1,
    .responseConnect 1 false, .act 2]

theorem served_and_not_lost_sampleRun :
    ∃ s tr, run (sampleRun ++ [.responseConnect 2 true, .act 3, .act 3, .act 2]) = some (s, tr)
      ∧ tr = [.decided 0 0 false, .decided 1 0 false, .decided 0 1 true, .proposed 0 1]
      ∧ ∃ c c', s.core.batches[0]? = some c ∧ s.core.batches[1]? = some c'
        ∧ Served 0 c tr ∧ NotLost s 1 c' := by
  have hrun : (run (sampleRun ++ [.responseConnect 2 true, .act 3, .act 3, .act 2])).map
      (fun r => (r.1.core.batches.length, r.2))
      = some (2, [.decided 0 0 false, .decided 1 0 false, .decided 0 1 true, .proposed 0 1]) := by
    decide
  obtain ⟨⟨s, tr⟩, hrun, heq⟩ := Option.map_eq_some_iff.mp hrun
  obtain ⟨hlen, htr⟩ := Prod.mk.inj heq
  change s.core.batches.length = 2 at hlen
  have hserved := (served_and_not_lost hrun).1
  have hlt : ∀ b, b < 2 → ∃ c, s.core.batches[b]? = some c := by
    intro b hb
    exact (s.core.batch_or_fresh b).resolve_right (fun hle => by omega)
  obtain ⟨c, hc⟩ := hlt 0 (by omega)
  obtain ⟨c', hc'⟩ := hlt 1 (by omega)
  exact ⟨s, tr, hrun, htr, c, c', hc, hc', (hserved 0 c hc).1, (hserved 1 c' hc').2⟩

/-- Both failed; the second waits on node 3 while only node 2 is asked for. -/
theorem waiting_unasked :
    (run sampleRun).map (fun r => (r.1.core.cases 3, r.1.core.outstanding)) = some ([1], [2]) := by
  decide

end ChannelCandidatePreinvestigator
