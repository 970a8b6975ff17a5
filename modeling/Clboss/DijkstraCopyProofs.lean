import Clboss.DijkstraPathsProofs

/-! # Graph::Dijkstra — a copy that points into the original

    The copy constructor makes new tree nodes, and hangs them as the original's hang.  The
    queue and the closed set it copies as they are: pointers to the nodes of the ORIGINAL.

    As long as the copy only pops its queue nothing comes of it, since the key of a node is
    the same in both.  But once one of its calls relaxes a neighbour, the new or improved
    node of the copy is made a child of a node of the original: the copy's tree lacks it, and
    the original's has one too many.

    `Shared` is what holds before: the world with both objects against two runs of the
    original, one with its own calls and one with the copy's. -/

namespace DijkstraTree

/-- The two objects. -/
inductive Owner
  | original
  | copy
deriving DecidableEq

/-- Calls, other than the one that ends it all. -/
inductive Call (N C : Type)
  | neighbor (n : N) (c : C)
  | endNeighbors

/-- An object and its copy, in one memory. -/
structure World (N C : Type) where
  mem      : Memory Owner N C
  original : Dijkstra Owner N C
  copy     : Dijkstra Owner N C

variable {N C : Type} [LinearOrder N] [LinearOrder C]

section Code

variable (R : Costs C)

/-- A call to one object. -/
def call {O : Type} [DecidableEq O] (me : O) : Call N C → State O N C → State O N C
  | .neighbor n c, s => neighbor R me n c s
  | .endNeighbors, s => endNeighbors s

/-- One call after the other. -/
def calls {O : Type} [DecidableEq O] (me : O) (cs : List (Call N C)) (s : State O N C) :
    State O N C :=
  cs.foldl (fun s c => call R me c s) s

/-- The body of `copy_treenodes`. -/
def copyTreenode (s : State Owner N C) (n : N) : State Owner N C :=
  let s := getTreenode R Owner.copy n s
  let s :=
    match (s.mem ⟨Owner.original, n⟩).parent with
    | some parent =>
        let s := getTreenode R Owner.copy parent.key s
        { s with mem := reparent s.mem ⟨Owner.copy, n⟩ ⟨Owner.copy, parent.key⟩ }
    | none => s
  { s with mem := setCost s.mem ⟨Owner.copy, n⟩ (s.mem ⟨Owner.original, n⟩).cost }

/-- `copy_treenodes`, over the map of the original in the order of its keys. -/
def copyTreenodes (src : Finset N) (s : State Owner N C) : State Owner N C :=
  (src.sort (· ≤ ·)).foldl (copyTreenode R) s

/-- The copy constructor: `q` and `closed` are copied as they are. -/
def copyConstruct (o : State Owner N C) : World N C :=
  let s := copyTreenodes R o.obj.treenodes ⟨o.mem, ⟨o.obj.q, ∅, o.obj.closed⟩⟩
  ⟨s.mem, o.obj, s.obj⟩

namespace World

/-- An object with the memory. -/
def state (w : World N C) : Owner → State Owner N C
  | .original => ⟨w.mem, w.original⟩
  | .copy     => ⟨w.mem, w.copy⟩

/-- A call to either object. -/
def call (w : World N C) (o : Owner) (c : Call N C) : World N C :=
  let s := DijkstraTree.call R o c (w.state o)
  match o with
  | .original => ⟨s.mem, s.obj, w.copy⟩
  | .copy     => ⟨s.mem, w.original, s.obj⟩

/-- Calls to both, in any order. -/
def run (w : World N C) (cs : List (Owner × Call N C)) : World N C :=
  cs.foldl (fun w x => w.call R x.1 x.2) w

end World

/-- The calls made to one of them. -/
def callsTo (o : Owner) (cs : List (Owner × Call N C)) : List (Call N C) :=
  (cs.filter (fun x => x.1 = o)).map Prod.snd

end Code

/-- What a client can tell of an object: the current node, and the tree by the keys of its nodes. -/
structure Same (o o' : Owner) (s s' : State Owner N C) : Prop where
  current  : current s = current s'
  nodes    : s.obj.treenodes = s'.obj.treenodes
  cost     : ∀ n ∈ s.obj.treenodes, s.costOf o n = s'.costOf o' n
  parent   : ∀ n ∈ s.obj.treenodes,
    (s.mem ⟨o, n⟩).parent.map Ptr.key = (s'.mem ⟨o', n⟩).parent.map Ptr.key
  children : ∀ n ∈ s.obj.treenodes,
    ((s.mem ⟨o, n⟩).children.map Ptr.key).Perm ((s'.mem ⟨o', n⟩).children.map Ptr.key)

/-- After some calls to both, each is where the original would be after the calls to that one:
    the original from `o`, the copy from `p`. -/
structure After (R : Costs C) (w : World N C) (o p : State Owner N C)
    (cs : List (Owner × Call N C)) : Prop where
  copy     : Same .copy .original ((w.run R cs).state .copy)
    (calls R .original (callsTo .copy cs) p)
  original : Same .original .original ((w.run R cs).state .original)
    (calls R .original (callsTo .original cs) o)

/-- The copy is taken, and both go on from the same state, each by its own calls. -/
def Independent (R : Costs C) (s : State Owner N C) (cs : List (Owner × Call N C)) : Prop :=
  After R (copyConstruct R s) s s cs

/-- The copy may be told of no neighbour that it would relax. -/
def Harmless (R : Costs C) (w : World N C) : Owner → Call N C → Prop
  | .copy, .neighbor n c => ¬ Relaxes R .copy n c (w.state .copy)
  | _, _                 => True

/-- All the calls of a run are harmless. -/
def Quiet (R : Costs C) : World N C → List (Owner × Call N C) → Prop
  | _, []           => True
  | w, (o, c) :: cs => Harmless R w o c ∧ Quiet R (w.call R o c) cs

/-! ## One object, whatever is fed to it -/

/-- An object that links and queues its own nodes only. -/
structure Owned {O : Type} [DecidableEq O] (me : O) (s : State O N C) : Prop where
  linked  : Linked s.mem
  links   : ∀ x p, (s.mem x).parent = some p →
    x.owner = me ∧ x.key ∈ s.obj.treenodes ∧ p.owner = me ∧ p.key ∈ s.obj.treenodes
  ordered : Ordered s.obj.q
  entries : ∀ e ∈ s.obj.q, e.1.owner = me ∧ e.1.key ∈ s.obj.treenodes

section One

variable {O : Type} [DecidableEq O] {R : Costs C} {me : O} {s : State O N C}

theorem owned_construct (root : N) (r₀ : C) :
    Owned me (construct R me root r₀ (blankMemory R)) := by
  have hnew := construct_spec R me root r₀
  constructor
  · exact hnew.agree
  · intro x p hp
    rw [(hnew.unlinked x).parent] at hp
    exact nomatch hp
  · rw [hnew.q]
    exact BinaryHeap.isHeap_singleton _
  · rw [hnew.q, hnew.treenodes]
    intro e he
    rw [List.mem_singleton.mp he]
    exact ⟨rfl, Finset.mem_singleton_self root⟩

omit [LinearOrder N] in
theorem Owned.unlinked (h : Owned me s) {n : N} (hn : n ∉ s.obj.treenodes) :
    Unlinked s.mem ⟨me, n⟩ := by
  refine h.linked.unlinked ?_ ?_
  · cases hp : (s.mem ⟨me, n⟩).parent with
    | none   => rfl
    | some p => exact absurd (h.links _ p hp).2.1 hn
  · exact fun x hx => hn (h.links x _ hx).2.2.2

/-- STEP: a relaxed node. -/
theorem Owned.relaxed (h : Owned me s) {s' : State O N C} {n : N} {u : Ptr O N} {d alt : C}
    (htop : BinaryHeap.top s.obj.q = some (u, d)) (hs' : Relaxed me n u alt s s') :
    Owned me s' := by
  obtain ⟨howner, hmem⟩ := h.entries _ (mem_top htop)
  have hgrow : ∀ v ∈ s.obj.treenodes, v ∈ s'.obj.treenodes := by
    rw [hs'.treenodes]
    exact fun v hv => Finset.mem_insert_of_mem hv
  have hn : n ∈ s'.obj.treenodes := by
    rw [hs'.treenodes]
    exact Finset.mem_insert_self n _
  constructor
  · exact hs'.linked
  · intro x p hp
    rw [hs'.parent] at hp
    by_cases hx : x = ⟨me, n⟩
    · rw [if_pos hx] at hp
      cases hp
      rw [hx]
      exact ⟨rfl, hn, howner, hgrow _ hmem⟩
    · rw [if_neg hx] at hp
      obtain ⟨hxo, hxk, hpo, hpk⟩ := h.links x p hp
      exact ⟨hxo, hgrow _ hxk, hpo, hgrow _ hpk⟩
  · rw [hs'.q]
    exact h.ordered.push _
  · intro e he
    rw [hs'.q, mem_push] at he
    rcases he with rfl | he
    · exact ⟨rfl, hn⟩
    · obtain ⟨heo, hek⟩ := h.entries e he
      exact ⟨heo, hgrow _ hek⟩

/-- STEP: any call. -/
theorem Owned.call (h : Owned me s) (c : Call N C) : Owned me (call R me c s) := by
  cases c with
  | neighbor n c =>
      show Owned me (DijkstraTree.neighbor R me n c s)
      by_cases hrelaxes : Relaxes R me n c s
      · obtain ⟨⟨u, d⟩, htop, -⟩ := id hrelaxes
        exact h.relaxed htop
          (neighbor_of_relaxes htop hrelaxes h.linked (fun hn => h.unlinked hn))
      · rw [neighbor_of_not_relaxes hrelaxes]
        exact h
  | endNeighbors =>
      show Owned me (DijkstraTree.endNeighbors s)
      cases htop : BinaryHeap.top s.obj.q with
      | none   =>
          unfold DijkstraTree.endNeighbors
          rw [htop]
          exact h
      | some e =>
          have hs' := endNeighbors_spec htop h.ordered
          refine ⟨hs'.mem ▸ h.linked, ?_, hs'.filtered.ordered, ?_⟩
          · rw [hs'.mem, hs'.treenodes]
            exact h.links
          · intro x hx
            rw [hs'.treenodes]
            exact h.entries x
              ((h.ordered.mem_pop htop).mpr (Or.inr (hs'.filtered.subset x hx)))

/-- RUN: any calls. -/
theorem Owned.calls (h : Owned me s) (cs : List (Call N C)) : Owned me (calls R me cs s) := by
  induction cs generalizing s with
  | nil          => exact h
  | cons c cs ih => exact ih (h.call c)

end One

/-! ## The copy constructor -/

variable {R : Costs C}

/-- The node of the same key in the copy. -/
def Ptr.toCopy (p : Ptr Owner N) : Ptr Owner N := ⟨.copy, p.key⟩

omit [LinearOrder N] in
theorem original_ne_copy (m n : N) : (⟨.original, m⟩ : Ptr Owner N) ≠ ⟨.copy, n⟩ := nofun

/-- What is done once the nodes of some keys are copied. -/
structure Copying (o : State Owner N C) (done : List N) (s : State Owner N C) : Prop where
  q              : s.obj.q = o.obj.q
  closed         : s.obj.closed = o.obj.closed
  nodes          : ∀ n ∈ s.obj.treenodes, n ∈ o.obj.treenodes
  done_nodes     : ∀ n ∈ done, n ∈ s.obj.treenodes
  parents        : ∀ n ∈ done, ∀ p, (o.mem ⟨.original, n⟩).parent = some p →
    p.key ∈ s.obj.treenodes
  originalCost   : ∀ n, s.costOf .original n = o.costOf .original n
  originalParent : ∀ n, (s.mem ⟨.original, n⟩).parent = (o.mem ⟨.original, n⟩).parent
  cost           : ∀ n ∈ done, s.costOf .copy n = o.costOf .original n
  parent         : ∀ n, (s.mem ⟨.copy, n⟩).parent
    = if n ∈ done then (o.mem ⟨.original, n⟩).parent.map Ptr.toCopy else none
  linked         : Linked s.mem

theorem copying_nil {o : State Owner N C} (h : Owned .original o) :
    Copying o [] ⟨o.mem, ⟨o.obj.q, ∅, o.obj.closed⟩⟩ := by
  refine ⟨rfl, rfl, fun n hn => absurd hn (Finset.notMem_empty n), nofun, nofun,
    fun _ => rfl, fun _ => rfl, nofun, ?_, h.linked⟩
  intro n
  rw [if_neg List.not_mem_nil]
  cases hp : (o.mem ⟨.copy, n⟩).parent with
  | none   => rfl
  | some p => exact nomatch (h.links _ p hp).1

/-- A node that the copy has not made yet is in no tree. -/
theorem Copying.unlinked {o s : State Owner N C} {done : List N} (ho : Owned .original o)
    (h : Copying o done s) {n : N} (hn : n ∉ s.obj.treenodes) : Unlinked s.mem ⟨.copy, n⟩ := by
  refine h.linked.unlinked ?_ ?_
  · rw [h.parent, if_neg (fun hin => hn (h.done_nodes n hin))]
  · rintro ⟨owner, key⟩ hx
    cases owner with
    | original =>
        rw [h.originalParent] at hx
        exact nomatch (ho.links _ _ hx).2.2.1
    | copy =>
        rw [h.parent] at hx
        split at hx
        · rename_i hin
          obtain ⟨p, hp, heq⟩ := Option.map_eq_some_iff.mp hx
          cases heq
          exact hn (h.parents key hin p hp)
        · exact nomatch hx

omit [LinearOrder C] in
/-- Making a node changes nothing that is done. -/
theorem Copying.got {o s s' : State Owner N C} {done : List N} (h : Copying o done s) {n : N}
    (hn : n ∈ o.obj.treenodes) (hs' : Got .copy n s s') : Copying o done s' := by
  have hgrow : ∀ m ∈ s.obj.treenodes, m ∈ s'.obj.treenodes := by
    rw [hs'.treenodes]
    exact fun m hm => Finset.mem_insert_of_mem hm
  refine ⟨hs'.q.trans h.q, hs'.closed.trans h.closed, ?_, fun m hm => hgrow m (h.done_nodes m hm),
    fun m hm p hp => hgrow _ (h.parents m hm p hp), ?_, ?_, ?_, ?_, hs'.agree h.linked⟩
  · intro m hm
    rw [hs'.treenodes] at hm
    rcases Finset.mem_insert.mp hm with rfl | hm
    · exact hn
    · exact h.nodes m hm
  · intro m
    exact (hs'.cost _ (Or.inl (original_ne_copy m n))).trans (h.originalCost m)
  · intro m
    rw [hs'.parent]
    exact h.originalParent m
  · intro m hm
    refine (hs'.cost _ ?_).trans (h.cost m hm)
    by_cases hmn : m = n
    · exact Or.inr (hmn ▸ h.done_nodes m hm)
    · exact Or.inl (fun heq => hmn (congrArg Ptr.key heq))
  · intro m
    rw [hs'.parent]
    exact h.parent m

omit [LinearOrder C] in
/-- A node of the copy gets its parent and its cost. -/
theorem Copying.snoc {o s : State Owner N C} {done : List N} (h : Copying o done s) {n : N}
    (hn : n ∈ s.obj.treenodes) {mem : Memory Owner N C}
    (hparents : ∀ p, (o.mem ⟨.original, n⟩).parent = some p → p.key ∈ s.obj.treenodes)
    (hlinked : Linked mem)
    (hcost : ∀ x, (mem x).cost = if x = ⟨.copy, n⟩ then o.costOf .original n else (s.mem x).cost)
    (hparent : ∀ x, (mem x).parent = if x = ⟨.copy, n⟩
      then (o.mem ⟨.original, n⟩).parent.map Ptr.toCopy else (s.mem x).parent) :
    Copying o (done ++ [n]) { s with mem := mem } := by
  have hcopy : ∀ m, m ≠ n → (⟨.copy, m⟩ : Ptr Owner N) ≠ ⟨.copy, n⟩ := fun m hm heq =>
    hm (congrArg Ptr.key heq)
  have hdone : ∀ m, m ∈ done ++ [n] ↔ m ∈ done ∨ m = n := fun m =>
    List.mem_append.trans (or_congr_right List.mem_singleton)
  refine ⟨h.q, h.closed, h.nodes, ?_, ?_, ?_, ?_, ?_, ?_, hlinked⟩
  · intro m hm
    rcases (hdone m).mp hm with hm | rfl
    · exact h.done_nodes m hm
    · exact hn
  · intro m hm
    rcases (hdone m).mp hm with hm | rfl
    · exact h.parents m hm
    · exact hparents
  · intro m
    refine (hcost _).trans ?_
    rw [if_neg (original_ne_copy m n)]
    exact h.originalCost m
  · intro m
    show (mem _).parent = _
    rw [hparent, if_neg (original_ne_copy m n)]
    exact h.originalParent m
  · intro m hm
    refine (hcost _).trans ?_
    by_cases hmn : m = n
    · rw [hmn, if_pos rfl]
    · rw [if_neg (hcopy m hmn)]
      exact h.cost m (((hdone m).mp hm).resolve_right hmn)
  · intro m
    show (mem _).parent = _
    rw [hparent]
    by_cases hmn : m = n
    · rw [hmn, if_pos rfl, if_pos ((hdone n).mpr (Or.inr rfl))]
    · rw [if_neg (hcopy m hmn), h.parent]
      by_cases hm : m ∈ done
      · rw [if_pos hm, if_pos ((hdone m).mpr (Or.inl hm))]
      · rw [if_neg hm, if_neg (fun hin => hm (((hdone m).mp hin).resolve_right hmn))]

/-- STEP: the node of one more key is copied. -/
theorem Copying.copyTreenode {o s : State Owner N C} {done : List N} (ho : Owned .original o)
    (h : Copying o done s) {n : N} (hn : n ∈ o.obj.treenodes) :
    Copying o (done ++ [n]) (copyTreenode R s n) := by
  have hgot := getTreenode_spec (R := R) (n := n) (fun hout => h.unlinked ho hout)
  have h₁ := h.got hn hgot
  have hmem : n ∈ (getTreenode R .copy n s).obj.treenodes := by
    rw [hgot.treenodes]
    exact Finset.mem_insert_self n _
  have hsrc := h₁.originalParent n
  unfold DijkstraTree.copyTreenode
  cases hp : (o.mem ⟨.original, n⟩).parent with
  | none =>
      rw [hp] at hsrc
      simp only [hsrc]
      have hnone : ((getTreenode R .copy n s).mem ⟨.copy, n⟩).parent = none := by
        rw [h₁.parent, hp]
        split <;> rfl
      refine h₁.snoc hmem ?_ (h₁.linked.setCost _ _) ?_ ?_
      · rw [hp]
        exact nofun
      · intro x
        rw [setCost_cost, ← h₁.originalCost]
        rfl
      · intro x
        rw [setCost_parent, hp]
        by_cases hx : x = ⟨.copy, n⟩
        · rw [if_pos hx, hx, hnone]
          rfl
        · rw [if_neg hx]
  | some p =>
      rw [hp] at hsrc
      simp only [hsrc]
      have hkey : p.key ∈ o.obj.treenodes := (ho.links _ p hp).2.2.2
      have hgot₂ := getTreenode_spec (R := R) (n := p.key) (fun hout => h₁.unlinked ho hout)
      have h₂ := h₁.got hkey hgot₂
      refine h₂.snoc ?_ ?_ ((h₂.linked.reparent _ _).setCost _ _) ?_ ?_
      · rw [hgot₂.treenodes]
        exact Finset.mem_insert_of_mem hmem
      · intro q hq
        rw [hp] at hq
        cases hq
        rw [hgot₂.treenodes]
        exact Finset.mem_insert_self p.key _
      · intro x
        rw [setCost_cost, reparent_cost, reparent_cost, ← h₂.originalCost]
        rfl
      · intro x
        rw [setCost_parent, reparent_parent, hp]
        rfl

/-- What the copy constructor leaves: the tree, and pointers into the original's. -/
structure Copied (o : State Owner N C) (w : World N C) : Prop where
  original       : w.original = o.obj
  copy           : w.copy = o.obj
  originalCost   : ∀ n, (w.mem ⟨.original, n⟩).cost = o.costOf .original n
  originalParent : ∀ n, (w.mem ⟨.original, n⟩).parent = (o.mem ⟨.original, n⟩).parent
  cost           : ∀ n ∈ o.obj.treenodes, (w.mem ⟨.copy, n⟩).cost = o.costOf .original n
  parent         : ∀ n, (w.mem ⟨.copy, n⟩).parent
    = (o.mem ⟨.original, n⟩).parent.map Ptr.toCopy
  linked         : Linked w.mem

/-- RUN: the loop over the map. -/
theorem Copying.foldl {o s : State Owner N C} {done : List N} (ho : Owned .original o)
    (h : Copying o done s) (ns : List N) (hns : ∀ n ∈ ns, n ∈ o.obj.treenodes) :
    Copying o (done ++ ns) (ns.foldl (DijkstraTree.copyTreenode R) s) := by
  induction ns generalizing done s with
  | nil          => exact (List.append_nil done).symm ▸ h
  | cons n ns ih =>
      have hstep := h.copyTreenode (R := R) ho (hns n List.mem_cons_self)
      have hrun := ih hstep (fun m hm => hns m (List.mem_cons_of_mem _ hm))
      rwa [List.append_assoc] at hrun

/-- **SPEC** of the copy constructor. -/
theorem copyConstruct_spec {o : State Owner N C} (ho : Owned .original o) :
    Copied o (copyConstruct R o) := by
  have hsort : ∀ n, n ∈ o.obj.treenodes.sort (· ≤ ·) ↔ n ∈ o.obj.treenodes := fun n =>
    Finset.mem_sort (· ≤ ·)
  have h := (copying_nil ho).foldl (R := R) ho (o.obj.treenodes.sort (· ≤ ·))
    (fun n hn => (hsort n).mp hn)
  rw [List.nil_append] at h
  have hnodes : (copyConstruct R o).copy.treenodes = o.obj.treenodes := by
    ext n
    exact ⟨h.nodes n, fun hn => h.done_nodes n ((hsort n).mpr hn)⟩
  refine ⟨rfl, ?_, h.originalCost, h.originalParent, ?_, ?_, h.linked⟩
  · exact Dijkstra.ext h.q hnodes h.closed
  · exact fun n hn => h.cost n ((hsort n).mpr hn)
  · intro n
    refine (h.parent n).trans ?_
    by_cases hn : n ∈ o.obj.treenodes
    · rw [if_pos ((hsort n).mpr hn)]
    · rw [if_neg (fun hin => hn ((hsort n).mp hin)), (ho.unlinked hn).parent]
      rfl

/-! ## Children by key -/

section Children

variable {mem : Memory Owner N C} {o : Owner} {p : N}

omit [LinearOrder N] [LinearOrder C] in
theorem mem_childKeys (h : Linked mem) (ho : ∀ x, (mem x).parent = some ⟨o, p⟩ → x.owner = o)
    {k : N} : k ∈ (mem ⟨o, p⟩).children.map Ptr.key ↔ (mem ⟨o, k⟩).parent = some ⟨o, p⟩ := by
  rw [List.mem_map]
  constructor
  · rintro ⟨⟨owner, key⟩, hx, rfl⟩
    have hparent := (h.iff _ _).mp hx
    cases ho _ hparent
    exact hparent
  · exact fun hparent => ⟨⟨o, k⟩, (h.iff _ _).mpr hparent, rfl⟩

omit [LinearOrder N] [LinearOrder C] in
theorem nodup_childKeys (h : Linked mem)
    (ho : ∀ x, (mem x).parent = some ⟨o, p⟩ → x.owner = o) :
    ((mem ⟨o, p⟩).children.map Ptr.key).Nodup := by
  refine (List.nodup_map_iff_inj_on (h.nodup _)).mpr ?_
  rintro ⟨xo, xk⟩ hx ⟨yo, yk⟩ hy heq
  cases ho _ ((h.iff _ _).mp hx)
  cases ho _ ((h.iff _ _).mp hy)
  cases heq
  rfl

end Children

/-! ## Before the copy relaxes anything -/

/-- The world of both objects, beside the original with its own calls only, `o`, and with those
    of the copy only, `p`. -/
structure Shared (w : World N C) (o p : State Owner N C) : Prop where
  owned          : Owned .original o
  owned'         : Owned .original p
  original       : w.original = o.obj
  copy           : w.copy = p.obj
  originalCost   : ∀ n, (w.mem ⟨.original, n⟩).cost = o.costOf .original n
  originalParent : ∀ n, (w.mem ⟨.original, n⟩).parent = (o.mem ⟨.original, n⟩).parent
  cost           : ∀ n ∈ p.obj.treenodes, (w.mem ⟨.copy, n⟩).cost = p.costOf .original n
  parent         : ∀ n, (w.mem ⟨.copy, n⟩).parent
    = (p.mem ⟨.original, n⟩).parent.map Ptr.toCopy
  linked         : Linked w.mem
  /-- the original may have found better ways since -/
  falls          : ∀ n ∈ p.obj.treenodes,
    n ∈ o.obj.treenodes ∧ o.costOf .original n ≤ p.costOf .original n

theorem shared_copyConstruct {o : State Owner N C} (ho : Owned .original o) :
    Shared (copyConstruct R o) o o := by
  have h := copyConstruct_spec (R := R) ho
  exact ⟨ho, ho, h.original, h.copy, h.originalCost, h.originalParent, h.cost, h.parent, h.linked,
    fun n hn => ⟨hn, le_rfl⟩⟩

section Shared

variable {w : World N C} {o p : State Owner N C}

omit [LinearOrder N] in
/-- Links stay within an object. -/
theorem Shared.apart (h : Shared w o p) {x y : Ptr Owner N} (hxy : (w.mem x).parent = some y) :
    x.owner = y.owner := by
  obtain ⟨owner, key⟩ := x
  cases owner with
  | original =>
      rw [h.originalParent] at hxy
      exact (h.owned.links _ _ hxy).2.2.1.symm
  | copy =>
      rw [h.parent] at hxy
      obtain ⟨z, -, rfl⟩ := Option.map_eq_some_iff.mp hxy
      rfl

omit [LinearOrder N] in
theorem Shared.same_original (h : Shared w o p) :
    Same .original .original (w.state .original) o := by
  have hapart : ∀ n x, (w.mem x).parent = some ⟨.original, n⟩ → x.owner = .original :=
    fun n x hx => h.apart hx
  have howned : ∀ n x, (o.mem x).parent = some ⟨.original, n⟩ → x.owner = .original :=
    fun n x hx => (h.owned.links x _ hx).1
  constructor
  · show (BinaryHeap.top w.original.q).map _ = _
    rw [h.original]
    rfl
  · exact congrArg Dijkstra.treenodes h.original
  · exact fun n _ => h.originalCost n
  · intro n _
    show (w.mem _).parent.map _ = _
    rw [h.originalParent]
  · intro n _
    refine (List.perm_ext_iff_of_nodup (nodup_childKeys h.linked (hapart n))
      (nodup_childKeys h.owned.linked (howned n))).mpr fun k => ?_
    show k ∈ (w.mem _).children.map _ ↔ _
    rw [mem_childKeys h.linked (hapart n), mem_childKeys h.owned.linked (howned n),
      h.originalParent]

omit [LinearOrder N] in
theorem Shared.same_copy (h : Shared w o p) : Same .copy .original (w.state .copy) p := by
  have hapart : ∀ n x, (w.mem x).parent = some ⟨.copy, n⟩ → x.owner = .copy :=
    fun n x hx => h.apart hx
  have howned : ∀ n x, (p.mem x).parent = some ⟨.original, n⟩ → x.owner = .original :=
    fun n x hx => (h.owned'.links x _ hx).1
  have hnodes : (w.state .copy).obj.treenodes = p.obj.treenodes :=
    congrArg Dijkstra.treenodes h.copy
  constructor
  · show (BinaryHeap.top w.copy.q).map _ = _
    rw [h.copy]
    rfl
  · exact hnodes
  · exact fun n hn => h.cost n (hnodes ▸ hn)
  · intro n _
    show (w.mem _).parent.map _ = _
    rw [h.parent, Option.map_map]
    rfl
  · intro n _
    refine (List.perm_ext_iff_of_nodup (nodup_childKeys h.linked (hapart n))
      (nodup_childKeys h.owned'.linked (howned n))).mpr fun k => ?_
    show k ∈ (w.mem _).children.map _ ↔ _
    rw [mem_childKeys h.linked (hapart n), mem_childKeys h.owned'.linked (howned n), h.parent]
    constructor
    · intro hk
      obtain ⟨⟨owner, key⟩, hz, heq⟩ := Option.map_eq_some_iff.mp hk
      cases heq
      cases (h.owned'.links _ _ hz).2.2.1
      exact hz
    · intro hk
      rw [hk]
      rfl

/-! ## Calls to the original -/

omit [LinearOrder N] in
/-- Nothing of the copy's leads to a node that the original has not made. -/
theorem Shared.unlinked_original (h : Shared w o p) {n : N} (hn : n ∉ o.obj.treenodes) :
    Unlinked w.mem ⟨.original, n⟩ := by
  have hblank := h.owned.unlinked hn
  refine h.linked.unlinked ((h.originalParent n).trans hblank.parent) ?_
  rintro ⟨owner, key⟩ hx
  cases h.apart hx
  rw [h.originalParent] at hx
  exact hn (h.owned.links _ _ hx).2.2.2

/-- STEP: the original does what it would do alone. -/
theorem Shared.neighbor_original (h : Shared w o p) (n : N) (c : C) :
    Shared (w.call R .original (.neighbor n c)) (call R .original (.neighbor n c) o) p := by
  -- the top belongs to the original, and costs the same there
  have htops : ∀ e, BinaryHeap.top o.obj.q = some e →
      BinaryHeap.top w.original.q = some e ∧ (w.mem e.1).cost = (o.mem e.1).cost := by
    rintro ⟨⟨owner, key⟩, d⟩ he
    cases (h.owned.entries _ (mem_top he)).1
    exact ⟨h.original ▸ he, h.originalCost key⟩
  by_cases hrelaxes : Relaxes R .original n c o
  · obtain ⟨⟨u, d⟩, htop, hlt⟩ := id hrelaxes
    obtain ⟨htop', hcostu⟩ := htops _ htop
    have hrelaxes' : Relaxes R .original n c (w.state .original) := by
      refine ⟨(u, d), htop', fun hin => ?_⟩
      show R.add (w.mem u).cost c < (w.mem _).cost
      rw [hcostu, h.originalCost]
      exact hlt (h.original ▸ hin)
    have ho' := neighbor_of_relaxes htop hrelaxes h.owned.linked
      (fun hn => h.owned.unlinked hn)
    have hw' := neighbor_of_relaxes htop' hrelaxes' h.linked
      (fun hn => h.unlinked_original (h.original ▸ hn))
    have halt : R.add ((w.state .original).mem u).cost c = R.add (o.mem u).cost c :=
      congrArg (fun a => R.add a c) hcostu
    rw [halt] at hw'
    have hfallsO : ∀ m ∈ o.obj.treenodes,
        m ∈ (neighbor R .original n c o).obj.treenodes
          ∧ (neighbor R .original n c o).costOf .original m ≤ o.costOf .original m := by
      intro m hm
      rw [ho'.treenodes]
      refine ⟨Finset.mem_insert_of_mem hm, ?_⟩
      refine (ho'.cost _).le.trans ?_
      split
      · rename_i heq
        cases heq
        exact (hlt hm).le
      · exact le_rfl
    refine ⟨h.owned.call _, h.owned', ?_, h.copy, ?_, ?_, ?_, ?_, hw'.linked, ?_⟩
    · refine Dijkstra.ext ?_ ?_ ?_
      · rw [call, ho'.q, ← h.original]
        exact hw'.q
      · rw [call, ho'.treenodes, ← h.original]
        exact hw'.treenodes
      · rw [call, ho'.closed, ← h.original]
        exact hw'.closed
    · intro m
      refine (hw'.cost _).trans (Eq.trans ?_ (ho'.cost _).symm)
      exact if_congr Iff.rfl rfl (h.originalCost m)
    · intro m
      refine (hw'.parent _).trans (Eq.trans ?_ (ho'.parent _).symm)
      exact if_congr Iff.rfl rfl (h.originalParent m)
    · intro m hm
      refine (hw'.cost _).trans ?_
      rw [if_neg (original_ne_copy n m).symm]
      exact h.cost m hm
    · intro m
      refine (hw'.parent _).trans ?_
      rw [if_neg (original_ne_copy n m).symm]
      exact h.parent m
    · intro m hm
      obtain ⟨hin, hle⟩ := h.falls m hm
      obtain ⟨hin', hle'⟩ := hfallsO m hin
      exact ⟨hin', hle'.trans hle⟩
  · have hrelaxes' : ¬ Relaxes R .original n c (w.state .original) := by
      rintro ⟨e, htop, hlt⟩
      have htop' : BinaryHeap.top o.obj.q = some e := by
        rw [← h.original]
        exact htop
      refine hrelaxes ⟨e, htop', fun hin => ?_⟩
      have hlt' := hlt (by
        show n ∈ w.original.treenodes
        rw [h.original]
        exact hin)
      have hlt'' : R.add (w.mem e.1).cost c < (w.mem ⟨.original, n⟩).cost := hlt'
      rwa [(htops e htop').2, h.originalCost] at hlt''
    have ho' : call R .original (.neighbor n c) o = o := neighbor_of_not_relaxes hrelaxes
    have hw' : w.call R .original (.neighbor n c) = w := by
      unfold World.call
      rw [call, neighbor_of_not_relaxes hrelaxes']
      rfl
    rw [ho', hw']
    exact h

theorem Shared.end_original (h : Shared w o p) :
    Shared (w.call R .original .endNeighbors) (call R .original .endNeighbors o) p := by
  have howned : Owned .original (endNeighbors o) := h.owned.call (R := R) .endNeighbors
  have hmem : (w.call R .original .endNeighbors).mem = w.mem :=
    endNeighbors_mem (w.state .original)
  have hobj : (w.call R .original .endNeighbors).original = (endNeighbors o).obj :=
    endNeighbors_congr h.original
  have hmem' : (endNeighbors o).mem = o.mem := endNeighbors_mem o
  have hnodes : (endNeighbors o).obj.treenodes = o.obj.treenodes := by
    unfold endNeighbors
    split <;> rfl
  have hcost : ∀ n, (endNeighbors o).costOf .original n = o.costOf .original n := by
    intro n
    unfold State.costOf
    rw [hmem']
  refine ⟨howned, h.owned', hobj, h.copy, ?_, ?_, ?_, ?_, ?_, ?_⟩
  · intro n
    rw [hmem]
    exact (h.originalCost n).trans (hcost n).symm
  · intro n
    show ((w.call R .original .endNeighbors).mem _).parent = ((endNeighbors o).mem _).parent
    rw [hmem, hmem']
    exact h.originalParent n
  · rw [hmem]
    exact h.cost
  · rw [hmem]
    exact h.parent
  · rw [hmem]
    exact h.linked
  · intro n hn
    show n ∈ (endNeighbors o).obj.treenodes ∧ (endNeighbors o).costOf .original n ≤ _
    rw [hnodes, hcost]
    exact h.falls n hn

/-! ## Calls to the copy -/

omit [LinearOrder N] in
/-- The copy measures with the original's costs, which are no higher than its own. -/
theorem Shared.relaxes_copy (h : Shared w o p) {n : N} {c : C}
    (hrelaxes : Relaxes R .original n c p) : Relaxes R .copy n c (w.state .copy) := by
  obtain ⟨⟨⟨owner, key⟩, d⟩, htop, hlt⟩ := hrelaxes
  obtain ⟨howner, hkey⟩ := h.owned'.entries _ (mem_top htop)
  cases howner
  refine ⟨(⟨.original, key⟩, d), ?_, fun hin => ?_⟩
  · show BinaryHeap.top w.copy.q = _
    rw [h.copy]
    exact htop
  · have hin' : n ∈ p.obj.treenodes := h.copy ▸ hin
    show R.add (w.mem _).cost c < (w.mem _).cost
    rw [h.cost n hin', h.originalCost]
    exact (R.mono c (h.falls key hkey).2).trans_lt (hlt hin')

/-- STEP: a harmless call to the copy. -/
theorem Shared.call_copy (h : Shared w o p) {c : Call N C} (hc : Harmless R w .copy c) :
    Shared (w.call R .copy c) o (call R .original c p) := by
  cases c with
  | neighbor n c =>
      have hrelaxes : ¬ Relaxes R .original n c p := fun hp => hc (h.relaxes_copy hp)
      have hp' : call R .original (.neighbor n c) p = p := neighbor_of_not_relaxes hrelaxes
      have hw' : w.call R .copy (.neighbor n c) = w := by
        unfold World.call
        rw [call, neighbor_of_not_relaxes hc]
        rfl
      rw [hp', hw']
      exact h
  | endNeighbors =>
      have howned : Owned .original (endNeighbors p) := h.owned'.call (R := R) .endNeighbors
      have hmem : (w.call R .copy .endNeighbors).mem = w.mem := endNeighbors_mem (w.state .copy)
      have hobj : (w.call R .copy .endNeighbors).copy = (endNeighbors p).obj :=
        endNeighbors_congr h.copy
      have hmem' : (endNeighbors p).mem = p.mem := endNeighbors_mem p
      have hnodes : (endNeighbors p).obj.treenodes = p.obj.treenodes := by
        unfold endNeighbors
        split <;> rfl
      have hcost : ∀ n, (endNeighbors p).costOf .original n = p.costOf .original n := by
        intro n
        unfold State.costOf
        rw [hmem']
      refine ⟨h.owned, howned, h.original, hobj, ?_, ?_, ?_, ?_, ?_, ?_⟩
      · rw [hmem]
        exact h.originalCost
      · rw [hmem]
        exact h.originalParent
      · intro n hn
        show ((w.call R .copy .endNeighbors).mem _).cost = (endNeighbors p).costOf .original n
        rw [hmem, hcost]
        exact h.cost n (hnodes ▸ hn)
      · intro n
        show ((w.call R .copy .endNeighbors).mem _).parent = ((endNeighbors p).mem _).parent.map _
        rw [hmem, hmem']
        exact h.parent n
      · rw [hmem]
        exact h.linked
      · intro n hn
        show _ ∧ _ ≤ (endNeighbors p).costOf .original n
        rw [hcost]
        exact h.falls n (hnodes ▸ hn)

/-! ## The break -/

omit [LinearOrder N] in
/-- No node leads to one that the copy has not made. -/
theorem Shared.unlinked_copy (h : Shared w o p) {n : N} (hn : n ∉ p.obj.treenodes) :
    Unlinked w.mem ⟨.copy, n⟩ := by
  refine h.linked.unlinked ?_ ?_
  · rw [h.parent, (h.owned'.unlinked hn).parent]
    rfl
  · rintro ⟨owner, key⟩ hx
    cases h.apart hx
    rw [h.parent] at hx
    obtain ⟨z, hz, heq⟩ := Option.map_eq_some_iff.mp hx
    cases heq
    exact hn (h.owned'.links _ _ hz).2.2.2

/-- Where both relax the neighbour, it should be a child of the current node.  But the copy's has
    its parent in the original. -/
theorem Shared.not_same_of_both (h : Shared w o p) {n key : N} {alt alt' : C}
    {s t : State Owner N C} (hkey : key ∈ p.obj.treenodes)
    (hs : Relaxed .copy n ⟨.original, key⟩ alt (w.state .copy) s)
    (ht : Relaxed .original n ⟨.original, key⟩ alt' p t) : ¬ Same .copy .original s t := by
  intro hsame
  have hchild : (⟨.original, n⟩ : Ptr Owner N) ∈ (t.mem ⟨.original, key⟩).children := by
    rw [ht.linked.iff, ht.parent, if_pos rfl]
  have hin : key ∈ s.obj.treenodes := by
    rw [hs.treenodes]
    refine Finset.mem_insert_of_mem ?_
    show key ∈ w.copy.treenodes
    rw [h.copy]
    exact hkey
  obtain ⟨⟨owner, k⟩, hx, hk⟩ := List.mem_map.mp
    ((hsame.children key hin).mem_iff.mpr (List.mem_map_of_mem hchild))
  have hkn : k = n := hk
  subst hkn
  have hparent := (hs.linked.iff _ _).mp hx
  rw [hs.parent] at hparent
  cases owner with
  | copy =>
      rw [if_pos rfl] at hparent
      exact nomatch hparent
  | original =>
      rw [if_neg (original_ne_copy _ _)] at hparent
      exact nomatch h.apart hparent

/-- Where the original alone would not, the neighbour should be left at its cost. -/
theorem Shared.not_same_of_one (h : Shared w o p) {n : N} {u : Ptr Owner N} {alt : C}
    {s : State Owner N C} (hn : n ∈ p.obj.treenodes) (hlt : alt < (w.mem ⟨.copy, n⟩).cost)
    (hs : Relaxed .copy n u alt (w.state .copy) s) : ¬ Same .copy .original s p := by
  intro hsame
  have hin : n ∈ s.obj.treenodes := by
    rw [hs.treenodes]
    exact Finset.mem_insert_self n _
  have hcost : (s.mem ⟨.copy, n⟩).cost = p.costOf .original n := hsame.cost n hin
  rw [hs.cost, if_pos rfl] at hcost
  rw [h.cost n hn, hcost] at hlt
  exact lt_irrefl _ hlt

/-- **The break.**  A neighbour that the copy relaxes is told to the original. -/
theorem Shared.broken (h : Shared w o p) {n : N} {c : C}
    (hrelaxes : Relaxes R .copy n c (w.state .copy)) :
    ¬ Same .copy .original ((w.call R .copy (.neighbor n c)).state .copy)
      (call R .original (.neighbor n c) p) := by
  show ¬ Same .copy .original (neighbor R .copy n c (w.state .copy)) (neighbor R .original n c p)
  obtain ⟨⟨⟨owner, key⟩, d⟩, htop, hlt⟩ := id hrelaxes
  have hobj : (w.state .copy).obj = p.obj := h.copy
  have htop' : BinaryHeap.top p.obj.q = some (⟨owner, key⟩, d) := by
    rw [← hobj]
    exact htop
  obtain ⟨howner, hkey⟩ := h.owned'.entries _ (mem_top htop')
  cases howner
  have hs := neighbor_of_relaxes htop hrelaxes h.linked (fun hn => h.unlinked_copy (hobj ▸ hn))
  by_cases hideal : Relaxes R .original n c p
  · have ht := neighbor_of_relaxes htop' hideal h.owned'.linked (fun hn => h.owned'.unlinked hn)
    exact h.not_same_of_both hkey hs ht
  · have hin : n ∈ p.obj.treenodes := by
      by_contra hout
      exact hideal ⟨_, htop', fun hin => absurd hin hout⟩
    rw [neighbor_of_not_relaxes hideal]
    exact h.not_same_of_one hin (hlt (hobj ▸ hin)) hs

/-! ## Runs -/

/-- RUN: the objects stay apart as long as the calls are harmless, and not a call longer. -/
theorem Shared.run_iff (h : Shared w o p) (cs : List (Owner × Call N C)) :
    (∀ done, done <+: cs → After R w o p done) ↔ Quiet R w cs := by
  induction cs generalizing w o p with
  | nil =>
      refine iff_of_true ?_ trivial
      intro done hdone
      rw [List.prefix_nil.mp hdone]
      exact ⟨h.same_copy, h.same_original⟩
  | cons x cs ih =>
      obtain ⟨owner, c⟩ := x
      have hnil : After R w o p [] := ⟨h.same_copy, h.same_original⟩
      -- the rest of the run, after a call that keeps the two apart
      have hrest : ∀ o' p', Shared (w.call R owner c) o' p' →
          (∀ done, After R w o p ((owner, c) :: done) ↔ After R (w.call R owner c) o' p' done) →
          Harmless R w owner c →
          ((∀ done, done <+: (owner, c) :: cs → After R w o p done)
            ↔ Quiet R w ((owner, c) :: cs)) := by
        intro o' p' hshared hafter hharmless
        have hih := ih hshared
        constructor
        · intro hall
          refine ⟨hharmless, hih.mp fun done hdone => ?_⟩
          exact (hafter done).mp (hall _ (List.cons_prefix_cons.mpr ⟨rfl, hdone⟩))
        · rintro ⟨-, hquiet⟩ done hdone
          cases done with
          | nil         => exact hnil
          | cons y done =>
              obtain ⟨rfl, htail⟩ := List.cons_prefix_cons.mp hdone
              exact (hafter done).mpr (hih.mpr hquiet done htail)
      cases owner with
      | original =>
          refine hrest (call R .original c o) p ?_ ?_ ?_
          · cases c with
            | neighbor n c => exact h.neighbor_original n c
            | endNeighbors => exact h.end_original
          · exact fun done => ⟨fun ha => ⟨ha.copy, ha.original⟩, fun ha => ⟨ha.copy, ha.original⟩⟩
          · cases c <;> trivial
      | copy =>
          by_cases hharmless : Harmless R w .copy c
          · refine hrest o (call R .original c p) (h.call_copy hharmless) ?_ hharmless
            exact fun done => ⟨fun ha => ⟨ha.copy, ha.original⟩, fun ha => ⟨ha.copy, ha.original⟩⟩
          · refine iff_of_false ?_ (fun hquiet => hharmless hquiet.1)
            intro hall
            have hone := hall [(.copy, c)] (List.cons_prefix_cons.mpr ⟨rfl, List.nil_prefix⟩)
            cases c with
            | neighbor n c => exact h.broken (not_not.mp hharmless) hone.copy
            | endNeighbors => exact hharmless trivial

end Shared

/-- A search after any calls. -/
def searched (R : Costs C) (root : N) (r₀ : C) (before : List (Call N C)) : State Owner N C :=
  calls R .original before (construct R .original root r₀ (blankMemory R))

/-- **HEADLINE**: the copy is independent, in every state of a run of calls to both, exactly if no
    call ever told the copy of a neighbour that it relaxed. -/
theorem copy_independent_iff (R : Costs C) (root : N) (r₀ : C) (before : List (Call N C))
    (later : List (Owner × Call N C)) :
    (∀ done, done <+: later → Independent R (searched R root r₀ before) done)
      ↔ Quiet R (copyConstruct R (searched R root r₀ before)) later := by
  have howned : Owned .original (searched R root r₀ before) := (owned_construct root r₀).calls before
  exact (shared_copyConstruct howned).run_iff later

/-- **COUNTEREXAMPLE**: a new search from node 0 is copied, and the copy is told of node 1.  The
    root of the copy has no child then, and the root of the original has one. -/
theorem copy_shares_nodes :
    ¬ ∀ (root : ℕ) (r₀ : ℕ) (before : List (Call ℕ ℕ)) (later : List (Owner × Call ℕ ℕ)),
      Independent (exactCosts ℕ) (searched (exactCosts ℕ) root r₀ before) later := by
  intro hall
  have h := hall 0 0 [] [(.copy, .neighbor 1 5)]
  have hshared : ((((copyConstruct (exactCosts ℕ) (searched (exactCosts ℕ) 0 0 [])).run (exactCosts ℕ)
      [(.copy, .neighbor 1 5)]).state .original).mem ⟨.original, 0⟩).children = [⟨.copy, 1⟩] := by
    decide +kernel
  have hroot : 0 ∈ (((copyConstruct (exactCosts ℕ) (searched (exactCosts ℕ) 0 0 [])).run
      (exactCosts ℕ) [(.copy, .neighbor 1 5)]).state .original).obj.treenodes := by
    decide +kernel
  have hperm := h.original.children 0 hroot
  rw [hshared] at hperm
  have halone : ((calls (exactCosts ℕ) .original (callsTo .original [(Owner.copy, .neighbor 1 5)])
      (searched (exactCosts ℕ) 0 0 [])).mem ⟨.original, 0⟩).children = [] := by
    decide +kernel
  rw [halone] at hperm
  exact absurd hperm.length_eq (by decide)

end DijkstraTree
