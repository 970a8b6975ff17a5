import Clboss.BinaryHeapProofs
import Mathlib.Data.Finset.Sort

/-! # Graph::Dijkstra — nodes that point at each other

    The map of a run OWNS the tree nodes; the queue, the closed set and the links of the tree
    are raw pointers to them.  A node is made once for a key and lives as long as the map
    does, so a pointer is the object that owns the node together with its key, and
    `data.first`, which points back at the key, is read off the pointer.

    `neighbor` writes to memory in one way only, whether the node is new or was found at a
    higher cost: `relax`.  What follows says what that does to each field, and that the two
    directions of the links always agree (`Linked`). -/

namespace DijkstraTree

/-- `Cost` with `AddC`, compared by `CmpC`. -/
structure Costs (C : Type) [LinearOrder C] where
  add   : C → C → C
  /-- `Cost()` -/
  fresh : C
  mono  : ∀ {a b : C} (c : C), a ≤ b → add a c ≤ add b c

/-- `TreeNode*`. -/
structure Ptr (O N : Type) where
  owner : O
  key   : N
deriving DecidableEq

/-- `Graph::TreeNode`. -/
structure TreeNode (O N C : Type) where
  cost     : C
  parent   : Option (Ptr O N)
  children : List (Ptr O N)

/-- The tree nodes of every object. -/
abbrev Memory (O N C : Type) := Ptr O N → TreeNode O N C

/-- `Graph::Dijkstra`; of its map `treenodes` only the keys are here. -/
@[ext]
structure Dijkstra (O N C : Type) where
  q         : List (Ptr O N × C)
  treenodes : Finset N
  closed    : Finset (Ptr O N)

/-- An object, and the memory that it shares with others. -/
structure State (O N C : Type) where
  mem : Memory O N C
  obj : Dijkstra O N C

/-- `WrappedCmpC`: the arguments are flipped. -/
def wrappedCmpC {P C : Type} [LinearOrder C] (a b : P × C) : Bool := decide (b.2 < a.2)

variable {O N C : Type} [DecidableEq O] [LinearOrder N]

section Code

variable [LinearOrder C] (R : Costs C)

/-- `TreeNode()`. -/
def blank : TreeNode O N C := ⟨R.fresh, none, []⟩

/-- `current`. -/
def current (s : State O N C) : Option N :=
  (BinaryHeap.top s.obj.q).map (fun e => e.1.key)

/-- A write to one node. -/
def modify (mem : Memory O N C) (p : Ptr O N) (f : TreeNode O N C → TreeNode O N C) :
    Memory O N C :=
  fun x => if x = p then f (mem x) else mem x

/-- `reparent`, first half: the node is taken out of the children of its parent. -/
def detach (mem : Memory O N C) (node : Ptr O N) : Memory O N C :=
  match (mem node).parent with
  | some curparent =>
      modify mem curparent
        (fun t => { t with children := t.children.filter (fun x => x ≠ node) })
  | none => mem

/-- `reparent`. -/
def reparent (mem : Memory O N C) (node parent : Ptr O N) : Memory O N C :=
  modify
    (modify (detach mem node) node (fun t => { t with parent := some parent }))
    parent (fun t => { t with children := t.children ++ [node] })

/-- `create_treenode`. -/
def createTreenode (me : O) (n : N) (s : State O N C) : State O N C where
  mem := modify s.mem ⟨me, n⟩ (fun _ => blank R)
  obj := { s.obj with treenodes := insert n s.obj.treenodes }

/-- `get_treenode`. -/
def getTreenode (me : O) (n : N) (s : State O N C) : State O N C :=
  if n ∈ s.obj.treenodes then s else createTreenode R me n s

/-- `data.second` of a node is set. -/
def setCost (mem : Memory O N C) (node : Ptr O N) (c : C) : Memory O N C :=
  modify mem node (fun t => { t with cost := c })

/-- What `neighbor` does to a node that it improves. -/
def relax (me : O) (n : N) (u : Ptr O N) (alt : C) (s : State O N C) : State O N C where
  mem := reparent (setCost s.mem ⟨me, n⟩ alt) ⟨me, n⟩ u
  obj := { s.obj with q := BinaryHeap.push wrappedCmpC s.obj.q (⟨me, n⟩, alt) }

/-- `neighbor`.  Without a current node it must not be called, and does nothing here. -/
def neighbor (me : O) (n : N) (c : C) (s : State O N C) : State O N C :=
  match BinaryHeap.top s.obj.q with
  | none        => s
  | some (u, _) =>
      let alt := R.add (s.mem u).cost c
      if n ∈ s.obj.treenodes then
        if alt < (s.mem ⟨me, n⟩).cost then relax me n u alt s else s
      else relax me n u alt (createTreenode R me n s)

/-- The loop of `end_neighbors`: entries of closed nodes are popped. -/
def filterClosed (closed : Finset (Ptr O N)) (q : List (Ptr O N × C)) : List (Ptr O N × C) :=
  match _htop : BinaryHeap.top q with
  | none   => q
  | some e =>
      if e.1 ∈ closed then filterClosed closed (BinaryHeap.pop wrappedCmpC q) else q
termination_by q.length
decreasing_by
  have hpos : 0 < q.length := (List.getElem?_eq_some_iff.mp _htop).1
  rw [BinaryHeap.length_pop]
  omega

/-- `end_neighbors`, not to be called without a current node either. -/
def endNeighbors (s : State O N C) : State O N C :=
  match BinaryHeap.top s.obj.q with
  | none        => s
  | some (u, _) =>
      { s with obj := { s.obj with
          q := filterClosed (insert u s.obj.closed) (BinaryHeap.pop wrappedCmpC s.obj.q)
          closed := insert u s.obj.closed } }

/-- The constructor, with `initialize`. -/
def construct (me : O) (root : N) (rootCost : C) (mem : Memory O N C) : State O N C :=
  let s := getTreenode R me root ⟨mem, ⟨[], ∅, ∅⟩⟩
  { mem := setCost s.mem ⟨me, root⟩ rootCost
    obj := { s.obj with
      q := BinaryHeap.push wrappedCmpC s.obj.q (⟨me, root⟩, rootCost) } }

/-- Memory before anything was made in it. -/
def blankMemory : Memory O N C := fun _ => blank R

end Code

/-! ## The queue -/

section Queue

variable {P C : Type} [LinearOrder C]

theorem weakOrder_wrappedCmpC : BinaryHeap.WeakOrder (@wrappedCmpC P C _) := by
  constructor
  · intro a b h
    exact decide_eq_false (of_decide_eq_true h).asymm
  · intro a b c hab hbc
    have hab' := not_lt.mp (of_decide_eq_false hab)
    have hbc' := not_lt.mp (of_decide_eq_false hbc)
    exact decide_eq_false (not_lt.mpr (hab'.trans hbc'))

/-- A heap of entries, the least cost first. -/
abbrev Ordered (q : List (P × C)) : Prop := BinaryHeap.IsHeap wrappedCmpC q

theorem Ordered.le {q : List (P × C)} (h : Ordered q) {t e : P × C}
    (ht : BinaryHeap.top q = some t) (he : e ∈ q) : t.2 ≤ e.2 :=
  not_lt.mp (of_decide_eq_false (BinaryHeap.le_top weakOrder_wrappedCmpC h ht he))

theorem Ordered.push {q : List (P × C)} (h : Ordered q) (e : P × C) :
    Ordered (BinaryHeap.push wrappedCmpC q e) :=
  BinaryHeap.isHeap_push weakOrder_wrappedCmpC h e

theorem mem_push {q : List (P × C)} {e x : P × C} :
    x ∈ BinaryHeap.push wrappedCmpC q e ↔ x = e ∨ x ∈ q :=
  (BinaryHeap.push_perm q e).mem_iff.trans List.mem_cons

/-- An entry of no less cost leaves the top where it is. -/
theorem top_push {q : List (P × C)} {t e : P × C} (ht : BinaryHeap.top q = some t)
    (hle : t.2 ≤ e.2) : BinaryHeap.top (BinaryHeap.push wrappedCmpC q e) = some t :=
  BinaryHeap.top_push ht (decide_eq_false (not_lt.mpr hle))

omit [LinearOrder C] in
theorem mem_top {q : List (P × C)} {t : P × C} (ht : BinaryHeap.top q = some t) :
    t ∈ q :=
  List.mem_of_getElem? ht

theorem Ordered.pop {q : List (P × C)} (h : Ordered q) :
    Ordered (BinaryHeap.pop wrappedCmpC q) :=
  BinaryHeap.isHeap_pop weakOrder_wrappedCmpC h

theorem Ordered.mem_pop {q : List (P × C)} (h : Ordered q) {t x : P × C}
    (ht : BinaryHeap.top q = some t) : x ∈ q ↔ x = t ∨ x ∈ BinaryHeap.pop wrappedCmpC q :=
  (BinaryHeap.perm_pop weakOrder_wrappedCmpC h ht).mem_iff.trans List.mem_cons

end Queue

/-- What popping the entries of closed nodes leaves. -/
structure Filtered [LinearOrder C] (closed : Finset (Ptr O N)) (q q' : List (Ptr O N × C)) : Prop where
  ordered : Ordered q'
  subset  : ∀ e ∈ q', e ∈ q
  kept    : ∀ e ∈ q, e.1 ∉ closed → e ∈ q'
  top     : ∀ e, BinaryHeap.top q' = some e → e.1 ∉ closed

/-- **SPEC** of the loop. -/
theorem filterClosed_spec [LinearOrder C] (closed : Finset (Ptr O N)) {q : List (Ptr O N × C)} (h : Ordered q) :
    Filtered closed q (filterClosed closed q) := by
  fun_induction filterClosed closed q with
  | case1 q hnone =>
      exact ⟨h, fun e he => he, fun e he _ => he, fun e he => by rw [hnone] at he; cases he⟩
  | case2 q t ht hclosed ih =>
      have hpop := ih h.pop
      refine ⟨hpop.ordered, ?_, ?_, hpop.top⟩
      · intro e he
        exact (h.mem_pop ht).mpr (Or.inr (hpop.subset e he))
      · intro e he hopen
        rcases (h.mem_pop ht).mp he with rfl | he
        · exact absurd hclosed hopen
        · exact hpop.kept e he hopen
  | case3 q t ht hopen =>
      refine ⟨h, fun e he => he, fun e he _ => he, fun e he => ?_⟩
      rw [ht] at he
      cases he
      exact hopen

/-! ## Memory, field by field -/

theorem modify_self (mem : Memory O N C) (p : Ptr O N) (f : TreeNode O N C → TreeNode O N C) :
    modify mem p f p = f (mem p) := if_pos rfl

theorem modify_of_ne (mem : Memory O N C) {p x : Ptr O N} (f : TreeNode O N C → TreeNode O N C)
    (h : x ≠ p) : modify mem p f x = mem x := if_neg h

/-- A write that leaves a field alone leaves it alone everywhere. -/
theorem modify_field {β : Type} (field : TreeNode O N C → β)
    {f : TreeNode O N C → TreeNode O N C} (hf : ∀ t, field (f t) = field t)
    (mem : Memory O N C) (p x : Ptr O N) : field (modify mem p f x) = field (mem x) := by
  unfold modify
  split
  · exact hf _
  · rfl

theorem setCost_cost (mem : Memory O N C) (node p : Ptr O N) (c : C) :
    (setCost mem node c p).cost = if p = node then c else (mem p).cost := by
  unfold setCost modify
  split <;> rfl

@[simp] theorem setCost_parent (mem : Memory O N C) (node p : Ptr O N) (c : C) :
    (setCost mem node c p).parent = (mem p).parent :=
  modify_field TreeNode.parent (fun _ => by rfl) mem node p

@[simp] theorem setCost_children (mem : Memory O N C) (node p : Ptr O N) (c : C) :
    (setCost mem node c p).children = (mem p).children :=
  modify_field TreeNode.children (fun _ => by rfl) mem node p

/-- Detaching changes only who the children are. -/
theorem detach_field {β : Type} (field : TreeNode O N C → β)
    (hf : ∀ (t : TreeNode O N C) l, field { t with children := l } = field t)
    (mem : Memory O N C) (node p : Ptr O N) : field (detach mem node p) = field (mem p) := by
  unfold detach
  cases (mem node).parent with
  | none           => rfl
  | some curparent => exact modify_field field (fun t => hf t _) mem curparent p

theorem detach_children (mem : Memory O N C) (node p : Ptr O N) :
    (detach mem node p).children
      = if (mem node).parent = some p then (mem p).children.filter (fun x => x ≠ node)
        else (mem p).children := by
  unfold detach
  cases (mem node).parent with
  | none           => exact (if_neg (fun h => nomatch h)).symm
  | some curparent =>
      by_cases hp : p = curparent
      · rw [hp, if_pos rfl]
        exact congrArg TreeNode.children (modify_self mem curparent _)
      · rw [if_neg (fun h => hp (Option.some.inj h).symm)]
        exact congrArg TreeNode.children (modify_of_ne mem _ hp)

@[simp] theorem reparent_cost (mem : Memory O N C) (node parent p : Ptr O N) :
    (reparent mem node parent p).cost = (mem p).cost :=
  calc (reparent mem node parent p).cost
      = (modify (detach mem node) node (fun t => { t with parent := some parent }) p).cost :=
        modify_field TreeNode.cost (fun _ => by rfl) _ _ _
    _ = (detach mem node p).cost := modify_field TreeNode.cost (fun _ => by rfl) _ _ _
    _ = (mem p).cost := detach_field TreeNode.cost (fun _ _ => rfl) _ _ _

theorem reparent_parent (mem : Memory O N C) (node parent p : Ptr O N) :
    (reparent mem node parent p).parent = if p = node then some parent else (mem p).parent := by
  have hlast : (reparent mem node parent p).parent
      = (modify (detach mem node) node (fun t => { t with parent := some parent }) p).parent :=
    modify_field TreeNode.parent (fun _ => by rfl) _ _ _
  rw [hlast]
  by_cases hp : p = node
  · rw [hp, modify_self, if_pos rfl]
  · rw [modify_of_ne _ _ hp, if_neg hp]
    exact detach_field TreeNode.parent (fun _ _ => rfl) _ _ _

theorem reparent_children (mem : Memory O N C) (node parent p : Ptr O N) :
    (reparent mem node parent p).children
      = (detach mem node p).children ++ if p = parent then [node] else [] := by
  have hmid : (modify (detach mem node) node (fun t => { t with parent := some parent }) p).children
      = (detach mem node p).children :=
    modify_field TreeNode.children (fun _ => by rfl) _ _ _
  unfold reparent
  by_cases hp : p = parent
  · subst hp
    rw [modify_self, if_pos rfl]
    exact congrArg (· ++ [node]) hmid
  · rw [modify_of_ne _ _ hp, if_neg hp, List.append_nil]
    exact hmid

/-! ## Links -/

/-- The links agree: a node is among the children of its parent, once, and nowhere else. -/
structure Linked (mem : Memory O N C) : Prop where
  iff   : ∀ p x, x ∈ (mem p).children ↔ (mem x).parent = some p
  nodup : ∀ p, (mem p).children.Nodup

theorem Linked.setCost {mem : Memory O N C} (h : Linked mem) (node : Ptr O N) (c : C) :
    Linked (setCost mem node c) := by
  constructor
  · intro p x
    rw [setCost_children, setCost_parent]
    exact h.iff p x
  · intro p
    rw [setCost_children]
    exact h.nodup p

/-- Once it is detached, a node is nobody's child. -/
theorem Linked.mem_detach {mem : Memory O N C} (h : Linked mem) (node p x : Ptr O N) :
    x ∈ (detach mem node p).children ↔ x ≠ node ∧ (mem x).parent = some p := by
  rw [detach_children]
  by_cases hcur : (mem node).parent = some p
  · rw [if_pos hcur, List.mem_filter, h.iff, decide_eq_true_iff]
    exact and_comm
  · rw [if_neg hcur, h.iff]
    constructor
    · intro hx
      exact ⟨fun hnode => hcur (hnode ▸ hx), hx⟩
    · exact And.right

/-- STEP: a new parent keeps the links in agreement. -/
theorem Linked.reparent {mem : Memory O N C} (h : Linked mem) (node parent : Ptr O N) :
    Linked (reparent mem node parent) := by
  constructor
  · intro p x
    rw [reparent_children, List.mem_append, h.mem_detach, reparent_parent]
    by_cases hx : x = node
    · subst hx
      rw [if_pos rfl]
      by_cases hp : p = parent
      · rw [hp, if_pos rfl]
        exact iff_of_true (Or.inr List.mem_cons_self) rfl
      · rw [if_neg hp]
        refine iff_of_false ?_ (fun heq => hp (Option.some.inj heq).symm)
        rintro (⟨hne, -⟩ | hin)
        · exact hne rfl
        · exact nomatch hin
    · have hout : x ∉ (if p = parent then [node] else []) := by
        split
        · exact fun hin => hx (List.mem_singleton.mp hin)
        · exact List.not_mem_nil
      rw [if_neg hx]
      constructor
      · rintro (⟨-, hparent⟩ | hin)
        · exact hparent
        · exact absurd hin hout
      · exact fun hparent => Or.inl ⟨hx, hparent⟩
  · intro p
    rw [reparent_children]
    have hdetached : (detach mem node p).children.Nodup := by
      rw [detach_children]
      split
      · exact (h.nodup p).filter _
      · exact h.nodup p
    refine hdetached.append ?_ ?_
    · split
      · exact List.nodup_singleton _
      · exact List.nodup_nil
    · intro x hx hin
      split at hin
      · rw [List.mem_singleton.mp hin] at hx
        exact ((h.mem_detach node p node).mp hx).1 rfl
      · exact nomatch hin

/-- A node outside of any tree. -/
structure Unlinked (mem : Memory O N C) (p : Ptr O N) : Prop where
  parent   : (mem p).parent = none
  children : (mem p).children = []

omit [DecidableEq O] [LinearOrder N] in
theorem Linked.unlinked {mem : Memory O N C} (h : Linked mem) {p : Ptr O N}
    (hparent : (mem p).parent = none) (hchild : ∀ x, (mem x).parent ≠ some p) :
    Unlinked mem p :=
  ⟨hparent, List.eq_nil_iff_forall_not_mem.mpr fun x hx => hchild x ((h.iff p x).mp hx)⟩

section Steps

variable [LinearOrder C] {R : Costs C} {me : O} {n : N} {c d : C} {u : Ptr O N} {s : State O N C}

/-! ## Making a node -/

/-- What `get_treenode` does: the links stay as they are. -/
structure Got (me : O) (n : N) (s s' : State O N C) : Prop where
  q         : s'.obj.q = s.obj.q
  treenodes : s'.obj.treenodes = insert n s.obj.treenodes
  closed    : s'.obj.closed = s.obj.closed
  cost      : ∀ p, p ≠ ⟨me, n⟩ ∨ n ∈ s.obj.treenodes → (s'.mem p).cost = (s.mem p).cost
  parent    : ∀ p, (s'.mem p).parent = (s.mem p).parent
  children  : ∀ p, (s'.mem p).children = (s.mem p).children

/-- **SPEC** of `get_treenode`. -/
theorem getTreenode_spec (hnew : n ∉ s.obj.treenodes → Unlinked s.mem ⟨me, n⟩) :
    Got me n s (getTreenode R me n s) := by
  unfold getTreenode
  by_cases hin : n ∈ s.obj.treenodes
  · rw [if_pos hin]
    exact ⟨rfl, (Finset.insert_eq_self.mpr hin).symm, rfl, fun _ _ => rfl, fun _ => rfl,
      fun _ => rfl⟩
  · rw [if_neg hin]
    have hblank := hnew hin
    have hhere : (createTreenode R me n s).mem ⟨me, n⟩ = blank R :=
      modify_self s.mem _ (fun _ => blank R)
    have helse : ∀ p, p ≠ ⟨me, n⟩ → (createTreenode R me n s).mem p = s.mem p :=
      fun p hp => modify_of_ne s.mem (fun _ => blank R) hp
    refine ⟨rfl, rfl, rfl, ?_, ?_, ?_⟩
    · rintro p (hp | hp)
      · rw [helse p hp]
      · exact absurd hp hin
    · intro p
      by_cases hp : p = ⟨me, n⟩
      · rw [hp, hhere, hblank.parent]
        rfl
      · rw [helse p hp]
    · intro p
      by_cases hp : p = ⟨me, n⟩
      · rw [hp, hhere, hblank.children]
        rfl
      · rw [helse p hp]

omit [DecidableEq O] [LinearOrder C] in
theorem Got.agree {s' : State O N C} (h : Got me n s s') (hlinked : Linked s.mem) :
    Linked s'.mem := by
  constructor
  · intro p x
    rw [h.children, h.parent]
    exact hlinked.iff p x
  · intro p
    rw [h.children]
    exact hlinked.nodup p

/-- What the constructor makes: the root, at its cost, in nothing's tree. -/
structure Constructed (me : O) (root : N) (rootCost : C) (s : State O N C) : Prop where
  q         : s.obj.q = [(⟨me, root⟩, rootCost)]
  treenodes : s.obj.treenodes = {root}
  closed    : s.obj.closed = ∅
  cost      : (s.mem ⟨me, root⟩).cost = rootCost
  unlinked  : ∀ p, Unlinked s.mem p

/-- **SPEC** of the constructor. -/
theorem construct_spec (R : Costs C) (me : O) (root : N) (rootCost : C) :
    Constructed me root rootCost (construct R me root rootCost (blankMemory R)) := by
  have hgot : Got me root ⟨blankMemory R, ⟨[], ∅, ∅⟩⟩
      (getTreenode R me root ⟨blankMemory R, ⟨[], ∅, ∅⟩⟩) :=
    getTreenode_spec (fun _ => ⟨rfl, rfl⟩)
  refine ⟨?_, hgot.treenodes, hgot.closed, ?_, fun p => ⟨?_, ?_⟩⟩
  · show BinaryHeap.push wrappedCmpC _ _ = _
    rw [hgot.q]
    exact List.perm_singleton.mp (BinaryHeap.push_perm [] _)
  · show (setCost _ _ _ _).cost = _
    rw [setCost_cost, if_pos rfl]
  · show (setCost _ _ _ _).parent = _
    rw [setCost_parent]
    exact hgot.parent p
  · show (setCost _ _ _ _).children = _
    rw [setCost_children]
    exact hgot.children p

omit [DecidableEq O] [LinearOrder N] [LinearOrder C] in
theorem Constructed.agree {rootCost : C} (h : Constructed me n rootCost s) : Linked s.mem := by
  constructor
  · intro p x
    rw [(h.unlinked p).children, (h.unlinked x).parent]
    exact iff_of_false List.not_mem_nil (fun h => nomatch h)
  · intro p
    rw [(h.unlinked p).children]
    exact List.nodup_nil

/-! ## `neighbor` -/

/-- The neighbour is new, or the way through the current node is cheaper. -/
def Relaxes (R : Costs C) (me : O) (n : N) (c : C) (s : State O N C) : Prop :=
  ∃ e, BinaryHeap.top s.obj.q = some e
    ∧ (n ∈ s.obj.treenodes → R.add (s.mem e.1).cost c < (s.mem ⟨me, n⟩).cost)

/-- What `neighbor` does then: the node hangs below `u`, at the new cost. -/
structure Relaxed (me : O) (n : N) (u : Ptr O N) (alt : C) (s s' : State O N C) : Prop where
  q         : s'.obj.q = BinaryHeap.push wrappedCmpC s.obj.q (⟨me, n⟩, alt)
  treenodes : s'.obj.treenodes = insert n s.obj.treenodes
  closed    : s'.obj.closed = s.obj.closed
  cost      : ∀ p, (s'.mem p).cost = if p = ⟨me, n⟩ then alt else (s.mem p).cost
  parent    : ∀ p, (s'.mem p).parent = if p = ⟨me, n⟩ then some u else (s.mem p).parent
  linked    : Linked s'.mem

theorem neighbor_of_not_relaxes (h : ¬ Relaxes R me n c s) : neighbor R me n c s = s := by
  unfold neighbor
  cases htop : BinaryHeap.top s.obj.q with
  | none   => rfl
  | some e =>
      have hin : n ∈ s.obj.treenodes := by
        by_contra hout
        exact h ⟨e, htop, fun hin => absurd hin hout⟩
      have hge : ¬ R.add (s.mem e.1).cost c < (s.mem ⟨me, n⟩).cost := fun hlt =>
        h ⟨e, htop, fun _ => hlt⟩
      show (if n ∈ s.obj.treenodes then
        if R.add (s.mem e.1).cost c < (s.mem ⟨me, n⟩).cost then _ else s else _) = s
      rw [if_pos hin, if_neg hge]

/-- **INVERSION.** -/
theorem neighbor_of_relaxes (htop : BinaryHeap.top s.obj.q = some (u, d))
    (h : Relaxes R me n c s) (hlinked : Linked s.mem)
    (hnew : n ∉ s.obj.treenodes → Unlinked s.mem ⟨me, n⟩) :
    Relaxed me n u (R.add (s.mem u).cost c) s (neighbor R me n c s) := by
  obtain ⟨e, he, hlt⟩ := h
  rw [htop] at he
  cases he
  have hgot := getTreenode_spec (R := R) hnew
  have heq : neighbor R me n c s
      = relax me n u (R.add (s.mem u).cost c) (getTreenode R me n s) := by
    unfold neighbor getTreenode
    rw [htop]
    by_cases hin : n ∈ s.obj.treenodes
    · simp only [if_pos hin, if_pos (hlt hin)]
    · simp only [if_neg hin]
  rw [heq]
  refine ⟨?_, hgot.treenodes, hgot.closed, ?_, ?_, ?_⟩
  · exact congrArg (fun q => BinaryHeap.push wrappedCmpC q _) hgot.q
  · intro p
    show (reparent _ _ _ p).cost = _
    rw [reparent_cost, setCost_cost]
    by_cases hp : p = ⟨me, n⟩
    · rw [if_pos hp, if_pos hp]
    · rw [if_neg hp, if_neg hp]
      exact hgot.cost p (Or.inl hp)
  · intro p
    show (reparent _ _ _ p).parent = _
    rw [reparent_parent, setCost_parent, hgot.parent]
  · exact ((hgot.agree hlinked).setCost _ _).reparent _ _

/-! ## `end_neighbors` -/

/-- What `end_neighbors` does with the current node `u`. -/
structure Ended (u : Ptr O N) (s s' : State O N C) : Prop where
  mem       : s'.mem = s.mem
  treenodes : s'.obj.treenodes = s.obj.treenodes
  closed    : s'.obj.closed = insert u s.obj.closed
  filtered  : Filtered (insert u s.obj.closed) (BinaryHeap.pop wrappedCmpC s.obj.q) s'.obj.q

/-- **INVERSION.** -/
theorem endNeighbors_spec (htop : BinaryHeap.top s.obj.q = some (u, d))
    (hq : Ordered s.obj.q) : Ended u s (endNeighbors s) := by
  unfold endNeighbors
  rw [htop]
  exact ⟨rfl, rfl, rfl, filterClosed_spec _ hq.pop⟩

theorem endNeighbors_mem (s : State O N C) : (endNeighbors s).mem = s.mem := by
  unfold endNeighbors
  split <;> rfl

/-- No node is looked into. -/
theorem endNeighbors_congr {s s' : State O N C} (h : s.obj = s'.obj) :
    (endNeighbors s).obj = (endNeighbors s').obj := by
  obtain ⟨mem, obj⟩ := s
  cases h
  unfold endNeighbors
  cases BinaryHeap.top s'.obj.q with
  | none   => rfl
  | some e => rfl

end Steps

end DijkstraTree
