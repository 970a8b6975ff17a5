import Clboss.DijkstraProofs
import Clboss.AmountProofs
import Mathlib.Logic.Relation
import Mathlib.Order.Bounds.Defs
import Mathlib.Algebra.Order.Monoid.Defs
import Mathlib.Algebra.Order.Ring.Nat

/-! # Graph::Dijkstra — the tree of shortest paths

    A client asks for the current node, feeds its neighbours in any order and ends the
    round, until no node is current.  `Inv` is what holds between any two calls:

      * the queue has an entry at its present cost for every node that is not closed, and
        may have older ones at higher costs (`latest`, `entries`);
      * no closed node costs more than an open one (`ahead`), and every edge out of a closed
        node was followed (`relaxed`);
      * nodes hang below closed nodes and the current one only (`hangs`), so a node that is
        given a new parent has no children to take along.

    That a round is in progress shows nowhere in it: the current node is open until its
    round ends, and a neighbour that it improves costs no less than it does, so the entry
    pushed for that neighbour does not reach the top (`neighbor_inv`). -/

namespace DijkstraTree

variable {O N C : Type} [LinearOrder C] {R : Costs C}

/-! ## Graphs -/

/-- A finite graph, with any number of edges between two nodes, or at one; no edge makes a
    path cheaper. -/
structure Network (N : Type) (R : Costs C) where
  edges  : List (N × N × C)
  nonneg : ∀ e ∈ edges, ∀ a, a ≤ R.add a e.2.2

namespace Network

variable (G : Network N R)

/-- The neighbours of a node, each with the cost to go there. -/
def adj [DecidableEq N] (u : N) : List (N × C) := (G.edges.filter (fun e => e.1 = u)).map Prod.snd

/-- There is a path from the root that costs so much. -/
inductive Walk (root : N) (rootCost : C) : N → C → Prop
  | root : Walk root rootCost root rootCost
  | snoc {u v : N} {d c : C} (h : Walk root rootCost u d) (he : (u, v, c) ∈ G.edges) :
      Walk root rootCost v (R.add d c)

def Reachable (root v : N) : Prop :=
  Relation.ReflTransGen (fun a b => ∃ c, (a, b, c) ∈ G.edges) root v

variable {G} {root u v : N} {r₀ d c : C}

theorem mem_adj [DecidableEq N] : (v, c) ∈ G.adj u ↔ (u, v, c) ∈ G.edges := by
  unfold adj
  rw [List.mem_map]
  constructor
  · rintro ⟨⟨u', v', c'⟩, he, heq⟩
    cases heq
    obtain ⟨he, hu⟩ := List.mem_filter.mp he
    rwa [← of_decide_eq_true hu]
  · intro he
    exact ⟨(u, v, c), List.mem_filter.mpr ⟨he, decide_eq_true rfl⟩, rfl⟩

theorem Walk.reachable (h : G.Walk root r₀ v d) : G.Reachable root v := by
  induction h with
  | root           => exact Relation.ReflTransGen.refl
  | snoc _ he ih   => exact ih.tail ⟨_, he⟩

theorem Reachable.walk (h : G.Reachable root v) (r₀ : C) : ∃ d, G.Walk root r₀ v d := by
  induction h with
  | refl           => exact ⟨r₀, Walk.root⟩
  | tail _ he ih   =>
      obtain ⟨d, hd⟩ := ih
      obtain ⟨c, hc⟩ := he
      exact ⟨_, hd.snoc hc⟩

/-- No path is cheaper than where it starts. -/
theorem Walk.le (h : G.Walk root r₀ v d) : r₀ ≤ d := by
  induction h with
  | root         => exact le_rfl
  | snoc _ he ih => exact ih.trans (G.nonneg _ he _)

end Network

/-! ## Clients -/

/-- `data.second` of the node of a key. -/
def State.costOf (s : State O N C) (me : O) (n : N) : C := (s.mem ⟨me, n⟩).cost

section Runs

variable (G : Network N R) (me : O) (root : N) (r₀ : C)

section Client

variable [DecidableEq O] [LinearOrder N]

/-- A client tells of some neighbours of the current node, one after the other. -/
def feed (R : Costs C) (me : O) (es : List (N × C)) (s : State O N C) : State O N C :=
  es.foldl (fun s e => neighbor R me e.1 e.2 s) s

/-- Rounds of a client, with the nodes that were current in them and what these cost then. -/
inductive Rounds : List (N × C) → State O N C → Prop
  | start : Rounds [] (construct R me root r₀ (blankMemory R))
  | round {us : List (N × C)} {s : State O N C} {u : N} {es : List (N × C)}
      (h : Rounds us s) (hu : current s = some u) (hes : es.Perm (G.adj u)) :
      Rounds (us ++ [(u, s.costOf me u)]) (endNeighbors (feed R me es s))

end Client

/-- A node is on the list of those that were current. -/
abbrev Done (us : List (N × C)) (n : N) : Prop := n ∈ us.map Prod.fst

/-- What holds between any two calls. -/
structure Inv (us : List (N × C)) (s : State O N C) : Prop where
  ordered : Ordered s.obj.q
  entries : ∀ e ∈ s.obj.q, e.1.owner = me ∧ e.1.key ∈ s.obj.treenodes
    ∧ s.costOf me e.1.key ≤ e.2
  latest  : ∀ n ∈ s.obj.treenodes, ¬ Done us n → (⟨me, n⟩, s.costOf me n) ∈ s.obj.q
  closed  : ∀ n, ⟨me, n⟩ ∈ s.obj.closed ↔ Done us n
  top     : ∀ e, BinaryHeap.top s.obj.q = some e → e.1 ∉ s.obj.closed
  nodup   : (us.map Prod.fst).Nodup
  rising  : us.Pairwise (fun a b => a.2 ≤ b.2)
  done    : ∀ e ∈ us, e.1 ∈ s.obj.treenodes ∧ s.costOf me e.1 = e.2
  ahead   : ∀ e ∈ us, ∀ n ∈ s.obj.treenodes, ¬ Done us n → e.2 ≤ s.costOf me n
  walks   : ∀ n ∈ s.obj.treenodes, G.Walk root r₀ n (s.costOf me n)
  start   : root ∈ s.obj.treenodes ∧ s.costOf me root = r₀
  relaxed : ∀ e ∈ us, ∀ v c, (e.1, v, c) ∈ G.edges →
    v ∈ s.obj.treenodes ∧ s.costOf me v ≤ R.add e.2 c
  hangs   : ∀ n ∈ s.obj.treenodes, n ≠ root → ∃ p c, (s.mem ⟨me, n⟩).parent = some ⟨me, p⟩
    ∧ (Done us p ∨ current s = some p) ∧ (p, n, c) ∈ G.edges
    ∧ s.costOf me n = R.add (s.costOf me p) c
  orphan  : (s.mem ⟨me, root⟩).parent = none
  linked  : Linked s.mem
  alone   : ∀ x p, (s.mem x).parent = some p → x.owner = me ∧ x.key ∈ s.obj.treenodes
  rooted  : ∀ n ∈ s.obj.treenodes,
    Relation.ReflTransGen (fun a b => (s.mem ⟨me, b⟩).parent = some ⟨me, a⟩) root n

end Runs

variable {G : Network N R} {me : O} {root : N} {r₀ : C} {us : List (N × C)} {s : State O N C}
  {u : N}

/-! ## The current node -/

/-- Where the current node stands in the queue. -/
structure Front (me : O) (us : List (N × C)) (s : State O N C) (u : N) : Prop where
  top   : BinaryHeap.top s.obj.q = some (⟨me, u⟩, s.costOf me u)
  mem   : u ∈ s.obj.treenodes
  fresh : ¬ Done us u
  least : ∀ n ∈ s.obj.treenodes, ¬ Done us n → s.costOf me u ≤ s.costOf me n

theorem Inv.front (h : Inv G me root r₀ us s) (hu : current s = some u) : Front me us s u := by
  obtain ⟨⟨⟨owner, key⟩, d⟩, htop, hkey⟩ := Option.map_eq_some_iff.mp hu
  obtain ⟨howner, hmem, hle⟩ := h.entries _ (mem_top htop)
  cases howner
  cases hkey
  have hfresh : ¬ Done us key := fun hdone => h.top _ htop ((h.closed key).mpr hdone)
  have hleast : ∀ n ∈ s.obj.treenodes, ¬ Done us n → d ≤ s.costOf owner n := fun n hn hopen =>
    h.ordered.le htop (h.latest n hn hopen)
  -- an older entry of the same node would stand behind the present one
  have hd : d = s.costOf owner key := le_antisymm (hleast key hmem hfresh) hle
  subst hd
  exact ⟨htop, hmem, hfresh, hleast⟩

/-- A node that is relaxed was open, and not where the edge comes from. -/
structure Relaxing (us : List (N × C)) (me : O) (root u n : N) (alt : C) (s : State O N C) :
    Prop where
  le_alt   : s.costOf me u ≤ alt
  lt       : n ∈ s.obj.treenodes → alt < s.costOf me n
  ne_front : n ≠ u
  ne_root  : n ≠ root
  fresh    : ¬ Done us n

theorem Inv.relaxing (h : Inv G me root r₀ us s) (hu : Front me us s u) {n : N} {c : C}
    (he : (u, n, c) ∈ G.edges)
    (hlt : n ∈ s.obj.treenodes → R.add (s.costOf me u) c < s.costOf me n) :
    Relaxing us me root u n (R.add (s.costOf me u) c) s := by
  have hle : s.costOf me u ≤ R.add (s.costOf me u) c := G.nonneg _ he _
  refine ⟨hle, hlt, ?_, ?_, ?_⟩
  · rintro rfl
    exact absurd (hlt hu.mem) hle.not_gt
  · rintro rfl
    obtain ⟨hmem, hcost⟩ := h.start
    have hroot : s.costOf me n ≤ s.costOf me u := hcost.le.trans (h.walks u hu.mem).le
    exact absurd (hlt hmem) (hroot.trans hle).not_gt
  · intro hdone
    obtain ⟨e, hin, rfl⟩ := List.mem_map.mp hdone
    obtain ⟨hmem, hcost⟩ := h.done e hin
    have hahead : s.costOf me e.1 ≤ s.costOf me u := hcost.le.trans (h.ahead e hin u hu.mem hu.fresh)
    exact absurd (hlt hmem) (hahead.trans hle).not_gt

/-- Only nodes that are done, or current, have children. -/
theorem Inv.parent_done (h : Inv G me root r₀ us s) {p : Ptr O N} {n : N}
    (hp : (s.mem p).parent = some ⟨me, n⟩) : Done us n ∨ current s = some n := by
  obtain ⟨howner, hmem⟩ := h.alone p _ hp
  obtain ⟨owner, key⟩ := p
  cases howner
  have hne : key ≠ root := by
    rintro rfl
    rw [h.orphan] at hp
    exact nomatch hp
  obtain ⟨q, -, hq, hdone, -, -⟩ := h.hangs key hmem hne
  rw [hp] at hq
  cases hq
  exact hdone

/-- Giving a childless node a new parent leaves every path to another node alone. -/
theorem path_relink {α : Type} {r r' : α → α → Prop} {root n w : α}
    (hsame : ∀ a b, b ≠ n → r a b → r' a b) (hleaf : ∀ a b, r a b → a ≠ n)
    (hw : Relation.ReflTransGen r root w) (hne : w ≠ n) : Relation.ReflTransGen r' root w := by
  induction hw with
  | refl            => exact Relation.ReflTransGen.refl
  | @tail a b _ hab ih => exact (ih (hleaf a b hab)).tail (hsame a b hne hab)

/-- What feeding leaves alone. -/
structure Keeps (me : O) (u : N) (s s' : State O N C) : Prop where
  current : current s' = some u
  cost    : s'.costOf me u = s.costOf me u
  falls   : ∀ v ∈ s.obj.treenodes, v ∈ s'.obj.treenodes ∧ s'.costOf me v ≤ s.costOf me v

theorem Keeps.trans {s' s'' : State O N C} (h : Keeps me u s s') (h' : Keeps me u s' s'') :
    Keeps me u s s'' := by
  refine ⟨h'.current, h'.cost.trans h.cost, fun v hv => ?_⟩
  obtain ⟨hmem, hle⟩ := h.falls v hv
  obtain ⟨hmem', hle'⟩ := h'.falls v hmem
  exact ⟨hmem', hle'.trans hle⟩

omit [LinearOrder C] in
theorem done_concat {n : N} {d : C} : Done (us ++ [(u, d)]) n ↔ Done us n ∨ n = u := by
  rw [Done, List.map_append, List.mem_append]
  exact or_congr_right List.mem_singleton

variable [DecidableEq O] [LinearOrder N]

/-! ## The start -/

theorem inv_construct :
    Inv G me root r₀ [] (construct R me root r₀ (blankMemory R)) := by
  have hnew := construct_spec R me root r₀
  have hcost : (construct R me root r₀ (blankMemory R)).costOf me root = r₀ := hnew.cost
  have hroot : ∀ n ∈ (construct R me root r₀ (blankMemory R)).obj.treenodes, n = root := by
    rw [hnew.treenodes]
    exact fun n hn => Finset.mem_singleton.mp hn
  have hmem : root ∈ (construct R me root r₀ (blankMemory R)).obj.treenodes := by
    rw [hnew.treenodes]
    exact Finset.mem_singleton_self root
  constructor
  case ordered =>
      rw [hnew.q]
      exact BinaryHeap.isHeap_singleton _
  case entries =>
      rw [hnew.q]
      intro e he
      rw [List.mem_singleton.mp he]
      exact ⟨rfl, hmem, hcost.le⟩
  case latest =>
      intro n hn _
      rw [hroot n hn, hcost, hnew.q]
      exact List.mem_singleton_self _
  case closed =>
      intro n
      rw [hnew.closed]
      exact iff_of_false (Finset.notMem_empty _) List.not_mem_nil
  case top =>
      intro e _
      rw [hnew.closed]
      exact Finset.notMem_empty _
  case nodup  => exact List.nodup_nil
  case rising => exact List.Pairwise.nil
  case done   => exact fun e he => nomatch he
  case ahead  => exact fun e he => nomatch he
  case walks =>
      intro n hn
      rw [hroot n hn, hcost]
      exact Network.Walk.root
  case start   => exact ⟨hmem, hcost⟩
  case relaxed => exact fun e he => nomatch he
  case hangs   => exact fun n hn hne => absurd (hroot n hn) hne
  case orphan  => exact (hnew.unlinked _).parent
  case linked  => exact hnew.agree
  case alone =>
      intro x p hp
      rw [(hnew.unlinked x).parent] at hp
      exact nomatch hp
  case rooted =>
      intro n hn
      rw [hroot n hn]

/-! ## A neighbour -/

/-- STEP: relaxing. -/
theorem Inv.relaxed_inv (h : Inv G me root r₀ us s) (hu : Front me us s u) {n : N} {c : C}
    (he : (u, n, c) ∈ G.edges) {s' : State O N C}
    (hrelaxing : Relaxing us me root u n (R.add (s.costOf me u) c) s)
    (hs' : Relaxed me n ⟨me, u⟩ (R.add (s.costOf me u) c) s s') :
    Inv G me root r₀ us s' ∧ Keeps me u s s' := by
  have hcost : ∀ v, v ≠ n → s'.costOf me v = s.costOf me v := by
    intro v hv
    unfold State.costOf
    rw [hs'.cost, if_neg (fun heq => hv (congrArg Ptr.key heq))]
  have hcostn : s'.costOf me n = R.add (s.costOf me u) c := by
    unfold State.costOf
    rw [hs'.cost, if_pos rfl]
    rfl
  have hparent : ∀ p : Ptr O N, p ≠ ⟨me, n⟩ → (s'.mem p).parent = (s.mem p).parent := by
    intro p hp
    rw [hs'.parent, if_neg hp]
  have hparentn : (s'.mem ⟨me, n⟩).parent = some ⟨me, u⟩ := by
    rw [hs'.parent, if_pos rfl]
  have hkey : ∀ v, v ≠ n → (⟨me, v⟩ : Ptr O N) ≠ ⟨me, n⟩ := fun v hv heq =>
    hv (congrArg Ptr.key heq)
  have hmem : ∀ v, v ∈ s'.obj.treenodes ↔ v = n ∨ v ∈ s.obj.treenodes := by
    intro v
    rw [hs'.treenodes, Finset.mem_insert]
  have hcase : ∀ v ∈ s'.obj.treenodes, v = n ∨ v ≠ n ∧ v ∈ s.obj.treenodes := by
    intro v hv
    by_cases hvn : v = n
    · exact Or.inl hvn
    · exact Or.inr ⟨hvn, ((hmem v).mp hv).resolve_left hvn⟩
  have htop : BinaryHeap.top s'.obj.q = some (⟨me, u⟩, s.costOf me u) := by
    rw [hs'.q]
    exact top_push hu.top hrelaxing.le_alt
  have hcurrent : current s' = some u := congrArg (Option.map _) htop
  have hcurrent' : current s = some u := congrArg (Option.map _) hu.top
  have hfalls : ∀ v ∈ s.obj.treenodes, v ∈ s'.obj.treenodes ∧ s'.costOf me v ≤ s.costOf me v := by
    intro v hv
    refine ⟨(hmem v).mpr (Or.inr hv), ?_⟩
    by_cases hvn : v = n
    · subst hvn
      exact hcostn.le.trans (hrelaxing.lt hv).le
    · exact (hcost v hvn).le
  refine ⟨?_, hcurrent, hcost u hrelaxing.ne_front.symm, hfalls⟩
  constructor
  case ordered =>
      rw [hs'.q]
      exact h.ordered.push _
  case entries =>
      intro e hin
      rw [hs'.q, mem_push] at hin
      rcases hin with rfl | hin
      · exact ⟨rfl, (hmem n).mpr (Or.inl rfl), hcostn.le⟩
      · obtain ⟨howner, hin', hle⟩ := h.entries e hin
        obtain ⟨hin'', hle'⟩ := hfalls _ hin'
        exact ⟨howner, hin'', hle'.trans hle⟩
  case latest =>
      intro v hv hopen
      rw [hs'.q, mem_push]
      rcases hcase v hv with rfl | ⟨hvn, hv⟩
      · exact Or.inl (by rw [hcostn])
      · rw [hcost v hvn]
        exact Or.inr (h.latest v hv hopen)
  case closed =>
      intro v
      rw [hs'.closed]
      exact h.closed v
  case top =>
      intro e heq
      rw [htop] at heq
      cases heq
      rw [hs'.closed]
      exact h.top _ hu.top
  case nodup  => exact h.nodup
  case rising => exact h.rising
  case done =>
      intro e hin
      obtain ⟨hin', heq⟩ := h.done e hin
      have hne : e.1 ≠ n := fun heq => hrelaxing.fresh (heq ▸ List.mem_map_of_mem hin)
      exact ⟨(hfalls _ hin').1, (hcost _ hne).trans heq⟩
  case ahead =>
      intro e hin v hv hopen
      rcases hcase v hv with rfl | ⟨hvn, hv⟩
      · rw [hcostn]
        exact (h.ahead e hin u hu.mem hu.fresh).trans hrelaxing.le_alt
      · rw [hcost v hvn]
        exact h.ahead e hin v hv hopen
  case walks =>
      intro v hv
      rcases hcase v hv with rfl | ⟨hvn, hv⟩
      · rw [hcostn]
        exact (h.walks u hu.mem).snoc he
      · rw [hcost v hvn]
        exact h.walks v hv
  case start =>
      obtain ⟨hin, heq⟩ := h.start
      exact ⟨(hfalls _ hin).1, (hcost _ hrelaxing.ne_root.symm).trans heq⟩
  case relaxed =>
      intro e hin v c' he'
      obtain ⟨hv, hle⟩ := h.relaxed e hin v c' he'
      obtain ⟨hv', hle'⟩ := hfalls v hv
      exact ⟨hv', hle'.trans hle⟩
  case hangs =>
      intro v hv hne
      rcases hcase v hv with rfl | ⟨hvn, hv⟩
      · refine ⟨u, c, hparentn, Or.inr hcurrent, he, ?_⟩
        rw [hcostn, hcost u hrelaxing.ne_front.symm]
      · obtain ⟨p, c', hp, hdone, he', heq⟩ := h.hangs v hv hne
        have hpn : p ≠ n := by
          rintro rfl
          rcases hdone with hdone | hcur
          · exact hrelaxing.fresh hdone
          · rw [hcurrent'] at hcur
            cases hcur
            exact hrelaxing.ne_front rfl
        refine ⟨p, c', (hparent _ (hkey v hvn)).trans hp, ?_, he', ?_⟩
        · rw [hcurrent, ← hcurrent']
          exact hdone
        · rw [hcost v hvn, hcost p hpn]
          exact heq
  case orphan =>
      rw [hparent _ (hkey root hrelaxing.ne_root.symm)]
      exact h.orphan
  case linked => exact hs'.linked
  case alone =>
      intro x p hp
      by_cases hx : x = ⟨me, n⟩
      · subst hx
        exact ⟨rfl, (hmem n).mpr (Or.inl rfl)⟩
      · rw [hparent x hx] at hp
        obtain ⟨howner, hin⟩ := h.alone x p hp
        exact ⟨howner, (hfalls _ hin).1⟩
  case rooted =>
      have hold : ∀ v ∈ s.obj.treenodes, v ≠ n → Relation.ReflTransGen
          (fun a b => (s'.mem ⟨me, b⟩).parent = some ⟨me, a⟩) root v := by
        intro v hv hvn
        refine path_relink ?_ ?_ (h.rooted v hv) hvn
        · intro a b hb hab
          rw [hparent _ (hkey b hb)]
          exact hab
        · rintro a b hab rfl
          rcases h.parent_done hab with hdone | hcur
          · exact hrelaxing.fresh hdone
          · rw [hcurrent'] at hcur
            cases hcur
            exact hrelaxing.ne_front rfl
      intro v hv
      rcases hcase v hv with rfl | ⟨hvn, hv⟩
      · exact (hold u hu.mem hrelaxing.ne_front.symm).tail hparentn
      · exact hold v hv hvn

/-- STEP: a neighbour is fed, and its edge is followed. -/
theorem neighbor_inv (h : Inv G me root r₀ us s) (hu : current s = some u) {n : N} {c : C}
    (he : (u, n, c) ∈ G.edges) :
    Inv G me root r₀ us (neighbor R me n c s) ∧ Keeps me u s (neighbor R me n c s)
      ∧ n ∈ (neighbor R me n c s).obj.treenodes
      ∧ (neighbor R me n c s).costOf me n ≤ R.add (s.costOf me u) c := by
  have hfront := h.front hu
  by_cases hrelaxes : Relaxes R me n c s
  · have hnew : n ∉ s.obj.treenodes → Unlinked s.mem ⟨me, n⟩ := by
      intro hout
      refine h.linked.unlinked ?_ ?_
      · cases hp : (s.mem ⟨me, n⟩).parent with
        | none   => rfl
        | some p => exact absurd (h.alone _ p hp).2 hout
      · intro x hx
        rcases h.parent_done hx with hdone | hcur
        · obtain ⟨e, hin, rfl⟩ := List.mem_map.mp hdone
          exact hout (h.done e hin).1
        · exact hout (h.front hcur).mem
    have hs' := neighbor_of_relaxes hfront.top hrelaxes h.linked hnew
    obtain ⟨e, htop, hlt⟩ := hrelaxes
    rw [hfront.top] at htop
    cases htop
    obtain ⟨hinv, hkeeps⟩ := h.relaxed_inv hfront he (h.relaxing hfront he hlt) hs'
    refine ⟨hinv, hkeeps, ?_, ?_⟩
    · rw [hs'.treenodes]
      exact Finset.mem_insert_self n _
    · unfold State.costOf
      rw [hs'.cost, if_pos rfl]
  · have hin : n ∈ s.obj.treenodes := by
      by_contra hout
      exact hrelaxes ⟨_, hfront.top, fun hin => absurd hin hout⟩
    have hle : s.costOf me n ≤ R.add (s.costOf me u) c := by
      by_contra hlt
      exact hrelaxes ⟨_, hfront.top, fun _ => lt_of_not_ge hlt⟩
    rw [neighbor_of_not_relaxes hrelaxes]
    exact ⟨h, ⟨hu, rfl, fun v hv => ⟨hv, le_rfl⟩⟩, hin, hle⟩

/-! ## A round -/

/-- RUN: some neighbours of the current node are fed. -/
theorem feed_inv (h : Inv G me root r₀ us s) (hu : current s = some u) {es : List (N × C)}
    (hes : ∀ e ∈ es, (u, e) ∈ G.edges) :
    Inv G me root r₀ us (feed R me es s) ∧ Keeps me u s (feed R me es s)
      ∧ ∀ e ∈ es, e.1 ∈ (feed R me es s).obj.treenodes
        ∧ (feed R me es s).costOf me e.1 ≤ R.add (s.costOf me u) e.2 := by
  induction es generalizing s with
  | nil =>
      exact ⟨h, ⟨hu, rfl, fun v hv => ⟨hv, le_rfl⟩⟩, fun e he => nomatch he⟩
  | cons e es ih =>
      obtain ⟨hinv, hkeeps, hmem, hle⟩ := neighbor_inv h hu (hes e List.mem_cons_self)
      obtain ⟨hinv', hkeeps', hfed⟩ := ih hinv hkeeps.current
        (fun x hx => hes x (List.mem_cons_of_mem _ hx))
      refine ⟨hinv', hkeeps.trans hkeeps', ?_⟩
      intro x hx
      rcases List.mem_cons.mp hx with rfl | hx
      · obtain ⟨hmem', hle'⟩ := hkeeps'.falls _ hmem
        exact ⟨hmem', hle'.trans hle⟩
      · rw [← hkeeps.cost]
        exact hfed x hx

/-- STEP: the round ends once every edge of the current node was followed. -/
theorem endNeighbors_inv (h : Inv G me root r₀ us s) (hu : current s = some u)
    (hadj : ∀ v c, (u, v, c) ∈ G.edges →
      v ∈ s.obj.treenodes ∧ s.costOf me v ≤ R.add (s.costOf me u) c) :
    Inv G me root r₀ (us ++ [(u, s.costOf me u)]) (endNeighbors s) := by
  have hfront := h.front hu
  have hs' := endNeighbors_spec hfront.top h.ordered
  have hcost : ∀ n, (endNeighbors s).costOf me n = s.costOf me n := by
    intro n
    unfold State.costOf
    rw [hs'.mem]
  have hpop : ∀ e ∈ (endNeighbors s).obj.q, e ∈ s.obj.q := fun e he =>
    (h.ordered.mem_pop hfront.top).mpr (Or.inr (hs'.filtered.subset e he))
  have hopen : ∀ n, ¬ Done (us ++ [(u, s.costOf me u)]) n → ¬ Done us n ∧ n ≠ u := fun n hn =>
    not_or.mp (fun hor => hn (done_concat.mpr hor))
  constructor
  case ordered => exact hs'.filtered.ordered
  case entries =>
      intro e he
      rw [hs'.treenodes, hcost]
      exact h.entries e (hpop e he)
  case latest =>
      intro n hn hdone
      obtain ⟨hdone, hne⟩ := hopen n hdone
      rw [hs'.treenodes] at hn
      rw [hcost]
      have hentry := h.latest n hn hdone
      refine hs'.filtered.kept _ ?_ ?_
      · refine ((h.ordered.mem_pop hfront.top).mp hentry).resolve_left fun heq => hne ?_
        exact congrArg (fun e => Ptr.key e.1) heq
      · rw [Finset.mem_insert, not_or]
        exact ⟨fun heq => hne (congrArg Ptr.key heq), fun hin => hdone ((h.closed n).mp hin)⟩
  case closed =>
      intro n
      rw [hs'.closed, Finset.mem_insert, done_concat, h.closed]
      constructor
      · rintro (heq | hdone)
        · exact Or.inr (congrArg Ptr.key heq)
        · exact Or.inl hdone
      · rintro (hdone | rfl)
        · exact Or.inr hdone
        · exact Or.inl rfl
  case top =>
      intro e he
      rw [hs'.closed]
      exact hs'.filtered.top e he
  case nodup =>
      rw [List.map_append]
      refine h.nodup.append (List.nodup_singleton _) ?_
      intro n hn hin
      rw [List.mem_singleton.mp hin] at hn
      exact hfront.fresh hn
  case rising =>
      refine List.pairwise_append.mpr ⟨h.rising, List.pairwise_singleton _ _, ?_⟩
      intro e he x hx
      rw [List.mem_singleton.mp hx]
      exact h.ahead e he u hfront.mem hfront.fresh
  case done =>
      intro e he
      rw [hs'.treenodes, hcost]
      rcases List.mem_append.mp he with he | he
      · exact h.done e he
      · rw [List.mem_singleton.mp he]
        exact ⟨hfront.mem, rfl⟩
  case ahead =>
      intro e he n hn hdone
      obtain ⟨hdone, -⟩ := hopen n hdone
      rw [hs'.treenodes] at hn
      rw [hcost]
      rcases List.mem_append.mp he with he | he
      · exact h.ahead e he n hn hdone
      · rw [List.mem_singleton.mp he]
        exact hfront.least n hn hdone
  case walks =>
      intro n hn
      rw [hs'.treenodes] at hn
      rw [hcost]
      exact h.walks n hn
  case start =>
      rw [hs'.treenodes, hcost]
      exact h.start
  case relaxed =>
      intro e he v c hedge
      rw [hs'.treenodes, hcost]
      rcases List.mem_append.mp he with he | he
      · exact h.relaxed e he v c hedge
      · rw [List.mem_singleton.mp he] at hedge ⊢
        exact hadj v c hedge
  case hangs =>
      intro n hn hne
      rw [hs'.treenodes] at hn
      obtain ⟨p, c, hp, hdone, hedge, heq⟩ := h.hangs n hn hne
      refine ⟨p, c, ?_, Or.inl (done_concat.mpr ?_), hedge, ?_⟩
      · rw [hs'.mem]
        exact hp
      · rcases hdone with hdone | hcur
        · exact Or.inl hdone
        · rw [hu] at hcur
          cases hcur
          exact Or.inr rfl
      · rw [hcost, hcost]
        exact heq
  case orphan =>
      rw [hs'.mem]
      exact h.orphan
  case linked =>
      rw [hs'.mem]
      exact h.linked
  case alone =>
      intro x p hp
      rw [hs'.mem] at hp
      rw [hs'.treenodes]
      exact h.alone x p hp
  case rooted =>
      intro n hn
      rw [hs'.treenodes] at hn
      rw [hs'.mem]
      exact h.rooted n hn

/-- RUN: any number of rounds. -/
theorem Rounds.inv (h : Rounds G me root r₀ us s) : Inv G me root r₀ us s := by
  induction h with
  | start => exact inv_construct
  | @round us s u es _ hu hes ih =>
      obtain ⟨hinv, hkeeps, hfed⟩ := feed_inv ih hu
        (fun e he => Network.mem_adj.mp (hes.mem_iff.mp he))
      rw [← hkeeps.cost]
      refine endNeighbors_inv hinv hkeeps.current fun v c he => ?_
      rw [hkeeps.cost]
      exact hfed (v, c) (hes.mem_iff.mpr (Network.mem_adj.mpr he))

/-! ## The end -/

/-- What a finished run leaves: the reachable nodes, at their distances, in a tree. -/
structure Result (G : Network N R) (me : O) (root : N) (r₀ : C) (s : State O N C) : Prop where
  nodes    : ∀ v, v ∈ s.obj.treenodes ↔ G.Reachable root v
  shortest : ∀ v ∈ s.obj.treenodes, IsLeast {d | G.Walk root r₀ v d} (s.costOf me v)
  orphan   : (s.mem ⟨me, root⟩).parent = none
  hangs    : ∀ v ∈ s.obj.treenodes, v ≠ root → ∃ p ∈ s.obj.treenodes, ∃ c,
    (s.mem ⟨me, v⟩).parent = some ⟨me, p⟩ ∧ (p, v, c) ∈ G.edges
      ∧ s.costOf me v = R.add (s.costOf me p) c
  children : ∀ p x, x ∈ (s.mem p).children ↔ (s.mem x).parent = some p
  once     : ∀ p, (s.mem p).children.Nodup
  own      : ∀ p x, x ∈ (s.mem p).children → x.owner = me ∧ x.key ∈ s.obj.treenodes
  rooted   : ∀ v ∈ s.obj.treenodes,
    Relation.ReflTransGen (fun a b => ⟨me, b⟩ ∈ (s.mem ⟨me, a⟩).children) root v

omit [DecidableEq O] in
/-- Without a current node every node is done. -/
theorem Inv.done_of_end (h : Inv G me root r₀ us s) (hend : current s = none) :
    ∀ n ∈ s.obj.treenodes, Done us n := by
  intro n hn
  by_contra hopen
  have hentry := h.latest n hn hopen
  have hempty : s.obj.q = [] := by
    cases hq : s.obj.q with
    | nil      => rfl
    | cons e q =>
        unfold current at hend
        rw [hq] at hend
        exact nomatch hend
  rw [hempty] at hentry
  exact nomatch hentry

omit [DecidableEq O] in
/-- Nothing that a path leads to was missed, and no path is cheaper than what was found. -/
theorem Inv.walk_bound (h : Inv G me root r₀ us s) (hend : current s = none) {v : N} {d : C}
    (hv : G.Walk root r₀ v d) : v ∈ s.obj.treenodes ∧ s.costOf me v ≤ d := by
  induction hv with
  | root => exact ⟨h.start.1, h.start.2.le⟩
  | @snoc u v d c _ he ih =>
      obtain ⟨hmem, hle⟩ := ih
      obtain ⟨e, hin, rfl⟩ := List.mem_map.mp (h.done_of_end hend u hmem)
      obtain ⟨hv, hbound⟩ := h.relaxed e hin v c he
      refine ⟨hv, hbound.trans (R.mono c ?_)⟩
      rw [← (h.done e hin).2]
      exact hle

omit [DecidableEq O] in
theorem Inv.result (h : Inv G me root r₀ us s) (hend : current s = none) :
    Result G me root r₀ s := by
  have hlink : ∀ a b, (s.mem b).parent = some a → b ∈ (s.mem a).children := fun a b =>
    (h.linked.iff a b).mpr
  refine ⟨?_, ?_, h.orphan, ?_, h.linked.iff, h.linked.nodup, ?_, ?_⟩
  · intro v
    constructor
    · exact fun hv => (h.walks v hv).reachable
    · intro hv
      obtain ⟨d, hd⟩ := hv.walk r₀
      exact (h.walk_bound hend hd).1
  · exact fun v hv => ⟨h.walks v hv, fun d hd => (h.walk_bound hend hd).2⟩
  · intro v hv hne
    obtain ⟨p, c, hp, hdone, he, heq⟩ := h.hangs v hv hne
    have hdone' : Done us p := hdone.resolve_right fun hcur => by
      rw [hend] at hcur
      exact nomatch hcur
    obtain ⟨e, hin, rfl⟩ := List.mem_map.mp hdone'
    exact ⟨e.1, (h.done e hin).1, c, hp, he, heq⟩
  · exact fun p x hx => h.alone x p ((h.linked.iff p x).mp hx)
  · exact fun v hv => Relation.ReflTransGen.mono (fun a b => hlink ⟨me, a⟩ ⟨me, b⟩) _ _ (h.rooted v hv)

/-- The nodes that were current are the root and ends of edges. -/
theorem Rounds.length_le (h : Rounds G me root r₀ us s) : us.length ≤ G.edges.length + 1 := by
  have hinv := h.inv
  have hsubset : us.map Prod.fst ⊆ root :: G.edges.map (fun e => e.2.1) := by
    intro n hn
    obtain ⟨e, hin, rfl⟩ := List.mem_map.mp hn
    by_cases hne : e.1 = root
    · exact hne ▸ List.mem_cons_self
    · obtain ⟨p, c, -, -, he, -⟩ := hinv.hangs e.1 (hinv.done e hin).1 hne
      exact List.mem_cons_of_mem _ (List.mem_map.mpr ⟨_, he, rfl⟩)
  have hlength := (hinv.nodup.subperm hsubset).length_le
  rwa [List.length_map, List.length_cons, List.length_map] at hlength

/-- Every run can be brought to its end. -/
theorem Rounds.finish (h : Rounds G me root r₀ us s) :
    ∃ us' s', Rounds G me root r₀ (us ++ us') s' ∧ current s' = none := by
  induction hleft : G.edges.length + 1 - us.length using Nat.strong_induction_on
    generalizing us s with
  | _ left ih =>
      cases hu : current s with
      | none   => exact ⟨[], s, (List.append_nil us).symm ▸ h, hu⟩
      | some u =>
          have hround := h.round hu (List.Perm.refl _)
          have hlength := hround.length_le
          rw [List.length_append, List.length_singleton] at hlength
          obtain ⟨us', s', hrun, hend⟩ := ih _ (by
            rw [← hleft, List.length_append, List.length_singleton]
            omega) hround rfl
          rw [List.append_assoc] at hrun
          exact ⟨_, s', hrun, hend⟩

/-- A search, over all the runs of all clients. -/
structure Search (G : Network N R) (me : O) (root : N) (r₀ : C) : Prop where
  /-- feeding some of the neighbours does not change which node is current -/
  steady   : ∀ us s u es more, Rounds G me root r₀ us s → current s = some u →
    (es ++ more).Perm (G.adj u) → current (feed R me es s) = some u
  rising   : ∀ us s, Rounds G me root r₀ us s → us.Pairwise (fun a b => a.2 ≤ b.2)
  once     : ∀ us s, Rounds G me root r₀ us s →
    (us.map Prod.fst).Nodup ∧ ∀ e ∈ us, G.Reachable root e.1
  bounded  : ∀ us s, Rounds G me root r₀ us s → us.length ≤ G.edges.length + 1
  finishes : ∀ us s, Rounds G me root r₀ us s →
    ∃ us' s', Rounds G me root r₀ (us ++ us') s' ∧ current s' = none
  every    : ∀ us s, Rounds G me root r₀ us s → current s = none →
    ∀ n, G.Reachable root n → n ∈ us.map Prod.fst
  result   : ∀ us s, Rounds G me root r₀ us s → current s = none → Result G me root r₀ s
    ∧ ∀ e ∈ us, s.costOf me e.1 = e.2

/-- **HEADLINE**: every search finds the shortest paths. -/
theorem shortest_paths (G : Network N R) (me : O) (root : N) (r₀ : C) :
    Search G me root r₀ := by
  constructor
  case steady =>
      intro us s u es more h hu hes
      have hedges : ∀ e ∈ es, (u, e) ∈ G.edges := fun e he =>
        Network.mem_adj.mp (hes.subset (List.mem_append_left _ he))
      obtain ⟨-, hkeeps, -⟩ := feed_inv h.inv hu hedges
      exact hkeeps.current
  case rising   => exact fun us s h => h.inv.rising
  case once =>
      intro us s h
      have hinv := h.inv
      exact ⟨hinv.nodup, fun e he => (hinv.walks _ (hinv.done e he).1).reachable⟩
  case bounded  => exact fun us s h => h.length_le
  case finishes => exact fun us s h => h.finish
  case every =>
      intro us s h hend n hn
      have hinv := h.inv
      exact hinv.done_of_end hend n (((hinv.result hend).nodes n).mpr hn)
  case result =>
      intro us s h hend
      exact ⟨h.inv.result hend, fun e he => (h.inv.done e he).2⟩

/-! ## Costs -/

/-- Costs that add up exactly. -/
def exactCosts (C : Type) [AddCommMonoid C] [LinearOrder C] [IsOrderedAddMonoid C] : Costs C where
  add   := (· + ·)
  fresh := 0
  mono  := fun c h => add_le_add_left h c

/-- A graph whose costs are not negative. -/
def Network.ofNonneg {N C : Type} [AddCommMonoid C] [LinearOrder C] [IsOrderedAddMonoid C]
    (edges : List (N × N × C)) (h : ∀ e ∈ edges, 0 ≤ e.2.2) : Network N (exactCosts C) where
  edges  := edges
  nonneg := fun e he _ => le_add_of_nonneg_right (h e he)

/-- Two rounds on a triangle, whose node 2 is cheaper to reach by way of node 1. -/
def triangle : State Unit ℕ ℕ :=
  endNeighbors (feed (exactCosts ℕ) () [(2, 1)]
    (endNeighbors (feed (exactCosts ℕ) () [(1, 1), (2, 5)]
      (construct (exactCosts ℕ) () 0 0 (blankMemory (exactCosts ℕ))))))

example : current triangle = some 2 ∧ triangle.costOf () 2 = 2
    ∧ (triangle.mem ⟨(), 2⟩).parent = some ⟨(), 1⟩ := by
  decide +kernel

section Amounts

theorem amount_injective : Function.Injective (fun a : Ln.Amount => a.v.toNat) := by
  rintro ⟨a⟩ ⟨b⟩ h
  exact congrArg Ln.Amount.mk (UInt64.toNat_inj.mp h)

/-- `operator<` of `Ln::Amount`. -/
abbrev amountOrder : LinearOrder Ln.Amount := LinearOrder.lift' _ amount_injective

attribute [local instance] amountOrder

/-- `ChannelFinderByDistance` adds up amounts, and their sums saturate. -/
def amountCosts : Costs Ln.Amount where
  add   := Ln.Amount.add
  fresh := ⟨0⟩
  mono  := by
    intro a b c h
    have hle : a.v.toNat ≤ b.v.toNat := h
    show (a.add c).v.toNat ≤ (b.add c).v.toNat
    rw [Ln.Amount.toNat_add, Ln.Amount.toNat_add]
    omega

/-- Channels of any costs, however large: no amount makes a path cheaper. -/
def channelNetwork {N : Type} (channels : List (N × N × Ln.Amount)) : Network N amountCosts where
  edges  := channels
  nonneg := by
    intro e _ a
    have hlt := a.v.toNat_lt
    show a.v.toNat ≤ (a.add e.2.2).v.toNat
    rw [Ln.Amount.toNat_add]
    omega

end Amounts

end DijkstraTree
