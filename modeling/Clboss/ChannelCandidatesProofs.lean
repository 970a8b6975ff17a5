import Clboss.MachineProofs
import Clboss.UniqueTableProofs
import Mathlib.Data.Int.Order.Basic

/-! # `ChannelCandidateInvestigator` — candidates and unmanaged nodes

    The `Manager` keeps the candidates in a table and the nodes that "open" does
    not manage in a set.  Whoever wants to change the table waits for the
    database, so everything a message starts is a TASK here, and any task may be
    the next to go on.  The janitor's cleaning alone holds the database while it
    awaits others.

    A proposal is compared with the set BEFORE its dowser answer is awaited, and
    is put into the table after that: a node that became unmanaged in between
    comes back (`stale_proposal`).  `Timely` excludes exactly the insertions of
    nodes that are unmanaged with nothing left to remove them, and with it the
    table has no unmanaged node whenever nothing is being processed
    (`proposals_sound`). -/

namespace ChannelCandidates

/-- `min_score`. -/
def minScore : ℤ := -3

/-- `max_score`. -/
def maxScore : ℤ := 24

/-- `max_candidates`. -/
def maxCandidates : ℕ := 32

/-- A row of the table. -/
structure Row (Node : Type) where
  proposal : Node
  patron   : Node
  score    : ℤ
deriving DecidableEq

/-- `Msg::ProposeChannelCandidates`. -/
structure Candidate (Node : Type) where
  proposal : Node
  patron   : Node
deriving DecidableEq

/-- What has been started and not finished. -/
inductive Task (Node : Type) where
  /-- The handler of `Init`, before its transaction. -/
  | initTable
  /-- `check_acceptable`, before the dowser's answer. -/
  | check (c : Candidate Node) (minChannel : ℕ)
  | add (c : Candidate Node)
  | remove (ns : List Node)
  /-- The report function of the gumshoe. -/
  | updateScore (n : Node) (success : Bool)
  | cleanUp
  /-- `TimerRandomHourly`, before its transaction. -/
  | hourly
  /-- `pick_eviction_victim`. -/
  | evict (nodes : List Node)
deriving DecidableEq

section

variable {Node : Type}

/-- The primary key. -/
def Row.key (r : Row Node) : Node := r.proposal

abbrev CandidateTable (Node : Type) : Type := UniqueTable.Table (@Row.key Node)

/-- The transaction of the janitor; `work` is the table as it sees it. -/
structure Cleaning (Node : Type) where
  minChannel : ℕ
  work       : CandidateTable Node
  answered   : Bool

structure State (Node : Type) where
  /-- The committed rows. -/
  table      : CandidateTable Node
  /-- The table is there. -/
  created    : Bool
  unmanaged  : List Node
  /-- `db` is set. -/
  db         : Bool
  offline    : Bool
  minChannel : ℕ
  tasks      : List (Task Node)
  cleaning   : Option (Cleaning Node)

/-- Before the first start. -/
def State.init : State Node := ⟨.empty, false, [], false, false, 0, [], none⟩

inductive Event (Node : Type) where
  | amountSettings (minChannel : ℕ)
  | init (offline : Bool)
  /-- The `inform` of "open", with `true` and with `false`. -/
  | unmanage (n : Node)
  | manage (n : Node)
  | propose (c : Candidate Node)
  | listpeersAnalyzed (connected disconnected : List Node)
  | channelCreateResult (n : Node)
  /-- The gumshoe reports. -/
  | report (n : Node) (success : Bool)
  | timerTwiceDaily
  | timerRandomHourly
  /-- The dowser answers a check. -/
  | dowser (i : ℕ) (amount : ℕ)
  /-- The track record is there, and this is the victim. -/
  | victim (i : ℕ) (n : Node)
  /-- What a task awaits fails. -/
  | fail (i : ℕ)
  /-- A task gets the database. -/
  | transact (i : ℕ)
  /-- All the answers that the janitor awaits. -/
  | cleaned (amount : Node → ℕ)
  | commit
  | rollback
  /-- The program is started again. -/
  | restart

variable [DecidableEq Node]

/-! ## `Secretary` -/

/-- `add_candidate`. -/
def addCandidate (t : CandidateTable Node) (c : Candidate Node) : CandidateTable Node :=
  t.insertOrIgnore ⟨c.proposal, c.patron, 0⟩

/-- `remove_candidate`, of each. -/
def removeCandidates (t : CandidateTable Node) (ns : List Node) : CandidateTable Node :=
  ns.foldl (fun t n => t.delete n) t

/-- `MIN(:maximum_score, …)`. -/
def saturated (score : ℤ) : ℤ := if maxScore < score then maxScore else score

/-- `update_score`. -/
def updateScore (t : CandidateTable Node) (n : Node) (delta : ℤ) : CandidateTable Node :=
  (t.update n (fun r => { r with score := saturated (r.score + delta) })
    (fun _ => rfl)).deleteWhere (fun r => r.proposal = n ∧ r.score < minScore)

/-! ## `Manager` -/

def State.start (s : State Node) (t : Task Node) : State Node := { s with tasks := s.tasks ++ [t] }

/-- A task that has come to its transaction.  Before the table is there the first
    statement fails. -/
def State.runTask (s : State Node) : Task Node → Option (State Node)
  | .initTable          =>
      some { s with created := true, table := removeCandidates s.table s.unmanaged }
  | .check _ _           => none
  | .evict _             => none
  | .add c               => some (if s.created then { s with table := addCandidate s.table c } else s)
  | .remove ns           => some (if s.created then { s with table := removeCandidates s.table ns } else s)
  | .updateScore n success =>
      some (if s.created then
        { s with table := updateScore s.table n (if success then 1 else -1) } else s)
  | .cleanUp             =>
      some (if s.created then { s with cleaning := some ⟨s.minChannel, s.table, false⟩ } else s)
  | .hourly              =>
      some (if s.created ∧ maxCandidates < s.table.rows.length then
        s.start (.evict (s.table.rows.map Row.proposal)) else s)

/-- One step; `none` where that cannot come, or where the program ends. -/
def State.next (s : State Node) : Event Node → Option (State Node)
  | .amountSettings minChannel => some { s with minChannel := minChannel }
  | .init offline =>
      if s.db then none else some ({ s with db := true, offline := offline }.start .initTable)
  | .unmanage n =>
      let s := { s with unmanaged := s.unmanaged.insert n }
      some (if s.db then s.start (.remove [n]) else s)
  | .manage n =>
      if n ∈ s.unmanaged then some { s with unmanaged := s.unmanaged.filter (fun m => m ≠ n) }
      else none
  | .propose c =>
      some (if c.proposal ∈ s.unmanaged then s else s.start (.check c s.minChannel))
  | .listpeersAnalyzed connected disconnected =>
      some (if s.db then s.start (.remove (connected ++ disconnected)) else s)
  | .channelCreateResult n => some (if s.db then s.start (.remove [n]) else s)
  | .report n success => if s.db then some (s.start (.updateScore n success)) else none
  | .timerTwiceDaily => some (if s.db then s.start .cleanUp else s)
  | .timerRandomHourly =>
      if s.offline then some s else if s.db then some (s.start .hourly) else none
  | .dowser i amount =>
      match s.tasks[i]? with
      | some (.check c minChannel) =>
          let s := { s with tasks := s.tasks.eraseIdx i }
          some (if amount < minChannel then s else s.start (.add c))
      | _ => none
  | .victim i n =>
      match s.tasks[i]? with
      | some (.evict nodes) =>
          if n ∈ nodes then some ({ s with tasks := s.tasks.eraseIdx i }.start (.remove [n]))
          else none
      | _ => none
  | .fail i =>
      match s.tasks[i]? with
      | some (.check _ _) => some { s with tasks := s.tasks.eraseIdx i }
      | some (.evict _)   => some { s with tasks := s.tasks.eraseIdx i }
      | _                 => none
  | .transact i =>
      if s.db ∧ s.cleaning.isNone then
        (s.tasks[i]?).bind (fun t => { s with tasks := s.tasks.eraseIdx i }.runTask t)
      else none
  | .cleaned amount =>
      match s.cleaning with
      | some ⟨minChannel, work, false⟩ =>
          let bad := (work.rows.map Row.proposal).filter (fun n => amount n < minChannel)
          some { s with cleaning := some ⟨minChannel, removeCandidates work bad, true⟩ }
      | _ => none
  | .commit =>
      match s.cleaning with
      | some ⟨_, work, true⟩ => some { s with table := work, cleaning := none }
      | _                    => none
  | .rollback => if s.cleaning.isSome then some { s with cleaning := none } else none
  | .restart => some { State.init with table := s.table, created := s.created }

def step (s : State Node) (e : Event Node) : Option (State Node × List Empty) :=
  (s.next e).map (fun s' => (s', []))

/-! ## The table's statements -/

omit [DecidableEq Node] in
/-- A score is in its range. -/
def InRange (r : Row Node) : Prop := minScore ≤ r.score ∧ r.score ≤ maxScore

omit [DecidableEq Node] in
theorem zero_inRange (proposal patron : Node) : InRange ⟨proposal, patron, 0⟩ :=
  ⟨show minScore ≤ 0 by decide, show 0 ≤ maxScore by decide⟩

theorem get_removeCandidates {ns : List Node} {t : CandidateTable Node} {n : Node} :
    (n ∈ ns → (removeCandidates t ns).get n = none)
      ∧ (t.get n = none → (removeCandidates t ns).get n = none) := by
  induction ns generalizing t with
  | nil => exact ⟨nofun, id⟩
  | cons m ns ih =>
      have hkeep : t.get n = none → (t.delete m).get n = none := by
        intro h
        by_cases hm : n = m
        · rw [hm]
          exact UniqueTable.Table.get_delete_self t m
        · rw [UniqueTable.Table.get_delete_ne t hm]
          exact h
      refine ⟨fun hmem => ?_, fun h => ih.2 (hkeep h)⟩
      rcases List.mem_cons.mp hmem with rfl | hmem
      · exact ih.2 (UniqueTable.Table.get_delete_self t n)
      · exact ih.1 hmem

theorem mem_removeCandidates {ns : List Node} {t : CandidateTable Node} {r : Row Node}
    (h : r ∈ (removeCandidates t ns).rows) : r ∈ t.rows := by
  induction ns generalizing t with
  | nil => exact h
  | cons m ns ih => exact List.mem_of_mem_filter (ih h)

theorem mem_addCandidate {t : CandidateTable Node} {c : Candidate Node} {r : Row Node}
    (h : r ∈ (addCandidate t c).rows) : r ∈ t.rows ∨ r = ⟨c.proposal, c.patron, 0⟩ := by
  unfold addCandidate UniqueTable.Table.insertOrIgnore at h
  split at h
  · rcases List.mem_append.mp h with h | h
    · exact Or.inl h
    · exact Or.inr (List.mem_singleton.mp h)
  · exact Or.inl h

/-- Only rows with another score come from an update. -/
theorem mem_updateScore {t : CandidateTable Node} {n : Node} {delta : ℤ} {r : Row Node}
    (h : r ∈ (updateScore t n delta).rows) :
    ∃ r' ∈ t.rows, r'.proposal = r.proposal
      ∧ (r = r' ∨ r.score = saturated (r'.score + delta) ∧ minScore ≤ r.score) := by
  obtain ⟨hmem, hkept⟩ := List.mem_filter.mp h
  obtain ⟨r', hr', heq⟩ := List.mem_map.mp hmem
  by_cases hn : r'.key = n
  · rw [if_pos hn] at heq
    subst heq
    refine ⟨r', hr', rfl, Or.inr ⟨rfl, ?_⟩⟩
    have hscore := hkept
    simp only [Bool.not_eq_true', decide_eq_false_iff_not, not_and, Int.not_lt] at hscore
    exact hscore hn
  · rw [if_neg hn] at heq
    subst heq
    exact ⟨r', hr', rfl, Or.inl rfl⟩

theorem inRange_updateScore {t : CandidateTable Node} {n : Node} {delta : ℤ}
    (h : ∀ r ∈ t.rows, InRange r) : ∀ r ∈ (updateScore t n delta).rows, InRange r := by
  intro r hr
  obtain ⟨r', hr', -, rfl | ⟨hscore, hmin⟩⟩ := mem_updateScore hr
  · exact h r hr'
  · refine ⟨hmin, ?_⟩
    rw [hscore]
    unfold saturated
    split
    · exact Int.le_refl _
    · rename_i hle
      exact Int.not_lt.mp hle

theorem get_eq_none_of_rows {t t' : CandidateTable Node} {n : Node} (h : t.get n = none)
    (hrows : ∀ r ∈ t'.rows, ∃ r' ∈ t.rows, r'.proposal = r.proposal) : t'.get n = none := by
  rw [UniqueTable.Table.get_eq_none_iff] at h ⊢
  intro r hr hkey
  obtain ⟨r', hr', hprop⟩ := hrows r hr
  exact h r' hr' (hprop.trans hkey)

/-! ## The invariant -/

omit [DecidableEq Node] in
/-- What is done leaves the node out if it is unmanaged. -/
def Task.Removes (n : Node) : Task Node → Prop
  | .initTable => True
  | .remove ns => n ∈ ns
  | _          => False

instance Task.Removes.decidable (n : Node) : (t : Task Node) → Decidable (t.Removes n)
  | .initTable       => inferInstanceAs (Decidable True)
  | .remove ns       => inferInstanceAs (Decidable (n ∈ ns))
  | .check _ _       => inferInstanceAs (Decidable False)
  | .add _           => inferInstanceAs (Decidable False)
  | .updateScore _ _ => inferInstanceAs (Decidable False)
  | .cleanUp         => inferInstanceAs (Decidable False)
  | .hourly          => inferInstanceAs (Decidable False)
  | .evict _         => inferInstanceAs (Decidable False)

omit [DecidableEq Node] in
/-- Something will yet remove the node. -/
def State.Awaits (s : State Node) (n : Node) : Prop :=
  s.db = false ∨ ∃ t ∈ s.tasks, t.Removes n

instance State.Awaits.decidable (s : State Node) (n : Node) : Decidable (s.Awaits n) :=
  inferInstanceAs (Decidable (_ ∨ _))

structure Inv (s : State Node) : Prop where
  clear   : ∀ n ∈ s.unmanaged, s.table.get n = none ∨ s.Awaits n
  range   : ∀ r ∈ s.table.rows, InRange r
  working : ∀ c ∈ s.cleaning, ∀ r ∈ c.work.rows, r ∈ s.table.rows
  created : s.created = false → s.table.rows = []

theorem inv_init : Inv (State.init : State Node) where
  clear := nofun
  range := nofun
  working := nofun
  created := fun _ => rfl

omit [DecidableEq Node] in
/-- The candidate that is put in. -/
def State.adds (s : State Node) : Event Node → Option (Candidate Node)
  | .transact i =>
      match s.tasks[i]? with
      | some (.add c) => some c
      | _             => none
  | _ => none

/-- **THE CONDITION**: a node is not put in that is unmanaged with nothing left to
    remove it. -/
def Timely (s : State Node) (e : Event Node) : Prop :=
  ∀ c ∈ s.adds e, c.proposal ∉ s.unmanaged ∨ s.Awaits c.proposal

instance Timely.decidable (s : State Node) (e : Event Node) : Decidable (Timely s e) :=
  inferInstanceAs (Decidable (∀ c ∈ s.adds e, c.proposal ∉ s.unmanaged ∨ s.Awaits c.proposal))

omit [DecidableEq Node] in
/-- A task is done that does not remove the node. -/
theorem State.Awaits.eraseIdx {s : State Node} {n : Node} (h : s.Awaits n) {i : ℕ} {t : Task Node}
    (ht : s.tasks[i]? = some t) (hnot : ¬ t.Removes n) :
    State.Awaits { s with tasks := s.tasks.eraseIdx i } n := by
  rcases h with h | ⟨t', hmem, hremoves⟩
  · exact Or.inl h
  · rcases List.mem_cons.mp ((Machine.pool_perm ht).mem_iff.mp hmem) with rfl | hmem
    · exact absurd hremoves hnot
    · exact Or.inr ⟨t', hmem, hremoves⟩

omit [DecidableEq Node] in
theorem State.Awaits.start {s : State Node} {n : Node} (h : s.Awaits n) (t : Task Node) :
    (s.start t).Awaits n := by
  rcases h with h | ⟨t', hmem, hremoves⟩
  · exact Or.inl h
  · exact Or.inr ⟨t', List.mem_append_left _ hmem, hremoves⟩

omit [DecidableEq Node] in
theorem awaits_start {s : State Node} {n : Node} {t : Task Node} (h : t.Removes n) :
    (s.start t).Awaits n :=
  Or.inr ⟨t, List.mem_append_right _ (List.mem_singleton_self t), h⟩

/-- The table is left alone. -/
theorem Inv.idle {s s' : State Node} (h : Inv s) (htable : s'.table = s.table)
    (hcreated : s'.created = s.created) (hcleaning : ∀ c ∈ s'.cleaning, c ∈ s.cleaning)
    (hclear : ∀ n ∈ s'.unmanaged, s'.Awaits n ∨ n ∈ s.unmanaged ∧ (s.Awaits n → s'.Awaits n)) :
    Inv s' where
  clear := by
    intro n hn
    rw [htable]
    rcases hclear n hn with hawaits | ⟨hmem, hmono⟩
    · exact Or.inr hawaits
    · exact (h.clear n hmem).imp id hmono
  range := by
    rw [htable]
    exact h.range
  working := by
    intro c hc
    rw [htable]
    exact h.working c (hcleaning c hc)
  created := by
    rw [hcreated, htable]
    exact h.created

/-- A task is started. -/
theorem inv_start {s : State Node} (h : Inv s) (t : Task Node) : Inv (s.start t) :=
  h.idle rfl rfl (fun _ hc => hc) (fun _ hn => Or.inr ⟨hn, fun hawaits => hawaits.start t⟩)

/-- A task that removes nothing is done. -/
theorem inv_eraseIdx {s : State Node} (h : Inv s) {i : ℕ} {t : Task Node}
    (ht : s.tasks[i]? = some t) (hnot : ∀ n, ¬ t.Removes n) :
    Inv { s with tasks := s.tasks.eraseIdx i } :=
  h.idle rfl rfl (fun _ hc => hc)
    (fun n hn => Or.inr ⟨hn, fun hawaits => hawaits.eraseIdx ht (hnot n)⟩)

/-- The table has changed, with nobody cleaning. -/
theorem Inv.changed {s : State Node} (h : Inv s) (hcleaning : s.cleaning = none)
    {t : CandidateTable Node} (hcreated : s.created = true) (hrange : ∀ r ∈ t.rows, InRange r)
    (hclear : ∀ n ∈ s.unmanaged, s.table.get n = none → ¬ s.Awaits n → t.get n = none) :
    Inv { s with table := t } where
  clear := by
    intro n hn
    by_cases hawaits : s.Awaits n
    · exact Or.inr hawaits
    · exact Or.inl (hclear n hn ((h.clear n hn).resolve_right hawaits) hawaits)
  range := hrange
  working := by
    intro c hc
    rw [hcleaning] at hc
    cases hc
  created := by
    intro hnot
    rw [hcreated] at hnot
    cases hnot

/-- Tables with fewer rows. -/
theorem get_eq_none_of_sub {t t' : CandidateTable Node} {n : Node} (h : t.get n = none)
    (hsub : ∀ r ∈ t'.rows, r ∈ t.rows) : t'.get n = none :=
  get_eq_none_of_rows h (fun r hr => ⟨r, hsub r hr, rfl⟩)

/-- **STEP (removal)**: of the nodes that it was waiting for it leaves none. -/
theorem inv_remove {s : State Node} (h : Inv s) (hcleaning : s.cleaning = none) {i : ℕ}
    {ns : List Node} (ht : s.tasks[i]? = some (.remove ns)) :
    Inv { s with tasks := s.tasks.eraseIdx i, table := removeCandidates s.table ns } where
  clear := by
    intro n hn
    by_cases hmem : n ∈ ns
    · exact Or.inl (get_removeCandidates.1 hmem)
    · rcases h.clear n hn with hnone | hawaits
      · exact Or.inl (get_removeCandidates.2 hnone)
      · exact Or.inr (hawaits.eraseIdx ht hmem)
  range := fun r hr => h.range r (mem_removeCandidates hr)
  working := by
    intro c hc
    rw [show State.cleaning _ = s.cleaning from rfl, hcleaning] at hc
    cases hc
  created := by
    intro hnot
    exact List.eq_nil_iff_forall_not_mem.mpr (fun r hr => by
      have hmem := mem_removeCandidates hr
      rw [h.created hnot] at hmem
      cases hmem)

/-- **STEP (initTable)**: no unmanaged node is left. -/
theorem inv_initTable {s : State Node} (h : Inv s) (hcleaning : s.cleaning = none) (i : ℕ) :
    Inv { s with
      tasks := s.tasks.eraseIdx i, created := true
      table := removeCandidates s.table s.unmanaged } where
  clear := fun _ hn => Or.inl (get_removeCandidates.1 hn)
  range := fun r hr => h.range r (mem_removeCandidates hr)
  working := by
    intro c hc
    rw [show State.cleaning _ = s.cleaning from rfl, hcleaning] at hc
    cases hc
  created := nofun

/-- **STEP (add)**, of a node that may be there. -/
theorem inv_add {s : State Node} (h : Inv s) (hcleaning : s.cleaning = none)
    (hcreated : s.created = true) {c : Candidate Node}
    (hc : c.proposal ∉ s.unmanaged ∨ s.Awaits c.proposal) :
    Inv { s with table := addCandidate s.table c } := by
  refine h.changed hcleaning hcreated ?_ ?_
  · intro r hr
    rcases mem_addCandidate hr with hr | rfl
    · exact h.range r hr
    · exact zero_inRange _ _
  · intro n hn hnone hawaits
    have hne : n ≠ Row.key ⟨c.proposal, c.patron, 0⟩ := by
      rintro rfl
      exact hc.elim (fun hnot => hnot hn) hawaits
    exact (UniqueTable.Table.get_insertOrIgnore_ne s.table _ hne).trans hnone

theorem inv_runTask {s s' : State Node} (h : Inv s) (hcleaning : s.cleaning = none) {i : ℕ}
    {t : Task Node} (ht : s.tasks[i]? = some t)
    (htimely : ∀ c, t = .add c → c.proposal ∉ s.unmanaged ∨ s.Awaits c.proposal)
    (hrun : State.runTask { s with tasks := s.tasks.eraseIdx i } t = some s') : Inv s' := by
  cases t with
  | initTable =>
      cases hrun
      exact inv_initTable h hcleaning i
  | check c m => cases hrun
  | evict nodes => cases hrun
  | add c =>
      have herased := inv_eraseIdx h ht (fun _ => id)
      unfold State.runTask at hrun
      cases hrun
      split
      · rename_i hcreated
        refine inv_add herased hcleaning hcreated ?_
        exact (htimely c rfl).imp id (fun hawaits => hawaits.eraseIdx ht id)
      · exact herased
  | remove ns =>
      unfold State.runTask at hrun
      cases hrun
      split
      · exact inv_remove h hcleaning ht
      · rename_i hcreated
        -- there are no rows yet
        have hempty := h.created (Bool.eq_false_iff.mpr hcreated)
        refine ⟨fun n _ => Or.inl ?_, h.range, h.working, h.created⟩
        rw [UniqueTable.Table.get_eq_none_iff]
        intro r hr
        rw [show State.table _ = s.table from rfl, hempty] at hr
        cases hr
  | updateScore n success =>
      have herased := inv_eraseIdx h ht (fun _ => id)
      unfold State.runTask at hrun
      cases hrun
      split
      · rename_i hcreated
        refine herased.changed hcleaning hcreated (inRange_updateScore h.range) ?_
        intro m hm hnone _
        refine get_eq_none_of_rows hnone (fun r hr => ?_)
        obtain ⟨r', hr', hprop, -⟩ := mem_updateScore hr
        exact ⟨r', hr', hprop⟩
      · exact herased
  | cleanUp =>
      have herased := inv_eraseIdx h ht (fun _ => id)
      unfold State.runTask at hrun
      cases hrun
      split
      · refine ⟨herased.clear, h.range, ?_, h.created⟩
        rintro c ⟨⟩ r hr
        exact hr
      · exact herased
  | hourly =>
      have herased := inv_eraseIdx h ht (fun _ => id)
      unfold State.runTask at hrun
      cases hrun
      split
      · exact inv_start herased _
      · exact herased

/-- The table that the janitor commits has no other rows. -/
theorem inv_commit {s : State Node} (h : Inv s) {c : Cleaning Node} (hc : s.cleaning = some c) :
    Inv { s with table := c.work, cleaning := none } where
  clear := by
    intro n hn
    exact (h.clear n hn).imp (fun hnone => get_eq_none_of_sub hnone (h.working c hc)) id
  range := fun r hr => h.range r (h.working c hc r hr)
  working := nofun
  created := by
    intro hnot
    exact List.eq_nil_iff_forall_not_mem.mpr (fun r hr => by
      have hmem := h.working c hc r hr
      rw [h.created hnot] at hmem
      cases hmem)

/-- **STEP**. -/
theorem inv_next {s s' : State Node} {e : Event Node} (h : Inv s) (htimely : Timely s e)
    (hs : s.next e = some s') : Inv s' := by
  cases e with
  | amountSettings minChannel =>
      cases hs
      exact h.idle rfl rfl (fun _ hc => hc) (fun _ hn => Or.inr ⟨hn, id⟩)
  | init offline =>
      obtain ⟨-, heq⟩ := Option.ite_none_left_eq_some.mp hs
      cases heq
      -- whatever is unmanaged now is removed with the table's creation
      exact h.idle rfl rfl (fun _ hc => hc) (fun _ _ => Or.inl (awaits_start True.intro))
  | unmanage n =>
      unfold State.next at hs
      cases hs
      split
      · refine h.idle rfl rfl (fun _ hc => hc) (fun m hm => ?_)
        rcases List.mem_insert_iff.mp hm with rfl | hm
        · exact Or.inl (awaits_start (List.mem_singleton_self m))
        · exact Or.inr ⟨hm, fun hawaits => hawaits.start _⟩
      · rename_i hdb
        exact h.idle rfl rfl (fun _ hc => hc) (fun _ _ => Or.inl (Or.inl (Bool.eq_false_iff.mpr hdb)))
  | manage n =>
      obtain ⟨-, heq⟩ := Option.ite_none_right_eq_some.mp hs
      cases heq
      exact h.idle rfl rfl (fun _ hc => hc)
        (fun _ hm => Or.inr ⟨List.mem_of_mem_filter hm, id⟩)
  | propose c =>
      unfold State.next at hs
      cases hs
      split
      · exact h
      · exact inv_start h _
  | listpeersAnalyzed connected disconnected =>
      unfold State.next at hs
      cases hs
      split
      · exact inv_start h _
      · exact h
  | channelCreateResult n =>
      unfold State.next at hs
      cases hs
      split
      · exact inv_start h _
      · exact h
  | report n success =>
      obtain ⟨-, heq⟩ := Option.ite_none_right_eq_some.mp hs
      cases heq
      exact inv_start h _
  | timerTwiceDaily =>
      unfold State.next at hs
      cases hs
      split
      · exact inv_start h _
      · exact h
  | timerRandomHourly =>
      replace hs : (if s.offline = true then some s
        else if s.db = true then some (s.start .hourly) else none) = some s' := hs
      split at hs
      · cases hs
        exact h
      · obtain ⟨-, heq⟩ := Option.ite_none_right_eq_some.mp hs
        cases heq
        exact inv_start h _
  | dowser i amount =>
      simp only [State.next] at hs
      split at hs
      · rename_i c minChannel ht
        have herased := inv_eraseIdx h ht (fun _ => id)
        cases hs
        split
        · exact herased
        · exact inv_start herased _
      · cases hs
  | victim i n =>
      simp only [State.next] at hs
      split at hs
      · rename_i nodes ht
        obtain ⟨-, heq⟩ := Option.ite_none_right_eq_some.mp hs
        cases heq
        exact inv_start (inv_eraseIdx h ht (fun _ => id)) _
      · cases hs
  | fail i =>
      simp only [State.next] at hs
      split at hs
      · rename_i c minChannel ht
        cases hs
        exact inv_eraseIdx h ht (fun _ => id)
      · rename_i nodes ht
        cases hs
        exact inv_eraseIdx h ht (fun _ => id)
      · cases hs
  | transact i =>
      obtain ⟨⟨-, hfree⟩, heq⟩ := Option.ite_none_right_eq_some.mp hs
      obtain ⟨t, ht, hrun⟩ := Option.bind_eq_some_iff.mp heq
      refine inv_runTask h (Option.isNone_iff_eq_none.mp hfree) ht ?_ hrun
      rintro c rfl
      refine htimely c ?_
      simp only [State.adds, ht]
      rfl
  | cleaned amount =>
      simp only [State.next] at hs
      split at hs
      · rename_i minChannel work hc
        cases hs
        refine ⟨h.clear, h.range, ?_, h.created⟩
        rintro c ⟨⟩ r hr
        exact h.working _ hc r (mem_removeCandidates hr)
      · cases hs
  | commit =>
      simp only [State.next] at hs
      split at hs
      · rename_i minChannel work hc
        cases hs
        exact inv_commit h hc
      · cases hs
  | rollback =>
      obtain ⟨-, heq⟩ := Option.ite_none_right_eq_some.mp hs
      cases heq
      exact h.idle rfl rfl nofun (fun _ hn => Or.inr ⟨hn, id⟩)
  | restart =>
      cases hs
      exact ⟨nofun, h.range, nofun, h.created⟩

/-- **RUN**. -/
theorem inv_run {es : List (Event Node)} {s : State Node} {tr : List Empty}
    (htimely : Machine.Along step Timely State.init es)
    (hrun : Machine.run step State.init es = some (s, tr)) : Inv s := by
  refine Machine.run_invariant (I := fun _ _ s => Inv s) inv_init ?_ htimely hrun
  intro _ _ s e s' out h ht hs
  obtain ⟨s₁, hnext, heq⟩ := Option.map_eq_some_iff.mp hs
  obtain ⟨rfl, -⟩ := Prod.ext_iff.mp heq
  exact inv_next h ht hnext

/-! ## The table at rest -/

omit [DecidableEq Node] in
/-- `Init` came, and nothing is being processed. -/
def State.Quiet (s : State Node) : Prop := s.db = true ∧ s.tasks = [] ∧ s.cleaning = none

/-- What the table should be like. -/
structure Sound (s : State Node) : Prop where
  managed : ∀ r ∈ s.table.rows, r.proposal ∉ s.unmanaged
  once    : (s.table.rows.map Row.proposal).Nodup
  range   : ∀ r ∈ s.table.rows, minScore ≤ r.score ∧ r.score ≤ maxScore

/-- **HEADLINE**: in every run that puts in no node that is unmanaged with nothing
    left to remove it, the table at rest is sound. -/
theorem proposals_sound {es : List (Event Node)} {s : State Node} {tr : List Empty}
    (htimely : Machine.Along step Timely State.init es)
    (hrun : Machine.run step State.init es = some (s, tr)) (hquiet : s.Quiet) : Sound s := by
  have h := inv_run htimely hrun
  obtain ⟨hdb, htasks, -⟩ := hquiet
  refine ⟨?_, s.table.nodup, h.range⟩
  intro r hr hmem
  rcases h.clear r.proposal hmem with hnone | hawaits
  · exact (UniqueTable.Table.get_eq_none_iff _ _).mp hnone r hr rfl
  · rcases hawaits with hno | ⟨t, ht, -⟩
    · rw [hdb] at hno
      cases hno
    · rw [htasks] at ht
      cases ht

end

/-- Node 1 is proposed, then unmanaged, and put in after that. -/
def staleRun : List (Event ℕ) :=
  [.init false, .transact 0, .propose ⟨1, 2⟩, .unmanage 1, .transact 1, .dowser 0 5, .transact 0]

/-- What can be seen of a state. -/
def State.view (s : State ℕ) : Bool × Bool × List ℕ × List (Row ℕ) :=
  (s.db, s.tasks.isEmpty && s.cleaning.isNone, s.unmanaged, s.table.rows)

/-- **COUNTEREXAMPLE**: an unmanaged node in the table at rest. -/
theorem stale_proposal :
    ¬ ∀ (es : List (Event ℕ)) (s : State ℕ) (tr : List Empty),
      Machine.run step State.init es = some (s, tr) → s.Quiet → Sound s := by
  intro h
  have hview : (Machine.run step State.init staleRun).map (fun p => p.1.view)
      = some (true, true, [1], [⟨1, 2, 0⟩]) := by
    decide
  obtain ⟨⟨s, tr⟩, hrun, hs⟩ := Option.map_eq_some_iff.mp hview
  simp only [State.view, Prod.mk.injEq, Bool.and_eq_true, List.isEmpty_iff, Option.isNone_iff_eq_none]
    at hs
  obtain ⟨hdb, ⟨htasks, hcleaning⟩, hunmanaged, hrows⟩ := hs
  refine (h staleRun s tr hrun ⟨hdb, htasks, hcleaning⟩).managed ⟨1, 2, 0⟩ ?_ ?_
  · rw [hrows]
    exact List.mem_singleton_self _
  · rw [hunmanaged]
    exact List.mem_singleton_self _

/-- The removal comes after the insertion; later two more candidates, of which one
    is evaluated and the other one cleaned up. -/
def timelyRun : List (Event ℕ) :=
  [.unmanage 7, .init false, .transact 0, .propose ⟨1, 2⟩, .unmanage 1, .dowser 0 5, .transact 1,
    .transact 0, .propose ⟨3, 2⟩, .propose ⟨4, 2⟩, .propose ⟨7, 2⟩, .dowser 0 5, .dowser 0 5,
    .transact 0, .transact 0, .report 3 true, .transact 0, .amountSettings 8, .timerTwiceDaily,
    .transact 0, .cleaned (fun n => 2 * n), .commit]

theorem proposals_sound_timelyRun :
    ∃ s tr, Machine.run step State.init timelyRun = some (s, tr) ∧ s.Quiet ∧ Sound s
      ∧ s.table.rows = [⟨4, 2, 0⟩] := by
  have hview : (Machine.run step State.init timelyRun).map (fun p => p.1.view)
      = some (true, true, [1, 7], [⟨4, 2, 0⟩]) := by
    decide
  have htimely : Machine.Along step Timely State.init timelyRun := by
    decide
  obtain ⟨⟨s, tr⟩, hrun, hs⟩ := Option.map_eq_some_iff.mp hview
  simp only [State.view, Prod.mk.injEq, Bool.and_eq_true, List.isEmpty_iff, Option.isNone_iff_eq_none]
    at hs
  obtain ⟨hdb, ⟨htasks, hcleaning⟩, -, hrows⟩ := hs
  have hquiet : s.Quiet := ⟨hdb, htasks, hcleaning⟩
  exact ⟨s, tr, hrun, hquiet, proposals_sound htimely hrun hquiet, hrows⟩

end ChannelCandidates
