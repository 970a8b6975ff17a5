import Clboss.DoubleProofs
import Clboss.MachineProofs
import Clboss.UniqueTableProofs

/-! # `Boss::Mod::PeerComplaintsDesk` — closing with cause

    Twice a day the desk solicits complaints about peers and records them;
    every ten minutes a CHECK counts them and starts one greenthread for each
    peer to be closed.  That greenthread closes at once if it sees the peer
    connected; else it notes since when it has been waiting, and closes anyway
    when that was three days ago and onchain fees are low.  A check that does
    not find the peer over the threshold deletes the note.

    The clock and every answer come from outside.  Each greenthread carries the
    number of the check that started it, which the code has no need for; with
    it `Justified` can say what led to a close. -/

namespace PeerComplaintsDesk

open UniqueTable Machine

variable {N : Type} [DecidableEq N]

/-! ## The database -/

/-- `max_complaint_age`. -/
def maxComplaintAge : Double := .finite (7 * 24 * 60 * 60)

/-- `max_closed_complaint_age`. -/
def maxClosedComplaintAge : Double := .finite (90 * 24 * 60 * 60)

/-- `max_acceptable_complaints`. -/
def maxAcceptableComplaints : Nat := 5

/-- `close_patience`. -/
def closePatience : Double := .finite (3 * 24 * 60 * 60)

/-- A row of `"PeerComplaintsDesk_complaints"`; an ignored one has its reason. -/
structure Complaint (N : Type) where
  node          : N
  time          : Double
  complaint     : String
  ignoredreason : Option String

/-- A row of `"PeerComplaintsDesk_closedcomplaints"`. -/
structure ClosedComplaint (N : Type) where
  node       : N
  time       : Double
  closedtime : Double
  complaint  : String

/-- A row of `"PeerComplaintsDesk_closepending"`. -/
structure ClosePending (N : Type) where
  node  : N
  since : Double

/-- The four tables.  `peerdbid` only joins them, so the rows hold the node. -/
structure Db (N : Type) where
  peers            : List N
  complaints       : List (Complaint N)
  closedcomplaints : List (ClosedComplaint N)
  closepending     : Table (ClosePending.node (N := N))

/-- The tables of a first start. -/
def Db.empty : Db N := ⟨[], [], [], Table.empty⟩

/-- `get_peerdbid` adds an unknown peer. -/
def Db.getPeerdbid (db : Db N) (peer : N) : Db N :=
  if peer ∈ db.peers then db else { db with peers := db.peers ++ [peer] }

/-- `add_complaint`, and with a reason `add_ignored_complaint`. -/
def Db.addComplaint (db : Db N) (now : Double) (peer : N) (complaint : String)
    (ignoredreason : Option String) : Db N :=
  { db.getPeerdbid peer with
    complaints := db.complaints ++ [⟨peer, now, complaint, ignoredreason⟩] }

/-- What `check_complaints` counts for a peer. -/
def Db.checkComplaints (db : Db N) (peer : N) : Nat :=
  db.complaints.countP (fun c => c.node = peer ∧ c.ignoredreason = none)

/-- `channel_closed`. -/
def Db.channelClosed (db : Db N) (now : Double) (peer : N) : Db N :=
  { db.getPeerdbid peer with
    closedcomplaints := db.closedcomplaints
      ++ (db.complaints.filter (fun c => c.node = peer ∧ c.ignoredreason = none)).map
        (fun c => ⟨c.node, c.time, now, c.complaint⟩)
    complaints := db.complaints.filter (fun c => c.node ≠ peer) }

/-- `note_close_pending`. -/
def Db.noteClosePending (db : Db N) (peer : N) (since : Double) : Db N :=
  { db.getPeerdbid peer with closepending := db.closepending.insertOrIgnore ⟨peer, since⟩ }

/-- `clear_close_pending`. -/
def Db.clearClosePending (db : Db N) (peer : N) : Db N :=
  { db with closepending := db.closepending.delete peer }

/-- `cleanup`: old complaints go, and peers without any, with their notes. -/
def Db.cleanup (db : Db N) (now : Double) : Db N :=
  let complaints := db.complaints.filter (fun c => !c.time.lt (now.sub maxComplaintAge))
  let closed := db.closedcomplaints.filter (fun c => !c.time.lt (now.sub maxClosedComplaintAge))
  let gone := db.peers.filter (fun p =>
    p ∉ complaints.map Complaint.node ∧ p ∉ closed.map ClosedComplaint.node)
  { peers            := db.peers.filter (fun p => p ∉ gone)
    complaints       := complaints
    closedcomplaints := closed
    closepending     := db.closepending.deleteWhere (fun r => r.node ∈ gone) }

/-! ## The greenthreads -/

/-- A greenthread, by what it awaits. -/
inductive Task (N : Type) where
  /-- `solicit`, from its exemptions to its transaction -/
  | exemptions
  | metrics
  | soliciting
  | recording
  /-- `cleanup` and `check_close` waiting for their transaction -/
  | cleanup
  | check
  /-- `close_channel`, started by a check: its listing, either transaction, and
      the log line before `do_close` -/
  | listing (check : Nat) (peer : N)
  | clearing (check : Nat) (peer : N)
  | noting (check : Nat) (peer : N)
  | givingUp (check : Nat) (peer : N)
  /-- `on_channel_destroy` -/
  | destroy (peer : N)

/-- What is shown: the checks, what led a greenthread to close, and the `close`
    commands. -/
inductive Out (N : Type) where
  | checked (check : Nat) (enabled : Bool) (toClose : List N)
  | seenConnected (check : Nat) (peer : N)
  | noted (peer : N) (since : Double)
  | gaveUp (check : Nat) (peer : N) (since now : Double)
  | close (check : Nat) (peer : N)
deriving DecidableEq

/-- The members, and the number of checks so far. -/
structure State (N : Type) where
  db                : Db N
  enabled           : Bool
  rpc               : Bool
  soliciting        : Bool
  feesLow           : Bool
  exemptedNodes     : List (N × String)
  pendingComplaints : List (N × String)
  unmanaged         : List N
  tasks             : List (Task N)
  checks            : Nat

/-- A start on the given database. -/
def boot (db : Db N) (checks : Nat) : State N :=
  ⟨db, false, false, false, false, [], [], [], [], checks⟩

/-- `Boss::concurrent`. -/
def State.spawn (s : State N) (t : Task N) : State N := { s with tasks := s.tasks ++ [t] }

/-! ## Soliciting -/

/-- `solicit`, up to its first await. -/
def solicit (s : State N) : State N :=
  if s.soliciting then s
  else { s with soliciting := true, pendingComplaints := [] }.spawn .exemptions

/-- `RaisePeerComplaint`: several complaints about a peer are merged. -/
def raisePeerComplaint (s : State N) (peer : N) (complaint : String) : State N :=
  if !s.soliciting then s
  else if peer ∈ s.pendingComplaints.map Prod.fst then
    { s with pendingComplaints := s.pendingComplaints.map (fun c =>
        if c.1 = peer then (c.1, c.2 ++ "; " ++ complaint) else c) }
  else { s with pendingComplaints := s.pendingComplaints ++ [(peer, complaint)] }

/-- The transaction of `solicit`. -/
def record (s : State N) (now : Double) : State N :=
  { s with
    db := s.pendingComplaints.foldl (fun db c =>
      db.addComplaint now c.1 c.2 (s.exemptedNodes.lookup c.1)) s.db
    soliciting := false
    exemptedNodes := []
    pendingComplaints := [] }

/-! ## Closing -/

/-- `to_close`. -/
def toClose (s : State N) : List N :=
  ((s.db.complaints.filter (fun c => c.ignoredreason = none)).map Complaint.node).dedup.filter
    (fun p => p ∉ s.unmanaged ∧ maxAcceptableComplaints ≤ s.db.checkComplaints p)

/-- The transaction of `check_close`. -/
def checkClose (s : State N) : State N × List (Out N) :=
  let crossed := toClose s
  ({ s with
    db := { s.db with closepending := s.db.closepending.deleteWhere (fun r => r.node ∉ crossed) }
    tasks := s.tasks ++ (if s.enabled then crossed.map (.listing s.checks) else [])
    checks := s.checks + 1 }, [.checked s.checks s.enabled crossed])

/-- The answer to `listpeerchannels`: the `peer_connected` of its channels, each
    absent if it is not there or no boolean. -/
def connected (channels : Option (List (Option Bool))) : Bool :=
  match channels with
  | none    => false
  | some cs => some true ∈ cs

/-- The transaction for an offline peer, and what follows it at once. -/
def waitForPeer (s : State N) (now : Double) (check : Nat) (peer : N) : State N × List (Out N) :=
  let db := s.db.noteClosePending peer now
  let noted := if s.db.closepending.get peer = none then [.noted peer now] else []
  match db.closepending.get peer with
  | none     => ({ s with db := db }, noted)
  | some row =>
      if (now.sub row.since).lt closePatience then ({ s with db := db }, noted)
      else if !s.feesLow then ({ s with db := db }, noted)
      else ({ s with db := db }.spawn (.givingUp check peer),
        noted ++ [.gaveUp check peer row.since now])

/-! ## The machine -/

/-- What can happen next. -/
inductive Event (N : Type) where
  /-- messages; a rejected option value is `none` -/
  | option (value : Option Bool)
  | init
  | onchainFee (low : Bool)
  | timerTwiceDaily
  | timer10Minutes
  | raisePeerComplaint (peer : N) (complaint : String)
  | channelDestruction (peer : N)
  | unmanage (peer : N)
  | manage (peer : N)
  /-- a greenthread gets the answer it awaits, at the given time -/
  | exempted (n : Nat) (nodes : List (N × String))
  | listed (n : Nat) (channels : Option (List (Option Bool)))
  | task (n : Nat) (now : Double)
  /-- what a greenthread awaits fails -/
  | fails (n : Nat)
  /-- the process ends and is started again on the same database -/
  | restart

/-- Resume a greenthread (already taken out of the pool). -/
def stepTask (s : State N) (now : Double) : Task N → Option (State N × List (Out N))
  | .exemptions           => none
  | .metrics              => some (s.spawn .soliciting, [])
  | .soliciting           => some (s.spawn .recording, [])
  | .recording            => some (record s now, [])
  | .cleanup              => some ({ s with db := s.db.cleanup now }, [])
  | .check                => some (checkClose s)
  | .listing _ _          => none
  | .clearing check peer  => some ({ s with db := s.db.clearClosePending peer }, [.close check peer])
  | .noting check peer    => some (waitForPeer s now check peer)
  | .givingUp check peer  => some (s, [.close check peer])
  | .destroy peer         =>
      some ({ s with db := (s.db.clearClosePending peer).channelClosed now peer }, [])

/-- The answer to `get_exemptions`. -/
def onExempted (s : State N) (nodes : List (N × String)) : Task N → Option (State N × List (Out N))
  | .exemptions => some ({ s with exemptedNodes := nodes }.spawn .metrics, [])
  | _           => none

/-- The answer to `listpeerchannels`. -/
def onListed (s : State N) (channels : Option (List (Option Bool))) :
    Task N → Option (State N × List (Out N))
  | .listing check peer =>
      if connected channels then some (s.spawn (.clearing check peer), [.seenConnected check peer])
      else some (s.spawn (.noting check peer), [])
  | _ => none

/-- One step. -/
def step (s : State N) : Event N → Option (State N × List (Out N))
  | .option none => some (s, [])
  | .option (some value) => some ({ s with enabled := value }, [])
  | .init => some ({ s with rpc := true }, [])
  | .onchainFee low => some ({ s with feesLow := low }, [])
  | .timerTwiceDaily => some ((solicit s).spawn .cleanup, [])
  | .timer10Minutes => some (if s.rpc then s.spawn .check else s, [])
  | .raisePeerComplaint peer complaint => some (raisePeerComplaint s peer complaint, [])
  | .channelDestruction peer => some (s.spawn (.destroy peer), [])
  | .unmanage peer => some ({ s with unmanaged := peer :: s.unmanaged }, [])
  | .manage peer => some ({ s with unmanaged := s.unmanaged.filter (· ≠ peer) }, [])
  | .exempted n nodes =>
      (s.tasks[n]?).bind (onExempted { s with tasks := s.tasks.eraseIdx n } nodes)
  | .listed n channels =>
      (s.tasks[n]?).bind (onListed { s with tasks := s.tasks.eraseIdx n } channels)
  | .task n now => (s.tasks[n]?).bind (stepTask { s with tasks := s.tasks.eraseIdx n } now)
  | .fails n => (s.tasks[n]?).map (fun _ => ({ s with tasks := s.tasks.eraseIdx n }, []))
  | .restart => some (boot s.db s.checks, [])

/-- Runs from the first start. -/
def run (es : List (Event N)) : Option (State N × List (Out N)) :=
  Machine.run step (boot Db.empty 0) es

/-! ## What leads to a close -/

/-- A check that did not find the peer over the threshold. -/
def Below (peer : N) : Out N → Prop
  | .checked _ _ crossed => peer ∉ crossed
  | _                 => False

/-- The outputs of checks. -/
def Out.isCheck : Out N → Bool
  | .checked _ _ _ => true
  | _              => false

omit [DecidableEq N] in
theorem Below.isCheck {peer : N} {o : Out N} (h : Below peer o) : o.isCheck = true := by
  cases o with
  | checked k enabled crossed => rfl
  | _ => cases h

/-- The check found auto-closing enabled and the peer to be closed. -/
def Led (tr : List (Out N)) (check : Nat) (peer : N) : Prop :=
  ∃ crossed, .checked check true crossed ∈ tr ∧ peer ∈ crossed

/-- Every check since the peer was noted found it over the threshold, and that
    was at least the patience ago when it was given up. -/
def Waited (tr : List (Out N)) (check : Nat) (peer : N) : Prop :=
  ∃ tr₁ tr₂ since now, tr = tr₁ ++ .gaveUp check peer since now :: tr₂
    ∧ (now.sub since).lt closePatience = false ∧ Since (· = .noted peer since) (Below peer) tr₁

/-- The check led to it, and the peer was seen connected or waited for. -/
def Justified (tr : List (Out N)) (check : Nat) (peer : N) : Prop :=
  Led tr check peer ∧ (.seenConnected check peer ∈ tr ∨ Waited tr check peer)

/-- What a greenthread of `close_channel` has behind it. -/
def Task.Grounded (tr : List (Out N)) : Task N → Prop
  | .listing k peer  => Led tr k peer
  | .noting k peer   => Led tr k peer
  | .clearing k peer => Justified tr k peer
  | .givingUp k peer => Justified tr k peer
  | _                => True

/-- The check and peer a greenthread is about. -/
def Task.aim : Task N → Option (Nat × N)
  | .listing k peer  => some (k, peer)
  | .noting k peer   => some (k, peer)
  | .clearing k peer => some (k, peer)
  | .givingUp k peer => some (k, peer)
  | _                => none

/-- The check and peer of a `close` command. -/
def Out.aim : Out N → Option (Nat × N)
  | .close check peer => some (check, peer)
  | _                 => none

/-- Greenthreads and commands for one check and peer. -/
def aims (a : Nat × N) (tasks : List (Task N)) (tr : List (Out N)) : Nat :=
  (tasks.filterMap Task.aim).count a + (tr.filterMap Out.aim).count a

section Growing

variable {tr out : List (Out N)} {check : Nat} {peer : N}

omit [DecidableEq N] in
theorem Led.append (h : Led tr check peer) : Led (tr ++ out) check peer := by
  obtain ⟨crossed, hmem, hp⟩ := h
  exact ⟨crossed, List.mem_append_left _ hmem, hp⟩

omit [DecidableEq N] in
theorem Waited.append (h : Waited tr check peer) : Waited (tr ++ out) check peer := by
  obtain ⟨tr₁, tr₂, since, now, rfl, hw, hs⟩ := h
  exact ⟨tr₁, tr₂ ++ out, since, now, by rw [List.append_assoc, List.cons_append], hw, hs⟩

omit [DecidableEq N] in
theorem Justified.append (h : Justified tr check peer) : Justified (tr ++ out) check peer := by
  refine ⟨h.1.append, ?_⟩
  rcases h.2 with hc | hw
  · exact Or.inl (List.mem_append_left _ hc)
  · exact Or.inr hw.append

omit [DecidableEq N] in
theorem Task.Grounded.append {t : Task N} (h : t.Grounded tr) : t.Grounded (tr ++ out) := by
  cases t with
  | listing k p => exact Led.append h
  | noting k p => exact Led.append h
  | clearing k p => exact Justified.append h
  | givingUp k p => exact Justified.append h
  | _ => trivial

end Growing

/-- The invariant: whatever may still close is grounded, once for each check and
    peer, and every note is as old as the last check that found the peer below. -/
structure Sound (tr : List (Out N)) (s : State N) : Prop where
  numbered : ∀ a, aims a s.tasks tr ≠ 0 → a.1 < s.checks
  once     : ∀ a, aims a s.tasks tr ≤ 1
  counted  : s.checks = tr.countP Out.isCheck
  grounded : ∀ t ∈ s.tasks, t.Grounded tr
  patient  : ∀ row ∈ s.db.closepending.rows, Since (· = .noted row.node row.since)
    (Below row.node) tr

/-- Greenthreads go and come, about nothing new, and no check is made. -/
theorem Sound.move {tr out : List (Out N)} {s s' : State N} {rest ts : List (Task N)}
    (h : Sound tr s) (hchecks : s'.checks = s.checks) (htasks : s'.tasks = rest ++ ts)
    (hrest : ∀ t ∈ rest, t ∈ s.tasks)
    (haims : ∀ a, aims a (rest ++ ts) out ≤ (s.tasks.filterMap Task.aim).count a)
    (hground : ∀ t ∈ ts, t.Grounded (tr ++ out))
    (hout : ∀ o ∈ out, o.isCheck = false)
    (hrows : ∀ row ∈ s'.db.closepending.rows, row ∈ s.db.closepending.rows
      ∨ Since (· = .noted row.node row.since) (Below row.node) (tr ++ out)) :
    Sound (tr ++ out) s' := by
  have hle : ∀ a, aims a s'.tasks (tr ++ out) ≤ aims a s.tasks tr := by
    intro a
    have := haims a
    unfold aims at this ⊢
    rw [htasks, List.filterMap_append (f := Out.aim), List.count_append]
    omega
  have hnone : out.countP Out.isCheck = 0 := by
    refine List.countP_eq_zero.mpr ?_
    intro o ho
    rw [hout o ho]
    exact Bool.false_ne_true
  refine ⟨?_, ?_, ?_, ?_, ?_⟩
  · intro a ha
    rw [hchecks]
    refine h.numbered a ?_
    have := hle a
    omega
  · intro a
    exact Nat.le_trans (hle a) (h.once a)
  · rw [hchecks, List.countP_append, hnone]
    exact h.counted
  · intro t ht
    rw [htasks] at ht
    rcases List.mem_append.mp ht with ht | ht
    · exact (h.grounded t (hrest t ht)).append
    · exact hground t ht
  · intro row hrow
    rcases hrows row hrow with hold | hnew
    · refine (h.patient row hold).append ?_
      intro o ho hb
      exact absurd hb.isCheck (by rw [hout o ho]; exact Bool.false_ne_true)
    · exact hnew

/-! ## The greenthreads keep it -/

omit [DecidableEq N] in
theorem Task.grounded_of_aim {t : Task N} (h : t.aim = none) (tr : List (Out N)) :
    t.Grounded tr := by
  cases t with
  | listing k p => cases h
  | noting k p => cases h
  | clearing k p => cases h
  | givingUp k p => cases h
  | _ => trivial

/-- A message starts greenthreads that are about no close, and shows nothing. -/
theorem Sound.told {tr : List (Out N)} {s s' : State N} (ts : List (Task N)) (h : Sound tr s)
    (hchecks : s'.checks = s.checks) (htasks : s'.tasks = s.tasks ++ ts)
    (hts : ∀ t ∈ ts, t.aim = none) (hdb : s'.db = s.db) : Sound tr s' := by
  have haim : ts.filterMap Task.aim = [] := List.filterMap_eq_nil_iff.mpr hts
  rw [← List.append_nil tr]
  refine h.move hchecks htasks (fun t ht => ht) (fun a => ?_)
    (fun t ht => Task.grounded_of_aim (hts t ht) _) (fun o ho => by cases ho)
    (fun row hrow => by rw [hdb] at hrow; exact Or.inl hrow)
  · unfold aims
    rw [List.filterMap_append, haim, List.append_nil]
    exact Nat.le_refl _

/-- The greenthread that is resumed, or goes on as others, is about the same. -/
theorem Sound.resume {tr out : List (Out N)} {s s' : State N} {n : Nat} {t : Task N}
    (ts : List (Task N)) (h : Sound tr s) (ht : s.tasks[n]? = some t)
    (hchecks : s'.checks = s.checks) (htasks : s'.tasks = s.tasks.eraseIdx n ++ ts)
    (haim : (ts.filterMap Task.aim ++ out.filterMap Out.aim).Sublist t.aim.toList)
    (hground : t.Grounded tr → ∀ t' ∈ ts, t'.Grounded (tr ++ out))
    (hout : ∀ o ∈ out, o.isCheck = false)
    (hrows : ∀ row ∈ s'.db.closepending.rows, row ∈ s.db.closepending.rows
      ∨ Since (· = .noted row.node row.since) (Below row.node) (tr ++ out)) :
    Sound (tr ++ out) s' := by
  refine h.move hchecks htasks (fun t' ht' => List.mem_of_mem_eraseIdx ht') ?_
    (hground (h.grounded t (List.mem_of_getElem? ht))) hout hrows
  intro a
  have hperm := ((pool_perm ht).filterMap Task.aim).count_eq a
  have hsub := haim.count_le a
  have hcons : ((t :: s.tasks.eraseIdx n).filterMap Task.aim).count a
      = t.aim.toList.count a + ((s.tasks.eraseIdx n).filterMap Task.aim).count a := by
    cases hta : t.aim with
    | none => rw [List.filterMap_cons_none hta]; simp
    | some b => rw [List.filterMap_cons_some hta, List.count_cons]; simp [List.count_cons]; omega
  unfold aims
  rw [List.filterMap_append, List.count_append, hperm, hcons]
  rw [List.count_append] at hsub
  omega

omit [DecidableEq N] in
/-- A row that was there before is one a deletion left. -/
theorem mem_of_deleteWhere {t : Table (ClosePending.node (N := N))} {p : ClosePending N → Bool}
    {row : ClosePending N} (h : row ∈ (t.deleteWhere p).rows) : row ∈ t.rows :=
  (List.mem_filter.mp h).1

theorem mem_of_delete {t : Table (ClosePending.node (N := N))} {peer : N}
    {row : ClosePending N} (h : row ∈ (t.delete peer).rows) : row ∈ t.rows :=
  (List.mem_filter.mp h).1

theorem Db.getPeerdbid_closepending (db : Db N) (peer : N) :
    (db.getPeerdbid peer).closepending = db.closepending := by
  unfold Db.getPeerdbid
  split
  · rfl
  · rfl

/-- Recording complaints leaves the notes alone. -/
theorem record_closepending (s : State N) (now : Double) :
    (record s now).db.closepending = s.db.closepending := by
  show (s.pendingComplaints.foldl _ s.db).closepending = _
  generalize s.pendingComplaints = cs
  generalize s.db = db
  induction cs generalizing db with
  | nil => rfl
  | cons c cs ih =>
      rw [List.foldl_cons, ih]
      exact Db.getPeerdbid_closepending db c.1

omit [DecidableEq N] in
theorem solicit_frame (s : State N) : (solicit s).checks = s.checks ∧ (solicit s).db = s.db
    ∧ ∃ ts, (solicit s).tasks = s.tasks ++ ts ∧ ∀ t ∈ ts, t.aim = none := by
  unfold solicit
  split
  · exact ⟨rfl, rfl, [], (List.append_nil _).symm, fun t ht => by cases ht⟩
  · exact ⟨rfl, rfl, [.exemptions], rfl, fun t ht => List.mem_singleton.mp ht ▸ rfl⟩

theorem raisePeerComplaint_frame (s : State N) (peer : N) (complaint : String) :
    (raisePeerComplaint s peer complaint).checks = s.checks
      ∧ (raisePeerComplaint s peer complaint).db = s.db
      ∧ (raisePeerComplaint s peer complaint).tasks = s.tasks := by
  unfold raisePeerComplaint
  split
  · exact ⟨rfl, rfl, rfl⟩
  · split
    · exact ⟨rfl, rfl, rfl⟩
    · exact ⟨rfl, rfl, rfl⟩

/-- The note that is there after `note_close_pending`, and whether it is new. -/
theorem waitForPeer_cases (s : State N) (now : Double) (check : Nat) (peer : N) :
    ∃ row noted, (s.db.noteClosePending peer now).closepending.get peer = some row
      ∧ (noted = [] ∧ s.db.closepending.get peer = some row
        ∨ noted = [.noted peer now] ∧ row = ⟨peer, now⟩)
      ∧ ((waitForPeer s now check peer)
            = ({ s with db := s.db.noteClosePending peer now }, noted)
        ∨ s.feesLow = true ∧ (now.sub row.since).lt closePatience = false
          ∧ (waitForPeer s now check peer)
            = ({ s with db := s.db.noteClosePending peer now }.spawn (.givingUp check peer),
              noted ++ [.gaveUp check peer row.since now])) := by
  have hget : (s.db.noteClosePending peer now).closepending.get peer
      = some ((s.db.closepending.get peer).getD ⟨peer, now⟩) :=
    Table.get_insertOrIgnore_self s.db.closepending ⟨peer, now⟩
  refine ⟨_, if s.db.closepending.get peer = none then [.noted peer now] else [], hget, ?_, ?_⟩
  · cases hold : s.db.closepending.get peer with
    | none => exact Or.inr ⟨rfl, rfl⟩
    | some row => exact Or.inl ⟨rfl, rfl⟩
  · unfold waitForPeer
    simp only [hget]
    split
    · exact Or.inl rfl
    · rename_i hp
      split
      · exact Or.inl rfl
      · rename_i hf
        exact Or.inr ⟨by simpa using hf, by simpa using hp, rfl⟩

/-- Noting, deferring and giving up. -/
theorem Sound.wait {tr : List (Out N)} {s : State N} {n check : Nat} {peer : N} (now : Double)
    (h : Sound tr s) (ht : s.tasks[n]? = some (.noting check peer)) :
    Sound (tr ++ (waitForPeer { s with tasks := s.tasks.eraseIdx n } now check peer).2)
      (waitForPeer { s with tasks := s.tasks.eraseIdx n } now check peer).1 := by
  obtain ⟨row, noted, hget, hnoted, hcases⟩ :=
    waitForPeer_cases { s with tasks := s.tasks.eraseIdx n } now check peer
  have hnot : ∀ o ∈ noted, o.isCheck = false := by
    rcases hnoted with ⟨rfl, -⟩ | ⟨rfl, -⟩
    · intro o ho
      cases ho
    · intro o ho
      rw [List.mem_singleton.mp ho]
      rfl
  have haim : noted.filterMap Out.aim = [] := by
    rcases hnoted with ⟨rfl, -⟩ | ⟨rfl, -⟩
    · rfl
    · rfl
  -- the note is as old as the trace says
  have hsince : Since (· = .noted peer row.since) (Below peer) (tr ++ noted) := by
    rcases hnoted with ⟨rfl, hold⟩ | ⟨rfl, rfl⟩
    · have := h.patient row (Table.mem_of_get hold)
      rw [Table.key_of_get hold] at this
      rwa [List.append_nil]
    · exact ⟨tr, _, [], rfl, rfl, fun x hx => by cases hx⟩
  have hrows : ∀ out, (∀ o ∈ out, ¬ Below peer o) →
      ∀ r ∈ (s.db.noteClosePending peer now).closepending.rows, r ∈ s.db.closepending.rows
      ∨ Since (· = .noted r.node r.since) (Below r.node) (tr ++ (noted ++ out)) := by
    intro out hout r hr
    have hr' := Table.get_of_mem hr
    by_cases hp : r.node = peer
    · rw [hp] at hr'
      have heq : r = row := Option.some.inj (hr'.symm.trans hget)
      subst heq
      rw [hp, ← List.append_assoc]
      exact Or.inr (hsince.append hout)
    · have hne : (s.db.noteClosePending peer now).closepending.get r.node
          = s.db.closepending.get r.node :=
        Table.get_insertOrIgnore_ne s.db.closepending ⟨peer, now⟩ hp
      rw [hne] at hr'
      exact Or.inl (Table.mem_of_get hr')
  rcases hcases with heq | ⟨-, hpat, heq⟩
  · rw [heq]
    refine h.resume [] ht rfl (List.append_nil _).symm ?_ (fun _ t' ht' => by cases ht') hnot ?_
    · rw [haim]
      exact List.nil_sublist _
    · have := hrows [] (fun o ho => by cases ho)
      rwa [List.append_nil] at this
  · rw [heq]
    refine h.resume [.givingUp check peer] ht rfl rfl ?_ ?_ ?_ ?_
    · rw [List.filterMap_append, haim]
      exact List.Sublist.refl _
    · intro hled t' ht'
      rw [List.mem_singleton.mp ht']
      refine ⟨Led.append hled, Or.inr ?_⟩
      exact ⟨tr ++ noted, [], row.since, now, by rw [List.append_assoc], hpat, hsince⟩
    · intro o ho
      rcases List.mem_append.mp ho with ho | ho
      · exact hnot o ho
      · rw [List.mem_singleton.mp ho]
        rfl
    · refine hrows _ ?_
      intro o ho
      rw [List.mem_singleton.mp ho]
      exact id

/-- The greenthreads a check starts. -/
def started (s : State N) : List (Task N) :=
  if s.enabled then (toClose s).map (.listing s.checks) else []

theorem mem_started {s : State N} {t : Task N} (h : t ∈ started s) :
    ∃ p ∈ toClose s, s.enabled = true ∧ t = .listing s.checks p := by
  unfold started at h
  by_cases he : s.enabled
  · rw [if_pos he] at h
    obtain ⟨p, hp, rfl⟩ := List.mem_map.mp h
    exact ⟨p, hp, he, rfl⟩
  · rw [if_neg he] at h
    cases h

/-- They are about the check, and about each peer once. -/
theorem count_aim_started (s : State N) (a : Nat × N) :
    ((started s).filterMap Task.aim).count a ≤ (if a.1 = s.checks then 1 else 0) := by
  have hsub : ((started s).filterMap Task.aim).Sublist
      ((toClose s).map (fun p => (s.checks, p))) := by
    unfold started
    by_cases he : s.enabled
    · rw [if_pos he, List.filterMap_map,
        show (Task.aim ∘ Task.listing s.checks) = (fun p : N => some (s.checks, p)) from rfl,
        List.filterMap_eq_map']
    · rw [if_neg he]
      exact List.nil_sublist _
  have hle := hsub.count_le a
  have honce : ((toClose s).map (fun p => (s.checks, p))).Nodup :=
    ((List.nodup_dedup _).filter _).map (fun p q hpq => (Prod.mk.inj hpq).2)
  by_cases ha : a.1 = s.checks
  · rw [if_pos ha]
    exact Nat.le_trans hle (List.nodup_iff_count_le_one.mp honce a)
  · rw [if_neg ha]
    have hno : a ∉ (toClose s).map (fun p => (s.checks, p)) := by
      intro hmem
      obtain ⟨p, -, rfl⟩ := List.mem_map.mp hmem
      exact ha rfl
    rw [List.count_eq_zero_of_not_mem hno] at hle
    exact hle

/-- What is about to close after a check was before, or is about that check. -/
theorem aims_check (tr : List (Out N)) (s : State N) (n : Nat) (a : Nat × N) :
    aims a (s.tasks.eraseIdx n ++ started s) (tr ++ [.checked s.checks s.enabled (toClose s)])
      ≤ aims a s.tasks tr + (if a.1 = s.checks then 1 else 0) := by
  have hold : ((s.tasks.eraseIdx n).filterMap Task.aim).count a
      ≤ (s.tasks.filterMap Task.aim).count a :=
    ((List.eraseIdx_sublist ..).filterMap _).count_le a
  have hnew := count_aim_started s a
  unfold aims
  rw [List.filterMap_append, List.count_append, List.filterMap_append, List.count_append]
  show _ + _ + (_ + 0) ≤ _
  omega

/-- A check starts one greenthread for each peer it found. -/
theorem Sound.check {tr : List (Out N)} {s : State N} {n : Nat} (h : Sound tr s) :
    Sound (tr ++ (checkClose { s with tasks := s.tasks.eraseIdx n }).2)
      (checkClose { s with tasks := s.tasks.eraseIdx n }).1 := by
  refine ⟨?_, ?_, ?_, ?_, ?_⟩
  · intro a ha
    have hle := aims_check tr s n a
    show a.1 < s.checks + 1
    by_cases hc : a.1 = s.checks
    · omega
    · rw [if_neg hc] at hle
      have := h.numbered a (fun hz => ha (Nat.le_zero.mp (by rw [hz] at hle; exact hle)))
      omega
  · intro a
    have hle := aims_check tr s n a
    by_cases hc : a.1 = s.checks
    · -- nothing was about this check before
      have hz : aims a s.tasks tr = 0 := by
        by_contra hne
        exact absurd (h.numbered a hne) (by omega)
      rw [if_pos hc, hz] at hle
      exact hle
    · rw [if_neg hc] at hle
      exact Nat.le_trans hle (h.once a)
  · rw [List.countP_append]
    exact congrArg (· + 1) h.counted
  · intro t ht
    rcases List.mem_append.mp ht with ht | ht
    · exact (h.grounded t (List.mem_of_mem_eraseIdx ht)).append
    · obtain ⟨p, hp, he, rfl⟩ := mem_started (s := s) ht
      refine ⟨toClose s, List.mem_append_right _ ?_, hp⟩
      show _ ∈ [Out.checked s.checks s.enabled (toClose s)]
      rw [he]
      exact List.mem_singleton_self _
  · intro row hrow
    obtain ⟨hmem, hover⟩ := List.mem_filter.mp hrow
    refine (h.patient row hmem).append ?_
    intro o ho
    rw [List.mem_singleton.mp ho]
    intro hbelow
    have hin : row.node ∈ toClose { s with tasks := s.tasks.eraseIdx n } := by simpa using hover
    exact hbelow hin

/-! ## Steps and runs -/

theorem Sound.stepTask {tr out : List (Out N)} {s s' : State N} {n : Nat} {t : Task N}
    {now : Double} (h : Sound tr s) (ht : s.tasks[n]? = some t)
    (hs : stepTask { s with tasks := s.tasks.eraseIdx n } now t = some (s', out)) :
    Sound (tr ++ out) s' := by
  cases t with
  | exemptions => cases hs
  | listing k p => cases hs
  | metrics =>
      cases hs
      exact h.resume [.soliciting] ht rfl rfl (List.Sublist.refl _)
        (fun _ t' ht' => List.mem_singleton.mp ht' ▸ trivial) (fun o ho => by cases ho)
        (fun row hrow => Or.inl hrow)
  | soliciting =>
      cases hs
      exact h.resume [.recording] ht rfl rfl (List.Sublist.refl _)
        (fun _ t' ht' => List.mem_singleton.mp ht' ▸ trivial) (fun o ho => by cases ho)
        (fun row hrow => Or.inl hrow)
  | recording =>
      cases hs
      refine h.resume [] ht rfl (List.append_nil _).symm (List.Sublist.refl _)
        (fun _ t' ht' => by cases ht') (fun o ho => by cases ho) (fun row hrow => Or.inl ?_)
      rwa [record_closepending] at hrow
  | cleanup =>
      cases hs
      exact h.resume [] ht rfl (List.append_nil _).symm (List.Sublist.refl _)
        (fun _ t' ht' => by cases ht') (fun o ho => by cases ho)
        (fun row hrow => Or.inl (mem_of_deleteWhere hrow))
  | check =>
      cases hs
      exact h.check
  | clearing k p =>
      cases hs
      exact h.resume [] ht rfl (List.append_nil _).symm (List.Sublist.refl _)
        (fun _ t' ht' => by cases ht') (fun o ho => List.mem_singleton.mp ho ▸ rfl)
        (fun row hrow => Or.inl (mem_of_delete hrow))
  | noting k p =>
      have hwait := h.wait now ht
      rwa [show waitForPeer _ now k p = (s', out) from Option.some.inj hs] at hwait
  | givingUp k p =>
      cases hs
      exact h.resume [] ht rfl (List.append_nil _).symm (List.Sublist.refl _)
        (fun _ t' ht' => by cases ht') (fun o ho => List.mem_singleton.mp ho ▸ rfl)
        (fun row hrow => Or.inl hrow)
  | destroy p =>
      cases hs
      refine h.resume [] ht rfl (List.append_nil _).symm (List.Sublist.refl _)
        (fun _ t' ht' => by cases ht') (fun o ho => by cases ho) (fun row hrow => Or.inl ?_)
      have hkeep : ((s.db.clearClosePending p).channelClosed now p).closepending
          = s.db.closepending.delete p :=
        Db.getPeerdbid_closepending (s.db.clearClosePending p) p
      exact mem_of_delete (hkeep ▸ hrow)

theorem Sound.onListed {tr out : List (Out N)} {s s' : State N} {n : Nat} {t : Task N}
    {channels : Option (List (Option Bool))} (h : Sound tr s) (ht : s.tasks[n]? = some t)
    (hs : onListed { s with tasks := s.tasks.eraseIdx n } channels t = some (s', out)) :
    Sound (tr ++ out) s' := by
  cases t with
  | listing k p =>
      simp only [PeerComplaintsDesk.onListed] at hs
      split at hs
      · cases hs
        refine h.resume [.clearing k p] ht rfl rfl (List.Sublist.refl _) ?_
          (fun o ho => List.mem_singleton.mp ho ▸ rfl) (fun row hrow => Or.inl hrow)
        intro hled t' ht'
        rw [List.mem_singleton.mp ht']
        exact ⟨Led.append hled, Or.inl (List.mem_append_right _ (List.mem_singleton_self _))⟩
      · cases hs
        refine h.resume [.noting k p] ht rfl rfl (List.Sublist.refl _) ?_
          (fun o ho => by cases ho) (fun row hrow => Or.inl hrow)
        intro hled t' ht'
        rw [List.mem_singleton.mp ht']
        exact Led.append hled
  | _ => cases hs

/-- **STEP**: every step keeps the invariant. -/
theorem Sound.step {tr out : List (Out N)} {s s' : State N} {e : Event N} (h : Sound tr s)
    (hs : step s e = some (s', out)) : Sound (tr ++ out) s' := by
  have hnil : ∀ {s₁ : State N}, Sound tr s₁ → Sound (tr ++ []) s₁ := by
    intro s₁ h₁
    rwa [List.append_nil]
  cases e with
  | option value =>
      cases value with
      | none => cases hs; exact hnil h
      | some v =>
          cases hs
          exact hnil (h.told [] rfl (List.append_nil _).symm (fun t ht => by cases ht) rfl)
  | init =>
      cases hs
      exact hnil (h.told [] rfl (List.append_nil _).symm (fun t ht => by cases ht) rfl)
  | onchainFee low =>
      cases hs
      exact hnil (h.told [] rfl (List.append_nil _).symm (fun t ht => by cases ht) rfl)
  | timerTwiceDaily =>
      cases hs
      obtain ⟨hc, hdb, ts, hts, haim⟩ := solicit_frame s
      refine hnil (h.told (ts ++ [.cleanup]) hc ?_ ?_ hdb)
      · show (solicit s).tasks ++ [.cleanup] = _
        rw [hts, List.append_assoc]
      · intro t ht
        rcases List.mem_append.mp ht with ht | ht
        · exact haim t ht
        · rw [List.mem_singleton.mp ht]
          rfl
  | timer10Minutes =>
      cases hs
      by_cases hr : s.rpc
      · rw [if_pos hr]
        exact hnil (h.told [.check] rfl rfl (fun t ht => List.mem_singleton.mp ht ▸ rfl) rfl)
      · rw [if_neg hr]
        exact hnil h
  | raisePeerComplaint peer complaint =>
      cases hs
      obtain ⟨hc, hdb, hts⟩ := raisePeerComplaint_frame s peer complaint
      exact hnil (h.told [] hc (hts.trans (List.append_nil _).symm) (fun t ht => by cases ht) hdb)
  | channelDestruction peer =>
      cases hs
      exact hnil (h.told [.destroy peer] rfl rfl (fun t ht => List.mem_singleton.mp ht ▸ rfl) rfl)
  | unmanage peer =>
      cases hs
      exact hnil (h.told [] rfl (List.append_nil _).symm (fun t ht => by cases ht) rfl)
  | manage peer =>
      cases hs
      exact hnil (h.told [] rfl (List.append_nil _).symm (fun t ht => by cases ht) rfl)
  | exempted n nodes =>
      obtain ⟨t, ht, hs⟩ := Option.bind_eq_some_iff.mp hs
      cases t with
      | exemptions =>
          cases hs
          exact h.resume [.metrics] ht rfl rfl (List.Sublist.refl _)
            (fun _ t' ht' => List.mem_singleton.mp ht' ▸ trivial) (fun o ho => by cases ho)
            (fun row hrow => Or.inl hrow)
      | _ => cases hs
  | listed n channels =>
      obtain ⟨t, ht, hs⟩ := Option.bind_eq_some_iff.mp hs
      exact h.onListed ht hs
  | task n now =>
      obtain ⟨t, ht, hs⟩ := Option.bind_eq_some_iff.mp hs
      exact h.stepTask ht hs
  | fails n =>
      obtain ⟨t, ht, hs⟩ := Option.map_eq_some_iff.mp hs
      cases hs
      exact h.resume [] ht rfl (List.append_nil _).symm (List.nil_sublist _)
        (fun _ t' ht' => by cases ht') (fun o ho => by cases ho) (fun row hrow => Or.inl hrow)
  | restart =>
      cases hs
      refine hnil ⟨?_, ?_, h.counted, (fun t ht => by cases ht), h.patient⟩
      · intro a ha
        refine h.numbered a (fun hz => ha ?_)
        exact Nat.le_zero.mp (hz ▸ Nat.add_le_add_right (Nat.zero_le _) _)
      · intro a
        have := h.once a
        unfold aims at this ⊢
        simp only [boot, List.filterMap_nil, List.count_nil]
        omega

/-- **RUN**: so does every run. -/
theorem run_sound {es : List (Event N)} {s : State N} {tr : List (Out N)}
    (hrun : run es = some (s, tr)) : Sound tr s := by
  refine Machine.run_invariant (P := fun _ _ => True) (I := fun _ tr s => Sound tr s) ?_ ?_
    (Machine.along_true _ _) hrun
  · exact ⟨fun a ha => absurd rfl ha, fun a => Nat.zero_le _, rfl, (fun t ht => by cases ht),
      (fun row hrow => by cases hrow)⟩
  · intro es tr s e s' out hI _ hs
    exact hI.step hs

/-- What a check shows is its number and what it found: auto-closing as it was,
    and peers that were not unmanaged and had enough complaints recorded that are
    not ignored. -/
def ChecksTrue (tr : List (Out N)) (s : State N) (out : List (Out N)) : Prop :=
  ∀ k enabled crossed, .checked k enabled crossed ∈ out → k = tr.countP Out.isCheck
    ∧ enabled = s.enabled
    ∧ ∀ p ∈ crossed, p ∉ s.unmanaged ∧ maxAcceptableComplaints ≤ s.db.checkComplaints p

/-- What shows of the clock and of answers is what the step was told. -/
structure Reads (s : State N) (e : Event N) (out : List (Out N)) : Prop where
  noted  : ∀ p since, .noted p since ∈ out → ∃ n, e = .task n since
  gaveUp : ∀ k p since now, .gaveUp k p since now ∈ out → ∃ n, e = .task n now
  seen   : ∀ k p, .seenConnected k p ∈ out →
    ∃ n channels, e = .listed n channels ∧ s.tasks[n]? = some (.listing k p)
      ∧ connected channels = true

/-- A peer is given up only while onchain fees are low. -/
def GivesUpLow (s : State N) (out : List (Out N)) : Prop :=
  ∀ k p since now, .gaveUp k p since now ∈ out → s.feesLow = true

/-- Waiting for a peer shows a new note, and that it is given up. -/
theorem waitForPeer_shows {s : State N} {now : Double} {check : Nat} {peer : N} {o : Out N}
    (ho : o ∈ (waitForPeer s now check peer).2) :
    o = .noted peer now ∨ s.feesLow = true ∧ ∃ since, o = .gaveUp check peer since now := by
  obtain ⟨row, noted, -, hnoted, hcases⟩ := waitForPeer_cases s now check peer
  have hno : ∀ o ∈ noted, o = .noted peer now := by
    rcases hnoted with ⟨rfl, -⟩ | ⟨rfl, -⟩
    · intro o ho
      cases ho
    · intro o ho
      exact List.mem_singleton.mp ho
  rcases hcases with hdone | ⟨hlow, -, hdone⟩
  · rw [hdone] at ho
    exact Or.inl (hno o ho)
  · rw [hdone] at ho
    rcases List.mem_append.mp ho with ho | ho
    · exact Or.inl (hno o ho)
    · exact Or.inr ⟨hlow, _, List.mem_singleton.mp ho⟩

/-- What a resumed greenthread shows: its check, its command, or what it found of a peer. -/
theorem stepTask_shows {s s' : State N} {now : Double} {t : Task N} {out : List (Out N)}
    (hs : stepTask s now t = some (s', out)) {o : Out N} (ho : o ∈ out) :
    o = .checked s.checks s.enabled (toClose s)
      ∨ (∃ k p, o = .close k p ∧ (t = .clearing k p ∨ t = .givingUp k p))
      ∨ ∃ p, o = .noted p now ∨ s.feesLow = true ∧ ∃ k since, o = .gaveUp k p since now := by
  cases t with
  | exemptions => cases hs
  | listing k p => cases hs
  | check =>
      cases hs
      exact Or.inl (List.mem_singleton.mp ho)
  | clearing k p =>
      cases hs
      exact Or.inr (Or.inl ⟨k, p, List.mem_singleton.mp ho, Or.inl rfl⟩)
  | givingUp k p =>
      cases hs
      exact Or.inr (Or.inl ⟨k, p, List.mem_singleton.mp ho, Or.inr rfl⟩)
  | noting k p =>
      rw [← show (waitForPeer s now k p).2 = out from congrArg Prod.snd (Option.some.inj hs)] at ho
      refine Or.inr (Or.inr ⟨p, ?_⟩)
      exact (waitForPeer_shows ho).imp_right (fun ⟨hlow, since, heq⟩ => ⟨hlow, k, since, heq⟩)
  | _ =>
      cases hs
      cases ho

/-- What it shows is true of the state it finds. -/
theorem stepTask_true {s s' : State N} {now : Double} {t : Task N} {out : List (Out N)}
    (hs : stepTask s now t = some (s', out)) :
    (∀ k enabled crossed, .checked k enabled crossed ∈ out → k = s.checks ∧ enabled = s.enabled
      ∧ crossed = toClose s) ∧ GivesUpLow s out := by
  constructor
  · intro k enabled crossed hmem
    rcases stepTask_shows hs hmem with heq | ⟨_, _, heq, _⟩ | ⟨_, heq | ⟨_, _, _, heq⟩⟩
    · cases heq
      exact ⟨rfl, rfl, rfl⟩
    · cases heq
    · cases heq
    · cases heq
  · intro k p since now' hmem
    rcases stepTask_shows hs hmem with heq | ⟨_, _, heq, _⟩ | ⟨_, heq | ⟨hlow, _⟩⟩
    · cases heq
    · cases heq
    · cases heq
    · exact hlow

/-- Only a greenthread that has come that far closes. -/
theorem stepTask_close {s s' : State N} {now : Double} {t : Task N} {out : List (Out N)}
    {k : Nat} {p : N} (hs : stepTask s now t = some (s', out)) (hmem : .close k p ∈ out) :
    t = .clearing k p ∨ t = .givingUp k p := by
  rcases stepTask_shows hs hmem with heq | ⟨_, _, heq, ht⟩ | ⟨_, heq | ⟨_, _, _, heq⟩⟩
  · cases heq
  · cases heq
    exact ht
  · cases heq
  · cases heq

/-- Other steps show at most that a peer was seen connected. -/
theorem step_task_or_seen {s s' : State N} {e : Event N} {out : List (Out N)}
    (hs : step s e = some (s', out)) :
    (∃ n now t, e = .task n now ∧ s.tasks[n]? = some t
        ∧ stepTask { s with tasks := s.tasks.eraseIdx n } now t = some (s', out))
      ∨ ∀ o ∈ out, ∃ n channels k p, e = .listed n channels ∧ s.tasks[n]? = some (.listing k p)
        ∧ connected channels = true ∧ o = .seenConnected k p := by
  cases e with
  | task n now =>
      obtain ⟨t, ht, hs⟩ := Option.bind_eq_some_iff.mp hs
      exact Or.inl ⟨n, now, t, rfl, ht, hs⟩
  | listed n channels =>
      obtain ⟨t, ht, hs⟩ := Option.bind_eq_some_iff.mp hs
      refine Or.inr ?_
      cases t with
      | listing k p =>
          simp only [onListed] at hs
          split at hs
          · rename_i hconnected
            cases hs
            intro o ho
            exact ⟨n, channels, k, p, rfl, ht, hconnected, List.mem_singleton.mp ho⟩
          · cases hs
            intro o ho
            cases ho
      | _ => cases hs
  | exempted n nodes =>
      obtain ⟨t, ht, hs⟩ := Option.bind_eq_some_iff.mp hs
      refine Or.inr ?_
      cases t with
      | exemptions =>
          cases hs
          intro o ho
          cases ho
      | _ => cases hs
  | fails n =>
      obtain ⟨t, ht, hs⟩ := Option.map_eq_some_iff.mp hs
      cases hs
      exact Or.inr (fun o ho => by cases ho)
  | option value =>
      cases value with
      | none => cases hs; exact Or.inr (fun o ho => by cases ho)
      | some v => cases hs; exact Or.inr (fun o ho => by cases ho)
  | _ =>
      cases hs
      exact Or.inr (fun o ho => by cases ho)

/-- A step shows what it was told. -/
theorem reads_step {s s' : State N} {e : Event N} {out : List (Out N)}
    (hs : step s e = some (s', out)) : Reads s e out := by
  rcases step_task_or_seen hs with ⟨n, now, t, rfl, -, hst⟩ | hseen
  · constructor
    · intro p since hmem
      rcases stepTask_shows hst hmem with heq | ⟨_, _, heq, _⟩ | ⟨_, heq | ⟨_, _, _, heq⟩⟩
      · cases heq
      · cases heq
      · cases heq
        exact ⟨n, rfl⟩
      · cases heq
    · intro k p since now' hmem
      rcases stepTask_shows hst hmem with heq | ⟨_, _, heq, _⟩ | ⟨_, heq | ⟨_, _, _, heq⟩⟩
      · cases heq
      · cases heq
      · cases heq
      · cases heq
        exact ⟨n, rfl⟩
    · intro k p hmem
      rcases stepTask_shows hst hmem with heq | ⟨_, _, heq, _⟩ | ⟨_, heq | ⟨_, _, _, heq⟩⟩
      · cases heq
      · cases heq
      · cases heq
      · cases heq
  · constructor
    · intro p since hmem
      obtain ⟨_, _, _, _, -, -, -, heq⟩ := hseen _ hmem
      cases heq
    · intro k p since now hmem
      obtain ⟨_, _, _, _, -, -, -, heq⟩ := hseen _ hmem
      cases heq
    · intro k p hmem
      obtain ⟨n, channels, _, _, he, ht, hconnected, heq⟩ := hseen _ hmem
      cases heq
      exact ⟨n, channels, he, ht, hconnected⟩

/-- **HEADLINE**: whatever the run so far, what the next step shows of its check, its
    answer and the time is true, a peer is given up only while fees are low, and a
    `close` command is JUSTIFIED and the first one on the strength of its check. -/
theorem closes_with_cause {es : List (Event N)} {s s' : State N} {tr out : List (Out N)}
    {e : Event N} (hrun : run es = some (s, tr)) (hs : step s e = some (s', out)) :
    ChecksTrue tr s out ∧ Reads s e out ∧ GivesUpLow s out
      ∧ ∀ k p, .close k p ∈ out → Justified tr k p ∧ .close k p ∉ tr := by
  have h := run_sound hrun
  have hnext := h.step hs
  have hreads := reads_step hs
  rcases step_task_or_seen hs with ⟨n, now, t, -, ht, hst⟩ | hseen
  · obtain ⟨hcheck, hlow⟩ := stepTask_true hst
    refine ⟨?_, hreads, hlow, ?_⟩
    · intro k enabled crossed hmem
      obtain ⟨hk, he, rfl⟩ := hcheck k enabled crossed hmem
      refine ⟨hk.trans h.counted, he, fun p hp => ?_⟩
      exact of_decide_eq_true (List.mem_filter.mp hp).2
    · intro k p hmem
      constructor
      · rcases stepTask_close hst hmem with rfl | rfl
        · exact h.grounded _ (List.mem_of_getElem? ht)
        · exact h.grounded _ (List.mem_of_getElem? ht)
      · -- a second one would be counted
        intro hold
        have hone := hnext.once (k, p)
        have hmem' : ∀ l : List (Out N), .close k p ∈ l → 0 < (l.filterMap Out.aim).count (k, p) :=
          fun l hl => List.count_pos_iff.mpr (List.mem_filterMap.mpr ⟨_, hl, rfl⟩)
        have h₁ := hmem' tr hold
        have h₂ := hmem' out hmem
        unfold aims at hone
        rw [List.filterMap_append (f := Out.aim), List.count_append] at hone
        omega
  · refine ⟨?_, hreads, ?_, ?_⟩
    · intro k enabled crossed hmem
      obtain ⟨_, _, _, _, -, -, -, heq⟩ := hseen _ hmem
      cases heq
    · intro k p since now hmem
      obtain ⟨_, _, _, _, -, -, -, heq⟩ := hseen _ hmem
      cases heq
    · intro k p hmem
      obtain ⟨_, _, _, _, -, -, -, heq⟩ := hseen _ hmem
      cases heq

/-- A round of solicitation with a complaint about peer 1. -/
def sampleRound : List (Event Nat) :=
  [.timerTwiceDaily, .exempted 0 [], .task 0 (.finite 0), .task 0 (.finite 0),
    .raisePeerComplaint 1 "offline", .task 0 (.finite 0), .task 0 (.finite 0)]

/-- Five rounds; a check finds the peer offline and notes it, another one more
    than three days later gives it up. -/
def sampleRun : List (Event Nat) :=
  sampleRound ++ sampleRound ++ sampleRound ++ sampleRound ++ sampleRound
    ++ [.option (some true), .init, .onchainFee true, .timer10Minutes, .task 0 (.finite 0),
      .listed 0 (some [some false]), .task 0 (.finite 5000),
      .timer10Minutes, .task 0 (.finite 300000), .listed 0 (some [some false]),
      .task 0 (.finite 300000)]

theorem closes_with_cause_sampleRun :
    ((run sampleRun).bind (fun r => (step r.1 (.task 0 (.finite 300000))).map Prod.snd)
        = some [.close 1 1])
      ∧ ∀ s tr s' out, run sampleRun = some (s, tr) →
        step s (.task 0 (.finite 300000)) = some (s', out) →
        ChecksTrue tr s out ∧ Reads s (.task 0 (.finite 300000)) out ∧ GivesUpLow s out
          ∧ ∀ k p, .close k p ∈ out → Justified tr k p ∧ .close k p ∉ tr := by
  refine ⟨by decide +kernel, ?_⟩
  intro s tr s' out hrun hs
  exact closes_with_cause hrun hs

/-- Before the log line is written, fees rise and another check finds the peer
    unmanaged. -/
def overtakenRun : List (Event Nat) :=
  sampleRun ++ [.onchainFee false, .unmanage 1, .timer10Minutes, .task 1 (.finite 300000)]

/-- The close is issued all the same. -/
theorem closes_overtakenRun :
    (run overtakenRun).map (fun r => (r.1.feesLow, r.2.getLast?,
        r.2.any (fun o => o = .seenConnected 1 1),
        (step r.1 (.task 0 (.finite 300000))).map Prod.snd))
      = some (false, some (.checked 2 true []), false, some [.close 1 1]) := by
  decide +kernel

end PeerComplaintsDesk
