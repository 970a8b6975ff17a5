import Clboss.MachineProofs
import Clboss.PeerStatisticianProofs

/-! # `Boss::Mod::PeerMetrician` — peer metrics over three windows

    The metrician asks for the statistics of the last 3, 14 and 30 days and
    divides what it gets by the time each entry covers.

    FOUR times meet here.  The end of a window is read when it asks; the record
    of a payment is stamped when the payment's result comes; the creation of a
    peer and all other records are stamped when a transaction runs, and so is
    the query's.  Between coming and running lies a wait for the database, and
    an entry starts at the creation of its peer when that is later than the
    start of the window.  Nothing keeps it from being later than the END.

    `positive_duration_iff` says exactly when no entry is like that. -/

namespace PeerMetrician

open Ln PeerStatistician UniqueTable

variable {N H : Type}

/-! ## Metrics -/

/-- `Msg::PeerMetrics`. -/
structure PeerMetrics where
  age               : Double
  secondsPerAttempt : Double
  successPerAttempt : Option Double
  successPerDay     : Double
  connectRate       : Option Double
  inFeeMsatPerDay   : Double
  outFeeMsatPerDay  : Double

/-- The time an entry covers. -/
def time (stats : PeerStatistics) : Double := stats.endTime.sub stats.startTime

/-- So much in the time, for each day. -/
def perDay (n : ℕ) (time : Double) : Double := ((Double.ofInt n).mul (.finite 86400)).div time

/-- `stats_to_mets`. -/
def statsToMets (stats : PeerStatistics) : PeerMetrics where
  age               := stats.age
  secondsPerAttempt :=
    if 0 < stats.attempts then stats.lockrealtime.div (Double.ofInt stats.attempts)
    else .finite 0
  successPerAttempt :=
    if 0 < stats.attempts then
      some ((Double.ofInt stats.successes).div (Double.ofInt stats.attempts))
    else none
  successPerDay     := perDay stats.successes (time stats)
  connectRate       :=
    if 0 < stats.connectChecks then
      some ((Double.ofInt stats.connects).div (Double.ofInt stats.connectChecks))
    else none
  inFeeMsatPerDay   := perDay stats.inFee.toMsat.toNat (time stats)
  outFeeMsatPerDay  := perDay stats.outFee.toMsat.toNat (time stats)

/-- `map_stats_to_mets`. -/
def mapStatsToMets (stats : Data N) : List (N × PeerMetrics) :=
  stats.rows.map (fun e => (e.1, statsToMets e.2))

/-- The windows of `get_metrics`. -/
inductive Window where
  | day3
  | day14
  | day30
deriving DecidableEq

/-- `times`. -/
def Window.time : Window → ℕ
  | .day3  => 86400 * 3
  | .day14 => 86400 * 14
  | .day30 => 86400 * 30

def Window.start (w : Window) (endTime : Instant) : Double :=
  endTime.toDouble.sub (.finite w.time)

/-! ## Finite quotients -/

/-- A number, and not below zero. -/
def FiniteNonneg (x : Double) : Prop := ∃ q : ℚ, x = .finite q ∧ 0 ≤ q

/-- The metrics of an entry that are rates. -/
structure PeerMetrics.Sound (mets : PeerMetrics) : Prop where
  success : FiniteNonneg mets.successPerDay
  inFee   : FiniteNonneg mets.inFeeMsatPerDay
  outFee  : FiniteNonneg mets.outFeeMsatPerDay

theorem Instant.lt_iff (t t' : Instant) : t.toDouble.lt t'.toDouble = true ↔ t.q < t'.q :=
  decide_eq_true_iff

/-- A rate over a unit of time at least is finite. -/
theorem perDay_finiteNonneg {n : ℕ} {t : ℚ} (hn : n < 2 ^ 66) (ht : (2 : ℚ) ^ (-52 : ℤ) ≤ t) :
    FiniteNonneg (perDay n (.finite t)) := by
  have hu := Double.two_zpow_pos (-52)
  have hpos : 0 < t := lt_of_lt_of_le hu ht
  have hcast : ((n : ℤ) : ℚ) < 2 ^ 66 := by exact_mod_cast hn
  have hnonneg : (0 : ℚ) ≤ ((n : ℤ) : ℚ) := by positivity
  have hm := Double.round_le_two_pow hnonneg hcast
  have hm0 := Double.round_nonneg hnonneg
  -- the product stays below `2 ^ 83`
  have hprod : Double.round ((n : ℤ) : ℚ) * 86400 < 2 ^ 84 := by
    have : Double.round ((n : ℤ) : ℚ) * 86400 ≤ 2 ^ 66 * 86400 :=
      mul_le_mul_of_nonneg_right hm (by norm_num)
    exact lt_of_le_of_lt this (by norm_num)
  have hprod0 : 0 ≤ Double.round ((n : ℤ) : ℚ) * 86400 := by positivity
  have hp := Double.round_le_two_pow hprod0 hprod
  have hp0 := Double.round_nonneg hprod0
  -- and the quotient below `2 ^ 137`
  have hquot : Double.round (Double.round ((n : ℤ) : ℚ) * 86400) / t < 2 ^ 137 := by
    rw [div_lt_iff₀ hpos]
    have hmul : (2 : ℚ) ^ 137 * 2 ^ (-52 : ℤ) ≤ 2 ^ 137 * t :=
      mul_le_mul_of_nonneg_left ht (by positivity)
    have hpow : (2 : ℚ) ^ 84 < 2 ^ 137 * 2 ^ (-52 : ℤ) := by norm_num
    linarith
  have hquot0 : 0 ≤ Double.round (Double.round ((n : ℤ) : ℚ) * 86400) / t := by positivity
  refine ⟨_, ?_, Double.round_nonneg hquot0⟩
  unfold perDay Double.ofInt
  rw [Double.ofRat_of_lt (k := 66) (by norm_num) hnonneg hcast]
  unfold Double.mul
  simp only
  rw [Double.ofRat_of_lt (k := 84) (by norm_num) hprod0 hprod]
  unfold Double.div
  simp only
  rw [if_neg hpos.ne', Double.ofRat_of_lt (k := 137) (by norm_num) hquot0 hquot]

/-- A window starts a second at least before it ends. -/
theorem Window.start_eq (w : Window) (t : Instant) :
    ∃ p : ℚ, w.start t = .finite p ∧ p + 1 ≤ t.q ∧ t.q - p < 2 ^ 54 := by
  have htime : (259200 : ℚ) ≤ w.time ∧ (w.time : ℚ) ≤ 2592000 := by
    cases w with
    | day3 | day14 | day30 => norm_num [Window.time]
  have hone := t.one_le
  have hlt := t.lt
  have habs : |t.q + -(w.time : ℚ)| < 2 ^ 53 := by
    rw [abs_lt]
    constructor
    · linarith
    · linarith
  have herr := abs_le.mp (Double.abs_round_sub_le_half habs)
  refine ⟨Double.round (t.q + -(w.time : ℚ)), Double.ofRat_of_abs_lt habs, ?_, ?_⟩
  · linarith
  · linarith

/-! ## One query -/

/-- What an entry has to be: counts and fees as recorded, and a time to divide by. -/
structure SoundEntry [DecidableEq N] (db : Db N H) (startTime endTime : Double) (node : N)
    (e : PeerStatistics) : Prop where
  successes_le : e.successes ≤ e.attempts
  connects_le  : e.connects ≤ e.connectChecks
  inFee_eq     : e.inFee.toMsat.toNat = db.recordedIn startTime endTime node
  outFee_eq    : e.outFee.toMsat.toNat = db.recordedOut startTime endTime node
  start_lt     : e.startTime.lt e.endTime = true
  positive     : (Double.finite 0).lt (time e) = true

def SoundAnswer [DecidableEq N] (db : Db N H) (startTime endTime : Double) (data : Data N) :
    Prop :=
  ∀ node e, (node, e) ∈ data.rows → SoundEntry db startTime endTime node e

def SoundMetrics (mets : List (N × PeerMetrics)) : Prop := ∀ m ∈ mets, m.2.Sound

section Query

variable [DecidableEq N]

/-- Who has a record in the window was first recorded before its end, and for no
    more fees than an amount can hold. -/
def Timely (db : Db N H) (startTime endTime : Double) : Prop :=
  ∀ t ∈ db.touches startTime endTime, (db.nodeStart t.node).lt endTime = true
    ∧ db.recordedIn startTime endTime t.node < 2 ^ 64
    ∧ db.recordedOut startTime endTime t.node < 2 ^ 64

instance (db : Db N H) (startTime endTime : Double) : Decidable (Timely db startTime endTime) :=
  inferInstanceAs (Decidable (∀ t ∈ db.touches startTime endTime, _ ∧ _ ∧ _))

/-- The start of a peer is a number before `endTime`, by a unit at least. -/
theorem nodeStart_eq {db : Db N H} {node : N} {endTime : Instant}
    (h : (db.nodeStart node).lt endTime.toDouble = true) :
    ∃ p : ℚ, db.nodeStart node = .finite p ∧ (2 : ℚ) ^ (-52 : ℤ) ≤ endTime.q - p
      ∧ endTime.q - p < 2 ^ 54 := by
  have hone := endTime.one_le
  have hlt := endTime.lt
  unfold Db.nodeStart at h ⊢
  cases hget : db.peers.get node with
  | none =>
      refine ⟨0, rfl, ?_, by linarith⟩
      have hunit : (2 : ℚ) ^ (-52 : ℤ) ≤ 1 := by norm_num
      linarith
  | some peer =>
      rw [hget] at h
      have hpeer := peer.creation.one_le
      have hq := (Instant.lt_iff _ _).mp h
      exact ⟨peer.creation.q, rfl,
        Double.unit_le_sub peer.creation.rounded endTime.rounded hpeer hq, by linarith⟩

/-- **STEP**: an entry of a peer that was there before the end covers some time. -/
theorem time_eq {db : Db N H} {w : Window} {node : N} {endTime : Instant} {e : PeerStatistics}
    (he : Accounts db (w.start endTime) endTime.toDouble node e)
    (h : (db.nodeStart node).lt endTime.toDouble = true) :
    ∃ t : ℚ, time e = .finite t ∧ (2 : ℚ) ^ (-52 : ℤ) ≤ t
      ∧ e.startTime.lt e.endTime = true := by
  have hu := Double.two_zpow_pos (-52)
  obtain ⟨p, hp, hunit, hlt⟩ : ∃ p : ℚ, e.startTime = .finite p
      ∧ (2 : ℚ) ^ (-52 : ℤ) ≤ endTime.q - p ∧ endTime.q - p < 2 ^ 54 := by
    rw [he.start_eq]
    split
    · exact nodeStart_eq h
    · obtain ⟨p, hp, hle, hlt⟩ := w.start_eq endTime
      have hone : (2 : ℚ) ^ (-52 : ℤ) ≤ 1 := by norm_num
      exact ⟨p, hp, by linarith, hlt⟩
  refine ⟨Double.round (endTime.q - p), ?_, Double.two_zpow_le_round_of_le (by norm_num) hunit, ?_⟩
  · unfold time
    rw [he.end_eq, hp]
    show Double.ofRat (endTime.q + -p) = _
    rw [← sub_eq_add_neg]
    exact Double.ofRat_of_lt (k := 54) (by norm_num) (by linarith) hlt
  · rw [he.end_eq, hp]
    exact decide_eq_true (by linarith : p < endTime.q)

/-- And of one that was not, none. -/
theorem nodeStart_lt_of_start_lt {db : Db N H} {w : Window} {node : N} {endTime : Instant}
    {e : PeerStatistics} (he : Accounts db (w.start endTime) endTime.toDouble node e)
    (h : e.startTime.lt e.endTime = true) : (db.nodeStart node).lt endTime.toDouble = true := by
  rw [he.end_eq, he.start_eq] at h
  split at h
  · exact h
  · rename_i hnot
    obtain ⟨p, hp, hle, -⟩ := w.start_eq endTime
    obtain ⟨q, hq⟩ : ∃ q : ℚ, db.nodeStart node = .finite q := by
      unfold Db.nodeStart
      cases db.peers.get node with
      | none => exact ⟨0, rfl⟩
      | some peer => exact ⟨peer.creation.q, rfl⟩
    rw [hp, hq] at hnot
    have hqp : q ≤ p := by
      by_contra hlt
      exact hnot (decide_eq_true (not_le.mp hlt))
    rw [hq]
    exact decide_eq_true (by linarith : q < endTime.q)

/-- **SPEC (query)**: an answer is sound exactly if all its peers are timely. -/
theorem soundAnswer_iff (db : Db N H) (now : Instant) (w : Window) (endTime : Instant) :
    SoundAnswer db (w.start endTime) endTime.toDouble
        (db.getStats now (w.start endTime) endTime.toDouble)
      ↔ Timely db (w.start endTime) endTime.toDouble := by
  constructor
  · intro hsound t ht
    have hmem : (t.node, accumulate t.node (db.touches (w.start endTime) endTime.toDouble)
          (db.newEntry now (w.start endTime) endTime.toDouble t.node))
        ∈ (db.getStats now (w.start endTime) endTime.toDouble).rows :=
      mem_getStats.mpr ⟨⟨t, ht, rfl⟩, rfl⟩
    have he := accounts_of_mem hmem
    have hs := hsound t.node _ hmem
    have hin := he.inFee_eq.symm.trans hs.inFee_eq
    have hout := he.outFee_eq.symm.trans hs.outFee_eq
    exact ⟨nodeStart_lt_of_start_lt he hs.start_lt, by omega, by omega⟩
  · intro htimely node e hmem
    have he := accounts_of_mem hmem
    obtain ⟨⟨t, ht, rfl⟩, -⟩ := mem_getStats.mp hmem
    obtain ⟨hlt, hin, hout⟩ := htimely t ht
    obtain ⟨d, hd, hunit, hstart⟩ := time_eq he hlt
    have hin' := he.inFee_eq
    have hout' := he.outFee_eq
    exact {
      successes_le := he.successes_le
      connects_le := he.connects_le
      inFee_eq := by
        show e.inFee.v.toNat = _
        omega
      outFee_eq := by
        show e.outFee.v.toNat = _
        omega
      start_lt := hstart
      positive := by
        rw [hd]
        exact decide_eq_true (lt_of_lt_of_le (Double.two_zpow_pos (-52)) hunit) }

/-- **SPEC (metrics)**: sound answers make sound metrics, from tables that can be. -/
theorem soundMetrics_of_soundAnswer {db : Db N H} {now : Instant} {w : Window}
    {endTime : Instant}
    (hlen : (db.touches (w.start endTime) endTime.toDouble).length < 2 ^ 66)
    (h : SoundAnswer db (w.start endTime) endTime.toDouble
      (db.getStats now (w.start endTime) endTime.toDouble)) :
    SoundMetrics (mapStatsToMets (db.getStats now (w.start endTime) endTime.toDouble)) := by
  intro m hm
  obtain ⟨⟨node, e⟩, hmem, rfl⟩ := List.mem_map.mp hm
  have he := accounts_of_mem hmem
  obtain ⟨d, hd, hunit, -⟩ := time_eq he (nodeStart_lt_of_start_lt he (h node e hmem).start_lt)
  have hsuccesses : e.successes < 2 ^ 66 :=
    lt_of_le_of_lt (he.successes_le.trans he.attempts_le) hlen
  have hin : e.inFee.toMsat.toNat < 2 ^ 66 := by
    have := e.inFee.toMsat.toNat_lt
    omega
  have hout : e.outFee.toMsat.toNat < 2 ^ 66 := by
    have := e.outFee.toMsat.toNat_lt
    omega
  show (statsToMets e).Sound
  refine ⟨?_, ?_, ?_⟩
  · show FiniteNonneg (perDay e.successes (time e))
    rw [hd]
    exact perDay_finiteNonneg hsuccesses hunit
  · show FiniteNonneg (perDay e.inFee.toMsat.toNat (time e))
    rw [hd]
    exact perDay_finiteNonneg hin hunit
  · show FiniteNonneg (perDay e.outFee.toMsat.toNat (time e))
    rw [hd]
    exact perDay_finiteNonneg hout hunit

end Query

/-! ## The two of them -/

/-- SQLite has no row numbers for more. -/
def Fits (db : Db N H) : Prop :=
  db.sendpayresults.length < 2 ^ 63 ∧ db.connection.length < 2 ^ 63
    ∧ db.forwardfees.length < 2 ^ 63

instance (db : Db N H) : Decidable (Fits db) := inferInstanceAs (Decidable (_ ∧ _ ∧ _))

theorem touches_length {db : Db N H} (h : Fits db) (startTime endTime : Double) :
    (db.touches startTime endTime).length < 2 ^ 66 := by
  obtain ⟨hs, hc, hf⟩ := h
  have hs' := List.length_filter_le (fun r => within startTime endTime r.creation)
    db.sendpayresults
  have hc' := List.length_filter_le (fun r => within startTime endTime r.creation) db.connection
  have hf' := List.length_filter_le (fun r => within startTime endTime r.creation) db.forwardfees
  have hpairs : ∀ l : List (ForwardFee N),
      (l.flatMap (fun r => [Touch.inFee r, .outFee r])).length = 2 * l.length := by
    intro l
    induction l with
    | nil => rfl
    | cons r l ih =>
        rw [List.flatMap_cons, List.length_append, ih]
        show 2 + 2 * l.length = 2 * (l.length + 1)
        omega
  unfold Db.touches
  rw [List.length_append, List.length_append, List.length_map, List.length_map, hpairs]
  omega

/-- What waits for the database; a payment has been stamped, and a window. -/
inductive Task (N H : Type) where
  | cleanEntries
  | addSendpayresult (id : N) (creation : Instant) (lockrealtime : Double) (paymentHash : H)
      (destinationReached : Bool)
  | sample (connected disconnected : List N) (allPeersDisconnected : Bool)
  | addForwardfee (inId outId : N) (fee : Amount) (resolutionTime : Double)
  | externpay (hash : H)
  | getStats (request : ℕ) (w : Window) (endTime : Instant)

inductive Event (N H : Type) where
  | dbResource
  | internetOnline (online : Bool)
  | timerRandomDaily
  | sendpayResult (firstHop : N) (creationTime completionTime : Double) (paymentHash : H)
      (reachedDestination : Bool)
  | listpeersAnalyzed (initial : Bool) (connected disconnected : List N)
      (allPeersDisconnected : Bool)
  | forwardFee (inId outId : N) (fee : Amount) (resolutionTime : Double)
  | externpay (hash : H)
  | requestPeerMetrics
  | transact (k : ℕ)
  | restart

inductive Out (N H : Type) where
  | statistics (db : Db N H) (startTime endTime : Double) (data : Data N)
  | metrics (day3 day14 day30 : List (N × PeerMetrics))

structure State (N H : Type) where
  now      : Instant
  db       : Db N H
  ready    : Bool
  online   : Bool
  tasks    : List (Task N H)
  requests : List (Window → Option (Data N))

def State.init (now : Instant) : State N H := ⟨now, .empty, false, false, [], []⟩

/-- An answer for a request; with the third the request has its own. -/
def State.answer (s : State N H) (request : ℕ) (w : Window) (data : Data N) :
    State N H × List (Out N H) :=
  match s.requests[request]? with
  | none => (s, [])
  | some answers =>
      let answers := Function.update answers w (some data)
      ({ s with requests := s.requests.set request answers },
        match answers .day3, answers .day14, answers .day30 with
        | some day3, some day14, some day30 =>
            [.metrics (mapStatsToMets day3) (mapStatsToMets day14) (mapStatsToMets day30)]
        | _, _, _ => [])

section Machine

variable [DecidableEq N] [DecidableEq H]

/-- The transactions that write. -/
def Task.write (task : Task N H) (db : Db N H) (now : Instant) : Db N H :=
  match task with
  | .cleanEntries => db.cleanEntries now
  | .addSendpayresult id creation lockrealtime paymentHash destinationReached =>
      db.addSendpayresult now id creation lockrealtime paymentHash destinationReached
  | .sample connected disconnected allPeersDisconnected =>
      db.sample now connected disconnected allPeersDisconnected
  | .addForwardfee inId outId fee resolutionTime =>
      db.addForwardfee now inId outId fee resolutionTime
  | .externpay hash => db.externpay now hash
  | .getStats _ _ _ => db

/-- A transaction that does not fit is rolled back. -/
def commit (db db' : Db N H) : Db N H := if Fits db' then db' else db

/-- One event; the clock does not go back. -/
def step (s : State N H) (e : Instant × Event N H) : Option (State N H × List (Out N H)) :=
  if e.1.q < s.now.q then none
  else
    let s := { s with now := e.1 }
    match e.2 with
    | .dbResource => some ({ s with ready := true, tasks := s.tasks ++ [.cleanEntries] }, [])
    | .internetOnline online => some ({ s with online := online }, [])
    | .timerRandomDaily =>
        if s.ready then some ({ s with tasks := s.tasks ++ [.cleanEntries] }, []) else some (s, [])
    | .sendpayResult firstHop creationTime completionTime paymentHash reachedDestination =>
        if s.ready then
          some ({ s with tasks := s.tasks ++ [.addSendpayresult firstHop e.1
            (completionTime.sub creationTime) paymentHash reachedDestination] }, [])
        else some (s, [])
    | .listpeersAnalyzed initial connected disconnected allPeersDisconnected =>
        if s.ready ∧ ¬initial ∧ s.online then
          some ({ s with tasks :=
            s.tasks ++ [.sample connected disconnected allPeersDisconnected] }, [])
        else some (s, [])
    | .forwardFee inId outId fee resolutionTime =>
        if s.ready then
          some ({ s with tasks := s.tasks ++ [.addForwardfee inId outId fee resolutionTime] }, [])
        else some (s, [])
    -- the next two open their transaction before they wait for the database, and
    -- without it they never get one
    | .externpay hash =>
        if s.ready then some ({ s with tasks := s.tasks ++ [.externpay hash] }, [])
        else some (s, [])
    | .requestPeerMetrics =>
        if s.ready then
          some ({ s with
            tasks := s.tasks ++ [.getStats s.requests.length .day3 e.1,
              .getStats s.requests.length .day14 e.1, .getStats s.requests.length .day30 e.1]
            requests := s.requests ++ [fun _ => none] }, [])
        else some (s, [])
    | .transact k =>
        match s.tasks[k]? with
        | none => none
        | some task =>
            let s := { s with tasks := s.tasks.eraseIdx k }
            match task with
            | .getStats request w endTime =>
                let data := s.db.getStats e.1 (w.start endTime) endTime.toDouble
                let answered := s.answer request w data
                some (answered.1,
                  .statistics s.db (w.start endTime) endTime.toDouble data :: answered.2)
            | task => some ({ s with db := commit s.db (task.write s.db e.1) }, [])
    | .restart =>
        some ({ s with ready := false, online := false, tasks := [], requests := [] }, [])

/-- What an answer has to be. -/
def Out.Sound : Out N H → Prop
  | .statistics db startTime endTime data => SoundAnswer db startTime endTime data
  | .metrics day3 day14 day30 => SoundMetrics day3 ∧ SoundMetrics day14 ∧ SoundMetrics day30

/-- The query that an event runs. -/
def State.query? (s : State N H) (ev : Event N H) : Option (Window × Instant) :=
  match ev with
  | .transact k =>
      match s.tasks[k]? with
      | some (.getStats _ w endTime) => some (w, endTime)
      | _ => none
  | _ => none

/-- A query that runs now finds all its peers timely. -/
def Meets (s : State N H) (e : Instant × Event N H) : Prop :=
  ∀ q ∈ s.query? e.2, Timely s.db (q.1.start q.2) q.2.toDouble

instance (s : State N H) (e : Instant × Event N H) : Decidable (Meets s e) :=
  inferInstanceAs (Decidable (∀ q ∈ s.query? e.2, _))

/-! ## Runs -/

/-- What has been answered for a request makes sound metrics. -/
def Held (s : State N H) : Prop :=
  ∀ answers ∈ s.requests, ∀ w data, answers w = some data → SoundMetrics (mapStatsToMets data)

omit [DecidableEq N] [DecidableEq H] in
theorem answer_db (s : State N H) (request : ℕ) (w : Window) (data : Data N) :
    (s.answer request w data).1.db = s.db := by
  unfold State.answer
  split
  · rfl
  · rfl

omit [DecidableEq H] in
/-- **STEP (answer)**: one more sound answer keeps the rest, and so is what is reported. -/
theorem answer_sound {s : State N H} {request : ℕ} {w : Window} {data : Data N}
    (hheld : Held s) (hdata : SoundMetrics (mapStatsToMets data)) :
    Held (s.answer request w data).1 ∧ ∀ o ∈ (s.answer request w data).2, o.Sound := by
  unfold State.answer
  cases hreq : s.requests[request]? with
  | none =>
      refine ⟨hheld, ?_⟩
      rintro o ho
      cases ho
  | some answers =>
      have hupd : ∀ w' d, Function.update answers w (some data) w' = some d →
          SoundMetrics (mapStatsToMets d) := by
        intro w' d hd
        by_cases hw : w' = w
        · subst hw
          rw [Function.update_self] at hd
          cases hd
          exact hdata
        · rw [Function.update_of_ne hw] at hd
          exact hheld answers (List.mem_of_getElem? hreq) w' d hd
      constructor
      · intro answers' hmem w' d hd
        rcases List.mem_or_eq_of_mem_set hmem with hmem | rfl
        · exact hheld answers' hmem w' d hd
        · exact hupd w' d hd
      · intro o ho
        simp only at ho
        split at ho
        · rename_i day3 day14 day30 h3 h14 h30
          cases List.mem_singleton.mp ho
          exact ⟨hupd _ _ h3, hupd _ _ h14, hupd _ _ h30⟩
        · cases ho

omit [DecidableEq N] [DecidableEq H] in
theorem fits_commit {db : Db N H} (h : Fits db) (db' : Db N H) : Fits (commit db db') := by
  unfold commit
  split
  · assumption
  · exact h

omit [DecidableEq H] in
theorem meets_of_none {s : State N H} {e : Instant × Event N H} (h : s.query? e.2 = none) :
    Meets s e := by
  intro q hq
  rw [h] at hq
  cases hq

/-- **INVERSION**: an event answers nothing, or a query runs. -/
theorem step_cases {s s' : State N H} {e : Instant × Event N H} {out : List (Out N H)}
    (h : step s e = some (s', out)) :
    (Meets s e ∧ out = [] ∧ (Fits s.db → Fits s'.db) ∧ (Held s → Held s'))
      ∨ ∃ (s₁ : State N H) (request : ℕ) (w : Window) (endTime : Instant),
        s₁.db = s.db ∧ s₁.requests = s.requests
        ∧ (Meets s e ↔ Timely s.db (w.start endTime) endTime.toDouble)
        ∧ (s₁.answer request w (s.db.getStats e.1 (w.start endTime) endTime.toDouble)).1 = s'
        ∧ out = .statistics s.db (w.start endTime) endTime.toDouble
            (s.db.getStats e.1 (w.start endTime) endTime.toDouble)
          :: (s₁.answer request w (s.db.getStats e.1 (w.start endTime) endTime.toDouble)).2 := by
  obtain ⟨now, ev⟩ := e
  unfold step at h
  split at h
  · cases h
  cases ev with
  | dbResource | internetOnline _ =>
      cases h
      exact .inl ⟨meets_of_none rfl, rfl, id, id⟩
  | timerRandomDaily | sendpayResult _ _ _ _ _ | listpeersAnalyzed _ _ _ _ | forwardFee _ _ _ _
  | externpay _ =>
      simp only at h
      split at h
      · cases h
        exact .inl ⟨meets_of_none rfl, rfl, id, id⟩
      · cases h
        exact .inl ⟨meets_of_none rfl, rfl, id, id⟩
  | requestPeerMetrics =>
      simp only at h
      split at h
      · cases h
        refine .inl ⟨meets_of_none rfl, rfl, id, fun hheld answers hmem w data hw => ?_⟩
        rcases List.mem_append.mp hmem with hmem | hmem
        · exact hheld answers hmem w data hw
        · -- the new request has no answer yet
          rw [List.mem_singleton.mp hmem] at hw
          cases hw
      · cases h
        exact .inl ⟨meets_of_none rfl, rfl, id, id⟩
  | restart =>
      cases h
      refine .inl ⟨meets_of_none rfl, rfl, id, fun _ answers hmem => ?_⟩
      cases hmem
  | transact k =>
      simp only at h
      cases htask : s.tasks[k]? with
      | none =>
          rw [htask] at h
          cases h
      | some task =>
          rw [htask] at h
          cases task with
          | getStats request w endTime =>
              refine .inr ⟨{ s with now := now, tasks := s.tasks.eraseIdx k }, request, w, endTime,
                rfl, rfl, ?_, ?_⟩
              · unfold Meets State.query?
                simp only [htask, Option.mem_some_iff, forall_eq']
              · cases h
                exact ⟨rfl, rfl⟩
          | cleanEntries | addSendpayresult _ _ _ _ _ | sample _ _ _ | addForwardfee _ _ _ _
          | externpay _ =>
              cases h
              refine .inl ⟨meets_of_none ?_, rfl, fun hfits => fits_commit hfits _, id⟩
              unfold State.query?
              simp only [htask]

/-- What holds after every run. -/
structure Kept (now : Instant) (es : List (Instant × Event N H)) (tr : List (Out N H))
    (s : State N H) : Prop where
  ran       : Machine.run step (State.init now) es = some (s, tr)
  fits      : Fits s.db
  sound_iff : (∀ o ∈ tr, o.Sound) ↔ Machine.Along step Meets (State.init now) es
  held      : (∀ o ∈ tr, o.Sound) → Held s

theorem Kept.next {now : Instant} {es : List (Instant × Event N H)} {tr out : List (Out N H)}
    {s s' : State N H} {e : Instant × Event N H} (hk : Kept now es tr s)
    (hstep : step s e = some (s', out)) : Kept now (es ++ [e]) (tr ++ out) s' := by
  have hran := Machine.run_snoc hk.ran hstep
  have halong := Machine.along_snoc (P := Meets) hk.ran hstep
  rcases step_cases hstep with ⟨hmeets, rfl, hfits, hheld⟩
    | ⟨s₁, request, w, endTime, hdb, hreq, hmeets, rfl, rfl⟩
  · rw [List.append_nil] at hran ⊢
    refine ⟨hran, hfits hk.fits, ?_, fun h => hheld (hk.held h)⟩
    rw [halong, ← hk.sound_iff]
    exact ⟨fun h => ⟨h, hmeets⟩, fun h => h.1⟩
  · have hiff := soundAnswer_iff s.db e.1 w endTime
    -- what a sound answer is added to stays sound
    have hmore : (∀ o ∈ tr, o.Sound) → Timely s.db (w.start endTime) endTime.toDouble →
        Held (s₁.answer request w (s.db.getStats e.1 (w.start endTime) endTime.toDouble)).1
          ∧ ∀ o ∈ (s₁.answer request w
            (s.db.getStats e.1 (w.start endTime) endTime.toDouble)).2, o.Sound := by
      intro htr htimely
      refine answer_sound ?_
        (soundMetrics_of_soundAnswer (touches_length hk.fits _ _) (hiff.mpr htimely))
      intro answers hmem
      exact hk.held htr answers (hreq ▸ hmem)
    refine ⟨hran, ?_, ?_, ?_⟩
    · rw [answer_db, hdb]
      exact hk.fits
    · rw [halong, ← hk.sound_iff, hmeets]
      constructor
      · intro h
        refine ⟨fun o ho => h o (List.mem_append_left _ ho), hiff.mp ?_⟩
        exact h _ (List.mem_append_right _ List.mem_cons_self)
      · rintro ⟨htr, htimely⟩ o ho
        rcases List.mem_append.mp ho with ho | ho
        · exact htr o ho
        rcases List.mem_cons.mp ho with rfl | ho
        · exact hiff.mpr htimely
        · exact (hmore htr htimely).2 o ho
    · intro h
      have htr : ∀ o ∈ tr, o.Sound := fun o ho => h o (List.mem_append_left _ ho)
      have hsound := h _ (List.mem_append_right _ List.mem_cons_self)
      exact (hmore htr (hiff.mp hsound)).1

/-- **HEADLINE (metrics)**: in a run all answers are sound exactly if every query
    finds the peers of its window recorded before the window's end. -/
theorem answers_sound_iff {now : Instant} {es : List (Instant × Event N H)}
    {tr : List (Out N H)} {s : State N H}
    (hrun : Machine.run step (State.init now) es = some (s, tr)) :
    (∀ o ∈ tr, o.Sound) ↔ Machine.Along step Meets (State.init now) es := by
  have hinit : Kept now ([] : List (Instant × Event N H)) [] (State.init now) := by
    have hpos : 0 < 2 ^ 63 := by norm_num
    refine ⟨rfl, ⟨hpos, hpos, hpos⟩, ?_, ?_⟩
    · refine ⟨fun _ => True.intro, ?_⟩
      rintro - o ho
      cases ho
    · rintro - answers hmem
      cases hmem
  have hkept := Machine.run_invariant (P := fun _ _ => True) (I := Kept now) hinit
    (fun es tr s e s' out hk _ hstep => hk.next hstep) (Machine.along_true _ _) hrun
  exact hkept.sound_iff

end Machine

/-! ## A wait in between -/

/-- A time in whole seconds. -/
def second (n : ℕ) (h1 : 1 ≤ n) (h : n < 2 ^ 53) : Instant where
  q       := n
  one_le  := by exact_mod_cast h1
  lt      := by exact_mod_cast h
  rounded := Double.round_natCast h

/-- So many seconds after the million. -/
def after (n : ℕ) : Instant := second (1000000 + n % 10) (by omega) (by omega)

/-- For each entry of an answer its start, its end and its successes for each day. -/
def Out.entries : Out ℕ ℕ → List (Double × Double × Double)
  | .statistics _ _ _ data =>
      data.rows.map (fun e => (e.2.startTime, e.2.endTime, (statsToMets e.2).successPerDay))
  | .metrics _ _ _ => []

/-- A payment's result comes at `paid` and is recorded at `recorded`; metrics are
    asked for at `asked`. -/
def payment (paid asked recorded : ℕ) (reached : Bool) : List (Instant × Event ℕ ℕ) :=
  [ (after 0, .dbResource), (after 0, .transact 0)
  , (after paid, .sendpayResult 7 (.finite 0) (.finite 1) 9 reached) ]
    ++ (if recorded < asked then
        [(after recorded, .transact 0), (after asked, .requestPeerMetrics)]
      else [(after asked, .requestPeerMetrics), (after recorded, .transact 0)])
    ++ [(after 9, .transact 0), (after 9, .transact 0), (after 9, .transact 0)]

theorem answers_sound_iff_payment :
    ∃ s tr, Machine.run step (State.init (after 0)) (payment 1 3 2 true) = some (s, tr)
      ∧ tr.length = 4 ∧ ∀ o ∈ tr, o.Sound := by
  have hrun : (Machine.run step (State.init (after 0)) (payment 1 3 2 true)).map
      (fun r => r.2.length) = some 4 := by decide +kernel
  obtain ⟨⟨s, tr⟩, hrun, hlen⟩ := Option.map_eq_some_iff.mp hrun
  exact ⟨s, tr, hrun, hlen, (answers_sound_iff hrun).mpr (by decide +kernel)⟩

/-- **COUNTEREXAMPLE**: the payment waits until after the window has ended, and its
    peer starts after the end; or all is at one time, and its peer starts at it. -/
theorem negative_duration :
    (Machine.run step (State.init (after 0)) (payment 1 2 3 true)).map
        (fun r => r.2.flatMap Out.entries)
      = some (List.replicate 3 (.finite 1000003, .finite 1000002, .finite (-86400)))
    ∧ (Machine.run step (State.init (after 0)) (payment 1 1 1 false)).map
        (fun r => r.2.flatMap Out.entries)
      = some (List.replicate 3 (.finite 1000001, .finite 1000001, .nan)) := by
  decide +kernel

end PeerMetrician
