import Clboss.AmountProofs
import Clboss.DoubleProofs
import Clboss.UniqueTableProofs

/-! # `Boss::Mod::PeerStatistician` — what is recorded about peers

    Payments, connection samples and forward fees are rows with a peer and a
    time; a peer has a row of its own from its first record on.  A query selects
    the rows within a WINDOW and adds them up, one entry for each peer that
    occurs; the entry's start is the window's, or the peer's creation if that
    is later.

    Every loop of the query does the same to an entry: create it if needed, then
    add one row.  `touches` lists these additions in the order they are made,
    and `mem_getStats` says that an entry is what its own touches make of a
    fresh one. -/

namespace PeerStatistician

open UniqueTable Ln

/-! ## The database -/

/-- What `Ev::now` reads: a double, in seconds since 1970, that has not run out
    of whole seconds. -/
structure Instant where
  q       : ℚ
  one_le  : 1 ≤ q
  lt      : q < 2 ^ 53
  rounded : Double.round q = q
deriving DecidableEq

def Instant.toDouble (t : Instant) : Double := .finite t.q

variable {N H : Type}

/-- A row of `"PeerStatistician_peers"`. -/
structure Peer (N : Type) where
  id       : N
  creation : Instant

/-- A row of `"PeerStatistician_sendpayresults"`. -/
structure Sendpay (N : Type) where
  id                 : N
  creation           : Instant
  lockrealtime       : Double
  destinationReached : Bool

/-- A row of `"PeerStatistician_connection"`. -/
structure Connection (N : Type) where
  id        : N
  creation  : Instant
  connected : Bool

/-- A row of `"PeerStatistician_forwardfees"`. -/
structure ForwardFee (N : Type) where
  inId           : N
  outId          : N
  creation       : Instant
  fee            : Amount
  resolutionTime : Double

/-- A row of `"PeerStatistician_externpays"`. -/
structure Externpay (H : Type) where
  hash     : H
  creation : Instant

structure Db (N H : Type) where
  peers          : Table (Peer.id (N := N))
  sendpayresults : List (Sendpay N)
  connection     : List (Connection N)
  forwardfees    : List (ForwardFee N)
  externpays     : Table (Externpay.hash (H := H))

def Db.empty : Db N H := ⟨.empty, [], [], [], .empty⟩

section Statements

variable [DecidableEq N] [DecidableEq H]

/-- `max_entry_age`. -/
def maxEntryAge : Double := .finite (3 * 30 * 24 * 60 * 60)

/-- `creation + :max_age < :now`. -/
def old (now creation : Instant) : Bool := (creation.toDouble.add maxEntryAge).lt now.toDouble

/-- `clean_entries`. -/
def Db.cleanEntries (db : Db N H) (now : Instant) : Db N H where
  peers          := db.peers
  sendpayresults := db.sendpayresults.filter (fun r => !old now r.creation)
  connection     := db.connection.filter (fun r => !old now r.creation)
  forwardfees    := db.forwardfees.filter (fun r => !old now r.creation)
  externpays     := db.externpays.deleteWhere (fun r => old now r.creation)

/-- `make_entry`. -/
def Db.makeEntry (db : Db N H) (now : Instant) (id : N) : Db N H :=
  { db with peers := db.peers.insertOrIgnore ⟨id, now⟩ }

/-- The transaction of `add_sendpayresult`; the row is not stamped with the time
    of the transaction. -/
def Db.addSendpayresult (db : Db N H) (now : Instant) (id : N) (creation : Instant)
    (lockrealtime : Double) (paymentHash : H) (destinationReached : Bool) : Db N H :=
  if (db.externpays.get paymentHash).isSome then db
  else
    let db := db.makeEntry now id
    { db with sendpayresults :=
        db.sendpayresults ++ [⟨id, creation, lockrealtime, destinationReached⟩] }

/-- `add_connection`. -/
def Db.addConnection (db : Db N H) (now : Instant) (connected : Bool) (id : N) : Db N H :=
  let db := db.makeEntry now id
  { db with connection := db.connection ++ [⟨id, now, connected⟩] }

/-- `destroy_unchanneled`; rows of the other tables go with their peer. -/
def Db.destroyUnchanneled (db : Db N H) (channeled : List N) : Db N H where
  peers          := db.peers.deleteWhere (fun p => p.id ∉ channeled)
  sendpayresults := db.sendpayresults.filter (fun r => r.id ∈ channeled)
  connection     := db.connection.filter (fun r => r.id ∈ channeled)
  forwardfees    := db.forwardfees.filter (fun r => r.inId ∈ channeled ∧ r.outId ∈ channeled)
  externpays     := db.externpays

/-- The transaction of a `ListpeersAnalyzedResult`. -/
def Db.sample (db : Db N H) (now : Instant) (connected disconnected : List N)
    (allPeersDisconnected : Bool) : Db N H :=
  let db := connected.foldl (fun db n => db.addConnection now true n) db
  let db :=
    if allPeersDisconnected then db
    else disconnected.foldl (fun db n => db.addConnection now false n) db
  db.destroyUnchanneled (connected ++ disconnected)

/-- `add_forwardfee`. -/
def Db.addForwardfee (db : Db N H) (now : Instant) (inId outId : N) (fee : Amount)
    (resolutionTime : Double) : Db N H :=
  let db := (db.makeEntry now inId).makeEntry now outId
  { db with forwardfees := db.forwardfees ++ [⟨inId, outId, now, fee, resolutionTime⟩] }

/-- `externpay`. -/
def Db.externpay (db : Db N H) (now : Instant) (hash : H) : Db N H :=
  { db with externpays := db.externpays.insertOrReplace ⟨hash, now⟩ }

/-! ## The query -/

/-- `Msg::PeerStatistics`. -/
structure PeerStatistics where
  startTime     : Double
  endTime       : Double
  age           : Double
  lockrealtime  : Double
  attempts      : Nat
  successes     : Nat
  connects      : Nat
  connectChecks : Nat
  inFee         : Amount
  outFee        : Amount

/-- A map from nodes to entries. -/
abbrev Data (N : Type) := Table (Prod.fst : N × PeerStatistics → N)

/-- `:start_time <= creation AND creation <= :end_time`. -/
def within (startTime endTime : Double) (creation : Instant) : Bool :=
  startTime.le creation.toDouble && creation.toDouble.le endTime

/-- `node_start`. -/
def Db.nodeStart (db : Db N H) (node : N) : Double :=
  match db.peers.get node with
  | none   => .finite 0
  | some p => p.creation.toDouble

/-- A new entry, as `get_entry` fills it in. -/
def Db.newEntry (db : Db N H) (now : Instant) (startTime endTime : Double) (node : N) :
    PeerStatistics where
  startTime     := if startTime.lt (db.nodeStart node) then db.nodeStart node else startTime
  endTime       := endTime
  age           := now.toDouble.sub (db.nodeStart node)
  lockrealtime  := .finite 0
  attempts      := 0
  successes     := 0
  connects      := 0
  connectChecks := 0
  inFee         := .sat 0
  outFee        := .sat 0

/-- `get_entry`, and what is then done to the entry. -/
def touch (fresh : N → PeerStatistics) (data : Data N) (node : N)
    (f : PeerStatistics → PeerStatistics) : Data N :=
  (data.insertOrIgnore (node, fresh node)).update node (fun e => (e.1, f e.2)) (fun _ => rfl)

/-- A payment is counted. -/
def PeerStatistics.addSendpay (e : PeerStatistics) (r : Sendpay N) : PeerStatistics :=
  { e with
    lockrealtime := e.lockrealtime.add r.lockrealtime
    attempts     := e.attempts + 1
    successes    := if r.destinationReached then e.successes + 1 else e.successes }

/-- A connection sample is counted. -/
def PeerStatistics.addConnection (e : PeerStatistics) (r : Connection N) : PeerStatistics :=
  { e with
    connectChecks := e.connectChecks + 1
    connects      := if r.connected then e.connects + 1 else e.connects }

def PeerStatistics.addInFee (e : PeerStatistics) (fee : Amount) : PeerStatistics :=
  { e with inFee := e.inFee.add fee }

def PeerStatistics.addOutFee (e : PeerStatistics) (fee : Amount) : PeerStatistics :=
  { e with outFee := e.outFee.add fee }

/-- The transaction of `get_stats`. -/
def Db.getStats (db : Db N H) (now : Instant) (startTime endTime : Double) : Data N :=
  let fresh := db.newEntry now startTime endTime
  let data := (db.sendpayresults.filter (fun r => within startTime endTime r.creation)).foldl
    (fun data r => touch fresh data r.id (fun e => e.addSendpay r)) .empty
  let data := (db.connection.filter (fun r => within startTime endTime r.creation)).foldl
    (fun data r => touch fresh data r.id (fun e => e.addConnection r)) data
  (db.forwardfees.filter (fun r => within startTime endTime r.creation)).foldl
    (fun data r =>
      touch fresh (touch fresh data r.inId (fun e => e.addInFee r.fee)) r.outId
        (fun e => e.addOutFee r.fee)) data

/-! ## Touches -/

/-- One addition to one entry. -/
inductive Touch (N : Type) where
  | sendpay (r : Sendpay N)
  | connection (r : Connection N)
  | inFee (r : ForwardFee N)
  | outFee (r : ForwardFee N)

def Touch.node : Touch N → N
  | .sendpay r    => r.id
  | .connection r => r.id
  | .inFee r      => r.inId
  | .outFee r     => r.outId

def Touch.apply (e : PeerStatistics) : Touch N → PeerStatistics
  | .sendpay r    => e.addSendpay r
  | .connection r => e.addConnection r
  | .inFee r      => e.addInFee r.fee
  | .outFee r     => e.addOutFee r.fee

/-- All of a query, in order. -/
def Db.touches (db : Db N H) (startTime endTime : Double) : List (Touch N) :=
  (db.sendpayresults.filter (fun r => within startTime endTime r.creation)).map .sendpay
    ++ (db.connection.filter (fun r => within startTime endTime r.creation)).map .connection
    ++ (db.forwardfees.filter (fun r => within startTime endTime r.creation)).flatMap
      (fun r => [.inFee r, .outFee r])

/-- What the touches of a node make of its entry. -/
def accumulate (node : N) (ts : List (Touch N)) (e : PeerStatistics) : PeerStatistics :=
  (ts.filter (fun t => t.node = node)).foldl Touch.apply e

section Touch

variable (fresh : N → PeerStatistics)

/-- One touch, by node. -/
def touchOne (data : Data N) (t : Touch N) : Data N :=
  touch fresh data t.node (fun e => t.apply e)

omit [DecidableEq H] in
theorem getStats_eq (db : Db N H) (now : Instant) (startTime endTime : Double) :
    db.getStats now startTime endTime
      = (db.touches startTime endTime).foldl
        (touchOne (db.newEntry now startTime endTime)) .empty := by
  unfold Db.getStats Db.touches
  rw [List.foldl_append, List.foldl_append, List.foldl_map, List.foldl_map, List.foldl_flatMap]
  rfl

theorem get_touch_self (data : Data N) (node : N) (f : PeerStatistics → PeerStatistics) :
    (touch fresh data node f).get node
      = some (node, f (((data.get node).map Prod.snd).getD (fresh node))) := by
  unfold touch
  rw [Table.get_update_self, Table.get_insertOrIgnore_self data (node, fresh node)]
  cases hget : data.get node with
  | none => simp
  | some e => simp [Table.key_of_get hget]

theorem get_touch_ne (data : Data N) {node n : N} (f : PeerStatistics → PeerStatistics)
    (h : n ≠ node) : (touch fresh data node f).get n = data.get n := by
  unfold touch
  rw [Table.get_update_ne _ _ _ _ h, Table.get_insertOrIgnore_ne data (node, fresh node) h]

/-- **RUN**: what is there already, or a fresh entry, is touched in turn. -/
theorem get_foldl_touchOne (ts : List (Touch N)) (node : N) :
    ∀ data : Data N, (ts.foldl (touchOne fresh) data).get node
      = if ∃ t ∈ ts, t.node = node then
          some (node, accumulate node ts (((data.get node).map Prod.snd).getD (fresh node)))
        else data.get node := by
  induction ts with
  | nil =>
      intro data
      rw [if_neg (by rintro ⟨t, ht, -⟩; cases ht)]
      rfl
  | cons t ts ih =>
      intro data
      rw [List.foldl_cons, ih]
      by_cases ht : t.node = node
      · have hhead : ∃ t' ∈ t :: ts, t'.node = node := ⟨t, List.mem_cons_self, ht⟩
        have hacc : ∀ e, accumulate node (t :: ts) e = accumulate node ts (t.apply e) := by
          intro e
          unfold accumulate
          rw [List.filter_cons_of_pos (by simpa using ht), List.foldl_cons]
        subst ht
        rw [if_pos hhead, hacc]
        unfold touchOne
        rw [get_touch_self]
        split
        · rfl
        · -- none of the other touches is of this node
          rename_i hnone
          have hempty : ts.filter (fun t' => t'.node = t.node) = [] := by
            refine List.filter_eq_nil_iff.mpr (fun t' ht' heq => hnone ⟨t', ht', ?_⟩)
            simpa using heq
          unfold accumulate
          rw [hempty]
          rfl
      · have hiff : (∃ t' ∈ t :: ts, t'.node = node) ↔ ∃ t' ∈ ts, t'.node = node := by
          constructor
          · rintro ⟨t', ht', heq⟩
            rcases List.mem_cons.mp ht' with rfl | ht'
            · exact absurd heq ht
            · exact ⟨t', ht', heq⟩
          · rintro ⟨t', ht', heq⟩
            exact ⟨t', List.mem_cons_of_mem _ ht', heq⟩
        have hacc : ∀ e, accumulate node (t :: ts) e = accumulate node ts e := by
          intro e
          unfold accumulate
          rw [List.filter_cons_of_neg (by simpa using ht)]
        unfold touchOne
        simp only [get_touch_ne fresh data _ (Ne.symm ht), hacc, hiff]

end Touch

omit [DecidableEq H] in
/-- **SPEC**: an entry for each node that is touched, and its touches make it. -/
theorem mem_getStats {db : Db N H} {now : Instant} {startTime endTime : Double} {node : N}
    {e : PeerStatistics} :
    (node, e) ∈ (db.getStats now startTime endTime).rows
      ↔ (∃ t ∈ db.touches startTime endTime, t.node = node)
        ∧ e = accumulate node (db.touches startTime endTime)
          (db.newEntry now startTime endTime node) := by
  have hget : (db.getStats now startTime endTime).get node
      = if ∃ t ∈ db.touches startTime endTime, t.node = node then
          some (node, accumulate node (db.touches startTime endTime)
            (db.newEntry now startTime endTime node))
        else none := by
    rw [getStats_eq, get_foldl_touchOne]
    rfl
  constructor
  · intro hmem
    have hsome := Table.get_of_mem hmem
    rw [show Prod.fst (node, e) = node from rfl, hget] at hsome
    split at hsome
    · rename_i htouched
      refine ⟨htouched, ?_⟩
      cases hsome
      rfl
    · cases hsome
  · rintro ⟨htouched, rfl⟩
    rw [if_pos htouched] at hget
    exact Table.mem_of_get hget

/-! ## What touches keep -/

section Accumulate

variable (ts : List (Touch N)) (e : PeerStatistics)

omit [DecidableEq N] [DecidableEq H] in
/-- What every touch keeps, all of them keep. -/
theorem foldl_apply_keeps {P : PeerStatistics → Prop}
    (hP : ∀ (t : Touch N) (e : PeerStatistics), P e → P (t.apply e)) (he : P e) :
    P (ts.foldl Touch.apply e) := by
  induction ts generalizing e with
  | nil => exact he
  | cons t ts ih => exact ih (t.apply e) (hP t e he)

omit [DecidableEq N] [DecidableEq H] in
theorem apply_times (t : Touch N) :
    (t.apply e).startTime = e.startTime ∧ (t.apply e).endTime = e.endTime := by
  cases t with
  | _ => exact ⟨rfl, rfl⟩

omit [DecidableEq N] [DecidableEq H] in
theorem apply_counts (t : Touch N) (h : e.successes ≤ e.attempts ∧ e.connects ≤ e.connectChecks) :
    (t.apply e).successes ≤ (t.apply e).attempts
      ∧ (t.apply e).connects ≤ (t.apply e).connectChecks := by
  obtain ⟨hs, hc⟩ := h
  cases t with
  | sendpay r =>
      refine ⟨?_, hc⟩
      show (if r.destinationReached then e.successes + 1 else e.successes) ≤ e.attempts + 1
      split
      · omega
      · omega
  | connection r =>
      refine ⟨hs, ?_⟩
      show (if r.connected then e.connects + 1 else e.connects) ≤ e.connectChecks + 1
      split
      · omega
      · omega
  | inFee r => exact ⟨hs, hc⟩
  | outFee r => exact ⟨hs, hc⟩

omit [DecidableEq N] [DecidableEq H] in
theorem foldl_attempts_le : (ts.foldl Touch.apply e).attempts ≤ e.attempts + ts.length := by
  induction ts generalizing e with
  | nil => exact Nat.le_refl _
  | cons t ts ih =>
      have hstep : (t.apply e).attempts ≤ e.attempts + 1 := by
        cases t with
        | sendpay r => exact Nat.le_refl _
        | connection r => exact Nat.le_succ _
        | inFee r => exact Nat.le_succ _
        | outFee r => exact Nat.le_succ _
      have hrec := ih (t.apply e)
      rw [List.foldl_cons, List.length_cons]
      omega

/-- What a touch adds to the incoming fees. -/
def Touch.inShare : Touch N → ℕ
  | .inFee r => r.fee.toMsat.toNat
  | _        => 0

/-- What a touch adds to the outgoing fees. -/
def Touch.outShare : Touch N → ℕ
  | .outFee r => r.fee.toMsat.toNat
  | _         => 0

omit [DecidableEq N] [DecidableEq H] in
/-- Fees add up to the largest amount there is. -/
theorem foldl_fees :
    (ts.foldl Touch.apply e).inFee.v.toNat
        = min (2 ^ 64 - 1) (e.inFee.v.toNat + (ts.map Touch.inShare).sum)
      ∧ (ts.foldl Touch.apply e).outFee.v.toNat
        = min (2 ^ 64 - 1) (e.outFee.v.toNat + (ts.map Touch.outShare).sum) := by
  induction ts generalizing e with
  | nil =>
      have hi := e.inFee.v.toNat_lt
      have ho := e.outFee.v.toNat_lt
      simp only [List.foldl_nil, List.map_nil, List.sum_nil, Nat.add_zero]
      omega
  | cons t ts ih =>
      have hstep : (t.apply e).inFee.v.toNat = min (2 ^ 64 - 1) (e.inFee.v.toNat + t.inShare)
          ∧ (t.apply e).outFee.v.toNat = min (2 ^ 64 - 1) (e.outFee.v.toNat + t.outShare) := by
        have hi := e.inFee.v.toNat_lt
        have ho := e.outFee.v.toNat_lt
        cases t with
        | sendpay r | connection r =>
            simp only [Touch.apply, PeerStatistics.addSendpay, PeerStatistics.addConnection,
              Touch.inShare, Touch.outShare, Nat.add_zero]
            omega
        | inFee r =>
            refine ⟨Amount.toNat_add e.inFee r.fee, ?_⟩
            show e.outFee.v.toNat = min (2 ^ 64 - 1) (e.outFee.v.toNat + 0)
            omega
        | outFee r =>
            refine ⟨?_, Amount.toNat_add e.outFee r.fee⟩
            show e.inFee.v.toNat = min (2 ^ 64 - 1) (e.inFee.v.toNat + 0)
            omega
      obtain ⟨hi, ho⟩ := ih (t.apply e)
      rw [List.foldl_cons, List.map_cons, List.map_cons, List.sum_cons, List.sum_cons, hi, ho,
        hstep.1, hstep.2]
      omega

end Accumulate

/-! ## Fees within a window -/

/-- The fees recorded within the window, of forwards in through the node. -/
def Db.recordedIn (db : Db N H) (startTime endTime : Double) (node : N) : ℕ :=
  ((db.forwardfees.filter (fun r => within startTime endTime r.creation ∧ r.inId = node)).map
    (fun r => r.fee.toMsat.toNat)).sum

/-- And out through it. -/
def Db.recordedOut (db : Db N H) (startTime endTime : Double) (node : N) : ℕ :=
  ((db.forwardfees.filter (fun r => within startTime endTime r.creation ∧ r.outId = node)).map
    (fun r => r.fee.toMsat.toNat)).sum

omit [DecidableEq H] in
/-- The touches of a node carry what is recorded for it. -/
theorem sum_shares (db : Db N H) (startTime endTime : Double) (node : N) :
    (((db.touches startTime endTime).filter (fun t => t.node = node)).map Touch.inShare).sum
        = db.recordedIn startTime endTime node
      ∧ (((db.touches startTime endTime).filter (fun t => t.node = node)).map Touch.outShare).sum
        = db.recordedOut startTime endTime node := by
  have hzero : ∀ (α : Type) (f : α → Touch N) (share : Touch N → ℕ) (l : List α),
      (∀ a, share (f a) = 0) →
      (((l.map f).filter (fun t => t.node = node)).map share).sum = 0 := by
    intro α f share l hshare
    refine List.sum_eq_zero (fun x hx => ?_)
    obtain ⟨t, ht, rfl⟩ := List.mem_map.mp hx
    obtain ⟨a, -, rfl⟩ := List.mem_map.mp (List.mem_of_mem_filter ht)
    exact hshare a
  have hfees : ∀ l : List (ForwardFee N),
      (((l.flatMap (fun r => [Touch.inFee r, .outFee r])).filter
          (fun t => t.node = node)).map Touch.inShare).sum
        = ((l.filter (fun r => r.inId = node)).map (fun r => r.fee.toMsat.toNat)).sum
      ∧ (((l.flatMap (fun r => [Touch.inFee r, .outFee r])).filter
          (fun t => t.node = node)).map Touch.outShare).sum
        = ((l.filter (fun r => r.outId = node)).map (fun r => r.fee.toMsat.toNat)).sum := by
    intro l
    induction l with
    | nil => exact ⟨rfl, rfl⟩
    | cons r l ih =>
        have hpair : (([Touch.inFee r, .outFee r].filter (fun t => t.node = node)).map
              Touch.inShare).sum = (if r.inId = node then r.fee.toMsat.toNat else 0)
            ∧ (([Touch.inFee r, .outFee r].filter (fun t => t.node = node)).map
              Touch.outShare).sum = (if r.outId = node then r.fee.toMsat.toNat else 0) := by
          by_cases hin : r.inId = node <;> by_cases hout : r.outId = node <;>
            simp [hin, hout, Touch.node, Touch.inShare, Touch.outShare]
        obtain ⟨hpin, hpout⟩ := hpair
        obtain ⟨ihin, ihout⟩ := ih
        rw [List.flatMap_cons, List.filter_append, List.map_append, List.map_append,
          List.sum_append, List.sum_append, hpin, hpout, ihin, ihout]
        constructor
        · by_cases hin : r.inId = node
          · rw [List.filter_cons_of_pos (by simpa using hin), if_pos hin]
            rfl
          · rw [List.filter_cons_of_neg (by simpa using hin), if_neg hin, Nat.zero_add]
        · by_cases hout : r.outId = node
          · rw [List.filter_cons_of_pos (by simpa using hout), if_pos hout]
            rfl
          · rw [List.filter_cons_of_neg (by simpa using hout), if_neg hout, Nat.zero_add]
  unfold Db.touches Db.recordedIn Db.recordedOut
  simp only [List.filter_append, List.map_append, List.sum_append]
  rw [hzero _ Touch.sendpay Touch.inShare _ (fun _ => rfl),
    hzero _ Touch.connection Touch.inShare _ (fun _ => rfl),
    hzero _ Touch.sendpay Touch.outShare _ (fun _ => rfl),
    hzero _ Touch.connection Touch.outShare _ (fun _ => rfl), (hfees _).1, (hfees _).2,
    List.filter_filter, List.filter_filter]
  simp [Bool.and_comm]

/-! ## Entries -/

/-- What an entry says of the records it is made from. -/
structure Accounts (db : Db N H) (startTime endTime : Double) (node : N) (e : PeerStatistics) :
    Prop where
  start_eq      : e.startTime
    = if startTime.lt (db.nodeStart node) then db.nodeStart node else startTime
  end_eq        : e.endTime = endTime
  successes_le  : e.successes ≤ e.attempts
  connects_le   : e.connects ≤ e.connectChecks
  attempts_le   : e.attempts ≤ (db.touches startTime endTime).length
  inFee_eq      : e.inFee.v.toNat = min (2 ^ 64 - 1) (db.recordedIn startTime endTime node)
  outFee_eq     : e.outFee.v.toNat = min (2 ^ 64 - 1) (db.recordedOut startTime endTime node)

omit [DecidableEq H] in
/-- **HEADLINE (every entry)**: only the fees may stop short of the records. -/
theorem accounts_of_mem {db : Db N H} {now : Instant} {startTime endTime : Double} {node : N}
    {e : PeerStatistics} (h : (node, e) ∈ (db.getStats now startTime endTime).rows) :
    Accounts db startTime endTime node e := by
  obtain ⟨-, rfl⟩ := mem_getStats.mp h
  have htimes : ∀ ts : List (Touch N), ∀ e₀ : PeerStatistics,
      (ts.foldl Touch.apply e₀).startTime = e₀.startTime
        ∧ (ts.foldl Touch.apply e₀).endTime = e₀.endTime := by
    intro ts e₀
    refine foldl_apply_keeps ts e₀
      (P := fun e => e.startTime = e₀.startTime ∧ e.endTime = e₀.endTime) ?_ ⟨rfl, rfl⟩
    rintro t e ⟨hstart, hend⟩
    obtain ⟨ht, ht'⟩ := apply_times e t
    exact ⟨ht.trans hstart, ht'.trans hend⟩
  have hcounts := foldl_apply_keeps
    ((db.touches startTime endTime).filter (fun t => t.node = node))
    (db.newEntry now startTime endTime node)
    (P := fun e => e.successes ≤ e.attempts ∧ e.connects ≤ e.connectChecks)
    (fun t e he => apply_counts e t he) ⟨Nat.le_refl _, Nat.le_refl _⟩
  have hattempts := foldl_attempts_le
    ((db.touches startTime endTime).filter (fun t => t.node = node))
    (db.newEntry now startTime endTime node)
  have hfilter := List.length_filter_le (fun t : Touch N => decide (t.node = node))
    (db.touches startTime endTime)
  have hfees := foldl_fees ((db.touches startTime endTime).filter (fun t => t.node = node))
    (db.newEntry now startTime endTime node)
  have hshares := sum_shares db startTime endTime node
  have hzero : (db.newEntry now startTime endTime node).attempts = 0
      ∧ (db.newEntry now startTime endTime node).inFee.v.toNat = 0
      ∧ (db.newEntry now startTime endTime node).outFee.v.toNat = 0 := ⟨rfl, rfl, rfl⟩
  exact {
    start_eq := (htimes _ _).1
    end_eq := (htimes _ _).2
    successes_le := hcounts.1
    connects_le := hcounts.2
    attempts_le := by
      unfold accumulate
      omega
    inFee_eq := by
      unfold accumulate
      rw [hfees.1, hshares.1, hzero.2.1, Nat.zero_add]
    outFee_eq := by
      unfold accumulate
      rw [hfees.2, hshares.2, hzero.2.2, Nat.zero_add] }

end Statements

end PeerStatistician
