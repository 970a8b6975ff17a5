import Clboss.PeerFromScidMapperProofs

/-! # `Boss::Mod::XRebalancePartMonitor` — who earned by a part, and who paid

    A notification of the plugin tells of one part of a rebalance.  Its fields
    are read inside a `try` that catches everything, and of the parts only the
    completed ones count.  For each of these the mapper is asked for the peers at
    both ends, both requests at once; when both answers are there the part is
    attributed to the peers that are known, or dropped where neither is.

    The mapper is modelled with its other requesters.  In every interleaving of
    notifications, requests, snapshots and the mapper's loops each completed part
    comes to its end at most once, with the answers to its OWN two requests; and
    once the mapper has a snapshot and nothing is left to do, every part has
    (`run_attributes`). -/

open Json Jsmn Ln
open Surveyor (Exc lift)
open Notification (text amount lacks)
open PeerFromScidMapper (filterMap_snoc)

namespace XRebalancePartMonitor

/-- A completed part. -/
structure Part where
  firstHop  : Scid
  returnHop : Scid
  amount    : Amount
  fee       : Amount

/-- What a payload comes to. -/
inductive Reading where
  /-- A field is missing: an error is logged. -/
  | missing
  /-- Pending or failed. -/
  | unfinished
  | complete (p : Part)

/-- `s` up to the first slash. -/
def beforeSlash (s : List UInt8) : List UInt8 := s.takeWhile (· ≠ '/'.toUInt8)

/-- `scid_of_scidd(std::string(payload[key]))`. -/
def hop (payload : Object) (key : String) : Except Exc Scid := do
  let s ← text payload key
  match Scid.ofString (beforeSlash s) with
  | none   => .error .invalidArgument
  | some i => .ok i

/-- The nested form of the payload, if there is one. -/
def payloadOf (params : Object) : Except Exc Object := do
  if ← lift (params.has "xrebalance_part") then
    let o ← lift (params.index "xrebalance_part")
    return if o.isObject then o else params
  else return params

def fields : List String := ["status", "first_hop", "return_hop", "delivered_msat", "fee_msat"]

/-- The `try` block. -/
def read (params : Object) : Except Exc Reading := do
  let payload ← payloadOf params
  if ← lift (lacks payload fields) then return .missing
  else
    let status ← text payload "status"
    if status ≠ "complete".toUTF8.toList then return .unfinished
    else
      let firstHop ← hop payload "first_hop"
      let returnHop ← hop payload "return_hop"
      let delivered ← amount payload "delivered_msat"
      let fee ← amount payload "fee_msat"
      return .complete ⟨firstHop, returnHop, delivered, fee⟩

/-- One of the two ends of a part. -/
inductive End where
  | source
  | destination
deriving DecidableEq

/-- The part's number, and which end; the other requesters of the mapper are `none`. -/
abbrev Query := ℕ × End

def Part.scid (p : Part) : End → Scid
  | .source      => p.firstHop
  | .destination => p.returnHop

/-- `Msg::XRebalanceAttribution`. -/
structure Attribution where
  source      : Option NodeId
  destination : Option NodeId
  amount      : Amount
  fee         : Amount
deriving DecidableEq

/-- `operator bool` of an answer: the id of zeros is as null as the one of a channel that is not
    in the table. -/
def known (peer : Option NodeId) : Bool := peer.any ForwardFeeMonitor.known

/-- `cont`: where neither end is known, nothing is attributed. -/
def cont (source destination : Option NodeId) (p : Part) : Option Attribution :=
  if !known source && !known destination then none
  else some ⟨source, destination, p.amount, p.fee⟩

structure State where
  mapper : PeerFromScidMapper.State (Option Query)
  parts  : List Part
  /-- The requests that are to be raised. -/
  toAsk  : List Query
  known  : List (Query × Option NodeId)
  done   : List ℕ

def State.init : State := ⟨.init, [], [], [], []⟩

inductive Event where
  | notification (name : String) (params : Object)
  /-- The request reaches the mapper. -/
  | ask (q : Query)
  /-- Something else happens at the mapper. -/
  | mapper (e : PeerFromScidMapper.Event (Option Query))
  /-- Both answers are there. -/
  | finish (k : ℕ)

inductive Output where
  /-- An `Error` about the params. -/
  | unexpected (params : Object)
  | answered (q : Query) (peer : Option NodeId)
  /-- `cont`, and what it raises. -/
  | finished (k : ℕ) (a : Option Attribution)

/-- An answer of the mapper, if it is for us. -/
def answerOf : PeerFromScidMapper.Output (Option Query) → Option (Query × Option NodeId)
  | .response ⟨some q, _⟩ peer _ => some (q, peer)
  | _                            => none

/-- The mapper's event, and the answers for us that come of it. -/
def stepMapper (s : State) (e : PeerFromScidMapper.Event (Option Query)) :
    Option (State × List Output) :=
  match PeerFromScidMapper.step s.mapper e with
  | none          => none
  | some (m, out) =>
      let answers := out.filterMap answerOf
      some ({ s with mapper := m, known := s.known ++ answers },
        answers.map (fun a => .answered a.1 a.2))

/-- The answer to a request of ours. -/
def State.peer (s : State) (q : Query) : Option (Option NodeId) :=
  (s.known.find? (fun a => a.1 = q)).map Prod.snd

/-- An error in the log shows the params. -/
def logged (s : State) (params : Object) : Option (State × List Output) :=
  if params.prints then some (s, [.unexpected params]) else none

/-- The two requests of the part of that number. -/
def ends (k : ℕ) : List Query := [(k, .source), (k, .destination)]

/-- One event.  A failed assertion ends the program. -/
def step (s : State) : Event → Option (State × List Output)
  | .notification name params =>
      if name = "xrebalance_part" then
        match read params with
        | .ok (.complete p) =>
            some ({ s with parts := s.parts ++ [p],
                           toAsk := s.toAsk ++ ends s.parts.length }, [])
        | .ok .unfinished   => some (s, [])
        | .ok .missing      => logged s params
        | .error .assertion => none
        | .error _          => logged s params
      else some (s, [])
  | .ask q =>
      match s.parts[q.1]? with
      | some p =>
          if q ∈ s.toAsk then
            stepMapper { s with toAsk := s.toAsk.erase q } (.request ⟨some q, p.scid q.2⟩)
          else none
      | none => none
  | .mapper e =>
      match e.asks with
      | some ⟨some _, _⟩ => none
      | _                => stepMapper s e
  | .finish k =>
      match s.parts[k]?, s.peer (k, .source), s.peer (k, .destination) with
      | some p, some source, some destination =>
          if k ∈ s.done then none
          else some ({ s with done := s.done ++ [k] }, [.finished k (cont source destination p)])
      | _, _, _ => none

abbrev run := Machine.run step

/-! ## What is asked, answered and attributed -/

/-- A completed part that is read. -/
def Event.part : Event → Option Part
  | .notification name params =>
      if name = "xrebalance_part" then
        match read params with
        | .ok (.complete p) => some p
        | _                 => none
      else none
  | _ => none

def Output.answer : Output → Option (Query × Option NodeId)
  | .answered q peer => some (q, peer)
  | _                => none

def Output.finishes : Output → Option ℕ
  | .finished k _ => some k
  | _             => none

/-- The requests for the first `n` parts. -/
def queries (n : ℕ) : List Query := (List.range n).flatMap ends

theorem queries_succ (n : ℕ) : queries (n + 1) = queries n ++ ends n := by
  unfold queries
  rw [List.range_succ, List.flatMap_append, List.flatMap_singleton]

theorem mem_queries {n : ℕ} {q : Query} : q ∈ queries n ↔ q.1 < n := by
  obtain ⟨k, e⟩ := q
  unfold queries
  rw [List.mem_flatMap]
  constructor
  · rintro ⟨j, hj, hq⟩
    have hk : k = j := by
      obtain h | h := List.mem_pair.mp hq <;> exact congrArg Prod.fst h
    rw [hk]
    exact List.mem_range.mp hj
  · intro hk
    refine ⟨k, List.mem_range.mpr hk, ?_⟩
    cases e with
    | source => exact List.mem_cons_self
    | destination => exact List.mem_cons_of_mem _ List.mem_cons_self

theorem nodup_queries (n : ℕ) : (queries n).Nodup := by
  induction n with
  | zero => exact List.nodup_nil
  | succ n ih =>
      rw [queries_succ, List.nodup_append]
      refine ⟨ih, by simp [ends], ?_⟩
      rintro q hq q' hq' rfl
      have hlt : q.1 < n := mem_queries.mp hq
      have heq : q.1 = n := by
        obtain h | h := List.mem_pair.mp hq' <;> exact congrArg Prod.fst h
      omega

/-- The requests among those of the mapper that are ours. -/
def ours (rs : List (PeerFromScidMapper.Request (Option Query))) : List Query :=
  rs.filterMap PeerFromScidMapper.Request.requester

theorem ours_append (rs rs' : List (PeerFromScidMapper.Request (Option Query))) :
    ours (rs ++ rs') = ours rs ++ ours rs' := List.filterMap_append

/-- The mapper's answers to our requests. -/
theorem ours_answers (out : List (PeerFromScidMapper.Output (Option Query))) :
    ours (out.filterMap PeerFromScidMapper.Output.answers)
      = (out.filterMap answerOf).map Prod.fst := by
  induction out with
  | nil => rfl
  | cons o out ih =>
      cases o with
      | parked r => exact ih
      | response r peer replayed =>
          obtain ⟨requester, scid⟩ := r
          cases requester with
          | none => exact ih
          | some q => exact congrArg (q :: ·) ih

/-! ## What a step does -/

/-- Everything a step can do. -/
inductive Next (s : State) : Event → State → List Output → Prop where
  | ignore {name params out} (hpart : (Event.notification name params).part = none)
      (hout : out = [] ∨ out = [.unexpected params]) : Next s (.notification name params) s out
  | part {name params p} (hpart : (Event.notification name params).part = some p) :
      Next s (.notification name params)
        { s with parts := s.parts ++ [p], toAsk := s.toAsk ++ ends s.parts.length } []
  | ask {q p m out} (hp : s.parts[q.1]? = some p) (hq : q ∈ s.toAsk)
      (hm : PeerFromScidMapper.step s.mapper (.request ⟨some q, p.scid q.2⟩) = some (m, out)) :
      Next s (.ask q)
        { s with toAsk := s.toAsk.erase q, mapper := m, known := s.known ++ out.filterMap answerOf }
        ((out.filterMap answerOf).map (fun a => .answered a.1 a.2))
  | mapper {e m out} (he : e.asks.bind PeerFromScidMapper.Request.requester = none)
      (hm : PeerFromScidMapper.step s.mapper e = some (m, out)) :
      Next s (.mapper e) { s with mapper := m, known := s.known ++ out.filterMap answerOf }
        ((out.filterMap answerOf).map (fun a => .answered a.1 a.2))
  | finish {k p source destination} (hp : s.parts[k]? = some p)
      (hsource : s.peer (k, .source) = some source)
      (hdestination : s.peer (k, .destination) = some destination) (hk : k ∉ s.done) :
      Next s (.finish k) { s with done := s.done ++ [k] }
        [.finished k (cont source destination p)]

theorem logged_eq_some {s s' : State} {params : Object} {out : List Output}
    (h : logged s params = some (s', out)) : s' = s ∧ out = [.unexpected params] := by
  unfold logged at h
  split at h
  · cases h
    exact ⟨rfl, rfl⟩
  · cases h

theorem stepMapper_eq_some {s s' : State} {e : PeerFromScidMapper.Event (Option Query)}
    {out : List Output} (h : stepMapper s e = some (s', out)) :
    ∃ m mout, PeerFromScidMapper.step s.mapper e = some (m, mout)
      ∧ s' = { s with mapper := m, known := s.known ++ mout.filterMap answerOf }
      ∧ out = (mout.filterMap answerOf).map (fun a => .answered a.1 a.2) := by
  unfold stepMapper at h
  split at h
  · cases h
  · rename_i m mout hm
    cases h
    exact ⟨m, mout, hm, rfl, rfl⟩

theorem next_of_step {s s' : State} {e : Event} {out : List Output}
    (h : step s e = some (s', out)) : Next s e s' out := by
  cases e with
  | notification name params =>
      simp only [step] at h
      by_cases hname : name = "xrebalance_part"
      · rw [if_pos hname] at h
        have hpart : (Event.notification name params).part
            = match read params with | .ok (.complete p) => some p | _ => none := if_pos hname
        cases hread : read params with
        | error x =>
            rw [hread] at h hpart
            cases x with
            | assertion => cases h
            | _ =>
                obtain ⟨rfl, rfl⟩ := logged_eq_some h
                exact .ignore hpart (.inr rfl)
        | ok r =>
            rw [hread] at h hpart
            cases r with
            | missing =>
                obtain ⟨rfl, rfl⟩ := logged_eq_some h
                exact .ignore hpart (.inr rfl)
            | unfinished =>
                cases h
                exact .ignore hpart (.inl rfl)
            | complete p =>
                cases h
                exact .part hpart
      · rw [if_neg hname] at h
        cases h
        exact .ignore (if_neg hname) (.inl rfl)
  | ask q =>
      simp only [step] at h
      split at h
      · rename_i p hp
        split at h
        · rename_i hq
          obtain ⟨m, mout, hm, rfl, rfl⟩ := stepMapper_eq_some h
          exact .ask hp hq hm
        · cases h
      · cases h
  | mapper e =>
      simp only [step] at h
      split at h
      · cases h
      · rename_i hother
        obtain ⟨m, mout, hm, rfl, rfl⟩ := stepMapper_eq_some h
        refine .mapper ?_ hm
        cases hasks : e.asks with
        | none => rfl
        | some r =>
            obtain ⟨requester, scid⟩ := r
            cases requester with
            | none => rfl
            | some q => exact absurd hasks (hother q scid)
  | finish k =>
      simp only [step] at h
      split at h
      · rename_i p source destination hp hsource hdestination
        split at h
        · cases h
        · rename_i hk
          cases h
          exact .finish hp hsource hdestination hk
      · cases h

/-! ## A run -/

/-- What the event is to the mapper, where these are the parts. -/
def Event.atMapper (parts : List Part) :
    Event → Option (PeerFromScidMapper.Event (Option Query))
  | .ask q    => parts[q.1]?.map (fun p => .request ⟨some q, p.scid q.2⟩)
  | .mapper e => some e
  | _         => none

/-- What happens at the mapper. -/
def mapperEvents (es : List Event) : List (PeerFromScidMapper.Event (Option Query)) :=
  es.filterMap (Event.atMapper (es.filterMap Event.part))

variable {es : List Event} {tr : List Output} {s s' : State}

theorem mapperEvents_snoc {e : Event} (hpart : e.part = none) :
    mapperEvents (es ++ [e])
      = mapperEvents es ++ (e.atMapper (es.filterMap Event.part)).toList := by
  unfold mapperEvents
  rw [filterMap_snoc Event.part, hpart, Option.toList_none, List.append_nil, filterMap_snoc]

theorem mapperEvents_at {e : Event} {me : PeerFromScidMapper.Event (Option Query)}
    (hpart : e.part = none) (hat : e.atMapper (es.filterMap Event.part) = some me) :
    mapperEvents (es ++ [e]) = mapperEvents es ++ [me] := by
  rw [mapperEvents_snoc hpart, hat]
  rfl

/-- A further part changes no request that was raised before. -/
theorem mapperEvents_part {name : String} {params : Object} {p : Part}
    (hpart : (Event.notification name params).part = some p)
    (hasked : ∀ q, .ask q ∈ es → q.1 < (es.filterMap Event.part).length) :
    mapperEvents (es ++ [.notification name params]) = mapperEvents es := by
  unfold mapperEvents
  rw [filterMap_snoc Event.part, hpart, filterMap_snoc]
  refine (List.append_nil _).trans (List.filterMap_congr fun e he => ?_)
  cases e with
  | ask q =>
      simp only [Event.atMapper]
      rw [List.getElem?_append_left (hasked q he)]
  | _ => rfl

/-- **INVARIANT**: the mapper runs as it does alone; of the requests for the parts so far each
    is at the mapper or still to be raised; and what came to its end had its two answers. -/
structure Inv (es : List Event) (tr : List Output) (s : State) : Prop where
  mapped     : ∃ mtr, PeerFromScidMapper.run .init (mapperEvents es) = some (s.mapper, mtr)
    ∧ mtr.filterMap answerOf = s.known
  queried    : (ours ((mapperEvents es).filterMap PeerFromScidMapper.Event.asks) ++ s.toAsk).Perm
    (queries s.parts.length)
  parts      : s.parts = es.filterMap Event.part
  asked      : ∀ q, .ask q ∈ es → q.1 < s.parts.length
  foreign    : ∀ e, .mapper e ∈ es → e.asks.bind PeerFromScidMapper.Request.requester = none
  known      : tr.filterMap Output.answer = s.known
  done       : tr.filterMap Output.finishes = s.done
  once       : s.done.Nodup
  attributed : ∀ k a, .finished k a ∈ tr → ∃ p source destination, s.parts[k]? = some p
    ∧ ((k, .source), source) ∈ s.known ∧ ((k, .destination), destination) ∈ s.known
    ∧ a = cont source destination p

theorem inv_init : Inv [] [] .init where
  mapped     := ⟨[], rfl, rfl⟩
  queried    := .refl _
  parts      := rfl
  asked      := nofun
  foreign    := nofun
  known      := rfl
  done       := rfl
  once       := List.nodup_nil
  attributed := nofun

theorem answers_answered (as : List (Query × Option NodeId)) :
    (as.map (fun a => Output.answered a.1 a.2)).filterMap Output.answer = as :=
  (List.filterMap_map ..).trans (List.filterMap_some ..)

theorem finishes_answered (as : List (Query × Option NodeId)) :
    (as.map (fun a => Output.answered a.1 a.2)).filterMap Output.finishes = [] := by
  rw [List.filterMap_map, List.filterMap_eq_nil_iff]
  intro a _
  rfl

theorem mem_known_of_peer {q : Query} {peer : Option NodeId} (h : s.peer q = some peer) :
    (q, peer) ∈ s.known := by
  obtain ⟨⟨q', peer'⟩, hfind, rfl⟩ := Option.map_eq_some_iff.mp h
  have hq := List.find?_some hfind
  simp only [decide_eq_true_eq] at hq
  subst hq
  exact List.mem_of_find?_eq_some hfind

theorem peer_of_mem {q : Query} (h : q ∈ s.known.map Prod.fst) : ∃ peer, s.peer q = some peer := by
  obtain ⟨a, ha, hq⟩ := List.mem_map.mp h
  have hsome : (s.known.find? (fun a => a.1 = q)).isSome :=
    List.find?_isSome.mpr ⟨a, ha, decide_eq_true hq⟩
  obtain ⟨b, hb⟩ := Option.isSome_iff_exists.mp hsome
  exact ⟨b.2, congrArg (Option.map Prod.snd) hb⟩

/-- An event at the mapper: ours is a request that was to be raised. -/
theorem Inv.move (h : Inv es tr s) {e : Event} {me : PeerFromScidMapper.Event (Option Query)}
    {m : PeerFromScidMapper.State (Option Query)}
    {out : List (PeerFromScidMapper.Output (Option Query))} {toAsk : List Query}
    (hpart : e.part = none) (hat : e.atMapper s.parts = some me)
    (hm : PeerFromScidMapper.step s.mapper me = some (m, out))
    (hask : (ours me.asks.toList ++ toAsk).Perm s.toAsk)
    (hasked : ∀ q, e = .ask q → q.1 < s.parts.length)
    (hforeign : ∀ me', e = .mapper me' →
      me'.asks.bind PeerFromScidMapper.Request.requester = none) :
    Inv (es ++ [e]) (tr ++ (out.filterMap answerOf).map (fun a => .answered a.1 a.2))
      { s with toAsk := toAsk, mapper := m, known := s.known ++ out.filterMap answerOf } := by
  obtain ⟨mtr, hrun, hknown⟩ := h.mapped
  have hevents := mapperEvents_at hpart (h.parts ▸ hat)
  constructor
  · refine ⟨mtr ++ out, ?_, ?_⟩
    · rw [hevents]
      exact Machine.run_snoc hrun hm
    · rw [List.filterMap_append, hknown]
  · rw [hevents, filterMap_snoc, ours_append, List.append_assoc]
    exact (hask.append_left _).trans h.queried
  · rw [filterMap_snoc, hpart, Option.toList_none, List.append_nil]
    exact h.parts
  · intro q hq
    obtain hq | hq := List.mem_append.mp hq
    · exact h.asked q hq
    · exact hasked q (List.mem_singleton.mp hq).symm
  · intro me' hme'
    obtain hme' | hme' := List.mem_append.mp hme'
    · exact h.foreign me' hme'
    · exact hforeign me' (List.mem_singleton.mp hme').symm
  · rw [List.filterMap_append, h.known, answers_answered]
  · rw [List.filterMap_append, h.done, finishes_answered, List.append_nil]
  · exact h.once
  · intro k a hmem
    obtain hmem | hmem := List.mem_append.mp hmem
    · obtain ⟨p, source, destination, hp, hsource, hdestination, ha⟩ := h.attributed k a hmem
      exact ⟨p, source, destination, hp, List.mem_append_left _ hsource,
        List.mem_append_left _ hdestination, ha⟩
    · obtain ⟨b, -, hb⟩ := List.mem_map.mp hmem
      cases hb

/-- **STEP**: whatever happens keeps the invariant. -/
theorem inv_step {e : Event} {out : List Output} (h : Inv es tr s)
    (hs : step s e = some (s', out)) : Inv (es ++ [e]) (tr ++ out) s' := by
  cases next_of_step hs with
  | @ignore name params out hpart hout =>
      have hevents : mapperEvents (es ++ [.notification name params]) = mapperEvents es :=
        (mapperEvents_snoc hpart).trans (List.append_nil _)
      constructor
      · rw [hevents]
        exact h.mapped
      · rw [hevents]
        exact h.queried
      · rw [filterMap_snoc, hpart, Option.toList_none, List.append_nil]
        exact h.parts
      · intro q hq
        exact h.asked q (by simpa using hq)
      · intro me hme
        exact h.foreign me (by simpa using hme)
      · obtain rfl | rfl := hout <;> rw [List.filterMap_append, h.known] <;> exact List.append_nil _
      · obtain rfl | rfl := hout <;> rw [List.filterMap_append, h.done] <;> exact List.append_nil _
      · exact h.once
      · intro k a hmem
        obtain rfl | rfl := hout <;> exact h.attributed k a (by simpa using hmem)
  | @part name params p hpart =>
      have hevents := mapperEvents_part hpart (h.parts ▸ h.asked)
      constructor
      · rw [hevents]
        exact h.mapped
      · rw [hevents, List.length_append, List.length_singleton, queries_succ, ← List.append_assoc]
        exact h.queried.append_right _
      · rw [filterMap_snoc, hpart, ← h.parts]
        rfl
      · intro q hq
        have hlt := h.asked q (by simpa using hq)
        rw [List.length_append]
        exact Nat.lt_add_right _ hlt
      · intro me hme
        exact h.foreign me (by simpa using hme)
      · rw [List.append_nil]
        exact h.known
      · rw [List.append_nil]
        exact h.done
      · exact h.once
      · intro k a hmem
        rw [List.append_nil] at hmem
        obtain ⟨p', source, destination, hp', hrest⟩ := h.attributed k a hmem
        refine ⟨p', source, destination, ?_, hrest⟩
        rw [List.getElem?_append_left (List.getElem?_eq_some_iff.mp hp').1]
        exact hp'
  | @ask q p m out hp hq hm =>
      -- the request moves from those to be raised to those of the mapper
      refine h.move rfl ?_ hm (List.perm_cons_erase hq).symm ?_ nofun
      · simp only [Event.atMapper, hp, Option.map_some]
      · rintro q' ⟨⟩
        exact (List.getElem?_eq_some_iff.mp hp).1
  | @mapper me m out hme hm =>
      refine h.move rfl rfl hm ?_ nofun ?_
      · have hnil : ours me.asks.toList = [] := by
          cases hasks : me.asks with
          | none => rfl
          | some r =>
              rw [hasks] at hme
              exact List.filterMap_cons_none (show r.requester = none from hme)
        rw [hnil]
        exact .refl _
      · rintro me' ⟨⟩
        exact hme
  | @finish k p source destination hp hsource hdestination hk =>
      have hevents : mapperEvents (es ++ [.finish k]) = mapperEvents es :=
        (mapperEvents_snoc rfl).trans (List.append_nil _)
      constructor
      · rw [hevents]
        exact h.mapped
      · rw [hevents]
        exact h.queried
      · rw [filterMap_snoc]
        exact h.parts.trans (List.append_nil _).symm
      · intro q hq
        exact h.asked q (by simpa using hq)
      · intro me hme
        exact h.foreign me (by simpa using hme)
      · rw [List.filterMap_append, h.known]
        exact List.append_nil _
      · rw [List.filterMap_append, h.done]
        rfl
      · exact List.nodup_append.mpr ⟨h.once, List.nodup_singleton k, by
          rintro j hj j' hj' rfl
          exact hk (List.mem_singleton.mp hj' ▸ hj)⟩
      · intro j a hmem
        obtain hmem | hmem := List.mem_append.mp hmem
        · exact h.attributed j a hmem
        · cases List.mem_singleton.mp hmem
          exact ⟨p, source, destination, hp, mem_known_of_peer hsource,
            mem_known_of_peer hdestination, rfl⟩

/-- **RUN**: the invariant holds after every run. -/
theorem inv_of_run (hrun : run .init es = some (s, tr)) : Inv es tr s :=
  Machine.run_invariant (P := fun _ _ => True) (I := Inv) inv_init
    (fun _ _ _ _ _ _ h _ hs => inv_step h hs) (Machine.along_true _ _) hrun

/-- Of the requests for the parts so far each is answered, waits, or is to be raised. -/
theorem known_perm (h : Inv es tr s) :
    (s.known.map Prod.fst ++ (ours (s.mapper.loops.flatMap PeerFromScidMapper.Loop.waiting
      ++ s.mapper.pendings) ++ s.toAsk)).Perm (queries s.parts.length) := by
  obtain ⟨mtr, hrun, hknown⟩ := h.mapped
  have hperm := (PeerFromScidMapper.asks_perm hrun).filterMap PeerFromScidMapper.Request.requester
  have hours : (ours ((mapperEvents es).filterMap PeerFromScidMapper.Event.asks)).Perm
      (s.known.map Prod.fst ++ ours (s.mapper.loops.flatMap PeerFromScidMapper.Loop.waiting
        ++ s.mapper.pendings)) := by
    rw [← hknown, ← ours_answers, ← ours_append]
    exact hperm
  rw [← List.append_assoc]
  exact (hours.symm.append_right _).trans h.queried

/-- A request of ours is about its own channel. -/
theorem own_scid (h : Inv es tr s) {r : PeerFromScidMapper.Request (Option Query)} {q : Query}
    (hr : r ∈ (mapperEvents es).filterMap PeerFromScidMapper.Event.asks)
    (hq : r.requester = some q) : ∃ p, s.parts[q.1]? = some p ∧ r.scid = p.scid q.2 := by
  obtain ⟨me, hme, hasks⟩ := List.mem_filterMap.mp hr
  obtain ⟨e, he, hat⟩ := List.mem_filterMap.mp hme
  rw [← h.parts] at hat
  cases e with
  | ask q' =>
      obtain ⟨p, hp, rfl⟩ := Option.map_eq_some_iff.mp hat
      cases hasks
      cases hq
      exact ⟨p, hp, rfl⟩
  | mapper me' =>
      -- the other requesters do not ask in our name
      cases hat
      have hforeign := h.foreign me he
      rw [hasks] at hforeign
      exact absurd (hq.symm.trans hforeign) nofun
  | _ => cases hat

/-- Nothing is left to do, and the mapper has had a snapshot. -/
structure Settled (es : List Event) (s : State) : Prop where
  snapshot : ∃ e, .mapper e ∈ es ∧ e.snapshot ≠ none
  mapper   : ∀ i, step s (.mapper (.pop i)) = none ∧ step s (.mapper (.deliver i)) = none
  ask      : ∀ q, step s (.ask q) = none
  finish   : ∀ k, step s (.finish k) = none

theorem step_mapper_eq_none {e : PeerFromScidMapper.Event (Option Query)} (hasks : e.asks = none)
    (h : step s (.mapper e) = none) : PeerFromScidMapper.step s.mapper e = none := by
  simp only [step, hasks, stepMapper] at h
  split at h
  · assumption
  · cases h

/-- Then every request is answered. -/
theorem Settled.known (hset : Settled es s) (h : Inv es tr s) :
    (s.known.map Prod.fst).Perm (queries s.parts.length) := by
  have hperm := known_perm h
  obtain ⟨mtr, hrun, -⟩ := h.mapped
  obtain ⟨e, he, hsnap⟩ := hset.snapshot
  have hwaiting := PeerFromScidMapper.waiting_nil hrun
    ⟨e, List.mem_filterMap.mpr ⟨.mapper e, he, rfl⟩, hsnap⟩
    (fun i => ⟨step_mapper_eq_none rfl (hset.mapper i).1, step_mapper_eq_none rfl (hset.mapper i).2⟩)
  have hask : s.toAsk = [] := by
    rw [List.eq_nil_iff_forall_not_mem]
    intro q hq
    have hlt : q.1 < s.parts.length :=
      mem_queries.mp (hperm.subset (List.mem_append_right _ (List.mem_append_right _ hq)))
    -- the mapper takes every request
    have hnone := hset.ask q
    simp only [step, List.getElem?_eq_getElem hlt, if_pos hq, stepMapper] at hnone
    cases hnone
  rw [hwaiting, hask] at hperm
  simpa [ours] using hperm

theorem mem_trace (h : Inv es tr s) {q : Query} {peer : Option NodeId} (hmem : (q, peer) ∈ s.known) :
    .answered q peer ∈ tr := by
  rw [← h.known] at hmem
  obtain ⟨o, ho, hanswer⟩ := List.mem_filterMap.mp hmem
  cases o with
  | answered q' peer' =>
      cases hanswer
      exact ho
  | _ => cases hanswer

/-- Then every part has ended. -/
theorem Settled.done (hset : Settled es s) (h : Inv es tr s) :
    s.done.Perm (List.range s.parts.length) := by
  refine (List.perm_ext_iff_of_nodup h.once List.nodup_range).mpr fun k => ?_
  rw [List.mem_range]
  constructor
  · intro hk
    rw [← h.done] at hk
    obtain ⟨o, ho, hfinishes⟩ := List.mem_filterMap.mp hk
    cases o with
    | finished k' a =>
        cases hfinishes
        obtain ⟨p, -, -, hp, -⟩ := h.attributed k a ho
        exact (List.getElem?_eq_some_iff.mp hp).1
    | _ => cases hfinishes
  · intro hk
    have hpeer : ∀ e : End, ∃ peer, s.peer (k, e) = some peer := by
      intro e
      exact peer_of_mem ((hset.known h).symm.subset (mem_queries.mpr hk))
    obtain ⟨source, hsource⟩ := hpeer .source
    obtain ⟨destination, hdestination⟩ := hpeer .destination
    -- with both answers there, a part that has not ended still could
    by_contra hdone
    have hnone := hset.finish k
    simp only [step, List.getElem?_eq_getElem hk, hsource, hdestination, if_neg hdone] at hnone
    cases hnone

/-- What the mapper answers us is what it was told last of that end of the part. -/
theorem latest_of_move (hrun : run .init es = some (s, tr)) {e : Event} {out : List Output}
    (hs : step s e = some (s', out)) {me : PeerFromScidMapper.Event (Option Query)}
    {m : PeerFromScidMapper.State (Option Query)}
    {mout : List (PeerFromScidMapper.Output (Option Query))} (hpart : e.part = none)
    (hat : e.atMapper s.parts = some me) (hparts : s'.parts = s.parts)
    (hm : PeerFromScidMapper.step s.mapper me = some (m, mout)) {q : Query} {peer : Option NodeId}
    (hmem : (q, peer) ∈ mout.filterMap answerOf) : ∃ p t, s.parts[q.1]? = some p
      ∧ PeerFromScidMapper.Latest (mapperEvents es) t ∧ peer = t (p.scid q.2) := by
  have h := inv_of_run hrun
  obtain ⟨mtr, hmrun, -⟩ := h.mapped
  obtain ⟨o, ho, hanswer⟩ := List.mem_filterMap.mp hmem
  cases o with
  | parked r => cases hanswer
  | response r peer' replayed =>
      obtain ⟨requester, scid⟩ := r
      cases requester with
      | none => cases hanswer
      | some q' =>
          cases hanswer
          obtain ⟨t, hlatest, rfl⟩ := PeerFromScidMapper.latest_of_step hmrun hm ho
          -- what is answered was asked, and what was asked is about the part's own channel
          have hasks := PeerFromScidMapper.asks_perm (Machine.run_snoc hmrun hm)
          rw [← mapperEvents_at hpart (h.parts ▸ hat), List.filterMap_append] at hasks
          have hasked := hasks.symm.subset (List.mem_append_left _ (List.mem_append_right _
            (List.mem_filterMap.mpr ⟨_, ho, rfl⟩)))
          obtain ⟨p, hp, hscid⟩ := own_scid (inv_step h hs) hasked rfl
          rw [hparts] at hp
          exact ⟨p, t, hp, hlatest, congrArg t hscid⟩

theorem mem_of_answered {as : List (Query × Option NodeId)} {q : Query} {peer : Option NodeId}
    (hmem : .answered q peer ∈ as.map (fun a => Output.answered a.1 a.2)) : (q, peer) ∈ as := by
  obtain ⟨⟨q', peer'⟩, ha, heq⟩ := List.mem_map.mp hmem
  cases heq
  exact ha

/-- The same for any event. -/
theorem latest_of_step (hrun : run .init es = some (s, tr)) {e : Event} {out : List Output}
    (hs : step s e = some (s', out)) {q : Query} {peer : Option NodeId}
    (hmem : .answered q peer ∈ out) : ∃ p t, s.parts[q.1]? = some p
      ∧ PeerFromScidMapper.Latest (mapperEvents es) t ∧ peer = t (p.scid q.2) := by
  cases next_of_step hs with
  | @ask q' p m mout hp hq hm =>
      have hat : (Event.ask q').atMapper s.parts = some (.request ⟨some q', p.scid q'.2⟩) := by
        simp only [Event.atMapper, hp, Option.map_some]
      exact latest_of_move hrun hs rfl hat rfl hm (mem_of_answered hmem)
  | @mapper me m mout hme hm => exact latest_of_move hrun hs rfl rfl rfl hm (mem_of_answered hmem)
  | ignore hpart hout => obtain rfl | rfl := hout <;> simp at hmem
  | part hpart => cases hmem
  | finish => cases List.mem_singleton.mp hmem

/-- A peer is found, and not by an id of zeros. -/
def IsPeer (peer : Option NodeId) : Prop := ∃ n, peer = some n ∧ n.raw ≠ List.replicate 33 0

theorem known_iff (peer : Option NodeId) : known peer = true ↔ IsPeer peer := by
  cases peer with
  | none =>
      constructor
      · exact nofun
      · rintro ⟨n, hn, -⟩
        cases hn
  | some n =>
      constructor
      · intro h
        exact ⟨n, rfl, of_decide_eq_true h⟩
      · rintro ⟨n', hn, hraw⟩
        cases hn
        exact decide_eq_true hraw

/-- What the answers for both ends make of a part. -/
structure Attributes (source destination : Option NodeId) (p : Part) (a : Option Attribution) :
    Prop where
  dropped : ¬IsPeer source → ¬IsPeer destination → a = none
  booked  : IsPeer source ∨ IsPeer destination →
    a = some ⟨source, destination, p.amount, p.fee⟩

theorem attributes_cont (source destination : Option NodeId) (p : Part) :
    Attributes source destination p (cont source destination p) := by
  constructor
  · intro hsource hdestination
    rw [← known_iff, Bool.not_eq_true] at hsource hdestination
    simp [cont, hsource, hdestination]
  · intro h
    rw [← known_iff, ← known_iff] at h
    unfold cont
    rw [if_neg]
    rcases h with h | h <;> simp [h]

/-- **HEADLINE**: over every run of notifications, requests, and whatever happens at the mapper,
    what ends a part is what the answers to its own two requests make of it; no part ends twice
    and no request is answered twice; once the mapper has a snapshot and nothing is left to do,
    every completed part has ended.  And an answer is what the mapper was told last of the
    channel at that end of the part. -/
theorem run_attributes (hrun : run .init es = some (s, tr)) :
    (∀ k a, .finished k a ∈ tr → ∃ p source destination, (es.filterMap Event.part)[k]? = some p
        ∧ .answered (k, .source) source ∈ tr ∧ .answered (k, .destination) destination ∈ tr
        ∧ Attributes source destination p a)
      ∧ (tr.filterMap Output.finishes).Nodup
      ∧ ((tr.filterMap Output.answer).map Prod.fst).Nodup
      ∧ (Settled es s →
          (tr.filterMap Output.finishes).Perm (List.range (es.filterMap Event.part).length))
      ∧ ∀ e s' out q peer, step s e = some (s', out) → .answered q peer ∈ out →
          ∃ p t, (es.filterMap Event.part)[q.1]? = some p
            ∧ PeerFromScidMapper.Latest (mapperEvents es) t ∧ peer = t (p.scid q.2) := by
  have h := inv_of_run hrun
  rw [← h.parts, h.done, h.known]
  refine ⟨?_, h.once, ?_, fun hset => hset.done h, ?_⟩
  · intro k a hmem
    obtain ⟨p, source, destination, hp, hsource, hdestination, ha⟩ := h.attributed k a hmem
    rw [ha]
    exact ⟨p, source, destination, hp, mem_trace h hsource, mem_trace h hdestination,
      attributes_cont source destination p⟩
  · have hnodup := (known_perm h).nodup_iff.mpr (nodup_queries _)
    exact (List.nodup_append.mp hnodup).1
  · intro e s' out q peer hs hmem
    exact latest_of_step hrun hs hmem

/-- A part from channel `1x1x1` to channel `2x2x2`. -/
def sampleParams : Object :=
  some (.obj [("xrebalance_part".toUTF8.toList, .obj
    [("status".toUTF8.toList, .str "complete".toUTF8.toList),
      ("first_hop".toUTF8.toList, .str "1x1x1/0".toUTF8.toList),
      ("return_hop".toUTF8.toList, .str "2x2x2".toUTF8.toList),
      ("delivered_msat".toUTF8.toList, .str "7msat".toUTF8.toList),
      ("fee_msat".toUTF8.toList, .str "1msat".toUTF8.toList)])])

/-- The part, a request that the mapper keeps, a snapshot with the first channel only, and the
    other request. -/
def sampleEvents : List Event :=
  [.notification "xrebalance_part" sampleParams, .ask (0, .source),
    .mapper (.listpeersResult PeerFromScidMapper.samplePeers),
    .ask (0, .destination), .mapper (.pop 0), .mapper (.deliver 0), .finish 0]

def Output.ending : Output → Option (ℕ × Option Attribution)
  | .finished k a => some (k, a)
  | _             => none

/-- The channel at the other end is not known, and the peer at this one is. -/
theorem run_attributes_sample : ∃ s tr a, run .init sampleEvents = some (s, tr)
    ∧ .finished 0 (some a) ∈ tr
    ∧ a = ⟨some PeerFromScidMapper.somePeer, none, ⟨7⟩, ⟨1⟩⟩
    ∧ ∃ p source destination, (sampleEvents.filterMap Event.part)[0]? = some p
      ∧ .answered (0, .source) source ∈ tr ∧ .answered (0, .destination) destination ∈ tr
      ∧ Attributes source destination p (some a) := by
  have hends : (run .init sampleEvents).map (fun p => p.2.filterMap Output.ending)
      = some [(0, some ⟨some PeerFromScidMapper.somePeer, none, ⟨7⟩, ⟨1⟩⟩)] := by decide +kernel
  obtain ⟨⟨s, tr⟩, hrun, htr⟩ := Option.map_eq_some_iff.mp hends
  have hend := List.mem_singleton_self
    (0, some (⟨some PeerFromScidMapper.somePeer, none, ⟨7⟩, ⟨1⟩⟩ : Attribution))
  rw [← htr] at hend
  obtain ⟨o, ho, hending⟩ := List.mem_filterMap.mp hend
  cases o with
  | finished k a =>
      cases hending
      obtain ⟨p, source, destination, hp, hsource, hdestination, ha⟩ :=
        (run_attributes hrun).1 0 _ ho
      exact ⟨s, tr, _, hrun, ho, rfl, p, source, destination, hp, hsource, hdestination, ha⟩
  | _ => cases hending

end XRebalancePartMonitor
