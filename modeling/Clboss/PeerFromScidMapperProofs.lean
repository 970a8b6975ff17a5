import Clboss.MachineProofs
import Clboss.NotificationProofs

/-! # `Boss::Mod::PeerFromScidMapper` — whose channel a short id is

    Before the first snapshot of the peers the mapper knows nothing, and the
    requests it gets are queued.  The snapshot makes a table and starts a loop
    that raises the queued requests anew, one after the other, while further
    snapshots, notifications and requests arrive.

    Every request is answered exactly once, the queued ones in the order they
    came (`run_latest`): at each moment the requests so far are those answered,
    those of a loop and those in the queue.  And an answer is what was told LAST
    of the channel: by a notification since the last snapshot that could be
    read, or else by that snapshot.  What cannot be read changes nothing. -/

open Json Jsmn Ln
open Surveyor (Exc lift)

namespace PeerFromScidMapper

/-! ## What is said last -/

section

variable {α κ ν : Type}

/-- Nothing is said of `k`. -/
def Silent (f : α → Option (κ × ν)) (xs : List α) (k : κ) : Prop :=
  ∀ y ∈ xs, ∀ w, f y ≠ some (k, w)

/-- The last that has something to say of `k` says `v`. -/
def Last (f : α → Option (κ × ν)) (xs : List α) (k : κ) (v : ν) : Prop :=
  ∃ a x b, xs = a ++ x :: b ∧ f x = some (k, v) ∧ Silent f b k

/-- What is known of `k` after what is said, and was known before it. -/
def Tells (f : α → Option (κ × ν)) (xs : List α) (k : κ) (before after : Option ν) : Prop :=
  (∃ v, Last f xs k v ∧ after = some v) ∨ (Silent f xs k ∧ after = before)

variable {f : α → Option (κ × ν)} {xs : List α} {x : α} {k : κ} {before after : Option ν}

theorem Silent.snoc (h : Silent f xs k) (hx : ∀ w, f x ≠ some (k, w)) : Silent f (xs ++ [x]) k :=
  List.forall_mem_append.mpr ⟨h, List.forall_mem_singleton.mpr hx⟩

theorem Silent.cons (h : Silent f xs k) (hx : ∀ w, f x ≠ some (k, w)) : Silent f (x :: xs) k :=
  List.forall_mem_cons.mpr ⟨hx, h⟩

theorem tells_nil : Tells f [] k before before := .inr ⟨nofun, rfl⟩

/-- One more that is silent on `k`. -/
theorem Tells.snoc_silent (h : Tells f xs k before after) (hx : ∀ w, f x ≠ some (k, w)) :
    Tells f (xs ++ [x]) k before after := by
  obtain ⟨v, ⟨a, y, b, rfl, hy, hb⟩, rfl⟩ | ⟨hs, rfl⟩ := h
  · exact .inl ⟨v, ⟨a, y, b ++ [x], by simp, hy, hb.snoc hx⟩, rfl⟩
  · exact .inr ⟨hs.snoc hx, rfl⟩

/-- One more that speaks of `k` is the last. -/
theorem tells_snoc {v : ν} (hx : f x = some (k, v)) : Tells f (xs ++ [x]) k before (some v) :=
  .inl ⟨v, ⟨xs, x, [], rfl, hx, nofun⟩, rfl⟩

/-- One in front that is silent on `k`. -/
theorem Tells.cons_silent (h : Tells f xs k before after) (hx : ∀ w, f x ≠ some (k, w)) :
    Tells f (x :: xs) k before after := by
  obtain ⟨v, ⟨a, y, b, rfl, hy, hb⟩, rfl⟩ | ⟨hs, rfl⟩ := h
  · exact .inl ⟨v, ⟨x :: a, y, b, rfl, hy, hb⟩, rfl⟩
  · exact .inr ⟨hs.cons hx, rfl⟩

/-- One in front that speaks of `k` makes what is known before the others. -/
theorem Tells.cons {v : ν} (h : Tells f xs k (some v) after) (hx : f x = some (k, v)) :
    Tells f (x :: xs) k before after := by
  obtain ⟨v', ⟨a, y, b, rfl, hy, hb⟩, rfl⟩ | ⟨hs, rfl⟩ := h
  · exact .inl ⟨v', ⟨x :: a, y, b, rfl, hy, hb⟩, rfl⟩
  · exact .inl ⟨v, ⟨[], x, xs, rfl, hx, hs⟩, rfl⟩

theorem filterMap_snoc {β : Type} (g : α → Option β) (xs : List α) (x : α) :
    (xs ++ [x]).filterMap g = xs.filterMap g ++ (g x).toList := by
  rw [List.filterMap_append]
  cases hx : g x with
  | none => simp [hx]
  | some y => simp [hx]

end

/-! ## The code -/

variable {ρ : Type}

/-- `Msg::RequestPeerFromScid`, by a requester. -/
structure Request (ρ : Type) where
  requester : ρ
  scid      : Scid
deriving DecidableEq

/-- The map; a null id where there is no entry. -/
abbrev Table := Scid → Option NodeId

/-- `tmp[scid] = node`. -/
def Table.set (t : Table) (i : Scid) (n : NodeId) : Table := fun j => if j = i then some n else t j

/-- The valid short id of a channel, if it has one. -/
def channelScid (c : Object) : Except Exc (Option Scid) := do
  if ← lift (c.has "short_channel_id") then
    let o ← lift (c.index "short_channel_id")
    if o.isString then
      let s ← lift o.str
      if Scid.validString s then
        match Scid.ofString s with
        | none   => .error .invalidArgument
        | some i => return some i
      else return none
    else return none
  else return none

/-- The loop over the channels of all peers. -/
def listed : Table → List (NodeId × Object) → Except Exc Table
  | t, []           => .ok t
  | t, (n, c) :: cs =>
      match channelScid c with
      | .error e      => .error e
      | .ok none      => listed t cs
      | .ok (some i)  => listed (t.set i n) cs

/-- The channels of `cpeers`, in the order of the loops. -/
def channels (cpeers : List (NodeId × List Object)) : List (NodeId × Object) :=
  cpeers.flatMap (fun p => p.2.map (fun c => (p.1, c)))

/-- The `try` block about `channel_state_changed`: a channel and its peer, if it has them. -/
def readStateChanged (params : Object) : Except Exc (Option (Scid × NodeId)) := do
  let payload ← lift (params.index "channel_state_changed")
  match ← channelScid payload with
  | none   => return none
  | some i => do
      let n ← Notification.nodeId payload "peer_id"
      return some (i, n)

/-- The rest of `ppendings`, and the request that is being raised. -/
structure Loop (ρ : Type) where
  raised : Option (Request ρ)
  rest   : List (Request ρ)
deriving DecidableEq

def Loop.waiting (l : Loop ρ) : List (Request ρ) := l.raised.toList ++ l.rest

structure State (ρ : Type) where
  map      : Option Table
  pendings : List (Request ρ)
  /-- One `resume_pendings` for every snapshot. -/
  loops    : List (Loop ρ)

def State.init : State ρ := ⟨none, [], []⟩

inductive Event (ρ : Type) where
  | listpeersResult (cpeers : List (NodeId × List Object))
  | notification (name : String) (params : Object)
  | request (r : Request ρ)
  /-- A loop takes its next request and raises it. -/
  | pop (i : ℕ)
  /-- The request that a loop has raised arrives. -/
  | deliver (i : ℕ)

inductive Output (ρ : Type) where
  | parked (r : Request ρ)
  | response (r : Request ρ) (peer : Option NodeId) (replayed : Bool)

/-- The subscription to `RequestPeerFromScid`. -/
def requestPeer (s : State ρ) (r : Request ρ) (replayed : Bool) : State ρ × List (Output ρ) :=
  match s.map with
  | none   => ({ s with pendings := s.pendings ++ [r] }, [.parked r])
  | some t => (s, [.response r (t r.scid) replayed])

/-- One event.  A failed assertion ends the program; other exceptions leave the handler of
    `ListpeersResult` before anything is changed, and are dropped by that of the notification. -/
def step (s : State ρ) : Event ρ → Option (State ρ × List (Output ρ))
  | .listpeersResult cpeers =>
      match listed (fun _ => none) (channels cpeers) with
      | .ok t             => some (⟨some t, [], s.loops ++ [⟨none, s.pendings⟩]⟩, [])
      | .error .assertion => none
      | .error _          => some (s, [])
  | .notification name params =>
      if name = "channel_state_changed" then
        match s.map with
        | none   => some (s, [])
        | some t =>
            match readStateChanged params with
            | .ok (some (i, n)) => some ({ s with map := some (t.set i n) }, [])
            | .ok none          => some (s, [])
            | .error .assertion => none
            | .error _          => some (s, [])
      else some (s, [])
  | .request r => some (requestPeer s r false)
  | .pop i =>
      match s.loops[i]? with
      | some ⟨none, r :: rest⟩ => some ({ s with loops := s.loops.set i ⟨some r, rest⟩ }, [])
      | _                      => none
  | .deliver i =>
      match s.loops[i]? with
      | some ⟨some r, rest⟩ =>
          some (requestPeer { s with loops := s.loops.set i ⟨none, rest⟩ } r true)
      | _ => none

abbrev run := Machine.run (step (ρ := ρ))

/-! ## What events ask and tell, and what is answered -/

def Event.asks : Event ρ → Option (Request ρ)
  | .request r => some r
  | _          => none

/-- What a channel of a snapshot says. -/
def channelTells (c : NodeId × Object) : Option (Scid × NodeId) :=
  match channelScid c.2 with
  | .ok (some i) => some (i, c.1)
  | _            => none

/-- A snapshot that can be read. -/
def Event.snapshot : Event ρ → Option (List (NodeId × Object))
  | .listpeersResult cpeers =>
      match listed (fun _ => none) (channels cpeers) with
      | .ok _    => some (channels cpeers)
      | .error _ => none
  | _ => none

/-- What a notification says. -/
def Event.learned : Event ρ → Option (Scid × NodeId)
  | .notification name params =>
      if name = "channel_state_changed" then
        match readStateChanged params with
        | .ok r    => r
        | .error _ => none
      else none
  | _ => none

/-- Since the last snapshot that could be read, `t` is what was told last. -/
def Latest (es : List (Event ρ)) (t : Table) : Prop :=
  ∃ es₁ e es₂ cs, es = es₁ ++ e :: es₂ ∧ e.snapshot = some cs ∧ (∀ e' ∈ es₂, e'.snapshot = none)
    ∧ ∀ i, ∃ peer, Tells channelTells cs i none peer ∧ Tells Event.learned es₂ i peer (t i)

def Output.parks : Output ρ → Option (Request ρ)
  | .parked r => some r
  | _         => none

def Output.replays : Output ρ → Option (Request ρ)
  | .response r _ true => some r
  | _                  => none

def Output.answers : Output ρ → Option (Request ρ)
  | .response r _ _ => some r
  | _               => none

/-- A request that came from outside: it was queued, or answered on the spot. -/
def Output.receives : Output ρ → Option (Request ρ)
  | .parked r           => some r
  | .response r _ false => some r
  | _                   => none

/-! ## The table -/

theorem Table.set_self (t : Table) (i : Scid) (n : NodeId) : t.set i n i = some n := if_pos rfl

theorem Table.set_ne {t : Table} {i j : Scid} (h : j ≠ i) (n : NodeId) : t.set i n j = t j :=
  if_neg h

/-- **SPEC**: a snapshot that can be read gives every channel the peer that lists it last. -/
theorem listed_tells {t t' : Table} {cs : List (NodeId × Object)} (h : listed t cs = .ok t')
    (i : Scid) : Tells channelTells cs i (t i) (t' i) := by
  induction cs generalizing t with
  | nil =>
      cases h
      exact tells_nil
  | cons c cs ih =>
      obtain ⟨n, c⟩ := c
      unfold listed at h
      cases hc : channelScid c with
      | error e =>
          rw [hc] at h
          cases h
      | ok r =>
          rw [hc] at h
          cases r with
          | none =>
              have hsilent : ∀ w, channelTells (n, c) ≠ some (i, w) := by
                intro w
                simp [channelTells, hc]
              exact (ih h).cons_silent hsilent
          | some j =>
              have htold : channelTells (n, c) = some (j, n) := by simp [channelTells, hc]
              have htells := ih h
              by_cases hj : i = j
              · subst hj
                rw [Table.set_self] at htells
                exact htells.cons htold
              · rw [Table.set_ne hj] at htells
                refine htells.cons_silent fun w hw => ?_
                rw [htold] at hw
                cases hw
                exact hj rfl

/-- A snapshot makes its table the latest. -/
theorem latest_snapshot (es : List (Event ρ)) {e : Event ρ} {cs : List (NodeId × Object)} {t : Table}
    (he : e.snapshot = some cs) (h : listed (fun _ => none) cs = .ok t) : Latest (es ++ [e]) t :=
  ⟨es, e, [], cs, rfl, he, nofun, fun i => ⟨t i, listed_tells h i, tells_nil⟩⟩

/-- What is neither a snapshot nor says anything leaves it the latest. -/
theorem Latest.quiet {es : List (Event ρ)} {t : Table} (h : Latest es t) {e : Event ρ}
    (hsnap : e.snapshot = none) (hlearn : e.learned = none) : Latest (es ++ [e]) t := by
  obtain ⟨es₁, e₀, es₂, cs, rfl, he, hnone, htells⟩ := h
  have hnone' : ∀ e' ∈ es₂ ++ [e], e'.snapshot = none :=
    List.forall_mem_append.mpr ⟨hnone, List.forall_mem_singleton.mpr hsnap⟩
  refine ⟨es₁, e₀, es₂ ++ [e], cs, by simp, he, hnone', fun i => ?_⟩
  obtain ⟨peer, hlist, hlater⟩ := htells i
  refine ⟨peer, hlist, hlater.snoc_silent fun w hw => ?_⟩
  rw [hlearn] at hw
  cases hw

/-- What a notification says is the latest of its channel. -/
theorem Latest.learn {es : List (Event ρ)} {t : Table} (h : Latest es t) {e : Event ρ} {i : Scid}
    {n : NodeId} (hsnap : e.snapshot = none) (hlearn : e.learned = some (i, n)) :
    Latest (es ++ [e]) (t.set i n) := by
  obtain ⟨es₁, e₀, es₂, cs, rfl, he, hnone, htells⟩ := h
  have hnone' : ∀ e' ∈ es₂ ++ [e], e'.snapshot = none :=
    List.forall_mem_append.mpr ⟨hnone, List.forall_mem_singleton.mpr hsnap⟩
  refine ⟨es₁, e₀, es₂ ++ [e], cs, by simp, he, hnone', fun j => ?_⟩
  obtain ⟨peer, hlist, hlater⟩ := htells j
  refine ⟨peer, hlist, ?_⟩
  by_cases hj : j = i
  · subst hj
    rw [Table.set_self]
    exact tells_snoc hlearn
  · rw [Table.set_ne hj]
    refine hlater.snoc_silent fun w hw => ?_
    rw [hlearn] at hw
    cases hw
    exact hj rfl

/-- What is the latest came with a snapshot. -/
theorem Latest.exists_snapshot {es : List (Event ρ)} {t : Table} (h : Latest es t) :
    ∃ e ∈ es, e.snapshot ≠ none := by
  obtain ⟨es₁, e, es₂, cs, rfl, he, -⟩ := h
  refine ⟨e, by simp, ?_⟩
  rw [he]
  exact nofun

/-! ## What a step does -/

/-- Everything a step can do. -/
inductive Next (s : State ρ) : Event ρ → State ρ → List (Output ρ) → Prop where
  | snapshot {cpeers t} (h : listed (fun _ => none) (channels cpeers) = .ok t) :
      Next s (.listpeersResult cpeers) ⟨some t, [], s.loops ++ [⟨none, s.pendings⟩]⟩ []
  | learn {name params t i n} (hmap : s.map = some t)
      (h : (Event.notification (ρ := ρ) name params).learned = some (i, n)) :
      Next s (.notification name params) { s with map := some (t.set i n) } []
  | quiet {e} (hask : e.asks = none) (hsnap : e.snapshot = none)
      (hlearn : s.map = none ∨ e.learned = none) : Next s e s []
  | park {r} (hmap : s.map = none) :
      Next s (.request r) { s with pendings := s.pendings ++ [r] } [.parked r]
  | answer {r t} (hmap : s.map = some t) :
      Next s (.request r) s [.response r (t r.scid) false]
  | pop {i r rest} (hi : s.loops[i]? = some ⟨none, r :: rest⟩) :
      Next s (.pop i) { s with loops := s.loops.set i ⟨some r, rest⟩ } []
  | repark {i r rest} (hmap : s.map = none) (hi : s.loops[i]? = some ⟨some r, rest⟩) :
      Next s (.deliver i)
        ⟨s.map, s.pendings ++ [r], s.loops.set i ⟨none, rest⟩⟩ [.parked r]
  | replay {i r rest t} (hmap : s.map = some t) (hi : s.loops[i]? = some ⟨some r, rest⟩) :
      Next s (.deliver i) { s with loops := s.loops.set i ⟨none, rest⟩ }
        [.response r (t r.scid) true]

theorem next_of_step {s s' : State ρ} {e : Event ρ} {out : List (Output ρ)}
    (h : step s e = some (s', out)) : Next s e s' out := by
  cases e with
  | listpeersResult cpeers =>
      simp only [step] at h
      cases hl : listed (fun _ => none) (channels cpeers) with
      | ok t =>
          rw [hl] at h
          cases h
          exact .snapshot hl
      | error x =>
          have hsnap : (Event.listpeersResult (ρ := ρ) cpeers).snapshot = none := by
            simp [Event.snapshot, hl]
          rw [hl] at h
          cases x <;> cases h <;> exact .quiet rfl hsnap (.inr rfl)
  | notification name params =>
      simp only [step] at h
      by_cases hname : name = "channel_state_changed"
      · rw [if_pos hname] at h
        cases hmap : s.map with
        | none =>
            rw [hmap] at h
            cases h
            exact .quiet rfl rfl (.inl hmap)
        | some t =>
            rw [hmap] at h
            cases hread : readStateChanged params with
            | ok r =>
                rw [hread] at h
                have hlearn : (Event.notification (ρ := ρ) name params).learned = r := by
                  simp [Event.learned, hname, hread]
                cases r with
                | none =>
                    cases h
                    exact .quiet rfl rfl (.inr hlearn)
                | some p =>
                    cases h
                    exact .learn hmap hlearn
            | error x =>
                rw [hread] at h
                have hlearn : (Event.notification (ρ := ρ) name params).learned = none := by
                  simp [Event.learned, hname, hread]
                cases x <;> cases h <;> exact .quiet rfl rfl (.inr hlearn)
      · rw [if_neg hname] at h
        cases h
        exact .quiet rfl rfl (.inr (by simp [Event.learned, hname]))
  | request r =>
      simp only [step, requestPeer] at h
      cases hmap : s.map with
      | none =>
          rw [hmap] at h
          cases h
          have hpark : Next s (.request r) _ _ := .park hmap
          rwa [hmap] at hpark
      | some t =>
          rw [hmap] at h
          cases h
          exact .answer hmap
  | pop i =>
      simp only [step] at h
      split at h
      · rename_i hi
        cases h
        exact .pop hi
      · cases h
  | deliver i =>
      simp only [step] at h
      split at h
      · rename_i hi
        simp only [requestPeer] at h
        cases hmap : s.map with
        | none =>
            rw [hmap] at h
            cases h
            have hpark := Next.repark hmap hi
            rwa [hmap] at hpark
        | some t =>
            rw [hmap] at h
            cases h
            have hreplay := Next.replay hmap hi
            rwa [hmap] at hreplay
      · cases h

/-! ## A run -/

/-- **INVARIANT**: the queue is for the time before the first snapshot, what was in it is the
    first loop's, and what was queued comes out in the order it came. -/
structure Inv (es : List (Event ρ)) (tr : List (Output ρ)) (s : State ρ) : Prop where
  early    : s.map = none → s.loops = [] ∧ ∀ e ∈ es, e.snapshot = none
  late     : ∀ t, s.map = some t → s.pendings = [] ∧ Latest es t
  alone    : ∀ l ∈ s.loops.tail, l.waiting = []
  fifo     : tr.filterMap Output.parks
    = tr.filterMap Output.replays ++ s.loops.flatMap Loop.waiting ++ s.pendings
  received : tr.filterMap Output.receives = es.filterMap Event.asks

theorem inv_init : Inv [] [] (State.init (ρ := ρ)) :=
  ⟨fun _ => ⟨rfl, nofun⟩, nofun, nofun, rfl, rfl⟩

variable {es : List (Event ρ)} {tr : List (Output ρ)} {s s' : State ρ}

/-- A loop in which a request waits is the first. -/
theorem Inv.first (h : Inv es tr s) {i : ℕ} {l : Loop ρ} (hi : s.loops[i]? = some l)
    (hl : l.waiting ≠ []) : i = 0 ∧ ∃ ls, s.loops = l :: ls := by
  have halone := h.alone
  cases hloops : s.loops with
  | nil =>
      rw [hloops] at hi
      cases hi
  | cons l₀ ls =>
      rw [hloops] at hi halone
      cases i with
      | zero =>
          cases hi
          exact ⟨rfl, ls, rfl⟩
      | succ i => exact absurd (halone l (List.mem_of_getElem? hi)) hl

/-- No snapshot yet, and none now. -/
theorem Inv.early_snoc (h : Inv es tr s) {e : Event ρ} (he : e.snapshot = none)
    (hmap : s.map = none) : s.loops = [] ∧ ∀ e' ∈ es ++ [e], e'.snapshot = none := by
  obtain ⟨hloops, hes⟩ := h.early hmap
  exact ⟨hloops, List.forall_mem_append.mpr ⟨hes, List.forall_mem_singleton.mpr he⟩⟩

/-- What is neither a snapshot nor says anything leaves the table the latest. -/
theorem Inv.late_snoc (h : Inv es tr s) {e : Event ρ} (hsnap : e.snapshot = none)
    (hlearn : e.learned = none) {t : Table} (hmap : s.map = some t) :
    s.pendings = [] ∧ Latest (es ++ [e]) t := by
  obtain ⟨hpendings, hlatest⟩ := h.late t hmap
  exact ⟨hpendings, hlatest.quiet hsnap hlearn⟩

/-- The loop of a further snapshot has nothing to raise. -/
theorem Inv.alone_snoc (h : Inv es tr s) :
    ∀ l ∈ (s.loops ++ [(⟨none, s.pendings⟩ : Loop ρ)]).tail, l.waiting = [] := by
  have halone := h.alone
  cases hloops : s.loops with
  | nil => exact nofun
  | cons l₀ ls =>
      -- where there is a loop there was a snapshot, and nothing is queued since
      have hpendings : s.pendings = [] := by
        cases hmap : s.map with
        | none =>
            rw [(h.early hmap).1] at hloops
            cases hloops
        | some t => exact (h.late t hmap).1
      rw [hloops] at halone
      exact List.forall_mem_append.mpr ⟨halone, List.forall_mem_singleton.mpr hpendings⟩

/-- What asks nothing, and is not answered, leaves what was received. -/
theorem Inv.received_snoc (h : Inv es tr s) {e : Event ρ} (he : e.asks = none) :
    (tr ++ []).filterMap Output.receives = (es ++ [e]).filterMap Event.asks := by
  rw [List.append_nil, h.received, filterMap_snoc, he]
  exact (List.append_nil _).symm

/-- **STEP**: whatever happens keeps the invariant. -/
theorem inv_step {e : Event ρ} {out : List (Output ρ)} (h : Inv es tr s)
    (hs : step s e = some (s', out)) : Inv (es ++ [e]) (tr ++ out) s' := by
  cases next_of_step hs with
  | @snapshot cpeers t hl =>
      have hsnap : (Event.listpeersResult (ρ := ρ) cpeers).snapshot = some (channels cpeers) := by
        simp [Event.snapshot, hl]
      constructor
      · exact nofun
      · rintro t' ⟨⟩
        exact ⟨rfl, latest_snapshot es hsnap hl⟩
      · exact h.alone_snoc
      · rw [List.append_nil, h.fifo, List.flatMap_append, List.append_nil, List.append_assoc]
        simp [Loop.waiting]
      · exact h.received_snoc rfl
  | @learn name params t i n hmap hlearn =>
      constructor
      · exact nofun
      · rintro t' ⟨⟩
        obtain ⟨hpendings, hlatest⟩ := h.late t hmap
        exact ⟨hpendings, hlatest.learn rfl hlearn⟩
      · exact h.alone
      · rw [List.append_nil]
        exact h.fifo
      · exact h.received_snoc rfl
  | quiet hask hsnap hlearn =>
      constructor
      · exact h.early_snoc hsnap
      · intro t hmap
        obtain hnone | hlearn := hlearn
        · rw [hnone] at hmap
          cases hmap
        · exact h.late_snoc hsnap hlearn hmap
      · exact h.alone
      · rw [List.append_nil]
        exact h.fifo
      · exact h.received_snoc hask
  | @park r hmap =>
      constructor
      · exact h.early_snoc rfl
      · intro t ht
        rw [show s.map = some t from ht] at hmap
        cases hmap
      · exact h.alone
      · rw [List.filterMap_append, List.filterMap_append, h.fifo]
        simp [List.filterMap_cons, Output.parks, Output.replays]
      · rw [List.filterMap_append, h.received, filterMap_snoc]
        rfl
  | @answer r t hmap =>
      constructor
      · exact h.early_snoc rfl
      · intro t' ht'
        exact h.late_snoc rfl rfl ht'
      · exact h.alone
      · rw [List.filterMap_append, List.filterMap_append, h.fifo]
        simp [List.filterMap_cons, Output.parks, Output.replays]
      · rw [List.filterMap_append, h.received, filterMap_snoc]
        rfl
  | @pop i r rest hi =>
      obtain ⟨rfl, ls, hloops⟩ := h.first hi (by simp [Loop.waiting])
      constructor
      · intro hmap
        have hnil := (h.early hmap).1
        rw [hloops] at hnil
        cases hnil
      · intro t ht
        exact h.late_snoc rfl rfl ht
      · have halone := h.alone
        rw [hloops] at halone ⊢
        exact halone
      · rw [List.append_nil, h.fifo, hloops]
        rfl
      · exact h.received_snoc rfl
  | @repark i r rest hmap hi =>
      -- the table is never taken back, so a loop never finds it missing
      rw [(h.early hmap).1] at hi
      cases hi
  | @replay i r rest t hmap hi =>
      obtain ⟨rfl, ls, hloops⟩ := h.first hi (by simp [Loop.waiting])
      constructor
      · intro hnone
        rw [show s.map = none from hnone] at hmap
        cases hmap
      · intro t' ht'
        exact h.late_snoc rfl rfl ht'
      · have halone := h.alone
        rw [hloops] at halone ⊢
        exact halone
      · rw [List.filterMap_append, List.filterMap_append, h.fifo, hloops]
        simp [List.filterMap_cons, Output.parks, Output.replays, Loop.waiting]
      · rw [List.filterMap_append, h.received, filterMap_snoc]
        rfl

/-- **RUN**: the invariant holds after every run. -/
theorem inv_of_run (hrun : run .init es = some (s, tr)) : Inv es tr s :=
  Machine.run_invariant (P := fun _ _ => True) (I := Inv) inv_init
    (fun _ _ _ _ _ _ h _ hs => inv_step h hs) (Machine.along_true _ _) hrun

/-- What is answered and what is queued is what was received and what was replayed. -/
theorem answers_perm (tr : List (Output ρ)) :
    (tr.filterMap Output.answers ++ tr.filterMap Output.parks).Perm
      (tr.filterMap Output.receives ++ tr.filterMap Output.replays) := by
  induction tr with
  | nil => exact .refl _
  | cons o tr ih =>
      cases o with
      | parked r =>
          simp only [List.filterMap_cons, Output.answers, Output.parks, Output.receives,
            Output.replays, List.cons_append]
          exact List.perm_middle.trans (ih.cons r)
      | response r peer replayed =>
          cases replayed with
          | false =>
              simp only [List.filterMap_cons, Output.answers, Output.parks, Output.receives,
                Output.replays, List.cons_append]
              exact ih.cons r
          | true =>
              simp only [List.filterMap_cons, Output.answers, Output.parks, Output.receives,
                Output.replays, List.cons_append]
              exact (ih.cons r).trans List.perm_middle.symm

/-- The requests so far are those that were answered and those that wait. -/
theorem asks_perm (hrun : run .init es = some (s, tr)) :
    (es.filterMap Event.asks).Perm
      (tr.filterMap Output.answers ++ (s.loops.flatMap Loop.waiting ++ s.pendings)) := by
  have h := inv_of_run hrun
  have hperm := answers_perm tr
  rw [h.received, h.fifo, List.append_assoc] at hperm
  -- the replayed requests are on both sides
  have hswap := (List.perm_append_comm_assoc (tr.filterMap Output.answers)
    (tr.filterMap Output.replays) (s.loops.flatMap Loop.waiting ++ s.pendings)).symm.trans hperm
  exact ((List.perm_append_left_iff _).mp (hswap.trans List.perm_append_comm)).symm

/-- After a snapshot, and where no loop can go on, no request waits. -/
theorem waiting_nil (hrun : run .init es = some (s, tr)) (hsnap : ∃ e ∈ es, e.snapshot ≠ none)
    (hstuck : ∀ i, step s (.pop i) = none ∧ step s (.deliver i) = none) :
    s.loops.flatMap Loop.waiting ++ s.pendings = [] := by
  have h := inv_of_run hrun
  obtain ⟨e, he, hsnap⟩ := hsnap
  cases hmap : s.map with
  | none => exact absurd ((h.early hmap).2 e he) hsnap
  | some t =>
      have hloops : s.loops.flatMap Loop.waiting = [] := by
        rw [List.flatMap_eq_nil_iff]
        intro l hl
        obtain ⟨i, hi⟩ := List.mem_iff_getElem?.mp hl
        obtain ⟨hpop, hdeliver⟩ := hstuck i
        obtain ⟨raised, rest⟩ := l
        cases raised with
        | some r =>
            simp only [step, hi] at hdeliver
            cases hdeliver
        | none =>
            cases rest with
            | nil => rfl
            | cons r rest =>
                simp only [step, hi] at hpop
                cases hpop
      rw [hloops, (h.late t hmap).1]
      rfl

/-- An answer is what was told last of the channel. -/
theorem latest_of_step (hrun : run .init es = some (s, tr)) {e : Event ρ} {out : List (Output ρ)}
    (hs : step s e = some (s', out)) {r : Request ρ} {peer : Option NodeId} {replayed : Bool}
    (hmem : .response r peer replayed ∈ out) : ∃ t, Latest es t ∧ peer = t r.scid := by
  have h := inv_of_run hrun
  cases next_of_step hs with
  | @answer r' t hmap =>
      cases List.mem_singleton.mp hmem
      exact ⟨t, (h.late t hmap).2, rfl⟩
  | @replay i r' rest t hmap hi =>
      cases List.mem_singleton.mp hmem
      exact ⟨t, (h.late t hmap).2, rfl⟩
  | park | repark => cases List.mem_singleton.mp hmem
  | _ => cases hmem

/-- **HEADLINE**: over every run of snapshots, notifications, requests and steps of the loops,
    the requests so far are those that were answered, each once, and those that still wait;
    the queued ones are answered in the order they came; once a snapshot could be read and its
    loop is through, all are answered.  And each answer is what was told last of the channel. -/
theorem run_latest (hrun : run .init es = some (s, tr)) :
    (es.filterMap Event.asks).Perm
        (tr.filterMap Output.answers ++ (s.loops.flatMap Loop.waiting ++ s.pendings))
      ∧ tr.filterMap Output.replays <+: tr.filterMap Output.parks
      ∧ ((∃ e ∈ es, e.snapshot ≠ none) →
          (∀ i, step s (.pop i) = none ∧ step s (.deliver i) = none) →
          (es.filterMap Event.asks).Perm (tr.filterMap Output.answers))
      ∧ ∀ e s' out r peer replayed, step s e = some (s', out) →
          .response r peer replayed ∈ out → ∃ t, Latest es t ∧ peer = t r.scid := by
  refine ⟨asks_perm hrun, ?_, ?_, ?_⟩
  · rw [(inv_of_run hrun).fifo, List.append_assoc]
    exact List.prefix_append _ _
  · intro hsnap hstuck
    have hperm := asks_perm hrun
    rwa [waiting_nil hrun hsnap hstuck, List.append_nil] at hperm
  · intro e s' out r peer replayed hs hmem
    exact latest_of_step hrun hs hmem

def somePeer : NodeId := ⟨2 :: List.replicate 32 7, by simp, .inl rfl⟩

/-- A peer with the channel `1x1x1`. -/
def samplePeers : List (NodeId × List Object) :=
  [(somePeer, [some (.obj [("short_channel_id".toUTF8.toList, .str "1x1x1".toUTF8.toList)])])]

/-- The channel, and one that nobody lists. -/
def listedScid : Scid := ⟨0x10000010001⟩
def otherScid : Scid := ⟨5⟩

/-- Two requests, a snapshot, and the loop, with a request in between. -/
def sampleEvents : List (Event ℕ) :=
  [.request ⟨1, listedScid⟩, .request ⟨2, otherScid⟩, .listpeersResult samplePeers, .pop 0,
    .request ⟨3, listedScid⟩, .deliver 0, .pop 0, .deliver 0]

/-- All are answered, and one more request would get the peer of the snapshot. -/
theorem run_latest_sample :
    ∃ s tr, run .init sampleEvents = some (s, tr)
      ∧ (sampleEvents.filterMap Event.asks).Perm (tr.filterMap Output.answers)
      ∧ tr.filterMap Output.replays <+: tr.filterMap Output.parks
      ∧ ∃ t, Latest sampleEvents t ∧ t listedScid = some somePeer := by
  have hends : (run .init sampleEvents).map (fun p => (p.1.loops, p.1.map.map (· listedScid)))
      = some ([⟨none, []⟩], some (some somePeer)) := by decide +kernel
  obtain ⟨⟨s, tr⟩, hrun, hs⟩ := Option.map_eq_some_iff.mp hends
  obtain ⟨hloops, hmap⟩ := Prod.mk.inj hs
  obtain ⟨t, ht, hpeer⟩ := Option.map_eq_some_iff.mp hmap
  have hstuck : ∀ i, step s (.pop i) = none ∧ step s (.deliver i) = none := by
    intro i
    simp only [step, show s.loops = [⟨none, []⟩] from hloops]
    cases i with
    | zero => exact ⟨rfl, rfl⟩
    | succ i => exact ⟨rfl, rfl⟩
  obtain ⟨-, hfifo, hall, hlast⟩ := run_latest hrun
  have hmap' : s.map = some t := ht
  have hstep : step s (.request ⟨4, listedScid⟩)
      = some (s, [.response ⟨4, listedScid⟩ (t listedScid) false]) := by
    simp only [step, requestPeer, hmap']
  obtain ⟨t', hlatest, hpeer'⟩ := hlast _ _ _ _ _ _ hstep (List.mem_singleton_self _)
  exact ⟨s, tr, hrun, hall hlatest.exists_snapshot hstuck, hfifo, t', hlatest,
    hpeer'.symm.trans hpeer⟩

end PeerFromScidMapper
