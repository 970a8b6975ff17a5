import Clboss.ChanneledPeersProofs
import Clboss.HexProofs
import Clboss.MachineProofs
import Mathlib.Data.List.Dedup

/-! # `Boss::Mod::ChannelCreateDestroyMonitor` — creations and destructions

    The monitor turns what it hears about channels into two messages about
    PEERS: `ChannelCreation` when a peer gets its first channel and
    `ChannelDestruction` when it loses its last one.  It keeps a set of
    channeled peers and, for each peer, the channels it believes open.

    It hears of channels in four ways, and two of them (`channel_opened`,
    `ChannelCreateResult`) name the peer only.  Those go to the set of peers
    and leave no trace in the map of channels; and they are handled at once,
    where `channel_state_changed` waits for the initial listing.  `Clean`
    excludes what goes wrong from there; `alternates_and_last` says that
    nothing else does. -/

namespace ChannelCreateDestroyMonitor

variable {N : Type} [DecidableEq N]

/-! ## The messages -/

/-- A channel of a listing; `state` is absent where the entry is malformed, and
    `named` says whether it is listed with its `channel_id`. -/
structure Listed where
  channel : String
  state   : Option String
  named   : Bool
deriving DecidableEq

/-- A `channel_state_changed` payload about `channel`; `named` says whether it
    carries the `channel_id`. -/
structure StateChange (N : Type) where
  peer     : N
  channel  : String
  named    : Bool
  oldState : String
  newState : String
deriving DecidableEq

/-- What is heard, and the greenthreads that are resumed.  Payloads that cannot
    be read are `none`. -/
inductive Event (N : Type) where
  | listpeersResult (initial : Bool) (cpeers : List (N × List Listed))
  | channelCreateResult (success : Bool) (node : N) (channel : String)
  | channelOpened (payload : Option (N × String))
  | channelStateChanged (payload : StateChange N)
  /-- a notification whose wait for `initted` is over -/
  | handle (payload : StateChange N)
  /-- a concurrent greenthread raises its message -/
  | raised (peer : N) (creates : Bool)

/-- `ChannelCreation` or `ChannelDestruction`. -/
structure Out (N : Type) where
  peer    : N
  creates : Bool
deriving DecidableEq

/-- An element of `open_channels[n]`: a `channel_id` (which is never spelled
    like a placeholder), or the placeholder of a channel listed without one. -/
inductive Slot where
  | named (id : String)
  | unidentified (k : Nat)
deriving DecidableEq

/-- The members; `open_channels` is the relation it holds, `channeled` has no
    duplicates.  `waiting` are the notifications before their wait is over and
    `acts` the greenthreads that will raise a message. -/
structure State (N : Type) where
  initted      : Bool
  channeled    : List N
  openChannels : List (N × Slot)
  waiting      : List (StateChange N)
  acts         : List (Out N)

/-- A first start. -/
def State.init : State N := ⟨false, [], [], [], []⟩

/-! ## The states of a channel -/

/-- `open_state`. -/
def openState (state : String) : Bool :=
  ChanneledPeers.channeledState (Util.Str.bytes state) && state != "CHANNELD_SHUTTING_DOWN"

/-- `live`. -/
def live (state : String) : Bool :=
  state == "CHANNELD_NORMAL" || state == "CHANNELD_AWAITING_SPLICE"

/-- `leaving`. -/
def StateChange.leaving (c : StateChange N) : Bool :=
  (live c.oldState && !live c.newState)
    || (c.oldState == "CHANNELD_AWAITING_LOCKIN" && !live c.newState)

/-! ## The handlers -/

/-- The entry is one of an open channel. -/
def Listed.isOpen (c : Listed) : Bool :=
  match c.state with
  | none       => false
  | some state => openState state

/-- The loop over the channels of one peer; `k` counts the unidentified. -/
def slots : Nat → List Listed → List Slot
  | _, []      => []
  | k, c :: cs =>
      if c.isOpen then
        if c.named then .named c.channel :: slots k cs
        else .unidentified k :: slots (k + 1) cs
      else slots k cs

/-- `curr`. -/
def curr (cpeers : List (N × List Listed)) : List (N × Slot) :=
  cpeers.flatMap (fun p => (slots 0 p.2).map (fun slot => (p.1, slot)))

/-- `curr_channeled`. -/
def currChanneled (cpeers : List (N × List Listed)) : List N := ((curr cpeers).map Prod.fst).dedup

/-- `creation`: `Boss::concurrent`. -/
def creation (s : State N) (n : N) : State N := { s with acts := s.acts ++ [⟨n, true⟩] }

/-- `destruction`. -/
def destruction (s : State N) (n : N) : State N := { s with acts := s.acts ++ [⟨n, false⟩] }

/-- The `ListpeersResult` handler. -/
def onListpeersResult (s : State N) (initial : Bool) (cpeers : List (N × List Listed)) : State N :=
  let now := currChanneled cpeers
  if initial then { s with openChannels := curr cpeers, channeled := now, initted := true }
  else
    { s with
      openChannels := curr cpeers
      channeled    := now
      acts         := s.acts
        ++ (now.filter (fun n => n ∉ s.channeled)).map (fun n => ⟨n, true⟩)
        ++ (s.channeled.filter (fun n => n ∉ now)).map (fun n => ⟨n, false⟩) }

/-- What `ChannelCreateResult` and `channel_opened` do with the peer. -/
def announced (s : State N) (n : N) : State N :=
  if n ∈ s.channeled then s else creation { s with channeled := n :: s.channeled } n

/-- The per-channel view after a notification. -/
def StateChange.view (c : StateChange N) (openChannels : List (N × Slot)) : List (N × Slot) :=
  if c.named then
    if !c.leaving && openState c.newState then (c.peer, .named c.channel) :: openChannels
    else openChannels.filter (fun e => e ≠ (c.peer, .named c.channel))
  else openChannels

/-- `open_channels.count(n) != 0`. -/
def hasOpen (openChannels : List (N × Slot)) (n : N) : Bool := n ∈ openChannels.map Prod.fst

/-- `on_channel_state_changed`. -/
def onChannelStateChanged (s : State N) (c : StateChange N) : State N :=
  let s' := { s with openChannels := c.view s.openChannels }
  if !c.leaving then s'
  else if c.named && hasOpen s'.openChannels c.peer then s'
  else if c.peer ∉ s'.channeled then s'
  else destruction { s' with channeled := s'.channeled.erase c.peer } c.peer

/-- One step. -/
def step (s : State N) : Event N → Option (State N × List (Out N))
  | .listpeersResult initial cpeers => some (onListpeersResult s initial cpeers, [])
  | .channelCreateResult success n _ => some (if success then announced s n else s, [])
  | .channelOpened none => some (s, [])
  | .channelOpened (some (n, _)) => some (announced s n, [])
  | .channelStateChanged c => some ({ s with waiting := s.waiting ++ [c] }, [])
  | .handle c =>
      if s.initted ∧ c ∈ s.waiting then
        some (onChannelStateChanged { s with waiting := s.waiting.erase c } c, [])
      else none
  | .raised n creates =>
      if ⟨n, creates⟩ ∈ s.acts then
        some ({ s with acts := s.acts.erase ⟨n, creates⟩ }, [⟨n, creates⟩])
      else none

/-! ## What the monitor has been told -/

/-- The open channels of a listing. -/
def listed (cpeers : List (N × List Listed)) : List (N × String) :=
  cpeers.flatMap (fun p => (p.2.filter Listed.isOpen).map (fun c => (p.1, c.channel)))

/-- The channels the monitor has been told are opening or open, and those of
    them that a listing or a `channel_id` told it about. -/
structure Told (N : Type) where
  channels : List (N × String)
  known    : List (N × String)

/-- Nothing yet. -/
def Told.init : Told N := ⟨[], []⟩

/-- A notification tells of its channel whether it is open, if only by peer. -/
def Told.hearChange (t : Told N) (c : StateChange N) : Told N where
  channels :=
    if openState c.newState then (c.peer, c.channel) :: t.channels
    else t.channels.filter (fun e => e ≠ (c.peer, c.channel))
  known :=
    if openState c.newState ∧ ¬ c.leaving then
      if c.named then (c.peer, c.channel) :: t.known else t.known
    else t.known.filter (fun e => e ≠ (c.peer, c.channel))

/-- What is told by an event, at the time it is handled. -/
def Told.hear (t : Told N) : Event N → Told N
  | .listpeersResult _ cpeers         => ⟨listed cpeers, listed cpeers⟩
  | .channelCreateResult true n c     => { t with channels := (n, c) :: t.channels }
  | .channelOpened (some (n, c))      => { t with channels := (n, c) :: t.channels }
  | .handle c                         => t.hearChange c
  | .channelCreateResult false _ _    => t
  | .channelOpened none               => t
  | .channelStateChanged _            => t
  | .raised _ _                       => t

/-- The monitor beside what it has been told. -/
def observe (w : State N × Told N) (e : Event N) : Option ((State N × Told N) × List (Out N)) :=
  (step w.1 e).map (fun r => ((r.1, w.2.hear e), r.2))

/-- Runs from the first start. -/
def run (es : List (Event N)) : Option ((State N × Told N) × List (Out N)) :=
  Machine.run observe (State.init, Told.init) es

/-! ## Alternation -/

/-- Every message flips what held before it; `channeled` is how it starts. -/
def Alternates : Bool → List (Out N) → Prop
  | _, []              => True
  | channeled, o :: os => o.creates = !channeled ∧ Alternates o.creates os

/-- Where the messages leave the peer. -/
def stands : Bool → List (Out N) → Bool
  | channeled, [] => channeled
  | _, o :: os    => stands o.creates os

/-- The messages about one peer. -/
def about (n : N) (os : List (Out N)) : List (Out N) := os.filter (fun o => o.peer = n)

/-- The initial listing had the peer. -/
def initialHad (n : N) (es : List (Event N)) : Bool :=
  es.any (fun e => match e with
    | .listpeersResult true cpeers => n ∈ (listed cpeers).map Prod.fst
    | _                            => false)

omit [DecidableEq N] in
theorem alternates_append {b : Bool} {os os' : List (Out N)} :
    Alternates b (os ++ os') ↔ Alternates b os ∧ Alternates (stands b os) os' := by
  induction os generalizing b with
  | nil => exact ⟨fun h => ⟨trivial, h⟩, fun h => h.2⟩
  | cons o os ih =>
      show o.creates = !b ∧ Alternates o.creates (os ++ os') ↔
        (o.creates = !b ∧ Alternates o.creates os) ∧ Alternates (stands o.creates os) os'
      rw [ih, and_assoc]

omit [DecidableEq N] in
theorem stands_append (b : Bool) (os os' : List (Out N)) :
    stands b (os ++ os') = stands (stands b os) os' := by
  induction os generalizing b with
  | nil => rfl
  | cons o os ih => exact ih o.creates

theorem about_append (n : N) (os os' : List (Out N)) :
    about n (os ++ os') = about n os ++ about n os' := List.filter_append ..

theorem about_cons_self {n : N} {o : Out N} (h : o.peer = n) (os : List (Out N)) :
    about n (o :: os) = o :: about n os := List.filter_cons_of_pos (by simpa using h)

theorem about_cons_ne {n : N} {o : Out N} (h : o.peer ≠ n) (os : List (Out N)) :
    about n (o :: os) = about n os := List.filter_cons_of_neg (by simpa using h)

/-- One message about each of several peers. -/
theorem about_map {l : List N} (hl : l.Nodup) (n : N) (b : Bool) :
    about n (l.map (fun m => (⟨m, b⟩ : Out N))) = if n ∈ l then [⟨n, b⟩] else [] := by
  induction l with
  | nil => rfl
  | cons m l ih =>
      obtain ⟨hm, hl⟩ := List.nodup_cons.mp hl
      have hrest := ih hl
      rw [List.map_cons]
      by_cases hn : m = n
      · subst hn
        rw [if_neg hm] at hrest
        rw [about_cons_self (o := ⟨m, b⟩) rfl, hrest, if_pos List.mem_cons_self]
      · rw [about_cons_ne hn, hrest]
        simp only [List.mem_cons, Ne.symm hn, false_or]

/-- Taking the message that is next for its peer leaves the order as it was. -/
theorem about_erase {acts : List (Out N)} {o : Out N} (hh : (about o.peer acts).head? = some o)
    (n : N) : about n [o] ++ about n (acts.erase o) = about n acts := by
  induction acts with
  | nil => cases hh
  | cons a acts ih =>
      by_cases hao : a = o
      · subst hao
        rw [List.erase_cons_head, ← about_append, List.singleton_append]
      · rw [List.erase_cons_tail (by simpa using hao)]
        -- the head is about another peer
        have hpeer : a.peer ≠ o.peer := by
          intro hp
          rw [about_cons_self hp, List.head?_cons] at hh
          exact hao (Option.some.inj hh)
        rw [about_cons_ne hpeer] at hh
        have hrest := ih hh
        by_cases hn : a.peer = n
        · have ho : o.peer ≠ n := fun h => hpeer (hn.trans h.symm)
          rw [about_cons_ne ho] at hrest ⊢
          rw [about_cons_self hn, about_cons_self hn, ← hrest]
          rfl
        · rw [about_cons_ne hn, about_cons_ne hn, hrest]

/-! ## The listing -/

/-- Every open channel of the listing holds a place. -/
theorem slots_named {cs : List Listed} {c : Listed} (hc : c ∈ cs) (ho : c.isOpen) (k : Nat) :
    .named c.channel ∈ slots k cs ∨ ∃ j, .unidentified j ∈ slots k cs := by
  induction cs generalizing k with
  | nil => cases hc
  | cons d cs ih =>
      unfold slots
      rcases List.mem_cons.mp hc with rfl | hmem
      · rw [if_pos ho]
        by_cases hn : c.named
        · rw [if_pos hn]
          exact Or.inl List.mem_cons_self
        · rw [if_neg hn]
          exact Or.inr ⟨k, List.mem_cons_self⟩
      · have hrest : ∀ j, ∀ l, slots j cs ⊆ l →
            .named c.channel ∈ l ∨ ∃ i, .unidentified i ∈ l := by
          intro j l hsub
          rcases ih hmem j with h | ⟨i, h⟩
          · exact Or.inl (hsub h)
          · exact Or.inr ⟨i, hsub h⟩
        by_cases hd : d.isOpen
        · rw [if_pos hd]
          by_cases hn : d.named
          · rw [if_pos hn]
            exact hrest k _ (List.subset_cons_self _ _)
          · rw [if_neg hn]
            exact hrest (k + 1) _ (List.subset_cons_self _ _)
        · rw [if_neg hd]
          exact hrest k _ (List.Subset.refl _)

/-- A place is held by an open channel. -/
theorem isOpen_of_slots {cs : List Listed} {slot : Slot} {k : Nat} (h : slot ∈ slots k cs) :
    ∃ c ∈ cs, c.isOpen := by
  induction cs generalizing k with
  | nil => cases h
  | cons d cs ih =>
      unfold slots at h
      by_cases hd : d.isOpen
      · exact ⟨d, List.mem_cons_self, hd⟩
      · rw [if_neg hd] at h
        obtain ⟨c, hc, ho⟩ := ih h
        exact ⟨c, List.mem_cons_of_mem _ hc, ho⟩

/-- The peer and channel hold a place. -/
def Held (openChannels : List (N × Slot)) (e : N × String) : Prop :=
  (e.1, .named e.2) ∈ openChannels ∨ ∃ k, (e.1, .unidentified k) ∈ openChannels

omit [DecidableEq N] in
theorem held_listed {cpeers : List (N × List Listed)} {e : N × String} (h : e ∈ listed cpeers) :
    Held (curr cpeers) e := by
  obtain ⟨p, hp, he⟩ := List.mem_flatMap.mp h
  obtain ⟨c, hc, rfl⟩ := List.mem_map.mp he
  obtain ⟨hmem, ho⟩ := List.mem_filter.mp hc
  have hcurr : ∀ slot ∈ slots 0 p.2, (p.1, slot) ∈ curr cpeers := by
    intro slot hs
    exact List.mem_flatMap.mpr ⟨p, hp, List.mem_map.mpr ⟨slot, hs, rfl⟩⟩
  rcases slots_named hmem ho 0 with hs | ⟨k, hs⟩
  · exact Or.inl (hcurr _ hs)
  · exact Or.inr ⟨k, hcurr _ hs⟩

theorem hasOpen_of_held {openChannels : List (N × Slot)} {e : N × String}
    (h : Held openChannels e) : hasOpen openChannels e.1 = true := by
  rcases h with h | ⟨k, h⟩
  · exact decide_eq_true (List.mem_map.mpr ⟨_, h, rfl⟩)
  · exact decide_eq_true (List.mem_map.mpr ⟨_, h, rfl⟩)

/-- The channeled peers of a listing are those with an open channel in it. -/
theorem mem_currChanneled {cpeers : List (N × List Listed)} {n : N} :
    n ∈ currChanneled cpeers ↔ n ∈ (listed cpeers).map Prod.fst := by
  unfold currChanneled
  rw [List.mem_dedup]
  constructor
  · intro h
    obtain ⟨⟨_, slot⟩, he, rfl⟩ := List.mem_map.mp h
    obtain ⟨p, hp, hs⟩ := List.mem_flatMap.mp he
    obtain ⟨slot', hslot, heq⟩ := List.mem_map.mp hs
    cases heq
    obtain ⟨c, hc, ho⟩ := isOpen_of_slots hslot
    refine List.mem_map.mpr ⟨(p.1, c.channel), ?_, rfl⟩
    exact List.mem_flatMap.mpr ⟨p, hp, List.mem_map.mpr ⟨c, List.mem_filter.mpr ⟨hc, ho⟩, rfl⟩⟩
  · intro h
    obtain ⟨e, he, rfl⟩ := List.mem_map.mp h
    exact of_decide_eq_true (hasOpen_of_held (held_listed he))

/-! ## Clean runs -/

/-- The initial listing comes first, and once; peers are announced after it; a
    channel that leaves while the peer still has one is named, and so is one of
    those that remain; and no message overtakes an earlier one about its peer. -/
def Clean (w : State N × Told N) : Event N → Prop
  | .listpeersResult initial _     => initial = !w.1.initted
  | .channelCreateResult success _ _ => success → w.1.initted
  | .channelOpened payload         => payload.isSome → w.1.initted
  | .handle c =>
      c.leaving → c.peer ∈ (w.2.hearChange c).channels.map Prod.fst →
        c.named ∧ c.peer ∈ (w.2.hearChange c).known.map Prod.fst
  | .raised n creates              => (about n w.1.acts).head? = some ⟨n, creates⟩
  | .channelStateChanged _         => True

instance (w : State N × Told N) (e : Event N) : Decidable (Clean w e) :=
  match e with
  | .listpeersResult initial _     => inferInstanceAs (Decidable (initial = !w.1.initted))
  | .channelCreateResult success _ _ => inferInstanceAs (Decidable (success → w.1.initted))
  | .channelOpened payload         => inferInstanceAs (Decidable (payload.isSome → w.1.initted))
  | .handle c =>
      inferInstanceAs (Decidable (c.leaving → c.peer ∈ (w.2.hearChange c).channels.map Prod.fst →
        c.named ∧ c.peer ∈ (w.2.hearChange c).known.map Prod.fst))
  | .raised n creates              =>
      inferInstanceAs (Decidable ((about n w.1.acts).head? = some ⟨n, creates⟩))
  | .channelStateChanged _         => inferInstanceAs (Decidable True)

/-- What was decided about a peer: raised, or on its way. -/
def decided (n : N) (tr : List (Out N)) (s : State N) : List (Out N) := about n (tr ++ s.acts)

/-- The invariant: before the initial listing nothing is decided; the decisions
    about a peer alternate and leave it as `channeled` has it; and whatever is
    known to be open holds a place. -/
structure Sound (es : List (Event N)) (tr : List (Out N)) (w : State N × Told N) : Prop where
  fresh      : w.1.initted = false → w.1.channeled = [] ∧ tr = [] ∧ w.1.acts = []
    ∧ ∀ n, initialHad n es = false
  once       : w.1.channeled.Nodup
  alternates : ∀ n, Alternates (initialHad n es) (decided n tr w.1)
  tracks     : ∀ n, stands (initialHad n es) (decided n tr w.1) = decide (n ∈ w.1.channeled)
  held       : ∀ e ∈ w.2.known, Held w.1.openChannels e

theorem initialHad_snoc (n : N) (es : List (Event N)) (e : Event N) :
    initialHad n (es ++ [e]) = (initialHad n es || initialHad n [e]) := List.any_append ..

/-- New decisions: exactly where a peer comes or goes. -/
def Decides (s s' : State N) (new : List (Out N)) : Prop :=
  s'.acts = s.acts ++ new ∧ ∀ n, about n new
    = if (n ∈ s.channeled ↔ n ∈ s'.channeled) then [] else [⟨n, n ∈ s'.channeled⟩]

/-- **STEP**: decisions that follow `channeled` keep the alternation. -/
theorem Sound.decides {es : List (Event N)} {tr new : List (Out N)} {w : State N × Told N}
    {e : Event N} {s' : State N} {t' : Told N} (h : Sound es tr w)
    (hhad : ∀ n, initialHad n [e] = false) (hinit : s'.initted = true)
    (honce : s'.channeled.Nodup) (hnew : Decides w.1 s' new)
    (hheld : ∀ e ∈ t'.known, Held s'.openChannels e) : Sound (es ++ [e]) tr (s', t') := by
  have hsame : ∀ n, initialHad n (es ++ [e]) = initialHad n es := by
    intro n
    rw [initialHad_snoc, hhad, Bool.or_false]
  have hdec : ∀ n, decided n tr s' = decided n tr w.1 ++ about n new := by
    intro n
    unfold decided
    rw [hnew.1, ← List.append_assoc, about_append]
  refine ⟨fun hc => ?_, honce, ?_, ?_, hheld⟩
  · rw [show (s', t').1.initted = true from hinit] at hc
    cases hc
  · intro n
    show Alternates _ (decided n tr s')
    rw [hsame, hdec, alternates_append, h.tracks, hnew.2]
    refine ⟨h.alternates n, ?_⟩
    split
    · exact trivial
    · rename_i hflip
      refine ⟨?_, trivial⟩
      by_cases hn : n ∈ w.1.channeled
      · simp_all
      · simp_all
  · intro n
    show stands _ (decided n tr s') = decide (n ∈ s'.channeled)
    rw [hsame, hdec, stands_append, h.tracks, hnew.2]
    split
    · rename_i hiff
      exact decide_eq_decide.mpr hiff
    · rfl

/-- Nothing is decided. -/
theorem Sound.still {es : List (Event N)} {tr : List (Out N)} {w : State N × Told N}
    {e : Event N} {s' : State N} {t' : Told N} (h : Sound es tr w)
    (hhad : ∀ n, initialHad n [e] = false) (hinit : s'.initted = w.1.initted)
    (hch : s'.channeled = w.1.channeled) (hacts : s'.acts = w.1.acts)
    (hheld : ∀ e ∈ t'.known, Held s'.openChannels e) : Sound (es ++ [e]) tr (s', t') := by
  have hsame : ∀ n, initialHad n (es ++ [e]) = initialHad n es := by
    intro n
    rw [initialHad_snoc, hhad, Bool.or_false]
  have hdec : ∀ n, decided n tr s' = decided n tr w.1 := by
    intro n
    unfold decided
    rw [hacts]
  refine ⟨?_, ?_, ?_, ?_, hheld⟩
  · intro hi
    obtain ⟨hc, ht, ha, hn⟩ := h.fresh (hinit.symm.trans hi)
    refine ⟨hch.trans hc, ht, hacts.trans ha, fun n => ?_⟩
    rw [hsame]
    exact hn n
  · show s'.channeled.Nodup
    rw [hch]
    exact h.once
  · intro n
    show Alternates _ (decided n tr s')
    rw [hsame, hdec]
    exact h.alternates n
  · intro n
    show stands _ (decided n tr s') = decide (n ∈ s'.channeled)
    rw [hsame, hdec, hch]
    exact h.tracks n

/-! ## One handler after the other -/

/-- The initial listing. -/
theorem Sound.initial {es : List (Event N)} {tr : List (Out N)} {w : State N × Told N}
    (h : Sound es tr w) (hi : w.1.initted = false) (cpeers : List (N × List Listed)) :
    Sound (es ++ [.listpeersResult true cpeers]) tr
      (onListpeersResult w.1 true cpeers, ⟨listed cpeers, listed cpeers⟩) := by
  obtain ⟨-, rfl, hacts, hhad⟩ := h.fresh hi
  have hnow : ∀ n, initialHad n (es ++ [.listpeersResult true cpeers])
      = decide (n ∈ currChanneled cpeers) := by
    intro n
    rw [initialHad_snoc, hhad, Bool.false_or, decide_eq_decide.mpr mem_currChanneled]
    exact Bool.or_false _
  have hdec : ∀ n, decided n [] (onListpeersResult w.1 true cpeers) = [] := by
    intro n
    show about n ([] ++ w.1.acts) = []
    rw [hacts]
    rfl
  refine ⟨(fun hc => by cases hc), List.nodup_dedup _, ?_, ?_, fun e he => held_listed he⟩
  · intro n
    show Alternates _ (decided n [] _)
    rw [hdec]
    exact trivial
  · intro n
    show stands _ (decided n [] _) = _
    rw [hdec]
    exact hnow n

/-- A later listing decides about the peers in which it differs. -/
theorem decides_listing (s : State N) (honce : s.channeled.Nodup)
    (cpeers : List (N × List Listed)) :
    Decides s (onListpeersResult s false cpeers)
      (((currChanneled cpeers).filter (fun n => n ∉ s.channeled)).map (fun n => ⟨n, true⟩)
        ++ (s.channeled.filter (fun n => n ∉ currChanneled cpeers)).map (fun n => ⟨n, false⟩)) := by
  refine ⟨List.append_assoc .., ?_⟩
  intro n
  have hnow : (currChanneled cpeers).Nodup := List.nodup_dedup _
  rw [about_append, about_map (hnow.filter _), about_map (honce.filter _)]
  show _ = if (n ∈ s.channeled ↔ n ∈ currChanneled cpeers) then []
    else [(⟨n, decide (n ∈ currChanneled cpeers)⟩ : Out N)]
  simp only [List.mem_filter, decide_eq_true_eq]
  by_cases hs : n ∈ s.channeled
  · by_cases hc : n ∈ currChanneled cpeers
    · simp [hs, hc]
    · simp [hs, hc]
  · by_cases hc : n ∈ currChanneled cpeers
    · simp [hs, hc]
    · simp [hs, hc]

/-- An announcement decides about a peer that is not channeled yet. -/
theorem decides_announced (s : State N) (m : N) :
    ∃ new, Decides s (announced s m) new ∧ ∀ n, (⟨n, false⟩ : Out N) ∉ new := by
  unfold announced
  by_cases hm : m ∈ s.channeled
  · rw [if_pos hm]
    refine ⟨[], ⟨(List.append_nil _).symm, fun n => ?_⟩, fun n hn => by cases hn⟩
    rw [if_pos Iff.rfl]
    rfl
  · rw [if_neg hm]
    refine ⟨[⟨m, true⟩], ⟨rfl, fun n => ?_⟩, fun n hn => by simp at hn⟩
    show about n [⟨m, true⟩] = if (n ∈ s.channeled ↔ n ∈ m :: s.channeled) then []
      else [⟨n, decide (n ∈ m :: s.channeled)⟩]
    by_cases hn : m = n
    · subst hn
      rw [about_cons_self (o := ⟨m, true⟩) rfl]
      simp [hm, about]
    · rw [about_cons_ne (o := ⟨m, true⟩) hn]
      simp [Ne.symm hn, about]

theorem announced_frame (s : State N) (m : N) (honce : s.channeled.Nodup) :
    (announced s m).channeled.Nodup ∧ (announced s m).initted = s.initted
      ∧ (announced s m).openChannels = s.openChannels := by
  unfold announced
  by_cases hm : m ∈ s.channeled
  · rw [if_pos hm]
    exact ⟨honce, rfl, rfl⟩
  · rw [if_neg hm]
    exact ⟨List.nodup_cons.mpr ⟨hm, honce⟩, rfl, rfl⟩

/-- A notification decides about its peer at most, and only that it is gone:
    then the channel left, and was not named or left no other in the view. -/
theorem decides_stateChanged (s : State N) (honce : s.channeled.Nodup) (c : StateChange N) :
    ∃ new, Decides s (onChannelStateChanged s c) new
      ∧ (onChannelStateChanged s c).channeled.Nodup
      ∧ ∀ n, (⟨n, false⟩ : Out N) ∈ new → n = c.peer ∧ c.leaving = true
        ∧ (c.named = true → hasOpen (c.view s.openChannels) c.peer = false) := by
  have hnone : ∀ s' : State N, s'.acts = s.acts → s'.channeled = s.channeled → Decides s s' [] := by
    intro s' hacts hch
    refine ⟨by rw [hacts, List.append_nil], fun n => ?_⟩
    rw [hch, if_pos Iff.rfl]
    rfl
  unfold onChannelStateChanged
  simp only
  split
  · exact ⟨[], hnone _ rfl rfl, honce, fun n hn => by cases hn⟩
  · rename_i hl
    have hl : c.leaving = true := by simpa using hl
    split
    · exact ⟨[], hnone _ rfl rfl, honce, fun n hn => by cases hn⟩
    · rename_i hopen
      split
      · exact ⟨[], hnone _ rfl rfl, honce, fun n hn => by cases hn⟩
      · rename_i hch
        have hch : c.peer ∈ s.channeled := by simpa using hch
        refine ⟨[⟨c.peer, false⟩], ⟨rfl, fun n => ?_⟩, honce.erase _, fun n hn => ?_⟩
        · show about n [⟨c.peer, false⟩] = if (n ∈ s.channeled ↔ n ∈ s.channeled.erase c.peer) then []
            else [⟨n, decide (n ∈ s.channeled.erase c.peer)⟩]
          simp only [honce.mem_erase_iff]
          by_cases hn : c.peer = n
          · subst hn
            rw [about_cons_self (o := ⟨c.peer, false⟩) rfl]
            simp [hch, about]
          · rw [about_cons_ne (o := ⟨c.peer, false⟩) hn]
            simp [Ne.symm hn, about]
        · refine ⟨by simpa using hn, hl, fun hnamed => ?_⟩
          simpa [hnamed] using hopen

theorem onChannelStateChanged_frame (s : State N) (c : StateChange N) :
    (onChannelStateChanged s c).openChannels = c.view s.openChannels
      ∧ (onChannelStateChanged s c).initted = s.initted := by
  unfold onChannelStateChanged
  simp only
  split
  · exact ⟨rfl, rfl⟩
  · split
    · exact ⟨rfl, rfl⟩
    · split
      · exact ⟨rfl, rfl⟩
      · exact ⟨rfl, rfl⟩

/-- A known channel other than the one that left keeps its place. -/
theorem held_hearChange {s : State N} {t : Told N} (h : ∀ e ∈ t.known, Held s.openChannels e)
    (c : StateChange N) : ∀ e ∈ (t.hearChange c).known, Held (c.view s.openChannels) e := by
  intro e he
  have hfilter : e ∈ t.known → e ≠ (c.peer, c.channel) →
      Held (s.openChannels.filter (fun x => x ≠ (c.peer, .named c.channel))) e := by
    intro hmem hne
    rcases h e hmem with hn | ⟨k, hk⟩
    · refine Or.inl (List.mem_filter.mpr ⟨hn, decide_eq_true ?_⟩)
      intro heq
      obtain ⟨hp, hs⟩ := Prod.mk.inj heq
      exact hne (Prod.ext hp (Slot.named.inj hs))
    · refine Or.inr ⟨k, List.mem_filter.mpr ⟨hk, decide_eq_true ?_⟩⟩
      intro heq
      cases (Prod.mk.inj heq).2
  unfold Told.hearChange at he
  unfold StateChange.view
  simp only at he
  by_cases hopen : openState c.newState ∧ ¬ c.leaving
  · rw [if_pos hopen] at he
    have hview : (!c.leaving && openState c.newState) = true := by simpa using hopen.symm
    by_cases hn : c.named
    · rw [if_pos hn] at he
      rw [if_pos hn, if_pos hview]
      rcases List.mem_cons.mp he with rfl | hmem
      · exact Or.inl List.mem_cons_self
      · rcases h e hmem with hx | ⟨k, hk⟩
        · exact Or.inl (List.mem_cons_of_mem _ hx)
        · exact Or.inr ⟨k, List.mem_cons_of_mem _ hk⟩
    · rw [if_neg hn] at he
      rw [if_neg hn]
      exact h e he
  · rw [if_neg hopen] at he
    obtain ⟨hmem, hne⟩ := List.mem_filter.mp he
    by_cases hn : c.named
    · have hview : ¬ (!c.leaving && openState c.newState) = true := by
        intro hv
        simp only [Bool.and_eq_true, Bool.not_eq_true'] at hv
        exact hopen ⟨hv.2, by simp [hv.1]⟩
      rw [if_pos hn, if_neg hview]
      exact hfilter hmem (of_decide_eq_true hne)
    · rw [if_neg hn]
      exact h e hmem

/-! ## Steps and runs -/

theorem step_handle {s : State N} {c : StateChange N} {r : State N × List (Out N)}
    (h : step s (.handle c) = some r) : s.initted = true
      ∧ r = (onChannelStateChanged { s with waiting := s.waiting.erase c } c, []) := by
  simp only [step] at h
  split at h
  · rename_i hg
    exact ⟨hg.1, (Option.some.inj h).symm⟩
  · cases h

theorem step_raised {s : State N} {n : N} {creates : Bool} {r : State N × List (Out N)}
    (h : step s (.raised n creates) = some r) : ⟨n, creates⟩ ∈ s.acts
      ∧ r = ({ s with acts := s.acts.erase ⟨n, creates⟩ }, [⟨n, creates⟩]) := by
  simp only [step] at h
  split at h
  · rename_i hmem
    exact ⟨hmem, (Option.some.inj h).symm⟩
  · cases h

/-- A raised message was the next about its peer. -/
theorem Sound.raise {es : List (Event N)} {tr : List (Out N)} {w : State N × Told N} {n : N}
    {creates : Bool} (h : Sound es tr w) (hc : (about n w.1.acts).head? = some ⟨n, creates⟩)
    (hmem : ⟨n, creates⟩ ∈ w.1.acts) :
    Sound (es ++ [.raised n creates]) (tr ++ [⟨n, creates⟩])
      ({ w.1 with acts := w.1.acts.erase ⟨n, creates⟩ }, w.2) := by
  have hsame : ∀ m, initialHad m (es ++ [.raised n creates]) = initialHad m es := by
    intro m
    rw [initialHad_snoc]
    exact Bool.or_false _
  have hdec : ∀ m, decided m (tr ++ [⟨n, creates⟩])
      { w.1 with acts := w.1.acts.erase ⟨n, creates⟩ } = decided m tr w.1 := by
    intro m
    unfold decided
    rw [List.append_assoc, about_append, about_append, about_append, about_erase hc]
  refine ⟨?_, h.once, ?_, ?_, h.held⟩
  · intro hi
    rw [(h.fresh hi).2.2.1] at hmem
    cases hmem
  · intro m
    show Alternates _ (decided m _ _)
    rw [hsame, hdec]
    exact h.alternates m
  · intro m
    show stands _ (decided m _ _) = _
    rw [hsame, hdec]
    exact h.tracks m

/-- An announcement keeps the invariant. -/
theorem Sound.announce {es : List (Event N)} {tr : List (Out N)} {w : State N × Told N}
    {e : Event N} {m : N} {t' : Told N} (h : Sound es tr w) (hhad : ∀ n, initialHad n [e] = false)
    (hi : w.1.initted = true) (ht : t'.known = w.2.known) :
    Sound (es ++ [e]) tr (announced w.1 m, t') := by
  obtain ⟨new, hnew, -⟩ := decides_announced w.1 m
  obtain ⟨honce, hinit, hopen⟩ := announced_frame w.1 m h.once
  refine h.decides hhad (hinit.trans hi) honce hnew ?_
  rw [ht, hopen]
  exact h.held

theorem Sound.step {es : List (Event N)} {tr out : List (Out N)} {w w' : State N × Told N}
    {e : Event N} (h : Sound es tr w) (hc : Clean w e) (hs : observe w e = some (w', out)) :
    Sound (es ++ [e]) (tr ++ out) w' := by
  obtain ⟨⟨s', out'⟩, hstep, heq⟩ := Option.map_eq_some_iff.mp hs
  cases heq
  cases e with
  | listpeersResult initial cpeers =>
      cases hstep
      rw [List.append_nil]
      cases initial with
      | true => exact h.initial (by simpa using hc.symm) cpeers
      | false =>
          have hi : w.1.initted = true := by simpa using hc.symm
          refine h.decides (fun n => rfl) hi (List.nodup_dedup _) (decides_listing w.1 h.once cpeers) ?_
          exact fun e he => held_listed he
  | channelCreateResult success n c =>
      cases hstep
      rw [List.append_nil]
      cases success with
      | true => exact h.announce (fun n => rfl) (hc rfl) rfl
      | false => exact h.still (fun n => rfl) rfl rfl rfl h.held
  | channelOpened payload =>
      cases payload with
      | none =>
          cases hstep
          rw [List.append_nil]
          exact h.still (fun n => rfl) rfl rfl rfl h.held
      | some p =>
          cases hstep
          rw [List.append_nil]
          exact h.announce (fun n => rfl) (hc rfl) rfl
  | channelStateChanged c =>
      cases hstep
      rw [List.append_nil]
      exact h.still (fun n => rfl) rfl rfl rfl h.held
  | handle c =>
      obtain ⟨hi, heq⟩ := step_handle hstep
      cases heq
      rw [List.append_nil]
      obtain ⟨new, hnew, honce, -⟩ :=
        decides_stateChanged { w.1 with waiting := w.1.waiting.erase c } h.once c
      obtain ⟨hopen, hinit⟩ :=
        onChannelStateChanged_frame { w.1 with waiting := w.1.waiting.erase c } c
      refine h.decides (fun n => rfl) (hinit.trans hi) honce hnew ?_
      rw [hopen]
      exact held_hearChange (s := { w.1 with waiting := w.1.waiting.erase c }) h.held c
  | raised n creates =>
      obtain ⟨hmem, heq⟩ := step_raised hstep
      cases heq
      exact h.raise hc hmem

/-- **RUN**: a clean run keeps the invariant. -/
theorem run_sound {es : List (Event N)} {w : State N × Told N} {tr : List (Out N)}
    (hc : Machine.Along observe Clean (State.init, Told.init) es) (hrun : run es = some (w, tr)) :
    Sound es tr w := by
  refine Machine.run_invariant (P := Clean) (I := Sound) ?_ ?_ hc hrun
  · exact ⟨fun _ => ⟨rfl, rfl, rfl, fun n => rfl⟩, List.nodup_nil, fun n => trivial, fun n => rfl,
      fun e he => by cases he⟩
  · intro es tr w e w' out hI hP hs
    exact hI.step hP hs

/-- A destruction is decided only when the monitor is left with no channel of
    the peer that it was told is opening or open. -/
def LastOnly (w : State N × Told N) (e : Event N) : Prop :=
  ∀ w' out new n, observe w e = some (w', out) → w'.1.acts = w.1.acts ++ new →
    (⟨n, false⟩ : Out N) ∈ new → ∀ c, (n, c) ∉ w'.2.channels

/-- What was decided is determined by what was to be raised. -/
theorem Decides.unique {s s' : State N} {new new' : List (Out N)} (h : Decides s s' new)
    (h' : s'.acts = s.acts ++ new') : new' = new :=
  List.append_cancel_left (h'.symm.trans h.1)

theorem Sound.lastOnly {es : List (Event N)} {tr : List (Out N)} {w : State N × Told N}
    (h : Sound es tr w) {e : Event N} (hc : Clean w e) : LastOnly w e := by
  intro w' out new n hs hacts hmem c hcmem
  obtain ⟨⟨s', out'⟩, hstep, heq⟩ := Option.map_eq_some_iff.mp hs
  cases heq
  -- nothing new to be raised
  have hnil : s'.acts = w.1.acts → False := by
    intro hsame
    have : new = [] := List.append_cancel_left (hacts.symm.trans (hsame.trans (List.append_nil _).symm))
    rw [this] at hmem
    cases hmem
  cases e with
  | listpeersResult initial cpeers =>
      cases hstep
      cases initial with
      | true => exact hnil rfl
      | false =>
          rw [(decides_listing w.1 h.once cpeers).unique hacts, List.mem_append] at hmem
          rcases hmem with hmem | hmem
          · obtain ⟨m, -, heq⟩ := List.mem_map.mp hmem
            cases heq
          · obtain ⟨m, hm, heq⟩ := List.mem_map.mp hmem
            cases heq
            have hgone := of_decide_eq_true (List.mem_filter.mp hm).2
            exact hgone (mem_currChanneled.mpr (List.mem_map.mpr ⟨_, hcmem, rfl⟩))
  | channelCreateResult success m ch =>
      cases hstep
      cases success with
      | true =>
          obtain ⟨new', hnew, hno⟩ := decides_announced w.1 m
          rw [hnew.unique hacts] at hmem
          exact hno n hmem
      | false => exact hnil rfl
  | channelOpened payload =>
      cases payload with
      | none =>
          cases hstep
          exact hnil rfl
      | some p =>
          cases hstep
          obtain ⟨new', hnew, hno⟩ := decides_announced w.1 p.1
          rw [hnew.unique hacts] at hmem
          exact hno n hmem
  | channelStateChanged ch =>
      cases hstep
      exact hnil rfl
  | handle ch =>
      obtain ⟨-, heq⟩ := step_handle hstep
      cases heq
      obtain ⟨new', hnew, -, hlast⟩ :=
        decides_stateChanged { w.1 with waiting := w.1.waiting.erase ch } h.once ch
      rw [hnew.unique hacts] at hmem
      obtain ⟨rfl, hl, hview⟩ := hlast n hmem
      -- by `Clean` a channel that remains was named with this one, and holds a place
      obtain ⟨hnamed, hknown⟩ := hc hl (List.mem_map.mpr ⟨_, hcmem, rfl⟩)
      obtain ⟨e, he, hpeer⟩ := List.mem_map.mp hknown
      have hheld := hasOpen_of_held
        (held_hearChange (s := { w.1 with waiting := w.1.waiting.erase ch }) h.held ch e he)
      rw [hpeer, hview hnamed] at hheld
      cases hheld
  | raised m creates =>
      obtain ⟨hraise, heq⟩ := step_raised hstep
      cases heq
      have hlen := congrArg List.length hacts
      simp only [List.length_append, List.length_erase_of_mem hraise] at hlen
      have := List.length_pos_of_mem hmem
      omega

/-- **HEADLINE**: in every state a clean run reaches, the messages raised about
    any one peer alternate, starting with a destruction exactly if the initial
    listing had the peer; and a clean step decides a destruction only when no
    channel of the peer that the monitor was told of remains. -/
theorem alternates_and_last {es : List (Event N)} {w : State N × Told N} {tr : List (Out N)}
    (hc : Machine.Along observe Clean (State.init, Told.init) es) (hrun : run es = some (w, tr)) :
    (∀ n, Alternates (initialHad n es) (about n tr)) ∧ ∀ e, Clean w e → LastOnly w e := by
  have h := run_sound hc hrun
  constructor
  · intro n
    have := h.alternates n
    unfold decided at this
    rw [about_append, alternates_append] at this
    exact this.1
  · intro e he
    exact h.lastOnly he

/-- A peer of the initial listing loses its channel, and another is announced
    and gets its channel named. -/
def sampleRun : List (Event Nat) :=
  [.listpeersResult true [(1, [⟨"a", some "CHANNELD_NORMAL", true⟩])],
    .channelOpened (some (2, "b")), .raised 2 true,
    .channelStateChanged ⟨2, "b", true, "", "CHANNELD_AWAITING_LOCKIN"⟩,
    .handle ⟨2, "b", true, "", "CHANNELD_AWAITING_LOCKIN"⟩,
    .channelStateChanged ⟨1, "a", true, "CHANNELD_NORMAL", "CHANNELD_SHUTTING_DOWN"⟩,
    .handle ⟨1, "a", true, "CHANNELD_NORMAL", "CHANNELD_SHUTTING_DOWN"⟩, .raised 1 false]

theorem alternates_and_last_sampleRun :
    (run sampleRun).map Prod.snd = some [⟨2, true⟩, ⟨1, false⟩]
      ∧ ∀ w tr, run sampleRun = some (w, tr) →
        (∀ n, Alternates (initialHad n sampleRun) (about n tr)) ∧ ∀ e, Clean w e → LastOnly w e := by
  refine ⟨by decide +kernel, ?_⟩
  intro w tr h
  exact alternates_and_last (by decide +kernel) h

/-- The peer is announced before the initial listing, which does not have it,
    and once more after. -/
def earlyRun : List (Event Nat) :=
  [.channelOpened (some (1, "a")), .raised 1 true, .listpeersResult true [],
    .channelOpened (some (1, "b")), .raised 1 true]

/-- The peer has a channel and opens another; the first one closes before the
    other was named. -/
def unnamedRun : List (Event Nat) :=
  [.listpeersResult true [(1, [⟨"a", some "CHANNELD_NORMAL", true⟩])],
    .channelOpened (some (1, "b")),
    .channelStateChanged ⟨1, "a", true, "CHANNELD_NORMAL", "CHANNELD_SHUTTING_DOWN"⟩]

/-- **SLIP**: two creations in a row; and a destruction of a peer that was told
    to have another channel. -/
theorem created_twice_and_destroyed_early :
    (∃ w tr, run earlyRun = some (w, tr) ∧ ¬ Alternates (initialHad 1 earlyRun) (about 1 tr))
      ∧ ∃ w tr, run unnamedRun = some (w, tr)
        ∧ ¬ LastOnly w (.handle ⟨1, "a", true, "CHANNELD_NORMAL", "CHANNELD_SHUTTING_DOWN"⟩) := by
  constructor
  · have hobs : (run earlyRun).map (fun p => about 1 p.2) = some [⟨1, true⟩, ⟨1, true⟩] := by
      decide +kernel
    obtain ⟨⟨w, tr⟩, hrun, heq⟩ := Option.map_eq_some_iff.mp hobs
    refine ⟨w, tr, hrun, fun halt => ?_⟩
    rw [heq] at halt
    exact absurd halt.2.1 (by decide)
  · have hobs : (run unnamedRun).bind (fun p =>
        (observe p.1 (.handle ⟨1, "a", true, "CHANNELD_NORMAL", "CHANNELD_SHUTTING_DOWN"⟩)).map
          (fun q => (p.1.1.acts, q.1.1.acts, q.1.2.channels)))
        = some ([], [⟨1, false⟩], [(1, "b")]) := by
      decide +kernel
    obtain ⟨⟨w, tr⟩, hrun, hstep⟩ := Option.bind_eq_some_iff.mp hobs
    obtain ⟨⟨w', out⟩, hs, heq⟩ := Option.map_eq_some_iff.mp hstep
    simp only [Prod.mk.injEq] at heq
    obtain ⟨hbefore, hafter, htold⟩ := heq
    refine ⟨w, tr, hrun, fun hlast => ?_⟩
    have := hlast w' out [⟨1, false⟩] 1 hs (by rw [hbefore, hafter]; rfl) List.mem_cons_self "b"
    rw [htold] at this
    exact this List.mem_cons_self

end ChannelCreateDestroyMonitor
