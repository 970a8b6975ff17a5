import Clboss.SurveyorProofs

/-! # `Surveyor::old_loop` — one `listchannels` call for each channel

    An older `lightningd` cannot be asked for the channels TOWARDS a node, so each
    channel is looked up again by its short channel id, and its other direction is
    sampled.

    The iterator moves at the end of the continuation that reads the answer.  An
    error in the answer returns before that, and the two handlers rejoin the loop
    without it: the SAME channel is looked up again, and again for as long as the
    answer stays.  `Advances` is what it takes to get there, and the loop ends just
    when every channel has it (`old_loop_ends_iff`). -/

open Jsmn Ln

namespace Surveyor

/-! ## The loop -/

/-- The node a channel leads to. -/
def destination (c : Object) : Except Exc NodeId := node "destination" c

/-- The survey with the place it has come to. -/
structure Compat where
  survey  : Surveyor
  it      : ℕ
  /-- The channels that were looked up, by position. -/
  lookups : List ℕ

/-- The parameters of the lookup. -/
def request (c : Object) : Except Exc Object := do
  let scid ← lift (c.index "short_channel_id")
  if scid.prints then .ok scid else .error .assertion

/-- What the answer is searched through. -/
def directions (answer : Object) : Except Exc (List Object) := do
  let channels ← lift (answer.index "channels")
  lift channels.elements

/-- The search: the first direction that leads to the peer is sampled.  The result is whether
    the function goes on, or has returned with an error to log. -/
def towards (N : Numbers) : Surveyor → List Object → Surveyor × Except Exc Bool
  | s, []      => (s, .ok true)
  | s, c :: cs =>
      match destination c with
      | .error e        => (s, .error e)
      | .ok destination =>
          if destination ≠ s.peerId then towards N s cs
          else
            match oneChannel N s c with
            | (s, .error e)     => (s, .error e)
            | (s, .ok none)     => (s, .ok true)
            | (s, .ok (some _)) => (s, .ok false)

/-- The handler for `std::exception` logs and goes on; a failed assertion is none. -/
def rejoin (s : Compat) (e : Exc) : Option Compat := if e = .assertion then none else some s

/-- `old_loop` for the channel at `it`, until it calls `loop` again. -/
def oldLoop (N : Numbers) (c : Object) (outcome : Except Object Object) (s : Compat) :
    Option Compat :=
  match request c with
  | .error e => rejoin s e
  | .ok _    =>
      let s := { s with lookups := s.lookups ++ [s.it] }
      match outcome with
      | .error _   => some s
      | .ok answer =>
          match directions answer with
          | .error e => rejoin s e
          | .ok cs   =>
              match towards N s.survey cs with
              | (survey, .error e)  => rejoin { s with survey := survey } e
              | (survey, .ok false) => some { s with survey := survey }
              | (survey, .ok true)  => some { s with survey := survey, it := s.it + 1 }

/-- So many rounds of `loop`; the calls have the outcomes given, in order. -/
def oldRun (N : Numbers) (channels : List Object) (outcomes : ℕ → Except Object Object) :
    ℕ → Compat → Option Compat
  | 0, s     => some s
  | n + 1, s =>
      match channels[s.it]? with
      | none   => some s
      | some c =>
          match oldLoop N c (outcomes s.lookups.length) s with
          | none   => none
          | some s => oldRun N channels outcomes n s

/-- Before the first channel. -/
def start (selfId peerId : NodeId) : Compat := ⟨create selfId peerId, 0, []⟩

/-- The loop has ended after as many rounds as there are channels, and looked up none twice. -/
def Ends (N : Numbers) (selfId peerId : NodeId) (channels : List Object)
    (outcomes : ℕ → Except Object Object) : Prop :=
  ∃ s, oldRun N channels outcomes channels.length (start selfId peerId) = some s
    ∧ s.it = channels.length ∧ s.lookups.Nodup

/-! ## What it takes to move on -/

/-- Every direction reads up to the one that leads to the peer, and that one is well-formed. -/
def Reads (N : Numbers) (selfId peerId : NodeId) : List Object → Prop
  | []      => True
  | c :: cs =>
      match destination c with
      | .error _        => False
      | .ok destination =>
          if destination ≠ peerId then Reads N selfId peerId cs
          else
            match kind N selfId c with
            | .own        => True
            | .foreign _  => True
            | .unread _   => False
            | .unpriced _ => False

/-- The channel can be asked for, and the answer is there and reads. -/
def Advances (N : Numbers) (selfId peerId : NodeId) (c : Object)
    (outcome : Except Object Object) : Prop :=
  ∃ scid answer cs, request c = .ok scid ∧ outcome = .ok answer ∧ directions answer = .ok cs
    ∧ Reads N selfId peerId cs

/-! ## One round -/

/-- Neither end of the survey changes. -/
def SameEnds (s s' : Surveyor) : Prop := s'.selfId = s.selfId ∧ s'.peerId = s.peerId

theorem oneChannel_sameEnds (N : Numbers) (s : Surveyor) (c : Object) :
    SameEnds s (oneChannel N s c).1 := by
  rw [oneChannel_eq]
  cases kind N s.selfId c with
  | own        => exact ⟨rfl, rfl⟩
  | foreign f  => exact ⟨rfl, rfl⟩
  | unread e   => exact ⟨rfl, rfl⟩
  | unpriced e => exact ⟨rfl, rfl⟩

theorem caught_ne (c : Object) (e : Exc) : caught c e ≠ .ok none := by
  unfold caught
  intro h
  split at h
  · split at h
    · cases h
    · cases h
  · cases h

/-- A channel is fine when it is our own or well-formed. -/
theorem oneChannel_ok_iff (N : Numbers) (s : Surveyor) (c : Object) :
    (oneChannel N s c).2 = .ok none ↔
      match kind N s.selfId c with
      | .own        => True
      | .foreign _  => True
      | .unread _   => False
      | .unpriced _ => False := by
  rw [oneChannel_eq]
  cases kind N s.selfId c with
  | own        => exact iff_of_true rfl trivial
  | foreign f  => exact iff_of_true rfl trivial
  | unread e   => exact iff_of_false (caught_ne c e) id
  | unpriced e => exact iff_of_false (caught_ne c e) id

/-- **SPEC** of the search. -/
theorem towards_spec (N : Numbers) (s : Surveyor) (cs : List Object) :
    SameEnds s (towards N s cs).1
      ∧ ((towards N s cs).2 = .ok true ↔ Reads N s.selfId s.peerId cs) := by
  induction cs with
  | nil => exact ⟨⟨rfl, rfl⟩, iff_of_true rfl trivial⟩
  | cons c cs ih =>
      rw [towards, Reads]
      rcases destination c with e | destination
      · exact ⟨⟨rfl, rfl⟩, iff_of_false (fun h => by cases h) id⟩
      · by_cases hpeer : destination ≠ s.peerId
        · simp only [if_pos hpeer]
          exact ih
        · simp only [if_neg hpeer]
          rw [← oneChannel_ok_iff]
          have hends := oneChannel_sameEnds N s c
          rcases hone : oneChannel N s c with ⟨s', e | _ | c'⟩
          · rw [hone] at hends
            exact ⟨hends, iff_of_false (fun h => by cases h) (fun h => by cases h)⟩
          · rw [hone] at hends
            exact ⟨hends, iff_of_true rfl rfl⟩
          · rw [hone] at hends
            exact ⟨hends, iff_of_false (fun h => by cases h) (fun h => by cases h)⟩

/-- A round that rejoined the loop. -/
theorem rejoin_eq_some {s s' : Compat} {e : Exc} (h : rejoin s e = some s') : s' = s := by
  unfold rejoin at h
  split at h
  · cases h
  · exact (Option.some.inj h).symm

/-- **STEP.** With all it takes, the iterator moves on and the channel was looked up. -/
theorem oldLoop_advances {N : Numbers} {c : Object} {outcome : Except Object Object} {s : Compat}
    (h : Advances N s.survey.selfId s.survey.peerId c outcome) :
    ∃ survey, SameEnds s.survey survey
      ∧ oldLoop N c outcome s = some ⟨survey, s.it + 1, s.lookups ++ [s.it]⟩ := by
  obtain ⟨scid, answer, cs, hrequest, rfl, hdirections, hreads⟩ := h
  obtain ⟨hends, hok⟩ := towards_spec N s.survey cs
  have htrue := hok.mpr hreads
  refine ⟨(towards N s.survey cs).1, hends, ?_⟩
  unfold oldLoop
  simp only [hrequest, hdirections]
  rcases htowards : towards N s.survey cs with ⟨survey, r⟩
  rw [htowards] at htrue
  simp only at htrue
  rw [htrue]

/-- **STEP.** Without, it stays where it is. -/
theorem oldLoop_stays {N : Numbers} {c : Object} {outcome : Except Object Object} {s s' : Compat}
    (h : ¬ Advances N s.survey.selfId s.survey.peerId c outcome)
    (hs' : oldLoop N c outcome s = some s') : s'.it = s.it := by
  unfold oldLoop at hs'
  rcases hrequest : request c with e | scid
  · simp only [hrequest] at hs'
    rw [rejoin_eq_some hs']
  · simp only [hrequest] at hs'
    rcases outcome with e | answer
    · cases hs'
      rfl
    · simp only at hs'
      rcases hdirections : directions answer with e | cs
      · simp only [hdirections] at hs'
        rw [rejoin_eq_some hs']
      · simp only [hdirections] at hs'
        have hspec := towards_spec N s.survey cs
        rcases htowards : towards N s.survey cs with ⟨survey, e | _ | _⟩
        · simp only [htowards] at hs'
          rw [rejoin_eq_some hs']
        · simp only [htowards] at hs'
          cases hs'
          rfl
        · rw [htowards] at hspec
          exact absurd ⟨scid, answer, cs, hrequest, rfl, hdirections, hspec.2.mp rfl⟩ h

/-! ## The run -/

/-- The first `i` channels are done, each looked up once and in order. -/
structure At (selfId peerId : NodeId) (i : ℕ) (s : Compat) : Prop where
  selfId  : s.survey.selfId = selfId
  peerId  : s.survey.peerId = peerId
  it      : s.it = i
  lookups : s.lookups = List.range i

theorem At.start (selfId peerId : NodeId) : At selfId peerId 0 (start selfId peerId) :=
  ⟨rfl, rfl, rfl, rfl⟩

variable {N : Numbers} {selfId peerId : NodeId} {channels : List Object}
  {outcomes : ℕ → Except Object Object} {i : ℕ} {s s' : Compat}

/-- **STEP.** -/
theorem At.advance (h : At selfId peerId i s) {c : Object}
    (hadvances : Advances N selfId peerId c (outcomes i)) :
    ∃ s', oldLoop N c (outcomes s.lookups.length) s = some s' ∧ At selfId peerId (i + 1) s' := by
  obtain ⟨hself, hpeer, hit, hlookups⟩ := h
  rw [hlookups, List.length_range]
  rw [← hself, ← hpeer] at hadvances
  obtain ⟨survey, ⟨hself', hpeer'⟩, hloop⟩ := oldLoop_advances hadvances
  refine ⟨_, hloop, hself'.trans hself, hpeer'.trans hpeer, congrArg (· + 1) hit, ?_⟩
  rw [hlookups, hit, List.range_succ]

/-- A round moves the iterator by one at most. -/
theorem oldLoop_it_le {c : Object} {outcome : Except Object Object}
    (h : oldLoop N c outcome s = some s') : s'.it ≤ s.it + 1 := by
  by_cases hadvances : Advances N s.survey.selfId s.survey.peerId c outcome
  · obtain ⟨survey, _, hloop⟩ := oldLoop_advances hadvances
    rw [hloop] at h
    cases h
    exact le_rfl
  · rw [oldLoop_stays hadvances h]
    exact Nat.le_succ _

/-- **RUN.** -/
theorem oldRun_it_le {n : ℕ} (h : oldRun N channels outcomes n s = some s') :
    s'.it ≤ s.it + n := by
  induction n generalizing s with
  | zero =>
      cases h
      exact le_rfl
  | succ n ih =>
      unfold oldRun at h
      split at h
      · cases h
        exact Nat.le_add_right _ _
      · split at h
        · cases h
        · rename_i s₁ hloop
          have hone := oldLoop_it_le hloop
          have hrest := ih h
          omega

/-- **RUN.** Where every channel advances, the rounds do one channel each. -/
theorem oldRun_of_advances {n : ℕ} (h : At selfId peerId i s) (hn : i + n ≤ channels.length)
    (hadvances : ∀ j (hj : j < channels.length), i ≤ j → j < i + n →
      Advances N selfId peerId channels[j] (outcomes j)) :
    ∃ s', oldRun N channels outcomes n s = some s' ∧ At selfId peerId (i + n) s' := by
  induction n generalizing i s with
  | zero => exact ⟨s, rfl, h⟩
  | succ n ih =>
      have hi : i < channels.length := by omega
      obtain ⟨s₁, hloop, h₁⟩ := h.advance (hadvances i hi le_rfl (by omega))
      obtain ⟨s', hrun, h'⟩ := ih h₁ (by omega)
        (fun j hj hle hlt => hadvances j hj (by omega) (by omega))
      have hnext : oldRun N channels outcomes (n + 1) s = oldRun N channels outcomes n s₁ := by
        rw [oldRun, h.it, List.getElem?_eq_getElem hi]
        simp only [hloop]
      refine ⟨s', hnext.trans hrun, ?_⟩
      rw [Nat.add_right_comm] at h'
      exact h'

/-- **RUN.** Rounds that do one channel each had every channel advance. -/
theorem advances_of_oldRun {n : ℕ} (h : At selfId peerId i s) (hn : i + n ≤ channels.length)
    (hrun : oldRun N channels outcomes n s = some s') (hs' : s'.it = i + n) :
    ∀ j (hj : j < channels.length), i ≤ j → j < i + n →
      Advances N selfId peerId channels[j] (outcomes j) := by
  induction n generalizing i s with
  | zero =>
      intro j _ hle hlt
      omega
  | succ n ih =>
      have hi : i < channels.length := by omega
      rw [oldRun, h.it, List.getElem?_eq_getElem hi] at hrun
      by_cases hadvances : Advances N selfId peerId channels[i] (outcomes i)
      · obtain ⟨s₁, hloop, h₁⟩ := h.advance hadvances
        simp only [hloop] at hrun
        have hrest := ih h₁ (by omega) hrun (by omega)
        intro j hj hle hlt
        rcases Nat.eq_or_lt_of_le hle with rfl | hlt'
        · exact hadvances
        · exact hrest j hj hlt' (by omega)
      · -- a round is lost, and the rounds left are too few
        exfalso
        simp only at hrun
        split at hrun
        · cases hrun
        · rename_i s₁ hloop
          have hle := oldRun_it_le hrun
          have hself := h.selfId
          have hpeer := h.peerId
          rw [h.lookups, List.length_range] at hloop
          have hstays := oldLoop_stays (by rw [hself, hpeer]; exact hadvances) hloop
          have hit := h.it
          omega

/-- **HEADLINE**: the loop ends, having looked up no channel twice, just when every channel can be
    asked for and its answer is there and reads. -/
theorem old_loop_ends_iff (N : Numbers) (selfId peerId : NodeId) (channels : List Object)
    (outcomes : ℕ → Except Object Object) :
    Ends N selfId peerId channels outcomes
      ↔ ∀ i (hi : i < channels.length), Advances N selfId peerId channels[i] (outcomes i) := by
  have hstart := At.start selfId peerId
  have hlength : 0 + channels.length ≤ channels.length := (Nat.zero_add _).le
  constructor
  · rintro ⟨s', hrun, hit, _⟩ i hi
    exact advances_of_oldRun hstart hlength hrun (by omega) i hi (Nat.zero_le _) (by omega)
  · intro hadvances
    obtain ⟨s', hrun, h'⟩ := oldRun_of_advances hstart hlength (fun j hj _ _ => hadvances j hj)
    refine ⟨s', hrun, h'.it.trans (Nat.zero_add _), ?_⟩
    rw [h'.lookups]
    exact List.nodup_range

/-! ## An error that repeats -/

/-- A channel that can be asked for. -/
def lonelyChannel : Object := some (.obj [("short_channel_id".toUTF8.toList, .str "1x1x1".toUTF8.toList)])

/-- Every lookup fails. -/
def failing : ℕ → Except Object Object := fun _ => .error none

theorem request_lonelyChannel : ∃ scid, request lonelyChannel = .ok scid := by
  have hkey : fromEscaped "short_channel_id".toUTF8.toList
      = some "short_channel_id".toUTF8.toList := by decide +kernel
  have hindex : Object.index lonelyChannel "short_channel_id"
      = .ok (some (.str "1x1x1".toUTF8.toList)) := by
    simp only [lonelyChannel, Object.index, lookup, hkey, if_true]
  have hprints : Object.prints (some (.str "1x1x1".toUTF8.toList)) = true := by decide +kernel
  refine ⟨some (.str "1x1x1".toUTF8.toList), ?_⟩
  unfold request
  rw [hindex]
  exact if_pos hprints

/-- The one channel is looked up round after round. -/
theorem oldRun_failing (N : Numbers) {s : Compat} (h : s.it = 0) (n : ℕ) :
    oldRun N [lonelyChannel] failing n s
      = some { s with lookups := s.lookups ++ List.replicate n 0 } := by
  obtain ⟨scid, hrequest⟩ := request_lonelyChannel
  induction n generalizing s with
  | zero =>
      rw [List.replicate_zero, List.append_nil]
      rfl
  | succ n ih =>
      have hloop : oldLoop N lonelyChannel (failing s.lookups.length) s
          = some { s with lookups := s.lookups ++ [0] } := by
        unfold oldLoop failing
        simp only [hrequest, h]
      have hc : [lonelyChannel][s.it]? = some lonelyChannel := by rw [h]; rfl
      rw [oldRun, hc]
      simp only [hloop]
      have hnext : ({ s with lookups := s.lookups ++ [0] } : Compat).it = 0 := h
      rw [ih hnext]
      simp only [List.append_assoc, List.singleton_append, List.replicate_succ]

/-- **COUNTEREXAMPLE**: an RPC error that repeats keeps the loop at its first channel, however
    many rounds it is given. -/
theorem failing_never_ends :
    ¬ Ends decimals nodeA nodeB [lonelyChannel] failing
      ∧ ∀ n, ∃ s, oldRun decimals [lonelyChannel] failing n (start nodeA nodeB) = some s
          ∧ s.it = 0 ∧ s.lookups = List.replicate n 0 := by
  have hrun : ∀ n, oldRun decimals [lonelyChannel] failing n (start nodeA nodeB)
      = some ⟨create nodeA nodeB, 0, List.replicate n 0⟩ := fun n => oldRun_failing decimals rfl n
  refine ⟨?_, fun n => ⟨_, hrun n, rfl, rfl⟩⟩
  rintro ⟨s, hs, hit, _⟩
  rw [hrun] at hs
  cases hs
  cases hit

end Surveyor
