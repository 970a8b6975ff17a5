import Clboss.AmountProofs
import Clboss.ComplaintsDeskProofs
import Clboss.DijkstraPathsProofs
import Clboss.GuardProofs

/-! # Four run guards

    `PaymentDeleter`, `ChannelFinderByDistance`, `StatusCommand` and the
    solicitation of `PeerComplaintsDesk` each keep a flag so as not to run
    twice.  All four clear it at the end of a chain of continuations, and an
    exception on the way skips them.  What differs is which outcomes of which
    await are caught before: each program says so in its own `fatal`. -/

/-! ## Deleting payments -/

namespace PaymentDeleter

/-- An entry of `listpays`, by what reading it finds; a field of another type,
    or absent, is `none`. -/
inductive Pay where
  | notObject
  | unlabelled
  | labelled (label status paymentHash : Option String)

/-- What `loop` does with an entry. -/
inductive Reading where
  | skip
  | delete (paymentHash status : String)
  | unexpected

/-- The `try` block of `loop`. -/
def read (filterLabel : String → Bool) : Pay → Reading
  | .notObject  => .unexpected
  | .unlabelled => .skip
  | .labelled label status paymentHash =>
      match label with
      | none       => .unexpected
      | some label =>
          if !filterLabel label then .skip
          else match status with
            | none        => .unexpected
            | some status =>
                if status = "pending" then .skip
                else match paymentHash with
                  | none      => .unexpected
                  | some hash => .delete hash status

/-- Where `core_perform` is; `pays` and `it` are the entries left. -/
inductive Pc where
  | starting
  | listing
  | looping (pays : List Pay)
  | deleting (pays : List Pay)
  | ending

/-- How an awaited step ends; a result without readable `pays` is `none`. -/
inductive Answer where
  | done
  | result (pays : Option (List Pay))
  | rpcError
  | exception

/-- `core_perform`. -/
def resume (filterLabel : String → Bool) : Pc → Answer → Option (Guard.Next Pc)
  | .starting, .done              => some (.await .listing)
  | .listing, .result none        => some (.await .ending)
  | .listing, .result (some pays) => some (.await (.looping pays))
  | .listing, .rpcError           => some .escape
  | .listing, .exception          => some .escape
  | .looping [], .done            => some (.await .ending)
  | .looping (pay :: pays), .done =>
      match read filterLabel pay with
      | .skip       => some (.await (.looping pays))
      | .delete _ _ => some (.await (.deleting pays))
      | .unexpected => some (.await .ending)
  | .deleting pays, .result _     => some (.await (.looping pays))
  | .deleting pays, .rpcError     => some (.await (.looping pays))
  | .deleting _, .exception       => some .escape
  | .ending, .done                => some .release
  | _, _                          => none

/-- `perform`. -/
def program (filterLabel : String → Bool) : Guard.Program Unit Pc Answer where
  start   := fun _ => .starting
  resume  := resume filterLabel
  retries := false

/-- `listpays` fails, or `delpay` fails otherwise than by an error response. -/
def fatal : Pc → Answer → Bool
  | .listing, .rpcError     => true
  | .listing, .exception    => true
  | .deleting _, .exception => true
  | _, _                    => false

theorem escape_iff (filterLabel : String → Bool) (pc : Pc) (a : Answer) :
    (program filterLabel).resume pc a = some .escape ↔ fatal pc a = true := by
  show resume filterLabel pc a = some .escape ↔ fatal pc a = true
  cases pc with
  | starting => cases a <;> simp [resume, fatal]
  | listing =>
      cases a with
      | result pays => cases pays <;> simp [resume, fatal]
      | _ => simp [resume, fatal]
  | looping pays =>
      cases pays with
      | nil => cases a <;> simp [resume, fatal]
      | cons pay pays =>
          cases a with
          | done =>
              simp only [resume, fatal]
              cases read filterLabel pay <;> simp
          | _ => simp [resume, fatal]
  | deleting pays => cases a <;> simp [resume, fatal]
  | ending => cases a <;> simp [resume, fatal]

end PaymentDeleter

/-! ## The search for candidates -/

namespace ChannelFinderByDistance

open Ln DijkstraTree

variable {N : Type} [LinearOrder N]

attribute [local instance] amountOrder

/-- `djk` of a run, with the tree nodes that it owns. -/
abbrev Dijkstra (N : Type) := DijkstraTree.State Unit N Amount

/-- A search from `root`. -/
def Dijkstra.init (root : N) : Dijkstra N :=
  construct amountCosts () root ⟨0⟩ (blankMemory amountCosts)

/-- `children` of a node. -/
def Dijkstra.children (djk : Dijkstra N) (n : N) : List N := (djk.mem ⟨(), n⟩).children.map Ptr.key

/-- A channel of `listchannels`, by what reading it finds: a field of the wrong
    type, a destination that is no node id, or a neighbour and its cost. -/
inductive Channel (N : Type) where
  | inactive
  | untyped
  | badDestination
  | channel (destination : N) (cost : Amount)

/-- How an awaited step ends; a result without readable `channels` is `none`. -/
inductive Answer (N : Type) where
  | done
  | result (channels : Option (List (Channel N)))
  | rpcError
  | exception

/-- Where `core_run` is. -/
inductive Pc (N : Type) where
  | starting (selfId : N)
  | waiting (selfId : N)
  | dijkstra (selfId : N) (djk : Dijkstra N)
  | listing (selfId : N) (djk : Dijkstra N)
  | leaves (djk : Dijkstra N) (extractQ : List N)
  | raising

/-- How the loop over the channels of one node ends. -/
inductive Scan (N : Type) where
  | all (djk : Dijkstra N)
  | unexpected (djk : Dijkstra N)
  | thrown

/-- The loop over the channels in `step`. -/
def scan (maxFee : Amount) : Dijkstra N → List (Channel N) → Scan N
  | djk, []                       => .all djk
  | djk, .inactive :: cs          => scan maxFee djk cs
  | djk, .untyped :: _            => .unexpected djk
  | _, .badDestination :: _       => .thrown
  | djk, .channel n cost :: cs    =>
      if maxFee.v < cost.v then scan maxFee djk cs
      else scan maxFee (neighbor amountCosts () n cost djk) cs

/-- The entry is one of an active channel; `none` if it cannot be read. -/
def Channel.active : Channel N → Option Bool
  | .inactive => some false
  | .untyped  => none
  | _         => some true

/-- Whether any channel is active, looking no further than the first that is. -/
def anyActive : List (Channel N) → Option Bool
  | []      => some false
  | c :: cs =>
      match c.active with
      | none       => none
      | some true  => some true
      | some false => anyActive cs

/-- The first listing: nothing to do, wait for the channels, or begin. -/
def begun (selfId : N) (channels : Option (List (Channel N))) : Guard.Next (Pc N) :=
  match channels with
  | none    => .release
  | some cs =>
      match anyActive cs with
      | none       => .release
      | some true  => .await (.dijkstra selfId (Dijkstra.init selfId))
      | some false => if cs.isEmpty then .release else .await (.waiting selfId)

/-- `core_run`; the log lines along the way cannot fail and are part of the step
    that follows them. -/
def resume (maxFee : Amount) : Pc N → Answer N → Option (Guard.Next (Pc N))
  | .starting selfId, .result channels => some (begun selfId channels)
  | .starting _, .rpcError             => some .escape
  | .starting _, .exception            => some .escape
  | .waiting selfId, .done             =>
      some (.await (.dijkstra selfId (Dijkstra.init selfId)))
  | .waiting _, .exception             => some .escape
  | .dijkstra selfId djk, .done        =>
      match current djk with
      | none   => some (.await (.leaves djk [selfId]))
      | some _ => some (.await (.listing selfId djk))
  | .listing selfId djk, .result none  => some (.await (.leaves djk [selfId]))
  | .listing selfId djk, .result (some cs) =>
      match scan maxFee djk cs with
      | .all djk'        => some (.await (.dijkstra selfId (endNeighbors djk')))
      | .unexpected djk' => some (.await (.leaves djk' [selfId]))
      | .thrown          => some .escape
  | .listing _ _, .rpcError            => some .escape
  | .listing _ _, .exception           => some .escape
  | .leaves _ [], .done                => some (.await .raising)
  | .leaves djk (n :: q), .done        => some (.await (.leaves djk (q ++ djk.children n)))
  | .raising, .done                    => some .release
  | .raising, .exception               => some .escape
  | _, _                               => none

/-- The handler of `SolicitChannelCandidates`. -/
def program (maxFee : Amount) : Guard.Program N (Pc N) (Answer N) where
  start   := .starting
  resume  := resume maxFee
  retries := false

/-- A destination that is no node id comes before any field of the wrong type. -/
def badDestinationFirst : List (Channel N) → Bool
  | []                   => false
  | .untyped :: _        => false
  | .badDestination :: _ => true
  | _ :: cs              => badDestinationFirst cs

/-- A `listchannels`, the wait or the final message fails, or a listed
    destination is no node id. -/
def fatal : Pc N → Answer N → Bool
  | .starting _, .rpcError           => true
  | .starting _, .exception          => true
  | .waiting _, .exception           => true
  | .listing _ _, .result (some cs)  => badDestinationFirst cs
  | .listing _ _, .rpcError          => true
  | .listing _ _, .exception         => true
  | .raising, .exception             => true
  | _, _                             => false

theorem scan_thrown_iff (maxFee : Amount) (cs : List (Channel N)) (djk : Dijkstra N) :
    scan maxFee djk cs = .thrown ↔ badDestinationFirst cs = true := by
  induction cs generalizing djk with
  | nil => simp [scan, badDestinationFirst]
  | cons c cs ih =>
      cases c with
      | inactive => simpa [scan, badDestinationFirst] using ih djk
      | untyped => simp [scan, badDestinationFirst]
      | badDestination => simp [scan, badDestinationFirst]
      | channel n cost =>
          simp only [scan, badDestinationFirst]
          split
          · exact ih djk
          · exact ih (neighbor amountCosts () n cost djk)

theorem begun_ne_escape (selfId : N) (channels : Option (List (Channel N))) :
    begun selfId channels ≠ .escape := by
  unfold begun
  cases channels with
  | none => simp
  | some cs =>
      simp only
      cases anyActive cs with
      | none => simp
      | some b =>
          cases b with
          | true => simp
          | false =>
              simp only
              split <;> simp

theorem escape_iff (maxFee : Amount) (pc : Pc N) (a : Answer N) :
    (program maxFee).resume pc a = some .escape ↔ fatal pc a = true := by
  show resume maxFee pc a = some .escape ↔ fatal pc a = true
  cases pc with
  | starting selfId =>
      cases a with
      | result channels => simp [resume, fatal, begun_ne_escape]
      | _ => simp [resume, fatal]
  | waiting selfId => cases a <;> simp [resume, fatal]
  | dijkstra selfId djk =>
      cases a with
      | done =>
          simp only [resume, fatal]
          cases current djk <;> simp
      | _ => simp [resume, fatal]
  | listing selfId djk =>
      cases a with
      | result channels =>
          cases channels with
          | none => simp [resume, fatal]
          | some cs =>
              have hthrown := scan_thrown_iff maxFee cs djk
              simp only [resume, fatal]
              cases hscan : scan maxFee djk cs with
              | thrown => simpa [hscan] using hthrown
              | all djk' => simpa [hscan] using hthrown
              | unexpected djk' => simpa [hscan] using hthrown
      | _ => simp [resume, fatal]
  | leaves djk q =>
      cases q with
      | nil => cases a <;> simp [resume, fatal]
      | cons n q => cases a <;> simp [resume, fatal]
  | raising => cases a <;> simp [resume, fatal]

end ChannelFinderByDistance

/-! ## The status command -/

namespace StatusCommand

/-- Where `on_command` is: before, and while `SolicitStatus` is raised. -/
inductive Pc (I : Type) where
  | yielding (id : I)
  | soliciting (id : I)

/-- How an awaited step ends. -/
inductive Answer where
  | done
  | exception

/-- `on_command`, up to the reset. -/
def resume {I : Type} : Pc I → Answer → Option (Guard.Next (Pc I))
  | .yielding id, .done       => some (.await (.soliciting id))
  | .soliciting _, .done      => some .release
  | .soliciting _, .exception => some .escape
  | .yielding _, .exception   => none

/-- A command that finds another one being answered spins. -/
def program (I : Type) : Guard.Program I (Pc I) Answer where
  start   := .yielding
  resume  := resume
  retries := true

/-- A module fails to report its status. -/
def fatal {I : Type} : Pc I → Answer → Bool
  | .soliciting _, .exception => true
  | _, _                      => false

theorem escape_iff {I : Type} (pc : Pc I) (a : Answer) :
    (program I).resume pc a = some .escape ↔ fatal pc a = true := by
  show resume pc a = some .escape ↔ fatal pc a = true
  cases pc <;> cases a <;> simp [resume, fatal]

end StatusCommand

/-! ## The solicitation of complaints -/

namespace PeerComplaintsDesk

variable {N : Type} [DecidableEq N]

/-- The greenthreads of `solicit`. -/
def Task.solicits : Task N → Bool
  | .exemptions | .metrics | .soliciting | .recording => true
  | _                                                 => false

/-- How many of them there are. -/
def solicitations (s : State N) : Nat := s.tasks.countP Task.solicits

/-- At most one solicitation, and the flag is set while there is one. -/
def SolicitsOnce (s : State N) : Prop :=
  solicitations s ≤ 1 ∧ (solicitations s ≠ 0 → s.soliciting = true)

/-- Once none is left, the flag is idle and the next timer starts one. -/
def SolicitsAgain (s : State N) : Prop :=
  solicitations s = 0 → s.soliciting = false ∧ solicitations (solicit s) = 1

/-- Nothing that `solicit` awaits fails. -/
def SolicitsThrough (s : State N) : Event N → Prop
  | .fails n => ∀ t, s.tasks[n]? = some t → t.solicits = false
  | _        => True

instance (s : State N) (e : Event N) : Decidable (SolicitsThrough s e) :=
  match e with
  | .fails n =>
      match h : s.tasks[n]? with
      | none   => isTrue (by simp [SolicitsThrough, h])
      | some t => decidable_of_iff (t.solicits = false) (by simp [SolicitsThrough, h])
  | .option _ | .init | .onchainFee _ | .timerTwiceDaily | .timer10Minutes
  | .raisePeerComplaint _ _ | .channelDestruction _ | .unmanage _ | .manage _ | .exempted _ _
  | .listed _ _ | .task _ _ | .restart => isTrue trivial

omit [DecidableEq N] in
theorem solicitsAgain_iff {s : State N} :
    SolicitsAgain s ↔ (solicitations s = 0 → s.soliciting = false) := by
  constructor
  · intro h hz
    exact (h hz).1
  · intro h hz
    refine ⟨h hz, ?_⟩
    unfold solicitations at hz ⊢
    unfold solicit
    rw [if_neg (by rw [h hz]; exact Bool.false_ne_true)]
    show List.countP Task.solicits (s.tasks ++ [Task.exemptions]) = 1
    rw [List.countP_append, hz]
    rfl

/-- What a step does to the solicitations and the flag. -/
def Solicited (s s' : State N) (fatal : Bool) : Prop :=
  (solicitations s' = solicitations s ∧ s'.soliciting = s.soliciting)
    ∨ (s.soliciting = false ∧ s'.soliciting = true ∧ solicitations s' = solicitations s + 1)
    ∨ (solicitations s = solicitations s' + 1 ∧ s'.soliciting = false)
    ∨ (solicitations s' = 0 ∧ s'.soliciting = false)
    ∨ (fatal = true ∧ solicitations s = solicitations s' + 1 ∧ s'.soliciting = s.soliciting)

omit [DecidableEq N] in
/-- The resumed greenthread and the others. -/
theorem solicitations_pool {s : State N} {n : Nat} {t : Task N} (ht : s.tasks[n]? = some t) :
    solicitations s = (s.tasks.eraseIdx n).countP Task.solicits + (if t.solicits then 1 else 0) := by
  unfold solicitations
  rw [(Machine.pool_perm ht).countP_eq, List.countP_cons]

omit [DecidableEq N] in
/-- A greenthread goes on as others. -/
theorem solicited_resume {s s' : State N} {n : Nat} {t : Task N} (ts : List (Task N))
    (ht : s.tasks[n]? = some t) (htasks : s'.tasks = s.tasks.eraseIdx n ++ ts)
    (hts : ts.countP Task.solicits = if t.solicits then 1 else 0)
    (hflag : s'.soliciting = s.soliciting) : Solicited s s' false := by
  refine Or.inl ⟨?_, hflag⟩
  rw [solicitations_pool ht]
  unfold solicitations
  rw [htasks, List.countP_append, hts]

omit [DecidableEq N] in
/-- A message starts greenthreads other than a solicitation. -/
theorem solicited_told {s s' : State N} (ts : List (Task N)) (htasks : s'.tasks = s.tasks ++ ts)
    (hts : ts.countP Task.solicits = 0) (hflag : s'.soliciting = s.soliciting) :
    Solicited s s' false := by
  refine Or.inl ⟨?_, hflag⟩
  unfold solicitations
  rw [htasks, List.countP_append, hts]
  exact Nat.add_zero _

theorem waitForPeer_frame (s : State N) (now : Double) (k : Nat) (p : N) :
    (waitForPeer s now k p).1.soliciting = s.soliciting
      ∧ ∃ ts, (waitForPeer s now k p).1.tasks = s.tasks ++ ts ∧ ts.countP Task.solicits = 0 := by
  obtain ⟨row, noted, -, -, h | ⟨-, -, h⟩⟩ := waitForPeer_cases s now k p
  · rw [h]
    exact ⟨rfl, [], (List.append_nil _).symm, rfl⟩
  · rw [h]
    exact ⟨rfl, [.givingUp k p], rfl, rfl⟩

theorem countP_started (s : State N) : (started s).countP Task.solicits = 0 := by
  refine List.countP_eq_zero.mpr ?_
  intro t ht
  obtain ⟨p, -, -, rfl⟩ := mem_started ht
  exact Bool.false_ne_true

theorem stepTask_solicited {s s' : State N} {n : Nat} {t : Task N} {now : Double}
    {out : List (Out N)} (ht : s.tasks[n]? = some t)
    (hs : stepTask { s with tasks := s.tasks.eraseIdx n } now t = some (s', out)) :
    Solicited s s' false := by
  cases t with
  | exemptions => cases hs
  | listing k p => cases hs
  | metrics =>
      cases hs
      exact solicited_resume [.soliciting] ht rfl rfl rfl
  | soliciting =>
      cases hs
      exact solicited_resume [.recording] ht rfl rfl rfl
  | recording =>
      cases hs
      exact Or.inr (Or.inr (Or.inl ⟨solicitations_pool ht, rfl⟩))
  | check =>
      cases hs
      exact solicited_resume (started s) ht rfl (countP_started s) rfl
  | noting k p =>
      obtain ⟨hflag, ts, hts, hz⟩ :=
        waitForPeer_frame { s with tasks := s.tasks.eraseIdx n } now k p
      rw [show waitForPeer _ now k p = (s', out) from Option.some.inj hs] at hflag hts
      exact solicited_resume ts ht hts hz hflag
  | _ =>
      cases hs
      exact solicited_resume [] ht (List.append_nil _).symm rfl rfl

/-- **STEP**: only a failing await of `solicit` takes it away from its flag. -/
theorem step_solicited {s s' : State N} {e : Event N} {out : List (Out N)}
    (hs : step s e = some (s', out)) :
    Solicited s s' false ∨ Solicited s s' true ∧ ¬ SolicitsThrough s e := by
  cases e with
  | task n now =>
      obtain ⟨t, ht, hs⟩ := Option.bind_eq_some_iff.mp hs
      exact Or.inl (stepTask_solicited ht hs)
  | exempted n nodes =>
      obtain ⟨t, ht, hs⟩ := Option.bind_eq_some_iff.mp hs
      cases t with
      | exemptions =>
          cases hs
          exact Or.inl (solicited_resume [.metrics] ht rfl rfl rfl)
      | _ => cases hs
  | listed n channels =>
      obtain ⟨t, ht, hs⟩ := Option.bind_eq_some_iff.mp hs
      cases t with
      | listing k p =>
          simp only [onListed] at hs
          split at hs
          · cases hs
            exact Or.inl (solicited_resume [.clearing k p] ht rfl rfl rfl)
          · cases hs
            exact Or.inl (solicited_resume [.noting k p] ht rfl rfl rfl)
      | _ => cases hs
  | fails n =>
      obtain ⟨t, ht, hs⟩ := Option.map_eq_some_iff.mp hs
      cases hs
      cases hsol : t.solicits with
      | false =>
          refine Or.inl (solicited_resume [] ht (List.append_nil _).symm ?_ rfl)
          rw [hsol]
          rfl
      | true =>
          have hpool := solicitations_pool ht
          rw [hsol] at hpool
          refine Or.inr ⟨Or.inr (Or.inr (Or.inr (Or.inr ⟨rfl, hpool, rfl⟩))), fun hthrough => ?_⟩
          rw [hthrough t ht] at hsol
          cases hsol
  | restart =>
      cases hs
      exact Or.inl (Or.inr (Or.inr (Or.inr (Or.inl ⟨rfl, rfl⟩))))
  | timerTwiceDaily =>
      cases hs
      refine Or.inl ?_
      have hspawn : solicitations ((solicit s).spawn .cleanup) = solicitations (solicit s) := by
        unfold solicitations State.spawn
        rw [List.countP_append]
        rfl
      unfold Solicited
      rw [hspawn]
      cases hf : s.soliciting with
      | true =>
          have hsame : solicit s = s := if_pos hf
          rw [hsame]
          exact Or.inl ⟨rfl, hf⟩
      | false =>
          have hstart : solicit s = State.spawn { s with
              soliciting := true, pendingComplaints := [] } .exemptions :=
            if_neg (by rw [hf]; exact Bool.false_ne_true)
          rw [hstart]
          refine Or.inr (Or.inl ⟨rfl, rfl, ?_⟩)
          unfold solicitations State.spawn
          rw [List.countP_append]
          rfl
  | timer10Minutes =>
      cases hs
      by_cases hr : s.rpc
      · rw [if_pos hr]
        exact Or.inl (solicited_told [.check] rfl rfl rfl)
      · rw [if_neg hr]
        exact Or.inl (Or.inl ⟨rfl, rfl⟩)
  | raisePeerComplaint peer complaint =>
      cases hs
      have hts := (raisePeerComplaint_frame s peer complaint).2.2
      refine Or.inl (solicited_told [] (hts.trans (List.append_nil _).symm) rfl ?_)
      unfold raisePeerComplaint
      split
      · rfl
      · split
        · rfl
        · rfl
  | channelDestruction peer =>
      cases hs
      exact Or.inl (solicited_told [.destroy peer] rfl rfl rfl)
  | option value =>
      cases value with
      | none => cases hs; exact Or.inl (Or.inl ⟨rfl, rfl⟩)
      | some v => cases hs; exact Or.inl (Or.inl ⟨rfl, rfl⟩)
  | _ =>
      cases hs
      exact Or.inl (Or.inl ⟨rfl, rfl⟩)

omit [DecidableEq N] in
/-- A step of that kind never makes two solicitations of one. -/
theorem SolicitsOnce.solicited {s s' : State N} {fatal : Bool} (h : SolicitsOnce s)
    (hsol : Solicited s s' fatal) : SolicitsOnce s' := by
  obtain ⟨hle, hflag⟩ := h
  rcases hsol with ⟨hn, hf⟩ | ⟨hf, hf', hn⟩ | ⟨hn, -⟩ | ⟨hn, -⟩ | ⟨-, hn, -⟩
  · refine ⟨by omega, fun hne => ?_⟩
    rw [hf]
    exact hflag (by omega)
  · have hzero : solicitations s = 0 := by
      by_contra hne
      rw [hflag hne] at hf
      cases hf
    exact ⟨by omega, fun _ => hf'⟩
  · exact ⟨by omega, fun hne => absurd (by omega) hne⟩
  · exact ⟨by omega, fun hne => absurd hn hne⟩
  · exact ⟨by omega, fun hne => absurd (by omega) hne⟩

omit [DecidableEq N] in
/-- One where nothing failed leaves the flag idle once no solicitation is left. -/
theorem SolicitsAgain.solicited {s s' : State N} (h : SolicitsAgain s)
    (hsol : Solicited s s' false) : SolicitsAgain s' := by
  rw [solicitsAgain_iff] at h ⊢
  intro hz
  rcases hsol with ⟨hn, hf⟩ | ⟨-, -, hn⟩ | ⟨-, hf⟩ | ⟨-, hf⟩ | ⟨hf, -⟩
  · rw [hf]
    exact h (by omega)
  · omega
  · exact hf
  · exact hf
  · cases hf

/-- **RUN**: there is never more than one solicitation. -/
theorem run_solicitsOnce {es : List (Event N)} {s : State N} {tr : List (Out N)}
    (hrun : run es = some (s, tr)) : SolicitsOnce s := by
  refine Machine.run_invariant (P := fun _ _ => True) (I := fun _ _ s => SolicitsOnce s)
    ?_ ?_ (Machine.along_true _ _) hrun
  · exact ⟨Nat.zero_le _, fun hne => absurd rfl hne⟩
  · intro es tr s e s' out h _ hs
    rcases step_solicited hs with hsol | ⟨hsol, -⟩
    · exact h.solicited hsol
    · exact h.solicited hsol

/-- **RUN**: where nothing it awaits fails, it can always start again. -/
theorem run_solicitsAgain {es : List (Event N)} {s : State N} {tr : List (Out N)}
    (hthrough : Machine.Along step SolicitsThrough (boot Db.empty 0) es)
    (hrun : run es = some (s, tr)) : SolicitsAgain s := by
  refine Machine.run_invariant (I := fun _ _ s => SolicitsAgain s) ?_ ?_ hthrough hrun
  · rw [solicitsAgain_iff]
    exact fun _ => rfl
  · intro es tr s e s' out h hthrough hs
    rcases step_solicited hs with hsol | ⟨-, hfails⟩
    · exact h.solicited hsol
    · exact absurd hthrough hfails

end PeerComplaintsDesk

/-! ## All four -/

namespace RunGuards

open Guard

variable {N I D : Type} [LinearOrder N] [DecidableEq D]

/-- **HEADLINE**: in every run each of the four modules runs once at a time, and
    is ready to run again after each run as long as it got no answer that is
    fatal to it. -/
theorem released_unless_fatal {filterLabel : String → Bool} {maxFee : Ln.Amount}
    {esP : List (Guard.Event Unit PaymentDeleter.Answer)} {sP : Guard.State Unit PaymentDeleter.Pc}
    {trP : List (Guard.Out Unit)}
    (hpayment : Guard.run (PaymentDeleter.program filterLabel) esP = some (sP, trP))
    {esF : List (Guard.Event N (ChannelFinderByDistance.Answer N))}
    {sF : Guard.State N (ChannelFinderByDistance.Pc N)} {trF : List (Guard.Out N)}
    (hfinder : Guard.run (ChannelFinderByDistance.program maxFee) esF = some (sF, trF))
    {esS : List (Guard.Event I StatusCommand.Answer)} {sS : Guard.State I (StatusCommand.Pc I)}
    {trS : List (Guard.Out I)}
    (hstatus : Guard.run (StatusCommand.program I) esS = some (sS, trS))
    {esD : List (PeerComplaintsDesk.Event D)} {sD : PeerComplaintsDesk.State D}
    {trD : List (PeerComplaintsDesk.Out D)} (hdesk : PeerComplaintsDesk.run esD = some (sD, trD)) :
    (Exclusive sP ∧ (Ready (PaymentDeleter.program filterLabel) sP
        ↔ Machine.Along (Guard.step (PaymentDeleter.program filterLabel))
          (Avoids PaymentDeleter.fatal) Guard.State.init esP))
      ∧ (Exclusive sF ∧ (Ready (ChannelFinderByDistance.program maxFee) sF
        ↔ Machine.Along (Guard.step (ChannelFinderByDistance.program maxFee))
          (Avoids ChannelFinderByDistance.fatal) Guard.State.init esF))
      ∧ (Exclusive sS ∧ (Ready (StatusCommand.program I) sS
        ↔ Machine.Along (Guard.step (StatusCommand.program I))
          (Avoids StatusCommand.fatal) Guard.State.init esS))
      ∧ (PeerComplaintsDesk.SolicitsOnce sD
        ∧ (Machine.Along PeerComplaintsDesk.step PeerComplaintsDesk.SolicitsThrough
            (PeerComplaintsDesk.boot PeerComplaintsDesk.Db.empty 0) esD →
          PeerComplaintsDesk.SolicitsAgain sD)) := by
  refine ⟨?_, ?_, ?_, ?_, ?_⟩
  · exact guarded_iff_avoids (PaymentDeleter.escape_iff filterLabel) hpayment
  · exact guarded_iff_avoids (ChannelFinderByDistance.escape_iff maxFee) hfinder
  · exact guarded_iff_avoids StatusCommand.escape_iff hstatus
  · exact PeerComplaintsDesk.run_solicitsOnce hdesk
  · intro hthrough
    exact PeerComplaintsDesk.run_solicitsAgain hthrough hdesk

/-- A pass that deletes one of two payments, the other one pending. -/
def deletion : List (Guard.Event Unit PaymentDeleter.Answer) :=
  [.trigger (), .resume 0 .done, .trigger (),
    .resume 0 (.result (some [.labelled (some "a") (some "complete") (some "00"),
      .labelled (some "b") (some "pending") none])),
    .resume 0 .done, .resume 0 .rpcError, .resume 0 .done, .resume 0 .done, .resume 0 .done]

/-- A search from node 1, whose one channel leads to node 2. -/
def search : List (Guard.Event Nat (ChannelFinderByDistance.Answer Nat)) :=
  [.trigger 1, .resume 0 (.result (some [.channel 2 ⟨5⟩])), .resume 0 .done,
    .resume 0 (.result (some [.channel 2 ⟨5⟩])), .resume 0 .done,
    .resume 0 (.result (some [.inactive])), .resume 0 .done,
    .resume 0 .done, .resume 0 .done, .resume 0 .done, .resume 0 .done]

/-- Two commands, the second of which waits for the first. -/
def commands : List (Guard.Event Nat StatusCommand.Answer) :=
  [.trigger 1, .trigger 2, .resume 0 .done, .retry 0, .resume 0 .done]

theorem released_unless_fatal_sampleRuns :
    ∃ sP trP sF trF sS trS sD trD,
      Guard.run (PaymentDeleter.program (fun _ => true)) deletion = some (sP, trP)
        ∧ trP = [.started (), .released]
        ∧ Guard.run (ChannelFinderByDistance.program ⟨1000⟩) search = some (sF, trF)
        ∧ trF = [.started 1, .released]
        ∧ Guard.run (StatusCommand.program Nat) commands = some (sS, trS)
        ∧ trS = [.started 1, .released]
        ∧ PeerComplaintsDesk.run PeerComplaintsDesk.sampleRun = some (sD, trD)
        ∧ Ready (PaymentDeleter.program (fun _ => true)) sP
        ∧ Ready (ChannelFinderByDistance.program ⟨1000⟩) sF
        ∧ Ready (StatusCommand.program Nat) sS
        ∧ PeerComplaintsDesk.SolicitsAgain sD := by
  have hP : (Guard.run (PaymentDeleter.program (fun _ => true)) deletion).map Prod.snd
      = some [.started (), .released] := by decide +kernel
  have hF : (Guard.run (ChannelFinderByDistance.program ⟨1000⟩) search).map Prod.snd
      = some [.started 1, .released] := by decide +kernel
  have hS : (Guard.run (StatusCommand.program Nat) commands).map Prod.snd
      = some [.started 1, .released] := by decide +kernel
  have hD : (PeerComplaintsDesk.run PeerComplaintsDesk.sampleRun).isSome = true := by
    decide +kernel
  obtain ⟨⟨sP, trP⟩, hP, htrP⟩ := Option.map_eq_some_iff.mp hP
  obtain ⟨⟨sF, trF⟩, hF, htrF⟩ := Option.map_eq_some_iff.mp hF
  obtain ⟨⟨sS, trS⟩, hS, htrS⟩ := Option.map_eq_some_iff.mp hS
  obtain ⟨⟨sD, trD⟩, hD⟩ := Option.isSome_iff_exists.mp hD
  obtain ⟨⟨-, hrP⟩, ⟨-, hrF⟩, ⟨-, hrS⟩, -, hrD⟩ := released_unless_fatal hP hF hS hD
  exact ⟨sP, trP, sF, trF, sS, trS, sD, trD, hP, htrP, hF, htrF, hS, htrS, hD,
    hrP.mpr (by decide +kernel), hrF.mpr (by decide +kernel), hrS.mpr (by decide +kernel),
    hrD (by decide +kernel)⟩

/-- One failing answer each: no run is left, the flag is set, and the next
    trigger, or the command that waits, starts nothing. -/
theorem not_released_after_failure :
    ((Guard.run (PaymentDeleter.program (fun _ => true))
          [.trigger (), .resume 0 .done, .resume 0 .rpcError, .trigger ()]).map
        (fun r => (r.1.flag, r.1.runs.length, r.2)) = some (true, 0, [.started (), .escaped]))
      ∧ ((Guard.run (ChannelFinderByDistance.program ⟨1000⟩)
          [.trigger 1, .resume 0 .rpcError, .trigger 1]).map
        (fun r => (r.1.flag, r.1.runs.length, r.2)) = some (true, 0, [.started 1, .escaped]))
      ∧ ((Guard.run (StatusCommand.program Nat)
          [.trigger 1, .trigger 2, .resume 0 .done, .resume 0 .exception, .retry 0]).map
        (fun r => (r.1.flag, r.1.runs.length, r.2)) = some (true, 0, [.started 1, .escaped]))
      ∧ ((PeerComplaintsDesk.run (N := Nat) [.timerTwiceDaily, .fails 0, .timerTwiceDaily]).map
        (fun r => (r.1.soliciting, PeerComplaintsDesk.solicitations r.1)) = some (true, 0)) := by
  decide +kernel

end RunGuards
