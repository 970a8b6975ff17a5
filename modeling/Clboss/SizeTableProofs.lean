import Clboss.OrderedMapProofs
import Clboss.SemaphoreProofs
import Clboss.SizeModderProofs
import Mathlib.Data.List.TakeWhile

/-! # `Boss::Mod::FeeModderBySize` — the table and the cache

    Capacities are read off a table of the whole network, loaded when the first
    one is asked for, and multipliers computed from them are cached.  A RESET is
    to force both anew.  It clears the cache at once; the table is behind a
    semaphore and goes later, by a task that is not even queued yet.

    What was loaded when is history that the code does not keep: `loadedAt` is
    the number of resets before a table was asked for, and `complete` says that
    all of it was read.  An answer takes both along, and a cached multiplier
    keeps the answers it was computed from.

    Two things go wrong.  A load that fails leaves behind what it had read,
    and the next request takes it for the table.  And a computation that is on
    its way during a reset writes into the cleared cache. -/

namespace FeeModderBySize

open Ln Machine

variable {N K : Type} [LinearOrder N]

/-! ## The table -/

/-- The capacity of a node, and which table it is from. -/
structure Answer where
  amount   : Amount
  complete : Bool
  loadedAt : ℕ
deriving DecidableEq

/-- `capacities`. -/
structure Table (N : Type) [LinearOrder N] where
  capacities : OrderedMap N Amount := OrderedMap.empty
  complete   : Bool := false
  loadedAt   : ℕ

/-- `(*capacities)[source] += amount`. -/
def Table.add (t : Table N) (source : N) (amount : Amount) : Table N :=
  { t with
    capacities := t.capacities.assign source
      (((t.capacities.find source).getD ⟨0⟩).add amount) }

/-- What `core_get_capacity` answers from a table. -/
def Table.answer (t : Table N) (node : N) : Answer :=
  ⟨(t.capacities.find node).getD (Amount.sat 0), t.complete, t.loadedAt⟩

/-- What the semaphore runs: for a place among the competitors of a computation, or for
    our own capacity. -/
inductive Job (N : Type) where
  | get (id : ℕ) (place : Option ℕ) (node : N)
  | reset
deriving DecidableEq

def Job.isGet : Job N → Bool
  | .get .. => true
  | .reset  => false

/-- Where the holder of the semaphore is in `core_get_capacity`; an entry of the rest
    that is malformed is `none`. -/
inductive Phase (N : Type) where
  | checking
  | logging
  | fetching
  | filling (rest : List (Option (N × Amount)))

/-! ## Computations -/

/-- Where `compute_multiplier` is. -/
inductive Stage (N K : Type) where
  /-- `wait_for_rpc` and `get_competitors`. -/
  | competitors
  /-- `Ev::map`: the elements not started, those not finished, the results. -/
  | mapping (todo : List (ℕ × N)) (pending : ℕ) (results : List (Option Answer)) (failed : Bool)
  | own (caps : List Answer)
  /-- The log and `Msg::MonitorFeeBySize`. -/
  | announcing (used : List Answer) (mult : K)

/-- A call of `get_cached_multiplier` that found nothing. -/
structure Task (N K : Type) where
  peer  : N
  stage : Stage N K

/-- A multiplier in the cache. -/
structure Cached (K : Type) where
  mult : K
  used : List Answer

/-- `Impl` and its `NetworkCapacityTable`. -/
structure State (N K : Type) [LinearOrder N] where
  ready         : Bool := false
  nextId        : ℕ := 0
  tasks         : OrderedMap ℕ (Task N K) := OrderedMap.empty
  multipliers   : OrderedMap N (Cached K) := OrderedMap.empty
  /-- The tasks of `Boss::concurrent` that have not begun. -/
  pendingResets : ℕ := 0
  sem           : Semaphore.State (Job N) (Option Answer) := Semaphore.create 1
  phase         : Phase N := .checking
  table         : Option (Table N) := none
  resets        : ℕ := 0

inductive Output (N K : Type) where
  | answered (node : N) (a : Answer)
  /-- A load fails, and whether a table is there then. -/
  | loadFailed (left : Bool)
  | multiplier (peer : N) (mult : K)

/-- `get_competitors`: a set of nodes, without ourselves. -/
def competitors (self : N) (destinations : List N) : List N :=
  (destinations.foldl (fun rv n => if n = self then rv else rv.assign n ())
    OrderedMap.empty).entries.map Prod.fst

section Code

variable (A : Arith K) (self : N)

/-- `sem.run`. -/
def State.lock (s : State N K) (job : Job N) : State N K :=
  { s with sem := (s.sem.call job : _ × List (Semaphore.Output (Job N) (Option Answer) Unit)).1 }

/-- The holder of the semaphore finishes. -/
def State.finish (s : State N K) (r : Except Unit (Option Answer)) : Option (State N K) :=
  (Semaphore.step s.sem (.finish 0 r)).map fun x => { s with sem := x.1, phase := .checking }

/-- A capacity comes, or `none` where the request failed. -/
def Task.receive (t : Task N K) (place : Option ℕ) (r : Option Answer) : Option (Task N K) :=
  match t.stage, place, r with
  | .mapping todo pending results failed, some i, some a =>
      some { t with stage := .mapping todo (pending - 1) (results.set i (some a)) failed }
  | .mapping todo pending results _, some _, none =>
      some { t with stage := .mapping todo (pending - 1) results true }
  | .own caps, none, some a =>
      (multiplier A (caps.map Answer.amount) a.amount).map fun mult =>
        { t with stage := .announcing (caps ++ [a]) mult }
  | .own _, none, none => none
  | _, _, _ => some t

/-- The computation goes on with it; a failed one is gone. -/
def State.deliver (s : State N K) (id : ℕ) (place : Option ℕ) (r : Option Answer) : State N K :=
  match s.tasks.find id with
  | none   => s
  | some t =>
      match t.receive A place r with
      | some t' => { s with tasks := s.tasks.assign id t' }
      | none    => { s with tasks := s.tasks.erase id }

/-- An exception in `load_capacities`. -/
def State.loadFails (s : State N K) (id : ℕ) (place : Option ℕ) :
    Option (State N K × List (Output N K)) :=
  (s.finish (.error ())).map fun s' =>
    (s'.deliver A id place none, [.loadFailed s'.table.isSome])

/-- `reset` of the module. -/
def State.reset (s : State N K) : State N K :=
  { s with
    multipliers := OrderedMap.empty
    resets := s.resets + 1
    pendingResets := if s.ready then s.pendingResets + 1 else s.pendingResets }

inductive Event (N : Type) where
  /-- `Msg::Init`. -/
  | init
  | request (peer : N)
  /-- The destinations of the channels of a peer, or `none` if the command failed. -/
  | competitors (id : ℕ) (destinations : Option (List N))
  /-- `Ev::map` runs the function on an element. -/
  | ask (id k : ℕ)
  /-- `Ev::map` has finished. -/
  | gather (id : ℕ)
  /-- The log is written and the message raised. -/
  | store (id : ℕ)
  | timerRandomDaily
  | channelCreation
  | channelDestruction
  /-- A task of `Boss::concurrent` begins. -/
  | launch
  /-- The yield at the beginning of what the semaphore runs is over. -/
  | enter
  /-- The yield of `core_get_capacity` is over. -/
  | check
  /-- The log at the beginning of `load_capacities` is written. -/
  | logged
  /-- The answer of `listchannels`, or `none` if it failed or has no `channels`. -/
  | fetched (channels : Option (List (Option (N × Amount))))
  /-- A round of `load_capacities_loop`. -/
  | fill
  /-- The yield of `sem.run` after a success is over. -/
  | resume (i : ℕ)

def step (s : State N K) : Event N → Option (State N K × List (Output N K))
  | .init => some ({ s with ready := true }, [])
  | .request peer =>
      match s.multipliers.find peer with
      | some c => some (s, [.multiplier peer c.mult])
      | none   =>
          some ({ s with
            nextId := s.nextId + 1
            tasks := s.tasks.assign s.nextId ⟨peer, .competitors⟩ }, [])
  | .competitors id destinations =>
      match s.ready, s.tasks.find id, destinations with
      | true, some ⟨peer, .competitors⟩, some destinations =>
          let nodes := competitors self destinations
          some ({ s with
            tasks := s.tasks.assign id ⟨peer, .mapping ((List.range nodes.length).zip nodes)
              nodes.length (List.replicate nodes.length none) false⟩ }, [])
      | true, some ⟨_, .competitors⟩, none => some ({ s with tasks := s.tasks.erase id }, [])
      | _, _, _ => none
  | .ask id k =>
      match s.tasks.find id with
      | some ⟨peer, .mapping todo pending results failed⟩ =>
          match todo[k]? with
          | none           => none
          | some (i, node) =>
              some ({ s.lock (.get id (some i) node) with
                tasks := s.tasks.assign id
                  ⟨peer, .mapping (todo.eraseIdx k) pending results failed⟩ }, [])
      | _ => none
  | .gather id =>
      match s.tasks.find id with
      | some ⟨peer, .mapping [] 0 results failed⟩ =>
          if failed then some ({ s with tasks := s.tasks.erase id }, [])
          else
            match results.mapM (fun r => r) with
            | none      => none
            | some caps =>
                some ({ s.lock (.get id none self) with
                  tasks := s.tasks.assign id ⟨peer, .own caps⟩ }, [])
      | _ => none
  | .store id =>
      match s.tasks.find id with
      | some ⟨peer, .announcing used mult⟩ =>
          some ({ s with
            tasks := s.tasks.erase id
            multipliers := s.multipliers.assign peer ⟨mult, used⟩ }, [.multiplier peer mult])
      | _ => none
  | .timerRandomDaily   => some (s.reset, [])
  | .channelCreation    => some (s.reset, [])
  | .channelDestruction => some (s.reset, [])
  | .launch =>
      if s.pendingResets = 0 then none
      else some ({ s.lock .reset with pendingResets := s.pendingResets - 1 }, [])
  | .enter =>
      match s.sem.starting with
      | []          => none
      | .reset :: _ =>
          (Semaphore.step s.sem (.enter 0 (some (.ok none : Except Unit _)))).map fun x =>
            ({ s with sem := x.1, table := none }, [])
      | .get .. :: _ =>
          (Semaphore.step s.sem (.enter 0 (none : Option (Except Unit _)))).map fun x =>
            ({ s with sem := x.1, phase := .checking }, [])
  | .check =>
      match s.sem.running, s.phase with
      | .get _ _ node :: _, .checking =>
          match s.table with
          | none   => some ({ s with phase := .logging }, [])
          | some t =>
              (s.finish (.ok (some (t.answer node)))).map fun s' =>
                (s', [.answered node (t.answer node)])
      | _, _ => none
  | .logged =>
      match s.sem.running, s.phase with
      | .get .. :: _, .logging =>
          some ({ s with phase := .fetching, table := some { loadedAt := s.resets } }, [])
      | _, _ => none
  | .fetched channels =>
      match s.sem.running, s.phase with
      | .get id place _ :: _, .fetching =>
          match channels with
          | none          => s.loadFails A id place
          | some channels => some ({ s with phase := .filling channels }, [])
      | _, _ => none
  | .fill =>
      match s.sem.running, s.phase with
      | .get id place _ :: _, .filling rest =>
          match rest with
          | []           =>
              some ({ s with
                phase := .checking
                table := s.table.map (fun t => { t with complete := true }) }, [])
          | none :: _    => s.loadFails A id place
          | some (source, amount) :: rest =>
              some ({ s with
                phase := .filling rest
                table := s.table.map (·.add source amount) }, [])
      | _, _ => none
  | .resume i =>
      match s.sem.passing[i]? with
      | none => none
      | some (job, r) =>
          (Semaphore.step s.sem (.resume i : Semaphore.Event _ _ Unit)).map fun x =>
            let s' := { s with sem := x.1 }
            match job with
            | .reset         => (s', [])
            | .get id place _ => (s'.deliver A id place r, [])

end Code

variable {A : Arith K} {self : N} {s s' : State N K} {e : Event N} {out tr : List (Output N K)}

/-! ## The semaphore

    One holder at a time, and what it is doing. -/

/-- The holder reads a table in. -/
def Phase.loading : Phase N → Bool
  | .fetching  => true
  | .filling _ => true
  | _          => false

structure State.Base (s : State N K) : Prop where
  locked  : ∃ log, Semaphore.Counted (X := Unit) 1 [] log s.sem
  idle    : s.sem.running = [] → s.phase = .checking
  loading : s.phase.loading = true → s.table.isSome = true

theorem base_init : ({} : State N K).Base := by
  refine ⟨⟨[], rfl, fun hne => absurd rfl hne, rfl, List.Perm.refl _, List.Perm.refl _,
    List.Perm.refl _, nofun⟩, fun _ => rfl, nofun⟩

/-- It is about the table and its semaphore alone. -/
theorem State.Base.congr (h : s.Base) (hsem : s'.sem = s.sem) (hphase : s'.phase = s.phase)
    (htable : s'.table = s.table) : s'.Base :=
  ⟨hsem ▸ h.locked, fun hidle => hphase ▸ h.idle (hsem ▸ hidle),
    fun hload => htable ▸ h.loading (hphase ▸ hload)⟩

theorem State.Base.lock (h : s.Base) (job : Job N) : (s.lock job).Base := by
  obtain ⟨log, hlog⟩ := h.locked
  refine ⟨⟨_, Semaphore.counted_step (e := .call job) hlog rfl⟩, fun hidle => ?_, h.loading⟩
  exact h.idle ((Semaphore.running_call s.sem job).symm.trans hidle)

theorem line_lock (h : s.Base) (job : Job N) :
    (s.lock job).sem.line = s.sem.line ++ [job] := by
  obtain ⟨log, hlog⟩ := h.locked
  exact Semaphore.line_call hlog job

theorem passing_lock (s : State N K) (job : Job N) : (s.lock job).sem.passing = s.sem.passing :=
  Semaphore.passing_call s.sem job

/-- **SPEC (finish)**: the holder leaves the line, its answer is passed on. -/
structure Finished (s s' : State N K) (r : Except Unit (Option Answer)) : Prop where
  eq      : s' = { s with sem := s'.sem, phase := .checking }
  base    : s'.Base
  holder  : ∃ job, s.sem.running = [job] ∧ s.sem.line = job :: s'.sem.line
    ∧ s'.sem.passing = s.sem.passing ++ (r.toOption.map (fun rv => (job, rv))).toList

theorem finished_finish {r : Except Unit (Option Answer)} (h : s.Base)
    (hs : s.finish r = some s') : Finished s s' r := by
  obtain ⟨log, hlog⟩ := h.locked
  unfold State.finish at hs
  obtain ⟨⟨sem, o⟩, hsem, rfl⟩ := Option.map_eq_some_iff.mp hs
  obtain ⟨job, hrunning, -, hline, -, hpassing⟩ := Semaphore.finish_holder hlog hsem
  exact ⟨rfl, ⟨⟨_, Semaphore.counted_step hlog hsem⟩, fun _ => rfl, nofun⟩, job, hrunning, hline,
    hpassing⟩

@[simp] theorem sem_deliver (s : State N K) (id : ℕ) (place : Option ℕ) (r : Option Answer) :
    (s.deliver A id place r).sem = s.sem := by
  unfold State.deliver
  split
  · rfl
  · split <;> rfl

@[simp] theorem phase_deliver (s : State N K) (id : ℕ) (place : Option ℕ) (r : Option Answer) :
    (s.deliver A id place r).phase = s.phase := by
  unfold State.deliver
  split
  · rfl
  · split <;> rfl

@[simp] theorem table_deliver (s : State N K) (id : ℕ) (place : Option ℕ) (r : Option Answer) :
    (s.deliver A id place r).table = s.table := by
  unfold State.deliver
  split
  · rfl
  · split <;> rfl

@[simp] theorem multipliers_deliver (s : State N K) (id : ℕ) (place : Option ℕ)
    (r : Option Answer) : (s.deliver A id place r).multipliers = s.multipliers := by
  unfold State.deliver
  split
  · rfl
  · split <;> rfl

@[simp] theorem resets_deliver (s : State N K) (id : ℕ) (place : Option ℕ) (r : Option Answer) :
    (s.deliver A id place r).resets = s.resets := by
  unfold State.deliver
  split
  · rfl
  · split <;> rfl

/-- A load that fails: its table stays. -/
theorem loadFails_cases {id : ℕ} {place : Option ℕ} (hs : s.loadFails A id place = some (s', out)) :
    ∃ s₁, s.finish (.error ()) = some s₁ ∧ s' = s₁.deliver A id place none
      ∧ out = [.loadFailed s₁.table.isSome] := by
  unfold State.loadFails at hs
  obtain ⟨s₁, hs₁, heq⟩ := Option.map_eq_some_iff.mp hs
  obtain ⟨rfl, rfl⟩ := Prod.ext_iff.mp heq
  exact ⟨s₁, hs₁, rfl, rfl⟩

theorem State.Base.loadFails {id : ℕ} {place : Option ℕ} (h : s.Base)
    (hs : s.loadFails A id place = some (s', out)) : s'.Base := by
  obtain ⟨s₁, hfinish, rfl, -⟩ := loadFails_cases hs
  exact (finished_finish h hfinish).base.congr (sem_deliver _ _ _ _) (phase_deliver _ _ _ _)
    (table_deliver _ _ _ _)

/-! ## Steps that do not touch the table -/

/-- What shows that a table was used, or left, that is not complete. -/
def Output.Partial : Output N K → Prop
  | .answered _ a    => a.complete = false
  | .loadFailed left => left = true
  | .multiplier ..   => False

/-- What happens beside the table and its semaphore. -/
def Event.aside : Event N → Bool
  | .init | .request _ | .competitors .. | .store _ => true
  | .timerRandomDaily | .channelCreation | .channelDestruction => true
  | _ => false

/-- What may bring somebody into the line. -/
def Event.queues : Event N → Bool
  | .ask .. | .gather _ | .launch => true
  | _ => false

/-- They leave the table and the semaphore alone, and use no table. -/
theorem step_aside (he : e.aside = true) (hs : step A self s e = some (s', out)) :
    s'.sem = s.sem ∧ s'.phase = s.phase ∧ s'.table = s.table ∧ ∀ o ∈ out, ¬ o.Partial := by
  cases e with
  | init | timerRandomDaily | channelCreation | channelDestruction =>
      cases hs
      exact ⟨rfl, rfl, rfl, nofun⟩
  | request peer =>
      simp only [step] at hs
      split at hs <;> cases hs
      · refine ⟨rfl, rfl, rfl, fun o ho => ?_⟩
        rw [List.mem_singleton.mp ho]
        exact id
      · exact ⟨rfl, rfl, rfl, nofun⟩
  | competitors id destinations =>
      simp only [step] at hs
      split at hs <;> cases hs
      · exact ⟨rfl, rfl, rfl, nofun⟩
      · exact ⟨rfl, rfl, rfl, nofun⟩
  | store id =>
      simp only [step] at hs
      split at hs <;> cases hs
      refine ⟨rfl, rfl, rfl, fun o ho => ?_⟩
      rw [List.mem_singleton.mp ho]
      exact fun hp => hp
  | ask | gather | launch | enter | check | logged | fetched | fill | resume => cases he

/-- They change the line at most. -/
theorem step_queues (he : e.queues = true) (hs : step A self s e = some (s', out)) :
    (s'.sem = s.sem ∨ ∃ job, s'.sem = (s.lock job).sem) ∧ s'.phase = s.phase
      ∧ s'.table = s.table ∧ out = [] := by
  cases e with
  | ask id k =>
      simp only [step] at hs
      split at hs
      · split at hs <;> cases hs
        exact ⟨.inr ⟨_, rfl⟩, rfl, rfl, rfl⟩
      · cases hs
  | gather id =>
      simp only [step] at hs
      split at hs
      · split at hs
        · cases hs
          exact ⟨.inl rfl, rfl, rfl, rfl⟩
        · split at hs <;> cases hs
          exact ⟨.inr ⟨_, rfl⟩, rfl, rfl, rfl⟩
      · cases hs
  | launch =>
      simp only [step] at hs
      split at hs <;> cases hs
      exact ⟨.inr ⟨.reset, rfl⟩, rfl, rfl, rfl⟩
  | init | timerRandomDaily | channelCreation | channelDestruction | request | competitors | store
  | enter | check | logged | fetched | fill | resume => cases he

/-- **STEP**: the holder is alone, and loads only where there is a table. -/
theorem base_step (h : s.Base) (hs : step A self s e = some (s', out)) : s'.Base := by
  obtain ⟨log, hlog⟩ := h.locked
  have haside : e.aside = true → s'.Base := by
    intro he
    obtain ⟨hsem, hphase, htable, -⟩ := step_aside he hs
    exact h.congr hsem hphase htable
  have hqueues : e.queues = true → s'.Base := by
    intro he
    obtain ⟨hsem | ⟨job, hsem⟩, hphase, htable, -⟩ := step_queues he hs
    · exact h.congr hsem hphase htable
    · exact (h.lock job).congr hsem hphase htable
  cases e with
  | init | request | competitors | store => exact haside rfl
  | timerRandomDaily | channelCreation | channelDestruction => exact haside rfl
  | ask | gather | launch => exact hqueues rfl
  | enter =>
      simp only [step] at hs
      split at hs
      · cases hs
      · obtain ⟨⟨sem, o⟩, hsem, heq⟩ := Option.map_eq_some_iff.mp hs
        obtain ⟨rfl, -⟩ := Prod.ext_iff.mp heq
        -- who starts is alone, so nobody is loading
        obtain ⟨job, hstarting, hrunning, -⟩ := Semaphore.enter_holder hlog hsem
        have hidle := h.idle hrunning
        refine ⟨⟨_, Semaphore.counted_step hlog hsem⟩, fun _ => hidle, fun hload => ?_⟩
        replace hload : s.phase.loading = true := hload
        rw [hidle] at hload
        cases hload
      · obtain ⟨⟨sem, o⟩, hsem, heq⟩ := Option.map_eq_some_iff.mp hs
        obtain ⟨rfl, -⟩ := Prod.ext_iff.mp heq
        exact ⟨⟨_, Semaphore.counted_step hlog hsem⟩, fun _ => rfl, nofun⟩
  | check =>
      simp only [step] at hs
      split at hs
      · rename_i hrunning _
        split at hs
        · cases hs
          exact ⟨h.locked, fun hidle => absurd hidle (by rw [hrunning]; simp), nofun⟩
        · obtain ⟨s₁, hfinish, heq⟩ := Option.map_eq_some_iff.mp hs
          obtain ⟨rfl, -⟩ := Prod.ext_iff.mp heq
          exact (finished_finish h hfinish).base
      · cases hs
  | logged =>
      simp only [step] at hs
      split at hs
      · rename_i hrunning _
        cases hs
        exact ⟨h.locked, fun hidle => absurd hidle (by rw [hrunning]; simp), fun _ => rfl⟩
      · cases hs
  | fetched channels =>
      simp only [step] at hs
      split at hs
      · rename_i hrunning hphase
        have htable := h.loading (by rw [hphase]; rfl)
        split at hs
        · exact h.loadFails hs
        · cases hs
          exact ⟨h.locked, fun hidle => absurd hidle (by rw [hrunning]; simp), fun _ => htable⟩
      · cases hs
  | fill =>
      simp only [step] at hs
      split at hs
      · rename_i hrunning hphase
        have htable := h.loading (by rw [hphase]; rfl)
        split at hs
        · cases hs
          exact ⟨h.locked, fun _ => rfl, nofun⟩
        · exact h.loadFails hs
        · cases hs
          exact ⟨h.locked, fun hidle => absurd hidle (by rw [hrunning]; simp),
            fun _ => by rw [Option.isSome_map]; exact htable⟩
      · cases hs
  | resume i =>
      simp only [step] at hs
      split at hs
      · cases hs
      · obtain ⟨⟨sem, o⟩, hsem, heq⟩ := Option.map_eq_some_iff.mp hs
        have hbase : State.Base { s with sem := sem } := by
          refine ⟨⟨_, Semaphore.counted_step hlog hsem⟩, fun hidle => h.idle ?_, h.loading⟩
          exact (Semaphore.resume_cases hsem).2.1.symm.trans hidle
        simp only at heq
        split at heq
        · obtain ⟨rfl, -⟩ := Prod.ext_iff.mp heq
          exact hbase
        · obtain ⟨rfl, -⟩ := Prod.ext_iff.mp heq
          exact hbase.congr (sem_deliver _ _ _ _) (phase_deliver _ _ _ _) (table_deliver _ _ _ _)

/-! ## Complete tables -/

/-- The next entry is malformed. -/
def Phase.malformed : Phase N → Bool
  | .filling (none :: _) => true
  | _                    => false

/-- The step is one in which a load fails. -/
def State.fails (s : State N K) : Event N → Bool
  | .fetched none => true
  | .fill         => s.phase.malformed
  | _             => false

/-- A table there is complete, unless it is being loaded. -/
def State.Complete (s : State N K) : Prop :=
  ∀ t, s.table = some t → s.phase.loading = true ∨ t.complete = true

theorem State.Complete.congr (hc : s.Complete) (hphase : s'.phase = s.phase)
    (htable : s'.table = s.table) : s'.Complete := by
  intro t ht
  rw [hphase]
  exact hc t (htable ▸ ht)

/-- **STEP**: where no load fails, only complete tables are used. -/
theorem complete_step (h : s.Base) (hc : s.Complete) (hok : s.fails e = false)
    (hs : step A self s e = some (s', out)) : s'.Complete ∧ ∀ o ∈ out, ¬ o.Partial := by
  have haside : e.aside = true → s'.Complete ∧ ∀ o ∈ out, ¬ o.Partial := by
    intro he
    obtain ⟨-, hphase, htable, hout⟩ := step_aside he hs
    exact ⟨hc.congr hphase htable, hout⟩
  have hqueues : e.queues = true → s'.Complete ∧ ∀ o ∈ out, ¬ o.Partial := by
    intro he
    obtain ⟨-, hphase, htable, rfl⟩ := step_queues he hs
    exact ⟨hc.congr hphase htable, nofun⟩
  cases e with
  | init | request | competitors | store => exact haside rfl
  | timerRandomDaily | channelCreation | channelDestruction => exact haside rfl
  | ask | gather | launch => exact hqueues rfl
  | enter =>
      obtain ⟨log, hlog⟩ := h.locked
      simp only [step] at hs
      split at hs
      · cases hs
      · obtain ⟨x, -, heq⟩ := Option.map_eq_some_iff.mp hs
        obtain ⟨rfl, rfl⟩ := Prod.ext_iff.mp heq
        exact ⟨nofun, nofun⟩
      · obtain ⟨⟨sem, o⟩, hsem, heq⟩ := Option.map_eq_some_iff.mp hs
        obtain ⟨rfl, rfl⟩ := Prod.ext_iff.mp heq
        obtain ⟨job, -, hrunning, -⟩ := Semaphore.enter_holder hlog hsem
        exact ⟨hc.congr (h.idle hrunning).symm rfl, nofun⟩
  | check =>
      simp only [step] at hs
      split at hs
      · rename_i hphase
        split at hs
        · rename_i htable
          cases hs
          refine ⟨fun t ht => ?_, nofun⟩
          rw [show s.table = some t from ht] at htable
          cases htable
        · rename_i node t htable
          obtain ⟨s₁, hfinish, heq⟩ := Option.map_eq_some_iff.mp hs
          obtain ⟨rfl, rfl⟩ := Prod.ext_iff.mp heq
          have heq' := (finished_finish h hfinish).eq
          have hcomplete : t.complete = true := by
            rcases hc t htable with hload | hcomplete
            · rw [hphase] at hload
              cases hload
            · exact hcomplete
          refine ⟨?_, fun o ho => ?_⟩
          · rw [heq']
            exact hc.congr hphase.symm rfl
          · rw [List.mem_singleton.mp ho]
            show ¬ t.complete = false
            rw [hcomplete]
            simp
      · cases hs
  | logged =>
      simp only [step] at hs
      split at hs <;> cases hs
      exact ⟨fun t _ => .inl rfl, nofun⟩
  | fetched channels =>
      simp only [step] at hs
      split at hs
      · split at hs
        · cases hok
        · cases hs
          exact ⟨fun t _ => .inl rfl, nofun⟩
      · cases hs
  | fill =>
      simp only [step] at hs
      split at hs
      · rename_i hphase
        split at hs
        · cases hs
          refine ⟨fun t ht => .inr ?_, nofun⟩
          obtain ⟨t₀, -, rfl⟩ := Option.map_eq_some_iff.mp ht
          rfl
        · rw [State.fails, hphase] at hok
          cases hok
        · cases hs
          exact ⟨fun t _ => .inl rfl, nofun⟩
      · cases hs
  | resume i =>
      simp only [step] at hs
      split at hs
      · cases hs
      · obtain ⟨x, -, heq⟩ := Option.map_eq_some_iff.mp hs
        split at heq
        · obtain ⟨rfl, rfl⟩ := Prod.ext_iff.mp heq
          exact ⟨hc.congr rfl rfl, nofun⟩
        · obtain ⟨rfl, rfl⟩ := Prod.ext_iff.mp heq
          exact ⟨hc.congr (phase_deliver _ _ _ _) (table_deliver _ _ _ _), nofun⟩

/-- A load that fails leaves its table. -/
theorem partial_of_fails (h : s.Base) (hfails : s.fails e = true)
    (hs : step A self s e = some (s', out)) : ∃ o ∈ out, o.Partial := by
  have hleft : ∀ id place, s.phase.loading = true → s.loadFails A id place = some (s', out) →
      ∃ o ∈ out, o.Partial := by
    intro id place hload hs
    obtain ⟨s₁, hfinish, -, rfl⟩ := loadFails_cases hs
    refine ⟨_, List.mem_singleton_self _, ?_⟩
    show s₁.table.isSome = true
    rw [(finished_finish h hfinish).eq]
    exact h.loading hload
  cases e with
  | fetched channels =>
      cases channels with
      | some l => cases hfails
      | none =>
          simp only [step] at hs
          split at hs
          · rename_i hphase
            exact hleft _ _ (by rw [hphase]; rfl) hs
          · cases hs
  | fill =>
      simp only [step] at hs
      split at hs
      · rename_i hphase
        rw [State.fails, hphase] at hfails
        split at hs
        · cases hfails
        · exact hleft _ _ (by rw [hphase]; rfl) hs
        · cases hfails
      · cases hs
  | init | request | competitors | ask | gather | store | timerRandomDaily | channelCreation
  | channelDestruction | launch | enter | check | logged | resume => cases hfails

/-! ## Fresh answers -/

/-- The answers a computation holds. -/
def Stage.held : Stage N K → List Answer
  | .competitors           => []
  | .mapping _ _ results _ => results.filterMap (fun r => r)
  | .own caps              => caps
  | .announcing used _     => used

/-- Requests that will be answered before the table is dropped. -/
def State.ahead (s : State N K) : List (Job N) := s.sem.line.takeWhile Job.isGet

/-- **INVARIANT**: all that is held, passed on or cached was loaded since the latest reset,
    and so was the table, if somebody is to be answered from it. -/
structure State.Fresh (s : State N K) : Prop where
  cached  : ∀ peer c, s.multipliers.find peer = some c → ∀ a ∈ c.used, a.loadedAt = s.resets
  held    : ∀ id t, s.tasks.find id = some t → ∀ a ∈ t.stage.held, a.loadedAt = s.resets
  passing : ∀ job a, (job, some a) ∈ s.sem.passing → a.loadedAt = s.resets
  exposed : ∀ t, s.table = some t → t.loadedAt = s.resets ∨ s.ahead = []

/-- No capacity is in use: none is held by a computation or on its way to one, and none
    will be answered from a table that is there. -/
def State.Unused (s : State N K) : Prop :=
  (∀ x ∈ s.tasks.entries, x.2.stage.held = []) ∧ (∀ x ∈ s.sem.passing, x.2 = none)
    ∧ (s.table.isNone = true ∨ s.ahead = [])

/-- No old table is there, or it is dropped before anybody who comes now is answered. -/
def State.Renewed (s : State N K) : Prop :=
  (∀ t ∈ s.table.toList, t.loadedAt = s.resets) ∨ Job.reset ∈ s.sem.line

/-- A reset comes while no capacity is in use, and a request for one not between a reset
    and its task. -/
def Undisturbed (s : State N K) : Event N → Prop
  | .timerRandomDaily   => s.Unused
  | .channelCreation    => s.Unused
  | .channelDestruction => s.Unused
  | .ask ..             => s.Renewed
  | .gather _           => s.Renewed
  | _                   => True

instance (s : State N K) : Decidable s.Unused := inferInstanceAs (Decidable (_ ∧ _ ∧ _))

instance (s : State N K) : Decidable s.Renewed := inferInstanceAs (Decidable (_ ∨ _))

instance Undisturbed.decidable (s : State N K) : ∀ e, Decidable (Undisturbed s e)
  | .timerRandomDaily | .channelCreation | .channelDestruction =>
      inferInstanceAs (Decidable s.Unused)
  | .ask .. | .gather _ => inferInstanceAs (Decidable s.Renewed)
  | .init | .request _ | .competitors .. | .store _ | .launch | .enter | .check | .logged
  | .fetched _ | .fill | .resume _ => inferInstanceAs (Decidable True)

theorem mem_results_set {results : List (Option Answer)} {i : ℕ} {a b : Answer}
    (h : b ∈ (results.set i (some a)).filterMap (fun r => r)) :
    b ∈ results.filterMap (fun r => r) ∨ b = a := by
  obtain ⟨r, hr, rfl⟩ := List.mem_filterMap.mp h
  rcases List.mem_or_eq_of_mem_set hr with hr | hr
  · exact .inl (List.mem_filterMap.mpr ⟨_, hr, rfl⟩)
  · exact .inr (Option.some.inj hr)

omit [LinearOrder N] in
/-- What a computation holds after it received something. -/
theorem held_receive {t t' : Task N K} {place : Option ℕ} {r : Option Answer}
    (ht : t.receive A place r = some t') {a : Answer} (ha : a ∈ t'.stage.held) :
    a ∈ t.stage.held ∨ r = some a := by
  unfold Task.receive at ht
  split at ht
  · rename_i hstage
    cases ht
    rw [hstage]
    rcases mem_results_set ha with ha | rfl
    · exact .inl ha
    · exact .inr rfl
  · rename_i hstage
    cases ht
    rw [hstage]
    exact .inl ha
  · rename_i hstage
    obtain ⟨mult, -, rfl⟩ := Option.map_eq_some_iff.mp ht
    rw [hstage]
    rcases List.mem_append.mp ha with ha | ha
    · exact .inl ha
    · exact .inr (congrArg some (List.mem_singleton.mp ha).symm)
  · cases ht
  · cases ht
    exact .inl ha

theorem State.Fresh.deliver {id : ℕ} {place : Option ℕ} {r : Option Answer} (h : s.Fresh)
    (hr : ∀ a, r = some a → a.loadedAt = s.resets) : (s.deliver A id place r).Fresh := by
  refine ⟨by simpa using h.cached, ?_, by simpa using h.passing, ?_⟩
  · rw [resets_deliver]
    intro id' t' hfind a ha
    unfold State.deliver at hfind
    split at hfind
    · exact h.held id' t' hfind a ha
    · rename_i t ht
      split at hfind
      · rename_i t₁ hreceive
        simp only [OrderedMap.find_assign] at hfind
        split at hfind
        · cases hfind
          rcases held_receive hreceive ha with ha | ha
          · exact h.held id t ht a ha
          · exact hr a ha
        · exact h.held id' t' hfind a ha
      · simp only [OrderedMap.find_erase] at hfind
        split at hfind
        · cases hfind
        · exact h.held id' t' hfind a ha
  · unfold State.ahead
    rw [table_deliver, sem_deliver, resets_deliver]
    exact h.exposed

omit [LinearOrder N] in
/-- Nobody new is ahead of the reset that is in line. -/
theorem ahead_append {l : List (Job N)} {job : Job N} (h : Job.reset ∈ l ∨ job = .reset) :
    (l ++ [job]).takeWhile Job.isGet = l.takeWhile Job.isGet := by
  rcases h with h | rfl
  · rw [List.takeWhile_append, if_neg]
    intro heq
    rw [← (List.takeWhile_prefix Job.isGet).eq_of_length heq] at h
    exact Bool.false_ne_true (List.mem_takeWhile_imp h)
  · rw [List.takeWhile_append]
    split
    · rename_i heq
      rw [(List.takeWhile_prefix Job.isGet).eq_of_length heq]
      exact List.append_nil l
    · rfl

/-- A request that joins the line. -/
theorem State.Fresh.ask {job : Job N} (h : s.Fresh) (hbase : s.Base) (hrenewed : s.Renewed) :
    (s.lock job).Fresh := by
  refine ⟨h.cached, h.held, ?_, fun t ht => ?_⟩
  · rw [passing_lock]
    exact h.passing
  · rcases hrenewed with hfresh | hreset
    · exact .inl (hfresh t (Option.mem_toList.mpr ht))
    · rcases h.exposed t ht with hfresh | hahead
      · exact .inl hfresh
      · refine .inr ?_
        unfold State.ahead
        rw [line_lock hbase, ahead_append (.inl hreset)]
        exact hahead

/-- A computation goes on with what it holds already. -/
theorem State.Fresh.goOn {id : ℕ} {t t' : Task N K} (h : s.Fresh) (ht : s.tasks.find id = some t)
    (hheld : ∀ a ∈ t'.stage.held, a ∈ t.stage.held) :
    State.Fresh { s with tasks := s.tasks.assign id t' } := by
  refine ⟨h.cached, fun id' t₁ hfind a ha => ?_, h.passing, h.exposed⟩
  simp only [OrderedMap.find_assign] at hfind
  split at hfind
  · cases hfind
    exact h.held id t ht a (hheld a ha)
  · exact h.held id' t₁ hfind a ha

theorem State.Fresh.erase (h : s.Fresh) (id : ℕ) :
    State.Fresh { s with tasks := s.tasks.erase id } := by
  refine ⟨h.cached, fun id' t₁ hfind a ha => ?_, h.passing, h.exposed⟩
  simp only [OrderedMap.find_erase] at hfind
  split at hfind
  · cases hfind
  · exact h.held id' t₁ hfind a ha

theorem State.Fresh.reset (h : s.Unused) : s.reset.Fresh := by
  obtain ⟨hheld, hpassing, htable⟩ := h
  refine ⟨nofun, fun id t hfind a ha => ?_, fun job a hmem => ?_, fun t ht => ?_⟩
  · rw [hheld _ ((OrderedMap.find_eq_some_iff _).mp hfind)] at ha
    cases ha
  · cases hpassing _ hmem
  · rcases htable with hnone | hahead
    · rw [show s.table = some t from ht] at hnone
      cases hnone
    · exact .inr hahead

/-- The holder finishes, with a fresh answer if any. -/
theorem State.Fresh.finish {r : Except Unit (Option Answer)} (h : s.Fresh) (hbase : s.Base)
    (hr : ∀ a, r = .ok (some a) → a.loadedAt = s.resets)
    (hfresh : ∀ t, s.table = some t → t.loadedAt = s.resets)
    (hs : s.finish r = some s') : s'.Fresh := by
  obtain ⟨heq, -, job, -, -, hpassing⟩ := finished_finish hbase hs
  rw [heq]
  refine ⟨h.cached, h.held, fun job' a hmem => ?_, fun t ht => .inl (hfresh t ht)⟩
  rw [show ({ s with sem := s'.sem, phase := .checking } : State N K).sem.passing
    = s'.sem.passing from rfl, hpassing] at hmem
  rcases List.mem_append.mp hmem with hmem | hmem
  · exact h.passing job' a hmem
  · cases r with
    | error x => cases hmem
    | ok rv =>
        obtain ⟨-, rfl⟩ := Prod.ext_iff.mp (List.mem_singleton.mp hmem)
        exact hr a rfl

/-- The table that a running request reads is fresh. -/
theorem State.Fresh.table_of_running (h : s.Fresh) (hbase : s.Base) {job : Job N}
    {l : List (Job N)} (hrunning : s.sem.running = job :: l) (hget : job.isGet = true) :
    ∀ t, s.table = some t → t.loadedAt = s.resets := by
  intro t ht
  rcases h.exposed t ht with hfresh | hahead
  · exact hfresh
  · exfalso
    obtain ⟨log, hlog⟩ := hbase.locked
    have hslots := hlog.slots
    unfold Semaphore.State.inUse at hslots
    rw [hrunning, List.length_cons] at hslots
    have hstarting : s.sem.starting = [] := List.eq_nil_of_length_eq_zero (by omega)
    unfold State.ahead Semaphore.State.line at hahead
    rw [hstarting, hrunning, List.nil_append, List.cons_append, List.takeWhile_cons,
      if_pos hget] at hahead
    cases hahead

/-- All results are there. -/
theorem mem_of_mapM {results : List (Option Answer)} :
    ∀ {caps : List Answer}, results.mapM (fun r => r) = some caps →
      ∀ a ∈ caps, a ∈ results.filterMap (fun r => r) := by
  induction results with
  | nil =>
      intro caps h a ha
      cases h
      cases ha
  | cons r results ih =>
      intro caps h a ha
      rw [List.mapM_cons] at h
      cases r with
      | none => cases h
      | some b =>
          cases hrest : results.mapM (fun r => r) with
          | none => simp [hrest] at h
          | some rest =>
              simp only [hrest] at h
              cases h
              rcases List.mem_cons.mp ha with rfl | ha
              · exact List.mem_cons_self
              · exact List.mem_cons_of_mem _ (ih hrest a ha)

section Events

variable (hbase : s.Base) (h : s.Fresh)

include h in
theorem fresh_request {peer : N} (hs : step A self s (.request peer) = some (s', out)) :
    s'.Fresh := by
  simp only [step] at hs
  split at hs <;> cases hs
  · exact h
  · refine ⟨h.cached, fun id t hfind a ha => ?_, h.passing, h.exposed⟩
    simp only [OrderedMap.find_assign] at hfind
    split at hfind
    · cases hfind
      cases ha
    · exact h.held id t hfind a ha

include h in
theorem fresh_competitors {id : ℕ} {destinations : Option (List N)}
    (hs : step A self s (.competitors id destinations) = some (s', out)) : s'.Fresh := by
  simp only [step] at hs
  split at hs <;> cases hs
  · rename_i hfind
    refine h.goOn hfind (fun a ha => ?_)
    -- no result is there yet
    obtain ⟨r, hr, rfl⟩ := List.mem_filterMap.mp ha
    cases List.eq_of_mem_replicate hr
  · exact h.erase id

include h in
theorem fresh_store {id : ℕ} (hs : step A self s (.store id) = some (s', out)) : s'.Fresh := by
  simp only [step] at hs
  split at hs <;> cases hs
  rename_i peer used mult hfind
  have herase := h.erase id
  refine ⟨fun peer' c hc a ha => ?_, herase.held, h.passing, h.exposed⟩
  simp only [OrderedMap.find_assign] at hc
  split at hc
  · cases hc
    exact h.held id _ hfind a ha
  · exact h.cached peer' c hc a ha

include h in
/-- The table that is made when the log is written is as new as can be. -/
theorem fresh_logged (hs : step A self s .logged = some (s', out)) : s'.Fresh := by
  simp only [step] at hs
  split at hs <;> cases hs
  refine ⟨h.cached, h.held, h.passing, fun t ht => .inl ?_⟩
  cases ht
  rfl

include h in
theorem fresh_resume {i : ℕ} (hs : step A self s (.resume i) = some (s', out)) : s'.Fresh := by
  simp only [step] at hs
  split at hs
  · cases hs
  · rename_i job r hi
    obtain ⟨⟨sem, o⟩, hsem, heq⟩ := Option.map_eq_some_iff.mp hs
    obtain ⟨hline, -, -, x, -, hpassing⟩ := Semaphore.resume_cases hsem
    have hresumed : State.Fresh { s with sem := sem } := by
      refine ⟨h.cached, h.held, fun job' a hmem => ?_,
        fun t ht => (h.exposed t ht).imp_right fun hahead => ?_⟩
      · exact h.passing job' a (List.mem_of_mem_eraseIdx (hpassing ▸ hmem))
      · exact (congrArg (List.takeWhile Job.isGet) hline).trans hahead
    simp only at heq
    split at heq
    · obtain ⟨rfl, -⟩ := Prod.ext_iff.mp heq
      exact hresumed
    · obtain ⟨rfl, -⟩ := Prod.ext_iff.mp heq
      refine hresumed.deliver (fun a ha => ?_)
      cases ha
      exact h.passing _ a (List.mem_of_getElem? hi)

include hbase h

theorem fresh_ask {id k : ℕ} (hok : s.Renewed) (hs : step A self s (.ask id k) = some (s', out)) :
    s'.Fresh := by
  simp only [step] at hs
  split at hs
  · rename_i hfind
    split at hs <;> cases hs
    exact (h.ask hbase hok).goOn hfind (fun a ha => ha)
  · cases hs

theorem fresh_gather {id : ℕ} (hok : s.Renewed) (hs : step A self s (.gather id) = some (s', out)) :
    s'.Fresh := by
  simp only [step] at hs
  split at hs
  · rename_i hfind
    split at hs
    · cases hs
      exact h.erase id
    · split at hs <;> cases hs
      rename_i caps hcaps
      exact (h.ask hbase hok).goOn hfind (mem_of_mapM hcaps)
  · cases hs

theorem fresh_launch (hs : step A self s .launch = some (s', out)) : s'.Fresh := by
  simp only [step] at hs
  split at hs <;> cases hs
  refine ⟨h.cached, h.held, ?_, fun t ht => (h.exposed t ht).imp_right fun hahead => ?_⟩
  · exact (passing_lock s .reset).symm ▸ h.passing
  · show (s.lock .reset).sem.line.takeWhile Job.isGet = []
    rw [line_lock hbase, ahead_append (.inr rfl)]
    exact hahead

theorem fresh_enter (hs : step A self s .enter = some (s', out)) : s'.Fresh := by
  obtain ⟨log, hlog⟩ := hbase.locked
  simp only [step] at hs
  split at hs
  · cases hs
  · obtain ⟨⟨sem, o⟩, hsem, heq⟩ := Option.map_eq_some_iff.mp hs
    obtain ⟨rfl, -⟩ := Prod.ext_iff.mp heq
    obtain ⟨job, hstarting, -, -⟩ := Semaphore.enter_holder hlog hsem
    obtain ⟨-, -, hpassing⟩ := Semaphore.enter_finish hlog hstarting hsem
    refine ⟨h.cached, h.held, fun job' a hmem => ?_, nofun⟩
    rcases List.mem_append.mp (hpassing ▸ hmem) with hmem | hmem
    · exact h.passing job' a hmem
    · cases List.mem_singleton.mp hmem
  · obtain ⟨⟨sem, o⟩, hsem, heq⟩ := Option.map_eq_some_iff.mp hs
    obtain ⟨rfl, -⟩ := Prod.ext_iff.mp heq
    obtain ⟨job, hstarting, hrunning, -⟩ := Semaphore.enter_holder hlog hsem
    obtain ⟨hline, -, -, hpassing⟩ := Semaphore.enter_later hstarting hrunning hsem
    refine ⟨h.cached, h.held, fun job' a hmem => h.passing job' a (hpassing ▸ hmem),
      fun t ht => (h.exposed t ht).imp_right fun hahead => ?_⟩
    exact (congrArg (List.takeWhile Job.isGet) hline).trans hahead

theorem fresh_check (hs : step A self s .check = some (s', out)) : s'.Fresh := by
  simp only [step] at hs
  split at hs
  · rename_i hrunning _
    split at hs
    · cases hs
      exact ⟨h.cached, h.held, h.passing, h.exposed⟩
    · rename_i t htable
      obtain ⟨s₁, hfinish, heq⟩ := Option.map_eq_some_iff.mp hs
      obtain ⟨rfl, -⟩ := Prod.ext_iff.mp heq
      have hfresh := h.table_of_running hbase hrunning rfl
      refine h.finish hbase (fun a ha => ?_) hfresh hfinish
      cases ha
      exact hfresh t htable
  · cases hs

theorem fresh_fetched {channels : Option (List (Option (N × Amount)))}
    (hs : step A self s (.fetched channels) = some (s', out)) : s'.Fresh := by
  simp only [step] at hs
  split at hs
  · rename_i hrunning _
    split at hs
    · obtain ⟨s₁, hfinish, rfl, -⟩ := loadFails_cases hs
      exact (h.finish hbase (fun a ha => by cases ha) (h.table_of_running hbase hrunning rfl)
        hfinish).deliver (fun a ha => by cases ha)
    · cases hs
      exact ⟨h.cached, h.held, h.passing, h.exposed⟩
  · cases hs

/-- A row more leaves the table as old as it is. -/
theorem fresh_fill (hs : step A self s .fill = some (s', out)) : s'.Fresh := by
  simp only [step] at hs
  split at hs
  · rename_i hrunning _
    have hfresh := h.table_of_running hbase hrunning rfl
    split at hs
    · cases hs
      refine ⟨h.cached, h.held, h.passing, fun t ht => .inl ?_⟩
      obtain ⟨t₀, ht₀, rfl⟩ := Option.map_eq_some_iff.mp ht
      exact hfresh t₀ ht₀
    · obtain ⟨s₁, hfinish, rfl, -⟩ := loadFails_cases hs
      exact (h.finish hbase (fun a ha => by cases ha) hfresh hfinish).deliver
        (fun a ha => by cases ha)
    · cases hs
      refine ⟨h.cached, h.held, h.passing, fun t ht => .inl ?_⟩
      obtain ⟨t₀, ht₀, rfl⟩ := Option.map_eq_some_iff.mp ht
      exact hfresh t₀ ht₀
  · cases hs

end Events

/-- **STEP**: what is held and passed on was loaded since the last reset. -/
theorem fresh_step (hbase : s.Base) (h : s.Fresh) (hok : Undisturbed s e)
    (hs : step A self s e = some (s', out)) : s'.Fresh := by
  cases e with
  | init =>
      cases hs
      exact ⟨h.cached, h.held, h.passing, h.exposed⟩
  | timerRandomDaily =>
      cases hs
      exact State.Fresh.reset hok
  | channelCreation =>
      cases hs
      exact State.Fresh.reset hok
  | channelDestruction =>
      cases hs
      exact State.Fresh.reset hok
  | request peer                => exact fresh_request h hs
  | competitors id destinations => exact fresh_competitors h hs
  | ask id k                    => exact fresh_ask hbase h hok hs
  | gather id                   => exact fresh_gather hbase h hok hs
  | store id                    => exact fresh_store h hs
  | launch                      => exact fresh_launch hbase h hs
  | enter                       => exact fresh_enter hbase h hs
  | check                       => exact fresh_check hbase h hs
  | logged                      => exact fresh_logged h hs
  | fetched channels            => exact fresh_fetched hbase h hs
  | fill                        => exact fresh_fill hbase h hs
  | resume i                    => exact fresh_resume h hs

/-! ## Runs -/

theorem complete_run {es : List (Event N)} (h : run (step A self) {} es = some (s, tr))
    (hok : Along (step A self) (fun s e => s.fails e = false) {} es) : ∀ o ∈ tr, ¬ o.Partial := by
  refine (run_invariant (I := fun _ tr s => (s.Base ∧ s.Complete) ∧ ∀ o ∈ tr, ¬ o.Partial)
    ⟨⟨base_init, nofun⟩, nofun⟩ ?_ hok h).2
  intro es tr s e s' out hI hP hs
  obtain ⟨⟨hbase, hc⟩, htr⟩ := hI
  obtain ⟨hc', hout⟩ := complete_step hbase hc hP hs
  exact ⟨⟨base_step hbase hs, hc'⟩, List.forall_mem_append.mpr ⟨htr, hout⟩⟩

/-- **RUN**: only complete tables are used and left exactly if no load fails. -/
theorem complete_iff {es : List (Event N)} (h : run (step A self) {} es = some (s, tr)) :
    (∀ o ∈ tr, ¬ o.Partial) ↔ Along (step A self) (fun s e => s.fails e = false) {} es := by
  refine ⟨fun htr => ?_, complete_run h⟩
  refine along_of_outputs (I := State.Base) (fun _ _ _ _ hI hs => base_step hI hs) ?_ base_init h
    htr
  intro s e s' out hI hs hP
  exact partial_of_fails hI (Bool.eq_true_of_not_eq_false hP) hs

theorem fresh_run {es : List (Event N)} (h : run (step A self) {} es = some (s, tr))
    (hok : Along (step A self) Undisturbed {} es) : s.Fresh := by
  refine (run_invariant (I := fun _ _ s => s.Base ∧ s.Fresh)
    ⟨base_init, nofun, nofun, nofun, nofun⟩ ?_ hok h).2
  intro es tr s e s' out hI hP hs
  exact ⟨base_step hI.1 hs, fresh_step hI.1 hI.2 hP hs⟩

/-- **HEADLINE**: answers come from complete tables, and a failed load leaves none, exactly if
    no load fails; and no multiplier is cached that is older than the latest reset, if the
    resets disturb nobody. -/
theorem fresh_of_undisturbed {es : List (Event N)}
    (h : run (step A self) {} es = some (s, tr)) :
    ((∀ node a, .answered node a ∈ tr → a.complete = true)
        ∧ (∀ left, .loadFailed left ∈ tr → left = false)
      ↔ Along (step A self) (fun s e => s.fails e = false) {} es)
      ∧ (Along (step A self) Undisturbed {} es →
        ∀ peer c, s.multipliers.find peer = some c → ∀ a ∈ c.used, a.loadedAt = s.resets) := by
  refine ⟨?_, fun hok => (fresh_run h hok).cached⟩
  rw [← complete_iff h]
  constructor
  · rintro ⟨hanswered, hfailed⟩ o ho hpartial
    cases o with
    | answered node a =>
        have hcomplete := hanswered node a ho
        rw [show a.complete = false from hpartial] at hcomplete
        cases hcomplete
    | loadFailed left =>
        have hleft := hfailed left ho
        rw [show left = true from hpartial] at hleft
        cases hleft
    | multiplier peer mult => exact hpartial
  · intro htr
    refine ⟨fun node a ho => ?_, fun left ho => ?_⟩
    · exact Bool.eq_true_of_not_eq_false (htr _ ho)
    · exact Bool.eq_false_of_not_eq_true (htr _ ho)

/-- A peer without competitors, and a reset after its multiplier is cached. -/
theorem fresh_of_undisturbed_one :
    ∃ s tr, run (step (doubles (fun _ => .finite 4) (fun _ => .finite 0)) 0) {}
        [.init, .request 5, .competitors 0 (some [0]), .gather 0, .enter, .check, .logged,
          .fetched (some [some (0, ⟨1000⟩)]), .fill, .fill, .check, .resume 0, .store 0,
          .timerRandomDaily, .request 5] = some (s, tr)
      ∧ s.resets = 1
      ∧ (∀ node a, .answered node a ∈ tr → a.complete = true)
      ∧ ∀ peer c, s.multipliers.find peer = some c → ∀ a ∈ c.used, a.loadedAt = s.resets := by
  have hrun : (run (step (doubles (fun _ => .finite 4) (fun _ => .finite 0)) 0) {}
      [.init, .request 5, .competitors 0 (some [0]), .gather 0, .enter, .check, .logged,
        .fetched (some [some (0, ⟨1000⟩)]), .fill, .fill, .check, .resume 0, .store 0,
        .timerRandomDaily, .request 5]).map (fun p => p.1.resets) = some 1 := rfl
  obtain ⟨⟨s, tr⟩, h, hresets⟩ := Option.map_eq_some_iff.mp hrun
  have hfresh := fresh_of_undisturbed h
  exact ⟨s, tr, h, hresets, (hfresh.1.mpr (by decide +kernel)).1, hfresh.2 (by decide +kernel)⟩

/-- A listing that fails leaves an empty table to the next request; and a reset during a
    computation leaves what it then caches. -/
theorem partial_and_stale :
    (∃ s tr, run (step (doubles (fun _ => .finite 4) (fun _ => .finite 0)) 0) {}
        [.init, .request 5, .competitors 0 (some [6]), .ask 0 0, .enter, .check, .logged,
          .fetched none, .gather 0, .request 5, .competitors 1 (some [6]), .ask 1 0, .enter, .check]
        = some (s, tr)
      ∧ tr = [.loadFailed true, .answered 6 ⟨⟨0⟩, false, 0⟩])
      ∧ ∃ s tr, run (step (doubles (fun _ => .finite 4) (fun _ => .finite 0)) 0) {}
        [.init, .request 5, .competitors 0 (some [6]), .ask 0 0, .enter, .check, .logged,
          .fetched (some [some (6, ⟨1000⟩)]), .fill, .fill, .check, .channelCreation, .resume 0,
          .gather 0, .enter, .check, .resume 0, .store 0] = some (s, tr)
      ∧ s.resets = 1
      ∧ (s.multipliers.find 5).map Cached.used = some [⟨⟨1000⟩, true, 0⟩, ⟨⟨0⟩, true, 0⟩] := by
  have hpartial : (run (step (doubles (fun _ => .finite 4) (fun _ => .finite 0)) 0) {}
      [.init, .request 5, .competitors 0 (some [6]), .ask 0 0, .enter, .check, .logged,
        .fetched none, .gather 0, .request 5, .competitors 1 (some [6]), .ask 1 0, .enter,
        .check]).map Prod.snd = some [.loadFailed true, .answered 6 ⟨⟨0⟩, false, 0⟩] := rfl
  have hstale : (run (step (doubles (fun _ => .finite 4) (fun _ => .finite 0)) 0) {}
      [.init, .request 5, .competitors 0 (some [6]), .ask 0 0, .enter, .check, .logged,
        .fetched (some [some (6, ⟨1000⟩)]), .fill, .fill, .check, .channelCreation, .resume 0,
        .gather 0, .enter, .check, .resume 0, .store 0]).map
        (fun p => (p.1.resets, (p.1.multipliers.find 5).map Cached.used))
      = some (1, some [⟨⟨1000⟩, true, 0⟩, ⟨⟨0⟩, true, 0⟩]) := rfl
  obtain ⟨⟨s, tr⟩, h, htr⟩ := Option.map_eq_some_iff.mp hpartial
  obtain ⟨⟨s', tr'⟩, h', heq⟩ := Option.map_eq_some_iff.mp hstale
  obtain ⟨hresets, hused⟩ := Prod.ext_iff.mp heq
  exact ⟨⟨s, tr, h, htr⟩, s', tr', h', hresets, hused⟩

end FeeModderBySize
