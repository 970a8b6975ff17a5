import Clboss.MachineProofs
import Mathlib.Algebra.BigOperators.Group.List.Basic
import Mathlib.Algebra.Order.Ring.Nat
import Mathlib.Data.List.Flatten

/-! # `Ev::ThreadPool` — sixteen threads, two queues and a pipe

    A task has two stages.  `add` queues it under the mutex and notifies the
    condition variable; a thread takes it, runs the first stage outside of the
    mutex, queues the result under it and writes a byte into a pipe; the main
    thread's watcher reads the byte, takes a result under the mutex and runs the
    second stage.  Every access to what the threads share is an event here, with
    the mutex as a part of the state, and the events come in any order: threads
    are woken for nothing, two of them race for one task, the main thread adds
    tasks while it runs a second stage.

    The pipe takes `cap` bytes.  Only its read end is non-blocking, so a thread that
    finds it full stays in `write`, and there it has the mutex.

    SAFETY (`run_accounts`): tasks are taken in the order they were added, and
    resumed in the order their results were queued, each with the result of its
    own first stage and none twice; there is a result for every byte.

    PROGRESS (`run_drains`): while no more tasks are pending than the pipe takes bytes,
    a task that is not resumed can be brought forward, by the pool alone, and that
    only so many times.  In particular no wakeup is lost.

    DEADLOCK (`blocked_run`): behind a full pipe the main thread waits for the mutex of
    a thread that waits for the main thread to read. -/

namespace ThreadPool

variable {α ε : Type}

/-- Where a thread is in `background`. -/
inductive Worker (α ε : Type) where
  /-- About to lock the mutex, or woken and about to lock it again, for `get_work`. -/
  | locking
  /-- In `cnd.wait`. -/
  | asleep
  /-- In `get_work`, with the mutex. -/
  | choosing
  /-- In the first stage of a task. -/
  | working (t : ℕ)
  /-- About to lock the mutex for `put_result`. -/
  | storing (t : ℕ) (r : Except ε α)
  /-- In `put_result`, with the mutex, the result already in the queue. -/
  | writing
  | finished

/-- Where the main thread is. -/
inductive Main where
  | running
  /-- In `add`, before the mutex is locked and after it was unlocked. -/
  | adding
  | notifying
  /-- In `io_handler`, with a byte, before the mutex is locked. -/
  | reading
  /-- In the destructor, with the watcher stopped, before the mutex is locked. -/
  | closing
  /-- And before and after `notify_all`. -/
  | notifyingAll
  | joining
  | gone
deriving DecidableEq

/-- In the destructor. -/
def Main.leaving : Main → Bool
  | .closing      => true
  | .notifyingAll => true
  | .joining      => true
  | .gone         => true
  | _             => false

structure State (α ε : Type) where
  numTasks    : ℕ
  /-- `io_waiter` is there. -/
  ioWaiter    : Bool
  /-- The bytes in the pipe. -/
  pipe        : ℕ
  /-- `mtx` is locked. -/
  mtx         : Bool
  shutdown    : Bool
  workQueue   : List ℕ
  resultQueue : List (ℕ × Except ε α)
  threads     : List (Worker α ε)
  main        : Main
  /-- Tasks so far; a task's number stands for its function. -/
  tasks       : ℕ

def State.init : State α ε :=
  ⟨0, false, 0, false, false, [], [], List.replicate 16 .locking, .running, 0⟩

inductive Event (α ε : Type) where
  /-- `add` is called. -/
  | add
  /-- It gets the mutex and queues the task. -/
  | enter
  /-- `notify_one` wakes a thread, if one is asleep. -/
  | notify (i : Option ℕ)
  /-- The watcher reads a byte. -/
  | read
  /-- The main thread takes a result and runs its second stage. -/
  | result
  /-- The destructor is called. -/
  | destroy
  /-- It gets the mutex and sets `shutdown`. -/
  | close
  | notifyAll
  | join
  /-- A thread is woken for nothing. -/
  | wake (i : ℕ)
  /-- A thread gets the mutex. -/
  | lock (i : ℕ)
  /-- A thread leaves `get_work`, or goes to sleep in it. -/
  | choose (i : ℕ)
  /-- The first stage ends. -/
  | work (i : ℕ) (r : Except ε α)
  | write (i : ℕ)

inductive Output (α ε : Type) where
  | taken (t : ℕ)
  | ran (t : ℕ) (r : Except ε α)
  | stored (t : ℕ) (r : Except ε α)
  | resumed (t : ℕ) (r : Except ε α)

def Worker.isAsleep : Worker α ε → Bool
  | .asleep => true
  | _       => false

def Worker.isFinished : Worker α ε → Bool
  | .finished => true
  | _         => false

/-- What `notify_all` does to a thread. -/
def Worker.woken : Worker α ε → Worker α ε
  | .asleep => .locking
  | w       => w

/-- One event; it is refused where the thread is not at that point, the mutex is locked or
    the pipe is full. -/
def step (cap : ℕ) (s : State α ε) : Event α ε → Option (State α ε × List (Output α ε))
  | .add =>
      if s.main = .running then some ({ s with main := .adding }, []) else none
  | .enter =>
      if s.main = .adding ∧ s.mtx = false then
        some ({ s with workQueue := s.workQueue ++ [s.tasks], tasks := s.tasks + 1,
                       main := .notifying }, [])
      else none
  | .notify none =>
      if s.main = .notifying ∧ s.threads.all (fun w => !w.isAsleep) then
        some ({ s with numTasks := s.numTasks + 1, ioWaiter := true, main := .running }, [])
      else none
  | .notify (some i) =>
      match s.threads[i]? with
      | some .asleep =>
          if s.main = .notifying then
            some ({ s with numTasks := s.numTasks + 1, ioWaiter := true, main := .running,
                           threads := s.threads.set i .locking }, [])
          else none
      | _ => none
  | .read =>
      if s.main = .running ∧ s.ioWaiter = true ∧ 0 < s.pipe then
        some ({ s with pipe := s.pipe - 1, main := .reading }, [])
      else none
  | .result =>
      match s.resultQueue with
      | p :: rest =>
          if s.main = .reading ∧ s.mtx = false then
            some ({ s with resultQueue := rest, numTasks := s.numTasks - 1,
                           ioWaiter := s.ioWaiter && decide (s.numTasks - 1 ≠ 0),
                           main := .running }, [.resumed p.1 p.2])
          else none
      | [] => none
  | .destroy =>
      if s.main = .running then some ({ s with ioWaiter := false, main := .closing }, [])
      else none
  | .close =>
      if s.main = .closing ∧ s.mtx = false then
        some ({ s with shutdown := true, main := .notifyingAll }, [])
      else none
  | .notifyAll =>
      if s.main = .notifyingAll then
        some ({ s with threads := s.threads.map Worker.woken, main := .joining }, [])
      else none
  | .join =>
      if s.main = .joining ∧ s.threads.all Worker.isFinished then
        some ({ s with main := .gone }, [])
      else none
  | .wake i =>
      match s.threads[i]? with
      | some .asleep => some ({ s with threads := s.threads.set i .locking }, [])
      | _            => none
  | .lock i =>
      if s.mtx then none
      else match s.threads[i]? with
        | some .locking       =>
            some ({ s with mtx := true, threads := s.threads.set i .choosing }, [])
        | some (.storing t r) =>
            some ({ s with mtx := true, resultQueue := s.resultQueue ++ [(t, r)],
                           threads := s.threads.set i .writing }, [.stored t r])
        | _ => none
  | .choose i =>
      match s.threads[i]? with
      | some .choosing =>
          if s.shutdown then
            some ({ s with mtx := false, threads := s.threads.set i .finished }, [])
          else match s.workQueue with
            | []      => some ({ s with mtx := false, threads := s.threads.set i .asleep }, [])
            | t :: ts =>
                some ({ s with mtx := false, workQueue := ts,
                               threads := s.threads.set i (.working t) }, [.taken t])
      | _ => none
  | .work i r =>
      match s.threads[i]? with
      | some (.working t) => some ({ s with threads := s.threads.set i (.storing t r) }, [.ran t r])
      | _                 => none
  | .write i =>
      match s.threads[i]? with
      | some .writing =>
          if s.pipe < cap then
            some ({ s with pipe := s.pipe + 1, threads := s.threads.set i .choosing }, [])
          else none
      | _ => none

abbrev run (cap : ℕ) := Machine.run (step (α := α) (ε := ε) cap)

/-! ## Steps, once -/

/-- What an event does; a thread's move is a pair of phases. -/
inductive Next (cap : ℕ) (s : State α ε) : Event α ε → State α ε → List (Output α ε) → Prop
  | add (hmain : s.main = .running) : Next cap s .add { s with main := .adding } []
  | enter (hmain : s.main = .adding) (hmtx : s.mtx = false) :
      Next cap s .enter
        { s with workQueue := s.workQueue ++ [s.tasks], tasks := s.tasks + 1,
                 main := .notifying } []
  | notifyNone (hmain : s.main = .notifying) (hall : ∀ w ∈ s.threads, w.isAsleep = false) :
      Next cap s (.notify none)
        { s with numTasks := s.numTasks + 1, ioWaiter := true, main := .running } []
  | notifySome {i : ℕ} (hmain : s.main = .notifying) (hi : s.threads[i]? = some .asleep) :
      Next cap s (.notify (some i))
        { s with numTasks := s.numTasks + 1, ioWaiter := true, main := .running,
                 threads := s.threads.set i .locking } []
  | read (hmain : s.main = .running) (hwaiter : s.ioWaiter = true) (hpipe : 0 < s.pipe) :
      Next cap s .read { s with pipe := s.pipe - 1, main := .reading } []
  | result {p : ℕ × Except ε α} {rest : List (ℕ × Except ε α)} (hmain : s.main = .reading)
      (hmtx : s.mtx = false) (hq : s.resultQueue = p :: rest) :
      Next cap s .result
        { s with resultQueue := rest, numTasks := s.numTasks - 1,
                 ioWaiter := s.ioWaiter && decide (s.numTasks - 1 ≠ 0), main := .running }
        [.resumed p.1 p.2]
  | destroy (hmain : s.main = .running) :
      Next cap s .destroy { s with ioWaiter := false, main := .closing } []
  | close (hmain : s.main = .closing) (hmtx : s.mtx = false) :
      Next cap s .close { s with shutdown := true, main := .notifyingAll } []
  | notifyAll (hmain : s.main = .notifyingAll) :
      Next cap s .notifyAll { s with threads := s.threads.map Worker.woken, main := .joining } []
  | join (hmain : s.main = .joining) (hall : ∀ w ∈ s.threads, w.isFinished = true) :
      Next cap s .join { s with main := .gone } []
  | wake {i : ℕ} (hi : s.threads[i]? = some .asleep) :
      Next cap s (.wake i) { s with threads := s.threads.set i .locking } []
  | lock {i : ℕ} (hmtx : s.mtx = false) (hi : s.threads[i]? = some .locking) :
      Next cap s (.lock i) { s with mtx := true, threads := s.threads.set i .choosing } []
  | store {i t : ℕ} {r : Except ε α} (hmtx : s.mtx = false)
      (hi : s.threads[i]? = some (.storing t r)) :
      Next cap s (.lock i)
        { s with mtx := true, resultQueue := s.resultQueue ++ [(t, r)],
                 threads := s.threads.set i .writing } [.stored t r]
  | leave {i : ℕ} (hi : s.threads[i]? = some .choosing) (hdown : s.shutdown = true) :
      Next cap s (.choose i) { s with mtx := false, threads := s.threads.set i .finished } []
  | sleep {i : ℕ} (hi : s.threads[i]? = some .choosing) (hdown : s.shutdown = false)
      (hq : s.workQueue = []) :
      Next cap s (.choose i) { s with mtx := false, threads := s.threads.set i .asleep } []
  | take {i t : ℕ} {ts : List ℕ} (hi : s.threads[i]? = some .choosing)
      (hdown : s.shutdown = false) (hq : s.workQueue = t :: ts) :
      Next cap s (.choose i)
        { s with mtx := false, workQueue := ts, threads := s.threads.set i (.working t) }
        [.taken t]
  | work {i t : ℕ} {r : Except ε α} (hi : s.threads[i]? = some (.working t)) :
      Next cap s (.work i r) { s with threads := s.threads.set i (.storing t r) } [.ran t r]
  | write {i : ℕ} (hi : s.threads[i]? = some .writing) (hroom : s.pipe < cap) :
      Next cap s (.write i) { s with pipe := s.pipe + 1, threads := s.threads.set i .choosing } []

theorem next_of_step {cap : ℕ} {s s' : State α ε} {e : Event α ε} {out : List (Output α ε)}
    (h : step cap s e = some (s', out)) : Next cap s e s' out := by
  cases e with
  | add =>
      simp only [step] at h
      split at h
      · rename_i hmain
        cases h
        exact .add hmain
      · cases h
  | enter =>
      simp only [step] at h
      split at h
      · rename_i hc
        cases h
        exact .enter hc.1 hc.2
      · cases h
  | notify i =>
      cases i with
      | none =>
          simp only [step] at h
          split at h
          · rename_i hc
            cases h
            refine .notifyNone hc.1 (fun w hw => ?_)
            simpa using List.all_eq_true.mp hc.2 w hw
          · cases h
      | some i =>
          simp only [step] at h
          split at h
          · rename_i hi
            split at h
            · rename_i hmain
              cases h
              exact .notifySome hmain hi
            · cases h
          · cases h
  | read =>
      simp only [step] at h
      split at h
      · rename_i hc
        cases h
        exact .read hc.1 hc.2.1 hc.2.2
      · cases h
  | result =>
      simp only [step] at h
      split at h
      · rename_i p rest hq
        split at h
        · rename_i hc
          cases h
          exact .result hc.1 hc.2 hq
        · cases h
      · cases h
  | destroy =>
      simp only [step] at h
      split at h
      · rename_i hmain
        cases h
        exact .destroy hmain
      · cases h
  | close =>
      simp only [step] at h
      split at h
      · rename_i hc
        cases h
        exact .close hc.1 hc.2
      · cases h
  | notifyAll =>
      simp only [step] at h
      split at h
      · rename_i hmain
        cases h
        exact .notifyAll hmain
      · cases h
  | join =>
      simp only [step] at h
      split at h
      · rename_i hc
        cases h
        exact .join hc.1 (List.all_eq_true.mp hc.2)
      · cases h
  | wake i =>
      simp only [step] at h
      split at h
      · rename_i hi
        cases h
        exact .wake hi
      · cases h
  | lock i =>
      simp only [step] at h
      split at h
      · cases h
      · rename_i hmtx
        have hmtx := Bool.eq_false_iff.mpr hmtx
        split at h
        · rename_i hi
          cases h
          exact .lock hmtx hi
        · rename_i t r hi
          cases h
          exact .store hmtx hi
        · cases h
  | choose i =>
      simp only [step] at h
      split at h
      · rename_i hi
        split at h
        · rename_i hdown
          cases h
          exact .leave hi hdown
        · rename_i hdown
          have hdown := Bool.eq_false_iff.mpr hdown
          split at h
          · rename_i hq
            cases h
            exact .sleep hi hdown hq
          · rename_i t ts hq
            cases h
            exact .take hi hdown hq
      · cases h
  | work i r =>
      simp only [step] at h
      split at h
      · rename_i t hi
        cases h
        exact .work hi
      · cases h
  | write i =>
      simp only [step] at h
      split at h
      · rename_i hi
        split at h
        · rename_i hroom
          cases h
          exact .write hi hroom
        · cases h
      · cases h

/-- And the other way around. -/
theorem step_of_next {cap : ℕ} {s s' : State α ε} {e : Event α ε} {out : List (Output α ε)}
    (h : Next cap s e s' out) : step cap s e = some (s', out) := by
  cases h with
  | add hmain => simp [step, hmain]
  | enter hmain hmtx => simp [step, hmain, hmtx]
  | notifyNone hmain hall => simpa [step, hmain] using hall
  | notifySome hmain hi => simp [step, hmain, hi]
  | read hmain hwaiter hpipe => simp [step, hmain, hwaiter, hpipe]
  | result hmain hmtx hq => simp [step, hmain, hmtx, hq]
  | destroy hmain => simp [step, hmain]
  | close hmain hmtx => simp [step, hmain, hmtx]
  | notifyAll hmain => simp [step, hmain]
  | join hmain hall => simpa [step, hmain] using hall
  | wake hi => simp [step, hi]
  | lock hmtx hi => simp [step, hmtx, hi]
  | store hmtx hi => simp [step, hmtx, hi]
  | leave hi hdown => simp [step, hi, hdown]
  | sleep hi hdown hq => simp [step, hi, hdown, hq]
  | take hi hdown hq => simp [step, hi, hdown, hq]
  | work hi => simp [step, hi]
  | write hi hroom => simp [step, hi, hroom]

/-! ## What shows -/

def Output.takes : Output α ε → Option ℕ
  | .taken t => some t
  | _        => none

def Output.runs : Output α ε → Option (ℕ × Except ε α)
  | .ran t r => some (t, r)
  | _        => none

def Output.stores : Output α ε → Option (ℕ × Except ε α)
  | .stored t r => some (t, r)
  | _           => none

def Output.resumes : Output α ε → Option (ℕ × Except ε α)
  | .resumed t r => some (t, r)
  | _            => none

/-- The task that a thread is at. -/
def Worker.task : Worker α ε → List ℕ
  | .working t   => [t]
  | .storing t _ => [t]
  | _            => []

/-- The result that a thread has. -/
def Worker.ready : Worker α ε → List (ℕ × Except ε α)
  | .storing t r => [(t, r)]
  | _            => []

/-- The thread has the mutex. -/
def Worker.locks : Worker α ε → Bool
  | .choosing => true
  | .writing  => true
  | _         => false

def Worker.isWriting : Worker α ε → Bool
  | .writing => true
  | _        => false

/-! ## The invariant -/

structure Inv (tr : List (Output α ε)) (s : State α ε) : Prop where
  size    : s.threads.length = 16
  mutex   : s.threads.countP Worker.locks = s.mtx.toNat
  /-- There is a result for every byte, the one being written and the one that was read. -/
  bytes   : s.pipe + (if s.main = .reading then 1 else 0) + s.threads.countP Worker.isWriting
    = s.resultQueue.length
  taken   : List.range s.tasks = tr.filterMap Output.takes ++ s.workQueue
  resumed : tr.filterMap Output.stores = tr.filterMap Output.resumes ++ s.resultQueue
  atWork  : (tr.filterMap Output.takes).Perm
    ((tr.filterMap Output.stores).map Prod.fst ++ s.threads.flatMap Worker.task)
  ran     : (tr.filterMap Output.runs).Perm
    (tr.filterMap Output.stores ++ s.threads.flatMap Worker.ready)
  counted : s.numTasks + (if s.main = .notifying then 1 else 0)
    = s.workQueue.length + (s.threads.flatMap Worker.task).length + s.resultQueue.length
  watcher : s.main.leaving = false → s.ioWaiter = decide (s.numTasks ≠ 0)
  down    : s.shutdown = (s.main.leaving && decide (s.main ≠ .closing))
  alive   : s.shutdown = false → ∀ w ∈ s.threads, w.isFinished = false
  /-- A task that waits does not wait for sleeping threads alone. -/
  awake   : s.shutdown = false → s.workQueue ≠ [] → s.main ≠ .notifying →
    ∃ w ∈ s.threads, w.isAsleep = false

theorem inv_init : Inv ([] : List (Output α ε)) .init := by
  constructor
  · rfl
  · rfl
  · rfl
  · rfl
  · rfl
  · exact List.Perm.refl _
  · exact List.Perm.refl _
  · rfl
  · exact fun _ => rfl
  · rfl
  · intro _ w hw
    rw [List.eq_of_mem_replicate hw]
    rfl
  · exact fun _ h => absurd rfl h

section Steps

variable {tr tr' : List (Output α ε)} {s s' : State α ε}

/-- Which thread is where in the list makes no difference. -/
theorem Inv.perm (h : Inv tr s) {ws : List (Worker α ε)} (hp : s.threads.Perm ws) :
    Inv tr { s with threads := ws } where
  size    := hp.length_eq.symm.trans h.size
  mutex   := (hp.countP_eq _).symm.trans h.mutex
  bytes   := by
    have := h.bytes
    rw [hp.countP_eq] at this
    exact this
  taken   := h.taken
  resumed := h.resumed
  atWork  := h.atWork.trans ((hp.flatMap_right _).append_left _)
  ran     := h.ran.trans ((hp.flatMap_right _).append_left _)
  counted := by
    have := h.counted
    rw [(hp.flatMap_right _).length_eq] at this
    exact this
  watcher := h.watcher
  down    := h.down
  alive   := fun hdown w hw => h.alive hdown w (hp.mem_iff.mpr hw)
  awake   := by
    intro hdown hq hmain
    obtain ⟨w, hw, hasleep⟩ := h.awake hdown hq hmain
    exact ⟨w, hp.mem_iff.mp hw, hasleep⟩

/-- A move of one thread, told with this thread in front. -/
theorem Inv.move (s' : State α ε) {i : ℕ} {w w' : Worker α ε} (h : Inv tr s)
    (hi : s.threads[i]? = some w)
    (hnew : ∀ rest, Inv tr { s with threads := w :: rest } →
      Inv tr' { s' with threads := w' :: rest }) :
    Inv tr' { s' with threads := s.threads.set i w' } := by
  have hold := h.perm (Machine.pool_perm hi)
  have hset : (s.threads.set i w')[i]? = some w' := by
    rw [List.getElem?_set_self', hi]
    rfl
  have hback := Machine.pool_perm hset
  rw [List.eraseIdx_set_eq] at hback
  exact (hnew _ hold).perm (s := { s' with threads := w' :: s.threads.eraseIdx i }) hback.symm

/-- The main thread calls `add`. -/
theorem inv_add (h : Inv tr s) (hmain : s.main = .running) :
    Inv tr { s with main := .adding } where
  size    := h.size
  mutex   := h.mutex
  bytes   := by simpa [hmain] using h.bytes
  taken   := h.taken
  resumed := h.resumed
  atWork  := h.atWork
  ran     := h.ran
  counted := by simpa [hmain] using h.counted
  watcher := fun _ => h.watcher (by rw [hmain]; rfl)
  down    := by
    rw [h.down, hmain]
    rfl
  alive   := h.alive
  awake   := fun hdown hq _ => h.awake hdown hq (by rw [hmain]; exact nofun)

/-- It queues the task. -/
theorem inv_enter (h : Inv tr s) (hmain : s.main = .adding) :
    Inv tr { s with workQueue := s.workQueue ++ [s.tasks], tasks := s.tasks + 1,
                    main := .notifying } where
  size    := h.size
  mutex   := h.mutex
  bytes   := by simpa [hmain] using h.bytes
  taken   := by
    rw [List.range_succ, h.taken, List.append_assoc]
  resumed := h.resumed
  atWork  := h.atWork
  ran     := h.ran
  counted := by
    have := h.counted
    simp [hmain] at this ⊢
    omega
  watcher := fun _ => h.watcher (by rw [hmain]; rfl)
  down    := by
    rw [h.down, hmain]
    rfl
  alive   := h.alive
  awake   := fun _ _ hne => absurd rfl hne

/-- The count and the watcher follow, once a thread is awake. -/
theorem inv_notify (h : Inv tr s) (hmain : s.main = .notifying)
    (hawake : s.workQueue ≠ [] → ∃ w ∈ s.threads, w.isAsleep = false) :
    Inv tr { s with numTasks := s.numTasks + 1, ioWaiter := true, main := .running } where
  size    := h.size
  mutex   := h.mutex
  bytes   := by simpa [hmain] using h.bytes
  taken   := h.taken
  resumed := h.resumed
  atWork  := h.atWork
  ran     := h.ran
  counted := by simpa [hmain] using h.counted
  watcher := fun _ => by simp
  down    := by
    rw [h.down, hmain]
    rfl
  alive   := h.alive
  awake   := fun _ hq _ => hawake hq

/-- A byte is read. -/
theorem inv_read (h : Inv tr s) (hmain : s.main = .running) (hpipe : 0 < s.pipe) :
    Inv tr { s with pipe := s.pipe - 1, main := .reading } where
  size    := h.size
  mutex   := h.mutex
  bytes   := by
    have := h.bytes
    simp [hmain] at this ⊢
    omega
  taken   := h.taken
  resumed := h.resumed
  atWork  := h.atWork
  ran     := h.ran
  counted := by simpa [hmain] using h.counted
  watcher := fun _ => h.watcher (by rw [hmain]; rfl)
  down    := by
    rw [h.down, hmain]
    rfl
  alive   := h.alive
  awake   := fun hdown hq _ => h.awake hdown hq (by rw [hmain]; exact nofun)

/-- A result is taken; the last one takes the watcher with it. -/
theorem inv_result {p : ℕ × Except ε α} {rest : List (ℕ × Except ε α)} (h : Inv tr s)
    (hmain : s.main = .reading) (hq : s.resultQueue = p :: rest) :
    Inv (tr ++ [.resumed p.1 p.2])
      { s with resultQueue := rest, numTasks := s.numTasks - 1,
               ioWaiter := s.ioWaiter && decide (s.numTasks - 1 ≠ 0), main := .running } where
  size    := h.size
  mutex   := h.mutex
  bytes   := by
    have := h.bytes
    simp [hmain, hq] at this ⊢
    omega
  taken   := by
    rw [List.filterMap_append]
    exact h.taken.trans (by simp [Output.takes])
  resumed := by
    rw [List.filterMap_append, List.filterMap_append]
    simpa [List.filterMap_cons, Output.stores, Output.resumes, hq] using h.resumed
  atWork  := by
    rw [List.filterMap_append, List.filterMap_append]
    simpa [List.filterMap_cons, Output.stores, Output.takes] using h.atWork
  ran     := by
    rw [List.filterMap_append, List.filterMap_append]
    simpa [List.filterMap_cons, Output.stores, Output.runs] using h.ran
  counted := by
    have := h.counted
    simp [hmain, hq] at this ⊢
    omega
  watcher := by
    intro _
    have hcount := h.counted
    have hpos : s.numTasks ≠ 0 := by
      simp [hmain, hq] at hcount
      omega
    show (s.ioWaiter && _) = _
    rw [h.watcher (by rw [hmain]; rfl)]
    simp [hpos]
  down    := by
    rw [h.down, hmain]
    rfl
  alive   := h.alive
  awake   := fun hdown hne _ => h.awake hdown hne (by rw [hmain]; exact nofun)

/-- The destructor stops the watcher. -/
theorem inv_destroy (h : Inv tr s) (hmain : s.main = .running) :
    Inv tr { s with ioWaiter := false, main := .closing } where
  size    := h.size
  mutex   := h.mutex
  bytes   := by simpa [hmain] using h.bytes
  taken   := h.taken
  resumed := h.resumed
  atWork  := h.atWork
  ran     := h.ran
  counted := by simpa [hmain] using h.counted
  watcher := fun hstay => nomatch hstay
  down    := by
    rw [h.down, hmain]
    rfl
  alive   := h.alive
  awake   := fun hdown hq _ => h.awake hdown hq (by rw [hmain]; exact nofun)

/-- It tells the threads. -/
theorem inv_close (h : Inv tr s) (hmain : s.main = .closing) :
    Inv tr { s with shutdown := true, main := .notifyingAll } where
  size    := h.size
  mutex   := h.mutex
  bytes   := by simpa [hmain] using h.bytes
  taken   := h.taken
  resumed := h.resumed
  atWork  := h.atWork
  ran     := h.ran
  counted := by simpa [hmain] using h.counted
  watcher := fun hstay => nomatch hstay
  down    := rfl
  alive   := fun hdown => nomatch hdown
  awake   := fun hdown => nomatch hdown

/-- The main thread moves on within the destructor. -/
theorem inv_leave {m : Main} (h : Inv tr s) (hdown : s.shutdown = true)
    (hm : m.leaving = true) (hne : m ≠ .closing) : Inv tr { s with main := m } := by
  have hmain : s.main.leaving = true :=
    (Bool.and_eq_true_iff.mp (h.down.symm.trans hdown)).1
  have hold : s.main ≠ .reading ∧ s.main ≠ .notifying := by
    constructor
    · intro heq
      rw [heq] at hmain
      exact nomatch hmain
    · intro heq
      rw [heq] at hmain
      exact nomatch hmain
  have hnew : m ≠ .reading ∧ m ≠ .notifying := by
    constructor
    · rintro rfl
      exact nomatch hm
    · rintro rfl
      exact nomatch hm
  exact
    { size := h.size
      mutex := h.mutex
      bytes := by simpa [hold.1, hnew.1] using h.bytes
      taken := h.taken
      resumed := h.resumed
      atWork := h.atWork
      ran := h.ran
      counted := by simpa [hold.2, hnew.2] using h.counted
      watcher := fun hstay => absurd hm (by rw [show m.leaving = false from hstay]; exact nofun)
      down := by
        show s.shutdown = _
        rw [hdown, hm]
        exact (decide_eq_true hne).symm
      alive := h.alive
      awake := fun hs => absurd hdown (by rw [show s.shutdown = false from hs]; exact nofun) }

/-- All sleeping threads are woken. -/
theorem inv_wakeAll (h : Inv tr s) (hdown : s.shutdown = true) :
    Inv tr { s with threads := s.threads.map Worker.woken } := by
  have hcount : ∀ f : Worker α ε → Bool, (∀ w, f w.woken = f w) →
      (s.threads.map Worker.woken).countP f = s.threads.countP f := by
    intro f hf
    rw [List.countP_map]
    exact congrArg (fun g => s.threads.countP g) (funext hf)
  have hflat : ∀ {β : Type} (f : Worker α ε → List β), (∀ w, f w.woken = f w) →
      (s.threads.map Worker.woken).flatMap f = s.threads.flatMap f := by
    intro β f hf
    rw [List.flatMap_map]
    exact congrArg (fun g => s.threads.flatMap g) (funext hf)
  have hlocks : ∀ w : Worker α ε, w.woken.locks = w.locks := fun w => by cases w <;> rfl
  have hwriting : ∀ w : Worker α ε, w.woken.isWriting = w.isWriting := fun w => by cases w <;> rfl
  have htask : ∀ w : Worker α ε, w.woken.task = w.task := fun w => by cases w <;> rfl
  have hready : ∀ w : Worker α ε, w.woken.ready = w.ready := fun w => by cases w <;> rfl
  have hup : ∀ {P : Prop}, s.shutdown = false → P := fun hs => by rw [hs] at hdown; cases hdown
  exact
    { size := (List.length_map _).trans h.size
      mutex := (hcount _ hlocks).trans h.mutex
      bytes := by
        show _ + (s.threads.map Worker.woken).countP _ = _
        rw [hcount _ hwriting]
        exact h.bytes
      taken := h.taken
      resumed := h.resumed
      atWork := by
        show List.Perm _ (_ ++ (s.threads.map Worker.woken).flatMap _)
        rw [hflat _ htask]
        exact h.atWork
      ran := by
        show List.Perm _ (_ ++ (s.threads.map Worker.woken).flatMap _)
        rw [hflat _ hready]
        exact h.ran
      counted := by
        show _ = _ + ((s.threads.map Worker.woken).flatMap _).length + _
        rw [hflat _ htask]
        exact h.counted
      watcher := h.watcher
      down := h.down
      alive := fun hs => hup hs
      awake := fun hs => hup hs }

/-- A thread that has the mutex has locked it. -/
theorem mtx_of_locks {i : ℕ} {w : Worker α ε} (h : Inv tr s) (hi : s.threads[i]? = some w)
    (hw : w.locks = true) : s.mtx = true := by
  have hpos : 0 < s.threads.countP Worker.locks :=
    List.countP_pos_iff.mpr ⟨w, List.mem_of_getElem? hi, hw⟩
  rw [h.mutex] at hpos
  cases hm : s.mtx with
  | true => rfl
  | false => rw [hm] at hpos; exact absurd hpos (by decide)

/-- A thread that is awake and not at a task moves between such phases, while the mutex
    changes hands with it. -/
theorem inv_pass {i : ℕ} {w w' : Worker α ε} {mtx' : Bool} (h : Inv tr s)
    (hi : s.threads[i]? = some w) (hmtx : s.mtx.toNat + w'.locks.toNat = mtx'.toNat + w.locks.toNat)
    (hw : w.isWriting = false ∧ w.task = [] ∧ w.ready = [])
    (hw' : w'.isWriting = false ∧ w'.task = [] ∧ w'.ready = [])
    (hfin : w'.isFinished = true → s.shutdown = true)
    (hasleep : w'.isAsleep = true → s.shutdown = false → s.workQueue = []) :
    Inv tr { s with mtx := mtx', threads := s.threads.set i w' } := by
  refine Inv.move { s with mtx := mtx' } h hi (fun rest hrest => ?_)
  have hlocks : ∀ (x : Worker α ε), (x :: rest).countP Worker.locks
      = x.locks.toNat + rest.countP Worker.locks := by
    intro x
    rw [List.countP_cons, Nat.add_comm]
    cases x.locks <;> rfl
  exact
    { size := hrest.size
      mutex := by
        have hold := hrest.mutex
        rw [show (w :: rest).countP Worker.locks = _ from hlocks w] at hold
        show (w' :: rest).countP Worker.locks = _
        rw [hlocks w']
        show _ = mtx'.toNat
        change _ = s.mtx.toNat at hold
        omega
      bytes := by
        have hold := hrest.bytes
        simp only [List.countP_cons, hw.1] at hold
        simpa only [List.countP_cons, hw'.1] using hold
      taken := hrest.taken
      resumed := hrest.resumed
      atWork := by
        have hold := hrest.atWork
        simp only [List.flatMap_cons, hw.2.1] at hold
        simpa only [List.flatMap_cons, hw'.2.1] using hold
      ran := by
        have hold := hrest.ran
        simp only [List.flatMap_cons, hw.2.2] at hold
        simpa only [List.flatMap_cons, hw'.2.2] using hold
      counted := by
        have hold := hrest.counted
        simp only [List.flatMap_cons, hw.2.1] at hold
        simpa only [List.flatMap_cons, hw'.2.1] using hold
      watcher := hrest.watcher
      down := hrest.down
      alive := by
        intro hdown x hx
        rcases List.mem_cons.mp hx with rfl | hx
        · cases hf : x.isFinished with
          | false => rfl
          | true => exact absurd (hfin hf) (by rw [show s.shutdown = false from hdown]; exact nofun)
        · exact hrest.alive hdown x (List.mem_cons_of_mem _ hx)
      awake := by
        intro hdown hq _
        cases ha : w'.isAsleep with
        | false => exact ⟨w', List.mem_cons_self, ha⟩
        | true => exact absurd (hasleep ha hdown) hq }

/-- A thread takes a task. -/
theorem inv_take {i t : ℕ} {ts : List ℕ} (h : Inv tr s) (hi : s.threads[i]? = some .choosing)
    (hq : s.workQueue = t :: ts) :
    Inv (tr ++ [.taken t])
      { s with mtx := false, workQueue := ts, threads := s.threads.set i (.working t) } := by
  refine Inv.move { s with mtx := false, workQueue := ts } h hi (fun rest hrest => ?_)
  have hmutex : rest.countP Worker.locks = 0 := by
    have hold : (Worker.choosing :: rest).countP Worker.locks = s.mtx.toNat := hrest.mutex
    rw [List.countP_cons_of_pos rfl] at hold
    have hle := Bool.toNat_le s.mtx
    omega
  exact
    { size := hrest.size
      mutex := hmutex
      bytes := hrest.bytes
      taken := by
        have hold : List.range s.tasks = tr.filterMap Output.takes ++ s.workQueue := hrest.taken
        rw [List.filterMap_append, List.append_assoc, hold, hq]
        rfl
      resumed := by
        rw [List.filterMap_append, List.filterMap_append]
        simpa [List.filterMap_cons, Output.stores, Output.resumes] using hrest.resumed
      atWork := by
        have hold : (tr.filterMap Output.takes).Perm
          ((tr.filterMap Output.stores).map Prod.fst ++ rest.flatMap Worker.task) := hrest.atWork
        rw [List.filterMap_append, List.filterMap_append]
        refine (hold.append_right [t]).trans ?_
        rw [List.append_assoc]
        simpa [List.filterMap_cons, Output.stores, Worker.task] using
          (List.perm_append_singleton t (rest.flatMap Worker.task)).append_left _
      ran := by
        rw [List.filterMap_append, List.filterMap_append]
        simpa [List.filterMap_cons, Output.stores, Output.runs, Worker.ready] using hrest.ran
      counted := by
        have hold := hrest.counted
        simp only [List.flatMap_cons, Worker.task, List.nil_append, hq, List.length_cons] at hold
        simp only [List.flatMap_cons, Worker.task, List.length_append, List.length_cons,
          List.length_nil]
        omega
      watcher := hrest.watcher
      down := hrest.down
      alive := by
        intro hdown x hx
        rcases List.mem_cons.mp hx with rfl | hx
        · rfl
        · exact hrest.alive hdown x (List.mem_cons_of_mem _ hx)
      awake := fun _ _ _ => ⟨_, List.mem_cons_self, rfl⟩ }

/-- The first stage of a task ends. -/
theorem inv_work {i t : ℕ} {r : Except ε α} (h : Inv tr s)
    (hi : s.threads[i]? = some (.working t)) :
    Inv (tr ++ [.ran t r]) { s with threads := s.threads.set i (.storing t r) } := by
  refine Inv.move s h hi (fun rest hrest => ?_)
  exact
    { size := hrest.size
      mutex := hrest.mutex
      bytes := hrest.bytes
      taken := by
        rw [List.filterMap_append]
        exact hrest.taken.trans (by simp [Output.takes])
      resumed := by
        rw [List.filterMap_append, List.filterMap_append]
        simpa [List.filterMap_cons, Output.stores, Output.resumes] using hrest.resumed
      atWork := by
        rw [List.filterMap_append, List.filterMap_append]
        simpa [List.filterMap_cons, Output.stores, Output.takes, Worker.task] using hrest.atWork
      ran := by
        have hold : (tr.filterMap Output.runs).Perm
          (tr.filterMap Output.stores ++ rest.flatMap Worker.ready) := hrest.ran
        rw [List.filterMap_append, List.filterMap_append]
        refine (hold.append_right [(t, r)]).trans ?_
        rw [List.append_assoc]
        simpa [List.filterMap_cons, Output.stores, Worker.ready] using
          (List.perm_append_singleton (t, r) (rest.flatMap Worker.ready)).append_left _
      counted := hrest.counted
      watcher := hrest.watcher
      down := hrest.down
      alive := by
        intro hdown x hx
        rcases List.mem_cons.mp hx with rfl | hx
        · rfl
        · exact hrest.alive hdown x (List.mem_cons_of_mem _ hx)
      awake := fun _ _ _ => ⟨_, List.mem_cons_self, rfl⟩ }

/-- A thread queues a result. -/
theorem inv_store {i t : ℕ} {r : Except ε α} (h : Inv tr s) (hmtx : s.mtx = false)
    (hi : s.threads[i]? = some (.storing t r)) :
    Inv (tr ++ [.stored t r])
      { s with mtx := true, resultQueue := s.resultQueue ++ [(t, r)],
               threads := s.threads.set i .writing } := by
  refine Inv.move { s with mtx := true, resultQueue := s.resultQueue ++ [(t, r)] } h hi
    (fun rest hrest => ?_)
  exact
    { size := hrest.size
      mutex := by
        have hold : (Worker.storing t r :: rest).countP Worker.locks = s.mtx.toNat := hrest.mutex
        rw [hmtx, List.countP_cons_of_neg (by exact nofun)] at hold
        show (Worker.writing :: rest).countP Worker.locks = 1
        rw [List.countP_cons_of_pos rfl, hold]
        rfl
      bytes := by
        have hold := hrest.bytes
        rw [List.countP_cons_of_neg (by exact nofun)] at hold
        rw [List.countP_cons_of_pos rfl, List.length_append, List.length_singleton]
        exact congrArg (· + 1) hold
      taken := by
        rw [List.filterMap_append]
        exact hrest.taken.trans (by simp [Output.takes])
      resumed := by
        have hold : tr.filterMap Output.stores = tr.filterMap Output.resumes ++ s.resultQueue :=
          hrest.resumed
        rw [List.filterMap_append, List.filterMap_append, hold]
        simp [List.filterMap_cons, Output.stores, Output.resumes]
      atWork := by
        have hold : (tr.filterMap Output.takes).Perm ((tr.filterMap Output.stores).map Prod.fst
          ++ t :: rest.flatMap Worker.task) := hrest.atWork
        rw [List.filterMap_append, List.filterMap_append]
        simpa [List.filterMap_cons, Output.stores, Output.takes, Worker.task] using hold
      ran := by
        have hold : (tr.filterMap Output.runs).Perm (tr.filterMap Output.stores
          ++ (t, r) :: rest.flatMap Worker.ready) := hrest.ran
        rw [List.filterMap_append, List.filterMap_append]
        simpa [List.filterMap_cons, Output.stores, Output.runs, Worker.ready] using hold
      counted := by
        have hold := hrest.counted
        simp only [List.flatMap_cons, Worker.task, List.length_append, List.length_cons,
          List.length_nil] at hold
        simp only [List.flatMap_cons, Worker.task, List.nil_append, List.length_append,
          List.length_cons, List.length_nil]
        omega
      watcher := hrest.watcher
      down := hrest.down
      alive := by
        intro hdown x hx
        rcases List.mem_cons.mp hx with rfl | hx
        · rfl
        · exact hrest.alive hdown x (List.mem_cons_of_mem _ hx)
      awake := fun _ _ _ => ⟨_, List.mem_cons_self, rfl⟩ }

/-- And writes the byte for it. -/
theorem inv_write {i : ℕ} (h : Inv tr s) (hi : s.threads[i]? = some .writing) :
    Inv tr { s with pipe := s.pipe + 1, threads := s.threads.set i .choosing } := by
  refine Inv.move { s with pipe := s.pipe + 1 } h hi (fun rest hrest => ?_)
  exact
    { size := hrest.size
      mutex := hrest.mutex
      bytes := by
        have hold : s.pipe + (if s.main = .reading then 1 else 0)
          + (Worker.writing :: rest).countP Worker.isWriting = s.resultQueue.length := hrest.bytes
        rw [List.countP_cons_of_pos rfl] at hold
        rw [List.countP_cons_of_neg (by exact nofun)]
        show s.pipe + 1 + (if s.main = .reading then 1 else 0) + rest.countP Worker.isWriting
          = s.resultQueue.length
        omega
      taken := hrest.taken
      resumed := hrest.resumed
      atWork := hrest.atWork
      ran := hrest.ran
      counted := hrest.counted
      watcher := hrest.watcher
      down := hrest.down
      alive := by
        intro hdown x hx
        rcases List.mem_cons.mp hx with rfl | hx
        · rfl
        · exact hrest.alive hdown x (List.mem_cons_of_mem _ hx)
      awake := fun _ _ _ => ⟨_, List.mem_cons_self, rfl⟩ }

/-- **STEP**. -/
theorem inv_step {cap : ℕ} {e : Event α ε} {out : List (Output α ε)} (h : Inv tr s)
    (hstep : step cap s e = some (s', out)) : Inv (tr ++ out) s' := by
  cases next_of_step hstep with
  | add hmain =>
      rw [List.append_nil]
      exact inv_add h hmain
  | enter hmain hmtx =>
      rw [List.append_nil]
      exact inv_enter h hmain
  | notifyNone hmain hall =>
      rw [List.append_nil]
      refine inv_notify h hmain (fun _ => ?_)
      obtain ⟨w, hw⟩ := List.exists_mem_of_length_pos (l := s.threads) (by rw [h.size]; decide)
      exact ⟨w, hw, hall w hw⟩
  | @notifySome i hmain hi =>
      rw [List.append_nil]
      -- the thread is woken before the main thread goes on
      have hwoken : Inv tr { s with threads := s.threads.set i .locking } :=
        inv_pass h hi rfl ⟨rfl, rfl, rfl⟩ ⟨rfl, rfl, rfl⟩ nofun nofun
      refine inv_notify hwoken hmain (fun _ => ⟨.locking, ?_, rfl⟩)
      exact List.mem_set (List.getElem?_eq_some_iff.mp hi).1 _
  | read hmain hwaiter hpipe =>
      rw [List.append_nil]
      exact inv_read h hmain hpipe
  | result hmain hmtx hq => exact inv_result h hmain hq
  | destroy hmain =>
      rw [List.append_nil]
      exact inv_destroy h hmain
  | close hmain hmtx =>
      rw [List.append_nil]
      exact inv_close h hmain
  | notifyAll hmain =>
      rw [List.append_nil]
      have hdown : s.shutdown = true := by
        rw [h.down, hmain]
        rfl
      exact inv_leave (m := .joining) (inv_wakeAll h hdown) hdown rfl nofun
  | join hmain hall =>
      rw [List.append_nil]
      exact inv_leave h (by rw [h.down, hmain]; rfl) rfl nofun
  | wake hi =>
      rw [List.append_nil]
      exact inv_pass h hi rfl ⟨rfl, rfl, rfl⟩ ⟨rfl, rfl, rfl⟩ nofun nofun
  | lock hmtx hi =>
      rw [List.append_nil]
      exact inv_pass h hi (by rw [hmtx]; rfl) ⟨rfl, rfl, rfl⟩ ⟨rfl, rfl, rfl⟩ nofun nofun
  | store hmtx hi => exact inv_store h hmtx hi
  | leave hi hdown =>
      rw [List.append_nil]
      exact inv_pass h hi (by rw [mtx_of_locks h hi rfl]; rfl) ⟨rfl, rfl, rfl⟩ ⟨rfl, rfl, rfl⟩
        (fun _ => hdown) nofun
  | sleep hi hdown hq =>
      rw [List.append_nil]
      exact inv_pass h hi (by rw [mtx_of_locks h hi rfl]; rfl) ⟨rfl, rfl, rfl⟩ ⟨rfl, rfl, rfl⟩
        nofun (fun _ _ => hq)
  | take hi hdown hq => exact inv_take h hi hq
  | work hi => exact inv_work h hi
  | write hi hroom =>
      rw [List.append_nil]
      exact inv_write h hi

end Steps

theorem inv_of_run {cap : ℕ} {es : List (Event α ε)} {s : State α ε} {tr : List (Output α ε)}
    (hrun : run cap .init es = some (s, tr)) : Inv tr s :=
  Machine.run_invariant (P := fun _ _ => True) (I := fun _ tr s => Inv tr s) inv_init
    (fun _ _ _ _ _ _ h _ hs => inv_step h hs) (Machine.along_true _ _) hrun

/-! ## Safety -/

theorem ready_sublist (ws : List (Worker α ε)) :
    ((ws.flatMap Worker.ready).map Prod.fst).Sublist (ws.flatMap Worker.task) := by
  induction ws with
  | nil => exact List.Sublist.refl _
  | cons w ws ih =>
      rw [List.flatMap_cons, List.flatMap_cons, List.map_append]
      refine List.Sublist.append ?_ ih
      cases w with
      | working t => exact List.nil_sublist _
      | _ => exact List.Sublist.refl _

/-- What is stored, with what is still being worked at, is what was taken. -/
theorem Inv.nodup {tr : List (Output α ε)} {s : State α ε} (h : Inv tr s) :
    ((tr.filterMap Output.stores).map Prod.fst ++ s.threads.flatMap Worker.task).Nodup := by
  refine h.atWork.nodup_iff.mp ?_
  have hrange := List.nodup_range (n := s.tasks)
  rw [h.taken] at hrange
  exact (List.nodup_append.mp hrange).1

/-- **HEADLINE**: tasks are taken in the order they were added; results are resumed in the
    order they were stored, which are the results of first stages; no task is run or
    resumed twice; and whoever reads a byte finds a result. -/
theorem run_accounts {cap : ℕ} {es : List (Event α ε)} {s : State α ε}
    {tr : List (Output α ε)} (hrun : run cap .init es = some (s, tr)) :
    tr.filterMap Output.takes ++ s.workQueue = List.range s.tasks
      ∧ tr.filterMap Output.resumes ++ s.resultQueue = tr.filterMap Output.stores
      ∧ (tr.filterMap Output.resumes).Subset (tr.filterMap Output.runs)
      ∧ ((tr.filterMap Output.runs).map Prod.fst).Nodup
      ∧ ((tr.filterMap Output.resumes).map Prod.fst).Nodup
      ∧ (s.main = .reading → s.resultQueue ≠ []) := by
  have h := inv_of_run hrun
  have hstored := (List.nodup_append.mp h.nodup).1
  refine ⟨h.taken.symm, h.resumed.symm, ?_, ?_, ?_, ?_⟩
  · intro p hp
    refine h.ran.mem_iff.mpr (List.mem_append_left _ ?_)
    rw [h.resumed]
    exact List.mem_append_left _ hp
  · refine (h.ran.map Prod.fst).nodup_iff.mpr ?_
    rw [List.map_append]
    exact h.nodup.sublist ((List.Sublist.refl _).append (ready_sublist s.threads))
  · rw [h.resumed, List.map_append] at hstored
    exact (List.nodup_append.mp hstored).1
  · intro hmain hnil
    have hbytes := h.bytes
    rw [if_pos hmain, hnil, List.length_nil] at hbytes
    omega

/-- Two tasks; the second is added while the first is run, behind a thread that finds no
    work, and taken by the thread that is done with the first. -/
def sampleEvents : List (Event ℕ ℕ) :=
  [.lock 0, .choose 0, .lock 1, .choose 1, .add, .enter, .notify (some 1), .lock 1, .choose 1,
    .lock 2, .add, .choose 2, .enter, .notify (some 0), .work 1 (.ok 7), .lock 1, .write 1,
    .choose 1, .read, .result]

theorem run_accounts_sample :
    ∃ s tr, run 65536 .init sampleEvents = some (s, tr)
      ∧ tr.filterMap Output.takes ++ s.workQueue = List.range 2
      ∧ tr.filterMap Output.resumes = [(0, .ok 7)]
      ∧ tr.filterMap Output.stores = [(0, .ok 7)]
      ∧ (tr.filterMap Output.resumes).Subset (tr.filterMap Output.runs)
      ∧ ((tr.filterMap Output.runs).map Prod.fst).Nodup
      ∧ ((tr.filterMap Output.resumes).map Prod.fst).Nodup := by
  obtain ⟨s, tr, hrun, htasks, hresumed, hnone⟩ :
      ∃ s tr, run 65536 .init sampleEvents = some (s, tr) ∧ s.tasks = 2
        ∧ tr.filterMap Output.resumes = [(0, .ok 7)] ∧ s.resultQueue = [] :=
    ⟨_, _, rfl, rfl, rfl, rfl⟩
  obtain ⟨htaken, hstored, hsub, hruns, hresumes, _⟩ := run_accounts hrun
  rw [htasks] at htaken
  rw [hresumed, hnone, List.append_nil] at hstored
  exact ⟨s, tr, hrun, htaken, hresumed, hstored.symm, hsub, hruns, hresumes⟩

/-! ## Progress -/

/-- What the pool does by itself: neither the program nor chance is needed. -/
def Event.internal : Event α ε → Bool
  | .enter    => true
  | .notify _ => true
  | .read     => true
  | .result   => true
  | .lock _   => true
  | .choose _ => true
  | .work _ _ => true
  | .write _  => true
  | _         => false

/-- The tasks that were added and not resumed, with the one that is being added. -/
def State.pending (s : State α ε) : ℕ :=
  s.numTasks + (if s.main = .adding ∨ s.main = .notifying then 1 else 0)

/-- How many moves a thread has left, if it gets no task. -/
def Worker.weight : Worker α ε → ℕ
  | .asleep      => 0
  | .choosing    => 1
  | .locking     => 2
  | .writing     => 3
  | .storing _ _ => 7
  | .working _   => 8
  | .finished    => 0

/-- And the main thread, with the task it adds. -/
def Main.weight : Main → ℕ
  | .adding    => 12
  | .notifying => 3
  | _          => 0

/-- How many moves the pool has left at most. -/
def State.left (s : State α ε) : ℕ :=
  8 * s.workQueue.length + s.resultQueue.length + s.pipe + (s.threads.map Worker.weight).sum
    + s.main.weight

theorem sum_weight_set {ws : List (Worker α ε)} {i : ℕ} {w : Worker α ε} (hi : ws[i]? = some w)
    (w' : Worker α ε) :
    ((ws.set i w').map Worker.weight).sum + w.weight
      = (ws.map Worker.weight).sum + w'.weight := by
  have hset : (ws.set i w')[i]? = some w' := by
    rw [List.getElem?_set_self', hi]
    rfl
  rw [((Machine.pool_perm hi).map _).sum_eq, ((Machine.pool_perm hset).map _).sum_eq,
    List.eraseIdx_set_eq, List.map_cons, List.map_cons, List.sum_cons, List.sum_cons]
  omega

/-- **STEP**: each of these moves counts. -/
theorem left_lt {cap : ℕ} {s s' : State α ε} {e : Event α ε} {out : List (Output α ε)}
    (hdown : s.shutdown = false) (he : e.internal = true)
    (hstep : step cap s e = some (s', out)) : s'.left < s.left := by
  unfold State.left
  cases next_of_step hstep with
  | add => cases he
  | destroy => cases he
  | close => cases he
  | notifyAll => cases he
  | join => cases he
  | wake => cases he
  | enter hmain hmtx =>
      simp [hmain, Main.weight]
      omega
  | notifyNone hmain hall => simp [hmain, Main.weight]
  | notifySome hmain hi =>
      have := sum_weight_set hi .locking
      simp [hmain, Main.weight, Worker.weight] at this ⊢
      omega
  | read hmain hwaiter hpipe =>
      simp [hmain, Main.weight]
      omega
  | result hmain hmtx hq =>
      simp [hmain, Main.weight, hq]
  | lock hmtx hi =>
      have := sum_weight_set hi .choosing
      simp [Worker.weight] at this ⊢
      omega
  | store hmtx hi =>
      have := sum_weight_set hi .writing
      simp [Worker.weight] at this ⊢
      omega
  | leave hi hdown' =>
      rw [hdown] at hdown'
      cases hdown'
  | sleep hi hdown' hq =>
      have := sum_weight_set hi .asleep
      simp [Worker.weight] at this ⊢
      omega
  | @take i t ts hi hdown' hq =>
      have := sum_weight_set hi (.working t)
      simp [Worker.weight, hq] at this ⊢
      omega
  | @work i t r hi =>
      have := sum_weight_set hi (.storing t r)
      simp [Worker.weight] at this ⊢
      omega
  | write hi hroom =>
      have := sum_weight_set hi .choosing
      simp [Worker.weight] at this ⊢
      omega

/-- **STEP**: none of them adds a task or enters the destructor. -/
theorem pending_le {cap : ℕ} {s s' : State α ε} {e : Event α ε} {out : List (Output α ε)}
    (hstay : s.main.leaving = false) (he : e.internal = true)
    (hstep : step cap s e = some (s', out)) :
    s'.main.leaving = false ∧ s'.pending ≤ s.pending := by
  cases next_of_step hstep with
  | add => cases he
  | destroy => cases he
  | close => cases he
  | notifyAll => cases he
  | join => cases he
  | wake => cases he
  | enter hmain hmtx => exact ⟨rfl, by simp [State.pending, hmain]⟩
  | notifyNone hmain hall => exact ⟨rfl, by simp [State.pending, hmain]⟩
  | notifySome hmain hi => exact ⟨rfl, by simp [State.pending, hmain]⟩
  | read hmain hwaiter hpipe => exact ⟨rfl, by simp [State.pending, hmain]⟩
  | result hmain hmtx hq => exact ⟨rfl, by simp [State.pending, hmain]⟩
  | _ => exact ⟨hstay, le_refl _⟩

theorem Inv.up {tr : List (Output α ε)} {s : State α ε} (h : Inv tr s)
    (hstay : s.main.leaving = false) : s.shutdown = false := by
  rw [h.down, hstay]
  rfl

/-- A thread that is writing finds room in the pipe: its byte is one of the pending tasks'. -/
theorem Inv.pipe_lt {tr : List (Output α ε)} {s : State α ε} (h : Inv tr s) {i : ℕ}
    (hi : s.threads[i]? = some .writing) : s.pipe < s.pending := by
  have hpos : 0 < s.threads.countP Worker.isWriting :=
    List.countP_pos_iff.mpr ⟨_, List.mem_of_getElem? hi, rfl⟩
  have hcounted := h.counted
  have hbytes := h.bytes
  have hle : (if s.main = .notifying then 1 else 0)
      ≤ if s.main = .adding ∨ s.main = .notifying then 1 else 0 := by
    cases s.main <;> decide
  unfold State.pending
  omega

/-- The thread that has the mutex can move. -/
theorem holder_moves {cap : ℕ} {tr : List (Output α ε)} {s : State α ε} (h : Inv tr s)
    (hroom : s.pending ≤ cap) (hmtx : s.mtx = true) :
    ∃ e s' out, Event.internal e = true ∧ step cap s e = some (s', out) := by
  have hpos : 0 < s.threads.countP Worker.locks := by
    rw [h.mutex, hmtx]
    decide
  obtain ⟨w, hw, hlocks⟩ := List.countP_pos_iff.mp hpos
  obtain ⟨i, hi⟩ := List.mem_iff_getElem?.mp hw
  cases w with
  | choosing =>
      cases hdown : s.shutdown with
      | true => exact ⟨_, _, _, rfl, step_of_next (.leave hi hdown)⟩
      | false =>
          cases hq : s.workQueue with
          | nil => exact ⟨_, _, _, rfl, step_of_next (.sleep hi hdown hq)⟩
          | cons t ts => exact ⟨_, _, _, rfl, step_of_next (.take hi hdown hq)⟩
  | writing =>
      exact ⟨_, _, _, rfl, step_of_next (.write hi (Nat.lt_of_lt_of_le (h.pipe_lt hi) hroom))⟩
  | _ => cases hlocks

/-- So can any thread that is neither asleep nor finished while the mutex is free. -/
theorem thread_moves {cap : ℕ} {s : State α ε} {w : Worker α ε} (hmtx : s.mtx = false)
    (hw : w ∈ s.threads) (hlocks : w.locks = false) (hasleep : w.isAsleep = false)
    (hfin : w.isFinished = false) (r : Except ε α) :
    ∃ e s' out, Event.internal e = true ∧ step cap s e = some (s', out) := by
  obtain ⟨i, hi⟩ := List.mem_iff_getElem?.mp hw
  cases w with
  | locking => exact ⟨_, _, _, rfl, step_of_next (.lock hmtx hi)⟩
  | working t => exact ⟨_, _, _, rfl, step_of_next (.work (r := r) hi)⟩
  | storing t r => exact ⟨_, _, _, rfl, step_of_next (.store hmtx hi)⟩
  | asleep => cases hasleep
  | finished => cases hfin
  | choosing => cases hlocks
  | writing => cases hlocks

/-- **PROGRESS**: while a task is not resumed, something can happen in the pool. -/
theorem can_move {cap : ℕ} {tr : List (Output α ε)} {s : State α ε} (h : Inv tr s)
    (hstay : s.main.leaving = false) (hroom : s.pending ≤ cap)
    (hbusy : s.numTasks ≠ 0 ∨ s.main ≠ .running) (r : Except ε α) :
    ∃ e s' out, Event.internal e = true ∧ step cap s e = some (s', out) := by
  have hdown := h.up hstay
-- whoever has the mutex can go on; where nobody has it, the main thread's own next move
-- is possible, or a worker's
  cases hmtx : s.mtx with
  | true => exact holder_moves h hroom hmtx
  | false =>
      have hnone : ∀ w ∈ s.threads, w.locks = false := by
        have hcount := h.mutex
        rw [hmtx] at hcount
        intro w hw
        cases hl : w.locks with
        | false => rfl
        | true => exact absurd (List.countP_pos_iff.mpr ⟨w, hw, hl⟩) (by rw [hcount]; decide)
      have hquiet : s.threads.countP Worker.isWriting = 0 := by
        refine List.countP_eq_zero.mpr (fun w hw => ?_)
        have := hnone w hw
        cases w with
        | writing => cases this
        | _ => exact nofun
      cases hmain : s.main with
      | adding => exact ⟨_, _, _, rfl, step_of_next (.enter hmain hmtx)⟩
      | notifying =>
          by_cases hall : ∃ w ∈ s.threads, w.isAsleep = true
          · obtain ⟨w, hw, hasleep⟩ := hall
            obtain ⟨i, hi⟩ := List.mem_iff_getElem?.mp hw
            cases w with
            | asleep => exact ⟨_, _, _, rfl, step_of_next (.notifySome hmain hi)⟩
            | _ => cases hasleep
          · refine ⟨_, _, _, rfl, step_of_next (.notifyNone hmain (fun w hw => ?_))⟩
            exact Bool.eq_false_iff.mpr (fun hasleep => hall ⟨w, hw, hasleep⟩)
      | reading =>
-- the byte that was read stands for a result in the queue
          have hbytes := h.bytes
          rw [if_pos hmain] at hbytes
          cases hq : s.resultQueue with
          | nil =>
              rw [hq, List.length_nil] at hbytes
              omega
          | cons p rest => exact ⟨_, _, _, rfl, step_of_next (.result hmain hmtx hq)⟩
      | running =>
          have hne : s.main ≠ .notifying := by rw [hmain]; exact nofun
          have hcounted := h.counted
          have hbytes := h.bytes
          rw [hquiet] at hbytes
          simp only [hmain, reduceCtorEq, if_false, Nat.add_zero] at hcounted hbytes
          have hnum : s.numTasks ≠ 0 := hbusy.resolve_right (fun hm => hm hmain)
-- a task not resumed has its byte in the pipe, or is at work, or is queued and then not
-- all threads sleep
          by_cases hpipe : 0 < s.pipe
          · have hwaiter : s.ioWaiter = true := by
              rw [h.watcher hstay]
              exact decide_eq_true hnum
            exact ⟨_, _, _, rfl, step_of_next (.read hmain hwaiter hpipe)⟩
          · by_cases htasks : s.threads.flatMap Worker.task = []
            · have hq : s.workQueue ≠ [] := by
                intro hq
                rw [hq, htasks, ← hbytes] at hcounted
                simp only [List.length_nil] at hcounted
                omega
              obtain ⟨w, hw, hasleep⟩ := h.awake hdown hq hne
              exact thread_moves hmtx hw (hnone w hw) hasleep (h.alive hdown w hw) r
            · obtain ⟨t, ht⟩ := List.exists_mem_of_ne_nil _ htasks
              obtain ⟨w, hw, htw⟩ := List.mem_flatMap.mp ht
              have hasleep : w.isAsleep = false := by
                cases w with
                | asleep => cases htw
                | _ => rfl
              exact thread_moves hmtx hw (hnone w hw) hasleep (h.alive hdown w hw) r
      | closing => exact absurd hstay (by rw [hmain]; exact nofun)
      | notifyingAll => exact absurd hstay (by rw [hmain]; exact nofun)
      | joining => exact absurd hstay (by rw [hmain]; exact nofun)
      | gone => exact absurd hstay (by rw [hmain]; exact nofun)

/-- What the pool does by itself ends. -/
theorem length_le_left {cap : ℕ} {es' : List (Event α ε)} :
    ∀ {s s' : State α ε} {tr tr' : List (Output α ε)}, Inv tr s → s.main.leaving = false →
      (∀ e ∈ es', Event.internal e = true) → run cap s es' = some (s', tr') →
        es'.length + s'.left ≤ s.left ∧ s'.main.leaving = false ∧ s'.pending ≤ s.pending := by
  induction es' with
  | nil =>
      intro s s' tr tr' _ hstay _ hrun
      cases hrun
      exact ⟨by simp, hstay, le_refl _⟩
  | cons e es' ih =>
      intro s s' tr tr' h hstay hes hrun
      obtain ⟨s₁, out, tr₁, hs, hr, rfl⟩ := Machine.run_cons hrun
      have he := hes e List.mem_cons_self
      have hlt := left_lt (h.up hstay) he hs
      obtain ⟨hstay₁, hpending⟩ := pending_le hstay he hs
      obtain ⟨hle, hstay', hpending'⟩ :=
        ih (inv_step h hs) hstay₁ (fun e he => hes e (List.mem_cons_of_mem _ he)) hr
      refine ⟨?_, hstay', hpending'.trans hpending⟩
      rw [List.length_cons]
      omega

/-- **HEADLINE**: left to itself the pool makes so many moves at most, in whatever order,
    and when it can make no more, every task that was ever added has been resumed and
    the watcher is stopped.  First stages come to an end (with `r`, say), and no more tasks
    are pending than the pipe takes bytes. -/
theorem run_drains {cap : ℕ} (r : Except ε α) {es es' : List (Event α ε)} {s s' : State α ε}
    {tr tr' : List (Output α ε)} (hrun : run cap .init es = some (s, tr))
    (hstay : s.main.leaving = false) (hroom : s.pending ≤ cap)
    (hes' : ∀ e ∈ es', Event.internal e = true) (hrun' : run cap s es' = some (s', tr')) :
    es'.length ≤ s.left
      ∧ ((∀ e, Event.internal e = true → step cap s' e = none) →
        (((tr ++ tr').filterMap Output.resumes).map Prod.fst).Perm (List.range s'.tasks)
          ∧ s'.numTasks = 0 ∧ s'.ioWaiter = false) := by
  obtain ⟨hle, hstay', hpending⟩ := length_le_left (inv_of_run hrun) hstay hes' hrun'
  refine ⟨by omega, fun hstuck => ?_⟩
  have h := inv_of_run (Machine.run_append hrun hrun')
-- stuck, the pool has nothing pending
  have hidle : ¬ (s'.numTasks ≠ 0 ∨ s'.main ≠ .running) := by
    intro hbusy
    obtain ⟨e, s₂, out, he, hs⟩ := can_move h hstay' (hpending.trans hroom) hbusy r
    rw [hstuck e he] at hs
    cases hs
  have hnum : s'.numTasks = 0 := by
    by_contra hne
    exact hidle (.inl hne)
  have hcounted := h.counted
  rw [hnum] at hcounted
  have hmain : s'.main ≠ .notifying := by
    intro hm
    exact hidle (.inr (by rw [hm]; exact nofun))
  rw [if_neg hmain] at hcounted
  have hwork : s'.workQueue = [] := List.length_eq_zero_iff.mp (by omega)
  have hthreads : s'.threads.flatMap Worker.task = [] := List.length_eq_zero_iff.mp (by omega)
  have hresults : s'.resultQueue = [] := List.length_eq_zero_iff.mp (by omega)
-- with all queues empty the three orders of `Inv` are one
  refine ⟨?_, hnum, ?_⟩
  · have hat := h.atWork
    have htaken := h.taken
    have hresumed := h.resumed
    rw [hwork, List.append_nil] at htaken
    rw [hresults, List.append_nil] at hresumed
    rw [hthreads, List.append_nil, hresumed, ← htaken] at hat
    exact hat.symm
  · rw [h.watcher hstay', hnum]
    rfl

/-- Nothing moves by itself where all threads sleep and no byte waits. -/
theorem step_idle {cap : ℕ} {s : State α ε} {e : Event α ε} (hmain : s.main = .running)
    (hpipe : s.pipe = 0) (hall : ∀ w ∈ s.threads, w.isAsleep = true)
    (he : e.internal = true) : step cap s e = none := by
  have hno : ∀ {i : ℕ} {w : Worker α ε}, s.threads[i]? = some w → w.isAsleep = true :=
    fun hi => hall _ (List.mem_of_getElem? hi)
  refine Option.eq_none_iff_forall_ne_some.mpr (fun ⟨s', out⟩ hstep => ?_)
  cases next_of_step hstep with
  | add => cases he
  | destroy => cases he
  | close => cases he
  | notifyAll => cases he
  | join => cases he
  | wake => cases he
  | enter hm => rw [hmain] at hm; cases hm
  | notifyNone hm => rw [hmain] at hm; cases hm
  | notifySome hm => rw [hmain] at hm; cases hm
  | read _ _ hpos => omega
  | result hm => rw [hmain] at hm; cases hm
  | lock _ hi => cases hno hi
  | store _ hi => cases hno hi
  | leave hi => cases hno hi
  | sleep hi => cases hno hi
  | take hi => cases hno hi
  | work hi => cases hno hi
  | write hi => cases hno hi

/-- All threads have gone to sleep when a task is added. -/
def sampleStart : List (Event ℕ ℕ) :=
  (List.range 16).flatMap (fun i => [.lock i, .choose i]) ++ [.add]

/-- One of them is woken for it. -/
def sampleRest : List (Event ℕ ℕ) :=
  [.enter, .notify (some 3), .lock 3, .choose 3, .work 3 (.ok 7), .lock 3, .write 3, .choose 3,
    .read, .result]

theorem run_drains_sample :
    ∃ s tr s' tr', run 65536 .init sampleStart = some (s, tr)
      ∧ run 65536 s sampleRest = some (s', tr') ∧ 10 ≤ s.left
      ∧ (((tr ++ tr').filterMap Output.resumes).map Prod.fst).Perm (List.range 1)
      ∧ s'.numTasks = 0 ∧ s'.ioWaiter = false := by
  obtain ⟨s, tr, hrun, hstay, hroom, s', tr', hrun', htasks, hmain, hpipe, hall⟩ :
      ∃ s tr, run 65536 .init sampleStart = some (s, tr) ∧ s.main.leaving = false
        ∧ s.pending = 1 ∧ ∃ s' tr', run 65536 s sampleRest = some (s', tr') ∧ s'.tasks = 1
          ∧ s'.main = .running ∧ s'.pipe = 0 ∧ s'.threads.all Worker.isAsleep = true :=
    ⟨_, _, rfl, rfl, rfl, _, _, rfl, rfl, rfl, rfl, rfl⟩
  have hinternal : ∀ e ∈ sampleRest, Event.internal e = true := by
    simp [sampleRest, Event.internal]
  obtain ⟨hle, hdrained⟩ := run_drains (.ok 0) hrun hstay (by rw [hroom]; decide) hinternal hrun'
  have hdone := hdrained (fun e he => step_idle hmain hpipe (List.all_eq_true.mp hall) he)
  rw [htasks] at hdone
  exact ⟨s, tr, s', tr', hrun, hrun', hle, hdone⟩

/-! ## A full pipe -/

/-- A thread is in `write` with the pipe full, and the main thread waits for the mutex. -/
def Blocked (cap : ℕ) (s : State α ε) : Prop :=
  (s.main = .adding ∨ s.main = .reading ∨ s.main = .closing) ∧ s.mtx = true ∧ cap ≤ s.pipe
    ∧ ∀ w ∈ s.threads, w ≠ .choosing

theorem Blocked.of_set {cap : ℕ} {s : State α ε} (h : Blocked cap s) (i : ℕ) {w : Worker α ε}
    (hw : w ≠ .choosing) : Blocked cap { s with threads := s.threads.set i w } := by
  obtain ⟨hmain, hmtx, hfull, hnone⟩ := h
  refine ⟨hmain, hmtx, hfull, fun x hx => ?_⟩
  rcases List.mem_or_eq_of_mem_set hx with hx | rfl
  · exact hnone x hx
  · exact hw

/-- **STEP**: threads that are at a first stage may end it, and that is all. -/
theorem blocked_step {cap : ℕ} {s s' : State α ε} {e : Event α ε} {out : List (Output α ε)}
    (h : Blocked cap s) (hstep : step cap s e = some (s', out)) :
    Blocked cap s' ∧ out.filterMap Output.resumes = [] := by
  have hfree : s.mtx ≠ false := by rw [h.2.1]; exact nofun
  have hnone : ∀ {i : ℕ}, s.threads[i]? ≠ some .choosing :=
    fun hi => h.2.2.2 _ (List.mem_of_getElem? hi) rfl
  have hmain : ∀ {m : Main}, s.main = m → m = .adding ∨ m = .reading ∨ m = .closing :=
    fun hm => hm ▸ h.1
  cases next_of_step hstep with
  | add hm => exact absurd (hmain hm) (by decide)
  | notifyNone hm => exact absurd (hmain hm) (by decide)
  | notifySome hm => exact absurd (hmain hm) (by decide)
  | read hm => exact absurd (hmain hm) (by decide)
  | destroy hm => exact absurd (hmain hm) (by decide)
  | notifyAll hm => exact absurd (hmain hm) (by decide)
  | join hm => exact absurd (hmain hm) (by decide)
  | enter _ hmtx => exact absurd hmtx hfree
  | result _ hmtx => exact absurd hmtx hfree
  | close _ hmtx => exact absurd hmtx hfree
  | lock hmtx => exact absurd hmtx hfree
  | store hmtx => exact absurd hmtx hfree
  | leave hi => exact absurd hi hnone
  | sleep hi => exact absurd hi hnone
  | take hi => exact absurd hi hnone
  | write _ hroom => exact absurd h.2.2.1 (Nat.not_le.mpr hroom)
  | wake hi => exact ⟨h.of_set _ nofun, rfl⟩
  | work hi => exact ⟨h.of_set _ nofun, rfl⟩

/-- So it stays: nothing is resumed any more, whatever happens. -/
theorem blocked_run {cap : ℕ} {es : List (Event α ε)} :
    ∀ {s s' : State α ε} {tr : List (Output α ε)}, Blocked cap s →
      run cap s es = some (s', tr) → Blocked cap s' ∧ tr.filterMap Output.resumes = [] := by
  induction es with
  | nil =>
      intro s s' tr h hrun
      cases hrun
      exact ⟨h, rfl⟩
  | cons e es ih =>
      intro s s' tr h hrun
      obtain ⟨s₁, out, tr₁, hs, hr, rfl⟩ := Machine.run_cons hrun
      obtain ⟨h₁, hout⟩ := blocked_step h hs
      obtain ⟨h', htr⟩ := ih h₁ hr
      exact ⟨h', by rw [List.filterMap_append, hout, htr, List.append_nil]⟩

/-- Two results for a pipe of one byte, while a third task is added. -/
example : ∃ s tr, run (α := ℕ) (ε := ℕ) 1 .init
    [.add, .enter, .notify none, .add, .enter, .notify none, .lock 0, .choose 0, .lock 1,
      .choose 1, .work 0 (.ok 7), .work 1 (.ok 8), .lock 0, .write 0, .choose 0, .lock 1, .add]
      = some (s, tr) ∧ Blocked 1 s := by
  refine ⟨_, _, rfl, .inl rfl, rfl, le_refl _, fun w hw => ?_⟩
  rintro rfl
  simp [State.init] at hw

end ThreadPool
