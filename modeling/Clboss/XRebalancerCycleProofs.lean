import Clboss.GuardProofs
import Clboss.XRebalancerPlanProofs

/-! # `Boss::Mod::XRebalancer` — one cycle at a time

    Cycles are started by the Poisson loop (MATCHED ones) and by forwards that
    were observed (DEMAND ones).  Both set `in_flight` before their first await
    and clear it after the last one, behind a handler of `std::exception`.

    The driver is a machine over the guard of `GuardProofs`: its state is that
    of the guard, with the cycles as the runs, plus what the cycles read (the
    options, which may change at every await) and write (the health of the
    plugin).  Lines of the log are awaits that cannot fail; what they say is
    left out.

    `Boss::Shutdown` is no `std::exception`: the cycle it ends is the only one
    that leaves the flag set. -/

namespace XRebalancer

/-! ## Options -/

def optPerHour : String := "clboss-xrebalance-per-hour"
def optFloor : String := "clboss-xrebalance-route-cost-floor"
def optWindowDays : String := "clboss-xrebalance-earnings-window-days"
def optFillLoc : String := "clboss-xrebalance-fill-loc"
def optDrainLoc : String := "clboss-xrebalance-drain-loc"
def optMaxparts : String := "clboss-xrebalance-maxparts"
def optGrant : String := "clboss-xrebalance-grant"
def optGrantWeight : String := "clboss-xrebalance-grant-weight"
def optGain : String := "clboss-xrebalance-gain"

/-- All settings of the driver. -/
structure Knobs extends Settings where
  perHour     : Double
  windowDays  : Double
  maxparts    : UInt32
  grantPpm    : Double
  grantWeight : Double
  gain        : Double

/-- The defaults set by `start`. -/
def Knobs.start : Knobs where
  perHour     := .finite 24
  floorPpm    := .finite 50
  floorAuto   := true
  windowDays  := .finite 90
  fillBand    := ⟨25, by decide, by decide⟩
  drainBand   := ⟨75, by decide, by decide⟩
  maxparts    := 80
  grantPpm    := .finite 0
  grantWeight := .finite 25
  gain        := .finite 1

/-- What `target` points to. -/
inductive Knob where
  | perHour
  | floor
  | windowDays
  | fillLoc
  | drainLoc
  | grant
  | grantWeight
  | gain
deriving DecidableEq

/-- The choice of `target`. -/
def Knob.ofName (name : String) : Option Knob :=
  if name = optPerHour then some .perHour
  else if name = optFloor then some .floor
  else if name = optWindowDays then some .windowDays
  else if name = optFillLoc then some .fillLoc
  else if name = optDrainLoc then some .drainLoc
  else if name = optGrant then some .grant
  else if name = optGrantWeight then some .grantWeight
  else if name = optGain then some .gain
  else none

/-- The value is clamped and stored. -/
def Knobs.set (k : Knobs) (v : ℚ) : Knob → Knobs
  | .perHour     => { k with perHour := .finite (max 0 v) }
  | .floor       => { k with floorPpm := .finite (max 0 v) }
  | .windowDays  => { k with windowDays := .finite (max 0 v) }
  | .fillLoc     => { k with fillBand := ((Band.ofOption (.finite v)).getD k.fillBand) }
  | .drainLoc    => { k with drainBand := ((Band.ofOption (.finite v)).getD k.drainBand) }
  | .grant       => { k with grantPpm := .finite (max 0 v) }
  | .grantWeight => { k with grantWeight := .finite v }
  | .gain        => { k with gain := .finite v }

/-- What `std::stod` reads, if it is finite. -/
def finiteValue (stod : String → Option Double) (value : String) : Option ℚ :=
  match stod value with
  | some (.finite v) => some v
  | _                => none

/-- `std::round`. -/
def roundAway (v : ℚ) : ℤ := if 0 ≤ v then ⌊v + 1 / 2⌋ else ⌈v - 1 / 2⌉

/-- `handle_option`, with the text it rejects the value with. -/
def handleOption (stod : String → Option Double) (k : Knobs) (name value : String) :
    Knobs × Option String :=
  if name = optFloor ∧ value = "auto" then ({ k with floorAuto := true }, none)
  else
    let k := if name = optFloor then { k with floorAuto := false } else k
    if name = optMaxparts then
      match finiteValue stod value with
      | none   => (k, some (name ++ ": not a valid number"))
      | some v => ({ k with maxparts := UInt32.ofInt (min 1000000 (max 1 (roundAway v))) }, none)
    else
      match Knob.ofName name with
      | none      => (k, none)
      | some knob =>
          match finiteValue stod value with
          | none   => (k, some (name ++ ": not a valid number"))
          | some v =>
              if (knob = .gain ∨ knob = .grantWeight) ∧ v ≤ 0 then
                (k, some (name ++ ": must be > 0"))
              else (k.set v knob, none)

/-! ## Rates -/

/-- The sums over a node's rows in the window. -/
structure Sums where
  inEarnings      : Int
  inForwarded     : Int
  inExpenditures  : Int
  outEarnings     : Int
  outForwarded    : Int
  outExpenditures : Int

/-- `joined`: the rate of one side, if it has one. -/
def joined (k : Knobs) (e x f cm : Double) : Option Double :=
  let g :=
    if (Double.finite 0).lt k.grantPpm then
      let w := (cm.mul k.grantWeight).div (.finite 100)
      if f.lt w then w.sub f else .finite 0
    else .finite 0
  if (Double.finite 0).lt (f.add g) then
    some ((((((e.sub x).add ((g.mul k.grantPpm).div (.finite 1000000))).mul
      (.finite 1000000)).div (f.add g))).mul k.gain)
  else none

section Driver

variable {Node : Type} [LinearOrder Node]

/-- `cap_msat`; zero for a node without channels. -/
def capMsat (rows : List (Chan Node)) (node : Node) : Double :=
  (rows.filter (fun c => c.node = node)).foldl
    (fun acc c => acc.add ((Double.ofInt c.capSat).mul (.finite 1000))) (.finite 0)

/-- `net`: the nodes of the table, and with a grant the other ones we have
    channels with. -/
def netPpm (k : Knobs) (rows : List (Chan Node)) (sums : List (Node × Sums)) (node : Node) :
    Option NetPpm :=
  let cm := capMsat rows node
  match sums.find? (fun r => r.1 = node) with
  | some (_, r) => some
      { inNet := joined k (.ofInt r.inEarnings) (.ofInt r.inExpenditures) (.ofInt r.inForwarded) cm
        outNet :=
          joined k (.ofInt r.outEarnings) (.ofInt r.outExpenditures) (.ofInt r.outForwarded) cm }
  | none =>
      if (Double.finite 0).lt k.grantPpm ∧ node ∈ rows.map Chan.node then
        some
          { inNet  := joined k (.finite 0) (.finite 0) (.finite 0) cm
            outNet := joined k (.finite 0) (.finite 0) (.finite 0) cm }
      else none

/-! ## The plan of a demand cycle -/

/-- `rung_pct`. -/
def rungPct : List Double := [.finite 20, .finite 50, .finite 80]

/-- `keep`: how much of the drain pool is offered. -/
def keep (size : Nat) (rung : Double) : Nat :=
  min size (max 1 (((Double.ofInt size).mul rung).div (.finite 100)).ceil.toInt64.toNat)

/-- A demand cycle that is executed. -/
structure Demand (Node : Type) where
  target  : PoolItem Node
  sources : List (PoolItem Node)
  maxfee  : UInt32

/-- `plan_demand`: the cycle it executes, if any. -/
def planDemand (fill drain : List (PoolItem Node)) (scid : String) (rung : Double) :
    Option (Demand Node) :=
  (fill.find? (fun it => it.pr.chans.any (fun c => c.scid = scid))).bind (fun target =>
    let sources := drain.take (keep drain.length rung)
    sources.getLast?.map (fun cheapest =>
      ⟨target, sources, UInt32.ofInt (target.ppm.add cheapest.ppm).llround⟩))

/-- What is executed. -/
inductive Job (Node : Type) where
  | matched (p : Plan Node)
  | demand (d : Demand Node)

/-- The parameters of the `xrebalance` call. -/
def Job.request (maxparts : UInt32) : Job Node → Request
  | .matched p => executeCycle maxparts p
  | .demand d  =>
      { sources      :=
          (d.sources.flatMap PoolItem.caps).map (fun c => ⟨c.scid, UInt64.ofInt c.maxSat * 1000⟩)
        destinations := d.target.caps.map (fun c => ⟨c.scid, UInt64.ofInt c.maxSat * 1000⟩)
        amountMsat   := UInt64.ofInt d.target.deficit * 1000
        maxfeePpm    := d.maxfee.toUInt64
        maxparts     := maxparts }

/-- The lines of the log between the plan and the call. -/
def Job.lines : Job Node → Nat
  | .matched _ => 3
  | .demand _  => 2

/-- What planning ends with: lines of the log, or a job. -/
inductive Verdict (Node : Type) where
  | noCycle (lines : Nat)
  | execute (job : Job Node)

/-- The ladder is finished within `fuel` rounds and the rung is one of it. -/
def cutKnown (s : Settings) (fuel : Nat) (d : Draws Node) : Bool :=
  let fc := cum 0 d.fill
  let dc := cum 0 d.drain
  ((deriveLadder fuel (curve fc dc (breakpoints fc dc))).bind
    (fun ladder => effectiveFloor s ladder d.rung)).isSome

/-- `plan_and_log`, once the unmanaged nodes are known; `none` for draws that
    cannot be. -/
def planAndLog (s : Settings) (rows : List (Chan Node)) (net : Node → Option NetPpm)
    (demandScid : String) (unmanaged : Finset Node) (fuel : Nat) (d : Draws Node) :
    Option (Verdict Node) :=
  if SortedBy (fillPool s rows net unmanaged) d.fill
      ∧ SortedBy (drainPool s rows net unmanaged) d.drain then
    if d.fill = [] ∨ d.drain = [] then some (.noCycle 1)
    else if demandScid ≠ "" then
      (rungPct[d.rung]?).map (fun rung =>
        match planDemand d.fill d.drain demandScid rung with
        | none        => .noCycle 1
        | some demand => .execute (.demand demand))
    else if cutKnown s fuel d then
      match planMatched s rows net unmanaged fuel d with
      | none   => some (.noCycle 2)
      | some p => some (.execute (.matched p))
    else none
  else none

/-! ## The health of the plugin -/

inductive PluginState where
  | unknown
  | present
  | absent

structure Health where
  plugin              : PluginState
  lastResponse        : Double
  consecutiveFailures : Nat
  lastError           : String
  absentCycles        : Nat
  lastAbsentWarn      : Double

def Health.start : Health := ⟨.unknown, .finite (-1), 0, "", 0, .finite (-1)⟩

/-- `plugin_answered`. -/
def Health.answered (now : Double) : Health := ⟨.present, now, 0, "", 0, .finite (-1)⟩

/-- `is_unknown_command`. -/
def isUnknownCommand (msg : String) : Bool :=
  decide ("unknown command".toList <:+: msg.toList.map Char.toLower)

/-- `absent_warn_interval_secs`. -/
def absentWarnIntervalSecs : Double := .finite 3600

/-- `plugin_refused`. -/
def Health.refused (h : Health) (now : Double) (msg : String) : Health :=
  let h := { h with consecutiveFailures := h.consecutiveFailures + 1, lastError := msg }
  if !isUnknownCommand msg then { h with plugin := .present }
  else
    let h := { h with plugin := .absent, absentCycles := h.absentCycles + 1 }
    if h.absentCycles = 1 ∨ absentWarnIntervalSecs.le (now.sub h.lastAbsentWarn) then
      { h with lastAbsentWarn := now }
    else h

/-- The handler of other exceptions in `execute_cycle`. -/
def Health.failed (h : Health) (what : String) : Health :=
  { h with consecutiveFailures := h.consecutiveFailures + 1, lastError := what }

/-- `log_plugin_result`, by what it throws. -/
def Health.read (h : Health) : Option String → Health
  | none      => h
  | some what => h.failed what

/-! ## Cycles -/

inductive RebalanceMode where
  | xrebalance
  | off

/-- What starts a cycle. -/
inductive Trigger where
  | matched
  | demand (scid : String)
deriving DecidableEq

/-- `demand_scid`. -/
def Trigger.demandScid : Trigger → String
  | .matched     => ""
  | .demand scid => scid

/-- What a cycle awaits; lines of the log are counted. -/
inductive Stage (Node : Type) where
  | mode
  | listing
  | transacting (chans : List (Chan Node))
  | unmanaging (chans : List (Chan Node)) (net : Node → Option NetPpm)
  | excluding (chans : List (Chan Node)) (net : Node → Option NetPpm) (unmanaged : Finset Node)
  | announcing (job : Job Node) (lines : Nat)
  | executing
  | answering (thrown : Option String)
  | closing (lines : Nat)

/-- How an await ends: a log line written, an answer as it is read (of the last
    one, what reading it throws), an error of `lightningd`, another
    `std::exception`, or `Boss::Shutdown`. -/
inductive Reply (Node : Type) where
  | done
  | mode (m : RebalanceMode)
  | channels (rows : List (Chan Node))
  | earnings (sums : List (Node × Sums))
  | unmanaged (nodes : Finset Node)
  | result (thrown : Option String)
  | rpcError (msg : String)
  | exception (what : String)
  | shutdown

/-- A reply, with the time it comes at and what is left to chance in the code
    that follows. -/
structure Answer (Node : Type) where
  reply : Reply Node
  now   : Double
  fuel  : Nat
  draws : Draws Node

def Answer.isShutdown (a : Answer Node) : Bool :=
  match a.reply with
  | .shutdown => true
  | _         => false

/-- What the code after `plan_and_log` awaits. -/
def Verdict.stage : Verdict Node → Stage Node
  | .noCycle lines => .closing lines
  | .execute job   => .announcing job job.lines

/-- A cycle, under the settings and the health of the moment.  An exception
    goes to the handler of `execute_cycle` or to that of the cycle; both write
    a line and go on to the reset. -/
def resume : Trigger × Stage Node → (Knobs × Health) × Answer Node →
    Option (Guard.Next (Trigger × Stage Node))
  | (t, stage), ((k, h), a) =>
      let plan (rows : List (Chan Node)) (net : Node → Option NetPpm) (unmanaged : Finset Node) :=
        (planAndLog k.toSettings rows net t.demandScid unmanaged a.fuel a.draws).map
          (fun verdict => Guard.Next.await (t, verdict.stage))
      match stage, a.reply with
      | .mode, .mode .xrebalance => some (.await (t, .listing))
      | .mode, .mode .off =>
          match t with
          | .matched  => some (.await (t, .closing 1))
          | .demand _ => some .release
      | .mode, .exception _ => some (.await (t, .closing 1))
      | .mode, .shutdown => some .escape
      | .listing, .channels rows =>
          some (.await (t, if rows = [] then .closing 1 else .transacting rows))
      | .listing, .rpcError _ => some (.await (t, .closing 1))
      | .listing, .exception _ => some (.await (t, .closing 1))
      | .listing, .shutdown => some .escape
      | .transacting rows, .earnings sums =>
          some (.await (t, .unmanaging rows (netPpm k rows sums)))
      | .transacting _, .exception _ => some (.await (t, .closing 1))
      | .unmanaging rows net, .unmanaged nodes =>
          if rows.any (fun c => c.node ∈ nodes) then
            some (.await (t, .excluding rows net nodes))
          else plan rows net nodes
      | .unmanaging _ _, .exception _ => some (.await (t, .closing 1))
      | .unmanaging _ _, .shutdown => some .escape
      | .excluding rows net nodes, .done => plan rows net nodes
      | .excluding _ _ _, .exception _ => some (.await (t, .closing 1))
      | .announcing job lines, .done =>
          some (.await (t, if lines ≤ 1 then .executing else .announcing job (lines - 1)))
      | .executing, .result thrown =>
          some (.await (t, if 0 < h.absentCycles then .answering thrown else .closing 1))
      | .executing, .rpcError _ => some (.await (t, .closing 1))
      | .executing, .exception _ => some (.await (t, .closing 1))
      | .executing, .shutdown => some .escape
      | .answering _, .done => some (.await (t, .closing 1))
      | .closing lines, .done =>
          some (if lines ≤ 1 then .release else .await (t, .closing (lines - 1)))
      | _, _ => none

/-- The cycles of `tick` and `demand_cycle`; a trigger that finds one in flight
    is discarded. -/
def program : Guard.Program Trigger (Trigger × Stage Node) ((Knobs × Health) × Answer Node) where
  start   := fun t => (t, .mode)
  resume  := resume
  retries := false

/-- What a reply does to the health of the plugin; a result is read after the
    line that the plugin is back. -/
def Health.after (h : Health) (a : Answer Node) : Stage Node → Health
  | .executing =>
      match a.reply with
      | .result thrown =>
          if 0 < h.absentCycles then Health.answered a.now
          else (Health.answered a.now).read thrown
      | .rpcError msg   => h.refused a.now msg
      | .exception what => h.failed what
      | _               => h
  | .answering thrown => h.read thrown
  | _                 => h

/-! ## The driver -/

/-- Where the loop greenthread is. -/
inductive Loop where
  | unborn
  | starting
  | waiting
  | skipping
  | ticking
  | ended
deriving DecidableEq

/-- The end of a matched cycle is the end of the tick that awaits it. -/
def Loop.after (l : Loop) (t : Trigger) (out : List (Guard.Out Trigger)) : Loop :=
  match t, out with
  | .matched, [.released] => .waiting
  | .matched, [.escaped]  => .ended
  | _, _                  => l

structure State (Node : Type) where
  knobs   : Knobs
  health  : Health
  started : Bool
  loop    : Loop
  /-- its flag is `in_flight` -/
  guard   : Guard.State Trigger (Trigger × Stage Node)

/-- `start`. -/
def State.start : State Node := ⟨.start, .start, false, .unborn, .init⟩

/-- What can happen next. -/
inductive Event (Node : Type) where
  | init
  | announced
  | option (name value : String)
  | demandObserved (scid : String)
  | waited
  | waitShutdown
  | skipped
  | resume (n : Nat) (answer : Answer Node)

def Event.isShutdown : Event Node → Bool
  | .resume _ answer => answer.isShutdown
  | _                => false

/-- What is shown: starts and ends of cycles, and the calls of `xrebalance`. -/
inductive Out where
  | cycle (o : Guard.Out Trigger)
  | call (r : Request)

/-- The starts and ends. -/
def Out.cycle? : Out → Option (Guard.Out Trigger)
  | .cycle o => some o
  | .call _  => none

/-- The call that follows the last line before it, with the `maxparts` of then. -/
def calls (k : Knobs) : Stage Node → List Out
  | .announcing job lines => if lines ≤ 1 then [.call (job.request k.maxparts)] else []
  | _                     => []

/-- One step. -/
def step (stod : String → Option Double) (s : State Node) :
    Event Node → Option (State Node × List Out)
  | .init =>
      some (if s.started then s else { s with started := true, loop := .starting }, [])
  | .announced =>
      if s.loop = .starting then some ({ s with loop := .waiting }, []) else none
  | .option name value =>
      some ({ s with knobs := (handleOption stod s.knobs name value).1 }, [])
  | .demandObserved scid =>
      if s.started then
        (Guard.step program s.guard (.trigger (.demand scid))).map (fun r =>
          ({ s with guard := r.1 }, r.2.map Out.cycle))
      else some (s, [])
  | .waited =>
      if s.loop = .waiting then
        if s.knobs.perHour.le (.finite 0) then some (s, [])
        else (Guard.step program s.guard (.trigger .matched)).map (fun r =>
          ({ s with guard := r.1, loop := if s.guard.flag then .skipping else .ticking },
            r.2.map Out.cycle))
      else none
  | .waitShutdown =>
      if s.loop = .waiting then some ({ s with loop := .ended }, []) else none
  | .skipped =>
      if s.loop = .skipping then some ({ s with loop := .waiting }, []) else none
  | .resume n a =>
      (s.guard.runs[n]?).bind (fun pc =>
        (Guard.step program s.guard (.resume n ((s.knobs, s.health), a))).map (fun r =>
          ({ s with
              guard  := r.1
              health := s.health.after a pc.2
              loop   := s.loop.after pc.1 r.2 }, calls s.knobs pc.2 ++ r.2.map Out.cycle)))

/-- Runs from the start of the plugin. -/
def run (stod : String → Option Double) (es : List (Event Node)) :
    Option (State Node × List Out) :=
  Machine.run (step stod) State.start es

/-! ## Only `Boss::Shutdown` escapes -/

omit [LinearOrder Node] in
theorem planned_ne_escape {t : Trigger} {verdict : Option (Verdict Node)}
    {next : Guard.Next (Trigger × Stage Node)}
    (h : verdict.map (fun v => Guard.Next.await (t, v.stage)) = some next) : next ≠ .escape := by
  obtain ⟨v, -, rfl⟩ := Option.map_eq_some_iff.mp h
  rintro ⟨⟩

/-- **SPEC**: the handlers let nothing else pass, and nothing of it. -/
theorem resume_escape_iff {pc : Trigger × Stage Node} {c : Knobs × Health} {a : Answer Node}
    {next : Guard.Next (Trigger × Stage Node)} (h : resume pc (c, a) = some next) :
    next = .escape ↔ a.isShutdown = true := by
  obtain ⟨t, stage⟩ := pc
  obtain ⟨reply, now, fuel, draws⟩ := a
  -- an answer that is none of the stage's own cannot come
  cases stage with
  | mode =>
      cases reply with
      | mode m =>
          cases m with
          | xrebalance =>
              cases h
              simp [Answer.isShutdown]
          | off =>
              cases t with
              | matched | demand _ =>
                  cases h
                  simp [Answer.isShutdown]
      | exception _ | shutdown =>
          cases h
          simp [Answer.isShutdown]
      | _ => cases h
  | listing =>
      cases reply with
      | channels _ | rpcError _ | exception _ | shutdown =>
          cases h
          simp [Answer.isShutdown]
      | _ => cases h
  | transacting rows =>
      cases reply with
      | earnings _ | exception _ =>
          cases h
          simp [Answer.isShutdown]
      | _ => cases h
  | unmanaging rows net =>
      cases reply with
      | unmanaged nodes =>
          simp only [resume] at h
          split at h
          · cases h
            simp [Answer.isShutdown]
          · simp [Answer.isShutdown, planned_ne_escape h]
      | exception _ | shutdown =>
          cases h
          simp [Answer.isShutdown]
      | _ => cases h
  | excluding rows net nodes =>
      cases reply with
      | done => simp [Answer.isShutdown, planned_ne_escape h]
      | exception _ =>
          cases h
          simp [Answer.isShutdown]
      | _ => cases h
  | executing =>
      cases reply with
      | result _ | rpcError _ | exception _ | shutdown =>
          cases h
          simp [Answer.isShutdown]
      | _ => cases h
  | announcing _ _ | answering _ =>
      cases reply with
      | done =>
          cases h
          simp [Answer.isShutdown]
      | _ => cases h
  | closing lines =>
      cases reply with
      | done =>
          simp only [resume, Option.some.injEq] at h
          subst h
          simp only [Answer.isShutdown, Bool.false_eq_true, iff_false]
          split
          · rintro ⟨⟩
          · rintro ⟨⟩
      | _ => cases h

/-! ## The driver follows the guard -/

/-- What the event is to the guard. -/
def toGuard (s : State Node) :
    Event Node → Option (Guard.Event Trigger ((Knobs × Health) × Answer Node))
  | .demandObserved scid => if s.started then some (.trigger (.demand scid)) else none
  | .waited              =>
      if s.knobs.perHour.le (.finite 0) then none else some (.trigger .matched)
  | .resume n a          => some (.resume n ((s.knobs, s.health), a))
  | _                    => none

/-- The cycles among what a step of the guard shows are all of it. -/
theorem filterMap_cycle (out : List (Guard.Out Trigger)) :
    (out.map Out.cycle).filterMap Out.cycle? = out := by
  rw [List.filterMap_map]
  exact List.filterMap_some

omit [LinearOrder Node] in
theorem filterMap_calls (k : Knobs) (stage : Stage Node) :
    (calls k stage).filterMap Out.cycle? = [] := by
  cases stage with
  | announcing job lines =>
      simp only [calls]
      split
      · rfl
      · rfl
  | _ => rfl

/-- **STEP**: what happens to the guard is a step of the guard, or nothing. -/
theorem step_toGuard {stod : String → Option Double} {s s' : State Node} {e : Event Node}
    {out : List Out} (hs : step stod s e = some (s', out)) :
    (toGuard s e = none ∧ s'.guard = s.guard ∧ out.filterMap Out.cycle? = [] ∧ e.isShutdown = false)
      ∨ ∃ ge, toGuard s e = some ge
        ∧ Guard.step program s.guard ge = some (s'.guard, out.filterMap Out.cycle?)
        ∧ (Guard.Contained program s.guard ge ↔ e.isShutdown = false) := by
  cases e with
  | init =>
      cases hs
      refine Or.inl ⟨rfl, ?_, rfl, rfl⟩
      split
      · rfl
      · rfl
  | announced | waitShutdown | skipped =>
      simp only [step] at hs
      split at hs
      · cases hs
        exact Or.inl ⟨rfl, rfl, rfl, rfl⟩
      · cases hs
  | option name value =>
      cases hs
      exact Or.inl ⟨rfl, rfl, rfl, rfl⟩
  | demandObserved scid =>
      simp only [step] at hs
      split at hs
      · rename_i hstarted
        obtain ⟨r, hr, hs⟩ := Option.map_eq_some_iff.mp hs
        cases hs
        refine Or.inr ⟨.trigger (.demand scid), if_pos hstarted, ?_, ?_⟩
        · rw [filterMap_cycle]
          exact hr
        · exact ⟨fun _ => rfl, fun _ => trivial⟩
      · rename_i hstarted
        cases hs
        exact Or.inl ⟨if_neg hstarted, rfl, rfl, rfl⟩
  | waited =>
      simp only [step] at hs
      split at hs
      · split at hs
        · rename_i hrate
          cases hs
          exact Or.inl ⟨if_pos hrate, rfl, rfl, rfl⟩
        · rename_i hrate
          obtain ⟨r, hr, hs⟩ := Option.map_eq_some_iff.mp hs
          cases hs
          refine Or.inr ⟨.trigger .matched, if_neg hrate, ?_, ?_⟩
          · rw [filterMap_cycle]
            exact hr
          · exact ⟨fun _ => rfl, fun _ => trivial⟩
      · cases hs
  | resume n a =>
      obtain ⟨pc, hpc, hs⟩ := Option.bind_eq_some_iff.mp hs
      obtain ⟨r, hr, hs⟩ := Option.map_eq_some_iff.mp hs
      cases hs
      refine Or.inr ⟨_, rfl, ?_, ?_⟩
      · rw [List.filterMap_append, filterMap_calls, filterMap_cycle]
        exact hr
      · -- the one cycle that is resumed escapes, or none does
        obtain ⟨pc', hpc', hr⟩ := Option.bind_eq_some_iff.mp hr
        obtain ⟨next, hnext, -⟩ := Option.map_eq_some_iff.mp hr
        rw [hpc] at hpc'
        cases hpc'
        have hesc := resume_escape_iff (show resume pc ((s.knobs, s.health), a) = some next from hnext)
        constructor
        · intro hc
          refine Bool.eq_false_iff.mpr (fun ha => hc pc hpc ?_)
          rw [hnext, hesc.mpr ha]
        · intro ha pc' hpc' he
          rw [hpc] at hpc'
          cases hpc'
          rw [hnext] at he
          have hsh := hesc.mp (Option.some.inj he)
          rw [show a.isShutdown = false from ha] at hsh
          cases hsh

/-- **SIMULATION**: a run of the driver is one of the guard, with the same
    cycles, and exceptions escape in the one where the other is shut down. -/
theorem run_toGuard {stod : String → Option Double} {es : List (Event Node)} {s : State Node}
    {tr : List Out} (hrun : run stod es = some (s, tr)) :
    ∃ ges, Guard.run program ges = some (s.guard, tr.filterMap Out.cycle?)
      ∧ (Machine.Along (Guard.step program) (Guard.Contained program) Guard.State.init ges
        ↔ ∀ e ∈ es, e.isShutdown = false) := by
  refine Machine.run_invariant (P := fun _ _ => True)
    (I := fun es tr s => ∃ ges, Guard.run program ges = some (s.guard, tr.filterMap Out.cycle?)
      ∧ (Machine.Along (Guard.step program) (Guard.Contained program) Guard.State.init ges
        ↔ ∀ e ∈ es, e.isShutdown = false)) ?_ ?_ (Machine.along_true _ _) hrun
  · exact ⟨[], rfl, fun _ e he => absurd he List.not_mem_nil, fun _ => trivial⟩
  · rintro es tr s e s' out ⟨ges, hg, hiff⟩ - hs
    have hall : (∀ e' ∈ es ++ [e], e'.isShutdown = false)
        ↔ (∀ e' ∈ es, e'.isShutdown = false) ∧ e.isShutdown = false := by
      rw [List.forall_mem_append, List.forall_mem_singleton]
    rw [List.filterMap_append, hall]
    rcases step_toGuard hs with ⟨-, hsame, hout, hsh⟩ | ⟨ge, -, hstep, hc⟩
    · refine ⟨ges, ?_, ?_⟩
      · rw [hsame, hout, List.append_nil]
        exact hg
      · rw [hiff]
        exact ⟨fun h => ⟨h, hsh⟩, fun h => h.1⟩
    · refine ⟨ges ++ [ge], Machine.run_snoc hg hstep, ?_⟩
      rw [Machine.along_snoc hg hstep, hiff, hc]

/-! ## One cycle at a time -/

/-- **HEADLINE**: at every moment at most one cycle is between its start and its
    end, with the flag set; and the flag is back, with the next trigger free to
    start a cycle, unless `Boss::Shutdown` ended one. -/
theorem one_cycle_and_flag_clear {stod : String → Option Double} {es : List (Event Node)}
    {s : State Node} {tr : List Out} (hrun : run stod es = some (s, tr)) :
    (tr.filterMap Out.cycle?).countP Guard.Out.isStart
        = s.guard.runs.length + (tr.filterMap Out.cycle?).countP Guard.Out.isEnd
      ∧ s.guard.runs.length ≤ 1
      ∧ (s.guard.runs ≠ [] → s.guard.flag = true)
      ∧ (Guard.Ready program s.guard ↔ ∀ e ∈ es, e.isShutdown = false) := by
  obtain ⟨ges, hg, hiff⟩ := run_toGuard hrun
  obtain ⟨⟨hone, hset⟩, hready⟩ := Guard.guarded hg
  exact ⟨Guard.balanced hg, hone, hset, hready.trans hiff⟩

/-- What `std::stod` makes of the texts below. -/
def sampleStod (text : String) : Option Double := if text = "0" then some (.finite 0) else none

/-- Peer 1 earned 60 ppm going out, peer 2 earned 40 ppm coming in. -/
def sampleSums : List (Nat × Sums) :=
  [(1, ⟨0, 0, 0, 60, 1000000, 0⟩), (2, ⟨40, 1000000, 0, 0, 0, 0⟩)]

def samplePools : Draws Nat where
  fill  := fillPool Knobs.start.toSettings sampleChannels.rows
    (netPpm Knobs.start sampleChannels.rows sampleSums) ∅
  drain := drainPool Knobs.start.toSettings sampleChannels.rows
    (netPpm Knobs.start sampleChannels.rows sampleSums) ∅
  rung  := 0

/-- A cycle goes on with this reply. -/
def onward (reply : Reply Nat) : Event Nat := .resume 0 ⟨reply, .finite 0, 5, samplePools⟩

/-- A matched cycle is executed, and a demand cycle fails, while a forward is
    observed and the rate is set to zero. -/
def sampleCycles : List (Event Nat) :=
  [ .init, .announced, .waited, onward (.mode .xrebalance), .demandObserved "1x1x1"
  , onward (.channels sampleChannels.rows), .option optPerHour "0"
  , onward (.earnings sampleSums), onward (.unmanaged ∅), onward .done, onward .done, onward .done
  , onward (.result none), onward .done, .waited
  , .demandObserved "1x1x1", onward (.mode .xrebalance), onward (.exception "broken")
  , onward .done ]

theorem one_cycle_and_flag_clear_sampleCycles :
    ∃ s tr, run sampleStod sampleCycles = some (s, tr)
      ∧ tr.filterMap Out.cycle?
        = [.started .matched, .released, .started (.demand "1x1x1"), .released]
      ∧ tr.length = 5 ∧ s.guard.runs.length ≤ 1 ∧ Guard.Ready program s.guard := by
  have hrun : (run sampleStod sampleCycles).map (fun r => (r.2.filterMap Out.cycle?, r.2.length))
      = some ([.started .matched, .released, .started (.demand "1x1x1"), .released], 5) := by
    decide +kernel
  obtain ⟨⟨s, tr⟩, hrun, htr⟩ := Option.map_eq_some_iff.mp hrun
  obtain ⟨hcycles, hlen⟩ := Prod.mk.inj htr
  obtain ⟨-, hone, -, hready⟩ := one_cycle_and_flag_clear hrun
  exact ⟨s, tr, hrun, hcycles, hlen, hone, hready.mpr (by decide)⟩

/-- A demand cycle is shut down: no cycle is left, the flag is set, and the next
    forward starts none. -/
theorem in_flight_after_shutdown :
    (run sampleStod [.init, .demandObserved "1x1x1", onward .shutdown]).map
        (fun r => (r.1.guard.runs.length, r.1.guard.flag, r.2.filterMap Out.cycle?))
      = some (0, true, [.started (.demand "1x1x1"), .escaped])
    ∧ (run sampleStod
        [.init, .demandObserved "1x1x1", onward .shutdown, .demandObserved "1x1x1"]).map
        (fun r => (r.1.guard.runs.length, r.2.filterMap Out.cycle?))
      = some (0, [.started (.demand "1x1x1"), .escaped]) := by
  decide +kernel

end Driver

end XRebalancer
