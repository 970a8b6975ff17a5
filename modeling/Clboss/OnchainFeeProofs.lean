import Clboss.DoubleProofs
import Clboss.MachineProofs
import Clboss.OrderedMapProofs
import Mathlib.Data.List.Sort

/-! # `Boss::Mod::OnchainFeeMonitor` — low fees or high

    Samples of the feerate are kept for two weeks, in a table by `id`, and three
    of its percentiles judge the feerate of now.  The first judgment is against
    the middle one and comes from `on_init`, or from `retry` if the feerate was
    not known then; from then on a timer judges, against the upper one while
    fees are low and against the lower one while they are high.

    All three keep what they fetched in a variable of their own until the
    database has time for them.  `retry` never writes its variable
    (`monitored_run`). -/

namespace OnchainFeeMonitor

open Machine

/-! ## The table of samples -/

/-- `max_num_samples`. -/
def maxNumSamples : ℕ := 2016

/-- `initial_sample_data`, of `num_initial_samples`. -/
def initialSampleData : List ℚ := List.replicate 14 253

/-- `OnchainFeeMonitor_samples`: `data` by `id`, and the last `id` given out. -/
structure Samples where
  rows  : OrderedMap ℕ ℚ := OrderedMap.empty
  seq   : ℕ := 0
  below : ∀ e ∈ rows.entries, e.1 ≤ seq := by decide

/-- The samples, the oldest first. -/
def Samples.data (t : Samples) : List ℚ := t.rows.entries.map Prod.snd

/-- `get_num_samples`. -/
def Samples.getNumSamples (t : Samples) : ℕ := t.rows.size

/-- `INSERT`. -/
def Samples.insert (t : Samples) (data : ℚ) : Samples where
  rows  := t.rows.assign (t.seq + 1) data
  seq   := t.seq + 1
  below := by
    intro e he
    rcases t.rows.mem_assign.mp he with rfl | ⟨he, -⟩
    · exact le_rfl
    · exact (t.below e he).trans (Nat.le_succ _)

/-- `initialize_sample_data`. -/
def Samples.initializeSampleData (t : Samples) : Samples :=
  (initialSampleData.drop t.getNumSamples).foldl Samples.insert t

/-- `DELETE`, of one `id` after the other. -/
def Samples.delete (t : Samples) (ids : List ℕ) : Samples where
  rows  := ids.foldl OrderedMap.erase t.rows
  seq   := t.seq
  below := by
    intro e he
    rw [OrderedMap.entries_foldl_erase] at he
    exact t.below e (List.mem_of_mem_filter he)

/-- `check_num_samples`. -/
def Samples.checkNumSamples (t : Samples) : Samples :=
  if maxNumSamples < t.getNumSamples then
    t.delete ((t.rows.entries.take (t.getNumSamples - maxNumSamples)).map Prod.fst)
  else t

/-- `add_sample`. -/
def Samples.addSample (t : Samples) (feerateSample : ℚ) : Samples :=
  (t.insert feerateSample).checkNumSamples

/-! ## Percentiles -/

/-- `get_feerate_at_percentile`. -/
def getFeerateAtPercentile (data : List ℚ) (percentile : ℕ) : ℚ :=
  let numCurrentSamples := data.length
  if numCurrentSamples = 0 then 253
  else
    let index := (((Double.ofInt numCurrentSamples).mul (.finite percentile)).div
      (.finite 100)).toSize
    let index := if numCurrentSamples ≤ index then numCurrentSamples - 1 else index
    (data.insertionSort (· ≤ ·)).getD index 0

/-- `PercentileFeerates`. -/
structure PercentileFeerates where
  h2l : ℚ
  mid : ℚ
  l2h : ℚ
deriving DecidableEq

/-- `get_percentile_feerates`. -/
def getPercentileFeerates (data : List ℚ) : PercentileFeerates where
  h2l := getFeerateAtPercentile data 17
  mid := getFeerateAtPercentile data 20
  l2h := getFeerateAtPercentile data 23

/-! ## The monitor -/

/-- What comes of `get_feerate`. -/
inductive Fetch where
  | known (feerate : ℚ)
  | unknown
  /-- The command failed. -/
  | threw

/-- Where `on_init` and `retry` are; `saved` is their `saved_feerate`. -/
inductive Init where
  | before
  | fetching
  | waiting
  | refetching
  /-- Waiting for the database, after `feerate` was fetched. -/
  | querying (retried : Bool) (saved feerate : ℚ)
  | done

/-- Where an `on_timer` is. -/
inductive Timer where
  | fetching
  | querying (saved : ℚ)

/-- `Impl`. -/
structure State where
  samples      : Samples
  opened       : Bool := false
  isLowFeeFlag : Bool := false
  lastFeerate  : Option ℚ := none
  init         : Init := .before
  timers       : List Timer := []

inductive Event where
  /-- `Msg::DbResource`. -/
  | dbResource
  /-- `Msg::Init`. -/
  | init
  | initFetched (f : Fetch)
  /-- The 30 seconds of `retry` are over. -/
  | waited
  | retryFetched (f : Fetch)
  /-- The transaction of `on_init` or `retry`. -/
  | initJudges
  /-- `Msg::Timer10Minutes`. -/
  | timer10Minutes
  | timerFetched (i : ℕ) (f : Fetch)
  /-- The transaction of an `on_timer`. -/
  | timerJudges (i : ℕ)

inductive Judge where
  | init
  | retry
  | timer
deriving DecidableEq

/-- A judgment: of a fetched feerate by samples, from one flag to the next. -/
structure Judgment where
  judge   : Judge
  feerate : ℚ
  data    : List ℚ
  was     : Bool
  isLow   : Bool
deriving DecidableEq

inductive Output where
  | sampled (data : ℚ)
  | judged (j : Judgment)
  /-- `Msg::OnchainFee`. -/
  | onchainFee (isLow : Bool) (feerate : Option ℚ)
deriving DecidableEq

/-- `report_fee`. -/
def State.reportFee (s : State) : Output := .onchainFee s.isLowFeeFlag s.lastFeerate

/-- The database part of `on_init` and `retry`. -/
def State.initJudges (s : State) (retried : Bool) (saved feerate : ℚ) : State × List Output :=
  let feerates := getPercentileFeerates s.samples.data
  let isLow := if retried then decide (saved ≤ feerates.mid) else decide (saved < feerates.mid)
  let s' := { s with isLowFeeFlag := isLow, init := .done }
  (s', [.judged ⟨if retried then .retry else .init, feerate, s.samples.data, s.isLowFeeFlag, isLow⟩,
    s'.reportFee])

/-- The database part of `on_timer`. -/
def State.timerJudges (s : State) (saved : ℚ) : State × List Output :=
  let samples := s.samples.addSample saved
  let feerates := getPercentileFeerates samples.data
  let isLow :=
    if s.isLowFeeFlag then
      if feerates.l2h < saved then false else s.isLowFeeFlag
    else
      if saved ≤ feerates.h2l then true else s.isLowFeeFlag
  let s' := { s with samples := samples, isLowFeeFlag := isLow }
  (s', [.sampled saved, .judged ⟨.timer, saved, samples.data, s.isLowFeeFlag, isLow⟩,
    s'.reportFee])

def step (s : State) : Event → Option (State × List Output)
  | .dbResource => some ({ s with samples := s.samples.initializeSampleData, opened := true }, [])
  | .init =>
      match s.init, s.opened with
      | .before, true => some ({ s with init := .fetching }, [])
      | _, _          => none
  | .initFetched f =>
      match s.init with
      | .fetching =>
          match f with
          | .known feerate =>
              some ({ s with
                init := .querying false feerate feerate
                lastFeerate := some feerate }, [])
          | .unknown => some ({ s with init := .waiting }, [])
          | .threw   => some ({ s with init := .done }, [])
      | _ => none
  | .waited =>
      match s.init with
      | .waiting => some ({ s with init := .refetching }, [])
      | _        => none
  | .retryFetched f =>
      match s.init with
      | .refetching =>
          match f with
          -- `saved_feerate` is as it was made
          | .known feerate => some ({ s with init := .querying true 0 feerate }, [])
          | .unknown       => some ({ s with init := .waiting }, [])
          | .threw         => some ({ s with init := .done }, [])
      | _ => none
  | .initJudges =>
      match s.init with
      | .querying retried saved feerate => some (s.initJudges retried saved feerate)
      | _ => none
  | .timer10Minutes =>
      match s.init with
      | .before => none
      | _       => some ({ s with timers := s.timers ++ [.fetching] }, [])
  | .timerFetched i f =>
      match s.timers[i]? with
      | some .fetching =>
          match f with
          | .known feerate =>
              some ({ s with
                timers := s.timers.set i (.querying feerate)
                lastFeerate := some feerate }, [])
          | .unknown => some ({ s with timers := s.timers.eraseIdx i }, [s.reportFee])
          | .threw   => some ({ s with timers := s.timers.eraseIdx i }, [])
      | _ => none
  | .timerJudges i =>
      match s.timers[i]? with
      | some (.querying saved) =>
          some ({ s with timers := s.timers.eraseIdx i }.timerJudges saved)
      | _ => none

/-! ## The most recent samples -/

/-- The last of them, as many as are kept. -/
def lastSamples (l : List ℚ) : List ℚ := l.drop (l.length - maxNumSamples)

theorem length_lastSamples (l : List ℚ) :
    (lastSamples l).length = min l.length maxNumSamples := by
  unfold lastSamples
  rw [List.length_drop]
  omega

/-- What was dropped before does not count. -/
theorem lastSamples_append (l : List ℚ) (x : ℚ) :
    lastSamples (lastSamples l ++ [x]) = lastSamples (l ++ [x]) := by
  unfold lastSamples
  rw [List.length_append, List.length_append, List.length_drop, List.length_singleton]
  have hle : l.length - maxNumSamples ≤ l.length := Nat.sub_le _ _
  have hmax : 0 < maxNumSamples := Nat.succ_pos _
  have hcount : l.length - maxNumSamples
      + (l.length - (l.length - maxNumSamples) + 1 - maxNumSamples)
      = l.length + 1 - maxNumSamples := by omega
  rw [← List.drop_append_of_le_length hle, List.drop_drop, hcount]

variable {t : Samples}

theorem length_data (t : Samples) : t.data.length = t.getNumSamples := List.length_map ..

theorem data_insert (t : Samples) (x : ℚ) : (t.insert x).data = t.data ++ [x] := by
  unfold Samples.data Samples.insert
  rw [t.rows.entries_assign_last x (fun e he => Nat.lt_succ_of_le (t.below e he)),
    List.map_append]
  rfl

theorem data_foldl_insert (l : List ℚ) (t : Samples) :
    (l.foldl Samples.insert t).data = t.data ++ l := by
  induction l generalizing t with
  | nil => exact (List.append_nil _).symm
  | cons x l ih =>
      rw [List.foldl_cons, ih, data_insert, List.append_assoc]
      rfl

/-- The initial samples count as the oldest. -/
theorem data_initializeSampleData (t : Samples) :
    t.initializeSampleData.data = t.data ++ initialSampleData.drop t.data.length := by
  unfold Samples.initializeSampleData
  rw [data_foldl_insert, length_data]

theorem data_checkNumSamples (t : Samples) : t.checkNumSamples.data = lastSamples t.data := by
  unfold Samples.checkNumSamples lastSamples
  rw [length_data]
  split
  · unfold Samples.data Samples.delete
    simp only
    rw [OrderedMap.entries_erase_first, List.map_drop]
  · rw [show t.getNumSamples - maxNumSamples = 0 by omega]
    rfl

/-- **SPEC (add_sample)**. -/
theorem data_addSample (t : Samples) (x : ℚ) :
    (t.addSample x).data = lastSamples (t.data ++ [x]) := by
  unfold Samples.addSample
  rw [data_checkNumSamples, data_insert]

/-! ## The percentiles -/

/-- The rates are samples, and in order. -/
structure PercentileFeerates.Sound (f : PercentileFeerates) (data : List ℚ) : Prop where
  h2l_le_mid : f.h2l ≤ f.mid
  mid_le_l2h : f.mid ≤ f.l2h
  h2l_mem    : f.h2l ∈ data
  mid_mem    : f.mid ∈ data
  l2h_mem    : f.l2h ∈ data

/-- The place of a percentile, before it is kept below the number of samples. -/
theorem index_eq {n p : ℕ} (hn : n ≤ maxNumSamples) (hp : p ≤ 100) :
    (((Double.ofInt n).mul (.finite p)).div (.finite 100)).toSize
      = ⌊Double.round ((n * p : ℕ) / 100 : ℚ)⌋.toNat := by
  unfold maxNumSamples at hn
  have hnp : n * p ≤ 2016 * 100 := Nat.mul_le_mul hn hp
  have hprod : (Double.ofInt n).mul (.finite p) = .finite ((n * p : ℕ) : ℚ) := by
    rw [Double.ofInt_natCast (by omega)]
    have := Double.ofInt_natCast (n := n * p) (by omega)
    unfold Double.ofInt at this
    rw [Double.mul, ← this]
    push_cast
    rfl
  have hq : ((n * p : ℕ) : ℚ) / 100 < 2 ^ 63 := by
    have : ((n * p : ℕ) : ℚ) ≤ ((2016 * 100 : ℕ) : ℚ) := by exact_mod_cast hnp
    rw [div_lt_iff₀ (by norm_num)]
    refine lt_of_le_of_lt this (by norm_num)
  have hq0 : (0 : ℚ) ≤ ((n * p : ℕ) : ℚ) / 100 := div_nonneg (Nat.cast_nonneg _) (by norm_num)
  rw [hprod, Double.div, if_neg (by norm_num), Double.ofRat_of_lt (k := 63) (by norm_num) hq0 hq]
  have hround := Double.round_le_two_pow hq0 hq
  exact Double.toSize_eq (lt_of_le_of_lt hround (by norm_num))

theorem index_mono {n p q : ℕ} (hn : n ≤ maxNumSamples) (hq : q ≤ 100) (h : p ≤ q) :
    (((Double.ofInt n).mul (.finite p)).div (.finite 100)).toSize
      ≤ (((Double.ofInt n).mul (.finite q)).div (.finite 100)).toSize := by
  rw [index_eq hn (h.trans hq), index_eq hn hq]
  refine Int.toNat_le_toNat (Int.floor_le_floor (Double.round_mono ?_ ?_))
  · exact div_nonneg (Nat.cast_nonneg _) (by norm_num)
  · refine div_le_div_of_nonneg_right ?_ (by norm_num)
    exact_mod_cast Nat.mul_le_mul_left n h

/-- A percentile is a sample, at a place that it says. -/
theorem getFeerateAtPercentile_eq {data : List ℚ} (hne : data ≠ []) (percentile : ℕ) :
    ∃ h : min (((Double.ofInt data.length).mul (.finite percentile)).div (.finite 100)).toSize
        (data.length - 1) < (data.insertionSort (· ≤ ·)).length,
      getFeerateAtPercentile data percentile
        = (data.insertionSort (· ≤ ·)).get ⟨_, h⟩ := by
  have hlen : data.length ≠ 0 := fun h => hne (List.length_eq_zero_iff.mp h)
  refine ⟨by rw [List.length_insertionSort]; omega, ?_⟩
  unfold getFeerateAtPercentile
  simp only
  rw [if_neg hlen, List.get_eq_getElem, List.getD_eq_getElem?_getD]
  have hindex : (if data.length
        ≤ (((Double.ofInt data.length).mul (.finite percentile)).div (.finite 100)).toSize
      then data.length - 1
      else (((Double.ofInt data.length).mul (.finite percentile)).div (.finite 100)).toSize)
      = min (((Double.ofInt data.length).mul (.finite percentile)).div (.finite 100)).toSize
        (data.length - 1) := by
    split <;> omega
  rw [hindex, List.getElem?_eq_getElem, Option.getD_some]

theorem getFeerateAtPercentile_mem {data : List ℚ} (hne : data ≠ []) (percentile : ℕ) :
    getFeerateAtPercentile data percentile ∈ data := by
  obtain ⟨h, heq⟩ := getFeerateAtPercentile_eq hne percentile
  rw [heq]
  exact (List.mem_insertionSort _).mp (List.get_mem _ _)

theorem getFeerateAtPercentile_mono {data : List ℚ} (hne : data ≠ [])
    (hlen : data.length ≤ maxNumSamples) {p q : ℕ} (hq : q ≤ 100) (h : p ≤ q) :
    getFeerateAtPercentile data p ≤ getFeerateAtPercentile data q := by
  obtain ⟨hp', hpeq⟩ := getFeerateAtPercentile_eq hne p
  obtain ⟨hq', hqeq⟩ := getFeerateAtPercentile_eq hne q
  rw [hpeq, hqeq]
  have hindex := index_mono hlen hq h
  rcases (min_le_min_right (data.length - 1) hindex).lt_or_eq with hlt | heq
  · exact List.pairwise_iff_get.mp (List.pairwise_insertionSort _ data) ⟨_, hp'⟩ ⟨_, hq'⟩ hlt
  · exact le_of_eq (congrArg _ (Fin.ext heq))

/-- **PERCENTILES** of a table that is neither empty nor overfull. -/
theorem sound_getPercentileFeerates {data : List ℚ} (hne : data ≠ [])
    (hlen : data.length ≤ maxNumSamples) : (getPercentileFeerates data).Sound data where
  h2l_le_mid := getFeerateAtPercentile_mono hne hlen (by norm_num) (by norm_num)
  mid_le_l2h := getFeerateAtPercentile_mono hne hlen (by norm_num) (by norm_num)
  h2l_mem    := getFeerateAtPercentile_mem hne 17
  mid_mem    := getFeerateAtPercentile_mem hne 20
  l2h_mem    := getFeerateAtPercentile_mem hne 23

/-! ## What the monitor is to do -/

/-- A table left by an earlier run of the program, or the empty one. -/
abbrev Kept : Type := { t : Samples // t.data.length ≤ maxNumSamples }

/-- The constructor. -/
def start (t : Kept) : State := { samples := t.val }

/-- The table once it is initialized. -/
def initialData (t : Kept) : List ℚ :=
  t.val.data ++ initialSampleData.drop t.val.data.length

def Output.sample : Output → Option ℚ
  | .sampled data => some data
  | _             => none

def Output.judgment : Output → Option Judgment
  | .judged j => some j
  | _         => none

/-- The samples that were added. -/
def added (tr : List Output) : List ℚ := tr.filterMap Output.sample

def judgments (tr : List Output) : List Judgment := tr.filterMap Output.judgment

/-- The first judgments: by `on_init` or `retry`. -/
def firsts (tr : List Output) : List Judgment :=
  (judgments tr).filter (fun j => j.judge ≠ .timer)

/-- The judgments lead from one flag to the other, each going on from the one before. -/
def Leads : Bool → List Judgment → Bool → Prop
  | b, [], b'     => b = b'
  | b, j :: l, b' => j.was = b ∧ Leads j.isLow l b'

/-- The judgment of a timer, by the rate of the flag that was. -/
def Judgment.Hysteresis (j : Judgment) : Prop :=
  (j.was = true → (j.isLow = false ↔ (getPercentileFeerates j.data).l2h < j.feerate))
    ∧ (j.was = false → (j.isLow = true ↔ j.feerate ≤ (getPercentileFeerates j.data).h2l))

/-- A first judgment, of the feerate that was fetched for it. -/
def Judgment.OfFetched (j : Judgment) : Prop :=
  j.isLow = if j.judge = .retry then decide (j.feerate ≤ (getPercentileFeerates j.data).mid)
    else decide (j.feerate < (getPercentileFeerates j.data).mid)

/-- What holds in every run. -/
structure Monitored (t : Kept) (tr : List Output) (s : State) : Prop where
  recent   : s.opened = true → s.samples.data = lastSamples (initialData t ++ added tr)
  sound    : ∀ j ∈ judgments tr, (getPercentileFeerates j.data).Sound j.data
  leads    : Leads false (judgments tr) s.isLowFeeFlag
  once     : (firsts tr).length ≤ 1
  timers   : ∀ j ∈ judgments tr, j.judge = .timer → j.Hysteresis

/-- The judgment of a retry does not depend on what it judges. -/
def Learned (s : State) : Event → Prop
  | .initJudges => ∀ saved feerate, s.init = .querying true saved feerate →
      (feerate ≤ (getPercentileFeerates s.samples.data).mid
        ↔ 0 ≤ (getPercentileFeerates s.samples.data).mid)
  | _ => True

/-! ## Steps -/

variable {t : Kept} {tr out : List Output} {s s' : State} {e : Event}

theorem added_append : added (tr ++ out) = added tr ++ added out := List.filterMap_append

theorem judgments_append : judgments (tr ++ out) = judgments tr ++ judgments out :=
  List.filterMap_append

theorem firsts_append : firsts (tr ++ out) = firsts tr ++ firsts out := by
  unfold firsts
  rw [judgments_append, List.filter_append]

theorem Leads.snoc {b b' : Bool} {l : List Judgment} (h : Leads b l b') {j : Judgment}
    (hj : j.was = b') : Leads b (l ++ [j]) j.isLow := by
  induction l generalizing b with
  | nil => exact ⟨hj.trans h.symm, rfl⟩
  | cons i l ih => exact ⟨h.1, ih h.2⟩

/-- What `on_init` and `retry` have saved. -/
def Init.Saved : Init → Prop
  | .querying true saved _        => saved = 0
  | .querying false saved feerate => saved = feerate
  | _                             => True

/-- **INVARIANT**: of the monitor, its table, and whether it has judged. -/
structure Held (t : Kept) (tr : List Output) (s : State) : Prop where
  monitored : Monitored t tr s
  closed    : s.opened = false → s.samples = t.val ∧ added tr = [] ∧ s.init = .before
  atMost    : s.samples.data.length ≤ maxNumSamples
  saved     : s.init.Saved
  unjudged  : s.init ≠ .done → firsts tr = []
  unstarted : s.init = .before → s.timers = []

theorem length_initialData (t : Kept) :
    14 ≤ (initialData t).length ∧ (initialData t).length ≤ maxNumSamples := by
  have ht := t.property
  unfold initialData initialSampleData
  rw [List.length_append, List.length_drop, List.length_replicate]
  unfold maxNumSamples at ht ⊢
  omega

/-- Once initialized the table is not empty. -/
theorem Held.data_ne_nil (h : Held t tr s) (hopened : s.opened = true) : s.samples.data ≠ [] := by
  have hlen := length_initialData t
  intro hnil
  have hrecent := h.monitored.recent hopened
  rw [hnil] at hrecent
  have hzero := congrArg List.length hrecent
  rw [length_lastSamples, List.length_append, List.length_nil] at hzero
  unfold maxNumSamples at hzero
  omega

/-- Nothing was sampled or judged. -/
structure Silent (out : List Output) : Prop where
  added     : added out = []
  judgments : judgments out = []

theorem silent_nil : Silent [] := ⟨rfl, rfl⟩

theorem silent_report (s : State) : Silent [s.reportFee] := ⟨rfl, rfl⟩

/-- A step that samples and judges nothing, and leaves table and flag. -/
theorem Held.keep (h : Held t tr s) (hout : Silent out) (hsamples : s'.samples = s.samples)
    (hopened : s'.opened = s.opened) (hflag : s'.isLowFeeFlag = s.isLowFeeFlag)
    (hclosed : s.init = .before → s'.init = .before ∨ s.opened = true) (hsaved : s'.init.Saved)
    (hdone : s.init = .done → s'.init = .done)
    (htimers : s'.init = .before → s'.timers = []) : Held t (tr ++ out) s' := by
  have hadded : added (tr ++ out) = added tr := by
    rw [added_append, hout.added, List.append_nil]
  have hjudgments : judgments (tr ++ out) = judgments tr := by
    rw [judgments_append, hout.judgments, List.append_nil]
  have hfirsts : firsts (tr ++ out) = firsts tr := by
    unfold firsts
    rw [hjudgments]
  obtain ⟨hrecent, hsound, hleads, honce, htimer⟩ := h.monitored
  refine ⟨⟨?_, ?_, ?_, ?_, ?_⟩, ?_, ?_, hsaved, ?_, htimers⟩
  · rw [hopened, hsamples, hadded]
    exact hrecent
  · rw [hjudgments]
    exact hsound
  · rw [hjudgments, hflag]
    exact hleads
  · rw [hfirsts]
    exact honce
  · rw [hjudgments]
    exact htimer
  · intro hshut
    rw [hopened] at hshut
    obtain ⟨hsame, hnone, hbefore⟩ := h.closed hshut
    refine ⟨hsamples.trans hsame, hadded.trans hnone, (hclosed hbefore).resolve_right ?_⟩
    rw [hshut]
    exact Bool.false_ne_true
  · rw [hsamples]
    exact h.atMost
  · intro hne
    rw [hfirsts]
    exact h.unjudged (fun heq => hne (hdone heq))

/-- Initializing again changes nothing. -/
theorem Held.dbResource (h : Held t tr s) :
    Held t tr { s with samples := s.samples.initializeSampleData, opened := true } := by
  have hlen := length_initialData t
  have hdata : s.samples.initializeSampleData.data = lastSamples (initialData t ++ added tr) := by
    rw [data_initializeSampleData]
    cases hopened : s.opened with
    | false =>
        obtain ⟨hsame, hnone, -⟩ := h.closed hopened
        rw [hsame, hnone, List.append_nil]
        unfold lastSamples
        rw [show (initialData t).length - maxNumSamples = 0 by omega]
        rfl
    | true =>
        have hrecent := h.monitored.recent hopened
        have hlong : 14 ≤ s.samples.data.length := by
          rw [hrecent, length_lastSamples, List.length_append]
          unfold maxNumSamples
          omega
        rw [List.drop_eq_nil_of_le (by
          rw [initialSampleData, List.length_replicate]
          exact hlong), List.append_nil]
        exact hrecent
  obtain ⟨-, hsound, hleads, honce, htimer⟩ := h.monitored
  refine ⟨⟨fun _ => hdata, hsound, hleads, honce, htimer⟩, nofun, ?_, h.saved, h.unjudged,
    h.unstarted⟩
  show s.samples.initializeSampleData.data.length ≤ maxNumSamples
  rw [hdata, length_lastSamples]
  exact Nat.min_le_right _ _

/-- The first judgment. -/
theorem Held.initJudges (h : Held t tr s) {retried : Bool} {saved feerate : ℚ}
    (hinit : s.init = .querying retried saved feerate)
    (hs : s.initJudges retried saved feerate = (s', out)) : Held t (tr ++ out) s' := by
  have hopened : s.opened = true := by
    by_contra hshut
    have := (h.closed (Bool.eq_false_of_not_eq_true hshut)).2.2
    rw [hinit] at this
    cases this
  have hnone : firsts tr = [] := h.unjudged (by rw [hinit]; nofun)
  obtain ⟨hrecent, hsound, hleads, honce, htimer⟩ := h.monitored
  have hnew := sound_getPercentileFeerates (h.data_ne_nil hopened) h.atMost
  unfold State.initJudges at hs
  simp only at hs
  obtain ⟨rfl, rfl⟩ := Prod.ext_iff.mp hs
  have hjudge : (if retried = true then Judge.retry else Judge.init) ≠ .timer := by
    split <;> nofun
  refine ⟨⟨?_, ?_, ?_, ?_, ?_⟩, ?_, h.atMost, True.intro, fun hne => absurd rfl hne, nofun⟩
  · rw [added_append]
    intro hop
    exact (hrecent hop).trans (congrArg (fun l => lastSamples (initialData t ++ l))
      (List.append_nil (added tr)).symm)
  · rw [judgments_append]
    intro j hj
    rcases List.mem_append.mp hj with hj | hj
    · exact hsound j hj
    · obtain rfl := List.mem_singleton.mp hj
      exact hnew
  · rw [judgments_append]
    exact hleads.snoc rfl
  · rw [firsts_append, hnone, List.nil_append]
    exact List.length_filter_le _ _
  · rw [judgments_append]
    intro j hj hby
    rcases List.mem_append.mp hj with hj | hj
    · exact htimer j hj hby
    · obtain rfl := List.mem_singleton.mp hj
      exact absurd hby hjudge
  · intro hshut
    rw [show s.opened = false from hshut] at hopened
    cases hopened

/-- What `on_timer` decides is the hysteresis. -/
theorem hysteresis_timer (saved : ℚ) (data : List ℚ) (was : Bool) :
    Judgment.Hysteresis ⟨.timer, saved, data, was,
      if was then if (getPercentileFeerates data).l2h < saved then false else was
      else if saved ≤ (getPercentileFeerates data).h2l then true else was⟩ := by
  constructor
  · rintro rfl
    simp only [if_true]
    split <;> simp_all
  · rintro rfl
    simp only [Bool.false_eq_true, if_false]
    split <;> simp_all

theorem Held.timerJudges (h : Held t tr s) (hbefore : s.init ≠ .before) {saved : ℚ}
    (hs : s.timerJudges saved = (s', out)) : Held t (tr ++ out) s' := by
  have hopened : s.opened = true := by
    by_contra hshut
    exact hbefore (h.closed (Bool.eq_false_of_not_eq_true hshut)).2.2
  obtain ⟨hrecent, hsound, hleads, honce, htimer⟩ := h.monitored
  have hdata : (s.samples.addSample saved).data
      = lastSamples (initialData t ++ (added tr ++ [saved])) := by
    rw [data_addSample, hrecent hopened, lastSamples_append, List.append_assoc]
  have hatMost : (s.samples.addSample saved).data.length ≤ maxNumSamples := by
    rw [hdata, length_lastSamples]
    exact Nat.min_le_right _ _
  have hne : (s.samples.addSample saved).data ≠ [] := by
    rw [data_addSample]
    intro hnil
    have := congrArg List.length hnil
    rw [length_lastSamples, List.length_append, List.length_singleton, List.length_nil] at this
    unfold maxNumSamples at this
    omega
  unfold State.timerJudges at hs
  simp only at hs
  obtain ⟨rfl, rfl⟩ := Prod.ext_iff.mp hs
  refine ⟨⟨fun _ => ?_, ?_, ?_, ?_, ?_⟩, ?_, hatMost, h.saved, ?_, fun hb => absurd hb hbefore⟩
  · rw [added_append]
    exact hdata
  · rw [judgments_append]
    intro j hj
    rcases List.mem_append.mp hj with hj | hj
    · exact hsound j hj
    · obtain rfl := List.mem_singleton.mp hj
      exact sound_getPercentileFeerates hne hatMost
  · rw [judgments_append]
    exact hleads.snoc rfl
  · rw [firsts_append]
    exact (congrArg List.length (List.append_nil (firsts tr))).trans_le honce
  · rw [judgments_append]
    intro j hj hby
    rcases List.mem_append.mp hj with hj | hj
    · exact htimer j hj hby
    · obtain rfl := List.mem_singleton.mp hj
      exact hysteresis_timer _ _ _
  · intro hshut
    rw [show s.opened = false from hshut] at hopened
    cases hopened
  · intro hnd
    rw [firsts_append]
    exact (List.append_nil _).trans (h.unjudged hnd)

theorem held_start (t : Kept) : Held t [] (start t) := by
  refine ⟨⟨nofun, nofun, rfl, Nat.zero_le _, nofun⟩, fun _ => ⟨rfl, rfl, rfl⟩, t.property,
    ?_, ?_, ?_⟩
  · exact True.intro
  · exact fun _ => rfl
  · exact fun _ => rfl

theorem held_step (h : Held t tr s) (hs : step s e = some (s', out)) : Held t (tr ++ out) s' := by
  cases e with
  | dbResource =>
      cases hs
      rw [List.append_nil]
      exact h.dbResource
  | init =>
      simp only [step] at hs
      split at hs <;> cases hs
      rename_i hinit hopened
      exact h.keep silent_nil rfl rfl rfl (fun _ => .inr hopened) True.intro
        (fun hd => by rw [hinit] at hd; cases hd) nofun
  | initFetched f =>
      simp only [step] at hs
      split at hs
      · rename_i hinit
        have hb : s.init ≠ .before := by rw [hinit]; nofun
        have hd : s.init ≠ .done := by rw [hinit]; nofun
        split at hs <;> cases hs
        · exact h.keep silent_nil rfl rfl rfl (fun he => absurd he hb) rfl
            (fun he => absurd he hd) nofun
        · exact h.keep silent_nil rfl rfl rfl (fun he => absurd he hb) True.intro
            (fun he => absurd he hd) nofun
        · exact h.keep silent_nil rfl rfl rfl (fun he => absurd he hb) True.intro
            (fun he => absurd he hd) nofun
      · cases hs
  | waited =>
      simp only [step] at hs
      split at hs <;> cases hs
      rename_i hinit
      exact h.keep silent_nil rfl rfl rfl (fun he => by rw [hinit] at he; cases he) True.intro
        (fun he => by rw [hinit] at he; cases he) nofun
  | retryFetched f =>
      simp only [step] at hs
      split at hs
      · rename_i hinit
        have hb : s.init ≠ .before := by rw [hinit]; nofun
        have hd : s.init ≠ .done := by rw [hinit]; nofun
        split at hs <;> cases hs
        · exact h.keep silent_nil rfl rfl rfl (fun he => absurd he hb) rfl
            (fun he => absurd he hd) nofun
        · exact h.keep silent_nil rfl rfl rfl (fun he => absurd he hb) True.intro
            (fun he => absurd he hd) nofun
        · exact h.keep silent_nil rfl rfl rfl (fun he => absurd he hb) True.intro
            (fun he => absurd he hd) nofun
      · cases hs
  | initJudges =>
      simp only [step] at hs
      split at hs
      · rename_i hinit
        exact h.initJudges hinit (Option.some.inj hs)
      · cases hs
  | timer10Minutes =>
      simp only [step] at hs
      split at hs <;> cases hs
      rename_i hb
      exact h.keep silent_nil rfl rfl rfl .inl h.saved id (fun he => absurd he hb)
  | timerFetched i f =>
      simp only [step] at hs
      split at hs
      · rename_i hi
        have hb : s.init ≠ .before := by
          intro he
          rw [h.unstarted he] at hi
          cases hi
        split at hs <;> cases hs
        · exact h.keep silent_nil rfl rfl rfl .inl h.saved id (fun he => absurd he hb)
        · exact h.keep (silent_report s) rfl rfl rfl .inl h.saved id (fun he => absurd he hb)
        · exact h.keep silent_nil rfl rfl rfl .inl h.saved id (fun he => absurd he hb)
      · cases hs
  | timerJudges i =>
      simp only [step] at hs
      split at hs
      · rename_i saved hi
        have hb : s.init ≠ .before := by
          intro he
          rw [h.unstarted he] at hi
          cases hi
        have hrest : Held t (tr ++ []) { s with timers := s.timers.eraseIdx i } :=
          h.keep silent_nil rfl rfl rfl .inl h.saved id (fun he => absurd he hb)
        rw [List.append_nil] at hrest
        exact hrest.timerJudges hb (Option.some.inj hs)
      · cases hs

/-! ## The first judgment -/

/-- What shows that a first judgment is not of what was fetched. -/
def Output.Astray (o : Output) : Prop := ∃ j, o = .judged j ∧ j.judge ≠ .timer ∧ ¬ j.OfFetched

/-- **STEP**: `on_init` judges what it fetched, `retry` judges zero. -/
theorem ofFetched_iff {retried : Bool} {saved feerate : ℚ}
    (hsaved : (Init.querying retried saved feerate).Saved) :
    (∀ o ∈ (s.initJudges retried saved feerate).2, ¬ o.Astray)
      ↔ (retried = true → (feerate ≤ (getPercentileFeerates s.samples.data).mid
        ↔ 0 ≤ (getPercentileFeerates s.samples.data).mid)) := by
  have hiff : (∀ o ∈ (s.initJudges retried saved feerate).2, ¬ o.Astray)
      ↔ Judgment.OfFetched ⟨if retried then .retry else .init, feerate, s.samples.data,
        s.isLowFeeFlag,
        if retried then decide (saved ≤ (getPercentileFeerates s.samples.data).mid)
        else decide (saved < (getPercentileFeerates s.samples.data).mid)⟩ := by
    constructor
    · intro hout
      by_contra hnot
      refine hout _ List.mem_cons_self ⟨_, rfl, ?_, hnot⟩
      simp only
      split <;> nofun
    · rintro hof o ho ⟨j, rfl, -, hnot⟩
      rcases List.mem_cons.mp ho with heq | ho
      · cases heq
        exact hnot hof
      · cases List.mem_singleton.mp ho
  rw [hiff]
  unfold Judgment.OfFetched
  cases retried with
  | false =>
      have heq : saved = feerate := hsaved
      subst heq
      simp
  | true =>
      have heq : saved = 0 := hsaved
      subst heq
      simp only [if_true, decide_eq_decide, forall_const]
      exact Iff.comm

/-- Nothing but a first judgment is astray. -/
theorem not_astray_step (h : Held t tr s) (hok : Learned s e) (hs : step s e = some (s', out)) :
    ∀ o ∈ out, ¬ o.Astray := by
  cases e with
  | initJudges =>
      simp only [step] at hs
      split at hs
      · rename_i retried saved feerate hinit
        have hsaved := h.saved
        rw [hinit] at hsaved
        have hout := (ofFetched_iff (s := s) hsaved).mpr ?_
        · rw [Option.some.inj hs] at hout
          exact hout
        · rintro rfl
          exact hok saved feerate hinit
      · cases hs
  | timerJudges i =>
      simp only [step] at hs
      split at hs
      · obtain ⟨rfl, rfl⟩ := Prod.ext_iff.mp (Option.some.inj hs)
        rintro o ho ⟨j, rfl, hj, -⟩
        unfold State.timerJudges at ho
        simp only [List.mem_cons, List.not_mem_nil, or_false, reduceCtorEq, false_or,
          Output.judged.injEq] at ho
        rcases ho with rfl | ho
        · exact hj rfl
        · cases ho
      · cases hs
  | timerFetched i f =>
      simp only [step] at hs
      split at hs
      · split at hs <;> cases hs
        · nofun
        · rintro o ho ⟨j, rfl, -, -⟩
          cases List.mem_singleton.mp ho
        · nofun
      · cases hs
  | dbResource =>
      cases hs
      nofun
  | init | waited | timer10Minutes =>
      simp only [step] at hs
      split at hs <;> cases hs
      nofun
  | initFetched f | retryFetched f =>
      simp only [step] at hs
      split at hs
      · split at hs <;> cases hs <;> nofun
      · cases hs

theorem astray_of_not_learned (h : Held t tr s) (hok : ¬ Learned s e)
    (hs : step s e = some (s', out)) : ∃ o ∈ out, o.Astray := by
  cases e with
  | initJudges =>
      simp only [step] at hs
      split at hs
      · rename_i retried saved feerate hinit
        have hsaved := h.saved
        rw [hinit] at hsaved
        by_contra hnone
        have hout : ∀ o ∈ (s.initJudges retried saved feerate).2, ¬ o.Astray := by
          rw [Option.some.inj hs]
          exact fun o ho hastray => hnone ⟨o, ho, hastray⟩
        refine hok (fun saved' feerate' hinit' => ?_)
        rw [hinit] at hinit'
        cases hinit'
        exact (ofFetched_iff hsaved).mp hout rfl
      · cases hs
  | dbResource | init | initFetched | waited | retryFetched | timer10Minutes | timerFetched
  | timerJudges => exact absurd True.intro hok

/-! ## Runs -/

theorem held_run {es : List Event} (h : run step (start t) es = some (s, tr)) : Held t tr s :=
  run_invariant (I := fun _ tr s => Held t tr s) (held_start t)
    (fun _ _ _ _ _ _ hI _ hs => held_step hI hs) (along_true _ _) h

/-- **HEADLINE**: in every run the table holds the most recent samples, the rates are in order,
    and the timer judges with hysteresis; and the first judgment is of the feerate that was
    fetched for it exactly if a retry finds it on the same side of the middle as zero. -/
theorem monitored_run {es : List Event} (h : run step (start t) es = some (s, tr)) :
    Monitored t tr s
      ∧ ((∀ j ∈ firsts tr, j.OfFetched) ↔ Along step Learned (start t) es) := by
  refine ⟨(held_run h).monitored, ?_⟩
  have hfirsts : (∀ j ∈ firsts tr, j.OfFetched) ↔ ∀ o ∈ tr, ¬ o.Astray := by
    constructor
    · rintro hj o ho ⟨j, rfl, hby, hnot⟩
      refine hnot (hj j (List.mem_filter.mpr ⟨?_, decide_eq_true hby⟩))
      exact List.mem_filterMap.mpr ⟨_, ho, rfl⟩
    · intro ho j hj
      obtain ⟨hj, hby⟩ := List.mem_filter.mp hj
      obtain ⟨o, hmem, heq⟩ := List.mem_filterMap.mp hj
      by_contra hnot
      cases o <;> cases heq
      exact ho _ hmem ⟨j, rfl, of_decide_eq_true hby, hnot⟩
  rw [hfirsts]
  constructor
  · intro htr
    refine along_of_outputs (I := fun s => ∃ tr, Held t tr s) ?_ ?_ ⟨[], held_start t⟩ h htr
    · rintro s e s' out ⟨tr, hI⟩ hs
      exact ⟨_, held_step hI hs⟩
    · rintro s e s' out ⟨tr, hI⟩ hs hP
      exact astray_of_not_learned hI hP hs
  · intro hok
    refine (run_invariant (I := fun _ tr s => Held t tr s ∧ ∀ o ∈ tr, ¬ o.Astray)
      ⟨held_start t, nofun⟩ ?_ hok h).2
    intro es tr s e s' out hI hP hs
    exact ⟨held_step hI.1 hs, List.forall_mem_append.mpr ⟨hI.2, not_astray_step hI.1 hP hs⟩⟩

/-- The fee is known at once, and the timer finds it low later. -/
theorem monitored_run_two :
    ∃ s tr, run step (start ⟨{}, by decide⟩)
        [.dbResource, .init, .timer10Minutes, .initFetched (.known 300),
          .timerFetched 0 (.known 250), .initJudges, .timerJudges 0] = some (s, tr)
      ∧ s.isLowFeeFlag = true ∧ (∀ j ∈ firsts tr, j.OfFetched)
      ∧ Monitored ⟨{}, by decide⟩ tr s := by
  have hrun : (run step (start ⟨{}, by decide⟩)
      [.dbResource, .init, .timer10Minutes, .initFetched (.known 300),
        .timerFetched 0 (.known 250), .initJudges, .timerJudges 0]).map
        (fun p => p.1.isLowFeeFlag) = some true := by decide +kernel
  obtain ⟨⟨s, tr⟩, h, hlow⟩ := Option.map_eq_some_iff.mp hrun
  have hmonitored := monitored_run h
  refine ⟨s, tr, h, hlow, hmonitored.2.mpr ?_, hmonitored.1⟩
  exact ⟨True.intro, True.intro, True.intro, True.intro, True.intro, nofun, True.intro, True.intro⟩

/-- Fees are far above all samples when a retry learns them, and judged low. -/
theorem retry_judges_zero :
    ∃ s j, run step (start ⟨{}, by decide⟩)
        [.dbResource, .init, .initFetched .unknown, .waited, .retryFetched (.known 5000),
          .initJudges] = some (s, [.judged j, .onchainFee true none])
      ∧ j.judge = .retry ∧ j.feerate = 5000 ∧ (getPercentileFeerates j.data).mid = 253
      ∧ j.isLow = true ∧ ¬ j.OfFetched := by
  have hrun : (run step (start ⟨{}, by decide⟩)
      [.dbResource, .init, .initFetched .unknown, .waited, .retryFetched (.known 5000),
        .initJudges]).map Prod.snd
      = some [.judged ⟨.retry, 5000, initialSampleData, false, true⟩, .onchainFee true none] := by
    decide +kernel
  obtain ⟨⟨s, tr⟩, h, htr⟩ := Option.map_eq_some_iff.mp hrun
  have hmid : (getPercentileFeerates initialSampleData).mid = 253 := by decide +kernel
  refine ⟨s, ⟨.retry, 5000, initialSampleData, false, true⟩, ?_, rfl, rfl, hmid, rfl, ?_⟩
  · rw [h]
    exact congrArg (fun l => some (s, l)) htr
  · unfold Judgment.OfFetched
    rw [if_pos rfl, hmid]
    decide

end OnchainFeeMonitor
