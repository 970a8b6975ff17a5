import Clboss.AmountArithProofs

/-! # `Stats::WeightedMedian` — the sample in the middle of the weight

    Samples come with weights.  `finalize` sorts them and adds each weight to the
    running sum TWICE, so that the running sum can be compared with the total
    without a division; the first sample to exceed the total is the median.

    Adding may saturate (`Weights.cap`).  A total at the largest weight is exceeded
    by nothing, and neither is a total of zero exceeded by its double: in between,
    and only there, a median is found (`finalize_isMedian`, `finalize_eq_none`).

    `std::sort` leaves the order of equal samples open, so it is ANY sorting
    (`Sorting`); a weighted median is unique, so it does not matter which. -/

namespace Stats

/-! ## The median of weighted samples -/

section Median

variable {Sample : Type} [LinearOrder Sample] {es es' : List (Sample × ℕ)} {m m' : Sample}

/-- All the weight. -/
def totalWeight (es : List (Sample × ℕ)) : ℕ := (es.map Prod.snd).sum

/-- The weight of the samples up to `m`. -/
def cumulative (es : List (Sample × ℕ)) (m : Sample) : ℕ :=
  totalWeight (es.filter (fun e => e.1 ≤ m))

/-- The smallest sample whose cumulative weight exceeds half the total. -/
structure IsMedian (es : List (Sample × ℕ)) (m : Sample) : Prop where
  sampled : m ∈ es.map Prod.fst
  exceeds : totalWeight es < 2 * cumulative es m
  least   : ∀ s ∈ es.map Prod.fst, s < m → 2 * cumulative es s ≤ totalWeight es

omit [LinearOrder Sample] in
theorem totalWeight_append (es es' : List (Sample × ℕ)) :
    totalWeight (es ++ es') = totalWeight es + totalWeight es' := by
  unfold totalWeight
  rw [List.map_append, List.sum_append]

omit [LinearOrder Sample] in
theorem totalWeight_le_of_sublist (h : es.Sublist es') : totalWeight es ≤ totalWeight es' :=
  List.Sublist.sum_le_sum (h.map Prod.snd) (fun _ _ => Nat.zero_le _)

omit [LinearOrder Sample] in
theorem totalWeight_perm (h : es.Perm es') : totalWeight es = totalWeight es' :=
  (h.map Prod.snd).sum_eq

theorem cumulative_le (es : List (Sample × ℕ)) (m : Sample) : cumulative es m ≤ totalWeight es :=
  totalWeight_le_of_sublist List.filter_sublist

theorem cumulative_perm (h : es.Perm es') (m : Sample) : cumulative es m = cumulative es' m :=
  totalWeight_perm (h.filter _)

/-- The order in which the samples came is no matter. -/
theorem IsMedian.of_perm (hm : IsMedian es m) (h : es.Perm es') : IsMedian es' m where
  sampled := (h.map Prod.fst).mem_iff.mp hm.sampled
  exceeds := by rw [← totalWeight_perm h, ← cumulative_perm h]; exact hm.exceeds
  least   := by
    intro s hs hlt
    rw [← totalWeight_perm h, ← cumulative_perm h]
    exact hm.least s ((h.map Prod.fst).mem_iff.mpr hs) hlt

theorem IsMedian.unique (hm : IsMedian es m) (hm' : IsMedian es m') : m = m' := by
  rcases lt_trichotomy m m' with hlt | heq | hgt
  · have := hm'.least m hm.sampled hlt
    exact absurd hm.exceeds (by omega)
  · exact heq
  · have := hm.least m' hm'.sampled hgt
    exact absurd hm'.exceeds (by omega)

/-- Without weight there is no median. -/
theorem IsMedian.pos (hm : IsMedian es m) : 0 < totalWeight es := by
  have hle := cumulative_le es m
  have hlt := hm.exceeds
  omega

/-- In sorted order the median is where the running weight crosses half the total. -/
theorem isMedian_of_crossing {before after : List (Sample × ℕ)} {e : Sample × ℕ}
    (hsorted : (before ++ e :: after).Pairwise (fun a b => a.1 ≤ b.1))
    (hbefore : 2 * totalWeight before ≤ totalWeight (before ++ e :: after))
    (hcross : totalWeight (before ++ e :: after) < 2 * (totalWeight before + e.2)) :
    IsMedian (before ++ e :: after) e.1 where
  sampled := by simp
  exceeds := by
    have hle : ∀ a ∈ before ++ [e], a.1 ≤ e.1 := by
      intro a ha
      rcases List.mem_append.mp ha with hmem | hmem
      · exact (List.pairwise_append.mp hsorted).2.2 a hmem e List.mem_cons_self
      · exact (congrArg Prod.fst (List.mem_singleton.mp hmem)).le
    have hself : (before ++ [e]).filter (fun a => a.1 ≤ e.1) = before ++ [e] :=
      List.filter_eq_self.mpr (fun a ha => decide_eq_true (hle a ha))
    have hsub : (before ++ [e]).Sublist ((before ++ e :: after).filter (fun a => a.1 ≤ e.1)) := by
      rw [← hself]
      exact List.Sublist.filter _ (by simp)
    have hsum : totalWeight (before ++ [e]) = totalWeight before + e.2 := by
      rw [totalWeight_append]
      simp [totalWeight]
    have := totalWeight_le_of_sublist hsub
    unfold cumulative
    omega
  least   := by
    intro s _ hlt
    have hafter : (e :: after).filter (fun a => a.1 ≤ s) = [] := by
      refine List.filter_eq_nil_iff.mpr (fun a ha => ?_)
      have hle : e.1 ≤ a.1 := by
        rcases List.mem_cons.mp ha with rfl | hmem
        · exact le_rfl
        · exact List.rel_of_pairwise_cons (List.pairwise_append.mp hsorted).2.1 hmem
      exact fun hs => absurd (of_decide_eq_true hs) (not_le.mpr (hlt.trans_le hle))
    have hsub : ((before ++ e :: after).filter (fun a => a.1 ≤ s)).Sublist before := by
      rw [List.filter_append, hafter, List.append_nil]
      exact List.filter_sublist
    have := totalWeight_le_of_sublist hsub
    unfold cumulative
    omega

end Median

/-! ## Weights -/

/-- `AddWeight` and `CompWeight`, where adding may stop at a largest weight. -/
structure Weights (Weight : Type) where
  add     : Weight → Weight → Weight
  lt      : Weight → Weight → Bool
  val     : Weight → ℕ
  cap     : ℕ
  val_le  : ∀ a, val a ≤ cap
  val_add : ∀ a b, val (add a b) = min cap (val a + val b)
  lt_iff  : ∀ a b, lt a b = true ↔ val a < val b

/-- The weights of the fee survey. -/
def amountWeights : Weights Ln.Amount where
  add     := Ln.Amount.add
  lt      := Ln.Amount.lt
  val a   := a.v.toNat
  cap     := 2 ^ 64 - 1
  val_le a  := Nat.le_sub_one_of_lt a.v.toNat_lt
  val_add := Ln.Amount.toNat_add
  lt_iff  := Ln.Amount.lt_iff

/-! ## The accumulator -/

namespace WeightedMedian

structure Entry (Sample Weight : Type) where
  s : Sample
  w : Weight

end WeightedMedian

open WeightedMedian

structure WeightedMedian (Sample Weight : Type) where
  samples     : List (Entry Sample Weight)
  totalWeight : Weight

/-- `std::sort` by the samples. -/
structure Sorting (Sample Weight : Type) [LinearOrder Sample] where
  sort   : List (Entry Sample Weight) → List (Entry Sample Weight)
  perm   : ∀ es, (sort es).Perm es
  sorted : ∀ es, (sort es).Pairwise (fun a b => a.s ≤ b.s)

/-- Sorting is possible. -/
def Sorting.merge (Sample Weight : Type) [LinearOrder Sample] : Sorting Sample Weight where
  sort es   := es.mergeSort (fun a b => a.s ≤ b.s)
  perm es   := List.mergeSort_perm es _
  sorted es := by
    have htrans : ∀ a b c : Entry Sample Weight, decide (a.s ≤ b.s) = true →
        decide (b.s ≤ c.s) = true → decide (a.s ≤ c.s) = true := by
      intro a b c hab hbc
      exact decide_eq_true ((of_decide_eq_true hab).trans (of_decide_eq_true hbc))
    have htotal : ∀ a b : Entry Sample Weight,
        (decide (a.s ≤ b.s) || decide (b.s ≤ a.s)) = true := by
      intro a b
      rw [Bool.or_eq_true, decide_eq_true_iff, decide_eq_true_iff]
      exact le_total a.s b.s
    exact (List.pairwise_mergeSort htrans htotal es).imp of_decide_eq_true

namespace WeightedMedian

variable {Sample Weight : Type} (W : Weights Weight)

/-- `add`. -/
def add (m : WeightedMedian Sample Weight) (s : Sample) (w : Weight) :
    WeightedMedian Sample Weight where
  totalWeight := if m.samples.length = 0 then w else W.add m.totalWeight w
  samples     := m.samples ++ [⟨s, w⟩]

/-- Samples added one after the other. -/
def addAll (m : WeightedMedian Sample Weight) (es : List (Entry Sample Weight)) :
    WeightedMedian Sample Weight := es.foldl (fun m e => m.add W e.s e.w) m

/-- The running weight with one more; there is none before the first sample. -/
def accumulate : Option Weight → Weight → Weight
  | none, w   => w
  | some r, w => W.add r w

/-- The loop of `finalize`. -/
def scan (total : Weight) : Option Weight → List (Entry Sample Weight) → Option Sample
  | _, []            => none
  | running, e :: es =>
      if W.lt total (W.add (accumulate W running e.w) e.w) then some e.s
      else scan total (some (W.add (accumulate W running e.w) e.w)) es

/-- `finalize`; `none` where it throws `NoSamples`. -/
def finalize [LinearOrder Sample] (sorting : Sorting Sample Weight)
    (m : WeightedMedian Sample Weight) : Option Sample :=
  scan W m.totalWeight none (sorting.sort m.samples)

/-! ## What is accumulated -/

variable {W}

/-- The samples with their weights as numbers. -/
def weighed (W : Weights Weight) (es : List (Entry Sample Weight)) : List (Sample × ℕ) :=
  es.map (fun e => (e.s, W.val e.w))

/-- The accumulator holds the samples `es`, and their weight as far as it can be held. -/
structure Holds (W : Weights Weight) (m : WeightedMedian Sample Weight)
    (es : List (Entry Sample Weight)) : Prop where
  samples : m.samples = es
  total   : es ≠ [] → W.val m.totalWeight = min W.cap (Stats.totalWeight (weighed W es))

theorem totalWeight_snoc (es : List (Entry Sample Weight)) (e : Entry Sample Weight) :
    Stats.totalWeight (weighed W (es ++ [e]))
      = Stats.totalWeight (weighed W es) + W.val e.w := by
  simp [weighed, Stats.totalWeight]

/-- **STEP.** -/
theorem Holds.add {m : WeightedMedian Sample Weight} {es : List (Entry Sample Weight)}
    (h : Holds W m es) (e : Entry Sample Weight) :
    Holds W (m.add W e.s e.w) (es ++ [e]) where
  samples := congrArg (· ++ [e]) h.samples
  total   := by
    intro _
    rw [totalWeight_snoc]
    show W.val (if m.samples.length = 0 then e.w else W.add m.totalWeight e.w) = _
    rw [h.samples]
    cases es with
    | nil =>
        rw [if_pos (List.length_nil)]
        have := W.val_le e.w
        simp only [weighed, Stats.totalWeight, List.map_nil, List.sum_nil]
        omega
    | cons e' es =>
        rw [if_neg (by simp), W.val_add, h.total (List.cons_ne_nil _ _)]
        omega

/-- **RUN.** -/
theorem Holds.addAll {m : WeightedMedian Sample Weight} {es : List (Entry Sample Weight)}
    (h : Holds W m es) (es' : List (Entry Sample Weight)) :
    Holds W (m.addAll W es') (es ++ es') := by
  induction es' generalizing m es with
  | nil =>
      rw [List.append_nil]
      exact h
  | cons e es' ih =>
      have := ih (h.add e)
      rw [List.append_assoc] at this
      exact this

/-- A fresh accumulator. -/
theorem Holds.nil (w : Weight) : Holds W (⟨[], w⟩ : WeightedMedian Sample Weight) [] :=
  ⟨rfl, fun h => absurd rfl h⟩

/-! ## The scan -/

/-- The running weight stands for the samples seen: twice their weight. -/
def Running (W : Weights Weight) (seen : List (Entry Sample Weight)) : Option Weight → Prop
  | none   => seen = []
  | some r => W.val r = min W.cap (2 * Stats.totalWeight (weighed W seen))

/-- **STEP.** A sample counts twice. -/
theorem Running.step {seen : List (Entry Sample Weight)} {running : Option Weight}
    (h : Running W seen running) (e : Entry Sample Weight) :
    Running W (seen ++ [e]) (some (W.add (accumulate W running e.w) e.w)) := by
  show W.val _ = _
  rw [totalWeight_snoc, W.val_add]
  have hcap := W.val_le e.w
  cases running with
  | none =>
      have hseen : seen = [] := h
      subst hseen
      simp only [accumulate, weighed, Stats.totalWeight, List.map_nil, List.sum_nil]
      omega
  | some r =>
      have hr : W.val r = min W.cap (2 * Stats.totalWeight (weighed W seen)) := h
      simp only [accumulate, W.val_add, hr]
      omega

/-- What the scan ends with, where the total is short of the largest weight. -/
theorem scan_spec [LinearOrder Sample] {total : Weight} {seen es : List (Entry Sample Weight)}
    {running : Option Weight} (hrunning : Running W seen running)
    (hsorted : (seen ++ es).Pairwise (fun a b => a.s ≤ b.s))
    (htotal : W.val total = Stats.totalWeight (weighed W (seen ++ es)))
    (hcap : W.val total < W.cap)
    (hseen : 2 * Stats.totalWeight (weighed W seen) ≤ W.val total) :
    match scan W total running es with
    | none   => Stats.totalWeight (weighed W (seen ++ es)) = 0
    | some m => IsMedian (weighed W (seen ++ es)) m := by
  induction es generalizing seen running with
  | nil =>
      rw [List.append_nil] at htotal ⊢
      show Stats.totalWeight (weighed W seen) = 0
      omega
  | cons e es ih =>
      have hstep := hrunning.step e
      have htwice : W.val (W.add (accumulate W running e.w) e.w) = _ := hstep
      rw [totalWeight_snoc] at htwice
      have happend : seen ++ e :: es = seen ++ [e] ++ es := by simp
      unfold scan
      by_cases hlt : W.lt total (W.add (accumulate W running e.w) e.w) = true
      · rw [if_pos hlt]
        have hval := (W.lt_iff _ _).mp hlt
        have hweighed : weighed W (seen ++ e :: es)
            = weighed W seen ++ (e.s, W.val e.w) :: weighed W es := by simp [weighed]
        show IsMedian (weighed W (seen ++ e :: es)) e.s
        rw [hweighed] at htotal ⊢
        refine isMedian_of_crossing (e := (e.s, W.val e.w)) ?_ (htotal ▸ hseen) ?_
        · rw [← hweighed]
          exact List.pairwise_map.mpr hsorted
        · show _ < 2 * (_ + W.val e.w)
          omega
      · rw [if_neg hlt]
        have hval : ¬ W.val total < _ := fun hval => hlt ((W.lt_iff _ _).mpr hval)
        rw [happend] at hsorted htotal ⊢
        refine ih hstep hsorted htotal ?_
        rw [totalWeight_snoc]
        omega

/-- Nothing exceeds the largest weight. -/
theorem scan_of_cap_le {total : Weight} (h : W.cap ≤ W.val total) (running : Option Weight)
    (es : List (Entry Sample Weight)) : scan W total running es = none := by
  induction es generalizing running with
  | nil => rfl
  | cons e es ih =>
      have hlt : ¬ W.lt total (W.add (accumulate W running e.w) e.w) = true := by
        intro hlt
        have hval := (W.lt_iff _ _).mp hlt
        have hle := W.val_le (W.add (accumulate W running e.w) e.w)
        omega
      unfold scan
      rw [if_neg hlt]
      exact ih _

/-! ## `finalize` -/

variable [LinearOrder Sample]

/-- The loop over all the samples, sorted. -/
theorem scan_sorted {total : Weight} {es : List (Entry Sample Weight)}
    (sorting : Sorting Sample Weight)
    (htotal : W.val total = Stats.totalWeight (weighed W (sorting.sort es)))
    (hcap : W.val total < W.cap) :
    match scan W total none (sorting.sort es) with
    | none   => Stats.totalWeight (weighed W (sorting.sort es)) = 0
    | some m => IsMedian (weighed W (sorting.sort es)) m := by
  have hrunning : Running W ([] : List (Entry Sample Weight)) none := rfl
  exact scan_spec hrunning (sorting.sorted es) htotal hcap (Nat.zero_le _)

/-- **SPEC.** A total weight that is positive and short of the largest has its median found,
    whichever sorting is used. -/
theorem finalize_isMedian {m : WeightedMedian Sample Weight} {es : List (Entry Sample Weight)}
    (h : Holds W m es) (sorting : Sorting Sample Weight)
    (hpos : 0 < Stats.totalWeight (weighed W es))
    (hcap : Stats.totalWeight (weighed W es) < W.cap) :
    ∃ s, m.finalize W sorting = some s ∧ IsMedian (weighed W es) s := by
  have hne : es ≠ [] := by
    rintro rfl
    exact absurd hpos (lt_irrefl _)
  have hperm : (weighed W (sorting.sort es)).Perm (weighed W es) := (sorting.perm es).map _
  have htotal : W.val m.totalWeight = Stats.totalWeight (weighed W es) := by
    have := h.total hne
    omega
  have hspec := scan_sorted sorting (htotal.trans (totalWeight_perm hperm).symm) (by omega)
  unfold finalize
  rw [h.samples]
  cases hscan : scan W m.totalWeight none (sorting.sort es) with
  | none =>
      rw [hscan] at hspec
      have hzero : Stats.totalWeight (weighed W (sorting.sort es)) = 0 := hspec
      rw [totalWeight_perm hperm] at hzero
      exact absurd hzero hpos.ne'
  | some s =>
      rw [hscan] at hspec
      exact ⟨s, rfl, IsMedian.of_perm hspec hperm⟩

/-- **SPEC.** Any other total weight leaves `NoSamples`. -/
theorem finalize_eq_none {m : WeightedMedian Sample Weight} {es : List (Entry Sample Weight)}
    (h : Holds W m es) (sorting : Sorting Sample Weight)
    (hout : ¬ (0 < Stats.totalWeight (weighed W es)
      ∧ Stats.totalWeight (weighed W es) < W.cap)) :
    m.finalize W sorting = none := by
  have hperm : (weighed W (sorting.sort es)).Perm (weighed W es) := (sorting.perm es).map _
  unfold finalize
  rw [h.samples]
  by_cases hne : es = []
  · rw [hne, List.perm_nil.mp (sorting.perm [])]
    rfl
  · have htotal := h.total hne
    by_cases hcap : W.cap ≤ W.val m.totalWeight
    · exact scan_of_cap_le hcap _ _
    · have hsorted : W.val m.totalWeight
          = Stats.totalWeight (weighed W (sorting.sort es)) := by
        rw [totalWeight_perm hperm]
        omega
      have hspec := scan_sorted sorting hsorted (by omega)
      cases hscan : scan W m.totalWeight none (sorting.sort es) with
      | none => rfl
      | some s =>
          rw [hscan] at hspec
          have hpos := (IsMedian.of_perm hspec hperm).pos
          exact absurd ⟨hpos, by omega⟩ hout

/-- Samples were added, and their median comes out: in whatever order they came, and
    whichever way they are sorted. -/
def FindsMedian (es : List (Entry Sample Ln.Amount)) : Prop :=
  es ≠ [] → ∃ s, IsMedian (weighed amountWeights es) s
    ∧ ∀ (sorting : Sorting Sample Ln.Amount) (order : List (Entry Sample Ln.Amount)),
        order.Perm es →
          (addAll amountWeights ⟨[], ⟨0⟩⟩ order).finalize amountWeights sorting = some s

/-- **HEADLINE**: the median comes out just where there is some weight, and less than the
    largest amount. -/
theorem findsMedian_iff (es : List (Entry Sample Ln.Amount)) :
    FindsMedian es ↔ (es ≠ [] → 0 < Stats.totalWeight (weighed amountWeights es)
      ∧ Stats.totalWeight (weighed amountWeights es) < 2 ^ 64 - 1) := by
  refine forall_congr' (fun _ => ⟨fun ⟨s, _, hfinds⟩ => ?_, fun ⟨hpos, hcap⟩ => ?_⟩)
  · by_contra hout
    have hnone := finalize_eq_none ((Holds.nil ⟨0⟩).addAll es) (Sorting.merge Sample Ln.Amount) hout
    have hsome := hfinds (Sorting.merge Sample Ln.Amount) es (List.Perm.refl es)
    rw [hnone] at hsome
    cases hsome
  · obtain ⟨s, _, hmedian⟩ := finalize_isMedian ((Holds.nil ⟨0⟩).addAll es)
      (Sorting.merge Sample Ln.Amount) hpos hcap
    refine ⟨s, hmedian, fun sorting order horder => ?_⟩
    have hperm : (weighed amountWeights order).Perm (weighed amountWeights es) := horder.map _
    rw [← totalWeight_perm hperm] at hpos hcap
    obtain ⟨s', hs', hmedian'⟩ := finalize_isMedian ((Holds.nil ⟨0⟩).addAll order) sorting hpos hcap
    rw [hs', (hmedian'.of_perm hperm).unique hmedian]

end WeightedMedian

end Stats
