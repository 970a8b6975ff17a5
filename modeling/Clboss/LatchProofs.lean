import Clboss.MachineProofs

/-! # Latches — slots that are opened, and closed by the first claim

    A machine with slots under keys.  An event may open a slot and may lay claim
    to one; a claim to an open slot shows and closes it, a claim to a closed one
    is lost.  `Law` says this of a single step.  From it the runs: while a slot is
    not opened again, what shows of it is the FIRST of the claims to it
    (`shown_of_run`), and it never shows more often than it was opened
    (`length_shown_le`). -/

namespace Latch

variable {σ ε τ K R : Type}

/-- What the steps of a run yield, in order. -/
def along (step : σ → ε → Option (σ × List τ)) (f : σ → ε → Option R) : σ → List ε → List R
  | _, []      => []
  | s, e :: es =>
      (f s e).toList ++ match step s e with
        | none         => []
        | some (s', _) => along step f s' es

/-- A yield that the events decide. -/
theorem along_of_events {step : σ → ε → Option (σ × List τ)} {f : ε → Option R} {s s' : σ}
    {es : List ε} {tr : List τ} (hrun : Machine.run step s es = some (s', tr)) :
    along step (fun _ e => f e) s es = es.filterMap f := by
  induction es generalizing s tr with
  | nil => rfl
  | cons e es ih =>
      obtain ⟨s₁, out, tr', hs, hr, rfl⟩ := Machine.run_cons hrun
      rw [along, hs]
      simp only [ih hr, List.filterMap_cons]
      cases f e with
      | none => rfl
      | some r => rfl

/-- What a step does to the slot of a key. -/
structure Law (step : σ → ε → Option (σ × List τ)) (isOpen : σ → K → Bool)
    (opens : σ → ε → K → Bool) (claim : σ → ε → K → Option R) (shows : K → τ → Option R) :
    Prop where
  shown : ∀ {s e s' out}, step s e = some (s', out) → ∀ k,
    out.filterMap (shows k) = if isOpen s k || opens s e k then (claim s e k).toList else []
  kept : ∀ {s e s' out}, step s e = some (s', out) → ∀ k,
    isOpen s' k = ((isOpen s k || opens s e k) && (claim s e k).isNone)

section Runs

variable {step : σ → ε → Option (σ × List τ)} {isOpen : σ → K → Bool}
variable {opens : σ → ε → K → Bool} {claim : σ → ε → K → Option R} {shows : K → τ → Option R}

/-- **RUN**: while a slot is not opened again, it shows the first claim to it if it
    was open, and stays open if there was none. -/
theorem shown_of_run (law : Law step isOpen opens claim shows) {s s' : σ} {es : List ε}
    {tr : List τ} {k : K} (hrun : Machine.run step s es = some (s', tr))
    (hopens : Machine.Along step (fun s e => opens s e k = false) s es) :
    tr.filterMap (shows k)
        = (if isOpen s k then along step (fun s e => claim s e k) s es else []).take 1
      ∧ isOpen s' k = (isOpen s k && (along step (fun s e => claim s e k) s es).isEmpty) := by
  induction es generalizing s tr with
  | nil =>
      simp only [Machine.run, Option.some.injEq, Prod.mk.injEq] at hrun
      obtain ⟨rfl, rfl⟩ := hrun
      simp [along]
  | cons e es ih =>
      obtain ⟨s₁, out, tr', hs, hr, rfl⟩ := Machine.run_cons hrun
      obtain ⟨hclosed, hrest⟩ := hopens
      rw [hs] at hrest
      obtain ⟨hshown, hkept⟩ := ih hr hrest
      have hout := law.shown hs k
      have hopen := law.kept hs k
      rw [hclosed, Bool.or_false] at hout hopen
      rw [List.filterMap_append, hout, hshown, hkept, hopen, along, hs]
      cases isOpen s k with
      | false => simp
      | true =>
          cases claim s e k with
          | none => simp
          | some r => simp

/-- A step shows a claim or leaves a slot open for each time it was opened, not both. -/
theorem claim_budget (a b : Bool) (c : Option R) :
    (if a || b then c.toList else []).length + ((a || b) && c.isNone).toNat
      ≤ (if b then some () else none).toList.length + a.toNat := by
  cases a with
  | false =>
      cases b with
      | false => simp
      | true => cases c <;> simp
  | true =>
      cases b with
      | false => cases c <;> simp
      | true => cases c <;> simp

/-- **RUN**: a slot shows no more often than it was opened. -/
theorem length_shown_le (law : Law step isOpen opens claim shows) {s s' : σ} {es : List ε}
    {tr : List τ} (k : K) (hrun : Machine.run step s es = some (s', tr)) :
    (tr.filterMap (shows k)).length + (isOpen s' k).toNat
      ≤ (along step (fun s e => if opens s e k then some () else none) s es).length
        + (isOpen s k).toNat := by
  induction es generalizing s tr with
  | nil =>
      simp only [Machine.run, Option.some.injEq, Prod.mk.injEq] at hrun
      obtain ⟨rfl, rfl⟩ := hrun
      simp [along]
  | cons e es ih =>
      obtain ⟨s₁, out, tr', hs, hr, rfl⟩ := Machine.run_cons hrun
      have hrest := ih hr
      have hbudget := claim_budget (isOpen s k) (opens s e k) (claim s e k)
      rw [← law.shown hs k, ← law.kept hs k] at hbudget
      rw [along, hs]
      simp only [List.filterMap_append, List.length_append]
      omega

end Runs

end Latch
