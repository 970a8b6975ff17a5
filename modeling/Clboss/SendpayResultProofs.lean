import Clboss.DoubleProofs
import Clboss.LinkedTableProofs
import Clboss.MachineProofs

/-! # `Boss::Mod::SendpayResultMonitor` — which peer a payment went through

    A `sendpay` or `sendonion` is recorded under its payment hash and part when
    it is commanded, and its result is told with what was recorded.  The length
    of its route is not always known and stands in a second table, which came
    later.  A payment that is tried again REPLACES its record; that the route
    length of the earlier attempt goes with it is left to the foreign key
    between the two. -/

namespace SendpayResultMonitor

open Machine LinkedTable UniqueTable

variable {N H : Type} [DecidableEq H]

/-! ## The tables -/

/-- A row of `SendpayResultMonitor`. -/
structure Pending (N H : Type) where
  paymentHash : H
  partid      : ℕ
  firstHop    : N
  creation    : Double

/-- A row of `SendpayResultMonitor_rl`. -/
structure RouteLen (H : Type) where
  paymentHash : H
  partid      : ℕ
  routeLen    : ℕ

def Pending.key (r : Pending N H) : H × ℕ := (r.paymentHash, r.partid)

def RouteLen.key (r : RouteLen H) : H × ℕ := (r.paymentHash, r.partid)

abbrev Db (N H : Type) [DecidableEq H] : Type :=
  Linked (Pending.key (N := N) (H := H)) (RouteLen.key (H := H))

/-- What is recorded of a command. -/
structure Recording (N H : Type) where
  paymentHash : H
  partid      : ℕ
  firstHop    : N
  creation    : Double
  routeLen    : Option ℕ
deriving DecidableEq

def Recording.key (rec : Recording N H) : H × ℕ := (rec.paymentHash, rec.partid)

def Recording.pending (rec : Recording N H) : Pending N H :=
  ⟨rec.paymentHash, rec.partid, rec.firstHop, rec.creation⟩

/-- The transaction of `record_pending_sendpay`. -/
def recordPendingSendpay (db : Db N H) (rec : Recording N H) : Db N H :=
  match rec.routeLen with
  | none     => db.replace rec.pending
  | some len =>
      (db.replace rec.pending).replaceChild ⟨rec.paymentHash, rec.partid, len⟩
        (Option.isSome_iff_exists.mpr ⟨_, db.parent_replace_self rec.pending⟩)

/-- `get_sendpay_data`. -/
def getSendpayData (db : Db N H) (paymentHash : H) (partid : ℕ) :
    Option (N × Double × Option ℕ) :=
  (db.parents.get (paymentHash, partid)).map fun r =>
    (r.firstHop, r.creation, (db.children.get (paymentHash, partid)).map RouteLen.routeLen)

/-- The transaction of `on_periodic`. -/
def deleteOld (db : Db N H) (currentTime : Double) : Db N H :=
  db.delete (fun r => (r.creation.add (.finite (30 * 24 * 3600))).lt currentTime)

/-! ## The commands -/

/-- `process_sendpay`: the hops of the route, `none` where there is no valid id. -/
def processSendpay (paymentHash : H) (partid : ℕ) (route : List (Option N)) (now : Double) :
    Option (Recording N H) :=
  match route with
  | some firstHop :: _ => some ⟨paymentHash, partid, firstHop, now, some route.length⟩
  | _                  => none

/-- `process_sendonion`: the number of shared secrets, if they are there. -/
def processSendonion (paymentHash : H) (partid : ℕ) (firstHop : Option N)
    (sharedSecrets : Option ℕ) (now : Double) : Option (Recording N H) :=
  firstHop.map fun firstHop => ⟨paymentHash, partid, firstHop, now, sharedSecrets⟩

/-! ## The module -/

structure State (N H : Type) [DecidableEq H] where
  db : Db N H := Linked.empty

/-- What happens, as its transaction runs. -/
inductive Event (N H : Type) where
  | sendpay (paymentHash : H) (partid : ℕ) (route : List (Option N)) (now : Double)
  | sendonion (paymentHash : H) (partid : ℕ) (firstHop : Option N) (sharedSecrets : Option ℕ)
      (now : Double)
  | success (paymentHash : H) (partid : ℕ) (now : Double)
  | failure (paymentHash : H) (partid erringIndex : ℕ) (now : Double)
  /-- `Msg::Timer10Minutes`. -/
  | periodic (now : Double)

/-- `Msg::SendpayResult`. -/
structure SendpayResult (N H : Type) where
  creationTime       : Double
  completionTime     : Double
  firstHop           : N
  paymentHash        : H
  partid             : ℕ
  success            : Bool
  reachedDestination : Bool
deriving DecidableEq

inductive Output (N H : Type) where
  | recorded (rec : Recording N H)
  /-- The message, and the erring index it was made for. -/
  | result (r : SendpayResult N H) (erringIndex : ℕ)
deriving DecidableEq

def State.record (s : State N H) (rec : Option (Recording N H)) :
    State N H × List (Output N H) :=
  match rec with
  | none     => (s, [])
  | some rec => ({ s with db := recordPendingSendpay s.db rec }, [.recorded rec])

/-- `on_sendpay_resolve`. -/
def State.onSendpayResolve (s : State N H) (paymentHash : H) (partid : ℕ) (success : Bool)
    (erringIndex : ℕ) (now : Double) : State N H × List (Output N H) :=
  match getSendpayData s.db paymentHash partid with
  | none => (s, [])
  | some (firstHop, creation, routeLen) =>
      let reachedDestination :=
        if !success then
          match routeLen with
          | some routeLen => if routeLen ≤ erringIndex then true else success
          | none          => success
        else success
      ({ s with db := s.db.delete (fun r => decide (r.key = (paymentHash, partid))) },
        [.result ⟨creation, now, firstHop, paymentHash, partid, success, reachedDestination⟩
          erringIndex])

def step (s : State N H) : Event N H → Option (State N H × List (Output N H))
  | .sendpay paymentHash partid route now =>
      some (s.record (processSendpay paymentHash partid route now))
  | .sendonion paymentHash partid firstHop sharedSecrets now =>
      some (s.record (processSendonion paymentHash partid firstHop sharedSecrets now))
  | .success paymentHash partid now => some (s.onSendpayResolve paymentHash partid true 0 now)
  | .failure paymentHash partid erringIndex now =>
      some (s.onSendpayResolve paymentHash partid false erringIndex now)
  | .periodic now => some ({ s with db := deleteOld s.db now }, [])

/-! ## What a result is to say -/

def SendpayResult.key (r : SendpayResult N H) : H × ℕ := (r.paymentHash, r.partid)

/-- It is about a payment hash and part. -/
def Output.About (k : H × ℕ) : Output N H → Prop
  | .recorded rec => rec.key = k
  | .result r _   => r.key = k

/-- A result of the latest recording before it, and the only one of it. -/
def OfLatest (before : List (Output N H)) (r : SendpayResult N H) (erringIndex : ℕ) : Prop :=
  ∃ rec : Recording N H, Since (fun o => o = .recorded rec) (Output.About r.key) before
    ∧ rec.key = r.key ∧ r.firstHop = rec.firstHop ∧ r.creationTime = rec.creation
    ∧ (r.reachedDestination = true
      ↔ r.success = true ∨ ∃ len, rec.routeLen = some len ∧ len ≤ erringIndex)

variable {db : Db N H} {k : H × ℕ} {s s' : State N H} {e : Event N H} {tr out : List (Output N H)}

/-! ## The tables, step by step -/

/-- **SPEC (record)**: row and route length are those of the recording. -/
theorem record_self (db : Db N H) (rec : Recording N H) :
    (recordPendingSendpay db rec).parents.get rec.key = some rec.pending
      ∧ ((recordPendingSendpay db rec).children.get rec.key).map RouteLen.routeLen
        = rec.routeLen := by
  unfold recordPendingSendpay
  split
  · rename_i hlen
    refine ⟨db.parent_replace_self rec.pending, ?_⟩
    rw [hlen]
    exact congrArg _ (db.child_replace_self rec.pending)
  · rename_i len hlen
    refine ⟨db.parent_replace_self rec.pending, ?_⟩
    rw [hlen]
    exact congrArg (Option.map RouteLen.routeLen) (Linked.child_replaceChild_self _ _ _)

theorem record_ne (db : Db N H) {rec : Recording N H} (hk : k ≠ rec.key) :
    (recordPendingSendpay db rec).parents.get k = db.parents.get k
      ∧ (recordPendingSendpay db rec).children.get k = db.children.get k := by
  unfold recordPendingSendpay
  split
  · exact ⟨db.parent_replace_ne hk, db.child_replace_ne hk⟩
  · refine ⟨db.parent_replace_ne hk, ?_⟩
    rw [Linked.child_replaceChild_ne]
    · exact db.child_replace_ne hk
    · exact hk

/-- What is not deleted is as it was, with its route length. -/
theorem kept_of_delete {p : Pending N H → Bool} {row : Pending N H}
    (h : (db.delete p).parents.get k = some row) :
    db.parents.get k = some row ∧ p row = false
      ∧ (db.delete p).children.get k = db.children.get k := by
  have hchild := db.child_delete p k
  rw [h] at hchild
  rw [db.parent_delete] at h
  obtain ⟨hrow, hp⟩ := Option.filter_eq_some_iff.mp h
  refine ⟨hrow, by simpa using hp, ?_⟩
  rw [hchild]
  cases db.children.get k <;> rfl

/-- **INVARIANT**: every row is of the latest recording of its key, and that has had no result. -/
def State.Recorded (s : State N H) (tr : List (Output N H)) : Prop :=
  ∀ k row, s.db.parents.get k = some row → ∃ rec : Recording N H,
    Since (fun o => o = .recorded rec) (Output.About k) tr ∧ rec.key = k ∧ row = rec.pending
      ∧ (s.db.children.get k).map RouteLen.routeLen = rec.routeLen

/-- Deleting keeps it, where nothing was shown about what is left. -/
theorem State.Recorded.delete (h : s.Recorded tr) (p : Pending N H → Bool)
    (hout : ∀ k row, s.db.parents.get k = some row → p row = false →
      ∀ o ∈ out, ¬ o.About k) :
    State.Recorded { s with db := s.db.delete p } (tr ++ out) := by
  intro k row hrow
  obtain ⟨hold, hp, hchild⟩ := kept_of_delete hrow
  obtain ⟨rec, hsince, hkey, hpending, hlen⟩ := h k row hold
  refine ⟨rec, hsince.append (hout k row hold hp), hkey, hpending, ?_⟩
  exact (congrArg (Option.map RouteLen.routeLen) hchild).trans hlen

theorem State.Recorded.record (h : s.Recorded tr) (rec : Option (Recording N H))
    (hs : s.record rec = (s', out)) : s'.Recorded (tr ++ out) := by
  unfold State.record at hs
  split at hs
  · cases hs
    rwa [List.append_nil]
  · rename_i rec
    obtain ⟨rfl, rfl⟩ := Prod.ext_iff.mp hs
    intro k row hrow
    by_cases hk : k = rec.key
    · subst hk
      obtain ⟨hparent, hchild⟩ := record_self s.db rec
      obtain rfl := Option.some.inj (hparent.symm.trans hrow)
      exact ⟨rec, ⟨tr, _, [], rfl, rfl, nofun⟩, rfl, rfl, hchild⟩
    · obtain ⟨hparent, hchild⟩ := record_ne s.db hk
      obtain ⟨rec', hsince, hkey, hpending, hlen⟩ := h k row (hparent.symm.trans hrow)
      refine ⟨rec', hsince.append (fun o ho => ?_), hkey, hpending, ?_⟩
      · rw [List.mem_singleton.mp ho]
        exact fun habout => hk habout.symm
      · exact (congrArg (Option.map RouteLen.routeLen) hchild).trans hlen

/-- **STEP**: a result is of the latest recording. -/
theorem State.Recorded.resolve (h : s.Recorded tr) {paymentHash : H} {partid erringIndex : ℕ}
    {success : Bool} {now : Double}
    (hs : s.onSendpayResolve paymentHash partid success erringIndex now = (s', out)) :
    s'.Recorded (tr ++ out) ∧ (out = [] ∨ ∃ r, out = [.result r erringIndex]
      ∧ OfLatest tr r erringIndex) := by
  unfold State.onSendpayResolve at hs
  split at hs
  · cases hs
    refine ⟨?_, .inl rfl⟩
    rwa [List.append_nil]
  · rename_i firstHop creation routeLen hdata
    obtain ⟨rfl, rfl⟩ := Prod.ext_iff.mp hs
    obtain ⟨row, hrow, hfound⟩ := Option.map_eq_some_iff.mp hdata
    obtain ⟨rec, hsince, hkey, hpending, hlen⟩ := h _ row hrow
    obtain ⟨hhop, hrest⟩ := Prod.ext_iff.mp hfound
    obtain ⟨hcreation, hroute⟩ := Prod.ext_iff.mp hrest
    replace hhop : row.firstHop = firstHop := hhop
    replace hcreation : row.creation = creation := hcreation
    replace hroute : rec.routeLen = routeLen := hlen.symm.trans hroute
    rw [hpending] at hhop hcreation
    refine ⟨h.delete _ (fun k row' hrow' hp o ho => ?_), .inr ⟨_, rfl, rec, hsince, hkey,
      hhop.symm, hcreation.symm, ?_⟩⟩
    · rw [List.mem_singleton.mp ho]
      intro habout
      -- the row of this key is the one that is deleted
      have hrowkey : row'.key = k := Table.key_of_get hrow'
      have hne := of_decide_eq_false hp
      exact hne (hrowkey.trans habout.symm)
    · rw [hroute]
      cases success with
      | true => simp
      | false =>
          cases routeLen with
          | none => simp
          | some len =>
              by_cases hle : len ≤ erringIndex
              · simp [hle]
              · simp [hle]

theorem recorded_step (h : s.Recorded tr) (hs : step s e = some (s', out)) :
    s'.Recorded (tr ++ out) ∧ ((∀ o ∈ out, ∃ rec, o = .recorded rec)
      ∨ ∃ r erringIndex, out = [.result r erringIndex] ∧ OfLatest tr r erringIndex) := by
  have hrecord : ∀ rec, s.record rec = (s', out) → s'.Recorded (tr ++ out)
      ∧ ((∀ o ∈ out, ∃ rec, o = .recorded rec)
        ∨ ∃ r erringIndex, out = [.result r erringIndex] ∧ OfLatest tr r erringIndex) := by
    intro rec hrec
    refine ⟨h.record rec hrec, .inl ?_⟩
    unfold State.record at hrec
    split at hrec
    · cases hrec
      nofun
    · obtain ⟨-, rfl⟩ := Prod.ext_iff.mp hrec
      exact fun o ho => ⟨_, List.mem_singleton.mp ho⟩
  have hresolve : ∀ paymentHash partid success erringIndex now,
      s.onSendpayResolve paymentHash partid success erringIndex now = (s', out) →
      s'.Recorded (tr ++ out) ∧ ((∀ o ∈ out, ∃ rec, o = .recorded rec)
        ∨ ∃ r erringIndex, out = [.result r erringIndex] ∧ OfLatest tr r erringIndex) := by
    intro paymentHash partid success erringIndex now hres
    obtain ⟨hrecorded, rfl | ⟨r, hout, hlatest⟩⟩ := h.resolve hres
    · exact ⟨hrecorded, .inl nofun⟩
    · exact ⟨hrecorded, .inr ⟨r, erringIndex, hout, hlatest⟩⟩
  cases e with
  | sendpay paymentHash partid route now => exact hrecord _ (Option.some.inj hs)
  | sendonion paymentHash partid firstHop sharedSecrets now =>
      exact hrecord _ (Option.some.inj hs)
  | success paymentHash partid now => exact hresolve _ _ _ _ _ (Option.some.inj hs)
  | failure paymentHash partid erringIndex now => exact hresolve _ _ _ _ _ (Option.some.inj hs)
  | periodic now =>
      cases hs
      have hshown : ∀ o : Output N H, o ∉ [] := fun _ => List.not_mem_nil
      exact ⟨h.delete _ fun _ _ _ _ o ho => absurd ho (hshown o),
        .inl fun o ho => absurd ho (hshown o)⟩

/-! ## Runs -/

/-- Every result so far is of the latest recording before it. -/
def AllOfLatest (tr : List (Output N H)) : Prop :=
  ∀ before r erringIndex after, tr = before ++ .result r erringIndex :: after →
    OfLatest before r erringIndex

omit [DecidableEq H] in
theorem AllOfLatest.append (h : AllOfLatest tr) (hout : (∀ o ∈ out, ∃ rec, o = .recorded rec)
    ∨ ∃ r erringIndex, out = [.result r erringIndex] ∧ OfLatest tr r erringIndex) :
    AllOfLatest (tr ++ out) := by
  intro before r erringIndex after heq
  rcases List.append_eq_append_iff.mp heq with ⟨mid, rfl, hmid⟩ | ⟨mid, hbefore, hmid⟩
  · -- the result is a new one
    rcases hout with hrec | ⟨r', n, rfl, hlatest⟩
    · have hmem : Output.result r erringIndex ∈ out := by
        rw [hmid]
        exact List.mem_append_right _ List.mem_cons_self
      obtain ⟨rec, hrec⟩ := hrec _ hmem
      cases hrec
    · cases mid with
      | nil =>
          obtain ⟨hr, -⟩ := List.cons.inj hmid
          cases hr
          rw [List.append_nil]
          exact hlatest
      | cons o mid =>
          exact absurd (List.cons.inj hmid).2 (by simp)
  · cases mid with
    | nil =>
        rw [List.append_nil] at hbefore
        subst hbefore
        rcases hout with hrec | ⟨r', n, rfl, hlatest⟩
        · have hmem : Output.result r erringIndex ∈ out := by
            rw [List.nil_append] at hmid
            rw [← hmid]
            exact List.mem_cons_self
          obtain ⟨rec, hrec⟩ := hrec _ hmem
          cases hrec
        · obtain ⟨hr, -⟩ := List.cons.inj hmid
          cases hr
          exact hlatest
    | cons o mid =>
        obtain ⟨rfl, -⟩ := List.cons.inj hmid
        exact h before r erringIndex mid hbefore

theorem recorded_run {es : List (Event N H)} (h : run step {} es = some (s, tr)) :
    s.Recorded tr ∧ AllOfLatest tr := by
  refine run_invariant (I := fun _ tr s => s.Recorded tr ∧ AllOfLatest tr) ⟨?_, ?_⟩ ?_
    (along_true _ _) h
  · intro k row hrow
    cases hrow
  · intro before r n after heq
    exact absurd heq (by simp)
  · intro es tr s e s' out hI _ hs
    obtain ⟨hrecorded, hout⟩ := recorded_step hI.1 hs
    exact ⟨hrecorded, hI.2.append hout⟩

/-- **HEADLINE**: every result is of the latest recording of its payment hash and part, and
    between two results of one there is another recording of it. -/
theorem results_of_latest {es : List (Event N H)} (h : run step {} es = some (s, tr)) :
    AllOfLatest tr
      ∧ ∀ l₁ r n l₂ r' n' l₃, tr = l₁ ++ .result r n :: (l₂ ++ .result r' n' :: l₃) →
          r.key = r'.key → ∃ rec : Recording N H, .recorded rec ∈ l₂ ∧ rec.key = r'.key := by
  have hall := (recorded_run h).2
  refine ⟨hall, fun l₁ r n l₂ r' n' l₃ heq hkey => ?_⟩
  obtain ⟨rec, hsince, hrec, -⟩ := hall (l₁ ++ .result r n :: l₂) r' n' l₃ (by rw [heq]; simp)
  refine ⟨rec, ?_, hrec⟩
  rcases since_append hsince with ⟨m₁, o, m₂, hsplit, rfl, hnone⟩ | ⟨-, hnone⟩
  · cases m₁ with
    | nil => cases (List.cons.inj hsplit).1
    | cons o' m₁ =>
        rw [(List.cons.inj hsplit).2]
        exact List.mem_append_right _ List.mem_cons_self
  · exact absurd hkey (hnone _ List.mem_cons_self)

/-- A part is tried again through another hop and with an unknown length; the stale length 2
    of the first attempt does not make the failure reach the destination. -/
theorem results_of_latest_retried :
    ∃ s tr, run step ({} : State ℕ ℕ)
        [.sendpay 7 1 [some 10, some 11] (.finite 100),
          .sendonion 7 1 (some 20) none (.finite 200), .failure 7 1 2 (.finite 300),
          .failure 7 1 2 (.finite 301)] = some (s, tr)
      ∧ tr = [.recorded ⟨7, 1, 10, .finite 100, some 2⟩, .recorded ⟨7, 1, 20, .finite 200, none⟩,
        .result ⟨.finite 200, .finite 300, 20, 7, 1, false, false⟩ 2]
      ∧ AllOfLatest tr := by
  have hrun : (run step ({} : State ℕ ℕ)
      [.sendpay 7 1 [some 10, some 11] (.finite 100),
        .sendonion 7 1 (some 20) none (.finite 200), .failure 7 1 2 (.finite 300),
        .failure 7 1 2 (.finite 301)]).map Prod.snd
      = some [.recorded ⟨7, 1, 10, .finite 100, some 2⟩,
        .recorded ⟨7, 1, 20, .finite 200, none⟩,
        .result ⟨.finite 200, .finite 300, 20, 7, 1, false, false⟩ 2] := by
    decide +kernel
  obtain ⟨⟨s, tr⟩, h, htr⟩ := Option.map_eq_some_iff.mp hrun
  exact ⟨s, tr, h, htr, (results_of_latest h).1⟩

end SendpayResultMonitor
