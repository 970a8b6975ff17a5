import Clboss.SwapManagerProofs

/-! # `Boss::ModG::Swapper` — how often a swapper asks for a swap

    Each swapper has ONE row: the swap it waits for, the height until which it is
    blocked, and the height after which it forgets.  A trigger passes through a
    question on the bus and a queue for the database before it looks at the row,
    and what it finds then it acts on in the SAME transaction, which the
    `SwapManager` commits or rolls back.

    Anything may happen in between: blocks, other triggers, responses.  Still a
    request goes out only when the row names no swap and every back-off that was
    ever recorded is over (`raises_paced`). -/

namespace Swapper

open Ln
open SwapManager (Uuid)

/-! ## The row -/

/-- `ignored_blocks`. -/
def ignoredBlocks : UInt32 := 6

/-- `swap_timeout`. -/
def swapTimeout : UInt32 := 432

/-- `min_amount`, a thousandth of a bitcoin. -/
def minAmount : Amount := .sat 100000

/-- A `forget_after` that never comes. -/
def forgetNever : UInt32 := 5000000

/-- A row of `"ModG::Swapper"`; the empty text is `none`. -/
structure Row where
  name         : String
  swapUuid     : Option Uuid
  blockedUntil : UInt32
  forgetAfter  : UInt32
deriving DecidableEq

namespace Row

/-- What `dbinit` inserts, and what a row that is not there counts as. -/
def init (name : String) : Row := ⟨name, none, 0, forgetNever⟩

/-- The condition of the `SELECT` in `continue_swap`. -/
def Free (r : Row) (height : UInt32) : Prop := r.swapUuid = none ∧ r.blockedUntil < height

instance (r : Row) (height : UInt32) : Decidable (r.Free height) :=
  inferInstanceAs (Decidable (_ ∧ _))

/-- The `UPDATE` after the callback says no. -/
def delay (r : Row) (height : UInt32) : Row := { r with blockedUntil := height + ignoredBlocks }

/-- The `UPDATE` for a new swap. -/
def request (r : Row) (uuid : Uuid) (height : UInt32) : Row :=
  { r with
    swapUuid := some uuid
    blockedUntil := height + ignoredBlocks
    forgetAfter := height + swapTimeout }

/-- The bumped `blocked_until` of `on_swap_response`. -/
def bump (r : Row) (height : Option UInt32) : UInt32 :=
  match height with
  | some h => if h + ignoredBlocks > r.blockedUntil then h + ignoredBlocks else r.blockedUntil
  | none   => r.blockedUntil + ignoredBlocks

/-- `on_swap_response`, on a row that may be about another swap. -/
def respond (r : Row) (uuid : Uuid) (height : Option UInt32) : Row :=
  if r.swapUuid = some uuid then
    { r with swapUuid := none, blockedUntil := r.bump height, forgetAfter := forgetNever }
  else r

/-- The `UPDATE` of `on_block`. -/
def forget (r : Row) (height : UInt32) : Row :=
  if r.forgetAfter < height then { r with swapUuid := none, forgetAfter := forgetNever } else r

end Row

/-! ## One swapper among the others -/

/-- The open transaction, where it is about this swapper. -/
inductive Tx where
  /-- Of a trigger that found the row free at `height`; `raised` once the `SwapManager`
      has it. -/
  | request (uuid : Uuid) (height : UInt32) (amount : Amount) (raised : Bool)
  /-- Of the `SwapManager`, with a response this swapper has seen when it knew `height`. -/
  | response (uuid : Uuid) (height : Option UInt32)
deriving DecidableEq

/-- What shows. -/
inductive Out where
  /-- `SwapRequest`, with the height known at that time. -/
  | swapRequest (uuid : Uuid) (height : UInt32) (minAmount maxAmount : Amount)
  /-- The request is committed; the row was found free at `height`. -/
  | requested (uuid : Uuid) (height : UInt32)
  /-- The callback said no at `height`. -/
  | delayed (height : UInt32)
  /-- The end of the swap is committed, with the back-off recorded. -/
  | answered (uuid : Uuid) (blockedUntil : UInt32)
  /-- The swap is too old and no longer waited for. -/
  | forgot (uuid : Uuid)
deriving DecidableEq

/-- The members, the greenthreads by what they wait for, and the committed row. -/
structure State where
  row         : Row
  /-- `db` is set. -/
  db          : Bool
  blockheight : Option UInt32
  /-- Triggers that wait for the onchain-ignore flag. -/
  asking      : Nat
  /-- Triggers that wait for the database. -/
  continuing  : Nat
  /-- `on_block`s that wait for the database. -/
  blocks      : Nat
  tx          : Option Tx
deriving DecidableEq

/-- The start of the process on a database with the given row. -/
def State.start (row : Row) : State := ⟨row, false, none, 0, 0, 0, none⟩

/-- What can happen. -/
inductive Event where
  | dbResource
  | block (height : UInt32)
  | triggerSwap
  /-- The flag comes in. -/
  | ignoreFlag (ignore : Bool)
  /-- A greenthread of `on_block` has the database. -/
  | onBlock
  /-- A trigger has the database; the uuid it would draw and what its callback says. -/
  | continueSwap (uuid : Uuid) (ok : Bool) (amount : Amount)
  /-- The request has been logged, and is raised. -/
  | raise
  /-- A response, in a transaction of its sender. -/
  | swapResponse (uuid : Uuid)
  /-- The `SwapManager` commits the open transaction. -/
  | commit
  /-- The open transaction is rolled back, by whoever holds it. -/
  | rollback
deriving DecidableEq

/-- `continue_swap`, with the database. -/
def continueSwap (s : State) (height : UInt32) (uuid : Uuid) (ok : Bool) (amount : Amount) :
    State × List Out :=
  if s.row.Free height then
    if !ok || amount = .sat 0 then
      ({ s with row := s.row.delay height }, [.delayed height])
    else
      let amount := if amount.v < minAmount.v then minAmount else amount
      ({ s with tx := some (.request uuid height amount false) }, [])
  else (s, [])

/-- The commit of the open transaction. -/
def commit (s : State) : Tx → Option (State × List Out)
  | .request _ _ _ false        => none
  | .request uuid height _ true =>
      some ({ s with row := s.row.request uuid height, tx := none }, [.requested uuid height])
  | .response uuid height       =>
      some ({ s with row := s.row.respond uuid height, tx := none },
        if s.row.swapUuid = some uuid then [.answered uuid (s.row.bump height)] else [])

/-- `on_block`, with the database. -/
def onBlock (s : State) (height : UInt32) : State × List Out :=
  ({ s with row := s.row.forget height },
    if s.row.forgetAfter < height then s.row.swapUuid.toList.map .forgot else [])

def step (s : State) : Event → Option (State × List Out)
  | .dbResource => some ({ s with db := true }, [])
  | .block height =>
      some ({ s with
        blockheight := some height, blocks := if s.db then s.blocks + 1 else s.blocks }, [])
  | .triggerSwap =>
      if s.db && s.blockheight.isSome then some ({ s with asking := s.asking + 1 }, [])
      else some (s, [])
  | .ignoreFlag ignore =>
      match s.asking with
      | 0     => none
      | n + 1 => some ({ s with
          asking := n, continuing := if ignore then s.continuing else s.continuing + 1 }, [])
  | .onBlock =>
      match s.tx, s.blocks, s.blockheight with
      | none, n + 1, some height => some (onBlock { s with blocks := n } height)
      | _, _, _                  => none
  | .continueSwap uuid ok amount =>
      match s.tx, s.continuing, s.blockheight with
      | none, n + 1, some height =>
          some (continueSwap { s with continuing := n } height uuid ok amount)
      | _, _, _                  => none
  | .raise =>
      match s.tx, s.blockheight with
      | some (.request uuid height amount false), some now =>
          some ({ s with tx := some (.request uuid height amount true) },
            [.swapRequest uuid now minAmount amount])
      | _, _ => none
  | .swapResponse uuid =>
      match s.tx with
      | none   => some ({ s with tx := some (.response uuid s.blockheight) }, [])
      | some _ => none
  | .commit =>
      match s.tx with
      | none    => none
      | some tx => commit s tx
  | .rollback =>
      match s.tx with
      | none   => none
      | some _ => some ({ s with tx := none }, [])

/-- A life of the process, on a database with the given row. -/
def run (row : Row) (es : List Event) : Option (State × List Out) :=
  Machine.run step (State.start row) es

/-! ## What is promised -/

/-- The back-off that is in the table from then on. -/
def Out.records : Out → Option UInt32
  | .requested _ height        => some (height + ignoredBlocks)
  | .delayed height            => some (height + ignoredBlocks)
  | .answered _ blockedUntil   => some blockedUntil
  | _                          => none

/-- The swapper no longer waits for the swap. -/
def Out.Settles (uuid : Uuid) (o : Out) : Prop :=
  (∃ blockedUntil, o = .answered uuid blockedUntil) ∨ o = .forgot uuid

/-- The swap was requested, and since then neither answered nor forgotten. -/
def Waits (uuid : Uuid) (tr : List Out) : Prop :=
  Machine.Since (fun o => ∃ height, o = .requested uuid height) (·.Settles uuid) tr

/-- The heights of the blocks do not decrease. -/
def Ascends (s : State) (e : Event) : Prop :=
  ∀ height, e = .block height → ∀ now ∈ s.blockheight, now ≤ height

instance (s : State) (e : Event) : Decidable (Ascends s e) :=
  match e, hnow : s.blockheight with
  | .block height, some now =>
      decidable_of_iff (now ≤ height) (by simp [Ascends, hnow])
  | .block height, none => .isTrue (by simp [Ascends, hnow])
  | .dbResource, _ | .triggerSwap, _ | .ignoreFlag _, _ | .onBlock, _ | .continueSwap .., _
  | .raise, _ | .swapResponse _, _ | .commit, _ | .rollback, _ => .isTrue (fun _ he => nomatch he)

/-! ## What a step does -/

/-- What a step can do to the row, the known height and the open transaction. -/
inductive Move (s : State) : Event → State → List Out → Prop where
  | idle {e : Event} {s' : State} (hrow : s'.row = s.row) (hheight : s'.blockheight = s.blockheight)
      (htx : s'.tx = s.tx) : Move s e s' []
  | block {height : UInt32} {s' : State} (hrow : s'.row = s.row)
      (hheight : s'.blockheight = some height) (htx : s'.tx = s.tx) : Move s (.block height) s' []
  | begun {s' : State} {uuid : Uuid} {ok : Bool} {height : UInt32} {told amount : Amount}
      (hfree : s.row.Free height) (hnow : s.blockheight = some height) (hrow : s'.row = s.row)
      (hheight : s'.blockheight = s.blockheight)
      (htx : s'.tx = some (.request uuid height amount false)) :
      Move s (.continueSwap uuid ok told) s' []
  | delayed {e : Event} {s' : State} {height : UInt32}
      (hfree : s.row.Free height) (hnow : s.blockheight = some height)
      (hrow : s'.row = s.row.delay height) (hheight : s'.blockheight = s.blockheight)
      (htx : s'.tx = none) : Move s e s' [.delayed height]
  | raised {uuid : Uuid} {height now : UInt32} {amount : Amount}
      (htx : s.tx = some (.request uuid height amount false)) (hnow : s.blockheight = some now) :
      Move s .raise { s with tx := some (.request uuid height amount true) }
        [.swapRequest uuid now minAmount amount]
  | heard {uuid : Uuid} :
      Move s (.swapResponse uuid) { s with tx := some (.response uuid s.blockheight) } []
  | requested {uuid : Uuid} {height : UInt32} {amount : Amount}
      (htx : s.tx = some (.request uuid height amount true)) :
      Move s .commit { s with row := s.row.request uuid height, tx := none }
        [.requested uuid height]
  | answered {uuid : Uuid} {height : Option UInt32} (htx : s.tx = some (.response uuid height))
      (huuid : s.row.swapUuid = some uuid) :
      Move s .commit { s with row := s.row.respond uuid height, tx := none }
        [.answered uuid (s.row.bump height)]
  | closed {e : Event} : Move s e { s with tx := none } []
  | forgot {s' : State} {height : UInt32} (hold : s.row.forgetAfter < height)
      (hnow : s.blockheight = some height)
      (hrow : s'.row = s.row.forget height) (hheight : s'.blockheight = s.blockheight)
      (htx : s'.tx = none) : Move s .onBlock s' (s.row.swapUuid.toList.map .forgot)

theorem continueSwap_move {s s' : State} {n : Nat} {height : UInt32} {uuid : Uuid}
    {ok : Bool} {amount : Amount} {out : List Out} (htx : s.tx = none)
    (hnow : s.blockheight = some height)
    (h : continueSwap { s with continuing := n } height uuid ok amount = (s', out)) :
    Move s (.continueSwap uuid ok amount) s' out := by
  unfold continueSwap at h
  by_cases hfree : s.row.Free height
  · rw [if_pos hfree] at h
    by_cases hno : (!ok || amount = .sat 0) = true
    · rw [if_pos hno] at h
      cases h
      exact .delayed hfree hnow rfl rfl htx
    · rw [if_neg hno] at h
      cases h
      exact .begun hfree hnow rfl rfl rfl
  · rw [if_neg hfree] at h
    cases h
    exact .idle rfl rfl rfl

theorem onBlock_move {s : State} {n : Nat} {height : UInt32} (htx : s.tx = none)
    (hnow : s.blockheight = some height) :
    Move s .onBlock (onBlock { s with blocks := n } height).1
      (onBlock { s with blocks := n } height).2 := by
  unfold onBlock
  by_cases hold : s.row.forgetAfter < height
  · rw [if_pos hold]
    exact .forgot hold hnow rfl rfl htx
  · rw [if_neg hold]
    refine .idle ?_ rfl rfl
    show s.row.forget height = s.row
    unfold Row.forget
    rw [if_neg hold]

theorem commit_move {s s' : State} {tx : Tx} {out : List Out} (htx : s.tx = some tx)
    (h : commit s tx = some (s', out)) : Move s .commit s' out := by
  cases tx with
  | request uuid height amount raised =>
      cases raised with
      | false => cases h
      | true =>
          cases h
          exact .requested htx
  | response uuid height =>
      simp only [commit] at h
      by_cases huuid : s.row.swapUuid = some uuid
      · rw [if_pos huuid] at h
        cases h
        exact .answered htx huuid
      · rw [if_neg huuid] at h
        have hrow : s.row.respond uuid height = s.row := by
          unfold Row.respond
          rw [if_neg huuid]
        rw [hrow] at h
        cases h
        exact .closed

/-- The step function makes exactly these moves. -/
theorem step_move {s s' : State} {e : Event} {out : List Out} (h : step s e = some (s', out)) :
    Move s e s' out := by
  cases e with
  | dbResource =>
      cases h
      exact .idle rfl rfl rfl
  | block height =>
      cases h
      exact .block rfl rfl rfl
  | triggerSwap =>
      simp only [step] at h
      split_ifs at h
      · cases h
        exact .idle rfl rfl rfl
      · cases h
        exact .idle rfl rfl rfl
  | ignoreFlag ignore =>
      simp only [step] at h
      split at h
      · cases h
      · cases h
        exact .idle rfl rfl rfl
  | onBlock =>
      simp only [step] at h
      split at h
      next htx _ hnow =>
        cases h
        exact onBlock_move htx hnow
      · cases h
  | continueSwap uuid ok amount =>
      simp only [step] at h
      split at h
      next htx _ hnow => exact continueSwap_move htx hnow (Option.some.inj h)
      · cases h
  | raise =>
      simp only [step] at h
      split at h
      next htx hnow =>
        cases h
        exact .raised htx hnow
      · cases h
  | swapResponse uuid =>
      simp only [step] at h
      split at h
      · cases h
        exact .heard
      · cases h
  | commit =>
      simp only [step] at h
      split at h
      · cases h
      next htx => exact commit_move htx h
  | rollback =>
      simp only [step] at h
      split at h
      · cases h
      · cases h
        exact .closed

/-! ## Runs -/

/-- What the open transaction rests on. -/
def TxOk (s : State) : Prop :=
  ∀ uuid height amount raised, s.tx = some (.request uuid height amount raised) →
    s.row.Free height ∧ ∃ now, s.blockheight = some now ∧ height ≤ now

/-- No block has come yet, or had when the open response was seen. -/
def Early (s : State) : Prop :=
  s.blockheight = none ∨ ∃ uuid, s.tx = some (.response uuid none)

/-- The invariant, of a run from the row `row₀`. -/
structure Paced (row₀ : Row) (tr : List Out) (s : State) : Prop where
  tx       : TxOk s
  /-- Without a height the back-off may wrap around: then it is the first to be recorded. -/
  early    : Early s → s.row.swapUuid ≠ none → ∀ o ∈ tr, o.records = none
  /-- A back-off is kept in the table, or is over. -/
  recorded : ∀ o ∈ tr, ∀ v ∈ o.records,
    v ≤ s.row.blockedUntil ∨ ∃ now, s.blockheight = some now ∧ v < now
  /-- The row names the swap that is waited for. -/
  waits    : ∀ uuid, Waits uuid tr → s.row.swapUuid = some uuid
  first    : ∀ uuid, row₀.swapUuid = some uuid → (∀ o ∈ tr, ¬ o.Settles uuid) →
    s.row.swapUuid = some uuid

theorem paced_start (row : Row) : Paced row [] (State.start row) where
  tx       := fun _ _ _ _ h => by cases h
  early    := fun _ _ _ h => absurd h List.not_mem_nil
  recorded := fun _ h => absurd h List.not_mem_nil
  waits    := fun _ h => absurd h Machine.not_since_nil
  first    := fun _ h _ => h

variable {row₀ : Row} {tr : List Out} {s s' : State}

/-- What a known height can become. -/
def Later (s s' : State) : Prop :=
  ∀ now, s.blockheight = some now → ∃ now', s'.blockheight = some now' ∧ now ≤ now'

theorem later_of_eq (h : s'.blockheight = s.blockheight) : Later s s' :=
  fun now hnow => ⟨now, h.trans hnow, UInt32.le_refl now⟩

/-- A back-off that is over stays over. -/
theorem Later.over {v : UInt32} (h : Later s s')
    (hv : ∃ now, s.blockheight = some now ∧ v < now) :
    ∃ now, s'.blockheight = some now ∧ v < now := by
  obtain ⟨now, hnow, hlt⟩ := hv
  obtain ⟨now', hnow', hle⟩ := h now hnow
  exact ⟨now', hnow', UInt32.lt_of_lt_of_le hlt hle⟩

/-- Nothing shows, and the row says the same. -/
theorem Paced.still (hp : Paced row₀ tr s) (huuid : s'.row.swapUuid = s.row.swapUuid)
    (hblocked : s'.row.blockedUntil = s.row.blockedUntil) (hlater : Later s s') (htx : TxOk s')
    (hearly : Early s' → Early s) : Paced row₀ tr s' where
  tx       := htx
  early    := fun he hne => hp.early (hearly he) (huuid ▸ hne)
  recorded := by
    intro o ho v hv
    rw [hblocked]
    exact (hp.recorded o ho v hv).imp_right hlater.over
  waits    := fun uuid h => huuid.trans (hp.waits uuid h)
  first    := fun uuid h hs => huuid.trans (hp.first uuid h hs)

/-- One output, with what it does to the row. -/
theorem Paced.output {o : Out} (hp : Paced row₀ tr s) (htx : TxOk s')
    (hearly : Early s' → s'.row.swapUuid ≠ none → (∀ x ∈ tr, x.records = none) ∧ o.records = none)
    (hold : ∀ v, (∃ x ∈ tr, v ∈ x.records) →
      (v ≤ s.row.blockedUntil ∨ ∃ now, s.blockheight = some now ∧ v < now) →
      v ≤ s'.row.blockedUntil ∨ ∃ now, s'.blockheight = some now ∧ v < now)
    (hnew : ∀ v ∈ o.records, v ≤ s'.row.blockedUntil)
    (hkeep : ∀ uuid, s.row.swapUuid = some uuid → ¬ o.Settles uuid → s'.row.swapUuid = some uuid)
    (hnamed : ∀ uuid height, o = .requested uuid height → s'.row.swapUuid = some uuid) :
    Paced row₀ (tr ++ [o]) s' where
  tx       := htx
  early    := by
    intro he hne x hx
    obtain ⟨htr, ho⟩ := hearly he hne
    rcases List.mem_append.mp hx with hx | hx
    · exact htr x hx
    · rw [List.mem_singleton.mp hx]
      exact ho
  recorded := by
    intro x hx v hv
    rcases List.mem_append.mp hx with hx | hx
    · exact hold v ⟨x, hx, hv⟩ (hp.recorded x hx v hv)
    · rw [List.mem_singleton.mp hx] at hv
      exact .inl (hnew v hv)
  waits    := by
    intro uuid h
    rcases Machine.since_snoc h with ⟨height, ho⟩ | ⟨h, ho⟩
    · exact hnamed uuid height ho
    · exact hkeep uuid (hp.waits uuid h) ho
  first    := by
    intro uuid h hs
    have htr : ∀ x ∈ tr, ¬ x.Settles uuid := fun x hx => hs x (List.mem_append_left _ hx)
    exact hkeep uuid (hp.first uuid h htr)
      (hs o (List.mem_append_right _ (List.mem_singleton_self o)))

theorem txOk_none (h : s.tx = none) : TxOk s := by
  intro uuid height amount raised htx
  rw [h] at htx
  cases htx

theorem not_early (h : s.tx = none) {now : UInt32} (hnow : s.blockheight = some now) : ¬ Early s := by
  rintro (he | ⟨uuid, he⟩)
  · rw [hnow] at he
    cases he
  · rw [h] at he
    cases he

/-- A back-off recorded before a free row is over. -/
theorem over_of_free {height now v : UInt32} (hfree : s.row.Free height) (hle : height ≤ now)
    (hnow : s.blockheight = some now)
    (h : v ≤ s.row.blockedUntil ∨ ∃ now, s.blockheight = some now ∧ v < now) : v < now := by
  rcases h with h | ⟨now', hnow', h⟩
  · exact UInt32.lt_of_lt_of_le (UInt32.lt_of_le_of_lt h hfree.2) hle
  · cases hnow.symm.trans hnow'
    exact h

/-- The bump never goes down where the height is known. -/
theorem le_bump (r : Row) (height : UInt32) : r.blockedUntil ≤ r.bump (some height) := by
  unfold Row.bump
  dsimp only
  split_ifs with h
  · exact UInt32.le_of_lt h
  · exact UInt32.le_refl _

/-- **STEP** -/
theorem paced_step {e : Event} {out : List Out} (hp : Paced row₀ tr s) (hasc : Ascends s e)
    (h : step s e = some (s', out)) : Paced row₀ (tr ++ out) s' := by
  cases step_move h with
  | idle hrow hheight htx =>
      rw [List.append_nil]
      refine hp.still (by rw [hrow]) (by rw [hrow]) (later_of_eq hheight) ?_ ?_
      · intro uuid height amount raised hreq
        rw [hrow, hheight]
        exact hp.tx uuid height amount raised (htx ▸ hreq)
      · unfold Early
        rw [hheight, htx]
        exact id
  | @block height _ hrow hheight htx =>
      have hlater : Later s s' := fun now hnow => ⟨height, hheight, hasc height rfl now hnow⟩
      rw [List.append_nil]
      refine hp.still (by rw [hrow]) (by rw [hrow]) hlater ?_ ?_
      · intro uuid height' amount raised hreq
        obtain ⟨hfree, now, hnow, hle⟩ := hp.tx uuid height' amount raised (htx ▸ hreq)
        refine ⟨hrow ▸ hfree, height, hheight, ?_⟩
        exact UInt32.le_trans hle (hasc height rfl now hnow)
      · rintro (he | ⟨uuid, he⟩)
        · rw [hheight] at he
          cases he
        · exact .inr ⟨uuid, htx ▸ he⟩
  | @begun _ uuid ok height told amount hfree hnow hrow hheight htx =>
      rw [List.append_nil]
      refine hp.still (by rw [hrow]) (by rw [hrow]) (later_of_eq hheight) ?_ ?_
      · intro uuid' height' amount' raised' hreq
        cases htx.symm.trans hreq
        exact ⟨hrow ▸ hfree, height, hheight.trans hnow, UInt32.le_refl height⟩
      · rintro (he | ⟨uuid', he⟩)
        · exact .inl (hheight ▸ he)
        · cases htx.symm.trans he
  | @delayed _ _ height hfree hnow hrow hheight htx =>
      have hnow' : s'.blockheight = some height := hheight.trans hnow
      refine hp.output (txOk_none htx) (fun he => absurd he (not_early htx hnow')) ?_ ?_ ?_ ?_
      · intro v _ hv
        exact .inr ⟨height, hnow', over_of_free hfree (UInt32.le_refl height) hnow hv⟩
      · intro v hv
        cases hv
        rw [hrow]
        exact UInt32.le_refl _
      · intro uuid huuid _
        rw [hfree.1] at huuid
        cases huuid
      · intro uuid height' ho
        cases ho
  | @raised uuid height now amount htx hnow =>
      have hreq := hp.tx uuid height amount false htx
      refine hp.output ?_ ?_ (fun v _ hv => hv) ?_ (fun uuid huuid _ => huuid) ?_
      · intro uuid' height' amount' raised' h'
        cases h'
        exact hreq
      · rintro (he | ⟨uuid', he⟩)
        · cases hnow.symm.trans he
        · cases he
      · intro v hv
        cases hv
      · intro uuid' height' ho
        cases ho
  | @heard uuid =>
      rw [List.append_nil]
      refine hp.still rfl rfl (later_of_eq rfl) ?_ ?_
      · intro uuid' height' amount' raised' h'
        cases h'
      · rintro (he | ⟨uuid', he⟩)
        · exact .inl he
        · simp only [Option.some.injEq, Tx.response.injEq] at he
          exact .inl he.2
  | @requested uuid height amount htx =>
      obtain ⟨hfree, now, hnow, hle⟩ := hp.tx uuid height amount true htx
      refine hp.output (txOk_none rfl) (fun he => absurd he (not_early rfl hnow)) ?_ ?_ ?_ ?_
      · intro v _ hv
        exact .inr ⟨now, hnow, over_of_free hfree hle hnow hv⟩
      · intro v hv
        cases hv
        exact UInt32.le_refl _
      · intro uuid' huuid _
        rw [hfree.1] at huuid
        cases huuid
      · intro uuid' height' ho
        cases ho
        rfl
  | @answered uuid height htx huuid =>
      have hrow : s.row.respond uuid height
          = { s.row with swapUuid := none, blockedUntil := s.row.bump height, forgetAfter := forgetNever } :=
        if_pos huuid
      rw [hrow]
      refine hp.output (txOk_none rfl) (fun _ hne => absurd rfl hne) ?_ ?_ ?_ ?_
      · rintro v ⟨x, hx, hv⟩ hold
        cases height with
        | none =>
            -- nothing was recorded before
            have hnone := hp.early (.inr ⟨uuid, htx⟩) (by rw [huuid]; exact Option.some_ne_none _) x hx
            rw [hnone] at hv
            cases hv
        | some height => exact hold.imp_left fun hle => UInt32.le_trans hle (le_bump s.row height)
      · intro v hv
        cases hv
        exact UInt32.le_refl _
      · intro uuid' huuid' hns
        cases huuid.symm.trans huuid'
        exact absurd (.inl ⟨_, rfl⟩) hns
      · intro uuid' height' ho
        cases ho
  | closed =>
      rw [List.append_nil]
      refine hp.still rfl rfl (later_of_eq rfl) (txOk_none rfl) ?_
      rintro (he | ⟨uuid, he⟩)
      · exact .inl he
      · cases he
  | @forgot _ height hold _ hrow hheight htx =>
      have hrow' : s'.row = { s.row with swapUuid := none, forgetAfter := forgetNever } :=
        hrow.trans (if_pos hold)
      cases huuid : s.row.swapUuid with
      | none =>
          rw [Option.toList_none, List.map_nil, List.append_nil]
          refine hp.still (by rw [hrow', huuid]) (by rw [hrow']) (later_of_eq hheight)
            (txOk_none htx) ?_
          rintro (he | ⟨uuid, he⟩)
          · exact .inl (hheight ▸ he)
          · cases htx.symm.trans he
      | some uuid =>
          refine hp.output (txOk_none htx) (fun _ hne => absurd (by rw [hrow']) hne) ?_ ?_ ?_ ?_
          · intro v _ hv
            rw [hrow', hheight]
            exact hv
          · intro v hv
            cases hv
          · intro uuid' huuid' hns
            cases huuid.symm.trans huuid'
            exact absurd (.inr rfl) hns
          · intro uuid' height' ho
            cases ho

/-- **RUN** -/
theorem paced_run {row : Row} {es : List Event} {s : State} {tr : List Out}
    (hasc : Machine.Along step Ascends (State.start row) es) (hrun : run row es = some (s, tr)) :
    Paced row tr s := by
  refine Machine.run_invariant (I := fun _ tr s => Paced row tr s) (paced_start row) ?_ hasc hrun
  intro _ tr s e s' out hp hasc h
  exact paced_step hp hasc h

/-- A swap that is no longer named was answered or forgotten. -/
theorem settled_of_not {uuid : Uuid} {tr : List Out} (h : ¬ ∀ o ∈ tr, ¬ o.Settles uuid) :
    (∃ v, .answered uuid v ∈ tr) ∨ .forgot uuid ∈ tr := by
  simp only [not_forall, not_not] at h
  obtain ⟨o, ho, ⟨v, rfl⟩ | rfl⟩ := h
  · exact .inl ⟨v, ho⟩
  · exact .inr ho

/-- **HEADLINE** — a request goes out when the row names no swap and the height is past the
    row's back-off; so it is past EVERY back-off recorded so far, and every swap requested
    before, also the one the run began with, was answered or forgotten. -/
theorem raises_paced (row : Row) (es : List Event) (s s' : State) (tr out : List Out) (e : Event)
    (uuid : Uuid) (height : UInt32) (minA maxA : Amount)
    (hasc : Machine.Along step Ascends (State.start row) es) (hrun : run row es = some (s, tr))
    (hs : step s e = some (s', out)) (hout : .swapRequest uuid height minA maxA ∈ out) :
    s.row.swapUuid = none ∧ s.blockheight = some height ∧ s.row.blockedUntil < height
      ∧ (∀ o ∈ tr, ∀ v ∈ o.records, v < height)
      ∧ (∀ l₁ u h l₂, tr = l₁ ++ .requested u h :: l₂ →
        (∃ v, .answered u v ∈ l₂) ∨ .forgot u ∈ l₂)
      ∧ (∀ u, row.swapUuid = some u → (∃ v, .answered u v ∈ tr) ∨ .forgot u ∈ tr) := by
  have hp := paced_run hasc hrun
  cases step_move hs with
  | @raised u found now amount htx hnow =>
      obtain ⟨hfree, now', hnow', hle⟩ := hp.tx u found amount false htx
      cases hnow.symm.trans hnow'
      cases List.mem_singleton.mp hout
      refine ⟨hfree.1, hnow, UInt32.lt_of_lt_of_le hfree.2 hle, ?_, ?_, ?_⟩
      · intro o ho v hv
        exact over_of_free hfree hle hnow (hp.recorded o ho v hv)
      · intro l₁ u' h' l₂ htr
        refine settled_of_not fun hl₂ => ?_
        have hnamed := hp.waits u' ⟨l₁, _, l₂, htr, ⟨h', rfl⟩, hl₂⟩
        rw [hfree.1] at hnamed
        cases hnamed
      · intro u' hu'
        refine settled_of_not fun htr => ?_
        have hnamed := hp.first u' hu' htr
        rw [hfree.1] at hnamed
        cases hnamed
  | delayed => cases List.mem_singleton.mp hout
  | requested => cases List.mem_singleton.mp hout
  | answered => cases List.mem_singleton.mp hout
  | forgot =>
      obtain ⟨_, _, ho⟩ := List.mem_map.mp hout
      cases ho
  | idle => cases hout
  | block => cases hout
  | begun => cases hout
  | heard => cases hout
  | closed => cases hout

/-- Two swaps: the first is requested at 100 and ends at 101, a trigger at 107 finds the
    back-off not over, and one at 108 is about to raise the second. -/
def sampleRun : List Event :=
  [.dbResource, .block 100, .triggerSwap, .triggerSwap, .ignoreFlag false, .ignoreFlag false,
    .continueSwap ⟨1⟩ true (.sat 500000), .raise, .commit, .continueSwap ⟨2⟩ true (.sat 500000),
    .block 101, .swapResponse ⟨1⟩, .commit,
    .block 107, .triggerSwap, .ignoreFlag false, .continueSwap ⟨2⟩ true (.sat 500000),
    .block 108, .triggerSwap, .ignoreFlag false, .continueSwap ⟨2⟩ true (.sat 500000)]

theorem raises_paced_sampleRun :
    ∃ s s', run (Row.init "NodeBalanceSwapper") sampleRun
        = some (s, [.swapRequest ⟨1⟩ 100 minAmount (.sat 500000), .requested ⟨1⟩ 100,
          .answered ⟨1⟩ 107])
      ∧ step s .raise = some (s', [.swapRequest ⟨2⟩ 108 minAmount (.sat 500000)])
      ∧ s.row.swapUuid = none ∧ s.row.blockedUntil < 108 := by
  have hasc : Machine.Along step Ascends (State.start (Row.init "NodeBalanceSwapper")) sampleRun := by
    decide +kernel
  obtain ⟨s, s', hrun, hs⟩ : ∃ s s', run (Row.init "NodeBalanceSwapper") sampleRun
        = some (s, [.swapRequest ⟨1⟩ 100 minAmount (.sat 500000), .requested ⟨1⟩ 100,
          .answered ⟨1⟩ 107])
      ∧ step s .raise = some (s', [.swapRequest ⟨2⟩ 108 minAmount (.sat 500000)]) :=
    ⟨_, _, rfl, rfl⟩
  obtain ⟨hnone, _, hlt, _⟩ := raises_paced _ _ s s' _ _ .raise ⟨2⟩ 108 _ _ hasc hrun hs
    (List.mem_singleton_self _)
  exact ⟨s, s', hrun, hs, hnone, hlt⟩

end Swapper
