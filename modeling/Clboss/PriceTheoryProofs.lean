import Clboss.AmountProofs
import Clboss.MachineProofs
import Clboss.SqlValueProofs
import Clboss.UniqueTableProofs
import Mathlib.Data.List.Sort

/-! # FeeModderByPriceTheory — a card game in two tables

    Each node has a deck of five cards, marked with the prices around a center.
    One card at a time is in play and collects the fees earned; when all have
    been played, the best of them gives the center of the next deck.

    Cards and centers are rows, and the rules are spread over SQL statements that
    touch the rows of one node (or of all) at a time.  So everything is said of
    one node's HAND and center: a step lemma for each statement, then `Game`, the
    invariant of a hand, along every run. -/

namespace FeeModderByPriceTheory

open UniqueTable Sql Ln

/-! ## The tables -/

/-- Where a card is. -/
inductive CardPos where
  | deck
  | inPlay
  | discarded
deriving DecidableEq, Repr

/-- A row of `"FeeModderByPriceTheory_cards"`. -/
structure Card (N : Type) where
  id        : ℕ
  node      : N
  pos       : CardPos
  deckorder : ℕ
  price     : ℤ
  lifetime  : ℤ
  earnings  : Value
deriving DecidableEq

/-- A row of `"FeeModderByPriceTheory_centerprice"`. -/
structure CenterPrice (N : Type) where
  node  : N
  price : ℤ
deriving DecidableEq

/-- The database. -/
structure Tables (N : Type) where
  centerprice : Table (CenterPrice.node (N := N))
  cards       : Table (Card.id (N := N))

def Tables.init {N : Type} : Tables N := ⟨.empty, .empty⟩

/-- A rearrangement: `std::shuffle`, or the order in which SQLite visits rows. -/
abbrev Shuffle (α : Type) := { f : List α → List α // ∀ l, (f l).Perm l }

/-! ## The code -/

/-- Price of nodes that have not been played yet. -/
def initialPrice : ℤ := 0

/-- Number of 10-minute events each card is put in play. -/
def initialLifetime : ℤ := 288

/-- Maximum step around the center. -/
def maxStep : ℕ := 2

variable {N : Type} [DecidableEq N]

/-- `SELECT … WHERE node = :node AND pos = :pos`, in the order of the scan. -/
def Tables.select (t : Tables N) (scan : Shuffle (Card N)) (node : N) (pos : CardPos) :
    List (Card N) :=
  scan.1 (t.cards.rows.filter fun c => c.node = node && c.pos = pos)

/-- `ORDER BY key DESC`; ties stay in the order of the scan. -/
def orderByDesc {κ : Type} [LinearOrder κ] (key : Card N → κ) (rows : List (Card N)) :
    List (Card N) :=
  rows.insertionSort fun a b => key b ≤ key a

/-- `get_center_price`. -/
def Tables.getCenterPrice (t : Tables N) (node : N) : ℤ :=
  match t.centerprice.get node with
  | some r => r.price
  | none   => initialPrice

/-- `INSERT OR REPLACE INTO "FeeModderByPriceTheory_centerprice"`. -/
def Tables.setCenterPrice (t : Tables N) (node : N) (price : ℤ) : Tables N :=
  { t with centerprice := t.centerprice.insertOrReplace ⟨node, price⟩ }

/-- `update_centerprice`. -/
def Tables.updateCenterprice (t : Tables N) (scan : Shuffle (Card N)) (node : N) (msg : String) :
    Tables N × String :=
  let measure (newPrice : ℤ) :=
    (t.setCenterPrice node newPrice,
      msg ++ "measuring around new level " ++ toString newPrice ++ " for new mesurement round; ")
  match (orderByDesc (fun c => c.earnings.rank) (t.select scan node .discarded)).head? with
  | some c =>
      -- the best earner earned nothing: the center stays
      if c.earnings.columnInt64 = 0 then
        (t, msg ++ "earned nothing in previous " ++ "measurement round; ")
      else measure c.price
  | none => measure initialPrice

/-- The prices of a new deck, before it is shuffled. -/
def deckPrices (centerprice : ℤ) : List ℤ :=
  centerprice ::
    (List.range maxStep).flatMap fun i =>
      [centerprice + ((i + 1 : ℕ) : ℤ), centerprice - ((i + 1 : ℕ) : ℤ)]

/-- `INSERT` of a new card. -/
def insertCard (node : N) (cards : Table (Card.id (N := N))) (card : ℤ × ℕ) :
    Table (Card.id (N := N)) :=
  cards.insertNext (fun id => ⟨id, node, .deck, card.2, card.1, initialLifetime, .int 0⟩)
    fun _ => rfl

/-- `reshuffle_deck`. -/
def Tables.reshuffleDeck (t : Tables N) (shuffle : Shuffle ℤ) (node : N) : Tables N :=
  let cards := t.cards.deleteWhere fun c => c.node = node
  let prices := shuffle.1 (deckPrices (t.getCenterPrice node))
  { t with cards := prices.zipIdx.foldl (insertCard node) cards }

/-- `end_game_round`. -/
def Tables.endGameRound (t : Tables N) (scan : Shuffle (Card N)) (shuffle : Shuffle ℤ) (node : N)
    (msg : String) : Tables N × String :=
  let (t, msg) := t.updateCenterprice scan node msg
  (t.reshuffleDeck shuffle node, msg)

def Card.play (c : Card N) : Card N := { c with pos := .inPlay }

/-- `UPDATE … SET pos = :CardPos_InPlay WHERE id = :id`. -/
def Tables.playCard (t : Tables N) (id : ℕ) : Tables N :=
  { t with cards := t.cards.update id Card.play fun _ => rfl }

/-- `draw_a_card`; `none` when the recursion goes deeper than `fuel`. -/
def drawACard : ℕ → Tables N → Shuffle (Card N) → Shuffle ℤ → N → String →
    Option (Tables N × String)
  | 0, _, _, _, _, _ => none
  | fuel + 1, t, scan, shuffle, node, msg =>
      match (orderByDesc Card.deckorder (t.select scan node .deck)).head? with
      | some c =>
          some (t.playCard c.id, msg ++ "set to new level for this measurement round")
      | none =>
          let (t, msg) := t.endGameRound scan shuffle node msg
          drawACard fuel t scan shuffle node msg

/-- `get_price`. -/
def getPrice : ℕ → Tables N → Shuffle (Card N) → Shuffle ℤ → N → String →
    Option (ℤ × Tables N × String)
  | 0, _, _, _, _, _ => none
  | fuel + 1, t, scan, shuffle, node, msg =>
      match (t.select scan node .inPlay).head? with
      | some c => some (c.price, t, msg)
      | none =>
          match drawACard fuel t scan shuffle node (msg ++ "; ") with
          | none          => none
          | some (t, msg) => getPrice fuel t scan shuffle node msg

/-- `get_cards_left`. -/
def Tables.getCardsLeft (t : Tables N) (node : N) : ℕ :=
  t.cards.rows.countP fun c => c.node = node && c.pos = .deck

/-- A ten-minute event on a card in play. -/
def Card.age (c : Card N) : Card N := { c with lifetime := c.lifetime - 1 }

def Card.discard (c : Card N) : Card N := { c with pos := .discarded }

/-- `update_10_minutes`. -/
def Tables.update10Minutes (t : Tables N) (connected : List N) : Tables N :=
  let cards := connected.foldl (fun cards node =>
    cards.updateWhere (fun c => c.pos = .inPlay && c.node = node) Card.age fun _ => rfl) t.cards
  let cards := cards.updateWhere (fun c => c.pos = .inPlay && c.lifetime ≤ 0) Card.discard
    fun _ => rfl
  { t with cards := cards }

/-- A fee earned by a card. -/
def Card.earn (fee : Amount) (c : Card N) : Card N :=
  { c with earnings := (c.earnings.add (.bind fee.toMsat)).integerAffinity }

/-- `forward_fee`. -/
def Tables.forwardFee (t : Tables N) (node : N) (fee : Amount) : Tables N :=
  let cards := t.cards.updateWhere (fun c => c.node = node && c.pos = .inPlay) (Card.earn fee)
    fun _ => rfl
  { t with cards := cards }

/-- What reaches the module. -/
inductive Event (N : Type) where
  /-- `initialize`: the tables are created if they do not exist. -/
  | dbResource
  /-- A fee modifier is asked for; what the scans and the shuffle do is up to it. -/
  | getFeeMod (node : N) (scan : Shuffle (Card N)) (shuffle : Shuffle ℤ)
  | listpeersAnalyzedResult (connected : List N) (initial : Bool)
  | forwardFee (outId : N) (fee : Amount)

/-- `MonitorFeeByTheory`, less the multiplier, and the end of the log message. -/
structure MonitorFee (N : Type) where
  node      : N
  price     : ℤ
  center    : ℤ
  cardsLeft : ℕ
  msg       : String

/-- One transaction. -/
def step (fuel : ℕ) (t : Tables N) : Event N → Option (Tables N × List (MonitorFee N))
  | .dbResource => some (t, [])
  | .getFeeMod node scan shuffle =>
      match getPrice fuel t scan shuffle node "" with
      | none => none
      | some (price, t, msg) =>
          some (t, [⟨node, price, t.getCenterPrice node, t.getCardsLeft node, msg⟩])
  | .listpeersAnalyzedResult connected initial =>
      if initial then some (t, []) else some (t.update10Minutes connected, [])
  | .forwardFee outId fee => some (t.forwardFee outId fee, [])

def run (fuel : ℕ) (es : List (Event N)) : Option (Tables N × List (MonitorFee N)) :=
  Machine.run (step fuel) Tables.init es

/-! ## The rules -/

/-- The cards of a node. -/
def Tables.hand (t : Tables N) (n : N) : List (Card N) := t.cards.rows.filter fun c => c.node = n

/-- The center of a node, once it has been played. -/
def Tables.center (t : Tables N) (n : N) : Option ℤ := (t.centerprice.get n).map CenterPrice.price

/-- Five consecutive prices. -/
def around (center : ℤ) : List ℤ := [center - 2, center - 1, center, center + 1, center + 2]

/-- A deck dealt around a center, at most one card of it in play. -/
structure Dealt (center : ℤ) (hand : List (Card N)) : Prop where
  prices : (hand.map Card.price).Perm (around center)
  inPlay : hand.countP (fun c => c.pos = .inPlay) ≤ 1

/-- A node has not been played, or has a deck dealt around its center. -/
def Game (t : Tables N) (n : N) : Prop :=
  (t.center n = none ∧ t.hand n = []) ∨ ∃ c, t.center n = some c ∧ Dealt c (t.hand n)

/-- All cards have been played. -/
def RoundEnds (t : Tables N) (n : N) : Prop := ∀ c ∈ t.hand n, c.pos = .discarded

/-- A card with maximal earnings. -/
def Best (pile : List (Card N)) (c : Card N) : Prop :=
  c ∈ pile ∧ ∀ d ∈ pile, d.earnings.rank ≤ c.earnings.rank

/-- The fees forwarded in a sequence of events. -/
def fees (es : List (Event N)) : ℕ :=
  (es.map fun | .forwardFee _ fee => fee.toMsat.toNat | _ => 0).sum

/-- The fee that an event books on a card: on the node's card in play. -/
def Event.fee (c : Card N) : Event N → Option Amount
  | .forwardFee outId fee => if c.node = outId ∧ c.pos = .inPlay then some fee else none
  | _                     => none

/-- A card before and after a step: its fee is added, and nothing else. -/
structure Touched (e : Event N) (c c' : Card N) : Prop where
  node  : c'.node = c.node
  price : c'.price = c.price
  books : c'.earnings = (e.fee c).elim c.earnings (fun fee => (c.earn fee).earnings)

/-- A round that ends in `t` and the next one that begins in `t'`, after the events `es`. -/
structure NewRound (es : List (Event N)) (t t' : Tables N) (n : N) : Prop where
  fresh  : ∀ c ∈ t'.hand n, c.earnings = .int 0
  first  : t.hand n = [] → t'.getCenterPrice n = initialPrice
  /-- The best card gives the center, unless it earned nothing. -/
  center : t.hand n ≠ [] → ∃ c, Best (t.hand n) c ∧
    t'.getCenterPrice n = if c.earnings.columnInt64 = 0 then t.getCenterPrice n else c.price
  near   : |t'.getCenterPrice n - t.getCenterPrice n| ≤ 2
  /-- While the fees fit, the center is the price of a best card in any case. -/
  best   : fees es < 2 ^ 63 → t.hand n ≠ [] →
    ∃ c, Best (t.hand n) c ∧ t'.getCenterPrice n = c.price

/-- Whether an event asks for the price of `n`. -/
def Event.asks (n : N) : Event N → Bool
  | .getFeeMod node _ _ => node = n
  | _                   => false

/-- What a step does, after the events `es`. -/
structure Rules (es : List (Event N)) (t : Tables N) (e : Event N) (t' : Tables N)
    (out : List (MonitorFee N)) : Prop where
  /-- Asking for a price when the round has ended begins a new round. -/
  deals : ∀ n, e.asks n = true → RoundEnds t n → NewRound es t t' n
  /-- Otherwise the center and the cards stay. -/
  keeps : ∀ n, (e.asks n = true → ¬ RoundEnds t n) →
    t'.center n = t.center n ∧ List.Forall₂ (Touched e) (t.hand n) (t'.hand n)
  /-- The answer is the price of the card in play. -/
  plays : ∀ n, e.asks n = true →
    ∃ m c, out = [m] ∧ m.node = n ∧ c ∈ t'.hand n ∧ c.pos = .inPlay ∧ m.price = c.price

/-! ## What the statements do to a hand -/

omit [DecidableEq N] in
/-- The first row of an `ORDER BY … DESC` is a maximal one. -/
theorem orderByDesc_head {κ : Type} [LinearOrder κ] {key : Card N → κ} {rows : List (Card N)}
    {c : Card N} (h : (orderByDesc key rows).head? = some c) :
    c ∈ rows ∧ ∀ d ∈ rows, key d ≤ key c := by
  have htotal : Std.Total (fun a b : Card N => key b ≤ key a) := ⟨fun a b => le_total _ _⟩
  have htrans : IsTrans (Card N) (fun a b => key b ≤ key a) := ⟨fun _ _ _ hab hbc => hbc.trans hab⟩
  have hperm := List.perm_insertionSort (fun a b : Card N => key b ≤ key a) rows
  have hsorted := List.pairwise_insertionSort (fun a b : Card N => key b ≤ key a) rows
  unfold orderByDesc at h
  revert h hperm hsorted
  generalize rows.insertionSort (fun a b => key b ≤ key a) = sorted
  intro h hperm hsorted
  cases sorted with
  | nil => exact nomatch h
  | cons a l =>
      cases h
      refine ⟨hperm.subset (List.mem_cons_self ..), ?_⟩
      intro d hd
      rcases List.mem_cons.mp (hperm.symm.subset hd) with rfl | hd
      · exact le_refl _
      · exact (List.pairwise_cons.mp hsorted).1 d hd

omit [DecidableEq N] in
theorem orderByDesc_none {κ : Type} [LinearOrder κ] {key : Card N → κ} {rows : List (Card N)}
    (h : (orderByDesc key rows).head? = none) : rows = [] := by
  have hperm := List.perm_insertionSort (fun a b : Card N => key b ≤ key a) rows
  rw [show rows.insertionSort _ = [] from List.head?_eq_none_iff.mp h] at hperm
  exact hperm.symm.eq_nil

/-- A selected row is a card of the hand. -/
theorem mem_select {t : Tables N} {scan : Shuffle (Card N)} {n : N} {pos : CardPos} {c : Card N} :
    c ∈ t.select scan n pos ↔ c ∈ t.hand n ∧ c.pos = pos := by
  unfold Tables.select Tables.hand
  rw [(scan.2 _).mem_iff, List.mem_filter, List.mem_filter, Bool.and_eq_true, decide_eq_true_eq,
    decide_eq_true_eq, and_assoc]

theorem mem_hand {t : Tables N} {n : N} {c : Card N} :
    c ∈ t.hand n ↔ c ∈ t.cards.rows ∧ c.node = n := by
  unfold Tables.hand
  rw [List.mem_filter, decide_eq_true_eq]

/-- Changing cards of the table changes those of a hand. -/
theorem filter_map_node {f : Card N → Card N} (hf : ∀ c, (f c).node = c.node) (n : N)
    (rows : List (Card N)) :
    (rows.map f).filter (fun c => c.node = n) = (rows.filter fun c => c.node = n).map f := by
  rw [List.filter_map]
  congr 1
  refine List.filter_congr ?_
  intro c _
  simp [hf]

section Statements

variable (t : Tables N) {n m : N}

theorem center_setCenterPrice (price : ℤ) :
    (t.setCenterPrice n price).center n = some price := by
  unfold Tables.setCenterPrice Tables.center
  show ((t.centerprice.insertOrReplace ⟨n, price⟩).get (CenterPrice.mk n price).node).map _ = _
  unfold Table.insertOrReplace
  rw [Table.get_insert_self]
  rfl

theorem center_setCenterPrice_ne (price : ℤ) (h : n ≠ m) :
    (t.setCenterPrice m price).center n = t.center n := by
  unfold Tables.setCenterPrice Tables.center Table.insertOrReplace
  rw [Table.get_insert_ne _ _ _ h, Table.get_delete_ne _ h]

theorem getCenterPrice_eq : t.getCenterPrice n = (t.center n).getD initialPrice := by
  unfold Tables.getCenterPrice Tables.center
  cases t.centerprice.get n <;> rfl

/-- A card is put in play, among those of its hand. -/
theorem hand_playCard (id : ℕ) :
    (t.playCard id).hand n = (t.hand n).map fun c => if c.id = id then c.play else c := by
  refine filter_map_node ?_ n t.cards.rows
  intro c
  split <;> rfl

/-- The new center of a round that has ended. -/
theorem updateCenterprice_spec (scan : Shuffle (Card N)) (msg : String) (hend : RoundEnds t n) :
    (t.updateCenterprice scan n msg).1.cards = t.cards ∧
      (∀ m, m ≠ n → (t.updateCenterprice scan n msg).1.center m = t.center m) ∧
      ((t.hand n = [] ∧ (t.updateCenterprice scan n msg).1.center n = some initialPrice) ∨
        ∃ c, Best (t.hand n) c ∧
          (t.updateCenterprice scan n msg).1.center n
            = if c.earnings.columnInt64 = 0 then t.center n else some c.price) := by
  have hpile {c : Card N} : c ∈ t.select scan n .discarded ↔ c ∈ t.hand n := by
    rw [mem_select]
    exact ⟨fun h => h.1, fun h => ⟨h, hend c h⟩⟩
  unfold Tables.updateCenterprice
  cases hbest : (orderByDesc (fun c => c.earnings.rank) (t.select scan n .discarded)).head? with
  | none =>
      have hempty : t.hand n = [] := by
        refine List.eq_nil_iff_forall_not_mem.mpr fun c hc => ?_
        have := hpile.mpr hc
        rw [orderByDesc_none hbest] at this
        exact nomatch this
      refine ⟨rfl, ?_, .inl ⟨hempty, center_setCenterPrice t initialPrice⟩⟩
      intro m hm
      exact center_setCenterPrice_ne t initialPrice hm
  | some c =>
      obtain ⟨hc, hmax⟩ := orderByDesc_head hbest
      have hc : Best (t.hand n) c := ⟨hpile.mp hc, fun d hd => hmax d (hpile.mpr hd)⟩
      simp only
      by_cases hzero : c.earnings.columnInt64 = 0
      · simp only [if_pos hzero]
        exact ⟨trivial, fun _ _ => trivial, .inr ⟨c, hc, by rw [if_pos hzero]⟩⟩
      · simp only [if_neg hzero]
        refine ⟨rfl, ?_, .inr ⟨c, hc, ?_⟩⟩
        · intro m hm
          exact center_setCenterPrice_ne t c.price hm
        · rw [if_neg hzero]
          exact center_setCenterPrice t c.price

end Statements

/-! ## Dealing and drawing -/

theorem deckPrices_perm (c : ℤ) : (deckPrices c).Perm (around c) := by
  have h : List.Perm [0, 1, -1, 2, -2] [-2, -1, 0, 1, 2] := by decide
  have := h.map fun i : ℤ => c + i
  simpa [deckPrices, around, maxStep, List.range_succ, sub_eq_add_neg] using this

omit [DecidableEq N] in
/-- New cards are put at the end of the table. -/
theorem foldl_insertCard (n : N) (l : List (ℤ × ℕ)) (cards : Table (Card.id (N := N))) :
    ∃ new, (l.foldl (insertCard n) cards).rows = cards.rows ++ new ∧
      new.map Card.price = l.map Prod.fst ∧
      ∀ c ∈ new, c.node = n ∧ c.pos = .deck ∧ c.earnings = .int 0 := by
  induction l generalizing cards with
  | nil => exact ⟨[], (List.append_nil _).symm, rfl, fun _ h => nomatch h⟩
  | cons x l ih =>
      obtain ⟨new, hrows, hprices, hnew⟩ := ih (insertCard n cards x)
      refine ⟨⟨cards.nextKey, n, .deck, x.2, x.1, initialLifetime, .int 0⟩ :: new, ?_, ?_, ?_⟩
      · rw [List.foldl_cons, hrows]
        exact List.append_assoc cards.rows [_] new
      · rw [List.map_cons, hprices]
        rfl
      · intro c hc
        rcases List.mem_cons.mp hc with rfl | hc
        · exact ⟨rfl, rfl, rfl⟩
        · exact hnew c hc

/-- `reshuffle_deck` deals five new cards around the center, and only to the node. -/
theorem reshuffleDeck_spec (t : Tables N) (shuffle : Shuffle ℤ) (n : N) :
    (((t.reshuffleDeck shuffle n).hand n).map Card.price).Perm (around (t.getCenterPrice n)) ∧
      (∀ c ∈ (t.reshuffleDeck shuffle n).hand n, c.pos = .deck ∧ c.earnings = .int 0) ∧
      ∀ m, m ≠ n → (t.reshuffleDeck shuffle n).hand m = t.hand m := by
  obtain ⟨new, hrows, hprices, hnew⟩ := foldl_insertCard n
    (shuffle.1 (deckPrices (t.getCenterPrice n))).zipIdx
    (t.cards.deleteWhere fun c => c.node = n)
  have hhand (m : N) : (t.reshuffleDeck shuffle n).hand m
      = ((t.cards.deleteWhere fun c => c.node = n).rows ++ new).filter fun c => c.node = m :=
    congrArg (List.filter fun c : Card N => c.node = m) hrows
  have hself : (t.reshuffleDeck shuffle n).hand n = new := by
    have hgone : (t.cards.deleteWhere fun c => c.node = n).rows.filter (fun c => c.node = n)
        = [] := by
      rw [List.filter_eq_nil_iff]
      intro c hc
      have := (List.mem_filter.mp hc).2
      simpa using this
    rw [hhand, List.filter_append, hgone, List.nil_append, List.filter_eq_self]
    intro c hc
    simpa using (hnew c hc).1
  refine ⟨?_, ?_, ?_⟩
  · rw [hself, hprices, List.zipIdx_map_fst]
    exact (shuffle.2 _).trans (deckPrices_perm _)
  · rw [hself]
    exact fun c hc => (hnew c hc).2
  · intro m hm
    have hnone : new.filter (fun c => c.node = m) = [] := by
      rw [List.filter_eq_nil_iff]
      intro c hc
      rw [(hnew c hc).1]
      simpa using hm.symm
    rw [hhand, List.filter_append, hnone, List.append_nil]
    show (t.cards.rows.filter _).filter _ = _
    rw [List.filter_filter]
    refine List.filter_congr ?_
    intro c _
    by_cases hc : c.node = m
    · simp [hc, hm]
    · simp [hc]

/-- A drawn card, put in play. -/
theorem drawACard_deck {t : Tables N} {n : N} (fuel : ℕ) (scan : Shuffle (Card N))
    (shuffle : Shuffle ℤ) (msg : String) (h : ∃ c ∈ t.hand n, c.pos = .deck) :
    ∃ c msg', c ∈ t.hand n ∧ c.pos = .deck ∧
      drawACard (fuel + 1) t scan shuffle n msg = some (t.playCard c.id, msg') := by
  unfold drawACard
  cases hd : (orderByDesc Card.deckorder (t.select scan n .deck)).head? with
  | none =>
      obtain ⟨c, hc, hpos⟩ := h
      have := (mem_select.mpr ⟨hc, hpos⟩ : c ∈ t.select scan n _)
      rw [orderByDesc_none hd] at this
      exact nomatch this
  | some c =>
      obtain ⟨hc, hpos⟩ := mem_select.mp (orderByDesc_head hd).1
      exact ⟨c, _, hc, hpos, rfl⟩

/-- With no card left to draw, the round ends first. -/
theorem drawACard_empty {t : Tables N} {n : N} (fuel : ℕ) (scan : Shuffle (Card N))
    (shuffle : Shuffle ℤ) (msg : String) (h : ∀ c ∈ t.hand n, c.pos ≠ .deck) :
    drawACard (fuel + 1) t scan shuffle n msg
      = drawACard fuel (t.endGameRound scan shuffle n msg).1 scan shuffle n
          (t.endGameRound scan shuffle n msg).2 := by
  rw [drawACard]
  cases hd : (orderByDesc Card.deckorder (t.select scan n .deck)).head? with
  | none => rfl
  | some c =>
      obtain ⟨hc, hpos⟩ := mem_select.mp (orderByDesc_head hd).1
      exact absurd hpos (h c hc)

/-- The tables in which the card in play is found. -/
inductive Drawn (n : N) (t : Tables N) : Tables N → Prop where
  /-- There is one already. -/
  | kept (h : ∃ c ∈ t.hand n, c.pos = .inPlay) : Drawn n t t
  /-- One is drawn. -/
  | drew {c : Card N} (h : ∀ c ∈ t.hand n, c.pos ≠ .inPlay) (hc : c ∈ t.hand n)
      (hpos : c.pos = .deck) : Drawn n t (t.playCard c.id)
  /-- One is drawn from a new deck. -/
  | dealt {scan : Shuffle (Card N)} {shuffle : Shuffle ℤ} {msg : String} {c : Card N}
      (h : RoundEnds t n) (hc : c ∈ (t.endGameRound scan shuffle n msg).1.hand n)
      (hpos : c.pos = .deck) : Drawn n t ((t.endGameRound scan shuffle n msg).1.playCard c.id)

/-- The card in play gives the price. -/
theorem getPrice_inPlay {t : Tables N} {n : N} (fuel : ℕ) (scan : Shuffle (Card N))
    (shuffle : Shuffle ℤ) (msg : String) (h : ∃ c ∈ t.hand n, c.pos = .inPlay) :
    ∃ c ∈ t.hand n, c.pos = .inPlay ∧
      getPrice (fuel + 1) t scan shuffle n msg = some (c.price, t, msg) := by
  unfold getPrice
  cases hp : (t.select scan n .inPlay).head? with
  | none =>
      obtain ⟨c, hc, hpos⟩ := h
      have := (mem_select.mpr ⟨hc, hpos⟩ : c ∈ t.select scan n _)
      rw [List.head?_eq_none_iff.mp hp] at this
      exact nomatch this
  | some c =>
      obtain ⟨hc, hpos⟩ := mem_select.mp (List.mem_of_head? hp)
      exact ⟨c, hc, hpos, rfl⟩

/-- With none in play one is drawn. -/
theorem getPrice_none {t : Tables N} {n : N} (fuel : ℕ) (scan : Shuffle (Card N))
    (shuffle : Shuffle ℤ) (msg : String) (h : ∀ c ∈ t.hand n, c.pos ≠ .inPlay) :
    getPrice (fuel + 1) t scan shuffle n msg
      = match drawACard fuel t scan shuffle n (msg ++ "; ") with
        | none          => none
        | some (t, msg) => getPrice fuel t scan shuffle n msg := by
  rw [getPrice]
  cases hp : (t.select scan n .inPlay).head? with
  | none => rfl
  | some c =>
      obtain ⟨hc, hpos⟩ := mem_select.mp (List.mem_of_head? hp)
      exact absurd hpos (h c hc)

/-- A card of the hand that is played is then in play. -/
theorem inPlay_playCard {t : Tables N} {n : N} {c : Card N} (h : c ∈ t.hand n) :
    ∃ d ∈ (t.playCard c.id).hand n, d.pos = .inPlay := by
  refine ⟨c.play, ?_, rfl⟩
  rw [hand_playCard]
  exact List.mem_map.mpr ⟨c, h, if_pos rfl⟩

/-- **THE RECURSION ENDS**: in any tables, with a card in play. -/
theorem getPrice_spec (fuel : ℕ) (t : Tables N) (scan : Shuffle (Card N)) (shuffle : Shuffle ℤ)
    (n : N) (msg : String) :
    ∃ t' c msg', Drawn n t t' ∧ c ∈ t'.hand n ∧ c.pos = .inPlay ∧
      getPrice (fuel + 3) t scan shuffle n msg = some (c.price, t', msg') := by
  by_cases hplay : ∃ c ∈ t.hand n, c.pos = .inPlay
  · obtain ⟨c, hc, hpos, hget⟩ := getPrice_inPlay (fuel + 2) scan shuffle msg hplay
    exact ⟨t, c, msg, .kept hplay, hc, hpos, hget⟩
  · have hno : ∀ c ∈ t.hand n, c.pos ≠ .inPlay := fun c hc hpos => hplay ⟨c, hc, hpos⟩
    rw [getPrice_none _ scan shuffle msg hno]
    by_cases hdeck : ∃ c ∈ t.hand n, c.pos = .deck
    · obtain ⟨c, msg', hc, hpos, hdraw⟩ :=
        drawACard_deck (fuel + 1) scan shuffle (msg ++ "; ") hdeck
      rw [hdraw]
      obtain ⟨d, hd, hdpos, hget⟩ :=
        getPrice_inPlay (fuel + 1) scan shuffle msg' (inPlay_playCard hc)
      exact ⟨_, d, msg', .drew hno hc hpos, hd, hdpos, hget⟩
    · have hends : RoundEnds t n := by
        intro c hc
        cases hpos : c.pos with
        | deck => exact absurd ⟨c, hc, hpos⟩ hdeck
        | inPlay => exact absurd hpos (hno c hc)
        | discarded => rfl
      rw [drawACard_empty _ scan shuffle (msg ++ "; ") fun c hc hpos => hdeck ⟨c, hc, hpos⟩]
      obtain ⟨hprices, hnew, _⟩ := reshuffleDeck_spec
        (t.updateCenterprice scan n (msg ++ "; ")).1 shuffle n
      have hdealt : ∃ c ∈ (t.endGameRound scan shuffle n (msg ++ "; ")).1.hand n,
          c.pos = .deck := by
        have hlen := hprices.length_eq
        rw [List.length_map] at hlen
        obtain ⟨c, hc⟩ := List.exists_mem_of_length_pos (Nat.lt_of_lt_of_eq (Nat.succ_pos 4) hlen.symm)
        exact ⟨c, hc, (hnew c hc).1⟩
      obtain ⟨c, msg', hc, hpos, hdraw⟩ := drawACard_deck fuel scan shuffle
        (t.endGameRound scan shuffle n (msg ++ "; ")).2 hdealt
      rw [hdraw]
      obtain ⟨d, hd, hdpos, hget⟩ :=
        getPrice_inPlay (fuel + 1) scan shuffle msg' (inPlay_playCard hc)
      exact ⟨_, d, msg', .dealt hends hc hpos, hd, hdpos, hget⟩

/-! ## What a step does to a node -/

/-- A change of a card that keeps the game: where it is from, its price, what it
    earned; and no card comes into play. -/
structure Mild (f : Card N → Card N) : Prop where
  node     : ∀ c, (f c).node = c.node
  price    : ∀ c, (f c).price = c.price
  earnings : ∀ c, (f c).earnings = c.earnings
  inPlay   : ∀ c, (f c).pos = .inPlay → c.pos = .inPlay

omit [DecidableEq N] in
theorem Mild.id : Mild (N := N) fun c => c :=
  ⟨fun _ => rfl, fun _ => rfl, fun _ => rfl, fun _ h => h⟩

omit [DecidableEq N] in
theorem Mild.comp {f g : Card N → Card N} (hf : Mild f) (hg : Mild g) : Mild fun c => f (g c) where
  node c     := (hf.node _).trans (hg.node c)
  price c    := (hf.price _).trans (hg.price c)
  earnings c := (hf.earnings _).trans (hg.earnings c)
  inPlay c h := hg.inPlay c (hf.inPlay _ h)

omit [DecidableEq N] in
theorem Mild.ite {f : Card N → Card N} (hf : Mild f) (p : Card N → Bool) :
    Mild fun c => if p c then f c else c := by
  constructor
  · intro c
    by_cases h : p c
    · simp only [if_pos h, hf.node]
    · simp only [if_neg h]
  · intro c
    by_cases h : p c
    · simp only [if_pos h, hf.price]
    · simp only [if_neg h]
  · intro c
    by_cases h : p c
    · simp only [if_pos h, hf.earnings]
    · simp only [if_neg h]
  · intro c hc
    by_cases h : p c
    · simp only [if_pos h] at hc
      exact hf.inPlay c hc
    · simpa only [if_neg h] using hc

omit [DecidableEq N] in
theorem mild_age : Mild (N := N) Card.age :=
  ⟨fun _ => rfl, fun _ => rfl, fun _ => rfl, fun _ h => h⟩

omit [DecidableEq N] in
theorem mild_discard : Mild (N := N) Card.discard :=
  ⟨fun _ => rfl, fun _ => rfl, fun _ => rfl, fun _ h => nomatch h⟩

/-- `update_10_minutes` is a mild change of the cards. -/
theorem update10Minutes_mild (t : Tables N) (connected : List N) :
    ∃ f, Mild f ∧ (t.update10Minutes connected).cards.rows = t.cards.rows.map f := by
  have hfold (cards : Table (Card.id (N := N))) : ∃ f, Mild f ∧
      (connected.foldl (fun cards node =>
        cards.updateWhere (fun c => c.pos = .inPlay && c.node = node) Card.age fun _ => rfl)
        cards).rows = cards.rows.map f := by
    induction connected generalizing cards with
    | nil => exact ⟨_, Mild.id, (List.map_id' _).symm⟩
    | cons node connected ih =>
        obtain ⟨f, hf, hrows⟩ := ih
          (cards.updateWhere (fun c => c.pos = .inPlay && c.node = node) Card.age fun _ => rfl)
        refine ⟨_, hf.comp (mild_age.ite fun c => c.pos = .inPlay && c.node = node), ?_⟩
        rw [List.foldl_cons, hrows]
        exact List.map_map
  obtain ⟨f, hf, hrows⟩ := hfold t.cards
  refine ⟨_, (mild_discard.ite fun c => c.pos = .inPlay && c.lifetime ≤ 0).comp hf, ?_⟩
  show List.map _ _ = _
  rw [hrows]
  exact List.map_map

omit [DecidableEq N] in
theorem Dealt.map {center : ℤ} {hand : List (Card N)} {f : Card N → Card N} (h : Dealt center hand)
    (hprice : ∀ c, (f c).price = c.price) (hpos : ∀ c, (f c).pos = .inPlay → c.pos = .inPlay) :
    Dealt center (hand.map f) := by
  constructor
  · rw [List.map_map, show Card.price ∘ f = Card.price from funext hprice]
    exact h.prices
  · rw [List.countP_map]
    refine le_trans (List.countP_mono_left ?_) h.inPlay
    intro c _ hc
    exact decide_eq_true (hpos c (of_decide_eq_true hc))

theorem Touched.of_none {e : Event N} {c c' : Card N} (hfee : e.fee c = none)
    (hnode : c'.node = c.node) (hprice : c'.price = c.price)
    (hearnings : c'.earnings = c.earnings) : Touched e c c' where
  node  := hnode
  price := hprice
  books := by
    rw [hfee]
    exact hearnings

theorem forall₂_map {e : Event N} {f : Card N → Card N} (hf : ∀ c, Touched e c (f c))
    (hand : List (Card N)) : List.Forall₂ (Touched e) hand (hand.map f) := by
  rw [List.forall₂_map_right_iff]
  exact List.forall₂_same.mpr fun c _ => hf c

/-- Centers and hands that are as before. -/
theorem Game.congr {t t' : Tables N} {n : N} (h : Game t n) (hcenter : t'.center n = t.center n)
    (hhand : t'.hand n = t.hand n) : Game t' n := by
  unfold Game
  rw [hcenter, hhand]
  exact h

/-- Cards that change one by one. -/
theorem Game.map {t t' : Tables N} {n : N} {f : Card N → Card N} (h : Game t n)
    (hcenter : t'.center n = t.center n) (hhand : t'.hand n = (t.hand n).map f)
    (hprice : ∀ c, (f c).price = c.price) (hpos : ∀ c, (f c).pos = .inPlay → c.pos = .inPlay) :
    Game t' n := by
  unfold Game
  rw [hcenter, hhand]
  rcases h with ⟨hnone, hempty⟩ | ⟨c, hsome, hdealt⟩
  · exact .inl ⟨hnone, by rw [hempty]; rfl⟩
  · exact .inr ⟨c, hsome, hdealt.map hprice hpos⟩

/-! ## Putting a card in play -/

/-- One card has an id. -/
theorem countP_id_le (t : Tables N) (n : N) (id : ℕ) :
    (t.hand n).countP (fun c => c.id = id) ≤ 1 := by
  have hnodup : ((t.hand n).map Card.id).Nodup := t.cards.nodup.sublist (List.filter_sublist.map _)
  have := List.nodup_iff_count_le_one.mp hnodup id
  rw [List.count, List.countP_map] at this
  refine le_trans (List.countP_mono_left ?_) this
  intro c _ hc
  simpa using hc

/-- Playing a card of a hand with none in play. -/
theorem dealt_playCard {t : Tables N} {n : N} {center : ℤ} (id : ℕ) (h : Dealt center (t.hand n))
    (hno : ∀ c ∈ t.hand n, c.pos ≠ .inPlay) : Dealt center ((t.playCard id).hand n) := by
  rw [hand_playCard]
  constructor
  · rw [List.map_map]
    refine (List.Perm.of_eq (List.map_congr_left ?_)).trans h.prices
    intro c _
    simp only [Function.comp_apply]
    split <;> rfl
  · rw [List.countP_map]
    refine le_trans (List.countP_mono_left ?_) (countP_id_le t n id)
    intro c hc hpos
    refine decide_eq_true ?_
    by_contra hid
    rw [Function.comp_apply, if_neg hid] at hpos
    exact hno c hc (of_decide_eq_true hpos)

/-- Other hands do not have the card. -/
theorem hand_playCard_ne {t : Tables N} {n m : N} {c : Card N} (hc : c ∈ t.hand m) (h : n ≠ m) :
    (t.playCard c.id).hand n = t.hand n := by
  rw [hand_playCard]
  refine (List.map_congr_left ?_).trans (List.map_id _)
  intro d hd
  refine if_neg fun hid => h ?_
  obtain ⟨hd, hdn⟩ := mem_hand.mp hd
  obtain ⟨hc, hcm⟩ := mem_hand.mp hc
  have : d = c := List.inj_on_of_nodup_map t.cards.nodup hd hc hid
  rw [← hdn, ← hcm, this]

theorem touched_play {e : Event N} (id : ℕ) {c : Card N} (hfee : e.fee c = none) :
    Touched e c (if c.id = id then c.play else c) := by
  split
  · exact .of_none hfee rfl rfl rfl
  · exact .of_none hfee rfl rfl rfl

/-! ## A new round -/

section Round

variable {t : Tables N} {n : N} {scan : Shuffle (Card N)} {shuffle : Shuffle ℤ} {msg : String}

/-- A node with cards has a center. -/
theorem Game.dealt {t : Tables N} {n : N} (h : Game t n) (hne : t.hand n ≠ []) :
    t.center n = some (t.getCenterPrice n) ∧ Dealt (t.getCenterPrice n) (t.hand n) := by
  rcases h with ⟨_, hempty⟩ | ⟨c, hsome, hdealt⟩
  · exact absurd hempty hne
  · rw [getCenterPrice_eq, hsome]
    exact ⟨rfl, hdealt⟩

omit [DecidableEq N] in
/-- A dealt deck has cards. -/
theorem Dealt.ne_nil {center : ℤ} {hand : List (Card N)} (h : Dealt center hand) : hand ≠ [] := by
  rintro rfl
  exact nomatch h.prices.length_eq

/-- A node without cards has not been played. -/
theorem Game.unplayed (h : Game t n) (hempty : t.hand n = []) : t.center n = none := by
  rcases h with ⟨hnone, _⟩ | ⟨c, _, hdealt⟩
  · exact hnone
  · exact absurd hempty hdealt.ne_nil

/-- The center of the new round. -/
theorem endGameRound_center (scan : Shuffle (Card N)) (shuffle : Shuffle ℤ) (msg : String)
    (hgame : Game t n) (hend : RoundEnds t n) :
    ∃ new, (t.endGameRound scan shuffle n msg).1.center n = some new ∧
      ((t.hand n = [] ∧ new = initialPrice) ∨ ∃ c, Best (t.hand n) c ∧
        new = if c.earnings.columnInt64 = 0 then t.getCenterPrice n else c.price) := by
  obtain ⟨_, _, h⟩ := updateCenterprice_spec t scan msg hend
  rcases h with ⟨hempty, hcenter⟩ | ⟨c, hbest, hcenter⟩
  · exact ⟨initialPrice, hcenter, .inl ⟨hempty, rfl⟩⟩
  · refine ⟨_, ?_, .inr ⟨c, hbest, rfl⟩⟩
    rw [(hgame.dealt (List.ne_nil_of_mem hbest.1)).1] at hcenter
    refine hcenter.trans ?_
    split <;> rfl

/-- The deck of the new round. -/
theorem endGameRound_dealt {new : ℤ}
    (hnew : (t.endGameRound scan shuffle n msg).1.center n = some new) :
    Dealt new ((t.endGameRound scan shuffle n msg).1.hand n) ∧
      ∀ c ∈ (t.endGameRound scan shuffle n msg).1.hand n, c.pos = .deck ∧ c.earnings = .int 0 := by
  obtain ⟨hprices, hcards, _⟩ := reshuffleDeck_spec (t.updateCenterprice scan n msg).1 shuffle n
  have hcenter : (t.updateCenterprice scan n msg).1.getCenterPrice n = new := by
    rw [getCenterPrice_eq, show (t.updateCenterprice scan n msg).1.center n = some new from hnew]
    rfl
  rw [hcenter] at hprices
  refine ⟨⟨hprices, ?_⟩, hcards⟩
  refine le_trans (List.countP_eq_zero.mpr ?_).le (Nat.zero_le 1)
  intro c hc hpos
  rw [(hcards c hc).1] at hpos
  exact absurd hpos (by decide)

/-- Other nodes are not touched. -/
theorem endGameRound_ne {m : N} (hend : RoundEnds t m) (hne : n ≠ m) :
    (t.endGameRound scan shuffle m msg).1.center n = t.center n ∧
      (t.endGameRound scan shuffle m msg).1.hand n = t.hand n := by
  obtain ⟨hcards, hcenter, _⟩ := updateCenterprice_spec t scan msg hend
  obtain ⟨_, _, hhand⟩ := reshuffleDeck_spec (t.updateCenterprice scan m msg).1 shuffle m
  refine ⟨hcenter n hne, (hhand n hne).trans ?_⟩
  unfold Tables.hand
  rw [hcards]

end Round

theorem mem_around {p c : ℤ} : p ∈ around c ↔ |p - c| ≤ 2 := by
  rw [abs_le]
  simp only [around, List.mem_cons, List.not_mem_nil, or_false]
  omega

/-- While every card has a natural number of earnings, a best card that earned nothing
    leaves the center where a best card is. -/
theorem best_of_nat {t : Tables N} {n : N} {c : Card N}
    (hdealt : Dealt (t.getCenterPrice n) (t.hand n))
    (hnat : ∀ d ∈ t.hand n, ∃ k : ℕ, d.earnings = .int k) (hbest : Best (t.hand n) c) :
    ∃ d, Best (t.hand n) d ∧
      (if c.earnings.columnInt64 = 0 then t.getCenterPrice n else c.price) = d.price := by
  by_cases hzero : c.earnings.columnInt64 = 0
  · rw [if_pos hzero]
    have hmem : t.getCenterPrice n ∈ (t.hand n).map Card.price :=
      hdealt.prices.symm.subset (mem_around.mpr (by simp))
    obtain ⟨d, hd, hprice⟩ := List.mem_map.mp hmem
    refine ⟨d, ⟨hd, fun x hx => (hbest.2 x hx).trans ?_⟩, hprice.symm⟩
    obtain ⟨k, hk⟩ := hnat c hbest.1
    obtain ⟨j, hj⟩ := hnat d hd
    rw [hk] at hzero
    rw [hk, hj, Value.rank_int_le]
    have : (k : ℤ) = 0 := hzero
    omega
  · exact ⟨c, hbest, if_neg hzero⟩

/-! ## Asking for a price -/

section Ask

variable {t t' : Tables N} {n m : N} {e : Event N}

/-- Other nodes are not touched. -/
theorem Drawn.other (h : Drawn m t t') (hne : n ≠ m) :
    t'.center n = t.center n ∧ t'.hand n = t.hand n := by
  cases h with
  | kept h => exact ⟨rfl, rfl⟩
  | drew h hc hpos => exact ⟨rfl, hand_playCard_ne hc hne⟩
  | dealt h hc hpos =>
      obtain ⟨hcenter, hhand⟩ := endGameRound_ne h hne
      exact ⟨hcenter, (hand_playCard_ne hc hne).trans hhand⟩

/-- The game goes on. -/
theorem Drawn.game (h : Drawn n t t') (hgame : Game t n) : Game t' n := by
  cases h with
  | kept h => exact hgame
  | drew h hc hpos =>
      obtain ⟨hcenter, hdealt⟩ := hgame.dealt (List.ne_nil_of_mem hc)
      exact .inr ⟨_, hcenter, dealt_playCard _ hdealt h⟩
  | dealt h hc hpos =>
      obtain ⟨new, hnew, _⟩ := endGameRound_center _ _ _ hgame h
      obtain ⟨hdealt, hcards⟩ := endGameRound_dealt hnew
      refine .inr ⟨new, hnew, dealt_playCard _ hdealt ?_⟩
      intro c hc hplay
      rw [(hcards c hc).1] at hplay
      exact nomatch hplay

/-- Within a round the center and the cards stay. -/
theorem Drawn.keeps (h : Drawn n t t') (hfee : ∀ c, e.fee c = none) (hround : ¬ RoundEnds t n) :
    t'.center n = t.center n ∧ List.Forall₂ (Touched e) (t.hand n) (t'.hand n) := by
  cases h with
  | kept h =>
      exact ⟨rfl, List.forall₂_same.mpr fun c _ => .of_none (hfee c) rfl rfl rfl⟩
  | drew h hc hpos =>
      refine ⟨rfl, ?_⟩
      rw [hand_playCard]
      exact forall₂_map (fun c => touched_play _ (hfee c)) _
  | dealt h hc hpos => exact absurd h hround

/-- A card has earned what it had, or is new. -/
theorem Drawn.earnings (h : Drawn n t t') (hgame : Game t n) : ∀ c' ∈ t'.hand n,
    c'.earnings = .int 0 ∨ ∃ c ∈ t.hand n, c'.earnings = c.earnings := by
  intro c' hc'
  cases h with
  | kept h => exact .inr ⟨c', hc', rfl⟩
  | drew h hc hpos =>
      rw [hand_playCard] at hc'
      obtain ⟨c, hc, rfl⟩ := List.mem_map.mp hc'
      refine .inr ⟨c, hc, ?_⟩
      split <;> rfl
  | dealt h hc hpos =>
      obtain ⟨new, hnew, _⟩ := endGameRound_center _ _ _ hgame h
      obtain ⟨_, hcards⟩ := endGameRound_dealt hnew
      rw [hand_playCard] at hc'
      obtain ⟨c, hc, rfl⟩ := List.mem_map.mp hc'
      have := (hcards c hc).2
      refine .inl ?_
      split <;> exact this

/-- At the end of a round a new one begins. -/
theorem Drawn.newRound {es : List (Event N)} (h : Drawn n t t') (hround : RoundEnds t n)
    (hgame : Game t n)
    (hnat : fees es < 2 ^ 63 → ∀ c ∈ t.hand n, ∃ k : ℕ, c.earnings = .int k) :
    NewRound es t t' n := by
  cases h with
  | kept h =>
      obtain ⟨c, hc, hpos⟩ := h
      rw [hround c hc] at hpos
      exact nomatch hpos
  | @drew c h hc hpos =>
      rw [hround c hc] at hpos
      exact nomatch hpos
  | @dealt scan shuffle msg c h hc hpos =>
      obtain ⟨new, hnew, hchoice⟩ := endGameRound_center scan shuffle msg hgame h
      obtain ⟨_, hcards⟩ := endGameRound_dealt hnew
      have hcenter : ((t.endGameRound scan shuffle n msg).1.playCard c.id).getCenterPrice n
          = new := by
        rw [getCenterPrice_eq]
        exact congrArg (Option.getD · initialPrice) hnew
      constructor
      · intro d hd
        rw [hand_playCard] at hd
        obtain ⟨d', hd', rfl⟩ := List.mem_map.mp hd
        have := (hcards d' hd').2
        split
        · exact this
        · exact this
      · intro hempty
        rw [hcenter]
        rcases hchoice with ⟨_, rfl⟩ | ⟨b, hbest, _⟩
        · rfl
        · exact absurd hempty (List.ne_nil_of_mem hbest.1)
      · intro hne
        rw [hcenter]
        rcases hchoice with ⟨hempty, _⟩ | ⟨b, hbest, hchoice⟩
        · exact absurd hempty hne
        · exact ⟨b, hbest, hchoice⟩
      · rw [hcenter]
        rcases hchoice with ⟨hempty, rfl⟩ | ⟨b, hbest, hchoice⟩
        · rw [getCenterPrice_eq, hgame.unplayed hempty]
          simp
        · rw [hchoice]
          split
          · simp
          · obtain ⟨_, hdealt⟩ := hgame.dealt (List.ne_nil_of_mem hbest.1)
            exact mem_around.mp (hdealt.prices.subset (List.mem_map_of_mem hbest.1))
      · intro hfees hne
        rw [hcenter]
        rcases hchoice with ⟨hempty, _⟩ | ⟨b, hbest, hchoice⟩
        · exact absurd hempty hne
        · rw [hchoice]
          exact best_of_nat (hgame.dealt hne).2 (hnat hfees) hbest

end Ask

/-! ## What holds along a run -/

/-- While the fees fit, every card has earned a natural number. -/
def Natural (es : List (Event N)) (t : Tables N) : Prop :=
  fees es < 2 ^ 63 → ∀ n, ∀ c ∈ t.hand n, ∃ k : ℕ, k ≤ fees es ∧ c.earnings = .int k

omit [DecidableEq N] in
theorem fees_snoc (es : List (Event N)) (e : Event N) : fees es ≤ fees (es ++ [e]) := by
  unfold fees
  rw [List.map_append, List.sum_append]
  exact Nat.le_add_right _ _

/-- Cards that keep their earnings, or are new. -/
theorem Natural.mono {es : List (Event N)} {e : Event N} {t t' : Tables N} (h : Natural es t)
    (ht : ∀ n, ∀ c' ∈ t'.hand n, c'.earnings = .int 0 ∨ ∃ c ∈ t.hand n, c'.earnings = c.earnings) :
    Natural (es ++ [e]) t' := by
  intro hfees n c' hc'
  have hle := fees_snoc es e
  rcases ht n c' hc' with hzero | ⟨c, hc, heq⟩
  · exact ⟨0, Nat.zero_le _, hzero⟩
  · obtain ⟨k, hk, hint⟩ := h (by omega) n c hc
    exact ⟨k, by omega, heq.trans hint⟩

/-- What is to be shown of a step. -/
def Plays (fuel : ℕ) (es : List (Event N)) (t : Tables N) (e : Event N) : Prop :=
  ∃ t' out, step fuel t e = some (t', out) ∧ (∀ n, Game t' n) ∧ Natural (es ++ [e]) t' ∧
    Rules es t e t' out

section Step

variable {fuel : ℕ} {es : List (Event N)} {t : Tables N} (hgame : ∀ n, Game t n)
  (hnat : Natural es t)

/-- A step that nobody asks anything in and that changes cards one by one. -/
theorem plays_map {e : Event N} {t' : Tables N} {f : Card N → Card N}
    (hstep : step fuel t e = some (t', [])) (hasks : ∀ n, e.asks n = false)
    (hcenter : ∀ n, t'.center n = t.center n) (hhand : ∀ n, t'.hand n = (t.hand n).map f)
    (htouched : ∀ c, Touched e c (f c)) (hpos : ∀ c, (f c).pos = .inPlay → c.pos = .inPlay)
    (hnat' : Natural (es ++ [e]) t') (hgame : ∀ n, Game t n) : Plays fuel es t e := by
  refine ⟨t', [], hstep, ?_, hnat', ?_, ?_, ?_⟩
  · intro n
    exact (hgame n).map (hcenter n) (hhand n) (fun c => (htouched c).price) hpos
  · intro n hask
    rw [hasks] at hask
    exact nomatch hask
  · intro n _
    refine ⟨hcenter n, ?_⟩
    rw [hhand]
    exact forall₂_map htouched _
  · intro n hask
    rw [hasks] at hask
    exact nomatch hask

include hgame hnat

/-- A step that changes cards mildly. -/
theorem plays_mild {e : Event N} {t' : Tables N} {f : Card N → Card N}
    (hstep : step fuel t e = some (t', [])) (hasks : ∀ n, e.asks n = false)
    (hfee : ∀ c, e.fee c = none) (hcenter : ∀ n, t'.center n = t.center n) (hf : Mild f)
    (hrows : t'.cards.rows = t.cards.rows.map f) : Plays fuel es t e := by
  have hhand (n : N) : t'.hand n = (t.hand n).map f := by
    unfold Tables.hand
    rw [hrows]
    exact filter_map_node hf.node n _
  refine plays_map hstep hasks hcenter hhand
    (fun c => .of_none (hfee c) (hf.node c) (hf.price c) (hf.earnings c)) hf.inPlay
    (hnat.mono ?_) hgame
  intro n c' hc'
  rw [hhand] at hc'
  obtain ⟨c, hc, rfl⟩ := List.mem_map.mp hc'
  exact .inr ⟨c, hc, hf.earnings c⟩

theorem plays_forwardFee (outId : N) (fee : Amount) : Plays fuel es t (.forwardFee outId fee) := by
  have hhand (n : N) : (t.forwardFee outId fee).hand n
      = (t.hand n).map fun c => if (c.node = outId && c.pos = .inPlay) then c.earn fee else c := by
    refine filter_map_node ?_ n t.cards.rows
    intro c
    split <;> rfl
  refine plays_map rfl (fun _ => rfl) (fun _ => rfl) hhand ?_ ?_ ?_ hgame
  · intro c
    split
    next h =>
      rw [Bool.and_eq_true, decide_eq_true_eq, decide_eq_true_eq] at h
      exact ⟨rfl, rfl, by rw [Event.fee, if_pos h]; rfl⟩
    next h =>
      rw [Bool.and_eq_true, decide_eq_true_eq, decide_eq_true_eq] at h
      exact .of_none (if_neg h) rfl rfl rfl
  · intro c hpos
    split at hpos
    · exact hpos
    · exact hpos
  · intro hfees n c' hc'
    have htotal : fees (es ++ [.forwardFee outId fee]) = fees es + fee.toMsat.toNat := by
      unfold fees
      rw [List.map_append, List.sum_append]
      simp
    rw [htotal] at hfees ⊢
    rw [hhand] at hc'
    obtain ⟨c, hc, rfl⟩ := List.mem_map.mp hc'
    obtain ⟨k, hk, hint⟩ := hnat (by omega) n c hc
    split
    · refine ⟨k + fee.toMsat.toNat, by omega, ?_⟩
      show ((c.earnings.add (.bind fee.toMsat)).integerAffinity) = _
      rw [hint, Value.bind_of_lt (by omega), Value.add_int]
      · rfl
      · exact inRange_natCast (by omega)
    · exact ⟨k, by omega, hint⟩

theorem plays_getFeeMod (node : N) (scan : Shuffle (Card N)) (shuffle : Shuffle ℤ) :
    Plays (fuel + 3) es t (.getFeeMod node scan shuffle) := by
  obtain ⟨t', c, msg, hdrawn, hc, hpos, hget⟩ := getPrice_spec fuel t scan shuffle node ""
  have hnat' : fees es < 2 ^ 63 → ∀ c ∈ t.hand node, ∃ k : ℕ, c.earnings = .int k := by
    intro hfees d hd
    obtain ⟨k, _, hk⟩ := hnat hfees node d hd
    exact ⟨k, hk⟩
  have hself {n : N} (hask : (Event.getFeeMod node scan shuffle).asks n = true) : n = node :=
    (of_decide_eq_true hask).symm
  have hstep : step (fuel + 3) t (.getFeeMod node scan shuffle)
      = some (t', [⟨node, c.price, t'.getCenterPrice node, t'.getCardsLeft node, msg⟩]) := by
    simp only [step, hget]
  refine ⟨t', _, hstep, ?_, hnat.mono ?_, ?_, ?_, ?_⟩
  · intro n
    by_cases hn : n = node
    · subst hn
      exact hdrawn.game (hgame n)
    · obtain ⟨hcenter, hhand⟩ := hdrawn.other hn
      exact (hgame n).congr hcenter hhand
  · intro n c' hc'
    by_cases hn : n = node
    · subst hn
      exact hdrawn.earnings (hgame n) c' hc'
    · rw [(hdrawn.other hn).2] at hc'
      exact .inr ⟨c', hc', rfl⟩
  · intro n hask hround
    obtain rfl := hself hask
    exact hdrawn.newRound hround (hgame _) hnat'
  · intro n hround
    by_cases hn : n = node
    · subst hn
      exact hdrawn.keeps (fun _ => rfl) (hround (decide_eq_true rfl))
    · obtain ⟨hcenter, hhand⟩ := hdrawn.other hn
      rw [hhand]
      exact ⟨hcenter, List.forall₂_same.mpr fun _ _ => .of_none rfl rfl rfl rfl⟩
  · intro n hask
    obtain rfl := hself hask
    exact ⟨_, c, rfl, rfl, hc, hpos, rfl⟩

/-- **STEP**: whatever happens, the rules are kept. -/
theorem plays_step (e : Event N) : Plays (fuel + 3) es t e := by
  cases e with
  | dbResource =>
      exact plays_mild hgame hnat rfl (fun _ => rfl) (fun _ => rfl) (fun _ => rfl) Mild.id
        (List.map_id' _).symm
  | getFeeMod node scan shuffle => exact plays_getFeeMod hgame hnat node scan shuffle
  | listpeersAnalyzedResult connected initial =>
      cases initial with
      | true =>
          exact plays_mild hgame hnat rfl (fun _ => rfl) (fun _ => rfl) (fun _ => rfl) Mild.id
            (List.map_id' _).symm
      | false =>
          obtain ⟨f, hf, hrows⟩ := update10Minutes_mild t connected
          exact plays_mild hgame hnat rfl (fun _ => rfl) (fun _ => rfl) (fun _ => rfl) hf hrows
  | forwardFee outId fee => exact plays_forwardFee hgame hnat outId fee

end Step

theorem game_init : (∀ n, Game (N := N) Tables.init n) ∧
    Natural ([] : List (Event N)) Tables.init :=
  ⟨fun _ => .inl ⟨rfl, rfl⟩, fun _ _ _ h => nomatch h⟩

/-- **HEADLINE**: every sequence of events runs to its end, every node is in a game
    after it, and whatever happens next happens by the rules. -/
theorem keeps_rules (fuel : ℕ) (es : List (Event N)) :
    ∃ t tr, run (fuel + 3) es = some (t, tr) ∧ (∀ n, Game t n) ∧
      ∀ e, ∃ t' out, step (fuel + 3) t e = some (t', out) ∧ Rules es t e t' out := by
  have htotal : ∃ t tr, run (fuel + 3) es = some (t, tr) ∧ (∀ n, Game t n) ∧ Natural es t := by
    refine Machine.run_total
      (I := fun es (_ : List (MonitorFee N)) t => (∀ n, Game t n) ∧ Natural es t) game_init ?_ es
    intro es tr t e h
    obtain ⟨t', out, hstep, hgame', hnat', _⟩ := plays_step h.1 h.2 e
    exact ⟨t', out, hstep, hgame', hnat'⟩
  obtain ⟨t, tr, hrun, hgame, hnat⟩ := htotal
  refine ⟨t, tr, hrun, hgame, fun e => ?_⟩
  obtain ⟨t', out, hstep, _, _, hrules⟩ := plays_step hgame hnat e
  exact ⟨t', out, hstep, hrules⟩

/-- A center moves by at most two a step, so it takes `2 ^ 62` events to overflow. -/
theorem center_bound (fuel : ℕ) {es : List (Event N)} {t : Tables N} {tr : List (MonitorFee N)}
    (h : run (fuel + 3) es = some (t, tr)) (n : N) : |t.getCenterPrice n| ≤ 2 * es.length := by
  refine (Machine.run_invariant (P := fun _ _ => True) (I := fun es (_ : List (MonitorFee N)) t =>
    ((∀ n, Game t n) ∧ Natural es t) ∧ ∀ n, |t.getCenterPrice n| ≤ 2 * es.length)
    ⟨game_init, fun _ => le_refl _⟩ ?_ (Machine.along_true _ _) h).2 n
  rintro es tr t e t' out ⟨⟨hgame, hnat⟩, hbound⟩ _ hs
  obtain ⟨t₁, out₁, hstep, hgame', hnat', hrules⟩ := (plays_step hgame hnat e : Plays (fuel + 3) es t e)
  cases hstep.symm.trans hs
  refine ⟨⟨hgame', hnat'⟩, fun n => ?_⟩
  have hlen : ((es ++ [e]).length : ℤ) = es.length + 1 := by simp
  have hold := abs_le.mp (hbound n)
  rw [hlen]
  by_cases hround : e.asks n = true ∧ RoundEnds t n
  · have hnear := abs_le.mp (hrules.deals n hround.1 hround.2).near
    exact abs_le.mpr ⟨by linarith, by linarith⟩
  · have hsame := (hrules.keeps n fun hask hend => hround ⟨hask, hend⟩).1
    rw [getCenterPrice_eq, hsame, ← getCenterPrice_eq]
    exact abs_le.mpr ⟨by linarith, by linarith⟩

/-! ## How long a card is in play -/

/-- The card after `k` ten-minute events with its node connected. -/
def Card.ageBy (n : N) (k : ℕ) (c : Card N) : Card N :=
  if c.pos = .inPlay ∧ c.node = n then
    if c.lifetime ≤ k then { c with pos := .discarded, lifetime := 0 }
    else { c with lifetime := c.lifetime - k }
  else c

theorem Card.ageBy_id (n : N) (k : ℕ) (c : Card N) : (c.ageBy n k).id = c.id := by
  unfold Card.ageBy
  split_ifs <;> rfl

/-- The tables after `k` ten-minute events with one node connected. -/
def Tables.ageBy (t : Tables N) (n : N) (k : ℕ) : Tables N :=
  { t with cards := t.cards.updateWhere (fun _ => true) (Card.ageBy n k) (Card.ageBy_id n k) }

/-- One ten-minute event. -/
def Card.tick (n : N) (c : Card N) : Card N :=
  let c := if (c.pos = .inPlay && c.node = n) then c.age else c
  if (c.pos = .inPlay && c.lifetime ≤ 0) then c.discard else c

/-- Cards that are not in play, and cards of other nodes, do not age. -/
theorem tick_of_not {n : N} {c : Card N} (hin : ¬ (c.pos = .inPlay ∧ c.node = n))
    (h : c.pos = .inPlay → 0 < c.lifetime) : c.tick n = c := by
  have hage : (c.pos = .inPlay && c.node = n) = false := by
    simpa using hin
  have hdead : (c.pos = .inPlay && c.lifetime ≤ 0) = false := by
    simpa using h
  simp only [Card.tick, hage, hdead, Bool.false_eq_true, if_false]

/-- The card in play ages, and its last event discards it. -/
theorem tick_of_inPlay {n : N} {c : Card N} (hin : c.pos = .inPlay ∧ c.node = n) :
    c.tick n = if c.lifetime ≤ 1 then c.age.discard else c.age := by
  have hage : (c.pos = .inPlay && c.node = n) = true := by
    simpa using hin
  have hdead : (c.age.pos = .inPlay && c.age.lifetime ≤ 0) = decide (c.lifetime ≤ 1) := by
    have hpos : c.age.pos = .inPlay := hin.1
    have hlife : c.age.lifetime ≤ 0 ↔ c.lifetime ≤ 1 := by
      show c.lifetime - 1 ≤ 0 ↔ _
      omega
    simp [hpos, hlife]
  simp only [Card.tick, hage, hdead, if_true, decide_eq_true_eq]

theorem tick_ageBy (n : N) (k : ℕ) {c : Card N} (h : c.pos = .inPlay → 0 < c.lifetime) :
    (c.ageBy n k).tick n = c.ageBy n (k + 1) := by
  unfold Card.ageBy
  by_cases hin : c.pos = .inPlay ∧ c.node = n
  · rw [if_pos hin, if_pos hin]
    by_cases hk : c.lifetime ≤ k
    · rw [if_pos hk, if_pos (by push_cast; omega)]
      exact tick_of_not (fun hin => nomatch hin.1) (fun hin => nomatch hin)
    · have hin' : ({ c with lifetime := c.lifetime - k } : Card N).pos = .inPlay ∧
          ({ c with lifetime := c.lifetime - k } : Card N).node = n := hin
      rw [if_neg hk, tick_of_inPlay hin']
      by_cases hlast : c.lifetime ≤ k + 1
      · have hzero : c.lifetime - k - 1 = 0 := by omega
        rw [if_pos (show c.lifetime - k ≤ 1 by omega), if_pos (by push_cast; omega)]
        simp only [Card.age, Card.discard, hzero]
      · rw [if_neg (show ¬ c.lifetime - k ≤ 1 by omega), if_neg (by push_cast; omega)]
        simp only [Card.age, Nat.cast_succ, sub_sub]
  · rw [if_neg hin, if_neg hin]
    exact tick_of_not hin h

omit [DecidableEq N] in
/-- Tables with the same rows are the same. -/
theorem Tables.ext_rows {t t' : Tables N} (hcenter : t.centerprice = t'.centerprice)
    (hrows : t.cards.rows = t'.cards.rows) : t = t' := by
  obtain ⟨centerprice, rows, _⟩ := t
  obtain ⟨centerprice', rows', _⟩ := t'
  cases hcenter
  cases hrows
  rfl

/-- **RUN**: a card put in play is discarded after as many events as it has lifetime. -/
theorem run_ageBy (fuel : ℕ) (t : Tables N) (n : N) (k : ℕ)
    (h : ∀ c ∈ t.cards.rows, c.pos = .inPlay → 0 < c.lifetime) :
    Machine.run (step fuel) t (List.replicate k (.listpeersAnalyzedResult [n] false))
      = some (t.ageBy n k, []) := by
  induction k with
  | zero =>
      refine congrArg (fun t => some (t, [])) (Tables.ext_rows rfl ?_)
      refine (List.map_id _).symm.trans (List.map_congr_left ?_)
      intro c hc
      show c = c.ageBy n 0
      unfold Card.ageBy
      split_ifs with hin hzero
      · have := h c hc hin.1
        exact absurd this (by push_cast at hzero; omega)
      · simp
      · rfl
  | succ k ih =>
      rw [List.replicate_succ']
      refine Machine.run_snoc ih (congrArg (fun t => some (t, [])) (Tables.ext_rows rfl ?_))
      show (((t.cards.rows.map _).map _).map _) = t.cards.rows.map _
      rw [List.map_map, List.map_map]
      refine List.map_congr_left fun c hc => ?_
      exact tick_ageBy n k (h c hc)

/-! ## When the fees do not fit -/

/-- Nothing is rearranged. -/
def inOrder {α : Type} : Shuffle α := ⟨id, fun _ => .refl _⟩

/-- A price is asked for and its card played to the end. -/
def playOnce (earned : List (Event ℕ)) : List (Event ℕ) :=
  .getFeeMod 0 inOrder inOrder :: earned ++
    List.replicate 288 (.listpeersAnalyzedResult [0] false)

/-- The tables after that, the 288 events in one go. -/
def played (earned : List (Event ℕ)) (t : Tables ℕ) : Option (Tables ℕ) :=
  (Machine.run (step 3) t (.getFeeMod 0 inOrder inOrder :: earned)).bind fun p =>
    if ∀ c ∈ p.1.cards.rows, c.pos = .inPlay → 0 < c.lifetime then some (p.1.ageBy 0 288) else none

theorem run_playOnce {earned : List (Event ℕ)} {t t' : Tables ℕ} (h : played earned t = some t') :
    ∃ tr, Machine.run (step 3) t (playOnce earned) = some (t', tr) := by
  obtain ⟨⟨t₁, tr⟩, hrun, hage⟩ := Option.bind_eq_some_iff.mp h
  obtain ⟨hlife, heq⟩ := Option.ite_none_right_eq_some.mp hage
  cases heq
  exact ⟨tr ++ [], Machine.run_append hrun (run_ageBy 3 t₁ 0 288 hlife)⟩

/-- A round in which only the card of the center earns, a fee that does not fit. -/
def wrappedRound : List (Event ℕ) :=
  playOnce [] ++ playOnce [] ++ playOnce [] ++ playOnce []
    ++ playOnce [.forwardFee 0 (.msat 18446744073709549568)]

/-- The cards at its end. -/
def wrappedHand : List (Card ℕ) :=
  [ ⟨1, 0, .discarded, 0, 0, 0, .int (-2048)⟩, ⟨2, 0, .discarded, 1, 1, 0, .int 0⟩
  , ⟨3, 0, .discarded, 2, -1, 0, .int 0⟩, ⟨4, 0, .discarded, 3, 2, 0, .int 0⟩
  , ⟨5, 0, .discarded, 4, -2, 0, .int 0⟩ ]

/-- The fee is booked as a NEGATIVE number, so the best cards earned nothing and the
    center stays at the one card that is not best. -/
theorem center_not_best_wrappedRound :
    ∃ t tr t' out, run 3 wrappedRound = some (t, tr) ∧
      step 3 t (.getFeeMod 0 inOrder inOrder) = some (t', out) ∧ RoundEnds t 0 ∧
      t.hand 0 = wrappedHand ∧ t'.getCenterPrice 0 = 0 ∧
      ¬ ∃ c, Best (t.hand 0) c ∧ t'.getCenterPrice 0 = c.price := by
  have hplayed : ((played [] Tables.init).bind fun t₁ => (played [] t₁).bind fun t₂ =>
      (played [] t₂).bind fun t₃ => (played [] t₃).bind fun t₄ =>
      (played [.forwardFee 0 (.msat 18446744073709549568)] t₄).bind fun t =>
      (step 3 t (.getFeeMod 0 inOrder inOrder)).map fun q => (t.hand 0, q.1.getCenterPrice 0))
        = some (wrappedHand, 0) := by
    decide +kernel
  obtain ⟨t₁, h₁, hplayed⟩ := Option.bind_eq_some_iff.mp hplayed
  obtain ⟨t₂, h₂, hplayed⟩ := Option.bind_eq_some_iff.mp hplayed
  obtain ⟨t₃, h₃, hplayed⟩ := Option.bind_eq_some_iff.mp hplayed
  obtain ⟨t₄, h₄, hplayed⟩ := Option.bind_eq_some_iff.mp hplayed
  obtain ⟨t, h₅, hplayed⟩ := Option.bind_eq_some_iff.mp hplayed
  obtain ⟨⟨t', out⟩, hstep, hpair⟩ := Option.map_eq_some_iff.mp hplayed
  have hhand : t.hand 0 = wrappedHand := congrArg Prod.fst hpair
  have hcenter : t'.getCenterPrice 0 = 0 := congrArg Prod.snd hpair
  obtain ⟨tr₁, h₁⟩ := run_playOnce h₁
  obtain ⟨tr₂, h₂⟩ := run_playOnce h₂
  obtain ⟨tr₃, h₃⟩ := run_playOnce h₃
  obtain ⟨tr₄, h₄⟩ := run_playOnce h₄
  obtain ⟨tr₅, h₅⟩ := run_playOnce h₅
  have hrun := Machine.run_append (Machine.run_append (Machine.run_append
    (Machine.run_append h₁ h₂) h₃) h₄) h₅
  refine ⟨t, _, t', out, hrun, hstep, ?_, hhand, hcenter, ?_⟩
  · unfold RoundEnds
    rw [hhand]
    decide
  · rintro ⟨c, ⟨hc, hbest⟩, hprice⟩
    rw [hhand] at hc hbest
    rw [hcenter] at hprice
    have hcard : ∀ c ∈ wrappedHand, 0 = c.price → c.earnings = .int (-2048) := by decide
    have := hbest ⟨2, 0, .discarded, 1, 1, 0, .int 0⟩ (by decide)
    rw [hcard c hc hprice, Value.rank_int_le] at this
    exact absurd this (by decide)

end FeeModderByPriceTheory
