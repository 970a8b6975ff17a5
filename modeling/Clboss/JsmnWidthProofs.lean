import Clboss.JsmnRunProofs
import Mathlib.Algebra.BigOperators.Group.List.Basic
import Mathlib.Algebra.Order.BigOperators.Group.List

/-! # `jsmn` — how large its numbers become

    The source counts in `int`s and `unsigned`s.  Whatever the parser counts is no
    more than the bytes it has read (`Widths`), so for a datum of less than `2 ^ 31`
    bytes no number of it wraps (`parse_init_lt`), and that is the bound under which
    the natural numbers of the model are those of the source. -/

namespace Jsmn

/-- No number of the parser and its tokens exceeds what was read. -/
structure Parser.Widths (p : Parser) : Prop where
  count   : p.tokens.length ≤ p.pos
  super   : ∀ k ∈ p.toksuper, k < p.tokens.length
  start   : ∀ t ∈ p.tokens, t.start ≤ p.pos
  stop    : ∀ t ∈ p.tokens, ∀ e ∈ t.stop, e ≤ p.pos
  parents : ∀ t ∈ p.tokens, ∀ k ∈ t.parent, k < p.tokens.length
  /-- A token is counted for its parent once. -/
  sizes   : (p.tokens.map Token.size).sum ≤ p.tokens.length

theorem Parser.widths_init : Parser.init.Widths :=
  ⟨Nat.le_refl _, nofun, nofun, nofun, nofun, Nat.le_refl _⟩

/-! ## What a round changes -/

theorem mem_modify {f : Token → Token} {k : ℕ} {ts : List Token} {t : Token}
    (h : t ∈ ts.modify k f) : t ∈ ts ∨ ∃ t' ∈ ts, t = f t' := by
  obtain ⟨i, hi⟩ := List.mem_iff_getElem?.mp h
  rw [List.getElem?_modify] at hi
  obtain ⟨t', ht', rfl⟩ := Option.map_eq_some_iff.mp hi
  have hmem := List.mem_of_getElem? ht'
  split
  · exact Or.inr ⟨t', hmem, rfl⟩
  · exact Or.inl hmem

/-- The two tokens stand at the same place. -/
def Token.Alike (t t' : Token) : Prop :=
  t.start = t'.start ∧ t.stop = t'.stop ∧ t.parent = t'.parent

theorem mem_bump {super : Option ℕ} {ts : List Token} {t : Token} (h : t ∈ bump super ts) :
    ∃ t' ∈ ts, t.Alike t' := by
  cases super with
  | none => exact ⟨t, h, rfl, rfl, rfl⟩
  | some k =>
      rcases mem_modify h with h | ⟨t', ht', rfl⟩
      · exact ⟨t, h, rfl, rfl, rfl⟩
      · exact ⟨t', ht', rfl, rfl, rfl⟩

theorem sum_size_bump (super : Option ℕ) (ts : List Token) :
    ((bump super ts).map Token.size).sum ≤ (ts.map Token.size).sum + 1 := by
  cases super with
  | none => exact Nat.le_succ _
  | some k =>
      show ((ts.modify k _).map Token.size).sum ≤ _
      induction ts generalizing k with
      | nil => simp
      | cons t ts ih =>
          cases k with
          | zero =>
              simp only [List.modify_zero_cons, List.map_cons, List.sum_cons]
              omega
          | succ k =>
              have := ih k
              simp only [List.modify_succ_cons, List.map_cons, List.sum_cons]
              omega

theorem sum_size_modify {f : Token → Token} (hf : ∀ t, (f t).size = t.size) (k : ℕ)
    (ts : List Token) : ((ts.modify k f).map Token.size) = ts.map Token.size := by
  refine List.ext_getElem? (fun i => ?_)
  rw [List.getElem?_map, List.getElem?_map, List.getElem?_modify]
  cases ts[i]? with
  | none => rfl
  | some t =>
      show some (if k = i then f t else t).size = some t.size
      split
      · rw [hf]
      · rfl

/-- A bracket that closes a token ends it here, and its parent is the superior token then. -/
theorem closeToken_cases {p p' : Parser} {type : TokenType} {fuel i : ℕ}
    (h : closeToken p type fuel i = .ok p') :
    p' = { p with pos := p.pos + 1 } ∨ ∃ k, ∃ t ∈ p.tokens, p' = { p with
      pos := p.pos + 1
      toksuper := t.parent
      tokens := p.tokens.modify k (fun t => { t with stop := some (p.pos + 1) }) } := by
  induction fuel generalizing i with
  | zero =>
      unfold closeToken at h
      cases h
  | succ fuel ih =>
      unfold closeToken at h
      cases ht : p.tokens[i]? with
      | none =>
          rw [ht] at h
          cases h
      | some t =>
          rw [ht] at h
          simp only at h
          split at h
          · split at h
            · cases h
              exact Or.inr ⟨i, t, List.mem_of_getElem? ht, rfl⟩
            · cases h
          · split at h
            · split at h
              · cases h
              · cases h
                exact Or.inl rfl
            · exact ih h

/-! ## The rounds -/

section Rounds

variable {p : Parser} (h : p.Widths)

include h

/-- The parser reads on; the superior token is another, if any. -/
theorem Parser.Widths.go {pos : ℕ} {super : Option ℕ} (hpos : p.pos ≤ pos)
    (hsuper : ∀ k ∈ super, k < p.tokens.length) :
    Parser.Widths { p with pos := pos, toksuper := super } where
  count   := h.count.trans hpos
  super   := hsuper
  start   := fun t ht => (h.start t ht).trans hpos
  stop    := fun t ht e he => (h.stop t ht e he).trans hpos
  parents := h.parents
  sizes   := h.sizes

/-- A token is made, and counted for the superior one. -/
theorem Parser.Widths.token {pos : ℕ} {super : Option ℕ} {ts : List Token} {t : Token}
    (hpos : p.pos < pos) (hmem : ∀ x ∈ ts, ∃ y, (y = t ∨ y ∈ p.tokens) ∧ x.Alike y)
    (hlen : ts.length = p.tokens.length + 1)
    (hsum : (ts.map Token.size).sum ≤ (p.tokens.map Token.size).sum + 1)
    (hsuper : ∀ k ∈ super, k < p.tokens.length + 1) (hstart : t.start ≤ pos)
    (hstop : ∀ e ∈ t.stop, e ≤ pos) (hparent : t.parent = p.toksuper) :
    Parser.Widths { pos := pos, toksuper := super, tokens := ts } := by
  have hcount := h.count
  have hsizes := h.sizes
  refine ⟨?_, ?_, fun x hx => ?_, fun x hx e he => ?_, fun x hx k hk => ?_, ?_⟩
  · show ts.length ≤ pos
    omega
  · intro k hk
    exact hlen ▸ hsuper k hk
  · obtain ⟨y, hy, heq, -⟩ := hmem x hx
    rw [heq]
    rcases hy with rfl | hold
    · exact hstart
    · exact (h.start y hold).trans hpos.le
  · obtain ⟨y, hy, -, heq, -⟩ := hmem x hx
    rw [heq] at he
    rcases hy with rfl | hold
    · exact hstop e he
    · exact (h.stop y hold e he).trans hpos.le
  · obtain ⟨y, hy, -, -, heq⟩ := hmem x hx
    rw [heq] at hk
    show k < ts.length
    rw [hlen]
    rcases hy with rfl | hold
    · exact Nat.lt_succ_of_lt (h.super k (hparent ▸ hk))
    · exact Nat.lt_succ_of_lt (h.parents y hold k hk)
  · show (ts.map Token.size).sum ≤ ts.length
    omega

/-- It is counted before it is put in the list, or after. -/
theorem Parser.Widths.open {pos : ℕ} {t : Token} (hpos : p.pos < pos) (hsize : t.size = 0)
    (hstart : t.start ≤ pos) (hstop : ∀ e ∈ t.stop, e ≤ pos) (hparent : t.parent = p.toksuper) :
    Parser.Widths {
      pos := pos
      toksuper := some p.tokens.length
      tokens := bump p.toksuper p.tokens ++ [t] } := by
  have hbump := sum_size_bump p.toksuper p.tokens
  refine h.token hpos (fun x hx => ?_) (by simp) ?_ (fun k hk => ?_) hstart hstop hparent
  · rcases List.mem_append.mp hx with hx | hx
    · obtain ⟨y, hy, halike⟩ := mem_bump hx
      exact ⟨y, Or.inr hy, halike⟩
    · exact ⟨x, Or.inl (List.mem_singleton.mp hx), rfl, rfl, rfl⟩
  · rw [List.map_append, List.sum_append, List.map_singleton, List.sum_singleton, hsize]
    omega
  · cases hk
    exact Nat.lt_succ_self _

theorem Parser.Widths.whole {pos : ℕ} {t : Token} (hpos : p.pos < pos) (hsize : t.size = 0)
    (hstart : t.start ≤ pos) (hstop : ∀ e ∈ t.stop, e ≤ pos) (hparent : t.parent = p.toksuper) :
    Parser.Widths { p with pos := pos, tokens := bump p.toksuper (p.tokens ++ [t]) } := by
  have hbump := sum_size_bump p.toksuper (p.tokens ++ [t])
  rw [List.map_append, List.sum_append, List.map_singleton, List.sum_singleton, hsize] at hbump
  refine h.token hpos (fun x hx => ?_) (by simp) hbump
    (fun k hk => Nat.lt_succ_of_lt (h.super k hk)) hstart hstop hparent
  obtain ⟨y, hy, halike⟩ := mem_bump hx
  refine ⟨y, ?_, halike⟩
  rcases List.mem_append.mp hy with hold | hnew
  · exact Or.inr hold
  · exact Or.inl (List.mem_singleton.mp hnew)

theorem Parser.Widths.close {p' : Parser} {type : TokenType} {fuel i : ℕ}
    (hclose : closeToken p type fuel i = .ok p') : p'.Widths := by
  rcases closeToken_cases hclose with rfl | ⟨k, t, ht, rfl⟩
  · exact h.go (Nat.le_succ _) h.super
  · have hlen := List.length_modify (fun t => { t with stop := some (p.pos + 1) }) p.tokens k
    refine ⟨?_, ?_, fun x hx => ?_, fun x hx e he => ?_, fun x hx j hj => ?_, ?_⟩
    · exact hlen ▸ h.count.trans (Nat.le_succ _)
    · intro j hj
      exact hlen ▸ h.parents t ht j hj
    · rcases mem_modify hx with hx | ⟨y, hy, rfl⟩
      · exact (h.start x hx).trans (Nat.le_succ _)
      · exact (h.start y hy).trans (Nat.le_succ _)
    · rcases mem_modify hx with hx | ⟨y, hy, rfl⟩
      · exact (h.stop x hx e he).trans (Nat.le_succ _)
      · exact (Option.some.inj he).ge
    · rcases mem_modify hx with hx | ⟨y, hy, rfl⟩
      · exact hlen ▸ h.parents x hx j hj
      · exact hlen ▸ h.parents y hy j hj
    · show ((p.tokens.modify k _).map Token.size).sum ≤ (p.tokens.modify k _).length
      rw [sum_size_modify (f := fun t => { t with stop := some (p.pos + 1) }) (fun _ => rfl),
        List.length_modify]
      exact h.sizes

end Rounds

/-- **STEP**: a round keeps the numbers below what was read. -/
theorem Parser.Widths.step {room : Bool} {js : List UInt8} {p p' : Parser} {c : UInt8}
    (h : p.Widths) (hc : js[p.pos]? = some c) (hs : p.step room js c = .ok p') : p'.Widths := by
  obtain ⟨hlt, -, -⟩ := step_bounds hc hs
  unfold Parser.step at hs
  cases hsym : symbol c with
  | opening type =>
      rw [hsym] at hs
      simp only at hs
      split_ifs at hs
      cases hs
      exact h.open hlt rfl hlt.le nofun rfl
  | closing type =>
      rw [hsym] at hs
      simp only at hs
      split_ifs at hs
      exact h.close hs
  | quote =>
      rw [hsym] at hs
      simp only at hs
      split at hs
      · exact nomatch hs
      · split_ifs at hs
        cases hs
        refine h.whole hlt rfl (by dsimp only; omega) (fun e he => ?_) rfl
        cases he
        omega
  | blank =>
      rw [hsym] at hs
      cases hs
      exact h.go (Nat.le_succ _) h.super
  | colon =>
      rw [hsym] at hs
      cases hs
-- the last token becomes the superior one
      refine h.go (Nat.le_succ _) (fun k hk => ?_)
      split at hk
      · cases hk
      · rename_i hne
        cases hk
        exact Nat.sub_one_lt (List.length_pos_iff.mpr hne).ne'
  | comma =>
      rw [hsym] at hs
      cases hs
-- the superior token stays, or becomes its parent
      refine h.go (Nat.le_succ _) (fun k hk => ?_)
      split at hk
      · exact h.super k hk
      · rename_i t ht
        split at hk
        · exact h.super k hk
        · obtain ⟨i, -, hi⟩ := Option.bind_eq_some_iff.mp ht
          exact h.parents t (List.mem_of_getElem? hi) k hk
  | primitive =>
      rw [hsym] at hs
      simp only at hs
      by_cases hrefuse : p.refusesPrimitive
      · rw [if_pos hrefuse] at hs
        exact nomatch hs
      rw [if_neg hrefuse] at hs
      split at hs
      · exact nomatch hs
      · split_ifs at hs
        cases hs
        refine h.whole hlt rfl hlt.le (fun e he => ?_) rfl
        cases he
        exact Nat.le_refl _
  | unexpected =>
      rw [hsym] at hs
      exact nomatch hs

/-! ## Runs -/

/-- **RUN**: so does a call of the parser, whatever tokens it has. -/
theorem Parser.Widths.loop {room : Parser → Bool} {js : List UInt8} {fuel : ℕ} {p : Parser}
    (h : p.Widths) (hw : p.Within js) :
    (p.loop room js fuel).2.Widths ∧ (p.loop room js fuel).2.Within js := by
  induction fuel generalizing p with
  | zero => exact ⟨h, hw⟩
  | succ fuel ih =>
      unfold Parser.loop
      cases hc : js[p.pos]? with
      | none => exact ⟨h, hw⟩
      | some c =>
          simp only
          split
          · exact ⟨h, hw⟩
          · cases hs : p.step (room p) js c with
            | error e => exact ⟨h, hw⟩
            | ok p' => exact ih (h.step hc hs) (step_within hw hc hs)

/-- The numbers of a token. -/
structure Token.Lt (n : ℕ) (t : Token) : Prop where
  start  : t.start < n
  size   : t.size < n
  stop   : ∀ e ∈ t.stop, e < n
  parent : ∀ k ∈ t.parent, k < n

/-- **WIDTHS**: for a datum of less than `n` bytes a call of `jsmn_parse`, the first or a
    later one, reaches no number from `n` on. -/
theorem parse_lt {n numTokens : ℕ} {js : List UInt8} {p : Parser} (h : p.Widths)
    (hw : p.Within js) (hjs : js.length < n) :
    let q := (p.parse numTokens js).2
    q.pos < n ∧ q.tokens.length < n ∧ ∀ t ∈ q.tokens, t.Lt n := by
  intro q
  obtain ⟨hq, hin⟩ : q.Widths ∧ q.Within js := h.loop hw
  have hpos : q.pos < n := hin.pos_le.trans_lt hjs
  have hlen : q.tokens.length < n := hq.count.trans_lt hpos
  refine ⟨hpos, hlen, fun t ht => ⟨?_, ?_, fun e he => ?_, fun k hk => ?_⟩⟩
  · exact (hq.start t ht).trans_lt hpos
  · have hle := List.single_le_sum (l := q.tokens.map Token.size) (fun _ _ => Nat.zero_le _) t.size
      (List.mem_map_of_mem ht)
    exact (hle.trans hq.sizes).trans_lt hlen
  · exact (hq.stop t ht e he).trans_lt hpos
  · exact (hq.parents t ht k hk).trans hlen

/-- And from the start at most what an `int` can be. -/
theorem parse_init_lt {numTokens : ℕ} {js : List UInt8} (hjs : js.length < 2 ^ 31) :
    let q := (Parser.init.parse numTokens js).2
    q.pos < 2 ^ 31 ∧ q.tokens.length < 2 ^ 31 ∧ ∀ t ∈ q.tokens, t.Lt (2 ^ 31) :=
  parse_lt Parser.widths_init (Parser.within_init js) hjs

/-- A byte opens one bracket at most. -/
theorem feed_nested_le (d : DatumIdentifier) (c : UInt8) : (d.feed c).1.nested ≤ d.nested + 1 := by
  unfold DatumIdentifier.feed DatumIdentifier.finishIfOutermost
  split_ifs <;> dsimp only <;> omega

end Jsmn
