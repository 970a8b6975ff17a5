import Clboss.JsmnProofs

/-! # `jsmn_parse` — running out of tokens does not show

    `try_parse` starts `jsmn_parse` with a few tokens and starts it again, with
    more, whenever they run out.  The parser stops BEFORE the construct it has
    no token for and goes on from there, so what comes out in the end is what
    one run with enough tokens gives (`tokenize_eq`).

    A round of the loop reads at least one character, and a run that ends
    without an error has read up to the end or up to a NUL. -/

namespace Jsmn

/-! ## One round -/

theorem except_map_ok {α β ε : Type} {f : α → β} {x : Except ε α} {b : β}
    (h : x.map f = .ok b) : ∃ a, x = .ok a ∧ f a = b := by
  cases x with
  | error e => exact nomatch h
  | ok a => exact ⟨a, rfl, Except.ok.inj h⟩

theorem except_map_error {α β ε : Type} {f : α → β} {x : Except ε α} {e : ε}
    (h : x.map f = .error e) : x = .error e := by
  cases x with
  | error e' =>
      cases h
      rfl
  | ok a => exact nomatch h

/-- A primitive that is found ends before the text does. -/
theorem scanPrimitive_lt {cs : List UInt8} {n : Nat} (h : scanPrimitive cs = .ok n) :
    n < cs.length := by
  induction cs generalizing n with
  | nil => exact nomatch h
  | cons c cs ih =>
      unfold scanPrimitive at h
      split_ifs at h with h₀ hd hr
      · cases h
        exact Nat.succ_pos _
      · obtain ⟨k, hk, rfl⟩ := except_map_ok h
        have := ih hk
        simp only [List.length_cons]
        omega

/-- A primitive is at least its first character. -/
theorem scanPrimitive_pos {c : UInt8} {cs : List UInt8} {n : Nat} (hd : isDelimiter c = false)
    (h : scanPrimitive (c :: cs) = .ok n) : 0 < n := by
  unfold scanPrimitive at h
  split_ifs at h with h₀ hd' hr
  · rw [hd] at hd'
    exact nomatch hd'
  · obtain ⟨k, -, rfl⟩ := except_map_ok h
    exact Nat.succ_pos _

/-- So does a string. -/
theorem scanString_lt {hex : Nat} {cs : List UInt8} {n : Nat} (h : scanString hex cs = .ok n) :
    n < cs.length := by
  fun_induction scanString hex cs generalizing n
  case case3 ih | case9 ih | case10 ih | case12 ih =>
    obtain ⟨k, hk, rfl⟩ := except_map_ok h
    have := ih hk
    simp only [List.length_cons] at this ⊢
    omega
  case case5 | case8 =>
    cases h
    exact Nat.succ_pos _
  all_goals exact nomatch h

/-- A primitive may be cut off, or wrong. -/
theorem scanPrimitive_error {cs : List UInt8} {e : Status} (h : scanPrimitive cs = .error e) :
    e = .part ∨ e = .inval := by
  induction cs with
  | nil =>
      cases h
      exact .inl rfl
  | cons c cs ih =>
      unfold scanPrimitive at h
      split_ifs at h with h₀ hd hr
      · cases h
        exact .inl rfl
      · cases h
        exact .inr rfl
      · exact ih (except_map_error h)

/-- A string likewise. -/
theorem scanString_error {hex : Nat} {cs : List UInt8} {e : Status}
    (h : scanString hex cs = .error e) : e = .part ∨ e = .inval := by
  fun_induction scanString hex cs
  case case3 ih | case9 ih | case10 ih | case12 ih => exact ih (except_map_error h)
  case case5 | case8 => exact nomatch h
  all_goals
    cases h
    simp

/-- What begins a primitive does not end one. -/
theorem isDelimiter_of_primitive {c : UInt8} (h : symbol c = .primitive) :
    isDelimiter c = false := by
  unfold symbol at h
  split_ifs at h with h₁ h₂ h₃ h₄ h₅ h₆ h₇ h₈ h₉
  simp [isDelimiter, h₃, h₄, h₆, h₈]

/-- A closing bracket is one byte, and makes no token. -/
theorem closeToken_pos {p p' : Parser} {type : TokenType} {fuel i : Nat}
    (h : closeToken p type fuel i = .ok p') :
    p'.pos = p.pos + 1 ∧ p'.tokens.length = p.tokens.length := by
  induction fuel generalizing i with
  | zero => exact nomatch h
  | succ fuel ih =>
      unfold closeToken at h
      cases ht : p.tokens[i]? with
      | none =>
          rw [ht] at h
          exact nomatch h
      | some t =>
          rw [ht] at h
          simp only at h
          split at h
          · split at h
            · cases h
              exact ⟨rfl, List.length_modify _ _ _⟩
            · exact nomatch h
          · split at h
            · split at h
              · exact nomatch h
              · cases h
                exact ⟨rfl, rfl⟩
            · exact ih h

/-- A bracket that closes nothing is an error. -/
theorem closeToken_error {p : Parser} {type : TokenType} {fuel i : Nat} {e : Status}
    (h : closeToken p type fuel i = .error e) : e = .inval := by
  induction fuel generalizing i with
  | zero =>
      cases h
      rfl
  | succ fuel ih =>
      unfold closeToken at h
      cases ht : p.tokens[i]? with
      | none =>
          rw [ht] at h
          cases h
          rfl
      | some t =>
          rw [ht] at h
          simp only at h
          split at h
          · split at h
            · exact nomatch h
            · cases h
              rfl
          · split at h
            · split at h
              · cases h
                rfl
              · exact nomatch h
            · exact ih h

@[simp]
theorem length_bump (k : Option Nat) (tokens : List Token) :
    (bump k tokens).length = tokens.length := by
  cases k with
  | none => rfl
  | some k => exact List.length_modify _ _ _

/-- **STEP**: a round reads at least a character, stays within the text and
    makes at most one token. -/
theorem step_bounds {room : Bool} {js : List UInt8} {p p' : Parser} {c : UInt8}
    (hc : js[p.pos]? = some c) (h : p.step room js c = .ok p') :
    p.pos < p'.pos ∧ p'.pos ≤ js.length ∧ p'.tokens.length ≤ p.tokens.length + 1 := by
  obtain ⟨hlt, hget⟩ := List.getElem?_eq_some_iff.mp hc
  have hdrop : js.drop p.pos = c :: js.drop (p.pos + 1) := by
    rw [List.drop_eq_getElem_cons hlt, hget]
  unfold Parser.step at h
  cases hs : symbol c with
  | opening type =>
      rw [hs] at h
      simp only at h
      split_ifs at h
      cases h
      refine ⟨Nat.lt_succ_self _, hlt, ?_⟩
      simp
  | closing type =>
      rw [hs] at h
      simp only at h
      split_ifs at h
      obtain ⟨hpos, hlen⟩ := closeToken_pos h
      omega
  | quote =>
      rw [hs] at h
      simp only at h
      cases hscan : scanString 0 (js.drop (p.pos + 1)) with
      | error e =>
          rw [hscan] at h
          exact nomatch h
      | ok n =>
          rw [hscan] at h
          simp only at h
          split_ifs at h
          cases h
          have hn := scanString_lt hscan
          rw [List.length_drop] at hn
          refine ⟨by dsimp only; omega, by dsimp only; omega, ?_⟩
          simp
  | blank =>
      rw [hs] at h
      cases h
      exact ⟨Nat.lt_succ_self _, hlt, Nat.le_succ _⟩
  | colon =>
      rw [hs] at h
      cases h
      exact ⟨Nat.lt_succ_self _, hlt, Nat.le_succ _⟩
  | comma =>
      rw [hs] at h
      cases h
      exact ⟨Nat.lt_succ_self _, hlt, Nat.le_succ _⟩
  | primitive =>
      rw [hs] at h
      simp only at h
      by_cases hk : p.refusesPrimitive
      · rw [if_pos hk] at h
        exact nomatch h
      rw [if_neg hk] at h
      cases hscan : scanPrimitive (js.drop p.pos) with
      | error e =>
          rw [hscan] at h
          exact nomatch h
      | ok n =>
          rw [hscan] at h
          simp only at h
          split_ifs at h
          cases h
          have hn := scanPrimitive_lt hscan
          rw [hdrop] at hscan
          have hpos := scanPrimitive_pos (isDelimiter_of_primitive hs) hscan
          rw [List.length_drop] at hn
          refine ⟨by dsimp only; omega, by dsimp only; omega, ?_⟩
          simp
  | unexpected =>
      rw [hs] at h
      exact nomatch h

/-- Only the lack of a token makes a difference, and it stops the parser. -/
theorem step_room (js : List UInt8) (p : Parser) (c : UInt8) :
    p.step false js c = .error .nomem ∨ p.step false js c = p.step true js c := by
  unfold Parser.step
  cases symbol c with
  | opening type => exact .inl rfl
  | quote =>
      simp only
      cases scanString 0 (js.drop (p.pos + 1)) with
      | error e => exact .inr rfl
      | ok n => exact .inl rfl
  | primitive =>
      simp only
      by_cases hk : p.refusesPrimitive
      · rw [if_pos hk, if_pos hk]
        exact .inr rfl
      · rw [if_neg hk, if_neg hk]
        cases scanPrimitive (js.drop p.pos) with
        | error e => exact .inr rfl
        | ok n => exact .inl rfl
  | _ => exact .inr rfl

/-- With room the parser does not ask for more. -/
theorem step_true_error {js : List UInt8} {p : Parser} {c : UInt8} {e : Status}
    (h : p.step true js c = .error e) : e = .part ∨ e = .inval := by
  unfold Parser.step at h
  cases hs : symbol c with
  | opening type =>
      rw [hs] at h
      simp only [Bool.true_eq_false, if_false] at h
      split_ifs at h
      cases h
      exact .inr rfl
  | closing type =>
      rw [hs] at h
      simp only at h
      split_ifs at h
      · cases h
        exact .inr rfl
      · exact .inr (closeToken_error h)
  | quote =>
      rw [hs] at h
      simp only at h
      cases hscan : scanString 0 (js.drop (p.pos + 1)) with
      | error e' =>
          rw [hscan] at h
          cases h
          exact scanString_error hscan
      | ok n =>
          rw [hscan] at h
          exact nomatch h
  | primitive =>
      rw [hs] at h
      simp only at h
      by_cases hk : p.refusesPrimitive
      · rw [if_pos hk] at h
        cases h
        exact .inr rfl
      · rw [if_neg hk] at h
        cases hscan : scanPrimitive (js.drop p.pos) with
        | error e' =>
            rw [hscan] at h
            cases h
            exact scanPrimitive_error hscan
        | ok n =>
            rw [hscan] at h
            exact nomatch h
  | unexpected =>
      rw [hs] at h
      cases h
      exact .inr rfl
  | _ =>
      rw [hs] at h
      exact nomatch h

/-- With room for it a token is made. -/
theorem step_true_ne_nomem {js : List UInt8} {p : Parser} {c : UInt8} {e : Status}
    (h : p.step true js c = .error e) : e ≠ .nomem := by
  rcases step_true_error h with rfl | rfl <;> exact Status.noConfusion

/-! ## Whole runs -/

/-- `jsmn_parse` with as many tokens as it wants. -/
def Parser.run (js : List UInt8) (p : Parser) : Status × Parser :=
  p.loop (fun _ => true) js (js.length - p.pos)

/-- More fuel than characters changes nothing. -/
theorem loop_fuel {room : Parser → Bool} {js : List UInt8} {fuel fuel' : Nat} {p : Parser}
    (h : js.length - p.pos ≤ fuel) (h' : js.length - p.pos ≤ fuel') :
    p.loop room js fuel = p.loop room js fuel' := by
  induction fuel generalizing fuel' p with
  | zero =>
      have hnone : js[p.pos]? = none := List.getElem?_eq_none (by omega)
      cases fuel' with
      | zero => rfl
      | succ fuel' => simp only [Parser.loop, hnone]
  | succ fuel ih =>
      cases fuel' with
      | zero =>
          have hnone : js[p.pos]? = none := List.getElem?_eq_none (by omega)
          simp only [Parser.loop, hnone]
      | succ fuel' =>
          unfold Parser.loop
          cases hc : js[p.pos]? with
          | none => rfl
          | some c =>
              simp only
              split
              · rfl
              cases hs : p.step (room p) js c with
              | error e => rfl
              | ok p' =>
                  have := (step_bounds hc hs).1
                  exact ih (by omega) (by omega)

/-- A run with a round taken off. -/
theorem run_step {js : List UInt8} {p p' : Parser} {c : UInt8} (hc : js[p.pos]? = some c)
    (h₀ : c ≠ 0) (hs : p.step true js c = .ok p') : p.run js = p'.run js := by
  obtain ⟨hlt, -⟩ := List.getElem?_eq_some_iff.mp hc
  obtain ⟨hpos, -, -⟩ := step_bounds hc hs
  unfold Parser.run
  obtain ⟨k, hk⟩ : ∃ k, js.length - p.pos = k + 1 := ⟨js.length - p.pos - 1, by omega⟩
  rw [hk]
  simp only [Parser.loop, hc, h₀, if_false, hs]
  exact loop_fuel (by omega) (Nat.le_refl _)

/-- The end of a run at a parser that goes no further. -/
theorem run_error {js : List UInt8} {p : Parser} {c : UInt8} {e : Status}
    (hc : js[p.pos]? = some c) (h₀ : c ≠ 0) (hs : p.step true js c = .error e) :
    p.run js = (e, p) := by
  obtain ⟨hlt, -⟩ := List.getElem?_eq_some_iff.mp hc
  unfold Parser.run
  obtain ⟨k, hk⟩ : ∃ k, js.length - p.pos = k + 1 := ⟨js.length - p.pos - 1, by omega⟩
  rw [hk]
  simp only [Parser.loop, hc, h₀, if_false, hs]

/-- A run ends at the end of the text or at a NUL. -/
theorem run_end {js : List UInt8} {p : Parser} (hc : ∀ c, js[p.pos]? = some c → c = 0) :
    p.run js = (p.status, p) := by
  unfold Parser.run
  cases js.length - p.pos with
  | zero => rfl
  | succ k =>
      unfold Parser.loop
      cases h : js[p.pos]? with
      | none => rfl
      | some c => simp only [hc c h, if_true]

/-- A parser within its text, with no more tokens than it has read characters. -/
structure Parser.Within (p : Parser) (js : List UInt8) : Prop where
  pos_le    : p.pos ≤ js.length
  tokens_le : p.tokens.length ≤ p.pos

theorem Parser.within_init (js : List UInt8) : Parser.init.Within js :=
  ⟨Nat.zero_le _, Nat.le_refl _⟩

/-- A round stays within the text. -/
theorem step_within {room : Bool} {js : List UInt8} {p p' : Parser} {c : UInt8}
    (hw : p.Within js) (hc : js[p.pos]? = some c) (h : p.step room js c = .ok p') :
    p'.Within js := by
  obtain ⟨h₁, h₂, h₃⟩ := step_bounds hc h
  have := hw.tokens_le
  exact ⟨h₂, by omega⟩

/-- **RUN**: with `num` tokens the parser gives what it gives with any number,
    or stops for want of a token at a point from which it can go on. -/
theorem loop_bounded (num : Nat) {js : List UInt8} {fuel : Nat} {p : Parser}
    (hw : p.Within js) (hf : js.length - p.pos ≤ fuel) :
    let r := p.loop (fun p => p.tokens.length < num) js fuel
    r.2.Within js ∧ (r.1 = .nomem ∧ num ≤ r.2.tokens.length ∧ p.run js = r.2.run js
      ∨ r.1 ≠ .nomem ∧ p.run js = r) := by
  have hstatus : p.status ≠ .nomem := by
    unfold Parser.status
    split <;> exact Status.noConfusion
  induction fuel generalizing p with
  | zero =>
      refine ⟨hw, .inr ⟨hstatus, run_end ?_⟩⟩
      intro c hc
      obtain ⟨hlt, -⟩ := List.getElem?_eq_some_iff.mp hc
      omega
  | succ fuel ih =>
      unfold Parser.loop
      cases hc : js[p.pos]? with
      | none =>
          refine ⟨hw, .inr ⟨hstatus, run_end ?_⟩⟩
          intro c hc'
          rw [hc] at hc'
          exact nomatch hc'
      | some c =>
          simp only
          by_cases h₀ : c = 0
          · rw [if_pos h₀]
            refine ⟨hw, .inr ⟨hstatus, run_end ?_⟩⟩
            intro c' hc'
            rw [hc] at hc'
            cases hc'
            exact h₀
          · rw [if_neg h₀]
            cases hs : p.step (decide (p.tokens.length < num)) js c with
            | error e =>
                by_cases hroom : p.tokens.length < num
                · rw [decide_eq_true hroom] at hs
                  exact ⟨hw, .inr ⟨step_true_ne_nomem hs, run_error hc h₀ hs⟩⟩
                · rw [decide_eq_false hroom] at hs
                  rcases step_room js p c with hno | hsame
                  · rw [hs] at hno
                    cases hno
                    exact ⟨hw, .inl ⟨rfl, Nat.not_lt.mp hroom, rfl⟩⟩
                  · rw [hs] at hsame
                    exact ⟨hw, .inr ⟨step_true_ne_nomem hsame.symm, run_error hc h₀ hsame.symm⟩⟩
            | ok p' =>
                -- the same round as with room for every token
                have htrue : p.step true js c = .ok p' := by
                  by_cases hroom : p.tokens.length < num
                  · rwa [decide_eq_true hroom] at hs
                  · rw [decide_eq_false hroom] at hs
                    rcases step_room js p c with hno | hsame
                    · rw [hs] at hno
                      exact nomatch hno
                    · rw [← hsame, hs]
                have hpos := (step_bounds hc hs).1
                rw [run_step hc h₀ htrue]
                refine ih (step_within hw hc hs) (by omega) ?_
                unfold Parser.status
                split <;> exact Status.noConfusion

/-- With room for every token the parser lacks none. -/
theorem run_ne_nomem {js : List UInt8} {p : Parser} (hw : p.Within js) :
    (p.run js).1 ≠ .nomem := by
  obtain ⟨hq, ⟨-, hnum, -⟩ | ⟨hne, hrun⟩⟩ := loop_bounded (js.length + 1) hw (Nat.le_refl _)
  · have := hq.pos_le
    have := hq.tokens_le
    omega
  · rw [hrun]
    exact hne

/-- One attempt: it succeeds, or leaves a parser that goes on with more tokens. -/
theorem tokenize_succ {s : Impl} (fuel : Nat) (hw : s.base.Within s.region) :
    (∃ q, s.tokenize (fuel + 1)
        = Impl.tokenize fuel { s with base := q, numTokens := s.numTokens * 2 + 1 }
      ∧ q.Within s.region ∧ s.numTokens ≤ q.tokens.length ∧ s.base.run s.region = q.run s.region)
    ∨ s.tokenize (fuel + 1)
      = ((s.base.run s.region).1, { s with base := (s.base.run s.region).2 }) := by
  have hb := loop_bounded s.numTokens hw (Nat.le_refl _)
  rw [Impl.tokenize, Parser.parse]
  generalize s.base.loop (fun p => p.tokens.length < s.numTokens) s.region
    (s.region.length - s.base.pos) = r at *
  obtain ⟨st, q⟩ := r
  obtain ⟨hq, ⟨hst, hnum, hrun⟩ | ⟨hne, hrun⟩⟩ := hb
  · cases hst
    exact .inl ⟨q, rfl, hq, hnum, hrun⟩
  · rw [hrun]
    cases st with
    | nomem => exact absurd rfl hne
    | _ => exact .inr rfl

/-- **RUN**: `try_parse` never lacks tokens in the end. -/
theorem tokenize_eq {s : Impl} {fuel : Nat} (hw : s.base.Within s.region)
    (hf : s.region.length + 1 ≤ fuel + s.numTokens) :
    ∃ num, s.tokenize (fuel + 1)
      = ((s.base.run s.region).1,
        { s with base := (s.base.run s.region).2, numTokens := num }) := by
  induction fuel generalizing s with
  | zero =>
      rcases tokenize_succ 0 hw with ⟨q, -, hq, hnum, -⟩ | heq
      · have := hq.pos_le
        have := hq.tokens_le
        omega
      · exact ⟨s.numTokens, heq⟩
  | succ fuel ih =>
      rcases tokenize_succ (fuel + 1) hw with ⟨q, heq, hq, hnum, hrun⟩ | heq
      · rw [heq, hrun]
        exact ih (s := { s with base := q, numTokens := s.numTokens * 2 + 1 }) hq
          (by show s.region.length + 1 ≤ fuel + (s.numTokens * 2 + 1); omega)
      · exact ⟨s.numTokens, heq⟩

theorem status_count {p : Parser} {n : Nat} (h : p.status = .count n) : n = p.tokens.length := by
  unfold Parser.status at h
  split at h
  · exact nomatch h
  · cases h
    rfl

/-- Rounds that end in a count have come to such an end. -/
theorem loop_stops {js : List UInt8} {fuel n : Nat} {p q : Parser} (hw : p.Within js)
    (hf : js.length - p.pos ≤ fuel) (h : p.loop (fun _ => true) js fuel = (.count n, q)) :
    q.Within js ∧ n = q.tokens.length ∧ ∀ c, js[q.pos]? = some c → c = 0 := by
  induction fuel generalizing p with
  | zero =>
      obtain ⟨hst, rfl⟩ := Prod.mk.inj h
      refine ⟨hw, status_count hst, ?_⟩
      intro c hc
      obtain ⟨hlt, -⟩ := List.getElem?_eq_some_iff.mp hc
      omega
  | succ fuel ih =>
      unfold Parser.loop at h
      cases hc : js[p.pos]? with
      | none =>
          rw [hc] at h
          obtain ⟨hst, rfl⟩ := Prod.mk.inj h
          refine ⟨hw, status_count hst, ?_⟩
          intro c hc'
          rw [hc] at hc'
          exact nomatch hc'
      | some c =>
          rw [hc] at h
          simp only at h
          by_cases h₀ : c = 0
          · rw [if_pos h₀] at h
            obtain ⟨hst, rfl⟩ := Prod.mk.inj h
            refine ⟨hw, status_count hst, ?_⟩
            intro c' hc'
            rw [hc] at hc'
            cases hc'
            exact h₀
          · rw [if_neg h₀] at h
            cases hs : p.step true js c with
            | error e =>
                rw [hs] at h
                obtain ⟨he, rfl⟩ := Prod.mk.inj h
                cases he
                rcases step_true_error hs with he | he <;> exact nomatch he
            | ok p' =>
                rw [hs] at h
                have hpos := (step_bounds hc hs).1
                exact ih (step_within hw hc hs) (by omega) h

/-- Where a run ends without an error: at the end of the text or at a NUL. -/
theorem run_stops {js : List UInt8} {p q : Parser} {n : Nat} (hw : p.Within js)
    (h : p.run js = (.count n, q)) :
    q.Within js ∧ n = q.tokens.length ∧ ∀ c, js[q.pos]? = some c → c = 0 :=
  loop_stops hw (Nat.le_refl _) h

end Jsmn
