import Clboss.JsmnProofs
import Clboss.JsonProofs

/-! # `DatumIdentifier` — where a JSON value ends

    Inside brackets no datum ends: whatever the nesting, the text of a value
    leaves the automaton as it found it (`quiet_value`, by induction over the
    tree).  At the outermost level the automaton speaks up at the last byte of
    a string, an array or an object, and at the first byte AFTER a primitive. -/

namespace Jsmn

open Json

/-! ## Quiet stretches -/

/-- No datum ends in `cs`, which takes the automaton from `d` to `d'`. -/
def Quiet (d : DatumIdentifier) (cs : List UInt8) (d' : DatumIdentifier) : Prop :=
  feedUntil d cs = (d', none)

theorem Quiet.nil (d : DatumIdentifier) : Quiet d [] d := rfl

/-- A byte that ends a datum is the last one fed. -/
theorem feedUntil_cons (d : DatumIdentifier) (c : UInt8) (cs : List UInt8) :
    feedUntil d (c :: cs) = if (d.feed c).2 then ((d.feed c).1, some 1)
      else ((feedUntil (d.feed c).1 cs).1, (feedUntil (d.feed c).1 cs).2.map (· + 1)) := rfl

/-- No datum ends at the byte, nor after it. -/
theorem Quiet.cons {d d' d'' : DatumIdentifier} {c : UInt8} {cs : List UInt8}
    (h : d.feed c = (d', false)) (hs : Quiet d' cs d'') : Quiet d (c :: cs) d'' := by
  unfold Quiet at *
  rw [feedUntil_cons, h, if_neg Bool.false_ne_true, hs]
  rfl

/-- Where no datum ends the feeding goes on. -/
theorem feedUntil_of_quiet {d d' : DatumIdentifier} {cs cs' : List UInt8} (h : Quiet d cs d') :
    feedUntil d (cs ++ cs')
      = ((feedUntil d' cs').1, (feedUntil d' cs').2.map (· + cs.length)) := by
  induction cs generalizing d with
  | nil =>
      cases h
      simp
  | cons c cs ih =>
      unfold Quiet at h
      rw [feedUntil_cons] at h
      split at h
      · exact nomatch h
      · rename_i hf
        obtain ⟨hd, hn⟩ := Prod.mk.inj h
        have htail : Quiet (d.feed c).1 cs d' := Prod.ext hd (Option.map_eq_none_iff.mp hn)
        rw [List.cons_append, feedUntil_cons, if_neg hf, ih htail]
        cases (feedUntil d' cs').2 with
        | none => rfl
        | some n =>
            simp only [Option.map_some, List.length_cons]
            rw [Nat.add_assoc]

/-- A datum ends with the byte after a quiet stretch. -/
theorem feedUntil_end {d d' d'' : DatumIdentifier} {cs : List UInt8} {c : UInt8}
    (h : Quiet d cs d') (hc : d'.feed c = (d'', true)) (rest : List UInt8) :
    feedUntil d (cs ++ c :: rest) = (d'', some (cs.length + 1)) := by
  rw [feedUntil_of_quiet h, feedUntil_cons, hc, if_pos rfl]
  simp only [Option.map_some]
  rw [Nat.add_comm]

theorem Quiet.append {d d' d'' : DatumIdentifier} {cs cs' : List UInt8} (h : Quiet d cs d')
    (h' : Quiet d' cs' d'') : Quiet d (cs ++ cs') d'' := by
  unfold Quiet at h' ⊢
  rw [feedUntil_of_quiet h, h']
  rfl

/-- A stretch of characters that change nothing. -/
theorem Quiet.all {d : DatumIdentifier} {cs : List UInt8}
    (h : ∀ c ∈ cs, d.feed c = (d, false)) : Quiet d cs d := by
  induction cs with
  | nil => exact .nil d
  | cons c cs ih =>
      exact .cons (h c List.mem_cons_self) (ih (fun c' hc' => h c' (List.mem_cons_of_mem _ hc')))

/-! ## The states -/

/-- Between two data. -/
def idle : DatumIdentifier := .init

/-- Inside a primitive or `n` brackets. -/
def inside (n : Nat) : DatumIdentifier := ⟨n, false, false, false⟩

/-- Inside a string, within `n` brackets. -/
def inText (n : Nat) : DatumIdentifier := ⟨n, true, false, false⟩

/-- A byte of a primitive is inside of a datum. -/
theorem feed_prim {n : Nat} {b : Bool} {c : UInt8} (h : c ∈ primBytes) :
    DatumIdentifier.feed ⟨n, false, false, b⟩ c = (inside n, false) := by
  have hprim : ∀ c ∈ primBytes, c ≠ '"'.toUInt8 ∧ ¬(c = '\x7b'.toUInt8 ∨ c = '['.toUInt8)
      ∧ ¬(c = '\x7d'.toUInt8 ∨ c = ']'.toUInt8) ∧ DatumIdentifier.isSpace c = false :=
    forall_mem_of_all (by decide)
  obtain ⟨h₁, h₂, h₃, h₄⟩ := hprim c h
  simp [DatumIdentifier.feed, h₁, h₂, h₃, h₄, inside]

/-- Whitespace ends a datum that is not finished and not nested. -/
theorem feed_ws {c : UInt8} (h : c ∈ wsBytes) (d : DatumIdentifier) (hs : d.inString = false)
    (hb : d.inStringBackslash = false) :
    d.feed c = if d.finishedDatum then (d, false) else d.finishIfOutermost := by
  have hws : ∀ c ∈ wsBytes, c ≠ '"'.toUInt8 ∧ ¬(c = '\x7b'.toUInt8 ∨ c = '['.toUInt8)
      ∧ ¬(c = '\x7d'.toUInt8 ∨ c = ']'.toUInt8) ∧ DatumIdentifier.isSpace c = true :=
    forall_mem_of_all (by decide)
  obtain ⟨h₁, h₂, h₃, h₄⟩ := hws c h
  simp [DatumIdentifier.feed, hs, hb, h₁, h₂, h₃, h₄]

/-- Between data it ends none. -/
theorem quiet_ws_idle (w : Ws) : Quiet idle w.text idle :=
  .all (fun c hc => feed_ws (w.blank c hc) idle rfl rfl)

/-- And inside of brackets it ends none. -/
theorem quiet_ws (n : Nat) (w : Ws) : Quiet (inside (n + 1)) w.text (inside (n + 1)) :=
  .all (fun c hc => feed_ws (w.blank c hc) (inside (n + 1)) rfl rfl)

/-- A primitive, from wherever it starts. -/
theorem quiet_prim {n : Nat} {b : Bool} (p : Prim) :
    Quiet ⟨n, false, false, b⟩ p.text (inside n) := by
  obtain ⟨c, cs, htext, -⟩ := p.text_start
  have hmem := p.text_mem
  rw [htext] at hmem ⊢
  refine .cons (feed_prim (hmem c List.mem_cons_self)) (.all ?_)
  intro c' hc'
  exact feed_prim (hmem c' (List.mem_cons_of_mem _ hc'))

/-- Nothing ends at a character of a string, whatever way it is written. -/
theorem quiet_strChar (n : Nat) (u : StrChar) : Quiet (inText n) u.text (inText n) := by
  have hback : (inText n).feed '\\'.toUInt8 = (⟨n, true, true, false⟩, false) := rfl
  have hany : ∀ c, DatumIdentifier.feed ⟨n, true, true, false⟩ c = (inText n, false) := fun _ => rfl
  have hplain : ∀ c : UInt8, c ≠ '"'.toUInt8 ∧ c ≠ '\\'.toUInt8 →
      (inText n).feed c = (inText n, false) := by
    intro c hc
    simp [DatumIdentifier.feed, inText, hc.1, hc.2]
  cases u with
  | plain c h => exact .cons (hplain c h.2) (.nil _)
  | escape c h => exact .cons hback (.cons (hany c) (.nil _))
  | unicode a b c d h =>
      refine .cons hback (.cons (hany _) (.all ?_))
      have hhex : ∀ x ∈ hexBytes, x ≠ '"'.toUInt8 ∧ x ≠ '\\'.toUInt8 :=
        forall_mem_of_all (by decide)
      intro x hx
      exact hplain x (hhex x (h x hx))

theorem quiet_rawText (n : Nat) (us : List StrChar) : Quiet (inText n) (rawText us) (inText n) := by
  induction us with
  | nil => exact .nil _
  | cons u us ih =>
      unfold rawText
      rw [List.flatMap_cons]
      exact (quiet_strChar n u).append ih

/-- A string up to its closing quote. -/
theorem quiet_openString {n : Nat} {b : Bool} (us : List StrChar) :
    Quiet ⟨n, false, false, b⟩ ('"'.toUInt8 :: rawText us) (inText n) :=
  .cons rfl (quiet_rawText n us)

/-- Nor at a string inside of brackets. -/
theorem quiet_quoted (n : Nat) (us : List StrChar) :
    Quiet (inside (n + 1)) (quoted us) (inside (n + 1)) := by
  have hclose : Quiet (inText (n + 1)) ['"'.toUInt8] (inside (n + 1)) := rfl
  exact (quiet_openString us).append hclose

/-! ## Nested values -/

/-- A bracket is opened. -/
theorem feed_opening {n : Nat} {b : Bool} {c : UInt8}
    (h : c = '\x7b'.toUInt8 ∨ c = '['.toUInt8) :
    DatumIdentifier.feed ⟨n, false, false, b⟩ c = (inside (n + 1), false) := by
  rcases h with rfl | rfl <;> rfl

/-- The outermost bracket ends a datum when it is closed. -/
theorem feed_closing {n : Nat} {c : UInt8} (h : c = '\x7d'.toUInt8 ∨ c = ']'.toUInt8) :
    (inside (n + 1)).feed c = (⟨n, false, false, decide (n = 0)⟩, decide (n = 0)) := by
  rcases h with rfl | rfl <;> rfl

/-- Separators are inside of a datum. -/
theorem feed_separator {n : Nat} {c : UInt8} (h : c = ','.toUInt8 ∨ c = ':'.toUInt8) :
    (inside n).feed c = (inside n, false) := by
  rcases h with rfl | rfl <;> rfl

/-- What stands between two brackets. -/
theorem quiet_bracket {n : Nat} {o c : UInt8} {cs : List UInt8}
    (ho : o = '\x7b'.toUInt8 ∨ o = '['.toUInt8) (hc : c = '\x7d'.toUInt8 ∨ c = ']'.toUInt8)
    (h : Quiet (inside (n + 2)) cs (inside (n + 2))) :
    Quiet (inside (n + 1)) (o :: (cs ++ [c])) (inside (n + 1)) := by
  refine .cons (feed_opening ho) (h.append (.cons ?_ (.nil _)))
  exact feed_closing hc

/-- Nothing ends at a member. -/
theorem quiet_memberText {n : Nat} {v : List UInt8}
    (h : Quiet (inside (n + 1)) v (inside (n + 1))) (w : Ws) (key : List StrChar) (w₁ w₂ w' : Ws) :
    Quiet (inside (n + 1)) (memberText w key w₁ w₂ v w') (inside (n + 1)) :=
  (quiet_ws n w).append ((quiet_quoted n key).append ((quiet_ws n w₁).append
    (.cons (feed_separator (.inr rfl)) ((quiet_ws n w₂).append (h.append (quiet_ws n w'))))))

mutual

/-- **Inside brackets no datum ends.** -/
theorem quiet_value (n : Nat) : (v : Syn) → Quiet (inside (n + 1)) v.text (inside (n + 1))
  | .prim p     => quiet_prim p
  | .str us     => quiet_quoted n us
  | .emptyArr w => quiet_bracket (.inr rfl) (.inr rfl) (quiet_ws (n + 1) w)
  | .arr es     => quiet_bracket (.inr rfl) (.inr rfl) (quiet_elements (n + 1) es)
  | .emptyObj w => quiet_bracket (.inl rfl) (.inl rfl) (quiet_ws (n + 1) w)
  | .obj ms     => quiet_bracket (.inl rfl) (.inl rfl) (quiet_members (n + 1) ms)

theorem quiet_elements (n : Nat) :
    (es : Elements) → Quiet (inside (n + 1)) es.text (inside (n + 1))
  | .one w v w'     => (quiet_ws n w).append ((quiet_value n v).append (quiet_ws n w'))
  | .more w v w' es => (quiet_ws n w).append ((quiet_value n v).append ((quiet_ws n w').append
      (.cons (feed_separator (.inl rfl)) (quiet_elements n es))))

theorem quiet_members (n : Nat) :
    (ms : Members) → Quiet (inside (n + 1)) ms.text (inside (n + 1))
  | .one w key w₁ w₂ v w'     => quiet_memberText (quiet_value n v) w key w₁ w₂ w'
  | .more w key w₁ w₂ v w' ms => (quiet_memberText (quiet_value n v) w key w₁ w₂ w').append
      (.cons (feed_separator (.inl rfl)) (quiet_members n ms))

end

/-! ## Outermost values -/

/-- The last byte of a bracketed value ends a datum. -/
theorem feedUntil_bracket {o c : UInt8} {cs : List UInt8}
    (ho : o = '\x7b'.toUInt8 ∨ o = '['.toUInt8) (hc : c = '\x7d'.toUInt8 ∨ c = ']'.toUInt8)
    (h : Quiet (inside 1) cs (inside 1)) (w : Ws) (rest : List UInt8) :
    feedUntil idle (w.text ++ (o :: (cs ++ [c])) ++ rest)
      = (idle, some (w.text ++ (o :: (cs ++ [c]))).length) := by
  have hq : Quiet idle (w.text ++ o :: cs) (inside 1) :=
    (quiet_ws_idle w).append (.cons (feed_opening ho) h)
  have hfeed : (inside 1).feed c = (idle, true) := feed_closing hc
  have hsplit : w.text ++ (o :: (cs ++ [c])) ++ rest = (w.text ++ o :: cs) ++ c :: rest := by
    simp
  rw [hsplit, feedUntil_end hq hfeed]
  simp [Nat.add_assoc]

/-- A datum that is not a primitive ends with its last byte. -/
theorem feedUntil_value (w : Ws) (v : Syn) (hv : v.isPrim = false) (rest : List UInt8) :
    feedUntil idle (w.text ++ v.text ++ rest) = (idle, some (w.text ++ v.text).length) := by
  cases v with
  | prim p => exact nomatch hv
  | str us =>
      have hq : Quiet idle (w.text ++ '"'.toUInt8 :: rawText us) (inText 0) :=
        (quiet_ws_idle w).append (quiet_openString us)
      have hfeed : (inText 0).feed '"'.toUInt8 = (idle, true) := rfl
      have hsplit : w.text ++ (Syn.str us).text ++ rest
          = (w.text ++ '"'.toUInt8 :: rawText us) ++ '"'.toUInt8 :: rest := by
        simp [Syn.text, quoted]
      rw [hsplit, feedUntil_end hq hfeed]
      simp [Syn.text, quoted, Nat.add_assoc]
  | emptyArr ws => exact feedUntil_bracket (.inr rfl) (.inr rfl) (quiet_ws 0 ws) w rest
  | arr es => exact feedUntil_bracket (.inr rfl) (.inr rfl) (quiet_elements 0 es) w rest
  | emptyObj ws => exact feedUntil_bracket (.inl rfl) (.inl rfl) (quiet_ws 0 ws) w rest
  | obj ms => exact feedUntil_bracket (.inl rfl) (.inl rfl) (quiet_members 0 ms) w rest

/-- A primitive ends with the whitespace after it. -/
theorem feedUntil_prim (w : Ws) (p : Prim) {c : UInt8} (hc : c ∈ wsBytes) (rest : List UInt8) :
    feedUntil idle (w.text ++ p.text ++ c :: rest)
      = (idle, some (w.text ++ p.text ++ [c]).length) := by
  have hend := feedUntil_end ((quiet_ws_idle w).append (quiet_prim p))
    (feed_ws hc (inside 0) rfl rfl) rest
  rw [hend, @List.length_append _ _ [c]]
  rfl

/-- And without whitespace after it, it does not end. -/
theorem quiet_pending (w : Ws) (p : Prim) : Quiet idle (w.text ++ p.text) (inside 0) :=
  (quiet_ws_idle w).append (quiet_prim p)

end Jsmn
