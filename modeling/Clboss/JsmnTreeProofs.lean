import Clboss.JsmnValueProofs

/-! # `jsmn_parse` — running over a syntax tree

    One lemma for each kind of round, and from them, by induction over the tree,
    what a run over the text of a value does (`lays_value`).  Elements are read
    with the array as superior token; a member is read with the object as
    superior token up to its colon and with the KEY as superior token from there
    on, until a comma goes back to the object. -/

namespace Jsmn

open Json

/-! ## Rounds that make tokens -/

/-- A string makes a token below the superior one. -/
theorem run_string {js rest : List UInt8} {p : Parser} (hp : p.Sound) (us : List StrChar)
    (hjs : js.drop p.pos = quoted us ++ rest) :
    p.run js = Parser.run js {
      pos := p.pos + (quoted us).length
      toksuper := p.toksuper
      tokens := bump p.toksuper p.tokens
        ++ [⟨.string, p.pos + 1, some (p.pos + 1 + (rawText us).length), 0, p.toksuper⟩] } := by
  have hcons : js.drop p.pos = '"'.toUInt8 :: (rawText us ++ '"'.toUInt8 :: rest) := by
    rw [hjs, quoted]
    simp
  obtain ⟨hc, htail⟩ := getElem?_of_drop hcons
  refine run_step hc (by decide) ?_
  have hsym : symbol '"'.toUInt8 = .quote := by decide
  unfold Parser.step
  rw [hsym]
  simp only [htail, scanString_rawText, Bool.true_eq_false, if_false, bump_append hp]
  have hlen : p.pos + (quoted us).length = p.pos + (rawText us).length + 2 := by
    simp [quoted, Nat.add_assoc]
  rw [hlen]

theorem slice_string {js rest : List UInt8} {n : Nat} {k : Option Nat} {size : Nat}
    (us : List StrChar) (hjs : js.drop n = quoted us ++ rest) :
    slice js ⟨.string, n + 1, some (n + 1 + (rawText us).length), size, k⟩ = rawText us := by
  have hcons : js.drop n = '"'.toUInt8 :: (rawText us ++ '"'.toUInt8 :: rest) := by
    rw [hjs, quoted]
    simp
  unfold slice
  simp only [Option.getD_some]
  rw [(getElem?_of_drop hcons).2, Nat.add_sub_cancel_left, List.take_left']
  rfl

/-- A value may stand here: at the outermost level, in an array or after a key. -/
def Parser.Ready (p : Parser) : Prop :=
  ∀ k, p.toksuper = some k →
    ∃ t, p.tokens[k]? = some t ∧ (t.type = .array ∨ t.type = .string ∧ t.size = 0)

theorem Parser.Ready.sound {p : Parser} (h : p.Ready) : p.Sound := by
  intro k hk
  obtain ⟨t, ht, -⟩ := h k hk
  exact (List.getElem?_eq_some_iff.mp ht).1

theorem Parser.Ready.superType {p : Parser} (h : p.Ready) : p.superType ≠ some .object := by
  unfold Parser.superType
  cases hs : p.toksuper with
  | none => exact nofun
  | some k =>
      obtain ⟨t, ht, htype⟩ := h k hs
      simp only [Option.bind_some, ht, Option.map_some]
      rcases htype with htype | ⟨htype, -⟩ <;> simp [htype]

theorem Parser.Ready.refusesPrimitive {p : Parser} (h : p.Ready) : p.refusesPrimitive = false := by
  unfold Parser.refusesPrimitive
  cases hs : p.toksuper with
  | none => rfl
  | some k =>
      obtain ⟨t, ht, htype⟩ := h k hs
      simp only [Option.bind_some, ht]
      rcases htype with htype | ⟨htype, hsize⟩
      · simp [htype]
      · simp [htype, hsize]

theorem symbol_primStarts : ∀ c ∈ primStarts, symbol c = .primitive ∧ c ≠ 0 :=
  forall_mem_of_all (by decide)

/-- A primitive makes a token below the superior one. -/
theorem run_prim {js rest : List UInt8} {p : Parser} (hp : p.Ready) (x : Prim)
    (hjs : js.drop p.pos = x.text ++ rest) (hrest : Delimited rest) :
    p.run js = Parser.run js {
      pos := p.pos + x.text.length
      toksuper := p.toksuper
      tokens := bump p.toksuper p.tokens
        ++ [⟨.primitive, p.pos, some (p.pos + x.text.length), 0, p.toksuper⟩] } := by
  obtain ⟨c, cs, htext, hstart⟩ := x.text_start
  obtain ⟨hsym, h₀⟩ := symbol_primStarts c hstart
  have hcons : js.drop p.pos = c :: (cs ++ rest) := by
    rw [hjs, htext, List.cons_append]
  refine run_step (getElem?_of_drop hcons).1 h₀ ?_
  unfold Parser.step
  rw [hsym]
  simp only [hp.refusesPrimitive, Bool.false_eq_true, if_false, hjs,
    scanPrimitive_text x.text_mem hrest, Bool.true_eq_false, bump_append hp.sound]

theorem symbol_zero : symbol 0 = .unexpected := by decide

/-- An opening bracket makes a token and goes below it. -/
def Parser.opened (p : Parser) (type : TokenType) : Parser where
  pos := p.pos + 1
  toksuper := some p.tokens.length
  tokens := bump p.toksuper p.tokens ++ [⟨type, p.pos, none, 0, p.toksuper⟩]

theorem run_opening {js rest : List UInt8} {p : Parser} {c : UInt8} {type : TokenType}
    (hp : p.Ready) (hc : symbol c = .opening type) (hjs : js.drop p.pos = c :: rest) :
    p.run js = (p.opened type).run js := by
  refine run_step (getElem?_of_drop hjs).1 ?_ ?_
  · rintro rfl
    rw [symbol_zero] at hc
    exact nomatch hc
  · unfold Parser.step
    rw [hc]
    simp only [Bool.true_eq_false, if_false, hp.superType]
    rfl

/-- The token of the opening bracket. -/
theorem getElem?_opened (p : Parser) (type : TokenType) :
    (p.opened type).tokens[p.tokens.length]? = some ⟨type, p.pos, none, 0, p.toksuper⟩ := by
  exact getElem?_length (length_bump _ _) _ []

/-! ## Rounds that go up or down -/

/-- A closing bracket goes back up. -/
theorem run_closing {js rest : List UInt8} {p : Parser} {c : UInt8} {top : Nat} {t : Token}
    (hc : symbol c = .closing t.type) (hjs : js.drop p.pos = c :: rest)
    (hclimb : Climbs p.tokens top (p.tokens.length - 1)) (ht : p.tokens[top]? = some t)
    (hopen : t.stop = none) :
    p.run js = Parser.run js {
      pos := p.pos + 1
      toksuper := t.parent
      tokens := p.tokens.modify top (fun t => { t with stop := some (p.pos + 1) }) } := by
  obtain ⟨hlt, -⟩ := List.getElem?_eq_some_iff.mp ht
  refine run_step (getElem?_of_drop hjs).1 ?_ ?_
  · rintro rfl
    rw [symbol_zero] at hc
    exact nomatch hc
  · unfold Parser.step
    rw [hc]
    simp only
    rw [if_neg (List.ne_nil_of_length_pos (by omega))]
    exact closeToken_climbs hclimb (by omega) ht hopen

/-- A comma stays in an array and leaves a key. -/
theorem run_comma {js rest : List UInt8} {p : Parser} {k : Nat} {t : Token}
    (hjs : js.drop p.pos = ','.toUInt8 :: rest) (hk : p.toksuper = some k)
    (ht : p.tokens[k]? = some t) :
    p.run js = Parser.run js { p with
      pos := p.pos + 1
      toksuper := if t.type = .array ∨ t.type = .object then some k else t.parent } := by
  refine run_step (getElem?_of_drop hjs).1 (by decide) ?_
  have hsym : symbol ','.toUInt8 = .comma := by decide
  unfold Parser.step
  rw [hsym]
  simp only [hk, Option.bind_some, ht]

/-- A colon goes below the last token. -/
theorem run_colon {js rest : List UInt8} {p : Parser} {ts : List Token} {t : Token}
    (hjs : js.drop p.pos = ':'.toUInt8 :: rest) (hts : p.tokens = ts ++ [t]) :
    p.run js = Parser.run js { p with pos := p.pos + 1, toksuper := some ts.length } := by
  refine run_step (getElem?_of_drop hjs).1 (by decide) ?_
  have hsym : symbol ':'.toUInt8 = .colon := by decide
  unfold Parser.step
  rw [hsym, hts]
  simp

/-! ## Values -/

/-- From `p` to `q` the parser read `text`, a value with the tokens `new`. -/
structure Wrote (js : List UInt8) (p q : Parser) (text : List UInt8) (v : Value)
    (new : List Token) : Prop where
  run    : p.run js = q.run js
  pos    : q.pos = p.pos + text.length
  super  : q.toksuper = p.toksuper
  tokens : q.tokens = bump p.toksuper p.tokens ++ new
  closed : ∀ t ∈ new, t.stop ≠ none
  root   : ∃ t, new[0]? = some t ∧ t.parent = p.toksuper
  climbs : Climbs q.tokens p.tokens.length (q.tokens.length - 1)
  reads  : Reads js v new

/-- A value of one token. -/
theorem Wrote.leaf {js text : List UInt8} {p q : Parser} {v : Value} {t : Token}
    (hrun : p.run js = q.run js) (hpos : q.pos = p.pos + text.length)
    (hsuper : q.toksuper = p.toksuper) (htoks : q.tokens = bump p.toksuper p.tokens ++ [t])
    (hstop : t.stop ≠ none) (hparent : t.parent = p.toksuper) (hreads : Reads js v [t]) :
    Wrote js p q text v [t] where
  run := hrun
  pos := hpos
  super := hsuper
  tokens := htoks
  closed := by
    intro t' ht'
    rw [List.mem_singleton.mp ht']
    exact hstop
  root := ⟨t, rfl, hparent⟩
  climbs := by
    have hlen : q.tokens.length - 1 = p.tokens.length := by
      rw [htoks, List.length_append, length_bump]
      rfl
    rw [hlen]
    exact .top
  reads := hreads

/-- The way up from a value in an array or after a key. -/
theorem Wrote.climbs_super {js text : List UInt8} {p q : Parser} {v : Value} {new : List Token}
    {k : Nat} (h : Wrote js p q text v new) (hk : p.toksuper = some k) (hlt : k < p.tokens.length) :
    Climbs q.tokens k (q.tokens.length - 1) := by
  obtain ⟨t, ht, hparent⟩ := h.root
  have hroot : q.tokens[p.tokens.length]? = some t := by
    rw [h.tokens, List.getElem?_append_right (Nat.le_of_eq (length_bump _ _)), length_bump,
      Nat.sub_self, ht]
  exact h.climbs.trans hroot (h.closed t (List.mem_of_getElem? ht)) (hparent.trans hk) hlt

/-- What stands between two brackets, and the brackets. -/
theorem wrote_bracket {js inner rest : List UInt8} {p p₂ : Parser} {type : TokenType} {o c : UInt8}
    {n : Nat} {v : Value} {new : List Token} (hp : p.Ready) (ho : symbol o = .opening type)
    (hc : symbol c = .closing type) (hjs : js.drop p.pos = (o :: (inner ++ [c])) ++ rest)
    (hrun : (p.opened type).run js = p₂.run js) (hpos : p₂.pos = p.pos + 1 + inner.length)
    (htoks : p₂.tokens
      = bump p.toksuper p.tokens ++ ⟨type, p.pos, none, n, p.toksuper⟩ :: new)
    (hclosed : ∀ t ∈ new, t.stop ≠ none)
    (hclimb : Climbs p₂.tokens p.tokens.length (p₂.tokens.length - 1))
    (hreads : ∀ stop, Reads js v (⟨type, p.pos, stop, n, p.toksuper⟩ :: new)) :
    ∃ q stop, Wrote js p q (o :: (inner ++ [c])) v (⟨type, p.pos, stop, n, p.toksuper⟩ :: new) := by
  have hlen := length_bump p.toksuper p.tokens
  have htop : p₂.tokens[p.tokens.length]? = some ⟨type, p.pos, none, n, p.toksuper⟩ := by
    rw [htoks]
    exact getElem?_length hlen _ new
  have hopen : js.drop p.pos = o :: (inner ++ (c :: rest)) := by
    rw [hjs]
    simp
  have hclose : js.drop p₂.pos = c :: rest := by
    rw [hpos]
    exact drop_add_length (getElem?_of_drop hopen).2
  have hmod : p₂.tokens.modify p.tokens.length (fun t => { t with stop := some (p₂.pos + 1) })
      = bump p.toksuper p.tokens
        ++ ⟨type, p.pos, some (p₂.pos + 1), n, p.toksuper⟩ :: new := by
    rw [htoks, ← hlen, modify_length]
  refine ⟨_, _, ⟨(run_opening hp ho hopen).trans (hrun.trans
    (run_closing hc hclose hclimb htop rfl)), ?_, rfl, hmod, ?_, ⟨_, rfl, rfl⟩, ?_, hreads _⟩⟩
  · show p₂.pos + 1 = _
    rw [hpos]
    simp
    omega
  · intro t ht
    rcases List.mem_cons.mp ht with rfl | ht
    · exact Option.some_ne_none _
    · exact hclosed t ht
  · -- closing the bracket changes nothing above it
    dsimp only
    rw [List.length_modify]
    refine hclimb.congr ?_
    intro k t hk ht
    exact ⟨t, by rw [List.getElem?_modify_ne _ _ (Nat.ne_of_lt hk), ht], rfl, rfl⟩

/-! ## Elements and members -/

/-- From `p` to `q` the parser read `text`, with `n` children of token `a` whose
    tokens are `new`. -/
structure WroteBelow (js : List UInt8) (p q : Parser) (a n : Nat) (text : List UInt8)
    (new : List Token) : Prop where
  run    : p.run js = q.run js
  pos    : q.pos = p.pos + text.length
  tokens : q.tokens = addSize a n p.tokens ++ new
  closed : ∀ t ∈ new, t.stop ≠ none
  climbs : Climbs q.tokens a (q.tokens.length - 1)

/-- Children, a comma, and more children. -/
theorem WroteBelow.trans {js text text' : List UInt8} {p q q' r : Parser} {a n n' : Nat}
    {new new' : List Token} (h : WroteBelow js p q a n text new) (ha : a < p.tokens.length)
    (hcomma : q.run js = q'.run js) (hpos : q'.pos = q.pos + 1) (htoks : q'.tokens = q.tokens)
    (h' : WroteBelow js q' r a n' text' new') :
    WroteBelow js p r a (n + n') (text ++ ','.toUInt8 :: text') (new ++ new') where
  run := h.run.trans (hcomma.trans h'.run)
  pos := by
    rw [h'.pos, hpos, h.pos, List.length_append, List.length_cons]
    omega
  tokens := by
    rw [h'.tokens, htoks, h.tokens, addSize_append _ (by simpa using ha), addSize_addSize,
      List.append_assoc]
  closed := by
    intro t ht
    rcases List.mem_append.mp ht with ht | ht
    · exact h.closed t ht
    · exact h'.closed t ht
  climbs := h'.climbs

/-- The superior token stays what it is. -/
theorem WroteBelow.parent {js text : List UInt8} {p q : Parser} {a n : Nat} {new : List Token}
    {t : Token} (h : WroteBelow js p q a n text new) (ht : p.tokens[a]? = some t) :
    ∃ t', q.tokens[a]? = some t' ∧ t'.type = t.type := by
  obtain ⟨t', ht', htype, -⟩ := getElem?_addSize (k := a) (n := n) ht
  obtain ⟨hlt, -⟩ := List.getElem?_eq_some_iff.mp ht'
  exact ⟨t', by rw [h.tokens, List.getElem?_append_left hlt, ht'], htype⟩

/-- Whitespace before what ends a primitive ends it, too. -/
theorem delimited_ws {rest : List UInt8} (w : Ws) (h : Delimited rest) :
    Delimited (w.text ++ rest) := by
  obtain ⟨text, hblank⟩ := w
  cases text with
  | nil => exact h
  | cons c cs =>
      exact ⟨c, cs ++ rest, rfl, isDelimiter_ws c (hblank c List.mem_cons_self)⟩

/-- `jsmn` reads the value `v`, wherever it may stand, and its tokens are the tree of the
    value in a row. -/
def LaysValue (v : Syn) : Prop :=
  ∀ (js rest : List UInt8) (p : Parser), p.Ready → js.drop p.pos = v.text ++ rest →
    (v.isPrim → Delimited rest) → ∃ q new, Wrote js p q v.text v.value new
      ∧ new.map (node js) = (treeOf v.value).row

/-- The elements of an array likewise. -/
def LaysElements (es : Elements) : Prop :=
  ∀ (js rest : List UInt8) (p : Parser) (a : Nat) (t : Token),
    p.toksuper = some a → p.tokens[a]? = some t → t.type = .array →
    js.drop p.pos = es.text ++ ']'.toUInt8 :: rest →
    ∃ q new, WroteBelow js p q a es.values.length es.text new ∧ ReadsElements js es.values new
      ∧ new.map (node js) = Preorder.rows (elementTrees es.values)

/-- And the members of an object. -/
def LaysMembers (ms : Members) : Prop :=
  ∀ (js rest : List UInt8) (p : Parser) (a : Nat) (t : Token),
    p.toksuper = some a → p.tokens[a]? = some t → t.type = .object →
    js.drop p.pos = ms.text ++ '\x7d'.toUInt8 :: rest →
    ∃ q new, WroteBelow js p q a ms.values.length ms.text new ∧ ReadsMembers js ms.values new
      ∧ new.map (node js) = Preorder.rows (memberTrees ms.values)

/-- One element of an array. -/
theorem run_element {v : Syn} (hv : LaysValue v) {js rest : List UInt8} {p : Parser} {a : Nat}
    {t : Token} (ha : p.toksuper = some a) (ht : p.tokens[a]? = some t) (htype : t.type = .array)
    (w w' : Ws) (hjs : js.drop p.pos = w.text ++ (v.text ++ (w'.text ++ rest)))
    (hrest : Delimited rest) :
    ∃ q new, WroteBelow js p q a 1 (w.text ++ (v.text ++ w'.text)) new
      ∧ Reads js v.value new ∧ new.map (node js) = (treeOf v.value).row
      ∧ q.toksuper = some a ∧ js.drop q.pos = rest := by
  obtain ⟨hlt, -⟩ := List.getElem?_eq_some_iff.mp ht
  have hready : Parser.Ready { p with pos := p.pos + w.text.length } := by
    intro k hk
    cases ha.symm.trans hk
    exact ⟨t, ht, .inl htype⟩
  obtain ⟨q, new, hq, hlaid⟩ :=
    hv js _ _ hready (drop_add_length hjs) (fun _ => delimited_ws w' hrest)
  have hqpos : js.drop q.pos = w'.text ++ rest := by
    rw [hq.pos]
    exact drop_add_length (drop_add_length hjs)
  refine ⟨{ q with pos := q.pos + w'.text.length }, new, ⟨?_, ?_, ?_, hq.closed, ?_⟩, hq.reads,
    hlaid, hq.super.trans ha, drop_add_length hqpos⟩
  · rw [run_ws w hjs, hq.run, run_ws w' hqpos]
  · show q.pos + w'.text.length = _
    rw [hq.pos]
    simp only [List.length_append]
    omega
  · show q.tokens = _
    rw [hq.tokens]
    show bump p.toksuper p.tokens ++ new = _
    rw [ha]
    rfl
  · exact hq.climbs_super ha hlt

theorem laysElements_one {v : Syn} (hv : LaysValue v) (w w' : Ws) :
    LaysElements (.one w v w') := by
  intro js rest p a t ha ht htype hjs
  have hassoc : js.drop p.pos = w.text ++ (v.text ++ (w'.text ++ ']'.toUInt8 :: rest)) := by
    rw [hjs, Elements.text]
    simp
  obtain ⟨q, new, hq, hreads, hlaid, -⟩ :=
    run_element hv ha ht htype w w' hassoc ⟨_, _, rfl, by decide⟩
  have hall := ReadsElements.cons hreads (.nil js)
  rw [List.append_nil] at hall
  rw [Elements.text, Elements.values]
  refine ⟨q, new, hq, hall, ?_⟩
  rw [hlaid, elementTrees, elementTrees, Preorder.rows, Preorder.rows, List.append_nil]

theorem laysElements_more {v : Syn} {es : Elements} (hv : LaysValue v) (hes : LaysElements es)
    (w w' : Ws) : LaysElements (.more w v w' es) := by
  intro js rest p a t ha ht htype hjs
  obtain ⟨hlt, -⟩ := List.getElem?_eq_some_iff.mp ht
  have hassoc : js.drop p.pos = w.text ++ (v.text ++ (w'.text
      ++ (','.toUInt8 :: (es.text ++ ']'.toUInt8 :: rest)))) := by
    rw [hjs, Elements.text]
    simp
  obtain ⟨q, new, hq, hreads, hlaid, hsuper, hqpos⟩ :=
    run_element hv ha ht htype w w' hassoc ⟨_, _, rfl, by decide⟩
  obtain ⟨t', ht', htype'⟩ := hq.parent ht
  -- the comma stays in the array
  have hcomma := run_comma hqpos hsuper ht'
  rw [if_pos (.inl (htype'.trans htype))] at hcomma
  obtain ⟨r, new', hr, hreads', hlaid'⟩ := hes js rest
    { q with pos := q.pos + 1, toksuper := some a } a t' rfl ht' (htype'.trans htype)
    (getElem?_of_drop hqpos).2
  have hall := hq.trans hlt hcomma rfl rfl hr
  have htext : (w.text ++ (v.text ++ w'.text)) ++ ','.toUInt8 :: es.text
      = (Elements.more w v w' es).text := by
    rw [Elements.text]
    simp
  rw [htext, Nat.add_comm 1] at hall
  rw [Elements.values]
  refine ⟨r, new ++ new', hall, .cons hreads hreads', ?_⟩
  rw [List.map_append, hlaid, hlaid', elementTrees, Preorder.rows]

/-- The token of the key of a member of token `a`, before its value is read. -/
structure IsKey (js : List UInt8) (key : List StrChar) (a : Nat) (k : Token) : Prop where
  type   : k.type = .string
  size   : k.size = 0
  stop   : k.stop ≠ none
  parent : k.parent = some a
  text   : ∀ size, slice js { k with size := size } = rawText key

/-- A key and its colon, with the whitespace around them. -/
theorem run_key {js rest : List UInt8} {p : Parser} {a : Nat} (ha : p.toksuper = some a)
    (hlt : a < p.tokens.length) (w : Ws) (key : List StrChar) (w₁ w₂ : Ws)
    (hjs : js.drop p.pos
      = w.text ++ (quoted key ++ (w₁.text ++ (':'.toUInt8 :: (w₂.text ++ rest))))) :
    ∃ (q : Parser) (k : Token), p.run js = q.run js
      ∧ q.pos = p.pos + (w.text ++ (quoted key ++ (w₁.text ++ (':'.toUInt8 :: w₂.text)))).length
      ∧ q.toksuper = some p.tokens.length ∧ q.tokens = addSize a 1 p.tokens ++ [k]
      ∧ IsKey js key a k := by
  have hkey := drop_add_length hjs
  have hws := drop_add_length hkey
  have hcolon := drop_add_length hws
  have hws' := (getElem?_of_drop hcolon).2
  have hsound : Parser.Sound { p with pos := p.pos + w.text.length } := by
    intro k hk
    cases ha.symm.trans hk
    exact hlt
  have hrun := (run_ws w hjs).trans ((run_string hsound key hkey).trans
    ((run_ws w₁ hws).trans ((run_colon hcolon rfl).trans (run_ws w₂ hws'))))
  refine ⟨_, ⟨.string, p.pos + w.text.length + 1,
    some (p.pos + w.text.length + 1 + (rawText key).length), 0, p.toksuper⟩, hrun, ?_, ?_, ?_,
    ⟨rfl, rfl, Option.some_ne_none _, ha, fun size => slice_string key hkey⟩⟩
  · simp only [List.length_append, List.length_cons]
    omega
  · simp
  · show bump p.toksuper p.tokens ++ _ = _
    rw [ha]
    rfl

/-- One member of an object: after it the key is the superior token. -/
theorem run_member {v : Syn} (hv : LaysValue v) {js rest : List UInt8} {p : Parser} {a : Nat}
    (ha : p.toksuper = some a) (hlt : a < p.tokens.length) (w : Ws) (key : List StrChar)
    (w₁ w₂ w' : Ws) (hjs : js.drop p.pos = memberText w key w₁ w₂ v.text w' ++ rest)
    (hrest : Delimited rest) :
    ∃ q k new, WroteBelow js p q a 1 (memberText w key w₁ w₂ v.text w') (k :: new)
      ∧ slice js k = rawText key ∧ k.size = 1 ∧ Reads js v.value new
      ∧ (k :: new).map (node js) = (memberTree (rawText key, v.value)).row
      ∧ k.type = .string ∧ k.parent = some a ∧ q.toksuper = some p.tokens.length
      ∧ q.tokens[p.tokens.length]? = some k ∧ js.drop q.pos = rest := by
  have hassoc : js.drop p.pos = w.text ++ (quoted key ++ (w₁.text ++ (':'.toUInt8
      :: (w₂.text ++ (v.text ++ (w'.text ++ rest)))))) := by
    rw [hjs, memberText]
    simp
  have hassoc' : js.drop p.pos = (w.text ++ (quoted key ++ (w₁.text ++ (':'.toUInt8
      :: w₂.text)))) ++ (v.text ++ (w'.text ++ rest)) := by
    rw [hassoc]
    simp
  obtain ⟨p₁, k, hrun, hpos, hsuper, htoks, hk⟩ := run_key ha hlt w key w₁ w₂ hassoc
  have hlen : (addSize a 1 p.tokens).length = p.tokens.length := length_addSize _ _ _
  have hget : p₁.tokens[p.tokens.length]? = some k := by
    rw [htoks]
    exact getElem?_length hlen k []
  have hready : p₁.Ready := by
    intro i hi
    cases hsuper.symm.trans hi
    exact ⟨k, hget, .inr ⟨hk.type, hk.size⟩⟩
  have hvalue : js.drop p₁.pos = v.text ++ (w'.text ++ rest) := by
    rw [hpos]
    exact drop_add_length hassoc'
  obtain ⟨q, new, hq, hlaid⟩ := hv js _ p₁ hready hvalue (fun _ => delimited_ws w' hrest)
  have hqpos : js.drop q.pos = w'.text ++ rest := by
    rw [hq.pos]
    exact drop_add_length hvalue
  -- the value counts as the child of its key
  have hqtoks : q.tokens = addSize a 1 p.tokens ++ { k with size := 1 } :: new := by
    rw [hq.tokens, hsuper, bump_some, htoks, ← hlen]
    unfold addSize
    rw [modify_length, hk.size, List.append_assoc]
    rfl
  have hqget : q.tokens[p.tokens.length]? = some { k with size := 1 } := by
    rw [hqtoks]
    exact getElem?_length hlen _ new
  have hltKey : p.tokens.length < p₁.tokens.length := (List.getElem?_eq_some_iff.mp hget).1
  refine ⟨{ q with pos := q.pos + w'.text.length }, { k with size := 1 }, new,
    ⟨?_, ?_, hqtoks, ?_, ?_⟩, hk.text 1, rfl, hq.reads, ?_, hk.type, hk.parent,
    hq.super.trans hsuper, hqget, drop_add_length hqpos⟩
  · rw [hrun, hq.run, run_ws w' hqpos]
  · show q.pos + w'.text.length = _
    rw [hq.pos, hpos, memberText]
    simp only [List.length_append, List.length_cons]
    omega
  · intro t ht
    rcases List.mem_cons.mp ht with rfl | ht
    · exact hk.stop
    · exact hq.closed t ht
  · exact (hq.climbs_super hsuper hltKey).trans hqget hk.stop hk.parent hlt
  · rw [List.map_cons, hlaid, memberTree, Preorder.Tree.row, Preorder.rows, Preorder.rows,
      List.append_nil, node, if_neg (by rw [hk.type]; decide), hk.text 1, hk.type]
    rfl

theorem laysMembers_one {v : Syn} (hv : LaysValue v) (w : Ws) (key : List StrChar)
    (w₁ w₂ w' : Ws) : LaysMembers (.one w key w₁ w₂ v w') := by
  intro js rest p a t ha ht htype hjs
  obtain ⟨hlt, -⟩ := List.getElem?_eq_some_iff.mp ht
  rw [Members.text] at hjs
  obtain ⟨q, k, new, hq, hk, hsize, hreads, hlaid, -⟩ :=
    run_member hv ha hlt w key w₁ w₂ w' hjs ⟨_, _, rfl, by decide⟩
  have hall := ReadsMembers.cons hk hsize hreads (.nil js)
  rw [List.append_nil] at hall
  rw [Members.text, Members.values]
  refine ⟨q, k :: new, hq, hall, ?_⟩
  rw [hlaid, memberTrees, memberTrees, Preorder.rows, Preorder.rows, List.append_nil]

theorem laysMembers_more {v : Syn} {ms : Members} (hv : LaysValue v) (hms : LaysMembers ms)
    (w : Ws) (key : List StrChar) (w₁ w₂ w' : Ws) :
    LaysMembers (.more w key w₁ w₂ v w' ms) := by
  intro js rest p a t ha ht htype hjs
  obtain ⟨hlt, -⟩ := List.getElem?_eq_some_iff.mp ht
  have hassoc : js.drop p.pos = memberText w key w₁ w₂ v.text w'
      ++ (','.toUInt8 :: (ms.text ++ '\x7d'.toUInt8 :: rest)) := by
    rw [hjs, Members.text]
    simp
  obtain ⟨q, k, new, hq, hk, hsize, hreads, hlaid, hktype, hkparent, hsuper, hqget, hqpos⟩ :=
    run_member hv ha hlt w key w₁ w₂ w' hassoc ⟨_, _, rfl, by decide⟩
  obtain ⟨t', ht', htype'⟩ := hq.parent ht
  -- the comma goes back from the key to the object
  have hcomma := run_comma hqpos hsuper hqget
  rw [if_neg (by rw [hktype]; decide), hkparent] at hcomma
  obtain ⟨r, new', hr, hreads', hlaid'⟩ := hms js rest
    { q with pos := q.pos + 1, toksuper := some a } a t' rfl ht' (htype'.trans htype)
    (getElem?_of_drop hqpos).2
  have hall := hq.trans hlt hcomma rfl rfl hr
  rw [Nat.add_comm 1] at hall
  rw [Members.text, Members.values]
  refine ⟨r, k :: new ++ new', hall, .cons hk hsize hreads hreads', ?_⟩
  rw [List.map_append, hlaid, hlaid', memberTrees, Preorder.rows]

/-! ## Trees -/

theorem slice_prim {js rest : List UInt8} {n : Nat} {k : Option Nat} {size : Nat} (x : Prim)
    (hjs : js.drop n = x.text ++ rest) :
    slice js ⟨.primitive, n, some (n + x.text.length), size, k⟩ = x.text := by
  unfold slice
  rw [Option.getD_some, hjs, Nat.add_sub_cancel_left, List.take_left']
  rfl

theorem laysValue_prim (x : Prim) : LaysValue (.prim x) := by
  intro js rest p hp hjs hrest
  rw [Syn.text] at hjs ⊢
  refine ⟨_, _, .leaf (run_prim hp x hjs (hrest rfl)) rfl rfl rfl (Option.some_ne_none _)
    rfl (.leaf rfl ?_), ?_⟩
  · intro fuel more
    rw [Syn.value, readValue]
    simp only
    rw [slice_prim x hjs]
  · rw [List.map_singleton, node, if_neg (by simp), slice_prim x hjs]
    rfl

theorem laysValue_str (us : List StrChar) : LaysValue (.str us) := by
  intro js rest p hp hjs _
  rw [Syn.text] at hjs ⊢
  refine ⟨_, _, .leaf (run_string hp.sound us hjs) rfl rfl rfl (Option.some_ne_none _)
    rfl (.leaf rfl ?_), ?_⟩
  · intro fuel more
    rw [Syn.value, readValue]
    simp only
    rw [slice_string us hjs]
  · rw [List.map_singleton, node, if_neg (by simp), slice_string us hjs]
    rfl

/-- Brackets with nothing but whitespace between them. -/
theorem wrote_empty {js rest : List UInt8} {p : Parser} {type : TokenType} {o c : UInt8}
    {v : Value} (hp : p.Ready) (ho : symbol o = .opening type) (hc : symbol c = .closing type)
    (w : Ws) (hjs : js.drop p.pos = (o :: (w.text ++ [c])) ++ rest)
    (hreads : ∀ stop, Reads js v [⟨type, p.pos, stop, 0, p.toksuper⟩]) :
    ∃ q stop, Wrote js p q (o :: (w.text ++ [c])) v [⟨type, p.pos, stop, 0, p.toksuper⟩] := by
  have hcons : js.drop p.pos = o :: (w.text ++ c :: rest) := by
    rw [hjs]
    simp
  have hws : js.drop (p.opened type).pos = w.text ++ c :: rest := (getElem?_of_drop hcons).2
  refine wrote_bracket hp ho hc hjs (run_ws w hws) rfl rfl nofun ?_ hreads
  have hlen : (p.opened type).tokens.length - 1 = p.tokens.length := by
    simp [Parser.opened]
  show Climbs _ _ ((p.opened type).tokens.length - 1)
  rw [hlen]
  exact .top

/-- Brackets around elements or members. -/
theorem wrote_full {js inner rest : List UInt8} {p q : Parser} {type : TokenType} {o c : UInt8}
    {n : Nat} {v : Value} {new : List Token} (hp : p.Ready) (ho : symbol o = .opening type)
    (hc : symbol c = .closing type) (hjs : js.drop p.pos = (o :: (inner ++ [c])) ++ rest)
    (h : WroteBelow js (p.opened type) q p.tokens.length n inner new)
    (hreads : ∀ stop, Reads js v (⟨type, p.pos, stop, n, p.toksuper⟩ :: new)) :
    ∃ q stop, Wrote js p q (o :: (inner ++ [c])) v (⟨type, p.pos, stop, n, p.toksuper⟩ :: new) := by
  refine wrote_bracket hp ho hc hjs h.run h.pos ?_ h.closed h.climbs hreads
  have hlen := length_bump p.toksuper p.tokens
  rw [h.tokens, Parser.opened, ← hlen]
  unfold addSize
  rw [modify_length, Nat.zero_add, List.append_assoc]
  rfl

theorem laysValue_emptyArr (w : Ws) : LaysValue (.emptyArr w) := by
  intro js rest p hp hjs _
  rw [Syn.text] at hjs ⊢
  rw [Syn.value]
  obtain ⟨q, stop, hq⟩ := wrote_empty hp (show symbol '['.toUInt8 = .opening .array by decide)
    (by decide) w hjs (fun stop => .arr rfl rfl (.nil js))
  exact ⟨q, _, hq, rfl⟩

theorem laysValue_emptyObj (w : Ws) : LaysValue (.emptyObj w) := by
  intro js rest p hp hjs _
  rw [Syn.text] at hjs ⊢
  rw [Syn.value]
  obtain ⟨q, stop, hq⟩ := wrote_empty hp (show symbol '\x7b'.toUInt8 = .opening .object by decide)
    (by decide) w hjs (fun stop => .obj rfl rfl (.nil js))
  exact ⟨q, _, hq, rfl⟩

theorem laysValue_arr {es : Elements} (hes : LaysElements es) : LaysValue (.arr es) := by
  intro js rest p hp hjs _
  rw [Syn.text] at hjs ⊢
  rw [Syn.value]
  have hcons : js.drop p.pos = '['.toUInt8 :: (es.text ++ ']'.toUInt8 :: rest) := by
    rw [hjs]
    simp
  obtain ⟨q, new, hq, hreads, hlaid⟩ := hes js rest (p.opened .array) p.tokens.length _ rfl
    (getElem?_opened p .array) rfl (getElem?_of_drop hcons).2
  obtain ⟨q', stop, hq'⟩ := wrote_full hp (by decide) (by decide) hjs hq
    (fun stop => .arr rfl rfl hreads)
  refine ⟨q', _, hq', ?_⟩
  rw [List.map_cons, hlaid, treeOf, Preorder.Tree.row, length_elementTrees]
  rfl

theorem laysValue_obj {ms : Members} (hms : LaysMembers ms) : LaysValue (.obj ms) := by
  intro js rest p hp hjs _
  rw [Syn.text] at hjs ⊢
  rw [Syn.value]
  have hcons : js.drop p.pos = '\x7b'.toUInt8 :: (ms.text ++ '\x7d'.toUInt8 :: rest) := by
    rw [hjs]
    simp
  obtain ⟨q, new, hq, hreads, hlaid⟩ := hms js rest (p.opened .object) p.tokens.length _ rfl
    (getElem?_opened p .object) rfl (getElem?_of_drop hcons).2
  obtain ⟨q', stop, hq'⟩ := wrote_full hp (by decide) (by decide) hjs hq
    (fun stop => .obj rfl rfl hreads)
  refine ⟨q', _, hq', ?_⟩
  rw [List.map_cons, hlaid, treeOf, Preorder.Tree.row, length_memberTrees]
  rfl

mutual

/-- **EVERY VALUE** is laid out, whatever its nesting. -/
theorem lays_value : (v : Syn) → LaysValue v
  | .prim x     => laysValue_prim x
  | .str us     => laysValue_str us
  | .emptyArr w => laysValue_emptyArr w
  | .arr es     => laysValue_arr (lays_elements es)
  | .emptyObj w => laysValue_emptyObj w
  | .obj ms     => laysValue_obj (lays_members ms)

theorem lays_elements : (es : Elements) → LaysElements es
  | .one w v w'     => laysElements_one (lays_value v) w w'
  | .more w v w' es => laysElements_more (lays_value v) (lays_elements es) w w'

theorem lays_members : (ms : Members) → LaysMembers ms
  | .one w key w₁ w₂ v w'     => laysMembers_one (lays_value v) w key w₁ w₂ w'
  | .more w key w₁ w₂ v w' ms =>
      laysMembers_more (lays_value v) (lays_members ms) w key w₁ w₂ w'

end

/-! ## A whole datum -/

/-- **A DATUM**: `jsmn` reads a value and the whitespace around it to the end,
    and the tokens are those of the value, in a row. -/
theorem lays_datum (w : Ws) (v : Syn) (w' : Ws) (h : v.isPrim → w'.text ≠ []) :
    ∃ n q, Parser.init.run (w.text ++ v.text ++ w'.text) = (.count (n + 1), q)
      ∧ q.pos = (w.text ++ v.text ++ w'.text).length
      ∧ ParseResult.value ⟨w.text ++ v.text ++ w'.text, q.tokens⟩ = some v.value
      ∧ ParseResult.row ⟨w.text ++ v.text ++ w'.text, q.tokens⟩ = (treeOf v.value).row := by
  generalize hjs : w.text ++ v.text ++ w'.text = js
  have hassoc : js.drop Parser.init.pos = w.text ++ (v.text ++ (w'.text ++ [])) := by
    show js.drop 0 = _
    rw [List.drop_zero, ← hjs]
    simp
  have hready : Parser.Ready { Parser.init with pos := Parser.init.pos + w.text.length } := nofun
  have hdelim : v.isPrim → Delimited (w'.text ++ []) := by
    intro hv
    cases htext : w'.text with
    | nil => exact absurd htext (h hv)
    | cons c cs =>
        have hc := w'.blank c (by rw [htext]; exact List.mem_cons_self)
        exact ⟨c, cs ++ [], rfl, isDelimiter_ws c hc⟩
  obtain ⟨q, new, hq, hlaid⟩ := lays_value v js _ _ hready (drop_add_length hassoc) hdelim
  have hqpos : js.drop q.pos = w'.text ++ [] := by
    rw [hq.pos]
    exact drop_add_length (drop_add_length hassoc)
  have htoks : q.tokens = new := hq.tokens
  have hend : q.pos + w'.text.length = js.length := by
    rw [hq.pos, ← hjs]
    simp [Parser.init]
    omega
  obtain ⟨t, ht, -⟩ := hq.root
  have hlen : 0 < new.length := (List.getElem?_eq_some_iff.mp ht).1
  refine ⟨new.length - 1, { q with pos := q.pos + w'.text.length }, ?_, hend, ?_, ?_⟩
  · rw [run_ws w hassoc, hq.run, run_ws w' hqpos, run_end]
    · have hnone : (new.any fun t => decide (t.stop = none)) = false := by
        rw [List.any_eq_false]
        intro t ht
        simpa using hq.closed t ht
      have hstatus : Parser.status { q with pos := q.pos + w'.text.length }
          = .count (new.length - 1 + 1) := by
        unfold Parser.status
        rw [htoks, hnone, if_neg Bool.false_ne_true, Nat.sub_add_cancel hlen]
      rw [hstatus]
    · intro c hc
      dsimp only at hc
      rw [hend, List.getElem?_eq_none (Nat.le_refl _)] at hc
      exact nomatch hc
  · show readValue js q.tokens.length q.tokens = _
    rw [htoks]
    have hread := hq.reads.value new.length [] (Nat.le_refl _)
    rwa [List.append_nil] at hread
  · show q.tokens.map (node js) = _
    rw [htoks, hlaid]

end Jsmn
