import Mathlib.Logic.Function.Iterate
import Clboss.JsmnRunProofs
import Clboss.JsonProofs
import Clboss.PreorderProofs

/-! # `jsmn_parse` — the tokens of a JSON value

    Run over the text of a value, `jsmn` appends a block of tokens, counts one
    child more in the superior token, and is back at that superior token.  The
    block reads back as the value (`Reads`), and is the value's tree in a row
    (`treeOf`, `node`).

    The delicate part is the closing bracket, which looks for its token by
    walking from the LAST token up along the parents.  `Climbs` says that this
    walk meets closed tokens only until it comes to the bracket's own. -/

namespace Jsmn

open Json

/-! ## Reading tokens -/

/-- The text of a token. -/
def slice (text : List UInt8) (t : Token) : List UInt8 :=
  (text.drop t.start).take (t.stop.getD 0 - t.start)

/-- `Token::next`: the tokens after the first one and all below it. -/
def nextToken : Nat → List Token → List Token
  | 0, ts             => ts
  | _ + 1, []         => []
  | fuel + 1, t :: ts => (nextToken fuel)^[t.size] ts

/-- The elements of an array, as `operator[]` and the iterator go over them. -/
def readElements (f : List Token → Option Value) (next : List Token → List Token) :
    Nat → List Token → Option (List Value)
  | 0, _      => some []
  | n + 1, ts => (f ts).bind (fun v => (readElements f next n (next ts)).map (v :: ·))

/-- The members of an object, as `keys` and `operator[]` go over them. -/
def readMembers (text : List UInt8) (f : List Token → Option Value)
    (next : List Token → List Token) : Nat → List Token → Option (List (List UInt8 × Value))
  | 0, _          => some []
  | _ + 1, []     => none
  | n + 1, k :: ts =>
      (f ts).bind (fun v => (readMembers text f next n (next ts)).map ((slice text k, v) :: ·))

/-- What the accessors of `Jsmn::Object` find at the first token. -/
def readValue (text : List UInt8) : Nat → List Token → Option Value
  | 0, _              => none
  | _ + 1, []         => none
  | fuel + 1, t :: ts =>
      match t.type with
      | .primitive => some (.prim (slice text t))
      | .string    => some (.str (slice text t))
      | .array     =>
          (readElements (readValue text fuel) (nextToken fuel) t.size ts).map .arr
      | .object    =>
          (readMembers text (readValue text fuel) (nextToken fuel) t.size ts).map .obj

/-- The value of `Object(ppr, 0)`. -/
def ParseResult.value (r : ParseResult) : Option Value :=
  readValue r.origString r.tokens.length r.tokens

/-! ## Blocks of tokens -/

/-- The tokens `new` are those of the value `v`, whatever follows them. -/
structure Reads (js : List UInt8) (v : Value) (new : List Token) : Prop where
  next  : ∀ fuel more, new.length ≤ fuel → nextToken fuel (new ++ more) = more
  value : ∀ fuel more, new.length ≤ fuel → readValue js fuel (new ++ more) = some v

/-- The tokens `new` are those of the values `vs`, one after the other. -/
structure ReadsElements (js : List UInt8) (vs : List Value) (new : List Token) : Prop where
  next   : ∀ fuel more, new.length ≤ fuel → (nextToken fuel)^[vs.length] (new ++ more) = more
  values : ∀ fuel more, new.length ≤ fuel →
    readElements (readValue js fuel) (nextToken fuel) vs.length (new ++ more) = some vs

/-- And those of members, each a key with its value below it. -/
structure ReadsMembers (js : List UInt8) (ms : List (List UInt8 × Value)) (new : List Token) :
    Prop where
  next   : ∀ fuel more, new.length ≤ fuel → (nextToken fuel)^[ms.length] (new ++ more) = more
  values : ∀ fuel more, new.length ≤ fuel →
    readMembers js (readValue js fuel) (nextToken fuel) ms.length (new ++ more) = some ms

theorem ReadsElements.nil (js : List UInt8) : ReadsElements js [] [] :=
  ⟨fun _ _ _ => rfl, fun _ _ _ => rfl⟩

theorem ReadsMembers.nil (js : List UInt8) : ReadsMembers js [] [] :=
  ⟨fun _ _ _ => rfl, fun _ _ _ => rfl⟩

/-- A value goes before the others. -/
theorem ReadsElements.cons {js : List UInt8} {v : Value} {vs : List Value}
    {new new' : List Token} (h : Reads js v new) (h' : ReadsElements js vs new') :
    ReadsElements js (v :: vs) (new ++ new') := by
  constructor
  · intro fuel more hf
    rw [List.length_append] at hf
    rw [List.length_cons, Function.iterate_succ_apply, List.append_assoc,
      h.next fuel _ (by omega), h'.next fuel more (by omega)]
  · intro fuel more hf
    rw [List.length_append] at hf
    rw [List.length_cons, readElements, List.append_assoc, h.value fuel _ (by omega),
      h.next fuel _ (by omega), Option.bind_some, h'.values fuel more (by omega)]
    rfl

/-- A key and its value go before the others. -/
theorem ReadsMembers.cons {js raw : List UInt8} {k : Token} {v : Value}
    {ms : List (List UInt8 × Value)} {new new' : List Token} (hk : slice js k = raw)
    (hsize : k.size = 1) (h : Reads js v new) (h' : ReadsMembers js ms new') :
    ReadsMembers js ((raw, v) :: ms) (k :: new ++ new') := by
  constructor
  · intro fuel more hf
    rw [List.length_append, List.length_cons] at hf
    obtain ⟨fuel, rfl⟩ : ∃ n, fuel = n + 1 := ⟨fuel - 1, by omega⟩
    -- the key has one token below it, its value
    have hkey : nextToken (fuel + 1) (k :: (new ++ (new' ++ more))) = new' ++ more := by
      rw [nextToken, hsize, Function.iterate_one, h.next fuel _ (by omega)]
    rw [List.length_cons, Function.iterate_succ_apply, List.append_assoc, List.cons_append, hkey,
      h'.next (fuel + 1) more (by omega)]
  · intro fuel more hf
    rw [List.length_append, List.length_cons] at hf
    rw [List.length_cons, List.append_assoc, List.cons_append, readMembers,
      h.value fuel _ (by omega), h.next fuel _ (by omega), Option.bind_some,
      h'.values fuel more (by omega), hk]
    rfl

/-- A token without others below it. -/
theorem Reads.leaf {js : List UInt8} {v : Value} {t : Token} (hsize : t.size = 0)
    (hv : ∀ fuel more, readValue js (fuel + 1) (t :: more) = some v) : Reads js v [t] := by
  constructor
  · intro fuel more hf
    obtain ⟨fuel, rfl⟩ : ∃ n, fuel = n + 1 := ⟨fuel - 1, by rw [List.length_singleton] at hf; omega⟩
    rw [List.singleton_append, nextToken, hsize, Function.iterate_zero, id]
  · intro fuel more hf
    obtain ⟨fuel, rfl⟩ : ∃ n, fuel = n + 1 := ⟨fuel - 1, by rw [List.length_singleton] at hf; omega⟩
    exact hv fuel more

/-- An array is a token above its elements. -/
theorem Reads.arr {js : List UInt8} {vs : List Value} {t : Token} {new : List Token}
    (htype : t.type = .array) (hsize : t.size = vs.length) (h : ReadsElements js vs new) :
    Reads js (.arr vs) (t :: new) := by
  constructor
  · intro fuel more hf
    rw [List.length_cons] at hf
    obtain ⟨fuel, rfl⟩ : ∃ n, fuel = n + 1 := ⟨fuel - 1, by omega⟩
    rw [List.cons_append, nextToken, hsize, h.next fuel more (by omega)]
  · intro fuel more hf
    rw [List.length_cons] at hf
    obtain ⟨fuel, rfl⟩ : ∃ n, fuel = n + 1 := ⟨fuel - 1, by omega⟩
    rw [List.cons_append, readValue, htype, hsize, h.values fuel more (by omega)]
    rfl

/-- An object is a token above its members. -/
theorem Reads.obj {js : List UInt8} {ms : List (List UInt8 × Value)} {t : Token}
    {new : List Token} (htype : t.type = .object) (hsize : t.size = ms.length)
    (h : ReadsMembers js ms new) : Reads js (.obj ms) (t :: new) := by
  constructor
  · intro fuel more hf
    rw [List.length_cons] at hf
    obtain ⟨fuel, rfl⟩ : ∃ n, fuel = n + 1 := ⟨fuel - 1, by omega⟩
    rw [List.cons_append, nextToken, hsize, h.next fuel more (by omega)]
  · intro fuel more hf
    rw [List.length_cons] at hf
    obtain ⟨fuel, rfl⟩ : ∃ n, fuel = n + 1 := ⟨fuel - 1, by omega⟩
    rw [List.cons_append, readValue, htype, hsize, h.values fuel more (by omega)]
    rfl

/-! ## The tokens as a tree -/

mutual

/-- The tokens of a value; a key is a token above its value. -/
def treeOf : Value → Preorder.Tree (TokenType × List UInt8)
  | .prim raw => .node (.primitive, raw) []
  | .str raw  => .node (.string, raw) []
  | .arr vs   => .node (.array, []) (elementTrees vs)
  | .obj ms   => .node (.object, []) (memberTrees ms)

/-- The trees of the elements. -/
def elementTrees : List Value → List (Preorder.Tree (TokenType × List UInt8))
  | []      => []
  | v :: vs => treeOf v :: elementTrees vs

/-- The trees of the members. -/
def memberTrees : List (List UInt8 × Value) → List (Preorder.Tree (TokenType × List UInt8))
  | []      => []
  | m :: ms => memberTree m :: memberTrees ms

/-- A key above its value. -/
def memberTree : List UInt8 × Value → Preorder.Tree (TokenType × List UInt8)
  | (raw, v) => .node (.string, raw) [treeOf v]

end

theorem length_elementTrees (vs : List Value) : (elementTrees vs).length = vs.length := by
  induction vs with
  | nil => rfl
  | cons v vs ih => rw [elementTrees, List.length_cons, ih, List.length_cons]

theorem length_memberTrees (ms : List (List UInt8 × Value)) :
    (memberTrees ms).length = ms.length := by
  induction ms with
  | nil => rfl
  | cons m ms ih => rw [memberTrees, List.length_cons, ih, List.length_cons]

/-- What a token says: its type, its text if it has no parts, and the number of
    its children. -/
def node (js : List UInt8) (t : Token) : (TokenType × List UInt8) × ℕ :=
  ((t.type, if t.type = .array ∨ t.type = .object then [] else slice js t), t.size)

/-- What the tokens say, in a row. -/
def ParseResult.row (r : ParseResult) : List ((TokenType × List UInt8) × Nat) :=
  r.tokens.map (node r.origString)

/-! ## Token lists -/

/-- Count `n` children more in token `k`. -/
def addSize (k n : Nat) (ts : List Token) : List Token :=
  ts.modify k (fun t => { t with size := t.size + n })

/-- `bump` counts one. -/
theorem bump_some (k : Nat) (ts : List Token) : bump (some k) ts = addSize k 1 ts := rfl

@[simp]
theorem length_addSize (k n : Nat) (ts : List Token) : (addSize k n ts).length = ts.length :=
  List.length_modify _ _ _

/-- What is changed among the first tokens stays there. -/
theorem modify_append {f : Token → Token} {k : Nat} {ts : List Token} (h : k < ts.length)
    (new : List Token) : (ts ++ new).modify k f = ts.modify k f ++ new := by
  induction ts generalizing k with
  | nil => exact absurd h (Nat.not_lt_zero _)
  | cons t ts ih =>
      cases k with
      | zero => rfl
      | succ k =>
          rw [List.cons_append, List.modify_succ_cons, List.modify_succ_cons,
            ih (Nat.lt_of_succ_lt_succ h), List.cons_append]

/-- The token after the first `n`. -/
theorem getElem?_length {n : Nat} {ts : List Token} (h : ts.length = n) (t : Token)
    (new : List Token) : (ts ++ t :: new)[n]? = some t := by
  rw [← h, List.getElem?_append_right (Nat.le_refl _), Nat.sub_self]
  rfl

/-- The token after `ts`. -/
theorem modify_length (f : Token → Token) (ts : List Token) (t : Token) (new : List Token) :
    (ts ++ t :: new).modify ts.length f = ts ++ f t :: new := by
  induction ts with
  | nil => rfl
  | cons t' ts ih =>
      rw [List.cons_append, List.length_cons, List.modify_succ_cons, ih, List.cons_append]

/-- So with counting. -/
theorem addSize_append {k : Nat} (n : Nat) {ts : List Token} (h : k < ts.length)
    (new : List Token) : addSize k n (ts ++ new) = addSize k n ts ++ new := modify_append h new

/-- Counting twice is counting the sum. -/
theorem addSize_addSize (k m n : Nat) (ts : List Token) :
    addSize k m (addSize k n ts) = addSize k (n + m) ts := by
  unfold addSize
  rw [List.modify_modify_eq]
  congr 1
  funext t
  simp [Nat.add_assoc]

/-- Counting children changes sizes only. -/
theorem getElem?_addSize {k n i : Nat} {ts : List Token} {t : Token} (h : ts[i]? = some t) :
    ∃ t', (addSize k n ts)[i]? = some t' ∧ t'.type = t.type ∧ t'.start = t.start
      ∧ t'.stop = t.stop ∧ t'.parent = t.parent := by
  unfold addSize
  by_cases hk : k = i
  · subst hk
    refine ⟨{ t with size := t.size + n }, ?_, rfl, rfl, rfl, rfl⟩
    rw [List.getElem?_modify_eq, h]
    rfl
  · refine ⟨t, ?_, rfl, rfl, rfl, rfl⟩
    rw [List.getElem?_modify_ne _ _ hk, h]

/-- A superior token is one of the tokens. -/
def Parser.Sound (p : Parser) : Prop := ∀ k, p.toksuper = some k → k < p.tokens.length

/-- A new token may be counted before it is put in the list, or after. -/
theorem bump_append {p : Parser} (h : p.Sound) (new : List Token) :
    bump p.toksuper (p.tokens ++ new) = bump p.toksuper p.tokens ++ new := by
  cases hs : p.toksuper with
  | none => rfl
  | some k => exact addSize_append 1 (h k hs) new

/-! ## The walk along the parents -/

/-- From token `i` the walk comes to `top`, over closed tokens only. -/
inductive Climbs (ts : List Token) (top : Nat) : Nat → Prop
  | top : Climbs ts top top
  | up {i j : Nat} {t : Token} (h : ts[i]? = some t) (hs : t.stop ≠ none)
      (hp : t.parent = some j) (hj : j < i) (hc : Climbs ts top j) : Climbs ts top i

/-- The walk goes down in the list. -/
theorem Climbs.le {ts : List Token} {top i : Nat} (h : Climbs ts top i) : top ≤ i := by
  induction h with
  | top => exact Nat.le_refl _
  | up _ _ _ hj _ ih => omega

/-- The walk does not depend on `top` and what is below, nor on sizes. -/
theorem Climbs.congr {ts ts' : List Token} {top i : Nat} (h : Climbs ts top i)
    (heq : ∀ k t, top < k → ts[k]? = some t →
      ∃ t', ts'[k]? = some t' ∧ t'.stop = t.stop ∧ t'.parent = t.parent) :
    Climbs ts' top i := by
  induction h with
  | top => exact .top
  | up h hs hp hj hc ih =>
      have := hc.le
      obtain ⟨t', ht', hs', hp'⟩ := heq _ _ (by omega) h
      exact .up ht' (by rw [hs']; exact hs) (by rw [hp']; exact hp) hj ih

/-- From `top` the walk goes on to its parent. -/
theorem Climbs.trans {ts : List Token} {top top' i : Nat} {t : Token} (h : Climbs ts top i)
    (ht : ts[top]? = some t) (hs : t.stop ≠ none) (hp : t.parent = some top')
    (hlt : top' < top) : Climbs ts top' i := by
  induction h with
  | top => exact .up ht hs hp hlt .top
  | up h hs hp hj _ ih => exact .up h hs hp hj ih

/-- A closing bracket finds its token. -/
theorem closeToken_climbs {p : Parser} {top i fuel : Nat} {t : Token} (h : Climbs p.tokens top i)
    (hf : i < fuel) (ht : p.tokens[top]? = some t) (hopen : t.stop = none) :
    closeToken p t.type fuel i = .ok {
      pos := p.pos + 1
      toksuper := t.parent
      tokens := p.tokens.modify top (fun t => { t with stop := some (p.pos + 1) }) } := by
  induction h generalizing fuel with
  | top =>
      obtain ⟨fuel, rfl⟩ : ∃ k, fuel = k + 1 := ⟨fuel - 1, by omega⟩
      unfold closeToken
      simp only [ht, hopen, if_true]
  | up h hs hp hj hc ih =>
      obtain ⟨fuel, rfl⟩ : ∃ k, fuel = k + 1 := ⟨fuel - 1, by omega⟩
      unfold closeToken
      simp only [h, hs, hp, if_false]
      exact ih (by omega)

/-! ## Rounds of the loop -/

/-- The next character. -/
theorem getElem?_of_drop {js cs : List UInt8} {n : Nat} {c : UInt8} (h : js.drop n = c :: cs) :
    js[n]? = some c ∧ js.drop (n + 1) = cs := by
  constructor
  · have := congrArg (fun l : List UInt8 => l[0]?) h
    simpa using this
  · have := congrArg List.tail h
    rwa [List.tail_drop, List.tail_cons] at this

/-- The rest after a text. -/
theorem drop_add_length {js text rest : List UInt8} {n : Nat} (h : js.drop n = text ++ rest) :
    js.drop (n + text.length) = rest := by
  rw [← List.drop_drop, h, List.drop_left]

theorem symbol_ws : ∀ c ∈ wsBytes, symbol c = .blank ∧ c ≠ 0 := forall_mem_of_all (by decide)

/-- One round that only moves on. -/
theorem run_blank {js rest : List UInt8} {p : Parser} {c : UInt8} (hjs : js.drop p.pos = c :: rest)
    (hc : c ∈ wsBytes) : p.run js = Parser.run js { p with pos := p.pos + 1 } := by
  obtain ⟨hsym, h₀⟩ := symbol_ws c hc
  refine run_step (getElem?_of_drop hjs).1 h₀ ?_
  unfold Parser.step
  rw [hsym]

/-- Rounds over whitespace only move on. -/
theorem run_ws {js rest : List UInt8} {p : Parser} (w : Ws) (hjs : js.drop p.pos = w.text ++ rest) :
    p.run js = Parser.run js { p with pos := p.pos + w.text.length } := by
  obtain ⟨text, hblank⟩ := w
  induction text generalizing p with
  | nil => rfl
  | cons c cs ih =>
      rw [run_blank hjs (hblank c List.mem_cons_self)]
      have htail := (getElem?_of_drop hjs).2
      rw [ih (p := { p with pos := p.pos + 1 })
        (fun c' hc' => hblank c' (List.mem_cons_of_mem _ hc')) htail]
      simp only [List.length_cons]
      rw [Nat.add_assoc, Nat.add_comm 1]

/-! ## Strings and primitives -/

/-- A hexadecimal digit of a code point. -/
theorem scanString_hex {n : Nat} {c : UInt8} {cs : List UInt8} (h : c ∈ hexBytes) :
    scanString (n + 1) (c :: cs) = (scanString n cs).map (· + 1) := by
  have hhex : ∀ c ∈ hexBytes, isHex c = true ∧ c ≠ 0 := forall_mem_of_all (by decide)
  rw [scanString, if_neg (hhex c h).2, if_pos (hhex c h).1]

theorem except_map_map {α β γ ε : Type} (x : Except ε α) (f : α → β) (g : β → γ) :
    (x.map f).map g = x.map (g ∘ f) := by
  cases x <;> rfl

/-- The scan goes over a character, whatever way it is written. -/
theorem scanString_strChar (u : StrChar) {c : UInt8} {cs : List UInt8} :
    scanString 0 (u.text ++ c :: cs) = (scanString 0 (c :: cs)).map (· + u.text.length) := by
  cases u with
  | plain x h =>
      have h₀ : x ≠ 0 := by
        rintro rfl
        exact absurd h.1 (by decide)
      show scanString 0 (x :: c :: cs) = _
      rw [scanString, if_neg h₀, if_neg h.2.1, if_neg h.2.2]
      rfl
  | escape x h =>
      have hesc : ∀ x ∈ escapeBytes, isEscape x = true := forall_mem_of_all (by decide)
      show scanString 0 ('\\'.toUInt8 :: x :: c :: cs) = _
      rw [scanString, if_neg (by decide), if_neg (by decide), if_pos rfl, if_pos (hesc x h)]
      rfl
  | unicode a b x d h =>
      show scanString 0 ('\\'.toUInt8 :: 'u'.toUInt8 :: a :: b :: x :: d :: c :: cs) = _
      rw [scanString, if_neg (by decide), if_neg (by decide), if_pos rfl, if_neg (by decide),
        if_pos rfl, scanString_hex (h a (by simp)), scanString_hex (h b (by simp)),
        scanString_hex (h x (by simp)), scanString_hex (h d (by simp))]
      simp only [except_map_map]
      rfl

/-- The scan of a string stops at its closing quote. -/
theorem scanString_rawText (us : List StrChar) (rest : List UInt8) :
    scanString 0 (rawText us ++ '"'.toUInt8 :: rest) = .ok (rawText us).length := by
  induction us with
  | nil =>
      cases rest with
      | nil => rfl
      | cons c cs => rfl
  | cons u us ih =>
      have hcons : rawText (u :: us) = u.text ++ rawText us := rfl
      obtain ⟨c, cs, hc⟩ : ∃ c cs, rawText us ++ '"'.toUInt8 :: rest = c :: cs := by
        cases rawText us with
        | nil => exact ⟨_, _, rfl⟩
        | cons c cs => exact ⟨_, _, rfl⟩
      rw [hcons, List.append_assoc, hc, scanString_strChar, ← hc, ih, List.length_append]
      simp only [Except.map]
      rw [Nat.add_comm]

/-- What a primitive is made of does not end one. -/
theorem primBytes_spec :
    ∀ c ∈ primBytes, c ≠ 0 ∧ isDelimiter c = false ∧ ¬(c < 32 ∨ 127 ≤ c) :=
  forall_mem_of_all (by decide)

theorem isDelimiter_ws : ∀ c ∈ wsBytes, isDelimiter c = true := forall_mem_of_all (by decide)

/-- The text goes on with something that ends a primitive. -/
def Delimited (rest : List UInt8) : Prop := ∃ c cs, rest = c :: cs ∧ isDelimiter c = true

/-- The scan of a primitive stops at what ends it. -/
theorem scanPrimitive_text {text rest : List UInt8} (h : ∀ c ∈ text, c ∈ primBytes)
    (hr : Delimited rest) : scanPrimitive (text ++ rest) = .ok text.length := by
  induction text with
  | nil =>
      obtain ⟨c, cs, rfl, hc⟩ := hr
      have h₀ : c ≠ 0 := by
        rintro rfl
        exact absurd hc (by decide)
      rw [List.nil_append, scanPrimitive, if_neg h₀, if_pos hc]
      rfl
  | cons c cs ih =>
      obtain ⟨h₀, hd, hr'⟩ := primBytes_spec c (h c List.mem_cons_self)
      rw [List.cons_append, scanPrimitive, if_neg h₀, if_neg (by rw [hd]; exact Bool.false_ne_true),
        if_neg hr', ih (fun c' hc' => h c' (List.mem_cons_of_mem _ hc'))]
      rfl

end Jsmn
