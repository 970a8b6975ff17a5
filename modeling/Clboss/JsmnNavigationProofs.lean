import Clboss.JsmnJsonProofs
import Clboss.JsmnHandleProofs

/-! # `Jsmn::Object` — walking over the token array

    Here the accessors do what they do in memory: a pointer into the array goes
    from token to token with `Token::next`, and every token is read where the
    pointer stands.  Reading past the array is a fault of its own (`outside`).

    `jsmn` lays the tree of a value out in a row (`lays_datum`), so every value
    in it stands somewhere in that row with all its tokens after it (`Sits`), and
    every accessor comes to exactly the children (`navigates_of_laid`).

    One step is out of line: `operator[]` with a position compares `int(i)`, and
    an `int` has not all the values of a `size_t` (`nth_iff`). -/

namespace Jsmn

open Json Preorder

/-! ## The accessors in memory -/

/-- What an access comes to instead of a result: an exception, a failed
    assertion, or a read outside the tokens. -/
inductive Fault where
  | typeError
  | assertion
  | outside
deriving DecidableEq

/-- What is read, if it is inside. -/
def inArray {α : Type} : Option α → Except Fault α
  | none   => .error .outside
  | some a => .ok a

/-- What is unescaped, if the assertions hold. -/
def asserted {α : Type} : Option α → Except Fault α
  | none   => .error .assertion
  | some a => .ok a

section

variable {α β : Type}

@[simp]
theorem inArray_some_bind (a : α) (f : α → Except Fault β) : (inArray (some a) >>= f) = f a := rfl

@[simp]
theorem asserted_some_bind (a : α) (f : α → Except Fault β) : (asserted (some a) >>= f) = f a := rfl

@[simp]
theorem asserted_none_bind (f : α → Except Fault β) :
    (asserted none >>= f) = .error .assertion := rfl

@[simp]
theorem fault_ok_bind (a : α) (f : α → Except Fault β) : (Except.ok a >>= f) = f a := rfl

end

/-- `Token::next`: the pointer goes past its token, and then past as many
    subtrees as the token has children. -/
def Token.next (tokens : List Token) (tokptr : ℕ) : Option ℕ :=
  skip (fun i => tokens[i]?.map Token.size) tokens.length tokptr

/-- `Object::Impl`. -/
structure ObjectImpl where
  parseResult : ParseResult
  i           : ℕ
  iEnd        : ℕ
deriving DecidableEq

namespace ObjectImpl

/-- The constructor: the end of an array is found by going past its elements. -/
def new (r : ParseResult) (i : ℕ) : Except Fault ObjectImpl := do
  let tok ← inArray r.tokens[i]?
  if tok.type = .array then
    let tokptr ← inArray (steps (Token.next r.tokens) tok.size (i + 1))
    return ⟨r, i, tokptr⟩
  else return ⟨r, i, i + 1⟩

/-- `token`. -/
def token (o : ObjectImpl) : Except Fault Token := inArray o.parseResult.tokens[o.i]?

/-- `size`. -/
def size (o : ObjectImpl) : Except Fault ℕ := do
  let tok ← o.token
  if tok.type = .array ∨ tok.type = .object then return tok.size else throw .typeError

/-- The loop of `keys`; its last round, too, goes past the value. -/
def keysFrom (r : ParseResult) : ℕ → ℕ → Except Fault (List (List UInt8))
  | 0, _          => .ok []
  | n + 1, tokptr => do
      let tok ← inArray r.tokens[tokptr]?
      let key ← asserted (fromEscaped (slice r.origString tok))
      let tokptr ← inArray (Token.next r.tokens (tokptr + 1))
      let ret ← keysFrom r n tokptr
      return key :: ret

/-- `keys`. -/
def keys (o : ObjectImpl) : Except Fault (List (List UInt8)) := do
  let tok ← o.token
  if tok.type = .object then keysFrom o.parseResult tok.size (o.i + 1) else throw .typeError

/-- The loop of `has` and of `operator[]` with a key: the first token of that key. -/
def findFrom (r : ParseResult) (s : List UInt8) : ℕ → ℕ → Except Fault (Option ℕ)
  | 0, _          => .ok none
  | n + 1, tokptr => do
      let tok ← inArray r.tokens[tokptr]?
      let key ← asserted (fromEscaped (slice r.origString tok))
      if key = s then return some tokptr
      else
        let tokptr ← inArray (Token.next r.tokens (tokptr + 1))
        findFrom r s n tokptr

/-- `has`. -/
def has (o : ObjectImpl) (s : List UInt8) : Except Fault Bool := do
  let tok ← o.token
  if tok.type = .object then
    let tokptr ← findFrom o.parseResult s tok.size (o.i + 1)
    return tokptr.isSome
  else throw .typeError

/-- `operator[]` with a key; `none` is the `nullptr`. -/
def get (o : ObjectImpl) (s : List UInt8) : Except Fault (Option ObjectImpl) := do
  let tok ← o.token
  if tok.type = .object then
    match ← findFrom o.parseResult s tok.size (o.i + 1) with
    | none        => return none
    | some tokptr =>
        let ret ← new o.parseResult (tokptr + 1)
        return some ret
  else throw .typeError

/-- `operator[]` with a position: a negative `int(i)` is less than any size, and
    no step is less than it. -/
def nth (o : ObjectImpl) (i : ℕ) : Except Fault (Option ObjectImpl) := do
  let tok ← o.token
  if tok.type = .array then
    if (tok.size : ℤ) ≤ toInt i then return none
    else
      let tokptr ← inArray (steps (Token.next o.parseResult.tokens) (toInt i).toNat (o.i + 1))
      let ret ← new o.parseResult tokptr
      return some ret
  else throw .typeError

/-- The iterator from `it` to `end`, taken at every place with `*` and moved on
    with `++`; `fuel` bounds the rounds. -/
def elementsFrom (o : ObjectImpl) : ℕ → ℕ → Except Fault (List ObjectImpl)
  | 0, _         => .error .outside
  | fuel + 1, it =>
      if it = o.iEnd then .ok []
      else do
        let e ← new o.parseResult it
        let it ← inArray (Token.next o.parseResult.tokens it)
        let es ← elementsFrom o fuel it
        return e :: es

/-- From `begin` to `end`. -/
def elements (o : ObjectImpl) : Except Fault (List ObjectImpl) :=
  o.elementsFrom (o.parseResult.tokens.length + 1) (o.i + 1)

end ObjectImpl

/-! ## What they should find -/

/-- If the tokens of `v` start at `i`, then those of `u`, a value in it, start
    at `j`. -/
inductive Sits : Value → ℕ → Value → ℕ → Prop
  | self (v : Value) (i : ℕ) : Sits v i v i
  | element {vs : List Value} {i k j : ℕ} {c u : Value} (hc : (k, c) ∈ placed treeOf (i + 1) vs)
      (h : Sits c k u j) : Sits (.arr vs) i u j
  | member {ms : List (List UInt8 × Value)} {i k j : ℕ} {m : List UInt8 × Value} {u : Value}
      (hm : (k, m) ∈ placed memberTree (i + 1) ms) (h : Sits m.2 (k + 1) u j) :
      Sits (.obj ms) i u j

/-- The object at token `j`, where the value is `u`. -/
def standing (r : ParseResult) (j : ℕ) : Value → ObjectImpl
  | .arr vs => ⟨r, j, j + (treeOf (.arr vs)).size⟩
  | _       => ⟨r, j, j + 1⟩

/-- The first of some members under a key, every key up to it unescaped. -/
def findMember (s : List UInt8) :
    List (ℕ × List UInt8 × Value) → Except Fault (Option (ℕ × List UInt8 × Value))
  | []      => .ok none
  | m :: ms => do
      let key ← asserted (fromEscaped m.2.1)
      if key = s then return some m else findMember s ms

section

variable (j : ℕ)

/-- The number of children. -/
def childCount : Value → Except Fault ℕ
  | .arr vs => .ok vs.length
  | .obj ms => .ok ms.length
  | _       => .error .typeError

/-- The keys in order, all of them unescaped. -/
def childKeys : Value → Except Fault (List (List UInt8))
  | .obj ms => asserted (ms.mapM (fun m => fromEscaped m.1))
  | _       => .error .typeError

/-- The member under a key, with the place of its key. -/
def childUnder (s : List UInt8) : Value → Except Fault (Option (ℕ × List UInt8 × Value))
  | .obj ms => findMember s (placed memberTree (j + 1) ms)
  | _       => .error .typeError

/-- The elements in order, with their places. -/
def children : Value → List (ℕ × Value)
  | .arr vs => placed treeOf (j + 1) vs
  | _       => []

/-- The element at a position, with its place. -/
def childNth (i : ℕ) : Value → Except Fault (Option (ℕ × Value))
  | .arr vs => .ok (placed treeOf (j + 1) vs)[i]?
  | _       => .error .typeError

end

/-- Every accessor, at the value `u` that stands at `j`, comes to the children of
    `u` and to nothing else; `i` is the position for `operator[]`. -/
structure Navigates (r : ParseResult) (u : Value) (j i : ℕ) : Prop where
  next     : Token.next r.tokens j = some (j + (treeOf u).size)
  le       : j + (treeOf u).size ≤ r.tokens.length
  new      : ObjectImpl.new r j = .ok (standing r j u)
  size     : (standing r j u).size = childCount u
  keys     : (standing r j u).keys = childKeys u
  has      : ∀ s, (standing r j u).has s = (childUnder j s u).map Option.isSome
  get      : ∀ s, (standing r j u).get s
    = (childUnder j s u).map (Option.map (fun m => standing r (m.1 + 1) m.2.2))
  nth      : (standing r j u).nth i
    = (childNth j i u).map (Option.map (fun c => standing r c.1 c.2))
  elements : (standing r j u).elements = .ok ((children j u).map (fun c => standing r c.1 c.2))

/-! ## The tokens at a place -/

theorem elementTrees_eq (vs : List Value) : elementTrees vs = vs.map treeOf := by
  induction vs with
  | nil => rfl
  | cons v vs ih => rw [elementTrees, ih, List.map_cons]

theorem memberTrees_eq (ms : List (List UInt8 × Value)) : memberTrees ms = ms.map memberTree := by
  induction ms with
  | nil => rfl
  | cons m ms ih => rw [memberTrees, ih, List.map_cons]

section

variable {r : ParseResult} {i j : ℕ}

/-- **EVERY VALUE** in a value that is laid out is laid out where it stands. -/
theorem laid_of_sits {v u : Value} (h : Laid r.row i (treeOf v)) (hu : Sits v i u j) :
    Laid r.row j (treeOf u) := by
  -- each step down to `u` goes to a subtree of what is laid out already
  induction hu with
  | self => exact h
  | element hc _ ih =>
      rw [treeOf, elementTrees_eq] at h
      exact ih (h.below.of_mem hc)
  | @member ms i k j m u hm _ ih =>
      rw [treeOf, memberTrees_eq] at h
      have hkey := h.below.of_mem hm
      rw [memberTree] at hkey
      exact ih hkey.below.cons.1

theorem counts_row : counts r.row = fun i => r.tokens[i]?.map Token.size := by
  funext i
  unfold counts ParseResult.row
  rw [List.getElem?_map, Option.map_map]
  rfl

theorem length_row : r.row.length = r.tokens.length := List.length_map _

/-- **STEP**: `Token::next` goes exactly past a subtree. -/
theorem next_laid {t : Preorder.Tree (TokenType × List UInt8)} (h : Laid r.row j t) :
    Token.next r.tokens j = some (j + t.size) := by
  have hle := h.le
  rw [length_row] at hle
  unfold Token.next
  rw [← counts_row]
  exact skip_laid t h (by omega)

/-- The token at the root of a tree. -/
theorem token_of_laid {type : TokenType} {raw : List UInt8}
    {ts : List (Preorder.Tree (TokenType × List UInt8))} (h : Laid r.row j (.node (type, raw) ts)) :
    ∃ t, r.tokens[j]? = some t ∧ t.type = type ∧ t.size = ts.length
      ∧ (type ≠ .array → type ≠ .object → slice r.origString t = raw) := by
  have hroot := h.root
  unfold ParseResult.row at hroot
  rw [List.getElem?_map] at hroot
  obtain ⟨t, ht, hnode⟩ := Option.map_eq_some_iff.mp hroot
  obtain ⟨hlabel, hsize⟩ := Prod.mk.inj hnode
  obtain ⟨htype, hraw⟩ := Prod.mk.inj hlabel
  refine ⟨t, ht, htype, hsize, ?_⟩
  intro harr hobj
  rwa [htype, if_neg (not_or.mpr ⟨harr, hobj⟩)] at hraw

/-- The end of an array. -/
theorem steps_next_laid {vs : List Value} (h : Laid r.row j (treeOf (.arr vs))) :
    steps (Token.next r.tokens) vs.length (j + 1) = some (j + (treeOf (.arr vs)).size) := by
  have hle := h.le
  rw [length_row, treeOf, size_node] at hle
  have hsteps : steps (skip (counts r.row) r.tokens.length) (elementTrees vs).length (j + 1)
      = some (j + 1 + (rows (elementTrees vs)).length) :=
    steps_laid (elementTrees vs) h.below (by omega)
  rw [length_elementTrees, counts_row] at hsteps
  rw [treeOf, size_node, Nat.add_comm (rows _).length, ← Nat.add_assoc]
  exact hsteps

theorem new_laid {u : Value} (h : Laid r.row j (treeOf u)) :
    ObjectImpl.new r j = .ok (standing r j u) := by
  unfold ObjectImpl.new
  cases u with
  | arr vs =>
      -- the one type whose end is looked for
      obtain ⟨t, ht, htype, hsize, -⟩ := token_of_laid h
      rw [length_elementTrees] at hsize
      simp only [ht, inArray_some_bind, htype, if_true, hsize, steps_next_laid h]
      rfl
  | _ =>
      obtain ⟨t, ht, htype, -⟩ := token_of_laid h
      simp only [ht, inArray_some_bind, htype, reduceCtorEq, if_false]
      rfl

/-! ## `Token::next` on what is left of the tokens -/

/-- As many steps as a walk takes on the tokens that are left. -/
theorem iterate_of_steps {tokens : List Token} {f : ℕ → Option ℕ} {g : List Token → List Token}
    {n i e : ℕ}
    (hstep : ∀ k k', i ≤ k → f k = some k' → k < k' ∧ g (tokens.drop k) = tokens.drop k')
    (h : steps f n i = some e) : i ≤ e ∧ g^[n] (tokens.drop i) = tokens.drop e := by
  induction n generalizing i with
  | zero =>
      cases h
      exact ⟨Nat.le_refl _, rfl⟩
  | succ n ih =>
      obtain ⟨k, hk, h⟩ := Option.bind_eq_some_iff.mp h
      obtain ⟨hlt, hg⟩ := hstep i k (Nat.le_refl _) hk
      obtain ⟨hle, hit⟩ := ih (fun m m' hm => hstep m m' (by omega)) h
      rw [Function.iterate_succ_apply, hg, hit]
      exact ⟨by omega, rfl⟩

theorem nextToken_of_skip {tokens : List Token} {fuel fuel' i e : ℕ}
    (hf : tokens.length - i ≤ fuel')
    (h : skip (fun i => tokens[i]?.map Token.size) fuel i = some e) :
    i < e ∧ nextToken fuel' (tokens.drop i) = tokens.drop e := by
  -- the tokens that are left are fuel enough for a walk that comes to an end
  induction fuel generalizing fuel' i e with
  | zero => exact nomatch h
  | succ fuel ih =>
      rw [skip] at h
      obtain ⟨n, hn, h⟩ := Option.bind_eq_some_iff.mp h
      obtain ⟨t, ht, rfl⟩ := Option.map_eq_some_iff.mp hn
      obtain ⟨hlt, hget⟩ := List.getElem?_eq_some_iff.mp ht
      obtain ⟨fuel', rfl⟩ : ∃ n, fuel' = n + 1 := ⟨fuel' - 1, by omega⟩
      obtain ⟨hle, hit⟩ := iterate_of_steps (g := nextToken fuel')
        (fun k k' hk hkk' => ih (by omega) hkk') h
      rw [List.drop_eq_getElem_cons hlt, hget, nextToken, hit]
      exact ⟨by omega, rfl⟩

/-- **REFINEMENT**: `next`, which takes tokens off a list, is `Token::next`. -/
theorem next_drop {tokens : List Token} {i e : ℕ} (h : Token.next tokens i = some e) :
    next (tokens.drop i) = tokens.drop e :=
  (nextToken_of_skip (by rw [List.length_drop]) h).2

theorem iterate_next_drop {tokens : List Token} {n i e : ℕ}
    (h : steps (Token.next tokens) n i = some e) : next^[n] (tokens.drop i) = tokens.drop e := by
  refine (iterate_of_steps (fun k k' _ hk => ⟨?_, next_drop hk⟩) h).2
  exact (nextToken_of_skip (Nat.le_refl _) hk).1

/-- The same object as a text and the tokens from its place on. -/
def ObjectImpl.handle (o : ObjectImpl) : Handle :=
  some ⟨o.parseResult.origString, o.parseResult.tokens.drop o.i⟩

theorem inArray_bind_eq_ok {α β : Type} {x : Option α} {f : α → Except Fault β} {b : β}
    (h : (inArray x >>= f) = .ok b) : ∃ a, x = some a ∧ f a = .ok b := by
  cases x with
  | none   => cases h
  | some a => exact ⟨a, rfl, h⟩

theorem new_eq_ok {r : ParseResult} {i : ℕ} {o : ObjectImpl} (h : ObjectImpl.new r i = .ok o) :
    o.parseResult = r ∧ o.i = i := by
  obtain ⟨tok, -, h⟩ := inArray_bind_eq_ok h
  split at h
  · obtain ⟨tokptr, -, h⟩ := inArray_bind_eq_ok h
    cases h
    exact ⟨rfl, rfl⟩
  · cases h
    exact ⟨rfl, rfl⟩

/-- **REFINEMENT**: `operator[]` on the list of tokens finds what it finds in memory, at any
    position at which it reads inside the array. -/
theorem nth_handle {o : ObjectImpl} {i : ℕ} {ret : Option ObjectImpl} (h : o.nth i = .ok ret) :
    o.handle.nth i = .ok (ret.bind ObjectImpl.handle) := by
  obtain ⟨tok, htok, h⟩ := inArray_bind_eq_ok h
  obtain ⟨hlt, rfl⟩ := List.getElem?_eq_some_iff.mp htok
  have hdrop := List.drop_eq_getElem_cons hlt
  unfold Handle.nth Handle.nthInt ObjectImpl.handle
  rw [hdrop]
  split at h
  · rename_i htype
    simp only [htype, if_true]
    split at h
    · rename_i hsize
      cases h
      rw [if_pos hsize]
      rfl
    · rename_i hsize
      obtain ⟨tokptr, hsteps, h⟩ := inArray_bind_eq_ok h
      cases hnew : ObjectImpl.new o.parseResult tokptr with
      | error e =>
          rw [hnew] at h
          cases h
      | ok o' =>
          rw [hnew] at h
          cases h
          obtain ⟨hresult, hi⟩ := new_eq_ok hnew
          rw [if_neg hsize, iterate_next_drop hsteps, ← hresult, ← hi]
          rfl
  · cases h

/-! ## The accessors at a place -/

/-- The token of the object that stands at a value. -/
theorem token_standing {u : Value} {type : TokenType} {raw : List UInt8}
    {ts : List (Preorder.Tree (TokenType × List UInt8))} (hu : treeOf u = .node (type, raw) ts)
    (h : Laid r.row j (treeOf u)) :
    ∃ t, (standing r j u).token = .ok t ∧ t.type = type ∧ t.size = ts.length := by
  rw [hu] at h
  obtain ⟨t, ht, htype, hsize, -⟩ := token_of_laid h
  refine ⟨t, ?_, htype, hsize⟩
  unfold ObjectImpl.token
  cases u <;> simp only [standing, ht, inArray]

/-- The token of an object, and its members after it. -/
theorem object_laid {ms : List (List UInt8 × Value)} (h : Laid r.row j (treeOf (.obj ms))) :
    (∃ t, (standing r j (.obj ms)).token = .ok t ∧ t.type = .object ∧ t.size = ms.length)
      ∧ LaidAll r.row (j + 1) (ms.map memberTree) := by
  obtain ⟨t, ht, htype, hsize⟩ := token_standing rfl h
  have hall := h.below
  rw [length_memberTrees] at hsize
  rw [memberTrees_eq] at hall
  exact ⟨⟨t, ht, htype, hsize⟩, hall⟩

/-- The token of an array, and its elements after it. -/
theorem array_laid {vs : List Value} (h : Laid r.row j (treeOf (.arr vs))) :
    (∃ t, (standing r j (.arr vs)).token = .ok t ∧ t.type = .array ∧ t.size = vs.length)
      ∧ LaidAll r.row (j + 1) (vs.map treeOf)
      ∧ j + 1 + (rows (vs.map treeOf)).length = j + (treeOf (.arr vs)).size
      ∧ j + 1 + (rows (vs.map treeOf)).length ≤ r.tokens.length := by
  obtain ⟨t, ht, htype, hsize⟩ := token_standing rfl h
  have hall := h.below
  have hle := h.le
  rw [length_elementTrees] at hsize
  rw [length_row, treeOf, size_node] at hle
  rw [elementTrees_eq] at hall hle
  refine ⟨⟨t, ht, htype, hsize⟩, hall, ?_, by omega⟩
  rw [treeOf, size_node, elementTrees_eq]
  omega

theorem size_laid {u : Value} (h : Laid r.row j (treeOf u)) :
    (standing r j u).size = childCount u := by
  unfold ObjectImpl.size
  cases u with
  | arr vs =>
      obtain ⟨⟨t, ht, htype, hsize⟩, -⟩ := array_laid h
      rw [ht, fault_ok_bind, htype, if_pos (.inl rfl), hsize]
      rfl
  | obj ms =>
      obtain ⟨⟨t, ht, htype, hsize⟩, -⟩ := object_laid h
      rw [ht, fault_ok_bind, htype, if_pos (.inr rfl), hsize]
      rfl
  | _ =>
      obtain ⟨t, ht, htype, -⟩ := token_standing rfl h
      rw [ht, fault_ok_bind, htype, if_neg (by decide)]
      rfl

/-- A key, and past its value. -/
theorem member_laid {m : List UInt8 × Value} (h : Laid r.row j (memberTree m)) :
    (∃ t, r.tokens[j]? = some t ∧ slice r.origString t = m.1)
      ∧ Laid r.row (j + 1) (treeOf m.2)
      ∧ Token.next r.tokens (j + 1) = some (j + (memberTree m).size) := by
  obtain ⟨raw, v⟩ := m
  rw [memberTree] at h ⊢
  obtain ⟨t, ht, -, -, hraw⟩ := token_of_laid h
  have hvalue := h.below.cons.1
  refine ⟨⟨t, ht, hraw (by decide) (by decide)⟩, hvalue, ?_⟩
  rw [next_laid hvalue, size_node, length_rows_cons, rows, List.length_nil]
  congr 1
  omega

theorem keysFrom_laid {ms : List (List UInt8 × Value)} (h : LaidAll r.row j (ms.map memberTree)) :
    ObjectImpl.keysFrom r ms.length j = asserted (ms.mapM (fun m => fromEscaped m.1)) := by
  induction ms generalizing j with
  | nil => rfl
  | cons m ms ih =>
      obtain ⟨⟨t, ht, hraw⟩, -, hnext⟩ := member_laid h.cons.1
      rw [List.length_cons, ObjectImpl.keysFrom, List.mapM_cons, ht, inArray_some_bind, hraw, hnext]
      cases fromEscaped m.1 with
      | none => rfl
      | some key =>
          rw [asserted_some_bind, inArray_some_bind, ih h.cons.2]
          cases ms.mapM (fun m => fromEscaped m.1) <;> rfl

theorem keys_laid {u : Value} (h : Laid r.row j (treeOf u)) :
    (standing r j u).keys = childKeys u := by
  unfold ObjectImpl.keys
  cases u with
  | obj ms =>
      obtain ⟨⟨t, ht, htype, hsize⟩, hall⟩ := object_laid h
      rw [ht, fault_ok_bind, if_pos htype, hsize]
      exact keysFrom_laid hall
  | _ =>
      obtain ⟨t, ht, htype, -⟩ := token_standing rfl h
      rw [ht, fault_ok_bind, htype, if_neg (by decide)]
      rfl

theorem findFrom_laid (s : List UInt8) {ms : List (List UInt8 × Value)}
    (h : LaidAll r.row j (ms.map memberTree)) :
    ObjectImpl.findFrom r s ms.length j
      = (findMember s (placed memberTree j ms)).map (Option.map Prod.fst) := by
  induction ms generalizing j with
  | nil => rfl
  | cons m ms ih =>
      obtain ⟨⟨t, ht, hraw⟩, -, hnext⟩ := member_laid h.cons.1
      rw [List.length_cons, ObjectImpl.findFrom, placed, findMember, ht, inArray_some_bind, hraw,
        hnext]
      cases fromEscaped m.1 with
      | none => rfl
      | some key =>
          rw [asserted_some_bind, inArray_some_bind, asserted_some_bind]
          -- the loop ends at the first of equal keys
          by_cases hs : key = s
          · rw [if_pos hs, if_pos hs]
            rfl
          · rw [if_neg hs, if_neg hs]
            exact ih h.cons.2

/-- A member that is found is one of them. -/
theorem mem_of_findMember {s : List UInt8} {ms : List (ℕ × List UInt8 × Value)}
    {m : ℕ × List UInt8 × Value} (h : findMember s ms = .ok (some m)) : m ∈ ms := by
  induction ms with
  | nil => exact nomatch h
  | cons m' ms ih =>
      rw [findMember] at h
      cases hkey : fromEscaped m'.2.1 with
      | none =>
          rw [hkey] at h
          exact nomatch h
      | some key =>
          rw [hkey, asserted_some_bind] at h
          by_cases hs : key = s
          · rw [if_pos hs] at h
            cases h
            exact List.mem_cons_self
          · rw [if_neg hs] at h
            exact List.mem_cons_of_mem _ (ih h)

theorem has_laid {u : Value} (h : Laid r.row j (treeOf u)) (s : List UInt8) :
    (standing r j u).has s = (childUnder j s u).map Option.isSome := by
  unfold ObjectImpl.has childUnder
  cases u with
  | obj ms =>
      obtain ⟨⟨t, ht, htype, hsize⟩, hall⟩ := object_laid h
      rw [ht, fault_ok_bind, if_pos htype, hsize]
      show (ObjectImpl.findFrom r s ms.length (j + 1) >>= _) = _
      rw [findFrom_laid s hall]
      dsimp only
      rcases findMember s (placed memberTree (j + 1) ms) with e | (_ | m) <;> rfl
  | _ =>
      obtain ⟨t, ht, htype, -⟩ := token_standing rfl h
      rw [ht, fault_ok_bind, htype, if_neg (by decide)]
      rfl

theorem get_laid {u : Value} (h : Laid r.row j (treeOf u)) (s : List UInt8) :
    (standing r j u).get s
      = (childUnder j s u).map (Option.map (fun m => standing r (m.1 + 1) m.2.2)) := by
  unfold ObjectImpl.get childUnder
  cases u with
  | obj ms =>
      obtain ⟨⟨t, ht, htype, hsize⟩, hall⟩ := object_laid h
      rw [ht, fault_ok_bind, if_pos htype, hsize]
      show (ObjectImpl.findFrom r s ms.length (j + 1) >>= _) = _
      rw [findFrom_laid s hall]
      dsimp only
      cases hfind : findMember s (placed memberTree (j + 1) ms) with
      | error e => rfl
      | ok found =>
          cases found with
          | none => rfl
          | some m =>
              -- the value stands behind the key
              obtain ⟨-, hvalue, -⟩ := member_laid (hall.of_mem (mem_of_findMember hfind))
              show (ObjectImpl.new r (m.1 + 1) >>= _) = _
              rw [new_laid hvalue]
              rfl
  | _ =>
      obtain ⟨t, ht, htype, -⟩ := token_standing rfl h
      rw [ht, fault_ok_bind, htype, if_neg (by decide)]
      rfl

/-! ## Iteration -/

theorem elementsFrom_laid {o : ObjectImpl} (hr : o.parseResult = r) {vs : List Value} {fuel : ℕ}
    (h : LaidAll r.row j (vs.map treeOf)) (hend : o.iEnd = j + (rows (vs.map treeOf)).length)
    (hf : vs.length < fuel) :
    o.elementsFrom fuel j = .ok ((placed treeOf j vs).map (fun c => standing r c.1 c.2)) := by
  induction vs generalizing fuel j with
  | nil =>
      obtain ⟨fuel, rfl⟩ : ∃ n, fuel = n + 1 := ⟨fuel - 1, by omega⟩
      have hj : j = o.iEnd := hend.symm
      rw [ObjectImpl.elementsFrom, if_pos hj]
      rfl
  | cons v vs ih =>
      obtain ⟨fuel, rfl⟩ : ∃ n, fuel = n + 1 := ⟨fuel - 1, by omega⟩
      rw [List.length_cons] at hf
      rw [List.map_cons, length_rows_cons] at hend
      -- every subtree has a token, so the iterator is not at its end
      have hpos := size_pos (treeOf v)
      rw [ObjectImpl.elementsFrom, if_neg (by omega), hr, new_laid h.cons.1, fault_ok_bind,
        next_laid h.cons.1, inArray_some_bind, ih h.cons.2 (by omega) (by omega)]
      rfl

theorem length_le_rows (vs : List Value) : vs.length ≤ (rows (vs.map treeOf)).length := by
  induction vs with
  | nil => exact Nat.le_refl _
  | cons v vs ih =>
      have := size_pos (treeOf v)
      rw [List.map_cons, length_rows_cons, List.length_cons]
      omega

theorem elements_laid {u : Value} (h : Laid r.row j (treeOf u)) :
    (standing r j u).elements = .ok ((children j u).map (fun c => standing r c.1 c.2)) := by
  unfold ObjectImpl.elements
  cases u with
  | arr vs =>
      obtain ⟨-, hall, hend, hle⟩ := array_laid h
      have hlen := length_le_rows vs
      refine elementsFrom_laid rfl hall hend.symm ?_
      -- every element has a token, so the tokens are fuel enough
      show vs.length < r.tokens.length + 1
      omega
  | _ =>
      rw [ObjectImpl.elementsFrom]
      exact if_pos rfl

/-! ## Positions -/

theorem toInt_le (i : ℕ) : toInt i ≤ i := by
  unfold toInt
  rw [BitVec.toInt_eq_toNat_cond, BitVec.toNat_ofNat]
  split
  · exact_mod_cast Nat.mod_le _ _
  · have := Nat.mod_lt i (show 0 < 2 ^ 32 by decide)
    omega

theorem place_standing (r : ParseResult) (j : ℕ) (u : Value) : (standing r j u).i = j := by
  cases u <;> rfl

section

variable {vs : List Value} (h : Laid r.row j (treeOf (.arr vs)))

include h

theorem nth_of_le {i : ℕ} (hi : (vs.length : ℤ) ≤ toInt i) :
    (standing r j (.arr vs)).nth i = .ok none := by
  obtain ⟨⟨t, ht, htype, hsize⟩, -⟩ := array_laid h
  unfold ObjectImpl.nth
  rw [ht, fault_ok_bind, if_pos htype, hsize, if_pos hi]
  rfl

theorem nth_of_not_le {i : ℕ} (hi : ¬(vs.length : ℤ) ≤ toInt i) :
    (standing r j (.arr vs)).nth i
      = (inArray (steps (Token.next r.tokens) (toInt i).toNat (j + 1))
          >>= fun tokptr => (ObjectImpl.new r tokptr).map some) := by
  obtain ⟨⟨t, ht, htype, hsize⟩, -⟩ := array_laid h
  unfold ObjectImpl.nth
  rw [ht, fault_ok_bind, if_pos htype, hsize, if_neg hi]
  rfl

/-- As many steps as `int(i)` says, if there are as many elements. -/
theorem nth_of_placed {i : ℕ} (hi : ¬(vs.length : ℤ) ≤ toInt i) {c : ℕ × Value}
    (hc : (placed treeOf (j + 1) vs)[(toInt i).toNat]? = some c) :
    (standing r j (.arr vs)).nth i = .ok (some (standing r c.1 c.2)) := by
  obtain ⟨-, hall, -, hle⟩ := array_laid h
  have hsteps := steps_placed hall (show _ ≤ r.tokens.length by omega) hc
  rw [counts_row] at hsteps
  rw [nth_of_not_le h hi]
  show (inArray (steps (skip _ _) _ _) >>= _) = _
  rw [hsteps, inArray_some_bind, new_laid (hall.of_mem (List.mem_of_getElem? hc))]
  rfl

/-- Without elements nothing is found by `int(i)` steps, but something is read. -/
theorem nth_ne_none {i : ℕ} (hi : ¬(vs.length : ℤ) ≤ toInt i) :
    (standing r j (.arr vs)).nth i ≠ .ok none := by
  rw [nth_of_not_le h hi]
  cases steps (Token.next r.tokens) (toInt i).toNat (j + 1) with
  | none => exact nofun
  | some tokptr =>
      rw [inArray_some_bind]
      cases ObjectImpl.new r tokptr with
      | error e => exact nofun
      | ok o => exact nofun

end

/-- Different elements have different places. -/
theorem placed_inj {vs : List Value} {n n' : ℕ} {c c' : ℕ × Value}
    (hc : (placed treeOf j vs)[n]? = some c) (hc' : (placed treeOf j vs)[n']? = some c')
    (heq : c.1 = c'.1) : n = n' := by
  have hpair := List.pairwise_iff_getElem.mp (@pairwise_placed _ _ treeOf j vs)
  obtain ⟨hlt, hget⟩ := List.getElem?_eq_some_iff.mp hc
  obtain ⟨hlt', hget'⟩ := List.getElem?_eq_some_iff.mp hc'
  rcases Nat.lt_trichotomy n n' with hn | hn | hn
  · have := hpair n n' hlt hlt' hn
    rw [hget, hget'] at this
    omega
  · exact hn
  · have := hpair n' n hlt' hlt hn
    rw [hget, hget'] at this
    omega

theorem exists_placed (j : ℕ) {vs : List Value} {n : ℕ} (hn : n < vs.length) :
    ∃ c, (placed treeOf j vs)[n]? = some c := by
  rw [← @length_placed _ _ treeOf j vs] at hn
  exact ⟨_, List.getElem?_eq_getElem hn⟩

theorem placed_eq_none (j : ℕ) {vs : List Value} {n : ℕ} (hn : vs.length ≤ n) :
    (placed treeOf j vs)[n]? = none := by
  rw [← @length_placed _ _ treeOf j vs] at hn
  exact List.getElem?_eq_none hn

theorem nth_arr_iff {vs : List Value} (h : Laid r.row j (treeOf (.arr vs))) (i : ℕ) :
    (standing r j (.arr vs)).nth i
        = .ok ((placed treeOf (j + 1) vs)[i]?.map (fun c => standing r c.1 c.2))
      ↔ toInt i = i ∨ vs.length ≤ toInt i := by
  have hle := toInt_le i
  by_cases hi : (vs.length : ℤ) ≤ toInt i
  · rw [nth_of_le h hi, placed_eq_none _ (by omega)]
    exact iff_of_true rfl (.inr hi)
  · constructor
    · intro heq
      refine .inl ?_
      by_cases hn : (toInt i).toNat < vs.length
      · -- the element at `i` has the place of the element at `int(i)`
        obtain ⟨c, hc⟩ := exists_placed (j + 1) hn
        rw [nth_of_placed h hi hc] at heq
        obtain ⟨c', hc', heq⟩ := Option.map_eq_some_iff.mp (Except.ok.inj heq).symm
        have hplace := congrArg ObjectImpl.i heq
        rw [place_standing, place_standing] at hplace
        have hsame := placed_inj hc hc' hplace.symm
        by_cases hneg : toInt i < 0
        · have hzero : i = 0 := by omega
          rw [hzero]
          rfl
        · omega
      · refine absurd ?_ (nth_ne_none h hi)
        rw [heq, placed_eq_none _ (by omega)]
        rfl
    · rintro (heq | hge)
      · have hsame : (toInt i).toNat = i := by omega
        obtain ⟨c, hc⟩ := exists_placed (j + 1) (show i < vs.length by omega)
        rw [hc]
        rw [← hsame] at hc
        exact nth_of_placed h hi hc
      · exact absurd hge hi

/-- **HEADLINE**: `operator[]` finds the element at a position exactly if the
    position is an `int`, or still too large when it is made one. -/
theorem nth_iff {u : Value} (h : Laid r.row j (treeOf u)) (i : ℕ) :
    (standing r j u).nth i = (childNth j i u).map (Option.map (fun c => standing r c.1 c.2))
      ↔ ∀ vs, u = .arr vs → toInt i = i ∨ vs.length ≤ toInt i := by
  cases u with
  | arr vs =>
      constructor
      · intro heq vs' hvs
        cases hvs
        exact (nth_arr_iff h i).mp heq
      · intro hcond
        exact (nth_arr_iff h i).mpr (hcond vs rfl)
  | _ =>
      obtain ⟨t, ht, htype, -⟩ := token_standing rfl h
      unfold ObjectImpl.nth
      rw [ht, fault_ok_bind, htype, if_neg (by decide)]
      refine iff_of_true rfl ?_
      intro vs hu
      exact nomatch hu

/-! ## Every value of a token array -/

theorem navigates_iff_of_laid {u : Value} (h : Laid r.row j (treeOf u)) (i : ℕ) :
    Navigates r u j i ↔ ∀ vs, u = .arr vs → toInt i = i ∨ vs.length ≤ toInt i := by
  constructor
  · intro hnav
    exact (nth_iff h i).mp hnav.nth
  · intro hcond
    exact {
      next := next_laid h
      le := by
        have := h.le
        rwa [length_row] at this
      new := new_laid h
      size := size_laid h
      keys := keys_laid h
      has := has_laid h
      get := get_laid h
      nth := (nth_iff h i).mpr hcond
      elements := elements_laid h }

end

/-! ## What `try_parse` gives -/

/-- An object holds the tokens of a whole run. -/
theorem parseRegion_object {s s' : Impl} {r : ParseResult} (hbase : s.base = .init)
    (hr : s.parseRegion = (.object r, s')) :
    ∃ n q, Parser.init.run s.region = (.count (n + 1), q)
      ∧ r = ⟨s.region.take q.pos, q.tokens⟩ := by
  have hw : s.base.Within s.region := by
    rw [hbase]
    exact Parser.within_init _
  obtain ⟨num, htok⟩ := @tokenize_eq s (s.region.length + 1) hw (by omega)
  rw [hbase] at htok
  unfold Impl.parseRegion at hr
  split at hr
  · exact nomatch hr
  · rw [htok] at hr
    generalize hrun : Parser.init.run s.region = result at hr
    obtain ⟨st, q⟩ := result
    cases st with
    | count n =>
        cases n with
        | zero =>
            simp only at hr
            split at hr <;> exact nomatch hr
        | succ n =>
            refine ⟨n, q, rfl, ?_⟩
            obtain ⟨hobj, -⟩ := Prod.mk.inj hr
            exact (Tried.object.inj hobj).symm
    | nomem => exact nomatch hr
    | inval => exact nomatch hr
    | part =>
        simp only at hr
        split at hr <;> exact nomatch hr

theorem scanPrimitive_pending {text : List UInt8} (h : ∀ c ∈ text, c ∈ primBytes) :
    scanPrimitive text = .error .part := by
  induction text with
  | nil => rfl
  | cons c cs ih =>
      obtain ⟨h₀, hd, hr⟩ := primBytes_spec c (h c List.mem_cons_self)
      rw [scanPrimitive, if_neg h₀, if_neg (by rw [hd]; exact Bool.false_ne_true), if_neg hr,
        ih (fun c' hc' => h c' (List.mem_cons_of_mem _ hc'))]
      rfl

/-- A primitive with nothing after it may be incomplete. -/
theorem run_pending (lead : Ws) (x : Prim) :
    (Parser.init.run (lead.text ++ x.text)).1 = .part := by
  obtain ⟨c, cs, htext, hstart⟩ := x.text_start
  obtain ⟨hsym, h₀⟩ := symbol_primStarts c hstart
  generalize hjs : lead.text ++ x.text = js
  have hlead : js.drop Parser.init.pos = lead.text ++ x.text := hjs.symm
  have hprim : js.drop (Parser.init.pos + lead.text.length) = c :: cs := by
    rw [drop_add_length hlead, htext]
  rw [run_ws lead hlead, run_error (e := .part) (getElem?_of_drop hprim).1 h₀]
  unfold Parser.step
  rw [hsym]
  simp only [Parser.refusesPrimitive, Parser.init, Option.bind_none, Bool.false_eq_true, if_false]
  rw [show js.drop (0 + lead.text.length) = x.text from drop_add_length hlead,
    scanPrimitive_pending x.text_mem]

/-- **HEADLINE**: what `jsmn` makes of a JSON text is the tree of its value in a
    row, and nothing more. -/
theorem row_eq {s s' : Impl} {r : ParseResult} {lead trail : Ws} {v : Syn} (hbase : s.base = .init)
    (hregion : s.region = lead.text ++ v.text ++ trail.text)
    (hr : s.parseRegion = (.object r, s')) : r.row = (treeOf v.value).row := by
  obtain ⟨n, q, hrun, rfl⟩ := parseRegion_object hbase hr
  rw [hregion] at hrun ⊢
  by_cases hv : v.isPrim → trail.text ≠ []
  · obtain ⟨n', q', hrun', hpos, -, hlaid⟩ := lays_datum lead v trail hv
    cases hrun.symm.trans hrun'
    rw [hpos, List.take_length]
    exact hlaid
  · obtain ⟨hprim, htrail⟩ := Classical.not_imp.mp hv
    rw [not_not.mp htrail, List.append_nil] at hrun
    cases v with
    | prim x =>
        have hpart := run_pending lead x
        rw [Syn.text] at hrun
        rw [hrun] at hpart
        cases hpart
    | _ => exact absurd hprim Bool.false_ne_true

/-- **HEADLINE**: in the tokens of any JSON text of less than `2 ^ 31` bytes, at any
    value of it, `next` goes exactly past the value and every accessor comes to its
    children in order and to no other token; `operator[]` does so exactly for the positions
    that stay what they are as an `int`, and those that still are too large then. -/
theorem navigates_iff {s s' : Impl} {r : ParseResult} {lead trail : Ws} {v : Syn}
    (hbase : s.base = .init) (hregion : s.region = lead.text ++ v.text ++ trail.text)
    (hr : s.parseRegion = (.object r, s')) {u : Value} {j : ℕ} (hu : Sits v.value 0 u j) (i : ℕ) :
    Navigates r u j i ↔ ∀ vs, u = .arr vs → toInt i = i ∨ vs.length ≤ toInt i := by
  refine navigates_iff_of_laid (laid_of_sits ?_ hu) i
  rw [row_eq hbase hregion hr]
  exact Laid.self _

/-- A buffer with a text in it that is to be parsed. -/
def loaded (text : List UInt8) : Impl := { Impl.init with buffer := text, endIdx := text.length }

/-- The first of the sample values, between spaces. -/
def sampleResult : ParseResult where
  origString := [32, 123, 32, 34, 97, 92, 34, 34, 58, 32, 91, 110, 117, 108, 108, 32, 44, 32, 91, 93,
    93, 125, 32]
  tokens := [⟨.object, 1, some 22, 1, none⟩, ⟨.string, 4, some 7, 1, some 0⟩,
    ⟨.array, 10, some 21, 2, some 1⟩, ⟨.primitive, 11, some 15, 0, some 2⟩,
    ⟨.array, 18, some 20, 0, some 2⟩]

/-- The array in the object has its second element at the last token. -/
theorem navigates_iff_sampleResult :
    (loaded sampleResult.origString).parseRegion.1 = .object sampleResult
      ∧ Navigates sampleResult (.arr [.prim (ascii ['n', 'u', 'l', 'l']), .arr []]) 2 1
      ∧ ¬Navigates sampleResult (.arr [.prim (ascii ['n', 'u', 'l', 'l']), .arr []]) 2 (2 ^ 32) := by
  have hparse : (loaded sampleResult.origString).parseRegion.1 = .object sampleResult := by decide
  have hr : (loaded sampleResult.origString).parseRegion
      = (.object sampleResult, (loaded sampleResult.origString).parseRegion.2) := by
    rw [← hparse]
  have hu : Sits (Syn.obj (.one sampleSpace [.plain _ sample_plain, .escape _ sample_escape]
      sampleNone sampleSpace (.arr (.more sampleNone (.prim .null) sampleSpace
        (.one sampleSpace (.emptyArr sampleNone) sampleNone))) sampleNone)).value 0
      (.arr [.prim (ascii ['n', 'u', 'l', 'l']), .arr []]) 2 :=
    .member List.mem_cons_self (.self _ _)
  have hiff := @navigates_iff _ _ _ sampleSpace sampleSpace _ rfl rfl hr _ _ hu
  refine ⟨hparse, (hiff 1).mpr ?_, ?_⟩
  · intro vs _
    exact .inl (by decide)
  · intro hnav
    rcases (hiff (2 ^ 32)).mp hnav _ rfl with h | h
    · exact absurd h (by decide)
    · exact absurd h (by decide)

/-- `[]`. -/
def bracketsResult : ParseResult :=
  ⟨(Syn.emptyArr sampleNone).text, [⟨.array, 0, some 2, 0, none⟩]⟩

/-- In `[]` the position `2 ^ 31` is read at the token after the array, and there
    is none. -/
theorem nth_outside :
    (loaded (Syn.emptyArr sampleNone).text).parseRegion.1 = .object bracketsResult
      ∧ Sits (Syn.emptyArr sampleNone).value 0 (.arr []) 0
      ∧ (standing bracketsResult 0 (.arr [])).nth (2 ^ 31) = .error .outside
      ∧ ¬Navigates bracketsResult (.arr []) 0 (2 ^ 31) := by
  have hnth : (standing bracketsResult 0 (.arr [])).nth (2 ^ 31) = .error .outside := by decide
  refine ⟨by decide, .self _ _, hnth, ?_⟩
  intro hnav
  have hok := hnav.nth
  rw [hnth] at hok
  exact nomatch hok

/-- **HEADLINE**: the same holds of every object of a stream, however the stream
    is cut into pieces. -/
theorem feedPieces_navigates {lead : Ws} {items : List Item} (h : Spaced items)
    {pieces : List (List UInt8)} (hcut : pieces.flatten = streamText lead items) {n : ℕ}
    {r : ParseResult} (hr : (Impl.init.feedPieces pieces).1[n]? = some r) :
    ∃ v, (delivered items)[n]? = some v ∧ ∀ {u : Value} {j : ℕ}, Sits v 0 u j → ∀ i,
      (Navigates r u j i ↔ ∀ vs, u = .arr vs → toInt i = i ∨ vs.length ≤ toInt i) := by
  obtain ⟨rs, hfeed, -, hrows⟩ := feedPieces_rows h hcut
  rw [hfeed] at hr
  have hrow := congrArg (fun l : List _ => l[n]?) hrows
  simp only [List.getElem?_map, hr, Option.map_some] at hrow
  obtain ⟨v, hv, hvrow⟩ := Option.map_eq_some_iff.mp hrow.symm
  refine ⟨v, hv, ?_⟩
  intro u j hu i
  refine navigates_iff_of_laid (laid_of_sits ?_ hu) i
  rw [← hvrow]
  exact Laid.self _

end Jsmn
