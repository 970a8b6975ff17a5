import Clboss.JsmnValueProofs
import Clboss.JsmnObjectProofs

/-! # `Jsmn::Object` — the accessors on the tokens

    An object is a parse result and the place of a token in it.  Whatever the
    accessors do, they start at that token and step over whole subtrees with
    `Token::next`; here they do so, and what they find are the places of the
    values that `Jsmn::Object` as a VALUE has there (`nth_value`, `get_value`).

    `nextToken` and `readValue` count down some fuel.  Any amount from the number
    of tokens on is the same (`nextToken_fuel`, `readValue_fuel`). -/

namespace Jsmn

open Json

/-! ## Fuel -/

theorem length_iterate_le {g : List Token → List Token} (hg : ∀ ts, (g ts).length ≤ ts.length)
    (n : Nat) (ts : List Token) : (g^[n] ts).length ≤ ts.length := by
  induction n generalizing ts with
  | zero => exact Nat.le_refl _
  | succ n ih =>
      rw [Function.iterate_succ_apply]
      exact Nat.le_trans (ih (g ts)) (hg ts)

theorem length_nextToken (fuel : Nat) (ts : List Token) :
    (nextToken fuel ts).length ≤ ts.length := by
  induction fuel generalizing ts with
  | zero => exact Nat.le_refl _
  | succ fuel ih =>
      cases ts with
      | nil => exact Nat.le_refl _
      | cons t ts => exact Nat.le_trans (length_iterate_le ih t.size ts) (Nat.le_succ _)

/-- Steps that agree on short lists agree when repeated. -/
theorem iterate_congr {g g' : List Token → List Token} {k : Nat}
    (hg : ∀ ts, (g ts).length ≤ ts.length) (h : ∀ ts, ts.length ≤ k → g ts = g' ts) (n : Nat)
    {ts : List Token} (hk : ts.length ≤ k) : g^[n] ts = g'^[n] ts := by
  induction n generalizing ts with
  | zero => rfl
  | succ n ih =>
      rw [Function.iterate_succ_apply, Function.iterate_succ_apply, ← h ts hk]
      exact ih (Nat.le_trans (hg ts) hk)

theorem nextToken_fuel {fuel fuel' : Nat} {ts : List Token} (h : ts.length ≤ fuel)
    (h' : ts.length ≤ fuel') : nextToken fuel ts = nextToken fuel' ts := by
  induction fuel generalizing fuel' ts with
  | zero =>
      cases List.length_eq_zero_iff.mp (Nat.le_zero.mp h)
      cases fuel' <;> rfl
  | succ fuel ih =>
      cases ts with
      | nil => cases fuel' <;> rfl
      | cons t ts =>
          cases fuel' with
          | zero => exact absurd h' (Nat.not_succ_le_zero _)
          | succ fuel' =>
              have hts : ts.length ≤ min fuel fuel' :=
                Nat.le_min.mpr ⟨Nat.le_of_succ_le_succ h, Nat.le_of_succ_le_succ h'⟩
              exact iterate_congr (length_nextToken fuel)
                (fun us hus => ih (Nat.le_trans hus (Nat.min_le_left _ _))
                  (Nat.le_trans hus (Nat.min_le_right _ _))) t.size hts

theorem readElements_congr {f f' : List Token → Option Value} {g g' : List Token → List Token}
    {k : Nat} (hg : ∀ ts, (g ts).length ≤ ts.length) (hf : ∀ ts, ts.length ≤ k → f ts = f' ts)
    (h : ∀ ts, ts.length ≤ k → g ts = g' ts) (n : Nat) {ts : List Token} (hk : ts.length ≤ k) :
    readElements f g n ts = readElements f' g' n ts := by
  induction n generalizing ts with
  | zero => rfl
  | succ n ih =>
      unfold readElements
      rw [← hf ts hk, ← h ts hk, ih (Nat.le_trans (hg ts) hk)]

theorem readMembers_congr {text : List UInt8} {f f' : List Token → Option Value}
    {g g' : List Token → List Token} {k : Nat} (hg : ∀ ts, (g ts).length ≤ ts.length)
    (hf : ∀ ts, ts.length ≤ k → f ts = f' ts) (h : ∀ ts, ts.length ≤ k → g ts = g' ts) (n : Nat)
    {ts : List Token} (hk : ts.length ≤ k) :
    readMembers text f g n ts = readMembers text f' g' n ts := by
  induction n generalizing ts with
  | zero => rfl
  | succ n ih =>
      cases ts with
      | nil => rfl
      | cons t ts =>
          have hts : ts.length ≤ k := Nat.le_trans (Nat.le_succ _) hk
          unfold readMembers
          rw [← hf ts hts, ← h ts hts, ih (Nat.le_trans (hg ts) hts)]

theorem readValue_fuel {text : List UInt8} {fuel fuel' : Nat} {ts : List Token}
    (h : ts.length ≤ fuel) (h' : ts.length ≤ fuel') :
    readValue text fuel ts = readValue text fuel' ts := by
  induction fuel generalizing fuel' ts with
  | zero =>
      cases List.length_eq_zero_iff.mp (Nat.le_zero.mp h)
      cases fuel' <;> rfl
  | succ fuel ih =>
      cases ts with
      | nil => cases fuel' <;> rfl
      | cons t ts =>
          cases fuel' with
          | zero => exact absurd h' (Nat.not_succ_le_zero _)
          | succ fuel' =>
              have hts : ts.length ≤ min fuel fuel' :=
                Nat.le_min.mpr ⟨Nat.le_of_succ_le_succ h, Nat.le_of_succ_le_succ h'⟩
              have hnext : ∀ us : List Token, us.length ≤ min fuel fuel' →
                  nextToken fuel us = nextToken fuel' us := fun us hus =>
                nextToken_fuel (Nat.le_trans hus (Nat.min_le_left _ _))
                  (Nat.le_trans hus (Nat.min_le_right _ _))
              have hvalue : ∀ us : List Token, us.length ≤ min fuel fuel' →
                  readValue text fuel us = readValue text fuel' us := fun us hus =>
                ih (Nat.le_trans hus (Nat.min_le_left _ _))
                  (Nat.le_trans hus (Nat.min_le_right _ _))
              unfold readValue
              rw [readElements_congr (length_nextToken fuel) hvalue hnext t.size hts,
                readMembers_congr (length_nextToken fuel) hvalue hnext t.size hts]

/-- `Token::next`. -/
def next (ts : List Token) : List Token := nextToken ts.length ts

/-- The value at the first token. -/
def valueAt (text : List UInt8) (ts : List Token) : Option Value := readValue text ts.length ts

/-- The value at a token, from what is below it. -/
theorem valueAt_cons (text : List UInt8) (t : Token) (ts : List Token) :
    valueAt text (t :: ts) = match t.type with
      | .primitive => some (.prim (slice text t))
      | .string    => some (.str (slice text t))
      | .array     => (readElements (valueAt text) next t.size ts).map .arr
      | .object    => (readMembers text (valueAt text) next t.size ts).map .obj := by
  have hnext : ∀ us : List Token, us.length ≤ ts.length → nextToken ts.length us = next us :=
    fun us hus => nextToken_fuel hus (Nat.le_refl _)
  have hvalue : ∀ us : List Token, us.length ≤ ts.length →
      readValue text ts.length us = valueAt text us :=
    fun us hus => readValue_fuel hus (Nat.le_refl _)
  unfold valueAt
  rw [List.length_cons, readValue,
    readElements_congr (length_nextToken _) hvalue hnext t.size (Nat.le_refl _),
    readMembers_congr (length_nextToken _) hvalue hnext t.size (Nat.le_refl _)]
  rfl

/-! ## The accessors -/

/-- `int(i)`. -/
def toInt (i : ℕ) : ℤ := (BitVec.ofNat 32 i).toInt

/-- The cast changes nothing below `2 ^ 31`, and there only. -/
theorem toInt_eq_iff (i : ℕ) : toInt i = i ↔ i < 2 ^ 31 := by
  unfold toInt
  rw [BitVec.toInt_eq_toNat_cond, BitVec.toNat_ofNat]
  constructor
  · intro h
    split at h
    · omega
    · have := Nat.mod_lt i (show 0 < 2 ^ 32 by decide)
      omega
  · intro h
    rw [Nat.mod_eq_of_lt (by omega), if_pos (by omega)]

/-- `Object::Impl`: a text, and the tokens from a place on. -/
structure Place where
  text   : List UInt8
  tokens : List Token

/-- What an object stands for. -/
def Place.value (p : Place) : Option Value := valueAt p.text p.tokens

/-- `Jsmn::Object`, with its `pimpl`. -/
abbrev Handle := Option Place

namespace Handle

def type : Handle → Option TokenType
  | some ⟨_, t :: _⟩ => some t.type
  | _                => none

def firstChar : Handle → Option UInt8
  | some ⟨text, t :: _⟩ => text[t.start]?
  | _                   => none

/-- `is_null`. -/
def isNull (h : Handle) : Bool :=
  h.isNone || (h.type = some .primitive && h.firstChar = some 'n'.toUInt8)

/-- `is_boolean`. -/
def isBoolean (h : Handle) : Bool :=
  h.type = some .primitive && (h.firstChar = some 'f'.toUInt8 || h.firstChar = some 't'.toUInt8)

/-- `is_string`. -/
def isString (h : Handle) : Bool := h.type = some .string

/-- `is_object`. -/
def isObject (h : Handle) : Bool := h.type = some .object

/-- `is_array`. -/
def isArray (h : Handle) : Bool := h.type = some .array

/-- `is_number`. -/
def isNumber (h : Handle) : Bool :=
  h.type = some .primitive && (h.firstChar ≠ some 't'.toUInt8 && h.firstChar ≠ some 'f'.toUInt8
    && h.firstChar ≠ some 'n'.toUInt8)

/-- `operator bool`. -/
def bool (h : Handle) : Except Failure Bool :=
  if h.isNone then .ok false
  else if h.type ≠ some .primitive then .error .typeError
  else if h.firstChar = some 'n'.toUInt8 ∨ h.firstChar = some 'f'.toUInt8 then .ok false
  else if h.firstChar = some 't'.toUInt8 then .ok true
  else .error .typeError

/-- `direct_text`. -/
def directText : Handle → List UInt8
  | some ⟨text, t :: _⟩ => slice text t
  | _                   => ['n', 'u', 'l', 'l'].map Char.toUInt8

/-- `operator std::string`. -/
def str (h : Handle) : Except Failure (List UInt8) :=
  if h.type ≠ some .string then .error .typeError
  else match fromEscaped h.directText with
    | none   => .error .assertion
    | some s => .ok s

/-- `size`. -/
def size : Handle → Except Failure Nat
  | some ⟨_, t :: _⟩ =>
      if t.type = .array ∨ t.type = .object then .ok t.size else .error .typeError
  | _                => .error .typeError

/-- The loop of `keys`. -/
def keysFrom (text : List UInt8) : Nat → List Token → Except Failure (List (List UInt8))
  | 0, _           => .ok []
  | _ + 1, []      => .error .assertion
  | n + 1, k :: ts =>
      match fromEscaped (slice text k) with
      | none     => .error .assertion
      | some key => (keysFrom text n (next ts)).map (key :: ·)

/-- `keys`. -/
def keys : Handle → Except Failure (List (List UInt8))
  | some ⟨text, t :: ts⟩ =>
      if t.type = .object then keysFrom text t.size ts else .error .typeError
  | _                    => .error .typeError

/-- The loop of `operator[]` with a key. -/
def getFrom (text key : List UInt8) : Nat → List Token → Except Failure Handle
  | 0, _           => .ok none
  | _ + 1, []      => .error .assertion
  | n + 1, k :: ts =>
      match fromEscaped (slice text k) with
      | none      => .error .assertion
      | some name => if name = key then .ok (some ⟨text, ts⟩) else getFrom text key n (next ts)

/-- `operator[]` with a key. -/
def get (h : Handle) (key : List UInt8) : Except Failure Handle :=
  match h with
  | some ⟨text, t :: ts⟩ =>
      if t.type = .object then getFrom text key t.size ts else .error .typeError
  | _                    => .error .typeError

/-- `has`. -/
def has (h : Handle) (key : List UInt8) : Except Failure Bool := (h.get key).map Option.isSome

/-- `operator[]` with a position that was cast to an `int`.  No step is less than a negative
    one, so that it leads to what comes after the token. -/
def nthInt (h : Handle) (i : ℤ) : Except Failure Handle :=
  match h with
  | some ⟨text, t :: ts⟩ =>
      if t.type = .array then
        if (t.size : ℤ) ≤ i then .ok none else .ok (some ⟨text, next^[i.toNat] ts⟩)
      else .error .typeError
  | _                    => .error .typeError

/-- `operator[]` with a position. -/
def nth (h : Handle) (i : Nat) : Except Failure Handle := h.nthInt (toInt i)

end Handle

/-! ## Inversion

    What is there when a value is read. -/

theorem length_readElements {f : List Token → Option Value} {g : List Token → List Token} {n : Nat}
    {ts : List Token} {vs : List Value} (h : readElements f g n ts = some vs) : vs.length = n := by
  induction n generalizing ts vs with
  | zero =>
      cases h
      rfl
  | succ n ih =>
      obtain ⟨v, -, h⟩ := Option.bind_eq_some_iff.mp h
      obtain ⟨us, hus, rfl⟩ := Option.map_eq_some_iff.mp h
      rw [List.length_cons, ih hus]

/-- The elements stand one subtree after the other. -/
theorem readElements_getElem? {f : List Token → Option Value} {g : List Token → List Token}
    {n i : Nat} {ts : List Token} {vs : List Value} (h : readElements f g n ts = some vs)
    (hi : i < n) : f (g^[i] ts) = vs[i]? := by
  induction n generalizing i ts vs with
  | zero => exact absurd hi (Nat.not_lt_zero i)
  | succ n ih =>
      obtain ⟨v, hv, h⟩ := Option.bind_eq_some_iff.mp h
      obtain ⟨us, hus, rfl⟩ := Option.map_eq_some_iff.mp h
      cases i with
      | zero => exact hv
      | succ i =>
          rw [Function.iterate_succ_apply, List.getElem?_cons_succ]
          exact ih hus (Nat.lt_of_succ_lt_succ hi)

theorem length_readMembers {text : List UInt8} {f : List Token → Option Value}
    {g : List Token → List Token} {n : Nat} {ts : List Token} {ms : List (List UInt8 × Value)}
    (h : readMembers text f g n ts = some ms) : ms.length = n := by
  induction n generalizing ts ms with
  | zero =>
      cases h
      rfl
  | succ n ih =>
      cases ts with
      | nil => cases h
      | cons k ts =>
          obtain ⟨v, -, h⟩ := Option.bind_eq_some_iff.mp h
          obtain ⟨us, hus, rfl⟩ := Option.map_eq_some_iff.mp h
          rw [List.length_cons, ih hus]

theorem keysFrom_value {text : List UInt8} {n : Nat} {ts : List Token}
    {ms : List (List UInt8 × Value)} (h : readMembers text (valueAt text) next n ts = some ms) :
    Handle.keysFrom text n ts = match ms.mapM (fun m => fromEscaped m.1) with
      | none      => .error .assertion
      | some keys => .ok keys := by
  induction n generalizing ts ms with
  | zero =>
      cases h
      rfl
  | succ n ih =>
      cases ts with
      | nil => cases h
      | cons k ts =>
          obtain ⟨v, -, h⟩ := Option.bind_eq_some_iff.mp h
          obtain ⟨us, hus, rfl⟩ := Option.map_eq_some_iff.mp h
          rw [Handle.keysFrom, ih hus, List.mapM_cons]
          cases fromEscaped (slice text k) with
          | none => rfl
          | some key => cases us.mapM (fun m => fromEscaped m.1) <;> rfl

theorem getFrom_value {text key : List UInt8} {n : Nat} {ts : List Token}
    {ms : List (List UInt8 × Value)} (h : readMembers text (valueAt text) next n ts = some ms) :
    (Handle.getFrom text key n ts).map (Option.map Place.value)
      = (lookup key ms).map (Option.map some) := by
  induction n generalizing ts ms with
  | zero =>
      cases h
      rfl
  | succ n ih =>
      cases ts with
      | nil => cases h
      | cons k ts =>
          obtain ⟨v, hv, h⟩ := Option.bind_eq_some_iff.mp h
          obtain ⟨us, hus, rfl⟩ := Option.map_eq_some_iff.mp h
          rw [Handle.getFrom, lookup]
          cases fromEscaped (slice text k) with
          | none => rfl
          | some name =>
              by_cases hname : name = key
              · simp only [if_pos hname, Except.map, Option.map_some, Place.value, hv]
              · simpa only [if_neg hname] using ih hus

/-- What the tokens are when a value is read there. -/
def Stands (text : List UInt8) (t : Token) (ts : List Token) : Value → Prop
  | .prim raw => t.type = .primitive ∧ slice text t = raw
  | .str raw  => t.type = .string ∧ slice text t = raw
  | .arr vs   => t.type = .array ∧ readElements (valueAt text) next t.size ts = some vs
  | .obj ms   => t.type = .object ∧ readMembers text (valueAt text) next t.size ts = some ms

/-- **INVERSION**: a place with a value has a token of its kind. -/
theorem Place.exists_token {p : Place} {v : Value} (h : p.value = some v) :
    ∃ text t ts, p = ⟨text, t :: ts⟩ ∧ Stands text t ts v := by
  obtain ⟨text, ts⟩ := p
  cases ts with
  | nil => cases h
  | cons t ts =>
      refine ⟨text, t, ts, rfl, ?_⟩
      unfold Place.value at h
      rw [valueAt_cons] at h
      cases htype : t.type with
      | primitive =>
          rw [htype] at h
          cases h
          exact ⟨htype, rfl⟩
      | string =>
          rw [htype] at h
          cases h
          exact ⟨htype, rfl⟩
      | array =>
          rw [htype] at h
          obtain ⟨vs, hvs, rfl⟩ := Option.map_eq_some_iff.mp h
          exact ⟨htype, hvs⟩
      | object =>
          rw [htype] at h
          obtain ⟨ms, hms, rfl⟩ := Option.map_eq_some_iff.mp h
          exact ⟨htype, hms⟩

/-! ## The accessors find the value's parts -/

section

variable {p : Place} {v : Value}

/-- **HEADLINE**: a position leads to the place of the element there. -/
theorem nthInt_value (h : p.value = some v) (i : Nat) :
    (Handle.nthInt (some p) i).map (Option.map Place.value)
      = (Object.nth (some v) i).map (Option.map some) := by
  obtain ⟨text, t, ts, rfl, hv⟩ := Place.exists_token h
  cases v with
  | prim raw => simp only [Handle.nthInt, Object.nth, hv.1, reduceCtorEq, if_false, Except.map]
  | str raw => simp only [Handle.nthInt, Object.nth, hv.1, reduceCtorEq, if_false, Except.map]
  | obj ms => simp only [Handle.nthInt, Object.nth, hv.1, reduceCtorEq, if_false, Except.map]
  | arr vs =>
      obtain ⟨htype, hvs⟩ := hv
      have hlen := length_readElements hvs
      simp only [Handle.nthInt, Object.nth, htype, if_true, Int.ofNat_le, Int.toNat_natCast]
      split
      · rename_i hi
        rw [List.getElem?_eq_none (by rw [hlen]; exact hi)]
        rfl
      · rename_i hi
        have hget := readElements_getElem? hvs (Nat.lt_of_not_le hi)
        simp only [Except.map, Option.map_some, Place.value, hget]
        rw [List.getElem?_eq_getElem (by omega)]
        rfl

/-- And so it does for whoever does not cast it to another one. -/
theorem nth_value (h : p.value = some v) {i : Nat} (hi : i < 2 ^ 31) :
    (Handle.nth (some p) i).map (Option.map Place.value)
      = (Object.nth (some v) i).map (Option.map some) := by
  unfold Handle.nth
  rw [(toInt_eq_iff i).mpr hi]
  exact nthInt_value h i

/-- **HEADLINE**: a key leads to the place of the first value under it. -/
theorem get_value (h : p.value = some v) (key : List UInt8) :
    (Handle.get (some p) key).map (Option.map Place.value)
      = (Object.get (some v) key).map (Option.map some) := by
  obtain ⟨text, t, ts, rfl, hv⟩ := Place.exists_token h
  cases v with
  | prim raw => simp only [Handle.get, Object.get, hv.1, reduceCtorEq, if_false, Except.map]
  | str raw => simp only [Handle.get, Object.get, hv.1, reduceCtorEq, if_false, Except.map]
  | arr vs => simp only [Handle.get, Object.get, hv.1, reduceCtorEq, if_false, Except.map]
  | obj ms => simpa only [Handle.get, Object.get, hv.1, if_true] using getFrom_value hv.2

theorem keys_value (h : p.value = some v) : Handle.keys (some p) = Object.keys (some v) := by
  obtain ⟨text, t, ts, rfl, hv⟩ := Place.exists_token h
  cases v with
  | prim raw => simp only [Handle.keys, Object.keys, hv.1, reduceCtorEq, if_false]
  | str raw => simp only [Handle.keys, Object.keys, hv.1, reduceCtorEq, if_false]
  | arr vs => simp only [Handle.keys, Object.keys, hv.1, reduceCtorEq, if_false]
  | obj ms =>
      show (if t.type = .object then Handle.keysFrom text t.size ts
        else Except.error Failure.typeError) = _
      rw [if_pos hv.1]
      exact keysFrom_value hv.2

theorem size_value (h : p.value = some v) : Handle.size (some p) = Object.size (some v) := by
  obtain ⟨text, t, ts, rfl, hv⟩ := Place.exists_token h
  cases v with
  | prim raw => simp [Handle.size, Object.size, hv.1]
  | str raw => simp [Handle.size, Object.size, hv.1]
  | arr vs => simp [Handle.size, Object.size, hv.1, length_readElements hv.2]
  | obj ms => simp [Handle.size, Object.size, hv.1, length_readMembers hv.2]

theorem str_value (h : p.value = some v) : Handle.str (some p) = Object.str (some v) := by
  obtain ⟨text, t, ts, rfl, hv⟩ := Place.exists_token h
  cases v with
  | prim raw => simp [Handle.str, Object.str, Handle.type, hv.1]
  | str raw =>
      obtain ⟨htype, rfl⟩ := hv
      simp only [Handle.str, Object.str, Handle.type, htype, ne_eq, not_true_eq_false, if_false]
      rfl
  | arr vs => simp [Handle.str, Object.str, Handle.type, hv.1]
  | obj ms => simp [Handle.str, Object.str, Handle.type, hv.1]

/-- What has no parts has its text. -/
theorem directText_value (h : p.value = some v) {raw : List UInt8}
    (hraw : Object.directText (some v) = some raw) : Handle.directText (some p) = raw := by
  obtain ⟨text, t, ts, rfl, hv⟩ := Place.exists_token h
  cases v with
  | prim raw' =>
      cases hraw
      exact hv.2
  | str raw' =>
      cases hraw
      exact hv.2
  | arr vs => cases hraw
  | obj ms => cases hraw

/-! ## The tests of the type -/

/-- The type of a value's token. -/
def tokenType : Value → TokenType
  | .prim _ => .primitive
  | .str _  => .string
  | .arr _  => .array
  | .obj _  => .object

theorem type_value (h : p.value = some v) : Handle.type (some p) = some (tokenType v) := by
  obtain ⟨text, t, ts, rfl, hv⟩ := Place.exists_token h
  cases v <;> exact congrArg some hv.1

theorem firstChar_value {raw : List UInt8} (h : p.value = some (.prim raw)) (hraw : raw ≠ []) :
    Handle.firstChar (some p) = raw.head? := by
  obtain ⟨text, t, ts, rfl, -, rfl⟩ := Place.exists_token h
  show text[t.start]? = _
  unfold slice at hraw ⊢
  generalize t.stop.getD 0 - t.start = n at hraw ⊢
  cases n with
  | zero => exact absurd rfl hraw
  | succ n =>
      rw [List.head?_eq_getElem?, List.getElem?_take_of_lt (Nat.succ_pos n), List.getElem?_drop,
        Nat.add_zero]

theorem isString_value (h : p.value = some v) :
    Handle.isString (some p) = Object.isString (some v) := by
  unfold Handle.isString
  rw [type_value h]
  cases v <;> rfl

theorem isArray_value (h : p.value = some v) :
    Handle.isArray (some p) = Object.isArray (some v) := by
  unfold Handle.isArray
  rw [type_value h]
  cases v <;> rfl

theorem isObject_value (h : p.value = some v) :
    Handle.isObject (some p) = Object.isObject (some v) := by
  unfold Handle.isObject
  rw [type_value h]
  cases v <;> rfl

theorem isNull_value (h : p.value = some v) (hv : v ≠ .prim []) :
    Handle.isNull (some p) = Object.isNull (some v) := by
  unfold Handle.isNull
  rw [type_value h]
  cases v with
  | prim raw =>
      rw [firstChar_value h (fun hraw => hv (congrArg _ hraw))]
      rfl
  | _ => rfl

theorem isBoolean_value (h : p.value = some v) (hv : v ≠ .prim []) :
    Handle.isBoolean (some p) = Object.isBoolean (some v) := by
  unfold Handle.isBoolean
  rw [type_value h]
  cases v with
  | prim raw =>
      rw [firstChar_value h (fun hraw => hv (congrArg _ hraw))]
      simp [Object.isBoolean, tokenType, Bool.or_comm]
  | _ => rfl

theorem isNumber_value (h : p.value = some v) (hv : v ≠ .prim []) :
    Handle.isNumber (some p) = Object.isNumber (some v) := by
  unfold Handle.isNumber
  rw [type_value h]
  cases v with
  | prim raw =>
      rw [firstChar_value h (fun hraw => hv (congrArg _ hraw))]
      simp [Object.isNumber, tokenType, Bool.and_assoc]
  | _ => rfl

theorem bool_value (h : p.value = some v) (hv : v ≠ .prim []) :
    Handle.bool (some p) = Object.bool (some v) := by
  unfold Handle.bool
  rw [type_value h]
  cases v with
  | prim raw =>
      rw [firstChar_value h (fun hraw => hv (congrArg _ hraw))]
      rfl
  | _ => rfl

end

end Jsmn
