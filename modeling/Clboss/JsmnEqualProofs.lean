import Clboss.DecimalProofs
import Clboss.DoubleProofs
import Clboss.JsonRoundTripProofs
import Mathlib.Data.List.Forall2
import Mathlib.Data.List.Perm.Subperm

/-! # `Jsmn::Object` — what `operator==` compares

    The operator walks two rows of tokens at once, the left one in full and the right one
    as far as the left one leads.  What it finds out is a relation of the VALUES there,
    `Same` (`equals_iff`): of an object every key of the left one is looked up on both
    sides, and of the right one only the size is asked.

    So the relation is transitive, and reflexive where it holds at all.  It has a
    direction where a key is repeated: the left object then shows fewer keys than its
    size says and the right one may have others.  Without repeated keys it is
    symmetric (`Same.symm`) and the order of keys does not matter (`Same.of_reordered`). -/

namespace Double

/-- `operator==`: a `nan` equals nothing. -/
def eq (x y : Double) : Bool := decide (x ≠ .nan) && decide (x = y)

/-- `std::numeric_limits<double>::max()`. -/
def largest : ℚ := (2 ^ 53 - 1) * 2 ^ 971

/-- What a stream makes of a number that is too large. -/
def clamp : Double → Double
  | .posInf => .finite largest
  | .negInf => .finite (-largest)
  | x       => x

theorem eq_iff {x y : Double} (h : x ≠ .nan) : x.eq y = true ↔ x = y := by
  rw [eq, decide_eq_true h, Bool.true_and, decide_eq_true_eq]

theorem clamp_ofRat_ne_nan (q : ℚ) : (ofRat q).clamp ≠ .nan := by
  unfold ofRat
  split
  · nofun
  · split
    · nofun
    · nofun

end Double

namespace Jsmn

open Json Decimals

/-! ## `to_double` -/

/-- The sign in front of a number. -/
def takeSign : List UInt8 → Bool × List UInt8
  | []      => (false, [])
  | c :: cs =>
      if c = '-'.toUInt8 then (true, cs)
      else if c = '+'.toUInt8 then (false, cs)
      else (false, c :: cs)

/-- The digits after a decimal point. -/
def takeFraction : List UInt8 → List UInt8 × List UInt8
  | []      => ([], [])
  | c :: cs => if c = '.'.toUInt8 then cs.span isDigit else ([], c :: cs)

/-- The exponent; `none` where the digits of one are missing. -/
def takeExponent : List UInt8 → Option ℤ
  | []      => some 0
  | c :: cs =>
      if c = 'e'.toUInt8 ∨ c = 'E'.toUInt8 then
        let digits := (takeSign cs).2.takeWhile isDigit
        if digits.isEmpty then none
        else some (if (takeSign cs).1 then -value digits else value digits)
      else some 0

/-- `Detail::Str::to_double`: after any blanks as many characters as make up a number,
    and 0 if there is none. -/
def toDouble (text : List UInt8) : Double :=
  let s := text.dropWhile (fun c => c = ' '.toUInt8 ∨ 9 ≤ c ∧ c ≤ 13)
  let body := (takeSign s).2
  let int := body.takeWhile isDigit
  let fraction := takeFraction (body.dropWhile isDigit)
  if int.isEmpty && fraction.1.isEmpty then .finite 0
  else match takeExponent fraction.2 with
    | none   => .finite 0
    | some e =>
        let q : ℚ := value (int ++ fraction.1) * 10 ^ (e - fraction.1.length)
        (Double.ofRat (if (takeSign s).1 then -q else q)).clamp

/-- What is read from a text is a number. -/
theorem toDouble_ne_nan (s : List UInt8) : toDouble s ≠ .nan := by
  unfold toDouble
  dsimp only
  split
  · nofun
  · split
    · nofun
    · exact Double.clamp_ofRat_ne_nan _

/-! ## The operator -/

namespace Handle

/-- `operator double`. -/
def double (h : Handle) : Except Failure Double :=
  if h.type ≠ some .primitive then .error .typeError
  else if h.firstChar = some 'n'.toUInt8 ∨ h.firstChar = some 'f'.toUInt8
      ∨ h.firstChar = some 't'.toUInt8 then .error .typeError
  else .ok (toDouble h.directText)

/-- The tests that are compared first. -/
def flags (h : Handle) : List Bool :=
  [h.isNull, h.isBoolean, h.isString, h.isObject, h.isArray, h.isNumber]

/-- A loop that returns at the first `false`. -/
def allTrue {α : Type} (f : α → Except Failure Bool) : List α → Except Failure Bool
  | []      => .ok true
  | a :: as => do if ← f a then allTrue f as else return false

section Loops

variable (eq : Handle → Handle → Except Failure Bool) (h h' : Handle)

/-- Under one key. -/
def equalAt (key : List UInt8) : Except Failure Bool := do
  if ← h'.has key then eq (← h.get key) (← h'.get key) else return false

/-- The loop over the keys. -/
def equalMembers : Except Failure Bool := do
  if (← h.size) ≠ (← h'.size) then return false
  allTrue (equalAt eq h h') (← h.keys)

/-- At one position, which is below a size, and a size is an `int`. -/
def equalNth (i : ℕ) : Except Failure Bool := do eq (← h.nthInt i) (← h'.nthInt i)

/-- The loop over the positions. -/
def equalElements : Except Failure Bool := do
  if (← h.size) ≠ (← h'.size) then return false
  allTrue (equalNth eq h h') (List.range (← h.size))

end Loops

/-- `operator==` of two objects, to a depth. -/
def equalsFuel : ℕ → Handle → Handle → Except Failure Bool
  | 0, _, _         => .ok false
  | fuel + 1, h, h' =>
      if h.flags ≠ h'.flags then .ok false
      else if h.isNull then .ok true
      else if h.isBoolean then do return decide ((← h.bool) = (← h'.bool))
      else if h.isString then do return decide ((← h.str) = (← h'.str))
      else if h.isNumber then do return (← h.double).eq (← h'.double)
      else if h.isObject then equalMembers (equalsFuel fuel) h h'
      else if h.isArray then equalElements (equalsFuel fuel) h h'
      else .ok false

/-- `operator==`; `same` is `this == &other`.  What is below a token comes after it, so
    there are no more levels than tokens. -/
def equals (same : Bool) (h h' : Handle) : Except Failure Bool :=
  if same then .ok true else equalsFuel ((h.elim 0 fun p => p.tokens.length) + 1) h h'

end Handle

/-! ## What is compared

    Scalars by what they are read as, strings without their escapes, arrays by position
    and objects by the keys of the left one. -/

/-- What a literal or a number is read as. -/
inductive Scalar where
  | null
  | boolean (b : Bool)
  | number (x : Double)
deriving DecidableEq

def scalar (raw : List UInt8) : Scalar :=
  if raw.head? = some 'n'.toUInt8 then .null
  else if raw.head? = some 'f'.toUInt8 then .boolean false
  else if raw.head? = some 't'.toUInt8 then .boolean true
  else .number (toDouble raw)

theorem ne_nan_of_scalar {raw : List UInt8} {x : Double} (h : scalar raw = .number x) :
    x ≠ .nan := by
  unfold scalar at h
  split at h
  · cases h
  split at h
  · cases h
  split at h
  · cases h
  cases h
  exact toDouble_ne_nan raw

/-- The keys of an object, unescaped. -/
def Keys (ms : List (List UInt8 × Value)) (keys : List (List UInt8)) : Prop :=
  List.Forall₂ (fun m key => fromEscaped m.1 = some key) ms keys

/-- The left value equals the right one. -/
inductive Same : Value → Value → Prop
  | prim {raw raw' : List UInt8} (h : scalar raw = scalar raw') : Same (.prim raw) (.prim raw')
  | str {raw raw' s : List UInt8} (h : fromEscaped raw = some s) (h' : fromEscaped raw' = some s) :
      Same (.str raw) (.str raw')
  | arr {es es' : List Value} (hsize : es.length = es'.length)
      (h : ∀ (i : ℕ) (e e' : Value), es[i]? = some e → es'[i]? = some e' → Same e e') :
      Same (.arr es) (.arr es')
  | obj {ms ms' : List (List UInt8 × Value)} {keys : List (List UInt8)}
      (hsize : ms.length = ms'.length) (hkeys : Keys ms keys)
      (hfound : ∀ key ∈ keys, ∃ v', lookup key ms' = .ok (some v'))
      (h : ∀ key ∈ keys, ∀ v v', lookup key ms = .ok (some v) → lookup key ms' = .ok (some v') →
        Same v v') : Same (.obj ms) (.obj ms')

/-! ## Keys -/

section Keys

variable {ms : List (List UInt8 × Value)} {keys : List (List UInt8)} {key : List UInt8} {v : Value}

theorem keys_iff : Keys ms keys ↔ ms.mapM (fun m => fromEscaped m.1) = some keys := by
  induction ms generalizing keys with
  | nil =>
      constructor
      · rintro ⟨⟩
        rfl
      · rintro h
        cases h
        exact .nil
  | cons m ms ih =>
      rw [List.mapM_cons]
      constructor
      · rintro ⟨⟩
        rename_i key keys hkey hkeys
        rw [hkey, ih.mp hkeys]
        rfl
      · intro h
        obtain ⟨key, hkey, h⟩ := Option.bind_eq_some_iff.mp h
        obtain ⟨keys, hkeys, h⟩ := Option.bind_eq_some_iff.mp h
        cases h
        exact .cons hkey (ih.mpr hkeys)

/-- A key of the object leads somewhere. -/
theorem exists_lookup (hkeys : Keys ms keys) (h : key ∈ keys) :
    ∃ v, lookup key ms = .ok (some v) := by
  induction hkeys with
  | nil => exact absurd h List.not_mem_nil
  | @cons m name ms names hname _ ih =>
      rw [lookup, hname]
      by_cases heq : name = key
      · exact ⟨m.2, if_pos heq⟩
      · obtain ⟨v, hv⟩ := ih ((List.mem_cons.mp h).resolve_left (Ne.symm heq))
        exact ⟨v, (if_neg heq).trans hv⟩

/-- What is found is the value of a member with the key. -/
theorem mem_of_lookup (h : lookup key ms = .ok (some v)) :
    ∃ m ∈ ms, fromEscaped m.1 = some key ∧ m.2 = v := by
  induction ms with
  | nil => cases h
  | cons m ms ih =>
      rw [lookup] at h
      cases hname : fromEscaped m.1 with
      | none =>
          rw [hname] at h
          cases h
      | some name =>
          rw [hname] at h
          dsimp only at h
          by_cases heq : name = key
          · rw [if_pos heq] at h
            cases h
            exact ⟨m, List.mem_cons_self, heq ▸ hname, rfl⟩
          · rw [if_neg heq] at h
            obtain ⟨m', hm', hfound⟩ := ih h
            exact ⟨m', List.mem_cons_of_mem _ hm', hfound⟩

theorem mem_keys_of_mem {m : List UInt8 × Value} (hkeys : Keys ms keys) (hm : m ∈ ms)
    (h : fromEscaped m.1 = some key) : key ∈ keys := by
  induction hkeys with
  | nil => exact absurd hm List.not_mem_nil
  | cons hname _ ih =>
      rcases List.mem_cons.mp hm with rfl | hm
      · rw [hname] at h
        cases h
        exact List.mem_cons_self
      · exact List.mem_cons_of_mem _ (ih hm)

theorem mem_keys_of_lookup (hkeys : Keys ms keys) (h : lookup key ms = .ok (some v)) :
    key ∈ keys := by
  obtain ⟨m, hm, hname, -⟩ := mem_of_lookup h
  exact mem_keys_of_mem hkeys hm hname

/-- Where no key is repeated, a key leads to its member. -/
theorem lookup_of_mem {m : List UInt8 × Value} (hkeys : Keys ms keys) (hnodup : keys.Nodup)
    (hm : m ∈ ms) (h : fromEscaped m.1 = some key) : lookup key ms = .ok (some m.2) := by
  induction hkeys with
  | nil => exact absurd hm List.not_mem_nil
  | @cons m' name ms names hname hrest ih =>
      obtain ⟨hnot, hnodup⟩ := List.nodup_cons.mp hnodup
      rw [lookup, hname]
      rcases List.mem_cons.mp hm with rfl | hm
      · exact if_pos (Option.some.inj (hname.symm.trans h))
      · have hne : name ≠ key := by
          rintro rfl
          exact hnot (mem_keys_of_mem hrest hm h)
        exact (if_neg hne).trans (ih hnodup hm)

/-- Keys that are all found, no two alike, are all the keys there are. -/
theorem keys_of_found {ms' : List (List UInt8 × Value)} (hnodup : keys.Nodup)
    (hsize : ms'.length ≤ keys.length)
    (hfound : ∀ key ∈ keys, ∃ v, lookup key ms' = .ok (some v)) :
    ∃ keys', Keys ms' keys' ∧ keys.Perm keys' := by
  -- the names that there are, every one counted once
  have hsubset : keys ⊆ ms'.filterMap (fun m => fromEscaped m.1) := by
    intro key hkey
    obtain ⟨v, hv⟩ := hfound key hkey
    obtain ⟨m, hm, hname, -⟩ := mem_of_lookup hv
    exact List.mem_filterMap.mpr ⟨m, hm, hname⟩
  have hsub := hnodup.subperm hsubset
  have hlength := List.length_filterMap_le (fun m => fromEscaped m.1) ms'
  refine ⟨_, ?_, hsub.perm_of_length_le (hlength.trans hsize)⟩
  have hall : (ms'.filterMap fun m => fromEscaped m.1).length = ms'.length :=
    Nat.le_antisymm hlength (hsize.trans hsub.length_le)
  clear hsubset hsub hlength hfound hsize
  induction ms' with
  | nil => exact .nil
  | cons m ms' ih =>
      cases hname : fromEscaped m.1 with
      | none =>
          have := List.length_filterMap_le (fun m => fromEscaped m.1) ms'
          rw [List.filterMap_cons_none (f := fun m : List UInt8 × Value => fromEscaped m.1) hname,
            List.length_cons] at hall
          omega
      | some name =>
          rw [List.filterMap_cons_some (f := fun m : List UInt8 × Value => fromEscaped m.1) hname]
            at hall ⊢
          exact .cons hname (ih (Nat.succ.inj hall))

/-- The keys of members in another order. -/
theorem Keys.perm {ms' : List (List UInt8 × Value)} (hkeys : Keys ms keys) (h : ms.Perm ms') :
    ∃ keys', Keys ms' keys' ∧ keys.Perm keys' := by
  obtain ⟨keys', hkeys', hperm⟩ := List.perm_comp_forall₂ h.symm hkeys
  exact ⟨keys', hkeys', hperm.symm⟩

section Names

variable {ms₁ : List (List UInt8 × Value)} (hnames : ms.map Prod.fst = ms₁.map Prod.fst)

include hnames

/-- Only the names matter. -/
theorem Keys.of_names (hkeys : Keys ms keys) : Keys ms₁ keys := by
  have h : List.Forall₂ (fun raw key => fromEscaped raw = some key) (ms.map Prod.fst) keys :=
    List.forall₂_map_left_iff.mpr hkeys
  rw [hnames] at h
  exact List.forall₂_map_left_iff.mp h

theorem length_of_names : ms.length = ms₁.length := by
  have := congrArg List.length hnames
  rwa [List.length_map, List.length_map] at this

theorem getElem?_of_names {i : ℕ} {m : List UInt8 × Value} (h : ms[i]? = some m) :
    ∃ m₁, ms₁[i]? = some m₁ ∧ m.1 = m₁.1 := by
  have hi : (ms.map Prod.fst)[i]? = some m.1 := by rw [List.getElem?_map, h]; rfl
  rw [hnames, List.getElem?_map] at hi
  obtain ⟨m₁, hm₁, hfst⟩ := Option.map_eq_some_iff.mp hi
  exact ⟨m₁, hm₁, hfst.symm⟩

end Names

end Keys

/-! ## Relations -/

/-- **REFLEXIVE** where it holds at all. -/
theorem Same.refl_left {v w : Value} (h : Same v w) : Same v v := by
  induction h with
  | prim _ => exact .prim rfl
  | str h _ => exact .str h h
  | @arr es es' hsize _ ih =>
      refine .arr rfl ?_
      intro i e e' he he'
      obtain rfl := Option.some.inj (he.symm.trans he')
      have hi : i < es'.length := hsize ▸ (List.getElem?_eq_some_iff.mp he).1
      exact ih i e es'[i] he (List.getElem?_eq_getElem hi)
  | obj _ hkeys hfound _ ih =>
      refine .obj rfl hkeys (fun key hkey => exists_lookup hkeys hkey) ?_
      intro key hkey v v' hv hv'
      obtain rfl := Option.some.inj (Except.ok.inj (hv.symm.trans hv'))
      obtain ⟨w, hw⟩ := hfound key hkey
      exact ih key hkey v w hv hw

/-- **TRANSITIVE**, repeated keys or not. -/
theorem Same.trans {a b c : Value} (h : Same a b) (h' : Same b c) : Same a c := by
  induction h generalizing c with
  | prim h =>
      cases h' with
      | prim h' => exact .prim (h.trans h')
  | str h h₁ =>
      cases h' with
      | str h₂ h' =>
          obtain rfl := Option.some.inj (h₁.symm.trans h₂)
          exact .str h h'
  | @arr es es' hsize _ ih =>
      cases h' with
      | arr hsize' h' =>
          refine .arr (hsize.trans hsize') ?_
          intro i e e'' he he''
          have hi : i < es'.length := hsize ▸ (List.getElem?_eq_some_iff.mp he).1
          have he' := List.getElem?_eq_getElem hi
          exact ih i e es'[i] he he' (h' i es'[i] e'' he' he'')
  | obj hsize hkeys hfound _ ih =>
      cases h' with
      | obj hsize' hkeys' hfound' h' =>
          refine .obj (hsize.trans hsize') hkeys ?_ ?_
          · intro key hkey
            obtain ⟨v', hv'⟩ := hfound key hkey
            exact hfound' key (mem_keys_of_lookup hkeys' hv')
          · intro key hkey v v'' hv hv''
            obtain ⟨v', hv'⟩ := hfound key hkey
            exact ih key hkey v v' hv hv' (h' key (mem_keys_of_lookup hkeys' hv') v' v'' hv' hv'')

/-- In every object the keys are unescaped and no two of them alike; strings and keys
    are unescaped to ASCII. -/
inductive Regular : Value → Prop
  | prim (raw : List UInt8) : Regular (.prim raw)
  | str {raw s : List UInt8} (h : fromEscaped raw = some s) (hascii : ∀ c ∈ s, c < 0x80) :
      Regular (.str raw)
  | arr {es : List Value} (h : ∀ e ∈ es, Regular e) : Regular (.arr es)
  | obj {ms : List (List UInt8 × Value)} {keys : List (List UInt8)} (hkeys : Keys ms keys)
      (hnodup : keys.Nodup) (hascii : ∀ key ∈ keys, ∀ c ∈ key, c < 0x80)
      (h : ∀ m ∈ ms, Regular m.2) : Regular (.obj ms)

/-- **SYMMETRIC** where no key is repeated on the left. -/
theorem Same.symm {v w : Value} (h : Same v w) (hv : Regular v) : Same w v := by
  induction h with
  | prim h => exact .prim h.symm
  | str h h' => exact .str h' h
  | arr hsize _ ih =>
      cases hv with
      | arr hes =>
          refine .arr hsize.symm ?_
          intro i e' e he' he
          exact ih i e e' he he' (hes e (List.mem_of_getElem? he))
  | @obj ms ms' keys hsize hkeys hfound _ ih =>
      cases hv with
      | obj hkeys₁ hnodup _ hms =>
          obtain rfl := Option.some.inj ((keys_iff.mp hkeys).symm.trans (keys_iff.mp hkeys₁))
          have hlength : ms'.length ≤ keys.length := by
            rw [← hsize]
            exact (List.Forall₂.length_eq hkeys).le
          obtain ⟨keys', hkeys', hperm⟩ := keys_of_found hnodup hlength hfound
          refine .obj hsize.symm hkeys' ?_ ?_
          · intro key hkey
            exact exists_lookup hkeys (hperm.mem_iff.mpr hkey)
          · intro key hkey v' v hv' hv
            obtain ⟨m, hm, -, rfl⟩ := mem_of_lookup hv
            exact ih key (hperm.mem_iff.mpr hkey) m.2 v' hv hv' (hms m hm)

/-- A regular value equals itself. -/
theorem Same.refl {v : Value} (hv : Regular v) : Same v v := by
  induction hv with
  | prim raw => exact .prim rfl
  | str h _ => exact .str h h
  | arr _ ih =>
      refine .arr rfl ?_
      intro i e e' he he'
      obtain rfl := Option.some.inj (he.symm.trans he')
      exact ih e (List.mem_of_getElem? he)
  | obj hkeys _ _ _ ih =>
      refine .obj rfl hkeys (fun key hkey => exists_lookup hkeys hkey) ?_
      intro key hkey v v' hv hv'
      obtain rfl := Option.some.inj (Except.ok.inj (hv.symm.trans hv'))
      obtain ⟨m, hm, -, rfl⟩ := mem_of_lookup hv
      exact ih m hm

/-! ## The order of keys -/

/-- The same value with the members of its objects in another order. -/
inductive Reordered : Value → Value → Prop
  | prim (raw : List UInt8) : Reordered (.prim raw) (.prim raw)
  | str (raw : List UInt8) : Reordered (.str raw) (.str raw)
  | arr {es es' : List Value} (hsize : es.length = es'.length)
      (h : ∀ (i : ℕ) (e e' : Value), es[i]? = some e → es'[i]? = some e' → Reordered e e') :
      Reordered (.arr es) (.arr es')
  | obj {ms ms₁ ms' : List (List UInt8 × Value)} (hnames : ms.map Prod.fst = ms₁.map Prod.fst)
      (h : ∀ (i : ℕ) (m m₁ : List UInt8 × Value), ms[i]? = some m → ms₁[i]? = some m₁ →
        Reordered m.2 m₁.2)
      (hperm : ms₁.Perm ms') : Reordered (.obj ms) (.obj ms')

/-- The order does not matter where no key is repeated. -/
theorem Same.of_reordered {v w : Value} (h : Reordered v w) (hv : Regular v) : Same v w := by
  induction h with
  | prim raw => exact .prim rfl
  | str raw =>
      cases hv with
      | str h _ => exact .str h h
  | arr hsize _ ih =>
      cases hv with
      | arr hes =>
          refine .arr hsize ?_
          intro i e e' he he'
          exact ih i e e' he he' (hes e (List.mem_of_getElem? he))
  | @obj ms ms₁ ms' hnames _ hperm ih =>
      cases hv with
      | obj hkeys hnodup _ hms =>
          obtain ⟨keys', hkeys', hperm'⟩ := (hkeys.of_names hnames).perm hperm
          have hnodup' := hperm'.nodup_iff.mp hnodup
          refine .obj ((length_of_names hnames).trans hperm.length_eq) hkeys ?_ ?_
          · intro key hkey
            exact exists_lookup hkeys' (hperm'.mem_iff.mp hkey)
          · intro key hkey v v' hv hv'
            obtain ⟨m, hm, hname, rfl⟩ := mem_of_lookup hv
            obtain ⟨i, hi⟩ := List.getElem?_of_mem hm
            obtain ⟨m₁, hi₁, hfst⟩ := getElem?_of_names hnames hi
            have hv₁ : lookup key ms' = .ok (some m₁.2) :=
              lookup_of_mem hkeys' hnodup' (hperm.mem_iff.mp (List.mem_of_getElem? hi₁))
                (hfst ▸ hname)
            obtain rfl := Option.some.inj (Except.ok.inj (hv₁.symm.trans hv'))
            exact ih i m m₁ hi hi₁ (hms m hm)

/-! ## Values of JSON -/

/-- A value that some JSON text has. -/
inductive WellFormed : Value → Prop
  | prim (x : Prim) : WellFormed (.prim x.text)
  | str (us : List StrChar) : WellFormed (.str (rawText us))
  | arr {es : List Value} (h : ∀ e ∈ es, WellFormed e) : WellFormed (.arr es)
  | obj {ms : List (List UInt8 × Value)} (hnames : ∀ m ∈ ms, ∃ us : List StrChar, rawText us = m.1)
      (h : ∀ m ∈ ms, WellFormed m.2) : WellFormed (.obj ms)

theorem Prim.text_ne_nil (x : Prim) : x.text ≠ [] := by
  obtain ⟨c, cs, hcons, -⟩ := x.text_start
  rw [hcons]
  exact List.cons_ne_nil c cs

theorem WellFormed.ne_empty {v : Value} (h : WellFormed v) : v ≠ .prim [] := by
  cases h with
  | prim x => exact fun heq => Prim.text_ne_nil x (Value.prim.inj heq)
  | _ => nofun

/-! ## Types -/

inductive Kind where
  | null
  | boolean
  | string
  | object
  | array
  | number
deriving DecidableEq

/-- Exactly one test holds. -/
def Kind.flags (k : Kind) : List Bool :=
  [decide (k = .null), decide (k = .boolean), decide (k = .string), decide (k = .object),
    decide (k = .array), decide (k = .number)]

theorem Kind.flags_inj {k k' : Kind} (h : k.flags = k'.flags) : k = k' := by
  revert h
  cases k <;> cases k' <;> decide

def Scalar.kind : Scalar → Kind
  | .null      => .null
  | .boolean _ => .boolean
  | .number _  => .number

def kind : Value → Kind
  | .prim raw => (scalar raw).kind
  | .str _    => .string
  | .arr _    => .array
  | .obj _    => .object

/-- The type of the token that a value of a kind has. -/
def Kind.tokenType : Kind → TokenType
  | .string => .string
  | .object => .object
  | .array  => .array
  | _       => .primitive

theorem tokenType_kind (v : Value) : (kind v).tokenType = tokenType v := by
  cases v with
  | prim raw =>
      show (scalar raw).kind.tokenType = .primitive
      cases scalar raw <;> rfl
  | _ => rfl

/-- The handle's tests tell the kind of the value. -/
theorem flags_value {p : Place} {v : Value} (h : p.value = some v) (hv : v ≠ .prim []) :
    Handle.flags (some p) = (kind v).flags := by
  unfold Handle.flags
  rw [isNull_value h hv, isBoolean_value h hv, isString_value h, isObject_value h,
    isArray_value h, isNumber_value h hv]
  cases v with
  | prim raw =>
      simp only [Object.isNull, Object.isBoolean, Object.isString, Object.isObject, Object.isArray,
        Object.isNumber, kind, scalar]
      by_cases hn : raw.head? = some 'n'.toUInt8
      · rw [hn]
        rfl
      by_cases hf : raw.head? = some 'f'.toUInt8
      · rw [hf]
        rfl
      by_cases ht : raw.head? = some 't'.toUInt8
      · rw [ht]
        rfl
      simp [hn, hf, ht, Scalar.kind, Kind.flags]
  | str raw => rfl
  | arr es => rfl
  | obj ms => rfl

section Read

variable {p : Place} {raw : List UInt8} (h : p.value = some (.prim raw)) (hraw : raw ≠ [])

include h hraw

theorem bool_scalar {b : Bool} (hb : scalar raw = .boolean b) : Handle.bool (some p) = .ok b := by
  rw [bool_value h (fun heq => hraw (Value.prim.inj heq))]
  unfold scalar at hb
  show (if raw.head? = some 'n'.toUInt8 ∨ raw.head? = some 'f'.toUInt8 then Except.ok false
    else if raw.head? = some 't'.toUInt8 then .ok true else .error Failure.typeError) = _
  split at hb
  · cases hb
  rename_i hn
  split at hb
  · rename_i hf
    cases hb
    exact if_pos (Or.inr hf)
  rename_i hf
  split at hb
  · rename_i ht
    cases hb
    rw [if_neg (not_or.mpr ⟨hn, hf⟩), if_pos ht]
  · cases hb

theorem double_scalar {x : Double} (hx : scalar raw = .number x) :
    Handle.double (some p) = .ok x := by
  unfold scalar at hx
  split at hx
  · cases hx
  rename_i hn
  split at hx
  · cases hx
  rename_i hf
  split at hx
  · cases hx
  rename_i ht
  cases hx
  unfold Handle.double
  rw [type_value h, firstChar_value h hraw, directText_value h rfl]
  exact (if_neg (not_not.mpr rfl)).trans (if_neg (not_or.mpr ⟨hn, not_or.mpr ⟨hf, ht⟩⟩))

end Read

/-! ## Places of parts -/

theorem length_next (ts : List Token) : (next ts).length ≤ ts.length := length_nextToken _ ts

theorem length_getFrom {text key : List UInt8} {n : ℕ} {ts : List Token} {q : Place}
    (h : Handle.getFrom text key n ts = .ok (some q)) : q.tokens.length < ts.length := by
  induction n generalizing ts with
  | zero => cases h
  | succ n ih =>
      cases ts with
      | nil => cases h
      | cons k ts =>
          rw [Handle.getFrom] at h
          split at h
          · cases h
          · split at h
            · cases h
              exact Nat.lt_succ_self _
            · exact (ih h).trans_le ((length_next ts).trans (Nat.le_succ _))

section Parts

variable {p : Place}

/-- The place of an element comes after that of the array. -/
theorem exists_nth {es : List Value} {i : ℕ} {e : Value} (h : p.value = some (.arr es))
    (he : es[i]? = some e) :
    ∃ q, Handle.nthInt (some p) i = .ok (some q) ∧ q.value = some e
      ∧ q.tokens.length < p.tokens.length := by
  have hfind : (Handle.nthInt (some p) i).map (Option.map Place.value)
      = .ok ((some e).map some) := by
    rw [nthInt_value h i]
    exact congrArg (fun o => Except.ok (Option.map some o)) he
  obtain ⟨c, hc, hvalue⟩ := exists_ok hfind
  obtain ⟨q, rfl, hq⟩ := Option.map_eq_some_iff.mp hvalue
  refine ⟨q, hc, hq, ?_⟩
  obtain ⟨text, t, ts, rfl, htype, -⟩ := Place.exists_token h
  simp only [Handle.nthInt, htype, if_true, Int.toNat_natCast] at hc
  split at hc
  · cases hc
  · cases hc
    exact Nat.lt_succ_of_le (length_iterate_le length_next i ts)

/-- The place of a member's value comes after that of the object. -/
theorem exists_get {ms : List (List UInt8 × Value)} {key : List UInt8} {v : Value}
    (h : p.value = some (.obj ms)) (hv : lookup key ms = .ok (some v)) :
    ∃ q, Handle.get (some p) key = .ok (some q) ∧ q.value = some v
      ∧ q.tokens.length < p.tokens.length := by
  have hfind : (Handle.get (some p) key).map (Option.map Place.value)
      = .ok ((some v).map some) := by
    rw [get_value h key]
    exact congrArg (fun x => Except.map (Option.map some) x) hv
  obtain ⟨c, hc, hvalue⟩ := exists_ok hfind
  obtain ⟨q, rfl, hq⟩ := Option.map_eq_some_iff.mp hvalue
  refine ⟨q, hc, hq, ?_⟩
  obtain ⟨text, t, ts, rfl, htype, -⟩ := Place.exists_token h
  simp only [Handle.get, htype, if_true] at hc
  exact (length_getFrom hc).trans (Nat.lt_succ_self _)

/-- `has` asks for the first value under the key. -/
theorem has_iff {ms : List (List UInt8 × Value)} {key : List UInt8}
    (h : p.value = some (.obj ms)) :
    Handle.has (some p) key = .ok true ↔ ∃ v, lookup key ms = .ok (some v) := by
  have hget : (Handle.get (some p) key).map (Option.map Place.value)
      = (lookup key ms).map (Option.map some) := get_value h key
  unfold Handle.has
  generalize Handle.get (some p) key = x at hget ⊢
  generalize lookup key ms = y at hget ⊢
  cases y with
  | error e =>
      cases x with
      | error e' => exact iff_of_false nofun nofun
      | ok c => cases hget
  | ok o =>
      cases x with
      | error e => cases hget
      | ok c =>
          have hsome : c.isSome = o.isSome := by
            have := congrArg Option.isSome (Except.ok.inj hget)
            rwa [Option.isSome_map, Option.isSome_map] at this
          show Except.ok c.isSome = Except.ok true ↔ _
          rw [hsome, Except.ok.injEq, Option.isSome_iff_exists]
          simp only [Except.ok.injEq]

theorem keys_eq {ms : List (List UInt8 × Value)} {keys : List (List UInt8)}
    (h : p.value = some (.obj ms)) : Handle.keys (some p) = .ok keys ↔ Keys ms keys := by
  rw [keys_value h, keys_iff]
  unfold Object.keys
  dsimp only
  cases ms.mapM (fun m => fromEscaped m.1) with
  | none => exact iff_of_false nofun nofun
  | some keys' => rw [Except.ok.injEq, Option.some.injEq]

end Parts

/-! ## Refinement -/

theorem allTrue_iff {α : Type} {f : α → Except Failure Bool} {as : List α} :
    Handle.allTrue f as = .ok true ↔ ∀ a ∈ as, f a = .ok true := by
  induction as with
  | nil => exact iff_of_true rfl (fun a ha => absurd ha List.not_mem_nil)
  | cons a as ih =>
      rw [Handle.allTrue, List.forall_mem_cons, ← ih, bind_eq_ok]
      constructor
      · rintro ⟨b, hb, h⟩
        cases b with
        | false => cases h
        | true  => exact ⟨hb, h⟩
      · rintro ⟨hb, h⟩
        exact ⟨true, hb, h⟩

section Loops

variable {p q : Place} {eq : Handle → Handle → Except Failure Bool} {R : Value → Value → Prop}

/-- **STEP**: the loop over the keys, from what is below. -/
theorem equalMembers_iff {ms ms' : List (List UInt8 × Value)} (hp : p.value = some (.obj ms))
    (hq : q.value = some (.obj ms'))
    (heq : ∀ m ∈ ms, ∀ m' ∈ ms', ∀ c c' : Place, c.tokens.length < p.tokens.length →
      c.value = some m.2 → c'.value = some m'.2 →
      (eq (some c) (some c') = .ok true ↔ R m.2 m'.2)) :
    Handle.equalMembers eq (some p) (some q) = .ok true ↔
      ms.length = ms'.length ∧ ∃ keys, Keys ms keys
        ∧ (∀ key ∈ keys, ∃ v', lookup key ms' = .ok (some v'))
        ∧ ∀ key ∈ keys, ∀ v v', lookup key ms = .ok (some v) → lookup key ms' = .ok (some v') →
          R v v' := by
  have hone : ∀ {keys : List (List UInt8)}, Keys ms keys → ∀ key ∈ keys,
      (Handle.equalAt eq (some p) (some q) key = .ok true ↔
        (∃ v', lookup key ms' = .ok (some v')) ∧ ∀ v v', lookup key ms = .ok (some v) →
          lookup key ms' = .ok (some v') → R v v') := by
    intro keys hkeys key hkey
    obtain ⟨v, hv⟩ := exists_lookup hkeys hkey
    obtain ⟨c, hc, hcv, hclt⟩ := exists_get hp hv
    obtain ⟨m, hm, -, rfl⟩ := mem_of_lookup hv
    rw [Handle.equalAt, bind_eq_ok]
    constructor
    · rintro ⟨b, hb, h⟩
      cases b with
      | false => cases h
      | true =>
          obtain ⟨v', hv'⟩ := (has_iff hq).mp hb
          obtain ⟨c', hc', hcv', -⟩ := exists_get hq hv'
          obtain ⟨m', hm', -, rfl⟩ := mem_of_lookup hv'
          refine ⟨⟨_, hv'⟩, ?_⟩
          intro w w' hw hw'
          obtain rfl := Option.some.inj (Except.ok.inj (hv.symm.trans hw))
          obtain rfl := Option.some.inj (Except.ok.inj (hv'.symm.trans hw'))
          rw [if_pos rfl, hc, hc'] at h
          exact (heq m hm m' hm' c c' hclt hcv hcv').mp h
    · rintro ⟨⟨v', hv'⟩, hR⟩
      refine ⟨true, (has_iff hq).mpr ⟨v', hv'⟩, ?_⟩
      obtain ⟨c', hc', hcv', -⟩ := exists_get hq hv'
      obtain ⟨m', hm', -, rfl⟩ := mem_of_lookup hv'
      rw [if_pos rfl, hc, hc']
      exact (heq m hm m' hm' c c' hclt hcv hcv').mpr (hR _ _ hv hv')
  unfold Handle.equalMembers
  rw [show Handle.size (some p) = .ok ms.length from size_value hp,
    show Handle.size (some q) = .ok ms'.length from size_value hq]
  show (if ms.length ≠ ms'.length then Except.ok false
    else Handle.keys (some p) >>= Handle.allTrue (Handle.equalAt eq (some p) (some q))) = _ ↔ _
  by_cases hsize : ms.length = ms'.length
  · rw [if_neg (not_not.mpr hsize), bind_eq_ok]
    constructor
    · rintro ⟨keys, hkeys, h⟩
      have hkeys' := (keys_eq hp).mp hkeys
      have hall := allTrue_iff.mp h
      exact ⟨hsize, keys, hkeys', fun key hkey => ((hone hkeys' key hkey).mp (hall key hkey)).1,
        fun key hkey => ((hone hkeys' key hkey).mp (hall key hkey)).2⟩
    · rintro ⟨-, keys, hkeys, hfound, hR⟩
      refine ⟨keys, (keys_eq hp).mpr hkeys, allTrue_iff.mpr ?_⟩
      intro key hkey
      exact (hone hkeys key hkey).mpr ⟨hfound key hkey, hR key hkey⟩
  · rw [if_pos hsize]
    exact iff_of_false nofun (fun h => hsize h.1)

/-- **STEP**: the loop over the positions. -/
theorem equalElements_iff {es es' : List Value} (hp : p.value = some (.arr es))
    (hq : q.value = some (.arr es'))
    (heq : ∀ e ∈ es, ∀ e' ∈ es', ∀ c c' : Place, c.tokens.length < p.tokens.length →
      c.value = some e → c'.value = some e' → (eq (some c) (some c') = .ok true ↔ R e e')) :
    Handle.equalElements eq (some p) (some q) = .ok true ↔
      es.length = es'.length ∧ ∀ (i : ℕ) (e e' : Value), es[i]? = some e → es'[i]? = some e' →
        R e e' := by
  have hone : ∀ {i : ℕ} {e e' : Value}, es[i]? = some e → es'[i]? = some e' →
      (Handle.equalNth eq (some p) (some q) i = .ok true ↔ R e e') := by
    intro i e e' he he'
    obtain ⟨c, hc, hcv, hclt⟩ := exists_nth hp he
    obtain ⟨c', hc', hcv', -⟩ := exists_nth hq he'
    rw [Handle.equalNth, hc, hc']
    exact heq e (List.mem_of_getElem? he) e' (List.mem_of_getElem? he') c c' hclt hcv hcv'
  unfold Handle.equalElements
  rw [show Handle.size (some p) = .ok es.length from size_value hp,
    show Handle.size (some q) = .ok es'.length from size_value hq]
  show (if es.length ≠ es'.length then Except.ok false
    else Handle.allTrue (Handle.equalNth eq (some p) (some q)) (List.range es.length)) = _ ↔ _
  by_cases hsize : es.length = es'.length
  · rw [if_neg (not_not.mpr hsize), allTrue_iff]
    constructor
    · intro h
      refine ⟨hsize, ?_⟩
      intro i e e' he he'
      have hi := (List.getElem?_eq_some_iff.mp he).1
      exact (hone he he').mp (h i (List.mem_range.mpr hi))
    · rintro ⟨-, hR⟩ i hi
      have hi := List.mem_range.mp hi
      have he := List.getElem?_eq_getElem hi
      have he' := List.getElem?_eq_getElem (hsize ▸ hi)
      exact (hone he he').mpr (hR i _ _ he he')
  · rw [if_pos hsize]
    exact iff_of_false nofun (fun h => hsize h.1)

end Loops

/-- Equal values are of one kind. -/
theorem Same.kind {v w : Value} (h : Same v w) : Jsmn.kind v = Jsmn.kind w := by
  cases h with
  | prim h => exact congrArg Scalar.kind h
  | _ => rfl

section Kinds

variable {p q : Place} {fuel : ℕ}

theorem equalsFuel_of_kind_ne {v w : Value} (hp : p.value = some v) (hq : q.value = some w)
    (hv : v ≠ .prim []) (hw : w ≠ .prim []) (h : kind v ≠ kind w) :
    Handle.equalsFuel (fuel + 1) (some p) (some q) = .ok false := by
  rw [Handle.equalsFuel]
  refine if_pos ?_
  rw [flags_value hp hv, flags_value hq hw]
  exact fun hflags => h (Kind.flags_inj hflags)

/-- The branch that the kind of the left value takes. -/
theorem equalsFuel_of_kind_eq {v w : Value} (hp : p.value = some v) (hq : q.value = some w)
    (hv : v ≠ .prim []) (hw : w ≠ .prim []) (h : kind v = kind w) :
    Handle.equalsFuel (fuel + 1) (some p) (some q) = match kind v with
      | .null    => .ok true
      | .boolean => do return decide ((← Handle.bool (some p)) = (← Handle.bool (some q)))
      | .string  => do return decide ((← Handle.str (some p)) = (← Handle.str (some q)))
      | .number  => do return (← Handle.double (some p)).eq (← Handle.double (some q))
      | .object  => Handle.equalMembers (Handle.equalsFuel fuel) (some p) (some q)
      | .array   => Handle.equalElements (Handle.equalsFuel fuel) (some p) (some q) := by
  have hflags := flags_value hp hv
  rw [Handle.equalsFuel, if_neg (not_not.mpr (by rw [hflags, flags_value hq hw, h]))]
  unfold Handle.flags Kind.flags at hflags
  simp only [List.cons.injEq, and_true] at hflags
  obtain ⟨hnull, hboolean, hstring, hobject, harray, hnumber⟩ := hflags
  rw [hnull, hboolean, hstring, hobject, harray, hnumber]
  cases kind v <;> rfl

theorem equalsFuel_prim {raw raw' : List UInt8} (hp : p.value = some (.prim raw))
    (hq : q.value = some (.prim raw')) (hraw : raw ≠ []) (hraw' : raw' ≠ []) :
    Handle.equalsFuel (fuel + 1) (some p) (some q) = .ok true ↔ scalar raw = scalar raw' := by
  have hne : Value.prim raw ≠ .prim [] := fun heq => hraw (Value.prim.inj heq)
  have hne' : Value.prim raw' ≠ .prim [] := fun heq => hraw' (Value.prim.inj heq)
  by_cases hkind : (scalar raw).kind = (scalar raw').kind
  · rw [equalsFuel_of_kind_eq hp hq hne hne' hkind]
    show (match (scalar raw).kind with
      | .null    => Except.ok true
      | .boolean => do return decide ((← Handle.bool (some p)) = (← Handle.bool (some q)))
      | .string  => do return decide ((← Handle.str (some p)) = (← Handle.str (some q)))
      | .number  => do return (← Handle.double (some p)).eq (← Handle.double (some q))
      | .object  => Handle.equalMembers (Handle.equalsFuel fuel) (some p) (some q)
      | .array   => Handle.equalElements (Handle.equalsFuel fuel) (some p) (some q)) = _ ↔ _
    cases hs : scalar raw with
    | null =>
        cases hs' : scalar raw' with
        | null => exact iff_of_true rfl rfl
        | _ =>
            rw [hs, hs'] at hkind
            cases hkind
    | boolean b =>
        cases hs' : scalar raw' with
        | boolean b' =>
            dsimp only [Scalar.kind]
            rw [bool_scalar hp hraw hs, bool_scalar hq hraw' hs', Scalar.boolean.injEq]
            show Except.ok (decide (b = b')) = Except.ok true ↔ _
            rw [Except.ok.injEq, decide_eq_true_eq]
        | _ =>
            rw [hs, hs'] at hkind
            cases hkind
    | number x =>
        cases hs' : scalar raw' with
        | number x' =>
            dsimp only [Scalar.kind]
            rw [double_scalar hp hraw hs, double_scalar hq hraw' hs', Scalar.number.injEq]
            show Except.ok (x.eq x') = Except.ok true ↔ _
            rw [Except.ok.injEq]
            exact Double.eq_iff (ne_nan_of_scalar hs)
        | _ =>
            rw [hs, hs'] at hkind
            cases hkind
  · rw [equalsFuel_of_kind_ne hp hq hne hne' hkind]
    exact iff_of_false nofun (fun h => hkind (congrArg Scalar.kind h))

theorem str_eq_ok {raw s : List UInt8} (hp : p.value = some (.str raw)) :
    Handle.str (some p) = .ok s ↔ fromEscaped raw = some s := by
  rw [str_value hp]
  unfold Object.str
  dsimp only
  cases fromEscaped raw with
  | none => exact iff_of_false nofun nofun
  | some s' => rw [Except.ok.injEq, Option.some.injEq]

theorem equalsFuel_str {raw raw' : List UInt8} (hp : p.value = some (.str raw))
    (hq : q.value = some (.str raw')) :
    Handle.equalsFuel (fuel + 1) (some p) (some q) = .ok true ↔
      ∃ s, fromEscaped raw = some s ∧ fromEscaped raw' = some s := by
  rw [equalsFuel_of_kind_eq hp hq nofun nofun rfl]
  show (Handle.str (some p) >>= fun s => Handle.str (some q) >>= fun s' =>
    Except.ok (decide (s = s'))) = _ ↔ _
  simp only [bind_eq_ok, str_eq_ok hp, str_eq_ok hq, Except.ok.injEq, decide_eq_true_eq]
  constructor
  · rintro ⟨s, hs, s', hs', rfl⟩
    exact ⟨s, hs, hs'⟩
  · rintro ⟨s, hs, hs'⟩
    exact ⟨s, hs, s, hs', rfl⟩

end Kinds

/-- **RUN**: the operator finds out whether the values are the same. -/
theorem equalsFuel_iff (fuel : ℕ) : ∀ {p q : Place} {v w : Value}, p.tokens.length ≤ fuel →
    p.value = some v → q.value = some w → WellFormed v → WellFormed w →
    (Handle.equalsFuel (fuel + 1) (some p) (some q) = .ok true ↔ Same v w) := by
  induction fuel with
  | zero =>
      intro p q v w hlength hp
      obtain ⟨text, t, ts, rfl, -⟩ := Place.exists_token hp
      exact absurd hlength (Nat.not_succ_le_zero _)
  | succ fuel ih =>
      intro p q v w hlength hp hq hv hw
      by_cases hkind : kind v = kind w
      · have htype : tokenType v = tokenType w := by
          rw [← tokenType_kind, ← tokenType_kind, hkind]
        cases hv with
        | prim x =>
            cases hw with
            | prim y =>
                rw [equalsFuel_prim hp hq (Prim.text_ne_nil x) (Prim.text_ne_nil y)]
                constructor
                · exact .prim
                · rintro ⟨h⟩
                  exact h
            | _ => cases htype
        | str us =>
            cases hw with
            | str us' =>
                rw [equalsFuel_str hp hq]
                constructor
                · rintro ⟨s, h, h'⟩
                  exact .str h h'
                · rintro (_ | ⟨h, h'⟩)
                  exact ⟨_, h, h'⟩
            | _ => cases htype
        | arr hes =>
            cases hw with
            | arr hes' =>
                rw [equalsFuel_of_kind_eq hp hq nofun nofun rfl]
                show Handle.equalElements (Handle.equalsFuel (fuel + 1)) (some p) (some q) = _ ↔ _
                rw [equalElements_iff hp hq fun e he e' he' c c' hlt hc hc' =>
                  ih (by omega) hc hc' (hes e he) (hes' e' he')]
                constructor
                · rintro ⟨hsize, h⟩
                  exact .arr hsize h
                · rintro (_ | _ | ⟨hsize, h⟩)
                  exact ⟨hsize, h⟩
            | _ => cases htype
        | obj _ hms =>
            cases hw with
            | obj _ hms' =>
                rw [equalsFuel_of_kind_eq hp hq nofun nofun rfl]
                show Handle.equalMembers (Handle.equalsFuel (fuel + 1)) (some p) (some q) = _ ↔ _
                rw [equalMembers_iff hp hq fun m hm m' hm' c c' hlt hc hc' =>
                  ih (by omega) hc hc' (hms m hm) (hms' m' hm')]
                constructor
                · rintro ⟨hsize, keys, hkeys, hfound, h⟩
                  exact .obj hsize hkeys hfound h
                · rintro (_ | _ | _ | ⟨hsize, hkeys, hfound, h⟩)
                  exact ⟨hsize, _, hkeys, hfound, h⟩
            | _ => cases htype
      · rw [equalsFuel_of_kind_ne hp hq hv.ne_empty hw.ne_empty hkind]
        exact iff_of_false nofun (fun h => hkind h.kind)

/-- **SPEC** of `operator==` on two objects. -/
theorem equals_iff {p q : Place} {v w : Value} (hp : p.value = some v) (hq : q.value = some w)
    (hv : WellFormed v) (hw : WellFormed w) :
    Handle.equals false (some p) (some q) = .ok true ↔ Same v w :=
  equalsFuel_iff p.tokens.length le_rfl hp hq hv hw

end Jsmn
