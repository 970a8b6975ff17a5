import Clboss.JsonProofs
import Clboss.TxHexProofs

/-! # `Jsmn::Object` — the accessors, and the two ways they fail

    A default-constructed object has nothing behind it; any other one stands for
    a value whose strings are still escaped.  Every accessor that finds another
    type throws `TypeError`.  Unescaping has a failure of its own: the scanner
    lets `\/` through, `from_escaped` has no case for it and ends in an
    ASSERTION.

    Printing unescapes every string it shows, so an object that prints has no
    such surprise left (`index_of_prints`, `str_of_prints`). -/

namespace Jsmn

open Json

/-! ## Unescaping -/

/-- The escapes of one character. -/
def unescape (c : UInt8) : Option UInt8 :=
  if c = '"'.toUInt8 then some '"'.toUInt8
  else if c = '\\'.toUInt8 then some '\\'.toUInt8
  else if c = 'b'.toUInt8 then some 8
  else if c = 'f'.toUInt8 then some 12
  else if c = 'n'.toUInt8 then some 10
  else if c = 'r'.toUInt8 then some 13
  else if c = 't'.toUInt8 then some 9
  else none

/-- The three digits of a number from 128 to 255. -/
def decimal (n : Nat) : List UInt8 :=
  [UInt8.ofNat (48 + n / 100), UInt8.ofNat (48 + n / 10 % 10), UInt8.ofNat (48 + n % 10)]

/-- A code point; beyond ASCII the bytes of its UTF-8 form are `int`s, and the
    stream prints their digits. -/
def codePoint (cp : Nat) : List UInt8 :=
  if cp < 0x80 then [UInt8.ofNat cp]
  else if cp < 0x800 then decimal (cp / 64 % 32 + 0xC0) ++ decimal (cp % 64 + 0x80)
  else decimal (cp / 4096 % 16 + 0xE0) ++ decimal (cp / 64 % 64 + 0x80) ++ decimal (cp % 64 + 0x80)

/-- The text after `\u`. -/
def hexEscape (digits : List UInt8) : Option (List UInt8) :=
  match Util.Str.hexread digits with
  | .ok [h, l] => some (codePoint (h.toNat * 256 + l.toNat))
  | _          => none

/-- `Detail::Str::from_escaped`; `none` is a failed assertion. -/
def fromEscaped : List UInt8 → Option (List UInt8)
  | []      => some []
  | c :: cs =>
      if c ≠ '\\'.toUInt8 then (fromEscaped cs).map (c :: ·)
      else match cs with
        | []      => none
        | e :: cs =>
            if e = 'u'.toUInt8 then
              match cs with
              | h0 :: h1 :: h2 :: h3 :: cs =>
                  (hexEscape [h0, h1, h2, h3]).bind (fun u => (fromEscaped cs).map (u ++ ·))
              | _ => none
            else (unescape e).bind (fun u => (fromEscaped cs).map (u :: ·))

theorem length_codePoint (cp : Nat) : (codePoint cp).length ≤ 9 := by
  unfold codePoint
  split
  · simp
  · split
    · simp [decimal]
    · simp [decimal]

/-- Unescaping at most doubles a text. -/
theorem length_fromEscaped {raw s : List UInt8} (h : fromEscaped raw = some s) :
    s.length ≤ 2 * raw.length := by
  fun_induction fromEscaped raw generalizing s with
  | case1 =>
      cases h
      exact Nat.zero_le _
  | case2 c cs hc ih =>
      obtain ⟨t, ht, rfl⟩ := Option.map_eq_some_iff.mp h
      have := ih ht
      simp only [List.length_cons]
      omega
  | case3 => cases h
  | case4 c hc h0 h1 h2 h3 cs ih =>
      obtain ⟨u, hu, h⟩ := Option.bind_eq_some_iff.mp h
      obtain ⟨t, ht, rfl⟩ := Option.map_eq_some_iff.mp h
      have := ih ht
      have hlen : u.length ≤ 9 := by
        unfold hexEscape at hu
        split at hu
        · cases hu
          exact length_codePoint _
        · cases hu
      simp only [List.length_cons, List.length_append]
      omega
  | case5 => cases h
  | case6 c hc e cs he ih =>
      obtain ⟨u, hu, h⟩ := Option.bind_eq_some_iff.mp h
      obtain ⟨t, ht, rfl⟩ := Option.map_eq_some_iff.mp h
      have := ih ht
      simp only [List.length_cons]
      omega

/-! ## The accessors -/

/-- How an accessor fails. -/
inductive Failure where
  | typeError
  | assertion
deriving DecidableEq

/-- `Jsmn::Object`. -/
abbrev Object := Option Value

/-- What a sequence of reads returned, it read. -/
theorem bind_eq_ok {ε α β : Type} {x : Except ε α} {f : α → Except ε β} {b : β} :
    (x >>= f) = .ok b ↔ ∃ a, x = .ok a ∧ f a = .ok b := by
  cases x with
  | error e => exact iff_of_false nofun (fun ⟨_, h, _⟩ => nomatch h)
  | ok a =>
      constructor
      · exact fun h => ⟨a, rfl, h⟩
      · rintro ⟨a', ha, h⟩
        cases ha
        exact h

/-- The first member under a key, every key up to it unescaped. -/
def lookup (s : List UInt8) : List (List UInt8 × Value) → Except Failure Object
  | []      => .ok none
  | m :: ms =>
      match fromEscaped m.1 with
      | none     => .error .assertion
      | some key => if key = s then .ok (some m.2) else lookup s ms

/-- `operator[]` with a key. -/
def Object.index (o : Object) (s : String) : Except Failure Object :=
  match o with
  | some (.obj ms) => lookup s.toUTF8.toList ms
  | _              => .error .typeError

/-- `has`. -/
def Object.has (o : Object) (s : String) : Except Failure Bool := do
  let v ← o.index s
  return v.isSome

/-- `operator std::string`. -/
def Object.str (o : Object) : Except Failure (List UInt8) :=
  match o with
  | some (.str raw) =>
      match fromEscaped raw with
      | none   => .error .assertion
      | some s => .ok s
  | _ => .error .typeError

/-- `operator[]` with a key of any bytes. -/
def Object.get (o : Object) (key : List UInt8) : Except Failure Object :=
  match o with
  | some (.obj ms) => lookup key ms
  | _              => .error .typeError

/-- `operator[]` with a position; there is a null object beyond the end. -/
def Object.nth (o : Object) (i : Nat) : Except Failure Object :=
  match o with
  | some (.arr es) => .ok es[i]?
  | _              => .error .typeError

/-- `size`. -/
def Object.size (o : Object) : Except Failure Nat :=
  match o with
  | some (.arr es) => .ok es.length
  | some (.obj ms) => .ok ms.length
  | _              => .error .typeError

/-- `keys`. -/
def Object.keys (o : Object) : Except Failure (List (List UInt8)) :=
  match o with
  | some (.obj ms) =>
      match ms.mapM (fun m => fromEscaped m.1) with
      | none      => .error .assertion
      | some keys => .ok keys
  | _ => .error .typeError

/-- `begin` to `end`; an object that is no array ends where it begins. -/
def Object.elements (o : Object) : Except Failure (List Object) :=
  match o with
  | none           => .error .typeError
  | some (.arr es) => .ok (es.map some)
  | some _         => .ok []

/-- `is_object`. -/
def Object.isObject (o : Object) : Bool :=
  match o with
  | some (.obj _) => true
  | _             => false

/-- `is_array`. -/
def Object.isArray (o : Object) : Bool :=
  match o with
  | some (.arr _) => true
  | _             => false

/-- `is_string`. -/
def Object.isString (o : Object) : Bool :=
  match o with
  | some (.str _) => true
  | _             => false

/-- What has members is an object. -/
theorem Object.isObject_of_index {o v : Object} {key : String} (h : o.index key = .ok v) :
    o.isObject = true := by
  unfold Object.index at h
  unfold Object.isObject
  split at h
  · rfl
  · cases h

/-- What has a text is a string. -/
theorem Object.isString_of_str {o : Object} {s : List UInt8} (h : o.str = .ok s) :
    o.isString = true := by
  unfold Object.str at h
  unfold Object.isString
  split at h
  · rfl
  · cases h

/-- `is_null`. -/
def Object.isNull (o : Object) : Bool :=
  match o with
  | none           => true
  | some (.prim t) => t.head? = some 'n'.toUInt8
  | _              => false

/-- `is_boolean`. -/
def Object.isBoolean (o : Object) : Bool :=
  match o with
  | some (.prim t) => t.head? = some 't'.toUInt8 ∨ t.head? = some 'f'.toUInt8
  | _              => false

/-- `is_number`. -/
def Object.isNumber (o : Object) : Bool :=
  match o with
  | some (.prim t) => t.head? ≠ some 't'.toUInt8 ∧ t.head? ≠ some 'f'.toUInt8
      ∧ t.head? ≠ some 'n'.toUInt8
  | _              => false

/-- `operator bool`. -/
def Object.bool (o : Object) : Except Failure Bool :=
  match o with
  | none           => .ok false
  | some (.prim t) =>
      if t.head? = some 'n'.toUInt8 ∨ t.head? = some 'f'.toUInt8 then .ok false
      else if t.head? = some 't'.toUInt8 then .ok true
      else .error .typeError
  | _ => .error .typeError

/-- `direct_text`, of what has no parts. -/
def Object.directText (o : Object) : Option (List UInt8) :=
  match o with
  | none            => some (['n', 'u', 'l', 'l'].map Char.toUInt8)
  | some (.prim t)  => some t
  | some (.str raw) => some raw
  | _               => none

/-! ## Printing -/

mutual

/-- `print` comes to its end. -/
def prints : Value → Bool
  | .prim _ => true
  | .str raw => (fromEscaped raw).isSome
  | .arr es => printsElements es
  | .obj ms => ms.all (fun m => (fromEscaped m.1).isSome) && printsMembers [] ms

def printsElements : List Value → Bool
  | []      => true
  | v :: vs => prints v && printsElements vs

/-- A repeated key prints its first value again. -/
def printsMembers (seen : List (Option (List UInt8))) : List (List UInt8 × Value) → Bool
  | []      => true
  | m :: ms =>
      (decide (fromEscaped m.1 ∈ seen) || printsMember m)
        && printsMembers (fromEscaped m.1 :: seen) ms

def printsMember : List UInt8 × Value → Bool
  | (_, v) => prints v

end

/-- `operator<<` comes to its end. -/
def Object.prints : Object → Bool
  | none   => true
  | some v => Jsmn.prints v

/-- What a key leads to was printed. -/
theorem lookup_of_prints {s : List UInt8} {ms : List (List UInt8 × Value)}
    {seen : List (Option (List UInt8))} (hs : some s ∉ seen)
    (hkeys : ∀ m ∈ ms, (fromEscaped m.1).isSome = true) (h : printsMembers seen ms = true) :
    ∃ o : Object, lookup s ms = .ok o ∧ o.prints = true := by
  induction ms generalizing seen with
  | nil => exact ⟨none, rfl, rfl⟩
  | cons m ms ih =>
      obtain ⟨key, hkey⟩ := Option.isSome_iff_exists.mp (hkeys m List.mem_cons_self)
      simp only [printsMembers, Bool.and_eq_true, Bool.or_eq_true, decide_eq_true_eq, hkey] at h
      simp only [lookup, hkey]
      by_cases hks : key = s
      · rw [if_pos hks]
        refine ⟨some m.2, rfl, ?_⟩
        rcases h.1 with hseen | hm
        · rw [hks] at hseen
          exact absurd hseen hs
        · obtain ⟨raw, v⟩ := m
          simpa only [printsMember, Object.prints] using hm
      · rw [if_neg hks]
        refine ih ?_ (fun m' hm' => hkeys m' (List.mem_cons_of_mem _ hm')) h.2
        rintro (_ | ⟨_, hmem⟩)
        · exact hks rfl
        · exact hs hmem

theorem Object.index_of_prints {o : Object} (h : o.prints = true) (s : String) :
    o.index s = .error .typeError ∨ ∃ o' : Object, o.index s = .ok o' ∧ o'.prints = true := by
  match o with
  | none => exact Or.inl rfl
  | some (.prim _) => exact Or.inl rfl
  | some (.str _) => exact Or.inl rfl
  | some (.arr _) => exact Or.inl rfl
  | some (.obj ms) =>
      simp only [Object.prints, Jsmn.prints, Bool.and_eq_true, List.all_eq_true] at h
      exact Or.inr (lookup_of_prints (by simp) h.1 h.2)

theorem Object.str_of_prints {o : Object} (h : o.prints = true) :
    o.str = .error .typeError ∨ ∃ s, o.str = .ok s := by
  match o with
  | none => exact Or.inl rfl
  | some (.prim _) => exact Or.inl rfl
  | some (.arr _) => exact Or.inl rfl
  | some (.obj _) => exact Or.inl rfl
  | some (.str raw) =>
      obtain ⟨s, hs⟩ := Option.isSome_iff_exists.mp (show (fromEscaped raw).isSome = true from h)
      refine Or.inr ⟨s, ?_⟩
      simp only [Object.str, hs]

/-! ## Lengths -/

mutual

/-- The length of the shortest text of a value. -/
def valueLength : Value → Nat
  | .prim text => text.length
  | .str raw   => raw.length + 2
  | .arr es    => elementsLength es + 2
  | .obj ms    => membersLength ms + 2

def elementsLength : List Value → Nat
  | []      => 0
  | v :: vs => valueLength v + elementsLength vs

def membersLength : List (List UInt8 × Value) → Nat
  | []      => 0
  | m :: ms => memberLength m + membersLength ms

def memberLength : List UInt8 × Value → Nat
  | (key, v) => key.length + 3 + valueLength v

end

/-- The length of the text behind an object. -/
def Object.length : Object → Nat
  | none   => 0
  | some v => valueLength v

theorem length_lookup {s : List UInt8} {ms : List (List UInt8 × Value)} {o : Object}
    (h : lookup s ms = .ok o) : o.length ≤ membersLength ms := by
  induction ms with
  | nil =>
      cases h
      exact Nat.zero_le _
  | cons m ms ih =>
      obtain ⟨raw, v⟩ := m
      simp only [lookup] at h
      cases hkey : fromEscaped raw with
      | none =>
          rw [hkey] at h
          cases h
      | some key =>
          simp only [hkey] at h
          simp only [membersLength, memberLength]
          by_cases hks : key = s
          · rw [if_pos hks] at h
            cases h
            simp only [Object.length]
            omega
          · rw [if_neg hks] at h
            have := ih h
            omega

theorem Object.length_index {o o' : Object} {s : String} (h : o.index s = .ok o') :
    o'.length ≤ o.length := by
  match o with
  | none => cases h
  | some (.prim _) => cases h
  | some (.str _) => cases h
  | some (.arr _) => cases h
  | some (.obj ms) =>
      have := length_lookup h
      simp only [Object.length, valueLength] at this ⊢
      omega

theorem Object.length_str {o : Object} {s : List UInt8} (h : o.str = .ok s) :
    s.length ≤ 2 * o.length := by
  match o with
  | none => cases h
  | some (.prim _) => cases h
  | some (.arr _) => cases h
  | some (.obj _) => cases h
  | some (.str raw) =>
      simp only [Object.str] at h
      cases hs : fromEscaped raw with
      | none =>
          rw [hs] at h
          cases h
      | some t =>
          rw [hs] at h
          cases h
          have := length_fromEscaped hs
          simp only [Object.length, valueLength]
          omega

end Jsmn
