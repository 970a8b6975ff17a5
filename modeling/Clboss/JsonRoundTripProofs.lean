import Clboss.JsmnJsonProofs
import Clboss.JsmnHandleProofs
import Clboss.JsonOutProofs
import Mathlib.Data.Nat.Digits.Lemmas

/-! # `Json::Out` and `Jsmn` — what is built is read back

    The text of a tree is the text of a concrete syntax tree, with a space after
    every comma and colon (`exists_syn`), so `jsmn` reads it as the value that
    still has its strings escaped.  Unescaping undoes the escaping of ASCII
    (`fromEscaped_toEscaped`), and so the accessors, from token to token, find
    what was built (`agrees_of_value`).

    Of members with the same key the accessors find the first only; `keys` has
    them all. -/

namespace Json

open Jsmn

/-! ## Reading from a stream -/

/-- The loop of `operator>>`: one byte after the other up to a datum; `none` is an
    exception. -/
def extractFrom (s : Impl) : List UInt8 → Option ParseResult
  | []      => none
  | c :: cs =>
      match (s.loadBuffer [c]).parseBuffer with
      | (.objects [], s') => extractFrom s' cs
      | (.objects [r], _) => some r
      | _                 => none

/-- `operator>>`, after `std::ws`. -/
def extract (text : List UInt8) : Option ParseResult :=
  extractFrom .init (text.dropWhile (fun c => c = ' '.toUInt8 ∨ 9 ≤ c ∧ c ≤ 13))

/-- What is found byte by byte. -/
theorem extractFrom_of_feedPieces {r : ParseResult} {text : List UInt8} :
    ∀ {s : Impl}, (s.feedPieces (text.map (fun c => [c]))).1 = [r] →
      extractFrom s text = some r := by
  induction text with
  | nil =>
      intro s h
      cases h
  | cons c text ih =>
      intro s h
      rw [List.map_cons] at h
      unfold Impl.feedPieces at h
      unfold extractFrom
      generalize (s.loadBuffer [c]).parseBuffer = out at h ⊢
      obtain ⟨parsed, s'⟩ := out
      cases parsed with
      | parseError text pos => cases h
      | assertFailed => cases h
      | objects rs =>
          cases rs with
          | nil => exact ih h
          | cons r' rs =>
              obtain ⟨rfl, hrest⟩ := List.cons.inj h
              obtain ⟨rfl, -⟩ := List.append_eq_nil_iff.mp hrest
              rfl

/-- What is no primitive begins with a byte that is read as it is. -/
theorem bracket_text {v : Syn} (hv : v.isPrim = false) :
    ∃ c cs, v.text = c :: cs ∧ ¬ (c = ' '.toUInt8 ∨ 9 ≤ c ∧ c ≤ 13) := by
  cases v with
  | prim x => cases hv
  | str us => exact ⟨_, _, rfl, by decide⟩
  | emptyArr w => exact ⟨_, _, rfl, by decide⟩
  | arr es => exact ⟨_, _, rfl, by decide⟩
  | emptyObj w => exact ⟨_, _, rfl, by decide⟩
  | obj ms => exact ⟨_, _, rfl, by decide⟩

/-- No whitespace. -/
def noWs : Ws := ⟨[], blank_nil⟩

/-- A blank. -/
def spaceWs : Ws := ⟨[' '.toUInt8], List.forall_mem_singleton.mpr List.mem_cons_self⟩

/-- A value that is not a primitive is read. -/
theorem extract_text {v : Syn} (hv : v.isPrim = false) :
    ∃ r, extract v.text = some r ∧ r.value = some v.value := by
  have hspaced : Spaced [(v, noWs)] := by
    intro i hi
    cases hi
  have htext : streamText noWs [(v, noWs)] = v.text := by simp [streamText, noWs]
  have hpieces : (v.text.map (fun c => [c])).flatten = streamText noWs [(v, noWs)] := by
    rw [htext, ← List.flatMap_def, List.flatMap_singleton']
  have hdelivered : delivered [(v, noWs)] = [v.value] := by simp [delivered, Item.pending, hv]
  obtain ⟨rs, hfeed, hvalues⟩ := feedPieces_items hspaced hpieces
  rw [hdelivered] at hvalues
  obtain ⟨r, rfl, hvalue⟩ := List.map_eq_singleton_iff.mp hvalues
  obtain ⟨c, cs, hcons, hc⟩ := bracket_text hv
  refine ⟨r, ?_, hvalue⟩
  unfold extract
  rw [hcons, List.dropWhile_cons_of_neg (by simpa using hc), ← hcons,
    extractFrom_of_feedPieces (congrArg Prod.fst hfeed)]

/-! ## Values -/

mutual

/-- All strings are ASCII. -/
def Tree.Ascii : Tree → Prop
  | .str s  => ∀ c ∈ s, c < 0x80
  | .arr es => AsciiElements es
  | .obj ms => AsciiMembers ms
  | _       => True

/-- All elements are. -/
def AsciiElements : List Tree → Prop
  | []      => True
  | t :: ts => t.Ascii ∧ AsciiElements ts

/-- All members are, names and values. -/
def AsciiMembers : List (List UInt8 × Tree) → Prop
  | []      => True
  | m :: ms => AsciiMember m ∧ AsciiMembers ms

def AsciiMember : List UInt8 × Tree → Prop
  | (name, t) => (∀ c ∈ name, c < 0x80) ∧ t.Ascii

end

mutual

/-- The value of a tree, its strings escaped. -/
def Tree.value : Tree → Value
  | .null   => .prim Tree.null.text
  | .bool b => .prim (Tree.bool b).text
  | .int n  => .prim (intText n)
  | .str s  => .str (toEscaped s)
  | .arr es => .arr (valuesOf es)
  | .obj ms => .obj (memberValues ms)

/-- The values of the elements. -/
def valuesOf : List Tree → List Value
  | []      => []
  | t :: ts => t.value :: valuesOf ts

/-- The values of the members, under escaped names. -/
def memberValues : List (List UInt8 × Tree) → List (List UInt8 × Value)
  | []      => []
  | m :: ms => memberValue m :: memberValues ms

def memberValue : List UInt8 × Tree → List UInt8 × Value
  | (name, t) => (toEscaped name, t.value)

end

/-! ## Syntax -/

/-- A fact about each of the first bytes, by trying them. -/
theorem forall_lt_of_all {P : UInt8 → Prop} {k : ℕ} (h : ∀ n < k, P (UInt8.ofNat n)) (c : UInt8)
    (hc : c.toNat < k) : P c := by
  have := h c.toNat hc
  rwa [UInt8.ofNat_toNat] at this

/-- Digits as they are printed. -/
theorem exists_digits {l : List ℕ} (h : ∀ d ∈ l, d < 10) :
    ∃ ds : List (Fin 10), ds.map digit = l.map (fun d => UInt8.ofNat (48 + d)) := by
  induction l with
  | nil => exact ⟨[], rfl⟩
  | cons d l ih =>
      obtain ⟨ds, hds⟩ := ih (fun d hd => h d (List.mem_cons_of_mem _ hd))
      exact ⟨⟨d, h d List.mem_cons_self⟩ :: ds, by rw [List.map_cons, hds]; rfl⟩

/-- A number that is printed is the part before a point. -/
theorem exists_intPart (n : ℕ) : ∃ i : IntPart, i.text = Decimals.text n := by
  unfold Decimals.text
  split
  · exact ⟨.zero, rfl⟩
  · rename_i hn
    have hne : Nat.digits 10 n ≠ [] := Nat.digits_ne_nil_iff_ne_zero.mpr hn
    have hlast := Nat.getLast_digit_ne_zero 10 hn
    have hlt : ∀ d ∈ Nat.digits 10 n, d < 10 := fun d hd => Nat.digits_lt_base (by decide) hd
    have hsplit := List.dropLast_append_getLast hne
    generalize (Nat.digits 10 n).getLast hne = d at hlast hsplit
    obtain ⟨ds, hds⟩ := exists_digits (l := (Nat.digits 10 n).dropLast.reverse)
      (fun d hd => hlt d (List.dropLast_subset _ (List.mem_reverse.mp hd)))
    have hd : d < 10 := hlt d (hsplit ▸ List.mem_append_right _ (List.mem_singleton_self d))
    refine ⟨.digits ⟨d - 1, by omega⟩ ds, ?_⟩
    rw [← hsplit, List.reverse_append, List.reverse_singleton, List.singleton_append,
      List.map_cons, ← hds]
    show digit _ :: _ = _
    congr 1
    show UInt8.ofNat (48 + (d - 1 + 1)) = _
    rw [Nat.sub_add_cancel (Nat.pos_of_ne_zero hlast)]

/-- A decimal number is a JSON number. -/
theorem exists_number (n : ℤ) : ∃ x : Prim, x.text = intText n := by
  obtain ⟨i, hi⟩ := exists_intPart n.natAbs
  refine ⟨.number ⟨n < 0, i, none, none⟩, ?_⟩
  unfold Prim.text Number.text intText
  simp [hi]

/-- The escape of a control character has hexadecimal digits. -/
theorem hexDigit_mem {c : UInt8} (h : c < 32) :
    hexDigit (c / 16) ∈ hexBytes ∧ hexDigit (c % 16) ∈ hexBytes :=
  forall_lt_of_all (P := fun c => hexDigit (c / 16) ∈ hexBytes ∧ hexDigit (c % 16) ∈ hexBytes)
    (k := 32) (by decide) c (UInt8.lt_iff_toNat_lt.mp h)

/-- A byte that is written is a character of a string. -/
theorem exists_strChar {c : UInt8} (h : c < 0x80) :
    ∃ us : List StrChar, rawText us = escapeChar c := by
  have hesc : ∀ e ∈ escapeBytes, ∃ us : List StrChar, rawText us = ['\\'.toUInt8, e] :=
    fun e he => ⟨[.escape e he], rfl⟩
  unfold escapeChar
  split
  · exact hesc _ (by decide)
  rename_i hquote
  split
  · exact hesc _ (by decide)
  rename_i hback
  split
  · exact hesc _ (by decide)
  split
  · exact hesc _ (by decide)
  split
  · exact hesc _ (by decide)
  split
  · exact hesc _ (by decide)
  split
  · exact hesc _ (by decide)
  split
  · rename_i hcontrol
    obtain ⟨h1, h2⟩ := hexDigit_mem hcontrol
    have hhex : ∀ x ∈ ['0'.toUInt8, '0'.toUInt8, hexDigit (c / 16), hexDigit (c % 16)],
        x ∈ hexBytes := by
      intro x hx
      simp only [List.mem_cons, List.not_mem_nil, or_false] at hx
      rcases hx with rfl | rfl | rfl | rfl
      · decide
      · decide
      · exact h1
      · exact h2
    exact ⟨[.unicode _ _ _ _ hhex], rfl⟩
  · rename_i hplain
    exact ⟨[.plain c ⟨UInt8.not_lt.mp hplain, hquote, hback⟩], rfl⟩

/-- What is escaped can stand in quotes. -/
theorem exists_strChars {s : List UInt8} (h : ∀ c ∈ s, c < 0x80) :
    ∃ us : List StrChar, rawText us = toEscaped s := by
  induction s with
  | nil => exact ⟨[], rfl⟩
  | cons c s ih =>
      obtain ⟨us, hus⟩ := exists_strChar (h c List.mem_cons_self)
      obtain ⟨us', hus'⟩ := ih (fun c hc => h c (List.mem_cons_of_mem _ hc))
      refine ⟨us ++ us', ?_⟩
      unfold rawText at hus hus' ⊢
      rw [List.flatMap_append, hus, hus']
      rfl

/-- So a text that is written is a string. -/
theorem quoted_eq {us : List StrChar} {s : List UInt8} (h : rawText us = toEscaped s) :
    quoted us = serializeString s := by
  unfold quoted serializeString
  rw [h]

mutual

/-- **THE TEXT OF A TREE** is that of a syntax tree with the same value. -/
theorem exists_syn : (t : Tree) → t.Ascii → ∃ v : Syn, v.text = t.text ∧ v.value = t.value
  | .null, _   => ⟨.prim .null, rfl, rfl⟩
  | .bool b, _ => by
      cases b with
      | true => exact ⟨.prim .true, rfl, rfl⟩
      | false => exact ⟨.prim .false, rfl, rfl⟩
  | .int n, _  => by
      obtain ⟨x, hx⟩ := exists_number n
      exact ⟨.prim x, hx, congrArg Value.prim hx⟩
  | .str s, h  => by
      obtain ⟨us, hus⟩ := exists_strChars (s := s) h
      exact ⟨.str us, quoted_eq hus, congrArg Value.str hus⟩
  | .arr [], _ => ⟨.emptyArr noWs, rfl, rfl⟩
  | .arr (t :: ts), h => by
      obtain ⟨es, htext, hvalues⟩ := exists_elements noWs (t :: ts) (List.cons_ne_nil t ts) h
      refine ⟨.arr es, ?_, congrArg Value.arr hvalues⟩
      rw [Syn.text, htext]
      rfl
  | .obj [], _ => ⟨.emptyObj noWs, rfl, rfl⟩
  | .obj (m :: ms), h => by
      obtain ⟨ms', htext, hvalues⟩ := exists_members noWs (m :: ms) (List.cons_ne_nil m ms) h
      refine ⟨.obj ms', ?_, congrArg Value.obj hvalues⟩
      rw [Syn.text, htext]
      rfl

/-- The space after a comma is the whitespace before the next element. -/
theorem exists_elements (w : Ws) : (ts : List Tree) → ts ≠ [] → AsciiElements ts →
    ∃ es : Elements, es.text = w.text ++ elementsText false ts ∧ es.values = valuesOf ts
  | [], hne, _ => absurd rfl hne
  | [t], _, h => by
      obtain ⟨v, htext, hvalue⟩ := exists_syn t h.1
      refine ⟨.one w v noWs, ?_, ?_⟩
      · rw [Elements.text, htext]
        rfl
      · rw [Elements.values, hvalue]
        rfl
  | t :: t' :: ts, _, h => by
      obtain ⟨v, htext, hvalue⟩ := exists_syn t h.1
      obtain ⟨es, hes, hvalues⟩ :=
        exists_elements spaceWs (t' :: ts) (List.cons_ne_nil t' ts) h.2
      refine ⟨.more w v noWs es, ?_, ?_⟩
      · rw [Elements.text, htext, hes]
        rfl
      · rw [Elements.values, hvalue, hvalues]
        rfl

theorem exists_members (w : Ws) : (ms : List (List UInt8 × Tree)) → ms ≠ [] → AsciiMembers ms →
    ∃ ms' : Members, ms'.text = w.text ++ membersText false ms ∧ ms'.values = memberValues ms
  | [], hne, _ => absurd rfl hne
  | [m], _, h => by
      obtain ⟨us, v, htext, hvalue⟩ := exists_member m h.1
      refine ⟨.one w us noWs spaceWs v noWs, ?_, ?_⟩
      · rw [Members.text, memberText]
        simp only [membersText, encomma, Bool.false_eq_true, if_false, List.nil_append,
          List.append_nil, htext, noWs]
      · rw [Members.values, hvalue]
        rfl
  | m :: m' :: ms, _, h => by
      obtain ⟨us, v, htext, hvalue⟩ := exists_member m h.1
      obtain ⟨ms', hms, hvalues⟩ :=
        exists_members spaceWs (m' :: ms) (List.cons_ne_nil m' ms) h.2
      refine ⟨.more w us noWs spaceWs v noWs ms', ?_, ?_⟩
      · rw [Members.text, memberText, hms]
        simp [membersText, htext, encomma, spaceWs, noWs]
      · rw [Members.values, hvalue, hvalues]
        rfl

/-- The space after a colon is the whitespace before the value. -/
theorem exists_member : (m : List UInt8 × Tree) → AsciiMember m →
    ∃ (us : List StrChar) (v : Syn),
      memberPairText m = quoted us ++ (':'.toUInt8 :: (spaceWs.text ++ v.text))
        ∧ (rawText us, v.value) = memberValue m
  | (name, t), h => by
      obtain ⟨us, hus⟩ := exists_strChars h.1
      obtain ⟨v, htext, hvalue⟩ := exists_syn t h.2
      refine ⟨us, v, ?_, ?_⟩
      · rw [memberPairText, fieldName, quoted_eq hus, htext]
        simp [spaceWs]
      · rw [hus, hvalue]
        rfl

end

/-! ## Unescaping -/

/-- A short escape is undone. -/
theorem fromEscaped_short {e u : UInt8} (hu : e ≠ 'u'.toUInt8) (h : unescape e = some u)
    (rest : List UInt8) :
    fromEscaped ('\\'.toUInt8 :: e :: rest) = (fromEscaped rest).map (u :: ·) := by
  rw [fromEscaped.eq_def]
  simp only [ne_eq, not_true_eq_false, if_false, if_neg hu, h, Option.bind_some]

/-- The escape of a control character is undone. -/
theorem hexEscape_control {c : UInt8} (h : c < 32) :
    hexEscape ['0'.toUInt8, '0'.toUInt8, hexDigit (c / 16), hexDigit (c % 16)] = some [c] :=
  forall_lt_of_all
    (P := fun c => hexEscape ['0'.toUInt8, '0'.toUInt8, hexDigit (c / 16), hexDigit (c % 16)]
      = some [c])
    (k := 32) (by decide) c (UInt8.lt_iff_toNat_lt.mp h)

/-- Whatever way a byte was escaped it comes back. -/
theorem fromEscaped_escapeChar {c : UInt8} (h : c < 128) (rest : List UInt8) :
    fromEscaped (escapeChar c ++ rest) = (fromEscaped rest).map (c :: ·) := by
  unfold escapeChar
  split
  · rename_i hc
    subst hc
    exact fromEscaped_short (by decide) (by decide) rest
  split
  · rename_i hc
    subst hc
    exact fromEscaped_short (by decide) (by decide) rest
  rename_i hback
  split
  · rename_i hc
    subst hc
    exact fromEscaped_short (by decide) (by decide) rest
  split
  · rename_i hc
    subst hc
    exact fromEscaped_short (by decide) (by decide) rest
  split
  · rename_i hc
    subst hc
    exact fromEscaped_short (by decide) (by decide) rest
  split
  · rename_i hc
    subst hc
    exact fromEscaped_short (by decide) (by decide) rest
  split
  · rename_i hc
    subst hc
    exact fromEscaped_short (by decide) (by decide) rest
  split
  · rename_i hcontrol
    show fromEscaped ('\\'.toUInt8 :: 'u'.toUInt8 :: '0'.toUInt8 :: '0'.toUInt8
      :: hexDigit (c / 16) :: hexDigit (c % 16) :: rest) = _
    rw [fromEscaped.eq_def]
    simp only [ne_eq, not_true_eq_false, if_false, if_true, hexEscape_control hcontrol,
      Option.bind_some, List.singleton_append]
  · rw [List.singleton_append, fromEscaped.eq_def]
    simp only [if_pos hback]

/-- **UNESCAPING** undoes the escaping of ASCII. -/
theorem fromEscaped_toEscaped {s : List UInt8} (h : ∀ c ∈ s, c < 0x80) :
    fromEscaped (toEscaped s) = some s := by
  induction s with
  | nil => rfl
  | cons c s ih =>
      show fromEscaped (escapeChar c ++ toEscaped s) = _
      rw [fromEscaped_escapeChar (h c List.mem_cons_self),
        ih (fun c hc => h c (List.mem_cons_of_mem _ hc))]
      rfl

/-! ## Values of lists -/

/-- The first value under a name. -/
def firstMember (name : List UInt8) (ms : List (List UInt8 × Tree)) : Option Tree :=
  (ms.find? (fun m => m.1 = name)).map Prod.snd

theorem valuesOf_eq (es : List Tree) : valuesOf es = es.map Tree.value := by
  induction es with
  | nil => rfl
  | cons t ts ih => rw [valuesOf, ih, List.map_cons]

theorem length_memberValues (ms : List (List UInt8 × Tree)) :
    (memberValues ms).length = ms.length := by
  induction ms with
  | nil => rfl
  | cons m ms ih => rw [memberValues, List.length_cons, List.length_cons, ih]

/-- All the names are found. -/
theorem keys_memberValues {ms : List (List UInt8 × Tree)} (h : AsciiMembers ms) :
    (memberValues ms).mapM (fun m => fromEscaped m.1) = some (ms.map Prod.fst) := by
  induction ms with
  | nil => rfl
  | cons m ms ih =>
      obtain ⟨name, t⟩ := m
      rw [memberValues, memberValue, List.mapM_cons, fromEscaped_toEscaped h.1.1, ih h.2]
      rfl

/-- A name leads to the first value under it. -/
theorem lookup_memberValues {ms : List (List UInt8 × Tree)} (h : AsciiMembers ms)
    (name : List UInt8) :
    lookup name (memberValues ms) = .ok ((firstMember name ms).map Tree.value) := by
  induction ms with
  | nil => rfl
  | cons m ms ih =>
      obtain ⟨key, t⟩ := m
      rw [memberValues, memberValue, lookup, fromEscaped_toEscaped h.1.1]
      by_cases hkey : key = name
      · simp [firstMember, hkey]
      · simpa [firstMember, hkey] using ih h.2

/-- An object shows a tree: its tests say what it is, and what the accessors find
    in it are the parts.  A position is one that an `int` can be: a larger one is cast
    to another position. -/
inductive Agrees : Handle → Tree → Prop
  | null {h : Handle} (htype : h.isNull = true) : Agrees h .null
  | bool {h : Handle} {b : Bool} (htype : h.isBoolean = true) (hbool : h.bool = .ok b) :
      Agrees h (.bool b)
  | int {h : Handle} {n : ℤ} (htype : h.isNumber = true) (htext : h.directText = intText n) :
      Agrees h (.int n)
  | str {h : Handle} {s : List UInt8} (htype : h.isString = true) (hstr : h.str = .ok s) :
      Agrees h (.str s)
  | arr {h : Handle} {es : List Tree} (child : ℕ → Handle) (htype : h.isArray = true)
      (hsize : h.size = .ok es.length)
      (hnth : ∀ i < 2 ^ 31, h.nth i = .ok (child i))
      (hbeyond : ∀ i, es.length ≤ i → child i = none)
      (hchild : ∀ i t, es[i]? = some t → Agrees (child i) t) : Agrees h (.arr es)
  | obj {h : Handle} {ms : List (List UInt8 × Tree)} (child : List UInt8 → Handle)
      (htype : h.isObject = true) (hsize : h.size = .ok ms.length)
      (hkeys : h.keys = .ok (ms.map Prod.fst))
      (hget : ∀ name, h.get name = .ok (child name))
      (hbeyond : ∀ name, firstMember name ms = none → child name = none)
      (hchild : ∀ name t, firstMember name ms = some t → Agrees (child name) t) :
      Agrees h (.obj ms)

/-- An integer does not begin like a literal. -/
theorem intText_start (n : ℤ) :
    ∃ c cs, intText n = c :: cs ∧ c ∉ ['t', 'f', 'n'].map Char.toUInt8 := by
  unfold intText
  by_cases hn : n < 0
  · exact ⟨'-'.toUInt8, _, by rw [if_pos hn]; rfl, by decide⟩
  · obtain ⟨i, hi⟩ := exists_intPart n.natAbs
    rw [if_neg hn, ← hi, List.nil_append]
    cases i with
    | zero => exact ⟨_, _, rfl, by decide⟩
    | digits d more =>
        refine ⟨_, _, rfl, ?_⟩
        clear hi
        revert d
        decide

theorem isNumber_intText (n : ℤ) : Object.isNumber (some (.prim (intText n))) = true := by
  obtain ⟨c, cs, hcons, hc⟩ := intText_start n
  rw [hcons]
  simpa [Object.isNumber] using hc

/-- What an accessor finds, from what it finds in the value. -/
theorem exists_ok {x : Except Failure Handle} {o : Object}
    (h : x.map (Option.map Place.value) = .ok (o.map some)) :
    ∃ c : Handle, x = .ok c ∧ c.map Place.value = o.map some := by
  cases x with
  | error e => cases h
  | ok c => exact ⟨c, rfl, Except.ok.inj h⟩

mutual

/-- **SPEC**: the place of a tree's value shows the tree. -/
theorem agrees_of_value : (t : Tree) → t.Ascii → (p : Place) → p.value = some t.value →
    Agrees (some p) t
  | .null, _, p, h => .null (isNull_value h nofun)
  | .bool b, _, p, h => by
      cases b with
      | true => exact .bool (isBoolean_value h nofun) (bool_value h nofun)
      | false => exact .bool (isBoolean_value h nofun) (bool_value h nofun)
  | .int n, _, p, h => by
      have hne : Value.prim (intText n) ≠ .prim [] := by
        obtain ⟨c, cs, hcons, -⟩ := intText_start n
        rw [hcons]
        exact nofun
      exact .int ((isNumber_value h hne).trans (isNumber_intText n)) (directText_value h rfl)
  | .str s, hascii, p, h => by
      refine .str (isString_value h) ((str_value h).trans ?_)
      show (match fromEscaped (toEscaped s) with
        | none => Except.error Failure.assertion
        | some s => .ok s) = _
      rw [fromEscaped_toEscaped hascii]
  | .arr es, hascii, p, h => by
      -- the place of every element, and a null object beyond them
      have hfind : ∀ i : ℕ, ∃ c : Handle, Handle.nthInt (some p) i = .ok c
          ∧ c.map Place.value = ((valuesOf es)[i]?).map some :=
        fun i => exists_ok (nthInt_value h i)
      choose child hnth hvalue using hfind
      refine .arr child (isArray_value h) ?_ ?_ ?_ ?_
      · rw [size_value h]
        show Except.ok (valuesOf es).length = _
        rw [valuesOf_eq, List.length_map]
      · intro i hi
        unfold Handle.nth
        rw [(toInt_eq_iff i).mpr hi]
        exact hnth i
      · intro i hi
        have hnone := hvalue i
        rw [valuesOf_eq, List.getElem?_eq_none (by rw [List.length_map]; exact hi)] at hnone
        exact Option.map_eq_none_iff.mp hnone
      · intro i t ht
        have hsome := hvalue i
        rw [valuesOf_eq, List.getElem?_map, ht] at hsome
        obtain ⟨q, hq, hqv⟩ := Option.map_eq_some_iff.mp hsome
        rw [hq]
        exact agrees_elements es hascii ht q hqv
  | .obj ms, hascii, p, h => by
      have hfind : ∀ name, ∃ c : Handle, Handle.get (some p) name = .ok c
          ∧ c.map Place.value = ((firstMember name ms).map Tree.value).map some := by
        intro name
        refine exists_ok ((get_value h name).trans ?_)
        show (lookup name (memberValues ms)).map _ = _
        rw [lookup_memberValues hascii]
        rfl
      choose child hget hvalue using hfind
      refine .obj child (isObject_value h) ?_ ?_ hget ?_ ?_
      · rw [size_value h]
        show Except.ok (memberValues ms).length = _
        rw [length_memberValues]
      · rw [keys_value h]
        show (match (memberValues ms).mapM (fun m => fromEscaped m.1) with
          | none => Except.error Failure.assertion
          | some keys => .ok keys) = _
        rw [keys_memberValues hascii]
      · intro name hname
        have hnone := hvalue name
        rw [hname] at hnone
        exact Option.map_eq_none_iff.mp hnone
      · intro name t ht
        have hsome := hvalue name
        rw [ht] at hsome
        obtain ⟨q, hq, hqv⟩ := Option.map_eq_some_iff.mp hsome
        rw [hq]
        exact agrees_members ms hascii ht q hqv

theorem agrees_elements : (es : List Tree) → AsciiElements es → ∀ {i : ℕ} {t : Tree}, es[i]? = some t →
    (p : Place) → p.value = some t.value → Agrees (some p) t
  | [], _, i, t, ht, _, _ => by cases ht
  | t' :: es, hascii, 0, t, ht, p, h => by
      cases ht
      exact agrees_of_value t' hascii.1 p h
  | t' :: es, hascii, i + 1, t, ht, p, h => agrees_elements es hascii.2 ht p h

theorem agrees_members : (ms : List (List UInt8 × Tree)) → AsciiMembers ms →
    ∀ {name : List UInt8} {t : Tree}, firstMember name ms = some t → (p : Place) → p.value = some t.value → Agrees (some p) t
  | [], _, name, t, ht, _, _ => by cases ht
  | m :: ms, hascii, name, t, ht, p, h => by
      by_cases hname : m.1 = name
      · have htree : m.2 = t := by simpa [firstMember, hname] using ht
        exact htree ▸ agrees_member m hascii.1 p (htree ▸ h)
      · have hrest : firstMember name ms = some t := by simpa [firstMember, hname] using ht
        exact agrees_members ms hascii.2 hrest p h

theorem agrees_member : (m : List UInt8 × Tree) → AsciiMember m → (p : Place) →
    p.value = some m.2.value → Agrees (some p) m.2
  | (_, t), hascii, p, h => agrees_of_value t hascii.2 p h

end

/-! ## Round trip -/

/-- **HEADLINE**: what a well-nested sequence of calls builds is what `jsmn` reads
    from its text, while this has less than `2 ^ 31` bytes. -/
theorem extract_build {calls : List Call} {t : Tree} (hcalls : builds calls = some t)
    (hascii : t.Ascii) :
    ∃ b r, Builder.run .init calls = some b ∧ extract b.content = some r
      ∧ Agrees (some ⟨r.origString, r.tokens⟩) t := by
  obtain ⟨v, htext, hvalue⟩ := exists_syn t hascii
  have hprim : v.isPrim = false := by
    have hroot := isContainer_of_builds hcalls
    cases v with
    | prim x =>
        cases t with
        | arr es => cases hvalue
        | obj ms => cases hvalue
        | _ => cases hroot
    | _ => rfl
  obtain ⟨r, hr, hrv⟩ := extract_text hprim
  refine ⟨_, r, build_content hcalls, ?_, ?_⟩
  · rw [← htext]
    exact hr
  · exact agrees_of_value t hascii _ (hrv.trans (congrArg some hvalue))

/-- An array with a built value, a control character, a quote and a backslash. -/
def sampleCalls : List Call :=
  [.startObject none, .startArray (some [0x61]), .entry (.int (-10)),
    .entry (.out ⟨_, .obj [], rfl⟩), .startObject none, .field [0x22] (.str [0x5c, 0x01, 0x0a]),
    .endObject, .endArray, .field [] (.bool true), .field [0x62] .null, .endObject]

/-- What they build. -/
def sampleTree : Tree :=
  .obj [([0x61], .arr [.int (-10), .obj [], .obj [([0x22], .str [0x5c, 0x01, 0x0a])]]),
    ([], .bool true), ([0x62], .null)]

theorem extract_build_sample :
    builds sampleCalls = some sampleTree ∧ sampleTree.Ascii
      ∧ ∃ b r, Builder.run .init sampleCalls = some b ∧ extract b.content = some r
        ∧ Agrees (some ⟨r.origString, r.tokens⟩) sampleTree := by
  have hascii : sampleTree.Ascii := by
    simp [sampleTree, Tree.Ascii, AsciiMembers, AsciiMember, AsciiElements]
  exact ⟨rfl, hascii, extract_build rfl hascii⟩

end Json
