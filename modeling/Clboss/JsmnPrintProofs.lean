import Clboss.JsmnEqualProofs
import Clboss.JsmnStringProofs

/-! # `Jsmn::Object` — what is printed, and when `==` is what it should be

    The printed text is JSON with a line for every part (`syn_of_print`), and read back
    it has a value that differs from the one printed in its strings only: they are
    escaped again, and a repeated key shows its first value again (`Printed`).

    A value comes back equal, and is equal both ways, exactly when it is `Regular` and
    no bare primitive (`lawful_iff_regular`).  What the strings lose is known from their escapes.
    A repeated key makes the operator one-sided: the later one is shadowed on the left
    and may be replaced by any new key on the right.  And a primitive that ends the text
    is never delivered, since more of it may come. -/

namespace Jsmn

open Json

/-! ## `print` -/

namespace Handle

/-- `print_indent`. -/
def printIndent (indent : ℕ) : List UInt8 := List.replicate indent '\t'.toUInt8

/-- The loops of `print`: a line for each row, a comma after all but the last. -/
def printRows {α : Type} (indent : ℕ) (row : α → Except Failure (List UInt8)) :
    List α → Except Failure (List UInt8)
  | []      => .ok []
  | a :: as => do
      let text ← row a
      let more ← printRows indent row as
      return printIndent (indent + 1) ++ (text
        ++ ((if as.isEmpty then [] else [','.toUInt8]) ++ ('\n'.toUInt8 :: more)))

section Rows

variable (print : Handle → Except Failure (List UInt8)) (h : Handle)

/-- A key and its value. -/
def printMember (key : List UInt8) : Except Failure (List UInt8) := do
  let value ← print (← h.get key)
  return '"'.toUInt8 :: (toEscaped key
    ++ ('"'.toUInt8 :: ' '.toUInt8 :: ':'.toUInt8 :: ' '.toUInt8 :: value))

/-- The value at a position, which is below a size, and a size is an `int`. -/
def printElement (i : ℕ) : Except Failure (List UInt8) := do print (← h.nthInt i)

end Rows

/-- `print`, to a depth. -/
def printFuel : ℕ → ℕ → Handle → Except Failure (List UInt8)
  | 0, _, _             => .error .assertion
  | fuel + 1, indent, h =>
      if h.isNull then .ok Prim.null.text
      else if h.isBoolean then do return if ← h.bool then Prim.true.text else Prim.false.text
      else if h.isString then do
        return '"'.toUInt8 :: (toEscaped (← h.str) ++ ['"'.toUInt8])
      else if h.isObject then do
        let keys ← h.keys
        if keys.length = 0 then return ['\x7b', ' ', '\x7d'].map Char.toUInt8
        let rows ← printRows indent (printMember (printFuel fuel (indent + 1)) h) keys
        return '\x7b'.toUInt8 :: '\n'.toUInt8 :: (rows ++ (printIndent indent ++ ['\x7d'.toUInt8]))
      else if h.isArray then do
        let size ← h.size
        if size = 0 then return ['[', ' ', ']'].map Char.toUInt8
        let rows ← printRows indent (printElement (printFuel fuel (indent + 1)) h) (List.range size)
        return '['.toUInt8 :: '\n'.toUInt8 :: (rows ++ (printIndent indent ++ [']'.toUInt8]))
      else if h.isNumber then .ok h.directText
      else .error .assertion

/-- `operator<<`. -/
def print (h : Handle) : Except Failure (List UInt8) :=
  printFuel ((h.elim 0 fun p => p.tokens.length) + 1) 0 h

end Handle

/-! ## Syntax of values -/

/-- Elements without whitespace. -/
theorem exists_elements_of_values {es : List Value} (hne : es ≠ [])
    (h : ∀ e ∈ es, ∃ s : Syn, s.value = e) : ∃ t : Elements, t.values = es := by
  induction es with
  | nil => exact absurd rfl hne
  | cons e es ih =>
      obtain ⟨s, hs⟩ := h e List.mem_cons_self
      cases es with
      | nil => exact ⟨.one noWs s noWs, by rw [Elements.values, hs]⟩
      | cons e' es =>
          obtain ⟨t, ht⟩ := ih (List.cons_ne_nil e' es)
            (fun x hx => h x (List.mem_cons_of_mem _ hx))
          exact ⟨.more noWs s noWs t, by rw [Elements.values, hs, ht]⟩

/-- Members without whitespace. -/
theorem exists_members_of_values {ms : List (List UInt8 × Value)} (hne : ms ≠ [])
    (hnames : ∀ m ∈ ms, ∃ us : List StrChar, rawText us = m.1)
    (h : ∀ m ∈ ms, ∃ s : Syn, s.value = m.2) : ∃ t : Members, t.values = ms := by
  induction ms with
  | nil => exact absurd rfl hne
  | cons m ms ih =>
      obtain ⟨us, hus⟩ := hnames m List.mem_cons_self
      obtain ⟨s, hs⟩ := h m List.mem_cons_self
      cases ms with
      | nil => exact ⟨.one noWs us noWs noWs s noWs, by rw [Members.values, hus, hs]⟩
      | cons m' ms =>
          obtain ⟨t, ht⟩ := ih (List.cons_ne_nil m' ms)
            (fun x hx => hnames x (List.mem_cons_of_mem _ hx))
            (fun x hx => h x (List.mem_cons_of_mem _ hx))
          exact ⟨.more noWs us noWs noWs s noWs t, by rw [Members.values, hus, hs, ht]⟩

theorem WellFormed.exists_syn {v : Value} (h : WellFormed v) : ∃ s : Syn, s.value = v := by
  induction h with
  | prim x => exact ⟨.prim x, rfl⟩
  | str us => exact ⟨.str us, rfl⟩
  | @arr es _ ih =>
      cases es with
      | nil => exact ⟨.emptyArr noWs, rfl⟩
      | cons e es =>
          obtain ⟨t, ht⟩ := exists_elements_of_values (List.cons_ne_nil e es) ih
          exact ⟨.arr t, congrArg Value.arr ht⟩
  | @obj ms hnames _ ih =>
      cases ms with
      | nil => exact ⟨.emptyObj noWs, rfl⟩
      | cons m ms =>
          obtain ⟨t, ht⟩ := exists_members_of_values (List.cons_ne_nil m ms) hnames ih
          exact ⟨.obj t, congrArg Value.obj ht⟩

mutual

theorem wellFormed_value : (s : Syn) → WellFormed s.value
  | .prim x     => .prim x
  | .str us     => .str us
  | .emptyArr _ => .arr nofun
  | .arr es     => .arr (wellFormed_values es)
  | .emptyObj _ => .obj nofun nofun
  | .obj ms     => .obj (fun m hm => (wellFormed_memberValues ms m hm).1)
      (fun m hm => (wellFormed_memberValues ms m hm).2)

theorem wellFormed_values : (es : Elements) → ∀ e ∈ es.values, WellFormed e
  | .one _ v _ => List.forall_mem_singleton.mpr (wellFormed_value v)
  | .more _ v _ es => List.forall_mem_cons.mpr ⟨wellFormed_value v, wellFormed_values es⟩

theorem wellFormed_memberValues : (ms : Members) → ∀ m ∈ ms.values,
    (∃ us : List StrChar, rawText us = m.1) ∧ WellFormed m.2
  | .one _ key _ _ v _ => List.forall_mem_singleton.mpr ⟨⟨key, rfl⟩, wellFormed_value v⟩
  | .more _ key _ _ v _ ms =>
      List.forall_mem_cons.mpr ⟨⟨⟨key, rfl⟩, wellFormed_value v⟩, wellFormed_memberValues ms⟩

end

/-- Values of JSON are values of texts. -/
theorem wellFormed_iff {v : Value} : WellFormed v ↔ ∃ s : Syn, s.value = v := by
  constructor
  · exact WellFormed.exists_syn
  · rintro ⟨s, rfl⟩
    exact wellFormed_value s

/-! ## What is printed -/

/-- The value of the printed text. -/
inductive Printed : Value → Value → Prop
  | prim (raw : List UInt8) : Printed (.prim raw) (.prim raw)
  | str {raw s : List UInt8} (h : fromEscaped raw = some s) :
      Printed (.str raw) (.str (toEscaped s))
  | arr {es es' : List Value} (hsize : es.length = es'.length)
      (h : ∀ (i : ℕ) (e e' : Value), es[i]? = some e → es'[i]? = some e' → Printed e e') :
      Printed (.arr es) (.arr es')
  | obj {ms ms' : List (List UInt8 × Value)} {keys : List (List UInt8)} (hkeys : Keys ms keys)
      (hnames : ms'.map Prod.fst = keys.map toEscaped)
      (h : ∀ (i : ℕ) (key : List UInt8) (m' : List UInt8 × Value) (v : Value),
        keys[i]? = some key → ms'[i]? = some m' → lookup key ms = .ok (some v) →
        Printed v m'.2) : Printed (.obj ms) (.obj ms')

theorem quoted_toEscaped (s : List UInt8) : ∃ us : List StrChar, rawText us = toEscaped s
    ∧ quoted us = '"'.toUInt8 :: (toEscaped s ++ ['"'.toUInt8]) := by
  obtain ⟨us, hus⟩ := validBody_toEscaped s
  exact ⟨us, hus, by rw [quoted, hus]⟩

/-- A new line, and the blanks in front of a row. -/
def lineWs (indent : ℕ) : Ws where
  text  := '\n'.toUInt8 :: Handle.printIndent indent
  blank := List.forall_mem_cons.mpr ⟨by decide, fun c hc => by
    rw [(List.mem_replicate.mp hc).2]
    decide⟩

section Rows

variable {α : Type} {indent : ℕ} {row : α → Except Failure (List UInt8)} {as : List α}
  {text : List UInt8}

/-- What the first row and the others come to. -/
theorem printRows_cons {a : α} (h : Handle.printRows indent row (a :: as) = .ok text) :
    ∃ t more, row a = .ok t ∧ Handle.printRows indent row as = .ok more
      ∧ text = Handle.printIndent (indent + 1) ++ (t
        ++ ((if as.isEmpty then [] else [','.toUInt8]) ++ ('\n'.toUInt8 :: more))) := by
  rw [Handle.printRows, bind_eq_ok] at h
  obtain ⟨t, ht, h⟩ := h
  obtain ⟨more, hmore, h⟩ := bind_eq_ok.mp h
  exact ⟨t, more, ht, hmore, (Except.ok.inj h).symm⟩

theorem exists_printRows (indent : ℕ) (h : ∀ a ∈ as, ∃ t, row a = .ok t) :
    ∃ text, Handle.printRows indent row as = .ok text := by
  induction as with
  | nil => exact ⟨[], rfl⟩
  | cons a as ih =>
      obtain ⟨t, ht⟩ := h a List.mem_cons_self
      obtain ⟨more, hmore⟩ := ih (fun x hx => h x (List.mem_cons_of_mem _ hx))
      rw [Handle.printRows, ht, hmore]
      exact ⟨_, rfl⟩

/-- The rows of an array, with the line breaks around them. -/
theorem elements_of_rows {P : α → Value → Prop} (hne : as ≠ [])
    (hrow : ∀ a ∈ as, ∀ t, row a = .ok t → ∃ s : Syn, s.text = t ∧ P a s.value)
    (h : Handle.printRows indent row as = .ok text) :
    ∃ es : Elements, es.text = '\n'.toUInt8 :: (text ++ Handle.printIndent indent)
      ∧ List.Forall₂ P as es.values := by
  induction as generalizing text with
  | nil => exact absurd rfl hne
  | cons a as ih =>
      obtain ⟨t, more, ht, hmore, rfl⟩ := printRows_cons h
      obtain ⟨s, rfl, hs⟩ := hrow a List.mem_cons_self t ht
      cases as with
      | nil =>
          cases hmore
          refine ⟨.one (lineWs (indent + 1)) s (lineWs indent), ?_, .cons hs .nil⟩
          simp [Elements.text, lineWs]
      | cons a' as =>
          obtain ⟨es, hes, hall⟩ := ih (List.cons_ne_nil a' as)
            (fun x hx => hrow x (List.mem_cons_of_mem _ hx)) hmore
          refine ⟨.more (lineWs (indent + 1)) s noWs es, ?_, .cons hs hall⟩
          simp [Elements.text, lineWs, noWs, hes]

/-- The rows of an object. -/
theorem members_of_rows {P : α → List UInt8 × Value → Prop} (hne : as ≠ [])
    (hrow : ∀ a ∈ as, ∀ t, row a = .ok t → ∃ (us : List StrChar) (s : Syn),
      t = quoted us ++ (' '.toUInt8 :: ':'.toUInt8 :: ' '.toUInt8 :: s.text)
        ∧ P a (rawText us, s.value))
    (h : Handle.printRows indent row as = .ok text) :
    ∃ ms : Members, ms.text = '\n'.toUInt8 :: (text ++ Handle.printIndent indent)
      ∧ List.Forall₂ P as ms.values := by
  induction as generalizing text with
  | nil => exact absurd rfl hne
  | cons a as ih =>
      obtain ⟨t, more, ht, hmore, rfl⟩ := printRows_cons h
      obtain ⟨us, s, rfl, hs⟩ := hrow a List.mem_cons_self t ht
      cases as with
      | nil =>
          cases hmore
          refine ⟨.one (lineWs (indent + 1)) us spaceWs spaceWs s (lineWs indent), ?_,
            .cons hs .nil⟩
          simp [Members.text, memberText, lineWs, spaceWs]
      | cons a' as =>
          obtain ⟨ms, hms, hall⟩ := ih (List.cons_ne_nil a' as)
            (fun x hx => hrow x (List.mem_cons_of_mem _ hx)) hmore
          refine ⟨.more (lineWs (indent + 1)) us spaceWs spaceWs s noWs ms, ?_, .cons hs hall⟩
          simp [Members.text, memberText, lineWs, spaceWs, noWs, hms]

end Rows

/-! ## The text -/

theorem IntPart.text_head (i : IntPart) :
    ∃ c cs, i.text = c :: cs ∧ c ∉ ['t', 'f', 'n'].map Char.toUInt8 := by
  cases i with
  | zero => exact ⟨_, _, rfl, by decide⟩
  | digits d more =>
      refine ⟨_, _, rfl, ?_⟩
      revert d
      decide

/-- A number starts with a digit or a minus. -/
theorem kind_number (n : Number) : kind (.prim (Prim.number n).text) = .number := by
  have hhead : ∃ c cs, n.text = c :: cs ∧ c ∉ ['t', 'f', 'n'].map Char.toUInt8 := by
    unfold Number.text
    cases n.negative with
    | true => exact ⟨'-'.toUInt8, _, rfl, by decide⟩
    | false =>
        obtain ⟨c, cs, htext, hc⟩ := IntPart.text_head n.int
        rw [htext]
        exact ⟨c, _, rfl, hc⟩
  obtain ⟨c, cs, htext, hc⟩ := hhead
  simp only [List.map_cons, List.map_nil, List.mem_cons, List.not_mem_nil, or_false,
    not_or] at hc
  show (scalar n.text).kind = _
  unfold scalar
  rw [htext, List.head?_cons]
  simp only [Option.some.injEq, hc.1, hc.2.1, hc.2.2, if_false]
  rfl

section Place

variable {p : Place} {fuel indent : ℕ} {v : Value} {text : List UInt8}

/-- The branch that the kind of the value takes. -/
theorem printFuel_of_kind (hp : p.value = some v) (hv : v ≠ .prim []) :
    Handle.printFuel (fuel + 1) indent (some p) = match kind v with
      | .null    => .ok Prim.null.text
      | .boolean => do
          return if ← Handle.bool (some p) then Prim.true.text else Prim.false.text
      | .string  => do
          return '"'.toUInt8 :: (toEscaped (← Handle.str (some p)) ++ ['"'.toUInt8])
      | .number  => .ok (Handle.directText (some p))
      | .object  => do
          let keys ← Handle.keys (some p)
          if keys.length = 0 then return ['\x7b', ' ', '\x7d'].map Char.toUInt8
          let rows ← Handle.printRows indent
            (Handle.printMember (Handle.printFuel fuel (indent + 1)) (some p)) keys
          return '\x7b'.toUInt8 :: '\n'.toUInt8
            :: (rows ++ (Handle.printIndent indent ++ ['\x7d'.toUInt8]))
      | .array   => do
          let size ← Handle.size (some p)
          if size = 0 then return ['[', ' ', ']'].map Char.toUInt8
          let rows ← Handle.printRows indent
            (Handle.printElement (Handle.printFuel fuel (indent + 1)) (some p)) (List.range size)
          return '['.toUInt8 :: '\n'.toUInt8
            :: (rows ++ (Handle.printIndent indent ++ [']'.toUInt8])) := by
  have hflags := flags_value hp hv
  unfold Handle.flags Kind.flags at hflags
  simp only [List.cons.injEq, and_true] at hflags
  obtain ⟨hnull, hboolean, hstring, hobject, harray, hnumber⟩ := hflags
  rw [Handle.printFuel, hnull, hboolean, hstring, hobject, harray, hnumber]
  cases kind v <;> rfl

/-- A primitive is printed as it is. -/
theorem printFuel_prim (x : Prim) (hp : p.value = some (.prim x.text)) :
    Handle.printFuel (fuel + 1) indent (some p) = .ok x.text := by
  have hne := Prim.text_ne_nil x
  rw [printFuel_of_kind hp (fun heq => hne (Value.prim.inj heq))]
  cases x with
  | null => rfl
  | true =>
      have hb := bool_scalar (b := true) hp hne rfl
      show (Handle.bool (some p) >>= fun b =>
        Except.ok (if b = true then Prim.true.text else Prim.false.text)) = _
      rw [hb]
      rfl
  | false =>
      have hb := bool_scalar (b := false) hp hne rfl
      show (Handle.bool (some p) >>= fun b =>
        Except.ok (if b = true then Prim.true.text else Prim.false.text)) = _
      rw [hb]
      rfl
  | number n =>
      rw [kind_number]
      exact congrArg Except.ok (directText_value hp rfl)

theorem printFuel_str {raw : List UInt8} (hp : p.value = some (.str raw)) :
    Handle.printFuel (fuel + 1) indent (some p) = .ok text ↔
      ∃ s, fromEscaped raw = some s ∧ '"'.toUInt8 :: (toEscaped s ++ ['"'.toUInt8]) = text := by
  rw [printFuel_of_kind hp nofun]
  show (Handle.str (some p) >>= fun s =>
    Except.ok ('"'.toUInt8 :: (toEscaped s ++ ['"'.toUInt8]))) = _ ↔ _
  simp only [bind_eq_ok, str_eq_ok hp, Except.ok.injEq]

/-- An empty row of parts, or not. -/
theorem ite_empty_eq_ok {α : Type} {as : List α} {a b : List UInt8}
    {x : Except Failure (List UInt8)} :
    (if as.length = 0 then Except.ok a else x) = .ok b ↔
      as = [] ∧ a = b ∨ as ≠ [] ∧ x = .ok b := by
  by_cases has : as = []
  · rw [if_pos (List.length_eq_zero_iff.mpr has), Except.ok.injEq]
    exact ⟨fun h => Or.inl ⟨has, h⟩, fun h => h.elim And.right (fun h => absurd has h.1)⟩
  · rw [if_neg (fun h => has (List.length_eq_zero_iff.mp h))]
    exact ⟨fun h => Or.inr ⟨has, h⟩, fun h => h.elim (fun h => absurd h.1 has) And.right⟩

theorem printFuel_arr {es : List Value} (hp : p.value = some (.arr es)) :
    Handle.printFuel (fuel + 1) indent (some p) = .ok text ↔
      es = [] ∧ ['[', ' ', ']'].map Char.toUInt8 = text
      ∨ es ≠ [] ∧ ∃ rows, Handle.printRows indent
          (Handle.printElement (Handle.printFuel fuel (indent + 1)) (some p))
          (List.range es.length) = .ok rows
        ∧ '['.toUInt8 :: '\n'.toUInt8 :: (rows ++ (Handle.printIndent indent ++ [']'.toUInt8]))
          = text := by
  rw [printFuel_of_kind hp nofun]
  show (Handle.size (some p) >>= fun size => if size = 0 then Except.ok _ else _) = _ ↔ _
  rw [show Handle.size (some p) = .ok es.length from size_value hp]
  show (if es.length = 0 then Except.ok _ else _) = _ ↔ _
  rw [ite_empty_eq_ok, bind_eq_ok]
  simp only [pure, Except.pure, Except.ok.injEq]

theorem printFuel_obj {ms : List (List UInt8 × Value)} (hp : p.value = some (.obj ms)) :
    Handle.printFuel (fuel + 1) indent (some p) = .ok text ↔
      ∃ keys, Keys ms keys ∧ (keys = [] ∧ ['\x7b', ' ', '\x7d'].map Char.toUInt8 = text
        ∨ keys ≠ [] ∧ ∃ rows, Handle.printRows indent
            (Handle.printMember (Handle.printFuel fuel (indent + 1)) (some p)) keys = .ok rows
          ∧ '\x7b'.toUInt8 :: '\n'.toUInt8
            :: (rows ++ (Handle.printIndent indent ++ ['\x7d'.toUInt8])) = text) := by
  rw [printFuel_of_kind hp nofun]
  show (Handle.keys (some p) >>= fun keys => if keys.length = 0 then Except.ok _ else _) = _ ↔ _
  simp only [bind_eq_ok, keys_eq hp, ite_empty_eq_ok, pure, Except.pure, Except.ok.injEq]

end Place

/-- Related lists are related position by position. -/
theorem forall₂_getElem? {α β : Type} {R : α → β → Prop} {as : List α} {bs : List β}
    (h : List.Forall₂ R as bs) {i : ℕ} {a : α} {b : β} (ha : as[i]? = some a)
    (hb : bs[i]? = some b) : R a b := by
  induction h generalizing i with
  | nil => cases ha
  | cons hab _ ih =>
      cases i with
      | zero =>
          cases ha
          cases hb
          exact hab
      | succ i => exact ih ha hb

/-- **THE TEXT** that is printed is JSON, and its value the one printed. -/
theorem syn_of_print (fuel : ℕ) : ∀ {p : Place} {v : Value} {indent : ℕ} {text : List UInt8},
    p.value = some v → WellFormed v → Handle.printFuel fuel indent (some p) = .ok text →
    ∃ s : Syn, s.text = text ∧ Printed v s.value := by
  induction fuel with
  | zero =>
      intro p v indent text _ _ h
      cases h
  | succ fuel ih =>
      intro p v indent text hp hv h
      cases hv with
      | prim x =>
          rw [printFuel_prim x hp] at h
          cases h
          exact ⟨.prim x, rfl, .prim _⟩
      | str us =>
          obtain ⟨s, hs, rfl⟩ := (printFuel_str hp).mp h
          obtain ⟨us', hus', htext⟩ := quoted_toEscaped s
          refine ⟨.str us', htext, ?_⟩
          show Printed _ (.str (rawText us'))
          rw [hus']
          exact .str hs
      | @arr es hes =>
          rcases (printFuel_arr hp).mp h with ⟨rfl, rfl⟩ | ⟨hne, rows, hrows, rfl⟩
          · exact ⟨.emptyArr spaceWs, rfl, .arr rfl nofun⟩
          have hrow : ∀ i ∈ List.range es.length, ∀ t,
              Handle.printElement (Handle.printFuel fuel (indent + 1)) (some p) i = .ok t →
              ∃ s : Syn, s.text = t ∧ ∀ e, es[i]? = some e → Printed e s.value := by
            intro i hi t ht
            have he := List.getElem?_eq_getElem (List.mem_range.mp hi)
            obtain ⟨q, hq, hqv, -⟩ := exists_nth hp he
            rw [Handle.printElement, hq] at ht
            obtain ⟨s, hs, hprinted⟩ := ih hqv (hes _ (List.mem_of_getElem? he)) ht
            refine ⟨s, hs, ?_⟩
            intro e he'
            obtain rfl := Option.some.inj (he.symm.trans he')
            exact hprinted
          obtain ⟨es', hes', hall⟩ := elements_of_rows
            (P := fun i e' => ∀ e, es[i]? = some e → Printed e e')
            (fun h => hne (List.length_eq_zero_iff.mp (List.range_eq_nil.mp h))) hrow hrows
          refine ⟨.arr es', ?_, .arr ?_ ?_⟩
          · simp [Syn.text, hes']
          · rw [← hall.length_eq, List.length_range]
          · intro i e e' he he'
            have hi : (List.range es.length)[i]? = some i :=
              List.getElem?_range (List.getElem?_eq_some_iff.mp he).1
            exact forall₂_getElem? hall hi he' e he
      | @obj ms hnames hms =>
          obtain ⟨keys, hkeys, ⟨rfl, rfl⟩ | ⟨hne, rows, hrows, rfl⟩⟩ := (printFuel_obj hp).mp h
          · exact ⟨.emptyObj spaceWs, rfl, .obj hkeys rfl nofun⟩
          have hrow : ∀ key ∈ keys, ∀ t,
              Handle.printMember (Handle.printFuel fuel (indent + 1)) (some p) key = .ok t →
              ∃ (us : List StrChar) (s : Syn),
                t = quoted us ++ (' '.toUInt8 :: ':'.toUInt8 :: ' '.toUInt8 :: s.text)
                  ∧ rawText us = toEscaped key
                  ∧ ∀ v, lookup key ms = .ok (some v) → Printed v s.value := by
            intro key hkey t ht
            obtain ⟨v, hv⟩ := exists_lookup hkeys hkey
            obtain ⟨q, hq, hqv, -⟩ := exists_get hp hv
            obtain ⟨m, hm, -, rfl⟩ := mem_of_lookup hv
            obtain ⟨c, hc, ht⟩ := bind_eq_ok.mp ht
            obtain rfl := Except.ok.inj (hq.symm.trans hc)
            obtain ⟨t', ht', htext⟩ := bind_eq_ok.mp ht
            obtain ⟨s, rfl, hprinted⟩ := ih hqv (hms m hm) ht'
            obtain ⟨us, hus, hquoted⟩ := quoted_toEscaped key
            refine ⟨us, s, ?_, hus, ?_⟩
            · rw [hquoted, ← Except.ok.inj htext]
              simp
            · intro v hv'
              obtain rfl := Option.some.inj (Except.ok.inj (hv.symm.trans hv'))
              exact hprinted
          obtain ⟨ms', hms', hall⟩ := members_of_rows
            (P := fun key m' => m'.1 = toEscaped key
              ∧ ∀ v, lookup key ms = .ok (some v) → Printed v m'.2) hne hrow hrows
          refine ⟨.obj ms', ?_, .obj hkeys ?_ ?_⟩
          · simp [Syn.text, hms']
          · have hfst : List.Forall₂ (· = ·) (keys.map toEscaped) (ms'.values.map Prod.fst) :=
              List.forall₂_map_left_iff.mpr (List.forall₂_map_right_iff.mpr
                (hall.imp fun _ _ h => h.1.symm))
            rw [List.forall₂_eq_eq_eq] at hfst
            exact hfst.symm
          · intro i key m' v hkey hm' hv
            exact (forall₂_getElem? hall hkey hm').2 v hv

/-- A regular value is printed. -/
theorem exists_print (fuel : ℕ) : ∀ {p : Place} {v : Value} (indent : ℕ), p.tokens.length ≤ fuel →
    p.value = some v → WellFormed v → Regular v →
    ∃ text, Handle.printFuel (fuel + 1) indent (some p) = .ok text := by
  induction fuel with
  | zero =>
      intro p v indent hlength hp
      obtain ⟨text, t, ts, rfl, -⟩ := Place.exists_token hp
      exact absurd hlength (Nat.not_succ_le_zero _)
  | succ fuel ih =>
      intro p v indent hlength hp hv hregular
      cases hv with
      | prim x => exact ⟨_, printFuel_prim x hp⟩
      | str us =>
          cases hregular with
          | str hs _ => exact ⟨_, (printFuel_str hp).mpr ⟨_, hs, rfl⟩⟩
      | @arr es hes =>
          cases hregular with
          | arr hregular =>
              by_cases hne : es = []
              · exact ⟨_, (printFuel_arr hp).mpr (Or.inl ⟨hne, rfl⟩)⟩
              have hrow : ∀ i ∈ List.range es.length, ∃ t,
                  Handle.printElement (Handle.printFuel (fuel + 1) (indent + 1)) (some p) i
                    = .ok t := by
                intro i hi
                have he := List.getElem?_eq_getElem (List.mem_range.mp hi)
                obtain ⟨q, hq, hqv, hlt⟩ := exists_nth hp he
                have hmem := List.mem_of_getElem? he
                obtain ⟨t, ht⟩ := ih (indent + 1) (by omega) hqv (hes _ hmem) (hregular _ hmem)
                exact ⟨t, bind_eq_ok.mpr ⟨some q, hq, ht⟩⟩
              obtain ⟨rows, hrows⟩ := exists_printRows indent hrow
              exact ⟨_, (printFuel_arr hp).mpr (Or.inr ⟨hne, rows, hrows, rfl⟩)⟩
      | @obj ms _ hms =>
          cases hregular with
          | @obj _ keys hkeys _ _ hregular =>
              by_cases hne : keys = []
              · exact ⟨_, (printFuel_obj hp).mpr ⟨keys, hkeys, Or.inl ⟨hne, rfl⟩⟩⟩
              have hrow : ∀ key ∈ keys, ∃ t,
                  Handle.printMember (Handle.printFuel (fuel + 1) (indent + 1)) (some p) key
                    = .ok t := by
                intro key hkey
                obtain ⟨v, hv⟩ := exists_lookup hkeys hkey
                obtain ⟨q, hq, hqv, hlt⟩ := exists_get hp hv
                obtain ⟨m, hm, -, rfl⟩ := mem_of_lookup hv
                obtain ⟨t, ht⟩ := ih (indent + 1) (by omega) hqv (hms m hm) (hregular m hm)
                exact ⟨_, bind_eq_ok.mpr ⟨some q, hq, bind_eq_ok.mpr ⟨t, ht, rfl⟩⟩⟩
              obtain ⟨rows, hrows⟩ := exists_printRows indent hrow
              exact ⟨_, (printFuel_obj hp).mpr
                ⟨keys, hkeys, Or.inr ⟨hne, rows, hrows, rfl⟩⟩⟩

/-! ## What comes back -/

theorem ascii_returned (b : UInt8) : ∀ c ∈ returned b, c < 0x80 := by
  have key : ∀ n : Fin 256, (returned (UInt8.ofNat n)).all (fun c => decide (c < 0x80)) = true := by
    decide +kernel
  have hb := key ⟨b.toNat, b.toNat_lt⟩
  rw [UInt8.ofNat_toNat] at hb
  exact forall_mem_of_all hb

theorem flatMap_returned {s : List UInt8} (h : ∀ c ∈ s, c < 0x80) : s.flatMap returned = s := by
  have := fromEscaped_toEscaped_eq s
  rw [fromEscaped_toEscaped h] at this
  exact (Option.some.inj this).symm

/-- The keys of what is printed. -/
theorem keys_of_printed {ms' : List (List UInt8 × Value)} {keys : List (List UInt8)}
    (h : ms'.map Prod.fst = keys.map toEscaped) :
    Keys ms' (keys.map fun key => key.flatMap returned) := by
  have hall : List.Forall₂ (fun raw key => fromEscaped raw = some key) (ms'.map Prod.fst)
      (keys.map fun key => key.flatMap returned) := by
    rw [h, List.forall₂_map_left_iff, List.forall₂_map_right_iff, List.forall₂_same]
    exact fun key _ => fromEscaped_toEscaped_eq key
  exact List.forall₂_map_left_iff.mp hall

/-- The member that a key of the printed object leads to. -/
theorem getElem?_of_printed {ms' : List (List UInt8 × Value)} {keys : List (List UInt8)}
    {key : List UInt8} {v' : Value} (hnames : ms'.map Prod.fst = keys.map toEscaped)
    (hascii : ∀ key ∈ keys, ∀ c ∈ key, c < 0x80) (h : lookup key ms' = .ok (some v')) :
    ∃ (i : ℕ) (m' : List UInt8 × Value), keys[i]? = some key ∧ ms'[i]? = some m' ∧ m'.2 = v' := by
  obtain ⟨m', hm', hname, hv'⟩ := mem_of_lookup h
  obtain ⟨i, hi⟩ := List.getElem?_of_mem hm'
  have hescaped : (keys.map toEscaped)[i]? = some m'.1 := by
    rw [← hnames, List.getElem?_map, hi]
    rfl
  rw [List.getElem?_map] at hescaped
  obtain ⟨key', hkey', hraw⟩ := Option.map_eq_some_iff.mp hescaped
  rw [← hraw, fromEscaped_toEscaped (hascii key' (List.mem_of_getElem? hkey'))] at hname
  obtain rfl := Option.some.inj hname
  exact ⟨i, m', hkey', hi, hv'⟩

/-- A regular value equals what comes back. -/
theorem Same.of_printed {v v' : Value} (h : Printed v v') (hv : Regular v) : Same v v' := by
  induction h with
  | prim raw => exact .prim rfl
  | str hs =>
      cases hv with
      | str hs' hascii =>
          obtain rfl := Option.some.inj (hs.symm.trans hs')
          exact .str hs (fromEscaped_toEscaped hascii)
  | arr hsize _ ih =>
      cases hv with
      | arr hes =>
          refine .arr hsize ?_
          intro i e e' he he'
          exact ih i e e' he he' (hes e (List.mem_of_getElem? he))
  | @obj ms ms' keys hkeys hnames _ ih =>
      cases hv with
      | obj hkeys₁ _ hascii hms =>
          obtain rfl := Option.some.inj ((keys_iff.mp hkeys).symm.trans (keys_iff.mp hkeys₁))
          have hkeys' : Keys ms' keys := by
            have := keys_of_printed hnames
            rwa [List.map_congr_left (fun key hkey => flatMap_returned (hascii key hkey)),
              List.map_id'] at this
          refine .obj ?_ hkeys (fun key hkey => exists_lookup hkeys' hkey) ?_
          · exact (List.Forall₂.length_eq hkeys).trans (List.Forall₂.length_eq hkeys').symm
          · intro key hkey v v' hv hv'
            obtain ⟨i, m', hi, hi', rfl⟩ := getElem?_of_printed hnames hascii hv'
            obtain ⟨m, hm, -, rfl⟩ := mem_of_lookup hv
            exact ih i key m' m.2 hi hi' hv (hms m hm)

/-! ## Exactly when

    The other way round a value is taken apart: what a part lacks, the whole lacks. -/

/-- A member whose key is another one, or shadowed, is not seen. -/
theorem lookup_append_cons {key k : List UInt8} {m : List UInt8 × Value}
    {as bs : List (List UInt8 × Value)} (hm : fromEscaped m.1 = some k)
    (h : k = key → ∃ v, lookup key as = .ok (some v)) :
    lookup key (as ++ m :: bs) = lookup key (as ++ bs) := by
  induction as with
  | nil =>
      have hne : k ≠ key := by
        intro heq
        obtain ⟨v, hv⟩ := h heq
        cases hv
      show lookup key (m :: bs) = _
      rw [lookup, hm]
      exact if_neg hne
  | cons a as ih =>
      show lookup key (a :: (as ++ m :: bs)) = lookup key (a :: (as ++ bs))
      rw [lookup, lookup]
      rw [lookup] at h
      cases hname : fromEscaped a.1 with
      | none => rfl
      | some name =>
          rw [hname] at h
          dsimp only at h ⊢
          by_cases hkey : name = key
          · rw [if_pos hkey, if_pos hkey]
          · rw [if_neg hkey] at h
            rw [if_neg hkey, if_neg hkey]
            exact ih h

/-- A repeated key has a member that is shadowed. -/
theorem exists_shadowed {ms : List (List UInt8 × Value)} {keys : List (List UInt8)}
    (hkeys : Keys ms keys) (h : ¬ keys.Nodup) :
    ∃ as m bs key v, ms = as ++ m :: bs ∧ fromEscaped m.1 = some key
      ∧ lookup key as = .ok (some v) := by
  induction hkeys with
  | nil => exact absurd List.nodup_nil h
  | @cons m key ms keys hm hrest ih =>
      by_cases hkey : key ∈ keys
      · obtain ⟨v, hv⟩ := exists_lookup hrest hkey
        obtain ⟨m', hm', hname, -⟩ := mem_of_lookup hv
        obtain ⟨as, bs, rfl⟩ := List.append_of_mem hm'
        refine ⟨m :: as, m', bs, key, m.2, rfl, hname, ?_⟩
        rw [lookup, hm]
        exact if_pos rfl
      · obtain ⟨as, m', bs, key', v, rfl, hname, hv⟩ :=
          ih (fun hnodup => h (List.nodup_cons.mpr ⟨hkey, hnodup⟩))
        by_cases heq : key = key'
        · refine ⟨m :: as, m', bs, key', m.2, rfl, hname, ?_⟩
          rw [lookup, hm]
          exact if_pos heq
        · refine ⟨m :: as, m', bs, key', v, rfl, hname, ?_⟩
          rw [lookup, hm]
          exact (if_neg heq).trans hv

/-- There is a key that is not one of these. -/
theorem exists_fresh (keys : List (List UInt8)) :
    ∃ us : List StrChar, fromEscaped (rawText us) = some (rawText us) ∧ rawText us ∉ keys := by
  have hplain : 0x20 ≤ 'a'.toUInt8 ∧ 'a'.toUInt8 ≠ '"'.toUInt8 ∧ 'a'.toUInt8 ≠ '\\'.toUInt8 := by
    decide
  have hraw : ∀ n, rawText (List.replicate n (.plain 'a'.toUInt8 hplain))
      = List.replicate n 'a'.toUInt8 := by
    intro n
    induction n with
    | zero => rfl
    | succ n ih =>
        rw [List.replicate_succ, List.replicate_succ, ← ih]
        rfl
  have hself : ∀ n, fromEscaped (List.replicate n 'a'.toUInt8)
      = some (List.replicate n 'a'.toUInt8) := by
    intro n
    induction n with
    | zero => rfl
    | succ n ih =>
        rw [List.replicate_succ, fromEscaped.eq_def]
        dsimp only
        rw [if_pos hplain.2.2, ih]
        rfl
  -- longer than all of them together
  refine ⟨List.replicate (keys.flatten.length + 1) (.plain 'a'.toUInt8 hplain), ?_, ?_⟩
  · rw [hraw, hself]
  · intro hmem
    have hle := (List.sublist_flatten_of_mem hmem).length_le
    rw [hraw, List.length_replicate] at hle
    omega

/-- What is asked of a value: it comes back equal, and no other value of JSON is equal
    to it in one direction only. -/
structure Sound (v : Value) : Prop where
  returns   : ∃ v', Printed v v' ∧ Same v v'
  symmetric : ∀ w, WellFormed w → Same v w → Same w v

section Arr

variable {es : List Value}

theorem Same.elements {es' : List Value} (h : Same (.arr es) (.arr es')) {i : ℕ} {e e' : Value}
    (he : es[i]? = some e) (he' : es'[i]? = some e') : Same e e' := by
  cases h with
  | arr _ h => exact h i e e' he he'

/-- **STEP**: the elements of a sound array. -/
theorem Sound.elements (h : Sound (.arr es)) (hes : ∀ e ∈ es, WellFormed e) {e : Value}
    (he : e ∈ es) : Sound e := by
  obtain ⟨i, hi⟩ := List.getElem?_of_mem he
  obtain ⟨v', hprinted, hsame⟩ := h.returns
  constructor
  · cases hprinted with
    | @arr _ es' hsize hprinted =>
        have hlt : i < es'.length := hsize ▸ (List.getElem?_eq_some_iff.mp hi).1
        have he' := List.getElem?_eq_getElem hlt
        exact ⟨es'[i], hprinted i e es'[i] hi he', hsame.elements hi he'⟩
  · intro u hu heu
    have hlt := (List.getElem?_eq_some_iff.mp hi).1
    have hset : (es.set i u)[i]? = some u := List.getElem?_set_self hlt
    have hwhole : Same (.arr es) (.arr (es.set i u)) := by
      refine .arr List.length_set.symm ?_
      intro j x x' hx hx'
      by_cases hij : i = j
      · subst hij
        obtain rfl := Option.some.inj (hi.symm.trans hx)
        obtain rfl := Option.some.inj (hset.symm.trans hx')
        exact heu
      · rw [List.getElem?_set_ne hij] at hx'
        exact hsame.refl_left.elements hx hx'
    have hwf : WellFormed (.arr (es.set i u)) := by
      refine .arr fun x hx => ?_
      rcases List.mem_or_eq_of_mem_set hx with hx | rfl
      · exact hes x hx
      · exact hu
    exact (h.symmetric _ hwf hwhole).elements hset hi

end Arr

section Obj

variable {ms : List (List UInt8 × Value)} {keys : List (List UInt8)}

theorem Same.members {ms' : List (List UInt8 × Value)} {key : List UInt8} {v v' : Value}
    (h : Same (.obj ms) (.obj ms')) (hv : lookup key ms = .ok (some v))
    (hv' : lookup key ms' = .ok (some v')) : Same v v' := by
  cases h with
  | obj _ hkeys _ h => exact h key (mem_keys_of_lookup hkeys hv) v v' hv hv'

theorem Same.found {ms' : List (List UInt8 × Value)} {key : List UInt8}
    (h : Same (.obj ms) (.obj ms')) (hkeys : Keys ms keys) (hkey : key ∈ keys) :
    ∃ v', lookup key ms' = .ok (some v') := by
  cases h with
  | obj _ hkeys' hfound _ =>
      obtain rfl := Option.some.inj ((keys_iff.mp hkeys).symm.trans (keys_iff.mp hkeys'))
      exact hfound key hkey

/-- **STEP**: a repeated key could be replaced by a new one. -/
theorem Sound.nodup (h : Sound (.obj ms)) (hkeys : Keys ms keys)
    (hnames : ∀ m ∈ ms, ∃ us : List StrChar, rawText us = m.1)
    (hms : ∀ m ∈ ms, WellFormed m.2) : keys.Nodup := by
  by_contra hdup
  obtain ⟨as, m, bs, key, v, rfl, hm, hv⟩ := exists_shadowed hkeys hdup
  obtain ⟨us, hself, hfresh⟩ := exists_fresh keys
  obtain ⟨v', -, hsame⟩ := h.returns
  have hlookup : ∀ key' ∈ keys, lookup key' (as ++ (rawText us, m.2) :: bs)
      = lookup key' (as ++ m :: bs) := by
    intro key' hkey'
    rw [lookup_append_cons hm (by rintro rfl; exact ⟨v, hv⟩),
      lookup_append_cons hself (by rintro rfl; exact absurd hkey' hfresh)]
  have hwhole : Same (.obj (as ++ m :: bs)) (.obj (as ++ (rawText us, m.2) :: bs)) := by
    refine .obj ?_ hkeys ?_ ?_
    · rw [List.length_append, List.length_append, List.length_cons, List.length_cons]
    · intro key' hkey'
      rw [hlookup key' hkey']
      exact exists_lookup hkeys hkey'
    · intro key' hkey' x x' hx hx'
      rw [hlookup key' hkey'] at hx'
      exact hsame.refl_left.members hx hx'
  have hwf : WellFormed (.obj (as ++ (rawText us, m.2) :: bs)) := by
    simp only [List.forall_mem_append, List.forall_mem_cons] at hnames hms
    refine .obj ?_ ?_
    · simp only [List.forall_mem_append, List.forall_mem_cons]
      exact ⟨hnames.1, ⟨us, rfl⟩, hnames.2.2⟩
    · simp only [List.forall_mem_append, List.forall_mem_cons]
      exact hms
  -- the other way the new key is looked for
  have hback := h.symmetric _ hwf hwhole
  cases hback with
  | obj _ hkeys' hfound _ =>
      have hmem := mem_keys_of_mem hkeys' (List.mem_append_right as List.mem_cons_self) hself
      obtain ⟨x, hx⟩ := hfound _ hmem
      exact hfresh (mem_keys_of_lookup hkeys hx)

/-- **STEP**: the keys of a sound object. -/
theorem Sound.exists_keys (h : Sound (.obj ms)) :
    ∃ keys, Keys ms keys ∧ ∀ key ∈ keys, ∀ c ∈ key, c < 0x80 := by
  obtain ⟨v', hprinted, hsame⟩ := h.returns
  cases hprinted with
  | @obj _ ms' keys hkeys hnames _ =>
      refine ⟨keys, hkeys, ?_⟩
      intro key hkey
      obtain ⟨x, hx⟩ := hsame.found hkeys hkey
      obtain ⟨key', -, rfl⟩ := List.mem_map.mp (mem_keys_of_lookup (keys_of_printed hnames) hx)
      intro c hc
      obtain ⟨b, -, hc⟩ := List.mem_flatMap.mp hc
      exact ascii_returned b c hc

/-- **STEP**: the values in a sound object. -/
theorem Sound.members (h : Sound (.obj ms)) (hkeys : Keys ms keys) (hnodup : keys.Nodup)
    (hascii : ∀ key ∈ keys, ∀ c ∈ key, c < 0x80)
    (hnames : ∀ m ∈ ms, ∃ us : List StrChar, rawText us = m.1)
    (hms : ∀ m ∈ ms, WellFormed m.2) {m : List UInt8 × Value} (hm : m ∈ ms) : Sound m.2 := by
  obtain ⟨v', hprinted, hsame⟩ := h.returns
  obtain ⟨i, hi⟩ := List.getElem?_of_mem hm
  have hlt : i < keys.length := List.Forall₂.length_eq hkeys ▸ (List.getElem?_eq_some_iff.mp hi).1
  have hname := forall₂_getElem? hkeys hi (List.getElem?_eq_getElem hlt)
  generalize keys[i] = key at hname
  have hkey := mem_keys_of_mem hkeys hm hname
  have hlookup := lookup_of_mem hkeys hnodup hm hname
  constructor
  · cases hprinted with
    | @obj _ ms' keys₁ hkeys₁ hfst hprinted =>
        obtain rfl := Option.some.inj ((keys_iff.mp hkeys).symm.trans (keys_iff.mp hkeys₁))
        obtain ⟨x, hx⟩ := hsame.found hkeys hkey
        obtain ⟨j, m', hj, hj', rfl⟩ := getElem?_of_printed hfst hascii hx
        exact ⟨m'.2, hprinted j key m' m.2 hj hj' hlookup, hsame.members hlookup hx⟩
  · intro u hu hmu
    obtain ⟨as, bs, rfl⟩ := List.append_of_mem hm
    have hkeys₁ : Keys (as ++ (m.1, u) :: bs) keys := hkeys.of_names (by simp)
    have hlookup₁ : lookup key (as ++ (m.1, u) :: bs) = .ok (some u) :=
      lookup_of_mem (m := (m.1, u)) hkeys₁ hnodup (List.mem_append_right as List.mem_cons_self)
        hname
    have hwhole : Same (.obj (as ++ m :: bs)) (.obj (as ++ (m.1, u) :: bs)) := by
      refine .obj ?_ hkeys (fun key' hkey' => exists_lookup hkeys₁ hkey') ?_
      · rw [List.length_append, List.length_append, List.length_cons, List.length_cons]
      · intro key' hkey' x x' hx hx'
        by_cases heq : key = key'
        · subst heq
          obtain rfl := Option.some.inj (Except.ok.inj (hlookup.symm.trans hx))
          obtain rfl := Option.some.inj (Except.ok.inj (hlookup₁.symm.trans hx'))
          exact hmu
        · have hsee : ∀ x : Value, lookup key' (as ++ (m.1, x) :: bs) = lookup key' (as ++ bs) :=
            fun x => lookup_append_cons hname (fun h => absurd h heq)
          rw [hsee u, ← hsee m.2] at hx'
          exact hsame.refl_left.members hx hx'
    have hwf : WellFormed (.obj (as ++ (m.1, u) :: bs)) := by
      simp only [List.forall_mem_append, List.forall_mem_cons] at hnames hms
      refine .obj ?_ ?_
      · simp only [List.forall_mem_append, List.forall_mem_cons]
        exact hnames
      · simp only [List.forall_mem_append, List.forall_mem_cons]
        exact ⟨hms.1, hu, hms.2.2⟩
    exact (h.symmetric _ hwf hwhole).members hlookup₁ hlookup

end Obj

/-- **RUN**: a sound value is regular, by its parts. -/
theorem Sound.regular {v : Value} (hv : WellFormed v) (h : Sound v) : Regular v := by
  induction hv with
  | prim x => exact .prim _
  | str us =>
      obtain ⟨v', hprinted, hsame⟩ := h.returns
      cases hprinted with
      | str hs =>
          cases hsame with
          | str hs' hback =>
              obtain rfl := Option.some.inj (hs.symm.trans hs')
              rw [fromEscaped_toEscaped_eq] at hback
              exact .str hs ((length_returned _).2 (congrArg List.length (Option.some.inj hback)))
  | arr hes ih => exact .arr fun e he => ih e he (h.elements hes he)
  | obj hnames hms ih =>
      obtain ⟨keys, hkeys, hascii⟩ := h.exists_keys
      have hnodup := h.nodup hkeys hnames hms
      exact .obj hkeys hnodup hascii fun m hm =>
        ih m hm (h.members hkeys hnodup hascii hnames hms hm)

/-! ## Reading back -/

theorem isPrim_iff {s : Syn} : s.isPrim = true ↔ tokenType s.value = .primitive := by
  cases s with
  | prim x => exact iff_of_true rfl rfl
  | _ => exact iff_of_false nofun nofun

theorem Printed.tokenType {v v' : Value} (h : Printed v v') :
    Jsmn.tokenType v' = Jsmn.tokenType v := by
  cases h <;> rfl

theorem Same.tokenType {v w : Value} (h : Same v w) : Jsmn.tokenType w = Jsmn.tokenType v := by
  cases h <;> rfl

/-- Where no result is delivered, none is read. -/
theorem extractFrom_of_feedPieces_nil {text : List UInt8} :
    ∀ {s : Impl}, (s.feedPieces (text.map (fun c => [c]))).1 = [] → extractFrom s text = none := by
  induction text with
  | nil => exact fun _ => rfl
  | cons c text ih =>
      intro s h
      rw [List.map_cons] at h
      unfold Impl.feedPieces at h
      unfold extractFrom
      generalize (s.loadBuffer [c]).parseBuffer = out at h ⊢
      obtain ⟨parsed, s'⟩ := out
      cases parsed with
      | parseError text pos => rfl
      | assertFailed => rfl
      | objects rs =>
          obtain ⟨rfl, hrest⟩ := List.append_eq_nil_iff.mp h
          exact ih hrest

/-- **SLIP**: a primitive alone is not read, as there may be more of it. -/
theorem extract_prim (x : Prim) : extract x.text = none := by
  have hspaced : Spaced [(.prim x, noWs)] := by
    intro i hi
    cases hi
  have hpieces : (x.text.map (fun c => [c])).flatten = streamText noWs [(.prim x, noWs)] := by
    rw [← List.flatMap_def, List.flatMap_singleton']
    simp [streamText, noWs, Syn.text]
  obtain ⟨rs, hfeed, hvalues⟩ := feedPieces_items hspaced hpieces
  have hnone : rs = [] := List.map_eq_nil_iff.mp hvalues
  obtain ⟨c, cs, hcons, hc⟩ := x.text_start
  have hblank : ∀ c ∈ primStarts, ¬ (c = ' '.toUInt8 ∨ 9 ≤ c ∧ c ≤ 13) :=
    forall_mem_of_all (by decide)
  unfold extract
  rw [hcons, List.dropWhile_cons_of_neg (by simpa using hblank c hc), ← hcons]
  exact extractFrom_of_feedPieces_nil (by rw [hfeed, hnone])

/-! ## The operator on what is parsed -/

/-- `Object(ppr, 0)`. -/
def root (r : ParseResult) : Place := ⟨r.origString, r.tokens⟩

theorem extract_root {s : Syn} (hs : s.isPrim = false) :
    ∃ r, extract s.text = some r ∧ (root r).value = some s.value := extract_text hs

/-- A place of a JSON value in what the parser returned. -/
def Place.Parsed (p : Place) : Prop := ∃ s : Syn, p.value = some s.value

/-- `p == q`, two objects. -/
def Equal (p q : Place) : Prop := Handle.equals false (some p) (some q) = .ok true

instance decidableEqual (p q : Place) : Decidable (Equal p q) :=
  inferInstanceAs (Decidable (Handle.equals false (some p) (some q) = .ok true))

/-- What is expected of `operator==`, at one value. -/
structure Lawful (p : Place) : Prop where
  refl  : ∀ same, Handle.equals same (some p) (some p) = .ok true
  symm  : ∀ q, q.Parsed → Equal p q → Equal q p
  trans : ∀ q o, q.Parsed → o.Parsed → Equal p q → Equal q o → Equal p o
  order : ∀ q v w, q.Parsed → p.value = some v → q.value = some w → Reordered v w → Equal p q
  print : ∃ text r, Handle.print (some p) = .ok text ∧ extract text = some r
    ∧ Equal p (root r) ∧ Equal (root r) p

/-- The operator is transitive on all that is parsed. -/
theorem Equal.trans {p q o : Place} (hp : p.Parsed) (hq : q.Parsed) (ho : o.Parsed)
    (h : Equal p q) (h' : Equal q o) : Equal p o := by
  obtain ⟨s, hs⟩ := hp
  obtain ⟨t, ht⟩ := hq
  obtain ⟨u, hu⟩ := ho
  have hst := (equals_iff hs ht (wellFormed_value s) (wellFormed_value t)).mp h
  have htu := (equals_iff ht hu (wellFormed_value t) (wellFormed_value u)).mp h'
  exact (equals_iff hs hu (wellFormed_value s) (wellFormed_value u)).mpr (hst.trans htu)

section Lawful

variable {p : Place} {s : Syn}

theorem lawful_of_regular (h : p.value = some s.value) (hprim : s.isPrim = false)
    (hs : Regular s.value) : Lawful p := by
  have hwf := wellFormed_value s
  constructor
  case refl =>
    intro same
    cases same with
    | true => rfl
    | false => exact (equals_iff h h hwf hwf).mpr (.refl hs)
  case symm =>
    rintro q ⟨t, ht⟩ hpq
    have hst := (equals_iff h ht hwf (wellFormed_value t)).mp hpq
    exact (equals_iff ht h (wellFormed_value t) hwf).mpr (hst.symm hs)
  case trans =>
    intro q o hq ho
    exact Equal.trans ⟨s, h⟩ hq ho
  case order =>
    rintro q v w ⟨t, ht⟩ hv hw hvw
    obtain rfl := Option.some.inj (h.symm.trans hv)
    obtain rfl := Option.some.inj (ht.symm.trans hw)
    exact (equals_iff h ht hwf (wellFormed_value t)).mpr (.of_reordered hvw hs)
  case print =>
    obtain ⟨text, htext⟩ := exists_print p.tokens.length 0 le_rfl h hwf hs
    obtain ⟨s', rfl, hprinted⟩ := syn_of_print _ h hwf htext
    have hprim' : s'.isPrim = false := by
      rw [Bool.eq_false_iff, Ne, isPrim_iff, hprinted.tokenType, ← isPrim_iff]
      exact Bool.eq_false_iff.mp hprim
    obtain ⟨r, hr, hrv⟩ := extract_root hprim'
    have hsame := Same.of_printed hprinted hs
    have hwf' := wellFormed_value s'
    exact ⟨_, r, htext, hr, (equals_iff h hrv hwf hwf').mpr hsame,
      (equals_iff hrv h hwf' hwf).mpr (hsame.symm hs)⟩

theorem sound_of_lawful (h : p.value = some s.value) (hp : Lawful p) :
    s.isPrim = false ∧ Sound s.value := by
  have hwf := wellFormed_value s
  obtain ⟨text, r, htext, hr, hequal, -⟩ := hp.print
  obtain ⟨s', rfl, hprinted⟩ := syn_of_print _ h hwf htext
  have hprim' : s'.isPrim = false := by
    cases s' with
    | prim x =>
        rw [show (Syn.prim x).text = x.text from rfl, extract_prim] at hr
        cases hr
    | _ => rfl
  have hprim : s.isPrim = false := by
    rw [Bool.eq_false_iff, Ne, isPrim_iff, ← hprinted.tokenType, ← isPrim_iff]
    exact Bool.eq_false_iff.mp hprim'
  obtain ⟨r', hr', hrv⟩ := extract_root hprim'
  obtain rfl := Option.some.inj (hr.symm.trans hr')
  refine ⟨hprim, ⟨s'.value, hprinted, ?_⟩, ?_⟩
  · exact (equals_iff h hrv hwf (wellFormed_value s')).mp hequal
  · intro w hw hsame
    obtain ⟨t, rfl⟩ := wellFormed_iff.mp hw
    have ht : t.isPrim = false := by
      rw [Bool.eq_false_iff, Ne, isPrim_iff, hsame.tokenType, ← isPrim_iff]
      exact Bool.eq_false_iff.mp hprim
    obtain ⟨q, -, hq⟩ := extract_root ht
    have hpq : Equal p (root q) := (equals_iff h hq hwf hw).mpr hsame
    exact (equals_iff hq h hw hwf).mp (hp.symm (root q) ⟨t, hq⟩ hpq)

/-- **EXACTLY WHEN** `operator==` is an equivalence at a value that was parsed, whatever
    the order of keys, and the value comes back equal from its printed text. -/
theorem lawful_iff_regular (h : p.value = some s.value) :
    Lawful p ↔ s.isPrim = false ∧ Regular s.value := by
  constructor
  · intro hp
    obtain ⟨hprim, hsound⟩ := sound_of_lawful h hp
    exact ⟨hprim, hsound.regular (wellFormed_value s)⟩
  · rintro ⟨hprim, hs⟩
    exact lawful_of_regular h hprim hs

end Lawful

/-! ## Samples -/

theorem plain_a : 0x20 ≤ 'a'.toUInt8 ∧ 'a'.toUInt8 ≠ '"'.toUInt8 ∧ 'a'.toUInt8 ≠ '\\'.toUInt8 := by
  decide

theorem plain_b : 0x20 ≤ 'b'.toUInt8 ∧ 'b'.toUInt8 ≠ '"'.toUInt8 ∧ 'b'.toUInt8 ≠ '\\'.toUInt8 := by
  decide

/-- Two members, `true` under `a` and a literal under the second key. -/
def pair (key : List StrChar) (x : Prim) : Syn :=
  .obj (.more noWs [.plain _ plain_a] noWs noWs (.prim .true) noWs
    (.one noWs key noWs noWs (.prim x) noWs))

theorem lawful_pair : ∃ r, extract (pair [.plain _ plain_b] .null).text = some r
    ∧ Lawful (root r) := by
  obtain ⟨r, hr, hrv⟩ := extract_root (s := pair [.plain _ plain_b] .null) rfl
  refine ⟨r, hr, (lawful_iff_regular hrv).mpr ⟨rfl, ?_⟩⟩
  have hkeys : Keys [(['a'.toUInt8], .prim Prim.true.text), (['b'.toUInt8], .prim Prim.null.text)]
      [['a'.toUInt8], ['b'.toUInt8]] := .cons rfl (.cons rfl .nil)
  have hascii : ∀ key ∈ [['a'.toUInt8], ['b'.toUInt8]], ∀ c ∈ key, c < 0x80 :=
    List.forall_mem_cons.mpr ⟨forall_mem_of_all (by decide),
      List.forall_mem_singleton.mpr (forall_mem_of_all (by decide))⟩
  exact .obj hkeys (by decide) hascii (List.forall_mem_cons.mpr
    ⟨.prim _, List.forall_mem_singleton.mpr (.prim _)⟩)

/-- **COUNTEREXAMPLE**: a repeated `a` equals an `a` and a `b`, but not the other way.  And in
    a text that is not JSON, but is accepted, a key without a value does not equal itself. -/
theorem pair_one_sided : ∃ r r', extract "\x7b\"a\":true,\"a\":true\x7d".toUTF8.toList = some r
    ∧ extract "\x7b\"a\":true,\"b\":null\x7d".toUTF8.toList = some r'
    ∧ Equal (root r) (root r') ∧ ¬ Equal (root r') (root r)
    ∧ (¬ ∀ (p : Place) (s : Syn), p.value = some s.value → Lawful p)
    ∧ ∃ r'', extract "\x7b\"a\"\x7d".toUTF8.toList = some r'' ∧ ¬ Equal (root r'') (root r'') := by
  have heval : (extract "\x7b\"a\":true,\"a\":true\x7d".toUTF8.toList).any (fun r =>
      (extract "\x7b\"a\":true,\"b\":null\x7d".toUTF8.toList).any fun r' =>
        Equal (root r) (root r') ∧ ¬ Equal (root r') (root r)) = true := by
    decide +kernel
  obtain ⟨r, hr, hrv⟩ := extract_root (s := pair [.plain _ plain_a] .true) rfl
  obtain ⟨r', hr', hrv'⟩ := extract_root (s := pair [.plain _ plain_b] .null) rfl
  rw [show "\x7b\"a\":true,\"a\":true\x7d".toUTF8.toList = (pair [.plain _ plain_a] .true).text by
      decide +kernel,
    show "\x7b\"a\":true,\"b\":null\x7d".toUTF8.toList = (pair [.plain _ plain_b] .null).text by
      decide +kernel] at heval ⊢
  rw [hr, hr'] at heval
  obtain ⟨hequal, hnot⟩ := of_decide_eq_true heval
  have hunpaired : (extract "\x7b\"a\"\x7d".toUTF8.toList).any (fun r =>
      ¬ Equal (root r) (root r)) = true := by decide +kernel
  obtain ⟨r'', hr'', hself⟩ := (Option.any_eq_true _ _).mp hunpaired
  refine ⟨r, r', hr, hr', hequal, hnot, fun h => hnot ((h _ _ hrv).symm _ ⟨_, hrv'⟩ hequal), ?_⟩
  exact ⟨r'', hr'', of_decide_eq_true hself⟩

end Jsmn
