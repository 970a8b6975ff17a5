import Mathlib.Data.List.Basic

/-! # JSON text — concrete syntax trees

    A tree carries everything of the text, whitespace included, so `text` needs
    no choices and every valid text is the text of a tree.  The VALUE of a tree
    forgets the whitespace and nothing else: strings and primitives keep their
    raw text.

    Bytes from `0x80` on are allowed in strings, as in any UTF-8 text. -/

namespace Json

/-! ## Characters -/

/-- Space, tab, line feed and carriage return. -/
def wsBytes : List UInt8 := [0x20, 0x09, 0x0a, 0x0d]

/-- The characters of numbers and literals. -/
def primBytes : List UInt8 :=
  ['-', '+', '.', 'e', 'E', '0', '1', '2', '3', '4', '5', '6', '7', '8', '9',
    't', 'r', 'u', 'f', 'a', 'l', 's', 'n'].map Char.toUInt8

/-- The characters a primitive can start with. -/
def primStarts : List UInt8 :=
  ['-', '0', '1', '2', '3', '4', '5', '6', '7', '8', '9', 't', 'f', 'n'].map Char.toUInt8

/-- What can follow a backslash, other than `u`. -/
def escapeBytes : List UInt8 := ['"', '\\', '/', 'b', 'f', 'n', 'r', 't'].map Char.toUInt8

/-- Hexadecimal digits. -/
def hexBytes : List UInt8 :=
  ['0', '1', '2', '3', '4', '5', '6', '7', '8', '9', 'a', 'b', 'c', 'd', 'e', 'f',
    'A', 'B', 'C', 'D', 'E', 'F'].map Char.toUInt8

/-! ## Tokens -/

/-- Whitespace. -/
structure Ws where
  text  : List UInt8
  blank : ∀ c ∈ text, c ∈ wsBytes

theorem blank_nil : ∀ c ∈ ([] : List UInt8), c ∈ wsBytes := fun _ h => absurd h List.not_mem_nil

/-- A digit. -/
def digit (d : Fin 10) : UInt8 := UInt8.ofNat (48 + d.val)

/-- At least one digit. -/
structure Digits where
  first : Fin 10
  more  : List (Fin 10)

/-- Digits are written one after the other. -/
def Digits.text (ds : Digits) : List UInt8 := digit ds.first :: ds.more.map digit

/-- The integer part: a zero, or digits of which the first is none. -/
inductive IntPart where
  | zero
  | digits (first : Fin 9) (more : List (Fin 10))

def IntPart.text : IntPart → List UInt8
  | .zero            => [digit 0]
  | .digits d more   => digit d.succ :: more.map digit

/-- The exponent: `e` or `E`, a sign or none, digits. -/
structure Exponent where
  capital : Bool
  sign    : Option Bool
  digits  : Digits

/-- An exponent with its sign, if there is one. -/
def Exponent.text (e : Exponent) : List UInt8 :=
  (if e.capital then 'E'.toUInt8 else 'e'.toUInt8) ::
    ((match e.sign with
      | none       => []
      | some true  => ['+'.toUInt8]
      | some false => ['-'.toUInt8]) ++ e.digits.text)

/-- A number. -/
structure Number where
  negative : Bool
  int      : IntPart
  frac     : Option Digits
  exp      : Option Exponent

def Number.text (n : Number) : List UInt8 :=
  (if n.negative then ['-'.toUInt8] else []) ++ n.int.text
    ++ (match n.frac with
      | none    => []
      | some ds => '.'.toUInt8 :: ds.text)
    ++ (match n.exp with
      | none   => []
      | some e => e.text)

/-- Numbers and literals. -/
inductive Prim where
  | null
  | true
  | false
  | number (n : Number)

/-- How a primitive is written. -/
def Prim.text : Prim → List UInt8
  | .null     => ['n', 'u', 'l', 'l'].map Char.toUInt8
  | .true     => ['t', 'r', 'u', 'e'].map Char.toUInt8
  | .false    => ['f', 'a', 'l', 's', 'e'].map Char.toUInt8
  | .number n => n.text

/-- A character of a string, as it is written. -/
inductive StrChar where
  | plain (c : UInt8) (h : 0x20 ≤ c ∧ c ≠ '"'.toUInt8 ∧ c ≠ '\\'.toUInt8)
  | escape (c : UInt8) (h : c ∈ escapeBytes)
  | unicode (a b c d : UInt8) (h : ∀ x ∈ [a, b, c, d], x ∈ hexBytes)

/-- How a character of a string is written. -/
def StrChar.text : StrChar → List UInt8
  | .plain c _           => [c]
  | .escape c _          => ['\\'.toUInt8, c]
  | .unicode a b c d _   => ['\\'.toUInt8, 'u'.toUInt8, a, b, c, d]

/-- What stands between the quotes of a string. -/
def rawText (us : List StrChar) : List UInt8 := us.flatMap StrChar.text

/-- A string with its quotes. -/
def quoted (us : List StrChar) : List UInt8 := '"'.toUInt8 :: (rawText us ++ ['"'.toUInt8])

/-! ## Values -/

mutual

/-- A value. -/
inductive Syn where
  | prim (p : Prim)
  | str (us : List StrChar)
  | emptyArr (w : Ws)
  | arr (es : Elements)
  | emptyObj (w : Ws)
  | obj (ms : Members)

/-- The elements of an array, with the whitespace around them. -/
inductive Elements where
  | one (w : Ws) (v : Syn) (w' : Ws)
  | more (w : Ws) (v : Syn) (w' : Ws) (es : Elements)

/-- The members of an object: a key and a value. -/
inductive Members where
  | one (w : Ws) (key : List StrChar) (w₁ w₂ : Ws) (v : Syn) (w' : Ws)
  | more (w : Ws) (key : List StrChar) (w₁ w₂ : Ws) (v : Syn) (w' : Ws) (ms : Members)

end

/-- The text of a member. -/
def memberText (w : Ws) (key : List StrChar) (w₁ w₂ : Ws) (v : List UInt8) (w' : Ws) : List UInt8 :=
  w.text ++ (quoted key ++ (w₁.text ++ (':'.toUInt8 :: (w₂.text ++ (v ++ w'.text)))))

mutual

/-- The text of a tree, with its whitespace. -/
def Syn.text : Syn → List UInt8
  | .prim p     => p.text
  | .str us     => quoted us
  | .emptyArr w => '['.toUInt8 :: (w.text ++ [']'.toUInt8])
  | .arr es     => '['.toUInt8 :: (es.text ++ [']'.toUInt8])
  | .emptyObj w => '\x7b'.toUInt8 :: (w.text ++ ['\x7d'.toUInt8])
  | .obj ms     => '\x7b'.toUInt8 :: (ms.text ++ ['\x7d'.toUInt8])

/-- The text between the brackets of an array. -/
def Elements.text : Elements → List UInt8
  | .one w v w'     => w.text ++ (v.text ++ w'.text)
  | .more w v w' es => w.text ++ (v.text ++ (w'.text ++ (','.toUInt8 :: es.text)))

/-- The text between the braces of an object. -/
def Members.text : Members → List UInt8
  | .one w key w₁ w₂ v w'     => memberText w key w₁ w₂ v.text w'
  | .more w key w₁ w₂ v w' ms =>
      memberText w key w₁ w₂ v.text w' ++ (','.toUInt8 :: ms.text)

end

/-- A JSON value without its whitespace. -/
inductive Value where
  | prim (text : List UInt8)
  | str (raw : List UInt8)
  | arr (elements : List Value)
  | obj (members : List (List UInt8 × Value))

mutual

/-- The value of a tree: whitespace is gone, texts are kept as they are. -/
def Syn.value : Syn → Value
  | .prim p     => .prim p.text
  | .str us     => .str (rawText us)
  | .emptyArr _ => .arr []
  | .arr es     => .arr es.values
  | .emptyObj _ => .obj []
  | .obj ms     => .obj ms.values

def Elements.values : Elements → List Value
  | .one _ v _     => [v.value]
  | .more _ v _ es => v.value :: es.values

def Members.values : Members → List (List UInt8 × Value)
  | .one _ key _ _ v _     => [(rawText key, v.value)]
  | .more _ key _ _ v _ ms => (rawText key, v.value) :: ms.values

end

/-- A number or a literal. -/
def Syn.isPrim : Syn → Bool
  | .prim _ => Bool.true
  | _       => Bool.false

/-- A fact about each of a few bytes, by trying them. -/
theorem forall_mem_of_all {P : UInt8 → Prop} [DecidablePred P] {cs : List UInt8}
    (h : cs.all (fun c => decide (P c)) = Bool.true) : ∀ c ∈ cs, P c := by
  intro c hc
  exact of_decide_eq_true (List.all_eq_true.mp h c hc)

/-! ## The characters of primitives -/

theorem digit_mem (d : Fin 10) : digit d ∈ primBytes := by
  revert d
  decide

theorem digits_mem (ds : List (Fin 10)) : ∀ c ∈ ds.map digit, c ∈ primBytes := by
  intro c hc
  obtain ⟨d, -, rfl⟩ := List.mem_map.mp hc
  exact digit_mem d

theorem Digits.text_mem (ds : Digits) : ∀ c ∈ ds.text, c ∈ primBytes := by
  intro c hc
  rcases List.mem_cons.mp hc with rfl | hc
  · exact digit_mem _
  · exact digits_mem _ c hc

theorem IntPart.text_mem (i : IntPart) : ∀ c ∈ i.text, c ∈ primBytes := by
  intro c hc
  cases i with
  | zero =>
      cases List.mem_singleton.mp hc
      exact digit_mem 0
  | digits d more =>
      rcases List.mem_cons.mp hc with rfl | hc
      · exact digit_mem _
      · exact digits_mem _ c hc

theorem Exponent.text_mem (e : Exponent) : ∀ c ∈ e.text, c ∈ primBytes := by
  intro c hc
  unfold Exponent.text at hc
  rcases List.mem_cons.mp hc with rfl | hc
  · cases e.capital <;> decide
  rcases List.mem_append.mp hc with hc | hc
  · cases hs : e.sign with
    | none =>
        rw [hs] at hc
        exact nomatch hc
    | some s =>
        rw [hs] at hc
        cases s <;> (cases List.mem_singleton.mp hc; decide)
  · exact e.digits.text_mem c hc

/-- A number is made of bytes that a primitive may have. -/
theorem Number.text_mem (n : Number) : ∀ c ∈ n.text, c ∈ primBytes := by
  intro c hc
  unfold Number.text at hc
  rcases List.mem_append.mp hc with hc | hc
  · rcases List.mem_append.mp hc with hc | hc
    · rcases List.mem_append.mp hc with hc | hc
      · cases hn : n.negative with
        | false =>
            rw [hn] at hc
            exact nomatch hc
        | true =>
            rw [hn] at hc
            cases List.mem_singleton.mp hc
            decide
      · exact n.int.text_mem c hc
    · cases hf : n.frac with
      | none =>
          rw [hf] at hc
          exact nomatch hc
      | some ds =>
          rw [hf] at hc
          rcases List.mem_cons.mp hc with rfl | hc
          · decide
          · exact ds.text_mem c hc
  · cases he : n.exp with
    | none =>
        rw [he] at hc
        exact nomatch hc
    | some e =>
        rw [he] at hc
        exact e.text_mem c hc

/-- A primitive is made of these characters only. -/
theorem Prim.text_mem (p : Prim) : ∀ c ∈ p.text, c ∈ primBytes := by
  cases p with
  | number n => exact n.text_mem
  | null => exact forall_mem_of_all (by decide)
  | true => exact forall_mem_of_all (by decide)
  | false => exact forall_mem_of_all (by decide)

/-- And begins with one that may begin a primitive. -/
theorem IntPart.text_start (i : IntPart) : ∃ c cs, i.text = c :: cs ∧ c ∈ primStarts := by
  cases i with
  | zero => exact ⟨_, _, rfl, by decide⟩
  | digits d more =>
      refine ⟨_, _, rfl, ?_⟩
      revert d
      decide

/-- A primitive starts with a digit, a minus or the first letter of a literal. -/
theorem Prim.text_start (p : Prim) : ∃ c cs, p.text = c :: cs ∧ c ∈ primStarts := by
  cases p with
  | null => exact ⟨_, _, rfl, by decide⟩
  | true => exact ⟨_, _, rfl, by decide⟩
  | false => exact ⟨_, _, rfl, by decide⟩
  | number n =>
      show ∃ c cs, n.text = c :: cs ∧ c ∈ primStarts
      unfold Number.text
      cases n.negative with
      | true => exact ⟨'-'.toUInt8, _, rfl, by decide⟩
      | false =>
          obtain ⟨c, cs, htext, hc⟩ := n.int.text_start
          rw [htext]
          exact ⟨c, _, rfl, hc⟩

end Json
