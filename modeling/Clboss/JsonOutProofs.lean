import Clboss.DecimalProofs
import Clboss.JsonProofs

/-! # `Json::Out` — building JSON text

    The builders write as they go: `content` only grows, and all a builder knows
    of what it wrote is whether a comma is due.  Here a sequence of calls runs on
    that text and, apart from it, on TREES under construction (`Node`).  The text
    is at every call what the trees so far look like (`step_text`), so a finished
    sequence has written its tree (`build_content`).

    A value may be an `Out` that was finished before.  It is only its text that
    goes in. -/

namespace Json

/-! ## Simple values -/

/-- A digit of `std::hex`. -/
def hexDigit (d : UInt8) : UInt8 := if d < 10 then 0x30 + d else 0x57 + d

/-- `to_escaped`, of one `char`.  It is signed, so bytes from `0x80` on take the branch of
    the control characters, and print as 32-bit numbers. -/
def escapeChar (c : UInt8) : List UInt8 :=
  if c = '"'.toUInt8 then ['\\', '"'].map Char.toUInt8
  else if c = '\\'.toUInt8 then ['\\', '\\'].map Char.toUInt8
  else if c = 8 then ['\\', 'b'].map Char.toUInt8
  else if c = 12 then ['\\', 'f'].map Char.toUInt8
  else if c = 10 then ['\\', 'n'].map Char.toUInt8
  else if c = 13 then ['\\', 'r'].map Char.toUInt8
  else if c = 9 then ['\\', 't'].map Char.toUInt8
  else if c < 32 then ['\\', 'u', '0', '0'].map Char.toUInt8 ++ [hexDigit (c / 16), hexDigit (c % 16)]
  else if c < 128 then [c]
  else ['\\', 'u', '0', '0', 'f', 'f', 'f', 'f', 'f', 'f'].map Char.toUInt8
    ++ [hexDigit (c / 16), hexDigit (c % 16)]

/-- `to_escaped`. -/
def toEscaped (s : List UInt8) : List UInt8 := s.flatMap escapeChar

/-- A string in its quotes. -/
def serializeString (s : List UInt8) : List UInt8 :=
  '"'.toUInt8 :: (toEscaped s ++ ['"'.toUInt8])

/-- `std::dec`. -/
def intText (n : ℤ) : List UInt8 :=
  (if n < 0 then ['-'.toUInt8] else []) ++ Decimals.text n.natAbs

/-! ## Trees -/

/-- What is built. -/
inductive Tree where
  | null
  | bool (b : Bool)
  | int (n : ℤ)
  | str (s : List UInt8)
  | arr (elements : List Tree)
  | obj (members : List (List UInt8 × Tree))

/-- `encomma`. -/
def encomma (started : Bool) : List UInt8 :=
  if started then [','.toUInt8, ' '.toUInt8] else []

/-- The name of a field, and the colon. -/
def fieldName (name : List UInt8) : List UInt8 :=
  serializeString name ++ [':'.toUInt8, ' '.toUInt8]

mutual

/-- The text of a tree. -/
def Tree.text : Tree → List UInt8
  | .null   => ['n', 'u', 'l', 'l'].map Char.toUInt8
  | .bool b => (if b then ['t', 'r', 'u', 'e'] else ['f', 'a', 'l', 's', 'e']).map Char.toUInt8
  | .int n  => intText n
  | .str s  => serializeString s
  | .arr es => '['.toUInt8 :: (elementsText false es ++ [']'.toUInt8])
  | .obj ms => '\x7b'.toUInt8 :: (membersText false ms ++ ['\x7d'.toUInt8])

/-- Elements, after others if it is `started`. -/
def elementsText (started : Bool) : List Tree → List UInt8
  | []      => []
  | t :: ts => encomma started ++ (t.text ++ elementsText true ts)

def membersText (started : Bool) : List (List UInt8 × Tree) → List UInt8
  | []      => []
  | m :: ms => encomma started ++ (memberPairText m ++ membersText true ms)

def memberPairText : List UInt8 × Tree → List UInt8
  | (name, t) => fieldName name ++ t.text

end

/-! ## The builders -/

/-- A finished `Out`, and the tree that it was built from. -/
structure Out where
  content : List UInt8
  tree    : Tree
  built   : content = tree.text

theorem text_emptyObject : ['\x7b', '\x7d'].map Char.toUInt8 = (Tree.obj []).text := rfl

/-- `empty_object`. -/
def Out.emptyObject : Out := ⟨['\x7b', '\x7d'].map Char.toUInt8, .obj [], text_emptyObject⟩

/-- What a field or an entry can be. -/
inductive Arg where
  | null
  | bool (b : Bool)
  | int (n : ℤ)
  | str (s : List UInt8)
  | out (o : Out)

/-- `Serializer<a>::serialize`. -/
def Arg.serialize : Arg → List UInt8
  | .null   => ['n', 'u', 'l', 'l'].map Char.toUInt8
  | .bool b => (if b then ['t', 'r', 'u', 'e'] else ['f', 'a', 'l', 's', 'e']).map Char.toUInt8
  | .int n  => intText n
  | .str s  => serializeString s
  | .out o  => o.content

def Arg.tree : Arg → Tree
  | .null   => .null
  | .bool b => .bool b
  | .int n  => .int n
  | .str s  => .str s
  | .out o  => o.tree

theorem Arg.serialize_eq (a : Arg) : a.serialize = a.tree.text := by
  cases a with
  | out o => exact o.built
  | _ => rfl

/-- A call of a builder; what is in an object has a name. -/
inductive Call where
  | startObject (name : Option (List UInt8))
  | startArray (name : Option (List UInt8))
  | field (name : List UInt8) (value : Arg)
  | entry (value : Arg)
  | endObject
  | endArray

/-- The builder that the next call is for, with the ones that it returns to. -/
inductive Up where
  | out
  | object (up : Up) (started : Bool)
  | array (up : Up) (started : Bool)

structure Builder where
  content : List UInt8
  up      : Up

/-- What is written before a sub-object or sub-array, and the builder it returns to. -/
def Up.begin : Up → Option (List UInt8) → Option (List UInt8 × Up)
  | .out, none                      => some ([], .out)
  | .object up started, some name   => some (encomma started ++ fieldName name, .object up true)
  | .array up started, none         => some (encomma started, .array up true)
  | _, _                            => none

/-- A call; `none` where the builder has no such member function. -/
def Builder.step (b : Builder) : Call → Option Builder
  | .startObject name =>
      (b.up.begin name).map (fun p => ⟨b.content ++ p.1 ++ ['\x7b'.toUInt8], .object p.2 false⟩)
  | .startArray name  =>
      (b.up.begin name).map (fun p => ⟨b.content ++ p.1 ++ ['['.toUInt8], .array p.2 false⟩)
  | .field name value =>
      match b.up with
      | .object up started =>
          some ⟨b.content ++ encomma started ++ fieldName name ++ value.serialize, .object up true⟩
      | _ => none
  | .entry value      =>
      match b.up with
      | .array up started =>
          some ⟨b.content ++ encomma started ++ value.serialize, .array up true⟩
      | _ => none
  | .endObject        =>
      match b.up with
      | .object up _ => some ⟨b.content ++ ['\x7d'.toUInt8], up⟩
      | _            => none
  | .endArray         =>
      match b.up with
      | .array up _ => some ⟨b.content ++ [']'.toUInt8], up⟩
      | _           => none

/-- Calls in a row. -/
def Builder.run (b : Builder) (calls : List Call) : Option Builder := calls.foldlM Builder.step b

/-- `Json::Out()`. -/
def Builder.init : Builder := ⟨[], .out⟩

/-! ## Trees under construction -/

/-- The tree that is being built, and the ones that it goes into. -/
inductive Node where
  | out (done : Option Tree)
  | object (up : Node) (name : Option (List UInt8)) (members : List (List UInt8 × Tree))
  | array (up : Node) (name : Option (List UInt8)) (elements : List Tree)

/-- A finished tree is put in its place. -/
def Node.add : Node → Option (List UInt8) → Tree → Option Node
  | .out none, none, t               => some (.out (some t))
  | .object up name ms, some key, t  => some (.object up name (ms ++ [(key, t)]))
  | .array up name es, none, t       => some (.array up name (es ++ [t]))
  | _, _, _                          => none

/-- There is a place. -/
def Node.takes : Node → Option (List UInt8) → Bool
  | .out none, none         => true
  | .object _ _ _, some _   => true
  | .array _ _ _, none      => true
  | _, _                    => false

/-- A call. -/
def Node.step (n : Node) : Call → Option Node
  | .startObject name => if n.takes name then some (.object n name []) else none
  | .startArray name  => if n.takes name then some (.array n name []) else none
  | .field name value =>
      match n with
      | .object up key ms => some (.object up key (ms ++ [(name, value.tree)]))
      | _                 => none
  | .entry value      =>
      match n with
      | .array up key es => some (.array up key (es ++ [value.tree]))
      | _                => none
  | .endObject        =>
      match n with
      | .object up name ms => up.add name (.obj ms)
      | _                  => none
  | .endArray         =>
      match n with
      | .array up name es => up.add name (.arr es)
      | _                 => none

/-- What a well-nested sequence of calls builds. -/
def builds (calls : List Call) : Option Tree :=
  match calls.foldlM Node.step (.out none) with
  | some (.out done) => done
  | _                => none

/-! ## What is written -/

/-- Whether a comma is due. -/
def Node.started : Node → Bool
  | .out _          => false
  | .object _ _ ms  => !ms.isEmpty
  | .array _ _ es   => !es.isEmpty

/-- What is written before a tree is put in its place. -/
def Node.lead (n : Node) (name : Option (List UInt8)) : List UInt8 :=
  encomma n.started ++ (match name with
    | none     => []
    | some key => fieldName key)

/-- The text so far. -/
def Node.text : Node → List UInt8
  | .out none           => []
  | .out (some t)       => t.text
  | .object up name ms  => up.text ++ up.lead name ++ ('\x7b'.toUInt8 :: membersText false ms)
  | .array up name es   => up.text ++ up.lead name ++ ('['.toUInt8 :: elementsText false es)

/-- The builder, with `started` as it is once something was begun in it. -/
def Up.begun : Up → Up
  | .out         => .out
  | .object up _ => .object up true
  | .array up _  => .array up true

/-- The builder of a node. -/
def Node.up : Node → Up
  | .out _          => .out
  | .object up _ ms => .object up.up.begun (!ms.isEmpty)
  | .array up _ es  => .array up.up.begun (!es.isEmpty)

theorem elementsText_append (es es' : List Tree) (started : Bool) :
    elementsText started (es ++ es')
      = elementsText started es ++ elementsText (started || !es.isEmpty) es' := by
  induction es generalizing started with
  | nil => simp [elementsText]
  | cons t es ih =>
      rw [List.cons_append, elementsText, ih, elementsText]
      simp

theorem membersText_append (ms ms' : List (List UInt8 × Tree)) (started : Bool) :
    membersText started (ms ++ ms')
      = membersText started ms ++ membersText (started || !ms.isEmpty) ms' := by
  induction ms generalizing started with
  | nil => simp [membersText]
  | cons m ms ih =>
      rw [List.cons_append, membersText, ih, membersText]
      simp

/-- Where there is a place, the builder begins there. -/
theorem begin_of_takes {n : Node} {name : Option (List UInt8)} (h : n.takes name = true) :
    n.up.begin name = some (n.lead name, n.up.begun) := by
  cases n with
  | out done =>
      cases done with
      | some t => cases h
      | none =>
          cases name with
          | some key => cases h
          | none => rfl
  | object up key ms =>
      cases name with
      | some key => rfl
      | none => cases h
  | array up key es =>
      cases name with
      | some key => cases h
      | none =>
          unfold Node.lead
          rw [List.append_nil]
          rfl

/-- **SPEC (add)**: a tree in its place looks as if written there. -/
theorem text_add (n : Node) (name : Option (List UInt8)) {n' : Node} {t : Tree}
    (h : n.add name t = some n') :
    n'.text = n.text ++ n.lead name ++ t.text ∧ n'.up = n.up.begun := by
  cases n with
  | out done =>
      cases done with
      | some t' => cases h
      | none =>
          cases name with
          | some key => cases h
          | none =>
              cases h
              exact ⟨rfl, rfl⟩
  | object up key ms =>
      cases name with
      | none => cases h
      | some name =>
          cases h
          refine ⟨?_, by simp [Node.up, Up.begun]⟩
          simp only [Node.text, Node.lead, Node.started, membersText_append, membersText,
            memberPairText, Bool.false_or, List.append_assoc, List.cons_append, List.append_nil]
  | array up key es =>
      cases name with
      | some name => cases h
      | none =>
          cases h
          refine ⟨?_, by simp [Node.up, Up.begun]⟩
          simp only [Node.text, Node.lead, Node.started, elementsText_append, elementsText,
            Bool.false_or, List.append_assoc, List.cons_append, List.append_nil]

/-- **STEP**: a call writes what its tree looks like. -/
theorem step_text {n n' : Node} {c : Call} (h : n.step c = some n') :
    (⟨n.text, n.up⟩ : Builder).step c = some ⟨n'.text, n'.up⟩ := by
  cases c with
  | startObject name =>
      obtain ⟨htakes, heq⟩ := Option.ite_none_right_eq_some.mp h
      cases heq
      simp only [Builder.step, begin_of_takes htakes, Option.map_some]
      rfl
  | startArray name =>
      obtain ⟨htakes, heq⟩ := Option.ite_none_right_eq_some.mp h
      cases heq
      simp only [Builder.step, begin_of_takes htakes, Option.map_some]
      rfl
  | field name value =>
      cases n with
      | object up key ms =>
          obtain ⟨htext, hup⟩ := text_add (.object up key ms) (some name) h
          rw [htext, hup, ← value.serialize_eq]
          simp only [Builder.step, Node.up, Up.begun, Node.lead, Node.started, List.append_assoc]
      | _ => cases h
  | entry value =>
      cases n with
      | array up key es =>
          obtain ⟨htext, hup⟩ := text_add (.array up key es) none h
          rw [htext, hup, ← value.serialize_eq]
          simp only [Builder.step, Node.up, Up.begun, Node.lead, Node.started, List.append_assoc,
            List.nil_append]
      | _ => cases h
  | endObject =>
      cases n with
      | object up name ms =>
          obtain ⟨htext, hup⟩ := text_add _ _ h
          rw [htext, hup]
          simp only [Builder.step, Node.up, Node.text, Tree.text, List.append_assoc,
            List.cons_append]
      | _ => cases h
  | endArray =>
      cases n with
      | array up name es =>
          obtain ⟨htext, hup⟩ := text_add _ _ h
          rw [htext, hup]
          simp only [Builder.step, Node.up, Node.text, Tree.text, List.append_assoc,
            List.cons_append]
      | _ => cases h

/-- **RUN**. -/
theorem run_text {calls : List Call} :
    ∀ {n n' : Node}, calls.foldlM Node.step n = some n' →
      Builder.run ⟨n.text, n.up⟩ calls = some ⟨n'.text, n'.up⟩ := by
  induction calls with
  | nil =>
      intro n n' h
      cases h
      rfl
  | cons c calls ih =>
      intro n n' h
      rw [List.foldlM_cons] at h
      obtain ⟨n₁, hstep, hrest⟩ := Option.bind_eq_some_iff.mp h
      unfold Builder.run
      rw [List.foldlM_cons, step_text hstep]
      exact ih hrest

/-- **EVERY WELL-NESTED SEQUENCE** of calls has written its tree. -/
theorem build_content {calls : List Call} {t : Tree} (h : builds calls = some t) :
    Builder.run .init calls = some ⟨t.text, .out⟩ := by
  unfold builds at h
  split at h
  · rename_i done hrun
    subst h
    exact run_text hrun
  · cases h

/-! ## The outermost tree -/

/-- An object or an array. -/
def Tree.isContainer : Tree → Bool
  | .arr _ => true
  | .obj _ => true
  | _      => false

/-- What is finished outermost is an object or an array. -/
def Node.Rooted : Node → Prop
  | .out done        => ∀ t ∈ done, t.isContainer = true
  | .object up _ _   => up.Rooted
  | .array up _ _    => up.Rooted

theorem rooted_add {n n' : Node} {name : Option (List UInt8)} {t : Tree} (hn : n.Rooted)
    (ht : t.isContainer = true) (h : n.add name t = some n') : n'.Rooted := by
  cases n with
  | out done =>
      cases done with
      | some t' => cases h
      | none =>
          cases name with
          | some key => cases h
          | none =>
              cases h
              rintro _ ⟨⟩
              exact ht
  | object up key ms =>
      cases name with
      | none => cases h
      | some name =>
          cases h
          exact hn
  | array up key es =>
      cases name with
      | some name => cases h
      | none =>
          cases h
          exact hn

theorem rooted_step {n n' : Node} {c : Call} (hn : n.Rooted) (h : n.step c = some n') :
    n'.Rooted := by
  cases c with
  | startObject name =>
      cases (Option.ite_none_right_eq_some.mp h).2
      exact hn
  | startArray name =>
      cases (Option.ite_none_right_eq_some.mp h).2
      exact hn
  | field name value =>
      cases n with
      | object up key ms =>
          cases h
          exact hn
      | _ => cases h
  | entry value =>
      cases n with
      | array up key es =>
          cases h
          exact hn
      | _ => cases h
  | endObject =>
      cases n with
      | object up name ms => exact rooted_add (n := up) (t := .obj ms) hn rfl h
      | _ => cases h
  | endArray =>
      cases n with
      | array up name es => exact rooted_add (n := up) (t := .arr es) hn rfl h
      | _ => cases h

theorem rooted_run {calls : List Call} :
    ∀ {n n' : Node}, n.Rooted → calls.foldlM Node.step n = some n' → n'.Rooted := by
  induction calls with
  | nil =>
      intro n n' hn h
      cases h
      exact hn
  | cons c calls ih =>
      intro n n' hn h
      rw [List.foldlM_cons] at h
      obtain ⟨n₁, hstep, hrest⟩ := Option.bind_eq_some_iff.mp h
      exact ih (rooted_step hn hstep) hrest

theorem isContainer_of_builds {calls : List Call} {t : Tree} (h : builds calls = some t) :
    t.isContainer = true := by
  unfold builds at h
  split at h
  · rename_i done hrun
    subst h
    have hinit : (Node.out none).Rooted := by
      intro t ht
      cases ht
    exact rooted_run hinit hrun t rfl
  · cases h

/-- What is built can go into something else. -/
theorem exists_out {calls : List Call} {t : Tree} (h : builds calls = some t) :
    ∃ o : Out, Builder.run .init calls = some ⟨o.content, .out⟩ ∧ o.tree = t :=
  ⟨⟨t.text, t, rfl⟩, build_content h, rfl⟩

end Json
