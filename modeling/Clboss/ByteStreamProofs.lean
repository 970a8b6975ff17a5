import Mathlib.Data.List.Forall2
import Mathlib.Data.Nat.Bitwise

/-! # Byte streams — readers that undo writers

    A stream reader in the manner of a C++ `istream`: the unread bytes, an
    end-of-file bit and a fail bit.  Reading never stops the program; it sets
    bits and hands back whatever the variable held before, so a reader is a
    TOTAL function of the stream state.

    The one notion proofs need is `Decodes r bs a`: from a good stream that
    starts with `bs`, the reader `r` returns `a` and leaves exactly what
    follows `bs`.  It is closed under sequencing (`Decodes.bind`) and under the
    resize-then-read-each loop (`Decodes.forEach`), so a round trip is assembled
    field by field. -/

namespace ByteStream

/-- The state of an input stream over a byte buffer. -/
structure IStream where
  rest    : List UInt8
  eofbit  : Bool
  failbit : Bool
deriving DecidableEq, Repr

/-- A fresh stream over the given bytes. -/
def IStream.ofBytes (bs : List UInt8) : IStream := ⟨bs, false, false⟩

/-- `good()`: no error bit is set. -/
def IStream.good (s : IStream) : Bool := !s.eofbit && !s.failbit

/-- A reader: it threads the stream state. -/
abbrev Reader (α : Type) := StateM IStream α

/-- `get(c)`: assigns the next character to `c`, or leaves `c` as it was and
    sets the error bits. -/
def get (c : UInt8) : Reader UInt8 := fun s =>
  if s.good then
    match s.rest with
    | b :: bs => (b, { s with rest := bs })
    | []      => (c, { s with eofbit := true, failbit := true })
  else (c, { s with failbit := true })

/-- `get()`: the next character, or end-of-file (`none`). -/
def getInt : Reader (Option UInt8) := fun s =>
  if s.good then
    match s.rest with
    | b :: bs => (some b, { s with rest := bs })
    | []      => (none, { s with eofbit := true, failbit := true })
  else (none, { s with failbit := true })

/-- `b = get()` into a byte: end-of-file is `-1`, which truncates to `0xFF`. -/
def getByte : Reader UInt8 := do
  match ← getInt with
  | some b => return b
  | none   => return 0xFF

/-- `setstate(failbit)`. -/
def setFail : Reader Unit := fun s => ((), { s with failbit := true })

/-- Read into each element in order: `for (auto& x : xs) is >> x;`. -/
def forEach {α : Type} (f : α → Reader α) : List α → Reader (List α)
  | []      => pure []
  | x :: xs => do
      let y ← f x
      let ys ← forEach f xs
      return y :: ys

/-- A fixed-size byte array, read in order with `get()`. -/
def readArray : (n : Nat) → Reader { l : List UInt8 // l.length = n }
  | 0     => pure ⟨[], rfl⟩
  | n + 1 => do
      let b ← getByte
      let l ← readArray n
      return ⟨b :: l.1, by rw [List.length_cons, l.2]⟩

/-! ## Vectors whose size fits a 64-bit `size_t` -/

/-- A `std::vector`: its size is a 64-bit `size_t`. -/
structure Vec (α : Type) where
  toList  : List α
  size_lt : toList.length < 2 ^ 64
deriving DecidableEq

namespace Vec

variable {α : Type}

@[ext] theorem ext_toList {v w : Vec α} (h : v.toList = w.toList) : v = w := by
  cases v; cases w; cases h; rfl

/-- The empty vector. -/
def nil : Vec α := ⟨[], Nat.two_pow_pos 64⟩

/-- A one-element vector. -/
def single (a : α) : Vec α := ⟨[a], Nat.one_lt_two_pow (by decide)⟩

/-- A three-element vector. -/
def triple (a b c : α) : Vec α :=
  ⟨[a, b, c], by rw [show [a, b, c].length = 3 from rfl]; decide⟩

/-- `size()`. -/
def size (v : Vec α) : UInt64 := UInt64.ofNat v.toList.length

theorem toNat_size (v : Vec α) : v.size.toNat = v.toList.length :=
  Nat.mod_eq_of_lt v.size_lt

/-- `resize(n)`: keep the first `n` elements, pad with default ones. -/
def resize (v : Vec α) (n : UInt64) (d : α) : Vec α where
  toList := v.toList.take n.toNat
    ++ List.replicate (n.toNat - v.toList.length) d
  size_lt := by
    have := n.toNat_lt
    simp only [List.length_append, List.length_take, List.length_replicate]
    omega

theorem length_resize (v : Vec α) (n : UInt64) (d : α) :
    (v.resize n d).toList.length = n.toNat := by
  simp only [resize, List.length_append, List.length_take, List.length_replicate]
  omega

end Vec

/-- The in-place loop keeps the number of elements. -/
theorem length_forEach {α : Type} (f : α → Reader α) :
    ∀ (xs : List α) (s : IStream), (forEach f xs s).1.length = xs.length := by
  intro xs
  induction xs with
  | nil => intro s; rfl
  | cons x xs ih =>
      intro s
      show (forEach f xs (f x s).2).1.length + 1 = xs.length + 1
      rw [ih]

/-- Elementwise combination of two vectors. -/
def Vec.zipWith {α β γ : Type} (g : α → β → γ) (v : Vec α) (w : Vec β) : Vec γ where
  toList  := List.zipWith g v.toList w.toList
  size_lt := by
    have := v.size_lt
    rw [List.length_zipWith]
    omega

/-- Combining by keeping the right element keeps the right vector. -/
theorem Vec.zipWith_right {α β : Type} {v : Vec α} {w : Vec β}
    (h : v.toList.length = w.toList.length) :
    Vec.zipWith (fun _ b => b) v w = w := by
  apply Vec.ext_toList
  show List.zipWith (fun _ b => b) v.toList w.toList = w.toList
  rw [← List.map_uncurry_zip_eq_zipWith]
  exact List.map_snd_zip (Nat.le_of_eq h.symm)

/-- Elementwise image of a vector. -/
def Vec.map {α β : Type} (g : α → β) (v : Vec α) : Vec β where
  toList  := v.toList.map g
  size_lt := by
    rw [List.length_map]
    exact v.size_lt

/-- Combining by a function of the right element maps the right vector. -/
theorem Vec.zipWith_map {α β γ : Type} (g : β → γ) {v : Vec α} {w : Vec β}
    (h : v.toList.length = w.toList.length) :
    Vec.zipWith (fun _ b => g b) v w = w.map g := by
  apply Vec.ext_toList
  have hz := congrArg Vec.toList (Vec.zipWith_right h)
  show List.zipWith (fun _ b => g b) v.toList w.toList = w.toList.map g
  exact List.map_zipWith.symm.trans (congrArg (List.map g) hz)

/-- `forEach` over a vector. -/
def Vec.forEach {α : Type} (f : α → Reader α) (v : Vec α) : Reader (Vec α) :=
  fun s =>
    (⟨(ByteStream.forEach f v.toList s).1, by
        rw [length_forEach]; exact v.size_lt⟩,
      (ByteStream.forEach f v.toList s).2)

/-! ## `Decodes`: a reader that consumes exactly one encoding -/

/-- From a good stream that starts with `bs`, `r` returns `a` and leaves
    exactly the bytes after `bs`. -/
def Decodes {α : Type} (r : Reader α) (bs : List UInt8) (a : α) : Prop :=
  ∀ rest : List UInt8,
    r (IStream.ofBytes (bs ++ rest)) = (a, IStream.ofBytes rest)

namespace Decodes

variable {α β : Type}

theorem pure (a : α) : Decodes (Pure.pure a : Reader α) [] a := fun _ => rfl

/-- Sequencing readers concatenates the encodings they consume. -/
theorem bind {r : Reader α} {k : α → Reader β} {bs cs : List UInt8} {a : α} {b : β}
    (h1 : Decodes r bs a) (h2 : Decodes (k a) cs b) :
    Decodes (r >>= k) (bs ++ cs) b := by
  intro rest
  show (match r (IStream.ofBytes (bs ++ cs ++ rest)) with
    | (x, s) => k x s) = (b, IStream.ofBytes rest)
  rw [List.append_assoc, h1 (cs ++ rest)]
  exact h2 rest

/-- A first reader of a single byte. -/
theorem bind_cons {r : Reader α} {k : α → Reader β} {c : UInt8} {cs : List UInt8} {a : α} {b : β}
    (h1 : Decodes r [c] a) (h2 : Decodes (k a) cs b) : Decodes (r >>= k) (c :: cs) b := h1.bind h2

/-- A pure step after a reader maps its result. -/
theorem map {r : Reader α} {bs : List UInt8} {a : α} (f : α → β) (h : Decodes r bs a) :
    Decodes (r >>= fun x => Pure.pure (f x)) bs (f a) := by
  have := h.bind (k := fun x => Pure.pure (f x)) (pure (f a))
  rwa [List.append_nil] at this

theorem get (c b : UInt8) : Decodes (ByteStream.get c) [b] b := fun _ => rfl

theorem getInt (b : UInt8) : Decodes ByteStream.getInt [b] (some b) := fun _ => rfl

theorem getByte (b : UInt8) : Decodes ByteStream.getByte [b] b := fun _ => rfl

/-- A byte array reads back. -/
theorem readArray : ∀ (n : Nat) (l : List UInt8) (h : l.length = n),
    Decodes (ByteStream.readArray n) l ⟨l, h⟩ := by
  intro n
  induction n with
  | zero =>
      intro l h
      cases List.length_eq_zero_iff.mp h
      exact pure _
  | succ n ih =>
      intro l h
      cases l with
      | nil => exact nomatch h
      | cons b l =>
          refine (getByte b).bind ?_
          exact (ih l (Nat.succ.inj h)).map _

/-- Reading into each element: when reading an encoding of `y` into `x` gives
    `g x y`, the loop over `xs` consumes the concatenated encodings of `ys` and
    gives the elementwise results. -/
theorem forEach {f : α → Reader α} {e : β → List UInt8} {g : α → β → α} :
    ∀ (xs : List α) (ys : List β), xs.length = ys.length →
      (∀ x, ∀ y ∈ ys, Decodes (f x) (e y) (g x y)) →
      Decodes (ByteStream.forEach f xs) (ys.flatMap e) (List.zipWith g xs ys) := by
  intro xs
  induction xs with
  | nil =>
      intro ys hlen _
      rw [List.length_eq_zero_iff.mp hlen.symm]
      exact pure []
  | cons x xs ih =>
      intro ys hlen h
      cases ys with
      | nil => exact nomatch hlen
      | cons y ys =>
          rw [List.flatMap_cons]
          have hx := h x y (List.mem_cons_self ..)
          have hxs := ih ys (Nat.succ.inj hlen)
            (fun x' y' hy' => h x' y' (List.mem_cons_of_mem _ hy'))
          exact hx.bind (hxs.map (fun zs => g x y :: zs))

/-- The vector form of `Decodes.forEach`. -/
theorem vec_forEach {f : α → Reader α} {e : β → List UInt8} {g : α → β → α}
    (v : Vec α) (w : Vec β) (hlen : v.toList.length = w.toList.length)
    (h : ∀ x, ∀ y ∈ w.toList, Decodes (f x) (e y) (g x y)) :
    Decodes (Vec.forEach f v) (w.toList.flatMap e) (Vec.zipWith g v w) := by
  intro rest
  have key := Decodes.forEach v.toList w.toList hlen h rest
  refine Prod.ext ?_ ?_
  · apply Vec.ext_toList
    show (ByteStream.forEach f v.toList
      (IStream.ofBytes (w.toList.flatMap e ++ rest))).1 = List.zipWith g v.toList w.toList
    rw [key]
  · show (ByteStream.forEach f v.toList
      (IStream.ofBytes (w.toList.flatMap e ++ rest))).2 = IStream.ofBytes rest
    rw [key]

/-- RESIZE, THEN READ EACH: the vector is resized to the size of `w` and every
    element is read over. -/
theorem resize_forEach {f : α → Reader α} {e : β → List UInt8} {g : α → β → α}
    (v : Vec α) (w : Vec β) (d : α)
    (h : ∀ x, ∀ y ∈ w.toList, Decodes (f x) (e y) (g x y)) :
    Decodes (Vec.forEach f (v.resize w.size d)) (w.toList.flatMap e)
      (Vec.zipWith g (v.resize w.size d) w) := by
  have hlen : (v.resize w.size d).toList.length = w.toList.length := by
    rw [Vec.length_resize, Vec.toNat_size]
  exact vec_forEach (v.resize w.size d) w hlen h

/-- Raw bytes after a resize: the vector becomes exactly those bytes. -/
theorem resize_bytes (v w : Vec UInt8) :
    Decodes (Vec.forEach (fun _ => ByteStream.getByte) (v.resize w.size 0))
      w.toList w := by
  have h := resize_forEach (f := fun _ => ByteStream.getByte) (e := fun b => [b])
    (g := fun _ b => b) v w 0 (fun _ b _ => getByte b)
  rw [List.flatMap_singleton'] at h
  rwa [Vec.zipWith_right (by rw [Vec.length_resize, Vec.toNat_size])] at h

end Decodes

end ByteStream
