import Clboss.ByteStreamProofs

/-! # Byte formats — what a reader accepts, as a relation

    `Decodes r bs a` says that a reader undoes ONE encoding.  It does not say
    that nothing else is accepted: a reader that runs past the end keeps going
    on default values and only the error bits remember.

    A **format** is the other half: the relation "these bytes spell this
    value", with no stream and no error bits.  `Parses r F` ties a reader to a
    format in both directions — every spelling is decoded, a stream that is
    still good afterwards has lost exactly one spelling from its front, and a
    stream that is not good never recovers.  It is closed under sequencing and
    under the read-each loop, and it gives that a format is PREFIX FREE
    (`Parses.not_good_of_proper`) without looking at the format again. -/

namespace ByteStream

/-- A format: which bytes spell which value. -/
def Format (α : Type) := List UInt8 → α → Prop

namespace Format

variable {α β : Type}

/-- Sequencing concatenates the spellings; `pure` spells a value by nothing. -/
instance : Monad Format where
  pure a := fun bs b => bs = [] ∧ b = a
  bind F G := fun bs b => ∃ us vs a, bs = us ++ vs ∧ F us a ∧ G a vs b

/-- The format without any spelling. -/
def fail : Format α := fun _ _ => False

/-- One byte. -/
def byte : Format UInt8 := fun bs b => bs = [b]

/-- One spelling for each element, in order. -/
def each (F : α → Format β) : List α → Format (List β)
  | []      => pure []
  | x :: xs => do
      let y ← F x
      let ys ← each F xs
      return y :: ys

/-- `each` over a vector. -/
def vecEach (F : α → Format β) (v : Vec α) : Format (Vec β) :=
  fun bs w => each F v.toList bs w.toList

/-- `n` spellings of the same format, one after the other. -/
def array (n : UInt64) (F : Format α) : Format (Vec α) :=
  fun bs w => each (fun _ : Unit => F) (List.replicate n.toNat ()) bs w.toList

/-- Over a constant format only the number of elements matters. -/
theorem each_const (F : Format β) :
    ∀ (xs : List α), each (fun _ => F) xs
      = each (fun _ : Unit => F) (List.replicate xs.length ()) := by
  intro xs
  induction xs with
  | nil => rfl
  | cons x xs ih =>
      show (F >>= fun y => each (fun _ => F) xs >>= fun ys => pure (y :: ys)) = _
      rw [ih]
      rfl

/-- An array is spelled by the spellings of its elements. -/
theorem array_flatMap {F : Format α} {e : α → List UInt8} (v : Vec α)
    (h : ∀ x ∈ v.toList, F (e x) x) : array v.size F (v.toList.flatMap e) v := by
  have key : ∀ xs : List α, (∀ x ∈ xs, F (e x) x) →
      each (fun _ : Unit => F) (List.replicate xs.length ()) (xs.flatMap e) xs := by
    intro xs
    induction xs with
    | nil => exact fun _ => ⟨rfl, rfl⟩
    | cons x xs ih =>
        intro h
        exact ⟨e x, _, x, rfl, h x (List.mem_cons_self ..), _, [], xs, (List.append_nil _).symm,
          ih fun y hy => h y (List.mem_cons_of_mem _ hy), rfl, rfl⟩
  have hv := key v.toList h
  rwa [← v.toNat_size] at hv

/-- Elements that take a byte each take as many bytes as there are. -/
theorem length_each {F : α → Format β} (hF : ∀ x bs y, F x bs y → 1 ≤ bs.length) {xs : List α}
    {bs : List UInt8} {ys : List β} (h : each F xs bs ys) : ys.length ≤ bs.length := by
  induction xs generalizing bs ys with
  | nil =>
      obtain ⟨rfl, rfl⟩ := h
      exact Nat.le_refl _
  | cons x xs ih =>
      obtain ⟨us, vs, y, rfl, hy, us', vs', ys', rfl, hys, rfl, rfl⟩ := h
      have := hF x us y hy
      have := ih hys
      simp only [List.length_cons, List.length_append, List.length_nil]
      omega

end Format

/-! ## `Image`: the same spellings, of other values -/

/-- The format `G` spells the images under `g` of what `F` spells. -/
def Image {α β : Type} (g : α → β) (F : Format α) (G : Format β) : Prop :=
  ∀ bs b, G bs b ↔ ∃ a, F bs a ∧ g a = b

namespace Image

variable {α β γ δ : Type}

theorem refl (F : Format α) : Image id F F := by
  intro bs a
  constructor
  · exact fun h => ⟨a, h, rfl⟩
  · rintro ⟨_, h, rfl⟩
    exact h

theorem pure (g : α → β) (a : α) : Image g (Pure.pure a : Format α) (Pure.pure (g a)) := by
  intro bs b
  constructor
  · rintro ⟨rfl, rfl⟩
    exact ⟨a, ⟨rfl, rfl⟩, rfl⟩
  · rintro ⟨_, ⟨rfl, rfl⟩, rfl⟩
    exact ⟨rfl, rfl⟩

theorem fail (g : α → β) : Image g (Format.fail : Format α) Format.fail :=
  fun _ _ => ⟨fun h => h.elim, fun ⟨_, h, _⟩ => h.elim⟩

/-- SEQUENCING. -/
theorem bind {g : α → β} {h : γ → δ} {F : Format α} {G : Format β} {K : α → Format γ}
    {L : β → Format δ} (hF : Image g F G) (hK : ∀ a, Image h (K a) (L (g a))) :
    Image h (F >>= K) (G >>= L) := by
  intro bs d
  constructor
  · rintro ⟨us, vs, b, rfl, hb, hd⟩
    obtain ⟨a, ha, rfl⟩ := (hF us b).mp hb
    obtain ⟨c, hc, rfl⟩ := (hK a vs d).mp hd
    exact ⟨c, ⟨us, vs, a, rfl, ha, hc⟩, rfl⟩
  · rintro ⟨c, ⟨us, vs, a, rfl, ha, hc⟩, rfl⟩
    exact ⟨us, vs, g a, rfl, (hF us _).mpr ⟨a, ha, rfl⟩, (hK a vs _).mpr ⟨c, hc, rfl⟩⟩

/-- A branch on a known condition. -/
theorem ite {c : Prop} [Decidable c] {g : α → β} {F₁ F₂ : Format α} {G₁ G₂ : Format β}
    (h1 : Image g F₁ G₁) (h2 : Image g F₂ G₂) :
    Image g (if c then F₁ else F₂) (if c then G₁ else G₂) := by
  by_cases h : c
  · rw [if_pos h, if_pos h]
    exact h1
  · rw [if_neg h, if_neg h]
    exact h2

/-- One spelling for each element. -/
theorem each {ι : Type} {g : α → β} {F : Format α} {G : Format β} (h : Image g F G) :
    ∀ xs : List ι,
      Image (List.map g) (Format.each (fun _ => F) xs) (Format.each (fun _ => G) xs) := by
  intro xs
  induction xs with
  | nil => exact pure (List.map g) []
  | cons x xs ih => exact h.bind fun a => ih.bind fun as => pure (List.map g) (a :: as)

/-- The same of an array. -/
theorem array {g : α → β} {F : Format α} {G : Format β} (h : Image g F G) (n : UInt64) :
    Image (Vec.map g) (Format.array n F) (Format.array n G) := by
  intro bs w
  constructor
  · intro hw
    obtain ⟨xs, hxs, hmap⟩ := (h.each _ bs w.toList).mp hw
    have hlen : xs.length < 2 ^ 64 := by
      have := w.size_lt
      rwa [← hmap, List.length_map] at this
    exact ⟨⟨xs, hlen⟩, hxs, Vec.ext_toList hmap⟩
  · rintro ⟨v, hv, rfl⟩
    exact (h.each _ bs _).mpr ⟨v.toList, hv, rfl⟩

end Image

/-! ## Good streams -/

/-- A good stream is a fresh stream over its unread bytes. -/
theorem IStream.eq_ofBytes {s : IStream} (h : s.good = true) :
    s = IStream.ofBytes s.rest := by
  obtain ⟨rest, eofbit, failbit⟩ := s
  cases eofbit <;> cases failbit <;> first | rfl | exact absurd h (by simp [good])

theorem IStream.ofBytes_inj {bs cs : List UInt8} (h : IStream.ofBytes bs = IStream.ofBytes cs) :
    bs = cs := congrArg IStream.rest h

/-- A reader that never makes a bad stream good again. -/
def Sticky {α : Type} (r : Reader α) : Prop :=
  ∀ s : IStream, s.good = false → (r s).2.good = false

/-! ## `Parses`: a reader that accepts exactly one format -/

/-- The reader `r` accepts exactly the format `F`. -/
structure Parses {α : Type} (r : Reader α) (F : Format α) : Prop where
  /-- Every spelling is decoded, in front of anything. -/
  decodes : ∀ {bs : List UInt8} {a : α}, F bs a → Decodes r bs a
  /-- A stream that stays good has lost one spelling of the value returned. -/
  spells : ∀ {bs : List UInt8} {a : α} {s : IStream},
    r (IStream.ofBytes bs) = (a, s) → s.good = true → ∃ us, bs = us ++ s.rest ∧ F us a
  /-- Error bits stay. -/
  sticky : Sticky r

namespace Parses

variable {α β : Type}

theorem pure (a : α) : Parses (Pure.pure a : Reader α) (Pure.pure a : Format α) where
  decodes := by
    rintro bs b ⟨rfl, rfl⟩
    exact Decodes.pure b
  spells := by
    intro bs b s h _
    cases h
    exact ⟨[], rfl, rfl, rfl⟩
  sticky := fun _ h => h

/-- Only the relation matters. -/
theorem congr {r : Reader α} {F G : Format α} (h : Parses r F) (hFG : ∀ bs a, F bs a ↔ G bs a) :
    Parses r G := by
  have heq : F = G := by
    funext bs a
    exact propext (hFG bs a)
  rwa [← heq]

/-- SEQUENCING. -/
theorem bind {r : Reader α} {k : α → Reader β} {F : Format α} {G : α → Format β}
    (h1 : Parses r F) (h2 : ∀ a, Parses (k a) (G a)) : Parses (r >>= k) (F >>= G) where
  decodes := by
    rintro bs b ⟨us, vs, a, rfl, hF, hG⟩
    exact (h1.decodes hF).bind ((h2 a).decodes hG)
  spells := by
    intro bs b s h hs
    -- the first reader must leave a good stream, or the second could not
    obtain ⟨a, t, hr⟩ : ∃ a t, r (IStream.ofBytes bs) = (a, t) := ⟨_, _, rfl⟩
    have hk : k a t = (b, s) := by
      have h' : k (r (IStream.ofBytes bs)).1 (r (IStream.ofBytes bs)).2 = (b, s) := h
      rwa [hr] at h'
    have ht : t.good = true := by
      by_contra hbad
      have := (h2 a).sticky t (Bool.eq_false_iff.mpr hbad)
      rw [hk] at this
      exact absurd hs (Bool.eq_false_iff.mp this)
    obtain ⟨us, hus, hF⟩ := h1.spells hr ht
    rw [IStream.eq_ofBytes ht] at hk
    obtain ⟨vs, hvs, hG⟩ := (h2 a).spells hk hs
    refine ⟨us ++ vs, ?_, us, vs, a, rfl, hF, hG⟩
    rw [hus, hvs, List.append_assoc]
  sticky := by
    intro s hs
    exact (h2 _).sticky _ (h1.sticky s hs)

/-- A branch on a known condition. -/
theorem ite {c : Prop} [Decidable c] {r₁ r₂ : Reader α} {F₁ F₂ : Format α}
    (h1 : c → Parses r₁ F₁) (h2 : ¬ c → Parses r₂ F₂) :
    Parses (if c then r₁ else r₂) (if c then F₁ else F₂) := by
  by_cases h : c
  · rw [if_pos h, if_pos h]
    exact h1 h
  · rw [if_neg h, if_neg h]
    exact h2 h

/-- A reader that always ends in failure accepts nothing. -/
theorem fail {r : Reader α} (h : ∀ s, (r s).2.good = false) : Parses r (Format.fail : Format α) where
  decodes := fun hF => hF.elim
  spells := by
    intro bs a s hr hs
    have := h (IStream.ofBytes bs)
    rw [hr] at this
    exact absurd hs (Bool.eq_false_iff.mp this)
  sticky := fun s _ => h s

/-- `get(c)` reads one byte, whatever `c` held. -/
theorem get (c : UInt8) : Parses (ByteStream.get c) Format.byte where
  decodes := by
    intro bs b hb
    rw [show bs = [b] from hb]
    exact Decodes.get c b
  spells := by
    intro bs a s h hs
    cases bs with
    | nil =>
        cases h
        exact absurd hs (by simp [IStream.good])
    | cons b bs =>
        cases h
        exact ⟨[_], rfl, rfl⟩
  sticky := by
    intro s hs
    have hnot : ByteStream.get c s = (c, { s with failbit := true }) := by
      simp [ByteStream.get, hs]
    rw [hnot]
    simp [IStream.good]

/-- A reader that goes on from one character or from end-of-file. -/
theorem getInt_bind {k : Option UInt8 → Reader α} {G : UInt8 → Format α}
    (h : ∀ b, Parses (k (some b)) (G b)) (hnone : Sticky (k none)) :
    Parses (ByteStream.getInt >>= k) (Format.byte >>= G) where
  decodes := by
    rintro bs a ⟨us, vs, b, rfl, rfl, hG⟩
    exact (Decodes.getInt b).bind ((h b).decodes hG)
  spells := by
    intro bs a s hr hs
    cases bs with
    | nil =>
        have hbad : (k none ⟨[], true, true⟩).2.good = false := hnone _ rfl
        have hr' : k none ⟨[], true, true⟩ = (a, s) := hr
        rw [hr'] at hbad
        exact absurd hs (Bool.eq_false_iff.mp hbad)
    | cons b bs =>
        obtain ⟨vs, hvs, hG⟩ := (h b).spells (show k (some b) (IStream.ofBytes bs) = (a, s) from hr) hs
        exact ⟨b :: vs, by rw [hvs]; rfl, [b], vs, b, rfl, rfl, hG⟩
  sticky := by
    intro s hs
    have hnot : ByteStream.getInt s = (none, { s with failbit := true }) := by
      simp [ByteStream.getInt, hs]
    show (k (ByteStream.getInt s).1 (ByteStream.getInt s).2).2.good = false
    rw [hnot]
    exact hnone _ (by simp [IStream.good])

/-- `b = get()`. -/
theorem getByte : Parses ByteStream.getByte Format.byte := by
  have h : Parses ByteStream.getByte (Format.byte >>= fun b => (Pure.pure b : Format UInt8)) :=
    getInt_bind (fun b => pure b) (fun _ hs => hs)
  refine h.congr fun bs b => ⟨?_, ?_⟩
  · rintro ⟨us, vs, c, rfl, hF, rfl, rfl⟩
    rwa [List.append_nil]
  · intro hb
    exact ⟨bs, [], b, (List.append_nil bs).symm, hb, rfl, rfl⟩

/-- THE READ-EACH LOOP. -/
theorem forEach {f : α → Reader α} {F : α → Format α} :
    ∀ {xs : List α}, (∀ x ∈ xs, Parses (f x) (F x)) →
      Parses (ByteStream.forEach f xs) (Format.each F xs) := by
  intro xs
  induction xs with
  | nil =>
      intro _
      exact pure []
  | cons x xs ih =>
      intro h
      refine (h x (List.mem_cons_self ..)).bind fun y => ?_
      refine (ih fun z hz => h z (List.mem_cons_of_mem _ hz)).bind fun ys => ?_
      exact pure (y :: ys)

/-- The vector form of the loop. -/
theorem vec_forEach {f : α → Reader α} {F : α → Format α} {v : Vec α}
    (h : ∀ x ∈ v.toList, Parses (f x) (F x)) :
    Parses (Vec.forEach f v) (Format.vecEach F v) where
  decodes := by
    intro bs w hw rest
    have key := (forEach h).decodes hw rest
    refine Prod.ext (Vec.ext_toList ?_) ?_
    · exact congrArg (fun p => p.1) key
    · show (ByteStream.forEach f v.toList (IStream.ofBytes (bs ++ rest))).2 = _
      rw [key]
  spells := by
    intro bs w s hr hs
    refine (forEach h).spells ?_ hs
    refine Prod.ext ?_ ?_
    · exact congrArg (fun p => p.1.toList) hr
    · exact congrArg (fun p => p.2) hr
  sticky := fun s hs => (forEach h).sticky s hs

/-- RESIZE, THEN READ EACH: an array of the announced length, when every element
    is read over by the same format. -/
theorem resize_forEach {f : α → Reader α} {F : Format α} (v : Vec α) (n : UInt64) (d : α)
    (h : ∀ x ∈ (v.resize n d).toList, Parses (f x) F) :
    Parses (Vec.forEach f (v.resize n d)) (Format.array n F) := by
  have key := vec_forEach (F := fun _ => F) h
  have heq : Format.vecEach (fun _ => F) (v.resize n d) = Format.array n F := by
    funext bs w
    show Format.each (fun _ => F) (v.resize n d).toList bs w.toList = _
    rw [Format.each_const, Vec.length_resize]
    rfl
  rwa [heq] at key

/-- A fixed-size byte array is spelled by its own bytes. -/
theorem readArray : ∀ n : Nat, Parses (ByteStream.readArray n) (fun bs l => bs = l.1) := by
  intro n
  induction n with
  | zero =>
      refine (pure (⟨[], rfl⟩ : { l : List UInt8 // l.length = 0 })).congr fun bs l => ⟨?_, ?_⟩
      · rintro ⟨rfl, rfl⟩
        rfl
      · intro h
        have hl : l = ⟨[], rfl⟩ := Subtype.ext (List.length_eq_zero_iff.mp l.2)
        exact ⟨by rw [h, hl], hl⟩
  | succ n ih =>
      have key := getByte.bind fun b => ih.bind fun l =>
        pure (⟨b :: l.1, by rw [List.length_cons, l.2]⟩ : { l : List UInt8 // l.length = n + 1 })
      refine key.congr fun bs l => ⟨?_, ?_⟩
      · rintro ⟨us, vs, b, rfl, hb, ws, xs, l', rfl, hl', rfl, rfl⟩
        rw [show us = [b] from hb, show ws = l'.1 from hl', List.append_nil]
        rfl
      · intro h
        obtain ⟨l, hl⟩ := l
        cases l with
        | nil => exact absurd hl (by simp)
        | cons b l =>
            have hlen : l.length = n := Nat.succ.inj hl
            exact ⟨[b], l, b, h, rfl, l, [], ⟨l, hlen⟩, (List.append_nil l).symm, rfl, rfl, rfl⟩

/-! ## What a format owes to its reader -/

/-- Reading exactly one spelling leaves the stream good and empty. -/
theorem run_eq {r : Reader α} {F : Format α} (h : Parses r F) {bs : List UInt8} {a : α}
    (hF : F bs a) : r (IStream.ofBytes bs) = (a, IStream.ofBytes []) := by
  have := h.decodes hF []
  rwa [List.append_nil] at this

/-- What the reader decodes is a spelling. -/
theorem format_of_decodes {r : Reader α} {F : Format α} (h : Parses r F) {bs : List UInt8} {a : α}
    (hd : Decodes r bs a) : F bs a := by
  have hrun := hd []
  rw [List.append_nil] at hrun
  obtain ⟨us, hus, hF⟩ := h.spells hrun rfl
  rw [show (IStream.ofBytes []).rest = [] from rfl, List.append_nil] at hus
  rwa [hus]

/-- **PREFIX FREE**: a strict prefix of a spelling leaves the stream bad. -/
theorem not_good_of_proper {r : Reader α} {F : Format α} (h : Parses r F)
    {us vs : List UInt8} {a : α} (hF : F (us ++ vs) a) (hvs : vs ≠ []) :
    (r (IStream.ofBytes us)).2.good = false := by
  by_contra hgood
  have hgood' : (r (IStream.ofBytes us)).2.good = true := Bool.not_eq_false _ ▸ hgood
  obtain ⟨ws, hws, hG⟩ := h.spells rfl hgood'
  -- the shorter spelling would leave `vs` unread in the longer text
  have h1 := h.decodes hG ((r (IStream.ofBytes us)).2.rest ++ vs)
  rw [← List.append_assoc, ← hws, h.run_eq hF] at h1
  have h2 : [] = (r (IStream.ofBytes us)).2.rest ++ vs :=
    IStream.ofBytes_inj (congrArg Prod.snd h1)
  exact hvs (List.append_eq_nil_iff.mp h2.symm).2

end Parses

end ByteStream
