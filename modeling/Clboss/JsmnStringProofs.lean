import Clboss.JsonRoundTripProofs
import Mathlib.Data.List.Flatten

/-! # `Jsmn::Detail::Str` — what the scanner lets through and what is made of it

    A body that the scanner accepts is a row of PIECES (`scanString_iff`): bytes that
    stand for themselves, escapes of one symbol, and `\u` with four digits.  Both
    unescaping and what it should yield are read piece by piece, so the two are
    compared piece by piece.

    They part in two places.  `\/` is an escape of the scanner and has no case in
    `from_escaped`.  And a code point beyond ASCII is assembled as `int`s, which the
    stream prints in decimal: all that unescaping writes for `\u` is ASCII.  So
    the bytes from `0x80` on are too few, whatever stands around the escape
    (`countHigh_le`), and the bodies that come out right are those of `Handled`.

    On the way out the `char` is signed and everything from `0x80` on is taken
    for a control character.  What is written stays a valid body, and it comes
    back with twelve bytes for every such byte (`fromEscaped_toEscaped_eq`). -/

namespace Jsmn

open Json

/-! ## Pieces -/

/-- What stands in a body, as the scanner sees it. -/
inductive Piece where
  | plain (c : UInt8) (h : c ≠ 0 ∧ c ≠ '"'.toUInt8 ∧ c ≠ '\\'.toUInt8)
  | escape (e : UInt8) (h : isEscape e = true)
  | unicode (a b c d : UInt8) (h : ∀ x ∈ [a, b, c, d], isHex x = true)

def Piece.text : Piece → List UInt8
  | .plain c _         => [c]
  | .escape e _        => ['\\'.toUInt8, e]
  | .unicode a b c d _ => ['\\'.toUInt8, 'u'.toUInt8, a, b, c, d]

/-- Pieces in a row. -/
def bodyText (ps : List Piece) : List UInt8 := ps.flatMap Piece.text

theorem bodyText_cons (p : Piece) (ps : List Piece) :
    bodyText (p :: ps) = p.text ++ bodyText ps := rfl

/-- The scanner accepts: it stops at the quote after the body. -/
def Accepted (body : List UInt8) : Prop :=
  ∃ rest, scanString 0 (body ++ '"'.toUInt8 :: rest) = .ok body.length

/-! ## What the scanner accepts -/

theorem isHex_ne {x : UInt8} (h : isHex x = true) : x ≠ 0 ∧ x ≠ '"'.toUInt8 ∧ x ≠ '\\'.toUInt8 := by
  refine ⟨?_, ?_, ?_⟩ <;> rintro rfl <;> cases h

theorem isEscape_ne {e : UInt8} (h : isEscape e = true) : e ≠ 'u'.toUInt8 := by
  rintro rfl
  cases h

theorem scanString_hexDigit {n : ℕ} {x : UInt8} {cs : List UInt8} (h : isHex x = true) :
    scanString (n + 1) (x :: cs) = (scanString n cs).map (· + 1) := by
  rw [scanString, if_neg (isHex_ne h).1, if_pos h]

/-- One piece of a body. -/
theorem scanString_piece (p : Piece) (c : UInt8) (cs : List UInt8) :
    scanString 0 (p.text ++ c :: cs) = (scanString 0 (c :: cs)).map (· + p.text.length) := by
  cases p with
  | plain x h =>
      show scanString 0 (x :: c :: cs) = _
      rw [scanString, if_neg h.1, if_neg h.2.1, if_neg h.2.2]
      rfl
  | escape e h =>
      show scanString 0 ('\\'.toUInt8 :: e :: c :: cs) = _
      rw [scanString, if_neg (by decide), if_neg (by decide), if_pos rfl, if_pos h]
      rfl
  | unicode x y z w h =>
      show scanString 0 ('\\'.toUInt8 :: 'u'.toUInt8 :: x :: y :: z :: w :: c :: cs) = _
      rw [scanString, if_neg (by decide), if_neg (by decide), if_pos rfl, if_neg (by decide),
        if_pos rfl, scanString_hexDigit (h x (by simp)), scanString_hexDigit (h y (by simp)),
        scanString_hexDigit (h z (by simp)), scanString_hexDigit (h w (by simp))]
      simp only [except_map_map]
      rfl

theorem scanString_bodyText (ps : List Piece) (rest : List UInt8) :
    scanString 0 (bodyText ps ++ '"'.toUInt8 :: rest) = .ok (bodyText ps).length := by
  induction ps with
  | nil =>
      cases rest with
      | nil       => rfl
      | cons c cs => rfl
  | cons p ps ih =>
      obtain ⟨c, cs, hc⟩ : ∃ c cs, bodyText ps ++ '"'.toUInt8 :: rest = c :: cs := by
        cases bodyText ps with
        | nil       => exact ⟨_, _, rfl⟩
        | cons c cs => exact ⟨_, _, rfl⟩
      rw [bodyText_cons, List.append_assoc, hc, scanString_piece, ← hc, ih, List.length_append]
      simp only [Except.map]
      rw [Nat.add_comm]

theorem ok_of_map_ok {x : Except Status ℕ} {k n : ℕ} (h : x.map (· + k) = .ok n) :
    ∃ m, x = .ok m ∧ n = m + k := by
  cases x with
  | error e => cases h
  | ok m    => exact ⟨m, rfl, (Except.ok.inj h).symm⟩

/-- What the scan of digits leaves. -/
theorem hex_of_scanString {n m : ℕ} {s : List UInt8} (h : scanString (n + 1) s = .ok m) :
    ∃ x cs k, s = x :: cs ∧ isHex x = true ∧ scanString n cs = .ok k ∧ m = k + 1 := by
  cases s with
  | nil => cases h
  | cons x cs =>
      rw [scanString] at h
      split at h
      · cases h
      · split at h
        · rename_i hhex
          obtain ⟨k, hk, hm⟩ := ok_of_map_ok h
          exact ⟨x, cs, k, rfl, hhex, hk, hm⟩
        · cases h

/-- **SPEC** of the scan: pieces up to a quote. -/
theorem pieces_of_scanString (k : ℕ) : ∀ {s : List UInt8} {n : ℕ}, s.length ≤ k →
    scanString 0 s = .ok n →
    ∃ ps rest, s = bodyText ps ++ '"'.toUInt8 :: rest ∧ n = (bodyText ps).length := by
  -- by the length of what is left, as an escape takes several bytes at once
  induction k with
  | zero =>
      intro s n hs h
      rw [List.length_eq_zero_iff.mp (Nat.le_zero.mp hs)] at h
      cases h
  | succ k ih =>
      intro s n hs h
      match s with
      | [] => cases h
      | [c] =>
          rw [scanString] at h
          split at h
          · rename_i hc
            exact ⟨[], [], by rw [hc]; rfl, (Except.ok.inj h).symm⟩
          · cases h
      | c :: e :: cs =>
          have hlength : cs.length + 2 ≤ k + 1 := hs
          rw [scanString] at h
          split at h
          · cases h
          rename_i hzero
          split at h
          · rename_i hc
            exact ⟨[], e :: cs, by rw [hc]; rfl, (Except.ok.inj h).symm⟩
          rename_i hquote
          split at h
          · rename_i hback
            split at h
            · rename_i hescape
              obtain ⟨m, hm, rfl⟩ := ok_of_map_ok h
              obtain ⟨ps, rest, hcs, rfl⟩ := ih (by omega) hm
              exact ⟨.escape e hescape :: ps, rest, by rw [hback, hcs]; rfl, rfl⟩
            split at h
            · rename_i hu
              obtain ⟨m, hm, rfl⟩ := ok_of_map_ok h
              obtain ⟨x, cs₁, m₁, rfl, hx, hm₁, rfl⟩ := hex_of_scanString hm
              obtain ⟨y, cs₂, m₂, rfl, hy, hm₂, rfl⟩ := hex_of_scanString hm₁
              obtain ⟨z, cs₃, m₃, rfl, hz, hm₃, rfl⟩ := hex_of_scanString hm₂
              obtain ⟨w, cs₄, m₄, rfl, hw, hm₄, rfl⟩ := hex_of_scanString hm₃
              simp only [List.length_cons] at hlength
              obtain ⟨ps, rest, hcs, rfl⟩ := ih (by omega) hm₄
              have hhex : ∀ v ∈ [x, y, z, w], isHex v = true := by
                simp only [List.forall_mem_cons]
                exact ⟨hx, hy, hz, hw, fun _ hv => absurd hv List.not_mem_nil⟩
              exact ⟨.unicode x y z w hhex :: ps, rest, by rw [hback, hu, hcs]; rfl, rfl⟩
            · cases h
          · rename_i hback
            obtain ⟨m, hm, rfl⟩ := ok_of_map_ok h
            obtain ⟨ps, rest, hcs, rfl⟩ := ih (by rw [List.length_cons]; omega) hm
            exact ⟨.plain c ⟨hzero, hquote, hback⟩ :: ps, rest, by rw [hcs]; rfl, rfl⟩

/-- **ACCEPTED** are the rows of pieces. -/
theorem accepted_iff {body : List UInt8} : Accepted body ↔ ∃ ps, bodyText ps = body := by
  constructor
  · rintro ⟨rest, h⟩
    obtain ⟨ps, rest', htext, hlength⟩ := pieces_of_scanString _ le_rfl h
    exact ⟨ps, (List.append_inj htext hlength).1.symm⟩
  · rintro ⟨ps, rfl⟩
    exact ⟨[], scanString_bodyText ps []⟩

/-! ## Unescaping, piece by piece -/

/-- The number of a hex digit. -/
def hexValue (c : UInt8) : ℕ :=
  if c.toNat ≤ 57 then c.toNat - 48 else if c.toNat ≤ 70 then c.toNat - 55 else c.toNat - 87

/-- The code point that four digits stand for. -/
def codePointOf (a b c d : UInt8) : ℕ :=
  ((hexValue a * 16 + hexValue b) * 16 + hexValue c) * 16 + hexValue d

/-- What `from_escaped` makes of a piece. -/
def Piece.unescaped : Piece → Option (List UInt8)
  | .plain c _         => some [c]
  | .escape e _        => (unescape e).map (fun u => [u])
  | .unicode a b c d _ => some (codePoint (codePointOf a b c d))

theorem parseHex_of_isHex {x : UInt8} (h : isHex x = true) :
    ∃ v : UInt8, Util.Str.parseHex x = .ok v ∧ v.toNat = hexValue x ∧ v.toNat < 16 := by
  have key : ∀ n : Fin 256, isHex (UInt8.ofNat n) = true →
      (Util.Str.parseHex (UInt8.ofNat n)).toOption.any
        (fun v => v.toNat = hexValue (UInt8.ofNat n) ∧ v.toNat < 16) = true := by
    set_option maxRecDepth 8000 in decide
  have hx := key ⟨x.toNat, x.toNat_lt⟩
  rw [UInt8.ofNat_toNat] at hx
  have hv := hx h
  cases hparse : Util.Str.parseHex x with
  | error e =>
      rw [hparse] at hv
      cases hv
  | ok v    =>
      rw [hparse] at hv
      exact ⟨v, rfl, of_decide_eq_true hv⟩

/-- Two digits as a byte. -/
theorem toNat_nibbles {u v : UInt8} (hu : u.toNat < 16) (hv : v.toNat < 16) :
    ((u <<< 4) ||| v).toNat = u.toNat * 16 + v.toNat := by
  have hshift : (u <<< 4).toNat = 2 ^ 4 * u.toNat := by
    rw [UInt8.toNat_shiftLeft, Nat.shiftLeft_eq, show (4 : UInt8).toNat % 8 = 4 from rfl]
    omega
  rw [UInt8.toNat_or, hshift, ← Nat.two_pow_add_eq_or_of_lt hv, Nat.mul_comm]

theorem hexEscape_eq {a b c d : UInt8} (h : ∀ x ∈ [a, b, c, d], isHex x = true) :
    hexEscape [a, b, c, d] = some (codePoint (codePointOf a b c d)) := by
  obtain ⟨va, ha, hva, hlta⟩ := parseHex_of_isHex (h a (by simp))
  obtain ⟨vb, hb, hvb, hltb⟩ := parseHex_of_isHex (h b (by simp))
  obtain ⟨vc, hc, hvc, hltc⟩ := parseHex_of_isHex (h c (by simp))
  obtain ⟨vd, hd, hvd, hltd⟩ := parseHex_of_isHex (h d (by simp))
  have hread : Util.Str.hexread [a, b, c, d] = .ok [(va <<< 4) ||| vb, (vc <<< 4) ||| vd] := by
    simp [Util.Str.hexread, Util.Str.hexreadLoop, Util.Str.parseHexByte, ha, hb, hc, hd]
    rfl
  have hcode :
      ((va <<< 4) ||| vb).toNat * 256 + ((vc <<< 4) ||| vd).toNat = codePointOf a b c d := by
    rw [toNat_nibbles hlta hltb, toNat_nibbles hltc hltd, hva, hvb, hvc, hvd]
    unfold codePointOf
    omega
  unfold hexEscape
  rw [hread]
  exact congrArg (fun n => some (codePoint n)) hcode

/-- **SPEC** of `from_escaped`: one piece. -/
theorem fromEscaped_piece (p : Piece) (rest : List UInt8) :
    fromEscaped (p.text ++ rest)
      = p.unescaped.bind (fun u => (fromEscaped rest).map (u ++ ·)) := by
  cases p with
  | plain c h =>
      show fromEscaped (c :: rest) = _
      rw [fromEscaped.eq_def]
      simp only [ne_eq, h.2.2, not_false_eq_true, if_true]
      rfl
  | escape e h =>
      show fromEscaped ('\\'.toUInt8 :: e :: rest) = _
      rw [fromEscaped.eq_def]
      simp only [ne_eq, not_true_eq_false, if_false, if_neg (isEscape_ne h), Piece.unescaped]
      cases unescape e <;> rfl
  | unicode a b c d h =>
      show fromEscaped ('\\'.toUInt8 :: 'u'.toUInt8 :: a :: b :: c :: d :: rest) = _
      rw [fromEscaped.eq_def]
      simp only [ne_eq, not_true_eq_false, if_false, if_true, hexEscape_eq h, Piece.unescaped]

/-- **RUN**: a body is unescaped piece by piece, or not at all. -/
theorem fromEscaped_bodyText {ps : List Piece} {t : List UInt8} :
    fromEscaped (bodyText ps) = some t ↔
      ∃ us, List.Forall₂ (fun p u => p.unescaped = some u) ps us ∧ t = us.flatten := by
  induction ps generalizing t with
  | nil =>
      constructor
      · intro h
        cases h
        exact ⟨[], .nil, rfl⟩
      · rintro ⟨us, hus, rfl⟩
        cases hus
        rfl
  | cons p ps ih =>
      rw [bodyText_cons, fromEscaped_piece]
      constructor
      · intro h
        obtain ⟨u, hu, h⟩ := Option.bind_eq_some_iff.mp h
        obtain ⟨t', ht', rfl⟩ := Option.map_eq_some_iff.mp h
        obtain ⟨us, hus, rfl⟩ := ih.mp ht'
        exact ⟨u :: us, .cons hu hus, rfl⟩
      · rintro ⟨us, hus, rfl⟩
        cases hus with
        | cons hu hus =>
            rw [hu, Option.bind_some, ih.mpr ⟨_, hus, rfl⟩]
            rfl

/-! ## What it should be -/

/-- The symbols that JSON escapes, and what they stand for. -/
def standardEscape (e : UInt8) : Option UInt8 :=
  if e = '/'.toUInt8 then some '/'.toUInt8 else unescape e

/-- Half of a pair. -/
def IsSurrogate (cp : ℕ) : Prop := 0xD800 ≤ cp ∧ cp ≤ 0xDFFF

/-- The text that a piece stands for; half of a pair stands for none in particular. -/
def Piece.Means : Piece → List UInt8 → Prop
  | .plain c _, w         => w = [c]
  | .escape e _, w        => ∃ u, standardEscape e = some u ∧ w = [u]
  | .unicode a b c d _, w =>
      IsSurrogate (codePointOf a b c d)
        ∨ w = String.utf8EncodeChar (Char.ofNat (codePointOf a b c d))

/-- The text that a body stands for. -/
def Spells (body t : List UInt8) : Prop :=
  ∃ ps ws, bodyText ps = body ∧ List.Forall₂ Piece.Means ps ws ∧ t = ws.flatten

/-- Unescaping ends, and yields what the body stands for. -/
def UnescapesRight (body : List UInt8) : Prop := ∃ t, fromEscaped body = some t ∧ Spells body t

/-- The pieces that `from_escaped` has right. -/
def Piece.Handled : Piece → Prop
  | .plain _ _         => True
  | .escape e _        => e ≠ '/'.toUInt8
  | .unicode a b c d _ => codePointOf a b c d < 0x80 ∨ IsSurrogate (codePointOf a b c d)

/-- No escaped slash, and no code point from `0x80` on but the surrogates. -/
def Handled (body : List UInt8) : Prop := ∀ ps, bodyText ps = body → ∀ p ∈ ps, p.Handled

/-! ## Handled pieces -/

theorem Piece.text_ne_nil (p : Piece) : p.text ≠ [] := by
  cases p <;> exact List.cons_ne_nil _ _

/-- The first piece can be told from the text. -/
theorem Piece.text_append_inj {p q : Piece} {s t : List UInt8} (h : p.text ++ s = q.text ++ t) :
    p = q ∧ s = t := by
  cases p <;> cases q <;>
    simp only [Piece.text, List.cons_append, List.nil_append, List.cons.injEq] at h
  case plain.plain =>
    obtain ⟨rfl, rfl⟩ := h
    exact ⟨rfl, rfl⟩
  case escape.escape =>
    obtain ⟨-, rfl, rfl⟩ := h
    exact ⟨rfl, rfl⟩
  case unicode.unicode =>
    obtain ⟨-, -, rfl, rfl, rfl, rfl, rfl⟩ := h
    exact ⟨rfl, rfl⟩
  case plain.escape hc _ _    => exact absurd h.1 hc.2.2
  case plain.unicode hc _ _ _ _ _ => exact absurd h.1 hc.2.2
  case escape.plain hc        => exact absurd h.1.symm hc.2.2
  case unicode.plain hc       => exact absurd h.1.symm hc.2.2
  case escape.unicode he _ _ _ _ _ => exact absurd h.2.1 (isEscape_ne he)
  case unicode.escape he      => exact absurd h.2.1.symm (isEscape_ne he)

/-- A body is one row of pieces. -/
theorem bodyText_injective : Function.Injective bodyText := by
  intro ps
  induction ps with
  | nil =>
      rintro (_ | ⟨q, qs⟩) h
      · rfl
      · exact absurd (List.append_eq_nil_iff.mp h.symm).1 q.text_ne_nil
  | cons p ps ih =>
      rintro (_ | ⟨q, qs⟩) h
      · exact absurd (List.append_eq_nil_iff.mp h).1 p.text_ne_nil
      · obtain ⟨rfl, hrest⟩ := Piece.text_append_inj h
        rw [ih hrest]

theorem handled_bodyText (ps : List Piece) : Handled (bodyText ps) ↔ ∀ p ∈ ps, p.Handled := by
  constructor
  · intro h
    exact h ps rfl
  · intro h qs hqs
    rwa [bodyText_injective hqs]

theorem toNat_charOfNat {cp : ℕ} (hs : ¬ IsSurrogate cp) (hlt : cp < 0x10000) :
    (Char.ofNat cp).val.toNat = cp := by
  have hvalid : cp.isValidChar := by
    unfold IsSurrogate at hs
    unfold Nat.isValidChar
    omega
  rw [Char.ofNat, dif_pos hvalid]
  rfl

theorem utf8_ascii {cp : ℕ} (h : cp < 0x80) :
    String.utf8EncodeChar (Char.ofNat cp) = [UInt8.ofNat cp] := by
  have hs : ¬ IsSurrogate cp := by
    unfold IsSurrogate
    omega
  unfold String.utf8EncodeChar
  rw [toNat_charOfNat hs (by omega)]
  exact if_pos (by omega)

/-- A handled piece comes out right. -/
theorem Piece.Handled.means {p : Piece} (h : p.Handled) :
    ∃ u, p.unescaped = some u ∧ p.Means u := by
  cases p with
  | plain c hc => exact ⟨[c], rfl, rfl⟩
  | escape e he =>
      have hne : e ≠ '/'.toUInt8 := h
      have hall : ∀ n : Fin 256, isEscape (UInt8.ofNat n) = true → UInt8.ofNat n ≠ '/'.toUInt8 →
          (unescape (UInt8.ofNat n)).isSome = true := by
        set_option maxRecDepth 8000 in decide
      have hsome := hall ⟨e.toNat, e.toNat_lt⟩
      rw [UInt8.ofNat_toNat] at hsome
      obtain ⟨u, hu⟩ := Option.isSome_iff_exists.mp (hsome he hne)
      refine ⟨[u], by rw [Piece.unescaped, hu]; rfl, u, ?_, rfl⟩
      rw [standardEscape, if_neg hne, hu]
  | unicode a b c d hx =>
      refine ⟨_, rfl, ?_⟩
      rcases h with hascii | hsurrogate
      · right
        rw [utf8_ascii hascii, codePoint, if_pos hascii]
      · exact Or.inl hsurrogate

/-! ## Bytes beyond ASCII -/

/-- How many bytes are beyond ASCII. -/
def countHigh (s : List UInt8) : ℕ := s.countP (fun c => 0x80 ≤ c)

theorem countHigh_append (s t : List UInt8) : countHigh (s ++ t) = countHigh s + countHigh t :=
  List.countP_append

theorem toNat_ofNat_lt {n k : ℕ} (h : n < k) (hk : k ≤ 256) : (UInt8.ofNat n).toNat < k := by
  rwa [UInt8.toNat_ofNat_of_lt' (by
    show n < 256
    omega)]

theorem countHigh_eq_zero {s : List UInt8} (h : ∀ c ∈ s, c.toNat < 0x80) : countHigh s = 0 := by
  rw [countHigh, List.countP_eq_zero]
  intro c hc hge
  have hge' := UInt8.le_iff_toNat_le.mp (of_decide_eq_true hge)
  have := h c hc
  rw [show (0x80 : UInt8).toNat = 0x80 from rfl] at hge'
  omega

theorem ascii_decimal {n : ℕ} (h : n < 256) : ∀ c ∈ decimal n, c.toNat < 0x80 := by
  unfold decimal
  simp only [List.forall_mem_cons]
  exact ⟨toNat_ofNat_lt (by omega) (by decide), toNat_ofNat_lt (by omega) (by decide),
    toNat_ofNat_lt (by omega) (by decide), fun _ hc => absurd hc List.not_mem_nil⟩

/-- What is written for a code point is ASCII. -/
theorem ascii_codePoint (cp : ℕ) : ∀ c ∈ codePoint cp, c.toNat < 0x80 := by
  unfold codePoint
  split
  · rename_i hcp
    intro c hc
    rw [List.mem_singleton.mp hc]
    exact toNat_ofNat_lt hcp (by decide)
  split
  · exact List.forall_mem_append.mpr ⟨ascii_decimal (by omega), ascii_decimal (by omega)⟩
  · exact List.forall_mem_append.mpr ⟨List.forall_mem_append.mpr ⟨ascii_decimal (by omega),
      ascii_decimal (by omega)⟩, ascii_decimal (by omega)⟩

theorem ascii_unescape {e u : UInt8} (h : unescape e = some u) : u.toNat < 0x80 := by
  have key : ∀ n : Fin 256,
      (unescape (UInt8.ofNat n)).all (fun u => u.toNat < 0x80) = true := by
    set_option maxRecDepth 8000 in decide
  have hall := key ⟨e.toNat, e.toNat_lt⟩
  rw [UInt8.ofNat_toNat, h] at hall
  exact of_decide_eq_true hall

/-- The UTF-8 form of a code point beyond ASCII starts with a byte beyond ASCII. -/
theorem countHigh_utf8 {cp : ℕ} (h : 0x80 ≤ cp) (hs : ¬ IsSurrogate cp) (hlt : cp < 0x10000) :
    0 < countHigh (String.utf8EncodeChar (Char.ofNat cp)) := by
  have hhigh : ∀ {n : ℕ} {s : List UInt8}, n < 0x40 →
      0 < countHigh (UInt8.ofNat (n + 0xC0) :: s) := by
    intro n s hn
    rw [countHigh, List.countP_pos_iff]
    refine ⟨_, List.mem_cons_self, decide_eq_true (UInt8.le_iff_toNat_le.mpr ?_)⟩
    rw [UInt8.toNat_ofNat_of_lt' (by
      show n + 0xC0 < 256
      omega)]
    show 0x80 ≤ n + 0xC0
    omega
  unfold String.utf8EncodeChar
  rw [toNat_charOfNat hs hlt]
  dsimp only
  rw [if_neg (by omega)]
  split
  · exact hhigh (n := cp / 64 % 0x20) (by omega)
  · rw [if_pos (by omega)]
    exact hhigh (n := cp / 4096 % 0x10 + 0x20) (by omega)

theorem codePointOf_lt {a b c d : UInt8} (h : ∀ x ∈ [a, b, c, d], isHex x = true) :
    codePointOf a b c d < 0x10000 := by
  have hlt : ∀ x ∈ [a, b, c, d], hexValue x < 16 := by
    intro x hx
    obtain ⟨v, -, hv, hv16⟩ := parseHex_of_isHex (h x hx)
    omega
  simp only [List.forall_mem_cons] at hlt
  unfold codePointOf
  omega

/-- **STEP**: unescaping writes no more bytes beyond ASCII than it should, and as many
    only for what it handles. -/
theorem Piece.countHigh_le {p : Piece} {u w : List UInt8} (hu : p.unescaped = some u)
    (hw : p.Means w) : countHigh u ≤ countHigh w ∧ (countHigh u = countHigh w → p.Handled) := by
  cases p with
  | plain c h =>
      cases hu
      rw [hw]
      exact ⟨le_rfl, fun _ => trivial⟩
  | escape e h =>
      obtain ⟨v, hv, rfl⟩ := Option.map_eq_some_iff.mp hu
      have hzero : countHigh [v] = 0 :=
        countHigh_eq_zero (fun c hc => List.mem_singleton.mp hc ▸ ascii_unescape hv)
      refine ⟨hzero ▸ Nat.zero_le _, fun _ => ?_⟩
      rintro rfl
      cases hv
  | unicode a b c d h =>
      cases hu
      rw [countHigh_eq_zero (ascii_codePoint _)]
      refine ⟨Nat.zero_le _, fun hzero => ?_⟩
      rcases hw with hs | rfl
      · exact Or.inr hs
      · by_contra hunhandled
        obtain ⟨hge, hs⟩ := not_or.mp hunhandled
        have := countHigh_utf8 (Nat.not_lt.mp hge) hs (codePointOf_lt h)
        omega

/-- **RUN**: so it is of a body. -/
theorem countHigh_flatten_le {ps : List Piece} {us ws : List (List UInt8)}
    (hus : List.Forall₂ (fun p u => p.unescaped = some u) ps us)
    (hws : List.Forall₂ Piece.Means ps ws) :
    countHigh us.flatten ≤ countHigh ws.flatten
      ∧ (countHigh us.flatten = countHigh ws.flatten → ∀ p ∈ ps, p.Handled) := by
  induction hus generalizing ws with
  | nil =>
      cases hws
      exact ⟨le_rfl, fun _ p hp => absurd hp List.not_mem_nil⟩
  | cons hu _ ih =>
      cases hws with
      | cons hw hws =>
          obtain ⟨hle, heq⟩ := Piece.countHigh_le hu hw
          obtain ⟨hles, heqs⟩ := ih hws
          rw [List.flatten_cons, List.flatten_cons, countHigh_append, countHigh_append]
          refine ⟨by omega, fun h => ?_⟩
          exact List.forall_mem_cons.mpr ⟨heq (by omega), heqs (by omega)⟩

/-! ## Unescaping -/

/-- **EXACTLY WHEN** a body that the scanner accepts is unescaped to the text it stands for. -/
theorem unescapesRight_iff_handled {body : List UInt8} (h : Accepted body) :
    UnescapesRight body ↔ Handled body := by
  obtain ⟨ps, rfl⟩ := accepted_iff.mp h
  rw [handled_bodyText]
  constructor
  · rintro ⟨t, ht, qs, ws, hqs, hws, rfl⟩
    rw [bodyText_injective hqs] at hws
    obtain ⟨us, hus, hflat⟩ := fromEscaped_bodyText.mp ht
    exact (countHigh_flatten_le hus hws).2 (by rw [hflat])
  · intro hall
    have hexists : ∃ us, List.Forall₂ (fun p u => p.unescaped = some u) ps us
        ∧ List.Forall₂ Piece.Means ps us := by
      clear h
      induction ps with
      | nil => exact ⟨[], .nil, .nil⟩
      | cons p ps ih =>
          obtain ⟨u, hu, hw⟩ := (hall p List.mem_cons_self).means
          obtain ⟨us, hus, hws⟩ := ih (fun q hq => hall q (List.mem_cons_of_mem _ hq))
          exact ⟨u :: us, .cons hu hus, .cons hw hws⟩
    obtain ⟨us, hus, hws⟩ := hexists
    exact ⟨us.flatten, fromEscaped_bodyText.mpr ⟨us, hus, rfl⟩, ps, us, rfl, hws, rfl⟩

/-- An escaped `A`, and a line feed, are unescaped right. -/
theorem ascii_unescapesRight :
    Accepted "\\u0041\\n".toUTF8.toList
      ∧ (UnescapesRight "\\u0041\\n".toUTF8.toList ↔ Handled "\\u0041\\n".toUTF8.toList) :=
  have h : Accepted "\\u0041\\n".toUTF8.toList := ⟨[], by decide +kernel⟩
  ⟨h, unescapesRight_iff_handled h⟩

/-- **COUNTEREXAMPLE**: `caf\u00e9` comes out as `caf195169`, and `\/` not at all. -/
theorem cafe_unescaped :
    fromEscaped "caf\\u00e9".toUTF8.toList = some "caf195169".toUTF8.toList
      ∧ fromEscaped "\\/".toUTF8.toList = none
      ∧ ¬ ∀ body, Accepted body → UnescapesRight body := by
  refine ⟨by decide +kernel, by decide +kernel, fun h => ?_⟩
  have haccepted : Accepted "\\/".toUTF8.toList := ⟨[], by decide +kernel⟩
  obtain ⟨t, ht, -⟩ := h _ haccepted
  rw [show fromEscaped "\\/".toUTF8.toList = none by decide +kernel] at ht
  cases ht

/-! ## Escaping -/

/-- A body of JSON. -/
def ValidBody (body : List UInt8) : Prop := ∃ us : List StrChar, rawText us = body

/-- What is escaped comes back, from a body that is one. -/
def EscapesRight (s : List UInt8) : Prop :=
  fromEscaped (toEscaped s) = some s ∧ ValidBody (toEscaped s)

/-- The last two digits of a byte as a 32-bit number. -/
def lastDigits (c : UInt8) : List UInt8 := [Json.hexDigit (c / 16), Json.hexDigit (c % 16)]

/-- What comes back of a byte. -/
def returned (c : UInt8) : List UInt8 :=
  if c < 0x80 then [c]
  else ['1', '9', '5', '1', '9', '1', 'f', 'f', 'f', 'f'].map Char.toUInt8 ++ lastDigits c

theorem escapeChar_high {c : UInt8} (h : 0x80 ≤ c) :
    escapeChar c = ['\\', 'u', '0', '0', 'f', 'f'].map Char.toUInt8
      ++ (['f', 'f', 'f', 'f'].map Char.toUInt8 ++ lastDigits c) := by
  have hne : ∀ d : UInt8, d.toNat < 0x80 → c ≠ d := by
    rintro d hd rfl
    exact absurd (UInt8.le_iff_toNat_le.mp h) (Nat.not_le.mpr hd)
  unfold escapeChar
  rw [if_neg (hne _ (by decide)), if_neg (hne _ (by decide)), if_neg (hne _ (by decide)),
    if_neg (hne _ (by decide)), if_neg (hne _ (by decide)), if_neg (hne _ (by decide)),
    if_neg (hne _ (by decide)), if_neg, if_neg (UInt8.not_lt.mpr h)]
  · rfl
  · exact UInt8.not_lt.mpr (UInt8.le_trans (by decide) h)

theorem fromEscaped_plain {l : List UInt8} (h : ∀ c ∈ l, c ≠ '\\'.toUInt8) (rest : List UInt8) :
    fromEscaped (l ++ rest) = (fromEscaped rest).map (l ++ ·) := by
  induction l with
  | nil => exact (congrFun Option.map_id _).symm
  | cons c l ih =>
      obtain ⟨hc, hl⟩ := List.forall_mem_cons.mp h
      rw [List.cons_append, fromEscaped.eq_def]
      simp only [ne_eq, hc, not_false_eq_true, if_true, ih hl, Option.map_map]
      rfl

/-- A hex digit is a plain character of a string. -/
theorem hexDigit_plain {d : UInt8} (h : d < 16) :
    0x20 ≤ Json.hexDigit d ∧ Json.hexDigit d ≠ '"'.toUInt8 ∧ Json.hexDigit d ≠ '\\'.toUInt8 :=
  forall_lt_of_all
    (P := fun d => 0x20 ≤ Json.hexDigit d ∧ Json.hexDigit d ≠ '"'.toUInt8
      ∧ Json.hexDigit d ≠ '\\'.toUInt8)
    (k := 16) (by decide) d (UInt8.lt_iff_toNat_lt.mp h)

theorem lastDigits_plain (c : UInt8) :
    ∀ d ∈ lastDigits c, 0x20 ≤ d ∧ d ≠ '"'.toUInt8 ∧ d ≠ '\\'.toUInt8 := by
  have hlt := c.toNat_lt
  have hdiv : c / 16 < 16 := UInt8.lt_iff_toNat_lt.mpr (by
    rw [UInt8.toNat_div]
    show c.toNat / 16 < 16
    omega)
  have hmod : c % 16 < 16 := UInt8.lt_iff_toNat_lt.mpr (by
    rw [UInt8.toNat_mod]
    show c.toNat % 16 < 16
    omega)
  exact List.forall_mem_cons.mpr ⟨hexDigit_plain hdiv,
    List.forall_mem_cons.mpr ⟨hexDigit_plain hmod, fun _ hd => absurd hd List.not_mem_nil⟩⟩

theorem fromEscaped_escapeChar_eq (c : UInt8) (rest : List UInt8) :
    fromEscaped (escapeChar c ++ rest) = (fromEscaped rest).map (returned c ++ ·) := by
  unfold returned
  split
  · rename_i hlow
    exact fromEscaped_escapeChar hlow rest
  · rename_i hhigh
    have hplain : ∀ d ∈ ['f', 'f', 'f', 'f'].map Char.toUInt8 ++ lastDigits c, d ≠ '\\'.toUInt8 :=
      List.forall_mem_append.mpr
        ⟨forall_mem_of_all (by decide), fun d hd => (lastDigits_plain c d hd).2.2⟩
    have hff : hexEscape (['0', '0', 'f', 'f'].map Char.toUInt8)
        = some (['1', '9', '5', '1', '9', '1'].map Char.toUInt8) := by
      decide
    rw [escapeChar_high (UInt8.not_lt.mp hhigh), List.append_assoc]
    show fromEscaped ('\\'.toUInt8 :: 'u'.toUInt8 :: '0'.toUInt8 :: '0'.toUInt8 :: 'f'.toUInt8
      :: 'f'.toUInt8 :: (_ ++ rest)) = _
    rw [fromEscaped.eq_def]
    simp only [ne_eq, not_true_eq_false, if_false, if_true]
    rw [show hexEscape ['0'.toUInt8, '0'.toUInt8, 'f'.toUInt8, 'f'.toUInt8] = _ from hff,
      Option.bind_some, fromEscaped_plain hplain, Option.map_map]
    rfl

/-- **WHAT COMES BACK**, of any bytes. -/
theorem fromEscaped_toEscaped_eq (s : List UInt8) :
    fromEscaped (toEscaped s) = some (s.flatMap returned) := by
  induction s with
  | nil => rfl
  | cons c s ih =>
      show fromEscaped (escapeChar c ++ toEscaped s) = _
      rw [fromEscaped_escapeChar_eq, ih]
      rfl

/-- **VALID**: whatever is escaped is a body of JSON. -/
theorem validBody_toEscaped (s : List UInt8) : ValidBody (toEscaped s) := by
  induction s with
  | nil => exact ⟨[], rfl⟩
  | cons c s ih =>
      obtain ⟨us', hus'⟩ := ih
      have hchar : ∃ us : List StrChar, rawText us = escapeChar c := by
        by_cases hlow : c < 0x80
        · exact exists_strChar hlow
        · rw [escapeChar_high (UInt8.not_lt.mp hlow)]
          have hf : 0x20 ≤ 'f'.toUInt8 ∧ 'f'.toUInt8 ≠ '"'.toUInt8 ∧ 'f'.toUInt8 ≠ '\\'.toUInt8 :=
            by decide
          obtain ⟨hhigh, hlast⟩ := List.forall_mem_cons.mp (lastDigits_plain c)
          exact ⟨[.unicode '0'.toUInt8 '0'.toUInt8 'f'.toUInt8 'f'.toUInt8
              (forall_mem_of_all (by decide)),
            .plain _ hf, .plain _ hf, .plain _ hf, .plain _ hf, .plain _ hhigh,
            .plain _ (hlast _ List.mem_cons_self)], rfl⟩
      obtain ⟨us, hus⟩ := hchar
      refine ⟨us ++ us', ?_⟩
      unfold rawText at hus hus' ⊢
      rw [List.flatMap_append, hus, hus']
      rfl

/-- More comes back for a byte beyond ASCII. -/
theorem length_returned (s : List UInt8) :
    s.length ≤ (s.flatMap returned).length
      ∧ ((s.flatMap returned).length = s.length → ∀ c ∈ s, c < 0x80) := by
  induction s with
  | nil => exact ⟨le_rfl, fun _ c hc => absurd hc List.not_mem_nil⟩
  | cons c s ih =>
      obtain ⟨hle, heq⟩ := ih
      rw [List.flatMap_cons, List.length_append, List.length_cons]
      by_cases hlow : c < 0x80
      · have hone : (returned c).length = 1 := by rw [returned, if_pos hlow]; rfl
        exact ⟨by omega, fun h => List.forall_mem_cons.mpr ⟨hlow, heq (by omega)⟩⟩
      · have htwelve : (returned c).length = 12 := by
          rw [returned, if_neg hlow, List.length_append]
          rfl
        exact ⟨by omega, fun h => absurd h (by omega)⟩

/-- **EXACTLY WHEN** a string survives: it is ASCII. -/
theorem escapesRight_iff_ascii (s : List UInt8) : EscapesRight s ↔ ∀ c ∈ s, c < 0x80 := by
  constructor
  · rintro ⟨h, -⟩
    rw [fromEscaped_toEscaped_eq] at h
    exact (length_returned s).2 (congrArg List.length (Option.some.inj h))
  · intro h
    exact ⟨fromEscaped_toEscaped h, validBody_toEscaped s⟩

/-- **COUNTEREXAMPLE**: the two bytes of an `é` come back as twenty-four. -/
theorem accent_returned :
    fromEscaped (toEscaped [0xC3, 0xA9]) = some "195191ffffc3195191ffffa9".toUTF8.toList
      ∧ ¬ ∀ s, EscapesRight s := by
  have hback : fromEscaped (toEscaped [0xC3, 0xA9])
      = some "195191ffffc3195191ffffa9".toUTF8.toList := by
    decide +kernel
  refine ⟨hback, fun h => ?_⟩
  have := (h [0xC3, 0xA9]).1
  rw [hback] at this
  exact absurd (congrArg List.length (Option.some.inj this)) (by decide +kernel)

end Jsmn
