import Mathlib.Data.List.Basic

/-! # `Util::Str` — hexadecimal text

    `hexread` throws on an odd length and on the first character that is no
    digit; what `hexdump` writes it reads back (`hexread_hexdump`), and where
    `ishex` holds it does not throw.

    Some components keep a `std::string` as a `String`, whose characters are then
    its bytes (`ofBytes`). -/

namespace Util.Str

/-! ## Hex -/

/-- `HexParseFailure`, by what was wrong. -/
inductive HexParseFailure where
  | oddLength
  | nonHex (c : UInt8)
deriving DecidableEq, Repr

/-- The message; the offending character goes through a C string. -/
def HexParseFailure.what : HexParseFailure → List UInt8
  | .oddLength => "String length must be even.".toUTF8.toList
  | .nonHex c  => "Non-hex character: ".toUTF8.toList ++ (if c = 0 then [] else [c])

/-- `parse_hex`. -/
def parseHex (c : UInt8) : Except HexParseFailure UInt8 :=
  if 48 ≤ c ∧ c ≤ 57 then .ok (c &&& 0xF)
  else if (97 ≤ c ∧ c ≤ 102) ∨ (65 ≤ c ∧ c ≤ 70) then .ok ((c + 9) &&& 0xF)
  else .error (.nonHex c)

/-- `parse_hex_byte`. -/
def parseHexByte (c0 c1 : UInt8) : Except HexParseFailure UInt8 := do
  let h ← parseHex c0
  let l ← parseHex c1
  return (h <<< 4) ||| l

/-- The loop of `hexread`, two characters at a time. -/
def hexreadLoop : List UInt8 → Except HexParseFailure (List UInt8)
  | c0 :: c1 :: s => do
      let b ← parseHexByte c0 c1
      let bs ← hexreadLoop s
      return b :: bs
  | _ => .ok []

/-- `hexread`: the length is checked before any character. -/
def hexread (s : List UInt8) : Except HexParseFailure (List UInt8) :=
  if s.length % 2 ≠ 0 then .error .oddLength
  else hexreadLoop s

/-- One digit as `std::hex` prints it. -/
def hexDigit (n : UInt8) : UInt8 := if n < 10 then 48 + n else 87 + n

/-- `hexbyte`: two digits, padded with zero. -/
def hexbyte (v : UInt8) : List UInt8 := [hexDigit (v >>> 4), hexDigit (v &&& 0xF)]

/-- `hexdump`. -/
def hexdump (bs : List UInt8) : List UInt8 := bs.flatMap hexbyte

theorem parseHex_hexDigit {n : UInt8} (h : n < 16) : parseHex (hexDigit n) = .ok n := by
  have hn : n.toNat < 16 := UInt8.lt_iff_toNat_lt.mp h
  have key : ∀ m : Fin 16, parseHex (hexDigit (UInt8.ofNat m.1)) = .ok (UInt8.ofNat m.1) := by
    decide
  have := key ⟨n.toNat, hn⟩
  rwa [UInt8.ofNat_toNat] at this

theorem toNat_high (v : UInt8) : (v >>> 4).toNat = v.toNat / 16 := by
  rw [UInt8.toNat_shiftRight, Nat.shiftRight_eq_div_pow]
  rfl

theorem toNat_low (v : UInt8) : (v &&& 0xF).toNat = v.toNat % 16 := by
  rw [UInt8.toNat_and]
  exact Nat.and_two_pow_sub_one_eq_mod v.toNat 4

/-- The two halves of a byte make it up again. -/
theorem halves (v : UInt8) : (v >>> 4) <<< 4 ||| (v &&& 0xF) = v := by
  have hv := v.toNat_lt
  apply UInt8.toNat_inj.mp
  rw [UInt8.toNat_or, UInt8.toNat_shiftLeft, toNat_high, toNat_low]
  have hshift : (v.toNat / 16) <<< ((4 : UInt8).toNat % 8) % 2 ^ 8 = (v.toNat / 16) <<< 4 := by
    show (v.toNat / 16) <<< 4 % 256 = (v.toNat / 16) <<< 4
    rw [Nat.shiftLeft_eq]
    omega
  rw [hshift, ← Nat.shiftLeft_add_eq_or_of_lt (show v.toNat % 16 < 2 ^ 4 by omega),
    Nat.shiftLeft_eq]
  omega

theorem parseHexByte_hexbyte (v : UInt8) :
    parseHexByte (hexDigit (v >>> 4)) (hexDigit (v &&& 0xF)) = .ok v := by
  have hv := v.toNat_lt
  have h1 : v >>> 4 < 16 := by
    rw [UInt8.lt_iff_toNat_lt, toNat_high]
    simp only [UInt8.reduceToNat]
    omega
  have h2 : v &&& 0xF < 16 := by
    rw [UInt8.lt_iff_toNat_lt, toNat_low]
    simp only [UInt8.reduceToNat]
    omega
  unfold parseHexByte
  rw [parseHex_hexDigit h1, parseHex_hexDigit h2]
  show Except.ok ((v >>> 4) <<< 4 ||| (v &&& 0xF)) = _
  rw [halves]

theorem length_hexdump (bs : List UInt8) : (hexdump bs).length = 2 * bs.length := by
  induction bs with
  | nil => rfl
  | cons b bs ih =>
      show (hexdump bs).length + 1 + 1 = 2 * (bs.length + 1)
      rw [ih]
      omega

/-- What was dumped is read back. -/
theorem hexread_hexdump (bs : List UInt8) : hexread (hexdump bs) = .ok bs := by
  have hloop : hexreadLoop (hexdump bs) = .ok bs := by
    induction bs with
    | nil => rfl
    | cons b bs ih =>
        show (parseHexByte (hexDigit (b >>> 4)) (hexDigit (b &&& 0xF)) >>= fun c =>
          hexreadLoop (hexdump bs) >>= fun cs => pure (c :: cs)) = .ok (b :: bs)
        rw [parseHexByte_hexbyte, ih]
        rfl
  unfold hexread
  rw [length_hexdump, if_neg (by omega)]
  exact hloop

theorem length_hexreadLoop (s : List UInt8) :
    ∀ bs, hexreadLoop s = .ok bs → 2 * bs.length ≤ s.length := by
  fun_induction hexreadLoop s with
  | case1 c0 c1 s ih =>
      intro bs h
      cases hb : parseHexByte c0 c1 with
      | error e =>
          rw [hb] at h
          cases h
      | ok b =>
          cases hrest : hexreadLoop s with
          | error e =>
              rw [hb, hrest] at h
              cases h
          | ok bs' =>
              rw [hb, hrest] at h
              cases h
              have := ih bs' hrest
              simp only [List.length_cons]
              omega
  | case2 =>
      intro bs h
      cases h
      exact Nat.zero_le _

theorem length_hexread {s bs : List UInt8} (h : hexread s = .ok bs) : 2 * bs.length ≤ s.length := by
  unfold hexread at h
  split at h
  · cases h
  · exact length_hexreadLoop s bs h

/-! ## Hex digits -/

/-- A character that `ishex` lets through. -/
def isHexDigit (c : UInt8) : Bool :=
  (48 ≤ c && c ≤ 57) || (97 ≤ c && c ≤ 102) || (65 ≤ c && c ≤ 70)

/-- `ishex`. -/
def ishex (s : List UInt8) : Bool := s.length % 2 = 0 && s.all isHexDigit

theorem exists_parseHex {c : UInt8} (h : isHexDigit c = true) : ∃ v, parseHex c = .ok v := by
  unfold isHexDigit at h
  unfold parseHex
  simp only [Bool.or_eq_true, Bool.and_eq_true, decide_eq_true_eq] at h
  split
  · exact ⟨_, rfl⟩
  · rename_i hdec
    split
    · exact ⟨_, rfl⟩
    · rename_i halpha
      rcases h with (h | h) | h
      · exact absurd h hdec
      · exact absurd (Or.inl h) halpha
      · exact absurd (Or.inr h) halpha

/-- Hex digits, an even number of them, are bytes. -/
theorem exists_hexreadLoop (s : List UInt8) (heven : s.length % 2 = 0)
    (h : ∀ c ∈ s, isHexDigit c = true) :
    ∃ bs, hexreadLoop s = .ok bs ∧ 2 * bs.length = s.length := by
  fun_induction hexreadLoop s with
  | case1 c0 c1 s ih =>
      obtain ⟨v0, h0⟩ := exists_parseHex (h c0 (by simp))
      obtain ⟨v1, h1⟩ := exists_parseHex (h c1 (by simp))
      obtain ⟨bs, hbs, hlen⟩ := ih (by simp only [List.length_cons] at heven; omega)
        (fun c hc => h c (List.mem_cons_of_mem _ (List.mem_cons_of_mem _ hc)))
      refine ⟨(v0 <<< 4 ||| v1) :: bs, ?_, ?_⟩
      · simp only [parseHexByte, h0, h1, hbs]
        rfl
      · simp only [List.length_cons]
        omega
  | case2 s hs =>
      refine ⟨[], rfl, ?_⟩
      cases s with
      | nil => rfl
      | cons c0 s =>
          cases s with
          | nil => cases heven
          | cons c1 rest => exact absurd rfl (hs c0 c1 rest)

theorem isHexDigit_hexDigit {n : UInt8} (h : n < 16) : isHexDigit (hexDigit n) = true := by
  have hn : n.toNat < 16 := UInt8.lt_iff_toNat_lt.mp h
  have key : ∀ m : Fin 16, isHexDigit (hexDigit (UInt8.ofNat m.1)) = true := by decide
  have := key ⟨n.toNat, hn⟩
  rwa [UInt8.ofNat_toNat] at this

/-- What was dumped is hex. -/
theorem isHexDigit_of_mem_hexdump {bs : List UInt8} {c : UInt8} (h : c ∈ hexdump bs) :
    isHexDigit c = true := by
  obtain ⟨b, -, hc⟩ := List.mem_flatMap.mp h
  simp only [hexbyte, List.mem_cons, List.not_mem_nil, or_false] at hc
  have hb := b.toNat_lt
  rcases hc with rfl | rfl
  · refine isHexDigit_hexDigit (UInt8.lt_iff_toNat_lt.mpr ?_)
    rw [toNat_high]
    show b.toNat / 16 < 16
    omega
  · refine isHexDigit_hexDigit (UInt8.lt_iff_toNat_lt.mpr ?_)
    rw [toNat_low]
    show b.toNat % 16 < 16
    omega

/-! ## Strings -/

/-- The bytes of a `std::string` as characters. -/
def ofBytes (s : List UInt8) : String := String.ofList (s.map fun c => Char.ofNat c.toNat)

/-- The bytes of a string whose characters they are. -/
def bytes (s : String) : List UInt8 := s.toList.map fun c => UInt8.ofNat c.toNat

@[simp] theorem bytes_ofBytes (s : List UInt8) : bytes (ofBytes s) = s := by
  have hchar : ∀ c : UInt8, UInt8.ofNat (Char.ofNat c.toNat).toNat = c := by
    intro c
    have hvalid : c.toNat.isValidChar := Or.inl (by
      have := c.toNat_lt
      omega)
    have htoNat : (Char.ofNat c.toNat).toNat = c.toNat := by
      rw [Char.ofNat, dif_pos hvalid]
      rfl
    rw [htoNat, UInt8.ofNat_toNat]
  unfold bytes ofBytes
  rw [String.toList_ofList, List.map_map]
  exact List.map_id'' hchar s

theorem ofBytes_inj {s s' : List UInt8} : ofBytes s = ofBytes s' ↔ s = s' := by
  constructor
  · intro h
    rw [← bytes_ofBytes s, h, bytes_ofBytes]
  · exact congrArg ofBytes

end Util.Str
