import Clboss.TxHexProofs
import Mathlib.Data.List.Lex
import Mathlib.Order.Basic

/-! # `Ln::NodeId` — what is read is an id, and what is printed is read back

    The constructor checks the text and reads its hex; once the check has passed
    the reading cannot fail (`isSome_ofString`).  A text that is no node id is a
    `std::range_error`, which NO handler of `std::invalid_argument` catches. -/

namespace Ln

open Util.Str

/-! ## Node ids -/

/-- The bytes of a node id: a compressed public key, or zero. -/
def NodeId.Valid (raw : List UInt8) : Prop :=
  raw.length = 33
    ∧ (raw.head? = some 2 ∨ raw.head? = some 3 ∨ raw = List.replicate 33 0)

instance (raw : List UInt8) : Decidable (NodeId.Valid raw) :=
  inferInstanceAs (Decidable (_ ∧ _))

/-- `Ln::NodeId`; behind zero there is a null pointer. -/
structure NodeId where
  raw   : List UInt8
  valid : NodeId.Valid raw

namespace NodeId

theorem raw_injective : Function.Injective NodeId.raw := by
  rintro ⟨_, _⟩ ⟨_, _⟩ rfl
  rfl

instance : DecidableEq NodeId := fun a b =>
  decidable_of_iff (a.raw = b.raw) raw_injective.eq_iff

/-- The bytes as numbers. -/
def digits (n : NodeId) : List ℕ := n.raw.map UInt8.toNat

theorem digits_injective : Function.Injective digits := fun _ _ h =>
  raw_injective (List.map_injective_iff.mpr (fun _ _ => UInt8.toNat_inj.mp) h)

/-- `operator<` compares the bytes from the first on, and zero comes first. -/
instance : LinearOrder NodeId := LinearOrder.lift' digits digits_injective

/-- `all_zeros`. -/
def allZeros (s : List UInt8) : Bool := s.all (fun c => c = 48)

/-- `valid_string`. -/
def validString (s : List UInt8) : Bool :=
  s.length = 66 && ishex s && s[0]? = some 48
    && (s[1]? = some 50 || s[1]? = some 51 || allZeros s)

/-- The constructor from a text; `none` is its `std::range_error`. -/
def ofString (s : List UInt8) : Option NodeId :=
  if validString s then
    match hexread s with
    | .ok val  => if h : Valid val then some ⟨val, h⟩ else none
    | .error _ => none
  else none

/-- `operator std::string`. -/
def toString (n : NodeId) : List UInt8 := hexdump n.raw

/-- Behind a text that passes the check there is an id. -/
theorem exists_valid {s : List UInt8} (h : validString s = true) :
    ∃ val, hexread s = .ok val ∧ Valid val := by
  simp only [validString, ishex, Bool.and_eq_true, Bool.or_eq_true, decide_eq_true_eq,
    List.all_eq_true] at h
  obtain ⟨⟨⟨hlen, heven, hhex⟩, hfirst⟩, hsecond⟩ := h
  obtain ⟨val, hval, hlval⟩ := exists_hexreadLoop s heven hhex
  refine ⟨val, by rw [hexread, if_neg (by omega), hval], by omega, ?_⟩
  -- The first byte comes from the first two characters.
  have hhead : ∀ c v, s[1]? = some c → parseHexByte 48 c = .ok v → val.head? = some v := by
    intro c v hc hv
    match s with
    | []               => cases hc
    | [_]              => cases hc
    | c0 :: c1 :: rest =>
        obtain rfl : c0 = 48 := Option.some.inj hfirst
        obtain rfl : c1 = c := Option.some.inj hc
        obtain ⟨bs, hbs, -⟩ := exists_hexreadLoop rest (by simp only [List.length_cons] at heven; omega)
          (fun c hc => hhex c (List.mem_cons_of_mem _ (List.mem_cons_of_mem _ hc)))
        simp only [hexreadLoop, hv, hbs] at hval
        cases hval
        rfl
  rcases hsecond with (h2 | h3) | hzero
  · exact Or.inl (hhead 50 2 h2 (by decide))
  · exact Or.inr (Or.inl (hhead 51 3 h3 (by decide)))
  · refine Or.inr (Or.inr ?_)
    simp only [allZeros, List.all_eq_true, decide_eq_true_eq] at hzero
    have hs : s = List.replicate 66 48 := List.eq_replicate_iff.mpr ⟨hlen, hzero⟩
    have hz : hexreadLoop (List.replicate 66 48) = .ok (List.replicate 33 0) := by decide
    rw [hs, hz] at hval
    cases hval
    rfl

/-- SPEC: the check is all there is to the constructor. -/
theorem isSome_ofString (s : List UInt8) : (ofString s).isSome = validString s := by
  unfold ofString
  by_cases h : validString s = true
  · obtain ⟨val, hval, hvalid⟩ := exists_valid h
    simp only [h, if_true, hval, dif_pos hvalid, Option.isSome_some]
  · rw [if_neg h, Option.isSome_none, Bool.eq_false_iff.mpr h]

theorem validString_hexdump {raw : List UInt8} (h : Valid raw) :
    validString (hexdump raw) = true := by
  obtain ⟨hlen, hhead⟩ := h
  have hhex : ishex (hexdump raw) = true := by
    simp only [ishex, length_hexdump, hlen, Bool.and_eq_true, List.all_eq_true]
    exact ⟨by decide, fun c hc => isHexDigit_of_mem_hexdump hc⟩
  have hfirst : ∀ b, raw.head? = some b →
      (hexdump raw)[0]? = (hexbyte b)[0]? ∧ (hexdump raw)[1]? = (hexbyte b)[1]? := by
    intro b hb
    obtain ⟨rest, rfl⟩ := List.head?_eq_some_iff.mp hb
    exact ⟨rfl, rfl⟩
  have hlength : (hexdump raw).length = 66 := by
    rw [length_hexdump, hlen]
  simp only [validString, Bool.and_eq_true, Bool.or_eq_true, decide_eq_true_eq]
  rcases hhead with h2 | h3 | rfl
  · exact ⟨⟨⟨hlength, hhex⟩, (hfirst 2 h2).1⟩, Or.inl (Or.inl (hfirst 2 h2).2)⟩
  · exact ⟨⟨⟨hlength, hhex⟩, (hfirst 3 h3).1⟩, Or.inl (Or.inr (hfirst 3 h3).2)⟩
  · exact ⟨⟨⟨hlength, hhex⟩, by decide⟩, Or.inr (by decide)⟩

/-- What was printed is read back. -/
theorem ofString_toString (n : NodeId) : ofString n.toString = some n := by
  have hread : hexread n.toString = .ok n.raw := hexread_hexdump n.raw
  unfold ofString
  rw [if_pos (show validString n.toString = true from validString_hexdump n.valid), hread]
  simp only [dif_pos n.valid]

end NodeId

end Ln
