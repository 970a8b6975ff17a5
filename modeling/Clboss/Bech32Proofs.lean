import Clboss.BitGroupProofs
import Mathlib.Data.List.GetD

/-! # `Util::Bech32` and its two users — addresses and node ids

    Decoding goes from the LAST `1` of a text to six characters before its end; what
    these six are is not looked at.  Up to them and to the case of letters an
    accepted text is one encoding (`decode_iff`), and the row of bits that
    comes out is cut into groups of eight again.

    An address has a version in its first group and its program behind it.  The two
    lengths of padding that are asked for, an even number of bytes and less than a
    group left over, leave one row of groups for a program (`scriptOfData_iff`). -/

open BitGroups

namespace Util.Bech32

/-! ## The code -/

/-- `bech32_chars`. -/
def bech32Chars : List UInt8 := "qpzry9x8gf2tvdw0s3jn54khce6mua7l".toUTF8.toList

def tolower (c : UInt8) : UInt8 := if 'A'.toUInt8 ≤ c ∧ c ≤ 'Z'.toUInt8 then c + 32 else c

/-- `decode_char`; `none` is `-1`. -/
def decodeChar (c : UInt8) : Option ℕ := bech32Chars.idxOf? (tolower c)

/-- The last `1`: what is before it, and what is after. -/
def splitSeparator : List UInt8 → Option (List UInt8 × List UInt8)
  | []     => none
  | c :: s =>
      match splitSeparator s with
      | some p => some (c :: p.1, p.2)
      | none   => if c = '1'.toUInt8 then some ([], s) else none

/-- `decode`: the human-readable part and the bits; each value stands for the five
    bits that the table `binary` has for it. -/
def decode (bech32 : List UInt8) : Option (List UInt8 × List Bool) := do
  let (pre, rest) ← splitSeparator bech32
  -- `it >= end - 6`: the data part is too short
  if rest.length ≤ 6 then none
  else do
    let vals ← (rest.take (rest.length - 6)).mapM decodeChar
    return (pre.map tolower, vals.flatMap (bits 5))

/-- The padding at the end of `bitstream_to_bytes`. -/
def padByte : ℕ → UInt8 → UInt8
  | 0, byte     => byte
  | k + 1, byte => padByte k (byte <<< 1)

/-- `bitstream_to_bytes`, with the bits that are in `byte` already. -/
def bitstreamLoop (bitctr : ℕ) (byte : UInt8) : List Bool → List UInt8
  | []      => if bitctr ≠ 0 then [padByte (8 - bitctr) byte] else []
  | b :: bs =>
      let byte := (byte <<< 1) ||| (if b then 1 else 0)
      if bitctr + 1 = 8 then byte :: bitstreamLoop 0 0 bs else bitstreamLoop (bitctr + 1) byte bs

/-- `bitstream_to_bytes`. -/
def bitstreamToBytes (bs : List Bool) : List UInt8 := bitstreamLoop 0 0 bs

/-! ## Characters -/

/-- The character of a value. -/
def charOf (v : ℕ) : UInt8 := bech32Chars.getD v 0

/-- The alphabet: small letters and digits, each read as its place, and no separator. -/
theorem alphabet :
    bech32Chars.length = 32
      ∧ (∀ v : Fin 32, decodeChar (charOf v) = some v.1 ∧ tolower (charOf v) = charOf v)
      ∧ decodeChar '1'.toUInt8 = none ∧ '1'.toUInt8 ∉ bech32Chars := by
  decide +kernel

theorem decodeChar_charOf {v : ℕ} (h : v < 32) : decodeChar (charOf v) = some v :=
  (alphabet.2.1 ⟨v, h⟩).1

theorem length_bech32Chars : bech32Chars.length = 32 := alphabet.1

/-- **SPEC** of `decode_char`: a letter of the alphabet, in either case. -/
theorem decodeChar_iff {c : UInt8} {v : ℕ} :
    decodeChar c = some v ↔ v < 32 ∧ tolower c = charOf v := by
  constructor
  · intro h
    obtain ⟨hlt, heq, -⟩ := List.idxOf?_eq_some_iff.mp h
    rw [length_bech32Chars] at hlt
    refine ⟨hlt, ?_⟩
    rw [charOf, List.getD_eq_getElem _ _ (by rw [length_bech32Chars]; exact hlt)]
    exact heq.symm
  · rintro ⟨hlt, heq⟩
    have hlower : tolower (charOf v) = charOf v := (alphabet.2.1 ⟨v, hlt⟩).2
    rw [← decodeChar_charOf hlt]
    unfold decodeChar
    rw [hlower, heq]

/-- The bytes of the alphabet, in either case, are not the separator. -/
theorem decodeChar_separator : decodeChar '1'.toUInt8 = none := alphabet.2.2.1

/-- Row of values, row of characters. -/
theorem mapM_decodeChar_iff {cs : List UInt8} {vs : List ℕ} :
    cs.mapM decodeChar = some vs ↔ (∀ v ∈ vs, v < 32) ∧ cs.map tolower = vs.map charOf := by
  induction cs generalizing vs with
  | nil =>
      constructor
      · intro h
        cases h
        exact ⟨fun v hv => absurd hv List.not_mem_nil, rfl⟩
      · rintro ⟨-, h⟩
        rw [List.map_eq_nil_iff.mp h.symm]
        rfl
  | cons c cs ih =>
      rw [List.mapM_cons]
      constructor
      · intro h
        obtain ⟨v, hv, h⟩ := Option.bind_eq_some_iff.mp h
        obtain ⟨vs', hvs, h⟩ := Option.bind_eq_some_iff.mp h
        cases h
        obtain ⟨hlt, hc⟩ := decodeChar_iff.mp hv
        obtain ⟨hlts, hcs⟩ := ih.mp hvs
        exact ⟨List.forall_mem_cons.mpr ⟨hlt, hlts⟩, by rw [List.map_cons, List.map_cons, hc, hcs]⟩
      · rintro ⟨hlts, h⟩
        cases vs with
        | nil => cases h
        | cons v vs =>
            obtain ⟨hlt, hlts⟩ := List.forall_mem_cons.mp hlts
            obtain ⟨hc, hcs⟩ := List.cons.inj h
            rw [decodeChar_iff.mpr ⟨hlt, hc⟩, ih.mpr ⟨hlts, hcs⟩]
            rfl

/-! ## The separator -/

theorem not_mem_of_splitSeparator {s : List UInt8} (h : splitSeparator s = none) :
    '1'.toUInt8 ∉ s := by
  induction s with
  | nil => exact List.not_mem_nil
  | cons c s ih =>
      unfold splitSeparator at h
      split at h
      · cases h
      · rename_i hnone
        split at h
        · cases h
        · rename_i hc
          intro hmem
          rcases List.mem_cons.mp hmem with heq | hmem
          · exact hc heq.symm
          · exact ih hnone hmem

theorem splitSeparator_iff {s a b : List UInt8} :
    splitSeparator s = some (a, b) ↔ s = a ++ '1'.toUInt8 :: b ∧ '1'.toUInt8 ∉ b := by
  induction s generalizing a b with
  | nil =>
      constructor
      · intro h
        cases h
      · rintro ⟨h, -⟩
        exact absurd h.symm (List.append_ne_nil_of_right_ne_nil _ (List.cons_ne_nil _ _))
  | cons c s ih =>
      unfold splitSeparator
      split
      · rename_i p hp
        obtain ⟨a', b'⟩ := p
        obtain ⟨hs, hb⟩ := ih.mp hp
        constructor
        · intro h
          cases h
          exact ⟨by rw [hs]; rfl, hb⟩
        · rintro ⟨h, hnot⟩
          cases a with
          | nil =>
              -- there is one in what is left, so the first is not the last
              rw [List.nil_append, List.cons.injEq] at h
              rw [← h.2, hs] at hnot
              exact absurd (List.mem_append_right _ List.mem_cons_self) hnot
          | cons d a =>
              rw [List.cons_append, List.cons.injEq] at h
              have := ih.mpr ⟨h.2, hnot⟩
              rw [hp] at this
              cases this
              rw [h.1]
      · rename_i hnone
        split
        · rename_i hc
          constructor
          · intro h
            cases h
            exact ⟨by rw [hc]; rfl, not_mem_of_splitSeparator hnone⟩
          · rintro ⟨h, hnot⟩
            cases a with
            | nil => rw [List.nil_append, List.cons.injEq] at h; rw [h.2]
            | cons d a =>
                rw [List.cons_append, List.cons.injEq] at h
                rw [ih.mpr ⟨h.2, hnot⟩] at hnone
                cases hnone
        · rename_i hc
          constructor
          · intro h
            cases h
          · rintro ⟨h, hnot⟩
            cases a with
            | nil => exact absurd (List.cons.inj h).1 hc
            | cons d a =>
                rw [List.cons_append, List.cons.injEq] at h
                rw [ih.mpr ⟨h.2, hnot⟩] at hnone
                cases hnone

/-! ## Encodings -/

/-- A text before its checksum. -/
def textOf (hrp : List UInt8) (vs : List ℕ) : List UInt8 := hrp ++ '1'.toUInt8 :: vs.map charOf

/-- The text is an encoding of these values, up to the case of letters and with its
    last six characters as they may be. -/
structure Encodes (s hrp : List UInt8) (vs : List ℕ) : Prop where
  some   : vs ≠ []
  values : ∀ v ∈ vs, v < 32
  text   : ∃ body tail, s = body ++ tail ∧ tail.length = 6 ∧ '1'.toUInt8 ∉ tail
    ∧ body.map tolower = textOf hrp vs

theorem tolower_separator {c : UInt8} : tolower c = '1'.toUInt8 ↔ c = '1'.toUInt8 := by
  have key : ∀ n : Fin 256,
      tolower (UInt8.ofNat n) = '1'.toUInt8 ↔ UInt8.ofNat n = '1'.toUInt8 := by
    set_option maxRecDepth 8000 in decide
  have hc := key ⟨c.toNat, c.toNat_lt⟩
  rwa [UInt8.ofNat_toNat] at hc

/-- No value is written as the separator. -/
theorem not_mem_separator {data : List UInt8} {vs : List ℕ} (hlt : ∀ v ∈ vs, v < 32)
    (h : data.map tolower = vs.map charOf) : '1'.toUInt8 ∉ data := by
  intro hmem
  have hmem' : '1'.toUInt8 ∈ vs.map charOf :=
    h ▸ List.mem_map.mpr ⟨_, hmem, tolower_separator.mpr rfl⟩
  obtain ⟨v, hv, hchar⟩ := List.mem_map.mp hmem'
  have hdecode := decodeChar_charOf (hlt v hv)
  rw [hchar, decodeChar_separator] at hdecode
  cases hdecode

/-- **EXACTLY** the encodings are decoded. -/
theorem decode_iff {s hrp : List UInt8} {data : List Bool} :
    decode s = some (hrp, data) ↔ ∃ vs, Encodes s hrp vs ∧ data = vs.flatMap (bits 5) := by
  constructor
  · intro h
    unfold decode at h
    obtain ⟨⟨pre, rest⟩, hsplit, h⟩ := Option.bind_eq_some_iff.mp h
    obtain ⟨hs, hnot⟩ := splitSeparator_iff.mp hsplit
    dsimp only at h
    split at h
    · cases h
    rename_i hlength
    obtain ⟨vs, hvs, h⟩ := Option.bind_eq_some_iff.mp h
    cases h
    obtain ⟨hlt, hchars⟩ := mapM_decodeChar_iff.mp hvs
    have hne : vs ≠ [] := by
      rintro rfl
      have := congrArg List.length hchars
      rw [List.length_map, List.length_take, List.map_nil, List.length_nil] at this
      omega
    refine ⟨vs, ⟨hne, hlt, pre ++ '1'.toUInt8 :: rest.take (rest.length - 6),
      rest.drop (rest.length - 6), ?_, ?_, ?_, ?_⟩, rfl⟩
    · rw [hs, List.append_assoc, List.cons_append, List.take_append_drop]
    · rw [List.length_drop]
      omega
    · exact fun hmem => hnot (List.mem_of_mem_drop hmem)
    · rw [List.map_append, List.map_cons, hchars, tolower_separator.mpr rfl]
      rfl
  · rintro ⟨vs, ⟨hne, hlt, body, tail, hs, htail, hnot, htext⟩, rfl⟩
    obtain ⟨pre, rest, hbody, hpre, htext⟩ := List.map_eq_append_iff.mp htext
    obtain ⟨x, part, rfl, hx, hpart⟩ := List.map_eq_cons_iff.mp htext
    rw [tolower_separator.mp hx] at hbody
    have hrest : '1'.toUInt8 ∉ part ++ tail := by
      rw [List.mem_append, not_or]
      exact ⟨not_mem_separator hlt hpart, hnot⟩
    have hsplit : splitSeparator s = some (pre, part ++ tail) :=
      splitSeparator_iff.mpr ⟨by rw [hs, hbody, List.append_assoc, List.cons_append], hrest⟩
    have hpos : 0 < part.length := by
      have := congrArg List.length hpart
      rw [List.length_map, List.length_map] at this
      rw [this]
      exact List.length_pos_iff.mpr hne
    have hlength : (part ++ tail).length - 6 = part.length := by
      rw [List.length_append, htail, Nat.add_sub_cancel]
    unfold decode
    rw [hsplit, Option.bind_eq_bind, Option.bind_some]
    dsimp only
    rw [if_neg (by rw [List.length_append]; omega), hlength, List.take_left,
      mapM_decodeChar_iff.mpr ⟨hlt, hpart⟩, hpre]
    rfl

/-! ## Bytes -/

theorem shift_or {p : List Bool} (h : p.length < 8) (b : Bool) :
    (UInt8.ofNat (value p) <<< 1) ||| (if b then 1 else 0) = UInt8.ofNat (value (p ++ [b])) := by
  have hlt : value p < 2 ^ 7 :=
    Nat.lt_of_lt_of_le (value_lt p) (Nat.pow_le_pow_right (Nat.succ_pos 1) (by omega))
  have key : ∀ (n : Fin 128) (b : Bool),
      (UInt8.ofNat n <<< 1) ||| (if b then 1 else 0) = UInt8.ofNat (2 * n + b.toNat) := by
    decide
  rw [value_snoc]
  exact key ⟨value p, hlt⟩ b

/-- Eight bits make a byte. -/
theorem bitstreamLoop_fill (p : List Bool) {q : List Bool} (rest : List Bool)
    (h : p.length + q.length = 8) (hq : q ≠ []) :
    bitstreamLoop p.length (UInt8.ofNat (value p)) (q ++ rest)
      = UInt8.ofNat (value (p ++ q)) :: bitstreamToBytes rest := by
  induction q generalizing p with
  | nil => exact absurd rfl hq
  | cons b q ih =>
      rw [List.length_cons] at h
      rw [List.cons_append, bitstreamLoop, shift_or (by omega)]
      cases q with
      | nil =>
          rw [List.length_nil] at h
          rw [if_pos (by omega)]
          rfl
      | cons c q =>
          rw [if_neg (by rw [List.length_cons] at h; omega)]
          have hsnoc : (p ++ [b]).length = p.length + 1 := List.length_append
          have := ih (p ++ [b]) (by rw [hsnoc]; omega) (List.cons_ne_nil c q)
          rwa [hsnoc, List.append_assoc, List.singleton_append] at this

/-- **SPEC** of `bitstream_to_bytes`, where nothing is left over. -/
theorem bitstreamToBytes_groups {k : ℕ} {bs : List Bool} (h : bs.length = 8 * k) :
    bitstreamToBytes bs = (groups 8 k bs).map UInt8.ofNat := by
  induction k generalizing bs with
  | zero =>
      rw [List.eq_nil_of_length_eq_zero h]
      rfl
  | succ k ih =>
      have htake : (bs.take 8).length = 8 := by
        rw [List.length_take]
        omega
      have hfill := bitstreamLoop_fill [] (q := bs.take 8) (bs.drop 8)
        (by rw [htake]; rfl) (fun hnil => by rw [hnil] at htake; cases htake)
      rw [List.take_append_drop] at hfill
      rw [groups, List.map_cons, ← ih (by rw [List.length_drop]; omega)]
      exact hfill

/-- The bits of bytes. -/
def byteBits (bytes : List UInt8) : List Bool := (bytes.map UInt8.toNat).flatMap (bits 8)

theorem length_byteBits (bytes : List UInt8) : (byteBits bytes).length = 8 * bytes.length := by
  rw [byteBits, length_flatMap_bits, List.length_map]

theorem bitstreamToBytes_byteBits (bytes : List UInt8) :
    bitstreamToBytes (byteBits bytes) = bytes := by
  have hlt : ∀ v ∈ bytes.map UInt8.toNat, v < 2 ^ 8 := by
    intro v hv
    obtain ⟨b, -, rfl⟩ := List.mem_map.mp hv
    exact b.toNat_lt
  have hgroups := groups_flatMap hlt
  rw [List.length_map] at hgroups
  rw [bitstreamToBytes_groups (length_byteBits bytes), byteBits, hgroups, List.map_map]
  have hid : UInt8.ofNat ∘ UInt8.toNat = id := funext fun b => UInt8.ofNat_toNat
  rw [hid, List.map_id]

theorem byteBits_bitstreamToBytes {k : ℕ} {bs : List Bool} (h : bs.length = 8 * k) :
    byteBits (bitstreamToBytes bs) = bs ∧ (bitstreamToBytes bs).length = k := by
  rw [bitstreamToBytes_groups h, List.length_map, length_groups, byteBits, List.map_map]
  refine ⟨?_, rfl⟩
  have hid : (groups 8 k bs).map (UInt8.toNat ∘ UInt8.ofNat) = groups 8 k bs := by
    conv_rhs => rw [← List.map_id (groups 8 k bs)]
    exact List.map_congr_left (fun v hv => UInt8.toNat_ofNat_of_lt' (groups_lt 8 k bs v hv))
  rw [hid, flatMap_groups h]

/-- The version: five bits, and three zeros that are shifted out again. -/
theorem version_of_bits {v : ℕ} (h : v < 32) :
    (bitstreamToBytes (bits 5 v)).headD 0 >>> 3 = UInt8.ofNat v := by
  have key : ∀ v : Fin 32, (bitstreamToBytes (bits 5 v)).headD 0 >>> 3 = UInt8.ofNat v := by
    decide
  exact key ⟨v, h⟩

end Util.Bech32

/-! ## Addresses -/

namespace Bitcoin

open Util.Bech32

/-- The human-readable parts that are accepted. -/
def hrps : List (List UInt8) := ["bc".toUTF8.toList, "tb".toUTF8.toList, "bcrt".toUTF8.toList]

/-- The script of the bits of an address; `none` is `UnknownAddrType`. -/
def scriptOfData (data : List Bool) : Option (List UInt8) :=
  if data.length < 5 then none
  else
    -- Decode the segwit version, and remove the 3 bits padding.
    let segwitVersion := (bitstreamToBytes (data.take 5)).headD 0 >>> 3
    if ¬ ((segwitVersion = 0 ∧ (data.length = 5 + 160 ∨ data.length = 5 + 260))
        ∨ (segwitVersion = 1 ∧ data.length = 5 + 260)
        ∨ (2 ≤ segwitVersion ∧ segwitVersion ≤ 16)) then none
    else
      let witnessProgramSize := (data.length - 5) / 8
      -- From 2 to 40 bytes.
      if ¬ (2 ≤ witnessProgramSize ∧ witnessProgramSize ≤ 40) then none
      -- Any extra padding is zero, and 4 bits or less.
      else if ((data.drop 5).drop (8 * witnessProgramSize)).any id then none
      else if 5 ≤ ((data.drop 5).drop (8 * witnessProgramSize)).length then none
      else
        some ((if segwitVersion = 0 then 0x00 else 0x50 + segwitVersion)
          :: UInt8.ofNat witnessProgramSize
          :: bitstreamToBytes ((data.drop 5).take (8 * witnessProgramSize)))

/-- `addr_to_scriptPubKey`. -/
def addrToScriptPubKey (addr : List UInt8) : Option (List UInt8) :=
  match decode addr with
  | none             => none
  | some (hrp, data) =>
      if hrp ≠ "bc".toUTF8.toList ∧ hrp ≠ "tb".toUTF8.toList ∧ hrp ≠ "bcrt".toUTF8.toList then none
      else scriptOfData data

/-! ## What an address is -/

/-- The lengths of programs that go with a version. -/
def Allowed (version : ℕ) (program : List UInt8) : Prop :=
  (version = 0 ∧ (program.length = 20 ∨ program.length = 32))
    ∨ (version = 1 ∧ program.length = 32)
    ∨ (2 ≤ version ∧ version ≤ 16 ∧ 2 ≤ program.length ∧ program.length ≤ 40)

/-- The groups of an address: the version, and the program in groups of five bits. -/
def addressGroups (version : ℕ) (program : List UInt8) : List ℕ :=
  version :: regroup 5 (byteBits program)

/-- The script that an address stands for. -/
def scriptPubKey (version : ℕ) (program : List UInt8) : List UInt8 :=
  UInt8.ofNat (if version = 0 then 0x00 else 0x50 + version)
    :: UInt8.ofNat program.length :: program

theorem Allowed.length {version : ℕ} {program : List UInt8} (h : Allowed version program) :
    version < 32 ∧ 2 ≤ program.length ∧ program.length ≤ 40 := by
  unfold Allowed at h
  omega

theorem addressGroups_lt {version : ℕ} {program : List UInt8} (h : Allowed version program) :
    ∀ v ∈ addressGroups version program, v < 32 :=
  List.forall_mem_cons.mpr ⟨h.length.1, regroup_lt 5 _⟩

/-- The version as a byte. -/
theorem version_cases {v : ℕ} (h : v < 32) :
    (UInt8.ofNat v = 0 ↔ v = 0) ∧ (UInt8.ofNat v = 1 ↔ v = 1)
      ∧ (2 ≤ UInt8.ofNat v ∧ UInt8.ofNat v ≤ 16 ↔ 2 ≤ v ∧ v ≤ 16)
      ∧ (if UInt8.ofNat v = 0 then 0x00 else 0x50 + UInt8.ofNat v)
        = UInt8.ofNat (if v = 0 then 0x00 else 0x50 + v) := by
  have key : ∀ v : Fin 32, (UInt8.ofNat v = 0 ↔ v.1 = 0) ∧ (UInt8.ofNat v = 1 ↔ v.1 = 1)
      ∧ (2 ≤ UInt8.ofNat v ∧ UInt8.ofNat v ≤ 16 ↔ 2 ≤ v.1 ∧ v.1 ≤ 16)
      ∧ (if UInt8.ofNat v = 0 then 0x00 else 0x50 + UInt8.ofNat v)
        = UInt8.ofNat (if v.1 = 0 then 0x00 else 0x50 + v.1) := by
    decide
  exact key ⟨v, h⟩

theorem eq_replicate_of_any {bs : List Bool} (h : bs.any id = false) :
    bs = List.replicate bs.length false := by
  refine List.eq_replicate_iff.mpr ⟨rfl, fun b hb => ?_⟩
  have := List.any_eq_false.mp h b hb
  exact Bool.eq_false_iff.mpr this

/-- The version and the lengths that are asked for. -/
theorem scriptOfData_eq {v : ℕ} (hv : v < 32) (ws : List Bool) :
    scriptOfData (bits 5 v ++ ws) =
      if ¬ ((v = 0 ∧ (ws.length = 160 ∨ ws.length = 260)) ∨ (v = 1 ∧ ws.length = 260)
          ∨ (2 ≤ v ∧ v ≤ 16)) then none
      else if ¬ (2 ≤ ws.length / 8 ∧ ws.length / 8 ≤ 40) then none
      else if (ws.drop (8 * (ws.length / 8))).any id then none
      else if 5 ≤ (ws.drop (8 * (ws.length / 8))).length then none
      else some (UInt8.ofNat (if v = 0 then 0x00 else 0x50 + v) :: UInt8.ofNat (ws.length / 8)
        :: bitstreamToBytes (ws.take (8 * (ws.length / 8)))) := by
  have htake : (bits 5 v ++ ws).take 5 = bits 5 v := List.take_left' (length_bits 5 v)
  have hdrop : (bits 5 v ++ ws).drop 5 = ws := List.drop_left' (length_bits 5 v)
  have hlength : (bits 5 v ++ ws).length = 5 + ws.length := by
    rw [List.length_append, length_bits]
  obtain ⟨hzero, hone, hmore, hopcode⟩ := version_cases hv
  unfold scriptOfData
  rw [if_neg (by rw [hlength]; omega), htake, hdrop, hlength, version_of_bits hv]
  simp only [hzero, hone, hmore, ← hopcode, Nat.add_sub_cancel_left, Nat.add_left_cancel_iff]

/-- **SPEC** of the bits of an address: the groups of one version and one program. -/
theorem scriptOfData_iff {vs : List ℕ} {rv : List UInt8} (hne : vs ≠ []) (hlt : ∀ v ∈ vs, v < 32) :
    scriptOfData (vs.flatMap (bits 5)) = some rv ↔
      ∃ version program, Allowed version program ∧ vs = addressGroups version program
        ∧ rv = scriptPubKey version program := by
  obtain ⟨v, ws, rfl⟩ := List.exists_cons_of_ne_nil hne
  obtain ⟨hv, hws⟩ := List.forall_mem_cons.mp hlt
  rw [List.flatMap_cons, scriptOfData_eq hv]
  have hlength := length_flatMap_bits 5 ws
  constructor
  · intro h
    split at h
    · cases h
    rename_i hversion
    split at h
    · cases h
    rename_i hsize
    split at h
    · cases h
    rename_i hzero
    split at h
    · cases h
    rename_i hshort
    cases h
    rw [not_not] at hversion hsize
    rw [List.length_drop] at hshort
    generalize hn : (ws.flatMap (bits 5)).length / 8 = n at hsize hzero hshort
    have htake : ((ws.flatMap (bits 5)).take (8 * n)).length = 8 * n := by
      rw [List.length_take]
      omega
    obtain ⟨hbits, hbytes⟩ := byteBits_bitstreamToBytes htake
    refine ⟨v, bitstreamToBytes ((ws.flatMap (bits 5)).take (8 * n)), ?_, ?_, ?_⟩
    · unfold Allowed
      rw [hbytes]
      omega
    · -- what is left over is the padding of the program
      have hrest : (ws.flatMap (bits 5)).drop (8 * n)
          = List.replicate (padding 5 (8 * n)) false := by
        rw [eq_replicate_of_any (Bool.eq_false_iff.mpr hzero), List.length_drop]
        congr 1
        refine eq_padding (by omega) ⟨ws.length, ?_⟩
        omega
      refine congrArg (v :: ·) (flatMap_bits_inj (Nat.succ_pos 4) hws (regroup_lt 5 _) ?_)
      rw [flatMap_regroup (Nat.succ_pos 4), hbits, htake, ← hrest, List.take_append_drop]
    · unfold scriptPubKey
      rw [hbytes]
  · rintro ⟨version, program, hallowed, hvs, rfl⟩
    obtain ⟨rfl, rfl⟩ := List.cons.inj hvs
    have hpad : padding 5 (8 * program.length) < 5 := padding_lt (Nat.succ_pos 4) _
    have hbits := length_byteBits program
    rw [flatMap_regroup (w := 5) (Nat.succ_pos 4), hbits]
    have hall : (byteBits program ++ List.replicate (padding 5 (8 * program.length)) false).length
        = 8 * program.length + padding 5 (8 * program.length) := by
      rw [List.length_append, hbits, List.length_replicate]
    have hsize : (8 * program.length + padding 5 (8 * program.length)) / 8 = program.length := by
      omega
    rw [hall, hsize, List.take_left' hbits, List.drop_left' hbits, bitstreamToBytes_byteBits,
      List.length_replicate]
    have hlengths := hallowed.length
    have hpadding : program.length = 20 → padding 5 (8 * program.length) = 0 := by
      intro h
      rw [h]
      rfl
    have hpadding' : program.length = 32 → padding 5 (8 * program.length) = 4 := by
      intro h
      rw [h]
      rfl
    unfold Allowed at hallowed
    rw [if_neg (by rw [not_not]; omega), if_neg (by rw [not_not]; omega), if_neg, if_neg (by omega)]
    · rfl
    · rw [List.any_replicate, id_eq]
      simp

/-- **EXACTLY** the encodings of addresses are turned into scripts. -/
theorem addrToScriptPubKey_iff {addr rv : List UInt8} :
    addrToScriptPubKey addr = some rv ↔
      ∃ hrp ∈ hrps, ∃ version program, Allowed version program
        ∧ Encodes addr hrp (addressGroups version program) ∧ rv = scriptPubKey version program := by
  have hmem : ∀ hrp : List UInt8, ¬ (hrp ≠ "bc".toUTF8.toList ∧ hrp ≠ "tb".toUTF8.toList
      ∧ hrp ≠ "bcrt".toUTF8.toList) ↔ hrp ∈ hrps := by
    intro hrp
    unfold hrps
    rw [List.mem_cons, List.mem_cons, List.mem_singleton]
    tauto
  constructor
  · intro h
    unfold addrToScriptPubKey at h
    split at h
    · cases h
    rename_i hrp data hdecode
    obtain ⟨vs, hencodes, rfl⟩ := decode_iff.mp hdecode
    split at h
    · cases h
    rename_i hhrp
    obtain ⟨version, program, hallowed, rfl, rfl⟩ :=
      (scriptOfData_iff hencodes.some hencodes.values).mp h
    exact ⟨hrp, (hmem hrp).mp hhrp, version, program, hallowed, hencodes, rfl⟩
  · rintro ⟨hrp, hhrp, version, program, hallowed, hencodes, rfl⟩
    unfold addrToScriptPubKey
    rw [decode_iff.mpr ⟨_, hencodes, rfl⟩]
    dsimp only
    rw [if_neg ((hmem hrp).mpr hhrp)]
    exact (scriptOfData_iff hencodes.some hencodes.values).mpr
      ⟨version, program, hallowed, rfl, rfl⟩

/-- Letters of either case are read. -/
example : addrToScriptPubKey "BC1SW50QA3JX3S".toUTF8.toList = some [0x60, 0x02, 0x75, 0x1e] := by
  decide +kernel

/-- A script is short. -/
theorem length_addrToScriptPubKey {addr rv : List UInt8} (h : addrToScriptPubKey addr = some rv) :
    rv.length ≤ 42 := by
  obtain ⟨hrp, -, version, program, hallowed, -, rfl⟩ := addrToScriptPubKey_iff.mp h
  have := hallowed.length
  unfold scriptPubKey
  rw [List.length_cons, List.length_cons]
  omega

end Bitcoin

/-! ## Node ids -/

namespace DnsSeed

open Util.Bech32

/-- `decode_bech32_node`. -/
def decodeBech32Node (s : List UInt8) : Except (List UInt8) (List UInt8) :=
  match decode s with
  | none                => .error ("Not a bech32 string: ".toUTF8.toList ++ s)
  | some (_, bitstream) =>
      if bitstream.length ≠ 33 * 8 + 1 then .error ("Data part wrong size: ".toUTF8.toList ++ s)
      -- The last bit should be 0.
      else if bitstream.getD 264 false then .error ("Odd node id: ".toUTF8.toList ++ s)
      -- And should be removed.
      else .ok (bitstreamToBytes bitstream.dropLast)

/-- The groups of a node id. -/
def nodeGroups (node : List UInt8) : List ℕ := regroup 5 (byteBits node)

/-- The text of a node id is decoded to it. -/
theorem decodeBech32Node_of_encodes {s hrp node : List UInt8} (hnode : node.length = 33)
    (h : Encodes s hrp (nodeGroups node)) : decodeBech32Node s = .ok node := by
  have hbits : (byteBits node).length = 264 := by rw [length_byteBits, hnode]
  have hdata : (nodeGroups node).flatMap (bits 5) = byteBits node ++ [false] := by
    unfold nodeGroups
    rw [flatMap_regroup (Nat.succ_pos 4), hbits]
    rfl
  unfold decodeBech32Node
  rw [decode_iff.mpr ⟨_, h, rfl⟩]
  dsimp only
  rw [hdata, if_neg (by rw [List.length_append, hbits]; exact fun hne => hne rfl), if_neg,
    List.dropLast_concat, bitstreamToBytes_byteBits]
  rw [List.getD_append_right _ _ _ _ (Nat.le_of_eq hbits), hbits]
  exact Bool.false_ne_true

end DnsSeed

/-! ## Texts with a checksum -/

namespace Util.Bech32

/-- Six characters of the alphabet. -/
def IsChecksum (tail : List UInt8) : Prop := tail.length = 6 ∧ ∀ c ∈ tail, c ∈ bech32Chars

theorem not_mem_of_isChecksum {tail : List UInt8} (h : IsChecksum tail) : '1'.toUInt8 ∉ tail :=
  fun hmem => alphabet.2.2.2 (h.2 _ hmem)

theorem tolower_charOf {v : ℕ} (h : v < 32) : tolower (charOf v) = charOf v :=
  (decodeChar_iff.mp (decodeChar_charOf h)).2

/-- A text with a checksum is an encoding. -/
theorem encodes_textOf {hrp tail : List UInt8} {vs : List ℕ} (hne : vs ≠ [])
    (hlt : ∀ v ∈ vs, v < 32) (htail : IsChecksum tail) : Encodes (textOf hrp vs ++ tail) (hrp.map tolower) vs where
  some   := hne
  values := hlt
  text   := by
    refine ⟨_, tail, rfl, htail.1, not_mem_of_isChecksum htail, ?_⟩
    unfold textOf
    rw [List.map_append, List.map_cons, List.map_map, tolower_separator.mpr rfl]
    congr 2
    exact List.map_congr_left (fun v hv => tolower_charOf (hlt v hv))

end Util.Bech32

namespace Bitcoin

open Util.Bech32 DnsSeed

/-- **HEADLINE.**  The texts of addresses and of node ids are decoded to what was
    encoded, whatever the six characters of the checksum are, and a text that encodes
    no address of the three human-readable parts is refused. -/
theorem bech32_texts :
    (∀ hrp ∈ hrps, ∀ version program tail, Allowed version program → IsChecksum tail →
        addrToScriptPubKey (textOf hrp (addressGroups version program) ++ tail)
          = some (scriptPubKey version program))
      ∧ (∀ addr, (¬ ∃ hrp ∈ hrps, ∃ version program, Allowed version program
            ∧ Encodes addr hrp (addressGroups version program)) →
          addrToScriptPubKey addr = none)
      ∧ ∀ hrp node tail, node.length = 33 → IsChecksum tail →
          decodeBech32Node (textOf hrp (nodeGroups node) ++ tail) = .ok node := by
  refine ⟨?_, ?_, ?_⟩
  · intro hrp hhrp version program tail hallowed htail
    have hlower : hrp.map tolower = hrp := by
      have key : hrps.all (fun hrp => hrp.map tolower = hrp) = true := by decide +kernel
      exact of_decide_eq_true (List.all_eq_true.mp key hrp hhrp)
    have hencodes : Encodes (textOf hrp (addressGroups version program) ++ tail) (hrp.map tolower)
        (addressGroups version program) :=
      encodes_textOf (List.cons_ne_nil _ _) (addressGroups_lt hallowed) htail
    rw [hlower] at hencodes
    exact addrToScriptPubKey_iff.mpr ⟨hrp, hhrp, version, program, hallowed, hencodes, rfl⟩
  · intro addr hno
    cases h : addrToScriptPubKey addr with
    | none    => rfl
    | some rv =>
        obtain ⟨hrp, hhrp, version, program, hallowed, hencodes, -⟩ := addrToScriptPubKey_iff.mp h
        exact absurd ⟨hrp, hhrp, version, program, hallowed, hencodes⟩ hno
  · intro hrp node tail hnode htail
    have hne : nodeGroups node ≠ [] := by
      intro hnil
      have hbits := flatMap_regroup (w := 5) (Nat.succ_pos 4) (byteBits node)
      rw [show regroup 5 (byteBits node) = [] from hnil] at hbits
      have hlength := congrArg List.length hbits
      rw [List.length_append, length_byteBits, hnode, List.flatMap_nil, List.length_nil] at hlength
      omega
    exact decodeBech32Node_of_encodes hnode (encodes_textOf hne (regroup_lt 5 _) htail)

/-- The three parts of the above, at zeros. -/
theorem zero_texts :
    addrToScriptPubKey (textOf "bc".toUTF8.toList (addressGroups 0 (List.replicate 20 0))
        ++ List.replicate 6 (charOf 0)) = some (scriptPubKey 0 (List.replicate 20 0))
      ∧ addrToScriptPubKey [] = none
      ∧ decodeBech32Node (textOf "ln".toUTF8.toList (nodeGroups (List.replicate 33 0))
        ++ List.replicate 6 (charOf 0)) = .ok (List.replicate 33 0) := by
  have htail : IsChecksum (List.replicate 6 (charOf 0)) := by
    refine ⟨List.length_replicate, fun c hc => ?_⟩
    rw [List.eq_of_mem_replicate hc]
    decide +kernel
  refine ⟨bech32_texts.1 _ List.mem_cons_self 0 _ _ (Or.inl ⟨rfl, Or.inl rfl⟩) htail,
    bech32_texts.2.1 [] ?_, bech32_texts.2.2 _ _ _ rfl htail⟩
  rintro ⟨hrp, -, version, program, -, hencodes⟩
  obtain ⟨body, tail, hs, hsix, -⟩ := hencodes.text
  rw [(List.append_eq_nil_iff.mp hs.symm).2] at hsix
  cases hsix

end Bitcoin
