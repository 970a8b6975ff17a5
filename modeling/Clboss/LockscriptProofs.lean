import Clboss.SwapSetupProofs

/-! # `match_lockscript` — the template, and nothing else

    The matcher walks along the script with a cursor.  Each of its steps is the
    reading of one piece, and says exactly what the bytes before the cursor were
    (`expect_iff`, `get_iff`, `pubKey_iff`).  Put together they are the bytes of the
    `template`, and `expect_end` leaves no room behind it.

    So there is one script for the four fields and one choice of fields for a script:
    the two directions of `matchLockscript_iff`.  The locktime is the one field whose type is larger
    than what the script has room for. -/

namespace Boltz

open Await LittleEndian

variable {K : Type}

/-! ## The template -/

/-- Three bytes, little-endian. -/
def locktimeBytes (t : UInt32) : List UInt8 := [t.toUInt8, (t >>> 8).toUInt8, (t >>> 16).toUInt8]

/-- The script of four fields. -/
def Lockscript.template (l : Lockscript) : List UInt8 :=
  -- OP_SIZE push(32) OP_EQUAL OP_IF OP_HASH160 push(20)
  [0x82, 0x01, 0x20, 0x87, 0x63, 0xa9, 0x14] ++ (l.hash.d ++
  -- OP_EQUALVERIFY push(33)
  ([0x88, 0x21] ++ (l.pubkeyHash.d ++
  -- OP_ELSE OP_DROP push(3)
  ([0x67, 0x75, 0x03] ++ (locktimeBytes l.locktime ++
  -- OP_CHECKLOCKTIMEVERIFY OP_DROP push(33)
  ([0xb1, 0x75, 0x21] ++ (l.pubkeyLocktime.d ++
  -- OP_ENDIF OP_CHECKSIG
  [0x68, 0xac])))))))

/-- Fields that can be in a script: the keys are keys, and the locktime has three bytes. -/
structure Lockscript.Valid (c : SetupCrypto K) (l : Lockscript) : Prop where
  pubkeyHash     : c.isPubKey l.pubkeyHash = true
  pubkeyLocktime : c.isPubKey l.pubkeyLocktime = true
  locktime       : l.locktime.toNat < 2 ^ 24

/-! ## One step of the cursor -/

namespace ScriptReader

theorem bind_iff {α β : Type} {m : ScriptReader α} {k : α → ScriptReader β} {bs : List UInt8}
    {r : β × List UInt8} :
    (m >>= k) bs = some r ↔ ∃ a rest, m bs = some (a, rest) ∧ k a rest = some r := by
  show (m bs).bind (fun p => k p.1 p.2) = some r ↔ _
  rw [Option.bind_eq_some_iff]
  exact Prod.exists

theorem get_iff {n : ℕ} {bs rest : List UInt8} {a : { l : List UInt8 // l.length = n }} :
    ScriptReader.get n bs = some (a, rest) ↔ bs = a.1 ++ rest := by
  unfold ScriptReader.get
  constructor
  · intro h
    split at h
    · cases h
      exact (List.take_append_drop n bs).symm
    · cases h
  · intro h
    have hlength : n ≤ bs.length := by
      rw [h, List.length_append, a.2]
      omega
    have htake : bs.take n = a.1 := by rw [h, List.take_left' a.2]
    have hdrop : bs.drop n = rest := by rw [h, List.drop_left' a.2]
    rw [dif_pos hlength]
    exact congrArg some (Prod.ext (Subtype.ext htake) hdrop)

theorem expect_iff {v bs rest : List UInt8} :
    ScriptReader.expect v bs = some ((), rest) ↔ bs = v ++ rest := by
  unfold ScriptReader.expect
  rw [bind_iff]
  constructor
  · rintro ⟨a, rest', hget, h⟩
    split at h
    · rename_i ha
      cases h
      rw [← ha]
      exact get_iff.mp hget
    · cases h
  · intro h
    refine ⟨⟨v, rfl⟩, rest, get_iff.mpr h, ?_⟩
    rw [if_pos rfl]
    rfl

theorem pubKey_iff {c : SetupCrypto K} {bs rest : List UInt8} {k : PubKey} :
    ScriptReader.pubKey c bs = some (k, rest) ↔ bs = k.d ++ rest ∧ c.isPubKey k = true := by
  unfold ScriptReader.pubKey
  rw [bind_iff]
  constructor
  · rintro ⟨a, rest', hget, h⟩
    split at h
    · rename_i hkey
      cases h
      exact ⟨get_iff.mp hget, hkey⟩
    · cases h
  · rintro ⟨h, hkey⟩
    refine ⟨⟨k.d, k.length⟩, rest, get_iff.mpr h, ?_⟩
    rw [if_pos hkey]
    rfl

end ScriptReader

/-! ## The locktime -/

theorem toNat_locktimeOf (b0 b1 b2 : UInt8) :
    (locktimeOf [b0, b1, b2]).toNat = b0.toNat + 2 ^ 8 * b1.toNat + 2 ^ 16 * b2.toNat := by
  have h0 := b0.toNat_lt
  have h1 := b1.toNat_lt
  have e1 := or_byte32 (k := 8) b1 (UInt8.toNat_toUInt32 b0) h0 (by decide)
  exact or_byte32 (k := 16) b2 e1 (by simp only [UInt32.reduceToNat]; omega) (by decide)

/-- A byte of a locktime. -/
theorem toNat_shiftRight_byte (t k : UInt32) (hk : k.toNat < 32) :
    ((t >>> k).toUInt8).toNat = t.toNat / 2 ^ k.toNat % 256 := by
  rw [UInt32.toNat_toUInt8, UInt32.toNat_shiftRight, Nat.mod_eq_of_lt hk, Nat.shiftRight_eq_div_pow]

/-- Three bytes are written as they were read. -/
theorem locktimeBytes_locktimeOf {bs : List UInt8} (h : bs.length = 3) :
    locktimeBytes (locktimeOf bs) = bs ∧ (locktimeOf bs).toNat < 2 ^ 24 := by
  obtain ⟨b0, b1, b2, rfl⟩ := List.length_eq_three.mp h
  have h0 := b0.toNat_lt
  have h1 := b1.toNat_lt
  have h2 := b2.toNat_lt
  have hnat := toNat_locktimeOf b0 b1 b2
  refine ⟨?_, by omega⟩
  have e0 : (locktimeOf [b0, b1, b2]).toUInt8 = b0 := by
    apply UInt8.toNat_inj.mp
    rw [UInt32.toNat_toUInt8]
    omega
  have e1 : (locktimeOf [b0, b1, b2] >>> 8).toUInt8 = b1 := by
    apply UInt8.toNat_inj.mp
    rw [toNat_shiftRight_byte _ 8 (by decide), show (8 : UInt32).toNat = 8 from rfl]
    omega
  have e2 : (locktimeOf [b0, b1, b2] >>> 16).toUInt8 = b2 := by
    apply UInt8.toNat_inj.mp
    rw [toNat_shiftRight_byte _ 16 (by decide), show (16 : UInt32).toNat = 16 from rfl]
    omega
  rw [locktimeBytes, e0, e1, e2]

/-- A locktime of three bytes is read as it was written. -/
theorem locktimeOf_locktimeBytes {t : UInt32} (h : t.toNat < 2 ^ 24) :
    locktimeOf (locktimeBytes t) = t := by
  apply UInt32.toNat_inj.mp
  rw [locktimeBytes, toNat_locktimeOf, toNat_shiftRight_byte _ 8 (by decide),
    toNat_shiftRight_byte _ 16 (by decide), UInt32.toNat_toUInt8,
    show (8 : UInt32).toNat = 8 from rfl, show (16 : UInt32).toNat = 16 from rfl]
  omega

/-! ## The whole script -/

/-- **SPEC** of the cursor's walk: the template was there, and what is after it is left. -/
theorem lockscript_iff {c : SetupCrypto K} {script rest : List UInt8} {l : Lockscript} :
    lockscript c script = some (l, rest) ↔ script = l.template ++ rest ∧ l.Valid c := by
  unfold lockscript
  constructor
  · intro h
    obtain ⟨_, s₁, h₁, h⟩ := ScriptReader.bind_iff.mp h
    obtain ⟨hash, s₂, h₂, h⟩ := ScriptReader.bind_iff.mp h
    obtain ⟨_, s₃, h₃, h⟩ := ScriptReader.bind_iff.mp h
    obtain ⟨kh, s₄, h₄, h⟩ := ScriptReader.bind_iff.mp h
    obtain ⟨_, s₅, h₅, h⟩ := ScriptReader.bind_iff.mp h
    obtain ⟨t, s₆, h₆, h⟩ := ScriptReader.bind_iff.mp h
    obtain ⟨_, s₇, h₇, h⟩ := ScriptReader.bind_iff.mp h
    obtain ⟨kt, s₈, h₈, h⟩ := ScriptReader.bind_iff.mp h
    obtain ⟨_, s₉, h₉, h⟩ := ScriptReader.bind_iff.mp h
    cases h
    obtain ⟨h₄, hkh⟩ := ScriptReader.pubKey_iff.mp h₄
    obtain ⟨h₈, hkt⟩ := ScriptReader.pubKey_iff.mp h₈
    obtain ⟨htime, htlt⟩ := locktimeBytes_locktimeOf t.2
    refine ⟨?_, hkh, hkt, htlt⟩
    rw [ScriptReader.expect_iff.mp h₁, ScriptReader.get_iff.mp h₂, ScriptReader.expect_iff.mp h₃,
      h₄, ScriptReader.expect_iff.mp h₅, ScriptReader.get_iff.mp h₆, ScriptReader.expect_iff.mp h₇, h₈,
      ScriptReader.expect_iff.mp h₉, Lockscript.template, htime]
    simp only [List.append_assoc]
  · rintro ⟨rfl, hkh, hkt, htlt⟩
    rw [Lockscript.template]
    simp only [List.append_assoc]
    refine ScriptReader.bind_iff.mpr ⟨(), _, ScriptReader.expect_iff.mpr rfl, ?_⟩
    refine ScriptReader.bind_iff.mpr
      ⟨⟨l.hash.d, l.hash.length⟩, _, ScriptReader.get_iff.mpr rfl, ?_⟩
    refine ScriptReader.bind_iff.mpr ⟨(), _, ScriptReader.expect_iff.mpr rfl, ?_⟩
    refine ScriptReader.bind_iff.mpr ⟨l.pubkeyHash, _, ScriptReader.pubKey_iff.mpr ⟨rfl, hkh⟩, ?_⟩
    refine ScriptReader.bind_iff.mpr ⟨(), _, ScriptReader.expect_iff.mpr rfl, ?_⟩
    refine ScriptReader.bind_iff.mpr ⟨⟨locktimeBytes l.locktime, rfl⟩, _,
      ScriptReader.get_iff.mpr rfl, ?_⟩
    refine ScriptReader.bind_iff.mpr ⟨(), _, ScriptReader.expect_iff.mpr rfl, ?_⟩
    refine ScriptReader.bind_iff.mpr
      ⟨l.pubkeyLocktime, _, ScriptReader.pubKey_iff.mpr ⟨rfl, hkt⟩, ?_⟩
    refine ScriptReader.bind_iff.mpr ⟨(), _, ScriptReader.expect_iff.mpr rfl, ?_⟩
    show some ((⟨_, _, locktimeOf (locktimeBytes l.locktime), _⟩ : Lockscript), rest) = _
    rw [locktimeOf_locktimeBytes htlt]

/-- **EXACTLY** the template is accepted, with the fields it was made of. -/
theorem matchLockscript_iff_template (c : SetupCrypto K) (script : List UInt8) (l : Lockscript) :
    matchLockscript c script = some l ↔ script = l.template ∧ l.Valid c := by
  have hwalk := @lockscript_iff K c script [] l
  rw [List.append_nil] at hwalk
  rw [← hwalk]
  unfold matchLockscript
  constructor
  · intro h
    split at h
    · rename_i hrun
      cases h
      exact hrun
    · cases h
  · intro h
    rw [h]

end Boltz
