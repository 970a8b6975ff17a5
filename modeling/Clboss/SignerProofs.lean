import Clboss.MachineProofs
import Clboss.SegmentProofs

/-! # `Boss::Signer` — one key for all time

    Every start of the program constructs its signer anew: the key file is
    created unless it is there, the key is read back from it, and its public key
    is compared with the one in the database, or put there by the first start
    that gets so far.  A start may be cut short anywhere, by an error or by a
    crash, and between two starts the file may be lost, replaced or truncated.

    Whatever happens to the file, all signers that are ever handed out have ONE
    public key (`run_one_pubkey`); while nobody touches the file they have one
    private key; and a file that a crash left too short is never read as a key. -/

namespace Signer

open Segments

/-- `sizeof(Secp256k1::PrivKey)`. -/
def keySize : ℕ := 32

variable {Point : Type}

/-- What the curve library does: the public key of 32 bytes, if they are a valid private
    key, and the text of a public key and back. -/
structure Curve (Point : Type) where
  pubKey    : List UInt8 → Option Point
  stringify : Point → List UInt8
  ofString  : List UInt8 → Option Point

/-- The key file, and the row of the table `Boss::Signer`. -/
structure State where
  file : Option (List UInt8)
  row  : Option (List UInt8)
deriving DecidableEq

def State.init : State := ⟨none, none⟩

/-- How a write that does not come to its end is left: the file is removed, or what was
    written stays, after a crash or where it cannot be removed. -/
inductive Stop where
  | removed
  | kept

/-- What the system does in one start. -/
structure Start where
  /-- The key that is drawn, if one has to be. -/
  random   : List UInt8
  size     : random.length = keySize
  /-- What the `write`s take, and what stops them otherwise. -/
  portions : List ℕ
  stop     : Stop
  /-- Whether the program lives to open the file again. -/
  alive    : Bool
  /-- Where the `read`s end. -/
  cuts     : List ℕ
  /-- Whether the transaction is committed. -/
  commits  : Bool
  /-- Whether the program lives to use the signer. -/
  returns  : Bool

inductive Event where
  | start (b : Start)
  /-- Somebody else does something to the file. -/
  | tamper (file : Option (List UInt8))

inductive Output where
  | signer (sk : List UInt8)

/-- `try_create_privkey_file`: the file afterwards, and whether the program goes on. -/
def tryCreatePrivkeyFile (file : Option (List UInt8)) (b : Start) : Option (List UInt8) × Bool :=
  match file with
  | some f => (some f, true)
  | none   =>
      let r := writeAll b.portions b.random
      if r.1 then (some b.random, true)
      else match b.stop with
        | .removed => (none, false)
        | .kept    => (some r.2.1, false)

/-- The pieces in which a file is read. -/
def pieces : List ℕ → List UInt8 → List (List UInt8)
  | [], bytes      => [bytes]
  | k :: ks, bytes => bytes.take k :: pieces ks (bytes.drop k)

/-- `read_privkey_file`. -/
def readPrivkeyFile (file : Option (List UInt8)) (b : Start) : Option (List UInt8) :=
  match file with
  | none   => none
  | some f => (readAll keySize (pieces b.cuts f)).1

/-- The transaction: the row afterwards, and whether the key may be used. -/
def checkPubkey (curve : Curve Point) [DecidableEq Point] (row : Option (List UInt8))
    (sk : List UInt8) (b : Start) : Option (List UInt8) × Bool :=
  match row with
  | none   =>
      match curve.pubKey sk with
      | none   => (none, false)
      | some p => if b.commits then (some (curve.stringify p), true) else (none, false)
  | some t =>
      (some t, b.commits && decide ((curve.ofString t).isSome ∧ curve.ofString t = curve.pubKey sk))

/-- `construct`. -/
def construct (curve : Curve Point) [DecidableEq Point] (s : State) (b : Start) :
    State × List Output :=
  let created := tryCreatePrivkeyFile s.file b
  if created.2 && b.alive then
    match readPrivkeyFile created.1 b with
    | none    => ({ s with file := created.1 }, [])
    | some sk =>
        let checked := checkPubkey curve s.row sk b
        (⟨created.1, checked.1⟩, if checked.2 && b.returns then [.signer sk] else [])
  else ({ s with file := created.1 }, [])

def step (curve : Curve Point) [DecidableEq Point] (s : State) : Event → Option (State × List Output)
  | .start b     => some (construct curve s b)
  | .tamper file => some ({ s with file := file }, [])

abbrev run (curve : Curve Point) [DecidableEq Point] := Machine.run (step curve)

/-! ## The file -/

theorem flatten_pieces (ks : List ℕ) (bytes : List UInt8) : (pieces ks bytes).flatten = bytes := by
  induction ks generalizing bytes with
  | nil => simp [pieces]
  | cons k ks ih => rw [pieces, List.flatten_cons, ih, List.take_append_drop]

/-- **SPEC**: a file is read as its first 32 bytes, wherever the reads end; a shorter one is
    not read at all. -/
theorem readPrivkeyFile_eq (f : List UInt8) (b : Start) :
    readPrivkeyFile (some f) b = if keySize ≤ f.length then some (f.take keySize) else none := by
  simp only [readPrivkeyFile]
  by_cases h : keySize ≤ f.length
  · rw [if_pos h, (readAll_of_le (by decide) (by rw [flatten_pieces]; exact h)).1, flatten_pieces]
  · rw [if_neg h, readAll_of_lt (by rw [flatten_pieces]; omega)]

/-- A key that was read has 32 bytes, the first of the file. -/
theorem readPrivkeyFile_some {file : Option (List UInt8)} {b : Start} {sk : List UInt8}
    (h : readPrivkeyFile file b = some sk) :
    sk.length = keySize ∧ ∃ f, file = some f ∧ f.take keySize = sk := by
  cases file with
  | none => exact nomatch h
  | some f =>
      rw [readPrivkeyFile_eq] at h
      by_cases hlen : keySize ≤ f.length
      · rw [if_pos hlen] at h
        cases h
        exact ⟨List.length_take_of_le hlen, f, rfl, rfl⟩
      · rw [if_neg hlen] at h
        exact nomatch h

/-- A file that is there is not created again. -/
theorem tryCreatePrivkeyFile_some (f : List UInt8) (b : Start) :
    tryCreatePrivkeyFile (some f) b = (some f, true) := rfl

/-! ## One start -/

variable {curve : Curve Point}

/-- The row goes with a key: it is the text of the key's public key. -/
def Holds (curve : Curve Point) (row : Option (List UInt8)) (sk : List UInt8) : Prop :=
  ∃ p, curve.pubKey sk = some p ∧ ∃ t, row = some t ∧ curve.ofString t = some p

/-- What goes with a row that stays, still does. -/
theorem Holds.mono {row row' : Option (List UInt8)} {sk : List UInt8} (h : Holds curve row sk)
    (hstay : ∀ t, row = some t → row' = some t) : Holds curve row' sk := by
  obtain ⟨p, hp, t, ht, hof⟩ := h
  exact ⟨p, hp, t, hstay t ht, hof⟩

/-- Two keys that go with one row have one public key. -/
theorem Holds.unique {row : Option (List UInt8)} {sk sk' : List UInt8} (h : Holds curve row sk)
    (h' : Holds curve row sk') : curve.pubKey sk = curve.pubKey sk' := by
  obtain ⟨p, hp, t, ht, hof⟩ := h
  obtain ⟨p', hp', t', ht', hof'⟩ := h'
  have htext : t = t' := Option.some.inj (ht ▸ ht')
  have hpoint : p = p' := Option.some.inj (by rw [← hof, ← hof', htext])
  rw [hp, hp', hpoint]

variable [DecidableEq Point]

/-- A row that is there stays. -/
theorem checkPubkey_some (t sk : List UInt8) (b : Start) :
    (checkPubkey curve (some t) sk b).1 = some t := rfl

/-- **SPEC**: a key that may be used goes with the row there is afterwards. -/
theorem holds_of_checkPubkey (hround : ∀ p, curve.ofString (curve.stringify p) = some p)
    {row : Option (List UInt8)} {sk : List UInt8} {b : Start}
    (h : (checkPubkey curve row sk b).2 = true) :
    Holds curve (checkPubkey curve row sk b).1 sk := by
  cases row with
  | none =>
      simp only [checkPubkey] at h ⊢
      cases hp : curve.pubKey sk with
      | none =>
          rw [hp] at h
          exact nomatch h
      | some p =>
          rw [hp] at h
          cases hc : b.commits with
          | false => simp [hc] at h
          | true => exact ⟨p, hp, curve.stringify p, by simp, hround p⟩
  | some t =>
      simp only [checkPubkey, Bool.and_eq_true, decide_eq_true_eq] at h
      obtain ⟨_, hsome, heq⟩ := h
      obtain ⟨p, hp⟩ := Option.isSome_iff_exists.mp hsome
      exact ⟨p, heq ▸ hp, t, rfl, hp⟩

/-- Everything a start can do: the file that is there stays, the row that is there stays,
    and what is handed out was read from the file and goes with the row. -/
theorem construct_spec (hround : ∀ p, curve.ofString (curve.stringify p) = some p)
    (s : State) (b : Start) :
    (∀ f, s.file = some f → (construct curve s b).1.file = some f)
      ∧ (∀ t, s.row = some t → (construct curve s b).1.row = some t)
      ∧ ∀ sk, .signer sk ∈ (construct curve s b).2 → sk.length = keySize
          ∧ (∃ f, (construct curve s b).1.file = some f ∧ f.take keySize = sk)
          ∧ Holds curve (construct curve s b).1.row sk := by
  have hfile : ∀ f, s.file = some f → (tryCreatePrivkeyFile s.file b).1 = some f := by
    intro f hf
    rw [hf, tryCreatePrivkeyFile_some]
  unfold construct
  by_cases hgo : ((tryCreatePrivkeyFile s.file b).2 && b.alive) = true
  · simp only [hgo, if_true]
    cases hread : readPrivkeyFile (tryCreatePrivkeyFile s.file b).1 b with
    | none => exact ⟨hfile, fun _ ht => ht, nofun⟩
    | some sk =>
        refine ⟨hfile, ?_, ?_⟩
        · intro t ht
          show (checkPubkey curve s.row sk b).1 = some t
          rw [ht, checkPubkey_some]
        · intro sk' hsk'
          by_cases hok : ((checkPubkey curve s.row sk b).2 && b.returns) = true
          · simp only [hok, if_true, List.mem_singleton] at hsk'
            cases hsk'
            obtain ⟨hlen, f, hf, htake⟩ := readPrivkeyFile_some hread
            have hholds := holds_of_checkPubkey hround (Bool.and_eq_true_iff.mp hok).1
            exact ⟨hlen, ⟨f, hf, htake⟩, hholds⟩
          · simp only [hok] at hsk'
            exact nomatch hsk'
  · simp only [hgo]
    exact ⟨hfile, fun _ ht => ht, nofun⟩

/-! ## A run -/

/-- **INVARIANT**: every signer so far has 32 bytes and goes with the row; while nobody
    touched the file, it is the beginning of the file. -/
structure Inv (curve : Curve Point) (events : List Event) (outputs : List Output) (s : State) :
    Prop where
  key  : ∀ sk, .signer sk ∈ outputs → sk.length = keySize ∧ Holds curve s.row sk
  file : (∀ file, .tamper file ∉ events) →
    ∀ sk, .signer sk ∈ outputs → ∃ f, s.file = some f ∧ f.take keySize = sk

/-- **STEP**: a start, or somebody else, keeps the invariant. -/
theorem inv_step (hround : ∀ p, curve.ofString (curve.stringify p) = some p)
    {events : List Event} {outputs out : List Output} {s s' : State} {e : Event}
    (h : Inv curve events outputs s) (hs : step curve s e = some (s', out)) :
    Inv curve (events ++ [e]) (outputs ++ out) s' := by
  cases e with
  | tamper file =>
      simp only [step, Option.some.injEq, Prod.mk.injEq] at hs
      obtain ⟨rfl, rfl⟩ := hs
      constructor
      · intro sk hsk
        exact h.key sk (by simpa using hsk)
      · intro htamper
        exact absurd (List.mem_append_right events List.mem_cons_self) (htamper file)
  | start b =>
      simp only [step, Option.some.injEq] at hs
      obtain ⟨hfile, hrow, hout⟩ := construct_spec hround s b
      rw [hs] at hfile hrow hout
      simp only at hfile hrow hout
      constructor
      · intro sk hsk
        obtain hsk | hsk := List.mem_append.mp hsk
        · obtain ⟨hlen, hholds⟩ := h.key sk hsk
          exact ⟨hlen, hholds.mono hrow⟩
        · obtain ⟨hlen, -, hholds⟩ := hout sk hsk
          exact ⟨hlen, hholds⟩
      · intro htamper sk hsk
        have hbefore : ∀ file, .tamper file ∉ events := fun file hmem =>
          htamper file (List.mem_append_left _ hmem)
        obtain hsk | hsk := List.mem_append.mp hsk
        · obtain ⟨f, hf, htake⟩ := h.file hbefore sk hsk
          exact ⟨f, hfile f hf, htake⟩
        · exact (hout sk hsk).2.1

/-- **RUN**: the invariant holds after every run. -/
theorem inv_run (hround : ∀ p, curve.ofString (curve.stringify p) = some p)
    {events : List Event} {outputs : List Output} {s : State}
    (hrun : run curve State.init events = some (s, outputs)) : Inv curve events outputs s :=
  Machine.run_invariant (P := fun _ _ => True) ⟨nofun, fun _ => nofun⟩
    (fun _ _ _ _ _ _ h _ hs => inv_step hround h hs) (Machine.along_true _ _) hrun

/-- **PROGRESS**: where a key has been handed out and the file is still that key's, the next
    start that nothing stops hands out the same. -/
theorem construct_again {s : State} {sk f : List UInt8} (hlen : sk.length = keySize)
    (hf : s.file = some f) (htake : f.take keySize = sk) (hholds : Holds curve s.row sk)
    {b : Start} (halive : b.alive = true) (hcommits : b.commits = true)
    (hreturns : b.returns = true) : construct curve s b = (s, [.signer sk]) := by
  obtain ⟨p, hp, t, ht, hof⟩ := hholds
  have hsize : keySize ≤ f.length := by
    rw [← htake, List.length_take] at hlen
    omega
  unfold construct
  rw [hf, tryCreatePrivkeyFile_some]
  simp only [halive, Bool.and_self, if_true]
  rw [readPrivkeyFile_eq, if_pos hsize, htake]
  simp only [ht, checkPubkey, hcommits, hreturns, hof, hp, Option.isSome_some, and_self,
    decide_true, Bool.and_self, if_true]
  obtain ⟨file, row⟩ := s
  simp only at hf ht
  rw [hf, ht]

/-- **HEADLINE**: over every run of starts, each stopped anywhere or not, whatever is done to
    the file between them, all signers handed out have one public key, the one in the
    database.  While nobody touches the file they are one key of 32 bytes, and every start
    that nothing stops hands it out again. -/
theorem run_one_pubkey (curve : Curve Point)
    (hround : ∀ p, curve.ofString (curve.stringify p) = some p)
    (events : List Event) (outputs : List Output) (s : State)
    (hrun : run curve State.init events = some (s, outputs)) :
    (∀ sk, .signer sk ∈ outputs → sk.length = keySize
        ∧ ∃ p t, curve.pubKey sk = some p ∧ s.row = some t ∧ curve.ofString t = some p)
      ∧ (∀ sk sk', .signer sk ∈ outputs → .signer sk' ∈ outputs →
          curve.pubKey sk = curve.pubKey sk')
      ∧ ((∀ file, .tamper file ∉ events) →
          (∀ sk sk', .signer sk ∈ outputs → .signer sk' ∈ outputs → sk = sk')
          ∧ ∀ sk b, .signer sk ∈ outputs → b.alive = true → b.commits = true →
              b.returns = true → step curve s (.start b) = some (s, [.signer sk])) := by
  have hinv := inv_run hround hrun
  refine ⟨?_, ?_, ?_⟩
  · intro sk hsk
    obtain ⟨hlen, p, hp, t, ht, hof⟩ := hinv.key sk hsk
    exact ⟨hlen, p, t, hp, ht, hof⟩
  · intro sk sk' hsk hsk'
    exact (hinv.key sk hsk).2.unique (hinv.key sk' hsk').2
  · intro htamper
    constructor
    · intro sk sk' hsk hsk'
      obtain ⟨f, hf, htake⟩ := hinv.file htamper sk hsk
      obtain ⟨f', hf', htake'⟩ := hinv.file htamper sk' hsk'
      have hfile : f = f' := Option.some.inj (hf ▸ hf')
      rw [← htake, ← htake', hfile]
    · intro sk b hsk halive hcommits hreturns
      obtain ⟨f, hf, htake⟩ := hinv.file htamper sk hsk
      obtain ⟨hlen, hholds⟩ := hinv.key sk hsk
      rw [step, construct_again hlen hf htake hholds halive hcommits hreturns]

/-- A curve for which every 32 bytes are their own public key. -/
def sampleCurve : Curve (List UInt8) := ⟨some, id, some⟩

/-- A start that nothing stops, and that draws the key `c c … c`. -/
def sampleStart (c : UInt8) : Start :=
  ⟨List.replicate keySize c, List.length_replicate, [8, 24], .removed, true, [5], true, true⟩

/-- A start that draws a key, one that reads it again, one that finds another's file and
    refuses it, and one that finds the key back. -/
def sampleEvents : List Event :=
  [.start (sampleStart 7), .start (sampleStart 8), .tamper (some (List.replicate keySize 9)),
    .start (sampleStart 8), .tamper (some (List.replicate keySize 7)), .start (sampleStart 8)]

theorem run_one_pubkey_sample :
    ∃ s outputs, run sampleCurve State.init sampleEvents = some (s, outputs)
      ∧ outputs.length = 3
      ∧ ∃ p t, sampleCurve.pubKey (List.replicate keySize 7) = some p ∧ s.row = some t
          ∧ sampleCurve.ofString t = some p := by
  have hrun : run sampleCurve State.init sampleEvents
      = some (⟨some (List.replicate keySize 7), some (List.replicate keySize 7)⟩,
        List.replicate 3 (.signer (List.replicate keySize 7))) := by rfl
  have hmem : Output.signer (List.replicate keySize 7)
      ∈ List.replicate 3 (.signer (List.replicate keySize 7)) := List.mem_cons_self
  obtain ⟨hkey, -, -⟩ := run_one_pubkey sampleCurve (fun _ => rfl) _ _ _ hrun
  exact ⟨_, _, hrun, rfl, (hkey _ hmem).2⟩

end Signer
